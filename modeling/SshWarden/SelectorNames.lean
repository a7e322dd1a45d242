import SshWarden.Injection
import SshWarden.SelectorFiles
import SshWarden.Lib.Components

/-!
# Names of selector files

A key may have any name and any id; its file has a name of lower-case letters, digits, dashes and underscores
and the letters and digits that its id begins with, so that it stays in the selector directory. Two ids that
begin differently are told apart by it.
-/

namespace SshWarden
open Text.Path (components IsName)

variable {toLowercase : Char → List Char}

/-- A name of allowed characters with no dash at its ends. -/
structure Slug (s : Text) : Prop where
  nonempty : s ≠ []
  chars : ∀ c ∈ s, isSlugChar c = true ∧ c.isUpper = false
  head : s.head? ≠ some '-'
  last : s.getLast? ≠ some '-'

theorem toNat_of_isSlugChar {c : Char} (h : isSlugChar c = true) : 45 ≤ c.toNat ∧ c.toNat < 123 := by
  simp only [isSlugChar, Bool.or_eq_true, decide_eq_true_eq] at h
  rcases h with (h | rfl) | rfl
  · have hbounds := Text.toNat_of_isAsciiAlphanumeric h
    omega
  · decide
  · decide

/-- A slug is slugified to itself. -/
theorem Slug.slugify_eq_self {s : Text} (h : Slug s) (laws : Text.LowercaseLaws toLowercase) :
    slugifyKeyName toLowercase s = s := by
  have hlower : s.flatMap toLowercase = s := by
    refine laws.flatMap_eq_self fun c hc => ⟨?_, (h.chars c hc).2⟩
    have hbounds := toNat_of_isSlugChar (h.chars c hc).1
    omega
  unfold slugifyKeyName
  rw [hlower, foldl_slugStep, Text.collapse_of_allowed fun c hc => (h.chars c hc).1]
  dsimp only
  rw [Text.trimMatches_eq_self h.head h.last, if_neg h.nonempty]

theorem slug_of_empty : Slug "ssh-key".toList where
  nonempty := by decide
  chars c hc := by
    have hall : "ssh-key".toList.all (fun c => isSlugChar c && !c.isUpper) = true := by decide
    simpa using List.all_eq_true.1 hall c hc
  head := by decide
  last := by decide

theorem slug_slugifyKeyName (laws : Text.LowercaseLaws toLowercase) (name : Text) :
    Slug (slugifyKeyName toLowercase name) := by
  unfold slugifyKeyName
  rw [foldl_slugStep]
  dsimp only
  split_ifs with hempty
  · exact slug_of_empty
  · refine ⟨hempty, fun c hc => ?_, Text.head?_trimMatches _ _, Text.getLast?_trimMatches _ _⟩
    rcases Text.mem_collapse (Text.mem_of_mem_trimMatches hc) with rfl | ⟨hallowed, hc⟩
    · decide
    · exact ⟨hallowed, laws.not_upper_flatMap name c hc⟩

theorem slugifyKeyName_idem (laws : Text.LowercaseLaws toLowercase) (name : Text) :
    slugifyKeyName toLowercase (slugifyKeyName toLowercase name) = slugifyKeyName toLowercase name :=
  (slug_slugifyKeyName laws name).slugify_eq_self laws

/-- A name before its extension: a slug's characters, and letters and digits of the id. -/
structure SelectorStem (cipherId stem : Text) : Prop where
  nonempty : stem ≠ []
  chars : ∀ c ∈ stem, isSlugChar c = true ∧ c.isUpper = false ∨ Text.isAsciiAlphanumeric c = true ∧ c ∈ cipherId
  head : stem.head? ≠ some '-'

def pubExtension : Text := ['.', 'p', 'u', 'b']

/-- A file in the selector directory. -/
structure SelectorName (cipherId fileName : Text) : Prop where
  stem : ∃ stem, SelectorStem cipherId stem ∧ fileName = stem ++ pubExtension
  head : fileName.head? ≠ some '-'
  no_separator : '/' ∉ fileName ∧ '\\' ∉ fileName
  component : components fileName = [.normal fileName]
  inside : ∀ dir, components (Text.Path.join dir fileName) = components dir ++ [.normal fileName]

theorem mem_vaultItemIdPrefix {id : Text} {c : Char} (h : c ∈ vaultItemIdPrefix id) :
    Text.isAsciiAlphanumeric c = true ∧ c ∈ id :=
  (List.mem_filter.1 (List.mem_of_mem_take h)).symm

theorem Slug.stem {s : Text} (h : Slug s) (cipherId : Text) : SelectorStem cipherId s :=
  ⟨h.nonempty, fun c hc => .inl (h.chars c hc), h.head⟩

theorem Slug.stem_append {s : Text} (h : Slug s) (cipherId : Text) :
    SelectorStem cipherId (s ++ '-' :: '-' :: vaultItemIdPrefix cipherId) := by
  refine ⟨List.append_ne_nil_of_left_ne_nil h.nonempty _, fun c hc => ?_, ?_⟩
  · rcases List.mem_append.1 hc with hc | hc
    · exact .inl (h.chars c hc)
    rcases List.mem_cons.1 hc with rfl | hc
    · exact .inl (by decide)
    rcases List.mem_cons.1 hc with rfl | hc
    · exact .inl (by decide)
    · exact .inr (mem_vaultItemIdPrefix hc)
  · rw [List.head?_append_of_ne_nil _ h.nonempty]
    exact h.head

theorem exists_stem (laws : Text.LowercaseLaws toLowercase) (name id : Text) :
    ∃ stem, SelectorStem id stem ∧ selectorFileName toLowercase name id = stem ++ pubExtension := by
  have hslug := slug_slugifyKeyName laws name
  have hpub : ".pub".toList = pubExtension := by decide
  have hdash : "--".toList = ['-', '-'] := by decide
  unfold selectorFileName
  rw [hpub, hdash]
  split_ifs
  · exact ⟨_, hslug.stem id, rfl⟩
  · exact ⟨_, hslug.stem_append id, by simp⟩

namespace SelectorStem
variable {cipherId stem : Text}

theorem isSlugChar_of_mem (h : SelectorStem cipherId stem) {c : Char} (hc : c ∈ stem) : isSlugChar c = true := by
  rcases h.chars c hc with hc | hc
  · exact hc.1
  · rw [isSlugChar, hc.1]
    rfl

theorem not_mem (h : SelectorStem cipherId stem) {c : Char} (hc : isSlugChar c = false) : c ∉ stem := by
  intro hmem
  rw [h.isSlugChar_of_mem hmem] at hc
  cases hc

theorem not_mem_fileName (h : SelectorStem cipherId stem) {c : Char} (hc : isSlugChar c = false)
    (hpub : c ∉ pubExtension) : c ∉ stem ++ pubExtension := by
  rw [List.mem_append]
  exact fun hmem => hmem.elim (h.not_mem hc) hpub

theorem isName (h : SelectorStem cipherId stem) : IsName (stem ++ pubExtension) where
  nonempty := List.append_ne_nil_of_left_ne_nil h.nonempty _
  not_cur heq := absurd (congrArg List.length heq) (by simp [pubExtension])
  not_up heq := absurd (congrArg List.length heq) (by simp [pubExtension])
  no_slash := h.not_mem_fileName (by decide) (by decide)

theorem selectorName (h : SelectorStem cipherId stem) : SelectorName cipherId (stem ++ pubExtension) where
  stem := ⟨stem, h, rfl⟩
  head := by
    rw [List.head?_append_of_ne_nil _ h.nonempty]
    exact h.head
  no_separator := ⟨h.not_mem_fileName (by decide) (by decide), h.not_mem_fileName (by decide) (by decide)⟩
  component := h.isName.components
  inside dir := Text.Path.components_join_name dir h.isName

end SelectorStem

theorem selectorName_selectorFileName (laws : Text.LowercaseLaws toLowercase) (name id : Text) :
    SelectorName id (selectorFileName toLowercase name id) := by
  obtain ⟨stem, hstem, hname⟩ := exists_stem laws name id
  rw [hname]
  exact hstem.selectorName

/-- Neither name has the ending of the other one's key. -/
structure NamesApart (fileName fileName' : Text) (idPrefix idPrefix' : Text) : Prop where
  ne : fileName ≠ fileName'
  not_alias : ¬SelectorEnv.aliasSuffix idPrefix' <:+ fileName
  not_alias' : ¬SelectorEnv.aliasSuffix idPrefix <:+ fileName'

theorem namesApart_of_prefixes (name name' : Text) {id id' : Text} (h : vaultItemIdPrefix id ≠ [])
    (h' : vaultItemIdPrefix id' ≠ []) (hne : vaultItemIdPrefix id ≠ vaultItemIdPrefix id') :
    NamesApart (selectorFileName toLowercase name id) (selectorFileName toLowercase name' id')
      (vaultItemIdPrefix id) (vaultItemIdPrefix id') := by
  have hdash := SelectorEnv.dash_not_mem_vaultItemIdPrefix
  have hown : SelectorEnv.aliasSuffix (vaultItemIdPrefix id) <:+ selectorFileName toLowercase name id :=
    SelectorEnv.aliasSuffix_suffix_selectorFileName name h
  have hown' : SelectorEnv.aliasSuffix (vaultItemIdPrefix id') <:+ selectorFileName toLowercase name' id' :=
    SelectorEnv.aliasSuffix_suffix_selectorFileName name' h'
  have happart : ¬SelectorEnv.aliasSuffix (vaultItemIdPrefix id') <:+ selectorFileName toLowercase name id :=
    fun hother => hne (SelectorEnv.idPrefix_unique (hdash id) (hdash id') hown hother)
  refine ⟨fun heq => happart (heq ▸ hown'), happart, fun hother => ?_⟩
  exact hne (SelectorEnv.idPrefix_unique (hdash id) (hdash id') hother hown')

/-- Selector files have safe names, and ids that begin differently have names that are told apart. -/
theorem selectorFileName_safe (laws : Text.LowercaseLaws toLowercase) :
    (∀ name id, SelectorName id (selectorFileName toLowercase name id)) ∧
      (∀ name, slugifyKeyName toLowercase (slugifyKeyName toLowercase name) = slugifyKeyName toLowercase name) ∧
      ∀ name name' id id', vaultItemIdPrefix id ≠ [] → vaultItemIdPrefix id' ≠ [] →
        vaultItemIdPrefix id ≠ vaultItemIdPrefix id' →
        NamesApart (selectorFileName toLowercase name id) (selectorFileName toLowercase name' id')
          (vaultItemIdPrefix id) (vaultItemIdPrefix id') :=
  ⟨selectorName_selectorFileName laws, slugifyKeyName_idem laws,
    fun name name' _ _ h h' hne => namesApart_of_prefixes name name' h h' hne⟩

/-- A name that ends like the file of another key: `\u0130` becomes two characters and `\u212A` a `k`. -/
def trickyName : Text := "../\u0130\u212A --22222222.pub".toList

theorem trickyName_told_apart :
    selectorFileName Text.sampleLowercase trickyName "11111111-2222".toList =
      "i-k---22222222-pub--11111111.pub".toList ∧
    NamesApart (selectorFileName Text.sampleLowercase trickyName "11111111-2222".toList)
      (selectorFileName Text.sampleLowercase trickyName "22222222-1111".toList)
      (vaultItemIdPrefix "11111111-2222".toList) (vaultItemIdPrefix "22222222-1111".toList) :=
  ⟨by decide, (selectorFileName_safe Text.lowercaseLaws_sample).2.2 _ _ _ _ (by decide) (by decide) (by decide)⟩

end SshWarden
