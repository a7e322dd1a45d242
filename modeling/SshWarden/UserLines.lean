import Mathlib.Algebra.Order.BigOperators.Group.List
import Mathlib.Algebra.Order.Group.Nat
import Mathlib.Data.List.Flatten
import SshWarden.IncludeLine

/-!
# The user's lines under an installation

The file is read byte by byte here: a line is what stands between line ends, whether it is UTF-8 or not
(`fileLines`), and for UTF-8 texts these are the encoded lines of the text. An installation keeps the
user's lines (`KeepsUserLines`) where the text could be read, the rejoined text loses neither a carriage
return nor its last blank line, and a failed write leaves the file as it was (`SafeInstall`).
-/

namespace SshWarden

/-- Each byte as the character of its number. -/
def byteText (b : Bytes) : Text := b.map Char.ofUInt8

def codeOf (c : Char) : Text := byteText (String.utf8EncodeChar c)

/-- The text of a line; where it is not UTF-8, bytes outside ASCII are replacement characters. -/
def lineText (line : Text) : Text :=
  match fromUtf8 (line.map Char.toUInt8) with
  | some text => text.toList
  | none => line.map fun c => if c.toNat < 0x80 then c else '\uFFFD'

/-- The lines of a file, none where it is absent. -/
def fileLines (file : Option Bytes) : List Text := Text.lines (byteText (file.getD []))

/-- Only an ASCII character's code has a byte below 128. -/
theorem toNat_of_mem_utf8EncodeChar {c : Char} {x : UInt8} (h : x ∈ String.utf8EncodeChar c)
    (hx : x.toNat < 0x80) :
    x.toNat = c.toNat := by
  unfold String.utf8EncodeChar at h
  change x.toNat = c.val.toNat
  dsimp only at h
  split_ifs at h <;> simp only [List.mem_cons, List.not_mem_nil, or_false] at h
  · rw [h, UInt8.toNat_ofNat']
    omega
  · rcases h with rfl | rfl <;> rw [UInt8.toNat_ofNat'] at hx <;> omega
  · rcases h with rfl | rfl | rfl <;> rw [UInt8.toNat_ofNat'] at hx <;> omega
  · rcases h with rfl | rfl | rfl | rfl <;> rw [UInt8.toNat_ofNat'] at hx <;> omega

theorem toNat_ofUInt8 (x : UInt8) : (Char.ofUInt8 x).toNat = x.toNat := rfl

theorem toUInt8_ofUInt8 (x : UInt8) : (Char.ofUInt8 x).toUInt8 = x :=
  UInt8.toNat_inj.1 (show x.toUInt32.toUInt8.toNat = x.toNat by simp)

theorem map_toUInt8_byteText (b : Bytes) : (byteText b).map Char.toUInt8 = b := by
  rw [byteText, List.map_map]
  exact List.map_id'' toUInt8_ofUInt8 b

theorem eq_of_mem_codeOf {c d : Char} (hd : d ∈ ['\n', '\r']) (h : d ∈ codeOf c) : c = d := by
  obtain ⟨x, hx, rfl⟩ := List.mem_map.1 h
  have hlt : x.toNat < 0x80 := by
    rw [← toNat_ofUInt8]
    generalize Char.ofUInt8 x = d at hd
    simp only [List.mem_cons, List.not_mem_nil, or_false] at hd
    rcases hd with rfl | rfl <;> decide
  exact Char.toNat_inj.1 (toNat_of_mem_utf8EncodeChar hx hlt).symm

theorem codeOf_ne_nil (c : Char) : codeOf c ≠ [] := by
  rw [codeOf, byteText, Ne, List.map_eq_nil_iff]
  exact String.utf8EncodeChar_ne_nil

theorem byteText_encodeText (cs : Text) : byteText (encodeText cs) = cs.flatMap codeOf := by
  have hbytes : encodeText cs = cs.flatMap String.utf8EncodeChar := by
    unfold encodeText utf8
    simp [List.utf8Encode]
  rw [hbytes, byteText, List.map_flatMap]
  rfl

theorem lineText_code (cs : Text) : lineText (cs.flatMap codeOf) = cs := by
  unfold lineText
  rw [← byteText_encodeText, map_toUInt8_byteText, fromUtf8_encodeText]
  exact String.toList_ofList

theorem code_injective : Function.Injective (List.flatMap codeOf) :=
  Function.LeftInverse.injective lineText_code

theorem fileLines_encodeText (cs : Text) :
    fileLines (some (encodeText cs)) = (Text.lines cs).map (List.flatMap codeOf) := by
  rw [fileLines, Option.getD_some, byteText_encodeText]
  exact Text.lines_flatMap (by decide) (by decide +kernel) codeOf_ne_nil
    (fun c d hd => eq_of_mem_codeOf hd) cs

section
variable (env : SnippetEnv) (includePath : Text)

/-- After a success the file has the user's lines in their order; a failure leaves the file as it was. -/
def KeepsUserLines (file : Option Bytes) (outcome : Except String Unit × Option Bytes) : Prop :=
  match outcome.1 with
  | .ok () => (keptLines (lineRoles env includePath lineText false (fileLines file))).Sublist (fileLines outcome.2)
  | .error _ => outcome.2 = file

/-- Rejoined lines lose a carriage return at their end, and a last blank line. Text that is only appended
to loses a carriage return at its end. -/
def RewriteKeeps (existing : Text) : Prop :=
  let roles := lineRoles env includePath id false (Text.lines existing)
  if roles.any (·.1 = .marked) then
    (∀ l ∈ keptLines roles, l.getLast? ≠ some '\r') ∧
      (roles.filter (·.1 ≠ .stale)).getLast? ≠ some (.kept, [])
  else if roles.any (·.1 = .stale) then ∀ l ∈ keptLines roles, l.getLast? ≠ some '\r'
  else existing.getLast? ≠ some '\r'

/-- What `read_to_string` gives. -/
def readText (host : InstallHost) (file : Option Bytes) : Option Text :=
  if host.readable then (file.bind fromUtf8).map String.toList else none

/-- A file that is not read is replaced by the block, which has a blank line and the marker. -/
def LinesSurvive (host : InstallHost) (file : Option Bytes) : Prop :=
  match readText host file with
  | some existing => RewriteKeeps env includePath existing
  | none => (keptLines (lineRoles env includePath lineText false (fileLines file))).Sublist
      [[], sshwardenIncludeMarker]

/-- The write, if the installation gets to it, goes well and for a text whose lines survive it, or leaves
the file as it was. -/
def SafeInstall (host : InstallHost) (file : Option Bytes) : Prop :=
  match host.createPrivateDir, host.loadConfig, host.createParentDir with
  | .ok _, .ok style, .ok _ =>
    let wanted := includeLineWithStyle env includePath style
    ((Text.lines (readToStringOrDefault host file)).any fun line => Text.trim line = wanted) = true ∨
      match host.write, host.ensurePrivateFilePermissions with
      | .err _ left, _ => left = none ∨ left = file
      | .ok, .error _ => host.readable = false ∧ file = some (encodeText (includeBlock wanted))
      | .ok, .ok _ => LinesSurvive env includePath host file
  | _, _, _ => True

end

/-! ### The kept lines of a text -/

@[simp] theorem keptLines_cons {α : Type} (role : LineRole) (line : α) (roles : List (LineRole × α)) :
    keptLines ((role, line) :: roles) =
      if role = .kept then line :: keptLines roles else keptLines roles := by
  unfold keptLines
  split_ifs with h
  · rw [List.filter_cons_of_pos (by simpa using h), List.map_cons]
  · rw [List.filter_cons_of_neg (by simpa using h)]

theorem mem_keptLines {α : Type} {roles : List (LineRole × α)} {line : α} :
    line ∈ keptLines roles ↔ (.kept, line) ∈ roles := by
  unfold keptLines
  simp

theorem keptLines_sublist {α : Type} (roles : List (LineRole × α)) :
    (keptLines roles).Sublist (roles.map Prod.snd) :=
  List.filter_sublist.map _

section
variable {env : SnippetEnv} {includePath wanted : Text}

theorem lineRoles_code (afterMarker : Bool) (ls : List Text) :
    lineRoles env includePath lineText afterMarker (ls.map (List.flatMap codeOf)) =
      (lineRoles env includePath id afterMarker ls).map fun entry => (entry.1, entry.2.flatMap codeOf) := by
  induction ls generalizing afterMarker with
  | nil => rfl
  | cons line ls ih =>
    rw [List.map_cons, lineRoles, lineRoles, List.map_cons, lineText_code, ih]
    rfl

theorem keptLines_code (afterMarker : Bool) (ls : List Text) :
    keptLines (lineRoles env includePath lineText afterMarker (ls.map (List.flatMap codeOf))) =
      (keptLines (lineRoles env includePath id afterMarker ls)).map (List.flatMap codeOf) := by
  rw [lineRoles_code]
  induction lineRoles env includePath id afterMarker ls with
  | nil => rfl
  | cons entry roles ih =>
    obtain ⟨role, line⟩ := entry
    rw [List.map_cons, keptLines_cons, keptLines_cons, ih]
    split_ifs <;> rfl

/-- The lines the scan writes, but for the Include, are the kept ones. -/
theorem filter_landed {roles : List (LineRole × Text)} (hwanted : Text.trim wanted = wanted)
    (hroles : ∀ entry ∈ roles, RoleFits wanted entry) :
    (roles.filterMap (landed wanted)).filter (· ≠ wanted) = keptLines roles := by
  induction roles with
  | nil => rfl
  | cons entry roles ih =>
    obtain ⟨hentry, hrest⟩ := List.forall_mem_cons.1 hroles
    obtain ⟨role, line⟩ := entry
    rw [keptLines_cons, ← ih hrest]
    cases role with
    | kept =>
      have hne : line ≠ wanted := fun h => hentry (by rw [h, hwanted])
      simp [landed, hne]
    | marked => simp [landed]
    | stale => rw [List.filterMap_cons_none rfl, if_neg (by decide)]

theorem kept_sublist_landed {roles : List (LineRole × Text)}
    (h : ∀ l ∈ keptLines roles, '\n' ∉ l ∧ l.getLast? ≠ some '\r') :
    (keptLines roles).Sublist
      (((roles.filterMap (landed wanted)).flatMap Text.split).map Text.stripCarriageReturn) := by
  induction roles with
  | nil => exact List.Sublist.refl _
  | cons entry roles ih =>
    obtain ⟨role, line⟩ := entry
    rw [keptLines_cons] at h ⊢
    cases role with
    | kept =>
      obtain ⟨⟨hnewline, hreturn⟩, hrest⟩ := List.forall_mem_cons.1 h
      simp only [List.filterMap_cons, landed, List.flatMap_cons, Text.split_of_not_mem hnewline, List.map_append,
        List.map_singleton, Text.stripCarriageReturn_of_getLast? hreturn]
      exact (ih hrest).cons_cons line
    | marked =>
      simp only [List.filterMap_cons, landed, List.flatMap_cons, List.map_append]
      exact (ih h).trans (List.sublist_append_right _ _)
    | stale => exact ih h

theorem getLast?_landed (hne : wanted ≠ []) (roles : List (LineRole × Text)) :
    (roles.filterMap (landed wanted)).getLast? = some [] ↔
      (roles.filter (·.1 ≠ .stale)).getLast? = some (.kept, []) := by
  have hmap : roles.filterMap (landed wanted) =
      (roles.filter (·.1 ≠ .stale)).map fun entry => if entry.1 = .marked then wanted else entry.2 := by
    induction roles with
    | nil => rfl
    | cons entry roles ih =>
      obtain ⟨role, line⟩ := entry
      cases role with
      | kept => simp [landed, ih]
      | marked => simp [landed, ih]
      | stale => rw [List.filterMap_cons_none rfl, List.filter_cons_of_neg (by simp), ih]
  rw [hmap, List.getLast?_map]
  cases hlast : (roles.filter (·.1 ≠ .stale)).getLast? with
  | none => simp
  | some entry =>
    obtain ⟨role, line⟩ := entry
    have hrole : role ≠ .stale := by simpa using (List.mem_filter.1 (List.mem_of_getLast? hlast)).2
    cases role with
    | kept => simp
    | marked => simp [hne]
    | stale => exact absurd rfl hrole

/-! ### What the written text keeps -/

theorem count_stripCarriageReturn (l : Text) : (Text.stripCarriageReturn l).count '\r' ≤ l.count '\r' ∧
    (l.getLast? = some '\r' → (Text.stripCarriageReturn l).count '\r' < l.count '\r') := by
  by_cases h : l.getLast? = some '\r'
  · obtain ⟨cs, rfl⟩ := List.getLast?_eq_some_iff.1 h
    rw [Text.stripCarriageReturn_concat]
    simp
  · rw [Text.stripCarriageReturn_of_getLast? h]
    exact ⟨le_rfl, fun hl => absurd hl h⟩

/-- Lines found again among their own stripped lines had nothing to strip. -/
theorem no_return_of_sublist {ls ms extra : List Text}
    (h : (ls ++ ms).Sublist (ls ++ ms.map Text.stripCarriageReturn ++ extra)) (hextra : ∀ l ∈ extra, '\r' ∉ l) :
    ∀ l ∈ ms, l.getLast? ≠ some '\r' := by
  intro l hl hlast
  have hcount := h.flatten.count_le '\r'
  have hnone : extra.flatten.count '\r' = 0 := by
    rw [List.count_eq_zero, List.mem_flatten]
    rintro ⟨l, hl, hr⟩
    exact hextra l hl hr
  have hlt : (ms.map Text.stripCarriageReturn).flatten.count '\r' < ms.flatten.count '\r' := by
    rw [List.count_flatten, List.count_flatten, List.map_map]
    exact List.sum_lt_sum _ _ (fun m _ => (count_stripCarriageReturn m).1)
      ⟨l, hl, (count_stripCarriageReturn l).2 hlast⟩
  rw [List.flatten_append, List.flatten_append, List.flatten_append, List.count_append, List.count_append,
    List.count_append, hnone] at hcount
  omega

theorem sublist_of_not_mem_last {α : Type} [DecidableEq α] {ls ms : List α} {x : α} (h : ls.Sublist (ms ++ [x]))
    (hx : x ∉ ls) : ls.Sublist ms := by
  have hself : ls.filter (· ≠ x) = ls := List.filter_eq_self.2 fun l hl =>
    decide_eq_true fun (hlx : l = x) => hx (hlx ▸ hl)
  have hnil : [x].filter (· ≠ x) = [] := by simp
  have hfilter := h.filter (· ≠ x)
  rw [List.filter_append, hself, hnil, List.append_nil] at hfilter
  exact hfilter.trans List.filter_sublist

/-- A line that SSHWarden would write as it is. -/
structure OwnLine (wanted : Text) : Prop where
  trim : Text.trim wanted = wanted
  ne_nil : wanted ≠ []
  getLast? : wanted.getLast? ≠ some '\r'

theorem ownLine_include (style : SshConfigPathStyle) : OwnLine (includeLineWithStyle env includePath style) where
  trim := trim_includeLineWithStyle style
  ne_nil h := by
    have hlast : (includeLineWithStyle env includePath style).getLast? = some '"' :=
      getLast?_includeLineWithStyle style
    rw [h] at hlast
    cases hlast
  getLast? h := by
    rw [getLast?_includeLineWithStyle] at h
    cases h

theorem return_not_mem_marker : '\r' ∉ sshwardenIncludeMarker := by decide

theorem all_kept {roles : List (LineRole × Text)} (hmarked : ¬roles.any (·.1 = .marked) = true)
    (hstale : ¬roles.any (·.1 = .stale) = true) : ∀ entry ∈ roles, entry.1 = .kept := by
  rintro ⟨role, line⟩ hentry
  cases role with
  | kept => rfl
  | marked => exact absurd (List.any_eq_true.2 ⟨_, hentry, decide_eq_true rfl⟩) hmarked
  | stale => exact absurd (List.any_eq_true.2 ⟨_, hentry, decide_eq_true rfl⟩) hstale

theorem keptLines_of_all_kept {roles : List (LineRole × Text)} (h : ∀ entry ∈ roles, entry.1 = .kept) :
    keptLines roles = roles.map Prod.snd := by
  unfold keptLines
  rw [List.filter_eq_self.2 fun entry hentry => decide_eq_true (h entry hentry)]

theorem newline_not_mem_kept {existing l : Text}
    (h : l ∈ keptLines (lineRoles env includePath id false (Text.lines existing))) : '\n' ∉ l :=
  Text.newline_not_mem_of_mem_lines (mem_lineRoles (mem_keptLines.1 h)).1

/-- What is rejoined and what is appended to, as the condition splits the texts. -/
theorem lines_newConfig {existing content : Text} (h : newConfig env includePath wanted existing = some content) :
    let roles := lineRoles env includePath id false (Text.lines existing)
    let joined := Text.lines (endWithNewline (Text.join ['\n'] (roles.filterMap (landed wanted))))
    Text.lines content =
      if roles.any (·.1 = .marked) then joined
      else if roles.any (·.1 = .stale) then joined ++ Text.lines (includeBlock wanted)
      else Text.lines (endWithNewline existing) ++ Text.lines (includeBlock wanted) := by
  rw [newConfig_eq] at h
  dsimp only at h ⊢
  split_ifs at h ⊢
  · exact congrArg Text.lines (Option.some.inj h).symm
  · rw [← Option.some.inj h, lines_endWithNewline_append]
  · rw [← Option.some.inj h, lines_endWithNewline_append]

theorem landed_of_not_marked {roles : List (LineRole × Text)} (h : ¬roles.any (·.1 = .marked) = true) :
    roles.filterMap (landed wanted) = keptLines roles := by
  induction roles with
  | nil => rfl
  | cons entry roles ih =>
    obtain ⟨role, line⟩ := entry
    rw [List.any_cons, Bool.or_eq_true, not_or] at h
    rw [keptLines_cons, ← ih h.2]
    cases role with
    | kept =>
      rw [if_pos rfl]
      exact List.filterMap_cons_some rfl
    | marked => exact absurd (decide_eq_true rfl) h.1
    | stale => rw [List.filterMap_cons_none rfl, if_neg (by decide)]

theorem lines_joined (hlast : wanted.getLast? ≠ some '\n') (existing : Text) :
    let scanned := (lineRoles env includePath id false (Text.lines existing)).filterMap (landed wanted)
    Text.lines (endWithNewline (Text.join ['\n'] scanned)) =
      ((dropBlankLast scanned).flatMap Text.split).map Text.stripCarriageReturn := by
  refine lines_endWithNewline_join fun l hl => ?_
  obtain ⟨⟨role, line⟩, hentry, hl⟩ := List.mem_filterMap.1 hl
  cases role with
  | kept =>
    obtain rfl := Option.some.inj hl
    exact fun hend => Text.newline_not_mem_of_mem_lines (mem_lineRoles hentry).1 (List.mem_of_getLast? hend)
  | marked =>
    obtain rfl := Option.some.inj hl
    exact hlast
  | stale => cases hl

theorem endWithNewline_of_ended {cs : Text} (h : ¬(cs ≠ [] ∧ cs.getLast? ≠ some '\n')) : endWithNewline cs = cs :=
  if_neg h

theorem kept_of_rewriteKeeps (hwanted : OwnLine wanted) (hlast : wanted.getLast? ≠ some '\n')
    {existing content : Text} (h : newConfig env includePath wanted existing = some content)
    (hkeeps : RewriteKeeps env includePath existing) :
    (keptLines (lineRoles env includePath id false (Text.lines existing))).Sublist (Text.lines content) := by
  have hlines := lines_newConfig h
  have hjoined := @lines_joined env includePath wanted hlast existing
  unfold RewriteKeeps at hkeeps
  dsimp only at hlines hjoined hkeeps
  rw [hlines, hjoined, lines_includeBlock]
  have hlanded : (∀ l ∈ keptLines (lineRoles env includePath id false (Text.lines existing)),
      l.getLast? ≠ some '\r') → (keptLines (lineRoles env includePath id false (Text.lines existing))).Sublist
        ((((lineRoles env includePath id false (Text.lines existing)).filterMap (landed wanted)).flatMap
          Text.split).map Text.stripCarriageReturn) := fun hreturn =>
    kept_sublist_landed fun l hl => ⟨newline_not_mem_kept hl, hreturn l hl⟩
  split_ifs at hkeeps ⊢ with hmarked hstale
  · have hblank := (getLast?_landed hwanted.ne_nil _).not.2 hkeeps.2
    rw [dropBlankLast, if_neg hblank]
    exact hlanded hkeeps.1
  · rcases dropBlankLast_cases ((lineRoles env includePath id false (Text.lines existing)).filterMap
      (landed wanted)) with ⟨-, hdrop⟩ | hdrop
    · rw [hdrop]
      exact (hlanded hkeeps).trans (List.sublist_append_left _ _)
    · have hkept : (lineRoles env includePath id false (Text.lines existing)).filterMap (landed wanted) =
          keptLines (lineRoles env includePath id false (Text.lines existing)) := landed_of_not_marked hmarked
      generalize hD : dropBlankLast _ = D at hdrop ⊢
      rw [hkept] at hdrop
      have hmem : ∀ l ∈ D, l ∈ keptLines (lineRoles env includePath id false (Text.lines existing)) :=
        fun l hl => by
        rw [hdrop]
        exact List.mem_append_left _ hl
      have hself : (D.flatMap Text.split).map Text.stripCarriageReturn = D := by
        rw [flatMap_split fun l hl => newline_not_mem_kept (hmem l hl),
          List.map_congr_left fun l hl =>
            Text.stripCarriageReturn_of_getLast? (hkeeps l (hmem l hl)), List.map_id']
      rw [hself, hdrop]
      exact List.Sublist.append_left (List.singleton_sublist.2 (List.mem_cons_self ..)) D
  · refine (?_ : List.Sublist _ _).trans (List.sublist_append_left _ _)
    rw [keptLines_of_all_kept (all_kept hmarked hstale), map_snd_lineRoles]
    by_cases hended : existing ≠ [] ∧ existing.getLast? ≠ some '\n'
    · obtain ⟨ls, l, hsplit, hself, hl⟩ := Text.lines_of_getLast? hended.1 hended.2
      rw [endWithNewline, if_pos hended, Text.lines_concat_newline, hsplit, hself, List.map_append,
        List.map_singleton, Text.stripCarriageReturn_of_getLast? (hl ▸ hkeeps)]
    · rw [endWithNewline_of_ended hended]

theorem wanted_not_mem_kept (hwanted : OwnLine wanted) {roles : List (LineRole × Text)}
    (hroles : ∀ entry ∈ roles, RoleFits wanted entry) : wanted ∉ keptLines roles := fun hmem =>
  hroles _ (mem_keptLines.1 hmem) hwanted.trim

theorem absent_of_newConfig {existing content : Text}
    (h : newConfig env includePath wanted existing = some content) :
    ((Text.lines existing).any fun line => Text.trim line = wanted) = false := by
  rw [← Bool.not_eq_true, ← newConfig_eq_none_iff, h]
  nofun

theorem keeps_of_replaced {roles : List (LineRole × Text)} (hwanted : OwnLine wanted)
    (hroles : ∀ entry ∈ roles, RoleFits wanted entry)
    (h : (keptLines roles).Sublist
      ((dropBlankLast (roles.filterMap (landed wanted))).map Text.stripCarriageReturn)) :
    (∀ l ∈ keptLines roles, l.getLast? ≠ some '\r') ∧
      (roles.filter (·.1 ≠ .stale)).getLast? ≠ some (.kept, []) := by
  have hkept := filter_landed hwanted.trim hroles
  -- stripping makes no line the wanted one
  have hstrip : ∀ l ∈ dropBlankLast (roles.filterMap (landed wanted)),
      decide (Text.stripCarriageReturn l ≠ wanted) = decide (l ≠ wanted) := by
    intro l hl
    have hl := (dropBlankLast_sublist _).mem hl
    by_cases hlw : l = wanted
    · rw [hlw, Text.stripCarriageReturn_of_getLast? hwanted.getLast?]
    · have hmem : l ∈ keptLines roles := hkept ▸ List.mem_filter.2 ⟨hl, decide_eq_true hlw⟩
      have htrim : Text.trim l ≠ wanted := hroles _ (mem_keptLines.1 hmem)
      have hne : Text.stripCarriageReturn l ≠ wanted := fun heq => htrim <| by
        rw [← Text.trim_stripCarriageReturn, heq, hwanted.trim]
      rw [decide_eq_true hlw, decide_eq_true hne]
  have hsub : (keptLines roles).Sublist (((dropBlankLast (roles.filterMap (landed wanted))).filter
      (· ≠ wanted)).map Text.stripCarriageReturn) := by
    have hself : (keptLines roles).filter (· ≠ wanted) = keptLines roles := List.filter_eq_self.2 fun l hl =>
      decide_eq_true fun (hlw : l = wanted) => wanted_not_mem_kept hwanted hroles (hlw ▸ hl)
    have hfilter := h.filter (· ≠ wanted)
    rw [hself, List.filter_map] at hfilter
    have hcongr : (dropBlankLast (roles.filterMap (landed wanted))).filter
        ((fun l => decide (l ≠ wanted)) ∘ Text.stripCarriageReturn) =
          (dropBlankLast (roles.filterMap (landed wanted))).filter (· ≠ wanted) := List.filter_congr hstrip
    rwa [hcongr] at hfilter
  rw [Ne, ← getLast?_landed hwanted.ne_nil]
  rcases dropBlankLast_cases (roles.filterMap (landed wanted)) with ⟨hblank, hdrop⟩ | hdrop
  · refine ⟨?_, hblank⟩
    rw [hdrop, hkept] at hsub
    have hstripped : ([] ++ keptLines roles).Sublist
        ([] ++ (keptLines roles).map Text.stripCarriageReturn ++ []) := by simpa using hsub
    exact no_return_of_sublist hstripped (by simp)
  · -- the blank line that is lost makes the kept lines one too many
    have hlength := hsub.length_le
    rw [hdrop, List.filter_append] at hkept
    rw [← hkept, List.length_map, List.length_append] at hlength
    simp [hwanted.ne_nil.symm] at hlength

theorem keeps_of_dropped {roles : List (LineRole × Text)} (hmarked : ¬roles.any (·.1 = .marked) = true)
    (hnot : wanted ∉ keptLines roles)
    (h : (keptLines roles).Sublist
      ((dropBlankLast (roles.filterMap (landed wanted))).map Text.stripCarriageReturn ++
      [[], sshwardenIncludeMarker, wanted])) : ∀ l ∈ keptLines roles, l.getLast? ≠ some '\r' := by
  rw [landed_of_not_marked hmarked] at h
  have hsub : ([] ++ keptLines roles).Sublist
      ([] ++ (keptLines roles).map Text.stripCarriageReturn ++ [[], sshwardenIncludeMarker]) := by
    have hkept : (keptLines roles).Sublist (((dropBlankLast (keptLines roles)).map Text.stripCarriageReturn ++
        [[], sshwardenIncludeMarker]) ++ [wanted]) := by simpa using h
    exact (sublist_of_not_mem_last hkept hnot).trans (((dropBlankLast_sublist _).map _).append_right _)
  exact no_return_of_sublist hsub (by simp [return_not_mem_marker])

theorem keeps_of_appended {existing : Text} (hnot : wanted ∉ Text.lines existing)
    (h : (Text.lines existing).Sublist (Text.lines (endWithNewline existing) ++
      [[], sshwardenIncludeMarker, wanted])) : existing.getLast? ≠ some '\r' := by
  by_cases hended : existing ≠ [] ∧ existing.getLast? ≠ some '\n'
  · obtain ⟨ls, l, hsplit, hself, hl⟩ := Text.lines_of_getLast? hended.1 hended.2
    have hsub : (Text.lines existing).Sublist
        ((Text.lines (endWithNewline existing) ++ [[], sshwardenIncludeMarker]) ++ [wanted]) := by simpa using h
    have hsub := sublist_of_not_mem_last hsub hnot
    rw [endWithNewline, if_pos hended, Text.lines_concat_newline, hsplit, hself, List.map_append] at hsub
    exact hl ▸ no_return_of_sublist hsub (by simp [return_not_mem_marker]) l (List.mem_singleton_self l)
  · intro hlast
    refine hended ⟨?_, ?_⟩
    · rintro rfl
      cases hlast
    · rw [hlast]
      decide

/-- For an Include that is one line, lines that are still there show what `RewriteKeeps` asks for. -/
theorem rewriteKeeps_of_kept (hwanted : OwnLine wanted) (hline : '\n' ∉ wanted) {existing content : Text}
    (h : newConfig env includePath wanted existing = some content)
    (hkept : (keptLines (lineRoles env includePath id false (Text.lines existing))).Sublist (Text.lines content)) :
    RewriteKeeps env includePath existing := by
  have hroles : ∀ entry ∈ lineRoles env includePath id false (Text.lines existing), RoleFits wanted entry :=
    roleFits_lineRoles (absent_of_newConfig h)
  have hnot := wanted_not_mem_kept hwanted hroles
  have hlines := lines_newConfig h
  have hjoined := @lines_joined env includePath wanted (fun hend => hline (List.mem_of_getLast? hend)) existing
  dsimp only at hlines hjoined
  rw [flatMap_split fun l hl => newline_not_mem_landed hline ((dropBlankLast_sublist _).mem hl)] at hjoined
  rw [hlines, hjoined, lines_includeBlock, Text.split_of_not_mem hline, List.map_singleton,
    Text.stripCarriageReturn_of_getLast? hwanted.getLast?] at hkept
  unfold RewriteKeeps
  dsimp only
  split_ifs at hkept ⊢ with hmarked hstale
  · exact keeps_of_replaced hwanted hroles hkept
  · exact keeps_of_dropped hmarked hnot hkept
  · rw [keptLines_of_all_kept (all_kept hmarked hstale), map_snd_lineRoles] at hkept hnot
    exact keeps_of_appended hnot hkept

theorem newConfig_nil : newConfig env includePath wanted [] = some (includeBlock wanted) := by
  rw [newConfig_eq]
  rfl

theorem marker_code : sshwardenIncludeMarker.flatMap codeOf = sshwardenIncludeMarker := by decide

theorem fileLines_includeBlock (wanted : Text) : fileLines (some (encodeText (includeBlock wanted))) =
    [] :: sshwardenIncludeMarker ::
      ((Text.split wanted).map Text.stripCarriageReturn).map (List.flatMap codeOf) := by
  rw [fileLines_encodeText, lines_includeBlock, List.map_cons, List.map_cons, marker_code]
  rfl

theorem matches_include (env : SnippetEnv) (includePath : Text) (style : SshConfigPathStyle) :
    lineMatchesCurrentOrLegacySshwardenInclude env
      (includeLineWithStyle env includePath style) includePath = true := by
  unfold lineMatchesCurrentOrLegacySshwardenInclude lineMatchesSshwardenInclude
  rw [trim_includeLineWithStyle]
  cases style with
  | absolute =>
    have habsolute : includeLineWithStyle env includePath .absolute = includeLine includePath := rfl
    simp [habsolute]
  | homeRelative => simp

theorem include_ne_marker (env : SnippetEnv) (includePath : Text) (style : SshConfigPathStyle) :
    includeLineWithStyle env includePath style ≠ sshwardenIncludeMarker := by
  obtain ⟨cs, hcs⟩ := includeLineWithStyle_eq env includePath style
  have hmarker : sshwardenIncludeMarker.head? = some '#' := by decide
  rw [hcs]
  intro h
  rw [← h] at hmarker
  exact absurd (Option.some.inj hmarker) (by decide)

/-- A line that reads as the Include is never one of the user's. -/
theorem include_not_mem_kept (style : SshConfigPathStyle) (ls : List Text) :
    (includeLineWithStyle env includePath style).flatMap codeOf ∉
      keptLines (lineRoles env includePath lineText false ls) := by
  intro hmem
  obtain ⟨-, flag, hrole⟩ := mem_lineRoles (mem_keptLines.1 hmem)
  dsimp only at hrole
  rw [lineText_code, trim_includeLineWithStyle, lineRole,
    if_neg (not_or.2 ⟨include_ne_marker env includePath style, (ownLine_include style).ne_nil⟩),
    matches_include env includePath style] at hrole
  split_ifs at hrole with h1 h2
  exact h2 rfl

end

/-! ### The installation as a whole -/

section
variable {env : SnippetEnv} {host : InstallHost} {includePath : Text} {file : Option Bytes}
  {style : SshConfigPathStyle}

theorem readToStringOrDefault_eq : readToStringOrDefault host file = (readText host file).getD [] := by
  unfold readToStringOrDefault readText
  split_ifs <;> rfl

theorem file_of_readText {existing : Text} (h : readText host file = some existing) :
    host.readable = true ∧ file = some (encodeText existing) := by
  unfold readText at h
  split_ifs at h with hreadable
  obtain ⟨text, htext, rfl⟩ := Option.map_eq_some_iff.1 h
  obtain ⟨bytes, rfl, htext⟩ := Option.bind_eq_some_iff.1 htext
  rw [encodeText, String.ofList_toList, fromUtf8_eq_some.1 htext]
  exact ⟨hreadable, rfl⟩

theorem kept_code_sublist_iff {existing : Text} {ls : List Text} :
    (keptLines (lineRoles env includePath lineText false (fileLines (some (encodeText existing))))).Sublist
        (ls.map (List.flatMap codeOf)) ↔
      (keptLines (lineRoles env includePath id false (Text.lines existing))).Sublist ls := by
  rw [fileLines_encodeText, keptLines_code]
  constructor
  · intro h
    obtain ⟨ls', hls', hmap⟩ := List.sublist_map_iff.1 h
    rwa [List.map_injective_iff.2 code_injective hmap]
  · exact List.Sublist.map _

/-- The user's lines are in what is written. -/
def KeptIn (env : SnippetEnv) (includePath : Text) (file : Option Bytes) (content : Text) : Prop :=
  (keptLines (lineRoles env includePath lineText false (fileLines file))).Sublist
    (fileLines (some (encodeText content)))

theorem keptIn_of_survive {content : Text} (hnew : newConfig env includePath
      (includeLineWithStyle env includePath style) (readToStringOrDefault host file) = some content)
    (h : LinesSurvive env includePath host file) : KeptIn env includePath file content := by
  rw [readToStringOrDefault_eq] at hnew
  unfold LinesSurvive at h
  unfold KeptIn
  cases hread : readText host file with
  | some existing =>
    rw [hread] at h hnew
    rw [(file_of_readText hread).2, fileLines_encodeText content, kept_code_sublist_iff]
    refine kept_of_rewriteKeeps (ownLine_include style) ?_ hnew h
    rw [getLast?_includeLineWithStyle]
    decide
  | none =>
    rw [hread] at h hnew
    rw [Option.getD_none, newConfig_nil] at hnew
    rw [← Option.some.inj hnew, fileLines_includeBlock]
    exact h.trans (List.Sublist.cons_cons _ (List.Sublist.cons_cons _ (List.nil_sublist _)))

theorem survive_of_keptIn {content : Text} (hline : '\n' ∉ includeLineWithStyle env includePath style)
    (hnew : newConfig env includePath (includeLineWithStyle env includePath style)
      (readToStringOrDefault host file) = some content)
    (h : KeptIn env includePath file content) : LinesSurvive env includePath host file := by
  rw [readToStringOrDefault_eq] at hnew
  unfold KeptIn at h
  unfold LinesSurvive
  cases hread : readText host file with
  | some existing =>
    rw [hread] at hnew
    rw [(file_of_readText hread).2, fileLines_encodeText content, kept_code_sublist_iff] at h
    exact rewriteKeeps_of_kept (ownLine_include style) hline hnew h
  | none =>
    rw [hread] at hnew
    rw [Option.getD_none, newConfig_nil] at hnew
    rw [← Option.some.inj hnew, fileLines_includeBlock, Text.split_of_not_mem hline, List.map_singleton,
      List.map_singleton, Text.stripCarriageReturn_of_getLast? (ownLine_include style).getLast?] at h
    exact sublist_of_not_mem_last (show List.Sublist _ ([[], sshwardenIncludeMarker] ++ [_]) from h)
      (include_not_mem_kept style _)

theorem wanted_mem_newConfig {wanted existing content : Text} (hwanted : OwnLine wanted) (hline : '\n' ∉ wanted)
    (h : newConfig env includePath wanted existing = some content) :
    ∃ l ∈ Text.lines content, Text.trim l = wanted := by
  obtain ⟨ls, hls, htrims⟩ := trims_newConfig hline h
  rw [← List.mem_map, htrims, List.mem_map]
  refine ⟨wanted, ?_, hwanted.trim⟩
  split_ifs with hmarked
  · obtain ⟨⟨role, line⟩, hentry, hrole⟩ := List.any_eq_true.1 hmarked
    have hmem : wanted ∈ (lineRoles env includePath id false (Text.lines existing)).filterMap (landed wanted) :=
      List.mem_filterMap.2 ⟨_, hentry, by rw [landed, of_decide_eq_true hrole]⟩
    rcases hls with hls | hls
    · rwa [List.append_nil, hls]
    · rw [← hls, List.mem_append, List.mem_singleton] at hmem
      exact List.mem_append_left _ (hmem.resolve_right hwanted.ne_nil)
  · simp

/-- A text that was written needs no writing. -/
theorem not_written_again {wanted existing content : Text} (hwanted : OwnLine wanted) (hline : '\n' ∉ wanted)
    (h : newConfig env includePath wanted existing = some content) :
    newConfig env includePath wanted content = none := by
  obtain ⟨l, hl, htrim⟩ := wanted_mem_newConfig hwanted hline h
  exact newConfig_eq_none_iff.2 (List.any_eq_true.2 ⟨l, hl, decide_eq_true htrim⟩)

end

/-- An installation keeps the user's lines where it is safe, and for an Include that is one line only
there. -/
theorem user_lines_kept (env : SnippetEnv) (host : InstallHost) (includePath : Text) (file : Option Bytes) :
    (SafeInstall env includePath host file →
        KeepsUserLines env includePath file (writeSshwardenIncludeLine env host includePath file)) ∧
      ((∀ style, host.loadConfig = .ok style → '\n' ∉ includeLineWithStyle env includePath style) →
        KeepsUserLines env includePath file (writeSshwardenIncludeLine env host includePath file) →
        SafeInstall env includePath host file) := by
  unfold SafeInstall writeSshwardenIncludeLine
  cases hdir : host.createPrivateDir with
  | error e => exact ⟨fun _ => rfl, fun _ _ => trivial⟩
  | ok _ =>
    cases hload : host.loadConfig with
    | error e => exact ⟨fun _ => rfl, fun _ _ => trivial⟩
    | ok style =>
      dsimp only
      cases hnew : newConfig env includePath (includeLineWithStyle env includePath style)
          (readToStringOrDefault host file) with
      | none =>
        have hkept := keptLines_sublist (lineRoles env includePath lineText false (fileLines file))
        rw [map_snd_lineRoles] at hkept
        refine ⟨fun _ => hkept, fun _ _ => ?_⟩
        cases host.createParentDir with
        | error e => trivial
        | ok _ => exact .inl (newConfig_eq_none_iff.1 hnew)
      | some content =>
        have habsent := absent_of_newConfig hnew
        unfold writePrivateFile
        cases hparent : host.createParentDir with
        | error e => exact ⟨fun _ => rfl, fun _ _ => trivial⟩
        | ok _ =>
          dsimp only
          rw [habsent]
          cases hwrite : host.write with
          | err e left =>
            cases left with
            | none => exact ⟨fun _ => rfl, fun _ _ => .inr (.inl rfl)⟩
            | some left =>
              exact ⟨fun h => (h.resolve_left Bool.false_ne_true).resolve_left (Option.some_ne_none _),
                fun _ h => .inr (.inr h)⟩
          | ok =>
            cases hperms : host.ensurePrivateFilePermissions with
            | ok _ =>
              refine ⟨fun h => ?_, fun hline h => .inr (survive_of_keptIn (hline style rfl) hnew h)⟩
              exact keptIn_of_survive hnew (h.resolve_left Bool.false_ne_true)
            | error e =>
              constructor
              · intro h
                obtain ⟨hread, hfile⟩ := h.resolve_left Bool.false_ne_true
                rw [readToStringOrDefault, if_neg (by simp [hread]), newConfig_nil] at hnew
                show some (encodeText content) = file
                rw [hfile, ← Option.some.inj hnew]
              · intro hline (h : some (encodeText content) = file)
                cases hread : host.readable with
                | true =>
                  -- a text the installation writes has the Include, and would not be written
                  have hcontent : readToStringOrDefault host file = content := by
                    rw [readToStringOrDefault, if_pos hread, ← h, Option.bind_some, fromUtf8_encodeText,
                      Option.map_some, String.toList_ofList, Option.getD_some]
                  have hagain := not_written_again (ownLine_include style) (hline style rfl) hnew
                  rw [hcontent, hagain] at hnew
                  cases hnew
                | false =>
                  rw [readToStringOrDefault, if_neg (by simp [hread]), newConfig_nil] at hnew
                  exact .inr ⟨rfl, by rw [← h, ← Option.some.inj hnew]⟩

/-- The file is there but cannot be read at the moment. -/
def lockedFileHost : InstallHost := { smoothHost with readable := false }

/-- A file that cannot be read is replaced by the block. -/
theorem unread_file_replaced : ¬∀ (env : SnippetEnv) (host : InstallHost) (includePath : Text)
    (file : Option Bytes),
      KeepsUserLines env includePath file (writeSshwardenIncludeLine env host includePath file) := by
  intro h
  have hkeeps := h homeEnv lockedFileHost homeIncludePath (some (encodeText hostConfig))
  have hnew : newConfig homeEnv homeIncludePath (includeLineWithStyle homeEnv homeIncludePath .homeRelative)
      (readToStringOrDefault lockedFileHost (some (encodeText hostConfig))) = some (includeBlock homeInclude) :=
    newConfig_nil
  have hrun : writeSshwardenIncludeLine homeEnv lockedFileHost homeIncludePath (some (encodeText hostConfig)) =
      (.ok (), some (encodeText (includeBlock homeInclude))) := by
    unfold writeSshwardenIncludeLine
    simp only [lockedFileHost, smoothHost] at hnew ⊢
    rw [hnew]
    rfl
  rw [hrun] at hkeeps
  have hsurvive : LinesSurvive homeEnv homeIncludePath lockedFileHost (some (encodeText hostConfig)) :=
    survive_of_keptIn (by decide) hnew hkeeps
  have hcode : [[], sshwardenIncludeMarker] = [[], sshwardenIncludeMarker].map (List.flatMap codeOf) := by
    rw [List.map_cons, List.map_singleton, marker_code]
    rfl
  have hkept : (keptLines (lineRoles homeEnv homeIncludePath lineText false
      (fileLines (some (encodeText hostConfig))))).Sublist [[], sshwardenIncludeMarker] := hsurvive
  rw [hcode, kept_code_sublist_iff] at hkept
  revert hkept
  decide

end SshWarden
