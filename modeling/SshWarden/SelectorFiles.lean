import SshWarden.Data
import SshWarden.SshConfig
import SshWarden.Lib.Assoc
import Mathlib.Data.List.Dedup

/-!
# Key selector files

Every sync writes one public key file for each key, named by the key's name and the beginning of its item id.
Older names of a key are kept: a `.pub` file that ends with the beginning of an id gets that key's public key,
and any other one is removed.
-/

namespace SshWarden

/-- The files of the selector directory by name. -/
abbrev SelectorDir : Type := Assoc Text Text

/-- The errors of the file operations, by file name. -/
structure SelectorFaults where
  createDir : Option String := none
  readDir : Option String := none
  write : Text → Option String := fun _ => none
  entry : Text → Option String := fun _ => none
  remove : Text → Option String := fun _ => none

/-- Where the selector files are, and the case mapping of their names. -/
structure SelectorEnv where
  dir : Text
  toLowercase : Char → List Char

namespace SelectorEnv
variable (env : SelectorEnv) (x : SelectorFaults) (keys : List DecryptedSshKey)

def fileName (key : DecryptedSshKey) : Text := selectorFileName env.toLowercase key.name.toList key.cipherId.toList

def selectorContent (key : DecryptedSshKey) : Text := Text.trim key.publicKeyOpenssh.toList ++ ['\n']

def display (name : Text) : String := String.ofList (Text.Path.join env.dir name)

/-- `path.extension()` is `pub`. -/
def hasPubExtension (name : Text) : Bool :=
  match Text.rsplitOnce ['.'] name with
  | some (stem, extension) => stem ≠ [] && extension = ['p', 'u', 'b']
  | none => false

/-- What stands at the end of a file name before its extension. -/
def aliasSuffix (idPrefix : Text) : Text := ['-', '-'] ++ idPrefix ++ ['.', 'p', 'u', 'b']

/-- The file name ends with the beginning of the key's id. -/
def isAlias (name : Text) (key : DecryptedSshKey) : Bool :=
  vaultItemIdPrefix key.cipherId.toList ≠ [] &&
    (aliasSuffix (vaultItemIdPrefix key.cipherId.toList)).isSuffixOf name

/-- The loop over the keys. -/
def writeSelectors : List DecryptedSshKey → SelectorDir → Except String SelectorDir
  | [], dir => .ok dir
  | key :: keys, dir =>
    match x.write (env.fileName key) with
    | some e => .error s!"Failed to write key selector file: {env.display (env.fileName key)}: {e}"
    | none => writeSelectors keys (dir.insert (env.fileName key) (selectorContent key))

/-- One entry of the directory. -/
def refreshEntry (name : Text) (dir : SelectorDir) : Except String SelectorDir :=
  match x.entry name with
  | some e => .error e
  | none =>
    if hasPubExtension name && (keys.map env.fileName).all (· ≠ name) then
      match keys.find? (isAlias name) with
      | some key => match x.write name with
        | some e => .error s!"Failed to update key selector alias: {env.display name}: {e}"
        | none => .ok (dir.insert name (selectorContent key))
      | none => match x.remove name with
        | some e => .error s!"Failed to remove stale key selector file: {env.display name}: {e}"
        | none => .ok (dir.erase name)
    else .ok dir

def refreshEntries : List Text → SelectorDir → Except String SelectorDir
  | [], dir => .ok dir
  | name :: names, dir =>
    match env.refreshEntry x keys name dir with
    | .error e => .error e
    | .ok dir => refreshEntries names dir

/-- `write_key_selector_files`. Reading the directory gives each name once. -/
def writeKeySelectorFiles (dir : SelectorDir) : Except String SelectorDir :=
  match x.createDir with
  | some e => .error s!"Failed to create key selector directory: {String.ofList env.dir}: {e}"
  | none => match env.writeSelectors x keys dir with
    | .error e => .error e
    | .ok dir => match x.readDir with
      | some e => .error s!"Failed to read key selector directory: {String.ofList env.dir}: {e}"
      | none => env.refreshEntries x keys (dir.map Prod.fst).dedup dir

variable {env x keys} {dir dir' : SelectorDir}

/-- The last key with a file name decides its contents. -/
def lastNamed (env : SelectorEnv) (keys : List DecryptedSshKey) (name : Text) : Option DecryptedSshKey :=
  keys.reverse.find? fun key => env.fileName key = name

theorem lastNamed_cons (key : DecryptedSshKey) (keys : List DecryptedSshKey) (name : Text) :
    lastNamed env (key :: keys) name =
      (lastNamed env keys name).or (if env.fileName key = name then some key else none) := by
  unfold lastNamed
  rw [List.reverse_cons, List.find?_append]
  by_cases h : env.fileName key = name <;> simp [h]

theorem get?_writeSelectors (h : env.writeSelectors x keys dir = .ok dir') (name : Text) :
    dir'.get? name = ((lastNamed env keys name).map selectorContent).or (dir.get? name) := by
  induction keys generalizing dir with
  | nil =>
    obtain rfl := Except.ok.inj h
    rfl
  | cons key keys ih =>
    unfold writeSelectors at h
    split at h
    · cases h
    · rw [ih h, lastNamed_cons, Assoc.get?_insert]
      cases lastNamed env keys name with
      | some last => simp
      | none => by_cases hk : env.fileName key = name <;> simp [hk]

/-- An entry that is the current name of no key. -/
def isStale (env : SelectorEnv) (keys : List DecryptedSshKey) (name : Text) : Bool :=
  hasPubExtension name && (keys.map env.fileName).all (· ≠ name)

theorem get?_refreshEntry {name : Text} (h : env.refreshEntry x keys name dir = .ok dir') (n : Text) :
    dir'.get? n = if n = name ∧ isStale env keys name = true then (keys.find? (isAlias name)).map selectorContent
      else dir.get? n := by
  unfold refreshEntry at h
  split at h
  · cases h
  split at h
  · next hstale =>
    have hstale' : isStale env keys name = true := hstale
    split at h
    · next key hkey =>
      split at h
      · cases h
      · obtain rfl := Except.ok.inj h
        rw [Assoc.get?_insert, hkey]
        by_cases hn : n = name
        · simp [hn, hstale']
        · simp [hn, Ne.symm hn]
    · next hkey =>
      split at h
      · cases h
      · obtain rfl := Except.ok.inj h
        rw [Assoc.get?_erase, hkey]
        by_cases hn : n = name
        · simp [hn, hstale']
        · simp [hn, Ne.symm hn]
  · next hstale =>
    obtain rfl := Except.ok.inj h
    have hstale' : ¬isStale env keys name = true := hstale
    simp [hstale']

theorem get?_refreshEntries {names : List Text} (hnodup : names.Nodup)
    (h : env.refreshEntries x keys names dir = .ok dir')
    (n : Text) :
    dir'.get? n = if n ∈ names ∧ isStale env keys n = true then (keys.find? (isAlias n)).map selectorContent
      else dir.get? n := by
  induction names generalizing dir with
  | nil =>
    obtain rfl := Except.ok.inj h
    simp
  | cons name names ih =>
    obtain ⟨hname, hnames⟩ := List.nodup_cons.1 hnodup
    unfold refreshEntries at h
    split at h
    · cases h
    · next dir₁ hentry =>
      rw [ih hnames h, get?_refreshEntry hentry]
      by_cases hn : n = name
      · subst hn
        simp [hname]
      · simp [hn]

theorem lastNamed_eq_none {name : Text} :
    lastNamed env keys name = none ↔ (keys.map env.fileName).all (· ≠ name) = true := by
  unfold lastNamed
  rw [List.find?_eq_none]
  simp

theorem lastNamed_of_isStale {name : Text} (h : isStale env keys name = true) : lastNamed env keys name = none :=
  lastNamed_eq_none.2 (Bool.and_eq_true _ _ ▸ h).2

/-- The directory after `write_key_selector_files`, name by name. -/
theorem get?_writeKeySelectorFiles (h : env.writeKeySelectorFiles x keys dir = .ok dir') (name : Text) :
    dir'.get? name =
      if isStale env keys name = true then
        if (dir.get? name).isSome then (keys.find? (isAlias name)).map selectorContent else none
      else ((lastNamed env keys name).map selectorContent).or (dir.get? name) := by
  unfold writeKeySelectorFiles at h
  split at h
  · cases h
  split at h
  · cases h
  next dir₁ hwrite =>
  split at h
  · cases h
  have hfirst := get?_writeSelectors hwrite name
  rw [get?_refreshEntries (List.nodup_dedup _) h name]
  simp only [List.mem_dedup, Assoc.mem_keys_iff, hfirst]
  cases hstale : isStale env keys name with
  | false => simp
  | true =>
    rw [lastNamed_of_isStale hstale, Option.map_none, Option.none_or]
    cases dir.get? name <;> simp

/-! ### Where the files point -/

/-- Every key's file has its public key, and every other `.pub` file left ends with the id of one key and has
that key's public key. -/
structure SelectorsRight (env : SelectorEnv) (keys : List DecryptedSshKey) (dir : SelectorDir) : Prop where
  selected : ∀ key ∈ keys, dir.get? (env.fileName key) = some (selectorContent key)
  others : ∀ name content, dir.get? name = some content → isStale env keys name = true →
    ∃ key ∈ keys, isAlias name key = true ∧ (∀ other ∈ keys, isAlias name other = true → other = key) ∧
      content = selectorContent key

/-- Keys with one file name have one public key, and an older file name in the directory ends with the id of
at most one key. -/
structure SelectorsDistinct (env : SelectorEnv) (keys : List DecryptedSshKey) (dir : SelectorDir) : Prop where
  files : ∀ key ∈ keys, ∀ other ∈ keys, env.fileName key = env.fileName other →
    selectorContent key = selectorContent other
  aliases : ∀ name, (dir.get? name).isSome → isStale env keys name = true →
    ∀ key ∈ keys, ∀ other ∈ keys, isAlias name key = true → isAlias name other = true → key = other

theorem lastNamed_of_mem {key : DecryptedSshKey} (h : key ∈ keys) :
    ∃ last ∈ keys, env.fileName last = env.fileName key ∧ lastNamed env keys (env.fileName key) = some last := by
  cases hlast : lastNamed env keys (env.fileName key) with
  | none =>
    have hall := List.all_eq_true.1 (lastNamed_eq_none.1 hlast) _ (List.mem_map_of_mem h)
    simp at hall
  | some last =>
    exact ⟨last, List.mem_reverse.1 (List.mem_of_find?_eq_some hlast), by simpa using List.find?_some hlast, rfl⟩

theorem not_isStale_fileName {key : DecryptedSshKey} (h : key ∈ keys) :
    isStale env keys (env.fileName key) = false := by
  refine Bool.eq_false_iff.2 fun hstale => ?_
  have hall := List.all_eq_true.1 (Bool.and_eq_true _ _ ▸ hstale).2 _ (List.mem_map_of_mem h)
  simp at hall

/-- The file of a key after the call has the public key of the last key named so. -/
theorem get?_fileName (h : env.writeKeySelectorFiles x keys dir = .ok dir') {key : DecryptedSshKey}
    (hk : key ∈ keys) :
    ∃ last ∈ keys, env.fileName last = env.fileName key ∧
      dir'.get? (env.fileName key) = some (selectorContent last) := by
  obtain ⟨last, hlast, hname, hfind⟩ := lastNamed_of_mem hk
  refine ⟨last, hlast, hname, ?_⟩
  rw [get?_writeKeySelectorFiles h, not_isStale_fileName hk, hfind]
  rfl

theorem get?_of_isStale (h : env.writeKeySelectorFiles x keys dir = .ok dir') {name : Text}
    (hs : isStale env keys name = true) :
    dir'.get? name = if (dir.get? name).isSome then (keys.find? (isAlias name)).map selectorContent else none := by
  rw [get?_writeKeySelectorFiles h, hs]
  rfl

/-- The selector files point at the right keys exactly when their names tell the keys apart. -/
theorem selectorsRight_iff (h : env.writeKeySelectorFiles x keys dir = .ok dir') :
    SelectorsRight env keys dir' ↔ SelectorsDistinct env keys dir := by
  constructor
  · intro hr
    refine ⟨fun key hk other ho hname => ?_, fun name hthere hs key hk other ho hak hao => ?_⟩
    · have hkey := hr.selected key hk
      rw [hname, hr.selected other ho] at hkey
      exact (Option.some.inj hkey).symm
    · have hget := get?_of_isStale h hs
      rw [if_pos hthere] at hget
      cases hfind : keys.find? (isAlias name) with
      | none => exact absurd hak (List.find?_eq_none.1 hfind key hk)
      | some found =>
        rw [hfind] at hget
        obtain ⟨one, -, -, hone, -⟩ := hr.others name _ hget hs
        exact (hone key hk hak).trans (hone other ho hao).symm
  · intro hd
    refine ⟨fun key hk => ?_, fun name content hget hs => ?_⟩
    · obtain ⟨last, hlast, hname, hfile⟩ := get?_fileName h hk
      rw [hfile, hd.files last hlast key hk hname]
    · rw [get?_of_isStale h hs] at hget
      split at hget
      · next hthere =>
        obtain ⟨key, hfind, rfl⟩ := Option.map_eq_some_iff.1 hget
        have hk := List.mem_of_find?_eq_some hfind
        have ha := List.find?_some hfind
        exact ⟨key, hk, ha, fun other ho hao => hd.aliases name hthere hs other ho key hk hao ha, rfl⟩
      · cases hget

theorem dash_not_mem_vaultItemIdPrefix (id : Text) : '-' ∉ vaultItemIdPrefix id := by
  intro h
  have halnum := (List.mem_filter.1 (List.mem_of_mem_take h)).2
  exact absurd halnum (by decide)

theorem eq_of_aliasSuffix_suffix {p q : Text} (hq : '-' ∉ q) (h : aliasSuffix p <:+ aliasSuffix q) : p = q := by
  obtain ⟨front, hfront⟩ := h
  unfold aliasSuffix at hfront
  rw [← List.append_assoc] at hfront
  have hdash : front ++ '-' :: '-' :: p = '-' :: '-' :: q := List.append_cancel_right hfront
  cases front with
  | nil => simpa using hdash
  | cons c front =>
    -- a dash of the shorter name would stand in the id of the longer one
    obtain ⟨-, htail⟩ := List.cons.inj hdash
    cases front with
    | nil =>
      obtain ⟨-, hp⟩ := List.cons.inj htail
      exact absurd (hp ▸ List.mem_cons_self ..) hq
    | cons d front =>
      obtain ⟨-, hp⟩ := List.cons.inj htail
      exact absurd (hp ▸ List.mem_append_right _ (List.mem_cons_self ..)) hq

theorem idPrefix_unique {p q name : Text} (hp : '-' ∉ p) (hq : '-' ∉ q) (h : aliasSuffix p <:+ name)
    (h' : aliasSuffix q <:+ name) : p = q := by
  rcases Nat.le_total (aliasSuffix p).length (aliasSuffix q).length with hle | hle
  · exact eq_of_aliasSuffix_suffix hq (List.suffix_of_suffix_length_le h h' hle)
  · exact (eq_of_aliasSuffix_suffix hp (List.suffix_of_suffix_length_le h' h hle)).symm

/-- A file name ends with the beginning of its key's id. -/
theorem aliasSuffix_suffix_selectorFileName {toLowercase : Char → List Char} {id : Text} (name : Text)
    (h : vaultItemIdPrefix id ≠ []) :
    aliasSuffix (vaultItemIdPrefix id) <:+ selectorFileName toLowercase name id := by
  have hpub : ".pub".toList = ['.', 'p', 'u', 'b'] := by decide
  have hdash : "--".toList = ['-', '-'] := by decide
  unfold selectorFileName
  rw [if_neg h, hpub, hdash]
  exact ⟨slugifyKeyName toLowercase name, by simp [aliasSuffix]⟩

theorem aliasSuffix_suffix_fileName {key : DecryptedSshKey} (h : vaultItemIdPrefix key.cipherId.toList ≠ []) :
    aliasSuffix (vaultItemIdPrefix key.cipherId.toList) <:+ env.fileName key :=
  aliasSuffix_suffix_selectorFileName key.name.toList h

/-- Keys whose ids begin with different letters and digits are told apart by their file names. -/
theorem selectorsDistinct_of_prefixes (hne : ∀ key ∈ keys, vaultItemIdPrefix key.cipherId.toList ≠ [])
    (hinj : ∀ key ∈ keys, ∀ other ∈ keys,
      vaultItemIdPrefix key.cipherId.toList = vaultItemIdPrefix other.cipherId.toList → key = other) :
    SelectorsDistinct env keys dir where
  files key hk other ho hname := by
    have hsuffix : _ <:+ env.fileName key := aliasSuffix_suffix_fileName (hne key hk)
    rw [hname] at hsuffix
    have hsame := idPrefix_unique (dash_not_mem_vaultItemIdPrefix _) (dash_not_mem_vaultItemIdPrefix _) hsuffix
      (aliasSuffix_suffix_fileName (hne other ho))
    rw [hinj key hk other ho hsame]
  aliases name _ _ key hk other ho hak hao := by
    have hsuffix {k : DecryptedSshKey} (ha : isAlias name k = true) :
        aliasSuffix (vaultItemIdPrefix k.cipherId.toList) <:+ name :=
      List.isSuffixOf_iff_suffix.1 (Bool.and_eq_true _ _ ▸ ha).2
    exact hinj key hk other ho (idPrefix_unique (dash_not_mem_vaultItemIdPrefix _)
      (dash_not_mem_vaultItemIdPrefix _) (hsuffix hak) (hsuffix hao))

def asciiEnv : SelectorEnv := ⟨"/keys".toList, fun c => [c.toLower]⟩

def serverKey (id publicKey : String) : DecryptedSshKey := ⟨"", publicKey, "Server", id⟩

/-- Two keys of one name; their ids begin differently. -/
def servers : List DecryptedSshKey :=
  [serverKey "12345678-a" "ssh-ed25519 A", serverKey "abcdefgh-b" "ssh-ed25519 B"]

/-- The first of the keys has been renamed from `old`, and there is the file of a key that is gone. -/
def renamedDir : SelectorDir :=
  [("old--12345678.pub".toList, []), ("gone--87654321.pub".toList, []), ("notes".toList, [])]

def renamed : Except String SelectorDir := asciiEnv.writeKeySelectorFiles {} servers renamedDir

theorem renamed_ok : renamed.toOption.isSome = true := by decide

theorem selectorsDistinct_servers : SelectorsDistinct asciiEnv servers renamedDir :=
  selectorsDistinct_of_prefixes (by decide) (by decide)

theorem selectorsRight_renamed : ∃ dir', renamed = .ok dir' ∧ SelectorsRight asciiEnv servers dir' := by
  have hok := renamed_ok
  cases h : renamed with
  | error e =>
    rw [h] at hok
    cases hok
  | ok dir' => exact ⟨dir', rfl, (selectorsRight_iff h).2 selectorsDistinct_servers⟩

def twins : List DecryptedSshKey :=
  [serverKey "12345678-a" "ssh-ed25519 A", serverKey "12345678-b" "ssh-ed25519 B"]

def twinFiles : Except String SelectorDir := asciiEnv.writeKeySelectorFiles {} twins []

theorem twins_share_file : twinFiles.toOption.any (fun dir =>
    dir.get? (asciiEnv.fileName (serverKey "12345678-a" "ssh-ed25519 A")) = some "ssh-ed25519 B\n".toList) =
      true := by
  decide

/-- The file of the first of two keys of one name whose ids begin alike has the second one's public key. -/
theorem twins_not_right : ¬∀ (env : SelectorEnv) (x : SelectorFaults) (keys : List DecryptedSshKey)
    (dir dir' : SelectorDir), keys.Pairwise (fun k l => k.cipherId ≠ l.cipherId) →
    env.writeKeySelectorFiles x keys dir = .ok dir' → SelectorsRight env keys dir' := by
  intro hall
  have hshare := twins_share_file
  cases h : twinFiles with
  | error e =>
    rw [h] at hshare
    cases hshare
  | ok dir' =>
    have hright := hall asciiEnv {} twins [] dir' (by decide) h
    have hfirst := hright.selected (serverKey "12345678-a" "ssh-ed25519 A") (List.mem_cons_self ..)
    rw [h] at hshare
    have hsecond := of_decide_eq_true hshare
    exact absurd (hfirst.symm.trans hsecond) (by decide)

end SelectorEnv
end SshWarden
