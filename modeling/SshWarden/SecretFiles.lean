import SshWarden.Data
import SshWarden.Bindings
import SshWarden.Lib.FileSystem

/-!
# Replacing a secret file

The caches, the session and the bindings are written to a `.tmp` file that is renamed over the old
content. Where that fails the old content is moved to a `.bak` file first, and moved back when the new
one cannot be promoted either. Any operation may fail, and the process may stop between any two of them.
-/

namespace SshWarden
open Prog FileSystem

structure FilePath where
  parent : String
  fileName : String
deriving DecidableEq, Repr

namespace FilePath

def display (path : FilePath) : String := path.parent ++ "/" ++ path.fileName

def withSuffix (path : FilePath) (suffix : String) : FilePath := { path with fileName := path.fileName ++ suffix }

/-- The file name before its last dot, unless that is its first character. -/
def fileStem (path : FilePath) : List Char :=
  let before := ((path.fileName.toList.reverse.dropWhile (· ≠ '.')).drop 1).reverse
  if before = [] then path.fileName.toList else before

/-- `Path::with_extension`; a path that ends in `..` names no file and stays as it is. -/
def withExtension (path : FilePath) (extension : String) : FilePath :=
  if path.fileName = ".." then path
  else { path with fileName := String.ofList (path.fileStem ++ '.' :: extension.toList) }

/-- Paths that no file can have. -/
def IsDir (path : FilePath) : Prop := path.fileName = ".."

end FilePath

abbrev SaveProg (α : Type) : Type := FsProg FilePath Bytes α

structure PromoteMessages where
  backup : String
  promote : String
  rename : String

/-- The tmp file takes the place of the destination, which is at the backup. -/
def promoteAside (tmp path backup : FilePath) (message : String) : SaveProg (Except String Unit) := do
  let promoted ← fs (.rename tmp path)
  match promoted with
  | .error _ => do
    let _ ← fs (.rename backup path)
    pure (.error message)
  | .ok _ => do
    let _ ← fs (.removeFile backup)
    pure (.ok ())

/-- The tmp file takes the place of the destination, with a detour over the backup where renaming over
it fails. -/
def promote (tmp path backup : FilePath) (messages : String → PromoteMessages) :
    SaveProg (Except String Unit) := do
  let renamed ← fs (.rename tmp path)
  match renamed with
  | .ok _ => pure (.ok ())
  | .error e => do
    let there ← fs (.pathExists path)
    if there then do
      let _ ← fs (.removeFile backup)
      let moved ← fs (.rename path backup)
      match moved with
      | .error _ => pure (.error (messages e).backup)
      | .ok _ => promoteAside tmp path backup (messages e).promote
    else pure (.error (messages e).rename)

def ownerOnlyMessages (path : FilePath) (e : String) : PromoteMessages where
  backup := s!"Failed to back up {path.display} after rename error: {e}"
  promote := s!"Failed to replace file: {path.display}"
  rename := s!"Failed to rename tmp file: {path.display}"

/-- `unix`: whether the build sets permissions. -/
def writeOwnerOnlyFile (unix : Bool) (path : FilePath) (content : Bytes) : SaveProg (Except String Unit) := do
  let tmp := path.withSuffix ".tmp"
  let done ← fs (.write tmp content)
  match done with
  | .err .. => pure (.error s!"Failed to write tmp file: {tmp.display}")
  | .ok =>
    if unix then do
      let set ← fs (.setPermissions tmp 0o600)
      match set with
      | .error _ => pure (.error s!"Failed to set permissions on tmp file: {tmp.display}")
      | .ok _ => promote tmp path (path.withSuffix ".bak") (ownerOnlyMessages path)
    else promote tmp path (path.withSuffix ".bak") (ownerOnlyMessages path)

/-- `LocalKeyCacheFile::save`, to its path; `json` is `serde_json::to_string_pretty`. -/
def LocalKeyCacheFile.save (unix : Bool) (json : LocalKeyCacheFile → Except String Bytes) (path : FilePath)
    (cache : LocalKeyCacheFile) : SaveProg (Except String Unit) := do
  let created ← fs (.createDirAll path.parent)
  match created with
  | .error _ => pure (.error s!"Failed to create local key cache directory: {path.parent}")
  | .ok _ =>
    match json cache with
    | .error _ => pure (.error "Failed to serialize local key cache")
    | .ok content => do
      let saved ← writeOwnerOnlyFile unix path content
      pure (saved.mapError fun _ => s!"Failed to write local key cache: {path.display}")

def bindingsMessages (path : FilePath) (e : String) : PromoteMessages where
  backup := s!"Failed to move existing bindings file to backup after rename error: {e}"
  promote := s!"Failed to replace bindings file: {path.display}"
  rename := s!"Failed to rename bindings tmp file: {path.display}"

def HostBindingsFile.saveTo (json : HostBindingsFile → Except String Bytes) (path : FilePath)
    (bindings : HostBindingsFile) : SaveProg (Except String Unit) := do
  let created ← fs (.createDirAll path.parent)
  match created with
  | .error _ => pure (.error s!"Failed to create bindings directory: {path.parent}")
  | .ok _ =>
    match json bindings with
    | .error _ => pure (.error "Failed to serialize bindings file")
    | .ok content => do
      let tmp := path.withExtension "json.tmp"
      let done ← fs (.write tmp content)
      match done with
      | .err .. => pure (.error s!"Failed to write bindings tmp file: {tmp.display}")
      | .ok => promote tmp path (path.withExtension "json.bak") (bindingsMessages path)

/-! ### The paths of a replacement differ -/

namespace FilePath

theorem withSuffix_ne (path : FilePath) (suffix : String) (h : suffix ≠ "") : path.withSuffix suffix ≠ path := by
  intro hp
  have hname : path.fileName ++ suffix = path.fileName := congrArg fileName hp
  have hlen := congrArg String.length hname
  rw [String.length_append] at hlen
  exact h (String.length_eq_zero_iff.1 (by omega))

theorem withSuffix_inj (path : FilePath) (suffix suffix' : String) (h : suffix ≠ suffix') :
    path.withSuffix suffix ≠ path.withSuffix suffix' := by
  intro hp
  have hname : path.fileName ++ suffix = path.fileName ++ suffix' := congrArg fileName hp
  exact h ((String.append_right_inj _).1 hname)

/-- A file name has at most one dot more than its stem. -/
theorem count_fileName_le (path : FilePath) :
    path.fileName.toList.count '.' ≤ path.fileStem.count '.' + 1 := by
  unfold fileStem
  dsimp only
  split
  · omega
  · have hcut := List.takeWhile_append_dropWhile (p := (· ≠ '.')) (l := path.fileName.toList.reverse)
    have hnone : (path.fileName.toList.reverse.takeWhile (· ≠ '.')).count '.' = 0 :=
      List.count_eq_zero.2 fun h => by simpa using List.mem_takeWhile_imp h
    have hdrop : ∀ l : List Char, l.count '.' ≤ (l.drop 1).count '.' + 1 := by
      rintro (_ | ⟨c, l⟩)
      · simp
      · simp only [List.count_cons, List.drop_one, List.tail_cons]
        split <;> omega
    have hcount := congrArg (List.count '.') hcut
    rw [List.count_append, hnone, List.count_reverse] at hcount
    rw [List.count_reverse, ← hcount, Nat.zero_add]
    exact hdrop _

theorem withExtension_of_isDir {path : FilePath} (hd : path.IsDir) (extension : String) :
    path.withExtension extension = path := if_pos hd

theorem toList_withExtension {path : FilePath} (hd : ¬path.IsDir) (extension : String) :
    (path.withExtension extension).fileName.toList = path.fileStem ++ '.' :: extension.toList := by
  have hname : path.fileName ≠ ".." := hd
  rw [withExtension, if_neg hname, String.toList_ofList]

theorem withExtension_ne {path : FilePath} (hd : ¬path.IsDir) (extension : String)
    (h : '.' ∈ extension.toList) : path.withExtension extension ≠ path := by
  intro hp
  have hname := toList_withExtension hd extension
  rw [hp] at hname
  have hcount := congrArg (List.count '.') hname
  rw [List.count_append, List.count_cons_self] at hcount
  have hpos := List.count_pos_iff.2 h
  have hle := path.count_fileName_le
  omega

theorem withExtension_inj {path : FilePath} (hd : ¬path.IsDir) (extension extension' : String)
    (h : extension ≠ extension') : path.withExtension extension ≠ path.withExtension extension' := by
  intro hp
  have hname := toList_withExtension hd extension
  rw [hp, toList_withExtension hd] at hname
  have htail := (List.cons.inj (List.append_cancel_left hname)).2
  exact h (String.toList_inj.1 htail).symm

end FilePath

/-- The function that one writer replaces its file with, and how its input is serialized. -/
inductive Writer
  | ownerOnly (unix : Bool)
  | localKeyCache (unix : Bool) (json : LocalKeyCacheFile → Except String Bytes)
  | bindings (json : HostBindingsFile → Except String Bytes)

namespace Writer

@[reducible] def Input : Writer → Type
  | ownerOnly _ => Bytes
  | localKeyCache .. => LocalKeyCacheFile
  | bindings _ => HostBindingsFile

def content : (w : Writer) → w.Input → Except String Bytes
  | ownerOnly _, content => .ok content
  | localKeyCache _ json, cache => json cache
  | bindings json, file => json file

def backup : Writer → FilePath → FilePath
  | bindings _, path => path.withExtension "json.bak"
  | _, path => path.withSuffix ".bak"

def save : (w : Writer) → FilePath → w.Input → SaveProg (Except String Unit)
  | ownerOnly unix, path, content => writeOwnerOnlyFile unix path content
  | localKeyCache unix json, path, cache => cache.save unix json path
  | bindings json, path, file => file.saveTo json path

end Writer

/-- What the calls so far were to write: the content of the last one that returned `Ok`, and the contents
that calls after it have written to their tmp file and were promoting. -/
structure SaveLedger where
  committed : Option Bytes
  promoting : List Bytes := []

namespace SaveLedger

def promote (l : SaveLedger) (contents : List Bytes) : SaveLedger :=
  { l with promoting := l.promoting ++ contents }

/-- Contents that the destination may have. -/
def Holds (l : SaveLedger) (x : Bytes) : Prop := l.committed = some x ∨ x ∈ l.promoting

theorem Holds.mem {l : SaveLedger} {x c : Bytes} (h : l.Holds x) (hc : l.committed = some c) :
    x ∈ c :: l.promoting := by
  rcases h with h | h
  · exact List.mem_cons.2 (.inl (Option.some.inj (h.symm.trans hc)))
  · exact List.mem_cons_of_mem _ h

theorem Holds.promote {l : SaveLedger} {x : Bytes} (h : l.Holds x) (ws : List Bytes) : (l.promote ws).Holds x :=
  h.imp_right (List.mem_append_left ws)

end SaveLedger

/-- What a file system does under the paths of files. -/
abbrev secretDisk : Machine (sig FilePath Bytes) (Disk FilePath Bytes) := machine FilePath.IsDir

/-- The calls of one writer, one after the other. A call that is stopped has failed, is still under way,
or was under way when the process stopped. -/
inductive Saves (w : Writer) (path : FilePath) (l : SaveLedger) (d : Disk FilePath Bytes) :
    SaveLedger → Disk FilePath Bytes → Prop
  | start : Saves w path l d l d
  | returned {l' : SaveLedger} {d' d'' : Disk FilePath Bytes} {input : w.Input} {tr : List (Event FilePath Bytes)}
      (h : Saves w path l d l' d') (hs : Steps secretDisk (w.save path input) d' tr (.ret (.ok ())) d'') :
      Saves w path l d { committed := (w.content input).toOption } d''
  | stopped {l' : SaveLedger} {d' d'' : Disk FilePath Bytes} {input : w.Input} {tr : List (Event FilePath Bytes)}
      {p : SaveProg (Except String Unit)} (h : Saves w path l d l' d')
      (hs : Steps secretDisk (w.save path input) d' tr p d'') : Saves w path l d (l'.promote (written tr)) d''

/-- The committed content, or one that was to replace it, is at the destination or in the backup, and the
destination holds no other content. -/
structure Recoverable (path backup : FilePath) (l : SaveLedger) (d : Disk FilePath Bytes) : Prop where
  present : ∀ c, l.committed = some c → ∃ x ∈ c :: l.promoting, d path = some x ∨ d backup = some x
  complete : ∀ x, d path = some x → l.Holds x

namespace Recoverable
variable {path backup : FilePath} {l : SaveLedger} {d d' : Disk FilePath Bytes} {c : Bytes}

theorem of_same (h : Recoverable path backup l d) (hpath : d' path = d path) (hbackup : d' backup = d backup) :
    Recoverable path backup l d' :=
  ⟨fun c hc => by rw [hpath, hbackup]; exact h.present c hc, fun x hx => h.complete x (hpath ▸ hx)⟩

theorem promote (h : Recoverable path backup l d) (ws : List Bytes) :
    Recoverable path backup (l.promote ws) d where
  present c hc := by
    obtain ⟨x, hx, hd⟩ := h.present c hc
    exact ⟨x, List.mem_append_left ws hx, hd⟩
  complete x hx := (h.complete x hx).promote ws

/-- What may be at the destination is worth the committed content there. -/
theorem of_path {x : Bytes} (hx : l.Holds x) (hpath : d path = some x) : Recoverable path backup l d where
  present _ hc := ⟨x, hx.mem hc, .inl hpath⟩
  complete y hy := by rw [hpath] at hy; exact Option.some.inj hy ▸ hx

theorem of_backup {x : Bytes} (hx : l.Holds x) (hpath : d path = none) (hbackup : d backup = some x) :
    Recoverable path backup l d where
  present _ hc := ⟨x, hx.mem hc, .inr hbackup⟩
  complete y hy := by rw [hpath] at hy; cases hy

end Recoverable

/-- The disk is recoverable with the contents written so far. -/
abbrev Recovers (path backup : FilePath) (l : SaveLedger) (x : Disk FilePath Bytes × List Bytes) : Prop :=
  Recoverable path backup (l.promote x.2) x.1

/-- A call that keeps the disk recoverable, wherever it is stopped, and has written `c` when it returns
`Ok`. -/
def KeepsRecoverable (path backup : FilePath) (l : SaveLedger) (c : Except String Bytes)
    (p : SaveProg (Except String Unit)) (x : Disk FilePath Bytes × List Bytes) : Prop :=
  wp (writing FilePath.IsDir) (fun _ => Recovers path backup l) p
    (fun r x => Recovers path backup l x ∧ (r = .ok () → ∃ content, c = .ok content ∧ x.1 path = some content)) x

section
variable {path backup tmp : FilePath} {l : SaveLedger} {c x : Bytes} {d : Disk FilePath Bytes} {ws : List Bytes}

theorem next_rename_target {source target : FilePath} (h : source ≠ target) (u : Unit)
    (d : Disk FilePath Bytes) : next (.rename source target) d (.ok u) target = d source := by
  simp only [next, Function.update_of_ne h.symm, Function.update_self]

theorem next_remove_of_ne {file other : FilePath} (h : other ≠ file) (r : Except String Unit)
    (d : Disk FilePath Bytes) : next (.removeFile file) d r other = d other := by
  cases r with
  | ok _ => exact Function.update_of_ne h ..
  | error _ => rfl

theorem keepsRecoverable_promoteAside (hpath : tmp ≠ path) (hpb : path ≠ backup) (message : String)
    (hnew : (l.promote ws).Holds c) (hold : (l.promote ws).Holds x) (hnone : d path = none)
    (hx : d backup = some x) (htmp : d tmp = some c) :
    KeepsRecoverable path backup l (.ok c) (promoteAside tmp path backup message) (d, ws) := by
  refine wp_perform_bind.2 ⟨.of_backup hold hnone hx, fun promoted _ => ?_⟩
  cases promoted with
  | ok u =>
    have hdest : next (.rename tmp path) d (.ok u) path = some c := (next_rename_target hpath u d).trans htmp
    refine wp_perform_bind.2 ⟨.of_path hnew hdest, fun removed _ => (wp_ret _).2 ?_⟩
    have hkept := (next_remove_of_ne hpb removed (next (.rename tmp path) d (.ok u))).trans hdest
    exact ⟨.of_path hnew hkept, fun _ => ⟨c, rfl, hkept⟩⟩
  | error e =>
    refine wp_perform_bind.2 ⟨.of_backup hold hnone hx, fun restored _ => (wp_ret _).2 ⟨?_, fun hr => nomatch hr⟩⟩
    cases restored with
    | ok u => exact .of_path hold ((next_rename_target hpb.symm u d).trans hx)
    | error _ => exact .of_backup hold hnone hx

theorem keepsRecoverable_promote (hpath : tmp ≠ path) (hbackup : tmp ≠ backup) (hpb : path ≠ backup)
    (messages : String → PromoteMessages) (h : Recovers path backup l (d, ws)) (htmp : d tmp = some c)
    (hc : c ∈ ws) : KeepsRecoverable path backup l (.ok c) (promote tmp path backup messages) (d, ws) := by
  have hnew : (l.promote ws).Holds c := .inr (List.mem_append_right _ hc)
  unfold promote
  refine wp_perform_bind.2 ⟨h, fun renamed _ => ?_⟩
  cases renamed with
  | ok u =>
    have hdest : next (.rename tmp path) d (.ok u) path = some c := (next_rename_target hpath u d).trans htmp
    exact (wp_ret _).2 ⟨.of_path hnew hdest, fun _ => ⟨c, rfl, hdest⟩⟩
  | error e =>
    refine wp_perform_bind.2 ⟨h, fun there hthere => (wp_ite ..).2 ⟨fun ht => ?_, fun _ => ?_⟩⟩
    · obtain ⟨x, hx⟩ := Option.isSome_iff_exists.1 (hthere ht)
      have hold : (l.promote ws).Holds x := h.complete x hx
      -- the backup is removed only while the destination is there
      refine wp_perform_bind.2 ⟨h, fun removed _ => ?_⟩
      have hx' := (next_remove_of_ne hpb removed d).trans hx
      have htmp' := (next_remove_of_ne hbackup removed d).trans htmp
      refine wp_perform_bind.2 ⟨.of_path hold hx', fun moved _ => ?_⟩
      cases moved with
      | ok u =>
        refine keepsRecoverable_promoteAside hpath hpb (messages e).promote hnew hold ?_ ?_ ?_
        · exact Function.update_self ..
        · exact (next_rename_target hpb u _).trans hx'
        · exact ((Function.update_of_ne hpath ..).trans (Function.update_of_ne hbackup ..)).trans htmp'
      | error _ => exact (wp_ret _).2 ⟨.of_path hold hx', fun hr => nomatch hr⟩
    · exact (wp_ret _).2 ⟨h, fun hr => nomatch hr⟩

theorem recovers_write (hpath : tmp ≠ path) (hbackup : tmp ≠ backup) (content : Bytes)
    (h : Recovers path backup l (d, ws)) (r : Written Bytes) :
    Recovers path backup l ((writing FilePath.IsDir).next (.write tmp content) (d, ws) r) := by
  have hother : ∀ {file : FilePath}, tmp ≠ file → next (.write tmp content) d r file = d file := by
    intro file hne
    match r with
    | .ok | .err _ (some _) => exact Function.update_of_ne hne.symm ..
    | .err _ none => rfl
  have hws : ∃ ws', wrote ws ⟨.write tmp content, r⟩ = ws ++ ws' := by
    match r with
    | .ok => exact ⟨[content], rfl⟩
    | .err .. => exact ⟨[], (List.append_nil _).symm⟩
  obtain ⟨ws', hws⟩ := hws
  have hmore : l.promote (wrote ws ⟨.write tmp content, r⟩) = (l.promote ws).promote ws' := by
    rw [hws, SaveLedger.promote, SaveLedger.promote, SaveLedger.promote, List.append_assoc]
  show Recoverable path backup (l.promote (wrote ws ⟨.write tmp content, r⟩)) _
  rw [hmore]
  exact (h.promote ws').of_same (hother hpath) (hother hbackup)

theorem keepsRecoverable_writeOwnerOnlyFile (unix : Bool)
    (h : Recovers path (path.withSuffix ".bak") l (d, ws)) (content : Bytes) :
    KeepsRecoverable path (path.withSuffix ".bak") l (.ok content) (writeOwnerOnlyFile unix path content)
      (d, ws) := by
  have hpath := path.withSuffix_ne ".tmp" (by decide)
  have hbackup := path.withSuffix_inj ".tmp" ".bak" (by decide)
  have hpb := (path.withSuffix_ne ".bak" (by decide)).symm
  unfold writeOwnerOnlyFile
  refine wp_perform_bind.2 ⟨h, fun done _ => ?_⟩
  have hdone := recovers_write hpath hbackup content h done
  match done with
  | .err .. => exact (wp_ret _).2 ⟨hdone, fun hr => nomatch hr⟩
  | .ok =>
    have htmp : next (.write (path.withSuffix ".tmp") content) d .ok (path.withSuffix ".tmp") = some content :=
      Function.update_self ..
    have hnew : content ∈ ws ++ [content] := List.mem_append_right _ (List.mem_singleton_self _)
    have hpromote := keepsRecoverable_promote hpath hbackup hpb (ownerOnlyMessages path) hdone htmp hnew
    refine (wp_ite ..).2 ⟨fun _ => ?_, fun _ => hpromote⟩
    refine wp_perform_bind.2 ⟨hdone, fun set _ => ?_⟩
    cases set with
    | error _ => exact (wp_ret _).2 ⟨hdone, fun hr => nomatch hr⟩
    | ok _ => exact hpromote

theorem keepsRecoverable_localKeyCache (unix : Bool) (json : LocalKeyCacheFile → Except String Bytes)
    (h : Recovers path (path.withSuffix ".bak") l (d, ws)) (cache : LocalKeyCacheFile) :
    KeepsRecoverable path (path.withSuffix ".bak") l (json cache) (cache.save unix json path) (d, ws) := by
  unfold LocalKeyCacheFile.save
  refine wp_perform_bind.2 ⟨h, fun created _ => ?_⟩
  cases created with
  | error _ => exact (wp_ret _).2 ⟨h, fun hr => nomatch hr⟩
  | ok _ =>
    cases json cache with
    | error _ => exact (wp_ret _).2 ⟨h, fun hr => nomatch hr⟩
    | ok content =>
      refine (wp_bind ..).2 ((keepsRecoverable_writeOwnerOnlyFile unix h content).post ?_)
      rintro (_ | u) x ⟨hx, hok⟩
      · exact (wp_ret _).2 ⟨hx, fun hr => nomatch hr⟩
      · exact (wp_ret _).2 ⟨hx, fun _ => hok rfl⟩

theorem keepsRecoverable_saveTo (json : HostBindingsFile → Except String Bytes)
    (h : Recovers path (path.withExtension "json.bak") l (d, ws)) (file : HostBindingsFile) :
    KeepsRecoverable path (path.withExtension "json.bak") l (json file) (file.saveTo json path) (d, ws) := by
  unfold HostBindingsFile.saveTo
  refine wp_perform_bind.2 ⟨h, fun created _ => ?_⟩
  cases created with
  | error _ => exact (wp_ret _).2 ⟨h, fun hr => nomatch hr⟩
  | ok _ =>
    cases json file with
    | error _ => exact (wp_ret _).2 ⟨h, fun hr => nomatch hr⟩
    | ok content =>
      refine wp_perform_bind.2 ⟨h, fun done hready => ?_⟩
      by_cases hdir : path.IsDir
      · -- a directory is its own tmp file, and cannot be written
        have htmp : (path.withExtension "json.tmp").IsDir := by rwa [FilePath.withExtension_of_isDir hdir]
        match done with
        | .ok => exact absurd htmp hready
        | .err _ none => exact (wp_ret _).2 ⟨h, fun hr => nomatch hr⟩
        | .err _ (some _) => exact nomatch hready htmp
      · have hpath := FilePath.withExtension_ne hdir "json.tmp" (by decide)
        have hbackup := FilePath.withExtension_inj hdir "json.tmp" "json.bak" (by decide)
        have hpb := (FilePath.withExtension_ne hdir "json.bak" (by decide)).symm
        have hdone := recovers_write hpath hbackup content h done
        match done with
        | .err .. => exact (wp_ret _).2 ⟨hdone, fun hr => nomatch hr⟩
        | .ok =>
          exact keepsRecoverable_promote hpath hbackup hpb (bindingsMessages path) hdone (Function.update_self ..)
            (List.mem_append_right _ (List.mem_singleton_self _))

theorem Writer.keepsRecoverable (w : Writer) (h : Recoverable path (w.backup path) l d) (input : w.Input) :
    KeepsRecoverable path (w.backup path) l (w.content input) (w.save path input) (d, []) := by
  have h₀ := h.promote []
  match w, input with
  | .ownerOnly unix, content => exact keepsRecoverable_writeOwnerOnlyFile unix h₀ content
  | .localKeyCache unix json, cache => exact keepsRecoverable_localKeyCache unix json h₀ cache
  | .bindings json, file => exact keepsRecoverable_saveTo json h₀ file

end

/-! ### All calls -/

section
variable {w : Writer} {path : FilePath} {l l' : SaveLedger} {d d' : Disk FilePath Bytes}

theorem Writer.recoverable_of_steps {p : SaveProg (Except String Unit)} {tr : List (Event FilePath Bytes)}
    {input : w.Input} (h : Recoverable path (w.backup path) l d)
    (hs : Steps secretDisk (w.save path input) d tr p d') :
    Recoverable path (w.backup path) (l.promote (written tr)) d' := by
  have hp := (w.keepsRecoverable h input).steps (steps_writing hs)
  cases p with
  | ret r => exact hp.1
  | vis o k => exact hp.1

theorem Writer.content_of_steps {tr : List (Event FilePath Bytes)} {input : w.Input}
    (h : Recoverable path (w.backup path) l d)
    (hs : Steps secretDisk (w.save path input) d tr (.ret (.ok ())) d') :
    ∃ c, w.content input = .ok c ∧ d' path = some c :=
  ((w.keepsRecoverable h input).of_ret (steps_writing hs)).2 rfl

theorem Saves.recoverable (h : Saves w path l d l' d') (h₀ : Recoverable path (w.backup path) l d) :
    Recoverable path (w.backup path) l' d' := by
  induction h with
  | start => exact h₀
  | returned _ hs ih =>
    obtain ⟨c, hc, hpath⟩ := Writer.content_of_steps ih hs
    exact .of_path (.inl (by rw [hc]; rfl)) hpath
  | stopped _ hs ih => exact Writer.recoverable_of_steps ih hs

/-- Whatever fails and wherever the process stops, the content that was last saved, or one that was to
replace it, is at the destination or in the backup, the destination holds nothing else, and a call that
returns `Ok` has put its content there. -/
theorem saves_recoverable (h : Saves w path { committed := d path } d l' d') :
    Recoverable path (w.backup path) l' d' ∧
      ∀ (input : w.Input) (tr : List (Event FilePath Bytes)) (d'' : Disk FilePath Bytes),
        Steps secretDisk (w.save path input) d' tr (.ret (.ok ())) d'' →
        ∃ c, w.content input = .ok c ∧ d'' path = some c := by
  have h₀ : Recoverable path (w.backup path) { committed := d path } d :=
    ⟨fun c hc => ⟨c, List.mem_cons_self .., .inl hc⟩, fun x hx => .inl hx⟩
  exact ⟨h.recoverable h₀, fun _ _ _ hs => Writer.content_of_steps (h.recoverable h₀) hs⟩

/-- A file system in which nothing can be renamed but a file to its backup. -/
def stuckDisk (backup : FilePath) : (o : Op FilePath Bytes) → Disk FilePath Bytes → o.Ans
  | .write path _, _ => if path.fileName = ".." then .err "Is a directory" none else .ok
  | .rename source target, d => if target = backup ∧ (d source).isSome then .ok () else .error "Access is denied"
  | .pathExists path, d => (d path).isSome
  | .removeFile _, _ => .error "Access is denied"
  | .createDirAll _, _ | .setPermissions .., _ => .ok ()

theorem stuckDisk_ready (backup : FilePath) (o : Op FilePath Bytes) (d : Disk FilePath Bytes) :
    secretDisk.ready o d (stuckDisk backup o d) := by
  cases o with
  | write path content =>
    by_cases h : path.fileName = ".."
    · simp only [stuckDisk, if_pos h]; exact fun _ => rfl
    · simp only [stuckDisk, if_neg h]; exact h
  | rename source target =>
    by_cases h : target = backup ∧ (d source).isSome
    · simp only [stuckDisk, if_pos h]; exact h.2
    · simp only [stuckDisk, if_neg h]; exact trivial
  | pathExists path => exact id
  | _ => exact trivial

def sessionPath : FilePath := ⟨"/home/alice/.config/sshwarden", "session-work.enc"⟩

def sessionDisk : Disk FilePath Bytes := fun path => if path = sessionPath then some [1] else none

/-- A save that can neither promote the new session nor move the old one back: the old one is left in
the backup only. -/
theorem saves_recoverable_stuck :
    ∃ (tr : List (Event FilePath Bytes)) (d : Disk FilePath Bytes),
      Steps secretDisk (writeOwnerOnlyFile true sessionPath [2]) sessionDisk tr
        (.ret (.error s!"Failed to replace file: {sessionPath.display}")) d ∧
      d sessionPath = none ∧ d (sessionPath.withSuffix ".bak") = some [1] ∧
      Recoverable sessionPath (sessionPath.withSuffix ".bak") ⟨some [1], [[2]]⟩ d := by
  have hs := exec_steps secretDisk (stuckDisk (sessionPath.withSuffix ".bak")) (stuckDisk_ready _) 8
    (writeOwnerOnlyFile true sessionPath [2]) sessionDisk
  have hsaves := Saves.stopped (w := .ownerOnly true) (l := ⟨sessionDisk sessionPath, []⟩) .start hs
  have hr := (saves_recoverable hsaves).1
  exact ⟨_, _, hs, by decide, by decide, hr⟩

end

end SshWarden
