import SshWarden.Lib.Prog
import SshWarden.SshConfig

/-!
# The file steps of the binding commands

What `keys bind`, `keys unbind`, `keys list`, a bind-hosts dialog and a vault sync do to the files of the
bindings, one file operation at a time, so that several processes can be put side by side. `fs::write` opens
the file, which truncates it, and writes its content through the descriptor afterwards; in between others may
read, write or rename the file. An operation fails only where the file it needs is missing. The local key
cache belongs to others, so a load of it may answer anything.
-/

namespace SshWarden
open Prog

/-- The content of a file; `torn` where writes have mixed or a program outside has left something else, so
that nothing is known of it. -/
inductive FileText (α : Type) where
  | empty
  | whole (a : α)
  | torn

/-- What a write through a descriptor makes of the content; it starts at the beginning of the file. -/
def FileText.write {α : Type} (a : α) : FileText α → FileText α
  | empty => whole a
  | _ => torn

/-- A bindings file: descriptors follow the file, not the path. -/
structure StoredFile where
  id : Nat
  text : FileText HostBindingsFile

/-- `bindings.json` and its siblings `.tmp`, `.bak` and `.lock`, and the managed snippet. -/
structure BindingDir where
  bindings : Option StoredFile := none
  tmp : Option StoredFile := none
  backup : Option StoredFile := none
  locked : Bool := false
  managed : Option (FileText Text) := none
  nextId : Nat := 0

namespace BindingDir

/-- Nobody has opened a bindings file. -/
def atRest (bindings tmp backup : Option (FileText HostBindingsFile)) (managed : Option (FileText Text))
    (locked : Bool) : BindingDir where
  bindings := bindings.map (StoredFile.mk 0)
  tmp := tmp.map (StoredFile.mk 1)
  backup := backup.map (StoredFile.mk 2)
  locked := locked
  managed := managed
  nextId := 3

/-- The file that opening the tmp path for writing gives. -/
def tmpId (s : BindingDir) : Nat := (s.tmp.map StoredFile.id).getD s.nextId

def openTmp (s : BindingDir) : BindingDir :=
  { s with
    tmp := some ⟨s.tmpId, .empty⟩
    nextId := if s.tmp.isSome then s.nextId else s.nextId + 1 }

/-- Write through the descriptor of a file, wherever the file is by now. -/
def write (s : BindingDir) (id : Nat) (file : HostBindingsFile) : BindingDir :=
  let put := Option.map fun f : StoredFile => if f.id = id then { f with text := f.text.write file } else f
  { s with bindings := put s.bindings, tmp := put s.tmp, backup := put s.backup }

/-- What reading and parsing `bindings.json` may give. -/
def Reads (s : BindingDir) (a : Option HostBindingsFile) : Prop :=
  match s.bindings with
  | none | some ⟨_, .empty⟩ => a = none
  | some ⟨_, .whole file⟩ => a = some file
  | some ⟨_, .torn⟩ => True

/-- What reading the managed snippet may give; a torn one may be no UTF-8. -/
def ReadsManaged (s : BindingDir) (a : Option Text) : Prop :=
  match s.managed with
  | none => a = none
  | some .empty => a = some []
  | some (.whole snippet) => a = some snippet
  | some .torn => True

end BindingDir

/-- A key as the dialog shows it. -/
structure FileSteps.BindHostsKeyEntry where
  cipherId : Text
  name : Text
  hosts : List Text
  deriving DecidableEq

inductive CommandError where
  | bindings (e : BindingError)
  | cacheUnreadable
  | noLocalCache
  | readFailed
  | replaceFailed
  | lockTimeout
  | noKeysToBind
  deriving DecidableEq, Repr

inductive FileOp where
  /-- `LocalKeyCacheFile::load` -/
  | loadCache
  | acquireLock
  | releaseLock
  | bindingsExist
  | readBindings
  /-- Open the tmp file for writing; the answer is its descriptor. -/
  | openTmp
  | writeTmp (id : Nat) (file : HostBindingsFile)
  | renameTmp
  | removeBackup
  | moveToBackup
  | restoreBackup
  | managedExists
  | readManaged
  | openManaged
  | writeManaged (snippet : Text)
  /-- The dialog, answered by what is saved, or not at all. -/
  | bindHostsDialog (entries : List FileSteps.BindHostsKeyEntry)

@[reducible] def FileOp.Ans : FileOp → Type
  | loadCache => Except CommandError (Option (List ManagedKey))
  | acquireLock | bindingsExist | renameTmp | moveToBackup | managedExists => Bool
  | readBindings => Option HostBindingsFile
  | openTmp => Nat
  | readManaged => Option Text
  | bindHostsDialog _ => Option (List (Text × List Text))
  | _ => Unit

@[reducible] def fileSig : Sig := ⟨FileOp, FileOp.Ans⟩

abbrev FileEvent : Type := fileSig.Event

abbrev FProg (α : Type) : Type := Prog fileSig α

abbrev file (o : FileOp) : FProg o.Ans := Prog.perform (S := fileSig) o

/-- A lock that is taken is waited for, or given up at the deadline; what a dialog saves names each key
once. -/
def fileReady : (o : FileOp) → BindingDir → o.Ans → Prop
  | .acquireLock, s, a => a = !s.locked
  | .bindingsExist, s, a => a = s.bindings.isSome
  | .readBindings, s, a => s.Reads a
  | .openTmp, s, a => a = s.tmpId
  | .renameTmp, s, a => a = s.tmp.isSome
  | .moveToBackup, s, a => a = s.bindings.isSome
  | .managedExists, s, a => a = s.managed.isSome
  | .readManaged, s, a => s.ReadsManaged a
  | .bindHostsDialog _, _, a => ∀ payload, a = some payload → (payload.map Prod.fst).Nodup
  | _, _, _ => True

def fileNext : (o : FileOp) → BindingDir → o.Ans → BindingDir
  | .acquireLock, s, a => if a then { s with locked := true } else s
  | .releaseLock, s, _ => { s with locked := false }
  | .openTmp, s, _ => s.openTmp
  | .writeTmp id file, s, _ => s.write id file
  | .renameTmp, s, a => if a then { s with bindings := s.tmp, tmp := none } else s
  | .removeBackup, s, _ => { s with backup := none }
  | .moveToBackup, s, a => if a then { s with bindings := none, backup := s.bindings } else s
  | .restoreBackup, s, _ => if s.backup.isSome then { s with bindings := s.backup, backup := none } else s
  | .openManaged, s, _ => { s with managed := some .empty }
  | .writeManaged snippet, s, _ => { s with managed := s.managed.map (FileText.write snippet) }
  | _, s, _ => s

def fileMachine : Machine fileSig BindingDir where
  ready := fileReady
  next := fileNext

/-! ### `HostBindingsFile` -/

namespace FileSteps

def loadFrom : FProg (Except CommandError HostBindingsFile) := do
  let there ← file .bindingsExist
  if there then do
    let content ← file .readBindings
    pure (content.elim (.error .readFailed) .ok)
  else pure (.ok {})

/-- A failed replacement is tried once more with the old file out of the way. -/
def saveTo (bindings : HostBindingsFile) : FProg (Except CommandError Unit) := do
  let tmp ← file .openTmp
  file (.writeTmp tmp bindings)
  let replaced ← file .renameTmp
  if replaced then pure (.ok ())
  else do
    let there ← file .bindingsExist
    if there then do
      file .removeBackup
      let moved ← file .moveToBackup
      if moved then do
        let promoted ← file .renameTmp
        if promoted then do
          file .removeBackup
          pure (.ok ())
        else do
          file .restoreBackup
          pure (.error .replaceFailed)
      else pure (.error .replaceFailed)
    else pure (.error .replaceFailed)

def updateLocked {α : Type} (mutate : HostBindingsFile → FProg (Except CommandError (HostBindingsFile × α))) :
    FProg (Except CommandError α) := do
  let locked ← file .acquireLock
  if locked then do
    let result ← loadFrom.tryThen fun bindings => (mutate bindings).tryThen fun changed =>
      (saveTo changed.1).tryThen fun _ => pure (.ok changed.2)
    file .releaseLock
    pure result
  else pure (.error .lockTimeout)

/-! ### `sshconfig.rs` -/

def importHostBindingsFromManagedFile (keys : List ManagedKey) (bindings : HostBindingsFile) :
    FProg (Except CommandError (HostBindingsFile × Bool)) := do
  let there ← file .managedExists
  if there then do
    let content ← file .readManaged
    match content with
    | none => pure (.error .readFailed)
    | some content =>
      pure ((SshWarden.importHostBindingsFromManagedFile (some content) keys bindings).mapError .bindings)
  else pure (.ok (bindings, false))

def loadHostBindingsImportingManaged (keys : List ManagedKey) :
    FProg (Except CommandError HostBindingsFile) :=
  loadFrom.tryThen fun bindings =>
    if keys = [] then pure (.ok bindings)
    else (importHostBindingsFromManagedFile keys bindings).tryThen fun imported =>
      if imported.2 then (saveTo imported.1).tryThen fun _ => pure (.ok imported.1)
      else pure (.ok imported.1)

def withHostBindingsLocked {α : Type} (keys : List ManagedKey)
    (mutate : HostBindingsFile → Except BindingError (HostBindingsFile × α)) : FProg (Except CommandError α) :=
  updateLocked fun bindings =>
    if keys = [] then pure ((mutate bindings).mapError .bindings)
    else (importHostBindingsFromManagedFile keys bindings).tryThen fun imported =>
      pure ((mutate imported.1).mapError .bindings)

def writeManaged (env : SnippetEnv) (keys : List ManagedKey) (bindings : HostBindingsFile) :
    FProg (Except CommandError Unit) := do
  file .openManaged
  file (.writeManaged (sshConfigSnippetWithBindingsIn env keys bindings))
  pure (.ok ())

def writeSnippet (env : SnippetEnv) (keys : List ManagedKey) (forceWrite : Bool)
    (bindings : HostBindingsFile) : FProg (Except CommandError Unit) :=
  if !forceWrite && bindings.bindings.isEmpty then do
    let there ← file .managedExists
    if there then writeManaged env keys bindings else pure (.ok ())
  else writeManaged env keys bindings

def syncManagedSshConfigInner (env : SnippetEnv) (keys : List ManagedKey) (forceWrite : Bool) :
    FProg (Except CommandError Unit) :=
  (loadHostBindingsImportingManaged keys).tryThen fun bindings =>
    if keys = [] then writeSnippet env keys forceWrite bindings
    else
      let (kept, pruned) := bindings.pruneOrphans (keys.map ManagedKey.cipherId)
      if 0 < pruned then (saveTo kept).tryThen fun _ => writeSnippet env keys forceWrite kept
      else writeSnippet env keys forceWrite kept

/-! ### The commands -/

def resolveCipherId (query : Text) : FProg (Except CommandError Text) := do
  let cache ← file .loadCache
  pure (cache.bind fun cache => (SshWarden.resolveCipherId cache query).mapError .bindings)

def loadManagedKeysFromCache : FProg (Except CommandError (List ManagedKey)) := do
  let cache ← file .loadCache
  pure (cache.bind fun cache => cache.elim (.error .noLocalCache) .ok)

/-- `load_managed_keys_from_cache().unwrap_or_default()` -/
def managedKeysOrNone : FProg (List ManagedKey) := do
  let keys ← loadManagedKeysFromCache
  pure (keys.toOption.getD [])

def cmdBindingsAdd (env : SnippetEnv) (key : Text) (hosts : List Text) : FProg (Except CommandError Unit) :=
  (resolveCipherId key).tryThen fun cipherId => do
    let keys ← managedKeysOrNone
    (withHostBindingsLocked keys fun bindings => (·, ()) <$> addHosts cipherId hosts bindings).tryThen fun _ =>
      syncManagedSshConfigInner env keys true

def cmdBindingsRemove (env : SnippetEnv) (key : Text) (host : Option Text) (all : Bool) :
    FProg (Except CommandError Unit) :=
  (resolveCipherId key).tryThen fun cipherId => do
    let keys ← managedKeysOrNone
    (withHostBindingsLocked keys (removeHosts cipherId host all)).tryThen fun changed =>
      if changed then syncManagedSshConfigInner env keys true
      else pure (.error (.bindings (.noMatchingBinding cipherId)))

def cmdKeysUnbind (env : SnippetEnv) (key : Text) (host : Option Text) (all : Bool) :
    FProg (Except CommandError Unit) :=
  if all then cmdBindingsRemove env key none true else cmdBindingsRemove env key host false

/-- The file steps of `keys list`; what it prints is left out. -/
def cmdKeysList : FProg (Except CommandError Unit) := do
  let cache ← file .loadCache
  match cache with
  | .error e => pure (.error e)
  | .ok none => pure (.ok ())
  | .ok (some keys) =>
    if keys = [] then pure (.ok ())
    else do
      let _ ← loadHostBindingsImportingManaged keys
      pure (.ok ())

def persistBindPayload (env : SnippetEnv) (payload : List (Text × List Text)) :
    FProg (Except CommandError Unit) := do
  let keys ← managedKeysOrNone
  (withHostBindingsLocked keys fun bindings => (·, ()) <$> setAllHosts payload bindings).tryThen fun _ =>
    syncManagedSshConfigInner env keys true

/-- The dialog, with a sign request (`run_bind_hosts_flow`) or without one
(`dispatch_standalone_bind_hosts_dialog`). -/
def bindHostsFlow (env : SnippetEnv) : FProg (Except CommandError Unit) :=
  loadManagedKeysFromCache.tryThen fun keys => do
    let loaded ← loadHostBindingsImportingManaged keys
    let bindings := loaded.toOption.getD {}
    if keys = [] then pure (.error .noKeysToBind)
    else do
      let saved ← file (.bindHostsDialog (keys.map fun k => ⟨k.cipherId, k.name, bindings.hosts k.cipherId⟩))
      match saved with
      | none => pure (.ok ())
      | some payload => persistBindPayload env payload

end FileSteps

/-- A process that works on the bindings. -/
inductive Job where
  | bind (key : Text) (hosts : List Text)
  | unbind (key : Text) (host : Option Text) (all : Bool)
  | list
  | dialog
  /-- a vault sync with the keys it has received -/
  | sync (keys : List ManagedKey)

def Job.run (env : SnippetEnv) : Job → FProg (Except CommandError Unit)
  | bind key hosts => FileSteps.cmdBindingsAdd env key hosts
  | unbind key host all => FileSteps.cmdKeysUnbind env key host all
  | list => FileSteps.cmdKeysList
  | dialog => FileSteps.bindHostsFlow env
  | sync keys => FileSteps.syncManagedSshConfigInner env keys false

end SshWarden
