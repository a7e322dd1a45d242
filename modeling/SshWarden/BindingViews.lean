import SshWarden.BindingEdits
import SshWarden.Lib.Pool
import SshWarden.VaultSync

/-!
# What a binding process knows

`View` is what a process knows of the files from its own steps: the file it has loaded or saved last, the
snippet and the keys it has read, and what it has saved under the lock. Every save leaves the hosts its
edits are silent about as they were, where nothing else has moved their key (`Unmoved`).
-/

namespace SshWarden
open Prog

/-- How far the save of a process is: what it has opened, and then written. -/
inductive SaveStage where
  | idle
  | opened (id : Nat)
  | wrote (id : Nat)
  deriving DecidableEq

structure View where
  job : Job
  /-- The cache a key query is resolved in. -/
  target : Option (Option (List ManagedKey)) := none
  keys : List ManagedKey := []
  base : HostBindingsFile := {}
  managed : Option Text := none
  written : HostBindingsFile := {}
  sawManaged : Bool := false
  locked : Bool := false
  /-- The bindings have been loaded, and under the lock where it is held. -/
  fresh : Bool := false
  save : SaveStage := .idle
  /-- The process is to write the snippet again and drops the bindings of other keys before. -/
  regenerates : Bool := false
  shown : List FileSteps.BindHostsKeyEntry := []
  payload : List (Text × List Text) := []
  committed : List HostEdit := []

namespace View

def start (job : Job) : View :=
  match job with
  | .sync keys => { job, keys, regenerates := true }
  | _ => { job }

theorem start_job (job : Job) : (start job).job = job := by cases job <;> rfl

theorem start_committed (job : Job) : (start job).committed = [] := by cases job <;> rfl

theorem start_eq (job : Job) : (start job).sawManaged = false ∧ (start job).locked = false ∧
    (start job).fresh = false ∧ (start job).save = .idle := by
  cases job <;> exact ⟨rfl, rfl, rfl, rfl⟩

/-- The key that a query names in the cache the process has loaded first. -/
def named (v : View) (query : Text) : Option Text :=
  v.target.bind fun cache => (resolveCipherId cache query).toOption

def removes (v : View) (id : Text) (host : Option Text) (all : Bool) : Bool :=
  ((seededBindings v.keys ⟨v.base, v.managed⟩ >>= removeHosts id host all).toOption.map Prod.snd).getD false

def shownHosts (v : View) (id : Text) : List Text :=
  ((v.shown.find? fun entry => entry.cipherId = id).map fun entry => entry.hosts).getD []

/-- The edits the process makes under the lock; none where an `unbind` finds nothing to remove. -/
def own (v : View) : List HostEdit :=
  match v.job with
  | .bind key hosts => ((v.named key).map fun id => HostEdit.added id hosts).toList
  | .unbind key host all =>
    ((v.named key).filter fun id => v.removes id (if all then none else host) all).toList.map fun id =>
      if all then .cleared id else .removed id (host.getD [])
  | .dialog => replacements v.shownHosts v.payload
  | .list | .sync _ => []

theorem removes_eq {v : View} {id : Text} {host : Option Text} {all : Bool} {seeded : HostBindingsFile}
    {changed : HostBindingsFile × Bool} (hseeded : seededBindings v.keys ⟨v.base, v.managed⟩ = .ok seeded)
    (h : removeHosts id host all seeded = .ok changed) : v.removes id host all = changed.2 := by
  rw [removes, hseeded, except_ok_bind, h]
  rfl

theorem own_of_bind {v : View} {key id : Text} {hosts : List Text} (hjob : v.job = .bind key hosts)
    (hid : v.named key = some id) : v.own = [.added id hosts] := by
  rw [own, hjob]
  simp [hid]

theorem own_of_unbind {v : View} {key id : Text} {host : Option Text} {all : Bool}
    (hjob : v.job = .unbind key host all) (hid : v.named key = some id) :
    v.own = if v.removes id (if all then none else host) all then
      [if all then .cleared id else .removed id (host.getD [])] else [] := by
  rw [own, hjob]
  cases hr : v.removes id (if all then none else host) all <;> simp [hid, hr, Option.filter]

/-- The edits of a save. -/
def edits (v : View) : List HostEdit := if v.locked then v.own else []

def next (v : View) : FileEvent → View
  | ⟨.loadCache, a⟩ => { v with target := v.target.or a.toOption, keys := (a.toOption.bind id).getD [] }
  | ⟨.acquireLock, a⟩ => if a then { v with locked := true, fresh := false } else v
  | ⟨.releaseLock, _⟩ => { v with locked := false, regenerates := true }
  | ⟨.bindingsExist, a⟩ => if a then v else { v with base := {}, fresh := true, save := .idle }
  | ⟨.readBindings, a⟩ => { v with base := a.getD {}, fresh := a.isSome, save := .idle }
  | ⟨.openTmp, a⟩ => { v with save := .opened a }
  | ⟨.writeTmp id file, _⟩ => { v with written := file, save := .wrote id }
  | ⟨.renameTmp, a⟩ =>
    if a then { v with base := v.written, save := .idle, committed := v.committed ++ v.edits } else v
  | ⟨.managedExists, a⟩ => if a then { v with sawManaged := true } else { v with managed := none }
  | ⟨.readManaged, a⟩ => { v with managed := a }
  | ⟨.bindHostsDialog entries, a⟩ => { v with shown := entries, payload := a.getD [] }
  | _ => v

/-- The view of a process that has loaded the bindings and the snippet. -/
def reloaded (v : View) (base written : HostBindingsFile) (managed : Option Text) (fresh saw : Bool) : View :=
  { v with base := base, written := written, managed := managed, sawManaged := saw, fresh := fresh, save := .idle }

/-- The view of a process that has loaded them under the lock. -/
def inside (v : View) (base : HostBindingsFile) (managed : Option Text) (saw : Bool) : View :=
  { v with base := base, managed := managed, sawManaged := saw, fresh := true, save := .idle, locked := true }

/-- Nothing but an edit changes the hosts of the key: the snippet has no other hosts for it, it is no orphan
to be pruned, and a dialog has shown its hosts as they are. -/
structure Unmoved (v : View) (id : Text) : Prop where
  imported : (managedEdits (v.keys.map ManagedKey.cipherId) v.managed id).foldl takeEdit
    (v.base.bindings.get? id) = v.base.bindings.get? id
  listed : v.regenerates = true → id ∈ v.keys.map ManagedKey.cipherId ∨ v.base.bindings.get? id = none
  shown : v.locked = true → id ∈ v.payload.map Prod.fst → v.shownHosts id = v.base.hosts id

/-- What has been written is what has been loaded, with the edits. -/
structure Saves (v : View) : Prop where
  edited : ∀ id host b, verdict v.edits id host = some b → isNamed (v.written.hosts id) host = b
  rest : ∀ id host, verdict v.edits id host = none → v.Unmoved id →
    isNamed (v.written.hosts id) host = isNamed (v.base.hosts id) host

/-- An import leaves a key that the snippet has no other hosts for. -/
theorem get?_of_import {keys : List ManagedKey} {managed : Option Text} {base imported : HostBindingsFile}
    {changed : Bool} (h : importHostBindingsFromManagedFile managed keys base = .ok (imported, changed))
    {id : Text} (hsame : (managedEdits (keys.map ManagedKey.cipherId) managed id).foldl takeEdit
      (base.bindings.get? id) = base.bindings.get? id) :
    imported.bindings.get? id = base.bindings.get? id := by
  obtain ⟨imported', changed', himport, -, hget⟩ := import_get? managed keys base
  obtain ⟨rfl, -⟩ := Prod.mk.inj (Except.ok.inj (himport.symm.trans h))
  rw [hget, hsame]

theorem eq_of_import_unchanged {keys : List ManagedKey} {managed : Option Text}
    {base imported : HostBindingsFile}
    (h : importHostBindingsFromManagedFile managed keys base = .ok (imported, false)) : imported = base := by
  obtain ⟨imported', changed', himport, hsame, -⟩ := import_get? managed keys base
  obtain ⟨rfl, rfl⟩ := Prod.mk.inj (Except.ok.inj (himport.symm.trans h))
  exact hsame rfl

theorem edits_of_unlocked {v : View} (h : v.locked = false) : v.edits = [] := by
  rw [edits, h]
  rfl

/-- A save without the lock makes no edits. -/
theorem saves_of_unlocked {v : View} (h : v.locked = false)
    (hget : ∀ id, v.Unmoved id → v.written.bindings.get? id = v.base.bindings.get? id) : v.Saves where
  edited id host b hb := by
    rw [edits_of_unlocked h] at hb
    cases hb
  rest id host _ hid := by
    unfold HostBindingsFile.hosts
    rw [hget id hid]

theorem hosts_of_seeded {v : View} {seeded : HostBindingsFile}
    (h : seededBindings v.keys ⟨v.base, v.managed⟩ = .ok seeded) {id : Text} (hid : v.Unmoved id) :
    seeded.hosts id = v.base.hosts id := by
  unfold seededBindings at h
  split_ifs at h with hnil
  · obtain rfl := Except.ok.inj h
    rfl
  · obtain ⟨imported, himport, hfst⟩ := except_map_ok h
    obtain rfl := hfst
    unfold HostBindingsFile.hosts
    rw [get?_of_import himport hid.imported]

/-- A save under the lock whose edits say what becomes of the hosts of the seeded bindings. -/
theorem saves_of_locked {v : View} {seeded : HostBindingsFile} (hlocked : v.locked = true)
    (hseeded : seededBindings v.keys ⟨v.base, v.managed⟩ = .ok seeded)
    (hsome : ∀ id host b, verdict v.own id host = some b → isNamed (v.written.hosts id) host = b)
    (hnone : ∀ id host, verdict v.own id host = none → v.Unmoved id →
      isNamed (v.written.hosts id) host = isNamed (seeded.hosts id) host) : v.Saves where
  edited id host b hb := by
    rw [edits, if_pos hlocked] at hb
    exact hsome id host b hb
  rest id host hv hid := by
    rw [edits, if_pos hlocked] at hv
    rw [hnone id host hv hid, hosts_of_seeded hseeded hid]

theorem saves_of_getD {v : View} {seeded : HostBindingsFile} (hlocked : v.locked = true)
    (hseeded : seededBindings v.keys ⟨v.base, v.managed⟩ = .ok seeded)
    (hnamed : ∀ id host,
      isNamed (v.written.hosts id) host = (verdict v.own id host).getD (isNamed (seeded.hosts id) host)) :
    v.Saves :=
  saves_of_locked hlocked hseeded (fun id host b hb => by rw [hnamed, hb, Option.getD_some])
    fun id host hv _ => by rw [hnamed, hv, Option.getD_none]

/-! ### What the commands save -/

theorem saves_of_bind {v : View} {seeded : HostBindingsFile} {key id : Text} {hosts : List Text}
    (hjob : v.job = .bind key hosts) (hid : v.named key = some id) (hlocked : v.locked = true)
    (hseeded : seededBindings v.keys ⟨v.base, v.managed⟩ = .ok seeded)
    (h : addHosts id hosts seeded = .ok v.written) : v.Saves := by
  refine saves_of_getD hlocked hseeded fun id' host => ?_
  rw [own_of_bind hjob hid, verdict_singleton]
  exact HostBindingsFile.addHosts_named h id' host

theorem saves_of_unbind {v : View} {seeded : HostBindingsFile} {key id : Text} {host : Option Text}
    {all changed : Bool} (hjob : v.job = .unbind key host all) (hid : v.named key = some id)
    (hlocked : v.locked = true) (hseeded : seededBindings v.keys ⟨v.base, v.managed⟩ = .ok seeded)
    (h : removeHosts id (if all then none else host) all seeded = .ok (v.written, changed)) : v.Saves := by
  refine saves_of_getD hlocked hseeded fun id' host' => ?_
  rw [own_of_unbind hjob hid, removes_eq hseeded h]
  cases changed with
  | false => exact congrArg (isNamed · host') (HostBindingsFile.removeHosts_unchanged h id')
  | true =>
    rw [if_pos rfl, verdict_singleton]
    have hnamed := HostBindingsFile.removeHosts_named h id' host'
    cases all <;> exact hnamed

theorem saves_of_dialog {v : View} {seeded : HostBindingsFile} (hjob : v.job = .dialog)
    (hlocked : v.locked = true) (hseeded : seededBindings v.keys ⟨v.base, v.managed⟩ = .ok seeded)
    (hnodup : (v.payload.map Prod.fst).Nodup) (h : setAllHosts v.payload seeded = .ok v.written) :
    v.Saves := by
  have hown : v.own = replacements v.shownHosts v.payload := by rw [own, hjob]
  have hnamed := HostBindingsFile.setAllHosts_named v.shownHosts h hnodup
  rw [← hown] at hnamed
  refine saves_of_locked hlocked hseeded (fun id host b hb => (hnamed id host).1 b hb) ?_
  intro id host hv hid
  refine (hnamed id host).2 hv fun hmem => ?_
  rw [hid.shown hlocked hmem, hosts_of_seeded hseeded hid]

/-- What a process relies on before an operation; it never puts the old file out of the way. -/
def Expects : FileOp → View → Prop
  | .openTmp, v => v.fresh = true
  | .writeTmp id _, v => v.fresh = true ∧ v.save = .opened id
  | .renameTmp, v => v.fresh = true ∧ (∃ id, v.save = .wrote id) ∧ v.Saves
  | .releaseLock, v => v.locked = true
  | .readManaged, v => v.sawManaged = true
  | .moveToBackup, _ | .restoreBackup, _ => False
  | _, _ => True

/-- A process that has reported success has made its edit, one that has failed none. -/
structure Outcome (v : View) (r : Except CommandError Unit) : Prop where
  failed : ∀ e, r = .error e → v.committed = []
  bound : ∀ key hosts, v.job = .bind key hosts → r = .ok () →
    ∃ id, v.named key = some id ∧ v.committed = [.added id hosts]
  unbound : ∀ key host all, v.job = .unbind key host all → r = .ok () →
    ∃ id, v.named key = some id ∧ v.committed = [if all then .cleared id else .removed id (host.getD [])]

/-- Lists, dialogs and syncs report no edit. -/
theorem Outcome.of_job {v : View} {r : Except CommandError Unit}
    (hbind : ∀ key hosts, v.job ≠ .bind key hosts) (hunbind : ∀ key host all, v.job ≠ .unbind key host all)
    (hfailed : ∀ e, r = .error e → v.committed = []) : v.Outcome r :=
  ⟨hfailed, fun key hosts h _ => absurd h (hbind key hosts),
    fun key host all h _ => absurd h (hunbind key host all)⟩

end View

/-- The answers of files that stay where they are; what a process has saved can be read again. -/
def SoundAnswer (v : View) : FileEvent → Prop
  | ⟨.renameTmp, a⟩ => a = true
  | ⟨.readBindings, a⟩ => v.committed = [] ∨ a.isSome = true
  | ⟨.readManaged, a⟩ => v.committed = [] ∨ a.isSome = true
  | ⟨.bindHostsDialog _, a⟩ => ∀ payload, a = some payload → (payload.map Prod.fst).Nodup
  | _ => True

/-- The view of a process while the files stay where they are. -/
def viewMachine : Machine fileSig View where
  ready o v a := SoundAnswer v ⟨o, a⟩
  next o v a := v.next ⟨o, a⟩

namespace FileSteps
variable {α : Type} {v : View}

theorem wp_loadFrom {Q : Except CommandError HostBindingsFile → View → Prop}
    (h : ∀ base, Q (.ok base) { v with base := base, fresh := true, save := .idle })
    (hfail : v.committed = [] → Q (.error .readFailed) { v with base := {}, fresh := false, save := .idle }) :
    wp viewMachine View.Expects loadFrom Q v := by
  refine wp_perform_bind.2 ⟨trivial, fun there _ => ?_⟩
  cases there with
  | false => exact h {}
  | true =>
    refine wp_perform_bind.2 ⟨trivial, fun content hsound => ?_⟩
    cases content with
    | some base => exact h base
    | none => exact hfail (hsound.resolve_right Bool.false_ne_true)

theorem wp_saveTo {bindings : HostBindingsFile} {Q : Except CommandError Unit → View → Prop}
    (hfresh : v.fresh = true) (hs : ∀ id, { v with written := bindings, save := .wrote id }.Saves)
    (h : Q (.ok ()) { v with
      base := bindings, written := bindings, save := .idle, committed := v.committed ++ v.edits }) :
    wp viewMachine View.Expects (saveTo bindings) Q v := by
  refine wp_perform_bind.2 ⟨hfresh, fun id _ => wp_perform_bind.2 ⟨⟨hfresh, rfl⟩, fun _ _ => ?_⟩⟩
  refine wp_perform_bind.2 ⟨⟨hfresh, ⟨id, rfl⟩, hs id⟩, fun replaced hr => ?_⟩
  obtain rfl : replaced = true := hr
  exact h

theorem wp_import {keys : List ManagedKey} {bindings : HostBindingsFile}
    {Q : Except CommandError (HostBindingsFile × Bool) → View → Prop}
    (h : ∀ imported changed managed saw,
      SshWarden.importHostBindingsFromManagedFile managed keys bindings = .ok (imported, changed) →
      Q (.ok (imported, changed)) { v with managed := managed, sawManaged := saw })
    (hfail : v.committed = [] → Q (.error .readFailed) { v with managed := none, sawManaged := true }) :
    wp viewMachine View.Expects (importHostBindingsFromManagedFile keys bindings) Q v := by
  refine wp_perform_bind.2 ⟨trivial, fun there _ => ?_⟩
  cases there with
  | false => exact h bindings false none v.sawManaged rfl
  | true =>
    refine wp_perform_bind.2 ⟨rfl, fun content hsound => ?_⟩
    cases content with
    | none => exact hfail (hsound.resolve_right Bool.false_ne_true)
    | some content =>
      obtain ⟨imported, changed, himport, -⟩ := import_get? (some content) keys bindings
      dsimp only
      rw [himport]
      exact h imported changed (some content) true himport

theorem wp_saveTo_unlocked {bindings : HostBindingsFile} {Q : Except CommandError Unit → View → Prop}
    (hfresh : v.fresh = true) (hlocked : v.locked = false)
    (hget : ∀ id, v.Unmoved id → bindings.bindings.get? id = v.base.bindings.get? id)
    (h : Q (.ok ()) { v with base := bindings, written := bindings, save := .idle }) :
    wp viewMachine View.Expects (saveTo bindings) Q v := by
  refine wp_saveTo hfresh (fun tmp => View.saves_of_unlocked hlocked fun id hm => hget id ?_) ?_
  · exact ⟨hm.imported, hm.listed, hm.shown⟩
  · rw [View.edits_of_unlocked hlocked, List.append_nil]
    exact h

/-- Without the lock the bindings are loaded and the hosts of the snippet taken over. -/
theorem wp_loadImporting {keys : List ManagedKey} {Q : Except CommandError HostBindingsFile → View → Prop}
    (hkeys : v.keys = keys) (hlocked : v.locked = false)
    (h : ∀ base written managed saw, Q (.ok base) (v.reloaded base written managed true saw))
    (hfail : v.committed = [] → ∀ base managed fresh saw,
      Q (.error .readFailed) (v.reloaded base v.written managed fresh saw)) :
    wp viewMachine View.Expects (loadHostBindingsImportingManaged keys) Q v := by
  refine wp_tryThen.2 (wp_loadFrom (fun base => ⟨?_, nofun⟩) fun hnone => ⟨nofun, ?_⟩)
  · rintro _ ⟨⟩
    split_ifs with hnil
    · exact h base v.written v.managed v.sawManaged
    · refine wp_tryThen.2 (wp_import (fun imported changed managed saw himport => ⟨?_, nofun⟩)
        fun hnone => ⟨nofun, ?_⟩)
      · rintro _ ⟨⟩
        cases changed with
        | false =>
          obtain rfl := View.eq_of_import_unchanged himport
          exact h imported v.written managed saw
        | true =>
          refine wp_tryThen.2 (wp_saveTo_unlocked rfl hlocked (fun id hid => ?_) ⟨?_, nofun⟩)
          · exact View.get?_of_import himport (hkeys ▸ hid.imported)
          · rintro _ -
            exact h imported imported managed saw
      · rintro _ ⟨⟩
        exact hfail hnone base none true true
  · rintro _ ⟨⟩
    exact hfail hnone {} v.managed false v.sawManaged

theorem wp_writeSnippet {env : SnippetEnv} {keys : List ManagedKey} {forceWrite : Bool}
    {bindings : HostBindingsFile} {Q : Except CommandError Unit → View → Prop}
    (h : ∀ managed saw, Q (.ok ()) { v with managed := managed, sawManaged := saw }) :
    wp viewMachine View.Expects (writeSnippet env keys forceWrite bindings) Q v := by
  have hwrite : ∀ managed saw, wp viewMachine View.Expects (writeManaged env keys bindings) Q
      { v with managed := managed, sawManaged := saw } := fun managed saw =>
    wp_perform_bind.2 ⟨trivial, fun _ _ => wp_perform_bind.2 ⟨trivial, fun _ _ => h managed saw⟩⟩
  unfold writeSnippet
  split_ifs with hidle
  · refine wp_perform_bind.2 ⟨trivial, fun there _ => ?_⟩
    cases there with
    | false => exact h none v.sawManaged
    | true => exact hwrite v.managed true
  · exact hwrite v.managed v.sawManaged

/-- The snippet is written again without an edit. -/
theorem wp_syncManaged {env : SnippetEnv} {keys : List ManagedKey} {forceWrite : Bool}
    {Q : Except CommandError Unit → View → Prop} (hkeys : v.keys = keys) (hlocked : v.locked = false)
    (hregen : v.regenerates = true)
    (h : ∀ base written managed saw, Q (.ok ()) (v.reloaded base written managed true saw))
    (hfail : v.committed = [] → ∀ base managed fresh saw,
      Q (.error .readFailed) (v.reloaded base v.written managed fresh saw)) :
    wp viewMachine View.Expects (syncManagedSshConfigInner env keys forceWrite) Q v := by
  refine wp_tryThen.2 (wp_loadImporting hkeys hlocked (fun base written managed saw => ⟨?_, nofun⟩)
    fun hnone base managed fresh saw => ⟨nofun, ?_⟩)
  · rintro _ ⟨⟩
    split_ifs with hnil
    · exact wp_writeSnippet fun managed' saw' => h base written managed' saw'
    · have hget := pruneOrphans_get? base (keys.map ManagedKey.cipherId)
      generalize base.pruneOrphans (keys.map ManagedKey.cipherId) = p at hget ⊢
      obtain ⟨kept, pruned⟩ := p
      dsimp only
      split_ifs with hpruned
      · refine wp_tryThen.2 (wp_saveTo_unlocked rfl hlocked (fun id hid => ?_) ⟨?_, nofun⟩)
        · have hlisted : id ∈ v.keys.map ManagedKey.cipherId ∨ base.bindings.get? id = none := hid.listed hregen
          rw [hkeys] at hlisted
          rw [hget]
          split_ifs with hmem
          · rfl
          · exact (hlisted.resolve_left hmem).symm
        · rintro _ -
          exact wp_writeSnippet fun managed' saw' => h kept kept managed' saw'
      · exact wp_writeSnippet fun managed' saw' => h base written managed' saw'
  · rintro _ ⟨⟩
    exact hfail hnone base managed fresh saw

/-- A locked change saves what it makes of the seeded bindings, or fails without a save. -/
theorem wp_withLocked {keys : List ManagedKey}
    {mutate : HostBindingsFile → Except BindingError (HostBindingsFile × α)}
    {Q : Except CommandError α → View → Prop}
    (hok : ∀ base managed saw seeded changed,
      seededBindings keys ⟨base, managed⟩ = .ok seeded → mutate seeded = .ok changed →
      (∀ id, { v.inside base managed saw with written := changed.1, save := .wrote id }.Saves) ∧
        Q (.ok changed.2) { v.inside base managed saw with
          base := changed.1, written := changed.1, committed := v.committed ++ (v.inside base managed saw).own,
          locked := false, regenerates := true })
    (herr : ∀ e v', v'.job = v.job → v'.target = v.target → v'.committed = v.committed → Q (.error e) v') :
    wp viewMachine View.Expects (withHostBindingsLocked keys mutate) Q v := by
  refine wp_perform_bind.2 ⟨trivial, fun locked _ => ?_⟩
  cases locked with
  | false => exact herr _ _ rfl rfl rfl
  | true =>
    have hrelease : ∀ {e v'}, v'.locked = true → v'.job = v.job → v'.target = v.target →
        v'.committed = v.committed →
        wp viewMachine View.Expects (file .releaseLock >>= fun _ => pure (.error e)) Q v' :=
      fun hl hj ht hc => wp_perform_bind.2 ⟨hl, fun _ _ => herr _ _ hj ht hc⟩
    refine (wp_bind ..).2 (wp_tryThen.2 (wp_loadFrom (fun base => ⟨?_, nofun⟩) fun _ => ⟨nofun, ?_⟩))
    · rintro _ ⟨⟩
      have hmutate : ∀ managed saw seeded, seededBindings keys ⟨base, managed⟩ = .ok seeded →
          wp viewMachine View.Expects (tryThen (pure ((mutate seeded).mapError .bindings)) fun changed =>
            (saveTo changed.1).tryThen fun _ => pure (.ok changed.2))
            (fun r v' => wp viewMachine View.Expects (file .releaseLock >>= fun _ => pure r) Q v')
            (v.inside base managed saw) := by
        intro managed saw seeded hseeded
        cases hm : mutate seeded with
        | error e =>
          refine wp_tryThen.2 ⟨nofun, fun _ _ => ?_⟩
          exact hrelease rfl rfl rfl rfl
        | ok changed =>
          obtain ⟨hsaves, hQ⟩ := hok base managed saw seeded changed hseeded hm
          refine wp_tryThen.2 ⟨?_, nofun⟩
          rintro _ ⟨⟩
          refine wp_tryThen.2 (wp_saveTo rfl hsaves ⟨?_, nofun⟩)
          rintro _ -
          exact (wp_ret _).2 (wp_perform_bind.2 ⟨rfl, fun _ _ => hQ⟩)
      split_ifs with hnil
      · exact hmutate v.managed v.sawManaged base (if_pos hnil)
      · rw [wp_tryThen]
        refine wp_tryThen.2 (wp_import (fun imported changed managed saw himport => ⟨?_, nofun⟩)
          fun _ => ⟨nofun, ?_⟩)
        · rintro _ ⟨⟩
          refine wp_tryThen.1 (hmutate managed saw imported ?_)
          rw [seededBindings, if_neg hnil, himport]
          rfl
        · rintro _ ⟨⟩
          exact ⟨nofun, fun _ _ => hrelease rfl rfl rfl rfl⟩
    · rintro _ ⟨⟩
      exact hrelease rfl rfl rfl rfl

theorem wp_resolveCipherId {query : Text} {Q : Except CommandError Text → View → Prop} (hv : v.target = none)
    (hok : ∀ id v', v'.job = v.job → v'.committed = v.committed → v'.named query = some id → Q (.ok id) v')
    (herr : ∀ e v', v'.job = v.job → v'.committed = v.committed → Q (.error e) v') :
    wp viewMachine View.Expects (resolveCipherId query) Q v := by
  refine wp_perform_bind.2 ⟨trivial, fun cache _ => ?_⟩
  cases cache with
  | error e => exact herr _ _ rfl rfl
  | ok cache =>
    show Q ((SshWarden.resolveCipherId cache query).mapError .bindings) _
    cases hr : SshWarden.resolveCipherId cache query with
    | error e => exact herr _ _ rfl rfl
    | ok id =>
      refine hok id _ rfl rfl ?_
      have htarget : (v.next ⟨.loadCache, .ok cache⟩).target = some cache := by
        simp [View.next, hv, Except.toOption]
      show View.named (v.next ⟨.loadCache, .ok cache⟩) query = some id
      rw [View.named, htarget, Option.bind_some, hr]
      rfl

theorem wp_managedKeysOrNone {Q : List ManagedKey → View → Prop}
    (h : ∀ keys target, (∀ query id, v.named query = some id →
      { v with target := target }.named query = some id) → Q keys { v with target := target, keys := keys }) :
    wp viewMachine View.Expects managedKeysOrNone Q v := by
  refine (wp_bind ..).2 (wp_perform_bind.2 ⟨trivial, fun cache _ => ?_⟩)
  have htarget : ∀ query id, v.named query = some id →
      { v with target := v.target.or cache.toOption }.named query = some id := by
    intro query id hid
    obtain ⟨target, ht, hr⟩ := Option.bind_eq_some_iff.1 hid
    rw [View.named, ht]
    exact hr
  rcases cache with e | _ | keys
  · exact h [] _ htarget
  · exact h [] _ htarget
  · exact h keys _ htarget

theorem wp_cmdBindingsAdd {env : SnippetEnv} {key : Text} {hosts : List Text} (hjob : v.job = .bind key hosts)
    (hv : v.target = none) (hcommitted : v.committed = []) :
    wp viewMachine View.Expects (cmdBindingsAdd env key hosts) (fun r v' => v'.Outcome r) v := by
  have hfailed : ∀ {v' : View} {e}, v'.committed = v.committed → v'.Outcome (.error e) := fun h =>
    ⟨fun _ _ => h.trans hcommitted, nofun, nofun⟩
  refine wp_tryThen.2 (wp_resolveCipherId hv (fun id v₁ hjob₁ hcommitted₁ hid => ⟨?_, nofun⟩)
    fun e v₁ _ h => ⟨nofun, fun _ _ => hfailed h⟩)
  rintro _ ⟨⟩
  refine (wp_bind ..).2 (wp_managedKeysOrNone fun keys target hnamed => ?_)
  have hown : ∀ base managed saw, ({ v₁ with target := target, keys := keys }.inside base managed saw).own
      = [.added id hosts] := fun base managed saw => View.own_of_bind (hjob₁.trans hjob) (hnamed key id hid)
  have hnil : v₁.committed = [] := hcommitted₁.trans hcommitted
  refine wp_tryThen.2 (wp_withLocked
    (fun base managed saw seeded changed hseeded hok => ⟨fun tmp => ?_, ?_, nofun⟩)
    fun e v₂ _ _ h => ⟨nofun, fun _ _ => hfailed (h.trans hcommitted₁)⟩)
  · obtain ⟨file, hadd, rfl⟩ := except_map_ok hok
    exact View.saves_of_bind (hjob₁.trans hjob) (hnamed key id hid) rfl hseeded hadd
  · rintro _ -
    have hdone : v₁.committed ++ ({ v₁ with target := target, keys := keys }.inside base managed saw).own
        = [.added id hosts] := by
      rw [hown, hnil, List.nil_append]
    refine wp_syncManaged rfl rfl rfl (fun _ _ _ _ => ⟨nofun, ?_, ?_⟩) fun hnone => ?_
    · intro key' hosts' hjob' _
      obtain ⟨rfl, rfl⟩ := Job.bind.inj ((hjob₁.trans hjob).symm.trans hjob')
      exact ⟨id, hnamed key id hid, hdone⟩
    · intro key' host' all' hjob' _
      exact nomatch (hjob₁.trans hjob).symm.trans hjob'
    · exact nomatch hdone.symm.trans hnone

theorem wp_cmdBindingsRemove {env : SnippetEnv} {key : Text} {host : Option Text} {all : Bool}
    (hjob : v.job = .unbind key host all) (hv : v.target = none) (hcommitted : v.committed = []) :
    wp viewMachine View.Expects (cmdBindingsRemove env key (if all then none else host) all)
      (fun r v' => v'.Outcome r) v := by
  have hfailed : ∀ {v' : View} {e}, v'.committed = v.committed → v'.Outcome (.error e) := fun h =>
    ⟨fun _ _ => h.trans hcommitted, nofun, nofun⟩
  refine wp_tryThen.2 (wp_resolveCipherId hv (fun id v₁ hjob₁ hcommitted₁ hid => ⟨?_, nofun⟩)
    fun e v₁ _ h => ⟨nofun, fun _ _ => hfailed h⟩)
  rintro _ ⟨⟩
  refine (wp_bind ..).2 (wp_managedKeysOrNone fun keys target hnamed => ?_)
  refine wp_tryThen.2 (wp_withLocked (fun base managed saw seeded changed hseeded hremove => ?_)
    fun e v₂ _ _ h => ⟨nofun, fun _ _ => hfailed (h.trans hcommitted₁)⟩)
  have hremoves : View.removes _ id (if all then none else host) all = changed.2 :=
    View.removes_eq (v := { v₁ with target := target, keys := keys }.inside base managed saw) hseeded hremove
  have hown := View.own_of_unbind (v := { v₁ with target := target, keys := keys }.inside base managed saw)
    (hjob₁.trans hjob) (hnamed key id hid)
  rw [hremoves] at hown
  obtain ⟨file, changed⟩ := changed
  refine ⟨fun tmp => View.saves_of_unbind (hjob₁.trans hjob) (hnamed key id hid) rfl hseeded hremove, ?_, nofun⟩
  have hnil : v₁.committed = [] := hcommitted₁.trans hcommitted
  have hdone := congrArg (v₁.committed ++ ·) hown
  rintro _ ⟨⟩
  cases changed with
  | false => exact ⟨fun _ _ => hdone.trans (by rw [hnil]; rfl), nofun, nofun⟩
  | true =>
    have hdone : v₁.committed ++ ({ v₁ with target := target, keys := keys }.inside base managed saw).own
        = [if all then .cleared id else .removed id (host.getD [])] := hdone.trans (by rw [hnil]; rfl)
    refine wp_syncManaged rfl rfl rfl (fun _ _ _ _ => ⟨nofun, ?_, ?_⟩) fun hnone => ?_
    · intro key' hosts' hjob' _
      exact nomatch (hjob₁.trans hjob).symm.trans hjob'
    · intro key' host' all' hjob' _
      obtain ⟨rfl, rfl, rfl⟩ := Job.unbind.inj ((hjob₁.trans hjob).symm.trans hjob')
      exact ⟨id, hnamed key id hid, hdone⟩
    · exact nomatch hdone.symm.trans hnone

theorem wp_cmdKeysList {Q : Except CommandError Unit → View → Prop} (hlocked : v.locked = false)
    (h : ∀ r v', v'.job = v.job → v'.committed = v.committed → Q r v') :
    wp viewMachine View.Expects cmdKeysList Q v := by
  refine wp_perform_bind.2 ⟨trivial, fun cache _ => ?_⟩
  rcases cache with e | _ | keys
  · exact h _ _ rfl rfl
  · exact h _ _ rfl rfl
  · dsimp only
    split_ifs with hnil
    · exact h _ _ rfl rfl
    · exact (wp_bind ..).2 (wp_loadImporting rfl hlocked (fun _ _ _ _ => h _ _ rfl rfl)
        fun _ _ _ _ _ => h _ _ rfl rfl)

theorem wp_bindHostsFlow {env : SnippetEnv} (hjob : v.job = .dialog) (hlocked : v.locked = false)
    (hcommitted : v.committed = []) :
    wp viewMachine View.Expects (bindHostsFlow env) (fun r v' => v'.Outcome r) v := by
  have hout : ∀ {v' : View} {r}, v'.job = v.job → (∀ e, r = .error e → v'.committed = []) → v'.Outcome r :=
    fun hjob' => .of_job (by rw [hjob', hjob]; nofun) (by rw [hjob', hjob]; nofun)
  refine wp_tryThen.2 (wp_perform_bind.2 ⟨trivial, fun cache _ => ?_⟩)
  rcases cache with e | _ | keys
  · exact ⟨nofun, fun _ _ => hout rfl fun _ _ => hcommitted⟩
  · exact ⟨nofun, fun _ _ => hout rfl fun _ _ => hcommitted⟩
  · refine ⟨?_, nofun⟩
    rintro _ ⟨⟩
    have hload : wp viewMachine View.Expects (loadHostBindingsImportingManaged keys)
        (fun _ v₁ => v₁.job = v.job ∧ v₁.committed = v.committed) (v.next ⟨.loadCache, .ok (some keys)⟩) :=
      wp_loadImporting rfl hlocked (fun _ _ _ _ => ⟨rfl, rfl⟩) fun _ _ _ _ _ => ⟨rfl, rfl⟩
    -- a load that failed is shown as no bindings
    refine (wp_bind ..).2 (hload.post ?_)
    rintro loaded v₁ ⟨hjob₁, hcommitted₁⟩
    split_ifs with hnil
    · exact hout hjob₁ fun _ _ => hcommitted₁.trans hcommitted
    · refine wp_perform_bind.2 ⟨trivial, fun saved hsaved => ?_⟩
      cases saved with
      | none => exact hout hjob₁ nofun
      | some payload =>
        have hnodup := hsaved payload rfl
        refine (wp_bind ..).2 (wp_managedKeysOrNone fun keys' target _ => ?_)
        refine wp_tryThen.2 (wp_withLocked
          (fun base managed saw seeded changed hseeded hok => ⟨fun tmp => ?_, ?_, nofun⟩)
          fun e v₂ hjob₂ _ h => ⟨nofun, fun _ _ => hout (hjob₂.trans hjob₁) fun _ _ =>
            h.trans (hcommitted₁.trans hcommitted)⟩)
        · obtain ⟨file, hall, rfl⟩ := except_map_ok hok
          exact View.saves_of_dialog (hjob₁.trans hjob) rfl hseeded hnodup hall
        · rintro _ -
          exact wp_syncManaged rfl rfl rfl (fun _ _ _ _ => hout hjob₁ nofun)
            fun hnone _ _ _ _ => hout hjob₁ fun _ _ => hnone

end FileSteps

/-- What a process of each kind does as long as the files stay where they are. -/
theorem Job.wp_run (env : SnippetEnv) (job : Job) :
    wp viewMachine View.Expects (job.run env) (fun r v => v.Outcome r) (View.start job) := by
  cases job with
  | bind key hosts => exact FileSteps.wp_cmdBindingsAdd rfl rfl rfl
  | unbind key host all =>
    have hremove : wp viewMachine View.Expects
        (FileSteps.cmdBindingsRemove env key (if all then none else host) all) (fun r v => v.Outcome r)
        (View.start (.unbind key host all)) := FileSteps.wp_cmdBindingsRemove rfl rfl rfl
    rw [Job.run, FileSteps.cmdKeysUnbind]
    cases all with
    | true => exact hremove
    | false => exact hremove
  | list =>
    refine FileSteps.wp_cmdKeysList rfl fun r v' hjob hcommitted => ?_
    have hlist : v'.job = .list := hjob
    exact .of_job (by rw [hlist]; nofun) (by rw [hlist]; nofun) fun _ _ => hcommitted
  | dialog => exact FileSteps.wp_bindHostsFlow rfl rfl rfl
  | sync keys =>
    have hout : ∀ {v' : View} {r}, v'.job = .sync keys → (∀ e, r = .error e → v'.committed = []) → v'.Outcome r :=
      fun hjob => .of_job (by rw [hjob]; nofun) (by rw [hjob]; nofun)
    exact FileSteps.wp_syncManaged rfl rfl rfl (fun _ _ _ _ => hout rfl nofun) fun hnone _ _ _ _ =>
      hout rfl fun _ _ => hnone

end SshWarden
