import SshWarden.Lib.Reach
import Mathlib.Logic.Function.Basic

/-!
# The PID file

Every daemon start claims one PID file: it creates the file if there is none, and otherwise reads it,
tests whether the recorded process lives and removes the file when it does not. Each of these is one
step on the file system, and any number of processes may be between two of them.
-/

namespace SshWarden

abbrev Pid : Type := Nat

/-- What is known of a running executable: its path and its name. -/
structure Executable where
  path : Option String
  name : String
deriving DecidableEq, Repr

/-- `process_is_sshwarden`: what the process `self` makes of `proc`. -/
def Executable.recognises (self proc : Executable) : Bool :=
  self.path.isSome && (proc.path = self.path || proc.name = self.name)

/-- Where a process stands in `claim_pid_file`; an `id` is the file it created, and `seen` the one it has
read the text from, if there was one. Texts are kept as the number `pid_str.trim().parse()` makes of them. -/
inductive ClaimStage
  | create
  | created (id : Nat)
  | checked (id : Nat)
  | yielding (id : Nat)
  | found
  | judging (seen : Option Nat) (text : Option Pid)
  | stale (seen : Option Nat)
  | owner (id : Nat)
  | finished
deriving DecidableEq, Repr

/-- The file that a process at this stage counts on. -/
def ClaimStage.holding : ClaimStage → Option Nat
  | .created id | .checked id | .yielding id | .owner id => some id
  | _ => none

/-- The file that a process at this stage has read and not found alive yet. -/
def ClaimStage.seen : ClaimStage → Option Nat
  | .judging seen _ | .stale seen => seen
  | _ => none

structure Process where
  executable : Executable
  stage : ClaimStage
deriving DecidableEq, Repr

structure PidFile where
  id : Nat
  text : Option Pid
deriving DecidableEq, Repr

/-- The file at the PID path, the texts of the PID files of older layouts, and the live processes. -/
structure Host where
  file : Option PidFile := none
  legacy : List (Option Pid) := []
  procs : Pid → Option Process := fun _ => none
  nextId : Nat := 0

namespace Host

def setStage (s : Host) (p : Pid) (proc : Process) (stage : ClaimStage) : Host :=
  { s with procs := Function.update s.procs p (some { proc with stage := stage }) }

def remove (s : Host) : Host := { s with file := none }

def kill (s : Host) (p : Pid) : Host := { s with procs := Function.update s.procs p none }

/-- Writing goes to the created file, also when another one is at the path by now. -/
def write (s : Host) (id : Nat) (text : Option Pid) : Host :=
  { s with file := s.file.map fun f => if f.id = id then { f with text := text } else f }

/-- `pid_file_owner_alive` on a file with this text. -/
def ownerAlive (s : Host) (self : Executable) (text : Option Pid) : Bool :=
  match text.bind s.procs with
  | some proc => self.recognises proc.executable
  | none => false

/-- A step of the process `p`, or of the surroundings: another process of the binary starts, an older
build changes its PID files. A crash may leave any text behind. -/
inductive Action
  | start (p : Pid) (executable : Executable)
  | bystander (p : Pid) (executable : Executable)
  | legacyFiles (texts : List (Option Pid))
  | create (p : Pid)
  | legacyCheck (p : Pid)
  | yieldRemove (p : Pid)
  | write (p : Pid)
  | read (p : Pid)
  | judge (p : Pid)
  | removeStale (p : Pid)
  | fail (p : Pid)
  | exit (p : Pid)
  | crash (p : Pid)
  | crashWriting (p : Pid) (text : Option Pid)
deriving DecidableEq, Repr

/-- `claim_pid_file`, `remove_pid_file` on exit, and the ways a process ends. A failed write, create
or remove ends the claim with an error. -/
def step (s : Host) : Action → Option Host
  | .start p executable =>
    if s.procs p = none then some { s with procs := Function.update s.procs p (some ⟨executable, .create⟩) }
    else none
  | .bystander p executable =>
    if s.procs p = none then some { s with procs := Function.update s.procs p (some ⟨executable, .finished⟩) }
    else none
  | .legacyFiles texts => some { s with legacy := texts }
  | .create p => do
    let proc ← s.procs p
    if proc.stage = .create then
      match s.file with
      | some _ => some (s.setStage p proc .found)
      | none => some { s.setStage p proc (.created s.nextId) with
          file := some ⟨s.nextId, none⟩, nextId := s.nextId + 1 }
    else none
  | .legacyCheck p => do
    let proc ← s.procs p
    match proc.stage with
    | .created id =>
      some (s.setStage p proc (if s.legacy.any (s.ownerAlive proc.executable) then .yielding id else .checked id))
    | _ => none
  | .yieldRemove p => do
    let proc ← s.procs p
    match proc.stage with
    | .yielding _ => some (s.remove.setStage p proc .finished)
    | _ => none
  | .write p => do
    let proc ← s.procs p
    match proc.stage with
    | .checked id => some ((s.write id (some p)).setStage p proc (.owner id))
    | _ => none
  | .read p => do
    let proc ← s.procs p
    if proc.stage = .found then
      some (s.setStage p proc (.judging (s.file.map PidFile.id) (s.file.bind PidFile.text)))
    else none
  | .judge p => do
    let proc ← s.procs p
    match proc.stage with
    | .judging seen text =>
      some (s.setStage p proc (if s.ownerAlive proc.executable text then .finished else .stale seen))
    | _ => none
  | .removeStale p => do
    let proc ← s.procs p
    match proc.stage with
    | .stale _ => some (s.remove.setStage p proc .create)
    | _ => none
  | .fail p => do
    let proc ← s.procs p
    match proc.stage with
    | .create | .checked _ | .stale _ => some (s.setStage p proc .finished)
    | _ => none
  | .exit p => do
    let proc ← s.procs p
    match proc.stage with
    | .owner _ => some (s.remove.kill p)
    | .finished => some (s.kill p)
    | _ => none
  | .crash p => if (s.procs p).isSome then some (s.kill p) else none
  | .crashWriting p text => do
    let proc ← s.procs p
    match proc.stage with
    | .checked id => some ((s.write id text).kill p)
    | _ => none

def stageOf (s : Host) (p : Pid) : Option ClaimStage := (s.procs p).map Process.stage

def holding (s : Host) (p : Pid) : Option Nat := (s.stageOf p).bind ClaimStage.holding

/-- `p` lives and its `claim_pid_file` returned `Ok(true)`. -/
def IsOwner (s : Host) (p : Pid) : Prop := ∃ id, s.stageOf p = some (.owner id)

/-- The starters do not race, and they know each other's executables. No start reads the file of one that
still lives and stands between its `create_new` and the end of its claim; none judges the owner's PID by
an executable it does not recognise; and a removal as stale takes away the file that was read, or one that
no live process has created. -/
def ClaimsApart (s : Host) : Action → Prop
  | .read _ => ∀ f q, s.file = some f → s.holding q = some f.id → s.IsOwner q
  | .judge p => ∀ proc seen q owner, s.procs p = some proc → proc.stage = .judging seen (some q) →
      s.procs q = some owner → s.IsOwner q → proc.executable.recognises owner.executable
  | .removeStale p => ∀ f q, s.file = some f → s.stageOf p ≠ some (.stale (some f.id)) → s.holding q ≠ some f.id
  | _ => True

/-! ## The invariant -/

/-- The file a live process counts on is at the path, only one process counts on it, and it holds the PID
of an owner. Who has read it and not judged it yet has read that PID; nobody has judged it stale. -/
structure Inv (s : Host) : Prop where
  held : ∀ q id, s.holding q = some id → s.file.map PidFile.id = some id
  unique : ∀ q q', (s.holding q).isSome → (s.holding q').isSome → q = q'
  written : ∀ q f, s.IsOwner q → s.file = some f → f.text = some q
  read : ∀ p q id text, s.stageOf p = some (.judging (some id) text) → s.holding q = some id →
    s.IsOwner q ∧ text = some q
  judged : ∀ p q id, s.stageOf p = some (.stale (some id)) → s.holding q ≠ some id
  file_lt : ∀ f, s.file = some f → f.id < s.nextId
  seen_lt : ∀ p st id, s.stageOf p = some st → st.seen = some id → id < s.nextId

variable {s s' : Host} {p q : Pid} {proc : Process} {stage : ClaimStage} {id : Nat}

theorem stageOf_eq (hp : s.procs p = some proc) : s.stageOf p = some proc.stage := by
  rw [stageOf, hp]; rfl

theorem stageOf_update (q : Pid) (o : Option Process) :
    stageOf { s with procs := Function.update s.procs p o } q
      = if q = p then o.map Process.stage else s.stageOf q := by
  unfold stageOf
  by_cases hq : q = p
  · subst hq; simp
  · simp [hq]

theorem stageOf_setStage (s : Host) (p : Pid) (proc : Process) (stage : ClaimStage) (q : Pid) :
    (s.setStage p proc stage).stageOf q = if q = p then some stage else s.stageOf q :=
  stageOf_update q (some { proc with stage := stage })

theorem stageOf_kill (s : Host) (p q : Pid) : (s.kill p).stageOf q = if q = p then none else s.stageOf q :=
  stageOf_update q none

theorem holding_eq {st : ClaimStage} (h : s.stageOf q = some st) : s.holding q = st.holding := by
  rw [holding, h]; rfl

theorem IsOwner.holding (h : s.IsOwner q) : (s.holding q).isSome := by
  obtain ⟨id, h⟩ := h
  rw [holding_eq h]; rfl

/-- The process `q` stays where it is, or leaves its stage for one where it owns nothing, has read nothing
and counts on no other file than before. -/
inductive Moves (s s' : Host) (q : Pid) : Prop
  | same (h : s'.stageOf q = s.stageOf q)
  | gone (h : s'.stageOf q = none)
  | moved {st : ClaimStage} (h : s'.stageOf q = some st) (hseen : st.seen = none) (howner : ¬s'.IsOwner q)
      (hhold : ∀ id, st.holding = some id → s.holding q = some id ∧ ¬s.IsOwner q)

theorem Moves.holding (h : s.Moves s' q) (hid : s'.holding q = some id) : s.holding q = some id := by
  cases h with
  | same h => rwa [Host.holding, h] at hid
  | gone h => rw [Host.holding, h] at hid; cases hid
  | moved h _ _ hhold => exact (hhold id (by rw [← holding_eq h]; exact hid)).1

theorem Moves.of_owner (h : s.Moves s' q) (ho : s'.IsOwner q) : s.IsOwner q := by
  cases h with
  | same h => rwa [IsOwner, h] at ho
  | gone h => obtain ⟨id, ho⟩ := ho; rw [h] at ho; cases ho
  | moved _ _ howner => exact absurd ho howner

theorem Moves.owner (h : s.Moves s' q) (ho : s.IsOwner q) (hid : s'.holding q = some id) : s'.IsOwner q := by
  cases h with
  | same h => rwa [IsOwner, h]
  | gone h => rw [Host.holding, h] at hid; cases hid
  | moved h _ _ hhold => exact absurd ho (hhold id (by rw [← holding_eq h]; exact hid)).2

theorem Moves.seen (h : s.Moves s' q) {st : ClaimStage} (hst : s'.stageOf q = some st) (hid : st.seen = some id) :
    s.stageOf q = some st := by
  cases h with
  | same h => rwa [← h]
  | gone h => rw [h] at hst; cases hst
  | moved h hseen =>
    obtain rfl := Option.some.inj (h.symm.trans hst)
    rw [hseen] at hid; cases hid

theorem Inv.of_moves (h : s.Inv) (hf : s'.file = s.file) (hn : s'.nextId = s.nextId)
    (hm : ∀ q, s.Moves s' q) : s'.Inv := by
  have hsome : ∀ q, (s'.holding q).isSome → (s.holding q).isSome := by
    intro q hq
    obtain ⟨id, hid⟩ := Option.isSome_iff_exists.1 hq
    rw [(hm q).holding hid]; rfl
  refine ⟨fun q id hid => ?_, fun q q' hq hq' => h.unique q q' (hsome q hq) (hsome q' hq'), fun q f hq hfile => ?_,
    fun p q id text hp hq => ?_, fun p q id hp hq => ?_, fun f hfile => ?_, fun p st id hp hid => ?_⟩
  · rw [hf]; exact h.held q id ((hm q).holding hid)
  · exact h.written q f ((hm q).of_owner hq) (hf ▸ hfile)
  · obtain ⟨howner, htext⟩ := h.read p q id text ((hm p).seen hp rfl) ((hm q).holding hq)
    exact ⟨(hm q).owner howner hq, htext⟩
  · exact h.judged p q id ((hm p).seen hp rfl) ((hm q).holding hq)
  · rw [hn]; exact h.file_lt f (hf ▸ hfile)
  · rw [hn]; exact h.seen_lt p st id ((hm p).seen hp hid) hid

/-- Where nobody counts on a file, only the numbers have to be right. -/
theorem Inv.of_none (h : ∀ q, s.holding q = none) (hf : ∀ f, s.file = some f → f.id < s.nextId)
    (hs : ∀ p st id, s.stageOf p = some st → st.seen = some id → id < s.nextId) : s.Inv := by
  refine ⟨fun q id hid => ?_, fun q q' hq => ?_, fun q f hq => ?_, fun p q id text hp hq => ?_,
    fun p q id hp hq => ?_,
    hf, hs⟩
  · rw [h q] at hid; cases hid
  · rw [h q] at hq; cases hq
  · have := hq.holding
    rw [h q] at this; cases this
  · rw [h q] at hq; cases hq
  · rw [h q] at hq; cases hq

/-- A process moves on to a stage where it owns nothing and has read nothing. -/
theorem Inv.setStage (h : s.Inv) (hp : s.procs p = some proc) (hseen : stage.seen = none)
    (hs : ∀ id, stage ≠ .owner id) (ho : ∀ id, proc.stage ≠ .owner id)
    (hhold : ∀ id, stage.holding = some id → proc.stage.holding = some id) : (s.setStage p proc stage).Inv := by
  refine h.of_moves rfl rfl fun q => ?_
  have hq := stageOf_setStage s p proc stage q
  split at hq
  · next heq =>
    subst heq
    refine .moved hq hseen ?_ fun id hid => ⟨?_, ?_⟩
    · rintro ⟨id, hid⟩
      exact hs id (Option.some.inj (hq.symm.trans hid))
    · rw [holding_eq (stageOf_eq hp)]; exact hhold id hid
    · rintro ⟨id, hid⟩
      exact ho id (Option.some.inj ((stageOf_eq hp).symm.trans hid))
  · exact .same hq

theorem Inv.kill (h : s.Inv) (p : Pid) : (s.kill p).Inv := by
  refine h.of_moves rfl rfl fun q => ?_
  have hq := stageOf_kill s p q
  split at hq
  · exact .gone hq
  · exact .same hq

theorem Inv.start (h : s.Inv) (executable : Executable) (hseen : stage.seen = none)
    (hhold : stage.holding = none) :
    Inv { s with procs := Function.update s.procs p (some ⟨executable, stage⟩) } := by
  refine h.of_moves rfl rfl fun q => ?_
  have hq := stageOf_update (s := s) (p := p) q (some ⟨executable, stage⟩)
  split at hq
  · refine .moved hq hseen ?_ fun id hid => ?_
    · rintro ⟨id, hid⟩
      obtain rfl := Option.some.inj (hq.symm.trans hid)
      cases hhold
    · rw [hhold] at hid; cases hid
  · exact .same hq

/-- The only holder may take its file away when it lets go of it. -/
theorem Inv.none_left (h : s.Inv) (hp : s.procs p = some proc) (hid : proc.stage.holding = some id)
    (hq : q ≠ p) : s.holding q = none := by
  rw [← Option.not_isSome_iff_eq_none]
  intro hsome
  exact hq (h.unique q p hsome (by rw [holding_eq (stageOf_eq hp), hid]; rfl))

theorem Inv.seen_lt_update (h : s.Inv) {o : Option Process} (ho : ∀ proc, o = some proc → proc.stage.seen = none)
    {p' : Pid} {st : ClaimStage} (hst : (if p' = p then o.map Process.stage else s.stageOf p') = some st)
    (hid : st.seen = some id) : id < s.nextId := by
  split at hst
  · obtain ⟨proc, hproc, rfl⟩ := Option.map_eq_some_iff.1 hst
    rw [ho proc hproc] at hid; cases hid
  · exact h.seen_lt p' st id hst hid

theorem Inv.remove_setStage (h : s.Inv) (hothers : ∀ q, q ≠ p → s.holding q = none)
    (hhold : stage.holding = none) (hseen : stage.seen = none) : (s.remove.setStage p proc stage).Inv := by
  refine .of_none (fun q => ?_) nofun fun p' st id hst hid => ?_
  · rw [Host.holding, stageOf_setStage]
    split
    · exact hhold
    · next hq => exact hothers q hq
  · rw [stageOf_setStage] at hst
    exact h.seen_lt_update (o := some { proc with stage := stage }) (by rintro _ ⟨⟩; exact hseen) hst hid

theorem Inv.remove_kill (h : s.Inv) (hothers : ∀ q, q ≠ p → s.holding q = none) : (s.remove.kill p).Inv := by
  refine .of_none (fun q => ?_) nofun fun p' st id hst hid => ?_
  · rw [Host.holding, stageOf_kill]
    split
    · rfl
    · next hq => exact hothers q hq
  · rw [stageOf_kill] at hst
    exact h.seen_lt_update (o := none) nofun hst hid

theorem map_id_write (s : Host) (id : Nat) (text : Option Pid) :
    (s.write id text).file.map PidFile.id = s.file.map PidFile.id := by
  simp only [Host.write, Option.map_map]
  congr 1
  funext f
  simp only [Function.comp]
  split <;> rfl

theorem Inv.file_lt_write (h : s.Inv) {text : Option Pid} {f : PidFile} (hf : (s.write id text).file = some f) :
    f.id < s.nextId := by
  have hid := map_id_write s id text
  rw [hf] at hid
  obtain ⟨f', hf', heq⟩ := Option.map_eq_some_iff.1 hid.symm
  exact heq ▸ h.file_lt f' hf'

/-- A process that dies while it writes leaves any text behind. -/
theorem Inv.write_kill (h : s.Inv) (hothers : ∀ q, q ≠ p → s.holding q = none) (id : Nat) (text : Option Pid) :
    ((s.write id text).kill p).Inv := by
  refine .of_none (fun q => ?_) (fun f hf => h.file_lt_write hf) fun p' st id' hst hid => ?_
  · rw [Host.holding, stageOf_kill]
    split
    · rfl
    · next hq => exact hothers q hq
  · rw [stageOf_kill] at hst
    exact h.seen_lt_update (o := none) nofun hst hid

/-- The process that writes its PID becomes the owner; it is the only one that counts on the file. -/
theorem Inv.write (h : s.Inv) (hp : s.procs p = some proc) (hst : proc.stage = .checked id) :
    ((s.write id (some p)).setStage p proc (.owner id)).Inv := by
  have hpid : s.holding p = some id := by rw [holding_eq (stageOf_eq hp), hst]; rfl
  have hothers : ∀ q, q ≠ p → s.holding q = none := fun q => h.none_left hp (by rw [hst]; rfl)
  have hstage := stageOf_setStage (s.write id (some p)) p proc (.owner id)
  have hhold : ∀ q id', ((s.write id (some p)).setStage p proc (.owner id)).holding q = some id' →
      q = p ∧ id' = id := by
    intro q id' hq
    rw [Host.holding, hstage q] at hq
    split at hq
    · next heq => exact ⟨heq, (Option.some.inj hq).symm⟩
    · next hne => exact (Option.some_ne_none id' ((hothers q hne).symm.trans hq).symm).elim
  have honly : ∀ q, (((s.write id (some p)).setStage p proc (.owner id)).holding q).isSome → q = p := by
    intro q hq
    obtain ⟨id', hid⟩ := Option.isSome_iff_exists.1 hq
    exact (hhold q id' hid).1
  have hsame : ∀ p' st, ((s.write id (some p)).setStage p proc (.owner id)).stageOf p' = some st → st.seen.isSome →
      s.stageOf p' = some st := by
    intro p' st hst' hseen
    rw [hstage p'] at hst'
    split at hst'
    · obtain rfl := Option.some.inj hst'
      cases hseen
    · exact hst'
  refine ⟨fun q id' hq => ?_, fun q q' hq hq' => (honly q hq).trans (honly q' hq').symm, fun q f hq hf => ?_,
    fun p' q id' text hp' hq => ?_, fun p' q id' hp' hq => ?_, fun f hf => h.file_lt_write hf,
    fun p' st id' hst' hid => h.seen_lt p' st id' (hsame p' st hst' (by rw [hid]; rfl)) hid⟩
  · obtain ⟨rfl, rfl⟩ := hhold q id' hq
    exact (map_id_write s id' (some q)).trans (h.held q id' hpid)
  · obtain rfl := honly q hq.holding
    obtain ⟨f', hf', rfl⟩ := Option.map_eq_some_iff.1 (show s.file.map _ = some f from hf)
    have hheld := h.held q id hpid
    rw [hf'] at hheld
    rw [if_pos (Option.some.inj hheld)]
  · obtain ⟨rfl, rfl⟩ := hhold q id' hq
    -- who has read the file before its PID was written has found an owner there
    obtain ⟨⟨id, howner⟩, -⟩ := h.read p' q id' text (hsame p' _ hp' rfl) hpid
    rw [stageOf_eq hp, hst] at howner
    cases howner
  · obtain ⟨rfl, rfl⟩ := hhold q id' hq
    exact h.judged p' q id' (hsame p' _ hp' rfl) hpid

/-- A file is only created where none is, so where nobody counts on one. -/
theorem Inv.create (h : s.Inv) (hf : s.file = none) :
    Inv { s.setStage p proc (.created s.nextId) with file := some ⟨s.nextId, none⟩, nextId := s.nextId + 1 } := by
  have hnone : ∀ q, s.holding q = none := by
    intro q
    by_contra hq
    obtain ⟨id, hid⟩ := Option.ne_none_iff_exists'.1 hq
    exact Option.some_ne_none id ((h.held q id hid).symm.trans (congrArg (Option.map PidFile.id) hf))
  set t : Host :=
    { s.setStage p proc (.created s.nextId) with file := some ⟨s.nextId, none⟩, nextId := s.nextId + 1 }
  have hstage : ∀ q, t.stageOf q = if q = p then some (.created s.nextId) else s.stageOf q :=
    stageOf_setStage s p proc (.created s.nextId)
  have hhold : ∀ q id, t.holding q = some id → q = p ∧ id = s.nextId := by
    intro q id hid
    rw [Host.holding, hstage q] at hid
    split at hid
    · next heq => exact ⟨heq, (Option.some.inj hid).symm⟩
    · exact (Option.some_ne_none id ((hnone q).symm.trans hid).symm).elim
  have hlt : ∀ p' st id, t.stageOf p' = some st → st.seen = some id → id < s.nextId := by
    intro p' st id hst hid
    rw [hstage p'] at hst
    exact h.seen_lt_update (o := some { proc with stage := .created s.nextId }) (by rintro _ ⟨⟩; rfl) hst hid
  refine ⟨fun q id hid => ?_, fun q q' hq hq' => ?_, fun q f hq => ?_, fun p' q id text hp' hq => ?_,
    fun p' q id hp' hq => ?_, ?_, fun p' st id hst hid => Nat.lt_succ_of_lt (hlt p' st id hst hid)⟩
  · rw [(hhold q id hid).2]; rfl
  · obtain ⟨id, hid⟩ := Option.isSome_iff_exists.1 hq
    obtain ⟨id', hid'⟩ := Option.isSome_iff_exists.1 hq'
    rw [(hhold q id hid).1, (hhold q' id' hid').1]
  · obtain ⟨id, hq⟩ := hq
    rw [hstage q] at hq
    split at hq
    · cases hq
    · exact (Option.some_ne_none id ((hnone q).symm.trans (holding_eq hq)).symm).elim
  · exact absurd (hhold q id hq).2 (Nat.ne_of_lt (hlt p' _ id hp' rfl))
  · exact absurd (hhold q id hq).2 (Nat.ne_of_lt (hlt p' _ id hp' rfl))
  · rintro f ⟨⟩
    exact Nat.lt_succ_self _

/-- A process that counts on no file goes on to a stage where it knows what it has seen. -/
theorem Inv.look (h : s.Inv) (hp : s.procs p = some proc) (hp0 : proc.stage.holding = none)
    (hhold : stage.holding = none)
    (hread : ∀ id text q, stage = .judging (some id) text → s.holding q = some id → s.IsOwner q ∧ text = some q)
    (hjudged : ∀ id q, stage = .stale (some id) → s.holding q ≠ some id)
    (hlt : ∀ id, stage.seen = some id → id < s.nextId) : (s.setStage p proc stage).Inv := by
  have hstage := stageOf_setStage s p proc stage
  set t := s.setStage p proc stage
  have hpnone : s.holding p = none := (holding_eq (stageOf_eq hp)).trans hp0
  have hsame : ∀ q, t.holding q = s.holding q := by
    intro q
    by_cases hq : q = p
    · subst hq
      rw [hpnone, holding_eq ((hstage q).trans (if_pos rfl)), hhold]
    · rw [Host.holding, hstage q, if_neg hq]; rfl
  have hne : ∀ q id, s.holding q = some id → q ≠ p := by
    rintro q id hq rfl
    rw [hpnone] at hq; cases hq
  have howner : ∀ q, q ≠ p → (t.IsOwner q ↔ s.IsOwner q) := by
    intro q hq
    rw [IsOwner, IsOwner, hstage q, if_neg hq]
  refine ⟨fun q id hid => h.held q id (hsame q ▸ hid),
    fun q q' hq hq' => h.unique q q' (hsame q ▸ hq) (hsame q' ▸ hq'),
    fun q f hq hf => ?_, fun p' q id text hp' hq => ?_, fun p' q id hp' hq => ?_, h.file_lt,
    fun p' st id hst hid => ?_⟩
  · obtain ⟨id, hid⟩ := Option.isSome_iff_exists.1 hq.holding
    exact h.written q f ((howner q (hne q id (hsame q ▸ hid))).1 hq) hf
  · rw [hsame q] at hq
    rw [howner q (hne q id hq)]
    rw [hstage p'] at hp'
    split at hp'
    · exact hread id text q (Option.some.inj hp') hq
    · exact h.read p' q id text hp' hq
  · rw [hsame q] at hq
    rw [hstage p'] at hp'
    split at hp'
    · exact hjudged id q (Option.some.inj hp') hq
    · exact h.judged p' q id hp' hq
  · rw [hstage p'] at hst
    split at hst
    · obtain rfl := Option.some.inj hst
      exact hlt id hid
    · exact h.seen_lt p' st id hst hid

/-- What is read is the PID of the owner, if a live process counts on the file. -/
theorem Inv.readFile (h : s.Inv) (hc : s.ClaimsApart (.read p)) (hp : s.procs p = some proc)
    (hst : proc.stage = .found) :
    (s.setStage p proc (.judging (s.file.map PidFile.id) (s.file.bind PidFile.text))).Inv := by
  refine h.look hp (by rw [hst]; rfl) rfl (fun id text q heq hq => ?_) nofun fun id hid => ?_
  · obtain ⟨hid, rfl⟩ := ClaimStage.judging.inj heq
    obtain ⟨f, hf, rfl⟩ := Option.map_eq_some_iff.1 hid
    have howner := hc f q hf hq
    rw [hf]
    exact ⟨howner, h.written q f howner hf⟩
  · obtain ⟨f, hf, rfl⟩ := Option.map_eq_some_iff.1 hid
    exact h.file_lt f hf

/-- The liveness test finds the owner whose file was read. -/
theorem Inv.judge (h : s.Inv) (hc : s.ClaimsApart (.judge p)) (hp : s.procs p = some proc) {seen : Option Nat}
    {text : Option Pid} (hst : proc.stage = .judging seen text) (halive : ¬s.ownerAlive proc.executable text) :
    (s.setStage p proc (.stale seen)).Inv := by
  refine h.look hp (by rw [hst]; rfl) rfl nofun (fun id q heq hq => halive ?_) fun id hid => ?_
  · obtain rfl := ClaimStage.stale.inj heq
    obtain ⟨howner, rfl⟩ := h.read p q id text (hst ▸ stageOf_eq hp) hq
    obtain ⟨id', hid'⟩ := howner
    obtain ⟨owner, hq', -⟩ := Option.map_eq_some_iff.1 hid'
    have hknown := hc proc (some id) q owner hp hst hq' ⟨id', hid'⟩
    simpa only [ownerAlive, Option.bind_some, hq'] using hknown
  · have hid : seen = some id := hid
    exact h.seen_lt p _ id (stageOf_eq hp) (by rw [hst]; exact hid)

/-- Nobody counts on the file that is removed as stale. -/
theorem Inv.removeStale (h : s.Inv) (hc : s.ClaimsApart (.removeStale p)) :
    (s.remove.setStage p proc .create).Inv := by
  refine h.remove_setStage (fun q _ => ?_) rfl rfl
  by_contra hq
  obtain ⟨id, hid⟩ := Option.ne_none_iff_exists'.1 hq
  obtain ⟨f, hf, rfl⟩ := Option.map_eq_some_iff.1 (h.held q id hid)
  by_cases hread : s.stageOf p = some (.stale (some f.id))
  · exact h.judged p q f.id hread hid
  · exact hc f q hf hread hid

theorem Inv.step (h : s.Inv) {act : Action} (hc : s.ClaimsApart act) (hs : s.step act = some s') : s'.Inv := by
  cases act with
  | start p executable =>
    obtain ⟨-, ⟨⟩⟩ := Option.ite_none_right_eq_some.1 hs
    exact h.start executable rfl rfl
  | bystander p executable =>
    obtain ⟨-, ⟨⟩⟩ := Option.ite_none_right_eq_some.1 hs
    exact h.start executable rfl rfl
  | legacyFiles texts =>
    obtain rfl := Option.some.inj hs
    exact h.of_moves rfl rfl fun q => .same rfl
  | create p =>
    obtain ⟨proc, hp, hs⟩ := Option.bind_eq_some_iff.1 hs
    obtain ⟨hst, hs⟩ := Option.ite_none_right_eq_some.1 hs
    split at hs
    · obtain rfl := Option.some.inj hs
      exact h.setStage hp rfl nofun (by rw [hst]; exact nofun) nofun
    · next hf => obtain rfl := Option.some.inj hs; exact h.create hf
  | legacyCheck p =>
    obtain ⟨proc, hp, hs⟩ := Option.bind_eq_some_iff.1 hs
    split at hs
    · next id hst =>
      obtain rfl := Option.some.inj hs
      split
      · exact h.setStage hp rfl nofun (by rw [hst]; exact nofun) (by rw [hst]; exact fun _ hid => hid)
      · exact h.setStage hp rfl nofun (by rw [hst]; exact nofun) (by rw [hst]; exact fun _ hid => hid)
    · cases hs
  | yieldRemove p =>
    obtain ⟨proc, hp, hs⟩ := Option.bind_eq_some_iff.1 hs
    split at hs
    · next id hst =>
      obtain rfl := Option.some.inj hs
      exact h.remove_setStage (fun q => h.none_left hp (by rw [hst]; rfl)) rfl rfl
    · cases hs
  | write p =>
    obtain ⟨proc, hp, hs⟩ := Option.bind_eq_some_iff.1 hs
    split at hs
    · next id hst => obtain rfl := Option.some.inj hs; exact h.write hp hst
    · cases hs
  | read p =>
    obtain ⟨proc, hp, hs⟩ := Option.bind_eq_some_iff.1 hs
    obtain ⟨hst, ⟨⟩⟩ := Option.ite_none_right_eq_some.1 hs
    exact h.readFile hc hp hst
  | judge p =>
    obtain ⟨proc, hp, hs⟩ := Option.bind_eq_some_iff.1 hs
    split at hs
    · next seen text hst =>
      obtain rfl := Option.some.inj hs
      split
      · exact h.setStage hp rfl nofun (by rw [hst]; exact nofun) nofun
      · next halive => exact h.judge hc hp hst halive
    · cases hs
  | removeStale p =>
    obtain ⟨proc, hp, hs⟩ := Option.bind_eq_some_iff.1 hs
    split at hs
    · obtain rfl := Option.some.inj hs; exact h.removeStale hc
    · cases hs
  | fail p =>
    obtain ⟨proc, hp, hs⟩ := Option.bind_eq_some_iff.1 hs
    split at hs
    · next hst => obtain rfl := Option.some.inj hs; exact h.setStage hp rfl nofun (by rw [hst]; exact nofun) nofun
    · next hst => obtain rfl := Option.some.inj hs; exact h.setStage hp rfl nofun (by rw [hst]; exact nofun) nofun
    · next hst => obtain rfl := Option.some.inj hs; exact h.setStage hp rfl nofun (by rw [hst]; exact nofun) nofun
    · cases hs
  | exit p =>
    obtain ⟨proc, hp, hs⟩ := Option.bind_eq_some_iff.1 hs
    split at hs
    · next id hst =>
      obtain rfl := Option.some.inj hs
      exact h.remove_kill fun q => h.none_left hp (by rw [hst]; rfl)
    · obtain rfl := Option.some.inj hs; exact h.kill p
    · cases hs
  | crash p =>
    obtain ⟨-, ⟨⟩⟩ := Option.ite_none_right_eq_some.1 hs
    exact h.kill p
  | crashWriting p text =>
    obtain ⟨proc, hp, hs⟩ := Option.bind_eq_some_iff.1 hs
    split at hs
    · next id hst =>
      obtain rfl := Option.some.inj hs
      exact h.write_kill (fun q => h.none_left hp (by rw [hst]; rfl)) _ text
    · cases hs

/-! ## Runs -/

/-- No daemon runs; a file with this text may be left at the path, and older layouts may hold others. -/
def atRest (left : Option (Option Pid)) (legacy : List (Option Pid)) : Host :=
  { file := left.map (PidFile.mk 0), legacy, nextId := 1 }

theorem inv_atRest (left : Option (Option Pid)) (legacy : List (Option Pid)) : (atRest left legacy).Inv := by
  refine .of_none (fun _ => rfl) (fun f hf => ?_) nofun
  obtain ⟨text, -, rfl⟩ := Option.map_eq_some_iff.1 (show left.map (PidFile.mk 0) = some f from hf)
  exact Nat.one_pos

/-- While the starters do not race and recognise each other's executables, the PID file has one owner:
whatever file was left at the path and in the older layouts. -/
theorem pidFile_owner_unique {left : Option (Option Pid)} {legacy : List (Option Pid)} {s : Host}
    (h : Reach step ClaimsApart (atRest left legacy) s) {p q : Pid} (hp : s.IsOwner p) (hq : s.IsOwner q) :
    p = q := by
  have hinv : s.Inv := h.invariant (inv_atRest left legacy) fun _ _ _ hi hc hs => hi.step hc hs
  exact hinv.unique p q hp.holding hq.holding

def installed : Executable := ⟨some "/usr/bin/sshwarden", "sshwarden"⟩

/-- A start takes over the file that a crashed daemon left behind, and the next one yields to it. -/
theorem pidFile_owner_unique_stale :
    ∃ s : Host, Reach step ClaimsApart (atRest (some (some 7)) []) s ∧ s.IsOwner 1 ∧ s.stageOf 2 = some .finished ∧
      ∀ q, s.IsOwner q → 1 = q := by
  have h : Reach step ClaimsApart (atRest (some (some 7)) []) _ := .start
  have h := h.step (a := Action.start 1 installed) trivial rfl
  have h := h.step (a := Action.create 1) trivial rfl
  have h := h.step (a := Action.read 1) (by
    rintro f q - hq
    by_cases h1 : q = 1
    · subst h1; cases hq
    · simp [holding, stageOf, setStage, h1, atRest] at hq) rfl
  have h := h.step (a := Action.judge 1) (by
    rintro proc seen q owner - - hq ⟨id, hid⟩
    by_cases h1 : q = 1
    · subst h1; cases hid
    · simp [stageOf, setStage, h1, atRest] at hid) rfl
  have h := h.step (a := Action.removeStale 1) (by
    rintro f q - - hq
    by_cases h1 : q = 1
    · subst h1; cases hq
    · simp [holding, stageOf, setStage, h1, atRest] at hq) rfl
  have h := h.step (a := Action.create 1) trivial rfl
  have h := h.step (a := Action.legacyCheck 1) trivial rfl
  have h := h.step (a := Action.write 1) trivial rfl
  have h := h.step (a := Action.start 2 installed) trivial rfl
  have h := h.step (a := Action.create 2) trivial rfl
  have h := h.step (a := Action.read 2) (by
    rintro f q - hq
    by_cases h1 : q = 1
    · subst h1; exact ⟨1, rfl⟩
    · by_cases h2 : q = 2
      · subst h2; cases hq
      · simp [holding, stageOf, setStage, remove, write, h1, h2, atRest] at hq) rfl
  have h := h.step (a := Action.judge 2) (by
    rintro proc seen q owner hp hst hq -
    obtain rfl := Option.some.inj hp
    obtain ⟨-, ht⟩ := ClaimStage.judging.inj hst
    obtain rfl := Option.some.inj ht
    obtain rfl := Option.some.inj hq
    rfl) rfl
  refine ⟨_, h, ⟨1, rfl⟩, rfl, ?_⟩
  exact fun q hq => pidFile_owner_unique h ⟨1, rfl⟩ hq

/-- The second start reads the file the first one has created and not written yet. -/
def emptyFileJudged : List Action :=
  [.start 1 installed, .start 2 installed, .create 1, .create 2, .read 2, .judge 2, .removeStale 2,
    .legacyCheck 1, .write 1, .create 2, .legacyCheck 2, .write 2]

theorem two_owners :
    ∃ s : Host, Reach step (fun _ _ => True) {} s ∧ s.IsOwner 1 ∧ s.IsOwner 2 := by
  have h : (Reach.replay step (fun _ _ => True) {} emptyFileJudged).isSome := rfl
  exact ⟨_, .of_replay_isSome h, ⟨0, rfl⟩, ⟨1, rfl⟩⟩

end Host

end SshWarden
