import SshWarden.State
import SshWarden.Lib.Reach
import Mathlib.Data.List.Basic
import Mathlib.Data.List.Pairwise

/-!
# PIN attempts side by side

The control channel and every open PIN dialog share one `PinFailureState`. An attempt reads the
clock, checks the lockout under the mutex, validates the PIN without it and records the outcome under
the mutex again; between these steps any other attempt may run.
-/

namespace SshWarden

inductive Channel
  | control | dialog
deriving DecidableEq, Repr

/-- Where an attempt stands. `wrong`, `right` and `failed` have an outcome to record; `failed` is the
control attempt that found no PIN configured. -/
inductive AttemptStage
  | started
  | arrived (now : Nat)
  | passed
  | wrong | right | failed
  | finished
deriving DecidableEq, Repr

/-- The check is passed and the outcome not recorded. -/
def AttemptStage.inFlight : AttemptStage → Bool
  | .passed | .wrong | .right | .failed => true
  | _ => false

structure Attempt where
  channel : Channel
  stage : AttemptStage
deriving DecidableEq, Repr

/-- The shared state, the attempts so far, and what happened since the last recorded success: how many
wrong PINs were validated before the first lockout was armed, when it was armed, and when each later
wrong PIN was validated, newest first. -/
structure Throttle where
  failures : PinFailureState := {}
  clock : Nat := 0
  attempts : List Attempt := []
  early : Nat := 0
  firstLockout : Option Nat := none
  late : List Nat := []
deriving DecidableEq, Repr

namespace Throttle

/-- The wrong PINs that are validated and whose failure is not recorded yet. -/
def unrecorded (s : Throttle) : Nat := s.attempts.countP fun a => a.stage = .wrong

/-- The first lockout and the wrong PINs validated after it, newest first. -/
def marks (s : Throttle) : List Nat := s.late ++ s.firstLockout.toList

def move (s : Throttle) (i : Nat) (a : Attempt) (stage : AttemptStage) : Throttle :=
  { s with attempts := s.attempts.set i { a with stage := stage } }

/-- `pin_lockout_remaining` with the clock read before the mutex is taken. -/
def check (s : Throttle) (now : Nat) : Option Nat × Throttle :=
  ((s.failures.lockoutRemaining now).1, { s with failures := (s.failures.lockoutRemaining now).2 })

def noteWrong (s : Throttle) : Throttle :=
  if s.firstLockout = none then { s with early := s.early + 1 } else { s with late := s.clock :: s.late }

/-- `record_pin_attempt` -/
def record (s : Throttle) (success : Bool) : Throttle :=
  let failures := (s.failures.recordAttempt s.clock success).2
  if success then { s with failures := failures, early := 0, firstLockout := none, late := [] }
  else if s.firstLockout = none ∧ PIN_MAX_ATTEMPTS ≤ failures.consecutiveFailures then
    { s with failures := failures, firstLockout := some s.clock }
  else { s with failures := failures }

/-- A step of the system; all but `start` and `tick` are a step of the attempt with that number. The
control channel takes one action at a time, and only its attempts may be abandoned, fail for want of
a PIN or end without a success although the PIN was right. -/
inductive Action
  | tick (ms : Nat)
  | start (channel : Channel)
  | readClock (i : Nat)
  | check (i : Nat)
  | validate (i : Nat) (right : Bool)
  | noPin (i : Nat)
  | record (i : Nat) (success : Bool)
  | abandon (i : Nat)
deriving DecidableEq, Repr

/-- The outcomes a stage may record. -/
def records (a : Attempt) (success : Bool) : Bool :=
  match a.stage with
  | .wrong | .failed => !success
  | .right => success || a.channel = .control
  | _ => false

def step (s : Throttle) : Action → Option Throttle
  | .tick ms => some { s with clock := s.clock + ms }
  | .start channel =>
    if channel = .control ∧ s.attempts.any (fun a => a.channel = .control ∧ a.stage ≠ .finished) then none
    else some { s with attempts := s.attempts ++ [⟨channel, .started⟩] }
  | .readClock i => do
    let a ← s.attempts[i]?
    if a.stage = .started then some (s.move i a (.arrived s.clock)) else none
  | .check i => do
    let a ← s.attempts[i]?
    match a.stage with
    | .arrived now =>
      let (wait, s') := s.check now
      some (s'.move i a (if wait.isSome then .finished else .passed))
    | _ => none
  | .validate i right => do
    let a ← s.attempts[i]?
    if a.stage = .passed then
      some (if right then s.move i a .right else (s.move i a .wrong).noteWrong)
    else none
  | .noPin i => do
    let a ← s.attempts[i]?
    if a.stage = .passed ∧ a.channel = .control then some (s.move i a .failed) else none
  | .record i success => do
    let a ← s.attempts[i]?
    if records a success then some ((s.move i a .finished).record success) else none
  | .abandon i => do
    let a ← s.attempts[i]?
    if (a.stage = .passed ∨ a.stage = .right) ∧ a.channel = .control then some (s.move i a .finished)
    else none

/-- The attempts between their check and the record of their outcome. -/
def inFlight (s : Throttle) : Nat := s.attempts.countP fun a => a.stage.inFlight

/-- Attempts overlap only below the threshold: one takes its check when no other attempt is between its
check and its record, or when the recorded failures and the attempts in between are fewer than
`PIN_MAX_ATTEMPTS`. -/
def ChecksApart (s : Throttle) : Action → Prop
  | .check _ => s.inFlight = 0 ∨ s.failures.consecutiveFailures + s.inFlight < PIN_MAX_ATTEMPTS
  | _ => True

instance (s : Throttle) (a : Action) : Decidable (ChecksApart s a) := by
  unfold ChecksApart; split <;> infer_instance

/-! ## The invariant -/

/-- The moment `t` is a whole lockout ago, or will be when the armed lockout ends. -/
def Covered (s : Throttle) (t : Nat) : Prop :=
  t + PIN_LOCKOUT ≤ s.clock ∨ ∃ u, s.failures.lockedUntil = some u ∧ t + PIN_LOCKOUT ≤ u

/-- The gate would let the next attempt through, the wrong PINs that are validated and not recorded yet
taken as failures. -/
def StillOpen (s : Throttle) : Prop :=
  s.failures.consecutiveFailures + s.unrecorded < PIN_MAX_ATTEMPTS ∨
    s.unrecorded = 0 ∧ (s.failures.lockoutRemaining s.clock).1 = none

structure Inv (s : Throttle) : Prop where
  /-- A wrong PIN validated before the lockout is recorded or about to be. -/
  counted : s.early ≤ s.failures.consecutiveFailures + s.unrecorded
  early_le : s.early ≤ PIN_MAX_ATTEMPTS
  armed : s.firstLockout = none ↔ s.failures.consecutiveFailures < PIN_MAX_ATTEMPTS
  none_late : s.firstLockout = none → s.late = []
  past : ∀ t ∈ s.marks, t ≤ s.clock
  covered : s.unrecorded = 0 → ∀ t ∈ s.marks, s.Covered t
  spaced : s.marks.Pairwise fun later earlier => earlier + PIN_LOCKOUT ≤ later
  arrived : ∀ a ∈ s.attempts, ∀ now, a.stage = .arrived now → now ≤ s.clock

variable {s s' : Throttle} {i : Nat} {a : Attempt} {stage : AttemptStage}

/-- One attempt moves, so a count over the stages changes by that attempt alone. -/
theorem countP_move (p : AttemptStage → Bool) (stage : AttemptStage) (h : s.attempts[i]? = some a) :
    (s.move i a stage).attempts.countP (fun b => p b.stage) + (if p a.stage then 1 else 0)
      = s.attempts.countP (fun b => p b.stage) + if p stage then 1 else 0 := by
  obtain ⟨hi, ha⟩ := List.getElem?_eq_some_iff.1 h
  have hpos : p a.stage → 0 < s.attempts.countP (fun b => p b.stage) := fun hp =>
    List.countP_pos_iff.2 ⟨a, List.mem_of_getElem? h, hp⟩
  have := List.countP_set (p := fun b : Attempt => p b.stage) (a := { a with stage := stage }) hi
  simp only [ha] at this
  simp only [move]
  rw [this]
  split <;> split <;> simp_all

theorem unrecorded_move (stage : AttemptStage) (h : s.attempts[i]? = some a) :
    (s.move i a stage).unrecorded + (if a.stage = .wrong then 1 else 0)
      = s.unrecorded + if stage = .wrong then 1 else 0 := by
  simpa [unrecorded] using countP_move (fun b => decide (b = .wrong)) stage h

theorem inFlight_move (stage : AttemptStage) (h : s.attempts[i]? = some a) :
    (s.move i a stage).inFlight + (if a.stage.inFlight then 1 else 0)
      = s.inFlight + if stage.inFlight then 1 else 0 :=
  countP_move AttemptStage.inFlight stage h

theorem mem_move {b : Attempt} (h : b ∈ (s.move i a stage).attempts) :
    b ∈ s.attempts ∨ b.stage = stage := by
  rcases List.mem_or_eq_of_mem_set h with h | rfl
  · exact .inl h
  · exact .inr rfl

/-- An attempt moves on with nothing recorded: to a stage that is no wrong PIN and from one. -/
theorem Inv.move (h : s.Inv) (hi : s.attempts[i]? = some a) (ha : a.stage ≠ .wrong)
    (hw : stage ≠ .wrong) (hn : ∀ now, stage = .arrived now → now ≤ s.clock) : (s.move i a stage).Inv := by
  have hu : (s.move i a stage).unrecorded = s.unrecorded := by
    have := unrecorded_move stage hi
    rwa [if_neg ha, if_neg hw] at this
  refine ⟨?_, h.early_le, h.armed, h.none_late, h.past, ?_, h.spaced, ?_⟩
  · rw [hu]; exact h.counted
  · rw [hu]; exact h.covered
  · intro b hb now hnow
    rcases mem_move hb with hb | hb
    · exact h.arrived b hb now hnow
    · exact hn now (hb.symm.trans hnow)

theorem Inv.tick (h : s.Inv) (ms : Nat) : Inv { s with clock := s.clock + ms } := by
  refine ⟨h.counted, h.early_le, h.armed, h.none_late, fun t ht => ?_, fun hu t ht => ?_, h.spaced,
    fun a ha now hn => ?_⟩
  · exact Nat.le_trans (h.past t ht) (Nat.le_add_right ..)
  · exact (h.covered hu t ht).imp_left fun hc => Nat.le_trans hc (Nat.le_add_right ..)
  · exact Nat.le_trans (h.arrived a ha now hn) (Nat.le_add_right ..)

theorem Inv.start (h : s.Inv) (channel : Channel) :
    Inv { s with attempts := s.attempts ++ [⟨channel, .started⟩] } := by
  have hu : unrecorded { s with attempts := s.attempts ++ [⟨channel, .started⟩] } = s.unrecorded := by
    simp [unrecorded, List.countP_append]
  refine ⟨?_, h.early_le, h.armed, h.none_late, h.past, ?_, h.spaced, ?_⟩
  · rw [hu]; exact h.counted
  · rw [hu]; exact h.covered
  · intro a ha now hn
    rcases List.mem_append.1 ha with ha | ha
    · exact h.arrived a ha now hn
    · obtain rfl := List.mem_singleton.1 ha
      cases hn

theorem lockoutRemaining_failures (st : PinFailureState) (now : Nat) :
    (st.lockoutRemaining now).2.consecutiveFailures = st.consecutiveFailures := by
  unfold PinFailureState.lockoutRemaining
  split
  · split <;> rfl
  · rfl

/-- A lockout is only cleared when it is over. -/
theorem lockoutRemaining_until (st : PinFailureState) {now u : Nat} (h : st.lockedUntil = some u)
    (hu : now < u) : (st.lockoutRemaining now).2 = st := by
  simp only [PinFailureState.lockoutRemaining, h, if_pos hu]

theorem until_le_of_lockoutRemaining {st : PinFailureState} {now u : Nat} (h : st.lockedUntil = some u)
    (hn : (st.lockoutRemaining now).1 = none) : u ≤ now := by
  simp only [PinFailureState.lockoutRemaining, h] at hn
  split at hn
  · cases hn
  · omega

theorem Inv.check (h : s.Inv) {now : Nat} (hn : now ≤ s.clock) : (s.check now).2.Inv := by
  have hf := lockoutRemaining_failures s.failures now
  refine ⟨?_, h.early_le, ?_, h.none_late, h.past, ?_, h.spaced, h.arrived⟩
  · show s.early ≤ (s.failures.lockoutRemaining now).2.consecutiveFailures + s.unrecorded
    rw [hf]; exact h.counted
  · show s.firstLockout = none ↔ (s.failures.lockoutRemaining now).2.consecutiveFailures < _
    rw [hf]; exact h.armed
  · intro hu t ht
    rcases h.covered hu t ht with hc | ⟨u, hl, hc⟩
    · exact .inl hc
    · by_cases hlt : now < u
      · refine .inr ⟨u, ?_, hc⟩
        show (s.failures.lockoutRemaining now).2.lockedUntil = some u
        rw [lockoutRemaining_until _ hl hlt]; exact hl
      · exact .inl (show t + PIN_LOCKOUT ≤ s.clock by omega)

/-- A wrong PIN the gate would let through is the fifth at most, or a lockout after the one before. -/
theorem Inv.noteWrong (h : s.Inv) (hi : s.attempts[i]? = some a) (ha : a.stage = .passed)
    (ho : s.StillOpen) : ((s.move i a .wrong).noteWrong).Inv := by
  have hu : (s.move i a .wrong).unrecorded = s.unrecorded + 1 := by
    have := unrecorded_move .wrong hi
    rwa [if_pos rfl, if_neg (by rw [ha]; exact nofun)] at this
  have harr : ∀ b ∈ (s.move i a .wrong).attempts, ∀ now, b.stage = .arrived now → now ≤ s.clock := by
    intro b hb now hnow
    rcases mem_move hb with hb | hb
    · exact h.arrived b hb now hnow
    · rw [hb] at hnow; cases hnow
  unfold Throttle.noteWrong
  split
  · next hnone =>
    have hlt := h.armed.1 hnone
    have hopen : s.failures.consecutiveFailures + s.unrecorded < PIN_MAX_ATTEMPTS := by
      rcases ho with ho | ⟨ho, -⟩
      · exact ho
      · omega
    have hcount := h.counted
    refine ⟨?_, ?_, h.armed, h.none_late, h.past, ?_, h.spaced, harr⟩
    · show s.early + 1 ≤ s.failures.consecutiveFailures + (s.move i a .wrong).unrecorded
      omega
    · show s.early + 1 ≤ PIN_MAX_ATTEMPTS
      omega
    · intro hz
      have hz : (s.move i a .wrong).unrecorded = 0 := hz
      omega
  · next hsome =>
    have hge : ¬s.failures.consecutiveFailures < PIN_MAX_ATTEMPTS := fun hlt => hsome (h.armed.2 hlt)
    obtain ⟨hzero, hfree⟩ : s.unrecorded = 0 ∧ (s.failures.lockoutRemaining s.clock).1 = none := by
      rcases ho with ho | ho
      · omega
      · exact ho
    have hspace : ∀ t ∈ s.marks, t + PIN_LOCKOUT ≤ s.clock := by
      intro t ht
      rcases h.covered hzero t ht with hc | ⟨u, hl, hc⟩
      · exact hc
      · exact Nat.le_trans hc (until_le_of_lockoutRemaining hl hfree)
    refine ⟨?_, h.early_le, h.armed, fun hn => absurd hn hsome, ?_, ?_, ?_, harr⟩
    · show s.early ≤ s.failures.consecutiveFailures + (s.move i a .wrong).unrecorded
      have := h.counted
      omega
    · intro t ht
      rcases List.mem_cons.1 ht with rfl | ht
      · exact Nat.le_refl _
      · exact h.past t ht
    · intro hz
      have hz : (s.move i a .wrong).unrecorded = 0 := hz
      omega
    · exact List.pairwise_cons.2 ⟨hspace, h.spaced⟩

theorem saturatingSucc_eq {n : Nat} (h : n < PIN_MAX_ATTEMPTS) : saturatingSucc n = n + 1 := by
  simp only [PIN_MAX_ATTEMPTS] at h
  unfold saturatingSucc
  omega

theorem saturatingSucc_ge {n : Nat} (h : PIN_MAX_ATTEMPTS ≤ n) : PIN_MAX_ATTEMPTS ≤ saturatingSucc n := by
  simp only [PIN_MAX_ATTEMPTS] at h ⊢
  unfold saturatingSucc
  omega

theorem arrived_finished (h : s.Inv) :
    ∀ b ∈ (s.move i a .finished).attempts, ∀ now, b.stage = .arrived now → now ≤ s.clock := by
  intro b hb now hnow
  rcases mem_move hb with hb | hb
  · exact h.arrived b hb now hnow
  · rw [hb] at hnow; cases hnow

theorem Inv.record_success (h : s.Inv) : ((s.move i a .finished).record true).Inv := by
  refine ⟨Nat.zero_le _, Nat.zero_le _, ?_, fun _ => rfl, nofun, fun _ => nofun, .nil, arrived_finished h⟩
  exact ⟨fun _ => Nat.succ_pos _, fun _ => rfl⟩

/-- A recorded failure that reaches the threshold arms a lockout that covers every moment so far. -/
theorem Inv.record_failure (h : s.Inv) (hi : s.attempts[i]? = some a) :
    ((s.move i a .finished).record false).Inv := by
  have hu : s.unrecorded ≤ (s.move i a .finished).unrecorded + 1 := by
    have := unrecorded_move .finished hi
    simp only [reduceCtorEq, if_false] at this
    split at this <;> omega
  have hcount := h.counted
  have hearly := h.early_le
  have hlater : s.early ≤ saturatingSucc s.failures.consecutiveFailures
      + (s.move i a .finished).unrecorded := by
    by_cases hlt : s.failures.consecutiveFailures < PIN_MAX_ATTEMPTS
    · rw [saturatingSucc_eq hlt]; omega
    · have := saturatingSucc_ge (Nat.le_of_not_lt hlt)
      omega
  simp only [Throttle.record, PinFailureState.recordAttempt, Bool.false_eq_true, if_false]
  split
  · next hfirst =>
    obtain ⟨hnone, hge⟩ := hfirst
    have hlate := h.none_late hnone
    have hmarks : ∀ t ∈ s.late ++ [s.clock], t = s.clock := by simp [hlate]
    refine ⟨hlater, hearly, ⟨nofun, fun hlt => absurd hge (Nat.not_le_of_lt hlt)⟩, nofun, ?_, fun _ => ?_, ?_,
      arrived_finished h⟩
    · exact fun t ht => Nat.le_of_eq (hmarks t ht)
    · intro t ht
      rw [hmarks t ht]
      exact .inr ⟨_, if_pos hge, Nat.le_refl _⟩
    · show (s.late ++ [s.clock]).Pairwise _
      rw [hlate]
      exact List.pairwise_singleton _ _
  · next hfirst =>
    refine ⟨hlater, hearly, ?_, h.none_late, h.past, fun _ => ?_, h.spaced, arrived_finished h⟩
    · show s.firstLockout = none ↔ saturatingSucc s.failures.consecutiveFailures < PIN_MAX_ATTEMPTS
      constructor
      · intro hnone
        exact Nat.lt_of_not_le fun hge => hfirst ⟨hnone, hge⟩
      · intro hlt
        exact h.armed.2 (Nat.lt_of_not_le fun hge => absurd (saturatingSucc_ge hge) (Nat.not_le_of_lt hlt))
    · intro t ht
      have hsome : s.firstLockout ≠ none := by
        intro hnone
        have : s.marks = [] := by rw [marks, hnone, h.none_late hnone]; rfl
        exact absurd (this ▸ ht) List.not_mem_nil
      have hge : PIN_MAX_ATTEMPTS ≤ s.failures.consecutiveFailures :=
        Nat.le_of_not_lt fun hlt => hsome (h.armed.2 hlt)
      exact .inr ⟨_, if_pos (saturatingSucc_ge hge), Nat.add_le_add_right (h.past t ht) _⟩

/-! ## Attempts that overlap only below the threshold -/

/-- One attempt is in flight, or all of them stay below the threshold also if every PIN is wrong. -/
structure Apart (s : Throttle) : Prop where
  few : s.inFlight ≤ 1 ∨ s.failures.consecutiveFailures + s.inFlight ≤ PIN_MAX_ATTEMPTS
  /-- From the threshold on an attempt is only let through once the lockout is over. -/
  free : PIN_MAX_ATTEMPTS ≤ s.failures.consecutiveFailures → 0 < s.inFlight → s.failures.lockedUntil = none

/-- An attempt whose PIN is still to be validated is in flight and not one of the wrong PINs. -/
theorem unrecorded_lt_inFlight (hi : s.attempts[i]? = some a) (ha : a.stage = .passed) :
    s.unrecorded < s.inFlight := by
  have hle : (s.move i a .wrong).unrecorded ≤ (s.move i a .wrong).inFlight := by
    refine List.countP_mono_left fun b _ hb => ?_
    rw [of_decide_eq_true hb]; rfl
  have hu := unrecorded_move .wrong hi
  have hf := inFlight_move .wrong hi
  simp only [ha, reduceCtorEq, AttemptStage.inFlight, if_true, if_false] at hu hf
  omega

theorem Apart.stillOpen (h : s.Apart) (hi : s.attempts[i]? = some a) (ha : a.stage = .passed) : s.StillOpen := by
  have hlt := unrecorded_lt_inFlight hi ha
  rcases h.few with hone | hfew
  · by_cases hmax : PIN_MAX_ATTEMPTS ≤ s.failures.consecutiveFailures
    · have hnone := h.free hmax (Nat.zero_lt_of_lt hlt)
      refine .inr ⟨by omega, ?_⟩
      simp only [PinFailureState.lockoutRemaining, hnone]
    · exact .inl (by omega)
  · exact .inl (by omega)

/-- Steps that let no attempt through and record nothing. -/
theorem Apart.mono (h : s.Apart) (hf : s'.failures = s.failures) (hn : s'.inFlight ≤ s.inFlight) : s'.Apart := by
  refine ⟨?_, fun hmax hpos => ?_⟩
  · rw [hf]
    exact h.few.imp (Nat.le_trans hn) fun hfew => Nat.le_trans (Nat.add_le_add_left hn _) hfew
  · rw [hf] at hmax ⊢
    exact h.free hmax (Nat.lt_of_lt_of_le hpos hn)

theorem Apart.move (h : s.Apart) (hi : s.attempts[i]? = some a) (hs : stage.inFlight → a.stage.inFlight) :
    (s.move i a stage).Apart := by
  refine h.mono rfl ?_
  have := inFlight_move stage hi
  split at this <;> split at this <;> first | omega | exact absurd (hs ‹_›) ‹_›

theorem Apart.noteWrong (h : s.Apart) : s.noteWrong.Apart := by
  unfold Throttle.noteWrong
  split
  · exact h.mono rfl (Nat.le_refl _)
  · exact h.mono rfl (Nat.le_refl _)

/-- The check that lets an attempt through leaves no lockout behind. -/
theorem lockedUntil_of_lockoutRemaining {st : PinFailureState} {now : Nat}
    (h : (st.lockoutRemaining now).1 = none) : (st.lockoutRemaining now).2.lockedUntil = none := by
  revert h
  unfold PinFailureState.lockoutRemaining
  split
  · split
    · exact nofun
    · exact fun _ => rfl
  · exact fun _ => ‹_›

theorem Apart.check (h : s.Apart) (hc : s.ChecksApart (.check i)) (hi : s.attempts[i]? = some a) {now : Nat}
    (ha : a.stage = .arrived now) :
    ((s.check now).2.move i a (if (s.check now).1.isSome then .finished else .passed)).Apart := by
  have hf := lockoutRemaining_failures s.failures now
  have hi' : (s.check now).2.attempts[i]? = some a := hi
  have hsame : (s.check now).2.inFlight = s.inFlight := rfl
  by_cases hwait : (s.check now).1.isSome
  · -- refused: the lockout is armed and stays
    rw [if_pos hwait]
    have hfail : (s.check now).2.failures = s.failures := by
      revert hwait
      simp only [Throttle.check, PinFailureState.lockoutRemaining]
      split
      · split <;> simp
      · simp
    exact (h.mono hfail (Nat.le_of_eq hsame)).move hi' nofun
  · rw [if_neg hwait]
    have hnone := lockedUntil_of_lockoutRemaining (Option.not_isSome_iff_eq_none.1 hwait)
    have hmove := inFlight_move .passed hi'
    simp only [ha, AttemptStage.inFlight, if_true, Bool.false_eq_true, if_false, hsame] at hmove
    refine ⟨?_, fun _ _ => hnone⟩
    show _ ∨ (s.failures.lockoutRemaining now).2.consecutiveFailures + _ ≤ _
    rw [hf]
    rcases hc with hc | hc <;> omega

theorem record_failures (s : Throttle) (success : Bool) :
    (s.record success).failures = (s.failures.recordAttempt s.clock success).2 := by
  simp only [Throttle.record]
  split
  · rfl
  · split <;> rfl

theorem record_inFlight (s : Throttle) (success : Bool) : (s.record success).inFlight = s.inFlight := by
  simp only [Throttle.record]
  split
  · rfl
  · split <;> rfl

theorem inFlight_of_records {success : Bool} (h : records a success) : a.stage.inFlight := by
  unfold records at h
  split at h <;> first | (rw [‹a.stage = _›]; rfl) | cases h

/-- The failure that reaches the threshold is recorded with no other attempt in flight. -/
theorem Apart.record (h : s.Apart) (hi : s.attempts[i]? = some a) (ha : a.stage.inFlight) (success : Bool) :
    ((s.move i a .finished).record success).Apart := by
  have hmove : (s.move i a .finished).inFlight + 1 = s.inFlight := by
    have := inFlight_move .finished hi
    rwa [if_pos ha] at this
  cases success with
  | true =>
    constructor
    · rw [record_inFlight, record_failures]
      refine h.few.imp (by omega) fun hfew => ?_
      show 0 + _ ≤ _
      omega
    · exact fun hmax => absurd hmax (Nat.not_succ_le_zero 4)
  | false =>
    have hsucc : (s.move i a .finished).inFlight ≠ 0 →
      s.failures.consecutiveFailures + s.inFlight ≤ PIN_MAX_ATTEMPTS ∧
        saturatingSucc s.failures.consecutiveFailures = s.failures.consecutiveFailures + 1 := by
      intro hne
      have hfew := h.few.resolve_left (by omega)
      exact ⟨hfew, saturatingSucc_eq (by omega)⟩
    constructor
    · rw [record_inFlight, record_failures]
      show _ ∨ saturatingSucc s.failures.consecutiveFailures + _ ≤ _
      by_cases hzero : (s.move i a .finished).inFlight = 0
      · exact .inl (by omega)
      · obtain ⟨hfew, heq⟩ := hsucc hzero
        exact .inr (by omega)
    · rw [record_inFlight, record_failures]
      intro hmax hpos
      have hmax : PIN_MAX_ATTEMPTS ≤ saturatingSucc s.failures.consecutiveFailures := hmax
      obtain ⟨hfew, heq⟩ := hsucc (Nat.ne_of_gt hpos)
      omega

theorem Apart.step (h : s.Apart) {act : Action} (hc : s.ChecksApart act) (hs : s.step act = some s') :
    s'.Apart := by
  cases act with
  | tick ms => obtain rfl := Option.some.inj hs; exact h.mono rfl (Nat.le_refl _)
  | start channel =>
    simp only [Throttle.step] at hs
    split at hs
    · cases hs
    · obtain rfl := Option.some.inj hs
      refine h.mono rfl (Nat.le_of_eq ?_)
      simp [inFlight, List.countP_append, AttemptStage.inFlight]
  | readClock i =>
    obtain ⟨a, hi, hs⟩ := Option.bind_eq_some_iff.1 hs
    obtain ⟨-, ⟨⟩⟩ := Option.ite_none_right_eq_some.1 hs
    exact h.move hi nofun
  | check i =>
    obtain ⟨a, hi, hs⟩ := Option.bind_eq_some_iff.1 hs
    split at hs
    · next now ha =>
      obtain rfl := Option.some.inj hs
      exact h.check hc hi ha
    · cases hs
  | validate i right =>
    obtain ⟨a, hi, hs⟩ := Option.bind_eq_some_iff.1 hs
    obtain ⟨ha, ⟨⟩⟩ := Option.ite_none_right_eq_some.1 hs
    have hin : a.stage.inFlight := by rw [ha]; rfl
    cases right with
    | true => exact h.move hi fun _ => hin
    | false =>
      have hmove : (s.move i a .wrong).Apart := h.move hi fun _ => hin
      exact hmove.noteWrong
  | noPin i =>
    obtain ⟨a, hi, hs⟩ := Option.bind_eq_some_iff.1 hs
    obtain ⟨⟨ha, -⟩, ⟨⟩⟩ := Option.ite_none_right_eq_some.1 hs
    exact h.move hi fun _ => by rw [ha]; rfl
  | record i success =>
    obtain ⟨a, hi, hs⟩ := Option.bind_eq_some_iff.1 hs
    obtain ⟨ha, ⟨⟩⟩ := Option.ite_none_right_eq_some.1 hs
    exact h.record hi (inFlight_of_records ha) success
  | abandon i =>
    obtain ⟨a, hi, hs⟩ := Option.bind_eq_some_iff.1 hs
    obtain ⟨-, ⟨⟩⟩ := Option.ite_none_right_eq_some.1 hs
    exact h.move hi nofun

/-! ## A run -/

theorem Inv.step (h : s.Inv) (hp : s.Apart) {act : Action} (hs : s.step act = some s') : s'.Inv := by
  cases act with
  | tick ms => obtain rfl := Option.some.inj hs; exact h.tick ms
  | start channel =>
    simp only [Throttle.step] at hs
    split at hs
    · cases hs
    · obtain rfl := Option.some.inj hs; exact h.start channel
  | readClock i =>
    obtain ⟨a, hi, hs⟩ := Option.bind_eq_some_iff.1 hs
    obtain ⟨ha, ⟨⟩⟩ := Option.ite_none_right_eq_some.1 hs
    refine h.move hi (by rw [ha]; exact nofun) nofun ?_
    rintro now ⟨⟩
    exact Nat.le_refl _
  | check i =>
    obtain ⟨a, hi, hs⟩ := Option.bind_eq_some_iff.1 hs
    split at hs
    · next now ha =>
      obtain rfl := Option.some.inj hs
      have hn := h.arrived a (List.mem_of_getElem? hi) now ha
      refine (h.check hn).move hi (by rw [ha]; exact nofun) ?_ ?_ <;> split <;> exact nofun
    · cases hs
  | validate i right =>
    obtain ⟨a, hi, hs⟩ := Option.bind_eq_some_iff.1 hs
    obtain ⟨ha, ⟨⟩⟩ := Option.ite_none_right_eq_some.1 hs
    cases right with
    | true => exact h.move hi (by rw [ha]; exact nofun) nofun nofun
    | false => exact h.noteWrong hi ha (hp.stillOpen hi ha)
  | noPin i =>
    obtain ⟨a, hi, hs⟩ := Option.bind_eq_some_iff.1 hs
    obtain ⟨⟨ha, -⟩, ⟨⟩⟩ := Option.ite_none_right_eq_some.1 hs
    exact h.move hi (by rw [ha]; exact nofun) nofun nofun
  | record i success =>
    obtain ⟨a, hi, hs⟩ := Option.bind_eq_some_iff.1 hs
    obtain ⟨-, ⟨⟩⟩ := Option.ite_none_right_eq_some.1 hs
    cases success with
    | true => exact h.record_success
    | false => exact h.record_failure hi
  | abandon i =>
    obtain ⟨a, hi, hs⟩ := Option.bind_eq_some_iff.1 hs
    obtain ⟨⟨ha, -⟩, ⟨⟩⟩ := Option.ite_none_right_eq_some.1 hs
    have hw : a.stage ≠ .wrong := by rcases ha with ha | ha <;> rw [ha] <;> exact nofun
    exact h.move hi hw nofun nofun

theorem inv_start (clock : Nat) : Inv { clock } :=
  ⟨Nat.le_refl _, Nat.zero_le _, ⟨fun _ => Nat.succ_pos _, fun _ => rfl⟩, fun _ => rfl, nofun, fun _ => nofun,
    .nil, nofun⟩

theorem apart_start (clock : Nat) : Apart { clock } :=
  ⟨.inl (Nat.zero_le _), fun _ h => absurd h (Nat.lt_irrefl _)⟩

/-- While attempts overlap only below the threshold, at most `PIN_MAX_ATTEMPTS` wrong PINs are validated
before the first lockout, and each later one comes at least `PIN_LOCKOUT` after the lockout and after the
wrong PINs before it. -/
theorem pin_guesses_bounded {clock : Nat} {s : Throttle} (h : Reach step ChecksApart { clock } s) :
    s.early ≤ PIN_MAX_ATTEMPTS ∧
      s.marks.Pairwise fun later earlier => earlier + PIN_LOCKOUT ≤ later := by
  have hinv : s.Inv ∧ s.Apart := h.invariant (I := fun s => s.Inv ∧ s.Apart)
    ⟨inv_start clock, apart_start clock⟩ fun _ _ _ hi hc hs => ⟨hi.1.step hi.2 hs, hi.2.step hc hs⟩
  exact ⟨hinv.1.early_le, hinv.1.spaced⟩

/-- The steps of attempt `i` with a PIN that is wrong or right. -/
def oneAttempt (i : Nat) (right : Bool) : List Action :=
  [.start .dialog, .readClock i, .check i, .validate i right, .record i right]

/-- Five wrong PINs, the first two side by side, the next attempt refused, and a sixth wrong PIN after the
lockout. -/
def patient : List Action :=
  [.start .dialog, .start .dialog, .readClock 0, .readClock 1, .check 0, .check 1, .validate 0 false,
    .validate 1 false, .record 1 false, .record 0 false] ++ ([2, 3, 4].flatMap fun i => oneAttempt i false)
    ++ [.start .control, .readClock 5, .check 5, .tick PIN_LOCKOUT] ++ oneAttempt 6 false

theorem pin_guesses_bounded_patient :
    ∃ s, Reach step ChecksApart { clock := 0 } s ∧ s.early = 5 ∧ s.marks = [30000, 0] ∧
      s.early ≤ PIN_MAX_ATTEMPTS ∧
      s.marks.Pairwise fun later earlier => earlier + PIN_LOCKOUT ≤ later := by
  have h : (Reach.replay step ChecksApart { clock := 0 } patient).isSome := by decide
  have hr := Reach.of_replay_isSome h
  exact ⟨_, hr, rfl, rfl, pin_guesses_bounded hr⟩

/-- Six dialogs that pass the check before the first of them validates a PIN. -/
def together : List Action :=
  ((List.range 6).flatMap fun i => [.start .dialog, .readClock i, .check i])
    ++ (List.range 6).map fun i => .validate i false

/-- No lockout is armed and six wrong PINs are validated. -/
theorem six_guesses_together :
    ∃ s, Reach step (fun _ _ => True) { clock := 0 } s ∧ s.firstLockout = none ∧
      s.early = PIN_MAX_ATTEMPTS + 1 := by
  have h : (Reach.replay step (fun _ _ => True) { clock := 0 } together).isSome := by decide
  exact ⟨_, .of_replay_isSome h, rfl, rfl⟩

end Throttle

end SshWarden
