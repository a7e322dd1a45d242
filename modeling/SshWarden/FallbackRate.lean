import SshWarden.Reconnect

/-!
# The rate of fallback syncs

A lost connection and a failed attempt late in a row both ask for a sync, throttled by one time that they
share. A client's loop is kept here with the times at which it has asked; the clock is read twice where it
asks, once to see whether a sync is due and once for the time it keeps.
-/

namespace SshWarden

/-- A client's loop and the times of its requests, newest first. -/
structure TimedLoop where
  loop : MessageLoop
  requests : List Nat := []
deriving DecidableEq

namespace TimedLoop

def start (clock : Nat) (eager : Bool) : TimedLoop := { loop := .start clock eager }

/-- The step has sent a `FallbackSyncDue`. -/
def requested (s s' : MessageLoop) : Bool :=
  (s'.log.take (s'.log.length - s.log.length)).any fun e => e = .sent .fallbackSyncDue

/-- An action of the loop, and the time between the two readings of the clock where it asks for a sync. -/
abbrev Action : Type := MessageLoop.Action × Nat

def step (options : NotificationOptions) (x : TimedLoop) (act : Action) : Option TimedLoop :=
  (x.loop.step options act.1).map fun loop =>
    if requested x.loop loop then
      { loop := { loop with clock := loop.clock + act.2, lastFallbackSent := some (loop.clock + act.2) }
        requests := (loop.clock + act.2) :: x.requests }
    else { x with loop }

/-- A lost connection, or a failed attempt that reaches the threshold. -/
def IsOccasion (options : NotificationOptions) (s' : MessageLoop) : MessageLoop.Action → Prop
  | .lost _ | .idle => True
  | .attempt (some _) => options.reconnectAttemptsBeforeFallback ≤ s'.consecutiveFailures
  | _ => False

variable {options : NotificationOptions} {s s' : MessageLoop} {x x' : TimedLoop}

def isDue (options : NotificationOptions) (s : MessageLoop) : Bool :=
  recoverySyncDue s.clock s.lastFallbackSent options.fallbackSyncInterval

/-- The step asks for a sync if one is due. -/
structure Emits (options : NotificationOptions) (s s' : MessageLoop) : Prop where
  requested : requested s s' = isDue options s
  clock : s'.clock = s.clock
  last : s'.lastFallbackSent = if isDue options s then some s.clock else s.lastFallbackSent

structure Silent (s s' : MessageLoop) : Prop where
  requested : requested s s' = false
  clock : s.clock ≤ s'.clock
  last : s'.lastFallbackSent = s.lastFallbackSent

theorem requested_append (new : List LogEntry) (h : s'.log = new ++ s.log) :
    requested s s' = new.any fun e => e = .sent .fallbackSyncDue := by
  rw [requested, h, List.length_append, Nat.add_sub_cancel, List.take_left]

theorem emits_emitRecoverySync (options : NotificationOptions) (s : MessageLoop) :
    Emits options s (s.emitRecoverySync options) ∧ ∃ new, (s.emitRecoverySync options).log = new ++ s.log ∧
      (new.any fun e => e = .sent .fallbackSyncDue) = isDue options s := by
  unfold MessageLoop.emitRecoverySync
  split
  · next hdue =>
    have hdue' : isDue options s = true := hdue
    have hnew : requested s (s.send .fallbackSyncDue) = true := requested_append [.sent .fallbackSyncDue] rfl
    refine ⟨⟨hnew.trans hdue'.symm, rfl, ?_⟩, [.sent .fallbackSyncDue], rfl, hdue'.symm⟩
    rw [hdue']
    rfl
  · next hdue =>
    have hdue' : isDue options s = false := Bool.eq_false_iff.2 hdue
    refine ⟨⟨(requested_append [] rfl).trans hdue'.symm, rfl, ?_⟩, [], rfl, hdue'.symm⟩
    rw [hdue']
    rfl

theorem emits_connectionLost (options : NotificationOptions) (s : MessageLoop) (reason : String) :
    Emits options s (s.connectionLost options reason) := by
  obtain ⟨he, new, hlog, hnew⟩ := emits_emitRecoverySync options s
  have hlog' : (s.connectionLost options reason).log =
      (.sent (.connectionStatus ((s.emitRecoverySync options).degraded reason)) :: new) ++ s.log :=
        congrArg (_ :: ·) hlog
  exact ⟨(requested_append _ hlog').trans hnew, he.clock, he.last⟩

/-- The loop after a failed attempt was counted and published. -/
def counted (s : MessageLoop) (error : String) : MessageLoop :=
  let s := { s with
    consecutiveFailures := saturatingSucc s.consecutiveFailures
    totalFailures := saturatingSucc s.totalFailures }
  s.send (.connectionStatus (s.degraded error))

theorem attemptFailed_eq (options : NotificationOptions) (s : MessageLoop) (error : String) :
    s.attemptFailed options error = ((counted s error).maybeEmitFallbackSync options).waitBeforeReconnect := rfl

theorem attemptFailed_cases (options : NotificationOptions) (s : MessageLoop) (error : String) :
    let s' := s.attemptFailed options error
    (options.reconnectAttemptsBeforeFallback ≤ s'.consecutiveFailures ∧ Emits options s s') ∨
      (s'.consecutiveFailures < options.reconnectAttemptsBeforeFallback ∧ Silent s s') := by
  have hlog : (counted s error).log =
      [.sent (.connectionStatus (MessageLoop.degraded
        { s with
          consecutiveFailures := saturatingSucc s.consecutiveFailures
          totalFailures := saturatingSucc s.totalFailures } error))] ++ s.log := rfl
  dsimp only
  rw [attemptFailed_eq]
  unfold MessageLoop.maybeEmitFallbackSync
  split
  · next hfew => exact .inr ⟨hfew, requested_append _ hlog, Nat.le_refl _, rfl⟩
  · next hmany =>
    obtain ⟨he, new, hlog', hnew⟩ := emits_emitRecoverySync options (counted s error)
    have hcount : ((counted s error).emitRecoverySync options).consecutiveFailures =
        (counted s error).consecutiveFailures := by
      unfold MessageLoop.emitRecoverySync
      split <;> rfl
    rw [hlog, ← List.append_assoc] at hlog'
    refine .inl ⟨(Nat.le_of_not_lt hmany).trans_eq hcount.symm, ?_, he.clock, he.last⟩
    refine (requested_append _ hlog').trans ?_
    rw [List.any_append, hnew]
    exact Bool.or_false _

theorem ne_fallback_of_message {updateType : Option Nat} {event : SyncEvent}
    (h : updateType.bind updateTypeEvent = some event) : event ≠ .fallbackSyncDue := by
  obtain ⟨n, -, h⟩ := Option.bind_eq_some_iff.1 h
  rintro rfl
  unfold updateTypeEvent at h
  split_ifs at h <;> cases h

theorem step_cases {a : MessageLoop.Action} (hs : s.step options a = some s') :
    (IsOccasion options s' a ∧ Emits options s s') ∨ (¬IsOccasion options s' a ∧ Silent s s') := by
  cases a with
  | tick ms =>
    obtain rfl := Option.some.inj hs
    exact .inr ⟨id, requested_append [] rfl, Nat.le_add_right _ _, rfl⟩
  | publish =>
    simp only [MessageLoop.step] at hs
    split at hs
    · obtain rfl := Option.some.inj hs
      exact .inr ⟨id, requested_append [] rfl, Nat.le_refl _, rfl⟩
    · obtain rfl := Option.some.inj hs
      exact .inr ⟨id, requested_append [.missed] rfl, Nat.le_refl _, rfl⟩
  | attempt error =>
    obtain ⟨-, hs⟩ := Option.ite_none_right_eq_some.1 hs
    cases error with
    | none =>
      obtain rfl := Option.some.inj hs
      exact .inr ⟨id, requested_append [.sent (.connectionStatus _)] rfl, Nat.le_refl _, rfl⟩
    | some error =>
      obtain rfl := Option.some.inj hs
      exact (attemptFailed_cases options s error).imp_right (And.imp_left Nat.not_le.2)
  | badUrl error =>
    obtain ⟨-, ⟨⟩⟩ := Option.ite_none_right_eq_some.1 hs
    exact .inr ⟨id, requested_append [.sent (.connectionStatus _)] rfl, Nat.le_refl _, rfl⟩
  | message updateType =>
    simp only [MessageLoop.step] at hs
    split at hs
    · split at hs
      · next event hevent =>
        obtain rfl := Option.some.inj hs
        refine .inr ⟨id, (requested_append [.sent event] rfl).trans ?_, Nat.le_refl _, rfl⟩
        simp [ne_fallback_of_message hevent]
      · obtain rfl := Option.some.inj hs
        exact .inr ⟨id, requested_append [] rfl, Nat.le_refl _, rfl⟩
    · cases hs
  | traffic =>
    simp only [MessageLoop.step] at hs
    split at hs
    · obtain rfl := Option.some.inj hs
      exact .inr ⟨id, requested_append [] rfl, Nat.le_refl _, rfl⟩
    · cases hs
  | lost reason =>
    simp only [MessageLoop.step] at hs
    split at hs
    · obtain rfl := Option.some.inj hs
      exact .inl ⟨trivial, emits_connectionLost options s reason⟩
    · cases hs
  | idle =>
    simp only [MessageLoop.step] at hs
    split at hs
    · obtain ⟨-, ⟨⟩⟩ := Option.ite_none_right_eq_some.1 hs
      exact .inl ⟨trivial, emits_connectionLost options s _⟩
    · cases hs
  | wake =>
    simp only [MessageLoop.step] at hs
    split at hs
    · obtain ⟨-, ⟨⟩⟩ := Option.ite_none_right_eq_some.1 hs
      exact .inr ⟨id, requested_append [] rfl, Nat.le_refl _, rfl⟩
    · cases hs
  | cancel =>
    obtain ⟨-, ⟨⟩⟩ := Option.ite_none_left_eq_some.1 hs
    exact .inr ⟨id, requested_append [.sent (.connectionStatus _)] rfl, Nat.le_refl _, rfl⟩

/-! ### The throttle -/

/-- The last request is the one the loop remembers, and the requests are spaced. -/
structure Throttled (options : NotificationOptions) (x : TimedLoop) : Prop where
  last : x.loop.lastFallbackSent = x.requests.head?
  past : ∀ t ∈ x.requests, t ≤ x.loop.clock
  spaced : x.requests.Pairwise fun later earlier => earlier + options.fallbackSyncInterval ≤ later
  disabled : options.fallbackSyncInterval = 0 → x.requests = []

/-- With the remembered request, a request is due when the interval has passed since the newest one. -/
theorem Throttled.due_iff (h : Throttled options x) : isDue options x.loop = true ↔
    options.fallbackSyncInterval ≠ 0 ∧
      ∀ last, x.requests.head? = some last → last + options.fallbackSyncInterval ≤ x.loop.clock := by
  unfold isDue recoverySyncDue
  rw [h.last]
  by_cases hzero : options.fallbackSyncInterval = 0
  · simp [hzero]
  · rw [if_neg hzero]
    cases hlast : x.requests.head? with
    | none => simp [hzero]
    | some last =>
      have hpast := h.past last (List.mem_of_head? hlast)
      simp only [decide_eq_true_eq, Option.some.injEq, forall_eq']
      omega

/-- Where the interval has passed since the newest request, it has since all of them. -/
theorem Throttled.passed (h : Throttled options x)
    (hlast : ∀ last, x.requests.head? = some last → last + options.fallbackSyncInterval ≤ x.loop.clock) :
    ∀ t ∈ x.requests, t + options.fallbackSyncInterval ≤ x.loop.clock := by
  have hspaced := h.spaced
  cases hrequests : x.requests with
  | nil => exact fun t ht => absurd ht List.not_mem_nil
  | cons last earlier =>
    rw [hrequests] at hlast hspaced
    have hpassed := hlast last rfl
    refine List.forall_mem_cons.2 ⟨hpassed, fun t ht => ?_⟩
    have hgap := List.rel_of_pairwise_cons hspaced ht
    omega

theorem Throttled.start (options : NotificationOptions) (clock : Nat) (eager : Bool) :
    Throttled options (start clock eager) where
  last := by cases eager <;> rfl
  past _ h := absurd h List.not_mem_nil
  spaced := List.Pairwise.nil
  disabled _ := rfl

/-- A step adds a request only on an occasion, and then exactly if one is due. -/
theorem step_eq {act : Action} (hs : step options x act = some x') :
    x.loop.clock ≤ x'.loop.clock ∧
      ((isDue options x.loop = true ∧ IsOccasion options x'.loop act.1 ∧
          x'.requests = (x.loop.clock + act.2) :: x.requests ∧
          x'.loop.lastFallbackSent = some (x.loop.clock + act.2) ∧ x.loop.clock + act.2 = x'.loop.clock) ∨
        (¬(isDue options x.loop = true ∧ IsOccasion options x'.loop act.1) ∧ x'.requests = x.requests ∧
          x'.loop.lastFallbackSent = x.loop.lastFallbackSent)) := by
  obtain ⟨loop, hloop, rfl⟩ := Option.map_eq_some_iff.1 hs
  rcases step_cases hloop with ⟨hocc, he⟩ | ⟨hocc, hsilent⟩
  · rw [he.requested]
    split_ifs with hdue
    · rw [he.clock]
      exact ⟨Nat.le_add_right _ _, .inl ⟨hdue, hocc, rfl, rfl, rfl⟩⟩
    · have hlast := he.last
      rw [if_neg hdue] at hlast
      exact ⟨he.clock.ge, .inr ⟨fun h => hdue h.1, rfl, hlast⟩⟩
  · rw [hsilent.requested, if_neg Bool.false_ne_true]
    exact ⟨hsilent.clock, .inr ⟨fun h => hocc h.2, rfl, hsilent.last⟩⟩

theorem Throttled.step (h : Throttled options x) {act : Action} (hs : step options x act = some x') :
    Throttled options x' := by
  obtain ⟨hclock, ⟨hdue, -, hrequests, hlast, hnow⟩ | ⟨-, hrequests, hlast⟩⟩ := step_eq hs
  · obtain ⟨hzero, hpassed⟩ := h.due_iff.1 hdue
    have hpassed := h.passed hpassed
    refine ⟨?_, ?_, ?_, fun h => absurd h hzero⟩
    · rw [hlast, hrequests, List.head?_cons]
    · rw [hrequests]
      exact List.forall_mem_cons.2 ⟨hnow.le, fun t ht => (h.past t ht).trans hclock⟩
    · rw [hrequests]
      exact List.pairwise_cons.2 ⟨fun t ht => (hpassed t ht).trans (Nat.le_add_right _ _), h.spaced⟩
  · refine ⟨?_, ?_, ?_, ?_⟩
    · rw [hlast, hrequests, h.last]
    · rw [hrequests]
      exact fun t ht => (h.past t ht).trans hclock
    · rw [hrequests]
      exact h.spaced
    · rw [hrequests]
      exact h.disabled

/-- A client asks for no sync where the interval is zero and never twice within the interval; and on every
occasion it asks, unless less than the interval has passed since it last did. -/
theorem fallback_rate (options : NotificationOptions) (clock : Nat) (eager : Bool) {x : TimedLoop}
    (h : Reach (step options) (fun _ _ => True) (start clock eager) x) :
    (options.fallbackSyncInterval = 0 → x.requests = []) ∧
      x.requests.Pairwise (fun later earlier => earlier + options.fallbackSyncInterval ≤ later) ∧
      ∀ a lag x', step options x (a, lag) = some x' → IsOccasion options x'.loop a →
        options.fallbackSyncInterval ≠ 0 →
          x'.requests = (x.loop.clock + lag) :: x.requests ∨
            ∃ last, x.requests.head? = some last ∧ x.loop.clock < last + options.fallbackSyncInterval := by
  have hinv : Throttled options x :=
    h.invariant (Throttled.start options clock eager) fun _ _ _ hi _ hs => hi.step hs
  refine ⟨hinv.disabled, hinv.spaced, fun a lag x' hs hocc hzero => ?_⟩
  obtain ⟨-, ⟨-, -, hrequests, -⟩ | ⟨hnot, -⟩⟩ := step_eq hs
  · exact .inl hrequests
  · have hdue : ¬∀ last, x.requests.head? = some last → last + options.fallbackSyncInterval ≤ x.loop.clock :=
      fun hpassed => hnot ⟨hinv.due_iff.2 ⟨hzero, hpassed⟩, hocc⟩
    obtain ⟨last, hlast⟩ := not_forall.1 hdue
    obtain ⟨hhead, hearly⟩ := Classical.not_imp.1 hlast
    exact .inr ⟨last, hhead, Nat.lt_of_not_le hearly⟩

/-- An outage of ten minutes, from a loss on: the third failed attempt in a row comes too soon after the request
for the loss, and the one after five minutes asks again. -/
def longOutage : List Action :=
  [(.lost "hub closed the socket", 0), (.tick 1000, 0), (.wake, 0), (.attempt (some "refused"), 0),
    (.tick 2000, 0), (.wake, 0),
    (.attempt (some "refused"), 0), (.tick 4000, 0), (.wake, 0), (.attempt (some "refused"), 0), (.tick 300000, 0),
    (.wake, 0), (.attempt (some "refused"), 5)]

theorem fallback_rate_outage : ∃ x, Reach (step {}) (fun _ _ => True) (start 0 true) x ∧ x.requests = [307005, 0] ∧
    x.requests.Pairwise (fun later earlier => earlier + 300000 ≤ later) := by
  obtain ⟨x, hx, hrequests⟩ := (Option.any_eq_true _ _).1
    (show (Reach.replay (step {}) (fun _ _ => True) (start 0 true) longOutage).any
      (fun x => decide (x.requests = [307005, 0])) = true by decide)
  exact ⟨x, .of_replay hx, of_decide_eq_true hrequests, (fallback_rate {} 0 true (.of_replay hx)).2.1⟩

/-- With fallback syncs turned off a loss asks for nothing, and no earlier request is the reason. -/
theorem loss_unanswered : ¬∀ (options : NotificationOptions) (clock : Nat) (eager : Bool) (x : TimedLoop),
    Reach (step options) (fun _ _ => True) (start clock eager) x →
      (options.fallbackSyncInterval = 0 → x.requests = []) ∧
      x.requests.Pairwise (fun later earlier => earlier + options.fallbackSyncInterval ≤ later) ∧
      ∀ a lag x', step options x (a, lag) = some x' → IsOccasion options x'.loop a →
        x'.requests = (x.loop.clock + lag) :: x.requests ∨
          ∃ last, x.requests.head? = some last ∧ x.loop.clock < last + options.fallbackSyncInterval := by
  intro h
  have hall := (h { fallbackSyncInterval := 0 } 0 true _ .start).2.2
  rcases hall (.lost "hub closed the socket") 0 _ rfl trivial with hlost | ⟨last, hlast, -⟩
  · cases hlost
  · cases hlast

end TimedLoop

end SshWarden
