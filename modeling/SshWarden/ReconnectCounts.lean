import SshWarden.Reconnect

/-!
# The counters of a status

What the published statuses say next to what has happened: how many connects have succeeded, how many
attempts have failed, and how often the client has waited since the last success. The loop does not count
the eager attempt when it fails, and a status that reports a connection or a stop has no counters of its own
but the connects of the former.
-/

namespace SshWarden

/-- What has happened to a client. The eager attempt is one of the attempts. -/
structure Outcomes where
  eager : Bool
  connects : Nat := 0
  failures : Nat := 0
  failuresSince : Nat := 0
  waits : Nat := 0
deriving DecidableEq, Repr

namespace Outcomes

def connected (t : Outcomes) : Outcomes := { t with connects := t.connects + 1, failuresSince := 0, waits := 0 }

def failed (t : Outcomes) : Outcomes :=
  { t with failures := t.failures + 1, failuresSince := t.failuresSince + 1 }

/-- After the eager attempt. -/
def start (eager : Bool) : Outcomes := if eager then connected { eager } else failed { eager }

def next (t : Outcomes) : MessageLoop.Action → Outcomes
  | .attempt none => t.connected
  | .attempt (some _) => t.failed
  | .wake => { t with waits := t.waits + 1 }
  | _ => t

/-- The failed attempts the loop leaves out. -/
def uncounted (t : Outcomes) : Nat := if t.eager then 0 else 1

end Outcomes

/-- Why a status was published: the creation of the client, its eager connection or a step of its loop. -/
inductive Cause
  | created
  | eager
  | step (a : MessageLoop.Action)
deriving DecidableEq, Repr

/-- A published status, with what had happened by then and what the loop does next. -/
structure Report where
  cause : Cause
  outcomes : Outcomes
  status : NotificationStatus
  phase : LoopPhase
  clock : Nat
deriving DecidableEq, Repr

namespace Report

/-- The status says what has happened, and a degraded one the delay that is waited next. -/
structure Exact (options : NotificationOptions) (r : Report) : Prop where
  connects : r.status.connects = r.outcomes.connects
  consecutiveFailures : r.status.consecutiveFailures = r.outcomes.failuresSince
  totalFailures : r.status.totalFailures = r.outcomes.failures
  nextRetryIn : r.status.state = .degraded → ∃ delay, r.status.nextRetryIn = some delay ∧
    delay = min (1000 * 2 ^ r.outcomes.waits) options.reconnectMaxBackoff ∧ r.phase = .waiting (r.clock + delay)

/-- The counters that the status leaves out are zero: of a connection the failures, of a stop all of them.
Otherwise the eager attempt has succeeded, and no counter has reached the end of its type. -/
def Counted (r : Report) : Prop :=
  match r.cause with
  | .created | .eager => True
  | .step (.attempt none) => r.outcomes.failures = 0 ∧ r.outcomes.connects < 2 ^ 64
  | .step .cancel => r.outcomes.failures = 0 ∧ r.outcomes.connects = 0
  | .step _ => r.outcomes.eager = true ∧ r.outcomes.failures < 2 ^ 32 ∧ r.outcomes.connects < 2 ^ 64

end Report

/-- A client's loop with what has happened to it and all it has published. -/
structure CountedLoop where
  loop : MessageLoop
  outcomes : Outcomes
  reports : List Report
deriving DecidableEq, Repr

def LogEntry.status? : LogEntry → Option NotificationStatus
  | .sent (.connectionStatus status) => some status
  | _ => none

/-- The statuses that a step has published. -/
def newStatuses (s s' : MessageLoop) : List NotificationStatus :=
  (s'.log.take (s'.log.length - s.log.length)).reverse.filterMap LogEntry.status?

namespace CountedLoop

/-- A new client: `Connecting` is published before the eager attempt. -/
def start (clock : Nat) (eager : Bool) : CountedLoop :=
  let loop := MessageLoop.start clock eager
  { loop
    outcomes := .start eager
    reports := ⟨.created, { eager }, { state := .connecting }, .connecting, clock⟩ ::
      (loop.log.reverse.filterMap LogEntry.status?).map fun status =>
        ⟨.eager, .start eager, status, loop.phase, clock⟩ }

def step (options : NotificationOptions) (x : CountedLoop) (a : MessageLoop.Action) : Option CountedLoop :=
  (x.loop.step options a).map fun loop =>
    { loop
      outcomes := x.outcomes.next a
      reports := x.reports ++ (newStatuses x.loop loop).map fun status =>
        ⟨.step a, x.outcomes.next a, status, loop.phase, loop.clock⟩ }

/-- `build_ws_url` succeeds on every input. -/
def Possible (_ : CountedLoop) : MessageLoop.Action → Prop
  | .badUrl _ => False
  | _ => True

instance (x : CountedLoop) (a : MessageLoop.Action) : Decidable (Possible x a) := by
  unfold Possible; split <;> infer_instance

/-- The counters of the loop next to what has happened. -/
structure Tracks (options : NotificationOptions) (s : MessageLoop) (t : Outcomes) : Prop where
  connects : s.connects = min t.connects (2 ^ 64 - 1)
  totalFailures : s.totalFailures = min (t.failures - t.uncounted) (2 ^ 32 - 1)
  consecutiveFailures : s.consecutiveFailures =
    min (t.failuresSince - if t.connects = 0 then t.uncounted else 0) (2 ^ 32 - 1)
  backoff : s.backoff = min (1000 * 2 ^ t.waits) options.reconnectMaxBackoff
  since_le : t.failuresSince ≤ t.failures
  accepted : t.eager = true → 0 < t.connects
  refused : t.eager = false → 0 < t.failures ∧ (t.connects = 0 → 0 < t.failuresSince)

variable {options : NotificationOptions} {s s' : MessageLoop} {t : Outcomes} {x x' : CountedLoop}

theorem tracks_start (hmax : 1000 ≤ options.reconnectMaxBackoff) (clock : Nat) (eager : Bool) :
    Tracks options (.start clock eager) (.start eager) := by
  have hbackoff : min 1000 options.reconnectMaxBackoff = 1000 := Nat.min_eq_left hmax
  cases eager with
  | true => constructor <;> simp [MessageLoop.start, MessageLoop.send, Outcomes.start, Outcomes.connected,
      Outcomes.uncounted, hbackoff]
  | false =>
    constructor <;> simp [MessageLoop.start, Outcomes.start, Outcomes.failed, Outcomes.uncounted, hbackoff]

structure SameCounts (s s' : MessageLoop) : Prop where
  connects : s'.connects = s.connects
  totalFailures : s'.totalFailures = s.totalFailures
  consecutiveFailures : s'.consecutiveFailures = s.consecutiveFailures
  backoff : s'.backoff = s.backoff

/-- The steps by what they publish and count. -/
inductive Effect (options : NotificationOptions) (s s' : MessageLoop) : MessageLoop.Action → Prop
  | quiet {a : MessageLoop.Action} (hnew : newStatuses s s' = []) (hsame : SameCounts s s')
      (ha : ∀ t : Outcomes, t.next a = t) : Effect options s s' a
  | waited (hnew : newStatuses s s' = []) (hsame : SameCounts { s with backoff := s'.backoff } s')
      (hbackoff : s'.backoff = min (s.backoff * 2) options.reconnectMaxBackoff) : Effect options s s' .wake
  | connected (hnew : newStatuses s s' = [{ state := .connected, connects := s'.connects }])
      (hconnects : s'.connects = min (s.connects + 1) (2 ^ 64 - 1)) (htotal : s'.totalFailures = s.totalFailures)
      (hconsecutive : s'.consecutiveFailures = 0) (hbackoff : s'.backoff = 1000) :
      Effect options s s' (.attempt none)
  | failed {error : String} (hnew : newStatuses s s' = [s'.degraded error])
      (hphase : s'.phase = .waiting (s'.clock + s'.backoff)) (hconnects : s'.connects = s.connects)
      (htotal : s'.totalFailures = saturatingSucc s.totalFailures)
      (hconsecutive : s'.consecutiveFailures = saturatingSucc s.consecutiveFailures)
      (hbackoff : s'.backoff = s.backoff) : Effect options s s' (.attempt (some error))
  | lost {a : MessageLoop.Action} {reason : String} (hnew : newStatuses s s' = [s'.degraded reason])
      (hphase : s'.phase = .waiting (s'.clock + s'.backoff)) (hsame : SameCounts s s')
      (ha : (∃ r, a = .lost r) ∨ a = .idle) : Effect options s s' a
  | stopped (hnew : newStatuses s s' = [{ state := .stopped }]) (hsame : SameCounts s s') :
      Effect options s s' .cancel

theorem newStatuses_append (new : List LogEntry) (h : s'.log = new ++ s.log) :
    newStatuses s s' = new.reverse.filterMap LogEntry.status? := by
  rw [newStatuses, h, List.length_append, Nat.add_sub_cancel, List.take_left]

/-- The recovery sync that may be asked for on the way. -/
theorem emitRecoverySync_log (options : NotificationOptions) (s : MessageLoop) :
    (∃ new : List LogEntry, (s.emitRecoverySync options).log = new ++ s.log ∧
      new.filterMap LogEntry.status? = []) ∧ SameCounts s (s.emitRecoverySync options) := by
  unfold MessageLoop.emitRecoverySync
  split
  · exact ⟨⟨[.sent .fallbackSyncDue], rfl, rfl⟩, rfl, rfl, rfl, rfl⟩
  · exact ⟨⟨[], rfl, rfl⟩, rfl, rfl, rfl, rfl⟩

theorem maybeEmitFallbackSync_log (options : NotificationOptions) (s : MessageLoop) :
    (∃ new : List LogEntry, (s.maybeEmitFallbackSync options).log = new ++ s.log ∧
      new.filterMap LogEntry.status? = []) ∧ SameCounts s (s.maybeEmitFallbackSync options) := by
  unfold MessageLoop.maybeEmitFallbackSync
  split
  · exact ⟨⟨[], rfl, rfl⟩, rfl, rfl, rfl, rfl⟩
  · exact emitRecoverySync_log options s

theorem SameCounts.degraded_eq (h : SameCounts s s') (error : String) : s'.degraded error = s.degraded error := by
  simp only [MessageLoop.degraded, h.connects, h.totalFailures, h.consecutiveFailures, h.backoff]

theorem effect_connectionLost {a : MessageLoop.Action} (reason : String) (ha : (∃ r, a = .lost r) ∨ a = .idle) :
    Effect options s (s.connectionLost options reason) a := by
  obtain ⟨⟨new, hlog, hnew⟩, hsame⟩ := emitRecoverySync_log options s
  have hlog' : (s.connectionLost options reason).log
      = (.sent (.connectionStatus ((s.emitRecoverySync options).degraded reason)) :: new) ++ s.log :=
    congrArg (_ :: ·) hlog
  have hstatuses : newStatuses s (s.connectionLost options reason)
      = [(s.connectionLost options reason).degraded reason] := by
    rw [newStatuses_append _ hlog', List.filterMap_reverse, List.filterMap_cons, hnew]
    rfl
  exact .lost hstatuses rfl ⟨hsame.connects, hsame.totalFailures, hsame.consecutiveFailures, hsame.backoff⟩ ha

/-- The counters of a failed attempt. -/
def counting (s : MessageLoop) : MessageLoop :=
  { s with
    consecutiveFailures := saturatingSucc s.consecutiveFailures, totalFailures := saturatingSucc s.totalFailures }

theorem effect_attemptFailed (error : String) :
    Effect options s (s.attemptFailed options error) (.attempt (some error)) := by
  obtain ⟨⟨new, hlog, hnew⟩, hsame⟩ := maybeEmitFallbackSync_log options
    ((counting s).send (.connectionStatus ((counting s).degraded error)))
  have hcounts : SameCounts (counting s) (s.attemptFailed options error) :=
    ⟨hsame.connects, hsame.totalFailures, hsame.consecutiveFailures, hsame.backoff⟩
  have hlog' : (s.attemptFailed options error).log
      = (new ++ [.sent (.connectionStatus ((counting s).degraded error))]) ++ s.log := by
    rw [List.append_assoc]
    exact hlog
  have hstatuses : newStatuses s (s.attemptFailed options error)
      = [(s.attemptFailed options error).degraded error] := by
    rw [newStatuses_append _ hlog', List.filterMap_reverse, List.filterMap_append, hnew, hcounts.degraded_eq]
    rfl
  exact .failed hstatuses rfl hcounts.connects hcounts.totalFailures hcounts.consecutiveFailures hcounts.backoff

theorem status?_of_message {updateType : Option Nat} {event : SyncEvent}
    (h : updateType.bind updateTypeEvent = some event) : LogEntry.status? (.sent event) = none := by
  obtain ⟨u, -, h⟩ := Option.bind_eq_some_iff.1 h
  unfold updateTypeEvent at h
  split at h
  · obtain rfl := Option.some.inj h; rfl
  · split at h
    · obtain rfl := Option.some.inj h; rfl
    · cases h

theorem effect_of_step {a : MessageLoop.Action} (ha : ∀ e, a ≠ .badUrl e) (hs : s.step options a = some s') :
    Effect options s s' a := by
  have hsame : SameCounts s s := ⟨rfl, rfl, rfl, rfl⟩
  cases a with
  | tick ms =>
    obtain rfl := Option.some.inj hs
    exact .quiet (newStatuses_append [] rfl) ⟨rfl, rfl, rfl, rfl⟩ fun _ => rfl
  | publish =>
    simp only [MessageLoop.step] at hs
    split at hs
    · obtain rfl := Option.some.inj hs
      exact .quiet (newStatuses_append [] rfl) hsame fun _ => rfl
    · obtain rfl := Option.some.inj hs
      exact .quiet (newStatuses_append [.missed] rfl) ⟨rfl, rfl, rfl, rfl⟩ fun _ => rfl
  | attempt error =>
    obtain ⟨-, hs⟩ := Option.ite_none_right_eq_some.1 hs
    cases error with
    | none =>
      obtain rfl := Option.some.inj hs
      have hnew := @newStatuses_append s s.connected
        [.sent (.connectionStatus { state := .connected, connects := s.connected.connects })] rfl
      exact .connected hnew rfl rfl rfl rfl
    | some error => obtain rfl := Option.some.inj hs; exact effect_attemptFailed error
  | badUrl error => exact absurd rfl (ha error)
  | message updateType =>
    simp only [MessageLoop.step] at hs
    split at hs
    · split at hs
      · next event hevent =>
        obtain rfl := Option.some.inj hs
        refine .quiet ((newStatuses_append [.sent event] rfl).trans ?_) ⟨rfl, rfl, rfl, rfl⟩ fun _ => rfl
        rw [List.reverse_singleton, List.filterMap_cons, status?_of_message hevent, List.filterMap_nil]
      · obtain rfl := Option.some.inj hs
        exact .quiet (newStatuses_append [] rfl) ⟨rfl, rfl, rfl, rfl⟩ fun _ => rfl
    · cases hs
  | traffic =>
    simp only [MessageLoop.step] at hs
    split at hs
    · obtain rfl := Option.some.inj hs
      exact .quiet (newStatuses_append [] rfl) ⟨rfl, rfl, rfl, rfl⟩ fun _ => rfl
    · cases hs
  | lost reason =>
    simp only [MessageLoop.step] at hs
    split at hs
    · obtain rfl := Option.some.inj hs; exact effect_connectionLost reason (.inl ⟨reason, rfl⟩)
    · cases hs
  | idle =>
    simp only [MessageLoop.step] at hs
    split at hs
    · obtain ⟨-, ⟨⟩⟩ := Option.ite_none_right_eq_some.1 hs
      exact effect_connectionLost _ (.inr rfl)
    · cases hs
  | wake =>
    simp only [MessageLoop.step] at hs
    split at hs
    · obtain ⟨-, ⟨⟩⟩ := Option.ite_none_right_eq_some.1 hs
      exact .waited (newStatuses_append [] rfl) ⟨rfl, rfl, rfl, rfl⟩ rfl
    · cases hs
  | cancel =>
    obtain ⟨-, ⟨⟩⟩ := Option.ite_none_left_eq_some.1 hs
    refine .stopped ?_ ⟨rfl, rfl, rfl, rfl⟩
    exact newStatuses_append [.sent (.connectionStatus { state := .stopped })] rfl

/-! ### The statuses of a run -/

/-- Saturation after each addition is saturation at the end. -/
theorem min_succ_min (n m : Nat) : min (min n m + 1) m = min (n + 1) m := by omega

theorem Tracks.next {a : MessageLoop.Action} (hmax : 1000 ≤ options.reconnectMaxBackoff) (h : Tracks options s t)
    (he : Effect options s s' a) : Tracks options s' (t.next a) := by
  have hsame (hsame : SameCounts s s') : Tracks options s' t :=
    { h with
      connects := hsame.connects.trans h.connects
      totalFailures := hsame.totalFailures.trans h.totalFailures
      consecutiveFailures := hsame.consecutiveFailures.trans h.consecutiveFailures
      backoff := hsame.backoff.trans h.backoff }
  have hrefused : t.uncounted ≤ t.failures ∧ (t.connects = 0 → t.uncounted ≤ t.failuresSince) := by
    unfold Outcomes.uncounted
    split
    · exact ⟨Nat.zero_le _, fun _ => Nat.zero_le _⟩
    · next heager =>
      obtain ⟨hf, hs⟩ := h.refused (by simpa using heager)
      exact ⟨hf, fun hc => hs hc⟩
  cases he with
  | quiet _ hcounts ha => rw [ha]; exact hsame hcounts
  | waited _ hcounts hbackoff =>
    have hb : s'.backoff = min (1000 * 2 ^ (t.waits + 1)) options.reconnectMaxBackoff := by
      rw [hbackoff, h.backoff, Nat.pow_succ]; omega
    exact { h with
      connects := hcounts.connects.trans h.connects
      totalFailures := hcounts.totalFailures.trans h.totalFailures
      consecutiveFailures := hcounts.consecutiveFailures.trans h.consecutiveFailures
      backoff := hb }
  | connected _ hconnects htotal hconsecutive hbackoff =>
    refine ⟨?_, htotal.trans h.totalFailures, ?_, ?_, Nat.zero_le _, fun _ => Nat.succ_pos _, fun heager => ?_⟩
    · rw [hconnects, h.connects, min_succ_min]; rfl
    · simpa [Outcomes.next, Outcomes.connected] using hconsecutive
    · show s'.backoff = min (1000 * 2 ^ 0) _; omega
    · exact ⟨(h.refused heager).1, fun hc => absurd hc (Nat.succ_ne_zero _)⟩
  | failed _ _ hconnects htotal hconsecutive hbackoff =>
    refine ⟨hconnects.trans h.connects, ?_, ?_, hbackoff.trans h.backoff, Nat.succ_le_succ h.since_le, h.accepted,
      fun heager => ⟨Nat.succ_pos _, fun _ => Nat.succ_pos _⟩⟩
    · show s'.totalFailures = min (t.failures + 1 - t.uncounted) _
      rw [htotal, saturatingSucc, h.totalFailures, min_succ_min, Nat.sub_add_comm hrefused.1]
    · show s'.consecutiveFailures = min (t.failuresSince + 1 - if t.connects = 0 then t.uncounted else 0) _
      rw [hconsecutive, saturatingSucc, h.consecutiveFailures, min_succ_min]
      split
      · next hc => rw [Nat.sub_add_comm (hrefused.2 hc)]
      · rfl
  | lost _ _ hcounts ha =>
    have hnext : t.next a = t := by obtain ⟨r, rfl⟩ | rfl := ha <;> rfl
    rw [hnext]
    exact hsame hcounts
  | stopped _ hcounts => exact hsame hcounts

/-- When a degraded status of the loop is exact. -/
theorem exact_degraded_iff {cause : Cause} {error : String} (h : Tracks options s t)
    (hphase : s.phase = .waiting (s.clock + s.backoff)) :
    Report.Exact options ⟨cause, t, s.degraded error, s.phase, s.clock⟩ ↔
      t.eager = true ∧ t.failures < 2 ^ 32 ∧ t.connects < 2 ^ 64 := by
  have hconnects := h.connects
  have htotal := h.totalFailures
  have hconsecutive := h.consecutiveFailures
  have hle := h.since_le
  constructor
  · rintro ⟨hc, hs, ht, -⟩
    replace hc : s.connects = t.connects := hc
    replace ht : s.totalFailures = t.failures := ht
    cases heager : t.eager with
    | true => exact ⟨rfl, by omega, by omega⟩
    | false =>
      obtain ⟨hpos, -⟩ := h.refused heager
      simp only [Outcomes.uncounted, heager] at htotal
      simp at htotal
      omega
  · rintro ⟨heager, hf, hc⟩
    have hun : t.uncounted = 0 := by simp [Outcomes.uncounted, heager]
    rw [hun] at htotal hconsecutive
    simp only [ite_self, Nat.sub_zero] at htotal hconsecutive
    refine ⟨?_, ?_, ?_, fun _ => ⟨s.backoff, rfl, h.backoff, hphase⟩⟩
    · show s.connects = t.connects; omega
    · show s.consecutiveFailures = t.failuresSince; omega
    · show s.totalFailures = t.failures; omega

/-- Every status a step publishes is exact under its condition, and only then. -/
theorem exact_iff_counted {a : MessageLoop.Action} (hmax : 1000 ≤ options.reconnectMaxBackoff)
    (h : Tracks options s t)
    (he : Effect options s s' a) {status : NotificationStatus} (hstatus : status ∈ newStatuses s s') :
    Report.Exact options ⟨.step a, t.next a, status, s'.phase, s'.clock⟩ ↔
      Report.Counted ⟨.step a, t.next a, status, s'.phase, s'.clock⟩ := by
  have hnext := h.next hmax he
  cases he with
  | quiet hnew => rw [hnew] at hstatus; exact absurd hstatus List.not_mem_nil
  | waited hnew => rw [hnew] at hstatus; exact absurd hstatus List.not_mem_nil
  | connected hnew =>
    rw [hnew, List.mem_singleton] at hstatus
    subst hstatus
    have hconnects := hnext.connects
    constructor
    · rintro ⟨hc, -, ht, -⟩
      replace hc : s'.connects = (t.next (.attempt none)).connects := hc
      exact ⟨ht.symm, show (t.next (.attempt none)).connects < 2 ^ 64 by omega⟩
    · rintro ⟨hf, hc⟩
      replace hc : (t.next (.attempt none)).connects < 2 ^ 64 := hc
      exact ⟨show s'.connects = (t.next (.attempt none)).connects by omega, rfl, hf.symm, fun hd => nomatch hd⟩
  | failed hnew hphase =>
    rw [hnew, List.mem_singleton] at hstatus
    subst hstatus
    exact exact_degraded_iff hnext hphase
  | lost hnew hphase _ ha =>
    rw [hnew, List.mem_singleton] at hstatus
    subst hstatus
    obtain ⟨r, rfl⟩ | rfl := ha
    · exact exact_degraded_iff hnext hphase
    · exact exact_degraded_iff hnext hphase
  | stopped hnew =>
    rw [hnew, List.mem_singleton] at hstatus
    subst hstatus
    have hle := h.since_le
    constructor
    · rintro ⟨hc, -, ht, -⟩
      exact ⟨ht.symm, hc.symm⟩
    · rintro ⟨hf, hc⟩
      replace hf : t.failures = 0 := hf
      exact ⟨hc.symm, by show 0 = t.failuresSince; omega, hf.symm, fun hd => nomatch hd⟩

/-- The counters are tracked, and every report so far is exact under its condition only. -/
structure Settles (options : NotificationOptions) (x : CountedLoop) : Prop where
  tracks : Tracks options x.loop x.outcomes
  reports : ∀ r ∈ x.reports, r.Exact options ↔ r.Counted

theorem settles_start (hmax : 1000 ≤ options.reconnectMaxBackoff) (clock : Nat) (eager : Bool) :
    Settles options (start clock eager) := by
  refine ⟨tracks_start hmax clock eager, fun r hr => ?_⟩
  rcases List.mem_cons.1 hr with rfl | hr
  · exact iff_of_true ⟨rfl, rfl, rfl, fun hd => nomatch hd⟩ trivial
  · cases eager with
    | true =>
      obtain rfl := List.mem_singleton.1 hr
      exact iff_of_true ⟨rfl, rfl, rfl, fun hd => nomatch hd⟩ trivial
    | false => exact absurd hr List.not_mem_nil

theorem Settles.step {a : MessageLoop.Action} (hmax : 1000 ≤ options.reconnectMaxBackoff) (h : Settles options x)
    (ha : Possible x a) (hs : x.step options a = some x') : Settles options x' := by
  obtain ⟨loop, hloop, rfl⟩ := Option.map_eq_some_iff.1 hs
  have he : Effect options x.loop loop a := effect_of_step (fun e heq => by rw [heq] at ha; exact ha) hloop
  refine ⟨h.tracks.next hmax he, fun r hr => ?_⟩
  rcases List.mem_append.1 hr with hr | hr
  · exact h.reports r hr
  · obtain ⟨status, hstatus, rfl⟩ := List.mem_map.1 hr
    exact exact_iff_counted hmax h.tracks he hstatus

/-- The statuses of a client are all exact exactly when each of them leaves out no counter that is not
zero. -/
theorem statuses_exact_iff (hmax : 1000 ≤ options.reconnectMaxBackoff) (clock : Nat) (eager : Bool)
    (h : Reach (step options) Possible (start clock eager) x) :
    (∀ r ∈ x.reports, r.Exact options) ↔ ∀ r ∈ x.reports, r.Counted := by
  have hsettles : Settles options x :=
    h.invariant (settles_start hmax clock eager) fun _ _ _ hx ha hs => hx.step hmax ha hs
  exact forall₂_congr hsettles.reports

/-- A lost connection, an attempt that fails, and another one. -/
def oneFailure (last : Option String) : List MessageLoop.Action :=
  [.lost "hub closed the socket", .tick 1000, .wake, .attempt (some "refused"), .tick 2000, .wake, .attempt last]

instance (r : Report) : Decidable r.Counted := by
  unfold Report.Counted; split <;> infer_instance

/-- Two attempts that fail after a loss are reported exactly. -/
theorem statuses_exact_two_failures :
    ∃ x, Reach (step {}) Possible (start 0 true) x ∧ x.reports.length = 5 ∧ ∀ r ∈ x.reports, r.Exact {} := by
  obtain ⟨x, hx, hreports⟩ := (Option.any_eq_true _ _).1
    (show (Reach.replay (step {}) Possible (start 0 true) (oneFailure (some "refused"))).any
      (fun x => decide (x.reports.length = 5 ∧ ∀ r ∈ x.reports, r.Counted)) = true by decide)
  obtain ⟨hlen, hcounted⟩ := of_decide_eq_true hreports
  exact ⟨x, .of_replay hx, hlen, (statuses_exact_iff (by decide) 0 true (.of_replay hx)).2 hcounted⟩

/-- The connection after a failed attempt is reported without it. -/
theorem connected_forgets_failure :
    ¬∀ (options : NotificationOptions) (clock : Nat) (eager : Bool) (x : CountedLoop),
    1000 ≤ options.reconnectMaxBackoff → Reach (step options) Possible (start clock eager) x →
      ∀ r ∈ x.reports, r.Exact options := by
  intro h
  obtain ⟨x, hx, hlast⟩ := (Option.any_eq_true _ _).1
    (show (Reach.replay (step {}) Possible (start 0 true) (oneFailure none)).any
      (fun x => decide (∃ r ∈ x.reports, r.status.totalFailures ≠ r.outcomes.failures)) = true by decide)
  obtain ⟨r, hr, hne⟩ := of_decide_eq_true hlast
  exact hne (h {} 0 true x (by decide) (.of_replay hx) r hr).totalFailures

end CountedLoop

end SshWarden
