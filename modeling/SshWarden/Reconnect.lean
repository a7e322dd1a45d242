import SshWarden.SignalR
import SshWarden.State
import SshWarden.Lib.Reach

/-!
# The reconnect loop

`run_message_loop` as a system of steps: connect attempts, what the socket brings, losses, waiting and
the passing of time. The hub never replays, so a vault change published while no socket is established
is missed; the log keeps these changes next to the events the client sends, newest first.
-/

namespace SshWarden

/-- Durations are in milliseconds. -/
structure NotificationOptions where
  keepaliveInterval : Nat := 30000
  idleTimeout : Nat := 90000
  reconnectAttemptsBeforeFallback : Nat := 3
  reconnectMaxBackoff : Nat := 60000
  fallbackSyncInterval : Nat := 300000
deriving DecidableEq, Repr

/-- `reading` since the connect, with the time of the last traffic. -/
inductive LoopPhase
  | connecting
  | reading (since lastSeen : Nat)
  | waiting (wakeAt : Nat)
  | returned
deriving DecidableEq, Repr

inductive LogEntry
  | sent (event : SyncEvent)
  | missed
deriving DecidableEq, Repr

structure MessageLoop where
  clock : Nat
  phase : LoopPhase
  backoff : Nat := 1000
  consecutiveFailures : Nat := 0
  totalFailures : Nat := 0
  connects : Nat := 0
  lastFallbackSent : Option Nat := none
  log : List LogEntry := []
deriving DecidableEq, Repr

/-- `recovery_sync_due` -/
def recoverySyncDue (now : Nat) (lastSent : Option Nat) (interval : Nat) : Bool :=
  if interval = 0 then false
  else
    match lastSent with
    | some instant => decide (interval ≤ now - instant)
    | none => true

namespace MessageLoop

def send (s : MessageLoop) (event : SyncEvent) : MessageLoop := { s with log := .sent event :: s.log }

def emitRecoverySync (options : NotificationOptions) (s : MessageLoop) : MessageLoop :=
  if recoverySyncDue s.clock s.lastFallbackSent options.fallbackSyncInterval then
    send { s with lastFallbackSent := some s.clock } .fallbackSyncDue
  else s

def maybeEmitFallbackSync (options : NotificationOptions) (s : MessageLoop) : MessageLoop :=
  if s.consecutiveFailures < options.reconnectAttemptsBeforeFallback then s else s.emitRecoverySync options

def degraded (s : MessageLoop) (lastError : String) : NotificationStatus where
  state := .degraded
  consecutiveFailures := s.consecutiveFailures
  totalFailures := s.totalFailures
  nextRetryIn := some s.backoff
  lastError := some lastError
  connects := s.connects

def waitBeforeReconnect (s : MessageLoop) : MessageLoop := { s with phase := .waiting (s.clock + s.backoff) }

def attemptFailed (options : NotificationOptions) (s : MessageLoop) (error : String) : MessageLoop :=
  let s := { s with
    consecutiveFailures := saturatingSucc s.consecutiveFailures
    totalFailures := saturatingSucc s.totalFailures }
  let s := s.send (.connectionStatus (s.degraded error))
  (s.maybeEmitFallbackSync options).waitBeforeReconnect

def connected (s : MessageLoop) : MessageLoop :=
  let connects := min (s.connects + 1) (2 ^ 64 - 1)
  send { s with consecutiveFailures := 0, backoff := 1000, connects, phase := .reading s.clock s.clock }
    (.connectionStatus { state := .connected, connects })

def connectionLost (options : NotificationOptions) (s : MessageLoop) (reason : String) : MessageLoop :=
  let s := s.emitRecoverySync options
  (s.send (.connectionStatus (s.degraded reason))).waitBeforeReconnect

/-- The loop starts with or without the eager connection. -/
def start (clock : Nat) (eager : Bool) : MessageLoop :=
  if eager then
    send { clock, phase := .reading clock clock, connects := 1 }
      (.connectionStatus { state := .connected, connects := 1 })
  else { clock, phase := .connecting }

/-- `publish` is a vault change at the hub, `message` a binary message with the update type of its
first frame, `traffic` any other message, `lost` a failed ping, a close or the end of the stream. -/
inductive Action
  | tick (ms : Nat)
  | publish
  | attempt (error : Option String)
  | badUrl (error : String)
  | message (updateType : Option Nat)
  | traffic
  | lost (reason : String)
  | idle
  | wake
  | cancel
deriving DecidableEq, Repr

def step (options : NotificationOptions) (s : MessageLoop) : Action → Option MessageLoop
  | .tick ms => some { s with clock := s.clock + ms }
  | .publish =>
    match s.phase with
    | .reading .. => some s
    | _ => some { s with log := .missed :: s.log }
  | .attempt error =>
    if s.phase = .connecting then
      match error with
      | none => some s.connected
      | some error => some (s.attemptFailed options error)
    else none
  | .badUrl error =>
    if s.phase = .connecting then
      some { s.send (.connectionStatus (s.degraded error)) with phase := .returned }
    else none
  | .message updateType =>
    match s.phase with
    | .reading since _ =>
      let s := { s with phase := .reading since s.clock }
      match updateType.bind updateTypeEvent with
      | some event => some (s.send event)
      | none => some s
    | _ => none
  | .traffic =>
    match s.phase with
    | .reading since _ => some { s with phase := .reading since s.clock }
    | _ => none
  | .lost reason =>
    match s.phase with
    | .reading .. => some (s.connectionLost options reason)
    | _ => none
  | .idle =>
    match s.phase with
    | .reading _ lastSeen =>
      if options.idleTimeout < s.clock - lastSeen then
        some (s.connectionLost options ("no hub traffic for " ++ toString ((s.clock - lastSeen) / 1000) ++ "s"))
      else none
    | _ => none
  | .wake =>
    match s.phase with
    | .waiting wakeAt =>
      if wakeAt ≤ s.clock then
        some { s with backoff := min (s.backoff * 2) options.reconnectMaxBackoff, phase := .connecting }
      else none
    | _ => none
  | .cancel =>
    if s.phase = .returned then none
    else some { s.send (.connectionStatus { state := .stopped }) with phase := .returned }

/-! ## Missed changes -/

/-- A change or a request to sync that the daemon acts on by a full sync. -/
def IsSyncRequest (e : LogEntry) : Prop := e = .sent .cipherChanged ∨ e = .sent .fallbackSyncDue

instance : DecidablePred IsSyncRequest := fun e => inferInstanceAs (Decidable (e = _ ∨ e = _))

/-- Every missed change is followed by a delivered `CipherChanged` or by a `FallbackSyncDue`. -/
def Recovered (s : MessageLoop) : Prop :=
  ∀ newer older, s.log = newer ++ .missed :: older → ∃ e ∈ newer, IsSyncRequest e

/-- A socket is established. -/
def Online (s : MessageLoop) : Prop := ∃ since lastSeen, s.phase = .reading since lastSeen

instance (s : MessageLoop) : Decidable s.Online :=
  match h : s.phase with
  | .reading since lastSeen => .isTrue ⟨since, lastSeen, h⟩
  | .connecting | .waiting _ | .returned => .isFalse fun ⟨_, _, hp⟩ => nomatch h.symm.trans hp

/-- The steps of a run, newest first, each with the state it was taken in. -/
abbrev History : Type := List (MessageLoop × Action)

/-- A change that is published while no socket is established. -/
def MissesChange (x : MessageLoop × Action) : Prop := x.2 = .publish ∧ ¬x.1.Online

/-- A failed attempt that is late enough: the failures in a row have come to the number from which on the loop
falls back to syncs, and the last request to sync, if there was one, is a whole interval ago. -/
def AsksForSync (options : NotificationOptions) (x : MessageLoop × Action) : Prop :=
  (∃ error, x.2 = .attempt (some error)) ∧
    options.reconnectAttemptsBeforeFallback ≤ saturatingSucc x.1.consecutiveFailures ∧
    recoverySyncDue x.1.clock x.1.lastFallbackSent options.fallbackSyncInterval = true

/-- A reconnect only succeeds when every change that has been missed since the connect before has been followed by
a failed attempt that was late enough to ask for a sync. -/
def OutageAnswered (options : NotificationOptions) (x : MessageLoop × History) : Action → Prop
  | .attempt none => ∀ newer y older, x.2 = newer ++ y :: older → MissesChange y →
      (∀ z ∈ newer, z.2 ≠ .attempt none) → ∃ z ∈ newer, AsksForSync options z
  | _ => True

instance : DecidablePred MissesChange := fun x => inferInstanceAs (Decidable (x.2 = _ ∧ ¬x.1.Online))

instance (options : NotificationOptions) : DecidablePred (AsksForSync options) := fun x =>
  have : Decidable (∃ error, x.2 = .attempt (some error)) :=
    match x.2 with
    | .attempt (some error) => .isTrue ⟨error, rfl⟩
    | .attempt none | .tick _ | .publish | .badUrl _ | .message _ | .traffic | .lost _ | .idle | .wake | .cancel =>
      .isFalse nofun
  inferInstanceAs (Decidable ((∃ error, x.2 = .attempt (some error)) ∧ _ ∧ _))

/-- What a missed change is followed by where nothing is left open. -/
def Answers (options : NotificationOptions) (x : MessageLoop × Action) : Prop :=
  AsksForSync options x ∨ x.2 = .attempt none

instance (options : NotificationOptions) : DecidablePred (Answers options) := fun x =>
  inferInstanceAs (Decidable (AsksForSync options x ∨ x.2 = .attempt none))

variable {options : NotificationOptions} {s s' : MessageLoop} {x x' : MessageLoop × History}

theorem recovered_iff : s.Recovered ↔ FollowedBy (· = .missed) IsSyncRequest s.log := by
  rw [followedBy_iff]
  exact ⟨fun h newer b older hl hb => h newer older (hb ▸ hl), fun h newer older hl => h newer _ older hl rfl⟩

theorem outageAnswered_iff :
    OutageAnswered options x (.attempt none) ↔ FollowedBy MissesChange (Answers options) x.2 := by
  rw [followedBy_iff]
  constructor
  · intro h newer y older hl hy
    by_cases hnew : ∀ z ∈ newer, z.2 ≠ .attempt none
    · obtain ⟨z, hz, hasks⟩ := h newer y older hl hy hnew
      exact ⟨z, hz, .inl hasks⟩
    · push Not at hnew
      obtain ⟨z, hz, hconnect⟩ := hnew
      exact ⟨z, hz, .inr hconnect⟩
  · intro h newer y older hl hy hnew
    obtain ⟨z, hz, hanswers⟩ := h newer y older hl hy
    exact ⟨z, hz, hanswers.resolve_right (hnew z hz)⟩

instance (x : MessageLoop × History) (a : Action) : Decidable (OutageAnswered options x a) :=
  match a with
  | .attempt none => decidable_of_iff _ outageAnswered_iff.symm
  | .attempt (some _) | .tick _ | .publish | .badUrl _ | .message _ | .traffic | .lost _ | .idle | .wake
  | .cancel =>
    .isTrue trivial

/-- No missed change is open. -/
abbrev Closed (s : MessageLoop) : Prop := FollowedBy (· = .missed) IsSyncRequest s.log

theorem closed_missed : ¬Closed { s with log := .missed :: s.log } := fun h => h.1 rfl

theorem closed_send (event : SyncEvent) : (s.send event).Closed ↔ IsSyncRequest (.sent event) ∨ s.Closed := by
  show ¬_ = _ ∧ _ ↔ _
  simp

theorem closed_status (status : NotificationStatus) : (s.send (.connectionStatus status)).Closed ↔ s.Closed := by
  rw [closed_send]
  simp [IsSyncRequest]

/-- A request to sync that is due closes everything, and one that is not leaves everything as it was. -/
theorem closed_emitRecoverySync : (s.emitRecoverySync options).Closed ↔
    recoverySyncDue s.clock s.lastFallbackSent options.fallbackSyncInterval = true ∨ s.Closed := by
  unfold emitRecoverySync
  split_ifs with hdue
  · rw [closed_send]
    exact iff_of_true (.inl (.inr rfl)) (.inl hdue)
  · simp [hdue]

theorem closed_attemptFailed (error : String) : (s.attemptFailed options error).Closed ↔
    AsksForSync options (s, .attempt (some error)) ∨ s.Closed := by
  have hcounts : ∀ status, Closed (send { s with
      consecutiveFailures := saturatingSucc s.consecutiveFailures
      totalFailures := saturatingSucc s.totalFailures } (.connectionStatus status)) ↔ s.Closed :=
    fun status => closed_status status
  unfold attemptFailed
  extract_lets s₁ s₂
  show Closed (s₂.maybeEmitFallbackSync options) ↔ _
  have hs₂ : s₂.Closed ↔ s.Closed := hcounts _
  unfold maybeEmitFallbackSync
  split_ifs with hfew
  · rw [hs₂]
    refine ⟨.inr, fun h => h.resolve_left fun hasks => ?_⟩
    exact absurd hfew (Nat.not_lt.2 hasks.2.1)
  · rw [closed_emitRecoverySync, hs₂]
    refine or_congr_left ⟨fun hdue => ⟨⟨error, rfl⟩, Nat.not_lt.1 hfew, hdue⟩, fun hasks => hasks.2.2⟩

theorem closed_connectionLost (reason : String) : (s.connectionLost options reason).Closed ↔
    recoverySyncDue s.clock s.lastFallbackSent options.fallbackSyncInterval = true ∨ s.Closed := by
  unfold connectionLost
  extract_lets s₁
  show Closed (s₁.send _) ↔ _
  rw [closed_status, closed_emitRecoverySync]

/-- What a step leaves open: a change that it misses is open; a delivered event or a request to sync closes
everything, and so do the failed attempts that are late enough; everything else leaves the log as it was. -/
inductive Effect (options : NotificationOptions) (s s' : MessageLoop) : Action → Prop
  | misses (hoff : ¬s.Online) (hoff' : ¬s'.Online) (hopen : ¬s'.Closed) : Effect options s s' .publish
  | fails (error : String) (hoff : ¬s.Online) (hoff' : ¬s'.Online)
      (h : s'.Closed ↔ AsksForSync options (s, .attempt (some error)) ∨ s.Closed) :
      Effect options s s' (.attempt (some error))
  | connects (hoff : ¬s.Online) (hon' : s'.Online) (h : s'.Closed ↔ s.Closed) : Effect options s s' (.attempt none)
  | online {a : Action} (hon : s.Online) (h : s.Closed → s'.Closed) (ha : ∀ error, a ≠ .attempt error) :
      Effect options s s' a
  | offline {a : Action} (hoff : ¬s.Online) (hoff' : ¬s'.Online) (h : s'.Closed ↔ s.Closed)
      (ha : ∀ error, a ≠ .attempt error) (hp : a ≠ .publish) : Effect options s s' a

theorem effect_of_step {a : Action} (hs : step options s a = some s') : Effect options s s' a := by
  have hoff : ∀ {s : MessageLoop}, (∀ since lastSeen, s.phase ≠ .reading since lastSeen) → ¬s.Online :=
    fun h ⟨since, lastSeen, hp⟩ => h since lastSeen hp
  have hconnecting : s.phase = .connecting → ¬s.Online := fun hp => hoff fun _ _ h => nomatch hp.symm.trans h
  cases a with
  | tick ms =>
    obtain rfl := Option.some.inj hs
    by_cases hon : s.Online
    · exact .online hon id nofun
    · exact .offline hon hon .rfl nofun nofun
  | publish =>
    simp only [MessageLoop.step] at hs
    split at hs
    · next since lastSeen hp => obtain rfl := Option.some.inj hs; exact .online ⟨since, lastSeen, hp⟩ id nofun
    · next hp => obtain rfl := Option.some.inj hs; exact .misses (hoff hp) (hoff hp) closed_missed
  | attempt error =>
    obtain ⟨hp, hs⟩ := Option.ite_none_right_eq_some.1 hs
    cases error with
    | none =>
      obtain rfl := Option.some.inj hs
      exact .connects (hconnecting hp) ⟨s.clock, s.clock, rfl⟩ (closed_status _)
    | some error =>
      obtain rfl := Option.some.inj hs
      exact .fails error (hconnecting hp) (hoff nofun) (closed_attemptFailed error)
  | badUrl error =>
    obtain ⟨hp, ⟨⟩⟩ := Option.ite_none_right_eq_some.1 hs
    exact .offline (hconnecting hp) (hoff nofun) (closed_status _) nofun nofun
  | message updateType =>
    simp only [MessageLoop.step] at hs
    split at hs
    · next since lastSeen hp =>
      refine .online ⟨since, lastSeen, hp⟩ (fun hc => ?_) nofun
      split at hs
      · next event _ => obtain rfl := Option.some.inj hs; exact (closed_send event).2 (.inr hc)
      · obtain rfl := Option.some.inj hs; exact hc
    · cases hs
  | traffic =>
    simp only [MessageLoop.step] at hs
    split at hs
    · next since lastSeen hp => obtain rfl := Option.some.inj hs; exact .online ⟨since, lastSeen, hp⟩ id nofun
    · cases hs
  | lost reason =>
    simp only [MessageLoop.step] at hs
    split at hs
    · next since lastSeen hp =>
      obtain rfl := Option.some.inj hs
      exact .online ⟨since, lastSeen, hp⟩ (fun hc => (closed_connectionLost reason).2 (.inr hc)) nofun
    · cases hs
  | idle =>
    simp only [MessageLoop.step] at hs
    split at hs
    · next since lastSeen hp =>
      obtain ⟨-, ⟨⟩⟩ := Option.ite_none_right_eq_some.1 hs
      exact .online ⟨since, lastSeen, hp⟩ (fun hc => (closed_connectionLost _).2 (.inr hc)) nofun
    · cases hs
  | wake =>
    simp only [MessageLoop.step] at hs
    split at hs
    · next wakeAt hp =>
      obtain ⟨-, ⟨⟩⟩ := Option.ite_none_right_eq_some.1 hs
      exact .offline (hoff fun _ _ h => nomatch hp.symm.trans h) (hoff nofun) .rfl nofun nofun
    · cases hs
  | cancel =>
    obtain ⟨-, ⟨⟩⟩ := Option.ite_none_left_eq_some.1 hs
    by_cases hon : s.Online
    · exact .online hon (closed_status _).2 nofun
    · exact .offline hon (hoff nofun) (closed_status _) nofun nofun

/-! ### The run so far and what it leaves open -/

theorem followedBy_other (options : NotificationOptions) (past : History) {s : MessageLoop} {a : Action}
    (hp : a = .publish → s.Online) (ha : ∀ error, a ≠ .attempt error) :
    FollowedBy MissesChange (Answers options) ((s, a) :: past) ↔
      FollowedBy MissesChange (Answers options) past := by
  refine followedBy_skip (fun h => h.2 (hp h.1)) ?_
  rintro (⟨⟨error, h⟩, -⟩ | h)
  · exact ha _ h
  · exact ha _ h

/-- After every connect a list of steps starts over: while a socket is established no missed change counts any
more, and without one an unanswered change is open. -/
structure Tracked (options : NotificationOptions) (x : MessageLoop × History) : Prop where
  online : x.1.Online → FollowedBy MissesChange (Answers options) x.2
  offline : ¬FollowedBy MissesChange (Answers options) x.2 → ¬x.1.Closed

theorem Tracked.step (h : Tracked options x) {a : Action} (hs : recorded (step options) x a = some x') :
    Tracked options x' := by
  obtain ⟨s', hstep, rfl⟩ := Option.map_eq_some_iff.1 hs
  obtain ⟨s, past⟩ := x
  cases effect_of_step hstep with
  | misses hoff hoff' hopen => exact ⟨fun hon => absurd hon hoff', fun _ => hopen⟩
  | fails error hoff hoff' hc =>
    refine ⟨fun hon => absurd hon hoff', fun hno hclosed => hno ⟨nofun, ?_⟩⟩
    rcases hc.1 hclosed with hasks | hold
    · exact .inl (.inl hasks)
    · exact .inr (by_contra fun hrest => h.offline hrest hold)
  | connects hoff hon' hc =>
    exact ⟨fun _ => ⟨nofun, .inl (.inr rfl)⟩, fun hno => absurd ⟨nofun, .inl (.inr rfl)⟩ hno⟩
  | online hon hc ha =>
    have hsame := followedBy_other options past (fun _ => hon) ha
    exact ⟨fun _ => hsame.2 (h.online hon), fun hno => absurd (hsame.2 (h.online hon)) hno⟩
  | offline hoff hoff' hc ha hp =>
    have hsame := followedBy_other options past (s := s) (fun hpub => absurd hpub hp) ha
    exact ⟨fun hon => absurd hon hoff', fun hno hclosed => h.offline (fun hf => hno (hsame.2 hf)) (hc.1 hclosed)⟩

theorem tracked_start (clock : Nat) (eager : Bool) : Tracked options (start clock eager, []) :=
  ⟨fun _ => trivial, fun hno => absurd trivial hno⟩

/-- In a run whose outages are answered nothing is open while a socket is established, nor while every change of
the outage has been answered. -/
structure Inv (options : NotificationOptions) (x : MessageLoop × History) : Prop where
  online : x.1.Online → x.1.Closed
  answered : FollowedBy MissesChange (Answers options) x.2 → x.1.Closed

theorem Inv.step (h : Inv options x) {a : Action} (hc : OutageAnswered options x a)
    (hs : recorded (step options) x a = some x') : Inv options x' := by
  obtain ⟨s', hstep, rfl⟩ := Option.map_eq_some_iff.1 hs
  obtain ⟨s, past⟩ := x
  cases effect_of_step hstep with
  | misses hoff hoff' hopen => exact ⟨fun hon => absurd hon hoff', fun hf => absurd ⟨rfl, hoff⟩ hf.1⟩
  | fails error hoff hoff' hclosed =>
    refine ⟨fun hon => absurd hon hoff', fun hf => hclosed.2 ?_⟩
    rcases hf.2 with hanswers | hrest
    · exact .inl (hanswers.resolve_right nofun)
    · exact .inr (h.answered hrest)
  | connects hoff hon' hclosed =>
    have hnow := hclosed.2 (h.answered (outageAnswered_iff.1 hc))
    exact ⟨fun _ => hnow, fun _ => hnow⟩
  | online hon hclosed ha => exact ⟨fun _ => hclosed (h.online hon), fun _ => hclosed (h.online hon)⟩
  | offline hoff hoff' hclosed ha hp =>
    have hsame := followedBy_other options past (s := s) (fun hpub => absurd hpub hp) ha
    exact ⟨fun hon => absurd hon hoff', fun hf => hclosed.2 (h.answered (hsame.1 hf))⟩

theorem inv_start (clock : Nat) (eager : Bool) : Inv options (start clock eager, []) := by
  have hclosed : (start clock eager).Closed := by
    cases eager
    · trivial
    · exact (closed_status _).2 trivial
  exact ⟨fun _ => hclosed, fun _ => hclosed⟩

/-- The socket is established and a fallback interval has passed since the connect. -/
def Settled (options : NotificationOptions) (s : MessageLoop) : Prop :=
  ∃ since lastSeen, s.phase = .reading since lastSeen ∧ since + options.fallbackSyncInterval ≤ s.clock

/-- Only time passes. -/
theorem reach_tick {C : MessageLoop → Action → Prop} (hC : ∀ s ms, C s (.tick ms)) (s : MessageLoop) (ms : Nat) :
    Reach (step options) C s { s with clock := s.clock + ms } :=
  Reach.start.step (hC s ms) rfl

/-- In a run in which every missed change is followed, before the reconnect, by a failed attempt that is late
enough, no missed change stays open; and any reconnect before which one is not may settle without a request to
sync after the change. -/
theorem missed_changes_recovered (options : NotificationOptions) (clock : Nat) (eager : Bool) :
    (∀ x, Reach (recorded (step options)) (OutageAnswered options) (start clock eager, []) x →
      x.1.Settled options → x.1.Recovered) ∧
    ∀ x s', Reach (recorded (step options)) (fun _ _ => True) (start clock eager, []) x →
      step options x.1 (.attempt none) = some s' → ¬OutageAnswered options x (.attempt none) →
        ∃ s'', Reach (step options) (fun _ _ => True) s' s'' ∧ s''.Settled options ∧ ¬s''.Recovered := by
  constructor
  · rintro x h ⟨since, lastSeen, hp, -⟩
    have hinv : Inv options x := h.invariant (inv_start clock eager) fun _ _ _ hi hc hs => hi.step hc hs
    exact recovered_iff.2 (hinv.online ⟨since, lastSeen, hp⟩)
  · rintro x s' h hs hunanswered
    have htracked : Tracked options x := h.invariant (tracked_start clock eager) fun _ _ _ hi _ hs => hi.step hs
    have hopen := htracked.offline fun hf => hunanswered (outageAnswered_iff.2 hf)
    obtain ⟨-, ⟨⟩⟩ := Option.ite_none_right_eq_some.1 hs
    refine ⟨_, reach_tick (fun _ _ => trivial) _ options.fallbackSyncInterval, ?_, ?_⟩
    · exact ⟨x.1.clock, x.1.clock, rfl, Nat.le_refl _⟩
    · rw [recovered_iff]
      exact fun hclosed => hopen ((closed_status _).1 hclosed)

/-- An outage of more than five minutes: a change is published before the tenth attempt, which fails after the
interval since the loss has passed, and the eleventh succeeds. -/
def longOutage : List Action :=
  [.lost "hub closed the socket"]
    ++ ([1000, 2000, 4000, 8000, 16000, 32000, 60000, 60000, 60000].flatMap fun ms =>
      [.tick ms, .wake, .attempt (some "refused")])
    ++ [.publish, .tick 60000, .wake, .attempt (some "refused"), .tick 60000, .wake, .attempt none, .tick 300000]

theorem missed_changes_recovered_late :
    ∃ x, Reach (recorded (step {})) (OutageAnswered {}) (start 0 true, []) x ∧ .missed ∈ x.1.log ∧
      x.1.Settled {} ∧ x.1.Recovered := by
  have hrun : (Reach.replay (recorded (step {})) (OutageAnswered {}) (start 0 true, []) longOutage).any (fun x =>
      decide (.missed ∈ x.1.log ∧ x.1.phase = .reading 363000 363000 ∧ x.1.clock = 663000)) = true := by
    decide +kernel
  obtain ⟨x, hx, hcheck⟩ := (Option.any_eq_true _ _).1 hrun
  obtain ⟨hmissed, hphase, hclock⟩ := of_decide_eq_true hcheck
  have hreach := Reach.of_replay hx
  have hsettled : x.1.Settled {} := ⟨363000, 363000, hphase, Nat.le_of_eq hclock.symm⟩
  exact ⟨x, hreach, hmissed, hsettled, (missed_changes_recovered {} 0 true).1 x hreach hsettled⟩

/-- A loss asks for a sync at once; the change comes after it and before the reconnect a second later,
and for five minutes of a healthy socket nothing follows. -/
def shortOutage : List Action :=
  [.lost "hub closed the socket", .tick 500, .publish, .tick 500, .wake, .attempt none]
    ++ (List.replicate 10 [.tick 30000, .traffic]).flatten

theorem change_missed :
    ∃ s, Reach (step {}) (fun _ _ => True) (start 0 true) s ∧ s.Settled {} ∧ ¬s.Recovered := by
  have hrun : (Reach.replay (step {}) (fun _ _ => True) (start 0 true) shortOutage).any (fun s =>
      decide (s.phase = .reading 1000 301000 ∧ s.clock = 301000 ∧ ¬s.Closed)) = true := by decide +kernel
  obtain ⟨s, hs, hcheck⟩ := (Option.any_eq_true _ _).1 hrun
  obtain ⟨hphase, hclock, hopen⟩ := of_decide_eq_true hcheck
  exact ⟨s, .of_replay hs, ⟨1000, 301000, hphase, Nat.le_of_eq hclock.symm⟩, fun h => hopen (recovered_iff.1 h)⟩

end MessageLoop

end SshWarden
