import SshWarden.Reconnect

/-!
# The reported connection state

The daemon mirrors what the current hub client reports over a queue of 32 events. A status that finds
the queue full is dropped, a real event waits for room. The helper that creates a client writes to the
mirror as well: it reports a connection when the client could be created, and a failure when that took
too long. A transition of the reconnect loop is one step, unless it has to wait for room.
-/

namespace SshWarden

/-- A handshake that the hub has accepted: of which client, its how manieth, and when. -/
structure Handshake where
  client : Nat
  connects : Nat
  time : Nat
deriving DecidableEq, Repr

/-- `sending` is what the loop still has to send before it goes on. -/
structure HubClient where
  id : Nat
  loop : MessageLoop
  queue : List SyncEvent
  sending : List SyncEvent
deriving DecidableEq, Repr

/-- The mirror and the current client, if there is one. `reported` is the handshake that
`last_connected_at` was set for. -/
structure HubMirror where
  clock : Nat := 0
  mirror : NotificationRuntimeState := {}
  client : Option HubClient := none
  clients : Nat := 0
  connecting : Bool := false
  handshakes : List Handshake := []
  reported : Option (Nat × Nat) := none
deriving DecidableEq, Repr

/-- How the eager attempt of a new client ends. -/
inductive EagerResult
  | accepted
  | refused
  | timedOut
deriving DecidableEq, Repr

/-- The events of a loop that it has just emitted, oldest first. -/
def MessageLoop.emitted (s : MessageLoop) : List SyncEvent :=
  s.log.reverse.filterMap fun
    | .sent event => some event
    | .missed => none

/-- The loop has a socket that it reads from. -/
def MessageLoop.isReading (s : MessageLoop) : Bool :=
  match s.phase with
  | .reading .. => true
  | _ => false

/-- What the queue takes of the events, and what has to wait. `publish_status` never waits. -/
def deliver (queue : List SyncEvent) : List SyncEvent → List SyncEvent × List SyncEvent
  | [] => (queue, [])
  | .connectionStatus status :: events =>
    if queue.length < 32 then deliver (queue ++ [.connectionStatus status]) events else deliver queue events
  | event :: events => if queue.length < 32 then deliver (queue ++ [event]) events else (queue, event :: events)

/-- The client after a transition of its loop. -/
def HubClient.after (c : HubClient) (loop : MessageLoop) : HubClient :=
  { c with
    loop := { loop with log := [] }
    queue := (deliver c.queue loop.emitted).1
    sending := (deliver c.queue loop.emitted).2 }

namespace HubMirror

inductive Action
  | tick (ms : Nat)
  | beginConnect (url : String)
  | connectResult (eager : EagerResult)
  | loop (a : MessageLoop.Action)
  | resume
  | drain
  | record (u : NotificationUpdate)
  | forget
deriving DecidableEq, Repr

/-- The transitions of the current client's loop: it is not cancelled, and `build_ws_url` does not fail. -/
def ofCurrent : MessageLoop.Action → Bool
  | .tick _ | .badUrl _ | .cancel => false
  | _ => true

/-- The updates that say nothing about the connection. -/
def besideConnection : NotificationUpdate → Bool
  | .beginConnect _ | .applyStatus _ | .markClientFailed _ | .reset => false
  | _ => true

def newClient (s : HubMirror) (eager : Bool) : HubClient :=
  let loop := MessageLoop.start s.clock eager
  { id := s.clients, loop := { loop with log := [] }, queue := [.connectionStatus { state := .connecting }],
    sending := loop.emitted }

/-- The daemon takes up the first event of the queue. -/
def takeUp (s : HubMirror) (id : Nat) : SyncEvent → HubMirror
  | .connectionStatus status =>
    { s with
      mirror := (NotificationUpdate.applyStatus status).apply s.clock s.mirror
      reported := if status.state = .connected then some (id, status.connects) else s.reported }
  | _ => s

def step (options : NotificationOptions) (s : HubMirror) : Action → Option HubMirror
  | .tick ms => some { s with
      clock := s.clock + ms
      client := s.client.map fun c => { c with loop := { c.loop with clock := c.loop.clock + ms } } }
  | .beginConnect url => some { s with
      client := none, connecting := true, mirror := (NotificationUpdate.beginConnect url).apply s.clock s.mirror }
  | .connectResult eager =>
    if s.connecting then
      match eager with
      | .timedOut => some { s with
          connecting := false
          mirror := (NotificationUpdate.markClientFailed
            "connecting to the notification hub timed out after 15s").apply s.clock s.mirror }
      | _ => some { s with
          connecting := false
          clients := s.clients + 1
          client := some (s.newClient (eager = .accepted))
          mirror := (NotificationUpdate.applyStatus { state := .connected, connects := 1 }).apply s.clock s.mirror
          handshakes := if eager = .accepted then s.handshakes ++ [⟨s.clients, 1, s.clock⟩] else s.handshakes
          reported := some (s.clients, 1) }
    else none
  | .loop a => do
    let c ← s.client
    if c.sending = [] ∧ ofCurrent a then do
      let loop ← c.loop.step options a
      some { s with
        client := some (c.after loop)
        handshakes :=
          if a = .attempt none then s.handshakes ++ [⟨c.id, loop.connects, s.clock⟩] else s.handshakes }
    else none
  | .resume => do
    let c ← s.client
    some { s with client := some { c with
      queue := (deliver c.queue c.sending).1, sending := (deliver c.queue c.sending).2 } }
  | .drain => do
    let c ← s.client
    match c.queue with
    | [] => none
    | event :: events => some { s.takeUp c.id event with client := some { c with queue := events } }
  | .record u => if besideConnection u then some { s with mirror := u.apply s.clock s.mirror } else none
  | .forget => some { s with client := none, connecting := false, mirror := {}, reported := none }

/-- The loop is in its read loop. -/
def Established (c : HubClient) : Prop := c.loop.isReading = true

/-- No event of the current client waits in its queue. -/
def Drained (s : HubMirror) : Prop := ∀ c, s.client = some c → c.queue = []

/-- What the mirror says is so. -/
structure Faithful (s : HubMirror) : Prop where
  connected : s.mirror.state = .connected → ∃ c, s.client = some c ∧ Established c
  connects : s.mirror.connects = 0 ∨ ∃ h ∈ s.handshakes, h.connects = s.mirror.connects
  lastConnected : ∀ t, s.mirror.lastConnectedAt = some t →
    ∃ h ∈ s.handshakes, s.reported = some (h.client, h.connects) ∧ h.time ≤ t
  degraded : s.mirror.state = .degraded → ∃ c, s.client = some c ∧ c.loop.phase ≠ .returned

/-- The queue takes what a loop reports that loses its connection now. -/
def RoomForLoss (options : NotificationOptions) (c : HubClient) : Prop :=
  c.queue.length +
    (if recoverySyncDue c.loop.clock c.loop.lastFallbackSent options.fallbackSyncInterval then 1 else 0)
    < 32

/-- A new client is connected at once, and a client has room to report a loss. -/
def Sound (options : NotificationOptions) (s : HubMirror) : Action → Prop
  | .connectResult eager => eager = .accepted
  | .loop (.lost _) | .loop .idle => ∀ c ∈ s.client, RoomForLoss options c
  | _ => True

section
variable {options : NotificationOptions} {l l' : MessageLoop} {a : MessageLoop.Action}

/-- The transitions of a loop, and what each of them emits. -/
inductive Moved (options : NotificationOptions) (l l' : MessageLoop) : MessageLoop.Action → Prop
  | still {a : MessageLoop.Action} (ha : a ≠ .attempt none) (hreading : l'.isReading = l.isReading)
      (hphase : l'.phase ≠ .returned) (hconnects : l'.connects = l.connects)
      (hev : ∀ st, .connectionStatus st ∉ l'.emitted) : Moved options l l' a
  | accepted (hreading : l'.isReading = true)
      (hev : l'.emitted = [.connectionStatus { state := .connected, connects := l'.connects }]) :
      Moved options l l' (.attempt none)
  | refused {error : String} (hreading : l'.isReading = false) (hphase : l'.phase ≠ .returned)
      (hconnects : l'.connects = l.connects)
      (hev : ∀ st, .connectionStatus st ∈ l'.emitted → st.state = .degraded ∧ st.connects = l.connects)
      (hl : l.isReading = false) : Moved options l l' (.attempt (some error))
  | lost {a : MessageLoop.Action} (ha : a = .idle ∨ ∃ reason, a = .lost reason) (hphase : l'.phase ≠ .returned)
      (hconnects : l'.connects = l.connects) (status : NotificationStatus)
      (hstatus : status.state = .degraded ∧ status.connects = l.connects)
      (hev : l'.emitted =
        (if recoverySyncDue l.clock l.lastFallbackSent options.fallbackSyncInterval
          then [.fallbackSyncDue] else [])
          ++ [.connectionStatus status]) : Moved options l l' a

theorem emitted_send (l : MessageLoop) (event : SyncEvent) : (l.send event).emitted = l.emitted ++ [event] := by
  simp only [MessageLoop.emitted, MessageLoop.send, List.reverse_cons, List.filterMap_append]
  rfl

theorem emitted_missed (l : MessageLoop) : MessageLoop.emitted { l with log := .missed :: l.log } = l.emitted := by
  simp only [MessageLoop.emitted, List.reverse_cons, List.filterMap_append]
  exact List.append_nil _

theorem moved_connectionLost (hlog : l.log = []) (ha : a = .idle ∨ ∃ reason, a = .lost reason) (reason : String) :
    Moved options l (l.connectionLost options reason) a := by
  have hnone : l.emitted = [] := by rw [MessageLoop.emitted, hlog]; rfl
  have hlost : ∀ s : MessageLoop, s.connects = l.connects → s.emitted =
      (if recoverySyncDue l.clock l.lastFallbackSent options.fallbackSyncInterval
        then [.fallbackSyncDue] else []) →
      Moved options l (s.send (.connectionStatus (s.degraded reason))).waitBeforeReconnect a := by
    intro s hconnects hev
    refine .lost ha nofun hconnects (s.degraded reason) ⟨rfl, hconnects⟩ ?_
    rw [← hev]
    exact emitted_send s _
  unfold MessageLoop.connectionLost MessageLoop.emitRecoverySync
  by_cases hdue : recoverySyncDue l.clock l.lastFallbackSent options.fallbackSyncInterval = true
  · rw [if_pos hdue]
    refine hlost _ rfl ?_
    rw [if_pos hdue, emitted_send]
    exact congrArg (· ++ [SyncEvent.fallbackSyncDue]) hnone
  · rw [if_neg hdue]
    exact hlost l rfl (by rw [if_neg hdue, hnone])

theorem moved_attemptFailed (hlog : l.log = []) (hl : l.isReading = false) (error : String) :
    Moved options l (l.attemptFailed options error) (.attempt (some error)) := by
  have hnone : l.emitted = [] := by rw [MessageLoop.emitted, hlog]; rfl
  have hfailed : ∀ s : MessageLoop, s.connects = l.connects →
      (∀ st, .connectionStatus st ∈ s.emitted → st.state = .degraded ∧ st.connects = l.connects) →
      Moved options l (s.maybeEmitFallbackSync options).waitBeforeReconnect (.attempt (some error)) := by
    intro s hconnects hev
    unfold MessageLoop.maybeEmitFallbackSync MessageLoop.emitRecoverySync
    split
    · exact .refused rfl nofun hconnects hev hl
    · split
      · refine .refused rfl nofun hconnects (fun st hst => ?_) hl
        change _ ∈ (MessageLoop.send _ _).emitted at hst
        rw [emitted_send] at hst
        rcases List.mem_append.1 hst with hst | hst
        · exact hev st hst
        · exact nomatch List.mem_singleton.1 hst
      · exact .refused rfl nofun hconnects hev hl
  refine hfailed _ rfl fun st hst => ?_
  rw [emitted_send] at hst
  rcases List.mem_append.1 hst with hst | hst
  · exact nomatch (hnone ▸ hst : SyncEvent.connectionStatus st ∈ [])
  · obtain ⟨⟩ := List.mem_singleton.1 hst
    exact ⟨rfl, rfl⟩

theorem updateTypeEvent_ne (n : Nat) {st : NotificationStatus} :
    updateTypeEvent n ≠ some (.connectionStatus st) := by
  unfold updateTypeEvent
  split
  · nofun
  · split <;> nofun

theorem moved_of_step (hlog : l.log = []) (hphase : l.phase ≠ .returned) (ha : ofCurrent a = true)
    (h : l.step options a = some l') : Moved options l l' a := by
  have hnone : l.emitted = [] := by rw [MessageLoop.emitted, hlog]; rfl
  have hquiet : ∀ st, SyncEvent.connectionStatus st ∉ l.emitted := fun st h => by rw [hnone] at h; cases h
  cases a with
  | tick ms => cases ha
  | badUrl error => cases ha
  | cancel => cases ha
  | publish =>
    dsimp only [MessageLoop.step] at h
    split at h <;> obtain rfl := Option.some.inj h
    · exact .still nofun rfl hphase rfl hquiet
    · refine .still nofun rfl hphase rfl ?_
      rw [emitted_missed]
      exact hquiet
  | attempt error =>
    obtain ⟨hst, h⟩ := Option.ite_none_right_eq_some.1 h
    cases error with
    | none =>
      obtain rfl := Option.some.inj h
      refine .accepted rfl ?_
      rw [MessageLoop.connected, emitted_send]
      exact congrArg (· ++ [_]) hnone
    | some error =>
      obtain rfl := Option.some.inj h
      exact moved_attemptFailed hlog (by rw [MessageLoop.isReading, hst]) error
  | message updateType =>
    dsimp only [MessageLoop.step] at h
    split at h
    · next since lastSeen hst =>
      have hreading : l.isReading = true := by rw [MessageLoop.isReading, hst]
      split at h <;> obtain rfl := Option.some.inj h
      · next event hevent =>
        refine .still nofun hreading.symm nofun rfl fun st hst => ?_
        rw [emitted_send] at hst
        rcases List.mem_append.1 hst with hst | hst
        · exact hquiet st hst
        · obtain rfl := List.mem_singleton.1 hst
          obtain ⟨n, -, hn⟩ := Option.bind_eq_some_iff.1 hevent
          exact updateTypeEvent_ne n hn
      · exact .still nofun hreading.symm nofun rfl hquiet
    · cases h
  | traffic =>
    dsimp only [MessageLoop.step] at h
    split at h
    · next since lastSeen hst =>
      obtain rfl := Option.some.inj h
      exact .still nofun (by rw [MessageLoop.isReading, MessageLoop.isReading, hst]) nofun rfl hquiet
    · cases h
  | lost reason =>
    dsimp only [MessageLoop.step] at h
    split at h
    · obtain rfl := Option.some.inj h
      exact moved_connectionLost hlog (.inr ⟨reason, rfl⟩) reason
    · cases h
  | idle =>
    dsimp only [MessageLoop.step] at h
    split at h
    · obtain ⟨-, ⟨⟩⟩ := Option.ite_none_right_eq_some.1 h
      exact moved_connectionLost hlog (.inl rfl) _
    · cases h
  | wake =>
    dsimp only [MessageLoop.step] at h
    split at h
    · next wakeAt hst =>
      obtain ⟨-, ⟨⟩⟩ := Option.ite_none_right_eq_some.1 h
      exact .still nofun (by rw [MessageLoop.isReading, MessageLoop.isReading, hst]) nofun rfl hquiet
    · cases h

end

/-- The state of the mirror once the queue has been drained. -/
def lastState (queue : List SyncEvent) (state : NotificationConnectionState) : NotificationConnectionState :=
  queue.foldl (fun state event =>
    match event with
    | .connectionStatus status => status.state
    | _ => state) state

theorem deliver_of_room {queue events : List SyncEvent} (h : queue.length + events.length ≤ 32) :
    deliver queue events = (queue ++ events, []) := by
  induction events generalizing queue with
  | nil => rw [List.append_nil]; rfl
  | cons event events ih =>
    rw [List.length_cons] at h
    have hroom : queue.length < 32 := by omega
    have hlen : (queue ++ [event]).length + events.length ≤ 32 := by
      simp only [List.length_append, List.length_singleton]; omega
    have hrest := ih hlen
    rw [List.append_assoc] at hrest
    cases event <;> simp only [deliver, if_pos hroom] <;> exact hrest

theorem mem_deliver {queue events : List SyncEvent} {e : SyncEvent}
    (h : e ∈ (deliver queue events).1 ++ (deliver queue events).2) : e ∈ queue ++ events := by
  induction events generalizing queue with
  | nil => exact h
  | cons event events ih =>
    have hsent : e ∈ (queue ++ [event]) ++ events → e ∈ queue ++ event :: events := by
      rw [List.append_assoc]; exact id
    have hdropped : e ∈ queue ++ events → e ∈ queue ++ event :: events := fun h =>
      (List.mem_append.1 h).elim (List.mem_append_left _) fun h =>
        List.mem_append_right _ (List.mem_cons_of_mem _ h)
    by_cases hroom : queue.length < 32
    · cases event <;> simp only [deliver, if_pos hroom] at h <;> exact hsent (ih h)
    · cases event <;> simp only [deliver, if_neg hroom] at h
      · exact hdropped (ih h)
      all_goals exact h

theorem mem_of_mem_sending {queue events : List SyncEvent} {e : SyncEvent} (h : e ∈ (deliver queue events).2) :
    e ∈ events := by
  induction events generalizing queue with
  | nil => cases h
  | cons event events ih =>
    by_cases hroom : queue.length < 32
    · cases event <;> simp only [deliver, if_pos hroom] at h <;> exact List.mem_cons_of_mem _ (ih h)
    · cases event <;> simp only [deliver, if_neg hroom] at h
      · exact List.mem_cons_of_mem _ (ih h)
      all_goals exact h

theorem lastState_append (queue events : List SyncEvent) (state : NotificationConnectionState) :
    lastState (queue ++ events) state = lastState events (lastState queue state) := List.foldl_append

/-- Dropping a status cannot make the mirror say it is connected. -/
theorem lastState_deliver_ne {queue events : List SyncEvent} {state : NotificationConnectionState}
    (hev : ∀ st, .connectionStatus st ∈ events → st.state ≠ .connected)
    (h : lastState queue state ≠ .connected) : lastState (deliver queue events).1 state ≠ .connected := by
  induction events generalizing queue with
  | nil => exact h
  | cons event events ih =>
    have hrest : ∀ st, .connectionStatus st ∈ events → st.state ≠ .connected :=
      fun st hst => hev st (List.mem_cons_of_mem _ hst)
    have hsent : lastState (queue ++ [event]) state ≠ .connected := by
      rw [lastState_append]
      cases event with
      | connectionStatus st => exact hev st (List.mem_cons_self ..)
      | _ => exact h
    by_cases hroom : queue.length < 32
    · cases event <;> simp only [deliver, if_pos hroom] <;> exact ih hrest hsent
    · cases event <;> simp only [deliver, if_neg hroom]
      · exact ih hrest h
      all_goals exact h

/-! ### The invariant -/

/-- A status that reports the handshakes of this client. -/
structure Genuine (s : HubMirror) (id : Nat) (st : NotificationStatus) : Prop where
  connects : st.connects = 0 ∨ ∃ h ∈ s.handshakes, h.client = id ∧ h.connects = st.connects
  connected : st.state = .connected → ∃ h ∈ s.handshakes, h.client = id ∧ h.connects = st.connects

/-- The current client: while its loop has no socket, nothing makes the mirror say that it has one. -/
structure Told (s : HubMirror) (c : HubClient) : Prop where
  alive : c.loop.phase ≠ .returned
  log : c.loop.log = []
  queue : c.loop.isReading = false → lastState c.queue s.mirror.state ≠ .connected
  sending : c.loop.isReading = false → ∀ st, .connectionStatus st ∈ c.sending → st.state ≠ .connected
  connects : c.loop.connects = 0 ∨ ∃ h ∈ s.handshakes, h.client = c.id ∧ h.connects = c.loop.connects
  genuine : ∀ st, .connectionStatus st ∈ c.queue ++ c.sending → Genuine s c.id st

structure Inv (s : HubMirror) : Prop where
  times : ∀ h ∈ s.handshakes, h.time ≤ s.clock
  told : ∀ c, s.client = some c → Told s c
  idle : s.client = none → s.mirror.state ≠ .connected ∧ s.mirror.state ≠ .degraded
  connects : s.mirror.connects = 0 ∨ ∃ h ∈ s.handshakes, h.connects = s.mirror.connects
  lastConnected : ∀ t, s.mirror.lastConnectedAt = some t →
    ∃ h ∈ s.handshakes, s.reported = some (h.client, h.connects) ∧ h.time ≤ t

variable {s s' : HubMirror} {c : HubClient} {options : NotificationOptions} {a : Action}

theorem Inv.faithful (h : s.Inv) (hd : s.Drained) : s.Faithful where
  connected hst := by
    cases hc : s.client with
    | none => exact absurd hst (h.idle hc).1
    | some c =>
      refine ⟨c, rfl, ?_⟩
      by_contra hreading
      have hq := (h.told c hc).queue (Bool.not_eq_true _ ▸ hreading)
      rw [hd c hc] at hq
      exact hq hst
  connects := h.connects
  lastConnected := h.lastConnected
  degraded hst := by
    cases hc : s.client with
    | none => exact absurd hst (h.idle hc).2
    | some c => exact ⟨c, rfl, (h.told c hc).alive⟩

theorem Inv.initial : Inv {} where
  times _ h := nomatch h
  told _ h := nomatch h
  idle _ := ⟨nofun, nofun⟩
  connects := .inl rfl
  lastConnected _ h := nomatch h

theorem Genuine.mono {id : Nat} {st : NotificationStatus} (h : Genuine s id st)
    (hs : ∀ x ∈ s.handshakes, x ∈ s'.handshakes) : Genuine s' id st where
  connects := h.connects.imp_right fun ⟨x, hx, hid⟩ => ⟨x, hs x hx, hid⟩
  connected hst := let ⟨x, hx, hid⟩ := h.connected hst; ⟨x, hs x hx, hid⟩

/-- The mirror and the handshakes stay as they are, and so does what the client is going to report. -/
theorem Inv.of_client (h : s.Inv) (hmirror : s'.mirror = s.mirror) (hhandshakes : s'.handshakes = s.handshakes)
    (hreported : s'.reported = s.reported) (hclock : s.clock ≤ s'.clock)
    (hnone : s'.client = none → s.client = none) (htold : ∀ c, s'.client = some c → Told s' c) : s'.Inv where
  times x hx := Nat.le_trans (h.times x (hhandshakes ▸ hx)) hclock
  told := htold
  idle hc := hmirror ▸ h.idle (hnone hc)
  connects := by rw [hmirror, hhandshakes]; exact h.connects
  lastConnected t ht := by
    rw [hmirror] at ht
    rw [hhandshakes, hreported]
    exact h.lastConnected t ht

theorem Inv.tick (h : s.Inv) (ms : Nat) : Inv { s with
    clock := s.clock + ms
    client := s.client.map fun c => { c with loop := { c.loop with clock := c.loop.clock + ms } } } := by
  refine h.of_client rfl rfl rfl (Nat.le_add_right ..) Option.map_eq_none_iff.1 fun c' hc' => ?_
  obtain ⟨c, hc, rfl⟩ := Option.map_eq_some_iff.1 hc'
  have ht := h.told c hc
  exact ⟨ht.alive, ht.log, ht.queue, ht.sending, ht.connects, fun st hst => (ht.genuine st hst).mono fun _ => id⟩

theorem Inv.beginConnect (h : s.Inv) (url : String) : Inv { s with
    client := none, connecting := true, mirror :=
      (NotificationUpdate.beginConnect url).apply s.clock s.mirror } where
  times := h.times
  told _ hc := nomatch hc
  idle _ := ⟨nofun, nofun⟩
  connects := h.connects
  lastConnected := h.lastConnected

theorem Inv.accepted (h : s.Inv) : Inv { s with
    connecting := false
    clients := s.clients + 1
    client := some (s.newClient true)
    mirror := (NotificationUpdate.applyStatus { state := .connected, connects := 1 }).apply s.clock s.mirror
    handshakes := s.handshakes ++ [⟨s.clients, 1, s.clock⟩]
    reported := some (s.clients, 1) } := by
  have hnew : (⟨s.clients, 1, s.clock⟩ : Handshake) ∈ s.handshakes ++ [⟨s.clients, 1, s.clock⟩] :=
    List.mem_append_right _ (List.mem_singleton_self _)
  exact {
    times := fun x hx => by
      rcases List.mem_append.1 hx with hx | hx
      · exact h.times x hx
      · obtain rfl := List.mem_singleton.1 hx; exact Nat.le_refl _
    told := fun c hc => by
      obtain rfl := Option.some.inj hc
      refine ⟨nofun, rfl, nofun, nofun, .inr ⟨_, hnew, rfl, rfl⟩, fun st hst => ?_⟩
      rcases List.mem_cons.1 hst with hst | hst
      · obtain rfl := SyncEvent.connectionStatus.inj hst
        exact ⟨.inl rfl, nofun⟩
      · obtain rfl := SyncEvent.connectionStatus.inj (List.mem_singleton.1 hst)
        exact ⟨.inr ⟨_, hnew, rfl, rfl⟩, fun _ => ⟨_, hnew, rfl, rfl⟩⟩
    idle := nofun
    connects := .inr ⟨_, hnew, rfl⟩
    lastConnected := fun t ht => by
      obtain rfl := Option.some.inj ht
      exact ⟨_, hnew, rfl, Nat.le_refl _⟩ }

theorem Inv.resume (h : s.Inv) (hc : s.client = some c) : Inv { s with
    client := some { c with
      queue := (deliver c.queue c.sending).1, sending := (deliver c.queue c.sending).2 } } := by
  have ht := h.told c hc
  refine h.of_client rfl rfl rfl (Nat.le_refl _) nofun fun c' hc' => ?_
  obtain rfl := Option.some.inj hc'
  refine ⟨ht.alive, ht.log, fun hr => lastState_deliver_ne (ht.sending hr) (ht.queue hr),
    fun hr st hst => ht.sending hr st (mem_of_mem_sending hst), ht.connects,
    fun st hst => (ht.genuine st (mem_deliver hst)).mono fun _ => id⟩

theorem Inv.drain (h : s.Inv) (hc : s.client = some c) {event : SyncEvent} {events : List SyncEvent}
    (hq : c.queue = event :: events) :
    Inv { s.takeUp c.id event with client := some { c with queue := events } } := by
  have ht := h.told c hc
  have hgenuine : ∀ st, .connectionStatus st ∈ events ++ c.sending → Genuine s c.id st := fun st hst =>
    ht.genuine st (by rw [hq]; exact List.mem_cons_of_mem _ hst)
  cases event with
  | connectionStatus status =>
    have hstatus := ht.genuine status (by rw [hq]; exact List.mem_cons_self ..)
    exact {
      times := h.times
      told := fun c' hc' => by
        obtain rfl := Option.some.inj hc'
        refine ⟨ht.alive, ht.log, fun hr => ?_, ht.sending, ht.connects,
          fun st hst => (hgenuine st hst).mono fun _ => id⟩
        have hqueue := ht.queue hr
        rw [hq] at hqueue
        exact hqueue
      idle := nofun
      connects := hstatus.connects.imp_right fun ⟨x, hx, _, hn⟩ => ⟨x, hx, hn⟩
      lastConnected := fun t hlast => by
        by_cases hst : status.state = .connected
        · obtain ⟨x, hx, hid, hn⟩ := hstatus.connected hst
          simp only [takeUp, NotificationUpdate.apply, if_pos hst] at hlast ⊢
          obtain rfl := Option.some.inj hlast
          exact ⟨x, hx, by rw [hid, hn], h.times x hx⟩
        · simp only [takeUp, NotificationUpdate.apply, if_neg hst] at hlast ⊢
          exact h.lastConnected t hlast }
  | _ =>
    refine h.of_client rfl rfl rfl (Nat.le_refl _) nofun fun c' hc' => ?_
    obtain rfl := Option.some.inj hc'
    refine ⟨ht.alive, ht.log, fun hr => ?_, ht.sending, ht.connects,
      fun st hst => (hgenuine st hst).mono fun _ => id⟩
    have hqueue := ht.queue hr
    rw [hq] at hqueue
    exact hqueue

theorem Told.after (ht : s.Told c) {l' : MessageLoop} {m : MessageLoop.Action} (hm : Moved options c.loop l' m)
    (hroom : m = .idle ∨ (∃ reason, m = .lost reason) → RoomForLoss options c)
    (hmirror : s'.mirror = s.mirror) (hsub : ∀ x ∈ s.handshakes, x ∈ s'.handshakes)
    (hnew : m = .attempt none → ∃ h ∈ s'.handshakes, h.client = c.id ∧ h.connects = l'.connects) :
    Told s' (HubClient.after c l') := by
  have hold : l'.connects = c.loop.connects →
      l'.connects = 0 ∨ ∃ h ∈ s'.handshakes, h.client = c.id ∧ h.connects = l'.connects := fun heq =>
    heq ▸ ht.connects.imp_right fun ⟨x, hx, hid⟩ => ⟨x, hsub x hx, hid⟩
  have hqueued : (∀ st, .connectionStatus st ∈ l'.emitted → Genuine s' c.id st) →
      ∀ st, .connectionStatus st ∈ (deliver c.queue l'.emitted).1 ++ (deliver c.queue l'.emitted).2 →
        Genuine s' c.id st := by
    intro hev st hst
    rcases List.mem_append.1 (mem_deliver hst) with hst | hst
    · exact (ht.genuine st (List.mem_append_left _ hst)).mono hsub
    · exact hev st hst
  have hcut : ∀ st, st.state = .degraded ∧ st.connects = c.loop.connects →
      l'.connects = c.loop.connects → Genuine s' c.id st := fun st hst heq =>
    ⟨by rw [hst.2, ← heq]; exact hold heq, fun hconn => nomatch hst.1.symm.trans hconn⟩
  cases hm with
  | still ha hreading hphase hconnects hev =>
    refine ⟨hphase, rfl, fun hr => ?_, fun _ st hst => absurd (mem_of_mem_sending hst) (hev st), hold hconnects,
      hqueued fun st hst => absurd hst (hev st)⟩
    rw [hmirror]
    exact lastState_deliver_ne (fun st hst => absurd hst (hev st)) (ht.queue (hreading.symm.trans hr))
  | accepted hreading hev =>
    have hread : ¬(HubClient.after c l').loop.isReading = false := by
      intro hr; exact nomatch hreading.symm.trans hr
    refine ⟨?_, rfl, fun hr => absurd hr hread, fun hr => absurd hr hread, .inr (hnew rfl),
      hqueued fun st hst => ?_⟩
    · intro hret
      have hret' : l'.phase = .returned := hret
      rw [MessageLoop.isReading, hret'] at hreading
      cases hreading
    · rw [hev] at hst
      obtain rfl := SyncEvent.connectionStatus.inj (List.mem_singleton.1 hst)
      exact ⟨.inr (hnew rfl), fun _ => hnew rfl⟩
  | refused hreading hphase hconnects hev hl =>
    have hne : ∀ st, .connectionStatus st ∈ l'.emitted → st.state ≠ .connected := fun st hst hconn =>
      nomatch (hev st hst).1.symm.trans hconn
    refine ⟨hphase, rfl, fun _ => ?_, fun _ st hst => hne st (mem_of_mem_sending hst), hold hconnects,
      hqueued fun st hst => hcut st (hev st hst) hconnects⟩
    rw [hmirror]
    exact lastState_deliver_ne hne (ht.queue hl)
  | lost ha hphase hconnects status hstatus hev =>
    -- the report of the loss fits into the queue, so it is what the mirror comes to say
    have hfits : deliver c.queue l'.emitted = (c.queue ++ l'.emitted, []) := by
      refine deliver_of_room ?_
      have hroom := hroom ha
      unfold RoomForLoss at hroom
      rw [hev, List.length_append, List.length_singleton]
      split at hroom <;> rename_i hdue
      · rw [if_pos hdue, List.length_singleton]; omega
      · rw [if_neg hdue, List.length_nil]; omega
    refine ⟨hphase, rfl, fun _ => ?_, fun _ st hst => ?_, hold hconnects, hqueued fun st hst => ?_⟩
    · show lastState (deliver c.queue l'.emitted).1 s'.mirror.state ≠ .connected
      rw [hfits, hev, ← List.append_assoc, lastState_append]
      intro hconn
      exact nomatch hstatus.1.symm.trans hconn
    · rw [show (HubClient.after c l').sending = (deliver c.queue l'.emitted).2 from rfl, hfits] at hst
      cases hst
    · rw [hev] at hst
      rcases List.mem_append.1 hst with hst | hst
      · split at hst
        · exact nomatch List.mem_singleton.1 hst
        · cases hst
      · obtain rfl := SyncEvent.connectionStatus.inj (List.mem_singleton.1 hst)
        exact hcut _ hstatus hconnects

theorem Inv.record (h : s.Inv) {u : NotificationUpdate} (hu : besideConnection u = true) :
    Inv { s with mirror := u.apply s.clock s.mirror } := by
  have hstate : (u.apply s.clock s.mirror).state = s.mirror.state := by cases u <;> first | rfl | cases hu
  have hconnects : (u.apply s.clock s.mirror).connects = s.mirror.connects := by
    cases u <;> first | rfl | cases hu
  have hlast : (u.apply s.clock s.mirror).lastConnectedAt = s.mirror.lastConnectedAt := by
    cases u <;> first | rfl | cases hu
  exact {
    times := h.times
    told := fun c hc => by
      have ht := h.told c hc
      exact ⟨ht.alive, ht.log, fun hr => hstate ▸ ht.queue hr, ht.sending, ht.connects,
        fun st hst => (ht.genuine st hst).mono fun _ => id⟩
    idle := fun hc => hstate ▸ h.idle hc
    connects := hconnects ▸ h.connects
    lastConnected := fun t ht => h.lastConnected t (hlast ▸ ht) }

theorem Inv.forget (h : s.Inv) :
    Inv { s with client := none, connecting := false, mirror := {}, reported := none } where
  times := h.times
  told _ hc := nomatch hc
  idle _ := ⟨nofun, nofun⟩
  connects := .inl rfl
  lastConnected _ ht := nomatch ht

theorem Inv.loop (h : s.Inv) {m : MessageLoop.Action} (hs : s.Sound options (.loop m)) (hc : s.client = some c)
    {l' : MessageLoop} (hm : Moved options c.loop l' m) : Inv { s with
      client := some (c.after l')
      handshakes :=
        if m = .attempt none then s.handshakes ++ [⟨c.id, l'.connects, s.clock⟩] else s.handshakes } := by
  have ht := h.told c hc
  have hroom : m = .idle ∨ (∃ reason, m = .lost reason) → RoomForLoss options c := by
    rintro (rfl | ⟨reason, rfl⟩) <;> exact hs c hc
  have hsub : ∀ x ∈ s.handshakes,
      x ∈ if m = .attempt none then s.handshakes ++ [⟨c.id, l'.connects, s.clock⟩] else s.handshakes := by
    intro x hx
    split
    · exact List.mem_append_left _ hx
    · exact hx
  exact {
    times := fun x hx => by
      dsimp only at hx
      split at hx
      · rcases List.mem_append.1 hx with hx | hx
        · exact h.times x hx
        · obtain rfl := List.mem_singleton.1 hx; exact Nat.le_refl _
      · exact h.times x hx
    told := fun c' hc' => by
      obtain rfl := Option.some.inj hc'
      refine ht.after hm hroom rfl hsub fun ha => ?_
      simp only [if_pos ha]
      exact ⟨_, List.mem_append_right _ (List.mem_singleton_self _), rfl, rfl⟩
    idle := nofun
    connects := h.connects.imp_right fun ⟨x, hx, hn⟩ => ⟨x, hsub x hx, hn⟩
    lastConnected := fun t hlast => by
      obtain ⟨x, hx, hreported⟩ := h.lastConnected t hlast
      exact ⟨x, hsub x hx, hreported⟩ }

theorem Inv.step (h : s.Inv) (hs : s.Sound options a) (ha : s.step options a = some s') : s'.Inv := by
  cases a with
  | tick ms => obtain rfl := Option.some.inj ha; exact h.tick ms
  | beginConnect url => obtain rfl := Option.some.inj ha; exact h.beginConnect url
  | connectResult eager =>
    obtain rfl : eager = .accepted := hs
    obtain ⟨-, ⟨⟩⟩ := Option.ite_none_right_eq_some.1 ha
    exact h.accepted
  | loop m =>
    obtain ⟨c, hc, ha⟩ := Option.bind_eq_some_iff.1 ha
    obtain ⟨hm, ha⟩ := Option.ite_none_right_eq_some.1 ha
    obtain ⟨l', hl, ⟨⟩⟩ := Option.bind_eq_some_iff.1 ha
    exact h.loop hs hc (moved_of_step (h.told c hc).log (h.told c hc).alive hm.2 hl)
  | resume =>
    obtain ⟨c, hc, ⟨⟩⟩ := Option.bind_eq_some_iff.1 ha
    exact h.resume hc
  | drain =>
    obtain ⟨c, hc, ha⟩ := Option.bind_eq_some_iff.1 ha
    split at ha
    · cases ha
    · next event events hq => obtain rfl := Option.some.inj ha; exact h.drain hc hq
  | record u =>
    obtain ⟨hu, ⟨⟩⟩ := Option.ite_none_right_eq_some.1 ha
    exact h.record hu
  | forget => obtain rfl := Option.some.inj ha; exact h.forget

/-- While every new client is connected at once and no loss is reported to a full queue, the daemon
says of the connection what is so, whenever it has taken up what the client had to say. -/
theorem connectionState_faithful (h : Reach (step options) (Sound options) {} s) (hd : s.Drained) : s.Faithful :=
  (h.invariant (I := Inv) Inv.initial fun _ _ _ hi hc hs => hi.step hc hs).faithful hd

/-- A client is connected, loses its connection and connects again. -/
def reconnected : List Action :=
  [.beginConnect "https://hub", .connectResult .accepted, .resume, .drain, .drain, .tick 5000,
    .loop (.lost "hub ended the stream"), .drain, .drain, .tick 1000, .loop .wake, .loop (.attempt none), .drain]

instance (options : NotificationOptions) (c : HubClient) : Decidable (RoomForLoss options c) :=
  inferInstanceAs (Decidable (_ < _))

instance (options : NotificationOptions) (s : HubMirror) (a : Action) : Decidable (s.Sound options a) := by
  unfold Sound
  split <;> infer_instance

theorem replay_reconnected : (Reach.replay (step {}) (Sound {}) {} reconnected).isSome := by decide

theorem connectionState_faithful_reconnected :
    ∃ s : HubMirror, Reach (step {}) (Sound {}) {} s ∧ s.mirror.state = .connected ∧ s.mirror.connects = 2 ∧
      s.mirror.lastConnectedAt = some 6000 ∧ s.Faithful := by
  have hr := Reach.of_replay_isSome replay_reconnected
  refine ⟨_, hr, by decide, by decide +kernel, by decide +kernel, connectionState_faithful hr fun c hc => ?_⟩
  obtain rfl := Option.some.inj hc
  rfl

/-- An attempt that takes too long leaves no client behind. -/
def timedOut : List Action := [.beginConnect "https://hub", .connectResult .timedOut]

theorem replay_timedOut : (Reach.replay (step {}) (fun _ _ => True) {} timedOut).isSome := by decide

theorem connectionState_unfaithful :
    ¬∀ (options : NotificationOptions) (s : HubMirror),
      Reach (step options) (fun _ _ => True) {} s → s.Drained → s.Faithful := by
  intro h
  have hf := h {} _ (Reach.of_replay_isSome replay_timedOut) (fun c hc => nomatch hc)
  obtain ⟨c, hc, -⟩ := hf.degraded (by decide)
  cases hc

end HubMirror

end SshWarden
