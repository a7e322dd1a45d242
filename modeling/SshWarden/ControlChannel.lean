import SshWarden.AutoLock
import SshWarden.ControlLines
import SshWarden.Lib.Mailbox
import SshWarden.Signing

/-!
# The control channel and the main loop (`crates/sshwarden-agent/src/control.rs`, `src/daemon.rs`)

Every client has a task in the daemon that reads its line and puts the action into a channel; the main loop takes the
actions out of it one by one, runs each under a watchdog and replies. `ControlChannel.Step` puts the clients, the channel
and `daemonLoop` together. Whatever the order of their steps, a client gets the answer to its own command, which the main
loop has handled once, or an error if it has not handled it (`responses_are_own`).
-/

namespace SshWarden
open Prog

def controlActionTimeout : ControlAction → Nat
  | .unlock | .unlockHello | .unlockNative | .bindHostsDialog => 15 * 60
  | _ => 120

def controlActionLabel : ControlAction → String
  | .lock => "lock"
  | .unlock => "unlock"
  | .unlockPin _ => "unlock-pin"
  | .unlockHello => "unlock-hello"
  | .unlockNative => "unlock-native"
  | .unlockPassword _ => "unlock-password"
  | .status _ => "status"
  | .sync => "sync"
  | .setPin _ => "set-pin"
  | .forget _ => "forget"
  | .stop => "stop"
  | .bindHostsDialog => "bind-hosts-dialog"

/-- The reply for an action that has been dropped. -/
def timedOut (action : ControlAction) : ControlResponse :=
  .err (s!"Control action '{controlActionLabel action}' timed out after {controlActionTimeout action}s and was " ++
    "aborted; the agent is still running. Check the daemon log for what it was doing.")

/-- A client and what the daemon has made of its line: nothing, an error, or a request for the main loop. -/
structure ControlClient where
  cmd : String
  received : Option (Except ControlResponse Nat)

/-- The request of a client to the main loop. -/
def ControlClient.asked? (client : ControlClient) : Option Nat := client.received.bind Except.toOption

/-- What the main loop has done for a request: its steps, its reply, and the state at the reply. `alone` if no request
of the agent was being handled when the action was taken up. -/
structure Handled where
  caller : Nat
  action : ControlAction
  alone : Bool
  events : List LoopEvent
  state : Daemon
  response : ControlResponse

/-- `events` and `alone` are about the event that is being handled. -/
structure ControlChannel where
  clients : List ControlClient := []
  mailbox : Mailbox ControlAction ControlResponse := {}
  daemon : DaemonConf
  events : List LoopEvent := []
  alone : Bool := false
  handled : List Handled := []

namespace ControlChannel

/-- The channel has 16 places. -/
def rules : Mailbox.Rules ControlResponse where
  capacity := 16
  refused := .err "Agent is shutting down"
  dropped := .err "Internal error: no reply from agent"

/-- A client has connected, and its line has been read. -/
def connect (W : ControlWire) (x : ControlChannel) (cmd : String) : ControlChannel :=
  match receive W cmd with
  | none => { x with clients := x.clients ++ [⟨cmd, none⟩] }
  | some (.error response) => { x with clients := x.clients ++ [⟨cmd, some (.error response)⟩] }
  | some (.ok action) =>
    { x with
      clients := x.clients ++ [⟨cmd, some (.ok x.mailbox.callers.length)⟩]
      mailbox := { x.mailbox with callers := x.mailbox.callers ++ [{ request := action }] } }

/-- What is written back to a client. -/
def response? (x : ControlChannel) (client : ControlClient) : Option ControlResponse :=
  match client.received with
  | none => none
  | some (.error response) => some response
  | some (.ok i) =>
    match x.mailbox.callers[i]? with
    | some ⟨_, .returned response⟩ => some response
    | _ => none

/-- The moves of the daemon that are none of the channel. After the loop has ended nothing is taken up. -/
def Allows (x : ControlChannel) : DaemonMove → Prop
  | .take ev => (∀ action, ev ≠ .control action) ∧ x.mailbox.closed = false
  | .spawn _ => x.mailbox.closed = false
  | .ends | .drops => x.mailbox.serving = none
  | _ => True

/-- Clients, the main loop and the handlers of the agent's requests take their steps in any order. -/
inductive Step (E : Crates) (cfg : Config) (W : ControlWire) (x : ControlChannel) : ControlChannel → Prop
  | connect (cmd : String) : Step E cfg W x (x.connect W cmd)
  | send {i : Nat} {m : Mailbox ControlAction ControlResponse} (h : x.mailbox.step rules (.send i) = some m) :
    Step E cfg W x { x with mailbox := m }
  | refuse {i : Nat} {m : Mailbox ControlAction ControlResponse} (h : x.mailbox.step rules (.refuse i) = some m) :
    Step E cfg W x { x with mailbox := m }
  | take {i : Nat} {c : Mailbox.Caller ControlAction ControlResponse} {m : Mailbox ControlAction ControlResponse}
      {d : DaemonConf} (hc : x.mailbox.callers[i]? = some c) (hm : x.mailbox.step rules (.take i) = some m)
      (h : Loop.Step (daemonLoop E cfg) x.daemon (.take (.control c.request)) d) :
    Step E cfg W x { x with mailbox := m, daemon := d, events := [], alone := decide (x.daemon.running = 0) }
  | ends {i : Nat} {action : ControlAction} {response : ControlResponse}
    {m : Mailbox ControlAction ControlResponse}
      {d : DaemonConf} (hi : x.mailbox.serving = some i) (hcur : x.daemon.current = some (.control action, ret ()))
      (hr : Runs (expand inSteps (handleControlCommand E cfg action)) x.events response)
      (hm : x.mailbox.step rules (.reply response) = some m) (h : Loop.Step (daemonLoop E cfg) x.daemon .ends d) :
    Step E cfg W x
      { x with
        mailbox := m
        daemon := d
        handled := x.handled ++ [⟨i, action, x.alone, x.events, d.state, response⟩] }
  | drops {i : Nat} {action : ControlAction} {p : LProg Unit} {m : Mailbox ControlAction ControlResponse}
    {d : DaemonConf}
      (hi : x.mailbox.serving = some i) (hcur : x.daemon.current = some (.control action, p))
      (hm : x.mailbox.step rules (.reply (timedOut action)) = some m)
      (h : Loop.Step (daemonLoop E cfg) x.daemon .drops d) :
    Step E cfg W x
      { x with
        mailbox := m
        daemon := d
        handled := x.handled ++ [⟨i, action, x.alone, x.events, d.state, timedOut action⟩] }
  /-- `stop` is answered by the loop itself, which ends then. -/
  | stop {i : Nat} {c : Mailbox.Caller ControlAction ControlResponse}
    {m₁ m₂ m : Mailbox ControlAction ControlResponse}
      (hc : x.mailbox.callers[i]? = some c) (hstop : c.request = .stop) (hidle : x.daemon.current = none)
      (h₁ : x.mailbox.step rules (.take i) = some m₁)
      (h₂ : m₁.step rules (.reply (.success "Stopping agent")) = some m₂) (h₃ : m₂.step rules .close = some m) :
    Step E cfg W x
      { x with
        mailbox := m
        handled := x.handled ++
          [⟨i, .stop, decide (x.daemon.running = 0), [], x.daemon.state, .success "Stopping agent"⟩] }
  /-- The agent's transport has failed, or Ctrl+C. -/
  | close {m : Mailbox ControlAction ControlResponse} (hidle : x.daemon.current = none)
      (h : x.mailbox.step rules .close = some m) : Step E cfg W x { x with mailbox := m }
  | daemon {mv : DaemonMove} {d : DaemonConf} (hmv : x.Allows mv)
    (h : Loop.Step (daemonLoop E cfg) x.daemon mv d) :
    Step E cfg W x { x with daemon := d, events := Loop.noteMain x.events x.daemon mv }
  | exits {agent : Agent} (h : Signing.Exits x.daemon.state.agent agent) :
    Step E cfg W x { x with daemon := { x.daemon with state.agent := agent } }

/-- The control server has been started, and the main loop has taken nothing up. -/
def initial (s : Daemon) : ControlChannel where
  daemon := beforeRequests s

inductive Leads (E : Crates) (cfg : Config) (W : ControlWire) (x₀ : ControlChannel) : ControlChannel → Prop
  | refl : Leads E cfg W x₀ x₀
  | step {x x' : ControlChannel} (h : Leads E cfg W x₀ x) (hs : Step E cfg W x x') : Leads E cfg W x₀ x'

/-! ### What holds in every state -/

/-- How the handling of an action has ended. -/
inductive Done (E : Crates) (cfg : Config) (h : Handled) : Prop
  | stop (ha : h.action = .stop) (hr : h.response = .success "Stopping agent")
  | ended (hr : Runs (expand inSteps (handleControlCommand E cfg h.action)) h.events h.response)
  | dropped {p : LProg Unit} (hp : Reaches ((daemonLoop E cfg).handle (.control h.action)) h.events p)
      (ho : ∃ o k, p = .vis o k ∧ o.awaits = true) (hr : h.response = timedOut h.action)

structure Inv (E : Crates) (cfg : Config) (W : ControlWire) (x : ControlChannel) : Prop where
  mailbox : Mailbox.Inv rules x.mailbox
  logged : Loop.MainLogged (daemonLoop E cfg) x.daemon x.events
  serving : ∀ i, x.mailbox.serving = some i →
    ∃ c p, x.mailbox.callers[i]? = some c ∧ x.daemon.current = some (.control c.request, p)
  served : x.mailbox.served = x.handled.map fun h => (h.caller, h.response)
  handled : ∀ h ∈ x.handled, Done E cfg h ∧ ∃ c, x.mailbox.callers[h.caller]? = some c ∧ c.request = h.action
  asked : ∀ client ∈ x.clients, ∀ i, client.received = some (.ok i) →
    ∃ c, x.mailbox.callers[i]? = some c ∧ receive W client.cmd = some (.ok c.request)
  rejected : ∀ client ∈ x.clients, ∀ response, client.received = some (.error response) →
    receive W client.cmd = some (.error response)
  distinct : (x.clients.filterMap ControlClient.asked?).Nodup

variable {E : Crates} {cfg : Config} {W : ControlWire} {x x' : ControlChannel}

theorem Inv.start (s : Daemon) : Inv E cfg W (initial s) where
  mailbox := .start rules
  logged _ _ hcur := by cases hcur
  serving _ hi := by cases hi
  served := rfl
  handled _ hh := (List.not_mem_nil hh).elim
  asked _ hc := (List.not_mem_nil hc).elim
  rejected _ hc := (List.not_mem_nil hc).elim
  distinct := List.nodup_nil

theorem Inv.asked_lt (h : Inv E cfg W x) {i : Nat} (hi : i ∈ x.clients.filterMap ControlClient.asked?) :
    i < x.mailbox.callers.length := by
  obtain ⟨client, hclient, hasked⟩ := List.mem_filterMap.1 hi
  obtain ⟨received, hreceived, hok⟩ := Option.bind_eq_some_iff.1 hasked
  cases received with
  | error response => cases hok
  | ok j =>
    obtain rfl := Option.some.inj hok
    obtain ⟨c, hc, -⟩ := h.asked client hclient j hreceived
    exact (List.getElem?_eq_some_iff.1 hc).1

/-- The clients and the records of what has been handled are the same beside another mailbox that extends the old one. -/
theorem Inv.of_extends (h : Inv E cfg W x) (hm : Mailbox.Inv rules x'.mailbox)
    (hext : x.mailbox.Extends x'.mailbox)
    (hclients : x'.clients = x.clients) (hlogged : Loop.MainLogged (daemonLoop E cfg) x'.daemon x'.events)
    (hserving : ∀ i, x'.mailbox.serving = some i →
      ∃ c p, x'.mailbox.callers[i]? = some c ∧ x'.daemon.current = some (.control c.request, p))
    (hserved : x'.mailbox.served = x'.handled.map fun h => (h.caller, h.response))
    (hhandled : ∀ y ∈ x'.handled, y ∈ x.handled ∨
      Done E cfg y ∧ ∃ c, x'.mailbox.callers[y.caller]? = some c ∧ c.request = y.action) : Inv E cfg W x' where
  mailbox := hm
  logged := hlogged
  serving := hserving
  served := hserved
  handled y hy := by
    rcases hhandled y hy with hold | hnew
    · obtain ⟨hdone, c, hc, hreq⟩ := h.handled y hold
      obtain ⟨c', hc', hreq', -⟩ := hext.callers _ c hc
      exact ⟨hdone, c', hc', hreq'.trans hreq⟩
    · exact hnew
  asked client hclient i hi := by
    rw [hclients] at hclient
    obtain ⟨c, hc, hreceive⟩ := h.asked client hclient i hi
    obtain ⟨c', hc', hreq, -⟩ := hext.callers i c hc
    exact ⟨c', hc', hreq ▸ hreceive⟩
  rejected := hclients ▸ h.rejected
  distinct := hclients ▸ h.distinct

theorem Inv.connect (h : Inv E cfg W x) (cmd : String) : Inv E cfg W (x.connect W cmd) := by
  have hold : ∀ {client new : ControlClient}, client ∈ x.clients ++ [new] → client ∈ x.clients ∨ client = new :=
    fun hin => (List.mem_append.1 hin).imp_right List.mem_singleton.1
  unfold ControlChannel.connect
  split
  · next hreceive =>
    refine ⟨h.mailbox, h.logged, h.serving, h.served, h.handled, fun client hin i hi => ?_,
      fun client hin r hr => ?_, ?_⟩
    · rcases hold hin with hin | rfl
      · exact h.asked client hin i hi
      · cases hi
    · rcases hold hin with hin | rfl
      · exact h.rejected client hin r hr
      · cases hr
    · rw [List.filterMap_append]
      exact (List.append_nil _).symm ▸ h.distinct
  · next response hreceive =>
    refine ⟨h.mailbox, h.logged, h.serving, h.served, h.handled, fun client hin i hi => ?_,
      fun client hin r hr => ?_, ?_⟩
    · rcases hold hin with hin | rfl
      · exact h.asked client hin i hi
      · cases hi
    · rcases hold hin with hin | rfl
      · exact h.rejected client hin r hr
      · cases hr
        exact hreceive
    · rw [List.filterMap_append]
      exact (List.append_nil _).symm ▸ h.distinct
  · next action hreceive =>
    have hstep : x.mailbox.step rules (.call action) =
      some { x.mailbox with callers := x.mailbox.callers ++ [{ request := action }] } := rfl
    have hext := h.mailbox.extends hstep
    have hcallers : ∀ {i : Nat} {c : Mailbox.Caller ControlAction ControlResponse},
      x.mailbox.callers[i]? = some c →
        (x.mailbox.callers ++ [{ request := action }])[i]? = some c := fun hc =>
      (List.getElem?_append_left (List.getElem?_eq_some_iff.1 hc).1).trans hc
    refine ⟨h.mailbox.step hstep, h.logged, fun i hi => ?_, h.served, fun y hy => ?_, fun client hin i hi => ?_,
      fun client hin r hr => ?_, ?_⟩
    · obtain ⟨c, p, hc, hcur⟩ := h.serving i hi
      exact ⟨c, p, hcallers hc, hcur⟩
    · obtain ⟨hdone, c, hc, hreq⟩ := h.handled y hy
      exact ⟨hdone, c, hcallers hc, hreq⟩
    · rcases hold hin with hin | rfl
      · obtain ⟨c, hc, hreceived⟩ := h.asked client hin i hi
        exact ⟨c, hcallers hc, hreceived⟩
      · cases hi
        exact ⟨_, List.getElem?_concat_length .., hreceive⟩
    · rcases hold hin with hin | rfl
      · exact h.rejected client hin r hr
      · cases hr
    · rw [List.filterMap_append]
      refine List.nodup_append'.2 ⟨h.distinct, List.nodup_singleton _, fun i hi hnew => ?_⟩
      obtain rfl := List.mem_singleton.1 hnew
      exact absurd (h.asked_lt hi) (Nat.lt_irrefl _)

/-- What was known of the request that is being handled is still known beside a mailbox that extends the old one. -/
theorem Inv.serving_of_extends (h : Inv E cfg W x) (hext : x.mailbox.Extends x'.mailbox)
    (hsame : x'.mailbox.serving = x.mailbox.serving) (hcurrent : x'.daemon.current = x.daemon.current) :
    ∀ i, x'.mailbox.serving = some i →
      ∃ c p, x'.mailbox.callers[i]? = some c ∧ x'.daemon.current = some (.control c.request, p) := by
  intro i hi
  obtain ⟨c, p, hc, hcur⟩ := h.serving i (hsame ▸ hi)
  obtain ⟨c', hc', hreq, -⟩ := hext.callers i c hc
  exact ⟨c', p, hc', hreq ▸ hcurrent.trans hcur⟩

/-- A reply to the request that is being handled. -/
theorem Inv.reply (h : Inv E cfg W x) {i : Nat} {action : ControlAction} {p : LProg Unit}
    {response : ControlResponse}
    {m : Mailbox ControlAction ControlResponse} {d : DaemonConf} (hi : x.mailbox.serving = some i)
    (hcur : x.daemon.current = some (.control action, p)) (hm : x.mailbox.step rules (.reply response) = some m)
    (hd : d.current = none) (hdone : Done E cfg ⟨i, action, x.alone, x.events, d.state, response⟩) :
    Inv E cfg W
      { x with
        mailbox := m
        daemon := d
        handled := x.handled ++ [⟨i, action, x.alone, x.events, d.state, response⟩] } := by
  have hext := h.mailbox.extends hm
  have hminv := h.mailbox.step hm
  obtain ⟨c, p', hc, hcur'⟩ := h.serving i hi
  obtain ⟨c', hc', hreq, -⟩ := hext.callers i c hc
  have haction : c.request = action := by
    rw [hcur] at hcur'
    cases hcur'
    rfl
  obtain ⟨hfree, hserved, -⟩ := Mailbox.step_reply hi hm
  refine h.of_extends hminv hext rfl (fun ev p hcur => ?_) (fun j hj => ?_) ?_ fun y hy => ?_
  · rw [hd] at hcur
    cases hcur
  · rw [hfree] at hj
    cases hj
  · rw [hserved, h.served, List.map_append]
    rfl
  · rcases List.mem_append.1 hy with hy | hy
    · exact .inl hy
    · obtain rfl := List.mem_singleton.1 hy
      exact .inr ⟨hdone, c', hc', hreq.trans haction⟩

theorem Inv.step (h : Inv E cfg W x) (hs : Step E cfg W x x') : Inv E cfg W x' := by
  cases hs with
  | connect cmd => exact h.connect cmd
  | send hm =>
    have hext := h.mailbox.extends hm
    have hminv := h.mailbox.step hm
    obtain ⟨-, heq⟩ := Option.ite_none_right_eq_some.1 hm
    obtain rfl := Option.some.inj heq
    exact h.of_extends hminv hext rfl h.logged (h.serving_of_extends hext rfl rfl) h.served fun y hy => .inl hy
  | refuse hm =>
    have hext := h.mailbox.extends hm
    have hminv := h.mailbox.step hm
    obtain ⟨-, heq⟩ := Option.ite_none_right_eq_some.1 hm
    obtain rfl := Option.some.inj heq
    exact h.of_extends hminv hext rfl h.logged (h.serving_of_extends hext rfl rfl) h.served fun y hy => .inl hy
  | @take i c m d hc hm hd =>
    have hext := h.mailbox.extends hm
    have hminv := h.mailbox.step hm
    obtain ⟨-, -, -, rfl⟩ := Mailbox.step_take hm
    refine h.of_extends hminv hext rfl ?_ (fun j hj => ?_) h.served fun y hy => .inl hy
    · exact h.logged.step hd
    · obtain rfl := Option.some.inj hj
      exact ⟨c, _, hc, hd.of_take.1⟩
  | ends hi hcur hr hm hd => exact h.reply hi hcur hm hd.of_ends.1 (.ended hr)
  | @drops i action p m d hi hcur hm hd =>
    obtain ⟨⟨hnone, -⟩, ev, o, k, hcur', -, hawaits⟩ := hd.of_drops
    have hp : p = .vis o k := by
      rw [hcur] at hcur'
      cases hcur'
      rfl
    exact h.reply hi hcur hm hnone (.dropped (h.logged _ _ hcur) ⟨o, k, hp, hawaits⟩ rfl)
  | @stop i c m₁ m₂ m hc hstop hidle h₁ h₂ h₃ =>
    have hinv₁ := h.mailbox.step h₁
    have hinv₂ := hinv₁.step h₂
    have hext : x.mailbox.Extends m :=
      ((h.mailbox.extends h₁).trans (hinv₁.extends h₂)).trans (hinv₂.extends h₃)
    obtain ⟨c', hc', hreq, -⟩ := hext.callers i c hc
    obtain ⟨-, -, -, hm₁⟩ := Mailbox.step_take h₁
    obtain ⟨-, hserved₂, -⟩ := Mailbox.step_reply (i := i) (by rw [hm₁]) h₂
    obtain ⟨hfree, hserved₃, -⟩ := Mailbox.step_close h₃
    refine h.of_extends (hinv₂.step h₃) hext rfl (fun ev p hcur => ?_) (fun j hj => ?_) ?_ fun y hy => ?_
    · rw [hidle] at hcur
      cases hcur
    · rw [hfree] at hj
      cases hj
    · rw [hserved₃, hserved₂, hm₁, h.served, List.map_append]
      rfl
    · rcases List.mem_append.1 hy with hy | hy
      · exact .inl hy
      · obtain rfl := List.mem_singleton.1 hy
        exact .inr ⟨.stop rfl rfl, c', hc', hreq.trans hstop⟩
  | close hidle hm =>
    have hext := h.mailbox.extends hm
    have hminv := h.mailbox.step hm
    obtain ⟨hfree, hserved, -⟩ := Mailbox.step_close hm
    refine h.of_extends hminv hext rfl h.logged (fun j hj => ?_) (hserved.trans h.served) fun y hy => .inl hy
    rw [hfree] at hj
    cases hj
  | @daemon mv d hmv hd =>
    refine h.of_extends h.mailbox (.refl _) rfl (h.logged.step hd) (fun i hi => ?_) h.served fun y hy => .inl hy
    obtain ⟨c, p, hc, hcur⟩ := h.serving i hi
    have hfree : x.mailbox.serving ≠ none := by
      rw [show x.mailbox.serving = some i from hi]; exact Option.some_ne_none i
    rcases hd.current hcur with rfl | rfl | ⟨p', hcur'⟩
    · exact absurd hmv hfree
    · exact absurd hmv hfree
    · exact ⟨c, p', hc, hcur'⟩
  | exits ha =>
    exact h.of_extends h.mailbox (.refl _) rfl h.logged
      (h.serving_of_extends (.refl _) rfl rfl) h.served fun y hy => .inl hy

theorem Leads.inv {s : Daemon} (h : Leads E cfg W (initial s) x) : Inv E cfg W x := by
  induction h with
  | refl => exact .start s
  | step _ hs ih => exact ih.step hs

theorem Leads.trans {x₀ x₁ : ControlChannel} (h : Leads E cfg W x₀ x₁) (h' : Leads E cfg W x₁ x) :
    Leads E cfg W x₀ x := by
  induction h' with
  | refl => exact h
  | step _ hs ih => exact ih.step hs

theorem Inv.leads (h : Inv E cfg W x) (h' : Leads E cfg W x x') : Inv E cfg W x' := by
  induction h' with
  | refl => exact h
  | step _ hs ih => exact ih.step hs

/-- Clients stay, nothing is taken back from the mailbox, and what has been handled stays in its order. -/
structure Continues (x x' : ControlChannel) : Prop where
  clients : x.clients <+: x'.clients
  mailbox : x.mailbox.Extends x'.mailbox
  handled : x.handled <+: x'.handled

theorem Continues.refl (x : ControlChannel) : Continues x x := ⟨List.prefix_rfl, .refl _, List.prefix_rfl⟩

theorem Continues.trans {x₀ x₁ : ControlChannel} (h : Continues x₀ x₁) (h' : Continues x₁ x) : Continues x₀ x :=
  ⟨h.clients.trans h'.clients, h.mailbox.trans h'.mailbox, h.handled.trans h'.handled⟩

theorem Inv.continues_step (h : Inv E cfg W x) (hs : Step E cfg W x x') : Continues x x' := by
  cases hs with
  | connect cmd =>
    unfold ControlChannel.connect
    split
    · exact ⟨List.prefix_append .., .refl _, List.prefix_rfl⟩
    · exact ⟨List.prefix_append .., .refl _, List.prefix_rfl⟩
    · next action _ => exact ⟨List.prefix_append .., h.mailbox.extends (a := .call action) rfl, List.prefix_rfl⟩
  | send hm | refuse hm | close _ hm => exact ⟨List.prefix_rfl, h.mailbox.extends hm, List.prefix_rfl⟩
  | take _ hm _ => exact ⟨List.prefix_rfl, h.mailbox.extends hm, List.prefix_rfl⟩
  | ends _ _ _ hm _ | drops _ _ hm _ => exact ⟨List.prefix_rfl, h.mailbox.extends hm, List.prefix_append ..⟩
  | stop _ _ _ h₁ h₂ h₃ =>
    have hinv₁ := h.mailbox.step h₁
    have hinv₂ := hinv₁.step h₂
    exact ⟨List.prefix_rfl, ((h.mailbox.extends h₁).trans (hinv₁.extends h₂)).trans (hinv₂.extends h₃),
      List.prefix_append ..⟩
  | daemon _ _ | exits _ => exact ⟨List.prefix_rfl, .refl _, List.prefix_rfl⟩

theorem Inv.continues (h : Inv E cfg W x) (h' : Leads E cfg W x x') : Continues x x' := by
  induction h' with
  | refl => exact .refl x
  | step hl hs ih => exact ih.trans ((h.leads hl).continues_step hs)

/-- The response comes from the client's own line, which asks for no action, or from the one handling of its own action,
or it says that the daemon has stopped, and the action has not been handled. -/
def AnsweredOwn (E : Crates) (cfg : Config) (W : ControlWire) (x : ControlChannel) (client : ControlClient)
    (response : ControlResponse) : Prop :=
  receive W client.cmd = some (.error response) ∨
    ∃ action i, receive W client.cmd = some (.ok action) ∧ client.received = some (.ok i) ∧
      ((∃ y ∈ x.handled, y.caller = i ∧ y.action = action ∧ y.response = response ∧ Done E cfg y) ∨
        (x.mailbox.closed = true ∧ i ∉ x.handled.map Handled.caller ∧
          (response = rules.refused ∨ response = rules.dropped)))

theorem Inv.callers_served (h : Inv E cfg W x) : x.mailbox.served.map Prod.fst = x.handled.map Handled.caller := by
  rw [h.served, List.map_map]
  rfl

theorem exists_of_response? {client : ControlClient} {response : ControlResponse}
    (h : x.response? client = some response) :
    client.received = some (.error response) ∨
      ∃ i c, client.received = some (.ok i) ∧ x.mailbox.callers[i]? = some c ∧ c.stage = .returned response := by
  unfold response? at h
  split at h
  · cases h
  · next hreceived => exact .inl (hreceived.trans (congrArg (some ∘ Except.error) (Option.some.inj h)))
  · next i hreceived =>
    split at h
    · next action response' hi =>
      obtain rfl := Option.some.inj h
      exact .inr ⟨i, _, hreceived, hi, rfl⟩
    · cases h

theorem Inv.answeredOwn (h : Inv E cfg W x) {client : ControlClient} (hclient : client ∈ x.clients)
    {response : ControlResponse}
    (hresponse : x.response? client = some response) : AnsweredOwn E cfg W x client response := by
  rcases exists_of_response? hresponse with hrejected | ⟨i, c, hasked, hc, hstage⟩
  · exact .inl (h.rejected client hclient response hrejected)
  · obtain ⟨c', hc', hreceive⟩ := h.asked client hclient i hasked
    obtain rfl := Option.some.inj (hc.symm.trans hc')
    refine .inr ⟨c.request, i, hreceive, hasked, ?_⟩
    have hstands := h.mailbox.stands i c hc
    rw [hstage] at hstands
    have hplaces := h.mailbox.places
    rcases hstands with hserved | ⟨hlost, hdropped⟩ | ⟨hno, hclosed, hrefused⟩
    · rw [h.served] at hserved
      obtain ⟨y, hy, heq⟩ := List.mem_map.1 hserved
      obtain ⟨hcaller, hresp⟩ := Prod.mk.inj heq
      obtain ⟨hdone, c₁, hc₁, hreq⟩ := h.handled y hy
      rw [hcaller, hc] at hc₁
      obtain rfl := Option.some.inj hc₁
      exact .inl ⟨y, hy, hcaller, hreq.symm, hresp, hdone⟩
    · refine .inr ⟨?_, fun hin => ?_, .inr hdropped⟩
      · cases hclosed : x.mailbox.closed with
        | true => rfl
        | false =>
          rw [h.mailbox.lost hclosed] at hlost
          exact (List.not_mem_nil hlost).elim
      · rw [← h.callers_served] at hin
        exact List.disjoint_of_nodup_append hplaces (List.mem_append_left _ (List.mem_append_left _ hin)) hlost
    · refine .inr ⟨hclosed, fun hin => hno ?_, .inl hrefused⟩
      rw [← h.callers_served] at hin
      exact h.mailbox.mem_sent.2 (.inl hin)

/-- Whatever the order of all steps: every request is handled at most once, in the order in which the requests came into
the channel, and what has been handled and answered stays so; no two clients share a request; and the response that a
client gets is its own. -/
theorem responses_are_own {s : Daemon} (h : Leads E cfg W (initial s) x) :
    (x.handled.map Handled.caller).Nodup ∧ x.handled.map Handled.caller <+: x.mailbox.sent ∧
      (∀ x', Leads E cfg W x x' → Continues x x') ∧ (x.clients.filterMap ControlClient.asked?).Nodup ∧
      ∀ client ∈ x.clients, ∀ response, x.response? client = some response →
        AnsweredOwn E cfg W x client response := by
  have hinv := h.inv
  refine ⟨hinv.callers_served ▸ hinv.mailbox.served_nodup, ?_, fun _ h' => hinv.continues h', hinv.distinct,
    fun client hclient response hresponse => hinv.answeredOwn hclient hresponse⟩
  rw [← hinv.callers_served, hinv.mailbox.order, List.append_assoc, List.append_assoc]
  exact List.prefix_append ..

/-! ### Every request is answered -/

/-- From one state to another without a new client and without a step of the handlers. -/
structure Serves (E : Crates) (cfg : Config) (W : ControlWire) (x x' : ControlChannel) : Prop where
  leads : Leads E cfg W x x'
  clients : x'.clients = x.clients
  tasks : x'.daemon.tasks = x.daemon.tasks

theorem Serves.refl (x : ControlChannel) : Serves E cfg W x x := ⟨.refl, rfl, rfl⟩

theorem Serves.trans {x₀ x₁ : ControlChannel} (h : Serves E cfg W x₀ x₁) (h' : Serves E cfg W x₁ x) :
    Serves E cfg W x₀ x :=
  ⟨h.leads.trans h'.leads, h'.clients.trans h.clients, h'.tasks.trans h.tasks⟩

theorem exists_ready_loop (E : Crates) (o : LoopOp) (s : Daemon) : ∃ a, loopReady E o s a := by
  cases o with
  | openPrompt => exact ⟨(), trivial⟩
  | atomic o => exact ⟨_, ready_atomicAnswer E {} o s⟩

/-- The steps of an action that has ended give its response. -/
theorem exists_response {action : ControlAction} {t : List LoopEvent}
    (h : Reaches ((daemonLoop E cfg).handle (.control action)) t (ret ())) :
    ∃ response, Runs (expand inSteps (handleControlCommand E cfg action)) t response := by
  obtain ⟨ops, hops, hsteps⟩ := runs_expand.1 (reaches_ret.1 h)
  obtain ⟨pre, post, response, rfl, hpre, hpost⟩ := runs_bind.1 hops
  obtain ⟨rfl, -⟩ := runs_ret.1 hpost
  rw [List.append_nil] at hsteps
  exact ⟨response, runs_expand.2 ⟨pre, hpre, hsteps⟩⟩

/-- The loop comes to the end of its event, and replies if it is an action. -/
theorem Inv.exists_idle (h : Inv E cfg W x) : ∃ x', Serves E cfg W x x' ∧ x'.daemon.current = none ∧
    x'.mailbox.queue = x.mailbox.queue ∧ x'.mailbox.closed = x.mailbox.closed := by
  rcases hd : x.daemon with ⟨s, current, tasks⟩
  cases current with
  | none => exact ⟨x, .refl x, by rw [hd], rfl, rfl⟩
  | some current =>
    obtain ⟨ev, p⟩ := current
    induction p generalizing x s with
    | vis o k ih =>
      obtain ⟨a, ha⟩ := exists_ready_loop E o s
      have hmain : Loop.Step (daemonLoop E cfg) x.daemon (.main ⟨o, a⟩)
          ⟨loopNext E o s a, some (ev, k a), tasks⟩ := by
        rw [hd]
        exact .main ha
      have hallows : x.Allows (.main ⟨o, a⟩) := trivial
      have hstep : Step E cfg W x _ := .daemon hallows hmain
      obtain ⟨x', hserves, hidle, hqueue, hclosed⟩ := ih a (h.step hstep) _ rfl
      exact ⟨x', Serves.trans ⟨.step .refl hstep, rfl, by rw [hd]⟩ hserves, hidle, hqueue, hclosed⟩
    | ret u =>
      have hends : Loop.Step (daemonLoop E cfg) x.daemon .ends ⟨s, none, tasks⟩ := by
        rw [hd]
        exact .ends
      cases hi : x.mailbox.serving with
      | none =>
        have hallows : x.Allows .ends := hi
        have hstep : Step E cfg W x _ := .daemon hallows hends
        exact ⟨_, ⟨.step .refl hstep, rfl, by rw [hd]⟩, rfl, rfl, rfl⟩
      | some i =>
        obtain ⟨c, p, -, hcur⟩ := h.serving i hi
        have hev : ev = .control c.request := by
          rw [hd] at hcur
          cases hcur
          rfl
        subst hev
        have hcur' : x.daemon.current = some (.control c.request, ret ()) := by rw [hd]
        obtain ⟨response, hr⟩ := exists_response (h.logged _ _ hcur')
        obtain ⟨m, hm⟩ := Mailbox.exists_reply (R := rules) hi response
        obtain ⟨-, -, hqueue, hclosed⟩ := Mailbox.step_reply hi hm
        exact ⟨_, ⟨.step .refl (.ends hi hcur' hr hm hends), rfl, by rw [hd]⟩, rfl, hqueue, hclosed⟩

theorem Inv.free_of_idle (h : Inv E cfg W x) (hidle : x.daemon.current = none) : x.mailbox.serving = none := by
  cases hi : x.mailbox.serving with
  | none => rfl
  | some i =>
    obtain ⟨c, p, -, hcur⟩ := h.serving i hi
    rw [hidle] at hcur
    cases hcur

/-- The loop takes the next request up and comes to its end. -/
theorem Inv.exists_next (h : Inv E cfg W x) (hidle : x.daemon.current = none) {i : Nat} {rest : List Nat}
    (hqueue : x.mailbox.queue = i :: rest) :
    ∃ x', Serves E cfg W x x' ∧ x'.daemon.current = none ∧
      (x'.mailbox.closed = true ∨ x'.mailbox.queue = rest) := by
  have hfree := h.free_of_idle hidle
  have hopen : x.mailbox.closed = false := by
    cases hclosed : x.mailbox.closed with
    | false => rfl
    | true =>
      have hnil := (h.mailbox.closed hclosed).2
      rw [hqueue] at hnil
      cases hnil
  have hsent : i ∈ x.mailbox.sent := h.mailbox.mem_sent.2 (.inr (.inr (.inl (hqueue ▸ List.mem_cons_self ..))))
  obtain ⟨c, hc⟩ : ∃ c, x.mailbox.callers[i]? = some c := ⟨_, List.getElem?_eq_getElem (h.mailbox.known i hsent)⟩
  obtain ⟨m₁, h₁, hserving, hrest, hopen₁⟩ := Mailbox.exists_take (R := rules) hopen hfree hqueue
  by_cases hstop : c.request = .stop
  · obtain ⟨m₂, h₂⟩ := Mailbox.exists_reply (R := rules) hserving (.success "Stopping agent")
    obtain ⟨hfree₂, -, -, hopen₂⟩ := Mailbox.step_reply hserving h₂
    have h₃ : m₂.step rules .close = some _ := if_pos ⟨hopen₂.trans hopen₁, hfree₂⟩
    exact ⟨_, ⟨.step .refl (.stop hc hstop hidle h₁ h₂ h₃), rfl, rfl⟩, hidle, .inl rfl⟩
  · rcases hd : x.daemon with ⟨s, current, tasks⟩
    rw [hd] at hidle
    obtain rfl : current = none := hidle
    have htake : Loop.Step (daemonLoop E cfg) x.daemon (.take (.control c.request))
        ⟨s, some (.control c.request, (daemonLoop E cfg).handle (.control c.request)), tasks⟩ := by
      rw [hd]
      exact .take (.control c.request hstop)
    have hstep := Step.take (W := W) hc h₁ htake
    obtain ⟨x', hserves, hidle', hqueue', -⟩ := (h.step hstep).exists_idle
    exact ⟨x', Serves.trans ⟨.step .refl hstep, rfl, by rw [hd]⟩ hserves, hidle', .inr (hqueue'.trans hrest)⟩

/-- The caller has got a response. -/
def Returned (x : ControlChannel) (i : Nat) : Prop :=
  ∃ c response, x.mailbox.callers[i]? = some c ∧ c.stage = .returned response

/-- Where a caller stands later: what it has returned it still has, and its request does not leave the records. -/
theorem Inv.later (h : Inv E cfg W x) (hserves : Serves E cfg W x x') {i : Nat}
    (hi : i < x.mailbox.callers.length) :
    Returned x' i ∨ (x'.mailbox.serving = some i ∨ i ∈ x'.mailbox.queue) ∨
      ∃ action, x'.mailbox.callers[i]? = some ⟨action, .sending⟩ ∧ i ∉ x.mailbox.sent := by
  have hcont := h.continues hserves.leads
  obtain ⟨c, hc, -⟩ := hcont.mailbox.callers i _ (List.getElem?_eq_getElem hi)
  have hstands := (h.leads hserves.leads).mailbox.stands i c hc
  obtain ⟨action, stage⟩ := c
  cases stage with
  | returned response => exact .inl ⟨_, response, hc, rfl⟩
  | waiting => exact .inr (.inl hstands)
  | sending => exact .inr (.inr ⟨action, hc, fun hin => hstands (hcont.mailbox.sent.subset hin)⟩)

theorem Inv.lt_length (h : Inv E cfg W x) (hserves : Serves E cfg W x x') {i : Nat}
    (hi : i < x.mailbox.callers.length) :
    i < x'.mailbox.callers.length := by
  obtain ⟨c, hc, -⟩ := (h.continues hserves.leads).mailbox.callers i _ (List.getElem?_eq_getElem hi)
  exact (List.getElem?_eq_some_iff.1 hc).1

/-- A caller that waits is replied to, or the loop ends before its turn. -/
theorem Inv.exists_returned (h : Inv E cfg W x) {i : Nat} (hsent : i ∈ x.mailbox.sent) :
    ∃ x', Serves E cfg W x x' ∧ Returned x' i := by
  induction hn : x.mailbox.queue.length using Nat.strongRecOn generalizing x with
  | ind n ih =>
    have hi := h.mailbox.known i hsent
    obtain ⟨x₁, hserves₁, hidle₁, hqueue₁, -⟩ := h.exists_idle
    have h₁ := h.leads hserves₁.leads
    have hfree₁ := h₁.free_of_idle hidle₁
    have hsent₁ : i ∈ x₁.mailbox.sent := (h.continues hserves₁.leads).mailbox.sent.subset hsent
    rcases h.later hserves₁ hi with hret | (hserving | hin) | ⟨action, -, hno⟩
    · exact ⟨x₁, hserves₁, hret⟩
    · rw [hfree₁] at hserving
      cases hserving
    · -- the request at the head of the queue is handled, after which fewer are before this one
      obtain ⟨j, rest, hcons⟩ := List.exists_cons_of_ne_nil (List.ne_nil_of_mem hin)
      obtain ⟨x₂, hserves₂, hidle₂, hnext⟩ := h₁.exists_next hidle₁ hcons
      have h₂ := h₁.leads hserves₂.leads
      rcases h₁.later hserves₂ (h.lt_length hserves₁ hi) with hret | hplace | ⟨action, -, hno⟩
      · exact ⟨x₂, hserves₁.trans hserves₂, hret⟩
      · rcases hnext with hclosed | hrest
        · obtain ⟨hfree, hnil⟩ := h₂.mailbox.closed hclosed
          rw [hfree, hnil] at hplace
          rcases hplace with hplace | hplace <;> cases hplace
        · have hsent₂ : i ∈ x₂.mailbox.sent := (h₁.continues hserves₂.leads).mailbox.sent.subset hsent₁
          have hless : x₂.mailbox.queue.length < n := by
            rw [← hn, ← hqueue₁, hcons, hrest, List.length_cons]
            omega
          obtain ⟨x₃, hserves₃, hret⟩ := ih _ hless h₂ hsent₂ rfl
          exact ⟨x₃, (hserves₁.trans hserves₂).trans hserves₃, hret⟩
      · exact absurd hsent₁ hno
    · exact absurd hsent hno

/-- A caller that has not sent its request finds a place, or that the mailbox is closed. -/
theorem Inv.exists_returned_of_place (h : Inv E cfg W x) {i : Nat} (hi : i < x.mailbox.callers.length)
    (hplace : x.mailbox.closed = true ∨ x.mailbox.queue.length < rules.capacity) :
    ∃ x', Serves E cfg W x x' ∧ Returned x' i := by
  rcases h.later (.refl x) hi with hret | hwaiting | ⟨action, hc, -⟩
  · exact ⟨x, .refl x, hret⟩
  · exact h.exists_returned (h.mailbox.mem_sent.2 (.inr (hwaiting.imp_right .inl)))
  · have hsending : x.mailbox.isSending i = true := by
      unfold Mailbox.isSending
      rw [hc]
    cases hclosed : x.mailbox.closed with
    | true =>
      have hrefuse : x.mailbox.step rules (.refuse i) = some _ := if_pos ⟨hsending, hclosed⟩
      refine ⟨_, ⟨.step .refl (.refuse hrefuse), rfl, rfl⟩, ⟨action, .returned rules.refused⟩,
        rules.refused, ?_, rfl⟩
      show (Mailbox.setStage _ i _)[i]? = _
      rw [Mailbox.getElem?_setStage, if_pos rfl, hc]
      rfl
    | false =>
      have hroom : x.mailbox.queue.length < rules.capacity :=
        hplace.resolve_left (by rw [hclosed]; exact Bool.false_ne_true)
      have hsend : x.mailbox.step rules (.send i) = some _ := if_pos ⟨hsending, hclosed, hroom⟩
      have hstep : Step E cfg W x _ := .send hsend
      obtain ⟨x', hserves, hret⟩ := (h.step hstep).exists_returned
        (List.mem_append_right x.mailbox.sent (List.mem_singleton_self i))
      exact ⟨x', Serves.trans ⟨.step .refl hstep, rfl, rfl⟩ hserves, hret⟩

/-- The loop empties the channel. -/
theorem Inv.exists_drained (h : Inv E cfg W x) : ∃ x', Serves E cfg W x x' ∧ x'.mailbox.queue = [] := by
  induction hn : x.mailbox.queue.length using Nat.strongRecOn generalizing x with
  | ind n ih =>
    obtain ⟨x₁, hserves₁, hidle₁, hqueue₁, -⟩ := h.exists_idle
    have h₁ := h.leads hserves₁.leads
    cases hcons : x₁.mailbox.queue with
    | nil => exact ⟨x₁, hserves₁, hcons⟩
    | cons j rest =>
      obtain ⟨x₂, hserves₂, -, hnext⟩ := h₁.exists_next hidle₁ hcons
      have h₂ := h₁.leads hserves₂.leads
      rcases hnext with hclosed | hrest
      · exact ⟨x₂, hserves₁.trans hserves₂, (h₂.mailbox.closed hclosed).2⟩
      · have hless : x₂.mailbox.queue.length < n := by
          rw [← hn, ← hqueue₁, hcons, hrest, List.length_cons]
          omega
        obtain ⟨x₃, hserves₃, hnil⟩ := ih _ hless h₂ rfl
        exact ⟨x₃, (hserves₁.trans hserves₂).trans hserves₃, hnil⟩

theorem Inv.exists_returned_of_caller (h : Inv E cfg W x) {i : Nat} (hi : i < x.mailbox.callers.length) :
    ∃ x', Serves E cfg W x x' ∧ Returned x' i := by
  obtain ⟨x₁, hserves₁, hnil⟩ := h.exists_drained
  have h₁ := h.leads hserves₁.leads
  obtain ⟨x₂, hserves₂, hret⟩ :=
    h₁.exists_returned_of_place (h.lt_length hserves₁ hi) (.inr (by rw [hnil]; decide))
  exact ⟨x₂, hserves₁.trans hserves₂, hret⟩

theorem response?_of_returned {client : ControlClient} {i : Nat} (hclient : client.received = some (.ok i))
    (h : Returned x i) : ∃ response, x.response? client = some response := by
  obtain ⟨⟨action, stage⟩, response, hc, hstage⟩ := h
  obtain rfl : stage = .returned response := hstage
  refine ⟨response, ?_⟩
  unfold response?
  simp only [hclient, hc]

/-- No client is left without an answer. In every state, whatever the main loop is doing and whoever is before it in the
channel, each client whose command asks for something is answered after steps of the daemon alone, without a new client
and without a step of the request handlers; that answer is its own. -/
theorem commands_get_answers {s : Daemon} (h : Leads E cfg W (initial s) x) {client : ControlClient}
    (hclient : client ∈ x.clients)
    (hreceived : client.received ≠ none) :
    ∃ x' response, Serves E cfg W x x' ∧ x'.response? client = some response ∧
      AnsweredOwn E cfg W x' client response := by
  have hinv := h.inv
  have hanswered : ∀ {x' response}, Serves E cfg W x x' → x'.response? client = some response →
      AnsweredOwn E cfg W x' client response := fun hserves hresponse =>
    (hinv.leads hserves.leads).answeredOwn (hserves.clients ▸ hclient) hresponse
  obtain ⟨received, hreceived⟩ := Option.ne_none_iff_exists'.1 hreceived
  cases received with
  | error response =>
    have hresponse : x.response? client = some response := by
      unfold response?
      rw [hreceived]
    exact ⟨x, response, .refl x, hresponse, hanswered (.refl x) hresponse⟩
  | ok i =>
    obtain ⟨c, hc, -⟩ := hinv.asked client hclient i hreceived
    obtain ⟨x', hserves, hret⟩ := hinv.exists_returned_of_caller (List.getElem?_eq_some_iff.1 hc).1
    obtain ⟨response, hresponse⟩ := response?_of_returned hreceived hret
    exact ⟨x', response, hserves, hresponse, hanswered hserves hresponse⟩

/-- A client of `lock`, and one of a command that does not exist. -/
def lockClient : ControlClient := ⟨"lock", some (.ok 0)⟩

theorem receive_lock : receive .plain lockClient.cmd = some (.ok .lock) := by decide +kernel

theorem leads_twoClients (s : Daemon) : ∃ x, Leads .plain plainConfig .plain (initial s) x ∧
    x.clients = [lockClient, ⟨"log", some (.error (.err "Unknown command: log"))⟩] := by
  have hlock : receive .plain "lock" = some (.ok .lock) := receive_lock
  have hlog : receive .plain "log" = some (.error (.err "Unknown command: log")) := by decide +kernel
  have hfirst : (initial s).connect .plain "lock" =
      { daemon := beforeRequests s, clients := [lockClient],
        mailbox := { callers := [{ request := .lock }] } } := by
    unfold ControlChannel.connect
    rw [hlock]
    rfl
  refine ⟨_, (Leads.refl.step (.connect "lock")).step (.connect "log"), ?_⟩
  rw [hfirst]
  unfold ControlChannel.connect
  rw [hlog]
  rfl

/-- The client of `lock` has been answered, beside one whose command does not exist. -/
theorem responses_are_own_twoClients : ∃ x response, Leads .plain plainConfig .plain (initial {}) x ∧
    x.response? lockClient = some response ∧ AnsweredOwn .plain plainConfig .plain x lockClient response ∧
    (x.handled.map Handled.caller).Nodup := by
  obtain ⟨x, h, hclients⟩ := leads_twoClients {}
  have hclient : lockClient ∈ x.clients := hclients ▸ List.mem_cons_self ..
  obtain ⟨c, hc, -⟩ := h.inv.asked lockClient hclient 0 rfl
  obtain ⟨x', hserves, hret⟩ := h.inv.exists_returned_of_caller (List.getElem?_eq_some_iff.1 hc).1
  obtain ⟨response, hresponse⟩ := response?_of_returned (rfl : lockClient.received = some (.ok 0)) hret
  obtain ⟨hnodup, -, -, -, hown⟩ := responses_are_own (h.trans hserves.leads)
  exact ⟨x', response, h.trans hserves.leads, hresponse, hown _ (hserves.clients ▸ hclient) _ hresponse, hnodup⟩

theorem commands_get_answers_lock : ∃ x response, Leads .plain plainConfig .plain (initial {}) x ∧
    x.response? lockClient = some response := by
  obtain ⟨x, h, hclients⟩ := leads_twoClients {}
  obtain ⟨x', response, hserves, hresponse, -⟩ :=
    commands_get_answers h (hclients ▸ List.mem_cons_self .. : lockClient ∈ x.clients) (Option.some_ne_none _)
  exact ⟨x', response, h.trans hserves.leads, hresponse⟩

end ControlChannel

end SshWarden
