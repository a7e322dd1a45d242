import SshWarden.ControlChannel

/-!
# What the client of a lock is told

The main loop handles `lock` beside the request handlers. A client that reads `Vault locked` knows that the steps of
`lock_vault` have been made between its command and the reply; if no request was being handled then, nothing that was
unlocked was left when the reply was sent (`lock_reply_locks`).
-/

namespace SshWarden.ControlChannel
open Prog

variable {E : Crates} {cfg : Config} {W : ControlWire} {x x' : ControlChannel}

def lockReply : ControlResponse := .success "Vault locked"

theorem only_lock : Only (S := loopSig) (fun o => o.isTickStep = true)
    ((daemonLoop E cfg).handle (.control .lock)) := by
  refine ⟨rfl, fun locked => ?_⟩
  cases locked with
  | true => trivial
  | false =>
    refine ⟨rfl, fun running => ?_⟩
    cases running with
    | false => trivial
    | true =>
      exact ⟨rfl, fun _ => ⟨rfl, fun _ => ⟨rfl, fun _ => ⟨rfl, fun _ => ⟨rfl, fun _ => ⟨rfl, fun _ => trivial⟩⟩⟩⟩⟩⟩

/-- Only all the steps of `lock_vault` lead to this reply. -/
theorem wp_lock : wp tickMachine (fun _ _ => True) (expand inSteps (handleControlCommand E cfg .lock))
    (fun response t => response = lockReply → ∀ e ∈ lockEvents, e ∈ t) [] := by
  refine ⟨trivial, fun locked _ => ?_⟩
  cases locked with
  | true => exact fun hr => absurd (congrArg ControlResponse.message hr) (by decide)
  | false =>
    refine ⟨trivial, fun running _ => ?_⟩
    cases running with
    | false =>
      intro hr
      cases hr
    | true =>
      refine ⟨trivial, fun _ _ =>
        ⟨trivial, fun _ _ => ⟨trivial, fun _ _ => ⟨trivial, fun _ _ => ⟨trivial, fun _ _ => ?_⟩⟩⟩⟩⟩
      refine ⟨trivial, fun _ _ _ e he => ?_⟩
      simp only [lockEvents, List.mem_cons, List.not_mem_nil, or_false] at he
      rcases he with rfl | rfl | rfl | rfl | rfl <;> simp [tickMachine, Machine.record]

theorem lockEvents_of_runs {t : List LoopEvent}
    (h : Runs (expand inSteps (handleControlCommand E cfg .lock)) t lockReply) :
    ∀ e ∈ lockEvents, e ∈ t := by
  have hsteps := wp_lock.steps ((reaches_ret.2 h).record (fun _ _ => trivial) (fun t e => t ++ [e]) [])
  rw [foldl_concat, List.nil_append] at hsteps
  exact hsteps rfl

/-- An action that has been taken up alone stays alone, and what the steps of a `lock` have left is still so. -/
structure LocksAlone (x : ControlChannel) : Prop where
  quiet : ∀ action p, x.daemon.current = some (.control action, p) → x.alone = true → x.daemon.running = 0
  left : ∀ p, x.daemon.current = some (.control .lock, p) → x.alone = true →
    ∀ e ∈ x.events, e.1.leaves x.daemon.state
  done : ∀ y ∈ x.handled, y.action = .lock → y.alone = true → ∀ e ∈ y.events, e.1.leaves y.state

/-- The daemon is the same, and no `lock` has been handled. -/
theorem LocksAlone.of_same (h : LocksAlone x) (hdaemon : x'.daemon = x.daemon) (hevents : x'.events = x.events)
    (halone : x'.alone = x.alone) (hdone : ∀ y ∈ x'.handled, y ∈ x.handled ∨ y.action ≠ .lock) :
    LocksAlone x' where
  quiet := hdaemon ▸ halone ▸ h.quiet
  left := hdaemon ▸ halone ▸ hevents ▸ h.left
  done y hy hlock := h.done y ((hdone y hy).resolve_right fun hno => hno hlock) hlock

/-- The handling of an action has ended. -/
theorem LocksAlone.of_idle (h : LocksAlone x) (hidle : x'.daemon.current = none)
    (hdone : ∀ y ∈ x'.handled, y ∈ x.handled ∨
      (y.action = .lock → y.alone = true → ∀ e ∈ y.events, e.1.leaves y.state)) : LocksAlone x' where
  quiet _ _ hcur := by rw [hidle] at hcur; cases hcur
  left _ hcur := by rw [hidle] at hcur; cases hcur
  done y hy hlock := (hdone y hy).elim (fun hold => h.done y hold hlock) fun hnew => hnew hlock

/-- A move of the daemon that is none of the channel. -/
theorem LocksAlone.daemon (h : LocksAlone x) (hinv : Inv E cfg W x) {mv : DaemonMove} {d : DaemonConf}
    (hmv : x.Allows mv)
    (hd : Loop.Step (daemonLoop E cfg) x.daemon mv d) :
    LocksAlone { x with daemon := d, events := Loop.noteMain x.events x.daemon mv } := by
  have hlogged := hinv.logged
  obtain ⟨hquiet, hleft, hdone⟩ := h
  have hcontrol : ∀ {ev : MainEvent} {action : ControlAction}, x.Allows (.take ev) → ev ≠ .control action :=
    fun h => h.1 _
  have hnone : ∀ {c : DaemonConf} {i : Nat} {p : LProg Unit}, c.tasks[i]? = some (some p) → c.running ≠ 0 := by
    intro c i p hi hzero
    have hno := Loop.Conf.running_eq_zero.1 hzero _ (List.mem_of_getElem? hi)
    cases hno
  generalize x.events = t at hlogged hleft
  generalize x.daemon = c at hd hquiet hlogged hleft
  refine ⟨fun action p hcur halone => ?_, fun p hcur halone => ?_, hdone⟩
  · cases hd with
    | take _ => exact absurd (Prod.mk.inj (Option.some.inj hcur)).1 (hcontrol hmv)
    | main _ =>
      obtain ⟨rfl, -⟩ := Prod.mk.inj (Option.some.inj hcur)
      exact hquiet action _ rfl halone
    | ends | drops _ | spawn => cases hcur
    | arrival _ => exact hquiet action p hcur halone
    | task hi _ => exact absurd (hquiet action p hcur halone) (hnone hi)
    | finish hi => exact absurd (hquiet action p hcur halone) (hnone hi)
  · cases hd with
    | take _ => exact absurd (Prod.mk.inj (Option.some.inj hcur)).1 (hcontrol hmv)
    | @main s ts ev o k a ha =>
      obtain ⟨rfl, -⟩ := Prod.mk.inj (Option.some.inj hcur)
      have htick : o.isTickStep = true := (only_lock.rest (hlogged _ _ rfl)).1
      obtain ⟨hself, hkept⟩ := LoopOp.leaves_next (E := E) htick s a
      intro e he
      rcases List.mem_append.1 he with he | he
      · exact hkept e.1 (hleft _ rfl halone e he)
      · obtain rfl := List.mem_singleton.1 he
        exact hself
    | ends | drops _ | spawn => cases hcur
    | arrival ha =>
      intro e he
      refine LoopOp.leaves_congr (hleft p hcur halone e he) ?_ ?_ ?_ ?_ ?_ <;> cases ha <;> rfl
    | task hi _ => exact absurd (hquiet .lock p hcur halone) (hnone hi)
    | finish hi => exact absurd (hquiet .lock p hcur halone) (hnone hi)

/-- The agent's serve task may end at any time. -/
theorem leaves_exits {s : Daemon} {agent : Agent} (ha : Signing.Exits s.agent agent) {o : LoopOp}
    (h : o.leaves s) :
    o.leaves { s with agent := agent } := by
  cases ha with
  | exited => unfold LoopOp.leaves at h ⊢; split at h <;> exact h
  | stopped =>
    unfold LoopOp.leaves at h ⊢
    split at h
    · intro p hp
      cases hp
    all_goals exact h

theorem LocksAlone.step (h : LocksAlone x) (hinv : Inv E cfg W x) (hs : Step E cfg W x x') : LocksAlone x' := by
  cases hs with
  | connect cmd =>
    unfold ControlChannel.connect
    split <;> exact h.of_same rfl rfl rfl fun y hy => .inl hy
  | send _ | refuse _ | close _ _ => exact h.of_same rfl rfl rfl fun y hy => .inl hy
  | take _ _ hd =>
    obtain ⟨-, htasks⟩ := hd.of_take
    refine ⟨fun _ _ _ halone => ?_, fun _ _ _ e he => (List.not_mem_nil he).elim, h.done⟩
    rw [Loop.Conf.running, htasks]
    exact of_decide_eq_true halone
  | ends _ hcur _ _ hd =>
    obtain ⟨hidle, hstate⟩ := hd.of_ends
    refine h.of_idle hidle fun y hy => ?_
    rcases List.mem_append.1 hy with hy | hy
    · exact .inl hy
    · obtain rfl := List.mem_singleton.1 hy
      refine .inr fun hlock halone => ?_
      obtain rfl : _ = ControlAction.lock := hlock
      exact hstate ▸ h.left _ hcur halone
  | drops _ hcur _ hd =>
    obtain ⟨⟨hidle, hstate⟩, -⟩ := hd.of_drops
    refine h.of_idle hidle fun y hy => ?_
    rcases List.mem_append.1 hy with hy | hy
    · exact .inl hy
    · obtain rfl := List.mem_singleton.1 hy
      refine .inr fun hlock halone => ?_
      obtain rfl : _ = ControlAction.lock := hlock
      exact hstate ▸ h.left _ hcur halone
  | stop _ _ _ _ _ _ =>
    refine h.of_same rfl rfl rfl fun y hy => ?_
    rcases List.mem_append.1 hy with hy | hy
    · exact .inl hy
    · obtain rfl := List.mem_singleton.1 hy
      exact .inr fun hno => by cases hno
  | daemon hmv hd => exact h.daemon hinv hmv hd
  | exits ha => exact ⟨h.quiet, fun p hcur halone e he => leaves_exits ha (h.left p hcur halone e he), h.done⟩

theorem Leads.locksAlone {s : Daemon} (h : Leads E cfg W (initial s) x) : LocksAlone x := by
  induction h with
  | refl =>
    refine ⟨fun _ _ hcur => ?_, fun _ hcur => ?_, fun _ hy => (List.not_mem_nil hy).elim⟩ <;> cases hcur
  | step hl hs ih => exact ih.step hl.inv hs

/-- A client of `lock` that is told so knows that all steps of `lock_vault` have been made for its command. If no request
was being handled when the main loop took the command up, the vault was locked at the reply, and nothing that had been
unlocked was left. -/
theorem lock_reply_locks {s : Daemon} (h : Leads E cfg W (initial s) x) {client : ControlClient}
    (hclient : client ∈ x.clients)
    (hlock : receive W client.cmd = some (.ok .lock)) (hresponse : x.response? client = some lockReply) :
    ∃ y ∈ x.handled, client.received = some (.ok y.caller) ∧ (∀ e ∈ lockEvents, e ∈ y.events) ∧
      (y.alone = true → LockedUp y.state) := by
  have hno : ∀ {e : String}, lockReply ≠ .err e := fun h => Bool.noConfusion (congrArg ControlResponse.ok h)
  rcases h.inv.answeredOwn hclient hresponse with hrejected | ⟨action, i, hreceive, hreceived, hbehind⟩
  · rw [hlock] at hrejected
    cases hrejected
  · obtain rfl : action = .lock := by
      rw [hlock] at hreceive
      cases hreceive
      rfl
    rcases hbehind with ⟨y, hy, rfl, haction, hreply, hdone⟩ | ⟨-, -, hrefused | hdropped⟩
    · have hevents : ∀ e ∈ lockEvents, e ∈ y.events := by
        cases hdone with
        | stop ha _ =>
          rw [haction] at ha
          cases ha
        | ended hr =>
          rw [haction, hreply] at hr
          exact lockEvents_of_runs hr
        | dropped _ _ hr => exact absurd (hreply.symm.trans hr) hno
      exact ⟨y, hy, hreceived, hevents, fun halone => lockedUp_of_leaves fun e he =>
        h.locksAlone.done y hy haction halone e (hevents e he)⟩
    · exact absurd hrefused hno
    · exact absurd hdropped hno

/-- An agent with a key. -/
def unlockedDaemon : Daemon where
  agent := { isRunning := true, keystore := [([1], ⟨some "PRIVATE", [1], "work", "c1"⟩)] }
  cachedKeyTuples := [⟨"PRIVATE", "work", "c1"⟩]

theorem Leads.main {x₀ : ControlChannel} {st : Daemon} {ev : MainEvent} {o : LoopOp}
    {k : o.Ans → LProg Unit} {a : o.Ans}
    {ts : List (Option (LProg Unit))} (h : Leads E cfg W x₀ x) (hd : x.daemon = ⟨st, some (ev, .vis o k), ts⟩)
    (ha : loopReady E o st a) :
    Leads E cfg W x₀
      { x with daemon := ⟨loopNext E o st a, some (ev, k a), ts⟩, events := x.events ++ [⟨o, a⟩] } := by
  have hmain : Loop.Step (daemonLoop E cfg) x.daemon (.main ⟨o, a⟩) ⟨loopNext E o st a, some (ev, k a), ts⟩ := by
    rw [hd]
    exact .main ha
  have hallows : x.Allows (.main ⟨o, a⟩) := trivial
  exact h.step (.daemon hallows hmain)

/-- The lock of a vault with a key. -/
theorem leads_lock : ∃ x, Leads .plain plainConfig .plain (initial unlockedDaemon) x ∧ x.clients = [lockClient] ∧
    x.response? lockClient = some lockReply ∧ ∀ y ∈ x.handled, y.alone = true := by
  have hlock : receive .plain "lock" = some (.ok .lock) := receive_lock
  have hfirst : (initial unlockedDaemon).connect .plain "lock" =
      { daemon := beforeRequests unlockedDaemon, clients := [lockClient],
        mailbox := { callers := [{ request := .lock }] } } := by
    unfold ControlChannel.connect
    rw [hlock]
    rfl
  have h₀ : Leads .plain plainConfig .plain (initial unlockedDaemon) (initial unlockedDaemon) := .refl
  have h₁ := h₀.step (.connect "lock")
  rw [hfirst] at h₁
  have h₂ := (h₁.step (.send (i := 0) rfl)).step (.take (i := 0) rfl rfl (.take (.control .lock (by decide))))
  have h₃ := ((h₂.main rfl rfl).main rfl rfl).main (a := ()) rfl trivial
  have h₄ := ((h₃.main (a := ()) rfl trivial).main (a := ()) rfl trivial).main (a := ()) rfl trivial
  have h₅ := (h₄.main (a := ()) rfl trivial).main (a := ()) rfl trivial
  have hruns : Runs (expand inSteps (handleControlCommand .plain plainConfig .lock))
      ((⟨.atomic (.op .loadVaultLocked), false⟩ : LoopEvent) :: findsAgent :: ⟨.atomic .stripPrivateKeys, ()⟩ ::
        ⟨.atomic (.storeNeedsUnlock false), ()⟩ :: lockEvents.tail) lockReply := by
    iterate 8 apply Runs.vis
    exact .ret _
  refine ⟨_, h₅.step (.ends rfl rfl hruns rfl .ends), rfl, rfl, fun y hy => ?_⟩
  obtain rfl := List.mem_singleton.1 hy
  rfl

theorem lock_reply_locks_alone : ∃ x, Leads .plain plainConfig .plain (initial unlockedDaemon) x ∧
    x.response? lockClient = some lockReply ∧ ∃ y ∈ x.handled, LockedUp y.state := by
  obtain ⟨x, h, hclients, hresponse, halone⟩ := leads_lock
  obtain ⟨y, hy, -, -, hlocked⟩ :=
    lock_reply_locks h (hclients ▸ List.mem_cons_self .. : lockClient ∈ x.clients) receive_lock hresponse
  exact ⟨x, h, hresponse, y, hy, hlocked (halone y hy)⟩

end SshWarden.ControlChannel
