import SshWarden.PendingSync

/-!
# Hub events while the client is replaced

The hub puts events into the queue of its client at any moment, also in the middle of a handler
(`Busy`, `HubRun`). Connecting to the hub anew drops the queue of the old client with what it holds. The
`ledger` of a run follows every event by the number of its arrival: it waits in the queue, has been taken
up, or was dropped with a client. `hubEvents_kept` says when nothing is lost: each client is replaced
while its queue holds no event that the rest of the turn does not make up for.
-/

namespace SshWarden
open Prog

variable {E : Crates} {cfg : Config} {α β : Type}

/-- A moment of a run: the main loop takes up an event or performs an operation, an event arrives from the
hub, or a request handler does something in between. -/
inductive Moment
  | takes (ev : MainEvent)
  | op (e : Event)
  | arrives (ev : SyncEvent)
  | beside

def Moment.op? : Moment → Option Event
  | op e => some e
  | _ => none

/-- The operations of the main loop. -/
def ops (ms : List Moment) : List Event := ms.filterMap Moment.op?

@[simp] theorem ops_nil : ops [] = [] := rfl

@[simp] theorem ops_append (ms ms' : List Moment) : ops (ms ++ ms') = ops ms ++ ops ms' :=
  List.filterMap_append

@[simp] theorem ops_op (e : Event) (ms : List Moment) : ops (.op e :: ms) = e :: ops ms := rfl

@[simp] theorem ops_arrives (ev : SyncEvent) (ms : List Moment) : ops (.arrives ev :: ms) = ops ms := rfl

@[simp] theorem ops_beside (ms : List Moment) : ops (.beside :: ms) = ops ms := rfl

@[simp] theorem ops_takes (ev : MainEvent) (ms : List Moment) : ops (.takes ev :: ms) = ops ms := rfl

/-- What a request handler leaves alone. -/
structure BesideHub (s s' : Daemon) : Prop where
  notificationRx : s'.notificationRx = s.notificationRx
  pendingSync : s'.pendingSync = s.pendingSync
  isRunning : s.agent.isRunning = true → s'.agent.isRunning = true

theorem BesideHub.refl (s : Daemon) : BesideHub s s := ⟨rfl, rfl, id⟩

theorem BesideHub.trans {s s' s'' : Daemon} (h : BesideHub s s') (h' : BesideHub s' s'') : BesideHub s s'' where
  notificationRx := h'.notificationRx.trans h.notificationRx
  pendingSync := h'.pendingSync.trans h.pendingSync
  isRunning hs := h'.isRunning (h.isRunning hs)

/-- The queue of the client that is connected. -/
def Daemon.hubQueue (s : Daemon) : List SyncEvent := s.notificationRx.getD []

theorem hubQueue_setNotificationClient (url : Option String) (s : Daemon) :
    (next E (.setNotificationClient url) s ()).hubQueue = [] := by
  cases url <;> rfl

/-- Operations that do not touch the connection to the hub. -/
def Op.keepsClient : Op → Bool
  | setNotificationClient _ => false
  | _ => true

theorem notificationRx_next {o : Op} (h : o.keepsClient = true) (s : Daemon) (a : o.Ans) :
    (next E o s a).notificationRx = s.notificationRx := by
  cases o <;> first
    | rfl
    | exact absurd h Bool.false_ne_true
    | (cases a <;> rfl)

/-- An operation of a request handler, whose programs are unlocking ones (`unlocking_handleUiRequest`). -/
theorem besideHub_next {o : Op} (h : o.isUnlocking = true) (s : Daemon) (a : o.Ans) :
    BesideHub s (next E o s a) where
  notificationRx := notificationRx_next (by cases o <;> first | rfl | exact h) s a
  pendingSync := pendingSync_next_of_beforeSync
    (Op.beforeSync_of_isPreparing (Op.isPreparing_of_isUnlocking h)) s a
  isRunning := isRunning_next E o a

theorem besideHub_of_steps {p p' : DProg α} {s s' : Daemon} {tr : List Event} (h : Unlocking p)
    (hs : Steps (machine E) p s tr p' s') : BesideHub s s' :=
  h.steps (I := BesideHub s) (fun _ _ a ho hb _ => hb.trans (besideHub_next ho _ a)) (.refl s) hs

/-- A program of the main loop runs while events arrive and request handlers run beside it. -/
inductive Busy (M : Machine daemonSig Daemon) : DProg α → Daemon → List Moment → DProg α → Daemon → Prop
  | refl (p : DProg α) (s : Daemon) : Busy M p s [] p s
  | op {o : Op} {k : o.Ans → DProg α} {s : Daemon} {a : o.Ans} {ms : List Moment} {p : DProg α} {s' : Daemon}
      (ha : M.ready o s a) (h : Busy M (k a) (M.next o s a) ms p s') :
      Busy M (.vis o k) s (.op ⟨o, a⟩ :: ms) p s'
  | arrives {p p' : DProg α} {s s' : Daemon} {ev : SyncEvent} {queue : List SyncEvent} {ms : List Moment}
      (hq : s.notificationRx = some queue)
      (h : Busy M p { s with notificationRx := some (queue ++ [ev]) } ms p' s') :
      Busy M p s (.arrives ev :: ms) p' s'
  | beside {p p' : DProg α} {s s₁ s' : Daemon} {ms : List Moment} (hb : BesideHub s s₁)
      (h : Busy M p s₁ ms p' s') : Busy M p s (.beside :: ms) p' s'

/-- The main loop takes up one event after the other, each operation in a state where `G` allows it;
between the turns events arrive as well. -/
inductive HubRun (E : Crates) (cfg : Config) (G : Turn → Op → Daemon → Prop) (s₀ : Daemon) :
    List Moment → Daemon → Prop
  | nil : HubRun E cfg G s₀ [] s₀
  | event {s s₁ s' : Daemon} {ev : MainEvent} {ms ms' : List Moment} (h : HubRun E cfg G s₀ ms s)
      (hr : Receives s ev s₁)
      (hb : Busy ((machine E).guard (G (.event ev))) (mainStep E cfg ev) s₁ ms' (.ret ()) s') :
      HubRun E cfg G s₀ (ms ++ .takes ev :: ms') s'
  | dropped {s s' : Daemon} {action : ControlAction} {ms ms' : List Moment} {p : DProg Unit}
      (h : HubRun E cfg G s₀ ms s) (hr : action ≠ .stop)
      (hb : Busy ((machine E).guard (G (.dropped action))) (mainStep E cfg (.control action)) s ms' p s')
      (hd : Dropped p) : HubRun E cfg G s₀ (ms ++ .takes (.control action) :: ms') s'
  | idle {s s' : Daemon} {ms ms' : List Moment} (h : HubRun E cfg G s₀ ms s)
      (hb : Busy (machine E) (.ret ()) s ms' (.ret ()) s') : HubRun E cfg G s₀ (ms ++ ms') s'

namespace Busy
variable {M : Machine daemonSig Daemon} {p p' : DProg α} {s s' : Daemon} {ms : List Moment}

theorem of_steps {tr : List Event} (h : Steps M p s tr p' s') : Busy M p s (tr.map .op) p' s' := by
  induction h with
  | refl p s => exact .refl p s
  | step ha _ ih => exact .op ha ih

theorem reaches (h : Busy M p s ms p' s') : Reaches p (ops ms) p' := by
  induction h with
  | refl p => exact .refl p
  | op _ _ ih => exact .vis ih
  | arrives _ _ ih => exact ih
  | beside _ _ ih => exact ih

theorem append_inv {ms' : List Moment} (h : Busy M p s (ms ++ ms') p' s') :
    ∃ q s₁, Busy M p s ms q s₁ ∧ Busy M q s₁ ms' p' s' := by
  induction ms generalizing p s with
  | nil => exact ⟨p, s, .refl p s, h⟩
  | cons m ms ih =>
    cases h with
    | op ha h =>
      obtain ⟨q, s₁, h₁, h₂⟩ := ih h
      exact ⟨q, s₁, .op ha h₁, h₂⟩
    | arrives hq h =>
      obtain ⟨q, s₁, h₁, h₂⟩ := ih h
      exact ⟨q, s₁, .arrives hq h₁, h₂⟩
    | beside hb h =>
      obtain ⟨q, s₁, h₁, h₂⟩ := ih h
      exact ⟨q, s₁, .beside hb h₁, h₂⟩

/-- What operations, arrivals and request handlers keep is kept. -/
theorem invariant {I : Daemon → Prop} (h : Busy M p s ms p' s')
    (hop : ∀ o s a, M.ready o s a → I s → I (M.next o s a))
    (harr : ∀ s queue, I s → I { s with notificationRx := queue }) (hbeside : ∀ s s', BesideHub s s' → I s → I s')
    (hs : I s) : I s' := by
  induction h with
  | refl => exact hs
  | op ha _ ih => exact ih (hop _ _ _ ha hs)
  | arrives _ _ ih => exact ih (harr _ _ hs)
  | beside hb _ ih => exact ih (hbeside _ _ hb hs)

end Busy

/-! ### The ledger -/

/-- The events that have arrived, by number. -/
structure Ledger where
  arrived : Nat := 0
  queue : List (Nat × SyncEvent) := []
  taken : List (Nat × SyncEvent) := []
  /-- Dropped with a client that was replaced. -/
  dropped : List (Nat × SyncEvent) := []
  /-- Dropped by a `forget`, which gives up the connection. -/
  forgotten : List (Nat × SyncEvent) := []
  forgetting : Bool := false

def MainEvent.isForget : MainEvent → Bool
  | control (.forget _) => true
  | _ => false

namespace Ledger

def dropQueue (l : Ledger) : Ledger :=
  if l.forgetting then { l with queue := [], forgotten := l.forgotten ++ l.queue }
  else { l with queue := [], dropped := l.dropped ++ l.queue }

/-- The ledger after one more moment. -/
def after (l : Ledger) : Moment → Ledger
  | .arrives ev => { l with arrived := l.arrived + 1, queue := l.queue ++ [(l.arrived, ev)] }
  | .takes (.hub _) =>
    { l with queue := l.queue.tail, taken := l.taken ++ l.queue.head?.toList, forgetting := false }
  | .takes ev => { l with forgetting := ev.isForget }
  | .op e => if e.1.keepsClient then l else l.dropQueue
  | .beside => l

/-- The event is somewhere. -/
def Has (l : Ledger) (x : Nat × SyncEvent) : Prop :=
  x ∈ l.queue ∨ x ∈ l.taken ∨ x ∈ l.dropped ∨ x ∈ l.forgotten

theorem Has.dropQueue {l : Ledger} {x : Nat × SyncEvent} (h : l.Has x) : l.dropQueue.Has x := by
  unfold Ledger.dropQueue Has
  rcases h with h | h | h | h <;> split <;> simp [h]

theorem Has.after {l : Ledger} {x : Nat × SyncEvent} (h : l.Has x) (m : Moment) : (l.after m).Has x := by
  cases m with
  | arrives ev =>
    rcases h with h | h
    · exact .inl (List.mem_append_left _ h)
    · exact .inr h
  | takes ev =>
    cases ev with
    | hub ev =>
      rcases h with h | h | h | h
      · cases hq : l.queue with
        | nil => rw [hq] at h; cases h
        | cons y rest =>
          rw [hq] at h
          rcases List.mem_cons.1 h with rfl | h
          · exact .inr (.inl (List.mem_append_right _ (by simp [hq])))
          · exact .inl (by simpa [Ledger.after, hq] using h)
      · exact .inr (.inl (List.mem_append_left _ h))
      · exact .inr (.inr (.inl h))
      · exact .inr (.inr (.inr h))
    | _ => exact h
  | op e =>
    unfold Ledger.after
    dsimp only
    split
    · exact h
    · exact h.dropQueue
  | beside => exact h

theorem Has.foldl {l : Ledger} {x : Nat × SyncEvent} (h : l.Has x) (ms : List Moment) :
    (ms.foldl Ledger.after l).Has x := by
  induction ms generalizing l with
  | nil => exact h
  | cons m ms ih => exact ih (h.after m)

theorem arrived_after (l : Ledger) (m : Moment) : l.arrived ≤ (l.after m).arrived := by
  cases m with
  | arrives ev => exact Nat.le_succ _
  | takes ev => cases ev <;> exact Nat.le_refl _
  | op e =>
    unfold after dropQueue
    dsimp only
    split
    · exact Nat.le_refl _
    · split <;> exact Nat.le_refl _
  | beside => exact Nat.le_refl _

theorem arrived_foldl (l : Ledger) (ms : List Moment) : l.arrived ≤ (ms.foldl Ledger.after l).arrived := by
  induction ms generalizing l with
  | nil => exact Nat.le_refl _
  | cons m ms ih => exact Nat.le_trans (l.arrived_after m) (ih _)

end Ledger

/-- The ledger of a run. -/
def ledger (ms : List Moment) : Ledger := ms.foldl Ledger.after {}

theorem ledger_append (ms ms' : List Moment) : ledger (ms ++ ms') = ms'.foldl Ledger.after (ledger ms) :=
  List.foldl_append

/-- Every event that has arrived is accounted for. -/
theorem ledger_has (pre : List Moment) (ev : SyncEvent) (post : List Moment) :
    (ledger (pre ++ .arrives ev :: post)).Has ((ledger pre).arrived, ev) := by
  rw [ledger_append, List.foldl_cons]
  exact Ledger.Has.foldl (.inl (List.mem_append_right _ (List.mem_singleton_self _))) post

/-- The ledger is right about the queue. -/
def Linked (l : Ledger) (s : Daemon) : Prop := s.hubQueue = l.queue.map Prod.snd

theorem Linked.op {l : Ledger} {s : Daemon} (h : Linked l s) (o : Op) (a : o.Ans) :
    Linked (l.after (.op ⟨o, a⟩)) (next E o s a) := by
  by_cases ho : o.keepsClient = true
  · have hq : (next E o s a).hubQueue = s.hubQueue := by
      unfold Daemon.hubQueue
      rw [notificationRx_next ho]
    have hl : l.after (.op ⟨o, a⟩) = l := if_pos ho
    rw [hl]
    exact hq.trans h
  · have hl : l.after (.op ⟨o, a⟩) = l.dropQueue := if_neg ho
    have hq : l.dropQueue.queue = [] := by unfold Ledger.dropQueue; split <;> rfl
    cases o with
    | setNotificationClient url =>
      unfold Linked
      rw [hl, hq]
      exact hubQueue_setNotificationClient url s
    | _ => exact absurd rfl ho

theorem Linked.busy {M : Machine daemonSig Daemon} (hM : M.next = next E) {p p' : DProg α} {s s' : Daemon}
    {ms : List Moment} (h : Busy M p s ms p' s') {l : Ledger} (hl : Linked l s) :
    Linked (ms.foldl Ledger.after l) s' := by
  induction h generalizing l with
  | refl => exact hl
  | op ha _ ih =>
    refine ih ?_
    rw [hM]
    exact hl.op _ _
  | @arrives p p' s s' ev queue ms hq _ ih =>
    refine ih ?_
    have hs : queue = l.queue.map Prod.snd := by simpa [Linked, Daemon.hubQueue, hq] using hl
    simp [Linked, Daemon.hubQueue, Ledger.after, hs]
  | @beside p p' s s₁ s' ms hb _ ih =>
    refine ih ?_
    have hs : s₁.hubQueue = s.hubQueue := by unfold Daemon.hubQueue; rw [hb.notificationRx]
    exact hs.trans hl

abbrev KeepsClient {α : Type} (p : DProg α) : Prop :=
  Prog.Only (S := daemonSig) (fun o : Op => o.keepsClient = true) p

theorem Apart.keepsClient {p : DProg α} (h : Apart p) : KeepsClient p :=
  h.mono fun o ho => by cases o <;> first | rfl | exact absurd ho Bool.false_ne_true

theorem Unlocking.keepsClient {p : DProg α} (h : Unlocking p) : KeepsClient p := h.apart.keepsClient

theorem keepsClient_op {o : Op} (h : o.keepsClient = true) : KeepsClient (op o) := ⟨h, fun _ => trivial⟩

theorem keepsClient_syncSshKeys (client : BitwardenClient) : KeepsClient (syncSshKeys client) :=
  only_syncSshKeys (fun _ => rfl) client

theorem PendingSyncSteps.keepsClient {p : DProg α} (h : PendingSyncSteps p) : KeepsClient p :=
  h.mono fun o ho => by cases o <;> first | rfl | exact absurd ho Bool.false_ne_true

theorem SyncSteps.keepsClient {p : DProg α} (h : SyncSteps p) : KeepsClient p :=
  PendingSyncSteps.keepsClient (h.mono fun _ => Op.isPendingSyncStep_of_isSyncStep)

theorem keepsClient_handleSync (E : Crates) (cfg : Config) : KeepsClient (handleSync E cfg) := by
  have hrun : ∀ wasLocked, KeepsClient (runManualSync E cfg wasLocked) := by
    refine fun wasLocked => .bind (syncSteps_doSync E cfg).keepsClient fun r => ?_
    cases r with
    | error e => trivial
    | ok n => exact .ite (.bind (keepsClient_op rfl) fun _ => trivial) trivial
  refine .bind (keepsClient_op rfl) fun wasLocked => .ite ?_ (hrun wasLocked)
  refine .bind (inner_ensureLocalCacheKeyForManualSync E cfg).unlocking.keepsClient fun r => ?_
  cases r with
  | some e => trivial
  | none => exact hrun wasLocked

theorem keepsClient_syncOrDefer (E : Crates) (cfg : Config) (done : NotificationUpdate) :
    KeepsClient (syncOrDefer E cfg done) := by
  refine .bind (syncSteps_doSync E cfg).keepsClient fun r => ?_
  cases r with
  | ok n => exact (apart_notify done).keepsClient
  | error e => exact keepsClient_op rfl

theorem keepsClient_handleHubEvent (E : Crates) (cfg : Config) (ev : SyncEvent) :
    KeepsClient (handleHubEvent E cfg ev) := by
  cases ev with
  | connectionStatus status => exact (apart_notify _).keepsClient
  | cipherChanged =>
    refine .bind (keepsClient_op rfl) fun _ => .ite ?_ (keepsClient_syncOrDefer E cfg _)
    exact .bind (keepsClient_op rfl) fun _ => (apart_notify _).keepsClient
  | logOut => exact .bind (apart_notify _).keepsClient fun _ => .bind apart_lockVault.keepsClient fun _ => trivial
  | fallbackSyncDue =>
    exact .bind (keepsClient_op rfl) fun _ => .ite (keepsClient_op rfl) (keepsClient_syncOrDefer E cfg _)

/-- In every run of the program a replaced client is followed by the resolution of the pending sync, and
nothing touches its flag in between. -/
def ResolvesAfter (E : Crates) (cfg : Config) (p : DProg α) : Prop :=
  ∀ tr a, Runs p tr a → ∀ pre e post, tr = pre ++ e :: post → e.1.keepsClient = false →
    ∃ mid run n rest, post = mid ++ run ++ rest ∧ (∀ e ∈ mid, e.1.beforeSync = true) ∧
      Runs (resolvePendingSync E cfg) run n

theorem KeepsClient.resolvesAfter {p : DProg α} (h : KeepsClient p) : ResolvesAfter E cfg p := by
  rintro tr a hr pre e post rfl he
  have hkeeps := h.mem_runs hr e (by simp)
  exact absurd (he.symm.trans hkeeps) Bool.false_ne_true

theorem ResolvesAfter.bind {p : DProg α} {f : α → DProg β} (hp : ResolvesAfter E cfg p)
    (hf : ∀ a, ResolvesAfter E cfg (f a)) : ResolvesAfter E cfg (p >>= f) := by
  rintro tr b hr pre e post htr he
  obtain ⟨tr₁, tr₂, a, rfl, hr₁, hr₂⟩ := runs_bind.1 hr
  rcases append_eq_append_cons htr with ⟨c, rfl, rfl⟩ | ⟨c, rfl, rfl⟩
  · obtain ⟨mid, run, n, rest, rfl, hmid, hrun⟩ := hp _ a hr₁ pre e c rfl he
    exact ⟨mid, run, n, rest ++ tr₂, by simp, hmid, hrun⟩
  · exact hf a _ b hr₂ c e post rfl he

theorem ResolvesAfter.ite {c : Prop} [Decidable c] {p q : DProg α} (hp : ResolvesAfter E cfg p)
    (hq : ResolvesAfter E cfg q) : ResolvesAfter E cfg (if c then p else q) := by
  split <;> assumption

theorem ResolvesAfter.resolve {p : DProg α} (hp : BeforeSync p) :
    ResolvesAfter E cfg (p >>= fun _ => resolvePendingSync E cfg) := by
  rintro tr b hr pre e post htr he
  obtain ⟨tr₁, tr₂, a, rfl, hr₁, hr₂⟩ := runs_bind.1 hr
  rcases append_eq_append_cons htr with ⟨c, rfl, rfl⟩ | ⟨c, rfl, rfl⟩
  · exact ⟨c, tr₂, b, [], by simp, fun e he => hp.mem_runs hr₁ e (by simp [he]), hr₂⟩
  · exact (pendingSyncSteps_resolvePendingSync E cfg).keepsClient.resolvesAfter _ b hr₂ c e post rfl he

theorem resolvesAfter_rules (E : Crates) (cfg : Config) :
    UnlockRules E cfg fun _ p => ResolvesAfter E cfg p where
  unlocking h := h.keepsClient.resolvesAfter
  bind h hf := h.keepsClient.resolvesAfter.bind hf
  andThen h hf := h.bind fun a => (hf a).unlocking.keepsClient.resolvesAfter
  resolve := (pendingSyncSteps_resolvePendingSync E cfg).keepsClient.resolvesAfter
  restore pin := .resolve (preparing_tryRestoreApiSession E cfg pin).beforeSync

theorem resolvesAfter_finishLogin (E : Crates) (cfg : Config) (client : BitwardenClient)
    (keys : List DecryptedSshKey) (wasLocked : Bool) :
    ResolvesAfter E cfg (finishLogin E cfg client keys wasLocked) := by
  have h := resolvesAfter_rules E cfg
  refine h.bind (unlocking_op rfl) fun _ => h.bind (unlocking_op rfl) fun _ =>
    h.bind (reconcilingSteps_reconcileSyncedKeyState E cfg _).inner.unlocking fun _ =>
      h.bind (unlocking_op rfl) fun _ =>
    h.bind (unlocking_op rfl) fun loaded => ResolvesAfter.ite ?_ (h.ret _)
  have hconnect : BeforeSync (do
      op (.storeVaultLocked false)
      saveDeviceSession E client none
      connectIfAuthenticated cfg client
      op (.writeApiClient (some client))) :=
    .bind (beforeSync_op rfl) fun _ =>
      .bind (savingSteps_saveDeviceSession E client none).routine.beforeSync fun _ =>
      .bind (hubSteps_connectIfAuthenticated cfg client).connecting.support.beforeSync fun _ => beforeSync_op rfl
  have hresolve := h.andThen (f := fun _ => pure (ControlResponse.success
    (loginMessage wasLocked (keys.map DecryptedSshKey.tuple).length))) (.resolve hconnect) fun _ => trivial
  simpa only [Prog.bind_assoc] using hresolve

theorem resolvesAfter_handleUnlockPassword (E : Crates) (cfg : Config) (password : String) :
    ResolvesAfter E cfg (handleUnlockPassword E cfg password) := by
  have h := resolvesAfter_rules E cfg
  refine h.bind (unlocking_op rfl) fun wasLocked => ResolvesAfter.ite (h.ret _) <|
    h.bind (unlocking_op rfl) fun device => h.bind (unlocking_op rfl) fun r => ?_
  cases r with
  | error e => exact h.ret _
  | ok r =>
    refine (keepsClient_syncSshKeys _).resolvesAfter.bind fun r => ?_
    cases r with
    | error e => exact h.ret _
    | ok keys => exact resolvesAfter_finishLogin E cfg _ keys wasLocked

/-- The turns that resolve the pending sync after they have replaced the client. -/
def Turn.resolves : Turn → Bool
  | .event .tokenRefresh | .event (.control (.forget _)) => false
  | .event _ => true
  | _ => false

theorem resolvesAfter_mainStep (E : Crates) (cfg : Config) (ev : MainEvent)
    (h : (Turn.event ev).resolves = true) : ResolvesAfter E cfg (mainStep E cfg ev) := by
  have hrules := resolvesAfter_rules E cfg
  cases ev with
  | control action =>
    refine hrules.andThen (hrules.bind (Inner.unlocking (.when (inner_reload cfg))) fun _ => ?_) fun _ => trivial
    cases action with
    | stop => exact hrules.ret _
    | lock => exact apart_handleLock.keepsClient.resolvesAfter
    | unlock => exact hrules.handleUnlock
    | unlockNative => exact hrules.handleUnlockNative
    | unlockHello => exact hrules.handleUnlockHello
    | status json => exact (apart_buildStatusResponse cfg json).keepsClient.resolvesAfter
    | unlockPin pin => exact hrules.handleUnlockPin pin
    | unlockPassword password => exact resolvesAfter_handleUnlockPassword E cfg password
    | sync => exact (keepsClient_handleSync E cfg).resolvesAfter
    | forget shared => exact absurd h Bool.false_ne_true
    | setPin pin => exact (apart_handleSetPin E cfg pin).keepsClient.resolvesAfter
    | bindHostsDialog => exact prompting_handleBindHostsDialog.routine.apart.keepsClient.resolvesAfter
  | runtime event => exact hrules.handleRuntimeEvent event
  | hub event => exact (keepsClient_handleHubEvent E cfg event).resolvesAfter
  | tokenRefresh => exact absurd h Bool.false_ne_true
  | autoLockTick idle => exact (apart_handleAutoLockTick cfg idle).keepsClient.resolvesAfter

/-! ### What a turn does with the events -/

/-- A `do_sync` has completed, or one has been asked for. -/
def SyncRequested (E : Crates) (cfg : Config) (tr : List Event) : Prop :=
  SyncReturned E cfg tr ∨ ⟨.storePendingSync true, ()⟩ ∈ tr

theorem SyncRequested.append {tr : List Event} (h : SyncRequested E cfg tr) (tr' : List Event) :
    SyncRequested E cfg (tr ++ tr') :=
  h.imp (·.append tr') (List.mem_append_left tr')

theorem SyncRequested.prepend {tr : List Event} (h : SyncRequested E cfg tr) (tr' : List Event) :
    SyncRequested E cfg (tr' ++ tr) :=
  h.imp (·.prepend tr') (List.mem_append_right tr')

/-- A connection status only informs, and may be dropped. -/
def SyncEvent.isReal : SyncEvent → Bool
  | connectionStatus _ => false
  | _ => true

/-- The client is replaced with no logout in its queue, and with no other event that asks for a sync
unless a sync is pending and the turn goes on to resolve it. Giving up the client is not replacing it. -/
def replacesSafely (t : Turn) : Op → Daemon → Bool
  | .setNotificationClient _, s => t.isForget || s.hubQueue.all fun ev =>
      !ev.isReal || (decide (ev ≠ .logOut) && t.resolves && s.pendingSync)
  | _, _ => true

/-- Taking the flag where it is up leads to a sync, or raises the flag again. -/
theorem syncRequested_of_resolve {run : List Event} {n : Bool}
    (h : Runs (resolvePendingSync E cfg) run n) : ∃ taken rest, run = ⟨.swapPendingSync false, taken⟩ :: rest ∧
      (taken = true → SyncRequested E cfg rest) := by
  obtain ⟨taken, rest, rfl, hrest⟩ := runs_perform_bind.1 h
  refine ⟨taken, rest, rfl, fun htaken => ?_⟩
  subst htaken
  obtain ⟨sync, tail, r, rfl, hsync, htail⟩ := runs_bind.1 hrest
  cases r with
  | ok n => exact .inl ⟨[], sync, tail, n, by simp, hsync⟩
  | error e =>
    obtain ⟨u, tail', rfl, -⟩ := runs_perform_bind.1 htail
    exact .inr (by simp)

theorem pendingSync_of_busy {M : Machine daemonSig Daemon} (hM : ∀ o s a, M.ready o s a → ready E o s a)
    (hnext : M.next = next E) {p p' : DProg α} {s s' : Daemon} {ms : List Moment} (h : Busy M p s ms p' s')
    (hs : s.pendingSync = true) {mid rest : List Event} {taken : Bool}
    (hops : ops ms = mid ++ ⟨.swapPendingSync false, taken⟩ :: rest)
    (hmid : ∀ e ∈ mid, e.1.beforeSync = true) : taken = true := by
  induction h generalizing mid with
  | refl => simp at hops
  | @op o k s a ms p s' ha _ ih =>
    cases mid with
    | nil =>
      obtain ⟨he, -⟩ := List.cons.inj hops
      cases he
      exact (hM _ _ _ ha).trans hs
    | cons e mid =>
      obtain ⟨rfl, hrest⟩ := List.cons.inj hops
      refine ih ?_ hrest fun e he => hmid e (List.mem_cons_of_mem _ he)
      rw [hnext]
      exact (pendingSync_next_of_beforeSync (hmid _ (List.mem_cons_self ..)) s a).trans hs
  | arrives _ _ ih => exact ih hs hops hmid
  | beside hb _ ih => exact ih (hb.pendingSync.trans hs) hops hmid

theorem Ledger.forgetting_after {l : Ledger} {m : Moment} (hm : ∀ ev, m ≠ .takes ev) :
    (l.after m).forgetting = l.forgetting := by
  cases m with
  | takes ev => exact absurd rfl (hm ev)
  | op e =>
    unfold after dropQueue
    dsimp only
    split
    · rfl
    · split <;> rfl
  | _ => rfl

/-- What a turn drops was in the queue when it replaced the client. -/
theorem dropped_foldl {l : Ledger} {ms : List Moment} {x : Nat × SyncEvent} (hms : ∀ ev, .takes ev ∉ ms)
    (hx : x ∈ (ms.foldl Ledger.after l).dropped) : x ∈ l.dropped ∨
      ∃ a e b, ms = a ++ .op e :: b ∧ e.1.keepsClient = false ∧ l.forgetting = false ∧
        x ∈ (a.foldl Ledger.after l).queue := by
  induction ms generalizing l with
  | nil => exact .inl hx
  | cons m ms ih =>
    have hm : ∀ ev, m ≠ .takes ev := fun ev he => hms ev (he ▸ List.mem_cons_self ..)
    rcases ih (fun ev he => hms ev (List.mem_cons_of_mem _ he)) hx with hx | ⟨a, e, b, rfl, he, hf, hq⟩
    · cases m with
      | takes ev => exact absurd rfl (hm ev)
      | op e =>
        unfold Ledger.after Ledger.dropQueue at hx
        dsimp only at hx
        split at hx
        · exact .inl hx
        · rename_i he
          split at hx
          · exact .inl hx
          · rename_i hf
            rcases List.mem_append.1 hx with hx | hx
            · exact .inl hx
            · exact .inr ⟨[], e, ms, rfl, by simpa using he, by simpa using hf, hx⟩
      | _ => exact .inl hx
    · rw [Ledger.forgetting_after hm] at hf
      exact .inr ⟨m :: a, e, b, rfl, he, hf, hq⟩

theorem taken_foldl {l : Ledger} {ms : List Moment} (hms : ∀ ev, .takes ev ∉ ms) :
    (ms.foldl Ledger.after l).taken = l.taken := by
  induction ms generalizing l with
  | nil => rfl
  | cons m ms ih =>
    refine (ih fun ev he => hms ev (List.mem_cons_of_mem _ he)).trans ?_
    cases m with
    | takes ev => exact absurd (List.mem_cons_self ..) (hms ev)
    | op e =>
      unfold Ledger.after Ledger.dropQueue
      dsimp only
      split
      · rfl
      · split <;> rfl
    | _ => rfl

theorem Busy.not_takes {M : Machine daemonSig Daemon} {p p' : DProg α} {s s' : Daemon} {ms : List Moment}
    (h : Busy M p s ms p' s') (ev : MainEvent) : .takes ev ∉ ms := by
  induction h with
  | refl => simp
  | op _ _ ih => simpa using ih
  | arrives _ _ ih => simpa using ih
  | beside _ _ ih => simpa using ih

/-- Every number in the queue has been given out. -/
def Ledger.Numbered (l : Ledger) : Prop := ∀ x ∈ l.queue, x.1 < l.arrived

theorem Ledger.Numbered.after {l : Ledger} (h : l.Numbered) (m : Moment) : (l.after m).Numbered := by
  cases m with
  | arrives ev =>
    intro x hx
    rcases List.mem_append.1 hx with hx | hx
    · exact Nat.lt_succ_of_lt (h x hx)
    · rw [List.mem_singleton.1 hx]
      exact Nat.lt_succ_self _
  | takes ev =>
    cases ev with
    | hub ev => exact fun x hx => h x (List.mem_of_mem_tail hx)
    | _ => exact h
  | op e =>
    unfold Ledger.after Ledger.dropQueue
    dsimp only
    split
    · exact h
    · split <;> exact fun x hx => nomatch hx
  | beside => exact h

theorem Ledger.Numbered.foldl {l : Ledger} (h : l.Numbered) (ms : List Moment) :
    (ms.foldl Ledger.after l).Numbered := by
  induction ms generalizing l with
  | nil => exact h
  | cons m ms ih => exact ih (h.after m)

/-- A sync has been asked for since the event arrived. -/
def RequestedSince (E : Crates) (cfg : Config) (ms : List Moment) (x : Nat × SyncEvent) : Prop :=
  ∃ pre post, ms = pre ++ post ∧ x.1 < (ledger pre).arrived ∧ SyncRequested E cfg (ops post)

/-- The main loop has taken up the event and run its handler; a logout has locked the vault. -/
def Processed (E : Crates) (cfg : Config) (ms : List Moment) (x : Nat × SyncEvent) : Prop :=
  ∃ pre run post, ms = pre ++ .takes (.hub x.2) :: run ++ post ∧ (ledger pre).queue.head? = some x ∧
    Runs (handleHubEvent E cfg x.2) (ops run) () ∧
    (x.2 = .logOut → ⟨.storeVaultLocked true, ()⟩ ∈ ops run)

theorem RequestedSince.append {ms : List Moment} {x : Nat × SyncEvent} (h : RequestedSince E cfg ms x)
    (ms' : List Moment) : RequestedSince E cfg (ms ++ ms') x := by
  obtain ⟨pre, post, rfl, hx, hreq⟩ := h
  refine ⟨pre, post ++ ms', by simp, hx, ?_⟩
  rw [ops_append]
  exact hreq.append _

theorem Processed.append {ms : List Moment} {x : Nat × SyncEvent} (h : Processed E cfg ms x)
    (ms' : List Moment) : Processed E cfg (ms ++ ms') x := by
  obtain ⟨pre, run, post, rfl, hx, hrun, hlock⟩ := h
  exact ⟨pre, run, post ++ ms', by simp, hx, hrun, hlock⟩

theorem RequestedSince.after_arrival {pre post : List Moment} {ev : SyncEvent}
    (h : RequestedSince E cfg (pre ++ .arrives ev :: post) ((ledger pre).arrived, ev)) :
    SyncRequested E cfg (ops post) := by
  obtain ⟨pre', post', heq, hlt, hreq⟩ := h
  rcases List.append_eq_append_iff.1 heq with ⟨c, rfl, hc⟩ | ⟨c, rfl, hc⟩
  · cases c with
    | nil => exact absurd hlt (by simp)
    | cons m c =>
      obtain ⟨-, rfl⟩ := List.cons.inj hc
      have hops : ops (c ++ post') = ops c ++ ops post' := ops_append c post'
      exact hops ▸ hreq.prepend _
  · rw [ledger_append] at hlt
    exact absurd (Ledger.arrived_foldl (ledger pre') c) (Nat.not_le.2 hlt)

/-- What a turn drops is made up for before it ends. -/
theorem requestedSince_of_dropped {t : Turn} {ms ms' : List Moment} {p p' : DProg Unit} {s s' : Daemon}
    (hl : Linked (ledger ms) s) (hf : (ledger ms).forgetting = t.isForget)
    (hb : Busy ((machine E).guard fun o s => replacesSafely t o s = true) p s ms' p' s')
    (hend : t.resolves = true → p' = .ret () ∧ ResolvesAfter E cfg p) {x : Nat × SyncEvent}
    (hx : x ∈ (ledger (ms ++ ms')).dropped) (hreal : x.2.isReal = true) :
    x ∈ (ledger ms).dropped ∨ x.2 ≠ .logOut ∧ RequestedSince E cfg (ms ++ ms') x := by
  rw [ledger_append] at hx
  rcases dropped_foldl hb.not_takes hx with hx | ⟨a, ⟨o, u⟩, b, rfl, ho, hforget, hq⟩
  · exact .inl hx
  · refine .inr ?_
    obtain ⟨q, s₂, hba, hbb⟩ := hb.append_inv
    cases hbb with
    | @op _ k _ _ _ _ _ hready hbb =>
      obtain ⟨-, hsafe⟩ := hready
      have hlink := hl.busy rfl hba
      have hmem : x.2 ∈ s₂.hubQueue := hlink ▸ List.mem_map_of_mem hq
      cases o with
      | setNotificationClient url =>
        rw [replacesSafely, ← hf, hforget, Bool.false_or] at hsafe
        have hx₂ := List.all_eq_true.1 hsafe x.2 hmem
        rw [hreal, Bool.not_true, Bool.false_or, Bool.and_eq_true, Bool.and_eq_true, decide_eq_true_eq] at hx₂
        obtain ⟨⟨hne, hres⟩, hpending⟩ := hx₂
        refine ⟨hne, ?_⟩
        obtain ⟨rfl, hresolves⟩ := hend hres
        obtain ⟨mid, run, n, rest, hops, hmid, hrun⟩ := hresolves _ () (reaches_ret.1 hb.reaches) (ops a)
          ⟨.setNotificationClient url, u⟩ (ops b) (by simp) rfl
        obtain ⟨taken, rest', rfl, hreq⟩ := syncRequested_of_resolve hrun
        have hguard : ∀ o s a, ((machine E).guard fun o s => replacesSafely t o s = true).ready o s a →
            ready E o s a := fun _ _ _ h => h.1
        have htaken : taken = true := pendingSync_of_busy hguard rfl hbb hpending
          (by rw [hops, List.append_assoc]; rfl) hmid
        refine ⟨ms ++ a ++ [.op ⟨.setNotificationClient url, u⟩], b, by simp, ?_, ?_⟩
        · have hnum : (a.foldl Ledger.after (ledger ms)).Numbered := by
            rw [← ledger_append]
            exact Ledger.Numbered.foldl (l := {}) (fun x hx => nomatch hx) _
          rw [ledger_append, ledger_append]
          exact Nat.lt_of_lt_of_le (hnum x hq) (Ledger.arrived_foldl ..)
        · rw [hops]
          exact (((hreq htaken).prepend [_]).prepend mid).append rest
      | _ => exact absurd ho.symm Bool.false_ne_true

theorem locks_of_logOut {tr : List Event} (h : Runs (handleHubEvent E cfg .logOut) tr ())
    (hA : ∀ b, (⟨.agentLock, b⟩ : Event) ∈ tr → b = true) : ⟨.storeVaultLocked true, ()⟩ ∈ tr := by
  obtain ⟨tr₁, tr₂, u, rfl, -, h₂⟩ := runs_bind.1 h
  obtain ⟨tr₃, tr₄, r, rfl, h₃, -⟩ := runs_bind.1 h₂
  obtain ⟨b, tr₅, rfl, h₅⟩ := runs_perform_bind.1 h₃
  obtain rfl : b = true := hA b (by simp)
  obtain ⟨u', tr₆, rfl, -⟩ := runs_perform_bind.1 h₅
  simp

theorem Busy.agentLock {M : Machine daemonSig Daemon} (hM : ∀ o s a, M.ready o s a → ready E o s a)
    (hnext : M.next = next E) {p p' : DProg α} {s s' : Daemon} {ms : List Moment} (h : Busy M p s ms p' s')
    (hs : s.agent.isRunning = true) (b : Bool) (hb : (⟨.agentLock, b⟩ : Event) ∈ ops ms) : b = true := by
  induction h with
  | refl => cases hb
  | @op o k s a ms p s' ha _ ih =>
    rcases List.mem_cons.1 hb with he | hb
    · cases he
      exact (hM _ _ _ ha).trans hs
    · refine ih ?_ hb
      rw [hnext]
      exact isRunning_next E o a hs
  | arrives _ _ ih => exact ih hs hb
  | beside hbeside _ ih => exact ih (hbeside.isRunning hs) hb

/-! ### Runs -/

/-- The ledger of a run with its state: nothing real is lost. -/
structure NothingLost (E : Crates) (cfg : Config) (ms : List Moment) (s : Daemon) : Prop where
  linked : Linked (ledger ms) s
  isRunning : s.agent.isRunning = true
  dropped : ∀ x ∈ (ledger ms).dropped, x.2.isReal = true → x.2 ≠ .logOut ∧ RequestedSince E cfg ms x
  taken : ∀ x ∈ (ledger ms).taken, Processed E cfg ms x

theorem Linked.takes {l : Ledger} {s s₁ : Daemon} {ev : MainEvent} (h : Linked l s) (hr : Receives s ev s₁) :
    Linked (l.after (.takes ev)) s₁ := by
  cases hr with
  | hub ev rest hrx =>
    have hq : ev :: rest = l.queue.map Prod.snd := by simpa [Linked, Daemon.hubQueue, hrx] using h
    have htail : rest = l.queue.tail.map Prod.snd := by rw [List.map_tail, ← hq, List.tail_cons]
    exact htail
  | _ => exact h

theorem Receives.isRunning {s s₁ : Daemon} {ev : MainEvent} (hr : Receives s ev s₁) :
    s₁.agent.isRunning = s.agent.isRunning := by
  cases hr <;> rfl

theorem ledger_takes (ms : List Moment) (ev : MainEvent) :
    ledger (ms ++ [.takes ev]) = (ledger ms).after (.takes ev) := by
  rw [ledger_append]
  rfl

theorem forgetting_takes (l : Ledger) (ev : MainEvent) : (l.after (.takes ev)).forgetting = ev.isForget := by
  cases ev <;> rfl

theorem dropped_takes (l : Ledger) (ev : MainEvent) : (l.after (.takes ev)).dropped = l.dropped := by
  cases ev <;> rfl

/-- A turn keeps track of what it drops: the part of the step that turns have in common. -/
theorem NothingLost.turn {t : Turn} {ev : MainEvent} {ms ms' : List Moment} {p p' : DProg Unit}
    {s s₁ s' : Daemon} (h : NothingLost E cfg ms s) (hr : Receives s ev s₁) (hf : ev.isForget = t.isForget)
    (hb : Busy ((machine E).guard fun o s => replacesSafely t o s = true) p s₁ ms' p' s')
    (hend : t.resolves = true → p' = .ret () ∧ ResolvesAfter E cfg p)
    (htaken : ∀ x, (ledger ms).queue.head? = some x → ev = .hub x.2 →
      Processed E cfg (ms ++ .takes ev :: ms') x) :
    NothingLost E cfg (ms ++ .takes ev :: ms') s' := by
  have heq : ms ++ .takes ev :: ms' = (ms ++ [.takes ev]) ++ ms' := by simp
  have hl₁ : Linked (ledger (ms ++ [.takes ev])) s₁ := by rw [ledger_takes]; exact h.linked.takes hr
  have hkept : ∀ x, x ∈ (ledger ms).dropped → x.2.isReal = true →
      x.2 ≠ .logOut ∧ RequestedSince E cfg (ms ++ .takes ev :: ms') x :=
    fun x hx hreal => ⟨(h.dropped x hx hreal).1, (h.dropped x hx hreal).2.append _⟩
  refine ⟨?_, ?_, fun x hx hreal => ?_, fun x hx => ?_⟩
  · rw [heq, ledger_append]
    exact hl₁.busy rfl hb
  · exact hb.invariant (I := fun s => s.agent.isRunning = true)
      (fun o s a _ hs => isRunning_next E o a hs) (fun _ _ hs => hs) (fun _ _ hbeside hs => hbeside.isRunning hs)
      (hr.isRunning.trans h.isRunning)
  · rw [heq] at hx
    have hforget : (ledger (ms ++ [.takes ev])).forgetting = t.isForget := by
      rw [ledger_takes, forgetting_takes, hf]
    rcases requestedSince_of_dropped hl₁ hforget hb hend hx hreal with hx | hreq
    · rw [ledger_takes, dropped_takes] at hx
      exact hkept x hx hreal
    · rwa [heq]
  · rw [heq, ledger_append, taken_foldl hb.not_takes, ledger_takes] at hx
    cases ev with
    | hub ev =>
      rcases List.mem_append.1 hx with hx | hx
      · exact (h.taken x hx).append _
      · have hhead : (ledger ms).queue.head? = some x := by simpa using hx
        cases hr with
        | hub ev rest hrx =>
          have hq : ev :: rest = (ledger ms).queue.map Prod.snd := by
            simpa [Linked, Daemon.hubQueue, hrx] using h.linked
          have hev : some ev = some x.2 := by
            have hmap := congrArg List.head? hq
            rwa [List.head?_map, hhead] at hmap
          exact htaken x hhead (congrArg MainEvent.hub (Option.some.inj hev))
    | _ => exact (h.taken x hx).append _

theorem HubRun.nothingLost {s₀ s : Daemon} {ms : List Moment}
    (h : HubRun E cfg (fun t o s => replacesSafely t o s = true) s₀ ms s) (hq : s₀.hubQueue = [])
    (hs₀ : s₀.agent.isRunning = true) : NothingLost E cfg ms s := by
  induction h with
  | nil => exact ⟨hq, hs₀, fun x hx => (nomatch hx), fun x hx => (nomatch hx)⟩
  | @event s s₁ s' ev ms ms' _ hr hb ih =>
    refine ih.turn hr (t := .event ev) ?_ hb (fun hres => ⟨rfl, resolvesAfter_mainStep E cfg ev hres⟩) ?_
    · cases ev with
      | control action => cases action <;> rfl
      | _ => rfl
    · rintro x hx rfl
      refine ⟨ms, ms', [], by simp, hx, reaches_ret.1 hb.reaches, fun hlogout => ?_⟩
      have hguard : ∀ o s a, ((machine E).guard fun o s => replacesSafely (.event (.hub x.2)) o s = true).ready
          o s a → ready E o s a := fun _ _ _ h => h.1
      have hruns : Runs (handleHubEvent E cfg .logOut) (ops ms') () := hlogout ▸ reaches_ret.1 hb.reaches
      exact locks_of_logOut hruns (hb.agentLock hguard rfl (hr.isRunning.trans ih.isRunning))
  | @dropped s s' action ms ms' p _ hr hb hd ih =>
    refine ih.turn (.control action hr) (t := .dropped action) ?_ hb
      (fun hres => absurd hres Bool.false_ne_true) ?_
    · cases action <;> rfl
    · exact fun x _ he => nomatch he
  | @idle s s' ms ms' _ hb ih =>
    have hops : ops ms' = [] := by
      obtain ⟨hops, -⟩ := hb.reaches.of_ret
      exact hops
    refine ⟨?_, ?_, fun x hx hreal => ?_, fun x hx => ?_⟩
    · rw [ledger_append]
      exact ih.linked.busy rfl hb
    · exact hb.invariant (I := fun s => s.agent.isRunning = true)
        (fun o s a _ hs => isRunning_next E o a hs) (fun _ _ hs => hs)
        (fun _ _ hbeside hs => hbeside.isRunning hs) ih.isRunning
    · rw [ledger_append] at hx
      rcases dropped_foldl hb.not_takes hx with hx | ⟨a, e, b, rfl, -⟩
      · exact ⟨(ih.dropped x hx hreal).1, (ih.dropped x hx hreal).2.append _⟩
      · simp at hops
    · rw [ledger_append, taken_foldl hb.not_takes] at hx
      exact (ih.taken x hx).append _

theorem hubQueue_next {s : Daemon} (h : s.hubQueue = []) (o : Op) (a : o.Ans) : (next E o s a).hubQueue = [] := by
  cases o with
  | setNotificationClient url => exact hubQueue_setNotificationClient url s
  | _ =>
    unfold Daemon.hubQueue
    rw [notificationRx_next rfl]
    exact h

theorem hubQueue_of_steps {p p' : DProg α} {s s' : Daemon} {tr : List Event}
    (h : Steps (machine E) p s tr p' s') (hs : s.hubQueue = []) : s'.hubQueue = [] := by
  induction h with
  | refl => exact hs
  | step _ _ ih => exact ih (hubQueue_next hs _ _)

theorem Started.hubQueue {cfg₀ : Config} {s₀ s : Daemon} (h : Started (machine E) E cfg₀ cfg s₀ s) :
    s.hubQueue = [] := by
  obtain ⟨hfresh, hsteps⟩ := h
  have hempty : s₀.hubQueue = [] := by rw [hfresh]; rfl
  exact hubQueue_of_steps hsteps hempty

/-- The `n`-th event to arrive still waits, or has been processed, or was given up with the connection, or
a sync was asked for after it; a logout waits, has locked the vault, or was given up. -/
def EventKept (E : Crates) (cfg : Config) (ms : List Moment) (s : Daemon) (n : Nat) (ev : SyncEvent)
    (post : List Moment) : Prop :=
  (ev ∈ s.hubQueue ∧ (n, ev) ∈ (ledger ms).queue) ∨ Processed E cfg ms (n, ev) ∨ (n, ev) ∈ (ledger ms).forgotten ∨
    ev ≠ .logOut ∧ SyncRequested E cfg (ops post)

/-- No event is lost with a client that is replaced safely. -/
theorem hubEvents_kept {cfg₀ : Config} {s₀ s s' : Daemon} {ms : List Moment}
    (hs : Started (machine E) E cfg₀ cfg s₀ s)
    (h : HubRun E cfg (fun t o s => replacesSafely t o s = true) s ms s') :
    ∀ pre ev post, ms = pre ++ .arrives ev :: post → ev.isReal = true →
      EventKept E cfg ms s' (ledger pre).arrived ev post := by
  rintro pre ev post rfl hreal
  have hkept := h.nothingLost hs.hubQueue hs.isRunning
  rcases ledger_has pre ev post with hx | hx | hx | hx
  · exact .inl ⟨hkept.linked ▸ List.mem_map_of_mem hx, hx⟩
  · exact .inr (.inl (hkept.taken _ hx))
  · obtain ⟨hne, hreq⟩ := hkept.dropped _ hx hreal
    exact .inr (.inr (.inr ⟨hne, hreq.after_arrival⟩))
  · exact .inr (.inr (.inl hx))

/-- The moments of a scene; a request is handled beside the main loop. -/
def Scene.moments (E : Crates) (cfg : Config) (s : Daemon) : Scene → List Moment
  | take ev sc => .takes ev :: ((Scene.take ev sc).trace E cfg s).map .op
  | drop action sc n => .takes (.control action) :: ((Scene.drop action sc n).trace E cfg s).map .op
  | deliver e => [.arrives e]
  | ask _ _ => [.beside]

/-- Every operation of the scene is allowed where it is performed. -/
def Scene.allowed (E : Crates) (cfg : Config) (G : Turn → Op → Daemon → Bool) (s : Daemon) (scene : Scene) :
    Bool :=
  match scene with
  | take ev _ => (receive? s ev).all fun s₁ =>
    decide ((machine E).Meets (fun o s => G (.event ev) o s = true) s₁ (scene.trace E cfg s))
  | drop action _ _ =>
    decide ((machine E).Meets (fun o s => G (.dropped action) o s = true) s (scene.trace E cfg s))
  | _ => true

/-- The moments of the scenes and the state they end in. -/
def playMoments (E : Crates) (cfg : Config) (G : Turn → Op → Daemon → Bool) :
    List Scene → Daemon → Option (List Moment × Daemon)
  | [], s => some ([], s)
  | scene :: scenes, s =>
    if scene.allowed E cfg G s then
      (scene.play E cfg s).bind fun s₁ =>
        (playMoments E cfg G scenes s₁).map fun x => (scene.moments E cfg s ++ x.1, x.2)
    else none

theorem HubRun.scene {G : Turn → Op → Daemon → Bool} {s₀ s s' : Daemon} {ms : List Moment}
    (h : HubRun E cfg (fun t o s => G t o s = true) s₀ ms s) {scene : Scene}
    (hplay : scene.play E cfg s = some s') (hG : scene.allowed E cfg G s = true) :
    HubRun E cfg (fun t o s => G t o s = true) s₀ (ms ++ scene.moments E cfg s) s' := by
  cases scene with
  | take ev sc =>
    obtain ⟨s₁, hr, hend⟩ := Option.bind_eq_some_iff.1 hplay
    extract_lets end_ at hend
    split at hend
    · rename_i hret
      obtain rfl := Option.some.inj hend
      obtain ⟨u, hu⟩ := Option.isSome_iff_exists.1 hret
      have hsteps := sc.run_steps E enough (mainStep E cfg ev) s₁
      rw [eq_ret_of_result? hu] at hsteps
      have htrace : (Scene.take ev sc).trace E cfg s =
          Prog.trace (machine E) sc.answer enough (mainStep E cfg ev) s₁ := by
        rw [Scene.trace, hr]
      have hmeets : (machine E).Meets (fun o s => G (.event ev) o s = true) s₁
          ((Scene.take ev sc).trace E cfg s) := by
        simpa [Scene.allowed, hr] using hG
      rw [← htrace] at hsteps
      exact h.event (receives_of_receive? hr) (.of_steps (hsteps.guard hmeets))
    · cases hend
  | drop action sc n =>
    simp only [Scene.play] at hplay
    split at hplay
    · rename_i hstop
      obtain rfl := Option.some.inj hplay
      have hsteps := sc.run_steps E n (mainStep E cfg (.control action)) s
      exact h.dropped hstop.1 (.of_steps (hsteps.guard (of_decide_eq_true hG))) (dropped_of_stopsAtAwait hstop.2)
    · cases hplay
  | deliver e =>
    obtain ⟨queue, hq, rfl⟩ := Option.map_eq_some_iff.1 hplay
    exact h.idle (.arrives hq (.refl _ _))
  | ask request sc =>
    simp only [Scene.play] at hplay
    split at hplay
    · obtain rfl := Option.some.inj hplay
      have hsteps := sc.run_steps E enough (handleUiRequest E cfg request) s
      exact h.idle (.beside (besideHub_of_steps (unlocking_handleUiRequest E cfg request) hsteps) (.refl _ _))
    · cases hplay

theorem HubRun.scenes {G : Turn → Op → Daemon → Bool} {s₀ s : Daemon} {ms : List Moment}
    (h : HubRun E cfg (fun t o s => G t o s = true) s₀ ms s) {scenes : List Scene} {x : List Moment × Daemon}
    (hplay : playMoments E cfg G scenes s = some x) :
    HubRun E cfg (fun t o s => G t o s = true) s₀ (ms ++ x.1) x.2 := by
  induction scenes generalizing s ms x with
  | nil =>
    obtain rfl := Option.some.inj hplay
    simpa using h
  | cons scene scenes ih =>
    unfold playMoments at hplay
    split at hplay
    · rename_i hG
      obtain ⟨s₁, h₁, hrest⟩ := Option.bind_eq_some_iff.1 hplay
      obtain ⟨y, hy, rfl⟩ := Option.map_eq_some_iff.1 hrest
      have hrun := ih (h.scene h₁ hG) hy
      rwa [List.append_assoc] at hrun
    · cases hplay

/-- A token that is about to expire at the first tick. -/
def expiringScript : Script := { plainScript with login := .ok (⟨"access", some "refresh", 1000⟩, ⟨[3], [4]⟩) }

/-- A run of a device after its first login. -/
def afterFirstLogin (G : Turn → Op → Daemon → Bool) (scenes : List Scene) :
    Option (Config × Daemon × List Moment × Daemon) :=
  (playStart .plain plainConfig expiringScript {}).bind fun x =>
    (playMoments .plain x.1 G scenes x.2).map fun y => (x.1, x.2, y)

theorem exists_of_afterFirstLogin {G : Turn → Op → Daemon → Bool} {scenes : List Scene}
    {check : Config × Daemon × List Moment × Daemon → Bool}
    (h : (afterFirstLogin G scenes).any check = true) : ∃ cfg s₀ s ms s',
      Started (machine .plain) .plain plainConfig cfg s₀ s ∧
      HubRun .plain cfg (fun t o s => G t o s = true) s ms s' ∧ check (cfg, s, ms, s') = true := by
  obtain ⟨x, hx, hcheck⟩ := (Option.any_eq_true _ _).1 h
  obtain ⟨⟨cfg, s⟩, hstart, hrest⟩ := Option.bind_eq_some_iff.1 hx
  obtain ⟨y, hplay, rfl⟩ := Option.map_eq_some_iff.1 hrest
  exact ⟨cfg, _, s, y.1, y.2, started_playStart hstart, HubRun.nil.scenes hplay, hcheck⟩

/-- The logout has been processed when the token is refreshed. -/
theorem hubEvents_kept_taken : ∃ cfg s ms s',
    HubRun .plain cfg (fun t o s => replacesSafely t o s = true) s ms s' ∧ s'.vaultLocked = true ∧
      ∀ pre ev post, ms = pre ++ .arrives ev :: post → ev.isReal = true →
        EventKept .plain cfg ms s' (ledger pre).arrived ev post := by
  obtain ⟨cfg, s₀, s, ms, s', hs, hrun, hlocked⟩ := exists_of_afterFirstLogin
    (show (afterFirstLogin replacesSafely [.deliver .logOut, .take (.hub .logOut) expiringScript,
      .take .tokenRefresh expiringScript]).any (fun x => x.2.2.2.vaultLocked) = true by decide +kernel)
  exact ⟨cfg, s, ms, s', hrun, hlocked, hubEvents_kept hs hrun⟩

def Moment.isTaken : Moment → Bool
  | takes (.hub _) => true
  | _ => false

/-- The first moment is the arrival of a logout that is never taken up, and is gone in the end. -/
def losesLogOut : List Moment × Daemon → Bool
  | (.arrives .logOut :: post, s) =>
    s.hubQueue.isEmpty && post.all (fun m => !m.isTaken) && (ledger (.arrives .logOut :: post)).forgotten.isEmpty
  | _ => false

/-- A logout waits in the queue when the token is refreshed, and goes with the old client. -/
theorem logOut_lost : ¬∀ cfg s₀ s ms s', Started (machine .plain) .plain plainConfig cfg s₀ s →
    HubRun .plain cfg (fun _ _ _ => True) s ms s' → ∀ pre ev post, ms = pre ++ .arrives ev :: post →
      ev.isReal = true → EventKept .plain cfg ms s' (ledger pre).arrived ev post := by
  intro h
  obtain ⟨cfg, s₀, s, ms, s', hs, hrun, hlost⟩ := exists_of_afterFirstLogin
    (show (afterFirstLogin (fun _ _ _ => true) [.deliver .logOut, .take .tokenRefresh expiringScript]).any
      (fun x => losesLogOut x.2.2) = true by decide +kernel)
  unfold losesLogOut at hlost
  split at hlost
  · rename_i post s' heq
    obtain ⟨rfl, rfl⟩ := Prod.mk.inj heq
    simp only [Bool.and_eq_true, List.isEmpty_iff, List.all_eq_true, Bool.not_eq_true'] at hlost
    obtain ⟨⟨hqueue, htaken⟩, hforgotten⟩ := hlost
    rw [show (fun _ _ _ => true = true) = fun _ _ _ => True from by simp only] at hrun
    have hkept : EventKept .plain cfg (.arrives .logOut :: post) s' 0 .logOut post :=
      h cfg s₀ s _ s' hs hrun [] .logOut post rfl rfl
    rcases hkept with ⟨hwaits, -⟩ | ⟨pre, run, rest, heq, -⟩ | hgone | ⟨hno, -⟩
    · rw [hqueue] at hwaits
      cases hwaits
    · have hm : Moment.takes (.hub .logOut) ∈ Moment.arrives .logOut :: post := by
        have hm : Moment.takes (.hub .logOut) ∈ pre ++ .takes (.hub .logOut) :: run ++ rest := by simp
        rwa [← heq] at hm
      have hpost : Moment.takes (.hub .logOut) ∈ post := (List.mem_cons.1 hm).resolve_left nofun
      exact absurd (htaken _ hpost).symm Bool.false_ne_true
    · rw [hforgotten] at hgone
      cases hgone
    · exact hno rfl
  · exact absurd hlost Bool.false_ne_true

end SshWarden
