import SshWarden.Handlers
import SshWarden.Scenario

/-!
# Deferred syncs

`resolvePendingSync` takes the flag before its sync and raises it again when the sync fails. A sync
that is dropped in between neither fails nor succeeds: `pendingSync_kept_iff` says that this is the
only way in which a deferred sync is lost. The proof carries the events of the turn next to the state:
a handler is `Waiting` until it takes the flag or starts a sync, and `Settled` after it.
-/

namespace SshWarden
open Prog

variable {E : Crates} {cfg : Config} {α β : Type}

/-- A `do_sync` has returned `Ok` in the course of these events. -/
def SyncReturned (E : Crates) (cfg : Config) (tr : List Event) : Prop :=
  ∃ pre run post n, tr = pre ++ run ++ post ∧ Runs (doSync E cfg) run (.ok n)

/-- The events end at an `.await` of the sync for which `resolve_pending_sync` took the flag. -/
def SyncInterrupted (E : Crates) (cfg : Config) (tr : List Event) : Prop :=
  ∃ pre post p, tr = pre ++ ⟨.swapPendingSync false, true⟩ :: post ∧ Reaches (doSync E cfg) post p ∧
    Dropped p

def Turn.isForget : Turn → Bool
  | .event (.control (.forget _)) | .dropped (.forget _) => true
  | _ => false

theorem SyncReturned.append {tr : List Event} (h : SyncReturned E cfg tr) (tr' : List Event) :
    SyncReturned E cfg (tr ++ tr') := by
  obtain ⟨pre, run, post, n, rfl, hr⟩ := h
  exact ⟨pre, run, post ++ tr', n, by simp, hr⟩

theorem SyncReturned.prepend {tr : List Event} (h : SyncReturned E cfg tr) (tr' : List Event) :
    SyncReturned E cfg (tr' ++ tr) := by
  obtain ⟨pre, run, post, n, rfl, hr⟩ := h
  exact ⟨tr' ++ pre, run, post, n, by simp, hr⟩

/-- Operations that start no sync and leave the flag. -/
def Op.beforeSync : Op → Bool
  | hold .apiClient _ | storePendingSync _ | swapPendingSync _ => false
  | _ => true

/-- Operations that do not clear the flag. -/
def Op.keepsPending : Op → Bool
  | swapPendingSync _ | storePendingSync false => false
  | _ => true

abbrev BeforeSync {α : Type} (p : DProg α) : Prop :=
  Prog.Only (S := daemonSig) (fun o : Op => o.beforeSync = true) p

abbrev KeepsPending {α : Type} (p : DProg α) : Prop :=
  Prog.Only (S := daemonSig) (fun o : Op => o.keepsPending = true) p

theorem Op.beforeSync_of_isPreparing {o : Op} (h : o.isPreparing = true) : o.beforeSync = true := by
  cases o with
  | hold l m => cases l <;> first | rfl | exact h
  | _ => first | rfl | exact h

theorem Op.beforeSync_of_isSupport {o : Op} (h : o.isSupport = true) : o.beforeSync = true := by
  cases o <;> first | rfl | exact absurd h Bool.false_ne_true

theorem Op.keepsPending_of_beforeSync {o : Op} (h : o.beforeSync = true) : o.keepsPending = true := by
  cases o <;> first | rfl | exact absurd h Bool.false_ne_true

theorem Op.keepsPending_of_keepsCore {o : Op} (h : o.keepsCore = true) : o.keepsPending = true := by
  cases o <;> first | rfl | exact absurd h Bool.false_ne_true

theorem Preparing.beforeSync {p : DProg α} (h : Preparing p) : BeforeSync p :=
  h.mono fun _ => Op.beforeSync_of_isPreparing

theorem Inner.beforeSync {p : DProg α} (h : Inner p) : BeforeSync p := h.preparing.beforeSync

theorem Routine.beforeSync {p : DProg α} (h : Routine p) : BeforeSync p := h.inner.beforeSync

theorem Support.beforeSync {p : DProg α} (h : Support p) : BeforeSync p :=
  h.mono fun _ => Op.beforeSync_of_isSupport

theorem BeforeSync.keepsPending {p : DProg α} (h : BeforeSync p) : KeepsPending p :=
  h.mono fun _ => Op.keepsPending_of_beforeSync

theorem KeepsCore.keepsPending {p : DProg α} (h : KeepsCore p) : KeepsPending p :=
  h.mono fun _ => Op.keepsPending_of_keepsCore

theorem Op.keepsPending_of_isAside {o : Op} (h : o.isAside = true) : o.keepsPending = true := by
  cases o with
  | storePendingSync b => cases b <;> first | rfl | exact absurd h Bool.false_ne_true
  | _ => first | rfl | exact absurd h Bool.false_ne_true

theorem Aside.keepsPending {p : DProg α} (h : Aside p) : KeepsPending p :=
  h.mono fun _ => Op.keepsPending_of_isAside

theorem beforeSync_op {o : Op} (h : o.beforeSync = true) : BeforeSync (op o) := ⟨h, fun _ => trivial⟩

theorem keepsPending_op {o : Op} (h : o.keepsPending = true) : KeepsPending (op o) := ⟨h, fun _ => trivial⟩

/-- A sync takes the guard on the client, and nothing in it takes it again. -/
theorem exists_doSync (E : Crates) (cfg : Config) : ∃ f : Unit → DProg (Except String Nat),
    doSync E cfg = .vis (.hold .apiClient .read) f ∧ ∀ u, BeforeSync (f u) := by
  refine ⟨_, rfl, fun _ => ?_⟩
  refine Only.bind (p := op .peekApiClient) (beforeSync_op rfl) fun client => ?_
  have hrelease : ∀ r : Except String Nat, BeforeSync (do op (.release .apiClient); return r) :=
    fun r => .bind (beforeSync_op rfl) fun _ => trivial
  cases client with
  | none => exact hrelease _
  | some client =>
    refine .ite (hrelease _) (.bind (support_syncSshKeys client).beforeSync fun r => ?_)
    cases r with
    | error e => exact hrelease _
    | ok keys =>
      refine .bind (beforeSync_op rfl) fun _ => .bind (beforeSync_op rfl) fun _ =>
        .bind (reconcilingSteps_reconcileSyncedKeyState E cfg _).inner.beforeSync fun _ =>
          .bind (beforeSync_op rfl) fun _ =>
        .bind (beforeSync_op rfl) fun _ => .bind (beforeSync_op rfl) fun locked => ?_
      have hdone : BeforeSync (notify .recordSuccessfulSync) := (inner_notify _).beforeSync
      refine .ite (.bind (beforeSync_op rfl) fun loaded => .ite ?_ trivial) ?_
      · exact .bind hdone fun _ => trivial
      · exact .bind hdone fun _ => trivial

/-- The events are outside of every sync for which the flag was taken: it has returned. -/
def OutsideSync (E : Crates) (cfg : Config) (tr : List Event) : Prop :=
  ∀ pre post p, tr = pre ++ ⟨.swapPendingSync false, true⟩ :: post → Reaches (doSync E cfg) post p →
    ∃ r, p = .ret r

/-- The flag is raised, and no sync has started. -/
def Waiting (x : Daemon × List Event) : Prop :=
  x.1.pendingSync = true ∧ ∀ e ∈ x.2, e.1.beforeSync = true

/-- The deferred sync is still to be done, or has been done. -/
def Settled (E : Crates) (cfg : Config) (x : Daemon × List Event) : Prop :=
  (x.1.pendingSync = true ∨ SyncReturned E cfg x.2) ∧ OutsideSync E cfg x.2

/-- Where an action may be dropped, exactly an interrupted sync loses the deferred one. -/
def KeptUnlessInterrupted (E : Crates) (cfg : Config) (o : Op) (x : Daemon × List Event) : Prop :=
  o.awaits = true → (x.1.pendingSync = true ∨ SyncReturned E cfg x.2 ↔ ¬SyncInterrupted E cfg x.2)

theorem OutsideSync.not_interrupted {tr : List Event} (h : OutsideSync E cfg tr) :
    ¬SyncInterrupted E cfg tr := by
  rintro ⟨pre, post, p, rfl, hr, o, k, rfl, -⟩
  obtain ⟨r, hret⟩ := h pre post _ rfl hr
  cases hret

theorem OutsideSync.snoc {tr : List Event} (h : OutsideSync E cfg tr) {e : Event}
    (he : e.1.keepsPending = true) : OutsideSync E cfg (tr ++ [e]) := by
  intro pre post p heq hr
  rcases List.eq_nil_or_concat post with rfl | ⟨post, e', rfl⟩
  · obtain ⟨-, rfl⟩ := List.append_singleton_inj.1 heq
    exact absurd he Bool.false_ne_true
  · rw [List.concat_eq_append] at heq hr
    rw [← List.cons_append, ← List.append_assoc] at heq
    obtain ⟨rfl, rfl⟩ := List.append_singleton_inj.1 heq
    obtain ⟨q, hq, hp⟩ := Reaches.append_iff.1 hr
    obtain ⟨r, rfl⟩ := h pre post q rfl hq
    exact absurd hp.of_ret.1 (List.cons_ne_nil _ _)

theorem Settled.kept {x : Daemon × List Event} (h : Settled E cfg x) (o : Op) :
    KeptUnlessInterrupted E cfg o x :=
  fun _ => ⟨fun _ => h.2.not_interrupted, fun _ => h.1⟩

theorem Waiting.settled {x : Daemon × List Event} (h : Waiting x) : Settled E cfg x := by
  refine ⟨.inl h.1, ?_⟩
  rintro pre post p heq -
  have := h.2 ⟨.swapPendingSync false, true⟩ (heq ▸ List.mem_append_right _ (List.mem_cons_self ..))
  exact absurd this Bool.false_ne_true

theorem pendingSync_next_of_beforeSync {o : Op} (h : o.beforeSync = true) (s : Daemon) (a : o.Ans) :
    (next E o s a).pendingSync = s.pendingSync := by
  cases o <;> first
    | exact absurd h Bool.false_ne_true
    | rfl
    | (cases a <;> rfl)

theorem pendingSync_next_of_keepsPending {o : Op} (h : o.keepsPending = true) {s : Daemon} (a : o.Ans)
    (hs : s.pendingSync = true) : (next E o s a).pendingSync = true := by
  by_cases hb : o.beforeSync = true
  · rw [pendingSync_next_of_beforeSync hb, hs]
  · cases o with
    | storePendingSync b => cases b with
      | true => rfl
      | false => exact absurd h Bool.false_ne_true
    | hold l m => exact hs
    | swapPendingSync b => exact absurd h Bool.false_ne_true
    | _ => exact absurd rfl hb

theorem Waiting.next {x : Daemon × List Event} (h : Waiting x) {o : Op} (ho : o.beforeSync = true)
    (a : o.Ans) : Waiting ((machine E).log.next o x a) := by
  refine ⟨(pendingSync_next_of_beforeSync ho x.1 a).trans h.1, fun e he => ?_⟩
  rcases List.mem_append.1 he with he | he
  · exact h.2 e he
  · rw [List.mem_singleton.1 he]; exact ho

theorem Settled.next {x : Daemon × List Event} (h : Settled E cfg x) {o : Op} (ho : o.keepsPending = true)
    (a : o.Ans) : Settled E cfg ((machine E).log.next o x a) :=
  ⟨h.1.imp (pendingSync_next_of_keepsPending ho a) fun hr => hr.append _, h.2.snoc ho⟩

/-- From a state with a deferred sync the program keeps or does it, unless its sync is interrupted. -/
def Defers (E : Crates) (cfg : Config) (p : DProg α) : Prop :=
  ∀ x, Waiting x → wp (machine E).log (KeptUnlessInterrupted E cfg) p (fun _ => Settled E cfg) x

theorem BeforeSync.wp_waiting {p : DProg α} (h : BeforeSync p) {x : Daemon × List Event} (hx : Waiting x) :
    wp (machine E).log (KeptUnlessInterrupted E cfg) p (fun _ => Waiting) x :=
  (h.wp (fun _ _ a ho hx _ => hx.next ho a) hx).mono (fun o _ h => h.settled.kept o) fun _ _ h => h

theorem KeepsPending.wp_settled {p : DProg α} (h : KeepsPending p) {x : Daemon × List Event}
    (hx : Settled E cfg x) : wp (machine E).log (KeptUnlessInterrupted E cfg) p (fun _ => Settled E cfg) x :=
  (h.wp (fun _ _ a ho hx _ => hx.next ho a) hx).mono (fun o _ h => h.kept o) fun _ _ h => h

theorem KeepsPending.defers {p : DProg α} (h : KeepsPending p) : Defers E cfg p :=
  fun _ hx => h.wp_settled hx.settled

theorem BeforeSync.defers {p : DProg α} (h : BeforeSync p) : Defers E cfg p := h.keepsPending.defers

theorem Defers.bind {p : DProg α} {f : α → DProg β} (h : BeforeSync p) (hf : ∀ a, Defers E cfg (f a)) :
    Defers E cfg (p >>= f) :=
  fun _ hx => wp_bind p f _ |>.2 ((h.wp_waiting hx).post fun a x' hx' => hf a x' hx')

theorem Defers.andThen {p : DProg α} {f : α → DProg β} (h : Defers E cfg p)
    (hf : ∀ a, KeepsPending (f a)) : Defers E cfg (p >>= f) :=
  fun x hx => wp_bind p f _ |>.2 ((h x hx).post fun a _ hx' => (hf a).wp_settled hx')

theorem Defers.ite {c : Prop} [Decidable c] {p q : DProg α} (hp : Defers E cfg p) (hq : Defers E cfg q) :
    Defers E cfg (if c then p else q) := by
  split <;> assumption

/-! ### The sync of a pending flag -/

/-- The events of a sync: its guard, and operations that start no other sync. -/
theorem beforeSync_of_reaches {p : DProg (Except String Nat)} {tr : List Event}
    (h : Reaches (doSync E cfg) tr p) : tr = [] ∨ ∃ u tr', tr = ⟨.hold .apiClient .read, u⟩ :: tr' ∧
      ∀ e ∈ tr', e.1.beforeSync = true := by
  obtain ⟨f, hf, hrest⟩ := exists_doSync E cfg
  rw [hf] at h
  cases h with
  | refl => exact .inl rfl
  | vis h => exact .inr ⟨_, _, rfl, (hrest _).mem_reaches h⟩

theorem ne_of_beforeSync {tr : List Event} (h : ∀ e ∈ tr, e.1.beforeSync = true) {o : Op}
    (ho : o.beforeSync = false) : ∀ e ∈ tr, ¬e.1 = o := by
  rintro e he rfl
  exact absurd ((h e he).symm.trans ho) (by decide)

/-- A completed sync is no interrupted one. -/
theorem outsideSync_of_runs {past tr : List Event} {r : Except String Nat}
    (hpast : ∀ e ∈ past, e.1.beforeSync = true) (h : Runs (doSync E cfg) tr r) :
    OutsideSync E cfg (past ++ ⟨.swapPendingSync false, true⟩ :: tr) := by
  intro pre post p heq hp
  have htr : ∀ e ∈ tr, ¬e.1 = Op.swapPendingSync false := by
    rcases beforeSync_of_reaches (reaches_ret.2 h) with rfl | ⟨u, tr, rfl, htr⟩
    · simp
    · intro e he
      rcases List.mem_cons.1 he with rfl | he
      · exact nofun
      · exact ne_of_beforeSync htr rfl e he
  obtain ⟨-, heq⟩ := append_cons_inj (P := fun e : Event => e.1 = .swapPendingSync false) heq rfl
    (ne_of_beforeSync hpast rfl) htr
  obtain ⟨-, rfl⟩ := List.cons.inj heq
  exact ⟨r, hp.det (reaches_ret.2 h)⟩

/-- While the sync runs no sync has returned yet. -/
theorem not_syncReturned_of_reaches {past tr : List Event} {p : DProg (Except String Nat)}
    (hpast : ∀ e ∈ past, ¬e.1 = Op.hold .apiClient .read) (h : Reaches (doSync E cfg) tr p)
    (hp : ∀ r, p ≠ .ret r) : ¬SyncReturned E cfg (past ++ tr) := by
  rintro ⟨pre, run, post, n, heq, hrun⟩
  rw [List.append_assoc] at heq
  have hne : run ≠ [] := by
    rintro rfl
    obtain ⟨f, hf, -⟩ := exists_doSync E cfg
    rw [hf] at hrun
    cases hrun
  obtain ⟨u, run', rfl, -⟩ := (beforeSync_of_reaches (reaches_ret.2 hrun)).resolve_left hne
  rcases beforeSync_of_reaches h with rfl | ⟨v, tr', rfl, htr⟩
  · rw [List.append_nil] at heq
    exact hpast ⟨.hold .apiClient .read, u⟩ (heq ▸ List.mem_append_right _ (List.mem_cons_self ..)) rfl
  · obtain ⟨-, heq⟩ := append_cons_inj (P := fun e : Event => e.1 = .hold .apiClient .read) heq rfl hpast
      (ne_of_beforeSync htr rfl)
    rw [heq] at h
    exact hp _ (hrun.eq_of_reaches h).2

/-- What the steps of a sync leave alone. -/
theorem pendingSync_of_doSync {p : DProg (Except String Nat)} {s s' : Daemon} {tr : List Event}
    (h : Steps (machine E) (doSync E cfg) s tr p s') : s'.pendingSync = s.pendingSync := by
  obtain ⟨f, hf, hrest⟩ := exists_doSync E cfg
  rw [hf] at h
  cases h with
  | refl => rfl
  | step ha h =>
    exact (hrest _).steps (I := fun s' => s'.pendingSync = s.pendingSync)
      (fun _ s₁ a ho hs₁ _ => (pendingSync_next_of_beforeSync ho s₁ a).trans hs₁) rfl h

theorem defers_resolvePendingSync (E : Crates) (cfg : Config) : Defers E cfg (resolvePendingSync E cfg) := by
  rintro ⟨s, past⟩ ⟨hs, hpast⟩
  refine wp_perform_bind.2 ⟨(Waiting.settled ⟨hs, hpast⟩).kept _, fun taken ht => ?_⟩
  obtain rfl : taken = true := ht.trans hs
  refine wp_bind .. |>.2 (wp_of_steps (fun tr o k x' hsteps hawait => ?_) fun tr r x' hsteps => ?_)
  · obtain ⟨hsteps, hx'⟩ := hsteps.of_log
    have hlost : ¬(x'.1.pendingSync = true ∨ SyncReturned E cfg x'.2) := by
      rintro (hpending | hreturned)
      · have hcleared : false = true := (pendingSync_of_doSync hsteps).symm.trans hpending
        exact absurd hcleared Bool.false_ne_true
      · rw [hx'] at hreturned
        refine not_syncReturned_of_reaches ?_ hsteps.reaches (fun r => nofun) hreturned
        intro e he
        rcases List.mem_append.1 he with he | he
        · exact ne_of_beforeSync hpast rfl e he
        · rw [List.mem_singleton.1 he]; exact nofun
    have hin : SyncInterrupted E cfg x'.2 :=
      ⟨past, tr, _, by simp [hx', Machine.log, Machine.track], hsteps.reaches, o, k, rfl, hawait⟩
    exact ⟨fun h => absurd h hlost, fun h => absurd hin h⟩
  · obtain ⟨hsteps, hx'⟩ := hsteps.of_log
    have hruns := reaches_ret.1 hsteps.reaches
    have hout : OutsideSync E cfg x'.2 := by
      have := outsideSync_of_runs hpast hruns
      simpa [hx', Machine.log, Machine.track] using this
    cases r with
    | ok n =>
      exact ⟨.inr ⟨past ++ [⟨.swapPendingSync false, true⟩], tr, [], n, by rw [hx', List.append_nil]; rfl,
        hruns⟩, hout⟩
    | error e => exact ⟨fun hno => absurd hno Bool.false_ne_true, fun _ _ => ⟨.inl rfl, hout.snoc rfl⟩⟩

theorem keepsPending_doSync (E : Crates) (cfg : Config) : KeepsPending (doSync E cfg) := by
  obtain ⟨f, hf, hrest⟩ := exists_doSync E cfg
  rw [hf]
  exact ⟨rfl, fun u => (hrest u).keepsPending⟩

/-- The unlocks keep or do a deferred sync. -/
theorem defers_rules (E : Crates) (cfg : Config) : UnlockRules E cfg fun _ p => Defers E cfg p where
  unlocking h := h.preparing.beforeSync.defers
  bind h hf := .bind h.preparing.beforeSync hf
  andThen h hf := h.andThen fun a => (hf a).keepsCore.keepsPending
  resolve := defers_resolvePendingSync E cfg
  restore pin := .bind (preparing_tryRestoreApiSession E cfg pin).beforeSync fun _ =>
    defers_resolvePendingSync E cfg

theorem defers_finishLogin (E : Crates) (cfg : Config) (client : BitwardenClient)
    (keys : List DecryptedSshKey) (wasLocked : Bool) :
    Defers E cfg (finishLogin E cfg client keys wasLocked) := by
  refine .bind (beforeSync_op rfl) fun _ => .bind (beforeSync_op rfl) fun _ =>
    .bind (reconcilingSteps_reconcileSyncedKeyState E cfg _).inner.beforeSync fun _ =>
      .bind (beforeSync_op rfl) fun _ =>
    .bind (beforeSync_op rfl) fun loaded => .ite ?_ (BeforeSync.defers trivial)
  exact .bind (beforeSync_op rfl) fun _ =>
    .bind (savingSteps_saveDeviceSession E client none).routine.beforeSync fun _ =>
    .bind (hubSteps_connectIfAuthenticated cfg client).connecting.support.beforeSync fun _ =>
    .bind (beforeSync_op rfl) fun _ => (defers_resolvePendingSync E cfg).andThen fun _ => trivial

theorem defers_handleUnlockPassword (E : Crates) (cfg : Config) (password : String) :
    Defers E cfg (handleUnlockPassword E cfg password) := by
  refine .bind (beforeSync_op rfl) fun wasLocked => .ite (BeforeSync.defers trivial) <|
    .bind (beforeSync_op rfl) fun device => .bind (beforeSync_op rfl) fun r => ?_
  cases r with
  | error e => exact BeforeSync.defers trivial
  | ok r =>
    refine .bind (support_syncSshKeys _).beforeSync fun r => ?_
    cases r with
    | error e => exact BeforeSync.defers trivial
    | ok keys => exact defers_finishLogin E cfg _ keys wasLocked

theorem keepsPending_handleSync (E : Crates) (cfg : Config) : KeepsPending (handleSync E cfg) := by
  have hrun : ∀ wasLocked, KeepsPending (runManualSync E cfg wasLocked) := by
    refine fun wasLocked => .bind (keepsPending_doSync E cfg) fun r => ?_
    cases r with
    | error e => trivial
    | ok n => exact .ite (.bind (keepsPending_op rfl) fun _ => trivial) trivial
  refine .bind (keepsPending_op rfl) fun wasLocked => .ite ?_ (hrun wasLocked)
  refine .bind (inner_ensureLocalCacheKeyForManualSync E cfg).beforeSync.keepsPending fun r => ?_
  cases r with
  | some e => trivial
  | none => exact hrun wasLocked

theorem defers_handleControlCommand (E : Crates) (cfg : Config) (action : ControlAction)
    (hf : ∀ shared, action ≠ .forget shared) : Defers E cfg (handleControlCommand E cfg action) := by
  refine .bind (Inner.beforeSync (.when (inner_reload cfg))) fun _ => ?_
  cases action with
  | stop => exact BeforeSync.defers trivial
  | lock => exact apart_handleLock.aside.keepsPending.defers
  | unlock => exact (defers_rules E cfg).handleUnlock
  | unlockNative => exact (defers_rules E cfg).handleUnlockNative
  | unlockHello => exact (defers_rules E cfg).handleUnlockHello
  | status json => exact (apart_buildStatusResponse cfg json).aside.keepsPending.defers
  | unlockPin pin => exact (defers_rules E cfg).handleUnlockPin pin
  | unlockPassword password => exact defers_handleUnlockPassword E cfg password
  | sync => exact (keepsPending_handleSync E cfg).defers
  | forget shared => exact absurd rfl (hf shared)
  | setPin pin => exact (apart_handleSetPin E cfg pin).aside.keepsPending.defers
  | bindHostsDialog => exact prompting_handleBindHostsDialog.routine.keepsCore.keepsPending.defers

theorem keepsPending_syncOrDefer (E : Crates) (cfg : Config) (done : NotificationUpdate) :
    KeepsPending (syncOrDefer E cfg done) := by
  refine .bind (keepsPending_doSync E cfg) fun r => ?_
  cases r with
  | ok n => exact (support_notify done).keepsCore.keepsPending
  | error e => exact keepsPending_op rfl

theorem keepsPending_handleHubEvent (E : Crates) (cfg : Config) (ev : SyncEvent) :
    KeepsPending (handleHubEvent E cfg ev) := by
  cases ev with
  | connectionStatus status => exact (support_notify _).keepsCore.keepsPending
  | cipherChanged =>
    refine .bind (keepsPending_op rfl) fun _ => .ite ?_ (keepsPending_syncOrDefer E cfg _)
    exact .bind (keepsPending_op rfl) fun _ => (support_notify _).keepsCore.keepsPending
  | logOut =>
    exact .bind (support_notify _).keepsCore.keepsPending fun _ =>
      .bind apart_lockVault.aside.keepsPending fun _ => trivial
  | fallbackSyncDue =>
    exact .bind (keepsPending_op rfl) fun _ => .ite (keepsPending_op rfl) (keepsPending_syncOrDefer E cfg _)

theorem defers_mainStep (E : Crates) (cfg : Config) (ev : MainEvent) (hf : (Turn.event ev).isForget = false) :
    Defers E cfg (mainStep E cfg ev) := by
  cases ev with
  | control action =>
    refine (defers_handleControlCommand E cfg action ?_).andThen fun _ => trivial
    rintro shared rfl
    exact Bool.false_ne_true hf.symm
  | runtime event => exact (defers_rules E cfg).handleRuntimeEvent event
  | hub event => exact (keepsPending_handleHubEvent E cfg event).defers
  | tokenRefresh => exact (aside_handleTokenRefresh E cfg).keepsPending.defers
  | autoLockTick idle => exact (apart_handleAutoLockTick cfg idle).aside.keepsPending.defers

/-! ### Turns and runs -/

/-- Every turn but a `forget` keeps a deferred sync or does it, unless it is dropped inside that sync. -/
theorem Step.pendingSync_iff {s s' : Daemon} {t : Turn} {tr : List Event}
    (h : Step (machine E) E cfg s t tr s') (hs : s.pendingSync = true) (hf : t.isForget = false) :
    s'.pendingSync = true ∨ SyncReturned E cfg tr ↔ ¬SyncInterrupted E cfg tr := by
  have hreturn : ∀ {p : DProg Unit} {s₁}, Defers E cfg p → s₁.pendingSync = true →
      Steps (machine E) p s₁ tr (.ret ()) s' →
      (s'.pendingSync = true ∨ SyncReturned E cfg tr ↔ ¬SyncInterrupted E cfg tr) := by
    intro p s₁ hp hs₁ hsteps
    have hsettled := (hp (s₁, []) ⟨hs₁, by simp⟩).of_ret (hsteps.log [])
    exact ⟨fun _ => hsettled.2.not_interrupted, fun _ => hsettled.1⟩
  cases h with
  | event hr hsteps =>
    refine hreturn (defers_mainStep E cfg _ hf) ?_ hsteps
    cases hr <;> exact hs
  | dropped hr hsteps hd =>
    obtain ⟨o, k, rfl, hawait⟩ := hd
    have hsame : ∀ action, (Turn.dropped action).isForget = (Turn.event (.control action)).isForget := by
      intro action; cases action <;> rfl
    have hp := defers_mainStep E cfg (.control _) ((hsame _).symm.trans hf) (s, []) ⟨hs, by simp⟩
    exact hp.at_op (hsteps.log []) hawait
  | arrives ha =>
    cases ha
    refine ⟨fun _ => ?_, fun _ => .inl hs⟩
    rintro ⟨pre, post, p, heq, -⟩
    exact absurd heq.symm (by simp)
  | request hsteps =>
    exact hreturn (unlocking_handleUiRequest E cfg _).preparing.beforeSync.defers hs hsteps

/-- A deferred sync is lost exactly by dropping an action inside the sync it has taken the flag for: in
one turn, and in a run without such a turn. -/
theorem pendingSync_kept_iff (E : Crates) (cfg : Config) :
    (∀ s t tr s', Step (machine E) E cfg s t tr s' → s.pendingSync = true → t.isForget = false →
      (s'.pendingSync = true ∨ SyncReturned E cfg tr ↔ ¬SyncInterrupted E cfg tr)) ∧
    ∀ s tr s', Run (machine E) E cfg (fun _ t tr => t.isForget = false ∧ ¬SyncInterrupted E cfg tr) s tr s' →
      s.pendingSync = true → s'.pendingSync = true ∨ SyncReturned E cfg tr := by
  refine ⟨fun s t tr s' h hs hf => h.pendingSync_iff hs hf, fun s tr s' hrun hs => ?_⟩
  induction hrun with
  | nil => exact .inl hs
  | turn _ hstep hok ih =>
    rcases ih with hpending | hreturned
    · exact ((hstep.pendingSync_iff hpending hok.1).2 hok.2).imp_right fun hr => hr.prepend _
    · exact .inr (hreturned.append _)

/-- A native unlock whose sync fails, because the session has no client. -/
theorem pendingSync_kept_iff_failedSync : ∃ tr s',
    Step (machine .plain) .plain plainConfig
      { pendingSync := true, runtimeEvents := [.autoUnlockedNative] } (.event (.runtime .autoUnlockedNative))
      tr s' ∧
    (s'.pendingSync = true ∨ SyncReturned .plain plainConfig tr ↔ ¬SyncInterrupted .plain plainConfig tr) := by
  have hplay : (Scene.take (.runtime .autoUnlockedNative) plainScript).play .plain plainConfig
    { pendingSync := true, runtimeEvents := [.autoUnlockedNative] } = some { pendingSync := true } := rfl
  exact ⟨_, _, Scene.step hplay, (pendingSync_kept_iff .plain plainConfig).1 _ _ _ _ (Scene.step hplay) rfl rfl⟩

/-- The end of a successful sync. -/
def Op.recordsSync : Op → Bool
  | notification _ .recordSuccessfulSync => true
  | _ => false

theorem SyncReturned.recorded {tr : List Event} (h : SyncReturned E cfg tr) :
    tr.any (fun e => e.1.recordsSync) = true := by
  obtain ⟨pre, run, post, n, rfl, hrun⟩ := h
  have hperforms : Performs (S := daemonSig) (fun e : Event => e.1.recordsSync = true)
      (fun r : Except String Nat => r = .ok n) (doSync E cfg) := by
    have hdone : ∀ r : Except String Nat, Performs (S := daemonSig) (fun e : Event => e.1.recordsSync = true)
        (fun r' => r' = .ok n) (do notify .recordSuccessfulSync; return r) := fun r _ => .inr fun _ => .inl rfl
    refine .bind fun _ => .bind fun client => ?_
    cases client with
    | none => exact .bind fun _ => nofun
    | some client =>
      refine .ite (.bind fun _ => nofun) (.bind fun r => ?_)
      cases r with
      | error e => exact .bind fun _ => nofun
      | ok keys =>
        refine .bind fun _ => .bind fun _ => .bind fun _ => .bind fun _ => .bind fun _ => .bind fun locked => ?_
        exact .ite (.bind fun loaded => .ite (hdone _) nofun) (hdone _)
  obtain ⟨e, he, hrec⟩ := hperforms.exists_mem hrun rfl
  exact List.any_eq_true.2 ⟨e, by simp [he], hrec⟩

/-- A vault change that arrives while the vault is locked. -/
def changeWhileLocked : List Scene :=
  [.take (.control .lock) plainScript, .deliver .cipherChanged, .take (.hub .cipherChanged) plainScript]

/-- The unlock with a PIN, dropped while the vault is being fetched. -/
def droppedUnlock : Scene := .drop (.unlockPin "1234") plainScript 13

/-- The flag was raised, and the scene leaves it lowered without a successful sync. -/
def losesSync (scene : Scene) (x : Config × Daemon) : Bool :=
  x.2.pendingSync && (scene.play .plain x.1 x.2).any (fun s => !s.pendingSync) &&
    !(scene.trace .plain x.1 x.2).any fun e => e.1.recordsSync

theorem deferredSync_dropped : ¬∀ cfg s action tr s', Reachable .plain plainConfig cfg s →
    s.pendingSync = true → (∀ shared, action ≠ .forget shared) →
    Step (machine .plain) .plain cfg s (.dropped action) tr s' →
    s'.pendingSync = true ∨ SyncReturned .plain cfg tr := by
  intro h
  obtain ⟨cfg, s, hr, hs⟩ := exists_of_afterLogin
    (show (afterLogin plainConfig changeWhileLocked).any (losesSync droppedUnlock) = true by decide +kernel)
  simp only [losesSync, Bool.and_eq_true, Bool.not_eq_true'] at hs
  obtain ⟨⟨hp, hplay⟩, hno⟩ := hs
  obtain ⟨s', hs', hcleared⟩ := (Option.any_eq_true _ _).1 hplay
  rcases h cfg s (.unlockPin "1234") _ s' hr hp nofun (Scene.step hs') with hpending | hreturned
  · simp [hpending] at hcleared
  · exact absurd hreturned.recorded (by simp [hno])

end SshWarden
