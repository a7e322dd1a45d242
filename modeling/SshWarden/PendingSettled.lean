import SshWarden.Freshness
import SshWarden.PendingSync

/-!
# Settling the pending flag

Only `resolve_pending_sync` lowers the flag of a pending sync. A sync that runs past it, because the user
asked for it or the hub did, leaves the flag as it is. `pendingSync_settled_iff` says when a main-loop
step with a successful sync settles the flag: it goes through `resolve_pending_sync`, and no fetch of the
step fails. The events that matter are summed up next to the state.
-/

namespace SshWarden
open Prog

variable {E : Crates} {cfg : Config} {α β : Type}

/-- Keys have been loaded into the agent. -/
def KeysLoaded (tr : List Event) : Prop := ∃ ks, ⟨.agentSetKeys ks, true⟩ ∈ tr

/-- The server has failed to answer a fetch. -/
def FetchFailed (tr : List Event) : Prop := ∃ client e, ⟨.fetchSync client, .error e⟩ ∈ tr

/-- A full sync has succeeded: a login that loads the keys is one, every other one is a `do_sync`. -/
def FullSync (E : Crates) (cfg : Config) : MainEvent → List Event → Prop
  | .control (.unlockPassword _), tr => KeysLoaded tr
  | _, tr => SyncReturned E cfg tr

/-- The events whose syncs are left to `resolve_pending_sync`. -/
def MainEvent.resolvesPending : MainEvent → Bool
  | .control .unlock | .control .unlockNative | .control .unlockHello | .control (.unlockPin _)
  | .control (.unlockPassword _) | .runtime _ => true
  | _ => false

structure SyncNews where
  fetched : Bool := false
  loaded : Bool := false
  failed : Bool := false
deriving DecidableEq, Repr

def SyncNews.after (n : SyncNews) : Event → SyncNews
  | ⟨.fetchSync _, .ok _⟩ => { n with fetched := true }
  | ⟨.fetchSync _, .error _⟩ => { n with failed := true }
  | ⟨.agentSetKeys _, true⟩ => { n with loaded := true }
  | _ => n

def newsOf (tr : List Event) : SyncNews := tr.foldl SyncNews.after {}

/-- A flag that exactly the events in `A` raise is up when one of them has been seen. -/
theorem foldl_after_iff (flag : SyncNews → Bool) (A : Event → Prop)
    (h : ∀ n e, flag (n.after e) = true ↔ flag n = true ∨ A e) (n : SyncNews) (tr : List Event) :
    flag (tr.foldl SyncNews.after n) = true ↔ flag n = true ∨ ∃ e ∈ tr, A e := by
  induction tr generalizing n with
  | nil => simp
  | cons e tr ih => simp [ih, h, or_assoc]

theorem newsOf_fetched {tr : List Event} {client : BitwardenClient} {keys : List DecryptedSshKey}
    (h : ⟨.fetchSync client, .ok keys⟩ ∈ tr) : (newsOf tr).fetched = true := by
  refine (foldl_after_iff SyncNews.fetched (fun e => ∃ client keys, e = ⟨.fetchSync client, .ok keys⟩) ?_ {} tr).2
    (.inr ⟨_, h, client, keys, rfl⟩)
  rintro n ⟨o, a⟩
  cases o with
  | fetchSync c => cases a <;> simp [SyncNews.after]
  | agentSetKeys ks => cases a <;> simp [SyncNews.after]
  | _ => simp [SyncNews.after]

theorem newsOf_loaded {tr : List Event} (h : KeysLoaded tr) : (newsOf tr).loaded = true := by
  obtain ⟨ks, hks⟩ := h
  refine (foldl_after_iff SyncNews.loaded (fun e => ∃ ks, e = ⟨.agentSetKeys ks, true⟩) ?_ {} tr).2
    (.inr ⟨_, hks, ks, rfl⟩)
  rintro n ⟨o, a⟩
  cases o with
  | fetchSync c => cases a <;> simp [SyncNews.after]
  | agentSetKeys ks => cases a <;> simp [SyncNews.after]
  | _ => simp [SyncNews.after]

theorem newsOf_failed (tr : List Event) : (newsOf tr).failed = true ↔ FetchFailed tr := by
  have hiff := foldl_after_iff SyncNews.failed (fun e => ∃ client error, e = ⟨.fetchSync client, .error error⟩)
    ?_ {} tr
  · rw [newsOf, hiff]
    constructor
    · rintro (h | ⟨e, he, client, error, rfl⟩)
      · exact absurd h Bool.false_ne_true
      · exact ⟨client, error, he⟩
    · rintro ⟨client, error, he⟩
      exact .inr ⟨_, he, client, error, rfl⟩
  · rintro n ⟨o, a⟩
    cases o with
    | fetchSync c => cases a <;> simp [SyncNews.after]
    | agentSetKeys ks => cases a <;> simp [SyncNews.after]
    | _ => simp [SyncNews.after]

abbrev newsMachine (E : Crates) : Machine daemonSig (Daemon × SyncNews) := (machine E).track SyncNews.after

/-- From `x` to `x'` the flag has not moved and no fetch was answered; the agent still runs. -/
structure SameNews (x x' : Daemon × SyncNews) : Prop where
  isRunning : x'.1.agent.isRunning = true
  pendingSync : x'.1.pendingSync = x.1.pendingSync
  fetched : x'.2.fetched = x.2.fetched
  failed : x'.2.failed = x.2.failed

/-- Operations that leave the flag and fetch nothing. -/
def Op.bringsNothing (o : Op) : Bool := o.beforeSync && o.fetchesNothing

abbrev BringsNothing {α : Type} (p : DProg α) : Prop :=
  Prog.Only (S := daemonSig) (fun o : Op => o.bringsNothing = true) p

theorem Op.bringsNothing_of_isPreparing {o : Op} (h : o.isPreparing = true) : o.bringsNothing = true := by
  rw [bringsNothing, Op.beforeSync_of_isPreparing h, Bool.true_and]
  cases o <;> first | rfl | exact absurd h Bool.false_ne_true

theorem Op.bringsNothing_of_isClosing {o : Op} (h : o.isClosing = true) : o.bringsNothing = true := by
  cases o <;> first | rfl | exact absurd h Bool.false_ne_true

theorem Preparing.bringsNothing {p : DProg α} (h : Preparing p) : BringsNothing p :=
  h.mono fun _ => Op.bringsNothing_of_isPreparing

theorem Closing.bringsNothing {p : DProg α} (h : Closing p) : BringsNothing p :=
  h.mono fun _ => Op.bringsNothing_of_isClosing

theorem Inner.bringsNothing {p : DProg α} (h : Inner p) : BringsNothing p := h.preparing.bringsNothing

theorem bringsNothing_op {o : Op} (h : o.bringsNothing = true) : BringsNothing (op o) := ⟨h, fun _ => trivial⟩

variable {x x' x'' : Daemon × SyncNews}

theorem SameNews.refl (h : x.1.agent.isRunning = true) : SameNews x x := ⟨h, rfl, rfl, rfl⟩

theorem SameNews.next (h : SameNews x x') {o : Op} (ho : o.bringsNothing = true) (a : o.Ans) :
    SameNews x ((newsMachine E).next o x' a) := by
  obtain ⟨hbefore, hnothing⟩ := (Bool.and_eq_true _ _).mp ho
  have hpending := pendingSync_next_of_beforeSync (E := E) hbefore x'.1 a
  have hnews : (x'.2.after ⟨o, a⟩).fetched = x'.2.fetched ∧ (x'.2.after ⟨o, a⟩).failed = x'.2.failed := by
    cases o with
    | agentSetKeys ks => cases a <;> exact ⟨rfl, rfl⟩
    | fetchSync client => exact absurd hnothing Bool.false_ne_true
    | _ => exact ⟨rfl, rfl⟩
  exact ⟨isRunning_next E o a h.isRunning, hpending.trans h.pendingSync, hnews.1.trans h.fetched,
    hnews.2.trans h.failed⟩

/-- A program that brings nothing comes first. -/
theorem SameNews.wp_bind {p : DProg α} {f : α → DProg β} {Q : β → Daemon × SyncNews → Prop}
    (h : SameNews x x') (hp : BringsNothing p)
    (hf : ∀ a x'', SameNews x x'' → wp (newsMachine E) (fun _ _ => True) (f a) Q x'') :
    wp (newsMachine E) (fun _ _ => True) (p >>= f) Q x' :=
  Prog.wp_bind p f _ |>.2 <| (hp.wp (fun _ _ a ho hx _ => hx.next ho a) h).mono (fun _ _ _ => trivial) hf

theorem BringsNothing.wp_same {p : DProg α} (h : BringsNothing p) (hx : x.1.agent.isRunning = true) :
    wp (newsMachine E) (fun _ _ => True) p (fun _ => SameNews x) x :=
  (h.wp (fun _ _ a ho hx' _ => hx'.next ho a) (SameNews.refl hx)).mono (fun _ _ _ => trivial) fun _ _ h => h

/-- What follows the fetch of a sync, with the agent running. -/
theorem wp_afterFetch (keys : List DecryptedSshKey) (hx : x.1.agent.isRunning = true) :
    wp (newsMachine E) (fun _ _ => True) (do
      let _ ← op (.writeKeySelectorFiles keys)
      let _ ← op (.syncManagedSshConfig keys)
      reconcileSyncedKeyState E cfg (keys.map DecryptedSshKey.tuple)
      op (.writeKeyNames (keyNamesOf (keys.map DecryptedSshKey.tuple)))
      op (.release .apiClient)
      if !(← op .loadVaultLocked) then
        if ← op (.agentSetKeys (keys.map DecryptedSshKey.tuple)) then
          notify .recordSuccessfulSync
          return (.ok (keys.map DecryptedSshKey.tuple).length : Except String Nat)
        else return .error s!"Sync succeeded but failed to reload keys: {setKeysError}"
      else
        notify .recordSuccessfulSync
        return .ok (keys.map DecryptedSshKey.tuple).length)
      (fun r x' => SameNews x x' ∧ r = .ok (keys.map DecryptedSshKey.tuple).length) x := by
  have hdone : ∀ {x'}, SameNews x x' → wp (newsMachine E) (fun _ _ => True)
      (do notify .recordSuccessfulSync; return (.ok (keys.map DecryptedSshKey.tuple).length : Except String Nat))
      (fun r x' => SameNews x x' ∧ r = .ok (keys.map DecryptedSshKey.tuple).length) x' := fun h =>
    h.wp_bind (inner_notify _).bringsNothing fun _ _ h' => ⟨h', rfl⟩
  refine (SameNews.refl hx).wp_bind (bringsNothing_op rfl) fun _ _ h => ?_
  refine h.wp_bind (bringsNothing_op rfl) fun _ _ h => ?_
  refine h.wp_bind (reconcilingSteps_reconcileSyncedKeyState E cfg _).inner.bringsNothing fun _ _ h => ?_
  refine h.wp_bind (bringsNothing_op rfl) fun _ _ h => h.wp_bind (bringsNothing_op rfl) fun _ _ h => ?_
  refine h.wp_bind (bringsNothing_op rfl) fun locked _ h => (wp_ite ..).2 ⟨fun _ => ?_, fun _ => hdone h⟩
  refine wp_perform_bind.2 ⟨trivial, fun loaded hloaded => ?_⟩
  obtain rfl : loaded = true := hloaded.trans h.isRunning
  exact hdone (h.next (o := .agentSetKeys (keys.map DecryptedSshKey.tuple)) rfl true)

/-- The session has a client that can fetch the vault. -/
def CanFetch (s : Daemon) : Prop :=
  s.apiClient.any (fun client => client.accessToken.isSome && client.userKey.isSome) = true

/-- What a sync from `x` brings: an `Ok` comes without a failed fetch, an error without an answered one. -/
structure Brought (x : Daemon × SyncNews) (r : Except String Nat) (x' : Daemon × SyncNews) : Prop where
  isRunning : x'.1.agent.isRunning = true
  pendingSync : x'.1.pendingSync = x.1.pendingSync
  ok : ∀ n, r = .ok n → x'.2.failed = x.2.failed
  error : ∀ e, r = .error e → x'.2.fetched = x.2.fetched ∧ (CanFetch x.1 → x'.2.failed = true)

theorem wp_doSync_brought (hx : x.1.agent.isRunning = true) :
    wp (newsMachine E) (fun _ _ => True) (doSync E cfg) (Brought x) x := by
  have hfail : ∀ (e : String) {x'}, SameNews x x' → ¬CanFetch x.1 → wp (newsMachine E) (fun _ _ => True)
      (do op (.release .apiClient); return (.error e : Except String Nat)) (Brought x) x' := by
    refine fun e x' h hno => wp_perform_bind.2 ⟨trivial, fun _ _ => ?_⟩
    have h' := h.next (E := E) (o := .release .apiClient) rfl ()
    exact ⟨h'.isRunning, h'.pendingSync, nofun, fun _ _ => ⟨h'.fetched, fun hc => absurd hc hno⟩⟩
  refine wp_perform_bind.2 ⟨trivial, fun u _ => wp_perform_bind.2 ⟨trivial, fun client hclient => ?_⟩⟩
  obtain rfl : client = x.1.apiClient := hclient
  have hpeek : SameNews x ((newsMachine E).next .peekApiClient
      ((newsMachine E).next (.hold .apiClient .read) x u) x.1.apiClient) := ⟨hx, rfl, rfl, rfl⟩
  cases hc : x.1.apiClient with
  | none =>
    rw [hc] at hpeek
    exact hfail _ hpeek (by simp [CanFetch, hc])
  | some client =>
    rw [hc] at hpeek
    refine (wp_ite ..).2 ⟨fun hkey => hfail _ hpeek ?_, fun _ => wp_bind .. |>.2 ?_⟩
    · simp_all [CanFetch, BitwardenClient.hasUserKey]
    refine (wp_ite ..).2 ⟨fun htoken => hfail _ hpeek (by simp_all [CanFetch]), fun _ => ?_⟩
    refine (wp_ite ..).2 ⟨fun hkey => hfail _ hpeek (by simp_all [CanFetch]), fun _ => ?_⟩
    refine ⟨trivial, fun r _ => (wp_ret _).2 ?_⟩
    cases r with
    | error e => exact wp_perform_bind.2 ⟨trivial, fun _ _ => ⟨hx, rfl, nofun, fun _ _ => ⟨rfl, fun _ => rfl⟩⟩⟩
    | ok keys =>
      refine (wp_afterFetch (x := (x.1, { x.2 with fetched := true })) keys hx).post fun r x' h => ?_
      exact ⟨h.1.isRunning, h.1.pendingSync, fun _ _ => h.1.failed, fun e he => nomatch h.2.symm.trans he⟩

/-- Where a fetch was answered, the flag is settled and no fetch has failed. -/
structure Caught (x : Daemon × SyncNews) : Prop where
  isRunning : x.1.agent.isRunning = true
  settled : x.2.fetched = true → x.1.pendingSync = false ∧ x.2.failed = false

/-- Nothing has been fetched. -/
structure Unfetched (x : Daemon × SyncNews) : Prop where
  isRunning : x.1.agent.isRunning = true
  fetched : x.2.fetched = false
  failed : x.2.failed = false

/-- From before every fetch the program comes to a state in which the sync is caught. -/
def Catches (E : Crates) (p : DProg α) : Prop :=
  ∀ x, Unfetched x → wp (newsMachine E) (fun _ _ => True) p (fun _ => Caught) x

theorem Unfetched.same (h : Unfetched x) (h' : SameNews x x') : Unfetched x' :=
  ⟨h'.isRunning, h'.fetched.trans h.fetched, h'.failed.trans h.failed⟩

theorem Unfetched.caught (h : Unfetched x) : Caught x :=
  ⟨h.isRunning, fun hf => absurd (hf.symm.trans h.fetched) (by decide)⟩

theorem Caught.same (h : Caught x) (h' : SameNews x x') : Caught x' :=
  ⟨h'.isRunning, fun hf => (h.settled (h'.fetched.symm.trans hf)).imp h'.pendingSync.trans h'.failed.trans⟩

theorem BringsNothing.catches {p : DProg α} (h : BringsNothing p) : Catches E p :=
  fun _ hx => (h.wp_same hx.isRunning).post fun _ _ h' => (hx.same h').caught

theorem catches_resolvePendingSync (E : Crates) (cfg : Config) : Catches E (resolvePendingSync E cfg) := by
  intro x hx
  refine wp_perform_bind.2 ⟨trivial, fun pending hp => ?_⟩
  refine (wp_ite ..).2 ⟨fun _ => ⟨hx.isRunning, fun hf => ?_⟩, fun _ => wp_bind .. |>.2 ?_⟩
  · exact absurd (hf.symm.trans hx.fetched) (by decide)
  · refine (wp_doSync_brought (x := ({ x.1 with pendingSync := false }, x.2)) hx.isRunning).post
      fun r x' h => ?_
    cases r with
    | ok n => exact ⟨h.isRunning, fun _ => ⟨h.pendingSync, (h.ok n rfl).trans hx.failed⟩⟩
    | error e =>
      refine ⟨trivial, fun _ _ => ⟨h.isRunning, fun hf => ?_⟩⟩
      exact absurd (hf.symm.trans ((h.error e rfl).1.trans hx.fetched)) (by decide)

theorem catches_rules (E : Crates) (cfg : Config) : UnlockRules E cfg fun _ p => Catches E p where
  unlocking h := h.preparing.bringsNothing.catches
  bind h hf _ hx := wp_bind .. |>.2 ((h.preparing.bringsNothing.wp_same hx.isRunning).post
    fun a x' h' => hf a x' (hx.same h'))
  andThen h hf x hx := wp_bind .. |>.2 ((h x hx).post fun a _ h' =>
    ((hf a).bringsNothing.wp_same h'.isRunning).post fun _ _ hs => h'.same hs)
  resolve := catches_resolvePendingSync E cfg
  restore pin _ hx := wp_bind .. |>.2 (((preparing_tryRestoreApiSession E cfg pin).bringsNothing.wp_same
    hx.isRunning).post fun _ x' h' => catches_resolvePendingSync E cfg x' (hx.same h'))

/-- A login with the flag raised that has loaded no keys. -/
structure LoggingIn (x : Daemon × SyncNews) : Prop where
  isRunning : x.1.agent.isRunning = true
  pendingSync : x.1.pendingSync = true
  loaded : x.2.loaded = false
  failed : x.2.failed = false

/-- The keys of the login are loaded, and the flag is settled unless a fetch has failed. -/
def LoginSettled (x : Daemon × SyncNews) : Prop :=
  x.2.loaded = true → (x.1.pendingSync = false ↔ x.2.failed = false)

theorem LoggingIn.next (h : LoggingIn x) {o : Op} (ho : o.isInner = true) (a : o.Ans) :
    LoggingIn ((newsMachine E).next o x a) := by
  have hnews : x.2.after ⟨o, a⟩ = x.2 := by
    cases o <;> first | rfl | exact absurd ho Bool.false_ne_true
  have hpending := pendingSync_next_of_beforeSync (E := E)
    (Op.beforeSync_of_isPreparing (Op.isPreparing_of_isInner ho)) x.1 a
  exact ⟨isRunning_next E o a h.isRunning, hpending.trans h.pendingSync,
    (congrArg SyncNews.loaded hnews).trans h.loaded, (congrArg SyncNews.failed hnews).trans h.failed⟩

theorem LoggingIn.wp_bind {p : DProg α} {f : α → DProg β} {Q : β → Daemon × SyncNews → Prop}
    (h : LoggingIn x) (hp : Inner p)
    (hf : ∀ a x', LoggingIn x' → wp (newsMachine E) (fun _ _ => True) (f a) Q x') :
    wp (newsMachine E) (fun _ _ => True) (p >>= f) Q x :=
  Prog.wp_bind p f _ |>.2 <| (hp.wp (fun _ _ a ho hx _ => hx.next ho a) h).mono (fun _ _ _ => trivial) hf

theorem LoginSettled.of_not_loaded (h : x.2.loaded = false) : LoginSettled x :=
  fun hl => absurd (hl.symm.trans h) (by decide)

/-- The sync at the end of a login settles the flag exactly when its fetch is answered. -/
theorem wp_resolve_afterLogin (hrun : x.1.agent.isRunning = true) (hp : x.1.pendingSync = true)
    (hf : x.2.failed = false) (hc : CanFetch x.1) :
    wp (newsMachine E) (fun _ _ => True) (resolvePendingSync E cfg) (fun _ => LoginSettled) x := by
  refine wp_perform_bind.2 ⟨trivial, fun pending hpending => ?_⟩
  obtain rfl : pending = true := hpending.trans hp
  refine wp_bind .. |>.2 ?_
  refine (wp_doSync_brought (x := ({ x.1 with pendingSync := false }, x.2)) hrun).post fun r x' h => ?_
  cases r with
  | ok n => exact fun _ => ⟨fun _ => (h.ok n rfl).trans hf, fun _ => h.pendingSync⟩
  | error e =>
    refine ⟨trivial, fun _ _ _ => ⟨fun hno => (nomatch (show true = false from hno)), fun hno => ?_⟩⟩
    exact absurd (hno.symm.trans ((h.error e rfl).2 hc)) (by decide)

theorem wp_finishLogin_settled (h : LoggingIn x) {client : BitwardenClient} (hc : client.accessToken.isSome)
    (hk : client.userKey.isSome) (keys : List DecryptedSshKey) (wasLocked : Bool) :
    wp (newsMachine E) (fun _ _ => True) (finishLogin E cfg client keys wasLocked) (fun _ => LoginSettled) x := by
  refine h.wp_bind (inner_op rfl) fun _ x₁ h₁ => h₁.wp_bind (inner_op rfl) fun _ x₂ h₂ => ?_
  refine h₂.wp_bind (reconcilingSteps_reconcileSyncedKeyState E cfg _).inner fun _ x₃ h₃ => ?_
  refine h₃.wp_bind (inner_op rfl) fun _ x₄ h₄ => wp_perform_bind.2 ⟨trivial, fun loaded hl => ?_⟩
  obtain rfl : loaded = true := hl.trans h₄.isRunning
  have hsame := (SameNews.refl h₄.isRunning).next (E := E)
    (o := .agentSetKeys (keys.map DecryptedSshKey.tuple)) rfl true
  refine hsame.wp_bind (bringsNothing_op rfl) fun _ x₅ h₅ => ?_
  refine h₅.wp_bind (savingSteps_saveDeviceSession E client none).routine.inner.bringsNothing fun _ x₆ h₆ => ?_
  refine h₆.wp_bind
    (hubSteps_connectIfAuthenticated cfg client).connecting.preparing.bringsNothing fun _ x₇ h₇ => ?_
  have h₈ := h₇.next (E := E) (o := .writeApiClient (some client)) rfl ()
  refine wp_perform_bind.2 ⟨trivial, fun _ _ => wp_bind .. |>.2 ?_⟩
  refine wp_resolve_afterLogin h₈.isRunning (h₈.pendingSync.trans h₄.pendingSync) (h₈.failed.trans h₄.failed) ?_
  simp [CanFetch, newsMachine, Machine.track, machine, SshWarden.next, hc, hk]

theorem wp_handleUnlockPassword_settled (h : LoggingIn x) (password : String) :
    wp (newsMachine E) (fun _ _ => True) (handleUnlockPassword E cfg password) (fun _ => LoginSettled) x := by
  have hret : ∀ {x'} (resp : ControlResponse), LoggingIn x' →
      wp (newsMachine E) (fun _ _ => True) (pure resp) (fun _ => LoginSettled) x' :=
    fun _ h' => LoginSettled.of_not_loaded h'.loaded
  refine h.wp_bind (inner_op rfl) fun wasLocked x₁ h₁ => (wp_ite ..).2 ⟨fun _ => hret _ h₁, fun _ => ?_⟩
  refine h₁.wp_bind (inner_op rfl) fun device x₂ h₂ => h₂.wp_bind (inner_op rfl) fun r x₃ h₃ => ?_
  cases r with
  | error e => exact hret _ h₃
  | ok r =>
    -- a client that has just logged in can fetch the vault
    refine wp_bind .. |>.2 ((wp_ite ..).2 ⟨fun hno => (nomatch (show false = true from hno)), fun _ => ?_⟩)
    refine (wp_ite ..).2 ⟨fun hno => (nomatch (show false = true from hno)), fun _ => ?_⟩
    refine ⟨trivial, fun answer _ => (wp_ret _).2 ?_⟩
    cases answer with
    | error e => exact LoginSettled.of_not_loaded h₃.loaded
    | ok keys =>
      have h₄ : LoggingIn (x₃.1, { x₃.2 with fetched := true }) :=
        ⟨h₃.isRunning, h₃.pendingSync, h₃.loaded, h₃.failed⟩
      exact wp_finishLogin_settled h₄ rfl rfl keys wasLocked

/-! ### The steps of the main loop -/

theorem SyncReturned.exists_fetch {tr : List Event} (h : SyncReturned E cfg tr) :
    ∃ client keys, ⟨.fetchSync client, .ok keys⟩ ∈ tr := by
  obtain ⟨pre, run, post, n, rfl, hrun⟩ := h
  have hperforms : Performs (S := daemonSig) (fun e : Event => ∃ client keys, e = ⟨.fetchSync client, .ok keys⟩)
      (fun r : Except String Nat => r = .ok n) (doSync E cfg) := by
    refine .bind fun _ => .bind fun client => ?_
    cases client with
    | none => exact .bind fun _ => nofun
    | some client =>
      refine .ite (.bind fun _ => nofun) (.bind_of (R := fun r => ∃ keys, r = .ok keys) ?_ fun r hr => ?_)
      · refine .ite (fun ⟨_, h⟩ => nomatch h) (.ite (fun ⟨_, h⟩ => nomatch h) fun r => ?_)
        cases r with
        | ok keys => exact .inl ⟨client, keys, rfl⟩
        | error e => exact .inr fun ⟨_, h⟩ => nomatch h
      · cases r with
        | ok keys => exact absurd ⟨keys, rfl⟩ hr
        | error e => exact .bind fun _ => nofun
  obtain ⟨e, he, client, keys, rfl⟩ := hperforms.exists_mem hrun rfl
  exact ⟨client, keys, List.mem_append_left _ (List.mem_append_right _ he)⟩

/-- What a step from a raised flag has to do with `resolve_pending_sync`. -/
def StepSettled (E : Crates) (cfg : Config) (ev : MainEvent) (s' : Daemon) (tr : List Event) : Prop :=
  FullSync E cfg ev tr → (s'.pendingSync = false ↔ ev.resolvesPending = true ∧ ¬FetchFailed tr)

section Steps
variable {s s' : Daemon} {tr : List Event} {ev : MainEvent}

/-- A step without a fetch is no sync. -/
theorem FetchesNothing.stepSettled {p : DProg α} {a : α} (h : FetchesNothing p)
    (hev : FullSync E cfg ev tr → SyncReturned E cfg tr) (hs : Steps (machine E) p s tr (.ret a) s') :
    StepSettled E cfg ev s' tr := by
  intro hsync
  obtain ⟨client, keys, hmem⟩ := (hev hsync).exists_fetch
  have hnothing := h.mem_runs (reaches_ret.1 hs.reaches) _ hmem
  exact absurd hnothing Bool.false_ne_true

/-- A step that never lowers the flag settles nothing. -/
theorem KeepsPending.stepSettled {p : DProg α} {a : α} (h : KeepsPending p) (hev : ev.resolvesPending = false)
    (hp : s.pendingSync = true) (hs : Steps (machine E) p s tr (.ret a) s') : StepSettled E cfg ev s' tr := by
  intro _
  have hkept : s'.pendingSync = true := h.steps (I := fun s => s.pendingSync = true)
    (fun _ _ a ho hx _ => pendingSync_next_of_keepsPending ho a hx) hp hs
  simp [hkept, hev]

/-- A step that catches its sync settles the flag. -/
theorem Catches.stepSettled {p : DProg α} {a : α} (h : Catches E p) (hev : ev.resolvesPending = true)
    (hfull : FullSync E cfg ev tr → SyncReturned E cfg tr) (hrun : s.agent.isRunning = true)
    (hs : Steps (machine E) p s tr (.ret a) s') : StepSettled E cfg ev s' tr := by
  intro hsync
  obtain ⟨client, keys, hmem⟩ := (hfull hsync).exists_fetch
  have hcaught := (h (s, {}) ⟨hrun, rfl, rfl⟩).of_ret (hs.track SyncNews.after {})
  obtain ⟨hsettled, hfailed⟩ := hcaught.settled (newsOf_fetched hmem)
  have hno : ¬FetchFailed tr := fun h => absurd (((newsOf_failed tr).2 h).symm.trans hfailed) (by decide)
  exact ⟨fun _ => ⟨hev, hno⟩, fun _ => hsettled⟩

theorem stepSettled_login (password : String) (hrun : s.agent.isRunning = true) (hp : s.pendingSync = true)
    (hs : Steps (machine E) (mainStep E cfg (.control (.unlockPassword password))) s tr (.ret ()) s') :
    StepSettled E cfg (.control (.unlockPassword password)) s' tr := by
  intro hloaded
  have hx : LoggingIn (s, ({} : SyncNews)) := ⟨hrun, hp, rfl, rfl⟩
  have hstep : wp (newsMachine E) (fun _ _ => True) (mainStep E cfg (.control (.unlockPassword password)))
      (fun _ => LoginSettled) (s, {}) :=
    wp_bind .. |>.2 ((wp_handleUnlockPassword_settled hx password).post fun _ _ h => h)
  have hiff := hstep.of_ret (hs.track SyncNews.after {}) (newsOf_loaded hloaded)
  refine hiff.trans ⟨fun hf => ⟨rfl, fun h => ?_⟩, fun h => ?_⟩
  · exact absurd (((newsOf_failed tr).2 h).symm.trans hf) (by decide)
  · exact Bool.not_eq_true _ ▸ fun hf => h.2 ((newsOf_failed tr).1 hf)

/-- The steps of the main loop. -/
theorem stepSettled_mainStep (hrun : s.agent.isRunning = true) (hp : s.pendingSync = true)
    (hs : Steps (machine E) (mainStep E cfg ev) s tr (.ret ()) s') : StepSettled E cfg ev s' tr := by
  have hrules := catches_rules E cfg
  have hreload : ∀ action : ControlAction,
      Inner (Prog.when action.reloads (reloadSharedLocalCacheFromDiskIfMultiDevice cfg)) :=
    fun _ => .when (inner_reload cfg)
  have hcatches : ∀ action, Catches E (handleAction E cfg action) → Catches E (mainStep E cfg (.control action)) :=
    fun _ h => hrules.andThen (hrules.bind (hreload _).unlocking fun _ => h) fun _ => trivial
  have hnothing : ∀ action, FetchesNothing (handleAction E cfg action) →
      FetchesNothing (mainStep E cfg (.control action)) :=
    fun _ h => .bind (.bind (hreload _).fetchesNothing fun _ => h) fun _ => trivial
  cases ev with
  | control action =>
    cases action with
    | lock => exact (hnothing .lock apart_handleLock.aside.fetchesNothing).stepSettled id hs
    | unlock => exact (hcatches .unlock hrules.handleUnlock).stepSettled rfl id hrun hs
    | unlockPin pin => exact (hcatches (.unlockPin pin) (hrules.handleUnlockPin pin)).stepSettled rfl id hrun hs
    | unlockHello => exact (hcatches .unlockHello hrules.handleUnlockHello).stepSettled rfl id hrun hs
    | unlockNative => exact (hcatches .unlockNative hrules.handleUnlockNative).stepSettled rfl id hrun hs
    | unlockPassword password => exact stepSettled_login password hrun hp hs
    | status json =>
      exact (hnothing (.status json) (apart_buildStatusResponse cfg json).aside.fetchesNothing).stepSettled id hs
    | sync =>
      have hkeeps : KeepsPending (mainStep E cfg (.control .sync)) :=
        .bind (.bind (hreload _).beforeSync.keepsPending fun _ => keepsPending_handleSync E cfg) fun _ => trivial
      exact hkeeps.stepSettled rfl hp hs
    | setPin pin =>
      exact (hnothing (.setPin pin) (apart_handleSetPin E cfg pin).aside.fetchesNothing).stepSettled id hs
    | forget shared => exact (hnothing (.forget shared) (fetchesNothing_handleForget cfg shared)).stepSettled id hs
    | stop => exact (hnothing .stop trivial).stepSettled id hs
    | bindHostsDialog =>
      exact (hnothing .bindHostsDialog prompting_handleBindHostsDialog.routine.fetchesNothing).stepSettled id hs
  | runtime event => exact (hrules.handleRuntimeEvent event).stepSettled rfl id hrun hs
  | hub event => exact (keepsPending_handleHubEvent E cfg event).stepSettled rfl hp hs
  | tokenRefresh => exact (aside_handleTokenRefresh E cfg).fetchesNothing.stepSettled id hs
  | autoLockTick idle => exact (apart_handleAutoLockTick cfg idle).aside.fetchesNothing.stepSettled id hs

end Steps

/-- A step of the main loop in which a full sync succeeds settles the flag exactly when its sync goes
through `resolve_pending_sync` and no fetch of it fails. -/
theorem pendingSync_settled_iff {E : Crates} {cfg₀ cfg : Config} {s s' : Daemon} {ev : MainEvent}
    {tr : List Event} (hr : Reachable E cfg₀ cfg s) (hp : s.pendingSync = true)
    (h : Step (machine E) E cfg s (.event ev) tr s') (hsync : FullSync E cfg ev tr) :
    s'.pendingSync = false ↔ ev.resolvesPending = true ∧ ¬FetchFailed tr := by
  cases h with
  | event hreceives hsteps =>
    refine stepSettled_mainStep ?_ ?_ hsteps hsync
    · cases hreceives <;> exact hr.isRunning
    · cases hreceives <;> exact hp

/-- A failed sync is noted by raising the flag. -/
def Op.defersSync : Op → Bool
  | storePendingSync true => true
  | _ => false

/-- The sync of a changed cipher has returned `Ok` when it did not raise the flag. -/
theorem syncReturned_of_cipherChanged {tr : List Event} (h : Runs (handleHubEvent E cfg .cipherChanged) tr ())
    (hno : tr.any (fun e => e.1.defersSync) = false) : SyncReturned E cfg tr := by
  obtain ⟨locked, tr₁, rfl, h₁⟩ := runs_perform_bind.1 h
  rcases (runs_ite ..).1 h₁ with ⟨-, h₁⟩ | ⟨-, h₁⟩
  · obtain ⟨u, tr₂, rfl, -⟩ := runs_perform_bind.1 h₁
    simp [Op.defersSync] at hno
  · obtain ⟨tr₂, tr₃, r, rfl, h₂, h₃⟩ := runs_bind.1 h₁
    cases r with
    | ok n => exact ⟨[⟨.loadVaultLocked, locked⟩], tr₂, tr₃, n, by simp, h₂⟩
    | error e =>
      obtain ⟨u, rfl⟩ := runs_perform.1 h₃
      simp [Op.defersSync] at hno

/-- A changed cipher whose sync failed, and another one that arrives while the vault is unlocked. -/
def changedTwice : List Scene :=
  [.deliver .cipherChanged, .take (.hub .cipherChanged) { plainScript with fetched := .error "offline" },
    .deliver .cipherChanged]

def secondChange : Scene := .take (.hub .cipherChanged) plainScript

/-- The vault is unlocked and the flag raised, and the scene syncs and leaves it raised. -/
def leavesFlag (scene : Scene) (x : Config × Daemon) : Bool :=
  x.2.pendingSync && !x.2.vaultLocked && (scene.play .plain x.1 x.2).any (fun s => s.pendingSync) &&
    !(scene.trace .plain x.1 x.2).any fun e => e.1.defersSync

/-- The second sync succeeds and the flag stays raised. -/
theorem exists_leavesFlag : ∃ cfg s s', Reachable .plain plainConfig cfg s ∧ s.vaultLocked = false ∧
    s.pendingSync = true ∧
    Step (machine .plain) .plain cfg s (.event (.hub .cipherChanged)) (secondChange.trace .plain cfg s) s' ∧
    FullSync .plain cfg (.hub .cipherChanged) (secondChange.trace .plain cfg s) ∧ s'.pendingSync = true := by
  obtain ⟨cfg, s, hr, hs⟩ := exists_of_afterLogin
    (show (afterLogin plainConfig changedTwice).any (leavesFlag secondChange) = true by decide +kernel)
  simp only [leavesFlag, Bool.and_eq_true, Bool.not_eq_true'] at hs
  obtain ⟨⟨⟨hp, hunlocked⟩, hplay⟩, hno⟩ := hs
  obtain ⟨s', hs', hraised⟩ := (Option.any_eq_true _ _).1 hplay
  have hstep := Scene.step hs'
  refine ⟨cfg, s, s', hr, hunlocked, hp, hstep, ?_, hraised⟩
  cases hstep with
  | event _ hsteps => exact syncReturned_of_cipherChanged (reaches_ret.1 hsteps.reaches) hno

theorem pendingSync_settled_iff_changedTwice : ∃ cfg s tr s', Reachable .plain plainConfig cfg s ∧
    s.pendingSync = true ∧ Step (machine .plain) .plain cfg s (.event (.hub .cipherChanged)) tr s' ∧
    FullSync .plain cfg (.hub .cipherChanged) tr ∧
    (s'.pendingSync = false ↔ (MainEvent.hub .cipherChanged).resolvesPending = true ∧ ¬FetchFailed tr) := by
  obtain ⟨cfg, s, s', hr, -, hp, hstep, hsync, -⟩ := exists_leavesFlag
  exact ⟨cfg, s, _, s', hr, hp, hstep, hsync, pendingSync_settled_iff hr hp hstep hsync⟩

theorem pendingSync_left_raised : ¬∀ cfg s ev tr s', Reachable .plain plainConfig cfg s →
    s.vaultLocked = false → s.pendingSync = true → Step (machine .plain) .plain cfg s (.event ev) tr s' →
    FullSync .plain cfg ev tr → s'.pendingSync = false := by
  intro h
  obtain ⟨cfg, s, s', hr, hunlocked, hp, hstep, hsync, hraised⟩ := exists_leavesFlag
  exact absurd ((h cfg s _ _ s' hr hunlocked hp hstep hsync).symm.trans hraised) (by decide)

end SshWarden
