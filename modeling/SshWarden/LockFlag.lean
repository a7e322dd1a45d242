import SshWarden.Steady

/-!
# The lock flag and the keys of the agent

Between the turns of the daemon a locked vault has no signable key. The one exception is a `forget`
that the watchdog drops after it has raised the flag and before it clears the agent.
-/

namespace SshWarden
open Prog

variable {E : Crates} {cfg₀ cfg : Config} {s s' : Daemon} {α : Type}

/-- The agent serves, and signs nothing for a locked vault. -/
structure LockSafe (s : Daemon) : Prop where
  running : s.agent.isRunning = true
  unsignable : s.vaultLocked = true → s.agent.NoPrivate

theorem noPrivate_congr {a a' : Agent} (h : a'.keystore = a.keystore) : a'.NoPrivate ↔ a.NoPrivate := by
  rw [Agent.NoPrivate, h, Agent.NoPrivate]

theorem LockSafe.congr (h : LockSafe s) (hs : SameLock s s') : LockSafe s' where
  running := hs.isRunning.trans h.running
  unsignable hl := (noPrivate_congr hs.keystore).2 (h.unsignable (hs.vaultLocked ▸ hl))

theorem LockSafe.of_unlocked (hr : s.agent.isRunning = true) (hu : s.vaultLocked = false) : LockSafe s :=
  ⟨hr, fun hl => by simp [hu] at hl⟩

theorem LockSafe.of_noPrivate (hr : s.agent.isRunning = true) (hn : s.agent.NoPrivate) : LockSafe s :=
  ⟨hr, fun _ => hn⟩

abbrev KeepsUnsignable (p : DProg α) : Prop := Prog.Only (S := daemonSig)
  (fun o : Op => o.isSteady = true ∨ ∃ ks, o = .agentSetPublicIdentities ks) p

theorem unsignable_next {o : Op} {a : o.Ans} (ho : o.isSteady = true ∨ ∃ ks, o = .agentSetPublicIdentities ks)
    (hr : s.agent.isRunning = true) (hn : s.agent.NoPrivate) :
    (next E o s a).agent.isRunning = true ∧ (next E o s a).agent.NoPrivate := by
  rcases ho with ho | ⟨ks, rfl⟩
  · have hs := sameLock_next E ho s a
    exact ⟨hs.isRunning.trans hr, (noPrivate_congr hs.keystore).2 hn⟩
  · exact ⟨(Agent.setPublicIdentities_isRunning ..).trans hr, hn.setPublicIdentities E ks⟩

theorem keepsUnsignable_loadInitialIdentities : KeepsUnsignable loadInitialIdentities := by
  refine ⟨.inl rfl, fun _ => ⟨.inl rfl, fun cache => ?_⟩⟩
  cases cache with
  | none => exact ⟨.inl rfl, fun _ => trivial⟩
  | some cache =>
    refine .ite ⟨.inl rfl, fun _ => trivial⟩ ⟨.inl rfl, fun _ => ⟨.inl rfl, fun _ => ⟨.inr ⟨_, rfl⟩, ?_⟩⟩⟩
    exact fun _ => ⟨.inl rfl, fun _ => trivial⟩

/-- With `drop` the invariant also has to hold wherever the watchdog may drop the action; `forget` is
then not considered. -/
def lockFacts (drop : Prop) : Facts Daemon where
  I := LockSafe
  Locked s := s.vaultLocked = true
  Unlocked s := s.vaultLocked = false
  Holds _ _ := True
  Opened _ _ _ := True
  Client _ _ := True
  Fetched _ _ := True
  Synced _ _ := True
  MaySync _ := True
  MaySetPin _ _ := True
  pinOk _ := True
  mayForget := ¬drop

def SafeAtDrop (drop : Prop) (o : Op) (s : Daemon) : Prop := drop → o.awaits = true → LockSafe s

theorem lockFacts_keeps {drop : Prop} (h : SameLock s s') : (lockFacts drop).Keeps s s' where
  locked hl := h.vaultLocked.trans hl
  unlocked hu := h.vaultLocked.trans hu
  holds _ := id
  opened _ _ := id
  client _ := id
  fetched _ := id
  synced _ := id
  maySync := id

/-- A steady program keeps the invariant. -/
theorem wp_steady {drop : Prop} {p : DProg α} (hp : Steady p) (h : LockSafe s)
    {Q : α → Daemon → Prop} (hQ : ∀ a s', LockSafe s' → SameLock s s' → Q a s') :
    wp (machine E) (SafeAtDrop drop) p Q s :=
  hp.wp (Lifts.machine E) (fun _ _ _ hs _ _ => h.congr hs) fun a s' hs => hQ a s' (h.congr hs) hs

theorem wp_lockVault_safe {drop : Prop} (h : LockSafe s) :
    wp (machine E) (SafeAtDrop drop) lockVault (fun _ => LockSafe) s := by
  refine wp_perform_bind.2 ⟨fun _ _ => h, fun a ha => ?_⟩
  obtain rfl : a = true := ha.trans h.running
  refine wp_perform_bind.2 ⟨fun _ hw => absurd hw Bool.false_ne_true, fun _ _ => ?_⟩
  have hr : s.agent.lock.isRunning = true := by rw [Agent.lock_isRunning, h.running]
  have rest : Steady (do
      op (.writeCachedKeyTuples [])
      op (.writeLocalCacheKey none)
      op .clearMemory
      return (.ok () : Except String Unit)) :=
    .bind (steady_op rfl) fun _ => .bind (steady_op rfl) fun _ => .bind (steady_op rfl) fun _ => trivial
  exact wp_steady rest (.of_noPrivate hr (Agent.noPrivate_lock h.running)) fun _ _ hs _ => hs

theorem wp_finishUnlockWithJson_safe {drop : Prop} (json msg : String) (h : LockSafe s)
    (hl : s.vaultLocked = true) :
    wp (machine E) (SafeAtDrop drop) (finishUnlockWithJson E json msg)
      (fun resp s' => LockSafe s' ∧ (resp.ok = false → s'.vaultLocked = true)) s := by
  unfold finishUnlockWithJson
  split
  · exact ⟨h, fun _ => hl⟩
  · rename_i keys _
    refine wp_perform_bind.2 ⟨fun _ _ => h, fun _ _ => ?_⟩
    refine wp_perform_bind.2 ⟨fun _ _ => h.congr ⟨rfl, rfl, rfl⟩, fun _ _ => ?_⟩
    refine wp_perform_bind.2 ⟨fun _ hw => absurd hw Bool.false_ne_true, fun a ha => ?_⟩
    obtain rfl : a = true := ha.trans h.running
    refine wp_perform_bind.2 ⟨fun _ hw => absurd hw Bool.false_ne_true, fun _ _ => ?_⟩
    exact ⟨.of_unlocked ((Agent.setKeys_isRunning ..).trans h.running) rfl,
      fun hno => absurd hno (by simp)⟩

/-- The flag has been raised for an agent that has not been cleared. -/
def flagRaised : Bool → Event → Bool
  | _, ⟨.storeVaultLocked true, _⟩ => true
  | _, ⟨.agentClearKeys, _⟩ => false
  | raised, _ => raised

/-- A `forget` of an unlocked vault was dropped after it raised the flag and before it cleared the
agent. -/
def HalfForgotten (s : Daemon) : Turn → List Event → Prop
  | .dropped (.forget _), tr => s.vaultLocked = false ∧ tr.foldl flagRaised false = true
  | _, _ => False

theorem flagRaised_steady {o : Op} (h : o.isSteady = true) (raised : Bool) (a : o.Ans) :
    flagRaised raised ⟨o, a⟩ = raised := by
  cases o <;> first | rfl | exact absurd h Bool.false_ne_true

/-- While a `forget` of `s` runs, with the flag it has raised. -/
abbrev forgetMachine (E : Crates) : Machine daemonSig (Daemon × Bool) := (machine E).track flagRaised

/-- Nothing is signable on a locked vault but between the flag and the clearing. -/
def ForgetSafe (s : Daemon) (x : Daemon × Bool) : Prop :=
  s.vaultLocked = true ∨ x.2 = false → LockSafe x.1

theorem wp_steady_forget {p : DProg α} (hp : Steady p) {x : Daemon × Bool}
    (hD : ∀ s', SameLock x.1 s' → ForgetSafe s (s', x.2)) {Q : α → Daemon × Bool → Prop}
    (hQ : ∀ a s', SameLock x.1 s' → Q a (s', x.2)) :
    wp (forgetMachine E) (fun _ => ForgetSafe s) p Q x := by
  refine hp.wp_rel (R := fun x x' => SameLock x.1 x'.1 ∧ x'.2 = x.2) (fun _ => ⟨.refl _, rfl⟩) ?_
    (fun o x a ho _ => ⟨sameLock_next E ho _ a, flagRaised_steady ho _ _⟩) ?_ ?_
  · rintro _ _ _ ⟨h, e⟩ ⟨h', e'⟩
    exact ⟨h.trans h', e'.trans e⟩
  · rintro _ ⟨s', _⟩ _ ⟨hs, rfl⟩
    exact hD s' hs
  · rintro a ⟨s', _⟩ ⟨hs, rfl⟩
    exact hQ a s' hs

/-- Once the agent has been cleared it stays without private keys. -/
theorem wp_cleared {p : DProg α} (hp : KeepsUnsignable p) {x : Daemon × Bool}
    (hr : x.1.agent.isRunning = true) (hn : x.1.agent.NoPrivate) :
    wp (forgetMachine E) (fun _ => ForgetSafe s) p (fun _ x => LockSafe x.1) x := by
  refine (hp.wp (I := fun x => x.1.agent.isRunning = true ∧ x.1.agent.NoPrivate) ?_ ⟨hr, hn⟩).mono
    (fun _ _ h _ => .of_noPrivate h.1 h.2) fun _ _ h => .of_noPrivate h.1 h.2
  exact fun _ x _ ho h _ => unsignable_next ho h.1 h.2

theorem wp_forgetKeys (removeSharedCache : Bool) {x : Daemon × Bool} (hr : x.1.agent.isRunning = true)
    (hsafe : ∀ s', SameLock x.1 s' → ForgetSafe s (s', x.2)) :
    wp (forgetMachine E) (fun _ => ForgetSafe s) (forgetKeys removeSharedCache)
      (fun _ x => LockSafe x.1) x := by
  have clear : ∀ {rest : DProg Unit}, KeepsUnsignable rest →
      ∀ {s'}, SameLock x.1 s' → wp (forgetMachine E) (fun _ => ForgetSafe s)
        (op .agentClearKeys >>= fun _ => rest) (fun _ x => LockSafe x.1) (s', x.2) := by
    intro rest hrest s' hs'
    refine wp_perform_bind.2 ⟨hsafe s' hs', fun _ _ => ?_⟩
    exact wp_cleared hrest (hs'.isRunning.trans hr) (Agent.noPrivate_clearKeys _)
  refine (wp_ite ..).2 ⟨fun _ => ?_, fun _ => ?_⟩
  · have before : Steady (do
        op (.writeLocalKeyCache none)
        op (.writePublicKeyIdentityTuples [])
        op (.writeKeyNames [])) :=
      .bind (steady_op rfl) fun _ => .bind (steady_op rfl) fun _ => steady_op rfl
    have h := wp_steady_forget (E := E) (s := s) before hsafe
      (Q := fun _ x => wp (forgetMachine E) (fun _ => ForgetSafe s)
        (op .agentClearKeys >>= fun _ => pure ()) (fun _ x => LockSafe x.1) x)
      (fun _ s' hs' => @clear (pure ()) trivial _ hs')
    exact h
  · have before : ∀ c, Steady (do
        op (.writeLocalKeyCache c)
        op (.writePublicKeyIdentityTuples [])
        op (.writeKeyNames [])) := fun c =>
      .bind (steady_op rfl) fun _ => .bind (steady_op rfl) fun _ => steady_op rfl
    refine wp_bind .. |>.2 (wp_steady_forget inner_loadSharedCache.steady hsafe fun c s' hs' => ?_)
    have h : ∀ rest, KeepsUnsignable rest → _ := fun rest hrest => wp_steady_forget (E := E) (s := s) (before c)
      (x := (s', x.2)) (fun s'' hs'' => hsafe s'' (hs'.trans hs''))
      (Q := fun _ x => wp (forgetMachine E) (fun _ => ForgetSafe s) (op .agentClearKeys >>= fun _ => rest)
        (fun _ x => LockSafe x.1) x)
      (fun _ s'' hs'' => clear hrest (hs'.trans hs''))
    cases c with
    | none => exact h (pure ()) trivial
    | some cache =>
      have hidentities : KeepsUnsignable (do
          let _ ← op (.agentSetPublicIdentities (keyTuplesFromCacheHeader cache))
          op (.writePublicKeyIdentityTuples (keyTuplesFromCacheHeader cache))
          op (.writeKeyNames (keyNamesOf (keyTuplesFromCacheHeader cache)))) :=
        ⟨.inr ⟨_, rfl⟩, fun _ => ⟨.inl rfl, fun _ => ⟨.inl rfl, fun _ => trivial⟩⟩⟩
      exact h _ hidentities

theorem wp_handleForget (shared : Bool) (h : LockSafe s) :
    wp (forgetMachine E) (fun _ => ForgetSafe s) (handleForget cfg shared) (fun _ x => LockSafe x.1)
      (s, false) := by
  have same : ∀ {s'}, SameLock s s' → ForgetSafe s (s', false) := fun hs _ => h.congr hs
  have before : Steady (do
      op (.writeLocalCacheKey none)
      op .clearMemory
      op (.writeCachedKeyTuples [])
      op (.writeApiClient none)
      op (.storePendingSync false)
      op (.setNotificationClient none)
      notify .reset) :=
    .bind (steady_op rfl) fun _ => .bind (steady_op rfl) fun _ => .bind (steady_op rfl) fun _ =>
    .bind (steady_op rfl) fun _ => .bind (steady_op rfl) fun _ => .bind (steady_op rfl) fun _ =>
    (support_notify _).steady
  have raise : ∀ (failures : List String) {s'}, SameLock s s' → wp (forgetMachine E) (fun _ => ForgetSafe s)
      (op (.storeVaultLocked true) >>= fun _ => do
        forgetKeys (shared || !cfg.multiDevice)
        return forgetResponse (shared || !cfg.multiDevice) failures)
      (fun _ x => LockSafe x.1) (s', false) := by
    intro failures s' hs'
    refine wp_perform_bind.2 ⟨same hs', fun _ _ => ?_⟩
    refine wp_bind .. |>.2 (wp_forgetKeys _ (hs'.isRunning.trans h.running) fun s'' hs'' hor => ?_)
    have hl : s.vaultLocked = true := hor.resolve_right (by simp [forgetMachine, Machine.track, flagRaised])
    refine .of_noPrivate (hs''.isRunning.trans (hs'.isRunning.trans h.running)) ?_
    exact (noPrivate_congr hs''.keystore).2 ((noPrivate_congr hs'.keystore).2 (h.unsignable hl))
  refine wp_bind .. |>.2 (wp_steady_forget (inner_forgetFiles cfg _).steady
    (fun _ => same) fun failures s₁ h₁ => ?_)
  have hsession := wp_steady_forget (E := E) (s := s) before (x := (s₁, false))
    (fun s₂ h₂ => same (h₁.trans h₂))
    (Q := fun _ x => wp (forgetMachine E) (fun _ => ForgetSafe s)
      (op (.storeVaultLocked true) >>= fun _ => do
        forgetKeys (shared || !cfg.multiDevice)
        return forgetResponse (shared || !cfg.multiDevice) failures) (fun _ x => LockSafe x.1) x)
    (fun _ s₂ h₂ => raise failures (h₁.trans h₂))
  exact hsession

/-! ### The invariant -/

theorem lockPhases (E : Crates) (cfg : Config) (drop : Prop) :
    Phases E cfg (machine E) (SafeAtDrop drop) (lockFacts drop) where
  quiet ho hI := ⟨fun _ _ => hI, fun a _ =>
    have hs := sameLock_next E (Op.isSteady_of_isQuiet ho) _ a
    ⟨hI.congr hs, lockFacts_keeps hs⟩⟩
  locked _ h := h.symm
  unlocked _ h := h.symm
  readCache _ _ := trivial
  peekCache _ _ := trivial
  peekClient _ _ := trivial
  maySync _ _ := trivial
  reload hI := wp_steady (inner_reload cfg).steady hI fun _ _ h _ => ⟨h, id⟩
  lock hI := wp_lockVault_safe hI
  native hI _ _ := wp_steady (slotReads_decryptWithNative E cfg _).routine.steady hI fun _ _ h hs =>
    ⟨h, lockFacts_keeps hs, fun _ _ _ => trivial⟩
  pin _ _ _ _ _ := trivial
  dialog _ hI _ _ := wp_steady (pinSteps_requestPinDialog _ _).routine.steady hI fun _ _ h hs =>
    ⟨h, lockFacts_keeps hs, fun _ _ _ _ => trivial⟩
  migrate _ hI hl _ _ _ := wp_steady (pinSlotSteps_migratePinSlotIfNeeded E _ _ _).inner.steady hI fun _ _ h hs =>
    ⟨h, hs.vaultLocked.trans hl, trivial⟩
  enroll hI _ _ := wp_steady (slotSteps_enrollDevicePlatformSlotsIfMissing E cfg _).slotRoutine.inner.steady hI
    fun _ _ h hs => ⟨h, lockFacts_keeps hs⟩
  unlock msg hI hl _ := by
    refine wp_perform_bind.2 ⟨fun _ _ => hI, fun _ _ => ?_⟩
    refine wp.post (wp_finishUnlockWithJson_safe _ msg ?_ hl) fun _ _ h => ⟨h.1, h.2, fun _ => trivial⟩
    exact hI.congr ⟨rfl, rfl, rfl⟩
  fetch hI _ _ := wp_steady (support_syncSshKeys _).steady hI fun _ _ h _ => ⟨h, fun _ _ => trivial⟩
  reconcile hI _ := wp_steady
    (reconcilingSteps_reconcileSyncedKeyState E cfg _).inner.steady hI fun _ _ h _ => ⟨h, trivial⟩
  load hI _ hu := ⟨fun _ _ => hI, fun _ _ =>
    .of_unlocked ((Agent.setKeys_isRunning ..).trans hI.running) hu⟩
  setClient hI _ := ⟨fun _ _ => hI, fun _ _ => ⟨hI.congr ⟨rfl, rfl, rfl⟩, id⟩⟩
  pokeClient _ hI _ := ⟨fun _ _ => hI, fun _ _ => hI.congr ⟨rfl, rfl, rfl⟩⟩
  checkKey hI _ := wp_steady (inner_ensureLocalCacheKeyForManualSync E cfg).steady hI fun _ _ h _ => ⟨h, trivial⟩
  forget shared hno hI := by
    have hd : ∀ o s, SafeAtDrop drop o s := fun _ _ hd => absurd hd hno
    exact (wp.of_track ((wp_handleForget shared hI).mono (fun o x _ => hd o x.1) fun _ _ h => h))
  setPin pin _ hI := wp_steady (steady_handleSetPin E cfg pin) hI fun _ _ h _ => h

theorem lockLoginPhases (E : Crates) (cfg : Config) (drop : Prop) :
    Phases.LoginPhases E cfg (machine E) (SafeAtDrop drop) (lockFacts drop) (fun _ _ => True)
      (fun _ => LockSafe) where
  fetch client hI := wp_steady (support_syncSshKeys client).steady hI fun _ _ h _ => ⟨h, fun _ _ => trivial⟩
  files _ _ _ _ := trivial
  reconcile hI _ := wp_steady (reconcilingSteps_reconcileSyncedKeyState E cfg _).inner.steady hI fun _ _ h _ => h
  names hJ := ⟨fun _ _ => hJ, fun _ _ => hJ.congr ⟨rfl, rfl, rfl⟩⟩
  load hJ := by
    refine ⟨fun _ _ => hJ, fun a ha => ⟨fun hno => ?_, fun _ => ⟨?_, fun _ _ => ⟨?_, trivial⟩⟩⟩⟩
    · obtain rfl : a = true := ha.trans hJ.running
      exact absurd hno (by simp)
    · exact fun _ hw => absurd hw Bool.false_ne_true
    · exact .of_unlocked ((Agent.setKeys_isRunning ..).trans hJ.running) rfl
  setClient hI _ := ⟨fun _ _ => hI, fun _ _ => ⟨hI.congr ⟨rfl, rfl, rfl⟩, trivial⟩⟩

theorem lockRequestPhases (E : Crates) (cfg : Config) :
    RequestPhases E cfg (machine E) (SafeAtDrop False) (lockFacts False) where
  requestUnlock request seed event hseed hI hl _ := by
    unfold unlockWithDecryptedKeys
    split
    · exact ⟨hI, fun _ => hl⟩
    · have never : ∀ {o s}, SafeAtDrop False o s := fun hd => hd.elim
      refine ⟨never, fun _ _ => ⟨never, fun _ _ => ?_⟩⟩
      refine wp_perform_bind.2 ⟨never, fun a ha => ?_⟩
      obtain rfl : a = true := ha.trans hI.running
      refine wp_bind .. |>.2 (hseed.steady.wp (Lifts.machine E) (fun _ _ _ _ => never) fun _ s₁ hs => ?_)
      refine ⟨never, fun _ _ => ⟨never, fun _ _ => ⟨never, fun _ _ => ⟨?_, fun hno => nomatch hno⟩⟩⟩⟩
      exact .of_unlocked (hs.isRunning.trans ((Agent.setKeys_isRunning ..).trans hI.running)) rfl
  unlockedRequest request hI _ :=
    (steady_handleUnlockedRequest cfg request).wp (Lifts.machine E) (fun _ _ _ _ hd => hd.elim)
      fun _ _ hs => hI.congr hs

theorem wp_bringUp_remembered {c : LocalKeyCacheFile} (hn : s.agent.NoPrivate) :
    wp (machine E) (fun _ _ => True) (bringUp E cfg (some c) none)
      (fun b s' => b = true → LockSafe s') s := by
  refine wp_perform_bind.2 ⟨trivial, fun started _ => ?_⟩
  cases started with
  | false => exact fun hno => absurd hno (by simp)
  | true =>
    refine wp_perform_bind.2 ⟨trivial, fun _ _ => wp_perform_bind.2 ⟨trivial, fun _ _ =>
      wp_perform_bind.2 ⟨trivial, fun _ _ => ?_⟩⟩⟩
    refine wp_bind .. |>.2 ((keepsUnsignable_loadInitialIdentities.wp
      (I := fun s => s.agent.isRunning = true ∧ s.agent.NoPrivate)
      (fun _ _ _ ho h _ => unsignable_next ho h.1 h.2) ⟨rfl, hn⟩).mono (fun _ _ _ => trivial) ?_)
    exact fun _ _ h _ => .of_noPrivate h.1 h.2

/-- Loading keys keeps the agent running and the flag down. -/
theorem wp_loadInitialKeys_safe (keys : List DecryptedSshKey) (hr : s.agent.isRunning = true)
    (hu : s.vaultLocked = false) :
    wp (machine E) (fun _ _ => True) (loadInitialKeys E cfg keys) (fun _ => LockSafe) s := by
  have only : Prog.Only (S := daemonSig) (fun o : Op => o.isSteady = true ∨ ∃ ks, o = .agentSetKeys ks)
      (loadInitialKeys E cfg keys) := by
    have hpin : Prog.Only (S := daemonSig) (fun o : Op => o.isSteady = true ∨ ∃ ks, o = .agentSetKeys ks)
        (promptSetupPin E cfg) := (steady_promptSetupPin E cfg).mono fun _ h => .inl h
    exact .ite trivial ⟨.inl rfl, fun _ => ⟨.inl rfl, fun _ => ⟨.inl rfl, fun _ => ⟨.inl rfl, fun _ =>
      ⟨.inl rfl, fun _ => ⟨.inr ⟨_, rfl⟩, fun _ => .ite (.bind hpin fun _ => trivial) trivial⟩⟩⟩⟩⟩⟩
  refine (only.wp (I := fun s => s.agent.isRunning = true ∧ s.vaultLocked = false) ?_ ⟨hr, hu⟩).mono
    (fun _ _ _ => trivial) fun _ _ h => .of_unlocked h.1 h.2
  rintro o x a (ho | ⟨ks, rfl⟩) ⟨hr, hu⟩ -
  · have hs := sameLock_next E ho x a
    exact ⟨hs.isRunning.trans hr, hs.vaultLocked.trans hu⟩
  · exact ⟨(Agent.setKeys_isRunning ..).trans hr, hu⟩

theorem wp_bringUp_fresh {login : Option (List DecryptedSshKey × BitwardenClient)} (hn : s.agent.NoPrivate) :
    wp (machine E) (fun _ _ => True) (bringUp E cfg none login)
      (fun b s' => b = true → LockSafe s') s := by
  refine wp_perform_bind.2 ⟨trivial, fun started _ => ?_⟩
  cases started with
  | false => exact fun hno => absurd hno (by simp)
  | true =>
    refine wp_perform_bind.2 ⟨trivial, fun _ _ => wp_perform_bind.2 ⟨trivial, fun _ _ =>
      wp_perform_bind.2 ⟨trivial, fun _ _ => ?_⟩⟩⟩
    match login with
    | none =>
      refine wp_bind .. |>.2 ((keepsUnsignable_loadInitialIdentities.wp
        (I := fun s => s.agent.isRunning = true ∧ s.agent.NoPrivate)
        (fun _ _ _ ho h _ => unsignable_next ho h.1 h.2) ⟨rfl, hn⟩).mono (fun _ _ _ => trivial) ?_)
      exact fun _ _ h _ => .of_noPrivate h.1 h.2
    | some (keys, client) =>
      refine wp_perform_bind.2 ⟨trivial, fun _ _ => ?_⟩
      exact (wp_loadInitialKeys_safe keys rfl rfl).post fun _ _ h _ => h

/-- The start-up leaves a locked vault without signable keys. -/
theorem Started.lockSafe (h : Started (machine E) E cfg₀ cfg s s') : LockSafe s' := by
  obtain ⟨h₀, hsteps⟩ := h
  have hn : s.agent.NoPrivate := by
    rw [h₀]
    simp [Agent.NoPrivate]
  have hwith : ∀ {cfg₁ cache login x}, (∀ {cfg₁}, wp (machine E) (fun _ _ => True) (bringUp E cfg₁ cache login)
        (fun b s' => b = true → LockSafe s') x) →
      wp (machine E) (fun _ _ => True) (startWith E cfg₁ cache login)
        (fun r s' => r.isSome = true → LockSafe s') x := by
    intro cfg₁ cache login x hb
    refine wp_bind .. |>.2 (hb.post fun b x' hx' => ?_)
    cases b with
    | false => exact fun hno => absurd hno (by simp)
    | true =>
      refine wp_bind .. |>.2 ((Phases.quiet_connectInitialClient E cfg₁).steady.wp (Lifts.machine E)
        (fun _ _ _ _ => trivial) fun _ _ hs => ?_)
      exact fun _ => (hx' rfl).congr hs
  have hstart : wp (machine E) (fun _ _ => True) (startUp E cfg₀) (fun r s' => r.isSome = true → LockSafe s') s :=
    Phases.wp_startUp (P := fun s => s.agent.NoPrivate) (C := fun _ => True) (K := fun _ => True)
      (fun ho hx => ⟨trivial, fun _ _ =>
        (noPrivate_congr (sameLock_next E (Op.isSteady_of_isSlotSupport ho) _ _).keystore).2 hx⟩)
      (fun _ _ => trivial) (fun _ _ => trivial) (fun _ hno => absurd hno (by simp))
      (fun hx _ => hwith (wp_bringUp_remembered hx)) (fun hx _ => hwith (wp_bringUp_fresh hx)) hn
  exact hstart.of_ret hsteps rfl

theorem wp_mainStep_safe {drop : Prop} (hI : LockSafe s) {ev : MainEvent}
    (ha : Phases.eventAllowed (lockFacts drop) s ev) :
    wp (machine E) (SafeAtDrop drop) (mainStep E cfg ev) (fun _ => LockSafe) s := by
  refine (lockPhases E cfg drop).wp_mainStep (fun password hI' => ?_) ha hI
  exact (lockPhases E cfg drop).wp_handleUnlockPassword (lockLoginPhases E cfg drop) hI' password

/-- Where the watchdog drops an action. -/
theorem lockSafe_of_dropped {action : ControlAction} {tr : List Event} {p : DProg Unit}
    (h : Steps (machine E) (mainStep E cfg (.control action)) s tr p s') (hd : Dropped p)
    (hok : ¬HalfForgotten s (.dropped action) tr) (hI : LockSafe s) : LockSafe s' := by
  obtain ⟨o, k, rfl, hw⟩ := hd
  have other : Phases.eventAllowed (lockFacts True) s (.control action) → LockSafe s' := fun ha =>
    (wp_mainStep_safe hI ha).at_op h trivial hw
  cases action with
  | forget shared =>
    have hforget : wp (forgetMachine E) (fun _ => ForgetSafe s) (mainStep E cfg (.control (.forget shared)))
        (fun _ x => LockSafe x.1) (s, false) :=
      (wp_bind ..).2 ((wp_handleForget shared hI).post fun _ _ hx => hx)
    refine hforget.at_op (h.track flagRaised false) ?_
    by_contra hno
    obtain ⟨hu, hr⟩ := not_or.1 hno
    exact hok ⟨by simpa using hu, by simpa using hr⟩
  | _ => exact other trivial

theorem Step.lockSafe {t : Turn} {tr : List Event} (h : Step (machine E) E cfg s t tr s')
    (hok : ¬HalfForgotten s t tr) (hI : LockSafe s) : LockSafe s' := by
  cases h with
  | event hr hsteps =>
    rename_i s₁ ev
    have hI₁ : LockSafe s₁ := hI.congr (by cases hr <;> exact ⟨rfl, rfl, rfl⟩)
    have ha : Phases.eventAllowed (lockFacts False) s₁ ev := by
      cases ev with
      | control action => cases action <;> trivial
      | _ => trivial
    exact (wp_mainStep_safe hI₁ ha).of_ret hsteps
  | dropped hne hsteps hd => exact lockSafe_of_dropped hsteps hd hok hI
  | arrives ha => cases ha; exact hI.congr ⟨rfl, rfl, rfl⟩
  | request hsteps =>
    exact ((lockPhases E cfg False).wp_handleUiRequest (lockRequestPhases E cfg) hI _).of_ret hsteps

/-- In every run in which no `forget` is dropped half-way a locked vault signs nothing. -/
theorem ReachableIf.lockSafe {ok : Daemon → Turn → List Event → Prop}
    (h : ReachableIf (machine E) ok E cfg₀ cfg s) (hok : ∀ s t tr, ok s t tr → ¬HalfForgotten s t tr) :
    LockSafe s :=
  h.induct (fun _ _ hs => hs.lockSafe) fun _ _ _ _ hstep ht hI => hstep.lockSafe (hok _ _ _ ht) hI

end SshWarden
