import SshWarden.Turns

/-!
# What the operations leave alone

Quiet operations keep every secret of the daemon (`SameSecrets`). Steady operations keep the agent's
keys and the lock flag (`SameLock`); between locking, unlocking and forgetting a handler is steady.
-/

namespace SshWarden
open Prog

variable {E : Crates} {cfg : Config} {s s' s'' : Daemon} {σ α : Type}

/-- The two states agree on the secrets, the approvals and the caches; the device's unlock slots may
have been deleted. -/
structure SameSecrets (s s' : Daemon) : Prop where
  keystore : s'.agent.keystore = s.agent.keystore
  isRunning : s'.agent.isRunning = s.agent.isRunning
  vaultLocked : s'.vaultLocked = s.vaultLocked
  cachedKeyTuples : s'.cachedKeyTuples = s.cachedKeyTuples
  publicKeyIdentityTuples : s'.publicKeyIdentityTuples = s.publicKeyIdentityTuples
  apiClient : s'.apiClient = s.apiClient
  localKeyCacheData : s'.localKeyCacheData = s.localKeyCacheData
  localCacheKeyState : s'.localCacheKeyState = s.localCacheKeyState
  authorizationMemory : s'.authorizationMemory = s.authorizationMemory
  keyMaterialFingerprints : s'.keyMaterialFingerprints = s.keyMaterialFingerprints
  diskCache : s'.disk.localKeyCache = s.disk.localKeyCache
  unlockSlots : s'.disk.unlockSlots = s.disk.unlockSlots ∨ s'.disk.unlockSlots = none

theorem SameSecrets.refl (s : Daemon) : SameSecrets s s :=
  ⟨rfl, rfl, rfl, rfl, rfl, rfl, rfl, rfl, rfl, rfl, rfl, .inl rfl⟩

/-- A written file other than the cache and the unlock slots holds no secret of the daemon. -/
theorem sameSecrets_afterWrite {d : Disk} (hc : d.localKeyCache = s.disk.localKeyCache)
    (hu : d.unlockSlots = s.disk.unlockSlots ∨ d.unlockSlots = none) (r : Except String Unit) :
    SameSecrets s (afterWrite s d r) := by
  cases r
  · exact .refl s
  · exact ⟨rfl, rfl, rfl, rfl, rfl, rfl, rfl, rfl, rfl, rfl, hc, hu⟩

theorem sameSecrets_next (E : Crates) {o : Op} (h : o.isQuiet = true) (s : Daemon) (a : o.Ans) :
    SameSecrets s (next E o s a) := by
  cases o <;> first
    | exact absurd h Bool.false_ne_true
    | exact ⟨rfl, rfl, rfl, rfl, rfl, rfl, rfl, rfl, rfl, rfl, rfl, .inl rfl⟩
    | (refine sameSecrets_afterWrite ?_ ?_ a; rfl; first | exact .inl rfl | exact .inr rfl)

/-- Operations that change neither the agent's keys nor the lock flag. -/
def Op.isSteady : Op → Bool
  | startAgent | agentLock | agentSetKeys _ | agentSetPublicIdentities _ | agentClearKeys
  | storeVaultLocked _ => false
  | _ => true

theorem Op.isSteady_of_isQuiet {o : Op} (h : o.isQuiet = true) : o.isSteady = true := by
  cases o <;> first | rfl | exact absurd h Bool.false_ne_true

theorem Op.isSteady_of_isSlotSupport {o : Op} (h : o.isSlotSupport = true) : o.isSteady = true := by
  cases o <;> first | rfl | exact absurd h Bool.false_ne_true

/-- Steady operations that belong to no sync, no connection to the hub and no pending sync. -/
def Op.isInner : Op → Bool
  | hold .apiClient _ | fetchSync _ | setNotificationClient _ | storePendingSync _
  | swapPendingSync _ => false
  | o => o.isSteady

/-- Inner operations that leave the fingerprints and the remembered approvals. -/
def Op.isEnclosed : Op → Bool
  | writeFingerprints _ | insertMemory _ | retainMemory _ | clearMemory => false
  | o => o.isInner

/-- The two states agree on the agent's keys and on the lock flag. -/
structure SameLock (s s' : Daemon) : Prop where
  keystore : s'.agent.keystore = s.agent.keystore
  isRunning : s'.agent.isRunning = s.agent.isRunning
  vaultLocked : s'.vaultLocked = s.vaultLocked

theorem SameLock.refl (s : Daemon) : SameLock s s := ⟨rfl, rfl, rfl⟩

theorem SameLock.trans (h : SameLock s s') (h' : SameLock s' s'') : SameLock s s'' :=
  ⟨h'.keystore.trans h.keystore, h'.isRunning.trans h.isRunning, h'.vaultLocked.trans h.vaultLocked⟩

theorem sameLock_next (E : Crates) {o : Op} (h : o.isSteady = true) (s : Daemon) (a : o.Ans) :
    SameLock s (next E o s a) := by
  cases o <;> first
    | exact absurd h Bool.false_ne_true
    | exact ⟨rfl, rfl, rfl⟩
    | (cases a <;> exact ⟨rfl, rfl, rfl⟩)

abbrev Steady {α : Type} (p : DProg α) : Prop :=
  Prog.Only (S := daemonSig) (fun o : Op => o.isSteady = true) p

abbrev Inner {α : Type} (p : DProg α) : Prop :=
  Prog.Only (S := daemonSig) (fun o : Op => o.isInner = true) p

abbrev Enclosed {α : Type} (p : DProg α) : Prop :=
  Prog.Only (S := daemonSig) (fun o : Op => o.isEnclosed = true) p

theorem Quiet.steady {p : DProg α} (h : Quiet p) : Steady p := h.mono fun _ => Op.isSteady_of_isQuiet

theorem Support.steady {p : DProg α} (h : Support p) : Steady p := h.quiet.steady

theorem SlotSupport.steady {p : DProg α} (h : SlotSupport p) : Steady p :=
  h.mono fun _ => Op.isSteady_of_isSlotSupport

theorem Routine.steady {p : DProg α} (h : Routine p) : Steady p := h.support.steady

theorem Op.isSteady_of_isInner {o : Op} (h : o.isInner = true) : o.isSteady = true := by
  cases o <;> first | rfl | exact absurd h Bool.false_ne_true

theorem Op.isInner_of_isEnclosed {o : Op} (h : o.isEnclosed = true) : o.isInner = true := by
  cases o <;> first | exact h | exact absurd h Bool.false_ne_true

theorem Op.isEnclosed_of_isSlotRoutine {o : Op} (h : o.isSlotRoutine = true) : o.isEnclosed = true := by
  cases o <;> first | rfl | exact absurd h Bool.false_ne_true

theorem Inner.steady {p : DProg α} (h : Inner p) : Steady p := h.mono fun _ => Op.isSteady_of_isInner

theorem Enclosed.inner {p : DProg α} (h : Enclosed p) : Inner p := h.mono fun _ => Op.isInner_of_isEnclosed

theorem SlotRoutine.enclosed {p : DProg α} (h : SlotRoutine p) : Enclosed p :=
  h.mono fun _ => Op.isEnclosed_of_isSlotRoutine

theorem Routine.enclosed {p : DProg α} (h : Routine p) : Enclosed p := h.slots.enclosed

theorem SlotRoutine.inner {p : DProg α} (h : SlotRoutine p) : Inner p := h.enclosed.inner

theorem Routine.inner {p : DProg α} (h : Routine p) : Inner p := h.slots.inner

theorem enclosed_op {o : Op} (h : o.isEnclosed = true) : Enclosed (op o) := ⟨h, fun _ => trivial⟩

theorem inner_op {o : Op} (h : o.isInner = true) : Inner (op o) := ⟨h, fun _ => trivial⟩

theorem inner_notify (u : NotificationUpdate) : Inner (notify u) :=
  .bind (inner_op rfl) fun _ => inner_op rfl

theorem steady_op {o : Op} (h : o.isSteady = true) : Steady (op o) := ⟨h, fun _ => trivial⟩

/-- A predicate of the agent's keys and the lock flag survives a steady program, wherever it stops. -/
theorem Steady.wp {M : Machine daemonSig σ} {daemon : σ → Daemon} (hM : Lifts E M daemon)
    {D : Op → σ → Prop} {p : DProg α} {Q : α → σ → Prop} {x : σ} (h : Steady p)
    (hD : ∀ o x', o.isSteady = true → SameLock (daemon x) (daemon x') → D o x')
    (hQ : ∀ a x', SameLock (daemon x) (daemon x') → Q a x') : wp M D p Q x := by
  refine h.wp_rel (R := fun x x' => SameLock (daemon x) (daemon x')) (fun _ => .refl _)
    (fun _ _ _ => .trans) (fun o x a ho _ => ?_) hD hQ
  rw [hM.next]
  exact sameLock_next E ho _ a

theorem enclosed_reload (cfg : Config) : Enclosed (reloadSharedLocalCacheFromDiskIfMultiDevice cfg) := by
  refine .ite trivial <| .bind (enclosed_op rfl) fun r => ?_
  cases r with
  | error e => trivial
  | ok cache =>
    cases cache with
    | none => trivial
    | some cache =>
      exact .bind (slotSteps_persistDeviceUnlockSlotsFromCache cfg cache).slotRoutine.enclosed fun _ =>
        enclosed_op rfl

theorem inner_reload (cfg : Config) : Inner (reloadSharedLocalCacheFromDiskIfMultiDevice cfg) :=
  (enclosed_reload cfg).inner

theorem PinSlotSteps.enclosed {p : DProg α} (h : PinSlotSteps p) : Enclosed p :=
  h.mono fun o ho => by cases o <;> first | rfl | exact absurd ho Bool.false_ne_true

theorem PinSlotSteps.inner {p : DProg α} (h : PinSlotSteps p) : Inner p := h.enclosed.inner

theorem RefreshingSteps.enclosed {p : DProg α} (h : RefreshingSteps p) : Enclosed p :=
  h.mono fun o ho => by cases o <;> first | rfl | exact absurd ho Bool.false_ne_true

theorem ReconcilingSteps.inner {p : DProg α} (h : ReconcilingSteps p) : Inner p :=
  h.mono fun o ho => by cases o <;> first | rfl | exact absurd ho Bool.false_ne_true

theorem enclosed_ensureLocalCacheKeyForManualSync (E : Crates) (cfg : Config) :
    Enclosed (ensureLocalCacheKeyForManualSync E cfg) := by
  refine .bind (.when (enclosed_reload cfg)) fun _ => .bind (enclosed_op rfl) fun cache => ?_
  cases cache with
  | none => trivial
  | some cache =>
    refine .bind (enclosed_op rfl) fun key => .ite trivial <| .bind (.when (enclosed_op rfl)) fun _ =>
      .ite trivial <| .bind (pinSteps_requestPinDialog _ _).routine.enclosed fun r => ?_
    split
    · exact .bind (enclosed_op rfl) fun _ => trivial
    · trivial

theorem inner_ensureLocalCacheKeyForManualSync (E : Crates) (cfg : Config) :
    Inner (ensureLocalCacheKeyForManualSync E cfg) :=
  (enclosed_ensureLocalCacheKeyForManualSync E cfg).inner

theorem enclosed_writeEnvelopeLocalKeyCacheWithKey (E : Crates) (cfg : Config) (keys : List KeyTuple)
    (email url pin : String) (key : SymmetricKey) :
    Enclosed (writeEnvelopeLocalKeyCacheWithKey E cfg keys email url pin key) := by
  refine .bind (routine_encryptLocalCacheKeyWithPin E key pin).enclosed fun r => ?_
  cases r with
  | error e => trivial
  | ok r =>
    refine .bind (enclosed_op rfl) fun iv => ?_
    split
    · trivial
    · refine .bind (slotSteps_enrollNativeIfPossible E cfg _ key).slotRoutine.enclosed fun cache =>
        .bind (enclosed_op rfl) fun r => ?_
      cases r <;> trivial

theorem enclosed_writeEnvelopeLocalKeyCache (E : Crates) (cfg : Config) (keys : List KeyTuple)
    (email url pin : String) : Enclosed (writeEnvelopeLocalKeyCache E cfg keys email url pin) :=
  .bind (enclosed_op rfl) fun _ => enclosed_writeEnvelopeLocalKeyCacheWithKey E cfg _ _ _ _ _

/-- A PIN is set under the Local Cache Key in memory, or under a fresh one. -/
theorem enclosed_writePinCache (E : Crates) (cfg : Config) (keys : List KeyTuple) (pin : String) :
    Enclosed (writePinCache E cfg keys pin) := by
  refine .bind (enclosed_op rfl) fun key => ?_
  cases key with
  | some key => exact enclosed_writeEnvelopeLocalKeyCacheWithKey E cfg _ _ _ _ _
  | none => exact enclosed_writeEnvelopeLocalKeyCache E cfg _ _ _ _

theorem inner_forgetFiles (cfg : Config) (removeSharedCache : Bool) :
    Inner (forgetFiles cfg removeSharedCache) := by
  refine .bind (.ite (.bind (inner_op rfl) fun _ => trivial) trivial) fun _ =>
    .bind (.bind (inner_op rfl) fun cache => ?_) fun _ => .bind (inner_op rfl) fun _ =>
    .bind (inner_op rfl) fun _ => .bind (inner_op rfl) fun _ => trivial
  cases cache with
  | none => trivial
  | some cache => exact (slotReads_currentNativeUnlockSlot cfg cache).routine.inner

theorem inner_loadSharedCache : Inner loadSharedCache := by
  refine .bind (inner_op rfl) fun r => ?_
  cases r <;> trivial

/-- Operations that belong to no sync and leave the flag of a pending one. -/
def Op.isPreparing : Op → Bool
  | hold .apiClient _ | fetchSync _ | storePendingSync _ | swapPendingSync _ => false
  | _ => true

abbrev Preparing {α : Type} (p : DProg α) : Prop :=
  Prog.Only (S := daemonSig) (fun o : Op => o.isPreparing = true) p

theorem Op.isPreparing_of_isInner {o : Op} (h : o.isInner = true) : o.isPreparing = true := by
  cases o with
  | hold l m => cases l <;> first | rfl | exact h
  | _ => first | rfl | exact h

theorem Op.isPreparing_of_isConnecting {o : Op} (h : o.isConnecting = true) : o.isPreparing = true := by
  cases o <;> first | rfl | exact absurd h Bool.false_ne_true

theorem Inner.preparing {p : DProg α} (h : Inner p) : Preparing p := h.mono fun _ => Op.isPreparing_of_isInner

theorem Routine.preparing {p : DProg α} (h : Routine p) : Preparing p := h.inner.preparing

theorem Connecting.preparing {p : DProg α} (h : Connecting p) : Preparing p :=
  h.mono fun _ => Op.isPreparing_of_isConnecting

theorem preparing_op {o : Op} (h : o.isPreparing = true) : Preparing (op o) := ⟨h, fun _ => trivial⟩

/-- Preparing operations that leave the connection to the hub. -/
def Op.isUnlocking : Op → Bool
  | setNotificationClient _ => false
  | o => o.isPreparing

abbrev Unlocking {α : Type} (p : DProg α) : Prop :=
  Prog.Only (S := daemonSig) (fun o : Op => o.isUnlocking = true) p

theorem Op.isPreparing_of_isUnlocking {o : Op} (h : o.isUnlocking = true) : o.isPreparing = true := by
  cases o <;> first | rfl | exact h

theorem Op.isUnlocking_of_isInner {o : Op} (h : o.isInner = true) : o.isUnlocking = true := by
  cases o with
  | hold l m => cases l <;> first | rfl | exact h
  | _ => first | rfl | exact h

theorem Unlocking.preparing {p : DProg α} (h : Unlocking p) : Preparing p :=
  h.mono fun _ => Op.isPreparing_of_isUnlocking

theorem Inner.unlocking {p : DProg α} (h : Inner p) : Unlocking p := h.mono fun _ => Op.isUnlocking_of_isInner

theorem Routine.unlocking {p : DProg α} (h : Routine p) : Unlocking p := h.inner.unlocking

theorem unlocking_op {o : Op} (h : o.isUnlocking = true) : Unlocking (op o) := ⟨h, fun _ => trivial⟩

theorem LoadingSteps.unlocking {p : DProg α} (h : LoadingSteps p) : Unlocking p :=
  h.mono fun o ho => by cases o <;> first | rfl | exact absurd ho Bool.false_ne_true

theorem unlocking_finishNativeUnlockResponse (E : Crates) (cfg : Config) (cache : LocalKeyCacheFile)
    (msg : String) : Unlocking (finishNativeUnlockResponse E cfg cache msg) := by
  refine .bind (slotReads_decryptWithNative E cfg cache).routine.unlocking fun r => ?_
  cases r with
  | error e => trivial
  | ok opened => exact .bind (unlocking_op rfl) fun _ => (loadingSteps_finishUnlockWithJson E _ msg).unlocking

theorem preparing_tryRestoreApiSession (E : Crates) (cfg : Config) (pin : String) :
    Preparing (tryRestoreApiSession E cfg pin) := by
  refine .bind (preparing_op rfl) fun client => .ite trivial <|
    .bind routine_loadDeviceSession.preparing fun session => ?_
  split
  · trivial
  · split
    · trivial
    · refine .bind (preparing_op rfl) fun r => ?_
      cases r with
      | error e => exact .bind (preparing_op rfl) fun _ => trivial
      | ok grant =>
        exact .bind (hubSteps_connectIfAuthenticated cfg _).connecting.preparing fun _ =>
          .bind (savingSteps_saveDeviceSession E _ _).routine.preparing fun _ => preparing_op rfl

/-- Operations that neither fetch the vault nor clear the flag of a pending sync. -/
def Op.isAside : Op → Bool
  | fetchSync _ | storePendingSync false | swapPendingSync _ => false
  | _ => true

abbrev Aside {α : Type} (p : DProg α) : Prop :=
  Prog.Only (S := daemonSig) (fun o : Op => o.isAside = true) p

theorem Op.isAside_of_isPreparing {o : Op} (h : o.isPreparing = true) : o.isAside = true := by
  cases o <;> first | rfl | exact absurd h Bool.false_ne_true

theorem Preparing.aside {p : DProg α} (h : Preparing p) : Aside p := h.mono fun _ => Op.isAside_of_isPreparing

theorem Routine.aside {p : DProg α} (h : Routine p) : Aside p := h.preparing.aside

theorem aside_op {o : Op} (h : o.isAside = true) : Aside (op o) := ⟨h, fun _ => trivial⟩

/-- Those of them that leave the connection to the hub. -/
def Op.isApart : Op → Bool
  | setNotificationClient _ => false
  | o => o.isAside

abbrev Apart {α : Type} (p : DProg α) : Prop :=
  Prog.Only (S := daemonSig) (fun o : Op => o.isApart = true) p

theorem Op.isAside_of_isApart {o : Op} (h : o.isApart = true) : o.isAside = true := by
  cases o <;> first | rfl | exact h

theorem Op.isApart_of_isUnlocking {o : Op} (h : o.isUnlocking = true) : o.isApart = true := by
  cases o <;> first | rfl | exact absurd h Bool.false_ne_true

theorem Apart.aside {p : DProg α} (h : Apart p) : Aside p := h.mono fun _ => Op.isAside_of_isApart

theorem Unlocking.apart {p : DProg α} (h : Unlocking p) : Apart p := h.mono fun _ => Op.isApart_of_isUnlocking

theorem Routine.apart {p : DProg α} (h : Routine p) : Apart p := h.unlocking.apart

theorem apart_op {o : Op} (h : o.isApart = true) : Apart (op o) := ⟨h, fun _ => trivial⟩

theorem apart_notify (u : NotificationUpdate) : Apart (notify u) := (inner_notify u).unlocking.apart

theorem apart_lockVault : Apart lockVault :=
  .bind (apart_op rfl) fun _ => .ite (.bind (apart_op rfl) fun _ => .bind (apart_op rfl) fun _ =>
    .bind (apart_op rfl) fun _ => .bind (apart_op rfl) fun _ => trivial) trivial

theorem apart_handleLock : Apart handleLock := by
  refine .bind (apart_op rfl) fun _ => .ite trivial (.bind apart_lockVault fun r => ?_)
  cases r <;> trivial

theorem apart_buildStatusResponse (cfg : Config) (json : Bool) : Apart (buildStatusResponse cfg json) :=
  .bind (apart_op rfl) fun _ => .bind (apart_op rfl) fun _ => .bind (apart_op rfl) fun _ =>
    .bind (apart_op rfl) fun _ => .bind (apart_op rfl) fun _ => .bind (apart_op rfl) fun _ =>
      .bind (apart_op rfl) fun _ => trivial

theorem apart_saveSessionOfClient (E : Crates) (pin : Option String) : Apart (saveSessionOfClient E pin) := by
  refine .bind (apart_op rfl) fun _ => .bind (apart_op rfl) fun client => ?_
  cases client with
  | none => exact apart_op rfl
  | some client => exact .bind (savingSteps_saveDeviceSession E client pin).routine.apart fun _ => apart_op rfl

theorem apart_handleSetPin (E : Crates) (cfg : Config) (pin : String) : Apart (handleSetPin E cfg pin) := by
  refine .ite trivial <| .bind (apart_op rfl) fun keys => .ite trivial <|
    .bind (enclosed_writePinCache E cfg keys pin).inner.unlocking.apart fun r => ?_
  cases r with
  | error e => trivial
  | ok r =>
    exact .bind (apart_op rfl) fun _ => .bind (apart_op rfl) fun _ =>
      .bind (apart_saveSessionOfClient E _) fun _ => trivial

theorem aside_handleTokenRefresh (E : Crates) (cfg : Config) : Aside (handleTokenRefresh E cfg) := by
  refine .bind (aside_op rfl) fun _ => .bind (aside_op rfl) fun client => ?_
  cases client with
  | none => exact aside_op rfl
  | some client =>
    refine .bind (aside_op rfl) fun now => .ite (.bind (.ite trivial ?_) fun r => ?_) (aside_op rfl)
    · refine .bind (aside_op rfl) fun r => ?_
      cases r with
      | error e => trivial
      | ok grant => exact .bind (aside_op rfl) fun _ => trivial
    · cases r with
      | error e => exact aside_op rfl
      | ok client =>
        exact .bind (savingSteps_saveDeviceSession E client none).routine.aside fun _ =>
          .bind (hubSteps_connectIfAuthenticated cfg client).connecting.preparing.aside fun _ => aside_op rfl

theorem apart_handleAutoLockTick (cfg : Config) (idle : Nat) : Apart (handleAutoLockTick cfg idle) :=
  .ite (.bind (apart_op rfl) fun _ => .ite (.bind (apart_op rfl) fun _ =>
    .ite (.ite (.bind apart_lockVault fun _ => trivial) trivial) trivial) trivial) trivial

/-! ### The steady programs -/

/-- Setting a PIN is done with enclosed operations and the session. -/
theorem only_handleSetPin {P : Op → Prop} (henclosed : ∀ o : Op, o.isEnclosed = true → P o)
    (hcore : ∀ o : Op, o.keepsCore = true → P o) (E : Crates) (cfg : Config) (pin : String) :
    Only (S := daemonSig) P (handleSetPin E cfg pin) := by
  refine .ite trivial <| .bind (only_op (henclosed _ rfl)) fun keys => .ite trivial <|
    .bind ((enclosed_writePinCache E cfg keys pin).mono henclosed) fun r => ?_
  cases r with
  | error e => trivial
  | ok r =>
    exact .bind (only_op (henclosed _ rfl)) fun _ => .bind (only_op (henclosed _ rfl)) fun _ =>
      .bind ((keepsCore_saveSessionOfClient E _).mono hcore) fun _ => trivial

/-- So is the offer of a PIN at the start. -/
theorem only_promptSetupPin {P : Op → Prop} (henclosed : ∀ o : Op, o.isEnclosed = true → P o)
    (hcore : ∀ o : Op, o.keepsCore = true → P o) (E : Crates) (cfg : Config) :
    Only (S := daemonSig) P (promptSetupPin E cfg) := by
  refine .bind (Phases.routine_askNewPin.enclosed.mono henclosed) fun pin => ?_
  cases pin with
  | none => trivial
  | some pin =>
    refine .bind (only_op (henclosed _ rfl)) fun keys =>
      .bind ((enclosed_writeEnvelopeLocalKeyCache E cfg _ _ _ _).mono henclosed) fun r => ?_
    cases r with
    | error e => trivial
    | ok r =>
      exact .bind (only_op (henclosed _ rfl)) fun _ => .bind (only_op (henclosed _ rfl)) fun _ =>
        (keepsCore_saveSessionOfClient E _).mono hcore

theorem Op.isSteady_of_isEnclosed {o : Op} (h : o.isEnclosed = true) : o.isSteady = true :=
  isSteady_of_isInner (isInner_of_isEnclosed h)

theorem Op.isSteady_of_keepsCore {o : Op} (h : o.keepsCore = true) : o.isSteady = true :=
  isSteady_of_isQuiet (isQuiet_of_keepsCore h)

theorem steady_handleSetPin (E : Crates) (cfg : Config) (pin : String) : Steady (handleSetPin E cfg pin) :=
  only_handleSetPin (fun _ => Op.isSteady_of_isEnclosed) (fun _ => Op.isSteady_of_keepsCore) E cfg pin

theorem steady_promptSetupPin (E : Crates) (cfg : Config) : Steady (promptSetupPin E cfg) :=
  only_promptSetupPin (fun _ => Op.isSteady_of_isEnclosed) (fun _ => Op.isSteady_of_keepsCore) E cfg

theorem Op.isSteady_of_isAnswering {o : Op} (h : o.isAnswering = true) : o.isSteady = true := by
  cases o <;> first | rfl | exact absurd h Bool.false_ne_true

theorem steady_handleUnlockedRequest (cfg : Config) (request : SshAgentUIRequest) :
    Steady (handleUnlockedRequest cfg request) :=
  (answering_handleUnlockedRequest cfg request).mono fun _ => Op.isSteady_of_isAnswering

/-! ### The agent keeps running -/

theorem isRunning_next (E : Crates) (o : Op) {s : Daemon} (a : o.Ans) (h : s.agent.isRunning = true) :
    (next E o s a).agent.isRunning = true := by
  cases o <;> first
    | exact h
    | (simp only [next, Agent.lock_isRunning, Agent.setKeys_isRunning,
        Agent.setPublicIdentities_isRunning]; exact h)
    | (cases a <;> first | exact h | rfl)

theorem isRunning_of_steps {p p' : DProg α} {tr : List Event} (h : Steps (machine E) p s tr p' s')
    (hs : s.agent.isRunning = true) : s'.agent.isRunning = true := by
  induction h with
  | refl => exact hs
  | step _ _ ih => exact ih (isRunning_next E _ _ hs)

theorem wp_isRunning (p : DProg α) (hs : s.agent.isRunning = true) :
    wp (machine E) (fun _ _ => True) p (fun _ s' => s'.agent.isRunning = true) s :=
  wp_of_steps (fun _ _ _ _ _ => trivial) fun _ _ _ h => isRunning_of_steps h hs

/-- The main loop is only entered with the agent started. -/
theorem Started.isRunning {cfg₀ : Config} {s₀ : Daemon} (h : Started (machine E) E cfg₀ cfg s₀ s) :
    s.agent.isRunning = true := by
  obtain ⟨-, hsteps⟩ := h
  have hany : ∀ {β : Type} (p : DProg β) s, wp (machine E) (fun _ _ => True) p (fun _ _ => True) s :=
    fun p s => wp_of_steps (fun _ _ _ _ _ => trivial) fun _ _ _ _ => trivial
  have hup : ∀ cfg cache login s, wp (machine E) (fun _ _ => True) (bringUp E cfg cache login)
      (fun up s' => up = true → s'.agent.isRunning = true) s := by
    refine fun cfg cache login s => wp_perform_bind.2 ⟨trivial, fun started _ => ?_⟩
    cases started with
    | false => exact nofun
    | true => exact (wp_isRunning _ rfl).post fun _ _ h _ => h
  have hwith : ∀ cfg cache login s, wp (machine E) (fun _ _ => True) (startWith E cfg cache login)
      (fun r s' => r.isSome = true → s'.agent.isRunning = true) s := by
    refine fun cfg cache login s => wp_bind .. |>.2 ((hup cfg cache login s).post fun up s₁ h₁ => ?_)
    cases up with
    | false => exact nofun
    | true => exact (wp_isRunning _ (h₁ rfl)).post fun _ _ h _ => h
  have hstart : wp (machine E) (fun _ _ => True) (startUp E cfg₀)
      (fun r s' => r.isSome = true → s'.agent.isRunning = true) s₀ := by
    refine wp_bind .. |>.2 ((hany _ s₀).post fun cache s₁ _ => ?_)
    cases cache with
    | some cache => exact hwith _ _ _ s₁
    | none =>
      refine wp_bind .. |>.2 ((hany _ s₁).post fun r s₂ _ => ?_)
      cases r with
      | none => exact nofun
      | some cfg => exact wp_bind .. |>.2 ((hany _ s₂).post fun login s₃ _ => hwith _ _ _ s₃)
  exact hstart.of_ret hsteps rfl

theorem Step.isRunning {t : Turn} {tr : List Event} (h : Step (machine E) E cfg s t tr s')
    (hs : s.agent.isRunning = true) : s'.agent.isRunning = true := by
  cases h with
  | event hr hsteps => exact isRunning_of_steps hsteps (by cases hr <;> exact hs)
  | dropped _ hsteps _ => exact isRunning_of_steps hsteps hs
  | arrives ha => cases ha; exact hs
  | request hsteps => exact isRunning_of_steps hsteps hs

theorem Reachable.isRunning {cfg₀ : Config} (h : Reachable E cfg₀ cfg s) : s.agent.isRunning = true :=
  ReachableIf.induct h (fun _ _ hs => hs.isRunning) fun _ _ _ _ hstep _ hs => hstep.isRunning hs

variable {β : Type} {M : Machine daemonSig σ} {x : σ}

theorem wp_gatePinValidator {inner : String → Option β} (pin : String) :
    wp M (fun _ _ => True) (gatePinValidator inner pin) (fun r _ => ∀ b, r = some b → inner pin = some b) x := by
  refine ⟨trivial, fun _ _ => ⟨trivial, fun wait _ => ?_⟩⟩
  cases wait with
  | some wait => exact fun _ hno => nomatch hno
  | none => exact ⟨trivial, fun _ _ => ⟨trivial, fun _ _ _ h => h⟩⟩

/-- A PIN that is accepted was submitted, and the validator opens something with it. -/
theorem wp_validateSubmitted {inner : String → Option β} (pins : List String) :
    wp M (fun _ _ => True) (validateSubmitted inner pins)
      (fun r _ => ∀ pin b, r = some (pin, b) → pin ∈ pins ∧ inner pin = some b) x := by
  induction pins generalizing x with
  | nil => exact fun _ _ hno => nomatch hno
  | cons pin rest ih =>
    refine wp_bind .. |>.2 ((wp_gatePinValidator pin).post fun opened x' ho => ?_)
    cases opened with
    | some b =>
      intro pin' b' h
      obtain ⟨rfl, rfl⟩ := Prod.mk.inj (Option.some.inj h)
      exact ⟨List.mem_cons_self .., ho b rfl⟩
    | none => exact ih.post fun _ _ h pin' b' hb => ⟨List.mem_cons_of_mem _ (h pin' b' hb).1, (h pin' b' hb).2⟩

end SshWarden
