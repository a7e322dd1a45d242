import SshWarden.Control

/-!
# What the shared programs perform

The handlers share the programs below. Each is given a list of operations it keeps to; that such a program
leaves something alone is then read off the list.
-/

namespace SshWarden
open Prog

variable {α : Type} {P : Op → Prop} {o : Op}

theorem only_op (h : P o) : Only (S := daemonSig) P (op o) := ⟨h, fun _ => trivial⟩

theorem only_notify {u : NotificationUpdate} (hnow : P .now) (h : ∀ now, P (.notification now u)) :
    Only (S := daemonSig) P (notify u) :=
  .bind (only_op hnow) fun now => only_op (h now)

/-- The operations of the PIN throttle and of the PIN dialog. -/
def Op.isPinStep : Op → Bool
  | now | checkPinLockout _ | recordPin _ _ | pinDialog _ => true
  | _ => false

abbrev PinSteps (p : DProg α) : Prop := Only (S := daemonSig) (fun o : Op => o.isPinStep = true) p

theorem pinSteps_pinLockoutRemaining : PinSteps pinLockoutRemaining :=
  .bind (only_op rfl) fun _ => only_op rfl

theorem pinSteps_recordPinAttempt (success : Bool) : PinSteps (recordPinAttempt success) :=
  .bind (only_op rfl) fun _ => only_op rfl

theorem pinSteps_gatePinValidator (inner : String → Option α) (pin : String) :
    PinSteps (gatePinValidator inner pin) := by
  refine .bind pinSteps_pinLockoutRemaining fun lockout => ?_
  cases lockout with
  | some d => trivial
  | none => exact .bind (pinSteps_recordPinAttempt _) fun _ => trivial

theorem pinSteps_validateSubmitted (inner : String → Option α) (pins : List String) :
    PinSteps (validateSubmitted inner pins) := by
  induction pins with
  | nil => trivial
  | cons pin rest ih =>
    refine .bind (pinSteps_gatePinValidator inner pin) fun opened => ?_
    cases opened with
    | some a => trivial
    | none => exact ih

theorem pinSteps_requestPinDialog (context : Option UnlockRequestContext) (inner : String → Option α) :
    PinSteps (requestPinDialog context inner) :=
  .bind (only_op rfl) fun pins => pinSteps_validateSubmitted inner pins

/-- Opening an unlock slot. -/
def Op.isSlotRead : Op → Bool
  | loadUnlockSlots | nativeDecrypt _ => true
  | _ => false

/-- Making and keeping the unlock slots of the device. -/
def Op.isSlotStep : Op → Bool
  | loadUnlockSlots | saveUnlockSlots _ | nativeAvailable | nativeEncrypt _ => true
  | _ => false

abbrev SlotReads (p : DProg α) : Prop := Only (S := daemonSig) (fun o : Op => o.isSlotRead = true) p

abbrev SlotSteps (p : DProg α) : Prop := Only (S := daemonSig) (fun o : Op => o.isSlotStep = true) p

theorem only_loadDeviceUnlockSlots (h : P .loadUnlockSlots) : Only (S := daemonSig) P loadDeviceUnlockSlots := by
  refine .bind (only_op h) fun slots => ?_
  cases slots <;> trivial

theorem slotReads_currentNativeUnlockSlot (cfg : Config) (cache : LocalKeyCacheFile) :
    SlotReads (currentNativeUnlockSlot cfg cache) :=
  .bind (only_loadDeviceUnlockSlots rfl) fun _ => .ite trivial trivial

theorem slotReads_decryptWithNative (E : Crates) (cfg : Config) (cache : LocalKeyCacheFile) :
    SlotReads (decryptEnvelopeLocalKeyCacheWithNative E cfg cache) := by
  refine .bind (slotReads_currentNativeUnlockSlot cfg cache) fun slot => ?_
  cases slot with
  | none => trivial
  | some slot =>
    refine .bind (only_op rfl) fun encoded => ?_
    cases encoded with
    | error e => trivial
    | ok encoded =>
      dsimp only
      split <;> trivial

theorem slotSteps_nativeEncryptDeviceSlot (E : Crates) (key : SymmetricKey) :
    SlotSteps (nativeEncryptDeviceSlot E key) := by
  refine .bind (only_op rfl) fun slot => ?_
  cases slot with
  | error e => trivial
  | ok slot => exact .bind (only_loadDeviceUnlockSlots rfl) fun _ => only_op rfl

theorem slotSteps_enrollNativeForLocalKeyCache (E : Crates) (cfg : Config) (cache : LocalKeyCacheFile)
    (key : SymmetricKey) : SlotSteps (enrollNativeForLocalKeyCache E cfg cache key) := by
  refine .bind (only_op rfl) fun _ => .ite trivial (.ite ?_ ?_)
  · refine .bind (slotSteps_nativeEncryptDeviceSlot E key) fun r => ?_
    cases r <;> trivial
  · refine .bind (only_op rfl) fun r => ?_
    cases r <;> trivial

theorem slotSteps_enrollNativeIfPossible (E : Crates) (cfg : Config) (cache : LocalKeyCacheFile)
    (key : SymmetricKey) : SlotSteps (enrollNativeIfPossible E cfg cache key) := by
  refine .bind (slotSteps_enrollNativeForLocalKeyCache E cfg cache key) fun r => ?_
  cases r <;> trivial

theorem slotSteps_persistDeviceUnlockSlotsFromCache (cfg : Config) (cache : LocalKeyCacheFile) :
    SlotSteps (persistDeviceUnlockSlotsFromCache cfg cache) :=
  .ite trivial <| .bind (only_loadDeviceUnlockSlots rfl) fun _ => .ite (only_op rfl) trivial

theorem slotSteps_enrollDevicePlatformSlotsIfMissing (E : Crates) (cfg : Config) (key : SymmetricKey) :
    SlotSteps (enrollDevicePlatformSlotsIfMissing E cfg key) :=
  .ite trivial <| .bind (only_loadDeviceUnlockSlots rfl) fun _ =>
    .ite (.bind (only_op rfl) fun _ =>
      .ite (.bind (slotSteps_nativeEncryptDeviceSlot E key) fun _ => trivial) trivial) trivial

/-- Making a PIN slot and writing the cache. -/
def Op.isPinSlotStep : Op → Bool
  | randomIv | randomPinSalt | saveLocalKeyCache _ | writeLocalKeyCache _ => true
  | _ => false

abbrev PinSlotSteps (p : DProg α) : Prop := Only (S := daemonSig) (fun o : Op => o.isPinSlotStep = true) p

theorem only_encryptLocalCacheKeyWithPin (hsalt : P .randomPinSalt) (hiv : P .randomIv) (E : Crates)
    (key : SymmetricKey) (pin : String) : Only (S := daemonSig) P (encryptLocalCacheKeyWithPin E key pin) := by
  refine .bind (only_op hsalt) fun salt => .bind (only_op hiv) fun iv => ?_
  split <;> trivial

theorem pinSlotSteps_migratePinSlotIfNeeded (E : Crates) (cache : LocalKeyCacheFile) (key : SymmetricKey)
    (pin : String) : PinSlotSteps (migratePinSlotIfNeeded E cache key pin) := by
  have hwrap : PinSlotSteps (encryptLocalCacheKeyWithPin E key pin) :=
    only_encryptLocalCacheKeyWithPin (P := fun o => o.isPinSlotStep = true) rfl rfl E key pin
  refine .ite (.bind (.bind hwrap fun r => ?_) fun r => ?_) trivial
  · cases r with
    | error e => trivial
    | ok r =>
      refine .bind (only_op rfl) fun r => ?_
      cases r <;> trivial
  · cases r with
    | error e => trivial
    | ok migrated => exact only_op rfl

/-- The steps after an unlock slot was opened. -/
def Op.isLoadingStep : Op → Bool
  | writeKeyNames _ | writeCachedKeyTuples _ | agentSetKeys _ | storeVaultLocked false => true
  | _ => false

abbrev LoadingSteps (p : DProg α) : Prop := Only (S := daemonSig) (fun o : Op => o.isLoadingStep = true) p

theorem loadingSteps_finishUnlockWithJson (E : Crates) (json msg : String) :
    LoadingSteps (finishUnlockWithJson E json msg) := by
  unfold finishUnlockWithJson
  split
  · trivial
  · exact .bind (only_op rfl) fun _ => .bind (only_op rfl) fun _ => .bind (only_op rfl) fun _ =>
      .ite (.bind (only_op rfl) fun _ => trivial) trivial

/-- The steps of connecting to the hub. -/
def Op.isHubStep : Op → Bool
  | setNotificationClient _ | discoverNotificationsUrl _ | now | notification _ (.beginConnect _)
  | notification _ (.applyStatus _) | notification _ (.markClientFailed _) | connectHub _ _ => true
  | _ => false

/-- The steps of saving the session. -/
def Op.isSavingStep : Op → Bool
  | loadSession | saveSession _ | randomIv => true
  | _ => false

/-- The steps of saving the session and of connecting to the hub. -/
def Op.isSessionStep : Op → Bool
  | loadSession | saveSession _ | randomIv | setNotificationClient _ | discoverNotificationsUrl _ | now
  | notification _ (.beginConnect _) | notification _ (.applyStatus _) | notification _ (.markClientFailed _)
  | connectHub _ _ => true
  | _ => false

abbrev HubSteps (p : DProg α) : Prop := Only (S := daemonSig) (fun o : Op => o.isHubStep = true) p

abbrev SavingSteps (p : DProg α) : Prop := Only (S := daemonSig) (fun o : Op => o.isSavingStep = true) p

abbrev SessionSteps (p : DProg α) : Prop := Only (S := daemonSig) (fun o : Op => o.isSessionStep = true) p

theorem only_resolveNotificationsUrl (h : ∀ client, P (.discoverNotificationsUrl client)) (cfg : Config)
    (client : Option BitwardenClient) : Only (S := daemonSig) P (resolveNotificationsUrl cfg client) := by
  unfold resolveNotificationsUrl
  split
  · trivial
  · split
    · trivial
    · refine .bind (only_op (h _)) fun url => ?_
      cases url <;> trivial

theorem hubSteps_connectNotificationClient (cfg : Config) (client : Option BitwardenClient) (token : String) :
    HubSteps (connectNotificationClient cfg client token) := by
  refine .bind (only_op rfl) fun _ => .bind (only_resolveNotificationsUrl (fun _ => rfl) cfg client) fun url =>
    .bind (only_notify rfl fun _ => rfl) fun _ => .bind (only_op rfl) fun r => ?_
  cases r with
  | error e => exact only_notify rfl fun _ => rfl
  | ok _ => exact .bind (only_op rfl) fun _ => only_notify rfl fun _ => rfl

theorem hubSteps_connectIfAuthenticated (cfg : Config) (client : BitwardenClient) :
    HubSteps (connectIfAuthenticated cfg client) := by
  unfold connectIfAuthenticated
  split
  · exact hubSteps_connectNotificationClient cfg _ _
  · trivial

theorem HubSteps.session {p : DProg α} (h : HubSteps p) : SessionSteps p :=
  h.mono fun o ho => by
    cases o with
    | notification _ u => cases u <;> first | rfl | exact ho
    | _ => first | rfl | exact ho

theorem only_loadDeviceSession (h : P .loadSession) : Only (S := daemonSig) P loadDeviceSession := by
  refine .bind (only_op h) fun session => ?_
  cases session <;> trivial

theorem SavingSteps.session {p : DProg α} (h : SavingSteps p) : SessionSteps p :=
  h.mono fun o ho => by cases o <;> first | rfl | exact absurd ho Bool.false_ne_true

theorem savingSteps_saveDeviceSession (E : Crates) (client : BitwardenClient) (pin : Option String) :
    SavingSteps (saveDeviceSession E client pin) := by
  unfold saveDeviceSession
  split
  · trivial
  · refine .bind (only_loadDeviceSession rfl) fun existing => .bind ?_ fun token =>
      .bind (only_op rfl) fun _ => trivial
    cases pin with
    | none => trivial
    | some pin =>
      refine .bind (only_op rfl) fun iv => ?_
      split <;> trivial

/-- The steps of writing the cache anew. -/
def Op.isRefreshingStep : Op → Bool
  | readLocalKeyCache | readLocalCacheKey | randomIv | saveLocalKeyCache _ | writeLocalKeyCache _
  | writeLocalCacheKey _ | now | notification _ .markCacheRefreshed
  | notification _ (.markCacheStale _) => true
  | _ => false

/-- The steps of taking over fetched keys. -/
def Op.isReconcilingStep : Op → Bool
  | readFingerprints | retainMemory _ | writePublicKeyIdentityTuples _ | writeCachedKeyTuples _
  | writeFingerprints _ | readLocalKeyCache | readLocalCacheKey | randomIv | saveLocalKeyCache _
  | writeLocalKeyCache _ | writeLocalCacheKey _ | now | notification _ .markCacheRefreshed
  | notification _ (.markCacheStale _) => true
  | _ => false

/-- The steps of a sync. -/
def Op.isSyncStep : Op → Bool
  | hold .apiClient _ | release .apiClient | peekApiClient | fetchSync _ | writeKeySelectorFiles _
  | syncManagedSshConfig _ | writeKeyNames _ | loadVaultLocked | agentSetKeys _
  | notification _ .recordSuccessfulSync => true
  | o => o.isReconcilingStep

/-- The steps of a sync that was put off. -/
def Op.isPendingSyncStep : Op → Bool
  | swapPendingSync _ | storePendingSync true => true
  | o => o.isSyncStep

abbrev RefreshingSteps (p : DProg α) : Prop := Only (S := daemonSig) (fun o : Op => o.isRefreshingStep = true) p

abbrev ReconcilingSteps (p : DProg α) : Prop :=
  Only (S := daemonSig) (fun o : Op => o.isReconcilingStep = true) p

abbrev SyncSteps (p : DProg α) : Prop := Only (S := daemonSig) (fun o : Op => o.isSyncStep = true) p

abbrev PendingSyncSteps (p : DProg α) : Prop := Only (S := daemonSig) (fun o : Op => o.isPendingSyncStep = true) p

theorem Op.isReconcilingStep_of_isRefreshingStep (h : o.isRefreshingStep = true) : o.isReconcilingStep = true := by
  cases o with
  | notification _ u => cases u <;> first | rfl | exact h
  | _ => first | exact h | rfl

theorem Op.isSyncStep_of_isReconcilingStep (h : o.isReconcilingStep = true) : o.isSyncStep = true := by
  cases o with
  | notification _ u => cases u <;> first | rfl | exact h
  | _ => first | exact h | rfl | exact absurd h Bool.false_ne_true

theorem Op.isPendingSyncStep_of_isSyncStep (h : o.isSyncStep = true) : o.isPendingSyncStep = true := by
  cases o <;> first | exact h | rfl | exact absurd h Bool.false_ne_true

theorem refreshingSteps_refreshEnvelopeLocalKeyCache (E : Crates) (cfg : Config) (keys : List KeyTuple)
    (existing : LocalKeyCacheFile) (key : SymmetricKey) :
    RefreshingSteps (refreshEnvelopeLocalKeyCache E cfg keys existing key) := by
  refine .bind (only_op rfl) fun iv => ?_
  split
  · trivial
  · refine .bind (only_op rfl) fun r => ?_
    cases r <;> trivial

/-- The end of the reconciliation. -/
theorem refreshingSteps_refreshCache (E : Crates) (cfg : Config) (keys : List KeyTuple) :
    RefreshingSteps (do
      let existingCache ← op .readLocalKeyCache
      let localCacheKey ← op .readLocalCacheKey
      match existingCache, localCacheKey with
      | some existing, some key =>
        match ← refreshEnvelopeLocalKeyCache E cfg keys existing key with
        | .ok cache =>
          op (.writeLocalKeyCache (some cache))
          op (.writeLocalCacheKey (some key))
          notify .markCacheRefreshed
        | .error e => notify (.markCacheStale e)
      | _, _ => return ()) := by
  refine .bind (only_op rfl) fun existing => .bind (only_op rfl) fun key => ?_
  split
  · refine .bind (refreshingSteps_refreshEnvelopeLocalKeyCache E cfg _ _ _) fun r => ?_
    cases r with
    | error e => exact only_notify rfl fun _ => rfl
    | ok cache => exact .bind (only_op rfl) fun _ => .bind (only_op rfl) fun _ => only_notify rfl fun _ => rfl
  · trivial

theorem reconcilingSteps_reconcileSyncedKeyState (E : Crates) (cfg : Config) (keys : List KeyTuple) :
    ReconcilingSteps (reconcileSyncedKeyState E cfg keys) :=
  .bind (only_op rfl) fun _ => .bind (.ite trivial (.bind (only_op rfl) fun _ => trivial)) fun _ =>
    .bind (only_op rfl) fun _ => .bind (only_op rfl) fun _ => .bind (only_op rfl) fun _ =>
    (refreshingSteps_refreshCache E cfg keys).mono fun _ => Op.isReconcilingStep_of_isRefreshingStep

theorem only_syncSshKeys (h : ∀ client, P (.fetchSync client)) (client : BitwardenClient) :
    Only (S := daemonSig) P (syncSshKeys client) :=
  .ite trivial (.ite trivial (only_op (h _)))

theorem syncSteps_doSync (E : Crates) (cfg : Config) : SyncSteps (doSync E cfg) := by
  have hrelease : ∀ r : Except String Nat, SyncSteps (do op (.release .apiClient); return r) :=
    fun r => .bind (only_op rfl) fun _ => trivial
  refine .bind (only_op rfl) fun _ => .bind (only_op rfl) fun client => ?_
  cases client with
  | none => exact hrelease _
  | some client =>
    refine .ite (hrelease _) (.bind (only_syncSshKeys (fun _ => rfl) client) fun r => ?_)
    cases r with
    | error e => exact hrelease _
    | ok keys =>
      have hdone : SyncSteps (notify .recordSuccessfulSync) := only_notify rfl fun _ => rfl
      have hreconcile : SyncSteps (reconcileSyncedKeyState E cfg (keys.map DecryptedSshKey.tuple)) :=
        (reconcilingSteps_reconcileSyncedKeyState E cfg _).mono fun _ => Op.isSyncStep_of_isReconcilingStep
      refine .bind (only_op rfl) fun _ => .bind (only_op rfl) fun _ => .bind hreconcile fun _ =>
        .bind (only_op rfl) fun _ => .bind (only_op rfl) fun _ => .bind (only_op rfl) fun locked => .ite ?_ ?_
      · exact .bind (only_op rfl) fun loaded => .ite (.bind hdone fun _ => trivial) trivial
      · exact .bind hdone fun _ => trivial

theorem pendingSyncSteps_resolvePendingSync (E : Crates) (cfg : Config) :
    PendingSyncSteps (resolvePendingSync E cfg) := by
  have hsync : PendingSyncSteps (doSync E cfg) :=
    (syncSteps_doSync E cfg).mono fun _ => Op.isPendingSyncStep_of_isSyncStep
  refine .bind (only_op rfl) fun pending => .ite trivial (.bind hsync fun r => ?_)
  cases r with
  | ok n => trivial
  | error e => exact .bind (only_op rfl) fun _ => trivial

end SshWarden
