import SshWarden.Turns
import SshWarden.Steady

/-!
# What the main loop leaves to the handlers

The main loop neither starts the agent nor answers a request: it opens no authorization dialog, looks up and
remembers no approval, and broadcasts nothing.
-/

namespace SshWarden
open Prog

variable {α : Type}

def Op.isMainStep : Op → Bool
  | startAgent | tryMemoryContains _ | insertMemory _ | authDialog _ | broadcast _ _ => false
  | _ => true

abbrev MainSteps (p : DProg α) : Prop := Prog.Only (S := daemonSig) (fun o : Op => o.isMainStep = true) p

theorem mainSteps_notify (u : NotificationUpdate) : MainSteps (notify u) :=
  .bind (only_op rfl) fun _ => only_op rfl

theorem PinSteps.main {p : DProg α} (h : PinSteps p) : MainSteps p :=
  h.mono fun o ho => by cases o <;> first | rfl | exact absurd ho Bool.false_ne_true

theorem SlotReads.main {p : DProg α} (h : SlotReads p) : MainSteps p :=
  h.mono fun o ho => by cases o <;> first | rfl | exact absurd ho Bool.false_ne_true

theorem SlotSteps.main {p : DProg α} (h : SlotSteps p) : MainSteps p :=
  h.mono fun o ho => by cases o <;> first | rfl | exact absurd ho Bool.false_ne_true

theorem PinSlotSteps.main {p : DProg α} (h : PinSlotSteps p) : MainSteps p :=
  h.mono fun o ho => by cases o <;> first | rfl | exact absurd ho Bool.false_ne_true

theorem LoadingSteps.main {p : DProg α} (h : LoadingSteps p) : MainSteps p :=
  h.mono fun o ho => by cases o <;> first | rfl | exact absurd ho Bool.false_ne_true

theorem HubSteps.main {p : DProg α} (h : HubSteps p) : MainSteps p :=
  h.mono fun o ho => by cases o <;> first | rfl | exact absurd ho Bool.false_ne_true

theorem SavingSteps.main {p : DProg α} (h : SavingSteps p) : MainSteps p :=
  h.mono fun o ho => by cases o <;> first | rfl | exact absurd ho Bool.false_ne_true

theorem ReconcilingSteps.main {p : DProg α} (h : ReconcilingSteps p) : MainSteps p :=
  h.mono fun o ho => by cases o <;> first | rfl | exact absurd ho Bool.false_ne_true

theorem PendingSyncSteps.main {p : DProg α} (h : PendingSyncSteps p) : MainSteps p :=
  h.mono fun o ho => by cases o <;> first | rfl | exact absurd ho Bool.false_ne_true

theorem mainSteps_doSync (E : Crates) (cfg : Config) : MainSteps (doSync E cfg) :=
  PendingSyncSteps.main ((syncSteps_doSync E cfg).mono fun _ => Op.isPendingSyncStep_of_isSyncStep)

theorem mainSteps_resolvePendingSync (E : Crates) (cfg : Config) : MainSteps (resolvePendingSync E cfg) :=
  (pendingSyncSteps_resolvePendingSync E cfg).main

theorem mainSteps_reload (cfg : Config) : MainSteps (reloadSharedLocalCacheFromDiskIfMultiDevice cfg) := by
  refine .ite trivial <| .bind (only_op rfl) fun r => ?_
  cases r with
  | error e => trivial
  | ok cache =>
    cases cache with
    | none => trivial
    | some cache =>
      exact .bind (slotSteps_persistDeviceUnlockSlotsFromCache cfg cache).main fun _ => only_op rfl

theorem mainSteps_lockVault : MainSteps lockVault :=
  .bind (only_op rfl) fun _ => .ite (.bind (only_op rfl) fun _ => .bind (only_op rfl) fun _ =>
    .bind (only_op rfl) fun _ => .bind (only_op rfl) fun _ => trivial) trivial

theorem mainSteps_finishNativeUnlockResponse (E : Crates) (cfg : Config) (cache : LocalKeyCacheFile)
    (msg : String) :
    MainSteps (finishNativeUnlockResponse E cfg cache msg) := by
  refine .bind (slotReads_decryptWithNative E cfg cache).main fun r => ?_
  cases r with
  | error e => trivial
  | ok opened => exact .bind (only_op rfl) fun _ => (loadingSteps_finishUnlockWithJson E _ msg).main

theorem mainSteps_tryRestoreApiSession (E : Crates) (cfg : Config) (pin : String) :
    MainSteps (tryRestoreApiSession E cfg pin) := by
  refine .bind (only_op rfl) fun client => .ite trivial <| .bind (only_loadDeviceSession rfl) fun session => ?_
  split
  · trivial
  · split
    · trivial
    · refine .bind (only_op rfl) fun r => ?_
      cases r with
      | error e => exact .bind (only_op rfl) fun _ => trivial
      | ok grant =>
        exact .bind (hubSteps_connectIfAuthenticated cfg _).main fun _ =>
          .bind (savingSteps_saveDeviceSession E _ _).main fun _ => only_op rfl

theorem mainSteps_afterUnlock (E : Crates) (cfg : Config) (pin : String) (resp : ControlResponse) :
    MainSteps (do
      if resp.ok then
        tryRestoreApiSession E cfg pin
        let _ ← resolvePendingSync E cfg
        return resp
      else return resp) :=
  .ite (.bind (mainSteps_tryRestoreApiSession E cfg pin) fun _ =>
    .bind (mainSteps_resolvePendingSync E cfg) fun _ => trivial) trivial

theorem mainSteps_handleUnlockDialog (E : Crates) (cfg : Config) : MainSteps (handleUnlockDialog E cfg) := by
  refine .ite (.bind (only_op rfl) fun cache => ?_) trivial
  dsimp only
  split
  · trivial
  · refine .bind (pinSteps_requestPinDialog _ _).main fun r => ?_
    cases r with
    | none => trivial
    | some opened =>
      exact .bind (only_op rfl) fun _ => .bind (loadingSteps_finishUnlockWithJson E _ _).main fun resp =>
        mainSteps_afterUnlock E cfg _ resp

theorem mainSteps_handleUnlock (E : Crates) (cfg : Config) : MainSteps (handleUnlock E cfg) := by
  refine .bind (only_op rfl) fun _ => .ite trivial <| .bind (only_op rfl) fun _ =>
    .bind (only_op rfl) fun cache => ?_
  cases cache with
  | none => exact .bind (only_op rfl) fun _ => mainSteps_handleUnlockDialog E cfg
  | some cache =>
    refine .bind (mainSteps_finishNativeUnlockResponse E cfg cache _) fun resp => .ite ?_ ?_
    · exact .bind (mainSteps_resolvePendingSync E cfg) fun _ => .bind (only_op rfl) fun _ => trivial
    · exact .bind (only_op rfl) fun _ => mainSteps_handleUnlockDialog E cfg

theorem mainSteps_handleUnlockNative (E : Crates) (cfg : Config) : MainSteps (handleUnlockNative E cfg) := by
  refine .bind (only_op rfl) fun _ => .ite trivial <| .bind (only_op rfl) fun cache => ?_
  cases cache with
  | none => trivial
  | some cache =>
    exact .bind (mainSteps_finishNativeUnlockResponse E cfg cache _) fun resp =>
      .ite (.bind (mainSteps_resolvePendingSync E cfg) fun _ => trivial) trivial

theorem mainSteps_handleUnlockPin (E : Crates) (cfg : Config) (pin : String) :
    MainSteps (handleUnlockPin E cfg pin) := by
  refine .bind (only_op rfl) fun _ => .ite trivial <| .bind pinSteps_pinLockoutRemaining.main fun wait => ?_
  cases wait with
  | some wait => trivial
  | none =>
    refine .bind (.bind (only_op rfl) fun cache => ?_) fun resp =>
      .bind (pinSteps_recordPinAttempt _).main fun delay =>
      .ite (.bind (only_op rfl) fun _ => trivial) trivial
    cases cache with
    | none => trivial
    | some cache =>
      dsimp only
      split
      · trivial
      · exact .bind (pinSlotSteps_migratePinSlotIfNeeded E cache _ pin).main fun _ =>
          .bind (slotSteps_enrollDevicePlatformSlotsIfMissing E cfg _).main fun _ => .bind (only_op rfl) fun _ =>
          .bind (loadingSteps_finishUnlockWithJson E _ _).main fun resp => mainSteps_afterUnlock E cfg pin resp

theorem mainSteps_handleUnlockPassword (E : Crates) (cfg : Config) (password : String) :
    MainSteps (handleUnlockPassword E cfg password) := by
  refine .bind (only_op rfl) fun wasLocked => .ite trivial <| .bind (only_op rfl) fun device =>
    .bind (only_op rfl) fun r => ?_
  cases r with
  | error e => trivial
  | ok granted =>
    refine .bind (only_syncSshKeys (fun _ => rfl) _) fun r => ?_
    cases r with
    | error e => trivial
    | ok keys =>
      refine .bind (only_op rfl) fun _ => .bind (only_op rfl) fun _ =>
        .bind (reconcilingSteps_reconcileSyncedKeyState E cfg _).main fun _ => .bind (only_op rfl) fun _ =>
        .bind (only_op rfl) fun loaded => .ite ?_ trivial
      exact .bind (only_op rfl) fun _ => .bind (savingSteps_saveDeviceSession E _ none).main fun _ =>
        .bind (hubSteps_connectIfAuthenticated cfg _).main fun _ => .bind (only_op rfl) fun _ =>
        .bind (mainSteps_resolvePendingSync E cfg) fun _ => trivial

theorem mainSteps_ensureLocalCacheKeyForManualSync (E : Crates) (cfg : Config) :
    MainSteps (ensureLocalCacheKeyForManualSync E cfg) := by
  refine .bind (.when (mainSteps_reload cfg)) fun _ => .bind (only_op rfl) fun cache => ?_
  cases cache with
  | none => trivial
  | some cache =>
    refine .bind (only_op rfl) fun key => .ite trivial <| .bind (.when (only_op rfl)) fun _ =>
      .ite trivial <| .bind (pinSteps_requestPinDialog _ _).main fun r => ?_
    split
    · exact .bind (only_op rfl) fun _ => trivial
    · trivial

theorem mainSteps_handleSync (E : Crates) (cfg : Config) : MainSteps (handleSync E cfg) := by
  have hrun : ∀ wasLocked, MainSteps (runManualSync E cfg wasLocked) := by
    intro wasLocked
    refine .bind (mainSteps_doSync E cfg) fun r => ?_
    cases r with
    | error e => trivial
    | ok n => exact .ite (.bind (only_op rfl) fun _ => trivial) trivial
  refine .bind (only_op rfl) fun wasLocked => .ite ?_ (hrun _)
  refine .bind (mainSteps_ensureLocalCacheKeyForManualSync E cfg) fun r => ?_
  cases r with
  | none => exact hrun _
  | some e => trivial

theorem mainSteps_handleForget (cfg : Config) (shared : Bool) : MainSteps (handleForget cfg shared) := by
  have hfiles : MainSteps (forgetFiles cfg (shared || !cfg.multiDevice)) := by
    refine .bind (.ite (.bind (only_op rfl) fun _ => trivial) trivial) fun _ =>
      .bind (.bind (only_op rfl) fun cache => ?_) fun _ => .bind (only_op rfl) fun _ =>
      .bind (only_op rfl) fun _ => .bind (only_op rfl) fun _ => trivial
    cases cache with
    | none => trivial
    | some cache => exact (slotReads_currentNativeUnlockSlot cfg cache).main
  have hsession : MainSteps forgetSession :=
    .bind (only_op rfl) fun _ => .bind (only_op rfl) fun _ => .bind (only_op rfl) fun _ =>
      .bind (only_op rfl) fun _ =>
      .bind (only_op rfl) fun _ => .bind (only_op rfl) fun _ => .bind (mainSteps_notify _) fun _ => only_op rfl
  have hkeys : MainSteps (forgetKeys (shared || !cfg.multiDevice)) := by
    refine .ite ?_ ?_
    · exact .bind (only_op rfl) fun _ => .bind (only_op rfl) fun _ => .bind (only_op rfl) fun _ => only_op rfl
    · refine .bind (.bind (only_op rfl) fun r => ?_) fun cache => .bind (only_op rfl) fun _ =>
        .bind (only_op rfl) fun _ => .bind (only_op rfl) fun _ => .bind (only_op rfl) fun _ => ?_
      · cases r <;> trivial
      · cases cache with
        | none => trivial
        | some cache => exact .bind (only_op rfl) fun _ => .bind (only_op rfl) fun _ => only_op rfl
  exact .bind hfiles fun _ => .bind hsession fun _ => .bind hkeys fun _ => trivial

theorem mainSteps_handleSetPin (E : Crates) (cfg : Config) (pin : String) :
    MainSteps (handleSetPin E cfg pin) := by
  have hwrite : ∀ keys key,
      MainSteps (writeEnvelopeLocalKeyCacheWithKey E cfg keys cfg.email cfg.baseUrl pin key) := by
    intro keys key
    refine .bind (only_encryptLocalCacheKeyWithPin
      (P := fun o => o.isMainStep = true) rfl rfl E key pin) fun r => ?_
    cases r with
    | error e => trivial
    | ok r =>
      refine .bind (only_op rfl) fun iv => ?_
      split
      · trivial
      · refine .bind (slotSteps_enrollNativeIfPossible E cfg _ key).main fun cache =>
          .bind (only_op rfl) fun r => ?_
        cases r <;> trivial
  have hsession : MainSteps (saveSessionOfClient E (some pin)) := by
    refine .bind (only_op rfl) fun _ => .bind (only_op rfl) fun client => ?_
    cases client with
    | none => exact only_op rfl
    | some client => exact .bind (savingSteps_saveDeviceSession E client _).main fun _ => only_op rfl
  refine .ite trivial <| .bind (only_op rfl) fun keys =>
    .ite trivial <| .bind (.bind (only_op rfl) fun key => ?_) fun r => ?_
  · cases key with
    | some key => exact hwrite keys key
    | none => exact .bind (only_op rfl) fun key => hwrite keys key
  · cases r with
    | error e => trivial
    | ok r => exact .bind (only_op rfl) fun _ => .bind (only_op rfl) fun _ => .bind hsession fun _ => trivial

theorem mainSteps_handleBindHostsDialog : MainSteps handleBindHostsDialog := by
  refine .bind (.bind (.bind (only_op rfl) fun r => ?_) fun keys => ?_) fun r => ?_
  · cases r with
    | error e => trivial
    | ok cache => cases cache <;> trivial
  · cases keys with
    | error e => trivial
    | ok keys =>
      refine .bind (only_op rfl) fun bindings => .ite trivial <| .bind (only_op rfl) fun r => ?_
      cases r with
      | error e => trivial
      | ok r =>
        cases r with
        | cancelled => trivial
        | saved payload =>
          refine .bind (only_op rfl) fun r => ?_
          cases r <;> trivial
  · cases r with
    | error e => trivial
    | ok saved => cases saved <;> trivial

theorem mainSteps_handleControlCommand (E : Crates) (cfg : Config) (action : ControlAction) :
    MainSteps (handleControlCommand E cfg action) := by
  refine .bind (.when (mainSteps_reload cfg)) fun _ => ?_
  cases action with
  | stop => trivial
  | lock =>
    refine .bind (only_op rfl) fun _ => .ite trivial <| .bind mainSteps_lockVault fun r => ?_
    cases r <;> trivial
  | forget shared => exact mainSteps_handleForget cfg shared
  | unlock => exact mainSteps_handleUnlock E cfg
  | unlockNative => exact mainSteps_handleUnlockNative E cfg
  | unlockHello => exact .bind (only_op rfl) fun _ => .ite trivial trivial
  | status json =>
    exact .bind (only_op rfl) fun _ => .bind (only_op rfl) fun _ => .bind (only_op rfl) fun _ =>
      .bind (only_op rfl) fun _ => .bind (only_op rfl) fun _ => .bind (only_op rfl) fun _ =>
      .bind (only_op rfl) fun _ => trivial
  | unlockPin pin => exact mainSteps_handleUnlockPin E cfg pin
  | unlockPassword password => exact mainSteps_handleUnlockPassword E cfg password
  | sync => exact mainSteps_handleSync E cfg
  | setPin pin => exact mainSteps_handleSetPin E cfg pin
  | bindHostsDialog => exact mainSteps_handleBindHostsDialog

theorem mainSteps_syncOrDefer (E : Crates) (cfg : Config) (done : NotificationUpdate) :
    MainSteps (syncOrDefer E cfg done) := by
  refine .bind (mainSteps_doSync E cfg) fun r => ?_
  cases r with
  | ok n => exact mainSteps_notify done
  | error e => exact only_op rfl

theorem mainSteps_handleTokenRefresh (E : Crates) (cfg : Config) : MainSteps (handleTokenRefresh E cfg) := by
  refine .bind (only_op rfl) fun _ => .bind (only_op rfl) fun client => ?_
  cases client with
  | none => exact only_op rfl
  | some client =>
    refine .bind (only_op rfl) fun now => .ite (.bind (.ite trivial ?_) fun r => ?_) (only_op rfl)
    · refine .bind (only_op rfl) fun r => ?_
      cases r with
      | error e => trivial
      | ok grant => exact .bind (only_op rfl) fun _ => trivial
    · cases r with
      | error e => exact only_op rfl
      | ok client =>
        exact .bind (savingSteps_saveDeviceSession E client none).main fun _ =>
          .bind (hubSteps_connectIfAuthenticated cfg client).main fun _ => only_op rfl

/-- No event starts the agent or answers a request. -/
theorem mainSteps_mainStep (E : Crates) (cfg : Config) (ev : MainEvent) : MainSteps (mainStep E cfg ev) := by
  cases ev with
  | control action => exact .bind (mainSteps_handleControlCommand E cfg action) fun _ => trivial
  | runtime event =>
    cases event with
    | autoUnlockedPin pin =>
      exact .bind (mainSteps_tryRestoreApiSession E cfg pin) fun _ =>
        .bind (mainSteps_resolvePendingSync E cfg) fun _ => trivial
    | autoUnlockedNative => exact .bind (mainSteps_resolvePendingSync E cfg) fun _ => trivial
  | hub event =>
    cases event with
    | connectionStatus status => exact mainSteps_notify _
    | cipherChanged =>
      exact .bind (only_op rfl) fun _ =>
        .ite (.bind (only_op rfl) fun _ => mainSteps_notify _) (mainSteps_syncOrDefer E cfg _)
    | logOut => exact .bind (mainSteps_notify _) fun _ => .bind mainSteps_lockVault fun _ => trivial
    | fallbackSyncDue => exact .bind (only_op rfl) fun _ => .ite (only_op rfl) (mainSteps_syncOrDefer E cfg _)
  | tokenRefresh => exact mainSteps_handleTokenRefresh E cfg
  | autoLockTick idle =>
    exact .ite (.bind (only_op rfl) fun _ => .ite (.bind (only_op rfl) fun _ =>
      .ite (.ite (.bind mainSteps_lockVault fun _ => trivial) trivial) trivial) trivial) trivial

end SshWarden
