import SshWarden.Handlers

/-!
# Turns that do not lock

The lock flag is raised by `lock_vault` and by `forget` and nowhere else. Every other event of the main
loop, and every request, is made of operations that leave a raised flag to them (`Lockless`): from an
unlocked vault it leads to an unlocked vault.
-/

namespace SshWarden
open Prog

variable {E : Crates} {cfg : Config} {α : Type}

/-- The operations that lock the vault. -/
def Op.locks : Op → Bool
  | agentLock | storeVaultLocked true => true
  | _ => false

abbrev Lockless (p : DProg α) : Prop := Prog.Only (S := daemonSig) (fun o : Op => o.locks = false) p

theorem Op.locks_of_isSteady {o : Op} (h : o.isSteady = true) : o.locks = false := by
  cases o <;> first | rfl | exact absurd h Bool.false_ne_true

theorem Op.vaultLocked_next {o : Op} (h : o.locks = false) {s : Daemon} (hs : s.vaultLocked = false) (a : o.Ans) :
    (next E o s a).vaultLocked = false := by
  cases o with
  | storeVaultLocked b => cases b <;> first | rfl | exact absurd h.symm Bool.false_ne_true
  | _ => first | exact hs | (cases a <;> exact hs)

theorem Steady.lockless {p : DProg α} (h : Steady p) : Lockless p := h.mono fun _ => Op.locks_of_isSteady

theorem Quiet.lockless {p : DProg α} (h : Quiet p) : Lockless p := h.steady.lockless

theorem Routine.lockless {p : DProg α} (h : Routine p) : Lockless p := h.steady.lockless

theorem Inner.lockless {p : DProg α} (h : Inner p) : Lockless p := h.steady.lockless

theorem lockless_op {o : Op} (h : o.locks = false) : Lockless (op o) := ⟨h, fun _ => trivial⟩

theorem lockless_notify (u : NotificationUpdate) : Lockless (notify u) := (support_notify u).steady.lockless

theorem PendingSyncSteps.lockless {p : DProg α} (h : PendingSyncSteps p) : Lockless p :=
  h.mono fun o ho => by cases o <;> first | rfl | exact absurd ho Bool.false_ne_true

theorem SyncSteps.lockless {p : DProg α} (h : SyncSteps p) : Lockless p :=
  PendingSyncSteps.lockless (h.mono fun _ => Op.isPendingSyncStep_of_isSyncStep)

theorem lockless_handleSync (E : Crates) (cfg : Config) : Lockless (handleSync E cfg) := by
  have hrun : ∀ wasLocked, Lockless (runManualSync E cfg wasLocked) := by
    intro wasLocked
    refine .bind (syncSteps_doSync E cfg).lockless fun r => ?_
    cases r with
    | error e => trivial
    | ok n => exact .ite (.bind (lockless_op rfl) fun _ => trivial) trivial
  refine .bind (lockless_op rfl) fun wasLocked => .ite ?_ (hrun _)
  refine .bind (inner_ensureLocalCacheKeyForManualSync E cfg).lockless fun r => ?_
  cases r with
  | none => exact hrun _
  | some e => trivial

theorem LoadingSteps.lockless {p : DProg α} (h : LoadingSteps p) : Lockless p :=
  h.mono fun o ho => by
    cases o with
    | storeVaultLocked b => cases b <;> first | rfl | exact absurd ho Bool.false_ne_true
    | _ => first | rfl | exact absurd ho Bool.false_ne_true

theorem lockless_finishNativeUnlockResponse (E : Crates) (cfg : Config) (cache : LocalKeyCacheFile)
    (msg : String) :
    Lockless (finishNativeUnlockResponse E cfg cache msg) := by
  refine .bind (slotReads_decryptWithNative E cfg cache).routine.lockless fun r => ?_
  cases r with
  | error e => trivial
  | ok opened => exact .bind (lockless_op rfl) fun _ => (loadingSteps_finishUnlockWithJson E _ msg).lockless

theorem lockless_tryRestoreApiSession (E : Crates) (cfg : Config) (pin : String) :
    Lockless (tryRestoreApiSession E cfg pin) := by
  refine .bind (lockless_op rfl) fun client => .ite trivial <|
    .bind routine_loadDeviceSession.lockless fun session => ?_
  split
  · trivial
  · split
    · trivial
    · refine .bind (lockless_op rfl) fun r => ?_
      cases r with
      | error e => exact .bind (lockless_op rfl) fun _ => trivial
      | ok grant =>
        exact .bind (hubSteps_connectIfAuthenticated cfg _).connecting.quiet.lockless fun _ =>
          .bind (savingSteps_saveDeviceSession E _ _).routine.lockless fun _ => lockless_op rfl

theorem lockless_afterUnlock (E : Crates) (cfg : Config) (pin : String) (resp : ControlResponse) :
    Lockless (do
      if resp.ok then
        tryRestoreApiSession E cfg pin
        let _ ← resolvePendingSync E cfg
        return resp
      else return resp) :=
  .ite (.bind (lockless_tryRestoreApiSession E cfg pin) fun _ =>
    .bind (pendingSyncSteps_resolvePendingSync E cfg).lockless fun _ => trivial) trivial

theorem lockless_handleUnlockDialog (E : Crates) (cfg : Config) : Lockless (handleUnlockDialog E cfg) := by
  refine .ite (.bind (lockless_op rfl) fun cache => ?_) trivial
  dsimp only
  split
  · trivial
  · refine .bind (pinSteps_requestPinDialog _ _).routine.lockless fun r => ?_
    cases r with
    | none => trivial
    | some opened =>
      exact .bind (lockless_op rfl) fun _ => .bind (loadingSteps_finishUnlockWithJson E _ _).lockless fun resp =>
        lockless_afterUnlock E cfg _ resp

theorem lockless_handleUnlock (E : Crates) (cfg : Config) : Lockless (handleUnlock E cfg) := by
  refine .bind (lockless_op rfl) fun _ => .ite trivial <|
    .bind (lockless_op rfl) fun _ => .bind (lockless_op rfl) fun cache => ?_
  cases cache with
  | none => exact .bind (lockless_op rfl) fun _ => lockless_handleUnlockDialog E cfg
  | some cache =>
    refine .bind (lockless_finishNativeUnlockResponse E cfg cache _) fun resp => .ite ?_ ?_
    · exact .bind (pendingSyncSteps_resolvePendingSync E cfg).lockless fun _ =>
        .bind (lockless_op rfl) fun _ => trivial
    · exact .bind (lockless_op rfl) fun _ => lockless_handleUnlockDialog E cfg

theorem lockless_handleUnlockNative (E : Crates) (cfg : Config) : Lockless (handleUnlockNative E cfg) := by
  refine .bind (lockless_op rfl) fun _ => .ite trivial <| .bind (lockless_op rfl) fun cache => ?_
  cases cache with
  | none => trivial
  | some cache =>
    exact .bind (lockless_finishNativeUnlockResponse E cfg cache _) fun resp =>
      .ite (.bind (pendingSyncSteps_resolvePendingSync E cfg).lockless fun _ => trivial) trivial

theorem lockless_handleUnlockPin (E : Crates) (cfg : Config) (pin : String) :
    Lockless (handleUnlockPin E cfg pin) := by
  refine .bind (lockless_op rfl) fun _ => .ite trivial <|
    .bind pinSteps_pinLockoutRemaining.routine.lockless fun wait => ?_
  cases wait with
  | some wait => trivial
  | none =>
    refine .bind (.bind (lockless_op rfl) fun cache => ?_) fun resp =>
      .bind (pinSteps_recordPinAttempt _).routine.lockless fun delay =>
        .ite (.bind (lockless_op rfl) fun _ => trivial) trivial
    cases cache with
    | none => trivial
    | some cache =>
      dsimp only
      split
      · trivial
      · exact .bind (pinSlotSteps_migratePinSlotIfNeeded E cache _ pin).inner.lockless fun _ =>
          .bind (slotSteps_enrollDevicePlatformSlotsIfMissing E cfg _).slotRoutine.inner.lockless fun _ =>
          .bind (lockless_op rfl) fun _ => .bind (loadingSteps_finishUnlockWithJson E _ _).lockless fun resp =>
          lockless_afterUnlock E cfg pin resp

theorem lockless_handleUnlockPassword (E : Crates) (cfg : Config) (password : String) :
    Lockless (handleUnlockPassword E cfg password) := by
  refine .bind (lockless_op rfl) fun wasLocked => .ite trivial <|
    .bind (lockless_op rfl) fun device => .bind (lockless_op rfl) fun r => ?_
  match r with
  | .error e => trivial
  | .ok (grant, key) =>
    refine .bind (support_syncSshKeys _).steady.lockless fun r => ?_
    cases r with
    | error e => trivial
    | ok keys =>
      refine .bind (lockless_op rfl) fun _ => .bind (lockless_op rfl) fun _ =>
        .bind (reconcilingSteps_reconcileSyncedKeyState E cfg _).inner.lockless fun _ =>
          .bind (lockless_op rfl) fun _ =>
        .bind (lockless_op rfl) fun loaded => .ite ?_ trivial
      exact .bind (lockless_op rfl) fun _ =>
        .bind (savingSteps_saveDeviceSession E _ none).routine.lockless fun _ =>
        .bind (hubSteps_connectIfAuthenticated cfg _).connecting.quiet.lockless fun _ =>
          .bind (lockless_op rfl) fun _ =>
        .bind (pendingSyncSteps_resolvePendingSync E cfg).lockless fun _ => trivial

/-- What may lock the vault. -/
def MainEvent.mayLock : MainEvent → Bool
  | .control .lock | .control (.forget _) | .hub .logOut | .autoLockTick _ => true
  | _ => false

theorem lockless_handleControlCommand {action : ControlAction} (h : (MainEvent.control action).mayLock = false) :
    Lockless (handleControlCommand E cfg action) := by
  refine .bind (.when (inner_reload cfg).lockless) fun _ => ?_
  cases action with
  | stop => trivial
  | lock => exact absurd h.symm Bool.false_ne_true
  | forget shared => exact absurd h.symm Bool.false_ne_true
  | unlock => exact lockless_handleUnlock E cfg
  | unlockNative => exact lockless_handleUnlockNative E cfg
  | unlockHello => exact .bind (lockless_op rfl) fun _ => .ite trivial trivial
  | status json => exact (keepsCore_buildStatusResponse cfg json).quiet.lockless
  | unlockPin pin => exact lockless_handleUnlockPin E cfg pin
  | unlockPassword password => exact lockless_handleUnlockPassword E cfg password
  | sync => exact lockless_handleSync E cfg
  | setPin pin => exact (steady_handleSetPin E cfg pin).lockless
  | bindHostsDialog => exact prompting_handleBindHostsDialog.routine.lockless

theorem lockless_syncOrDefer (E : Crates) (cfg : Config) (done : NotificationUpdate) :
    Lockless (syncOrDefer E cfg done) := by
  refine .bind (syncSteps_doSync E cfg).lockless fun r => ?_
  cases r with
  | ok n => exact lockless_notify done
  | error e => exact lockless_op rfl

theorem lockless_handleTokenRefresh (E : Crates) (cfg : Config) : Lockless (handleTokenRefresh E cfg) := by
  refine .bind (lockless_op rfl) fun _ => .bind (lockless_op rfl) fun client => ?_
  cases client with
  | none => exact lockless_op rfl
  | some client =>
    refine .bind (lockless_op rfl) fun now => .ite (.bind (.ite trivial ?_) fun r => ?_) (lockless_op rfl)
    · refine .bind (lockless_op rfl) fun r => ?_
      cases r with
      | error e => trivial
      | ok grant => exact .bind (lockless_op rfl) fun _ => trivial
    · cases r with
      | error e => exact lockless_op rfl
      | ok client =>
        exact .bind (savingSteps_saveDeviceSession E client none).routine.lockless fun _ =>
          .bind (hubSteps_connectIfAuthenticated cfg client).connecting.quiet.lockless fun _ => lockless_op rfl

theorem lockless_mainStep {ev : MainEvent} (h : ev.mayLock = false) : Lockless (mainStep E cfg ev) := by
  cases ev with
  | control action => exact .bind (lockless_handleControlCommand h) fun _ => trivial
  | runtime event =>
    cases event with
    | autoUnlockedPin pin =>
      exact .bind (lockless_tryRestoreApiSession E cfg pin) fun _ =>
        .bind (pendingSyncSteps_resolvePendingSync E cfg).lockless fun _ => trivial
    | autoUnlockedNative => exact .bind (pendingSyncSteps_resolvePendingSync E cfg).lockless fun _ => trivial
  | hub event =>
    cases event with
    | connectionStatus status => exact lockless_notify _
    | cipherChanged =>
      exact .bind (lockless_op rfl) fun _ =>
        .ite (.bind (lockless_op rfl) fun _ => lockless_notify _) (lockless_syncOrDefer E cfg _)
    | logOut => exact absurd h.symm Bool.false_ne_true
    | fallbackSyncDue =>
      exact .bind (lockless_op rfl) fun _ => .ite (lockless_op rfl) (lockless_syncOrDefer E cfg _)
  | tokenRefresh => exact lockless_handleTokenRefresh E cfg
  | autoLockTick idle => exact absurd h.symm Bool.false_ne_true

theorem lockless_handleUiRequest (E : Crates) (cfg : Config) (request : SshAgentUIRequest) :
    Lockless (handleUiRequest E cfg request) :=
  (requesting_handleUiRequest E cfg request).mono fun o ho => by
    cases o with
    | storeVaultLocked b => cases b <;> first | rfl | exact absurd ho Bool.false_ne_true
    | _ => first | rfl | exact absurd ho Bool.false_ne_true

end SshWarden
