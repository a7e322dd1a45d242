import SshWarden.Daemon
import SshWarden.Footprints

/-!
# The parts of the handlers that leave the secrets alone

Most of what a handler does only reads, asks, or writes files and labels. Those operations keep the
core of the daemon: its keys, caches, lock flag, client and authorization memory. The `isSupport` ones
of them also hold no guard on the API client, and every program made of these is a support program.
Writes of the device's unlock slots come next to them (`SlotSupport`).
-/

namespace SshWarden
open Prog

/-- Operations that neither change the core of the daemon nor answer a request. -/
def Op.keepsCore : Op → Bool
  | writeApiClient _ | pokeApiClient _ | writeLocalKeyCache _ | writeLocalCacheKey _
  | writeCachedKeyTuples _ | writePublicKeyIdentityTuples _ | writeFingerprints _
  | insertMemory _ | retainMemory _ | clearMemory
  | storeVaultLocked _ | storePendingSync _ | swapPendingSync _
  | startAgent | agentLock | agentSetKeys _ | agentSetPublicIdentities _ | agentClearKeys
  | agentClearNeedsUnlock | saveLocalKeyCache _ | deleteLocalKeyCache | saveUnlockSlots _
  | broadcast _ _ => false
  | _ => true

/-- Those that also take no part in the guards held across statements. -/
def Op.isSupport : Op → Bool
  | hold _ _ | release _ | peekApiClient | peekLocalKeyCache | readApiClient => false
  | o => o.keepsCore

/-- Support operations and writes of the device's unlock slots. -/
def Op.isSlotSupport : Op → Bool
  | saveUnlockSlots _ => true
  | o => o.isSupport

/-- Support operations that fetch no vault and have nothing to do with the hub. -/
def Op.isRoutine : Op → Bool
  | fetchSync _ | setNotificationClient _ | notification _ _ => false
  | o => o.isSupport

/-- Routine operations and writes of the device's unlock slots. -/
def Op.isSlotRoutine : Op → Bool
  | saveUnlockSlots _ => true
  | o => o.isRoutine

/-- Routine operations and the steps that connect to the hub. -/
def Op.isConnecting : Op → Bool
  | setNotificationClient _ | notification _ (.beginConnect _) | notification _ (.applyStatus _)
  | notification _ (.markClientFailed _) => true
  | o => o.isRoutine

/-- The operations of a prompt: it asks the user, and reads and saves the bindings. -/
def Op.isPrompting : Op → Bool
  | loadLocalKeyCache | hostBindings _ | inferSshTarget _ | bindHostsDialog _ | persistBindPayload _
  | authDialog _ | tryReadKeyNames | tryMemoryContains _ => true
  | _ => false

/-- The operations of a request on an unlocked vault, which it answers and may remember. -/
def Op.isAnswering : Op → Bool
  | insertMemory _ | broadcast _ _ => true
  | o => o.isPrompting

theorem Op.isRoutine_of_isPrompting {o : Op} (h : o.isPrompting = true) : o.isRoutine = true := by
  cases o <;> first | rfl | exact absurd h Bool.false_ne_true

theorem Op.isAnswering_of_isPrompting {o : Op} (h : o.isPrompting = true) : o.isAnswering = true := by
  cases o <;> first | exact h | rfl

theorem Op.isSupport_of_isRoutine {o : Op} (h : o.isRoutine = true) : o.isSupport = true := by
  cases o <;> first | exact h | rfl

theorem Op.isSlotRoutine_of_isRoutine {o : Op} (h : o.isRoutine = true) : o.isSlotRoutine = true := by
  cases o <;> first | exact h | rfl

theorem Op.isSlotSupport_of_isSlotRoutine {o : Op} (h : o.isSlotRoutine = true) :
    o.isSlotSupport = true := by
  cases o <;> first | exact h | rfl

theorem Op.isConnecting_of_isRoutine {o : Op} (h : o.isRoutine = true) : o.isConnecting = true := by
  cases o <;> first | exact h | rfl | exact absurd h Bool.false_ne_true

theorem Op.isSupport_of_isConnecting {o : Op} (h : o.isConnecting = true) : o.isSupport = true := by
  cases o <;> first | exact h | rfl

theorem Op.isSlotSupport_of_isSupport {o : Op} (h : o.isSupport = true) : o.isSlotSupport = true := by
  cases o <;> first | exact h | rfl

theorem Op.keepsCore_of_isSupport {o : Op} (h : o.isSupport = true) : o.keepsCore = true := by
  cases o <;> first | exact h | rfl

/-- The two states agree on the keys, the caches, the lock flag, the client and the memory. -/
structure SameCore (s s' : Daemon) : Prop where
  agent : s'.agent = s.agent
  vaultLocked : s'.vaultLocked = s.vaultLocked
  cachedKeyTuples : s'.cachedKeyTuples = s.cachedKeyTuples
  publicKeyIdentityTuples : s'.publicKeyIdentityTuples = s.publicKeyIdentityTuples
  apiClient : s'.apiClient = s.apiClient
  localKeyCacheData : s'.localKeyCacheData = s.localKeyCacheData
  localCacheKeyState : s'.localCacheKeyState = s.localCacheKeyState
  authorizationMemory : s'.authorizationMemory = s.authorizationMemory
  keyMaterialFingerprints : s'.keyMaterialFingerprints = s.keyMaterialFingerprints
  pendingSync : s'.pendingSync = s.pendingSync
  diskCache : s'.disk.localKeyCache = s.disk.localKeyCache

namespace SameCore
variable {s s' s'' : Daemon}

theorem refl (s : Daemon) : SameCore s s := ⟨rfl, rfl, rfl, rfl, rfl, rfl, rfl, rfl, rfl, rfl, rfl⟩

theorem trans (h : SameCore s s') (h' : SameCore s' s'') : SameCore s s'' where
  agent := h'.agent.trans h.agent
  vaultLocked := h'.vaultLocked.trans h.vaultLocked
  cachedKeyTuples := h'.cachedKeyTuples.trans h.cachedKeyTuples
  publicKeyIdentityTuples := h'.publicKeyIdentityTuples.trans h.publicKeyIdentityTuples
  apiClient := h'.apiClient.trans h.apiClient
  localKeyCacheData := h'.localKeyCacheData.trans h.localKeyCacheData
  localCacheKeyState := h'.localCacheKeyState.trans h.localCacheKeyState
  authorizationMemory := h'.authorizationMemory.trans h.authorizationMemory
  keyMaterialFingerprints := h'.keyMaterialFingerprints.trans h.keyMaterialFingerprints
  pendingSync := h'.pendingSync.trans h.pendingSync
  diskCache := h'.diskCache.trans h.diskCache

end SameCore

/-- A written file other than the cache is no part of the core. -/
theorem sameCore_afterWrite {s : Daemon} {d : Disk} (h : d.localKeyCache = s.disk.localKeyCache)
    (r : Except String Unit) : SameCore s (afterWrite s d r) := by
  cases r
  · exact .refl s
  · exact ⟨rfl, rfl, rfl, rfl, rfl, rfl, rfl, rfl, rfl, rfl, h⟩

theorem sameCore_next (E : Crates) {o : Op} (h : o.keepsCore = true) (s : Daemon) (a : o.Ans) :
    SameCore s (next E o s a) := by
  cases o <;> first
    | exact absurd h Bool.false_ne_true
    | exact ⟨rfl, rfl, rfl, rfl, rfl, rfl, rfl, rfl, rfl, rfl, rfl⟩
    | (refine sameCore_afterWrite ?_ a; rfl)

/-- A program that keeps the core. -/
abbrev KeepsCore {α : Type} (p : DProg α) : Prop :=
  Prog.Only (S := daemonSig) (fun o : Op => o.keepsCore = true) p

/-- A program of support operations. -/
abbrev Support {α : Type} (p : DProg α) : Prop :=
  Prog.Only (S := daemonSig) (fun o : Op => o.isSupport = true) p

/-- A program of support operations that may also write the device's unlock slots. -/
abbrev SlotSupport {α : Type} (p : DProg α) : Prop :=
  Prog.Only (S := daemonSig) (fun o : Op => o.isSlotSupport = true) p

/-- A program of routine operations. -/
abbrev Routine {α : Type} (p : DProg α) : Prop :=
  Prog.Only (S := daemonSig) (fun o : Op => o.isRoutine = true) p

/-- A program of routine operations that may also write the device's unlock slots. -/
abbrev SlotRoutine {α : Type} (p : DProg α) : Prop :=
  Prog.Only (S := daemonSig) (fun o : Op => o.isSlotRoutine = true) p

/-- A program of routine operations that may also connect to the hub. -/
abbrev Connecting {α : Type} (p : DProg α) : Prop :=
  Prog.Only (S := daemonSig) (fun o : Op => o.isConnecting = true) p

/-- A program of a prompt. -/
abbrev Prompting {α : Type} (p : DProg α) : Prop :=
  Prog.Only (S := daemonSig) (fun o : Op => o.isPrompting = true) p

/-- A program that asks and answers. -/
abbrev Answering {α : Type} (p : DProg α) : Prop :=
  Prog.Only (S := daemonSig) (fun o : Op => o.isAnswering = true) p

theorem Prompting.routine {α : Type} {p : DProg α} (h : Prompting p) : Routine p :=
  h.mono fun _ => Op.isRoutine_of_isPrompting

theorem Prompting.answering {α : Type} {p : DProg α} (h : Prompting p) : Answering p :=
  h.mono fun _ => Op.isAnswering_of_isPrompting

theorem Support.slots {α : Type} {p : DProg α} (h : Support p) : SlotSupport p :=
  h.mono fun _ => Op.isSlotSupport_of_isSupport

theorem Support.keepsCore {α : Type} {p : DProg α} (h : Support p) : KeepsCore p :=
  h.mono fun _ => Op.keepsCore_of_isSupport

theorem Routine.support {α : Type} {p : DProg α} (h : Routine p) : Support p :=
  h.mono fun _ => Op.isSupport_of_isRoutine

theorem Routine.keepsCore {α : Type} {p : DProg α} (h : Routine p) : KeepsCore p := h.support.keepsCore

theorem Routine.slots {α : Type} {p : DProg α} (h : Routine p) : SlotRoutine p :=
  h.mono fun _ => Op.isSlotRoutine_of_isRoutine

theorem Routine.connecting {α : Type} {p : DProg α} (h : Routine p) : Connecting p :=
  h.mono fun _ => Op.isConnecting_of_isRoutine

theorem SlotRoutine.support {α : Type} {p : DProg α} (h : SlotRoutine p) : SlotSupport p :=
  h.mono fun _ => Op.isSlotSupport_of_isSlotRoutine

theorem Connecting.support {α : Type} {p : DProg α} (h : Connecting p) : Support p :=
  h.mono fun _ => Op.isSupport_of_isConnecting

/-- `M` is the machine of the daemon with something recorded next to its state, or with fewer
answers. -/
structure Lifts (E : Crates) {σ : Type} (M : Machine daemonSig σ) (daemon : σ → Daemon) : Prop where
  ready : ∀ o x a, M.ready o x a → (machine E).ready o (daemon x) a
  next : ∀ o x a, daemon (M.next o x a) = (machine E).next o (daemon x) a

theorem Lifts.machine (E : Crates) : Lifts E (machine E) id := ⟨fun _ _ _ h => h, fun _ _ _ => rfl⟩

theorem Lifts.restrict {E : Crates} {σ : Type} {M : Machine daemonSig σ} {daemon : σ → Daemon}
    (h : Lifts E M daemon) (A : Event → Prop) : Lifts E (M.restrict A) daemon :=
  ⟨fun o x a ha => h.ready o x a ha.1, h.next⟩

/-- What the machine of the daemon promises holds of a machine that lifts it. -/
theorem Lifts.wp {α σ : Type} {E : Crates} {M : Machine daemonSig σ} {daemon : σ → Daemon}
    (hM : Lifts E M daemon) {D : Op → Daemon → Prop} {p : DProg α} {Q : α → Daemon → Prop} {x : σ}
    (h : Prog.wp (SshWarden.machine E) D p Q (daemon x)) :
    Prog.wp M (fun o x => D o (daemon x)) p (fun a x => Q a (daemon x)) x := by
  induction p generalizing x with
  | ret a => exact h
  | vis o k ih =>
    refine ⟨h.1, fun a ha => ih a ?_⟩
    rw [hM.next]
    exact h.2 a (hM.ready o x a ha)

/-- After a program that keeps the core the core is what it was, wherever the program is stopped. -/
theorem KeepsCore.wp {α σ : Type} {E : Crates} {M : Machine daemonSig σ} {daemon : σ → Daemon}
    (hM : Lifts E M daemon) {D : Op → σ → Prop} {p : DProg α} {Q : α → σ → Prop} {x : σ}
    (h : KeepsCore p) (hD : ∀ o x', o.keepsCore = true → SameCore (daemon x) (daemon x') → D o x')
    (hQ : ∀ a x', SameCore (daemon x) (daemon x') → Q a x') : wp M D p Q x := by
  refine h.wp_rel (R := fun x x' => SameCore (daemon x) (daemon x')) (fun _ => .refl _)
    (fun _ _ _ => .trans) (fun o x a ho _ => ?_) hD hQ
  rw [hM.next]
  exact sameCore_next E ho _ a

theorem support_op {o : Op} (h : o.isSupport = true) : Support (op o) := ⟨h, fun _ => trivial⟩

theorem slotSupport_op {o : Op} (h : o.isSlotSupport = true) : SlotSupport (op o) := ⟨h, fun _ => trivial⟩

theorem routine_op {o : Op} (h : o.isRoutine = true) : Routine (op o) := ⟨h, fun _ => trivial⟩

theorem support_ret {α : Type} (a : α) : Support (pure a : DProg α) := trivial

theorem support_notify (u : NotificationUpdate) : Support (notify u) :=
  .bind (support_op rfl) fun _ => support_op rfl

theorem PinSteps.routine {α : Type} {p : DProg α} (h : PinSteps p) : Routine p :=
  h.mono fun o ho => by cases o <;> first | rfl | exact absurd ho Bool.false_ne_true

theorem SlotReads.routine {α : Type} {p : DProg α} (h : SlotReads p) : Routine p :=
  h.mono fun o ho => by cases o <;> first | rfl | exact absurd ho Bool.false_ne_true

theorem SlotSteps.slotRoutine {α : Type} {p : DProg α} (h : SlotSteps p) : SlotRoutine p :=
  h.mono fun o ho => by cases o <;> first | rfl | exact absurd ho Bool.false_ne_true

theorem SavingSteps.routine {α : Type} {p : DProg α} (h : SavingSteps p) : Routine p :=
  h.mono fun o ho => by cases o <;> first | rfl | exact absurd ho Bool.false_ne_true

theorem HubSteps.connecting {α : Type} {p : DProg α} (h : HubSteps p) : Connecting p :=
  h.mono fun o ho => by
    cases o with
    | notification _ u => cases u <;> first | rfl | exact absurd ho Bool.false_ne_true
    | _ => first | rfl | exact absurd ho Bool.false_ne_true

theorem routine_encryptLocalCacheKeyWithPin (E : Crates) (key : SymmetricKey) (pin : String) :
    Routine (encryptLocalCacheKeyWithPin E key pin) :=
  only_encryptLocalCacheKeyWithPin (P := fun o => o.isRoutine = true) rfl rfl E key pin

theorem support_syncSshKeys (client : BitwardenClient) : Support (syncSshKeys client) :=
  only_syncSshKeys (P := fun o => o.isSupport = true) (fun _ => rfl) client

theorem prompting_op {o : Op} (h : o.isPrompting = true) : Prompting (op o) := ⟨h, fun _ => trivial⟩

theorem prompting_loadManagedKeysFromCache : Prompting loadManagedKeysFromCache := by
  refine .bind (prompting_op rfl) fun r => ?_
  cases r with
  | error e => trivial
  | ok cache => cases cache <;> trivial

theorem prompting_dispatchStandaloneBindHostsDialog : Prompting dispatchStandaloneBindHostsDialog := by
  refine .bind prompting_loadManagedKeysFromCache fun keys => ?_
  cases keys with
  | error e => trivial
  | ok keys =>
    refine .bind (prompting_op rfl) fun bindings => .ite trivial <| .bind (prompting_op rfl) fun r => ?_
    cases r with
    | error e => trivial
    | ok r =>
      cases r with
      | cancelled => trivial
      | saved payload =>
        refine .bind (prompting_op rfl) fun r => ?_
        cases r <;> trivial

theorem prompting_handleBindHostsDialog : Prompting handleBindHostsDialog := by
  refine .bind prompting_dispatchStandaloneBindHostsDialog fun r => ?_
  cases r with
  | error e => trivial
  | ok saved => cases saved <;> trivial

theorem prompting_runBindHostsFlow (pid : UInt32) (cipherId : Option String) :
    Prompting (runBindHostsFlow pid cipherId) := by
  refine .bind prompting_loadManagedKeysFromCache fun keys => ?_
  cases keys with
  | error e => trivial
  | ok keys =>
    refine .bind (prompting_op rfl) fun bindings => .ite trivial <| .bind (prompting_op rfl) fun host =>
      .bind (prompting_op rfl) fun r => ?_
    cases r with
    | error e => trivial
    | ok r =>
      cases r with
      | cancelled => trivial
      | saved payload =>
        refine .bind (prompting_op rfl) fun r => ?_
        cases r <;> trivial

theorem prompting_promptAuthorizationWithBindFlow (info : SignRequestInfo) (pid : UInt32)
    (cipherId : Option String) : Prompting (promptAuthorizationWithBindFlow info pid cipherId) := by
  refine .bind (prompting_op rfl) fun r => ?_
  cases r with
  | bindRequested => exact prompting_runBindHostsFlow pid cipherId
  | _ => trivial

theorem prompting_runAuthorizationPrompt (cfg : Config) (request : SshAgentUIRequest) (name : String) :
    Prompting (runAuthorizationPrompt cfg request name) :=
  .ite trivial (prompting_promptAuthorizationWithBindFlow _ _ _)

theorem prompting_approvedFromMemory (cfg : Config) (request : SshAgentUIRequest) :
    Prompting (approvedFromMemory cfg request) := by
  refine .ite ?_ trivial
  split
  · exact prompting_op rfl
  · trivial

theorem routine_promptAuthorizationWithBindFlow (info : SignRequestInfo) (pid : UInt32)
    (cipherId : Option String) : Routine (promptAuthorizationWithBindFlow info pid cipherId) :=
  (prompting_promptAuthorizationWithBindFlow info pid cipherId).routine

theorem routine_runAuthorizationPrompt (cfg : Config) (request : SshAgentUIRequest) (name : String) :
    Routine (runAuthorizationPrompt cfg request name) :=
  (prompting_runAuthorizationPrompt cfg request name).routine

theorem answering_op {o : Op} (h : o.isAnswering = true) : Answering (op o) := ⟨h, fun _ => trivial⟩

theorem answering_handleUnlockedRequest (cfg : Config) (request : SshAgentUIRequest) :
    Answering (handleUnlockedRequest cfg request) := by
  refine .bind (prompting_approvedFromMemory cfg request).answering fun found => .ite (answering_op rfl) <|
    .ite (answering_op rfl) <| .bind (answering_op rfl) fun names =>
      .bind (prompting_promptAuthorizationWithBindFlow _ _ _).answering fun approved =>
        .bind (.ite ?_ trivial) fun _ => answering_op rfl
  split
  · exact answering_op rfl
  · trivial

theorem routine_loadDeviceSession : Routine loadDeviceSession := only_loadDeviceSession rfl

theorem keepsCore_op {o : Op} (h : o.keepsCore = true) : KeepsCore (op o) := ⟨h, fun _ => trivial⟩

theorem keepsCore_saveSessionOfClient (E : Crates) (pin : Option String) :
    KeepsCore (saveSessionOfClient E pin) := by
  refine .bind (keepsCore_op rfl) fun _ => .bind (keepsCore_op rfl) fun client => ?_
  cases client with
  | none => exact keepsCore_op rfl
  | some client =>
    exact .bind (savingSteps_saveDeviceSession E client pin).routine.keepsCore fun _ => keepsCore_op rfl

theorem keepsCore_buildStatusResponse (cfg : Config) (json : Bool) :
    KeepsCore (buildStatusResponse cfg json) :=
  .bind (keepsCore_op rfl) fun _ => .bind (keepsCore_op rfl) fun _ => .bind (keepsCore_op rfl) fun _ =>
    .bind (keepsCore_op rfl) fun _ => .bind (keepsCore_op rfl) fun _ => .bind (keepsCore_op rfl) fun _ =>
      .bind (keepsCore_op rfl) fun _ => trivial

/-! ### The request handlers -/

/-- The operations of an unlock on request. -/
def Op.isAutoUnlocking : Op → Bool
  | readLocalKeyCache | readKeyNames | writeKeyNames _ | writeCachedKeyTuples _ | agentSetKeys _
  | writeLocalCacheKey (some _) | storeVaultLocked false | sendRuntimeEvent _ => true
  | o => o.isPinStep || o.isSlotRead || o.isSlotStep

/-- The operations of a request. -/
def Op.isRequesting : Op → Bool
  | loadVaultLocked | agentClearNeedsUnlock => true
  | o => o.isAutoUnlocking || o.isAnswering

abbrev AutoUnlocking {α : Type} (p : DProg α) : Prop :=
  Prog.Only (S := daemonSig) (fun o : Op => o.isAutoUnlocking = true) p

abbrev Requesting {α : Type} (p : DProg α) : Prop :=
  Prog.Only (S := daemonSig) (fun o : Op => o.isRequesting = true) p

theorem PinSteps.autoUnlocking {α : Type} {p : DProg α} (h : PinSteps p) : AutoUnlocking p :=
  h.mono fun o ho => by cases o <;> first | rfl | exact absurd ho Bool.false_ne_true

theorem SlotReads.autoUnlocking {α : Type} {p : DProg α} (h : SlotReads p) : AutoUnlocking p :=
  h.mono fun o ho => by cases o <;> first | rfl | exact absurd ho Bool.false_ne_true

theorem SlotSteps.autoUnlocking {α : Type} {p : DProg α} (h : SlotSteps p) : AutoUnlocking p :=
  h.mono fun o ho => by cases o <;> first | rfl | exact absurd ho Bool.false_ne_true

theorem AutoUnlocking.requesting {α : Type} {p : DProg α} (h : AutoUnlocking p) : Requesting p :=
  h.mono fun o ho => by
    cases o with
    | storeVaultLocked b => cases b <;> first | rfl | exact absurd ho Bool.false_ne_true
    | writeLocalCacheKey k => cases k <;> first | rfl | exact absurd ho Bool.false_ne_true
    | _ => first | rfl | exact absurd ho Bool.false_ne_true

theorem Answering.requesting {α : Type} {p : DProg α} (h : Answering p) : Requesting p :=
  h.mono fun o ho => by cases o <;> first | rfl | exact absurd ho Bool.false_ne_true

theorem autoUnlocking_unlockWithDecryptedKeys (E : Crates) (request : SshAgentUIRequest) (keysJson : String)
    (key : SymmetricKey) {seed : DProg Unit} (hseed : AutoUnlocking seed) (event : RuntimeEvent) :
    AutoUnlocking (unlockWithDecryptedKeys E request keysJson key seed event) := by
  unfold unlockWithDecryptedKeys
  split
  · trivial
  · exact .bind (.bind (only_op rfl) fun _ => only_op rfl) fun _ => .bind (only_op rfl)
      fun _ => .ite (.bind hseed fun _ => .bind (only_op rfl) fun _ => .bind (only_op rfl)
        fun _ => .bind (only_op rfl) fun _ => trivial) trivial

theorem autoUnlocking_autoUnlockNative (E : Crates) (cfg : Config) (request : SshAgentUIRequest) :
    AutoUnlocking (autoUnlockNative E cfg request) := by
  refine .bind (only_op rfl) fun cache => ?_
  cases cache with
  | none => trivial
  | some cache =>
    refine .bind (slotReads_currentNativeUnlockSlot cfg cache).autoUnlocking fun slot => .ite trivial <|
      .bind (slotReads_decryptWithNative E cfg cache).autoUnlocking fun r => ?_
    cases r with
    | error e => trivial
    | ok opened =>
      have hnothing : AutoUnlocking (pure () : DProg Unit) := trivial
      exact autoUnlocking_unlockWithDecryptedKeys E request _ _ hnothing _

theorem autoUnlocking_autoUnlockPin (E : Crates) (cfg : Config) (request : SshAgentUIRequest) :
    AutoUnlocking (autoUnlockPin E cfg request) := by
  refine .bind (only_op rfl) fun cache => ?_
  dsimp only
  split
  · trivial
  · refine .bind (only_op rfl) fun names => .bind (pinSteps_requestPinDialog _ _).autoUnlocking fun r => ?_
    cases r with
    | none => trivial
    | some opened =>
      exact autoUnlocking_unlockWithDecryptedKeys E request _ _
        (slotSteps_enrollDevicePlatformSlotsIfMissing E cfg _).autoUnlocking _

theorem requesting_handleUiRequest (E : Crates) (cfg : Config) (request : SshAgentUIRequest) :
    Requesting (handleUiRequest E cfg request) := by
  have hprompt : ∀ name, Requesting (do
      let approved ← runAuthorizationPrompt cfg request name
      op (.broadcast request.requestId approved)) := fun name =>
    .bind (prompting_runAuthorizationPrompt cfg request name).answering.requesting fun _ => only_op rfl
  have hlocked : Requesting (handleLockedRequest E cfg request) := by
    refine .bind (autoUnlocking_autoUnlockNative E cfg request).requesting fun r => ?_
    cases r with
    | some name => exact hprompt name
    | none =>
      refine .bind (autoUnlocking_autoUnlockPin E cfg request).requesting fun r => ?_
      cases r with
      | some name => exact hprompt name
      | none => exact only_op rfl
  refine .ite ?_ (.bind (only_op rfl) fun _ => .ite hlocked ?_)
  · exact .bind (only_op rfl) fun _ => .bind (only_op rfl) fun _ => only_op rfl
  · exact .bind (only_op rfl) fun _ => .ite (only_op rfl) (answering_handleUnlockedRequest cfg request).requesting

end SshWarden
