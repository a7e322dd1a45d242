import SshWarden.Atomic
import SshWarden.Plain

/-!
# Scripted environments

A `Script` fixes the free answers of one stretch of a run, so that the run can be computed.
-/

namespace SshWarden
open Prog

/-- The free answers, each the same whenever it is asked for. -/
structure Script where
  login : Except String (TokenGrant × SymmetricKey) := .error ""
  fetched : Except String (List DecryptedSshKey) := .error ""
  refreshed : Except String TokenGrant := .error ""
  nativeAvailable : Bool := false
  nativeEncrypted : Except String String := .error ""
  nativeDecrypted : Except String String := .error ""
  lockCacheKey : SymmetricKey := ⟨List.replicate 32 1, List.replicate 32 2⟩
  pins : List String := []
  auth : AuthorizationResult := .denied
  bindDialog : Except String BindHostsResult := .ok .cancelled
  lines : Option String := some ""
  secret : Option String := none
deriving DecidableEq

namespace Script

/-- `LocalKeyCacheFile::load` without file errors. -/
def loadedCache (d : Disk) : Except String (Option LocalKeyCacheFile) :=
  match d.localKeyCache with
  | none => .ok none
  | some c => if c.version ∈ LocalKeyCacheFile.SUPPORTED_VERSIONS then .ok (some c) else .error ""

def freshKey (sc : Script) : SymmetricKey :=
  if sc.lockCacheKey.encKey.length = 32 ∧ sc.lockCacheKey.macKey.length = 32 then sc.lockCacheKey
  else ⟨List.replicate 32 1, List.replicate 32 2⟩

/-- What the environment answers; the state answers where it decides. -/
def answer (sc : Script) : (o : Op) → Daemon → o.Ans
  | .peekApiClient, s | .readApiClient, s => s.apiClient
  | .peekLocalKeyCache, s | .readLocalKeyCache, s => s.localKeyCacheData
  | .readLocalCacheKey, s => s.localCacheKeyState
  | .readCachedKeyTuples, s => s.cachedKeyTuples
  | .readFingerprints, s => s.keyMaterialFingerprints
  | .readKeyNames, s => s.keyNames
  | .tryReadKeyNames, s => some s.keyNames
  | .tryMemoryContains key, s => decide (key ∈ s.authorizationMemory)
  | .readNotification, s => s.notificationState
  | .loadVaultLocked, s => s.vaultLocked
  | .loadPendingSync, s | .swapPendingSync _, s => s.pendingSync
  | .loadInFlightPrompts, s => s.inFlightPrompts
  | .now, s => s.clock
  | .checkPinLockout n, s => (s.pinFailures.lockoutRemaining n).1
  | .recordPin n ok, s => (s.pinFailures.recordAttempt n ok).1
  | .readAgent, s => s.agent
  | .startAgent, _ => true
  | .agentLock, s | .agentSetKeys _, s | .agentSetPublicIdentities _, s => s.agent.isRunning
  | .loadLocalKeyCache, s => loadedCache s.disk
  | .loadUnlockSlots, s => .ok s.disk.unlockSlots
  | .loadSession, s => .ok s.disk.session
  | .saveLocalKeyCache _, _ | .deleteLocalKeyCache, _ | .saveUnlockSlots _, _ | .deleteUnlockSlots, _
  | .saveSession _, _ | .deleteSession, _ | .writeKeySelectorFiles _, _ | .syncManagedSshConfig _, _
  | .nativeDelete _, _ | .connectHub _ _, _ | .persistBindPayload _, _ => .ok ()
  | .nativeAvailable, _ => sc.nativeAvailable
  | .nativeEncrypt _, _ => sc.nativeEncrypted
  | .nativeDecrypt _, _ => sc.nativeDecrypted
  | .randomIv, _ | .randomPinSalt, _ => []
  | .randomSymmetricKey, _ => sc.freshKey
  | .newDeviceId, _ => "device"
  | .loginPassword _ _, _ => sc.login
  | .fetchSync _, _ => sc.fetched
  | .refreshAccessToken _, _ => sc.refreshed
  | .discoverNotificationsUrl _, _ => none
  | .pinDialog _, _ => sc.pins
  | .authDialog _, _ => sc.auth
  | .hostBindings _, _ => []
  | .inferSshTarget _, _ => none
  | .bindHostsDialog _, _ => sc.bindDialog
  | .promptEmail, _ | .promptLine, _ => sc.lines
  | .promptSecret, _ => sc.secret
  | .hold _ _, _ | .release _, _ | .pokeApiClient _, _ | .writeApiClient _, _ | .writeLocalKeyCache _, _
  | .writeLocalCacheKey _, _ | .writeCachedKeyTuples _, _ | .writePublicKeyIdentityTuples _, _
  | .writeFingerprints _, _ | .writeKeyNames _, _ | .insertMemory _, _ | .retainMemory _, _
  | .clearMemory, _ | .notification _ _, _ | .storeVaultLocked _, _ | .storePendingSync _, _
  | .agentClearKeys, _ | .agentClearNeedsUnlock, _ | .setNotificationClient _, _ | .broadcast _ _, _
  | .sendRuntimeEvent _, _ | .sleep _, _ => ()

theorem loadedCache_eq {d : Disk} {c : Option LocalKeyCacheFile} (h : loadedCache d = .ok c) :
    c = d.localKeyCache ∧ ∀ f, c = some f → f.version ∈ LocalKeyCacheFile.SUPPORTED_VERSIONS := by
  unfold loadedCache at h
  split at h
  · rename_i hd
    obtain rfl := Except.ok.inj h
    exact ⟨hd.symm, fun f hf => nomatch hf⟩
  · rename_i f hd
    split at h
    · rename_i hv
      obtain rfl := Except.ok.inj h
      exact ⟨hd.symm, fun f' hf => Option.some.inj hf ▸ hv⟩
    · cases h

theorem freshKey_length (sc : Script) : sc.freshKey.encKey.length = 32 ∧ sc.freshKey.macKey.length = 32 := by
  unfold freshKey
  split
  · assumption
  · exact ⟨rfl, rfl⟩

/-- A script only gives answers the machine allows. -/
theorem ready_answer (E : Crates) (sc : Script) (o : Op) (s : Daemon) :
    (machine E).ready o s (sc.answer o s) := by
  cases o with
  | tryReadKeyNames => exact .inr rfl
  | tryMemoryContains key => exact fun h => of_decide_eq_true h
  | now => exact Nat.le_refl _
  | loadLocalKeyCache => exact fun c hc => loadedCache_eq hc
  | loadUnlockSlots => exact fun f hf => (Except.ok.inj hf).symm
  | loadSession => exact fun f hf => (Except.ok.inj hf).symm
  | randomSymmetricKey => exact sc.freshKey_length
  | _ => first | rfl | trivial

/-- Run a program to its end, or as far as `n` operations. -/
def run (E : Crates) (sc : Script) {α : Type} (n : Nat) (p : DProg α) (s : Daemon) : DProg α × Daemon :=
  exec (machine E) sc.answer n p s

theorem run_steps (E : Crates) (sc : Script) {α : Type} (n : Nat) (p : DProg α) (s : Daemon) :
    Steps (machine E) p s (Prog.trace (machine E) sc.answer n p s) (sc.run E n p s).1 (sc.run E n p s).2 :=
  exec_steps (machine E) sc.answer (ready_answer E sc) n p s

end Script

/-- Every operation can be answered in every state. -/
theorem exists_ready (E : Crates) (o : Op) (s : Daemon) : ∃ a, (machine E).ready o s a :=
  ⟨_, Script.ready_answer E {} o s⟩

/-- The answers of a script to the atomic steps. -/
def Script.atomicAnswer (sc : Script) : (o : AtomicOp) → Daemon → o.Ans
  | .op o, s => sc.answer o s
  | .loadIsRunning, s => s.agent.isRunning
  | .clearKeystore, _ | .insertKey _, _ | .insertIdentity _, _ | .stripPrivateKeys, _
  | .storeNeedsUnlock _, _ => ()

theorem ready_atomicAnswer (E : Crates) (sc : Script) (o : AtomicOp) (s : Daemon) :
    (atomicMachine E).ready o s (sc.atomicAnswer o s) := by
  cases o with
  | op o => exact Script.ready_answer E sc o s
  | loadIsRunning => rfl
  | _ => trivial

/-! ### Scripted runs of the daemon -/

/-- One step of a scripted run. A dropped action is cut after `n` operations. -/
inductive Scene
  | take (ev : MainEvent) (sc : Script)
  | drop (action : ControlAction) (sc : Script) (n : Nat)
  | deliver (e : SyncEvent)
  | ask (request : SshAgentUIRequest) (sc : Script)

/-- Taking up an event, where the channels allow it. -/
def receive? (s : Daemon) : MainEvent → Option Daemon
  | .control action => if action = .stop then none else some s
  | .runtime event =>
    match s.runtimeEvents with
    | e :: rest => if e = event then some { s with runtimeEvents := rest } else none
    | [] => none
  | .hub event =>
    match s.notificationRx with
    | some (e :: rest) => if e = event then some { s with notificationRx := some rest } else none
    | _ => none
  | .tokenRefresh => some s
  | .autoLockTick _ => some s

theorem receives_of_receive? {s s₁ : Daemon} {ev : MainEvent} (h : receive? s ev = some s₁) :
    Receives s ev s₁ := by
  cases ev with
  | control action =>
    simp only [receive?] at h
    split at h
    · cases h
    · obtain rfl := Option.some.inj h
      exact .control action ‹_›
  | runtime event =>
    simp only [receive?] at h
    split at h
    · rename_i e rest hq
      split at h
      · rename_i he
        subst he
        obtain rfl := Option.some.inj h
        exact .runtime e rest hq
      · cases h
    · cases h
  | hub event =>
    simp only [receive?] at h
    split at h
    · rename_i e rest hq
      split at h
      · rename_i he
        subst he
        obtain rfl := Option.some.inj h
        exact .hub e rest hq
      · cases h
    · cases h
  | tokenRefresh => obtain rfl := Option.some.inj h; exact .tokenRefresh
  | autoLockTick idle => obtain rfl := Option.some.inj h; exact .autoLockTick idle

/-- The first operation of a program, if it is an `.await` point. -/
def stopsAtAwait {α : Type} : DProg α → Bool
  | .ret _ => false
  | .vis o _ => o.awaits

theorem dropped_of_stopsAtAwait {α : Type} {p : DProg α} (h : stopsAtAwait p = true) : Dropped p := by
  cases p with
  | ret a => exact absurd h Bool.false_ne_true
  | vis o k => exact ⟨o, k, rfl, h⟩

/-- More operations than any handler of a scripted run performs. -/
def enough : Nat := 400

def Scene.play (E : Crates) (cfg : Config) (s : Daemon) : Scene → Option Daemon
  | take ev sc =>
    (receive? s ev).bind fun s₁ =>
      let end_ := sc.run E enough (mainStep E cfg ev) s₁
      if end_.1.result?.isSome then some end_.2 else none
  | drop action sc n =>
    let end_ := sc.run E n (mainStep E cfg (.control action)) s
    if action ≠ .stop ∧ stopsAtAwait end_.1 = true then some end_.2 else none
  | deliver e => s.notificationRx.map fun queue => { s with notificationRx := some (queue ++ [e]) }
  | ask request sc =>
    let end_ := sc.run E enough (handleUiRequest E cfg request) s
    if end_.1.result?.isSome then some end_.2 else none

def Scene.turn : Scene → Turn
  | take ev _ => .event ev
  | drop action _ _ => .dropped action
  | deliver _ => .arrival
  | ask request _ => .request request

def Scene.trace (E : Crates) (cfg : Config) (s : Daemon) : Scene → List Event
  | take ev sc =>
    match receive? s ev with
    | some s₁ => Prog.trace (machine E) sc.answer enough (mainStep E cfg ev) s₁
    | none => []
  | drop action sc n => Prog.trace (machine E) sc.answer n (mainStep E cfg (.control action)) s
  | deliver _ => []
  | ask request sc => Prog.trace (machine E) sc.answer enough (handleUiRequest E cfg request) s

def playAll (E : Crates) (cfg : Config) : List Scene → Daemon → Option Daemon
  | [], s => some s
  | scene :: scenes, s => (scene.play E cfg s).bind (playAll E cfg scenes)

/-- Every scene passes the check on the state before it, the turn and the events of it. -/
def checkAll (E : Crates) (cfg : Config) (ok : Daemon → Turn → List Event → Bool) :
    List Scene → Daemon → Bool
  | [], _ => true
  | scene :: scenes, s =>
    ok s scene.turn (scene.trace E cfg s) && (scene.play E cfg s).all (checkAll E cfg ok scenes)

/-- The events of the scenes. -/
def traceAll (E : Crates) (cfg : Config) : List Scene → Daemon → List Event
  | [], _ => []
  | scene :: scenes, s =>
    scene.trace E cfg s ++ ((scene.play E cfg s).map (traceAll E cfg scenes)).getD []

/-- The start-up of a device with these files. -/
def playStart (E : Crates) (cfg₀ : Config) (sc : Script) (disk : Disk) : Option (Config × Daemon) :=
  let end_ := sc.run E enough (startUp E cfg₀) { disk := disk }
  (end_.1.result?.bind id).map fun cfg => (cfg, end_.2)

/-- A scene is a turn of the daemon. -/
theorem Scene.step {E : Crates} {cfg : Config} {s s' : Daemon} {scene : Scene}
    (h : scene.play E cfg s = some s') : Step (machine E) E cfg s scene.turn (scene.trace E cfg s) s' := by
  cases scene with
  | take ev sc =>
    obtain ⟨s₁, hr, hend⟩ := Option.bind_eq_some_iff.1 h
    extract_lets at hend
    split at hend
    · rename_i hret
      obtain rfl := Option.some.inj hend
      obtain ⟨u, hu⟩ := Option.isSome_iff_exists.1 hret
      have hsteps := sc.run_steps E enough (mainStep E cfg ev) s₁
      rw [eq_ret_of_result? hu] at hsteps
      rw [trace, hr]
      exact .event (receives_of_receive? hr) hsteps
    · cases hend
  | drop action sc n =>
    simp only [Scene.play] at h
    split at h
    · rename_i hstop
      obtain rfl := Option.some.inj h
      exact .dropped hstop.1 (sc.run_steps E n (mainStep E cfg (.control action)) s)
        (dropped_of_stopsAtAwait hstop.2)
    · cases h
  | deliver e =>
    obtain ⟨queue, hq, rfl⟩ := Option.map_eq_some_iff.1 h
    exact .arrives (.hub e queue hq)
  | ask request sc =>
    simp only [Scene.play] at h
    split at h
    · rename_i hret
      obtain rfl := Option.some.inj h
      obtain ⟨u, hu⟩ := Option.isSome_iff_exists.1 hret
      have hsteps := sc.run_steps E enough (handleUiRequest E cfg request) s
      rw [eq_ret_of_result? hu] at hsteps
      exact .request hsteps
    · cases h

/-- Scenes that pass a check are a run whose turns do. -/
theorem run_playAll {E : Crates} {cfg : Config} {ok : Daemon → Turn → List Event → Bool}
    {scenes : List Scene} {s s' : Daemon} (h : playAll E cfg scenes s = some s')
    (hok : checkAll E cfg ok scenes s = true) :
    Run (machine E) E cfg (fun s t tr => ok s t tr = true) s (traceAll E cfg scenes s) s' := by
  induction scenes generalizing s with
  | nil => exact Option.some.inj h ▸ .nil
  | cons scene scenes ih =>
    obtain ⟨s₁, h₁, h₂⟩ := Option.bind_eq_some_iff.1 h
    rw [checkAll, h₁, Bool.and_eq_true] at hok
    have first : Run (machine E) E cfg (fun s t tr => ok s t tr = true) s ([] ++ scene.trace E cfg s) s₁ :=
      .turn .nil (Scene.step h₁) hok.1
    rw [traceAll, h₁]
    exact first.trans (ih h₂ hok.2)

theorem checkAll_true (E : Crates) (cfg : Config) (scenes : List Scene) (s : Daemon) :
    checkAll E cfg (fun _ _ _ => true) scenes s = true := by
  induction scenes generalizing s with
  | nil => rfl
  | cons scene scenes ih =>
    rw [checkAll, Bool.true_and]
    cases scene.play E cfg s with
    | none => rfl
    | some s₁ => exact ih s₁

theorem reachableIf_playAll {E : Crates} {cfg₀ cfg : Config} {ok : Daemon → Turn → List Event → Bool}
    {scenes : List Scene} {s s' : Daemon}
    (hs : ReachableIf (machine E) (fun s t tr => ok s t tr = true) E cfg₀ cfg s)
    (h : playAll E cfg scenes s = some s') (hok : checkAll E cfg ok scenes s = true) :
    ReachableIf (machine E) (fun s t tr => ok s t tr = true) E cfg₀ cfg s' := by
  obtain ⟨s₀, s₁, tr, hstart, hrun⟩ := hs
  exact ⟨s₀, s₁, _, hstart, hrun.trans (run_playAll h hok)⟩

theorem reachable_playAll {E : Crates} {cfg₀ cfg : Config} {scenes : List Scene} {s s' : Daemon}
    (hs : Reachable E cfg₀ cfg s) (h : playAll E cfg scenes s = some s') : Reachable E cfg₀ cfg s' := by
  obtain ⟨s₀, s₁, tr, hstart, hrun⟩ := hs
  have hrun' := (run_playAll h (checkAll_true E cfg scenes s)).mono fun _ _ _ _ => trivial
  exact ⟨s₀, s₁, _, hstart, hrun.trans hrun'⟩

/-- The events of the start-up. -/
def startTrace (E : Crates) (cfg₀ : Config) (sc : Script) (disk : Disk) : List Event :=
  Prog.trace (machine E) sc.answer enough (startUp E cfg₀) { disk := disk }

theorem steps_playStart {E : Crates} {cfg₀ cfg : Config} {sc : Script} {disk : Disk} {s : Daemon}
    (h : playStart E cfg₀ sc disk = some (cfg, s)) :
    Prog.Steps (machine E) (startUp E cfg₀) { disk := disk } (startTrace E cfg₀ sc disk) (.ret (some cfg)) s := by
  obtain ⟨cfg', hret, heq⟩ := Option.map_eq_some_iff.1 h
  obtain ⟨rfl, rfl⟩ := Prod.mk.inj heq
  obtain ⟨r, hr, rfl⟩ := Option.bind_eq_some_iff.1 hret
  have hsteps := sc.run_steps E enough (startUp E cfg₀) { disk := disk }
  rw [eq_ret_of_result? hr] at hsteps
  exact hsteps

theorem started_playStart {E : Crates} {cfg₀ cfg : Config} {sc : Script} {disk : Disk} {s : Daemon}
    (h : playStart E cfg₀ sc disk = some (cfg, s)) :
    Started (machine E) E cfg₀ cfg { disk := disk } s :=
  .mk rfl (steps_playStart h)

theorem reachable_playStart {E : Crates} {cfg₀ cfg : Config} {sc : Script} {disk : Disk} {s : Daemon}
    {ok : Daemon → Turn → List Event → Prop} (h : playStart E cfg₀ sc disk = some (cfg, s)) :
    ReachableIf (machine E) ok E cfg₀ cfg s :=
  ⟨_, _, _, started_playStart h, .nil⟩

/-! ### One device -/

def plainConfig : Config where
  email := "user@example.org"
  baseUrl := "https://vault.example.org"
  apiUrl := "https://vault.example.org/api"
  identityUrl := "https://vault.example.org/identity"
  multiDevice := false
  promptBehavior := .rememberUntilLock
  autoUnlockOnRequest := true
  lockTimeout := 900

def plainKey : SymmetricKey := ⟨List.replicate 32 1, List.replicate 32 2⟩

def plainVault : List DecryptedSshKey := [⟨"PRIVATE", "ssh-ed25519 AAAA", "work", "item"⟩]

/-- The master password is right, the vault holds one key, the keyring works, and every PIN asked for
at the terminal is `1234`. -/
def plainScript : Script where
  login := .ok (⟨"access", some "refresh", 3600000⟩, ⟨[3], [4]⟩)
  fetched := .ok plainVault
  refreshed := .ok ⟨"access", none, 3600000⟩
  nativeAvailable := true
  nativeEncrypted := .ok "slot"
  nativeDecrypted := .ok (encodeSymmetricKey .plain plainKey)
  lockCacheKey := plainKey
  pins := ["1234"]
  auth := .approved
  secret := some "1234"

/-- The key of the vault is to sign. -/
def signRequest : SshAgentUIRequest where
  requestId := 7
  cipherId := some "item"
  processName := "ssh"
  pid := 4711
  isList := false
  sigNamespace := none
  operationKind := .sshAuthentication
  isForwarding := false

/-- The device after a first login with a PIN, and then some scenes. -/
def afterLogin (cfg : Config) (scenes : List Scene) : Option (Config × Daemon) :=
  (playStart .plain cfg plainScript {}).bind fun x => (playAll .plain x.1 scenes x.2).map (x.1, ·)

theorem reachable_afterLogin {cfg cfg' : Config} {scenes : List Scene} {s : Daemon}
    (h : afterLogin cfg scenes = some (cfg', s)) : Reachable .plain cfg cfg' s := by
  obtain ⟨⟨cfg₁, s₁⟩, h₁, h₂⟩ := Option.bind_eq_some_iff.1 h
  obtain ⟨s₂, h₃, heq⟩ := Option.map_eq_some_iff.1 h₂
  obtain ⟨rfl, rfl⟩ := Prod.mk.inj heq
  exact reachable_playAll (reachable_playStart h₁) h₃

/-- A check on the state a scripted run ends in. -/
theorem exists_of_afterLogin {cfg : Config} {scenes : List Scene} {check : Config × Daemon → Bool}
    (h : (afterLogin cfg scenes).any check = true) :
    ∃ cfg' s, Reachable .plain cfg cfg' s ∧ check (cfg', s) = true := by
  cases hr : afterLogin cfg scenes with
  | none => rw [hr] at h; exact absurd h (by simp)
  | some x => rw [hr] at h; exact ⟨x.1, x.2, reachable_afterLogin hr, by simpa using h⟩

/-- The same with a check on every turn. -/
theorem existsIf_of_afterLogin {cfg : Config} {scenes : List Scene} {check : Config × Daemon → Bool}
    {ok : Daemon → Turn → List Event → Bool}
    (h : ((playStart .plain cfg plainScript {}).any fun x => checkAll .plain x.1 ok scenes x.2 &&
      (playAll .plain x.1 scenes x.2).any fun s => check (x.1, s)) = true) :
    ∃ cfg' s, ReachableIf (machine .plain) (fun s t tr => ok s t tr = true) .plain cfg cfg' s ∧
      check (cfg', s) = true := by
  cases hr : playStart .plain cfg plainScript {} with
  | none => rw [hr] at h; exact absurd h (by simp)
  | some x =>
    rw [hr, Option.any_some, Bool.and_eq_true] at h
    cases hp : playAll .plain x.1 scenes x.2 with
    | none => rw [hp] at h; exact absurd h.2 (by simp)
    | some s => rw [hp] at h; exact ⟨x.1, s, reachableIf_playAll (reachable_playStart hr) hp h.1, h.2⟩

end SshWarden
