import SshWarden.Footprints
import SshWarden.Scenario

/-!
# A password login as a sync

`unlock --password` fetches the vault with a client of its own and goes through the steps of `do_sync` once
more. Both are described by what they make of the keys the daemon holds and of the cache (`KeyState`), given
the answers from outside that decide it: the list of keys, the random value and the outcome of the write of
the cache.
-/

namespace SshWarden
open Prog

/-- The keys of the daemon, what it knows of them, and the cache. -/
structure KeyState where
  keystore : Assoc Bytes SshWardenKey
  cachedKeyTuples : List KeyTuple
  publicKeyIdentityTuples : List KeyTuple
  keyNames : Assoc String String
  keyMaterialFingerprints : Assoc String String
  authorizationMemory : List (String × String)
  localCacheKey : Option SymmetricKey
  cache : Option LocalKeyCacheFile
  diskCache : Option LocalKeyCacheFile
  staleCache : Bool
  hasSynced : Bool
deriving DecidableEq

def Daemon.keyState (s : Daemon) : KeyState where
  keystore := s.agent.keystore
  cachedKeyTuples := s.cachedKeyTuples
  publicKeyIdentityTuples := s.publicKeyIdentityTuples
  keyNames := s.keyNames
  keyMaterialFingerprints := s.keyMaterialFingerprints
  authorizationMemory := s.authorizationMemory
  localCacheKey := s.localCacheKeyState
  cache := s.localKeyCacheData
  diskCache := s.disk.localKeyCache
  staleCache := s.notificationState.staleCache
  hasSynced := s.notificationState.lastSyncAt.isSome

/-- The server answers with `keys`, the random value is `iv` and the write of the cache ends with `saved`. No
login and no sync asks twice for one of them. -/
def GetsKeys (keys : List DecryptedSshKey) (iv : Bytes) (saved : Except String Unit) : Event → Prop
  | ⟨.fetchSync _, a⟩ => a = .ok keys
  | ⟨.randomIv, a⟩ => a = iv
  | ⟨.saveLocalKeyCache _, a⟩ => a = saved
  | _ => True

namespace KeyState
variable (E : Crates) (cfg : Config) (keys : List KeyTuple) (iv : Bytes) (saved : Except String Unit)

/-- The cache after a refresh that may fail. -/
def refreshed (v : KeyState) : KeyState :=
  match v.cache, v.localCacheKey with
  | some existing, some key =>
    match buildEnvelopeLocalKeyCache E iv keys existing.header.email existing.header.serverUrl key
        (refreshedSlots cfg existing.localCacheKey), saved with
    | .ok cache, .ok _ => { v with cache := some cache, diskCache := some cache, staleCache := false }
    | _, _ => { v with staleCache := true }
  | _, _ => v

variable {E cfg keys iv saved} {v : KeyState} {existing : LocalKeyCacheFile} {key : SymmetricKey}

theorem refreshed_stale (hcache : v.cache = some existing) (hkey : v.localCacheKey = some key) {e : String}
    (h : buildEnvelopeLocalKeyCache E iv keys existing.header.email existing.header.serverUrl key
      (refreshedSlots cfg existing.localCacheKey) = .error e ∨ saved = .error e) :
    refreshed E cfg keys iv saved v = { v with staleCache := true } := by
  simp only [refreshed, hcache, hkey]
  rcases h with h | h
  · rw [h]
  · rw [h]
    cases buildEnvelopeLocalKeyCache E iv keys existing.header.email existing.header.serverUrl key
      (refreshedSlots cfg existing.localCacheKey) <;> rfl

theorem refreshed_ok (hcache : v.cache = some existing) (hkey : v.localCacheKey = some key)
    {cache : LocalKeyCacheFile}
    (h : buildEnvelopeLocalKeyCache E iv keys existing.header.email existing.header.serverUrl key
      (refreshedSlots cfg existing.localCacheKey) = .ok cache) (hsaved : saved = .ok ()) :
    refreshed E cfg keys iv saved v =
      { v with localCacheKey := some key, cache := some cache, diskCache := some cache, staleCache := false } := by
  simp only [refreshed, hcache, hkey, h, hsaved]

theorem refreshed_of_none (h : v.cache = none ∨ v.localCacheKey = none) : refreshed E cfg keys iv saved v = v := by
  unfold refreshed
  rcases h with h | h
  · rw [h]
  · rw [h]
    cases v.cache <;> rfl

variable (E cfg keys iv saved)

/-- The lists and the fingerprints of the new keys; the approvals of changed items are forgotten. -/
def listed (v : KeyState) : KeyState :=
  { v with
    authorizationMemory := v.authorizationMemory.filter fun key =>
      key.1 ∉ changedOrRemoved v.keyMaterialFingerprints (keyMaterialFingerprintsFromTuples E keys)
    publicKeyIdentityTuples := keys
    cachedKeyTuples := keys
    keyMaterialFingerprints := keyMaterialFingerprintsFromTuples E keys }

def reconciled (v : KeyState) : KeyState := (v.listed E keys).refreshed E cfg keys iv saved

/-- After the keys were named and loaded into the agent. -/
def loaded (v : KeyState) : KeyState :=
  { reconciled E cfg keys iv saved v with keyNames := keyNamesOf keys, keystore := Agent.keystoreOf E keys }

end KeyState

def Daemon.listed (E : Crates) (keys : List KeyTuple) (s : Daemon) : Daemon :=
  { s with
    authorizationMemory := s.authorizationMemory.filter fun key =>
      key.1 ∉ changedOrRemoved s.keyMaterialFingerprints (keyMaterialFingerprintsFromTuples E keys)
    publicKeyIdentityTuples := keys
    cachedKeyTuples := keys
    keyMaterialFingerprints := keyMaterialFingerprintsFromTuples E keys }

section
variable {E : Crates} {cfg : Config} {keys : List DecryptedSshKey} {iv : Bytes} {saved : Except String Unit}
  {s s' : Daemon} {α : Type}

abbrev loginMachine (E : Crates) (keys : List DecryptedSshKey) (iv : Bytes) (saved : Except String Unit) :
    Machine daemonSig Daemon := (machine E).restrict (GetsKeys keys iv saved)

/-- The state has come from `s` with the key state `v` and the agent, the lock flag and the pending sync of `s`. -/
structure ComesTo (s : Daemon) (v : KeyState) (s' : Daemon) : Prop where
  keyState : s'.keyState = v
  agent : s'.agent = s.agent
  vaultLocked : s'.vaultLocked = s.vaultLocked
  pendingSync : s'.pendingSync = s.pendingSync

theorem wp_notifies {u : NotificationUpdate} {Q : Unit → Daemon → Prop}
    (h : ∀ now, Q () { s with clock := now, notificationState := u.apply now s.notificationState }) :
    wp (loginMachine E keys iv saved) (fun _ _ => True) (notify u) Q s :=
  ⟨trivial, fun now _ => ⟨trivial, fun _ _ => h now⟩⟩

theorem wp_clearMemory (old : Assoc String String) (tuples : List KeyTuple)
    (hold : old = s.keyMaterialFingerprints)
    {Q : Assoc String String → Daemon → Prop}
    (h : Q (keyMaterialFingerprintsFromTuples E tuples) { s with
      authorizationMemory := s.authorizationMemory.filter fun key =>
        key.1 ∉ changedOrRemoved s.keyMaterialFingerprints (keyMaterialFingerprintsFromTuples E tuples) }) :
    wp (loginMachine E keys iv saved) (fun _ _ => True)
      (clearAuthorizationMemoryForChangedKeys E old tuples) Q s := by
  subst hold
  refine (wp_ite ..).2 ⟨fun hnone => ?_, fun _ => ⟨trivial, fun _ _ => h⟩⟩
  rw [hnone] at h
  simpa using h

theorem wp_refreshes (tuples : List KeyTuple) {existing : LocalKeyCacheFile} {key : SymmetricKey}
    (hcache : s.keyState.cache = some existing) (hkey : s.keyState.localCacheKey = some key) :
    wp (loginMachine E keys iv saved) (fun _ _ => True) (do
      match ← refreshEnvelopeLocalKeyCache E cfg tuples existing key with
      | .ok cache =>
        op (.writeLocalKeyCache (some cache))
        op (.writeLocalCacheKey (some key))
        notify .markCacheRefreshed
      | .error e => notify (.markCacheStale e))
      (fun _ => ComesTo s (s.keyState.refreshed E cfg tuples iv saved)) s := by
  refine wp_bind .. |>.2 (wp_perform_bind.2 ⟨trivial, fun iv' hiv => ?_⟩)
  obtain rfl : iv' = iv := hiv.2
  cases hbuild : buildEnvelopeLocalKeyCache E iv' tuples existing.header.email existing.header.serverUrl key
      (refreshedSlots cfg existing.localCacheKey) with
  | error e =>
    rw [KeyState.refreshed_stale hcache hkey (.inl hbuild)]
    exact wp_notifies fun now => ⟨rfl, rfl, rfl, rfl⟩
  | ok cache =>
    refine wp_perform_bind.2 ⟨trivial, fun outcome houtcome => ?_⟩
    obtain rfl : outcome = saved := houtcome.2
    cases outcome with
    | error e =>
      rw [KeyState.refreshed_stale hcache hkey (.inr rfl)]
      exact wp_notifies fun now => ⟨rfl, rfl, rfl, rfl⟩
    | ok _ =>
      rw [KeyState.refreshed_ok hcache hkey hbuild rfl]
      exact ⟨trivial, fun _ _ => ⟨trivial, fun _ _ => wp_notifies fun now => ⟨rfl, rfl, rfl, rfl⟩⟩⟩

theorem wp_reconciles (tuples : List KeyTuple) :
    wp (loginMachine E keys iv saved) (fun _ _ => True) (reconcileSyncedKeyState E cfg tuples)
      (fun _ => ComesTo s (s.keyState.reconciled E cfg tuples iv saved)) s := by
  refine wp_perform_bind.2 ⟨trivial, fun old hold => wp_bind .. |>.2 (wp_clearMemory old tuples hold.1 ?_)⟩
  refine wp_perform_bind.2 ⟨trivial, fun _ _ => wp_perform_bind.2 ⟨trivial, fun _ _ => ?_⟩⟩
  refine wp_perform_bind.2 ⟨trivial, fun _ _ => ?_⟩
  refine wp_perform_bind.2 ⟨trivial, fun existing hexisting => wp_perform_bind.2 ⟨trivial, fun key hkey => ?_⟩⟩
  have hcache : (s.listed E tuples).keyState.cache = existing := hexisting.1.symm
  have hlock : (s.listed E tuples).keyState.localCacheKey = key := hkey.1.symm
  have hlisted : s.keyState.listed E tuples = (s.listed E tuples).keyState := rfl
  unfold KeyState.reconciled
  rw [hlisted]
  cases existing with
  | none =>
    rw [KeyState.refreshed_of_none (.inl hcache)]
    exact ⟨rfl, rfl, rfl, rfl⟩
  | some existing =>
    cases key with
    | none =>
      rw [KeyState.refreshed_of_none (.inr hlock)]
      exact ⟨rfl, rfl, rfl, rfl⟩
    | some key => exact (wp_refreshes tuples hcache hlock).post fun _ s' h => ⟨h.1, h.2, h.3, h.4⟩

/-- The key state, with no sync pending. -/
def AtRest (v : KeyState) (s : Daemon) : Prop := s.keyState = v ∧ s.pendingSync = false

theorem SessionSteps.wp {p : DProg α} (h : SessionSteps p) {v : KeyState} (hs : AtRest v s) :
    Prog.wp (loginMachine E keys iv saved) (fun _ _ => True) p (fun _ => AtRest v) s := by
  refine (Only.wp (I := AtRest v) h (fun o s a ho hs _ => ?_) hs).mono (fun _ _ _ => trivial) fun _ _ h => h
  cases o with
  | notification now u => cases u <;> first | exact absurd ho Bool.false_ne_true | exact hs
  | saveSession f => cases a <;> exact hs
  | _ => first | exact absurd ho Bool.false_ne_true | exact hs

theorem atRest_resolvePendingSync {v : KeyState} (hs : AtRest v s) :
    Prog.wp (loginMachine E keys iv saved) (fun _ _ => True) (resolvePendingSync E cfg) (fun _ => AtRest v) s := by
  refine wp_perform_bind.2 ⟨trivial, fun pending hpending => ?_⟩
  obtain rfl : pending = false := hpending.1.trans hs.2
  exact ⟨hs.1, rfl⟩

/-! ### Both ways -/

theorem keystore_setKeys {a : Agent} (h : a.isRunning = true) (E : Crates) (tuples : List KeyTuple) :
    (a.setKeys E tuples).keystore = Agent.keystoreOf E tuples := by
  unfold Agent.setKeys
  rw [if_pos h]

/-- The state after the keys were named and given to the running agent. -/
theorem ComesTo.loaded {tuples : List KeyTuple} {s₁ : Daemon}
    (h : ComesTo s (s.keyState.reconciled E cfg tuples iv saved) s₁) (hrunning : s₁.agent.isRunning = true) :
    Daemon.keyState { s₁ with keyNames := keyNamesOf tuples, agent := s₁.agent.setKeys E tuples } =
      s.keyState.loaded E cfg tuples iv saved := by
  unfold KeyState.loaded
  rw [← h.keyState, ← keystore_setKeys hrunning]
  rfl

theorem wp_fetchedKeys (client : BitwardenClient) {Q : Except String (List DecryptedSshKey) → Daemon → Prop}
    (herror : ∀ e, Q (.error e) s) (hok : Q (.ok keys) s) :
    wp (loginMachine E keys iv saved) (fun _ _ => True) (syncSshKeys client) Q s := by
  refine (wp_ite ..).2 ⟨fun _ => herror _, fun _ => (wp_ite ..).2 ⟨fun _ => herror _, fun _ => ⟨trivial, ?_⟩⟩⟩
  intro fetched hfetched
  obtain rfl : fetched = .ok keys := hfetched.2
  exact hok

theorem wp_finishedLogin (hpending : s.pendingSync = false) (client : BitwardenClient) (wasLocked : Bool) :
    wp (loginMachine E keys iv saved) (fun _ _ => True) (finishLogin E cfg client keys wasLocked)
      (fun resp s' => resp.ok = true →
        s'.keyState = s.keyState.loaded E cfg (keys.map DecryptedSshKey.tuple) iv saved) s := by
  refine wp_perform_bind.2 ⟨trivial, fun _ _ => wp_perform_bind.2 ⟨trivial, fun _ _ => ?_⟩⟩
  refine wp_bind .. |>.2 ((wp_reconciles _).post fun _ s₁ h₁ => ?_)
  refine wp_perform_bind.2 ⟨trivial, fun _ _ => wp_perform_bind.2 ⟨trivial, fun running hrunning => ?_⟩⟩
  have hrunning : running = s₁.agent.isRunning := hrunning.1
  cases running with
  | false => exact nofun
  | true =>
    have hloaded := h₁.loaded hrunning.symm
    refine wp_perform_bind.2 ⟨trivial, fun _ _ => wp_bind .. |>.2 ?_⟩
    refine (SessionSteps.wp (v := s.keyState.loaded E cfg (keys.map DecryptedSshKey.tuple) iv saved)
      (savingSteps_saveDeviceSession E client none).session ?_).post fun _ s₂ h₂ => wp_bind .. |>.2 ?_
    · exact ⟨hloaded, h₁.pendingSync.trans hpending⟩
    refine ((hubSteps_connectIfAuthenticated cfg client).session.wp h₂).post fun _ s₃ h₃ => ?_
    refine wp_perform_bind.2 ⟨trivial, fun _ _ => wp_bind .. |>.2 ?_⟩
    refine wp.post (atRest_resolvePendingSync ?_) fun _ s₄ h₄ _ => h₄.1
    exact ⟨h₃.1, h₃.2⟩

theorem wp_login (hpending : s.pendingSync = false) (password : String) :
    wp (loginMachine E keys iv saved) (fun _ _ => True) (handleUnlockPassword E cfg password)
      (fun resp s' => resp.ok = true →
        s'.keyState = s.keyState.loaded E cfg (keys.map DecryptedSshKey.tuple) iv saved) s := by
  refine wp_perform_bind.2 ⟨trivial, fun wasLocked _ => (wp_ite ..).2 ⟨fun _ => nofun, fun _ => ?_⟩⟩
  refine wp_perform_bind.2 ⟨trivial, fun deviceId _ => wp_perform_bind.2 ⟨trivial, fun granted _ => ?_⟩⟩
  cases granted with
  | error e => exact nofun
  | ok granted =>
    refine wp_bind .. |>.2 (wp_fetchedKeys _ (fun _ => nofun) ?_)
    exact wp_finishedLogin hpending _ wasLocked

theorem wp_finishedSync (hunlocked : s.vaultLocked = false) :
    wp (loginMachine E keys iv saved) (fun _ _ => True) (doSync E cfg)
      (fun r s' => ∀ n, r = .ok n →
        s'.keyState =
          { s.keyState.loaded E cfg (keys.map DecryptedSshKey.tuple) iv saved with hasSynced := true }) s := by
  refine wp_perform_bind.2 ⟨trivial, fun _ _ => wp_perform_bind.2 ⟨trivial, fun client _ => ?_⟩⟩
  cases client with
  | none => exact ⟨trivial, fun _ _ => nofun⟩
  | some client =>
    refine (wp_ite ..).2 ⟨fun _ => ?_, fun _ => ?_⟩
    · exact ⟨trivial, fun _ _ => nofun⟩
    refine wp_bind .. |>.2 (wp_fetchedKeys client (fun e => ?_) ?_)
    · exact ⟨trivial, fun _ _ => nofun⟩
    refine wp_perform_bind.2 ⟨trivial, fun _ _ => wp_perform_bind.2 ⟨trivial, fun _ _ => ?_⟩⟩
    refine wp_bind .. |>.2 ((wp_reconciles _).post fun _ s₁ h₁ => ?_)
    refine wp_perform_bind.2 ⟨trivial, fun _ _ => wp_perform_bind.2 ⟨trivial, fun _ _ => ?_⟩⟩
    refine wp_perform_bind.2 ⟨trivial, fun locked hlocked => ?_⟩
    obtain rfl : locked = false := hlocked.1.trans (h₁.vaultLocked.trans hunlocked)
    refine wp_perform_bind.2 ⟨trivial, fun running hrunning => ?_⟩
    have hrunning : running = s₁.agent.isRunning := hrunning.1
    cases running with
    | false => exact nofun
    | true =>
      have hloaded : _ = s.keyState.loaded E cfg (keys.map DecryptedSshKey.tuple) iv saved :=
        h₁.loaded hrunning.symm
      refine wp_bind .. |>.2 (wp_notifies fun now n _ => ?_)
      rw [← hloaded]
      rfl

theorem hasSynced_loaded (tuples : List KeyTuple) (v : KeyState) :
    (v.loaded E cfg tuples iv saved).hasSynced = v.hasSynced := by
  unfold KeyState.loaded KeyState.reconciled KeyState.refreshed
  dsimp only
  split
  · split <;> rfl
  · rfl

variable {s₁ s₂ : Daemon} {tr tr' : List Event} {resp : ControlResponse} {n : Nat} {password : String}

/-- A login leaves what a sync leaves, but does not note that the vault was synced. -/
theorem login_without_sync_time (hunlocked : s.vaultLocked = false) (hpending : s.pendingSync = false)
    (hlogin : Steps (machine E) (handleUnlockPassword E cfg password) s tr (.ret resp) s₁) (hok : resp.ok = true)
    (hsync : Steps (machine E) (doSync E cfg) s tr' (.ret (.ok n)) s₂)
    (hgets : ∀ e ∈ tr, GetsKeys keys iv saved e) (hgets' : ∀ e ∈ tr', GetsKeys keys iv saved e) :
    s₂.keyState = { s₁.keyState with hasSynced := true } ∧ s₁.keyState.hasSynced = s.keyState.hasSynced := by
  have hlogged := (wp_login hpending password).of_ret (hlogin.restrict hgets) hok
  have hsynced := (wp_finishedSync hunlocked).of_ret (hsync.restrict hgets') n rfl
  rw [hsynced, hlogged]
  exact ⟨rfl, hasSynced_loaded _ _⟩

end

/-- An unlocked daemon without a pending sync is left in the same key state by a password login and by a sync that
get the same keys exactly when it has been synced before. -/
theorem login_is_sync_iff {E : Crates} {cfg : Config} {password : String} {keys : List DecryptedSshKey}
    {iv : Bytes}
    {saved : Except String Unit} {s s₁ s₂ : Daemon} {tr tr' : List Event} {resp : ControlResponse} {n : Nat}
    (hunlocked : s.vaultLocked = false) (hpending : s.pendingSync = false)
    (hlogin : Steps (machine E) (handleUnlockPassword E cfg password) s tr (.ret resp) s₁) (hok : resp.ok = true)
    (hsync : Steps (machine E) (doSync E cfg) s tr' (.ret (.ok n)) s₂)
    (hgets : ∀ e ∈ tr, GetsKeys keys iv saved e) (hgets' : ∀ e ∈ tr', GetsKeys keys iv saved e) :
    s₁.keyState = s₂.keyState ↔ s.notificationState.lastSyncAt.isSome = true := by
  obtain ⟨hafter, hkept⟩ := login_without_sync_time hunlocked hpending hlogin hok hsync hgets hgets'
  have hbefore : s.keyState.hasSynced = s.notificationState.lastSyncAt.isSome := rfl
  rw [hafter, ← hbefore, ← hkept]
  constructor
  · intro h
    rw [h]
  · intro h
    rw [← h]

instance (keys : List DecryptedSshKey) (iv : Bytes) (saved : Except String Unit) (e : Event) :
    Decidable (GetsKeys keys iv saved e) := by
  unfold GetsKeys
  split <;> infer_instance

def loginEnd (cfg : Config) (s : Daemon) : DProg ControlResponse × Daemon :=
  plainScript.run .plain enough (handleUnlockPassword .plain cfg "password") s

def syncEnd (cfg : Config) (s : Daemon) : DProg (Except String Nat) × Daemon :=
  plainScript.run .plain enough (doSync .plain cfg) s

/-- The login and the sync of the device both succeed from the state, with the same answers from outside. -/
def bothSucceed (cfg : Config) (s : Daemon) : Bool :=
  !s.vaultLocked && !s.pendingSync && (loginEnd cfg s).1.result?.any ControlResponse.ok &&
    (syncEnd cfg s).1.result?.any Except.isOk &&
    (Prog.trace (machine .plain) plainScript.answer enough (handleUnlockPassword .plain cfg "password") s).all
      (fun e => GetsKeys plainVault [] (.ok ()) e) &&
    (Prog.trace (machine .plain) plainScript.answer enough (doSync .plain cfg) s).all
      fun e => GetsKeys plainVault [] (.ok ()) e

theorem runs_of_bothSucceed {cfg : Config} {s : Daemon} (h : bothSucceed cfg s = true) :
    s.vaultLocked = false ∧ s.pendingSync = false ∧ ∃ s₁ s₂ tr tr' resp n,
      Steps (machine .plain) (handleUnlockPassword .plain cfg "password") s tr (.ret resp) s₁ ∧ resp.ok = true ∧
      Steps (machine .plain) (doSync .plain cfg) s tr' (.ret (.ok n)) s₂ ∧
      (∀ e ∈ tr, GetsKeys plainVault [] (.ok ()) e) ∧ ∀ e ∈ tr', GetsKeys plainVault [] (.ok ()) e := by
  simp only [bothSucceed, Bool.and_eq_true, Bool.not_eq_true'] at h
  obtain ⟨⟨⟨⟨⟨hunlocked, hpending⟩, hlogin⟩, hsync⟩, hgets⟩, hgets'⟩ := h
  obtain ⟨resp, hresp, hok⟩ := (Option.any_eq_true _ _).1 hlogin
  obtain ⟨r, hr, hrok⟩ := (Option.any_eq_true _ _).1 hsync
  have hsteps := plainScript.run_steps .plain enough (handleUnlockPassword .plain cfg "password") s
  have hsteps' := plainScript.run_steps .plain enough (doSync .plain cfg) s
  have hend : (loginEnd cfg s).1 = .ret resp := eq_ret_of_result? hresp
  have hend' : (syncEnd cfg s).1 = .ret r := eq_ret_of_result? hr
  unfold loginEnd at hend
  unfold syncEnd at hend'
  rw [hend] at hsteps
  rw [hend'] at hsteps'
  cases r with
  | error e => cases hrok
  | ok n =>
    exact ⟨hunlocked, hpending, _, _, _, _, resp, n, hsteps, hok, hsteps',
      fun e he => of_decide_eq_true (List.all_eq_true.1 hgets e he),
      fun e he => of_decide_eq_true (List.all_eq_true.1 hgets' e he)⟩

/-- After a sync a login leaves what another sync would. -/
theorem login_is_sync_synced : ∃ cfg s s₁ s₂ tr tr' resp n, Reachable .plain plainConfig cfg s ∧
    Steps (machine .plain) (handleUnlockPassword .plain cfg "password") s tr (.ret resp) s₁ ∧ resp.ok = true ∧
    Steps (machine .plain) (doSync .plain cfg) s tr' (.ret (.ok n)) s₂ ∧ s₁.keyState = s₂.keyState := by
  have hrun : (afterLogin plainConfig [.take (.control .sync) plainScript]).any
      (fun x => bothSucceed x.1 x.2 && x.2.notificationState.lastSyncAt.isSome) = true := by decide +kernel
  obtain ⟨cfg, s, hreach, hcheck⟩ := exists_of_afterLogin hrun
  obtain ⟨hboth, hsome⟩ := (Bool.and_eq_true_iff (x := bothSucceed cfg s)).1 hcheck
  obtain ⟨hunlocked, hpending, s₁, s₂, tr, tr', resp, n, hlogin, hok, hsync, hgets, hgets'⟩ :=
    runs_of_bothSucceed hboth
  exact ⟨cfg, s, s₁, s₂, tr, tr', resp, n, hreach, hlogin, hok, hsync,
    (login_is_sync_iff hunlocked hpending hlogin hok hsync hgets hgets').2 hsome⟩

/-- After the first login another one still does not note that the vault was synced. -/
theorem login_not_noted : ¬∀ (E : Crates) (cfg₀ cfg : Config) (password : String) (keys : List DecryptedSshKey)
    (iv : Bytes) (saved : Except String Unit) (s s₁ s₂ : Daemon) (tr tr' : List Event)
    (resp : ControlResponse) (n : Nat),
    Reachable E cfg₀ cfg s → s.vaultLocked = false → s.pendingSync = false →
      Steps (machine E) (handleUnlockPassword E cfg password) s tr (.ret resp) s₁ → resp.ok = true →
      Steps (machine E) (doSync E cfg) s tr' (.ret (.ok n)) s₂ →
      (∀ e ∈ tr, GetsKeys keys iv saved e) → (∀ e ∈ tr', GetsKeys keys iv saved e) →
      s₁.keyState = s₂.keyState := by
  intro hall
  have hrun : (afterLogin plainConfig []).any
      (fun x => bothSucceed x.1 x.2 && x.2.notificationState.lastSyncAt.isNone) = true := by decide +kernel
  obtain ⟨cfg, s, hreach, hcheck⟩ := exists_of_afterLogin hrun
  obtain ⟨hboth, hnone⟩ := (Bool.and_eq_true_iff (x := bothSucceed cfg s)).1 hcheck
  obtain ⟨hunlocked, hpending, s₁, s₂, tr, tr', resp, n, hlogin, hok, hsync, hgets, hgets'⟩ :=
    runs_of_bothSucceed hboth
  have hsame := hall _ _ _ _ _ _ _ s s₁ s₂ tr tr' resp n hreach hunlocked hpending hlogin hok hsync hgets hgets'
  obtain ⟨hafter, hkept⟩ := login_without_sync_time hunlocked hpending hlogin hok hsync hgets hgets'
  have hbefore : s.notificationState.lastSyncAt.isSome = true := by
    refine hkept.symm.trans ?_
    rw [hsame, hafter]
  rw [Option.isNone_iff_eq_none.1 hnone] at hbefore
  cases hbefore

end SshWarden
