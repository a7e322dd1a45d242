import SshWarden.Sync

/-!
# The control commands (`src/control.rs`, `src/bindings_cli.rs`)

`handleControlCommand` dispatches to one program for each action. The branches for Windows Hello are
those of a build for another platform, and the status response leaves out the paths and the
connection label, which depend on no state of the daemon that a handler changes.
-/

namespace SshWarden

def loadManagedKeysFromCache : DProg (Except String (List KeyIdentity)) := do
  match ← op .loadLocalKeyCache with
  | .error _ => return .error "Failed to load local key cache"
  | .ok none =>
    return .error "No local key cache found — run `sshwarden login` or `sshwarden sync` first"
  | .ok (some cache) => return .ok cache.header.keys

def bindHostsEntries (keys : List KeyIdentity) (bindings : Assoc String (List String)) :
    List BindHostsKeyEntry :=
  keys.map fun k => ⟨k.vaultItemId, k.name, (bindings.get? k.vaultItemId).getD []⟩

def dispatchStandaloneBindHostsDialog : DProg (Except String Bool) := do
  match ← loadManagedKeysFromCache with
  | .error e => return .error e
  | .ok keys =>
    let bindings ← op (.hostBindings keys)
    let entries := bindHostsEntries keys bindings
    if entries.isEmpty then return .error "No SSH keys available — run `sshwarden sync` or login first"
    else
      match ← op (.bindHostsDialog ⟨entries, none, none, false⟩) with
      | .error e => return .error e
      | .ok .cancelled => return .ok false
      | .ok (.saved payload) =>
        match ← op (.persistBindPayload payload) with
        | .error e => return .error e
        | .ok _ => return .ok true

/-- The only error of the agent's `lock`. -/
def lockError : String := "[SshWardenAgent] Tried to lock agent, but it is not running"

def lockVault : DProg (Except String Unit) := do
  if ← op .agentLock then
    op (.storeVaultLocked true)
    op (.writeCachedKeyTuples [])
    op (.writeLocalCacheKey none)
    op .clearMemory
    return .ok ()
  else return .error lockError

def handleLock : DProg ControlResponse := do
  if ← op .loadVaultLocked then return .success "Vault is already locked"
  else
    match ← lockVault with
    | .ok _ => return .success "Vault locked"
    | .error e => return .err s!"Failed to lock: {e}"

def statusExtras (cfg : Config) (agent : Agent) (hasPin hasLocalKeyCache authenticated pending : Bool)
    (notification : NotificationRuntimeState) : List String :=
  (if !agent.isRunning then ["AGENT NOT SERVING (SSH endpoint unavailable)"] else []) ++
  (if 0 < agent.keyCount ∧ agent.signableKeyCount < agent.keyCount then
    ["keys listed but not signable until unlock"] else []) ++
  (if hasPin then ["PIN configured"] else []) ++
  (if hasLocalKeyCache then ["local key cache present"] else []) ++
  (if authenticated then ["API session restored"] else []) ++
  (if cfg.multiDevice then ["multi-device storage"] else []) ++
  (if pending then ["pending sync"] else []) ++
  (if notification.staleCache then ["local key cache refresh failed"] else [])

/-- The text without the connection label that ends it. -/
def statusMessage (locked : Bool) (extras : List String) : String :=
  (if locked then "Vault is locked" else "Vault is unlocked") ++ " (" ++ ", ".intercalate extras ++ ")"

def buildStatusResponse (cfg : Config) (json : Bool) : DProg ControlResponse := do
  let locked ← op .loadVaultLocked
  let agent ← op .readAgent
  let hasPin := (← op .readLocalKeyCache).any fun c => c.localCacheKey.pinEncrypted.isSome
  let hasLocalKeyCache := (← op .readLocalKeyCache).isSome
  let authenticated := (← op .readApiClient).isSome
  let pending ← op .loadPendingSync
  let notification ← op .readNotification
  let extras := statusExtras cfg agent hasPin hasLocalKeyCache authenticated pending notification
  return { ControlResponse.status locked agent.keyCount with
    message := if json then none else some (statusMessage locked extras) }

/-! ### Unlocking -/

/-- The PIN dialog at the end of `unlock`. -/
def handleUnlockDialog (E : Crates) (cfg : Config) : DProg ControlResponse := do
  if cfg.autoUnlockOnRequest then
    let envelope := (← op .readLocalKeyCache).filter fun c => c.localCacheKey.pinEncrypted.isSome
    match envelope with
    | none =>
      return .err "Unlock cancelled. Try: sshwarden unlock --method pin (or sshwarden login)."
    | some cache =>
      match ← requestPinDialog none (pinValidator E cache) with
      | none =>
        return .err "Unlock cancelled. Try: sshwarden unlock --method pin (or sshwarden login)."
      | some (enteredPin, keysJson, localCacheKey) =>
        op (.writeLocalCacheKey (some localCacheKey))
        let resp ← finishUnlockWithJson E keysJson "Vault unlocked via PIN dialog"
        if resp.ok then
          tryRestoreApiSession E cfg enteredPin
          let _ ← resolvePendingSync E cfg
          return resp
        else return resp
  else
    return .err "Auto-unlock is disabled. Use: sshwarden unlock --method pin (or sshwarden login)."

def unlockedNative : String := "Vault unlocked via platform-native local key cache"

/-- The read guard of the `if let` scrutinee lives to the end of the native branch. -/
def handleUnlock (E : Crates) (cfg : Config) : DProg ControlResponse := do
  if !(← op .loadVaultLocked) then return .success "Vault is already unlocked"
  else
    op (.hold .localKeyCacheData .read)
    match ← op .peekLocalKeyCache with
    | some cache =>
      let resp ← finishNativeUnlockResponse E cfg cache unlockedNative
      if resp.ok then
        let _ ← resolvePendingSync E cfg
        op (.release .localKeyCacheData)
        return resp
      else
        op (.release .localKeyCacheData)
        handleUnlockDialog E cfg
    | none =>
      op (.release .localKeyCacheData)
      handleUnlockDialog E cfg

def handleUnlockNative (E : Crates) (cfg : Config) : DProg ControlResponse := do
  if !(← op .loadVaultLocked) then return .success "Vault is already unlocked"
  else
    match ← op .readLocalKeyCache with
    | none => return .err "No Local Key Cache found"
    | some cache =>
      let resp ← finishNativeUnlockResponse E cfg cache unlockedNative
      if resp.ok then
        let _ ← resolvePendingSync E cfg
        return resp
      else return resp

def handleUnlockHello : DProg ControlResponse := do
  if !(← op .loadVaultLocked) then return .success "Vault is already unlocked"
  else return .err "Windows Hello is only supported on Windows"

/-- A PIN slot made with the fixed salt is rewrapped with a random one; a failure is not fatal. -/
def migratePinSlotIfNeeded (E : Crates) (cache : LocalKeyCacheFile) (localCacheKey : SymmetricKey)
    (pin : String) : DProg Unit := do
  if needsPinSaltMigration cache then
    match ← migratePinSaltToV3 E cache localCacheKey pin with
    | .ok migrated => op (.writeLocalKeyCache (some migrated))
    | .error _ => return ()
  else return ()

/-- The `'unlock` block of `unlock --pin`. -/
def unlockPinBlock (E : Crates) (cfg : Config) (pin : String) : DProg ControlResponse := do
  match ← op .readLocalKeyCache with
  | none => return .err "No PIN configured. Use 'sshwarden set-pin' first."
  | some cache =>
    match decryptEnvelopeLocalKeyCacheWithPin E cache pin with
    | .error _ => return .err "Invalid PIN"
    | .ok (keysJson, localCacheKey) =>
      migratePinSlotIfNeeded E cache localCacheKey pin
      enrollDevicePlatformSlotsIfMissing E cfg localCacheKey
      op (.writeLocalCacheKey (some localCacheKey))
      let resp ← finishUnlockWithJson E keysJson "Vault unlocked via PIN local key cache"
      if resp.ok then
        tryRestoreApiSession E cfg pin
        let _ ← resolvePendingSync E cfg
        return resp
      else return resp

def handleUnlockPin (E : Crates) (cfg : Config) (pin : String) : DProg ControlResponse := do
  if !(← op .loadVaultLocked) then return .success "Vault is already unlocked"
  else
    match ← pinLockoutRemaining with
    | some wait => return .err s!"Too many failed PIN attempts; locked for {wait / 1000 + 1}s"
    | none =>
      let resp ← unlockPinBlock E cfg pin
      let delay ← recordPinAttempt resp.ok
      if delay ≠ 0 then
        op (.sleep delay)
        return resp
      else return resp

/-- `create_client`; the configuration carries the URLs with their defaults filled in. -/
def createClient (cfg : Config) (deviceId : String) : BitwardenClient :=
  { apiUrl := cfg.apiUrl, identityUrl := cfg.identityUrl, baseUrl := cfg.baseUrl, deviceId }

def loginMessage (wasLocked : Bool) (count : Nat) : String :=
  if wasLocked then s!"Vault unlocked, {count} SSH keys loaded"
  else s!"Bitwarden session refreshed, {count} SSH keys loaded"

/-- The part of `login` after the keys have been fetched. -/
def finishLogin (E : Crates) (cfg : Config) (client : BitwardenClient) (keys : List DecryptedSshKey)
    (wasLocked : Bool) : DProg ControlResponse := do
  let keyTuples := keys.map DecryptedSshKey.tuple
  let _ ← op (.writeKeySelectorFiles keys)
  let _ ← op (.syncManagedSshConfig keys)
  reconcileSyncedKeyState E cfg keyTuples
  op (.writeKeyNames (keyNamesOf keyTuples))
  if ← op (.agentSetKeys keyTuples) then
    op (.storeVaultLocked false)
    saveDeviceSession E client none
    connectIfAuthenticated cfg client
    op (.writeApiClient (some client))
    let _ ← resolvePendingSync E cfg
    return .success (loginMessage wasLocked keyTuples.length)
  else return .err s!"Login succeeded but failed to load keys: {setKeysError}"

def handleUnlockPassword (E : Crates) (cfg : Config) (password : String) : DProg ControlResponse := do
  let wasLocked ← op .loadVaultLocked
  if cfg.email = "" then return .err "No email configured. Cannot re-login."
  else
    let deviceId ← op .newDeviceId
    match ← op (.loginPassword cfg.email password) with
    | .error e => return .err s!"Login failed: {e}"
    | .ok (grant, userKey) =>
      let client := (createClient cfg deviceId).loggedIn grant userKey
      match ← syncSshKeys client with
      | .error e => return .err s!"Sync failed after login: {e}"
      | .ok keys => finishLogin E cfg client keys wasLocked

/-! ### Sync -/

def runManualSync (E : Crates) (cfg : Config) (wasLocked : Bool) : DProg ControlResponse := do
  match ← doSync E cfg with
  | .error e => return .err e
  | .ok count =>
    if wasLocked then
      op (.storePendingSync true)
      return .success s!"Synced {count} SSH keys to cache; they will load into the agent on next unlock"
    else return .success s!"Synced {count} SSH keys"

def handleSync (E : Crates) (cfg : Config) : DProg ControlResponse := do
  let wasLocked ← op .loadVaultLocked
  if !wasLocked && cfg.multiDevice then
    match ← ensureLocalCacheKeyForManualSync E cfg with
    | some e => return .err e
    | none => runManualSync E cfg wasLocked
  else runManualSync E cfg wasLocked

/-! ### Forget -/

/-- A failed deletion, as the response names it. -/
def deleteFailure (what : String) : Except String Unit → List String
  | .ok _ => []
  | .error e => [s!"{what} ({e})"]

def deleteSharedCache (removeSharedCache : Bool) : DProg (List String) := do
  if removeSharedCache then return deleteFailure "local key cache" (← op .deleteLocalKeyCache)
  else return []

def nativeSlotInMemory (cfg : Config) : DProg (Option String) := do
  match ← op .readLocalKeyCache with
  | some cache => currentNativeUnlockSlot cfg cache
  | none => return none

/-- The files and the platform slot `forget` deletes, with the failures it collects. -/
def forgetFiles (cfg : Config) (removeSharedCache : Bool) : DProg (List String) := do
  let cacheFailure ← deleteSharedCache removeSharedCache
  let nativeSlot ← nativeSlotInMemory cfg
  let nativeFailure := deleteFailure "native unlock material" (← op (.nativeDelete nativeSlot))
  let slotsFailure := deleteFailure "device unlock slots file" (← op .deleteUnlockSlots)
  let sessionFailure := deleteFailure "device session file" (← op .deleteSession)
  return cacheFailure ++ nativeFailure ++ slotsFailure ++ sessionFailure

/-- The session state `forget` drops, up to raising the lock flag. -/
def forgetSession : DProg Unit := do
  op (.writeLocalCacheKey none)
  op .clearMemory
  op (.writeCachedKeyTuples [])
  op (.writeApiClient none)
  op (.storePendingSync false)
  op (.setNotificationClient none)
  notify .reset
  op (.storeVaultLocked true)

/-- Without the shared cache in memory nothing stays listable. -/
def forgetSharedKeys : DProg Unit := do
  op (.writeLocalKeyCache none)
  op (.writePublicKeyIdentityTuples [])
  op (.writeKeyNames [])
  op .agentClearKeys

/-- A cache file that fails to load counts as missing. -/
def loadSharedCache : DProg (Option LocalKeyCacheFile) := do
  match ← op .loadLocalKeyCache with
  | .ok cache => return cache
  | .error _ => return none

/-- The shared cache is read again and its identities stay listable. -/
def forgetDeviceKeys : DProg Unit := do
  let cache ← loadSharedCache
  op (.writeLocalKeyCache cache)
  op (.writePublicKeyIdentityTuples [])
  op (.writeKeyNames [])
  op .agentClearKeys
  match cache with
  | none => return ()
  | some cache =>
    let identities := keyTuplesFromCacheHeader cache
    let _ ← op (.agentSetPublicIdentities identities)
    op (.writePublicKeyIdentityTuples identities)
    op (.writeKeyNames (keyNamesOf identities))

def forgetKeys (removeSharedCache : Bool) : DProg Unit :=
  if removeSharedCache then forgetSharedKeys else forgetDeviceKeys

def forgetResponse (removeSharedCache : Bool) (failures : List String) : ControlResponse :=
  if failures = [] then
    .success (if removeSharedCache then "Forgot shared local key cache and device session material"
      else "Forgot this device's session and native unlock material; shared key cache was kept")
  else
    .err ("Cleared in-memory state, but FAILED to delete on-disk material: " ++
      "; ".intercalate failures ++
      ". This material may still exist on disk — remove it manually.")

def handleForget (cfg : Config) (shared : Bool) : DProg ControlResponse := do
  let removeSharedCache := shared || !cfg.multiDevice
  let failures ← forgetFiles cfg removeSharedCache
  forgetSession
  forgetKeys removeSharedCache
  return forgetResponse removeSharedCache failures

/-! ### Setting a PIN -/

/-- The read guard on the API client is kept while the session file is written. -/
def saveSessionOfClient (E : Crates) (pin : Option String) : DProg Unit := do
  op (.hold .apiClient .read)
  match ← op .peekApiClient with
  | some client =>
    saveDeviceSession E client pin
    op (.release .apiClient)
  | none => op (.release .apiClient)

/-- The cache is written under the Local Cache Key in memory, or under a fresh one. -/
def writePinCache (E : Crates) (cfg : Config) (keys : List KeyTuple) (pin : String) :
    DProg (Except String (LocalKeyCacheFile × SymmetricKey)) := do
  match ← op .readLocalCacheKey with
  | some localCacheKey =>
    writeEnvelopeLocalKeyCacheWithKey E cfg keys cfg.email cfg.baseUrl pin localCacheKey
  | none => writeEnvelopeLocalKeyCache E cfg keys cfg.email cfg.baseUrl pin

def handleSetPin (E : Crates) (cfg : Config) (pin : String) : DProg ControlResponse := do
  if pin.utf8ByteSize < 4 then return .err "PIN must be at least 4 characters"
  else
    let keys ← op .readCachedKeyTuples
    if keys = [] then return .err "No keys loaded. Login first."
    else
      match ← writePinCache E cfg keys pin with
      | .error e => return .err s!"Failed to save envelope local key cache: {e}"
      | .ok (cache, localCacheKey) =>
        op (.writeLocalKeyCache (some cache))
        op (.writeLocalCacheKey (some localCacheKey))
        saveSessionOfClient E (some pin)
        return .success "PIN set successfully (persisted to local key cache)"

/-! ### Dispatch -/

def handleBindHostsDialog : DProg ControlResponse := do
  match ← dispatchStandaloneBindHostsDialog with
  | .ok true => return .success "Bindings updated"
  | .ok false => return .success "Dialog cancelled"
  | .error e => return .err s!"Failed to open bind-hosts dialog: {e}"

/-- The actions that read the shared cache again before they start. -/
def ControlAction.reloads : ControlAction → Bool
  | unlock | unlockNative | unlockHello | unlockPin _ | sync => true
  | _ => false

def handleAction (E : Crates) (cfg : Config) : ControlAction → DProg ControlResponse
  | .stop => return .success "Stopping agent"
  | .lock => handleLock
  | .unlock => handleUnlock E cfg
  | .unlockNative => handleUnlockNative E cfg
  | .unlockHello => handleUnlockHello
  | .status json => buildStatusResponse cfg json
  | .unlockPin pin => handleUnlockPin E cfg pin
  | .unlockPassword password => handleUnlockPassword E cfg password
  | .sync => handleSync E cfg
  | .forget shared => handleForget cfg shared
  | .setPin pin => handleSetPin E cfg pin
  | .bindHostsDialog => handleBindHostsDialog

def handleControlCommand (E : Crates) (cfg : Config) (action : ControlAction) : DProg ControlResponse := do
  Prog.when action.reloads (reloadSharedLocalCacheFromDiskIfMultiDevice cfg)
  handleAction E cfg action

end SshWarden
