import SshWarden.Control

/-!
# The request handlers (`src/ui.rs`, `src/bindings_cli.rs`)

`handleUiRequest` runs in a task of its own for each request of the SSH agent, next to the main loop
and to the other handlers.
-/

namespace SshWarden

def keyNameForRequest (request : SshAgentUIRequest) (keys : List KeyTuple) : String :=
  ((request.cipherId.bind fun id => keys.find? fun k => k.cipherId = id).map KeyTuple.name).getD
    "Unknown key"

def keyNameFromMap (request : SshAgentUIRequest) (names : Assoc String String) : String :=
  (request.cipherId.bind names.get?).getD "Unknown key"

def signInfoForRequest (request : SshAgentUIRequest) (keyName : String) : SignRequestInfo where
  keyName := keyName
  processName := request.processName
  sigNamespace := request.sigNamespace
  operationKind := request.operationKind.asStr
  isForwarding := request.isForwarding

def unlockContextForRequest (request : SshAgentUIRequest) (keyName : String) : UnlockRequestContext where
  keyName := keyName
  processName := request.processName
  operationKind := request.operationKind.asStr
  isForwarding := request.isForwarding

/-- The entry of the authorization memory that stands for a request. -/
def memoryKey (request : SshAgentUIRequest) : Option (String × String) :=
  request.cipherId.map fun id => (id, request.operationKind.asStr)

/-- Forwarding forces a prompt whatever the setting. -/
def needsPrompt (cfg : Config) (request : SshAgentUIRequest) : Bool :=
  request.isForwarding ||
    match cfg.promptBehavior with
    | .always => true
    | .never => false
    | .rememberUntilLock => true

/-- Whether an approval of the request is remembered, and looked up. -/
def remembers (cfg : Config) (request : SshAgentUIRequest) : Bool :=
  !request.isForwarding && decide (cfg.promptBehavior = .rememberUntilLock)

/-- `run_bind_hosts_flow`: the request is approved when the dialog's bindings have been saved. -/
def runBindHostsFlow (pid : UInt32) (initialCipherId : Option String) : DProg Bool := do
  match ← loadManagedKeysFromCache with
  | .error _ => return false
  | .ok keys =>
    let bindings ← op (.hostBindings keys)
    let entries := bindHostsEntries keys bindings
    if entries.isEmpty then return false
    else
      let prefillHost ← op (.inferSshTarget pid)
      match ← op (.bindHostsDialog ⟨entries, initialCipherId, prefillHost, true⟩) with
      | .error _ => return false
      | .ok .cancelled => return false
      | .ok (.saved payload) =>
        match ← op (.persistBindPayload payload) with
        | .error _ => return false
        | .ok _ => return true

def promptAuthorizationWithBindFlow (signInfo : SignRequestInfo) (pid : UInt32)
    (cipherId : Option String) : DProg Bool := do
  match ← op (.authDialog signInfo) with
  | .approved => return true
  | .denied => return false
  | .timeout => return false
  | .bindRequested => runBindHostsFlow pid cipherId

def runAuthorizationPrompt (cfg : Config) (request : SshAgentUIRequest) (keyName : String) :
    DProg Bool := do
  if !needsPrompt cfg request then return true
  else
    promptAuthorizationWithBindFlow (signInfoForRequest request keyName) request.pid request.cipherId

def applyDecryptedKeysState (keys : List KeyTuple) : DProg Unit := do
  op (.writeKeyNames (keyNamesOf keys))
  op (.writeCachedKeyTuples keys)

/-- Make freshly decrypted keys live; the key name of the request is returned when the vault was
unlocked with them. Only the PIN path seeds the platform slots of the device (`seed`). -/
def unlockWithDecryptedKeys (E : Crates) (request : SshAgentUIRequest) (keysJson : String)
    (localCacheKey : SymmetricKey) (seed : DProg Unit) (event : RuntimeEvent) :
    DProg (Option String) := do
  match E.keysFromJson keysJson with
  | .error _ => return none
  | .ok keys =>
    applyDecryptedKeysState keys
    if ← op (.agentSetKeys keys) then
      seed
      op (.writeLocalCacheKey (some localCacheKey))
      op (.storeVaultLocked false)
      op (.sendRuntimeEvent event)
      return some (keyNameForRequest request keys)
    else return none

def autoUnlockNative (E : Crates) (cfg : Config) (request : SshAgentUIRequest) :
    DProg (Option String) := do
  match ← op .readLocalKeyCache with
  | none => return none
  | some cache =>
    if (← currentNativeUnlockSlot cfg cache).isNone then return none
    else
      match ← decryptEnvelopeLocalKeyCacheWithNative E cfg cache with
      | .error _ => return none
      | .ok (keysJson, localCacheKey) =>
        unlockWithDecryptedKeys E request keysJson localCacheKey (pure ()) .autoUnlockedNative

def autoUnlockPin (E : Crates) (cfg : Config) (request : SshAgentUIRequest) :
    DProg (Option String) := do
  match (← op .readLocalKeyCache).filter fun c => c.localCacheKey.pinEncrypted.isSome with
  | none => return none
  | some cache =>
    let names ← op .readKeyNames
    let context := unlockContextForRequest request (keyNameFromMap request names)
    match ← requestPinDialog (some context) (pinValidator E cache) with
    | none => return none
    | some (pin, keysJson, localCacheKey) =>
      unlockWithDecryptedKeys E request keysJson localCacheKey
        (enrollDevicePlatformSlotsIfMissing E cfg localCacheKey) (.autoUnlockedPin pin)

/-- A sign request on a locked vault: native unlock first, then the PIN dialog. -/
def handleLockedRequest (E : Crates) (cfg : Config) (request : SshAgentUIRequest) : DProg Unit := do
  match ← autoUnlockNative E cfg request with
  | some keyName =>
    let approved ← runAuthorizationPrompt cfg request keyName
    op (.broadcast request.requestId approved)
  | none =>
    match ← autoUnlockPin E cfg request with
    | some keyName =>
      let approved ← runAuthorizationPrompt cfg request keyName
      op (.broadcast request.requestId approved)
    | none => op (.broadcast request.requestId false)

/-- The look-up does not wait for the memory's lock: a contended one counts as a miss. -/
def approvedFromMemory (cfg : Config) (request : SshAgentUIRequest) : DProg Bool := do
  if remembers cfg request then
    match memoryKey request with
    | some key => op (.tryMemoryContains key)
    | none => return false
  else return false

def rememberApproval (cfg : Config) (request : SshAgentUIRequest) (approved : Bool) : DProg Unit := do
  if approved && remembers cfg request then
    match memoryKey request with
    | some key => op (.insertMemory key)
    | none => return ()
  else return ()

def promptSignRequest (cfg : Config) (request : SshAgentUIRequest) : DProg Unit := do
  let names ← op .tryReadKeyNames
  let keyName := keyNameFromMap request (names.getD [])
  let approved ← promptAuthorizationWithBindFlow (signInfoForRequest request keyName) request.pid
    request.cipherId
  rememberApproval cfg request approved
  op (.broadcast request.requestId approved)

def handleUnlockedRequest (cfg : Config) (request : SshAgentUIRequest) : DProg Unit := do
  if ← approvedFromMemory cfg request then op (.broadcast request.requestId true)
  else if !needsPrompt cfg request then op (.broadcast request.requestId true)
  else promptSignRequest cfg request

def handleSignRequest (E : Crates) (cfg : Config) (request : SshAgentUIRequest) : DProg Unit := do
  if (← op .loadVaultLocked) && cfg.autoUnlockOnRequest then handleLockedRequest E cfg request
  else if ← op .loadVaultLocked then op (.broadcast request.requestId false)
  else handleUnlockedRequest cfg request

/-- Listing needs no private key and is always approved. -/
def handleListRequest (request : SshAgentUIRequest) : DProg Unit := do
  let _ ← op .loadVaultLocked
  op .agentClearNeedsUnlock
  op (.broadcast request.requestId true)

def handleUiRequest (E : Crates) (cfg : Config) (request : SshAgentUIRequest) : DProg Unit := do
  if request.isList then handleListRequest request
  else handleSignRequest E cfg request

end SshWarden
