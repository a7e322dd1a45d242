import SshWarden.Cache

/-!
# Unlocking and the API session (`src/unlock.rs`, `src/notifications.rs`)

The parts of the unlock paths that the control commands and the request handlers share, the PIN
dialog with its throttled validator, and restoring and saving the API session.
-/

namespace SshWarden

structure ControlResponse where
  ok : Bool
  message : Option String := none
  error : Option String := none
  locked : Option Bool := none
  keyCount : Option Nat := none
deriving DecidableEq, Repr

namespace ControlResponse

def success (message : String) : ControlResponse := { ok := true, message := some message }

def err (error : String) : ControlResponse := { ok := false, error := some error }

def status (locked : Bool) (keyCount : Nat) : ControlResponse :=
  { ok := true
    message := some (if locked then "Vault is locked" else "Vault is unlocked")
    locked := some locked
    keyCount := some keyCount }

@[simp] theorem success_ok (m : String) : (success m).ok = true := rfl

@[simp] theorem err_ok (e : String) : (err e).ok = false := rfl

end ControlResponse

/-- Update the notification state at the current instant. -/
def notify (u : NotificationUpdate) : DProg Unit := do
  let now ← op .now
  op (.notification now u)

def pinLockoutRemaining : DProg (Option Nat) := do
  let now ← op .now
  op (.checkPinLockout now)

def recordPinAttempt (success : Bool) : DProg Nat := do
  let now ← op .now
  op (.recordPin now success)

/-- `gate_pin_validator` around a validator that keeps what a right PIN opened. -/
def gatePinValidator {α : Type} (inner : String → Option α) (pin : String) : DProg (Option α) := do
  match ← pinLockoutRemaining with
  | some _ => return none
  | none =>
    let opened := inner pin
    let _ ← recordPinAttempt opened.isSome
    return opened

/-- The PINs the user submits are validated one after the other until one is accepted; when none is,
the dialog was cancelled, closed or timed out. -/
def validateSubmitted {α : Type} (inner : String → Option α) : List String → DProg (Option (String × α))
  | [] => return none
  | pin :: rest => do
    match ← gatePinValidator inner pin with
    | some opened => return some (pin, opened)
    | none => validateSubmitted inner rest

def requestPinDialog {α : Type} (context : Option UnlockRequestContext) (inner : String → Option α) :
    DProg (Option (String × α)) := do
  let submitted ← op (.pinDialog context)
  validateSubmitted inner submitted

/-- What the validators of the unlock dialogs capture: the payload and the Local Cache Key. -/
def pinValidator (E : Crates) (cache : LocalKeyCacheFile) (pin : String) : Option (String × SymmetricKey) :=
  (decryptEnvelopeLocalKeyCacheWithPin E cache pin).toOption

/-- `none` is success; `some e` is the reason the sync is refused. -/
def ensureLocalCacheKeyForManualSync (E : Crates) (cfg : Config) : DProg (Option String) := do
  Prog.when cfg.multiDevice (reloadSharedLocalCacheFromDiskIfMultiDevice cfg)
  match ← op .readLocalKeyCache with
  | none => return none
  | some cache =>
    let inMemoryKey ← op .readLocalCacheKey
    if inMemoryKey.any fun key => (decryptEnvelopePayload E cache key).toOption.isSome then return none
    else
      Prog.when inMemoryKey.isSome (op (.writeLocalCacheKey none))
      if cache.localCacheKey.pinEncrypted.isNone then return none
      else
        match ← requestPinDialog none (pinValidator E cache) with
        | some (_, _, localCacheKey) =>
          op (.writeLocalCacheKey (some localCacheKey))
          return none
        | none =>
          return some
            "Sync cancelled: PIN is required to refresh the Local Key Cache for this unlocked session"

def resolveNotificationsUrl (cfg : Config) (apiClient : Option BitwardenClient) : DProg String := do
  match cfg.notificationsUrl with
  | some explicit => return explicit
  | none =>
    match apiClient with
    | none => return cfg.defaultNotificationsUrl
    | some client =>
      match ← op (.discoverNotificationsUrl client) with
      | some url => return url
      | none => return cfg.defaultNotificationsUrl

def connectNotificationClient (cfg : Config) (apiClient : Option BitwardenClient) (accessToken : String) :
    DProg Unit := do
  op (.setNotificationClient none)
  let notifUrl ← resolveNotificationsUrl cfg apiClient
  notify (.beginConnect notifUrl)
  match ← op (.connectHub notifUrl accessToken) with
  | .ok _ =>
    op (.setNotificationClient (some notifUrl))
    notify (.applyStatus { state := .connected, connects := 1 })
  | .error e => notify (.markClientFailed e)

/-- Without an access token there is nothing to connect with. -/
def connectIfAuthenticated (cfg : Config) (client : BitwardenClient) : DProg Unit :=
  match client.accessToken with
  | some token => connectNotificationClient cfg (some client) token
  | none => return ()

/-- A session file that fails to load counts as missing. -/
def loadDeviceSession : DProg (Option SessionFile) := do
  match ← op .loadSession with
  | .ok session => return session
  | .error _ => return none

/-- The token to store; the one already stored is kept without a PIN, or when the encryption fails. -/
def pinEncryptedTokenOr (E : Crates) (kept : Option String) (refreshToken : String) :
    Option String → DProg (Option String)
  | none => return kept
  | some pin => do
    let iv ← op .randomIv
    match pinEncrypt E iv refreshToken pin with
    | .ok enc => return some enc
    | .error _ => return kept

/-- On this platform the Hello token of an existing session file is kept as it is. -/
def saveDeviceSession (E : Crates) (client : BitwardenClient) (pin : Option String) : DProg Unit := do
  match client.refreshToken with
  | none => return ()
  | some refreshToken =>
    let existing ← loadDeviceSession
    let pinEncryptedToken ← pinEncryptedTokenOr E (existing.bind SessionFile.pinEncryptedToken)
      refreshToken pin
    let _ ← op (.saveSession
      { version := 1
        deviceId := client.deviceId
        pinEncryptedToken
        helloEncryptedToken := existing.bind SessionFile.helloEncryptedToken
        identityUrl := client.identityUrl })
    return ()

/-- The client of a stored session, before its token has been refreshed. -/
def restoredClient (cfg : Config) (session : SessionFile) (refreshToken : String) : BitwardenClient :=
  { apiUrl := cfg.apiUrl, identityUrl := session.identityUrl, baseUrl := cfg.baseUrl,
    deviceId := session.deviceId, refreshToken := some refreshToken }

def tryRestoreApiSession (E : Crates) (cfg : Config) (pin : String) : DProg Unit := do
  if (← op .readApiClient).isSome then return ()
  else
    match (← loadDeviceSession).bind fun session => session.pinEncryptedToken.map (session, ·) with
    | none => return ()
    | some (session, enc) =>
      match pinDecrypt E enc pin with
      | .error _ => return ()
      | .ok refreshToken =>
        match ← op (.refreshAccessToken (restoredClient cfg session refreshToken)) with
        | .ok grant =>
          let client := (restoredClient cfg session refreshToken).refreshed grant
          connectIfAuthenticated cfg client
          saveDeviceSession E client (some pin)
          op (.writeApiClient (some client))
        | .error _ =>
          let _ ← op .deleteSession
          return ()

/-- The only error of the agent's `set_keys`. -/
def setKeysError : String := "[SshWardenAgent] Tried to set keys while agent is not running"

def finishUnlockWithJson (E : Crates) (keysJson successMsg : String) : DProg ControlResponse := do
  match E.keysFromJson keysJson with
  | .error e => return .err s!"Failed to parse decrypted keys: {e}"
  | .ok keys =>
    op (.writeKeyNames (keyNamesOf keys))
    op (.writeCachedKeyTuples keys)
    if ← op (.agentSetKeys keys) then
      op (.storeVaultLocked false)
      return .success successMsg
    else return .err s!"Failed to reload keys: {setKeysError}"

def finishNativeUnlockResponse (E : Crates) (cfg : Config) (cache : LocalKeyCacheFile) (successMsg : String) :
    DProg ControlResponse := do
  match ← decryptEnvelopeLocalKeyCacheWithNative E cfg cache with
  | .ok (keysJson, localCacheKey) =>
    op (.writeLocalCacheKey (some localCacheKey))
    finishUnlockWithJson E keysJson successMsg
  | .error e => return .err s!"Native unlock failed: {e}"

end SshWarden
