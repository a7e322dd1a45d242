import Mathlib.Algebra.Group.Nat.Defs
import SshWarden.Lib.Assoc

/-!
# The daemon's data

The records the daemon reads, writes and keeps in memory, with the functions of the crates it calls
collected in `Crates`: they are parameters of the model, and a result that relies on one of their
laws says so.
-/

namespace SshWarden

abbrev Bytes : Type := List UInt8

/-- `str::as_bytes`. -/
def utf8 (s : String) : Bytes := s.toByteArray.data.toList

/-- `String::from_utf8`. -/
def fromUtf8 (b : Bytes) : Option String := String.fromUTF8? ⟨b.toArray⟩

@[simp] theorem fromUtf8_utf8 (s : String) : fromUtf8 (utf8 s) = some s := by
  have h : (⟨(utf8 s).toArray⟩ : ByteArray) = s.toByteArray := by simp [utf8]
  rw [fromUtf8, h, String.fromUTF8?, dif_pos s.isValidUTF8]
  rfl

theorem fromUtf8_eq_some {b : Bytes} {s : String} : fromUtf8 b = some s ↔ b = utf8 s := by
  constructor
  · intro h
    rw [fromUtf8, String.fromUTF8?, Option.dite_none_right_eq_some] at h
    obtain ⟨hvalid, hs⟩ := h
    rw [Option.some.injEq] at hs
    subst hs
    simp [utf8, String.fromUTF8]
  · rintro rfl
    exact fromUtf8_utf8 s

/-- A sequence of fallible steps succeeds when each of them does. -/
theorem except_bind_ok {ε α β : Type} {x : Except ε α} {f : α → Except ε β} {b : β}
    (h : x >>= f = .ok b) : ∃ a, x = .ok a ∧ f a = .ok b := by
  cases x with
  | error e => cases h
  | ok a => exact ⟨a, rfl, h⟩

theorem except_map_ok {ε α β : Type} {x : Except ε α} {f : α → β} {b : β} (h : f <$> x = .ok b) :
    ∃ a, x = .ok a ∧ f a = b := by
  cases x with
  | error e => cases h
  | ok a => exact ⟨a, rfl, Except.ok.inj h⟩

@[simp] theorem except_ok_bind {ε α β : Type} (a : α) (f : α → Except ε β) : (.ok a >>= f) = f a := rfl

theorem except_eq_ok_of_toOption {ε α : Type} {x : Except ε α} {a : α} (h : x.toOption = some a) :
    x = .ok a := by
  cases x with
  | error e => cases h
  | ok b => exact congrArg Except.ok (Option.some.inj h)

/-- Two 32-byte halves; the Local Cache Key and the Bitwarden user key are of this type. -/
structure SymmetricKey where
  encKey : Bytes
  macKey : Bytes
deriving DecidableEq, Repr

/-- The `(key, name, cipher_id)` triples passed around by the daemon. `key` is the private key PEM,
or the OpenSSH public key where the triple was made from a cache header. -/
structure KeyTuple where
  key : String
  name : String
  cipherId : String
deriving DecidableEq, Repr

structure DecryptedSshKey where
  privateKeyPem : String
  publicKeyOpenssh : String
  name : String
  cipherId : String
deriving DecidableEq, Repr

def DecryptedSshKey.tuple (k : DecryptedSshKey) : KeyTuple := ⟨k.privateKeyPem, k.name, k.cipherId⟩

structure KeyIdentity where
  name : String
  vaultItemId : String
  publicKeyOpenssh : String
deriving DecidableEq, Repr

structure LocalKeyCacheHeader where
  email : String
  serverUrl : String
  keys : List KeyIdentity
deriving DecidableEq, Repr

structure LocalCacheKeySlots where
  pinEncrypted : Option String := none
  pinSalt : Option String := none
  helloChallenge : Option String := none
  helloEncrypted : Option String := none
  nativeEncrypted : Option String := none
deriving DecidableEq, Repr

structure LocalKeyCacheFile where
  version : Nat
  header : LocalKeyCacheHeader
  encryptedPayload : String
  localCacheKey : LocalCacheKeySlots
deriving DecidableEq, Repr

def LocalKeyCacheFile.SUPPORTED_VERSIONS : List Nat := [2, 3]

structure UnlockSlotsFile where
  version : Nat := 1
  helloChallenge : Option String := none
  helloEncrypted : Option String := none
  nativeEncrypted : Option String := none
deriving DecidableEq, Repr

structure SessionFile where
  version : Nat
  deviceId : String
  pinEncryptedToken : Option String
  helloEncryptedToken : Option String
  identityUrl : String
deriving DecidableEq, Repr

structure BitwardenClient where
  apiUrl : String
  identityUrl : String
  baseUrl : String
  accessToken : Option String := none
  refreshToken : Option String := none
  tokenExpiry : Option Nat := none
  deviceId : String
  userKey : Option SymmetricKey := none
deriving DecidableEq, Repr

/-- What a `connect/token` request brings: the tokens, the expiry and, on a password login, the
decrypted user key. -/
structure TokenGrant where
  accessToken : String
  refreshToken : Option String
  tokenExpiry : Nat
deriving DecidableEq, Repr

namespace BitwardenClient

def hasUserKey (c : BitwardenClient) : Bool := c.userKey.isSome

/-- `now` and the expiry in milliseconds. -/
def isTokenExpiringSoon (c : BitwardenClient) (now : Nat) : Bool :=
  match c.tokenExpiry with
  | some expiry => decide (expiry ≤ now) || decide (expiry - now < 300 * 1000)
  | none => c.accessToken.isSome

/-- `login_password`: the issued tokens and the user key replace the old ones. -/
def loggedIn (c : BitwardenClient) (g : TokenGrant) (userKey : SymmetricKey) : BitwardenClient :=
  { c with accessToken := some g.accessToken, refreshToken := g.refreshToken,
           tokenExpiry := some g.tokenExpiry, userKey := some userKey }

/-- `refresh_access_token`: the refresh token only changes when the server sends a new one. -/
def refreshed (c : BitwardenClient) (g : TokenGrant) : BitwardenClient :=
  { c with accessToken := some g.accessToken, refreshToken := g.refreshToken.or c.refreshToken,
           tokenExpiry := some g.tokenExpiry }

end BitwardenClient

inductive PromptBehavior
  | always | never | rememberUntilLock
deriving DecidableEq, Repr

inductive OperationKind
  | sshAuthentication | gitSigning | fileSigning | sshSignature
deriving DecidableEq, Repr

def OperationKind.asStr : OperationKind → String
  | sshAuthentication => "ssh_authentication"
  | gitSigning => "git_signing"
  | fileSigning => "file_signing"
  | sshSignature => "ssh_signature"

structure SshAgentUIRequest where
  requestId : UInt32
  cipherId : Option String
  processName : String
  pid : UInt32
  isList : Bool
  sigNamespace : Option String
  operationKind : OperationKind
  isForwarding : Bool
deriving DecidableEq, Repr

structure UnlockRequestContext where
  keyName : String
  processName : String
  operationKind : String
  isForwarding : Bool
deriving DecidableEq, Repr

structure SignRequestInfo where
  keyName : String
  processName : String
  sigNamespace : Option String
  operationKind : String
  isForwarding : Bool
deriving DecidableEq, Repr

inductive AuthorizationResult
  | approved | denied | timeout | bindRequested
deriving DecidableEq, Repr

structure BindHostsKeyEntry where
  cipherId : String
  name : String
  hosts : List String
deriving DecidableEq, Repr

structure BindHostsRequest where
  keys : List BindHostsKeyEntry
  initialSelection : Option String
  prefillHost : Option String
  approveOnSave : Bool
deriving DecidableEq, Repr

inductive BindHostsResult
  | saved (bindings : Assoc String (List String))
  | cancelled
deriving DecidableEq, Repr

inductive RuntimeEvent
  | autoUnlockedPin (pin : String)
  | autoUnlockedNative
deriving DecidableEq, Repr

inductive NotificationConnectionState
  | notStarted | connecting | connected | degraded | stopped
deriving DecidableEq, Repr

/-- What the hub loop reports; the delay is in milliseconds. -/
structure NotificationStatus where
  state : NotificationConnectionState := .notStarted
  consecutiveFailures : Nat := 0
  totalFailures : Nat := 0
  nextRetryIn : Option Nat := none
  lastError : Option String := none
  connects : Nat := 0
deriving DecidableEq, Repr

inductive SyncEvent
  | connectionStatus (status : NotificationStatus)
  | cipherChanged
  | logOut
  | fallbackSyncDue
deriving DecidableEq, Repr

inductive ControlAction
  | lock
  | unlock
  | unlockPin (pin : String)
  | unlockHello
  | unlockNative
  | unlockPassword (password : String)
  | status (json : Bool)
  | sync
  | setPin (pin : String)
  | forget (shared : Bool)
  | stop
  | bindHostsDialog
deriving DecidableEq, Repr

/-- The parts of the configuration the daemon's handlers read. -/
structure Config where
  email : String
  baseUrl : String
  apiUrl : String
  identityUrl : String
  notificationsUrl : Option String := none
  defaultNotificationsUrl : String := ""
  multiDevice : Bool
  promptBehavior : PromptBehavior
  autoUnlockOnRequest : Bool
  lockTimeout : Nat
deriving DecidableEq, Repr

/-- Functions of the crates the daemon is built on: `ssh_key`, `sha2`, `serde_json`, `base64` and the
AES/HMAC and Argon2 primitives behind the EncString and PIN functions. -/
structure Crates where
  /-- `PrivateKey::from_openssh` and the public key's wire bytes. -/
  parsePrivateKey : String → Option Bytes
  /-- `PublicKey::from_openssh` and its wire bytes. -/
  parsePublicKey : String → Option Bytes
  /-- The OpenSSH public key of a private key PEM. -/
  publicKeyOpensshFromPem : String → Option String
  sha256Hex : String → String
  keysToJson : List KeyTuple → String
  keysFromJson : String → Except String (List KeyTuple)
  /-- `encrypt_enc_string`, with its random IV as the first argument. -/
  encryptEncString : Bytes → Bytes → SymmetricKey → Except String String
  decryptEncString : String → SymmetricKey → Except String Bytes
  /-- Argon2id of a PIN and a salt: 64 bytes of key material. -/
  argon2id : String → Bytes → Except String Bytes
  base64Encode : Bytes → String
  base64Decode : String → Option Bytes
  legacyPinSalt : Bytes

end SshWarden
