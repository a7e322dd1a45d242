import SshWarden.Lib.Prog
import SshWarden.State

/-!
# The operations of the daemon

The handlers of the daemon are programs over these operations. An operation is one atomic step: one
statement that takes a lock for its own duration, one atomic load or store, one call of the agent,
one file, network or dialog call. `hold` and `release` are for the guards that outlive their
statement: `client_guard` in `do_sync`, and a guard that is a temporary of an `if let` scrutinee,
which Rust 2021 keeps to the end of that statement.

`machine` gives the operations their effect on the `Daemon`. Answers that come from outside (the
server, the user, the keyring, a failing file operation) are free.
-/

namespace SshWarden

inductive RwLockId
  | apiClient | localKeyCacheData | localCacheKeyState | cachedKeyTuples | publicKeyIdentityTuples
  | keyMaterialFingerprints | keyNames | authorizationMemory | notificationState
deriving DecidableEq, Repr

inductive Access
  | read | write
deriving DecidableEq, Repr

/-- The operations of the handlers. -/
inductive Op
  -- guards held across statements
  | hold (l : RwLockId) (m : Access)
  | release (l : RwLockId)
  | peekApiClient
  | peekLocalKeyCache
  | pokeApiClient (c : BitwardenClient)
  -- state behind a `RwLock`
  | readApiClient
  | writeApiClient (c : Option BitwardenClient)
  | readLocalKeyCache
  | writeLocalKeyCache (c : Option LocalKeyCacheFile)
  | readLocalCacheKey
  | writeLocalCacheKey (k : Option SymmetricKey)
  | readCachedKeyTuples
  | writeCachedKeyTuples (ks : List KeyTuple)
  | writePublicKeyIdentityTuples (ks : List KeyTuple)
  | readFingerprints
  | writeFingerprints (m : Assoc String String)
  | readKeyNames
  | tryReadKeyNames
  | writeKeyNames (m : Assoc String String)
  | tryMemoryContains (key : String × String)
  | insertMemory (key : String × String)
  | retainMemory (changed : List String)
  | clearMemory
  | readNotification
  | notification (now : Nat) (u : NotificationUpdate)
  -- atomics and the PIN throttle
  | loadVaultLocked
  | storeVaultLocked (b : Bool)
  | loadPendingSync
  | storePendingSync (b : Bool)
  | swapPendingSync (b : Bool)
  | loadInFlightPrompts
  | now
  | checkPinLockout (now : Nat)
  | recordPin (now : Nat) (success : Bool)
  -- the agent
  | startAgent
  | readAgent
  | agentLock
  | agentSetKeys (ks : List KeyTuple)
  | agentSetPublicIdentities (ks : List KeyTuple)
  | agentClearKeys
  | agentClearNeedsUnlock
  -- files
  | loadLocalKeyCache
  | saveLocalKeyCache (c : LocalKeyCacheFile)
  | deleteLocalKeyCache
  | loadUnlockSlots
  | saveUnlockSlots (f : UnlockSlotsFile)
  | deleteUnlockSlots
  | loadSession
  | saveSession (f : SessionFile)
  | deleteSession
  | writeKeySelectorFiles (ks : List DecryptedSshKey)
  | syncManagedSshConfig (ks : List DecryptedSshKey)
  -- the platform keyring and randomness
  | nativeAvailable
  | nativeEncrypt (encoded : String)
  | nativeDecrypt (slot : String)
  | nativeDelete (slot : Option String)
  | randomIv
  | randomPinSalt
  | randomSymmetricKey
  -- the server
  | newDeviceId
  | loginPassword (email password : String)
  | fetchSync (c : BitwardenClient)
  | refreshAccessToken (c : BitwardenClient)
  | discoverNotificationsUrl (c : BitwardenClient)
  | connectHub (url token : String)
  | setNotificationClient (url : Option String)
  -- the user
  | pinDialog (context : Option UnlockRequestContext)
  | authDialog (info : SignRequestInfo)
  | hostBindings (keys : List KeyIdentity)
  | inferSshTarget (pid : UInt32)
  | bindHostsDialog (request : BindHostsRequest)
  | persistBindPayload (payload : Assoc String (List String))
  | promptEmail
  | promptLine
  | promptSecret
  -- channels and time
  | broadcast (id : UInt32) (approved : Bool)
  | sendRuntimeEvent (e : RuntimeEvent)
  | sleep (millis : Nat)

/-- What an operation answers. -/
@[reducible] def Op.Ans : Op → Type
  | peekApiClient | readApiClient => Option BitwardenClient
  | peekLocalKeyCache | readLocalKeyCache => Option LocalKeyCacheFile
  | readLocalCacheKey => Option SymmetricKey
  | readCachedKeyTuples => List KeyTuple
  | readFingerprints => Assoc String String
  | readKeyNames => Assoc String String
  | tryReadKeyNames => Option (Assoc String String)
  | tryMemoryContains _ => Bool
  | readNotification => NotificationRuntimeState
  | loadVaultLocked | loadPendingSync | swapPendingSync _ => Bool
  | loadInFlightPrompts => Nat
  | now => Nat
  | checkPinLockout _ => Option Nat
  | recordPin _ _ => Nat
  | readAgent => Agent
  | startAgent | agentLock | agentSetKeys _ | agentSetPublicIdentities _ => Bool
  | loadLocalKeyCache => Except String (Option LocalKeyCacheFile)
  | loadUnlockSlots => Except String (Option UnlockSlotsFile)
  | loadSession => Except String (Option SessionFile)
  | saveLocalKeyCache _ | deleteLocalKeyCache | saveUnlockSlots _ | deleteUnlockSlots
  | saveSession _ | deleteSession | writeKeySelectorFiles _ | syncManagedSshConfig _
  | nativeDelete _ | connectHub _ _ | persistBindPayload _ => Except String Unit
  | nativeAvailable => Bool
  | nativeEncrypt _ | nativeDecrypt _ => Except String String
  | randomIv | randomPinSalt => Bytes
  | randomSymmetricKey => SymmetricKey
  | newDeviceId => String
  | loginPassword _ _ => Except String (TokenGrant × SymmetricKey)
  | fetchSync _ => Except String (List DecryptedSshKey)
  | refreshAccessToken _ => Except String TokenGrant
  | discoverNotificationsUrl _ => Option String
  | pinDialog _ => List String
  | authDialog _ => AuthorizationResult
  | hostBindings _ => Assoc String (List String)
  | inferSshTarget _ => Option String
  | bindHostsDialog _ => Except String BindHostsResult
  | promptEmail | promptLine | promptSecret => Option String
  | _ => Unit

/-- The signature of the daemon's programs. -/
@[reducible] def daemonSig : Sig := ⟨Op, Op.Ans⟩

abbrev DProg (α : Type) : Type := Prog daemonSig α

/-- A performed operation with its answer. -/
abbrev Event : Type := daemonSig.Event

/-- Perform an operation. -/
abbrev op (o : Op) : DProg o.Ans := Prog.perform (S := daemonSig) o

namespace Op

/-- The lock an operation takes while it runs (a held guard is taken by `hold`). -/
def lock? : Op → Option (RwLockId × Access)
  | readApiClient => some (.apiClient, .read)
  | writeApiClient _ => some (.apiClient, .write)
  | readLocalKeyCache => some (.localKeyCacheData, .read)
  | writeLocalKeyCache _ => some (.localKeyCacheData, .write)
  | readLocalCacheKey => some (.localCacheKeyState, .read)
  | writeLocalCacheKey _ => some (.localCacheKeyState, .write)
  | readCachedKeyTuples => some (.cachedKeyTuples, .read)
  | writeCachedKeyTuples _ => some (.cachedKeyTuples, .write)
  | writePublicKeyIdentityTuples _ => some (.publicKeyIdentityTuples, .write)
  | readFingerprints => some (.keyMaterialFingerprints, .read)
  | writeFingerprints _ => some (.keyMaterialFingerprints, .write)
  | readKeyNames => some (.keyNames, .read)
  | writeKeyNames _ => some (.keyNames, .write)
  | insertMemory _ | retainMemory _ | clearMemory => some (.authorizationMemory, .write)
  | readNotification => some (.notificationState, .read)
  | notification _ _ => some (.notificationState, .write)
  | _ => none

/-- The `.await` points of the handlers: lock acquisitions, network calls, dialogs, blocking tasks,
channel sends and sleeps. A dropped future stops at one of them. -/
def awaits : Op → Bool
  | hold _ _ | loginPassword _ _ | fetchSync _ | refreshAccessToken _ | discoverNotificationsUrl _
  | connectHub _ _ | pinDialog _ | authDialog _ | bindHostsDialog _ | persistBindPayload _
  | sendRuntimeEvent _ | sleep _ => true
  | o => o.lock?.isSome

end Op

/-! ### The effect of the operations -/

/-- The answers an operation may give. Reads answer with the state, an agent call succeeds exactly
while the agent is running, a file read gives the file or fails, a fresh key has two 32-byte halves,
and the clock does not go back; every other answer is free. -/
def ready (_E : Crates) : (o : Op) → Daemon → o.Ans → Prop
  | .peekApiClient, s, a => a = s.apiClient
  | .readApiClient, s, a => a = s.apiClient
  | .peekLocalKeyCache, s, a => a = s.localKeyCacheData
  | .readLocalKeyCache, s, a => a = s.localKeyCacheData
  | .readLocalCacheKey, s, a => a = s.localCacheKeyState
  | .readCachedKeyTuples, s, a => a = s.cachedKeyTuples
  | .readFingerprints, s, a => a = s.keyMaterialFingerprints
  | .readKeyNames, s, a => a = s.keyNames
  | .tryReadKeyNames, s, a => a = none ∨ a = some s.keyNames
  | .tryMemoryContains key, s, a => a = true → key ∈ s.authorizationMemory
  | .readNotification, s, a => a = s.notificationState
  | .loadVaultLocked, s, a => a = s.vaultLocked
  | .loadPendingSync, s, a => a = s.pendingSync
  | .swapPendingSync _, s, a => a = s.pendingSync
  | .loadInFlightPrompts, s, a => a = s.inFlightPrompts
  | .now, s, a => s.clock ≤ a
  | .checkPinLockout n, s, a => a = (s.pinFailures.lockoutRemaining n).1
  | .recordPin n ok, s, a => a = (s.pinFailures.recordAttempt n ok).1
  | .readAgent, s, a => a = s.agent
  | .agentLock, s, a => a = s.agent.isRunning
  | .agentSetKeys _, s, a => a = s.agent.isRunning
  | .agentSetPublicIdentities _, s, a => a = s.agent.isRunning
  | .loadLocalKeyCache, s, a => ∀ c, a = .ok c →
      c = s.disk.localKeyCache ∧ ∀ f, c = some f → f.version ∈ LocalKeyCacheFile.SUPPORTED_VERSIONS
  | .loadUnlockSlots, s, a => ∀ f, a = .ok f → f = s.disk.unlockSlots
  | .loadSession, s, a => ∀ f, a = .ok f → f = s.disk.session
  | .randomSymmetricKey, _, k => k.encKey.length = 32 ∧ k.macKey.length = 32
  | _, _, _ => True

/-- A write that failed leaves the file as it was. -/
def afterWrite (s : Daemon) (d : Disk) : Except String Unit → Daemon
  | .ok _ => { s with disk := d }
  | .error _ => s

def next (E : Crates) : (o : Op) → Daemon → o.Ans → Daemon
  | .writeApiClient c, s, _ => { s with apiClient := c }
  | .pokeApiClient c, s, _ => { s with apiClient := some c }
  | .writeLocalKeyCache c, s, _ => { s with localKeyCacheData := c }
  | .writeLocalCacheKey k, s, _ => { s with localCacheKeyState := k }
  | .writeCachedKeyTuples ks, s, _ => { s with cachedKeyTuples := ks }
  | .writePublicKeyIdentityTuples ks, s, _ => { s with publicKeyIdentityTuples := ks }
  | .writeFingerprints m, s, _ => { s with keyMaterialFingerprints := m }
  | .writeKeyNames m, s, _ => { s with keyNames := m }
  | .insertMemory key, s, _ => { s with authorizationMemory := s.authorizationMemory.insert key }
  | .retainMemory changed, s, _ =>
    { s with authorizationMemory := s.authorizationMemory.filter fun key => key.1 ∉ changed }
  | .clearMemory, s, _ => { s with authorizationMemory := [] }
  | .notification n u, s, _ => { s with notificationState := u.apply n s.notificationState }
  | .storeVaultLocked b, s, _ => { s with vaultLocked := b }
  | .storePendingSync b, s, _ => { s with pendingSync := b }
  | .swapPendingSync b, s, _ => { s with pendingSync := b }
  | .now, s, a => { s with clock := a }
  | .checkPinLockout n, s, _ => { s with pinFailures := (s.pinFailures.lockoutRemaining n).2 }
  | .recordPin n ok, s, _ => { s with pinFailures := (s.pinFailures.recordAttempt n ok).2 }
  | .startAgent, s, started => if started then { s with agent.isRunning := true } else s
  | .agentLock, s, _ => { s with agent := s.agent.lock }
  | .agentSetKeys ks, s, _ => { s with agent := s.agent.setKeys E ks }
  | .agentSetPublicIdentities ks, s, _ => { s with agent := s.agent.setPublicIdentities E ks }
  | .agentClearKeys, s, _ => { s with agent := s.agent.clearKeys }
  | .agentClearNeedsUnlock, s, _ => { s with agent := s.agent.clearNeedsUnlock }
  | .saveLocalKeyCache c, s, a => afterWrite s { s.disk with localKeyCache := some c } a
  | .deleteLocalKeyCache, s, a => afterWrite s { s.disk with localKeyCache := none } a
  | .saveUnlockSlots f, s, a => afterWrite s { s.disk with unlockSlots := some f } a
  | .deleteUnlockSlots, s, a => afterWrite s { s.disk with unlockSlots := none } a
  | .saveSession f, s, a => afterWrite s { s.disk with session := some f } a
  | .deleteSession, s, a => afterWrite s { s.disk with session := none } a
  | .setNotificationClient url, s, _ =>
    { s with notificationClient := url, notificationRx := url.map fun _ => [] }
  | .sendRuntimeEvent e, s, _ => { s with runtimeEvents := s.runtimeEvents ++ [e] }
  | .sleep d, s, _ => { s with clock := s.clock + d }
  | _, s, _ => s

/-- The operations on one `Daemon`, one program at a time. -/
def machine (E : Crates) : Machine daemonSig Daemon where
  ready := ready E
  next := next E

end SshWarden
