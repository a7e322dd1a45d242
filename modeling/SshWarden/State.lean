import SshWarden.Data

/-!
# The daemon's state

`Agent` is the SSH agent with its keystore, `Daemon` everything the main loop and the request
handlers share, the files the daemon owns included. Times are milliseconds of one monotone clock.
-/

namespace SshWarden

/-! ### The agent (`crates/sshwarden-agent/src/agent.rs`) -/

structure SshWardenKey where
  privateKey : Option String
  publicKeyBytes : Bytes
  name : String
  cipherUuid : String
deriving DecidableEq, Repr

structure Agent where
  keystore : Assoc Bytes SshWardenKey := []
  needsUnlock : Bool := true
  isRunning : Bool := false
deriving DecidableEq, Repr

namespace Agent

/-- One key of `set_keys`: inserted under its public key bytes, skipped when it does not parse. -/
def insertKey (E : Crates) (ks : Assoc Bytes SshWardenKey) (k : KeyTuple) : Assoc Bytes SshWardenKey :=
  match E.parsePrivateKey k.key with
  | some pub => ks.insert pub ⟨some k.key, pub, k.name, k.cipherId⟩
  | none => ks

/-- The keystore after `set_keys` on a running agent. -/
def keystoreOf (E : Crates) (keys : List KeyTuple) : Assoc Bytes SshWardenKey :=
  keys.foldl (insertKey E) []

/-- `false` when the agent is not running: nothing changes then. -/
def setKeys (E : Crates) (a : Agent) (keys : List KeyTuple) : Agent :=
  if a.isRunning then { a with keystore := keystoreOf E keys, needsUnlock := true } else a

def insertIdentity (E : Crates) (ks : Assoc Bytes SshWardenKey) (k : KeyTuple) : Assoc Bytes SshWardenKey :=
  match E.parsePublicKey k.key with
  | some pub => ks.insert pub ⟨none, pub, k.name, k.cipherId⟩
  | none => ks

def setPublicIdentities (E : Crates) (a : Agent) (identities : List KeyTuple) : Agent :=
  if a.isRunning then
    { a with keystore := identities.foldl (insertIdentity E) [], needsUnlock := false }
  else a

def lock (a : Agent) : Agent :=
  if a.isRunning then
    { a with keystore := a.keystore.map fun p => (p.1, { p.2 with privateKey := none }),
             needsUnlock := false }
  else a

def clearKeys (a : Agent) : Agent := { a with keystore := [], needsUnlock := true }

def clearNeedsUnlock (a : Agent) : Agent := { a with needsUnlock := false }

def keyCount (a : Agent) : Nat := a.keystore.length

def signableKeyCount (a : Agent) : Nat := (a.keystore.filter fun p => p.2.privateKey.isSome).length

/-- No entry of the keystore holds a private key. -/
def NoPrivate (a : Agent) : Prop := ∀ p ∈ a.keystore, p.2.privateKey = none

instance (a : Agent) : Decidable a.NoPrivate := inferInstanceAs (Decidable (∀ p ∈ a.keystore, _))

theorem noPrivate_iff (a : Agent) : a.NoPrivate ↔ a.signableKeyCount = 0 := by
  simp [NoPrivate, signableKeyCount, List.filter_eq_nil_iff]

theorem noPrivate_clearKeys (a : Agent) : a.clearKeys.NoPrivate := by simp [NoPrivate, clearKeys]

theorem noPrivate_lock {a : Agent} (h : a.isRunning = true) : a.lock.NoPrivate := by
  intro p hp
  simp only [lock, h, if_true, List.mem_map] at hp
  obtain ⟨q, -, rfl⟩ := hp
  rfl

theorem NoPrivate.lock {a : Agent} (h : a.NoPrivate) : a.lock.NoPrivate := by
  by_cases hr : a.isRunning
  · exact noPrivate_lock hr
  · simpa [Agent.lock, hr] using h

theorem noPrivate_foldl_insertIdentity (E : Crates) (ids : List KeyTuple)
    (ks : Assoc Bytes SshWardenKey) (h : ∀ p ∈ ks, p.2.privateKey = none) :
    ∀ p ∈ ids.foldl (insertIdentity E) ks, p.2.privateKey = none := by
  induction ids generalizing ks with
  | nil => exact h
  | cons k ids ih =>
    refine ih _ fun p hp => ?_
    unfold insertIdentity at hp
    split at hp
    · rcases Assoc.mem_insert hp with rfl | hp
      · rfl
      · exact h p hp
    · exact h p hp

theorem NoPrivate.setPublicIdentities {a : Agent} (E : Crates) (ids : List KeyTuple) (h : a.NoPrivate) :
    (a.setPublicIdentities E ids).NoPrivate := by
  unfold Agent.setPublicIdentities
  split
  · exact noPrivate_foldl_insertIdentity E ids [] (by simp)
  · exact h

@[simp] theorem setKeys_isRunning (E : Crates) (a : Agent) (ks : List KeyTuple) :
    (a.setKeys E ks).isRunning = a.isRunning := by unfold setKeys; split <;> rfl

@[simp] theorem setPublicIdentities_isRunning (E : Crates) (a : Agent) (ks : List KeyTuple) :
    (a.setPublicIdentities E ks).isRunning = a.isRunning := by
  unfold setPublicIdentities; split <;> rfl

@[simp] theorem lock_isRunning (a : Agent) : a.lock.isRunning = a.isRunning := by
  unfold lock; split <;> rfl

end Agent

/-! ### Notification state (`src/runtime.rs`) -/

structure NotificationRuntimeState where
  state : NotificationConnectionState := .notStarted
  url : Option String := none
  lastError : Option String := none
  consecutiveFailures : Nat := 0
  totalFailures : Nat := 0
  nextRetryInSecs : Option Nat := none
  connects : Nat := 0
  lastConnectedAt : Option Nat := none
  lastEventAt : Option Nat := none
  lastFallbackSyncAt : Option Nat := none
  lastSyncAt : Option Nat := none
  staleCache : Bool := false
  staleCacheError : Option String := none
deriving DecidableEq, Repr

/-- The updates of the notification state, one for each method of the source's type and one for each
field written directly. -/
inductive NotificationUpdate
  | beginConnect (url : String)
  | applyStatus (status : NotificationStatus)
  | markClientFailed (error : String)
  | recordEvent
  | setLastEventAt
  | recordFallbackSync
  | recordSuccessfulSync
  | markCacheRefreshed
  | markCacheStale (error : String)
  | reset
deriving DecidableEq, Repr

/-- `u32::saturating_add(1)`. -/
def saturatingSucc (n : Nat) : Nat := min (n + 1) (2 ^ 32 - 1)

def NotificationUpdate.apply (now : Nat) (n : NotificationRuntimeState) :
    NotificationUpdate → NotificationRuntimeState
  | beginConnect url =>
    { n with state := .connecting, url := some url, lastError := none, nextRetryInSecs := none }
  | applyStatus status =>
    { n with
      state := status.state
      consecutiveFailures := status.consecutiveFailures
      totalFailures := status.totalFailures
      nextRetryInSecs := status.nextRetryIn.map (· / 1000)
      lastError := status.lastError
      connects := status.connects
      lastConnectedAt := if status.state = .connected then some now else n.lastConnectedAt }
  | markClientFailed error =>
    { n with
      state := .degraded
      lastError := some error
      totalFailures := saturatingSucc n.totalFailures
      consecutiveFailures := saturatingSucc n.consecutiveFailures
      nextRetryInSecs := none }
  | recordEvent => { n with lastEventAt := some now }
  | setLastEventAt => { n with lastEventAt := some now }
  | recordFallbackSync => { n with lastEventAt := some now, lastFallbackSyncAt := some now }
  | recordSuccessfulSync => { n with lastSyncAt := some now }
  | markCacheRefreshed => { n with staleCache := false, staleCacheError := none }
  | markCacheStale error => { n with staleCache := true, staleCacheError := some error }
  | reset => {}

/-! ### PIN throttling (`src/control.rs`) -/

structure PinFailureState where
  consecutiveFailures : Nat := 0
  lockedUntil : Option Nat := none
deriving DecidableEq, Repr

def PIN_MAX_ATTEMPTS : Nat := 5
def PIN_FAILURE_BASE_DELAY : Nat := 500
def PIN_FAILURE_MAX_DELAY : Nat := 5000
def PIN_LOCKOUT : Nat := 30000

namespace PinFailureState

/-- `pin_lockout_remaining`: the time left, and the state with an expired lockout cleared. -/
def lockoutRemaining (st : PinFailureState) (now : Nat) : Option Nat × PinFailureState :=
  match st.lockedUntil with
  | some until_ => if until_ > now then (some (until_ - now), st) else (none, { st with lockedUntil := none })
  | none => (none, st)

/-- `record_pin_attempt`: the delay to apply, and the new state. -/
def recordAttempt (st : PinFailureState) (now : Nat) (success : Bool) : Nat × PinFailureState :=
  if success then (0, {})
  else
    let failures := saturatingSucc st.consecutiveFailures
    (min (PIN_FAILURE_BASE_DELAY * failures) PIN_FAILURE_MAX_DELAY,
      { consecutiveFailures := failures
        lockedUntil := if failures ≥ PIN_MAX_ATTEMPTS then some (now + PIN_LOCKOUT) else st.lockedUntil })

end PinFailureState

/-! ### The daemon -/

/-- The files of the daemon that its handlers read and write. -/
structure Disk where
  localKeyCache : Option LocalKeyCacheFile := none
  unlockSlots : Option UnlockSlotsFile := none
  session : Option SessionFile := none
deriving DecidableEq, Repr

structure Daemon where
  agent : Agent := {}
  vaultLocked : Bool := false
  cachedKeyTuples : List KeyTuple := []
  publicKeyIdentityTuples : List KeyTuple := []
  apiClient : Option BitwardenClient := none
  localKeyCacheData : Option LocalKeyCacheFile := none
  localCacheKeyState : Option SymmetricKey := none
  authorizationMemory : List (String × String) := []
  keyMaterialFingerprints : Assoc String String := []
  pendingSync : Bool := false
  pinFailures : PinFailureState := {}
  inFlightPrompts : Nat := 0
  keyNames : Assoc String String := []
  notificationState : NotificationRuntimeState := {}
  notificationRx : Option (List SyncEvent) := none
  notificationClient : Option String := none
  runtimeEvents : List RuntimeEvent := []
  clock : Nat := 0
  disk : Disk := {}
deriving DecidableEq, Repr

/-- The `key_names` map of a list of keys: `clear` followed by one insertion for each key. -/
def keyNamesOf (keys : List KeyTuple) : Assoc String String :=
  Assoc.ofList (keys.map fun k => (k.cipherId, k.name))

end SshWarden
