import SshWarden.Ops

/-!
# The local key cache (`src/cache.rs`)

The envelope cache: the payload is encrypted under the Local Cache Key, and the unlock slots wrap that
key. The PIN functions of `crates/sshwarden-api/src/crypto.rs` come first.
-/

namespace SshWarden

def derivePinKeyWithSalt (E : Crates) (pin : String) (salt : Bytes) : Except String SymmetricKey := do
  let material ← E.argon2id pin salt
  return ⟨material.take 32, material.drop 32⟩

def pinEncryptWithSalt (E : Crates) (iv : Bytes) (data pin : String) (salt : Bytes) : Except String String := do
  let key ← derivePinKeyWithSalt E pin salt
  E.encryptEncString iv (utf8 data) key

def pinDecryptWithSalt (E : Crates) (encString pin : String) (salt : Bytes) : Except String String := do
  let key ← derivePinKeyWithSalt E pin salt
  let bytes ← E.decryptEncString encString key
  match fromUtf8 bytes with
  | some text => return text
  | none => .error "PIN-decrypted data is not valid UTF-8"

def pinEncrypt (E : Crates) (iv : Bytes) (data pin : String) : Except String String :=
  pinEncryptWithSalt E iv data pin E.legacyPinSalt

def pinDecrypt (E : Crates) (encString pin : String) : Except String String :=
  pinDecryptWithSalt E encString pin E.legacyPinSalt

def encodeSymmetricKey (E : Crates) (key : SymmetricKey) : String :=
  E.base64Encode (key.encKey ++ key.macKey)

def decodeSymmetricKey (E : Crates) (encoded : String) : Except String SymmetricKey :=
  match E.base64Decode encoded with
  | none => .error "Failed to decode symmetric key material"
  | some material =>
    if material.length ≠ 64 then .error "Symmetric key material has unexpected length"
    else .ok ⟨material.take 32, material.drop 32⟩

def keyIdentitiesFromTuples (E : Crates) (keys : List KeyTuple) : List KeyIdentity :=
  keys.map fun k => ⟨k.name, k.cipherId, (E.publicKeyOpensshFromPem k.key).getD ""⟩

def buildEnvelopeLocalKeyCache (E : Crates) (iv : Bytes) (keys : List KeyTuple) (email serverUrl : String)
    (localCacheKey : SymmetricKey) (slots : LocalCacheKeySlots) : Except String LocalKeyCacheFile := do
  let encryptedPayload ← E.encryptEncString iv (utf8 (E.keysToJson keys)) localCacheKey
  return {
    version := 3
    header := { email, serverUrl, keys := keyIdentitiesFromTuples E keys }
    encryptedPayload
    localCacheKey := slots }

/-- Wrap the Local Cache Key with a PIN and a fresh salt: the PIN slot and its salt. -/
def encryptLocalCacheKeyWithPin (E : Crates) (localCacheKey : SymmetricKey) (pin : String) :
    DProg (Except String (String × String)) := do
  let salt ← op .randomPinSalt
  let iv ← op .randomIv
  match pinEncryptWithSalt E iv (encodeSymmetricKey E localCacheKey) pin salt with
  | .error e => return .error e
  | .ok pinEncrypted => return .ok (pinEncrypted, E.base64Encode salt)

/-- A device slots file that fails to load counts as missing. -/
def loadDeviceUnlockSlots : DProg (Option UnlockSlotsFile) := do
  match ← op .loadUnlockSlots with
  | .ok slots => return slots
  | .error _ => return none

def currentNativeUnlockSlot (cfg : Config) (cache : LocalKeyCacheFile) : DProg (Option String) := do
  let slots ← loadDeviceUnlockSlots
  let deviceSlot := slots.bind UnlockSlotsFile.nativeEncrypted
  if cfg.multiDevice then return deviceSlot
  else return deviceSlot.or cache.localCacheKey.nativeEncrypted

def nativeEncryptDeviceSlot (E : Crates) (localCacheKey : SymmetricKey) : DProg (Except String Unit) := do
  match ← op (.nativeEncrypt (encodeSymmetricKey E localCacheKey)) with
  | .error e => return .error e
  | .ok nativeSlot =>
    let slots ← loadDeviceUnlockSlots
    op (.saveUnlockSlots { slots.getD {} with nativeEncrypted := some nativeSlot })

def enrollNativeForLocalKeyCache (E : Crates) (cfg : Config) (cache : LocalKeyCacheFile)
    (localCacheKey : SymmetricKey) : DProg (Except String LocalKeyCacheFile) := do
  if !(← op .nativeAvailable) then return .error "native unlock is not available"
  else if cfg.multiDevice then
    match ← nativeEncryptDeviceSlot E localCacheKey with
    | .error e => return .error e
    | .ok _ => return .ok { cache with localCacheKey := { cache.localCacheKey with nativeEncrypted := none } }
  else
    match ← op (.nativeEncrypt (encodeSymmetricKey E localCacheKey)) with
    | .error e => return .error e
    | .ok nativeSlot =>
      return .ok { cache with localCacheKey := { cache.localCacheKey with nativeEncrypted := some nativeSlot } }

/-- A failed native enrolment is only logged. -/
def enrollNativeIfPossible (E : Crates) (cfg : Config) (cache : LocalKeyCacheFile)
    (localCacheKey : SymmetricKey) : DProg LocalKeyCacheFile := do
  match ← enrollNativeForLocalKeyCache E cfg cache localCacheKey with
  | .ok enrolled => return enrolled
  | .error _ => return cache

def writeEnvelopeLocalKeyCacheWithKey (E : Crates) (cfg : Config) (keys : List KeyTuple)
    (email serverUrl pin : String) (localCacheKey : SymmetricKey) :
    DProg (Except String (LocalKeyCacheFile × SymmetricKey)) := do
  match ← encryptLocalCacheKeyWithPin E localCacheKey pin with
  | .error e => return .error e
  | .ok (pinEncrypted, pinSalt) =>
    let iv ← op .randomIv
    match buildEnvelopeLocalKeyCache E iv keys email serverUrl localCacheKey
        { pinEncrypted := some pinEncrypted, pinSalt := some pinSalt } with
    | .error e => return .error e
    | .ok built =>
      let cache ← enrollNativeIfPossible E cfg built localCacheKey
      match ← op (.saveLocalKeyCache cache) with
      | .error e => return .error e
      | .ok _ => return .ok (cache, localCacheKey)

def writeEnvelopeLocalKeyCache (E : Crates) (cfg : Config) (keys : List KeyTuple)
    (email serverUrl pin : String) : DProg (Except String (LocalKeyCacheFile × SymmetricKey)) := do
  let localCacheKey ← op .randomSymmetricKey
  writeEnvelopeLocalKeyCacheWithKey E cfg keys email serverUrl pin localCacheKey

/-- The slots a refresh keeps: in multi-device mode the platform slots leave the shared cache. -/
def refreshedSlots (cfg : Config) (slots : LocalCacheKeySlots) : LocalCacheKeySlots :=
  if cfg.multiDevice then { pinEncrypted := slots.pinEncrypted, pinSalt := slots.pinSalt } else slots

def refreshEnvelopeLocalKeyCache (E : Crates) (cfg : Config) (keys : List KeyTuple)
    (existing : LocalKeyCacheFile) (localCacheKey : SymmetricKey) :
    DProg (Except String LocalKeyCacheFile) := do
  let iv ← op .randomIv
  match buildEnvelopeLocalKeyCache E iv keys existing.header.email existing.header.serverUrl localCacheKey
      (refreshedSlots cfg existing.localCacheKey) with
  | .error e => return .error e
  | .ok cache =>
    match ← op (.saveLocalKeyCache cache) with
    | .error e => return .error e
    | .ok _ => return .ok cache

def persistDeviceUnlockSlotsFromCache (cfg : Config) (cache : LocalKeyCacheFile) :
    DProg (Except String Unit) := do
  if !cfg.multiDevice then return .ok ()
  else
    let slots := (← loadDeviceUnlockSlots).getD {}
    let lck := cache.localCacheKey
    let slots' : UnlockSlotsFile :=
      { slots with
        nativeEncrypted := slots.nativeEncrypted.or lck.nativeEncrypted
        helloChallenge := slots.helloChallenge.or lck.helloChallenge
        helloEncrypted := slots.helloEncrypted.or lck.helloEncrypted }
    if slots' ≠ slots then op (.saveUnlockSlots slots') else return .ok ()

/-- A missing or unreadable shared file keeps the copy in memory. -/
def reloadSharedLocalCacheFromDiskIfMultiDevice (cfg : Config) : DProg Unit := do
  if !cfg.multiDevice then return ()
  else
    match ← op .loadLocalKeyCache with
    | .ok (some cache) =>
      let _ ← persistDeviceUnlockSlotsFromCache cfg cache
      op (.writeLocalKeyCache (some cache))
    | .ok none => return ()
    | .error _ => return ()

def enrollDevicePlatformSlotsIfMissing (E : Crates) (cfg : Config) (localCacheKey : SymmetricKey) :
    DProg Unit := do
  if !cfg.multiDevice then return ()
  else
    let slots := (← loadDeviceUnlockSlots).getD {}
    if slots.nativeEncrypted.isNone then
      if ← op .nativeAvailable then
        let _ ← nativeEncryptDeviceSlot E localCacheKey
        return ()
      else return ()
    else return ()

def decryptEnvelopePayload (E : Crates) (cache : LocalKeyCacheFile) (localCacheKey : SymmetricKey) :
    Except String (String × SymmetricKey) :=
  match E.decryptEncString cache.encryptedPayload localCacheKey with
  | .error _ => .error "Failed to decrypt local key cache payload"
  | .ok payload =>
    match fromUtf8 payload with
    | none => .error "Local key cache payload is not valid UTF-8"
    | some keysJson => .ok (keysJson, localCacheKey)

theorem decryptEnvelopePayload_key {E : Crates} {cache : LocalKeyCacheFile} {key : SymmetricKey}
    {opened : String × SymmetricKey} (h : decryptEnvelopePayload E cache key = .ok opened) : opened.2 = key := by
  unfold decryptEnvelopePayload at h
  split at h
  · cases h
  · split at h
    · cases h
    · obtain rfl := Except.ok.inj h
      rfl

def decryptEnvelopeLocalKeyCacheWithNative (E : Crates) (cfg : Config) (cache : LocalKeyCacheFile) :
    DProg (Except String (String × SymmetricKey)) := do
  match ← currentNativeUnlockSlot cfg cache with
  | none => return .error "Local key cache has no native unlock slot"
  | some nativeSlot =>
    match ← op (.nativeDecrypt nativeSlot) with
    | .error _ => return .error "Failed to unlock Local Cache Key with native unlock"
    | .ok encodedLck =>
      match decodeSymmetricKey E encodedLck with
      | .error _ => return .error "Failed to decode Local Cache Key"
      | .ok localCacheKey => return decryptEnvelopePayload E cache localCacheKey

/-- The salt of the PIN slot; a slot without one was made with the legacy salt. -/
def pinSlotSalt (E : Crates) (slots : LocalCacheKeySlots) : Except String Bytes :=
  match slots.pinSalt with
  | none => .ok E.legacyPinSalt
  | some saltB64 =>
    match E.base64Decode saltB64 with
    | none => .error "Invalid PIN salt in local key cache"
    | some salt => .ok salt

/-- The Local Cache Key in the PIN slot. -/
def openPinSlot (E : Crates) (slots : LocalCacheKeySlots) (pin : String) : Except String SymmetricKey :=
  match slots.pinEncrypted with
  | none => .error "Local key cache has no PIN unlock slot"
  | some encryptedLck =>
    match pinSlotSalt E slots with
    | .error e => .error e
    | .ok salt =>
      match pinDecryptWithSalt E encryptedLck pin salt with
      | .error _ => .error "Failed to unlock Local Cache Key with PIN"
      | .ok encodedLck =>
        match decodeSymmetricKey E encodedLck with
        | .error _ => .error "Failed to decode Local Cache Key"
        | .ok localCacheKey => .ok localCacheKey

def decryptEnvelopeLocalKeyCacheWithPin (E : Crates) (cache : LocalKeyCacheFile) (pin : String) :
    Except String (String × SymmetricKey) := do
  let localCacheKey ← openPinSlot E cache.localCacheKey pin
  decryptEnvelopePayload E cache localCacheKey

def needsPinSaltMigration (cache : LocalKeyCacheFile) : Bool :=
  cache.localCacheKey.pinEncrypted.isSome && (decide (cache.version < 3) || cache.localCacheKey.pinSalt.isNone)

def migratePinSaltToV3 (E : Crates) (cache : LocalKeyCacheFile) (localCacheKey : SymmetricKey) (pin : String) :
    DProg (Except String LocalKeyCacheFile) := do
  match ← encryptLocalCacheKeyWithPin E localCacheKey pin with
  | .error e => return .error e
  | .ok (pinEncrypted, pinSalt) =>
    let migrated : LocalKeyCacheFile :=
      { cache with
        version := 3
        localCacheKey := { cache.localCacheKey with pinEncrypted := some pinEncrypted, pinSalt := some pinSalt } }
    match ← op (.saveLocalKeyCache migrated) with
    | .error e => return .error e
    | .ok _ => return .ok migrated

def keyMaterialFingerprintsFromTuples (E : Crates) (keys : List KeyTuple) : Assoc String String :=
  Assoc.ofList (keys.map fun k => (k.cipherId, E.sha256Hex k.key))

/-- The item ids whose fingerprint differs between the two maps, or that only one of them has. -/
def changedOrRemoved (old new : Assoc String String) : List String :=
  (old.filterMap fun p => if new.get? p.1 = some p.2 then none else some p.1) ++
    (new.map Prod.fst).filter fun id => (old.get? id).isNone

/-- Drop the remembered approvals of the changed items; the new fingerprints are returned. -/
def clearAuthorizationMemoryForChangedKeys (E : Crates) (old : Assoc String String) (newKeys : List KeyTuple) :
    DProg (Assoc String String) := do
  let new := keyMaterialFingerprintsFromTuples E newKeys
  let changed := changedOrRemoved old new
  if changed = [] then return new
  else
    op (.retainMemory changed)
    return new

def keyTuplesFromCacheHeader (cache : LocalKeyCacheFile) : List KeyTuple :=
  cache.header.keys.map fun k => ⟨k.publicKeyOpenssh, k.name, k.vaultItemId⟩

end SshWarden
