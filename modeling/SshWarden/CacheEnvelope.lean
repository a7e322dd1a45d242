import SshWarden.EncString
import SshWarden.Scenario

/-!
# What a PIN opens

The envelope cache from the writer to the reader: the PIN slot wraps the Local Cache Key, the Local Cache Key
seals the payload, and both are EncStrings of base64. `opens_after_writes`: a cache that was written with a PIN
opens with it, and goes on to open after every refresh. `migration_preserves`: a slot that is wrapped again
with a fresh salt opens as before, and to no other PIN.
-/

namespace SshWarden
open Prog

variable {E : Crates} {P : CipherCrates} {cfg : Config} {keys : List KeyTuple} {email serverUrl pin : String}
  {lck key : SymmetricKey} {cache cache' : LocalKeyCacheFile} {slots : LocalCacheKeySlots} {tr : List Event}

theorem decode_encode_symmetricKey (hP : CipherLaws P) (henc : key.encKey.length = 32)
    (hmac : key.macKey.length = 32) :
    decodeSymmetricKey (E.withCipher P) (encodeSymmetricKey (E.withCipher P) key) = .ok key := by
  have hdecode : (E.withCipher P).base64Decode (encodeSymmetricKey (E.withCipher P) key)
      = some (key.encKey ++ key.macKey) := by
    show P.base64Decode (String.ofList (P.base64Encode (key.encKey ++ key.macKey))).toList = _
    rw [String.toList_ofList, hP.base64_decode]
  have hlen : ¬(key.encKey ++ key.macKey).length ≠ 64 := by rw [List.length_append, henc, hmac]; decide
  simp only [decodeSymmetricKey, hdecode, if_neg hlen, List.take_left' henc, List.drop_left' henc]

theorem length_of_decodeSymmetricKey {encoded : String} (h : decodeSymmetricKey E encoded = .ok key) :
    key.encKey.length = 32 ∧ key.macKey.length = 32 := by
  unfold decodeSymmetricKey at h
  split at h
  · cases h
  · next material _ =>
    split at h
    · cases h
    · next hlen =>
      obtain rfl := Except.ok.inj h
      rw [not_not] at hlen
      simp [hlen]

/-- The slot was made by wrapping the key with the PIN and a salt of its own. -/
def Wraps (E : Crates) (slots : LocalCacheKeySlots) (pin : String) (lck : SymmetricKey) : Prop :=
  ∃ enc salt iv, slots.pinEncrypted = some enc ∧ slots.pinSalt = some (E.base64Encode salt) ∧
    pinEncryptWithSalt E iv (encodeSymmetricKey E lck) pin salt = .ok enc

theorem wraps_of_runs {enc saltB64 : String} (slots : LocalCacheKeySlots)
    (h : Runs (encryptLocalCacheKeyWithPin E lck pin) tr (.ok (enc, saltB64))) :
    Wraps E { slots with pinEncrypted := some enc, pinSalt := some saltB64 } pin lck := by
  obtain ⟨salt, _, -, h⟩ := runs_perform_bind.1 h
  obtain ⟨iv, _, -, h⟩ := runs_perform_bind.1 h
  split at h
  · exact nomatch (runs_ret.1 h).2
  · next enc' henc =>
    obtain ⟨rfl, rfl⟩ := Prod.mk.inj (Except.ok.inj (runs_ret.1 h).2)
    exact ⟨enc, salt, iv, rfl, rfl, henc⟩

/-- The key of the slot, and the EncString it encrypts. -/
theorem Wraps.exists_key (h : Wraps (E.withCipher P) slots pin lck) (hP : CipherLaws P) :
    ∃ salt pinKey iv s, slots.pinSalt = some ((E.withCipher P).base64Encode salt) ∧
      slots.pinEncrypted = some (String.ofList s) ∧ derivePinKeyWithSalt E pin salt = .ok pinKey ∧
      pinSlotSalt (E.withCipher P) slots = .ok salt ∧
      encryptEncString P iv (utf8 (encodeSymmetricKey (E.withCipher P) lck)) pinKey = .ok s := by
  obtain ⟨enc, salt, iv, henc, hsalt, hwrap⟩ := h
  obtain ⟨pinKey, hkey, hwrap⟩ := except_bind_ok hwrap
  obtain ⟨s, hs, rfl⟩ := except_map_ok hwrap
  refine ⟨salt, pinKey, iv, s, hsalt, henc, hkey, ?_, hs⟩
  have hdecode : (E.withCipher P).base64Decode ((E.withCipher P).base64Encode salt) = some salt := by
    show P.base64Decode (String.ofList (P.base64Encode salt)).toList = _
    rw [String.toList_ofList, hP.base64_decode]
  simp only [pinSlotSalt, hsalt, hdecode]

theorem Wraps.opens (h : Wraps (E.withCipher P) slots pin lck) (hP : CipherLaws P)
    (henc : lck.encKey.length = 32) (hmac : lck.macKey.length = 32) :
    openPinSlot (E.withCipher P) slots pin = .ok lck := by
  obtain ⟨salt, pinKey, iv, s, -, hslot, hkey, hsalt, hs⟩ := h.exists_key hP
  refine openPinSlot_ok.2 ⟨_, pinKey, _, hslot, ?_, ?_, decode_encode_symmetricKey hP henc hmac⟩
  · rw [pinSlotKey, hsalt]
    exact hkey
  · rw [String.toList_ofList]
    exact decrypt_of_encrypt hP hs

/-- The payload is the JSON of these keys under this key, and the header lists them. -/
structure Envelope (E : Crates) (email serverUrl : String) (lck : SymmetricKey) (keys : List KeyTuple)
    (cache : LocalKeyCacheFile) : Prop where
  payload : ∃ iv, E.encryptEncString iv (utf8 (E.keysToJson keys)) lck = .ok cache.encryptedPayload
  header : cache.header = ⟨email, serverUrl, keyIdentitiesFromTuples E keys⟩

theorem envelope_of_build {iv : Bytes}
    (h : buildEnvelopeLocalKeyCache E iv keys email serverUrl lck slots = .ok cache) :
    Envelope E email serverUrl lck keys cache ∧ cache.localCacheKey = slots := by
  obtain ⟨payload, hpayload, h⟩ := except_bind_ok h
  obtain rfl := Except.ok.inj h
  exact ⟨⟨⟨iv, hpayload⟩, rfl⟩, rfl⟩

/-- Enrolling a platform slot leaves the rest of the cache alone. -/
structure SameEnvelope (cache cache' : LocalKeyCacheFile) : Prop where
  header : cache'.header = cache.header
  payload : cache'.encryptedPayload = cache.encryptedPayload
  pinEncrypted : cache'.localCacheKey.pinEncrypted = cache.localCacheKey.pinEncrypted
  pinSalt : cache'.localCacheKey.pinSalt = cache.localCacheKey.pinSalt

theorem sameEnvelope_of_enroll (h : Runs (enrollNativeIfPossible E cfg cache lck) tr cache') :
    SameEnvelope cache cache' := by
  obtain ⟨_, _, r, -, hr, h⟩ := runs_bind.1 h
  cases r with
  | error e => obtain ⟨-, rfl⟩ := runs_ret.1 h; exact ⟨rfl, rfl, rfl, rfl⟩
  | ok enrolled =>
    obtain ⟨-, rfl⟩ := runs_ret.1 h
    obtain ⟨available, _, -, hr⟩ := runs_perform_bind.1 hr
    split at hr
    · exact nomatch (runs_ret.1 hr).2
    · split at hr
      · obtain ⟨_, _, r, -, -, hr⟩ := runs_bind.1 hr
        cases r with
        | error e => exact nomatch (runs_ret.1 hr).2
        | ok u => obtain rfl := Except.ok.inj (runs_ret.1 hr).2; exact ⟨rfl, rfl, rfl, rfl⟩
      · obtain ⟨r, _, -, hr⟩ := runs_perform_bind.1 hr
        cases r with
        | error e => exact nomatch (runs_ret.1 hr).2
        | ok slot => obtain rfl := Except.ok.inj (runs_ret.1 hr).2; exact ⟨rfl, rfl, rfl, rfl⟩

/-- The caches made with one PIN and one Local Cache Key: written once, then refreshed any number of times,
under any settings. The keys are those of the last write. -/
inductive Made (E : Crates) (pin email serverUrl : String) (lck : SymmetricKey) :
    List KeyTuple → LocalKeyCacheFile → Prop
  | written {cfg : Config} {keys : List KeyTuple} {cache : LocalKeyCacheFile} {key : SymmetricKey}
    {tr : List Event}
      (h : Runs (writeEnvelopeLocalKeyCacheWithKey E cfg keys email serverUrl pin lck) tr (.ok (cache, key))) :
      Made E pin email serverUrl lck keys cache
  | refreshed {cfg : Config} {keys keys' : List KeyTuple} {cache cache' : LocalKeyCacheFile} {tr : List Event}
      (h : Made E pin email serverUrl lck keys cache)
      (hr : Runs (refreshEnvelopeLocalKeyCache E cfg keys' cache lck) tr (.ok cache')) :
      Made E pin email serverUrl lck keys' cache'

theorem envelope_of_write
    (h : Runs (writeEnvelopeLocalKeyCacheWithKey E cfg keys email serverUrl pin lck) tr (.ok (cache, key))) :
    Envelope E email serverUrl lck keys cache ∧ Wraps E cache.localCacheKey pin lck := by
  obtain ⟨_, _, r, -, hwrap, h⟩ := runs_bind.1 h
  cases r with
  | error e => exact nomatch (runs_ret.1 h).2
  | ok slot =>
    obtain ⟨enc, saltB64⟩ := slot
    obtain ⟨iv, _, -, h⟩ := runs_perform_bind.1 h
    split at h
    · exact nomatch (runs_ret.1 h).2
    · next built hbuilt =>
      obtain ⟨_, _, enrolled, -, henroll, h⟩ := runs_bind.1 h
      obtain ⟨saved, _, -, h⟩ := runs_perform_bind.1 h
      cases saved with
      | error e => exact nomatch (runs_ret.1 h).2
      | ok u =>
        obtain ⟨rfl, -⟩ := Prod.mk.inj (Except.ok.inj (runs_ret.1 h).2)
        obtain ⟨henv, hslots⟩ := envelope_of_build hbuilt
        have hsame := sameEnvelope_of_enroll henroll
        obtain ⟨enc', salt, iv', henc, hsalt, hw⟩ := wraps_of_runs {} hwrap
        refine ⟨⟨?_, hsame.header.trans henv.header⟩, enc', salt, iv', ?_, ?_, hw⟩
        · rw [hsame.payload]; exact henv.payload
        · rw [hsame.pinEncrypted, hslots]; exact henc
        · rw [hsame.pinSalt, hslots]; exact hsalt

/-- A refresh keeps the PIN slot with its salt. -/
theorem envelope_of_refresh (h : Runs (refreshEnvelopeLocalKeyCache E cfg keys cache lck) tr (.ok cache')) :
    Envelope E cache.header.email cache.header.serverUrl lck keys cache' ∧
      cache'.localCacheKey.pinEncrypted = cache.localCacheKey.pinEncrypted ∧
      cache'.localCacheKey.pinSalt = cache.localCacheKey.pinSalt := by
  obtain ⟨iv, _, -, h⟩ := runs_perform_bind.1 h
  split at h
  · exact nomatch (runs_ret.1 h).2
  · next built hbuilt =>
    obtain ⟨saved, _, -, h⟩ := runs_perform_bind.1 h
    cases saved with
    | error e => exact nomatch (runs_ret.1 h).2
    | ok u =>
      obtain rfl := Except.ok.inj (runs_ret.1 h).2
      obtain ⟨henv, hslots⟩ := envelope_of_build hbuilt
      refine ⟨henv, ?_⟩
      rw [hslots, refreshedSlots]
      split <;> exact ⟨rfl, rfl⟩

theorem Made.envelope (h : Made E pin email serverUrl lck keys cache) :
    Envelope E email serverUrl lck keys cache ∧ Wraps E cache.localCacheKey pin lck := by
  induction h with
  | written h => exact envelope_of_write h
  | refreshed h hr ih =>
    obtain ⟨henv, hwraps⟩ := ih
    obtain ⟨henv', hpin, hsalt⟩ := envelope_of_refresh hr
    rw [henv.header] at henv'
    refine ⟨henv', ?_⟩
    obtain ⟨enc, salt, iv, henc, hsalt', hw⟩ := hwraps
    exact ⟨enc, salt, iv, hpin.trans henc, hsalt.trans hsalt', hw⟩

theorem Envelope.opens (h : Envelope (E.withCipher P) email serverUrl lck keys cache) (hP : CipherLaws P) :
    decryptEncString P cache.encryptedPayload.toList lck = .ok (utf8 (E.keysToJson keys)) := by
  obtain ⟨iv, hpayload⟩ := h.payload
  obtain ⟨s, hs, hpayload⟩ := except_map_ok hpayload
  rw [← hpayload, String.toList_ofList]
  exact decrypt_of_encrypt hP hs

/-- The names and ids of the header are those of the keys, index by index. -/
theorem Envelope.header_getElem? (h : Envelope E email serverUrl lck keys cache) (i : Nat) :
    cache.header.keys[i]?.map (fun k => (k.name, k.vaultItemId)) = keys[i]?.map fun k => (k.name, k.cipherId) := by
  rw [h.header, keyIdentitiesFromTuples, List.getElem?_map, Option.map_map]
  rfl

/-- Set PIN, then unlock: the cache gives back the keys and the Local Cache Key. -/
theorem opens_after_writes (hP : CipherLaws P) (hjson : ∀ keys, E.keysFromJson (E.keysToJson keys) = .ok keys)
    (henc : lck.encKey.length = 32) (hmac : lck.macKey.length = 32)
    (h : Made (E.withCipher P) pin email serverUrl lck keys cache) :
    decryptEnvelopeLocalKeyCacheWithPin (E.withCipher P) cache pin = .ok (E.keysToJson keys, lck) ∧
      E.keysFromJson (E.keysToJson keys) = .ok keys ∧
      ∀ i : Nat, cache.header.keys[i]?.map (fun k => (k.name, k.vaultItemId))
        = keys[i]?.map fun k => (k.name, k.cipherId) := by
  obtain ⟨henv, hwraps⟩ := h.envelope
  refine ⟨?_, hjson keys, henv.header_getElem?⟩
  rw [decryptEnvelopeLocalKeyCacheWithPin, hwraps.opens hP henc hmac, except_ok_bind]
  exact decryptEnvelopePayload_ok.2 ⟨rfl, henv.opens hP⟩

/-- Crates that derive 64 bytes from a short PIN: zeros, a one, the PIN and the salt. -/
def Crates.keyed : Crates :=
  { Crates.plain with
    argon2id := fun pin salt => .ok (List.replicate (63 - (utf8 pin ++ salt).length) 0 ++ 1 :: (utf8 pin ++ salt))
    legacyPinSalt := List.replicate 32 9 }

/-- Answers of the right size, no keyring, and saves that succeed. -/
def sizedAnswer : (o : Op) → o.Ans
  | .randomIv => List.replicate 16 5
  | .randomPinSalt => List.replicate 16 7
  | .nativeAvailable => false
  | .saveLocalKeyCache _ => .ok ()
  | o => plainScript.answer o {}

/-- A cache written and refreshed with these answers. -/
def rewrittenCache (first second : List KeyTuple) : Option LocalKeyCacheFile :=
  ((writeEnvelopeLocalKeyCacheWithKey (Crates.keyed.withCipher .plain) plainConfig first "me" "vault" "1234"
      bareKey).value sizedAnswer).toOption.bind fun written =>
    ((refreshEnvelopeLocalKeyCache (Crates.keyed.withCipher .plain) plainConfig second written.1 bareKey).value
      sizedAnswer).toOption

theorem made_of_rewrittenCache {first second : List KeyTuple} (h : rewrittenCache first second = some cache) :
    Made (Crates.keyed.withCipher .plain) "1234" "me" "vault" bareKey second cache := by
  obtain ⟨⟨written, k⟩, hwritten, hrefreshed⟩ := Option.bind_eq_some_iff.1 h
  obtain ⟨tr₁, hw⟩ := exists_runs_value sizedAnswer
    (writeEnvelopeLocalKeyCacheWithKey (Crates.keyed.withCipher .plain)
    plainConfig first "me" "vault" "1234" bareKey)
  obtain ⟨tr₂, hr⟩ := exists_runs_value sizedAnswer
    (refreshEnvelopeLocalKeyCache (Crates.keyed.withCipher .plain) plainConfig second written bareKey)
  rw [except_eq_ok_of_toOption hwritten] at hw
  rw [except_eq_ok_of_toOption hrefreshed] at hr
  exact .refreshed (.written hw) hr

theorem opens_after_writes_rewritten :
    ∃ cache, rewrittenCache [⟨"pem", "old", "1"⟩] [⟨"pem", "new", "1"⟩] = some cache ∧
    decryptEnvelopeLocalKeyCacheWithPin (Crates.keyed.withCipher .plain) cache "1234"
      = .ok (Plain.keysToJson [⟨"pem", "new", "1"⟩], bareKey) := by
  obtain ⟨cache, hcache⟩ := Option.isSome_iff_exists.1
    (show (rewrittenCache [⟨"pem", "old", "1"⟩] [⟨"pem", "new", "1"⟩]).isSome = true by decide)
  exact ⟨cache, hcache, (opens_after_writes cipherLaws_plain Plain.keysFromJson_keysToJson rfl rfl
    (made_of_rewrittenCache hcache)).1⟩

/-! ### The migration of the PIN slot -/

/-- `serde_json` on the cache file. -/
structure CacheJson where
  toStringPretty : LocalKeyCacheFile → String
  fromStr : String → Except String LocalKeyCacheFile

/-- `LocalKeyCacheFile::load` of what is at the path: nothing, or what reading it gives. -/
def LocalKeyCacheFile.load (J : CacheJson) (path : String) (content : Option (Except String String)) :
    Except String (Option LocalKeyCacheFile) :=
  match content with
  | none => .ok none
  | some (.error _) => .error s!"Failed to read local key cache: {path}"
  | some (.ok content) =>
    match J.fromStr content with
    | .error _ => .error s!"Failed to parse local key cache: {path}"
    | .ok cache =>
      if cache.version ∈ SUPPORTED_VERSIONS then .ok (some cache)
      else .error s!"Unsupported local key cache version {cache.version} (supported: {SUPPORTED_VERSIONS}): {path}"

/-- Authenticated decryption fails under another key. -/
def OtherKeysFail (P : CipherCrates) : Prop :=
  ∀ {iv data plaintext : Bytes} {s : Text} {key key' : SymmetricKey}, encryptEncString P iv data key = .ok s →
    decryptEncString P s key' = .ok plaintext → key' = key

/-- Different PINs derive different keys. -/
def PinsSeparate (E : Crates) : Prop :=
  ∀ {pin pin' : String} {salt material : Bytes}, E.argon2id pin salt = .ok material →
    E.argon2id pin' salt = .ok material → pin' = pin

theorem derivePinKeyWithSalt_inj (hE : PinsSeparate E) {pin' : String} {salt : Bytes}
    (h : derivePinKeyWithSalt E pin salt = .ok key) (h' : derivePinKeyWithSalt E pin' salt = .ok key) :
    pin' = pin := by
  obtain ⟨material, hm, h⟩ := except_bind_ok h
  obtain ⟨material', hm', h'⟩ := except_bind_ok h'
  obtain rfl := Except.ok.inj h
  obtain ⟨htake, hdrop⟩ := SymmetricKey.mk.inj (Except.ok.inj h')
  have heq : material' = material := by
    rw [← List.take_append_drop 32 material', htake, hdrop, List.take_append_drop]
  rw [heq] at hm'
  exact hE hm hm'

/-- A slot opens with no other PIN than its own. -/
theorem Wraps.eq_pin (h : Wraps (E.withCipher P) slots pin lck) (hP : CipherLaws P) (hother : OtherKeysFail P)
    (hE : PinsSeparate E) {pin' : String} (hopen : openPinSlot (E.withCipher P) slots pin' = .ok key) :
    pin' = pin := by
  obtain ⟨salt, pinKey, iv, s, -, hslot, hkey, hsalt, hs⟩ := h.exists_key hP
  obtain ⟨slot', pinKey', encoded, hslot', hkey', hdec, -⟩ := openPinSlot_ok.1 hopen
  obtain rfl := Option.some.inj (hslot.symm.trans hslot')
  rw [String.toList_ofList] at hdec
  rw [pinSlotKey, hsalt] at hkey'
  obtain rfl := hother hs hdec
  exact derivePinKeyWithSalt_inj hE hkey hkey'

/-- What the migration returns: the cache with a fresh PIN slot around the same key. -/
theorem migrated_of_runs (h : Runs (migratePinSaltToV3 E cache lck pin) tr (.ok cache')) :
    Wraps E cache'.localCacheKey pin lck ∧
      cache' = { cache with
        version := 3
        localCacheKey := { cache.localCacheKey with
          pinEncrypted := cache'.localCacheKey.pinEncrypted, pinSalt := cache'.localCacheKey.pinSalt } } := by
  obtain ⟨_, _, r, -, hwrap, h⟩ := runs_bind.1 h
  cases r with
  | error e => exact nomatch (runs_ret.1 h).2
  | ok slot =>
    obtain ⟨saved, _, -, h⟩ := runs_perform_bind.1 h
    cases saved with
    | error e => exact nomatch (runs_ret.1 h).2
    | ok u =>
      obtain rfl := Except.ok.inj (runs_ret.1 h).2
      exact ⟨wraps_of_runs _ hwrap, rfl⟩

theorem not_needsPinSaltMigration (hversion : cache.version = 3) (h : Wraps E cache.localCacheKey pin lck) :
    needsPinSaltMigration cache = false := by
  obtain ⟨enc, salt, iv, -, hsalt, -⟩ := h
  simp [needsPinSaltMigration, hversion, hsalt]

/-- The migration keeps what the PIN opens, leaves the rest of the cache alone, is not due again, and lets
no other PIN in. -/
theorem migration_preserves {J : CacheJson} {keysJson : String} (hP : CipherLaws P) (hother : OtherKeysFail P)
    (hE : PinsSeparate E) (hJ : ∀ c, J.fromStr (J.toStringPretty c) = .ok c)
    (hopen : decryptEnvelopeLocalKeyCacheWithPin (E.withCipher P) cache pin = .ok (keysJson, lck))
    (hrun : Runs (migratePinSaltToV3 (E.withCipher P) cache lck pin) tr (.ok cache')) :
    decryptEnvelopeLocalKeyCacheWithPin (E.withCipher P) cache' pin = .ok (keysJson, lck) ∧
      (cache'.header = cache.header ∧ cache'.encryptedPayload = cache.encryptedPayload ∧
        cache'.localCacheKey.helloChallenge = cache.localCacheKey.helloChallenge ∧
        cache'.localCacheKey.helloEncrypted = cache.localCacheKey.helloEncrypted ∧
        cache'.localCacheKey.nativeEncrypted = cache.localCacheKey.nativeEncrypted) ∧
      needsPinSaltMigration cache' = false ∧
      (∀ path, ∃ loaded, LocalKeyCacheFile.load J path (some (.ok (J.toStringPretty cache'))) = .ok (some loaded) ∧
        needsPinSaltMigration loaded = false) ∧
      ∀ pin', pin' ≠ pin → (∃ e, decryptEnvelopeLocalKeyCacheWithPin (E.withCipher P) cache pin' = .error e) →
        ∃ e, decryptEnvelopeLocalKeyCacheWithPin (E.withCipher P) cache' pin' = .error e := by
  obtain ⟨hwraps, hsame⟩ := migrated_of_runs hrun
  have hversion : cache'.version = 3 := by rw [hsame]
  have hpayload : cache'.encryptedPayload = cache.encryptedPayload := by rw [hsame]
  have hneeds' := not_needsPinSaltMigration hversion hwraps
  obtain ⟨slot, pinKey, encoded, -, -, -, hdecode, hdec⟩ := decryptEnvelopeLocalKeyCacheWithPin_ok.1 hopen
  obtain ⟨henc, hmac⟩ := length_of_decodeSymmetricKey hdecode
  refine ⟨?_, ⟨by rw [hsame], hpayload, by rw [hsame], by rw [hsame], by rw [hsame]⟩, hneeds', ?_, ?_⟩
  · rw [decryptEnvelopeLocalKeyCacheWithPin, hwraps.opens hP henc hmac, except_ok_bind]
    exact decryptEnvelopePayload_ok.2 ⟨rfl, hpayload ▸ hdec⟩
  · intro path
    refine ⟨cache', ?_, hneeds'⟩
    have hsupported : cache'.version ∈ LocalKeyCacheFile.SUPPORTED_VERSIONS := by rw [hversion]; decide
    simp only [LocalKeyCacheFile.load, hJ, if_pos hsupported]
  · intro pin' hne _
    cases hopen' : decryptEnvelopeLocalKeyCacheWithPin (E.withCipher P) cache' pin' with
    | error e => exact ⟨e, rfl⟩
    | ok r =>
      obtain ⟨lck', hslot, -⟩ := except_bind_ok hopen'
      exact absurd (hwraps.eq_pin hP hother hE hslot) hne

theorem prefix_of_decryptPadded_plain {iv data plaintext : Bytes}
    (h : decryptPadded .plain key iv data = .ok plaintext) : key.encKey.length = 32 ∧ key.encKey <+: data := by
  unfold decryptPadded at h
  split at h
  · next hnew =>
    refine ⟨(newFromSlices_eq_true.1 hnew).1, ?_⟩
    split at h
    · cases h
    · next hdec => exact List.isPrefixOf_iff_prefix.1 (Option.ite_none_right_eq_some.1 hdec).1
  · cases h

theorem otherKeysFail_plain : OtherKeysFail .plain := by
  intro iv data plaintext s key key' h h'
  obtain ⟨⟨iv₁, ct₁, hspells, hdec⟩, -⟩ := seals_of_encrypt cipherLaws_plain h
  rcases decryptEncString_ok.1 h' with ⟨iv₂, ct₂, hspells', hdec'⟩ | ⟨iv₂, ct₂, hspells', -⟩
  · obtain ⟨-, hparts⟩ := hspells.unique hspells'
    obtain ⟨rfl, hparts⟩ := List.cons.inj hparts
    obtain ⟨rfl, hparts⟩ := List.cons.inj hparts
    have hmac : key.macKey = key'.macKey := List.append_cancel_right (List.cons.inj hparts).1
    obtain ⟨hlen, hpre⟩ := prefix_of_decryptPadded_plain hdec
    obtain ⟨hlen', hpre'⟩ := prefix_of_decryptPadded_plain hdec'
    have henc : key'.encKey = key.encKey :=
      (List.prefix_of_prefix_length_le hpre' hpre (by omega)).eq_of_length (by omega)
    obtain ⟨e, m⟩ := key
    obtain ⟨e', m'⟩ := key'
    exact congrArg₂ SymmetricKey.mk henc hmac.symm
  · exact nomatch (hspells.unique hspells').1

theorem dropWhile_zeros (n : Nat) (rest : Bytes) :
    (List.replicate n 0 ++ 1 :: rest).dropWhile (fun b => b = 0) = 1 :: rest := by
  induction n with
  | zero => rfl
  | succ n ih => simp [List.replicate_succ, ih]

theorem pinsSeparate_keyed : PinsSeparate .keyed := by
  intro pin pin' salt material h h'
  have heq := congrArg (List.dropWhile fun b => b = 0) ((Except.ok.inj h').trans (Except.ok.inj h).symm)
  rw [dropWhile_zeros, dropWhile_zeros] at heq
  have hpin : utf8 pin' = utf8 pin := List.append_cancel_right (List.cons.inj heq).2
  simpa using congrArg fromUtf8 hpin

namespace Plain

/-- A text that tells an absent one from an empty one. -/
def optionText : Option String → String
  | none => ""
  | some s => String.ofList ('+' :: s.toList)

def textOption (s : String) : Option String :=
  match s.toList with
  | [] => none
  | _ :: cs => some (String.ofList cs)

theorem textOption_optionText (o : Option String) : textOption (optionText o) = o := by
  cases o <;> simp [textOption, optionText]

def identityTuple (k : KeyIdentity) : KeyTuple := ⟨k.publicKeyOpenssh, k.name, k.vaultItemId⟩

/-- The fields of a cache as the key, the name and the id of tuples, the keys of the header last. -/
def cacheTuples (c : LocalKeyCacheFile) : List KeyTuple :=
  ⟨String.ofList (List.replicate c.version '|'), c.header.email, c.header.serverUrl⟩ ::
    ⟨c.encryptedPayload, optionText c.localCacheKey.pinEncrypted, optionText c.localCacheKey.pinSalt⟩ ::
    ⟨optionText c.localCacheKey.helloChallenge, optionText c.localCacheKey.helloEncrypted,
      optionText c.localCacheKey.nativeEncrypted⟩ :: c.header.keys.map identityTuple

def tuplesCache : List KeyTuple → Except String LocalKeyCacheFile
  | ⟨version, email, serverUrl⟩ :: ⟨payload, pin, salt⟩ :: ⟨challenge, hello, native⟩ :: keys =>
    .ok {
      version := version.toList.length
      header := ⟨email, serverUrl, keys.map fun k => ⟨k.name, k.cipherId, k.key⟩⟩
      encryptedPayload := payload
      localCacheKey := ⟨textOption pin, textOption salt, textOption challenge, textOption hello,
        textOption native⟩ }
  | _ => .error "not a cache"

theorem tuplesCache_cacheTuples (c : LocalKeyCacheFile) : tuplesCache (cacheTuples c) = .ok c := by
  simp [tuplesCache, cacheTuples, textOption_optionText, identityTuple, Function.comp_def]

end Plain

def CacheJson.plain : CacheJson where
  toStringPretty c := Plain.keysToJson (Plain.cacheTuples c)
  fromStr text := Plain.keysFromJson text >>= Plain.tuplesCache

theorem fromStr_toStringPretty_plain (c : LocalKeyCacheFile) :
    CacheJson.plain.fromStr (CacheJson.plain.toStringPretty c) = .ok c := by
  show Plain.keysFromJson (Plain.keysToJson _) >>= _ = _
  rw [Plain.keysFromJson_keysToJson, except_ok_bind, Plain.tuplesCache_cacheTuples]

/-- A cache from before the random salts: its slot was made with the legacy salt. -/
def legacyCache : Option LocalKeyCacheFile := do
  let pinEncrypted ← (pinEncrypt (Crates.keyed.withCipher .plain) (List.replicate 16 1)
    (encodeSymmetricKey (Crates.keyed.withCipher .plain) bareKey) "1234").toOption
  let payload ← (encryptEncString .plain (List.replicate 16 2) (utf8 "[]") bareKey).toOption
  return {
    version := 2
    header := ⟨"me", "vault", []⟩
    encryptedPayload := String.ofList payload
    localCacheKey := { pinEncrypted := some pinEncrypted } }

def migratedCache (cache : LocalKeyCacheFile) : Except String LocalKeyCacheFile :=
  (migratePinSaltToV3 (Crates.keyed.withCipher .plain) cache bareKey "1234").value sizedAnswer

/-- The PIN opens the cache, the migration is due and succeeds. -/
def migrates (cache : LocalKeyCacheFile) : Bool :=
  needsPinSaltMigration cache && (migratedCache cache).toOption.isSome &&
    (decryptEnvelopeLocalKeyCacheWithPin (Crates.keyed.withCipher .plain) cache "1234").toOption =
      some ("[]", bareKey)

/-- A slot made with the legacy salt opens with its PIN. -/
theorem opens_of_legacy (hP : CipherLaws P) (henc : lck.encKey.length = 32) (hmac : lck.macKey.length = 32)
    {iv : Bytes} {enc : String}
    (h : pinEncrypt (E.withCipher P) iv (encodeSymmetricKey (E.withCipher P) lck) pin = .ok enc) :
    openPinSlot (E.withCipher P) { pinEncrypted := some enc } pin = .ok lck := by
  obtain ⟨pinKey, hkey, h⟩ := except_bind_ok h
  obtain ⟨s, hs, rfl⟩ := except_map_ok h
  refine openPinSlot_ok.2 ⟨_, pinKey, _, rfl, hkey, ?_, decode_encode_symmetricKey hP henc hmac⟩
  rw [String.toList_ofList]
  exact decrypt_of_encrypt hP hs

theorem legacyCache_ready : legacyCache.any (fun cache =>
    needsPinSaltMigration cache && (migratedCache cache).toOption.isSome) = true := by decide

theorem legacyCache_migrates : legacyCache.any migrates = true := by
  obtain ⟨cache, hcache, hready⟩ := (Option.any_eq_true _ _).1 legacyCache_ready
  have hparts := hcache
  unfold legacyCache at hparts
  obtain ⟨enc, hpin, hrest⟩ := Option.bind_eq_some_iff.1 hparts
  obtain ⟨payload, hpayload, heq⟩ := Option.bind_eq_some_iff.1 hrest
  have hopen : decryptEnvelopeLocalKeyCacheWithPin (Crates.keyed.withCipher .plain) cache "1234" =
      .ok ("[]", bareKey) := by
    obtain rfl := Option.some.inj heq
    have hslot := opens_of_legacy cipherLaws_plain rfl rfl (except_eq_ok_of_toOption hpin)
    rw [decryptEnvelopeLocalKeyCacheWithPin, hslot, except_ok_bind]
    refine decryptEnvelopePayload_ok.2 ⟨rfl, ?_⟩
    rw [String.toList_ofList]
    exact decrypt_of_encrypt cipherLaws_plain (except_eq_ok_of_toOption hpayload)
  rw [hcache, Option.any_some, migrates, hready, hopen]
  rfl

theorem migration_preserves_legacy : ∃ cache cache', legacyCache = some cache ∧ migratedCache cache = .ok cache' ∧
    needsPinSaltMigration cache = true ∧ needsPinSaltMigration cache' = false ∧
    decryptEnvelopeLocalKeyCacheWithPin (Crates.keyed.withCipher .plain) cache' "1234" = .ok ("[]", bareKey) := by
  obtain ⟨cache, hcache, hmigrates⟩ := (Option.any_eq_true _ _).1 legacyCache_migrates
  obtain ⟨hrest, hopen⟩ := Bool.and_eq_true_iff.1 hmigrates
  obtain ⟨hneeds, hmigrated⟩ := Bool.and_eq_true_iff.1 hrest
  obtain ⟨cache', hmigrated⟩ := Option.isSome_iff_exists.1 hmigrated
  have hok := except_eq_ok_of_toOption hmigrated
  have hruns : ∃ tr, Runs (migratePinSaltToV3 (Crates.keyed.withCipher .plain) cache bareKey "1234") tr
      (migratedCache cache) :=
    exists_runs_value (S := daemonSig) sizedAnswer _
  rw [hok] at hruns
  obtain ⟨tr, hrun⟩ := hruns
  obtain ⟨hopen', -, hneeds', -⟩ := migration_preserves (J := .plain) cipherLaws_plain otherKeysFail_plain
    pinsSeparate_keyed fromStr_toStringPretty_plain (except_eq_ok_of_toOption (of_decide_eq_true hopen)) hrun
  exact ⟨cache, cache', hcache, hok, hneeds, hneeds', hopen'⟩

end SshWarden
