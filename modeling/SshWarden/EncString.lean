import SshWarden.Cache
import SshWarden.Plain
import SshWarden.Lib.Text

/-!
# EncStrings

`crates/sshwarden-api/src/crypto.rs` as far as strings go: `encrypt_enc_string` writes type 2, the IV, the
ciphertext and a MAC over both; `decrypt_enc_string` reads type 2 and type 0, which has no MAC. The type is
whatever stands before the first dot of the string. AES, HMAC and base64 are parameters.
-/

namespace SshWarden

/-- The crates under the EncString functions. `aesCbcEncrypt` and `aesCbcDecrypt` take a key of 32 and an IV
of 16 bytes and pad with PKCS7. -/
structure CipherCrates where
  base64Encode : Bytes → Text
  base64Decode : Text → Option Bytes
  aesCbcEncrypt : Bytes → Bytes → Bytes → Bytes
  aesCbcDecrypt : Bytes → Bytes → Bytes → Option Bytes
  hmacSha256 : Bytes → Bytes → Bytes

/-- `str::split_once`. -/
def splitOnce (sep : Char) : Text → Option (Text × Text)
  | [] => none
  | c :: cs => if c = sep then some ([], cs) else (splitOnce sep cs).map fun cut => (c :: cut.1, cut.2)

/-- `str::parse::<u8>`: digits, with a plus sign or without. -/
def parseU8 (s : Text) : Option Nat :=
  let digits := (Text.stripPrefix? ['+'] s).getD s
  if digits = [] ∨ digits.any (fun c => !c.isDigit) then none
  else
    let value := digits.foldl (fun n c => 10 * n + (c.toNat - 48)) 0
    if value < 256 then some value else none

def decodePart (P : CipherCrates) (error : String) (part : Text) : Except String Bytes :=
  match P.base64Decode part with
  | none => .error error
  | some bytes => .ok bytes

/-- `new_from_slices` takes a key of 32 and an IV of 16 bytes. -/
def newFromSlices (key : SymmetricKey) (iv : Bytes) : Bool := key.encKey.length = 32 ∧ iv.length = 16

def decryptPadded (P : CipherCrates) (key : SymmetricKey) (iv data : Bytes) : Except String Bytes :=
  if newFromSlices key iv then
    match P.aesCbcDecrypt key.encKey iv data with
    | none => .error "AES-CBC decryption failed: Unpad Error"
    | some plaintext => .ok plaintext
  else .error "AES-CBC init failed: Invalid Length"

def decryptType0 (P : CipherCrates) (payload : Text) (key : SymmetricKey) : Except String Bytes :=
  match payload.splitOn '|' with
  | [ivPart, dataPart] => do
    let iv ← decodePart P "Failed to decode IV" ivPart
    let data ← decodePart P "Failed to decode ciphertext" dataPart
    decryptPadded P key iv data
  | parts => .error s!"Invalid EncString type 0: expected 2 parts (iv|data), got {parts.length}"

def decryptType2 (P : CipherCrates) (payload : Text) (key : SymmetricKey) : Except String Bytes :=
  match payload.splitOn '|' with
  | [ivPart, dataPart, macPart] => do
    let iv ← decodePart P "Failed to decode IV" ivPart
    let data ← decodePart P "Failed to decode ciphertext" dataPart
    let mac ← decodePart P "Failed to decode MAC" macPart
    if P.hmacSha256 key.macKey (iv ++ data) = mac then decryptPadded P key iv data
    else .error "HMAC verification failed - wrong key or corrupted data"
  | parts => .error s!"Invalid EncString type 2: expected 3 parts (iv|data|mac), got {parts.length}"

def decryptEncString (P : CipherCrates) (encString : Text) (key : SymmetricKey) : Except String Bytes :=
  match splitOnce '.' encString with
  | none => .error "Invalid EncString: no type separator"
  | some (encType, payload) =>
    match parseU8 encType with
    | none => .error s!"Invalid EncString type: {String.ofList encType}"
    | some 0 => decryptType0 P payload key
    | some 2 => decryptType2 P payload key
    | some n => .error s!"Unsupported EncString type: {n}"

def encryptEncString (P : CipherCrates) (iv data : Bytes) (key : SymmetricKey) : Except String Text :=
  if newFromSlices key iv then
    let ciphertext := P.aesCbcEncrypt key.encKey iv data
    let mac := P.hmacSha256 key.macKey (iv ++ ciphertext)
    .ok ("2.".toList ++ P.base64Encode iv ++ '|' :: (P.base64Encode ciphertext ++ '|' :: P.base64Encode mac))
  else .error "AES-CBC encrypt init failed: Invalid Length"

/-- The crates with the functions of `crypto.rs` over their own base64, AES and HMAC. -/
def Crates.withCipher (E : Crates) (P : CipherCrates) : Crates :=
  { E with
    encryptEncString := fun iv data key => String.ofList <$> SshWarden.encryptEncString P iv data key
    decryptEncString := fun encString key => SshWarden.decryptEncString P encString.toList key
    base64Encode := fun bytes => String.ofList (P.base64Encode bytes)
    base64Decode := fun encoded => P.base64Decode encoded.toList }

variable {E : Crates} {P : CipherCrates} {key : SymmetricKey} {s : Text} {plaintext : Bytes}

/-- The string is a type, a dot and the bytes in base64 with bars between them. -/
def Spells (P : CipherCrates) (s : Text) (encType : Nat) (bytes : List Bytes) : Prop :=
  ∃ typePart payload, splitOnce '.' s = some (typePart, payload) ∧ parseU8 typePart = some encType ∧
    (payload.splitOn '|').mapM P.base64Decode = some bytes

/-- The string carries a MAC that verifies over its IV and ciphertext. -/
def Authenticated (P : CipherCrates) (s : Text) (key : SymmetricKey) : Prop :=
  ∃ encType iv data, Spells P s encType [iv, data, P.hmacSha256 key.macKey (iv ++ data)]

/-- An authenticated EncString of this plaintext. -/
def Seals (P : CipherCrates) (s : Text) (key : SymmetricKey) (plaintext : Bytes) : Prop :=
  ∃ iv data, Spells P s 2 [iv, data, P.hmacSha256 key.macKey (iv ++ data)] ∧
    decryptPadded P key iv data = .ok plaintext

/-- A type 0 EncString of this plaintext. -/
def Bares (P : CipherCrates) (s : Text) (key : SymmetricKey) (plaintext : Bytes) : Prop :=
  ∃ iv data, Spells P s 0 [iv, data] ∧ decryptPadded P key iv data = .ok plaintext

theorem Spells.unique {t t' : Nat} {bs bs' : List Bytes} (h : Spells P s t bs) (h' : Spells P s t' bs') :
    t = t' ∧ bs = bs' := by
  obtain ⟨typePart, payload, hsplit, htype, hparts⟩ := h
  obtain ⟨typePart', payload', hsplit', htype', hparts'⟩ := h'
  obtain ⟨rfl, rfl⟩ := Prod.mk.inj (Option.some.inj (hsplit.symm.trans hsplit'))
  exact ⟨Option.some.inj (htype.symm.trans htype'), Option.some.inj (hparts.symm.trans hparts')⟩

theorem Seals.authenticated (h : Seals P s key plaintext) : Authenticated P s key := by
  obtain ⟨iv, data, hparts, -⟩ := h
  exact ⟨2, iv, data, hparts⟩

/-- A string of two parts has no MAC. -/
theorem Bares.not_authenticated (h : Bares P s key plaintext) : ¬Authenticated P s key := by
  obtain ⟨iv, data, hspells, -⟩ := h
  rintro ⟨_, _, _, hmac⟩
  have hlen := congrArg List.length (hspells.unique hmac).2
  simp at hlen

theorem mapM_eq_some_cons {α β : Type} {f : α → Option β} {xs : List α} {b : β} {bs : List β} :
    xs.mapM f = some (b :: bs) ↔ ∃ a as, xs = a :: as ∧ f a = some b ∧ as.mapM f = some bs := by
  cases xs with
  | nil => simp
  | cons x xs => simp [List.mapM_cons, Option.bind_eq_some_iff, and_assoc]

theorem mapM_eq_some_nil {α β : Type} {f : α → Option β} {xs : List α} : xs.mapM f = some [] ↔ xs = [] := by
  cases xs with
  | nil => simp
  | cons x xs => simp [List.mapM_cons, Option.bind_eq_some_iff]

theorem decodePart_ok {error : String} {part : Text} {bytes : Bytes} :
    decodePart P error part = .ok bytes ↔ P.base64Decode part = some bytes := by
  unfold decodePart
  cases P.base64Decode part <;> simp

theorem decryptType0_ok {payload : Text} :
    decryptType0 P payload key = .ok plaintext ↔
      ∃ iv data, (payload.splitOn '|').mapM P.base64Decode = some [iv, data] ∧
        decryptPadded P key iv data = .ok plaintext := by
  simp only [mapM_eq_some_cons, mapM_eq_some_nil]
  unfold decryptType0
  split
  · next ivPart dataPart hparts =>
    rw [hparts]
    constructor
    · intro h
      obtain ⟨iv, hiv, h⟩ := except_bind_ok h
      obtain ⟨data, hdata, h⟩ := except_bind_ok h
      exact ⟨iv, data, ⟨_, _, rfl, decodePart_ok.1 hiv, _, _, rfl, decodePart_ok.1 hdata, rfl⟩, h⟩
    · rintro ⟨iv, data, ⟨_, _, ⟨⟩, hiv, _, _, ⟨⟩, hdata, -⟩, h⟩
      rw [decodePart_ok.2 hiv, decodePart_ok.2 hdata]
      exact h
  · next hparts =>
    refine iff_of_false (fun h => nomatch h) ?_
    rintro ⟨iv, data, ⟨_, _, heq, -, _, _, rfl, -, rfl⟩, -⟩
    exact hparts _ _ heq

theorem decryptType2_ok {payload : Text} :
    decryptType2 P payload key = .ok plaintext ↔
      ∃ iv data, (payload.splitOn '|').mapM P.base64Decode
          = some [iv, data, P.hmacSha256 key.macKey (iv ++ data)] ∧
        decryptPadded P key iv data = .ok plaintext := by
  simp only [mapM_eq_some_cons, mapM_eq_some_nil]
  unfold decryptType2
  split
  · next ivPart dataPart macPart hparts =>
    rw [hparts]
    constructor
    · intro h
      obtain ⟨iv, hiv, h⟩ := except_bind_ok h
      obtain ⟨data, hdata, h⟩ := except_bind_ok h
      obtain ⟨mac, hmac, h⟩ := except_bind_ok h
      split at h
      · next hverify =>
        subst hverify
        exact ⟨iv, data, ⟨_, _, rfl, decodePart_ok.1 hiv, _, _, rfl, decodePart_ok.1 hdata, _, _, rfl,
          decodePart_ok.1 hmac, rfl⟩, h⟩
      · cases h
    · rintro ⟨iv, data, ⟨_, _, ⟨⟩, hiv, _, _, ⟨⟩, hdata, _, _, ⟨⟩, hmac, -⟩, h⟩
      rw [decodePart_ok.2 hiv, decodePart_ok.2 hdata, decodePart_ok.2 hmac]
      simpa using h
  · next hparts =>
    refine iff_of_false (fun h => nomatch h) ?_
    rintro ⟨iv, data, ⟨_, _, heq, -, _, _, rfl, -, _, _, rfl, -, rfl⟩, -⟩
    exact hparts _ _ _ heq

/-- A string decrypts as an authenticated EncString or as one of type 0. -/
theorem decryptEncString_ok :
    decryptEncString P s key = .ok plaintext ↔ Seals P s key plaintext ∨ Bares P s key plaintext := by
  unfold decryptEncString Seals Bares Spells
  cases hsplit : splitOnce '.' s with
  | none => simp
  | some cut =>
    obtain ⟨typePart, payload⟩ := cut
    cases htype : parseU8 typePart with
    | none => simp [htype]
    | some n =>
      by_cases h0 : n = 0
      · subst h0
        simp [htype, decryptType0_ok]
      · by_cases h2 : n = 2
        · subst h2
          simp [htype, decryptType2_ok]
        · simp [htype, h0, h2]

/-! ### The strings of a cache -/

/-- The key a PIN opens the PIN slot with. -/
def pinSlotKey (E : Crates) (slots : LocalCacheKeySlots) (pin : String) : Except String SymmetricKey := do
  let salt ← pinSlotSalt E slots
  derivePinKeyWithSalt E pin salt

variable {cache : LocalKeyCacheFile} {slots : LocalCacheKeySlots} {pin keysJson : String} {lck : SymmetricKey}

theorem decryptEnvelopePayload_ok {lck' : SymmetricKey} :
    decryptEnvelopePayload (E.withCipher P) cache lck = .ok (keysJson, lck') ↔
      lck' = lck ∧ decryptEncString P cache.encryptedPayload.toList lck = .ok (utf8 keysJson) := by
  unfold decryptEnvelopePayload
  constructor
  · intro h
    split at h
    · cases h
    · next payload hpayload =>
      split at h
      · cases h
      · next text htext =>
        obtain ⟨rfl, rfl⟩ := Prod.mk.inj (Except.ok.inj h)
        rw [← fromUtf8_eq_some.1 htext]
        exact ⟨rfl, hpayload⟩
  · rintro ⟨rfl, hpayload⟩
    have hdec : (E.withCipher P).decryptEncString cache.encryptedPayload lck' = .ok (utf8 keysJson) := hpayload
    simp only [hdec, fromUtf8_utf8]

theorem pinDecryptWithSalt_ok {slot encoded : String} {salt : Bytes} :
    pinDecryptWithSalt (E.withCipher P) slot pin salt = .ok encoded ↔
      ∃ pinKey, derivePinKeyWithSalt E pin salt = .ok pinKey ∧
        decryptEncString P slot.toList pinKey = .ok (utf8 encoded) := by
  unfold pinDecryptWithSalt
  constructor
  · intro h
    obtain ⟨pinKey, hkey, h⟩ := except_bind_ok h
    obtain ⟨bytes, hbytes, h⟩ := except_bind_ok h
    refine ⟨pinKey, hkey, hbytes.trans ?_⟩
    split at h
    · next text htext =>
      obtain rfl := Except.ok.inj h
      rw [fromUtf8_eq_some.1 htext]
    · cases h
  · rintro ⟨pinKey, hkey, hbytes⟩
    show (derivePinKeyWithSalt E pin salt >>= fun key => decryptEncString P slot.toList key >>= _) = _
    rw [hkey, except_ok_bind, hbytes, except_ok_bind, fromUtf8_utf8]
    rfl

theorem openPinSlot_ok :
    openPinSlot (E.withCipher P) slots pin = .ok lck ↔
      ∃ slot pinKey encoded, slots.pinEncrypted = some slot ∧ pinSlotKey (E.withCipher P) slots pin = .ok pinKey ∧
        decryptEncString P slot.toList pinKey = .ok (utf8 encoded) ∧
        decodeSymmetricKey (E.withCipher P) encoded = .ok lck := by
  unfold openPinSlot pinSlotKey
  constructor
  · intro h
    split at h
    · cases h
    · next slot hslot =>
      split at h
      · cases h
      · next salt hsalt =>
        split at h
        · cases h
        · next encoded hopen =>
          split at h
          · cases h
          · next lck' hdecode =>
            obtain ⟨pinKey, hkey, hbytes⟩ := pinDecryptWithSalt_ok.1 hopen
            refine ⟨slot, pinKey, encoded, hslot, ?_, hbytes, hdecode.trans h⟩
            rw [hsalt]
            exact hkey
  · rintro ⟨slot, pinKey, encoded, hslot, hkey, hbytes, hdecode⟩
    obtain ⟨salt, hsalt, hkey⟩ := except_bind_ok hkey
    have hopen := (pinDecryptWithSalt_ok (E := E)).2 ⟨pinKey, hkey, hbytes⟩
    simp only [hslot, hsalt, hopen, hdecode]

/-- The payload is only accepted with a MAC that verifies. -/
def PayloadGuarded (E : Crates) (P : CipherCrates) (cache : LocalKeyCacheFile) (lck : SymmetricKey) : Prop :=
  ∀ keysJson lck', decryptEnvelopePayload (E.withCipher P) cache lck = .ok (keysJson, lck') →
    Authenticated P cache.encryptedPayload.toList lck

/-- A PIN only opens the cache when the MACs of the PIN slot and of the payload verify. -/
def CacheGuarded (E : Crates) (P : CipherCrates) (cache : LocalKeyCacheFile) (pin : String) : Prop :=
  ∀ keysJson lck, decryptEnvelopeLocalKeyCacheWithPin (E.withCipher P) cache pin = .ok (keysJson, lck) →
    (∃ slot pinKey, cache.localCacheKey.pinEncrypted = some slot ∧
      pinSlotKey (E.withCipher P) cache.localCacheKey pin = .ok pinKey ∧ Authenticated P slot.toList pinKey) ∧
    Authenticated P cache.encryptedPayload.toList lck

/-- The PIN slot and the payload are EncStrings that belong together under the PIN, and one of them is of
type 0. -/
def OpensBare (E : Crates) (P : CipherCrates) (cache : LocalKeyCacheFile) (pin : String) : Prop :=
  ∃ slot pinKey encoded lck keysJson, cache.localCacheKey.pinEncrypted = some slot ∧
    pinSlotKey (E.withCipher P) cache.localCacheKey pin = .ok pinKey ∧
    decodeSymmetricKey (E.withCipher P) encoded = .ok lck ∧
    (Bares P slot.toList pinKey (utf8 encoded) ∧
        (Seals P cache.encryptedPayload.toList lck (utf8 keysJson) ∨
          Bares P cache.encryptedPayload.toList lck (utf8 keysJson)) ∨
      Seals P slot.toList pinKey (utf8 encoded) ∧ Bares P cache.encryptedPayload.toList lck (utf8 keysJson))

theorem decryptEnvelopeLocalKeyCacheWithPin_ok :
    decryptEnvelopeLocalKeyCacheWithPin (E.withCipher P) cache pin = .ok (keysJson, lck) ↔
      ∃ slot pinKey encoded, cache.localCacheKey.pinEncrypted = some slot ∧
        pinSlotKey (E.withCipher P) cache.localCacheKey pin = .ok pinKey ∧
        decryptEncString P slot.toList pinKey = .ok (utf8 encoded) ∧
        decodeSymmetricKey (E.withCipher P) encoded = .ok lck ∧
        decryptEncString P cache.encryptedPayload.toList lck = .ok (utf8 keysJson) := by
  unfold decryptEnvelopeLocalKeyCacheWithPin
  constructor
  · intro h
    obtain ⟨lck', hslot, h⟩ := except_bind_ok h
    obtain ⟨rfl, hpayload⟩ := decryptEnvelopePayload_ok.1 h
    obtain ⟨slot, pinKey, encoded, hsome, hkey, hopen, hdecode⟩ := openPinSlot_ok.1 hslot
    exact ⟨slot, pinKey, encoded, hsome, hkey, hopen, hdecode, hpayload⟩
  · rintro ⟨slot, pinKey, encoded, hsome, hkey, hopen, hdecode, hpayload⟩
    rw [openPinSlot_ok.2 ⟨slot, pinKey, encoded, hsome, hkey, hopen, hdecode⟩, except_ok_bind]
    exact decryptEnvelopePayload_ok.2 ⟨rfl, hpayload⟩

theorem payloadGuarded_iff :
    PayloadGuarded E P cache lck ↔ ∀ keysJson, ¬Bares P cache.encryptedPayload.toList lck (utf8 keysJson) := by
  constructor
  · intro h keysJson hbare
    exact hbare.not_authenticated (h keysJson lck
      (decryptEnvelopePayload_ok.2 ⟨rfl, decryptEncString_ok.2 (.inr hbare)⟩))
  · intro h keysJson lck' hopen
    obtain ⟨rfl, hdec⟩ := decryptEnvelopePayload_ok.1 hopen
    rcases decryptEncString_ok.1 hdec with hseal | hbare
    · exact hseal.authenticated
    · exact absurd hbare (h keysJson)

theorem cacheGuarded_iff : CacheGuarded E P cache pin ↔ ¬OpensBare E P cache pin := by
  constructor
  · rintro h ⟨slot, pinKey, encoded, lck, keysJson, hsome, hkey, hdecode, hparts⟩
    have hslot : decryptEncString P slot.toList pinKey = .ok (utf8 encoded) :=
      decryptEncString_ok.2 (hparts.elim (fun hb => .inr hb.1) fun hs => .inl hs.1)
    have hpayload : decryptEncString P cache.encryptedPayload.toList lck = .ok (utf8 keysJson) :=
      decryptEncString_ok.2 (hparts.elim (fun hb => hb.2) fun hs => .inr hs.2)
    obtain ⟨⟨slot', pinKey', hsome', hkey', hauth⟩, hauth'⟩ := h keysJson lck
      (decryptEnvelopeLocalKeyCacheWithPin_ok.2 ⟨slot, pinKey, encoded, hsome, hkey, hslot, hdecode, hpayload⟩)
    obtain rfl := Option.some.inj (hsome.symm.trans hsome')
    obtain rfl := Except.ok.inj (hkey.symm.trans hkey')
    rcases hparts with ⟨hbare, -⟩ | ⟨-, hbare⟩
    · exact hbare.not_authenticated hauth
    · exact hbare.not_authenticated hauth'
  · intro h keysJson lck hopen
    obtain ⟨slot, pinKey, encoded, hsome, hkey, hslot, hdecode, hpayload⟩ :=
      decryptEnvelopeLocalKeyCacheWithPin_ok.1 hopen
    rcases decryptEncString_ok.1 hslot with hseal | hbare
    · rcases decryptEncString_ok.1 hpayload with hseal' | hbare'
      · exact ⟨⟨slot, pinKey, hsome, hkey, hseal.authenticated⟩, hseal'.authenticated⟩
      · exact absurd ⟨slot, pinKey, encoded, lck, keysJson, hsome, hkey, hdecode, .inr ⟨hseal, hbare'⟩⟩ h
    · exact absurd ⟨slot, pinKey, encoded, lck, keysJson, hsome, hkey, hdecode,
        .inl ⟨hbare, decryptEncString_ok.1 hpayload⟩⟩ h

/-- Both functions accept only what is authenticated, up to the type 0 strings that decrypt. -/
theorem authenticated_only_iff (E : Crates) (P : CipherCrates) (cache : LocalKeyCacheFile) :
    (∀ lck, PayloadGuarded E P cache lck ↔
      ∀ keysJson, ¬Bares P cache.encryptedPayload.toList lck (utf8 keysJson)) ∧
      ∀ pin, CacheGuarded E P cache pin ↔ ¬OpensBare E P cache pin :=
  ⟨fun _ => payloadGuarded_iff, fun _ => cacheGuarded_iff⟩

/-! ### What encrypts -/

/-- Two halves of 32 bytes. -/
structure SymmetricKey.Sized (key : SymmetricKey) : Prop where
  enc : key.encKey.length = 32
  mac : key.macKey.length = 32

namespace SymmetricKey.Sized

theorem length (h : key.Sized) : (key.encKey ++ key.macKey).length = 64 := by
  rw [List.length_append, h.enc, h.mac]

theorem take (h : key.Sized) : (key.encKey ++ key.macKey).take 32 = key.encKey := List.take_left' h.enc

theorem drop (h : key.Sized) : (key.encKey ++ key.macKey).drop 32 = key.macKey := List.drop_left' h.enc

end SymmetricKey.Sized

/-- The laws of the crates. The alphabet of base64 has no bar. -/
structure CipherLaws (P : CipherCrates) : Prop where
  base64_decode : ∀ bytes, P.base64Decode (P.base64Encode bytes) = some bytes
  base64_alphabet : ∀ bytes, '|' ∉ P.base64Encode bytes
  aesCbc : ∀ {key iv : Bytes} (data : Bytes), key.length = 32 → iv.length = 16 →
    P.aesCbcDecrypt key iv (P.aesCbcEncrypt key iv data) = some data

theorem newFromSlices_eq_true {iv : Bytes} :
    newFromSlices key iv = true ↔ key.encKey.length = 32 ∧ iv.length = 16 := decide_eq_true_iff

theorem splitOn_three {a b c : Text} (ha : '|' ∉ a) (hb : '|' ∉ b) (hc : '|' ∉ c) :
    (a ++ '|' :: (b ++ '|' :: c)).splitOn '|' = [a, b, c] := by
  rw [List.splitOn_append_cons_self, List.splitOn_append_cons_self, List.splitOn_eq_singleton ha,
    List.splitOn_eq_singleton hb, List.splitOn_eq_singleton hc]
  rfl

theorem splitOnce_type2 (rest : Text) : splitOnce '.' ("2.".toList ++ rest) = some (['2'], rest) := rfl

/-- What `encrypt_enc_string` writes is an authenticated EncString of the data. -/
theorem seals_of_encrypt (hP : CipherLaws P) {iv : Bytes} (h : encryptEncString P iv plaintext key = .ok s) :
    Seals P s key plaintext ∧ key.encKey.length = 32 := by
  unfold encryptEncString at h
  split at h
  · next hnew =>
    obtain rfl := Except.ok.inj h
    obtain ⟨hkey, hiv⟩ := newFromSlices_eq_true.1 hnew
    rw [List.append_assoc]
    refine ⟨⟨iv, P.aesCbcEncrypt key.encKey iv plaintext, ⟨['2'], _, splitOnce_type2 _, rfl, ?_⟩, ?_⟩, hkey⟩
    · rw [splitOn_three (hP.base64_alphabet _) (hP.base64_alphabet _) (hP.base64_alphabet _)]
      simp [hP.base64_decode]
    · rw [decryptPadded, if_pos hnew, hP.aesCbc plaintext hkey hiv]
  · cases h

theorem decrypt_of_encrypt (hP : CipherLaws P) {iv : Bytes} (h : encryptEncString P iv plaintext key = .ok s) :
    decryptEncString P s key = .ok plaintext := decryptEncString_ok.2 (.inl (seals_of_encrypt hP h).1)

namespace Plain

def hexDigit (n : Nat) : Char := Char.ofNat (if n < 10 then 48 + n else 87 + n)

def hexValue (c : Char) : Nat := if c.toNat < 58 then c.toNat - 48 else c.toNat - 87

def hexEncode (b : Bytes) : Text := b.flatMap fun x => [hexDigit (x.toNat / 16), hexDigit (x.toNat % 16)]

def hexDecode : Text → Option Bytes
  | [] => some []
  | [_] => none
  | hi :: lo :: rest => (hexDecode rest).map (UInt8.ofNat (16 * hexValue hi + hexValue lo) :: ·)

theorem hexValue_hexDigit {n : Nat} (h : n < 16) : hexValue (hexDigit n) = n := by
  have hall : ∀ i : Fin 16, hexValue (hexDigit i) = i := by decide
  exact hall ⟨n, h⟩

theorem hexDigit_ne_bar {n : Nat} (h : n < 16) : hexDigit n ≠ '|' := by
  have hall : ∀ i : Fin 16, hexDigit i ≠ '|' := by decide
  exact hall ⟨n, h⟩

theorem hexDecode_hexEncode (b : Bytes) : hexDecode (hexEncode b) = some b := by
  induction b with
  | nil => rfl
  | cons x b ih =>
    have hx := x.toNat_lt
    have hvalue : 16 * (x.toNat / 16) + x.toNat % 16 = x.toNat := Nat.div_add_mod _ _
    show (hexDecode (hexEncode b)).map _ = _
    rw [ih, hexValue_hexDigit (by omega), hexValue_hexDigit (by omega), hvalue]
    simp

theorem bar_notMem_hexEncode (b : Bytes) : '|' ∉ hexEncode b := by
  simp only [hexEncode, List.mem_flatMap, not_exists, not_and]
  intro x _ hmem
  have hx := x.toNat_lt
  rcases List.mem_cons.1 hmem with h | hmem
  · exact hexDigit_ne_bar (by omega) h.symm
  · exact hexDigit_ne_bar (by omega) (List.mem_singleton.1 hmem).symm

end Plain

/-- Cipher crates without cryptographic strength: hexadecimal digits, a ciphertext that shows its key, and
a MAC that shows its key and its message. -/
def CipherCrates.plain : CipherCrates where
  base64Encode := Plain.hexEncode
  base64Decode := Plain.hexDecode
  aesCbcEncrypt key _ data := key ++ data
  aesCbcDecrypt key _ data := if key.isPrefixOf data then some (data.drop key.length) else none
  hmacSha256 key message := key ++ message

theorem cipherLaws_plain : CipherLaws .plain where
  base64_decode := Plain.hexDecode_hexEncode
  base64_alphabet := Plain.bar_notMem_hexEncode
  aesCbc data _ _ := by simp [CipherCrates.plain]

/-- A cache whose payload somebody has replaced by a string of type 0. -/
def bareCache : LocalKeyCacheFile where
  version := 3
  header := ⟨"", "", []⟩
  encryptedPayload := String.ofList ("0.".toList ++ Plain.hexEncode (List.replicate 16 0) ++ '|' ::
    Plain.hexEncode (List.replicate 32 1 ++ utf8 "[]"))
  localCacheKey := {}

def bareKey : SymmetricKey := ⟨List.replicate 32 1, List.replicate 32 2⟩

/-- It opens without a MAC. -/
theorem bareCache_opens :
    decryptEnvelopePayload (Crates.plain.withCipher .plain) bareCache bareKey = .ok ("[]", bareKey) ∧
      ¬∀ E P cache lck, PayloadGuarded E P cache lck := by
  have hopen : decryptEnvelopePayload (Crates.plain.withCipher .plain) bareCache bareKey =
      .ok ("[]", bareKey) := by
    decide
  have hbare : Bares .plain bareCache.encryptedPayload.toList bareKey (utf8 "[]") :=
    ⟨List.replicate 16 0, List.replicate 32 1 ++ utf8 "[]", ⟨['0'], _, rfl, by decide, by decide⟩, by
      decide +kernel⟩
  exact ⟨hopen, fun h => hbare.not_authenticated (h .plain .plain bareCache bareKey _ _ hopen)⟩

end SshWarden
