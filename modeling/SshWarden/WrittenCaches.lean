import SshWarden.CacheEnvelope
import SshWarden.Steady

/-!
# Written caches open

The PIN slot of a cache comes from the copy in memory and the payload is sealed under the key in memory, and
in multi-device mode the copy is read again from a file that other devices replace. `written_caches_open`:
as long as no cache under another key is read while a key is in memory, every cache the daemon writes opens
with the PIN of its slot, to the keys the write was made for.
-/

namespace SshWarden
open Prog

variable {E : Crates} {cfg cfg' : Config} {s s' : Daemon} {α : Type} {c c' : LocalKeyCacheFile}
  {lck lck' key : SymmetricKey} {keys : List KeyTuple} {pin : String} {slots : LocalCacheKeySlots}

/-- An EncString opens under its key and under no other, and base64 reads back. -/
structure EnvelopeLaws (E : Crates) : Prop where
  decrypt_encrypt : ∀ {iv data enc key}, E.encryptEncString iv data key = .ok enc →
    E.decryptEncString enc key = .ok data
  one_key : ∀ {iv data enc key key' data'}, E.encryptEncString iv data key = .ok enc →
    E.decryptEncString enc key' = .ok data' → key' = key
  base64_decode : ∀ bytes, E.base64Decode (E.base64Encode bytes) = some bytes

/-- The PIN slot was made with this PIN around this key; an old one with the legacy salt. -/
def SlotWraps (E : Crates) (slots : LocalCacheKeySlots) (pin : String) (lck : SymmetricKey) : Prop :=
  ∃ enc salt iv, slots.pinEncrypted = some enc ∧ pinSlotSalt E slots = .ok salt ∧
    pinEncryptWithSalt E iv (encodeSymmetricKey E lck) pin salt = .ok enc

/-- The slot and the payload of the cache belong to one Local Cache Key, and header and payload to one list
of keys. -/
structure SealedBy (E : Crates) (c : LocalKeyCacheFile) (lck : SymmetricKey) (keys : List KeyTuple) : Prop where
  sized : lck.Sized
  slot : ∃ pin, SlotWraps E c.localCacheKey pin lck
  payload : ∃ iv, E.encryptEncString iv (utf8 (E.keysToJson keys)) lck = .ok c.encryptedPayload
  identities : c.header.keys = keyIdentitiesFromTuples E keys

/-- The Local Cache Key of the cache, as far as its PIN slot goes. -/
def KeyOf (E : Crates) (c : LocalKeyCacheFile) (lck : SymmetricKey) : Prop :=
  c.localCacheKey.pinEncrypted.isSome = true → ∃ keys, SealedBy E c lck keys

def WellSealed (E : Crates) (c : LocalKeyCacheFile) : Prop := ∃ lck, KeyOf E c lck

theorem EnvelopeLaws.decode_encode (laws : EnvelopeLaws E) (h : lck.Sized) :
    decodeSymmetricKey E (encodeSymmetricKey E lck) = .ok lck := by
  have hlen : ¬(lck.encKey ++ lck.macKey).length ≠ 64 := not_not.2 h.length
  simp only [decodeSymmetricKey, encodeSymmetricKey, laws.base64_decode, if_neg hlen, h.take, h.drop]

theorem SlotWraps.isSome (h : SlotWraps E slots pin lck) : slots.pinEncrypted.isSome = true := by
  obtain ⟨enc, _, _, henc, -⟩ := h
  rw [henc]
  rfl

/-- Every PIN the slot can have been made with opens it, to the same key. -/
theorem SlotWraps.opens (laws : EnvelopeLaws E) {pin' : String} (h : SlotWraps E slots pin lck) (hs : lck.Sized)
    (h' : SlotWraps E slots pin' lck') : openPinSlot E slots pin' = .ok lck := by
  obtain ⟨enc, salt, iv, hslot, hsalt, hwrap⟩ := h
  obtain ⟨enc', salt', iv', hslot', hsalt', hwrap'⟩ := h'
  obtain rfl := Option.some.inj (hslot.symm.trans hslot')
  obtain rfl := Except.ok.inj (hsalt.symm.trans hsalt')
  obtain ⟨pinKey, -, henc⟩ := except_bind_ok hwrap
  obtain ⟨pinKey', hderive', henc'⟩ := except_bind_ok hwrap'
  obtain rfl := laws.one_key henc (laws.decrypt_encrypt henc')
  have hopen : pinDecryptWithSalt E enc pin' salt = .ok (encodeSymmetricKey E lck) := by
    rw [pinDecryptWithSalt, hderive', except_ok_bind, laws.decrypt_encrypt henc, except_ok_bind, fromUtf8_utf8]
    rfl
  simp only [openPinSlot, hslot, hsalt, hopen, laws.decode_encode hs]

namespace SealedBy

theorem openPayload (laws : EnvelopeLaws E) (h : SealedBy E c lck keys) :
    decryptEnvelopePayload E c lck = .ok (E.keysToJson keys, lck) := by
  obtain ⟨iv, hpayload⟩ := h.payload
  simp only [decryptEnvelopePayload, laws.decrypt_encrypt hpayload, fromUtf8_utf8]

/-- Only the Local Cache Key opens the payload. -/
theorem key_eq (laws : EnvelopeLaws E) (h : SealedBy E c lck keys) {opened : String × SymmetricKey}
    (hopen : decryptEnvelopePayload E c key = .ok opened) : key = lck := by
  obtain ⟨iv, hpayload⟩ := h.payload
  unfold decryptEnvelopePayload at hopen
  split at hopen
  · cases hopen
  · next hdec => exact laws.one_key hpayload hdec

theorem opens (laws : EnvelopeLaws E) (h : SealedBy E c lck keys) (hw : SlotWraps E c.localCacheKey pin lck') :
    decryptEnvelopeLocalKeyCacheWithPin E c pin = .ok (E.keysToJson keys, lck) := by
  obtain ⟨pin₀, hslot⟩ := h.slot
  rw [decryptEnvelopeLocalKeyCacheWithPin, hslot.opens laws h.sized hw, except_ok_bind, h.openPayload laws]

end SealedBy

/-- The key that opens a consistent cache is its Local Cache Key. -/
theorem WellSealed.keyOf (laws : EnvelopeLaws E) (h : WellSealed E c) {opened : String × SymmetricKey}
    (hopen : decryptEnvelopePayload E c key = .ok opened) : KeyOf E c opened.2 := by
  obtain ⟨lck, hlck⟩ := h
  intro hpin
  obtain ⟨keys, hsealed⟩ := hlck hpin
  obtain rfl := hsealed.key_eq laws hopen
  rw [decryptEnvelopePayload_key hopen]
  exact ⟨keys, hsealed⟩

theorem WellSealed.of_keyOf (h : KeyOf E c lck) : WellSealed E c := ⟨lck, h⟩

/-- The operations of a daemon whose cache file other devices may replace, in multi-device mode, by a
consistent one of theirs. While a key is in memory only caches of that key are read. -/
def sharedReady (E : Crates) (cfg : Config) : (o : Op) → Daemon → o.Ans → Prop
  | .loadLocalKeyCache, s, a =>
    (∀ r, a = .ok r → (r = s.disk.localKeyCache ∨ cfg.multiDevice = true ∧ ∀ c, r = some c → WellSealed E c) ∧
      ∀ c, r = some c → c.version ∈ LocalKeyCacheFile.SUPPORTED_VERSIONS) ∧
    ∀ c key, a = .ok (some c) → s.localCacheKeyState = some key → KeyOf E c key
  | o, s, a => ready E o s a

def sharedMachine (E : Crates) (cfg : Config) : Machine daemonSig Daemon where
  ready := sharedReady E cfg
  next := next E

/-! ### What is kept -/

/-- The caches in memory and on disk are consistent, and the key in memory is the one of the cache there. -/
structure Coherent (E : Crates) (s : Daemon) : Prop where
  memory : ∀ c, s.localKeyCacheData = some c → WellSealed E c
  sized : ∀ key, s.localCacheKeyState = some key → key.Sized
  key : ∀ key, s.localCacheKeyState = some key → ∀ c, s.localKeyCacheData = some c → KeyOf E c key
  disk : ∀ c, s.disk.localKeyCache = some c → WellSealed E c

/-- The cache and the keys in memory. -/
structure Holdings where
  cache : Option LocalKeyCacheFile := none
  keys : List KeyTuple := []

def Daemon.holdings (s : Daemon) : Holdings := ⟨s.localKeyCacheData, s.cachedKeyTuples⟩

def Holdings.after (m : Holdings) : Event → Holdings
  | ⟨.writeLocalKeyCache c, _⟩ => { m with cache := c }
  | ⟨.writeCachedKeyTuples ks, _⟩ => { m with keys := ks }
  | _ => m

/-- The keys a write is for: those in memory, or those of the cache in memory when only its PIN slot is made
again. -/
def WriteIsFor (m : Holdings) (c : LocalKeyCacheFile) (keys : List KeyTuple) : Prop :=
  keys = m.keys ∨ ∃ old, m.cache = some old ∧ c.encryptedPayload = old.encryptedPayload ∧ c.header = old.header

def WritesOpen (E : Crates) (o : Op) (s : Daemon) : Prop :=
  Coherent E s ∧ ∀ c, o = .saveLocalKeyCache c → c.localCacheKey.pinEncrypted.isSome = true →
    ∃ keys lck, SealedBy E c lck keys ∧ WriteIsFor s.holdings c keys

/-- Operations that leave the caches, the Local Cache Key and the keys in memory alone. -/
def Op.sparesCaches : Op → Bool
  | writeLocalKeyCache _ | writeLocalCacheKey _ | writeCachedKeyTuples _ | saveLocalKeyCache _
  | deleteLocalKeyCache => false
  | _ => true

/-- Operations that bring neither a cache nor a Local Cache Key. -/
def Op.bringsNoCache : Op → Bool
  | writeLocalKeyCache (some _) | writeLocalCacheKey (some _) | saveLocalKeyCache _ => false
  | _ => true

abbrev SparesCaches (p : DProg α) : Prop := Prog.Only (S := daemonSig) (fun o : Op => o.sparesCaches = true) p

abbrev BringsNoCache (p : DProg α) : Prop := Prog.Only (S := daemonSig) (fun o : Op => o.bringsNoCache = true) p

/-- The two states agree on the caches, on the Local Cache Key and on the keys in memory. -/
structure SameCaches (s s' : Daemon) : Prop where
  localKeyCacheData : s'.localKeyCacheData = s.localKeyCacheData
  localCacheKeyState : s'.localCacheKeyState = s.localCacheKeyState
  cachedKeyTuples : s'.cachedKeyTuples = s.cachedKeyTuples
  diskCache : s'.disk.localKeyCache = s.disk.localKeyCache

namespace SameCaches

theorem refl (s : Daemon) : SameCaches s s := ⟨rfl, rfl, rfl, rfl⟩

theorem trans {s'' : Daemon} (h : SameCaches s s') (h' : SameCaches s' s'') : SameCaches s s'' :=
  ⟨h'.localKeyCacheData.trans h.localKeyCacheData, h'.localCacheKeyState.trans h.localCacheKeyState,
    h'.cachedKeyTuples.trans h.cachedKeyTuples, h'.diskCache.trans h.diskCache⟩

theorem coherent (hs : SameCaches s s') (h : Coherent E s) : Coherent E s' where
  memory c hc := h.memory c (hs.localKeyCacheData ▸ hc)
  sized key hkey := h.sized key (hs.localCacheKeyState ▸ hkey)
  key key hkey c hc := h.key key (hs.localCacheKeyState ▸ hkey) c (hs.localKeyCacheData ▸ hc)
  disk c hc := h.disk c (hs.diskCache ▸ hc)

end SameCaches

theorem sameCaches_next {o : Op} (ho : o.sparesCaches = true) (s : Daemon) (a : o.Ans) :
    SameCaches s (next E o s a) := by
  cases o <;> first
    | exact absurd ho Bool.false_ne_true
    | exact ⟨rfl, rfl, rfl, rfl⟩
    | (cases a <;> exact ⟨rfl, rfl, rfl, rfl⟩)

theorem Op.bringsNoCache_of_sparesCaches {o : Op} (h : o.sparesCaches = true) : o.bringsNoCache = true := by
  cases o <;> first | rfl | exact absurd h Bool.false_ne_true

theorem Op.sparesCaches_of_isQuiet {o : Op} (h : o.isQuiet = true) : o.sparesCaches = true := by
  cases o <;> first | rfl | exact absurd h Bool.false_ne_true

theorem Op.sparesCaches_of_isSlotSupport {o : Op} (h : o.isSlotSupport = true) : o.sparesCaches = true := by
  cases o <;> first | rfl | exact absurd h Bool.false_ne_true

theorem SlotSupport.sparesCaches {p : DProg α} (h : SlotSupport p) : SparesCaches p :=
  h.mono fun _ => Op.sparesCaches_of_isSlotSupport

theorem Quiet.sparesCaches {p : DProg α} (h : Quiet p) : SparesCaches p :=
  h.mono fun _ => Op.sparesCaches_of_isQuiet

theorem Coherent.writesOpen (h : Coherent E s) {o : Op} (ho : ∀ c, o ≠ .saveLocalKeyCache c) : WritesOpen E o s :=
  ⟨h, fun c hc => absurd hc (ho c)⟩

theorem Coherent.at_op (h : Coherent E s) {o : Op} (ho : o.bringsNoCache = true) : WritesOpen E o s := by
  refine h.writesOpen fun c hc => ?_
  rw [hc] at ho
  exact Bool.false_ne_true ho

theorem Coherent.next (h : Coherent E s) {o : Op} (ho : o.bringsNoCache = true) (a : o.Ans) :
    Coherent E (SshWarden.next E o s a) := by
  cases o with
  | writeLocalKeyCache c =>
    cases c with
    | some c => exact absurd ho Bool.false_ne_true
    | none => exact ⟨fun _ hc => (Option.some_ne_none _ hc.symm).elim, h.sized,
        fun _ _ _ hc => (Option.some_ne_none _ hc.symm).elim, h.disk⟩
  | writeLocalCacheKey key =>
    cases key with
    | some key => exact absurd ho Bool.false_ne_true
    | none => exact ⟨h.memory, fun _ hk => (Option.some_ne_none _ hk.symm).elim,
        fun _ hk => (Option.some_ne_none _ hk.symm).elim, h.disk⟩
  | saveLocalKeyCache c => exact absurd ho Bool.false_ne_true
  | deleteLocalKeyCache =>
    cases a with
    | error e => exact h
    | ok u => exact ⟨h.memory, h.sized, h.key, fun _ hc => (Option.some_ne_none _ hc.symm).elim⟩
  | writeCachedKeyTuples ks => exact ⟨h.memory, h.sized, h.key, h.disk⟩
  | _ => exact (sameCaches_next (E := E) rfl s a).coherent h

theorem SparesCaches.wp {p : DProg α} (hp : SparesCaches p) (h : Coherent E s) {Q : α → Daemon → Prop}
    (hQ : ∀ a s', SameCaches s s' → Q a s') : wp (sharedMachine E cfg') (WritesOpen E) p Q s :=
  hp.wp_rel SameCaches.refl (fun _ _ _ => .trans) (fun _ s a ho _ => sameCaches_next ho s a)
    (fun _ _ ho hs => (hs.coherent h).at_op (Op.bringsNoCache_of_sparesCaches ho)) hQ

theorem BringsNoCache.wp {p : DProg α} (hp : BringsNoCache p) (h : Coherent E s) :
    wp (sharedMachine E cfg') (WritesOpen E) p (fun _ => Coherent E) s :=
  hp.wp_rel (R := fun s s' => Coherent E s → Coherent E s') (fun _ => id) (fun _ _ _ h h' hs => h' (h hs))
    (fun _ _ a ho _ hs => hs.next ho a) (fun _ _ ho hs => (hs h).at_op ho) fun _ _ hs => hs h

theorem SlotWraps.congr {slots' : LocalCacheKeySlots} (h : SlotWraps E slots pin lck)
    (hpin : slots'.pinEncrypted = slots.pinEncrypted) (hsalt : slots'.pinSalt = slots.pinSalt) :
    SlotWraps E slots' pin lck := by
  obtain ⟨enc, salt, iv, henc, hslotSalt, hwrap⟩ := h
  refine ⟨enc, salt, iv, hpin.trans henc, ?_, hwrap⟩
  rw [← hslotSalt, pinSlotSalt, pinSlotSalt, hsalt]

theorem Wraps.slotWraps (laws : EnvelopeLaws E) (h : Wraps E slots pin lck) : SlotWraps E slots pin lck := by
  obtain ⟨enc, salt, iv, henc, hsalt, hwrap⟩ := h
  refine ⟨enc, salt, iv, henc, ?_, hwrap⟩
  simp only [pinSlotSalt, hsalt, laws.base64_decode]

theorem Envelope.sealedBy {email serverUrl : String} (h : Envelope E email serverUrl lck keys c) (hs : lck.Sized)
    (hw : SlotWraps E c.localCacheKey pin lck) : SealedBy E c lck keys :=
  ⟨hs, ⟨pin, hw⟩, h.payload, by rw [h.header]⟩

/-- A platform slot is no part of what a PIN opens. -/
theorem SealedBy.enrolled (h : SealedBy E c lck keys) (hs : SameEnvelope c c') : SealedBy E c' lck keys := by
  obtain ⟨pin, hslot⟩ := h.slot
  refine ⟨h.sized, ⟨pin, hslot.congr hs.pinEncrypted hs.pinSalt⟩, ?_, ?_⟩
  · rw [hs.payload]
    exact h.payload
  · rw [hs.header]
    exact h.identities

theorem SealedBy.keyOf (h : SealedBy E c lck keys) : KeyOf E c lck := fun _ => ⟨keys, h⟩

namespace Coherent

theorem saved (h : Coherent E s) (hc : WellSealed E c) (r : Except String Unit) :
    Coherent E (SshWarden.next E (.saveLocalKeyCache c) s r) := by
  cases r with
  | error e => exact h
  | ok u =>
    refine ⟨h.memory, h.sized, h.key, fun c' hc' => ?_⟩
    obtain rfl := Option.some.inj hc'
    exact hc

theorem cacheWritten (h : Coherent E s) (hc : WellSealed E c)
    (hkey : ∀ key, s.localCacheKeyState = some key → KeyOf E c key) :
    Coherent E (SshWarden.next E (.writeLocalKeyCache (some c)) s ()) := by
  refine ⟨fun c' hc' => ?_, h.sized, fun key hk c' hc' => ?_, h.disk⟩
  · obtain rfl := Option.some.inj hc'
    exact hc
  · obtain rfl := Option.some.inj hc'
    exact hkey key hk

theorem keyWritten (h : Coherent E s) (hs : key.Sized) (hc : ∀ c, s.localKeyCacheData = some c → KeyOf E c key) :
    Coherent E (SshWarden.next E (.writeLocalCacheKey (some key)) s ()) := by
  refine ⟨h.memory, fun key' hk => ?_, fun key' hk c' hc' => ?_, h.disk⟩
  · obtain rfl := Option.some.inj hk
    exact hs
  · obtain rfl := Option.some.inj hk
    exact hc c' hc'

end Coherent

/-- A new cache: the slot and the payload are made with the same key. -/
theorem wp_writeEnvelope_shared (laws : EnvelopeLaws E) (h : Coherent E s) (hs : lck.Sized)
    (hkeys : keys = s.cachedKeyTuples) (email url pin : String) :
    wp (sharedMachine E cfg') (WritesOpen E) (writeEnvelopeLocalKeyCacheWithKey E cfg keys email url pin lck)
      (fun r s' => Coherent E s' ∧ s'.localCacheKeyState = s.localCacheKeyState ∧
        ∀ made, r = .ok made → made.2 = lck ∧ SealedBy E made.1 lck keys) s := by
  have hslot : wp (sharedMachine E cfg') (WritesOpen E) (encryptLocalCacheKeyWithPin E lck pin)
      (fun _ => SameCaches s) s :=
    (routine_encryptLocalCacheKeyWithPin E lck pin).support.slots.sparesCaches.wp h fun _ _ hs => hs
  refine wp_bind .. |>.2 (hslot.and_runs.post ?_)
  rintro r s₁ ⟨⟨tr, hwrap⟩, h₁⟩
  cases r with
  | error e => exact ⟨h₁.coherent h, h₁.localCacheKeyState, fun _ he => by cases he⟩
  | ok slot =>
    obtain ⟨enc, saltB64⟩ := slot
    refine wp_perform_bind.2 ⟨(h₁.coherent h).at_op rfl, fun iv _ => ?_⟩
    split
    · exact ⟨h₁.coherent h, h₁.localCacheKeyState, fun _ he => by cases he⟩
    · next built hbuilt =>
      obtain ⟨henv, hslots⟩ := envelope_of_build hbuilt
      have henroll : wp (sharedMachine E cfg') (WritesOpen E) (enrollNativeIfPossible E cfg built lck)
          (fun _ => SameCaches s₁) s₁ :=
        (slotSteps_enrollNativeIfPossible E cfg built lck).slotRoutine.support.sparesCaches.wp (h₁.coherent h)
          fun _ _ hs => hs
      refine wp_bind .. |>.2 (henroll.and_runs.post ?_)
      rintro cache s₂ ⟨⟨tr', hrun⟩, h₂⟩
      have hsame := sameEnvelope_of_enroll hrun
      have hs₂ := h₁.trans h₂
      have hsealed : SealedBy E cache lck keys := by
        have hw := (wraps_of_runs {} hwrap).slotWraps laws
        refine (henv.sealedBy hs ((hw.congr ?_ ?_) : SlotWraps E built.localCacheKey pin lck)).enrolled hsame
        · rw [hslots]
        · rw [hslots]
      refine wp_perform_bind.2 ⟨⟨hs₂.coherent h, fun c hc _ => ?_⟩, fun r _ => ?_⟩
      · obtain rfl := Op.saveLocalKeyCache.inj hc
        exact ⟨keys, lck, hsealed, .inl (hkeys.trans hs₂.cachedKeyTuples.symm)⟩
      · have h₃ := (hs₂.coherent h).saved (.of_keyOf hsealed.keyOf) r
        cases r with
        | error e => exact ⟨h₃, hs₂.localCacheKeyState, fun _ he => by cases he⟩
        | ok u =>
          refine ⟨h₃, hs₂.localCacheKeyState, fun made he => ?_⟩
          obtain rfl := Except.ok.inj he
          exact ⟨rfl, hsealed⟩

/-- A refresh keeps the slot of the cache in memory, so it is sound for the key of that cache. -/
theorem wp_refresh_shared (h : Coherent E s) (hc : s.localKeyCacheData = some c)
    (hk : s.localCacheKeyState = some key)
    (hkeys : keys = s.cachedKeyTuples) :
    wp (sharedMachine E cfg') (WritesOpen E) (refreshEnvelopeLocalKeyCache E cfg keys c key)
      (fun r s' => Coherent E s' ∧ s'.localCacheKeyState = s.localCacheKeyState ∧ ∀ c', r = .ok c' →
        KeyOf E c' key) s := by
  refine wp_perform_bind.2 ⟨h.at_op rfl, fun iv _ => ?_⟩
  split
  · exact ⟨h.next (o := .randomIv) rfl iv, rfl, fun _ he => by cases he⟩
  · next built hbuilt =>
    obtain ⟨henv, hslots⟩ := envelope_of_build hbuilt
    have hslot : built.localCacheKey.pinEncrypted = c.localCacheKey.pinEncrypted ∧
        built.localCacheKey.pinSalt = c.localCacheKey.pinSalt := by
      rw [hslots, refreshedSlots]
      split <;> exact ⟨rfl, rfl⟩
    have hsealed : built.localCacheKey.pinEncrypted.isSome = true → SealedBy E built key keys := by
      intro hpin
      rw [hslot.1] at hpin
      obtain ⟨_, hold⟩ := h.key key hk c hc hpin
      obtain ⟨pin, hw⟩ := hold.slot
      exact henv.sealedBy hold.sized (hw.congr hslot.1 hslot.2)
    have hkey : KeyOf E built key := fun hpin => ⟨keys, hsealed hpin⟩
    refine wp_perform_bind.2 ⟨⟨h, fun c' hc' hpin => ?_⟩, fun r _ => ?_⟩
    · obtain rfl := Op.saveLocalKeyCache.inj hc'
      exact ⟨keys, key, hsealed hpin, .inl hkeys⟩
    · have h₁ : Coherent E (SshWarden.next E (.saveLocalKeyCache built) s r) := h.saved (.of_keyOf hkey) r
      cases r with
      | error e => exact ⟨h₁, rfl, fun _ he => by cases he⟩
      | ok u =>
        refine ⟨h₁, rfl, fun c' he => ?_⟩
        obtain rfl := Except.ok.inj he
        exact hkey

/-- What is asked of the file cannot be left out: a refresh under the key of another cache leaves one that no
PIN opens. -/
theorem refresh_opens_iff (laws : EnvelopeLaws E) (h : SealedBy E c lck keys) {keys' : List KeyTuple}
    {tr : List Event}
    (hr : Runs (refreshEnvelopeLocalKeyCache E cfg keys' c key) tr (.ok c'))
    (hw : SlotWraps E c.localCacheKey pin lck') :
    (∃ opened, decryptEnvelopeLocalKeyCacheWithPin E c' pin = .ok opened) ↔ key = lck := by
  obtain ⟨henv, hpin, hsalt⟩ := envelope_of_refresh hr
  obtain ⟨pin₀, hslot⟩ := h.slot
  have hw' := hw.congr hpin hsalt
  constructor
  · rintro ⟨opened, hopen⟩
    obtain ⟨iv, hpayload⟩ := henv.payload
    rw [decryptEnvelopeLocalKeyCacheWithPin, (hslot.congr hpin hsalt).opens laws h.sized hw',
      except_ok_bind] at hopen
    unfold decryptEnvelopePayload at hopen
    split at hopen
    · cases hopen
    · next hdec => exact (laws.one_key hpayload hdec).symm
  · rintro rfl
    exact ⟨_, (henv.sealedBy h.sized (hslot.congr hpin hsalt)).opens laws hw'⟩

/-- The slot is made again around the key it was opened to. -/
theorem wp_migrate_shared (laws : EnvelopeLaws E) (h : Coherent E s) (hc : s.localKeyCacheData = some c)
    (hsealed : SealedBy E c key keys) (pin : String) :
    wp (sharedMachine E cfg') (WritesOpen E) (migratePinSaltToV3 E c key pin)
      (fun r s' => Coherent E s' ∧ s'.localKeyCacheData = s.localKeyCacheData ∧
        s'.localCacheKeyState = s.localCacheKeyState ∧ ∀ c', r = .ok c' → SealedBy E c' key keys) s := by
  have hslot : wp (sharedMachine E cfg') (WritesOpen E) (encryptLocalCacheKeyWithPin E key pin)
      (fun _ => SameCaches s) s :=
    (routine_encryptLocalCacheKeyWithPin E key pin).support.slots.sparesCaches.wp h fun _ _ hs => hs
  refine wp_bind .. |>.2 (hslot.and_runs.post ?_)
  rintro r s₁ ⟨⟨tr, hwrap⟩, h₁⟩
  cases r with
  | error e => exact ⟨h₁.coherent h, h₁.localKeyCacheData, h₁.localCacheKeyState, fun _ he => by cases he⟩
  | ok slot =>
    obtain ⟨enc, saltB64⟩ := slot
    have hmigrated : SealedBy E { c with
        version := 3
        localCacheKey := { c.localCacheKey with pinEncrypted := some enc, pinSalt := some saltB64 } } key keys :=
      ⟨hsealed.sized, ⟨pin, (wraps_of_runs c.localCacheKey hwrap).slotWraps laws⟩, hsealed.payload,
        hsealed.identities⟩
    refine wp_perform_bind.2 ⟨⟨h₁.coherent h, fun c' hc' _ => ?_⟩, fun r _ => ?_⟩
    · obtain rfl := Op.saveLocalKeyCache.inj hc'
      exact ⟨keys, key, hmigrated, .inr ⟨c, h₁.localKeyCacheData.trans hc, rfl, rfl⟩⟩
    · have h₂ := (h₁.coherent h).saved (.of_keyOf hmigrated.keyOf) r
      cases r with
      | error e => exact ⟨h₂, h₁.localKeyCacheData, h₁.localCacheKeyState, fun _ he => by cases he⟩
      | ok u =>
        refine ⟨h₂, h₁.localKeyCacheData, h₁.localCacheKeyState, fun c' he => ?_⟩
        obtain rfl := Except.ok.inj he
        exact hmigrated

/-! ### The phases -/

/-- What is known in the course of a turn. -/
def sharedFacts (E : Crates) : Facts Daemon where
  I := Coherent E
  Locked _ := True
  Unlocked _ := True
  Holds c s := s.localKeyCacheData = some c
  Opened _ key s := key.Sized ∧ ∀ c, s.localKeyCacheData = some c → KeyOf E c key
  Client _ _ := True
  Fetched _ _ := True
  Synced _ _ := True
  MaySync _ := True
  MaySetPin _ _ := True
  pinOk _ := True
  mayForget := True

theorem sharedFacts_keeps (h : SameCaches s s') : (sharedFacts E).Keeps s s' where
  locked := id
  unlocked := id
  holds _ hc := h.localKeyCacheData.trans hc
  opened _ _ hopen := ⟨hopen.1, fun c hc => hopen.2 c (h.localKeyCacheData ▸ hc)⟩
  client _ := id
  fetched _ := id
  synced _ := id
  maySync := id

theorem sized_of_decode {encoded : String} (h : decodeSymmetricKey E encoded = .ok key) : key.Sized :=
  ⟨(length_of_decodeSymmetricKey h).1, (length_of_decodeSymmetricKey h).2⟩

theorem sized_of_openPinSlot (h : openPinSlot E slots pin = .ok key) : key.Sized := by
  unfold openPinSlot at h
  split at h
  · cases h
  · split at h
    · cases h
    · split at h
      · cases h
      · split at h
        · cases h
        · next hdec =>
          obtain rfl := Except.ok.inj h
          exact sized_of_decode hdec

/-- What a PIN opens a consistent cache to is the Local Cache Key of that cache. -/
theorem WellSealed.opened (laws : EnvelopeLaws E) (h : WellSealed E c) {json : String}
    (hopen : decryptEnvelopeLocalKeyCacheWithPin E c pin = .ok (json, key)) : key.Sized ∧ KeyOf E c key := by
  obtain ⟨key', hslot, hpayload⟩ := except_bind_ok hopen
  have hkey := decryptEnvelopePayload_key hpayload
  dsimp only at hkey
  subst hkey
  exact ⟨sized_of_openPinSlot hslot, h.keyOf laws hpayload⟩

theorem opened_iff (json : String) (hc : s.localKeyCacheData = some c) :
    (sharedFacts E).Opened json key s ↔ key.Sized ∧ KeyOf E c key := by
  constructor
  · rintro ⟨hs, hkey⟩
    exact ⟨hs, hkey c hc⟩
  · rintro ⟨hs, hkey⟩
    refine ⟨hs, fun c' hc' => ?_⟩
    obtain rfl := Option.some.inj (hc.symm.trans hc')
    exact hkey

theorem wp_reload_shared (h : Coherent E s) :
    wp (sharedMachine E cfg') (WritesOpen E) (reloadSharedLocalCacheFromDiskIfMultiDevice cfg)
      (fun _ => Coherent E) s := by
  refine (wp_ite ..).2 ⟨fun _ => h, fun _ => wp_perform_bind.2 ⟨h.at_op rfl, fun r hr => ?_⟩⟩
  match r, hr with
  | .error e, _ => exact h
  | .ok none, _ => exact h
  | .ok (some c), ⟨hfile, hkey⟩ =>
    have hc : WellSealed E c := by
      rcases (hfile _ rfl).1 with hdisk | ⟨-, hother⟩
      · exact h.disk c hdisk.symm
      · exact hother c rfl
    refine wp_bind .. |>.2
      ((slotSteps_persistDeviceUnlockSlotsFromCache cfg c).slotRoutine.support.sparesCaches.wp h fun _ s₁ hs => ?_)
    refine ⟨(hs.coherent h).writesOpen (fun _ hno => by cases hno), fun _ _ => ?_⟩
    exact (hs.coherent h).cacheWritten hc fun key hk => hkey c key rfl (hs.localCacheKeyState ▸ hk)

theorem wp_requestPinDialog_shared (laws : EnvelopeLaws E) (context : Option UnlockRequestContext)
    (h : Coherent E s)
    (hc : s.localKeyCacheData = some c) :
    wp (sharedMachine E cfg') (WritesOpen E) (requestPinDialog context (pinValidator E c))
      (fun r s' => SameCaches s s' ∧ ∀ pin json key, r = some (pin, json, key) → key.Sized ∧ KeyOf E c key) s := by
  refine wp_perform_bind.2 ⟨h.at_op rfl, fun pins _ => ?_⟩
  have hspares : wp (sharedMachine E cfg') (WritesOpen E) (validateSubmitted (pinValidator E c) pins)
      (fun _ => SameCaches s) s :=
    (pinSteps_validateSubmitted _ pins).routine.support.slots.sparesCaches.wp h fun _ _ hs => hs
  refine (hspares.and (wp_validateSubmitted pins)).mono (fun _ _ hD => hD.1) ?_
  rintro r s₁ ⟨h₁, hr⟩
  refine ⟨h₁, fun pin json key he => ?_⟩
  exact (h.memory c hc).opened laws (except_eq_ok_of_toOption (hr pin (json, key) he).2)

theorem wp_decryptWithNative_shared (laws : EnvelopeLaws E) (h : Coherent E s)
    (hc : s.localKeyCacheData = some c) :
    wp (sharedMachine E cfg') (WritesOpen E) (decryptEnvelopeLocalKeyCacheWithNative E cfg c)
      (fun r s' => SameCaches s s' ∧ ∀ json key, r = .ok (json, key) → key.Sized ∧ KeyOf E c key) s := by
  refine wp_bind .. |>.2
    ((slotReads_currentNativeUnlockSlot cfg c).routine.support.slots.sparesCaches.wp h fun slot s₁ h₁ => ?_)
  cases slot with
  | none => exact ⟨h₁, fun _ _ hno => by cases hno⟩
  | some slot =>
    refine wp_perform_bind.2 ⟨(h₁.coherent h).at_op rfl, fun r _ => ?_⟩
    cases r with
    | error e => exact ⟨h₁, fun _ _ hno => by cases hno⟩
    | ok encoded =>
      dsimp only
      split
      · exact ⟨h₁, fun _ _ hno => by cases hno⟩
      · next key hdecode =>
        refine ⟨h₁, fun json key' hopen => ?_⟩
        obtain rfl : key' = key := decryptEnvelopePayload_key hopen
        exact ⟨sized_of_decode hdecode, (h.memory c hc).keyOf laws hopen⟩

theorem wp_migrateIfNeeded_shared (laws : EnvelopeLaws E) (h : Coherent E s) (hc : s.localKeyCacheData = some c)
    (hkey : KeyOf E c key) (pin : String) :
    wp (sharedMachine E cfg') (WritesOpen E) (migratePinSlotIfNeeded E c key pin)
      (fun _ s' => Coherent E s' ∧ ∀ c', s'.localKeyCacheData = some c' → KeyOf E c' key) s := by
  have hheld : ∀ c', s.localKeyCacheData = some c' → KeyOf E c' key := fun c' hc' => by
    obtain rfl := Option.some.inj (hc.symm.trans hc')
    exact hkey
  refine (wp_ite ..).2 ⟨fun hneeds => ?_, fun _ => ⟨h, hheld⟩⟩
  have hpin := (Bool.and_eq_true_iff.1 hneeds).1
  obtain ⟨keys, hsealed⟩ := hkey hpin
  refine wp_bind .. |>.2 ((wp_migrate_shared laws h hc hsealed pin).post ?_)
  rintro r s₁ ⟨h₁, hcache, hmem, hr⟩
  cases r with
  | error e => exact ⟨h₁, fun c' hc' => hheld c' (hcache ▸ hc')⟩
  | ok migrated =>
    have hmigrated := hr migrated rfl
    refine ⟨h₁.writesOpen (fun _ hno => by cases hno), fun _ _ => ⟨?_, fun c' hc' => ?_⟩⟩
    · refine h₁.cacheWritten (.of_keyOf hmigrated.keyOf) fun key' hk => ?_
      -- a key already in memory opens the old cache, and so is the one the slot was opened to
      obtain ⟨keys', hsealed'⟩ := h.key key' (hmem ▸ hk) c hc hpin
      obtain rfl := hsealed'.key_eq laws (hsealed.openPayload laws)
      exact hmigrated.keyOf
    · obtain rfl := Option.some.inj hc'
      exact hmigrated.keyOf

theorem LoadingSteps.bringsNoCache {p : DProg α} (h : LoadingSteps p) : BringsNoCache p :=
  h.mono fun o ho => by cases o <;> first | rfl | exact absurd ho Bool.false_ne_true

theorem SparesCaches.bringsNoCache {p : DProg α} (h : SparesCaches p) : BringsNoCache p :=
  h.mono fun _ => Op.bringsNoCache_of_sparesCaches

theorem bringsNoCache_lockVault : BringsNoCache lockVault :=
  .bind (only_op rfl) fun _ => .ite (.bind (only_op rfl) fun _ => .bind (only_op rfl) fun _ =>
    .bind (only_op rfl) fun _ => .bind (only_op rfl) fun _ => trivial) trivial

theorem wp_unlock_shared {json : String} (msg : String) (h : Coherent E s)
    (hopen : (sharedFacts E).Opened json key s) :
    wp (sharedMachine E cfg') (WritesOpen E)
      (do op (.writeLocalCacheKey (some key)); finishUnlockWithJson E json msg)
      (fun _ => Coherent E) s := by
  refine wp_perform_bind.2 ⟨h.writesOpen (fun _ hno => by cases hno), fun _ _ => ?_⟩
  exact (loadingSteps_finishUnlockWithJson E json msg).bringsNoCache.wp (h.keyWritten hopen.1 hopen.2)

/-- A cache becomes the one in memory, with its key. -/
theorem wp_takeUp {rest : DProg α} (h : Coherent E s) (hs : key.Sized) (hc : KeyOf E c key)
    (hkey : s.localCacheKeyState = none ∨ s.localCacheKeyState = some key) (hrest : SparesCaches rest) :
    wp (sharedMachine E cfg') (WritesOpen E) (do
      op (.writeLocalKeyCache (some c))
      op (.writeLocalCacheKey (some key))
      rest) (fun _ => Coherent E) s := by
  have h₁ : Coherent E (next E (.writeLocalKeyCache (some c)) s ()) := by
    refine h.cacheWritten (.of_keyOf hc) fun key' hk => ?_
    rcases hkey with hnone | hsome
    · cases hnone.symm.trans hk
    · obtain rfl := Option.some.inj (hsome.symm.trans hk)
      exact hc
  have h₂ : Coherent E (next E (.writeLocalCacheKey (some key)) (next E (.writeLocalKeyCache (some c)) s ())
      ()) := by
    refine h₁.keyWritten hs fun c' hc' => ?_
    obtain rfl := Option.some.inj hc'
    exact hc
  refine ⟨h.writesOpen (fun _ hno => by cases hno), fun _ _ => ?_⟩
  exact ⟨h₁.writesOpen (fun _ hno => by cases hno), fun _ _ => hrest.wp h₂ fun _ _ hs => hs.coherent h₂⟩

/-- A sync writes the fetched keys under the key of the cache in memory, where there are both. -/
theorem wp_reconcile_shared (keys : List KeyTuple) (h : Coherent E s) :
    wp (sharedMachine E cfg') (WritesOpen E) (reconcileSyncedKeyState E cfg keys) (fun _ => Coherent E) s := by
  refine wp_perform_bind.2 ⟨h.at_op rfl, fun old _ => ?_⟩
  have hclear : SparesCaches (clearAuthorizationMemoryForChangedKeys E old keys) :=
    .ite trivial (.bind (only_op rfl) fun _ => trivial)
  refine wp_bind .. |>.2 (hclear.wp h fun new s₁ hs₁ => ?_)
  have h₁ := hs₁.coherent h
  have h₂ : Coherent E (next E (.writeCachedKeyTuples keys)
      (next E (.writePublicKeyIdentityTuples keys) s₁ ()) ()) :=
    (h₁.next (o := .writePublicKeyIdentityTuples keys) rfl ()).next (o := .writeCachedKeyTuples keys) rfl ()
  refine wp_perform_bind.2 ⟨h₁.at_op rfl, fun _ _ => ?_⟩
  refine wp_perform_bind.2 ⟨(h₁.next (o := .writePublicKeyIdentityTuples keys) rfl ()).at_op rfl, fun _ _ => ?_⟩
  refine wp_perform_bind.2 ⟨h₂.at_op rfl, fun _ _ => ?_⟩
  have h₃ := h₂.next (o := .writeFingerprints new) rfl ()
  refine wp_perform_bind.2 ⟨h₃.at_op rfl, fun existing hexisting => ?_⟩
  refine wp_perform_bind.2 ⟨h₃.at_op rfl, fun key hkey => ?_⟩
  match existing, key, hexisting, hkey with
  | none, _, _, _ => exact h₃
  | some _, none, _, _ => exact h₃
  | some existing, some key, hexisting, hkey =>
    refine wp_bind .. |>.2 ((wp_refresh_shared h₃ hexisting.symm hkey.symm rfl).post ?_)
    rintro r s₄ ⟨h₄, hmem, hr⟩
    cases r with
    | error e => exact (support_notify _).slots.sparesCaches.wp h₄ fun _ _ hs => hs.coherent h₄
    | ok cache =>
      have hkept : s₄.localCacheKeyState = some key := hmem.trans hkey.symm
      exact wp_takeUp h₄ (h₄.sized key hkept) (hr cache rfl) (.inr hkept) (support_notify _).slots.sparesCaches

/-- The key in memory either opens the cache or is given up. -/
theorem wp_checkKey_shared (laws : EnvelopeLaws E) (h : Coherent E s) :
    wp (sharedMachine E cfg') (WritesOpen E) (ensureLocalCacheKeyForManualSync E cfg) (fun _ => Coherent E) s := by
  have hreload : wp (sharedMachine E cfg') (WritesOpen E)
      (Prog.when cfg.multiDevice (reloadSharedLocalCacheFromDiskIfMultiDevice cfg)) (fun _ => Coherent E) s :=
    (wp_ite ..).2 ⟨fun _ => wp_reload_shared h, fun _ => h⟩
  refine wp_bind .. |>.2 (hreload.post fun _ s₁ h₁ => ?_)
  refine wp_perform_bind.2 ⟨h₁.at_op rfl, fun c hc => ?_⟩
  cases c with
  | none => exact h₁
  | some c =>
    refine wp_perform_bind.2 ⟨h₁.at_op rfl, fun key _ => (wp_ite ..).2 ⟨fun _ => h₁, fun _ => ?_⟩⟩
    have hdrop : wp (sharedMachine E cfg') (WritesOpen E) (Prog.when key.isSome (op (.writeLocalCacheKey none)))
        (fun _ s' => Coherent E s' ∧ s'.localKeyCacheData = some c) s₁ :=
      (wp_ite ..).2 ⟨fun _ => ⟨h₁.at_op rfl, fun u _ => ⟨h₁.next (o := .writeLocalCacheKey none) rfl u, hc.symm⟩⟩,
        fun _ => ⟨h₁, hc.symm⟩⟩
    refine wp_bind .. |>.2 (hdrop.post ?_)
    rintro - s₂ ⟨h₂, hc₂⟩
    refine (wp_ite ..).2 ⟨fun _ => h₂, fun _ => ?_⟩
    refine wp_bind .. |>.2 ((wp_requestPinDialog_shared laws none h₂ hc₂).post ?_)
    rintro r s₃ ⟨hs₃, hr⟩
    cases r with
    | none => exact hs₃.coherent h₂
    | some opened =>
      obtain ⟨pin, json, key⟩ := opened
      have hopen := (opened_iff json (hs₃.localKeyCacheData.trans hc₂)).2 (hr pin json key rfl)
      exact ⟨(hs₃.coherent h₂).writesOpen (fun _ hno => by cases hno), fun _ _ =>
        (hs₃.coherent h₂).keyWritten hopen.1 hopen.2⟩

theorem bringsNoCache_forgetFiles (removeSharedCache : Bool) :
    BringsNoCache (forgetFiles cfg removeSharedCache) := by
  refine .bind (.ite (.bind (only_op rfl) fun _ => trivial) trivial) fun _ =>
    .bind (.bind (only_op rfl) fun cache => ?_) fun _ => .bind (only_op rfl) fun _ =>
    .bind (only_op rfl) fun _ => .bind (only_op rfl) fun _ => trivial
  cases cache with
  | none => trivial
  | some cache =>
    exact (slotReads_currentNativeUnlockSlot cfg cache).routine.support.slots.sparesCaches.bringsNoCache

theorem bringsNoCache_forgetSharedKeys : BringsNoCache forgetSharedKeys :=
  .bind (only_op rfl) fun _ => .bind (only_op rfl) fun _ => .bind (only_op rfl) fun _ => only_op rfl

theorem wp_forgetSession_shared (h : Coherent E s) :
    wp (sharedMachine E cfg') (WritesOpen E) forgetSession
      (fun _ s' => Coherent E s' ∧ s'.localCacheKeyState = none) s := by
  have h₁ := h.next (o := .writeLocalCacheKey none) rfl ()
  have h₂ := h₁.next (o := .clearMemory) rfl ()
  have h₃ := h₂.next (o := .writeCachedKeyTuples []) rfl ()
  refine ⟨h.at_op rfl, fun _ _ => ⟨h₁.at_op rfl, fun _ _ => ⟨h₂.at_op rfl, fun _ _ => ?_⟩⟩⟩
  have hrest : SparesCaches (do
      op (.writeApiClient none)
      op (.storePendingSync false)
      op (.setNotificationClient none)
      notify .reset
      op (.storeVaultLocked true)) :=
    .bind (only_op rfl) fun _ => .bind (only_op rfl) fun _ => .bind (only_op rfl) fun _ =>
      .bind (support_notify _).slots.sparesCaches fun _ => only_op rfl
  exact hrest.wp h₃ fun _ _ hs => ⟨hs.coherent h₃, hs.localCacheKeyState⟩

/-- The file is this daemon's own or was put there by another device. -/
theorem wp_loadSharedCache (h : Coherent E s) :
    wp (sharedMachine E cfg') (WritesOpen E) loadSharedCache
      (fun r s' => s' = s ∧ ∀ c, r = some c → WellSealed E c) s := by
  refine wp_perform_bind.2 ⟨h.at_op rfl, fun r hr => ?_⟩
  cases r with
  | error e => exact ⟨rfl, fun _ hno => by cases hno⟩
  | ok c =>
    refine ⟨rfl, fun c' hc' => ?_⟩
    rcases (hr.1 c rfl).1 with hdisk | ⟨-, hother⟩
    · exact h.disk c' (hdisk.symm.trans hc')
    · exact hother c' hc'

theorem wp_forgetDeviceKeys_shared (h : Coherent E s) (hkey : s.localCacheKeyState = none) :
    wp (sharedMachine E cfg') (WritesOpen E) forgetDeviceKeys (fun _ => Coherent E) s := by
  refine wp_bind .. |>.2 ((wp_loadSharedCache h).post ?_)
  rintro c s' ⟨rfl, hc⟩
  have h₁ : Coherent E (next E (.writeLocalKeyCache c) s' ()) := by
    cases c with
    | none => exact h.next (o := .writeLocalKeyCache none) rfl ()
    | some c => exact h.cacheWritten (hc c rfl) fun key hk => by cases hkey.symm.trans hk
  refine wp_perform_bind.2 ⟨h.writesOpen (fun _ hno => by cases hno), fun _ _ => BringsNoCache.wp ?_ h₁⟩
  refine .bind (only_op rfl) fun _ => .bind (only_op rfl) fun _ => .bind (only_op rfl) fun _ => ?_
  cases c with
  | none => trivial
  | some c => exact .bind (only_op rfl) fun _ => .bind (only_op rfl) fun _ => only_op rfl

/-- The shared cache is read again only after the key has been dropped. -/
theorem wp_handleForget_shared (shared : Bool) (h : Coherent E s) :
    wp (sharedMachine E cfg') (WritesOpen E) (handleForget cfg shared) (fun _ => Coherent E) s := by
  refine wp_bind .. |>.2 (((bringsNoCache_forgetFiles _).wp h).post fun failures s₁ h₁ => ?_)
  refine wp_bind .. |>.2 ((wp_forgetSession_shared h₁).post ?_)
  rintro - s₂ ⟨h₂, hkey⟩
  have hkeys : wp (sharedMachine E cfg') (WritesOpen E) (forgetKeys (shared || !cfg.multiDevice))
      (fun _ => Coherent E) s₂ :=
    (wp_ite ..).2 ⟨fun _ => bringsNoCache_forgetSharedKeys.wp h₂, fun _ => wp_forgetDeviceKeys_shared h₂ hkey⟩
  exact wp_bind .. |>.2 (hkeys.post fun _ _ h₃ => h₃)

/-- A cache is written for the keys in memory and becomes the one in memory, with its key. -/
theorem wp_takeUpWritten (keys : List KeyTuple) {α : Type}
    {write : DProg (Except String (LocalKeyCacheFile × SymmetricKey))} {fail : String → DProg α} {rest : DProg α}
    (hwrite : wp (sharedMachine E cfg') (WritesOpen E) write (fun r s' => Coherent E s' ∧
      ∀ made, r = .ok made → SealedBy E made.1 made.2 keys ∧
        (s'.localCacheKeyState = none ∨ s'.localCacheKeyState = some made.2)) s)
    (hfail : ∀ e, SparesCaches (fail e)) (hrest : SparesCaches rest) :
    wp (sharedMachine E cfg') (WritesOpen E) (do
      match ← write with
      | .error e => fail e
      | .ok (cache, localCacheKey) =>
        op (.writeLocalKeyCache (some cache))
        op (.writeLocalCacheKey (some localCacheKey))
        rest) (fun _ => Coherent E) s := by
  refine wp_bind .. |>.2 (hwrite.post ?_)
  rintro r s₁ ⟨h₁, hr⟩
  cases r with
  | error e => exact (hfail e).wp h₁ fun _ _ hs => hs.coherent h₁
  | ok made =>
    obtain ⟨cache, key⟩ := made
    obtain ⟨hsealed, hkey⟩ := hr _ rfl
    exact wp_takeUp h₁ hsealed.sized hsealed.keyOf hkey hrest

theorem sparesCaches_saveSessionOfClient (pin : Option String) : SparesCaches (saveSessionOfClient E pin) :=
  (keepsCore_saveSessionOfClient E pin).quiet.sparesCaches

theorem wp_writeFreshEnvelope_shared (laws : EnvelopeLaws E) (h : Coherent E s) (hkeys : keys = s.cachedKeyTuples)
    (hkey : s.localCacheKeyState = none) (email url pin : String) :
    wp (sharedMachine E cfg') (WritesOpen E) (writeEnvelopeLocalKeyCache E cfg keys email url pin)
      (fun r s' => Coherent E s' ∧ ∀ made, r = .ok made → SealedBy E made.1 made.2 keys ∧
        (s'.localCacheKeyState = none ∨ s'.localCacheKeyState = some made.2)) s := by
  refine wp_perform_bind.2 ⟨h.at_op rfl, fun key hsized => ?_⟩
  refine (wp_writeEnvelope_shared laws h ⟨hsized.1, hsized.2⟩ hkeys email url pin).post ?_
  rintro r s₁ ⟨h₁, hmem, hr⟩
  refine ⟨h₁, fun made he => ?_⟩
  obtain ⟨hmade, hsealed⟩ := hr made he
  exact ⟨hmade ▸ hsealed, .inl (hmem.trans hkey)⟩

theorem wp_handleSetPin_shared (laws : EnvelopeLaws E) (pin : String) (h : Coherent E s) :
    wp (sharedMachine E cfg') (WritesOpen E) (handleSetPin E cfg pin) (fun _ => Coherent E) s := by
  refine (wp_ite ..).2 ⟨fun _ => h, fun _ => wp_perform_bind.2 ⟨h.at_op rfl, fun keys hkeys => ?_⟩⟩
  refine (wp_ite ..).2 ⟨fun _ => h, fun _ => ?_⟩
  refine wp_takeUpWritten keys ?_ (fun _ => trivial)
    (.bind (sparesCaches_saveSessionOfClient _) fun _ => trivial)
  refine wp_perform_bind.2 ⟨h.at_op rfl, fun key hkey => ?_⟩
  cases key with
  | none => exact wp_writeFreshEnvelope_shared laws h hkeys hkey.symm _ _ pin
  | some key =>
    refine (wp_writeEnvelope_shared laws h (h.sized key hkey.symm) hkeys _ _ pin).post ?_
    rintro r s₁ ⟨h₁, hmem, hr⟩
    refine ⟨h₁, fun made he => ?_⟩
    obtain ⟨hmade, hsealed⟩ := hr made he
    exact ⟨hmade ▸ hsealed, .inr (hmade ▸ hmem.trans hkey.symm)⟩

/-- The phases keep coherence, and every cache they write can be opened. -/
theorem sharedPhases (laws : EnvelopeLaws E) (cfg cfg' : Config) :
    Phases E cfg (sharedMachine E cfg') (WritesOpen E) (sharedFacts E) where
  quiet ho hI :=
    have hspared := Op.sparesCaches_of_isQuiet ho
    ⟨hI.at_op (Op.bringsNoCache_of_sparesCaches hspared), fun a _ =>
      have hs := sameCaches_next hspared _ a
      ⟨hs.coherent hI, sharedFacts_keeps hs⟩⟩
  locked _ _ := trivial
  unlocked _ _ := trivial
  readCache _ h := h.symm
  peekCache _ h := h.symm
  peekClient _ _ := trivial
  maySync _ _ := trivial
  reload hI := (wp_reload_shared hI).post fun _ _ h => ⟨h, id⟩
  lock hI := bringsNoCache_lockVault.wp hI
  native hI _ hc := (wp_decryptWithNative_shared laws hI hc).post fun _ _ h =>
    ⟨h.1.coherent hI, sharedFacts_keeps h.1, fun json key hr =>
      (opened_iff json (h.1.localKeyCacheData.trans hc)).2 (h.2 json key hr)⟩
  pin _ hI _ hc hdec := (opened_iff _ hc).2 ((hI.memory _ hc).opened laws hdec)
  dialog context hI _ hc := (wp_requestPinDialog_shared laws context hI hc).post fun _ _ h =>
    ⟨h.1.coherent hI, sharedFacts_keeps h.1, fun pin json key hr =>
      (opened_iff json (h.1.localKeyCacheData.trans hc)).2 (h.2 pin json key hr)⟩
  migrate _ hI _ hc hopen _ := (wp_migrateIfNeeded_shared laws hI hc (hopen.2 _ hc) _).post fun _ _ h =>
    ⟨h.1, trivial, hopen.1, h.2⟩
  enroll hI _ _ := (slotSteps_enrollDevicePlatformSlotsIfMissing E cfg _).slotRoutine.support.sparesCaches.wp hI
    fun _ _ hs => ⟨hs.coherent hI, sharedFacts_keeps hs⟩
  unlock msg hI _ hopen :=
    (wp_unlock_shared msg hI hopen).post fun _ _ h => ⟨h, fun _ => trivial, fun _ => trivial⟩
  fetch hI _ _ := (support_syncSshKeys _).slots.sparesCaches.wp hI fun _ _ hs =>
    ⟨hs.coherent hI, fun _ _ => trivial⟩
  reconcile hI _ := (wp_reconcile_shared _ hI).post fun _ _ h => ⟨h, trivial⟩
  load hI _ _ := ⟨hI.at_op rfl, fun a _ => Coherent.next hI (o := .agentSetKeys _) rfl a⟩
  setClient hI _ := ⟨hI.at_op rfl, fun a _ => ⟨Coherent.next hI (o := .writeApiClient _) rfl a, id⟩⟩
  pokeClient _ hI _ := ⟨hI.at_op rfl, fun a _ => Coherent.next hI (o := .pokeApiClient _) rfl a⟩
  checkKey hI _ := (wp_checkKey_shared laws hI).post fun _ _ h => ⟨h, trivial⟩
  forget shared _ hI := wp_handleForget_shared shared hI
  setPin pin _ hI := wp_handleSetPin_shared laws pin hI

theorem sharedLoginPhases (E : Crates) (cfg cfg' : Config) :
    Phases.LoginPhases E cfg (sharedMachine E cfg') (WritesOpen E) (sharedFacts E) (fun _ _ => True)
      (fun _ => Coherent E) where
  fetch client hI := (support_syncSshKeys client).slots.sparesCaches.wp hI fun _ _ hs =>
    ⟨hs.coherent hI, fun _ _ => trivial⟩
  files _ _ _ _ := trivial
  reconcile hI _ := wp_reconcile_shared _ hI
  names hJ := ⟨hJ.at_op rfl, fun a _ => Coherent.next hJ (o := .writeKeyNames _) rfl a⟩
  load hJ := ⟨hJ.at_op rfl, fun a _ =>
    have hloaded := Coherent.next hJ (o := .agentSetKeys _) rfl a
    ⟨fun _ => hloaded, fun _ => ⟨hloaded.at_op rfl, fun u _ =>
      ⟨hloaded.next (o := .storeVaultLocked false) rfl u, trivial⟩⟩⟩⟩
  setClient hI _ := ⟨hI.at_op rfl, fun a _ => ⟨Coherent.next hI (o := .writeApiClient _) rfl a, trivial⟩⟩

theorem sharedRequestPhases (E : Crates) (cfg cfg' : Config) :
    RequestPhases E cfg (sharedMachine E cfg') (WritesOpen E) (sharedFacts E) where
  requestUnlock request seed event hseed hI _ hopen := by
    unfold unlockWithDecryptedKeys
    split
    · exact ⟨hI, fun _ => trivial⟩
    · next keys _ =>
      have h₁ := Coherent.next hI (o := .writeKeyNames (keyNamesOf keys)) rfl ()
      have h₂ := h₁.next (o := .writeCachedKeyTuples keys) rfl ()
      refine ⟨hI.at_op rfl, fun _ _ => ⟨h₁.at_op rfl, fun _ _ => ?_⟩⟩
      refine wp_perform_bind.2 ⟨h₂.at_op rfl, fun a _ => ?_⟩
      have h₃ := h₂.next (o := .agentSetKeys keys) rfl a
      refine (wp_ite ..).2 ⟨fun _ => ?_, fun _ => ⟨h₃, fun _ => trivial⟩⟩
      refine wp_bind .. |>.2 (hseed.sparesCaches.wp h₃ fun _ s₄ hs₄ => ?_)
      have h₄ := hs₄.coherent h₃
      have h₅ := h₄.keyWritten hopen.1 fun c hc => hopen.2 c (hs₄.localKeyCacheData ▸ hc)
      have h₆ := h₅.next (o := .storeVaultLocked false) rfl ()
      refine ⟨h₄.writesOpen (fun _ hno => by cases hno), fun _ _ => ⟨h₅.at_op rfl, fun _ _ => ?_⟩⟩
      refine ⟨h₆.at_op rfl, fun _ _ => ?_⟩
      exact ⟨h₆.next (o := .sendRuntimeEvent event) rfl (), fun _ => trivial⟩
  unlockedRequest request hI _ := by
    have hspares : SparesCaches (handleUnlockedRequest cfg request) :=
      (answering_handleUnlockedRequest cfg request).mono fun o ho => by
        cases o <;> first | rfl | exact absurd ho Bool.false_ne_true
    exact hspares.wp hI fun _ _ hs => hs.coherent hI

/-! ### Start-up -/

/-- Nothing has been taken up yet. -/
structure Untaken (E : Crates) (s : Daemon) : Prop where
  coherent : Coherent E s
  cache : s.localKeyCacheData = none
  key : s.localCacheKeyState = none

theorem Untaken.congr (h : Untaken E s) (hs : SameCaches s s') : Untaken E s' :=
  ⟨hs.coherent h.coherent, hs.localKeyCacheData.trans h.cache, hs.localCacheKeyState.trans h.key⟩

theorem untaken_of_fresh (h : s.Fresh) (hdisk : ∀ c, s.disk.localKeyCache = some c → WellSealed E c) :
    Untaken E s := by
  have hcache : s.localKeyCacheData = none := by rw [h]
  have hkey : s.localCacheKeyState = none := by rw [h]
  refine ⟨⟨fun c hc => ?_, fun key hk => ?_, fun key hk => ?_, hdisk⟩, hcache, hkey⟩
  · cases hcache.symm.trans hc
  · cases hkey.symm.trans hk
  · cases hkey.symm.trans hk

theorem wp_promptSetupPin_shared (laws : EnvelopeLaws E) (h : Coherent E s) (hkey : s.localCacheKeyState = none) :
    wp (sharedMachine E cfg') (WritesOpen E) (promptSetupPin E cfg) (fun _ => Coherent E) s := by
  refine wp_bind .. |>.2 (Phases.routine_askNewPin.support.slots.sparesCaches.wp h fun pin s₁ hs => ?_)
  cases pin with
  | none => exact hs.coherent h
  | some pin =>
    refine wp_perform_bind.2 ⟨(hs.coherent h).at_op rfl, fun keys hkeys => ?_⟩
    refine wp_takeUpWritten keys ?_ (fun _ => trivial) (sparesCaches_saveSessionOfClient _)
    exact wp_writeFreshEnvelope_shared laws (hs.coherent h) hkeys (hs.localCacheKeyState.trans hkey) _ _ pin

theorem wp_loadInitialKeys_shared (laws : EnvelopeLaws E) (keys : List DecryptedSshKey) (h : Coherent E s)
    (hkey : s.localCacheKeyState = none) :
    wp (sharedMachine E cfg') (WritesOpen E) (loadInitialKeys E cfg keys) (fun _ => Coherent E) s := by
  refine (wp_ite ..).2 ⟨fun _ => h, fun _ => ?_⟩
  refine wp_perform_bind.2 ⟨h.at_op rfl, fun _ _ => wp_perform_bind.2 ⟨h.at_op rfl, fun _ _ => ?_⟩⟩
  have h₁ := h.next (o := .writePublicKeyIdentityTuples (keys.map DecryptedSshKey.tuple)) rfl ()
  have h₂ := h₁.next (o := .writeCachedKeyTuples (keys.map DecryptedSshKey.tuple)) rfl ()
  have h₃ := h₂.next (o := .writeFingerprints
    (keyMaterialFingerprintsFromTuples E (keys.map DecryptedSshKey.tuple))) rfl ()
  refine ⟨h.at_op rfl, fun _ _ => ⟨h₁.at_op rfl, fun _ _ => ⟨h₂.at_op rfl, fun _ _ => ?_⟩⟩⟩
  refine wp_perform_bind.2 ⟨h₃.at_op rfl, fun a _ => ?_⟩
  have h₄ := h₃.next (o := .agentSetKeys (keys.map DecryptedSshKey.tuple)) rfl a
  refine (wp_ite ..).2 ⟨fun _ => ?_, fun _ => h₄⟩
  exact wp_bind .. |>.2 ((wp_promptSetupPin_shared laws h₄ hkey).post fun _ _ hx => hx)

theorem sparesCaches_loadInitialIdentities : SparesCaches loadInitialIdentities := by
  refine .bind (only_op rfl) fun _ => .bind (only_op rfl) fun cache => ?_
  cases cache with
  | none => exact only_op rfl
  | some cache =>
    exact .ite (only_op rfl)
      (.bind (only_op rfl) fun _ => .bind (only_op rfl) fun _ => .bind (only_op rfl) fun _ =>
      only_op rfl)

theorem wp_startWith_shared (laws : EnvelopeLaws E) {cache : Option LocalKeyCacheFile}
    (login : Option (List DecryptedSshKey × BitwardenClient)) (h : Untaken E s)
    (hcache : ∀ c, cache = some c → WellSealed E c) :
    wp (sharedMachine E cfg') (WritesOpen E) (startWith E cfg cache login) (fun _ => Coherent E) s := by
  have hbring : wp (sharedMachine E cfg') (WritesOpen E) (bringUp E cfg cache login) (fun _ => Coherent E) s := by
    refine wp_perform_bind.2 ⟨h.coherent.at_op rfl, fun started _ => ?_⟩
    have h₁ := h.coherent.next (o := .startAgent) rfl started
    refine (wp_ite ..).2 ⟨fun _ => h₁, fun hstarted => ?_⟩
    obtain rfl : started = true := by simpa using hstarted
    have h₂ := h₁.next (o := .storeVaultLocked cache.isSome) rfl ()
    have h₃ := h₂.next (o := .writeApiClient (login.map Prod.snd)) rfl ()
    have h₄ : Coherent E (next E (.writeLocalKeyCache cache) (next E (.writeApiClient (login.map Prod.snd))
        (next E (.storeVaultLocked cache.isSome) (next E .startAgent s true) ()) ()) ()) := by
      cases cache with
      | none => exact h₃.next (o := .writeLocalKeyCache none) rfl ()
      | some c => exact h₃.cacheWritten (hcache c rfl) fun key hk => by cases h.key.symm.trans hk
    refine wp_perform_bind.2 ⟨h₁.at_op rfl, fun _ _ => wp_perform_bind.2 ⟨h₂.at_op rfl, fun _ _ => ?_⟩⟩
    refine wp_perform_bind.2 ⟨h₃.writesOpen (fun _ hno => by cases hno), fun _ _ => ?_⟩
    cases login with
    | none =>
      refine wp_bind .. |>.2 (sparesCaches_loadInitialIdentities.wp h₄ fun _ s₅ hs => ?_)
      exact hs.coherent h₄
    | some login =>
      have h₅ := h₄.next (o := .writeKeyNames (keyNamesOf (login.1.map DecryptedSshKey.tuple))) rfl ()
      exact ⟨h₄.at_op rfl, fun _ _ => wp_loadInitialKeys_shared laws login.1 h₅ h.key⟩
  refine wp_bind .. |>.2 (hbring.post fun up s₁ h₁ => (wp_ite ..).2 ⟨fun _ => ?_, fun _ => h₁⟩)
  exact wp_bind .. |>.2 ((Phases.quiet_connectInitialClient E cfg).sparesCaches.wp h₁ fun _ _ hs => hs.coherent h₁)

theorem wp_startUp_shared (laws : EnvelopeLaws E) (h : Untaken E s) :
    wp (sharedMachine E cfg') (WritesOpen E) (startUp E cfg) (fun _ => Coherent E) s := by
  refine Phases.wp_startUp (P := Untaken E) (C := WellSealed E) (K := fun _ => True) ?_ ?_ (fun _ _ => trivial)
    (fun hx => hx.coherent) ?_ ?_ h
  · intro o x ho hx
    have hspared := Op.sparesCaches_of_isSlotSupport ho
    exact ⟨hx.coherent.at_op (Op.bringsNoCache_of_sparesCaches hspared), fun a _ =>
      hx.congr (sameCaches_next hspared x a)⟩
  · intro x c hx hr
    rcases (hr.1 _ rfl).1 with hdisk | ⟨-, hother⟩
    · exact hx.coherent.disk c hdisk.symm
    · exact hother c rfl
  · intro x c hx hc
    refine wp_startWith_shared laws none hx fun c' hc' => ?_
    obtain rfl := Option.some.inj hc'
    exact hc
  · intro x cfg login hx _
    exact wp_startWith_shared laws login hx fun c' hc' => by cases hc'

/-! ### Runs -/

theorem holdings_next (s : Daemon) (o : Op) (a : o.Ans) : (next E o s a).holdings = s.holdings.after ⟨o, a⟩ := by
  cases o <;> first | rfl | (cases a <;> rfl)

theorem holdings_of_steps {p p' : DProg α} {tr : List Event} (h : Steps (sharedMachine E cfg) p s tr p' s') :
    s'.holdings = tr.foldl Holdings.after s.holdings := by
  induction h with
  | refl => rfl
  | @step o k s a tr p s' ha _ ih =>
    rw [ih, List.foldl_cons, ← holdings_next (E := E) s o a]
    rfl

/-- Every cache written with a PIN slot is sealed for the keys the write is for. -/
def OpensWritten (E : Crates) (m : Holdings) (tr : List Event) : Prop :=
  ∀ pre c r post, tr = pre ++ ⟨.saveLocalKeyCache c, r⟩ :: post → c.localCacheKey.pinEncrypted.isSome = true →
    ∃ keys lck, SealedBy E c lck keys ∧ WriteIsFor (pre.foldl Holdings.after m) c keys

/-- The events so far are coherent, and lead from the first state to the second. -/
structure WritesSoundly (E : Crates) (s : Daemon) (tr : List Event) (s' : Daemon) : Prop where
  coherent : Coherent E s'
  holdings : s'.holdings = tr.foldl Holdings.after s.holdings
  written : OpensWritten E s.holdings tr

theorem opensWritten_of_steps {p p' : DProg α} {tr : List Event} {Q : α → Daemon → Prop}
    (hwp : wp (sharedMachine E cfg) (WritesOpen E) p Q s) (h : Steps (sharedMachine E cfg) p s tr p' s') :
    OpensWritten E s.holdings tr := by
  rintro pre c r post rfl hpin
  obtain ⟨k, s₁, hs⟩ := h.at_event
  rw [← holdings_of_steps hs]
  exact (hwp.at_op hs).2 c rfl hpin

theorem writesSoundly_of_ret {p : DProg α} {tr : List Event} {a : α}
    (hwp : wp (sharedMachine E cfg) (WritesOpen E) p (fun _ => Coherent E) s)
    (h : Steps (sharedMachine E cfg) p s tr (.ret a) s') : WritesSoundly E s tr s' :=
  ⟨hwp.of_ret h, holdings_of_steps h, opensWritten_of_steps hwp h⟩

theorem OpensWritten.append {m : Holdings} {tr tr' : List Event} (h : OpensWritten E m tr)
    (h' : OpensWritten E (tr.foldl Holdings.after m) tr') : OpensWritten E m (tr ++ tr') := by
  intro pre c r post htr hpin
  rcases append_eq_append_cons htr with ⟨rest, rfl, -⟩ | ⟨pre', rfl, htr'⟩
  · exact h pre c r rest rfl hpin
  · rw [List.foldl_append]
    exact h' pre' c r post htr' hpin

theorem WritesSoundly.append {s'' : Daemon} {tr tr' : List Event} (h : WritesSoundly E s tr s')
    (h' : WritesSoundly E s' tr' s'') : WritesSoundly E s (tr ++ tr') s'' where
  coherent := h'.coherent
  holdings := by rw [h'.holdings, h.holdings, List.foldl_append]
  written := h.written.append (h.holdings ▸ h'.written)

theorem WritesSoundly.of_holdings {s₁ : Daemon} {tr : List Event} (h : WritesSoundly E s₁ tr s')
    (hs : s₁.holdings = s.holdings) : WritesSoundly E s tr s' :=
  ⟨h.coherent, hs ▸ h.holdings, hs ▸ h.written⟩

theorem eventAllowed_shared (ev : MainEvent) : Phases.eventAllowed (sharedFacts E) s ev := by
  cases ev with
  | control action => cases action <;> trivial
  | _ => trivial

theorem wp_mainStep_shared (laws : EnvelopeLaws E) (ev : MainEvent) (h : Coherent E s) :
    wp (sharedMachine E cfg') (WritesOpen E) (mainStep E cfg ev) (fun _ => Coherent E) s :=
  have phases := sharedPhases laws cfg cfg'
  phases.wp_mainStep (fun password hI => phases.wp_handleUnlockPassword (sharedLoginPhases E cfg cfg') hI password)
    (eventAllowed_shared ev) h

theorem Step.writesSoundly (laws : EnvelopeLaws E) {t : Turn} {tr : List Event}
    (h : Step (sharedMachine E cfg) E cfg s t tr s') (hI : Coherent E s) : WritesSoundly E s tr s' := by
  cases h with
  | event hr hsteps =>
    rename_i s₁ ev
    have h₁ : SameCaches s s₁ := by cases hr <;> exact ⟨rfl, rfl, rfl, rfl⟩
    have hsound := writesSoundly_of_ret (wp_mainStep_shared laws ev (h₁.coherent hI)) hsteps
    refine hsound.of_holdings ?_
    rw [Daemon.holdings, Daemon.holdings, h₁.localKeyCacheData, h₁.cachedKeyTuples]
  | dropped hne hsteps hd =>
    rename_i action p
    obtain ⟨o, k, rfl, -⟩ := hd
    have hwp : wp (sharedMachine E cfg) (WritesOpen E) (mainStep E cfg (.control action))
        (fun _ => Coherent E) s :=
      wp_mainStep_shared laws (.control action) hI
    exact ⟨(hwp.at_op hsteps).1, holdings_of_steps hsteps, opensWritten_of_steps hwp hsteps⟩
  | arrives ha =>
    have h₁ : SameCaches s s' := by cases ha; exact ⟨rfl, rfl, rfl, rfl⟩
    refine ⟨h₁.coherent hI, ?_, fun pre c r post htr => by simp at htr⟩
    rw [Daemon.holdings, h₁.localKeyCacheData, h₁.cachedKeyTuples]
    rfl
  | request hsteps =>
    have phases := sharedPhases laws cfg cfg
    exact writesSoundly_of_ret (phases.wp_handleUiRequest (sharedRequestPhases E cfg cfg) hI _) hsteps

theorem Run.writesSoundly (laws : EnvelopeLaws E) {ok : Daemon → Turn → List Event → Prop} {tr : List Event}
    (h : Run (sharedMachine E cfg) E cfg ok s tr s') (hI : Coherent E s) : WritesSoundly E s tr s' := by
  induction h with
  | nil => exact ⟨hI, rfl, fun pre c r post htr => by simp at htr⟩
  | turn _ hstep _ ih => exact ih.append (hstep.writesSoundly laws ih.coherent)

/-- Every cache the daemon writes with a PIN slot, from its start-up on, opens with each PIN the slot can have
been made with, to the keys the write is for, which its header lists. -/
theorem written_caches_open {cfg₀ : Config} {s₀ s₁ : Daemon} {tr₀ tr pre post : List Event}
    {r : Except String Unit} (laws : EnvelopeLaws E) (h₀ : s₀.Fresh)
    (hdisk : ∀ c, s₀.disk.localKeyCache = some c → WellSealed E c)
    (hstart : Steps (sharedMachine E cfg₀) (startUp E cfg₀) s₀ tr₀ (.ret (some cfg)) s₁)
    (hrun : Run (sharedMachine E cfg) E cfg (fun _ _ _ => True) s₁ tr s)
    (hwritten : tr₀ ++ tr = pre ++ ⟨.saveLocalKeyCache c, r⟩ :: post)
    (hpin : c.localCacheKey.pinEncrypted.isSome = true) :
    ∃ keys lck, (∃ pin, SlotWraps E c.localCacheKey pin lck) ∧
      (∀ pin lck', SlotWraps E c.localCacheKey pin lck' →
        decryptEnvelopeLocalKeyCacheWithPin E c pin = .ok (E.keysToJson keys, lck)) ∧
      c.header.keys = keyIdentitiesFromTuples E keys ∧ WriteIsFor (pre.foldl Holdings.after {}) c keys := by
  have hsound₀ := writesSoundly_of_ret (wp_startUp_shared laws (untaken_of_fresh h₀ hdisk)) hstart
  have hsound := hsound₀.append (hrun.writesSoundly laws hsound₀.coherent)
  obtain ⟨keys, lck, hsealed, hfor⟩ := hsound.written pre c r post hwritten hpin
  refine ⟨keys, lck, hsealed.slot, fun pin lck' hw => hsealed.opens laws hw, hsealed.identities, ?_⟩
  have hfresh : s₀.holdings = {} := by rw [h₀]; rfl
  rwa [hfresh] at hfor

def Op.readsCacheFile : Op → Bool
  | loadLocalKeyCache => true
  | _ => false

theorem envelopeLaws_plain : EnvelopeLaws .plain where
  decrypt_encrypt h := by
    obtain rfl := Except.ok.inj h
    exact Plain.decrypt_encrypt _ _
  one_key := by
    rintro iv data enc key key' data' henc hdec
    obtain rfl := Except.ok.inj henc
    have hdec : Plain.decrypt (Plain.encrypt data key) key' = .ok data' := hdec
    unfold Plain.decrypt at hdec
    split at hdec
    · next hprefix =>
      rw [Plain.encrypt, String.toList_ofList, List.isPrefixOf_iff_prefix] at hprefix
      obtain ⟨rest, hrest⟩ := hprefix
      simp only [Plain.header, List.append_assoc, List.cons_append] at hrest
      obtain ⟨hencText, hmac⟩ := Plain.append_sep_inj (Plain.sep_notMem_text _) (Plain.sep_notMem_text _) hrest
      obtain ⟨hmacText, -⟩ := Plain.append_sep_inj (Plain.sep_notMem_text _) (Plain.sep_notMem_text _) hmac
      have henc : key'.encKey = key.encKey := by rw [← Plain.map_text key'.encKey, hencText, Plain.map_text]
      have hmac : key'.macKey = key.macKey := by rw [← Plain.map_text key'.macKey, hmacText, Plain.map_text]
      cases key
      cases key'
      dsimp only at henc hmac
      rw [henc, hmac]
    · cases hdec
  base64_decode bytes := by
    show some ((String.ofList (Plain.text bytes)).toList.map Plain.charByte) = some bytes
    rw [String.toList_ofList, Plain.map_text]

/-- A machine step is one in the presence of other devices, when they leave the file alone and no key is in
memory where it is read. -/
theorem steps_shared (cfg : Config) {p p' : DProg α} {tr : List Event} (h : Steps (machine E) p s tr p' s')
    (hkeyless : (machine E).Meets (fun o s => o.readsCacheFile = true → s.localCacheKeyState = none) s tr) :
    Steps (sharedMachine E cfg) p s tr p' s' := by
  induction h with
  | refl => exact .refl _ _
  | @step o k s a tr p s' ha _ ih =>
    refine .step ?_ (ih hkeyless.2)
    cases o with
    | loadLocalKeyCache =>
      have hnone : s.localCacheKeyState = none := hkeyless.1 rfl
      refine ⟨fun r hr => ⟨.inl (ha r hr).1, (ha r hr).2⟩, fun c key _ hk => ?_⟩
      cases hnone.symm.trans hk
    | _ => exact ha

def legacySaltKeys : List KeyTuple := plainVault.map DecryptedSshKey.tuple

/-- The PIN slot is of the time of the legacy salt. -/
def legacySaltCache : LocalKeyCacheFile where
  version := 2
  header := ⟨plainConfig.email, plainConfig.baseUrl, keyIdentitiesFromTuples .plain legacySaltKeys⟩
  encryptedPayload := Plain.encrypt (utf8 (Plain.keysToJson legacySaltKeys)) plainKey
  localCacheKey :=
    { pinEncrypted := some (Plain.encrypt (utf8 (encodeSymmetricKey .plain plainKey))
        ⟨(utf8 "1234" ++ []).take 32, (utf8 "1234" ++ []).drop 32⟩) }

theorem wellSealed_legacySaltCache : WellSealed .plain legacySaltCache :=
  ⟨plainKey, fun _ => ⟨legacySaltKeys, ⟨rfl, rfl⟩, ⟨"1234", _, [], [], rfl, rfl, rfl⟩, ⟨[], rfl⟩, rfl⟩⟩

def sharingConfig : Config := { plainConfig with multiDevice := true }

def pinUnlock : Scene := .take (.control (.unlockPin "1234")) plainScript

def savesPinSlot : Event → Bool
  | ⟨.saveLocalKeyCache c, _⟩ => c.localCacheKey.pinEncrypted.isSome
  | _ => false

def readsKeyless (s : Daemon) (tr : List Event) : Bool :=
  decide ((machine .plain).Meets (fun o s => o.readsCacheFile = true → s.localCacheKeyState = none) s tr)

/-- The device starts with the old cache, reads it again and makes its PIN slot anew. -/
theorem pinUnlock_migrates :
    (playStart .plain sharingConfig plainScript { localKeyCache := some legacySaltCache }).any (fun x =>
    readsKeyless { disk := { localKeyCache := some legacySaltCache } }
      (startTrace .plain sharingConfig plainScript { localKeyCache := some legacySaltCache }) &&
    readsKeyless x.2 (pinUnlock.trace .plain x.1 x.2) && (pinUnlock.play .plain x.1 x.2).isSome &&
    (pinUnlock.trace .plain x.1 x.2).any savesPinSlot) = true := by decide +kernel

theorem written_caches_open_migrated : ∃ c keys lck, (∃ pin, SlotWraps .plain c.localCacheKey pin lck) ∧
    ∀ pin lck', SlotWraps .plain c.localCacheKey pin lck' →
      decryptEnvelopeLocalKeyCacheWithPin .plain c pin = .ok (Plain.keysToJson keys, lck) := by
  obtain ⟨⟨cfg, s₁⟩, hplay, hcheck⟩ := (Option.any_eq_true _ _).1 pinUnlock_migrates
  simp only [Bool.and_eq_true] at hcheck
  obtain ⟨⟨⟨hstartup, hturn⟩, hsome⟩, hsaves⟩ := hcheck
  obtain ⟨s, hs⟩ := Option.isSome_iff_exists.1 hsome
  obtain ⟨⟨o, a⟩, hmem, hsave⟩ := List.any_eq_true.1 hsaves
  cases o with
  | saveLocalKeyCache c =>
    obtain ⟨pre, post, hsplit⟩ := List.append_of_mem hmem
    have hdisk : ∀ f, ({ localKeyCache := some legacySaltCache } : Disk).localKeyCache = some f →
        WellSealed .plain f := by
      rintro f hf
      obtain rfl := Option.some.inj hf
      exact wellSealed_legacySaltCache
    have hstart := steps_shared sharingConfig (steps_playStart hplay) (of_decide_eq_true hstartup)
    have hstep := Scene.step hs
    generalize Scene.trace .plain cfg s₁ pinUnlock = tr at *
    have hshared : Step (sharedMachine .plain cfg) .plain cfg s₁ pinUnlock.turn tr s := by
      cases hstep with
      | event hrec hsteps =>
        cases hrec with
        | control _ hne => exact .event (.control _ hne) (steps_shared cfg hsteps (of_decide_eq_true hturn))
    have hrun : Run (sharedMachine .plain cfg) .plain cfg (fun _ _ _ => True) s₁ ([] ++ tr) s :=
      .turn .nil hshared trivial
    have hfresh : ({ disk := { localKeyCache := some legacySaltCache } } : Daemon).Fresh := rfl
    have hwritten : startTrace .plain sharingConfig plainScript { localKeyCache := some legacySaltCache } ++
      ([] ++ tr)
        = (startTrace .plain sharingConfig plainScript { localKeyCache := some legacySaltCache } ++ pre) ++
          ⟨.saveLocalKeyCache c, a⟩ :: post := by
      rw [List.nil_append, hsplit, List.append_assoc]
    obtain ⟨keys, lck, hslot, hopens, -, -⟩ :=
      written_caches_open envelopeLaws_plain hfresh hdisk hstart hrun hwritten hsave
    exact ⟨c, keys, lck, hslot, hopens⟩
  | _ => cases hsave

end SshWarden
