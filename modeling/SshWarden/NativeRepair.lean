import SshWarden.PinEntries

/-!
# Native unlock after a PIN unlock

`unlock --pin` gives a device its native slot where it has none; a slot it already has is left as it is.
So a native unlock works afterwards where the device had no slot, or one that still holds a key of the
shared cache: `nativeUnlock_after_pin_iff`.
-/

namespace SshWarden
open Prog

variable {E : Crates} {cfg : Config} {α β : Type}

/-- The device's keyring: encrypting a secret gives a slot, and the slot made last is decrypted to it. -/
structure Keyring where
  State : Type
  encrypt : State → String → State × String
  decrypt : State → String → Except String String
  delete : State → Option String → State
  decrypt_encrypt : ∀ k secret, decrypt (encrypt k secret).1 (encrypt k secret).2 = .ok secret

variable {κ : Keyring}

namespace Keyring

/-- The answers of a device whose keyring works and whose slots file can be read and written. -/
def answers (κ : Keyring) (k : κ.State) : Event → Prop
  | ⟨.nativeAvailable, available⟩ => available = true
  | ⟨.nativeEncrypt secret, r⟩ => r = .ok (κ.encrypt k secret).2
  | ⟨.nativeDecrypt slot, r⟩ => r = κ.decrypt k slot
  | ⟨.loadUnlockSlots, r⟩ => r.toOption.isSome = true
  | ⟨.saveUnlockSlots _, r⟩ => r.toOption.isSome = true
  | _ => True

/-- The keyring after an operation. -/
def next (κ : Keyring) (k : κ.State) : Op → κ.State
  | .nativeEncrypt secret => (κ.encrypt k secret).1
  | .nativeDelete slot => κ.delete k slot
  | _ => k

end Keyring

/-- The daemon on a device with this keyring. -/
def keyringMachine (E : Crates) (κ : Keyring) : Machine daemonSig (Daemon × κ.State) where
  ready o x a := ready E o x.1 a ∧ κ.answers x.2 ⟨o, a⟩
  next o x a := (next E o x.1 a, κ.next x.2 o)

theorem exists_ready_keyring (o : Op) (x : Daemon × κ.State) : ∃ a, (keyringMachine E κ).ready o x a := by
  obtain ⟨a, ha⟩ := exists_ready E o x.1
  cases o with
  | nativeAvailable => exact ⟨true, trivial, rfl⟩
  | nativeEncrypt secret => exact ⟨.ok (κ.encrypt x.2 secret).2, trivial, rfl⟩
  | nativeDecrypt slot => exact ⟨κ.decrypt x.2 slot, trivial, rfl⟩
  | loadUnlockSlots => exact ⟨.ok x.1.disk.unlockSlots, fun f h => (Except.ok.inj h).symm, rfl⟩
  | saveUnlockSlots f => exact ⟨.ok (), trivial, rfl⟩
  | _ => exact ⟨a, ha, trivial⟩

/-- The device's native slot. -/
def nativeSlot (s : Daemon) : Option String := (s.disk.unlockSlots.getD {}).nativeEncrypted

/-- The slot holds a key that opens the cache to these keys. -/
def SlotOpens (E : Crates) (κ : Keyring) (c : LocalKeyCacheFile) (keys : List KeyTuple) (k : κ.State)
    (slot : String) : Prop :=
  ∃ secret key json, κ.decrypt k slot = .ok secret ∧ decodeSymmetricKey E secret = .ok key ∧
    decryptEnvelopePayload E c key = .ok (json, key) ∧ E.keysFromJson json = .ok keys

/-- Every native unlock with this cache succeeds and yields these keys. -/
def UnlocksNatively (E : Crates) (κ : Keyring) (cfg : Config) (c : LocalKeyCacheFile) (keys : List KeyTuple)
    (x : Daemon × κ.State) : Prop :=
  ∀ msg tr resp x', Steps (keyringMachine E κ) (finishNativeUnlockResponse E cfg c msg) x tr (.ret resp) x' →
    resp.ok = true ∧ x'.1.vaultLocked = false ∧ x'.1.cachedKeyTuples = keys

/-- The device has no native slot of its own, or it holds a key that opens the cache to these keys. -/
def SlotFits (E : Crates) (κ : Keyring) (c : LocalKeyCacheFile) (keys : List KeyTuple)
    (x : Daemon × κ.State) : Prop :=
  ∀ slot, nativeSlot x.1 = some slot → SlotOpens E κ c keys x.2 slot

/-- Operations that neither change the device's slots nor the keyring. -/
def Op.keepsNative : Op → Bool
  | saveUnlockSlots _ | deleteUnlockSlots | nativeEncrypt _ | nativeDelete _ => false
  | _ => true

/-- The device's slots and the keyring are these. -/
structure Holds (slots : Option UnlockSlotsFile) (k : κ.State) (x : Daemon × κ.State) : Prop where
  slots : x.1.disk.unlockSlots = slots
  keyring : x.2 = k

variable {slots : Option UnlockSlotsFile} {k : κ.State} {x : Daemon × κ.State} {c : LocalKeyCacheFile}
  {keys : List KeyTuple} {key : SymmetricKey} {json pin : String}

theorem unlockSlots_next (E : Crates) {o : Op} (h : o.keepsNative = true) (s : Daemon) (a : o.Ans) :
    (next E o s a).disk.unlockSlots = s.disk.unlockSlots := by
  cases o <;> first | rfl | (cases a <;> rfl) | exact absurd h Bool.false_ne_true

theorem keyring_next {o : Op} (h : o.keepsNative = true) (k : κ.State) : κ.next k o = k := by
  cases o <;> first | rfl | exact absurd h Bool.false_ne_true

theorem Holds.next (h : Holds slots k x) {o : Op} (ho : o.keepsNative = true) (a : o.Ans) :
    Holds slots k ((keyringMachine E κ).next o x a) where
  slots := (unlockSlots_next E ho x.1 a).trans h.slots
  keyring := (keyring_next ho x.2).trans h.keyring

abbrev KeepsNative (p : DProg α) : Prop :=
  Prog.Only (S := daemonSig) (fun o : Op => o.keepsNative = true) p

theorem keepsNative_op {o : Op} (h : o.keepsNative = true) : KeepsNative (op o) := ⟨h, fun _ => trivial⟩

theorem KeepsNative.wp {p : DProg α} (h : KeepsNative p) (hx : Holds slots k x) :
    Prog.wp (keyringMachine E κ) (fun _ _ => True) p (fun _ => Holds slots k) x :=
  (Only.wp (I := Holds slots k) h (fun _ _ a ho hx _ => hx.next ho a) hx).mono (fun _ _ _ => trivial)
    fun _ _ h => h

theorem PinSteps.keepsNative {p : DProg α} (h : PinSteps p) : KeepsNative p :=
  h.mono fun o ho => by cases o <;> first | rfl | exact absurd ho Bool.false_ne_true

theorem PinSlotSteps.keepsNative {p : DProg α} (h : PinSlotSteps p) : KeepsNative p :=
  h.mono fun o ho => by cases o <;> first | rfl | exact absurd ho Bool.false_ne_true

theorem LoadingSteps.keepsNative {p : DProg α} (h : LoadingSteps p) : KeepsNative p :=
  h.mono fun o ho => by cases o <;> first | rfl | exact absurd ho Bool.false_ne_true

theorem SessionSteps.keepsNative {p : DProg α} (h : SessionSteps p) : KeepsNative p :=
  h.mono fun o ho => by cases o <;> first | rfl | exact absurd ho Bool.false_ne_true

theorem PendingSyncSteps.keepsNative {p : DProg α} (h : PendingSyncSteps p) : KeepsNative p :=
  h.mono fun o ho => by cases o <;> first | rfl | exact absurd ho Bool.false_ne_true

theorem keepsNative_tryRestoreApiSession (E : Crates) (cfg : Config) (pin : String) :
    KeepsNative (tryRestoreApiSession E cfg pin) := by
  refine .bind (keepsNative_op rfl) fun client => .ite trivial <|
    .bind (only_loadDeviceSession rfl) fun session => ?_
  split
  · trivial
  · split
    · trivial
    · refine .bind (keepsNative_op rfl) fun r => ?_
      cases r with
      | error e => exact .bind (keepsNative_op rfl) fun _ => trivial
      | ok grant =>
        exact .bind (hubSteps_connectIfAuthenticated cfg _).session.keepsNative fun _ =>
          .bind (savingSteps_saveDeviceSession E _ _).session.keepsNative fun _ => keepsNative_op rfl

/-! ### The native unlock -/

theorem Steps.of_keyring {p p' : DProg α} {x x' : Daemon × κ.State} {tr : List Event}
    (h : Steps (keyringMachine E κ) p x tr p' x') : Steps (machine E) p x.1 tr p' x'.1 := by
  induction h with
  | refl => exact .refl _ _
  | step ha _ ih => exact .step ha.1 ih

theorem SlotOpens.unique {keys' : List KeyTuple} {slot : String} (h : SlotOpens E κ c keys k slot)
    (h' : SlotOpens E κ c keys' k slot) : keys = keys' := by
  obtain ⟨secret, key, json, hs, hk, hj, hp⟩ := h
  obtain ⟨secret', key', json', hs', hk', hj', hp'⟩ := h'
  obtain rfl := Except.ok.inj (hs.symm.trans hs')
  obtain rfl := Except.ok.inj (hk.symm.trans hk')
  obtain ⟨rfl, -⟩ := Prod.mk.inj (Except.ok.inj (hj.symm.trans hj'))
  exact Except.ok.inj (hp.symm.trans hp')

theorem wp_loadUnlockSlots {f : Option UnlockSlotsFile → DProg β} {Q : β → Daemon × κ.State → Prop}
    (hx : Holds slots k x) (hf : ∀ x', Holds slots k x' → x'.1.agent = x.1.agent →
      wp (keyringMachine E κ) (fun _ _ => True) (f slots) Q x') :
    wp (keyringMachine E κ) (fun _ _ => True) (loadDeviceUnlockSlots >>= f) Q x := by
  refine wp_bind .. |>.2 ⟨trivial, fun r hr => ?_⟩
  cases r with
  | error e => exact absurd hr.2 Bool.false_ne_true
  | ok slots' =>
    obtain rfl : slots' = slots := (hr.1 slots' rfl).trans hx.slots
    exact hf _ (hx.next (o := .loadUnlockSlots) rfl _) rfl

theorem key_of_decryptEnvelopePayload {key' : SymmetricKey}
    (h : decryptEnvelopePayload E c key = .ok (json, key')) :
    key = key' := by
  unfold decryptEnvelopePayload at h
  split at h
  · cases h
  · split at h
    · cases h
    · exact (Prod.mk.inj (Except.ok.inj h)).2

/-- The device's slot decides how a native unlock ends. -/
theorem wp_finishNativeUnlockResponse_keyring (hmulti : cfg.multiDevice = true) (hx : Holds slots k x)
    (hrun : x.1.agent.isRunning = true) (msg : String) :
    wp (keyringMachine E κ) (fun _ _ => True) (finishNativeUnlockResponse E cfg c msg) (fun resp x' =>
      (∃ keys slot, (slots.getD {}).nativeEncrypted = some slot ∧ SlotOpens E κ c keys k slot ∧
        resp.ok = true ∧ x'.1.vaultLocked = false ∧ x'.1.cachedKeyTuples = keys) ∨
      ((∀ keys slot, (slots.getD {}).nativeEncrypted = some slot → ¬SlotOpens E κ c keys k slot) ∧
        resp.ok = false)) x := by
  have hslot : (if cfg.multiDevice then pure (slots.bind UnlockSlotsFile.nativeEncrypted)
      else pure ((slots.bind UnlockSlotsFile.nativeEncrypted).or c.localCacheKey.nativeEncrypted) :
      DProg (Option String)) = pure (slots.getD {}).nativeEncrypted := by
    rw [if_pos hmulti]
    cases slots <;> rfl
  refine wp_bind .. |>.2 (wp_bind .. |>.2 (wp_loadUnlockSlots hx fun x₁ hx₁ hagent => ?_))
  dsimp only
  rw [hslot]
  refine (wp_ret _).2 ?_
  cases hn : (slots.getD {}).nativeEncrypted with
  | none => exact .inr ⟨fun keys slot h => (nomatch h), rfl⟩
  | some slot =>
    refine wp_perform_bind.2 ⟨trivial, fun r hr => ?_⟩
    have hdecrypt : κ.decrypt k slot = r := by
      rw [← hx₁.keyring]
      exact hr.2.symm
    have hfail : (∀ secret key json keys, r = .ok secret → decodeSymmetricKey E secret = .ok key →
        decryptEnvelopePayload E c key = .ok (json, key) → E.keysFromJson json ≠ .ok keys) →
        ∀ keys slot', some slot = some slot' → ¬SlotOpens E κ c keys k slot' := by
      rintro hno keys slot' hs ⟨secret, key, json, hr, hk, hj, hp⟩
      obtain rfl := Option.some.inj hs
      exact hno secret key json keys (hdecrypt.symm.trans hr) hk hj hp
    cases r with
    | error e => exact .inr ⟨hfail fun _ _ _ _ h => (nomatch h), rfl⟩
    | ok secret =>
      dsimp only
      cases hk : decodeSymmetricKey E secret with
      | error e =>
        refine .inr ⟨hfail fun _ _ _ _ hs hk' => ?_, rfl⟩
        obtain rfl := Except.ok.inj hs
        exact nomatch hk.symm.trans hk'
      | ok key =>
        refine (wp_ret _).2 ?_
        cases hj : decryptEnvelopePayload E c key with
        | error e =>
          refine .inr ⟨hfail fun _ _ _ _ hs hk' hj' => ?_, rfl⟩
          obtain rfl := Except.ok.inj hs
          obtain rfl := Except.ok.inj (hk.symm.trans hk')
          exact nomatch hj.symm.trans hj'
        | ok opened =>
          obtain ⟨json, key'⟩ := opened
          obtain rfl := key_of_decryptEnvelopePayload hj
          refine wp_perform_bind.2 ⟨trivial, fun _ _ => ?_⟩
          unfold finishUnlockWithJson
          split
          · rename_i e he
            refine .inr ⟨hfail fun _ _ _ keys hs hk' hj' hp => ?_, rfl⟩
            obtain rfl := Except.ok.inj hs
            obtain rfl := Except.ok.inj (hk.symm.trans hk')
            obtain ⟨rfl, -⟩ := Prod.mk.inj (Except.ok.inj (hj.symm.trans hj'))
            exact nomatch he.symm.trans hp
          · rename_i keys hp
            refine wp_perform_bind.2 ⟨trivial, fun _ _ => wp_perform_bind.2 ⟨trivial, fun _ _ =>
              wp_perform_bind.2 ⟨trivial, fun loaded hl => ?_⟩⟩⟩
            obtain rfl : loaded = true := hl.1.trans ((congrArg Agent.isRunning hagent).trans hrun)
            refine (wp_ite ..).2 ⟨fun _ => wp_perform_bind.2 ⟨trivial, fun _ _ => .inl ?_⟩, fun h => absurd rfl h⟩
            exact ⟨keys, slot, rfl, ⟨secret, key, json, hdecrypt, hk, hj, hp⟩, rfl, rfl, rfl⟩

/-- On a device in multi-device mode a native unlock depends on the device's slot alone. -/
theorem unlocksNatively_iff (hmulti : cfg.multiDevice = true) (hrun : x.1.agent.isRunning = true) :
    UnlocksNatively E κ cfg c keys x ↔ ∃ slot, nativeSlot x.1 = some slot ∧ SlotOpens E κ c keys x.2 slot := by
  have hwp := fun msg => wp_finishNativeUnlockResponse_keyring (E := E) (κ := κ) (c := c) hmulti
    (⟨rfl, rfl⟩ : Holds x.1.disk.unlockSlots x.2 x) hrun msg
  constructor
  · intro h
    obtain ⟨tr, resp, x', hsteps⟩ := exists_steps_ret (exists_ready_keyring (E := E) (κ := κ))
      (finishNativeUnlockResponse E cfg c "") x
    obtain ⟨hok, -, hkeys⟩ := h "" tr resp x' hsteps
    rcases (hwp "").of_ret hsteps with ⟨keys', slot, hs, ho, -, -, hkeys'⟩ | ⟨-, hno⟩
    · exact ⟨slot, hs, hkeys ▸ hkeys' ▸ ho⟩
    · exact absurd (hno.symm.trans hok) Bool.false_ne_true
  · rintro ⟨slot, hs, ho⟩ msg tr resp x' hsteps
    rcases (hwp msg).of_ret hsteps with ⟨keys', slot', hs', ho', hok, hlocked, hkeys⟩ | ⟨hno, -⟩
    · obtain rfl := Option.some.inj (hs.symm.trans hs')
      exact ⟨hok, hlocked, hkeys.trans (ho'.unique ho)⟩
    · exact absurd ho (hno keys slot hs)

/-! ### The PIN unlock -/

/-- What is known of the slots and the keyring after an enrolment that found `slots` and `k`: a slot that was
there is left as it is, otherwise the device has one for this key. -/
inductive Repaired (E : Crates) (κ : Keyring) (key : SymmetricKey) (slots : Option UnlockSlotsFile) (k : κ.State)
    (x : Daemon × κ.State) : Prop
  | kept {slot : String} (hs : (slots.getD {}).nativeEncrypted = some slot) (hx : Holds slots k x)
  | enrolled {slots' : Option UnlockSlotsFile} {k' : κ.State} {slot : String}
      (hnone : (slots.getD {}).nativeEncrypted = none) (hs : (slots'.getD {}).nativeEncrypted = some slot)
      (hd : κ.decrypt k' slot = .ok (encodeSymmetricKey E key)) (hx : Holds slots' k' x)

theorem Repaired.next (h : Repaired E κ key slots k x) {o : Op} (ho : o.keepsNative = true) (a : o.Ans) :
    Repaired E κ key slots k ((keyringMachine E κ).next o x a) := by
  cases h with
  | kept hs hx => exact .kept hs (hx.next ho a)
  | enrolled hnone hs hd hx => exact .enrolled hnone hs hd (hx.next ho a)

theorem KeepsNative.wp_repaired {p : DProg α} (h : KeepsNative p) (hx : Repaired E κ key slots k x) :
    Prog.wp (keyringMachine E κ) (fun _ _ => True) p (fun _ => Repaired E κ key slots k) x :=
  (Only.wp (I := Repaired E κ key slots k) h (fun _ _ a ho hx _ => hx.next ho a) hx).mono (fun _ _ _ => trivial)
    fun _ _ h => h

theorem wp_enroll_keyring (hmulti : cfg.multiDevice = true) (hx : Holds slots k x) (key : SymmetricKey) :
    wp (keyringMachine E κ) (fun _ _ => True) (enrollDevicePlatformSlotsIfMissing E cfg key)
      (fun _ => Repaired E κ key slots k) x := by
  refine (wp_ite ..).2 ⟨fun hno => by simp [hmulti] at hno, fun _ => wp_loadUnlockSlots hx fun x₁ hx₁ _ => ?_⟩
  refine (wp_ite ..).2 ⟨fun hnone => wp_perform_bind.2 ⟨trivial, fun available ha => ?_⟩, fun hsome => ?_⟩
  · obtain rfl : available = true := ha.2
    have hx₂ := hx₁.next (E := E) (o := .nativeAvailable) rfl true
    refine (wp_ite ..).2 ⟨fun _ => wp_bind .. |>.2 (wp_perform_bind.2 ⟨trivial, fun r hr => ?_⟩),
      fun h => absurd rfl h⟩
    obtain rfl : r = .ok (κ.encrypt k (encodeSymmetricKey E key)).2 := hr.2.trans (by rw [hx₂.keyring])
    have hx₃ : Holds slots (κ.encrypt k (encodeSymmetricKey E key)).1 ((keyringMachine E κ).next
        (.nativeEncrypt (encodeSymmetricKey E key)) _ (.ok (κ.encrypt k (encodeSymmetricKey E key)).2)) :=
      ⟨hx₂.slots, congrArg (fun k => (κ.encrypt k (encodeSymmetricKey E key)).1) hx₂.keyring⟩
    refine wp_loadUnlockSlots hx₃ fun x₄ hx₄ _ => ⟨trivial, fun saved hsaved => ?_⟩
    cases saved with
    | error e => exact absurd hsaved.2 Bool.false_ne_true
    | ok u =>
      exact .enrolled (by simpa using hnone) rfl (κ.decrypt_encrypt k _) ⟨rfl, hx₄.keyring⟩
  · cases hs : (slots.getD {}).nativeEncrypted with
    | none => rw [hs] at hsome; exact absurd rfl hsome
    | some slot => exact .kept hs hx₁

/-- A PIN unlock that succeeds has opened the cache in memory, and repaired the device's slot. -/
def PinUnlocked (E : Crates) (κ : Keyring) (pin : String) (x x' : Daemon × κ.State) : Prop :=
  ∃ c keys key, x.1.localKeyCacheData = some c ∧ Opens E c pin keys key ∧
    Repaired E κ key x.1.disk.unlockSlots x.2 x'

theorem wp_unlockPinBlock_keyring (hmulti : cfg.multiDevice = true) {x₀ : Daemon × κ.State}
    (hx : Holds x₀.1.disk.unlockSlots x₀.2 x) (hc : x.1.localKeyCacheData = x₀.1.localKeyCacheData) :
    wp (keyringMachine E κ) (fun _ _ => True) (unlockPinBlock E cfg pin)
      (fun resp x' => resp.ok = true → PinUnlocked E κ pin x₀ x') x := by
  have hfail : ∀ {resp : ControlResponse} {x'}, resp.ok = false → resp.ok = true → PinUnlocked E κ pin x₀ x' :=
    fun hno hok => absurd (hno.symm.trans hok) Bool.false_ne_true
  refine wp_perform_bind.2 ⟨trivial, fun cache hcache => ?_⟩
  have hread : cache = x₀.1.localKeyCacheData := hcache.1.trans hc
  have hx₁ := hx.next (E := E) (o := .readLocalKeyCache) rfl cache
  cases cache with
  | none => exact hfail rfl
  | some c =>
    cases hopen : decryptEnvelopeLocalKeyCacheWithPin E c pin with
    | error e =>
      dsimp only
      rw [hopen]
      exact hfail rfl
    | ok opened =>
      obtain ⟨json, key⟩ := opened
      dsimp only
      rw [hopen]
      refine wp_bind .. |>.2
        (((pinSlotSteps_migratePinSlotIfNeeded E c key pin).keepsNative.wp hx₁).post fun _ x₂ hx₂ => ?_)
      refine wp_bind .. |>.2 ((wp_enroll_keyring hmulti hx₂ key).post fun _ x₃ hx₃ => ?_)
      by_cases hjson : ∃ keys, E.keysFromJson json = .ok keys
      · obtain ⟨keys, hkeys⟩ := hjson
        have hrest : KeepsNative (do
            op (.writeLocalCacheKey (some key))
            let resp ← finishUnlockWithJson E json "Vault unlocked via PIN local key cache"
            if resp.ok then
              tryRestoreApiSession E cfg pin
              let _ ← resolvePendingSync E cfg
              return resp
            else return resp) :=
          .bind (keepsNative_op rfl) fun _ =>
            .bind (loadingSteps_finishUnlockWithJson E json _).keepsNative fun resp =>
            .ite (.bind (keepsNative_tryRestoreApiSession E cfg pin) fun _ =>
              .bind (pendingSyncSteps_resolvePendingSync E cfg).keepsNative fun _ => trivial) trivial
        exact (hrest.wp_repaired hx₃).post fun _ x' hx' _ => ⟨c, keys, key, hread.symm, ⟨json, hopen, hkeys⟩, hx'⟩
      · refine wp_perform_bind.2 ⟨trivial, fun _ _ => ?_⟩
        unfold finishUnlockWithJson
        split
        · exact hfail rfl
        · exact absurd ⟨_, ‹_›⟩ hjson

theorem wp_handleUnlockPin_keyring (hmulti : cfg.multiDevice = true) (hl : x.1.vaultLocked = true) :
    wp (keyringMachine E κ) (fun _ _ => True) (handleUnlockPin E cfg pin)
      (fun resp x' => resp.ok = true → PinUnlocked E κ pin x x') x := by
  refine wp_perform_bind.2 ⟨trivial, fun locked hlocked => ?_⟩
  obtain rfl : locked = true := hlocked.1.trans hl
  refine wp_bind .. |>.2 ⟨trivial, fun now _ => ⟨trivial, fun wait _ => ?_⟩⟩
  cases wait with
  | some wait => exact fun hok => absurd hok Bool.false_ne_true
  | none =>
    refine wp_bind .. |>.2 ((wp_unlockPinBlock_keyring hmulti ⟨rfl, rfl⟩ rfl).post fun resp x₁ hx₁ => ?_)
    cases hok : resp.ok with
    | true =>
      obtain ⟨c, keys, key, hc, ho, hr⟩ := hx₁ hok
      have hrest : KeepsNative (do
          let delay ← recordPinAttempt true
          if delay ≠ 0 then
            op (.sleep delay)
            return resp
          else return resp) :=
        .bind (pinSteps_recordPinAttempt _).keepsNative fun _ =>
          .ite (.bind (keepsNative_op rfl) fun _ => trivial) trivial
      exact (hrest.wp_repaired hr).post fun _ x' hx' _ => ⟨c, keys, key, hc, ho, hx'⟩
    | false =>
      have hno : ∀ {x'}, resp.ok = true → PinUnlocked E κ pin x x' := fun h =>
        absurd (hok.symm.trans h) Bool.false_ne_true
      refine wp_bind .. |>.2 ⟨trivial, fun _ _ => ⟨trivial, fun delay _ => ?_⟩⟩
      exact (wp_ite ..).2 ⟨fun _ => ⟨trivial, fun _ _ => hno⟩, fun _ => hno⟩

/-- What the base64 of the crates promises. -/
def ReadsBack (E : Crates) : Prop := ∀ bytes, E.base64Decode (E.base64Encode bytes) = some bytes

theorem decode_encodeSymmetricKey (hE : ReadsBack E) {encoded : String}
    (h : decodeSymmetricKey E encoded = .ok key) :
    decodeSymmetricKey E (encodeSymmetricKey E key) = .ok key := by
  unfold decodeSymmetricKey at h
  split at h
  · cases h
  · rename_i material _
    split at h
    · cases h
    · rename_i hlen
      obtain rfl := Except.ok.inj h
      simp only [not_not] at hlen
      rw [decodeSymmetricKey, encodeSymmetricKey, hE, List.take_append_drop]
      simp [hlen]

theorem decode_of_openPinSlot {slots : LocalCacheKeySlots} (h : openPinSlot E slots pin = .ok key) :
    ∃ encoded, decodeSymmetricKey E encoded = .ok key := by
  unfold openPinSlot at h
  split at h
  · cases h
  · split at h
    · cases h
    · split at h
      · cases h
      · split at h
        · cases h
        · rename_i encoded _ _ hd
          obtain rfl := Except.ok.inj h
          exact ⟨_, hd⟩

theorem Repaired.unlocksNatively_iff (hE : ReadsBack E) (hmulti : cfg.multiDevice = true)
    {x' : Daemon × κ.State} (hrun : x'.1.agent.isRunning = true) (ho : Opens E c pin keys key)
    (h : Repaired E κ key x.1.disk.unlockSlots x.2 x') :
    UnlocksNatively E κ cfg c keys x' ↔ SlotFits E κ c keys x := by
  rw [SshWarden.unlocksNatively_iff hmulti hrun]
  cases h with
  | @kept slot hs hx =>
    have hslot : nativeSlot x'.1 = some slot := by rw [nativeSlot, hx.slots, hs]
    rw [hx.keyring, hslot]
    constructor
    · rintro ⟨slot', hs', hopens⟩ slot'' hs''
      obtain rfl := Option.some.inj hs'
      obtain rfl := Option.some.inj (hs.symm.trans hs'')
      exact hopens
    · exact fun hfits => ⟨slot, rfl, hfits slot hs⟩
  | @enrolled slots' k' slot hnone hs hd hx =>
    refine iff_of_true ⟨slot, by rw [nativeSlot, hx.slots, hs], ?_⟩ fun slot hslot => ?_
    · obtain ⟨json, hopen, hkeys⟩ := ho
      obtain ⟨key', hpin, hpayload⟩ := except_bind_ok hopen
      obtain rfl := key_of_decryptEnvelopePayload hpayload
      obtain ⟨encoded, hdecode⟩ := decode_of_openPinSlot hpin
      exact ⟨_, _, json, hx.keyring ▸ hd, decode_encodeSymmetricKey hE hdecode, hpayload, hkeys⟩
    · exact nomatch hnone.symm.trans hslot

/-! ### The life of a device -/

/-- What happens to a device: its daemon first starts without slots, its turns follow, it starts again with the
files it has, and other devices put their caches in the place of the shared one. -/
inductive History (E : Crates) (κ : Keyring) (cfg₀ cfg : Config) : Daemon × κ.State → Prop
  | enter {s : Daemon} {k : κ.State} {tr : List Event} {x : Daemon × κ.State} (hs : s.Fresh)
      (hslots : s.disk.unlockSlots = none)
      (h : Steps (keyringMachine E κ) (startUp E cfg₀) (s, k) tr (.ret (some cfg)) x) : History E κ cfg₀ cfg x
  | restart {x x' : Daemon × κ.State} {tr : List Event} (hx : History E κ cfg₀ cfg x)
      (h : Steps (keyringMachine E κ) (startUp E cfg₀) ({ disk := x.1.disk, clock := x.1.clock }, x.2) tr
        (.ret (some cfg)) x') : History E κ cfg₀ cfg x'
  | event {x x' : Daemon × κ.State} {s₁ : Daemon} {ev : MainEvent} {tr : List Event}
      (hx : History E κ cfg₀ cfg x) (hr : Receives x.1 ev s₁)
      (h : Steps (keyringMachine E κ) (mainStep E cfg ev) (s₁, x.2) tr (.ret ()) x') : History E κ cfg₀ cfg x'
  | dropped {x x' : Daemon × κ.State} {action : ControlAction} {tr : List Event} {p : DProg Unit}
      (hx : History E κ cfg₀ cfg x) (hr : action ≠ .stop)
      (h : Steps (keyringMachine E κ) (mainStep E cfg (.control action)) x tr p x') (hd : Dropped p) :
      History E κ cfg₀ cfg x'
  | arrives {x : Daemon × κ.State} {s' : Daemon} (hx : History E κ cfg₀ cfg x) (ha : Arrives x.1 s') :
      History E κ cfg₀ cfg (s', x.2)
  | request {x x' : Daemon × κ.State} {request : SshAgentUIRequest} {tr : List Event}
      (hx : History E κ cfg₀ cfg x)
      (h : Steps (keyringMachine E κ) (handleUiRequest E cfg request) x tr (.ret ()) x') : History E κ cfg₀ cfg x'
  | shared {x : Daemon × κ.State} (hx : History E κ cfg₀ cfg x) (c : LocalKeyCacheFile) :
      History E κ cfg₀ cfg ({ x.1 with disk := { x.1.disk with localKeyCache := some c } }, x.2)

theorem History.isRunning {cfg₀ : Config} {x : Daemon × κ.State} (h : History E κ cfg₀ cfg x) :
    x.1.agent.isRunning = true := by
  induction h with
  | enter hs _ h => exact (Started.mk hs (Steps.of_keyring h)).isRunning
  | @restart x _ _ _ h _ =>
    have hs : Daemon.Fresh { disk := x.1.disk, clock := x.1.clock } := rfl
    exact (Started.mk hs (Steps.of_keyring h)).isRunning
  | event _ hr h ih => exact Step.isRunning (.event hr (Steps.of_keyring h)) ih
  | dropped _ hr h hd ih => exact Step.isRunning (.dropped hr (Steps.of_keyring h) hd) ih
  | arrives _ ha ih =>
    cases ha
    exact ih
  | request _ h ih => exact isRunning_of_steps (Steps.of_keyring h) ih
  | shared _ _ ih => exact ih

/-- After every successful `unlock --pin` on a device in multi-device mode a native unlock with the same
cache succeeds and yields the same keys exactly where the command, having read the shared cache again, has
found no native slot of the device, or one that holds a key of this cache. -/
theorem nativeUnlock_after_pin_iff (hE : ReadsBack E) (hmulti : cfg.multiDevice = true) {cfg₀ : Config}
    {x₀ x' : Daemon × κ.State} (hx : History E κ cfg₀ cfg x₀) (hl : x₀.1.vaultLocked = true)
    {tr : List Event} {resp : ControlResponse}
    (h : Steps (keyringMachine E κ) (handleControlCommand E cfg (.unlockPin pin)) x₀ tr (.ret resp) x')
    (hok : resp.ok = true) :
    ∃ tr₁ x c keys key, Steps (keyringMachine E κ) (reloadSharedLocalCacheFromDiskIfMultiDevice cfg) x₀ tr₁
      (.ret ()) x ∧ x.1.localKeyCacheData = some c ∧ Opens E c pin keys key ∧
      (UnlocksNatively E κ cfg c keys x' ↔ SlotFits E κ c keys x) := by
  obtain ⟨pre, post, u, x, hreload, hcommand, -⟩ := h.of_bind
  have hlocked : x.1.vaultLocked = true := by
    have hsame := Only.steps (M := machine E) (I := fun s : Daemon => s.vaultLocked = true) (inner_reload cfg)
      (fun o s a ho hs _ => (sameLock_next E (Op.isSteady_of_isInner ho) s a).vaultLocked.trans hs) hl
      (Steps.of_keyring hreload)
    exact hsame
  obtain ⟨c, keys, key, hc, ho, hr⟩ := (wp_handleUnlockPin_keyring hmulti hlocked).of_ret hcommand hok
  have hrun := isRunning_of_steps (Steps.of_keyring h) hx.isRunning
  exact ⟨pre, x, c, keys, key, hreload, hc, ho, hr.unlocksNatively_iff hE hmulti hrun ho⟩

/-- The Secret Service keeps one secret for the program; every slot names it. -/
def secretService : Keyring where
  State := Option String
  encrypt _ secret := (some secret, "secret-service:application=sshwarden;kind=local-cache-key")
  decrypt stored _ :=
    match stored with
    | some secret => .ok secret
    | none => .error "secret-tool lookup failed"
  delete _ _ := none
  decrypt_encrypt _ _ := rfl

/-- A scripted environment in which the keyring answers for itself. -/
def keyringAnswer (κ : Keyring) (sc : Script) : (o : Op) → Daemon × κ.State → o.Ans
  | .nativeAvailable, _ => true
  | .nativeEncrypt secret, x => .ok (κ.encrypt x.2 secret).2
  | .nativeDecrypt slot, x => κ.decrypt x.2 slot
  | o, x => sc.answer o x.1

theorem ready_keyringAnswer (κ : Keyring) (sc : Script) (o : Op) (x : Daemon × κ.State) :
    (keyringMachine E κ).ready o x (keyringAnswer κ sc o x) := by
  have hsc := Script.ready_answer E sc o x.1
  cases o with
  | nativeAvailable | nativeEncrypt secret | nativeDecrypt slot => exact ⟨trivial, rfl⟩
  | loadUnlockSlots | saveUnlockSlots f => exact ⟨hsc, rfl⟩
  | _ => exact ⟨hsc, trivial⟩

/-- A program run to its end on a device with the Secret Service. -/
def playProgram {α : Type} (sc : Script) (p : DProg α) (x : Daemon × Option String) :
    Option (α × (Daemon × Option String)) :=
  let end_ := exec (keyringMachine .plain secretService) (keyringAnswer secretService sc) enough p x
  end_.1.result?.map (·, end_.2)

theorem steps_playProgram {sc : Script} {p : DProg α} {x x' : Daemon × Option String} {a : α}
    (h : playProgram sc p x = some (a, x')) :
    ∃ tr, Steps (keyringMachine .plain secretService) p x tr (.ret a) x' := by
  obtain ⟨b, hb, heq⟩ := Option.map_eq_some_iff.1 h
  obtain ⟨rfl, rfl⟩ := Prod.mk.inj heq
  have hsteps := exec_steps (keyringMachine .plain secretService) (keyringAnswer secretService sc)
    (ready_keyringAnswer secretService sc) enough p x
  rw [eq_ret_of_result? hb] at hsteps
  exact ⟨_, hsteps⟩

/-- A device that has set a PIN at its first login, and has then been locked. -/
def lockedDevice (sc : Script) : Option (Config × (Daemon × Option String)) :=
  (playProgram sc (startUp .plain { plainConfig with multiDevice := true }) ({}, none)).bind fun r =>
    r.1.bind fun cfg => (playProgram sc (mainStep .plain cfg (.control .lock)) r.2).map (cfg, ·.2)

theorem history_lockedDevice {sc : Script} {cfg : Config} {x : Daemon × Option String}
    (h : lockedDevice sc = some (cfg, x)) :
    History .plain secretService { plainConfig with multiDevice := true } cfg x := by
  obtain ⟨⟨cfg', x₁⟩, hstart, h⟩ := Option.bind_eq_some_iff.1 h
  obtain ⟨cfg'', rfl, h⟩ := Option.bind_eq_some_iff.1 h
  obtain ⟨⟨u, x₂⟩, hlock, heq⟩ := Option.map_eq_some_iff.1 h
  obtain ⟨rfl, rfl⟩ := Prod.mk.inj heq
  obtain ⟨tr₁, hs⟩ := steps_playProgram hstart
  obtain ⟨tr₂, hl⟩ := steps_playProgram hlock
  have fresh : Daemon.Fresh {} := rfl
  exact .event (.enter fresh rfl hs) (.control .lock (by decide)) hl

/-- A device that finds the shared cache of another at its first start. -/
def joinedDevice : Option (Config × (Daemon × Option String)) :=
  (lockedDevice plainScript).bind fun other =>
    (playProgram plainScript (startUp .plain { plainConfig with multiDevice := true })
      ({ disk := { localKeyCache := other.2.1.disk.localKeyCache } }, none)).bind fun r =>
        r.1.map (·, r.2)

def otherKey : SymmetricKey := ⟨List.replicate 32 3, List.replicate 32 4⟩

/-- A device with a slot of its own, after another has made the shared cache anew with the same PIN. -/
def staleDevice : Option (Config × (Daemon × Option String)) :=
  (lockedDevice plainScript).bind fun own =>
    (lockedDevice { plainScript with lockCacheKey := otherKey }).bind fun other =>
      other.2.1.disk.localKeyCache.map fun c =>
        (own.1, ({ own.2.1 with disk := { own.2.1.disk with localKeyCache := some c } }, own.2.2))

/-- The device is locked and the PIN unlocks it. -/
def pinUnlocks (r : Config × (Daemon × Option String)) : Bool :=
  r.1.multiDevice && r.2.1.vaultLocked &&
    (playProgram plainScript (handleControlCommand .plain r.1 (.unlockPin "1234")) r.2).any fun u => u.1.ok

/-- The PIN unlocks the device, and a native unlock with the same cache fails after it. -/
def staysBroken (r : Config × (Daemon × Option String)) : Bool :=
  r.2.1.vaultLocked &&
    (playProgram plainScript (handleControlCommand .plain r.1 (.unlockPin "1234")) r.2).any fun u =>
      u.1.ok && u.2.1.localKeyCacheData.any fun c =>
        (playProgram plainScript (finishNativeUnlockResponse .plain r.1 c "") u.2).any fun n => !n.1.ok

theorem readsBack_plain : ReadsBack .plain := fun bytes => by simp [Crates.plain, Plain.map_text]

/-- A device that joins later gets a slot with its first PIN unlock. -/
theorem nativeUnlock_after_pin_iff_joined : ∃ cfg x₀ tr resp x', cfg.multiDevice = true ∧
    History .plain secretService { plainConfig with multiDevice := true } cfg x₀ ∧ x₀.1.vaultLocked = true ∧
    Steps (keyringMachine .plain secretService) (handleControlCommand .plain cfg (.unlockPin "1234")) x₀ tr
      (.ret resp) x' ∧ resp.ok = true ∧
    ∃ tr₁ x c keys key, Steps (keyringMachine .plain secretService)
        (reloadSharedLocalCacheFromDiskIfMultiDevice cfg) x₀ tr₁ (.ret ()) x ∧
      x.1.localKeyCacheData = some c ∧ Opens .plain c "1234" keys key ∧
      (UnlocksNatively .plain secretService cfg c keys x' ↔ SlotFits .plain secretService c keys x) := by
  obtain ⟨⟨cfg, x⟩, hjoined, hpin⟩ := (Option.any_eq_true _ _).1
    (show joinedDevice.any pinUnlocks = true by decide +kernel)
  obtain ⟨⟨cfg₁, x₁⟩, -, hjoined⟩ := Option.bind_eq_some_iff.1 hjoined
  obtain ⟨⟨cfg₂, x₂⟩, hstart, hjoined⟩ := Option.bind_eq_some_iff.1 hjoined
  obtain ⟨cfg₃, rfl, heq⟩ := Option.map_eq_some_iff.1 hjoined
  obtain ⟨rfl, rfl⟩ := Prod.mk.inj heq
  simp only [pinUnlocks, Bool.and_eq_true] at hpin
  obtain ⟨⟨hmulti, hl⟩, hu⟩ := hpin
  obtain ⟨⟨resp, x'⟩, hunlock, hok⟩ := (Option.any_eq_true _ _).1 hu
  obtain ⟨tr₁, hs⟩ := steps_playProgram hstart
  obtain ⟨tr, h⟩ := steps_playProgram hunlock
  have fresh : Daemon.Fresh { disk := { localKeyCache := x₁.1.disk.localKeyCache } } := rfl
  have hx : History .plain secretService { plainConfig with multiDevice := true } cfg₃ x₂ := .enter fresh rfl hs
  exact ⟨cfg₃, x₂, tr, resp, x', hmulti, hx, hl, h, hok,
    nativeUnlock_after_pin_iff readsBack_plain hmulti hx hl h hok⟩

/-- A slot with the key of an earlier cache is left as it is: the PIN unlock does not repair it. -/
theorem pinUnlock_keeps_stale_slot : ¬∀ cfg x₀ tr resp x' c,
    History .plain secretService { plainConfig with multiDevice := true } cfg x₀ → x₀.1.vaultLocked = true →
    Steps (keyringMachine .plain secretService) (handleControlCommand .plain cfg (.unlockPin "1234")) x₀ tr
      (.ret resp) x' → resp.ok = true → x'.1.localKeyCacheData = some c →
    UnlocksNatively .plain secretService cfg c x'.1.cachedKeyTuples x' := by
  intro hall
  obtain ⟨⟨cfg, x⟩, hstale, hbroken⟩ := (Option.any_eq_true _ _).1
    (show staleDevice.any staysBroken = true by decide +kernel)
  obtain ⟨⟨cfg₁, x₁⟩, hown, hstale⟩ := Option.bind_eq_some_iff.1 hstale
  obtain ⟨⟨cfg₂, x₂⟩, -, hstale⟩ := Option.bind_eq_some_iff.1 hstale
  obtain ⟨c', -, heq⟩ := Option.map_eq_some_iff.1 hstale
  obtain ⟨rfl, rfl⟩ := Prod.mk.inj heq
  rw [staysBroken, Bool.and_eq_true] at hbroken
  obtain ⟨hl, hu⟩ := hbroken
  obtain ⟨⟨resp, x'⟩, hunlock, hu⟩ := (Option.any_eq_true _ _).1 hu
  rw [Bool.and_eq_true] at hu
  obtain ⟨hok, hn⟩ := hu
  obtain ⟨c, hc, hn⟩ := (Option.any_eq_true _ _).1 hn
  obtain ⟨⟨resp', x''⟩, hnative, hno⟩ := (Option.any_eq_true _ _).1 hn
  obtain ⟨tr, h⟩ := steps_playProgram hunlock
  obtain ⟨tr', h'⟩ := steps_playProgram hnative
  have hgood := hall cfg₁ _ tr resp x' c (.shared (history_lockedDevice hown) c') hl h hok hc
  obtain ⟨hok', -, -⟩ := hgood "" tr' resp' x'' h'
  exact absurd (hok'.symm.trans (by simpa using hno)) (by simp)

end SshWarden
