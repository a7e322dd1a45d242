import SshWarden.PinEntries

/-!
# Where the entry points disagree

Where the command has something to prepare that a dialog does not, two attempts tell them apart: in a
calm environment (nothing is in the way of the PIN, and neither the session nor the server is at hand)
the vault an entry point leaves behind is known exactly. `pinEntries_agree_iff` puts both directions
together.
-/

namespace SshWarden
open Prog

variable {E : Crates} {cfg : Config} {α β : Type}

/-- The clock reads at least `after`; whether the cache file can be written and the device has a keyring;
and what the next random bytes are. -/
structure Calm where
  after : Nat
  saves : Bool := false
  enrols : Bool := false
  iv : Bytes := []
  salt : Bytes := []

def Calm.answers (m : Calm) : Event → Prop
  | ⟨.now, now⟩ => m.after ≤ now
  | ⟨.loadSession, r⟩ => r.toOption.isSome = false
  | ⟨.fetchSync _, r⟩ => r.toOption.isSome = false
  | ⟨.nativeDecrypt _, r⟩ => r.toOption.isSome = false
  | ⟨.saveLocalKeyCache _, r⟩ => r.toOption.isSome = m.saves
  | ⟨.saveUnlockSlots _, r⟩ => r.toOption.isSome = true
  | ⟨.nativeAvailable, available⟩ => available = m.enrols
  | ⟨.nativeEncrypt _, r⟩ => r.toOption.isSome = true
  | ⟨.randomIv, iv⟩ => iv = m.iv
  | ⟨.randomPinSalt, salt⟩ => salt = m.salt
  | _ => True

/-- The answers of a calm environment in which the PIN is entered. -/
def Calm.answersPin (m : Calm) (pin : String) (e : Event) : Prop := AnswersPin pin e ∧ m.answers e

variable {pin : String} {t t' s : Daemon} {l : PinLog} {x : Daemon × PinLog} {m : Calm}
  {cache c : LocalKeyCacheFile} {keys : List KeyTuple} {key : SymmetricKey} {json : String}

theorem Calm.exists_ready (m : Calm) (pin : String) (o : Op) (x : Daemon × PinLog) :
    ∃ a, (pinMachine E (m.answersPin pin)).ready o x a := by
  obtain ⟨a, ha⟩ := SshWarden.exists_ready E o x.1
  cases o with
  | now => exact ⟨max m.after x.1.clock, Nat.le_max_right .., trivial, Nat.le_max_left ..⟩
  | loadUnlockSlots => exact ⟨.ok x.1.disk.unlockSlots, fun f h => (Except.ok.inj h).symm, rfl, trivial⟩
  | loadSession => exact ⟨.error "", fun f h => (nomatch h), trivial, rfl⟩
  | fetchSync c => exact ⟨.error "", trivial, trivial, rfl⟩
  | nativeDecrypt slot => exact ⟨.error "", trivial, trivial, rfl⟩
  | saveLocalKeyCache c =>
    cases hm : m.saves with
    | true => exact ⟨.ok (), trivial, trivial, hm.symm⟩
    | false => exact ⟨.error "", trivial, trivial, hm.symm⟩
  | saveUnlockSlots f => exact ⟨.ok (), trivial, trivial, rfl⟩
  | nativeAvailable => exact ⟨m.enrols, trivial, trivial, rfl⟩
  | nativeEncrypt encoded => exact ⟨.ok "", trivial, trivial, rfl⟩
  | randomIv => exact ⟨m.iv, trivial, trivial, rfl⟩
  | randomPinSalt => exact ⟨m.salt, trivial, trivial, rfl⟩
  | pinDialog context => exact ⟨[pin], trivial, rfl, trivial⟩
  | _ => exact ⟨a, ha, trivial, trivial⟩

/-- A vault that has just been unlocked stays as it is. -/
theorem finish_calm (E : Crates) (cfg : Config) (m : Calm) (pin : String) :
    Finish E cfg (m.answersPin pin) pin fun t => At t { checked := true, unlocked := true } where
  bystander a ho hx := hx.next ho a
  tail := by
    intro t x hx
    have hsession : wp (pinMachine E (m.answersPin pin)) (fun _ _ => True) (tryRestoreApiSession E cfg pin)
        (fun _ => At t { checked := true, unlocked := true }) x := by
      refine wp_bystander rfl hx fun client x₁ _ hx₁ => (wp_ite ..).2 ⟨fun _ => hx₁, fun _ => ?_⟩
      refine wp_bind .. |>.2 (wp_bystander rfl hx₁ fun session x₂ hsession hx₂ => ?_)
      cases session with
      | error e => exact hx₂
      | ok session => exact absurd hsession.2.2.symm Bool.false_ne_true
    refine wp_bind .. |>.2 (hsession.post fun _ x₁ hx₁ => wp_bystander rfl hx₁ fun pending x₂ _ hx₂ => ?_)
    refine (wp_ite ..).2 ⟨fun _ => hx₂, fun _ => wp_bind .. |>.2 ?_⟩
    have hsync : wp (pinMachine E (m.answersPin pin)) (fun _ _ => True) (doSync E cfg)
        (fun r x' => At t { checked := true, unlocked := true } x' ∧ ∀ n, r ≠ .ok n) x₂ := by
      have hfail : ∀ {x'} (e : String), At t { checked := true, unlocked := true } x' →
          wp (pinMachine E (m.answersPin pin)) (fun _ _ => True)
            (do op (.release .apiClient); return (.error e : Except String Nat))
            (fun r x' => At t { checked := true, unlocked := true } x' ∧ ∀ n, r ≠ .ok n) x' :=
        fun e hx' => wp_bystander rfl hx' fun _ _ _ hx₁ => ⟨hx₁, fun _ h => nomatch h⟩
      refine wp_bystander rfl hx₂ fun _ x₃ _ hx₃ => wp_bystander rfl hx₃ fun client x₄ _ hx₄ => ?_
      cases client with
      | none => exact hfail _ hx₄
      | some client =>
        refine (wp_ite ..).2 ⟨fun _ => hfail _ hx₄, fun _ => wp_bind .. |>.2 ?_⟩
        have hfetch : wp (pinMachine E (m.answersPin pin)) (fun _ _ => True) (syncSshKeys client)
            (fun r x' => At t { checked := true, unlocked := true } x' ∧ ∃ e, r = .error e) x₄ := by
          refine (wp_ite ..).2 ⟨fun _ => ⟨hx₄, _, rfl⟩,
            fun _ => (wp_ite ..).2 ⟨fun _ => ⟨hx₄, _, rfl⟩, fun _ => ?_⟩⟩
          refine ⟨trivial, fun r hr => ⟨hx₄.next (o := .fetchSync client) rfl r, ?_⟩⟩
          cases r with
          | error e => exact ⟨e, rfl⟩
          | ok keys => exact absurd hr.2.2.symm Bool.false_ne_true
        refine hfetch.post fun r x₅ hx₅ => ?_
        obtain ⟨hx₅, e, rfl⟩ := hx₅
        exact hfail _ hx₅
    refine hsync.post fun r x₃ hx₃ => ?_
    cases r with
    | ok n => exact absurd rfl (hx₃.2 n)
    | error e => exact wp_bystander rfl hx₃.1 fun _ _ _ hx₄ => hx₄

/-! ### The throttle is asked -/

/-- No lockout is left from when the clock can be read. -/
def Calm.Unlocks (m : Calm) (x : Daemon × PinLog) : Prop :=
  ∀ now, m.after ≤ now → (x.1.pinFailures.lockoutRemaining now).1 = none

theorem lockoutRemaining_eq_none {f : PinFailureState} {now : Nat} (h : f.lockedUntil.getD 0 ≤ now) :
    (f.lockoutRemaining now).1 = none := by
  unfold PinFailureState.lockoutRemaining
  cases hf : f.lockedUntil with
  | none => rfl
  | some until_ =>
    rw [hf] at h
    have hle : ¬until_ > now := Nat.not_lt.2 h
    simp [hle]

/-- Operations that leave the throttle alone. -/
def Op.keepsFailures : Op → Bool
  | checkPinLockout _ | recordPin _ _ => false
  | _ => true

theorem pinFailures_next (E : Crates) {o : Op} (h : o.keepsFailures = true) (s : Daemon) (a : o.Ans) :
    (next E o s a).pinFailures = s.pinFailures := by
  cases o <;> first | rfl | (cases a <;> rfl) | exact absurd h Bool.false_ne_true

theorem wp_checked {A : Event → Prop} {p : DProg α} (hx : x.2.checked = true) :
    wp (pinMachine E A) (fun _ _ => True) p (fun _ x' => x'.2.checked = true) x := by
  refine wp.of_keeps (I := fun x : Daemon × PinLog => x.2.checked = true) (fun o x a hx _ => ?_) p hx
  show (PinLog.after x.2 ⟨o, a⟩).checked = true
  unfold PinLog.after
  split
  · split <;> exact hx
  · split
    · rfl
    · exact hx
    · exact hx

theorem wp_pinLockoutRemaining_asks {f : Option Nat → DProg α} (hm : m.Unlocks x) (hx : x.2.unlocked = false) :
    wp (pinMachine E (m.answersPin pin)) (fun _ _ => True) (pinLockoutRemaining >>= f)
      (fun _ x' => x'.2.checked = true) x := by
  refine wp_bind .. |>.2 (wp_perform_bind.2 ⟨trivial, fun now hnow => ⟨trivial, fun wait hwait => ?_⟩⟩)
  obtain rfl : wait = none := hwait.1.trans (hm now hnow.2.2)
  refine wp_checked ?_
  obtain ⟨s, checked, unlocked, aftermath⟩ := x
  obtain rfl : unlocked = false := hx
  rfl

/-- The attempt has not begun, and nothing is in its way. -/
structure Poised (m : Calm) (t : Daemon) (x : Daemon × PinLog) : Prop where
  start : At t {} x
  unlocks : m.Unlocks x

theorem wp_poised {A : Event → Prop} {o : Op} {f : o.Ans → DProg β} {Q : β → Daemon × PinLog → Prop}
    (ho : o.isBystander = true) (hf : o.keepsFailures = true) (hx : Poised m t x)
    (h : ∀ a x', (pinMachine E A).ready o x a → Poised m t x' →
      wp (pinMachine E A) (fun _ _ => True) (f a) Q x') :
    wp (pinMachine E A) (fun _ _ => True) (op o >>= f) Q x := by
  refine wp_perform_bind.2 ⟨trivial, fun a ha => h a _ ha ⟨hx.start.next ho a, fun now hnow => ?_⟩⟩
  have hsame : ((pinMachine E A).next o x a).1.pinFailures = x.1.pinFailures := pinFailures_next E hf x.1 a
  rw [hsame]
  exact hx.unlocks now hnow

theorem Poised.wp_asks {f : Option Nat → DProg α} (hx : Poised m t x) :
    wp (pinMachine E (m.answersPin pin)) (fun _ _ => True) (pinLockoutRemaining >>= f)
      (fun _ x' => x'.2.checked = true) x :=
  wp_pinLockoutRemaining_asks hx.unlocks (congrArg PinLog.unlocked hx.start.log)

theorem wp_handleUnlockPin_asks (hx : Poised m t x) (hl : t.vaultLocked = true) :
    wp (pinMachine E (m.answersPin pin)) (fun _ _ => True) (handleUnlockPin E cfg pin)
      (fun _ x' => x'.2.checked = true) x := by
  refine wp_poised rfl rfl hx fun locked x₁ hlocked hx₁ => ?_
  obtain rfl : locked = true := hlocked.1.trans (hx.start.locked.trans hl)
  exact hx₁.wp_asks

/-- The keyring opens nothing. -/
theorem wp_decryptWithNative_calm (hx : Poised m t x) (c : LocalKeyCacheFile) :
    wp (pinMachine E (m.answersPin pin)) (fun _ _ => True) (decryptEnvelopeLocalKeyCacheWithNative E cfg c)
      (fun r x' => (∃ e, r = .error e) ∧ Poised m t x') x := by
  have hslot : wp (pinMachine E (m.answersPin pin)) (fun _ _ => True) (currentNativeUnlockSlot cfg c)
      (fun _ => Poised m t) x := by
    refine wp_bind .. |>.2 (wp_poised rfl rfl hx fun slots x₁ _ hx₁ => ?_)
    cases slots with
    | error e => exact (wp_ite ..).2 ⟨fun _ => hx₁, fun _ => hx₁⟩
    | ok slots => exact (wp_ite ..).2 ⟨fun _ => hx₁, fun _ => hx₁⟩
  refine wp_bind .. |>.2 (hslot.post fun slot x₁ hx₁ => ?_)
  cases slot with
  | none => exact ⟨⟨_, rfl⟩, hx₁⟩
  | some slot =>
    refine wp_poised rfl rfl hx₁ fun r x₂ hr hx₂ => ?_
    cases r with
    | error e => exact ⟨⟨_, rfl⟩, hx₂⟩
    | ok encoded => exact absurd hr.2.2.symm Bool.false_ne_true

theorem wp_handleUnlockDialog_asks (hx : Poised m t x) (hc : t.localKeyCacheData = some c)
    (hauto : cfg.autoUnlockOnRequest = true) (hslot : c.localCacheKey.pinEncrypted.isSome = true) :
    wp (pinMachine E (m.answersPin pin)) (fun _ _ => True) (handleUnlockDialog E cfg)
      (fun _ x' => x'.2.checked = true) x := by
  refine (wp_ite ..).2 ⟨fun _ => ?_, fun hoff => absurd hauto hoff⟩
  refine wp_poised rfl rfl hx fun cache x₁ hcache hx₁ => ?_
  have hread : cache = some c := hcache.1.trans (hx.start.memory.trans hc)
  have hfilter : cache.filter (fun c => c.localCacheKey.pinEncrypted.isSome) = some c := by
    rw [hread, Option.filter_some, if_pos hslot]
  dsimp only
  rw [hfilter]
  refine wp_bind .. |>.2 (wp_poised rfl rfl hx₁ fun pins x₂ hpins hx₂ => ?_)
  obtain rfl : pins = [pin] := hpins.2.1
  have hvalidated : wp (pinMachine E (m.answersPin pin)) (fun _ _ => True)
      (validateSubmitted (pinValidator E c) [pin]) (fun _ x' => x'.2.checked = true) x₂ :=
    wp_bind .. |>.2 (hx₂.wp_asks.post fun _ _ hx => wp_checked hx)
  exact hvalidated.post fun _ _ hx => wp_checked hx

theorem wp_handleUnlock_asks (hx : Poised m t x) (hl : t.vaultLocked = true)
    (hc : t.localKeyCacheData = some c) (hauto : cfg.autoUnlockOnRequest = true)
    (hslot : c.localCacheKey.pinEncrypted.isSome = true) :
    wp (pinMachine E (m.answersPin pin)) (fun _ _ => True) (handleUnlock E cfg)
      (fun _ x' => x'.2.checked = true) x := by
  refine wp_poised rfl rfl hx fun locked x₁ hlocked hx₁ => ?_
  obtain rfl : locked = true := hlocked.1.trans (hx.start.locked.trans hl)
  refine wp_poised rfl rfl hx₁ fun _ x₂ _ hx₂ => wp_poised rfl rfl hx₂ fun cache x₃ hcache hx₃ => ?_
  obtain rfl : cache = some c := hcache.1.trans (hx₂.start.memory.trans hc)
  refine wp_bind .. |>.2 (wp_bind .. |>.2 ((wp_decryptWithNative_calm hx₃ c).post ?_))
  rintro - x₄ ⟨⟨e, rfl⟩, hx₄⟩
  exact wp_poised rfl rfl hx₄ fun _ x₅ _ hx₅ => wp_handleUnlockDialog_asks hx₅ hc hauto hslot

/-- The cache in memory and the device's slots after the preparation of a command that has opened `c` with
these slots. -/
structure Prepared (m : Calm) (cfg : Config) (c : LocalKeyCacheFile) (slots : Option UnlockSlotsFile)
    (memory : Option LocalKeyCacheFile) (slots' : Option UnlockSlotsFile) : Prop where
  kept : m.saves = false → memory = some c
  migrated : m.saves = true → needsPinSaltMigration c = true →
    ∃ c', memory = some c' ∧ needsPinSaltMigration c' = false
  left : m.enrols = false → slots' = slots
  enrolled : m.enrols = true → cfg.multiDevice = true → (slots'.getD {}).nativeEncrypted.isSome

theorem wp_migratePinSlotIfNeeded (hx : At t { checked := true } x)
    (hwrap : m.saves = true → ∃ enc, pinEncryptWithSalt E m.iv (encodeSymmetricKey E key) pin m.salt = .ok enc) :
    wp (pinMachine E (m.answersPin pin)) (fun _ _ => True) (migratePinSlotIfNeeded E c key pin) (fun _ x' =>
      (At t { checked := true } x' ∧ (m.saves = true → needsPinSaltMigration c = false)) ∨
      ∃ c' d, m.saves = true ∧ needsPinSaltMigration c' = false ∧ d.unlockSlots = t.disk.unlockSlots ∧
        At { t with localKeyCacheData := some c', disk := d } { checked := true } x') x := by
  refine (wp_ite ..).2 ⟨fun _ => ?_, fun hno => .inl ⟨hx, fun _ => by simpa using hno⟩⟩
  refine wp_bind .. |>.2 (wp_bind .. |>.2 (wp_bystander rfl hx fun salt x₁ hsalt hx₁ =>
    wp_bystander rfl hx₁ fun iv x₂ hiv hx₂ => ?_))
  obtain rfl : salt = m.salt := hsalt.2.2
  obtain rfl : iv = m.iv := hiv.2.2
  cases henc : pinEncryptWithSalt E m.iv (encodeSymmetricKey E key) pin m.salt with
  | error e =>
    have hfail : ¬m.saves = true := fun hs => by
      obtain ⟨enc, hok⟩ := hwrap hs
      exact nomatch henc.symm.trans hok
    exact .inl ⟨hx₂, fun hs => absurd hs hfail⟩
  | ok enc =>
    refine (wp_ret _).2 (wp_perform_bind.2 ⟨trivial, fun saved hsaved => ?_⟩)
    have hx₃ : ∀ f r, At (next E (.saveLocalKeyCache f) t r) { checked := true }
        ((pinMachine E (m.answersPin pin)).next (.saveLocalKeyCache f) x₂ r) :=
      fun f r => hx₂.prepare rfl (o := .saveLocalKeyCache f) rfl r
    cases saved with
    | error e =>
      exact .inl ⟨hx₃ _ (.error e), fun hs => absurd (hsaved.2.2.trans hs) Bool.false_ne_true⟩
    | ok u =>
      have hs : m.saves = true := hsaved.2.2.symm
      refine ⟨trivial, fun _ _ =>
        .inr ⟨_, _, hs, ?_, ?_, (hx₃ _ (.ok u)).prepare rfl (o := .writeLocalKeyCache _) rfl ()⟩⟩
      · simp [needsPinSaltMigration]
      · rfl

/-- The device's slots after an enrolment that found the vault `t`. -/
structure Enrolled (m : Calm) (cfg : Config) (t : Daemon) (d : Disk) : Prop where
  left : m.enrols = false → d.unlockSlots = t.disk.unlockSlots
  enrolled : m.enrols = true → cfg.multiDevice = true → (d.unlockSlots.getD {}).nativeEncrypted.isSome

theorem wp_enroll_calm (hx : At t { checked := true } x) (key : SymmetricKey) :
    wp (pinMachine E (m.answersPin pin)) (fun _ _ => True) (enrollDevicePlatformSlotsIfMissing E cfg key)
      (fun _ x' => ∃ d, Enrolled m cfg t d ∧ At { t with disk := d } { checked := true } x') x := by
  have hA : ∀ e, m.answersPin pin e → AnswersPin pin e := fun _ h => h.1
  refine (wp_ite ..).2 ⟨fun hsingle => ?_, fun _ => wp_bind .. |>.2 ?_⟩
  · exact ⟨t.disk, ⟨fun _ => rfl, fun _ hm => by simp [hm] at hsingle⟩, hx⟩
  refine (wp_loadDeviceUnlockSlots hA hx).post ?_
  rintro - x₁ ⟨rfl, hx₁⟩
  refine (wp_ite ..).2 ⟨fun _ => wp_bystander rfl hx₁ fun available x₂ ha hx₂ => ?_, fun hsome => ?_⟩
  · obtain rfl : available = m.enrols := ha.2.2
    refine (wp_ite ..).2 ⟨fun he => ?_, fun hno => ⟨t.disk, ⟨fun _ => rfl, fun he => absurd he hno⟩, hx₂⟩⟩
    refine wp_bind .. |>.2 (wp_bystander rfl hx₂ fun r x₃ hr hx₃ => ?_)
    cases r with
    | error e => exact absurd hr.2.2 Bool.false_ne_true
    | ok slot =>
      refine wp_bind .. |>.2 ((wp_loadDeviceUnlockSlots hA hx₃).post ?_)
      rintro - x₄ ⟨rfl, hx₄⟩
      refine ⟨trivial, fun saved hsaved => ?_⟩
      cases saved with
      | error e => exact absurd hsaved.2.2 Bool.false_ne_true
      | ok u =>
        refine ⟨_, ⟨fun hno => ?_, fun _ _ => ?_⟩, hx₄.prepare rfl (o := .saveUnlockSlots _) rfl (.ok u)⟩
        · exact absurd (hno.symm.trans he) Bool.false_ne_true
        · rfl
  · refine ⟨t.disk, ⟨fun _ => rfl, fun _ _ => ?_⟩, hx₁⟩
    cases hn : (t.disk.unlockSlots.getD {}).nativeEncrypted with
    | none => rw [hn] at hsome; exact absurd rfl hsome
    | some slot => rfl

/-- The preparation of a command that has opened the cache in memory. -/
theorem wp_prepare_calm (hx : At t { checked := true } x) (hc : t.localKeyCacheData = some c)
    (hrun : t.agent.isRunning = true)
    (hwrap : m.saves = true → ∃ enc, pinEncryptWithSalt E m.iv (encodeSymmetricKey E key) pin m.salt = .ok enc) :
    wp (pinMachine E (m.answersPin pin)) (fun _ _ => True)
      (do migratePinSlotIfNeeded E c key pin; enrollDevicePlatformSlotsIfMissing E cfg key)
      (fun _ x' => ∃ t', (t'.agent.isRunning = true ∧
        Prepared m cfg c t.disk.unlockSlots t'.localKeyCacheData t'.disk.unlockSlots) ∧
        At t' { checked := true } x') x := by
  refine wp_bind .. |>.2 ((wp_migratePinSlotIfNeeded hx hwrap).post fun _ x₁ hx₁ => ?_)
  rcases hx₁ with ⟨hx₁, hsettled⟩ | ⟨c', d, hsaves, hc', hd, hx₁⟩
  · refine (wp_enroll_calm hx₁ key).post fun _ x₂ ⟨d, hd, hx₂⟩ =>
      ⟨{ t with disk := d }, ⟨hrun, ?_⟩, hx₂⟩
    exact ⟨fun _ => hc, fun hs hneeds => absurd ((hsettled hs).symm.trans hneeds) Bool.false_ne_true, hd.left,
      hd.enrolled⟩
  · refine (wp_enroll_calm hx₁ key).post fun _ x₂ ⟨d', hd', hx₂⟩ =>
      ⟨{ t with localKeyCacheData := some c', disk := d' }, ⟨hrun, ?_⟩, hx₂⟩
    exact ⟨fun hno => absurd (hno.symm.trans hsaves) Bool.false_ne_true, fun _ _ => ⟨c', rfl, hc'⟩,
      fun he => (hd'.left he).trans hd, hd'.enrolled⟩

/-- A calm attempt on `c` has unlocked the vault if the PIN opens it, with `R` of the cache in memory and the
device's slots, and nothing has happened since. -/
structure Outcome (E : Crates) (pin : String) (c : LocalKeyCacheFile)
    (R : Option LocalKeyCacheFile → Option UnlockSlotsFile → Prop) (x : Daemon × PinLog) : Prop where
  checked : x.2.checked = true
  unlocked : x.2.unlocked = true ↔ ∃ keys key, Opens E c pin keys key
  left : x.2.unlocked = true → x.2.aftermath = [] ∧ R x.1.localKeyCacheData x.1.disk.unlockSlots

theorem Ends.outcome {G : Daemon → Prop} {R : Option LocalKeyCacheFile → Option UnlockSlotsFile → Prop}
    (h : Ends E pin (fun t => At t { checked := true, unlocked := true }) G c x) (hchecked : x.2.checked = true)
    (hR : ∀ t, G t → R t.localKeyCacheData t.disk.unlockSlots) : Outcome E pin c R x := by
  cases h with
  | skipped h => exact absurd (h.symm.trans hchecked) Bool.false_ne_true
  | refused ho hx =>
    refine ⟨hchecked, ⟨fun hu => absurd (hx.symm.trans hu) Bool.false_ne_true, ?_⟩, fun hu => ?_⟩
    · rintro ⟨keys, key, h⟩
      exact absurd h (ho keys key)
    · exact absurd (hx.symm.trans hu) Bool.false_ne_true
  | @opened t keys key ht ho hx =>
    have hu : x.2.unlocked = true := congrArg PinLog.unlocked hx.log
    refine ⟨hchecked, iff_of_true hu ⟨keys, key, ho⟩, fun _ => ⟨congrArg PinLog.aftermath hx.log, ?_⟩⟩
    rw [hx.memory, hx.unlockSlots]
    exact hR t ht

theorem wp_handleUnlockPin_calm (hx : Poised m t x) (hl : t.vaultLocked = true) (hrun : t.agent.isRunning = true)
    (hc : t.localKeyCacheData = some c)
    (hwrap : m.saves = true → ∀ json key, decryptEnvelopeLocalKeyCacheWithPin E c pin = .ok (json, key) →
      ∃ enc, pinEncryptWithSalt E m.iv (encodeSymmetricKey E key) pin m.salt = .ok enc) :
    wp (pinMachine E (m.answersPin pin)) (fun _ _ => True) (handleUnlockPin E cfg pin)
      (fun _ => Outcome E pin c (Prepared m cfg c t.disk.unlockSlots)) x := by
  have hends := wp_handleUnlockPin (finish_calm E cfg m pin) hx.start hl hc (G := fun t' =>
    t'.agent.isRunning = true ∧ Prepared m cfg c t.disk.unlockSlots t'.localKeyCacheData t'.disk.unlockSlots)
    (fun _ h => h.1) fun json keys key hopen _ x hx =>
      wp_prepare_calm hx hc hrun fun hs => hwrap hs json key hopen
  exact (hends.and (wp_handleUnlockPin_asks hx hl)).mono (fun _ _ _ => trivial) fun _ _ h =>
    h.1.outcome h.2 fun _ h => h.2

theorem wp_handleUnlock_calm (hx : Poised m t x) (hl : t.vaultLocked = true) (hrun : t.agent.isRunning = true)
    (hc : t.localKeyCacheData = some c) (hauto : cfg.autoUnlockOnRequest = true)
    (hslot : c.localCacheKey.pinEncrypted.isSome = true) :
    wp (pinMachine E (m.answersPin pin)) (fun _ _ => True) (handleUnlock E cfg)
      (fun _ => Outcome E pin c fun memory slots => memory = some c ∧ slots = t.disk.unlockSlots) x := by
  have hA : ∀ e, m.answersPin pin e → AnswersPin pin e := fun _ h => h.1
  have hends := wp_handleUnlock_pin hA (finish_calm E cfg m pin) hx.start hl hc hrun
  refine (hends.and (wp_handleUnlock_asks hx hl hc hauto hslot)).mono (fun _ _ _ => trivial) fun _ _ h =>
    h.1.1.outcome h.2 fun t' ht' => ?_
  rw [ht']
  exact ⟨hc, rfl⟩

/-- The device's slots after the shared cache has been read again. -/
def persistedSlots (s : Daemon) (c : LocalKeyCacheFile) : UnlockSlotsFile :=
  let slots := s.disk.unlockSlots.getD {}
  { slots with
    nativeEncrypted := slots.nativeEncrypted.or c.localCacheKey.nativeEncrypted
    helloChallenge := slots.helloChallenge.or c.localCacheKey.helloChallenge
    helloEncrypted := slots.helloEncrypted.or c.localCacheKey.helloEncrypted }

/-- A calm command that starts in `s` may find the vault `t`. -/
def MayFind (E : Crates) (cfg : Config) (pin : String) (m : Calm) (s t : Daemon) : Prop :=
  may (pinMachine E (m.answersPin pin)) (reloadSharedLocalCacheFromDiskIfMultiDevice cfg)
    (fun _ => Poised m t) (s, {})

variable (E cfg pin) (hunlocks : m.Unlocks (s, {}))
include hunlocks

/-- The shared cache cannot be read, or there is none. -/
theorem mayFind_same : MayFind E cfg pin m s s := by
  have hs : Poised m s (s, {}) := ⟨.start s, hunlocks⟩
  unfold MayFind reloadSharedLocalCacheFromDiskIfMultiDevice
  split
  · exact hs
  · refine may_perform_bind.2 ⟨.error "", ⟨fun c hc => (nomatch hc), trivial, trivial⟩, ?_⟩
    exact ⟨hs.start.next (o := .loadLocalKeyCache) rfl (.error ""), hs.unlocks⟩

theorem mayFind_shared {cfg : Config} (hload : Loadable cfg s c) :
    ∃ d : Disk, d.unlockSlots.getD {} = persistedSlots s c ∧
    MayFind E cfg pin m s { s with disk := d, localKeyCacheData := some c } := by
  obtain ⟨hmulti, hdisk, hversion⟩ := hload
  have hx : Poised m s (s, {}) := ⟨.start s, hunlocks⟩
  have hon : ¬(!cfg.multiDevice) = true := by simp [hmulti]
  have hread : (machine E).ready .loadLocalKeyCache s (.ok (some c)) := by
    intro c' hc'
    obtain rfl := Except.ok.inj hc'
    refine ⟨hdisk.symm, fun f hf => ?_⟩
    obtain rfl := Option.some.inj hf
    exact hversion
  have hpersist : ∃ d : Disk, d.unlockSlots.getD {} = persistedSlots s c ∧
      may (pinMachine E (m.answersPin pin)) (persistDeviceUnlockSlotsFromCache cfg c)
        (fun _ => Poised m { s with disk := d }) (s, {}) := by
    unfold persistDeviceUnlockSlotsFromCache
    rw [if_neg hon]
    by_cases hsame : persistedSlots s c = s.disk.unlockSlots.getD {}
    · refine ⟨s.disk, hsame.symm, (may_bind ..).2 ?_⟩
      refine ⟨.ok s.disk.unlockSlots, ⟨fun f hf => (Except.ok.inj hf).symm, rfl, trivial⟩, ?_⟩
      show may _ (if persistedSlots s c ≠ s.disk.unlockSlots.getD {} then _ else _) _ _
      rw [if_neg (not_not.2 hsame)]
      exact hx
    · refine ⟨{ s.disk with unlockSlots := some (persistedSlots s c) }, rfl, (may_bind ..).2 ?_⟩
      refine ⟨.ok s.disk.unlockSlots, ⟨fun f hf => (Except.ok.inj hf).symm, rfl, trivial⟩, ?_⟩
      show may _ (if persistedSlots s c ≠ s.disk.unlockSlots.getD {} then _ else _) _ _
      rw [if_pos hsame]
      refine ⟨.ok (), ⟨trivial, trivial, rfl⟩, ?_⟩
      exact ⟨hx.start.prepare rfl (o := .saveUnlockSlots _) rfl (.ok ()), hunlocks⟩
  obtain ⟨d, hd, hmay⟩ := hpersist
  refine ⟨d, hd, ?_⟩
  unfold MayFind reloadSharedLocalCacheFromDiskIfMultiDevice
  rw [if_neg hon]
  refine may_perform_bind.2 ⟨.ok (some c), ⟨hread, trivial, trivial⟩, (may_bind ..).2 ?_⟩
  exact may_post hmay fun _ x hx =>
    ⟨(), ⟨trivial, trivial, trivial⟩, hx.start.prepare rfl (o := .writeLocalKeyCache (some c)) rfl (), hx.unlocks⟩

omit hunlocks
variable {E cfg pin}

theorem exists_tried (action : ControlAction) {entry : PinEntry} {Q : Daemon × PinLog → Prop}
    (hreloads : action.reloads = true) (hstop : action ≠ .stop)
    (hentry : ∀ {tr s'}, Step (machine E) E cfg s (.event (.control action)) tr s' →
      Entered E cfg pin s entry tr s')
    (hfind : MayFind E cfg pin m s t)
    (hrun : ∀ x, Poised m t x → wp (pinMachine E (m.answersPin pin)) (fun _ _ => True) (handleAction E cfg action)
      (fun _ => Q) x) (hQ : ∀ x, Q x → x.2.checked = true) :
    ∃ tr s', PinTried E cfg pin s entry tr s' ∧ Q (s', pinLog tr) := by
  have hmay : may (pinMachine E (m.answersPin pin)) (mainStep E cfg (.control action)) (fun _ => Q) (s, {}) := by
    refine (may_bind ..).2 ((may_bind ..).2 ?_)
    rw [hreloads]
    refine may_post (p := reloadSharedLocalCacheFromDiskIfMultiDevice cfg) hfind fun _ x hx => ?_
    exact (hrun x hx).may (m.exists_ready pin)
  obtain ⟨tr, u, ⟨s', log⟩, hsteps, hQx⟩ := hmay.exists_steps
  obtain ⟨hsteps, hlog⟩ := hsteps.of_track
  obtain ⟨hsteps, hans⟩ := hsteps.of_restrict
  obtain rfl : log = pinLog tr := hlog
  refine ⟨tr, s', ⟨hentry (.event (.control action hstop) hsteps), fun e he => (hans e he).1, hQ _ hQx⟩, hQx⟩

variable (hl : s.vaultLocked = true) (hrun : s.agent.isRunning = true)
include hl hrun

theorem exists_command (hfind : MayFind E cfg pin m s t) (ht : t.vaultLocked = s.vaultLocked)
    (hagent : t.agent = s.agent) (hc : t.localKeyCacheData = some c)
    (hwrap : m.saves = true → ∀ json key, decryptEnvelopeLocalKeyCacheWithPin E c pin = .ok (json, key) →
      ∃ enc, pinEncryptWithSalt E m.iv (encodeSymmetricKey E key) pin m.salt = .ok enc) :
    ∃ tr s', PinTried E cfg pin s .command tr s' ∧
      Outcome E pin c (Prepared m cfg c t.disk.unlockSlots) (s', pinLog tr) :=
  exists_tried (.unlockPin pin) rfl nofun .command hfind (fun _ hx => wp_handleUnlockPin_calm hx (ht.trans hl)
    ((congrArg Agent.isRunning hagent).trans hrun) hc hwrap) fun _ h => h.checked

theorem exists_unlockDialog (hfind : MayFind E cfg pin m s t) (ht : t.vaultLocked = s.vaultLocked)
    (hagent : t.agent = s.agent) (hc : t.localKeyCacheData = some c) (hauto : cfg.autoUnlockOnRequest = true)
    (ho : Opens E c pin keys key) :
    ∃ tr s', PinTried E cfg pin s .unlockDialog tr s' ∧
      Outcome E pin c (fun memory slots => memory = some c ∧ slots = t.disk.unlockSlots) (s', pinLog tr) := by
  have hslot : c.localCacheKey.pinEncrypted.isSome = true := by
    obtain ⟨json, hopen, -⟩ := ho
    obtain ⟨key', hpin, -⟩ := except_bind_ok hopen
    unfold openPinSlot at hpin
    split at hpin
    · cases hpin
    · rename_i enc henc
      rw [henc]
      rfl
  exact exists_tried .unlock rfl nofun .unlockDialog hfind (fun _ hx => wp_handleUnlock_calm hx (ht.trans hl)
    ((congrArg Agent.isRunning hagent).trans hrun) hc hauto hslot) fun _ h => h.checked

omit hl hrun

/-- What a calm command and a calm dialog that agree have in common. -/
theorem EntriesAgree.outcomes {c₁ c₂ : LocalKeyCacheFile}
    {R₁ R₂ : Option LocalKeyCacheFile → Option UnlockSlotsFile → Prop} (hagree : EntriesAgree E cfg pin s)
    (h₁ : ∃ tr s', PinTried E cfg pin s .command tr s' ∧ Outcome E pin c₁ R₁ (s', pinLog tr))
    (h₂ : ∃ tr s', PinTried E cfg pin s .unlockDialog tr s' ∧ Outcome E pin c₂ R₂ (s', pinLog tr)) :
    ((∃ keys key, Opens E c₁ pin keys key) ↔ ∃ keys key, Opens E c₂ pin keys key) ∧
      ((∃ keys key, Opens E c₁ pin keys key) → ∃ memory slots, R₁ memory slots ∧ R₂ memory slots) := by
  obtain ⟨tr₁, s₁, htried₁, hend₁⟩ := h₁
  obtain ⟨tr₂, s₂, htried₂, hend₂⟩ := h₂
  obtain ⟨hiff, hsame⟩ := hagree .command .unlockDialog _ _ _ _ nofun htried₁ htried₂
  refine ⟨hend₁.unlocked.symm.trans (hiff.trans hend₂.unlocked), fun ho => ?_⟩
  have hu₁ := hend₁.unlocked.2 ho
  obtain ⟨hnil₁, hR₁⟩ := hend₁.left hu₁
  obtain ⟨hnil₂, hR₂⟩ := hend₂.left (hiff.1 hu₁)
  have hview := hsame hu₁ (hnil₁.trans hnil₂.symm)
  have hmemory : s₁.localKeyCacheData = s₂.localKeyCacheData := congrArg (·.localKeyCacheData) hview
  have hslots : s₁.disk.unlockSlots = s₂.disk.unlockSlots := congrArg (·.disk.unlockSlots) hview
  exact ⟨_, _, hR₁, hmemory ▸ hslots ▸ hR₂⟩

/-! ### The two directions -/

/-- A PIN can wrap any data: with some random bytes the key derivation and the encryption succeed. -/
def PinWraps (E : Crates) : Prop := ∀ data pin, ∃ iv salt enc, pinEncryptWithSalt E iv data pin salt = .ok enc

/-- The clock past every lockout, and nothing written but the device's slots. -/
def quietly (s : Daemon) : Calm where
  after := s.pinFailures.lockedUntil.getD 0

theorem unlocks_of_after (h : m.after = s.pinFailures.lockedUntil.getD 0) : m.Unlocks (s, {}) := fun _ hnow =>
  lockoutRemaining_eq_none (h ▸ hnow)

section
variable (hl : s.vaultLocked = true) (hrun : s.agent.isRunning = true) (hm : s.localKeyCacheData = some cache)
  (hagree : EntriesAgree E cfg pin s) (hauto : cfg.autoUnlockOnRequest = true)
include hl hrun hm hagree hauto

/-- The shared cache is the one in memory. -/
theorem EntriesAgree.shared (hopens : ∃ c, (c = cache ∨ Loadable cfg s c) ∧ ∃ keys key, Opens E c pin keys key)
    {d : LocalKeyCacheFile} (hload : Loadable cfg s d) : d = cache := by
  have hu : (quietly s).Unlocks (s, {}) := unlocks_of_after rfl
  have hsame : MayFind E cfg pin (quietly s) s s := mayFind_same E cfg pin hu
  obtain ⟨disk, -, hshared⟩ := mayFind_shared E pin hu hload
  by_contra hne
  by_cases hopen : ∃ keys key, Opens E cache pin keys key
  · -- the dialog opens the cache in memory, the command the shared one
    obtain ⟨keys, key, ho⟩ := hopen
    have hcommand := exists_command hl hrun hshared rfl rfl rfl nofun
    obtain ⟨hiff, hboth⟩ := hagree.outcomes hcommand (exists_unlockDialog hl hrun hsame rfl rfl hm hauto ho)
    obtain ⟨memory, slots, hprepared, hmemory, -⟩ := hboth (hiff.2 ⟨keys, key, ho⟩)
    exact hne (Option.some.inj ((hprepared.kept rfl).symm.trans hmemory))
  · -- only the shared cache opens
    obtain ⟨c, hc, keys, key, ho⟩ := hopens
    have hcd : c = d := by
      rcases hc with rfl | hc
      · exact absurd ⟨keys, key, ho⟩ hopen
      · exact Option.some.inj (hc.2.1.symm.trans hload.2.1)
    subst hcd
    have hcommand := exists_command hl hrun hsame rfl rfl hm nofun
    have hiff := (hagree.outcomes hcommand (exists_unlockDialog hl hrun hshared rfl rfl rfl hauto ho)).1
    exact hopen (hiff.2 ⟨keys, key, ho⟩)

theorem EntriesAgree.settled (hE : PinWraps E) (ho : Opens E cache pin keys key) :
    needsPinSaltMigration cache = false := by
  obtain ⟨iv, salt, enc, henc⟩ := hE (encodeSymmetricKey E key) pin
  let m : Calm := { quietly s with saves := true, iv := iv, salt := salt }
  have hsame : MayFind E cfg pin m s s := mayFind_same E cfg pin (unlocks_of_after rfl)
  have hwrap : m.saves = true → ∀ json key, decryptEnvelopeLocalKeyCacheWithPin E cache pin = .ok (json, key) →
      ∃ enc, pinEncryptWithSalt E m.iv (encodeSymmetricKey E key) pin m.salt = .ok enc := by
    rintro - json key' hopen
    obtain ⟨json', hopen', -⟩ := ho
    obtain ⟨-, rfl⟩ := Prod.mk.inj (Except.ok.inj (hopen.symm.trans hopen'))
    exact ⟨enc, henc⟩
  have hcommand := exists_command hl hrun hsame rfl rfl hm hwrap
  obtain ⟨-, hboth⟩ := hagree.outcomes hcommand (exists_unlockDialog hl hrun hsame rfl rfl hm hauto ho)
  obtain ⟨memory, slots, hprepared, hmemory, -⟩ := hboth ⟨keys, key, ho⟩
  cases hneeds : needsPinSaltMigration cache with
  | false => rfl
  | true =>
    obtain ⟨c', hc', hsettled⟩ := hprepared.migrated rfl hneeds
    obtain rfl := Option.some.inj (hc'.symm.trans hmemory)
    exact absurd (hsettled.symm.trans hneeds) Bool.false_ne_true

theorem EntriesAgree.slotsComplete (hmulti : cfg.multiDevice = true) (ho : Opens E cache pin keys key) :
    SlotsComplete cfg s cache := by
  have hu : (quietly s).Unlocks (s, {}) := unlocks_of_after rfl
  have hdialog := exists_unlockDialog hl hrun (mayFind_same E cfg pin hu) rfl rfl hm hauto ho
  have hpersist : Loadable cfg s cache → s.disk.unlockSlots.getD {} = persistedSlots s cache := fun hload => by
    obtain ⟨d, hd, hshared⟩ := mayFind_shared E pin hu hload
    have hcommand := exists_command hl hrun hshared rfl rfl rfl nofun
    obtain ⟨memory, slots, hprepared, -, hslots⟩ := (hagree.outcomes hcommand hdialog).2 ⟨keys, key, ho⟩
    rw [← hd, ← hslots, hprepared.left rfl]
  refine ⟨?_, fun hload hsome => ?_, fun hload hsome => ?_⟩
  · let m : Calm := { quietly s with enrols := true }
    have hcommand := exists_command hl hrun
      (mayFind_same E cfg pin (m := m) (unlocks_of_after rfl)) rfl rfl hm nofun
    have hdialog' := exists_unlockDialog hl hrun
      (mayFind_same E cfg pin (m := m) (unlocks_of_after rfl)) rfl rfl hm hauto ho
    obtain ⟨memory, slots, hprepared, -, hslots⟩ := (hagree.outcomes hcommand hdialog').2 ⟨keys, key, ho⟩
    rw [← hslots]
    exact hprepared.enrolled rfl hmulti
  · rw [hpersist hload]
    show ((s.disk.unlockSlots.getD {}).helloChallenge.or cache.localCacheKey.helloChallenge).isSome = true
    rw [Option.isSome_or, hsome, Bool.or_true]
  · rw [hpersist hload]
    show ((s.disk.unlockSlots.getD {}).helloEncrypted.or cache.localCacheKey.helloEncrypted).isSome = true
    rw [Option.isSome_or, hsome, Bool.or_true]

end

theorem alike_of_entriesAgree (hE : PinWraps E) (hl : s.vaultLocked = true) (hrun : s.agent.isRunning = true)
    (hm : s.localKeyCacheData = some cache) (hagree : EntriesAgree E cfg pin s) :
    EntriesAlike E cfg pin s cache := by
  cases hauto : cfg.autoUnlockOnRequest with
  | false => exact .inl hauto
  | true =>
    refine .inr ?_
    by_cases hopens : ∃ c, (c = cache ∨ Loadable cfg s c) ∧ ∃ keys key, Opens E c pin keys key
    · have hshared : ∀ d, Loadable cfg s d → d = cache := fun d => hagree.shared hl hrun hm hauto hopens
      obtain ⟨c, hc, keys, key, ho⟩ := hopens
      obtain rfl : c = cache := hc.elim id (hshared c)
      exact .inr ⟨hagree.settled hl hrun hm hauto hE ho, hshared, fun hmulti =>
        hagree.slotsComplete hl hrun hm hauto hmulti ho⟩
    · exact .inl fun c hc keys key ho => hopens ⟨c, hc, keys, key, ho⟩

/-- The entry points agree on a PIN exactly where the dialogs are off or the command has nothing to prepare. -/
theorem pinEntries_agree_iff (hE : PinWraps E) (hl : s.vaultLocked = true) (hrun : s.agent.isRunning = true)
    (hm : s.localKeyCacheData = some cache) : EntriesAgree E cfg pin s ↔ EntriesAlike E cfg pin s cache :=
  ⟨alike_of_entriesAgree hE hl hrun hm, entriesAgree_of_alike hl hrun hm⟩

theorem pinWraps_plain : PinWraps .plain := fun data pin =>
  ⟨[], [], _, show pinEncryptWithSalt .plain [] data pin [] = .ok (Plain.encrypt (utf8 data)
    ⟨(utf8 pin ++ []).take 32, (utf8 pin ++ []).drop 32⟩) from rfl⟩

/-- The PIN opens the cache to keys. -/
def opensKeys (cache : LocalKeyCacheFile) (pin : String) : Bool :=
  match decryptEnvelopeLocalKeyCacheWithPin .plain cache pin with
  | .ok (json, _) => (Plain.keysFromJson json).toOption.isSome
  | .error _ => false

theorem opens_of_opensKeys {cache : LocalKeyCacheFile} {pin : String} (h : opensKeys cache pin = true) :
    ∃ keys key, Opens .plain cache pin keys key := by
  unfold opensKeys at h
  split at h
  · rename_i json key hopen
    cases hk : Plain.keysFromJson json with
    | error e => rw [hk] at h; exact absurd h Bool.false_ne_true
    | ok keys => exact ⟨keys, key, json, hopen, hk⟩
  · exact absurd h Bool.false_ne_true

/-- A locked device on its own whose cache needs no migration. -/
def locksSettled (x : Config × Daemon) : Bool :=
  !x.1.multiDevice && x.2.vaultLocked && x.2.localKeyCacheData.any fun c => !needsPinSaltMigration c &&
    opensKeys c "1234"

theorem pinEntries_agree_iff_locked : ∃ cfg s cache keys key, Reachable .plain plainConfig cfg s ∧
    Opens .plain cache "1234" keys key ∧ s.localKeyCacheData = some cache ∧ EntriesAgree .plain cfg "1234" s := by
  obtain ⟨cfg, s, hr, hs⟩ := exists_of_afterLogin (show (afterLogin plainConfig
    [.take (.control .lock) plainScript]).any locksSettled = true by decide +kernel)
  simp only [locksSettled, Bool.and_eq_true, Bool.not_eq_true'] at hs
  obtain ⟨⟨hsingle, hl⟩, hs⟩ := hs
  obtain ⟨cache, hc, hcache⟩ := (Option.any_eq_true _ _).1 hs
  simp only [Bool.and_eq_true, Bool.not_eq_true'] at hcache
  obtain ⟨hsettled, hopens⟩ := hcache
  obtain ⟨keys, key, ho⟩ := opens_of_opensKeys hopens
  refine ⟨cfg, s, cache, keys, key, hr, ho, hc, (pinEntries_agree_iff pinWraps_plain hl hr.isRunning hc).2 ?_⟩
  refine .inr (.inr ⟨hsettled, fun c hload => ?_, fun hm => ?_⟩)
  · exact absurd (hsingle.symm.trans hload.1) Bool.false_ne_true
  · exact absurd (hsingle.symm.trans hm) Bool.false_ne_true

/-- A cache of version 2: its PIN slot was made with the fixed salt. -/
def oldCache : LocalKeyCacheFile where
  version := 2
  header := { email := "user@example.org", serverUrl := "https://vault.example.org", keys := [] }
  encryptedPayload := Plain.encrypt (utf8 (Plain.keysToJson (plainVault.map DecryptedSshKey.tuple))) plainKey
  localCacheKey := { pinEncrypted := (pinEncrypt .plain [] (encodeSymmetricKey .plain plainKey) "1234").toOption }

/-- The PIN opens a cache of the locked device that needs the migration. -/
def locksOld (x : Config × Daemon) : Bool :=
  x.1.autoUnlockOnRequest && x.2.vaultLocked &&
    x.2.localKeyCacheData.any fun c => needsPinSaltMigration c && opensKeys c "1234"

/-- After an update of the program only `unlock --pin` migrates the PIN slot of the old cache. -/
theorem unlockDialog_keeps_old_slot : ¬∀ cfg s cache, Reachable .plain plainConfig cfg s →
    s.vaultLocked = true → s.localKeyCacheData = some cache → EntriesAgree .plain cfg "1234" s := by
  intro h
  obtain ⟨cfg, s, hstart, hs⟩ : ∃ cfg s,
    playStart .plain plainConfig plainScript { localKeyCache := some oldCache } =
      some (cfg, s) ∧ locksOld (cfg, s) = true := by
    have hany : (playStart .plain plainConfig plainScript { localKeyCache := some oldCache }).any locksOld =
        true := by
      decide +kernel
    obtain ⟨⟨cfg, s⟩, hx, hs⟩ := (Option.any_eq_true _ _).1 hany
    exact ⟨cfg, s, hx, hs⟩
  have hr : Reachable .plain plainConfig cfg s := reachable_playStart hstart
  simp only [locksOld, Bool.and_eq_true] at hs
  obtain ⟨⟨hauto, hl⟩, hs⟩ := hs
  obtain ⟨cache, hc, hold⟩ := (Option.any_eq_true _ _).1 hs
  rw [Bool.and_eq_true] at hold
  obtain ⟨hneeds, hopens⟩ := hold
  obtain ⟨keys, key, ho⟩ := opens_of_opensKeys hopens
  have hsettled := (h cfg s cache hr hl hc).settled hl hr.isRunning hc hauto pinWraps_plain ho
  exact absurd (hsettled.symm.trans hneeds) Bool.false_ne_true

end SshWarden
