import SshWarden.Freshness

/-!
# The three ways to enter a PIN

`unlock --pin`, the PIN dialog of `unlock` and the one of a sign request open the same slot with the
same function. They differ in what they do besides: only the command rewraps an old PIN slot, the
dialog of `unlock` leaves the device's slots alone, and a sign request does not read the shared cache
again. `pinEntries_agree_iff` says when that makes no difference.
-/

namespace SshWarden
open Prog

variable {E : Crates} {cfg : Config} {α β : Type}

/-- What an unlock sets: the vault, the cache in memory and on disk, and the device's unlock slots. -/
def Daemon.vaultView (s : Daemon) : Daemon where
  agent := s.agent
  vaultLocked := s.vaultLocked
  cachedKeyTuples := s.cachedKeyTuples
  keyNames := s.keyNames
  localCacheKeyState := s.localCacheKeyState
  localKeyCacheData := s.localKeyCacheData
  disk := { s.disk with session := none }

/-- Operations that change what an unlock sets. -/
def Op.touchesVault : Op → Bool
  | writeLocalKeyCache _ | writeLocalCacheKey _ | writeCachedKeyTuples _ | writeKeyNames _
  | storeVaultLocked _ | startAgent | agentLock | agentSetKeys _ | agentSetPublicIdentities _
  | agentClearKeys | agentClearNeedsUnlock | saveLocalKeyCache _ | deleteLocalKeyCache
  | saveUnlockSlots _ | deleteUnlockSlots => true
  | _ => false

/-- The vault after an event. -/
def vaultNext (E : Crates) (v : Daemon) (e : Event) : Daemon := (next E e.1 v e.2).vaultView

theorem vaultView_next (E : Crates) (o : Op) (s : Daemon) (a : o.Ans) :
    (next E o s a).vaultView = vaultNext E s.vaultView ⟨o, a⟩ := by
  cases o <;> first | rfl | (cases a <;> rfl)

theorem vaultView_next_of_not_touches {o : Op} (h : o.touchesVault = false) (s : Daemon) (a : o.Ans) :
    (next E o s a).vaultView = s.vaultView := by
  cases o <;> first | rfl | (cases a <;> rfl) | exact absurd h.symm Bool.false_ne_true

/-- What the events of an attempt say: whether the throttle let a PIN through before the vault was
unlocked, whether it was unlocked, and what has been done to the vault since. -/
structure PinLog where
  checked : Bool := false
  unlocked : Bool := false
  aftermath : List Event := []

def PinLog.after (l : PinLog) (e : Event) : PinLog :=
  if l.unlocked then
    if e.1.touchesVault then { l with aftermath := l.aftermath ++ [e] } else l
  else
    match e with
    | ⟨.checkPinLockout _, none⟩ => { l with checked := true }
    | ⟨.storeVaultLocked false, _⟩ => { l with unlocked := true }
    | _ => l

def pinLog (tr : List Event) : PinLog := tr.foldl PinLog.after {}

/-- Every dialog is answered with this PIN, and the device's slots can be read. -/
def AnswersPin (pin : String) : Event → Prop
  | ⟨.pinDialog _, pins⟩ => pins = [pin]
  | ⟨.loadUnlockSlots, r⟩ => r.toOption.isSome = true
  | _ => True

inductive PinEntry
  | command | unlockDialog | requestDialog
deriving DecidableEq, Repr

/-- What happens from `s` when the PIN is entered there. A request that unlocks is over when the main loop
has taken up the event it sends, but may be looked at before. -/
inductive Entered (E : Crates) (cfg : Config) (pin : String) (s : Daemon) :
    PinEntry → List Event → Daemon → Prop
  | command {tr : List Event} {s' : Daemon}
      (h : Step (machine E) E cfg s (.event (.control (.unlockPin pin))) tr s') :
      Entered E cfg pin s .command tr s'
  | unlockDialog {tr : List Event} {s' : Daemon} (h : Step (machine E) E cfg s (.event (.control .unlock)) tr s') :
      Entered E cfg pin s .unlockDialog tr s'
  | requested {request : SshAgentUIRequest} {tr : List Event} {s' : Daemon}
      (h : Step (machine E) E cfg s (.request request) tr s') : Entered E cfg pin s .requestDialog tr s'
  | resolved {request : SshAgentUIRequest} {tr tr' : List Event} {s₁ s' : Daemon}
      (h : Step (machine E) E cfg s (.request request) tr s₁) (hu : (pinLog tr).unlocked = true)
      (h' : Step (machine E) E cfg s₁ (.event (.runtime (.autoUnlockedPin pin))) tr' s') :
      Entered E cfg pin s .requestDialog (tr ++ tr') s'

/-- An attempt with the PIN: it is entered, and the throttle lets it through. -/
structure PinTried (E : Crates) (cfg : Config) (pin : String) (s : Daemon) (entry : PinEntry)
    (tr : List Event) (s' : Daemon) : Prop where
  entered : Entered E cfg pin s entry tr s'
  answers : ∀ e ∈ tr, AnswersPin pin e
  checked : (pinLog tr).checked = true

/-- Two attempts agree: both unlock the vault or none does, and then they leave the same vault behind,
when the same is done to it after the unlock. -/
def SameUnlock (tr tr' : List Event) (s s' : Daemon) : Prop :=
  ((pinLog tr).unlocked = true ↔ (pinLog tr').unlocked = true) ∧
    ((pinLog tr).unlocked = true → (pinLog tr).aftermath = (pinLog tr').aftermath → s.vaultView = s'.vaultView)

/-- The entry points agree on this PIN. -/
def EntriesAgree (E : Crates) (cfg : Config) (pin : String) (s : Daemon) : Prop :=
  ∀ entry entry' tr tr' s₁ s₂, entry ≠ entry' → PinTried E cfg pin s entry tr s₁ →
    PinTried E cfg pin s entry' tr' s₂ → SameUnlock tr tr' s₁ s₂

/-! ### When they agree -/

/-- The PIN opens the cache: its Local Cache Key and its keys. -/
def Opens (E : Crates) (cache : LocalKeyCacheFile) (pin : String) (keys : List KeyTuple)
    (key : SymmetricKey) : Prop :=
  ∃ json, decryptEnvelopeLocalKeyCacheWithPin E cache pin = .ok (json, key) ∧ E.keysFromJson json = .ok keys

/-- The shared cache that a command reads again before it starts. -/
def Loadable (cfg : Config) (s : Daemon) (cache : LocalKeyCacheFile) : Prop :=
  cfg.multiDevice = true ∧ s.disk.localKeyCache = some cache ∧
    cache.version ∈ LocalKeyCacheFile.SUPPORTED_VERSIONS

/-- The device has a native slot, and slots for what the shared cache still carries. -/
structure SlotsComplete (cfg : Config) (s : Daemon) (cache : LocalKeyCacheFile) : Prop where
  native : (s.disk.unlockSlots.getD {}).nativeEncrypted.isSome
  helloChallenge : Loadable cfg s cache → cache.localCacheKey.helloChallenge.isSome →
    (s.disk.unlockSlots.getD {}).helloChallenge.isSome
  helloEncrypted : Loadable cfg s cache → cache.localCacheKey.helloEncrypted.isSome →
    (s.disk.unlockSlots.getD {}).helloEncrypted.isSome

/-- The PIN opens no cache that may be used; or the cache in memory is the shared one, its PIN slot needs no
migration, and in multi-device mode the device's slots are complete. -/
def NothingToPrepare (E : Crates) (cfg : Config) (pin : String) (s : Daemon) (cache : LocalKeyCacheFile) : Prop :=
  (∀ c, c = cache ∨ Loadable cfg s c → ∀ keys key, ¬Opens E c pin keys key) ∨
  (needsPinSaltMigration cache = false ∧ (∀ c, Loadable cfg s c → c = cache) ∧
    (cfg.multiDevice = true → SlotsComplete cfg s cache))

/-- The dialogs are off, or the command has nothing to prepare that a dialog does not. -/
def EntriesAlike (E : Crates) (cfg : Config) (pin : String) (s : Daemon) (cache : LocalKeyCacheFile) : Prop :=
  cfg.autoUnlockOnRequest = false ∨ NothingToPrepare E cfg pin s cache

/-- The daemon in an environment that gives the answers in `A`, with the attempt so far. -/
abbrev pinMachine (E : Crates) (A : Event → Prop) : Machine daemonSig (Daemon × PinLog) :=
  ((machine E).restrict A).track PinLog.after

/-- The vault is that of `t`, and this is the attempt so far. -/
structure At (t : Daemon) (l : PinLog) (x : Daemon × PinLog) : Prop where
  view : x.1.vaultView = t.vaultView
  log : x.2 = l

/-- The vault has been unlocked as in `t`, and what is logged since has been done to it. -/
structure UnlockedAs (E : Crates) (t : Daemon) (x : Daemon × PinLog) : Prop where
  checked : x.2.checked = true
  unlocked : x.2.unlocked = true
  view : x.1.vaultView = x.2.aftermath.foldl (vaultNext E) t.vaultView

/-- Operations that neither change the vault nor ask the throttle. -/
def Op.isBystander : Op → Bool
  | checkPinLockout _ => false
  | o => !o.touchesVault

/-- Operations that change the vault but not the lock flag. -/
def Op.isPreparation : Op → Bool
  | storeVaultLocked _ => false
  | o => o.touchesVault

variable {A : Event → Prop} {pin : String} {t t' s : Daemon} {l : PinLog} {x : Daemon × PinLog}
  {cache c : LocalKeyCacheFile} {keys : List KeyTuple} {key : SymmetricKey} {json : String}

theorem Op.touchesVault_of_isBystander {o : Op} (h : o.isBystander = true) : o.touchesVault = false := by
  cases o <;> first | rfl | exact absurd h Bool.false_ne_true

theorem PinLog.after_of_unlocked {l : PinLog} (hl : l.unlocked = true) (e : Event) :
    l.after e = if e.1.touchesVault then { l with aftermath := l.aftermath ++ [e] } else l :=
  if_pos hl

theorem checked_foldl_after {l : PinLog} (hl : l.unlocked = true) (tr : List Event) :
    (tr.foldl PinLog.after l).checked = l.checked := by
  induction tr generalizing l with
  | nil => rfl
  | cons e tr ih =>
    rw [List.foldl_cons, PinLog.after_of_unlocked hl]
    split
    · exact ih hl
    · exact ih hl

theorem PinLog.after_of_isBystander {o : Op} (h : o.isBystander = true) (l : PinLog) (a : o.Ans) :
    l.after ⟨o, a⟩ = l := by
  obtain ⟨checked, unlocked, aftermath⟩ := l
  cases unlocked <;> cases o <;> first | rfl | exact absurd h Bool.false_ne_true

theorem PinLog.after_of_isPreparation {o : Op} (h : o.isPreparation = true) {l : PinLog}
    (hl : l.unlocked = false) (a : o.Ans) : l.after ⟨o, a⟩ = l := by
  obtain ⟨checked, unlocked, aftermath⟩ := l
  obtain rfl : unlocked = false := hl
  cases o <;> first | rfl | exact absurd h Bool.false_ne_true

theorem At.start (s : Daemon) : At s {} (s, {}) := ⟨rfl, rfl⟩

theorem At.next (h : At t l x) {o : Op} (ho : o.isBystander = true) (a : o.Ans) :
    At t l ((pinMachine E A).next o x a) where
  view := (vaultView_next_of_not_touches (Op.touchesVault_of_isBystander ho) x.1 a).trans h.view
  log := (PinLog.after_of_isBystander ho x.2 a).trans h.log

theorem At.prepare (h : At t l x) (hl : l.unlocked = false) {o : Op} (ho : o.isPreparation = true) (a : o.Ans) :
    At (SshWarden.next E o t a) l ((pinMachine E A).next o x a) where
  view := by
    have hx : (SshWarden.next E o x.1 a).vaultView = vaultNext E x.1.vaultView ⟨o, a⟩ := vaultView_next E o x.1 a
    exact hx.trans (by rw [h.view, vaultView_next])
  log := (PinLog.after_of_isPreparation ho (h.log ▸ hl) a).trans h.log

theorem At.of_view (h : At t l x) (ht : t.vaultView = t'.vaultView) : At t' l x := ⟨h.view.trans ht, h.log⟩

theorem At.memory (h : At t l x) : x.1.localKeyCacheData = t.localKeyCacheData :=
  congrArg (·.localKeyCacheData) h.view

theorem At.locked (h : At t l x) : x.1.vaultLocked = t.vaultLocked := congrArg (·.vaultLocked) h.view

theorem At.agent (h : At t l x) : x.1.agent = t.agent := congrArg (·.agent) h.view

theorem At.unlockSlots (h : At t l x) : x.1.disk.unlockSlots = t.disk.unlockSlots :=
  congrArg (·.disk.unlockSlots) h.view

theorem At.diskCache (h : At t l x) : x.1.disk.localKeyCache = t.disk.localKeyCache :=
  congrArg (·.disk.localKeyCache) h.view

theorem UnlockedAs.next (h : UnlockedAs E t x) (o : Op) (a : o.Ans) :
    UnlockedAs E t ((pinMachine E A).next o x a) := by
  have hafter : ((pinMachine E A).next o x a).2 = _ := PinLog.after_of_unlocked h.unlocked ⟨o, a⟩
  cases ho : o.touchesVault with
  | true =>
    rw [ho, if_pos rfl] at hafter
    refine ⟨by rw [hafter]; exact h.checked, by rw [hafter]; exact h.unlocked, ?_⟩
    have hview : ((pinMachine E A).next o x a).1.vaultView = vaultNext E x.1.vaultView ⟨o, a⟩ :=
      vaultView_next E o x.1 a
    rw [hafter, hview, h.view, List.foldl_append]
    rfl
  | false =>
    rw [ho, if_neg Bool.false_ne_true] at hafter
    refine ⟨by rw [hafter]; exact h.checked, by rw [hafter]; exact h.unlocked, ?_⟩
    rw [hafter]
    exact (vaultView_next_of_not_touches ho x.1 a).trans h.view

/-- An unlock before the throttle was asked was no PIN's. -/
theorem unasked_next (h : x.2.checked = false ∧ x.2.unlocked = true) (o : Op) (a : o.Ans) :
    ((pinMachine E A).next o x a).2.checked = false ∧ ((pinMachine E A).next o x a).2.unlocked = true := by
  have hlog : ((pinMachine E A).next o x a).2 = _ := PinLog.after_of_unlocked h.2 ⟨o, a⟩
  rw [hlog]
  split
  · exact h
  · exact h

abbrev Bystander {α : Type} (p : DProg α) : Prop :=
  Prog.Only (S := daemonSig) (fun o : Op => o.isBystander = true) p

theorem bystander_op {o : Op} (h : o.isBystander = true) : Bystander (op o) := ⟨h, fun _ => trivial⟩

theorem Bystander.wp {p : DProg α} (h : Bystander p) (hx : At t l x) :
    wp (pinMachine E A) (fun _ _ => True) p (fun _ => At t l) x :=
  (Only.wp (I := At t l) h (fun _ _ a ho hx _ => hx.next ho a) hx).mono (fun _ _ _ => trivial) fun _ _ h => h

theorem wp_bystander {o : Op} {f : o.Ans → DProg β} {Q : β → Daemon × PinLog → Prop} (ho : o.isBystander = true)
    (hx : At t l x) (hf : ∀ a x', (pinMachine E A).ready o x a → At t l x' →
      wp (pinMachine E A) (fun _ _ => True) (f a) Q x') :
    wp (pinMachine E A) (fun _ _ => True) (op o >>= f) Q x :=
  wp_perform_bind.2 ⟨trivial, fun a ha => hf a _ ha (hx.next ho a)⟩

theorem wp_prepare {o : Op} {f : o.Ans → DProg β} {Q : β → Daemon × PinLog → Prop} (ho : o.isPreparation = true)
    (hl : l.unlocked = false) (hx : At t l x) (hf : ∀ a x', (pinMachine E A).ready o x a → At (next E o t a) l x' →
      wp (pinMachine E A) (fun _ _ => True) (f a) Q x') :
    wp (pinMachine E A) (fun _ _ => True) (op o >>= f) Q x :=
  wp_perform_bind.2 ⟨trivial, fun a ha => hf a _ ha (hx.prepare hl ho a)⟩

theorem SlotReads.bystander {p : DProg α} (h : SlotReads p) : Bystander p :=
  h.mono fun o ho => by cases o <;> first | rfl | exact absurd ho Bool.false_ne_true

theorem bystander_recordPinAttempt (success : Bool) : Bystander (recordPinAttempt success) :=
  .bind (bystander_op rfl) fun _ => bystander_op rfl

/-- The vault `t` once it is unlocked with these keys. -/
def unlockedWith (E : Crates) (t : Daemon) (keys : List KeyTuple) (key : SymmetricKey) : Daemon :=
  { t with
    agent := t.agent.setKeys E keys
    vaultLocked := false
    cachedKeyTuples := keys
    keyNames := keyNamesOf keys
    localCacheKeyState := some key }

theorem vaultView_unlockedWith (h : t.vaultView = t'.vaultView) :
    (unlockedWith E t keys key).vaultView = (unlockedWith E t' keys key).vaultView := by
  have hv := congrArg (fun v : Daemon => (unlockedWith E v keys key).vaultView) h
  exact hv

theorem At.unlock {checked : Bool} (h : At t ⟨checked, false, []⟩ x) :
    At { t with vaultLocked := false } ⟨checked, true, []⟩
      ((pinMachine E A).next (.storeVaultLocked false) x ()) where
  view := by
    have hx := vaultView_next E (.storeVaultLocked false) x.1 ()
    exact hx.trans (by rw [h.view]; rfl)
  log := by
    have hx : ((pinMachine E A).next (.storeVaultLocked false) x ()).2 =
      x.2.after ⟨.storeVaultLocked false, ()⟩ := rfl
    rw [hx, h.log]
    rfl

theorem wp_finishUnlockWithJson {checked : Bool} (hx : At t ⟨checked, false, []⟩ x)
    (hkey : t.localCacheKeyState = some key) (hrun : t.agent.isRunning = true) (msg : String) :
    wp (pinMachine E A) (fun _ _ => True) (finishUnlockWithJson E json msg) (fun resp x' =>
      (∃ keys, E.keysFromJson json = .ok keys ∧ resp.ok = true ∧
        At (unlockedWith E t keys key) ⟨checked, true, []⟩ x') ∨
      ((∀ keys, E.keysFromJson json ≠ .ok keys) ∧ resp.ok = false ∧ At t ⟨checked, false, []⟩ x')) x := by
  unfold finishUnlockWithJson
  split
  · rename_i e he
    exact .inr ⟨fun keys hk => (nomatch he.symm.trans hk), rfl, hx⟩
  · rename_i keys hk
    refine wp_prepare rfl rfl hx fun _ x₁ _ hx₁ => wp_prepare rfl rfl hx₁ fun _ x₂ _ hx₂ =>
      wp_prepare rfl rfl hx₂ fun loaded x₃ hl hx₃ => ?_
    obtain rfl : loaded = true := hl.1.trans ((congrArg Agent.isRunning hx₂.agent).trans hrun)
    refine (wp_ite ..).2 ⟨fun _ => wp_perform_bind.2 ⟨trivial, fun _ _ => ?_⟩, fun h => absurd rfl h⟩
    refine .inl ⟨keys, hk, rfl, hx₃.unlock.of_view ?_⟩
    rw [unlockedWith, ← hkey]
    rfl

/-- The throttle lets the PIN through, or the attempt ends before it has begun. -/
theorem wp_pinLockoutRemaining (hx : At t {} x) :
    wp (pinMachine E A) (fun _ _ => True) pinLockoutRemaining (fun r x' =>
      (r.isSome ∧ At t {} x') ∨ (r = none ∧ At t { checked := true } x')) x := by
  refine wp_bystander rfl hx fun now x₁ _ hx₁ => ⟨trivial, fun wait _ => ?_⟩
  have hview : ((pinMachine E A).next (.checkPinLockout now) x₁ wait).1.vaultView = t.vaultView :=
    (vaultView_next_of_not_touches (E := E) (o := .checkPinLockout now) rfl x₁.1 wait).trans hx₁.view
  have hlog : ((pinMachine E A).next (.checkPinLockout now) x₁ wait).2 =
      PinLog.after {} ⟨.checkPinLockout now, wait⟩ := by
    rw [← hx₁.log]
    rfl
  cases wait with
  | some wait => exact .inl ⟨rfl, hview, hlog⟩
  | none => exact .inr ⟨rfl, hview, hlog⟩

variable (hA : ∀ e, A e → AnswersPin pin e)
include hA

theorem wp_requestPinDialog (context : Option UnlockRequestContext) (hx : At t {} x) :
    wp (pinMachine E A) (fun _ _ => True) (requestPinDialog context (pinValidator E c)) (fun r x' =>
      (r = none ∧ At t {} x') ∨ (r = (pinValidator E c pin).map (pin, ·) ∧ At t { checked := true } x')) x := by
  refine wp_bystander rfl hx fun pins x₁ hpins hx₁ => ?_
  obtain rfl : pins = [pin] := hA _ hpins.2
  refine wp_bind .. |>.2 (wp_bind .. |>.2 ((wp_pinLockoutRemaining hx₁).post fun wait x₂ hx₂ => ?_))
  rcases hx₂ with ⟨hw, hx₂⟩ | ⟨rfl, hx₂⟩
  · obtain ⟨wait, rfl⟩ := Option.isSome_iff_exists.1 hw
    exact .inl ⟨rfl, hx₂⟩
  · refine wp_bind .. |>.2 (((bystander_recordPinAttempt _).wp hx₂).post fun _ x₃ hx₃ => (wp_ret _).2 ?_)
    cases pinValidator E c pin with
    | none => exact .inr ⟨rfl, hx₃⟩
    | some opened => exact .inr ⟨rfl, hx₃⟩

theorem wp_loadDeviceUnlockSlots (hx : At t l x) :
    wp (pinMachine E A) (fun _ _ => True) loadDeviceUnlockSlots
      (fun r x' => r = t.disk.unlockSlots ∧ At t l x') x := by
  refine wp_bystander rfl hx fun r x₁ hr hx₁ => ?_
  have hread : r.toOption.isSome = true := hA _ hr.2
  cases r with
  | error e => exact absurd hread Bool.false_ne_true
  | ok slots => exact ⟨(hr.1 slots rfl).trans hx.unlockSlots, hx₁⟩

/-- A device that has its native slot enrols nothing. -/
theorem wp_enroll_complete (hx : At t l x)
    (hn : cfg.multiDevice = true → (t.disk.unlockSlots.getD {}).nativeEncrypted.isSome) (key : SymmetricKey) :
    wp (pinMachine E A) (fun _ _ => True) (enrollDevicePlatformSlotsIfMissing E cfg key) (fun _ => At t l) x := by
  refine (wp_ite ..).2 ⟨fun _ => hx, fun hm => wp_bind .. |>.2 ?_⟩
  refine (wp_loadDeviceUnlockSlots hA hx).post fun r x₁ hx₁ => ?_
  obtain ⟨rfl, hx₁⟩ := hx₁
  refine (wp_ite ..).2 ⟨fun hno => ?_, fun _ => hx₁⟩
  have hsome := hn (by simpa using hm)
  rw [Option.isNone_iff_eq_none] at hno
  rw [hno] at hsome
  exact absurd hsome Bool.false_ne_true

omit hA

/-- How an attempt on the cache `c` ends: the PIN is not tried, or it opens the cache and unlocks a vault
in `G`, or it does not open it. `K` is what is known of the vault afterwards. -/
inductive Ends (E : Crates) (pin : String) (K : Daemon → Daemon × PinLog → Prop) (G : Daemon → Prop)
    (c : LocalKeyCacheFile) (x : Daemon × PinLog) : Prop
  | skipped (h : x.2.checked = false)
  | opened {t : Daemon} {keys : List KeyTuple} {key : SymmetricKey} (ht : G t) (ho : Opens E c pin keys key)
      (hx : K (unlockedWith E t keys key) x)
  | refused (ho : ∀ keys key, ¬Opens E c pin keys key) (hx : x.2.unlocked = false)

/-- What is known of a vault that has just been unlocked is known after the end of the unlock. -/
structure Finish (E : Crates) (cfg : Config) (A : Event → Prop) (pin : String)
    (K : Daemon → Daemon × PinLog → Prop) : Prop where
  tail : ∀ {t x}, At t { checked := true, unlocked := true } x → wp (pinMachine E A) (fun _ _ => True)
    (do tryRestoreApiSession E cfg pin; resolvePendingSync E cfg) (fun _ => K t) x
  bystander : ∀ {t x} {o : Op} (a : o.Ans), o.isBystander = true → K t x → K t ((pinMachine E A).next o x a)

variable {K : Daemon → Daemon × PinLog → Prop} {G : Daemon → Prop}

theorem Finish.wp_afterUnlock (hF : Finish E cfg A pin K) (hx : At t { checked := true, unlocked := true } x)
    {resp : ControlResponse} (hresp : resp.ok = true) :
    wp (pinMachine E A) (fun _ _ => True) (do
      if resp.ok then
        tryRestoreApiSession E cfg pin
        let _ ← resolvePendingSync E cfg
        return resp
      else return resp) (fun _ => K t) x := by
  have htail := wp_bind .. |>.1 (hF.tail hx)
  refine (wp_ite ..).2 ⟨fun _ => wp_bind .. |>.2 ?_, fun hno => absurd hresp hno⟩
  exact htail.post fun _ x₁ hx₁ => wp_bind .. |>.2 (hx₁.post fun _ _ hK => hK)

theorem Ends.next (hF : Finish E cfg A pin K) (h : Ends E pin K G c x) {o : Op} (ho : o.isBystander = true)
    (a : o.Ans) : Ends E pin K G c ((pinMachine E A).next o x a) := by
  have hlog : ((pinMachine E A).next o x a).2 = x.2 := PinLog.after_of_isBystander ho x.2 a
  cases h with
  | skipped h => exact .skipped (hlog ▸ h)
  | opened ht hopen hx => exact .opened ht hopen (hF.bystander a ho hx)
  | refused hopen hx => exact .refused hopen (hlog ▸ hx)

theorem Bystander.wp_ends (hF : Finish E cfg A pin K) {p : DProg α} (hp : Bystander p) (h : Ends E pin K G c x) :
    Prog.wp (pinMachine E A) (fun _ _ => True) p (fun _ => Ends E pin K G c) x :=
  (Only.wp (I := Ends E pin K G c) hp (fun _ _ a ho hx _ => hx.next hF ho a) h).mono (fun _ _ _ => trivial)
    fun _ _ h => h

theorem not_opens_of_error {e : String} (h : decryptEnvelopeLocalKeyCacheWithPin E c pin = .error e)
    (keys : List KeyTuple) (key : SymmetricKey) : ¬Opens E c pin keys key := by
  rintro ⟨json, hjson, -⟩
  exact nomatch h.symm.trans hjson

theorem not_opens_of_ne (h : decryptEnvelopeLocalKeyCacheWithPin E c pin = .ok (json, key))
    (hno : ∀ keys, E.keysFromJson json ≠ .ok keys) (keys : List KeyTuple) (key' : SymmetricKey) :
    ¬Opens E c pin keys key' := by
  rintro ⟨json', hjson, hkeys⟩
  obtain ⟨rfl, -⟩ := Prod.mk.inj (Except.ok.inj (h.symm.trans hjson))
  exact hno keys hkeys

theorem Opens.unique {keys' : List KeyTuple} {key' : SymmetricKey} (h : Opens E c pin keys key)
    (h' : Opens E c pin keys' key') : keys = keys' ∧ key = key' := by
  obtain ⟨json, hjson, hkeys⟩ := h
  obtain ⟨json', hjson', hkeys'⟩ := h'
  obtain ⟨rfl, rfl⟩ := Prod.mk.inj (Except.ok.inj (hjson.symm.trans hjson'))
  exact ⟨Except.ok.inj (hkeys.symm.trans hkeys'), rfl⟩

/-- An inner program does not unlock. -/
theorem Inner.wp_notUnlocked {p : DProg α} (h : Inner p) (hx : x.2.unlocked = false) :
    wp (pinMachine E A) (fun _ _ => True) p (fun _ x' => x'.2.unlocked = false) x := by
  refine (Only.wp (I := fun x : Daemon × PinLog => x.2.unlocked = false) h (fun o x a ho hx _ => ?_) hx).mono
    (fun _ _ _ => trivial) fun _ _ h => h
  obtain ⟨s, checked, unlocked, aftermath⟩ := x
  obtain rfl : unlocked = false := hx
  cases o with
  | checkPinLockout now => cases a <;> rfl
  | storeVaultLocked b => exact absurd ho Bool.false_ne_true
  | _ => rfl

/-! ### `unlock --pin` -/

/-- The block, where its preparation leaves the vault in `G`. -/
theorem wp_unlockPinBlock (hF : Finish E cfg A pin K) (hx : At t { checked := true } x)
    (hc : t.localKeyCacheData = some c) (hG : ∀ t, G t → t.agent.isRunning = true)
    (hprep : ∀ json keys key, decryptEnvelopeLocalKeyCacheWithPin E c pin = .ok (json, key) →
      E.keysFromJson json = .ok keys → ∀ x, At t { checked := true } x → wp (pinMachine E A) (fun _ _ => True)
        (do migratePinSlotIfNeeded E c key pin; enrollDevicePlatformSlotsIfMissing E cfg key)
        (fun _ x' => ∃ t', G t' ∧ At t' { checked := true } x') x) :
    wp (pinMachine E A) (fun _ _ => True) (unlockPinBlock E cfg pin) (fun _ => Ends E pin K G c) x := by
  refine wp_bystander rfl hx fun cache x₁ hcache hx₁ => ?_
  obtain rfl : cache = some c := hcache.1.trans (hx.memory.trans hc)
  cases hopen : decryptEnvelopeLocalKeyCacheWithPin E c pin with
  | error e =>
    dsimp only
    rw [hopen]
    exact .refused (not_opens_of_error hopen) (congrArg PinLog.unlocked hx₁.log)
  | ok opened =>
    obtain ⟨json, key⟩ := opened
    dsimp only
    rw [hopen]
    dsimp only
    by_cases hjson : ∃ keys, E.keysFromJson json = .ok keys
    · obtain ⟨keys, hkeys⟩ := hjson
      have hready := wp_bind .. |>.1 (hprep json keys key hopen hkeys x₁ hx₁)
      refine wp_bind .. |>.2 (hready.post fun _ x₂ hx₂ => wp_bind .. |>.2 (hx₂.post ?_))
      rintro - x₃ ⟨t', ht', hx₃⟩
      refine wp_prepare rfl rfl hx₃ fun _ x₄ _ hx₄ => wp_bind .. |>.2 ?_
      refine (wp_finishUnlockWithJson hx₄ rfl (hG t' ht') _).post fun resp x₅ hx₅ => ?_
      rcases hx₅ with ⟨keys', hkeys', hresp, hx₅⟩ | ⟨hno, -⟩
      · exact (hF.wp_afterUnlock hx₅ hresp).post fun _ _ hK => .opened ht' ⟨json, hopen, hkeys'⟩ hK
      · exact absurd hkeys (hno keys)
    · have hno : ∀ keys, E.keysFromJson json ≠ .ok keys := fun keys hk => hjson ⟨keys, hk⟩
      have hlocked : x₁.2.unlocked = false := congrArg PinLog.unlocked hx₁.log
      have hmigrate := (pinSlotSteps_migratePinSlotIfNeeded E c key pin).inner.wp_notUnlocked (E := E)
        (A := A) hlocked
      refine wp_bind .. |>.2 (hmigrate.post fun _ x₂ hx₂ => wp_bind .. |>.2 ?_)
      have hslots := (slotSteps_enrollDevicePlatformSlotsIfMissing E cfg key).slotRoutine.inner.wp_notUnlocked
        (E := E) (A := A) hx₂
      refine hslots.post fun _ x₃ hx₃ => wp_bind .. |>.2 ?_
      have hkey := (inner_op (o := .writeLocalCacheKey (some key)) rfl).wp_notUnlocked (E := E) (A := A) hx₃
      refine hkey.post fun _ x₄ hx₄ => ?_
      unfold finishUnlockWithJson
      split
      · exact .refused (not_opens_of_ne hopen hno) hx₄
      · exact absurd ‹_› (hno _)

theorem wp_handleUnlockPin (hF : Finish E cfg A pin K) (hx : At t {} x) (hl : t.vaultLocked = true)
    (hc : t.localKeyCacheData = some c) (hG : ∀ t, G t → t.agent.isRunning = true)
    (hprep : ∀ json keys key, decryptEnvelopeLocalKeyCacheWithPin E c pin = .ok (json, key) →
      E.keysFromJson json = .ok keys → ∀ x, At t { checked := true } x → wp (pinMachine E A) (fun _ _ => True)
        (do migratePinSlotIfNeeded E c key pin; enrollDevicePlatformSlotsIfMissing E cfg key)
        (fun _ x' => ∃ t', G t' ∧ At t' { checked := true } x') x) :
    wp (pinMachine E A) (fun _ _ => True) (handleUnlockPin E cfg pin) (fun _ => Ends E pin K G c) x := by
  refine wp_bystander rfl hx fun locked x₁ hlocked hx₁ => ?_
  obtain rfl : locked = true := hlocked.1.trans (hx.locked.trans hl)
  refine wp_bind .. |>.2 ((wp_pinLockoutRemaining hx₁).post fun wait x₂ hx₂ => ?_)
  rcases hx₂ with ⟨hw, hx₂⟩ | ⟨rfl, hx₂⟩
  · obtain ⟨wait, rfl⟩ := Option.isSome_iff_exists.1 hw
    exact .skipped (congrArg PinLog.checked hx₂.log)
  · refine wp_bind .. |>.2 ((wp_unlockPinBlock hF hx₂ hc hG hprep).post fun resp x₃ hx₃ => ?_)
    have hrest : Bystander (do
        let delay ← recordPinAttempt resp.ok
        if delay ≠ 0 then
          op (.sleep delay)
          return resp
        else return resp) :=
      .bind (bystander_recordPinAttempt _) fun _ => .ite (.bind (bystander_op rfl) fun _ => trivial) trivial
    exact hrest.wp_ends hF hx₃

/-! ### The dialogs -/

theorem pinValidator_eq_some {opened : String × SymmetricKey} (h : pinValidator E c pin = some opened) :
    decryptEnvelopeLocalKeyCacheWithPin E c pin = .ok opened := by
  unfold pinValidator at h
  cases hr : decryptEnvelopeLocalKeyCacheWithPin E c pin with
  | error e => rw [hr] at h; cases h
  | ok opened' => rw [hr] at h; exact congrArg _ (Option.some.inj h)

theorem not_opens_of_pinValidator (h : pinValidator E c pin = none) (keys : List KeyTuple) (key : SymmetricKey) :
    ¬Opens E c pin keys key := by
  rintro ⟨json, hjson, -⟩
  rw [pinValidator, hjson] at h
  cases h

/-- What was unlocked without the throttle stays so. -/
theorem wp_unasked {t : Daemon} {p : DProg α} (hx : At t { checked := false, unlocked := true } x) :
    wp (pinMachine E A) (fun _ _ => True) p (fun _ x' => x'.2.checked = false) x :=
  (wp.of_keeps (I := fun x : Daemon × PinLog => x.2.checked = false ∧ x.2.unlocked = true)
    (fun o _ a h _ => unasked_next h o a) p
    ⟨congrArg PinLog.checked hx.log, congrArg PinLog.unlocked hx.log⟩).post fun _ _ h => h.1

include hA in
theorem wp_handleUnlockDialog (hF : Finish E cfg A pin K) {held : Option SymmetricKey}
    (hx : At { t with localCacheKeyState := held } {} x) (hc : t.localKeyCacheData = some c)
    (hrun : t.agent.isRunning = true) :
    wp (pinMachine E A) (fun _ _ => True) (handleUnlockDialog E cfg)
      (fun _ x' => Ends E pin K (· = t) c x' ∧ (cfg.autoUnlockOnRequest = false → x'.2.checked = false)) x := by
  have hskip : ∀ {x' : Daemon × PinLog}, x'.2 = {} →
      Ends E pin K (· = t) c x' ∧ (cfg.autoUnlockOnRequest = false → x'.2.checked = false) := fun h =>
    ⟨.skipped (congrArg PinLog.checked h), fun _ => congrArg PinLog.checked h⟩
  refine (wp_ite ..).2 ⟨fun hauto => ?_, fun _ => hskip hx.log⟩
  have hon : ∀ {P : Prop}, cfg.autoUnlockOnRequest = false → P := fun hoff =>
    absurd (hoff.symm.trans hauto) Bool.false_ne_true
  refine wp_bystander rfl hx fun cache x₁ hcache hx₁ => ?_
  obtain rfl : cache = some c := hcache.1.trans (hx.memory.trans hc)
  cases hp : (some c).filter fun c => c.localCacheKey.pinEncrypted.isSome with
  | none => exact hskip hx₁.log
  | some c' =>
    obtain rfl := Phases.eq_of_filter_some hp
    refine wp_bind .. |>.2 ((wp_requestPinDialog hA none hx₁).post fun r x₂ hx₂ => ?_)
    rcases hx₂ with ⟨rfl, hx₂⟩ | ⟨rfl, hx₂⟩
    · exact hskip hx₂.log
    · cases hv : pinValidator E c pin with
      | none =>
        exact ⟨.refused (not_opens_of_pinValidator hv) (congrArg PinLog.unlocked hx₂.log), hon⟩
      | some opened =>
        obtain ⟨json, key⟩ := opened
        refine wp_prepare rfl rfl hx₂ fun _ x₃ _ hx₃ => wp_bind .. |>.2 ?_
        refine (wp_finishUnlockWithJson hx₃ rfl hrun _).post fun resp x₄ hx₄ => ?_
        rcases hx₄ with ⟨keys, hkeys, hresp, hx₄⟩ | ⟨hno, hresp, hx₄⟩
        · have hend : At (unlockedWith E t keys key) { checked := true, unlocked := true } x₄ := hx₄
          exact (hF.wp_afterUnlock hend hresp).post fun _ _ hK =>
            ⟨.opened rfl ⟨json, pinValidator_eq_some hv, hkeys⟩ hK, hon⟩
        · refine (wp_ite ..).2 ⟨fun hok => absurd (hresp.symm.trans hok) Bool.false_ne_true, fun _ => ?_⟩
          exact ⟨.refused (not_opens_of_ne (pinValidator_eq_some hv) hno) (congrArg PinLog.unlocked hx₄.log), hon⟩

include hA in
theorem wp_handleUnlock_pin (hF : Finish E cfg A pin K) (hx : At t {} x) (hl : t.vaultLocked = true)
    (hc : t.localKeyCacheData = some c) (hrun : t.agent.isRunning = true) :
    wp (pinMachine E A) (fun _ _ => True) (handleUnlock E cfg)
      (fun _ x' => Ends E pin K (· = t) c x' ∧ (cfg.autoUnlockOnRequest = false → x'.2.checked = false)) x := by
  have hdialog : ∀ {x' : Daemon × PinLog} (held : Option SymmetricKey),
      At { t with localCacheKeyState := held } {} x' → wp (pinMachine E A) (fun _ _ => True)
        (do op (.release .localKeyCacheData); handleUnlockDialog E cfg)
        (fun _ x' => Ends E pin K (· = t) c x' ∧ (cfg.autoUnlockOnRequest = false → x'.2.checked = false)) x' :=
    fun held hx' => wp_bystander rfl hx' fun _ _ _ hx₁ => wp_handleUnlockDialog hA hF hx₁ hc hrun
  refine wp_bystander rfl hx fun locked x₁ hlocked hx₁ => ?_
  obtain rfl : locked = true := hlocked.1.trans (hx.locked.trans hl)
  refine wp_bystander rfl hx₁ fun _ x₂ _ hx₂ => wp_bystander rfl hx₂ fun cache x₃ hcache hx₃ => ?_
  obtain rfl : cache = some c := hcache.1.trans (hx₂.memory.trans hc)
  refine wp_bind .. |>.2 (wp_bind .. |>.2
    (((slotReads_decryptWithNative E cfg c).bystander.wp hx₃).post fun r x₄ hx₄ => ?_))
  cases r with
  | error e => exact hdialog t.localCacheKeyState hx₄
  | ok opened =>
    refine wp_prepare rfl rfl hx₄ fun _ x₅ _ hx₅ => ?_
    refine (wp_finishUnlockWithJson hx₅ rfl hrun _).post fun resp x₆ hx₆ => ?_
    rcases hx₆ with ⟨keys, -, hresp, hx₆⟩ | ⟨-, hresp, hx₆⟩
    · refine (wp_ite ..).2 ⟨fun _ => (wp_unasked hx₆).post fun _ _ hno => ⟨.skipped hno, fun _ => hno⟩,
        fun hno => absurd hresp hno⟩
    · exact (wp_ite ..).2 ⟨fun hok => absurd (hresp.symm.trans hok) Bool.false_ne_true, fun _ => hdialog _ hx₆⟩

theorem wp_unlockWithDecryptedKeys {checked : Bool} (hx : At t ⟨checked, false, []⟩ x)
    (hrun : t.agent.isRunning = true) (request : SshAgentUIRequest) {seed : DProg Unit} (event : RuntimeEvent)
    (hseed : ∀ keys, E.keysFromJson json = .ok keys → ∀ {u x'}, At u ⟨checked, false, []⟩ x' → u.disk = t.disk →
      wp (pinMachine E A) (fun _ _ => True) seed (fun _ => At u ⟨checked, false, []⟩) x') :
    wp (pinMachine E A) (fun _ _ => True) (unlockWithDecryptedKeys E request json key seed event) (fun r x' =>
      (∃ keys, E.keysFromJson json = .ok keys ∧ r.isSome ∧ At (unlockedWith E t keys key) ⟨checked, true, []⟩ x') ∨
      ((∀ keys, E.keysFromJson json ≠ .ok keys) ∧ r = none ∧ At t ⟨checked, false, []⟩ x')) x := by
  unfold unlockWithDecryptedKeys
  split
  · rename_i e he
    exact .inr ⟨fun keys hk => (nomatch he.symm.trans hk), rfl, hx⟩
  · rename_i keys hk
    refine wp_bind .. |>.2 (wp_prepare rfl rfl hx fun _ x₁ _ hx₁ => ⟨trivial, fun _ _ => ?_⟩)
    have hx₂ := hx₁.prepare (E := E) (A := A) rfl (o := .writeCachedKeyTuples keys) rfl ()
    refine wp_prepare rfl rfl hx₂ fun loaded x₃ hl hx₃ => ?_
    obtain rfl : loaded = true := hl.1.trans ((congrArg Agent.isRunning hx₂.agent).trans hrun)
    refine (wp_ite ..).2 ⟨fun _ => wp_bind .. |>.2 ?_, fun h => absurd rfl h⟩
    refine (hseed keys hk hx₃ rfl).post fun _ x₄ hx₄ => wp_prepare rfl rfl hx₄ fun _ x₅ _ hx₅ => ?_
    refine wp_perform_bind.2 ⟨trivial, fun _ _ => ?_⟩
    have hx₆ : At (unlockedWith E t keys key) ⟨checked, true, []⟩ _ := hx₅.unlock (E := E) (A := A)
    exact wp_bystander rfl hx₆ fun _ x₇ _ hx₇ => .inl ⟨keys, hk, rfl, hx₇⟩

theorem UnlockedAs.wp {p : DProg α} (hx : UnlockedAs E t x) :
    Prog.wp (pinMachine E A) (fun _ _ => True) p (fun _ => UnlockedAs E t) x :=
  wp.of_keeps (fun o _ a h _ => h.next o a) p hx

theorem At.unlockedAs (hx : At t { checked := true, unlocked := true } x) : UnlockedAs E t x where
  checked := congrArg PinLog.checked hx.log
  unlocked := congrArg PinLog.unlocked hx.log
  view := by
    rw [hx.log]
    exact hx.view

include hA in
/-- A request that is left to the PIN dialog. -/
theorem wp_autoUnlockPin_request (hx : At t {} x) (hc : t.localKeyCacheData = some c)
    (hrun : t.agent.isRunning = true) (request : SshAgentUIRequest)
    (hn : ∀ keys key, Opens E c pin keys key → cfg.multiDevice = true →
      (t.disk.unlockSlots.getD {}).nativeEncrypted.isSome) :
    wp (pinMachine E A) (fun _ _ => True) (do
      match ← autoUnlockPin E cfg request with
      | some keyName =>
        let approved ← runAuthorizationPrompt cfg request keyName
        op (.broadcast request.requestId approved)
      | none => op (.broadcast request.requestId false)) (fun _ => Ends E pin (UnlockedAs E) (· = t) c) x := by
  have hskip : ∀ {x' : Daemon × PinLog}, x'.2.checked = false → Ends E pin (UnlockedAs E) (· = t) c x' := .skipped
  refine wp_bind .. |>.2 (wp_bystander rfl hx fun cache x₁ hcache hx₁ => ?_)
  obtain rfl : cache = some c := hcache.1.trans (hx.memory.trans hc)
  cases hp : (some c).filter fun c => c.localCacheKey.pinEncrypted.isSome with
  | none => exact ⟨trivial, fun _ _ => hskip (congrArg PinLog.checked (hx₁.next (E := E) (A := A) rfl _).log)⟩
  | some c' =>
    obtain rfl := Phases.eq_of_filter_some hp
    refine wp_bystander rfl hx₁ fun names x₂ _ hx₂ => wp_bind .. |>.2 ?_
    refine (wp_requestPinDialog hA _ hx₂).post fun r x₃ hx₃ => ?_
    rcases hx₃ with ⟨rfl, hx₃⟩ | ⟨rfl, hx₃⟩
    · exact ⟨trivial, fun _ _ => hskip (congrArg PinLog.checked (hx₃.next (E := E) (A := A) rfl _).log)⟩
    · cases hv : pinValidator E c pin with
      | none =>
        refine ⟨trivial, fun _ _ => .refused (not_opens_of_pinValidator hv) ?_⟩
        exact congrArg PinLog.unlocked (hx₃.next (E := E) (A := A) rfl _).log
      | some opened =>
        obtain ⟨json, key⟩ := opened
        refine (wp_unlockWithDecryptedKeys hx₃ hrun request (.autoUnlockedPin pin)
          fun keys hk u x' hx' hu => ?_).post fun r x₄ hx₄ => ?_
        · refine wp_enroll_complete hA hx' (fun hm => ?_) key
          rw [hu]
          exact hn keys key ⟨json, pinValidator_eq_some hv, hk⟩ hm
        · rcases hx₄ with ⟨keys, hk, hr, hx₄⟩ | ⟨hno, rfl, hx₄⟩
          · obtain ⟨keyName, rfl⟩ := Option.isSome_iff_exists.1 hr
            exact hx₄.unlockedAs.wp.post fun _ _ hK => .opened rfl ⟨json, pinValidator_eq_some hv, hk⟩ hK
          · refine ⟨trivial, fun _ _ => .refused (not_opens_of_ne (pinValidator_eq_some hv) hno) ?_⟩
            exact congrArg PinLog.unlocked (hx₄.next (E := E) (A := A) rfl _).log

include hA in
theorem wp_handleLockedRequest_pin (hx : At t {} x) (hc : t.localKeyCacheData = some c)
    (hrun : t.agent.isRunning = true) (request : SshAgentUIRequest)
    (hn : ∀ keys key, Opens E c pin keys key → cfg.multiDevice = true →
      (t.disk.unlockSlots.getD {}).nativeEncrypted.isSome) :
    wp (pinMachine E A) (fun _ _ => True) (handleLockedRequest E cfg request)
      (fun _ => Ends E pin (UnlockedAs E) (· = t) c) x := by
  have hpin : ∀ {x' : Daemon × PinLog}, At t {} x' → _ :=
    fun hx' => wp_autoUnlockPin_request hA hx' hc hrun request hn
  refine wp_bind .. |>.2 (wp_bystander rfl hx fun cache x₁ hcache hx₁ => ?_)
  obtain rfl : cache = some c := hcache.1.trans (hx.memory.trans hc)
  refine wp_bind .. |>.2 (((slotReads_currentNativeUnlockSlot cfg c).bystander.wp hx₁).post fun slot x₂ hx₂ => ?_)
  refine (wp_ite ..).2 ⟨fun _ => hpin hx₂, fun _ => wp_bind .. |>.2 ?_⟩
  refine ((slotReads_decryptWithNative E cfg c).bystander.wp hx₂).post fun r x₃ hx₃ => ?_
  cases r with
  | error e => exact hpin hx₃
  | ok opened =>
    refine (wp_unlockWithDecryptedKeys hx₃ hrun request .autoUnlockedNative ?_).post fun r x₄ hx₄ => ?_
    · exact fun _ _ _ _ hx' _ => hx'
    rcases hx₄ with ⟨keys, -, hr, hx₄⟩ | ⟨-, rfl, hx₄⟩
    · obtain ⟨keyName, rfl⟩ := Option.isSome_iff_exists.1 hr
      exact (wp_unasked hx₄).post fun _ _ => .skipped
    · exact hpin hx₄

include hA in
theorem wp_handleUiRequest_pin (hx : At t {} x) (hl : t.vaultLocked = true) (hc : t.localKeyCacheData = some c)
    (hrun : t.agent.isRunning = true) (request : SshAgentUIRequest)
    (hn : cfg.autoUnlockOnRequest = true → ∀ keys key, Opens E c pin keys key → cfg.multiDevice = true →
      (t.disk.unlockSlots.getD {}).nativeEncrypted.isSome) :
    wp (pinMachine E A) (fun _ _ => True) (handleUiRequest E cfg request) (fun _ x' =>
      Ends E pin (UnlockedAs E) (· = t) c x' ∧ (cfg.autoUnlockOnRequest = false → x'.2.checked = false)) x := by
  have hskip : ∀ {u : Daemon} {x' : Daemon × PinLog}, At u {} x' → Ends E pin (UnlockedAs E) (· = t) c x' ∧
      (cfg.autoUnlockOnRequest = false → x'.2.checked = false) := fun h =>
    ⟨.skipped (congrArg PinLog.checked h.log), fun _ => congrArg PinLog.checked h.log⟩
  refine (wp_ite ..).2 ⟨fun _ => ?_, fun _ => ?_⟩
  · exact wp_bystander rfl hx fun _ x₁ _ hx₁ => wp_prepare rfl rfl hx₁ fun _ x₂ _ hx₂ =>
      ⟨trivial, fun _ _ => hskip (hx₂.next rfl _)⟩
  · refine wp_bystander rfl hx fun locked x₁ hlocked hx₁ => ?_
    obtain rfl : locked = true := hlocked.1.trans (hx.locked.trans hl)
    refine (wp_ite ..).2 ⟨fun hauto => ?_, fun _ => ?_⟩
    · have hon : cfg.autoUnlockOnRequest = true := by simpa using hauto
      refine (wp_handleLockedRequest_pin hA hx₁ hc hrun request (hn hon)).post fun _ _ h => ⟨h, fun hoff => ?_⟩
      exact absurd (hoff.symm.trans hon) Bool.false_ne_true
    · refine wp_bystander rfl hx₁ fun locked x₂ hlocked hx₂ => ?_
      obtain rfl : locked = true := hlocked.1.trans (hx₁.locked.trans hl)
      exact ⟨trivial, fun _ _ => hskip (hx₂.next rfl _)⟩

/-- The vault `t` with the cache `c`, as a command finds it that starts in `s` with `cache`. -/
structure ReloadedAs (cfg : Config) (s : Daemon) (cache : LocalKeyCacheFile) (t : Daemon) (c : LocalKeyCacheFile) :
    Prop where
  locked : t.vaultLocked = s.vaultLocked
  agent : t.agent = s.agent
  memory : t.localKeyCacheData = some c
  usable : c = cache ∨ Loadable cfg s c
  same : c = cache → (cfg.multiDevice = true → SlotsComplete cfg s cache) → t.vaultView = s.vaultView

/-- A slot that the device has, where the shared cache has one, stays. -/
theorem or_of_isSome {a b : Option String} (h : b.isSome → a.isSome) : a.or b = a := by
  cases a with
  | some a => rfl
  | none =>
    cases b with
    | none => rfl
    | some b => exact absurd (h rfl) Bool.false_ne_true

include hA in
theorem wp_reload_pin (hm : s.localKeyCacheData = some cache) (hx : At s {} x) :
    wp (pinMachine E A) (fun _ _ => True) (reloadSharedLocalCacheFromDiskIfMultiDevice cfg)
      (fun _ x' => ∃ t c, ReloadedAs cfg s cache t c ∧ At t {} x') x := by
  have hstay : ∀ {x' : Daemon × PinLog}, At s {} x' → ∃ t c, ReloadedAs cfg s cache t c ∧ At t {} x' :=
    fun h => ⟨s, cache, ⟨rfl, rfl, hm, .inl rfl, fun _ _ => rfl⟩, h⟩
  refine (wp_ite ..).2 ⟨fun _ => hstay hx, fun hmulti => wp_bystander rfl hx fun r x₁ hr hx₁ => ?_⟩
  have hmulti : cfg.multiDevice = true := by simpa using hmulti
  match r, hr with
  | .error e, _ => exact hstay hx₁
  | .ok none, _ => exact hstay hx₁
  | .ok (some c), hr =>
    obtain ⟨hdisk, hversion⟩ := hr.1 _ rfl
    have hload : Loadable cfg s c := ⟨hmulti, (hx.diskCache.symm.trans hdisk.symm), hversion c rfl⟩
    have hpersist : wp (pinMachine E A) (fun _ _ => True) (persistDeviceUnlockSlotsFromCache cfg c)
        (fun _ x' => ∃ d : Disk, (c = cache → SlotsComplete cfg s cache → d = s.disk) ∧
          At { s with disk := d } {} x') x₁ := by
      refine (wp_ite ..).2 ⟨fun hno => ?_, fun _ => wp_bind .. |>.2 ?_⟩
      · rw [hmulti] at hno
        exact absurd hno Bool.false_ne_true
      refine (wp_loadDeviceUnlockSlots hA hx₁).post fun slots x₂ hx₂ => ?_
      obtain ⟨rfl, hx₂⟩ := hx₂
      refine (wp_ite ..).2 ⟨fun hne => ⟨trivial, fun saved _ => ?_⟩, fun _ => ⟨s.disk, fun _ _ => rfl, hx₂⟩⟩
      have herror : ∀ f e, At s {} ((pinMachine E A).next (.saveUnlockSlots f) x₂ (.error e)) :=
        fun f e => hx₂.prepare rfl (o := .saveUnlockSlots f) rfl (.error e)
      have hok : ∀ f u, At { s with disk := { s.disk with unlockSlots := some f } } {}
          ((pinMachine E A).next (.saveUnlockSlots f) x₂ (.ok u)) :=
        fun f u => hx₂.prepare rfl (o := .saveUnlockSlots f) rfl (.ok u)
      cases saved with
      | error e => exact ⟨s.disk, fun _ _ => rfl, herror _ _⟩
      | ok u =>
        refine ⟨_, fun hc hslots => absurd ?_ hne, hok _ _⟩
        subst hc
        rw [or_of_isSome fun _ => hslots.native, or_of_isSome (hslots.helloChallenge hload),
          or_of_isSome (hslots.helloEncrypted hload)]
    refine wp_bind .. |>.2 (hpersist.post ?_)
    rintro - x₂ ⟨d, hd, hx₂⟩
    refine ⟨trivial, fun _ _ => ⟨{ s with disk := d, localKeyCacheData := some c }, c, ?_, ?_⟩⟩
    · refine ⟨rfl, rfl, rfl, .inr hload, fun hc hslots => ?_⟩
      obtain rfl := hd hc (hslots hmulti)
      rw [hc, ← hm]
    · exact hx₂.prepare rfl (o := .writeLocalKeyCache (some c)) rfl ()

theorem finish_unlockedAs (E : Crates) (cfg : Config) (A : Event → Prop) (pin : String) :
    Finish E cfg A pin (UnlockedAs E) where
  tail hx := hx.unlockedAs.wp
  bystander a _ h := h.next _ a

/-- How an attempt ends that starts in `s` with the cache `cache`. -/
def EndsFrom (E : Crates) (cfg : Config) (pin : String) (s : Daemon) (cache : LocalKeyCacheFile)
    (x : Daemon × PinLog) : Prop :=
  ∃ t c, ReloadedAs cfg s cache t c ∧ Ends E pin (UnlockedAs E) (· = t) c x

/-- A vault that the PIN opens is that of `s`, and the device lacks nothing for it. -/
structure SlotsReady (cfg : Config) (s t : Daemon) (c : LocalKeyCacheFile) : Prop where
  settled : needsPinSaltMigration c = false
  native : cfg.multiDevice = true → (t.disk.unlockSlots.getD {}).nativeEncrypted.isSome
  view : t.vaultView = s.vaultView

theorem NothingToPrepare.ready (h : NothingToPrepare E cfg pin s cache) (hr : ReloadedAs cfg s cache t c)
    (ho : Opens E c pin keys key) : SlotsReady cfg s t c := by
  rcases h with h | ⟨hsettled, hshared, hslots⟩
  · exact absurd ho (h c hr.usable keys key)
  · obtain rfl : c = cache := hr.usable.elim id (hshared c)
    have hview := hr.same rfl hslots
    have hdisk : t.disk.unlockSlots = s.disk.unlockSlots := congrArg (·.disk.unlockSlots) hview
    exact ⟨hsettled, fun hm => hdisk ▸ (hslots hm).native, hview⟩

theorem ReloadedAs.refl (hm : s.localKeyCacheData = some cache) : ReloadedAs cfg s cache s cache :=
  ⟨rfl, rfl, hm, .inl rfl, fun _ _ => rfl⟩

theorem pinLog_append (tr tr' : List Event) : pinLog (tr ++ tr') = tr'.foldl PinLog.after (pinLog tr) :=
  List.foldl_append ..

/-- After the unlock nothing is forgotten of it. -/
theorem Ends.of_unlocked {p : DProg α} (h : Ends E pin (UnlockedAs E) G c x) (hu : x.2.unlocked = true) :
    Prog.wp (pinMachine E A) (fun _ _ => True) p (fun _ => Ends E pin (UnlockedAs E) G c) x := by
  cases h with
  | skipped h =>
    exact (wp.of_keeps (I := fun x : Daemon × PinLog => x.2.checked = false ∧ x.2.unlocked = true)
      (fun o _ a h _ => unasked_next h o a) p ⟨h, hu⟩).post fun _ _ h => .skipped h.1
  | opened ht ho hx => exact hx.wp.post fun _ _ hx => .opened ht ho hx
  | refused _ hx => exact absurd (hx.symm.trans hu) Bool.false_ne_true

theorem Ends.of_view {s' : Daemon} (h : Ends E pin (UnlockedAs E) G c (s, l)) (hv : s.vaultView = s'.vaultView) :
    Ends E pin (UnlockedAs E) G c (s', l) := by
  cases h with
  | skipped h => exact .skipped h
  | opened ht ho hx => exact .opened ht ho ⟨hx.checked, hx.unlocked, hv.symm.trans hx.view⟩
  | refused ho hx => exact .refused ho hx

/-- Two attempts end alike. -/
theorem EndsFrom.sameUnlock {tr tr' : List Event} {s₁ s₂ : Daemon} (hok : NothingToPrepare E cfg pin s cache)
    (h : EndsFrom E cfg pin s cache (s₁, pinLog tr)) (h' : EndsFrom E cfg pin s cache (s₂, pinLog tr'))
    (hc : (pinLog tr).checked = true) (hc' : (pinLog tr').checked = true) : SameUnlock tr tr' s₁ s₂ := by
  have hrefused : ∀ {b b' : PinLog}, b.unlocked = false → b'.unlocked = false →
      (b.unlocked = true ↔ b'.unlocked = true) := fun hb hb' => by rw [hb, hb']
  have hcache : ∀ {t t' c c' keys key}, ReloadedAs cfg s cache t c → ReloadedAs cfg s cache t' c' →
      Opens E c pin keys key → c' = c := by
    intro t t' c c' keys key ht ht' ho
    rcases hok with hno | ⟨-, hshared, -⟩
    · exact absurd ho (hno c ht.usable keys key)
    · exact (ht'.usable.elim id (hshared c')).trans (ht.usable.elim id (hshared c)).symm
  obtain ⟨t, c, ht, hend⟩ := h
  obtain ⟨t', c', ht', hend'⟩ := h'
  cases hend with
  | skipped h => exact absurd (h.symm.trans hc) Bool.false_ne_true
  | refused ho hx =>
    cases hend' with
    | skipped h => exact absurd (h.symm.trans hc') Bool.false_ne_true
    | refused _ hx' => exact ⟨hrefused hx hx', fun hu => absurd (hx.symm.trans hu) Bool.false_ne_true⟩
    | opened _ ho' _ =>
      obtain rfl := hcache ht' ht ho'
      exact absurd ho' (ho _ _)
  | opened heq ho hx =>
    obtain rfl := heq
    cases hend' with
    | skipped h => exact absurd (h.symm.trans hc') Bool.false_ne_true
    | refused ho' _ =>
      obtain rfl := hcache ht ht' ho
      exact absurd ho (ho' _ _)
    | opened heq' ho' hx' =>
      obtain rfl := heq'
      obtain rfl := hcache ht ht' ho
      obtain ⟨rfl, rfl⟩ := ho.unique ho'
      refine ⟨iff_of_true hx.unlocked hx'.unlocked, fun _ hafter => ?_⟩
      have hview := (hok.ready ht ho).view.trans (hok.ready ht' ho').view.symm
      rw [hx.view, hx'.view, vaultView_unlockedWith hview]
      exact congrArg (List.foldl (vaultNext E) _) hafter

section
variable (hl : s.vaultLocked = true) (hrun : s.agent.isRunning = true) (hm : s.localKeyCacheData = some cache)
include hl hrun hm

theorem endsFrom_command {tr : List Event} {s' : Daemon} (hok : NothingToPrepare E cfg pin s cache)
    (h : PinTried E cfg pin s .command tr s') : EndsFrom E cfg pin s cache (s', pinLog tr) := by
  obtain ⟨⟨hr, hsteps⟩, hans, -⟩ := h
  cases hr
  have hA : ∀ e, AnswersPin pin e → AnswersPin pin e := fun _ h => h
  have hwp : wp (pinMachine E (AnswersPin pin)) (fun _ _ => True) (mainStep E cfg (.control (.unlockPin pin)))
      (fun _ => EndsFrom E cfg pin s cache) (s, {}) := by
    refine wp_bind .. |>.2 (wp_bind .. |>.2 ((wp_reload_pin hA hm (.start s)).post ?_))
    rintro - x₁ ⟨t, c, ht, hx₁⟩
    refine (wp_handleUnlockPin (finish_unlockedAs ..) hx₁ (ht.locked.trans hl) ht.memory (G := (· = t)) ?_ ?_).post
      fun _ _ h => ⟨t, c, ht, h⟩
    · exact fun t' h => (congrArg Agent.isRunning ((congrArg Daemon.agent h).trans ht.agent)).trans hrun
    · intro json keys key hopen hkeys x hx
      have hready := hok.ready ht ⟨json, hopen, hkeys⟩
      refine wp_bind .. |>.2 ((wp_ite ..).2 ⟨fun hno => ?_, fun _ => ?_⟩)
      · exact absurd (hready.settled.symm.trans hno) Bool.false_ne_true
      · exact (wp_enroll_complete hA hx hready.native key).post fun _ _ hx => ⟨t, rfl, hx⟩
  exact hwp.of_ret ((hsteps.restrict hans).track PinLog.after {})

theorem endsFrom_dialog {entry : PinEntry} {tr : List Event} {s' : Daemon} (hentry : entry ≠ .command)
    (hok : cfg.autoUnlockOnRequest = true → NothingToPrepare E cfg pin s cache)
    (h : PinTried E cfg pin s entry tr s') :
    cfg.autoUnlockOnRequest = true ∧ EndsFrom E cfg pin s cache (s', pinLog tr) := by
  obtain ⟨hentered, hans, hchecked⟩ := h
  have hA : ∀ e, AnswersPin pin e → AnswersPin pin e := fun _ h => h
  have hon : (cfg.autoUnlockOnRequest = false → (pinLog tr).checked = false) → cfg.autoUnlockOnRequest = true :=
    fun hoff => by
      cases hauto : cfg.autoUnlockOnRequest with
      | true => rfl
      | false => exact absurd ((hoff hauto).symm.trans hchecked) Bool.false_ne_true
  have hrequest : ∀ request, wp (pinMachine E (AnswersPin pin)) (fun _ _ => True) (handleUiRequest E cfg request)
      (fun _ x' => Ends E pin (UnlockedAs E) (· = s) cache x' ∧
        (cfg.autoUnlockOnRequest = false → x'.2.checked = false)) (s, {}) := fun request =>
    wp_handleUiRequest_pin hA (.start s) hl hm hrun request fun hauto _ _ ho =>
      ((hok hauto).ready (.refl hm) ho).native
  cases hentered with
  | command => exact absurd rfl hentry
  | unlockDialog h =>
    obtain ⟨hr, hsteps⟩ := h
    cases hr
    have hwp : wp (pinMachine E (AnswersPin pin)) (fun _ _ => True) (mainStep E cfg (.control .unlock))
        (fun _ x' => EndsFrom E cfg pin s cache x' ∧ (cfg.autoUnlockOnRequest = false → x'.2.checked = false))
        (s, {}) := by
      refine wp_bind .. |>.2 (wp_bind .. |>.2 ((wp_reload_pin hA hm (.start s)).post ?_))
      rintro - x₁ ⟨t, c, ht, hx₁⟩
      have hrun' := (congrArg Agent.isRunning ht.agent).trans hrun
      exact (wp_handleUnlock_pin hA (finish_unlockedAs ..) hx₁ (ht.locked.trans hl) ht.memory hrun').post
        fun _ _ h => ⟨⟨t, c, ht, h.1⟩, h.2⟩
    obtain ⟨hend, hoff⟩ := hwp.of_ret ((hsteps.restrict hans).track PinLog.after {})
    exact ⟨hon hoff, hend⟩
  | requested h =>
    cases h with
    | request hsteps =>
      obtain ⟨hend, hoff⟩ := (hrequest _).of_ret ((hsteps.restrict hans).track PinLog.after {})
      exact ⟨hon hoff, s, cache, .refl hm, hend⟩
  | @resolved request tr tr' s₁ _ h hu h' =>
    cases h with
    | request hsteps =>
      have hans₁ : ∀ e ∈ tr, AnswersPin pin e := fun e he => hans e (List.mem_append_left _ he)
      obtain ⟨hend, hoff⟩ := (hrequest _).of_ret ((hsteps.restrict hans₁).track PinLog.after {})
      have hans₂ : ∀ e ∈ tr', AnswersPin pin e := fun e he => hans e (List.mem_append_right _ he)
      have hbound : ∀ {s₂ : Daemon}, s₁.vaultView = s₂.vaultView →
          Steps (machine E) (mainStep E cfg (.runtime (.autoUnlockedPin pin))) s₂ tr' (.ret ()) s' →
          Ends E pin (UnlockedAs E) (· = s) cache (s', pinLog (tr ++ tr')) := fun hv hsteps => by
        rw [pinLog_append]
        exact ((hend.of_view hv).of_unlocked hu).of_ret ((hsteps.restrict hans₂).track PinLog.after _)
      obtain ⟨hr, hsteps'⟩ := h'
      refine ⟨hon fun hoff' => ?_, s, cache, .refl hm, hbound (by cases hr; rfl) hsteps'⟩
      rw [pinLog_append, checked_foldl_after hu]
      exact hoff hoff'

theorem endsFrom_of_tried {entry : PinEntry} {tr : List Event} {s' : Daemon}
    (hok : NothingToPrepare E cfg pin s cache)
    (h : PinTried E cfg pin s entry tr s') : EndsFrom E cfg pin s cache (s', pinLog tr) := by
  by_cases hentry : entry = .command
  · subst hentry
    exact endsFrom_command hl hrun hm hok h
  · exact (endsFrom_dialog hl hrun hm hentry (fun _ => hok) h).2

theorem entriesAgree_of_alike (h : EntriesAlike E cfg pin s cache) : EntriesAgree E cfg pin s := by
  intro entry entry' tr tr' s₁ s₂ hne h₁ h₂
  have hok : NothingToPrepare E cfg pin s cache := by
    rcases h with hoff | hok
    · have hdialog : ∀ {e tr s'}, PinTried E cfg pin s e tr s' → e ≠ .command →
          NothingToPrepare E cfg pin s cache := by
        intro e tr s' ht he
        have hon := (endsFrom_dialog hl hrun hm he
          (fun hon => absurd (hoff.symm.trans hon) Bool.false_ne_true) ht).1
        exact absurd (hoff.symm.trans hon) Bool.false_ne_true
      by_cases hentry : entry = .command
      · exact hdialog h₂ fun hentry' => hne (hentry.trans hentry'.symm)
      · exact hdialog h₁ hentry
    · exact hok
  exact (endsFrom_of_tried hl hrun hm hok h₁).sameUnlock hok (endsFrom_of_tried hl hrun hm hok h₂)
    h₁.checked h₂.checked

end

end SshWarden
