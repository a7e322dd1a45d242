import SshWarden.LockFlag
import SshWarden.Scenario

/-!
# Unlocking needs a credential

`StaysLocked s₀` holds while nothing opens a slot of the cache that the daemon had in the locked state
`s₀` and the server accepts no password: the vault is locked, the agent signs nothing, and the cache
in memory, if any, has the slots of then. Every operation of every handler keeps it, so it also holds
wherever an action is dropped. What breaks it is a PIN set while locked, and a PIN can be set then
once a sync has loaded keys into the session.
-/

namespace SshWarden
open Prog

variable {E : Crates} {cfg₀ cfg : Config} {s₀ s s' : Daemon} {α : Type}

/-- The PIN opens the PIN slot of the cache the daemon has. -/
def OpensPin (E : Crates) (s : Daemon) (pin : String) : Prop :=
  ∃ c key, s.localKeyCacheData = some c ∧ openPinSlot E c.localCacheKey pin = .ok key

/-- A platform slot for the cache, on the device or in the cache. -/
def PlatformSlot (s : Daemon) (slot : String) : Prop :=
  (∃ f, s.disk.unlockSlots = some f ∧ f.nativeEncrypted = some slot) ∨
    ∃ c, s.localKeyCacheData = some c ∧ c.localCacheKey.nativeEncrypted = some slot

/-- The event is no unlock with a slot of `s`, and no password the server accepts. -/
def NoCredential (E : Crates) (s : Daemon) : Event → Prop
  | ⟨.loginPassword _ _, r⟩ => ∀ g, r ≠ .ok g
  | ⟨.nativeDecrypt slot, r⟩ => PlatformSlot s slot → ∀ encoded key, r = .ok encoded →
      decodeSymmetricKey E encoded ≠ .ok key
  | ⟨.pinDialog _, pins⟩ => ∀ pin ∈ pins, ¬OpensPin E s pin
  | _ => True

/-- The action does not bring a PIN of `s`. -/
def BringsNoPin (E : Crates) (s : Daemon) : Turn → Prop
  | .event (.control (.unlockPin pin)) | .dropped (.unlockPin pin) => ¬OpensPin E s pin
  | _ => True

/-- A PIN long enough to be set finds no keys in the session. -/
def FindsNoKeys (s : Daemon) : Turn → Prop
  | .event (.control (.setPin pin)) | .dropped (.setPin pin) =>
    pin.utf8ByteSize < 4 ∨ s.cachedKeyTuples = []
  | _ => True

/-! ### The invariant -/

/-- The cache has the slots of the cache in `s₀`. -/
def SlotsOf (s₀ : Daemon) (c : LocalKeyCacheFile) : Prop :=
  ∃ c₀, s₀.localKeyCacheData = some c₀ ∧ c.localCacheKey = c₀.localCacheKey

structure StaysLocked (s₀ s : Daemon) : Prop where
  running : s.agent.isRunning = true
  locked : s.vaultLocked = true
  unsignable : s.agent.NoPrivate
  cache : ∀ c, s.localKeyCacheData = some c → SlotsOf s₀ c
  slots : ∀ f, s.disk.unlockSlots = some f → s₀.disk.unlockSlots = some f

theorem StaysLocked.start (h : LockSafe s₀) (hl : s₀.vaultLocked = true) : StaysLocked s₀ s₀ :=
  ⟨h.running, hl, h.unsignable hl, fun c hc => ⟨c, hc, rfl⟩, fun _ => id⟩

theorem StaysLocked.congr (h : StaysLocked s₀ s) (hs : SameSecrets s s') : StaysLocked s₀ s' where
  running := hs.isRunning.trans h.running
  locked := hs.vaultLocked.trans h.locked
  unsignable := (noPrivate_congr hs.keystore).2 h.unsignable
  cache c hc := h.cache c (hs.localKeyCacheData ▸ hc)
  slots f hf := h.slots f <| by
    rcases hs.unlockSlots with he | hn
    · exact he ▸ hf
    · rw [hn] at hf
      cases hf

/-- Operations that keep the invariant whatever they are answered. -/
def Op.keepsLocked : Op → Bool
  | agentSetKeys _ | storeVaultLocked false | writeLocalKeyCache (some _) | saveLocalKeyCache _
  | saveUnlockSlots _ => false
  | _ => true

theorem Op.keepsLocked_of_isQuiet {o : Op} (h : o.isQuiet = true) : o.keepsLocked = true := by
  cases o <;> first | rfl | exact absurd h Bool.false_ne_true

theorem StaysLocked.next {o : Op} (h : StaysLocked s₀ s) (ho : o.keepsLocked = true) (a : o.Ans) :
    StaysLocked s₀ (next E o s a) := by
  by_cases hq : o.isQuiet = true
  · exact h.congr (sameSecrets_next E hq s a)
  have same : ∀ {s'}, s'.agent = s.agent → s'.vaultLocked = s.vaultLocked →
      s'.localKeyCacheData = s.localKeyCacheData → s'.disk.unlockSlots = s.disk.unlockSlots →
      StaysLocked s₀ s' := fun ha hl hc hu =>
    ⟨ha ▸ h.running, hl ▸ h.locked, ha ▸ h.unsignable, fun c hc' => h.cache c (hc ▸ hc'),
      fun f hf => h.slots f (hu ▸ hf)⟩
  cases o with
  | startAgent =>
    cases a with
    | false => exact h
    | true => exact ⟨rfl, h.locked, h.unsignable, h.cache, h.slots⟩
  | agentLock => exact ⟨(Agent.lock_isRunning _).trans h.running, h.locked, h.unsignable.lock, h.cache, h.slots⟩
  | agentClearKeys => exact ⟨h.running, h.locked, Agent.noPrivate_clearKeys _, h.cache, h.slots⟩
  | agentSetPublicIdentities ks =>
    exact ⟨(Agent.setPublicIdentities_isRunning ..).trans h.running, h.locked,
      h.unsignable.setPublicIdentities E ks, h.cache, h.slots⟩
  | storeVaultLocked b =>
    cases b with
    | false => exact absurd ho Bool.false_ne_true
    | true => exact ⟨h.running, rfl, h.unsignable, h.cache, h.slots⟩
  | writeLocalKeyCache c =>
    cases c with
    | none => exact ⟨h.running, h.locked, h.unsignable, nofun, h.slots⟩
    | some c => exact absurd ho Bool.false_ne_true
  | deleteLocalKeyCache => cases a <;> exact same rfl rfl rfl rfl
  | _ => first | exact absurd ho Bool.false_ne_true | exact absurd rfl hq | exact same rfl rfl rfl rfl

/-- The daemon in an environment that never presents a credential of `s₀`. -/
abbrev deniedMachine (E : Crates) (s₀ : Daemon) : Machine daemonSig Daemon :=
  (machine E).restrict (NoCredential E s₀)

/-- Before each operation the invariant holds, and a cache that is written has the slots of `s₀`. -/
structure KeepsSlots (s₀ : Daemon) (o : Op) (s : Daemon) : Prop where
  inv : StaysLocked s₀ s
  saved : ∀ c, o = .saveLocalKeyCache c → SlotsOf s₀ c

theorem KeepsSlots.of_keepsLocked {o : Op} (h : StaysLocked s₀ s) (ho : o.keepsLocked = true) :
    KeepsSlots s₀ o s :=
  ⟨h, fun c hc => by subst hc; exact absurd ho Bool.false_ne_true⟩

abbrev KeepsLocked (p : DProg α) : Prop :=
  Prog.Only (S := daemonSig) (fun o : Op => o.keepsLocked = true) p

theorem Quiet.keepsLocked {p : DProg α} (h : Quiet p) : KeepsLocked p :=
  h.mono fun _ => Op.keepsLocked_of_isQuiet

theorem keepsLocked_op {o : Op} (h : o.keepsLocked = true) : KeepsLocked (op o) := ⟨h, fun _ => trivial⟩

theorem wp_keepsLocked {p : DProg α} (hp : KeepsLocked p) (h : StaysLocked s₀ s) :
    wp (deniedMachine E s₀) (KeepsSlots s₀) p (fun _ => StaysLocked s₀) s := by
  induction p generalizing s with
  | ret a => exact h
  | vis o k ih => exact ⟨.of_keepsLocked h hp.1, fun a _ => ih a (hp.2 a) (h.next hp.1 a)⟩

theorem wp_keepsLocked_bind {β : Type} {p : DProg α} {f : α → DProg β} {Q : β → Daemon → Prop}
    (hp : KeepsLocked p) (h : StaysLocked s₀ s)
    (hf : ∀ a s', StaysLocked s₀ s' → wp (deniedMachine E s₀) (KeepsSlots s₀) (f a) Q s') :
    wp (deniedMachine E s₀) (KeepsSlots s₀) (p >>= f) Q s :=
  (wp_bind ..).2 ((wp_keepsLocked hp h).post hf)

/-! ### The phases -/

theorem wp_lockVault_denied (h : StaysLocked s₀ s) :
    wp (deniedMachine E s₀) (KeepsSlots s₀) lockVault (fun _ => StaysLocked s₀) s :=
  wp_keepsLocked (.bind (keepsLocked_op rfl) fun _ => .ite (.bind (keepsLocked_op rfl) fun _ =>
    .bind (keepsLocked_op rfl) fun _ => .bind (keepsLocked_op rfl) fun _ =>
    .bind (keepsLocked_op rfl) fun _ => trivial) trivial) h

/-- The slot the platform is asked to open is one of `s₀`. -/
theorem wp_currentNativeUnlockSlot_denied {c : LocalKeyCacheFile} (h : StaysLocked s₀ s) (hc : SlotsOf s₀ c) :
    wp (deniedMachine E s₀) (KeepsSlots s₀) (currentNativeUnlockSlot cfg c)
      (fun r s' => StaysLocked s₀ s' ∧ ∀ slot, r = some slot → PlatformSlot s₀ slot) s := by
  obtain ⟨c₀, hc₀, hslots⟩ := hc
  refine wp_bind .. |>.2 ⟨.of_keepsLocked h rfl, fun r hr => ?_⟩
  have hdevice : ∀ slot, (match r with | .ok f => f | .error _ => none).bind UnlockSlotsFile.nativeEncrypted
      = some slot → PlatformSlot s₀ slot := by
    intro slot hs
    cases r with
    | error e => cases hs
    | ok f =>
      obtain ⟨f', hf', hn⟩ := Option.bind_eq_some_iff.1 hs
      exact .inl ⟨f', h.slots f' (hr.1 f rfl ▸ hf'), hn⟩
  have hnext := h.next (E := E) (o := .loadUnlockSlots) rfl r
  have hcache : ∀ slot, c.localCacheKey.nativeEncrypted = some slot → PlatformSlot s₀ slot :=
    fun slot hs => .inr ⟨c₀, hc₀, hslots ▸ hs⟩
  cases r with
  | error e =>
    refine (wp_ite ..).2 ⟨fun _ => ⟨hnext, fun _ hs => nomatch hs⟩, fun _ => ⟨hnext, fun slot hs => ?_⟩⟩
    exact hcache slot hs
  | ok f =>
    refine (wp_ite ..).2 ⟨fun _ => ⟨hnext, hdevice⟩, fun _ => ⟨hnext, fun slot hs => ?_⟩⟩
    rcases Option.or_eq_some_iff.1 hs with hs | ⟨-, hs⟩
    · exact hdevice slot hs
    · exact hcache slot hs

theorem wp_decryptWithNative_denied {c : LocalKeyCacheFile} (h : StaysLocked s₀ s) (hc : SlotsOf s₀ c) :
    wp (deniedMachine E s₀) (KeepsSlots s₀) (decryptEnvelopeLocalKeyCacheWithNative E cfg c)
      (fun r s' => StaysLocked s₀ s' ∧ ∀ opened, r ≠ .ok opened) s := by
  refine wp_bind .. |>.2 ((wp_currentNativeUnlockSlot_denied h hc).post ?_)
  rintro slot s₁ ⟨h₁, hslot⟩
  cases slot with
  | none => exact ⟨h₁, nofun⟩
  | some slot =>
    refine wp_perform_bind.2 ⟨.of_keepsLocked h₁ rfl, fun r hr => ?_⟩
    have h₂ := h₁.next (E := E) (o := .nativeDecrypt slot) rfl r
    cases r with
    | error e => exact ⟨h₂, nofun⟩
    | ok encoded =>
      dsimp only
      cases hk : decodeSymmetricKey E encoded with
      | error e => exact ⟨h₂, nofun⟩
      | ok key => exact absurd hk (hr.2 (hslot slot rfl) encoded key rfl)

/-- No PIN that opens the cache has been submitted. -/
theorem opensPin_of_decrypt {c : LocalKeyCacheFile} {pin : String} {opened : String × SymmetricKey}
    (hc : SlotsOf s₀ c) (h : decryptEnvelopeLocalKeyCacheWithPin E c pin = .ok opened) :
    OpensPin E s₀ pin := by
  obtain ⟨c₀, hc₀, hslots⟩ := hc
  obtain ⟨key, hk, -⟩ := except_bind_ok h
  exact ⟨c₀, key, hc₀, hslots ▸ hk⟩

theorem wp_requestPinDialog_denied {c : LocalKeyCacheFile} (context : Option UnlockRequestContext)
    (h : StaysLocked s₀ s) (hc : SlotsOf s₀ c) :
    wp (deniedMachine E s₀) (KeepsSlots s₀) (requestPinDialog context (pinValidator E c))
      (fun r s' => StaysLocked s₀ s' ∧ r = none) s := by
  refine wp_perform_bind.2 ⟨.of_keepsLocked h rfl, fun pins hpins => ?_⟩
  have hkeeps : wp (deniedMachine E s₀) (KeepsSlots s₀) (validateSubmitted (pinValidator E c) pins)
      (fun _ => StaysLocked s₀) _ := wp_keepsLocked
    (pinSteps_validateSubmitted (pinValidator E c) pins).routine.quiet.keepsLocked
    (h.next (E := E) (o := .pinDialog context) rfl pins)
  refine (hkeeps.and (wp_validateSubmitted pins)).mono (fun _ _ hD => hD.1) ?_
  rintro r s₁ ⟨h₁, hr⟩
  refine ⟨h₁, ?_⟩
  cases r with
  | none => rfl
  | some opened =>
    obtain ⟨pin, opened⟩ := opened
    obtain ⟨hm, hv⟩ := hr pin opened rfl
    exact absurd (opensPin_of_decrypt hc (except_eq_ok_of_toOption hv)) (hpins.2 pin hm)

/-- The reconciliation of a sync keeps the slots of the cache it refreshes. -/
theorem wp_reconcile_denied (hm : cfg.multiDevice = false) (keys : List KeyTuple) (h : StaysLocked s₀ s) :
    wp (deniedMachine E s₀) (KeepsSlots s₀) (reconcileSyncedKeyState E cfg keys)
      (fun _ => StaysLocked s₀) s := by
  refine wp_keepsLocked_bind (keepsLocked_op rfl) h fun old s₁ h₁ => ?_
  have hmemory : KeepsLocked (clearAuthorizationMemoryForChangedKeys E old keys) :=
    .ite trivial (.bind (keepsLocked_op rfl) fun _ => trivial)
  refine wp_keepsLocked_bind hmemory h₁ fun _ s₂ h₂ => ?_
  refine wp_keepsLocked_bind (keepsLocked_op rfl) h₂ fun _ s₃ h₃ => ?_
  refine wp_keepsLocked_bind (keepsLocked_op rfl) h₃ fun _ s₄ h₄ => ?_
  refine wp_keepsLocked_bind (keepsLocked_op rfl) h₄ fun _ s₅ h₅ => ?_
  refine wp_perform_bind.2 ⟨.of_keepsLocked h₅ rfl, fun existing hex => ?_⟩
  refine wp_keepsLocked_bind (keepsLocked_op rfl) h₅ fun key s₆ h₆ => ?_
  match existing, key, hex with
  | none, _, _ => exact h₆
  | some _, none, _ => exact h₆
  | some existing, some key, hex =>
    have hslots : SlotsOf s₀ existing := h₅.cache existing hex.1.symm
    refine wp_bind .. |>.2 (wp_keepsLocked_bind (keepsLocked_op rfl) h₆ fun iv s₇ h₇ => ?_)
    split
    · exact wp_keepsLocked (support_notify _).quiet.keepsLocked h₇
    · rename_i cache hbuild
      have hcache : SlotsOf s₀ cache := by
        obtain ⟨c₀, hc₀, hs⟩ := hslots
        obtain ⟨payload, -, hret⟩ := except_bind_ok hbuild
        obtain rfl := Except.ok.inj hret
        exact ⟨c₀, hc₀, by simpa [refreshedSlots, hm] using hs⟩
      refine wp_perform_bind.2 ⟨⟨h₇, fun c hc => ?_⟩, fun r _ => ?_⟩
      · obtain rfl := Op.saveLocalKeyCache.inj hc
        exact hcache
      have h₈ : StaysLocked s₀ (next E (.saveLocalKeyCache cache) s₇ r) := by
        cases r with
        | error e => exact h₇
        | ok u => exact ⟨h₇.running, h₇.locked, h₇.unsignable, h₇.cache, h₇.slots⟩
      cases r with
      | error e => exact wp_keepsLocked (support_notify _).quiet.keepsLocked h₈
      | ok u =>
        show wp _ _ (op (.writeLocalKeyCache (some cache)) >>= fun _ => _) _ _
        refine wp_perform_bind.2 ⟨⟨h₈, nofun⟩, fun _ _ => ?_⟩
        refine wp_keepsLocked (.bind (keepsLocked_op rfl) fun _ => (support_notify _).quiet.keepsLocked) ?_
        refine ⟨h₈.running, h₈.locked, h₈.unsignable, fun c hc => ?_, h₈.slots⟩
        obtain rfl := Option.some.inj hc
        exact hcache

/-- On a single device `forget` also drops the cache. -/
theorem wp_handleForget_denied (hm : cfg.multiDevice = false) (shared : Bool) (h : StaysLocked s₀ s) :
    wp (deniedMachine E s₀) (KeepsSlots s₀) (handleForget cfg shared) (fun _ => StaysLocked s₀) s := by
  have hfiles : KeepsLocked (forgetFiles cfg (shared || !cfg.multiDevice)) := by
    refine .bind (.ite (.bind (keepsLocked_op rfl) fun _ => trivial) trivial) fun _ =>
      .bind (.bind (keepsLocked_op rfl) fun cache => ?_) fun _ => .bind (keepsLocked_op rfl) fun _ =>
      .bind (keepsLocked_op rfl) fun _ => .bind (keepsLocked_op rfl) fun _ => trivial
    cases cache with
    | none => trivial
    | some cache => exact (slotReads_currentNativeUnlockSlot cfg cache).routine.quiet.keepsLocked
  have hsession : KeepsLocked forgetSession :=
    .bind (keepsLocked_op rfl) fun _ => .bind (keepsLocked_op rfl) fun _ => .bind (keepsLocked_op rfl) fun _ =>
    .bind (keepsLocked_op rfl) fun _ => .bind (keepsLocked_op rfl) fun _ => .bind (keepsLocked_op rfl) fun _ =>
    .bind (support_notify _).quiet.keepsLocked fun _ => keepsLocked_op rfl
  have hkeys : KeepsLocked (forgetKeys (shared || !cfg.multiDevice)) := by
    rw [forgetKeys, hm, Bool.not_false, Bool.or_true, if_pos rfl]
    exact .bind (keepsLocked_op rfl) fun _ => .bind (keepsLocked_op rfl) fun _ =>
      .bind (keepsLocked_op rfl) fun _ => keepsLocked_op rfl
  exact wp_keepsLocked (.bind hfiles fun _ => .bind hsession fun _ => .bind hkeys fun _ => trivial) h

theorem wp_handleSetPin_denied {pin : String} (h : StaysLocked s₀ s)
    (hp : pin.utf8ByteSize < 4 ∨ s.cachedKeyTuples = []) :
    wp (deniedMachine E s₀) (KeepsSlots s₀) (handleSetPin E cfg pin) (fun _ => StaysLocked s₀) s := by
  refine (wp_ite ..).2 ⟨fun _ => h, fun hlong => ?_⟩
  refine wp_perform_bind.2 ⟨.of_keepsLocked h rfl, fun keys hkeys => ?_⟩
  have hnone : keys = [] := hkeys.1.trans (hp.resolve_left hlong)
  exact (wp_ite ..).2 ⟨fun _ => h, fun hne => absurd hnone hne⟩

/-! ### Every turn -/

def deniedFacts (E : Crates) (s₀ : Daemon) : Facts Daemon where
  I := StaysLocked s₀
  Locked _ := True
  Unlocked _ := False
  Holds c _ := SlotsOf s₀ c
  Opened _ _ _ := False
  Client _ _ := True
  Fetched _ _ := True
  Synced _ _ := True
  MaySync _ := True
  MaySetPin pin s := pin.utf8ByteSize < 4 ∨ s.cachedKeyTuples = []
  pinOk pin := ¬OpensPin E s₀ pin
  mayForget := True

theorem deniedFacts_keeps (s s' : Daemon) : (deniedFacts E s₀).Keeps s s' :=
  ⟨id, id, fun _ => id, fun _ _ => id, fun _ => id, fun _ => id, fun _ => id, id⟩

theorem deniedPhases (E : Crates) (hm : cfg.multiDevice = false) (s₀ : Daemon) :
    Phases E cfg (deniedMachine E s₀) (KeepsSlots s₀) (deniedFacts E s₀) where
  quiet ho hI := ⟨.of_keepsLocked hI (Op.keepsLocked_of_isQuiet ho), fun a _ =>
    ⟨hI.next (Op.keepsLocked_of_isQuiet ho) a, deniedFacts_keeps _ _⟩⟩
  locked _ _ := trivial
  unlocked hI h := absurd (h.1.trans hI.locked) (by simp)
  readCache hI h := hI.cache _ h.1.symm
  peekCache hI h := hI.cache _ h.1.symm
  peekClient _ _ := trivial
  maySync _ _ := trivial
  reload hI := (wp_ite ..).2 ⟨fun _ => ⟨hI, id⟩, fun h => absurd hm (by simpa using h)⟩
  lock hI := wp_lockVault_denied hI
  native hI _ hc := (wp_decryptWithNative_denied hI hc).post fun _ _ h =>
    ⟨h.1, deniedFacts_keeps _ _, fun _ _ hr => h.2 _ hr⟩
  pin hp _ _ hc hdec := hp (opensPin_of_decrypt hc hdec)
  dialog context hI _ hc := (wp_requestPinDialog_denied context hI hc).post fun _ _ h =>
    ⟨h.1, deniedFacts_keeps _ _, fun _ _ _ hr => nomatch h.2.symm.trans hr⟩
  migrate _ _ _ _ hopen _ := hopen.elim
  enroll _ _ hopen := hopen.elim
  unlock _ _ _ hopen := hopen.elim
  fetch hI _ _ := (wp_keepsLocked (support_syncSshKeys _).quiet.keepsLocked hI).post fun _ _ h =>
    ⟨h, fun _ _ => trivial⟩
  reconcile hI _ := (wp_reconcile_denied hm _ hI).post fun _ _ h => ⟨h, trivial⟩
  load _ _ hu := hu.elim
  setClient hI _ := ⟨.of_keepsLocked hI rfl, fun a _ => ⟨hI.next (E := E) (o := .writeApiClient _) rfl a, id⟩⟩
  pokeClient _ hI _ := ⟨.of_keepsLocked hI rfl, fun a _ => hI.next (E := E) (o := .pokeApiClient _) rfl a⟩
  checkKey _ hu := hu.elim
  forget shared _ hI := wp_handleForget_denied hm shared hI
  setPin pin hp hI := wp_handleSetPin_denied hI hp

theorem deniedRequestPhases (E : Crates) (cfg : Config) (s₀ : Daemon) :
    RequestPhases E cfg (deniedMachine E s₀) (KeepsSlots s₀) (deniedFacts E s₀) where
  requestUnlock _ _ _ _ _ _ hopen := hopen.elim
  unlockedRequest _ _ hu := hu.elim

theorem wp_mainStep_denied (hm : cfg.multiDevice = false) (h : StaysLocked s₀ s) {ev : MainEvent}
    (ha : Phases.eventAllowed (deniedFacts E s₀) s ev) :
    wp (deniedMachine E s₀) (KeepsSlots s₀) (mainStep E cfg ev) (fun _ => StaysLocked s₀) s := by
  refine (deniedPhases E hm s₀).wp_mainStep (fun password hI => ?_) ha h
  exact (deniedPhases E hm s₀).wp_refusedLogin (fun hr => hr.2 _ rfl) hI password

/-- A turn keeps the invariant, and writes no cache with other slots. -/
theorem Step.staysLocked (hm : cfg.multiDevice = false) {t : Turn} {tr : List Event}
    (hstep : Step (deniedMachine E s₀) E cfg s t tr s') (hpin : BringsNoPin E s₀ t) (hkeys : FindsNoKeys s t)
    (h : StaysLocked s₀ s) :
    StaysLocked s₀ s' ∧ ∀ c r, (⟨.saveLocalKeyCache c, r⟩ : Event) ∈ tr → SlotsOf s₀ c := by
  have saved : ∀ {α : Type} {p p' : DProg α} {Q : α → Daemon → Prop} {s s' : Daemon} {tr : List Event},
      wp (deniedMachine E s₀) (KeepsSlots s₀) p Q s → Steps (deniedMachine E s₀) p s tr p' s' →
      ∀ c r, (⟨.saveLocalKeyCache c, r⟩ : Event) ∈ tr → SlotsOf s₀ c := by
    intro α p p' Q s s' tr hwp hsteps c r he
    obtain ⟨x, hx⟩ := hwp.mem_steps hsteps _ he
    exact hx.saved c rfl
  cases hstep with
  | event hr hsteps =>
    rename_i s₁ ev
    have h₁ : StaysLocked s₀ s₁ := h.congr (by
      cases hr <;> exact ⟨rfl, rfl, rfl, rfl, rfl, rfl, rfl, rfl, rfl, rfl, rfl, .inl rfl⟩)
    have ha : Phases.eventAllowed (deniedFacts E s₀) s₁ ev := by
      cases hr with
      | control action => cases action <;> first | exact hpin | exact hkeys
      | _ => trivial
    have hwp := wp_mainStep_denied hm h₁ ha
    exact ⟨hwp.of_ret hsteps, saved hwp hsteps⟩
  | dropped hne hsteps hd =>
    rename_i action p
    obtain ⟨o, k, rfl, -⟩ := hd
    have ha : Phases.eventAllowed (deniedFacts E s₀) s (.control action) := by
      cases action <;> first | exact hpin | exact hkeys
    have hwp := wp_mainStep_denied hm h ha
    exact ⟨(hwp.at_op hsteps).inv, saved hwp hsteps⟩
  | arrives ha =>
    cases ha
    exact ⟨h.congr ⟨rfl, rfl, rfl, rfl, rfl, rfl, rfl, rfl, rfl, rfl, rfl, .inl rfl⟩, nofun⟩
  | request hsteps =>
    rename_i request
    have hwp := (deniedPhases E hm s₀).wp_handleUiRequest (deniedRequestPhases E cfg s₀) h request
    exact ⟨hwp.of_ret hsteps, saved hwp hsteps⟩

theorem Run.staysLocked (hm : cfg.multiDevice = false) {tr : List Event}
    (hrun : Run (deniedMachine E s₀) E cfg (fun s t _ => BringsNoPin E s₀ t ∧ FindsNoKeys s t) s₀ tr s)
    (h : StaysLocked s₀ s₀) :
    StaysLocked s₀ s ∧ ∀ c r, (⟨.saveLocalKeyCache c, r⟩ : Event) ∈ tr → SlotsOf s₀ c := by
  induction hrun with
  | nil => exact ⟨h, nofun⟩
  | turn _ hstep hok ih =>
    obtain ⟨hs, hsaved⟩ := hstep.staysLocked hm hok.1 hok.2 ih.1
    refine ⟨hs, fun c r he => ?_⟩
    rcases List.mem_append.1 he with he | he
    · exact ih.2 c r he
    · exact hsaved c r he

/-- What a locked vault promises while no credential is presented. -/
structure StillLocked (s₀ s : Daemon) (tr : List Event) : Prop where
  locked : s.vaultLocked = true
  unsignable : s.agent.signableKeyCount = 0
  /-- A cache written since has the slots of the cache of then. -/
  written : ∀ c r, (⟨.saveLocalKeyCache c, r⟩ : Event) ∈ tr → SlotsOf s₀ c

/-- From a locked state of a run in which no `forget` was dropped half-way: as long as no credential is
presented, and every PIN that is set finds no keys in the session, the vault stays locked. -/
theorem locked_until_credential (hm : cfg.multiDevice = false) {tr : List Event}
    (h₀ : ReachableIf (machine E) (fun s t tr => ¬HalfForgotten s t tr) E cfg₀ cfg s₀)
    (hl : s₀.vaultLocked = true)
    (hrun : Run (deniedMachine E s₀) E cfg (fun s t _ => BringsNoPin E s₀ t ∧ FindsNoKeys s t) s₀ tr s) :
    StillLocked s₀ s tr := by
  obtain ⟨hs, hsaved⟩ := hrun.staysLocked hm (.start (h₀.lockSafe fun _ _ _ h => h) hl)
  exact ⟨hs.locked, (Agent.noPrivate_iff _).1 hs.unsignable, hsaved⟩

/-- The event carries no answer of the user, the platform or the login server. -/
def presentsNothing : Event → Bool
  | ⟨.loginPassword _ _, _⟩ | ⟨.nativeDecrypt _, _⟩ | ⟨.pinDialog _, _⟩ => false
  | _ => true

theorem noCredential_of_presentsNothing {e : Event} (h : presentsNothing e = true) : NoCredential E s₀ e := by
  obtain ⟨o, a⟩ := e
  cases o <;> trivial

/-- The action brings no PIN that opens the cache. -/
def wrongPin (E : Crates) (s : Daemon) : Turn → Bool
  | .event (.control (.unlockPin pin)) | .dropped (.unlockPin pin) =>
    s.localKeyCacheData.all fun c => (openPinSlot E c.localCacheKey pin).toOption.isNone
  | _ => true

theorem bringsNoPin_of_wrongPin {t : Turn} (h : wrongPin E s t = true) : BringsNoPin E s t := by
  have wrong : ∀ {pin}, (s.localKeyCacheData.all fun c =>
      (openPinSlot E c.localCacheKey pin).toOption.isNone) = true → ¬OpensPin E s pin := by
    rintro pin hall ⟨c, key, hc, hopen⟩
    rw [hc, Option.all_some, hopen] at hall
    exact absurd hall Bool.false_ne_true
  cases t with
  | event ev =>
    cases ev with
    | control action => cases action <;> first | trivial | exact wrong h
    | _ => trivial
  | dropped action => cases action <;> first | trivial | exact wrong h
  | _ => trivial

def deniedCheck (E : Crates) (s₀ : Daemon) (t : Turn) (tr : List Event) : Bool :=
  wrongPin E s₀ t && tr.all presentsNothing

theorem run_denied {E : Crates} {cfg : Config} {s₀ s : Daemon} {scenes : List Scene}
    {ok : Daemon → Turn → List Event → Bool} (h : playAll E cfg scenes s₀ = some s)
    (hok : checkAll E cfg ok scenes s₀ = true)
    (hdenied : ∀ s t tr, ok s t tr = true → deniedCheck E s₀ t tr = true) :
    Run (deniedMachine E s₀) E cfg (fun s t tr => ok s t tr = true) s₀ (traceAll E cfg scenes s₀) s := by
  refine (run_playAll h hok).restrict fun _ _ _ ht e he => ?_
  have hall := (Bool.and_eq_true_iff.1 (hdenied _ _ _ ht)).2
  exact noCredential_of_presentsNothing (List.all_eq_true.1 hall e he)

/-- No action is dropped, and every PIN that is set finds no keys. -/
def findsNoKeys (s : Daemon) : Turn → Bool
  | .dropped _ => false
  | .event (.control (.setPin _)) => s.cachedKeyTuples.isEmpty
  | _ => true

theorem findsNoKeys_spec {t : Turn} {tr : List Event} (h : findsNoKeys s t = true) :
    FindsNoKeys s t ∧ ¬HalfForgotten s t tr := by
  cases t with
  | event ev =>
    refine ⟨?_, nofun⟩
    cases ev with
    | control action => cases action <;> first | trivial | exact .inr (List.isEmpty_iff.1 h)
    | _ => trivial
  | dropped action => exact absurd h Bool.false_ne_true
  | _ => exact ⟨trivial, nofun⟩

/-- A PIN that cannot be set yet, and a sync that loads the keys. -/
def setPinSync : List Scene :=
  [.take (.control (.setPin "9999")) plainScript, .take (.control .sync) plainScript]

def staysLockedBy (scenes : List Scene) (x : Config × Daemon) : Bool :=
  !x.1.multiDevice && x.2.vaultLocked &&
    checkAll .plain x.1 (fun s t tr => deniedCheck .plain x.2 t tr && findsNoKeys s t) scenes x.2 &&
    (playAll .plain x.1 scenes x.2).any fun s => !s.cachedKeyTuples.isEmpty

theorem locked_until_credential_setPin_sync : ∃ s₀ s tr, s.cachedKeyTuples ≠ [] ∧ StillLocked s₀ s tr := by
  obtain ⟨cfg, s₀, hr, hs⟩ := existsIf_of_afterLogin
    (show ((playStart .plain plainConfig plainScript {}).any fun x =>
      checkAll .plain x.1 (fun s t _ => findsNoKeys s t) [.take (.control .lock) plainScript] x.2 &&
      (playAll .plain x.1 [.take (.control .lock) plainScript] x.2).any fun s =>
        staysLockedBy setPinSync (x.1, s)) = true by decide +kernel)
  simp only [staysLockedBy, Bool.and_eq_true, Bool.not_eq_true'] at hs
  obtain ⟨⟨⟨hm, hl⟩, hcheck⟩, hplay⟩ := hs
  obtain ⟨s, hp, hkeys⟩ := (Option.any_eq_true _ _).1 hplay
  have hrun := run_denied hp hcheck fun _ _ _ ht => (Bool.and_eq_true_iff.1 ht).1
  have hrun' : Run (deniedMachine .plain s₀) .plain cfg
      (fun s t _ => BringsNoPin .plain s₀ t ∧ FindsNoKeys s t) s₀ _ s := hrun.mono fun s t tr ht =>
    have h := Bool.and_eq_true_iff.1 ht
    have hfinds : FindsNoKeys s t ∧ ¬HalfForgotten s t tr := findsNoKeys_spec h.2
    ⟨bringsNoPin_of_wrongPin (Bool.and_eq_true_iff.1 h.1).1, hfinds.1⟩
  have h₀ : ReachableIf (machine .plain) (fun s t tr => ¬HalfForgotten s t tr) .plain plainConfig cfg s₀ :=
    hr.mono fun _ _ _ ht => (findsNoKeys_spec ht).2
  have hne : s.cachedKeyTuples ≠ [] := fun he => by simp [he] at hkeys
  exact ⟨s₀, s, _, hne, locked_until_credential hm h₀ hl hrun'⟩

/-- While the vault is locked: a sync, and then a PIN of one's own choice. -/
def syncSetPinUnlock : List Scene :=
  [.take (.control .sync) plainScript, .take (.control (.setPin "9999")) plainScript,
    .take (.control (.unlockPin "9999")) plainScript]

def unlockedBy (scenes : List Scene) (x : Config × Daemon) : Bool :=
  !x.1.multiDevice && x.2.vaultLocked && checkAll .plain x.1 (fun _ => deniedCheck .plain x.2) scenes x.2 &&
    (playAll .plain x.1 scenes x.2).any fun s => !s.vaultLocked

theorem locked_vault_unlocks : ¬∀ cfg s₀ s tr, cfg.multiDevice = false →
    Reachable .plain plainConfig cfg s₀ → s₀.vaultLocked = true →
    Run (deniedMachine .plain s₀) .plain cfg (fun _ t _ => BringsNoPin .plain s₀ t) s₀ tr s →
    StillLocked s₀ s tr := by
  intro h
  obtain ⟨cfg, s₀, hr, hs⟩ := exists_of_afterLogin
    (show (afterLogin plainConfig [.take (.control .lock) plainScript]).any
      (unlockedBy syncSetPinUnlock) = true by decide +kernel)
  simp only [unlockedBy, Bool.and_eq_true, Bool.not_eq_true'] at hs
  obtain ⟨⟨⟨hm, hl⟩, hcheck⟩, hplay⟩ := hs
  obtain ⟨s, hp, hu⟩ := (Option.any_eq_true _ _).1 hplay
  have hrun := (run_denied hp hcheck fun _ _ _ => id).mono fun _ _ _ ht =>
    bringsNoPin_of_wrongPin (Bool.and_eq_true_iff.1 ht).1
  have hstill := h cfg s₀ s _ hm hr hl hrun
  rw [hstill.locked] at hu
  exact absurd hu (by simp)

end SshWarden
