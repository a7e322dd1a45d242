import SshWarden.Support

/-!
# Invariants of a turn

Between a handful of phases (locking, unlocking with an opened cache, reconciling a sync, forgetting,
setting a PIN) a handler only performs quiet operations. `Phases` says what has to be shown of the
phases for an invariant `I` to survive every turn of the daemon, with what the handler knows when it
comes to each of them; `wp_mainStep` and `wp_handleUiRequest` are the result. The machine is
arbitrary, so the facts may be about a state, about a state with some history, or about an environment
that interferes.
-/

namespace SshWarden
open Prog

/-- Operations that change no secret, no cache and no approval. -/
def Op.isQuiet : Op → Bool
  | broadcast _ _ | storePendingSync _ | swapPendingSync _ | agentClearNeedsUnlock => true
  | o => o.keepsCore

theorem Op.isQuiet_of_keepsCore {o : Op} (h : o.keepsCore = true) : o.isQuiet = true := by
  cases o <;> first | exact h | rfl

abbrev Quiet {α : Type} (p : DProg α) : Prop :=
  Prog.Only (S := daemonSig) (fun o : Op => o.isQuiet = true) p

theorem quiet_op {o : Op} (h : o.isQuiet = true) : Quiet (op o) := ⟨h, fun _ => trivial⟩

theorem KeepsCore.quiet {α : Type} {p : DProg α} (h : KeepsCore p) : Quiet p :=
  h.mono fun _ => Op.isQuiet_of_keepsCore

theorem Support.quiet {α : Type} {p : DProg α} (h : Support p) : Quiet p := h.keepsCore.quiet

theorem Routine.quiet {α : Type} {p : DProg α} (h : Routine p) : Quiet p := h.support.quiet

theorem Connecting.quiet {α : Type} {p : DProg α} (h : Connecting p) : Quiet p := h.support.quiet

/-- The invariant, and what a handler learns from the answers it gets. -/
structure Facts (σ : Type) where
  I : σ → Prop
  Locked : σ → Prop
  Unlocked : σ → Prop
  /-- The cache in memory is this one. -/
  Holds : LocalKeyCacheFile → σ → Prop
  /-- A slot of the cache was opened: the payload, and the key in the slot. -/
  Opened : String → SymmetricKey → σ → Prop
  Client : BitwardenClient → σ → Prop
  Fetched : List DecryptedSshKey → σ → Prop
  /-- The key lists of the session have been set to these keys. -/
  Synced : List KeyTuple → σ → Prop
  /-- A sync may run. -/
  MaySync : σ → Prop
  MaySetPin : String → σ → Prop
  pinOk : String → Prop
  mayForget : Prop

namespace Facts
variable {σ : Type}

/-- What was known before is still known. -/
structure Keeps (F : Facts σ) (x x' : σ) : Prop where
  locked : F.Locked x → F.Locked x'
  unlocked : F.Unlocked x → F.Unlocked x'
  holds : ∀ f, F.Holds f x → F.Holds f x'
  opened : ∀ json key, F.Opened json key x → F.Opened json key x'
  client : ∀ c, F.Client c x → F.Client c x'
  fetched : ∀ keys, F.Fetched keys x → F.Fetched keys x'
  synced : ∀ keys, F.Synced keys x → F.Synced keys x'
  maySync : F.MaySync x → F.MaySync x'

theorem Keeps.refl (F : Facts σ) (x : σ) : F.Keeps x x :=
  ⟨id, id, fun _ => id, fun _ _ => id, fun _ => id, fun _ => id, fun _ => id, id⟩

theorem Keeps.trans {F : Facts σ} {x x' x'' : σ} (h : F.Keeps x x') (h' : F.Keeps x' x'') :
    F.Keeps x x'' where
  locked hx := h'.locked (h.locked hx)
  unlocked hx := h'.unlocked (h.unlocked hx)
  holds f hx := h'.holds f (h.holds f hx)
  opened j k hx := h'.opened j k (h.opened j k hx)
  client c hx := h'.client c (h.client c hx)
  fetched ks hx := h'.fetched ks (h.fetched ks hx)
  synced ks hx := h'.synced ks (h.synced ks hx)
  maySync hx := h'.maySync (h.maySync hx)

end Facts

/-- `I` may be assumed before and must hold after the operation `o`. -/
def OpKeeps {σ : Type} (M : Machine daemonSig σ) (D : Op → σ → Prop) (F : Facts σ) (o : Op) (x : σ) : Prop :=
  D o x ∧ ∀ a, M.ready o x a → F.I (M.next o x a)

/-- The phases of the handlers keep the invariant. -/
structure Phases (E : Crates) (cfg : Config) {σ : Type} (M : Machine daemonSig σ) (D : Op → σ → Prop)
    (F : Facts σ) : Prop where
  quiet : ∀ {o x}, o.isQuiet = true → F.I x →
    D o x ∧ ∀ a, M.ready o x a → F.I (M.next o x a) ∧ F.Keeps x (M.next o x a)
  locked : ∀ {x}, F.I x → M.ready .loadVaultLocked x true → F.Locked (M.next .loadVaultLocked x true)
  unlocked : ∀ {x}, F.I x → M.ready .loadVaultLocked x false → F.Unlocked (M.next .loadVaultLocked x false)
  readCache : ∀ {x f}, F.I x → M.ready .readLocalKeyCache x (some f) →
    F.Holds f (M.next .readLocalKeyCache x (some f))
  peekCache : ∀ {x f}, F.I x → M.ready .peekLocalKeyCache x (some f) →
    F.Holds f (M.next .peekLocalKeyCache x (some f))
  peekClient : ∀ {x c}, F.I x → M.ready .peekApiClient x (some c) →
    F.Client c (M.next .peekApiClient x (some c))
  maySync : ∀ {x}, F.I x → F.Unlocked x → F.MaySync x
  reload : ∀ {x}, F.I x → wp M D (reloadSharedLocalCacheFromDiskIfMultiDevice cfg)
    (fun _ x' => F.I x' ∧ (F.MaySync x → F.MaySync x')) x
  lock : ∀ {x}, F.I x → wp M D lockVault (fun _ => F.I) x
  native : ∀ {x f}, F.I x → F.Locked x → F.Holds f x →
    wp M D (decryptEnvelopeLocalKeyCacheWithNative E cfg f) (fun r x' => F.I x' ∧ F.Keeps x x' ∧
      ∀ json key, r = .ok (json, key) → F.Opened json key x') x
  pin : ∀ {x f pin json key}, F.pinOk pin → F.I x → F.Locked x → F.Holds f x →
    decryptEnvelopeLocalKeyCacheWithPin E f pin = .ok (json, key) → F.Opened json key x
  dialog : ∀ {x f} context, F.I x → F.Locked x → F.Holds f x →
    wp M D (requestPinDialog context (pinValidator E f)) (fun r x' => F.I x' ∧ F.Keeps x x' ∧
      ∀ pin json key, r = some (pin, json, key) → F.Opened json key x') x
  migrate : ∀ {x f pin json key}, F.pinOk pin → F.I x → F.Locked x → F.Holds f x → F.Opened json key x →
    decryptEnvelopeLocalKeyCacheWithPin E f pin = .ok (json, key) →
    wp M D (migratePinSlotIfNeeded E f key pin)
      (fun _ x' => F.I x' ∧ F.Locked x' ∧ F.Opened json key x') x
  enroll : ∀ {x json key}, F.I x → F.Locked x → F.Opened json key x →
    wp M D (enrollDevicePlatformSlotsIfMissing E cfg key) (fun _ x' => F.I x' ∧ F.Keeps x x') x
  unlock : ∀ {x json key} msg, F.I x → F.Locked x → F.Opened json key x →
    wp M D (do op (.writeLocalCacheKey (some key)); finishUnlockWithJson E json msg)
      (fun resp x' => F.I x' ∧ (resp.ok = false → F.Locked x') ∧ (resp.ok = true → F.MaySync x')) x
  fetch : ∀ {x c}, F.I x → F.MaySync x → F.Client c x →
    wp M D (syncSshKeys c) (fun r x' => F.I x' ∧ ∀ keys, r = .ok keys → F.Fetched keys x') x
  reconcile : ∀ {x keys}, F.I x → F.Fetched keys x →
    wp M D (reconcileSyncedKeyState E cfg (keys.map DecryptedSshKey.tuple))
      (fun _ x' => F.I x' ∧ F.Synced (keys.map DecryptedSshKey.tuple) x') x
  load : ∀ {x keys}, F.I x → F.Synced keys x → F.Unlocked x → OpKeeps M D F (.agentSetKeys keys) x
  setClient : ∀ {x c}, F.I x → c.userKey = none → D (.writeApiClient (some c)) x ∧
    ∀ a, M.ready (.writeApiClient (some c)) x a → F.I (M.next (.writeApiClient (some c)) x a) ∧
      (F.MaySync x → F.MaySync (M.next (.writeApiClient (some c)) x a))
  pokeClient : ∀ {x c} grant, F.I x → F.Client c x → OpKeeps M D F (.pokeApiClient (c.refreshed grant)) x
  checkKey : ∀ {x}, F.I x → F.Unlocked x →
    wp M D (ensureLocalCacheKeyForManualSync E cfg) (fun _ x' => F.I x' ∧ F.MaySync x') x
  forget : ∀ {x} shared, F.mayForget → F.I x → wp M D (handleForget cfg shared) (fun _ => F.I) x
  setPin : ∀ {x} pin, F.MaySetPin pin x → F.I x → wp M D (handleSetPin E cfg pin) (fun _ => F.I) x

/-- The phases of the request handlers. -/
structure RequestPhases (E : Crates) (cfg : Config) {σ : Type} (M : Machine daemonSig σ) (D : Op → σ → Prop)
    (F : Facts σ) : Prop where
  requestUnlock : ∀ {x json key} (request : SshAgentUIRequest) {seed : DProg Unit} (event : RuntimeEvent),
    SlotSupport seed → F.I x → F.Locked x → F.Opened json key x →
    wp M D (unlockWithDecryptedKeys E request json key seed event)
      (fun r x' => F.I x' ∧ (r = none → F.Locked x')) x
  unlockedRequest : ∀ {x} (request : SshAgentUIRequest), F.I x → F.Unlocked x →
    wp M D (handleUnlockedRequest cfg request) (fun _ => F.I) x

namespace Phases

variable {E : Crates} {cfg : Config} {σ α β : Type} {M : Machine daemonSig σ} {D : Op → σ → Prop}
  {F : Facts σ} {x : σ}

theorem wp_quiet (h : Phases E cfg M D F) {p : DProg α} (hp : Quiet p) (hI : F.I x) {Q : α → σ → Prop}
    (hQ : ∀ a x', F.I x' → F.Keeps x x' → Q a x') : wp M D p Q x := by
  induction p generalizing x with
  | ret a => exact hQ a x hI (.refl F x)
  | vis o k ih =>
    obtain ⟨hD, hnext⟩ := h.quiet hp.1 hI
    refine ⟨hD, fun a ha => ih a (hp.2 a) (hnext a ha).1 fun b x' hI' hk => ?_⟩
    exact hQ b x' hI' ((hnext a ha).2.trans hk)

theorem wp_quietly (h : Phases E cfg M D F) {p : DProg α} (hp : Quiet p) (hI : F.I x) :
    wp M D p (fun _ => F.I) x :=
  h.wp_quiet hp hI fun _ _ hI' _ => hI'

theorem wp_quiet_bind (h : Phases E cfg M D F) {p : DProg α} {f : α → DProg β} (hp : Quiet p)
    (hI : F.I x) {Q : β → σ → Prop} (hf : ∀ a x', F.I x' → F.Keeps x x' → wp M D (f a) Q x') :
    wp M D (p >>= f) Q x :=
  wp_bind p f Q |>.2 (h.wp_quiet hp hI hf)

theorem wp_ret (hI : F.I x) (a : α) : wp M D (pure a : DProg α) (fun _ => F.I) x := hI

theorem wp_bind_then {p : DProg α} {f : α → DProg β} (hp : wp M D p (fun _ => F.I) x)
    (hf : ∀ a x', F.I x' → wp M D (f a) (fun _ => F.I) x') : wp M D (p >>= f) (fun _ => F.I) x :=
  wp_bind p f _ |>.2 (hp.post hf)

theorem wp_op_then {o : Op} {f : o.Ans → DProg β} (ho : OpKeeps M D F o x)
    (hf : ∀ a x', F.I x' → wp M D (f a) (fun _ => F.I) x') : wp M D (op o >>= f) (fun _ => F.I) x :=
  wp_perform_bind.2 ⟨ho.1, fun a ha => hf a _ (ho.2 a ha)⟩

/-- Branch on the lock flag, with what it tells. -/
theorem wp_loadVaultLocked (h : Phases E cfg M D F) {f : Bool → DProg α} (hI : F.I x)
    (hl : ∀ x', F.I x' → F.Keeps x x' → F.Locked x' → wp M D (f true) (fun _ => F.I) x')
    (hu : ∀ x', F.I x' → F.Keeps x x' → F.Unlocked x' → wp M D (f false) (fun _ => F.I) x') :
    wp M D (op .loadVaultLocked >>= f) (fun _ => F.I) x := by
  obtain ⟨hD, hnext⟩ := h.quiet (o := .loadVaultLocked) rfl hI
  refine wp_perform_bind.2 ⟨hD, fun b hb => ?_⟩
  obtain ⟨hI', hk⟩ := hnext b hb
  cases b with
  | true => exact hl _ hI' hk (h.locked hI hb)
  | false => exact hu _ hI' hk (h.unlocked hI hb)

theorem wp_readLocalKeyCache (h : Phases E cfg M D F) {f : Option LocalKeyCacheFile → DProg α} (hI : F.I x)
    (hnone : ∀ x', F.I x' → wp M D (f none) (fun _ => F.I) x')
    (hsome : ∀ c x', F.I x' → F.Keeps x x' → F.Holds c x' → wp M D (f (some c)) (fun _ => F.I) x') :
    wp M D (op .readLocalKeyCache >>= f) (fun _ => F.I) x := by
  obtain ⟨hD, hnext⟩ := h.quiet (o := .readLocalKeyCache) rfl hI
  refine wp_perform_bind.2 ⟨hD, fun c hc => ?_⟩
  obtain ⟨hI', hk⟩ := hnext c hc
  cases c with
  | none => exact hnone _ hI'
  | some c => exact hsome c _ hI' hk (h.readCache hI hc)

/-- The end of a sync, after the reconciliation. -/
theorem wp_loadSynced (h : Phases E cfg M D F) (hI : F.I x) {keys : List KeyTuple} (hs : F.Synced keys x) :
    wp M D (do
      op (.writeKeyNames (keyNamesOf keys))
      op (.release .apiClient)
      if !(← op .loadVaultLocked) then
        if ← op (.agentSetKeys keys) then
          notify .recordSuccessfulSync
          return (.ok keys.length : Except String Nat)
        else return .error s!"Sync succeeded but failed to reload keys: {setKeysError}"
      else
        notify .recordSuccessfulSync
        return .ok keys.length) (fun _ => F.I) x := by
  refine h.wp_quiet_bind (quiet_op rfl) hI fun _ x₁ hI₁ hk₁ => ?_
  refine h.wp_quiet_bind (quiet_op rfl) hI₁ fun _ x₂ hI₂ hk₂ => ?_
  refine h.wp_loadVaultLocked hI₂ (fun x₃ hI₃ _ _ => ?_) fun x₃ hI₃ hk₃ hu => ?_
  · exact h.wp_quiet_bind (support_notify _).quiet hI₃ fun _ _ hI₄ _ => wp_ret hI₄ _
  · have hs₃ := hk₃.synced _ (hk₂.synced _ (hk₁.synced _ hs))
    refine wp_op_then (h.load hI₃ hs₃ hu) fun a x₄ hI₄ => ?_
    cases a with
    | true => exact h.wp_quiet_bind (support_notify _).quiet hI₄ fun _ _ hI₅ _ => wp_ret hI₅ _
    | false => exact wp_ret hI₄ _

theorem wp_doSync (h : Phases E cfg M D F) (hI : F.I x) (hm : F.MaySync x) :
    wp M D (doSync E cfg) (fun _ => F.I) x := by
  refine h.wp_quiet_bind (quiet_op rfl) hI fun _ x₁ hI₁ hk₁ => ?_
  obtain ⟨hD, hnext⟩ := h.quiet (o := .peekApiClient) rfl hI₁
  refine wp_perform_bind.2 ⟨hD, fun c hc => ?_⟩
  obtain ⟨hI₂, hk₂⟩ := hnext c hc
  have hrelease : ∀ {x'} (r : Except String Nat), F.I x' →
      wp M D (do op (.release .apiClient); return r) (fun _ => F.I) x' :=
    fun r hI' => h.wp_quiet_bind (quiet_op rfl) hI' fun _ _ hI'' _ => wp_ret hI'' r
  cases c with
  | none => exact hrelease _ hI₂
  | some client =>
    refine (wp_ite ..).2 ⟨fun _ => hrelease _ hI₂, fun _ => ?_⟩
    have hm₂ := hk₂.maySync (hk₁.maySync hm)
    refine wp_bind .. |>.2 ((h.fetch hI₂ hm₂ (h.peekClient hI₁ hc)).post ?_)
    rintro r x₃ ⟨hI₃, hfetched⟩
    cases r with
    | error e => exact hrelease _ hI₃
    | ok keys =>
      refine h.wp_quiet_bind (quiet_op rfl) hI₃ fun _ x₄ hI₄ hk₄ => ?_
      refine h.wp_quiet_bind (quiet_op rfl) hI₄ fun _ x₅ hI₅ hk₅ => ?_
      have hf := hk₅.fetched _ (hk₄.fetched _ (hfetched keys rfl))
      refine wp_bind .. |>.2 ((h.reconcile hI₅ hf).post fun _ x₆ hx₆ => ?_)
      exact h.wp_loadSynced hx₆.1 hx₆.2

theorem wp_resolvePendingSync (h : Phases E cfg M D F) (hI : F.I x) (hm : F.MaySync x) :
    wp M D (resolvePendingSync E cfg) (fun _ => F.I) x := by
  refine h.wp_quiet_bind (quiet_op rfl) hI fun pending x₁ hI₁ hk₁ => ?_
  refine (wp_ite ..).2 ⟨fun _ => wp_ret hI₁ _, fun _ => ?_⟩
  refine wp_bind_then (h.wp_doSync hI₁ (hk₁.maySync hm)) fun r x₂ hI₂ => ?_
  cases r with
  | ok n => exact wp_ret hI₂ _
  | error e => exact h.wp_quiet_bind (quiet_op rfl) hI₂ fun _ _ hI₃ _ => wp_ret hI₃ _

theorem wp_handleSync (h : Phases E cfg M D F) (hI : F.I x) (hm : F.MaySync x) :
    wp M D (handleSync E cfg) (fun _ => F.I) x := by
  have hrun : ∀ {x'} (wasLocked : Bool), F.I x' → F.MaySync x' →
      wp M D (runManualSync E cfg wasLocked) (fun _ => F.I) x' := by
    intro x' wasLocked hI' hm'
    refine wp_bind_then (h.wp_doSync hI' hm') fun r x₂ hI₂ => ?_
    cases r with
    | error e => exact wp_ret hI₂ _
    | ok n =>
      refine (wp_ite ..).2 ⟨fun _ => ?_, fun _ => wp_ret hI₂ _⟩
      exact h.wp_quiet_bind (quiet_op rfl) hI₂ fun _ _ hI₃ _ => wp_ret hI₃ _
  refine h.wp_loadVaultLocked hI (fun x₁ hI₁ hk₁ _ => hrun true hI₁ (hk₁.maySync hm)) fun x₁ hI₁ hk₁ hu => ?_
  refine (wp_ite ..).2 ⟨fun _ => ?_, fun _ => hrun false hI₁ (hk₁.maySync hm)⟩
  refine wp_bind .. |>.2 ((h.checkKey hI₁ hu).post ?_)
  rintro r x₂ ⟨hI₂, hm₂⟩
  cases r with
  | some e => exact wp_ret hI₂ _
  | none => exact hrun false hI₂ hm₂

/-! ### Unlocking -/

theorem eq_of_filter_some {α : Type} {p : α → Bool} {a b : α} (h : (some a).filter p = some b) : a = b := by
  rw [Option.filter_some] at h
  split at h
  · exact Option.some.inj h
  · cases h

theorem wp_tryRestoreApiSession (h : Phases E cfg M D F) (hI : F.I x) (hm : F.MaySync x) (pin : String) :
    wp M D (tryRestoreApiSession E cfg pin) (fun _ x' => F.I x' ∧ F.MaySync x') x := by
  refine h.wp_quiet_bind (quiet_op rfl) hI fun client x₁ hI₁ hk₁ => ?_
  have hm₁ := hk₁.maySync hm
  refine (wp_ite ..).2 ⟨fun _ => ⟨hI₁, hm₁⟩, fun _ => ?_⟩
  refine h.wp_quiet_bind routine_loadDeviceSession.quiet hI₁ fun session x₂ hI₂ hk₂ => ?_
  have hm₂ := hk₂.maySync hm₁
  split
  · exact ⟨hI₂, hm₂⟩
  · rename_i stored enc heq
    split
    · exact ⟨hI₂, hm₂⟩
    · rename_i refreshToken hpin
      refine h.wp_quiet_bind (quiet_op rfl) hI₂ fun r x₃ hI₃ hk₃ => ?_
      have hm₃ := hk₃.maySync hm₂
      cases r with
      | error e =>
        exact h.wp_quiet_bind (quiet_op rfl) hI₃ fun _ _ hI₄ hk₄ => ⟨hI₄, hk₄.maySync hm₃⟩
      | ok grant =>
        refine h.wp_quiet_bind (hubSteps_connectIfAuthenticated cfg _).connecting.quiet hI₃ fun _ x₄ hI₄ hk₄ => ?_
        refine h.wp_quiet_bind (savingSteps_saveDeviceSession E _ _).routine.quiet hI₄ fun _ x₅ hI₅ hk₅ => ?_
        obtain ⟨hD, hnext⟩ := h.setClient (c := (restoredClient cfg stored refreshToken).refreshed grant) hI₅ rfl
        exact ⟨hD, fun a ha => ⟨(hnext a ha).1, (hnext a ha).2 (hk₅.maySync (hk₄.maySync hm₃))⟩⟩

/-- The last part of an unlock: the session is restored for a PIN, and a pending sync done. -/
theorem wp_afterUnlock (h : Phases E cfg M D F) (hI : F.I x) (pin : String) {resp : ControlResponse}
    (hm : resp.ok = true → F.MaySync x) :
    wp M D (do
      if resp.ok then
        tryRestoreApiSession E cfg pin
        let _ ← resolvePendingSync E cfg
        return resp
      else return resp) (fun _ => F.I) x := by
  refine (wp_ite ..).2 ⟨fun hok => ?_, fun _ => wp_ret hI _⟩
  refine wp_bind .. |>.2 ((h.wp_tryRestoreApiSession hI (hm hok) pin).post ?_)
  rintro - x₁ ⟨hI₁, hm₁⟩
  exact wp_bind_then (h.wp_resolvePendingSync hI₁ hm₁) fun _ _ hI₂ => wp_ret hI₂ _

theorem wp_handleUnlockDialog (h : Phases E cfg M D F) (hI : F.I x) (hl : F.Locked x) :
    wp M D (handleUnlockDialog E cfg) (fun _ => F.I) x := by
  refine (wp_ite ..).2 ⟨fun _ => ?_, fun _ => wp_ret hI _⟩
  refine h.wp_readLocalKeyCache hI (fun x₁ hI₁ => wp_ret hI₁ _) fun c x₁ hI₁ hk₁ hc => ?_
  cases hp : (some c).filter fun c => c.localCacheKey.pinEncrypted.isSome with
  | none => exact wp_ret hI₁ _
  | some c' =>
    obtain rfl := eq_of_filter_some hp
    refine wp_bind .. |>.2 ((h.dialog none hI₁ (hk₁.locked hl) hc).post ?_)
    rintro r x₂ ⟨hI₂, hk₂, hopen⟩
    match r, hopen with
    | none, _ => exact wp_ret hI₂ _
    | some (pin, json, key), hopen =>
      have hl₂ := hk₂.locked (hk₁.locked hl)
      refine (wp_bind ..).2 ?_
      have hunlock := h.unlock "Vault unlocked via PIN dialog" hI₂ hl₂ (hopen pin json key rfl)
      rw [wp_bind] at hunlock
      refine hunlock.post fun _ x₃ hx₃ => ?_
      exact wp_bind .. |>.2 (hx₃.post fun resp x₄ hx₄ => h.wp_afterUnlock hx₄.1 pin hx₄.2.2)

theorem wp_finishNativeUnlockResponse (h : Phases E cfg M D F) (hI : F.I x) (hl : F.Locked x)
    {c : LocalKeyCacheFile} (hc : F.Holds c x) (msg : String) :
    wp M D (finishNativeUnlockResponse E cfg c msg)
      (fun resp x' => F.I x' ∧ (resp.ok = false → F.Locked x') ∧ (resp.ok = true → F.MaySync x')) x := by
  refine wp_bind .. |>.2 ((h.native hI hl hc).post ?_)
  rintro r x₁ ⟨hI₁, hk₁, hopen⟩
  match r, hopen with
  | .error e, _ => exact ⟨hI₁, fun _ => hk₁.locked hl, fun hok => absurd hok Bool.false_ne_true⟩
  | .ok (json, key), hopen => exact h.unlock msg hI₁ (hk₁.locked hl) (hopen json key rfl)

theorem wp_handleUnlock (h : Phases E cfg M D F) (hI : F.I x) :
    wp M D (handleUnlock E cfg) (fun _ => F.I) x := by
  refine h.wp_loadVaultLocked hI (fun x₁ hI₁ _ hl => ?_) fun x₁ hI₁ _ _ => wp_ret hI₁ _
  refine h.wp_quiet_bind (quiet_op rfl) hI₁ fun _ x₂ hI₂ hk₂ => ?_
  obtain ⟨hD, hnext⟩ := h.quiet (o := .peekLocalKeyCache) rfl hI₂
  refine wp_perform_bind.2 ⟨hD, fun c hc => ?_⟩
  obtain ⟨hI₃, hk₃⟩ := hnext c hc
  have hl₃ := hk₃.locked (hk₂.locked hl)
  cases c with
  | none =>
    refine h.wp_quiet_bind (quiet_op rfl) hI₃ fun _ x₄ hI₄ hk₄ => ?_
    exact h.wp_handleUnlockDialog hI₄ (hk₄.locked hl₃)
  | some c =>
    refine wp_bind .. |>.2 ((h.wp_finishNativeUnlockResponse hI₃ hl₃ (h.peekCache hI₂ hc) _).post ?_)
    rintro resp x₄ ⟨hI₄, hl₄, hm₄⟩
    refine (wp_ite ..).2 ⟨fun hok => ?_, fun hno => ?_⟩
    · refine wp_bind_then (h.wp_resolvePendingSync hI₄ (hm₄ hok)) fun _ x₅ hI₅ => ?_
      exact h.wp_quiet_bind (quiet_op rfl) hI₅ fun _ _ hI₆ _ => wp_ret hI₆ _
    · refine h.wp_quiet_bind (quiet_op rfl) hI₄ fun _ x₅ hI₅ hk₅ => ?_
      exact h.wp_handleUnlockDialog hI₅ (hk₅.locked (hl₄ (by simpa using hno)))

theorem wp_handleUnlockNative (h : Phases E cfg M D F) (hI : F.I x) :
    wp M D (handleUnlockNative E cfg) (fun _ => F.I) x := by
  refine h.wp_loadVaultLocked hI (fun x₁ hI₁ _ hl => ?_) fun x₁ hI₁ _ _ => wp_ret hI₁ _
  refine h.wp_readLocalKeyCache hI₁ (fun x₂ hI₂ => wp_ret hI₂ _) fun c x₂ hI₂ hk₂ hc => ?_
  refine wp_bind .. |>.2 ((h.wp_finishNativeUnlockResponse hI₂ (hk₂.locked hl) hc _).post ?_)
  rintro resp x₃ ⟨hI₃, -, hm₃⟩
  refine (wp_ite ..).2 ⟨fun hok => ?_, fun _ => wp_ret hI₃ _⟩
  exact wp_bind_then (h.wp_resolvePendingSync hI₃ (hm₃ hok)) fun _ _ hI₄ => wp_ret hI₄ _

theorem wp_unlockPinBlock (h : Phases E cfg M D F) {pin : String} (hpin : F.pinOk pin) (hI : F.I x)
    (hl : F.Locked x) : wp M D (unlockPinBlock E cfg pin) (fun _ => F.I) x := by
  refine h.wp_readLocalKeyCache hI (fun x₁ hI₁ => wp_ret hI₁ _) fun c x₁ hI₁ hk₁ hc => ?_
  have hl₁ := hk₁.locked hl
  cases hdec : decryptEnvelopeLocalKeyCacheWithPin E c pin with
  | error e => simp only [hdec]; exact wp_ret hI₁ _
  | ok opened =>
    obtain ⟨json, key⟩ := opened
    have hopen := h.pin hpin hI₁ hl₁ hc hdec
    simp only [hdec]
    refine wp_bind .. |>.2 ((h.migrate hpin hI₁ hl₁ hc hopen hdec).post ?_)
    rintro - x₂ ⟨hI₂, hl₂, hopen₂⟩
    refine wp_bind .. |>.2 ((h.enroll hI₂ hl₂ hopen₂).post ?_)
    rintro - x₃ ⟨hI₃, hk₃⟩
    have hunlock := h.unlock "Vault unlocked via PIN local key cache" hI₃ (hk₃.locked hl₂)
      (hk₃.opened json key hopen₂)
    rw [wp_bind] at hunlock
    refine (wp_bind ..).2 (hunlock.post fun _ x₄ hx₄ => ?_)
    exact wp_bind .. |>.2 (hx₄.post fun resp x₅ hx₅ => h.wp_afterUnlock hx₅.1 pin hx₅.2.2)

theorem wp_handleUnlockPin (h : Phases E cfg M D F) {pin : String} (hpin : F.pinOk pin) (hI : F.I x) :
    wp M D (handleUnlockPin E cfg pin) (fun _ => F.I) x := by
  refine h.wp_loadVaultLocked hI (fun x₁ hI₁ _ hl => ?_) fun x₁ hI₁ _ _ => wp_ret hI₁ _
  refine h.wp_quiet_bind pinSteps_pinLockoutRemaining.routine.quiet hI₁ fun wait x₂ hI₂ hk₂ => ?_
  cases wait with
  | some wait => exact wp_ret hI₂ _
  | none =>
    refine wp_bind_then (h.wp_unlockPinBlock hpin hI₂ (hk₂.locked hl)) fun resp x₃ hI₃ => ?_
    refine h.wp_quiet_bind (pinSteps_recordPinAttempt _).routine.quiet hI₃ fun delay x₄ hI₄ _ => ?_
    refine (wp_ite ..).2 ⟨fun _ => ?_, fun _ => wp_ret hI₄ _⟩
    exact h.wp_quiet_bind (quiet_op rfl) hI₄ fun _ _ hI₅ _ => wp_ret hI₅ _

/-- The phases of a login: between the reconciliation and the new keys in the agent the invariant may
be replaced by `J`. -/
structure LoginPhases (E : Crates) (cfg : Config) (M : Machine daemonSig σ) (D : Op → σ → Prop)
    (F : Facts σ) (L : List DecryptedSshKey → σ → Prop) (J : List KeyTuple → σ → Prop) : Prop where
  fetch : ∀ {x} client, F.I x → wp M D (syncSshKeys client)
    (fun r x' => F.I x' ∧ ∀ keys, r = .ok keys → L keys x') x
  files : ∀ {x o a keys}, Op.isSupport o = true → F.I x → M.ready o x a → L keys x → L keys (M.next o x a)
  reconcile : ∀ {x keys}, F.I x → L keys x →
    wp M D (reconcileSyncedKeyState E cfg (keys.map DecryptedSshKey.tuple))
      (fun _ x' => J (keys.map DecryptedSshKey.tuple) x') x
  names : ∀ {x keys m}, J keys x → D (.writeKeyNames m) x ∧
    ∀ a, M.ready (.writeKeyNames m) x a → J keys (M.next (.writeKeyNames m) x a)
  load : ∀ {x keys}, J keys x → D (.agentSetKeys keys) x ∧ ∀ a, M.ready (.agentSetKeys keys) x a →
    (a = false → F.I (M.next (.agentSetKeys keys) x a)) ∧
    (a = true → D (.storeVaultLocked false) (M.next (.agentSetKeys keys) x a) ∧
      ∀ u, M.ready (.storeVaultLocked false) (M.next (.agentSetKeys keys) x a) u →
        F.I (M.next (.storeVaultLocked false) (M.next (.agentSetKeys keys) x a) u) ∧
        F.MaySync (M.next (.storeVaultLocked false) (M.next (.agentSetKeys keys) x a) u))
  setClient : ∀ {x c}, F.I x → F.MaySync x → D (.writeApiClient (some c)) x ∧
    ∀ a, M.ready (.writeApiClient (some c)) x a → F.I (M.next (.writeApiClient (some c)) x a) ∧
      F.MaySync (M.next (.writeApiClient (some c)) x a)

variable {L : List DecryptedSshKey → σ → Prop} {J : List KeyTuple → σ → Prop}

theorem wp_finishLogin (h : Phases E cfg M D F) (hl : LoginPhases E cfg M D F L J) (hI : F.I x)
    (client : BitwardenClient) {keys : List DecryptedSshKey} (hf : L keys x) (wasLocked : Bool) :
    wp M D (finishLogin E cfg client keys wasLocked) (fun _ => F.I) x := by
  obtain ⟨hD₁, hnext₁⟩ := h.quiet (o := .writeKeySelectorFiles keys) rfl hI
  refine wp_perform_bind.2 ⟨hD₁, fun a₁ ha₁ => ?_⟩
  have hf₁ := hl.files rfl hI ha₁ hf
  obtain ⟨hD₂, hnext₂⟩ := h.quiet (o := .syncManagedSshConfig keys) rfl (hnext₁ a₁ ha₁).1
  refine wp_perform_bind.2 ⟨hD₂, fun a₂ ha₂ => ?_⟩
  have hf₂ := hl.files rfl (hnext₁ a₁ ha₁).1 ha₂ hf₁
  refine wp_bind .. |>.2 ((hl.reconcile (hnext₂ a₂ ha₂).1 hf₂).post fun _ x₃ hJ₃ => ?_)
  obtain ⟨hD₃, hnext₃⟩ := hl.names hJ₃
  refine wp_perform_bind.2 ⟨hD₃, fun a₃ ha₃ => ?_⟩
  obtain ⟨hD₄, hnext₄⟩ := hl.load (hnext₃ a₃ ha₃)
  refine wp_perform_bind.2 ⟨hD₄, fun loaded hloaded => ?_⟩
  obtain ⟨hfail, hload⟩ := hnext₄ loaded hloaded
  cases loaded with
  | false => exact wp_ret (hfail rfl) _
  | true =>
    obtain ⟨hD₅, hnext₅⟩ := hload rfl
    refine wp_perform_bind.2 ⟨hD₅, fun u hu => ?_⟩
    obtain ⟨hI₅, hm₅⟩ := hnext₅ u hu
    refine h.wp_quiet_bind (savingSteps_saveDeviceSession E client none).routine.quiet hI₅ fun _ x₆ hI₆ hk₆ => ?_
    refine h.wp_quiet_bind (hubSteps_connectIfAuthenticated cfg client).connecting.quiet hI₆ fun _ x₇ hI₇ hk₇ => ?_
    obtain ⟨hD₈, hnext₈⟩ := hl.setClient (c := client) hI₇ (hk₇.maySync (hk₆.maySync hm₅))
    refine wp_perform_bind.2 ⟨hD₈, fun v hv => ?_⟩
    obtain ⟨hI₈, hm₈⟩ := hnext₈ v hv
    exact wp_bind_then (h.wp_resolvePendingSync hI₈ hm₈) fun _ _ hI₉ => wp_ret hI₉ _

theorem wp_handleUnlockPassword (h : Phases E cfg M D F) (hl : LoginPhases E cfg M D F L J) (hI : F.I x)
    (password : String) : wp M D (handleUnlockPassword E cfg password) (fun _ => F.I) x := by
  refine h.wp_quiet_bind (quiet_op rfl) hI fun wasLocked x₁ hI₁ _ => ?_
  refine (wp_ite ..).2 ⟨fun _ => wp_ret hI₁ _, fun _ => ?_⟩
  refine h.wp_quiet_bind (quiet_op rfl) hI₁ fun device x₂ hI₂ _ => ?_
  refine h.wp_quiet_bind (quiet_op rfl) hI₂ fun r x₃ hI₃ _ => ?_
  match r with
  | .error e => exact wp_ret hI₃ _
  | .ok (grant, key) =>
    refine wp_bind .. |>.2 ((hl.fetch _ hI₃).post ?_)
    rintro r x₄ ⟨hI₄, hfetched⟩
    cases r with
    | error e => exact wp_ret hI₄ _
    | ok keys => exact h.wp_finishLogin hl hI₄ _ (hfetched keys rfl) wasLocked

/-- A login the server refuses changes nothing. -/
theorem wp_refusedLogin (h : Phases E cfg M D F)
    (hno : ∀ {x email password r}, M.ready (.loginPassword email password) x (.ok r) → False) (hI : F.I x)
    (password : String) : wp M D (handleUnlockPassword E cfg password) (fun _ => F.I) x := by
  refine h.wp_quiet_bind (quiet_op rfl) hI fun wasLocked x₁ hI₁ _ => ?_
  refine (wp_ite ..).2 ⟨fun _ => wp_ret hI₁ _, fun _ => ?_⟩
  refine h.wp_quiet_bind (quiet_op rfl) hI₁ fun device x₂ hI₂ _ => ?_
  obtain ⟨hD, hnext⟩ := h.quiet (o := .loginPassword cfg.email password) rfl hI₂
  refine wp_perform_bind.2 ⟨hD, fun r hr => ?_⟩
  cases r with
  | error e => exact wp_ret (hnext _ hr).1 _
  | ok r => exact (hno hr).elim

/-! ### The main loop -/

theorem wp_handleLock (h : Phases E cfg M D F) (hI : F.I x) : wp M D handleLock (fun _ => F.I) x := by
  refine h.wp_quiet_bind (quiet_op rfl) hI fun locked x₁ hI₁ _ => ?_
  refine (wp_ite ..).2 ⟨fun _ => wp_ret hI₁ _, fun _ => ?_⟩
  refine wp_bind_then (h.lock hI₁) fun r x₂ hI₂ => ?_
  cases r <;> exact wp_ret hI₂ _

/-- What an action needs at its start. -/
def actionAllowed (F : Facts σ) (x : σ) : ControlAction → Prop
  | .unlockPin pin => F.pinOk pin
  | .sync => F.MaySync x
  | .setPin pin => F.MaySetPin pin x
  | .forget _ => F.mayForget
  | _ => True

theorem wp_handleAction (h : Phases E cfg M D F)
    (hlogin : ∀ {x'} password, F.I x' → wp M D (handleUnlockPassword E cfg password) (fun _ => F.I) x')
    {action : ControlAction} (ha : actionAllowed F x action) (hI : F.I x) :
    wp M D (handleAction E cfg action) (fun _ => F.I) x := by
  cases action with
  | stop => exact wp_ret hI _
  | lock => exact h.wp_handleLock hI
  | unlock => exact h.wp_handleUnlock hI
  | unlockNative => exact h.wp_handleUnlockNative hI
  | unlockHello =>
    exact h.wp_loadVaultLocked hI (fun _ hI₁ _ _ => wp_ret hI₁ _) fun _ hI₁ _ _ => wp_ret hI₁ _
  | status json => exact h.wp_quietly (keepsCore_buildStatusResponse cfg json).quiet hI
  | unlockPin pin => exact h.wp_handleUnlockPin ha hI
  | unlockPassword password => exact hlogin password hI
  | sync => exact h.wp_handleSync hI ha
  | forget shared => exact h.forget shared ha hI
  | setPin pin => exact h.setPin pin ha hI
  | bindHostsDialog => exact h.wp_quietly prompting_handleBindHostsDialog.routine.quiet hI

theorem wp_handleControlCommand (h : Phases E cfg M D F)
    (hlogin : ∀ {x'} password, F.I x' → wp M D (handleUnlockPassword E cfg password) (fun _ => F.I) x')
    {action : ControlAction} (ha : actionAllowed F x action) (hI : F.I x) :
    wp M D (handleControlCommand E cfg action) (fun _ => F.I) x := by
  have hreload := h.reload hI
  have hstart : wp M D (Prog.when action.reloads (reloadSharedLocalCacheFromDiskIfMultiDevice cfg))
      (fun _ x' => F.I x' ∧ actionAllowed F x' action) x := by
    refine (wp_ite ..).2 ⟨fun hr => hreload.post fun _ x' hx' => ⟨hx'.1, ?_⟩, fun _ => ⟨hI, ha⟩⟩
    cases action with
    | sync => exact hx'.2 ha
    | setPin pin => exact absurd hr Bool.false_ne_true
    | _ => exact ha
  exact wp_bind .. |>.2 (hstart.post fun _ x' hx' => h.wp_handleAction hlogin hx'.2 hx'.1)

theorem wp_syncOrDefer (h : Phases E cfg M D F) (hI : F.I x) (hu : F.Unlocked x) (done : NotificationUpdate) :
    wp M D (syncOrDefer E cfg done) (fun _ => F.I) x := by
  refine wp_bind_then (h.wp_doSync hI (h.maySync hI hu)) fun r x₁ hI₁ => ?_
  cases r with
  | ok n => exact h.wp_quietly (support_notify done).quiet hI₁
  | error e => exact h.wp_quietly (quiet_op rfl) hI₁

theorem wp_handleHubEvent (h : Phases E cfg M D F) (hI : F.I x) (ev : SyncEvent) :
    wp M D (handleHubEvent E cfg ev) (fun _ => F.I) x := by
  cases ev with
  | connectionStatus status => exact h.wp_quietly (support_notify _).quiet hI
  | cipherChanged =>
    refine h.wp_loadVaultLocked hI (fun x₁ hI₁ _ _ => ?_) fun x₁ hI₁ _ hu => h.wp_syncOrDefer hI₁ hu _
    exact h.wp_quiet_bind (quiet_op rfl) hI₁ fun _ _ hI₂ _ => h.wp_quietly (support_notify _).quiet hI₂
  | logOut =>
    refine h.wp_quiet_bind (support_notify _).quiet hI fun _ x₁ hI₁ _ => ?_
    exact wp_bind_then (h.lock hI₁) fun _ _ hI₂ => wp_ret hI₂ _
  | fallbackSyncDue =>
    exact h.wp_loadVaultLocked hI (fun x₁ hI₁ _ _ => h.wp_quietly (quiet_op rfl) hI₁)
      fun x₁ hI₁ _ hu => h.wp_syncOrDefer hI₁ hu _

theorem wp_handleRuntimeEvent (h : Phases E cfg M D F) (hI : F.I x) (hm : F.MaySync x) (ev : RuntimeEvent) :
    wp M D (handleRuntimeEvent E cfg ev) (fun _ => F.I) x := by
  cases ev with
  | autoUnlockedPin pin =>
    refine wp_bind .. |>.2 ((h.wp_tryRestoreApiSession hI hm pin).post ?_)
    rintro - x₁ ⟨hI₁, hm₁⟩
    exact wp_bind_then (h.wp_resolvePendingSync hI₁ hm₁) fun _ _ hI₂ => wp_ret hI₂ _
  | autoUnlockedNative => exact wp_bind_then (h.wp_resolvePendingSync hI hm) fun _ _ hI₁ => wp_ret hI₁ _

theorem wp_handleTokenRefresh (h : Phases E cfg M D F) (hI : F.I x) :
    wp M D (handleTokenRefresh E cfg) (fun _ => F.I) x := by
  refine h.wp_quiet_bind (quiet_op rfl) hI fun _ x₁ hI₁ _ => ?_
  obtain ⟨hD, hnext⟩ := h.quiet (o := .peekApiClient) rfl hI₁
  refine wp_perform_bind.2 ⟨hD, fun c hc => ?_⟩
  obtain ⟨hI₂, -⟩ := hnext c hc
  cases c with
  | none => exact h.wp_quietly (quiet_op rfl) hI₂
  | some client =>
    have hclient := h.peekClient hI₁ hc
    refine h.wp_quiet_bind (quiet_op rfl) hI₂ fun now x₃ hI₃ hk₃ => ?_
    refine (wp_ite ..).2 ⟨fun _ => ?_, fun _ => h.wp_quietly (quiet_op rfl) hI₃⟩
    have hrefresh : wp M D (refreshClient client) (fun _ => F.I) x₃ := by
      refine (wp_ite ..).2 ⟨fun _ => wp_ret hI₃ _, fun _ => ?_⟩
      refine h.wp_quiet_bind (quiet_op rfl) hI₃ fun r x₄ hI₄ hk₄ => ?_
      cases r with
      | error e => exact wp_ret hI₄ _
      | ok grant =>
        refine wp_op_then (h.pokeClient grant hI₄ ?_) fun _ _ hI₅ => wp_ret hI₅ _
        exact hk₄.client _ (hk₃.client _ hclient)
    refine wp_bind_then hrefresh fun r x₄ hI₄ => ?_
    cases r with
    | error e => exact h.wp_quietly (quiet_op rfl) hI₄
    | ok client' =>
      refine h.wp_quiet_bind (savingSteps_saveDeviceSession E client' none).routine.quiet hI₄ fun _ x₅ hI₅ _ => ?_
      refine h.wp_quiet_bind (hubSteps_connectIfAuthenticated cfg client').connecting.quiet
        hI₅ fun _ x₆ hI₆ _ => ?_
      exact h.wp_quietly (quiet_op rfl) hI₆

theorem wp_handleAutoLockTick (h : Phases E cfg M D F) (hI : F.I x) (idle : Nat) :
    wp M D (handleAutoLockTick cfg idle) (fun _ => F.I) x := by
  refine (wp_ite ..).2 ⟨fun _ => ?_, fun _ => wp_ret hI _⟩
  refine h.wp_quiet_bind (quiet_op rfl) hI fun locked x₁ hI₁ _ => ?_
  refine (wp_ite ..).2 ⟨fun _ => ?_, fun _ => wp_ret hI₁ _⟩
  refine h.wp_quiet_bind (quiet_op rfl) hI₁ fun prompts x₂ hI₂ _ => ?_
  refine (wp_ite ..).2 ⟨fun _ => ?_, fun _ => wp_ret hI₂ _⟩
  refine (wp_ite ..).2 ⟨fun _ => ?_, fun _ => wp_ret hI₂ _⟩
  exact wp_bind_then (h.lock hI₂) fun _ _ hI₃ => wp_ret hI₃ _

/-- What an event needs at its start. -/
def eventAllowed (F : Facts σ) (x : σ) : MainEvent → Prop
  | .control action => actionAllowed F x action
  | .runtime _ => F.MaySync x
  | _ => True

theorem wp_mainStep (h : Phases E cfg M D F)
    (hlogin : ∀ {x'} password, F.I x' → wp M D (handleUnlockPassword E cfg password) (fun _ => F.I) x')
    {ev : MainEvent} (ha : eventAllowed F x ev) (hI : F.I x) :
    wp M D (mainStep E cfg ev) (fun _ => F.I) x := by
  cases ev with
  | control action =>
    exact wp_bind_then (h.wp_handleControlCommand hlogin ha hI) fun _ _ hI₁ => wp_ret hI₁ _
  | runtime event => exact h.wp_handleRuntimeEvent hI ha event
  | hub event => exact h.wp_handleHubEvent hI event
  | tokenRefresh => exact h.wp_handleTokenRefresh hI
  | autoLockTick idle => exact h.wp_handleAutoLockTick hI idle

/-! ### Start-up -/

theorem quiet_connectInitialClient (E : Crates) (cfg : Config) : Quiet (connectInitialClient E cfg) := by
  refine .bind (quiet_op rfl) fun _ => .bind (quiet_op rfl) fun client => ?_
  cases client with
  | none => exact quiet_op rfl
  | some client =>
    dsimp only
    split
    · exact quiet_op rfl
    · exact .bind (hubSteps_connectNotificationClient cfg _ _).connecting.quiet fun _ =>
        .bind (savingSteps_saveDeviceSession E _ _).routine.quiet fun _ => quiet_op rfl

theorem routine_askNewPin : Routine askNewPin := by
  refine .bind (routine_op rfl) fun input => ?_
  cases input with
  | none => trivial
  | some input =>
    refine .ite trivial (.bind (routine_op rfl) fun pin => ?_)
    cases pin with
    | none => trivial
    | some pin =>
      refine .ite trivial (.bind (routine_op rfl) fun confirm => ?_)
      cases confirm with
      | none => trivial
      | some confirm => exact .ite trivial trivial

/-- What the start-up has to keep until the agent is started (`P`), and after it. -/
theorem wp_startUp {cfg₀ : Config} {P : σ → Prop} {C : LocalKeyCacheFile → Prop}
    {K : List DecryptedSshKey → Prop} {Q : Option Config → σ → Prop}
    (hkeep : ∀ {o x}, o.isSlotSupport = true → P x → D o x ∧ ∀ a, M.ready o x a → P (M.next o x a))
    (hload : ∀ {x c}, P x → M.ready .loadLocalKeyCache x (.ok (some c)) → C c)
    (hfetch : ∀ {x client keys}, P x → M.ready (.fetchSync client) x (.ok keys) → K keys)
    (hfail : ∀ {x}, P x → Q none x)
    (hremembered : ∀ {x c}, P x → C c → wp M D (startWith E cfg₀ (some c) none) Q x)
    (hfresh : ∀ {x cfg login}, P x → (∀ keys client, login = some (keys, client) → K keys) →
      wp M D (startWith E cfg none login) Q x)
    (hP : P x) : wp M D (startUp E cfg₀) Q x := by
  have keep : ∀ {α β : Type} {p : DProg α} {f : α → DProg β} {Q' : β → σ → Prop} {x : σ}, SlotSupport p →
      P x → (∀ a x', P x' → wp M D (f a) Q' x') → wp M D (p >>= f) Q' x := by
    intro α β p f Q' x hp hx hf
    rw [wp_bind]
    induction p generalizing x with
    | ret a => exact hf a x hx
    | vis o k ih => exact ⟨(hkeep hp.1 hx).1, fun a ha => ih a (hp.2 a) ((hkeep hp.1 hx).2 a ha)⟩
  have hremember : wp M D (loadRememberedDevice cfg₀) (fun r x' => P x' ∧ ∀ c, r = some c → C c) x := by
    refine wp_bind .. |>.2 (wp_perform_bind.2 ⟨(hkeep rfl hP).1, fun r hr => ?_⟩)
    have hP₁ := (hkeep (o := .loadLocalKeyCache) rfl hP).2 r hr
    match r, hr, hP₁ with
    | .error e, _, hP₁ => exact ⟨hP₁, fun c hc => nomatch hc⟩
    | .ok none, _, hP₁ => exact ⟨hP₁, fun c hc => nomatch hc⟩
    | .ok (some c), hr, hP₁ =>
      refine keep (slotSteps_persistDeviceUnlockSlotsFromCache cfg₀ c).slotRoutine.support
        hP₁ fun _ x' hx' => ⟨hx', ?_⟩
      intro c' hc'
      obtain rfl := Option.some.inj hc'
      exact hload hP hr
  refine wp_bind .. |>.2 (hremember.post ?_)
  rintro r x₁ ⟨hP₁, hC⟩
  cases r with
  | some c => exact hremembered hP₁ (hC c rfl)
  | none =>
    have hemail : SlotSupport (resolveEmail cfg₀) := by
      refine .ite (.bind (slotSupport_op rfl) fun email => ?_) trivial
      cases email <;> trivial
    refine keep hemail hP₁ fun r x₂ hP₂ => ?_
    cases r with
    | none => exact hfail hP₂
    | some cfg =>
      have hlogin : wp M D (loginAtStart cfg)
          (fun login x' => P x' ∧ ∀ keys client, login = some (keys, client) → K keys) x₂ := by
        have hno : ∀ {x'}, P x' → P x' ∧ ∀ keys (client : BitwardenClient),
            (none : Option (List DecryptedSshKey × BitwardenClient)) = some (keys, client) → K keys :=
          fun hx => ⟨hx, fun _ _ hn => nomatch hn⟩
        refine (wp_ite ..).2 ⟨fun _ => hno hP₂, fun _ => ?_⟩
        refine keep (slotSupport_op rfl) hP₂ fun password x₃ hP₃ => ?_
        cases password with
        | none => exact hno hP₃
        | some password =>
          refine keep (slotSupport_op rfl) hP₃ fun device x₄ hP₄ => ?_
          refine keep (slotSupport_op rfl) hP₄ fun r x₅ hP₅ => ?_
          match r with
          | .error e => exact hno hP₅
          | .ok (grant, key) =>
            have hsync : wp M D (syncSshKeys ((createClient cfg device).loggedIn grant key))
                (fun r x' => P x' ∧ ∀ keys, r = .ok keys → K keys) x₅ := by
              refine (wp_ite ..).2 ⟨fun _ => ⟨hP₅, fun _ hk => nomatch hk⟩, fun _ => ?_⟩
              refine (wp_ite ..).2 ⟨fun _ => ⟨hP₅, fun _ hk => nomatch hk⟩, fun _ => ?_⟩
              refine ⟨(hkeep rfl hP₅).1, fun r hr => ⟨(hkeep rfl hP₅).2 r hr, fun keys hk => ?_⟩⟩
              subst hk
              exact hfetch hP₅ hr
            refine wp_bind .. |>.2 (hsync.post ?_)
            rintro r x₆ ⟨hP₆, hK⟩
            cases r with
            | error e => exact hno hP₆
            | ok keys =>
              refine ⟨hP₆, fun keys' client hk => ?_⟩
              obtain ⟨rfl, -⟩ := Prod.mk.inj (Option.some.inj hk)
              exact hK _ rfl
      refine wp_bind .. |>.2 (hlogin.post ?_)
      rintro login x₃ ⟨hP₃, hK⟩
      exact hfresh hP₃ hK

/-! ### Requests -/

theorem wp_afterRequestUnlock (h : Phases E cfg M D F) (hI : F.I x) (request : SshAgentUIRequest)
    (keyName : String) :
    wp M D (do
      let approved ← runAuthorizationPrompt cfg request keyName
      op (.broadcast request.requestId approved)) (fun _ => F.I) x :=
  h.wp_quietly (.bind (routine_runAuthorizationPrompt cfg request keyName).quiet fun _ => quiet_op rfl) hI

theorem wp_autoUnlockNative (h : Phases E cfg M D F) (hr : RequestPhases E cfg M D F) (hI : F.I x)
    (hl : F.Locked x)
    (request : SshAgentUIRequest) :
    wp M D (autoUnlockNative E cfg request) (fun r x' => F.I x' ∧ (r = none → F.Locked x')) x := by
  obtain ⟨hD, hnext⟩ := h.quiet (o := .readLocalKeyCache) rfl hI
  refine wp_perform_bind.2 ⟨hD, fun c hc => ?_⟩
  obtain ⟨hI₁, hk₁⟩ := hnext c hc
  have hl₁ := hk₁.locked hl
  cases c with
  | none => exact ⟨hI₁, fun _ => hl₁⟩
  | some c =>
    have hc₁ := h.readCache hI hc
    refine h.wp_quiet_bind (slotReads_currentNativeUnlockSlot cfg c).routine.quiet hI₁ fun slot x₂ hI₂ hk₂ => ?_
    refine (wp_ite ..).2 ⟨fun _ => ⟨hI₂, fun _ => hk₂.locked hl₁⟩, fun _ => ?_⟩
    refine wp_bind .. |>.2 ((h.native hI₂ (hk₂.locked hl₁) (hk₂.holds _ hc₁)).post ?_)
    rintro r x₃ ⟨hI₃, hk₃, hopen⟩
    have hl₃ := hk₃.locked (hk₂.locked hl₁)
    match r, hopen with
    | .error e, _ => exact ⟨hI₃, fun _ => hl₃⟩
    | .ok (json, key), hopen =>
      exact hr.requestUnlock request .autoUnlockedNative (support_ret ()).slots hI₃ hl₃ (hopen json key rfl)

theorem wp_autoUnlockPin (h : Phases E cfg M D F) (hr : RequestPhases E cfg M D F) (hI : F.I x) (hl : F.Locked x)
    (request : SshAgentUIRequest) : wp M D (autoUnlockPin E cfg request) (fun _ => F.I) x := by
  refine h.wp_readLocalKeyCache hI (fun x₁ hI₁ => wp_ret hI₁ _) fun c x₁ hI₁ hk₁ hc => ?_
  cases hp : (some c).filter fun c => c.localCacheKey.pinEncrypted.isSome with
  | none => exact wp_ret hI₁ _
  | some c' =>
    obtain rfl := eq_of_filter_some hp
    refine h.wp_quiet_bind (quiet_op rfl) hI₁ fun names x₂ hI₂ hk₂ => ?_
    have hl₂ := hk₂.locked (hk₁.locked hl)
    refine wp_bind .. |>.2 ((h.dialog _ hI₂ hl₂ (hk₂.holds _ hc)).post ?_)
    rintro r x₃ ⟨hI₃, hk₃, hopen⟩
    match r, hopen with
    | none, _ => exact wp_ret hI₃ _
    | some (pin, json, key), hopen =>
      exact (hr.requestUnlock request (.autoUnlockedPin pin)
        (slotSteps_enrollDevicePlatformSlotsIfMissing E cfg key).slotRoutine.support hI₃ (hk₃.locked hl₂)
        (hopen pin json key rfl)).post fun _ _ hx => hx.1

theorem wp_handleLockedRequest (h : Phases E cfg M D F) (hr : RequestPhases E cfg M D F) (hI : F.I x)
    (hl : F.Locked x)
    (request : SshAgentUIRequest) : wp M D (handleLockedRequest E cfg request) (fun _ => F.I) x := by
  refine wp_bind .. |>.2 ((h.wp_autoUnlockNative hr hI hl request).post ?_)
  rintro r x₁ ⟨hI₁, hl₁⟩
  cases r with
  | some keyName => exact h.wp_afterRequestUnlock hI₁ request keyName
  | none =>
    refine wp_bind_then (h.wp_autoUnlockPin hr hI₁ (hl₁ rfl) request) fun r x₂ hI₂ => ?_
    cases r with
    | some keyName => exact h.wp_afterRequestUnlock hI₂ request keyName
    | none => exact h.wp_quietly (quiet_op rfl) hI₂

theorem wp_handleUiRequest (h : Phases E cfg M D F) (hr : RequestPhases E cfg M D F) (hI : F.I x)
    (request : SshAgentUIRequest) : wp M D (handleUiRequest E cfg request) (fun _ => F.I) x := by
  refine (wp_ite ..).2 ⟨fun _ => ?_, fun _ => ?_⟩
  · refine h.wp_quietly ?_ hI
    exact .bind (quiet_op rfl) fun _ => .bind (quiet_op rfl) fun _ => quiet_op rfl
  · have hrest : ∀ {x'}, F.I x' → wp M D (do
        if ← op .loadVaultLocked then op (.broadcast request.requestId false)
        else handleUnlockedRequest cfg request) (fun _ => F.I) x' := fun hI' =>
      h.wp_loadVaultLocked hI' (fun _ hI'' _ _ => h.wp_quietly (quiet_op rfl) hI'')
        fun _ hI'' _ hu => hr.unlockedRequest request hI'' hu
    refine h.wp_loadVaultLocked hI (fun x₁ hI₁ _ hl => ?_) fun x₁ hI₁ _ _ => hrest hI₁
    refine (wp_ite ..).2 ⟨fun _ => h.wp_handleLockedRequest hr hI₁ hl request, fun _ => hrest hI₁⟩

end Phases

end SshWarden
