import SshWarden.Support

/-!
# Guards of the shared locks

`guardMachine` runs a program together with the guards its task holds. A task blocks on itself when it
waits for a lock of which it holds a guard already and one of the two is a write guard. `Clean g p`
says that `p`, started with the guards `g`, never does, and holds `g` again when it returns.
-/

namespace SshWarden
open Prog

abbrev Guards : Type := List (RwLockId × Access)

/-- The guard an operation waits for. -/
def Op.acquires : Op → Option (RwLockId × Access)
  | hold l m => some (l, m)
  | o => o.lock?

/-- The task would wait for a guard that its own guards exclude. -/
def SelfBlocks (o : Op) (g : Guards) : Prop :=
  ∃ l m m', o.acquires = some (l, m) ∧ (l, m') ∈ g ∧ (m = .write ∨ m' = .write)

def guardsAfter : Op → Guards → Guards
  | .hold l m, g => (l, m) :: g
  | .release l, g => g.filter fun x => x.1 ≠ l
  | _, g => g

def guardMachine (E : Crates) : Machine daemonSig (Daemon × Guards) where
  ready o x a := ready E o x.1 a
  next o x a := (next E o x.1 a, guardsAfter o x.2)

theorem lifts_guardMachine (E : Crates) : Lifts E (guardMachine E) Prod.fst :=
  ⟨fun _ _ _ h => h, fun _ _ _ => rfl⟩

abbrev Unblocked (o : Op) (x : Daemon × Guards) : Prop := ¬SelfBlocks o x.2

/-- An operation that neither takes nor drops a guard for later. -/
def Op.isMomentary : Op → Bool
  | hold _ _ | release _ => false
  | _ => true

theorem guardsAfter_momentary {o : Op} (h : o.isMomentary = true) (g : Guards) : guardsAfter o g = g := by
  cases o <;> first | rfl | exact absurd h Bool.false_ne_true

theorem not_selfBlocks_nil (o : Op) : ¬SelfBlocks o [] := by
  rintro ⟨l, m, m', -, hm, -⟩
  exact absurd hm (by simp)

/-- The guards that are held across other operations: one on the API client, or a read guard on the
cache. -/
def Harmless (g : Guards) : Prop := ∀ x ∈ g, x.1 = .apiClient ∨ x = (.localKeyCacheData, .read)

theorem harmless_nil : Harmless [] := by simp [Harmless]

theorem harmless_cacheRead : Harmless [(.localKeyCacheData, .read)] := by simp [Harmless]

theorem isMomentary_of_isSlotSupport {o : Op} (h : o.isSlotSupport = true) : o.isMomentary = true := by
  cases o <;> first | rfl | exact absurd h Bool.false_ne_true

/-- The lock a support operation takes is not the API client's, and is read where it is the cache's. -/
theorem acquires_of_isSlotSupport {o : Op} (h : o.isSlotSupport = true) {l : RwLockId} {m : Access}
    (hl : o.acquires = some (l, m)) : l ≠ .apiClient ∧ (l = .localKeyCacheData → m = .read) := by
  cases o <;> first
    | exact absurd h Bool.false_ne_true
    | (obtain ⟨rfl, rfl⟩ := Prod.mk.inj (Option.some.inj hl); simp)
    | cases hl

theorem not_selfBlocks_of_isSlotSupport {o : Op} (h : o.isSlotSupport = true) {g : Guards} (hg : Harmless g) :
    ¬SelfBlocks o g := by
  rintro ⟨l, m, m', hl, hm, hw⟩
  obtain ⟨hapi, hread⟩ := acquires_of_isSlotSupport h hl
  rcases hg _ hm with hx | hx
  · exact hapi hx
  · obtain ⟨rfl, rfl⟩ := Prod.mk.inj hx
    rw [hread rfl] at hw
    simp at hw

variable {E : Crates} {cfg : Config} {g : Guards} {α β : Type}

def Clean (E : Crates) (g : Guards) (p : DProg α) : Prop :=
  ∀ s, wp (guardMachine E) Unblocked p (fun _ x => x.2 = g) (s, g)

namespace Clean

theorem ret (a : α) : Clean E g (pure a : DProg α) := fun _ => rfl

theorem bind {p : DProg α} {f : α → DProg β} (h : Clean E g p) (hf : ∀ a, Clean E g (f a)) :
    Clean E g (p >>= f) := by
  intro s
  rw [wp_bind]
  refine (h s).post fun a x hx => ?_
  obtain ⟨s', g'⟩ := x
  obtain rfl : g' = g := hx
  exact hf a s'

theorem ite {c : Prop} [Decidable c] {p q : DProg α} (hp : Clean E g p) (hq : Clean E g q) :
    Clean E g (if c then p else q) := by
  split <;> assumption

theorem when {c : Bool} {p : DProg Unit} (h : Clean E g p) : Clean E g (Prog.when c p) := ite h (ret ())

theorem op {o : Op} (hm : o.isMomentary = true) (hb : ¬SelfBlocks o g) : Clean E g (op o) := by
  intro s
  exact ⟨hb, fun a _ => guardsAfter_momentary hm g⟩

/-- With no guard held nothing blocks. -/
theorem free {o : Op} (hm : o.isMomentary = true) : Clean E [] (SshWarden.op o) :=
  op hm (not_selfBlocks_nil o)

theorem slotSupport {p : DProg α} (h : SlotSupport p) (hg : Harmless g) : Clean E g p := by
  intro s
  induction p generalizing s with
  | ret a => rfl
  | vis o k ih =>
    refine ⟨not_selfBlocks_of_isSlotSupport h.1 hg, fun a _ => ?_⟩
    show wp (guardMachine E) Unblocked (k a) _ (_, guardsAfter o g)
    rw [guardsAfter_momentary (isMomentary_of_isSlotSupport h.1)]
    exact ih a (h.2 a) _

theorem support {p : DProg α} (h : Support p) (hg : Harmless g) : Clean E g p := slotSupport h.slots hg

theorem supportFree {p : DProg α} (h : Support p) : Clean E [] p := support h harmless_nil

theorem slotSupportFree {p : DProg α} (h : SlotSupport p) : Clean E [] p := slotSupport h harmless_nil

/-- A guard that is taken at the start and dropped by the rest. -/
theorem hold {l : RwLockId} {m : Access} {f : Unit → DProg β}
    (h : ∀ s, wp (guardMachine E) Unblocked (f ()) (fun _ x => x.2 = []) (s, [(l, m)])) :
    Clean E [] (SshWarden.op (.hold l m) >>= f) := by
  intro s
  exact ⟨not_selfBlocks_nil _, fun _ _ => h s⟩

/-- What runs under guards is followed by the release. -/
theorem wpThen {p : DProg α} {f : α → DProg β} {Q : β → Daemon × Guards → Prop} {s : Daemon}
    (h : Clean E g p) (hf : ∀ a s', wp (guardMachine E) Unblocked (f a) Q (s', g)) :
    wp (guardMachine E) Unblocked (p >>= f) Q (s, g) := by
  rw [wp_bind]
  refine (h s).post fun a x hx => ?_
  obtain ⟨s', g'⟩ := x
  obtain rfl : g' = g := hx
  exact hf a s'

end Clean

/-- Dropping the guard taken last, when no other is on its lock. -/
theorem wp_release {l : RwLockId} {m : Access} {f : Unit → DProg β} {Q : β → Daemon × Guards → Prop}
    {s : Daemon} (hg : ∀ x ∈ g, x.1 ≠ l) (h : wp (guardMachine E) Unblocked (f ()) Q (s, g)) :
    wp (guardMachine E) Unblocked (op (.release l) >>= f) Q (s, (l, m) :: g) := by
  refine wp_perform_bind.2 ⟨?_, fun _ _ => ?_⟩
  · rintro ⟨l', m', m'', hl, -⟩
    cases hl
  · have : guardsAfter (.release l) ((l, m) :: g) = g := by simpa [guardsAfter] using hg
    show wp (guardMachine E) Unblocked (f ()) Q (_, guardsAfter (.release l) ((l, m) :: g))
    rw [this]
    exact h

/-! ### Unlocking and syncing -/

/-- The guards of a task are all on one lock. -/
def OnlyOn (l : RwLockId) (g : Guards) : Prop := ∀ x ∈ g, x.1 = l

theorem onlyOn_nil (l : RwLockId) : OnlyOn l [] := by simp [OnlyOn]

theorem onlyOn_single (l : RwLockId) (m : Access) : OnlyOn l [(l, m)] := by simp [OnlyOn]

/-- The operation waits for the lock, in either mode. -/
def Op.waitsFor (o : Op) (l : RwLockId) : Bool := o.acquires.any fun p => p.1 = l

theorem Op.acquires_ne {o : Op} {l : RwLockId} (h : o.waitsFor l = false) (m : Access) :
    o.acquires ≠ some (l, m) := by
  intro hl
  rw [Op.waitsFor, hl] at h
  simp at h

/-- An operation on other locks does not block on them. -/
theorem Clean.beside {l : RwLockId} {o : Op} (hg : OnlyOn l g) (hm : o.isMomentary = true)
    (h : o.waitsFor l = false) : Clean E g (SshWarden.op o) := by
  refine .op hm ?_
  rintro ⟨l', m, m', hl, hx, -⟩
  obtain rfl : l' = l := hg _ hx
  exact o.acquires_ne h m hl

theorem OnlyOn.harmless (hg : OnlyOn .apiClient g) : Harmless g := fun x hx => .inl (hg x hx)

theorem clean_refreshEnvelopeLocalKeyCache (hg : OnlyOn .apiClient g) (keys : List KeyTuple)
    (existing : LocalKeyCacheFile) (key : SymmetricKey) :
    Clean E g (refreshEnvelopeLocalKeyCache E cfg keys existing key) := by
  refine .bind (.support (support_op rfl) hg.harmless) fun iv => ?_
  split
  · exact .ret _
  · refine .bind (.beside hg rfl rfl) fun r => ?_
    cases r <;> exact .ret _

theorem clean_clearAuthorizationMemoryForChangedKeys (hg : OnlyOn .apiClient g)
    (old : Assoc String String) (keys : List KeyTuple) :
    Clean E g (clearAuthorizationMemoryForChangedKeys E old keys) :=
  .ite (.ret _) <| .bind (.beside hg rfl rfl) fun _ => .ret _

/-- The reconciliation takes every lock but the API client's, whose guard `doSync` holds. -/
theorem clean_reconcileSyncedKeyState (hg : OnlyOn .apiClient g) (keys : List KeyTuple) :
    Clean E g (reconcileSyncedKeyState E cfg keys) := by
  refine .bind (.beside hg rfl rfl) fun _ =>
    .bind (clean_clearAuthorizationMemoryForChangedKeys hg _ _) fun _ => .bind (.beside hg rfl rfl) fun _ =>
    .bind (.beside hg rfl rfl) fun _ => .bind (.beside hg rfl rfl) fun _ =>
    .bind (.beside hg rfl rfl) fun existing => .bind (.beside hg rfl rfl) fun key => ?_
  split
  · refine .bind (clean_refreshEnvelopeLocalKeyCache hg _ _ _) fun r => ?_
    cases r with
    | error e => exact .support (support_notify _) hg.harmless
    | ok cache =>
      exact .bind (.beside hg rfl rfl) fun _ => .bind (.beside hg rfl rfl) fun _ =>
        .support (support_notify _) hg.harmless
  · exact .ret _

/-- An operation on neither of the two locks whose guards outlive a statement. -/
theorem not_selfBlocks_apart {o : Op} (hg : Harmless g) (ha : o.waitsFor .apiClient = false)
    (hc : o.waitsFor .localKeyCacheData = false) : ¬SelfBlocks o g := by
  rintro ⟨l, m, m', hl, hx, -⟩
  rcases hg _ hx with h | h
  · obtain rfl : l = .apiClient := h
    exact o.acquires_ne ha m hl
  · obtain ⟨rfl, -⟩ := Prod.mk.inj h
    exact o.acquires_ne hc m hl

/-- A support program keeps the core as well. -/
theorem Clean.wpSupport {p : DProg α} {f : α → DProg β} {Q : β → Daemon × Guards → Prop} {s : Daemon}
    (h : Support p) (hg : Harmless g)
    (hf : ∀ a s', SameCore s s' → wp (guardMachine E) Unblocked (f a) Q (s', g)) :
    wp (guardMachine E) Unblocked (p >>= f) Q (s, g) := by
  have core : wp (guardMachine E) (fun _ _ => True) p (fun _ x => SameCore s x.1) (s, g) :=
    h.keepsCore.wp (lifts_guardMachine E) (fun _ _ _ _ => trivial) fun _ _ hs => hs
  rw [wp_bind]
  refine ((Clean.support h hg s).and core).mono (fun _ _ h => h.1) fun a x hx => ?_
  obtain ⟨s', g'⟩ := x
  obtain ⟨rfl, hs⟩ := hx
  exact hf a s' hs

/-- The client in memory can sync. -/
def ClientReady (s : Daemon) : Prop :=
  ∃ client, s.apiClient = some client ∧ client.accessToken.isSome = true ∧ client.userKey.isSome = true

theorem ClientReady.congr {s s' : Daemon} (h : ClientReady s') (he : s'.apiClient = s.apiClient) :
    ClientReady s := by
  rw [ClientReady, he] at h
  exact h

/-- `doSync` next to the guards `g`, given what its reconciliation does next to them. -/
theorem wp_doSync {s : Daemon} (hg : OnlyOn .localKeyCacheData g) (hh : Harmless g)
    (hr : ClientReady s → ∀ keys s', SameCore s s' →
      wp (guardMachine E) Unblocked (reconcileSyncedKeyState E cfg keys)
        (fun _ x => x.2 = (.apiClient, .read) :: g) (s', (.apiClient, .read) :: g)) :
    wp (guardMachine E) Unblocked (doSync E cfg) (fun _ x => x.2 = g) (s, g) := by
  have hapi : ∀ x ∈ g, x.1 ≠ .apiClient := fun x hx => by rw [hg x hx]; simp
  have hh' : Harmless ((.apiClient, .read) :: g) := by
    intro x hx
    rcases List.mem_cons.1 hx with rfl | hx
    · exact .inl rfl
    · exact hh x hx
  refine wp_perform_bind.2 ⟨?_, fun _ _ => ?_⟩
  · rintro ⟨l, m, m', hl, hx, -⟩
    obtain ⟨rfl, -⟩ := Prod.mk.inj (Option.some.inj hl)
    exact hapi _ hx rfl
  refine wp_perform_bind.2 ⟨fun ⟨_, _, _, hl, _⟩ => (nomatch hl), fun client hc => ?_⟩
  have hclient : client = s.apiClient := hc
  cases client with
  | none => exact wp_release hapi rfl
  | some client =>
    dsimp only
    split
    · exact wp_release hapi rfl
    · rename_i huk
      show wp (guardMachine E) Unblocked
        (syncSshKeys client >>= _) _ (s, (.apiClient, .read) :: g)
      unfold syncSshKeys
      split
      · exact wp_release hapi rfl
      · rename_i htok
        have ready : ClientReady s := ⟨client, hclient.symm,
          by simpa [Option.isSome_iff_ne_none] using htok,
          by simpa [BitwardenClient.hasUserKey, Option.isSome_iff_ne_none] using huk⟩
        split
        · exact wp_release hapi rfl
        refine Clean.wpSupport (support_op rfl) hh' fun keys s₁ h₁ => ?_
        cases keys with
        | error e => exact wp_release hapi rfl
        | ok keys =>
          refine Clean.wpSupport (support_op rfl) hh' fun _ s₂ h₂ =>
            Clean.wpSupport (support_op rfl) hh' fun _ s₃ h₃ => ?_
          rw [wp_bind]
          refine (hr ready _ s₃ ((h₁.trans h₂).trans h₃)).post fun _ x hx => ?_
          obtain ⟨s₄, g'⟩ := x
          obtain rfl : g' = (.apiClient, .read) :: g := hx
          refine Clean.wpSupport (support_op rfl) hh' fun _ s₅ _ => wp_release hapi ?_
          refine Clean.wpSupport (support_op rfl) hh fun locked s₆ _ => ?_
          refine Clean.ite ?_ ?_ s₆
          · exact .bind (.beside hg rfl rfl) fun _ =>
              .ite (.bind (.support (support_notify _) hh) fun _ => .ret _) (.ret _)
          · exact .bind (.support (support_notify _) hh) fun _ => .ret _

theorem clean_doSync : Clean E [] (doSync E cfg) := fun _ =>
  wp_doSync (onlyOn_nil _) harmless_nil fun _ _ _ _ =>
    clean_reconcileSyncedKeyState (onlyOn_single _ _) _ _

theorem clean_resolvePendingSync : Clean E [] (resolvePendingSync E cfg) := by
  refine .bind (.free rfl) fun pending => .ite (.ret _) (.bind clean_doSync fun r => ?_)
  cases r with
  | error e => exact .bind (.free rfl) fun _ => .ret _
  | ok n => exact .ret _

theorem clean_finishUnlockWithJson (hg : OnlyOn .localKeyCacheData g) (keysJson msg : String) :
    Clean E g (finishUnlockWithJson E keysJson msg) := by
  unfold finishUnlockWithJson
  split
  · exact .ret _
  · exact .bind (.beside hg rfl rfl) fun _ => .bind (.beside hg rfl rfl) fun _ =>
      .bind (.beside hg rfl rfl) fun _ =>
        .ite (.bind (.beside hg rfl rfl) fun _ => .ret _) (.ret _)

theorem clean_finishNativeUnlockResponse (hg : OnlyOn .localKeyCacheData g) (hh : Harmless g)
    (cache : LocalKeyCacheFile) (msg : String) :
    Clean E g (finishNativeUnlockResponse E cfg cache msg) := by
  refine .bind (.support (slotReads_decryptWithNative E cfg cache).routine.support hh) fun r => ?_
  cases r with
  | error e => exact .ret _
  | ok r => exact .bind (.beside hg rfl rfl) fun _ => clean_finishUnlockWithJson hg _ _

theorem clean_tryRestoreApiSession (pin : String) : Clean E [] (tryRestoreApiSession E cfg pin) := by
  refine .bind (.free rfl) fun client => .ite (.ret _) <|
    .bind (.supportFree routine_loadDeviceSession.support) fun session => ?_
  dsimp only
  split
  · exact .ret _
  · split
    · exact .ret _
    · refine .bind (.free rfl) fun r => ?_
      cases r with
      | error e => exact .bind (.free rfl) fun _ => .ret _
      | ok grant =>
        exact .bind (.supportFree (hubSteps_connectIfAuthenticated cfg _).connecting.support) fun _ =>
          .bind (.supportFree (savingSteps_saveDeviceSession E _ _).routine.support) fun _ => .free rfl

/-! ### The control commands -/

theorem clean_reload : Clean E [] (reloadSharedLocalCacheFromDiskIfMultiDevice cfg) := by
  refine .ite (.ret _) <| .bind (.free rfl) fun r => ?_
  cases r with
  | error e => exact .ret _
  | ok cache =>
    cases cache with
    | none => exact .ret _
    | some cache =>
      exact .bind (.slotSupportFree (slotSteps_persistDeviceUnlockSlotsFromCache cfg cache).slotRoutine.support)
        fun _ => .free rfl

theorem clean_lockVault : Clean E [] lockVault :=
  .bind (.free rfl) fun _ => .ite (.bind (.free rfl) fun _ => .bind (.free rfl) fun _ =>
    .bind (.free rfl) fun _ => .bind (.free rfl) fun _ => .ret _) (.ret _)

theorem clean_handleLock : Clean E [] handleLock := by
  refine .bind (.free rfl) fun _ => .ite (.ret _) (.bind clean_lockVault fun r => ?_)
  cases r <;> exact .ret _

theorem clean_afterUnlock {p : DProg Unit} (hp : Clean E [] p) (resp : ControlResponse) :
    Clean E [] (if resp.ok then do p; let _ ← resolvePendingSync E cfg; return resp else return resp) :=
  .ite (.bind hp fun _ => .bind clean_resolvePendingSync fun _ => .ret _) (.ret _)

theorem clean_handleUnlockDialog : Clean E [] (handleUnlockDialog E cfg) := by
  refine .ite (.bind (.free rfl) fun cache => ?_) (.ret _)
  dsimp only
  split
  · exact .ret _
  · refine .bind (.supportFree (pinSteps_requestPinDialog _ _).routine.support) fun r => ?_
    split
    · exact .ret _
    · exact .bind (.free rfl) fun _ => .bind (clean_finishUnlockWithJson (onlyOn_nil _) _ _) fun _ =>
        clean_afterUnlock (clean_tryRestoreApiSession _) _

theorem clean_handleUnlockNative : Clean E [] (handleUnlockNative E cfg) := by
  refine .bind (.free rfl) fun _ => .ite (.ret _) (.bind (.free rfl) fun cache => ?_)
  cases cache with
  | none => exact .ret _
  | some cache =>
    exact .bind (clean_finishNativeUnlockResponse (onlyOn_nil _) harmless_nil cache _) fun resp =>
      .ite (.bind clean_resolvePendingSync fun _ => .ret _) (.ret _)

theorem clean_migratePinSlotIfNeeded (cache : LocalKeyCacheFile) (key : SymmetricKey) (pin : String) :
    Clean E [] (migratePinSlotIfNeeded E cache key pin) := by
  refine .ite (.bind ?_ fun r => ?_) (.ret _)
  · refine .bind (.supportFree (routine_encryptLocalCacheKeyWithPin E key pin).support) fun r => ?_
    cases r with
    | error e => exact .ret _
    | ok r =>
      refine .bind (.free rfl) fun r => ?_
      cases r <;> exact .ret _
  · cases r with
    | error e => exact .ret _
    | ok migrated => exact .free rfl

theorem clean_unlockPinBlock (pin : String) : Clean E [] (unlockPinBlock E cfg pin) := by
  refine .bind (.free rfl) fun cache => ?_
  cases cache with
  | none => exact .ret _
  | some cache =>
    dsimp only
    split
    · exact .ret _
    · exact .bind (clean_migratePinSlotIfNeeded _ _ _) fun _ =>
        .bind
          (.slotSupportFree (slotSteps_enrollDevicePlatformSlotsIfMissing E cfg _).slotRoutine.support) fun _ =>
        .bind (.free rfl) fun _ => .bind (clean_finishUnlockWithJson (onlyOn_nil _) _ _) fun _ =>
        clean_afterUnlock (clean_tryRestoreApiSession _) _

theorem clean_handleUnlockPin (pin : String) : Clean E [] (handleUnlockPin E cfg pin) := by
  refine .bind (.free rfl) fun _ => .ite (.ret _)
    (.bind (.supportFree pinSteps_pinLockoutRemaining.routine.support) fun wait => ?_)
  cases wait with
  | some wait => exact .ret _
  | none =>
    exact .bind (clean_unlockPinBlock pin) fun _ =>
      .bind (.supportFree (pinSteps_recordPinAttempt _).routine.support) fun _ =>
        .ite (.bind (.free rfl) fun _ => .ret _) (.ret _)

theorem clean_finishLogin (client : BitwardenClient) (keys : List DecryptedSshKey) (wasLocked : Bool) :
    Clean E [] (finishLogin E cfg client keys wasLocked) :=
  .bind (.free rfl) fun _ => .bind (.free rfl) fun _ =>
    .bind (clean_reconcileSyncedKeyState (onlyOn_nil _) _) fun _ => .bind (.free rfl) fun _ =>
    .bind (.free rfl) fun _ => .ite
      (.bind (.free rfl) fun _ =>
        .bind (.supportFree (savingSteps_saveDeviceSession E _ _).routine.support) fun _ =>
        .bind (.supportFree (hubSteps_connectIfAuthenticated cfg _).connecting.support) fun _ =>
          .bind (.free rfl) fun _ =>
        .bind clean_resolvePendingSync fun _ => .ret _)
      (.ret _)

theorem clean_handleUnlockPassword (password : String) : Clean E [] (handleUnlockPassword E cfg password) := by
  refine .bind (.free rfl) fun wasLocked => .ite (.ret _) <| .bind (.free rfl) fun deviceId =>
    .bind (.free rfl) fun r => ?_
  cases r with
  | error e => exact .ret _
  | ok r =>
    refine .bind (.supportFree (support_syncSshKeys _)) fun keys => ?_
    cases keys with
    | error e => exact .ret _
    | ok keys => exact clean_finishLogin _ _ _

theorem clean_ensureLocalCacheKeyForManualSync : Clean E [] (ensureLocalCacheKeyForManualSync E cfg) := by
  refine .bind (.when clean_reload) fun _ => .bind (.free rfl) fun cache => ?_
  cases cache with
  | none => exact .ret _
  | some cache =>
    refine .bind (.free rfl) fun key => .ite (.ret _) <| .bind (.when (.free rfl)) fun _ => .ite (.ret _) <|
      .bind (.supportFree (pinSteps_requestPinDialog _ _).routine.support) fun r => ?_
    split
    · exact .bind (.free rfl) fun _ => .ret _
    · exact .ret _

theorem clean_runManualSync (wasLocked : Bool) : Clean E [] (runManualSync E cfg wasLocked) := by
  refine .bind clean_doSync fun r => ?_
  cases r with
  | error e => exact .ret _
  | ok n => exact .ite (.bind (.free rfl) fun _ => .ret _) (.ret _)

theorem clean_handleSync : Clean E [] (handleSync E cfg) := by
  refine .bind (.free rfl) fun wasLocked => .ite (.bind clean_ensureLocalCacheKeyForManualSync fun r => ?_)
    (clean_runManualSync _)
  cases r with
  | some e => exact .ret _
  | none => exact clean_runManualSync _

theorem clean_forgetFiles (removeSharedCache : Bool) : Clean E [] (forgetFiles cfg removeSharedCache) := by
  refine .bind (.ite (.bind (.free rfl) fun _ => .ret _) (.ret _)) fun _ =>
    .bind (.bind (.free rfl) fun cache => ?_) fun _ =>
    .bind (.free rfl) fun _ => .bind (.free rfl) fun _ => .bind (.free rfl) fun _ => .ret _
  cases cache with
  | none => exact .ret _
  | some cache => exact .supportFree (slotReads_currentNativeUnlockSlot cfg cache).routine.support

theorem clean_forgetSession : Clean E [] forgetSession :=
  .bind (.free rfl) fun _ => .bind (.free rfl) fun _ => .bind (.free rfl) fun _ => .bind (.free rfl) fun _ =>
    .bind (.free rfl) fun _ => .bind (.free rfl) fun _ => .bind (.supportFree (support_notify _)) fun _ =>
    .free rfl

theorem clean_forgetKeys (removeSharedCache : Bool) : Clean E [] (forgetKeys removeSharedCache) := by
  refine .ite (.bind (.free rfl) fun _ => .bind (.free rfl) fun _ => .bind (.free rfl) fun _ => .free rfl) ?_
  refine .bind (.bind (.free rfl) fun r => ?_) fun cache => .bind (.free rfl) fun _ =>
    .bind (.free rfl) fun _ => .bind (.free rfl) fun _ => .bind (.free rfl) fun _ => ?_
  · cases r <;> exact .ret _
  · cases cache with
    | none => exact .ret _
    | some cache => exact .bind (.free rfl) fun _ => .bind (.free rfl) fun _ => .free rfl

theorem clean_handleForget (shared : Bool) : Clean E [] (handleForget cfg shared) :=
  .bind (clean_forgetFiles _) fun _ => .bind clean_forgetSession fun _ =>
    .bind (clean_forgetKeys _) fun _ => .ret _

/-- The guard on the API client is dropped after the session file has been written. -/
theorem clean_saveSessionOfClient (pin : Option String) : Clean E [] (saveSessionOfClient E pin) := by
  refine .hold fun s => ?_
  have hg := onlyOn_single .apiClient .read
  refine Clean.wpThen (.beside hg rfl rfl) fun client s => ?_
  cases client with
  | none => exact wp_release (f := fun _ => pure ()) (by simp) rfl
  | some client =>
    exact Clean.wpThen (.support
      (savingSteps_saveDeviceSession E client pin).routine.support hg.harmless) fun _ s =>
      wp_release (f := fun _ => pure ()) (by simp) rfl

theorem clean_writeEnvelopeLocalKeyCacheWithKey (keys : List KeyTuple) (email url pin : String)
    (key : SymmetricKey) :
    Clean E [] (writeEnvelopeLocalKeyCacheWithKey E cfg keys email url pin key) := by
  refine .bind (.supportFree (routine_encryptLocalCacheKeyWithPin E key pin).support) fun r => ?_
  cases r with
  | error e => exact .ret _
  | ok r =>
    refine .bind (.free rfl) fun iv => ?_
    split
    · exact .ret _
    · refine .bind (.slotSupportFree
        (slotSteps_enrollNativeIfPossible E cfg _ key).slotRoutine.support) fun cache =>
        .bind (.free rfl) fun r => ?_
      cases r <;> exact .ret _

theorem clean_handleSetPin (pin : String) : Clean E [] (handleSetPin E cfg pin) := by
  refine .ite (.ret _) <| .bind (.free rfl) fun keys => .ite (.ret _) <|
    .bind (.bind (.free rfl) fun key => ?_) fun r => ?_
  · cases key with
    | some key => exact clean_writeEnvelopeLocalKeyCacheWithKey _ _ _ _ _
    | none => exact .bind (.free rfl) fun _ => clean_writeEnvelopeLocalKeyCacheWithKey _ _ _ _ _
  · cases r with
    | error e => exact .ret _
    | ok r =>
      exact .bind (.free rfl) fun _ => .bind (.free rfl) fun _ => .bind (clean_saveSessionOfClient _) fun _ =>
        .ret _

theorem clean_handleBindHostsDialog : Clean E [] handleBindHostsDialog := by
  refine .bind (.supportFree prompting_dispatchStandaloneBindHostsDialog.routine.support) fun r => ?_
  split <;> exact .ret _

theorem clean_buildStatusResponse (json : Bool) : Clean E [] (buildStatusResponse cfg json) :=
  .bind (.free rfl) fun _ => .bind (.free rfl) fun _ => .bind (.free rfl) fun _ => .bind (.free rfl) fun _ =>
    .bind (.free rfl) fun _ => .bind (.free rfl) fun _ => .bind (.free rfl) fun _ => .ret _

/-- Every action but `unlock`. -/
theorem clean_handleAction {action : ControlAction} (h : action ≠ .unlock) :
    Clean E [] (handleAction E cfg action) := by
  cases action with
  | unlock => exact absurd rfl h
  | stop => exact .ret _
  | lock => exact clean_handleLock
  | unlockNative => exact clean_handleUnlockNative
  | unlockHello => exact .bind (.free rfl) fun _ => .ite (.ret _) (.ret _)
  | status json => exact clean_buildStatusResponse json
  | unlockPin pin => exact clean_handleUnlockPin pin
  | unlockPassword password => exact clean_handleUnlockPassword password
  | sync => exact clean_handleSync
  | forget shared => exact clean_handleForget shared
  | setPin pin => exact clean_handleSetPin pin
  | bindHostsDialog => exact clean_handleBindHostsDialog

/-! ### The main loop -/

theorem clean_handleRuntimeEvent (event : RuntimeEvent) : Clean E [] (handleRuntimeEvent E cfg event) := by
  cases event with
  | autoUnlockedPin pin =>
    exact .bind (clean_tryRestoreApiSession pin) fun _ => .bind clean_resolvePendingSync fun _ => .ret _
  | autoUnlockedNative => exact .bind clean_resolvePendingSync fun _ => .ret _

theorem clean_syncOrDefer (done : NotificationUpdate) : Clean E [] (syncOrDefer E cfg done) := by
  refine .bind clean_doSync fun r => ?_
  cases r with
  | error e => exact .free rfl
  | ok n => exact .supportFree (support_notify done)

theorem clean_handleHubEvent (event : SyncEvent) : Clean E [] (handleHubEvent E cfg event) := by
  cases event with
  | connectionStatus status => exact .supportFree (support_notify _)
  | cipherChanged =>
    exact .bind (.free rfl) fun _ => .ite
      (.bind (.free rfl) fun _ => .supportFree (support_notify _)) (clean_syncOrDefer _)
  | logOut =>
    exact .bind (.supportFree (support_notify _)) fun _ => .bind clean_lockVault fun _ => .ret _
  | fallbackSyncDue => exact .bind (.free rfl) fun _ => .ite (.free rfl) (clean_syncOrDefer _)

theorem clean_refreshClient (client : BitwardenClient) :
    Clean E [(.apiClient, .write)] (refreshClient client) := by
  have hg := onlyOn_single .apiClient .write
  refine .ite (.ret _) <| .bind (.beside hg rfl rfl) fun r => ?_
  cases r with
  | error e => exact .ret _
  | ok grant => exact .bind (.beside hg rfl rfl) fun _ => .ret _

/-- The write guard on the API client is dropped on every way out. -/
theorem clean_handleTokenRefresh : Clean E [] (handleTokenRefresh E cfg) := by
  refine .hold fun s => ?_
  have hg := onlyOn_single .apiClient .write
  refine Clean.wpThen (.beside hg rfl rfl) fun client s => ?_
  cases client with
  | none => exact wp_release (f := fun _ => pure ()) (by simp) rfl
  | some client =>
    refine Clean.wpThen (.beside hg rfl rfl) fun now s => ?_
    split
    · refine Clean.wpThen (clean_refreshClient client) fun r s => ?_
      cases r with
      | error e => exact wp_release (f := fun _ => pure ()) (by simp) rfl
      | ok client =>
        exact Clean.wpThen (.support
          (savingSteps_saveDeviceSession E client none).routine.support hg.harmless) fun _ s =>
          Clean.wpThen (.support (hubSteps_connectIfAuthenticated cfg client).connecting.support
            hg.harmless) fun _ s =>
            wp_release (f := fun _ => pure ()) (by simp) rfl
    · exact wp_release (f := fun _ => pure ()) (by simp) rfl

theorem clean_handleAutoLockTick (idle : Nat) : Clean E [] (handleAutoLockTick cfg idle) :=
  .ite (.bind (.free rfl) fun _ => .ite (.bind (.free rfl) fun _ => .ite
    (.ite (.bind clean_lockVault fun _ => .ret _) (.ret _)) (.ret _)) (.ret _)) (.ret _)

end SshWarden
