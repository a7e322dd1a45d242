import SshWarden.Locks
import SshWarden.Scenario

/-!
# When a handler blocks on itself

Every handler is clean but one: `unlock` keeps its read guard on the cache while a pending sync
rewrites the cache. `UnlockBlocks` is the exact condition on the state for that to be possible.
-/

namespace SshWarden
open Prog

variable {E : Crates} {cfg : Config} {g : Guards} {s s' : Daemon}

/-- The device has a platform slot to open the cache with. -/
def HasNativeSlot (cfg : Config) (s : Daemon) (cache : LocalKeyCacheFile) : Prop :=
  (s.disk.unlockSlots.bind UnlockSlotsFile.nativeEncrypted).isSome = true ∨
    (cfg.multiDevice = false ∧ cache.localCacheKey.nativeEncrypted.isSome = true)

/-- `cache` may be the one in memory after the shared file was read again, with a platform slot. -/
def MayHold (cfg : Config) (s : Daemon) (cache : LocalKeyCacheFile) : Prop :=
  (s.localKeyCacheData = some cache ∧ HasNativeSlot cfg s cache) ∨
    (cfg.multiDevice = true ∧ s.disk.localKeyCache = some cache ∧
      cache.version ∈ LocalKeyCacheFile.SUPPORTED_VERSIONS ∧
      ((s.disk.unlockSlots.bind UnlockSlotsFile.nativeEncrypted).isSome = true ∨
        cache.localCacheKey.nativeEncrypted.isSome = true))

/-- The keyring may hold the key, and the key opens the cache. -/
def OpensNatively (E : Crates) (cache : LocalKeyCacheFile) (key : SymmetricKey) : Prop :=
  (∃ encoded, decodeSymmetricKey E encoded = .ok key) ∧
    ∃ keysJson keys, decryptEnvelopePayload E cache key = .ok (keysJson, key) ∧
      E.keysFromJson keysJson = .ok keys

/-- The key can encrypt the payload of some key list. -/
def CanEncrypt (E : Crates) (key : SymmetricKey) : Prop :=
  ∃ iv keys text, E.encryptEncString iv (utf8 (E.keysToJson keys)) key = .ok text

/-- The states in which `unlock` may block on its own guard. -/
structure UnlockBlocks (E : Crates) (cfg : Config) (s : Daemon) : Prop where
  locked : s.vaultLocked = true
  running : s.agent.isRunning = true
  pending : s.pendingSync = true
  client : ClientReady s
  opens : ∃ cache key, MayHold cfg s cache ∧ OpensNatively E cache key ∧ CanEncrypt E key

/-- Copying the platform slots of a cache to the device. -/
theorem wp_persistDeviceUnlockSlotsFromCache (cache : LocalKeyCacheFile) :
    wp (machine E) (fun _ _ => True) (persistDeviceUnlockSlotsFromCache cfg cache)
      (fun _ s' => SameCore s s' ∧
        ((s'.disk.unlockSlots.bind UnlockSlotsFile.nativeEncrypted).isSome = true →
          (s.disk.unlockSlots.bind UnlockSlotsFile.nativeEncrypted).isSome = true ∨
            cache.localCacheKey.nativeEncrypted.isSome = true)) s := by
  unfold persistDeviceUnlockSlotsFromCache
  rw [wp_ite]
  refine ⟨fun _ => ⟨.refl s, .inl⟩, fun _ => ?_⟩
  rw [wp_bind]
  -- what the slots file holds, as far as the device can read it
  have loaded : wp (machine E) (fun _ _ => True) loadDeviceUnlockSlots
      (fun slots s' => s' = s ∧ (slots = none ∨ slots = s.disk.unlockSlots)) s := by
    refine ⟨trivial, fun r hr => ?_⟩
    cases r with
    | error e => exact ⟨rfl, .inl rfl⟩
    | ok f => exact ⟨rfl, .inr (hr f rfl)⟩
  refine loaded.post fun slots s' hs => ?_
  obtain ⟨rfl, hslots⟩ := hs
  dsimp only
  rw [wp_ite]
  refine ⟨fun _ => ⟨trivial, fun r _ => ?_⟩, fun _ => ⟨.refl s', .inl⟩⟩
  cases r with
  | error e => exact ⟨.refl s', .inl⟩
  | ok _ =>
    refine ⟨⟨rfl, rfl, rfl, rfl, rfl, rfl, rfl, rfl, rfl, rfl, rfl⟩, fun h => ?_⟩
    change ((slots.getD {}).nativeEncrypted.or cache.localCacheKey.nativeEncrypted).isSome = true at h
    rw [Option.isSome_or, Bool.or_eq_true] at h
    refine h.imp_left fun hn => ?_
    rcases hslots with rfl | rfl
    · exact absurd hn (by simp)
    · cases hd : s'.disk.unlockSlots with
      | none => rw [hd] at hn; exact absurd hn (by simp)
      | some f => rw [hd] at hn; simpa using hn

/-- The shared file read again: what may be in memory afterwards. -/
structure AfterReload (cfg : Config) (s s' : Daemon) : Prop where
  vaultLocked : s'.vaultLocked = s.vaultLocked
  agent : s'.agent = s.agent
  pendingSync : s'.pendingSync = s.pendingSync
  apiClient : s'.apiClient = s.apiClient
  holds : ∀ cache, s'.localKeyCacheData = some cache → HasNativeSlot cfg s' cache → MayHold cfg s cache

theorem AfterReload.refl (cfg : Config) (s : Daemon) : AfterReload cfg s s :=
  ⟨rfl, rfl, rfl, rfl, fun _ h hn => .inl ⟨h, hn⟩⟩

theorem wp_reload (E : Crates) (cfg : Config) (s : Daemon) :
    wp (machine E) (fun _ _ => True) (reloadSharedLocalCacheFromDiskIfMultiDevice cfg)
      (fun _ s' => AfterReload cfg s s') s := by
  unfold reloadSharedLocalCacheFromDiskIfMultiDevice
  rw [wp_ite]
  refine ⟨fun _ => .refl cfg s, fun hm => wp_perform_bind.2 ⟨trivial, fun r hr => ?_⟩⟩
  have hmulti : cfg.multiDevice = true := by simpa using hm
  cases r with
  | error e => exact .refl cfg s
  | ok c =>
    cases c with
    | none => exact .refl cfg s
    | some cache =>
      obtain ⟨hdisk, hversion⟩ := hr _ rfl
      refine (wp_bind _ _ _).2 ((wp_persistDeviceUnlockSlotsFromCache cache).post fun _ s' hs => ?_)
      obtain ⟨hcore, hslots⟩ := hs
      refine ⟨trivial, fun _ _ => ⟨hcore.vaultLocked, hcore.agent, hcore.pendingSync, hcore.apiClient, ?_⟩⟩
      intro cache' hc hn
      obtain rfl : cache = cache' := Option.some.inj hc
      refine .inr ⟨hmulti, hdisk.symm, hversion cache rfl, hn.elim hslots fun h => ?_⟩
      exact absurd (hmulti.symm.trans h.1) (by simp)

theorem wp_decryptWithNative (cache : LocalKeyCacheFile) :
    wp (machine E) (fun _ _ => True) (decryptEnvelopeLocalKeyCacheWithNative E cfg cache)
      (fun r _ => ∀ keysJson key, r = .ok (keysJson, key) → HasNativeSlot cfg s cache ∧
        (∃ encoded, decodeSymmetricKey E encoded = .ok key) ∧
          decryptEnvelopePayload E cache key = .ok (keysJson, key)) s := by
  have slot : wp (machine E) (fun _ _ => True) (currentNativeUnlockSlot cfg cache)
      (fun slot _ => slot.isSome = true → HasNativeSlot cfg s cache) s := by
    refine ⟨trivial, fun r hr => ?_⟩
    have device : ∀ slots : Option UnlockSlotsFile, slots = none ∨ slots = s.disk.unlockSlots →
        wp (machine E) (fun _ _ => True)
          (if cfg.multiDevice then pure (slots.bind UnlockSlotsFile.nativeEncrypted)
            else pure ((slots.bind UnlockSlotsFile.nativeEncrypted).or cache.localCacheKey.nativeEncrypted)
            : DProg (Option String))
          (fun slot _ => slot.isSome = true → HasNativeSlot cfg s cache) s := by
      intro slots hslots
      have hdev : (slots.bind UnlockSlotsFile.nativeEncrypted).isSome = true → HasNativeSlot cfg s cache := by
        rcases hslots with rfl | rfl
        · exact fun h => absurd h (by simp)
        · exact .inl
      rw [wp_ite]
      refine ⟨fun _ => hdev, fun hm h => ?_⟩
      rw [Option.isSome_or, Bool.or_eq_true] at h
      exact h.elim hdev fun hc => .inr ⟨by simpa using hm, hc⟩
    cases r with
    | error e => exact device none (.inl rfl)
    | ok f => exact device f (.inr (hr f rfl))
  refine (wp_bind _ _ _).2 (slot.post fun slot s' hslot => ?_)
  cases slot with
  | none => exact fun _ _ h => nomatch h
  | some slot =>
    refine wp_perform_bind.2 ⟨trivial, fun r _ => ?_⟩
    cases r with
    | error e => exact fun _ _ h => nomatch h
    | ok encoded =>
      dsimp only
      split
      · exact fun _ _ h => nomatch h
      · rename_i localCacheKey hdec
        intro keysJson key h
        have hkey : localCacheKey = key := by
          unfold decryptEnvelopePayload at h
          split at h
          · cases h
          · split at h
            · cases h
            · exact (Prod.mk.inj (Except.ok.inj h)).2
        subst hkey
        exact ⟨hslot rfl, ⟨encoded, hdec⟩, h⟩

/-- A native unlock that succeeded. -/
structure NativelyUnlocked (E : Crates) (cfg : Config) (cache : LocalKeyCacheFile) (s s' : Daemon) :
    Prop where
  running : s.agent.isRunning = true
  slot : HasNativeSlot cfg s cache
  key : ∃ key, OpensNatively E cache key ∧ s'.localCacheKeyState = some key
  apiClient : s'.apiClient = s.apiClient
  pendingSync : s'.pendingSync = s.pendingSync

theorem wp_finishNativeUnlockResponse (E : Crates) (cfg : Config) (s : Daemon) (cache : LocalKeyCacheFile)
    (msg : String) :
    wp (machine E) (fun _ _ => True) (finishNativeUnlockResponse E cfg cache msg)
      (fun resp s' => resp.ok = true → NativelyUnlocked E cfg cache s s') s := by
  have core : wp (machine E) (fun _ _ => True) (decryptEnvelopeLocalKeyCacheWithNative E cfg cache)
      (fun _ s' => SameCore s s') s :=
    (slotReads_decryptWithNative E cfg cache).routine.keepsCore.wp (.machine E) (fun _ _ _ _ => trivial)
      fun _ _ h => h
  refine (wp_bind _ _ _).2 (((wp_decryptWithNative cache).and core).mono (fun _ _ _ => trivial)
    fun r s' hr => ?_)
  obtain ⟨hopen, hcore⟩ := hr
  cases r with
  | error e => exact fun h => absurd h (by simp)
  | ok r =>
    obtain ⟨keysJson, key⟩ := r
    obtain ⟨hslot, hdec, hpayload⟩ := hopen keysJson key rfl
    refine ⟨trivial, fun _ _ => ?_⟩
    unfold finishUnlockWithJson
    split
    · exact fun h => absurd h (by simp)
    · rename_i keys hkeys
      refine ⟨trivial, fun _ _ => ⟨trivial, fun _ _ => ⟨trivial, fun loaded hl => ?_⟩⟩⟩
      cases loaded with
      | false => exact fun h => absurd h (by simp)
      | true =>
        refine ⟨trivial, fun _ _ _ => ⟨?_, hslot, ⟨key, ⟨hdec, keysJson, keys, hpayload, hkeys⟩, rfl⟩,
          hcore.apiClient, hcore.pendingSync⟩⟩
        have hrun : true = s'.agent.isRunning := hl
        rw [← hcore.agent]
        exact hrun.symm

/-! ### Without the condition nothing blocks -/

/-- What the reconciliation does with the two caches once the fingerprints are written. -/
theorem wp_reconcileCache_guarded (hg : Harmless g) (keys : List KeyTuple) (new : Assoc String String)
    {s' : Daemon}
    (hs : s'.localCacheKeyState = s.localCacheKeyState)
    (h : ∀ key, s.localCacheKeyState = some key → ¬CanEncrypt E key) :
    wp (guardMachine E) Unblocked (do
      op (.writePublicKeyIdentityTuples keys)
      op (.writeCachedKeyTuples keys)
      op (.writeFingerprints new)
      let existingCache ← op .readLocalKeyCache
      let localCacheKey ← op .readLocalCacheKey
      match existingCache, localCacheKey with
      | some existing, some key =>
        match ← refreshEnvelopeLocalKeyCache E cfg keys existing key with
        | .ok cache =>
          op (.writeLocalKeyCache (some cache))
          op (.writeLocalCacheKey (some key))
          notify .markCacheRefreshed
        | .error e => notify (.markCacheStale e)
      | _, _ => return ()) (fun _ x => x.2 = g) (s', g) := by
  refine wp_perform_bind.2 ⟨not_selfBlocks_apart hg rfl rfl, fun _ _ => ?_⟩
  refine wp_perform_bind.2 ⟨not_selfBlocks_apart hg rfl rfl, fun _ _ => ?_⟩
  refine wp_perform_bind.2 ⟨not_selfBlocks_apart hg rfl rfl, fun _ _ => ?_⟩
  refine wp_perform_bind.2 ⟨not_selfBlocks_of_isSlotSupport rfl hg, fun existing _ => ?_⟩
  refine wp_perform_bind.2 ⟨not_selfBlocks_of_isSlotSupport rfl hg, fun key hk => ?_⟩
  have hkey : key = s.localCacheKeyState := Eq.trans hk hs
  cases existing with
  | none => rfl
  | some existing =>
    cases key with
    | none => rfl
    | some key =>
      refine (wp_bind _ _ _).2 (wp_perform_bind.2 ⟨not_selfBlocks_of_isSlotSupport rfl hg, fun iv _ => ?_⟩)
      split
      · exact Clean.support (support_notify _) hg _
      · rename_i cache hbuild
        obtain ⟨text, henc, -⟩ := except_bind_ok hbuild
        exact absurd ⟨iv, keys, text, henc⟩ (h key hkey.symm)

/-- Next to the cache's read guard the reconciliation is harmless when it cannot encrypt a payload. -/
theorem wp_reconcileSyncedKeyState_guarded (hg : Harmless g) (keys : List KeyTuple)
    (h : ∀ key, s.localCacheKeyState = some key → ¬CanEncrypt E key) :
    wp (guardMachine E) Unblocked (reconcileSyncedKeyState E cfg keys) (fun _ x => x.2 = g) (s, g) := by
  unfold reconcileSyncedKeyState
  refine wp_perform_bind.2 ⟨not_selfBlocks_of_isSlotSupport rfl hg, fun old _ => ?_⟩
  -- the approvals are cleared without a look at the Local Cache Key
  unfold clearAuthorizationMemoryForChangedKeys
  rw [wp_bind, wp_ite]
  refine ⟨fun _ => wp_reconcileCache_guarded hg keys _ rfl h, fun _ => ?_⟩
  exact ⟨not_selfBlocks_apart hg rfl rfl, fun _ _ => wp_reconcileCache_guarded hg keys _ rfl h⟩

theorem wp_resolvePendingSync_guarded (hg : OnlyOn .localKeyCacheData g) (hh : Harmless g)
    (h : s.pendingSync = true → ClientReady s → ∀ key, s.localCacheKeyState = some key → ¬CanEncrypt E key) :
    wp (guardMachine E) Unblocked (resolvePendingSync E cfg) (fun _ x => x.2 = g) (s, g) := by
  unfold resolvePendingSync
  refine wp_perform_bind.2 ⟨not_selfBlocks_apart hh rfl rfl, fun pending hp => ?_⟩
  have hpending : pending = s.pendingSync := hp
  rw [wp_ite]
  refine ⟨fun _ => rfl, fun hn => ?_⟩
  have hpend : s.pendingSync = true := by simpa [hpending] using hn
  have hapi : Harmless ((.apiClient, .read) :: g) := by
    intro x hx
    rcases List.mem_cons.1 hx with rfl | hx
    · exact .inl rfl
    · exact hh x hx
  rw [wp_bind]
  refine (wp_doSync hg hh fun hready keys s' hs => ?_).post fun r x hx => ?_
  · refine wp_reconcileSyncedKeyState_guarded hapi keys fun key hk => ?_
    exact h hpend hready key (hs.localCacheKeyState.symm.trans hk)
  · obtain ⟨s', g'⟩ := x
    obtain rfl : g' = g := hx
    cases r with
    | ok n => rfl
    | error e => exact ⟨not_selfBlocks_apart hh rfl rfl, fun _ _ => rfl⟩

/-- `unlock` past its reload, when the pending sync of its native branch cannot rewrite the cache. -/
theorem wp_handleUnlock
    (h : s.vaultLocked = true → s.agent.isRunning = true → s.pendingSync = true → ClientReady s →
      ∀ cache key, s.localKeyCacheData = some cache → HasNativeSlot cfg s cache → OpensNatively E cache key →
        ¬CanEncrypt E key) :
    wp (guardMachine E) Unblocked (handleUnlock E cfg) (fun _ x => x.2 = []) (s, []) := by
  unfold handleUnlock
  refine wp_perform_bind.2 ⟨not_selfBlocks_nil _, fun locked hl => ?_⟩
  have hlocked : locked = s.vaultLocked := hl
  rw [wp_ite]
  refine ⟨fun _ => rfl, fun hn => ?_⟩
  have hvault : s.vaultLocked = true := by simpa [hlocked] using hn
  refine wp_perform_bind.2 ⟨not_selfBlocks_nil _, fun _ _ => ?_⟩
  refine wp_perform_bind.2 ⟨fun ⟨_, _, _, hl, _⟩ => (nomatch hl), fun cache hc => ?_⟩
  have hcache : cache = s.localKeyCacheData := hc
  cases cache with
  | none => exact wp_release (g := []) (by simp) (clean_handleUnlockDialog s)
  | some cache =>
    dsimp only
    rw [wp_bind]
    have clean : wp (guardMachine E) Unblocked (finishNativeUnlockResponse E cfg cache unlockedNative)
        (fun _ x => x.2 = [(.localKeyCacheData, .read)]) (s, [(.localKeyCacheData, .read)]) :=
      clean_finishNativeUnlockResponse (onlyOn_single _ _) harmless_cacheRead cache _ s
    have facts := (lifts_guardMachine E).wp (x := (s, [(.localKeyCacheData, .read)]))
      (wp_finishNativeUnlockResponse E cfg s cache unlockedNative)
    refine (clean.and facts).mono (fun _ _ h => h.1) fun resp x hx => ?_
    obtain ⟨s', g'⟩ := x
    obtain ⟨rfl, hfacts⟩ := hx
    rw [wp_ite]
    refine ⟨fun hok => ?_, fun _ => wp_release (by simp) (clean_handleUnlockDialog s')⟩
    have hu := hfacts hok
    obtain ⟨key, hopens, hkey⟩ := hu.key
    rw [wp_bind]
    refine (wp_resolvePendingSync_guarded (onlyOn_single _ _) harmless_cacheRead
      fun hpend hready key' hk => ?_).post fun _ x hx => ?_
    · obtain rfl : key = key' := Option.some.inj (hkey.symm.trans hk)
      exact h hvault hu.running (hu.pendingSync ▸ hpend) (hready.congr hu.apiClient) cache key hcache.symm
        hu.slot hopens
    · obtain ⟨s'', g''⟩ := x
      obtain rfl : g'' = [(.localKeyCacheData, .read)] := hx
      exact wp_release (by simp) rfl

theorem wp_handleControlCommand_unlock (h : ¬UnlockBlocks E cfg s) :
    wp (guardMachine E) Unblocked (handleControlCommand E cfg .unlock) (fun _ x => x.2 = []) (s, []) := by
  unfold handleControlCommand
  rw [wp_bind]
  have facts := (lifts_guardMachine E).wp (x := (s, []))
    (wp_reload E cfg s)
  refine ((clean_reload s).and facts).mono (fun _ _ h => h.1) fun _ x hx => ?_
  obtain ⟨s', g'⟩ := x
  obtain ⟨rfl, hr⟩ := hx
  refine wp_handleUnlock fun hl ha hp hc cache key hcache hslot hopens henc => h ?_
  exact ⟨hr.vaultLocked ▸ hl, hr.agent ▸ ha, hr.pendingSync ▸ hp, hc.congr hr.apiClient, cache, key,
    hr.holds cache hcache hslot, hopens, henc⟩

/-! ### With the condition some run blocks -/

theorem may_loadDeviceUnlockSlots {Q : Option UnlockSlotsFile → Daemon × Guards → Prop}
    (h : Q s.disk.unlockSlots (s, g)) : may (guardMachine E) loadDeviceUnlockSlots Q (s, g) :=
  ⟨.ok s.disk.unlockSlots, fun _ hf => (Except.ok.inj hf).symm, h⟩

/-- Both files can be read and written: the device has the slot when the cache or the device had one. -/
theorem may_persistDeviceUnlockSlotsFromCache (hm : cfg.multiDevice = true) (cache : LocalKeyCacheFile)
    (h : (s.disk.unlockSlots.bind UnlockSlotsFile.nativeEncrypted).isSome = true ∨
      cache.localCacheKey.nativeEncrypted.isSome = true) :
    may (guardMachine E) (persistDeviceUnlockSlotsFromCache cfg cache)
      (fun _ x => x.2 = g ∧ SameCore s x.1 ∧ HasNativeSlot cfg x.1 cache) (s, g) := by
  unfold persistDeviceUnlockSlotsFromCache
  rw [if_neg (by simp [hm]), may_bind]
  refine may_loadDeviceUnlockSlots ?_
  have hsome : ((s.disk.unlockSlots.getD {}).nativeEncrypted.or
      cache.localCacheKey.nativeEncrypted).isSome = true := by
    rw [Option.isSome_or, Bool.or_eq_true]
    refine h.imp_left fun hd => ?_
    cases hs : s.disk.unlockSlots with
    | none => rw [hs] at hd; exact absurd hd (by simp)
    | some f => rw [hs] at hd; simpa using hd
  dsimp only
  split
  · exact ⟨.ok (), trivial, rfl, ⟨rfl, rfl, rfl, rfl, rfl, rfl, rfl, rfl, rfl, rfl, rfl⟩, .inl hsome⟩
  · rename_i heq
    refine ⟨rfl, .refl s, .inl ?_⟩
    have hkeep := congrArg UnlockSlotsFile.nativeEncrypted (not_not.1 heq)
    dsimp only at hkeep
    rw [hkeep] at hsome
    cases hs : s.disk.unlockSlots with
    | none => rw [hs] at hsome; exact absurd hsome (by simp)
    | some f => rw [hs] at hsome; simpa using hsome

theorem may_reload {cache : LocalKeyCacheFile} (h : MayHold cfg s cache) :
    may (guardMachine E) (reloadSharedLocalCacheFromDiskIfMultiDevice cfg)
      (fun _ x => x.2 = [] ∧ x.1.vaultLocked = s.vaultLocked ∧ x.1.agent = s.agent ∧
        x.1.pendingSync = s.pendingSync ∧ x.1.apiClient = s.apiClient ∧
        x.1.localKeyCacheData = some cache ∧ HasNativeSlot cfg x.1 cache) (s, []) := by
  unfold reloadSharedLocalCacheFromDiskIfMultiDevice
  rcases h with ⟨hc, hn⟩ | ⟨hm, hdisk, hversion, hn⟩
  · split
    · exact ⟨rfl, rfl, rfl, rfl, rfl, hc, hn⟩
    · exact ⟨.error "", fun _ h => (nomatch h), rfl, rfl, rfl, rfl, rfl, hc, hn⟩
  · rw [if_neg (by simp [hm])]
    refine may_perform_bind.2 ⟨.ok (some cache), fun c hc => ?_, ?_⟩
    · obtain rfl := Except.ok.inj hc
      exact ⟨hdisk.symm, fun f hf => Option.some.inj hf ▸ hversion⟩
    · refine (may_bind _ _ _).2 ?_
      have hp := may_persistDeviceUnlockSlotsFromCache (E := E) (g := []) hm cache hn
      refine may_post hp fun _ x hx => ?_
      obtain ⟨s', g'⟩ := x
      obtain ⟨rfl, hs, hslot⟩ := hx
      exact ⟨(), trivial, rfl, hs.vaultLocked, hs.agent, hs.pendingSync, hs.apiClient, rfl, hslot⟩

theorem may_currentNativeUnlockSlot {cache : LocalKeyCacheFile} (h : HasNativeSlot cfg s cache)
    {Q : Option String → Daemon × Guards → Prop} (hQ : ∀ slot, Q (some slot) (s, g)) :
    may (guardMachine E) (currentNativeUnlockSlot cfg cache) Q (s, g) := by
  unfold currentNativeUnlockSlot
  rw [may_bind]
  refine may_loadDeviceUnlockSlots ?_
  dsimp only
  split
  · rename_i hm
    obtain ⟨slot, hslot⟩ := Option.isSome_iff_exists.1 (h.resolve_right fun hc => by simp [hm] at hc)
    rw [hslot]
    exact hQ slot
  · have hsome : ((s.disk.unlockSlots.bind UnlockSlotsFile.nativeEncrypted).or
        cache.localCacheKey.nativeEncrypted).isSome = true := by
      rw [Option.isSome_or, Bool.or_eq_true]
      exact h.imp_right And.right
    obtain ⟨slot, hslot⟩ := Option.isSome_iff_exists.1 hsome
    rw [hslot]
    exact hQ slot

theorem may_finishNativeUnlockResponse {cache : LocalKeyCacheFile} {key : SymmetricKey} (msg : String)
    (hr : s.agent.isRunning = true) (hn : HasNativeSlot cfg s cache) (ho : OpensNatively E cache key) :
    may (guardMachine E) (finishNativeUnlockResponse E cfg cache msg)
      (fun resp x => resp.ok = true ∧ x.2 = g ∧ x.1.localKeyCacheData = s.localKeyCacheData ∧
        x.1.localCacheKeyState = some key ∧ x.1.pendingSync = s.pendingSync ∧ x.1.apiClient = s.apiClient)
      (s, g) := by
  obtain ⟨⟨encoded, hdec⟩, keysJson, keys, hpayload, hkeys⟩ := ho
  unfold finishNativeUnlockResponse decryptEnvelopeLocalKeyCacheWithNative
  rw [may_bind, may_bind]
  refine may_currentNativeUnlockSlot hn fun slot => ?_
  refine may_perform_bind.2 ⟨.ok encoded, trivial, ?_⟩
  simp only [hdec, hpayload]
  refine may_perform_bind.2 ⟨(), trivial, ?_⟩
  unfold finishUnlockWithJson
  simp only [hkeys]
  refine may_perform_bind.2 ⟨(), trivial, may_perform_bind.2 ⟨(), trivial, ?_⟩⟩
  refine may_perform_bind.2 ⟨true, hr.symm, ?_⟩
  rw [if_pos rfl]
  exact ⟨(), trivial, rfl, rfl, rfl, rfl, rfl, rfl⟩

/-- The write of the reconciliation waits for the read guard of its own task. -/
theorem mayMeet_reconcile {cache : LocalKeyCacheFile} {key : SymmetricKey} {keys : List KeyTuple}
    {iv : Bytes} {text : String} (hc : s.localKeyCacheData = some cache)
    (hk : s.localCacheKeyState = some key)
    (henc : E.encryptEncString iv (utf8 (E.keysToJson keys)) key = .ok text)
    (hg : (.localKeyCacheData, .read) ∈ g) :
    mayMeet (guardMachine E) (fun o x => SelfBlocks o x.2) (reconcileSyncedKeyState E cfg keys) (s, g) := by
  unfold reconcileSyncedKeyState
  refine mayMeet_perform_bind.2 (.inr ⟨s.keyMaterialFingerprints, rfl, ?_⟩)
  have clear : ∀ old, may (guardMachine E) (clearAuthorizationMemoryForChangedKeys E old keys)
      (fun _ x => x.2 = g ∧ x.1.localKeyCacheData = some cache ∧ x.1.localCacheKeyState = some key)
      (s, g) := by
    intro old
    unfold clearAuthorizationMemoryForChangedKeys
    dsimp only
    split
    · exact ⟨rfl, hc, hk⟩
    · exact ⟨(), trivial, rfl, hc, hk⟩
  refine mayMeet_bind_right (may_post (clear _) fun new x hx => ?_)
  obtain ⟨s', g'⟩ := x
  obtain ⟨rfl, hc', hk'⟩ := hx
  refine mayMeet_perform_bind.2 (.inr ⟨(), trivial, mayMeet_perform_bind.2 (.inr ⟨(), trivial, ?_⟩)⟩)
  refine mayMeet_perform_bind.2 (.inr ⟨(), trivial, mayMeet_perform_bind.2 (.inr ⟨some cache, hc'.symm, ?_⟩)⟩)
  refine mayMeet_perform_bind.2 (.inr ⟨some key, hk'.symm, ?_⟩)
  have hbuild : ∃ refreshed, buildEnvelopeLocalKeyCache E iv keys cache.header.email cache.header.serverUrl
      key (refreshedSlots cfg cache.localCacheKey) = .ok refreshed := by
    unfold buildEnvelopeLocalKeyCache
    rw [henc]
    exact ⟨_, rfl⟩
  obtain ⟨refreshed, hbuild⟩ := hbuild
  have refresh : ∀ s₁, may (guardMachine E) (refreshEnvelopeLocalKeyCache E cfg keys cache key)
      (fun r x => r = .ok refreshed ∧ x.2 = g') (s₁, g') := by
    intro s₁
    unfold refreshEnvelopeLocalKeyCache
    refine may_perform_bind.2 ⟨iv, trivial, ?_⟩
    simp only [hbuild]
    exact may_perform_bind.2 ⟨.ok (), trivial, rfl, rfl⟩
  refine mayMeet_bind_right (may_post (refresh _) fun r x hx => ?_)
  obtain ⟨s'', g''⟩ := x
  obtain ⟨rfl, rfl⟩ := hx
  exact .inl ⟨.localKeyCacheData, .write, .read, rfl, hg, .inl rfl⟩

theorem mayMeet_doSync {cache : LocalKeyCacheFile} {key : SymmetricKey} (hready : ClientReady s)
    (hc : s.localKeyCacheData = some cache) (hk : s.localCacheKeyState = some key) (henc : CanEncrypt E key)
    (hg : (.localKeyCacheData, .read) ∈ g) :
    mayMeet (guardMachine E) (fun o x => SelfBlocks o x.2) (doSync E cfg) (s, g) := by
  obtain ⟨client, hclient, htok, huk⟩ := hready
  obtain ⟨iv, keys, text, henc⟩ := henc
  unfold doSync
  refine mayMeet_perform_bind.2 (.inr ⟨(), trivial, mayMeet_perform_bind.2 (.inr ⟨some client, hclient.symm, ?_⟩)⟩)
  dsimp only
  rw [if_neg (by simp [BitwardenClient.hasUserKey, huk])]
  -- a sync may bring any list of keys
  have fetch : ∀ s₁ g₁ fetched, may (guardMachine E) (syncSshKeys client)
      (fun r x => r = .ok fetched ∧ x = (s₁, g₁)) (s₁, g₁) := by
    intro s₁ g₁ fetched
    unfold syncSshKeys
    rw [if_neg (by simp [Option.isSome_iff_ne_none.1 htok]), if_neg (by simp [Option.isSome_iff_ne_none.1 huk])]
    exact ⟨.ok fetched, trivial, rfl, rfl⟩
  refine mayMeet_bind_right (may_post (fetch _ _ (keys.map fun k => ⟨k.key, "", k.name, k.cipherId⟩))
    fun r x hx => ?_)
  obtain ⟨rfl, rfl⟩ := hx
  refine mayMeet_perform_bind.2 (.inr ⟨.ok (), trivial, mayMeet_perform_bind.2 (.inr ⟨.ok (), trivial, ?_⟩)⟩)
  refine mayMeet_bind_left ?_
  have hkeys : List.map DecryptedSshKey.tuple (keys.map fun k => ⟨k.key, "", k.name, k.cipherId⟩) = keys := by
    rw [List.map_map]
    exact List.map_id keys
  rw [hkeys]
  exact mayMeet_reconcile hc hk henc (.tail _ hg)

theorem mayMeet_resolvePendingSync {cache : LocalKeyCacheFile} {key : SymmetricKey}
    (hp : s.pendingSync = true) (hready : ClientReady s)
    (hc : s.localKeyCacheData = some cache) (hk : s.localCacheKeyState = some key) (henc : CanEncrypt E key)
    (hg : (.localKeyCacheData, .read) ∈ g) :
    mayMeet (guardMachine E) (fun o x => SelfBlocks o x.2) (resolvePendingSync E cfg) (s, g) :=
  mayMeet_perform_bind.2 (.inr ⟨true, hp.symm,
    mayMeet_bind_left (mayMeet_doSync (s := { s with pendingSync := false }) hready hc hk henc hg)⟩)

theorem mayMeet_handleControlCommand_unlock (h : UnlockBlocks E cfg s) :
    mayMeet (guardMachine E) (fun o x => SelfBlocks o x.2) (handleControlCommand E cfg .unlock) (s, []) := by
  obtain ⟨hl, ha, hp, hready, cache, key, hhold, hopens, henc⟩ := h
  unfold handleControlCommand
  refine mayMeet_bind_right (may_post (may_reload hhold) fun _ x hx => ?_)
  obtain ⟨s', g'⟩ := x
  obtain ⟨rfl, hl', ha', hp', hapi, hc, hn⟩ := hx
  unfold handleAction handleUnlock
  refine mayMeet_perform_bind.2 (.inr ⟨true, (hl'.trans hl).symm, ?_⟩)
  refine mayMeet_perform_bind.2 (.inr ⟨(), trivial, mayMeet_perform_bind.2 (.inr ⟨some cache, hc.symm, ?_⟩)⟩)
  refine mayMeet_bind_right (may_post (may_finishNativeUnlockResponse (g := [(.localKeyCacheData, .read)])
    unlockedNative (ha' ▸ ha) hn hopens) fun resp x hx => ?_)
  obtain ⟨s'', g''⟩ := x
  obtain ⟨hok, rfl, hcd, hk, hps, hcl⟩ := hx
  rw [if_pos hok]
  refine mayMeet_bind_left (mayMeet_resolvePendingSync (hps.trans (hp'.trans hp)) ?_ (hcd.trans hc) hk henc
    (.head _))
  obtain ⟨client, hclient, hrest⟩ := hready
  exact ⟨client, hcl.trans (hapi.trans hclient), hrest⟩

/-! ### The exact condition -/

/-- No run of the program comes to an operation that waits for a guard of its own task. -/
def NeverSelfBlocks {α : Type} (E : Crates) (p : DProg α) (s : Daemon) : Prop :=
  ∀ tr o k x, Steps (guardMachine E) p (s, []) tr (.vis o k) x → ¬SelfBlocks o x.2

theorem neverSelfBlocks_iff {α : Type} {p : DProg α} :
    NeverSelfBlocks E p s ↔ ¬mayMeet (guardMachine E) (fun o x => SelfBlocks o x.2) p (s, []) := by
  rw [mayMeet_iff_steps]
  constructor
  · rintro h ⟨tr, o, k, x, hs, hb⟩
    exact h tr o k x hs hb
  · intro h tr o k x hs hb
    exact h ⟨tr, o, k, x, hs, hb⟩

/-- The handler never waits for itself, and wherever it is it can go on to its reply. -/
structure Replies {α : Type} (E : Crates) (p : DProg α) (s : Daemon) : Prop where
  neverSelfBlocks : NeverSelfBlocks E p s
  goesOn : ∀ tr p' x, Steps (guardMachine E) p (s, []) tr p' x →
    ∃ rest a x', Steps (guardMachine E) p' x rest (.ret a) x'

theorem Replies.of_neverSelfBlocks {α : Type} {p : DProg α} (h : NeverSelfBlocks E p s) :
    Replies E p s :=
  ⟨h, fun _ p' x _ => exists_steps_ret (fun o x => exists_ready E o x.1) p' x⟩

theorem Replies.of_wp {α : Type} {p : DProg α} {Q : α → Daemon × Guards → Prop}
    (h : wp (guardMachine E) Unblocked p Q (s, [])) : Replies E p s :=
  .of_neverSelfBlocks fun _ _ _ _ hs => h.at_op hs

/-- An iteration of the main loop comes to its reply without ever waiting for a guard of its own,
whatever its calls answer, exactly when it is not an `unlock` in one of the states of `UnlockBlocks`. -/
theorem mainStep_replies_iff (E : Crates) (cfg : Config) (ev : MainEvent) (s : Daemon) :
    Replies E (mainStep E cfg ev) s ↔ ¬(ev = .control .unlock ∧ UnlockBlocks E cfg s) := by
  constructor
  · rintro h ⟨rfl, hb⟩
    exact neverSelfBlocks_iff.1 h.neverSelfBlocks (mayMeet_bind_left (mayMeet_handleControlCommand_unlock hb))
  · intro h
    cases ev with
    | control action =>
      have run : ∀ {p : DProg ControlResponse},
          wp (guardMachine E) Unblocked p (fun _ x => x.2 = []) (s, []) →
          Replies E (do let _ ← p; return ()) s :=
        fun hp => .of_wp ((wp_bind _ _ (fun _ _ => True)).2 (hp.post fun _ _ _ => trivial))
      by_cases ha : action = .unlock
      · subst ha
        exact run (wp_handleControlCommand_unlock fun hb => h ⟨rfl, hb⟩)
      · exact run (Clean.bind (.when clean_reload) (fun _ => clean_handleAction ha) s)
    | runtime event => exact .of_wp (clean_handleRuntimeEvent event s)
    | hub event => exact .of_wp (clean_handleHubEvent event s)
    | tokenRefresh => exact .of_wp (clean_handleTokenRefresh s)
    | autoLockTick idle => exact .of_wp (clean_handleAutoLockTick idle s)

/-- A login with a PIN, a lock, and a vault change that arrives while the vault is locked. -/
def pendingWhileLocked : List Scene :=
  [.take (.control .lock) plainScript, .deliver .cipherChanged, .take (.hub .cipherChanged) plainScript]

/-- The state after it, as far as `unlock` reads it. -/
def holdsPendingSync (x : Config × Daemon) : Bool :=
  x.2.vaultLocked && x.2.agent.isRunning && x.2.pendingSync && !x.1.multiDevice &&
    (x.2.apiClient.any fun c => c.accessToken.isSome && c.userKey.isSome) &&
    x.2.localKeyCacheData.any fun c => c.localCacheKey.nativeEncrypted.isSome &&
      (decryptEnvelopePayload .plain c plainKey).toOption.any fun r =>
        decide (r.2 = plainKey) && (Crates.plain.keysFromJson r.1).toOption.isSome

theorem unlockBlocks_of_holdsPendingSync {x : Config × Daemon} (h : holdsPendingSync x = true) :
    UnlockBlocks .plain x.1 x.2 := by
  simp only [holdsPendingSync, Bool.and_eq_true, Option.any_eq_true] at h
  obtain ⟨⟨⟨⟨⟨hl, ha⟩, hp⟩, hm⟩, client, hc, ht, hu⟩, cache, hcache, hn, ⟨keysJson, key⟩, hd, hk, hj⟩ := h
  obtain rfl : key = plainKey := of_decide_eq_true hk
  obtain ⟨keys, hj⟩ := Option.isSome_iff_exists.1 hj
  refine ⟨hl, ha, hp, ⟨client, hc, ht, hu⟩, cache, plainKey, .inl ⟨hcache, .inr ⟨by simpa using hm, hn⟩⟩, ?_, ?_⟩
  · refine ⟨⟨encodeSymmetricKey .plain plainKey, by decide +kernel⟩, keysJson, keys, ?_, ?_⟩
    · exact except_eq_ok_of_toOption hd
    · exact except_eq_ok_of_toOption hj
  · exact ⟨[], [], _, rfl⟩

theorem unlock_selfBlocks : ¬∀ cfg s, Reachable .plain plainConfig cfg s →
    Replies .plain (mainStep .plain cfg (.control .unlock)) s := by
  intro h
  obtain ⟨cfg, s, hr, hs⟩ := exists_of_afterLogin
    (show (afterLogin plainConfig pendingWhileLocked).any holdsPendingSync = true by decide +kernel)
  exact neverSelfBlocks_iff.1 (h cfg s hr).neverSelfBlocks
    (mayMeet_bind_left (mayMeet_handleControlCommand_unlock (unlockBlocks_of_holdsPendingSync hs)))

end SshWarden
