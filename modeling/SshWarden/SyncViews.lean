import SshWarden.Freshness

/-!
# The views of the key set

A sync replaces the keys in the list the unlock hands out, in the list of identities, in the two maps
by item id, in the agent and in the cache. `views_agree_after_sync` says that these agree when it
returns `Ok`. The proof follows the sync through the reconciliation with the events next to the state,
because only they tell whether the cache was saved.
-/

namespace SshWarden
open Prog

variable {E : Crates} {cfg : Config} {α β : Type}

/-- What `set_keys` loads for one key: nothing when its PEM does not parse. -/
def signingEntry (E : Crates) (k : KeyTuple) : Option (Bytes × SshWardenKey) :=
  (E.parsePrivateKey k.key).map fun pub => (pub, ⟨some k.key, pub, k.name, k.cipherId⟩)

/-- The views in memory hold these keys, and no others. -/
structure ViewsAgree (E : Crates) (s : Daemon) (keys : List KeyTuple) : Prop where
  cached : s.cachedKeyTuples = keys
  identities : s.publicKeyIdentityTuples = keys
  names : Assoc.LastWins s.keyNames (keys.map fun k => (k.cipherId, k.name))
  fingerprints : Assoc.LastWins s.keyMaterialFingerprints (keys.map fun k => (k.cipherId, E.sha256Hex k.key))
  keystore : Assoc.LastWins s.agent.keystore (keys.filterMap (signingEntry E))

/-- The cache, in memory and on disk, lists the names and ids of the keys in order. -/
def HeaderLists (s : Daemon) (keys : List KeyTuple) : Prop :=
  ∃ cache, s.localKeyCacheData = some cache ∧ s.disk.localKeyCache = some cache ∧
    cache.header.keys.map (fun k => (k.name, k.vaultItemId)) = keys.map fun k => (k.name, k.cipherId)

/-- The cache was saved in the course of these events. -/
def CacheSaved (tr : List Event) : Prop := ∃ cache, ⟨.saveLocalKeyCache cache, .ok ()⟩ ∈ tr

/-- There is a cache and its Local Cache Key, which encrypts, and no save fails in the course of these events. -/
structure SavingSucceeds (E : Crates) (s : Daemon) (tr : List Event) : Prop where
  cache : s.localKeyCacheData.isSome = true
  key : ∃ key, s.localCacheKeyState = some key ∧
    ∀ iv, ⟨.randomIv, iv⟩ ∈ tr → ∀ data, ∃ enc, E.encryptEncString iv data key = .ok enc
  saves : ∀ cache r, ⟨.saveLocalKeyCache cache, r⟩ ∈ tr → r = .ok ()

theorem CacheSaved.snoc {tr : List Event} (h : CacheSaved tr) (e : Event) : CacheSaved (tr ++ [e]) := by
  obtain ⟨cache, hc⟩ := h
  exact ⟨cache, List.mem_append_left _ hc⟩

theorem SavingSucceeds.of_snoc {s : Daemon} {tr : List Event} {e : Event} (h : SavingSucceeds E s (tr ++ [e])) :
    SavingSucceeds E s tr where
  cache := h.cache
  key := by
    obtain ⟨key, hkey, henc⟩ := h.key
    exact ⟨key, hkey, fun iv hiv => henc iv (List.mem_append_left _ hiv)⟩
  saves cache r hr := h.saves cache r (List.mem_append_left _ hr)

theorem lastWins_keystoreOf (E : Crates) (keys : List KeyTuple) :
    Assoc.LastWins (Agent.keystoreOf E keys) (keys.filterMap (signingEntry E)) := by
  have hfold : ∀ {ks ps}, Assoc.LastWins ks ps →
      Assoc.LastWins (keys.foldl (Agent.insertKey E) ks) (ps ++ keys.filterMap (signingEntry E)) := by
    induction keys with
    | nil => exact fun h => by simpa using h
    | cons k keys ih =>
      intro ks ps h
      rw [List.foldl_cons, List.filterMap_cons]
      cases hp : E.parsePrivateKey k.key with
      | none => simpa [Agent.insertKey, signingEntry, hp] using ih h
      | some pub => simpa [Agent.insertKey, signingEntry, hp] using ih (h.insert pub _)
  simpa [Agent.keystoreOf] using hfold .nil

/-! ### The reconciliation -/

/-- The machine of the daemon with the events of the sync. -/
abbrev syncMachine (E : Crates) : Machine daemonSig (Daemon × List Event) := (machine E).log

/-- The agent runs, the vault is unlocked, `resp` was received last, and the cache has not been saved; it and its
key are still those of the sync's start. -/
structure Answered (s₀ : Daemon) (resp : List DecryptedSshKey) (x : Daemon × List Event) : Prop where
  isRunning : x.1.agent.isRunning = true
  vaultLocked : x.1.vaultLocked = false
  localKeyCacheData : x.1.localKeyCacheData = s₀.localKeyCacheData
  localCacheKeyState : x.1.localCacheKeyState = s₀.localCacheKeyState
  fetched : lastFetched x.2 = some resp
  unsaved : ¬CacheSaved x.2

/-- The lists and the fingerprints hold the keys, and the agent is still to load them. -/
structure Listed (E : Crates) (keys : List KeyTuple) (s : Daemon) : Prop where
  isRunning : s.agent.isRunning = true
  vaultLocked : s.vaultLocked = false
  cached : s.cachedKeyTuples = keys
  identities : s.publicKeyIdentityTuples = keys
  fingerprints : s.keyMaterialFingerprints = keyMaterialFingerprintsFromTuples E keys

/-- Everything but the key names and the agent holds the keys received. -/
structure Reconciled (E : Crates) (s₀ : Daemon) (resp : List DecryptedSshKey) (x : Daemon × List Event) :
    Prop where
  fetched : lastFetched x.2 = some resp
  listed : Listed E (resp.map DecryptedSshKey.tuple) x.1
  saved : SavingSucceeds E s₀ x.2 → CacheSaved x.2
  header : CacheSaved x.2 → HeaderLists x.1 (resp.map DecryptedSshKey.tuple)

theorem lastFetched_snoc (tr : List Event) (e : Event) :
    lastFetched (tr ++ [e]) = received (lastFetched tr) e := by
  simp [lastFetched]

theorem lastFetched_snoc_of_fetchesNothing {o : Op} (h : o.fetchesNothing = true) (tr : List Event)
    (a : o.Ans) : lastFetched (tr ++ [⟨o, a⟩]) = lastFetched tr := by
  rw [lastFetched_snoc]
  cases o <;> first | rfl | exact absurd h Bool.false_ne_true

/-- Operations that neither write the cache or its key nor fetch, and leave the agent and the lock flag. -/
def Op.isAfterFetch : Op → Bool
  | saveLocalKeyCache _ | writeLocalKeyCache _ | writeLocalCacheKey _ | fetchSync _ => false
  | o => o.isSteady

theorem Op.fetchesNothing_of_isAfterFetch {o : Op} (h : o.isAfterFetch = true) : o.fetchesNothing = true := by
  cases o <;> first | rfl | exact absurd h Bool.false_ne_true

theorem Op.isSteady_of_isAfterFetch {o : Op} (h : o.isAfterFetch = true) : o.isSteady = true := by
  cases o <;> first | exact absurd h Bool.false_ne_true | exact h

theorem cacheSaved_of_snoc {e : Event} (h : ∀ cache, ⟨.saveLocalKeyCache cache, .ok ()⟩ ≠ e) {tr : List Event}
    (hs : CacheSaved (tr ++ [e])) : CacheSaved tr := by
  obtain ⟨cache, hc⟩ := hs
  rcases List.mem_append.1 hc with hc | hc
  · exact ⟨cache, hc⟩
  · exact absurd (List.mem_singleton.1 hc) (h cache)

variable {s₀ : Daemon} {resp : List DecryptedSshKey} {x : Daemon × List Event}

theorem Answered.next (h : Answered s₀ resp x) {o : Op} (ho : o.isAfterFetch = true) (a : o.Ans) :
    Answered s₀ resp ((syncMachine E).next o x a) where
  isRunning := isRunning_next E o a h.isRunning
  vaultLocked := (sameLock_next E (Op.isSteady_of_isAfterFetch ho) x.1 a).vaultLocked.trans h.vaultLocked
  localKeyCacheData := by
    refine Eq.trans ?_ h.localKeyCacheData
    cases o <;> first | rfl | exact absurd ho Bool.false_ne_true | (cases a <;> rfl)
  localCacheKeyState := by
    refine Eq.trans ?_ h.localCacheKeyState
    cases o <;> first | rfl | exact absurd ho Bool.false_ne_true | (cases a <;> rfl)
  fetched := (lastFetched_snoc_of_fetchesNothing (Op.fetchesNothing_of_isAfterFetch ho) x.2 a).trans h.fetched
  unsaved hs := h.unsaved <| cacheSaved_of_snoc (e := ⟨o, a⟩) (by rintro cache ⟨⟩; exact Bool.false_ne_true ho) hs

/-- A save that fails leaves the sync where it was. -/
theorem Answered.saveFailed (h : Answered s₀ resp x) (cache : LocalKeyCacheFile) (error : String) :
    Answered s₀ resp ((syncMachine E).next (.saveLocalKeyCache cache) x (.error error)) where
  isRunning := h.isRunning
  vaultLocked := h.vaultLocked
  localKeyCacheData := h.localKeyCacheData
  localCacheKeyState := h.localCacheKeyState
  fetched := (lastFetched_snoc_of_fetchesNothing (o := .saveLocalKeyCache cache) rfl x.2 _).trans h.fetched
  unsaved hs := h.unsaved <| cacheSaved_of_snoc (by rintro cache' ⟨⟩) hs

/-- Operations that leave the lists, the fingerprints and the lock flag. -/
def Op.keepsListed : Op → Bool
  | writeCachedKeyTuples _ | writePublicKeyIdentityTuples _ | writeFingerprints _ | storeVaultLocked _ => false
  | _ => true

theorem Listed.next {keys : List KeyTuple} {s : Daemon} (h : Listed E keys s) {o : Op}
    (ho : o.keepsListed = true) (a : o.Ans) : Listed E keys (SshWarden.next E o s a) := by
  have hrun := isRunning_next E o a h.isRunning
  cases o <;> first
    | exact absurd ho Bool.false_ne_true
    | exact ⟨hrun, h.vaultLocked, h.cached, h.identities, h.fingerprints⟩
    | (cases a <;> exact ⟨hrun, h.vaultLocked, h.cached, h.identities, h.fingerprints⟩)

/-- A sync that could not save has done so for want of a cache or a key, or because of an error. -/
theorem Answered.reconciled (h : Answered s₀ resp x) (hl : Listed E (resp.map DecryptedSshKey.tuple) x.1)
    (hfails : ¬SavingSucceeds E s₀ x.2) : Reconciled E s₀ resp x :=
  ⟨h.fetched, hl, fun hs => absurd hs hfails, fun hs => absurd hs h.unsaved⟩

theorem wp_markStale (h : Answered s₀ resp x) (hl : Listed E (resp.map DecryptedSshKey.tuple) x.1)
    (hfails : ¬SavingSucceeds E s₀ x.2) (error : String) :
    wp (syncMachine E) (fun _ _ => True) (notify (.markCacheStale error)) (fun _ => Reconciled E s₀ resp) x := by
  refine ⟨trivial, fun now _ => ⟨trivial, fun _ _ => ?_⟩⟩
  have hnow : Answered s₀ resp ((syncMachine E).next .now x now) := h.next (o := .now) rfl now
  exact (hnow.next (o := .notification now (.markCacheStale error)) rfl ()).reconciled
    ((hl.next (o := .now) rfl now).next (o := .notification now (.markCacheStale error)) rfl ())
    fun hs => hfails hs.of_snoc.of_snoc

/-- The refresh of a cache whose key is at hand. -/
theorem wp_refreshViews (h : Answered s₀ resp x) (hl : Listed E (resp.map DecryptedSshKey.tuple) x.1)
    (existing : LocalKeyCacheFile) {key : SymmetricKey} (hkey : s₀.localCacheKeyState = some key) :
    wp (syncMachine E) (fun _ _ => True) (do
      match ← refreshEnvelopeLocalKeyCache E cfg (resp.map DecryptedSshKey.tuple) existing key with
      | .ok cache =>
        op (.writeLocalKeyCache (some cache))
        op (.writeLocalCacheKey (some key))
        notify .markCacheRefreshed
      | .error e => notify (.markCacheStale e)) (fun _ => Reconciled E s₀ resp) x := by
  obtain ⟨s, past⟩ := x
  refine wp_bind .. |>.2 (wp_perform_bind.2 ⟨trivial, fun iv _ => ?_⟩)
  have hiv : Answered s₀ resp ((syncMachine E).next .randomIv (s, past) iv) := h.next (o := .randomIv) rfl iv
  have hivs : ⟨.randomIv, iv⟩ ∈ past ++ [(⟨.randomIv, iv⟩ : Event)] :=
    List.mem_append_right _ (List.mem_singleton_self _)
  cases hbuild : buildEnvelopeLocalKeyCache E iv (resp.map DecryptedSshKey.tuple) existing.header.email
      existing.header.serverUrl key (refreshedSlots cfg existing.localCacheKey) with
  | error e =>
    refine wp_markStale hiv hl (fun hs => ?_) e
    obtain ⟨key', hkey', henc⟩ := hs.key
    obtain rfl := Option.some.inj (hkey.symm.trans hkey')
    obtain ⟨enc, henc⟩ := henc iv hivs (utf8 (E.keysToJson (resp.map DecryptedSshKey.tuple)))
    rw [buildEnvelopeLocalKeyCache, henc] at hbuild
    cases hbuild
  | ok cache =>
    refine wp_perform_bind.2 ⟨trivial, fun saved _ => ?_⟩
    cases saved with
    | error e =>
      refine wp_markStale (hiv.saveFailed cache e) hl (fun hs => ?_) e
      exact absurd (hs.saves cache (.error e) (List.mem_append_right _ (List.mem_singleton_self _))) nofun
    | ok u =>
      refine ⟨trivial, fun _ _ => ⟨trivial, fun _ _ => ⟨trivial, fun now _ => ⟨trivial, fun _ _ => ?_⟩⟩⟩⟩
      have hfetched : lastFetched past = some resp := h.fetched
      have hl₁ := (hl.next (o := .saveLocalKeyCache cache) rfl (.ok ())).next
        (o := .writeLocalKeyCache (some cache)) rfl ()
      have hl₂ := (hl₁.next (o := .writeLocalCacheKey (some key)) rfl ()).next (o := .now) rfl now
      have hl₃ := hl₂.next (o := .notification now .markCacheRefreshed) rfl ()
      have hsaved : CacheSaved (past ++ [⟨.randomIv, iv⟩] ++ [⟨.saveLocalKeyCache cache, .ok u⟩]) :=
        ⟨cache, List.mem_append_right _ (List.mem_singleton_self _)⟩
      refine ⟨?_, hl₃, fun _ => (((hsaved.snoc _).snoc _).snoc _).snoc _, fun _ => ?_⟩
      · simp only [Machine.log, Machine.track, lastFetched_snoc, received, hfetched]
      · obtain ⟨payload, -, hcache⟩ := except_bind_ok hbuild
        obtain rfl := Except.ok.inj hcache
        exact ⟨_, rfl, rfl, by simp [keyIdentitiesFromTuples]⟩

theorem wp_reconcileViews (h : Answered s₀ resp x) :
    wp (syncMachine E) (fun _ _ => True)
      (reconcileSyncedKeyState E cfg (resp.map DecryptedSshKey.tuple)) (fun _ => Reconciled E s₀ resp) x := by
  have hclear : ∀ old, wp (syncMachine E) (fun _ _ => True)
      (clearAuthorizationMemoryForChangedKeys E old (resp.map DecryptedSshKey.tuple)) (fun new x' =>
        new = keyMaterialFingerprintsFromTuples E (resp.map DecryptedSshKey.tuple) ∧ Answered s₀ resp x')
      ((syncMachine E).next .readFingerprints x old) := by
    intro old
    have hold : Answered s₀ resp ((syncMachine E).next .readFingerprints x old) :=
      h.next (o := .readFingerprints) rfl old
    refine (wp_ite ..).2 ⟨fun _ => ⟨rfl, hold⟩, fun _ => ?_⟩
    exact wp_perform_bind.2 ⟨trivial, fun _ _ => ⟨rfl, hold.next rfl _⟩⟩
  refine wp_perform_bind.2 ⟨trivial, fun old _ => wp_bind .. |>.2 ((hclear old).post fun new x₁ hx₁ => ?_)⟩
  obtain ⟨rfl, h₁⟩ := hx₁
  refine wp_perform_bind.2 ⟨trivial, fun _ _ => wp_perform_bind.2 ⟨trivial, fun _ _ => ?_⟩⟩
  refine wp_perform_bind.2 ⟨trivial, fun _ _ => ?_⟩
  have h₂ : Answered s₀ resp _ := h₁.next (E := E)
    (o := .writePublicKeyIdentityTuples (resp.map DecryptedSshKey.tuple)) rfl ()
  have h₃ : Answered s₀ resp _ :=
    h₂.next (E := E) (o := .writeCachedKeyTuples (resp.map DecryptedSshKey.tuple)) rfl ()
  have h₄ : Answered s₀ resp _ := h₃.next (E := E)
    (o := .writeFingerprints (keyMaterialFingerprintsFromTuples E (resp.map DecryptedSshKey.tuple))) rfl ()
  refine wp_perform_bind.2 ⟨trivial, fun existing hexisting =>
    wp_perform_bind.2 ⟨trivial, fun key hkey => ?_⟩⟩
  have h₅ : Answered s₀ resp _ := h₄.next (E := E) (o := .readLocalKeyCache) rfl existing
  have h₆ : Answered s₀ resp _ := h₅.next (E := E) (o := .readLocalCacheKey) rfl key
  have hcache₀ : s₀.localKeyCacheData = existing := h₄.localKeyCacheData.symm.trans (Eq.symm hexisting)
  have hkey₀ : s₀.localCacheKeyState = key := h₅.localCacheKeyState.symm.trans (Eq.symm hkey)
  have hl : Listed E (resp.map DecryptedSshKey.tuple) _ := ⟨h₆.isRunning, h₆.vaultLocked, rfl, rfl, rfl⟩
  cases existing with
  | none => exact h₆.reconciled hl fun hs => Bool.false_ne_true (by simpa [hcache₀] using hs.cache)
  | some existing =>
    cases key with
    | none =>
      refine h₆.reconciled hl fun hs => ?_
      obtain ⟨key, hkey, -⟩ := hs.key
      exact Option.some_ne_none key (hkey.symm.trans hkey₀)
    | some key => exact wp_refreshViews h₆ hl existing hkey₀

/-! ### The sync -/

/-- What a sync promises when it returns `Ok`. -/
def SyncAgrees (E : Crates) (s₀ : Daemon) (r : Except String Nat) (x : Daemon × List Event) : Prop :=
  ∀ n, r = .ok n → ∃ resp, lastFetched x.2 = some resp ∧ n = resp.length ∧
    ViewsAgree E x.1 (resp.map DecryptedSshKey.tuple) ∧ (SavingSucceeds E s₀ x.2 → CacheSaved x.2) ∧
    (CacheSaved x.2 → HeaderLists x.1 (resp.map DecryptedSshKey.tuple))

/-- The operations after a reconciliation. -/
def Op.isLoading : Op → Bool
  | writeKeyNames _ | release _ | loadVaultLocked | agentSetKeys _ | now | notification _ _ => true
  | _ => false

theorem Reconciled.next (h : Reconciled E s₀ resp x) {o : Op} (ho : o.isLoading = true) (a : o.Ans) :
    Reconciled E s₀ resp ((syncMachine E).next o x a) := by
  have hfetched : lastFetched (x.2 ++ [⟨o, a⟩]) = some resp := by
    rw [lastFetched_snoc_of_fetchesNothing _ x.2 a, h.fetched]
    cases o <;> first | rfl | exact absurd ho Bool.false_ne_true
  have hlisted : Listed E (resp.map DecryptedSshKey.tuple) (SshWarden.next E o x.1 a) :=
    h.listed.next (by cases o <;> first | rfl | exact absurd ho Bool.false_ne_true) a
  have hsaved : CacheSaved (x.2 ++ [⟨o, a⟩]) → CacheSaved x.2 :=
    cacheSaved_of_snoc (by rintro cache ⟨⟩; exact Bool.false_ne_true ho)
  refine ⟨hfetched, hlisted, fun hs => (h.saved hs.of_snoc).snoc _, fun hs => ?_⟩
  have hheader := h.header (hsaved hs)
  cases o <;> first | exact hheader | exact absurd ho Bool.false_ne_true

/-- The end of a sync: the key names are written and the keys loaded into the agent. -/
theorem Reconciled.wp_load (h : Reconciled E s₀ resp x) : wp (syncMachine E) (fun _ _ => True) (do
      op (.writeKeyNames (keyNamesOf (resp.map DecryptedSshKey.tuple)))
      op (.release .apiClient)
      if !(← op .loadVaultLocked) then
        if ← op (.agentSetKeys (resp.map DecryptedSshKey.tuple)) then
          notify .recordSuccessfulSync
          return (.ok (resp.map DecryptedSshKey.tuple).length : Except String Nat)
        else return .error s!"Sync succeeded but failed to reload keys: {setKeysError}"
      else
        notify .recordSuccessfulSync
        return .ok (resp.map DecryptedSshKey.tuple).length) (SyncAgrees E s₀) x := by
  obtain ⟨s, past⟩ := x
  refine wp_perform_bind.2 ⟨trivial, fun _ _ => wp_perform_bind.2 ⟨trivial, fun _ _ => ?_⟩⟩
  refine wp_perform_bind.2 ⟨trivial, fun locked hlocked => ?_⟩
  obtain rfl : locked = false := hlocked.trans h.listed.vaultLocked
  refine wp_perform_bind.2 ⟨trivial, fun loaded hloaded => ?_⟩
  obtain rfl : loaded = true := hloaded.trans h.listed.isRunning
  refine wp_bind .. |>.2 ⟨trivial, fun now _ => ⟨trivial, fun _ _ => fun n hn => ?_⟩⟩
  have h₁ := (h.next (o := .writeKeyNames (keyNamesOf (resp.map DecryptedSshKey.tuple))) rfl ()).next
    (o := .release .apiClient) rfl ()
  have h₂ := (h₁.next (o := .loadVaultLocked) rfl false).next
    (o := .agentSetKeys (resp.map DecryptedSshKey.tuple)) rfl true
  have h₃ := (h₂.next (o := .now) rfl now).next (o := .notification now .recordSuccessfulSync) rfl ()
  have hcount : n = resp.length := by simpa using (Except.ok.inj hn).symm
  have hrunning : s.agent.isRunning = true := h.listed.isRunning
  refine ⟨resp, h₃.fetched, hcount, ?_, h₃.saved, h₃.header⟩
  refine ⟨h₃.listed.cached, h₃.listed.identities, ?_, ?_, ?_⟩
  · have hnames := Assoc.LastWins.ofList ((resp.map DecryptedSshKey.tuple).map fun k => (k.cipherId, k.name))
    exact hnames
  · exact h₃.listed.fingerprints ▸ Assoc.LastWins.ofList _
  · have hloaded : (s.agent.setKeys E (resp.map DecryptedSshKey.tuple)).keystore =
        Agent.keystoreOf E (resp.map DecryptedSshKey.tuple) := by simp [Agent.setKeys, hrunning]
    exact hloaded ▸ lastWins_keystoreOf E _

theorem wp_syncAgrees (hrun : x.1.agent.isRunning = true) (hlocked : x.1.vaultLocked = false)
    (hunsaved : ¬CacheSaved x.2) :
    wp (syncMachine E) (fun _ _ => True) (doSync E cfg) (SyncAgrees E x.1) x := by
  obtain ⟨s, past⟩ := x
  have hfail : ∀ (e : String) x', wp (syncMachine E) (fun _ _ => True)
      (do op (.release .apiClient); return (.error e : Except String Nat)) (SyncAgrees E s) x' :=
    fun e x' => wp_perform_bind.2 ⟨trivial, fun _ _ => nofun⟩
  refine wp_perform_bind.2 ⟨trivial, fun u _ => wp_perform_bind.2 ⟨trivial, fun client _ => ?_⟩⟩
  cases client with
  | none => exact hfail _ _
  | some client =>
    refine (wp_ite ..).2 ⟨fun _ => hfail _ _, fun _ => wp_bind .. |>.2 ?_⟩
    refine (wp_ite ..).2 ⟨fun _ => hfail _ _, fun _ => (wp_ite ..).2 ⟨fun _ => hfail _ _, fun _ => ?_⟩⟩
    refine ⟨trivial, fun r _ => ?_⟩
    cases r with
    | error e => exact hfail _ _
    | ok resp =>
      have h : Answered s resp ((s, past ++ [⟨.hold .apiClient .read, u⟩] ++ [⟨.peekApiClient, some client⟩] ++
          [⟨.fetchSync client, .ok resp⟩]) : Daemon × List Event) := by
        refine ⟨hrun, hlocked, rfl, rfl, by simp only [lastFetched_snoc, received], fun hs => hunsaved ?_⟩
        have hs₁ := cacheSaved_of_snoc (by rintro cache ⟨⟩) hs
        exact cacheSaved_of_snoc (by rintro cache ⟨⟩) (cacheSaved_of_snoc (by rintro cache ⟨⟩) hs₁)
      refine (wp_ret _).2 ?_
      refine wp_perform_bind.2 ⟨trivial, fun written _ => wp_perform_bind.2 ⟨trivial, fun synced _ => ?_⟩⟩
      have h₁ := (h.next (E := E) (o := .writeKeySelectorFiles resp) rfl written).next (E := E)
        (o := .syncManagedSshConfig resp) rfl synced
      exact wp_bind .. |>.2 ((wp_reconcileViews h₁).post fun _ _ hx => hx.wp_load)

/-- After a sync that succeeds on an unlocked vault, with the agent running, all views of the key set hold
the list the server answered with; the cache as well where saving it succeeds. -/
theorem views_agree_after_sync {E : Crates} {cfg : Config} {s s' : Daemon} {tr : List Event} {n : Nat}
    (hrun : s.agent.isRunning = true) (hlocked : s.vaultLocked = false)
    (h : Steps (machine E) (doSync E cfg) s tr (.ret (.ok n)) s') :
    ∃ resp, lastFetched tr = some resp ∧ n = resp.length ∧
      ViewsAgree E s' (resp.map DecryptedSshKey.tuple) ∧ (SavingSucceeds E s tr → CacheSaved tr) ∧
      (CacheSaved tr → HeaderLists s' (resp.map DecryptedSshKey.tuple)) := by
  have hnone : ¬CacheSaved [] := by
    rintro ⟨cache, hc⟩
    exact absurd hc List.not_mem_nil
  exact (wp_syncAgrees (x := (s, [])) hrun hlocked hnone).of_ret (h.log []) n rfl

/-- An unlocked session with a cache and its Local Cache Key. -/
def plainSession : Daemon where
  agent := { isRunning := true }
  apiClient := some ((createClient plainConfig "device").loggedIn ⟨"access", none, 3600000⟩ plainKey)
  localCacheKeyState := some plainKey
  localKeyCacheData := some
    { version := 3
      header := { email := "user@example.org", serverUrl := "https://vault.example.org", keys := [] }
      encryptedPayload := Plain.encrypt (utf8 (Plain.keysToJson [])) plainKey
      localCacheKey := {} }

def Event.savesWell : Event → Bool
  | ⟨.saveLocalKeyCache _, r⟩ => r.isOk
  | _ => true

theorem savingSucceeds_plainSession {tr : List Event} (h : tr.all Event.savesWell = true) :
    SavingSucceeds .plain plainSession tr where
  cache := rfl
  key := ⟨plainKey, rfl, fun _ _ _ => ⟨_, rfl⟩⟩
  saves cache r hr := by
    have hsave := List.all_eq_true.1 h _ hr
    cases r with
    | ok _ => rfl
    | error e => cases hsave

/-- A vault with one item twice and an item whose key does not parse; the cache is saved. -/
theorem views_agree_after_sync_repeated : ∃ tr s',
    Steps (machine .plain) (doSync .plain plainConfig) plainSession tr (.ret (.ok 3)) s' ∧
    SavingSucceeds .plain plainSession tr ∧
    ∃ resp, lastFetched tr = some resp ∧ 3 = resp.length ∧
      ViewsAgree .plain s' (resp.map DecryptedSshKey.tuple) ∧ CacheSaved tr ∧
      HeaderLists s' (resp.map DecryptedSshKey.tuple) := by
  let sc : Script := { fetched := .ok [⟨"PRIVATE", "", "work", "item"⟩, ⟨"", "", "broken", "other"⟩,
    ⟨"PRIVATE", "", "home", "item"⟩] }
  have hsteps := sc.run_steps .plain enough (doSync .plain plainConfig) plainSession
  have hret : (sc.run .plain enough (doSync .plain plainConfig) plainSession).1 = .ret (.ok 3) := rfl
  rw [hret] at hsteps
  have hs := savingSucceeds_plainSession
    (show (Prog.trace (machine .plain) sc.answer enough (doSync .plain plainConfig) plainSession).all
      Event.savesWell = true by decide +kernel)
  obtain ⟨resp, hfetched, hcount, hviews, hsaved, hheader⟩ := views_agree_after_sync rfl rfl hsteps
  exact ⟨_, _, hsteps, hs, resp, hfetched, hcount, hviews, hsaved hs, hheader (hsaved hs)⟩

end SshWarden
