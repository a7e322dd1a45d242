import SshWarden.Handlers
import SshWarden.Scenario

/-!
# How fresh the cache on disk is

A reconciliation refreshes the cache file when the session holds a cache and its Local Cache Key, and
skips it silently otherwise. `RefreshReady` is the state in which nothing is lost that way, and
`cache_fresh_after_sync` says that it is enough: the file then holds the keys just received, or a flag
says that it may not.
-/

namespace SshWarden
open Prog

variable {E : Crates} {cfg : Config} {α β : Type}

/-- What the crates promise: decryption inverts encryption, and the JSON of keys reads back. -/
structure CacheLaws (E : Crates) : Prop where
  decrypt : ∀ {iv data key enc}, E.encryptEncString iv data key = .ok enc → E.decryptEncString enc key = .ok data
  parse : ∀ keys, E.keysFromJson (E.keysToJson keys) = .ok keys

theorem cacheLaws_plain : CacheLaws .plain where
  decrypt h := by
    obtain rfl := Except.ok.inj h
    exact Plain.decrypt_encrypt _ _
  parse := Plain.keysFromJson_keysToJson

/-- The key is the Local Cache Key of the slots: what their PIN slot holds, where they have one. -/
def HoldsKey (E : Crates) (slots : LocalCacheKeySlots) (key : SymmetricKey) : Prop :=
  slots.pinEncrypted.isSome → ∃ pin, openPinSlot E slots pin = .ok key

/-- The cache lists the names and ids of the keys in order, and its payload is these keys under its
Local Cache Key. -/
structure CacheHolds (E : Crates) (cache : LocalKeyCacheFile) (keys : List KeyTuple) : Prop where
  header : cache.header.keys.map (fun k => (k.name, k.vaultItemId)) = keys.map fun k => (k.name, k.cipherId)
  payload : ∃ key json, HoldsKey E cache.localCacheKey key ∧
    decryptEnvelopePayload E cache key = .ok (json, key) ∧ E.keysFromJson json = .ok keys

/-- The file holds the keys, or a flag says that it may not. -/
def CacheFresh (E : Crates) (s : Daemon) (keys : List KeyTuple) : Prop :=
  (∃ cache, s.disk.localKeyCache = some cache ∧ CacheHolds E cache keys) ∨
    s.notificationState.staleCache = true ∨ s.pendingSync = true

/-- The reconciliation that starts here, after the key lists have been set, refreshes the file under its
own key or has nothing to refresh. -/
def RefreshReady (E : Crates) (s : Daemon) : Prop :=
  match s.localKeyCacheData, s.localCacheKeyState with
  | some cache, some key => HoldsKey E cache.localCacheKey key ∨ s.pendingSync = true
  | _, _ => CacheFresh E s s.cachedKeyTuples

/-- `RefreshReady` is asked for where the reconciliation replaces the fingerprints. -/
def refreshGuard (E : Crates) : Op → Daemon → Prop
  | .writeFingerprints _, s => RefreshReady E s
  | _, _ => True

/-- The keys received last. -/
def received (keys : Option (List DecryptedSshKey)) : Event → Option (List DecryptedSshKey)
  | ⟨.fetchSync _, .ok fetched⟩ => some fetched
  | _ => keys

def lastFetched (tr : List Event) : Option (List DecryptedSshKey) := tr.foldl received none

theorem holdsKey_refreshedSlots {slots : LocalCacheKeySlots} {key : SymmetricKey} (h : HoldsKey E slots key) :
    HoldsKey E (refreshedSlots cfg slots) key := by
  unfold refreshedSlots
  split
  · exact h
  · exact h

theorem cacheHolds_build (hE : CacheLaws E) {iv : Bytes} {keys : List KeyTuple} {email url : String}
    {key : SymmetricKey} {slots : LocalCacheKeySlots} {cache : LocalKeyCacheFile} (hkey : HoldsKey E slots key)
    (h : buildEnvelopeLocalKeyCache E iv keys email url key slots = .ok cache) : CacheHolds E cache keys := by
  obtain ⟨payload, henc, hcache⟩ := except_bind_ok h
  obtain rfl := Except.ok.inj hcache
  refine ⟨by simp [keyIdentitiesFromTuples], key, E.keysToJson keys, hkey, ?_, hE.parse keys⟩
  simp [decryptEnvelopePayload, hE.decrypt henc]

/-- The machine of the daemon where every reconciliation is ready, with the keys received last. -/
abbrev freshMachine (E : Crates) (G : Op → Daemon → Prop) :
    Machine daemonSig (Daemon × Option (List DecryptedSshKey)) :=
  ((machine E).guard G).track received

/-- The agent runs, and `keys` were received last. -/
def Received (keys : Option (List DecryptedSshKey)) (x : Daemon × Option (List DecryptedSshKey)) : Prop :=
  x.1.agent.isRunning = true ∧ x.2 = keys

/-- The agent runs, and the file is as fresh as the keys received last. -/
def Fresh (E : Crates) (x : Daemon × Option (List DecryptedSshKey)) : Prop :=
  x.1.agent.isRunning = true ∧ ∀ keys, x.2 = some keys → CacheFresh E x.1 (keys.map DecryptedSshKey.tuple)

theorem Received.fresh {x : Daemon × Option (List DecryptedSshKey)} (h : Received none x) : Fresh E x :=
  ⟨h.1, fun _ hk => nomatch h.2.symm.trans hk⟩

/-- Operations that fetch nothing. -/
def Op.fetchesNothing : Op → Bool
  | fetchSync _ => false
  | _ => true

/-- Operations that leave the file and its flags, and fetch nothing. -/
def Op.keepsFresh : Op → Bool
  | fetchSync _ | saveLocalKeyCache _ | deleteLocalKeyCache | swapPendingSync _ | storePendingSync false
  | notification _ .markCacheRefreshed | notification _ .reset => false
  | _ => true

abbrev FetchesNothing {α : Type} (p : DProg α) : Prop :=
  Prog.Only (S := daemonSig) (fun o : Op => o.fetchesNothing = true) p

abbrev KeepsFresh {α : Type} (p : DProg α) : Prop :=
  Prog.Only (S := daemonSig) (fun o : Op => o.keepsFresh = true) p

theorem Received.next {G : Op → Daemon → Prop} {keys : Option (List DecryptedSshKey)}
    {x : Daemon × Option (List DecryptedSshKey)} (h : Received keys x) {o : Op}
    (ho : o.fetchesNothing = true) (a : o.Ans) : Received keys ((freshMachine E G).next o x a) := by
  refine ⟨isRunning_next E o a h.1, ?_⟩
  have hsame : received x.2 ⟨o, a⟩ = x.2 := by
    cases o <;> first | rfl | exact absurd ho Bool.false_ne_true
  exact hsame.trans h.2

theorem CacheFresh.of_same {s s' : Daemon} {keys : List KeyTuple} (h : CacheFresh E s keys)
    (hd : s'.disk.localKeyCache = s.disk.localKeyCache)
    (hs : s.notificationState.staleCache = true → s'.notificationState.staleCache = true)
    (hp : s.pendingSync = true → s'.pendingSync = true) : CacheFresh E s' keys :=
  h.imp (fun ⟨cache, hc, hk⟩ => ⟨cache, hd.trans hc, hk⟩) (Or.imp hs hp)

theorem cacheFresh_next {s : Daemon} {keys : List KeyTuple} (h : CacheFresh E s keys) {o : Op}
    (ho : o.keepsFresh = true) (a : o.Ans) : CacheFresh E (next E o s a) keys := by
  cases o with
  | notification now u =>
    cases u <;> first
      | exact absurd ho Bool.false_ne_true
      | exact h.of_same rfl id id
      | exact h.of_same rfl (fun _ => rfl) id
  | storePendingSync b =>
    cases b with
    | true => exact .inr (.inr rfl)
    | false => exact absurd ho Bool.false_ne_true
  | _ => first
    | exact absurd ho Bool.false_ne_true
    | exact h.of_same rfl id id
    | (cases a <;> exact h.of_same rfl id id)

theorem Fresh.next {G : Op → Daemon → Prop} {x : Daemon × Option (List DecryptedSshKey)} (h : Fresh E x)
    {o : Op} (ho : o.keepsFresh = true) (a : o.Ans) : Fresh E ((freshMachine E G).next o x a) := by
  have hno : o.fetchesNothing = true := by
    cases o <;> first | rfl | exact absurd ho Bool.false_ne_true
  have hr : Received x.2 ((freshMachine E G).next o x a) := Received.next ⟨h.1, rfl⟩ hno a
  exact ⟨hr.1, fun keys hk => cacheFresh_next (h.2 keys (hr.2.symm.trans hk)) ho a⟩

variable {G : Op → Daemon → Prop} {x : Daemon × Option (List DecryptedSshKey)}
  {keys : Option (List DecryptedSshKey)}

theorem wp_op_received {o : Op} {f : o.Ans → DProg β} {Q : β → Daemon × Option (List DecryptedSshKey) → Prop}
    (ho : o.fetchesNothing = true) (hx : Received keys x)
    (hf : ∀ a x', Received keys x' → wp (freshMachine E G) (fun _ _ => True) (f a) Q x') :
    wp (freshMachine E G) (fun _ _ => True) (op o >>= f) Q x :=
  wp_perform_bind.2 ⟨trivial, fun a _ => hf a _ (hx.next ho a)⟩

theorem FetchesNothing.wp_received {p : DProg α} (h : FetchesNothing p) (hx : Received keys x) :
    wp (freshMachine E G) (fun _ _ => True) p (fun _ => Received keys) x :=
  (h.wp (fun _ _ a ho hx _ => hx.next ho a) hx).mono (fun _ _ _ => trivial) fun _ _ h => h

theorem KeepsFresh.wp_fresh {p : DProg α} (h : KeepsFresh p) (hx : Fresh E x) :
    wp (freshMachine E G) (fun _ _ => True) p (fun _ => Fresh E) x :=
  (h.wp (fun _ _ a ho hx _ => hx.next ho a) hx).mono (fun _ _ _ => trivial) fun _ _ h => h

theorem Op.fetchesNothing_of_isAside {o : Op} (h : o.isAside = true) : o.fetchesNothing = true := by
  cases o <;> first | rfl | exact absurd h Bool.false_ne_true

theorem Op.keepsFresh_of_isConnecting {o : Op} (h : o.isConnecting = true) : o.keepsFresh = true := by
  cases o with
  | notification now u => cases u <;> first | rfl | exact absurd h Bool.false_ne_true
  | _ => first | rfl | exact absurd h Bool.false_ne_true

theorem Aside.fetchesNothing {p : DProg α} (h : Aside p) : FetchesNothing p :=
  h.mono fun _ => Op.fetchesNothing_of_isAside

theorem Inner.fetchesNothing {p : DProg α} (h : Inner p) : FetchesNothing p := h.preparing.aside.fetchesNothing

theorem Routine.fetchesNothing {p : DProg α} (h : Routine p) : FetchesNothing p := h.inner.fetchesNothing

theorem Closing.keepsFresh {p : DProg α} (h : Closing p) : KeepsFresh p :=
  h.mono fun o ho => by cases o <;> first | rfl | exact absurd ho Bool.false_ne_true

theorem Connecting.keepsFresh {p : DProg α} (h : Connecting p) : KeepsFresh p :=
  h.mono fun _ => Op.keepsFresh_of_isConnecting

theorem fetchesNothing_op {o : Op} (h : o.fetchesNothing = true) : FetchesNothing (op o) :=
  ⟨h, fun _ => trivial⟩

theorem keepsFresh_op {o : Op} (h : o.keepsFresh = true) : KeepsFresh (op o) := ⟨h, fun _ => trivial⟩

theorem keepsFresh_notify {u : NotificationUpdate} (h : ∀ now, (Op.notification now u).keepsFresh = true) :
    KeepsFresh (notify u) :=
  .bind (keepsFresh_op rfl) fun now => keepsFresh_op (h now)

theorem wp_markCacheStale {keys : Option (List DecryptedSshKey)} (hx : Received keys x) (error : String) :
    wp (freshMachine E G) (fun _ _ => True) (notify (.markCacheStale error)) (fun _ => Fresh E) x :=
  ⟨trivial, fun _ _ => ⟨trivial, fun _ _ => ⟨hx.1, fun _ _ => .inr (.inl rfl)⟩⟩⟩

/-- The end of a reconciliation, which reads the cache and its key. -/
theorem wp_refresh (hE : CacheLaws E) {keys : List DecryptedSshKey} (hx : Received (some keys) x)
    (hready : RefreshReady E x.1) (hkeys : x.1.cachedKeyTuples = keys.map DecryptedSshKey.tuple) :
    wp (freshMachine E G) (fun _ _ => True) (do
      let existingCache ← op .readLocalKeyCache
      let localCacheKey ← op .readLocalCacheKey
      match existingCache, localCacheKey with
      | some existing, some key =>
        match ← refreshEnvelopeLocalKeyCache E cfg (keys.map DecryptedSshKey.tuple) existing key with
        | .ok cache =>
          op (.writeLocalKeyCache (some cache))
          op (.writeLocalCacheKey (some key))
          notify .markCacheRefreshed
        | .error e => notify (.markCacheStale e)
      | _, _ => return ()) (fun _ => Fresh E) x := by
  obtain ⟨s, received⟩ := x
  obtain ⟨hrun, rfl⟩ := hx
  refine wp_perform_bind.2 ⟨trivial, fun existing he => wp_perform_bind.2 ⟨trivial, fun key hk => ?_⟩⟩
  obtain rfl : existing = s.localKeyCacheData := he.1
  obtain rfl : key = s.localCacheKeyState := hk.1
  have hskip : CacheFresh E s s.cachedKeyTuples → Fresh E (s, some keys) := by
    refine fun h => ⟨hrun, fun keys' hk => ?_⟩
    obtain rfl := Option.some.inj hk
    exact hkeys ▸ h
  have hrefresh : ∀ existing key, HoldsKey E existing.localCacheKey key ∨ s.pendingSync = true →
      wp (freshMachine E G) (fun _ _ => True) (do
        match ← refreshEnvelopeLocalKeyCache E cfg (keys.map DecryptedSshKey.tuple) existing key with
        | .ok cache =>
          op (.writeLocalKeyCache (some cache))
          op (.writeLocalCacheKey (some key))
          notify .markCacheRefreshed
        | .error e => notify (.markCacheStale e)) (fun _ => Fresh E) (s, some keys) := by
    intro existing key hkey
    refine wp_bind .. |>.2 (wp_perform_bind.2 ⟨trivial, fun iv _ => ?_⟩)
    cases hbuild : buildEnvelopeLocalKeyCache E iv (keys.map DecryptedSshKey.tuple) existing.header.email
        existing.header.serverUrl key (refreshedSlots cfg existing.localCacheKey) with
    | error e => exact wp_markCacheStale ⟨hrun, rfl⟩ e
    | ok cache =>
      refine wp_perform_bind.2 ⟨trivial, fun saved _ => ?_⟩
      cases saved with
      | error e => exact wp_markCacheStale ⟨hrun, rfl⟩ e
      | ok _ =>
        refine ⟨trivial, fun _ _ => ⟨trivial, fun _ _ => ⟨trivial, fun now _ => ⟨trivial, fun _ _ => ?_⟩⟩⟩⟩
        refine ⟨hrun, fun keys' hk => ?_⟩
        obtain rfl := Option.some.inj hk
        exact hkey.imp (fun h => ⟨cache, rfl, cacheHolds_build hE (holdsKey_refreshedSlots h) hbuild⟩) .inr
  unfold RefreshReady at hready
  cases hc : s.localKeyCacheData with
  | none =>
    simp only [hc] at hready
    exact hskip hready
  | some existing =>
    cases hl : s.localCacheKeyState with
    | none =>
      simp only [hc, hl] at hready
      exact hskip hready
    | some key =>
      simp only [hc, hl] at hready
      exact hrefresh existing key hready

/-- A reconciliation of the keys received, where it finds the file ready. -/
theorem wp_reconcileSyncedKeyState (hE : CacheLaws E) {keys : List DecryptedSshKey}
    (hx : Received (some keys) x) :
    wp (freshMachine E (refreshGuard E)) (fun _ _ => True)
      (reconcileSyncedKeyState E cfg (keys.map DecryptedSshKey.tuple)) (fun _ => Fresh E) x := by
  have hclear : ∀ old, FetchesNothing
      (clearAuthorizationMemoryForChangedKeys E old (keys.map DecryptedSshKey.tuple)) := fun old =>
    .ite trivial (.bind (fetchesNothing_op rfl) fun _ => trivial)
  refine wp_op_received rfl hx fun old x₁ hx₁ => wp_bind .. |>.2 ?_
  refine ((hclear old).wp_received hx₁).post fun new x₂ hx₂ => ?_
  refine wp_op_received rfl hx₂ fun _ x₃ hx₃ => ?_
  refine wp_perform_bind.2 ⟨trivial, fun _ _ => wp_perform_bind.2 ⟨trivial, fun _ hready => ?_⟩⟩
  exact wp_refresh hE ⟨hx₃.1, hx₃.2⟩ hready.2 rfl

/-! ### Syncing -/

/-- What a sync promises of the state in which it succeeds. -/
structure AfterSync (E : Crates) (cfg : Config) (G : Op → Daemon → Prop)
    (P : Daemon × Option (List DecryptedSshKey) → Prop) : Prop where
  running : ∀ {x}, P x → x.1.agent.isRunning = true
  keeps : ∀ {o x} (a : o.Ans), o.keepsFresh = true → P x → P ((freshMachine E G).next o x a)
  reconcile : ∀ {x keys}, Received (some keys) x → wp (freshMachine E G) (fun _ _ => True)
    (reconcileSyncedKeyState E cfg (keys.map DecryptedSshKey.tuple)) (fun _ => P) x

theorem afterSync_fresh (hE : CacheLaws E) (cfg : Config) : AfterSync E cfg (refreshGuard E) (Fresh E) where
  running h := h.1
  keeps a ho h := h.next ho a
  reconcile hx := wp_reconcileSyncedKeyState hE hx

/-- Without a condition on the reconciliation the agent still runs after a sync. -/
theorem afterSync_running (cfg : Config) : AfterSync E cfg (fun _ _ => True) fun x =>
    x.1.agent.isRunning = true where
  running h := h
  keeps a _ h := isRunning_next E _ a h
  reconcile hx :=
    ((reconcilingSteps_reconcileSyncedKeyState E cfg _).inner.fetchesNothing.wp_received hx).post
      fun _ _ h => h.1

theorem AfterSync.wp_op {P : Daemon × Option (List DecryptedSshKey) → Prop} (h : AfterSync E cfg G P) {o : Op}
    {f : o.Ans → DProg β} {Q : β → Daemon × Option (List DecryptedSshKey) → Prop} (ho : o.keepsFresh = true)
    (hx : P x) (hf : ∀ a x', P x' → wp (freshMachine E G) (fun _ _ => True) (f a) Q x') :
    wp (freshMachine E G) (fun _ _ => True) (op o >>= f) Q x :=
  wp_perform_bind.2 ⟨trivial, fun a _ => hf a _ (h.keeps a ho hx)⟩

theorem AfterSync.wp_keeps {P : Daemon × Option (List DecryptedSshKey) → Prop} (h : AfterSync E cfg G P)
    {p : DProg α} (hp : KeepsFresh p) (hx : P x) : wp (freshMachine E G) (fun _ _ => True) p (fun _ => P) x :=
  (hp.wp (fun _ _ a ho hx _ => h.keeps a ho hx) hx).mono (fun _ _ _ => trivial) fun _ _ h => h

/-- The end of a sync: with the agent running the keys are loaded. -/
theorem AfterSync.wp_loadSynced {P : Daemon × Option (List DecryptedSshKey) → Prop} (h : AfterSync E cfg G P)
    (hx : P x) (keyTuples : List KeyTuple) : wp (freshMachine E G) (fun _ _ => True) (do
      op (.writeKeyNames (keyNamesOf keyTuples))
      op (.release .apiClient)
      if !(← op .loadVaultLocked) then
        if ← op (.agentSetKeys keyTuples) then
          notify .recordSuccessfulSync
          return (.ok keyTuples.length : Except String Nat)
        else return .error s!"Sync succeeded but failed to reload keys: {setKeysError}"
      else
        notify .recordSuccessfulSync
        return .ok keyTuples.length)
      (fun r x' => (∀ n, r = .ok n → P x') ∧ ∀ e, r = .error e → Received keys x') x := by
  have hdone : ∀ {x'} (n : Nat), P x' → wp (freshMachine E G) (fun _ _ => True)
      (do notify .recordSuccessfulSync; return (.ok n : Except String Nat))
      (fun r x' => (∀ n, r = .ok n → P x') ∧ ∀ e, r = .error e → Received keys x') x' := fun n hx' =>
    wp_bind .. |>.2 ((h.wp_keeps (keepsFresh_notify fun _ => rfl) hx').post fun _ _ hx'' =>
      ⟨fun _ _ => hx'', nofun⟩)
  refine h.wp_op rfl hx fun _ x₁ hx₁ => h.wp_op rfl hx₁ fun _ x₂ hx₂ => h.wp_op rfl hx₂ fun locked x₃ hx₃ => ?_
  refine (wp_ite ..).2 ⟨fun _ => ?_, fun _ => hdone _ hx₃⟩
  refine wp_perform_bind.2 ⟨trivial, fun loaded hl => ?_⟩
  obtain rfl : loaded = true := hl.1.trans (h.running hx₃)
  exact hdone _ (h.keeps (o := .agentSetKeys keyTuples) true rfl hx₃)

theorem wp_syncSshKeys {client : BitwardenClient} (hx : Received keys x) :
    wp (freshMachine E G) (fun _ _ => True) (syncSshKeys client) (fun r x' =>
      (∀ fetched, r = .ok fetched → Received (some fetched) x') ∧ ∀ e, r = .error e → Received keys x') x := by
  have hno : ∀ {x'} (e : String), Received keys x' →
      (∀ fetched, (Except.error e : Except String (List DecryptedSshKey)) = .ok fetched →
        Received (some fetched) x') ∧
      ∀ e', (Except.error e : Except String (List DecryptedSshKey)) = .error e' → Received keys x' :=
    fun e hx' => ⟨nofun, fun _ _ => hx'⟩
  refine (wp_ite ..).2 ⟨fun _ => hno _ hx, fun _ => (wp_ite ..).2 ⟨fun _ => hno _ hx, fun _ => ?_⟩⟩
  refine ⟨trivial, fun r _ => ?_⟩
  cases r with
  | error e => exact hno e hx
  | ok fetched =>
    refine ⟨fun fetched' h => ?_, nofun⟩
    obtain rfl := Except.ok.inj h
    exact ⟨hx.1, rfl⟩

/-- A sync that succeeds comes to `P`, one that fails has received nothing. -/
theorem AfterSync.wp_doSync {P : Daemon × Option (List DecryptedSshKey) → Prop} (h : AfterSync E cfg G P)
    (hx : Received keys x) : wp (freshMachine E G) (fun _ _ => True) (doSync E cfg)
      (fun r x' => (∀ n, r = .ok n → P x') ∧ ∀ e, r = .error e → Received keys x') x := by
  have hfail : ∀ {x'} (e : String), Received keys x' → wp (freshMachine E G) (fun _ _ => True)
      (do op (.release .apiClient); return (.error e : Except String Nat))
      (fun r x' => (∀ n, r = .ok n → P x') ∧ ∀ e, r = .error e → Received keys x') x' :=
    fun e hx' => wp_op_received rfl hx' fun _ _ hx'' => ⟨nofun, fun _ _ => hx''⟩
  refine wp_op_received rfl hx fun _ x₁ hx₁ => wp_op_received rfl hx₁ fun client x₂ hx₂ => ?_
  cases client with
  | none => exact hfail _ hx₂
  | some client =>
    refine (wp_ite ..).2 ⟨fun _ => hfail _ hx₂, fun _ => wp_bind .. |>.2 ?_⟩
    refine (wp_syncSshKeys hx₂).post fun r x₃ hx₃ => ?_
    cases r with
    | error e => exact hfail _ (hx₃.2 e rfl)
    | ok fetched =>
      refine wp_op_received rfl (hx₃.1 fetched rfl) fun _ x₄ hx₄ => ?_
      refine wp_op_received rfl hx₄ fun _ x₅ hx₅ => wp_bind .. |>.2 ?_
      exact (h.reconcile hx₅).post fun _ _ hx₆ => h.wp_loadSynced hx₆ _

/-- A pending sync that fails stays pending. -/
theorem wp_resolvePendingSync (hE : CacheLaws E) (hx : Fresh E x) :
    wp (freshMachine E (refreshGuard E)) (fun _ _ => True) (resolvePendingSync E cfg) (fun _ => Fresh E) x := by
  refine wp_perform_bind.2 ⟨trivial, fun pending hp => ?_⟩
  obtain rfl : pending = x.1.pendingSync := hp.1
  refine (wp_ite ..).2 ⟨fun hno => ⟨hx.1, fun keys hk => ?_⟩, fun _ => wp_bind .. |>.2 ?_⟩
  · refine (hx.2 keys hk).imp_right (Or.imp_right fun htrue => ?_)
    rw [htrue] at hno
    exact absurd hno (by decide)
  · have hx₀ : Received x.2 ((freshMachine E (refreshGuard E)).next (.swapPendingSync false) x x.1.pendingSync) :=
      Received.next ⟨hx.1, rfl⟩ (o := .swapPendingSync false) rfl x.1.pendingSync
    refine ((afterSync_fresh hE cfg).wp_doSync hx₀).post fun r x₁ hx₁ => ?_
    cases r with
    | ok n => exact hx₁.1 n rfl
    | error e => exact ⟨trivial, fun _ _ => ⟨(hx₁.2 e rfl).1, fun _ _ => .inr (.inr rfl)⟩⟩

/-! ### The handlers -/

/-- From the start of a turn the program leaves the file as fresh as what it has received. -/
def Refreshes (E : Crates) (p : DProg α) : Prop :=
  ∀ x, Received none x → wp (freshMachine E (refreshGuard E)) (fun _ _ => True) p (fun _ => Fresh E) x

theorem FetchesNothing.refreshes {p : DProg α} (h : FetchesNothing p) : Refreshes E p :=
  fun _ hx => (h.wp_received hx).post fun _ _ h => h.fresh

theorem Aside.refreshes {p : DProg α} (h : Aside p) : Refreshes E p := h.fetchesNothing.refreshes

theorem Refreshes.bind {p : DProg α} {f : α → DProg β} (h : Aside p) (hf : ∀ a, Refreshes E (f a)) :
    Refreshes E (p >>= f) :=
  fun _ hx => wp_bind p f _ |>.2 ((h.fetchesNothing.wp_received hx).post fun a x' hx' => hf a x' hx')

theorem Refreshes.andThen {p : DProg α} {f : α → DProg β} (h : Refreshes E p) (hf : ∀ a, KeepsFresh (f a)) :
    Refreshes E (p >>= f) :=
  fun x hx => wp_bind p f _ |>.2 ((h x hx).post fun a _ hx' => (hf a).wp_fresh hx')

theorem Refreshes.ite {c : Prop} [Decidable c] {p q : DProg α} (hp : Refreshes E p) (hq : Refreshes E q) :
    Refreshes E (if c then p else q) := by
  split <;> assumption

theorem Refreshes.ret (a : α) : Refreshes E (pure a : DProg α) := Aside.refreshes trivial

theorem refreshes_resolvePendingSync (hE : CacheLaws E) (cfg : Config) :
    Refreshes E (resolvePendingSync E cfg) :=
  fun _ hx => wp_resolvePendingSync hE hx.fresh

/-- The unlocks leave the file as fresh as what they have received. -/
theorem refreshes_rules (hE : CacheLaws E) (cfg : Config) : UnlockRules E cfg fun _ p => Refreshes E p where
  unlocking h := h.preparing.aside.refreshes
  bind h hf := .bind h.preparing.aside hf
  andThen h hf := h.andThen fun a => (hf a).keepsFresh
  resolve := refreshes_resolvePendingSync hE cfg
  restore pin := .bind (preparing_tryRestoreApiSession E cfg pin).aside fun _ =>
    refreshes_resolvePendingSync hE cfg

theorem refreshes_handleUnlockPassword (hE : CacheLaws E) (cfg : Config) (password : String) :
    Refreshes E (handleUnlockPassword E cfg password) := by
  have hP := afterSync_fresh hE cfg
  refine .bind (aside_op rfl) fun wasLocked => .ite (.ret _) <| .bind (aside_op rfl) fun device =>
    .bind (aside_op rfl) fun r => ?_
  cases r with
  | error e => exact .ret _
  | ok r =>
    intro x hx
    refine wp_bind .. |>.2 ((wp_syncSshKeys hx).post fun r x₁ hx₁ => ?_)
    cases r with
    | error e => exact (hx₁.2 e rfl).fresh
    | ok fetched =>
      refine wp_op_received rfl (hx₁.1 fetched rfl) fun _ x₂ hx₂ => ?_
      refine wp_op_received rfl hx₂ fun _ x₃ hx₃ => wp_bind .. |>.2 ?_
      refine (hP.reconcile hx₃).post fun _ x₄ hx₄ => ?_
      refine hP.wp_op rfl hx₄ fun _ x₅ hx₅ => hP.wp_op rfl hx₅ fun loaded x₆ hx₆ => ?_
      refine (wp_ite ..).2 ⟨fun _ => ?_, fun _ => hx₆⟩
      refine hP.wp_op rfl hx₆ fun _ x₇ hx₇ => wp_bind .. |>.2 ?_
      refine
        (hP.wp_keeps (savingSteps_saveDeviceSession E _ none).routine.connecting.keepsFresh hx₇).post fun _ x₈ hx₈ =>
        wp_bind .. |>.2 ?_
      refine (hP.wp_keeps (hubSteps_connectIfAuthenticated cfg _).connecting.keepsFresh
        hx₈).post fun _ x₉ hx₉ => ?_
      refine hP.wp_op rfl hx₉ fun _ x₁₀ hx₁₀ => wp_bind .. |>.2 ?_
      exact (wp_resolvePendingSync hE hx₁₀).post fun _ _ h => h

/-- A manual sync of an unlocked vault. -/
theorem refreshes_runManualSync (hE : CacheLaws E) (cfg : Config) (wasLocked : Bool) :
    Refreshes E (runManualSync E cfg wasLocked) := by
  intro x hx
  refine wp_bind .. |>.2 (((afterSync_fresh hE cfg).wp_doSync hx).post fun r x₁ hx₁ => ?_)
  cases r with
  | error e => exact (hx₁.2 e rfl).fresh
  | ok n =>
    have hkeep : KeepsFresh (if wasLocked then do
        op (.storePendingSync true)
        return ControlResponse.success
          s!"Synced {n} SSH keys to cache; they will load into the agent on next unlock"
      else return .success s!"Synced {n} SSH keys") := .ite (.bind (keepsFresh_op rfl) fun _ => trivial) trivial
    exact hkeep.wp_fresh (hx₁.1 n rfl)

theorem refreshes_handleSync (hE : CacheLaws E) (cfg : Config) : Refreshes E (handleSync E cfg) := by
  refine .bind (aside_op rfl) fun wasLocked => .ite ?_ (refreshes_runManualSync hE cfg wasLocked)
  refine .bind (inner_ensureLocalCacheKeyForManualSync E cfg).preparing.aside fun r => ?_
  cases r with
  | some e => exact .ret _
  | none => exact refreshes_runManualSync hE cfg wasLocked

theorem refreshes_syncOrDefer (hE : CacheLaws E) (cfg : Config) {done : NotificationUpdate}
    (hdone : ∀ now, (Op.notification now done).keepsFresh = true) : Refreshes E (syncOrDefer E cfg done) := by
  intro x hx
  refine wp_bind .. |>.2 (((afterSync_fresh hE cfg).wp_doSync hx).post fun r x₁ hx₁ => ?_)
  cases r with
  | ok n => exact (keepsFresh_notify hdone).wp_fresh (hx₁.1 n rfl)
  | error e => exact (keepsFresh_op rfl).wp_fresh (hx₁.2 e rfl).fresh

theorem refreshes_handleHubEvent (hE : CacheLaws E) (cfg : Config) (ev : SyncEvent) :
    Refreshes E (handleHubEvent E cfg ev) := by
  cases ev with
  | connectionStatus status => exact (apart_notify _).aside.refreshes
  | cipherChanged =>
    refine .bind (aside_op rfl) fun _ => .ite ?_ (refreshes_syncOrDefer hE cfg fun _ => rfl)
    exact Aside.refreshes (.bind (aside_op rfl) fun _ => (apart_notify _).aside)
  | logOut =>
    exact Aside.refreshes (.bind (apart_notify _).aside fun _ => .bind apart_lockVault.aside fun _ => trivial)
  | fallbackSyncDue =>
    exact .bind (aside_op rfl) fun _ =>
      .ite (aside_op rfl).refreshes (refreshes_syncOrDefer hE cfg fun _ => rfl)

theorem fetchesNothing_handleForget (cfg : Config) (shared : Bool) :
    FetchesNothing (handleForget cfg shared) := by
  refine .bind (inner_forgetFiles cfg _).fetchesNothing fun failures => .bind ?_ fun _ => .bind ?_ fun _ => trivial
  · exact .bind (fetchesNothing_op rfl) fun _ => .bind (fetchesNothing_op rfl) fun _ =>
      .bind (fetchesNothing_op rfl) fun _ => .bind (fetchesNothing_op rfl) fun _ =>
      .bind (fetchesNothing_op rfl) fun _ => .bind (fetchesNothing_op rfl) fun _ =>
      .bind (inner_notify _).fetchesNothing fun _ => fetchesNothing_op rfl
  · refine .ite ?_ ?_
    · exact .bind (fetchesNothing_op rfl) fun _ => .bind (fetchesNothing_op rfl) fun _ =>
        .bind (fetchesNothing_op rfl) fun _ => fetchesNothing_op rfl
    · refine .bind inner_loadSharedCache.fetchesNothing fun cache => .bind (fetchesNothing_op rfl) fun _ =>
        .bind (fetchesNothing_op rfl) fun _ => .bind (fetchesNothing_op rfl) fun _ =>
        .bind (fetchesNothing_op rfl) fun _ => ?_
      cases cache with
      | none => trivial
      | some cache =>
        exact .bind (fetchesNothing_op rfl) fun _ => .bind (fetchesNothing_op rfl) fun _ => fetchesNothing_op rfl

theorem refreshes_handleControlCommand (hE : CacheLaws E) (cfg : Config) (action : ControlAction) :
    Refreshes E (handleControlCommand E cfg action) := by
  refine .bind (Inner.preparing (.when (inner_reload cfg))).aside fun _ => ?_
  cases action with
  | stop => exact .ret _
  | lock => exact apart_handleLock.aside.refreshes
  | unlock => exact (refreshes_rules hE cfg).handleUnlock
  | unlockNative => exact (refreshes_rules hE cfg).handleUnlockNative
  | unlockHello => exact (refreshes_rules hE cfg).handleUnlockHello
  | status json => exact (apart_buildStatusResponse cfg json).aside.refreshes
  | unlockPin pin => exact (refreshes_rules hE cfg).handleUnlockPin pin
  | unlockPassword password => exact refreshes_handleUnlockPassword hE cfg password
  | sync => exact refreshes_handleSync hE cfg
  | forget shared => exact (fetchesNothing_handleForget cfg shared).refreshes
  | setPin pin => exact (apart_handleSetPin E cfg pin).aside.refreshes
  | bindHostsDialog => exact prompting_handleBindHostsDialog.routine.aside.refreshes

theorem refreshes_mainStep (hE : CacheLaws E) (cfg : Config) (ev : MainEvent) :
    Refreshes E (mainStep E cfg ev) := by
  cases ev with
  | control action => exact (refreshes_handleControlCommand hE cfg action).andThen fun _ => trivial
  | runtime event => exact (refreshes_rules hE cfg).handleRuntimeEvent event
  | hub event => exact refreshes_handleHubEvent hE cfg event
  | tokenRefresh => exact (aside_handleTokenRefresh E cfg).refreshes
  | autoLockTick idle => exact (apart_handleAutoLockTick cfg idle).aside.refreshes

/-- A manual sync of a locked vault stays pending, whatever its reconciliation finds. -/
theorem wp_lockedSync (hx : Received none x) (hl : x.1.vaultLocked = true) :
    wp (freshMachine E fun _ _ => True) (fun _ _ => True) (mainStep E cfg (.control .sync))
      (fun _ => Fresh E) x := by
  have hreload : wp (freshMachine E fun _ _ => True) (fun _ _ => True)
      (Prog.when ControlAction.sync.reloads (reloadSharedLocalCacheFromDiskIfMultiDevice cfg))
      (fun _ x' => Received none x' ∧ x'.1.vaultLocked = true) x := by
    refine (Only.wp (I := fun x' => Received none x' ∧ x'.1.vaultLocked = true) (.when (inner_reload cfg))
      (fun o x' a ho hx' _ => ?_) ⟨hx, hl⟩).mono (fun _ _ _ => trivial) fun _ _ h => h
    have hno := Op.fetchesNothing_of_isAside (Op.isAside_of_isPreparing (Op.isPreparing_of_isInner ho))
    exact ⟨hx'.1.next hno a, (sameLock_next E (Op.isSteady_of_isInner ho) _ a).vaultLocked.trans hx'.2⟩
  refine wp_bind .. |>.2 (wp_bind .. |>.2 (hreload.post ?_))
  rintro - x₁ ⟨hx₁, hl₁⟩
  refine wp_perform_bind.2 ⟨trivial, fun locked hlocked => ?_⟩
  obtain rfl : locked = true := hlocked.1.trans hl₁
  have hx₂ : Received none ((freshMachine E fun _ _ => True).next .loadVaultLocked x₁ true) :=
    hx₁.next (o := .loadVaultLocked) rfl true
  refine wp_bind .. |>.2 (((afterSync_running cfg).wp_doSync hx₂).post fun r x₃ hx₃ => ?_)
  cases r with
  | error e => exact (hx₃.2 e rfl).fresh
  | ok n => exact ⟨trivial, fun _ _ => ⟨hx₃.1 n rfl, fun _ _ => .inr (.inr rfl)⟩⟩

/-- After every turn in which the vault was fetched the cache file holds the keys received, or a flag says
that it may not, when each reconciliation of the turn was ready to refresh the file. -/
theorem cache_fresh_after_sync (hE : CacheLaws E) {cfg₀ : Config} {s s₁ s' : Daemon} {ev : MainEvent}
    {tr : List Event} {keys : List DecryptedSshKey} (hs : Reachable E cfg₀ cfg s) (hr : Receives s ev s₁)
    (h : Steps (machine E) (mainStep E cfg ev) s₁ tr (.ret ()) s')
    (hok : (ev = .control .sync ∧ s.vaultLocked = true) ∨ (machine E).Meets (refreshGuard E) s₁ tr)
    (hk : lastFetched tr = some keys) : CacheFresh E s' (keys.map DecryptedSshKey.tuple) := by
  have hrun : s₁.agent.isRunning = true := by
    have := hs.isRunning
    cases hr <;> exact this
  rcases hok with ⟨rfl, hl⟩ | hok
  · cases hr
    have hwp : wp (freshMachine E fun _ _ => True) _ (mainStep E cfg _) _ (s, none) := wp_lockedSync ⟨hrun, rfl⟩ hl
    have hall := Machine.Meets.of_forall (M := machine E) (fun _ _ => trivial) s tr
    exact (hwp.of_ret ((h.guard hall).track received none)).2 keys hk
  · exact ((refreshes_mainStep hE cfg ev (s₁, none) ⟨hrun, rfl⟩).of_ret
      ((h.guard hok).track received none)).2 keys hk

/-- The PIN `1234` opens the slot to the key in memory. -/
def readyWithPin (s : Daemon) : Bool :=
  match s.localKeyCacheData, s.localCacheKeyState with
  | some cache, some key => decide ((openPinSlot .plain cache.localCacheKey "1234").toOption = some key)
  | _, _ => false

def readyWhereReconciled : Op → Daemon → Bool
  | .writeFingerprints _, s => readyWithPin s
  | _, _ => true

theorem refreshGuard_of_readyWhereReconciled {o : Op} {s : Daemon} (h : readyWhereReconciled o s = true) :
    refreshGuard .plain o s := by
  cases o with
  | writeFingerprints m =>
    have hpin : readyWithPin s = true := h
    unfold readyWithPin at hpin
    show RefreshReady .plain s
    unfold RefreshReady
    split at hpin
    · rename_i cache key _ _
      refine .inl fun _ => ⟨"1234", ?_⟩
      have hopen := of_decide_eq_true hpin
      cases hp : openPinSlot .plain cache.localCacheKey "1234" with
      | error e => rw [hp] at hopen; cases hopen
      | ok key' => rw [hp] at hopen; exact congrArg _ (Option.some.inj hopen)
    · exact absurd hpin Bool.false_ne_true
  | _ => trivial

/-- The keys of the scene are received, and every reconciliation in it is ready. -/
def syncsReady (scene : Scene) (keys : List DecryptedSshKey) (x : Config × Daemon) : Bool :=
  decide (lastFetched (scene.trace .plain x.1 x.2) = some keys) && (scene.play .plain x.1 x.2).isSome &&
    decide ((machine .plain).Meets (fun o s => readyWhereReconciled o s = true) x.2
      (scene.trace .plain x.1 x.2))

/-- A manual sync of an unlocked device. -/
theorem cache_fresh_after_sync_unlocked : ∃ cfg s tr s', Reachable .plain plainConfig cfg s ∧
    Steps (machine .plain) (mainStep .plain cfg (.control .sync)) s tr (.ret ()) s' ∧
    CacheFresh .plain s' (plainVault.map DecryptedSshKey.tuple) := by
  obtain ⟨cfg, s, hr, hs⟩ := exists_of_afterLogin (show (afterLogin plainConfig []).any
    (syncsReady (.take (.control .sync) plainScript) plainVault) = true by decide +kernel)
  simp only [syncsReady, Bool.and_eq_true, decide_eq_true_eq] at hs
  obtain ⟨⟨hk, hplay⟩, hready⟩ := hs
  obtain ⟨s', hs'⟩ := Option.isSome_iff_exists.1 hplay
  have hstep := Scene.step hs'
  generalize Scene.trace .plain cfg s (.take (.control .sync) plainScript) = tr at hk hready hstep
  cases hstep with
  | event hrec hsteps =>
    cases hrec with
    | control _ hne =>
      exact ⟨cfg, s, tr, s', hr, hsteps, cache_fresh_after_sync cacheLaws_plain hr (.control .sync hne) hsteps
        (.inr (hready.mono fun _ _ => refreshGuard_of_readyWhereReconciled)) hk⟩

/-- Another key in the vault. -/
def changedVault : List DecryptedSshKey := [⟨"PRIVATE", "ssh-ed25519 BBBB", "home", "other"⟩]

/-- The scene receives keys that are not the ones in the header of the cache file it leaves, without a
flag. -/
def overstatesCache (scene : Scene) (keys : List DecryptedSshKey) (x : Config × Daemon) : Bool :=
  decide (lastFetched (scene.trace .plain x.1 x.2) = some keys) && x.2.disk.localKeyCache.isSome &&
    (scene.play .plain x.1 x.2).any fun s => !s.notificationState.staleCache && !s.pendingSync &&
      s.disk.localKeyCache.all fun c => decide (c.header.keys.map (fun k => (k.name, k.vaultItemId)) ≠
        (keys.map DecryptedSshKey.tuple).map fun k => (k.name, k.cipherId))

/-- A login while the vault is locked brings other keys. -/
theorem login_leaves_old_cache : ¬∀ cfg s s₁ ev tr s' keys, Reachable .plain plainConfig cfg s →
    s.disk.localKeyCache.isSome → Receives s ev s₁ →
    Steps (machine .plain) (mainStep .plain cfg ev) s₁ tr (.ret ()) s' → lastFetched tr = some keys →
    CacheFresh .plain s' (keys.map DecryptedSshKey.tuple) := by
  intro h
  obtain ⟨cfg, s, hr, hs⟩ := exists_of_afterLogin
    (show (afterLogin plainConfig [.take (.control .lock) plainScript]).any
      (overstatesCache (.take (.control (.unlockPassword "password"))
        { plainScript with fetched := .ok changedVault }) changedVault) = true by decide +kernel)
  simp only [overstatesCache, Bool.and_eq_true, decide_eq_true_eq] at hs
  obtain ⟨⟨hk, hdisk⟩, hplay⟩ := hs
  obtain ⟨s', hs', hbad⟩ := (Option.any_eq_true _ _).1 hplay
  simp only [Bool.and_eq_true, Bool.not_eq_true'] at hbad
  obtain ⟨⟨hstale, hpending⟩, hcache⟩ := hbad
  cases Scene.step hs' with
  | event hrec hsteps =>
    rcases h cfg s _ _ _ s' _ hr hdisk hrec hsteps hk with ⟨cache, hc, hholds⟩ | hno | hno
    · simp [hc, hholds.header] at hcache
    · simp [hstale] at hno
    · simp [hpending] at hno

end SshWarden
