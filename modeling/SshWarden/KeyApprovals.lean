import SshWarden.AnswerPaths
import SshWarden.Lockless
import SshWarden.SyncViews

/-!
# Approvals and the keys they were given for

A remembered approval names a vault item. A sync forgets it when the fingerprint of the item's key differs
from the one of the sync before, whether or not the agent ever loaded that version: a sync of a locked vault,
and one that is dropped, move the fingerprints on and leave the agent behind. An approval remembered in
between is kept when the agent catches up (`approval_outlives_key`). `approvals_keep_keys` says that nothing
else lets an approval pass to another key.
-/

namespace SshWarden
open Prog

variable {E : Crates} {cfg : Config} {key : String × String} {a s s' : Daemon} {α : Type}

/-- What the agent holds for a vault item: the private keys of its entries. -/
def Agent.held (a : Agent) (id : String) : List (Option String) :=
  (a.keystore.filter fun p => p.2.cipherUuid = id).map fun p => p.2.privateKey

/-- The agent asks for the item of an entry it has. -/
def Agent.Serves (a : Agent) (id : String) : Prop := ∃ p ∈ a.keystore, p.2.cipherUuid = id

instance (a : Agent) (id : String) : Decidable (a.Serves id) := inferInstanceAs (Decidable (∃ p ∈ a.keystore, _))

/-- The fingerprints do not know the item, or every entry the agent has for it holds the private key they
know. -/
def Described (E : Crates) (s : Daemon) (id : String) : Prop :=
  s.keyMaterialFingerprints.get? id = none ∨
    ∀ k ∈ s.agent.held id, k.map E.sha256Hex = s.keyMaterialFingerprints.get? id

instance (E : Crates) (s : Daemon) (id : String) : Decidable (Described E s id) :=
  inferInstanceAs (Decidable (_ ∨ _))

/-- No item comes with two different keys. -/
def OneKeyPerItem (ks : List KeyTuple) : Prop := ∀ k ∈ ks, ∀ k' ∈ ks, k.cipherId = k'.cipherId → k.key = k'.key

instance (ks : List KeyTuple) : Decidable (OneKeyPerItem ks) := inferInstanceAs (Decidable (∀ k ∈ ks, _))

/-- Operations that drop an approval. -/
def Op.forgets (key : String × String) : Op → Bool
  | clearMemory => true
  | retainMemory changed => decide (key.1 ∈ changed)
  | _ => false

/-- The operation that raises the lock flag. -/
def Op.raises : Op → Bool
  | storeVaultLocked b => b
  | _ => false

/-- An approval is kept, or it has been dropped; `raised` is one over which the lock flag was raised. -/
inductive Fate
  | kept | raised | dropped
deriving DecidableEq, Repr

def Fate.after (key : String × String) : Fate → Event → Fate
  | .dropped, _ => .dropped
  | fate, e => if e.1.forgets key then .dropped else if e.1.raises then .raised else fate

/-- An approval is given where the fingerprints describe what the agent holds. A sync and a login bring one
key for each item. No action is dropped between raising the lock flag and clearing the memory. -/
structure KeepsApart (E : Crates) (s : Daemon) (t : Turn) (tr : List Event) : Prop where
  described : ∀ key, ⟨.insertMemory key, ()⟩ ∈ tr → Described E s key.1
  fetched : ∀ c keys, ⟨.fetchSync c, .ok keys⟩ ∈ tr → OneKeyPerItem (keys.map DecryptedSshKey.tuple)
  dropped : ∀ action, t = .dropped action → ∀ key ∈ s.authorizationMemory,
    tr.foldl (Fate.after key) .kept ≠ .raised

/-- A request for an item is approved by the user in a turn from `a`, and the approval remembered. A request
for the same item and operation is approved from the memory in a turn from `s`, and the approval has not
been dropped in between. -/
inductive Reuse (E : Crates) (cfg : Config) (ok : Daemon → Turn → List Event → Prop) (key : String × String)
    (a s : Daemon) : Prop
  | mk {request request' : SshAgentUIRequest} {a' s' : Daemon} {given between used : List Event}
      (hasked : memoryKey request = some key) (hserves : a.agent.Serves key.1)
      (hgiven : Step (machine E) E cfg a (.request request) given a') (hok : ok a (.request request) given)
      (hremembered : ⟨.insertMemory key, ()⟩ ∈ given) (hrun : Run (machine E) E cfg ok a' between s)
      (hkept : ∀ e ∈ between, e.1.forgets key = false) (hasked' : memoryKey request' = some key)
      (hserves' : s.agent.Serves key.1) (hused : Step (machine E) E cfg s (.request request') used s')
      (hfound : ⟨.tryMemoryContains key, true⟩ ∈ used) : Reuse E cfg ok key a s

theorem Reuse.mono {ok ok' : Daemon → Turn → List Event → Prop} (h : Reuse E cfg ok key a s)
    (hok : ∀ s t tr, ok s t tr → ok' s t tr) : Reuse E cfg ok' key a s := by
  obtain ⟨hasked, hserves, hgiven, hok₀, hremembered, hrun, hkept, hasked', hserves', hused, hfound⟩ := h
  exact .mk hasked hserves hgiven (hok _ _ _ hok₀) hremembered (hrun.mono hok) hkept hasked' hserves' hused hfound

/-- The agent of `s` holds for the item what the agent of `a` held. -/
def SameKeys (a s : Daemon) (id : String) : Prop := ∀ k, k ∈ s.agent.held id ↔ k ∈ a.agent.held id

theorem Fate.after_kept {fate : Fate} {o : Op} (hf : o.forgets key = false) (hr : o.raises = false) (u : o.Ans) :
    fate.after key ⟨o, u⟩ = fate := by
  cases fate <;> simp [Fate.after, hf, hr]

/-- The memory keeps what is not dropped. -/
theorem mem_memory_next {o : Op} (hf : o.forgets key = false) (u : o.Ans) (h : key ∈ s.authorizationMemory) :
    key ∈ (next E o s u).authorizationMemory := by
  cases o with
  | insertMemory key' => exact List.mem_insert_of_mem h
  | retainMemory changed =>
    have hno : key.1 ∉ changed := of_decide_eq_false hf
    exact List.mem_filter.2 ⟨h, by simpa using hno⟩
  | clearMemory => exact absurd hf.symm Bool.false_ne_true
  | _ => first | exact h | (cases u <;> exact h)

theorem mem_memory_of_steps {p p' : DProg α} {tr : List Event} (hs : Steps (machine E) p s tr p' s')
    (hf : ∀ e ∈ tr, e.1.forgets key = false) (h : key ∈ s.authorizationMemory ∨ ⟨.insertMemory key, ()⟩ ∈ tr) :
    key ∈ s'.authorizationMemory := by
  induction hs with
  | refl => exact h.resolve_right List.not_mem_nil
  | @step o k s u tr p s' _ _ ih =>
    refine ih (fun e he => hf e (List.mem_cons_of_mem _ he)) ?_
    rcases h with h | h
    · exact .inl (mem_memory_next (hf ⟨o, u⟩ (List.mem_cons_self ..)) u h)
    · rcases List.mem_cons.1 h with heq | h
      · obtain rfl : Op.insertMemory key = o := congrArg Sigma.fst heq
        exact .inl (List.mem_insert_self ..)
      · exact .inr h

theorem foldl_fate {fate : Fate} (hne : fate ≠ .dropped) {tr : List Event}
    (hf : ∀ e ∈ tr, e.1.forgets key = false) : tr.foldl (Fate.after key) fate ≠ .dropped := by
  induction tr generalizing fate with
  | nil => exact hne
  | cons e tr ih =>
    refine ih ?_ fun e' he => hf e' (List.mem_cons_of_mem _ he)
    have he := hf e (List.mem_cons_self ..)
    cases fate with
    | dropped => exact absurd rfl hne
    | kept | raised => cases hr : e.1.raises <;> simp [Fate.after, he, hr]

/-- The vault is unlocked, the fingerprint of the item is `f`, and the agent holds for the item what it held
at first, or only keys with that fingerprint. -/
structure Bound (E : Crates) (id : String) (f : Option String) (m : List (Option String)) (s : Daemon) : Prop where
  unlocked : s.vaultLocked = false
  fingerprint : s.keyMaterialFingerprints.get? id = f
  held : s.agent.held id = m ∨ ∀ k ∈ s.agent.held id, ∃ pem, k = some pem ∧ f = some (E.sha256Hex pem)

/-- Operations that leave the agent's keys, the fingerprints and the lowered flag. -/
def Op.keepsBound : Op → Bool
  | agentLock | agentSetKeys _ | agentSetPublicIdentities _ | agentClearKeys | writeFingerprints _ => false
  | o => !o.raises

section
variable {id : String} {f : Option String} {m : List (Option String)}

theorem Bound.congr (h : Bound E id f m s) (hl : s'.vaultLocked = false)
    (hk : s'.agent.keystore = s.agent.keystore) (hf : s'.keyMaterialFingerprints = s.keyMaterialFingerprints) :
    Bound E id f m s' := by
  have hheld : s'.agent.held id = s.agent.held id := by rw [Agent.held, hk, Agent.held]
  exact ⟨hl, hf ▸ h.fingerprint, hheld ▸ h.held⟩

theorem Bound.next (h : Bound E id f m s) {o : Op} (ho : o.keepsBound = true) (u : o.Ans) :
    Bound E id f m (next E o s u) := by
  cases o with
  | storeVaultLocked b =>
    obtain rfl : b = false := by simpa [Op.keepsBound, Op.raises] using ho
    exact h.congr rfl rfl rfl
  | _ => first
    | exact absurd ho Bool.false_ne_true
    | exact h.congr h.unlocked rfl rfl
    | (cases u <;> exact h.congr h.unlocked rfl rfl)

theorem mem_keystoreOf {ks : List KeyTuple} {p : Bytes × SshWardenKey} (h : p ∈ Agent.keystoreOf E ks) :
    ∃ k ∈ ks, p.2.privateKey = some k.key ∧ p.2.cipherUuid = k.cipherId := by
  have hl := lastWins_keystoreOf E ks
  have hget := Assoc.get?_of_mem hl.nodup h
  rw [hl.get?] at hget
  have hmem := List.mem_reverse.1 (Assoc.get?_eq_some_mem hget)
  obtain ⟨k, hk, hentry⟩ := List.mem_filterMap.1 hmem
  obtain ⟨pub, -, heq⟩ := Option.map_eq_some_iff.1 hentry
  have hp := congrArg Prod.snd heq
  exact ⟨k, hk, by rw [← hp], by rw [← hp]⟩

/-- Where no item comes with two keys the fingerprint of an item is that of each of its keys. -/
theorem get?_fingerprints {ks : List KeyTuple} (hone : OneKeyPerItem ks) {k : KeyTuple} (hk : k ∈ ks) :
    (keyMaterialFingerprintsFromTuples E ks).get? k.cipherId = some (E.sha256Hex k.key) := by
  have hl := Assoc.LastWins.ofList (ks.map fun k => (k.cipherId, E.sha256Hex k.key))
  have hsome : (keyMaterialFingerprintsFromTuples E ks).get? k.cipherId ≠ none := by
    intro hnone
    have hkey : k.cipherId ∈ ((ks.map fun k => (k.cipherId, E.sha256Hex k.key)).reverse).map Prod.fst := by
      simpa using ⟨k, hk, rfl⟩
    have hsome := Assoc.mem_keys_iff.1 hkey
    rw [← hl.get?] at hsome
    exact absurd hnone (Option.isSome_iff_ne_none.1 hsome)
  obtain ⟨v, hv⟩ := Option.ne_none_iff_exists'.1 hsome
  have hmem := Assoc.get?_eq_some_mem ((hl.get? _).symm.trans hv)
  obtain ⟨k', hk', heq⟩ := List.mem_map.1 (List.mem_reverse.1 hmem)
  obtain ⟨hid, rfl⟩ := Prod.mk.inj heq
  rw [hv, hone k' hk' k hk hid]

/-- An item that is neither changed nor removed nor new keeps its fingerprint. -/
theorem get?_of_not_changed {old new : Assoc String String} (h : id ∉ changedOrRemoved old new) :
    new.get? id = old.get? id := by
  obtain ⟨hold, hnew⟩ := not_or.1 (fun hm => h (List.mem_append.2 hm))
  cases hget : old.get? id with
  | some v =>
    by_contra hne
    refine hold (List.mem_filterMap.2 ⟨(id, v), Assoc.get?_eq_some_mem hget, ?_⟩)
    exact if_neg hne
  | none =>
    by_contra hne
    have hkey : id ∈ new.map Prod.fst := Assoc.mem_keys_iff.2 (Option.isSome_iff_ne_none.2 hne)
    exact hnew (List.mem_filter.2 ⟨hkey, by rw [hget]; rfl⟩)

end

/-! ### Turns -/

/-- A sync and a login bring one key for each item. -/
def FetchesApart : Event → Prop
  | ⟨.fetchSync _, .ok keys⟩ => OneKeyPerItem (keys.map DecryptedSshKey.tuple)
  | _ => True

/-- The daemon with the fate of an approval. -/
abbrev fateMachine (E : Crates) (key : String × String) : Machine daemonSig (Daemon × Fate) :=
  ((machine E).restrict FetchesApart).track (Fate.after key)

/-- The approval has been dropped, or the keys under it are as they were. -/
def StillBound (E : Crates) (key : String × String) (f : Option String) (m : List (Option String))
    (x : Daemon × Fate) : Prop :=
  x.2 = .dropped ∨ x.2 = .kept ∧ Bound E key.1 f m x.1

/-- Wherever an action may be dropped: that, or the flag was just raised. -/
def BoundAtDrop (E : Crates) (key : String × String) (f : Option String) (m : List (Option String)) (o : Op)
    (x : Daemon × Fate) : Prop :=
  o.awaits = true → x.2 = .raised ∨ StillBound E key f m x

section
variable {f : Option String} {m : List (Option String)} {x : Daemon × Fate}

theorem StillBound.atDrop (h : StillBound E key f m x) (o : Op) : BoundAtDrop E key f m o x := fun _ => .inr h

theorem StillBound.next (h : StillBound E key f m x) {o : Op} (ho : o.keepsBound = true) (u : o.Ans) :
    StillBound E key f m ((fateMachine E key).next o x u) := by
  obtain ⟨s, fate⟩ := x
  rcases h with hx | ⟨hx, hb⟩
  · obtain rfl : fate = .dropped := hx
    exact .inl rfl
  · obtain rfl : fate = .kept := hx
    cases hf : o.forgets key with
    | true => exact .inl (by simp [fateMachine, Machine.track, Fate.after, hf])
    | false =>
      have hr : o.raises = false := by cases o <;> first | rfl | simpa [Op.keepsBound] using ho
      have hkept : Fate.after key .kept ⟨o, u⟩ = .kept := Fate.after_kept hf hr u
      exact .inr ⟨hkept, hb.next ho u⟩

/-- Nothing is to be shown of an approval that has been dropped. -/
theorem wp_dropped {p : DProg α} (hx : x.2 = .dropped) {Q : α → Daemon × Fate → Prop}
    (hQ : ∀ a x', x'.2 = .dropped → Q a x') : wp (fateMachine E key) (BoundAtDrop E key f m) p Q x := by
  induction p generalizing x with
  | ret a => exact hQ a x hx
  | vis o k ih =>
    refine ⟨StillBound.atDrop (.inl hx) o, fun u _ => ih u ?_⟩
    obtain ⟨s, fate⟩ := x
    obtain rfl : fate = .dropped := hx
    rfl

/-- Programs that leave the agent's keys, the fingerprints and the lowered flag. -/
abbrev KeepsBound (p : DProg α) : Prop := Prog.Only (S := daemonSig) (fun o : Op => o.keepsBound = true) p

theorem keepsBound_op {o : Op} (h : o.keepsBound = true) : KeepsBound (op o) := ⟨h, fun _ => trivial⟩

theorem Op.keepsBound_of_isQuiet {o : Op} (h : o.isQuiet = true) : o.keepsBound = true := by
  cases o <;> first | rfl | exact absurd h Bool.false_ne_true

theorem Op.keepsBound_of_isEnclosed {o : Op} (h : o.isEnclosed = true) : o.keepsBound = true := by
  cases o <;> first | rfl | exact absurd h Bool.false_ne_true

theorem Op.keepsBound_of_isAnswering {o : Op} (h : o.isAnswering = true) : o.keepsBound = true := by
  cases o <;> first | rfl | exact absurd h Bool.false_ne_true

theorem Quiet.keepsBound {p : DProg α} (h : Quiet p) : KeepsBound p := h.mono fun _ => Op.keepsBound_of_isQuiet

theorem Enclosed.keepsBound {p : DProg α} (h : Enclosed p) : KeepsBound p :=
  h.mono fun _ => Op.keepsBound_of_isEnclosed

theorem keepsBound_handleSetPin (E : Crates) (cfg : Config) (pin : String) : KeepsBound (handleSetPin E cfg pin) :=
  only_handleSetPin (fun _ => Op.keepsBound_of_isEnclosed)
    (fun _ h => Op.keepsBound_of_isQuiet (Op.isQuiet_of_keepsCore h)) E cfg pin

theorem wp_keepsBound {p : DProg α} (hp : KeepsBound p) (h : StillBound E key f m x)
    {Q : α → Daemon × Fate → Prop} (hQ : ∀ a x', StillBound E key f m x' → Q a x') :
    wp (fateMachine E key) (BoundAtDrop E key f m) p Q x :=
  (hp.wp (I := StillBound E key f m) (fun _ _ u ho hx _ => hx.next ho u) h).mono
    (fun o _ hx => hx.atDrop o) hQ

theorem wp_lockVault_bound (h : StillBound E key f m x) :
    wp (fateMachine E key) (BoundAtDrop E key f m) lockVault (fun _ => StillBound E key f m) x := by
  obtain ⟨s, fate⟩ := x
  rcases h with hx | ⟨hx, hb⟩
  · exact wp_dropped hx fun _ _ => .inl
  · obtain rfl : fate = .kept := hx
    refine wp_perform_bind.2 ⟨fun hw => absurd hw Bool.false_ne_true, fun running hr => ?_⟩
    obtain rfl : running = s.agent.isRunning := hr.1
    refine (wp_ite ..).2 ⟨fun _ => ?_, fun hno => .inr ⟨rfl, hb.congr hb.unlocked ?_ rfl⟩⟩
    · refine wp_perform_bind.2 ⟨fun hw => absurd hw Bool.false_ne_true, fun _ _ => ?_⟩
      refine wp_perform_bind.2 ⟨fun _ => .inl rfl, fun _ _ => wp_perform_bind.2 ⟨fun _ => .inl rfl, fun _ _ => ?_⟩⟩
      exact ⟨fun _ => .inl rfl, fun _ _ => .inl rfl⟩
    · show s.agent.lock.keystore = s.agent.keystore
      rw [Agent.lock, if_neg hno]

theorem wp_handleForget_bound (shared : Bool) (h : StillBound E key f m x) :
    wp (fateMachine E key) (BoundAtDrop E key f m) (handleForget cfg shared)
      (fun _ => StillBound E key f m) x := by
  have hfiles : KeepsBound (forgetFiles cfg (shared || !cfg.multiDevice)) := by
    refine .bind (.ite (.bind (keepsBound_op rfl) fun _ => trivial) trivial) fun _ =>
      .bind (.bind (keepsBound_op rfl) fun cache => ?_) fun _ => .bind (keepsBound_op rfl) fun _ =>
      .bind (keepsBound_op rfl) fun _ => .bind (keepsBound_op rfl) fun _ => trivial
    cases cache with
    | none => trivial
    | some cache => exact (slotReads_currentNativeUnlockSlot cfg cache).routine.quiet.keepsBound
  refine wp_bind .. |>.2 (wp_keepsBound hfiles h fun failures x₁ h₁ => ?_)
  refine wp_bind .. |>.2 ⟨h₁.atDrop _, fun u _ => ?_⟩
  have h₂ := h₁.next (o := .writeLocalCacheKey none) rfl u
  refine ⟨h₂.atDrop _, fun _ _ => ?_⟩
  -- the memory is cleared before the flag is raised
  have hdropped : ∀ y : Daemon × Fate, ((fateMachine E key).next .clearMemory y ()).2 = .dropped := by
    rintro ⟨s, fate⟩
    cases fate <;> rfl
  exact wp_dropped (hdropped _) fun _ y hy => wp_dropped hy fun _ _ => .inl

/-- After a reconciliation the fingerprint of the item is that of the new keys. -/
def SyncedBound (E : Crates) (f : Option String) (key : String × String) (ks : List KeyTuple)
    (x : Daemon × Fate) : Prop :=
  x.2 = .dropped ∨ OneKeyPerItem ks ∧ (keyMaterialFingerprintsFromTuples E ks).get? key.1 = f

theorem SyncedBound.next {ks : List KeyTuple} (h : SyncedBound E f key ks x) (o : Op) (u : o.Ans) :
    SyncedBound E f key ks ((fateMachine E key).next o x u) := by
  obtain ⟨s, fate⟩ := x
  rcases h with hx | h
  · obtain rfl : fate = .dropped := hx
    exact .inl rfl
  · exact .inr h

theorem wp_reconcile_bound {ks : List KeyTuple} (hone : OneKeyPerItem ks) (h : StillBound E key f m x) :
    wp (fateMachine E key) (BoundAtDrop E key f m) (reconcileSyncedKeyState E cfg ks)
      (fun _ x' => StillBound E key f m x' ∧ SyncedBound E f key ks x') x := by
  obtain ⟨s, fate⟩ := x
  rcases h with hx | ⟨hx, hb⟩
  · exact wp_dropped hx fun _ _ hx' => ⟨.inl hx', .inl hx'⟩
  · obtain rfl : fate = .kept := hx
    have hs : StillBound E key f m (s, .kept) := .inr ⟨rfl, hb⟩
    refine wp_perform_bind.2 ⟨hs.atDrop _, fun old hold => ?_⟩
    obtain rfl : old = s.keyMaterialFingerprints := hold.1
    -- the approval is dropped, or its item has not changed
    have hclear : wp (fateMachine E key) (BoundAtDrop E key f m)
        (clearAuthorizationMemoryForChangedKeys E s.keyMaterialFingerprints ks)
        (fun new x' => new = keyMaterialFingerprintsFromTuples E ks ∧ StillBound E key f m x' ∧
          (x'.2 = .dropped ∨ new.get? key.1 = f)) (s, .kept) := by
      have hsame : key.1 ∉ changedOrRemoved s.keyMaterialFingerprints (keyMaterialFingerprintsFromTuples E ks) →
          (keyMaterialFingerprintsFromTuples E ks).get? key.1 = f := fun hno =>
        (get?_of_not_changed hno).trans hb.fingerprint
      refine (wp_ite ..).2 ⟨fun hnone => ⟨rfl, hs, .inr (hsame (by rw [hnone]; exact List.not_mem_nil))⟩,
        fun _ => ?_⟩
      refine ⟨hs.atDrop _, fun u _ => ⟨rfl, hs.next rfl u, ?_⟩⟩
      by_cases hmem : key.1 ∈ changedOrRemoved s.keyMaterialFingerprints (keyMaterialFingerprintsFromTuples E ks)
      · exact .inl (by simp [fateMachine, Machine.track, Fate.after, Op.forgets, hmem])
      · exact .inr (hsame hmem)
    refine wp_bind .. |>.2 (hclear.post ?_)
    rintro new x₁ ⟨rfl, h₁, hnew⟩
    rcases hnew with hd | hf
    · exact wp_dropped hd fun _ _ hx' => ⟨.inl hx', .inl hx'⟩
    · refine wp_perform_bind.2 ⟨h₁.atDrop _, fun u₁ _ => ?_⟩
      have h₂ := h₁.next (o := .writePublicKeyIdentityTuples ks) rfl u₁
      refine wp_perform_bind.2 ⟨h₂.atDrop _, fun u₂ _ => ?_⟩
      have h₃ := h₂.next (o := .writeCachedKeyTuples ks) rfl u₂
      refine wp_perform_bind.2 ⟨h₃.atDrop _, fun u₃ _ => ?_⟩
      refine wp_keepsBound (refreshingSteps_refreshCache E cfg ks).enclosed.keepsBound ?_
        fun _ _ hx' => ⟨hx', .inr ⟨hone, hf⟩⟩
      rcases h₁ with hd | ⟨hk, hb₁⟩
      · obtain ⟨s₁, fate⟩ := x₁
        obtain rfl : fate = .dropped := hd
        exact .inl rfl
      · obtain ⟨s₁, fate⟩ := x₁
        obtain rfl : fate = .kept := hk
        exact .inr ⟨rfl, hb₁.unlocked, hf, hb₁.held⟩

/-- The new keys are loaded. -/
theorem StillBound.load {ks : List KeyTuple} (h : StillBound E key f m x) (hs : SyncedBound E f key ks x)
    {u : Bool} (hu : u = x.1.agent.isRunning) :
    StillBound E key f m ((fateMachine E key).next (.agentSetKeys ks) x u) := by
  obtain ⟨s, fate⟩ := x
  rcases h with hx | ⟨hx, hb⟩
  · obtain rfl : fate = .dropped := hx
    exact .inl rfl
  · obtain rfl : fate = .kept := hx
    obtain ⟨hone, hf⟩ := hs.resolve_left fun hd => by cases hd
    refine .inr ⟨rfl, hb.unlocked, hb.fingerprint, ?_⟩
    cases hr : s.agent.isRunning with
    | false =>
      have hsame : (s.agent.setKeys E ks).held key.1 = s.agent.held key.1 := by simp [Agent.setKeys, hr]
      show (s.agent.setKeys E ks).held key.1 = m ∨ ∀ k ∈ (s.agent.setKeys E ks).held key.1, _
      rw [hsame]
      exact hb.held
    | true =>
      have hkeys : (s.agent.setKeys E ks).keystore = Agent.keystoreOf E ks := by simp [Agent.setKeys, hr]
      refine .inr fun k hk => ?_
      have hk' : k ∈ (s.agent.setKeys E ks).held key.1 := hk
      rw [Agent.held, hkeys] at hk'
      obtain ⟨p, hp, rfl⟩ := List.mem_map.1 hk'
      obtain ⟨hp, hid⟩ := List.mem_filter.1 hp
      obtain ⟨t, ht, hpem, huuid⟩ := mem_keystoreOf hp
      refine ⟨t.key, hpem, ?_⟩
      have hitem : t.cipherId = key.1 := huuid.symm.trans (of_decide_eq_true hid)
      rw [← hf, ← hitem, get?_fingerprints hone ht]

/-! ### The phases -/

variable (E f m key) in
def boundFacts : Facts (Daemon × Fate) where
  I := StillBound E key f m
  Locked x := x.2 = .dropped
  Unlocked _ := True
  Holds _ _ := True
  Opened _ _ _ := True
  Client _ _ := True
  Fetched keys _ := OneKeyPerItem (keys.map DecryptedSshKey.tuple)
  Synced := SyncedBound E f key
  MaySync _ := True
  MaySetPin _ _ := True
  pinOk _ := True
  mayForget := True

theorem boundFacts_keeps (o : Op) (u : o.Ans) :
    (boundFacts E key f m).Keeps x ((fateMachine E key).next o x u) where
  locked hx := by
    obtain ⟨s, fate⟩ := x
    obtain rfl : fate = .dropped := hx
    rfl
  unlocked := id
  holds _ := id
  opened _ _ := id
  client _ := id
  fetched _ := id
  synced _ h := h.next o u
  maySync := id

theorem wp_boundFacts {p : DProg α} (hp : KeepsBound p) (h : StillBound E key f m x) :
    wp (fateMachine E key) (BoundAtDrop E key f m) p
      (fun _ x' => StillBound E key f m x' ∧ (boundFacts E key f m).Keeps x x') x :=
  (hp.wp (I := fun x' => StillBound E key f m x' ∧ (boundFacts E key f m).Keeps x x')
    (fun o _ u ho hx _ => ⟨hx.1.next ho u, hx.2.trans (boundFacts_keeps o u)⟩) ⟨h, .refl _ _⟩).mono
    (fun o _ hx => hx.1.atDrop o) fun _ _ hx => hx

theorem boundPhases (E : Crates) (cfg : Config) (key : String × String) (f : Option String)
    (m : List (Option String)) :
    Phases E cfg (fateMachine E key) (BoundAtDrop E key f m) (boundFacts E key f m) where
  quiet ho hI := ⟨hI.atDrop _, fun a _ => ⟨hI.next (Op.keepsBound_of_isQuiet ho) a, boundFacts_keeps _ a⟩⟩
  locked {x} hI hr := by
    rcases hI with hx | ⟨-, hb⟩
    · exact (boundFacts_keeps (E := E) (f := f) (m := m) _ _).locked hx
    · have hl : true = x.1.vaultLocked := hr.1
      exact absurd (hl.trans hb.unlocked) (by decide)
  unlocked _ _ := trivial
  readCache _ _ := trivial
  peekCache _ _ := trivial
  peekClient _ _ := trivial
  maySync _ _ := trivial
  reload hI := wp_keepsBound (enclosed_reload cfg).keepsBound hI fun _ _ h => ⟨h, id⟩
  lock hI := wp_lockVault_bound hI
  native hI _ _ := (wp_boundFacts (slotReads_decryptWithNative E cfg _).routine.quiet.keepsBound hI).post
    fun _ _ h => ⟨h.1, h.2, fun _ _ _ => trivial⟩
  pin _ _ _ _ _ := trivial
  dialog _ hI _ _ := (wp_boundFacts (pinSteps_requestPinDialog _ _).routine.quiet.keepsBound hI).post
    fun _ _ h => ⟨h.1, h.2, fun _ _ _ _ => trivial⟩
  migrate _ _ hl _ _ _ := wp_dropped hl fun _ _ hx => ⟨.inl hx, hx, trivial⟩
  enroll hI _ _ := wp_boundFacts
    (slotSteps_enrollDevicePlatformSlotsIfMissing E cfg _).slotRoutine.enclosed.keepsBound hI
  unlock _ _ hl _ := wp_dropped hl fun _ _ hx => ⟨.inl hx, fun _ => hx, fun _ => trivial⟩
  fetch {_ c} hI _ _ := by
    refine (wp_ite ..).2 ⟨fun _ => ⟨hI, fun _ hno => by cases hno⟩, fun _ => ?_⟩
    refine (wp_ite ..).2 ⟨fun _ => ⟨hI, fun _ hno => by cases hno⟩, fun _ => ?_⟩
    refine ⟨hI.atDrop _, fun r hr => ⟨hI.next (o := .fetchSync c) rfl r, ?_⟩⟩
    rintro keys rfl
    exact hr.2
  reconcile hI hone := wp_reconcile_bound hone hI
  load hI hs _ := ⟨hI.atDrop _, fun _ hu => hI.load hs hu.1⟩
  setClient {_ c} hI _ := ⟨hI.atDrop _, fun u _ => ⟨hI.next (o := .writeApiClient (some c)) rfl u, id⟩⟩
  pokeClient {_ c} grant hI _ := ⟨hI.atDrop _, fun u _ => hI.next (o := .pokeApiClient (c.refreshed grant)) rfl u⟩
  checkKey hI _ := wp_keepsBound
    (enclosed_ensureLocalCacheKeyForManualSync E cfg).keepsBound hI fun _ _ h => ⟨h, trivial⟩
  forget shared _ hI := wp_handleForget_bound shared hI
  setPin pin _ hI := wp_keepsBound (keepsBound_handleSetPin E cfg pin) hI fun _ _ h => h

theorem boundLoginPhases (E : Crates) (cfg : Config) (key : String × String) (f : Option String)
    (m : List (Option String)) :
    Phases.LoginPhases E cfg (fateMachine E key) (BoundAtDrop E key f m) (boundFacts E key f m)
      (fun keys _ => OneKeyPerItem (keys.map DecryptedSshKey.tuple))
      (fun ks x => StillBound E key f m x ∧ SyncedBound E f key ks x) where
  fetch client hI := (boundPhases E cfg key f m).fetch hI trivial trivial
  files _ _ _ h := h
  reconcile hI hone := wp_reconcile_bound hone hI
  names {_ _ names} hJ := ⟨hJ.1.atDrop _, fun u _ =>
    ⟨hJ.1.next (o := .writeKeyNames names) rfl u, hJ.2.next (.writeKeyNames names) u⟩⟩
  load hJ := by
    refine ⟨hJ.1.atDrop _, fun u hu => ?_⟩
    have hI := hJ.1.load hJ.2 hu.1
    exact ⟨fun _ => hI, fun _ => ⟨hI.atDrop _, fun v _ => ⟨hI.next (o := .storeVaultLocked false) rfl v, trivial⟩⟩⟩
  setClient {_ c} hI _ := ⟨hI.atDrop _, fun u _ => ⟨hI.next (o := .writeApiClient (some c)) rfl u, trivial⟩⟩

theorem boundRequestPhases (E : Crates) (cfg : Config) (key : String × String) (f : Option String)
    (m : List (Option String)) :
    RequestPhases E cfg (fateMachine E key) (BoundAtDrop E key f m) (boundFacts E key f m) where
  requestUnlock _ _ _ _ _ hl _ := wp_dropped hl fun _ _ hx => ⟨.inl hx, fun _ => hx⟩
  unlockedRequest request hI _ := wp_keepsBound
    ((answering_handleUnlockedRequest cfg request).mono fun _ => Op.keepsBound_of_isAnswering) hI fun _ _ h => h

theorem wp_mainStep_bound (ev : MainEvent) (h : StillBound E key f m x) :
    wp (fateMachine E key) (BoundAtDrop E key f m) (mainStep E cfg ev) (fun _ => StillBound E key f m) x := by
  have hphases := boundPhases E cfg key f m
  refine hphases.wp_mainStep (fun password hI => ?_) ?_ h
  · exact hphases.wp_handleUnlockPassword (boundLoginPhases E cfg key f m) hI password
  · cases ev with
    | control action => cases action <;> trivial
    | _ => trivial

/-- A turn that does not drop an approval keeps it in the memory. -/
theorem Step.mem_memory {t : Turn} {tr : List Event} (h : Step (machine E) E cfg s t tr s')
    (hf : ∀ e ∈ tr, e.1.forgets key = false) (hk : key ∈ s.authorizationMemory ∨ ⟨.insertMemory key, ()⟩ ∈ tr) :
    key ∈ s'.authorizationMemory := by
  cases h with
  | event hr hsteps => exact mem_memory_of_steps hsteps hf (hk.imp_left fun hk => by cases hr <;> exact hk)
  | dropped _ hsteps _ => exact mem_memory_of_steps hsteps hf hk
  | arrives ha => cases ha; exact hk.resolve_right List.not_mem_nil
  | request hsteps => exact mem_memory_of_steps hsteps hf hk

/-- It keeps the keys under it. -/
theorem Step.bound {t : Turn} {tr : List Event} (h : Step (machine E) E cfg s t tr s') (hok : KeepsApart E s t tr)
    (hf : ∀ e ∈ tr, e.1.forgets key = false) (hk : ∀ action, t = .dropped action → key ∈ s.authorizationMemory)
    (hb : Bound E key.1 f m s) : Bound E key.1 f m s' := by
  have hA : ∀ e ∈ tr, FetchesApart e := by
    rintro ⟨o, u⟩ he
    cases o with
    | fetchSync c => cases u with
      | error e => trivial
      | ok keys => exact hok.fetched c keys he
    | _ => trivial
  have hfate : tr.foldl (Fate.after key) .kept ≠ .dropped := foldl_fate (fun hd => by cases hd) hf
  have hbound : StillBound E key f m (s', tr.foldl (Fate.after key) .kept) → Bound E key.1 f m s' :=
    fun h => (h.resolve_left hfate).2
  cases h with
  | event hr hsteps =>
    rename_i s₁ ev
    have hb₁ : Bound E key.1 f m s₁ := by cases hr <;> exact hb.congr hb.unlocked rfl rfl
    have hwp : wp (fateMachine E key) (BoundAtDrop E key f m) (mainStep E cfg ev) (fun _ => StillBound E key f m)
        (s₁, .kept) := wp_mainStep_bound ev (.inr ⟨rfl, hb₁⟩)
    exact hbound (hwp.of_ret ((hsteps.restrict hA).track (Fate.after key) .kept))
  | dropped hne hsteps hd =>
    rename_i action p
    obtain ⟨o, k, rfl, hw⟩ := hd
    have hwp : wp (fateMachine E key) (BoundAtDrop E key f m) (mainStep E cfg (.control action))
        (fun _ => StillBound E key f m) (s, .kept) := wp_mainStep_bound (.control action) (.inr ⟨rfl, hb⟩)
    have hstop := hwp.at_op ((hsteps.restrict hA).track (Fate.after key) .kept) hw
    exact hbound (hstop.resolve_left (hok.dropped action rfl key (hk action rfl)))
  | arrives ha =>
    cases ha
    exact hb.congr hb.unlocked rfl rfl
  | request hsteps =>
    rename_i request
    exact hbound (((boundPhases E cfg key f m).wp_handleUiRequest (boundRequestPhases E cfg key f m)
      (x := (s, .kept)) (.inr ⟨rfl, hb⟩) request).of_ret ((hsteps.restrict hA).track (Fate.after key) .kept))

theorem Run.bound {tr : List Event} (h : Run (machine E) E cfg (KeepsApart E) s tr s')
    (hf : ∀ e ∈ tr, e.1.forgets key = false) (hk : key ∈ s.authorizationMemory) (hb : Bound E key.1 f m s) :
    key ∈ s'.authorizationMemory ∧ Bound E key.1 f m s' := by
  induction h with
  | nil => exact ⟨hk, hb⟩
  | turn _ hstep hok ih =>
    obtain ⟨hk₁, hb₁⟩ := ih fun e he => hf e (List.mem_append_left _ he)
    have hf' := fun e he => hf e (List.mem_append_right _ he)
    exact ⟨hstep.mem_memory hf' (.inl hk₁), hstep.bound hok hf' (fun _ _ => hk₁) hb₁⟩

end

/-- Operations that neither remember nor drop an approval. -/
def Op.leavesMemory : Op → Bool
  | insertMemory _ | retainMemory _ | clearMemory => false
  | _ => true

abbrev LeavesMemory (p : DProg α) : Prop := Prog.Only (S := daemonSig) (fun o : Op => o.leavesMemory = true) p

theorem leavesMemory_op {o : Op} (h : o.leavesMemory = true) : LeavesMemory (op o) := ⟨h, fun _ => trivial⟩

theorem Wordless.leavesMemory {p : DProg α} (h : Wordless p) : LeavesMemory p :=
  h.mono fun o ho => by cases o <;> first | rfl | exact absurd ho Bool.false_ne_true

theorem Routine.leavesMemory {p : DProg α} (h : Routine p) : LeavesMemory p :=
  h.mono fun o ho => by cases o <;> first | rfl | exact absurd ho Bool.false_ne_true

/-- An unlock on request remembers nothing. -/
theorem leavesMemory_handleLockedRequest (E : Crates) (cfg : Config) (request : SshAgentUIRequest) :
    LeavesMemory (handleLockedRequest E cfg request) := by
  have hprompt : ∀ name, LeavesMemory (do
      let approved ← runAuthorizationPrompt cfg request name
      op (.broadcast request.requestId approved)) := fun name =>
    .bind (routine_runAuthorizationPrompt cfg request name).leavesMemory fun _ => leavesMemory_op rfl
  refine .bind (autoUnlocking_autoUnlockNative E cfg request).wordless.leavesMemory fun r => ?_
  cases r with
  | some name => exact hprompt name
  | none =>
    refine .bind (autoUnlocking_autoUnlockPin E cfg request).wordless.leavesMemory fun r => ?_
    cases r with
    | some name => exact hprompt name
    | none => exact leavesMemory_op rfl

/-- A request drops no approval. -/
theorem forgetsNothing_handleUiRequest (E : Crates) (cfg : Config) (request : SshAgentUIRequest)
    (key : String × String) :
    Prog.Only (S := daemonSig) (fun o : Op => o.forgets key = false) (handleUiRequest E cfg request) :=
  (requesting_handleUiRequest E cfg request).mono fun o ho => by
    cases o <;> first | rfl | exact absurd ho Bool.false_ne_true

/-- Only a request on an unlocked vault is remembered. -/
theorem unlocked_of_remembered {request : SshAgentUIRequest} {tr : List Event}
    (h : Steps (machine E) (handleUiRequest E cfg request) s tr (.ret ()) s')
    (hmem : ⟨.insertMemory key, ()⟩ ∈ tr) : s.vaultLocked = false := by
  by_contra hl
  have hlocked : s.vaultLocked = true := by simpa using hl
  have hwp : wp (machine E) (fun o _ => o.leavesMemory = true) (handleUiRequest E cfg request)
      (fun _ _ => True) s := by
    have honly : ∀ {p : DProg Unit} {x}, LeavesMemory p →
        wp (machine E) (fun o _ => o.leavesMemory = true) p (fun _ _ => True) x := fun hp =>
      hp.wp_rel (R := fun _ _ => True) (fun _ => trivial) (fun _ _ _ _ _ => trivial) (fun _ _ _ _ _ => trivial)
        (fun _ _ ho _ => ho) fun _ _ _ => trivial
    refine (wp_ite ..).2 ⟨fun _ => honly ?_, fun _ => wp_perform_bind.2 ⟨rfl, fun b hb => ?_⟩⟩
    · exact .bind (leavesMemory_op rfl) fun _ => .bind (leavesMemory_op rfl) fun _ => leavesMemory_op rfl
    · refine (wp_ite ..).2 ⟨fun _ => honly (leavesMemory_handleLockedRequest E cfg request), fun _ => ?_⟩
      refine wp_perform_bind.2 ⟨rfl, fun b' hb' => ?_⟩
      obtain rfl : b' = true := Eq.trans hb' hlocked
      exact (wp_ite ..).2 ⟨fun _ => honly (leavesMemory_op rfl), fun hno => absurd rfl hno⟩
  obtain ⟨-, hno⟩ := hwp.mem_steps h _ hmem
  exact absurd hno Bool.false_ne_true

/-- In a turn that remembers an approval the keys stay as they are. -/
theorem bound_of_remembered {request : SshAgentUIRequest} {tr : List Event}
    (h : Step (machine E) E cfg s (.request request) tr s') (hok : KeepsApart E s (.request request) tr)
    (hmem : ⟨.insertMemory key, ()⟩ ∈ tr) :
    key ∈ s'.authorizationMemory ∧
      Bound E key.1 (s.keyMaterialFingerprints.get? key.1) (s.agent.held key.1) s' := by
  have hparts : (∀ e ∈ tr, e.1.forgets key = false) ∧ s.vaultLocked = false := by
    cases h with
    | request hsteps =>
      refine ⟨fun e he => ?_, unlocked_of_remembered hsteps hmem⟩
      exact (forgetsNothing_handleUiRequest E cfg request key).mem_runs (reaches_ret.1 hsteps.reaches) e he
  refine ⟨h.mem_memory hparts.1 (.inr hmem), h.bound hok hparts.1 (fun _ hno => by cases hno) ?_⟩
  exact ⟨hparts.2, rfl, .inl rfl⟩

/-! ### The result -/

theorem mem_held_of_serves {a : Agent} {id : String} (h : a.Serves id) : ∃ k, k ∈ a.held id := by
  obtain ⟨p, hp, rfl⟩ := h
  exact ⟨p.2.privateKey, List.mem_map.2 ⟨p, List.mem_filter.2 ⟨hp, by simp⟩, rfl⟩⟩

/-- Where the fingerprints describe what the agent holds whenever an approval is remembered, an approval is
used for the keys it was given for. -/
theorem approvals_keep_keys (hsha : ∀ k k', E.sha256Hex k = E.sha256Hex k' → k = k')
    (h : Reuse E cfg (KeepsApart E) key a s) :
    SameKeys a s key.1 := by
  obtain ⟨hasked, hserves, hgiven, hok, hremembered, hrun, hkept, hasked', hserves', hused, hfound⟩ := h
  obtain ⟨hk, hb⟩ := bound_of_remembered hgiven hok hremembered
  obtain ⟨-, hb'⟩ := hrun.bound hkept hk hb
  rcases hb'.held with hsame | hnew
  · exact fun k => by rw [hsame]
  · obtain ⟨k₀, hk₀⟩ := mem_held_of_serves hserves'
    obtain ⟨k₁, hk₁⟩ := mem_held_of_serves hserves
    obtain ⟨pem, rfl, hf⟩ := hnew k₀ hk₀
    have hold := (hok.described key hremembered).resolve_left fun hnone => by cases hf.symm.trans hnone
    -- all keys held before and after have the one fingerprint
    have hafter : ∀ k ∈ s.agent.held key.1, k = some pem := by
      intro k hk
      obtain ⟨pem', rfl, hf'⟩ := hnew k hk
      rw [hsha _ _ (Option.some.inj (hf'.symm.trans hf))]
    have hbefore : ∀ k ∈ a.agent.held key.1, k = some pem := by
      intro k hk
      obtain ⟨pem', rfl, hf'⟩ := Option.map_eq_some_iff.1 ((hold k hk).trans hf)
      rw [hsha _ _ hf']
    refine fun k => ⟨fun hk => ?_, fun hk => ?_⟩
    · rw [hafter k hk, ← hbefore k₁ hk₁]
      exact hk₁
    · rw [hbefore k hk]
      exact hk₀

/-- A check of the condition on a turn that is not dropped. -/
def keepsApart (s : Daemon) (t : Turn) (tr : List Event) : Bool :=
  (match t with
  | .dropped _ => false
  | _ => true) &&
    tr.all fun e =>
      match e with
      | ⟨.insertMemory key, _⟩ => decide (Described .plain s key.1)
      | ⟨.fetchSync _, .ok keys⟩ => decide (OneKeyPerItem (keys.map DecryptedSshKey.tuple))
      | _ => true

theorem keepsApart_of_check {t : Turn} {tr : List Event} (h : keepsApart s t tr = true) :
    KeepsApart .plain s t tr := by
  obtain ⟨hturn, hevents⟩ := Bool.and_eq_true_iff.1 h
  have hall := List.all_eq_true.1 hevents
  refine ⟨fun key he => of_decide_eq_true (hall _ he), fun c keys he => of_decide_eq_true (hall _ he), ?_⟩
  rintro action rfl
  cases hturn

def remembersWork : Event → Bool
  | ⟨.insertMemory key, ()⟩ => key = ("item", "ssh_authentication")
  | _ => false

def findsWork : Event → Bool
  | ⟨.tryMemoryContains key, true⟩ => key = ("item", "ssh_authentication")
  | _ => false

theorem mem_of_remembersWork {tr : List Event} (h : tr.any remembersWork = true) :
    ⟨.insertMemory ("item", "ssh_authentication"), ()⟩ ∈ tr := by
  obtain ⟨e, he, hwork⟩ := List.any_eq_true.1 h
  unfold remembersWork at hwork
  split at hwork
  · rename_i key
    obtain rfl : key = ("item", "ssh_authentication") := of_decide_eq_true hwork
    exact he
  · cases hwork

theorem mem_of_findsWork {tr : List Event} (h : tr.any findsWork = true) :
    ⟨.tryMemoryContains ("item", "ssh_authentication"), true⟩ ∈ tr := by
  obtain ⟨e, he, hwork⟩ := List.any_eq_true.1 h
  unfold findsWork at hwork
  split at hwork
  · rename_i key
    obtain rfl : key = ("item", "ssh_authentication") := of_decide_eq_true hwork
    exact he
  · cases hwork

/-- The request is approved in `a`, the scenes are played, and it is approved from the memory. -/
def reusesWork (cfg : Config) (ok : Daemon → Turn → List Event → Bool) (scenes : List Scene)
    (a s : Daemon) : Bool :=
  decide (a.agent.Serves "item") && decide (s.agent.Serves "item") &&
    ok a (.request workRequest) ((Scene.ask workRequest plainScript).trace .plain cfg a) &&
    ((Scene.ask workRequest plainScript).trace .plain cfg a).any remembersWork &&
    ((Scene.ask workRequest plainScript).play .plain cfg a).any (fun a' =>
      decide (playAll .plain cfg scenes a' = some s) && checkAll .plain cfg ok scenes a' &&
        (traceAll .plain cfg scenes a').all fun e => !e.1.forgets ("item", "ssh_authentication")) &&
    ((Scene.ask workRequest plainScript).play .plain cfg s).isSome &&
    ((Scene.ask workRequest plainScript).trace .plain cfg s).any findsWork

theorem reuse_of_reusesWork {ok : Daemon → Turn → List Event → Bool} {scenes : List Scene}
    (h : reusesWork cfg ok scenes a s = true) :
    Reuse .plain cfg (fun s t tr => ok s t tr = true) ("item", "ssh_authentication") a s := by
  unfold reusesWork at h
  simp only [Bool.and_eq_true, decide_eq_true_eq] at h
  obtain ⟨⟨⟨⟨⟨⟨hserves, hserves'⟩, hok⟩, hremembered⟩, hplays⟩, hused⟩, hfound⟩ := h
  obtain ⟨a', hgiven, hbetween⟩ := (Option.any_eq_true _ _).1 hplays
  simp only [Bool.and_eq_true, decide_eq_true_eq] at hbetween
  obtain ⟨⟨hplay, hchecks⟩, hkept⟩ := hbetween
  obtain ⟨s', hs'⟩ := Option.isSome_iff_exists.1 hused
  exact .mk rfl hserves (Scene.step hgiven) hok (mem_of_remembersWork hremembered) (run_playAll hplay hchecks)
    (fun e he => by simpa using List.all_eq_true.1 hkept e he) rfl hserves' (Scene.step hs')
      (mem_of_findsWork hfound)

/-- The state of the second request. -/
def beforeReuse (cfg : Config) (scenes : List Scene) (a : Daemon) : Option Daemon :=
  ((Scene.ask workRequest plainScript).play .plain cfg a).bind (playAll .plain cfg scenes)

/-- A login, an approval, and a sync. -/
theorem approvals_keep_keys_synced : ∃ cfg a s, Reachable .plain plainConfig cfg a ∧
    Reuse .plain cfg (KeepsApart .plain) ("item", "ssh_authentication") a s ∧ SameKeys a s "item" := by
  obtain ⟨cfg, a, ha, hcheck⟩ := exists_of_afterLogin
    (show (afterLogin plainConfig []).any (fun x =>
      (beforeReuse x.1 [.take (.control .sync) plainScript] x.2).any fun s =>
        reusesWork x.1 keepsApart [.take (.control .sync) plainScript] x.2 s) = true by decide +kernel)
  obtain ⟨s, -, hreuses⟩ := (Option.any_eq_true _ _).1 hcheck
  have hreuse := (reuse_of_reusesWork hreuses).mono fun _ _ _ => keepsApart_of_check
  exact ⟨cfg, a, s, ha, hreuse, approvals_keep_keys (fun _ _ h => h) hreuse⟩

def rotatedVault : List DecryptedSshKey := [⟨"ROTATED", "ssh-ed25519 BBBB", "work", "item"⟩]

def rotatedScript : Script := { plainScript with fetched := .ok rotatedVault }

def offlineScript : Script := { plainScript with fetched := .error "unreachable" }

/-- The key is rotated and the locked vault synced; the unlock loads the old key from the cache, and the
pending sync fails. -/
def behindScenes : List Scene :=
  [.take (.control .lock) plainScript, .take (.control .sync) rotatedScript,
    .take (.control (.unlockPin "1234")) offlineScript]

/-- The approval was given for the old key, and the next sync loads the new one under it. -/
theorem approval_outlives_key : ¬∀ cfg key a s, Reachable .plain plainConfig cfg a →
    Reuse .plain cfg (fun _ _ _ => True) key a s → SameKeys a s key.1 := by
  intro h
  obtain ⟨cfg, a, ha, hcheck⟩ := exists_of_afterLogin
    (show (afterLogin plainConfig behindScenes).any (fun x =>
      (beforeReuse x.1 [.take (.control .sync) rotatedScript] x.2).any fun s =>
        reusesWork x.1 (fun _ _ _ => true) [.take (.control .sync) rotatedScript] x.2 s &&
          decide (some "PRIVATE" ∈ x.2.agent.held "item") &&
            decide (some "PRIVATE" ∉ s.agent.held "item")) = true by
      decide +kernel)
  obtain ⟨s, -, hend⟩ := (Option.any_eq_true _ _).1 hcheck
  simp only [Bool.and_eq_true, decide_eq_true_eq] at hend
  obtain ⟨⟨hreuses, hold⟩, hnew⟩ := hend
  have hsame := h cfg _ a s ha ((reuse_of_reusesWork hreuses).mono fun _ _ _ _ => trivial)
  exact hnew ((hsame _).2 hold)

end SshWarden
