import SshWarden.Atomic
import SshWarden.Scenario
import SshWarden.Steady

/-!
# Locking beside auto-unlocking

`lockVault` and the request handlers change the keystore, the cached tuples, the Local Cache Key and the
lock flag in different orders and share no lock for all of them. A lock operation always performs
`lockUpdates`, a handler performs `unlockUpdates` of what it opened or changes nothing, and the last update
of a piece decides it. Where no update of a handler falls between two updates of a lock operation and none
of a lock operation between two of a handler (`WindowsApart`), these last updates belong together.
-/

namespace SshWarden
open Prog

variable {E : Crates} {cfg : Config} {α β ι : Type} {l : List AtomicOp} {c : Option LocalKeyCacheFile}

/-- The state that locking and unlocking change. -/
inductive Piece
  | keystore | cachedKeyTuples | localCacheKey | vaultLocked
deriving DecidableEq, Repr

def Op.piece? : Op → Option Piece
  | agentSetKeys _ | agentSetPublicIdentities _ | agentLock | agentClearKeys => some .keystore
  | writeCachedKeyTuples _ => some .cachedKeyTuples
  | writeLocalCacheKey _ => some .localCacheKey
  | storeVaultLocked _ => some .vaultLocked
  | _ => none

namespace AtomicOp

/-- The piece a step changes. -/
def piece? : AtomicOp → Option Piece
  | op o => o.piece?
  | clearKeystore | insertKey _ | insertIdentity _ | stripPrivateKeys => some .keystore
  | loadIsRunning | storeNeedsUnlock _ => none

/-- An insertion adds to the keystore; every other update leaves nothing of the piece as it was. -/
def startsOver : AtomicOp → Bool
  | insertKey _ | insertIdentity _ => false
  | o => o.piece?.isSome

end AtomicOp

/-- The updates among some steps. -/
def updates (tr : List AtomicEvent) : List AtomicOp := (tr.map Sigma.fst).filter fun o => o.piece?.isSome

/-- The updates an operation makes on a running agent. -/
def Op.updates : Op → List AtomicOp
  | agentSetKeys ks => .clearKeystore :: ks.map .insertKey
  | agentSetPublicIdentities ids => .clearKeystore :: ids.map .insertIdentity
  | agentLock => [.stripPrivateKeys]
  | agentClearKeys => [.clearKeystore]
  | o => if o.piece?.isSome then [.op o] else []

/-- What locking does. -/
def lockUpdates : List AtomicOp :=
  [.stripPrivateKeys, .op (.storeVaultLocked true), .op (.writeCachedKeyTuples []), .op (.writeLocalCacheKey none)]

/-- What an auto-unlock with these keys does. -/
def unlockUpdates (ks : List KeyTuple) (key : SymmetricKey) : List AtomicOp :=
  .op (.writeCachedKeyTuples ks) :: .clearKeystore ::
    (ks.map .insertKey ++ [.op (.writeLocalCacheKey (some key)), .op (.storeVaultLocked false)])

/-- The steps found the agent running and this cache. -/
def FoundWith (c : Option LocalKeyCacheFile) : AtomicEvent → Prop
  | ⟨.loadIsRunning, b⟩ => b = true
  | ⟨.op .readLocalKeyCache, a⟩ => a = c
  | _ => True

/-- The calls of the agent succeeded, and the cache was this one. -/
def AnsweredWith (c : Option LocalKeyCacheFile) : Event → Prop
  | ⟨.agentSetKeys _, b⟩ | ⟨.agentSetPublicIdentities _, b⟩ | ⟨.agentLock, b⟩ => b = true
  | ⟨.readLocalKeyCache, a⟩ => a = c
  | _ => True

/-- The machine that records the updates of the steps. -/
def atomicUpdates (c : Option LocalKeyCacheFile) : Machine atomicSig (List AtomicOp) :=
  .record (FoundWith c) fun l e => if e.1.piece?.isSome then l ++ [e.1] else l

/-- The machine that records the updates of the operations. -/
def opUpdates (c : Option LocalKeyCacheFile) : Machine daemonSig (List AtomicOp) :=
  .record (AnsweredWith c) fun l e => l ++ e.1.updates

theorem updates_append (tr tr' : List AtomicEvent) : updates (tr ++ tr') = updates tr ++ updates tr' := by
  simp [updates]

theorem foldl_updates (tr : List AtomicEvent) (l : List AtomicOp) :
    tr.foldl (fun l e => if e.1.piece?.isSome then l ++ [e.1] else l) l = l ++ updates tr := by
  induction tr generalizing l with
  | nil => simp [updates]
  | cons e tr ih =>
    rw [List.foldl_cons, ih]
    by_cases he : e.1.piece?.isSome <;> simp [updates, he]

theorem wp_insertEach_updates {insert : KeyTuple → AtomicOp}
    (hins : ∀ k, (insert k).piece? = some .keystore) (ks : List KeyTuple) (l : List AtomicOp) :
    wp (atomicUpdates c) (fun _ _ => True) (insertEach insert ks) (fun _ l' => l' = l ++ ks.map insert) l := by
  induction ks generalizing l with
  | nil => simp [insertEach]
  | cons k ks ih =>
    refine wp_perform_bind.2 ⟨trivial, fun a _ => ?_⟩
    have hl : (atomicUpdates c).next (insert k) l a = l ++ [insert k] := by
      simp [atomicUpdates, Machine.record, hins]
    rw [hl]
    refine (ih _).post fun _ l' hl' => ?_
    rw [hl', List.map_cons, List.append_assoc, List.singleton_append]

theorem wp_refillSteps_updates {needsUnlock : Bool} {insert : KeyTuple → AtomicOp}
    (hins : ∀ k, (insert k).piece? = some .keystore) (ks : List KeyTuple) (l : List AtomicOp) :
    wp (atomicUpdates c) (fun _ _ => True) (refillSteps needsUnlock insert ks)
      (fun a l' => a = true ∧ l' = l ++ .clearKeystore :: ks.map insert) l := by
  refine wp_perform_bind.2 ⟨trivial, fun b hb => ?_⟩
  obtain rfl : b = true := hb
  refine wp_perform_bind.2 ⟨trivial, fun _ _ => wp_perform_bind.2 ⟨trivial, fun _ _ => ?_⟩⟩
  refine (wp_bind ..).2 ((wp_insertEach_updates hins ks _).post ?_)
  rintro _ l' rfl
  exact ⟨rfl, by simp [atomicUpdates, Machine.record, AtomicOp.piece?]⟩

/-- The atomic steps of an operation make its updates. -/
theorem wp_atomically_updates (o : Op) (l : List AtomicOp) :
    wp (atomicUpdates c) (fun _ _ => True) (atomically o)
      (fun a l' => (opUpdates c).ready o l a ∧ l' = (opUpdates c).next o l a) l := by
  cases o with
  | agentSetKeys ks => exact wp_refillSteps_updates (fun _ => rfl) ks l
  | agentSetPublicIdentities ids => exact wp_refillSteps_updates (fun _ => rfl) ids l
  | agentLock =>
    refine wp_perform_bind.2 ⟨trivial, fun b hb => ?_⟩
    obtain rfl : b = true := hb
    exact ⟨trivial, fun _ _ => ⟨trivial, fun _ _ => ⟨rfl, rfl⟩⟩⟩
  | agentClearKeys => exact ⟨trivial, fun _ _ => ⟨trivial, fun _ _ => ⟨trivial, rfl⟩⟩⟩
  | _ => first
    | exact ⟨trivial, fun _ _ => ⟨trivial, rfl⟩⟩
    | exact ⟨trivial, fun _ _ => ⟨trivial, (List.append_nil l).symm⟩⟩
    | exact ⟨trivial, fun _ h => ⟨h, (List.append_nil l).symm⟩⟩

/-- A program that updates nothing. -/
abbrev UpdatesNothing {α : Type} (p : DProg α) : Prop :=
  Prog.Only (S := daemonSig) (fun o : Op => o.updates = []) p

theorem SlotRoutine.updatesNothing {p : DProg α} (h : SlotRoutine p) : UpdatesNothing p :=
  h.mono fun o ho => by cases o <;> first | rfl | exact absurd ho Bool.false_ne_true

theorem Routine.updatesNothing {p : DProg α} (h : Routine p) : UpdatesNothing p := h.slots.updatesNothing

theorem updatesNothing_op {o : Op} (h : o.updates = []) : UpdatesNothing (op o) := ⟨h, fun _ => trivial⟩

theorem UpdatesNothing.wp_updates {p : DProg α} (h : UpdatesNothing p) :
    wp (opUpdates c) (fun _ _ => True) p (fun _ l' => l' = l) l := by
  refine (Only.wp (M := opUpdates c) (I := (· = l)) h ?_ rfl).mono (fun _ _ _ => trivial) fun _ _ h => h
  rintro o l' a ho rfl -
  have hnext : (opUpdates c).next o l' a = l' ++ o.updates := rfl
  rw [hnext, ho, List.append_nil]

theorem UpdatesNothing.wp_bind_updates {p : DProg α} {f : α → DProg β} {Q : β → List AtomicOp → Prop}
    (h : UpdatesNothing p) (hf : ∀ a, wp (opUpdates c) (fun _ _ => True) (f a) Q l) :
    wp (opUpdates c) (fun _ _ => True) (p >>= f) Q l :=
  (wp_bind ..).2 (h.wp_updates.post fun a _ hl => hl ▸ hf a)

theorem wp_op_updates {o : Op} {f : o.Ans → DProg β} {Q : β → List AtomicOp → Prop}
    (hf : ∀ a, AnsweredWith c ⟨o, a⟩ → wp (opUpdates c) (fun _ _ => True) (f a) Q (l ++ o.updates)) :
    wp (opUpdates c) (fun _ _ => True) (op o >>= f) Q l :=
  wp_perform_bind.2 ⟨trivial, hf⟩

theorem wp_lockVault_updates :
    wp (opUpdates c) (fun _ _ => True) lockVault (fun _ l => l = lockUpdates) [] := by
  refine wp_op_updates fun b hb => ?_
  obtain rfl : b = true := hb
  exact wp_op_updates fun _ _ => wp_op_updates fun _ _ => wp_op_updates fun _ _ => wp_op_updates fun _ _ => rfl

/-- The payload of the cache opens under this key and holds these keys. -/
def PayloadOpens (E : Crates) (cache : LocalKeyCacheFile) (ks : List KeyTuple) (key : SymmetricKey) : Prop :=
  ∃ json, decryptEnvelopePayload E cache key = .ok (json, key) ∧ E.keysFromJson json = .ok ks

/-- The handler changed nothing, or it unlocked with what it opened. -/
def UnlockedOrNot (E : Crates) (c : Option LocalKeyCacheFile) (l : List AtomicOp) : Prop :=
  l = [] ∨ ∃ cache ks key, c = some cache ∧ PayloadOpens E cache ks key ∧ l = unlockUpdates ks key

theorem wp_unlockWithDecryptedKeys_updates (request : SshAgentUIRequest) {cache : LocalKeyCacheFile}
    {json : String} {key : SymmetricKey} (hc : c = some cache)
    (hopen : decryptEnvelopePayload E cache key = .ok (json, key)) {seed : DProg Unit}
    (hseed : UpdatesNothing seed)
    (event : RuntimeEvent) :
    wp (opUpdates c) (fun _ _ => True) (unlockWithDecryptedKeys E request json key seed event)
      (fun r l => UnlockedOrNot E c l ∧ (r = none → l = [])) [] := by
  unfold unlockWithDecryptedKeys
  split
  · exact ⟨.inl rfl, fun _ => rfl⟩
  · next ks hks =>
    refine (wp_bind ..).2 (wp_op_updates fun _ _ => ⟨trivial, fun _ _ => wp_op_updates fun b hb => ?_⟩)
    obtain rfl : b = true := hb
    refine hseed.wp_bind_updates fun _ => wp_op_updates fun _ _ => wp_op_updates fun _ _ =>
      wp_op_updates fun _ _ => ⟨.inr ⟨cache, ks, key, hc, ⟨json, hopen, hks⟩, ?_⟩, nofun⟩
    simp [opUpdates, Machine.record, Op.updates, Op.piece?, unlockUpdates]

/-- What the native slot opens is the payload. -/
theorem wp_decryptWithNative_updates (cache : LocalKeyCacheFile) :
    wp (opUpdates c) (fun _ _ => True) (decryptEnvelopeLocalKeyCacheWithNative E cfg cache)
      (fun r l' => l' = l ∧ ∀ json key, r = .ok (json, key) → decryptEnvelopePayload E cache key = .ok (json, key))
      l := by
  refine (slotReads_currentNativeUnlockSlot cfg cache).routine.updatesNothing.wp_bind_updates fun slot => ?_
  cases slot with
  | none => exact ⟨rfl, fun _ _ hno => nomatch hno⟩
  | some slot =>
    refine (updatesNothing_op rfl).wp_bind_updates fun r => ?_
    cases r with
    | error e => exact ⟨rfl, fun _ _ hno => nomatch hno⟩
    | ok encoded =>
      dsimp only
      split
      · exact ⟨rfl, fun _ _ hno => nomatch hno⟩
      · refine ⟨rfl, fun json key hopen => ?_⟩
        have hkey : key = _ := decryptEnvelopePayload_key hopen
        rw [← hkey] at hopen
        exact hopen

theorem wp_autoUnlockNative_updates (request : SshAgentUIRequest) :
    wp (opUpdates c) (fun _ _ => True) (autoUnlockNative E cfg request)
      (fun r l => UnlockedOrNot E c l ∧ (r = none → l = [])) [] := by
  refine wp_op_updates fun cache hc => ?_
  have hc : cache = c := hc
  cases cache with
  | none => exact ⟨.inl rfl, fun _ => rfl⟩
  | some cache =>
    refine (slotReads_currentNativeUnlockSlot cfg cache).routine.updatesNothing.wp_bind_updates fun slot =>
      (wp_ite ..).2 ⟨fun _ => ⟨.inl rfl, fun _ => rfl⟩, fun _ => ?_⟩
    refine (wp_bind ..).2 ((wp_decryptWithNative_updates cache).post ?_)
    rintro r _ ⟨rfl, hr⟩
    cases r with
    | error e => exact ⟨.inl rfl, fun _ => rfl⟩
    | ok opened =>
      have hnothing : UpdatesNothing (pure () : DProg Unit) := trivial
      exact wp_unlockWithDecryptedKeys_updates request hc.symm (hr _ _ rfl) hnothing _

theorem wp_autoUnlockPin_updates (request : SshAgentUIRequest) :
    wp (opUpdates c) (fun _ _ => True) (autoUnlockPin E cfg request)
      (fun r l => UnlockedOrNot E c l ∧ (r = none → l = [])) [] := by
  refine wp_op_updates fun cache hc => ?_
  have hc : cache = c := hc
  dsimp only
  split
  · exact ⟨.inl rfl, fun _ => rfl⟩
  · next cache' hcache =>
    obtain ⟨hsome, -⟩ := Option.filter_eq_some_iff.1 hcache
    refine (updatesNothing_op rfl).wp_bind_updates fun names => (wp_bind ..).2 ?_
    have hvalid : wp (opUpdates c) (fun _ _ => True)
        (requestPinDialog (some (unlockContextForRequest request (keyNameFromMap request names)))
          (pinValidator E cache'))
        (fun r _ => ∀ pin opened, r = some (pin, opened) → pinValidator E cache' pin = some opened) [] :=
      wp_perform_bind.2 ⟨trivial, fun pins _ => (wp_validateSubmitted pins).post fun _ _ hr pin opened he =>
        (hr pin opened he).2⟩
    refine ((pinSteps_requestPinDialog _ _).routine.updatesNothing.wp_updates.and hvalid).mono
      (fun _ _ _ => trivial) ?_
    rintro r _ ⟨rfl, hr⟩
    cases r with
    | none => exact ⟨.inl rfl, fun _ => rfl⟩
    | some opened =>
      obtain ⟨pin, json, key⟩ := opened
      have hpin := except_eq_ok_of_toOption (hr pin (json, key) rfl)
      obtain ⟨key', -, hopen⟩ := except_bind_ok hpin
      obtain rfl : key = key' := decryptEnvelopePayload_key hopen
      exact wp_unlockWithDecryptedKeys_updates request (hc.symm.trans hsome) hopen
        (slotSteps_enrollDevicePlatformSlotsIfMissing E cfg _).slotRoutine.updatesNothing _

theorem Op.updates_of_isAnswering {o : Op} (h : o.isAnswering = true) : o.updates = [] := by
  cases o <;> first | rfl | exact absurd h Bool.false_ne_true

theorem updatesNothing_handleUnlockedRequest (cfg : Config) (request : SshAgentUIRequest) :
    UpdatesNothing (handleUnlockedRequest cfg request) :=
  (answering_handleUnlockedRequest cfg request).mono fun _ => Op.updates_of_isAnswering

theorem wp_handleLockedRequest_updates (request : SshAgentUIRequest) :
    wp (opUpdates c) (fun _ _ => True) (handleLockedRequest E cfg request) (fun _ => UnlockedOrNot E c) [] := by
  have hprompt : ∀ name l, UnlockedOrNot E c l → wp (opUpdates c) (fun _ _ => True) (do
      let approved ← runAuthorizationPrompt cfg request name
      op (.broadcast request.requestId approved)) (fun _ => UnlockedOrNot E c) l := fun name l hl =>
    (routine_runAuthorizationPrompt cfg request name).updatesNothing.wp_bind_updates fun approved =>
      (updatesNothing_op rfl).wp_updates.post fun _ _ h => h ▸ hl
  refine (wp_bind ..).2 ((wp_autoUnlockNative_updates request).post fun r l hl => ?_)
  cases r with
  | some name => exact hprompt name l hl.1
  | none =>
    obtain rfl := hl.2 rfl
    refine (wp_bind ..).2 ((wp_autoUnlockPin_updates request).post fun r l hl => ?_)
    cases r with
    | some name => exact hprompt name l hl.1
    | none => exact (updatesNothing_op rfl).wp_updates.post fun _ _ h => h ▸ hl.1

theorem wp_handleUiRequest_updates (request : SshAgentUIRequest) :
    wp (opUpdates c) (fun _ _ => True) (handleUiRequest E cfg request) (fun _ => UnlockedOrNot E c) [] := by
  have hnothing : ∀ {p : DProg Unit}, UpdatesNothing p →
      wp (opUpdates c) (fun _ _ => True) p (fun _ => UnlockedOrNot E c) [] :=
        fun h => h.wp_updates.post fun _ _ h => .inl h
  refine (wp_ite ..).2 ⟨fun _ => hnothing ?_, fun _ => (updatesNothing_op rfl).wp_bind_updates fun locked =>
    (wp_ite ..).2 ⟨fun _ => wp_handleLockedRequest_updates request, fun _ => hnothing ?_⟩⟩
  · exact .bind (updatesNothing_op rfl) fun _ => .bind (updatesNothing_op rfl) fun _ => updatesNothing_op rfl
  · exact .bind (updatesNothing_op rfl) fun _ => .ite (updatesNothing_op rfl)
      (updatesNothing_handleUnlockedRequest cfg request)

/-! ### Operations beside each other -/

/-- A lock operation, or the handler of a request. -/
inductive Operation
  | lock
  | request (request : SshAgentUIRequest)
deriving DecidableEq

def Operation.program (E : Crates) (cfg : Config) : Operation → DProg Unit
  | lock => do
    let _ ← lockVault
    return ()
  | request r => handleUiRequest E cfg r

/-- The operations run beside each other from `s` until all have finished. -/
def RunBeside [DecidableEq ι] (E : Crates) (cfg : Config) (ops : ι → Operation) (s : Daemon)
    (tr : List (ι × AtomicEvent)) (s' : Daemon) : Prop :=
  Interleaves (atomicMachine E) (fun i => expand atomically ((ops i).program E cfg)) s tr (fun _ => .ret ()) s'

/-- Thread `i` unlocked with these keys. -/
def UnlocksWith [DecidableEq ι] (tr : List (ι × AtomicEvent)) (ks : List KeyTuple) (key : SymmetricKey)
    (i : ι) : Prop :=
  updates (ofThread i tr) = unlockUpdates ks key

/-- A thread of `T` was the last to start the piece over, and what has been added to it since comes from
threads of `T`. -/
def LastOn (T : ι → Prop) (p : Piece) (tr : List (ι × AtomicEvent)) : Prop :=
  ∃ pre i e post, tr = pre ++ (i, e) :: post ∧ T i ∧ e.1.piece? = some p ∧ e.1.startsOver = true ∧
    ∀ x ∈ post, x.2.1.piece? = some p → T x.1 ∧ x.2.1.startsOver = false

/-- The threads that update a piece, in the order of their updates. -/
def updaters (tr : List (ι × AtomicEvent)) : List ι :=
  (tr.filter fun x => x.2.1.piece?.isSome).map Prod.fst

/-- The payload of the cache that the daemon holds opens under one key only. -/
def OneKeyOpens (E : Crates) (s : Daemon) : Prop :=
  ∀ cache, s.localKeyCacheData = some cache → ∀ key key' r r',
    decryptEnvelopePayload E cache key = .ok r → decryptEnvelopePayload E cache key' = .ok r' → key = key'

/-- Two operations that do the same to every piece: lock operations, and unlocks with the same key. -/
def Operation.Agrees (E : Crates) (s : Daemon) : Operation → Operation → Prop
  | lock, lock => True
  | request _, request _ => OneKeyOpens E s
  | _, _ => False

/-- From the first to the last update of an operation no other one updates anything that does not agree
with it: no handler while a lock operation is at work, and no lock operation between the first write of a
handler and its store of the flag. -/
def WindowsApart (E : Crates) (ops : ι → Operation) (s : Daemon) (tr : List (ι × AtomicEvent)) : Prop :=
  ∀ i j, i ≠ j → ¬(ops i).Agrees E s (ops j) → ¬List.Sublist [i, j, i] (updaters tr)

/-- No lock raised the flag after thread `i` had cleared it. -/
def NotRelocked (tr : List (ι × AtomicEvent)) (i : ι) : Prop :=
  ∃ pre e post, tr = pre ++ (i, e) :: post ∧ e.1 = .op (.storeVaultLocked false) ∧
    ∀ x ∈ post, x.2.1 ≠ .op (.storeVaultLocked true)

/-- Nothing secret is left. -/
structure Cleared (s : Daemon) : Prop where
  noPrivate : s.agent.NoPrivate
  cachedKeyTuples : s.cachedKeyTuples = []
  localCacheKey : s.localCacheKeyState = none

/-- The keystore, the cached tuples and the Local Cache Key are those of an unlock with these keys. -/
structure HoldsUnlock (E : Crates) (s : Daemon) (ks : List KeyTuple) (key : SymmetricKey) : Prop where
  keystore : ∀ pub, s.agent.keystore.get? pub = (Agent.keystoreOf E ks).get? pub
  cachedKeyTuples : s.cachedKeyTuples = ks
  localCacheKey : s.localCacheKeyState = some key

/-- A locked vault is cleared; an unlocked one is that of an unlock that no lock followed. -/
structure VaultConsistent [DecidableEq ι] (E : Crates) (tr : List (ι × AtomicEvent)) (s : Daemon) : Prop where
  locked : s.vaultLocked = true → Cleared s
  unlocked : s.vaultLocked = false →
    ∃ i ks key, UnlocksWith tr ks key i ∧ NotRelocked tr i ∧ HoldsUnlock E s ks key

variable {ops : ι → Operation} {s s' : Daemon} {tr : List (ι × AtomicEvent)}

section
variable [DecidableEq ι]

theorem wp_program_updates {p : DProg Unit} {Q : List AtomicOp → Prop}
    (h : wp (opUpdates c) (fun _ _ => True) p (fun _ => Q) []) {tr : List AtomicEvent}
    (hr : Reaches (expand atomically p) tr (.ret ())) (hrun : ∀ e ∈ tr, FoundWith c e) : Q (updates tr) := by
  have hsteps := hr.record hrun (fun l e => if e.1.piece?.isSome then l ++ [e.1] else l) []
  rw [foldl_updates, List.nil_append] at hsteps
  exact (wp_expand (fun o l _ => wp_atomically_updates o l) h).of_ret hsteps

theorem atomicNext_isRunning {o : AtomicOp} {s : Daemon} (a : o.Ans) (hs : s.agent.isRunning = true) :
    (atomicNext E o s a).agent.isRunning = true := by
  cases o with
  | op o => exact isRunning_next E o a hs
  | _ => exact hs

/-- The cache in memory is not written. -/
def Op.sparesCache : Op → Bool
  | writeLocalKeyCache _ => false
  | _ => true

def AtomicOp.sparesCache : AtomicOp → Bool
  | op o => o.sparesCache
  | _ => true

theorem localKeyCacheData_next {o : AtomicOp} (ho : o.sparesCache = true) (s : Daemon) (a : o.Ans) :
    (atomicNext E o s a).localKeyCacheData = s.localKeyCacheData := by
  cases o with
  | op o => cases o <;> first | rfl | exact absurd ho Bool.false_ne_true | (cases a <;> rfl)
  | _ => rfl

theorem insertEach_sparesCache {insert : KeyTuple → AtomicOp} (hins : ∀ k, (insert k).sparesCache = true)
    (ks : List KeyTuple) :
    Only (S := atomicSig) (fun o : AtomicOp => o.sparesCache = true) (insertEach insert ks) := by
  induction ks with
  | nil => trivial
  | cons k ks ih => exact ⟨hins k, fun _ => ih⟩

theorem atomically_sparesCache {o : Op} (ho : o.sparesCache = true) :
    Only (S := atomicSig) (fun o : AtomicOp => o.sparesCache = true) (atomically o) := by
  have hrefill : ∀ needsUnlock (insert : KeyTuple → AtomicOp) ks, (∀ k, (insert k).sparesCache = true) →
      Only (S := atomicSig) (fun o : AtomicOp => o.sparesCache = true) (refillSteps needsUnlock insert ks) :=
    fun _ _ ks hins => ⟨rfl, fun _ => .ite (.bind ⟨rfl, fun _ => trivial⟩ fun _ => .bind ⟨rfl, fun _ => trivial⟩
      fun _ => .bind (insertEach_sparesCache hins ks) fun _ => trivial) trivial⟩
  cases o with
  | agentSetKeys ks => exact hrefill _ _ ks fun _ => rfl
  | agentSetPublicIdentities ids => exact hrefill _ _ ids fun _ => rfl
  | agentLock => exact ⟨rfl, fun _ => .ite ⟨rfl, fun _ => ⟨rfl, fun _ => trivial⟩⟩ trivial⟩
  | agentClearKeys => exact ⟨rfl, fun _ => ⟨rfl, fun _ => trivial⟩⟩
  | _ => exact ⟨ho, fun _ => trivial⟩

theorem Operation.sparesCache (E : Crates) (cfg : Config) (o : Operation) :
    Only (S := atomicSig) (fun o : AtomicOp => o.sparesCache = true) (expand atomically (o.program E cfg)) := by
  refine Only.expand (P := fun o : Op => o.sparesCache = true) (fun _ => atomically_sparesCache) ?_
  cases o with
  | lock =>
    have hlock : Only (S := daemonSig) (fun o : Op => o.sparesCache = true) lockVault :=
      .bind (only_op rfl) fun _ => .ite (.bind (only_op rfl) fun _ => .bind (only_op rfl) fun _ =>
        .bind (only_op rfl) fun _ => .bind (only_op rfl) fun _ => trivial) trivial
    exact .bind hlock fun _ => trivial
  | request r =>
    exact (requesting_handleUiRequest E cfg r).mono fun o ho => by
      cases o <;> first | rfl | exact absurd ho Bool.false_ne_true

theorem RunBeside.found (h : RunBeside E cfg ops s tr s') (hs : s.agent.isRunning = true) (i : ι) :
    ∀ e ∈ ofThread i tr, FoundWith s.localKeyCacheData e := by
  have hall : ∀ x ∈ tr, FoundWith s.localKeyCacheData x.2 := by
    refine h.forall_mem (P := fun o : AtomicOp => o.sparesCache = true)
      (I := fun t => t.agent.isRunning = true ∧ t.localKeyCacheData = s.localKeyCacheData)
      (fun i => (ops i).sparesCache E cfg)
      (fun o t a ho ht _ => ⟨atomicNext_isRunning a ht.1, (localKeyCacheData_next ho t a).trans ht.2⟩)
      (fun o t a _ ht ha => ?_) ⟨hs, rfl⟩
    cases o with
    | loadIsRunning => exact ha.trans ht.1
    | op o =>
      cases o with
      | readLocalKeyCache => exact ha.trans ht.2
      | _ => trivial
    | _ => trivial
  exact fun e he => hall _ (mem_ofThread.1 he)

theorem RunBeside.lock_updates (h : RunBeside E cfg ops s tr s') (hs : s.agent.isRunning = true) {i : ι}
    (hi : ops i = .lock) : updates (ofThread i tr) = lockUpdates := by
  have hr := h.reaches i
  rw [hi] at hr
  have hprogram := (wp_bind (M := opUpdates s.localKeyCacheData)
    (Q := fun _ l => l = lockUpdates) lockVault fun _ => pure ()).2
    (wp_lockVault_updates.post fun _ _ hl => hl)
  exact wp_program_updates hprogram hr (h.found hs i)

theorem RunBeside.request_updates (h : RunBeside E cfg ops s tr s') (hs : s.agent.isRunning = true) {i : ι}
    {request : SshAgentUIRequest} (hi : ops i = .request request) :
    UnlockedOrNot E s.localKeyCacheData (updates (ofThread i tr)) := by
  have hr := h.reaches i
  rw [hi] at hr
  exact wp_program_updates (wp_handleUiRequest_updates request) hr (h.found hs i)

theorem mem_updates_ofThread {i : ι} {e : AtomicEvent} {p : Piece} (h : (i, e) ∈ tr)
    (hp : e.1.piece? = some p) : e.1 ∈ updates (ofThread i tr) :=
  List.mem_filter.2 ⟨List.mem_map_of_mem (mem_ofThread.2 h), by rw [hp]; rfl⟩

end

/-! ### The pieces afterwards -/

/-- The two states agree on the piece. -/
def Piece.Same : Piece → Daemon → Daemon → Prop
  | keystore, s, s' => s'.agent.keystore = s.agent.keystore
  | cachedKeyTuples, s, s' => s'.cachedKeyTuples = s.cachedKeyTuples
  | localCacheKey, s, s' => s'.localCacheKeyState = s.localCacheKeyState
  | vaultLocked, s, s' => s'.vaultLocked = s.vaultLocked

theorem same_of_piece?_ne {o : AtomicOp} {p : Piece} (h : o.piece? ≠ some p) (s : Daemon) (a : o.Ans) :
    p.Same s (atomicNext E o s a) := by
  cases o with
  | op o => cases o <;> cases p <;> first | rfl | exact absurd rfl h | (cases a <;> rfl)
  | _ => cases p <;> first | rfl | exact absurd rfl h

/-- What the last fresh start of a piece establishes holds in the end. -/
theorem LastOn.holds {T : ι → Prop} {p : Piece} (h : LastOn T p tr) {I : Daemon → Prop}
    (hset : ∀ i e, (i, e) ∈ tr → T i → e.1.piece? = some p → e.1.startsOver = true →
      ∀ s, I (atomicNext E e.1 s e.2))
    (hadd : ∀ i e, (i, e) ∈ tr → T i → e.1.piece? = some p → e.1.startsOver = true)
    (hkeep : ∀ s s', p.Same s s' → I s → I s') (s : Daemon) :
    I (tr.foldl (fun s x => atomicNext E x.2.1 s x.2.2) s) := by
  obtain ⟨pre, i, e, post, rfl, hi, hp, hstart, hpost⟩ := h
  refine foldl_append_cons (f := fun s (x : ι × AtomicEvent) => atomicNext E x.2.1 s x.2.2)
    (hset i e (by simp) hi hp hstart) (fun x hx s hs => ?_) s
  by_cases hx' : x.2.1.piece? = some p
  · obtain ⟨hT, hno⟩ := hpost x hx hx'
    have hyes := hadd x.1 x.2 (by simp [hx]) hT hx'
    exact absurd (hno.symm.trans hyes) Bool.false_ne_true
  · exact hkeep _ _ (same_of_piece?_ne hx' s x.2.2) hs

/-- What the steps of a lock operation leave of a piece. -/
def Piece.ClearedIn : Piece → Daemon → Prop
  | keystore, s => s.agent.NoPrivate
  | cachedKeyTuples, s => s.cachedKeyTuples = []
  | localCacheKey, s => s.localCacheKeyState = none
  | vaultLocked, s => s.vaultLocked = true

theorem Piece.ClearedIn.of_same {p : Piece} {s s' : Daemon} (h : p.ClearedIn s) (hs : p.Same s s') :
    p.ClearedIn s' := by
  cases p with
  | keystore =>
    have hks : s'.agent.keystore = s.agent.keystore := hs
    exact fun x hx => h x (hks ▸ hx)
  | _ => exact hs.trans h

theorem clearedIn_of_mem_lockUpdates {e : AtomicEvent} (h : e.1 ∈ lockUpdates) {p : Piece}
    (hp : e.1.piece? = some p) (s : Daemon) : p.ClearedIn (atomicNext E e.1 s e.2) := by
  obtain ⟨o, a⟩ := e
  have hcases : o = .stripPrivateKeys ∨ o = .op (.storeVaultLocked true) ∨ o = .op (.writeCachedKeyTuples []) ∨
      o = .op (.writeLocalCacheKey none) := by simpa [lockUpdates] using h
  rcases hcases with rfl | rfl | rfl | rfl <;> obtain rfl := Option.some.inj hp
  · intro x hx
    obtain ⟨y, -, rfl⟩ := List.mem_map.1 hx
    rfl
  · rfl
  · rfl
  · rfl

theorem startsOver_of_mem_lockUpdates {o : AtomicOp} (h : o ∈ lockUpdates) : o.startsOver = true := by
  have hall : ∀ o ∈ lockUpdates, o.startsOver = true := by simp [lockUpdates, AtomicOp.startsOver,
    AtomicOp.piece?, Op.piece?]
  exact hall o h

section
variable [DecidableEq ι]

theorem RunBeside.clearedIn (h : RunBeside E cfg ops s tr s') (hs : s.agent.isRunning = true) {p : Piece}
    (hp : LastOn (fun i => ops i = .lock) p tr) : p.ClearedIn s' := by
  have hmem : ∀ i e, (i, e) ∈ tr → ops i = .lock → e.1.piece? = some p → e.1 ∈ lockUpdates := by
    intro i e he hi hp
    rw [← h.lock_updates hs hi]
    exact mem_updates_ofThread he hp
  have hstate : s' = tr.foldl (fun s x => atomicNext E x.2.1 s x.2.2) s := h.state_eq
  rw [hstate]
  exact hp.holds (I := p.ClearedIn)
    (fun i e he hi hp _ => clearedIn_of_mem_lockUpdates (hmem i e he hi hp) hp)
    (fun i e he hi hp => startsOver_of_mem_lockUpdates (hmem i e he hi hp))
    (fun _ _ hsame hI => hI.of_same hsame) s

end

/-- The keys that are inserted. -/
def AtomicOp.insertedKey? : AtomicOp → Option KeyTuple
  | insertKey k => some k
  | _ => none

theorem filterMap_updates (tr : List AtomicEvent) :
    (updates tr).filterMap AtomicOp.insertedKey? = tr.filterMap fun e => e.1.insertedKey? := by
  induction tr with
  | nil => rfl
  | cons e tr ih =>
    obtain ⟨o, a⟩ := e
    cases hp : o.piece? with
    | none =>
      have hno : o.insertedKey? = none := by cases o <;> first | rfl | cases hp
      have hu : updates (⟨o, a⟩ :: tr) = updates tr := by simp [updates, hp]
      rw [hu, ih, List.filterMap_cons, hno]
    | some p =>
      have hu : updates (⟨o, a⟩ :: tr) = o :: updates tr := by simp [updates, hp]
      rw [hu, List.filterMap_cons, List.filterMap_cons, ih]

theorem filterMap_unlockUpdates (ks : List KeyTuple) (key : SymmetricKey) :
    (unlockUpdates ks key).filterMap AtomicOp.insertedKey? = ks := by
  have hmap : (ks.map AtomicOp.insertKey).filterMap AtomicOp.insertedKey? = ks := by
    rw [List.filterMap_map]
    exact List.filterMap_some
  rw [unlockUpdates, List.filterMap_cons_none rfl, List.filterMap_cons_none rfl, List.filterMap_append, hmap]
  exact List.append_nil ks

/-- The keystore after updates that only insert keys. -/
theorem keystore_foldl {post : List (ι × AtomicEvent)}
    (h : ∀ x ∈ post, x.2.1.piece? = some .keystore → ∃ k, x.2.1 = .insertKey k) (s : Daemon) :
    (post.foldl (fun s x => atomicNext E x.2.1 s x.2.2) s).agent.keystore =
      (post.filterMap fun x => x.2.1.insertedKey?).foldl (Agent.insertKey E) s.agent.keystore := by
  induction post generalizing s with
  | nil => rfl
  | cons x post ih =>
    have hrest := ih (fun y hy => h y (List.mem_cons_of_mem _ hy)) (atomicNext E x.2.1 s x.2.2)
    rw [List.foldl_cons, hrest, List.filterMap_cons]
    obtain ⟨i, o, a⟩ := x
    by_cases hp : o.piece? = some .keystore
    · obtain ⟨k, rfl⟩ := h _ (List.mem_cons_self ..) hp
      rfl
    · have hno : o.insertedKey? = none := by
        cases o with
        | insertKey k => exact absurd rfl hp
        | _ => rfl
      have hsame : (atomicNext E o s a).agent.keystore = s.agent.keystore :=
        same_of_piece?_ne (p := .keystore) hp s a
      simp only [hno]
      rw [hsame]

/-- The last key with some public key bytes is the one the keystore holds under them. -/
theorem get?_foldl_insertKey (ks : List KeyTuple) (m : Assoc Bytes SshWardenKey) (pub : Bytes) :
    (ks.foldl (Agent.insertKey E) m).get? pub =
      ((ks.reverse.find? fun k => E.parsePrivateKey k.key = some pub).map fun k =>
        ⟨some k.key, pub, k.name, k.cipherId⟩).or (m.get? pub) := by
  induction ks generalizing m with
  | nil => rfl
  | cons k ks ih =>
    rw [List.foldl_cons, ih, List.reverse_cons, List.find?_append]
    cases hf : ks.reverse.find? fun k => E.parsePrivateKey k.key = some pub with
    | some k' => rfl
    | none =>
      unfold Agent.insertKey
      cases hk : E.parsePrivateKey k.key with
      | none => simp [hk]
      | some pub' =>
        by_cases hpub : pub' = pub
        · subst hpub
          simp [hk, Assoc.get?_insert]
        · simp [hk, Assoc.get?_insert, hpub]

/-- What an unlock with these keys leaves of a piece. -/
def Piece.OpenedIn (E : Crates) (ks : List KeyTuple) (key : SymmetricKey) : Piece → Daemon → Prop
  | keystore, s => ∀ pub, s.agent.keystore.get? pub = (Agent.keystoreOf E ks).get? pub
  | cachedKeyTuples, s => s.cachedKeyTuples = ks
  | localCacheKey, s => s.localCacheKeyState = some key
  | vaultLocked, s => s.vaultLocked = false

theorem mem_unlockUpdates {ks : List KeyTuple} {key : SymmetricKey} {o : AtomicOp} :
    o ∈ unlockUpdates ks key ↔ o = .op (.writeCachedKeyTuples ks) ∨ o = .clearKeystore ∨
      (∃ k ∈ ks, .insertKey k = o) ∨ o = .op (.writeLocalCacheKey (some key)) ∨
      o = .op (.storeVaultLocked false) := by
  simp [unlockUpdates]

theorem openedIn_of_mem_unlockUpdates {ks : List KeyTuple} {key : SymmetricKey} {e : AtomicEvent}
    (h : e.1 ∈ unlockUpdates ks key) {p : Piece} (hp : e.1.piece? = some p) (hne : p ≠ .keystore)
    (s : Daemon) : p.OpenedIn E ks key (atomicNext E e.1 s e.2) ∧ e.1.startsOver = true := by
  obtain ⟨o, a⟩ := e
  rcases mem_unlockUpdates.1 h with rfl | rfl | ⟨k, -, rfl⟩ | rfl | rfl <;> obtain rfl := Option.some.inj hp
  · exact ⟨rfl, rfl⟩
  · exact absurd rfl hne
  · exact absurd rfl hne
  · exact ⟨rfl, rfl⟩
  · exact ⟨rfl, rfl⟩

/-- A keystore update of an unlock either clears the keystore or inserts a key. -/
theorem keystore_update_cases {ks : List KeyTuple} {key : SymmetricKey} {o : AtomicOp}
    (h : o ∈ unlockUpdates ks key) (hp : o.piece? = some .keystore) :
    o = .clearKeystore ∧ o.startsOver = true ∨ (∃ k, o = .insertKey k) ∧ o.startsOver = false := by
  rcases mem_unlockUpdates.1 h with rfl | rfl | ⟨k, -, rfl⟩ | rfl | rfl
  · cases hp
  · exact .inl ⟨rfl, rfl⟩
  · exact .inr ⟨⟨k, rfl⟩, rfl⟩
  · cases hp
  · cases hp

section
variable [DecidableEq ι] {ks : List KeyTuple} {key : SymmetricKey}

theorem UnlocksWith.mem {i : ι} (h : UnlocksWith tr ks key i) {e : AtomicEvent} {p : Piece}
    (he : (i, e) ∈ tr) (hp : e.1.piece? = some p) : e.1 ∈ unlockUpdates ks key :=
  h ▸ mem_updates_ofThread he hp

theorem UnlocksWith.insertedKeys {i : ι} (h : UnlocksWith tr ks key i) :
    (ofThread i tr).filterMap (fun e => e.1.insertedKey?) = ks := by
  rw [← filterMap_updates, h, filterMap_unlockUpdates]

/-- The thread that cleared the keystore inserts all of its keys after that. -/
theorem UnlocksWith.inserted {pre post : List (ι × AtomicEvent)} {i : ι} {e : AtomicEvent}
    (h : UnlocksWith (pre ++ (i, e) :: post) ks key i) (he : e.1 = .clearKeystore) :
    (ofThread i post).filterMap (fun e => e.1.insertedKey?) = ks := by
  have hcons : updates (e :: ofThread i post) = AtomicOp.clearKeystore :: updates (ofThread i post) := by
    simp [updates, he, AtomicOp.piece?]
  have hsplit : unlockUpdates ks key =
      updates (ofThread i pre) ++ AtomicOp.clearKeystore :: updates (ofThread i post) := by
    rw [← hcons, ← updates_append, ← h, ofThread_append, ofThread_cons, if_pos rfl]
  have honly : ∀ o ∈ ks.map AtomicOp.insertKey ++
      [.op (.writeLocalCacheKey (some key)), .op (.storeVaultLocked false)], o ≠ .clearKeystore := by
    rintro o ho rfl
    simp at ho
  have hunique := append_cons_inj (P := fun o => o = AtomicOp.clearKeystore)
    (l := [.op (.writeCachedKeyTuples ks)]) hsplit rfl (by simp) honly
  obtain ⟨-, hpost⟩ := List.cons.inj hunique.2
  rw [← filterMap_updates, ← hpost]
  exact filterMap_unlockUpdates ks key

theorem LastOn.openedIn_keystore (h : LastOn (UnlocksWith tr ks key) .keystore tr) (s : Daemon) :
    Piece.keystore.OpenedIn E ks key (tr.foldl (fun s x => atomicNext E x.2.1 s x.2.2) s) := by
  obtain ⟨pre, i, e, post, rfl, hi, hp, hstart, hpost⟩ := h
  have hclear : e.1 = .clearKeystore := by
    rcases keystore_update_cases (hi.mem (by simp) hp) hp with h | h
    · exact h.1
    · exact absurd (h.2.symm.trans hstart) Bool.false_ne_true
  have hinsert : ∀ x ∈ post, x.2.1.piece? = some .keystore → ∃ k, x.2.1 = .insertKey k := by
    intro x hx hxp
    obtain ⟨hT, hno⟩ := hpost x hx hxp
    rcases keystore_update_cases (hT.mem (e := x.2) (by simp [hx]) hxp) hxp with h | h
    · exact absurd (hno.symm.trans h.2) Bool.false_ne_true
    · exact h.1
  -- the insertions after the last clearing, each with its thread
  let inserted := post.filterMap fun x => x.2.1.insertedKey?.map (x.1, ·)
  have hkeys : (post.filterMap fun x => x.2.1.insertedKey?) = inserted.map Prod.snd := by
    simp [inserted, List.map_filterMap, Function.comp_def]
  have hthread : ∀ j, ofThread j inserted = (ofThread j post).filterMap fun e => e.1.insertedKey? :=
    fun j => ofThread_filterMap (fun e : AtomicEvent => e.1.insertedKey?) j post
  have hown : ofThread i inserted = ks := (hthread i).trans (hi.inserted hclear)
  have hsuffix : ∀ j, ofThread j inserted <:+ ks := by
    intro j
    rw [hthread]
    by_cases hnone : ∀ e ∈ ofThread j post, e.1.insertedKey? = none
    · rw [List.filterMap_eq_nil_iff.2 hnone]
      exact List.nil_suffix
    · push Not at hnone
      obtain ⟨e', he', hsome⟩ := hnone
      have hkeystore : e'.1.piece? = some .keystore := by
        obtain ⟨o, a⟩ := e'
        cases o with
        | insertKey k => rfl
        | _ => exact absurd rfl hsome
      have hj := (hpost _ (mem_ofThread.1 he') hkeystore).1
      have hpart : ofThread j post <:+ ofThread j (pre ++ (i, e) :: post) :=
        List.IsSuffix.filterMap _ ((List.suffix_cons ..).trans (List.suffix_append ..))
      have hsuffix := hpart.filterMap fun e : AtomicEvent => e.1.insertedKey?
      rwa [hj.insertedKeys] at hsuffix
  intro pub
  rw [List.foldl_append, List.foldl_cons, keystore_foldl hinsert, hkeys]
  have hempty : (atomicNext E e.1
      (pre.foldl (fun s x => atomicNext E x.2.1 s x.2.2) s) e.2).agent.keystore = [] := by
    obtain ⟨o, a⟩ := e
    obtain rfl : o = .clearKeystore := hclear
    rfl
  rw [hempty, Agent.keystoreOf, get?_foldl_insertKey, get?_foldl_insertKey, reverse_find?_of_threads hown hsuffix]

theorem Piece.OpenedIn.of_same {p : Piece} {s s' : Daemon} (h : p.OpenedIn E ks key s) (hs : p.Same s s') :
    p.OpenedIn E ks key s' := by
  cases p with
  | keystore =>
    have hks : s'.agent.keystore = s.agent.keystore := hs
    exact fun pub => hks ▸ h pub
  | _ => exact hs.trans h

theorem RunBeside.openedIn (h : RunBeside E cfg ops s tr s') {p : Piece}
    (hp : LastOn (UnlocksWith tr ks key) p tr) : p.OpenedIn E ks key s' := by
  have hstate : s' = tr.foldl (fun s x => atomicNext E x.2.1 s x.2.2) s := h.state_eq
  rw [hstate]
  by_cases hne : p = .keystore
  · subst hne
    exact hp.openedIn_keystore s
  · exact hp.holds (I := p.OpenedIn E ks key)
      (fun i e he hi hp _ s => (openedIn_of_mem_unlockUpdates (hi.mem he hp) hp hne s).1)
      (fun i e he hi hp => (openedIn_of_mem_unlockUpdates (E := E) (hi.mem he hp) hp hne s).2)
      (fun _ _ hsame hI => hI.of_same hsame) s

theorem LastOn.notRelocked (h : LastOn (UnlocksWith tr ks key) .vaultLocked tr) :
    ∃ i, UnlocksWith tr ks key i ∧ NotRelocked tr i := by
  obtain ⟨pre, i, e, post, rfl, hi, hp, -, hpost⟩ := h
  refine ⟨i, hi, pre, e, post, rfl, ?_, fun x hx hlock => ?_⟩
  · rcases mem_unlockUpdates.1 (hi.mem (by simp) hp) with he | he | ⟨k, -, he⟩ | he | he
    · rw [he] at hp; cases hp
    · rw [he] at hp; cases hp
    · rw [← he] at hp; cases hp
    · rw [he] at hp; cases hp
    · exact he
  · have hno := (hpost x hx (by rw [hlock]; rfl)).2
    rw [hlock] at hno
    exact absurd hno.symm Bool.false_ne_true

end

/-! ### The last window -/

theorem mem_updaters {i : ι} {tr : List (ι × AtomicEvent)} :
    i ∈ updaters tr ↔ ∃ e, (i, e) ∈ tr ∧ e.1.piece?.isSome = true := by
  simp [updaters]

theorem updaters_append (tr tr' : List (ι × AtomicEvent)) :
    updaters (tr ++ tr') = updaters tr ++ updaters tr' := by
  simp [updaters]

theorem updaters_cons (x : ι × AtomicEvent) (tr : List (ι × AtomicEvent)) :
    updaters (x :: tr) = if x.2.1.piece?.isSome then x.1 :: updaters tr else updaters tr := by
  unfold updaters
  rw [List.filter_cons]
  split <;> rfl

/-- A thread that updates something has a first update. -/
theorem exists_first_update {i : ι} {tr : List (ι × AtomicEvent)} (h : i ∈ updaters tr) :
    ∃ pre post rest, tr = pre ++ post ∧ i ∉ updaters pre ∧ updaters post = i :: rest := by
  induction tr with
  | nil => cases h
  | cons x tr ih =>
    by_cases hx : x.2.1.piece?.isSome ∧ x.1 = i
    · exact ⟨[], x :: tr, updaters tr, rfl, List.not_mem_nil, by rw [updaters_cons, if_pos hx.1, hx.2]⟩
    · have hskip : ∀ l, i ∈ updaters (x :: l) → i ∈ updaters l := by
        intro l hl
        rw [updaters_cons] at hl
        split at hl
        · next hp => exact (List.mem_cons.1 hl).resolve_left fun he => hx ⟨hp, he.symm⟩
        · exact hl
      obtain ⟨pre, post, rest, rfl, hpre, hpost⟩ := ih (hskip tr h)
      exact ⟨x :: pre, post, rest, rfl, fun hmem => hpre (hskip pre hmem), hpost⟩

/-- The thread of the last update: from its own first update on, every other update falls into its window. -/
theorem exists_last_window {tr : List (ι × AtomicEvent)} (h : updaters tr ≠ []) :
    ∃ i pre post, tr = pre ++ post ∧ i ∈ updaters tr ∧ i ∉ updaters pre ∧
      ∀ j ∈ updaters post, j = i ∨ List.Sublist [i, j, i] (updaters tr) := by
  obtain ⟨l, i, hlast⟩ := List.eq_nil_or_concat (updaters tr) |>.resolve_left h
  have hi : i ∈ updaters tr := by rw [hlast]; simp
  obtain ⟨pre, post, rest, rfl, hpre, hpost⟩ := exists_first_update hi
  refine ⟨i, pre, post, rfl, hi, hpre, fun j hj => or_iff_not_imp_left.2 fun hne => ?_⟩
  rw [hpost] at hj
  have hrest : j ∈ rest := (List.mem_cons.1 hj).resolve_left hne
  -- the last update after the first one of thread `i` is its own
  obtain ⟨init, k, hinit⟩ := (List.eq_nil_or_concat rest).resolve_left (List.ne_nil_of_mem hrest)
  have hk : i = k := by
    rw [updaters_append, hpost, hinit] at hlast
    have hends := congrArg List.getLast? hlast
    rw [List.concat_eq_append, List.concat_eq_append, ← List.cons_append, ← List.append_assoc,
      List.getLast?_concat, List.getLast?_concat] at hends
    exact (Option.some.inj hends).symm
  subst hk
  have hmem : j ∈ init := by
    rw [hinit] at hrest
    simpa [hne] using hrest
  have hmid : List.Sublist [j, i] rest := by
    rw [hinit]
    simpa using (List.singleton_sublist.2 hmem).append_right [i]
  rw [updaters_append, hpost]
  exact (hmid.cons_cons i).trans (List.sublist_append_right ..)

/-- The last fresh start of a piece, among steps all of whose updates come from threads of `T`. -/
theorem LastOn.of_post {T : ι → Prop} {p : Piece} {pre post : List (ι × AtomicEvent)}
    (hT : ∀ j ∈ updaters post, T j)
    (hex : ∃ x ∈ post, x.2.1.piece? = some p ∧ x.2.1.startsOver = true) : LastOn T p (pre ++ post) := by
  induction post generalizing pre with
  | nil => obtain ⟨x, hx, -⟩ := hex; cases hx
  | cons x post ih =>
    have htail : ∀ j ∈ updaters post, T j := by
      intro j hj
      refine hT j ?_
      rw [updaters_cons]
      split
      · exact List.mem_cons_of_mem _ hj
      · exact hj
    by_cases hlater : ∃ y ∈ post, y.2.1.piece? = some p ∧ y.2.1.startsOver = true
    · rw [List.append_cons]
      exact ih htail hlater
    · obtain ⟨y, hy, hp, hstart⟩ := hex
      obtain rfl : y = x := (List.mem_cons.1 hy).resolve_right fun hy => hlater ⟨y, hy, hp, hstart⟩
      have hTy : T y.1 := hT y.1 (by rw [updaters_cons, if_pos (by rw [hp]; rfl)]; exact List.mem_cons_self ..)
      refine ⟨pre, y.1, y.2, post, rfl, hTy, hp, hstart, fun z hz hzp => ⟨?_, ?_⟩⟩
      · exact htail z.1 (mem_updaters.2 ⟨z.2, hz, by rw [hzp]; rfl⟩)
      · rw [← Bool.not_eq_true]
        exact fun hz' => hlater ⟨z, hz, hzp, hz'⟩

section
variable [DecidableEq ι] {ks : List KeyTuple} {key : SymmetricKey}

theorem updates_ofThread_ne_nil {i : ι} {tr : List (ι × AtomicEvent)} (h : i ∈ updaters tr) :
    updates (ofThread i tr) ≠ [] := by
  obtain ⟨e, he, hp⟩ := mem_updaters.1 h
  obtain ⟨p, hp⟩ := Option.isSome_iff_exists.1 hp
  exact List.ne_nil_of_mem (mem_updates_ofThread he hp)

theorem mem_updaters_of_updates {i : ι} {tr : List (ι × AtomicEvent)} (h : updates (ofThread i tr) ≠ []) :
    i ∈ updaters tr := by
  obtain ⟨o, ho⟩ := List.exists_mem_of_ne_nil _ h
  obtain ⟨hmem, hp⟩ := List.mem_filter.1 ho
  obtain ⟨e, he, rfl⟩ := List.mem_map.1 hmem
  exact mem_updaters.2 ⟨e, mem_ofThread.1 he, hp⟩

/-- A thread with no update in the first part makes all of them in the second. -/
theorem exists_mem_post {i : ι} {pre post : List (ι × AtomicEvent)} (hpre : i ∉ updaters pre) {o : AtomicOp}
    (ho : o ∈ updates (ofThread i (pre ++ post))) : ∃ e, (i, e) ∈ post ∧ e.1 = o := by
  have hnone : updates (ofThread i pre) = [] := by
    by_contra hne
    exact hpre (mem_updaters_of_updates hne)
  rw [ofThread_append, updates_append, hnone, List.nil_append] at ho
  obtain ⟨e, he, heq⟩ := List.mem_map.1 (List.mem_filter.1 ho).1
  exact ⟨e, mem_ofThread.1 he, heq⟩

/-- A handler that updates something has unlocked with what the cache opened to. -/
theorem RunBeside.unlocksWith (h : RunBeside E cfg ops s tr s') (hs : s.agent.isRunning = true) {i : ι}
    {request : SshAgentUIRequest} (hi : ops i = .request request) (hmem : i ∈ updaters tr) :
    ∃ cache ks key, s.localKeyCacheData = some cache ∧ PayloadOpens E cache ks key ∧ UnlocksWith tr ks key i :=
  (h.request_updates hs hi).resolve_left (updates_ofThread_ne_nil hmem)

theorem PayloadOpens.unique {cache cache' : LocalKeyCacheFile} {ks' : List KeyTuple} {key' : SymmetricKey}
    (hone : OneKeyOpens E s) (hc : s.localKeyCacheData = some cache) (h : PayloadOpens E cache ks key)
    (hc' : s.localKeyCacheData = some cache') (h' : PayloadOpens E cache' ks' key') : ks' = ks ∧ key' = key := by
  obtain rfl := Option.some.inj (hc.symm.trans hc')
  obtain ⟨json, hopen, hks⟩ := h
  obtain ⟨json', hopen', hks'⟩ := h'
  obtain rfl := hone cache hc key key' _ _ hopen hopen'
  obtain ⟨rfl, -⟩ := Prod.mk.inj (Except.ok.inj (hopen.symm.trans hopen'))
  exact ⟨Except.ok.inj (hks'.symm.trans hks), rfl⟩

/-- Where the windows are apart the last updates of all pieces come from lock operations, or from unlocks with
the same keys. -/
theorem RunBeside.updatedAlike (h : RunBeside E cfg ops s tr s') (hs : s.agent.isRunning = true)
    (hlock : ∃ i, ops i = .lock) (hapart : WindowsApart E ops s tr) :
    (∀ p, LastOn (fun i => ops i = .lock) p tr) ∨ ∃ ks key, ∀ p, LastOn (UnlocksWith tr ks key) p tr := by
  obtain ⟨i₀, hi₀⟩ := hlock
  have hne : updaters tr ≠ [] :=
    List.ne_nil_of_mem (mem_updaters_of_updates (i := i₀) (by rw [h.lock_updates hs hi₀]; exact nofun))
  obtain ⟨i, pre, post, rfl, hi, hpre, hwindow⟩ := exists_last_window hne
  have hagree : ∀ j ∈ updaters post, j = i ∨ (ops i).Agrees E s (ops j) := by
    intro j hj
    rcases hwindow j hj with heq | hsub
    · exact .inl heq
    · by_cases heq : j = i
      · exact .inl heq
      · exact .inr (by_contra fun hno => hapart i j (Ne.symm heq) hno hsub)
  have hpost : ∀ j ∈ updaters post, j ∈ updaters (pre ++ post) := fun j hj => by
    rw [updaters_append]
    exact List.mem_append_right _ hj
  cases hop : ops i with
  | lock =>
    refine .inl fun p => .of_post (fun j hj => ?_) ?_
    · rcases hagree j hj with rfl | hag
      · exact hop
      · rw [hop] at hag
        cases hj' : ops j with
        | lock => rfl
        | request r => rw [hj'] at hag; exact hag.elim
    · have hupdates := h.lock_updates hs hop
      have hexists : ∃ o ∈ lockUpdates, o.piece? = some p := by
        cases p <;> simp [lockUpdates, AtomicOp.piece?, Op.piece?]
      obtain ⟨o, ho, hp⟩ := hexists
      obtain ⟨e, he, rfl⟩ := exists_mem_post hpre (hupdates ▸ ho)
      exact ⟨(i, e), he, hp, startsOver_of_mem_lockUpdates ho⟩
  | request r =>
    obtain ⟨cache, ks, key, hc, hopen, hunlock⟩ := h.unlocksWith hs hop hi
    refine .inr ⟨ks, key, fun p => .of_post (fun j hj => ?_) ?_⟩
    · rcases hagree j hj with rfl | hag
      · exact hunlock
      · rw [hop] at hag
        cases hj' : ops j with
        | lock => rw [hj'] at hag; exact hag.elim
        | request r' =>
          rw [hj'] at hag
          obtain ⟨cache', ks', key', hc', hopen', hunlock'⟩ := h.unlocksWith hs hj' (hpost j hj)
          obtain ⟨rfl, rfl⟩ := PayloadOpens.unique hag hc hopen hc' hopen'
          exact hunlock'
    · have hexists : ∃ o ∈ unlockUpdates ks key, o.piece? = some p ∧ o.startsOver = true := by
        cases p
        · exact ⟨.clearKeystore, by simp [unlockUpdates], rfl, rfl⟩
        · exact ⟨.op (.writeCachedKeyTuples ks), by simp [unlockUpdates], rfl, rfl⟩
        · exact ⟨.op (.writeLocalCacheKey (some key)), by simp [unlockUpdates], rfl, rfl⟩
        · exact ⟨.op (.storeVaultLocked false), by simp [unlockUpdates], rfl, rfl⟩
      obtain ⟨o, ho, hp, hstart⟩ := hexists
      obtain ⟨e, he, rfl⟩ := exists_mem_post hpre (hunlock.symm ▸ ho)
      exact ⟨(i, e), he, hp, hstart⟩

/-- One or more lock operations and any request handlers, interleaved in any way in which the updates of
operations that do not agree do not mix, leave the vault consistent. -/
theorem consistent_of_windowsApart {cfg₀ : Config} (hs : Reachable E cfg₀ cfg s) (h : RunBeside E cfg ops s tr s')
    (hlock : ∃ i, ops i = .lock) (hapart : WindowsApart E ops s tr) : VaultConsistent E tr s' := by
  rcases h.updatedAlike hs.isRunning hlock hapart with hlocked | ⟨ks, key, hunlock⟩
  · have hpiece : ∀ p : Piece, p.ClearedIn s' := fun p => h.clearedIn hs.isRunning (hlocked p)
    refine ⟨fun _ => ⟨hpiece .keystore, hpiece .cachedKeyTuples, hpiece .localCacheKey⟩, fun hf => ?_⟩
    exact absurd (hf.symm.trans (hpiece .vaultLocked)) Bool.false_ne_true
  · have hpiece : ∀ p : Piece, p.OpenedIn E ks key s' := fun p => h.openedIn (hunlock p)
    refine ⟨fun hl => ?_, fun _ => ?_⟩
    · have hopen : s'.vaultLocked = false := hpiece .vaultLocked
      exact absurd (hopen.symm.trans hl) Bool.false_ne_true
    · obtain ⟨i, hi, hnot⟩ := (hunlock .vaultLocked).notRelocked
      exact ⟨i, ks, key, hi, hnot, hpiece .keystore, hpiece .cachedKeyTuples, hpiece .localCacheKey⟩

end

/-- A lock operation (`false`) beside the handler of a request (`true`). -/
def lockBesideRequest : Bool → Operation
  | false => .lock
  | true => .request signRequest

/-- Let the two take steps in this order; `none` when one of them has not finished. -/
def playBeside (cfg : Config) (order : List Bool) (s : Daemon) :
    Option (List (Bool × AtomicEvent) × Daemon) :=
  let threads := fun i => expand atomically ((lockBesideRequest i).program .plain cfg)
  let end_ := execPool (atomicMachine .plain) plainScript.atomicAnswer order threads s
  if (end_.1 false).result? = some () ∧ (end_.1 true).result? = some () then
    some (poolTrace (atomicMachine .plain) plainScript.atomicAnswer order threads s, end_.2)
  else none

theorem runBeside_of_playBeside {order : List Bool} {s : Daemon} {x : List (Bool × AtomicEvent) × Daemon}
    (h : playBeside cfg order s = some x) : RunBeside .plain cfg lockBesideRequest s x.1 x.2 := by
  unfold playBeside at h
  extract_lets threads end_ at h
  split at h
  · rename_i hret
    obtain rfl := Option.some.inj h
    have hrun := interleaves_execPool (atomicMachine .plain) plainScript.atomicAnswer
      (ready_atomicAnswer .plain plainScript) order threads s
    have hend : end_.1 = fun _ => .ret () := by
      funext i
      cases i with
      | false => exact eq_ret_of_result? hret.1
      | true => exact eq_ret_of_result? hret.2
    unfold RunBeside
    rwa [← hend]
  · cases h

/-- A vault that can be unlocked natively, locked. -/
def lockedScenes : List Scene := [.take (.control .lock) plainScript]

/-- The handler runs to its end before the lock operation, or is stopped before it clears the flag. -/
def requestThenLock : List Bool := List.replicate 40 true ++ List.replicate 20 false

def lockBeforeFlag : List Bool :=
  List.replicate 12 true ++ List.replicate 20 false ++ List.replicate 40 true

theorem consistent_of_windowsApart_serial : ∃ cfg s tr s', Reachable .plain plainConfig cfg s ∧
    RunBeside .plain cfg lockBesideRequest s tr s' ∧ true ∈ updaters tr ∧ VaultConsistent .plain tr s' := by
  obtain ⟨cfg, s, hs, hcheck⟩ := exists_of_afterLogin
    (show (afterLogin plainConfig lockedScenes).any (fun x => (playBeside x.1 requestThenLock x.2).any fun y =>
      true ∈ updaters y.1 && !decide (List.Sublist [true, false, true] (updaters y.1)) &&
        !decide (List.Sublist [false, true, false] (updaters y.1))) = true by decide +kernel)
  obtain ⟨y, hy, hcheck⟩ := (Option.any_eq_true _ _).1 hcheck
  simp only [Bool.and_eq_true, decide_eq_true_eq, Bool.not_eq_true', decide_eq_false_iff_not] at hcheck
  obtain ⟨⟨hmem, hrequest⟩, hlock⟩ := hcheck
  have hapart : WindowsApart .plain lockBesideRequest s y.1 := by
    intro i j hne _
    cases i <;> cases j
    · exact absurd rfl hne
    · exact hlock
    · exact hrequest
    · exact absurd rfl hne
  have hrun := runBeside_of_playBeside hy
  exact ⟨cfg, s, y.1, y.2, hs, hrun, hmem, consistent_of_windowsApart hs hrun ⟨false, rfl⟩ hapart⟩

/-- The handler has everything but the flag when a whole lock operation comes in between: the vault ends
unlocked with nothing to sign with. -/
theorem lock_before_flag_inconsistent : ¬∀ cfg s tr s', Reachable .plain plainConfig cfg s →
    RunBeside .plain cfg lockBesideRequest s tr s' → VaultConsistent .plain tr s' := by
  intro h
  obtain ⟨cfg, s, hs, hcheck⟩ := exists_of_afterLogin
    (show (afterLogin plainConfig lockedScenes).any (fun x => (playBeside x.1 lockBeforeFlag x.2).any fun y =>
      !y.2.vaultLocked && y.2.localCacheKeyState.isNone) = true by decide +kernel)
  obtain ⟨y, hy, hend⟩ := (Option.any_eq_true _ _).1 hcheck
  obtain ⟨hflag, hnone⟩ := Bool.and_eq_true_iff.1 hend
  have hopen : y.2.vaultLocked = false := by simpa using hflag
  obtain ⟨i, ks, key, -, -, hholds⟩ := (h cfg s y.1 y.2 hs (runBeside_of_playBeside hy)).unlocked hopen
  rw [hholds.localCacheKey] at hnone
  exact absurd hnone Bool.false_ne_true

end SshWarden
