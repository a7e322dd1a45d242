import SshWarden.Data
import SshWarden.Lib.Reach
import Mathlib.Logic.Function.Basic

/-!
# Approvals of sign requests

Any number of agent calls wait on one broadcast channel for the answer to their own request, which they
tell by its id. An id is the next value of a counter, or 0 when the agent is found not to be running.
-/

namespace SshWarden

/-- What `confirm` makes of the data to sign. -/
structure SignRequest where
  operationKind : OperationKind
  sigNamespace : Option String
deriving DecidableEq, Repr

inductive AgentCallKind
  | confirm (cipherUuid : String) (parsed : Option SignRequest)
  | canList
deriving DecidableEq, Repr

structure Caller where
  processName : String
  pid : UInt32
  isForwarding : Bool
deriving DecidableEq, Repr

/-- What a call sends to the host application; nothing when its data cannot be parsed. -/
def AgentCallKind.request (kind : AgentCallKind) (caller : Caller) (requestId : UInt32) :
    Option SshAgentUIRequest :=
  match kind with
  | confirm cipherUuid parsed => parsed.map fun signed =>
    { requestId, cipherId := some cipherUuid, processName := caller.processName, pid := caller.pid,
      isList := false, sigNamespace := signed.sigNamespace, operationKind := signed.operationKind,
      isForwarding := caller.isForwarding }
  | canList => some
    { requestId, cipherId := none, processName := caller.processName, pid := caller.pid, isList := true,
      sigNamespace := none, operationKind := .sshAuthentication, isForwarding := caller.isForwarding }

/-- Where a call stands; `next` is the broadcast that its receiver gets next. -/
inductive AgentCallStage
  | entered
  | admitted
  | counting
  | numbered
  | subscribed (next : Nat)
  | waiting (next : Nat)
  | returned (result : Bool)
deriving DecidableEq, Repr

/-- A call with its id, the request it has sent, and what a handler has broadcast for that request. -/
structure AgentCall where
  kind : AgentCallKind
  caller : Caller
  stage : AgentCallStage := .entered
  requestId : Option UInt32 := none
  sent : Option SshAgentUIRequest := none
  answer : Option Bool := none
deriving DecidableEq, Repr

/-- The agent as its calls share it, and the ids it has handed out. -/
structure Approvals where
  started : Bool := false
  running : Bool := false
  needsUnlock : Bool := true
  counter : UInt32 := 0
  channelOpen : Bool := true
  broadcasts : List (UInt32 × Bool) := []
  calls : Nat → Option AgentCall := fun _ => none
  given : List UInt32 := []

namespace Approvals

/-- The steps of `confirm` and `can_list`, with the two steps of `get_request_id`. -/
inductive Move
  | check
  | askId
  | fetchAdd
  | subscribe
  | send
  | receive
  | receiveFails
deriving DecidableEq, Repr

inductive Action
  | start
  | stop
  | serverExited
  | closeChannel
  | setNeedsUnlock (value : Bool)
  | enter (i : Nat) (kind : AgentCallKind) (caller : Caller)
  | move (i : Nat) (m : Move)
  | answer (i : Nat) (approved : Bool)
deriving DecidableEq, Repr

/-- The id that a call gets with this step. -/
def handsOut (s : Approvals) : Move → Option UInt32
  | .askId => if s.running then none else some 0
  | .fetchAdd => some s.counter
  | _ => none

/-- What a call does next. -/
def advance (s : Approvals) (c : AgentCall) : Move → Option AgentCall
  | .check =>
    if c.stage = .entered then some { c with stage :=
      match c.kind with
      | .confirm .. => if s.running then .admitted else .returned false
      | .canList => if s.needsUnlock then .admitted else .returned true }
    else none
  | .askId =>
    if c.stage = .admitted then
      if s.running then some { c with stage := .counting }
      else some { c with stage := .numbered, requestId := some 0 }
    else none
  | .fetchAdd =>
    if c.stage = .counting then some { c with stage := .numbered, requestId := some s.counter } else none
  | .subscribe =>
    if c.stage = .numbered then
      if (c.requestId.bind (c.kind.request c.caller)).isSome then
        some { c with stage := .subscribed s.broadcasts.length }
      else some { c with stage := .returned false }
    else none
  | .send =>
    match c.stage with
    | .subscribed next =>
      if s.channelOpen then
        some { c with stage := .waiting next, sent := c.requestId.bind (c.kind.request c.caller) }
      else some { c with stage := .returned false }
    | _ => none
  | .receive =>
    match c.stage with
    | .waiting next => do
      let response ← s.broadcasts[next]?
      if c.requestId = some response.1 then some { c with stage := .returned response.2 }
      else some { c with stage := .waiting (next + 1) }
    | _ => none
  | .receiveFails =>
    match c.stage with
    | .waiting _ => some { c with stage := .returned false }
    | _ => none

/-- Calls and handlers take their steps in any order. A handler answers the request of a call once, a
list request with an approval. -/
def step (s : Approvals) : Action → Option Approvals
  | .start => if s.started then none else some { s with started := true, running := true }
  | .stop | .serverExited => some { s with running := false }
  | .closeChannel => some { s with channelOpen := false }
  | .setNeedsUnlock value => some { s with needsUnlock := value }
  | .enter i kind caller =>
    if (s.calls i).isSome then none
    else some { s with calls := Function.update s.calls i (some { kind, caller }) }
  | .move i m => do
    let c ← s.calls i
    let c' ← s.advance c m
    some { s with
      calls := Function.update s.calls i (some c')
      counter := if m = .fetchAdd then s.counter + 1 else s.counter
      given := s.given ++ (s.handsOut m).toList }
  | .answer i approved => do
    let c ← s.calls i
    let request ← c.sent
    if c.answer.isSome || (request.isList && !approved) then none
    else some { s with
      calls := Function.update s.calls i (some { c with answer := some approved })
      broadcasts := s.broadcasts ++ [(request.requestId, approved)] }

/-- The id 0 is handed out once: the counter starts with it, and an agent that does not run gives
nothing else. -/
def ZeroOnce (s : Approvals) : Action → Prop
  | .move _ m => s.handsOut m = some 0 → 0 ∉ s.given
  | _ => True

/-- `confirm` returns true only for a request of its own that a handler has approved. -/
def Uncrossed (s : Approvals) : Prop :=
  ∀ i c, s.calls i = some c → c.kind ≠ .canList → c.stage = .returned true → c.answer = some true

/-- The stages in which a call has no id yet. -/
def unnumbered : AgentCallStage → Bool
  | .entered | .admitted | .counting => true
  | _ => false

structure Advances (s : Approvals) (m : Move) (c c' : AgentCall) : Prop where
  kind : c'.kind = c.kind
  answer : c'.answer = c.answer
  requestId : c'.requestId = (s.handsOut m).or c.requestId
  numbered : (s.handsOut m).isSome → unnumbered c.stage = true
  early : unnumbered c'.stage = true → unnumbered c.stage = true ∧ s.handsOut m = none
  sent : ∀ r, c'.sent = some r → c.sent = some r ∨
    (s.handsOut m = none ∧ c.requestId.bind (c.kind.request c.caller) = some r)
  returned : c'.stage = .returned true → c.kind = .canList ∨ ∃ id, c.requestId = some id ∧
    (id, true) ∈ s.broadcasts

theorem AgentCallKind.requestId_of_request {kind : AgentCallKind} {caller : Caller} {id : UInt32}
    {r : SshAgentUIRequest} (h : kind.request caller id = some r) : r.requestId = id := by
  cases kind with
  | confirm cipherUuid parsed =>
    obtain ⟨signed, -, rfl⟩ := Option.map_eq_some_iff.1 h
    rfl
  | canList => obtain rfl := Option.some.inj h; rfl

variable {s s' : Approvals} {c c' : AgentCall} {m : Move}

/-- Most steps only move the call on. -/
theorem Advances.of_stage {stage : AgentCallStage} (hm : s.handsOut m = none)
    (hearly : unnumbered stage = true → unnumbered c.stage = true)
    (hret : stage = .returned true →
      c.kind = .canList ∨ ∃ id, c.requestId = some id ∧ (id, true) ∈ s.broadcasts) :
    s.Advances m c { c with stage := stage } where
  kind := rfl
  answer := rfl
  requestId := by rw [hm]; rfl
  numbered h := by rw [hm] at h; cases h
  early h := ⟨hearly h, hm⟩
  sent _ h := .inl h
  returned := hret

theorem advance_cases (h : s.advance c m = some c') : s.Advances m c c' := by
  cases m with
  | check =>
    obtain ⟨hst, ⟨⟩⟩ := Option.ite_none_right_eq_some.1 h
    refine .of_stage rfl (fun _ => by rw [hst]; rfl) fun hret => .inl ?_
    cases hk : c.kind with
    | confirm cipherUuid parsed =>
      rw [hk] at hret
      dsimp only at hret
      split at hret <;> cases hret
    | canList => rfl
  | askId =>
    obtain ⟨hst, h⟩ := Option.ite_none_right_eq_some.1 h
    split at h
    · next hrun =>
      obtain rfl := Option.some.inj h
      exact .of_stage (by simp only [handsOut, if_pos hrun]) (fun _ => by rw [hst]; rfl) nofun
    · next hrun =>
      obtain rfl := Option.some.inj h
      have hm : s.handsOut .askId = some 0 := by simp only [handsOut, if_neg hrun]
      exact ⟨rfl, rfl, by rw [hm]; rfl, fun _ => by rw [hst]; rfl, nofun, fun _ h => .inl h, nofun⟩
  | fetchAdd =>
    obtain ⟨hst, ⟨⟩⟩ := Option.ite_none_right_eq_some.1 h
    exact ⟨rfl, rfl, rfl, fun _ => by rw [hst]; rfl, nofun, fun _ h => .inl h, nofun⟩
  | subscribe =>
    obtain ⟨hst, h⟩ := Option.ite_none_right_eq_some.1 h
    split at h <;> obtain rfl := Option.some.inj h <;> exact .of_stage rfl nofun nofun
  | send =>
    dsimp only [advance] at h
    split at h
    · split at h <;> obtain rfl := Option.some.inj h
      · exact ⟨rfl, rfl, rfl, nofun, nofun, fun _ h => .inr ⟨rfl, h⟩, nofun⟩
      · exact .of_stage rfl nofun nofun
    · cases h
  | receive =>
    dsimp only [advance] at h
    split at h
    · obtain ⟨response, hget, h⟩ := Option.bind_eq_some_iff.1 h
      by_cases hid : c.requestId = some response.1
      · rw [if_pos hid] at h
        obtain rfl := Option.some.inj h
        refine .of_stage rfl nofun fun hret => .inr ⟨response.1, hid, ?_⟩
        obtain ⟨id, approved⟩ := response
        obtain rfl := AgentCallStage.returned.inj hret
        exact List.mem_of_getElem? hget
      · rw [if_neg hid] at h
        obtain rfl := Option.some.inj h
        exact .of_stage rfl nofun nofun
    · cases h
  | receiveFails =>
    dsimp only [advance] at h
    split at h
    · obtain rfl := Option.some.inj h
      exact .of_stage rfl nofun nofun
    · cases h

/-! ### The invariant -/

/-- What a call knows of itself is what was done to it. -/
structure Told (s : Approvals) (c : AgentCall) : Prop where
  unnumbered : unnumbered c.stage = true → c.requestId = none
  given : ∀ id, c.requestId = some id → id ∈ s.given
  sent : ∀ r, c.sent = some r → c.requestId = some r.requestId
  returned : c.kind ≠ .canList → c.stage = .returned true → c.answer = some true

/-- No two calls have one id, and what is broadcast is the answer to a call with that id. -/
structure Inv (s : Approvals) : Prop where
  counted : s.counter.toNat ≤ s.given.length
  below : ∀ id ∈ s.given, id = 0 ∨ id.toNat < s.counter.toNat
  told : ∀ i c, s.calls i = some c → s.Told c
  distinct : ∀ i j c c' id, s.calls i = some c → s.calls j = some c' → c.requestId = some id →
    c'.requestId = some id → i = j
  heard : ∀ x ∈ s.broadcasts, ∃ i c, s.calls i = some c ∧ c.requestId = some x.1 ∧ c.answer = some x.2

theorem Inv.fresh (h : s.Inv) {i : Nat} (hz : s.ZeroOnce (.move i m)) {id : UInt32}
    (hid : s.handsOut m = some id) : id ∉ s.given := by
  intro hmem
  rcases h.below id hmem with hzero | hlt
  · subst hzero; exact hz hid hmem
  · cases m with
    | fetchAdd =>
      obtain rfl := Option.some.inj hid
      exact Nat.lt_irrefl _ hlt
    | askId =>
      obtain ⟨-, hzero⟩ := Option.ite_none_left_eq_some.1 hid
      obtain rfl := Option.some.inj hzero
      exact hz hid hmem
    | _ => cases hid

/-- The calls after one of them has changed. -/
theorem calls_update {calls : Nat → Option AgentCall} {i j : Nat} {o : Option AgentCall} {c : AgentCall}
    (h : Function.update calls i o j = some c) : (j = i ∧ o = some c) ∨ (j ≠ i ∧ calls j = some c) := by
  by_cases hj : j = i
  · rw [hj, Function.update_self] at h; exact .inl ⟨hj, h⟩
  · rw [Function.update_of_ne hj] at h; exact .inr ⟨hj, h⟩

theorem Told.mono (h : s.Told c) (hgiven : ∀ id ∈ s.given, id ∈ s'.given) : s'.Told c :=
  ⟨h.unnumbered, fun id hid => hgiven id (h.given id hid), h.sent, h.returned⟩

/-- A call that has an id keeps it. -/
theorem Advances.requestId_of_some (ha : s.Advances m c c') (ht : s.Told c) {id : UInt32}
    (hid : c.requestId = some id) : c'.requestId = some id := by
  cases hm : s.handsOut m with
  | none => rw [ha.requestId, hm]; exact hid
  | some new =>
    have hnone := ht.unnumbered (ha.numbered (by rw [hm]; rfl))
    exact nomatch hid.symm.trans hnone

theorem Inv.approved (h : s.Inv) {i : Nat} (hc : s.calls i = some c) {id : UInt32}
    (hid : c.requestId = some id) {b : Bool} (hb : (id, b) ∈ s.broadcasts) : c.answer = some b := by
  obtain ⟨j, c₁, hc₁, hid₁, hanswer⟩ := h.heard _ hb
  obtain rfl := h.distinct i j c c₁ id hc hc₁ hid hid₁
  obtain rfl := Option.some.inj (hc.symm.trans hc₁)
  exact hanswer

theorem Inv.told_move (h : s.Inv) {i : Nat} (hc : s.calls i = some c) (ha : s.Advances m c c')
    (hgiven : s'.given = s.given ++ (s.handsOut m).toList) : s'.Told c' where
  unnumbered hst := by
    obtain ⟨hearly, hm⟩ := ha.early hst
    rw [ha.requestId, hm]
    exact (h.told i c hc).unnumbered hearly
  given id hid := by
    rw [ha.requestId] at hid
    rw [hgiven]
    cases hm : s.handsOut m with
    | none => rw [hm] at hid; exact List.mem_append_left _ ((h.told i c hc).given id hid)
    | some new =>
      rw [hm] at hid
      obtain rfl := Option.some.inj hid
      exact List.mem_append_right _ (List.mem_singleton_self _)
  sent r hr := by
    rcases ha.sent r hr with hr | ⟨hm, hr⟩
    · exact ha.requestId_of_some (h.told i c hc) ((h.told i c hc).sent r hr)
    · obtain ⟨id, hid, hr⟩ := Option.bind_eq_some_iff.1 hr
      rw [ha.requestId, hm, AgentCallKind.requestId_of_request hr]
      exact hid
  returned hk hst := by
    rw [ha.kind] at hk
    obtain ⟨id, hid, hb⟩ := (ha.returned hst).resolve_left hk
    exact ha.answer.trans (h.approved hc hid hb)

theorem Inv.move (h : s.Inv) {i : Nat} (hz : s.ZeroOnce (.move i m)) (hc : s.calls i = some c)
    (ha : s.Advances m c c') (hn : (s.given ++ (s.handsOut m).toList).length < 2 ^ 32) :
    Inv { s with
      calls := Function.update s.calls i (some c')
      counter := if m = .fetchAdd then s.counter + 1 else s.counter
      given := s.given ++ (s.handsOut m).toList } where
  counted := by
    have hcount := h.counted
    by_cases hm : m = .fetchAdd
    · subst hm
      simp only [if_pos, handsOut, Option.toList_some, List.length_append, List.length_singleton, UInt32.toNat_add]
      have := Nat.mod_le (s.counter.toNat + UInt32.toNat 1) (2 ^ 32)
      have hone : UInt32.toNat 1 = 1 := rfl
      omega
    · simp only [if_neg hm, List.length_append]; omega
  below id hid := by
    have hcount := h.counted
    by_cases hm : m = .fetchAdd
    · subst hm
      simp only [handsOut, Option.toList_some, List.length_append, List.length_singleton] at hn
      have hsucc : (s.counter + 1).toNat = s.counter.toNat + 1 := by
        rw [UInt32.toNat_add]; exact Nat.mod_eq_of_lt (by have : UInt32.toNat 1 = 1 := rfl; omega)
      simp only [if_pos, hsucc]
      rcases List.mem_append.1 hid with hid | hid
      · exact (h.below id hid).imp_right fun hlt => by omega
      · obtain rfl := List.mem_singleton.1 hid
        exact .inr (by omega)
    · simp only [if_neg hm]
      rcases List.mem_append.1 hid with hid | hid
      · exact h.below id hid
      · cases m with
        | fetchAdd => exact absurd rfl hm
        | askId =>
          obtain ⟨-, hzero⟩ := Option.ite_none_left_eq_some.1 (Option.mem_toList.1 hid)
          exact .inl (Option.some.inj hzero).symm
        | _ => cases hid
  told j c₁ hj := by
    rcases calls_update hj with ⟨-, hj⟩ | ⟨-, hj⟩
    · obtain rfl := Option.some.inj hj
      exact h.told_move hc ha rfl
    · exact (h.told j c₁ hj).mono fun id hid => List.mem_append_left _ hid
  distinct := by
    -- an id that is handed out is new to all calls
    have hother : ∀ j c₁ id, j ≠ i → s.calls j = some c₁ → c₁.requestId = some id → c'.requestId ≠ some id := by
      intro j c₁ id hne hj hid hid'
      rw [ha.requestId] at hid'
      cases hm : s.handsOut m with
      | none =>
        rw [hm] at hid'
        exact hne (h.distinct j i c₁ c id hj hc hid hid')
      | some new =>
        rw [hm] at hid'
        obtain rfl := Option.some.inj hid'
        exact h.fresh hz hm ((h.told j c₁ hj).given _ hid)
    intro j k c₁ c₂ id hj hk hid₁ hid₂
    rcases calls_update hj with ⟨hji, hj⟩ | ⟨hji, hj⟩ <;> rcases calls_update hk with ⟨hki, hk⟩ | ⟨hki, hk⟩
    · rw [hji, hki]
    · obtain rfl := Option.some.inj hj
      exact absurd hid₁ (hother k c₂ id hki hk hid₂)
    · obtain rfl := Option.some.inj hk
      exact absurd hid₂ (hother j c₁ id hji hj hid₁)
    · exact h.distinct j k c₁ c₂ id hj hk hid₁ hid₂
  heard x hx := by
    obtain ⟨j, c₁, hj, hid, hanswer⟩ := h.heard x hx
    by_cases hji : j = i
    · subst hji
      obtain rfl := Option.some.inj (hc.symm.trans hj)
      exact ⟨j, c', Function.update_self .., ha.requestId_of_some (h.told j c hc) hid, ha.answer.trans hanswer⟩
    · exact ⟨j, c₁, (Function.update_of_ne hji ..).trans hj, hid, hanswer⟩

theorem Inv.enter (h : s.Inv) {i : Nat} (hi : s.calls i = none) (kind : AgentCallKind) (caller : Caller) :
    Inv { s with calls := Function.update s.calls i (some { kind, caller }) } where
  counted := h.counted
  below := h.below
  told j c₁ hj := by
    rcases calls_update hj with ⟨-, hj⟩ | ⟨-, hj⟩
    · obtain rfl := Option.some.inj hj
      exact ⟨fun _ => rfl, nofun, nofun, nofun⟩
    · exact (h.told j c₁ hj).mono fun _ => id
  distinct j k c₁ c₂ id hj hk hid₁ hid₂ := by
    rcases calls_update hj with ⟨-, hj⟩ | ⟨-, hj⟩
    · obtain rfl := Option.some.inj hj
      cases hid₁
    · rcases calls_update hk with ⟨-, hk⟩ | ⟨-, hk⟩
      · obtain rfl := Option.some.inj hk
        cases hid₂
      · exact h.distinct j k c₁ c₂ id hj hk hid₁ hid₂
  heard x hx := by
    obtain ⟨j, c₁, hj, hid, hanswer⟩ := h.heard x hx
    have hne : j ≠ i := by rintro rfl; exact nomatch hi.symm.trans hj
    exact ⟨j, c₁, (Function.update_of_ne hne ..).trans hj, hid, hanswer⟩

theorem Inv.answer (h : s.Inv) {i : Nat} (hc : s.calls i = some c) {request : SshAgentUIRequest}
    (hsent : c.sent = some request) (hnone : c.answer = none) (approved : Bool) :
    Inv { s with
      calls := Function.update s.calls i (some { c with answer := some approved })
      broadcasts := s.broadcasts ++ [(request.requestId, approved)] } where
  counted := h.counted
  below := h.below
  told j c₁ hj := by
    rcases calls_update hj with ⟨-, hj⟩ | ⟨-, hj⟩
    · obtain rfl := Option.some.inj hj
      have ht := h.told i c hc
      exact ⟨ht.unnumbered, ht.given, ht.sent,
        fun hk hst => nomatch (ht.returned hk hst).symm.trans hnone⟩
    · exact (h.told j c₁ hj).mono fun _ => id
  distinct j k c₁ c₂ id hj hk hid₁ hid₂ := by
    have hold : ∀ j c₁, Function.update s.calls i (some { c with answer := some approved }) j = some c₁ →
        ∃ c₀, s.calls j = some c₀ ∧ c₀.requestId = c₁.requestId := by
      intro j c₁ hj
      rcases calls_update hj with ⟨hji, hj⟩ | ⟨-, hj⟩
      · obtain rfl := Option.some.inj hj
        exact ⟨c, hji ▸ hc, rfl⟩
      · exact ⟨c₁, hj, rfl⟩
    obtain ⟨d₁, hd₁, he₁⟩ := hold j c₁ hj
    obtain ⟨d₂, hd₂, he₂⟩ := hold k c₂ hk
    exact h.distinct j k d₁ d₂ id hd₁ hd₂ (he₁.trans hid₁) (he₂.trans hid₂)
  heard x hx := by
    rcases List.mem_append.1 hx with hx | hx
    · obtain ⟨j, c₁, hj, hid, hanswer⟩ := h.heard x hx
      have hne : j ≠ i := by
        rintro rfl
        obtain rfl := Option.some.inj (hc.symm.trans hj)
        exact nomatch hanswer.symm.trans hnone
      exact ⟨j, c₁, (Function.update_of_ne hne ..).trans hj, hid, hanswer⟩
    · obtain rfl := List.mem_singleton.1 hx
      exact ⟨i, _, Function.update_self .., (h.told i c hc).sent request hsent, rfl⟩

variable {a : Action}

theorem given_length_le (hs : s.step a = some s') : s.given.length ≤ s'.given.length := by
  cases a with
  | start => obtain ⟨-, ⟨⟩⟩ := Option.ite_none_left_eq_some.1 hs; exact Nat.le_refl _
  | enter i kind caller => obtain ⟨-, ⟨⟩⟩ := Option.ite_none_left_eq_some.1 hs; exact Nat.le_refl _
  | move i m =>
    obtain ⟨c, -, hs⟩ := Option.bind_eq_some_iff.1 hs
    obtain ⟨c', -, ⟨⟩⟩ := Option.bind_eq_some_iff.1 hs
    exact List.length_append ▸ Nat.le_add_right ..
  | answer i approved =>
    obtain ⟨c, -, hs⟩ := Option.bind_eq_some_iff.1 hs
    obtain ⟨request, -, hs⟩ := Option.bind_eq_some_iff.1 hs
    obtain ⟨-, ⟨⟩⟩ := Option.ite_none_left_eq_some.1 hs
    exact Nat.le_refl _
  | _ => obtain rfl := Option.some.inj hs; exact Nat.le_refl _

theorem Inv.step (h : s.Inv) (hz : s.ZeroOnce a) (hs : s.step a = some s') (hn : s'.given.length < 2 ^ 32) :
    s'.Inv := by
  cases a with
  | start =>
    obtain ⟨-, ⟨⟩⟩ := Option.ite_none_left_eq_some.1 hs
    exact ⟨h.counted, h.below, fun i c hc => (h.told i c hc).mono fun _ => id, h.distinct, h.heard⟩
  | enter i kind caller =>
    obtain ⟨hi, ⟨⟩⟩ := Option.ite_none_left_eq_some.1 hs
    exact h.enter (Option.not_isSome_iff_eq_none.1 hi) kind caller
  | move i m =>
    obtain ⟨c, hc, hs⟩ := Option.bind_eq_some_iff.1 hs
    obtain ⟨c', ha, ⟨⟩⟩ := Option.bind_eq_some_iff.1 hs
    exact h.move hz hc (advance_cases ha) hn
  | answer i approved =>
    obtain ⟨c, hc, hs⟩ := Option.bind_eq_some_iff.1 hs
    obtain ⟨request, hsent, hs⟩ := Option.bind_eq_some_iff.1 hs
    obtain ⟨hfirst, ⟨⟩⟩ := Option.ite_none_left_eq_some.1 hs
    rw [Bool.or_eq_true, not_or] at hfirst
    exact h.answer hc hsent (Option.not_isSome_iff_eq_none.1 hfirst.1) approved
  | stop | serverExited | closeChannel | setNeedsUnlock value =>
    obtain rfl := Option.some.inj hs
    exact ⟨h.counted, h.below, fun i c hc => (h.told i c hc).mono fun _ => id, h.distinct, h.heard⟩

theorem Inv.initial : Inv {} where
  counted := by decide
  below _ h := nomatch h
  told _ _ h := nomatch h
  distinct _ _ _ _ _ h := nomatch h
  heard _ h := nomatch h

theorem inv_of_reach (h : Reach step ZeroOnce {} s) (hn : s.given.length < 2 ^ 32) : s.Inv := by
  induction h with
  | start => exact .initial
  | step _ hz hs ih => exact (ih (Nat.lt_of_le_of_lt (given_length_le hs) hn)).step hz hs hn

/-- While the id 0 is handed out once, no approval is taken for another request's. -/
theorem approvals_uncrossed (h : Reach step ZeroOnce {} s) (hn : s.given.length < 2 ^ 32) : s.Uncrossed :=
  fun i c hc hk hst => ((inv_of_reach h hn).told i c hc).returned hk hst

def gitCall : AgentCallKind := .confirm "deploy" (some ⟨.gitSigning, some "git"⟩)

def aliceGit : Caller := ⟨"git", 4242, false⟩

/-- A request and its approval, next to another one that is denied. -/
def twoCalls : List Action :=
  [.start, .enter 0 gitCall aliceGit, .enter 1 gitCall aliceGit, .move 0 .check, .move 1 .check,
    .move 1 .askId, .move 0 .askId, .move 0 .fetchAdd, .move 1 .fetchAdd, .move 0 .subscribe, .move 0 .send,
    .move 1 .subscribe, .move 1 .send, .answer 1 false, .answer 0 true, .move 0 .receive, .move 1 .receive,
    .move 0 .receive]

instance (s : Approvals) (a : Action) : Decidable (s.ZeroOnce a) := by
  cases a <;> unfold ZeroOnce <;> infer_instance

theorem replay_twoCalls : (Reach.replay step ZeroOnce {} twoCalls).isSome := by decide

theorem approvals_uncrossed_twoCalls :
    ∃ s : Approvals, Reach step ZeroOnce {} s ∧ (s.calls 0).map AgentCall.stage = some (.returned true) ∧
      (s.calls 1).map AgentCall.stage = some (.returned false) ∧ s.Uncrossed := by
  have hr := Reach.of_replay_isSome replay_twoCalls
  exact ⟨_, hr, by decide, by decide +kernel, approvals_uncrossed hr (by decide +kernel)⟩

/-- The first request waits for its approval when the agent stops under a second one, which then asks
with the id 0 as well. -/
def crossedCalls : List Action :=
  [.start, .enter 0 gitCall aliceGit, .move 0 .check, .move 0 .askId, .move 0 .fetchAdd, .move 0 .subscribe,
    .move 0 .send, .enter 1 gitCall aliceGit, .move 1 .check, .stop, .move 1 .askId, .move 1 .subscribe,
    .move 1 .send, .answer 0 true, .move 1 .receive]

theorem replay_crossedCalls : (Reach.replay step (fun _ _ => True) {} crossedCalls).isSome := by decide

theorem approvals_crossed :
    ¬∀ s : Approvals, Reach step (fun _ _ => True) {} s → s.given.length < 2 ^ 32 → s.Uncrossed := by
  intro h
  have hcrossed := h _ (Reach.of_replay_isSome replay_crossedCalls) (by decide) 1
  -- the second call returns true and nobody has answered it
  have hcall : (((Reach.replay step (fun _ _ => True) {} crossedCalls).get replay_crossedCalls).calls 1)
      = some { kind := gitCall, caller := aliceGit, stage := .returned true, requestId := some 0,
               sent := gitCall.request aliceGit 0 } := by decide
  exact nomatch hcrossed _ hcall nofun rfl

end Approvals

end SshWarden
