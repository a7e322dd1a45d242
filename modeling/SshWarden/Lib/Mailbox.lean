import Mathlib.Data.List.Basic
import Mathlib.Data.List.Nodup
import Mathlib.Tactic.Common

/-!
# A mailbox with one server

Callers put one request each into a bounded queue. A server takes up one request after the other and replies to its
caller. When the server closes the mailbox, the callers whose requests are in the queue return at once, and those who
come later are refused.

Every caller that has been replied to was served once, in the order in which the requests came in, and a caller that
returns anything else was not served (`Inv.step`).
-/

namespace Mailbox

inductive Stage (ρ : Type)
  | sending
  | waiting
  | returned (r : ρ)

structure Caller (α ρ : Type) where
  request : α
  stage : Stage ρ := .sending

/-- The size of the queue, and what is returned without the server. -/
structure Rules (ρ : Type) where
  capacity : Nat
  refused : ρ
  dropped : ρ

inductive Action (α ρ : Type)
  | call (a : α)
  | send (i : Nat)
  | refuse (i : Nat)
  | take (i : Nat)
  | reply (r : ρ)
  | close

end Mailbox

/-- `sent`, `served` and `lost` are records: whose requests have got into the queue, who has been replied to, and whose
requests were in the queue when it was closed. -/
structure Mailbox (α ρ : Type) where
  callers : List (Mailbox.Caller α ρ) := []
  queue : List Nat := []
  serving : Option Nat := none
  closed : Bool := false
  sent : List Nat := []
  served : List (Nat × ρ) := []
  lost : List Nat := []

namespace Mailbox

variable {α ρ : Type} {R : Rules ρ} {m m' : Mailbox α ρ}

def isSending (m : Mailbox α ρ) (i : Nat) : Bool :=
  match m.callers[i]? with
  | some ⟨_, .sending⟩ => true
  | _ => false

def setStage (callers : List (Caller α ρ)) (i : Nat) (stage : Stage ρ) : List (Caller α ρ) :=
  callers.modify i fun c => { c with stage }

def step (R : Rules ρ) (m : Mailbox α ρ) : Action α ρ → Option (Mailbox α ρ)
  | .call a => some { m with callers := m.callers ++ [{ request := a }] }
  | .send i =>
    if m.isSending i ∧ m.closed = false ∧ m.queue.length < R.capacity then
      some { m with callers := setStage m.callers i .waiting, queue := m.queue ++ [i], sent := m.sent ++ [i] }
    else none
  | .refuse i =>
    if m.isSending i ∧ m.closed then
      some { m with callers := setStage m.callers i (.returned R.refused) }
    else none
  | .take i =>
    if m.closed = false ∧ m.serving = none ∧ m.queue.head? = some i then
      some { m with queue := m.queue.tail, serving := some i }
    else none
  | .reply r =>
    m.serving.map fun i =>
      { m with callers := setStage m.callers i (.returned r), serving := none, served := m.served ++ [(i, r)] }
  | .close =>
    if m.closed = false ∧ m.serving = none then
      some
        { m with
          callers := m.queue.foldl (fun callers i => setStage callers i (.returned R.dropped)) m.callers
          queue := []
          closed := true
          lost := m.queue }
    else none

theorem step_take {i : Nat} (h : m.step R (.take i) = some m') :
    m.closed = false ∧ m.serving = none ∧ m.queue.head? = some i ∧
      m' = { m with queue := m.queue.tail, serving := some i } := by
  obtain ⟨⟨hopen, hfree, hhead⟩, heq⟩ := Option.ite_none_right_eq_some.1 h
  exact ⟨hopen, hfree, hhead, (Option.some.inj heq).symm⟩

theorem step_reply {i : Nat} {r : ρ} (hi : m.serving = some i) (h : m.step R (.reply r) = some m') :
    m'.serving = none ∧ m'.served = m.served ++ [(i, r)] ∧ m'.queue = m.queue ∧ m'.closed = m.closed := by
  obtain ⟨j, hj, rfl⟩ := Option.map_eq_some_iff.1 h
  obtain rfl := Option.some.inj (hi.symm.trans hj)
  exact ⟨rfl, rfl, rfl, rfl⟩

theorem step_close (h : m.step R .close = some m') :
    m'.serving = none ∧ m'.served = m.served ∧ m'.closed = true := by
  obtain ⟨⟨-, hfree⟩, heq⟩ := Option.ite_none_right_eq_some.1 h
  obtain rfl := Option.some.inj heq
  exact ⟨hfree, rfl, rfl⟩

theorem exists_take {i : Nat} {rest : List Nat} (hopen : m.closed = false) (hfree : m.serving = none)
    (hqueue : m.queue = i :: rest) :
    ∃ m', m.step R (.take i) = some m' ∧ m'.serving = some i ∧ m'.queue = rest ∧ m'.closed = false := by
  refine ⟨_, if_pos ⟨hopen, hfree, by rw [hqueue]; rfl⟩, rfl, ?_, hopen⟩
  show m.queue.tail = rest
  rw [hqueue]
  rfl

theorem exists_reply {i : Nat} (h : m.serving = some i) (r : ρ) : ∃ m', m.step R (.reply r) = some m' := by
  show ∃ m', m.serving.map _ = some m'
  rw [h]
  exact ⟨_, rfl⟩

variable {callers : List (Caller α ρ)} {c : Caller α ρ} {i j : Nat} {stage : Stage ρ}

theorem getElem?_setStage : (setStage callers i stage)[j]? =
    if i = j then callers[j]?.map fun c => { c with stage } else callers[j]? := by
  rw [setStage, List.getElem?_modify]
  split <;> cases callers[j]? <;> rfl

theorem length_setStage : (setStage callers i stage).length = callers.length := List.length_modify ..

/-- The stage of a caller after its own update, and after that of another one. -/
theorem setStage_cases (h : (setStage callers i stage)[j]? = some c) :
    (i = j ∧ ∃ c₀, callers[j]? = some c₀ ∧ c = { c₀ with stage }) ∨ i ≠ j ∧ callers[j]? = some c := by
  rw [getElem?_setStage] at h
  split at h
  · next heq =>
    obtain ⟨c₀, hc₀, rfl⟩ := Option.map_eq_some_iff.1 h
    exact .inl ⟨heq, c₀, hc₀, rfl⟩
  · next hne => exact .inr ⟨hne, h⟩

theorem length_setStages (is : List Nat) :
    (is.foldl (fun callers i => setStage callers i stage) callers).length = callers.length := by
  induction is generalizing callers with
  | nil => rfl
  | cons i is ih => exact ih.trans length_setStage

theorem setStages_cases {is : List Nat}
    (h : (is.foldl (fun callers i => setStage callers i stage) callers)[j]? = some c) :
    (j ∈ is ∧ ∃ c₀, callers[j]? = some c₀ ∧ c = { c₀ with stage }) ∨ j ∉ is ∧ callers[j]? = some c := by
  induction is generalizing callers with
  | nil => exact .inr ⟨List.not_mem_nil, h⟩
  | cons i is ih =>
    rcases ih h with ⟨hmem, c₀, hc₀, rfl⟩ | ⟨hno, hc⟩
    · rcases setStage_cases hc₀ with ⟨-, c₁, hc₁, rfl⟩ | ⟨-, hc₁⟩
      · exact .inl ⟨.tail _ hmem, c₁, hc₁, rfl⟩
      · exact .inl ⟨.tail _ hmem, c₀, hc₁, rfl⟩
    · rcases setStage_cases hc with ⟨rfl, c₁, hc₁, rfl⟩ | ⟨hne, hc₁⟩
      · exact .inl ⟨.head _, c₁, hc₁, rfl⟩
      · refine .inr ⟨fun hin => ?_, hc₁⟩
        rcases List.mem_cons.1 hin with rfl | hin
        · exact hne rfl
        · exact hno hin

theorem exists_of_isSending (h : m.isSending i = true) : ∃ a, m.callers[i]? = some ⟨a, .sending⟩ := by
  unfold isSending at h
  split at h
  · next a hi => exact ⟨a, hi⟩
  · cases h

/-! ### What holds in every state -/

/-- Where a caller stands, by the records. -/
def Stands (R : Rules ρ) (m : Mailbox α ρ) (i : Nat) : Stage ρ → Prop
  | .sending => i ∉ m.sent
  | .waiting => m.serving = some i ∨ i ∈ m.queue
  | .returned r =>
    (i, r) ∈ m.served ∨ (i ∈ m.lost ∧ r = R.dropped) ∨ (i ∉ m.sent ∧ m.closed = true ∧ r = R.refused)

structure Inv (R : Rules ρ) (m : Mailbox α ρ) : Prop where
  order : m.sent = m.served.map Prod.fst ++ m.serving.toList ++ m.queue ++ m.lost
  nodup : m.sent.Nodup
  known : ∀ i ∈ m.sent, i < m.callers.length
  stands : ∀ i c, m.callers[i]? = some c → Stands R m i c.stage
  closed : m.closed = true → m.serving = none ∧ m.queue = []
  lost : m.closed = false → m.lost = []

theorem Inv.start (R : Rules ρ) : Inv R ({} : Mailbox α ρ) where
  order := rfl
  nodup := List.nodup_nil
  known _ hi := (List.not_mem_nil hi).elim
  stands _ _ hc := (Option.some_ne_none _ hc.symm).elim
  closed _ := ⟨rfl, rfl⟩
  lost _ := rfl

/-- A request is in one place only. -/
theorem Inv.places (h : Inv R m) : (m.served.map Prod.fst ++ m.serving.toList ++ m.queue ++ m.lost).Nodup :=
  h.order ▸ h.nodup

theorem Inv.mem_sent (h : Inv R m) :
    i ∈ m.sent ↔ i ∈ m.served.map Prod.fst ∨ m.serving = some i ∨ i ∈ m.queue ∨ i ∈ m.lost := by
  rw [h.order]
  simp

/-- Being replied to is served once. -/
theorem Inv.served_nodup (h : Inv R m) : (m.served.map Prod.fst).Nodup := by
  have hplaces := h.places
  rw [List.append_assoc, List.append_assoc] at hplaces
  exact hplaces.of_append_left

theorem Inv.step {a : Action α ρ} (h : Inv R m) (hs : m.step R a = some m') : Inv R m' := by
  have hsent := fun i => h.mem_sent (i := i)
  cases a with
  | call a =>
    obtain rfl := Option.some.inj hs
    refine ⟨h.order, h.nodup, fun i hi => ?_, fun i c hc => ?_, h.closed, h.lost⟩
    · have hlt := h.known i hi
      show i < (m.callers ++ [_]).length
      rw [List.length_append]
      omega
    · rcases Nat.lt_trichotomy i m.callers.length with hlt | rfl | hgt
      · exact h.stands i c ((List.getElem?_append_left hlt).symm.trans hc)
      · rw [List.getElem?_concat_length] at hc
        obtain rfl := Option.some.inj hc
        exact fun hin => absurd (h.known _ hin) (Nat.lt_irrefl _)
      · rw [List.getElem?_eq_none (by simp; omega)] at hc
        cases hc
  | send i =>
    obtain ⟨⟨hsending, hopen, -⟩, heq⟩ := Option.ite_none_right_eq_some.1 hs
    obtain rfl := Option.some.inj heq
    obtain ⟨a, hi⟩ := exists_of_isSending hsending
    have hnew : i ∉ m.sent := h.stands i _ hi
    have hlost := h.lost hopen
    refine ⟨?_, ?_, fun j hj => ?_, fun j c hc => ?_, fun hclosed => ?_, h.lost⟩
    · simp [h.order, hlost]
    · exact List.nodup_append'.2 ⟨h.nodup, List.nodup_singleton i, by simpa using hnew⟩
    · show j < (setStage ..).length
      rw [length_setStage]
      rcases List.mem_append.1 hj with hj | hj
      · exact h.known j hj
      · obtain rfl := List.mem_singleton.1 hj
        exact (List.getElem?_eq_some_iff.1 hi).1
    · rcases setStage_cases hc with ⟨rfl, c₀, -, rfl⟩ | ⟨hne, hc⟩
      · exact .inr (List.mem_append_right _ (List.mem_singleton_self _))
      · have hstands := h.stands j c hc
        cases hstage : c.stage with
        | sending =>
          rw [hstage] at hstands
          have hj : j ∉ m.sent := hstands
          simp [Stands, hj, Ne.symm hne]
        | waiting =>
          rw [hstage] at hstands
          exact hstands.imp_right (List.mem_append_left _)
        | returned r =>
          rw [hstage] at hstands
          rcases hstands with hserved | hdropped | ⟨-, hclosed, -⟩
          · exact .inl hserved
          · exact .inr (.inl hdropped)
          · rw [hopen] at hclosed
            cases hclosed
    · have hclosed : m.closed = true := hclosed
      rw [hopen] at hclosed
      cases hclosed
  | refuse i =>
    obtain ⟨⟨hsending, hclosed⟩, heq⟩ := Option.ite_none_right_eq_some.1 hs
    obtain rfl := Option.some.inj heq
    obtain ⟨a, hi⟩ := exists_of_isSending hsending
    refine ⟨h.order, h.nodup, fun j hj => ?_, fun j c hc => ?_, h.closed, h.lost⟩
    · show j < (setStage ..).length
      rw [length_setStage]
      exact h.known j hj
    · rcases setStage_cases hc with ⟨rfl, c₀, -, rfl⟩ | ⟨-, hc⟩
      · exact .inr (.inr ⟨h.stands i _ hi, hclosed, rfl⟩)
      · exact h.stands j c hc
  | take i =>
    obtain ⟨hopen, hfree, hhead, rfl⟩ := step_take hs
    obtain ⟨rest, hqueue⟩ : ∃ rest, m.queue = i :: rest := by
      cases hq : m.queue with
      | nil => rw [hq] at hhead; cases hhead
      | cons j rest => rw [hq] at hhead; obtain rfl := Option.some.inj hhead; exact ⟨rest, rfl⟩
    refine ⟨?_, h.nodup, h.known, fun j c hc => ?_, fun hclosed => ?_, h.lost⟩
    · simp [h.order, hfree, hqueue]
    · have hstands := h.stands j c hc
      cases hstage : c.stage with
      | sending => rw [hstage] at hstands; exact hstands
      | waiting =>
        rw [hstage] at hstands
        rcases hstands with hserving | hin
        · rw [hfree] at hserving
          cases hserving
        · rw [hqueue] at hin
          rcases List.mem_cons.1 hin with rfl | hin
          · exact .inl rfl
          · refine .inr ?_
            rwa [hqueue]
      | returned r => rw [hstage] at hstands; exact hstands
    · have hclosed : m.closed = true := hclosed
      rw [hopen] at hclosed
      cases hclosed
  | reply r =>
    obtain ⟨i, hserving, rfl⟩ := Option.map_eq_some_iff.1 hs
    refine ⟨?_, h.nodup, fun j hj => ?_, fun j c hc => ?_, fun hclosed => ⟨rfl, (h.closed hclosed).2⟩, h.lost⟩
    · simp [h.order, hserving]
    · show j < (setStage ..).length
      rw [length_setStage]
      exact h.known j hj
    · rcases setStage_cases hc with ⟨rfl, c₀, -, rfl⟩ | ⟨hne, hc⟩
      · exact .inl (List.mem_append_right _ (List.mem_singleton_self _))
      · have hstands := h.stands j c hc
        cases hstage : c.stage with
        | sending => rw [hstage] at hstands; exact hstands
        | waiting =>
          rw [hstage] at hstands
          rcases hstands with hj | hin
          · exact absurd (Option.some.inj (hserving.symm.trans hj)) hne
          · exact .inr hin
        | returned r' =>
          rw [hstage] at hstands
          exact hstands.imp_left (List.mem_append_left _)
  | close =>
    obtain ⟨⟨hopen, hfree⟩, heq⟩ := Option.ite_none_right_eq_some.1 hs
    obtain rfl := Option.some.inj heq
    have hlost := h.lost hopen
    refine ⟨?_, h.nodup, fun j hj => ?_, fun j c hc => ?_, fun _ => ⟨hfree, rfl⟩, fun hno => ?_⟩
    · simp [h.order, hlost]
    · show j < (List.foldl _ _ _ : List (Caller α ρ)).length
      rw [length_setStages]
      exact h.known j hj
    · rcases setStages_cases hc with ⟨hin, c₀, -, rfl⟩ | ⟨hno, hc⟩
      · exact .inr (.inl ⟨hin, rfl⟩)
      · have hstands := h.stands j c hc
        cases hstage : c.stage with
        | sending => rw [hstage] at hstands; exact hstands
        | waiting =>
          rw [hstage] at hstands
          rcases hstands with hserving | hin
          · exact .inl hserving
          · exact absurd hin hno
        | returned r =>
          rw [hstage] at hstands
          rcases hstands with hserved | ⟨hin, -⟩ | ⟨-, hclosed, -⟩
          · exact .inl hserved
          · rw [hlost] at hin
            exact (List.not_mem_nil hin).elim
          · rw [hopen] at hclosed
            cases hclosed
    · cases hno

/-- A request that has been sent and not served belongs to a caller that waits. -/
theorem Inv.waiting (h : Inv R m) (hi : m.serving = some i ∨ i ∈ m.queue) (hc : m.callers[i]? = some c) :
    c.stage = .waiting := by
  have hsent : i ∈ m.sent := h.mem_sent.2 (hi.elim (fun hs => .inr (.inl hs)) fun hq => .inr (.inr (.inl hq)))
  have hplaces := h.places
  have hserved : i ∉ m.served.map Prod.fst := by
    rw [List.append_assoc, List.append_assoc] at hplaces
    refine fun hin => List.disjoint_of_nodup_append hplaces hin ?_
    rcases hi with hi | hi <;> simp [hi]
  have hlost : i ∉ m.lost := by
    refine fun hin => List.disjoint_of_nodup_append hplaces ?_ hin
    rcases hi with hi | hi <;> simp [hi]
  have hstands := h.stands i c hc
  cases hstage : c.stage with
  | sending =>
    rw [hstage] at hstands
    exact absurd hsent hstands
  | waiting => rfl
  | returned r =>
    rw [hstage] at hstands
    rcases hstands with hin | ⟨hin, -⟩ | ⟨hno, -⟩
    · exact absurd (List.mem_map_of_mem hin) hserved
    · exact absurd hin hlost
    · exact absurd hsent hno

/-- Callers keep their requests and what they have returned, and what has been sent and served stays as it is. -/
structure Extends (m m' : Mailbox α ρ) : Prop where
  callers : ∀ (i : Nat) (c : Caller α ρ), m.callers[i]? = some c →
    ∃ c' : Caller α ρ, m'.callers[i]? = some c' ∧ c'.request = c.request ∧ ∀ r, c.stage = .returned r →
      c'.stage = .returned r
  sent : m.sent <+: m'.sent
  served : m.served <+: m'.served

theorem Extends.refl (m : Mailbox α ρ) : Extends m m :=
  ⟨fun _ c hc => ⟨c, hc, rfl, fun _ h => h⟩, List.prefix_rfl, List.prefix_rfl⟩

theorem Extends.trans {m₁ m₂ m₃ : Mailbox α ρ} (h : Extends m₁ m₂) (h' : Extends m₂ m₃) : Extends m₁ m₃ := by
  refine ⟨fun i c hc => ?_, h.sent.trans h'.sent, h.served.trans h'.served⟩
  obtain ⟨c₂, hc₂, hreq, hret⟩ := h.callers i c hc
  obtain ⟨c₃, hc₃, hreq', hret'⟩ := h'.callers i c₂ hc₂
  exact ⟨c₃, hc₃, hreq'.trans hreq, fun r hr => hret' r (hret r hr)⟩

/-- Only a caller that has not returned gets another stage. -/
theorem exists_of_setStage (hi : ∀ c, callers[i]? = some c → ∀ r, c.stage ≠ .returned r)
    (hc : callers[j]? = some c) :
    ∃ c', (setStage callers i stage)[j]? = some c' ∧ c'.request = c.request ∧
      ∀ r, c.stage = .returned r → c'.stage = .returned r := by
  rw [getElem?_setStage, hc]
  split
  · next heq => exact ⟨_, rfl, rfl, fun r hr => absurd hr (hi c (heq ▸ hc) r)⟩
  · exact ⟨c, rfl, rfl, fun _ h => h⟩

theorem exists_of_setStages {is : List Nat}
    (his : ∀ i ∈ is, ∀ c, callers[i]? = some c → ∀ r, c.stage ≠ .returned r) (hc : callers[j]? = some c) :
    ∃ c', (is.foldl (fun callers i => setStage callers i stage) callers)[j]? = some c' ∧ c'.request = c.request ∧
      ∀ r, c.stage = .returned r → c'.stage = .returned r := by
  obtain ⟨c', hc'⟩ : ∃ c', (is.foldl (fun callers i => setStage callers i stage) callers)[j]? = some c' :=
    ⟨_, List.getElem?_eq_getElem (by rw [length_setStages]; exact (List.getElem?_eq_some_iff.1 hc).1)⟩
  refine ⟨c', hc', ?_⟩
  rcases setStages_cases hc' with ⟨hin, c₀, hc₀, rfl⟩ | ⟨-, hsame⟩
  · obtain rfl := Option.some.inj (hc.symm.trans hc₀)
    exact ⟨rfl, fun r hr => absurd hr (his j hin c hc r)⟩
  · obtain rfl := Option.some.inj (hc.symm.trans hsame)
    exact ⟨rfl, fun _ h => h⟩

theorem Inv.extends {a : Action α ρ} (h : Inv R m) (hs : m.step R a = some m') : Extends m m' := by
  cases a with
  | call a =>
    obtain rfl := Option.some.inj hs
    refine ⟨fun i c hc => ⟨c, ?_, rfl, fun _ h => h⟩, List.prefix_rfl, List.prefix_rfl⟩
    exact (List.getElem?_append_left (List.getElem?_eq_some_iff.1 hc).1).trans hc
  | send i =>
    obtain ⟨⟨hsending, -⟩, heq⟩ := Option.ite_none_right_eq_some.1 hs
    obtain rfl := Option.some.inj heq
    obtain ⟨a, hi⟩ := exists_of_isSending hsending
    refine ⟨fun j c hc => exists_of_setStage (fun c₀ hc₀ r hr => ?_) hc, List.prefix_append .., List.prefix_rfl⟩
    obtain rfl := Option.some.inj (hi.symm.trans hc₀)
    cases hr
  | refuse i =>
    obtain ⟨⟨hsending, -⟩, heq⟩ := Option.ite_none_right_eq_some.1 hs
    obtain rfl := Option.some.inj heq
    obtain ⟨a, hi⟩ := exists_of_isSending hsending
    refine ⟨fun j c hc => exists_of_setStage (fun c₀ hc₀ r hr => ?_) hc, List.prefix_rfl, List.prefix_rfl⟩
    obtain rfl := Option.some.inj (hi.symm.trans hc₀)
    cases hr
  | take i =>
    obtain ⟨-, -, -, rfl⟩ := step_take hs
    exact ⟨fun j c hc => ⟨c, hc, rfl, fun _ h => h⟩, List.prefix_rfl, List.prefix_rfl⟩
  | reply r =>
    obtain ⟨i, hserving, rfl⟩ := Option.map_eq_some_iff.1 hs
    refine ⟨fun j c hc => exists_of_setStage (fun c₀ hc₀ r hr => ?_) hc, List.prefix_rfl, List.prefix_append ..⟩
    rw [h.waiting (.inl hserving) hc₀] at hr
    cases hr
  | close =>
    obtain ⟨-, heq⟩ := Option.ite_none_right_eq_some.1 hs
    obtain rfl := Option.some.inj heq
    refine ⟨fun j c hc => exists_of_setStages (fun i hi c₀ hc₀ r hr => ?_) hc, List.prefix_rfl, List.prefix_rfl⟩
    rw [h.waiting (.inr hi) hc₀] at hr
    cases hr

end Mailbox
