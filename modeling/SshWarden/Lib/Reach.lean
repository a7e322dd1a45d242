import Mathlib.Logic.Basic
import Mathlib.Tactic.Common

/-!
# Reachable states under a condition on the steps

A system is a partial step function: an action is possible in a state when it gives a next state.
`Reach step C s₀ s`: the state `s` is reached from `s₀` by steps each of which is taken in a state
where `C` allows the action. Where a condition looks back, `recorded` keeps the steps so far next to the
state, newest first, and `FollowedBy` says of such a list that nothing of a kind has been left unanswered.
-/

inductive Reach {σ α : Type} (step : σ → α → Option σ) (C : σ → α → Prop) (s₀ : σ) : σ → Prop where
  | start : Reach step C s₀ s₀
  | step {s s' : σ} {a : α} (h : Reach step C s₀ s) (hc : C s a) (hs : step s a = some s') :
      Reach step C s₀ s'

namespace Reach
variable {σ α : Type} {step : σ → α → Option σ} {C : σ → α → Prop} {s₀ s : σ}

theorem invariant {I : σ → Prop} (h : Reach step C s₀ s) (h₀ : I s₀)
    (hstep : ∀ s a s', I s → C s a → step s a = some s' → I s') : I s := by
  induction h with
  | start => exact h₀
  | step _ hc hs ih => exact hstep _ _ _ ih hc hs

theorem trans {s' : σ} (h : Reach step C s₀ s) (h' : Reach step C s s') : Reach step C s₀ s' := by
  induction h' with
  | start => exact h
  | step _ hc hs ih => exact ih.step hc hs

/-- The actions one after the other, each checked against the condition. -/
def replay (step : σ → α → Option σ) (C : σ → α → Prop) [∀ s a, Decidable (C s a)] : σ → List α → Option σ
  | s, [] => some s
  | s, a :: as => if C s a then (step s a).bind fun s' => replay step C s' as else none

theorem of_replay [∀ s a, Decidable (C s a)] {as : List α} (h : replay step C s₀ as = some s) :
    Reach step C s₀ s := by
  induction as generalizing s₀ with
  | nil => obtain rfl := Option.some.inj h; exact .start
  | cons a as ih =>
    unfold replay at h
    split at h
    · next hc =>
      obtain ⟨s₁, hs, hr⟩ := Option.bind_eq_some_iff.1 h
      exact (Reach.start.step hc hs).trans (ih hr)
    · cases h

theorem of_replay_isSome [∀ s a, Decidable (C s a)] {as : List α} (h : (replay step C s₀ as).isSome) :
    Reach step C s₀ ((replay step C s₀ as).get h) :=
  of_replay (Option.some_get h).symm

end Reach

/-- The system with its steps so far, newest first. -/
def recorded {σ α : Type} (step : σ → α → Option σ) (x : σ × List (σ × α)) (a : α) : Option (σ × List (σ × α)) :=
  (step x.1 a).map (·, (x.1, a) :: x.2)

/-- Every `P` is followed by a `Q`, in a list with the newest entry first. -/
def FollowedBy {β : Type} (P Q : β → Prop) : List β → Prop
  | [] => True
  | b :: older => ¬P b ∧ (Q b ∨ FollowedBy P Q older)

section
variable {β : Type} {P Q : β → Prop}

instance FollowedBy.decidable [DecidablePred P] [DecidablePred Q] : (l : List β) → Decidable (FollowedBy P Q l)
  | [] => inferInstanceAs (Decidable True)
  | b :: older =>
    have := FollowedBy.decidable older
    inferInstanceAs (Decidable (¬P b ∧ (Q b ∨ FollowedBy P Q older)))

theorem followedBy_iff {l : List β} :
    FollowedBy P Q l ↔ ∀ newer b older, l = newer ++ b :: older → P b → ∃ c ∈ newer, Q c := by
  induction l with
  | nil => exact ⟨fun _ newer b older h => absurd h (by simp), fun _ => trivial⟩
  | cons b l ih =>
    constructor
    · rintro ⟨hb, hrest⟩ newer c older h hc
      cases newer with
      | nil =>
        obtain ⟨rfl, -⟩ := List.cons.inj h
        exact absurd hc hb
      | cons d newer =>
        obtain ⟨rfl, rfl⟩ := List.cons.inj h
        rcases hrest with hq | hrest
        · exact ⟨b, List.mem_cons_self .., hq⟩
        · obtain ⟨e, he, hq⟩ := ih.1 hrest newer c older rfl hc
          exact ⟨e, List.mem_cons_of_mem _ he, hq⟩
    · intro h
      have hb : ¬P b := fun hb => by
        obtain ⟨c, hc, -⟩ := h [] b l rfl hb
        exact absurd hc List.not_mem_nil
      refine ⟨hb, or_iff_not_imp_left.2 fun hq => ih.2 fun newer c older hl hc => ?_⟩
      obtain ⟨d, hd, hqd⟩ := h (b :: newer) c older (by rw [hl]; rfl) hc
      rcases List.mem_cons.1 hd with rfl | hd
      · exact absurd hqd hq
      · exact ⟨d, hd, hqd⟩

/-- An entry of neither kind changes nothing. -/
theorem followedBy_skip {b : β} {l : List β} (hp : ¬P b) (hq : ¬Q b) :
    FollowedBy P Q (b :: l) ↔ FollowedBy P Q l := by
  simp [FollowedBy, hp, hq]

end
