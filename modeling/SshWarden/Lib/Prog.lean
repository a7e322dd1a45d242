import Mathlib.Logic.Basic
import Mathlib.Tactic.Common

/-!
# Programs as trees of operations

`Prog S α` is a program over the operations of the signature `S`: it either returns, or performs an
operation and continues with the answer. A `Machine` says which answers an operation may get in a
state and what the state is afterwards; everything it does not decide (a network reply, a user's
click) is a free answer, so a statement about all runs is a statement about all outcomes.

`Steps` are the partial runs with their trace, and `wp M D p Q s` says that every run of `p` from
`s` meets `D` before each operation and `Q` when it returns. `D` is what holds wherever the program
may be stopped: a run abandoned in the middle is a `Steps` that does not end in `ret`.
-/

/-- A list is cut in one way only before an element the rest of it does not have. -/
theorem append_cons_inj {α : Type} {P : α → Prop} {l l' m m' : List α} {a b : α}
    (h : l ++ a :: m = l' ++ b :: m') (hb : P b) (hl : ∀ x ∈ l, ¬P x) (hm : ∀ x ∈ m, ¬P x) :
    l = l' ∧ a :: m = b :: m' := by
  rcases List.append_eq_append_iff.1 h with ⟨c, rfl, hc⟩ | ⟨c, rfl, hc⟩
  · cases c with
    | nil => exact ⟨(List.append_nil _).symm, hc⟩
    | cons x c =>
      obtain ⟨-, rfl⟩ := List.cons.inj hc
      exact absurd hb (hm b (List.mem_append_right _ (List.mem_cons_self ..)))
  · cases c with
    | nil => exact ⟨List.append_nil _, hc.symm⟩
    | cons x c =>
      obtain ⟨rfl, -⟩ := List.cons.inj hc
      exact absurd hb (hl b (List.mem_append_right _ (List.mem_cons_self ..)))

/-- An element of two lists put together lies in the first or in the second. -/
theorem append_eq_append_cons {α : Type} {l l' m m' : List α} {a : α} (h : l ++ l' = m ++ a :: m') :
    (∃ c, l = m ++ a :: c ∧ m' = c ++ l') ∨ ∃ c, m = l ++ c ∧ l' = c ++ a :: m' := by
  rcases List.append_eq_append_iff.1 h with ⟨c, rfl, hc⟩ | ⟨c, rfl, hc⟩
  · exact .inr ⟨c, rfl, hc⟩
  · cases c with
    | nil => exact .inr ⟨[], by simp, hc.symm⟩
    | cons x c =>
      obtain ⟨rfl, rfl⟩ := List.cons.inj hc
      exact .inl ⟨c, rfl, rfl⟩

/-- The operations of a program and the type of what each one answers. -/
structure Sig where
  Op : Type
  Ans : Op → Type

/-- A performed operation with its answer. -/
abbrev Sig.Event (S : Sig) : Type := (o : S.Op) × S.Ans o

inductive Prog (S : Sig) (α : Type) : Type where
  | ret (a : α)
  | vis (o : S.Op) (k : S.Ans o → Prog S α)

namespace Prog
variable {S : Sig} {α β γ : Type}

def bind : Prog S α → (α → Prog S β) → Prog S β
  | ret a, f => f a
  | vis o k, f => vis o fun a => (k a).bind f

instance : Monad (Prog S) where
  pure := ret
  bind := bind

/-- Perform one operation and return its answer. -/
def perform (o : S.Op) : Prog S (S.Ans o) := vis o ret

/-- `if c { p }`. -/
def when (c : Bool) (p : Prog S Unit) : Prog S Unit := if c then p else ret ()

@[simp] theorem pure_eq (a : α) : (pure a : Prog S α) = ret a := rfl

@[simp] theorem ret_bind (a : α) (f : α → Prog S β) : (ret a >>= f) = f a := rfl

@[simp] theorem vis_bind (o : S.Op) (k : S.Ans o → Prog S α) (f : α → Prog S β) :
    (vis o k >>= f) = vis o fun a => k a >>= f := rfl

@[simp] theorem perform_bind (o : S.Op) (f : S.Ans o → Prog S β) : (perform o >>= f) = vis o f := rfl

theorem bind_ret (p : Prog S α) : (p >>= ret) = p := by
  induction p with
  | ret a => rfl
  | vis o k ih => simp only [vis_bind, ih]

theorem bind_assoc (p : Prog S α) (f : α → Prog S β) (g : β → Prog S γ) :
    (p >>= f >>= g) = p >>= fun a => f a >>= g := by
  induction p with
  | ret a => rfl
  | vis o k ih => simp only [vis_bind, ih]

instance : LawfulMonad (Prog S) :=
  LawfulMonad.mk' _ (fun p => bind_ret p) (fun _ _ => rfl) bind_assoc

end Prog

/-- `ready o s a`: in state `s` the operation `o` may be answered with `a`; the state is then
`next o s a`. -/
structure Machine (S : Sig) (σ : Type) where
  ready : (o : S.Op) → σ → S.Ans o → Prop
  next : (o : S.Op) → σ → S.Ans o → σ

namespace Machine
variable {S : Sig} {σ : Type}

/-- The machine `M` in an environment that only gives the answers in `A`. -/
def restrict (M : Machine S σ) (A : S.Event → Prop) : Machine S σ where
  ready o s a := M.ready o s a ∧ A ⟨o, a⟩
  next := M.next

/-- The machine `M` that performs an operation only where `G` allows it. -/
def guard (M : Machine S σ) (G : S.Op → σ → Prop) : Machine S σ where
  ready o s a := M.ready o s a ∧ G o s
  next := M.next

/-- Every event of the list finds `G` in the state the events before it lead to. -/
def Meets (M : Machine S σ) (G : S.Op → σ → Prop) : σ → List S.Event → Prop
  | _, [] => True
  | s, e :: tr => G e.1 s ∧ M.Meets G (M.next e.1 s e.2) tr

theorem Meets.of_forall {M : Machine S σ} {G : S.Op → σ → Prop} (h : ∀ o s, G o s) (s : σ)
    (tr : List S.Event) : M.Meets G s tr := by
  induction tr generalizing s with
  | nil => trivial
  | cons e tr ih => exact ⟨h _ _, ih _⟩

theorem Meets.mono {M : Machine S σ} {G G' : S.Op → σ → Prop} (hG : ∀ o s, G o s → G' o s) {s : σ}
    {tr : List S.Event} (h : M.Meets G s tr) : M.Meets G' s tr := by
  induction tr generalizing s with
  | nil => trivial
  | cons e tr ih => exact ⟨hG _ _ h.1, ih h.2⟩

instance Meets.decidable (M : Machine S σ) (G : S.Op → σ → Prop) [∀ o s, Decidable (G o s)] :
    (s : σ) → (tr : List S.Event) → Decidable (M.Meets G s tr)
  | _, [] => inferInstanceAs (Decidable True)
  | s, e :: tr =>
    have := Meets.decidable M G (M.next e.1 s e.2) tr
    inferInstanceAs (Decidable (G e.1 s ∧ M.Meets G (M.next e.1 s e.2) tr))

/-- The machine `M` with a summary of the events so far next to its state. -/
def track {τ : Type} (M : Machine S σ) (f : τ → S.Event → τ) : Machine S (σ × τ) where
  ready o x a := M.ready o x.1 a
  next o x a := (M.next o x.1 a, f x.2 ⟨o, a⟩)

/-- The machine `M` with the events so far next to its state. -/
def log (M : Machine S σ) : Machine S (σ × List S.Event) := M.track fun past e => past ++ [e]

end Machine

namespace Prog
variable {S : Sig} {σ α β : Type}

/-- The partial runs of a program, with their trace. -/
inductive Steps (M : Machine S σ) : Prog S α → σ → List S.Event → Prog S α → σ → Prop where
  | refl (p : Prog S α) (s : σ) : Steps M p s [] p s
  | step {o : S.Op} {k : S.Ans o → Prog S α} {s : σ} {a : S.Ans o} {tr : List S.Event}
      {p : Prog S α} {s' : σ} (ha : M.ready o s a) (h : Steps M (k a) (M.next o s a) tr p s') :
      Steps M (vis o k) s (⟨o, a⟩ :: tr) p s'

theorem Steps.track {τ : Type} {M : Machine S σ} {p p' : Prog S α} {s s' : σ} {tr : List S.Event}
    (h : Steps M p s tr p' s') (f : τ → S.Event → τ) (t : τ) :
    Steps (M.track f) p (s, t) tr p' (s', tr.foldl f t) := by
  induction h generalizing t with
  | refl => exact .refl _ _
  | step ha _ ih => exact .step ha (ih _)

theorem Steps.of_log {M : Machine S σ} {p p' : Prog S α} {x x' : σ × List S.Event} {tr : List S.Event}
    (h : Steps M.log p x tr p' x') : Steps M p x.1 tr p' x'.1 ∧ x'.2 = x.2 ++ tr := by
  induction h with
  | refl => exact ⟨.refl _ _, (List.append_nil _).symm⟩
  | step ha _ ih => exact ⟨.step ha ih.1, by rw [ih.2]; simp [Machine.log, Machine.track]⟩

theorem Steps.log {M : Machine S σ} {p p' : Prog S α} {s s' : σ} {tr : List S.Event}
    (h : Steps M p s tr p' s') (past : List S.Event) : Steps M.log p (s, past) tr p' (s', past ++ tr) := by
  induction h generalizing past with
  | refl => rw [List.append_nil]; exact .refl _ _
  | @step o k s a tr p s' ha _ ih =>
    have hrest := ih (past ++ [⟨o, a⟩])
    rw [List.append_assoc] at hrest
    exact .step ha hrest

theorem Steps.of_track {τ : Type} {M : Machine S σ} {f : τ → S.Event → τ} {p p' : Prog S α} {x x' : σ × τ}
    {tr : List S.Event} (h : Steps (M.track f) p x tr p' x') :
    Steps M p x.1 tr p' x'.1 ∧ x'.2 = tr.foldl f x.2 := by
  induction h with
  | refl => exact ⟨.refl _ _, rfl⟩
  | step ha _ ih => exact ⟨.step ha ih.1, ih.2⟩

theorem Steps.of_restrict {M : Machine S σ} {A : S.Event → Prop} {p p' : Prog S α} {s s' : σ}
    {tr : List S.Event} (h : Steps (M.restrict A) p s tr p' s') : Steps M p s tr p' s' ∧ ∀ e ∈ tr, A e := by
  induction h with
  | refl => exact ⟨.refl _ _, fun _ he => nomatch he⟩
  | step ha _ ih => exact ⟨.step ha.1 ih.1, List.forall_mem_cons.2 ⟨ha.2, ih.2⟩⟩

/-- A complete run of a sequence is cut where the first program has returned. -/
theorem Steps.of_bind {M : Machine S σ} {p : Prog S α} {f : α → Prog S β} {s s' : σ} {tr : List S.Event} {b : β}
    (h : Steps M (p >>= f) s tr (ret b) s') :
    ∃ pre post a s₁, Steps M p s pre (ret a) s₁ ∧ Steps M (f a) s₁ post (ret b) s' ∧ tr = pre ++ post := by
  induction p generalizing s tr with
  | ret a => exact ⟨[], tr, a, s, .refl _ s, h, rfl⟩
  | vis o k ih =>
    rw [vis_bind] at h
    cases h with
    | step ha h =>
      obtain ⟨pre, post, a, s₁, hp, hf, rfl⟩ := ih _ h
      exact ⟨_, post, a, s₁, .step ha hp, hf, rfl⟩

/-- A run is cut where one of its events is performed. -/
theorem Steps.at_event {M : Machine S σ} {p p' : Prog S α} {s s' : σ} {pre post : List S.Event} {e : S.Event}
    (h : Steps M p s (pre ++ e :: post) p' s') : ∃ k s₁, Steps M p s pre (vis e.1 k) s₁ := by
  induction pre generalizing p s with
  | nil =>
    cases h with
    | step ha h => exact ⟨_, s, .refl _ s⟩
  | cons e' pre ih =>
    cases h with
    | step ha h =>
      obtain ⟨k, s₁, hs⟩ := ih h
      exact ⟨k, s₁, .step ha hs⟩

/-- A run in which every event is in `A`. -/
theorem Steps.restrict {M : Machine S σ} {p p' : Prog S α} {s s' : σ} {tr : List S.Event}
    {A : S.Event → Prop} (h : Steps M p s tr p' s') (hA : ∀ e ∈ tr, A e) :
    Steps (M.restrict A) p s tr p' s' := by
  induction h with
  | refl => exact .refl _ _
  | step ha _ ih =>
    exact .step ⟨ha, hA _ (List.mem_cons_self ..)⟩ (ih fun e he => hA e (List.mem_cons_of_mem _ he))

theorem Steps.guard {M : Machine S σ} {G : S.Op → σ → Prop} {p p' : Prog S α} {s s' : σ}
    {tr : List S.Event} (h : Steps M p s tr p' s') (hG : M.Meets G s tr) :
    Steps (M.guard G) p s tr p' s' := by
  induction h with
  | refl => exact .refl _ _
  | step ha _ ih => exact .step ⟨ha, hG.1⟩ (ih hG.2)

/-- Where every operation can be answered a program can be run to its end. -/
theorem exists_steps_ret {M : Machine S σ} (h : ∀ o s, ∃ a, M.ready o s a) (p : Prog S α) (s : σ) :
    ∃ tr a s', Steps M p s tr (ret a) s' := by
  induction p generalizing s with
  | ret a => exact ⟨[], a, s, .refl _ s⟩
  | vis o k ih =>
    obtain ⟨x, hx⟩ := h o s
    obtain ⟨tr, a, s', hs⟩ := ih x (M.next o s x)
    exact ⟨_, a, s', .step hx hs⟩

/-- Every run of `p` from `s` meets `D` before each operation and `Q` on return. -/
def wp (M : Machine S σ) (D : S.Op → σ → Prop) : Prog S α → (α → σ → Prop) → σ → Prop
  | ret a, Q, s => Q a s
  | vis o k, Q, s => D o s ∧ ∀ a, M.ready o s a → wp M D (k a) Q (M.next o s a)

variable {M : Machine S σ} {D D' : S.Op → σ → Prop} {Q Q' : α → σ → Prop} {s s' : σ}

@[simp] theorem wp_ret (a : α) : wp M D (ret a) Q s ↔ Q a s := Iff.rfl

@[simp] theorem wp_vis (o : S.Op) (k : S.Ans o → Prog S α) :
    wp M D (vis o k) Q s ↔ D o s ∧ ∀ a, M.ready o s a → wp M D (k a) Q (M.next o s a) := Iff.rfl

@[simp] theorem wp_perform (o : S.Op) (Q : S.Ans o → σ → Prop) :
    wp M D (perform o) Q s ↔ D o s ∧ ∀ a, M.ready o s a → Q a (M.next o s a) := Iff.rfl

@[simp] theorem wp_bind (p : Prog S α) (f : α → Prog S β) (Q : β → σ → Prop) :
    wp M D (p >>= f) Q s ↔ wp M D p (fun a s' => wp M D (f a) Q s') s := by
  induction p generalizing s with
  | ret a => rfl
  | vis o k ih => simp only [vis_bind, wp_vis, ih]

theorem wp_perform_bind {o : S.Op} {f : S.Ans o → Prog S β} {Q : β → σ → Prop} :
    wp M D (perform o >>= f) Q s ↔ D o s ∧ ∀ a, M.ready o s a → wp M D (f a) Q (M.next o s a) := Iff.rfl

theorem wp_ite (c : Prop) [Decidable c] (p q : Prog S α) :
    wp M D (if c then p else q) Q s ↔ (c → wp M D p Q s) ∧ (¬c → wp M D q Q s) := by
  by_cases h : c <;> simp [h]

/-- What holds of all partial runs holds of the program. -/
theorem wp_of_steps {p : Prog S α} (hD : ∀ tr o k s', Steps M p s tr (vis o k) s' → D o s')
    (hQ : ∀ tr a s', Steps M p s tr (ret a) s' → Q a s') : wp M D p Q s := by
  induction p generalizing s with
  | ret a => exact hQ [] a s (.refl _ s)
  | vis o k ih =>
    refine ⟨hD [] o k s (.refl _ s), fun a ha => ih a ?_ ?_⟩
    · exact fun tr o' k' s' h => hD _ o' k' s' (.step ha h)
    · exact fun tr b s' h => hQ _ b s' (.step ha h)

namespace wp

theorem mono {p : Prog S α} (h : wp M D p Q s) (hD : ∀ o s, D o s → D' o s)
    (hQ : ∀ a s, Q a s → Q' a s) : wp M D' p Q' s := by
  induction p generalizing s with
  | ret a => exact hQ a s h
  | vis o k ih => exact ⟨hD o s h.1, fun a ha => ih a (h.2 a ha)⟩

theorem post {p : Prog S α} (h : wp M D p Q s) (hQ : ∀ a s, Q a s → Q' a s) : wp M D p Q' s :=
  h.mono (fun _ _ h => h) hQ

theorem and {p : Prog S α} (h : wp M D p Q s) (h' : wp M D' p Q' s) :
    wp M (fun o s => D o s ∧ D' o s) p (fun a s => Q a s ∧ Q' a s) s := by
  induction p generalizing s with
  | ret a => exact ⟨h, h'⟩
  | vis o k ih => exact ⟨⟨h.1, h'.1⟩, fun a ha => ih a (h.2 a ha) (h'.2 a ha)⟩

/-- What a program still promises after some of its operations. -/
theorem steps {p p' : Prog S α} {tr : List S.Event} (h : wp M D p Q s) (hs : Steps M p s tr p' s') :
    wp M D p' Q s' := by
  induction hs with
  | refl => exact h
  | step ha _ ih => exact ih (h.2 _ ha)

theorem of_ret {p : Prog S α} {tr : List S.Event} {a : α} (h : wp M D p Q s)
    (hs : Steps M p s tr (ret a) s') : Q a s' :=
  h.steps hs

/-- Every operation of a run met `D`. -/
theorem mem_steps {p p' : Prog S α} {tr : List S.Event} (h : wp M D p Q s) (hs : Steps M p s tr p' s') :
    ∀ e ∈ tr, ∃ x, D e.1 x := by
  induction hs with
  | refl => simp
  | step ha _ ih =>
    intro e he
    rcases List.mem_cons.1 he with rfl | he
    · exact ⟨_, h.1⟩
    · exact ih (h.2 _ ha) e he

theorem at_op {p : Prog S α} {tr : List S.Event} {o : S.Op} {k : S.Ans o → Prog S α}
    (h : wp M D p Q s) (hs : Steps M p s tr (vis o k) s') : D o s' :=
  (h.steps hs).1

/-- Before every event of the trace `B` holds, with the events so far. -/
theorem before {B : S.Op → σ × List S.Event → Prop} {p p' : Prog S α} {R : α → σ × List S.Event → Prop}
    {past tr pre post : List S.Event} {e : S.Event} (h : wp M.log B p R (s, past)) (hs : Steps M p s tr p' s')
    (htr : tr = pre ++ e :: post) : ∃ s'', B e.1 (s'', past ++ pre) := by
  induction hs generalizing past pre with
  | refl => exact absurd htr.symm (by simp)
  | step ha _ ih =>
    cases pre with
    | nil =>
      obtain ⟨rfl, -⟩ := List.cons.inj htr
      exact ⟨_, (List.append_nil past).symm ▸ h.1⟩
    | cons e' pre =>
      obtain ⟨rfl, htail⟩ := List.cons.inj htr
      obtain ⟨s'', hD⟩ := ih (h.2 _ ha) htail
      exact ⟨s'', by simpa using hD⟩

/-- What holds next to a summary of the events holds without it. -/
theorem of_track {τ : Type} {f : τ → S.Event → τ} {t : τ} {p : Prog S α}
    (h : wp (M.track f) (fun o x => D o x.1) p (fun a x => Q a x.1) (s, t)) : wp M D p Q s := by
  induction p generalizing s t with
  | ret a => exact h
  | vis o k ih => exact ⟨h.1, fun a ha => ih a (h.2 a ha)⟩

/-- What every operation keeps every program keeps. -/
theorem of_keeps {I : σ → Prop} (hI : ∀ o s a, I s → M.ready o s a → I (M.next o s a)) (p : Prog S α)
    (hs : I s) : wp M (fun _ _ => True) p (fun _ => I) s := by
  induction p generalizing s with
  | ret a => exact hs
  | vis o k ih => exact ⟨trivial, fun a ha => ih a (hI o s a hs ha)⟩

end wp

/-- Some run of `p` from `s` returns with `Q`. -/
def may (M : Machine S σ) : Prog S α → (α → σ → Prop) → σ → Prop
  | ret a, Q, s => Q a s
  | vis o k, Q, s => ∃ a, M.ready o s a ∧ may M (k a) Q (M.next o s a)

/-- Some run of `p` from `s` comes to an operation with `B`. -/
def mayMeet (M : Machine S σ) (B : S.Op → σ → Prop) : Prog S α → σ → Prop
  | ret _, _ => False
  | vis o k, s => B o s ∨ ∃ a, M.ready o s a ∧ mayMeet M B (k a) (M.next o s a)

@[simp] theorem may_vis (o : S.Op) (k : S.Ans o → Prog S α) :
    may M (vis o k) Q s ↔ ∃ a, M.ready o s a ∧ may M (k a) Q (M.next o s a) := Iff.rfl

@[simp] theorem may_bind (p : Prog S α) (f : α → Prog S β) (Q : β → σ → Prop) :
    may M (p >>= f) Q s ↔ may M p (fun a s' => may M (f a) Q s') s := by
  induction p generalizing s with
  | ret a => rfl
  | vis o k ih => simp only [vis_bind, may_vis, ih]

theorem may_post {p : Prog S α} (h : may M p Q s) (hQ : ∀ a s, Q a s → Q' a s) : may M p Q' s := by
  induction p generalizing s with
  | ret a => exact hQ a s h
  | vis o k ih =>
    obtain ⟨a, ha, h⟩ := h
    exact ⟨a, ha, ih a h⟩

theorem may.exists_steps {p : Prog S α} (h : may M p Q s) : ∃ tr a s', Steps M p s tr (ret a) s' ∧ Q a s' := by
  induction p generalizing s with
  | ret a => exact ⟨[], a, s, .refl _ s, h⟩
  | vis o k ih =>
    obtain ⟨a, ha, h⟩ := h
    obtain ⟨tr, b, s', hs, hQ⟩ := ih a h
    exact ⟨_, b, s', .step ha hs, hQ⟩

/-- Where every operation can be answered, what all runs do some run does. -/
theorem wp.may {p : Prog S α} (h : wp M D p Q s) (hM : ∀ o s, ∃ a, M.ready o s a) : may M p Q s := by
  induction p generalizing s with
  | ret a => exact h
  | vis o k ih =>
    obtain ⟨a, ha⟩ := hM o s
    exact ⟨a, ha, ih a (h.2 a ha)⟩

theorem may_perform_bind {o : S.Op} {f : S.Ans o → Prog S β} {Q : β → σ → Prop} :
    may M (perform o >>= f) Q s ↔ ∃ a, M.ready o s a ∧ may M (f a) Q (M.next o s a) := Iff.rfl

theorem mayMeet_perform_bind {B : S.Op → σ → Prop} {o : S.Op} {f : S.Ans o → Prog S β} :
    mayMeet M B (perform o >>= f) s ↔
      B o s ∨ ∃ a, M.ready o s a ∧ mayMeet M B (f a) (M.next o s a) := Iff.rfl

/-- The first program may return into a state where the rest may meet `B`. -/
theorem mayMeet_bind_right {B : S.Op → σ → Prop} {p : Prog S α} {f : α → Prog S β}
    (h : may M p (fun a s' => mayMeet M B (f a) s') s) : mayMeet M B (p >>= f) s := by
  induction p generalizing s with
  | ret a => exact h
  | vis o k ih =>
    obtain ⟨a, ha, h⟩ := h
    exact .inr ⟨a, ha, ih a h⟩

theorem mayMeet_bind_left {B : S.Op → σ → Prop} {p : Prog S α} {f : α → Prog S β}
    (h : mayMeet M B p s) : mayMeet M B (p >>= f) s := by
  induction p generalizing s with
  | ret a => exact h.elim
  | vis o k ih => exact h.imp_right fun ⟨a, ha, h⟩ => ⟨a, ha, ih a h⟩

theorem mayMeet_iff_steps {B : S.Op → σ → Prop} {p : Prog S α} :
    mayMeet M B p s ↔ ∃ tr o k s', Steps M p s tr (vis o k) s' ∧ B o s' := by
  constructor
  · intro h
    induction p generalizing s with
    | ret a => exact h.elim
    | vis o k ih =>
      rcases h with h | ⟨a, ha, h⟩
      · exact ⟨[], o, k, s, .refl _ s, h⟩
      · obtain ⟨tr, o', k', s', hs, hB⟩ := ih a h
        exact ⟨_, o', k', s', .step ha hs, hB⟩
  · rintro ⟨tr, o, k, s', hs, hB⟩
    generalize hq : vis o k = q at hs
    induction hs with
    | refl => subst hq; exact .inl hB
    | step ha _ ih => exact .inr ⟨_, ha, ih hB hq⟩

/-- Every operation of `p`, whatever the answers, is in `P`. -/
def Only (P : S.Op → Prop) : Prog S α → Prop
  | ret _ => True
  | vis o k => P o ∧ ∀ a, Only P (k a)

namespace Only
variable {P P' : S.Op → Prop}

@[simp] theorem ret_iff (a : α) : Only P (ret a : Prog S α) ↔ True := Iff.rfl

@[simp] theorem vis_iff (o : S.Op) (k : S.Ans o → Prog S α) :
    Only P (vis o k) ↔ P o ∧ ∀ a, Only P (k a) := Iff.rfl

@[simp] theorem perform_iff (o : S.Op) : Only P (perform o : Prog S _) ↔ P o := by
  simp [perform]

theorem bind {p : Prog S α} {f : α → Prog S β} (h : Only P p) (hf : ∀ a, Only P (f a)) :
    Only P (p >>= f) := by
  induction p with
  | ret a => exact hf a
  | vis o k ih => exact ⟨h.1, fun a => ih a (h.2 a)⟩

theorem ite {c : Prop} [Decidable c] {p q : Prog S α} (hp : Only P p) (hq : Only P q) :
    Only P (if c then p else q) := by
  split <;> assumption

theorem when {c : Bool} {p : Prog S Unit} (h : Only P p) : Only P (when c p) := ite h trivial

theorem mono {p : Prog S α} (h : Only P p) (hP : ∀ o, P o → P' o) : Only P' p := by
  induction p with
  | ret a => trivial
  | vis o k ih => exact ⟨hP o h.1, fun a => ih a (h.2 a)⟩

/-- A predicate that every operation of the program keeps is kept by the program, and holds
wherever it is stopped. -/
theorem wp {I : σ → Prop} {p : Prog S α} (h : Only P p)
    (hI : ∀ o s a, P o → I s → M.ready o s a → I (M.next o s a)) (hs : I s) :
    Prog.wp M (fun _ s => I s) p (fun _ s => I s) s := by
  induction p generalizing s with
  | ret a => exact hs
  | vis o k ih => exact ⟨hs, fun a ha => ih a (h.2 a) (hI o s a h.1 hs ha)⟩

theorem steps {I : σ → Prop} {p p' : Prog S α} {tr : List S.Event} (h : Only P p)
    (hI : ∀ o s a, P o → I s → M.ready o s a → I (M.next o s a)) (hs : I s) (hr : Steps M p s tr p' s') :
    I s' := by
  have hwp := (h.wp hI hs).steps hr
  cases p' with
  | ret a => exact hwp
  | vis o k => exact hwp.1

/-- What every operation of the program does to the state the program does as well, as far as it
runs. -/
theorem wp_rel {R : σ → σ → Prop} {p : Prog S α} (h : Only P p) (refl : ∀ s, R s s)
    (trans : ∀ s s' s'', R s s' → R s' s'' → R s s'')
    (step : ∀ o s a, P o → M.ready o s a → R s (M.next o s a))
    (hD : ∀ o s', P o → R s s' → D o s') (hQ : ∀ a s', R s s' → Q a s') : Prog.wp M D p Q s := by
  induction p generalizing s with
  | ret a => exact hQ a s (refl s)
  | vis o k ih =>
    refine ⟨hD o s h.1 (refl s), fun a ha => ih a (h.2 a) ?_ ?_⟩
    · exact fun o' s' ho' hs' => hD o' s' ho' (trans _ _ _ (step o s a h.1 ha) hs')
    · exact fun b s' hs' => hQ b s' (trans _ _ _ (step o s a h.1 ha) hs')

end Only

/-! ### Complete runs with free answers -/

/-- `p` returns `a` after the events `tr`, whatever machine gave the answers. -/
inductive Runs : Prog S α → List S.Event → α → Prop where
  | ret (a : α) : Runs (ret a) [] a
  | vis {o : S.Op} {k : S.Ans o → Prog S α} {a : S.Ans o} {tr : List S.Event} {b : α}
      (h : Runs (k a) tr b) : Runs (vis o k) (⟨o, a⟩ :: tr) b

theorem runs_ret {a b : α} {tr : List S.Event} :
    Runs (Prog.ret a : Prog S α) tr b ↔ tr = [] ∧ b = a := by
  constructor
  · intro h; cases h; exact ⟨rfl, rfl⟩
  · rintro ⟨rfl, rfl⟩; exact .ret _

theorem runs_vis {o : S.Op} {k : S.Ans o → Prog S α} {tr : List S.Event} {b : α} :
    Runs (Prog.vis o k) tr b ↔ ∃ a tr', tr = ⟨o, a⟩ :: tr' ∧ Runs (k a) tr' b := by
  constructor
  · intro h; cases h with
    | vis h => exact ⟨_, _, rfl, h⟩
  · rintro ⟨a, tr', rfl, h⟩; exact .vis h

theorem runs_perform {o : S.Op} {tr : List S.Event} {a : S.Ans o} :
    Runs (perform o) tr a ↔ tr = [⟨o, a⟩] := by
  constructor
  · intro h
    obtain ⟨b, tr', rfl, hk⟩ := runs_vis.1 h
    obtain ⟨rfl, rfl⟩ := runs_ret.1 hk
    rfl
  · rintro rfl; exact .vis (.ret a)

/-- A run of a sequence is a run of the first program followed by a run of its continuation. -/
theorem runs_bind {p : Prog S α} {f : α → Prog S β} {tr : List S.Event} {b : β} :
    Runs (p >>= f) tr b ↔ ∃ pre post a, tr = pre ++ post ∧ Runs p pre a ∧ Runs (f a) post b := by
  induction p generalizing tr with
  | ret a =>
    constructor
    · intro h; exact ⟨[], tr, a, rfl, .ret a, h⟩
    · rintro ⟨pre, post, a', rfl, hp, hf⟩
      obtain ⟨rfl, rfl⟩ := runs_ret.1 hp
      exact hf
  | vis o k ih =>
    rw [vis_bind, runs_vis]
    constructor
    · rintro ⟨x, tr', rfl, h⟩
      obtain ⟨pre, post, a, rfl, hp, hf⟩ := (ih x).1 h
      exact ⟨⟨o, x⟩ :: pre, post, a, rfl, .vis hp, hf⟩
    · rintro ⟨pre, post, a, rfl, hp, hf⟩
      obtain ⟨x, tr', rfl, h⟩ := runs_vis.1 hp
      exact ⟨x, tr' ++ post, rfl, (ih x).2 ⟨tr', post, a, rfl, h, hf⟩⟩

theorem runs_perform_bind {o : S.Op} {f : S.Ans o → Prog S β} {tr : List S.Event} {b : β} :
    Runs (perform o >>= f) tr b ↔ ∃ a tr', tr = ⟨o, a⟩ :: tr' ∧ Runs (f a) tr' b :=
  runs_vis

theorem runs_ite {c : Prop} [Decidable c] {p q : Prog S α} {tr : List S.Event} {a : α} :
    Runs (if c then p else q) tr a ↔ (c ∧ Runs p tr a) ∨ (¬c ∧ Runs q tr a) := by
  by_cases hc : c <;> simp [hc]

theorem Only.mem_runs {P : S.Op → Prop} {p : Prog S α} (h : Only P p) {tr : List S.Event} {a : α}
    (hr : Runs p tr a) : ∀ e ∈ tr, P e.1 := by
  induction hr with
  | ret a => simp
  | vis _ ih =>
    intro e he
    rcases List.mem_cons.1 he with rfl | he
    · exact h.1
    · exact ih (h.2 _) e he

/-- On the way to every result in `Q` the program performs an event in `P`. -/
def Performs (P : S.Event → Prop) (Q : α → Prop) : Prog S α → Prop
  | ret a => ¬Q a
  | vis o k => ∀ a, P ⟨o, a⟩ ∨ Performs P Q (k a)

theorem Performs.bind {P : S.Event → Prop} {Q : β → Prop} {p : Prog S α} {f : α → Prog S β}
    (h : ∀ a, Performs P Q (f a)) : Performs P Q (p >>= f) := by
  induction p with
  | ret a => exact h a
  | vis o k ih => exact fun a => .inr (ih a)

/-- The event is performed by the first program where the second one may come to `Q` without it. -/
theorem Performs.bind_of {P : S.Event → Prop} {R : α → Prop} {Q : β → Prop} {p : Prog S α}
    {f : α → Prog S β} (h : Performs P R p) (hf : ∀ a, ¬R a → Performs P Q (f a)) :
    Performs P Q (p >>= f) := by
  induction p with
  | ret a => exact hf a h
  | vis o k ih => exact fun a => (h a).imp_right (ih a)

theorem Performs.ite {P : S.Event → Prop} {Q : α → Prop} {c : Prop} [Decidable c] {p q : Prog S α}
    (hp : Performs P Q p) (hq : Performs P Q q) : Performs P Q (if c then p else q) := by
  split <;> assumption

theorem Performs.exists_mem {P : S.Event → Prop} {Q : α → Prop} {p : Prog S α} {tr : List S.Event} {a : α}
    (h : Performs P Q p) (hr : Runs p tr a) (hQ : Q a) : ∃ e ∈ tr, P e := by
  induction hr with
  | ret a => exact absurd hQ h
  | vis _ ih =>
    rcases h _ with hP | h
    · exact ⟨_, List.mem_cons_self .., hP⟩
    · obtain ⟨e, he, hP⟩ := ih h hQ
      exact ⟨e, List.mem_cons_of_mem _ he, hP⟩

/-! ### Partial runs with free answers -/

/-- `p` has come to `q` after the events `tr`, whatever machine gave the answers. -/
inductive Reaches : Prog S α → List S.Event → Prog S α → Prop where
  | refl (p : Prog S α) : Reaches p [] p
  | vis {o : S.Op} {k : S.Ans o → Prog S α} {a : S.Ans o} {tr : List S.Event} {q : Prog S α}
      (h : Reaches (k a) tr q) : Reaches (vis o k) (⟨o, a⟩ :: tr) q

theorem Steps.reaches {p p' : Prog S α} {tr : List S.Event} (h : Steps M p s tr p' s') :
    Reaches p tr p' := by
  induction h with
  | refl p => exact .refl p
  | step _ _ ih => exact .vis ih

theorem reaches_ret {p : Prog S α} {tr : List S.Event} {a : α} : Reaches p tr (ret a) ↔ Runs p tr a := by
  constructor
  · intro h
    generalize hq : ret a = q at h
    induction h with
    | refl p => subst hq; exact .ret a
    | vis _ ih => exact .vis (ih hq)
  · intro h
    induction h with
    | ret => exact .refl _
    | vis _ ih => exact .vis ih

/-- A result comes with the run that gives it. -/
theorem wp.and_runs {D : S.Op → σ → Prop} {Q : α → σ → Prop} {p : Prog S α} (h : wp M D p Q s) :
    wp M D p (fun a s' => (∃ tr, Runs p tr a) ∧ Q a s') s :=
  wp_of_steps (fun _ _ _ _ hs => h.at_op hs) fun tr _ _ hs => ⟨⟨tr, reaches_ret.1 hs.reaches⟩, h.of_ret hs⟩

/-- The events decide where a program is. -/
theorem Reaches.append_iff {p q : Prog S α} {tr tr' : List S.Event} :
    Reaches p (tr ++ tr') q ↔ ∃ r, Reaches p tr r ∧ Reaches r tr' q := by
  induction tr generalizing p with
  | nil =>
    constructor
    · intro h; exact ⟨p, .refl p, h⟩
    · rintro ⟨r, hr, h⟩; cases hr; exact h
  | cons e tr ih =>
    constructor
    · intro h
      cases h with
      | vis h =>
        obtain ⟨r, hr, hq⟩ := ih.1 h
        exact ⟨r, .vis hr, hq⟩
    · rintro ⟨r, hr, hq⟩
      cases hr with
      | vis hr => exact .vis (ih.2 ⟨r, hr, hq⟩)

theorem Reaches.det {p q q' : Prog S α} {tr : List S.Event} (h : Reaches p tr q) (h' : Reaches p tr q') :
    q = q' := by
  induction h with
  | refl => cases h'; rfl
  | vis _ ih => cases h' with | vis h' => exact ih h'

theorem Reaches.bind {p q : Prog S α} {tr : List S.Event} (h : Reaches p tr q) (f : α → Prog S β) :
    Reaches (p >>= f) tr (q >>= f) := by
  induction h with
  | refl p => exact .refl _
  | vis _ ih => exact .vis ih

/-- A program that has returned performs nothing any more. -/
theorem Reaches.of_ret {q : Prog S α} {a : α} {tr : List S.Event} (h : Reaches (ret a) tr q) :
    tr = [] ∧ q = ret a := by
  cases h; exact ⟨rfl, rfl⟩

/-- Nothing comes after a complete run. -/
theorem Runs.eq_of_reaches {p q : Prog S α} {a : α} {tr tr' : List S.Event} (h : Runs p tr a)
    (h' : Reaches p (tr ++ tr') q) : tr' = [] ∧ q = Prog.ret a := by
  obtain ⟨r, hr, hq⟩ := Reaches.append_iff.1 h'
  obtain rfl := hr.det (reaches_ret.2 h)
  exact hq.of_ret

theorem Only.mem_reaches {P : S.Op → Prop} {p q : Prog S α} (h : Only P p) {tr : List S.Event}
    (hr : Reaches p tr q) : ∀ e ∈ tr, P e.1 := by
  induction hr with
  | refl => simp
  | vis _ ih =>
    intro e he
    rcases List.mem_cons.1 he with rfl | he
    · exact h.1
    · exact ih (h.2 _) e he

theorem Only.rest {P : S.Op → Prop} {p q : Prog S α} (h : Only P p) {tr : List S.Event} (hr : Reaches p tr q) :
    Only P q := by
  induction hr with
  | refl => exact h
  | vis _ ih => exact ih (h.2 _)

/-- Every answer of `tr` is the one `pick` chooses after the events before it. -/
def Follows (pick : List S.Event → (o : S.Op) → S.Ans o) : List S.Event → List S.Event → Prop
  | _, [] => True
  | past, ⟨o, a⟩ :: tr => a = pick past o ∧ Follows pick (past ++ [⟨o, a⟩]) tr

/-- Programs return: whatever the environment answers, there is a complete run with these answers. -/
theorem exists_runs (pick : List S.Event → (o : S.Op) → S.Ans o) (p : Prog S α) (past : List S.Event) :
    ∃ tr a, Runs p tr a ∧ Follows pick past tr := by
  induction p generalizing past with
  | ret a => exact ⟨[], a, .ret a, trivial⟩
  | vis o k ih =>
    obtain ⟨tr, b, hr, hf⟩ := ih (pick past o) (past ++ [⟨o, pick past o⟩])
    exact ⟨⟨o, pick past o⟩ :: tr, b, .vis hr, rfl, hf⟩

/-- The result with the answers of `pick`. -/
def value (pick : (o : S.Op) → S.Ans o) : Prog S α → α
  | ret a => a
  | vis o k => (k (pick o)).value pick

theorem exists_runs_value (pick : (o : S.Op) → S.Ans o) (p : Prog S α) : ∃ tr, Runs p tr (p.value pick) := by
  induction p with
  | ret a => exact ⟨[], .ret a⟩
  | vis o k ih =>
    obtain ⟨tr, h⟩ := ih (pick o)
    exact ⟨⟨o, pick o⟩ :: tr, .vis h⟩

/-! ### Programs that may fail -/

/-- The rest of a program after a step that may fail: `p?; f`. -/
def tryThen {ε : Type} (p : Prog S (Except ε α)) (f : α → Prog S (Except ε β)) : Prog S (Except ε β) :=
  p >>= fun r =>
    match r with
    | .ok a => f a
    | .error e => ret (.error e)

theorem wp_tryThen {ε : Type} {p : Prog S (Except ε α)} {f : α → Prog S (Except ε β)}
    {Q : Except ε β → σ → Prop} :
    wp M D (tryThen p f) Q s ↔ wp M D p (fun r s' =>
      (∀ a, r = .ok a → wp M D (f a) Q s') ∧ ∀ e, r = .error e → Q (.error e) s') s := by
  unfold tryThen
  rw [wp_bind]
  constructor
  · refine fun h => h.post fun r s' hr => ?_
    cases r with
    | ok a =>
      refine ⟨fun b hb => ?_, nofun⟩
      obtain rfl := Except.ok.inj hb
      exact hr
    | error e =>
      refine ⟨nofun, fun e' he => ?_⟩
      obtain rfl := Except.error.inj he
      exact hr
  · refine fun h => h.post fun r s' hr => ?_
    cases r with
    | ok a => exact hr.1 a rfl
    | error e => exact hr.2 e rfl

/-- Perform the first `n` operations of a program, with the answers `pick` chooses. -/
def exec (M : Machine S σ) (pick : (o : S.Op) → σ → S.Ans o) :
    Nat → Prog S α → σ → Prog S α × σ
  | 0, p, s => (p, s)
  | _ + 1, ret a, s => (ret a, s)
  | n + 1, vis o k, s => exec M pick n (k (pick o s)) (M.next o s (pick o s))

/-- The trace of `exec`. -/
def trace (M : Machine S σ) (pick : (o : S.Op) → σ → S.Ans o) :
    Nat → Prog S α → σ → List S.Event
  | 0, _, _ => []
  | _ + 1, ret _, _ => []
  | n + 1, vis o k, s => ⟨o, pick o s⟩ :: trace M pick n (k (pick o s)) (M.next o s (pick o s))

theorem exec_steps (M : Machine S σ) (pick : (o : S.Op) → σ → S.Ans o)
    (hpick : ∀ o s, M.ready o s (pick o s)) (n : Nat) (p : Prog S α) (s : σ) :
    Steps M p s (trace M pick n p s) (exec M pick n p s).1 (exec M pick n p s).2 := by
  induction n generalizing p s with
  | zero => exact .refl p s
  | succ n ih =>
    cases p with
    | ret a => exact .refl _ s
    | vis o k => exact .step (hpick o s) (ih _ _)

/-- The value of a program that has returned. -/
def result? : Prog S α → Option α
  | ret a => some a
  | vis _ _ => none

theorem eq_ret_of_result? {p : Prog S α} {a : α} (h : p.result? = some a) : p = ret a := by
  cases p with
  | ret b => simpa [result?] using h
  | vis o k => simp [result?] at h

end Prog
