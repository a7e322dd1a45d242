import Mathlib.Logic.Function.Basic
import SshWarden.Lib.Prog

/-!
# Programs that run at the same time

`Interleaves M ps s tr ps' s'`: the programs `ps` run on one state, one operation of one of them at a
time, and `tr` says which program performed which operation. What one of them performed (`ofThread`) is
a partial run of it with free answers, since the others change the state in between.

`expand` replaces every operation of a program by a program that does the same in smaller steps.
-/

/-- The machine that gives every answer in `A` and keeps a record of the events. -/
def Machine.record {S : Sig} {τ : Type} (A : S.Event → Prop) (f : τ → S.Event → τ) : Machine S τ where
  ready o _ a := A ⟨o, a⟩
  next o t a := f t ⟨o, a⟩

namespace Prog
variable {S S' : Sig} {σ τ α β γ ι : Type}

def expand (f : (o : S.Op) → Prog S' (S.Ans o)) : Prog S α → Prog S' α
  | ret a => ret a
  | vis o k => f o >>= fun a => expand f (k a)

/-- Where the smaller steps of each operation do what the operation does, the expanded program, run
alone, does what the program does. -/
theorem wp_expand {M : Machine S σ} {M' : Machine S' σ} {f : (o : S.Op) → Prog S' (S.Ans o)}
    {D : S.Op → σ → Prop} {D' : S'.Op → σ → Prop} {p : Prog S α} {Q : α → σ → Prop} {s : σ}
    (hf : ∀ o s, D o s → wp M' D' (f o) (fun a s' => M.ready o s a ∧ s' = M.next o s a) s)
    (h : wp M D p Q s) : wp M' D' (expand f p) Q s := by
  induction p generalizing s with
  | ret a => exact h
  | vis o k ih =>
    refine (wp_bind ..).2 ((hf o s h.1).post ?_)
    rintro a s' ⟨ha, rfl⟩
    exact ih a (h.2 a ha)

theorem Only.expand {P : S.Op → Prop} {P' : S'.Op → Prop} {f : (o : S.Op) → Prog S' (S.Ans o)} {p : Prog S α}
    (hf : ∀ o, P o → Only P' (f o)) (h : Only P p) : Only P' (p.expand f) := by
  induction p with
  | ret a => trivial
  | vis o k ih => exact .bind (hf o h.1) fun a => ih a (h.2 a)

/-- `steps` are the smaller steps of the operations `tr`. -/
inductive Expanded (f : (o : S.Op) → Prog S' (S.Ans o)) : List S.Event → List S'.Event → Prop
  | nil : Expanded f [] []
  | cons {o : S.Op} {a : S.Ans o} {seg : List S'.Event} {tr : List S.Event} {steps : List S'.Event}
      (hseg : Runs (f o) seg a) (h : Expanded f tr steps) : Expanded f (⟨o, a⟩ :: tr) (seg ++ steps)

/-- The runs of the expanded program are the runs of the program in smaller steps. -/
theorem runs_expand {f : (o : S.Op) → Prog S' (S.Ans o)} {p : Prog S α} {steps : List S'.Event} {a : α} :
    Runs (expand f p) steps a ↔ ∃ tr, Runs p tr a ∧ Expanded f tr steps := by
  induction p generalizing steps with
  | ret b =>
    constructor
    · intro h
      obtain ⟨rfl, rfl⟩ := runs_ret.1 h
      exact ⟨[], .ret _, .nil⟩
    · rintro ⟨tr, h, he⟩
      obtain ⟨rfl, rfl⟩ := runs_ret.1 h
      cases he
      exact .ret _
  | vis o k ih =>
    constructor
    · intro h
      obtain ⟨seg, rest, b, rfl, hseg, hrest⟩ := runs_bind.1 h
      obtain ⟨tr, htr, he⟩ := (ih b).1 hrest
      exact ⟨_, .vis htr, .cons hseg he⟩
    · rintro ⟨tr, h, he⟩
      obtain ⟨b, tr', rfl, htr⟩ := runs_vis.1 h
      cases he with
      | cons hseg he => exact runs_bind.2 ⟨_, _, b, rfl, hseg, (ih b).2 ⟨tr', htr, he⟩⟩

namespace Expanded
variable {f : (o : S.Op) → Prog S' (S.Ans o)} {tr tr' : List S.Event} {steps : List S'.Event}

theorem append_inv (h : Expanded f (tr ++ tr') steps) :
    ∃ pre post, steps = pre ++ post ∧ Expanded f tr pre ∧ Expanded f tr' post := by
  induction tr generalizing steps with
  | nil => exact ⟨[], steps, rfl, .nil, h⟩
  | cons e tr ih =>
    cases h with
    | cons hseg h =>
      obtain ⟨pre, post, rfl, hpre, hpost⟩ := ih h
      exact ⟨_, post, (List.append_assoc ..).symm, .cons hseg hpre, hpost⟩

/-- What the steps of every operation pick out of the event is picked out of the whole trace. -/
theorem filterMap {γ : Type} {g : S'.Event → Option γ} {keep : S.Event → List γ}
    (hg : ∀ o a seg, Runs (f o) seg a → seg.filterMap g = keep ⟨o, a⟩) (h : Expanded f tr steps) :
    steps.filterMap g = tr.flatMap keep := by
  induction h with
  | nil => rfl
  | cons hseg _ ih => rw [List.filterMap_append, hg _ _ _ hseg, ih, List.flatMap_cons]

end Expanded

theorem Reaches.record {A : S.Event → Prop} {p q : Prog S α} {tr : List S.Event} (h : Reaches p tr q)
    (hA : ∀ e ∈ tr, A e) (f : τ → S.Event → τ) (t : τ) :
    Steps (Machine.record A f) p t tr q (tr.foldl f t) := by
  induction h generalizing t with
  | refl => exact .refl _ _
  | vis _ ih =>
    exact .step (hA _ (List.mem_cons_self ..)) (ih (fun e he => hA e (List.mem_cons_of_mem _ he)) _)

/-! ### Interleavings -/

section
variable [DecidableEq ι]

inductive Interleaves (M : Machine S σ) :
    (ι → Prog S α) → σ → List (ι × S.Event) → (ι → Prog S α) → σ → Prop where
  | refl (ps : ι → Prog S α) (s : σ) : Interleaves M ps s [] ps s
  | step {ps ps' : ι → Prog S α} {i : ι} {o : S.Op} {k : S.Ans o → Prog S α} {s s' : σ} {a : S.Ans o}
      {tr : List (ι × S.Event)} (hi : ps i = vis o k) (ha : M.ready o s a)
      (h : Interleaves M (Function.update ps i (k a)) (M.next o s a) tr ps' s') :
      Interleaves M ps s ((i, ⟨o, a⟩) :: tr) ps' s'

/-- What thread `i` did. -/
def ofThread (i : ι) (tr : List (ι × β)) : List β :=
  tr.filterMap fun x => if x.1 = i then some x.2 else none

@[simp] theorem ofThread_nil (i : ι) : ofThread i ([] : List (ι × β)) = [] := rfl

theorem ofThread_cons (i : ι) (x : ι × β) (tr : List (ι × β)) :
    ofThread i (x :: tr) = if x.1 = i then x.2 :: ofThread i tr else ofThread i tr := by
  unfold ofThread
  rw [List.filterMap_cons]
  by_cases h : x.1 = i <;> simp [h]

theorem ofThread_append (i : ι) (tr tr' : List (ι × β)) :
    ofThread i (tr ++ tr') = ofThread i tr ++ ofThread i tr' := List.filterMap_append

theorem ofThread_map (i j : ι) (l : List β) : ofThread i (l.map (j, ·)) = if j = i then l else [] := by
  induction l with
  | nil => simp
  | cons b l ih => rw [List.map_cons, ofThread_cons, ih]; split_ifs <;> rfl

theorem mem_ofThread {i : ι} {tr : List (ι × β)} {b : β} : b ∈ ofThread i tr ↔ (i, b) ∈ tr := by
  simp [ofThread]

/-- What a thread did with the events of a kind. -/
theorem ofThread_filterMap (f : β → Option γ) (i : ι) (tr : List (ι × β)) :
    ofThread i (tr.filterMap fun x => (f x.2).map (x.1, ·)) = (ofThread i tr).filterMap f := by
  induction tr with
  | nil => rfl
  | cons x tr ih =>
    rw [ofThread_cons]
    by_cases hx : x.1 = i
    · cases hf : f x.2 <;> simp [hf, ofThread_cons, hx, ih]
    · cases hf : f x.2 <;> simp [hf, ofThread_cons, hx, ih]

variable {M : Machine S σ} {ps ps' : ι → Prog S α} {s s' : σ} {tr : List (ι × S.Event)}

theorem Interleaves.reaches (h : Interleaves M ps s tr ps' s') (i : ι) :
    Reaches (ps i) (ofThread i tr) (ps' i) := by
  induction h with
  | refl => exact .refl _
  | @step ps ps' j o k s s' a tr hj _ _ ih =>
    rw [ofThread_cons]
    by_cases hij : j = i
    · subst hij
      rw [if_pos rfl, hj]
      rw [Function.update_self] at ih
      exact .vis ih
    · rw [if_neg hij]
      rwa [Function.update_of_ne (Ne.symm hij)] at ih

/-- The threads leave the state the events lead to. -/
theorem Interleaves.state_eq (h : Interleaves M ps s tr ps' s') :
    s' = tr.foldl (fun s x => M.next x.2.1 s x.2.2) s := by
  induction h with
  | refl => rfl
  | step _ _ _ ih => exact ih

/-- Where the threads only perform operations in `P`, every event is one of them and happened in a state with
the invariant that these keep. -/
theorem Interleaves.forall_mem {P : S.Op → Prop} {I : σ → Prop} {A : S.Event → Prop}
    (h : Interleaves M ps s tr ps' s') (hP : ∀ i, Only P (ps i))
    (hI : ∀ o s a, P o → I s → M.ready o s a → I (M.next o s a))
    (hA : ∀ o s a, P o → I s → M.ready o s a → A ⟨o, a⟩) (hs : I s) : ∀ x ∈ tr, A x.2 := by
  induction h with
  | refl => simp
  | @step ps ps' i o k s s' a tr hi ha _ ih =>
    have honly : Only P (vis o k) := hi ▸ hP i
    intro x hx
    rcases List.mem_cons.1 hx with rfl | hx
    · exact hA _ _ _ honly.1 hs ha
    · refine ih (fun j => ?_) (hI _ _ _ honly.1 hs ha) x hx
      by_cases hj : j = i
      · subst hj
        rw [Function.update_self]
        exact honly.2 a
      · rw [Function.update_of_ne hj]
        exact hP j

/-- Every event finds `G` in the record the events before it have left and in the state they lead to. -/
def PoolMeets (M : Machine S σ) (f : τ → ι × S.Event → τ) (G : τ → ι → S.Op → σ → Prop) :
    τ → σ → List (ι × S.Event) → Prop
  | _, _, [] => True
  | t, s, x :: tr => G t x.1 x.2.1 s ∧ PoolMeets M f G (f t x) (M.next x.2.1 s x.2.2) tr

instance PoolMeets.decidable (M : Machine S σ) (f : τ → ι × S.Event → τ) (G : τ → ι → S.Op → σ → Prop)
    [∀ t i o s, Decidable (G t i o s)] :
    (t : τ) → (s : σ) → (tr : List (ι × S.Event)) → Decidable (PoolMeets M f G t s tr)
  | _, _, [] => inferInstanceAs (Decidable True)
  | t, s, x :: tr =>
    have := PoolMeets.decidable M f G (f t x) (M.next x.2.1 s x.2.2) tr
    inferInstanceAs (Decidable (G t x.1 x.2.1 s ∧ PoolMeets M f G (f t x) (M.next x.2.1 s x.2.2) tr))

/-- What every step that meets `G` keeps of the threads, the state and the record, the run keeps. -/
theorem Interleaves.keeps {f : τ → ι × S.Event → τ} {G : τ → ι → S.Op → σ → Prop}
    {I : (ι → Prog S α) → σ → τ → Prop}
    (hstep : ∀ {ps s t i o k a}, I ps s t → ps i = vis o k → M.ready o s a → G t i o s →
      I (Function.update ps i (k a)) (M.next o s a) (f t (i, ⟨o, a⟩)))
    (h : Interleaves M ps s tr ps' s') {t : τ} (hG : PoolMeets M f G t s tr) (hI : I ps s t) :
    I ps' s' (tr.foldl f t) := by
  induction h generalizing t with
  | refl => exact hI
  | step hi ha _ ih => exact ih hG.2 (hstep hI hi ha hG.1)

/-- What a fresh start establishes and the events after it keep. -/
theorem foldl_append_cons {f : σ → β → σ} {I : σ → Prop} {pre post : List β} {x : β}
    (hx : ∀ s, I (f s x)) (hpost : ∀ y ∈ post, ∀ s, I s → I (f s y)) (s : σ) :
    I ((pre ++ x :: post).foldl f s) := by
  rw [List.foldl_append, List.foldl_cons]
  generalize hs' : f _ x = s'
  have hI : I s' := hs' ▸ hx _
  clear hs'
  induction post generalizing s' with
  | nil => exact hI
  | cons y post ih =>
    exact ih (fun z hz => hpost z (List.mem_cons_of_mem _ hz)) _ (hpost y (List.mem_cons_self ..) _ hI)

/-- Where every thread goes through the end of one list, what comes last in the list comes last among
all of them. -/
theorem reverse_find?_of_suffixes {l : List (ι × β)} {ks : List β} (h : ∀ j, ofThread j l <:+ ks)
    (p : β → Bool) :
    (∀ x ∈ l, p x.2 = false) ∨ (l.map Prod.snd).reverse.find? p = ks.reverse.find? p := by
  induction l with
  | nil => exact .inl (by simp)
  | cons x l ih =>
    have htail : ∀ j, ofThread j l <:+ ks := fun j => by
      refine List.IsSuffix.trans ?_ (h j)
      rw [ofThread_cons]
      split
      · exact List.suffix_cons ..
      · exact List.suffix_refl _
    rcases ih htail with hnone | hlast
    · by_cases hx : p x.2 = true
      · refine .inr ?_
        obtain ⟨front, hfront⟩ := h x.1
        rw [ofThread_cons, if_pos rfl] at hfront
        have hl : (l.map Prod.snd).reverse.find? p = none := by
          simpa using fun b i hb => hnone (i, b) hb
        have hown : (ofThread x.1 l).reverse.find? p = none := by
          simpa using fun b hb => hnone _ (mem_ofThread.1 hb)
        rw [← hfront]
        simp [List.find?_append, hl, hown, hx]
      · refine .inl fun y hy => ?_
        rcases List.mem_cons.1 hy with rfl | hy
        · simpa using hx
        · exact hnone y hy
    · refine .inr ?_
      by_cases hsome : (ks.reverse.find? p).isSome
      · obtain ⟨b, hb⟩ := Option.isSome_iff_exists.1 hsome
        rw [List.map_cons, List.reverse_cons, List.find?_append, hlast, hb]
        rfl
      · have hks : ks.reverse.find? p = none := by simpa using hsome
        rw [List.map_cons, List.reverse_cons, List.find?_append, hlast, hks]
        have hx : x.2 ∈ ks := (h x.1).subset (mem_ofThread.2 (List.mem_cons_self ..))
        have hpx : p x.2 = false := by simpa using List.find?_eq_none.1 hks x.2 (by simpa using hx)
        simp [hpx]

theorem reverse_find?_of_threads {l : List (ι × β)} {ks : List β} {i : ι} (hi : ofThread i l = ks)
    (h : ∀ j, ofThread j l <:+ ks) (p : β → Bool) :
    (l.map Prod.snd).reverse.find? p = ks.reverse.find? p := by
  rcases reverse_find?_of_suffixes h p with hnone | heq
  · have hl : (l.map Prod.snd).reverse.find? p = none := by
      simpa using fun b i hb => hnone (i, b) hb
    have hks : ks.reverse.find? p = none := by
      simpa [← hi] using fun b hb => hnone _ (mem_ofThread.1 hb)
    rw [hl, hks]
  · exact heq

/-! ### Running a pool -/

/-- Let the threads take steps in the given order, with the answers `pick` chooses; a thread that has
returned is passed over. -/
def execPool (M : Machine S σ) (pick : (o : S.Op) → σ → S.Ans o) :
    List ι → (ι → Prog S α) → σ → (ι → Prog S α) × σ
  | [], ps, s => (ps, s)
  | i :: order, ps, s =>
    match ps i with
    | ret _ => execPool M pick order ps s
    | vis o k => execPool M pick order (Function.update ps i (k (pick o s))) (M.next o s (pick o s))

def poolTrace (M : Machine S σ) (pick : (o : S.Op) → σ → S.Ans o) :
    List ι → (ι → Prog S α) → σ → List (ι × S.Event)
  | [], _, _ => []
  | i :: order, ps, s =>
    match ps i with
    | ret _ => poolTrace M pick order ps s
    | vis o k =>
      (i, ⟨o, pick o s⟩) ::
        poolTrace M pick order (Function.update ps i (k (pick o s))) (M.next o s (pick o s))

theorem interleaves_execPool (M : Machine S σ) (pick : (o : S.Op) → σ → S.Ans o)
    (hpick : ∀ o s, M.ready o s (pick o s)) (order : List ι) (ps : ι → Prog S α) (s : σ) :
    Interleaves M ps s (poolTrace M pick order ps s) (execPool M pick order ps s).1
      (execPool M pick order ps s).2 := by
  induction order generalizing ps s with
  | nil => exact .refl ps s
  | cons i order ih =>
    unfold execPool poolTrace
    cases hi : ps i with
    | ret a => exact ih ps s
    | vis o k => exact .step hi (hpick o s) (ih _ _)

end
end Prog
