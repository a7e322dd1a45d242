import SshWarden.Lib.Prog

/-!
# A loop with tasks beside it

A `Loop` takes up one event after the other and runs its program to the end, unless it is dropped on the
way. A request gets a task of its own. The program of the loop and those of the tasks run on one state, one
operation of one of them at a time.

`Run` are the runs with a record `f` of what has happened and a condition `G` on every move. An `Outline`
annotates them: what holds of the state and the record, and what is known of the part of each program that is
still to come. `Outline.Kept` asks for every move what it leaves of these, and `Outline.Kept.run` is the
rule for runs.
-/

/-- `handle` and `serve` are the programs for an event and for a request. -/
structure Loop (S : Sig) (σ ε ρ : Type) where
  machine : Machine S σ
  handle : ε → Prog S Unit
  serve : ρ → Prog S Unit
  receives : σ → ε → σ → Prop
  arrives : σ → σ → Prop
  mayDrop : ε → S.Op → Prop
  spawned : σ → σ
  finished : σ → σ

namespace Loop
open Prog

variable {S : Sig} {σ τ ε ρ : Type}

/-- `current` is what is left of the program of an event, and `tasks` of those of the requests, in the order
in which they came; `none` is a task that has finished. -/
structure Conf (S : Sig) (σ ε : Type) where
  state : σ
  current : Option (ε × Prog S Unit)
  tasks : List (Option (Prog S Unit))

inductive Move (S : Sig) (ε ρ : Type)
  | take (ev : ε)
  | main (e : S.Event)
  | ends
  | drops
  | arrival
  | spawn (r : ρ)
  | task (i : Nat) (e : S.Event)
  | finish (i : Nat)

/-- Events and requests are received between two events. -/
inductive Step (L : Loop S σ ε ρ) : Conf S σ ε → Move S ε ρ → Conf S σ ε → Prop
  | take {s s' : σ} {ts : List (Option (Prog S Unit))} {ev : ε} (hr : L.receives s ev s') :
    Step L ⟨s, none, ts⟩ (.take ev) ⟨s', some (ev, L.handle ev), ts⟩
  | main {s : σ} {ts : List (Option (Prog S Unit))} {ev : ε} {o : S.Op} {k : S.Ans o → Prog S Unit} {a : S.Ans o}
      (ha : L.machine.ready o s a) :
    Step L ⟨s, some (ev, vis o k), ts⟩ (.main ⟨o, a⟩) ⟨L.machine.next o s a, some (ev, k a), ts⟩
  | ends {s : σ} {ts : List (Option (Prog S Unit))} {ev : ε} :
    Step L ⟨s, some (ev, ret ()), ts⟩ .ends ⟨s, none, ts⟩
  | drops {s : σ} {ts : List (Option (Prog S Unit))} {ev : ε} {o : S.Op} {k : S.Ans o → Prog S Unit}
      (hd : L.mayDrop ev o) : Step L ⟨s, some (ev, vis o k), ts⟩ .drops ⟨s, none, ts⟩
  | arrival {s s' : σ} {cur : Option (ε × Prog S Unit)} {ts : List (Option (Prog S Unit))} (ha : L.arrives s s') :
    Step L ⟨s, cur, ts⟩ .arrival ⟨s', cur, ts⟩
  | spawn {s : σ} {ts : List (Option (Prog S Unit))} {r : ρ} :
    Step L ⟨s, none, ts⟩ (.spawn r) ⟨L.spawned s, none, ts ++ [some (L.serve r)]⟩
  | task {s : σ} {cur : Option (ε × Prog S Unit)} {ts : List (Option (Prog S Unit))} {i : Nat} {o : S.Op}
      {k : S.Ans o → Prog S Unit} {a : S.Ans o} (hi : ts[i]? = some (some (vis o k)))
      (ha : L.machine.ready o s a) :
    Step L ⟨s, cur, ts⟩ (.task i ⟨o, a⟩) ⟨L.machine.next o s a, cur, ts.set i (some (k a))⟩
  | finish {s : σ} {cur : Option (ε × Prog S Unit)} {ts : List (Option (Prog S Unit))} {i : Nat}
      (hi : ts[i]? = some (some (ret ()))) :
    Step L ⟨s, cur, ts⟩ (.finish i) ⟨L.finished s, cur, ts.set i none⟩

/-- Runs from a configuration and a record. -/
inductive Run (L : Loop S σ ε ρ) (f : τ → Conf S σ ε → Move S ε ρ → τ) (G : τ → Conf S σ ε → Move S ε ρ → Prop)
    (c₀ : Conf S σ ε) (t₀ : τ) : Conf S σ ε → τ → Prop
  | nil : Run L f G c₀ t₀ c₀ t₀
  | move {c c' : Conf S σ ε} {t : τ} {m : Move S ε ρ} (h : Run L f G c₀ t₀ c t) (hs : Step L c m c')
      (hG : G t c m) : Run L f G c₀ t₀ c' (f t c m)

section
variable {L : Loop S σ ε ρ} {f : τ → Conf S σ ε → Move S ε ρ → τ} {G G' : τ → Conf S σ ε → Move S ε ρ → Prop}
  {c₀ c₁ c : Conf S σ ε} {t₀ t₁ t : τ}

theorem Run.mono (h : Run L f G c₀ t₀ c t) (hG : ∀ t c m, G t c m → G' t c m) : Run L f G' c₀ t₀ c t := by
  induction h with
  | nil => exact .nil
  | move _ hs hm ih => exact .move ih hs (hG _ _ _ hm)

theorem Run.trans (h : Run L f G c₀ t₀ c₁ t₁) (h' : Run L f G c₁ t₁ c t) : Run L f G c₀ t₀ c t := by
  induction h' with
  | nil => exact h
  | move _ hs hm ih => exact .move ih hs hm

end

/-- What holds of the state, what is known between two events, and what is known of the rest of the program of
an event and of a task. -/
structure Outline (S : Sig) (σ τ ε : Type) where
  inv : σ → τ → Prop
  idle : τ → Prop
  main : τ → ε → Prog S Unit → Prop
  task : τ → Nat → Prog S Unit → Prop

namespace Outline

structure Holds (A : Outline S σ τ ε) (c : Conf S σ ε) (t : τ) : Prop where
  inv : A.inv c.state t
  idle : c.current = none → A.idle t
  main : ∀ ev p, c.current = some (ev, p) → A.main t ev p
  task : ∀ i p, c.tasks[i]? = some (some p) → A.task t i p

/-- What is known of tasks is not affected by a new record. -/
def Stable (A : Outline S σ τ ε) (t t' : τ) : Prop := ∀ i p, A.task t i p → A.task t' i p

theorem Stable.refl (A : Outline S σ τ ε) (t : τ) : A.Stable t t := fun _ _ h => h

/-- Every move leaves what it has to. -/
structure Kept (A : Outline S σ τ ε) (L : Loop S σ ε ρ) (f : τ → Conf S σ ε → Move S ε ρ → τ)
    (G : τ → Conf S σ ε → Move S ε ρ → Prop) : Prop where
  take : ∀ {c t ev s'}, A.Holds c t → c.current = none → G t c (.take ev) → L.receives c.state ev s' →
    A.inv s' (f t c (.take ev)) ∧ A.main (f t c (.take ev)) ev (L.handle ev) ∧ A.Stable t (f t c (.take ev))
  main : ∀ {c t ev o k a}, A.Holds c t → c.current = some (ev, vis o k) → G t c (.main ⟨o, a⟩) →
    L.machine.ready o c.state a →
    A.inv (L.machine.next o c.state a) (f t c (.main ⟨o, a⟩)) ∧ A.main (f t c (.main ⟨o, a⟩)) ev (k a) ∧
      A.Stable t (f t c (.main ⟨o, a⟩))
  ends : ∀ {c t ev}, A.Holds c t → c.current = some (ev, ret ()) → G t c .ends →
    A.inv c.state (f t c .ends) ∧ A.idle (f t c .ends) ∧ ∀ i p, c.tasks[i]? = some (some p) →
      A.task (f t c .ends) i p
  drops : ∀ {c t ev o k}, A.Holds c t → c.current = some (ev, vis o k) → G t c .drops → L.mayDrop ev o →
    A.inv c.state (f t c .drops) ∧ A.idle (f t c .drops) ∧ A.Stable t (f t c .drops)
  arrival : ∀ {c t s'}, A.Holds c t → G t c .arrival → L.arrives c.state s' → f t c .arrival = t ∧ A.inv s' t
  spawn : ∀ {c t r}, A.Holds c t → c.current = none → G t c (.spawn r) → f t c (.spawn r) = t ∧
    A.inv (L.spawned c.state) t ∧ A.task t c.tasks.length (L.serve r)
  task : ∀ {c t i o k a}, A.Holds c t → c.tasks[i]? = some (some (vis o k)) → G t c (.task i ⟨o, a⟩) →
    L.machine.ready o c.state a →
    A.inv (L.machine.next o c.state a) (f t c (.task i ⟨o, a⟩)) ∧ A.task (f t c (.task i ⟨o, a⟩)) i (k a) ∧
      (A.idle t → A.idle (f t c (.task i ⟨o, a⟩))) ∧
      (∀ ev p, A.main t ev p → A.main (f t c (.task i ⟨o, a⟩)) ev p) ∧ A.Stable t (f t c (.task i ⟨o, a⟩))
  finish : ∀ {c t i}, A.Holds c t → G t c (.finish i) → f t c (.finish i) = t ∧ A.inv (L.finished c.state) t

variable {A : Outline S σ τ ε} {L : Loop S σ ε ρ} {f : τ → Conf S σ ε → Move S ε ρ → τ}
  {G : τ → Conf S σ ε → Move S ε ρ → Prop} {c₀ c c' : Conf S σ ε} {t₀ t : τ} {m : Move S ε ρ}

/-- Before the first event and the first request. -/
theorem Holds.start {s : σ} (hinv : A.inv s t) (hidle : A.idle t) : A.Holds ⟨s, none, []⟩ t :=
  ⟨hinv, fun _ => hidle, fun _ _ hno => (Option.some_ne_none _ hno.symm).elim,
    fun _ _ hno => (Option.some_ne_none _ hno.symm).elim⟩

theorem Holds.stable (h : A.Holds c t) {t' : τ} (hs : A.Stable t t') {i : Nat} {p : Prog S Unit}
    (hi : c.tasks[i]? = some (some p)) : A.task t' i p :=
  hs i p (h.task i p hi)

/-- One move. -/
theorem Kept.step (hk : A.Kept L f G) (h : A.Holds c t) (hs : Step L c m c') (hG : G t c m) :
    A.Holds c' (f t c m) := by
  cases hs with
  | take hr =>
    obtain ⟨hinv, hmain, hstable⟩ := hk.take h rfl hG hr
    refine ⟨hinv, fun hcur => (Option.some_ne_none _ hcur).elim, ?_, fun i p hi => h.stable hstable hi⟩
    rintro ev p ⟨⟩
    exact hmain
  | main ha =>
    obtain ⟨hinv, hmain, hstable⟩ := hk.main h rfl hG ha
    refine ⟨hinv, fun hcur => (Option.some_ne_none _ hcur).elim, ?_, fun i p hi => h.stable hstable hi⟩
    rintro ev p ⟨⟩
    exact hmain
  | ends =>
    obtain ⟨hinv, hidle, htask⟩ := hk.ends h rfl hG
    exact ⟨hinv, fun _ => hidle, fun ev p hcur => (Option.some_ne_none _ hcur.symm).elim, htask⟩
  | drops hd =>
    obtain ⟨hinv, hidle, hstable⟩ := hk.drops h rfl hG hd
    refine ⟨hinv, fun _ => hidle, fun ev p hcur => ?_, fun i p hi => h.stable hstable hi⟩
    exact (Option.some_ne_none _ hcur.symm).elim
  | arrival ha =>
    obtain ⟨hf, hinv⟩ := hk.arrival h hG ha
    rw [hf]
    exact ⟨hinv, h.idle, h.main, h.task⟩
  | @spawn s ts r =>
    obtain ⟨hf, hinv, htask⟩ := hk.spawn h rfl hG
    rw [hf]
    refine ⟨hinv, h.idle, h.main, fun i p hi => ?_⟩
    rcases Nat.lt_trichotomy i ts.length with hlt | rfl | hgt
    · exact h.task i p ((List.getElem?_append_left hlt).symm.trans hi)
    · rw [List.getElem?_concat_length] at hi
      obtain rfl := Option.some.inj (Option.some.inj hi)
      exact htask
    · rw [List.getElem?_eq_none (by simp; omega)] at hi
      cases hi
  | @task s cur ts i o k a hi ha =>
    obtain ⟨hinv, htask, hidle, hmain, hstable⟩ := hk.task h hi hG ha
    refine ⟨hinv, fun hcur => hidle (h.idle hcur), fun ev p hcur => hmain ev p (h.main ev p hcur),
      fun j p hj => ?_⟩
    by_cases hij : i = j
    · subst hij
      rw [List.getElem?_set_self (List.getElem?_eq_some_iff.1 hi).1] at hj
      obtain rfl := Option.some.inj (Option.some.inj hj)
      exact htask
    · exact h.stable hstable ((List.getElem?_set_ne hij).symm.trans hj)
  | @finish s cur ts i hi =>
    obtain ⟨hf, hinv⟩ := hk.finish h hG
    rw [hf]
    refine ⟨hinv, h.idle, h.main, fun j p hj => ?_⟩
    by_cases hij : i = j
    · subst hij
      rw [List.getElem?_set_self (List.getElem?_eq_some_iff.1 hi).1] at hj
      cases hj
    · exact h.task j p ((List.getElem?_set_ne hij).symm.trans hj)

/-- What every move keeps holds in all configurations of a run. -/
theorem Kept.run (hk : A.Kept L f G) (h₀ : A.Holds c₀ t₀) (h : Run L f G c₀ t₀ c t) : A.Holds c t := by
  induction h with
  | nil => exact h₀
  | move _ hs hG ih => exact hk.step ih hs hG

end Outline

/-! ### Directed runs -/

/-- Whose turn it is. A program that has nothing left ends. -/
inductive Cue (ε ρ : Type)
  | take (ev : ε)
  | main
  | spawn (r : ρ)
  | task (i : Nat)

/-- The move for a cue, with the answer `pick` chooses; `none` where there is nothing to do. -/
def move? (L : Loop S σ ε ρ) (receive? : σ → ε → Option σ) (pick : (o : S.Op) → σ → S.Ans o) (c : Conf S σ ε) :
    Cue ε ρ → Option (Move S ε ρ × Conf S σ ε)
  | .take ev =>
    match c with
    | ⟨s, none, ts⟩ => (receive? s ev).map fun s' => (.take ev, ⟨s', some (ev, L.handle ev), ts⟩)
    | _ => none
  | .main =>
    match c with
    | ⟨s, some (ev, vis o k), ts⟩ =>
      some (.main ⟨o, pick o s⟩, ⟨L.machine.next o s (pick o s), some (ev, k (pick o s)), ts⟩)
    | ⟨s, some (_, ret ()), ts⟩ => some (.ends, ⟨s, none, ts⟩)
    | _ => none
  | .spawn r =>
    match c with
    | ⟨s, none, ts⟩ => some (.spawn r, ⟨L.spawned s, none, ts ++ [some (L.serve r)]⟩)
    | _ => none
  | .task i =>
    match c.tasks[i]? with
    | some (some (vis o k)) =>
      some (.task i ⟨o, pick o c.state⟩, ⟨L.machine.next o c.state (pick o c.state), c.current,
        c.tasks.set i (some (k (pick o c.state)))⟩)
    | some (some (ret ())) => some (.finish i, ⟨L.finished c.state, c.current, c.tasks.set i none⟩)
    | _ => none

section
variable {L : Loop S σ ε ρ} {receive? : σ → ε → Option σ} {pick : (o : S.Op) → σ → S.Ans o}

theorem step_of_move? (hreceive : ∀ {s ev s'}, receive? s ev = some s' → L.receives s ev s')
    (hpick : ∀ o s, L.machine.ready o s (pick o s)) {c c' : Conf S σ ε} {cue : Cue ε ρ} {m : Move S ε ρ}
    (h : move? L receive? pick c cue = some (m, c')) : Step L c m c' := by
  obtain ⟨s, cur, ts⟩ := c
  cases cue with
  | take ev =>
    cases cur with
    | some x => cases h
    | none =>
      obtain ⟨s', hs', heq⟩ := Option.map_eq_some_iff.1 h
      obtain ⟨rfl, rfl⟩ := Prod.mk.inj heq
      exact .take (hreceive hs')
  | main =>
    cases cur with
    | none => cases h
    | some x =>
      obtain ⟨ev, p⟩ := x
      cases p with
      | ret u =>
        obtain ⟨rfl, rfl⟩ := Prod.mk.inj (Option.some.inj h)
        exact .ends
      | vis o k =>
        obtain ⟨rfl, rfl⟩ := Prod.mk.inj (Option.some.inj h)
        exact .main (hpick o s)
  | spawn r =>
    cases cur with
    | some x => cases h
    | none =>
      obtain ⟨rfl, rfl⟩ := Prod.mk.inj (Option.some.inj h)
      exact .spawn
  | task i =>
    simp only [move?] at h
    split at h
    · next o k hi =>
      obtain ⟨rfl, rfl⟩ := Prod.mk.inj (Option.some.inj h)
      exact .task hi (hpick o s)
    · next hi =>
      obtain ⟨rfl, rfl⟩ := Prod.mk.inj (Option.some.inj h)
      exact .finish hi
    · cases h

/-- Follow the cues; one that finds nothing to do is passed over. -/
def follow (L : Loop S σ ε ρ) (receive? : σ → ε → Option σ) (pick : (o : S.Op) → σ → S.Ans o)
    (f : τ → Conf S σ ε → Move S ε ρ → τ) : List (Cue ε ρ) → Conf S σ ε → τ → Conf S σ ε × τ
  | [], c, t => (c, t)
  | cue :: cues, c, t =>
    match move? L receive? pick c cue with
    | some (m, c') => follow L receive? pick f cues c' (f t c m)
    | none => follow L receive? pick f cues c t

/-- Every move passes a check. -/
def followMeets (L : Loop S σ ε ρ) (receive? : σ → ε → Option σ) (pick : (o : S.Op) → σ → S.Ans o)
    (f : τ → Conf S σ ε → Move S ε ρ → τ) (g : τ → Conf S σ ε → Move S ε ρ → Bool) :
    List (Cue ε ρ) → Conf S σ ε → τ → Bool
  | [], _, _ => true
  | cue :: cues, c, t =>
    match move? L receive? pick c cue with
    | some (m, c') => g t c m && followMeets L receive? pick f g cues c' (f t c m)
    | none => followMeets L receive? pick f g cues c t

variable {f : τ → Conf S σ ε → Move S ε ρ → τ} {g : τ → Conf S σ ε → Move S ε ρ → Bool}

theorem run_follow (hreceive : ∀ {s ev s'}, receive? s ev = some s' → L.receives s ev s')
    (hpick : ∀ o s, L.machine.ready o s (pick o s)) {cues : List (Cue ε ρ)} {c : Conf S σ ε} {t : τ}
    (h : followMeets L receive? pick f g cues c t = true) :
    Run L f (fun t c m => g t c m = true) c t (follow L receive? pick f cues c t).1
      (follow L receive? pick f cues c t).2 := by
  induction cues generalizing c t with
  | nil => exact .nil
  | cons cue cues ih =>
    unfold follow
    unfold followMeets at h
    cases hm : move? L receive? pick c cue with
    | none =>
      rw [hm] at h
      exact ih h
    | some x =>
      obtain ⟨m, c'⟩ := x
      rw [hm, Bool.and_eq_true] at h
      exact (Run.nil.move (step_of_move? hreceive hpick hm) h.1).trans (ih h.2)

end

/-! ### What the tasks have done -/

/-- The request of a task, and what it has done with the states it found. -/
structure TaskLog (S : Sig) (σ ρ : Type) where
  request : ρ
  seen : List (σ × S.Event) := []

def TaskLog.events (x : TaskLog S σ ρ) : List S.Event := x.seen.map Prod.snd

def noteTasks (t : List (TaskLog S σ ρ)) (c : Conf S σ ε) : Move S ε ρ → List (TaskLog S σ ρ)
  | .spawn r => t ++ [{ request := r }]
  | .task i e => t.modify i fun x => { x with seen := x.seen ++ [(c.state, e)] }
  | _ => t

/-- A task has done the first part of its program, and has the rest before it. -/
structure Logged (L : Loop S σ ε ρ) (c : Conf S σ ε) (t : List (TaskLog S σ ρ)) : Prop where
  length : t.length = c.tasks.length
  ready : ∀ x ∈ t, ∀ y ∈ x.seen, L.machine.ready y.2.1 y.1 y.2.2
  running : ∀ (i : Nat) (x : TaskLog S σ ρ) p, t[i]? = some x → c.tasks[i]? = some (some p) →
    Reaches (L.serve x.request) x.events p
  finished : ∀ (i : Nat) (x : TaskLog S σ ρ), t[i]? = some x → c.tasks[i]? = some none →
    Runs (L.serve x.request) x.events ()

namespace Logged
variable {L : Loop S σ ε ρ} {c c' : Conf S σ ε} {t : List (TaskLog S σ ρ)} {m : Move S ε ρ}

theorem start (L : Loop S σ ε ρ) (s : σ) : Logged L ⟨s, none, []⟩ [] where
  length := rfl
  ready _ hx := by cases hx
  running _ _ _ hx := by cases hx
  finished _ _ hx := by cases hx

theorem exists_log (h : Logged L c t) {i : Nat} {p : Option (Prog S Unit)} (hi : c.tasks[i]? = some p) :
    ∃ x, t[i]? = some x :=
  ⟨_, List.getElem?_eq_getElem (h.length ▸ (List.getElem?_eq_some_iff.1 hi).1)⟩

/-- The tasks do not depend on the state and on what the loop does. -/
theorem congr (h : Logged L c t) (hc : c'.tasks = c.tasks) : Logged L c' t := by
  obtain ⟨hlength, hready, hrunning, hfinished⟩ := h
  exact ⟨hc ▸ hlength, hready, hc ▸ hrunning, hc ▸ hfinished⟩

theorem spawn (h : Logged L c t) {r : ρ} (hc : c'.tasks = c.tasks ++ [some (L.serve r)]) :
    Logged L c' (t ++ [{ request := r }]) where
  length := by rw [hc, List.length_append, List.length_append, h.length]; rfl
  ready x hx y hy := by
    rcases List.mem_append.1 hx with hx | hx
    · exact h.ready x hx y hy
    · obtain rfl := List.mem_singleton.1 hx
      cases hy
  running i x p hx hp := by
    rw [hc] at hp
    rcases Nat.lt_trichotomy i t.length with hlt | rfl | hgt
    · rw [List.getElem?_append_left hlt] at hx
      rw [List.getElem?_append_left (h.length ▸ hlt)] at hp
      exact h.running i x p hx hp
    · rw [List.getElem?_concat_length] at hx
      rw [h.length, List.getElem?_concat_length] at hp
      obtain rfl := Option.some.inj hx
      obtain rfl := Option.some.inj (Option.some.inj hp)
      exact .refl _
    · rw [List.getElem?_eq_none (by simp; omega)] at hx
      cases hx
  finished i x hx hp := by
    rw [hc] at hp
    rcases Nat.lt_trichotomy i t.length with hlt | rfl | hgt
    · rw [List.getElem?_append_left hlt] at hx
      rw [List.getElem?_append_left (h.length ▸ hlt)] at hp
      exact h.finished i x hx hp
    · rw [h.length, List.getElem?_concat_length] at hp
      cases hp
    · rw [List.getElem?_eq_none (by simp; omega)] at hx
      cases hx

theorem task (h : Logged L c t) {i : Nat} {o : S.Op} {k : S.Ans o → Prog S Unit} {a : S.Ans o}
    (hi : c.tasks[i]? = some (some (vis o k))) (ha : L.machine.ready o c.state a)
    (hc : c'.tasks = c.tasks.set i (some (k a))) :
    Logged L c' (t.modify i fun x => { x with seen := x.seen ++ [(c.state, ⟨o, a⟩)] }) where
  length := by rw [hc, List.length_modify, List.length_set, h.length]
  ready x hx y hy := by
    obtain ⟨j, hj⟩ := List.mem_iff_getElem?.1 hx
    rw [List.getElem?_modify] at hj
    obtain ⟨z, hz, rfl⟩ := Option.map_eq_some_iff.1 hj
    have hmem := List.mem_of_getElem? hz
    by_cases hij : i = j
    · rw [if_pos hij] at hy
      rcases List.mem_append.1 hy with hy | hy
      · exact h.ready z hmem y hy
      · obtain rfl := List.mem_singleton.1 hy
        exact ha
    · rw [if_neg hij] at hy
      exact h.ready z hmem y hy
  running j x p hx hp := by
    rw [hc] at hp
    rw [List.getElem?_modify] at hx
    obtain ⟨z, hz, rfl⟩ := Option.map_eq_some_iff.1 hx
    by_cases hij : i = j
    · subst hij
      rw [List.getElem?_set_self (List.getElem?_eq_some_iff.1 hi).1] at hp
      obtain rfl := Option.some.inj (Option.some.inj hp)
      have hreach := h.running i z _ hz hi
      simpa [TaskLog.events] using Reaches.append_iff.2 ⟨_, hreach, .vis (.refl (k a))⟩
    · rw [List.getElem?_set_ne hij] at hp
      simpa only [if_neg hij] using h.running j z p hz hp
  finished j x hx hp := by
    rw [hc] at hp
    rw [List.getElem?_modify] at hx
    obtain ⟨z, hz, rfl⟩ := Option.map_eq_some_iff.1 hx
    by_cases hij : i = j
    · subst hij
      rw [List.getElem?_set_self (List.getElem?_eq_some_iff.1 hi).1] at hp
      cases hp
    · rw [List.getElem?_set_ne hij] at hp
      simpa only [if_neg hij] using h.finished j z hz hp

theorem finish (h : Logged L c t) {i : Nat} (hi : c.tasks[i]? = some (some (ret ())))
    (hc : c'.tasks = c.tasks.set i none) : Logged L c' t where
  length := by rw [hc, List.length_set, h.length]
  ready := h.ready
  running j x p hx hp := by
    rw [hc] at hp
    by_cases hij : i = j
    · subst hij
      rw [List.getElem?_set_self (List.getElem?_eq_some_iff.1 hi).1] at hp
      cases hp
    · exact h.running j x p hx ((List.getElem?_set_ne hij).symm.trans hp)
  finished j x hx hp := by
    rw [hc] at hp
    by_cases hij : i = j
    · subst hij
      exact reaches_ret.1 (h.running i x _ hx hi)
    · exact h.finished j x hx ((List.getElem?_set_ne hij).symm.trans hp)

/-- One move. -/
theorem step (h : Logged L c t) (hs : Step L c m c') : Logged L c' (noteTasks t c m) := by
  cases hs with
  | take _ | main _ | ends | drops _ | arrival _ => exact h.congr rfl
  | spawn => exact h.spawn rfl
  | task hi ha => exact h.task hi ha rfl
  | finish hi => exact h.finish hi rfl

end Logged

/-- What has been done for the event that is being handled. -/
def noteMain (t : List S.Event) (_ : Conf S σ ε) : Move S ε ρ → List S.Event
  | .take _ => []
  | .main e => t ++ [e]
  | _ => t

/-- The loop has done the first part of the program of its event, and has the rest before it. -/
def MainLogged (L : Loop S σ ε ρ) (c : Conf S σ ε) (t : List S.Event) : Prop :=
  ∀ ev p, c.current = some (ev, p) → Reaches (L.handle ev) t p

theorem MainLogged.step {L : Loop S σ ε ρ} {c c' : Conf S σ ε} {t : List S.Event} {m : Move S ε ρ}
    (h : MainLogged L c t) (hs : Step L c m c') : MainLogged L c' (noteMain t c m) := by
  intro ev p hcur
  cases hs with
  | take _ =>
    obtain ⟨rfl, rfl⟩ := Prod.mk.inj (Option.some.inj hcur)
    exact .refl _
  | @main _ _ ev' o k a _ =>
    obtain ⟨rfl, rfl⟩ := Prod.mk.inj (Option.some.inj hcur)
    exact Reaches.append_iff.2 ⟨_, h ev' _ rfl, .vis (.refl _)⟩
  | ends | drops _ | spawn => cases hcur
  | arrival _ | task _ _ | finish _ => exact h ev p hcur

theorem Step.of_take {L : Loop S σ ε ρ} {c c' : Conf S σ ε} {ev : ε} (h : Step L c (.take ev) c') :
    c'.current = some (ev, L.handle ev) ∧ c'.tasks = c.tasks := by
  cases h
  exact ⟨rfl, rfl⟩

theorem Step.of_ends {L : Loop S σ ε ρ} {c c' : Conf S σ ε} (h : Step L c .ends c') :
    c'.current = none ∧ c'.state = c.state := by
  cases h
  exact ⟨rfl, rfl⟩

theorem Step.of_drops {L : Loop S σ ε ρ} {c c' : Conf S σ ε} (h : Step L c .drops c') :
    (c'.current = none ∧ c'.state = c.state) ∧ ∃ ev o k, c.current = some (ev, vis o k) ∧ L.mayDrop ev o := by
  cases h with
  | drops hd => exact ⟨⟨rfl, rfl⟩, _, _, _, rfl, hd⟩

/-- An event stays until it ends or is dropped. -/
theorem Step.current {L : Loop S σ ε ρ} {c c' : Conf S σ ε} {m : Move S ε ρ} {ev : ε} {p : Prog S Unit}
    (h : Step L c m c') (hcur : c.current = some (ev, p)) :
    m = .ends ∨ m = .drops ∨ ∃ p', c'.current = some (ev, p') := by
  cases h with
  | take _ | spawn => cases hcur
  | main _ =>
    obtain ⟨rfl, -⟩ := Prod.mk.inj (Option.some.inj hcur)
    exact .inr (.inr ⟨_, rfl⟩)
  | ends => exact .inl rfl
  | drops _ => exact .inr (.inl rfl)
  | arrival _ | task _ _ | finish _ => exact .inr (.inr ⟨p, hcur⟩)

/-- The number of tasks that have not finished. -/
def Conf.running (c : Conf S σ ε) : Nat := c.tasks.countP Option.isSome

theorem Conf.running_eq_zero {c : Conf S σ ε} : c.running = 0 ↔ ∀ x ∈ c.tasks, x = none := by
  simp [Conf.running, List.countP_eq_zero]

/-- A counter that goes up with a new task and down with a finished one counts the tasks that are running. -/
theorem Step.counted {L : Loop S σ ε ρ} {c c' : Conf S σ ε} {m : Move S ε ρ} (count : σ → Nat)
    (hnext : ∀ o s a, count (L.machine.next o s a) = count s)
    (hreceives : ∀ {s ev s'}, L.receives s ev s' → count s' = count s)
    (harrives : ∀ {s s'}, L.arrives s s' → count s' = count s)
    (hspawned : ∀ s, count (L.spawned s) = count s + 1) (hfinished : ∀ s, count (L.finished s) = count s - 1)
    (h : count c.state = c.running) (hs : Step L c m c') : count c'.state = c'.running := by
  have hset : ∀ {ts : List (Option (Prog S Unit))} {i : Nat} {p : Prog S Unit} (x : Option (Prog S Unit)),
      ts[i]? = some (some p) →
        (ts.set i x).countP Option.isSome + 1 = ts.countP Option.isSome + x.toList.length := by
    intro ts i p x hi
    obtain ⟨hlt, hp⟩ := List.getElem?_eq_some_iff.1 hi
    have hpos : 0 < ts.countP Option.isSome :=
      List.countP_pos_iff.2 ⟨_, List.getElem_mem hlt, by rw [hp]; rfl⟩
    rw [List.countP_set hlt, hp]
    cases x <;> simp <;> omega
  cases hs with
  | take hr => exact (hreceives hr).trans h
  | main _ => exact (hnext ..).trans h
  | ends | drops _ => exact h
  | arrival ha => exact (harrives ha).trans h
  | spawn =>
    refine (hspawned _).trans ?_
    show count _ + 1 = (_ ++ [some _]).countP Option.isSome
    rw [List.countP_append]
    exact congrArg (· + 1) h
  | @task s cur ts i o k a hi _ =>
    have hsame := hset (some (k a)) hi
    exact (hnext ..).trans (h.trans (Nat.add_right_cancel hsame).symm)
  | @finish s cur ts i hi =>
    have hless : (ts.set i none).countP Option.isSome + 1 = ts.countP Option.isSome := hset none hi
    have hcount : count s = ts.countP Option.isSome := h
    show count (L.finished s) = (ts.set i none).countP Option.isSome
    rw [hfinished, hcount, ← hless]
    rfl

end Loop
