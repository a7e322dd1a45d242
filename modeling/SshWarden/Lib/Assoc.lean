import Mathlib.Data.List.Basic

/-!
# Association maps

A finite map as a list of pairs, searched from the front. `insert` drops the old pair of its key, so
a map built by `insert` holds each key once and `ofList` keeps the last value of a repeated key.
-/

abbrev Assoc (κ ν : Type) : Type := List (κ × ν)

namespace Assoc
variable {κ ν ω : Type} [DecidableEq κ]

def get? (m : Assoc κ ν) (k : κ) : Option ν := (m.find? fun p => p.1 = k).map Prod.snd

def erase (m : Assoc κ ν) (k : κ) : Assoc κ ν := m.filter fun p => p.1 ≠ k

def insert (m : Assoc κ ν) (k : κ) (v : ν) : Assoc κ ν := (k, v) :: erase m k

/-- Insert the pairs one after the other. -/
def ofList (ps : List (κ × ν)) : Assoc κ ν := ps.foldl (fun m p => insert m p.1 p.2) []

variable {m : Assoc κ ν} {k k' : κ} {v : ν}

@[simp] theorem get?_nil (k : κ) : get? ([] : Assoc κ ν) k = none := rfl

theorem get?_cons (p : κ × ν) (m : Assoc κ ν) (k : κ) :
    get? (p :: m) k = if p.1 = k then some p.2 else get? m k := by
  unfold get?
  by_cases h : p.1 = k <;> simp [h]

theorem get?_filter (q : κ → Bool) (m : Assoc κ ν) (k : κ) :
    get? (m.filter fun p => q p.1) k = if q k then get? m k else none := by
  induction m with
  | nil => simp
  | cons p m ih =>
    by_cases hp : p.1 = k
    · subst hp
      cases hq : q p.1 <;> simp_all [get?_cons]
    · cases hq : q p.1 <;> simp_all [get?_cons]

theorem get?_erase (m : Assoc κ ν) (k k' : κ) :
    get? (erase m k) k' = if k = k' then none else get? m k' := by
  have h := get?_filter (fun k' => decide (k' ≠ k)) m k'
  rw [erase, h]
  by_cases hk : k = k' <;> simp [hk, eq_comm]

theorem get?_insert (m : Assoc κ ν) (k : κ) (v : ν) (k' : κ) :
    get? (insert m k v) k' = if k = k' then some v else get? m k' := by
  unfold insert
  rw [get?_cons, get?_erase]
  by_cases hk : k = k' <;> simp [hk]

theorem get?_eq_some_mem (h : get? m k = some v) : (k, v) ∈ m := by
  unfold get? at h
  obtain ⟨p, hp, rfl⟩ := Option.map_eq_some_iff.1 h
  have hk : p.1 = k := by simpa using List.find?_some hp
  subst hk
  exact List.mem_of_find?_eq_some hp

theorem mem_erase {p : κ × ν} (h : p ∈ erase m k) : p ∈ m := (List.mem_filter.1 h).1

theorem mem_insert {p : κ × ν} (h : p ∈ insert m k v) : p = (k, v) ∨ p ∈ m :=
  (List.mem_cons.1 h).imp_right mem_erase

theorem mem_keys_iff : k ∈ m.map Prod.fst ↔ (get? m k).isSome := by
  unfold get?
  rw [Option.isSome_map, List.find?_isSome, List.mem_map]
  simp

theorem mem_keys_erase (m : Assoc κ ν) (k k' : κ) :
    k' ∈ (erase m k).map Prod.fst ↔ k' ∈ m.map Prod.fst ∧ k' ≠ k := by
  simp only [erase, List.mem_map, List.mem_filter, decide_eq_true_eq]
  constructor
  · rintro ⟨p, ⟨hp, hk⟩, rfl⟩
    exact ⟨⟨p, hp, rfl⟩, hk⟩
  · rintro ⟨⟨p, hp, rfl⟩, hk⟩
    exact ⟨p, ⟨hp, hk⟩, rfl⟩

theorem nodup_insert (h : (m.map Prod.fst).Nodup) (k : κ) (v : ν) : ((insert m k v).map Prod.fst).Nodup := by
  rw [insert, List.map_cons, List.nodup_cons, mem_keys_erase]
  exact ⟨fun hk => hk.2 rfl, h.sublist (List.filter_sublist.map _)⟩

/-- With each key once, every pair is found. -/
theorem get?_of_mem (h : (m.map Prod.fst).Nodup) {p : κ × ν} (hp : p ∈ m) : get? m p.1 = some p.2 := by
  induction m with
  | nil => exact absurd hp List.not_mem_nil
  | cons q m ih =>
    obtain ⟨hq, hm⟩ := List.nodup_cons.1 h
    rw [get?_cons]
    rcases List.mem_cons.1 hp with rfl | hp
    · exact if_pos rfl
    · have hne : q.1 ≠ p.1 := fun hkey => hq (hkey ▸ List.mem_map_of_mem hp)
      rw [if_neg hne, ih hm hp]

/-- `m` holds the keys of `ps` once each, with their last values. -/
structure LastWins (m : Assoc κ ν) (ps : List (κ × ν)) : Prop where
  nodup : (m.map Prod.fst).Nodup
  get? : ∀ k, get? m k = Assoc.get? ps.reverse k

namespace LastWins
variable {ps qs : List (κ × ν)}

theorem nil : LastWins ([] : Assoc κ ν) [] := ⟨List.nodup_nil, fun _ => rfl⟩

theorem insert (h : LastWins m ps) (k : κ) (v : ν) : LastWins (Assoc.insert m k v) (ps ++ [(k, v)]) where
  nodup := nodup_insert h.nodup k v
  get? k' := by
    rw [get?_insert, List.reverse_append, List.reverse_singleton, List.singleton_append, get?_cons, h.get?]

theorem foldl_insert (h : LastWins m ps) (qs : List (κ × ν)) :
    LastWins (qs.foldl (fun m p => Assoc.insert m p.1 p.2) m) (ps ++ qs) := by
  induction qs generalizing m ps with
  | nil => simpa using h
  | cons q qs ih => simpa using ih (h.insert q.1 q.2)

theorem ofList (ps : List (κ × ν)) : LastWins (Assoc.ofList ps) ps := by
  simpa [Assoc.ofList] using nil.foldl_insert ps

end LastWins

end Assoc
