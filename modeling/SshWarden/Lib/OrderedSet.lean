import Mathlib.Data.List.Nodup
import Mathlib.Tactic.Common

/-!
# Ordered sets of keyed elements

An `OrderedSet key` is a list whose elements have different keys, in the order of their insertion. An
element whose key is there already is not inserted again, so the first one with a key stays.
-/

@[ext]
structure OrderedSet {α β : Type} (key : α → β) where
  toList : List α
  nodup : (toList.map key).Nodup

namespace OrderedSet
variable {α β : Type} {key : α → β}

def empty : OrderedSet key := ⟨[], List.nodup_nil⟩

variable (s : OrderedSet key)

def keys : List β := s.toList.map key

variable [DecidableEq β]

def insert (a : α) : OrderedSet key :=
  if h : key a ∈ s.keys then s
  else
    { toList := s.toList ++ [a]
      nodup := by
        rw [List.map_append, List.map_singleton]
        exact List.nodup_append.2 ⟨s.nodup, List.nodup_singleton _, fun x hx y hy hxy =>
          h (List.mem_singleton.1 hy ▸ hxy ▸ hx)⟩ }

def erase (k : β) : OrderedSet key where
  toList := s.toList.filter fun a => key a ≠ k
  nodup := s.nodup.sublist (List.filter_sublist.map key)

def ofList (as : List α) : OrderedSet key := as.foldl (fun s a => s.insert a) empty

theorem toList_insert (a : α) : (s.insert a).toList = if key a ∈ s.keys then s.toList else s.toList ++ [a] := by
  unfold insert
  split_ifs <;> rfl

@[simp] theorem toList_erase (k : β) : (s.erase k).toList = s.toList.filter fun a => key a ≠ k := rfl

variable {s}

theorem length_erase_ne {k : β} : (s.erase k).toList.length ≠ s.toList.length ↔ k ∈ s.keys := by
  rw [toList_erase, Ne, List.length_filter_eq_length_iff]
  simp [keys]

end OrderedSet
