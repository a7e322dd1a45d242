import Mathlib.Algebra.Group.Nat.Defs
import Mathlib.Data.List.TakeWhile

/-!
# Length-prefixed strings

The wire format of SSH strings: four bytes with the length, most significant first, and the bytes.
-/

/-- `n` in four bytes, most significant first. -/
def be32 (n : Nat) : List UInt8 :=
  [UInt8.ofNat (n / 2 ^ 24), UInt8.ofNat (n / 2 ^ 16), UInt8.ofNat (n / 2 ^ 8), UInt8.ofNat n]

def lengthPrefixed (bs : List UInt8) : List UInt8 := be32 bs.length ++ bs

@[simp] theorem length_be32 (n : Nat) : (be32 n).length = 4 := rfl

/-- The first byte of a length is zero exactly for the lengths of three bytes. -/
theorem takeWhile_be32 {n : Nat} (hn : n < 2 ^ 32) (rest : List UInt8) :
    (be32 n ++ rest).takeWhile (· ≠ 0) = [] ↔ n < 2 ^ 24 := by
  have hbyte : UInt8.ofNat (n / 2 ^ 24) = 0 ↔ n < 2 ^ 24 := by
    rw [← UInt8.toNat_inj, UInt8.toNat_ofNat', UInt8.toNat_zero]
    omega
  rw [be32, List.cons_append, List.takeWhile_cons, ← hbyte]
  generalize UInt8.ofNat (n / 2 ^ 24) = first
  simp

namespace List

variable {α : Type} {p : α → Bool}

/-- Reading up to a terminator reads exactly `xs` when no terminator is in it and one follows it. -/
theorem takeWhile_append_eq_left {xs ys : List α} :
    (xs ++ ys).takeWhile p = xs ↔ (∀ x ∈ xs, p x) ∧ ys.takeWhile p = [] := by
  induction xs with
  | nil => simp
  | cons x xs ih =>
    rw [List.cons_append, List.takeWhile_cons]
    by_cases hx : p x
    · simp [hx, ih]
    · simp [hx]

end List
