import Mathlib.Data.Nat.Bitwise
import Mathlib.Tactic.Ring

/-!
# Variable-length sizes

`Varint bs n`: the bytes `bs` spell `n` in base 128, least significant group first, with the high
bit set on every byte but the last.
-/

inductive Varint : List UInt8 → Nat → Prop where
  | last {b : UInt8} (h : b.toNat < 128) : Varint [b] b.toNat
  | more {b : UInt8} {bs : List UInt8} {n : Nat} (h : 128 ≤ b.toNat) (t : Varint bs n) :
      Varint (b :: bs) (b.toNat % 128 + 128 * n)

theorem Varint.length_pos {bs : List UInt8} {n : Nat} (h : Varint bs n) : 0 < bs.length := by
  cases h <;> exact Nat.succ_pos _

namespace UInt8

theorem toNat_and_127 (b : UInt8) : (b &&& 0x7f).toNat = b.toNat % 128 := by
  rw [UInt8.toNat_and]
  exact Nat.and_two_pow_sub_one_eq_mod b.toNat 7

theorem and_128_eq_zero (b : UInt8) : b &&& 0x80 = 0 ↔ b.toNat < 128 := by
  have h : ∀ i : Fin 256, i.val &&& 128 = 0 ↔ i.val < 128 := by decide +kernel
  rw [← UInt8.toNat_inj, UInt8.toNat_and]
  exact h ⟨b.toNat, b.toNat_lt⟩

end UInt8

/-- Or-ing a group in above the bits already read adds it. -/
theorem or_shiftLeft_eq {acc group shift : Nat} (h : acc < 2 ^ shift) :
    acc ||| group <<< shift = acc + group * 2 ^ shift := by
  rw [Nat.or_comm, Nat.shiftLeft_eq, Nat.mul_comm, ← Nat.two_pow_add_eq_or_of_lt h, Nat.add_comm]
