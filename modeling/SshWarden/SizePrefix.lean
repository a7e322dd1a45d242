import SshWarden.FrameSizes

/-!
# Emitted frame sizes

The size that the client writes before a frame of its own, and what reading a size gives back: the two loops
agree on every size that a word can hold, and a size that is read was as long as the one the client writes for
it, or longer. Both builds are covered.
-/

namespace SshWarden

/-- The loop of `encode_signalr_message`. -/
def encodeSize (size : Nat) : Bytes :=
  if size >>> 7 = 0 then [(size &&& 0x7f).toUInt8]
  else ((size &&& 0x7f) ||| 0x80).toUInt8 :: encodeSize (size >>> 7)
termination_by size
decreasing_by
  rw [Nat.shiftRight_eq_div_pow] at *
  omega

/-- `writeValue` is `rmpv::encode::write_value`. -/
def encodeSignalrMessage (writeValue : Value → Bytes) (value : Value) : Bytes :=
  encodeSize (writeValue value).length ++ writeValue value

def readVarintReleased (w : Usize) (data : Bytes) : Option (Nat × Nat) := readVarintReleasedFrom w data 0 0 0

/-- The first `k` bytes are a size: each but the last one says that another follows. -/
def EndsSize (data : Bytes) (k : Nat) : Prop :=
  ∃ earlier last, data.take k = earlier ++ [last] ∧ earlier.length + 1 = k ∧
    (∀ b ∈ earlier, b &&& 0x80 ≠ 0) ∧ last &&& 0x80 = 0

/-- What reading a size and writing one have to do with each other; `reads data (v, k)` says that `v` is read
from the first `k` bytes. -/
structure SizesAgree (w : Usize) (reads : Bytes → Nat × Nat → Prop) : Prop where
  emitted : ∀ n < 2 ^ w.bits, ∀ rest, reads (encodeSize n ++ rest) (n, (encodeSize n).length)
  consumed : ∀ data v k, reads data (v, k) → ∀ rest, reads (data.take k ++ rest) (v, k)
  ends : ∀ data v k, reads data (v, k) → EndsSize data k
  fits : ∀ data v k, reads data (v, k) → v < 2 ^ w.bits
  shortest : ∀ data v k, reads data (v, k) → (encodeSize v).length ≤ k

variable {w : Usize} {data : Bytes}

theorem encodeSize_of_lt {n : Nat} (h : n < 128) : encodeSize n = [n.toUInt8] := by
  have hmod : n &&& 0x7f = n := by
    have hand : n &&& 0x7f = n % 2 ^ 7 := Nat.and_two_pow_sub_one_eq_mod n 7
    omega
  have hdiv : n >>> 7 = 0 := by
    rw [Nat.shiftRight_eq_div_pow]
    omega
  rw [encodeSize, if_pos hdiv, hmod]

theorem encodeSize_of_ge {n : Nat} (h : 128 ≤ n) :
    encodeSize n = (n % 128 + 128).toUInt8 :: encodeSize (n / 128) := by
  have hdiv : n >>> 7 = n / 128 := Nat.shiftRight_eq_div_pow n 7
  have hpart : n &&& 0x7f ||| 0x80 = n % 128 + 128 := by
    have hand : n &&& 0x7f = n % 128 := Nat.and_two_pow_sub_one_eq_mod n 7
    have hor := @or_shiftLeft_eq (n % 128) 1 7 (Nat.mod_lt _ (by decide))
    rw [hand]
    exact hor
  rw [encodeSize, hdiv, if_neg (by omega), hpart]

theorem varint_encodeSize (n : Nat) : Varint (encodeSize n) n := by
  induction n using Nat.strongRecOn with
  | ind n ih =>
    by_cases h : n < 128
    · have hbyte : n.toUInt8.toNat = n := by
        rw [Nat.toUInt8_eq, UInt8.toNat_ofNat']
        omega
      have hlast := @Varint.last n.toUInt8 (by omega)
      rw [hbyte] at hlast
      rw [encodeSize_of_lt h]
      exact hlast
    · have hbyte : (n % 128 + 128).toUInt8.toNat = n % 128 + 128 := by
        rw [Nat.toUInt8_eq, UInt8.toNat_ofNat']
        omega
      have hmore := @Varint.more (n % 128 + 128).toUInt8 _ _ (by omega) (ih (n / 128) (by omega))
      have hn : (n % 128 + 128).toUInt8.toNat % 128 + 128 * (n / 128) = n := by omega
      rw [hn] at hmore
      rw [encodeSize_of_ge (by omega)]
      exact hmore

/-- A number of `k` groups takes at most `k` bytes. -/
theorem length_encodeSize_le {k n : Nat} (hk : 0 < k) (h : n < 2 ^ (7 * k)) : (encodeSize n).length ≤ k := by
  induction k generalizing n with
  | zero => exact absurd hk (Nat.lt_irrefl 0)
  | succ k ih =>
    by_cases hn : n < 128
    · rw [encodeSize_of_lt hn, List.length_singleton]
      omega
    · have hpow : 2 ^ (7 * (k + 1)) = 128 * 2 ^ (7 * k) := by rw [Nat.mul_add, Nat.pow_add]; omega
      have hpos : 0 < k := by
        rcases Nat.eq_zero_or_pos k with rfl | hpos
        · omega
        · exact hpos
      rw [encodeSize_of_ge (by omega), List.length_cons]
      exact Nat.succ_le_succ (ih hpos (by omega))

/-- Every size of the word is written in as many bytes as the word is read from. -/
theorem length_encodeSize_word {n : Nat} (h : n < 2 ^ w.bits) : 7 * (encodeSize n).length < w.bits + 7 := by
  cases w with
  | bits32 =>
    have hlen : (encodeSize n).length ≤ 5 := length_encodeSize_le (by decide) (h.trans (by decide))
    show 7 * (encodeSize n).length < 32 + 7
    omega
  | bits64 =>
    have hlen : (encodeSize n).length ≤ 10 := length_encodeSize_le (by decide) (h.trans (by decide))
    show 7 * (encodeSize n).length < 64 + 7
    omega

theorem readVarint_encodeSize {n : Nat} (h : n < 2 ^ w.bits) (rest : Bytes) :
    readVarint w (encodeSize n ++ rest) = .ok (some (n, (encodeSize n).length)) :=
  readVarint_append (varint_encodeSize n) rest h (length_encodeSize_word h)

/-- The bytes behind the end of a size change nothing. -/
theorem readVarintFrom_rest {earlier : Bytes} {last : UInt8} (he : ∀ b ∈ earlier, b &&& 0x80 ≠ 0)
    (hl : last &&& 0x80 = 0) (rest rest' : Bytes) (result shift i : Nat) :
    readVarintFrom w (earlier ++ last :: rest) result shift i =
      readVarintFrom w (earlier ++ last :: rest') result shift i := by
  induction earlier generalizing result shift i with
  | nil =>
    rw [List.nil_append, List.nil_append, readVarintFrom, readVarintFrom]
    simp only [if_pos hl]
  | cons b earlier ih =>
    have ih := ih fun c hc => he c (List.mem_cons_of_mem _ hc)
    rw [List.cons_append, List.cons_append, readVarintFrom, readVarintFrom]
    simp only [if_neg (he b (List.mem_cons_self ..)), ih]

theorem readVarintReleasedFrom_rest {earlier : Bytes} {last : UInt8} (he : ∀ b ∈ earlier, b &&& 0x80 ≠ 0)
    (hl : last &&& 0x80 = 0) (rest rest' : Bytes) (result shift i : Nat) :
    readVarintReleasedFrom w (earlier ++ last :: rest) result shift i =
      readVarintReleasedFrom w (earlier ++ last :: rest') result shift i := by
  induction earlier generalizing result shift i with
  | nil =>
    rw [List.nil_append, List.nil_append, readVarintReleasedFrom, readVarintReleasedFrom, if_pos hl, if_pos hl]
  | cons b earlier ih =>
    have ih := ih fun c hc => he c (List.mem_cons_of_mem _ hc)
    rw [List.cons_append, List.cons_append, readVarintReleasedFrom, readVarintReleasedFrom]
    simp only [if_neg (he b (List.mem_cons_self ..)), ih]

/-- A group that is shifted within the word, or wraps around in it, stays below the next one. -/
theorem group_lt {byte : UInt8} {shift : Nat} :
    ((byte &&& 0x7f).toNat <<< (shift % w.bits)) % 2 ^ w.bits < 2 ^ (shift + 7) := by
  have hbyte : (byte &&& 0x7f).toNat < 2 ^ 7 := by
    rw [UInt8.toNat_and_127]
    omega
  rcases Nat.lt_or_ge shift w.bits with hs | hs
  · rw [Nat.mod_eq_of_lt hs, Nat.shiftLeft_eq, Nat.pow_add, Nat.mul_comm]
    exact (Nat.mod_le _ _).trans_lt (Nat.mul_lt_mul_of_pos_left hbyte (Nat.two_pow_pos shift))
  · exact (Nat.mod_lt _ (Nat.two_pow_pos _)).trans_le (Nat.pow_le_pow_right (by decide) (by omega))

/-- The loop at byte `i`, where a size ends. -/
theorem readVarintReleasedFrom_some {result shift i v k : Nat} (hr : result < 2 ^ shift) (hw : result < 2 ^ w.bits)
    (h : readVarintReleasedFrom w data result shift i = some (v, k)) :
    ∃ earlier last rest, data = earlier ++ last :: rest ∧ k = i + earlier.length + 1 ∧
      (∀ b ∈ earlier, b &&& 0x80 ≠ 0) ∧ last &&& 0x80 = 0 ∧ v < 2 ^ w.bits ∧
      v < 2 ^ (shift + 7 * (earlier.length + 1)) := by
  induction data generalizing result shift i with
  | nil => cases h
  | cons byte data ih =>
    have hword : result ||| ((byte &&& 0x7f).toNat <<< (shift % w.bits)) % 2 ^ w.bits < 2 ^ w.bits :=
      Nat.or_lt_two_pow hw (Nat.mod_lt _ (Nat.two_pow_pos _))
    have hgroup : result ||| ((byte &&& 0x7f).toNat <<< (shift % w.bits)) % 2 ^ w.bits < 2 ^ (shift + 7) :=
      Nat.or_lt_two_pow (hr.trans_le (Nat.pow_le_pow_right (by decide) (by omega))) group_lt
    rw [readVarintReleasedFrom] at h
    split at h
    · next hlast =>
      obtain ⟨rfl, rfl⟩ := Prod.mk.inj (Option.some.inj h)
      exact ⟨[], byte, data, rfl, rfl, fun b hb => absurd hb List.not_mem_nil, hlast, hword, hgroup⟩
    · next hmore =>
      split at h
      · cases h
      · obtain ⟨earlier, last, rest, rfl, rfl, he, hl, hv, hv'⟩ := ih hgroup hword h
        refine ⟨byte :: earlier, last, rest, rfl, ?_, ?_, hl, hv, ?_⟩
        · rw [List.length_cons]
          omega
        · intro b hb
          rcases List.mem_cons.1 hb with rfl | hb
          · exact hmore
          · exact he b hb
        · rw [List.length_cons]
          refine hv'.trans_eq (congrArg (2 ^ ·) ?_)
          omega

/-- A size that is read, with the bytes it takes. -/
theorem readVarintReleased_some {v k : Nat} (h : readVarintReleased w data = some (v, k)) :
    ∃ earlier last rest, data = earlier ++ last :: rest ∧ k = earlier.length + 1 ∧
      (∀ b ∈ earlier, b &&& 0x80 ≠ 0) ∧ last &&& 0x80 = 0 ∧ v < 2 ^ w.bits ∧ v < 2 ^ (7 * k) := by
  obtain ⟨earlier, last, rest, hdata, hk, he, hl, hv, hv'⟩ :=
    readVarintReleasedFrom_some (by decide) (Nat.two_pow_pos _) h
  rw [Nat.zero_add] at hk hv'
  exact ⟨earlier, last, rest, hdata, hk, he, hl, hv, hk ▸ hv'⟩

theorem readVarintReleased_of_readVarint {r : Option (Nat × Nat)} (h : readVarint w data = .ok r) :
    readVarintReleased w data = r := readVarintReleasedFrom_eq h

theorem take_size {earlier rest : Bytes} {last : UInt8} :
    (earlier ++ last :: rest).take (earlier.length + 1) = earlier ++ [last] := by
  rw [← List.singleton_append, ← List.append_assoc]
  exact List.take_left' (by simp)

theorem SizesAgree.of_some {reads : Bytes → Nat × Nat → Prop}
    (hemit : ∀ n < 2 ^ w.bits, ∀ rest, reads (encodeSize n ++ rest) (n, (encodeSize n).length))
    (hread : ∀ data v k, reads data (v, k) → readVarintReleased w data = some (v, k))
    (hrest : ∀ earlier last rest rest' r, (∀ b ∈ earlier, b &&& 0x80 ≠ 0) → last &&& 0x80 = 0 →
      reads (earlier ++ last :: rest) r → reads (earlier ++ last :: rest') r) : SizesAgree w reads where
  emitted := hemit
  consumed data v k h rest' := by
    obtain ⟨earlier, last, rest, rfl, rfl, he, hl, -, -⟩ := readVarintReleased_some (hread _ _ _ h)
    rw [take_size, List.append_assoc, List.singleton_append]
    exact hrest earlier last rest rest' _ he hl h
  ends data v k h := by
    obtain ⟨earlier, last, rest, rfl, rfl, he, hl, -, -⟩ := readVarintReleased_some (hread _ _ _ h)
    exact ⟨earlier, last, take_size, rfl, he, hl⟩
  fits data v k h := by
    obtain ⟨_, _, _, -, -, -, -, hv, -⟩ := readVarintReleased_some (hread _ _ _ h)
    exact hv
  shortest data v k h := by
    obtain ⟨earlier, _, _, -, hk, -, -, -, hv⟩ := readVarintReleased_some (hread _ _ _ h)
    exact length_encodeSize_le (by omega) hv

/-- Writing and reading a size agree, in the build with overflow checks and in the one without. -/
theorem sizes_agree (w : Usize) :
    SizesAgree w (fun data r => readVarint w data = .ok (some r)) ∧
      SizesAgree w (fun data r => readVarintReleased w data = some r) := by
  constructor
  · refine .of_some (fun n hn rest => readVarint_encodeSize hn rest) ?_ ?_
    · exact fun data v k h => readVarintReleased_of_readVarint h
    · intro earlier last rest rest' r he hl h
      rw [← h]
      exact readVarintFrom_rest he hl rest' rest 0 0 0
  · refine .of_some ?_ (fun data v k h => h) ?_
    · exact fun n hn rest => readVarintReleased_of_readVarint (readVarint_encodeSize hn rest)
    · intro earlier last rest rest' r he hl h
      rw [← h]
      exact readVarintReleasedFrom_rest he hl rest' rest 0 0 0

/-- A size of two bytes, the second of which adds nothing. -/
example : readVarint .bits64 [0x80, 0x00] = .ok (some (0, 2)) := by decide

end SshWarden
