import SshWarden.SignalR

/-!
# Hostile frame sizes

The size at the start of a frame is the hub's word. A debug build panics where reading it overflows; the
release build is compiled without overflow checks, so that the sum of the two sizes wraps around, passes
the check against the length of the message and becomes the end of a slice that starts behind it.
-/

namespace SshWarden

/-- A slice whose end is before its start. -/
inductive SlicePanic
  | order (start stop : Nat)
deriving DecidableEq, Repr

/-- `read_varint` without overflow checks: a shift takes its amount modulo the width. -/
def readVarintReleasedFrom (w : Usize) : Bytes → Nat → Nat → Nat → Option (Nat × Nat)
  | [], _, _, _ => none
  | byte :: data, result, shift, i =>
    let result := result ||| ((byte &&& 0x7f).toNat <<< (shift % w.bits)) % 2 ^ w.bits
    if byte &&& 0x80 = 0 then some (result, i + 1)
    else if 64 ≤ shift + 7 then none
    else readVarintReleasedFrom w data result (shift + 7) (i + 1)

/-- `parse_signalr_message` without overflow checks. -/
def parseSignalrMessageReleased (w : Usize) (decode : Bytes → Option Value) (data : Bytes) :
    Except SlicePanic (Option SyncEvent) :=
  match readVarintReleasedFrom w data 0 0 0 with
  | none => .ok none
  | some (payloadLen, headerSize) =>
    let payloadEnd := (headerSize + payloadLen) % 2 ^ w.bits
    if data.length < payloadEnd then .ok none
    else if payloadEnd < headerSize then .error (.order headerSize payloadEnd)
    else .ok do
      let value ← decode ((data.take payloadEnd).drop headerSize)
      updateTypeEvent (← invokedUpdateType value)

/-- Neither build stops on the message. -/
def Survives (w : Usize) (decode : Bytes → Option Value) (data : Bytes) : Prop :=
  (∃ event, parseSignalrMessage w decode data = .ok event) ∧
    ∃ event, parseSignalrMessageReleased w decode data = .ok event

/-- How many bytes at the start say that another one follows. -/
def continued : Bytes → Nat
  | [] => 0
  | byte :: data => if byte.toNat < 128 then 0 else continued data + 1

/-- The number that the bytes up to the first one that ends a size spell. -/
def spelledSize : Bytes → Nat
  | [] => 0
  | byte :: data => if byte.toNat < 128 then byte.toNat else byte.toNat % 128 + 128 * spelledSize data

/-- How many bytes the loop looks at. -/
def sizeBytes (data : Bytes) : Nat := min 10 (min (continued data + 1) data.length)

/-- The last byte looked at is shifted by less than the width, and a size that ends within ten bytes
leaves room in the word for its own length. -/
structure SizeFits (w : Usize) (data : Bytes) : Prop where
  shifts : 7 * sizeBytes data < w.bits + 7
  sum : continued data < data.length → continued data < 10 →
    continued data + 1 + spelledSize data % 2 ^ w.bits < 2 ^ w.bits

variable {w : Usize} {decode : Bytes → Option Value} {data : Bytes}

/-- One more group of a size that is read modulo the word. -/
theorem or_group {acc group shift b : Nat} (h : acc < 2 ^ shift) :
    acc % 2 ^ b ||| (group <<< shift) % 2 ^ b = (acc + group * 2 ^ shift) % 2 ^ b := by
  rw [← Nat.or_mod_two_pow, or_shiftLeft_eq h]

/-- The loop at byte `i`, where the groups before it spell `acc`. -/
theorem readVarintFrom_eq {acc i : Nat} (hi : i < 10) (hbits : 7 * i < w.bits + 7) (hacc : acc < 2 ^ (7 * i)) :
    readVarintFrom w data (acc % 2 ^ w.bits) (7 * i) i =
      if 7 * (i + min (10 - i) (min (continued data + 1) data.length)) < w.bits + 7 then
        .ok (if continued data < data.length ∧ i + continued data < 10 then
          some ((acc + spelledSize data * 2 ^ (7 * i)) % 2 ^ w.bits, i + continued data + 1) else none)
      else .error .overflow := by
  induction data generalizing acc i with
  | nil => simp [readVarintFrom, hbits]
  | cons byte data ih =>
    by_cases hshift : 7 * i < w.bits
    · rw [readVarintFrom, Usize.shl, if_pos hshift, UInt8.toNat_and_127]
      simp only [except_ok_bind, or_group hacc]
      by_cases hlast : byte.toNat < 128
      · rw [if_pos ((UInt8.and_128_eq_zero byte).2 hlast)]
        simp only [continued, spelledSize, if_pos hlast, List.length_cons, Nat.mod_eq_of_lt hlast]
        rw [if_pos (by omega), if_pos ⟨by omega, by omega⟩]
        rfl
      · rw [if_neg fun h => hlast ((UInt8.and_128_eq_zero byte).1 h)]
        simp only [continued, spelledSize, if_neg hlast, List.length_cons]
        by_cases hlimit : 64 ≤ 7 * i + 7
        · rw [if_pos hlimit, if_pos (by omega), if_neg (by omega)]
          rfl
        · have hacc' : acc + byte.toNat % 128 * 2 ^ (7 * i) < 2 ^ (7 * (i + 1)) := by
            have hpow : 2 ^ (7 * (i + 1)) = 128 * 2 ^ (7 * i) := by rw [Nat.mul_add, Nat.pow_add]; omega
            have : byte.toNat % 128 * 2 ^ (7 * i) ≤ 127 * 2 ^ (7 * i) := Nat.mul_le_mul_right _ (by omega)
            omega
          have hsum : acc + byte.toNat % 128 * 2 ^ (7 * i) + spelledSize data * 2 ^ (7 * (i + 1))
              = acc + (byte.toNat % 128 + 128 * spelledSize data) * 2 ^ (7 * i) := by
            rw [Nat.mul_add 7, Nat.pow_add]; ring
          have hread : i + 1 + min (10 - (i + 1)) (min (continued data + 1) data.length)
              = i + min (10 - i) (min (continued data + 1 + 1) (data.length + 1)) := by omega
          have hend : i + 1 + continued data = i + (continued data + 1) := by omega
          rw [if_neg hlimit, show 7 * i + 7 = 7 * (i + 1) by omega, ih (by omega) (by omega) hacc', hsum,
            hread, hend]
          simp only [Nat.add_lt_add_iff_right]
    · rw [readVarintFrom, Usize.shl, if_neg hshift, if_neg (by rw [List.length_cons]; omega)]
      rfl

theorem readVarint_eq :
    readVarint w data =
      if 7 * sizeBytes data < w.bits + 7 then
        .ok (if continued data < data.length ∧ continued data < 10 then
          some (spelledSize data % 2 ^ w.bits, continued data + 1) else none)
      else .error .overflow := by
  have h := @readVarintFrom_eq w data 0 0 (by decide) (by omega) (by decide)
  simp only [Nat.zero_mod, Nat.mul_zero, Nat.zero_add, Nat.pow_zero, Nat.mul_one, Nat.sub_zero] at h
  exact h

/-- Where nothing overflows the two builds read the same. -/
theorem readVarintReleasedFrom_eq {result shift i : Nat} {r : Option (Nat × Nat)}
    (h : readVarintFrom w data result shift i = .ok r) :
    readVarintReleasedFrom w data result shift i = r := by
  induction data generalizing result shift i with
  | nil => exact Except.ok.inj h
  | cons byte data ih =>
    rw [readVarintFrom] at h
    obtain ⟨group, hgroup, h⟩ := except_bind_ok h
    rw [Usize.shl] at hgroup
    split at hgroup
    · next hshift =>
      obtain rfl := Except.ok.inj hgroup
      rw [readVarintReleasedFrom, Nat.mod_eq_of_lt hshift]
      split at h
      · next hlast => rw [if_pos hlast]; exact Except.ok.inj h
      · next hlast =>
        rw [if_neg hlast]
        split at h
        · next hlimit => rw [if_pos hlimit]; exact Except.ok.inj h
        · next hlimit => rw [if_neg hlimit]; exact ih h
    · cases hgroup

theorem parseSignalrMessageReleased_eq {event : Option SyncEvent}
    (h : parseSignalrMessage w decode data = .ok event) :
    parseSignalrMessageReleased w decode data = .ok event := by
  rw [parseSignalrMessage] at h
  obtain ⟨r, hread, h⟩ := except_bind_ok h
  rw [parseSignalrMessageReleased, readVarintReleasedFrom_eq hread]
  cases r with
  | none => exact congrArg Except.ok (Except.ok.inj h)
  | some r =>
    obtain ⟨payloadEnd, hadd, h⟩ := except_bind_ok h
    rw [Usize.add] at hadd
    split at hadd
    · next hsum =>
      obtain rfl := Except.ok.inj hadd
      dsimp only
      rw [Nat.mod_eq_of_lt hsum, if_neg (show ¬r.2 + r.1 < r.2 by omega)]
      split at h
      · next hlong => rw [if_pos hlong]; exact congrArg Except.ok (Except.ok.inj h)
      · next hlong => rw [if_neg hlong]; exact congrArg Except.ok (Except.ok.inj h)
    · cases hadd

/-- The debug build stops exactly on the sizes that do not fit. -/
theorem parseSignalrMessage_ok_iff :
    (∃ event, parseSignalrMessage w decode data = .ok event) ↔ SizeFits w data := by
  rw [parseSignalrMessage, readVarint_eq]
  by_cases hshifts : 7 * sizeBytes data < w.bits + 7
  · rw [if_pos hshifts, except_ok_bind]
    by_cases hend : continued data < data.length ∧ continued data < 10
    · rw [if_pos hend]
      by_cases hsum : continued data + 1 + spelledSize data % 2 ^ w.bits < 2 ^ w.bits
      · refine iff_of_true ?_ ⟨hshifts, fun _ _ => hsum⟩
        simp only [Usize.add, if_pos hsum, except_ok_bind]
        split <;> exact ⟨_, rfl⟩
      · refine iff_of_false ?_ fun h => hsum (h.sum hend.1 hend.2)
        simp only [Usize.add, if_neg hsum]
        rintro ⟨event, h⟩
        cases h
    · rw [if_neg hend]
      exact iff_of_true ⟨_, rfl⟩ ⟨hshifts, fun hl h10 => absurd ⟨hl, h10⟩ hend⟩
  · rw [if_neg hshifts]
    refine iff_of_false ?_ fun h => hshifts h.shifts
    rintro ⟨event, h⟩
    cases h

/-- A message stops neither build exactly when its size fits the word. -/
theorem survives_iff (w : Usize) (decode : Bytes → Option Value) (data : Bytes) :
    Survives w decode data ↔ SizeFits w data := by
  constructor
  · exact fun h => parseSignalrMessage_ok_iff.1 h.1
  · intro h
    obtain ⟨event, hevent⟩ := parseSignalrMessage_ok_iff.2 h
    exact ⟨⟨event, hevent⟩, event, parseSignalrMessageReleased_eq hevent⟩

/-- The size `2 ^ 64 - 1` in ten bytes. -/
def hugeSize : Bytes := List.replicate 9 0xff ++ [0x01]

/-- The message stops the debug build in the sum and the release build in the slice. -/
theorem hugeSize_stops_daemon :
    (parseSignalrMessage .bits64 twoPayloads hugeSize = .error .overflow ∧
      parseSignalrMessageReleased .bits64 twoPayloads hugeSize = .error (.order 10 9)) ∧
      ¬∀ w decode data, Survives w decode data := by
  have hdebug : parseSignalrMessage .bits64 twoPayloads hugeSize = .error .overflow := by decide
  refine ⟨⟨hdebug, by decide⟩, fun h => ?_⟩
  obtain ⟨event, hevent⟩ := (h .bits64 twoPayloads hugeSize).1
  rw [hdebug] at hevent
  cases hevent

end SshWarden
