import SshWarden.Data
import SshWarden.Lib.Varint

/-!
# Hub frames

The hub speaks the SignalR MessagePack protocol over a WebSocket: every hub message is a frame, a
variable-length size followed by the MessagePack payload. The client answers the first WebSocket
message with the handshake test and every later binary message with `parseSignalrMessage`, which
reads one frame and ignores what follows it.
-/

namespace SshWarden

/-- The word size of the platform. -/
inductive Usize
  | bits32 | bits64
deriving DecidableEq, Repr

def Usize.bits : Usize → Nat
  | .bits32 => 32
  | .bits64 => 64

theorem Usize.bits_le (w : Usize) : w.bits ≤ 64 := by cases w <;> decide

/-- What stops the process: the release profile aborts on a panic. -/
inductive Panic
  | overflow
deriving DecidableEq, Repr

/-- `a + b` on `usize`. -/
def Usize.add (w : Usize) (a b : Nat) : Except Panic Nat :=
  if a + b < 2 ^ w.bits then .ok (a + b) else .error .overflow

/-- `a << shift` on `usize`. -/
def Usize.shl (w : Usize) (a shift : Nat) : Except Panic Nat :=
  if shift < w.bits then .ok ((a <<< shift) % 2 ^ w.bits) else .error .overflow

/-- A decoded MessagePack value; `other` are nil, booleans, floats, binary and extension values. A
string is `none` when its bytes are no UTF-8. -/
inductive Value
  | integer (n : Int)
  | string (s : Option String)
  | array (xs : List Value)
  | map (ps : List (Value × Value))
  | other

namespace Value

def asU64 : Value → Option Nat
  | integer n => if 0 ≤ n then some n.toNat else none
  | _ => none

def asStr : Value → Option String
  | string s => s
  | _ => none

def asArray : Value → Option (List Value)
  | array xs => some xs
  | _ => none

def asMap : Value → Option (List (Value × Value))
  | map ps => some ps
  | _ => none

end Value

/-- The loop of `read_varint`, at byte `i` with the groups before it in `result`. -/
def readVarintFrom (w : Usize) : Bytes → Nat → Nat → Nat → Except Panic (Option (Nat × Nat))
  | [], _, _, _ => .ok none
  | byte :: data, result, shift, i => do
    let group ← w.shl (byte &&& 0x7f).toNat shift
    if byte &&& 0x80 = 0 then
      return some (result ||| group, i + 1)
    if 64 ≤ shift + 7 then
      return none
    readVarintFrom w data (result ||| group) (shift + 7) (i + 1)

/-- The size at the start of `data` and how many bytes it takes. -/
def readVarint (w : Usize) (data : Bytes) : Except Panic (Option (Nat × Nat)) :=
  readVarintFrom w data 0 0 0

def extractUpdateType (value : Value) : Option Nat := do
  let map ← value.asMap
  let (_, v) ← map.find? fun p => p.1.asStr = some "Type" ∨ p.1.asStr = some "type"
  v.asU64

/-- The update type of `[1, headers, invocationId, target, arguments]`. -/
def invokedUpdateType (value : Value) : Option Nat := do
  let arr ← value.asArray
  let msgType ← (← arr[0]?).asU64
  if msgType = 1 then
    let arguments ← (← arr[4]?).asArray
    extractUpdateType (← arguments[0]?)
  else
    none

def updateTypeEvent (updateType : Nat) : Option SyncEvent :=
  if updateType ∈ [0, 1, 2, 4, 5, 6] then some .cipherChanged
  else if updateType = 11 then some .logOut
  else none

/-- `decode` is `rmpv::decode::read_value` on the payload. -/
def parseSignalrMessage (w : Usize) (decode : Bytes → Option Value) (data : Bytes) :
    Except Panic (Option SyncEvent) := do
  match ← readVarint w data with
  | none => return none
  | some (payloadLen, headerSize) =>
    let payloadEnd ← w.add headerSize payloadLen
    if data.length < payloadEnd then
      return none
    return do
      let value ← decode ((data.take payloadEnd).drop headerSize)
      updateTypeEvent (← invokedUpdateType value)

/-- `RECORD_SEP` -/
def recordSep : UInt8 := 0x1e

def isHandshakeBytes (bytes : Bytes) : Bool :=
  let bytes := if bytes.getLast? = some recordSep then bytes.dropLast else bytes
  (utf8 "{}").isPrefixOf bytes

/-- A WebSocket message; `control` are pings and pongs. -/
inductive Message
  | text (bytes : Bytes)
  | binary (bytes : Bytes)
  | control
  | close

def isHandshakeResponse : Message → Bool
  | .text bytes => isHandshakeBytes bytes
  | .binary bytes => isHandshakeBytes bytes
  | _ => false

/-- The events the read loop of `run_message_loop` forwards. Text messages are only looked at for
pings. -/
def readLoop (w : Usize) (decode : Bytes → Option Value) : List Message → Except Panic (List SyncEvent)
  | [] => .ok []
  | .binary data :: messages => do
    let event ← parseSignalrMessage w decode data
    return event.toList ++ (← readLoop w decode messages)
  | .close :: _ => .ok []
  | _ :: messages => readLoop w decode messages

/-- The events of one connection: `connect_and_initialize`, then the read loop. -/
def session (w : Usize) (decode : Bytes → Option Value) : List Message → Except Panic (List SyncEvent)
  | [] => .ok []
  | first :: messages => if isHandshakeResponse first then readLoop w decode messages else .ok []

/-! ## Frames -/

/-- A well-formed frame: a size that spells the length of a MessagePack payload. The size is as long
as a word can use and the frame fits into memory. -/
structure Frame (w : Usize) (decode : Bytes → Option Value) where
  size : Bytes
  payload : Bytes
  value : Value
  spells : Varint size payload.length
  size_fits : 7 * size.length < w.bits + 7
  fits : size.length + payload.length < 2 ^ w.bits
  decoded : decode payload = some value

variable {w : Usize} {decode : Bytes → Option Value}

namespace Frame

def bytes (f : Frame w decode) : Bytes := f.size ++ f.payload

def event (f : Frame w decode) : Option SyncEvent := (invokedUpdateType f.value).bind updateTypeEvent

/-- The payload invokes the client with an update type it acts on. -/
def Announces (f : Frame w decode) : Prop :=
  ∃ u ∈ [0, 1, 2, 4, 5, 6, 11], invokedUpdateType f.value = some u

/-- The bytes of several frames, one after the other. -/
def concat (fs : List (Frame w decode)) : Bytes := (fs.map bytes).flatten

end Frame

/-- The record a hub accepts the handshake with. -/
def handshakeRecord : Bytes := utf8 "{}" ++ [recordSep]

theorem updateTypeEvent_eq_none {u : Nat} : updateTypeEvent u = none ↔ u ∉ [0, 1, 2, 4, 5, 6, 11] := by
  unfold updateTypeEvent
  split
  · next h => simp only [reduceCtorEq, false_iff, not_not]; simp at h ⊢; omega
  · split
    · next h => subst h; simp
    · next h h' => simp at h ⊢; omega

theorem Frame.event_eq_none {f : Frame w decode} : f.event = none ↔ ¬f.Announces := by
  unfold Frame.event Frame.Announces
  cases h : invokedUpdateType f.value with
  | none => simp
  | some u => rw [Option.bind_some, updateTypeEvent_eq_none]; simp

theorem Usize.shl_eq {a shift : Nat} (hs : shift < w.bits) (ha : a * 2 ^ shift < 2 ^ w.bits) :
    w.shl a shift = .ok (a <<< shift) := by
  rw [Usize.shl, if_pos hs, Nat.mod_eq_of_lt (by rwa [Nat.shiftLeft_eq])]

/-- The loop reads a size that fits a word, whatever follows it. -/
theorem readVarintFrom_append {size : Bytes} {n : Nat} (h : Varint size n) (rest : Bytes)
    {acc shift i : Nat} (hacc : acc < 2 ^ shift) (hn : n * 2 ^ shift < 2 ^ w.bits)
    (hs : 7 * size.length + shift < w.bits + 7) :
    readVarintFrom w (size ++ rest) acc shift i = .ok (some (acc + n * 2 ^ shift, i + size.length)) := by
  induction h generalizing acc shift i with
  | @last b hb =>
    simp only [List.length_singleton] at hs
    have hb' : (b &&& 0x7f).toNat = b.toNat := by rw [UInt8.toNat_and_127]; omega
    rw [List.singleton_append, readVarintFrom, hb', Usize.shl_eq (by omega) hn]
    simp only [except_ok_bind, if_pos ((UInt8.and_128_eq_zero b).2 hb), or_shiftLeft_eq hacc]
    rfl
  | @more b bs n hb t ih =>
    have hlen := t.length_pos
    have hw := w.bits_le
    simp only [List.length_cons] at hs
    have hpow : 2 ^ (shift + 7) = 128 * 2 ^ shift := by rw [Nat.pow_add]; omega
    have hsum : (b.toNat % 128 + 128 * n) * 2 ^ shift
        = b.toNat % 128 * 2 ^ shift + n * 2 ^ (shift + 7) := by rw [hpow]; ring
    have hgroup : b.toNat % 128 * 2 ^ shift < 2 ^ w.bits := by omega
    have hacc' : acc + b.toNat % 128 * 2 ^ shift < 2 ^ (shift + 7) := by
      have : b.toNat % 128 * 2 ^ shift ≤ 127 * 2 ^ shift := Nat.mul_le_mul_right _ (by omega)
      omega
    rw [List.cons_append, readVarintFrom, UInt8.toNat_and_127, Usize.shl_eq (by omega) hgroup]
    simp only [except_ok_bind, or_shiftLeft_eq hacc]
    rw [if_neg fun h => absurd ((UInt8.and_128_eq_zero b).1 h) (by omega), if_neg (by omega)]
    rw [ih hacc' (by omega) (by omega), hsum]
    simp only [List.length_cons]
    congr 3 <;> omega

theorem readVarint_append {size : Bytes} {n : Nat} (h : Varint size n) (rest : Bytes)
    (hn : n < 2 ^ w.bits) (hs : 7 * size.length < w.bits + 7) :
    readVarint w (size ++ rest) = .ok (some (n, size.length)) := by
  have : readVarintFrom w (size ++ rest) 0 0 0 = .ok (some (0 + n * 2 ^ 0, 0 + size.length)) :=
    readVarintFrom_append h rest (by decide) (by omega) hs
  simpa [readVarint] using this

/-- Only the first frame of a message is read. -/
theorem Frame.parse_append (f : Frame w decode) (rest : Bytes) :
    parseSignalrMessage w decode (f.bytes ++ rest) = .ok f.event := by
  have hread : readVarint w (f.bytes ++ rest) = .ok (some (f.payload.length, f.size.length)) := by
    rw [Frame.bytes, List.append_assoc]
    exact readVarint_append f.spells _ (by have := f.fits; omega) f.size_fits
  have hslice : ((f.bytes ++ rest).take (f.size.length + f.payload.length)).drop f.size.length
      = f.payload := by
    rw [← List.length_append, ← Frame.bytes, List.take_left, Frame.bytes, List.drop_left]
  have hlen : ¬(f.bytes ++ rest).length < f.size.length + f.payload.length := by
    simp [Frame.bytes]
  rw [parseSignalrMessage, hread]
  simp only [except_ok_bind, Usize.add, if_pos f.fits, if_neg hlen, hslice, f.decoded]
  rfl

theorem parse_nil : parseSignalrMessage w decode [] = .ok none := rfl

/-- A message of several frames has the event of the first one. -/
theorem parse_concat (fs : List (Frame w decode)) :
    parseSignalrMessage w decode (Frame.concat fs) = .ok (fs.head?.bind Frame.event) := by
  cases fs with
  | nil => exact parse_nil
  | cons f fs => exact f.parse_append _

theorem readLoop_groups (groups : List (List (Frame w decode))) :
    readLoop w decode (groups.map fun g => .binary (Frame.concat g))
      = .ok (groups.filterMap fun g => g.head?.bind Frame.event) := by
  induction groups with
  | nil => rfl
  | cons g groups ih =>
    rw [List.map_cons, readLoop, parse_concat, ih]
    simp only [except_ok_bind, List.filterMap_cons]
    cases g.head?.bind Frame.event <;> rfl

/-- Frames delivered each in its own message. -/
theorem readLoop_frames (fs : List (Frame w decode)) :
    readLoop w decode (fs.map fun f => .binary f.bytes) = .ok (fs.filterMap Frame.event) := by
  have h := readLoop_groups (fs.map fun f => [f])
  simpa [List.filterMap_map, List.map_map, Frame.concat, Function.comp_def] using h

theorem isPrefixOf_handshakeRecord (rest : Bytes) : (utf8 "{}").isPrefixOf (utf8 "{}" ++ rest) = true :=
  List.isPrefixOf_iff_prefix.2 (List.prefix_append _ _)

theorem isHandshakeBytes_append (rest : Bytes) : isHandshakeBytes (handshakeRecord ++ rest) = true := by
  unfold isHandshakeBytes handshakeRecord
  by_cases hr : rest = []
  · subst hr; decide
  · split
    · rw [List.dropLast_append_of_ne_nil hr, List.append_assoc]; exact isPrefixOf_handshakeRecord _
    · rw [List.append_assoc]; exact isPrefixOf_handshakeRecord _

theorem session_handshake (rest : Bytes) (messages : List Message) :
    session w decode (.binary (handshakeRecord ++ rest) :: messages) = readLoop w decode messages :=
  if_pos (isHandshakeBytes_append rest)

section
variable {α β : Type} (e : α → Option β)

theorem length_filterMap_head_le (groups : List (List α)) :
    (groups.filterMap fun g => g.head?.bind e).length ≤ (groups.flatten.filterMap e).length := by
  induction groups with
  | nil => exact Nat.le_refl _
  | cons g groups ih =>
    cases g with
    | nil => exact ih
    | cons f t =>
      simp only [List.filterMap_cons, List.head?_cons, Option.bind_some, List.flatten_cons,
        List.filterMap_append, List.length_append]
      cases e f <;> simp only [List.length_cons] <;> omega

/-- Taking the heads loses nothing exactly when nothing else counts. -/
theorem filterMap_head_eq_iff (first : List α) (groups : List (List α)) :
    groups.filterMap (fun g => g.head?.bind e) = (first ++ groups.flatten).filterMap e ↔
      (∀ f ∈ first, e f = none) ∧ ∀ g ∈ groups, ∀ f ∈ g.tail, e f = none := by
  induction groups generalizing first with
  | nil => simp [eq_comm, List.filterMap_eq_nil_iff]
  | cons g groups ih =>
    cases g with
    | nil => simpa [List.filterMap_cons] using ih first
    | cons f t =>
      cases hf : e f with
      | none =>
        have := ih (first ++ f :: t)
        simp only [List.filterMap_cons, List.head?_cons, Option.bind_some, hf, List.flatten_cons,
          ← List.append_assoc, this, List.forall_mem_append, List.forall_mem_cons, List.tail_cons]
        tauto
      | some b =>
        simp only [List.filterMap_cons, List.head?_cons, Option.bind_some, hf, List.flatten_cons,
          List.cons_append, List.filterMap_append, List.forall_mem_cons, List.tail_cons]
        cases hfirst : first.filterMap e with
        | nil =>
          rw [List.nil_append, List.cons.injEq, ← List.filterMap_append, ih t, eq_self, true_and]
          exact (and_iff_right (List.filterMap_eq_nil_iff.1 hfirst)).symm
        | cons c cs =>
          have hlen := length_filterMap_head_le e groups
          constructor
          · intro h
            have := congrArg List.length h
            simp only [List.length_cons, List.length_append] at this
            omega
          · intro h
            rw [List.filterMap_eq_nil_iff.2 h.1] at hfirst
            cases hfirst

end

/-- Batching frames, behind the handshake record or behind one another, keeps the events exactly
when no frame that is not the first of its message announces anything. -/
theorem session_batched_iff (ridden : List (Frame w decode)) (groups : List (List (Frame w decode))) :
    session w decode (.binary (handshakeRecord ++ Frame.concat ridden)
        :: groups.map fun g => .binary (Frame.concat g))
      = session w decode (.binary handshakeRecord
        :: (ridden ++ groups.flatten).map fun f => .binary f.bytes) ↔
      (∀ f ∈ ridden, ¬f.Announces) ∧ ∀ g ∈ groups, ∀ f ∈ g.tail, ¬f.Announces := by
  have h : session w decode (.binary (handshakeRecord ++ []) :: _) = readLoop w decode _ :=
    session_handshake [] ((ridden ++ groups.flatten).map fun f => .binary f.bytes)
  rw [List.append_nil] at h
  rw [session_handshake, h, readLoop_groups, readLoop_frames, Except.ok.injEq, filterMap_head_eq_iff]
  simp only [Frame.event_eq_none]

/-! ## A log-out behind a ping -/

/-- `[6]` and `[1, {}, nil, "r", [{"Type": 11}]]`. -/
def pingPayload : Bytes := [0x91, 6]

def logOutPayload : Bytes :=
  [0x95, 1, 0x80, 0xc0, 0xa1, 0x72, 0x91, 0x81, 0xa4, 0x54, 0x79, 0x70, 0x65, 11]

/-- MessagePack on these two payloads. -/
def twoPayloads (payload : Bytes) : Option Value :=
  if payload = pingPayload then some (.array [.integer 6])
  else if payload = logOutPayload then
    some (.array [.integer 1, .map [], .other, .string (some "r"),
      .array [.map [(.string (some "Type"), .integer 11)]]])
  else none

def pingFrame : Frame .bits64 twoPayloads :=
  ⟨[2], pingPayload, _, .last (by decide), by decide, by decide, rfl⟩

def logOutFrame : Frame .bits64 twoPayloads :=
  ⟨[14], logOutPayload, _, .last (by decide), by decide, by decide, rfl⟩

/-- In one message with a ping before it the log-out is not seen. -/
theorem logOut_behind_ping_lost :
    session .bits64 twoPayloads
        [.binary handshakeRecord, .binary pingFrame.bytes, .binary logOutFrame.bytes] = .ok [.logOut] ∧
      session .bits64 twoPayloads
        [.binary handshakeRecord, .binary (Frame.concat [pingFrame, logOutFrame])] = .ok [] ∧
      session .bits64 twoPayloads
        [.binary (handshakeRecord ++ Frame.concat [pingFrame, logOutFrame])] = .ok [] := by
  decide

end SshWarden
