import Mathlib.Logic.Function.Basic
import Mathlib.Tactic.Common

/-!
# Names and the files behind them

A file is known by a number. A name leads to a file, and an open handle is the number itself: it keeps
leading to its file when the name is removed or given to another file. Every operation fails when its
fault says so, and then it changes nothing.
-/

inductive IoError
  | notFound
  | other (text : String)
deriving DecidableEq, Repr

/-- File numbers below `fresh` are in use. -/
structure Volume (N A : Type) where
  entry : N → Option Nat
  data : Nat → List A
  fresh : Nat
  entry_lt : ∀ {n i}, entry n = some i → i < fresh

namespace Volume
variable {N A : Type}

/-- What is found under a name; nothing where there is no file. -/
def contents (v : Volume N A) (n : N) : List A := (v.entry n).elim [] v.data

theorem contents_of_entry {v : Volume N A} {n : N} {i : Nat} (h : v.entry n = some i) :
    v.contents n = v.data i := by
  rw [contents, h]; rfl

theorem contents_of_none {v : Volume N A} {n : N} (h : v.entry n = none) : v.contents n = [] := by
  rw [contents, h]; rfl

/-- Written at the end of a file. -/
def append (v : Volume N A) (i : Nat) (xs : List A) : Volume N A :=
  { v with data := Function.update v.data i (v.data i ++ xs) }

@[simp] theorem entry_append (v : Volume N A) (i : Nat) (xs : List A) : (v.append i xs).entry = v.entry := rfl

@[simp] theorem data_append (v : Volume N A) (i j : Nat) (xs : List A) :
    (v.append i xs).data j = if j = i then v.data i ++ xs else v.data j :=
  Function.update_apply ..

theorem contents_append {v : Volume N A} {n : N} {i : Nat} (xs : List A) (h : v.entry n = some i) :
    (v.append i xs).contents n = v.contents n ++ xs := by
  rw [contents_of_entry h, contents_of_entry (v.entry_append i xs ▸ h), data_append, if_pos rfl]

theorem contents_append_ne {v : Volume N A} {n : N} {i : Nat} (xs : List A) (h : v.entry n ≠ some i) :
    (v.append i xs).contents n = v.contents n := by
  unfold contents
  rw [entry_append]
  cases hn : v.entry n with
  | none => rfl
  | some j =>
    have hj : j ≠ i := fun hj => h (hj ▸ hn)
    exact (data_append ..).trans (if_neg hj)

variable [DecidableEq N]

def unlink (v : Volume N A) (n : N) : Volume N A where
  entry := Function.update v.entry n none
  data := v.data
  fresh := v.fresh
  entry_lt {m i} h := by
    rw [Function.update_apply] at h
    split at h
    · cases h
    · exact v.entry_lt h

def move (v : Volume N A) (a b : N) : Volume N A where
  entry := Function.update (Function.update v.entry b (v.entry a)) a none
  data := v.data
  fresh := v.fresh
  entry_lt {m i} h := by
    rw [Function.update_apply, Function.update_apply] at h
    split at h
    · cases h
    · split at h <;> exact v.entry_lt h

def create (v : Volume N A) (n : N) : Volume N A where
  entry := Function.update v.entry n (some v.fresh)
  data := Function.update v.data v.fresh []
  fresh := v.fresh + 1
  entry_lt {m i} h := by
    rw [Function.update_apply] at h
    split at h
    · obtain rfl := Option.some.inj h
      exact Nat.lt_succ_self _
    · exact Nat.lt_succ_of_lt (v.entry_lt h)

variable (v : Volume N A) (fault : Option String)

def removeFile (n : N) : Except IoError (Volume N A) :=
  match fault with
  | some text => .error (.other text)
  | none => if (v.entry n).isSome then .ok (v.unlink n) else .error .notFound

def rename (a b : N) : Except IoError (Volume N A) :=
  match fault with
  | some text => .error (.other text)
  | none => if (v.entry a).isSome then .ok (v.move a b) else .error .notFound

/-- Opened for appending, and created where there is no file. -/
def openAppend (n : N) : Except IoError (Nat × Volume N A) :=
  match fault with
  | some text => .error (.other text)
  | none => match v.entry n with
    | some i => .ok (i, v)
    | none => .ok (v.fresh, v.create n)

variable {v fault}

@[simp] theorem entry_unlink (n m : N) : (v.unlink n).entry m = if m = n then none else v.entry m :=
  Function.update_apply ..

@[simp] theorem entry_move (a b m : N) :
    (v.move a b).entry m = if m = a then none else if m = b then v.entry a else v.entry m :=
  (Function.update_apply ..).trans (by rw [Function.update_apply])

theorem entry_move_source (a b : N) : (v.move a b).entry a = none := (entry_move ..).trans (if_pos rfl)

theorem entry_move_target {a b : N} (h : b ≠ a) : (v.move a b).entry b = v.entry a := by
  rw [entry_move, if_neg h, if_pos rfl]

@[simp] theorem entry_create (n m : N) : (v.create n).entry m = if m = n then some v.fresh else v.entry m :=
  Function.update_apply ..

theorem entry_create_self (n : N) : (v.create n).entry n = some v.fresh := (entry_create ..).trans (if_pos rfl)

theorem entry_create_of_ne {n m : N} (h : m ≠ n) : (v.create n).entry m = v.entry m :=
    (entry_create ..).trans (if_neg h)

@[simp] theorem data_create (n : N) (i : Nat) : (v.create n).data i = if i = v.fresh then [] else v.data i :=
  Function.update_apply ..

theorem contents_move {a b : N} (h : b ≠ a) : (v.move a b).contents b = v.contents a := by
  rw [contents, entry_move_target h]; rfl

theorem contents_create {n m : N} (h : m ≠ n) : (v.create n).contents m = v.contents m := by
  unfold contents
  rw [entry_create_of_ne h]
  cases hm : v.entry m with
  | none => rfl
  | some i => exact (data_create n i).trans (if_neg (Nat.ne_of_lt (v.entry_lt hm)))

theorem contents_create_self (n : N) : (v.create n).contents n = [] := by
  rw [contents, entry_create_self]
  exact (data_create ..).trans (if_pos rfl)

theorem removeFile_ok {n : N} {v' : Volume N A} :
    v.removeFile fault n = .ok v' ↔ fault = none ∧ (v.entry n).isSome ∧ v' = v.unlink n := by
  cases fault with
  | some text => simp [removeFile]
  | none =>
    unfold removeFile
    cases v.entry n <;> simp [eq_comm]

theorem removeFile_notFound {n : N} :
    v.removeFile fault n = .error .notFound ↔ fault = none ∧ v.entry n = none := by
  cases fault with
  | some text => simp [removeFile]
  | none =>
    unfold removeFile
    cases v.entry n <;> simp

theorem rename_ok {a b : N} {v' : Volume N A} :
    v.rename fault a b = .ok v' ↔ fault = none ∧ (v.entry a).isSome ∧ v' = v.move a b := by
  cases fault with
  | some text => simp [rename]
  | none =>
    unfold rename
    cases v.entry a <;> simp [eq_comm]

theorem openAppend_error {n : N} {e : IoError} (h : v.openAppend fault n = .error e) : fault ≠ none := by
  rintro rfl
  unfold openAppend at h
  cases hn : v.entry n <;> simp [hn] at h

theorem openAppend_ok {n : N} {i : Nat} {v' : Volume N A} (h : v.openAppend fault n = .ok (i, v')) :
    fault = none ∧ v'.entry n = some i ∧
      (v.entry n = some i ∧ v' = v ∨ v.entry n = none ∧ i = v.fresh ∧ v' = v.create n) := by
  cases fault with
  | some text => cases h
  | none =>
    unfold openAppend at h
    cases hn : v.entry n with
    | some j =>
      rw [hn] at h
      obtain ⟨rfl, rfl⟩ := Prod.mk.inj (Except.ok.inj h)
      exact ⟨rfl, hn, .inl ⟨rfl, rfl⟩⟩
    | none =>
      rw [hn] at h
      obtain ⟨rfl, rfl⟩ := Prod.mk.inj (Except.ok.inj h)
      exact ⟨rfl, entry_create_self n, .inr ⟨rfl, rfl, rfl⟩⟩

end Volume
