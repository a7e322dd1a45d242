import Mathlib.Logic.Function.Basic
import SshWarden.Lib.Prog

/-!
# A file system whose operations may fail

The files of a file system by their path, as one process changes them. Every operation may fail, and
then it changes nothing; only a failed write may leave something else behind than there was.
-/

namespace FileSystem
open Prog
variable {P C : Type}

/-- What a write did; where it failed, what it left at the path, if it touched the file at all. -/
inductive Written (C : Type)
  | ok
  | err (error : String) (left : Option C)

inductive Op (P C : Type)
  | createDirAll (dir : String)
  | write (path : P) (content : C)
  | setPermissions (path : P) (mode : Nat)
  | rename (source target : P)
  | pathExists (path : P)
  | removeFile (path : P)

@[reducible] def Op.Ans : Op P C → Type
  | .write .. => Written C
  | .pathExists _ => Bool
  | _ => Except String Unit

@[reducible] def sig (P C : Type) : Sig := ⟨Op P C, Op.Ans⟩

abbrev Event (P C : Type) : Type := (sig P C).Event

abbrev FsProg (P C α : Type) : Type := Prog (sig P C) α

abbrev fs (o : Op P C) : FsProg P C o.Ans := Prog.perform (S := sig P C) o

/-- The complete and the partial contents by path. -/
abbrev Disk (P C : Type) : Type := P → Option C

/-- A path in `dirs` cannot be written, and an operation on a file that is not there does not succeed. -/
def ready (dirs : P → Prop) : (o : Op P C) → Disk P C → o.Ans → Prop
  | .write path _, _, .ok => ¬dirs path
  | .write path _, _, .err _ left => dirs path → left = none
  | .rename source _, d, .ok _ => (d source).isSome
  | .pathExists path, d, there => there = true → (d path).isSome
  | .removeFile path, d, .ok _ => (d path).isSome
  | _, _, _ => True

def next [DecidableEq P] : (o : Op P C) → Disk P C → o.Ans → Disk P C
  | .write path content, d, .ok => Function.update d path (some content)
  | .write path _, d, .err _ (some left) => Function.update d path (some left)
  | .rename source target, d, .ok _ => Function.update (Function.update d target (d source)) source none
  | .removeFile path, d, .ok _ => Function.update d path none
  | _, d, _ => d

def machine [DecidableEq P] (dirs : P → Prop) : Machine (sig P C) (Disk P C) where
  ready := ready dirs
  next := next

/-- The contents written so far, after an event. -/
def wrote (ws : List C) : Event P C → List C
  | ⟨.write _ content, .ok⟩ => ws ++ [content]
  | _ => ws

/-- The contents that the events have written completely. -/
def written (tr : List (Event P C)) : List C := tr.foldl wrote []

/-- The machine with the contents written so far. -/
def writing [DecidableEq P] (dirs : P → Prop) : Machine (sig P C) (Disk P C × List C) :=
  (machine dirs).track wrote

theorem steps_writing [DecidableEq P] {dirs : P → Prop} {α : Type} {p p' : FsProg P C α} {d d' : Disk P C}
    {tr : List (Event P C)} (h : Steps (machine dirs) p d tr p' d') :
    Steps (writing dirs) p (d, []) tr p' (d', written tr) := h.track wrote []

end FileSystem
