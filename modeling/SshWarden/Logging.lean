import Mathlib.Algebra.Group.Nat.Defs
import SshWarden.Lib.Volume
import Mathlib.Data.List.Basic

/-!
# Rotation of the daemon's log file

The log and its one backup are two names of a volume. A write may first rotate: remove the backup,
rename the log to it, open a new log. Each of the three may fail, and the writer then goes on with the
handle it has.
-/

namespace SshWarden

abbrev LogVolume : Type := Volume String UInt8

/-- `u64::saturating_add`. -/
def saturatingAdd (a b : Nat) : Nat := min (a + b) (2 ^ 64 - 1)

/-- `off_t` is a signed 64-bit number; a write past it fails. -/
def maxFileSize : Nat := 2 ^ 63 - 1

structure RotatingFileWriter where
  path : String
  file : Nat
  maxBytes : Nat
  /-- Bytes written to the current file (seeded from its size at open). -/
  written : Nat
  /-- Set after a failed rotation so the warning is emitted once. -/
  rotationWarned : Bool
deriving DecidableEq, Repr

/-- `sshwarden.log` to `sshwarden.log.1`. -/
def backupPath (path : String) : String := path ++ ".1"

theorem backupPath_ne (path : String) : backupPath path ≠ path := by
  intro h
  have hlen := congrArg String.length h
  have htwo : ".1".length = 2 := rfl
  rw [backupPath, String.length_append] at hlen
  omega

/-- What the file operations of one write meet: the errors of a rotation, and of the bytes given to
`File::write` how many it takes. -/
structure Faults where
  remove : Option String := none
  rename : Option String := none
  reopen : Option String := none
  accept : Except String Nat

namespace RotatingFileWriter

/-- `RotatingFileWriter::open`; the size counts as 0 when it cannot be read. -/
def «open» (path : String) (maxBytes : Nat) (fault : Option String) (sized : Bool) (v : LogVolume) :
    Except IoError (RotatingFileWriter × LogVolume) :=
  match v.openAppend fault path with
  | .error e => .error e
  | .ok (file, v) =>
    .ok
      ({ path, file, maxBytes, written := if sized then (v.data file).length else 0, rotationWarned := false }, v)

variable (w : RotatingFileWriter)

def shouldRotate (incoming : Nat) : Bool :=
  w.maxBytes > 0 && w.written > 0 && saturatingAdd w.written incoming > w.maxBytes

/-- The backup is gone when this succeeds; that there was none is no error. -/
def removeBackup (x : Faults) (v : LogVolume) : Except IoError LogVolume :=
  match v.removeFile x.remove (backupPath w.path) with
  | .ok v => .ok v
  | .error .notFound => .ok v
  | .error e => .error e

/-- `rotate`; flushing a file handle does nothing. An error leaves the writer as it is and the volume as the
steps before it left it. -/
def rotate (x : Faults) (v : LogVolume) : Except IoError Unit × RotatingFileWriter × LogVolume :=
  match w.removeBackup x v with
  | .error e => (.error e, w, v)
  | .ok v₁ => match v₁.rename x.rename w.path (backupPath w.path) with
    | .error e => (.error e, w, v₁)
    | .ok v₂ => match v₂.openAppend x.reopen w.path with
      | .error e => (.error e, w, v₂)
      | .ok (file, v₃) => (.ok (), { w with file, written := 0, rotationWarned := false }, v₃)

def ioErrorText : IoError → String
  | .notFound => "No such file or directory (os error 2)"
  | .other text => text

/-- `rotate_if_needed`, with the line it prints to stderr. -/
def rotateIfNeeded (incoming : Nat) (x : Faults) (v : LogVolume) :
    RotatingFileWriter × LogVolume × Option String :=
  if !w.shouldRotate incoming then (w, v, none)
  else match w.rotate x v with
    | (.ok _, w, v) => (w, v, none)
    | (.error e, w, v) =>
      if w.rotationWarned then (w, v, none)
      else ({ w with rotationWarned := true }, v,
        some s!"sshwarden: log rotation failed ({ioErrorText e}); continuing to append to {w.path}")

/-- `File::write` on the open handle: the bytes it takes. -/
def writeFile (buf : List UInt8) (x : Faults) (v : LogVolume) : Except String (List UInt8) :=
  match x.accept with
  | .error e => .error e
  | .ok n =>
    if (v.data w.file).length + (buf.take n).length ≤ maxFileSize then .ok (buf.take n)
    else .error "File too large (os error 27)"

/-- `write`, with the line printed to stderr. -/
def write (buf : List UInt8) (x : Faults) (v : LogVolume) :
    Except String Nat × RotatingFileWriter × LogVolume × Option String :=
  let r := w.rotateIfNeeded buf.length x v
  match r.1.writeFile buf x r.2.1 with
  | .error e => (.error e, r)
  | .ok taken =>
    (.ok taken.length, { r.1 with written := saturatingAdd r.1.written taken.length },
      r.2.1.append r.1.file taken, r.2.2)

end RotatingFileWriter
end SshWarden
