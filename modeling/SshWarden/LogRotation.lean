import SshWarden.Logging
import SshWarden.Lib.Reach

/-!
# What becomes of the bytes written to the log

Beside the writer and its volume a run keeps the bytes that writes have accepted and the contents of the
backups that completed rotations have replaced. A rotation that does not complete may take accepted bytes
with it: the backup it has removed, and, where only the new log could not be opened, all that is written
to the renamed log until the next rotation removes that.
-/

namespace SshWarden
open RotatingFileWriter

structure WriteCall where
  buf : List UInt8
  faults : Faults

structure LogRun where
  writer : RotatingFileWriter
  volume : LogVolume
  accepted : List UInt8 := []
  replaced : List UInt8 := []

namespace LogRun

def path (s : LogRun) : String := s.writer.path

def current (s : LogRun) : List UInt8 := s.volume.contents s.path

def backup (s : LogRun) : List UInt8 := s.volume.contents (backupPath s.path)

/-- A rotation is due and completes. -/
def rotates (s : LogRun) (c : WriteCall) : Bool :=
  s.writer.shouldRotate c.buf.length && (s.writer.rotate c.faults s.volume).1.isOk

def step (s : LogRun) (c : WriteCall) : LogRun :=
  let r := s.writer.write c.buf c.faults s.volume
  { writer := r.2.1
    volume := r.2.2.1
    accepted := s.accepted ++ match r.1 with
      | .ok n => c.buf.take n
      | .error _ => []
    replaced := if s.rotates c then s.replaced ++ s.backup else s.replaced }

/-- The accepted bytes, in order, end what was in the replaced backups, the backup and the log. -/
def Kept (s : LogRun) : Prop := s.accepted <:+ s.replaced ++ s.backup ++ s.current

end LogRun

namespace RotatingFileWriter
variable {w : RotatingFileWriter} {x : Faults} {v v' : LogVolume}

/-- The volume once no backup is in the way. -/
structure Unbacked (w : RotatingFileWriter) (v v' : LogVolume) : Prop where
  backup : v'.entry (backupPath w.path) = none
  log : v'.entry w.path = v.entry w.path
  data : v'.data = v.data
  fresh : v'.fresh = v.fresh

theorem Unbacked.contents (h : Unbacked w v v') : v'.contents w.path = v.contents w.path := by
  rw [Volume.contents, Volume.contents, h.log, h.data]

theorem removeBackup_ok (h : w.removeBackup x v = .ok v') : x.remove = none ∧ Unbacked w v v' := by
  unfold removeBackup at h
  split at h
  · next v₁ hr =>
    obtain rfl := Except.ok.inj h
    obtain ⟨hx, -, rfl⟩ := Volume.removeFile_ok.1 hr
    exact ⟨hx, by simp, by simp [(backupPath_ne w.path).symm], rfl, rfl⟩
  · next hr =>
    obtain rfl := Except.ok.inj h
    obtain ⟨hx, hb⟩ := Volume.removeFile_notFound.1 hr
    exact ⟨hx, hb, rfl, rfl, rfl⟩
  · cases h

theorem removeBackup_error {e : IoError} (h : w.removeBackup x v = .error e) : x.remove ≠ none := by
  intro hx
  unfold removeBackup Volume.removeFile at h
  rw [hx] at h
  cases hb : v.entry (backupPath w.path) <;> simp [hb] at h

/-- The ways a rotation ends: the backup could not be removed, the log not renamed, no new log opened, or
all went through. -/
inductive Rotated (w : RotatingFileWriter) (x : Faults) (v : LogVolume) :
    Except IoError Unit × RotatingFileWriter × LogVolume → Prop
  | kept {e : IoError} (hx : x.remove ≠ none) : Rotated w x v (.error e, w, v)
  | cleared {e : IoError} {v₁ : LogVolume} (hx : x.remove = none) (hc : Unbacked w v v₁)
      (hr : ¬(x.rename = none ∧ (v.entry w.path).isSome)) : Rotated w x v (.error e, w, v₁)
  | renamed {e : IoError} {v₁ : LogVolume} (hx : x.remove = none) (hc : Unbacked w v v₁)
      (hlog : (v.entry w.path).isSome) (ho : x.reopen ≠ none) :
      Rotated w x v (.error e, w, v₁.move w.path (backupPath w.path))
  | completed {v₁ : LogVolume} (hx : x.remove = none) (hc : Unbacked w v v₁) (hlog : (v.entry w.path).isSome) :
      Rotated w x v (.ok (), { w with file := v.fresh, written := 0, rotationWarned := false },
        (v₁.move w.path (backupPath w.path)).create w.path)

theorem rotated (w : RotatingFileWriter) (x : Faults) (v : LogVolume) : Rotated w x v (w.rotate x v) := by
  unfold rotate
  cases hb : w.removeBackup x v with
  | error e => exact .kept (removeBackup_error hb)
  | ok v₁ =>
    obtain ⟨hx, hc⟩ := removeBackup_ok hb
    dsimp only
    cases hr : v₁.rename x.rename w.path (backupPath w.path) with
    | error e =>
      refine .cleared hx hc fun hgo => ?_
      have hok : v₁.rename x.rename w.path (backupPath w.path) = .ok (v₁.move w.path (backupPath w.path)) :=
        Volume.rename_ok.2 ⟨hgo.1, hc.log ▸ hgo.2, rfl⟩
      exact nomatch hr.symm.trans hok
    | ok v₂ =>
      obtain ⟨-, hlog, rfl⟩ := Volume.rename_ok.1 hr
      rw [hc.log] at hlog
      dsimp only
      -- the log has just been renamed, so that opening it creates one
      have hgone : (v₁.move w.path (backupPath w.path)).entry w.path = none := by simp
      cases ho : (v₁.move w.path (backupPath w.path)).openAppend x.reopen w.path with
      | error e => exact .renamed hx hc hlog (Volume.openAppend_error ho)
      | ok r =>
        obtain ⟨file, v₃⟩ := r
        obtain ⟨-, -, ⟨hthere, -⟩ | ⟨-, rfl, rfl⟩⟩ := Volume.openAppend_ok ho
        · exact nomatch hgone.symm.trans hthere
        · have hfile : (v₁.move w.path (backupPath w.path)).fresh = v.fresh := hc.fresh
          dsimp only
          rw [hfile]
          exact .completed hx hc hlog

theorem rotateIfNeeded_not {n : Nat} (h : w.shouldRotate n = false) : w.rotateIfNeeded n x v = (w, v, none) := by
  unfold rotateIfNeeded
  rw [h]
  rfl

theorem rotateIfNeeded_due {n : Nat} (h : w.shouldRotate n = true) :
    ∃ warned line, w.rotateIfNeeded n x v =
      ({ (w.rotate x v).2.1 with rotationWarned := warned }, (w.rotate x v).2.2, line) := by
  unfold rotateIfNeeded
  rw [h, if_neg (by decide)]
  obtain ⟨r, w', v'⟩ := w.rotate x v
  cases r with
  | ok u => exact ⟨_, _, rfl⟩
  | error e =>
    cases hw : w'.rotationWarned with
    | true => exact ⟨w'.rotationWarned, none, if_pos hw⟩
    | false => exact ⟨true, _, if_neg (by rw [hw]; decide)⟩

theorem writeFile_ok {buf bytes : List UInt8} (h : w.writeFile buf x v = .ok bytes) :
    (∃ n, x.accept = .ok n ∧ bytes = buf.take n) ∧ (v.data w.file).length + bytes.length ≤ maxFileSize := by
  unfold writeFile at h
  split at h
  · cases h
  · next n hn =>
    split at h
    · next hfit =>
      obtain rfl := Except.ok.inj h
      exact ⟨⟨n, hn, rfl⟩, hfit⟩
    · cases h

end RotatingFileWriter

namespace LogRun
variable {s : LogRun} {c : WriteCall}

/-- The run after the rotation of a write. -/
def turned (s : LogRun) (c : WriteCall) : LogRun :=
  let r := s.writer.rotateIfNeeded c.buf.length c.faults s.volume
  { s with
    writer := r.1
    volume := r.2.1
    replaced := if s.rotates c then s.replaced ++ s.backup else s.replaced }

/-- The run after bytes have gone to the open file. -/
def took (s : LogRun) (bytes : List UInt8) : LogRun :=
  { s with
    writer := { s.writer with written := saturatingAdd s.writer.written bytes.length }
    volume := s.volume.append s.writer.file bytes
    accepted := s.accepted ++ bytes }

end LogRun

/-- The bytes of the buffer that the file takes, when it takes them. -/
def WriteCall.taken (c : WriteCall) : List UInt8 :=
  match c.faults.accept with
  | .ok n => c.buf.take n
  | .error _ => []

namespace LogRun
variable {s : LogRun} {c : WriteCall}

/-- The write of a step returns `Ok`. -/
def writes (s : LogRun) (c : WriteCall) : Bool := (s.writer.write c.buf c.faults s.volume).1.isOk

theorem step_cases (s : LogRun) (c : WriteCall) :
    (s.writes c = false ∧ s.step c = s.turned c) ∨
    (((s.turned c).volume.data (s.turned c).writer.file).length + c.taken.length ≤ maxFileSize ∧
      s.step c = (s.turned c).took c.taken) := by
  unfold step writes RotatingFileWriter.write
  dsimp only
  cases hw : (s.writer.rotateIfNeeded c.buf.length c.faults s.volume).1.writeFile c.buf c.faults
      (s.writer.rotateIfNeeded c.buf.length c.faults s.volume).2.1 with
  | error e => exact .inl ⟨rfl, by simp [turned]⟩
  | ok bytes =>
    obtain ⟨⟨n, hn, rfl⟩, hfit⟩ := writeFile_ok hw
    have htaken : c.taken = c.buf.take n := by rw [WriteCall.taken, hn]
    refine .inr ⟨htaken ▸ hfit, ?_⟩
    simp [turned, took, htaken]

/-! ### Bytes kept -/

/-- A rotation that removes a backup with accepted bytes in it goes through, and no bytes are accepted by a
file that is under neither name any more. -/
structure Spared (s : LogRun) (c : WriteCall) : Prop where
  backup : s.writer.shouldRotate c.buf.length = true → c.faults.remove = none → s.backup ≠ [] →
    s.current.length < s.accepted.length →
    c.faults.rename = none ∧ c.faults.reopen = none ∧ (s.volume.entry s.path).isSome
  nameless : s.volume.entry s.path = none →
    s.volume.entry (backupPath s.path) = none ∨
      s.writer.shouldRotate c.buf.length = true ∧ c.faults.remove = none → c.taken = []

/-- The open file is the log, or the backup where there is no log, or is under neither name. -/
structure Intact (s : LogRun) : Prop where
  file_lt : s.writer.file < s.volume.fresh
  log : ∀ {i}, s.volume.entry s.path = some i → i = s.writer.file
  noLog : s.volume.entry s.path = none → ∀ {i}, s.volume.entry (backupPath s.path) = some i → i = s.writer.file
  kept : s.Kept
  /-- Both names may lead to the same file. -/
  shared : ∀ {i}, s.volume.entry s.path = some i → s.volume.entry (backupPath s.path) = some i →
    s.accepted <:+ s.current

theorem Intact.without_backup (h : Intact s) (hb : s.backup ≠ [] → s.accepted.length ≤ s.current.length) :
    s.accepted <:+ s.replaced ++ s.current := by
  by_cases hempty : s.backup = []
  · have hk := h.kept
    rwa [Kept, hempty, List.append_nil] at hk
  · have hcur : s.accepted <:+ s.current :=
      List.suffix_of_suffix_length_le h.kept (List.suffix_append ..) (hb hempty)
    exact hcur.trans (List.suffix_append ..)

theorem turned_not (h : s.writer.shouldRotate c.buf.length = false) : s.turned c = s := by
  unfold turned rotates
  rw [rotateIfNeeded_not h, h]
  rfl

/-- The run after a rotation that ended so. -/
def after (s : LogRun) (warned : Bool) (r : Except IoError Unit × RotatingFileWriter × LogVolume) : LogRun :=
  { s with
    writer := { r.2.1 with rotationWarned := warned }
    volume := r.2.2
    replaced := if r.1.isOk then s.replaced ++ s.backup else s.replaced }

theorem turned_due (h : s.writer.shouldRotate c.buf.length = true) :
    ∃ warned, s.turned c = s.after warned (s.writer.rotate c.faults s.volume) := by
  obtain ⟨warned, line, hr⟩ := rotateIfNeeded_due (x := c.faults) (v := s.volume) h
  refine ⟨warned, ?_⟩
  unfold turned rotates after
  rw [hr, h, Bool.true_and]

section Rotated
variable {warned : Bool} {v₁ : LogVolume} {e : IoError}

theorem Intact.after_cleared (h : Intact s) (hc : Unbacked s.writer s.volume v₁)
    (hb : s.backup ≠ [] → s.accepted.length ≤ s.current.length) :
    Intact (s.after warned (.error e, s.writer, v₁)) where
  file_lt := hc.fresh.symm ▸ h.file_lt
  log hi := h.log (hc.log ▸ hi)
  noLog _ _ hi := nomatch hc.backup.symm.trans hi
  kept := by
    have hcur : (s.after warned (.error e, s.writer, v₁)).current = s.current := hc.contents
    have hback : (s.after warned (.error e, s.writer, v₁)).backup = [] := Volume.contents_of_none hc.backup
    rw [Kept, hcur, hback, List.append_nil]
    exact h.without_backup hb
  shared _ hi := nomatch hc.backup.symm.trans hi

theorem Intact.after_renamed (h : Intact s) (hc : Unbacked s.writer s.volume v₁)
    (hb : s.backup ≠ [] → s.accepted.length ≤ s.current.length) :
    Intact (s.after warned (.error e, s.writer, v₁.move s.writer.path (backupPath s.writer.path))) where
  file_lt := hc.fresh.symm ▸ h.file_lt
  log hi := nomatch (Volume.entry_move_source ..).symm.trans hi
  noLog _ i hi := by
    have hi' : v₁.entry s.writer.path = some i := (Volume.entry_move_target (backupPath_ne _)).symm.trans hi
    exact h.log (hc.log ▸ hi')
  kept := by
    have hcur : (s.after warned
        (.error e, s.writer, v₁.move s.writer.path (backupPath s.writer.path))).current = [] :=
      Volume.contents_of_none (Volume.entry_move_source ..)
    have hback : (s.after warned (.error e, s.writer, v₁.move s.writer.path (backupPath s.writer.path))).backup
        = s.current := (Volume.contents_move (backupPath_ne _)).trans hc.contents
    rw [Kept, hcur, hback, List.append_nil]
    exact h.without_backup hb
  shared hi := nomatch (Volume.entry_move_source ..).symm.trans hi

theorem Intact.after_completed (h : Intact s) (hc : Unbacked s.writer s.volume v₁) :
    Intact (s.after warned (.ok (),
      { s.writer with file := s.volume.fresh, written := 0, rotationWarned := false },
      (v₁.move s.writer.path (backupPath s.writer.path)).create s.writer.path)) where
  file_lt := by
    have hfresh : v₁.fresh = s.volume.fresh := hc.fresh
    exact hfresh ▸ Nat.lt_succ_self _
  log hi := by
    have hi' := Option.some.inj ((Volume.entry_create_self ..).symm.trans hi)
    exact hi'.symm.trans hc.fresh
  noLog hn := nomatch (Volume.entry_create_self ..).symm.trans hn
  kept := by
    have hall : s.accepted <:+ (s.replaced ++ s.backup) ++
        ((v₁.move s.writer.path (backupPath s.writer.path)).create s.writer.path).contents
          (backupPath s.writer.path) ++
        ((v₁.move s.writer.path (backupPath s.writer.path)).create s.writer.path).contents s.writer.path := by
      rw [Volume.contents_create (backupPath_ne _), Volume.contents_move (backupPath_ne _), hc.contents,
        Volume.contents_create_self, List.append_nil]
      exact h.kept
    exact hall
  shared hi hb := by
    have hi' := Option.some.inj ((Volume.entry_create_self ..).symm.trans hi)
    have hb' : v₁.entry s.writer.path = some _ :=
      (Volume.entry_move_target (backupPath_ne _)).symm.trans
        ((Volume.entry_create_of_ne (backupPath_ne _)).symm.trans hb)
    exact absurd (v₁.entry_lt hb') (hi' ▸ Nat.lt_irrefl _)

end Rotated

/-- Neither name leads to a file. -/
def Nameless (s : LogRun) : Prop :=
  s.volume.entry s.path = none ∧ s.volume.entry (backupPath s.path) = none

theorem Intact.turned (h : Intact s) (hs : Spared s c) :
    Intact (s.turned c) ∧ (Nameless (s.turned c) → c.taken = []) := by
  cases hrot : s.writer.shouldRotate c.buf.length with
  | false =>
    rw [turned_not hrot]
    exact ⟨h, fun hn => hs.nameless hn.1 (.inl hn.2)⟩
  | true =>
    obtain ⟨warned, hturned⟩ := turned_due hrot
    rw [hturned]
    have hrotated := rotated s.writer c.faults s.volume
    generalize s.writer.rotate c.faults s.volume = r at hrotated
    have hbackup : c.faults.remove = none →
        ¬(c.faults.rename = none ∧ c.faults.reopen = none ∧ (s.volume.entry s.path).isSome) →
        s.backup ≠ [] → s.accepted.length ≤ s.current.length := fun hx hno hb =>
      Nat.le_of_not_lt fun hlt => hno (hs.backup hrot hx hb hlt)
    cases hrotated with
    | kept hx => exact ⟨⟨h.file_lt, h.log, h.noLog, h.kept, h.shared⟩, fun hn => hs.nameless hn.1 (.inl hn.2)⟩
    | cleared hx hc hr =>
      refine ⟨h.after_cleared hc (hbackup hx fun hgo => hr ⟨hgo.1, hgo.2.2⟩), fun hn => ?_⟩
      exact hs.nameless (hc.log.symm.trans hn.1) (.inr ⟨hrot, hx⟩)
    | renamed hx hc hlog ho =>
      refine ⟨h.after_renamed hc (hbackup hx fun hgo => ho hgo.2.1), fun hn => ?_⟩
      have hgone : s.volume.entry s.path = none :=
        hc.log.symm.trans ((Volume.entry_move_target (backupPath_ne _)).symm.trans hn.2)
      exact absurd hlog (by rw [show s.volume.entry s.writer.path = none from hgone]; decide)
    | completed hx hc hlog =>
      exact ⟨h.after_completed hc, fun hn => nomatch (Volume.entry_create_self ..).symm.trans hn.1⟩

theorem suffix_append_right {as bs cs : List UInt8} (h : as <:+ bs) : as ++ cs <:+ bs ++ cs := by
  obtain ⟨ds, rfl⟩ := h
  exact ⟨ds, (List.append_assoc ..).symm⟩

theorem Intact.kept_took {bytes : List UInt8} (h : Intact s) (hn : Nameless s → bytes = []) :
    s.accepted ++ bytes <:+ s.replaced ++ (s.volume.append s.writer.file bytes).contents (backupPath s.path) ++
      (s.volume.append s.writer.file bytes).contents s.path := by
  have hkept : s.accepted ++ bytes <:+ s.replaced ++ s.backup ++ s.current ++ bytes := suffix_append_right h.kept
  cases hlog : s.volume.entry s.path with
  | some i =>
    obtain rfl := h.log hlog
    rw [Volume.contents_append bytes hlog]
    by_cases hb : s.volume.entry (backupPath s.path) = some s.writer.file
    · have hcur : s.accepted ++ bytes <:+ s.current ++ bytes := suffix_append_right (h.shared hlog hb)
      exact hcur.trans (List.suffix_append ..)
    · rw [Volume.contents_append_ne bytes hb, ← List.append_assoc]
      exact hkept
  | none =>
    have hcur : s.current = [] := Volume.contents_of_none hlog
    rw [Volume.contents_of_none (v := s.volume.append s.writer.file bytes) hlog, List.append_nil]
    cases hb : s.volume.entry (backupPath s.path) with
    | some i =>
      obtain rfl := h.noLog hlog hb
      rw [Volume.contents_append bytes hb, ← List.append_assoc]
      rwa [hcur, List.append_nil] at hkept
    | none =>
      have hback : s.backup = [] := Volume.contents_of_none hb
      rw [hn ⟨hlog, hb⟩, hcur, hback] at hkept
      rw [hn ⟨hlog, hb⟩, Volume.contents_of_none (v := s.volume.append s.writer.file []) hb]
      simpa using hkept

theorem Intact.took {bytes : List UInt8} (h : Intact s) (hn : Nameless s → bytes = []) :
    Intact (s.took bytes) where
  file_lt := h.file_lt
  log := h.log
  noLog := h.noLog
  kept := h.kept_took hn
  shared hi hb := by
    obtain rfl := h.log hi
    have hcur : (s.took bytes).current = s.current ++ bytes := Volume.contents_append bytes hi
    rw [hcur]
    exact suffix_append_right (h.shared hi hb)

theorem Intact.step (h : Intact s) (hs : Spared s c) : Intact (s.step c) := by
  obtain ⟨hturned, hn⟩ := h.turned hs
  rcases step_cases s c with ⟨-, hstep⟩ | ⟨-, hstep⟩
  · exact hstep ▸ hturned
  · exact hstep ▸ hturned.took hn

/-- A writer just opened. -/
theorem Intact.of_open {path : String} {maxBytes : Nat} {fault : Option String} {sized : Bool} {v v' : LogVolume}
    {w : RotatingFileWriter} (h : RotatingFileWriter.open path maxBytes fault sized v = .ok (w, v')) :
    Intact { writer := w, volume := v' } := by
  unfold RotatingFileWriter.open at h
  split at h
  · cases h
  · next file v₁ ho =>
    obtain ⟨rfl, rfl⟩ := Prod.mk.inj (Except.ok.inj h)
    obtain ⟨-, hentry, -⟩ := Volume.openAppend_ok ho
    exact {
      file_lt := v₁.entry_lt hentry
      log := fun hi => Option.some.inj (hi.symm.trans hentry)
      noLog := fun hn => nomatch hn.symm.trans hentry
      kept := List.nil_suffix
      shared := fun _ _ => List.nil_suffix }

/-- In a run whose rotations spare the accepted bytes, these are found in order in the backup followed by the
log, but for those in backups that completed rotations have replaced. -/
theorem rotation_keeps_accepted {path : String} {maxBytes : Nat} {fault : Option String} {sized : Bool}
    {v v' : LogVolume} {w : RotatingFileWriter}
    (hopen : RotatingFileWriter.open path maxBytes fault sized v = .ok (w, v'))
    (h : Reach (fun s c => some (step s c)) Spared { writer := w, volume := v' } s) : s.Kept := by
  have hinv : Intact s := by
    refine h.invariant (.of_open hopen) fun s₁ c s₂ h₁ hs hstep => ?_
    obtain rfl := Option.some.inj hstep
    exact h₁.step hs
  exact hinv.kept

instance (s : LogRun) (c : WriteCall) : Decidable (Spared s c) :=
  if hb : s.writer.shouldRotate c.buf.length = true → c.faults.remove = none → s.backup ≠ [] →
      s.current.length < s.accepted.length →
      c.faults.rename = none ∧ c.faults.reopen = none ∧ (s.volume.entry s.path).isSome then
    if hn : s.volume.entry s.path = none →
        s.volume.entry (backupPath s.path) = none ∨
          s.writer.shouldRotate c.buf.length = true ∧ c.faults.remove = none → c.taken = [] then .isTrue ⟨hb, hn⟩
    else .isFalse fun h => hn h.nameless
  else .isFalse fun h => hb h.backup

instance (s : LogRun) : Decidable s.Kept := inferInstanceAs (Decidable (s.accepted <:+ _))

def emptyVolume : LogVolume := ⟨fun _ => none, fun _ => [], 0, fun h => nomatch h⟩

/-- A writer of a new log with a cap of four bytes. -/
def fourBytes : LogRun := ⟨⟨"log", 0, 4, 0, false⟩, emptyVolume.create "log", [], []⟩

theorem open_fourBytes :
    RotatingFileWriter.open "log" 4 none true emptyVolume = .ok (fourBytes.writer, fourBytes.volume) := rfl

/-- The log cannot be renamed once, and is rotated by the next write; the backup cannot be removed later. -/
def busyCalls : List WriteCall :=
  [⟨[1, 2, 3], { accept := .ok 3 }⟩, ⟨[4, 5], { rename := some "busy", accept := .ok 2 }⟩,
    ⟨[6], { accept := .ok 1 }⟩, ⟨[7, 8, 9, 10], { remove := some "busy", accept := .ok 4 }⟩]

theorem busyCalls_replay :
    (Reach.replay (fun s c => some (step s c)) Spared fourBytes busyCalls).isSome = true := by decide

theorem rotation_keeps_accepted_busy :
    ((Reach.replay (fun s c => some (step s c)) Spared fourBytes busyCalls).get busyCalls_replay).Kept :=
  rotation_keeps_accepted open_fourBytes (Reach.of_replay_isSome busyCalls_replay)

/-- No new log can be opened once. -/
def reopenCalls : List WriteCall :=
  [⟨[1, 2, 3], { accept := .ok 3 }⟩, ⟨[4, 5], { reopen := some "busy", accept := .ok 2 }⟩,
    ⟨[6], { accept := .ok 1 }⟩]

theorem reach_calls (s : LogRun) (cs : List WriteCall) :
    Reach (fun s c => some (step s c)) (fun _ _ => True) s (cs.foldl step s) := by
  induction cs generalizing s with
  | nil => exact .start
  | cons c cs ih => exact (Reach.start.step trivial rfl).trans (ih (s.step c))

theorem reopenCalls_lost : ¬(reopenCalls.foldl step fourBytes).Kept := by decide

/-- The rotation after one that could not open a new log removes the file that the writer has open. -/
theorem failed_reopen_loses_log :
    ¬∀ (path : String) (maxBytes : Nat) (v v' : LogVolume) (w : RotatingFileWriter) (s : LogRun), 0 < maxBytes →
      RotatingFileWriter.open path maxBytes none true v = .ok (w, v') →
      Reach (fun s c => some (step s c)) (fun _ _ => True) { writer := w, volume := v' } s → s.Kept := by
  intro hall
  exact reopenCalls_lost (hall _ 4 _ _ _ _ (by decide) open_fourBytes (reach_calls fourBytes reopenCalls))

/-! ### Sizes where no file operation fails -/

/-- No file operation of the write fails. -/
structure Untroubled (s : LogRun) (c : WriteCall) : Prop where
  remove : c.faults.remove = none
  rename : c.faults.rename = none
  reopen : c.faults.reopen = none
  writes : s.writes c = true

/-- The open file is the log, and the writer's counter is its size. -/
structure Sized (path : String) (maxBytes : Nat) (backup : Option Nat) (s : LogRun) : Prop where
  path_eq : s.writer.path = path
  maxBytes_eq : s.writer.maxBytes = maxBytes
  log : s.volume.entry path = some s.writer.file
  written : s.writer.written = s.current.length
  backup_eq : maxBytes = 0 → s.volume.entry (backupPath path) = backup

variable {path : String} {maxBytes : Nat} {backup : Option Nat}

theorem shouldRotate_eq_true {w : RotatingFileWriter} {n : Nat} :
    w.shouldRotate n = true ↔ 0 < w.maxBytes ∧ 0 < w.written ∧ w.maxBytes < saturatingAdd w.written n := by
  simp [shouldRotate, and_assoc]

theorem Sized.turned (h : Sized path maxBytes backup s) (hc : Untroubled s c) :
    Sized path maxBytes backup (s.turned c) ∧
      (0 < maxBytes → (s.turned c).writer.written = 0 ∨
        saturatingAdd (s.turned c).writer.written c.buf.length ≤ maxBytes) := by
  obtain ⟨rfl, rfl, hlog, hwritten, hbackup⟩ := h
  cases hrot : s.writer.shouldRotate c.buf.length with
  | false =>
    rw [turned_not hrot]
    refine ⟨⟨rfl, rfl, hlog, hwritten, hbackup⟩, fun hmax => ?_⟩
    have hno := mt shouldRotate_eq_true.2 (Bool.eq_false_iff.1 hrot)
    omega
  | true =>
    obtain ⟨hmax, -, -⟩ := shouldRotate_eq_true.1 hrot
    obtain ⟨warned, hturned⟩ := turned_due hrot
    rw [hturned]
    have hrotated := rotated s.writer c.faults s.volume
    generalize s.writer.rotate c.faults s.volume = r at hrotated
    cases hrotated with
    | kept hx => exact absurd hc.remove hx
    | cleared _ _ hr => exact absurd ⟨hc.rename, by rw [hlog]; rfl⟩ hr
    | renamed _ _ _ ho => exact absurd hc.reopen ho
    | @completed v₁ hx hun _ =>
      have hfresh : v₁.fresh = s.volume.fresh := hun.fresh
      refine ⟨⟨rfl, rfl, ?_, ?_, fun h0 => absurd h0 (Nat.ne_of_gt hmax)⟩, fun _ => .inl rfl⟩
      · exact (Volume.entry_create_self ..).trans (congrArg some hfresh)
      · exact (congrArg List.length (Volume.contents_create_self ..)).symm

theorem saturatingAdd_of_le {a b : Nat} (h : a + b ≤ maxFileSize) : saturatingAdd a b = a + b := by
  unfold maxFileSize at h
  unfold saturatingAdd
  omega

theorem Sized.took {bytes : List UInt8} (h : Sized path maxBytes backup s)
    (hfit : (s.volume.data s.writer.file).length + bytes.length ≤ maxFileSize) :
    Sized path maxBytes backup (s.took bytes) ∧ (s.took bytes).current = s.current ++ bytes := by
  obtain ⟨rfl, rfl, hlog, hwritten, hbackup⟩ := h
  have hcur : (s.took bytes).current = s.current ++ bytes := Volume.contents_append bytes hlog
  refine ⟨⟨rfl, rfl, hlog, ?_, hbackup⟩, hcur⟩
  have hdata : s.current = s.volume.data s.writer.file := Volume.contents_of_entry hlog
  have hadd : saturatingAdd s.writer.written bytes.length = s.writer.written + bytes.length :=
    saturatingAdd_of_le (by rwa [hwritten, hdata])
  rw [hcur, List.length_append, ← hwritten]
  exact hadd

theorem length_taken_le (c : WriteCall) : c.taken.length ≤ c.buf.length := by
  unfold WriteCall.taken
  split
  · exact List.length_take_le' ..
  · exact Nat.zero_le _

/-- A write keeps the counter at the size, and the log within the cap or the buffer written. -/
theorem Sized.step (h : Sized path maxBytes backup s) (hc : Untroubled s c) :
    Sized path maxBytes backup (s.step c) ∧
      (0 < maxBytes → (s.step c).current.length ≤ max maxBytes c.buf.length) := by
  obtain ⟨hsized, hcap⟩ := h.turned hc
  obtain ⟨hno, -⟩ | ⟨hfit, hstep⟩ := step_cases s c
  · exact nomatch hno.symm.trans hc.writes
  · obtain ⟨htook, hcur⟩ := hsized.took hfit
    rw [hstep]
    refine ⟨htook, fun hmax => ?_⟩
    have hlen := length_taken_le c
    have hsize := hsized.written
    have hdata : (s.turned c).current = (s.turned c).volume.data (s.turned c).writer.file :=
      Volume.contents_of_entry ((congrArg _ hsized.path_eq).trans hsized.log)
    have hwidth : saturatingAdd (s.turned c).writer.written c.buf.length
        = min ((s.turned c).writer.written + c.buf.length) (2 ^ 64 - 1) := rfl
    have hlimit : maxFileSize = 2 ^ 63 - 1 := rfl
    rw [← hdata] at hfit
    rw [hcur, List.length_append]
    have hroom := hcap hmax
    omega

theorem Sized.of_open {v v' : LogVolume} {w : RotatingFileWriter}
    (h : RotatingFileWriter.open path maxBytes none true v = .ok (w, v')) :
    Sized path maxBytes (v.entry (backupPath path)) { writer := w, volume := v' } := by
  unfold RotatingFileWriter.open at h
  split at h
  · cases h
  · next file v₁ ho =>
    obtain ⟨rfl, rfl⟩ := Prod.mk.inj (Except.ok.inj h)
    obtain ⟨-, hentry, hways⟩ := Volume.openAppend_ok ho
    refine ⟨rfl, rfl, hentry, congrArg List.length (Volume.contents_of_entry hentry).symm, fun _ => ?_⟩
    obtain ⟨-, rfl⟩ | ⟨-, -, rfl⟩ := hways
    · rfl
    · exact Volume.entry_create_of_ne (backupPath_ne path)

instance (s : LogRun) (c : WriteCall) : Decidable (Untroubled s c) :=
  decidable_of_iff (c.faults.remove = none ∧ c.faults.rename = none ∧ c.faults.reopen = none ∧ s.writes c = true)
    ⟨fun h => ⟨h.1, h.2.1, h.2.2.1, h.2.2.2⟩, fun h => ⟨h.remove, h.rename, h.reopen, h.writes⟩⟩

end LogRun
end SshWarden
