import SshWarden.BindingViews

/-!
# Concurrent binding updates

Any number of processes work on the bindings, one file step of one of them at a time. `EditLog` keeps the
view of each of them, the edits in the order in which they were saved, and the steps of saves that others have
taken since a process has loaded the bindings. No edit is lost, and nothing that has been taken away comes
back, as long as between the load and the save of a process others save only where both hold the lock
(`Alone`), and no save moves a key that has been edited.

That the lock keeps apart those who hold it is proved; a list, a dialog that opens and a sync save without it.
-/

namespace SshWarden
open Prog

variable {ι : Type}

/-- A step of `save_to`. -/
def FileOp.isSaveStep : FileOp → Bool
  | openTmp | writeTmp .. | renameTmp => true
  | _ => false

/-- The last step of `load_from`. -/
def endsLoad : FileEvent → Bool
  | ⟨.bindingsExist, a⟩ => !a
  | ⟨.readBindings, _⟩ => true
  | _ => false

namespace View

/-- The edits that an event saves. -/
def commits (v : View) : FileEvent → List HostEdit
  | ⟨.renameTmp, a⟩ => if a then v.edits else []
  | _ => []

theorem committed_next (v : View) (e : FileEvent) : (v.next e).committed = v.committed ++ v.commits e := by
  obtain ⟨o, a⟩ := e
  cases o
  case acquireLock | bindingsExist | renameTmp | managedExists => cases a <;> simp [next, commits]
  all_goals simp [next, commits]

theorem commits_of_ne {o : FileOp} (ho : o ≠ .renameTmp) (v : View) (a : o.Ans) : v.commits ⟨o, a⟩ = [] := by
  cases o
  case renameTmp => exact absurd rfl ho
  all_goals rfl

theorem job_next (v : View) (e : FileEvent) : (v.next e).job = v.job := by
  obtain ⟨o, a⟩ := e
  cases o
  case acquireLock | bindingsExist | renameTmp | managedExists => cases a <;> rfl
  all_goals rfl

/-- Outside loads and saves a process keeps what it has loaded and written. -/
theorem same_next {o : FileOp} {a : o.Ans} (hsave : o.isSaveStep = false) (hload : endsLoad ⟨o, a⟩ = false)
    (v : View) : ((v.next ⟨o, a⟩).fresh = true → v.fresh = true) ∧ (v.next ⟨o, a⟩).base = v.base ∧
      (v.next ⟨o, a⟩).save = v.save ∧ (v.next ⟨o, a⟩).written = v.written := by
  cases o
  case openTmp | writeTmp | renameTmp => cases hsave
  case readBindings => cases hload
  case bindingsExist =>
    cases a with
    | false => cases hload
    | true => exact ⟨id, rfl, rfl, rfl⟩
  case acquireLock =>
    cases a with
    | false => exact ⟨id, rfl, rfl, rfl⟩
    | true => exact ⟨nofun, rfl, rfl, rfl⟩
  case managedExists => cases a <;> exact ⟨id, rfl, rfl, rfl⟩
  all_goals exact ⟨id, rfl, rfl, rfl⟩

end View

structure EditLog (ι : Type) where
  views : ι → View
  edits : List (ι × HostEdit) := []
  /-- The steps of saves that others have taken since a process has loaded the bindings, newest first: by
  whom, and whether under the lock. -/
  since : ι → List (ι × Bool) := fun _ => []

namespace EditLog
variable [DecidableEq ι]

def start (jobs : ι → Job) : EditLog ι := { views := fun i => View.start (jobs i) }

def next (log : EditLog ι) (x : ι × FileEvent) : EditLog ι where
  views := Function.update log.views x.1 ((log.views x.1).next x.2)
  edits := log.edits ++ ((log.views x.1).commits x.2).map (x.1, ·)
  since j :=
    if j = x.1 then if endsLoad x.2 then [] else log.since j
    else if x.2.1.isSaveStep then (x.1, (log.views x.1).locked) :: log.since j else log.since j

theorem map_snd_edits_next (log : EditLog ι) (i : ι) (e : FileEvent) :
    (log.next (i, e)).edits.map Prod.snd = log.edits.map Prod.snd ++ (log.views i).commits e := by
  rw [next, List.map_append, List.map_map]
  exact congrArg (_ ++ ·) (List.map_id _)

theorem edits_next_of_ne {o : FileOp} (ho : o ≠ .renameTmp) (log : EditLog ι) (i : ι) (a : o.Ans) :
    (log.next (i, ⟨o, a⟩)).edits = log.edits := by
  rw [next, View.commits_of_ne ho]
  exact List.append_nil _

/-- Since the process `i` has loaded the bindings others have saved only under the lock, and `i` holds it. -/
def Alone (log : EditLog ι) (i : ι) : Prop := ∀ x ∈ log.since i, x.2 = true ∧ (log.views i).locked = true

end EditLog

/-- Nothing is known of the snippet, and it may be no UTF-8. -/
def BindingDir.snippetTorn (s : BindingDir) : Bool :=
  match s.managed with
  | some .torn => true
  | _ => false

/-- What is asked of the steps of a run: others save beside a process only under the lock that it holds too,
a save moves no key that has been edited before, and a process that has saved its edit finds a snippet that is
not torn. -/
def savesSafely (log : EditLog ι) (i : ι) : FileOp → BindingDir → Prop
  | .openTmp, _ | .writeTmp .., _ => log.Alone i
  | .renameTmp, _ => log.Alone i ∧ ∀ id ∈ log.edits.map fun x => x.2.key, (log.views i).Unmoved id
  | .readManaged, s => (log.views i).committed = [] ∨ s.snippetTorn = false
  | _, _ => True

/-- The bindings on disk; none where the file is missing or cannot be parsed. -/
def BindingDir.file (s : BindingDir) : HostBindingsFile :=
  match s.bindings with
  | some ⟨_, .whole file⟩ => file
  | _ => {}

/-- `bindings.json` is there and whole. -/
def BindingDir.Whole (s : BindingDir) : Prop := ∃ id, s.bindings = some ⟨id, .whole s.file⟩

/-- Two paths hold different files, and a new file gets a new number. -/
structure BindingDir.Numbered (s : BindingDir) : Prop where
  distinct : ∀ f g, s.tmp = some f → s.bindings = some g → f.id ≠ g.id
  tmp_lt : ∀ f, s.tmp = some f → f.id < s.nextId
  bindings_lt : ∀ f, s.bindings = some f → f.id < s.nextId

/-- What a process can rely on while no other has saved since it has loaded the bindings: the file is the one
it has loaded or saved, and the tmp file is the one it has opened and written. -/
structure Undisturbed (v : View) (edits : List (ι × HostEdit)) (s : BindingDir) : Prop where
  current : v.fresh = true → s.file = v.base ∨ edits = []
  opened : ∀ id, v.save = .opened id → s.tmp = some ⟨id, .empty⟩
  wrote : ∀ id, v.save = .wrote id → s.tmp = some ⟨id, .whole v.written⟩

section
variable {s s' : BindingDir} {v v' : View} {edits : List (ι × HostEdit)} {o : FileOp} {a : o.Ans}

theorem BindingDir.file_congr (h : s'.bindings = s.bindings) : s'.file = s.file := by
  unfold BindingDir.file
  rw [h]

theorem BindingDir.Whole.congr (hw : s.Whole) (h : s'.bindings = s.bindings) : s'.Whole := by
  obtain ⟨id, hid⟩ := hw
  exact ⟨id, by rw [file_congr h, h, hid]⟩

theorem BindingDir.whole_of_eq {id : Nat} {file : HostBindingsFile} (h : s.bindings = some ⟨id, .whole file⟩) :
    s.Whole ∧ s.file = file := by
  have hfile : s.file = file := by rw [BindingDir.file, h]
  exact ⟨⟨id, by rw [hfile, h]⟩, hfile⟩

/-- Steps that are no part of a save leave the bindings files alone. -/
theorem files_next (hsave : o.isSaveStep = false) (hexp : View.Expects o v) :
    (fileNext o s a).bindings = s.bindings ∧ (fileNext o s a).tmp = s.tmp ∧
      (fileNext o s a).nextId = s.nextId := by
  cases o
  case openTmp | writeTmp | renameTmp => cases hsave
  case moveToBackup | restoreBackup => exact hexp.elim
  case acquireLock => cases a <;> exact ⟨rfl, rfl, rfl⟩
  all_goals exact ⟨rfl, rfl, rfl⟩

theorem map_id_put (id : Nat) (file : HostBindingsFile) (o : Option StoredFile) :
    (o.map fun f : StoredFile => if f.id = id then { f with text := f.text.write file } else f).map StoredFile.id
      = o.map StoredFile.id := by
  cases o with
  | none => rfl
  | some f =>
    simp only [Option.map_some]
    split <;> rfl

/-- Writing to the tmp file leaves `bindings.json` as it is. -/
theorem bindings_write (hnum : s.Numbered) {f : StoredFile} (hf : s.tmp = some f) (file : HostBindingsFile) :
    (s.write f.id file).bindings = s.bindings := by
  cases hb : s.bindings with
  | none => simp [BindingDir.write, hb]
  | some g =>
    have hne : g.id ≠ f.id := Ne.symm (hnum.distinct f g hf hb)
    simp [BindingDir.write, hb, hne]

/-- Only the rename changes `bindings.json`, while nobody else saves. -/
theorem bindings_next (ho : o ≠ .renameTmp) (hexp : View.Expects o v) (hnum : s.Numbered)
    (hund : o.isSaveStep = true → Undisturbed v edits s) : (fileNext o s a).bindings = s.bindings := by
  cases o
  case renameTmp => exact absurd rfl ho
  case openTmp => rfl
  case writeTmp id file => exact bindings_write hnum ((hund rfl).opened id hexp.2) file
  all_goals exact (files_next rfl hexp).1

theorem alone_of_safe {log : EditLog ι} {i : ι} (hsafe : savesSafely log i o s) (ho : o.isSaveStep = true) :
    log.Alone i := by
  cases o
  case openTmp | writeTmp => exact hsafe
  case renameTmp => exact hsafe.1
  all_goals cases ho

theorem fresh_of_expects (hexp : View.Expects o v) (ho : o.isSaveStep = true) :
    v.fresh = true := by
  cases o
  case openTmp => exact hexp
  case writeTmp | renameTmp => exact hexp.1
  all_goals cases ho

theorem Undisturbed.rename (h : Undisturbed v edits s) (hexp : View.Expects .renameTmp v) :
    ∃ id, s.tmp = some ⟨id, .whole v.written⟩ := by
  obtain ⟨id, hid⟩ := hexp.2.1
  exact ⟨id, h.wrote id hid⟩

theorem BindingDir.Numbered.of_same (h : s.Numbered) (hb : s'.bindings = s.bindings) (ht : s'.tmp = s.tmp)
    (hn : s'.nextId = s.nextId) : s'.Numbered := by
  constructor
  · rw [hb, ht]; exact h.distinct
  · rw [ht, hn]; exact h.tmp_lt
  · rw [hb, hn]; exact h.bindings_lt

theorem BindingDir.Numbered.openTmp (h : s.Numbered) : s.openTmp.Numbered := by
  have hlt : s.tmpId < s.openTmp.nextId := by
    unfold BindingDir.tmpId BindingDir.openTmp
    cases ht : s.tmp with
    | none => exact Nat.lt_succ_self _
    | some f => exact h.tmp_lt f ht
  have hle : s.nextId ≤ s.openTmp.nextId := by
    unfold BindingDir.openTmp
    dsimp only
    split <;> omega
  refine ⟨?_, ?_, fun g hg => Nat.lt_of_lt_of_le (h.bindings_lt g hg) hle⟩
  · rintro f g ⟨⟩ hg
    show s.tmpId ≠ g.id
    unfold BindingDir.tmpId
    cases ht : s.tmp with
    | none => exact Nat.ne_of_gt (h.bindings_lt g hg)
    | some f => exact h.distinct f g ht hg
  · rintro f ⟨⟩
    exact hlt

theorem BindingDir.Numbered.write (h : s.Numbered) (id : Nat) (file : HostBindingsFile) :
    (s.write id file).Numbered := by
  have hold : ∀ (o : Option StoredFile) f, (o.map fun f : StoredFile =>
      if f.id = id then { f with text := f.text.write file } else f) = some f →
      ∃ f', o = some f' ∧ f'.id = f.id := by
    intro o f hf
    have hid := map_id_put id file o
    rw [hf] at hid
    obtain ⟨f', hf', heq⟩ := Option.map_eq_some_iff.1 hid.symm
    exact ⟨f', hf', heq⟩
  refine ⟨fun f g hf hg => ?_, fun f hf => ?_, fun g hg => ?_⟩
  · obtain ⟨f', hf', hfid⟩ := hold _ f hf
    obtain ⟨g', hg', hgid⟩ := hold _ g hg
    rw [← hfid, ← hgid]
    exact h.distinct f' g' hf' hg'
  · obtain ⟨f', hf', hfid⟩ := hold _ f hf
    exact hfid ▸ h.tmp_lt f' hf'
  · obtain ⟨g', hg', hgid⟩ := hold _ g hg
    exact hgid ▸ h.bindings_lt g' hg'

theorem BindingDir.Numbered.next (h : s.Numbered) (hexp : View.Expects o v) : (fileNext o s a).Numbered := by
  cases o
  case openTmp => exact h.openTmp
  case writeTmp id file => exact h.write id file
  case renameTmp =>
    cases a with
    | false => exact h
    | true => exact ⟨nofun, nofun, h.tmp_lt⟩
  all_goals
    obtain ⟨hb, ht, hn⟩ := files_next (s := s) (a := a) rfl hexp
    exact h.of_same hb ht hn

theorem BindingDir.Numbered.atRest (bindings tmp backup : Option (FileText HostBindingsFile))
    (managed : Option (FileText Text)) (locked : Bool) :
    (BindingDir.atRest bindings tmp backup managed locked).Numbered := by
  have hid : ∀ (text : Option (FileText HostBindingsFile)) n f, text.map (StoredFile.mk n) = some f →
      f.id = n := by
    intro text n f hf
    obtain ⟨_, -, rfl⟩ := Option.map_eq_some_iff.1 hf
    rfl
  refine ⟨fun f g hf hg => ?_, fun f hf => ?_, fun g hg => ?_⟩
  · rw [hid _ _ f hf, hid _ _ g hg]; decide
  · rw [hid _ _ f hf]; exact Nat.lt_succ_of_lt (Nat.lt_succ_self 1)
  · rw [hid _ _ g hg]; exact Nat.succ_pos 2

theorem Undisturbed.mono (h : Undisturbed v edits s) (hfresh : v'.fresh = true → v.fresh = true)
    (hbase : v'.base = v.base) (hsave : v'.save = v.save) (hwritten : v'.written = v.written)
    (hb : s'.bindings = s.bindings) (ht : s'.tmp = s.tmp) : Undisturbed v' edits s' := by
  constructor
  · intro hf
    rw [BindingDir.file_congr hb, hbase]
    exact h.current (hfresh hf)
  · rw [hsave, ht]; exact h.opened
  · rw [hsave, ht, hwritten]; exact h.wrote

/-- A process goes on as long as nobody else saves; a load starts afresh. -/
theorem Undisturbed.next (i : ι) (hready : fileReady o s a) (hexp : View.Expects o v) (hnum : s.Numbered)
    (hwhole : edits ≠ [] → s.Whole) (h : endsLoad ⟨o, a⟩ = false → Undisturbed v edits s) :
    Undisturbed (v.next ⟨o, a⟩) (edits ++ (v.commits ⟨o, a⟩).map (i, ·)) (fileNext o s a) := by
  cases hload : endsLoad ⟨o, a⟩ with
  | true =>
    cases o
    case bindingsExist =>
      obtain rfl : a = false := by simpa [endsLoad] using hload
      have hnone : s.bindings = none :=
        Option.not_isSome_iff_eq_none.1 (by rw [← show false = _ from hready]; nofun)
      refine ⟨fun _ => .inl ?_, nofun, nofun⟩
      show s.file = {}
      rw [BindingDir.file, hnone]
    case readBindings =>
      refine ⟨fun hf => ?_, nofun, nofun⟩
      obtain ⟨file, rfl⟩ := Option.isSome_iff_exists.1 hf
      have hreads : s.Reads (some file) := hready
      unfold BindingDir.Reads at hreads
      split at hreads
      · cases hreads
      · cases hreads
      · next id file' hb =>
        obtain rfl := Option.some.inj hreads
        exact .inl (BindingDir.whole_of_eq hb).2
      · next id hb =>
        refine .inr ?_
        by_contra hne
        obtain ⟨id', hid⟩ := hwhole fun he => hne (by rw [he]; rfl)
        rw [hb] at hid
        cases hid
    all_goals cases hload
  | false =>
    replace h := h hload
    cases o
    case openTmp =>
      obtain rfl : a = s.tmpId := hready
      refine ⟨fun hf => ?_, ?_, nofun⟩
      · rw [show v.commits _ = [] from rfl, List.map_nil, List.append_nil]
        exact h.current hf
      · rintro id ⟨⟩
        rfl
    case writeTmp id file =>
      have htmp := h.opened id hexp.2
      refine ⟨fun hf => ?_, nofun, ?_⟩
      · have hfile : (s.write id file).file = s.file := BindingDir.file_congr (bindings_write hnum htmp file)
        rw [show v.commits _ = [] from rfl, List.map_nil, List.append_nil,
          show (fileNext (.writeTmp id file) s a).file = s.file from hfile]
        exact h.current hf
      · rintro id' ⟨⟩
        show (s.tmp.map _) = _
        rw [htmp, Option.map_some, if_pos rfl]
        rfl
    case renameTmp =>
      obtain ⟨id, htmp⟩ := h.rename hexp
      obtain rfl : a = true := Eq.trans hready (by rw [htmp]; rfl)
      refine ⟨fun _ => .inl ?_, nofun, nofun⟩
      exact (BindingDir.whole_of_eq (s := fileNext .renameTmp s true) htmp).2
    all_goals
      obtain ⟨hfresh, hbase, hsave, hwritten⟩ := View.same_next rfl hload v
      obtain ⟨hb, ht, -⟩ := files_next (s := s) (a := a) rfl hexp
      rw [View.commits_of_ne (by nofun), List.map_nil, List.append_nil]
      exact h.mono hfresh hbase hsave hwritten hb ht

end

variable [DecidableEq ι]

/-- What holds between any two steps. -/
structure UpdatesKept (jobs : ι → Job) (ps : ι → FProg (Except CommandError Unit)) (s : BindingDir)
    (log : EditLog ι) : Prop where
  thread : ∀ i, wp viewMachine View.Expects (ps i) (fun r v => v.Outcome r) (log.views i)
  job : ∀ i, (log.views i).job = jobs i
  kept : ∀ id host b, verdict (log.edits.map Prod.snd) id host = some b → isNamed (s.file.hosts id) host = b
  whole : log.edits ≠ [] → s.Whole
  committed : ∀ i, ofThread i log.edits = (log.views i).committed
  managed : ∀ i, (log.views i).sawManaged = true → s.managed.isSome = true
  numbered : s.Numbered
  /-- The lock is held by one process at most. -/
  held : ∀ i, (log.views i).locked = true → s.locked = true
  exclusive : ∀ i j, (log.views i).locked = true → (log.views j).locked = true → i = j
  apart : ∀ i, (log.views i).locked = true → (log.views i).fresh = true → ∀ x ∈ log.since i, x.2 = false
  undisturbed : ∀ i, log.since i = [] → Undisturbed (log.views i) log.edits s

namespace UpdatesKept
variable {jobs : ι → Job} {ps : ι → FProg (Except CommandError Unit)} {s : BindingDir} {log : EditLog ι}

/-- Under the lock nobody else has saved, and without it nobody is allowed to. -/
theorem since_nil (h : UpdatesKept jobs ps s log) {i : ι} (hfresh : (log.views i).fresh = true)
    (halone : log.Alone i) : log.since i = [] := by
  refine List.eq_nil_iff_forall_not_mem.2 fun x hx => ?_
  obtain ⟨hunder, hlocked⟩ := halone x hx
  exact absurd (hunder.symm.trans (h.apart i hlocked hfresh x hx)) nofun

/-- Nobody disturbs a process that takes a step of its save. -/
theorem undisturbed_save (h : UpdatesKept jobs ps s log) {i : ι} {o : FileOp}
    (hexp : View.Expects o (log.views i)) (hsafe : savesSafely log i o s) (ho : o.isSaveStep = true) :
    Undisturbed (log.views i) log.edits s :=
  h.undisturbed i (h.since_nil (fresh_of_expects hexp ho) (alone_of_safe hsafe ho))

/-- What a process has saved can be read again. -/
theorem soundAnswer (h : UpdatesKept jobs ps s log) {i : ι} {o : FileOp} {a : o.Ans} (hready : fileReady o s a)
    (hexp : View.Expects o (log.views i)) (hsafe : savesSafely log i o s) : SoundAnswer (log.views i) ⟨o, a⟩ := by
  cases o
  case renameTmp =>
    obtain ⟨id, htmp⟩ := (h.undisturbed_save hexp hsafe rfl).rename hexp
    exact Eq.trans hready (by rw [htmp]; rfl)
  case readBindings =>
    refine or_iff_not_imp_left.2 fun hne => ?_
    have hedits : log.edits ≠ [] := by
      intro hnil
      rw [← h.committed i, hnil] at hne
      exact hne rfl
    obtain ⟨id, hid⟩ := h.whole hedits
    have hreads : s.Reads a := hready
    rw [BindingDir.Reads, hid] at hreads
    rw [hreads]
    rfl
  case readManaged =>
    refine hsafe.imp_right fun htorn => ?_
    have hthere := h.managed i hexp
    have hreads : s.ReadsManaged a := hready
    unfold BindingDir.ReadsManaged at hreads
    split at hreads
    · next hnone => rw [hnone] at hthere; cases hthere
    · rw [hreads]; rfl
    · rw [hreads]; rfl
    · next hm => rw [BindingDir.snippetTorn, hm] at htorn; cases htorn
  case bindHostsDialog => exact hready
  all_goals trivial

/-- A snippet that a process has seen was there, and stays. -/
theorem managed_next {v : View} {o : FileOp} {a : o.Ans} (hready : fileReady o s a) (hexp : View.Expects o v) :
    ((v.next ⟨o, a⟩).sawManaged = true → v.sawManaged = true ∨ s.managed.isSome = true) ∧
      (s.managed.isSome = true → (fileNext o s a).managed.isSome = true) := by
  cases o
  case managedExists =>
    refine ⟨fun hsaw => ?_, fun hs => hs⟩
    cases a with
    | false => exact .inl hsaw
    | true => exact .inr hready.symm
  case moveToBackup | restoreBackup => exact hexp.elim
  case acquireLock | bindingsExist | renameTmp => cases a <;> exact ⟨.inl, id⟩
  case openManaged => exact ⟨.inl, fun _ => rfl⟩
  case writeManaged => exact ⟨.inl, fun hs => by rw [fileNext, Option.isSome_map, hs]⟩
  all_goals exact ⟨.inl, id⟩

/-- The lock is taken where it is free and released by its holder. -/
theorem locked_next {v : View} {o : FileOp} {a : o.Ans} (hready : fileReady o s a) (hexp : View.Expects o v) :
    ((v.next ⟨o, a⟩).locked = v.locked ∧ (fileNext o s a).locked = s.locked) ∨
      (s.locked = false ∧ (v.next ⟨o, a⟩).fresh = false ∧ (fileNext o s a).locked = true) ∨
      (v.locked = true ∧ (v.next ⟨o, a⟩).locked = false) := by
  cases o
  case acquireLock =>
    cases a with
    | false => exact .inl ⟨rfl, rfl⟩
    | true =>
      have hfree : true = !s.locked := hready
      exact .inr (.inl ⟨by simpa using hfree.symm, rfl, rfl⟩)
  case releaseLock => exact .inr (.inr ⟨hexp, rfl⟩)
  case moveToBackup | restoreBackup => exact hexp.elim
  case bindingsExist | renameTmp | managedExists => cases a <;> exact .inl ⟨rfl, rfl⟩
  all_goals exact .inl ⟨rfl, rfl⟩

/-- A save leaves the hosts as its edits, or else the ones before, say. -/
theorem kept_renameTmp (h : UpdatesKept jobs ps s log) {i : ι} (hexp : View.Expects .renameTmp (log.views i))
    (hsafe : savesSafely log i .renameTmp s) {id host : Text} {b : Bool}
    (hv : verdict (log.edits.map Prod.snd ++ (log.views i).edits) id host = some b) :
    isNamed ((log.views i).written.hosts id) host = b := by
  have hsaves : (log.views i).Saves := hexp.2.2
  rw [verdict_append] at hv
  cases hown : verdict (log.views i).edits id host with
  | some b' =>
    rw [hown, Option.some_or] at hv
    obtain rfl := Option.some.inj hv
    exact hsaves.edited id host b' hown
  | none =>
    rw [hown, Option.none_or] at hv
    have hid : id ∈ log.edits.map fun x => x.2.key := by
      have := mem_key_of_verdict hv
      rwa [List.map_map] at this
    have hcurrent : s.file = (log.views i).base :=
      ((h.undisturbed_save hexp hsafe rfl).current hexp.1).resolve_right fun hnil => by
        rw [hnil] at hid
        cases hid
    rw [hsaves.rest id host hown (hsafe.2 id hid), ← hcurrent]
    exact h.kept id host b hv

section
variable {i : ι} {o : FileOp} {a : o.Ans}

theorem views_next (log : EditLog ι) (i j : ι) (e : FileEvent) :
    (log.next (i, e)).views j = if j = i then (log.views i).next e else log.views j := Function.update_apply ..

theorem since_next (log : EditLog ι) (i j : ι) (e : FileEvent) :
    (log.next (i, e)).since j = if j = i then if endsLoad e then [] else log.since j
      else if e.1.isSaveStep then (i, (log.views i).locked) :: log.since j else log.since j := rfl

/-- The hosts of edited keys, and the file they are in. -/
theorem kept_next (h : UpdatesKept jobs ps s log) (hready : fileReady o s a) (hexp : View.Expects o (log.views i))
    (hsafe : savesSafely log i o s) :
    (∀ id host b, verdict ((log.next (i, ⟨o, a⟩)).edits.map Prod.snd) id host = some b →
      isNamed ((fileNext o s a).file.hosts id) host = b) ∧
    ((log.next (i, ⟨o, a⟩)).edits ≠ [] → (fileNext o s a).Whole) := by
  by_cases ho : o = .renameTmp
  · subst ho
    obtain ⟨id, htmp⟩ := (h.undisturbed_save hexp hsafe rfl).rename hexp
    obtain rfl : a = true := Eq.trans hready (by rw [htmp]; rfl)
    obtain ⟨hwhole, hfile⟩ := BindingDir.whole_of_eq (s := fileNext .renameTmp s true) htmp
    refine ⟨fun id host b hv => ?_, fun _ => hwhole⟩
    rw [hfile]
    refine h.kept_renameTmp hexp hsafe ?_
    rwa [EditLog.map_snd_edits_next] at hv
  · have hb := bindings_next (a := a) ho hexp h.numbered (h.undisturbed_save hexp hsafe)
    rw [EditLog.edits_next_of_ne ho, BindingDir.file_congr hb]
    exact ⟨h.kept, fun hne => (h.whole hne).congr hb⟩

/-- One process at most holds the lock after a step. -/
theorem lock_next (h : UpdatesKept jobs ps s log) (hready : fileReady o s a)
    (hexp : View.Expects o (log.views i)) :
    (∀ j, ((log.next (i, ⟨o, a⟩)).views j).locked = true → (fileNext o s a).locked = true) ∧
      ∀ j k, ((log.next (i, ⟨o, a⟩)).views j).locked = true → ((log.next (i, ⟨o, a⟩)).views k).locked = true →
        j = k := by
  rcases locked_next hready hexp with ⟨hv, hs⟩ | ⟨hfree, -, hs⟩ | ⟨hmine, hv⟩
  · have hsame : ∀ j, ((log.next (i, ⟨o, a⟩)).views j).locked = (log.views j).locked := by
      intro j
      rw [views_next]
      split_ifs with hj
      · rw [hv, hj]
      · rfl
    simp only [hsame, hs]
    exact ⟨h.held, h.exclusive⟩
  · have honly : ∀ j, ((log.next (i, ⟨o, a⟩)).views j).locked = true → j = i := by
      intro j hl
      rw [views_next] at hl
      split_ifs at hl with hj
      · exact hj
      · exact absurd ((h.held j hl).symm.trans hfree) nofun
    exact ⟨fun _ _ => hs, fun j k hj hk => (honly j hj).trans (honly k hk).symm⟩
  · have hnone : ∀ j, ((log.next (i, ⟨o, a⟩)).views j).locked ≠ true := by
      intro j hl
      rw [views_next] at hl
      split_ifs at hl with hj
      · exact absurd (hv.symm.trans hl) nofun
      · exact hj (h.exclusive j i hl hmine)
    exact ⟨fun j hl => absurd hl (hnone j), fun j _ hl => absurd hl (hnone j)⟩

/-- Who holds the lock and has loaded the bindings has seen no save under the lock since. -/
theorem apart_next (h : UpdatesKept jobs ps s log) (hready : fileReady o s a) (hexp : View.Expects o (log.views i))
    {j : ι} (hl : ((log.next (i, ⟨o, a⟩)).views j).locked = true)
    (hf : ((log.next (i, ⟨o, a⟩)).views j).fresh = true) : ∀ x ∈ (log.next (i, ⟨o, a⟩)).since j, x.2 = false := by
  rw [views_next] at hl hf
  rw [since_next]
  split_ifs at hl hf ⊢ with hj hload hsave
  · exact nofun
  · subst hj
    have hbefore : (log.views j).locked = true ∧ (log.views j).fresh = true := by
      rcases locked_next hready hexp with ⟨hv, -⟩ | ⟨-, hno, -⟩ | ⟨-, hv⟩
      · refine ⟨hv.symm.trans hl, ?_⟩
        by_cases hsave : o.isSaveStep = true
        · exact fresh_of_expects hexp hsave
        · exact (View.same_next (Bool.not_eq_true _ ▸ hsave) (Bool.not_eq_true _ ▸ hload) _).1 hf
      · exact absurd (hno.symm.trans hf) nofun
      · exact absurd (hv.symm.trans hl) nofun
    exact h.apart j hbefore.1 hbefore.2
  · intro x hx
    rcases List.mem_cons.1 hx with rfl | hx
    · rw [← Bool.not_eq_true]
      exact fun hi => hj (h.exclusive j i hl hi)
    · exact h.apart j hl hf x hx
  · exact h.apart j hl hf

theorem undisturbed_next (h : UpdatesKept jobs ps s log) (hready : fileReady o s a)
    (hexp : View.Expects o (log.views i)) {j : ι} (hnil : (log.next (i, ⟨o, a⟩)).since j = []) :
    Undisturbed ((log.next (i, ⟨o, a⟩)).views j) (log.next (i, ⟨o, a⟩)).edits (fileNext o s a) := by
  rw [since_next] at hnil
  rw [views_next]
  by_cases hj : j = i
  · subst hj
    rw [if_pos rfl] at hnil ⊢
    refine Undisturbed.next j hready hexp h.numbered h.whole fun hload => ?_
    rw [hload, if_neg Bool.false_ne_true] at hnil
    exact h.undisturbed j hnil
  · rw [if_neg hj] at hnil ⊢
    have hsave : o.isSaveStep = false := by
      rw [← Bool.not_eq_true]
      intro hsave
      rw [if_pos hsave] at hnil
      cases hnil
    rw [hsave, if_neg Bool.false_ne_true] at hnil
    obtain ⟨hb, ht, -⟩ := files_next (s := s) (a := a) hsave hexp
    rw [EditLog.edits_next_of_ne (by rintro rfl; cases hsave)]
    exact (h.undisturbed j hnil).mono id rfl rfl rfl hb ht

end

theorem step {i : ι} {o : FileOp} {k : o.Ans → FProg (Except CommandError Unit)} {a : o.Ans}
    (h : UpdatesKept jobs ps s log) (hi : ps i = .vis o k) (hready : fileMachine.ready o s a)
    (hsafe : savesSafely log i o s) :
    UpdatesKept jobs (Function.update ps i (k a)) (fileMachine.next o s a) (log.next (i, ⟨o, a⟩)) := by
  have hthread := h.thread i
  rw [hi] at hthread
  obtain ⟨hexp, hrest⟩ := hthread
  obtain ⟨hkept, hwhole⟩ := h.kept_next hready hexp hsafe
  obtain ⟨hheld, hexclusive⟩ := h.lock_next hready hexp
  obtain ⟨hsaw, hthere⟩ := managed_next hready hexp
  constructor
  · intro j
    rw [views_next, Function.update_apply]
    split_ifs with hj
    · exact hrest a (h.soundAnswer hready hexp hsafe)
    · exact h.thread j
  · intro j
    rw [views_next]
    split_ifs with hj
    · rw [View.job_next, h.job, hj]
    · exact h.job j
  · exact hkept
  · exact hwhole
  · intro j
    rw [views_next, EditLog.next, ofThread_append, ofThread_map, h.committed]
    by_cases hj : j = i
    · subst hj
      rw [if_pos rfl, if_pos rfl, View.committed_next]
    · rw [if_neg hj, if_neg (Ne.symm hj), List.append_nil]
  · intro j hj
    rw [views_next] at hj
    split_ifs at hj with hij
    · exact hthere ((hsaw hj).elim (h.managed i) id)
    · exact hthere (h.managed j hj)
  · exact h.numbered.next hexp
  · exact hheld
  · exact hexclusive
  · exact fun j => h.apart_next hready hexp
  · exact fun j => h.undisturbed_next hready hexp

theorem start (env : SnippetEnv) (jobs : ι → Job) (s : BindingDir) (hs : s.Numbered) :
    UpdatesKept jobs (fun i => (jobs i).run env) s (.start jobs) := by
  have hview : ∀ i, ((EditLog.start jobs).views i).sawManaged = false ∧
      ((EditLog.start jobs).views i).locked = false ∧ ((EditLog.start jobs).views i).fresh = false ∧
      ((EditLog.start jobs).views i).save = .idle := fun i => View.start_eq (jobs i)
  have hunlocked : ∀ i, ((EditLog.start jobs).views i).locked ≠ true := fun i hl =>
    absurd ((hview i).2.1.symm.trans hl) nofun
  refine ⟨fun i => Job.wp_run env (jobs i), fun i => View.start_job (jobs i), nofun, fun hne => absurd rfl hne,
    fun i => (View.start_committed (jobs i)).symm, fun i hsaw => ?_, hs, fun i hl => absurd hl (hunlocked i),
    fun i _ hl => absurd hl (hunlocked i), fun i hl => absurd hl (hunlocked i), fun i _ => ?_⟩
  · exact absurd ((hview i).1.symm.trans hsaw) nofun
  · obtain ⟨-, -, hfresh, hsave⟩ := hview i
    refine ⟨fun hf => absurd (hfresh.symm.trans hf) nofun, fun id hid => ?_, fun id hid => ?_⟩
    · exact absurd (hsave.symm.trans hid) nofun
    · exact absurd (hsave.symm.trans hid) nofun

theorem outcome (h : UpdatesKept jobs ps s log) {i : ι} {r : Except CommandError Unit}
    (hi : ps i = .ret r) : (log.views i).Outcome r := by
  have hthread := h.thread i
  rw [hi] at hthread
  exact hthread

/-- The process of a saved edit reports success. -/
theorem succeeds (h : UpdatesKept jobs ps s log) {x : ι × HostEdit} (hx : x ∈ log.edits)
    {r : Except CommandError Unit} (hr : ps x.1 = .ret r) : ps x.1 = .ret (.ok ()) := by
  cases r with
  | ok _ => exact hr
  | error e =>
    have hmem : x.2 ∈ (log.views x.1).committed := h.committed x.1 ▸ mem_ofThread.2 hx
    rw [(h.outcome hr).failed e rfl] at hmem
    exact absurd hmem List.not_mem_nil

end UpdatesKept

/-- The run so far: its steps and the edits it has saved. -/
def editsOf (jobs : ι → Job) (tr : List (ι × FileEvent)) : EditLog ι := tr.foldl .next (.start jobs)

/-- The edit of the process `i` has been saved, `bindings.json` is whole, and every host of the edit is in it as
the edit says, unless a later edit of a process that has reported success says the opposite. -/
def EditKept (ps : ι → FProg (Except CommandError Unit)) (s : BindingDir) (edits : List (ι × HostEdit))
    (i : ι) (e : HostEdit) : Prop :=
  s.Whole ∧ ∃ pre post, edits = pre ++ (i, e) :: post ∧ ∀ host b, e.binds e.key host = some b →
    isNamed (s.file.hosts e.key) host = b ∨
      ∃ x ∈ post, x.2.binds e.key host = some (!b) ∧ ps x.1 = .ret (.ok ())

/-- Every command that has reported success has had its effect. -/
structure BindingsKept (jobs : ι → Job) (ps : ι → FProg (Except CommandError Unit)) (s : BindingDir)
    (log : EditLog ι) : Prop where
  added : ∀ i key hosts, jobs i = .bind key hosts → ps i = .ret (.ok ()) →
    ∃ id, (log.views i).named key = some id ∧ EditKept ps s log.edits i (.added id hosts)
  removed : ∀ i key host all, jobs i = .unbind key host all → ps i = .ret (.ok ()) →
    ∃ id, (log.views i).named key = some id ∧
      EditKept ps s log.edits i (if all then .cleared id else .removed id (host.getD []))

theorem UpdatesKept.editKept {jobs : ι → Job} {ps : ι → FProg (Except CommandError Unit)} {s : BindingDir}
    {log : EditLog ι} (h : UpdatesKept jobs ps s log) (hdone : ∀ i, ∃ r, ps i = .ret r) {i : ι} {e : HostEdit}
    (he : (log.views i).committed = [e]) : EditKept ps s log.edits i e := by
  have hmem : (i, e) ∈ log.edits := mem_ofThread.1 (by rw [h.committed, he]; exact List.mem_singleton_self e)
  obtain ⟨pre, post, hsplit⟩ := List.append_of_mem hmem
  refine ⟨h.whole (List.ne_nil_of_mem hmem), pre, post, hsplit, fun host b hb => ?_⟩
  have hmap : log.edits.map Prod.snd = pre.map Prod.snd ++ e :: post.map Prod.snd := by
    rw [hsplit, List.map_append, List.map_cons]
  rcases verdict_of_edit (pre.map Prod.snd) (post.map Prod.snd) hb with ⟨e', he', hno⟩ | hv
  · obtain ⟨x, hx, rfl⟩ := List.mem_map.1 he'
    have hx' : x ∈ log.edits := hsplit ▸ List.mem_append_right _ (List.mem_cons_of_mem _ hx)
    obtain ⟨r, hr⟩ := hdone x.1
    exact .inr ⟨x, hx, hno, h.succeeds hx' hr⟩
  · exact .inl (h.kept e.key host b (hmap ▸ hv))

/-- In a run of processes whose saves are all safe, no update that was reported is lost, whatever files were
there before. -/
theorem bindings_kept {env : SnippetEnv} {jobs : ι → Job}
    {bindings tmp backup : Option (FileText HostBindingsFile)}
    {managed : Option (FileText Text)} {locked : Bool} {s' : BindingDir}
    {ps : ι → FProg (Except CommandError Unit)} {tr : List (ι × FileEvent)}
    (hrun : Interleaves fileMachine (fun i => (jobs i).run env)
      (.atRest bindings tmp backup managed locked) tr ps s')
    (hsafe : PoolMeets fileMachine EditLog.next savesSafely (.start jobs)
      (.atRest bindings tmp backup managed locked) tr)
    (hdone : ∀ i, ∃ r, ps i = .ret r) : BindingsKept jobs ps s' (editsOf jobs tr) := by
  have h : UpdatesKept jobs ps s' (editsOf jobs tr) :=
    hrun.keeps (fun hI hi ha hG => hI.step hi ha hG) hsafe (.start env jobs _ (.atRest ..))
  constructor
  · intro i key hosts hjob hi
    obtain ⟨id, hid, hcommitted⟩ := (h.outcome hi).bound key hosts ((h.job i).trans hjob) rfl
    exact ⟨id, hid, h.editKept hdone hcommitted⟩
  · intro i key host all hjob hi
    obtain ⟨id, hid, hcommitted⟩ := (h.outcome hi).unbound key host all ((h.job i).trans hjob) rfl
    exact ⟨id, hid, h.editKept hdone hcommitted⟩

instance (v : View) (id : Text) : Decidable (v.Unmoved id) :=
  decidable_of_iff ((managedEdits (v.keys.map ManagedKey.cipherId) v.managed id).foldl takeEdit
      (v.base.bindings.get? id) = v.base.bindings.get? id ∧
    (v.regenerates = true → id ∈ v.keys.map ManagedKey.cipherId ∨ v.base.bindings.get? id = none) ∧
    (v.locked = true → id ∈ v.payload.map Prod.fst → v.shownHosts id = v.base.hosts id))
    ⟨fun h => ⟨h.1, h.2.1, h.2.2⟩, fun h => ⟨h.imported, h.listed, h.shown⟩⟩

instance (log : EditLog ι) (i : ι) : Decidable (log.Alone i) :=
  inferInstanceAs (Decidable (∀ x ∈ log.since i, x.2 = true ∧ (log.views i).locked = true))

instance (log : EditLog ι) (i : ι) (o : FileOp) (s : BindingDir) : Decidable (savesSafely log i o s) := by
  cases o
  case openTmp | writeTmp => exact inferInstanceAs (Decidable (log.Alone i))
  case renameTmp =>
    exact inferInstanceAs (Decidable
      (log.Alone i ∧ ∀ id ∈ log.edits.map fun x => x.2.key, (log.views i).Unmoved id))
  case readManaged => exact inferInstanceAs (Decidable ((log.views i).committed = [] ∨ s.snippetTorn = false))
  all_goals exact .isTrue trivial

/-- The answers on a device that has no local key cache yet. -/
def firstUse : (o : FileOp) → BindingDir → o.Ans
  | .loadCache, _ => .ok none
  | .acquireLock, s => !s.locked
  | .bindingsExist, s => s.bindings.isSome
  | .readBindings, s =>
    match s.bindings with
    | some ⟨_, .whole file⟩ => some file
    | _ => none
  | .openTmp, s => s.tmpId
  | .renameTmp, s => s.tmp.isSome
  | .moveToBackup, s => s.bindings.isSome
  | .managedExists, s => s.managed.isSome
  | .readManaged, s =>
    match s.managed with
    | some .empty => some []
    | some (.whole snippet) => some snippet
    | _ => none
  | .bindHostsDialog _, _ => none
  | .releaseLock, _ | .writeTmp .., _ | .removeBackup, _ | .restoreBackup, _ | .openManaged, _
  | .writeManaged _, _ => ()

theorem ready_firstUse (o : FileOp) (s : BindingDir) : fileMachine.ready o s (firstUse o s) := by
  cases o
  case bindHostsDialog => exact nofun
  case loadCache | releaseLock | writeTmp | removeBackup | restoreBackup | openManaged | writeManaged =>
    exact trivial
  case readBindings =>
    show s.Reads _
    unfold BindingDir.Reads
    split <;> simp_all [firstUse]
  case readManaged =>
    show s.ReadsManaged _
    unfold BindingDir.ReadsManaged
    split <;> simp_all [firstUse]
  all_goals rfl

def plainEnv : SnippetEnv := ⟨"/home/u/keys".toList, .absolute, none, fun c => [c.toLower]⟩

def jobPrograms (jobs : ι → Job) (i : ι) : FProg (Except CommandError Unit) := (jobs i).run plainEnv

def reportsSuccess : FProg (Except CommandError Unit) → Bool
  | .ret (.ok _) => true
  | _ => false

theorem eq_of_reportsSuccess {p : FProg (Except CommandError Unit)} (h : reportsSuccess p = true) :
    p = .ret (.ok ()) := by
  match p, h with
  | .ret (.ok ()), _ => rfl

/-- Two hosts are bound to two keys at the same time; the second is saved while the first writes the snippet. -/
def twoBinds (i : Bool) : Job := if i then .bind "k1".toList ["one".toList] else .bind "k2".toList ["two".toList]

def twoBindsOrder : List Bool :=
  [true, false, true, false] ++ List.replicate 8 true ++ List.replicate 9 false ++ List.replicate 20 true
    ++ List.replicate 20 false

/-- Nothing has been bound yet. -/
def nothingBound : BindingDir := .atRest none none none none false

theorem bindings_kept_twoBinds : ∃ ps s' tr,
    Interleaves fileMachine (jobPrograms twoBinds) nothingBound tr ps s' ∧ (∀ i, ps i = .ret (.ok ())) ∧
      BindingsKept twoBinds ps s' (editsOf twoBinds tr) := by
  have hrun := interleaves_execPool fileMachine firstUse ready_firstUse twoBindsOrder (jobPrograms twoBinds)
    nothingBound
  have hsafe : PoolMeets fileMachine EditLog.next savesSafely (.start twoBinds) nothingBound
      (poolTrace fileMachine firstUse twoBindsOrder (jobPrograms twoBinds) nothingBound) := by decide
  have hok : ∀ i, reportsSuccess
      ((execPool fileMachine firstUse twoBindsOrder (jobPrograms twoBinds) nothingBound).1 i) = true := by decide
  have hdone := fun i => eq_of_reportsSuccess (hok i)
  exact ⟨_, _, _, hrun, hdone, bindings_kept hrun hsafe fun i => ⟨_, hdone i⟩⟩

/-- A first sync prunes the binding of a deleted key while a host is bound to another one. -/
def bindDuringSync (i : Bool) : Job :=
  if i then .bind "k1".toList ["one".toList] else .sync [⟨"Work".toList, "k1".toList⟩]

/-- The sync has read the bindings and found no snippet when the command runs from start to end. -/
def bindDuringSyncOrder : List Bool :=
  List.replicate 3 false ++ List.replicate 20 true ++ List.replicate 20 false

def orphanBound : BindingDir := .atRest (some (.whole ⟨[("k0".toList, ["old".toList])]⟩)) none none none false

/-- The prune is saved from the copy the sync has read, and the new binding is gone. -/
theorem bind_lost_during_sync : ¬∀ (jobs : Bool → Job) (s' : BindingDir)
    (ps : Bool → FProg (Except CommandError Unit)) (tr : List (Bool × FileEvent)),
    Interleaves fileMachine (jobPrograms jobs) orphanBound tr ps s' → (∀ i, ∃ r, ps i = .ret r) →
    BindingsKept jobs ps s' (editsOf jobs tr) := by
  intro h
  have hrun := interleaves_execPool fileMachine firstUse ready_firstUse bindDuringSyncOrder
    (jobPrograms bindDuringSync) orphanBound
  have hok : ∀ i, reportsSuccess ((execPool fileMachine firstUse bindDuringSyncOrder
      (jobPrograms bindDuringSync) orphanBound).1 i) = true := by decide
  have hdone := fun i => eq_of_reportsSuccess (hok i)
  have hedits : (editsOf bindDuringSync (poolTrace fileMachine firstUse bindDuringSyncOrder
      (jobPrograms bindDuringSync) orphanBound)).edits = [(true, .added "k1".toList ["one".toList])] := by
    decide
  have hlost : isNamed ((execPool fileMachine firstUse bindDuringSyncOrder
      (jobPrograms bindDuringSync) orphanBound).2.file.hosts "k1".toList) "one".toList = false := by decide
  obtain ⟨id, -, -, pre, post, hsplit, hkept⟩ :=
    (h _ _ _ _ hrun fun i => ⟨_, hdone i⟩).added true _ _ rfl (hdone true)
  rw [hedits] at hsplit
  cases pre with
  | cons x pre => exact absurd (List.cons.inj hsplit).2 (by simp)
  | nil =>
    obtain ⟨hsame, rfl⟩ := List.cons.inj hsplit
    obtain ⟨rfl, -⟩ := HostEdit.added.inj (Prod.mk.inj hsame).2
    rcases hkept "one".toList true (by decide) with hthere | ⟨x, hx, -⟩
    · exact absurd (hlost.symm.trans hthere) Bool.false_ne_true
    · exact absurd hx List.not_mem_nil

end SshWarden
