import SshWarden.AnswerPaths
import SshWarden.RequestTasks

/-!
# Approvals across locks

A handler opens a prompt, waits for the answer and remembers the approval, while the main loop may lock the
vault, forget the device or log in. Only a lock and `forget` clear the memory, and an approval is remembered
whether or not they ran while its prompt was open. `approvals_end_with_epoch` says when the memory ends with
them and with a login all the same.
-/

namespace SshWarden
open Prog

variable {E : Crates} {cfg : Config} {α : Type}

def Op.remembers : Op → Bool
  | insertMemory _ => true
  | _ => false

def LoopOp.remembers : LoopOp → Bool
  | atomic (.op o) => o.remembers
  | _ => false

/-- How far an event has come with ending the memory. -/
inductive Clearing
  | notYet | raised | done
deriving DecidableEq, Repr

/-- The flag is raised first by a lock, and last by `forget`. -/
def Clearing.after : Clearing → Op → Clearing
  | _, .clearMemory => .done
  | .notYet, .storeVaultLocked true => .raised
  | ph, _ => ph

def Clearing.afterStep (ph : Clearing) : LoopOp → Clearing
  | .atomic (.op o) => ph.after o
  | _ => ph

/-- The main loop remembers nothing and clears the memory where it has raised the flag. -/
def EndsMemory (p : LProg Unit) (ph : Clearing) : Prop :=
  wp (Machine.record (S := loopSig) (fun _ => True) fun ph e => Clearing.afterStep ph e.1)
    (fun o _ => o.remembers = false) p (fun _ ph => ph ≠ .raised) ph

abbrev RemembersNothing (p : DProg α) : Prop := Prog.Only (S := daemonSig) (fun o : Op => o.remembers = false) p

/-- Operations that remember nothing and do not lock. -/
def Op.isMild (o : Op) : Bool := !o.remembers && !o.locks

abbrev Mild (p : DProg α) : Prop := Prog.Only (S := daemonSig) (fun o : Op => o.isMild = true) p

theorem mild_op {o : Op} (h : o.isMild = true) : Mild (op o) := ⟨h, fun _ => trivial⟩

theorem Op.isMild_of_isEnclosed {o : Op} (h : o.isEnclosed = true) : o.isMild = true := by
  cases o <;> first | rfl | exact absurd h Bool.false_ne_true

theorem Op.isMild_of_isQuiet {o : Op} (h : o.isQuiet = true) : o.isMild = true := by
  cases o <;> first | rfl | exact absurd h Bool.false_ne_true

theorem Op.isMild_of_keepsCore {o : Op} (h : o.keepsCore = true) : o.isMild = true :=
  isMild_of_isQuiet (isQuiet_of_keepsCore h)

theorem Enclosed.mild {p : DProg α} (h : Enclosed p) : Mild p := h.mono fun _ => Op.isMild_of_isEnclosed

theorem Quiet.mild {p : DProg α} (h : Quiet p) : Mild p := h.mono fun _ => Op.isMild_of_isQuiet

theorem ReconcilingSteps.mild {p : DProg α} (h : ReconcilingSteps p) : Mild p :=
  h.mono fun o ho => by cases o <;> first | rfl | exact absurd ho Bool.false_ne_true

theorem LoadingSteps.mild {p : DProg α} (h : LoadingSteps p) : Mild p :=
  h.mono fun o ho => by
    cases o with
    | storeVaultLocked b => cases b <;> first | rfl | exact absurd ho Bool.false_ne_true
    | _ => first | rfl | exact absurd ho Bool.false_ne_true

/-! ### The main loop -/

abbrev clearingMachine : Machine daemonSig Clearing := .record (fun _ => True) fun ph e => ph.after e.1

abbrev Forgetful : Op → Clearing → Prop := fun o _ => o.remembers = false

variable {ph : Clearing}

theorem Clearing.after_of_isMild {o : Op} (h : o.isMild = true) (hph : ph ≠ .raised) : ph.after o ≠ .raised := by
  cases o with
  | storeVaultLocked b =>
    cases b with
    | true => exact absurd h Bool.false_ne_true
    | false => cases ph <;> exact hph
  | clearMemory => exact fun hno => by cases hno
  | _ => cases ph <;> exact hph

theorem Clearing.after_done (o : Op) : after .done o = .done := by
  cases o with
  | storeVaultLocked b => cases b <;> rfl
  | _ => rfl

theorem Op.remembers_of_isMild {o : Op} (h : o.isMild = true) : o.remembers = false := by
  cases o <;> first | rfl | exact absurd h Bool.false_ne_true

theorem mild_next {o : Op} (ho : o.isMild = true) (h : ph ≠ .raised) (u : o.Ans) :
    clearingMachine.next o ph u ≠ .raised :=
  Clearing.after_of_isMild ho h

theorem Mild.wp {p : DProg α} (hp : Mild p) (h : ph ≠ .raised) :
    Prog.wp clearingMachine Forgetful p (fun _ ph => ph ≠ .raised) ph := by
  refine hp.wp_rel (R := fun ph ph' : Clearing => ph ≠ .raised → ph' ≠ .raised) (fun _ => id) ?_
    (fun _ _ u ho _ hph => mild_next ho hph u) (fun _ _ ho _ => Op.remembers_of_isMild ho) fun _ _ hR => hR h
  exact fun _ _ _ h h' hph => h' (h hph)

/-- Once the memory is cleared the event is done with it. -/
theorem wp_done {p : DProg α} (hp : RemembersNothing p) :
    wp clearingMachine Forgetful p (fun _ ph => ph = .done) .done := by
  refine hp.wp_rel (R := fun ph ph' : Clearing => ph = .done → ph' = .done) (fun _ => id) ?_ ?_
    (fun _ _ ho _ => ho) fun _ _ hR => hR rfl
  · exact fun _ _ _ h h' hph => h' (h hph)
  · rintro o ph u - - rfl
    exact Clearing.after_done o

theorem wp_lockVault_clearing (h : ph ≠ .raised) :
    wp clearingMachine Forgetful lockVault (fun _ ph => ph ≠ .raised) ph := by
  refine wp_perform_bind.2 ⟨rfl, fun running _ => ?_⟩
  have hsame : ph.after .agentLock = ph := by cases ph <;> rfl
  refine (wp_ite ..).2 ⟨fun _ => ?_, fun _ => hsame ▸ h⟩
  refine wp_perform_bind.2
    ⟨rfl, fun _ _ => wp_perform_bind.2 ⟨rfl, fun _ _ => wp_perform_bind.2 ⟨rfl, fun _ _ => ?_⟩⟩⟩
  exact wp_perform_bind.2 ⟨rfl, fun _ _ hno => by cases hno⟩

/-- `forget` clears the memory before it raises the flag. -/
theorem wp_handleForget_clearing (shared : Bool) (h : ph ≠ .raised) :
    wp clearingMachine Forgetful (handleForget cfg shared) (fun _ ph => ph ≠ .raised) ph := by
  have hfiles : Mild (forgetFiles cfg (shared || !cfg.multiDevice)) := by
    refine .bind (.ite (.bind (mild_op rfl) fun _ => trivial) trivial) fun _ =>
      .bind (.bind (mild_op rfl) fun cache => ?_) fun _ => .bind (mild_op rfl) fun _ =>
      .bind (mild_op rfl) fun _ => .bind (mild_op rfl) fun _ => trivial
    cases cache with
    | none => trivial
    | some cache => exact (slotReads_currentNativeUnlockSlot cfg cache).routine.quiet.mild
  have hkeys : RemembersNothing (forgetKeys (shared || !cfg.multiDevice)) := by
    refine .ite ?_ ?_
    · exact .bind (only_op rfl) fun _ => .bind (only_op rfl) fun _ => .bind (only_op rfl) fun _ => only_op rfl
    · refine .bind (.bind (only_op rfl) fun r => ?_) fun cache => .bind (only_op rfl) fun _ =>
        .bind (only_op rfl) fun _ => .bind (only_op rfl) fun _ => .bind (only_op rfl) fun _ => ?_
      · cases r <;> trivial
      · cases cache with
        | none => trivial
        | some cache => exact .bind (only_op rfl) fun _ => .bind (only_op rfl) fun _ => only_op rfl
  have hsession : ∀ ph, wp clearingMachine Forgetful forgetSession (fun _ ph => ph = .done) ph := by
    intro ph
    refine wp_perform_bind.2 ⟨rfl, fun _ _ => wp_perform_bind.2 ⟨rfl, fun _ _ => wp_done ?_⟩⟩
    exact .bind (only_op rfl) fun _ => .bind (only_op rfl) fun _ => .bind (only_op rfl) fun _ =>
      .bind (only_op rfl) fun _ => .bind (only_notify rfl fun _ => rfl) fun _ => only_op rfl
  refine wp_bind .. |>.2 ((hfiles.wp h).post fun failures ph₁ _ => ?_)
  refine wp_bind .. |>.2 ((hsession ph₁).post ?_)
  rintro - ph₂ rfl
  refine wp_bind .. |>.2 ((wp_done hkeys).post ?_)
  rintro - ph₃ rfl hno
  cases hno

def clearingFacts : Facts Clearing where
  I ph := ph ≠ .raised
  Locked _ := True
  Unlocked _ := True
  Holds _ _ := True
  Opened _ _ _ := True
  Client _ _ := True
  Fetched _ _ := True
  Synced _ _ := True
  MaySync _ := True
  MaySetPin _ _ := True
  pinOk _ := True
  mayForget := True

theorem clearingFacts_keeps (ph ph' : Clearing) : clearingFacts.Keeps ph ph' :=
  ⟨id, id, fun _ => id, fun _ _ => id, fun _ => id, fun _ => id, fun _ => id, id⟩

theorem Mild.keeps {p : DProg α} (hp : Mild p) (h : ph ≠ .raised) : Prog.wp clearingMachine Forgetful p
    (fun _ ph' => ph' ≠ .raised ∧ clearingFacts.Keeps ph ph') ph :=
  (hp.wp h).post fun _ _ h' => ⟨h', clearingFacts_keeps _ _⟩

theorem clearingPhases (E : Crates) (cfg : Config) : Phases E cfg clearingMachine Forgetful clearingFacts where
  quiet ho hI := ⟨Op.remembers_of_isMild (Op.isMild_of_isQuiet ho), fun u _ =>
    ⟨mild_next (Op.isMild_of_isQuiet ho) hI u, clearingFacts_keeps _ _⟩⟩
  locked _ _ := trivial
  unlocked _ _ := trivial
  readCache _ _ := trivial
  peekCache _ _ := trivial
  peekClient _ _ := trivial
  maySync _ _ := trivial
  reload hI := ((enclosed_reload cfg).mild.wp hI).post fun _ _ h => ⟨h, id⟩
  lock hI := wp_lockVault_clearing hI
  native hI _ _ := ((slotReads_decryptWithNative E cfg _).routine.enclosed.mild.keeps hI).post
    fun _ _ h => ⟨h.1, h.2, fun _ _ _ => trivial⟩
  pin _ _ _ _ _ := trivial
  dialog _ hI _ _ := ((pinSteps_requestPinDialog _ _).routine.enclosed.mild.keeps hI).post
    fun _ _ h => ⟨h.1, h.2, fun _ _ _ _ => trivial⟩
  migrate _ hI _ _ _ _ := ((pinSlotSteps_migratePinSlotIfNeeded E _ _ _).enclosed.mild.wp hI).post
    fun _ _ h => ⟨h, trivial, trivial⟩
  enroll hI _ _ := (slotSteps_enrollDevicePlatformSlotsIfMissing E cfg _).slotRoutine.enclosed.mild.keeps hI
  unlock {_ json key} msg hI _ _ := by
    have hload : Mild (do op (.writeLocalCacheKey (some key)); finishUnlockWithJson E json msg) :=
      .bind (mild_op rfl) fun _ => (loadingSteps_finishUnlockWithJson E json msg).mild
    exact (hload.wp hI).post fun _ _ h => ⟨h, fun _ => trivial, fun _ => trivial⟩
  fetch hI _ _ := ((support_syncSshKeys _).quiet.mild.wp hI).post fun _ _ h => ⟨h, fun _ _ => trivial⟩
  reconcile hI _ := ((reconcilingSteps_reconcileSyncedKeyState E cfg _).mild.wp hI).post fun _ _ h => ⟨h, trivial⟩
  load hI _ _ := ⟨rfl, fun u _ => mild_next rfl hI u⟩
  setClient hI _ := ⟨rfl, fun u _ => ⟨mild_next rfl hI u, id⟩⟩
  pokeClient _ hI _ := ⟨rfl, fun u _ => mild_next rfl hI u⟩
  checkKey hI _ := ((enclosed_ensureLocalCacheKeyForManualSync E cfg).mild.wp hI).post fun _ _ h => ⟨h, trivial⟩
  forget shared _ hI := wp_handleForget_clearing shared hI
  setPin pin _ hI := by
    have hset : Mild (handleSetPin E cfg pin) :=
      only_handleSetPin (fun _ => Op.isMild_of_isEnclosed) (fun _ => Op.isMild_of_keepsCore) E cfg pin
    exact hset.wp hI

theorem clearingLoginPhases (E : Crates) (cfg : Config) :
    Phases.LoginPhases E cfg clearingMachine Forgetful clearingFacts (fun _ _ => True)
      (fun _ ph => ph ≠ .raised) where
  fetch _ hI := (clearingPhases E cfg).fetch hI trivial trivial
  files _ _ _ _ := trivial
  reconcile hI _ := (reconcilingSteps_reconcileSyncedKeyState E cfg _).mild.wp hI
  names hJ := ⟨rfl, fun u _ => mild_next rfl hJ u⟩
  load hJ := ⟨rfl, fun u _ =>
    ⟨fun _ => mild_next rfl hJ u, fun _ => ⟨rfl, fun v _ => ⟨mild_next rfl (mild_next rfl hJ u) v, trivial⟩⟩⟩⟩
  setClient hI _ := ⟨rfl, fun u _ => ⟨mild_next rfl hI u, trivial⟩⟩

theorem wp_mainStep_clearing (ev : MainEvent) :
    wp clearingMachine Forgetful (mainStep E cfg ev) (fun _ ph => ph ≠ .raised) .notYet := by
  refine (clearingPhases E cfg).wp_mainStep (fun password hI => ?_) ?_ fun hno => by cases hno
  · exact (clearingPhases E cfg).wp_handleUnlockPassword (clearingLoginPhases E cfg) hI password
  · cases ev with
    | control action => cases action <;> trivial
    | _ => trivial

/-- The steps of an event end the memory as its operations do. -/
theorem endsMemory_handle (ev : MainEvent) : EndsMemory ((daemonLoop E cfg).handle ev) .notYet := by
  refine wp_inSteps (D := Forgetful) (fun _ _ _ h => h) (fun _ _ _ _ _ => trivial) (fun _ _ _ _ => rfl) ?_
    (wp_mainStep_clearing ev)
  intro o ph ho _
  have hinner : ∀ o' : LoopOp, o'.isInner = true → ph.afterStep o' = ph ∧ o'.remembers = false := by
    intro o' h
    cases o' with
    | openPrompt => exact ⟨rfl, rfl⟩
    | atomic o' => cases o' <;> first | exact ⟨rfl, rfl⟩ | exact absurd h Bool.false_ne_true
  have hown : ph.after o = ph ∧ o.remembers = false := by
    cases o <;> first | exact absurd ho Bool.false_ne_true | (cases ph <;> exact ⟨rfl, rfl⟩)
  have honly := only_inSteps (P := fun o' => ph.afterStep o' = ph ∧ o'.remembers = false) hinner hown
  refine honly.wp_rel (R := fun x x' => x = ph → x' = ph) (fun _ => id) (fun _ _ _ h h' hx => h' (h hx)) ?_
    (fun _ _ ho' _ => ho'.2) fun _ _ hR => ⟨trivial, (hR rfl).trans hown.1.symm⟩
  rintro o' x a ⟨hsame, -⟩ - rfl
  exact hsame

def MainEvent.isLogin : MainEvent → Bool
  | .control (.unlockPassword _) => true
  | _ => false

/-- A step that opens the vault. -/
def LoopOp.opensVault : LoopOp → Bool
  | atomic (.op (.storeVaultLocked b)) => !b
  | _ => false

/-- A step that raises the lock flag. -/
def LoopOp.raises : LoopOp → Bool
  | atomic (.op (.storeVaultLocked b)) => b
  | _ => false

/-- `epoch` counts the locks, `forget`s and logins that have ended. `clearing`, `login` and `opened` are about
the event at hand. `prompted` is the epoch in which a handler opened its prompt, and `approved` that of the
prompt whose approval put an entry into the memory. -/
structure Account where
  epoch : Nat := 0
  clearing : Clearing := .notYet
  login : Bool := false
  opened : Bool := false
  prompted : Nat → Nat := fun _ => 0
  approved : String × String → Nat := fun _ => 0

namespace Account

/-- The event is a login and has opened the vault. -/
def LoggedIn (t : Account) : Prop := t.login = true ∧ t.opened = true

instance (t : Account) : Decidable t.LoggedIn := inferInstanceAs (Decidable (_ ∧ _))

/-- At the end of an event that has locked, forgotten or logged in a new epoch begins. -/
def ended (t : Account) : Account :=
  { t with
    epoch := if t.clearing = .done ∨ t.LoggedIn then t.epoch + 1 else t.epoch
    clearing := .notYet }

/-- An entry that is in the memory already is not inserted again. -/
def noteTask (t : Account) (s : Daemon) (i : Nat) : LoopOp → Account
  | .openPrompt => { t with prompted := Function.update t.prompted i t.epoch }
  | .atomic (.op (.insertMemory key)) =>
    if s.authorizationMemory.contains key then t
    else { t with approved := Function.update t.approved key (t.prompted i) }
  | _ => t

def note (t : Account) (c : DaemonConf) : DaemonMove → Account
  | .take ev => { t with clearing := .notYet, login := ev.isLogin, opened := false }
  | .main e => { t with clearing := t.clearing.afterStep e.1, opened := t.opened || e.1.opensVault }
  | .ends => t.ended
  | .drops => t.ended
  | .task i e => t.noteTask c.state i e.1
  | _ => t

end Account

/-- An approval is remembered in the epoch in which its prompt was opened, while the vault is unlocked or a
lock is still to clear the memory. A login ends with an empty memory. No action is dropped between raising
the lock flag and clearing the memory. -/
def InTime (t : Account) (c : DaemonConf) : DaemonMove → Prop
  | .task i e => e.1.remembers = true →
    t.prompted i = t.epoch ∧ t.clearing ≠ .done ∧ (c.state.vaultLocked = true → t.clearing = .raised)
  | .ends => t.LoggedIn → c.state.authorizationMemory = []
  | .drops => t.clearing ≠ .raised ∧ (t.LoggedIn → c.state.authorizationMemory = [])
  | _ => True

instance (t : Account) (c : DaemonConf) : (m : DaemonMove) → Decidable (InTime t c m)
  | .task _ _ => inferInstanceAs (Decidable (_ → _ ∧ _))
  | .ends => inferInstanceAs (Decidable (_ → _))
  | .drops => inferInstanceAs (Decidable (_ ∧ _))
  | .take _ | .main _ | .arrival | .spawn _ | .finish _ => inferInstanceAs (Decidable True)

/-- Runs of the daemon with its request handlers, from a start-up, with an account of the epochs. -/
def EpochRun (E : Crates) (cfg : Config) (G : Account → DaemonConf → DaemonMove → Prop) (s : Daemon)
    (c : DaemonConf)
    (t : Account) : Prop :=
  Loop.Run (daemonLoop E cfg) Account.note G (beforeRequests s) {} c t

/-- Between two events, with all requests answered, a locked vault has an empty memory; and what is found in
the memory was approved in a prompt of this epoch. -/
structure MemoryEnds (E : Crates) (cfg : Config) (c : DaemonConf) (t : Account) : Prop where
  locked : c.current = none → AllAnswered c → c.state.vaultLocked = true → c.state.authorizationMemory = []
  found : ∀ i key c', Loop.Step (daemonLoop E cfg) c (.task i ⟨.atomic (.op (.tryMemoryContains key)), true⟩) c' →
    t.approved key = t.epoch

/-! ### The invariant -/

/-- The approvals in the memory are of this epoch. -/
structure Dated (s : Daemon) (t : Account) : Prop where
  dated : ∀ key ∈ s.authorizationMemory, t.approved key = t.epoch
  cleared : t.clearing = .done → s.authorizationMemory = []
  locked : t.clearing = .notYet → s.vaultLocked = true → s.authorizationMemory = []

section
variable {s s' : Daemon} {t t' : Account} {c : DaemonConf}

theorem Dated.congr (h : Dated s t) (hm : s'.authorizationMemory = s.authorizationMemory)
    (hl : s'.vaultLocked = s.vaultLocked) : Dated s' t :=
  ⟨by rw [hm]; exact h.dated, by rw [hm]; exact h.cleared, by rw [hm, hl]; exact h.locked⟩

theorem Dated.of_empty (h : s.authorizationMemory = []) (t : Account) : Dated s t :=
  ⟨fun _ hk => absurd (h ▸ hk) List.not_mem_nil, fun _ => h, fun _ _ => h⟩

theorem mem_of_loopNext {o : LoopOp} (h : o.remembers = false) {a : o.Ans} {key : String × String}
    (hk : key ∈ (loopNext E o s a).authorizationMemory) : key ∈ s.authorizationMemory := by
  cases o with
  | openPrompt => exact hk
  | atomic o =>
    cases o with
    | op o =>
      cases o with
      | insertMemory key => exact absurd h.symm Bool.false_ne_true
      | clearMemory => cases hk
      | retainMemory changed => exact (List.mem_filter.1 hk).1
      | _ => first | exact hk | (cases a <;> exact hk)
    | _ => exact hk

theorem vaultLocked_of_loopNext {o : LoopOp} (h : o.raises = false) {a : o.Ans}
    (hl : (loopNext E o s a).vaultLocked = true) : s.vaultLocked = true := by
  cases o with
  | openPrompt => exact hl
  | atomic o =>
    cases o with
    | op o =>
      cases o with
      | storeVaultLocked b => exact absurd (h.symm.trans hl) Bool.false_ne_true
      | _ => first | exact hl | (cases a <;> exact hl)
    | _ => exact hl

theorem Clearing.of_afterStep_done {o : LoopOp} (h : ph.afterStep o = .done) :
    ph = .done ∨ o = .atomic (.op .clearMemory) := by
  cases o with
  | openPrompt => exact .inl h
  | atomic o =>
    cases o with
    | op o =>
      cases o with
      | clearMemory => exact .inr rfl
      | storeVaultLocked b => cases b <;> cases ph <;> first | exact .inl rfl | cases h
      | _ => cases ph <;> first | exact .inl rfl | cases h
    | _ => exact .inl h

theorem Clearing.of_afterStep_notYet {o : LoopOp} (h : ph.afterStep o = .notYet) :
    ph = .notYet ∧ o.raises = false := by
  cases o with
  | openPrompt => exact ⟨h, rfl⟩
  | atomic o =>
    cases o with
    | op o =>
      cases o with
      | storeVaultLocked b => cases b <;> cases ph <;> first | exact ⟨rfl, rfl⟩ | cases h
      | _ => cases ph <;> first | exact ⟨rfl, rfl⟩ | cases h
    | _ => exact ⟨h, rfl⟩

/-- A step of the main loop. -/
theorem Dated.main (h : Dated s t) {o : LoopOp} (ho : o.remembers = false) (a : o.Ans) :
    Dated (loopNext E o s a) (t.note c (.main ⟨o, a⟩)) where
  dated key hk := h.dated key (mem_of_loopNext ho hk)
  cleared hd := by
    rcases Clearing.of_afterStep_done hd with hd | rfl
    · refine List.eq_nil_iff_forall_not_mem.2 fun key hk => ?_
      have hmem := mem_of_loopNext ho hk
      rw [h.cleared hd] at hmem
      cases hmem
    · rfl
  locked hn hl := by
    obtain ⟨hn, hr⟩ := Clearing.of_afterStep_notYet hn
    refine List.eq_nil_iff_forall_not_mem.2 fun key hk => ?_
    have hmem := mem_of_loopNext ho hk
    rw [h.locked hn (vaultLocked_of_loopNext hr hl)] at hmem
    cases hmem

/-- The end of an event. -/
theorem Dated.ended (h : Dated s t) (hc : t.clearing ≠ .raised)
    (hlogin : t.LoggedIn → s.authorizationMemory = []) :
    Dated s t.ended := by
  by_cases hb : t.clearing = .done ∨ t.LoggedIn
  · exact .of_empty (hb.elim h.cleared hlogin) _
  · refine ⟨fun key hk => ?_, fun hd => absurd hd.symm Clearing.noConfusion, fun _ hl => ?_⟩
    · have hsame : t.ended.epoch = t.epoch := if_neg hb
      exact (h.dated key hk).trans hsame.symm
    · cases hn : t.clearing with
      | notYet => exact h.locked hn hl
      | raised => exact absurd hn hc
      | done => exact h.cleared hn

/-- A step of a handler. -/
theorem Dated.task (h : Dated s t) {i : Nat} {o : LoopOp} {a : o.Ans} (hr : o.raises = false)
    (hG : o.remembers = true → t.prompted i = t.epoch ∧ t.clearing ≠ .done ∧
      (s.vaultLocked = true → t.clearing = .raised)) :
    Dated (loopNext E o s a) (t.noteTask s i o) := by
  cases hrem : o.remembers with
  | false =>
    -- nothing is added, and at most a prompt is noted
    have hnote : (t.noteTask s i o).approved = t.approved ∧ (t.noteTask s i o).epoch = t.epoch ∧
        (t.noteTask s i o).clearing = t.clearing := by
      cases o with
      | openPrompt => exact ⟨rfl, rfl, rfl⟩
      | atomic o =>
        cases o with
        | op o => cases o <;> first | exact ⟨rfl, rfl, rfl⟩ | exact absurd hrem.symm Bool.false_ne_true
        | _ => exact ⟨rfl, rfl, rfl⟩
    obtain ⟨happroved, hepoch, hclearing⟩ := hnote
    have hsub : s.authorizationMemory = [] → (loopNext E o s a).authorizationMemory = [] := by
      intro hempty
      refine List.eq_nil_iff_forall_not_mem.2 fun key hk => ?_
      have hmem := mem_of_loopNext hrem hk
      rw [hempty] at hmem
      cases hmem
    refine ⟨fun key hk => ?_, fun hd => ?_, fun hn hl => ?_⟩
    · rw [happroved, hepoch]
      exact h.dated key (mem_of_loopNext hrem hk)
    · exact hsub (h.cleared (hclearing ▸ hd))
    · exact hsub (h.locked (hclearing ▸ hn) (vaultLocked_of_loopNext hr hl))
  | true =>
    obtain ⟨hprompt, hdone, hlocked⟩ := hG hrem
    obtain ⟨key, rfl⟩ : ∃ key, o = .atomic (.op (.insertMemory key)) := by
      cases o with
      | openPrompt => cases hrem
      | atomic o =>
        cases o with
        | op o => cases o <;> first | exact ⟨_, rfl⟩ | cases hrem
        | _ => cases hrem
    have hmem : ∀ {key'}, key' ∈ (loopNext E (.atomic (.op (.insertMemory key))) s a).authorizationMemory →
        key' = key ∨ key' ∈ s.authorizationMemory := List.mem_insert_iff.1
    have hopen : t.clearing = .notYet → s.vaultLocked = true → False :=
      fun hn hl => by cases hn.symm.trans (hlocked hl)
    by_cases hin : key ∈ s.authorizationMemory
    · have hnote : t.noteTask s i (.atomic (.op (.insertMemory key))) = t := if_pos (List.contains_iff_mem.2 hin)
      rw [hnote]
      refine ⟨fun key' hk => ?_, fun hd => absurd hd hdone, fun hn hl => (hopen hn hl).elim⟩
      rcases hmem hk with rfl | hk
      · exact h.dated key' hin
      · exact h.dated key' hk
    · have hnote : t.noteTask s i (.atomic (.op (.insertMemory key))) =
          { t with approved := Function.update t.approved key (t.prompted i) } :=
            if_neg fun hc => hin (List.contains_iff_mem.1 hc)
      rw [hnote]
      refine ⟨fun key' hk => ?_, fun hd => absurd hd hdone, fun hn hl => (hopen hn hl).elim⟩
      rcases hmem hk with rfl | hk
      · exact (Function.update_self ..).trans hprompt
      · have hne : key' ≠ key := fun heq => hin (heq ▸ hk)
        exact (Function.update_of_ne hne ..).trans (h.dated key' hk)

end

/-- The main loop ends what it begins, and handlers do not raise the flag. -/
def memoryOutline : Loop.Outline loopSig Daemon Account MainEvent where
  inv := Dated
  idle t := t.clearing = .notYet
  main t _ p := EndsMemory p t.clearing
  task _ _ p := Prog.Only (S := loopSig) (fun o : LoopOp => o.raises = false) p

theorem raisesNot_serve (request : SshAgentUIRequest) :
    Prog.Only (S := loopSig) (fun o : LoopOp => o.raises = false) ((daemonLoop E cfg).serve request) := by
  refine (lockless_handleUiRequest E cfg request).expand fun o ho => only_inSteps (fun o' h => ?_) ?_
  · cases o' with
    | openPrompt => rfl
    | atomic o' => cases o' <;> first | rfl | exact absurd h Bool.false_ne_true
  · cases o with
    | storeVaultLocked b => cases b <;> first | rfl | exact absurd ho.symm Bool.false_ne_true
    | _ => rfl

theorem memoryOutline_kept (E : Crates) (cfg : Config) :
    memoryOutline.Kept (daemonLoop E cfg) Account.note InTime where
  take {c t ev s'} h hcur _ hr := by
    have hsame : s'.authorizationMemory = c.state.authorizationMemory ∧ s'.vaultLocked = c.state.vaultLocked := by
      cases hr <;> exact ⟨rfl, rfl⟩
    have hd := Dated.congr h.inv hsame.1 hsame.2
    exact ⟨⟨hd.dated, fun hno => absurd hno.symm Clearing.noConfusion, fun _ => hd.locked (h.idle hcur)⟩,
      endsMemory_handle ev, fun _ _ hp => hp⟩
  main {c t ev o k a} h hcur _ _ := by
    have hmain : EndsMemory (.vis o k) t.clearing := h.main ev _ hcur
    exact ⟨Dated.main h.inv hmain.1 a, hmain.2 a trivial, fun _ _ hp => hp⟩
  ends {c t ev} h hcur hG :=
    ⟨Dated.ended h.inv (h.main ev _ hcur) hG, rfl, h.task⟩
  drops h _ hG _ := ⟨Dated.ended h.inv hG.1 hG.2, rfl, fun _ _ hp => hp⟩
  arrival h _ ha := ⟨rfl, Dated.congr h.inv (by cases ha; rfl) (by cases ha; rfl)⟩
  spawn h _ _ := ⟨rfl, Dated.congr h.inv rfl rfl, raisesNot_serve _⟩
  task {c t i o k a} h hi hG _ := by
    have htask : Prog.Only (S := loopSig) (fun o : LoopOp => o.raises = false) (.vis o k) := h.task i _ hi
    have hclearing : (t.noteTask c.state i o).clearing = t.clearing := by
      unfold Account.noteTask
      split
      · rfl
      · split <;> rfl
      · rfl
    refine ⟨Dated.task h.inv htask.1 hG, htask.2 a, fun hidle => hclearing.trans hidle, fun ev p hp => ?_,
      fun _ _ hp => hp⟩
    have hp' : EndsMemory p (t.noteTask c.state i o).clearing := hclearing ▸ hp
    exact hp'
  finish h _ := ⟨rfl, Dated.congr h.inv rfl rfl⟩

theorem Op.remembers_of_isSlotSupport {o : Op} (h : o.isSlotSupport = true) : o.remembers = false := by
  cases o <;> first | rfl | exact absurd h Bool.false_ne_true

theorem remembersNothing_startWith (E : Crates) (cfg : Config) (cache : Option LocalKeyCacheFile)
    (login : Option (List DecryptedSshKey × BitwardenClient)) :
    RemembersNothing (startWith E cfg cache login) := by
  have hpin : RemembersNothing (promptSetupPin E cfg) :=
    only_promptSetupPin (fun _ h => Op.remembers_of_isMild (Op.isMild_of_isEnclosed h))
      (fun _ h => Op.remembers_of_isMild (Op.isMild_of_keepsCore h)) E cfg
  have hidentities : RemembersNothing loadInitialIdentities := by
    refine .bind (only_op rfl) fun _ => .bind (only_op rfl) fun cache => ?_
    cases cache with
    | none => exact only_op rfl
    | some cache =>
      exact .ite (only_op rfl) (.bind (only_op rfl) fun _ => .bind (only_op rfl) fun _ =>
        .bind (only_op rfl) fun _ => only_op rfl)
  have hup : RemembersNothing (bringUp E cfg cache login) := by
    refine .bind (only_op rfl) fun started => .ite trivial <| .bind (only_op rfl) fun _ =>
      .bind (only_op rfl) fun _ => .bind (only_op rfl) fun _ => ?_
    cases login with
    | none => exact .bind hidentities fun _ => trivial
    | some login =>
      refine .bind (only_op rfl) fun _ => .ite trivial <| .bind (only_op rfl) fun _ => .bind (only_op rfl) fun _ =>
        .bind (only_op rfl) fun _ => .bind (only_op rfl) fun _ => .bind (only_op rfl) fun _ =>
        .bind (only_op rfl) fun _ => .ite (.bind hpin fun _ => trivial) trivial
  have hconnect : RemembersNothing (connectInitialClient E cfg) :=
    (Phases.quiet_connectInitialClient E cfg).mono fun _ h => Op.remembers_of_isMild (Op.isMild_of_isQuiet h)
  exact .bind hup fun up => .ite (.bind hconnect fun _ => trivial) trivial

theorem memory_empty_next {o : Op} (ho : o.remembers = false) {s : Daemon} (hs : s.authorizationMemory = [])
    (a : o.Ans) : (next E o s a).authorizationMemory = [] := by
  refine List.eq_nil_iff_forall_not_mem.2 fun key hk => ?_
  have hmem : key ∈ s.authorizationMemory := mem_of_loopNext (E := E) (o := .atomic (.op o)) ho hk
  rw [hs] at hmem
  cases hmem

/-- Nothing is remembered at the start. -/
theorem Started.memory_empty {cfg₀ : Config} {s₀ s : Daemon} (h : Started (machine E) E cfg₀ cfg s₀ s) :
    s.authorizationMemory = [] := by
  obtain ⟨hfresh, hsteps⟩ := h
  have hempty : s₀.authorizationMemory = [] := by rw [hfresh]
  have hwith : ∀ {cfg₁ cache login s}, s.authorizationMemory = [] →
      wp (machine E) (fun _ _ => True) (startWith E cfg₁ cache login)
        (fun _ s' => s'.authorizationMemory = []) s :=
    fun hs => ((remembersNothing_startWith E _ _ _).wp (M := machine E) (I := fun s => s.authorizationMemory = [])
      (fun _ _ a ho hs _ => memory_empty_next ho hs a) hs).mono (fun _ _ _ => trivial) fun _ _ h => h
  have hstart : wp (machine E) (fun _ _ => True) (startUp E cfg₀) (fun _ s' => s'.authorizationMemory = []) s₀ :=
    Phases.wp_startUp (P := fun s => s.authorizationMemory = []) (C := fun _ => True) (K := fun _ => True)
      (fun ho hs => ⟨trivial, fun a _ => memory_empty_next (Op.remembers_of_isSlotSupport ho) hs a⟩)
      (fun _ _ => trivial) (fun _ _ => trivial) (fun h => h) (fun hs _ => hwith hs) (fun hs _ => hwith hs) hempty
  exact hstart.of_ret hsteps

/-- Where approvals are remembered in time, and a login finds nothing remembered, the memory ends with every
lock, `forget` and login. -/
theorem approvals_end_with_epoch {cfg₀ : Config} {s₀ s : Daemon} {c : DaemonConf} {t : Account}
    (hs : Started (machine E) E cfg₀ cfg s₀ s) (h : EpochRun E cfg InTime s c t) : MemoryEnds E cfg c t := by
  have hc := (memoryOutline_kept E cfg).run (.start (.of_empty hs.memory_empty {}) rfl) h
  have hdated : Dated c.state t := hc.inv
  refine ⟨fun hcur _ hl => hdated.locked (hc.idle hcur) hl, fun i key c' hstep => ?_⟩
  cases hstep with
  | task _ ha => exact hdated.dated key (ha rfl)

/-- A request up to the open prompt: the flag is read twice, the memory and the names once. -/
def toPrompt : List (Loop.Cue MainEvent SshAgentUIRequest) := .spawn workRequest :: List.replicate 5 (.task 0)

/-- The prompt is answered, and the request with it. -/
def answered (i : Nat) : List (Loop.Cue MainEvent SshAgentUIRequest) := List.replicate 20 (.task i)

/-- A request is approved, the vault locked and unlocked, and a second request approved in the new epoch. -/
theorem approvals_end_with_epoch_twice : ∃ cfg s₀ s c t, Started (machine .plain) .plain plainConfig cfg s₀ s ∧
    EpochRun .plain cfg InTime s c t ∧ ("item", "ssh_authentication") ∈ c.state.authorizationMemory ∧ t.epoch = 1 ∧
    MemoryEnds .plain cfg c t := by
  obtain ⟨cfg, s₀, s, c, t, hs, hrun, hcheck⟩ := exists_of_playCues
    (fun x : Config × DaemonConf × Account =>
      decide (("item", "ssh_authentication") ∈ x.2.1.state.authorizationMemory ∧ x.2.2.epoch = 1))
    (show (playCues plainScript plainConfig (fun _ => Account.note) (fun _ t c m => decide (InTime t c m))
      (toPrompt ++ answered 0 ++ .take (.control .lock) :: mainSteps ++
        .take (.control (.unlockPin "1234")) :: mainSteps ++
        .spawn workRequest :: answered 1) {}).any _ = true by decide +kernel)
  have hrun' : EpochRun .plain cfg InTime s c t := hrun.mono fun _ _ _ => of_decide_eq_true
  obtain ⟨hmem, hepoch⟩ := of_decide_eq_true hcheck
  exact ⟨cfg, s₀, s, c, t, hs, hrun', hmem, hepoch, approvals_end_with_epoch hs hrun'⟩

/-- The vault is locked while the prompt is open. -/
theorem approval_after_lock : ¬∀ cfg s₀ s c t, Started (machine .plain) .plain plainConfig cfg s₀ s →
    EpochRun .plain cfg (fun _ _ _ => True) s c t → MemoryEnds .plain cfg c t := by
  intro h
  obtain ⟨cfg, s₀, s, c, t, hs, hrun, hcheck⟩ := exists_of_playCues
    (fun x : Config × DaemonConf × Account => x.2.1.current.isNone && decide (AllAnswered x.2.1) &&
      x.2.1.state.vaultLocked &&
      !decide (x.2.1.state.authorizationMemory = []))
    (show (playCues plainScript plainConfig (fun _ => Account.note) (fun _ _ _ _ => true)
      (toPrompt ++ .take (.control .lock) :: mainSteps ++ answered 0) {}).any _ = true by decide +kernel)
  simp only [Bool.and_eq_true, decide_eq_true_eq, Bool.not_eq_true', decide_eq_false_iff_not] at hcheck
  obtain ⟨⟨⟨hcur, hanswered⟩, hlocked⟩, hne⟩ := hcheck
  have hends := h cfg s₀ s c t hs (hrun.mono fun _ _ _ _ => trivial)
  exact hne (hends.locked (Option.isNone_iff_eq_none.1 hcur) hanswered hlocked)

end SshWarden
