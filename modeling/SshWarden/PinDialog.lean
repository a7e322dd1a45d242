import SshWarden.Unlock
import Mathlib.Logic.Relation

/-!
# The PIN dialog (`crates/sshwarden-ui/src/unlock/slint_dialog.rs`)

A call of the dialog waits for one answer. The callbacks of the window run on the event loop, every submitted PIN is
validated in a thread of its own, and the user may type, cancel or close at any time between their steps; the call
may give up waiting. To the daemon all this is `requestPinDialog`: a list of texts that are validated one after the other.
What a call can come to, with the operations of its validations, is exactly what that program can come to
(`PinSession.outcome_iff`); what the dialog does after its call has ended goes through the same gate
(`PinSession.attempts_are_gated`).
-/

namespace SshWarden

open Prog

def operationText (operationKind : String) : String :=
  match operationKind with
  | "git_signing" => "Git Signing"
  | "file_signing" => "File Signing"
  | "ssh_signature" => "SSH Signature"
  | "ssh_authentication" => "SSH Authentication"
  | other => other

def unlockContextText (context : UnlockRequestContext) : String :=
  let operation := operationText context.operationKind
  let forwarding := if context.isForwarding then " via agent forwarding" else ""
  s!"{context.processName} requests {operation} with {context.keyName}{forwarding}"

/-- The properties of the window. -/
structure PinDialog where
  contextText : String := ""
  pinText : String := ""
  showError : Bool := false
  errorMessage : String := "PIN cannot be empty"
  verifying : Bool := false
deriving DecidableEq

namespace PinDialog

def new (context : Option UnlockRequestContext) : PinDialog :=
  { contextText := (context.map unlockContextText).getD "" }

/-- The text field is disabled while a PIN is verified. -/
def edited (d : PinDialog) (text : String) : PinDialog :=
  if d.verifying then d else { d with pinText := text, showError := false }

/-- `try-submit`: the window, and the PIN that `submit-pin` is called with. -/
def trySubmit (d : PinDialog) : PinDialog × Option String :=
  if d.verifying then (d, none)
  else if d.pinText = "" then ({ d with errorMessage := "PIN cannot be empty", showError := true }, none)
  else ({ d with showError := false, verifying := true }, some d.pinText)

def incorrect (d : PinDialog) : PinDialog :=
  { d with
    pinText := ""
    errorMessage := "Incorrect PIN, please try again"
    showError := true
    verifying := false }

/-- Only an idle window submits, and then it is verifying. -/
theorem trySubmit_cases (d : PinDialog) :
    d.verifying = true ∧ d.trySubmit = (d, none) ∨
      d.verifying = false ∧ (∃ d', d.trySubmit = (d', none) ∧ d'.verifying = false) ∨
      d.verifying = false ∧ d.pinText ≠ "" ∧ ∃ d', d.trySubmit = (d', some d.pinText) ∧ d'.verifying = true := by
  unfold trySubmit
  split_ifs with hbusy hempty
  · exact .inl ⟨hbusy, rfl⟩
  · exact .inr (.inl ⟨Bool.eq_false_iff.2 hbusy, _, rfl, Bool.eq_false_iff.2 hbusy⟩)
  · exact .inr (.inr ⟨Bool.eq_false_iff.2 hbusy, hempty, _, rfl, rfl⟩)

end PinDialog

/-- A window that is hidden is dropped, and the references of the callbacks to it are dead. -/
inductive PinWindow where
  | pending
  | shown (d : PinDialog)
  | gone
deriving DecidableEq

def PinWindow.incorrect : PinWindow → PinWindow
  | .shown d => .shown d.incorrect
  | w => w

inductive PinDialogEvent where
  | edited (text : String)
  /-- The enter key or the button. -/
  | submit
  | cancel
  | closeRequested
deriving DecidableEq

section
variable {α : Type} {inner : String → Option α} {pins : List String} {pin : String} {tr past : List Event}

/-- After PINs that were all rejected the next one is validated. -/
theorem runs_validateSubmitted_append {opened : Option α} (h : Runs (validateSubmitted inner pins) tr none)
    (hpin : Runs (gatePinValidator inner pin) past opened) :
    Runs (validateSubmitted inner (pins ++ [pin])) (tr ++ past) (opened.map (pin, ·)) := by
  induction pins generalizing tr with
  | nil =>
    obtain ⟨rfl, -⟩ := runs_ret.1 h
    refine runs_bind.2 ⟨past, [], opened, by simp, hpin, ?_⟩
    cases opened with
    | none => exact .ret none
    | some o => exact .ret (some (pin, o))
  | cons first rest ih =>
    obtain ⟨pre, post, o, rfl, hpre, hpost⟩ := runs_bind.1 h
    cases o with
    | some o =>
      obtain ⟨-, hnone⟩ := runs_ret.1 hpost
      cases hnone
    | none => exact runs_bind.2 ⟨pre, post ++ past, none, by simp, hpre, ih hpost⟩

theorem reaches_validateSubmitted_append {q : DProg (Option α)} (h : Runs (validateSubmitted inner pins) tr none)
    (hpin : Reaches (gatePinValidator inner pin) past q) :
    ∃ q', Reaches (validateSubmitted inner (pins ++ [pin])) (tr ++ past) q' := by
  induction pins generalizing tr with
  | nil =>
    obtain ⟨rfl, -⟩ := runs_ret.1 h
    exact ⟨_, hpin.bind _⟩
  | cons first rest ih =>
    obtain ⟨pre, post, o, rfl, hpre, hpost⟩ := runs_bind.1 h
    cases o with
    | some o =>
      obtain ⟨-, hnone⟩ := runs_ret.1 hpost
      cases hnone
    | none =>
      obtain ⟨q', hq'⟩ := ih hpost
      refine ⟨q', ?_⟩
      rw [List.append_assoc]
      exact Reaches.append_iff.2 ⟨_, (reaches_ret.2 hpre).bind _, hq'⟩

end

/-! ### A call of the dialog -/

/-- A thread that validates a PIN: the operations it has performed, and what is left of the validator. -/
structure Validation (α : Type) where
  pin : String
  past : List Event
  rest : DProg (Option α)

/-- What the call got, and the operations of the validations that the event loop had the outcome of by then. -/
structure PinAnswer where
  result : Option String
  ops : List Event

/-- `submitted` are the PINs that the event loop has the outcome of, `settled` their operations, and `captured` is what
the validator keeps for the caller. -/
structure PinSession (α : Type) where
  window : PinWindow := .pending
  threads : List (Validation α) := []
  submitted : List String := []
  settled : List Event := []
  captured : Option α := none
  answer : Option PinAnswer := none

namespace PinSession
variable {α : Type}

/-- The sender is taken by the first answer; a call that has given up gets none. -/
def respond (s : PinSession α) (result : Option String) : PinSession α :=
  { s with answer := s.answer.or (some ⟨result, s.settled⟩) }

def onEvent (inner : String → Option α) (s : PinSession α) (d : PinDialog) : PinDialogEvent → PinSession α
  | .edited text => { s with window := .shown (d.edited text) }
  | .submit =>
    let (d', pin) := d.trySubmit
    { s with
      window := .shown d'
      threads := s.threads ++ (pin.map fun pin => ⟨pin, [], gatePinValidator inner pin⟩).toList }
  | .cancel | .closeRequested => { s.respond none with window := .gone }

/-- A thread has performed an operation; the validator keeps what a right PIN has opened. -/
def advance (s : PinSession α) (i : Nat) (t : Validation α) : PinSession α :=
  { s with threads := s.threads.set i t, captured := (t.rest.result?.join).or s.captured }

/-- The event loop gets the outcome of a thread that has ended. -/
def deliver (s : PinSession α) (i : Nat) (t : Validation α) (opened : Option α) : PinSession α :=
  let s :=
    { s with
      threads := s.threads.eraseIdx i
      submitted := s.submitted ++ [t.pin]
      settled := s.settled ++ t.past }
  match opened with
  | some _ => { s.respond (some t.pin) with window := .gone }
  | none => { s with window := s.window.incorrect }

/-- A step of the call. An operation may get any answer: others work on the PIN failures at the same time. -/
inductive Step (context : Option UnlockRequestContext) (inner : String → Option α) :
    PinSession α → PinSession α → Prop
  | shown {s : PinSession α} (h : s.window = .pending) : Step context inner s
    { s with window := .shown (.new context) }
  /-- There is no event loop, or the window cannot be created or shown. -/
  | notShown {s : PinSession α} (h : s.window = .pending) : Step context inner s
    { s.respond none with window := .gone }
  | user {s : PinSession α} {d : PinDialog} (h : s.window = .shown d) (e : PinDialogEvent) :
    Step context inner s (s.onEvent inner d e)
  | perform {s : PinSession α} {i : Nat} {pin : String} {past : List Event} {o : Op} {k : o.Ans → DProg (Option α)}
      (h : s.threads[i]? = some ⟨pin, past, .vis o k⟩) (a : o.Ans) :
    Step context inner s (s.advance i ⟨pin, past ++ [⟨o, a⟩], k a⟩)
  | deliver {s : PinSession α} {i : Nat} {t : Validation α} {opened : Option α} (h : s.threads[i]? = some t)
      (hrest : t.rest = .ret opened) : Step context inner s (s.deliver i t opened)
  /-- The call has waited for 300 s, or the sender is gone with the event loop. -/
  | timeout (s : PinSession α) : Step context inner s (s.respond none)

/-! ### The invariant -/

section
variable {context : Option UnlockRequestContext} {inner : String → Option α} {s s' : PinSession α} {a : PinAnswer}
variable {i : Nat} {t : Validation α} {opened : Option α}

/-- Nothing is validated any more, and nothing will be. -/
def Closed (s : PinSession α) : Prop := s.threads = [] ∧ s.window = .gone

/-- The answer is that of PINs validated one after the other, the last one of them accepted or none. -/
def Told (inner : String → Option α) (s : PinSession α) (a : PinAnswer) : Prop :=
  ∃ pins, (∀ pin ∈ pins, pin ≠ "") ∧
    ((a.result = none ∧ Runs (validateSubmitted inner pins) a.ops none) ∨
      (s.Closed ∧ a.ops = s.settled) ∧ ∃ pin opened, a.result = some pin ∧ s.captured = some opened ∧
        Runs (validateSubmitted inner pins) a.ops (some (pin, opened)))

structure Inv (inner : String → Option α) (s : PinSession α) : Prop where
  one : s.threads.length ≤ 1
  pending : s.window = .pending → s.threads = []
  verifying : ∀ d, s.window = .shown d → d.verifying = false → s.threads = []
  running : ∀ t ∈ s.threads, t.pin ≠ "" ∧ Reaches (gatePinValidator inner t.pin) t.past t.rest
  kept : ∀ t ∈ s.threads, ∀ opened, t.rest = .ret (some opened) → s.captured = some opened
  nonempty : ∀ pin ∈ s.submitted, pin ≠ ""
  settled : Runs (validateSubmitted inner s.submitted) s.settled none ∨
    s.Closed ∧ s.answer.isSome ∧ ∃ r, Runs (validateSubmitted inner s.submitted) s.settled (some r)
  told : ∀ a, s.answer = some a → Told inner s a
  early : ∀ a, s.answer = some a → a.ops <+: s.settled

theorem onEvent_submit {d d' : PinDialog} {pin : Option String} (h : d.trySubmit = (d', pin)) :
    s.onEvent inner d .submit =
      { s with
        window := .shown d'
        threads := s.threads ++ (pin.map fun pin => ⟨pin, [], gatePinValidator inner pin⟩).toList } := by
  simp only [onEvent, h]

/-- Where nothing is validated, the windows make no difference. -/
theorem Inv.of_idle (hidle : s.threads = []) (hnonempty : ∀ pin ∈ s.submitted, pin ≠ "")
    (hsettled : Runs (validateSubmitted inner s.submitted) s.settled none ∨
      s.Closed ∧ s.answer.isSome ∧ ∃ r, Runs (validateSubmitted inner s.submitted) s.settled (some r))
    (htold : ∀ a, s.answer = some a → Told inner s a) (hearly : ∀ a, s.answer = some a → a.ops <+: s.settled) :
    s.Inv inner where
  one := by rw [hidle]; exact Nat.zero_le _
  pending _ := hidle
  verifying _ _ _ := hidle
  running t ht := absurd (hidle ▸ ht) List.not_mem_nil
  kept t ht := absurd (hidle ▸ ht) List.not_mem_nil
  nonempty := hnonempty
  settled := hsettled
  told := htold
  early := hearly

theorem Told.of_open (h : Told inner s a) (hopen : ¬s.Closed) (s' : PinSession α) : Told inner s' a := by
  obtain ⟨pins, hpins, hnone | ⟨⟨hclosed, -⟩, -⟩⟩ := h
  · exact ⟨pins, hpins, .inl hnone⟩
  · exact absurd hclosed hopen

theorem Inv.settled_none (h : s.Inv inner) (hopen : ¬s.Closed) :
    Runs (validateSubmitted inner s.submitted) s.settled none := by
  rcases h.settled with hnone | ⟨hclosed, -⟩
  · exact hnone
  · exact absurd hclosed hopen

theorem not_closed_of_shown {d : PinDialog} (h : s.window = .shown d) : ¬s.Closed := by
  rintro ⟨-, hgone⟩
  rw [h] at hgone
  cases hgone

theorem not_closed_of_pending (h : s.window = .pending) : ¬s.Closed := by
  rintro ⟨-, hgone⟩
  rw [h] at hgone
  cases hgone

theorem not_closed_of_thread (h : s.threads[i]? = some t) : ¬s.Closed := by
  rintro ⟨hnil, -⟩
  rw [hnil] at h
  cases h

/-- The one thread. -/
theorem Inv.threads_eq (h : s.Inv inner) (ht : s.threads[i]? = some t) : s.threads = [t] ∧ i = 0 := by
  have hlt := (List.getElem?_eq_some_iff.1 ht).1
  have hone := h.one
  obtain ⟨t', ht'⟩ := List.length_eq_one_iff.1 (by omega : s.threads.length = 1)
  have hi : i = 0 := by omega
  rw [ht', hi] at ht
  exact ⟨ht'.trans (congrArg (fun t => [t]) (Option.some.inj ht)), hi⟩

theorem Inv.respond_none (h : s.Inv inner) : (s.respond none).Inv inner := by
  rcases hanswer : s.answer with _ | a
  · have hnone : Runs (validateSubmitted inner s.submitted) s.settled none := by
      rcases h.settled with hnone | ⟨-, hsome, -⟩
      · exact hnone
      · rw [hanswer] at hsome
        cases hsome
    refine { h with settled := .inl hnone, told := fun a ha => ?_, early := fun a ha => ?_ }
    all_goals
      rw [respond, hanswer] at ha
      obtain rfl := Option.some.inj ha
    · exact ⟨s.submitted, h.nonempty, .inl ⟨rfl, hnone⟩⟩
    · exact List.prefix_refl _
  · have hsame : s.respond none = s := by rw [respond, hanswer, Option.some_or, ← hanswer]
    rw [hsame]
    exact h

/-- The window may go at any time. -/
theorem Inv.gone (h : s.Inv inner) (hopen : ¬s.Closed) : { s with window := .gone }.Inv inner where
  one := h.one
  pending hw := by cases hw
  verifying d hw := by cases hw
  running := h.running
  kept := h.kept
  nonempty := h.nonempty
  settled := .inl (h.settled_none hopen)
  told a ha := (h.told a ha).of_open hopen _
  early := h.early

theorem Inv.edited {d : PinDialog} (h : s.Inv inner) (hw : s.window = .shown d) (text : String) :
    { s with window := .shown (d.edited text) }.Inv inner where
  one := h.one
  pending hw := by cases hw
  verifying d' hw' hd' := by
    obtain rfl := PinWindow.shown.inj hw'
    refine h.verifying d hw ?_
    rw [PinDialog.edited] at hd'
    split_ifs at hd' with hd
    · exact hd'
    · exact hd'
  running := h.running
  kept := h.kept
  nonempty := h.nonempty
  settled := .inl (h.settled_none (not_closed_of_shown hw))
  told a ha := (h.told a ha).of_open (not_closed_of_shown hw) _
  early := h.early

theorem Inv.submit {d : PinDialog} (h : s.Inv inner) (hw : s.window = .shown d) :
    (s.onEvent inner d .submit).Inv inner := by
  have hopen := not_closed_of_shown hw
  rcases d.trySubmit_cases with ⟨hbusy, hsubmit⟩ | ⟨hidle, d', hsubmit, hd'⟩ | ⟨hidle, hpin, d', hsubmit, hd'⟩
  · rw [onEvent_submit hsubmit, ← hw, Option.map_none, Option.toList_none, List.append_nil]
    exact h
  · rw [onEvent_submit hsubmit, Option.map_none, Option.toList_none, List.append_nil]
    exact .of_idle (h.verifying d hw hidle) h.nonempty (.inl (h.settled_none hopen))
      (fun a ha => (h.told a ha).of_open hopen _) h.early
  · rw [onEvent_submit hsubmit, Option.map_some, Option.toList_some, h.verifying d hw hidle, List.nil_append]
    refine
      { one := Nat.le_refl _
        pending := fun hw => by cases hw
        verifying := fun d'' hw' hd'' => ?_
        running := fun t ht => ?_
        kept := fun t ht opened hrest => ?_
        nonempty := h.nonempty
        settled := .inl (h.settled_none hopen)
        told := fun a ha => (h.told a ha).of_open hopen _
        early := h.early }
    · obtain rfl := PinWindow.shown.inj hw'
      rw [hd'] at hd''
      cases hd''
    · obtain rfl := List.mem_singleton.1 ht
      exact ⟨hpin, .refl _⟩
    · obtain rfl := List.mem_singleton.1 ht
      cases hrest

theorem Inv.perform {pin : String} {past : List Event} {o : Op} {k : o.Ans → DProg (Option α)} (h : s.Inv inner)
    (ht : s.threads[i]? = some ⟨pin, past, .vis o k⟩) (a : o.Ans) :
    (s.advance i ⟨pin, past ++ [⟨o, a⟩], k a⟩).Inv inner := by
  have hopen := not_closed_of_thread ht
  obtain ⟨hthreads, rfl⟩ := h.threads_eq ht
  obtain ⟨hpin, hreach⟩ := h.running _ (hthreads ▸ List.mem_singleton_self _)
  have hset : s.threads.set 0 ⟨pin, past ++ [⟨o, a⟩], k a⟩ = [⟨pin, past ++ [⟨o, a⟩], k a⟩] := by
    rw [hthreads, List.set_cons_zero]
  have hbusy : s.threads ≠ [] := fun hnil => by rw [hnil] at ht; cases ht
  rw [advance, hset]
  refine
    { one := Nat.le_refl _
      pending := fun hw => absurd (h.pending hw) hbusy
      verifying := fun d hw hd => absurd (h.verifying d hw hd) hbusy
      running := fun t ht => ?_
      kept := fun t ht opened hrest => ?_
      nonempty := h.nonempty
      settled := .inl (h.settled_none hopen)
      told := fun a ha => (h.told a ha).of_open hopen _
      early := h.early }
  · obtain rfl := List.mem_singleton.1 ht
    exact ⟨hpin, Reaches.append_iff.2 ⟨_, hreach, .vis (.refl _)⟩⟩
  · obtain rfl := List.mem_singleton.1 ht
    simp only at hrest
    simp only [hrest, result?, Option.join_some, Option.some_or]

theorem Inv.deliver (h : s.Inv inner) (ht : s.threads[i]? = some t) (hrest : t.rest = .ret opened) :
    (s.deliver i t opened).Inv inner := by
  have hopen := not_closed_of_thread ht
  obtain ⟨hthreads, rfl⟩ := h.threads_eq ht
  have hmem : t ∈ s.threads := hthreads ▸ List.mem_singleton_self t
  obtain ⟨hpin, hreach⟩ := h.running t hmem
  rw [hrest] at hreach
  have hruns := runs_validateSubmitted_append (h.settled_none hopen) (reaches_ret.1 hreach)
  have herase : s.threads.eraseIdx 0 = [] := by rw [hthreads, List.eraseIdx_cons_zero]
  have hnonempty : ∀ pin ∈ s.submitted ++ [t.pin], pin ≠ "" := by
    intro pin hmem
    rcases List.mem_append.1 hmem with hmem | hmem
    · exact h.nonempty pin hmem
    · exact List.mem_singleton.1 hmem ▸ hpin
  cases opened with
  | some o =>
    have hclosed : (s.deliver 0 t (some o)).Closed := ⟨herase, rfl⟩
    refine .of_idle herase hnonempty (.inr ⟨hclosed, Option.isSome_or.trans (Bool.or_true _), _, hruns⟩)
      (fun a ha => ?_) fun a ha => ?_
    all_goals
      have ha : s.answer.or (some ⟨some t.pin, s.settled ++ t.past⟩) = some a := ha
      rcases hanswer : s.answer with _ | a₀
      all_goals
        rw [hanswer] at ha
        obtain rfl := Option.some.inj ha
    · exact ⟨_, hnonempty, .inr ⟨⟨hclosed, rfl⟩, t.pin, o, rfl, h.kept t hmem o hrest, hruns⟩⟩
    · exact (h.told a₀ hanswer).of_open hopen _
    · exact List.prefix_refl _
    · exact (h.early a₀ hanswer).trans (List.prefix_append _ _)
  | none =>
    exact .of_idle herase hnonempty (.inl hruns) (fun a ha => (h.told a ha).of_open hopen _)
      fun a ha => (h.early a ha).trans (List.prefix_append _ _)

theorem Inv.step (h : s.Inv inner) (hs : Step context inner s s') : s'.Inv inner := by
  cases hs with
  | shown hw =>
    have hopen := not_closed_of_pending hw
    exact .of_idle (h.pending hw) h.nonempty (.inl (h.settled_none hopen))
      (fun a ha => (h.told a ha).of_open hopen _) h.early
  | notShown hw => exact h.respond_none.gone (not_closed_of_pending (s := s.respond none) hw)
  | @user d hw e =>
    cases e with
    | edited text => exact h.edited hw text
    | submit => exact h.submit hw
    | cancel => exact h.respond_none.gone (not_closed_of_shown (s := s.respond none) hw)
    | closeRequested => exact h.respond_none.gone (not_closed_of_shown (s := s.respond none) hw)
  | perform ht a => exact h.perform ht a
  | deliver ht hrest => exact h.deliver ht hrest
  | timeout => exact h.respond_none

theorem Inv.new : Inv inner ({} : PinSession α) :=
  .of_idle rfl (fun _ h => absurd h List.not_mem_nil) (.inl (.ret none))
    (fun a ha => by cases ha) fun a ha => by cases ha

theorem Inv.run (h : s.Inv inner) (hs : Relation.ReflTransGen (Step context inner) s s') : s'.Inv inner := by
  induction hs with
  | refl => exact h
  | tail _ hstep ih => exact ih.step hstep

/-! ### Every run of the program is one of the dialog -/

/-- The window waits for the user. -/
def Idle (s : PinSession α) : Prop :=
  s.threads = [] ∧ s.answer = none ∧ ∃ d, s.window = .shown d ∧ d.verifying = false

theorem Step.submit {d d' : PinDialog} {pin : Option String} (hw : s.window = .shown d)
    (h : d.trySubmit = (d', pin)) :
    Step context inner s
      { s with
        window := .shown d'
        threads := s.threads ++ (pin.map fun pin => ⟨pin, [], gatePinValidator inner pin⟩).toList } := by
  rw [← onEvent_submit h]
  exact .user hw .submit

variable (context inner) in
theorem exists_performed {p : DProg (Option α)} {tr past : List Event} {pin : String} (hr : Runs p tr opened)
    (hs : s.threads = [⟨pin, past, p⟩]) :
    ∃ s', Relation.ReflTransGen (Step context inner) s s' ∧ s'.threads = [⟨pin, past ++ tr, .ret opened⟩] ∧
      s'.window = s.window ∧ s'.settled = s.settled ∧ s'.answer = s.answer := by
  induction hr generalizing s past with
  | ret a => exact ⟨s, .refl, by rw [hs, List.append_nil], rfl, rfl, rfl⟩
  | @vis o k a tr b _ ih =>
    have hstep : Step context inner s (s.advance 0 ⟨pin, past ++ [⟨o, a⟩], k a⟩) := .perform (by rw [hs]; rfl) a
    have hthreads : (s.advance 0 ⟨pin, past ++ [⟨o, a⟩], k a⟩).threads = [⟨pin, past ++ [⟨o, a⟩], k a⟩] := by
      rw [advance, hs]
      rfl
    obtain ⟨s', hrun, hs', hwindow, hsettled, hanswer⟩ := ih hthreads
    exact ⟨s', .head hstep hrun, by rw [hs', List.append_assoc]; rfl, hwindow, hsettled, hanswer⟩

variable (context) in
theorem Idle.exists_validated {pin : String} {tr : List Event} (h : s.Idle) (hinv : s.Inv inner) (hpin : pin ≠ "")
    (hr : Runs (gatePinValidator inner pin) tr opened) :
    ∃ s', Relation.ReflTransGen (Step context inner) s s' ∧ s'.settled = s.settled ++ tr ∧
      match opened with
      | none => s'.Idle
      | some o => s'.answer = some ⟨some pin, s.settled ++ tr⟩ ∧ s'.captured = some o := by
  obtain ⟨hthreads, hanswer, d, hwindow, hidle⟩ := h
  have hedited : d.edited pin = { d with pinText := pin, showError := false } := by simp [PinDialog.edited, hidle]
  have hsubmit : (d.edited pin).trySubmit = ({ d.edited pin with verifying := true }, some pin) := by
    simp [hedited, PinDialog.trySubmit, hidle, hpin]
  have h₁ : Step context inner s { s with window := .shown (d.edited pin) } := .user hwindow (.edited pin)
  have h₂ : Step context inner { s with window := .shown (d.edited pin) }
      { s with
        window := .shown { d.edited pin with verifying := true }
        threads := [⟨pin, [], gatePinValidator inner pin⟩] } := by
    have hstep : Step context inner { s with window := .shown (d.edited pin) } _ := .submit rfl hsubmit
    simpa only [hthreads, Option.map_some, Option.toList_some, List.nil_append] using hstep
  obtain ⟨s₃, h₃, hthreads₃, hwindow₃, hsettled₃, hanswer₃⟩ := exists_performed context inner (s := { s with
    window := .shown { d.edited pin with verifying := true }
    threads := [⟨pin, [], gatePinValidator inner pin⟩] }) hr rfl
  have hrun : Relation.ReflTransGen (Step context inner) s s₃ := .head h₁ (.head h₂ h₃)
  have h₄ : Step context inner s₃ (s₃.deliver 0 ⟨pin, tr, .ret opened⟩ opened) :=
    .deliver (by rw [hthreads₃]; rfl) rfl
  refine ⟨_, hrun.tail h₄, ?_, ?_⟩
  · cases opened <;> exact congrArg (· ++ tr) hsettled₃
  · cases opened with
    | none =>
      refine ⟨?_, hanswer₃.trans hanswer, _, congrArg PinWindow.incorrect hwindow₃, rfl⟩
      show s₃.threads.eraseIdx 0 = []
      rw [hthreads₃]
      rfl
    | some o =>
      refine ⟨?_, (hinv.run hrun).kept ⟨pin, tr, .ret (some o)⟩ ?_ o rfl⟩
      · show s₃.answer.or (some ⟨some pin, s₃.settled ++ tr⟩) = _
        rw [hanswer₃, hsettled₃, hanswer]
        rfl
      · rw [hthreads₃]
        exact List.mem_singleton_self _

/-- The call can come to `r`: it gets this answer, and what is kept for it is what the accepted PIN opened. -/
def ComesTo (s : PinSession α) (ops : List Event) (r : Option (String × α)) : Prop :=
  s.answer = some ⟨r.map Prod.fst, ops⟩ ∧ ∀ pin opened, r = some (pin, opened) → s.captured = some opened

variable (context) in
theorem Idle.exists_comesTo {pins : List String} {tr : List Event} {r : Option (String × α)} (h : s.Idle)
    (hinv : s.Inv inner) (hpins : ∀ pin ∈ pins, pin ≠ "") (hr : Runs (validateSubmitted inner pins) tr r) :
    ∃ s', Relation.ReflTransGen (Step context inner) s s' ∧ s'.ComesTo (s.settled ++ tr) r := by
  induction pins generalizing s tr with
  | nil =>
    obtain ⟨rfl, rfl⟩ := runs_ret.1 hr
    obtain ⟨-, hanswer, d, hwindow, -⟩ := h
    refine ⟨_, .single (.user hwindow .cancel), ?_, fun pin opened hnone => by cases hnone⟩
    show s.answer.or _ = _
    rw [hanswer, List.append_nil]
    rfl
  | cons pin rest ih =>
    obtain ⟨pre, post, opened, rfl, hpre, hpost⟩ := runs_bind.1 hr
    obtain ⟨s₁, hrun, hsettled, hs₁⟩ := h.exists_validated context hinv (hpins pin (List.mem_cons_self ..)) hpre
    cases opened with
    | some o =>
      obtain ⟨rfl, rfl⟩ := runs_ret.1 hpost
      refine ⟨s₁, hrun, by rw [List.append_nil]; exact hs₁.1, ?_⟩
      rintro _ _ ⟨⟩
      exact hs₁.2
    | none =>
      obtain ⟨s', hrun', hs'⟩ := ih hs₁ (hinv.run hrun) (fun p hp => hpins p (List.mem_cons_of_mem _ hp)) hpost
      rw [hsettled, List.append_assoc] at hs'
      exact ⟨s', hrun.trans hrun', hs'⟩

/-- Whatever the call is told, it comes to something: the secret of an accepted PIN has been kept for it. -/
theorem Inv.exists_comesTo (h : s.Inv inner) (ha : s.answer = some a) : ∃ r, s.ComesTo a.ops r := by
  obtain ⟨pins, -, ⟨hnone, -⟩ | ⟨-, pin, opened, hpin, hopened, -⟩⟩ := h.told a ha
  · refine ⟨none, ?_, fun _ _ hno => by cases hno⟩
    rw [ha, Option.map_none, ← hnone]
  · refine ⟨some (pin, opened), ?_, ?_⟩
    · rw [ha, Option.map_some, ← hpin]
    · rintro _ _ ⟨⟩
      exact hopened

theorem Inv.exists_runs {ops : List Event} {r : Option (String × α)} (h : s.Inv inner) (hs : s.ComesTo ops r) :
    ∃ pins, (∀ pin ∈ pins, pin ≠ "") ∧
      Runs (requestPinDialog context inner) (⟨.pinDialog context, pins⟩ :: ops) r := by
  obtain ⟨hanswer, hkept⟩ := hs
  obtain ⟨pins, hpins, ⟨hnone, hr⟩ | ⟨-, pin, opened, hpin, hopened, hr⟩⟩ := h.told _ hanswer
  · obtain rfl := Option.map_eq_none_iff.1 hnone
    exact ⟨pins, hpins, .vis hr⟩
  · obtain ⟨⟨pin', opened'⟩, rfl, rfl⟩ := Option.map_eq_some_iff.1 hpin
    obtain rfl := Option.some.inj (hopened.symm.trans (hkept _ _ rfl))
    exact ⟨pins, hpins, .vis hr⟩

/-- Every answer of the dialog comes to something, and what a call can come to, with the operations of its validations,
is what the daemon's program can come to on some list of texts that are not empty. -/
theorem outcome_iff (context : Option UnlockRequestContext) (inner : String → Option α) :
    (∀ (s : PinSession α) a, Relation.ReflTransGen (Step context inner) {} s → s.answer = some a →
      ∃ r, s.ComesTo a.ops r) ∧
    ∀ ops r, (∃ s : PinSession α, Relation.ReflTransGen (Step context inner) {} s ∧ s.ComesTo ops r) ↔
      ∃ pins, (∀ pin ∈ pins, pin ≠ "") ∧
        Runs (requestPinDialog context inner) (⟨.pinDialog context, pins⟩ :: ops) r := by
  refine ⟨fun s a hrun ha => (Inv.new.run hrun).exists_comesTo ha, fun ops r => ⟨?_, ?_⟩⟩
  · rintro ⟨s, hrun, hs⟩
    exact (Inv.new.run hrun).exists_runs hs
  · rintro ⟨pins, hpins, hr⟩
    obtain ⟨_, _, hcons, hr⟩ := runs_perform_bind.1 hr
    obtain ⟨heq, rfl⟩ := List.cons.inj hcons
    cases heq
    have hshown : Step context inner ({} : PinSession α) { window := .shown (.new context) } := .shown rfl
    have hidle : Idle ({ window := .shown (.new context) } : PinSession α) := ⟨rfl, rfl, _, rfl, rfl⟩
    obtain ⟨s, hrun, hs⟩ := hidle.exists_comesTo context (Inv.new.step hshown) hpins hr
    exact ⟨s, .head hshown hrun, hs⟩

/-- A right PIN: the call gets it, with what it has opened. -/
theorem outcome_iff_accepted : ∃ (s : PinSession Unit) (ops : List Event),
    s.answer = some ⟨some "1234", ops⟩ ∧ s.captured = some () ∧ ∃ r, s.ComesTo ops r := by
  let inner : String → Option Unit := fun pin => if pin = "1234" then some () else none
  have hsubmit : ((PinDialog.new none).edited "1234").trySubmit =
      ({ pinText := "1234", verifying := true }, some "1234") := by
    decide
  have h₂ : Relation.ReflTransGen (Step none inner) {} { window := .shown ((PinDialog.new none).edited "1234") } :=
    .tail (.single (.shown rfl)) (.user rfl (.edited "1234"))
  have h₃ := h₂.tail (.submit rfl hsubmit)
  have h₅ := (h₃.tail (.perform (i := 0) rfl 0)).tail (.perform (i := 0) rfl none)
  have h₇ := (h₅.tail (.perform (i := 0) rfl 0)).tail (.perform (i := 0) rfl 0)
  have h₈ := h₇.tail (.deliver (i := 0) rfl rfl)
  exact ⟨_, _, rfl, rfl, (outcome_iff none inner).1 _ _ h₈ rfl⟩

/-! ### Behind the answer -/

/-- The operations of all validations so far. -/
def performed (s : PinSession α) : List Event := s.settled ++ s.threads.flatMap Validation.past

theorem Closed.performed (h : s.Closed) : s.performed = s.settled := by
  rw [PinSession.performed, h.1, List.flatMap_nil, List.append_nil]

theorem Closed.step (h : s.Closed) (hs : Step context inner s s') : s'.Closed ∧ s'.settled = s.settled := by
  cases hs with
  | shown hw => exact absurd h (not_closed_of_pending hw)
  | notShown hw => exact absurd h (not_closed_of_pending hw)
  | user hw => exact absurd h (not_closed_of_shown hw)
  | perform ht => exact absurd h (not_closed_of_thread ht)
  | deliver ht => exact absurd h (not_closed_of_thread ht)
  | timeout => exact ⟨h, rfl⟩

theorem Closed.run (h : s.Closed) (hs : Relation.ReflTransGen (Step context inner) s s') :
    s'.Closed ∧ s'.settled = s.settled := by
  induction hs with
  | refl => exact ⟨h, rfl⟩
  | tail _ hstep ih =>
    obtain ⟨hclosed, hsettled⟩ := ih.1.step hstep
    exact ⟨hclosed, hsettled.trans ih.2⟩

theorem Inv.exists_reaches (h : s.Inv inner) :
    ∃ pins q, (∀ pin ∈ pins, pin ≠ "") ∧ Reaches (validateSubmitted inner pins) s.performed q := by
  rcases hthreads : s.threads with _ | ⟨t, rest⟩
  · have hperformed : s.performed = s.settled := by rw [performed, hthreads, List.flatMap_nil, List.append_nil]
    rw [hperformed]
    rcases h.settled with hr | ⟨-, -, r, hr⟩
    · exact ⟨_, _, h.nonempty, reaches_ret.2 hr⟩
    · exact ⟨_, _, h.nonempty, reaches_ret.2 hr⟩
  · have ht : s.threads[0]? = some t := by rw [hthreads]; rfl
    obtain ⟨hone, -⟩ := h.threads_eq ht
    obtain ⟨hpin, hreach⟩ := h.running t (hone ▸ List.mem_singleton_self t)
    obtain ⟨q, hq⟩ := reaches_validateSubmitted_append (h.settled_none (not_closed_of_thread ht)) hreach
    refine ⟨s.submitted ++ [t.pin], q, fun pin hmem => ?_, ?_⟩
    · rcases List.mem_append.1 hmem with hmem | hmem
      · exact h.nonempty pin hmem
      · exact List.mem_singleton.1 hmem ▸ hpin
    · rw [performed, hone, List.flatMap_singleton]
      exact hq

/-- Over the whole life of a dialog, also after the call has been cancelled or has given up, one PIN at a time is
validated, and only through the gate. The operations up to the answer are the first ones, and an accepted PIN is the last
one that is validated. -/
theorem attempts_are_gated (h : Relation.ReflTransGen (Step context inner) {} s) :
    s.threads.length ≤ 1 ∧
      (∃ pins q, (∀ pin ∈ pins, pin ≠ "") ∧ Reaches (validateSubmitted inner pins) s.performed q) ∧
      ∀ a, s.answer = some a → a.ops <+: s.performed ∧
        (a.result.isSome → ∀ s', Relation.ReflTransGen (Step context inner) s s' → s'.performed = a.ops) := by
  have hinv := Inv.new.run h
  refine ⟨hinv.one, hinv.exists_reaches, fun a ha => ⟨(hinv.early a ha).trans (List.prefix_append _ _), ?_⟩⟩
  intro haccepted s' hrun
  obtain ⟨pins, -, ⟨hnone, -⟩ | ⟨⟨hclosed, hops⟩, -⟩⟩ := hinv.told a ha
  · rw [hnone] at haccepted
    cases haccepted
  · obtain ⟨hclosed', hsettled⟩ := hclosed.run hrun
    rw [hclosed'.performed, hsettled, hops]

/-- A right PIN whose user has cancelled while it was verified: the call gets nothing, and the counter is reset. -/
theorem attempts_are_gated_cancelled :
    ∃ s : PinSession Unit, s.answer = some ⟨none, []⟩ ∧
      s.performed = [⟨.now, 0⟩, ⟨.checkPinLockout 0, none⟩, ⟨.now, 0⟩, ⟨.recordPin 0 true, 0⟩] ∧
        s.threads.length ≤ 1 := by
  let inner : String → Option Unit := fun pin => if pin = "1234" then some () else none
  have hsubmit : ((PinDialog.new none).edited "1234").trySubmit =
      ({ pinText := "1234", verifying := true }, some "1234") := by
    decide
  have h₂ : Relation.ReflTransGen (Step none inner) {} { window := .shown ((PinDialog.new none).edited "1234") } :=
    .tail (.single (.shown rfl)) (.user rfl (.edited "1234"))
  have h₃ := h₂.tail (.submit rfl hsubmit)
  have h₆ := ((h₃.tail (.perform (i := 0) rfl 0)).tail (.perform (i := 0) rfl none)).tail (.user rfl .cancel)
  have h₈ := (h₆.tail (.perform (i := 0) rfl 0)).tail (.perform (i := 0) rfl 0)
  exact ⟨_, rfl, rfl, (attempts_are_gated h₈).1⟩

end

end PinSession

end SshWarden
