import SshWarden.Atomic
import SshWarden.Lib.EventLoop
import SshWarden.Lockless
import SshWarden.Scenario

/-!
# Request handlers beside the main loop (`src/daemon.rs`, `run_foreground`)

The main loop handles one event at a time and spawns a task for each request of the agent. `daemonLoop` runs
them beside each other, in the atomic steps of their operations; a dialog that asks for an approval is opened
in one step and answered in a later one.
-/

namespace SshWarden
open Prog

inductive LoopOp
  | atomic (o : AtomicOp)
  | openPrompt

@[reducible] def LoopOp.Ans : LoopOp → Type
  | atomic o => o.Ans
  | openPrompt => Unit

@[reducible] def loopSig : Sig := ⟨LoopOp, LoopOp.Ans⟩

abbrev LoopEvent : Type := loopSig.Event

abbrev LProg (α : Type) : Type := Prog loopSig α

/-- Perform a step. -/
abbrev loopOp (o : LoopOp) : LProg o.Ans := Prog.perform (S := loopSig) o

def loopReady (E : Crates) : (o : LoopOp) → Daemon → o.Ans → Prop
  | .atomic o, s, a => atomicReady E o s a
  | .openPrompt, _, _ => True

def loopNext (E : Crates) : (o : LoopOp) → Daemon → o.Ans → Daemon
  | .atomic o, s, a => atomicNext E o s a
  | .openPrompt, s, _ => s

def loopMachine (E : Crates) : Machine loopSig Daemon where
  ready := loopReady E
  next := loopNext E

/-- The steps of an operation. -/
def inSteps : (o : Op) → LProg o.Ans
  | .authDialog info => do
    loopOp .openPrompt
    loopOp (.atomic (.op (.authDialog info)))
  | o => expand (fun o => loopOp (.atomic o)) (atomically o)

/-- The `.await` points; the calls of the agent have none. -/
def LoopOp.awaits : LoopOp → Bool
  | atomic (.op o) => o.awaits
  | _ => false

/-- The main loop counts the requests that are being handled. -/
def daemonLoop (E : Crates) (cfg : Config) : Loop loopSig Daemon MainEvent SshAgentUIRequest where
  machine := loopMachine E
  handle ev := expand inSteps (mainStep E cfg ev)
  serve request := expand inSteps (handleUiRequest E cfg request)
  receives := Receives
  arrives := Arrives
  mayDrop ev o := (∃ action, ev = .control action) ∧ o.awaits = true
  spawned s := { s with inFlightPrompts := s.inFlightPrompts + 1 }
  finished s := { s with inFlightPrompts := s.inFlightPrompts - 1 }

abbrev DaemonConf : Type := Loop.Conf loopSig Daemon MainEvent

abbrev DaemonMove : Type := Loop.Move loopSig MainEvent SshAgentUIRequest

/-- No request has been received. -/
def beforeRequests (s : Daemon) : DaemonConf := ⟨s, none, []⟩

/-- No handler has a step left. -/
def AllAnswered (c : DaemonConf) : Prop := ∀ task ∈ c.tasks, task = none

instance (c : DaemonConf) : Decidable (AllAnswered c) :=
  decidable_of_iff (c.tasks.all Option.isNone = true) <| by
    simp [AllAnswered, List.all_eq_true]

/-- The operations that have several steps. -/
def Op.isStaged : Op → Bool
  | agentSetKeys _ | agentSetPublicIdentities _ | agentLock | agentClearKeys | authDialog _ => true
  | _ => false

theorem inSteps_of_not_isStaged {o : Op} (h : o.isStaged = false) : inSteps o = loopOp (.atomic (.op o)) := by
  cases o <;> first | rfl | exact absurd h.symm Bool.false_ne_true

/-- A step that is no operation of the daemon. -/
def LoopOp.isInner : LoopOp → Bool
  | atomic (.op _) => false
  | _ => true

section
variable {α : Type} {P : LoopOp → Prop}

theorem only_insertEach {P : AtomicOp → Prop} {insert : KeyTuple → AtomicOp} (h : ∀ k, P (insert k))
    (ks : List KeyTuple) : Only (S := atomicSig) P (insertEach insert ks) := by
  induction ks with
  | nil => trivial
  | cons k ks ih => exact ⟨h k, fun _ => ih⟩

/-- An operation has itself and inner steps as its steps. -/
theorem only_inSteps (hinner : ∀ o : LoopOp, o.isInner = true → P o) {o : Op} (ho : P (.atomic (.op o))) :
    Only (S := loopSig) P (inSteps o) := by
  have hlift : ∀ {α : Type} {p : AProg α}, Only (S := atomicSig) (fun o => P (.atomic o)) p →
      Only (S := loopSig) P (expand (fun o => loopOp (.atomic o)) p : LProg α) := by
    intro α p h
    exact h.expand fun o ho => (Only.perform_iff (S := loopSig) (.atomic o)).2 ho
  have hrefill : ∀ b (insert : KeyTuple → AtomicOp) ks, (∀ k, P (.atomic (insert k))) →
      Only (S := atomicSig) (fun o => P (.atomic o)) (refillSteps b insert ks) := by
    intro b insert ks hk
    have hinsert : Only (S := atomicSig) (fun o => P (.atomic o)) (do insertEach insert ks; return true) :=
      .bind (only_insertEach (P := fun o => P (.atomic o)) hk ks) fun _ => trivial
    exact ⟨hinner _ rfl, fun _ => .ite ⟨hinner _ rfl, fun _ => ⟨hinner _ rfl, fun _ => hinsert⟩⟩ trivial⟩
  cases o with
  | agentSetKeys ks => exact hlift (hrefill true .insertKey ks fun _ => hinner _ rfl)
  | agentSetPublicIdentities ids => exact hlift (hrefill false .insertIdentity ids fun _ => hinner _ rfl)
  | agentLock =>
    refine hlift ⟨hinner _ rfl, fun _ => .ite ?_ trivial⟩
    exact ⟨hinner _ rfl, fun _ => ⟨hinner _ rfl, fun _ => trivial⟩⟩
  | agentClearKeys => exact hlift ⟨hinner _ rfl, fun _ => ⟨hinner _ rfl, fun _ => trivial⟩⟩
  | authDialog info => exact ⟨hinner _ rfl, fun _ => ⟨ho, fun _ => trivial⟩⟩
  | _ => exact ⟨ho, fun _ => trivial⟩

/-- What the operations of a program keep, its steps keep. -/
theorem wp_inSteps {σ : Type} {M : Machine daemonSig σ} {M' : Machine loopSig σ} {D : Op → σ → Prop}
    {D' : LoopOp → σ → Prop} {p : DProg α} {Q : α → σ → Prop} {x : σ}
    (hD : ∀ o x, o.isStaged = false → D o x → D' (.atomic (.op o)) x)
    (hready : ∀ o x a, o.isStaged = false → M'.ready (.atomic (.op o)) x a → M.ready o x a)
    (hnext : ∀ o x a, o.isStaged = false → M'.next (.atomic (.op o)) x a = M.next o x a)
    (hstaged : ∀ o x, o.isStaged = true → D o x →
      wp M' D' (inSteps o) (fun a x' => M.ready o x a ∧ x' = M.next o x a) x)
    (h : wp M D p Q x) : wp M' D' (expand inSteps p) Q x := by
  refine wp_expand (fun o x hx => ?_) h
  cases ho : o.isStaged with
  | true => exact hstaged o x ho hx
  | false =>
    rw [inSteps_of_not_isStaged ho]
    exact ⟨hD o x ho hx, fun a ha => ⟨hready o x a ho ha, hnext o x a ho⟩⟩

end

/-- The answers of a script to the steps. -/
def Script.loopAnswer (sc : Script) : (o : LoopOp) → Daemon → o.Ans
  | .atomic o, s => sc.atomicAnswer o s
  | .openPrompt, _ => ()

theorem ready_loopAnswer (E : Crates) (cfg : Config) (sc : Script) (o : LoopOp) (s : Daemon) :
    (daemonLoop E cfg).machine.ready o s (sc.loopAnswer o s) := by
  cases o with
  | openPrompt => trivial
  | atomic o => exact ready_atomicAnswer E sc o s

section
variable {τ : Type}

/-- A device after a first login with a PIN, and what becomes of it and of a record when the script is followed
from cue to cue and every move passes a check. -/
def playCues (sc : Script) (cfg : Config) (f : Config → τ → DaemonConf → DaemonMove → τ)
    (g : Config → τ → DaemonConf → DaemonMove → Bool) (cues : List (Loop.Cue MainEvent SshAgentUIRequest))
    (t₀ : τ) :
    Option (Config × Daemon × DaemonConf × τ) :=
  (playStart .plain cfg sc {}).bind fun x =>
    if Loop.followMeets (daemonLoop .plain x.1) receive? sc.loopAnswer (f x.1) (g x.1) cues
        (beforeRequests x.2) t₀ then
      some (x.1, x.2, Loop.follow (daemonLoop .plain x.1) receive? sc.loopAnswer (f x.1) cues
        (beforeRequests x.2) t₀)
    else none

theorem exists_of_playCues {sc : Script} {cfg : Config} {f : Config → τ → DaemonConf → DaemonMove → τ}
    {g : Config → τ → DaemonConf → DaemonMove → Bool} {cues : List (Loop.Cue MainEvent SshAgentUIRequest)} {t₀ : τ}
    (check : Config × DaemonConf × τ → Bool)
    (h : (playCues sc cfg f g cues t₀).any (fun x => check (x.1, x.2.2.1, x.2.2.2)) = true) :
    ∃ cfg' s₀ s c t, Started (machine .plain) .plain cfg cfg' s₀ s ∧
      Loop.Run (daemonLoop .plain cfg') (f cfg') (fun t c m => g cfg' t c m = true) (beforeRequests s) t₀ c t ∧
      check (cfg', c, t) = true := by
  obtain ⟨x, hx, hcheck⟩ := (Option.any_eq_true _ _).1 h
  obtain ⟨⟨cfg', s⟩, hstart, hfollow⟩ := Option.bind_eq_some_iff.1 hx
  split at hfollow
  · next hmeets =>
    obtain rfl := Option.some.inj hfollow
    exact ⟨cfg', _, s, _, _, started_playStart hstart,
      Loop.run_follow receives_of_receive? (ready_loopAnswer .plain cfg' sc) hmeets, hcheck⟩
  · cases hfollow

/-- More steps than any event or handler of a directed run has. -/
def mainSteps : List (Loop.Cue MainEvent SshAgentUIRequest) := List.replicate 200 .main

end

end SshWarden
