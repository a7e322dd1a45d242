import SshWarden.Lib.Pool
import SshWarden.Daemon

/-!
# The atomic steps of the agent's updates

An update of the keystore takes its lock several times: once to clear or to strip it, and once more for
every key it inserts, with the store of `needs_unlock` in between. `atomically` gives the steps of each
operation; every operation that is not listed is one step. A request handler among other programs runs
in these steps.
-/

namespace SshWarden
open Prog

inductive AtomicOp
  | op (o : Op)
  | loadIsRunning
  | clearKeystore
  | insertKey (k : KeyTuple)
  | insertIdentity (k : KeyTuple)
  | stripPrivateKeys
  | storeNeedsUnlock (b : Bool)

@[reducible] def AtomicOp.Ans : AtomicOp → Type
  | op o => o.Ans
  | loadIsRunning => Bool
  | _ => Unit

@[reducible] def atomicSig : Sig := ⟨AtomicOp, AtomicOp.Ans⟩

abbrev AtomicEvent : Type := atomicSig.Event

abbrev AProg (α : Type) : Type := Prog atomicSig α

/-- Perform an atomic step. -/
abbrev atomic (o : AtomicOp) : AProg o.Ans := Prog.perform (S := atomicSig) o

def atomicReady (E : Crates) : (o : AtomicOp) → Daemon → o.Ans → Prop
  | .op o, s, a => ready E o s a
  | .loadIsRunning, s, a => a = s.agent.isRunning
  | _, _, _ => True

def atomicNext (E : Crates) : (o : AtomicOp) → Daemon → o.Ans → Daemon
  | .op o, s, a => next E o s a
  | .loadIsRunning, s, _ => s
  | .clearKeystore, s, _ => { s with agent.keystore := [] }
  | .insertKey k, s, _ => { s with agent.keystore := Agent.insertKey E s.agent.keystore k }
  | .insertIdentity k, s, _ => { s with agent.keystore := Agent.insertIdentity E s.agent.keystore k }
  | .stripPrivateKeys, s, _ =>
    { s with agent.keystore := s.agent.keystore.map fun p => (p.1, { p.2 with privateKey := none }) }
  | .storeNeedsUnlock b, s, _ => { s with agent.needsUnlock := b }

/-- The atomic steps on one `Daemon`. -/
def atomicMachine (E : Crates) : Machine atomicSig Daemon where
  ready := atomicReady E
  next := atomicNext E

/-- One insertion after the other, each under a lock of its own. -/
def insertEach (insert : KeyTuple → AtomicOp) : List KeyTuple → AProg Unit
  | [] => return ()
  | k :: ks => do
    let _ ← atomic (insert k)
    insertEach insert ks

/-- `set_keys` and `set_public_identities`. -/
def refillSteps (needsUnlock : Bool) (insert : KeyTuple → AtomicOp) (ks : List KeyTuple) : AProg Bool := do
  if ← atomic .loadIsRunning then
    atomic .clearKeystore
    atomic (.storeNeedsUnlock needsUnlock)
    insertEach insert ks
    return true
  else return false

def lockSteps : AProg Bool := do
  if ← atomic .loadIsRunning then
    atomic .stripPrivateKeys
    atomic (.storeNeedsUnlock false)
    return true
  else return false

def clearKeysSteps : AProg Unit := do
  atomic .clearKeystore
  atomic (.storeNeedsUnlock true)

/-- The atomic steps of an operation. -/
def atomically : (o : Op) → AProg o.Ans
  | .agentSetKeys ks => refillSteps true .insertKey ks
  | .agentSetPublicIdentities ids => refillSteps false .insertIdentity ids
  | .agentLock => lockSteps
  | .agentClearKeys => clearKeysSteps
  | o => atomic (.op o)

variable {E : Crates} {D : AtomicOp → Daemon → Prop}

theorem wp_insertEach {insert : KeyTuple → AtomicOp}
    {f : Assoc Bytes SshWardenKey → KeyTuple → Assoc Bytes SshWardenKey}
    (hf : ∀ k s a, atomicNext E (insert k) s a = { s with agent.keystore := f s.agent.keystore k })
    (ks : List KeyTuple) (s : Daemon) :
    wp (atomicMachine E) (fun _ _ => True) (insertEach insert ks)
      (fun _ s' => s' = { s with agent.keystore := ks.foldl f s.agent.keystore }) s := by
  induction ks generalizing s with
  | nil => rfl
  | cons k ks ih =>
    refine ⟨trivial, fun a _ => ?_⟩
    have hrest := ih (atomicNext E (insert k) s a)
    rw [hf] at hrest
    show wp _ _ _ _ (atomicNext E (insert k) s a)
    rw [hf]
    exact hrest

theorem wp_refillSteps {needsUnlock : Bool} {insert : KeyTuple → AtomicOp}
    {f : Assoc Bytes SshWardenKey → KeyTuple → Assoc Bytes SshWardenKey}
    (hf : ∀ k s a, atomicNext E (insert k) s a = { s with agent.keystore := f s.agent.keystore k })
    (ks : List KeyTuple) (s : Daemon) :
    wp (atomicMachine E) (fun _ _ => True) (refillSteps needsUnlock insert ks)
      (fun a s' => a = s.agent.isRunning ∧
        s' = if a then { s with agent := { s.agent with keystore := ks.foldl f [], needsUnlock } } else s) s := by
  refine wp_perform_bind.2 ⟨trivial, ?_⟩
  rintro b rfl
  refine (wp_ite ..).2 ⟨fun hr => ?_, fun hr => ?_⟩
  · refine wp_perform_bind.2 ⟨trivial, fun _ _ => wp_perform_bind.2 ⟨trivial, fun _ _ => ?_⟩⟩
    refine (wp_bind ..).2 ((wp_insertEach hf ks _).post ?_)
    rintro _ s' rfl
    exact ⟨hr.symm, rfl⟩
  · have hstopped : s.agent.isRunning = false := by simpa using hr
    exact ⟨hstopped.symm, rfl⟩

/-- Uninterrupted, the atomic steps of an operation do what the operation does. -/
theorem wp_atomically (o : Op) (s : Daemon) : wp (atomicMachine E) (fun _ _ => True) (atomically o)
    (fun a s' => (machine E).ready o s a ∧ s' = (machine E).next o s a) s := by
  cases o with
  | agentSetKeys ks =>
    refine (wp_refillSteps (fun _ _ _ => rfl) ks s).post ?_
    rintro a s' ⟨rfl, rfl⟩
    refine ⟨rfl, ?_⟩
    cases hr : s.agent.isRunning <;> simp [machine, next, Agent.setKeys, Agent.keystoreOf, hr]
  | agentSetPublicIdentities ids =>
    refine (wp_refillSteps (fun _ _ _ => rfl) ids s).post ?_
    rintro a s' ⟨rfl, rfl⟩
    refine ⟨rfl, ?_⟩
    cases hr : s.agent.isRunning <;> simp [machine, next, Agent.setPublicIdentities, hr]
  | agentLock =>
    refine wp_perform_bind.2 ⟨trivial, ?_⟩
    rintro b rfl
    refine (wp_ite ..).2 ⟨fun hr => ?_, fun hr => ?_⟩
    · refine ⟨trivial, fun _ _ => ⟨trivial, fun _ _ => ⟨hr.symm, ?_⟩⟩⟩
      simp [machine, next, atomicMachine, atomicNext, Agent.lock, hr]
    · have hstopped : s.agent.isRunning = false := by simpa using hr
      exact ⟨hstopped.symm, by simp [machine, next, Agent.lock, atomicMachine, atomicNext, hstopped]⟩
  | agentClearKeys => exact ⟨trivial, fun _ _ => ⟨trivial, fun _ _ => ⟨trivial, rfl⟩⟩⟩
  | _ => exact ⟨trivial, fun a ha => ⟨ha, rfl⟩⟩

/-- A program run alone in atomic steps does what it does in whole operations. -/
theorem exists_steps_of_atomic {α : Type} {p : DProg α} {s s' : Daemon} {tr : List AtomicEvent} {a : α}
    (h : Steps (atomicMachine E) (expand atomically p) s tr (.ret a) s') :
    ∃ tr', Steps (machine E) p s tr' (.ret a) s' := by
  have hp : wp (machine E) (fun _ _ => True) p (fun a s' => ∃ tr', Steps (machine E) p s tr' (.ret a) s') s :=
    wp_of_steps (fun _ _ _ _ _ => trivial) fun tr' _ _ hs => ⟨tr', hs⟩
  exact (wp_expand (fun o s _ => wp_atomically o s) hp).of_ret h

end SshWarden
