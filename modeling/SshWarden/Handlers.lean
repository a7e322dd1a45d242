import SshWarden.Steady

/-!
# The shape of the unlock handlers

An unlock prepares, restores the API session and resolves the pending sync. `UnlockRules` says what has
to be shown of these parts for a property of programs to hold of every handler that unlocks. A request
handler is an unlocking program as a whole: it neither syncs nor touches the connection to the hub.
-/

namespace SshWarden
open Prog

/-- Routine operations and the release of a guard. -/
def Op.isClosing : Op → Bool
  | release _ => true
  | o => o.isRoutine

abbrev Closing {α : Type} (p : DProg α) : Prop :=
  Prog.Only (S := daemonSig) (fun o : Op => o.isClosing = true) p

theorem Op.isClosing_of_isRoutine {o : Op} (h : o.isRoutine = true) : o.isClosing = true := by
  cases o <;> first | rfl | exact h

theorem Op.isUnlocking_of_isClosing {o : Op} (h : o.isClosing = true) : o.isUnlocking = true := by
  cases o <;> first | rfl | exact absurd h Bool.false_ne_true

theorem Op.keepsCore_of_isClosing {o : Op} (h : o.isClosing = true) : o.keepsCore = true := by
  cases o <;> first | rfl | exact h

theorem Routine.closing {α : Type} {p : DProg α} (h : Routine p) : Closing p :=
  h.mono fun _ => Op.isClosing_of_isRoutine

theorem Closing.unlocking {α : Type} {p : DProg α} (h : Closing p) : Unlocking p :=
  h.mono fun _ => Op.isUnlocking_of_isClosing

theorem Closing.keepsCore {α : Type} {p : DProg α} (h : Closing p) : KeepsCore p :=
  h.mono fun _ => Op.keepsCore_of_isClosing

theorem closing_op {o : Op} (h : o.isClosing = true) : Closing (op o) := ⟨h, fun _ => trivial⟩

structure UnlockRules (E : Crates) (cfg : Config) (P : (α : Type) → DProg α → Prop) : Prop where
  unlocking : ∀ {α : Type} {p : DProg α}, Unlocking p → P α p
  bind : ∀ {α β : Type} {p : DProg α} {f : α → DProg β}, Unlocking p → (∀ a, P β (f a)) → P β (p >>= f)
  andThen : ∀ {α β : Type} {p : DProg α} {f : α → DProg β}, P α p → (∀ a, Closing (f a)) → P β (p >>= f)
  resolve : P Bool (resolvePendingSync E cfg)
  restore : ∀ pin, P Bool (do tryRestoreApiSession E cfg pin; resolvePendingSync E cfg)

namespace UnlockRules
variable {E : Crates} {cfg : Config} {P : (α : Type) → DProg α → Prop}

theorem ret (h : UnlockRules E cfg P) {α : Type} (a : α) : P α (pure a) := h.unlocking trivial

theorem ite {α : Type} {c : Prop} [Decidable c] {p q : DProg α} (hp : P α p) (hq : P α q) :
    P α (if c then p else q) := by
  split <;> assumption

theorem afterUnlock (h : UnlockRules E cfg P) (pin : String) (resp : ControlResponse) :
    P _ (do
      if resp.ok then
        tryRestoreApiSession E cfg pin
        let _ ← resolvePendingSync E cfg
        return resp
      else return resp) := by
  refine ite ?_ (h.ret _)
  have hrestore := h.andThen (f := fun _ => pure resp) (h.restore pin) fun _ => trivial
  rwa [Prog.bind_assoc] at hrestore

theorem handleUnlockDialog (h : UnlockRules E cfg P) : P _ (handleUnlockDialog E cfg) := by
  refine ite (h.bind (unlocking_op rfl) fun cache => ?_) (h.ret _)
  dsimp only
  split
  · exact h.ret _
  · refine h.bind (pinSteps_requestPinDialog _ _).routine.unlocking fun r => ?_
    cases r with
    | none => exact h.ret _
    | some opened =>
      exact h.bind (unlocking_op rfl) fun _ =>
        h.bind (loadingSteps_finishUnlockWithJson E _ _).unlocking fun resp =>
        h.afterUnlock _ resp

theorem handleUnlock (h : UnlockRules E cfg P) : P _ (handleUnlock E cfg) := by
  refine h.bind (unlocking_op rfl) fun _ => ite (h.ret _) <|
    h.bind (unlocking_op rfl) fun _ => h.bind (unlocking_op rfl) fun cache => ?_
  cases cache with
  | none => exact h.bind (unlocking_op rfl) fun _ => h.handleUnlockDialog
  | some cache =>
    refine h.bind (unlocking_finishNativeUnlockResponse E cfg cache _) fun resp => ite ?_ ?_
    · exact h.andThen h.resolve fun _ => .bind (closing_op rfl) fun _ => trivial
    · exact h.bind (unlocking_op rfl) fun _ => h.handleUnlockDialog

theorem handleUnlockNative (h : UnlockRules E cfg P) : P _ (handleUnlockNative E cfg) := by
  refine h.bind (unlocking_op rfl) fun _ => ite (h.ret _) <| h.bind (unlocking_op rfl) fun cache => ?_
  cases cache with
  | none => exact h.ret _
  | some cache =>
    exact h.bind (unlocking_finishNativeUnlockResponse E cfg cache _) fun resp =>
      ite (h.andThen h.resolve fun _ => trivial) (h.ret _)

theorem handleUnlockHello (h : UnlockRules E cfg P) : P _ handleUnlockHello :=
  h.bind (unlocking_op rfl) fun _ => ite (h.ret _) (h.ret _)

theorem unlockPinBlock (h : UnlockRules E cfg P) (pin : String) : P _ (unlockPinBlock E cfg pin) := by
  refine h.bind (unlocking_op rfl) fun cache => ?_
  cases cache with
  | none => exact h.ret _
  | some cache =>
    dsimp only
    split
    · exact h.ret _
    · exact h.bind (pinSlotSteps_migratePinSlotIfNeeded E cache _ pin).inner.unlocking fun _ =>
        h.bind (slotSteps_enrollDevicePlatformSlotsIfMissing E cfg _).slotRoutine.inner.unlocking fun _ =>
        h.bind (unlocking_op rfl) fun _ => h.bind (loadingSteps_finishUnlockWithJson E _ _).unlocking fun resp =>
        h.afterUnlock pin resp

theorem handleUnlockPin (h : UnlockRules E cfg P) (pin : String) : P _ (handleUnlockPin E cfg pin) := by
  refine h.bind (unlocking_op rfl) fun _ => ite (h.ret _) <|
    h.bind pinSteps_pinLockoutRemaining.routine.unlocking fun wait => ?_
  cases wait with
  | some wait => exact h.ret _
  | none =>
    refine h.andThen (h.unlockPinBlock pin) fun resp =>
      .bind (pinSteps_recordPinAttempt _).routine.closing fun delay => .ite ?_ trivial
    exact .bind (closing_op rfl) fun _ => trivial

theorem handleRuntimeEvent (h : UnlockRules E cfg P) (ev : RuntimeEvent) :
    P _ (handleRuntimeEvent E cfg ev) := by
  cases ev with
  | autoUnlockedPin pin =>
    have hrestore := h.andThen (f := fun _ => pure ()) (h.restore pin) fun _ => trivial
    rwa [Prog.bind_assoc] at hrestore
  | autoUnlockedNative => exact h.andThen h.resolve fun _ => trivial

end UnlockRules

theorem Requesting.unlocking {α : Type} {p : DProg α} (h : Requesting p) : Unlocking p :=
  h.mono fun o ho => by cases o <;> first | rfl | exact absurd ho Bool.false_ne_true

theorem unlocking_handleUiRequest (E : Crates) (cfg : Config) (request : SshAgentUIRequest) :
    Unlocking (handleUiRequest E cfg request) :=
  (requesting_handleUiRequest E cfg request).unlocking

end SshWarden
