import SshWarden.PinAgreement
import SshWarden.Scenario
import Mathlib.Data.List.Induction

/-!
# What a failed unlock leaves behind

An unlock opens the Local Cache Key, decrypts the payload, parses it and hands the keys to the agent. The
Local Cache Key, the names and the keys are written on the way, and nothing is taken back where a later
step fails. `failed_unlock_changes_nothing_iff` says when a failed unlock changes nothing.
-/

namespace SshWarden
open Prog

variable {E : Crates} {cfg : Config} {α β : Type}

inductive UnlockPath
  | pin (pin : String)
  | native
  | unlock
  | request (request : SshAgentUIRequest)
deriving DecidableEq, Repr

def UnlockPath.action : UnlockPath → Option ControlAction
  | .pin p => some (.unlockPin p)
  | .native => some .unlockNative
  | .unlock => some .unlock
  | .request _ => none

/-- The PIN that comes with a command. -/
def UnlockPath.entered : UnlockPath → List String
  | .pin p => [p]
  | _ => []

/-- The PIN opens the cache's PIN slot. -/
def opensSlot (E : Crates) (cache : Option LocalKeyCacheFile) (pin : String) : Bool :=
  cache.any fun c => (openPinSlot E c.localCacheKey pin).toOption.isSome

/-- What the PIN opens: the payload and the Local Cache Key. -/
def openedByPin (E : Crates) (cache : Option LocalKeyCacheFile) (pin : String) : Option (String × SymmetricKey) :=
  cache.bind fun c => pinValidator E c pin

/-- What the keyring's answer opens. -/
def openedByKeyring (E : Crates) (cache : Option LocalKeyCacheFile) (encoded : String) :
    Option (String × SymmetricKey) :=
  cache.bind fun c => (decodeSymmetricKey E encoded).toOption.bind fun key =>
    (decryptEnvelopePayload E c key).toOption

/-- What the events of an attempt say: the cache it works on, the PINs entered that have not had their turn,
those the throttle let through, what the keyring and the PINs opened, the outcomes that were recorded, and
whether the vault was unlocked. -/
structure Trial where
  cache : Option LocalKeyCacheFile
  entered : List String := []
  tried : List String := []
  opened : List (String × SymmetricKey) := []
  recorded : List Bool := []
  unlocked : Bool := false

/-- The next PIN has its turn. -/
def Trial.turn (E : Crates) (w : Trial) : Option Nat → Trial
  | some _ => { w with entered := w.entered.tail }
  | none =>
    { w with
      entered := w.entered.tail
      tried := w.tried ++ w.entered.head?.toList
      opened := w.opened ++ (w.entered.head?.bind (openedByPin E w.cache)).toList }

def Trial.after (E : Crates) (w : Trial) : Event → Trial
  | ⟨.loadLocalKeyCache, .ok (some cache)⟩ => { w with cache := some cache }
  | ⟨.nativeDecrypt _, .ok encoded⟩ =>
    { w with opened := w.opened ++ (openedByKeyring E w.cache encoded).toList }
  | ⟨.pinDialog _, pins⟩ => { w with entered := pins }
  | ⟨.checkPinLockout _, wait⟩ => w.turn E wait
  | ⟨.recordPin _ success, _⟩ => { w with recorded := w.recorded ++ [success] }
  | ⟨.storeVaultLocked false, _⟩ => { w with unlocked := true }
  | _ => w

def trial (E : Crates) (path : UnlockPath) (s : Daemon) (tr : List Event) : Trial :=
  tr.foldl (Trial.after E) { cache := s.localKeyCacheData, entered := path.entered }

/-- An attempt from `s` to its end, and whether it succeeds: a command says so, a request has unlocked the
vault. -/
inductive UnlockRun (E : Crates) (cfg : Config) (s : Daemon) :
    UnlockPath → List Event → Bool → Daemon → Prop
  | command {path : UnlockPath} {action : ControlAction} {tr : List Event} {resp : ControlResponse}
      {s' : Daemon} (hpath : path.action = some action)
      (h : Steps (machine E) (handleControlCommand E cfg action) s tr (.ret resp) s') :
      UnlockRun E cfg s path tr resp.ok s'
  | request {request : SshAgentUIRequest} {tr : List Event} {s' : Daemon}
      (h : Steps (machine E) (handleUiRequest E cfg request) s tr (.ret ()) s') :
      UnlockRun E cfg s (.request request) tr (trial E (.request request) s tr).unlocked s'

/-- The lock flag, the keys and their names, the Local Cache Key and the agent's keystore are the same. -/
structure SameUnlockState (s s' : Daemon) : Prop where
  vaultLocked : s'.vaultLocked = s.vaultLocked
  cachedKeyTuples : s'.cachedKeyTuples = s.cachedKeyTuples
  keyNames : s'.keyNames = s.keyNames
  localCacheKeyState : s'.localCacheKeyState = s.localCacheKeyState
  keystore : s'.agent.keystore = s.agent.keystore

/-- The attempt has changed none of the secrets, and has recorded a failure for each PIN that did not open
the cache's PIN slot and for no other. -/
structure LeavesAlone (E : Crates) (s s' : Daemon) (w : Trial) : Prop where
  secrets : SameUnlockState s s'
  recorded : w.recorded = w.tried.map (opensSlot E w.cache)

/-- The counter of PIN failures after an outcome. -/
def countOutcome (failures : Nat) (success : Bool) : Nat := if success then 0 else saturatingSucc failures

/-- The counter of PIN failures says the same. -/
structure ChangesNothing (E : Crates) (s s' : Daemon) (w : Trial) : Prop extends LeavesAlone E s s' w where
  counted : s'.pinFailures.consecutiveFailures =
    (w.tried.map (opensSlot E w.cache)).foldl countOutcome s.pinFailures.consecutiveFailures

/-- The keys in what was opened, as far as it parses. -/
def parsedKeys (E : Crates) (opened : List (String × SymmetricKey)) : List (List KeyTuple) :=
  opened.filterMap fun o => (E.keysFromJson o.1).toOption

theorem parsedKeys_append (opened opened' : List (String × SymmetricKey)) :
    parsedKeys E (opened ++ opened') = parsedKeys E opened ++ parsedKeys E opened' := List.filterMap_append ..

/-- Something that was opened parses, and the agent is there to take the keys. -/
def WorksOut (E : Crates) (s : Daemon) (w : Trial) : Prop :=
  s.agent.isRunning = true ∧ parsedKeys E w.opened ≠ []

/-- A right PIN that `unlock --pin` is given is a success only together with the rest, one that a dialog is
given when it opens the payload. -/
def countsAsOpened (E : Crates) (path : UnlockPath) (w : Trial) (pin : String) : Prop :=
  path.entered = [] ∧ (openedByPin E w.cache pin).isSome = true

/-- The attempt works out, or it brings nothing new: the keys parsed last are those in memory already; for a
command, so is the key opened last; and every tried PIN that opens the slot counts. -/
def NothingNew (E : Crates) (path : UnlockPath) (s : Daemon) (w : Trial) : Prop :=
  WorksOut E s w ∨
  (path.action.isSome = true → ∀ o ∈ w.opened.getLast?, s.localCacheKeyState = some o.2) ∧
    (∀ keys ∈ (parsedKeys E w.opened).getLast?, s.keyNames = keyNamesOf keys ∧ s.cachedKeyTuples = keys) ∧
    ∀ pin ∈ w.tried, opensSlot E w.cache pin = true → countsAsOpened E path w pin

variable {s t : Daemon} {w w' : Trial} {x x₀ : Daemon × Trial}

/-- The daemon with the attempt so far next to it. -/
abbrev trialMachine (E : Crates) : Machine daemonSig (Daemon × Trial) := (machine E).track (Trial.after E)

/-- The vault is that of `t`, and this is the attempt so far. -/
structure TrialAt (t : Daemon) (w : Trial) (x : Daemon × Trial) : Prop where
  view : x.1.vaultView = t.vaultView
  trial : x.2 = w

/-- Operations that leave the vault alone and say nothing about the attempt. -/
def Op.isIncidental : Op → Bool
  | loadLocalKeyCache | nativeDecrypt _ | pinDialog _ | checkPinLockout _ | recordPin _ _ => false
  | o => !o.touchesVault

theorem Op.touchesVault_of_isIncidental {o : Op} (h : o.isIncidental = true) : o.touchesVault = false := by
  cases o <;> first | rfl | exact absurd h Bool.false_ne_true

theorem Trial.after_of_isIncidental {o : Op} (h : o.isIncidental = true) (w : Trial) (a : o.Ans) :
    w.after E ⟨o, a⟩ = w := by
  cases o <;> first | rfl | exact absurd h Bool.false_ne_true

namespace TrialAt

theorem start (s : Daemon) (w : Trial) : TrialAt s w (s, w) := ⟨rfl, rfl⟩

theorem next (h : TrialAt t w x) (o : Op) (a : o.Ans) :
    TrialAt (SshWarden.next E o t a) (w.after E ⟨o, a⟩) ((trialMachine E).next o x a) where
  view := by
    have hx := vaultView_next E o x.1 a
    exact hx.trans (by rw [h.view, vaultView_next])
  trial := congrArg (Trial.after E · ⟨o, a⟩) h.trial

theorem of_view (h : TrialAt t w x) (t' : Daemon) (ht : t.vaultView = t'.vaultView) : TrialAt t' w x :=
  ⟨h.view.trans ht, h.trial⟩

theorem memory (h : TrialAt t w x) : x.1.localKeyCacheData = t.localKeyCacheData :=
  congrArg (·.localKeyCacheData) h.view

theorem locked (h : TrialAt t w x) : x.1.vaultLocked = t.vaultLocked := congrArg (·.vaultLocked) h.view

theorem agent (h : TrialAt t w x) : x.1.agent = t.agent := congrArg (·.agent) h.view

end TrialAt

theorem wp_trial {o : Op} {f : o.Ans → DProg β} {Q : β → Daemon × Trial → Prop} (hx : TrialAt t w x)
    (hf : ∀ a x', ready E o x.1 a → TrialAt (next E o t a) (w.after E ⟨o, a⟩) x' →
      wp (trialMachine E) (fun _ _ => True) (f a) Q x') :
    wp (trialMachine E) (fun _ _ => True) (op o >>= f) Q x :=
  wp_perform_bind.2 ⟨trivial, fun a ha => hf a _ ha (hx.next o a)⟩

theorem wp_incidental {o : Op} {f : o.Ans → DProg β} {Q : β → Daemon × Trial → Prop}
    (ho : o.isIncidental = true) (hx : TrialAt t w x) (hf : ∀ a x', ready E o x.1 a → TrialAt t w x' →
      wp (trialMachine E) (fun _ _ => True) (f a) Q x') :
    wp (trialMachine E) (fun _ _ => True) (op o >>= f) Q x := by
  refine wp_trial hx fun a x' ha hx' => hf a x' ha ?_
  rw [Trial.after_of_isIncidental ho] at hx'
  exact hx'.of_view t (vaultView_next_of_not_touches (Op.touchesVault_of_isIncidental ho) t a)

/-- What was opened and unlocked stays so. -/
theorem wp_worksOut (p : DProg α) (h : WorksOut E s x.2) :
    wp (trialMachine E) (fun _ _ => True) p (fun _ x' => WorksOut E s x'.2) x := by
  refine wp.of_keeps (I := fun x : Daemon × Trial => WorksOut E s x.2) (fun o x a hx _ => ?_) p h
  refine ⟨hx.1, fun hnil => hx.2 ?_⟩
  obtain ⟨more, hmore⟩ : ∃ more, (x.2.after E ⟨o, a⟩).opened = x.2.opened ++ more := by
    unfold Trial.after
    split
    all_goals first
      | exact ⟨[], (List.append_nil _).symm⟩
      | exact ⟨_, rfl⟩
      | skip
    unfold Trial.turn
    split
    · exact ⟨[], (List.append_nil _).symm⟩
    · exact ⟨_, rfl⟩
  have hopened : parsedKeys E ((trialMachine E).next o x a).2.opened =
      parsedKeys E x.2.opened ++ parsedKeys E more := by
    rw [← parsedKeys_append]
    exact congrArg (parsedKeys E) hmore
  rw [hopened] at hnil
  exact (List.append_eq_nil_iff.1 hnil).1

variable {c : LocalKeyCacheFile}

theorem wp_currentNativeUnlockSlot (hx : TrialAt t w x) (c : LocalKeyCacheFile) :
    wp (trialMachine E) (fun _ _ => True) (currentNativeUnlockSlot cfg c) (fun _ => TrialAt t w) x := by
  refine wp_bind .. |>.2 (wp_incidental rfl hx fun slots x₁ _ hx₁ => ?_)
  cases slots with
  | error e => exact (wp_ite ..).2 ⟨fun _ => hx₁, fun _ => hx₁⟩
  | ok slots => exact (wp_ite ..).2 ⟨fun _ => hx₁, fun _ => hx₁⟩

/-- The attempt after something was opened, or not. -/
def Trial.withOpened (w : Trial) (o : Option (String × SymmetricKey)) : Trial :=
  { w with opened := w.opened ++ o.toList }

theorem Trial.withOpened_none (w : Trial) : w.withOpened none = w := by
  rw [Trial.withOpened, Option.toList_none, List.append_nil]

theorem wp_decryptWithNative_trial (hx : TrialAt t w x) (hw : w.cache = some c) :
    wp (trialMachine E) (fun _ _ => True) (decryptEnvelopeLocalKeyCacheWithNative E cfg c)
      (fun r => TrialAt t (w.withOpened r.toOption)) x := by
  have hnone : ∀ {x' e}, TrialAt t w x' →
      TrialAt t (w.withOpened (Except.error e : Except String _).toOption) x' :=
    fun hx' => (Trial.withOpened_none w).symm ▸ hx'
  refine wp_bind .. |>.2 ((wp_currentNativeUnlockSlot hx c).post fun slot x₁ hx₁ => ?_)
  cases slot with
  | none => exact hnone hx₁
  | some slot =>
    refine wp_trial hx₁ fun r x₂ _ hx₂ => ?_
    cases r with
    | error e => exact hnone hx₂
    | ok encoded =>
      have hopened : w.after E ⟨.nativeDecrypt slot, .ok encoded⟩ =
          w.withOpened (openedByKeyring E (some c) encoded) := by
        rw [← hw]
        rfl
      rw [hopened] at hx₂
      dsimp only
      cases hkey : decodeSymmetricKey E encoded with
      | error e =>
        have hno : openedByKeyring E (some c) encoded = none := by simp [openedByKeyring, hkey, Except.toOption]
        rw [hno] at hx₂
        exact hx₂
      | ok key =>
        have hyes : openedByKeyring E (some c) encoded = (decryptEnvelopePayload E c key).toOption := by
          simp [openedByKeyring, hkey, Except.toOption]
        rw [hyes] at hx₂
        exact hx₂

/-- The attempt after these PINs were tried; the last of them may have opened the cache. -/
def Trial.withPins (E : Crates) (w : Trial) (entered pins : List String)
    (o : Option (String × SymmetricKey)) : Trial where
  cache := w.cache
  entered := entered
  tried := w.tried ++ pins
  opened := w.opened ++ o.toList
  recorded := w.recorded ++ pins.map fun pin => (openedByPin E w.cache pin).isSome
  unlocked := w.unlocked

theorem Trial.withPins_withPins (w : Trial) (entered entered' pins pins' : List String)
    (o : Option (String × SymmetricKey)) :
    (w.withPins E entered pins none).withPins E entered' pins' o = w.withPins E entered' (pins ++ pins') o := by
  simp [withPins]

/-- A turn in which the PIN is looked at, with its outcome recorded. -/
theorem Trial.turn_none (w : Trial) (pin : String) (rest : List String) (now delay : Nat) :
    ((w.withPins E (pin :: rest) [] none).turn E none).after E
        ⟨.recordPin now (openedByPin E w.cache pin).isSome, delay⟩ =
      w.withPins E rest [pin] (openedByPin E w.cache pin) := by
  simp [after, turn, withPins]

theorem wp_validateSubmitted_trial (pins : List String) (hx : TrialAt t (w.withPins E pins [] none) x)
    (hw : w.cache = some c) :
    wp (trialMachine E) (fun _ _ => True) (validateSubmitted (pinValidator E c) pins)
      (fun r x' => ∃ rest tried, TrialAt t (w.withPins E rest tried (r.map Prod.snd)) x') x := by
  induction pins generalizing w x with
  | nil => exact ⟨[], [], hx⟩
  | cons pin rest ih =>
    refine wp_bind .. |>.2 (wp_bind .. |>.2 (wp_bind .. |>.2 (wp_incidental rfl hx fun now x₁ _ hx₁ => ?_)))
    refine ⟨trivial, fun wait _ => ?_⟩
    have hx₂ := (hx₁.next (E := E) (.checkPinLockout now) wait).of_view t rfl
    cases wait with
    | some wait => exact ih hx₂ hw
    | none =>
      have hopened : openedByPin E w.cache pin = pinValidator E c pin := by rw [hw]; rfl
      refine wp_bind .. |>.2 (wp_bind .. |>.2 (wp_incidental rfl hx₂ fun now x₃ _ hx₃ => ?_))
      refine ⟨trivial, fun delay _ => ?_⟩
      have hx₄ := (hx₃.next (E := E) (.recordPin now (pinValidator E c pin).isSome) delay).of_view t rfl
      rw [← hopened] at hx₄
      have hx₅ : TrialAt t (w.withPins E rest [pin] (openedByPin E w.cache pin)) _ :=
        Trial.turn_none (E := E) w pin rest now delay ▸ hx₄
      cases hvalid : pinValidator E c pin with
      | some o =>
        rw [hopened, hvalid] at hx₅
        exact ⟨rest, [pin], hx₅⟩
      | none =>
        rw [hopened, hvalid] at hx₅
        have hrest : TrialAt t ((w.withPins E [] [pin] none).withPins E rest [] none) _ :=
          Trial.withPins_withPins w [] rest [pin] [] none ▸ hx₅
        refine (ih hrest hw).post fun r x' h => ?_
        obtain ⟨rest', tried, hx'⟩ := h
        exact ⟨rest', pin :: tried, Trial.withPins_withPins w [] rest' [pin] tried _ ▸ hx'⟩

/-- A dialog that has come to an end. -/
theorem wp_requestPinDialog_trial (context : Option UnlockRequestContext) (hx : TrialAt t w x)
    (hw : w.cache = some c) :
    wp (trialMachine E) (fun _ _ => True) (requestPinDialog context (pinValidator E c))
      (fun r x' => ∃ rest tried, TrialAt t (w.withPins E rest tried (r.map Prod.snd)) x') x := by
  refine wp_bind .. |>.2 ⟨trivial, fun pins _ => wp_validateSubmitted_trial pins ?_ hw⟩
  have hpins : w.after E ⟨.pinDialog context, pins⟩ = w.withPins E pins [] none := by
    simp [Trial.after, Trial.withPins]
  exact hpins ▸ hx.next (E := E) (.pinDialog context) pins

variable {command : Bool} {o : String × SymmetricKey} {json : String} {key : SymmetricKey}

/-- The keys are in memory although the agent has not taken them. -/
def parsedInto (E : Crates) (json : String) (t : Daemon) : Daemon :=
  match E.keysFromJson json with
  | .error _ => t
  | .ok keys => { t with keyNames := keyNamesOf keys, cachedKeyTuples := keys }

/-- What a failed attempt leaves behind of what it opened; only a command writes the Local Cache Key first. -/
def leftBehind (E : Crates) (command : Bool) (t : Daemon) (o : String × SymmetricKey) : Daemon :=
  parsedInto E o.1 (if command then { t with localCacheKeyState := some o.2 } else t)

/-- Only the Local Cache Key, the names and the keys are written. -/
theorem foldl_leftBehind_others (E : Crates) (command : Bool) (opened : List (String × SymmetricKey))
    (s : Daemon) :
    (opened.foldl (leftBehind E command) s).agent = s.agent ∧
      (opened.foldl (leftBehind E command) s).localKeyCacheData = s.localKeyCacheData ∧
      (opened.foldl (leftBehind E command) s).vaultLocked = s.vaultLocked := by
  induction opened generalizing s with
  | nil => exact ⟨rfl, rfl, rfl⟩
  | cons o opened ih =>
    have hstep : (leftBehind E command s o).agent = s.agent ∧
        (leftBehind E command s o).localKeyCacheData = s.localKeyCacheData ∧
        (leftBehind E command s o).vaultLocked = s.vaultLocked := by
      unfold leftBehind parsedInto
      split <;> cases command <;> exact ⟨rfl, rfl, rfl⟩
    obtain ⟨hagent, hmemory, hlocked⟩ := ih (leftBehind E command s o)
    exact ⟨hagent.trans hstep.1, hmemory.trans hstep.2.1, hlocked.trans hstep.2.2⟩

/-- The attempt so far has not worked out, and this is what it leaves behind. -/
structure FailsSo (E : Crates) (command : Bool) (s : Daemon) (w : Trial) (x : Daemon × Trial) : Prop where
  left : TrialAt (w.opened.foldl (leftBehind E command) s) w x
  fails : ¬WorksOut E s w

theorem worksOut_append (hrun : s.agent.isRunning = true) {keys : List KeyTuple}
    (hkeys : E.keysFromJson o.1 = .ok keys) (hw : w'.opened = w.opened ++ [o]) : WorksOut E s w' := by
  refine ⟨hrun, fun hnil => ?_⟩
  rw [hw, parsedKeys_append] at hnil
  have hlast : parsedKeys E [o] = [keys] := by simp [parsedKeys, hkeys, Except.toOption]
  rw [hlast] at hnil
  exact absurd (List.append_eq_nil_iff.1 hnil).2 (List.cons_ne_nil _ _)

theorem not_worksOut_append (h : ¬WorksOut E s w)
    (ho : s.agent.isRunning = true → ∀ keys, E.keysFromJson o.1 ≠ .ok keys)
    (hw : w'.opened = w.opened ++ [o]) : ¬WorksOut E s w' := by
  rintro ⟨hrun, hne⟩
  have hlast : parsedKeys E [o] = [] := by
    cases hkeys : E.keysFromJson o.1 with
    | ok keys => exact absurd hkeys (ho hrun keys)
    | error e => simp [parsedKeys, hkeys, Except.toOption]
  rw [hw, parsedKeys_append, hlast, List.append_nil] at hne
  exact h ⟨hrun, hne⟩

theorem wp_finishUnlockWithJson_trial (hx : TrialAt t w x) (msg : String) :
    wp (trialMachine E) (fun _ _ => True) (finishUnlockWithJson E json msg) (fun resp x' =>
      (resp.ok = true ∧ t.agent.isRunning = true ∧ (∃ keys, E.keysFromJson json = .ok keys) ∧
        x'.2.opened = w.opened) ∨
      (resp.ok = false ∧ (t.agent.isRunning = true → ∀ keys, E.keysFromJson json ≠ .ok keys) ∧
        TrialAt (parsedInto E json t) w x')) x := by
  unfold finishUnlockWithJson
  split
  · rename_i e he
    refine .inr ⟨rfl, fun _ keys h => (nomatch he.symm.trans h), ?_⟩
    rw [parsedInto, he]
    exact hx
  · rename_i keys hkeys
    refine wp_trial hx fun _ x₁ _ hx₁ => wp_trial hx₁ fun _ x₂ _ hx₂ => ?_
    refine wp_trial hx₂ fun taken x₃ htaken hx₃ => ?_
    have hrunning : taken = t.agent.isRunning := htaken.trans (congrArg Agent.isRunning hx₂.agent)
    refine (wp_ite ..).2 ⟨fun htrue => ?_, fun hfalse => ?_⟩
    · refine wp_trial hx₃ fun _ x₄ _ hx₄ => .inl ⟨rfl, hrunning.symm.trans htrue, ⟨keys, hkeys⟩, ?_⟩
      rw [hx₄.trial]
      rfl
    · have hno : t.agent.isRunning = false := hrunning.symm.trans (Bool.eq_false_iff.2 hfalse)
      refine .inr ⟨rfl, fun hyes => absurd (hno.symm.trans hyes) Bool.false_ne_true, ?_⟩
      rw [parsedInto, hkeys]
      exact hx₃.of_view _ (by simp [next, Agent.setKeys, hno, Daemon.vaultView])

/-! ### The paths -/

/-- A command that hands over what it opened, from where an attempt has failed so far. -/
theorem wp_command_trial (w' : Trial) (hfails : ¬WorksOut E s w)
    (hx : TrialAt (w.opened.foldl (leftBehind E true) s) w' x) (hw : w'.opened = w.opened ++ [(json, key)])
    (msg : String) :
    wp (trialMachine E) (fun _ _ => True) (do
        op (.writeLocalCacheKey (some key))
        finishUnlockWithJson E json msg) (fun resp x' =>
      (resp.ok = true ∧ WorksOut E s x'.2) ∨ (resp.ok = false ∧ FailsSo E true s w' x')) x := by
  refine wp_trial hx fun _ x₁ _ hx₁ => ?_
  refine (wp_finishUnlockWithJson_trial hx₁ msg).post fun resp x' h => ?_
  have hagent : ((w.opened.foldl (leftBehind E true) s).agent.isRunning = s.agent.isRunning) :=
    congrArg Agent.isRunning (foldl_leftBehind_others E _ w.opened s).1
  rcases h with ⟨hok, hrun, ⟨keys, hkeys⟩, hopened⟩ | ⟨hok, hno, hx'⟩
  · have hrun : s.agent.isRunning = true := hagent.symm.trans hrun
    exact .inl ⟨hok, worksOut_append (o := (json, key)) hrun hkeys (hopened.trans hw)⟩
  · have hstill := not_worksOut_append (o := (json, key)) hfails (fun hrun => hno (hagent.trans hrun)) hw
    refine .inr ⟨hok, ?_, hstill⟩
    rw [hw, List.foldl_append]
    exact hx'

/-- The recorded outcomes say which of the tried PINs opened the cache. -/
def CountsOpened (E : Crates) (w : Trial) : Prop :=
  w.recorded = w.tried.map fun pin => (openedByPin E w.cache pin).isSome

theorem CountsOpened.withPins (h : CountsOpened E w) (entered pins : List String)
    (o : Option (String × SymmetricKey)) : CountsOpened E (w.withPins E entered pins o) := by
  have hrecorded : w.recorded = w.tried.map fun pin => (openedByPin E w.cache pin).isSome := h
  simp [CountsOpened, Trial.withPins, hrecorded]

/-- A failed attempt: what it has left behind so far and counted. -/
structure FailedAt (E : Crates) (command : Bool) (s : Daemon) (w : Trial) (x : Daemon × Trial) : Prop
    extends FailsSo E command s w x where
  counts : CountsOpened E w
  locked : w.unlocked = false

theorem FailedAt.start (hx : TrialAt s w x) (ho : w.opened = []) (ht : w.tried = [])
    (hr : w.recorded = []) (hl : w.unlocked = false) : FailedAt E command s w x where
  left := by rw [ho]; exact hx
  fails h := h.2 (by rw [ho]; rfl)
  counts := by rw [CountsOpened, ht, hr]; rfl
  locked := hl

theorem wp_finishNativeUnlockResponse_trial (hf : FailedAt E true s w x) (hw : w.cache = some c)
    (msg : String) :
    wp (trialMachine E) (fun _ _ => True) (finishNativeUnlockResponse E cfg c msg) (fun resp x' =>
      (resp.ok = true ∧ WorksOut E s x'.2) ∨
      (resp.ok = false ∧ ∃ o, FailedAt E true s (w.withOpened o) x')) x := by
  refine wp_bind .. |>.2 ((wp_decryptWithNative_trial hf.left hw).post fun r x₁ hx₁ => ?_)
  cases r with
  | error e =>
    refine .inr ⟨rfl, none, ?_⟩
    have hsame : TrialAt _ (w.withOpened none) x₁ := hx₁
    rw [Trial.withOpened_none] at hsame ⊢
    exact ⟨⟨hsame, hf.fails⟩, hf.counts, hf.locked⟩
  | ok opened =>
    obtain ⟨json, key⟩ := opened
    have hend := wp_command_trial (w.withOpened (some (json, key))) hf.fails hx₁ rfl msg
    exact hend.post fun resp x' h => h.imp_right fun h => ⟨h.1, some (json, key), h.2, hf.counts, hf.locked⟩

/-- How a command ends: it unlocks the vault, which may have been unlocked already, or it fails. -/
def CommandEnds (E : Crates) (s : Daemon) (resp : ControlResponse) (x : Daemon × Trial) : Prop :=
  (resp.ok = true ∧ (WorksOut E s x.2 ∨ x.2.opened = [] ∧ x.2.tried = [])) ∨
    (resp.ok = false ∧ FailedAt E true s x.2 x)

theorem FailedAt.of_trialAt (hf : FailedAt E command s w x) {x' : Daemon × Trial}
    (hx : TrialAt (w.opened.foldl (leftBehind E command) s) w x') : FailedAt E command s w x' :=
  ⟨⟨hx, hf.fails⟩, hf.counts, hf.locked⟩

theorem FailedAt.own (hf : FailedAt E command s w x) : FailedAt E command s x.2 x :=
  hf.left.trial.symm ▸ hf

/-- What a dialog leaves when it was not answered with a right PIN. -/
theorem FailedAt.withPins (hf : FailedAt E command s w x) {entered pins : List String} {x' : Daemon × Trial}
    (hx : TrialAt (w.opened.foldl (leftBehind E command) s) (w.withPins E entered pins none) x') :
    FailedAt E command s (w.withPins E entered pins none) x' := by
  have hopened : (w.withPins E entered pins none).opened = w.opened := List.append_nil _
  refine ⟨⟨hopened.symm ▸ hx, fun h => hf.fails ?_⟩, hf.counts.withPins _ _ _, hf.locked⟩
  exact ⟨h.1, hopened ▸ h.2⟩

theorem wp_ends {p : DProg α} {resp : ControlResponse} (h : WorksOut E s x.2) (hok : resp.ok = true) :
    wp (trialMachine E) (fun _ _ => True) (p >>= fun _ => pure resp) (CommandEnds E s) x :=
  wp_bind .. |>.2 ((wp_worksOut p h).post fun _ _ hx' => .inl ⟨hok, .inl hx'⟩)

theorem wp_handleUnlockDialog_trial (hf : FailedAt E true s w x) (hw : w.cache = s.localKeyCacheData) :
    wp (trialMachine E) (fun _ _ => True) (handleUnlockDialog E cfg) (CommandEnds E s) x := by
  refine (wp_ite ..).2 ⟨fun _ => ?_, fun _ => .inr ⟨rfl, hf.own⟩⟩
  refine wp_incidental rfl hf.left fun memory x₁ hmemory hx₁ => ?_
  have hf₁ := hf.of_trialAt hx₁
  have hcache : memory = w.cache :=
    (hmemory.trans hf.left.memory).trans ((foldl_leftBehind_others E _ w.opened s).2.1.trans hw.symm)
  dsimp only
  split
  · exact .inr ⟨rfl, hf₁.own⟩
  · rename_i c hc
    have hc : w.cache = some c := hcache.symm.trans (Option.filter_eq_some_iff.1 hc).1
    refine wp_bind .. |>.2 ((wp_requestPinDialog_trial none hf₁.left hc).post fun r x₂ h => ?_)
    obtain ⟨rest, tried, hx₂⟩ := h
    cases r with
    | none => exact .inr ⟨rfl, (hf₁.withPins hx₂).own⟩
    | some opened =>
      obtain ⟨pin, json, key⟩ := opened
      have hend := wp_command_trial (w.withPins E rest tried (some (json, key))) hf.fails hx₂ rfl
        "Vault unlocked via PIN dialog"
      refine wp_bind (do op (.writeLocalCacheKey (some key)); finishUnlockWithJson E json _) _ _ |>.2
        (hend.post fun resp x₃ h => (wp_ite ..).2 ⟨fun hok => ?_, fun hno => ?_⟩)
      · rcases h with ⟨-, hout⟩ | ⟨hno, -⟩
        · exact wp_bind .. |>.2 ((wp_worksOut _ hout).post fun _ _ hout => wp_ends hout hok)
        · exact absurd (hno.symm.trans hok) Bool.false_ne_true
      · rcases h with ⟨hok, -⟩ | ⟨hno, hx₃⟩
        · exact absurd hok hno
        · exact .inr ⟨hno, FailedAt.own ⟨hx₃, hf.counts.withPins _ _ _, hf.locked⟩⟩

/-- The vault may be unlocked already. -/
theorem wp_ifLocked_trial {p : DProg ControlResponse} (hx : TrialAt s w x) (ho : w.opened = [])
    (ht : w.tried = []) (h : ∀ x', TrialAt s w x' → wp (trialMachine E) (fun _ _ => True) p (CommandEnds E s) x') :
    wp (trialMachine E) (fun _ _ => True) (do
      if !(← op .loadVaultLocked) then return .success "Vault is already unlocked"
      else p) (CommandEnds E s) x := by
  refine wp_incidental rfl hx fun locked x₁ _ hx₁ => (wp_ite ..).2 ⟨fun _ => ?_, fun _ => h x₁ hx₁⟩
  refine .inl ⟨rfl, .inr ?_⟩
  rw [hx₁.trial]
  exact ⟨ho, ht⟩

theorem wp_handleUnlockNative_trial (hf : FailedAt E true s w x) (ho : w.opened = []) (ht : w.tried = [])
    (hw : w.cache = s.localKeyCacheData) :
    wp (trialMachine E) (fun _ _ => True) (handleUnlockNative E cfg) (CommandEnds E s) x := by
  have hx : TrialAt s w x := by simpa [ho] using hf.left
  refine wp_ifLocked_trial hx ho ht fun x₁ hx₁ => wp_incidental rfl hx₁ fun memory x₂ hmemory hx₂ => ?_
  have hf₂ : FailedAt E true s w x₂ := hf.of_trialAt (by simpa [ho] using hx₂)
  have hcache : w.cache = memory := hw.trans (hx₁.memory.symm.trans hmemory.symm)
  cases memory with
  | none => exact .inr ⟨rfl, hf₂.own⟩
  | some c =>
    refine wp_bind .. |>.2 ((wp_finishNativeUnlockResponse_trial hf₂ hcache _).post fun resp x₃ h => ?_)
    refine (wp_ite ..).2 ⟨fun hok => ?_, fun hno => ?_⟩
    · rcases h with ⟨-, hout⟩ | ⟨hno, -⟩
      · exact wp_ends hout hok
      · exact absurd (hno.symm.trans hok) Bool.false_ne_true
    · rcases h with ⟨hok, -⟩ | ⟨hno, o, hf₃⟩
      · exact absurd hok hno
      · exact .inr ⟨hno, hf₃.own⟩

theorem wp_handleUnlock_trial (hf : FailedAt E true s w x) (ho : w.opened = []) (ht : w.tried = [])
    (hw : w.cache = s.localKeyCacheData) :
    wp (trialMachine E) (fun _ _ => True) (handleUnlock E cfg) (CommandEnds E s) x := by
  have hx : TrialAt s w x := by simpa [ho] using hf.left
  refine wp_ifLocked_trial hx ho ht fun x₁ hx₁ => wp_incidental rfl hx₁ fun _ x₂ _ hx₂ =>
    wp_incidental rfl hx₂ fun memory x₃ hmemory hx₃ => ?_
  have hf₃ : FailedAt E true s w x₃ := hf.of_trialAt (by simpa [ho] using hx₃)
  have hcache : w.cache = memory := hw.trans (hx₂.memory.symm.trans hmemory.symm)
  have hdialog : ∀ {w' x'}, w'.cache = w.cache → FailedAt E true s w' x' →
      wp (trialMachine E) (fun _ _ => True) (do op (.release .localKeyCacheData); handleUnlockDialog E cfg)
        (CommandEnds E s) x' := fun hw' hf' =>
    wp_incidental rfl hf'.left fun _ x'' _ hx'' => wp_handleUnlockDialog_trial (hf'.of_trialAt hx'') (hw'.trans hw)
  cases memory with
  | none => exact hdialog rfl hf₃
  | some c =>
    refine wp_bind .. |>.2 ((wp_finishNativeUnlockResponse_trial hf₃ hcache _).post fun resp x₄ h => ?_)
    refine (wp_ite ..).2 ⟨fun hok => ?_, fun hno => ?_⟩
    · rcases h with ⟨-, hout⟩ | ⟨hno, -⟩
      · exact wp_bind .. |>.2 ((wp_worksOut _ hout).post fun _ _ hout => wp_ends hout hok)
      · exact absurd (hno.symm.trans hok) Bool.false_ne_true
    · rcases h with ⟨hok, -⟩ | ⟨hno, o, hf₄⟩
      · exact absurd hok hno
      · exact hdialog (show (w.withOpened o).cache = w.cache from rfl) hf₄

/-- Incidental operations and writes of the cache and of the device's slots. -/
def Op.isSlotwork : Op → Bool
  | writeLocalKeyCache _ | saveLocalKeyCache _ | saveUnlockSlots _ => true
  | o => o.isIncidental

abbrev Slotwork {α : Type} (p : DProg α) : Prop :=
  Prog.Only (S := daemonSig) (fun o : Op => o.isSlotwork = true) p

theorem SlotSteps.slotwork {p : DProg α} (h : SlotSteps p) : Slotwork p :=
  h.mono fun o ho => by cases o <;> first | rfl | exact absurd ho Bool.false_ne_true

theorem PinSlotSteps.slotwork {p : DProg α} (h : PinSlotSteps p) : Slotwork p :=
  h.mono fun o ho => by cases o <;> first | rfl | exact absurd ho Bool.false_ne_true

/-- Nothing that an unlock is about has changed since `s`, and this is the attempt so far. -/
structure Alike (s : Daemon) (w : Trial) (x : Daemon × Trial) : Prop where
  state : SameUnlockState s x.1
  isRunning : x.1.agent.isRunning = s.agent.isRunning
  trial : x.2 = w

theorem Alike.next (h : Alike s w x) {o : Op} (ho : o.isSlotwork = true) (a : o.Ans) :
    Alike s w ((trialMachine E).next o x a) := by
  obtain ⟨⟨hlocked, hkeys, hnames, hkey, hstore⟩, hrun, hw⟩ := h
  cases o <;> first
    | exact absurd ho Bool.false_ne_true
    | exact ⟨⟨hlocked, hkeys, hnames, hkey, hstore⟩, hrun, hw⟩
    | (cases a <;> exact ⟨⟨hlocked, hkeys, hnames, hkey, hstore⟩, hrun, hw⟩)

theorem Slotwork.wp_alike {p : DProg α} (h : Slotwork p) (hx : Alike s w x) :
    wp (trialMachine E) (fun _ _ => True) p (fun _ => Alike s w) x :=
  (Only.wp (I := Alike s w) h (fun _ _ a ho hx _ => hx.next ho a) hx).mono (fun _ _ _ => trivial) fun _ _ h => h

theorem SameUnlockState.refl (s : Daemon) : SameUnlockState s s := ⟨rfl, rfl, rfl, rfl, rfl⟩

theorem SameUnlockState.trans {s' s'' : Daemon} (h : SameUnlockState s s') (h' : SameUnlockState s' s'') :
    SameUnlockState s s'' :=
  ⟨h'.vaultLocked.trans h.vaultLocked, h'.cachedKeyTuples.trans h.cachedKeyTuples, h'.keyNames.trans h.keyNames,
    h'.localCacheKeyState.trans h.localCacheKeyState, h'.keystore.trans h.keystore⟩

theorem SameUnlockState.of_vaultView {s' : Daemon} (h : s'.vaultView = s.vaultView) : SameUnlockState s s' where
  vaultLocked := congrArg (·.vaultLocked) h
  cachedKeyTuples := congrArg (·.cachedKeyTuples) h
  keyNames := congrArg (·.keyNames) h
  localCacheKeyState := congrArg (·.localCacheKeyState) h
  keystore := congrArg (·.agent.keystore) h

theorem TrialAt.alike (h : TrialAt t w x) : Alike t w x :=
  ⟨.of_vaultView h.view, congrArg Agent.isRunning h.agent, h.trial⟩

/-- A PIN that opens the payload opens the slot. -/
theorem opensSlot_of_openedByPin {cache : Option LocalKeyCacheFile} {pin : String}
    (h : (openedByPin E cache pin).isSome = true) : opensSlot E cache pin = true := by
  obtain ⟨opened, h⟩ := Option.isSome_iff_exists.1 h
  obtain ⟨c, rfl, hopen⟩ := Option.bind_eq_some_iff.1 h
  obtain ⟨key, hslot, -⟩ := except_bind_ok (except_eq_ok_of_toOption hopen)
  simp [opensSlot, hslot, Except.toOption]

theorem wp_unlockPinBlock_trial (cfg : Config) (pin : String) (hx : TrialAt s w x)
    (hw : w.cache = s.localKeyCacheData)
    (ho : w.opened = (openedByPin E w.cache pin).toList) :
    wp (trialMachine E) (fun _ _ => True) (unlockPinBlock E cfg pin) (fun resp x' =>
      (resp.ok = true ∧ WorksOut E s x'.2) ∨
      (resp.ok = false ∧ x'.2 = w ∧ ¬WorksOut E s w ∧
        (opensSlot E w.cache pin = false → SameUnlockState s x'.1))) x := by
  refine wp_incidental rfl hx fun memory x₁ hmemory hx₁ => ?_
  have hcache : w.cache = memory := hw.trans (hx.memory.symm.trans hmemory.symm)
  have hshut : w.opened = [] → ¬WorksOut E s w := fun hnil h => h.2 (by rw [hnil]; rfl)
  have hsame := SameUnlockState.of_vaultView hx₁.view
  cases memory with
  | none =>
    refine .inr ⟨rfl, hx₁.trial, hshut ?_, fun _ => hsame⟩
    rw [ho, hcache]
    rfl
  | some c =>
    dsimp only
    split
    · rename_i e he
      refine .inr ⟨rfl, hx₁.trial, hshut ?_, fun _ => hsame⟩
      rw [ho, hcache]
      simp [openedByPin, pinValidator, he, Except.toOption]
    · rename_i json key hopen
      have hopened : openedByPin E w.cache pin = some (json, key) := by
        rw [hcache]
        simp [openedByPin, pinValidator, hopen, Except.toOption]
      have hyes : opensSlot E w.cache pin = true := opensSlot_of_openedByPin (by rw [hopened]; rfl)
      have hmigrate := (pinSlotSteps_migratePinSlotIfNeeded E c key pin).slotwork
      have henroll := (slotSteps_enrollDevicePlatformSlotsIfMissing E cfg key).slotwork
      refine wp_bind .. |>.2 ((hmigrate.wp_alike hx₁.alike).post fun _ x₂ hx₂ => ?_)
      refine wp_bind .. |>.2 ((henroll.wp_alike hx₂).post fun _ x₃ hx₃ => ?_)
      refine wp_perform_bind.2 ⟨trivial, fun _ _ => ?_⟩
      have hx₄ : TrialAt { x₃.1 with localCacheKeyState := some key } w
          ((trialMachine E).next (.writeLocalCacheKey (some key)) x₃ ()) := ⟨rfl, hx₃.trial⟩
      refine wp_bind .. |>.2 ((wp_finishUnlockWithJson_trial hx₄ _).post fun resp x₅ h => ?_)
      have hw₀ : w.opened = [] ++ [(json, key)] := by rw [ho, hopened]; rfl
      rcases h with ⟨hok, hrun, ⟨keys, hkeys⟩, hopened₅⟩ | ⟨hno, hfails, hx₅⟩
      · have hout : WorksOut E s x₅.2 :=
          worksOut_append (w := { w with opened := [] }) (o := (json, key)) (hx₃.isRunning.symm.trans hrun) hkeys
            (hopened₅.trans hw₀)
        refine (wp_ite ..).2 ⟨fun _ => ?_, fun hno => absurd hok hno⟩
        refine wp_bind .. |>.2 ((wp_worksOut _ hout).post fun _ _ hout => wp_bind .. |>.2 ?_)
        exact (wp_worksOut _ hout).post fun _ _ hout => .inl ⟨hok, hout⟩
      · refine (wp_ite ..).2 ⟨fun hok => absurd (hno.symm.trans hok) Bool.false_ne_true, fun _ => ?_⟩
        refine .inr ⟨hno, hx₅.trial, ?_, fun hclosed => absurd (hclosed.symm.trans hyes) Bool.false_ne_true⟩
        exact not_worksOut_append (w := { w with opened := [] }) (o := (json, key)) (fun h => h.2 rfl)
          (fun hrun => hfails (hx₃.isRunning.trans hrun)) hw₀

/-- A failed `unlock --pin` has counted every PIN it tried, and has changed nothing unless one of them opens
the slot. -/
structure PinFailed (E : Crates) (s : Daemon) (x : Daemon × Trial) : Prop where
  fails : ¬WorksOut E s x.2
  recorded : x.2.recorded = x.2.tried.map fun _ => false
  kept : (∀ pin ∈ x.2.tried, opensSlot E x.2.cache pin = false) → x.2.opened = [] ∧ SameUnlockState s x.1

def PinCommandEnds (E : Crates) (s : Daemon) (resp : ControlResponse) (x : Daemon × Trial) : Prop :=
  (resp.ok = true ∧ (WorksOut E s x.2 ∨ x.2.opened = [] ∧ x.2.tried = [])) ∨ (resp.ok = false ∧ PinFailed E s x)

theorem wp_handleUnlockPin_trial {pin : String}
    (hx : TrialAt s { cache := s.localKeyCacheData, entered := [pin] } x) :
    wp (trialMachine E) (fun _ _ => True) (handleUnlockPin E cfg pin) (PinCommandEnds E s) x := by
  refine wp_incidental rfl hx fun locked x₁ _ hx₁ => (wp_ite ..).2 ⟨fun _ => ?_, fun _ => ?_⟩
  · refine .inl ⟨rfl, .inr ?_⟩
    rw [hx₁.trial]
    exact ⟨rfl, rfl⟩
  refine wp_bind .. |>.2 (wp_incidental rfl hx₁ fun now x₂ _ hx₂ => ⟨trivial, fun wait _ => ?_⟩)
  have hx₃ := (hx₂.next (E := E) (.checkPinLockout now) wait).of_view s rfl
  cases wait with
  | some wait =>
    refine .inr ⟨rfl, fun h => h.2 ?_, ?_, fun _ => ⟨?_, .of_vaultView hx₃.view⟩⟩
    all_goals rw [hx₃.trial]; rfl
  | none =>
    have hblock := wp_unlockPinBlock_trial cfg pin hx₃ rfl (List.nil_append _)
    refine wp_bind .. |>.2 (hblock.post fun resp x₄ h => wp_bind .. |>.2 (wp_bind .. |>.2 ?_))
    refine wp_perform_bind.2 ⟨trivial, fun now _ => ⟨trivial, fun delay _ => ?_⟩⟩
    have hends : PinCommandEnds E s resp ((trialMachine E).next (.recordPin now resp.ok)
        ((trialMachine E).next .now x₄ now) delay) := by
      obtain ⟨d, w'⟩ := x₄
      rcases h with ⟨hok, hout⟩ | ⟨hno, htrial, hfails, hkept⟩
      · exact .inl ⟨hok, .inl hout⟩
      · obtain rfl : w' = _ := htrial
        refine .inr ⟨hno, hfails, ?_, fun hall => ?_⟩
        · rw [hno]; rfl
        · have hclosed : opensSlot E s.localKeyCacheData pin = false := hall pin (List.mem_singleton_self pin)
          have hsame := hkept hclosed
          refine ⟨?_, hsame.vaultLocked, hsame.cachedKeyTuples, hsame.keyNames, hsame.localCacheKeyState,
            hsame.keystore⟩
          have hnone : openedByPin E s.localKeyCacheData pin = none := Option.not_isSome_iff_eq_none.1 fun h =>
            absurd (hclosed.symm.trans (opensSlot_of_openedByPin h)) Bool.false_ne_true
          exact congrArg Option.toList hnone
    refine (wp_ite ..).2 ⟨fun _ => ⟨trivial, fun _ _ => ?_⟩, fun _ => hends⟩
    refine hends.imp_right fun h => ⟨h.1, h.2.fails, h.2.recorded, fun hall => ?_⟩
    obtain ⟨hnil, hsame⟩ := h.2.kept hall
    exact ⟨hnil, hsame.vaultLocked, hsame.cachedKeyTuples, hsame.keyNames, hsame.localCacheKeyState,
      hsame.keystore⟩

/-- How an unlock on request ends. -/
def RequestEnds (E : Crates) (s : Daemon) (w : Trial) (unlocked : Bool) (x : Daemon × Trial) : Prop :=
  (unlocked = true ∧ WorksOut E s x.2 ∧ x.2.unlocked = true) ∨ (unlocked = false ∧ FailedAt E false s w x)

theorem wp_unlocked (p : DProg α) (h : x.2.unlocked = true) :
    wp (trialMachine E) (fun _ _ => True) p (fun _ x' => x'.2.unlocked = true) x := by
  refine wp.of_keeps (I := fun x : Daemon × Trial => x.2.unlocked = true) (fun o x a hx _ => ?_) p h
  show (x.2.after E ⟨o, a⟩).unlocked = true
  unfold Trial.after
  split
  all_goals first
    | exact hx
    | rfl
    | skip
  unfold Trial.turn
  split <;> exact hx

theorem wp_unlockWithDecryptedKeys_trial (request : SshAgentUIRequest) (w' : Trial) (hf : FailedAt E false s w x₀)
    (hx : TrialAt (w.opened.foldl (leftBehind E false) s) w' x) (hw : w'.opened = w.opened ++ [(json, key)])
    (hc : CountsOpened E w') (hl : w'.unlocked = false) (seed : DProg Unit) (event : RuntimeEvent) :
    wp (trialMachine E) (fun _ _ => True) (unlockWithDecryptedKeys E request json key seed event)
      (fun r x' => RequestEnds E s w' r.isSome x') x := by
  have hagent : (w.opened.foldl (leftBehind E false) s).agent.isRunning = s.agent.isRunning :=
    congrArg Agent.isRunning (foldl_leftBehind_others E _ w.opened s).1
  have hleft : w'.opened.foldl (leftBehind E false) s =
      parsedInto E json (w.opened.foldl (leftBehind E false) s) := by
    rw [hw, List.foldl_append]
    rfl
  unfold unlockWithDecryptedKeys
  split
  · rename_i e he
    refine .inr ⟨rfl, ⟨⟨?_, ?_⟩, hc, hl⟩⟩
    · rw [hleft, parsedInto, he]
      exact hx
    · exact not_worksOut_append (o := (json, key)) hf.fails (fun _ keys h => nomatch he.symm.trans h) hw
  · rename_i keys hkeys
    refine wp_bind .. |>.2 (wp_trial hx fun _ x₁ _ hx₁ => ?_)
    refine ⟨trivial, fun _ _ => ?_⟩
    have hx₂ := hx₁.next (E := E) (.writeCachedKeyTuples keys) ()
    refine wp_trial hx₂ fun taken x₃ htaken hx₃ => ?_
    have hrunning : taken = s.agent.isRunning :=
      htaken.trans ((congrArg Agent.isRunning hx₂.agent).trans hagent)
    refine (wp_ite ..).2 ⟨fun htrue => ?_, fun hfalse => ?_⟩
    · have hout : WorksOut E s x₃.2 := by
        rw [hx₃.trial]
        exact worksOut_append (o := (json, key)) (hrunning.symm.trans htrue) hkeys hw
      refine wp_bind .. |>.2 ((wp_worksOut seed hout).post fun _ x₄ hout => ?_)
      refine wp_perform_bind.2 ⟨trivial, fun _ _ => wp_perform_bind.2 ⟨trivial, fun _ _ => ?_⟩⟩
      exact wp_perform_bind.2 ⟨trivial, fun _ _ => .inl ⟨rfl, hout, rfl⟩⟩
    · have hno : s.agent.isRunning = false := hrunning.symm.trans (Bool.eq_false_iff.2 hfalse)
      refine .inr ⟨rfl, ⟨⟨?_, ?_⟩, hc, hl⟩⟩
      · rw [hleft, parsedInto, hkeys]
        refine hx₃.of_view _ ?_
        have hstopped := hagent.trans hno
        simp [next, Agent.setKeys, hstopped, Daemon.vaultView]
      · exact fun h => absurd (hno.symm.trans h.1) Bool.false_ne_true

/-- After an unlock on request the answer is all that is left. -/
theorem wp_answered {p : DProg α} (hout : WorksOut E s x.2) (hl : x.2.unlocked = true) :
    wp (trialMachine E) (fun _ _ => True) p (fun _ x' => WorksOut E s x'.2 ∧ x'.2.unlocked = true) x :=
  ((wp_worksOut p hout).and (wp_unlocked p hl)).mono (fun _ _ _ => trivial) fun _ _ h => h

theorem wp_autoUnlockNative_trial (request : SshAgentUIRequest) (hf : FailedAt E false s w x)
    (hw : w.cache = s.localKeyCacheData) :
    wp (trialMachine E) (fun _ _ => True) (autoUnlockNative E cfg request)
      (fun r x' => ∃ o, RequestEnds E s (w.withOpened o) r.isSome x') x := by
  have hfailed : ∀ {x'}, TrialAt (w.opened.foldl (leftBehind E false) s) w x' →
      RequestEnds E s (w.withOpened none) (none : Option String).isSome x' := fun hx' => by
    rw [Trial.withOpened_none]
    exact .inr ⟨rfl, hf.of_trialAt hx'⟩
  refine wp_incidental rfl hf.left fun memory x₁ hmemory hx₁ => ?_
  have hcache : w.cache = memory :=
    hw.trans ((foldl_leftBehind_others E _ w.opened s).2.1.symm.trans (hf.left.memory.symm.trans hmemory.symm))
  cases memory with
  | none => exact ⟨none, hfailed hx₁⟩
  | some c =>
    refine wp_bind .. |>.2 ((wp_currentNativeUnlockSlot hx₁ c).post fun slot x₂ hx₂ => ?_)
    refine (wp_ite ..).2 ⟨fun _ => ⟨none, hfailed hx₂⟩, fun _ => ?_⟩
    refine wp_bind .. |>.2 ((wp_decryptWithNative_trial hx₂ hcache).post fun r x₃ hx₃ => ?_)
    cases r with
    | error e =>
      have hsame : TrialAt _ (w.withOpened none) x₃ := hx₃
      rw [Trial.withOpened_none] at hsame
      exact ⟨none, hfailed hsame⟩
    | ok opened =>
      obtain ⟨json, key⟩ := opened
      have hend := wp_unlockWithDecryptedKeys_trial request (w.withOpened (some (json, key))) hf hx₃ rfl hf.counts
        hf.locked (pure ()) .autoUnlockedNative
      exact hend.post fun r x' h => ⟨some (json, key), h⟩

theorem wp_autoUnlockPin_trial (request : SshAgentUIRequest) (hf : FailedAt E false s w x)
    (hw : w.cache = s.localKeyCacheData) :
    wp (trialMachine E) (fun _ _ => True) (autoUnlockPin E cfg request)
      (fun r x' => ∃ w', RequestEnds E s w' r.isSome x') x := by
  refine wp_incidental rfl hf.left fun memory x₁ hmemory hx₁ => ?_
  have hcache : w.cache = memory :=
    hw.trans ((foldl_leftBehind_others E _ w.opened s).2.1.symm.trans (hf.left.memory.symm.trans hmemory.symm))
  dsimp only
  split
  · exact ⟨w, .inr ⟨rfl, hf.of_trialAt hx₁⟩⟩
  · rename_i c hc
    have hc : w.cache = some c := hcache.trans (Option.filter_eq_some_iff.1 hc).1
    refine wp_incidental rfl hx₁ fun names x₂ _ hx₂ => ?_
    refine wp_bind .. |>.2 ((wp_requestPinDialog_trial _ hx₂ hc).post fun r x₃ h => ?_)
    obtain ⟨rest, tried, hx₃⟩ := h
    cases r with
    | none => exact ⟨_, .inr ⟨rfl, hf.withPins hx₃⟩⟩
    | some opened =>
      obtain ⟨pin, json, key⟩ := opened
      refine (wp_unlockWithDecryptedKeys_trial request (w.withPins E rest tried (some (json, key))) hf hx₃ rfl
        (hf.counts.withPins _ _ _) hf.locked _ _).post fun r x' h => ⟨_, h⟩

/-- A request on a locked vault unlocks it, or fails. -/
theorem wp_handleLockedRequest_trial (request : SshAgentUIRequest) (hf : FailedAt E false s w x)
    (hw : w.cache = s.localKeyCacheData) :
    wp (trialMachine E) (fun _ _ => True) (handleLockedRequest E cfg request)
      (fun _ x' => (WorksOut E s x'.2 ∧ x'.2.unlocked = true) ∨ FailedAt E false s x'.2 x') x := by
  refine wp_bind .. |>.2 ((wp_autoUnlockNative_trial request hf hw).post fun r x₁ h => ?_)
  obtain ⟨o, h⟩ := h
  cases r with
  | some name =>
    rcases h with ⟨-, hout, hl⟩ | ⟨hno, -⟩
    · exact (wp_answered hout hl).post fun _ _ h => .inl h
    · exact absurd hno.symm Bool.false_ne_true
  | none =>
    rcases h with ⟨hyes, -⟩ | ⟨-, hf₁⟩
    · exact absurd hyes Bool.false_ne_true
    refine wp_bind .. |>.2 ((wp_autoUnlockPin_trial request hf₁ hw).post fun r x₂ h => ?_)
    obtain ⟨w', h⟩ := h
    cases r with
    | some name =>
      rcases h with ⟨-, hout, hl⟩ | ⟨hno, -⟩
      · exact (wp_answered hout hl).post fun _ _ h => .inl h
      · exact absurd hno.symm Bool.false_ne_true
    | none =>
      rcases h with ⟨hyes, -⟩ | ⟨-, hf₂⟩
      · exact absurd hyes Bool.false_ne_true
      · have hx₃ := hf₂.left.next (E := E) (.broadcast request.requestId false) ()
        exact ⟨trivial, fun _ _ => .inr (hf₂.of_trialAt hx₃).own⟩

/-- No PIN has been tried, nothing opened and nothing that an unlock is about changed. -/
structure Unattempted (s : Daemon) (x : Daemon × Trial) : Prop where
  state : SameUnlockState s x.1
  opened : x.2.opened = []
  tried : x.2.tried = []
  recorded : x.2.recorded = []
  unlocked : x.2.unlocked = false

theorem Unattempted.next_of_isAnswering (h : Unattempted s x) {o : Op} (ho : o.isAnswering = true) (a : o.Ans) :
    Unattempted s ((trialMachine E).next o x a) := by
  obtain ⟨⟨hlocked, hkeys, hnames, hkey, hstore⟩, hopened, htried, hrecorded, hunlocked⟩ := h
  have htrial : (trialMachine E).next o x a = (next E o x.1 a, x.2.after E ⟨o, a⟩) := rfl
  have hcache : ∀ cache, Unattempted s (x.1, { x.2 with cache := some cache }) := fun _ =>
    ⟨⟨hlocked, hkeys, hnames, hkey, hstore⟩, hopened, htried, hrecorded, hunlocked⟩
  cases o with
  | loadLocalKeyCache =>
    cases a with
    | error e => exact ⟨⟨hlocked, hkeys, hnames, hkey, hstore⟩, hopened, htried, hrecorded, hunlocked⟩
    | ok cache =>
      cases cache with
      | none => exact ⟨⟨hlocked, hkeys, hnames, hkey, hstore⟩, hopened, htried, hrecorded, hunlocked⟩
      | some cache => exact hcache cache
  | _ => first
    | exact absurd ho Bool.false_ne_true
    | exact ⟨⟨hlocked, hkeys, hnames, hkey, hstore⟩, hopened, htried, hrecorded, hunlocked⟩

/-- What a request ends in. -/
def RequestSettled (E : Crates) (s : Daemon) (x : Daemon × Trial) : Prop :=
  (WorksOut E s x.2 ∧ x.2.unlocked = true) ∨ FailedAt E false s x.2 x ∨ Unattempted s x

theorem wp_handleUiRequest_trial (request : SshAgentUIRequest)
    (hx : TrialAt s { cache := s.localKeyCacheData } x) :
    wp (trialMachine E) (fun _ _ => True) (handleUiRequest E cfg request) (fun _ => RequestSettled E s) x := by
  have hstart : ∀ {x'}, TrialAt s { cache := s.localKeyCacheData } x' → Unattempted s x' := fun hx' => by
    refine ⟨.of_vaultView hx'.view, ?_, ?_, ?_, ?_⟩
    all_goals rw [hx'.trial]
  have hanswer : ∀ {p : DProg Unit} {x'}, Answering p → Unattempted s x' →
      wp (trialMachine E) (fun _ _ => True) p (fun _ => RequestSettled E s) x' := fun hp hx' =>
    (Only.wp (I := Unattempted s) hp (fun _ _ a ho hx _ => hx.next_of_isAnswering ho a) hx').mono
      (fun _ _ _ => trivial) fun _ _ h => .inr (.inr h)
  refine (wp_ite ..).2 ⟨fun _ => ?_, fun _ => ?_⟩
  · refine wp_incidental rfl hx fun _ x₁ _ hx₁ => ?_
    refine wp_perform_bind.2 ⟨trivial, fun _ _ => hanswer (answering_op rfl) ?_⟩
    obtain ⟨⟨hlocked, hkeys, hnames, hkey, hstore⟩, hopened, htried, hrecorded, hunlocked⟩ := hstart hx₁
    exact ⟨⟨hlocked, hkeys, hnames, hkey, hstore⟩, hopened, htried, hrecorded, hunlocked⟩
  · refine wp_incidental rfl hx fun locked x₁ _ hx₁ => (wp_ite ..).2 ⟨fun _ => ?_, fun _ => ?_⟩
    · have hf : FailedAt E false s { cache := s.localKeyCacheData } x₁ := .start hx₁ rfl rfl rfl rfl
      exact (wp_handleLockedRequest_trial request hf rfl).post fun _ _ h => h.imp_right .inl
    · refine wp_incidental rfl hx₁ fun locked x₂ _ hx₂ => ?_
      exact hanswer (.ite (answering_op rfl) (answering_handleUnlockedRequest cfg request)) (hstart hx₂)

/-! ### The shared cache is read again -/

theorem wp_reloadShared_trial (cfg : Config) (hx : TrialAt s w x) (hw : w.cache = s.localKeyCacheData) :
    wp (trialMachine E) (fun _ _ => True) (reloadSharedLocalCacheFromDiskIfMultiDevice cfg) (fun _ x' =>
      Alike s { w with cache := x'.1.localKeyCacheData } x') x := by
  have hkept : ∀ {x'}, TrialAt s w x' → Alike s { w with cache := x'.1.localKeyCacheData } x' := fun hx' => by
    rw [hx'.memory, ← hw]
    exact hx'.alike
  refine (wp_ite ..).2 ⟨fun _ => hkept hx, fun _ => wp_trial hx fun r x₁ _ hx₁ => ?_⟩
  cases r with
  | error e => exact hkept hx₁
  | ok cache =>
    cases cache with
    | none => exact hkept hx₁
    | some c =>
      have hpersist := (slotSteps_persistDeviceUnlockSlotsFromCache cfg c).slotwork
      refine wp_bind .. |>.2 ((hpersist.wp_alike hx₁.alike).post fun _ x₂ hx₂ => ⟨trivial, fun _ _ => ?_⟩)
      exact hx₂.next (o := .writeLocalKeyCache (some c)) rfl ()

theorem localCacheKeyState_foldl_leftBehind (E : Crates) (command : Bool)
    (opened : List (String × SymmetricKey)) (s : Daemon) :
    (opened.foldl (leftBehind E command) s).localCacheKeyState =
      if command then (opened.getLast?.map Prod.snd).or s.localCacheKeyState else s.localCacheKeyState := by
  induction opened using List.reverseRecOn with
  | nil => cases command <;> rfl
  | append_singleton opened o ih =>
    rw [List.foldl_append, List.getLast?_concat]
    show (leftBehind E command _ o).localCacheKeyState = _
    have hparsed : ∀ d, (parsedInto E o.1 d).localCacheKeyState = d.localCacheKeyState := fun d => by
      unfold parsedInto
      split <;> rfl
    rw [leftBehind, hparsed]
    cases command with
    | true => rfl
    | false => exact ih

theorem keys_foldl_leftBehind (E : Crates) (command : Bool) (opened : List (String × SymmetricKey))
    (s : Daemon) :
    (opened.foldl (leftBehind E command) s).cachedKeyTuples =
      (parsedKeys E opened).getLast?.getD s.cachedKeyTuples ∧
    (opened.foldl (leftBehind E command) s).keyNames =
      ((parsedKeys E opened).getLast?.map keyNamesOf).getD s.keyNames := by
  induction opened using List.reverseRecOn with
  | nil => exact ⟨rfl, rfl⟩
  | append_singleton opened o ih =>
    rw [List.foldl_append, parsedKeys_append]
    show (leftBehind E command _ o).cachedKeyTuples = _ ∧ (leftBehind E command _ o).keyNames = _
    unfold leftBehind parsedInto
    cases hkeys : E.keysFromJson o.1 with
    | error e =>
      have hnone : parsedKeys E [o] = [] := by simp [parsedKeys, hkeys, Except.toOption]
      rw [hnone, List.append_nil]
      cases command <;> exact ih
    | ok keys =>
      have hsome : parsedKeys E [o] = [keys] := by simp [parsedKeys, hkeys, Except.toOption]
      rw [hsome, List.getLast?_concat]
      cases command <;> exact ⟨rfl, rfl⟩

theorem sameUnlockState_foldl_iff (E : Crates) (command : Bool) (opened : List (String × SymmetricKey))
    (s : Daemon) :
    SameUnlockState s (opened.foldl (leftBehind E command) s) ↔
      (command = true → ∀ o ∈ opened.getLast?, s.localCacheKeyState = some o.2) ∧
        ∀ keys ∈ (parsedKeys E opened).getLast?, s.keyNames = keyNamesOf keys ∧ s.cachedKeyTuples = keys := by
  obtain ⟨hagent, -, hlocked⟩ := foldl_leftBehind_others E command opened s
  have hkey := localCacheKeyState_foldl_leftBehind E command opened s
  obtain ⟨hkeys, hnames⟩ := keys_foldl_leftBehind E command opened s
  constructor
  · intro h
    refine ⟨fun hc o ho => ?_, fun keys hlast => ?_⟩
    · rw [h.localCacheKeyState, hc, if_pos rfl, Option.mem_def.1 ho] at hkey
      exact hkey
    · rw [h.cachedKeyTuples, Option.mem_def.1 hlast] at hkeys
      rw [h.keyNames, Option.mem_def.1 hlast] at hnames
      exact ⟨hnames, hkeys⟩
  · rintro ⟨hlastKey, hlast⟩
    refine ⟨hlocked, ?_, ?_, ?_, congrArg Agent.keystore hagent⟩
    · cases hl : (parsedKeys E opened).getLast? with
      | none => rw [hkeys, hl]; rfl
      | some keys => rw [hkeys, hl]; exact (hlast keys hl).2.symm
    · cases hl : (parsedKeys E opened).getLast? with
      | none => rw [hnames, hl]; rfl
      | some keys => rw [hnames, hl]; exact (hlast keys hl).1.symm
    · cases command with
      | false => exact hkey
      | true =>
        cases hl : opened.getLast? with
        | none => rw [hkey, hl]; rfl
        | some o => rw [hkey, hl]; exact (hlastKey rfl o hl).symm

/-! ### When a failed unlock changes nothing -/

theorem SameUnlockState.symm {s' : Daemon} (h : SameUnlockState s s') : SameUnlockState s' s :=
  ⟨h.vaultLocked.symm, h.cachedKeyTuples.symm, h.keyNames.symm, h.localCacheKeyState.symm, h.keystore.symm⟩

theorem CountsOpened.counted_iff (h : CountsOpened E w) : w.recorded = w.tried.map (opensSlot E w.cache) ↔
    ∀ pin ∈ w.tried, opensSlot E w.cache pin = true → (openedByPin E w.cache pin).isSome = true := by
  have hrecorded : w.recorded = w.tried.map fun pin => (openedByPin E w.cache pin).isSome := h
  rw [hrecorded, List.map_inj_left]
  refine forall₂_congr fun pin _ => ⟨fun heq hslot => heq.trans hslot, fun himp => ?_⟩
  cases hslot : opensSlot E w.cache pin with
  | true => exact himp hslot
  | false =>
    refine Bool.eq_false_iff.2 fun hopened => ?_
    exact absurd (hslot.symm.trans (opensSlot_of_openedByPin hopened)) Bool.false_ne_true

/-- What an attempt leaves behind that failed in the ordinary way. -/
theorem FailedAt.leavesAlone_iff (path : UnlockPath) (h : FailedAt E path.action.isSome t x.2 x)
    (hpath : path.entered = []) (hs : SameUnlockState s t) (hrun : t.agent.isRunning = s.agent.isRunning) :
    LeavesAlone E s x.1 x.2 ↔ NothingNew E path s x.2 := by
  have hleft : SameUnlockState s x.1 ↔
      SameUnlockState t (x.2.opened.foldl (leftBehind E path.action.isSome) t) := by
    have hview := SameUnlockState.of_vaultView h.left.view
    exact ⟨fun hx => (hs.symm.trans hx).trans hview.symm, fun hx => (hs.trans hx).trans hview⟩
  have hfails : ¬WorksOut E s x.2 := fun hout => h.fails ⟨hrun.trans hout.1, hout.2⟩
  have hsecrets := hleft.trans (sameUnlockState_foldl_iff E _ x.2.opened t)
  have hcounted := h.counts.counted_iff
  rw [hs.localCacheKeyState, hs.keyNames, hs.cachedKeyTuples] at hsecrets
  constructor
  · intro hn
    obtain ⟨hkey, hkeys⟩ := hsecrets.1 hn.secrets
    exact .inr ⟨hkey, hkeys, fun pin hpin hslot => ⟨hpath, hcounted.1 hn.recorded pin hpin hslot⟩⟩
  · rintro (hout | ⟨hkey, hkeys, hpins⟩)
    · exact absurd hout hfails
    · exact ⟨hsecrets.2 ⟨hkey, hkeys⟩, hcounted.2 fun pin hpin hslot => (hpins pin hpin hslot).2⟩

/-- A failed `unlock --pin` changes nothing unless a PIN it tried opens the slot. -/
theorem PinFailed.leavesAlone_iff {path : UnlockPath} (h : PinFailed E t x) (hpath : path.entered ≠ [])
    (hs : SameUnlockState s t) (hrun : t.agent.isRunning = s.agent.isRunning) :
    LeavesAlone E s x.1 x.2 ↔ NothingNew E path s x.2 := by
  have hfails : ¬WorksOut E s x.2 := fun hout => h.fails ⟨hrun.trans hout.1, hout.2⟩
  have hshut : (∀ pin ∈ x.2.tried, opensSlot E x.2.cache pin = false) → LeavesAlone E s x.1 x.2 := fun hall =>
    ⟨hs.trans (h.kept hall).2, h.recorded.trans (List.map_congr_left fun pin hpin => (hall pin hpin).symm)⟩
  constructor
  · intro hn
    have hall : ∀ pin ∈ x.2.tried, opensSlot E x.2.cache pin = false := fun pin hpin =>
      (List.map_inj_left.1 (h.recorded.symm.trans hn.recorded) pin hpin).symm
    have hnil := (h.kept hall).1
    refine .inr ⟨?_, ?_, fun pin hpin hslot => absurd ((hall pin hpin).symm.trans hslot) Bool.false_ne_true⟩
    · rw [hnil]; exact fun _ o ho => nomatch ho
    · rw [hnil]; exact fun keys hk => nomatch hk
  · rintro (hout | ⟨-, -, hpins⟩)
    · exact absurd hout hfails
    · refine hshut fun pin hpin => Bool.eq_false_iff.2 fun hslot => ?_
      exact absurd (hpins pin hpin hslot).1 hpath

/-- An attempt that succeeds is no failed one. -/
theorem nothingNew_of_succeeds {path : UnlockPath} (hrun : t.agent.isRunning = s.agent.isRunning)
    (h : WorksOut E t w ∨ w.opened = [] ∧ w.tried = []) : NothingNew E path s w := by
  rcases h with hout | ⟨hopened, htried⟩
  · exact .inl ⟨hrun.symm.trans hout.1, hout.2⟩
  · refine .inr ⟨?_, ?_, ?_⟩
    · rw [hopened]; exact fun _ o ho => nomatch ho
    · rw [hopened]; exact fun keys hk => nomatch hk
    · rw [htried]; exact fun pin hpin => nomatch hpin

/-- A failed command changes nothing exactly where it brings nothing new. -/
def SettlesRight (E : Crates) (path : UnlockPath) (s : Daemon) (resp : ControlResponse)
    (x : Daemon × Trial) : Prop :=
  (resp.ok = false → LeavesAlone E s x.1 x.2) ↔ NothingNew E path s x.2

theorem settlesRight_of {path : UnlockPath} {resp : ControlResponse} {P : Prop}
    (hrun : t.agent.isRunning = s.agent.isRunning)
    (h : (resp.ok = true ∧ (WorksOut E t x.2 ∨ x.2.opened = [] ∧ x.2.tried = [])) ∨ (resp.ok = false ∧ P))
    (hfailed : P → (LeavesAlone E s x.1 x.2 ↔ NothingNew E path s x.2)) : SettlesRight E path s resp x := by
  rcases h with ⟨hok, hends⟩ | ⟨hno, hp⟩
  · refine ⟨fun _ => nothingNew_of_succeeds hrun hends, fun _ hno => ?_⟩
    exact absurd (hno.symm.trans hok) Bool.false_ne_true
  · exact ⟨fun hn => (hfailed hp).1 (hn hno), fun h _ => (hfailed hp).2 h⟩

theorem wp_command_settles {path : UnlockPath} {action : ControlAction} (hpath : path.action = some action) :
    wp (trialMachine E) (fun _ _ => True) (handleControlCommand E cfg action) (SettlesRight E path s)
      (s, { cache := s.localKeyCacheData, entered := path.entered }) := by
  have hreloads : action.reloads = true := by
    cases path <;> first | (obtain rfl := Option.some.inj hpath; rfl) | cases hpath
  have hreload := wp_reloadShared_trial (E := E) cfg
    (TrialAt.start s { cache := s.localKeyCacheData, entered := path.entered }) rfl
  refine wp_bind .. |>.2 ?_
  rw [hreloads]
  refine hreload.post fun _ x₁ hx₁ => ?_
  have hx : TrialAt x₁.1 { cache := x₁.1.localKeyCacheData, entered := path.entered } x₁ := ⟨rfl, hx₁.trial⟩
  cases path with
  | pin p =>
    obtain rfl := Option.some.inj hpath
    refine (wp_handleUnlockPin_trial hx).post fun resp x' h => ?_
    refine settlesRight_of hx₁.isRunning h fun hp => ?_
    exact hp.leavesAlone_iff (List.cons_ne_nil _ _) hx₁.state hx₁.isRunning
  | native =>
    obtain rfl := Option.some.inj hpath
    refine (wp_handleUnlockNative_trial (.start hx rfl rfl rfl rfl) rfl rfl rfl).post fun resp x' h => ?_
    exact settlesRight_of hx₁.isRunning h fun hf => hf.leavesAlone_iff _ rfl hx₁.state hx₁.isRunning
  | unlock =>
    obtain rfl := Option.some.inj hpath
    refine (wp_handleUnlock_trial (.start hx rfl rfl rfl rfl) rfl rfl rfl).post fun resp x' h => ?_
    exact settlesRight_of hx₁.isRunning h fun hf => hf.leavesAlone_iff _ rfl hx₁.state hx₁.isRunning
  | request request => cases hpath

theorem Trial.recorded_after (w : Trial) {e : Event} (h : e.1.keepsFailures = true) :
    (w.after E e).recorded = w.recorded := by
  unfold after
  split <;> first | rfl | exact absurd h Bool.false_ne_true

theorem consecutiveFailures_lockoutRemaining (f : PinFailureState) (now : Nat) :
    (f.lockoutRemaining now).2.consecutiveFailures = f.consecutiveFailures := by
  unfold PinFailureState.lockoutRemaining
  split
  · split <;> rfl
  · rfl

theorem consecutiveFailures_recordAttempt (f : PinFailureState) (now : Nat) (success : Bool) :
    (f.recordAttempt now success).2.consecutiveFailures = countOutcome f.consecutiveFailures success := by
  cases success <;> rfl

/-- The counter follows the recorded outcomes. -/
theorem wp_counted (p : DProg α) {n : Nat}
    (h : x.1.pinFailures.consecutiveFailures = x.2.recorded.foldl countOutcome n) :
    wp (trialMachine E) (fun _ _ => True) p
      (fun _ x' => x'.1.pinFailures.consecutiveFailures = x'.2.recorded.foldl countOutcome n) x := by
  refine wp.of_keeps (I := fun x : Daemon × Trial =>
    x.1.pinFailures.consecutiveFailures = x.2.recorded.foldl countOutcome n) (fun o x a hx _ => ?_) p h
  show (next E o x.1 a).pinFailures.consecutiveFailures = (x.2.after E ⟨o, a⟩).recorded.foldl countOutcome n
  by_cases ho : o.keepsFailures = true
  · have hrecorded : (x.2.after E ⟨o, a⟩).recorded = x.2.recorded := Trial.recorded_after x.2 ho
    rw [pinFailures_next E ho, hrecorded]
    exact hx
  · cases o with
    | checkPinLockout now =>
      have hturn : (x.2.after E ⟨.checkPinLockout now, a⟩).recorded = x.2.recorded := by
        cases a <;> rfl
      rw [hturn]
      exact (consecutiveFailures_lockoutRemaining _ now).trans hx
    | recordPin now success =>
      have hrecorded : (x.2.after E ⟨.recordPin now success, a⟩).recorded = x.2.recorded ++ [success] := rfl
      rw [hrecorded, List.foldl_append, ← hx]
      exact consecutiveFailures_recordAttempt _ now success
    | _ => exact absurd rfl ho

theorem failed_unlock_leavesAlone_iff {path : UnlockPath} {tr : List Event} {ok : Bool} {s' : Daemon}
    (h : UnlockRun E cfg s path tr ok s') :
    (ok = false → LeavesAlone E s s' (trial E path s tr)) ↔ NothingNew E path s (trial E path s tr) := by
  cases h with
  | command hpath hsteps =>
    have htrack := hsteps.track (Trial.after E) { cache := s.localKeyCacheData, entered := path.entered }
    exact (wp_command_settles hpath).of_ret htrack
  | request hsteps =>
    rename_i request
    have htrack := hsteps.track (Trial.after E) { cache := s.localKeyCacheData }
    rcases (wp_handleUiRequest_trial request (TrialAt.start s _)).of_ret htrack with
      ⟨hout, hl⟩ | hf | hu
    · exact ⟨fun _ => .inl hout, fun _ hno => absurd (hno.symm.trans hl) Bool.false_ne_true⟩
    · have hiff := hf.leavesAlone_iff (.request request) rfl (SameUnlockState.refl s) rfl
      exact ⟨fun hn => hiff.1 (hn hf.locked), fun h _ => hiff.2 h⟩
    · have htried : (trial E (.request request) s tr).tried = [] := hu.tried
      have hrecorded : (trial E (.request request) s tr).recorded = [] := hu.recorded
      refine ⟨fun _ => nothingNew_of_succeeds rfl (.inr ⟨hu.opened, hu.tried⟩), fun _ _ => ⟨hu.state, ?_⟩⟩
      rw [hrecorded, htried]
      rfl

theorem UnlockRun.counted {path : UnlockPath} {tr : List Event} {ok : Bool} {s' : Daemon}
    (h : UnlockRun E cfg s path tr ok s') : s'.pinFailures.consecutiveFailures =
      (trial E path s tr).recorded.foldl countOutcome s.pinFailures.consecutiveFailures := by
  cases h with
  | command hpath hsteps => exact (wp_counted _ rfl).of_ret (hsteps.track (Trial.after E) _)
  | request hsteps => exact (wp_counted _ rfl).of_ret (hsteps.track (Trial.after E) _)

/-- A failed attempt leaves the lock flag, the keys, their names, the Local Cache Key and the agent's keystore
as they were and counts exactly the PINs that do not open the slot, if and only if it
works out or brings nothing new. -/
theorem failed_unlock_changes_nothing_iff {path : UnlockPath} {tr : List Event} {ok : Bool} {s' : Daemon}
    (h : UnlockRun E cfg s path tr ok s') :
    (ok = false → ChangesNothing E s s' (trial E path s tr)) ↔ NothingNew E path s (trial E path s tr) := by
  refine Iff.trans (forall_congr' fun _ => ?_) (failed_unlock_leavesAlone_iff h)
  exact ⟨fun hn => hn.toLeavesAlone, fun hn => ⟨hn, hn.recorded ▸ h.counted⟩⟩

/-- `unlock --pin` in the environment of `plainScript`. -/
def pinCommand (cfg : Config) (pin : String) (s : Daemon) : DProg ControlResponse × Daemon :=
  plainScript.run .plain enough (handleControlCommand .plain cfg (.unlockPin pin)) s

def pinTrace (cfg : Config) (pin : String) (s : Daemon) : List Event :=
  Prog.trace (machine .plain) plainScript.answer enough (handleControlCommand .plain cfg (.unlockPin pin)) s

def failsPin (cfg : Config) (pin : String) (s : Daemon) : Bool :=
  (pinCommand cfg pin s).1.result?.any fun resp => !resp.ok

theorem unlockRun_of_failsPin {pin : String} (h : failsPin cfg pin s = true) :
    UnlockRun .plain cfg s (.pin pin) (pinTrace cfg pin s) false (pinCommand cfg pin s).2 := by
  obtain ⟨resp, hret, hno⟩ := (Option.any_eq_true _ _).1 h
  have hsteps := plainScript.run_steps .plain enough (handleControlCommand .plain cfg (.unlockPin pin)) s
  have hend : (pinCommand cfg pin s).1 = .ret resp := eq_ret_of_result? hret
  have hrun : UnlockRun .plain cfg s (.pin pin) (pinTrace cfg pin s) resp.ok (pinCommand cfg pin s).2 :=
    .command rfl (hend ▸ hsteps)
  have hfalse : resp.ok = false := by simpa using hno
  exact hfalse ▸ hrun

/-- The device after its login, locked. -/
def lockedLogin : Option (Config × Daemon) := afterLogin plainConfig [.take (.control .lock) plainScript]

/-- The wrong PIN is tried, opens nothing and not even the slot. -/
def failsShut (cfg : Config) (pin : String) (s : Daemon) : Bool :=
  let w := trial .plain (.pin pin) s (pinTrace cfg pin s)
  failsPin cfg pin s && w.opened.isEmpty && w.tried == [pin] && !opensSlot .plain w.cache pin

theorem lockedLogin_failsShut : lockedLogin.any (fun x => failsShut x.1 "9999" x.2) = true := by decide +kernel

/-- A wrong PIN changes nothing. -/
theorem wrong_pin_changes_nothing : ∃ cfg s tr s', UnlockRun .plain cfg s (.pin "9999") tr false s' ∧
    ChangesNothing .plain s s' (trial .plain (.pin "9999") s tr) := by
  obtain ⟨⟨cfg, s⟩, -, hcheck⟩ := (Option.any_eq_true _ _).1 lockedLogin_failsShut
  simp only [failsShut, Bool.and_eq_true, Bool.not_eq_true', beq_iff_eq, List.isEmpty_iff] at hcheck
  obtain ⟨⟨⟨hfails, hopened⟩, htried⟩, hshut⟩ := hcheck
  have hrun := unlockRun_of_failsPin hfails
  refine ⟨cfg, s, _, _, hrun, (failed_unlock_changes_nothing_iff hrun).2 (.inr ⟨?_, ?_, ?_⟩) rfl⟩
  · rw [hopened]; exact fun _ o ho => nomatch ho
  · rw [hopened]; exact fun keys hk => nomatch hk
  · intro pin hpin hslot
    rw [htried, List.mem_singleton] at hpin
    subst hpin
    exact absurd (hshut.symm.trans hslot) Bool.false_ne_true

/-- The cache of the device with a payload that its Local Cache Key opens and that is no list of keys. -/
def foreignPayload (cache : LocalKeyCacheFile) : LocalKeyCacheFile :=
  { cache with encryptedPayload := Plain.encrypt (utf8 "?") plainKey }

/-- The device after it has been started with that cache. -/
def foreignDevice : Option (Config × Daemon) :=
  lockedLogin.bind fun x => x.2.disk.localKeyCache.bind fun cache =>
    playStart .plain plainConfig plainScript { x.2.disk with localKeyCache := some (foreignPayload cache) }

def leavesKey (cfg : Config) (pin : String) (s : Daemon) : Bool :=
  failsPin cfg pin s && s.vaultLocked && s.localCacheKeyState.isNone &&
    (pinCommand cfg pin s).2.localCacheKeyState.isSome

theorem foreignDevice_leavesKey : foreignDevice.any (fun x => leavesKey x.1 "1234" x.2) = true := by decide +kernel

/-- The right PIN on such a cache fails and leaves the Local Cache Key in the memory of a locked device. -/
theorem failed_unlock_leaves_key : ¬∀ (E : Crates) (cfg : Config) (path : UnlockPath) (s s' : Daemon)
    (tr : List Event), UnlockRun E cfg s path tr false s' → ChangesNothing E s s' (trial E path s tr) := by
  intro hall
  obtain ⟨⟨cfg, s⟩, -, hcheck⟩ := (Option.any_eq_true _ _).1 foreignDevice_leavesKey
  simp only [leavesKey, Bool.and_eq_true] at hcheck
  obtain ⟨⟨⟨hfails, -⟩, hnone⟩, hsome⟩ := hcheck
  have hkept := (hall _ _ _ _ _ _ (unlockRun_of_failsPin hfails)).secrets.localCacheKeyState
  rw [hkept, Option.isNone_iff_eq_none.1 hnone] at hsome
  cases hsome

end SshWarden
