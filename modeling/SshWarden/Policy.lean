import SshWarden.Support

/-!
# The authorization policy of a request handler

Over all complete runs of `handleUiRequest`, with every answer of every operation free: the handler
broadcasts once, at its end, and what it broadcasts follows the policy.
-/

namespace SshWarden
open Prog

/-- The handler saw the vault unlocked, or loaded keys into the agent and raised the flag itself. -/
def SawUnlocked (tr : List Event) : Prop :=
  (⟨.loadVaultLocked, false⟩ : Event) ∈ tr ∨
    ∃ keys, [(⟨.agentSetKeys keys, true⟩ : Event), ⟨.storeVaultLocked false, ()⟩].Sublist tr

/-- The dialog text is the request's own. -/
def Describes (info : SignRequestInfo) (request : SshAgentUIRequest) : Prop :=
  info = signInfoForRequest request info.keyName

/-- The bind dialog opened for this key was saved, and its bindings were persisted. -/
def SavedBindDialog (cipherId : Option String) (tr : List Event) : Prop :=
  ∃ dialog payload, dialog.initialSelection = cipherId ∧ dialog.approveOnSave = true ∧
    (⟨.bindHostsDialog dialog, .ok (.saved payload)⟩ : Event) ∈ tr ∧
    (⟨.persistBindPayload payload, .ok ()⟩ : Event) ∈ tr

/-- The user approved the request, directly or by saving the bind dialog it led to. -/
def UserApproved (request : SshAgentUIRequest) (tr : List Event) : Prop :=
  ∃ info, Describes info request ∧
    ((⟨.authDialog info, .approved⟩ : Event) ∈ tr ∨
      ((⟨.authDialog info, .bindRequested⟩ : Event) ∈ tr ∧ SavedBindDialog request.cipherId tr))

/-- The authorization memory was found to contain the request's entry. -/
def FoundInMemory (request : SshAgentUIRequest) (tr : List Event) : Prop :=
  ∃ id, request.cipherId = some id ∧
    (⟨.tryMemoryContains (id, request.operationKind.asStr), true⟩ : Event) ∈ tr

/-- What has to have happened for a sign request to be approved. -/
structure MayApprove (cfg : Config) (request : SshAgentUIRequest) (tr : List Event) : Prop where
  unlocked : SawUnlocked tr
  consent : UserApproved request tr ∨
    (request.isForwarding = false ∧ cfg.promptBehavior = .never) ∨
    (request.isForwarding = false ∧ cfg.promptBehavior = .rememberUntilLock ∧ FoundInMemory request tr)

/-- `tr` ends with the only answer of the handler; `pre` is what came before it. -/
def AnswersOnce (request : SshAgentUIRequest) (approved : Bool) (pre tr : List Event) : Prop :=
  tr = pre ++ [⟨.broadcast request.requestId approved, ()⟩] ∧
    ∀ id b, (⟨.broadcast id b, ()⟩ : Event) ∉ pre

/-- One answer, and an approval only by the policy. -/
def AnswersByPolicy (cfg : Config) (request : SshAgentUIRequest) (tr : List Event) : Prop :=
  ∃ approved pre, AnswersOnce request approved pre tr ∧ (approved = true → MayApprove cfg request pre)

/-- A program that leaves the answer to its caller. -/
abbrev Silent {α : Type} (p : DProg α) : Prop :=
  Prog.Only (S := daemonSig) (fun o : Op => ∀ id b, o ≠ .broadcast id b) p

theorem SlotSupport.silent {α : Type} {p : DProg α} (h : SlotSupport p) : Silent p := by
  refine h.mono fun o ho id b hob => ?_
  subst hob
  exact absurd ho Bool.false_ne_true

theorem Support.silent {α : Type} {p : DProg α} (h : Support p) : Silent p := h.slots.silent

theorem silent_op {o : Op} (h : ∀ id b, o ≠ .broadcast id b) : Silent (op o) := ⟨h, fun _ => trivial⟩

theorem AutoUnlocking.silent {α : Type} {p : DProg α} (h : AutoUnlocking p) : Silent p := by
  refine h.mono fun o ho id b hob => ?_
  subst hob
  exact absurd ho Bool.false_ne_true

theorem silent_rememberApproval (cfg : Config) (request : SshAgentUIRequest) (approved : Bool) :
    Silent (rememberApproval cfg request approved) := by
  refine .ite ?_ trivial
  split
  · exact silent_op (by simp)
  · trivial

/-- No broadcast occurs in a run of a silent program. -/
theorem Silent.not_mem {α : Type} {p : DProg α} (h : Silent p) {tr : List Event} {a : α}
    (hr : Runs p tr a) (id : UInt32) (b : Bool) : (⟨.broadcast id b, ()⟩ : Event) ∉ tr :=
  fun hm => h.mem_runs hr _ hm id b rfl

variable {E : Crates} {cfg : Config} {request : SshAgentUIRequest} {tr pre post : List Event}

theorem savedBindDialog_of_runs {pid : UInt32} {cipherId : Option String}
    (h : Runs (runBindHostsFlow pid cipherId) tr true) : SavedBindDialog cipherId tr := by
  obtain ⟨tr₁, tr₂, keys, rfl, -, h₁⟩ := runs_bind.1 h
  cases keys with
  | error e => exact absurd (runs_ret.1 h₁).2 (by simp)
  | ok keys =>
    obtain ⟨bindings, tr₃, rfl, h₂⟩ := runs_perform_bind.1 h₁
    rcases runs_ite.1 h₂ with ⟨-, h₃⟩ | ⟨-, h₃⟩
    · exact absurd (runs_ret.1 h₃).2 (by simp)
    obtain ⟨host, tr₄, rfl, h₄⟩ := runs_perform_bind.1 h₃
    obtain ⟨r, tr₅, rfl, h₅⟩ := runs_perform_bind.1 h₄
    cases r with
    | error e => exact absurd (runs_ret.1 h₅).2 (by simp)
    | ok r =>
      cases r with
      | cancelled => exact absurd (runs_ret.1 h₅).2 (by simp)
      | saved payload =>
        obtain ⟨r, tr₆, rfl, h₆⟩ := runs_perform_bind.1 h₅
        cases r with
        | error e => exact absurd (runs_ret.1 h₆).2 (by simp)
        | ok _ =>
          exact ⟨_, payload, rfl, rfl, List.mem_append_right _ (.tail _ (.tail _ (.head _))),
            List.mem_append_right _ (.tail _ (.tail _ (.tail _ (.head _))))⟩

theorem userApproved_of_runs {name : String}
    (h : Runs (promptAuthorizationWithBindFlow (signInfoForRequest request name) request.pid
      request.cipherId) tr true) : UserApproved request tr := by
  obtain ⟨r, tr₁, rfl, h₁⟩ := runs_perform_bind.1 h
  cases r with
  | approved => exact ⟨signInfoForRequest request name, rfl, .inl (.head _)⟩
  | denied => exact absurd (runs_ret.1 h₁).2 (by simp)
  | timeout => exact absurd (runs_ret.1 h₁).2 (by simp)
  | bindRequested =>
    obtain ⟨dialog, payload, hid, hsave, hd, hp⟩ := savedBindDialog_of_runs h₁
    exact ⟨signInfoForRequest request name, rfl,
      .inr ⟨.head _, dialog, payload, hid, hsave, .tail _ hd, .tail _ hp⟩⟩

/-- An approval by `runAuthorizationPrompt` is the user's, or needs no prompt. -/
theorem consent_of_runs {name : String} (h : Runs (runAuthorizationPrompt cfg request name) tr true) :
    UserApproved request tr ∨ needsPrompt cfg request = false := by
  rcases runs_ite.1 h with ⟨hn, -⟩ | ⟨-, h₁⟩
  · exact .inr (by simpa using hn)
  · exact .inl (userApproved_of_runs h₁)

theorem never_of_needsPrompt (h : needsPrompt cfg request = false) :
    request.isForwarding = false ∧ cfg.promptBehavior = .never := by
  unfold needsPrompt at h
  cases hb : cfg.promptBehavior <;> simp_all

theorem SawUnlocked.append_left (pre : List Event) (h : SawUnlocked post) : SawUnlocked (pre ++ post) := by
  rcases h with h | ⟨keys, h⟩
  · exact .inl (List.mem_append_right _ h)
  · exact .inr ⟨keys, h.trans (List.sublist_append_right _ _)⟩

theorem SawUnlocked.append_right (h : SawUnlocked pre) : SawUnlocked (pre ++ post) := by
  rcases h with h | ⟨keys, h⟩
  · exact .inl (List.mem_append_left _ h)
  · exact .inr ⟨keys, h.trans (List.sublist_append_left _ _)⟩

theorem UserApproved.append_left (pre : List Event) (h : UserApproved request post) :
    UserApproved request (pre ++ post) := by
  obtain ⟨info, hi, h⟩ := h
  refine ⟨info, hi, h.imp (List.mem_append_right _) fun ⟨hb, d, p, hid, hs, hd, hp⟩ => ?_⟩
  exact ⟨List.mem_append_right _ hb, d, p, hid, hs, List.mem_append_right _ hd, List.mem_append_right _ hp⟩

theorem UserApproved.append_right (h : UserApproved request pre) : UserApproved request (pre ++ post) := by
  obtain ⟨info, hi, h⟩ := h
  refine ⟨info, hi, h.imp (List.mem_append_left _) fun ⟨hb, d, p, hid, hs, hd, hp⟩ => ?_⟩
  exact ⟨List.mem_append_left _ hb, d, p, hid, hs, List.mem_append_left _ hd, List.mem_append_left _ hp⟩

theorem sawUnlocked_of_unlockWithDecryptedKeys {keysJson name : String} {key : SymmetricKey}
    {seed : DProg Unit} {event : RuntimeEvent}
    (h : Runs (unlockWithDecryptedKeys E request keysJson key seed event) tr (some name)) :
    SawUnlocked tr := by
  unfold unlockWithDecryptedKeys at h
  split at h
  · exact absurd (runs_ret.1 h).2 (by simp)
  · rename_i keys _
    obtain ⟨tr₁, tr₂, _, rfl, -, h₁⟩ := runs_bind.1 h
    obtain ⟨loaded, tr₃, rfl, h₂⟩ := runs_perform_bind.1 h₁
    rcases runs_ite.1 h₂ with ⟨hl, h₃⟩ | ⟨-, h₃⟩
    · obtain ⟨tr₄, tr₅, _, rfl, -, h₄⟩ := runs_bind.1 h₃
      obtain ⟨_, tr₆, rfl, h₅⟩ := runs_perform_bind.1 h₄
      obtain ⟨_, tr₇, rfl, h₆⟩ := runs_perform_bind.1 h₅
      subst hl
      refine .append_left _ (.inr ⟨keys, .cons_cons _ ?_⟩)
      simp
    · exact absurd (runs_ret.1 h₃).2 (by simp)

theorem sawUnlocked_of_autoUnlockNative {name : String}
    (h : Runs (autoUnlockNative E cfg request) tr (some name)) : SawUnlocked tr := by
  obtain ⟨cache, tr₁, rfl, h₁⟩ := runs_perform_bind.1 h
  cases cache with
  | none => exact absurd (runs_ret.1 h₁).2 (by simp)
  | some cache =>
    obtain ⟨tr₂, tr₃, slot, rfl, -, h₂⟩ := runs_bind.1 h₁
    rcases runs_ite.1 h₂ with ⟨-, h₃⟩ | ⟨-, h₃⟩
    · exact absurd (runs_ret.1 h₃).2 (by simp)
    obtain ⟨tr₄, tr₅, opened, rfl, -, h₄⟩ := runs_bind.1 h₃
    cases opened with
    | error e => exact absurd (runs_ret.1 h₄).2 (by simp)
    | ok opened =>
      exact ((sawUnlocked_of_unlockWithDecryptedKeys h₄).append_left tr₄).append_left tr₂ |>.append_left [_]

theorem sawUnlocked_of_autoUnlockPin {name : String}
    (h : Runs (autoUnlockPin E cfg request) tr (some name)) : SawUnlocked tr := by
  obtain ⟨cache, tr₁, rfl, h₁⟩ := runs_perform_bind.1 h
  revert h₁
  cases Option.filter (fun c : LocalKeyCacheFile => c.localCacheKey.pinEncrypted.isSome) cache with
  | none => exact fun h₁ => absurd (runs_ret.1 h₁).2 (by simp)
  | some cache =>
    intro h₁
    obtain ⟨names, tr₂, rfl, h₂⟩ := runs_perform_bind.1 h₁
    obtain ⟨tr₃, tr₄, opened, rfl, -, h₃⟩ := runs_bind.1 h₂
    cases opened with
    | none => exact absurd (runs_ret.1 h₃).2 (by simp)
    | some opened =>
      exact ((sawUnlocked_of_unlockWithDecryptedKeys h₃).append_left tr₃).append_left [_, _]

/-! ### Each branch of the handler -/

theorem answersByPolicy_of_locked (h : Runs (handleLockedRequest E cfg request) tr ()) :
    AnswersByPolicy cfg request tr := by
  have answered : ∀ {name pre post}, SawUnlocked pre → (∀ id b, (⟨.broadcast id b, ()⟩ : Event) ∉ pre) →
      Runs (runAuthorizationPrompt cfg request name >>= fun ok => op (.broadcast request.requestId ok))
        post () → AnswersByPolicy cfg request (pre ++ post) := by
    intro name pre post hu hq h
    obtain ⟨tr₁, tr₂, approved, rfl, hp, hb⟩ := runs_bind.1 h
    obtain rfl := runs_perform.1 hb
    refine ⟨approved, pre ++ tr₁, ⟨by simp, fun id b hm => ?_⟩, fun ha => ⟨hu.append_right, ?_⟩⟩
    · rcases List.mem_append.1 hm with hm | hm
      · exact hq id b hm
      · exact (routine_runAuthorizationPrompt cfg request name).support.silent.not_mem hp id b hm
    · subst ha
      rcases consent_of_runs hp with hc | hc
      · exact .inl (hc.append_left _)
      · exact .inr (.inl (never_of_needsPrompt hc))
  obtain ⟨tr₁, tr₂, native, rfl, h₁, h₂⟩ := runs_bind.1 h
  have q₁ := (autoUnlocking_autoUnlockNative E cfg request).silent.not_mem h₁
  cases native with
  | some name => exact answered (sawUnlocked_of_autoUnlockNative h₁) q₁ h₂
  | none =>
    obtain ⟨tr₃, tr₄, pin, rfl, h₃, h₄⟩ := runs_bind.1 h₂
    have q₃ := (autoUnlocking_autoUnlockPin E cfg request).silent.not_mem h₃
    have q : ∀ id b, (⟨.broadcast id b, ()⟩ : Event) ∉ tr₁ ++ tr₃ := fun id b hm =>
      (List.mem_append.1 hm).elim (q₁ id b) (q₃ id b)
    rw [← List.append_assoc]
    cases pin with
    | some name => exact answered ((sawUnlocked_of_autoUnlockPin h₃).append_left _) q h₄
    | none =>
      obtain rfl := runs_perform.1 h₄
      exact ⟨false, tr₁ ++ tr₃, ⟨rfl, q⟩, fun ha => absurd ha (by simp)⟩

/-- On a vault seen unlocked the policy is the memory, the setting, or the user. -/
theorem answersByPolicy_of_unlocked (hu : SawUnlocked pre)
    (hq : ∀ id b, (⟨.broadcast id b, ()⟩ : Event) ∉ pre)
    (h : Runs (handleUnlockedRequest cfg request) tr ()) : AnswersByPolicy cfg request (pre ++ tr) := by
  obtain ⟨tr₁, tr₂, found, rfl, h₁, h₂⟩ := runs_bind.1 h
  have q : ∀ id b, (⟨.broadcast id b, ()⟩ : Event) ∉ pre ++ tr₁ := fun id b hm =>
    (List.mem_append.1 hm).elim (hq id b)
      ((prompting_approvedFromMemory cfg request).routine.support.silent.not_mem h₁ id b)
  rw [← List.append_assoc]
  rcases runs_ite.1 h₂ with ⟨rfl, h₃⟩ | ⟨-, h₃⟩
  · obtain rfl := runs_perform.1 h₃
    refine ⟨true, pre ++ tr₁, ⟨rfl, q⟩, fun _ => ⟨hu.append_right, .inr (.inr ?_)⟩⟩
    rcases runs_ite.1 h₁ with ⟨hr, h₄⟩ | ⟨-, h₄⟩
    · obtain ⟨hf, hb⟩ : request.isForwarding = false ∧ cfg.promptBehavior = .rememberUntilLock := by
        simpa [remembers] using hr
      refine ⟨hf, hb, ?_⟩
      unfold memoryKey at h₄
      cases hid : request.cipherId with
      | none => rw [hid] at h₄; exact absurd (runs_ret.1 h₄).2 (by simp)
      | some id =>
        rw [hid] at h₄
        obtain rfl := runs_perform.1 h₄
        exact ⟨id, hid, List.mem_append_right _ (.head _)⟩
    · exact absurd (runs_ret.1 h₄).2 (by simp)
  · rcases runs_ite.1 h₃ with ⟨hn, h₄⟩ | ⟨-, h₄⟩
    · obtain rfl := runs_perform.1 h₄
      exact ⟨true, pre ++ tr₁, ⟨rfl, q⟩, fun _ =>
        ⟨hu.append_right, .inr (.inl (never_of_needsPrompt (by simpa using hn)))⟩⟩
    · obtain ⟨names, tr₃, rfl, h₅⟩ := runs_perform_bind.1 h₄
      obtain ⟨tr₄, tr₅, approved, rfl, h₆, h₇⟩ := runs_bind.1 h₅
      obtain ⟨tr₆, tr₇, _, rfl, h₈, h₉⟩ := runs_bind.1 h₇
      obtain rfl := runs_perform.1 h₉
      refine ⟨approved, pre ++ tr₁ ++ ⟨.tryReadKeyNames, names⟩ :: (tr₄ ++ tr₆), ⟨by simp, ?_⟩, ?_⟩
      · intro id b hm
        rcases List.mem_append.1 hm with hm | hm
        · exact q id b hm
        · rcases List.mem_cons.1 hm with hm | hm
          · exact absurd hm (by simp)
          · rcases List.mem_append.1 hm with hm | hm
            · exact (routine_promptAuthorizationWithBindFlow _ _ _).support.silent.not_mem h₆ id b hm
            · exact (silent_rememberApproval cfg request approved).not_mem h₈ id b hm
      · rintro rfl
        have hc : UserApproved request (tr₄ ++ tr₆) := (userApproved_of_runs h₆).append_right
        exact ⟨hu.append_right.append_right,
          .inl ((hc.append_left [_]).append_left _)⟩

theorem answersByPolicy_of_sign (h : Runs (handleSignRequest E cfg request) tr ()) :
    AnswersByPolicy cfg request tr := by
  obtain ⟨locked, tr₁, rfl, h₁⟩ := runs_perform_bind.1 h
  rcases runs_ite.1 h₁ with ⟨-, h₂⟩ | ⟨-, h₂⟩
  · obtain ⟨approved, pre, ⟨rfl, hq⟩, hp⟩ := answersByPolicy_of_locked h₂
    refine ⟨approved, ⟨.loadVaultLocked, locked⟩ :: pre, ⟨rfl, fun id b hm => ?_⟩, fun ha => ?_⟩
    · exact (List.mem_cons.1 hm).elim (by simp) (hq id b)
    · obtain ⟨hu, hc⟩ := hp ha
      refine ⟨hu.append_left [_], ?_⟩
      rcases hc with hc | hc | ⟨hf, hb, id, hid, hm⟩
      · exact .inl (hc.append_left [_])
      · exact .inr (.inl hc)
      · exact .inr (.inr ⟨hf, hb, id, hid, .tail _ hm⟩)
  · obtain ⟨locked', tr₂, rfl, h₃⟩ := runs_perform_bind.1 h₂
    have q : ∀ id b, (⟨.broadcast id b, ()⟩ : Event) ∉
        [(⟨.loadVaultLocked, locked⟩ : Event), ⟨.loadVaultLocked, locked'⟩] := by
      intro id b hm
      simp at hm
    rcases runs_ite.1 h₃ with ⟨-, h₄⟩ | ⟨hl, h₄⟩
    · obtain rfl := runs_perform.1 h₄
      exact ⟨false, [_, _], ⟨rfl, q⟩, fun ha => absurd ha (by simp)⟩
    · obtain rfl : locked' = false := by simpa using hl
      exact answersByPolicy_of_unlocked (.inl (.tail _ (.head _))) q h₄

/-! ### The handler amid other tasks -/

/-- Before each of its operations a handler may find the daemon in any state, since the main loop and
the other handlers run between them: a run with the state each operation was answered in. -/
structure Observed (E : Crates) (p : DProg Unit) (obs : List (Daemon × Event)) : Prop where
  runs : Runs p (obs.map Prod.snd) ()
  ready : ∀ x ∈ obs, (machine E).ready x.2.1 x.1 x.2.2

/-- The policy on the states a handler has seen. -/
structure Permitted (cfg : Config) (request : SshAgentUIRequest) (obs : List (Daemon × Event)) :
    Prop where
  unlocked : (∃ s, (s, (⟨.loadVaultLocked, false⟩ : Event)) ∈ obs ∧ s.vaultLocked = false) ∨
    ∃ keys, [(⟨.agentSetKeys keys, true⟩ : Event), ⟨.storeVaultLocked false, ()⟩].Sublist
      (obs.map Prod.snd)
  consent : UserApproved request (obs.map Prod.snd) ∨
    (request.isForwarding = false ∧ cfg.promptBehavior = .never) ∨
    (request.isForwarding = false ∧ cfg.promptBehavior = .rememberUntilLock ∧
      ∃ id s, request.cipherId = some id ∧
        (s, (⟨.tryMemoryContains (id, request.operationKind.asStr), true⟩ : Event)) ∈ obs ∧
        (id, request.operationKind.asStr) ∈ s.authorizationMemory)

theorem MayApprove.permitted {obs : List (Daemon × Event)} (h : MayApprove cfg request (obs.map Prod.snd))
    (hr : ∀ x ∈ obs, (machine E).ready x.2.1 x.1 x.2.2) : Permitted cfg request obs where
  unlocked := by
    refine h.unlocked.imp_left fun hm => ?_
    obtain ⟨⟨s, e⟩, hx, rfl⟩ := List.mem_map.1 hm
    exact ⟨s, hx, (hr _ hx).symm⟩
  consent := by
    rcases h.consent with hu | hn | ⟨hf, hb, id, hid, hm⟩
    · exact .inl hu
    · exact .inr (.inl hn)
    · obtain ⟨⟨s, e⟩, hx, rfl⟩ := List.mem_map.1 hm
      exact .inr (.inr ⟨hf, hb, id, s, hid, hx, hr _ hx rfl⟩)

/-- A forwarded request is approved by the user alone. -/
theorem Permitted.of_forwarded {obs : List (Daemon × Event)} (h : Permitted cfg request obs)
    (hf : request.isForwarding = true) : UserApproved request (obs.map Prod.snd) := by
  rcases h.consent with h | ⟨h, -⟩ | ⟨h, -⟩
  · exact h
  · rw [hf] at h; exact absurd h (by simp)
  · rw [hf] at h; exact absurd h (by simp)

/-- The last observation is the only answer of the handler; `seen` is what came before it. -/
def AnswersLast (request : SshAgentUIRequest) (approved : Bool) (seen obs : List (Daemon × Event)) :
    Prop :=
  ∃ s, obs = seen ++ [(s, ⟨.broadcast request.requestId approved, ()⟩)] ∧
    ∀ id b, (⟨.broadcast id b, ()⟩ : Event) ∉ seen.map Prod.snd

theorem AnswersOnce.observed {approved : Bool} {obs : List (Daemon × Event)}
    (h : AnswersOnce request approved pre (obs.map Prod.snd)) :
    ∃ seen, seen.map Prod.snd = pre ∧ AnswersLast request approved seen obs := by
  obtain ⟨he, hq⟩ := h
  obtain ⟨seen, last, rfl, rfl, hl⟩ := List.map_eq_append_iff.1 he
  obtain ⟨⟨s, e⟩, rest, rfl, rfl, hrest⟩ := List.map_eq_cons_iff.1 hl
  obtain rfl := List.map_eq_nil_iff.1 hrest
  exact ⟨seen, rfl, s, rfl, hq⟩

/-- Every handler answers exactly once, whatever its operations are answered and whatever happens
between them: a list request is approved, a sign request only by the policy, and a forwarded one only
by the user. -/
theorem handleUiRequest_answers_once (E : Crates) (cfg : Config) (request : SshAgentUIRequest) :
    (∀ pick, ∃ tr, Runs (handleUiRequest E cfg request) tr () ∧ Follows pick [] tr) ∧
    ∀ obs, Observed E (handleUiRequest E cfg request) obs →
      ∃ approved seen, AnswersLast request approved seen obs ∧
        (request.isList = true → approved = true) ∧
        (request.isList = false → approved = true → Permitted cfg request seen) ∧
        (request.isList = false → approved = true → request.isForwarding = true →
          UserApproved request (seen.map Prod.snd)) := by
  refine ⟨fun pick => ?_, fun obs h => ?_⟩
  · obtain ⟨tr, _, hr, hf⟩ := exists_runs pick (handleUiRequest E cfg request) []
    exact ⟨tr, hr, hf⟩
  · rcases runs_ite.1 h.runs with ⟨hl, h₁⟩ | ⟨hl, h₁⟩
    · obtain ⟨locked, tr₁, e₁, h₂⟩ := runs_perform_bind.1 h₁
      obtain ⟨_, tr₂, rfl, h₃⟩ := runs_perform_bind.1 h₂
      obtain rfl := runs_perform.1 h₃
      have ho : AnswersOnce request true [⟨.loadVaultLocked, locked⟩, ⟨.agentClearNeedsUnlock, ()⟩]
          (obs.map Prod.snd) := ⟨e₁, fun id b hm => by simp at hm⟩
      obtain ⟨seen, -, ha⟩ := ho.observed
      have hn : request.isList ≠ false := by simp [hl]
      exact ⟨true, seen, ha, fun _ => rfl, fun hs => absurd hs hn, fun hs => absurd hs hn⟩
    · obtain ⟨approved, pre, ho, hp⟩ := answersByPolicy_of_sign h₁
      obtain ⟨seen, rfl, ha⟩ := ho.observed
      have permitted : approved = true → Permitted cfg request seen := by
        intro hap
        obtain ⟨s, rfl, -⟩ := ha
        exact (hp hap).permitted fun x hx => h.ready x (List.mem_append_left _ hx)
      exact ⟨approved, seen, ha, fun hs => absurd hs hl, fun _ => permitted,
        fun _ hap => (permitted hap).of_forwarded⟩

end SshWarden
