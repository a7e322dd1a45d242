import SshWarden.Policy
import SshWarden.Scenario

/-!
# The two answer paths of a sign request

A sign request is answered after an unlock on request, or on a vault that is unlocked already. From an
empty authorization memory both paths give the answer the user gave (`lockedPath`, `unlockedPath`); only
the second keeps an approval in the memory.
-/

namespace SshWarden
open Prog

/-- Operations that `UserApproved` speaks of. -/
def Op.asksConsent : Op → Bool
  | authDialog _ | bindHostsDialog _ | persistBindPayload _ => true
  | _ => false

/-- Operations of an unlock: none asks for consent, answers a request or changes the memory. -/
def Op.isWordless : Op → Bool
  | broadcast _ _ | insertMemory _ | retainMemory _ | clearMemory => false
  | o => !o.asksConsent

abbrev Wordless {α : Type} (p : DProg α) : Prop :=
  Prog.Only (S := daemonSig) (fun o : Op => o.isWordless = true) p

theorem Op.not_asksConsent_of_isWordless {o : Op} (h : o.isWordless = true) : o.asksConsent = false := by
  cases o <;> first | rfl | exact absurd h Bool.false_ne_true

theorem memory_next_of_isWordless (E : Crates) {o : Op} (h : o.isWordless = true) (s : Daemon) (a : o.Ans) :
    (next E o s a).authorizationMemory = s.authorizationMemory := by
  by_cases hcore : o.keepsCore = true
  · exact (sameCore_next E hcore s a).authorizationMemory
  · cases o <;> first
      | exact absurd h Bool.false_ne_true
      | exact absurd rfl hcore
      | rfl
      | (cases a <;> rfl)

theorem userApproved_congr {request : SshAgentUIRequest} {tr tr' : List Event}
    (h : ∀ e : Event, e.1.asksConsent = true → (e ∈ tr ↔ e ∈ tr')) :
    UserApproved request tr ↔ UserApproved request tr' := by
  have hdialog : ∀ info answer, (⟨.authDialog info, answer⟩ : Event) ∈ tr ↔ ⟨.authDialog info, answer⟩ ∈ tr' :=
    fun info answer => h _ rfl
  have hbind : ∀ dialog answer,
      (⟨.bindHostsDialog dialog, answer⟩ : Event) ∈ tr ↔ ⟨.bindHostsDialog dialog, answer⟩ ∈ tr' :=
    fun dialog answer => h _ rfl
  have hpersist : ∀ payload answer,
      (⟨.persistBindPayload payload, answer⟩ : Event) ∈ tr ↔ ⟨.persistBindPayload payload, answer⟩ ∈ tr' :=
    fun payload answer => h _ rfl
  unfold UserApproved SavedBindDialog
  simp only [hdialog, hbind, hpersist]

theorem wordless_op {o : Op} (h : o.isWordless = true) : Wordless (op o) := ⟨h, fun _ => trivial⟩

theorem AutoUnlocking.wordless {α : Type} {p : DProg α} (h : AutoUnlocking p) : Wordless p :=
  h.mono fun o ho => by cases o <;> first | rfl | exact absurd ho Bool.false_ne_true

theorem Wordless.memory {E : Crates} {α : Type} {p p' : DProg α} {s s' : Daemon} {tr : List Event}
    (h : Wordless p) (hs : Steps (machine E) p s tr p' s') : s'.authorizationMemory = s.authorizationMemory :=
  h.steps (I := fun x => x.authorizationMemory = s.authorizationMemory)
    (fun _ x a ho hx _ => (memory_next_of_isWordless E ho x a).trans hx) rfl hs

section
variable {request : SshAgentUIRequest} {tr : List Event}

theorem wordless_loadManagedKeysFromCache : Wordless loadManagedKeysFromCache := by
  refine .bind (wordless_op rfl) fun r => ?_
  cases r with
  | error e => trivial
  | ok cache => cases cache <;> trivial

theorem Wordless.not_mem {α : Type} {p : DProg α} {a : α} (h : Wordless p) (hr : Runs p tr a) {e : Event}
    (he : e.1.asksConsent = true) : e ∉ tr := fun hmem => by
  have hno := Op.not_asksConsent_of_isWordless (h.mem_runs hr e hmem)
  exact Bool.false_ne_true (hno.symm.trans he)

/-- The bind dialog's approval is the saved dialog. -/
theorem saved_of_persisted {pid : UInt32} {cipherId : Option String} {saved : Bool}
    {payload : Assoc String (List String)}
    (h : Runs (runBindHostsFlow pid cipherId) tr saved)
    (hmem : (⟨.persistBindPayload payload, .ok ()⟩ : Event) ∈ tr) : saved = true := by
  obtain ⟨tr₁, tr₂, keys, rfl, hkeys, h₁⟩ := runs_bind.1 h
  have hmem := (List.mem_append.1 hmem).resolve_left (wordless_loadManagedKeysFromCache.not_mem hkeys rfl)
  cases keys with
  | error e =>
    obtain ⟨rfl, rfl⟩ := runs_ret.1 h₁
    cases hmem
  | ok keys =>
    obtain ⟨bindings, tr₃, rfl, h₂⟩ := runs_perform_bind.1 h₁
    rcases runs_ite.1 h₂ with ⟨-, h₃⟩ | ⟨-, h₃⟩
    · obtain ⟨rfl, rfl⟩ := runs_ret.1 h₃
      simp at hmem
    obtain ⟨host, tr₄, rfl, h₄⟩ := runs_perform_bind.1 h₃
    obtain ⟨r, tr₅, rfl, h₅⟩ := runs_perform_bind.1 h₄
    cases r with
    | error e =>
      obtain ⟨rfl, rfl⟩ := runs_ret.1 h₅
      simp at hmem
    | ok r =>
      cases r with
      | cancelled =>
        obtain ⟨rfl, rfl⟩ := runs_ret.1 h₅
        simp at hmem
      | saved payload' =>
        obtain ⟨r, tr₆, rfl, h₆⟩ := runs_perform_bind.1 h₅
        cases r with
        | error e =>
          obtain ⟨rfl, rfl⟩ := runs_ret.1 h₆
          simp at hmem
        | ok _ => exact (runs_ret.1 h₆).2

theorem no_authDialog_runBindHostsFlow {pid : UInt32} {cipherId : Option String} {saved : Bool}
    (h : Runs (runBindHostsFlow pid cipherId) tr saved) (info : SignRequestInfo) (answer : AuthorizationResult) :
    (⟨.authDialog info, answer⟩ : Event) ∉ tr := by
  have honly : Prog.Only (S := daemonSig) (fun o : Op => ∀ info, o ≠ .authDialog info)
      (runBindHostsFlow pid cipherId) := by
    refine .bind (.bind ⟨by simp, fun _ => trivial⟩ fun r => ?_) fun keys => ?_
    · cases r with
      | error e => trivial
      | ok cache => cases cache <;> trivial
    cases keys with
    | error e => trivial
    | ok keys =>
      refine .bind ⟨by simp, fun _ => trivial⟩ fun bindings => .ite trivial <|
        .bind ⟨by simp, fun _ => trivial⟩ fun host => .bind ⟨by simp, fun _ => trivial⟩ fun r => ?_
      cases r with
      | error e => trivial
      | ok r =>
        cases r with
        | cancelled => trivial
        | saved payload =>
          refine .bind ⟨by simp, fun _ => trivial⟩ fun r => ?_
          cases r <;> trivial
  exact fun hmem => honly.mem_runs h _ hmem info rfl

/-- The prompt returns the answer of the user. -/
theorem approved_iff_userApproved {name : String} {approved : Bool}
    (h : Runs (promptAuthorizationWithBindFlow (signInfoForRequest request name) request.pid
      request.cipherId) tr approved) : approved = true ↔ UserApproved request tr := by
  refine ⟨fun happroved => userApproved_of_runs (happroved ▸ h), ?_⟩
  rintro ⟨info, -, huser⟩
  obtain ⟨r, tr₁, rfl, h₁⟩ := runs_perform_bind.1 h
  cases r with
  | approved => exact (runs_ret.1 h₁).2
  | denied =>
    obtain ⟨rfl, rfl⟩ := runs_ret.1 h₁
    simp at huser
  | timeout =>
    obtain ⟨rfl, rfl⟩ := runs_ret.1 h₁
    simp at huser
  | bindRequested =>
    have hno := no_authDialog_runBindHostsFlow h₁
    rcases huser with hdirect | ⟨-, dialog, payload, -, -, -, hpersist⟩
    · simp [hno] at hdirect
    · exact saved_of_persisted h₁ (by simpa using hpersist)

/-- The answer that a path broadcasts, and that it is the user's where the user is asked. -/
structure PathAnswer (cfg : Config) (request : SshAgentUIRequest) (tr : List Event) (approved : Bool) : Prop where
  answered : ∀ b, (⟨.broadcast request.requestId b, ()⟩ : Event) ∈ tr ↔ b = approved
  user : approved = true ↔ UserApproved request tr ∨ needsPrompt cfg request = false

variable {E : Crates} {cfg : Config} {pre post : List Event} {approved : Bool}

theorem userApproved_append (hpre : ∀ e ∈ pre, e.1.asksConsent = false)
    (hpost : ∀ e ∈ post, e.1.asksConsent = false) :
    UserApproved request (pre ++ tr ++ post) ↔ UserApproved request tr := by
  refine userApproved_congr fun e he => ?_
  have hpre : e ∉ pre := fun hmem => Bool.false_ne_true ((hpre e hmem).symm.trans he)
  have hpost : e ∉ post := fun hmem => Bool.false_ne_true ((hpost e hmem).symm.trans he)
  simp [hpre, hpost]

theorem PathAnswer.prepend (h : PathAnswer cfg request tr approved) (hpre : ∀ e ∈ pre, e.1.isWordless = true) :
    PathAnswer cfg request (pre ++ tr) approved where
  answered b := by
    have hno : (⟨.broadcast request.requestId b, ()⟩ : Event) ∉ pre := fun hmem =>
      absurd (hpre _ hmem) Bool.false_ne_true
    rw [List.mem_append, or_iff_right hno]
    exact h.answered b
  user := by
    have happend : UserApproved request (pre ++ tr ++ []) ↔ UserApproved request tr :=
      userApproved_append (fun e he => Op.not_asksConsent_of_isWordless (hpre e he)) (by simp)
    rw [List.append_nil] at happend
    rw [happend]
    exact h.user

/-- The prompt's answer, whatever is done with it before it is broadcast. -/
theorem pathAnswer_of_prompt {name : String} (hneeds : needsPrompt cfg request = true)
    (h : Runs (promptAuthorizationWithBindFlow (signInfoForRequest request name) request.pid
      request.cipherId) tr approved)
    (hpost : ∀ e ∈ post, e.1.asksConsent = false ∧ ∀ b, e ≠ ⟨.broadcast request.requestId b, ()⟩) :
    PathAnswer cfg request (tr ++ (post ++ [⟨.broadcast request.requestId approved, ()⟩])) approved where
  answered b := by
    have htr : (⟨.broadcast request.requestId b, ()⟩ : Event) ∉ tr :=
      (routine_promptAuthorizationWithBindFlow _ _ _).support.silent.not_mem h _ b
    have hpost : (⟨.broadcast request.requestId b, ()⟩ : Event) ∉ post := fun hmem => (hpost _ hmem).2 b rfl
    simp [htr, hpost]
  user := by
    have happend : UserApproved request ([] ++ tr ++ (post ++ [⟨.broadcast request.requestId approved, ()⟩])) ↔
        UserApproved request tr := by
      refine userApproved_append (by simp) fun e he => ?_
      rcases List.mem_append.1 he with he | he
      · exact (hpost e he).1
      · rw [List.mem_singleton.1 he]
        rfl
    rw [List.nil_append] at happend
    rw [happend, hneeds, ← approved_iff_userApproved h]
    simp

theorem pathAnswer_unprompted (hneeds : needsPrompt cfg request = false) :
    PathAnswer cfg request [⟨.broadcast request.requestId true, ()⟩] true where
  answered b := by simp
  user := by simp [hneeds]

/-! ### The path over an unlock -/

/-- The event that opens the vault. -/
abbrev unlockEvent : Event := ⟨.storeVaultLocked false, ()⟩

theorem unlockEvent_not_mem {α : Type} {p : DProg α} {a : α} (h : SlotSupport p) (hr : Runs p tr a) :
    unlockEvent ∉ tr := fun hmem => absurd (h.mem_runs hr _ hmem) Bool.false_ne_true

theorem not_unlocked_of_unlockWithDecryptedKeys {keysJson : String} {key : SymmetricKey} {seed : DProg Unit}
    {event : RuntimeEvent} (h : Runs (unlockWithDecryptedKeys E request keysJson key seed event) tr none) :
    unlockEvent ∉ tr := by
  unfold unlockWithDecryptedKeys at h
  split at h
  · obtain ⟨rfl, -⟩ := runs_ret.1 h
    exact List.not_mem_nil
  · obtain ⟨tr₁, tr₂, _, rfl, hkeys, h₁⟩ := runs_bind.1 h
    obtain ⟨_, tr₃, rfl, hlast⟩ := runs_perform_bind.1 hkeys
    obtain rfl := runs_perform.1 hlast
    obtain ⟨loaded, tr₄, rfl, h₂⟩ := runs_perform_bind.1 h₁
    rcases runs_ite.1 h₂ with ⟨-, h₃⟩ | ⟨-, h₃⟩
    · obtain ⟨tr₅, tr₆, _, rfl, -, h₄⟩ := runs_bind.1 h₃
      obtain ⟨_, tr₇, rfl, h₅⟩ := runs_perform_bind.1 h₄
      obtain ⟨_, tr₈, rfl, h₆⟩ := runs_perform_bind.1 h₅
      obtain ⟨_, tr₉, rfl, h₇⟩ := runs_perform_bind.1 h₆
      cases (runs_ret.1 h₇).2
    · obtain ⟨rfl, -⟩ := runs_ret.1 h₃
      simp

theorem not_unlocked_of_autoUnlockNative (h : Runs (autoUnlockNative E cfg request) tr none) :
    unlockEvent ∉ tr := by
  obtain ⟨cache, tr₁, rfl, h₁⟩ := runs_perform_bind.1 h
  cases cache with
  | none =>
    obtain ⟨rfl, -⟩ := runs_ret.1 h₁
    simp
  | some cache =>
    obtain ⟨tr₂, tr₃, slot, rfl, hslot, h₂⟩ := runs_bind.1 h₁
    have hno₂ := unlockEvent_not_mem (slotReads_currentNativeUnlockSlot cfg cache).routine.support.slots hslot
    rcases runs_ite.1 h₂ with ⟨-, h₃⟩ | ⟨-, h₃⟩
    · obtain ⟨rfl, -⟩ := runs_ret.1 h₃
      simpa using hno₂
    · obtain ⟨tr₄, tr₅, opened, rfl, hopened, h₄⟩ := runs_bind.1 h₃
      have hno₄ := unlockEvent_not_mem (slotReads_decryptWithNative E cfg cache).routine.support.slots hopened
      cases opened with
      | error e =>
        obtain ⟨rfl, -⟩ := runs_ret.1 h₄
        simpa using ⟨hno₂, hno₄⟩
      | ok opened =>
        have hno₅ := not_unlocked_of_unlockWithDecryptedKeys h₄
        simpa using ⟨hno₂, hno₄, hno₅⟩

theorem not_unlocked_of_autoUnlockPin (h : Runs (autoUnlockPin E cfg request) tr none) : unlockEvent ∉ tr := by
  obtain ⟨cache, tr₁, rfl, h₁⟩ := runs_perform_bind.1 h
  revert h₁
  cases Option.filter (fun c : LocalKeyCacheFile => c.localCacheKey.pinEncrypted.isSome) cache with
  | none =>
    intro h₁
    obtain ⟨rfl, -⟩ := runs_ret.1 h₁
    simp
  | some cache =>
    intro h₁
    obtain ⟨names, tr₂, rfl, h₂⟩ := runs_perform_bind.1 h₁
    obtain ⟨tr₃, tr₄, opened, rfl, hopened, h₃⟩ := runs_bind.1 h₂
    have hno₃ := unlockEvent_not_mem (pinSteps_requestPinDialog _ _).routine.support.slots hopened
    cases opened with
    | none =>
      obtain ⟨rfl, -⟩ := runs_ret.1 h₃
      simpa using hno₃
    | some opened =>
      have hno₄ := not_unlocked_of_unlockWithDecryptedKeys h₃
      simpa using ⟨hno₃, hno₄⟩

theorem KeepsCore.memory {α : Type} {p p' : DProg α} {s s' : Daemon} (h : KeepsCore p)
    (hs : Steps (machine E) p s tr p' s') : s'.authorizationMemory = s.authorizationMemory :=
  h.steps (I := fun x => x.authorizationMemory = s.authorizationMemory)
    (fun _ x a ho hx _ => (sameCore_next E ho x a).authorizationMemory.trans hx) rfl hs

theorem Wordless.events {α : Type} {p : DProg α} {a : α} {s s' : Daemon} (h : Wordless p)
    (hs : Steps (machine E) p s tr (.ret a) s') : ∀ e ∈ tr, e.1.isWordless = true :=
  h.mem_runs (reaches_ret.1 hs.reaches)

theorem steps_broadcast {id : UInt32} {b : Bool} {s s' : Daemon}
    (h : Steps (machine E) (op (.broadcast id b)) s tr (.ret ()) s') :
    tr = [⟨.broadcast id b, ()⟩] ∧ s'.authorizationMemory = s.authorizationMemory := by
  cases h with
  | step ha h =>
    cases h
    exact ⟨rfl, rfl⟩

theorem prompted_path {name : String} {s s' : Daemon}
    (h : Steps (machine E) (runAuthorizationPrompt cfg request name >>= fun approved =>
      op (.broadcast request.requestId approved)) s tr (.ret ()) s') :
    ∃ approved, PathAnswer cfg request tr approved ∧ s'.authorizationMemory = s.authorizationMemory := by
  obtain ⟨pre, post, approved, s₁, hprompt, hbroadcast, rfl⟩ := h.of_bind
  obtain ⟨rfl, hmem⟩ := steps_broadcast hbroadcast
  have hcore := (routine_runAuthorizationPrompt cfg request name).keepsCore.memory hprompt
  refine ⟨approved, ?_, hmem.trans hcore⟩
  rcases runs_ite.1 (reaches_ret.1 hprompt.reaches) with ⟨hneeds, hrun⟩ | ⟨hneeds, hrun⟩
  · obtain ⟨rfl, rfl⟩ := runs_ret.1 hrun
    exact pathAnswer_unprompted (by simpa using hneeds)
  · have hneeds : needsPrompt cfg request = true := by simpa using hneeds
    have hanswer : PathAnswer cfg request
        (pre ++ ([] ++ [⟨.broadcast request.requestId approved, ()⟩])) approved :=
      pathAnswer_of_prompt hneeds hrun (by simp)
    exact hanswer

/-- After an unlock on request the answer is the user's, and the memory is as it was. -/
theorem lockedPath {s s' : Daemon} (h : Steps (machine E) (handleLockedRequest E cfg request) s tr (.ret ()) s')
    (hunlock : unlockEvent ∈ tr) :
    ∃ approved, PathAnswer cfg request tr approved ∧ s'.authorizationMemory = s.authorizationMemory := by
  obtain ⟨pre, post, native, s₁, hnative, hrest, rfl⟩ := h.of_bind
  have hpre := (autoUnlocking_autoUnlockNative E cfg request).wordless.events hnative
  have hmem := (autoUnlocking_autoUnlockNative E cfg request).wordless.memory hnative
  cases native with
  | some name =>
    obtain ⟨approved, hanswer, hkept⟩ := prompted_path hrest
    exact ⟨approved, hanswer.prepend hpre, hkept.trans hmem⟩
  | none =>
    have hno := not_unlocked_of_autoUnlockNative (reaches_ret.1 hnative.reaches)
    obtain ⟨mid, rest, pin, s₂, hpin, hrest, rfl⟩ := hrest.of_bind
    have hmid := (autoUnlocking_autoUnlockPin E cfg request).wordless.events hpin
    have hmem' := (autoUnlocking_autoUnlockPin E cfg request).wordless.memory hpin
    cases pin with
    | some name =>
      obtain ⟨approved, hanswer, hkept⟩ := prompted_path hrest
      exact ⟨approved, (hanswer.prepend hmid).prepend hpre, hkept.trans (hmem'.trans hmem)⟩
    | none =>
      have hno' := not_unlocked_of_autoUnlockPin (reaches_ret.1 hpin.reaches)
      obtain ⟨rfl, -⟩ := steps_broadcast hrest
      simp [hno, hno'] at hunlock

/-! ### The path on an unlocked vault -/

/-- What the unlocked path leaves in an empty memory. -/
def remembered (cfg : Config) (request : SshAgentUIRequest) (approved : Bool) : List (String × String) :=
  if approved && remembers cfg request then (memoryKey request).toList else []

theorem not_found_in_empty {u u' : Daemon} {found : Bool} (hempty : u.authorizationMemory = [])
    (h : Steps (machine E) (approvedFromMemory cfg request) u tr (.ret found) u') : found = false := by
  unfold approvedFromMemory at h
  split at h
  · split at h
    · cases h with
      | step ha h =>
        cases h
        refine Bool.eq_false_iff.2 fun hfound => ?_
        have hmem := ha hfound
        rw [hempty] at hmem
        cases hmem
    · cases h
      rfl
  · cases h
    rfl

theorem memory_rememberApproval {u u' : Daemon} (hempty : u.authorizationMemory = [])
    (h : Steps (machine E) (rememberApproval cfg request approved) u tr (.ret ()) u') :
    u'.authorizationMemory = remembered cfg request approved ∧
      ∀ e ∈ tr, ∃ key, e = ⟨.insertMemory key, ()⟩ := by
  unfold rememberApproval at h
  unfold remembered
  split at h
  · rename_i hremembers
    rw [if_pos hremembers]
    split at h
    · rename_i key hkey
      rw [hkey]
      cases h with
      | step ha h =>
        cases h
        refine ⟨?_, fun e he => ⟨key, List.mem_singleton.1 he⟩⟩
        show u.authorizationMemory.insert key = [key]
        rw [hempty]
        rfl
    · rename_i hkey
      rw [hkey]
      cases h
      exact ⟨hempty, by simp⟩
  · rename_i hremembers
    rw [if_neg hremembers]
    cases h
    exact ⟨hempty, by simp⟩

theorem wordless_approvedFromMemory (cfg : Config) (request : SshAgentUIRequest) :
    Wordless (approvedFromMemory cfg request) := by
  refine .ite ?_ trivial
  split
  · exact wordless_op rfl
  · trivial

theorem remembered_of_unprompted (h : needsPrompt cfg request = false) (approved : Bool) :
    remembered cfg request approved = [] := by
  obtain ⟨-, hnever⟩ := never_of_needsPrompt h
  simp [remembered, remembers, hnever]

/-- On a vault that is unlocked already the answer is the user's, and an approval is kept in the memory
where the setting says so. -/
theorem unlockedPath {u u' : Daemon} (hempty : u.authorizationMemory = [])
    (h : Steps (machine E) (handleUnlockedRequest cfg request) u tr (.ret ()) u') :
    ∃ approved, PathAnswer cfg request tr approved ∧ u'.authorizationMemory = remembered cfg request approved := by
  obtain ⟨pre, rest, found, u₁, hfound, hrest, rfl⟩ := h.of_bind
  have hpre := (wordless_approvedFromMemory cfg request).events hfound
  have hmem₁ := ((wordless_approvedFromMemory cfg request).memory hfound).trans hempty
  obtain rfl := not_found_in_empty hempty hfound
  rw [if_neg Bool.false_ne_true] at hrest
  by_cases hneeds : needsPrompt cfg request = true
  · rw [hneeds, Bool.not_true, if_neg Bool.false_ne_true] at hrest
    obtain ⟨names, post, _, u₂, hnames, hprompt, rfl⟩ := hrest.of_bind
    have hnames' := (wordless_op rfl : Wordless (op .tryReadKeyNames)).events hnames
    have hmem₂ := ((wordless_op rfl : Wordless (op .tryReadKeyNames)).memory hnames).trans hmem₁
    obtain ⟨asked, post, approved, u₃, hasked, hremember, rfl⟩ := hprompt.of_bind
    have hmem₃ := ((routine_promptAuthorizationWithBindFlow _ _ _).keepsCore.memory hasked).trans hmem₂
    obtain ⟨kept, last, _, u₄, hkept, hlast, rfl⟩ := hremember.of_bind
    obtain ⟨hmem₄, hinserts⟩ := memory_rememberApproval hmem₃ hkept
    obtain ⟨rfl, hmem⟩ := steps_broadcast hlast
    have hanswer : PathAnswer cfg request
        (asked ++ (kept ++ [⟨.broadcast request.requestId approved, ()⟩])) approved := by
      refine pathAnswer_of_prompt hneeds (reaches_ret.1 hasked.reaches) fun e he => ?_
      obtain ⟨key, rfl⟩ := hinserts e he
      exact ⟨rfl, by simp⟩
    exact ⟨approved, (hanswer.prepend hnames').prepend hpre, hmem.trans hmem₄⟩
  · have hneeds : needsPrompt cfg request = false := by simpa using hneeds
    rw [hneeds, Bool.not_false, if_pos rfl] at hrest
    obtain ⟨rfl, hmem⟩ := steps_broadcast hrest
    refine ⟨true, (pathAnswer_unprompted hneeds).prepend hpre, ?_⟩
    rw [remembered_of_unprompted hneeds]
    exact hmem.trans hmem₁

/-! ### The two paths side by side -/

/-- One sign request, handled from an empty memory on a locked vault that unlocks on request and on a vault
that is unlocked already, with the same answer of the user. -/
structure BothPaths (E : Crates) (cfg : Config) (request : SshAgentUIRequest) (s s' u u' : Daemon)
    (tr tr' : List Event) : Prop where
  sign : request.isList = false
  auto : cfg.autoUnlockOnRequest = true
  locked : s.vaultLocked = true
  unlocked : u.vaultLocked = false
  lockedEmpty : s.authorizationMemory = []
  unlockedEmpty : u.authorizationMemory = []
  lockedRun : Steps (machine E) (handleUiRequest E cfg request) s tr (.ret ()) s'
  unlockedRun : Steps (machine E) (handleUiRequest E cfg request) u tr' (.ret ()) u'
  unlocks : unlockEvent ∈ tr
  user : UserApproved request tr ↔ UserApproved request tr'

/-- The same broadcast, and the same memory for the requests to come. -/
def PathsAgree (request : SshAgentUIRequest) (s' u' : Daemon) (tr tr' : List Event) : Prop :=
  (∀ b, (⟨.broadcast request.requestId b, ()⟩ : Event) ∈ tr ↔
      (⟨.broadcast request.requestId b, ()⟩ : Event) ∈ tr') ∧
    s'.authorizationMemory = u'.authorizationMemory

theorem steps_loadVaultLocked {s s' : Daemon} {locked : Bool}
    (h : Steps (machine E) (op .loadVaultLocked) s tr (.ret locked) s') :
    tr = [⟨.loadVaultLocked, s.vaultLocked⟩] ∧ locked = s.vaultLocked ∧ s' = s := by
  cases h with
  | step ha h =>
    cases h
    obtain rfl : locked = s.vaultLocked := ha
    exact ⟨rfl, rfl, rfl⟩

theorem BothPaths.ends {s s' u u' : Daemon} {tr' : List Event} (h : BothPaths E cfg request s s' u u' tr tr') :
    ∃ approved, PathAnswer cfg request tr approved ∧ PathAnswer cfg request tr' approved ∧
      s'.authorizationMemory = [] ∧ u'.authorizationMemory = remembered cfg request approved := by
  have hsign : handleUiRequest E cfg request = handleSignRequest E cfg request :=
    if_neg (by rw [h.sign]; exact Bool.false_ne_true)
  have hlocked := h.lockedRun
  have hunlocked := h.unlockedRun
  have hunlocks := h.unlocks
  have huser := h.user
  rw [hsign] at hlocked hunlocked
  obtain ⟨pre, rest, locked, s₁, hload, hrest, rfl⟩ := hlocked.of_bind
  obtain ⟨rfl, rfl, rfl⟩ := steps_loadVaultLocked hload
  rw [h.locked, h.auto, Bool.and_self, if_pos rfl] at hrest
  have hunlocks : unlockEvent ∈ rest := by simpa using hunlocks
  obtain ⟨approved, hanswer, hmem⟩ := lockedPath hrest hunlocks
  have hload₁ := (wordless_op rfl : Wordless (op .loadVaultLocked)).events hload
  have hanswer := hanswer.prepend hload₁
  obtain ⟨pre', rest', locked', u₁, hload', hrest', rfl⟩ := hunlocked.of_bind
  obtain ⟨rfl, rfl, rfl⟩ := steps_loadVaultLocked hload'
  rw [h.unlocked, Bool.false_and, if_neg Bool.false_ne_true] at hrest'
  obtain ⟨pre₂, rest₂, locked₂, u₂, hload₂, hrest₂, rfl⟩ := hrest'.of_bind
  obtain ⟨rfl, rfl, rfl⟩ := steps_loadVaultLocked hload₂
  rw [h.unlocked, if_neg Bool.false_ne_true] at hrest₂
  obtain ⟨approved', hanswer', hmem'⟩ := unlockedPath h.unlockedEmpty hrest₂
  have hload₃ := (wordless_op rfl : Wordless (op .loadVaultLocked)).events hload₂
  have hanswer' := (hanswer'.prepend hload₃).prepend hload₃
  obtain rfl : approved = approved' := by
    rw [Bool.eq_iff_iff, hanswer.user, hanswer'.user, huser]
  exact ⟨approved, hanswer, hanswer', hmem.trans h.lockedEmpty, hmem'⟩

theorem remembered_eq_nil_iff (h : PathAnswer cfg request tr approved) : remembered cfg request approved = [] ↔
    ¬(remembers cfg request = true ∧ request.cipherId.isSome = true ∧ UserApproved request tr) := by
  unfold remembered memoryKey
  by_cases hremembers : remembers cfg request = true
  · have hneeds : needsPrompt cfg request = true := by
      have hset : cfg.promptBehavior = .rememberUntilLock := by simpa using (Bool.and_eq_true_iff.1 hremembers).2
      simp [needsPrompt, hset]
    have huser : approved = true ↔ UserApproved request tr := by
      rw [h.user, hneeds]
      simp
    rw [← huser, hremembers]
    cases approved <;> cases request.cipherId <;> simp
  · simp [hremembers]

/-- The paths agree exactly where the user's approval is not to be remembered. -/
theorem answer_paths_agree_iff {s s' u u' : Daemon} {tr' : List Event}
    (h : BothPaths E cfg request s s' u u' tr tr') : PathsAgree request s' u' tr tr' ↔
      ¬(remembers cfg request = true ∧ request.cipherId.isSome = true ∧ UserApproved request tr) := by
  obtain ⟨approved, hlocked, hunlocked, hmem, hmem'⟩ := h.ends
  unfold PathsAgree
  rw [and_iff_right fun b => (hlocked.answered b).trans (hunlocked.answered b).symm, hmem, hmem', eq_comm]
  exact remembered_eq_nil_iff hlocked

def workRequest : SshAgentUIRequest where
  requestId := 1
  cipherId := some "item"
  processName := "ssh"
  pid := 1
  isList := false
  sigNamespace := none
  operationKind := .sshAuthentication
  isForwarding := false

def opensVault : Event → Bool
  | ⟨.storeVaultLocked false, ()⟩ => true
  | _ => false

def approves (request : SshAgentUIRequest) : Event → Bool
  | ⟨.authDialog info, .approved⟩ => info = signInfoForRequest request info.keyName
  | _ => false

/-- The trace of a request handled with the answers of `plainScript`. -/
def plainTrace (cfg : Config) (request : SshAgentUIRequest) (s : Daemon) : List Event :=
  Prog.trace (machine .plain) plainScript.answer enough (handleUiRequest .plain cfg request) s

def handled (cfg : Config) (request : SshAgentUIRequest) (s : Daemon) : DProg Unit × Daemon :=
  plainScript.run .plain enough (handleUiRequest .plain cfg request) s

/-- What makes two states the starting points of the two paths, with an approval on both. -/
def startsBothPaths (cfg : Config) (request : SshAgentUIRequest) (s u : Daemon) : Bool :=
  !request.isList && cfg.autoUnlockOnRequest && s.vaultLocked && !u.vaultLocked &&
    decide (s.authorizationMemory = []) && decide (u.authorizationMemory = []) &&
    (handled cfg request s).1.result?.isSome && (handled cfg request u).1.result?.isSome &&
    (plainTrace cfg request s).any opensVault && (plainTrace cfg request s).any (approves request) &&
    (plainTrace cfg request u).any (approves request)

theorem unlockEvent_mem (h : tr.any opensVault = true) : unlockEvent ∈ tr := by
  obtain ⟨e, he, hopens⟩ := List.any_eq_true.1 h
  unfold opensVault at hopens
  split at hopens
  · exact he
  · cases hopens

theorem userApproved_of_approves (h : tr.any (approves request) = true) : UserApproved request tr := by
  obtain ⟨e, he, happroves⟩ := List.any_eq_true.1 h
  unfold approves at happroves
  split at happroves
  · rename_i info
    have hinfo : info = signInfoForRequest request info.keyName := of_decide_eq_true happroves
    exact ⟨info, hinfo, .inl he⟩
  · cases happroves

theorem steps_handled {s : Daemon} (h : (handled cfg request s).1.result?.isSome = true) :
    Steps (machine .plain) (handleUiRequest .plain cfg request) s (plainTrace cfg request s) (.ret ())
      (handled cfg request s).2 := by
  obtain ⟨_, hret⟩ := Option.isSome_iff_exists.1 h
  rw [← eq_ret_of_result? hret]
  exact plainScript.run_steps .plain enough (handleUiRequest .plain cfg request) s

theorem bothPaths_of_starts {s u : Daemon} (h : startsBothPaths cfg request s u = true) :
    BothPaths .plain cfg request s (handled cfg request s).2 u (handled cfg request u).2
        (plainTrace cfg request s) (plainTrace cfg request u) ∧
      UserApproved request (plainTrace cfg request s) := by
  unfold startsBothPaths at h
  simp only [Bool.and_eq_true, Bool.not_eq_true', decide_eq_true_eq] at h
  obtain ⟨⟨⟨⟨⟨⟨⟨⟨⟨⟨hsign, hauto⟩, hlocked⟩, hunlocked⟩, hempty⟩, hempty'⟩, hret⟩, hret'⟩, hopens⟩, huser⟩,
    huser'⟩ := h
  have happroved := userApproved_of_approves huser
  exact ⟨⟨hsign, hauto, hlocked, hunlocked, hempty, hempty', steps_handled hret, steps_handled hret',
    unlockEvent_mem hopens, iff_of_true happroved (userApproved_of_approves huser')⟩, happroved⟩

/-- A device locked after its login, and the same device not locked. -/
def lockedAndNot (cfg : Config) : Option (Config × Daemon × Daemon) :=
  (afterLogin cfg []).bind fun unlocked =>
    (afterLogin cfg [.take (.control .lock) plainScript]).map fun locked => (unlocked.1, locked.2, unlocked.2)

def askAlways : Config := { plainConfig with promptBehavior := .always }

theorem starts_askAlways : (lockedAndNot askAlways).any (fun x =>
    startsBothPaths x.1 workRequest x.2.1 x.2.2 && !remembers x.1 workRequest) = true := by decide +kernel

theorem starts_plainConfig : (lockedAndNot plainConfig).any (fun x =>
    startsBothPaths x.1 workRequest x.2.1 x.2.2 && remembers x.1 workRequest) = true := by decide +kernel

/-- Where every request is asked about, the paths agree on an approval. -/
theorem answer_paths_agree_always : ∃ cfg s s' u u' tr tr', BothPaths .plain cfg workRequest s s' u u' tr tr' ∧
    PathsAgree workRequest s' u' tr tr' := by
  obtain ⟨⟨cfg, s, u⟩, -, hcheck⟩ := (Option.any_eq_true _ _).1 starts_askAlways
  obtain ⟨hstarts, hremembers⟩ := Bool.and_eq_true_iff.1 hcheck
  obtain ⟨hboth, -⟩ := bothPaths_of_starts hstarts
  refine ⟨cfg, s, _, u, _, _, _, hboth, (answer_paths_agree_iff hboth).2 fun h => ?_⟩
  rw [h.1] at hremembers
  cases hremembers

/-- Where approvals are remembered until the lock, the one given after an unlock on request is not. -/
theorem autoUnlocked_approval_forgotten : ¬∀ (E : Crates) (cfg : Config) (request : SshAgentUIRequest)
    (s s' u u' : Daemon) (tr tr' : List Event), BothPaths E cfg request s s' u u' tr tr' →
      PathsAgree request s' u' tr tr' := by
  intro h
  obtain ⟨⟨cfg, s, u⟩, -, hcheck⟩ := (Option.any_eq_true _ _).1 starts_plainConfig
  obtain ⟨hstarts, hremembers⟩ := Bool.and_eq_true_iff.1 hcheck
  obtain ⟨hboth, huser⟩ := bothPaths_of_starts hstarts
  obtain ⟨approved, hanswer, -, hmem, hmem'⟩ := hboth.ends
  have hagree := (h _ _ _ _ _ _ _ _ _ hboth).2
  rw [hmem, hmem', eq_comm] at hagree
  exact (remembered_eq_nil_iff hanswer).1 hagree ⟨hremembers, rfl, huser⟩

end

end SshWarden
