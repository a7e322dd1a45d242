import SshWarden.Approvals
import SshWarden.KeyApprovals
import SshWarden.MainSteps
import SshWarden.MemoryEpochs

/-!
# Signatures and consent

The calls of the agent (`confirm`, `can_list`) run beside the daemon: what a call sends is received by the main
loop, which spawns a handler for it, and what a handler broadcasts is heard by all calls. `Signing.Step` puts
`Approvals` and `daemonLoop` together. The calls do what `Approvals` says they may do, with the handlers for the
answers (`Signing.Leads.linked`).
-/

namespace SshWarden
open Prog

abbrev HandlerLog : Type := Loop.TaskLog loopSig Daemon SshAgentUIRequest

/-- The operation a step is; the steps of the agent's updates are none. -/
def operation? : LoopEvent → Option Event
  | ⟨.atomic (.op o), a⟩ => some ⟨o, a⟩
  | _ => none

/-- What a handler has done. -/
def performed (x : HandlerLog) : List Event := x.events.filterMap operation?

/-- The user has approved a request for this item and operation that came from this machine. -/
def Remembered (t : List HandlerLog) (key : String × String) : Prop :=
  ∃ x ∈ t, memoryKey x.request = some key ∧ x.request.isForwarding = false ∧ UserApproved x.request (performed x)

/-- The user has approved the request, or the settings spare a local request the prompt, or they spare it a
second prompt for the same item and operation. -/
def Consented (cfg : Config) (t : List HandlerLog) (x : HandlerLog) : Prop :=
  UserApproved x.request (performed x) ∨
    (x.request.isForwarding = false ∧ cfg.promptBehavior = .never) ∨
    (x.request.isForwarding = false ∧ cfg.promptBehavior = .rememberUntilLock ∧
      ∃ key, memoryKey x.request = some key ∧ Remembered t key)

/-- The handler has found the vault unlocked, or has put keys into the agent and lowered the flag itself. -/
def FoundUnlocked (x : HandlerLog) : Prop :=
  (∃ s, (s, (⟨.atomic (.op .loadVaultLocked), false⟩ : LoopEvent)) ∈ x.seen ∧ s.vaultLocked = false) ∨
    ∃ pre keys loaded post, x.events = pre ++ loaded ++ post ∧ Runs (inSteps (.agentSetKeys keys)) loaded true ∧
      (⟨.atomic (.op (.storeVaultLocked false)), ()⟩ : LoopEvent) ∈ post

/-- The calls of the agent, the daemon, what its handlers have done, and the calls whose requests they handle. -/
structure Signing where
  approvals : Approvals
  daemon : DaemonConf
  handlers : List HandlerLog := []
  asked : List Nat := []

namespace Signing

/-- What the calls do by themselves. -/
def isCall : Approvals.Action → Bool
  | .enter .. | .move .. | .closeChannel => true
  | _ => false

/-- The calls read the flags of the daemon's agent. -/
def follow (a : Approvals) (agent : Agent) : Approvals :=
  { a with running := agent.isRunning, needsUnlock := agent.needsUnlock }

/-- What a step broadcasts. -/
def broadcast? : LoopEvent → Option (UInt32 × Bool)
  | ⟨.atomic (.op (.broadcast id approved)), _⟩ => some (id, approved)
  | _ => none

/-- A broadcast reaches all calls. That of a handler is the answer to its call. -/
def hear (a : Approvals) (asked : List Nat) : DaemonMove → Approvals
  | .main e => { a with broadcasts := a.broadcasts ++ (broadcast? e).toList }
  | .task i e =>
    match broadcast? e, asked[i]? with
    | some response, some j =>
      { a with
        broadcasts := a.broadcasts ++ [response]
        calls := Function.update a.calls j ((a.calls j).map fun c => { c with answer := some response.2 }) }
    | some response, none => { a with broadcasts := a.broadcasts ++ [response] }
    | none, _ => a
  | _ => a

/-- The serve task of the agent has exited, or the agent has been stopped. -/
inductive Exits (agent : Agent) : Agent → Prop
  | exited : Exits agent { agent with isRunning := false }
  | stopped : Exits agent { agent with isRunning := false, keystore := [] }

/-- Calls, the main loop and the handlers take their steps in any order. Each request is received once. -/
inductive Step (E : Crates) (cfg : Config) (G : Approvals → Approvals.Action → Prop) (x : Signing) : Signing → Prop
  | call {a : Approvals.Action} {approvals : Approvals} (ha : isCall a = true) (hG : G x.approvals a)
      (h : x.approvals.step a = some approvals) : Step E cfg G x { x with approvals := approvals }
  | spawn {i : Nat} {c : AgentCall} {request : SshAgentUIRequest} {d : DaemonConf}
      (hc : x.approvals.calls i = some c) (hsent : c.sent = some request) (hnew : i ∉ x.asked)
      (h : Loop.Step (daemonLoop E cfg) x.daemon (.spawn request) d) :
      Step E cfg G x
        { approvals := follow x.approvals d.state.agent
          daemon := d
          handlers := Loop.noteTasks x.handlers x.daemon (.spawn request : DaemonMove)
          asked := x.asked ++ [i] }
  | daemon {m : DaemonMove} {d : DaemonConf} (hm : ∀ request, m ≠ .spawn request)
      (h : Loop.Step (daemonLoop E cfg) x.daemon m d) :
      Step E cfg G x
        { approvals := follow (hear x.approvals x.asked m) d.state.agent
          daemon := d
          handlers := Loop.noteTasks x.handlers x.daemon m
          asked := x.asked }
  | exits {agent : Agent} (h : Exits x.daemon.state.agent agent) :
      Step E cfg G x
        { x with
          approvals := follow x.approvals agent
          daemon := { x.daemon with state.agent := agent } }

/-- No call has been made yet. -/
def initial (s : Daemon) : Signing where
  approvals := follow { started := true } s.agent
  daemon := beforeRequests s

/-- The system comes from one state to another. -/
inductive Leads (E : Crates) (cfg : Config) (G : Approvals → Approvals.Action → Prop) (x₀ : Signing) :
    Signing → Prop
  | refl : Leads E cfg G x₀ x₀
  | step {x x' : Signing} (h : Leads E cfg G x₀ x) (hs : Step E cfg G x x') : Leads E cfg G x₀ x'

end Signing

/-! ### The operations behind the steps -/

/-- The updates of the agent, none of whose steps is an operation. -/
def Op.isAgentUpdate : Op → Bool
  | agentSetKeys _ | agentSetPublicIdentities _ | agentLock | agentClearKeys => true
  | _ => false

variable {E : Crates} {cfg : Config} {ops : List Event} {steps tr rest : List LoopEvent}

theorem mem_inSteps {o : Op} {a : o.Ans} {seg : List LoopEvent} (h : Runs (inSteps o) seg a)
    (ho : o.isAgentUpdate = false) : (⟨.atomic (.op o), a⟩ : LoopEvent) ∈ seg := by
  cases o with
  | agentSetKeys _ | agentSetPublicIdentities _ | agentLock | agentClearKeys => cases ho
  | authDialog info =>
    obtain ⟨u, tr, rfl, hasked⟩ := runs_perform_bind.1 h
    obtain rfl := runs_perform.1 hasked
    exact .tail _ (.head _)
  | _ =>
    obtain rfl := runs_perform.1 h
    exact .head _

theorem mem_of_expanded (h : Expanded inSteps ops steps) {e : Event} (he : e ∈ ops)
    (hu : e.1.isAgentUpdate = false) :
    (⟨.atomic (.op e.1), e.2⟩ : LoopEvent) ∈ steps := by
  induction h with
  | nil => cases he
  | cons hseg _ ih =>
    rcases List.mem_cons.1 he with rfl | he
    · exact List.mem_append_left _ (mem_inSteps hseg hu)
    · exact List.mem_append_right _ (ih he)

theorem mem_operations {x : HandlerLog} {o : Op} {a : o.Ans} :
    (⟨o, a⟩ : Event) ∈ performed x ↔ (⟨.atomic (.op o), a⟩ : LoopEvent) ∈ x.events := by
  constructor
  · intro h
    obtain ⟨⟨o', a'⟩, hmem, hop⟩ := List.mem_filterMap.1 h
    cases o' with
    | openPrompt => cases hop
    | atomic o' =>
      cases o' with
      | op o' => cases hop; exact hmem
      | _ => cases hop
  · exact fun h => List.mem_filterMap.2 ⟨_, h, rfl⟩

/-- An operation of one step is found among the steps of no other operation. -/
theorem eq_of_mem_inSteps {o o' : Op} {a : o.Ans} {a' : o'.Ans} {seg : List LoopEvent}
    (h : Runs (inSteps o') seg a')
    (ho : o.isStaged = false) (hm : (⟨.atomic (.op o), a⟩ : LoopEvent) ∈ seg) :
    seg = [⟨.atomic (.op o), a⟩] ∧ (⟨o', a'⟩ : Event) = ⟨o, a⟩ := by
  cases ho' : o'.isStaged with
  | true =>
    have honly := only_inSteps (P := fun x => x.isInner = true ∨ x = .atomic (.op o')) (fun _ => .inl) (.inr rfl)
    rcases honly.mem_runs h _ hm with hinner | heq
    · cases hinner
    · obtain rfl : o = o' := by injection heq with heq; injection heq
      exact (Bool.false_ne_true (ho.symm.trans ho')).elim
  | false =>
    rw [inSteps_of_not_isStaged ho'] at h
    obtain rfl := runs_perform.1 h
    obtain heq := List.mem_singleton.1 hm
    injection heq with hop hans
    injection hop with hop
    injection hop with hop
    subst hop
    obtain rfl := eq_of_heq hans
    exact ⟨rfl, rfl⟩

/-- Where the steps perform an operation of one step, the operations perform it as well. -/
theorem split_expanded {o : Op} {a : o.Ans} (h : Expanded inSteps ops (tr ++ ⟨.atomic (.op o), a⟩ :: rest))
    (ho : o.isStaged = false) :
    ∃ pre post, ops = pre ++ ⟨o, a⟩ :: post ∧ Expanded inSteps pre tr ∧ Expanded inSteps post rest := by
  generalize hsteps : tr ++ ⟨.atomic (.op o), a⟩ :: rest = steps at h
  induction h generalizing tr with
  | nil => exact absurd hsteps (by simp)
  | @cons o' a' seg ops steps hseg h ih =>
    rcases append_eq_append_cons hsteps.symm with ⟨c, hc, rfl⟩ | ⟨c, rfl, hc⟩
    · obtain ⟨hone, heq⟩ := eq_of_mem_inSteps hseg ho (hc ▸ List.mem_append_right _ (List.mem_cons_self ..))
      rw [hone] at hc
      obtain ⟨rfl, rfl⟩ : tr = [] ∧ c = [] := by
        cases tr with
        | nil => exact ⟨rfl, (List.cons.inj hc).2.symm⟩
        | cons x tr => exact absurd (List.cons.inj hc).2 (by simp)
      exact ⟨[], ops, by rw [heq]; rfl, .nil, h⟩
    · obtain ⟨pre, post, rfl, hpre, hpost⟩ := ih hc.symm
      exact ⟨⟨o', a'⟩ :: pre, post, rfl, .cons hseg hpre, hpost⟩

section
variable {request : SshAgentUIRequest} {key : String × String} {pre post : List Event} {id : UInt32}
    {approved : Bool}

theorem exists_complete (p : LProg Unit) : ∃ tr, Runs p tr () := by
  obtain ⟨tr, _, h, -⟩ := exists_runs (fun _ o => plainScript.loopAnswer o {}) p []
  exact ⟨tr, h⟩

/-- A handler about to perform an operation of one step is in the midst of a run of its operations. -/
theorem operations_of_reaches {o : Op} {k : o.Ans → LProg Unit}
    (h : Reaches ((daemonLoop E cfg).serve request) tr (.vis (.atomic (.op o)) k)) (ho : o.isStaged = false)
    (a : o.Ans) :
    ∃ pre post, Runs (handleUiRequest E cfg request) (pre ++ ⟨o, a⟩ :: post) () ∧ Expanded inSteps pre tr := by
  obtain ⟨rest, hrest⟩ := exists_complete (k a)
  have hall : Runs ((daemonLoop E cfg).serve request) (tr ++ ⟨.atomic (.op o), a⟩ :: rest) () :=
    reaches_ret.1 (Reaches.append_iff.2 ⟨_, h, .vis (reaches_ret.2 hrest)⟩)
  obtain ⟨ops, hops, hexpanded⟩ := runs_expand.1 hall
  obtain ⟨pre, post, rfl, hpre, -⟩ := split_expanded hexpanded ho
  exact ⟨pre, post, hops, hpre⟩

/-- An approval is remembered right after the user has given it. -/
theorem userApproved_of_remembered
    (h : Runs (handleUiRequest E cfg request) (pre ++ ⟨.insertMemory key, ()⟩ :: post) ()) :
    memoryKey request = some key ∧ request.isForwarding = false ∧ UserApproved request pre := by
  have hmem : (⟨.insertMemory key, ()⟩ : Event) ∈ pre ++ ⟨.insertMemory key, ()⟩ :: post :=
    List.mem_append_right _ (List.mem_cons_self ..)
  have hnone : ∀ {α : Type} {p : DProg α} {tr a}, RemembersNothing p → Runs p tr a →
      ∀ e ∈ tr, ¬e.1.remembers = true :=
    fun hp hr e he => Bool.eq_false_iff.1 (hp.mem_runs hr e he)
  have hsilent : ∀ {α : Type} {p : DProg α}, Prompting p → RemembersNothing p := fun hp =>
    hp.mono fun o ho => by cases o <;> first | rfl | exact absurd ho Bool.false_ne_true
  have hlocked : RemembersNothing (handleLockedRequest E cfg request) :=
    (leavesMemory_handleLockedRequest E cfg request).mono fun o ho => by
      cases o <;> first | rfl | exact absurd ho Bool.false_ne_true
  generalize htr : pre ++ ⟨.insertMemory key, ()⟩ :: post = tr at h hmem
  rcases runs_ite.1 h with ⟨-, h⟩ | ⟨-, h⟩
  · have hlist : RemembersNothing (handleListRequest request) :=
      .bind (only_op rfl) fun _ => .bind (only_op rfl) fun _ => only_op rfl
    exact absurd rfl (hnone hlist h _ hmem)
  obtain ⟨locked, tr₁, rfl, h₁⟩ := runs_perform_bind.1 h
  have hmem₁ : (⟨.insertMemory key, ()⟩ : Event) ∈ tr₁ := by simpa using hmem
  rcases runs_ite.1 h₁ with ⟨-, h₂⟩ | ⟨-, h₂⟩
  · exact absurd rfl (hnone hlocked h₂ _ hmem₁)
  obtain ⟨locked', tr₂, rfl, h₃⟩ := runs_perform_bind.1 h₂
  rcases runs_ite.1 h₃ with ⟨-, h₄⟩ | ⟨-, h₄⟩
  · obtain rfl := runs_perform.1 h₄
    simp at hmem₁
  obtain ⟨tr₃, tr₄, found, rfl, hfound, h₅⟩ := runs_bind.1 h₄
  have hquiet₃ := hnone (hsilent (prompting_approvedFromMemory cfg request)) hfound
  have hend : ∀ {b tr}, Runs (op (.broadcast request.requestId b)) tr () →
      (⟨.insertMemory key, ()⟩ : Event) ∉ tr := by
    intro b tr hr
    obtain rfl := runs_perform.1 hr
    simp
  have hmem₄ : (⟨.insertMemory key, ()⟩ : Event) ∈ tr₄ := by
    have hin : (⟨.insertMemory key, ()⟩ : Event) ∈ tr₃ ++ tr₄ := by simpa using hmem₁
    exact (List.mem_append.1 hin).resolve_left fun hno => hquiet₃ _ hno rfl
  rcases runs_ite.1 h₅ with ⟨-, h₆⟩ | ⟨-, h₆⟩
  · exact absurd hmem₄ (hend h₆)
  rcases runs_ite.1 h₆ with ⟨-, h₇⟩ | ⟨-, h₇⟩
  · exact absurd hmem₄ (hend h₇)
  obtain ⟨names, tr₅, rfl, h₈⟩ := runs_perform_bind.1 h₇
  obtain ⟨tr₆, tr₇, ok, rfl, hprompt, h₉⟩ := runs_bind.1 h₈
  obtain ⟨tr₈, tr₉, _, rfl, hremember, hanswer⟩ := runs_bind.1 h₉
  have hquiet₆ := hnone (hsilent (prompting_promptAuthorizationWithBindFlow _ _ _)) hprompt
  have hmem₈ : (⟨.insertMemory key, ()⟩ : Event) ∈ tr₈ := by
    have hin : (⟨.insertMemory key, ()⟩ : Event) ∈ tr₆ ++ (tr₈ ++ tr₉) := by simpa using hmem₄
    have hright := (List.mem_append.1 hin).resolve_left fun hno => hquiet₆ _ hno rfl
    exact (List.mem_append.1 hright).resolve_right (hend hanswer)
  rcases runs_ite.1 hremember with ⟨hc, hins⟩ | ⟨-, hins⟩
  · obtain ⟨rfl, hlocal, hbehavior⟩ : ok = true ∧ request.isForwarding = false ∧
        cfg.promptBehavior = .rememberUntilLock := by
      simpa [remembers] using hc
    cases hkey : memoryKey request with
    | none =>
      rw [hkey] at hins
      obtain ⟨rfl, -⟩ := runs_ret.1 hins
      cases hmem₈
    | some key' =>
      rw [hkey] at hins
      obtain rfl := runs_perform.1 hins
      obtain rfl : key = key' := by simpa using hmem₈
      obtain rfl := runs_perform.1 hanswer
      have hevents : ([⟨.loadVaultLocked, locked⟩, ⟨.loadVaultLocked, locked'⟩] ++ tr₃ ++
        ⟨.tryReadKeyNames, names⟩ :: tr₆) ++
          ⟨.insertMemory key, ()⟩ :: [⟨.broadcast request.requestId true, ()⟩] = pre ++
            ⟨.insertMemory key, ()⟩ :: post := by
        rw [htr]
        simp
      have hcut := append_cons_inj (P := fun e : Event => e.1.remembers = true) hevents rfl ?_ ?_
      · refine ⟨rfl, hlocal, ?_⟩
        rw [← hcut.1]
        exact ((userApproved_of_runs hprompt).append_left [_]).append_left _
      · intro e he
        rcases List.mem_append.1 he with he | he
        · rcases List.mem_append.1 he with he | he
          · rcases List.mem_cons.1 he with rfl | he
            · exact Bool.false_ne_true
            · obtain rfl := List.mem_singleton.1 he
              exact Bool.false_ne_true
          · exact hquiet₃ e he
        · rcases List.mem_cons.1 he with rfl | he
          · exact Bool.false_ne_true
          · exact hquiet₆ e he
      · intro e he
        obtain rfl := List.mem_singleton.1 he
        exact Bool.false_ne_true
  · obtain ⟨rfl, -⟩ := runs_ret.1 hins
    cases hmem₈

/-- A handler answers at its end, a list request with an approval and a sign request by the policy. -/
theorem answersOnce_of_runs {ops : List Event} (h : Runs (handleUiRequest E cfg request) ops ()) :
    ∃ approved pre, AnswersOnce request approved pre ops ∧ (request.isList = true → approved = true) ∧
      (request.isList = false → approved = true → MayApprove cfg request pre) := by
  rcases runs_ite.1 h with ⟨hl, h₁⟩ | ⟨hl, h₁⟩
  · obtain ⟨locked, tr₁, rfl, h₂⟩ := runs_perform_bind.1 h₁
    obtain ⟨_, tr₂, rfl, h₃⟩ := runs_perform_bind.1 h₂
    obtain rfl := runs_perform.1 h₃
    refine ⟨true, [_, _], ⟨rfl, fun id b hm => ?_⟩, fun _ => rfl, fun hno => absurd hl (by simp [hno])⟩
    simp at hm
  · obtain ⟨approved, pre, hanswers, hpolicy⟩ := answersByPolicy_of_sign h₁
    exact ⟨approved, pre, hanswers, fun hlist => absurd hlist hl, fun _ => hpolicy⟩

/-- What has come before an answer. -/
structure Answers (cfg : Config) (request : SshAgentUIRequest) (id : UInt32) (approved : Bool)
    (tr : List LoopEvent) : Prop
    where
  own : id = request.requestId
  first : ∀ id b, (⟨.atomic (.op (.broadcast id b)), ()⟩ : LoopEvent) ∉ tr
  listed : request.isList = true → approved = true
  policy : request.isList = false → approved = true → ∃ ops, Expanded inSteps ops tr ∧ MayApprove cfg request ops

theorem answers_of_reaches {k : Unit → LProg Unit}
    (h : Reaches ((daemonLoop E cfg).serve request) tr (.vis (.atomic (.op (.broadcast id approved))) k)) :
    Answers cfg request id approved tr := by
  obtain ⟨pre, post, hops, hexpanded⟩ := operations_of_reaches h rfl ()
  obtain ⟨approved', pre', ⟨hall, hfirst⟩, hlisted, hpolicy⟩ := answersOnce_of_runs hops
  obtain ⟨rfl, heq⟩ := append_cons_inj (P := fun e : Event => ∃ id b, e = ⟨.broadcast id b, ()⟩) hall.symm
    ⟨id, approved, rfl⟩ (fun e he ⟨id', b', hb⟩ => hfirst id' b' (hb ▸ he)) (fun e he => by cases he)
  have hlast := (List.cons.inj heq).1
  injection hlast with hop
  injection hop with hid happroved
  subst hid
  subst happroved
  refine ⟨rfl, fun id' b' hm => ?_, hlisted, fun hsign hyes => ⟨_, hexpanded, hpolicy hsign hyes⟩⟩
  obtain ⟨before, after, rfl⟩ := List.append_of_mem hm
  obtain ⟨pre₁, post₁, rfl, -, -⟩ := split_expanded hexpanded rfl
  exact hfirst id' b' (List.mem_append_right _ (List.mem_cons_self ..))

/-- A handler that has come to its end has answered. -/
theorem exists_answer_of_runs (h : Runs ((daemonLoop E cfg).serve request) tr ()) :
    ∃ approved, (⟨.atomic (.op (.broadcast request.requestId approved)), ()⟩ : LoopEvent) ∈ tr := by
  obtain ⟨ops, hops, hexpanded⟩ := runs_expand.1 h
  obtain ⟨approved, pre, ⟨rfl, -⟩, -⟩ := answersOnce_of_runs hops
  exact ⟨approved, mem_of_expanded hexpanded (List.mem_append_right _ (List.mem_singleton_self _)) rfl⟩

end

section
variable {x : HandlerLog} {t : List HandlerLog}

theorem mem_performed_of_expanded (h : Expanded inSteps ops x.events) {o : Op} {a : o.Ans}
    (he : (⟨o, a⟩ : Event) ∈ ops)
    (hu : o.isAgentUpdate = false) : (⟨o, a⟩ : Event) ∈ performed x :=
  mem_operations.2 (mem_of_expanded h he hu)

theorem UserApproved.performed (h : UserApproved x.request ops) (he : Expanded inSteps ops x.events) :
    UserApproved x.request (performed x) := by
  obtain ⟨info, hinfo, h⟩ := h
  refine ⟨info, hinfo, h.imp (fun hm => mem_performed_of_expanded he hm rfl) ?_⟩
  rintro ⟨hbind, dialog, payload, hid, hsave, hdialog, hpersist⟩
  exact ⟨mem_performed_of_expanded he hbind rfl, dialog, payload, hid, hsave,
    mem_performed_of_expanded he hdialog rfl,
    mem_performed_of_expanded he hpersist rfl⟩

theorem SawUnlocked.found (h : SawUnlocked ops) (he : Expanded inSteps ops x.events)
    (hready : ∀ y ∈ x.seen, loopReady E y.2.1 y.1 y.2.2) : FoundUnlocked x := by
  rcases h with hm | ⟨keys, hsub⟩
  · obtain ⟨⟨s, e⟩, hy, rfl⟩ := List.mem_map.1 (mem_of_expanded he hm rfl)
    exact .inl ⟨s, hy, (hready _ hy).symm⟩
  · refine .inr ?_
    obtain ⟨before, after, rfl, hmem, hafter⟩ := List.cons_sublist_iff.1 hsub
    obtain ⟨ops₁, ops₂, rfl⟩ := List.append_of_mem hmem
    have hstore : (⟨.storeVaultLocked false, ()⟩ : Event) ∈ ops₂ ++ after :=
      List.mem_append_right _ (List.singleton_sublist.1 hafter)
    rw [List.append_assoc] at he
    obtain ⟨pre, rest, hall, -, hrest⟩ := he.append_inv
    rw [List.cons_append] at hrest
    generalize hl : ops₂ ++ after = ops₃ at hrest hstore
    cases hrest with
    | @cons _ _ seg _ post hseg hpost =>
      exact ⟨pre, keys, seg, post, by rw [hall, List.append_assoc], hseg, mem_of_expanded hpost hstore rfl⟩

/-- More handlers, and longer logs, remember what fewer did. -/
theorem Remembered.mono {t' : List HandlerLog} {key : String × String} (h : Remembered t key)
    (ht : ∀ x ∈ t, ∃ x' ∈ t', x'.request = x.request ∧ ∀ e ∈ performed x, e ∈ performed x') :
    Remembered t' key := by
  obtain ⟨x, hx, hkey, hlocal, info, hinfo, happroved⟩ := h
  obtain ⟨x', hx', hrequest, hsub⟩ := ht x hx
  refine ⟨x', hx', hrequest ▸ hkey, hrequest ▸ hlocal, info, hrequest ▸ hinfo, happroved.imp (hsub _) ?_⟩
  rintro ⟨hbind, dialog, payload, hid, hsave, hdialog, hpersist⟩
  exact ⟨hsub _ hbind, dialog, payload, hrequest ▸ hid, hsave, hsub _ hdialog, hsub _ hpersist⟩

end

/-! ### The memory goes back to the user -/

/-- The logs have only grown. -/
def Grown (t t' : List HandlerLog) : Prop :=
  ∀ x ∈ t, ∃ x' ∈ t', x'.request = x.request ∧ ∀ e ∈ performed x, e ∈ performed x'

theorem grown_noteTasks (t : List HandlerLog) (c : DaemonConf) (m : DaemonMove) :
    Grown t (Loop.noteTasks t c m) := by
  have hself : ∀ x ∈ t, x ∈ t → ∃ x' ∈ t, x'.request = x.request ∧ ∀ e ∈ performed x, e ∈ performed x' :=
    fun x _ hx =>
    ⟨x, hx, rfl, fun _ he => he⟩
  intro x hx
  cases m with
  | spawn r => exact ⟨x, List.mem_append_left _ hx, rfl, fun _ he => he⟩
  | task i e =>
    obtain ⟨j, hj⟩ := List.mem_iff_getElem?.1 hx
    have hnew := List.getElem?_modify (fun y : HandlerLog => { y with seen := y.seen ++ [(c.state, e)] }) i t j
    rw [hj] at hnew
    refine ⟨_, List.mem_of_getElem? hnew, ?_, fun e he => ?_⟩
    · dsimp only
      split <;> rfl
    · dsimp only
      split
      · exact List.mem_filterMap.2 (by
          obtain ⟨e', he', hop⟩ := List.mem_filterMap.1 he
          exact ⟨e', by simp [Loop.TaskLog.events] at he' ⊢; exact .inl he', hop⟩)
      · exact he
  | _ => exact hself x hx hx

/-- What is in the memory, and what a handler has found in it, the user has approved. -/
structure Recalled (s : Daemon) (t : List HandlerLog) : Prop where
  memory : ∀ key ∈ s.authorizationMemory, Remembered t key
  seen : ∀ x ∈ t, ∀ y ∈ x.seen, ∀ key ∈ y.1.authorizationMemory, Remembered t key

theorem Recalled.congr {s s' : Daemon} {t : List HandlerLog} (h : Recalled s t)
    (hs : s'.authorizationMemory = s.authorizationMemory) : Recalled s' t :=
  ⟨hs ▸ h.memory, h.seen⟩

/-- The steps of an event; the prompt and the inner steps of the agent's updates are no operations. -/
def LoopOp.isMainStep : LoopOp → Bool
  | atomic (.op o) => o.isMainStep
  | _ => true

abbrev MainOnly (p : LProg Unit) : Prop := Prog.Only (S := loopSig) (fun o : LoopOp => o.isMainStep = true) p

theorem mainOnly_handle (ev : MainEvent) : MainOnly ((daemonLoop E cfg).handle ev) :=
  (mainSteps_mainStep E cfg ev).expand fun o ho => only_inSteps (P := fun o => o.isMainStep = true)
    (fun o' h => by
      cases o' with
      | openPrompt => rfl
      | atomic o' => cases o' <;> first | rfl | exact absurd h Bool.false_ne_true) ho

theorem LoopOp.remembers_of_isMainStep {o : LoopOp} (h : o.isMainStep = true) : o.remembers = false := by
  cases o with
  | openPrompt => rfl
  | atomic o =>
    cases o with
    | op o => cases o <;> first | rfl | exact absurd h Bool.false_ne_true
    | _ => rfl

section
variable {c c' : DaemonConf} {t : List HandlerLog} {m : DaemonMove}

/-- An entry that a handler inserts is for its own request, which the user has approved. -/
theorem remembered_of_insert (hl : Loop.Logged (daemonLoop E cfg) c t) {i : Nat} {key : String × String}
    {k : Unit → LProg Unit} (hi : c.tasks[i]? = some (some (.vis (.atomic (.op (.insertMemory key))) k))) :
    Remembered t key := by
  obtain ⟨x, hx⟩ := hl.exists_log hi
  obtain ⟨pre, post, hops, he⟩ := operations_of_reaches (hl.running i x _ hx hi) rfl ()
  obtain ⟨hkey, hlocal, hu⟩ := userApproved_of_remembered hops
  exact ⟨x, List.mem_of_getElem? hx, hkey, hlocal, hu.performed he⟩

theorem Recalled.step (h : Recalled c.state t) (hl : Loop.Logged (daemonLoop E cfg) c t)
    (hmain : ∀ ev p, c.current = some (ev, p) → MainOnly p) (hs : Loop.Step (daemonLoop E cfg) c m c') :
    Recalled c'.state (Loop.noteTasks t c m) := by
  have hgrown := grown_noteTasks t c m
  have hmemory : ∀ key ∈ c.state.authorizationMemory, Remembered (Loop.noteTasks t c m) key := fun key hk =>
    (h.memory key hk).mono hgrown
  have hseen : ∀ x ∈ t, ∀ y ∈ x.seen, ∀ key ∈ y.1.authorizationMemory, Remembered (Loop.noteTasks t c m) key :=
    fun x hx y hy key hk => (h.seen x hx y hy key hk).mono hgrown
  cases hs with
  | take hr => exact ⟨fun key hk => hmemory key (by cases hr <;> exact hk), hseen⟩
  | @main s ts ev o k a ha =>
    have ho : o.isMainStep = true := (hmain ev _ rfl).1
    exact ⟨fun key hk => hmemory key (mem_of_loopNext (LoopOp.remembers_of_isMainStep ho) hk), hseen⟩
  | ends => exact ⟨hmemory, hseen⟩
  | drops hd => exact ⟨hmemory, hseen⟩
  | arrival ha => exact ⟨fun key hk => hmemory key (by cases ha; exact hk), hseen⟩
  | spawn =>
    refine ⟨hmemory, fun x hx y hy => ?_⟩
    rcases List.mem_append.1 hx with hx | hx
    · exact hseen x hx y hy
    · obtain rfl := List.mem_singleton.1 hx
      cases hy
  | @task s cur ts i o k a hi ha =>
    refine ⟨fun key hk => ?_, fun x hx y hy => ?_⟩
    · cases ho : o.remembers with
      | false => exact hmemory key (mem_of_loopNext ho hk)
      | true =>
        obtain ⟨key', rfl⟩ : ∃ key', o = .atomic (.op (.insertMemory key')) := by
          cases o with
          | openPrompt => cases ho
          | atomic o =>
            cases o with
            | op o => cases o <;> first | exact absurd ho Bool.false_ne_true | exact ⟨_, rfl⟩
            | _ => cases ho
        rcases List.mem_insert_iff.1 hk with rfl | hk
        · exact (remembered_of_insert hl hi).mono hgrown
        · exact hmemory key hk
    · obtain ⟨j, hj⟩ := List.mem_iff_getElem?.1 hx
      have hmod : (t.modify i fun y => { y with seen := y.seen ++ [(s, ⟨o, a⟩)] })[j]? = some x := hj
      rw [List.getElem?_modify] at hmod
      obtain ⟨z, hz, rfl⟩ := Option.map_eq_some_iff.1 hmod
      have hmem := List.mem_of_getElem? hz
      split at hy
      · rcases List.mem_append.1 hy with hy | hy
        · exact hseen z hmem y hy
        · obtain rfl := List.mem_singleton.1 hy
          exact hmemory
      · exact hseen z hmem y hy
  | finish hi => exact ⟨hmemory, hseen⟩

end

/-! ### The calls and their handlers -/

namespace Approvals
variable {s s' : Approvals} {c c' : AgentCall} {m : Move}

/-- The stages of a call that has sent its request. -/
def sentBefore : AgentCallStage → Bool
  | .waiting _ | .returned _ => true
  | _ => false

/-- A request that has been sent stays as it is. -/
theorem sent_of_advance (h : s.advance c m = some c') (hsent : c.sent.isSome = true → sentBefore c.stage = true) :
    (c'.sent.isSome = true → sentBefore c'.stage = true) ∧ ∀ r, c.sent = some r → c'.sent = some r := by
  have hlate : ∀ {stage}, c.stage = stage → sentBefore stage = false → c.sent = none := by
    intro stage hst hno
    subst hst
    cases hc : c.sent with
    | none => rfl
    | some r => exact (Bool.false_ne_true (hno.symm.trans (hsent (by rw [hc]; rfl)))).elim
  cases m with
  | check =>
    obtain ⟨hst, ⟨⟩⟩ := Option.ite_none_right_eq_some.1 h
    have hnone := hlate hst rfl
    exact ⟨fun hs => by simp [hnone] at hs, fun r hr => hr⟩
  | askId =>
    obtain ⟨hst, h⟩ := Option.ite_none_right_eq_some.1 h
    have hnone := hlate hst rfl
    split at h <;> obtain rfl := Option.some.inj h <;> exact ⟨fun hs => by simp [hnone] at hs, fun r hr => hr⟩
  | fetchAdd =>
    obtain ⟨hst, ⟨⟩⟩ := Option.ite_none_right_eq_some.1 h
    have hnone := hlate hst rfl
    exact ⟨fun hs => by simp [hnone] at hs, fun r hr => hr⟩
  | subscribe =>
    obtain ⟨hst, h⟩ := Option.ite_none_right_eq_some.1 h
    have hnone := hlate hst rfl
    split at h <;> obtain rfl := Option.some.inj h <;> exact ⟨fun hs => by simp [hnone] at hs, fun r hr => hr⟩
  | send =>
    dsimp only [advance] at h
    split at h
    · next next hst =>
      have hnone := hlate hst rfl
      split at h <;> obtain rfl := Option.some.inj h <;>
        exact ⟨fun _ => rfl, fun r hr => (Option.some_ne_none r (hr.symm.trans hnone)).elim⟩
    · cases h
  | receive =>
    dsimp only [advance] at h
    split at h
    · obtain ⟨response, -, h⟩ := Option.bind_eq_some_iff.1 h
      split at h <;> obtain rfl := Option.some.inj h <;> exact ⟨fun _ => rfl, fun r hr => hr⟩
    · cases h
  | receiveFails =>
    dsimp only [advance] at h
    split at h
    · obtain rfl := Option.some.inj h
      exact ⟨fun _ => rfl, fun r hr => hr⟩
    · cases h

end Approvals

namespace Signing

/-- The handler has broadcast this answer. -/
def Answered (x : HandlerLog) (approved : Bool) : Prop :=
  (⟨.atomic (.op (.broadcast x.request.requestId approved)), ()⟩ : LoopEvent) ∈ x.events

/-- The calls and the handlers tell the same story. -/
structure Linked (E : Crates) (cfg : Config) (G : Approvals → Approvals.Action → Prop) (x : Signing) : Prop where
  started : x.approvals.started = true
  running : x.approvals.running = x.daemon.state.agent.isRunning
  needsUnlock : x.approvals.needsUnlock = x.daemon.state.agent.needsUnlock
  logged : Loop.Logged (daemonLoop E cfg) x.daemon x.handlers
  main : ∀ ev p, x.daemon.current = some (ev, p) → MainOnly p
  recalled : Recalled x.daemon.state x.handlers
  length : x.asked.length = x.handlers.length
  nodup : x.asked.Nodup
  told : ∀ (i j : Nat) (h : HandlerLog), x.asked[i]? = some j → x.handlers[i]? = some h →
    ∃ c, x.approvals.calls j = some c ∧ c.sent = some h.request ∧ ∀ b, c.answer = some b ↔ Answered h b
  unasked : ∀ j c, x.approvals.calls j = some c → j ∉ x.asked → c.answer = none
  posted : ∀ j c, x.approvals.calls j = some c → c.sent.isSome = true → Approvals.sentBefore c.stage = true
  reach : Reach Approvals.step G {} x.approvals

/-- The condition is about the calls alone. -/
def CallsOnly (G : Approvals → Approvals.Action → Prop) : Prop := ∀ s a, isCall a = false → G s a

variable {G : Approvals → Approvals.Action → Prop} {x x' : Signing}

theorem follow_eq_self {a : Approvals} {agent : Agent} (hr : a.running = agent.isRunning)
    (hn : a.needsUnlock = agent.needsUnlock) : follow a agent = a := by
  rw [follow, ← hr, ← hn]

/-- New flags of the agent. -/
theorem reach_follow (hG : CallsOnly G) {s a : Approvals} (h : Reach Approvals.step G s a) {agent : Agent}
    (hr : agent.isRunning = true → a.running = true) : Reach Approvals.step G s (follow a agent) := by
  have hneeds : Reach Approvals.step G s { a with needsUnlock := agent.needsUnlock } :=
    h.step (a := .setNeedsUnlock agent.needsUnlock) (hG _ _ rfl) rfl
  cases hrun : agent.isRunning with
  | true =>
    have hsame : follow a agent = { a with needsUnlock := agent.needsUnlock } := by rw [follow, hrun, ← hr hrun]
    exact hsame ▸ hneeds
  | false =>
    have hstop : follow a agent = { a with needsUnlock := agent.needsUnlock, running := false } := by
      rw [follow, hrun]
    exact hstop ▸ hneeds.step (a := .serverExited) (hG _ _ rfl) rfl

/-- A call moves on by itself. -/
theorem Linked.call (h : Linked E cfg G x) {a : Approvals.Action} {approvals : Approvals} (ha : isCall a = true)
    (hG : G x.approvals a) (hs : x.approvals.step a = some approvals) :
    Linked E cfg G { x with approvals := approvals } := by
  have hreach := h.reach.step hG hs
  cases a with
  | enter i kind caller =>
    obtain ⟨hi, ⟨⟩⟩ := Option.ite_none_left_eq_some.1 hs
    have hnone : x.approvals.calls i = none := Option.not_isSome_iff_eq_none.1 hi
    refine ⟨h.started, h.running, h.needsUnlock, h.logged, h.main, h.recalled, h.length, h.nodup, ?_, ?_,
      ?_, hreach⟩
    · intro n j t hj ht
      obtain ⟨c, hc, hrest⟩ := h.told n j t hj ht
      have hne : j ≠ i := by rintro rfl; exact Option.some_ne_none c (hc.symm.trans hnone)
      exact ⟨c, (Function.update_of_ne hne ..).trans hc, hrest⟩
    · intro j c hj hno
      rcases Approvals.calls_update hj with ⟨-, hj⟩ | ⟨-, hj⟩
      · obtain rfl := Option.some.inj hj
        rfl
      · exact h.unasked j c hj hno
    · intro j c hj hsent
      rcases Approvals.calls_update hj with ⟨-, hj⟩ | ⟨-, hj⟩
      · obtain rfl := Option.some.inj hj
        cases hsent
      · exact h.posted j c hj hsent
  | move i m =>
    obtain ⟨c, hc, hs⟩ := Option.bind_eq_some_iff.1 hs
    obtain ⟨c', hadvance, ⟨⟩⟩ := Option.bind_eq_some_iff.1 hs
    obtain ⟨hposted, hsent⟩ := Approvals.sent_of_advance hadvance (h.posted i c hc)
    have hanswer := (Approvals.advance_cases hadvance).answer
    refine ⟨h.started, h.running, h.needsUnlock, h.logged, h.main, h.recalled, h.length, h.nodup, ?_, ?_,
      ?_, hreach⟩
    · intro n j t hj ht
      obtain ⟨c₁, hc₁, hsent₁, hanswer₁⟩ := h.told n j t hj ht
      by_cases hji : j = i
      · subst hji
        obtain rfl := Option.some.inj (hc.symm.trans hc₁)
        exact ⟨c', Function.update_self .., hsent _ hsent₁, hanswer ▸ hanswer₁⟩
      · exact ⟨c₁, (Function.update_of_ne hji ..).trans hc₁, hsent₁, hanswer₁⟩
    · intro j c₁ hj hno
      rcases Approvals.calls_update hj with ⟨hji, hnew⟩ | ⟨-, hj⟩
      · obtain rfl := Option.some.inj hnew
        exact hanswer.trans (h.unasked i c hc (hji ▸ hno))
      · exact h.unasked j c₁ hj hno
    · intro j c₁ hj hs₁
      rcases Approvals.calls_update hj with ⟨-, hj⟩ | ⟨-, hj⟩
      · obtain rfl := Option.some.inj hj
        exact hposted hs₁
      · exact h.posted j c₁ hj hs₁
  | closeChannel =>
    obtain rfl := Option.some.inj hs
    exact ⟨h.started, h.running, h.needsUnlock, h.logged, h.main, h.recalled, h.length, h.nodup, h.told, h.unasked,
      h.posted, hreach⟩
  | _ => cases ha

theorem of_spawn {request : SshAgentUIRequest} {c d : DaemonConf}
    (h : Loop.Step (daemonLoop E cfg) c (.spawn request) d) :
    d.current = none ∧ d.state.agent = c.state.agent := by
  cases h
  exact ⟨rfl, rfl⟩

/-- The request of a call is received and gets a handler. -/
theorem Linked.spawn (h : Linked E cfg G x) {i : Nat} {c : AgentCall} {request : SshAgentUIRequest}
    {d : DaemonConf}
    (hc : x.approvals.calls i = some c) (hsent : c.sent = some request) (hnew : i ∉ x.asked)
    (hs : Loop.Step (daemonLoop E cfg) x.daemon (.spawn request) d) :
    Linked E cfg G
      { approvals := follow x.approvals d.state.agent
        daemon := d
        handlers := Loop.noteTasks x.handlers x.daemon (.spawn request : DaemonMove)
        asked := x.asked ++ [i] } := by
  have hlogged := h.logged.step hs
  have hrecalled := h.recalled.step h.logged h.main hs
  obtain ⟨hnone, hagent⟩ := of_spawn hs
  have hmain : ∀ ev p, d.current = some (ev, p) → MainOnly p := fun ev p hcur =>
    (Option.some_ne_none _ (hcur.symm.trans hnone)).elim
  have hfollow : follow x.approvals d.state.agent = x.approvals :=
    follow_eq_self (hagent ▸ h.running) (hagent ▸ h.needsUnlock)
  rw [hfollow]
  refine ⟨h.started, hagent ▸ h.running, hagent ▸ h.needsUnlock, hlogged, hmain, hrecalled, ?_, ?_, ?_, ?_,
    h.posted,
    h.reach⟩
  · show (x.asked ++ [i]).length = (x.handlers ++ [_]).length
    rw [List.length_append, List.length_append, h.length]
    rfl
  · exact List.nodup_append.2 ⟨h.nodup, by simp, by
      rintro a ha b hb rfl
      exact hnew (List.mem_singleton.1 hb ▸ ha)⟩
  · intro n j t hj ht
    have hj' : (x.asked ++ [i])[n]? = some j := hj
    have ht' : (x.handlers ++ [({ request } : HandlerLog)])[n]? = some t := ht
    rcases Nat.lt_trichotomy n x.asked.length with hlt | heq | hgt
    · rw [List.getElem?_append_left hlt] at hj'
      rw [List.getElem?_append_left (h.length ▸ hlt)] at ht'
      exact h.told n j t hj' ht'
    · rw [heq, List.getElem?_concat_length] at hj'
      rw [heq, h.length, List.getElem?_concat_length] at ht'
      obtain rfl := Option.some.inj hj'
      obtain rfl := Option.some.inj ht'
      have hnone := h.unasked i c hc hnew
      refine ⟨c, hc, hsent, fun b =>
        ⟨fun hb => (Option.some_ne_none b (hb.symm.trans hnone)).elim, fun hb => by cases hb⟩⟩
    · rw [List.getElem?_eq_none (by simp; omega)] at hj'
      cases hj'
  · exact fun j c₁ hj hno => h.unasked j c₁ hj fun hin => hno (List.mem_append_left _ hin)

/-- A step that starts the agent. -/
def starts : LoopOp → Bool
  | .atomic (.op .startAgent) => true
  | _ => false

theorem isRunning_loopNext {s : Daemon} {o : LoopOp} (h : starts o = false) (a : o.Ans) :
    (loopNext E o s a).agent.isRunning = s.agent.isRunning := by
  cases o with
  | openPrompt => rfl
  | atomic o =>
    cases o with
    | op o =>
      cases o <;> first
        | exact absurd h.symm Bool.false_ne_true
        | rfl
        | exact Agent.setKeys_isRunning ..
        | exact Agent.setPublicIdentities_isRunning ..
        | exact Agent.lock_isRunning _
        | (cases a <;> rfl)
    | _ => rfl

theorem starts_serve (request : SshAgentUIRequest) :
    Only (S := loopSig) (fun o : LoopOp => starts o = false) ((daemonLoop E cfg).serve request) := by
  refine (requesting_handleUiRequest E cfg request).expand fun o ho => only_inSteps (fun o' h => ?_) ?_
  · cases o' with
    | openPrompt => rfl
    | atomic o' => cases o' <;> first | rfl | exact absurd h Bool.false_ne_true
  · cases o <;> first | rfl | exact absurd ho Bool.false_ne_true

/-- Once the daemon has been brought up nothing starts the agent. -/
theorem isRunning_of_step {c d : DaemonConf} {t : List HandlerLog} {m : DaemonMove}
    (hl : Loop.Logged (daemonLoop E cfg) c t) (hmain : ∀ ev p, c.current = some (ev, p) → MainOnly p)
    (hs : Loop.Step (daemonLoop E cfg) c m d) : d.state.agent.isRunning = c.state.agent.isRunning := by
  cases hs with
  | take hr => cases hr <;> rfl
  | @main s ts ev o k a ha =>
    have ho : o.isMainStep = true := (hmain ev _ rfl).1
    refine isRunning_loopNext ?_ a
    cases o with
    | openPrompt => rfl
    | atomic o =>
      cases o with
      | op o => cases o <;> first | rfl | exact absurd ho Bool.false_ne_true
      | _ => rfl
  | arrival ha => cases ha; rfl
  | @task s cur ts i o k a hi ha =>
    obtain ⟨y, hy⟩ := hl.exists_log hi
    exact isRunning_loopNext ((starts_serve y.request).rest (hl.running i y _ hy hi)).1 a
  | _ => rfl

/-- A step that broadcasts nothing leaves the answers of the handlers. -/
theorem answered_noteTasks {t : List HandlerLog} {c : DaemonConf} {m : DaemonMove}
    (hm : ∀ request, m ≠ .spawn request)
    (hsilent : ∀ i e, m = .task i e → broadcast? e = none) {n : Nat} {y : HandlerLog}
    (hy : (Loop.noteTasks t c m)[n]? = some y) :
    ∃ z, t[n]? = some z ∧ y.request = z.request ∧ ∀ b, Answered y b ↔ Answered z b := by
  have hsame : t[n]? = some y → ∃ z, t[n]? = some z ∧ y.request = z.request ∧ ∀ b, Answered y b ↔ Answered z b :=
    fun h => ⟨y, h, rfl, fun _ => Iff.rfl⟩
  cases m with
  | spawn r => exact absurd rfl (hm r)
  | task i e =>
    have hmod : (t.modify i fun y => { y with seen := y.seen ++ [(c.state, e)] })[n]? = some y := hy
    rw [List.getElem?_modify] at hmod
    obtain ⟨z, hz, rfl⟩ := Option.map_eq_some_iff.1 hmod
    by_cases hin : i = n
    · refine ⟨z, hz, by rw [if_pos hin], fun b => ?_⟩
      have hne : (⟨.atomic (.op (.broadcast z.request.requestId b)), ()⟩ : LoopEvent) ≠ e := by
        rintro rfl
        exact absurd (hsilent i _ rfl) (Option.some_ne_none _)
      rw [if_pos hin]
      show _ ∈ List.map Prod.snd (z.seen ++ [(c.state, e)]) ↔ _
      rw [List.map_append, List.mem_append]
      exact or_iff_left fun h => hne (List.mem_singleton.1 h)
    · exact ⟨z, hz, by rw [if_neg hin], fun b => by rw [if_neg hin]⟩
  | _ => exact hsame hy

/-- What becomes of the calls when the daemon takes a step: a broadcast of a handler is its one answer. -/
structure Heard (E : Crates) (cfg : Config) (G : Approvals → Approvals.Action → Prop) (x : Signing)
    (m : DaemonMove)
    (a : Approvals) : Prop where
  flags : a.started = x.approvals.started ∧ a.running = x.approvals.running ∧
    a.needsUnlock = x.approvals.needsUnlock
  told : ∀ (i j : Nat) (h : HandlerLog), x.asked[i]? = some j →
    (Loop.noteTasks x.handlers x.daemon m)[i]? = some h →
    ∃ c, a.calls j = some c ∧ c.sent = some h.request ∧ ∀ b, c.answer = some b ↔ Answered h b
  unasked : ∀ j c, a.calls j = some c → j ∉ x.asked → c.answer = none
  posted : ∀ j c, a.calls j = some c → c.sent.isSome = true → Approvals.sentBefore c.stage = true
  reach : Reach Approvals.step G {} a

theorem Linked.heard_silent (h : Linked E cfg G x) {m : DaemonMove} (hm : ∀ request, m ≠ .spawn request)
    (hsilent : ∀ i e, m = .task i e → broadcast? e = none) : Heard E cfg G x m x.approvals where
  flags := ⟨rfl, rfl, rfl⟩
  told i j y hj hy := by
    obtain ⟨z, hz, hrequest, hanswered⟩ := answered_noteTasks hm hsilent hy
    obtain ⟨c, hc, hsent, hanswer⟩ := h.told i j z hj hz
    exact ⟨c, hc, hrequest ▸ hsent, fun b => (hanswer b).trans (hanswered b).symm⟩
  unasked := h.unasked
  posted := h.posted
  reach := h.reach

theorem Linked.heard_answer (hG : CallsOnly G) (h : Linked E cfg G x) {i j : Nat} {id : UInt32} {approved : Bool}
    {k : Unit → LProg Unit} (hi : x.daemon.tasks[i]? =
      some (some (.vis (.atomic (.op (.broadcast id approved))) k)))
    (hj : x.asked[i]? = some j) :
    Heard E cfg G x (.task i ⟨.atomic (.op (.broadcast id approved)), ()⟩)
      (hear x.approvals x.asked (.task i ⟨.atomic (.op (.broadcast id approved)), ()⟩)) := by
  obtain ⟨y, hy⟩ := h.logged.exists_log hi
  obtain ⟨c, hc, hsent, hanswer⟩ := h.told i j y hj hy
  have hanswers := answers_of_reaches (h.logged.running i y _ hy hi)
  have hnone : c.answer = none := by
    cases hb : c.answer with
    | none => rfl
    | some b => exact absurd ((hanswer b).1 hb) (hanswers.first _ _)
  have hhear : hear x.approvals x.asked (.task i ⟨.atomic (.op (.broadcast id approved)), ()⟩) =
      { x.approvals with
        broadcasts := x.approvals.broadcasts ++ [(id, approved)]
        calls := Function.update x.approvals.calls j (some { c with answer := some approved }) } := by
    simp only [hear, broadcast?, hj, hc, Option.map_some]
  have hstep : x.approvals.step (.answer j approved) = some
      { x.approvals with
        broadcasts := x.approvals.broadcasts ++ [(id, approved)]
        calls := Function.update x.approvals.calls j (some { c with answer := some approved }) } := by
    have hlisted : (y.request.isList && !approved) = false := by
      cases hl : y.request.isList with
      | false => rfl
      | true => simp [hanswers.listed hl]
    simp only [Approvals.step, hc, hsent, hnone, hlisted, hanswers.own, Option.bind_some, Option.bind_eq_bind,
      Option.isSome_none, Bool.or_self, Bool.false_eq_true, if_false]
  rw [hhear]
  refine ⟨⟨rfl, rfl, rfl⟩, ?_, ?_, ?_, h.reach.step (hG _ _ rfl) hstep⟩
  · intro n j' z hj' hz
    have hmod : (x.handlers.modify i fun y => { y with seen := y.seen ++
        [(x.daemon.state, ⟨.atomic (.op (.broadcast id approved)), ()⟩)] })[n]? = some z := hz
    rw [List.getElem?_modify] at hmod
    obtain ⟨z₀, hz₀, rfl⟩ := Option.map_eq_some_iff.1 hmod
    by_cases hin : i = n
    · subst hin
      obtain rfl := Option.some.inj (hj.symm.trans hj')
      obtain rfl := Option.some.inj (hy.symm.trans hz₀)
      rw [if_pos rfl]
      refine ⟨{ c with answer := some approved }, Function.update_self .., hsent, fun b => ?_⟩
      show some approved = some b ↔ _ ∈ List.map Prod.snd (y.seen ++ [_])
      rw [List.map_append, List.mem_append]
      constructor
      · intro hb
        obtain rfl := Option.some.inj hb
        exact .inr (List.mem_singleton.2 (by rw [hanswers.own]))
      · rintro (hb | hb)
        · exact absurd hb (hanswers.first _ _)
        · have hop : broadcast? ⟨.atomic (.op (.broadcast y.request.requestId b)), ()⟩ = some (id, approved) :=
            congrArg broadcast? (List.mem_singleton.1 hb)
          exact congrArg some (Prod.mk.inj (Option.some.inj hop)).2.symm
    · have hne : j' ≠ j := by
        rintro rfl
        exact hin ((List.getElem?_inj (List.getElem?_eq_some_iff.1 hj).1 h.nodup).1 (hj.trans hj'.symm))
      rw [if_neg hin]
      obtain ⟨c', hc', hrest⟩ := h.told n j' z₀ hj' hz₀
      exact ⟨c', (Function.update_of_ne hne ..).trans hc', hrest⟩
  · intro j' c' hj' hno
    have hne : j' ≠ j := by
      rintro rfl
      exact hno (List.mem_of_getElem? hj)
    exact h.unasked j' c' ((Function.update_of_ne hne ..).symm.trans hj') hno
  · intro j' c' hj' hs
    rcases Approvals.calls_update hj' with ⟨-, hself⟩ | ⟨-, hother⟩
    · obtain rfl := Option.some.inj hself
      exact h.posted j c hc hs
    · exact h.posted j' c' hother hs

/-- The daemon takes a step. -/
theorem Linked.daemon (hG : CallsOnly G) (h : Linked E cfg G x) {m : DaemonMove} {d : DaemonConf}
    (hm : ∀ request, m ≠ .spawn request) (hs : Loop.Step (daemonLoop E cfg) x.daemon m d) :
    Linked E cfg G
      { approvals := follow (hear x.approvals x.asked m) d.state.agent
        daemon := d
        handlers := Loop.noteTasks x.handlers x.daemon m
        asked := x.asked } := by
  have hheard : Heard E cfg G x m (hear x.approvals x.asked m) := by
    have hquiet := fun hsilent => h.heard_silent hm hsilent
    cases m with
    | spawn r => exact absurd rfl (hm r)
    | main e =>
      have hnone : broadcast? e = none := by
        generalize hc₀ : x.daemon = c₀ at hs
        cases hs with
        | @main s ts ev o k a ha =>
          have hrest : MainOnly (.vis o k) := h.main ev _ (by rw [hc₀])
          have ho : o.isMainStep = true := hrest.1
          cases o with
          | openPrompt => rfl
          | atomic o =>
            cases o with
            | op o => cases o <;> first | rfl | exact absurd ho Bool.false_ne_true
            | _ => rfl
      have hsame : hear x.approvals x.asked (.main e) = x.approvals := by
        rw [hear, hnone, Option.toList_none, List.append_nil]
      rw [hsame]
      exact hquiet fun i e' he => by cases he
    | task i e =>
      cases he : broadcast? e with
      | none =>
        have hsame : hear x.approvals x.asked (.task i e) = x.approvals := by rw [hear, he]
        rw [hsame]
        refine hquiet fun i' e' he' => ?_
        obtain ⟨rfl, rfl⟩ : i = i' ∧ e = e' := by injection he' with h₁ h₂; exact ⟨h₁, h₂⟩
        exact he
      | some response =>
        obtain ⟨o, a⟩ := e
        obtain ⟨id, approved, rfl⟩ : ∃ id approved, o = .atomic (.op (.broadcast id approved)) := by
          cases o with
          | openPrompt => cases he
          | atomic o =>
            cases o with
            | op o => cases o <;> first | exact ⟨_, _, rfl⟩ | exact absurd he.symm (Option.some_ne_none _)
            | _ => cases he
        generalize hc₀ : x.daemon = c₀ at hs
        cases hs with
        | @task s cur ts i o k a hi ha =>
          have htask : x.daemon.tasks[i]? = some (some (.vis _ k)) := by
            rw [hc₀]
            exact hi
          obtain ⟨y, hy⟩ := h.logged.exists_log htask
          have hlt : i < x.asked.length := h.length ▸ (List.getElem?_eq_some_iff.1 hy).1
          exact h.heard_answer hG htask (List.getElem?_eq_getElem hlt)
    | _ => exact hquiet fun i e he => by cases he
  have hrunning := isRunning_of_step h.logged h.main hs
  have hmain : ∀ ev p, d.current = some (ev, p) → MainOnly p := by
    have hold := h.main
    generalize x.daemon = c₀ at hs hold
    intro ev p hcur
    cases hs with
    | take hr =>
      obtain ⟨rfl, rfl⟩ := Prod.mk.inj (Option.some.inj hcur)
      exact mainOnly_handle _
    | @main s ts ev' o k a ha =>
      obtain ⟨rfl, rfl⟩ := Prod.mk.inj (Option.some.inj hcur)
      exact (hold ev' _ rfl).2 a
    | spawn => cases hcur
    | ends | drops _ => cases hcur
    | arrival _ | task _ _ | finish _ => exact hold ev p hcur
  refine ⟨hheard.flags.1.trans h.started, rfl, rfl, h.logged.step hs, hmain,
    h.recalled.step h.logged h.main hs, ?_,
    h.nodup, hheard.told, hheard.unasked, hheard.posted, reach_follow hG hheard.reach fun hr => ?_⟩
  · refine h.length.trans ?_
    cases m with
    | spawn r => exact absurd rfl (hm r)
    | task i e => exact (List.length_modify ..).symm
    | _ => rfl
  · rw [hheard.flags.2.1, h.running, ← hrunning]
    exact hr

/-- The agent exits or is stopped. -/
theorem Linked.exits (hG : CallsOnly G) (h : Linked E cfg G x) {agent : Agent}
    (ha : Exits x.daemon.state.agent agent) :
    Linked E cfg G
      { x with
        approvals := follow x.approvals agent
        daemon := { x.daemon with state.agent := agent } } := by
  have hstopped : agent.isRunning = false := by cases ha <;> rfl
  exact ⟨h.started, rfl, rfl, h.logged.congr rfl, h.main, h.recalled.congr rfl, h.length, h.nodup, h.told,
    h.unasked,
    h.posted, reach_follow hG h.reach fun hr => (Bool.false_ne_true (hstopped.symm.trans hr)).elim⟩

theorem Linked.initial (hG : CallsOnly G) {s : Daemon} (hmemory : s.authorizationMemory = []) :
    Linked E cfg G (initial s) where
  started := rfl
  running := rfl
  needsUnlock := rfl
  logged := .start _ s
  main _ _ hcur := by cases hcur
  recalled := by
    refine ⟨fun key hk => ?_, fun x hx => by cases hx⟩
    have hk' : key ∈ s.authorizationMemory := hk
    rw [hmemory] at hk'
    cases hk'
  length := rfl
  nodup := List.nodup_nil
  told _ _ _ hj := by cases hj
  unasked _ _ hc := by cases hc
  posted _ _ hc := by cases hc
  reach := by
    have hstart : Reach Approvals.step G {} { started := true, running := true } :=
      Reach.start.step (a := .start) (hG _ _ rfl) rfl
    have hfollow : Reach Approvals.step G {} (follow { started := true, running := true } s.agent) :=
      reach_follow hG hstart fun _ => rfl
    exact hfollow

theorem Leads.linked (hG : CallsOnly G) {s : Daemon} (hmemory : s.authorizationMemory = [])
    (h : Leads E cfg G (initial s) x) : Linked E cfg G x := by
  induction h with
  | refl => exact .initial hG hmemory
  | step _ hs ih =>
    cases hs with
    | call ha hGa hs => exact ih.call ha hGa hs
    | spawn hc hsent hnew hs => exact ih.spawn hc hsent hnew hs
    | daemon hm hs => exact ih.daemon hG hm hs
    | exits ha => exact ih.exits hG ha

end Signing
end SshWarden
