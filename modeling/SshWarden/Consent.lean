import SshWarden.ForgetFinal
import SshWarden.Signing

/-!
# What a call of the agent returns

A `confirm` that returns true goes back to a handler of its own request and to the consent that this handler has
found (`confirmed_by_consent`). A call whose handler has finished gets the answer of the handler, however many other
answers are broadcast before it (`handled_calls_return`).
-/

namespace SshWarden
open Prog

namespace Approvals
variable {s s' : Approvals} {c c' : AgentCall} {m : Move}

theorem caller_of_advance (h : s.advance c m = some c') : c'.caller = c.caller := by
  cases m <;> dsimp only [advance] at h
  case receive =>
    split at h
    · obtain ⟨response, -, h⟩ := Option.bind_eq_some_iff.1 h
      split at h <;> obtain rfl := Option.some.inj h <;> rfl
    · cases h
  all_goals grind

/-- What a call has sent is its own request. -/
def SentOwn (s : Approvals) : Prop :=
  ∀ i c r, s.calls i = some c → c.sent = some r → c.kind.request c.caller r.requestId = some r

theorem SentOwn.step (h : s.SentOwn) {a : Action} (hs : s.step a = some s') : s'.SentOwn := by
  cases a with
  | start =>
    obtain ⟨-, ⟨⟩⟩ := Option.ite_none_left_eq_some.1 hs
    exact h
  | enter i kind caller =>
    obtain ⟨-, ⟨⟩⟩ := Option.ite_none_left_eq_some.1 hs
    intro j c r hj hr
    rcases calls_update hj with ⟨-, hj⟩ | ⟨-, hj⟩
    · obtain rfl := Option.some.inj hj
      cases hr
    · exact h j c r hj hr
  | move i m =>
    obtain ⟨c, hc, hs⟩ := Option.bind_eq_some_iff.1 hs
    obtain ⟨c', hadvance, ⟨⟩⟩ := Option.bind_eq_some_iff.1 hs
    have hkind := (advance_cases hadvance).kind
    have hcaller := caller_of_advance hadvance
    intro j c₁ r hj hr
    rcases calls_update hj with ⟨-, hj⟩ | ⟨-, hj⟩
    · obtain rfl := Option.some.inj hj
      rw [hkind, hcaller]
      rcases (advance_cases hadvance).sent r hr with hr | ⟨-, hr⟩
      · exact h i c r hc hr
      · obtain ⟨id, -, hr⟩ := Option.bind_eq_some_iff.1 hr
        exact (AgentCallKind.requestId_of_request hr).symm ▸ hr
    · exact h j c₁ r hj hr
  | answer i approved =>
    obtain ⟨c, hc, hs⟩ := Option.bind_eq_some_iff.1 hs
    obtain ⟨request, -, hs⟩ := Option.bind_eq_some_iff.1 hs
    obtain ⟨-, ⟨⟩⟩ := Option.ite_none_left_eq_some.1 hs
    intro j c₁ r hj hr
    rcases calls_update hj with ⟨-, hj⟩ | ⟨-, hj⟩
    · obtain rfl := Option.some.inj hj
      exact h i c r hc hr
    · exact h j c₁ r hj hr
  | _ =>
    obtain rfl := Option.some.inj hs
    exact h

theorem sentOwn_of_reach {G : Approvals → Action → Prop} (h : Reach step G {} s) : s.SentOwn :=
  h.invariant (fun _ _ _ hc => by cases hc) fun _ _ _ hi _ hs => hi.step hs

/-- What a call has yet to hear: its answer has been broadcast, and not before the broadcast that it gets next. -/
structure Awaits (s : Approvals) (c : AgentCall) : Prop where
  asked : c.answer.isSome = true → c.sent.isSome = true
  posted : c.sent.isSome = true → sentBefore c.stage = true
  broadcast : ∀ b, c.answer = some b → ∃ id, c.requestId = some id ∧ (id, b) ∈ s.broadcasts
  unheard : ∀ next, c.stage = .subscribed next ∨ c.stage = .waiting next →
    next ≤ s.broadcasts.length ∧ ∀ k < next, ∀ r, s.broadcasts[k]? = some r → c.requestId ≠ some r.1

theorem Awaits.mono (h : s.Awaits c) {l : List (UInt32 × Bool)} (hs : s'.broadcasts = s.broadcasts ++ l) :
    s'.Awaits c where
  asked := h.asked
  posted := h.posted
  broadcast b hb := by
    obtain ⟨id, hid, hmem⟩ := h.broadcast b hb
    exact ⟨id, hid, hs ▸ List.mem_append_left _ hmem⟩
  unheard next hst := by
    obtain ⟨hle, hold⟩ := h.unheard next hst
    refine ⟨by rw [hs, List.length_append]; omega, fun k hk r hr => hold k hk r ?_⟩
    rwa [hs, List.getElem?_append_left (Nat.lt_of_lt_of_le hk hle)] at hr

/-- Nothing that was broadcast before a call subscribes is for it. -/
theorem Inv.unheard_subscribe (h : s.Inv) {i : Nat} (hc : s.calls i = some c) (haw : s.Awaits c)
    (hst : c.stage = .numbered)
    {r : UInt32 × Bool} (hr : r ∈ s.broadcasts) : c.requestId ≠ some r.1 := by
  intro hid
  have hanswer := h.approved hc hid hr
  have hposted := haw.posted (haw.asked (by rw [hanswer]; rfl))
  rw [hst] at hposted
  cases hposted

theorem Awaits.advance (h : s.Awaits c) (hinv : s.Inv) {i : Nat} (hc : s.calls i = some c)
    (ha : s.advance c m = some c') :
    s.Awaits c' := by
  obtain ⟨hposted, hkept⟩ := sent_of_advance ha h.posted
  have hadv := advance_cases ha
  have hid : ∀ {id}, c.requestId = some id → c'.requestId = some id := fun hid =>
    hadv.requestId_of_some (hinv.told i c hc) hid
  refine ⟨fun hans => ?_, hposted, fun b hb => ?_, ?_⟩
  · obtain ⟨r, hr⟩ := Option.isSome_iff_exists.1 (h.asked (hadv.answer ▸ hans))
    exact Option.isSome_iff_exists.2 ⟨r, hkept r hr⟩
  · obtain ⟨id, hmine, hmem⟩ := h.broadcast b (hadv.answer ▸ hb)
    exact ⟨id, hid hmine, hmem⟩
  · intro next hst
    cases m with
    | check =>
      obtain ⟨-, ⟨⟩⟩ := Option.ite_none_right_eq_some.1 ha
      dsimp only at hst
      rcases hst with hst | hst <;> split at hst <;> split at hst <;> cases hst
    | askId =>
      obtain ⟨-, ha⟩ := Option.ite_none_right_eq_some.1 ha
      split at ha <;> obtain rfl := Option.some.inj ha <;> rcases hst with hst | hst <;> cases hst
    | fetchAdd =>
      obtain ⟨-, ⟨⟩⟩ := Option.ite_none_right_eq_some.1 ha
      rcases hst with hst | hst <;> cases hst
    | subscribe =>
      obtain ⟨hnumbered, ha⟩ := Option.ite_none_right_eq_some.1 ha
      split at ha <;> obtain rfl := Option.some.inj ha
      · obtain rfl : s.broadcasts.length = next := by
          rcases hst with hst | hst
          · exact AgentCallStage.subscribed.inj hst
          · cases hst
        exact ⟨Nat.le_refl _, fun k _ r hr => hinv.unheard_subscribe hc h hnumbered (List.mem_of_getElem? hr)⟩
      · rcases hst with hst | hst <;> cases hst
    | send =>
      dsimp only [Approvals.advance] at ha
      split at ha
      · next next' hsub =>
        split at ha <;> obtain rfl := Option.some.inj ha
        · obtain rfl : next' = next := by
            rcases hst with hst | hst
            · cases hst
            · exact AgentCallStage.waiting.inj hst
          exact h.unheard _ (.inl hsub)
        · rcases hst with hst | hst <;> cases hst
      · cases ha
    | receive =>
      dsimp only [Approvals.advance] at ha
      split at ha
      · next next' hwait =>
        obtain ⟨response, hget, ha⟩ := Option.bind_eq_some_iff.1 ha
        obtain ⟨-, hold⟩ := h.unheard _ (.inr hwait)
        by_cases hother : c.requestId = some response.1
        · rw [if_pos hother] at ha
          obtain rfl := Option.some.inj ha
          rcases hst with hst | hst <;> cases hst
        · rw [if_neg hother] at ha
          obtain rfl := Option.some.inj ha
          obtain rfl : next' + 1 = next := by
            rcases hst with hst | hst
            · cases hst
            · exact AgentCallStage.waiting.inj hst
          refine ⟨(List.getElem?_eq_some_iff.1 hget).1, fun k hk r hr => ?_⟩
          rcases Nat.lt_succ_iff_lt_or_eq.1 hk with hlt | rfl
          · exact hold k hlt r hr
          · obtain rfl := Option.some.inj (hget.symm.trans hr)
            exact hother
      · cases ha
    | receiveFails =>
      dsimp only [Approvals.advance] at ha
      split at ha
      · obtain rfl := Option.some.inj ha
        rcases hst with hst | hst <;> cases hst
      · cases ha

theorem awaits_of_reach (h : Reach step ZeroOnce {} s) (hn : s.given.length < 2 ^ 32) :
    ∀ i c, s.calls i = some c → s.Awaits c := by
  induction h with
  | start => exact fun i c hc => by cases hc
  | @step s s' a hreach hz hs ih =>
    have hn₀ := Nat.lt_of_le_of_lt (given_length_le hs) hn
    have hinv := inv_of_reach hreach hn₀
    have hall := ih hn₀
    cases a with
    | start =>
      obtain ⟨-, ⟨⟩⟩ := Option.ite_none_left_eq_some.1 hs
      exact fun i c hc => (hall i c hc).mono (List.append_nil _).symm
    | enter i kind caller =>
      obtain ⟨-, ⟨⟩⟩ := Option.ite_none_left_eq_some.1 hs
      intro j c hj
      rcases calls_update hj with ⟨-, hj⟩ | ⟨-, hj⟩
      · obtain rfl := Option.some.inj hj
        refine ⟨id, fun hno => (Bool.false_ne_true hno).elim,
          fun b hno => (Option.some_ne_none b hno.symm).elim, fun next hst => ?_⟩
        rcases hst with hst | hst <;> cases hst
      · exact (hall j c hj).mono (List.append_nil _).symm
    | move i m =>
      obtain ⟨c, hc, hs⟩ := Option.bind_eq_some_iff.1 hs
      obtain ⟨c', hadvance, ⟨⟩⟩ := Option.bind_eq_some_iff.1 hs
      intro j c₁ hj
      rcases calls_update hj with ⟨-, hj⟩ | ⟨-, hj⟩
      · obtain rfl := Option.some.inj hj
        exact ((hall i c hc).advance hinv hc hadvance).mono (List.append_nil _).symm
      · exact (hall j c₁ hj).mono (List.append_nil _).symm
    | answer i approved =>
      obtain ⟨c, hc, hs⟩ := Option.bind_eq_some_iff.1 hs
      obtain ⟨request, hsent, hs⟩ := Option.bind_eq_some_iff.1 hs
      obtain ⟨-, ⟨⟩⟩ := Option.ite_none_left_eq_some.1 hs
      intro j c₁ hj
      rcases calls_update hj with ⟨-, hj⟩ | ⟨-, hj⟩
      · obtain rfl := Option.some.inj hj
        have haw : Awaits { s with broadcasts := s.broadcasts ++ [(request.requestId, approved)] } c :=
          (hall i c hc).mono rfl
        refine ⟨fun _ => by rw [hsent]; rfl, haw.posted, fun b hb => ?_, haw.unheard⟩
        obtain rfl := Option.some.inj hb
        exact ⟨_, (hinv.told i c hc).sent request hsent, List.mem_append_right _ (List.mem_singleton_self _)⟩
      · exact (hall j c₁ hj).mono rfl
    | stop | serverExited | closeChannel | setNeedsUnlock value =>
      obtain rfl := Option.some.inj hs
      exact fun i c hc => (hall i c hc).mono (List.append_nil _).symm

/-- The broadcasts that the channel keeps. A receiver that is further behind gets an error. -/
def channelCapacity : Nat := 256

/-- The call receives, and is not too far behind. -/
def Hears (i : Nat) (s : Approvals) (a : Action) : Prop :=
  a = .move i .receive ∧
    ∀ c next, s.calls i = some c → c.stage = .waiting next → s.broadcasts.length ≤ next + channelCapacity

abbrev Receives (i : Nat) (s s' : Approvals) : Prop := Reach step (Hears i) s s'

/-- A waiting call with an answer passes over the broadcasts for others and returns its own. -/
theorem exists_receives {s : Approvals} {c : AgentCall} (hinv : s.Inv) (hn : s.given.length < 2 ^ 32)
    {i next : Nat} (hc : s.calls i = some c)
    (haw : s.Awaits c) (hst : c.stage = .waiting next) (hnear : s.broadcasts.length ≤ next + channelCapacity)
    {approved : Bool} (hans : c.answer = some approved) :
    ∃ s' c', Receives i s s' ∧ s'.calls i = some c' ∧ c'.stage = .returned approved := by
  obtain ⟨id, hid, hmem⟩ := haw.broadcast approved hans
  obtain ⟨p, hp⟩ := List.mem_iff_getElem?.1 hmem
  have hlt : p < s.broadcasts.length := (List.getElem?_eq_some_iff.1 hp).1
  have hle : next ≤ p := Nat.le_of_not_lt fun hlt => (haw.unheard next (.inr hst)).2 p hlt _ hp hid
  obtain ⟨r, hr⟩ : ∃ r, s.broadcasts[next]? = some r := ⟨_, List.getElem?_eq_getElem (by omega)⟩
  have hhears : Hears i s (.move i .receive) := by
    refine ⟨rfl, fun c₁ next₁ hc₁ hst₁ => ?_⟩
    obtain rfl := Option.some.inj (hc.symm.trans hc₁)
    obtain rfl := AgentCallStage.waiting.inj (hst.symm.trans hst₁)
    exact hnear
  by_cases hown : c.requestId = some r.1
  · have hr₂ : r.2 = approved :=
      Option.some.inj ((hinv.approved hc hown (List.mem_of_getElem? hr)).symm.trans hans)
    have hadvance : s.advance c .receive = some { c with stage := .returned approved } := by
      simp only [Approvals.advance, hst, hr, hown, hr₂, Option.bind_eq_bind, Option.bind_some, if_true]
    have hstep : s.step (.move i .receive) =
        some { s with calls := Function.update s.calls i (some { c with stage := .returned approved }) } := by
      simp [Approvals.step, hc, hadvance, handsOut]
    exact ⟨_, _, Reach.start.step hhears hstep, Function.update_self .., rfl⟩
  · have hadvance : s.advance c .receive = some { c with stage := .waiting (next + 1) } := by
      simp only [Approvals.advance, hst, hr, Option.bind_eq_bind, Option.bind_some, if_neg hown]
    have hstep : s.step (.move i .receive) =
        some { s with calls := Function.update s.calls i (some { c with stage := .waiting (next + 1) }) } := by
      simp [Approvals.step, hc, hadvance, handsOut]
    have hinv' := hinv.step (a := .move i .receive) (fun hno => by cases hno) hstep hn
    obtain ⟨s', c', hreceives, hc', hret⟩ := exists_receives hinv' hn (Function.update_self ..)
      ((haw.advance hinv hc hadvance).mono (List.append_nil _).symm) rfl
      (show s.broadcasts.length ≤ _ by omega) hans
    have hfirst : Receives i s _ := Reach.start.step hhears hstep
    exact ⟨s', c', hfirst.trans hreceives, hc', hret⟩
termination_by s.broadcasts.length - next
decreasing_by omega

end Approvals

namespace Signing
variable {E : Crates} {cfg : Config} {G : Approvals → Approvals.Action → Prop} {x x' : Signing}

/-- The handler `n` is about to answer the call `i`. -/
structure Answering (x : Signing) (i n : Nat) (t : HandlerLog) (approved : Bool) : Prop where
  asked : x.asked[n]? = some i
  handler : x.handlers[n]? = some t
  next : ∃ k, x.daemon.tasks[n]? = some (some (.vis (.atomic (.op (.broadcast t.request.requestId approved))) k))

/-- A sign request is only approved with what the policy asks for. -/
theorem Linked.consented (h : Linked E cfg G x) {i n : Nat} {t : HandlerLog} (ha : Answering x i n t true)
    (hsign : t.request.isList = false) : FoundUnlocked t ∧ Consented cfg x.handlers t := by
  obtain ⟨k, hk⟩ := ha.next
  have hmem := List.mem_of_getElem? ha.handler
  have hready := h.logged.ready t hmem
  obtain ⟨ops, he, hunlocked, hconsent⟩ :=
    (answers_of_reaches (h.logged.running n t _ ha.handler hk)).policy hsign rfl
  refine ⟨hunlocked.found he hready, ?_⟩
  rcases hconsent with hu | hn | ⟨hlocal, hbehavior, id, hid, hm⟩
  · exact .inl (hu.performed he)
  · exact .inr (.inl hn)
  · refine .inr (.inr ⟨hlocal, hbehavior, (id, t.request.operationKind.asStr), by rw [memoryKey, hid]; rfl, ?_⟩)
    obtain ⟨⟨s, e⟩, hy, rfl⟩ := List.mem_map.1 (mem_of_expanded he hm rfl)
    exact h.recalled.seen t hmem _ hy _ (hready _ hy rfl)

theorem exists_of_task {c d : DaemonConf} {n : Nat} {o : LoopOp} {a : o.Ans}
    (h : Loop.Step (daemonLoop E cfg) c (.task n ⟨o, a⟩) d) : ∃ k, c.tasks[n]? = some (some (.vis o k)) := by
  cases h with
  | task hi _ => exact ⟨_, hi⟩

/-- An answer that has been given was given on the way. -/
theorem exists_answering (hG : CallsOnly G) {s : Daemon} (hmemory : s.authorizationMemory = [])
    (h : Leads E cfg G (initial s) x) {i n : Nat} {t : HandlerLog} (hi : x.asked[n]? = some i)
    (ht : x.handlers[n]? = some t) {approved : Bool} (ha : Answered t approved) :
    ∃ x₀ t₀, Leads E cfg G (initial s) x₀ ∧ Leads E cfg G x₀ x ∧ t₀.request = t.request ∧
      Answering x₀ i n t₀ approved := by
  induction h generalizing t with
  | refl => cases ht
  | @step x x' h hs ih =>
    have hlinked := h.linked hG hmemory
    have hback : ∀ {t₀}, x.asked[n]? = some i → x.handlers[n]? = some t₀ → t₀.request = t.request →
      Answered t₀ approved →
        ∃ x₀ t₀, Leads E cfg G (initial s) x₀ ∧ Leads E cfg G x₀ x' ∧ t₀.request = t.request ∧
          Answering x₀ i n t₀ approved := by
      intro t₀ hi₀ ht₀ hrequest ha₀
      obtain ⟨x₀, t₁, h₀, h₁, hr, hanswering⟩ := ih hi₀ ht₀ ha₀
      exact ⟨x₀, t₁, h₀, h₁.step hs, hr.trans hrequest, hanswering⟩
    have hlast : Leads E cfg G x x' := .step .refl hs
    cases hs with
    | call _ _ _ => exact hback hi ht rfl ha
    | exits _ => exact hback hi ht rfl ha
    | @spawn j c request d hc hsent hnew hs =>
      have hi' : (x.asked ++ [j])[n]? = some i := hi
      have ht' : (x.handlers ++ [({ request } : HandlerLog)])[n]? = some t := ht
      rcases Nat.lt_trichotomy n x.handlers.length with hlt | heq | hgt
      · rw [List.getElem?_append_left hlt] at ht'
        rw [List.getElem?_append_left (hlinked.length.symm ▸ hlt)] at hi'
        exact hback hi' ht' rfl ha
      · rw [heq, List.getElem?_concat_length] at ht'
        obtain rfl := Option.some.inj ht'
        cases ha
      · rw [List.getElem?_eq_none (by simp; omega)] at ht'
        cases ht'
    | @daemon m d hm hs =>
      by_cases hsilent : ∀ j e, m = .task j e → broadcast? e = none
      · obtain ⟨t₀, ht₀, hrequest, hanswered⟩ := answered_noteTasks hm hsilent ht
        exact hback hi ht₀ hrequest.symm ((hanswered approved).1 ha)
      · obtain ⟨j, e, rfl, hb⟩ : ∃ j e, m = .task j e ∧ broadcast? e ≠ none := by
          by_contra hno
          exact hsilent fun j e hje => by_contra fun hb => hno ⟨j, e, hje, hb⟩
        have hmod : (x.handlers.modify j fun y => { y with seen := y.seen ++ [(x.daemon.state, e)] })[n]? =
          some t := ht
        rw [List.getElem?_modify] at hmod
        obtain ⟨z, hz, rfl⟩ := Option.map_eq_some_iff.1 hmod
        by_cases hjn : j = n
        · subst hjn
          rw [if_pos rfl] at ha
          by_cases hz₀ : Answered z approved
          · exact hback hi hz (by rw [if_pos rfl]) hz₀
          · -- the handler gives the answer with this step
            have hnew : (⟨.atomic (.op (.broadcast z.request.requestId approved)), ()⟩ : LoopEvent) = e := by
              have ha' : _ ∈ List.map Prod.snd (z.seen ++ [(x.daemon.state, e)]) := ha
              rw [List.map_append, List.mem_append] at ha'
              exact List.mem_singleton.1 (ha'.resolve_left hz₀)
            subst hnew
            obtain ⟨k, hk⟩ := exists_of_task hs
            exact ⟨x, z, h, hlast, by rw [if_pos rfl], hi, hz, k, hk⟩
        · rw [if_neg hjn] at ha
          exact hback hi hz (by rw [if_neg hjn]) ha

/-! ### Directed runs -/

/-- Whose turn it is. -/
inductive Cue
  | call (a : Approvals.Action)
  | receive (i : Nat)
  | loop (cue : Loop.Cue MainEvent SshAgentUIRequest)

/-- The next state for a cue, with the answers of a script; `none` where there is nothing to do. -/
def move? (E : Crates) (cfg : Config) (sc : Script) (x : Signing) : Cue → Option Signing
  | .call a =>
    if isCall a = true ∧ x.approvals.ZeroOnce a then
      (x.approvals.step a).map fun approvals => { x with approvals := approvals }
    else none
  | .receive i =>
    if i ∈ x.asked then none
    else
      (x.approvals.calls i).bind fun c => c.sent.bind fun request =>
        (Loop.move? (daemonLoop E cfg) receive? sc.loopAnswer x.daemon (.spawn request)).map fun (_, d) =>
          { approvals := follow x.approvals d.state.agent
            daemon := d
            handlers := Loop.noteTasks x.handlers x.daemon (.spawn request : DaemonMove)
            asked := x.asked ++ [i] }
  | .loop cue =>
    (Loop.move? (daemonLoop E cfg) receive? sc.loopAnswer x.daemon cue).bind fun
      | (.spawn _, _) => none
      | (m, d) => some
        { approvals := follow (hear x.approvals x.asked m) d.state.agent
          daemon := d
          handlers := Loop.noteTasks x.handlers x.daemon m
          asked := x.asked }

/-- Follow the cues; one that finds nothing to do is passed over. -/
def play (E : Crates) (cfg : Config) (sc : Script) : List Cue → Signing → Signing
  | [], x => x
  | cue :: cues, x =>
    match move? E cfg sc x cue with
    | some x' => play E cfg sc cues x'
    | none => play E cfg sc cues x

theorem step_of_move? {sc : Script} {cue : Cue} (h : move? E cfg sc x cue = some x') :
    Step E cfg Approvals.ZeroOnce x x' := by
  cases cue with
  | call a =>
    obtain ⟨⟨hcall, hzero⟩, h⟩ := Option.ite_none_right_eq_some.1 h
    obtain ⟨approvals, hs, rfl⟩ := Option.map_eq_some_iff.1 h
    exact .call hcall hzero hs
  | receive i =>
    obtain ⟨hnew, h⟩ := Option.ite_none_left_eq_some.1 h
    obtain ⟨c, hc, h⟩ := Option.bind_eq_some_iff.1 h
    obtain ⟨request, hsent, h⟩ := Option.bind_eq_some_iff.1 h
    obtain ⟨⟨m, d⟩, hmove, rfl⟩ := Option.map_eq_some_iff.1 h
    obtain rfl : m = .spawn request := by
      generalize x.daemon = c₀ at hmove
      obtain ⟨s, cur, ts⟩ := c₀
      cases cur with
      | some y => cases hmove
      | none => exact (Prod.mk.inj (Option.some.inj hmove)).1.symm
    exact .spawn hc hsent hnew (Loop.step_of_move? receives_of_receive? (ready_loopAnswer E cfg sc) hmove)
  | loop cue =>
    obtain ⟨⟨m, d⟩, hmove, h⟩ := Option.bind_eq_some_iff.1 h
    have hs := Loop.step_of_move? receives_of_receive? (ready_loopAnswer E cfg sc) hmove
    cases m with
    | spawn r => cases h
    | _ =>
      obtain rfl := Option.some.inj h
      exact .daemon (fun _ hno => by cases hno) hs

theorem Leads.trans {x'' : Signing} (h : Leads E cfg G x x') (h' : Leads E cfg G x' x'') :
    Leads E cfg G x x'' := by
  induction h' with
  | refl => exact h
  | step _ hs ih => exact ih.step hs

theorem leads_play {sc : Script} {cues : List Cue} : Leads E cfg Approvals.ZeroOnce x (play E cfg sc cues x) := by
  induction cues generalizing x with
  | nil => exact .refl
  | cons cue cues ih =>
    unfold play
    cases hm : move? E cfg sc x cue with
    | none => exact ih
    | some x' => exact (Leads.refl.step (step_of_move? hm)).trans ih

/-- The calls of a device after a first login with a PIN. -/
def playCalls (sc : Script) (cfg : Config) (cues : List Cue) : Option Signing :=
  (playStart .plain cfg sc {}).map fun x => play .plain x.1 sc cues (initial x.2)

theorem exists_of_playCalls {sc : Script} {cfg₀ : Config} {cues : List Cue} (check : Signing → Bool)
    (h : (playCalls sc cfg₀ cues).any check = true) :
    ∃ cfg s₀ s x, Started (machine .plain) .plain cfg₀ cfg s₀ s ∧
      Leads .plain cfg Approvals.ZeroOnce (initial s) x ∧
      check x = true := by
  obtain ⟨x, hx, hcheck⟩ := (Option.any_eq_true _ _).1 h
  obtain ⟨⟨cfg, s⟩, hstart, rfl⟩ := Option.map_eq_some_iff.1 hx
  exact ⟨cfg, _, s, _, started_playStart hstart, leads_play, hcheck⟩

/-- A call of `ssh` up to its request. -/
def sshCall (i : Nat) : List Cue :=
  .call (.enter i (.confirm "item" (some ⟨.sshAuthentication, none⟩)) ⟨"ssh", 4711, false⟩) ::
    [.check, .askId, .fetchAdd, .subscribe, .send].map (fun m => .call (.move i m))

theorem callsOnly_zeroOnce : CallsOnly Approvals.ZeroOnce := by
  intro s a ha
  cases a with
  | move i m => cases ha
  | _ => trivial

/-- A `confirm` that returns true goes back to a handler of its own request, which had found the vault unlocked and
the consent that the settings ask for when it gave the approval: no order of the steps of the calls, the handlers
and the main loop lets another request's approval through. -/
theorem confirmed_by_consent {cfg₀ : Config} {s₀ s : Daemon} (hstart : Started (machine E) E cfg₀ cfg s₀ s)
    (h : Leads E cfg Approvals.ZeroOnce (initial s) x) (hn : x.approvals.given.length < 2 ^ 32)
    {i : Nat} {c : AgentCall} (hc : x.approvals.calls i = some c) {cipherUuid : String}
    {parsed : Option SignRequest}
    (hkind : c.kind = .confirm cipherUuid parsed) (hret : c.stage = .returned true) :
    ∃ x₀ n t, Leads E cfg Approvals.ZeroOnce (initial s) x₀ ∧ Leads E cfg Approvals.ZeroOnce x₀ x ∧
      Answering x₀ i n t true ∧ c.kind.request c.caller t.request.requestId = some t.request ∧
      FoundUnlocked t ∧ Consented cfg x₀.handlers t := by
  have hG := callsOnly_zeroOnce
  have hmemory := hstart.memory_empty
  have hlinked := h.linked hG hmemory
  have hinv := Approvals.inv_of_reach hlinked.reach hn
  have hanswer : c.answer = some true :=
    (hinv.told i c hc).returned (by rw [hkind]; exact fun hk => by cases hk) hret
  have hasked : i ∈ x.asked := by
    by_contra hno
    exact Option.some_ne_none true (hanswer.symm.trans (hlinked.unasked i c hc hno))
  obtain ⟨n, hlt, hn⟩ := List.mem_iff_getElem.1 hasked
  have hi : x.asked[n]? = some i := hn ▸ List.getElem?_eq_getElem hlt
  obtain ⟨t, ht⟩ : ∃ t, x.handlers[n]? = some t := ⟨_, List.getElem?_eq_getElem (hlinked.length ▸ hlt)⟩
  obtain ⟨c', hc', hsent, htold⟩ := hlinked.told n i t hi ht
  obtain rfl := Option.some.inj (hc.symm.trans hc')
  obtain ⟨x₀, t₀, h₀, h₁, hrequest, hanswering⟩ := exists_answering hG hmemory h hi ht ((htold true).1 hanswer)
  have hown := Approvals.sentOwn_of_reach hlinked.reach i c t.request hc hsent
  have hsign : t₀.request.isList = false := by
    rw [hrequest]
    rw [hkind] at hown
    obtain ⟨signed, -, hr⟩ := Option.map_eq_some_iff.1 hown
    rw [← hr]
  obtain ⟨hfound, hconsented⟩ := (h₀.linked hG hmemory).consented hanswering hsign
  exact ⟨x₀, n, t₀, h₀, h₁, hanswering, hrequest ▸ hown, hfound, hconsented⟩

/-- Two calls at a time: the user approves the first, which spares the second its prompt. -/
def twoCallers : List Cue :=
  sshCall 0 ++ sshCall 1 ++ [.receive 0, .receive 1] ++ List.replicate 20 (.loop (.task 0)) ++
    List.replicate 20 (.loop (.task 1))

theorem confirmed_by_consent_from_memory : ∃ cfg s x c, Leads .plain cfg Approvals.ZeroOnce (initial s) x ∧
    x.approvals.calls 1 = some c ∧ c.stage = .returned true ∧
    ∃ x₀ n t, Leads .plain cfg Approvals.ZeroOnce (initial s) x₀ ∧ Leads .plain cfg Approvals.ZeroOnce x₀ x ∧
      Answering x₀ 1 n t true ∧ c.kind.request c.caller t.request.requestId = some t.request ∧
      FoundUnlocked t ∧ Consented cfg x₀.handlers t := by
  obtain ⟨cfg, s₀, s, x, hstart, h, hcheck⟩ := exists_of_playCalls
    (fun x => decide (x.approvals.given.length < 2 ^ 32) && (x.approvals.calls 1).any fun c : AgentCall =>
      decide (c.kind = .confirm "item" (some ⟨.sshAuthentication, none⟩) ∧ c.stage = .returned true))
    (show (playCalls askScript plainConfig
      (twoCallers ++ [.call (.move 1 .receive), .call (.move 1 .receive)])).any _ = true by decide +kernel)
  obtain ⟨hn, hcall⟩ := Bool.and_eq_true_iff.1 hcheck
  obtain ⟨c, hc, hreturned⟩ := (Option.any_eq_true _ _).1 hcall
  obtain ⟨hkind, hret⟩ := of_decide_eq_true hreturned
  exact ⟨cfg, s, x, c, h, hc, hret, confirmed_by_consent hstart h (of_decide_eq_true hn) hc hkind hret⟩

/-- The moves of a call are moves of the system. -/
theorem leads_of_receives {i : Nat} {a : Approvals} (h : Approvals.Receives i x.approvals a) :
    Leads E cfg Approvals.ZeroOnce x { x with approvals := a } := by
  induction h with
  | start => exact .refl
  | step _ ha hs ih =>
    obtain ⟨rfl, -⟩ := ha
    exact ih.step (.call (a := .move i .receive) rfl (fun hno => by cases hno) hs)

/-- No request is lost: once the handler of a waiting call has finished, the call can receive the answer of the handler
without a step of anything else, unless it is too far behind. -/
theorem handled_calls_return {cfg₀ : Config} {s₀ s : Daemon} (hstart : Started (machine E) E cfg₀ cfg s₀ s)
    (h : Leads E cfg Approvals.ZeroOnce (initial s) x) (hn : x.approvals.given.length < 2 ^ 32)
    {i n next : Nat} {c : AgentCall} (hc : x.approvals.calls i = some c) (hwait : c.stage = .waiting next)
    (hnear : x.approvals.broadcasts.length ≤ next + Approvals.channelCapacity)
    (hi : x.asked[n]? = some i) (hdone : x.daemon.tasks[n]? = some none) :
    ∃ a c' t approved, Approvals.Receives i x.approvals a ∧
      Leads E cfg Approvals.ZeroOnce x { x with approvals := a } ∧
      a.calls i = some c' ∧ c'.stage = .returned approved ∧ x.handlers[n]? = some t ∧
      c.kind.request c.caller t.request.requestId = some t.request ∧ Answered t approved := by
  have hlinked := h.linked callsOnly_zeroOnce hstart.memory_empty
  have hinv := Approvals.inv_of_reach hlinked.reach hn
  have hlt := (List.getElem?_eq_some_iff.1 hi).1
  obtain ⟨t, ht⟩ : ∃ t, x.handlers[n]? = some t := ⟨_, List.getElem?_eq_getElem (hlinked.length ▸ hlt)⟩
  obtain ⟨c₁, hc₁, hsent, htold⟩ := hlinked.told n i t hi ht
  obtain rfl := Option.some.inj (hc.symm.trans hc₁)
  obtain ⟨approved, hanswered⟩ := exists_answer_of_runs (hlinked.logged.finished n t ht hdone)
  obtain ⟨a, c', hreceives, hc', hret⟩ := Approvals.exists_receives hinv hn hc
    (Approvals.awaits_of_reach hlinked.reach hn i c hc) hwait hnear ((htold approved).2 hanswered)
  exact ⟨a, c', t, approved, hreceives, leads_of_receives hreceives, hc', hret, ht,
    Approvals.sentOwn_of_reach hlinked.reach i c t.request hc hsent, hanswered⟩

/-- The second of two calls waits until both handlers have finished. -/
theorem handled_calls_return_second : ∃ cfg s x c, Leads .plain cfg Approvals.ZeroOnce (initial s) x ∧
    x.approvals.calls 1 = some c ∧ c.stage = .waiting 0 ∧
    ∃ a c' t approved, Approvals.Receives 1 x.approvals a ∧
      Leads .plain cfg Approvals.ZeroOnce x { x with approvals := a } ∧ a.calls 1 = some c' ∧
      c'.stage = .returned approved ∧ x.handlers[1]? = some t ∧
      c.kind.request c.caller t.request.requestId = some t.request ∧ Answered t approved := by
  obtain ⟨cfg, s₀, s, x, hstart, h, hcheck⟩ := exists_of_playCalls
    (fun x => decide (x.approvals.given.length < 2 ^ 32) &&
      ((x.approvals.calls 1).any (fun c : AgentCall => decide (c.stage = .waiting 0)) &&
        (decide (x.asked[1]? = some 1 ∧ x.approvals.broadcasts.length ≤ 0 + Approvals.channelCapacity) &&
        x.daemon.tasks[1]?.any Option.isNone)))
    (show (playCalls askScript plainConfig twoCallers).any _ = true by decide +kernel)
  obtain ⟨hn, hcheck⟩ := Bool.and_eq_true_iff.1 hcheck
  obtain ⟨hcall, hcheck⟩ := Bool.and_eq_true_iff.1 hcheck
  obtain ⟨hopen, hdone⟩ := Bool.and_eq_true_iff.1 hcheck
  obtain ⟨hasked, hnear⟩ := of_decide_eq_true hopen
  obtain ⟨c, hc, hwait⟩ := (Option.any_eq_true _ _).1 hcall
  obtain ⟨task, htask, hnone⟩ := (Option.any_eq_true _ _).1 hdone
  rw [Option.isNone_iff_eq_none.1 hnone] at htask
  exact ⟨cfg, s, x, c, h, hc, of_decide_eq_true hwait, handled_calls_return hstart h (of_decide_eq_true hn) hc
    (of_decide_eq_true hwait) hnear hasked htask⟩

end Signing
end SshWarden
