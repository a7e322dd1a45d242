import SshWarden.AnswerPaths
import SshWarden.LockRequests
import SshWarden.RequestTasks

/-!
# The automatic lock and the request handlers

`run_foreground` counts the requests that are being handled, and a tick of the lock timer leaves the vault alone
while there are any. The count is right in every configuration of every run (`in_flight_exact`). From the read of
the zero to the end of the tick no handler is running, so that nothing comes in between the steps of its
`lock_vault` (`auto_lock_alone`).
-/

namespace SshWarden
open Prog

variable {E : Crates} {cfg : Config} {s s' : Daemon} {t : List LoopEvent}

theorem inFlightPrompts_next (o : Op) (s : Daemon) (a : o.Ans) :
    (next E o s a).inFlightPrompts = s.inFlightPrompts := by
  cases o <;> first | rfl | (cases a <;> rfl)

theorem inFlightPrompts_loopNext (o : LoopOp) (s : Daemon) (a : o.Ans) :
    (loopNext E o s a).inFlightPrompts = s.inFlightPrompts := by
  cases o with
  | openPrompt => rfl
  | atomic o =>
    cases o with
    | op o => exact inFlightPrompts_next o s a
    | _ => rfl

theorem Started.inFlightPrompts_eq {cfg₀ : Config} {s₀ : Daemon} (h : Started (machine E) E cfg₀ cfg s₀ s) :
    s.inFlightPrompts = 0 := by
  obtain ⟨hfresh, hsteps⟩ := h
  have hkeep : ∀ {α : Type} {p p' : DProg α} {tr s s'}, Steps (machine E) p s tr p' s' →
      s'.inFlightPrompts = s.inFlightPrompts := by
    intro α p p' tr s s' h
    induction h with
    | refl => rfl
    | step _ _ ih => exact ih.trans (inFlightPrompts_next ..)
  rw [hkeep hsteps, hfresh]

theorem counted_step {c c' : DaemonConf} {m : DaemonMove} (h : c.state.inFlightPrompts = c.running)
    (hs : Loop.Step (daemonLoop E cfg) c m c') : c'.state.inFlightPrompts = c'.running :=
  hs.counted Daemon.inFlightPrompts inFlightPrompts_loopNext (fun hr => by cases hr <;> rfl)
    (fun ha => by cases ha; rfl) (fun _ => rfl) (fun _ => rfl) h

/-- The flags that a tick reads before it locks. -/
def LoopOp.isFlagLoad : LoopOp → Bool
  | atomic (.op .loadVaultLocked) | atomic (.op .loadInFlightPrompts) => true
  | _ => false

def LoopOp.isTickStep : LoopOp → Bool
  | atomic (.op .loadVaultLocked) | atomic (.op .loadInFlightPrompts) | atomic .loadIsRunning
  | atomic .stripPrivateKeys
  | atomic (.storeNeedsUnlock _) | atomic (.op (.storeVaultLocked true)) | atomic (.op (.writeCachedKeyTuples []))
  | atomic (.op (.writeLocalCacheKey none)) | atomic (.op .clearMemory) => true
  | _ => false

/-- What a step of `lock_vault` leaves. -/
def LoopOp.leaves : LoopOp → Daemon → Prop
  | atomic .stripPrivateKeys, s => s.agent.NoPrivate
  | atomic (.op (.storeVaultLocked true)), s => s.vaultLocked = true
  | atomic (.op (.writeCachedKeyTuples [])), s => s.cachedKeyTuples = []
  | atomic (.op (.writeLocalCacheKey none)), s => s.localCacheKeyState = none
  | atomic (.op .clearMemory), s => s.authorizationMemory = []
  | _, _ => True

/-- The tick has found no request in flight. -/
def readsNone : LoopEvent := ⟨.atomic (.op .loadInFlightPrompts), (0 : Nat)⟩

/-- The agent was running when the tick asked for the lock. -/
def findsAgent : LoopEvent := ⟨.atomic .loadIsRunning, true⟩

/-- The steps of a `lock_vault` that finds the agent running. -/
def lockEvents : List LoopEvent :=
  [⟨.atomic .stripPrivateKeys, ()⟩, ⟨.atomic (.op (.storeVaultLocked true)), ()⟩,
    ⟨.atomic (.op (.writeCachedKeyTuples [])), ()⟩, ⟨.atomic (.op (.writeLocalCacheKey none)), ()⟩,
    ⟨.atomic (.op .clearMemory), ()⟩]

def tickMachine : Machine loopSig (List LoopEvent) := .record (fun _ => True) fun t e => t ++ [e]

/-- Only after it has found no request in flight does a tick go beyond the flags. -/
theorem wp_tick (cfg : Config) (idle : Nat) :
    wp tickMachine (fun o t => o.isTickStep = true ∧ (o.isFlagLoad = true ∨ readsNone ∈ t))
      ((daemonLoop E cfg).handle (.autoLockTick idle)) (fun _ t => findsAgent ∈ t → ∀ e ∈ lockEvents, e ∈ t)
        [] := by
  have hdone : ∀ {t : List LoopEvent}, findsAgent ∉ t → wp tickMachine
      (fun o t => o.isTickStep = true ∧ (o.isFlagLoad = true ∨ readsNone ∈ t)) (ret ())
      (fun _ t => findsAgent ∈ t → ∀ e ∈ lockEvents, e ∈ t) t := fun hno hin => absurd hin hno
  show wp _ _ (expand inSteps (handleAutoLockTick cfg idle)) _ _
  by_cases htimeout : 0 < cfg.lockTimeout
  · by_cases hidle : idle ≥ cfg.lockTimeout
    · simp only [handleAutoLockTick, if_pos htimeout, if_pos hidle]
      refine ⟨⟨rfl, .inl rfl⟩, fun locked _ => ?_⟩
      cases locked with
      | true => exact hdone (by simp [tickMachine, Machine.record, findsAgent])
      | false =>
        refine ⟨⟨rfl, .inl rfl⟩, fun inFlight _ => ?_⟩
        cases inFlight with
        | succ n => exact hdone (by simp [tickMachine, Machine.record, findsAgent])
        | zero =>
          refine ⟨⟨rfl, .inr (.tail _ (.head _))⟩, fun running _ => ?_⟩
          cases running with
          | false => exact hdone (by simp [tickMachine, Machine.record, findsAgent])
          | true =>
            -- the two reads and `lock_vault` with the agent running, one step after the other
            have hread : ∀ {t : List LoopEvent},
                readsNone ∈ [⟨.atomic (.op .loadVaultLocked), false⟩, readsNone] ++ t :=
              List.mem_append_left _ (.tail _ (.head _))
            refine ⟨⟨rfl, .inr hread⟩,
              fun _ _ => ⟨⟨rfl, .inr hread⟩, fun _ _ => ⟨⟨rfl, .inr hread⟩, fun _ _ => ?_⟩⟩⟩
            refine ⟨⟨rfl, .inr hread⟩,
              fun _ _ => ⟨⟨rfl, .inr hread⟩, fun _ _ => ⟨⟨rfl, .inr hread⟩, fun _ _ _ e he => ?_⟩⟩⟩
            simp only [lockEvents, List.mem_cons, List.not_mem_nil, or_false] at he
            rcases he with rfl | rfl | rfl | rfl | rfl <;> simp [tickMachine, Machine.record]
    · simp only [handleAutoLockTick, if_pos htimeout, if_neg hidle]
      refine ⟨⟨rfl, .inl rfl⟩, fun locked _ => ?_⟩
      cases locked with
      | true => exact hdone (by simp [tickMachine, Machine.record, findsAgent])
      | false =>
        refine ⟨⟨rfl, .inl rfl⟩, fun inFlight _ => ?_⟩
        cases inFlight <;> exact hdone (by simp [tickMachine, Machine.record, findsAgent])
  · rw [handleAutoLockTick, if_neg htimeout]
    exact hdone List.not_mem_nil

theorem foldl_concat {α : Type} (l t : List α) : l.foldl (fun t e => t ++ [e]) t = t ++ l := by
  induction l generalizing t with
  | nil => exact (List.append_nil t).symm
  | cons e l ih => exact (ih _).trans (List.append_assoc ..)

/-- Where a tick stands after some steps. -/
theorem wp_of_reaches_tick {idle : Nat} {p : LProg Unit}
    (h : Reaches ((daemonLoop E cfg).handle (.autoLockTick idle)) t p) :
    wp tickMachine (fun o t => o.isTickStep = true ∧ (o.isFlagLoad = true ∨ readsNone ∈ t)) p
      (fun _ t => findsAgent ∈ t → ∀ e ∈ lockEvents, e ∈ t) t := by
  have hsteps := (wp_tick (E := E) cfg idle).steps (h.record (fun _ _ => trivial) (fun t e => t ++ [e]) [])
  rwa [foldl_concat, List.nil_append] at hsteps

theorem LoopOp.leaves_of_isFlagLoad {o : LoopOp} (h : o.isFlagLoad = true) (s : Daemon) : o.leaves s := by
  cases o with
  | openPrompt => cases h
  | atomic o =>
    cases o with
    | op o => cases o <;> trivial
    | _ => cases h

theorem LoopOp.leaves_congr {o : LoopOp} (h : o.leaves s) (hagent : s'.agent = s.agent)
    (hlocked : s'.vaultLocked = s.vaultLocked)
    (htuples : s'.cachedKeyTuples = s.cachedKeyTuples) (hkey : s'.localCacheKeyState = s.localCacheKeyState)
    (hmemory : s'.authorizationMemory = s.authorizationMemory) : o.leaves s' := by
  unfold LoopOp.leaves at h ⊢
  split at h <;> simp_all

/-- A step of a tick leaves what it is for, and what the steps before it have left. -/
theorem LoopOp.leaves_next {o : LoopOp} (h : o.isTickStep = true) (s : Daemon) (a : o.Ans) :
    o.leaves (loopNext E o s a) ∧ ∀ o' : LoopOp, o'.leaves s → o'.leaves (loopNext E o s a) := by
  have hstrip :
      ({ s with agent.keystore := s.agent.keystore.map fun p => (p.1, { p.2 with privateKey := none }) } :
      Daemon).agent.NoPrivate := by
    intro p hp
    obtain ⟨q, -, rfl⟩ := List.mem_map.1 hp
    rfl
  unfold LoopOp.isTickStep at h
  split at h
  case h_10 => cases h
  case h_4 => exact ⟨hstrip, fun o' ho' => by
    unfold LoopOp.leaves at ho' ⊢; split at ho' <;> first | exact hstrip | exact ho'⟩
  all_goals
    refine ⟨by trivial, fun o' ho' => ?_⟩
    unfold LoopOp.leaves at ho' ⊢
    split at ho' <;> first | exact ho' | rfl

theorem lockedUp_of_leaves (h : ∀ e ∈ lockEvents, e.1.leaves s) : LockedUp s :=
  ⟨h _ (.tail _ (.head _)), h _ (.head _), h _ (.tail _ (.tail _ (.head _))),
    h _ (.tail _ (.tail _ (.tail _ (.head _)))), h _ (.tail _ (.tail _ (.tail _ (.tail _ (.head _)))))⟩

/-! ### All runs -/

/-- A tick that has found no request in flight is alone, and what its steps have left is still so. -/
structure TickAlone (c : DaemonConf) (t : List LoopEvent) : Prop where
  before : readsNone ∉ t → ∀ e ∈ t, e.1.isFlagLoad = true
  alone : readsNone ∈ t → c.running = 0
  left : ∀ e ∈ t, e.1.leaves c.state

structure Ticking (E : Crates) (cfg : Config) (c : DaemonConf) (t : List LoopEvent) : Prop where
  counted : c.state.inFlightPrompts = c.running
  logged : Loop.MainLogged (daemonLoop E cfg) c t
  tick : ∀ idle p, c.current = some (.autoLockTick idle, p) → TickAlone c t

section
variable {c c' : DaemonConf} {m : DaemonMove}

/-- While a handler is running the tick has not gone beyond the flags. -/
theorem TickAlone.of_running (h : TickAlone c t) {i : Nat} {p : LProg Unit} (hi : c.tasks[i]? = some (some p)) :
    TickAlone c' t := by
  have hno : readsNone ∉ t := fun hin => by
    have hnone := Loop.Conf.running_eq_zero.1 (h.alone hin) _ (List.mem_of_getElem? hi)
    cases hnone
  exact ⟨h.before, fun hin => absurd hin hno, fun e he => LoopOp.leaves_of_isFlagLoad (h.before hno e he) _⟩

theorem TickAlone.start (c : DaemonConf) : TickAlone c [] :=
  ⟨fun _ _ he => (List.not_mem_nil he).elim, fun hin => (List.not_mem_nil hin).elim,
    fun _ he => (List.not_mem_nil he).elim⟩

/-- The next step of a tick. -/
theorem TickAlone.main {ev : MainEvent} {o : LoopOp} {k : o.Ans → LProg Unit} {a : o.Ans}
    {ts : List (Option (LProg Unit))}
    (h : TickAlone ⟨s, some (ev, .vis o k), ts⟩ t) (hcount : s.inFlightPrompts = ts.countP Option.isSome)
    (hstep : o.isTickStep = true ∧ (o.isFlagLoad = true ∨ readsNone ∈ t)) (ha : loopReady E o s a) :
    TickAlone ⟨loopNext E o s a, some (ev, k a), ts⟩ (t ++ [⟨o, a⟩]) where
  before hno e he := by
    rw [List.mem_append, not_or] at hno
    rcases List.mem_append.1 he with he | he
    · exact h.before hno.1 e he
    · obtain rfl := List.mem_singleton.1 he
      exact hstep.2.resolve_right hno.1
  alone hin := by
    rcases List.mem_append.1 hin with hin | hin
    · exact h.alone hin
    · have heq : readsNone = ⟨o, a⟩ := List.mem_singleton.1 hin
      cases heq
      have hzero : (0 : Nat) = s.inFlightPrompts := ha
      exact (hzero.trans hcount).symm
  left e he := by
    obtain ⟨hself, hkept⟩ := LoopOp.leaves_next (E := E) hstep.1 s a
    rcases List.mem_append.1 he with he | he
    · exact hkept e.1 (h.left e he)
    · obtain rfl := List.mem_singleton.1 he
      exact hself

theorem Ticking.step (h : Ticking E cfg c t) (hs : Loop.Step (daemonLoop E cfg) c m c') :
    Ticking E cfg c' (Loop.noteMain t c m) := by
  refine ⟨counted_step h.counted hs, h.logged.step hs, fun idle p hcur => ?_⟩
  have htick := h.tick idle
  have hcount := h.counted
  have hlogged := h.logged
  cases hs with
  | take _ => exact .start _
  | @main s ts ev o k a ha =>
    obtain ⟨rfl, rfl⟩ := Prod.mk.inj (Option.some.inj hcur)
    exact (htick _ rfl).main hcount (wp_of_reaches_tick (hlogged _ _ rfl)).1 ha
  | ends | drops _ | spawn => cases hcur
  | arrival ha =>
    obtain ⟨hbefore, halone, hleft⟩ := htick p hcur
    refine ⟨hbefore, halone, fun e he => LoopOp.leaves_congr (hleft e he) ?_ ?_ ?_ ?_ ?_⟩ <;> cases ha <;> rfl
  | task hi _ => exact (htick p hcur).of_running hi
  | finish hi => exact (htick p hcur).of_running hi

end

/-- The counter is the number of handlers that are running, and an automatic lock that takes place is alone from its
read of the counter to its end. Then the vault is locked, and nothing that was unlocked is left. -/
theorem auto_lock_alone {cfg₀ : Config} {s₀ : Daemon} (hs : Started (machine E) E cfg₀ cfg s₀ s) {c : DaemonConf}
    (h : Loop.Run (daemonLoop E cfg) Loop.noteMain (fun _ _ _ => True) (beforeRequests s) [] c t) :
    c.state.inFlightPrompts = c.running ∧
      ∀ idle p, c.current = some (.autoLockTick idle, p) → readsNone ∈ t →
        (∀ x ∈ c.tasks, x = none) ∧ (p = ret () → findsAgent ∈ t → LockedUp c.state) := by
  have hinv : Ticking E cfg c t := by
    induction h with
    | nil =>
      refine ⟨hs.inFlightPrompts_eq, fun ev p hcur => ?_, fun idle p hcur => ?_⟩ <;> cases hcur
    | move _ hstep _ ih => exact ih.step hstep
  refine ⟨hinv.counted, fun idle p hcur hin => ?_⟩
  have htick := hinv.tick idle p hcur
  refine ⟨Loop.Conf.running_eq_zero.1 (htick.alone hin), fun hp hfound => ?_⟩
  subst hp
  have hall := wp_of_reaches_tick (hinv.logged _ _ hcur) hfound
  exact lockedUp_of_leaves fun e he => htick.left e (hall e he)

/-- The reads of a tick that has locked a running agent. -/
def tickHasLocked (t : List LoopEvent) : Bool :=
  t.any (fun | ⟨.atomic (.op .loadInFlightPrompts), 0⟩ => true | _ => false) &&
    t.any fun | ⟨.atomic .loadIsRunning, true⟩ => true | _ => false

theorem reads_of_tickHasLocked (h : tickHasLocked t = true) : readsNone ∈ t ∧ findsAgent ∈ t := by
  obtain ⟨hread, hfound⟩ := Bool.and_eq_true_iff.1 h
  obtain ⟨e, he, hone⟩ := List.any_eq_true.1 hread
  obtain ⟨e', he', hone'⟩ := List.any_eq_true.1 hfound
  constructor
  · split at hone
    · exact he
    · cases hone
  · split at hone'
    · exact he'
    · cases hone'

/-- A request is answered, and then nothing happens for a quarter of an hour. -/
theorem auto_lock_alone_after_request : ∃ cfg s c t,
    Loop.Run (daemonLoop .plain cfg) Loop.noteMain (fun _ _ _ => True) (beforeRequests s) [] c t ∧
      c.tasks.length = 1 ∧ LockedUp c.state := by
  obtain ⟨cfg, s₀, s, c, t, hs, hrun, hcheck⟩ := exists_of_playCues
    (fun x : Config × DaemonConf × List LoopEvent => decide (x.2.1.tasks.length = 1) && (tickHasLocked x.2.2 &&
      x.2.1.current.any fun y => (match y.1 with | .autoLockTick _ => true | _ => false) && y.2.result?.isSome))
    (show (playCues plainScript plainConfig (fun _ => Loop.noteMain) (fun _ _ _ _ => true)
      (.spawn workRequest :: List.replicate 20 (.task 0) ++ .take (.autoLockTick 900) ::
        List.replicate 9 .main) []).any _ =
        true by decide +kernel)
  obtain ⟨hone, hcheck⟩ := Bool.and_eq_true_iff.1 hcheck
  obtain ⟨hlocked, hcurrent⟩ := Bool.and_eq_true_iff.1 hcheck
  obtain ⟨⟨ev, p⟩, hcur, hy⟩ := (Option.any_eq_true _ _).1 hcurrent
  obtain ⟨htick, hret⟩ := Bool.and_eq_true_iff.1 hy
  obtain ⟨u, hu⟩ := Option.isSome_iff_exists.1 hret
  obtain rfl := eq_ret_of_result? hu
  obtain ⟨idle, rfl⟩ : ∃ idle, ev = .autoLockTick idle := by
    cases ev <;> first | exact ⟨_, rfl⟩ | exact absurd htick Bool.false_ne_true
  obtain ⟨hread, hfound⟩ := reads_of_tickHasLocked hlocked
  have hrun' := hrun.mono fun _ _ _ _ => trivial
  exact ⟨cfg, s, c, t, hrun', of_decide_eq_true hone,
    ((auto_lock_alone hs hrun').2 idle _ hcur hread).2 rfl hfound⟩

end SshWarden
