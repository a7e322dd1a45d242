import SshWarden.Scenario
import SshWarden.Steady

/-!
# Lock requests

`lock_vault` begins with a call of the agent that fails when the agent is not running, and returns
early then. The agent stops running when its serve task exits, which the main loop does not notice.
`lock_takes_effect_iff` says which lock requests take effect.
-/

namespace SshWarden
open Prog

variable {E : Crates} {cfg : Config} {s s' : Daemon} {α : Type}

/-- The states of a daemon whose serve task may exit: it leaves `is_running` cleared. -/
inductive ReachableOrExited (E : Crates) (cfg₀ cfg : Config) : Daemon → Prop
  | started {s₀ s : Daemon} (h : Started (machine E) E cfg₀ cfg s₀ s) : ReachableOrExited E cfg₀ cfg s
  | turn {s s' : Daemon} {t : Turn} {tr : List Event} (hs : ReachableOrExited E cfg₀ cfg s)
      (h : Step (machine E) E cfg s t tr s') : ReachableOrExited E cfg₀ cfg s'
  | serveExits {s : Daemon} (hs : ReachableOrExited E cfg₀ cfg s) :
      ReachableOrExited E cfg₀ cfg { s with agent.isRunning := false }

theorem Reachable.orExited {cfg₀ : Config} (h : Reachable E cfg₀ cfg s) : ReachableOrExited E cfg₀ cfg s :=
  h.induct (fun _ _ hs => .started hs) fun _ _ _ _ hstep _ hs => .turn hs hstep

/-- What asks for the vault to be locked: the command, a remote logout, and the tick of an idle session. -/
inductive LockTrigger (cfg : Config) (s : Daemon) : MainEvent → Prop
  | command : LockTrigger cfg s (.control .lock)
  | logOut : LockTrigger cfg s (.hub .logOut)
  | idle (idle : Nat) (ht : 0 < cfg.lockTimeout) (hs : s.vaultLocked = false) (hp : s.inFlightPrompts = 0)
      (hi : cfg.lockTimeout ≤ idle) : LockTrigger cfg s (.autoLockTick idle)

/-- The vault is locked, and nothing that was unlocked is left in memory. -/
structure LockedUp (s : Daemon) : Prop where
  vaultLocked : s.vaultLocked = true
  noPrivate : s.agent.NoPrivate
  cachedKeyTuples : s.cachedKeyTuples = []
  localCacheKeyState : s.localCacheKeyState = none
  authorizationMemory : s.authorizationMemory = []

/-- The request comes to `lock_vault` with the agent running. The command does not for a locked vault. -/
def ReachesAgent (s : Daemon) (ev : MainEvent) : Prop :=
  s.agent.isRunning = true ∧ ¬(ev = .control .lock ∧ s.vaultLocked = true)

theorem LockedUp.congr (h : LockedUp s) (hs : SameCore s s') : LockedUp s' where
  vaultLocked := hs.vaultLocked.trans h.vaultLocked
  noPrivate := hs.agent ▸ h.noPrivate
  cachedKeyTuples := hs.cachedKeyTuples.trans h.cachedKeyTuples
  localCacheKeyState := hs.localCacheKeyState.trans h.localCacheKeyState
  authorizationMemory := hs.authorizationMemory.trans h.authorizationMemory

/-- What `lock_vault` does from `s`: everything, or nothing when the agent is not running. -/
structure Locks (s s' : Daemon) : Prop where
  running : s.agent.isRunning = true → LockedUp s'
  stopped : s.agent.isRunning = false → SameCore s s'

theorem Locks.lockedUp_iff (h : Locks s s') : LockedUp s' ↔ s.agent.isRunning = true ∨ LockedUp s := by
  cases hr : s.agent.isRunning with
  | true => exact ⟨fun _ => .inl rfl, fun _ => h.running hr⟩
  | false =>
    have hs := h.stopped hr
    constructor
    · intro hc
      refine .inr ⟨hs.vaultLocked.symm.trans hc.vaultLocked, hs.agent ▸ hc.noPrivate,
        hs.cachedKeyTuples.symm.trans hc.cachedKeyTuples, ?_, ?_⟩
      · exact hs.localCacheKeyState.symm.trans hc.localCacheKeyState
      · exact hs.authorizationMemory.symm.trans hc.authorizationMemory
    · rintro (h | h)
      · exact absurd h Bool.false_ne_true
      · exact h.congr hs

theorem wp_lockVault_locks (s : Daemon) :
    wp (machine E) (fun _ _ => True) lockVault (fun _ => Locks s) s := by
  refine wp_perform_bind.2 ⟨trivial, fun locked hl => ?_⟩
  obtain rfl : locked = s.agent.isRunning := hl
  refine (wp_ite ..).2 ⟨fun hr => ?_, fun hr => ⟨fun h => absurd h hr, fun _ => ?_⟩⟩
  · refine ⟨trivial, fun _ _ => ⟨trivial, fun _ _ => ⟨trivial, fun _ _ => ⟨trivial, fun _ _ => ?_⟩⟩⟩⟩
    exact ⟨fun _ => ⟨rfl, Agent.noPrivate_lock hr, rfl, rfl, rfl⟩, fun h => absurd (h.symm.trans hr) (by decide)⟩
  · have hsame : s.agent.lock = s.agent := by simp [Agent.lock, hr]
    exact ⟨hsame, rfl, rfl, rfl, rfl, rfl, rfl, rfl, rfl, rfl, rfl⟩

theorem Locks.of_sameCore {s₁ : Daemon} (h : Locks s₁ s') (hs : SameCore s s₁) : Locks s s' :=
  ⟨fun hr => h.running ((congrArg Agent.isRunning hs.agent).trans hr),
    fun hr => hs.trans (h.stopped ((congrArg Agent.isRunning hs.agent).trans hr))⟩

/-- A lock request comes to `lock_vault`, or finds the vault locked and leaves everything as it is. -/
theorem LockTrigger.wp_mainStep {ev : MainEvent} (ht : LockTrigger cfg s ev) :
    wp (machine E) (fun _ _ => True) (mainStep E cfg ev)
      (fun _ s' => ¬(ev = .control .lock ∧ s.vaultLocked = true) ∧ Locks s s' ∨
        (ev = .control .lock ∧ s.vaultLocked = true) ∧ s' = s) s := by
  cases ht with
  | command =>
    have hstep : mainStep E cfg (.control .lock) = (do let _ ← handleLock; return ()) := rfl
    rw [hstep]
    refine wp_bind .. |>.2 (wp_perform_bind.2 ⟨trivial, fun locked hl => ?_⟩)
    obtain rfl : locked = s.vaultLocked := hl
    refine (wp_ite ..).2 ⟨fun hlocked => .inr ⟨⟨rfl, hlocked⟩, rfl⟩, fun hno => ?_⟩
    refine wp_bind .. |>.2 ((wp_lockVault_locks s).post fun r s' h => ?_)
    cases r <;> exact .inl ⟨fun hl => hno hl.2, h⟩
  | logOut =>
    refine wp_bind .. |>.2 ((support_notify .recordEvent).keepsCore.wp (.machine E) (fun _ _ _ _ => trivial) ?_)
    exact fun _ s₁ hs => wp_bind .. |>.2 ((wp_lockVault_locks s₁).post fun _ _ h =>
      .inl ⟨fun hev => (nomatch hev.1), h.of_sameCore hs⟩)
  | idle idle ht hs hp hi =>
    refine (wp_ite ..).2 ⟨fun _ => wp_perform_bind.2 ⟨trivial, fun locked hl => ?_⟩, fun hno => absurd ht hno⟩
    obtain rfl : locked = false := hl.trans hs
    refine wp_perform_bind.2 ⟨trivial, fun prompts hprompts => ?_⟩
    obtain rfl : prompts = 0 := hprompts.trans hp
    refine (wp_ite ..).2 ⟨fun _ => (wp_ite ..).2 ⟨fun _ => wp_bind .. |>.2 ?_, fun hno => absurd hi hno⟩,
      fun hno => absurd rfl hno⟩
    exact (wp_lockVault_locks s).post fun _ _ h => .inl ⟨fun hev => (nomatch hev.1), h⟩

/-- A lock request locks the vault and clears its secrets exactly when it reaches the agent with the
agent running, or there was nothing left to clear. -/
theorem lock_takes_effect_iff {E : Crates} {cfg : Config} {s s' : Daemon} {ev : MainEvent} {tr : List Event}
    (ht : LockTrigger cfg s ev) (h : Step (machine E) E cfg s (.event ev) tr s') :
    LockedUp s' ↔ ReachesAgent s ev ∨ LockedUp s := by
  cases h with
  | event hreceives hsteps =>
    rename_i s₁
    have hstart : LockTrigger cfg s₁ ev ∧ SameCore s s₁ := by
      cases hreceives with
      | hub event rest hq =>
        cases ht
        exact ⟨.logOut, rfl, rfl, rfl, rfl, rfl, rfl, rfl, rfl, rfl, rfl, rfl⟩
      | runtime event rest hq => cases ht
      | _ => exact ⟨ht, .refl _⟩
    obtain ⟨ht₁, hcore⟩ := hstart
    rcases ht₁.wp_mainStep.of_ret hsteps with ⟨hev, hl⟩ | ⟨⟨rfl, hlocked⟩, rfl⟩
    · rw [(hl.of_sameCore hcore).lockedUp_iff]
      have hev' : ¬(ev = .control .lock ∧ s.vaultLocked = true) := hcore.vaultLocked ▸ hev
      simp [ReachesAgent, hev']
    · cases hreceives
      exact ⟨.inr, fun h => h.resolve_left fun hr => hr.2 ⟨rfl, hlocked⟩⟩

/-- A login and a request that the user has approved. -/
def approvedScenes : List Scene := [.ask signRequest plainScript]

/-- There is a key to sign with, and every piece that a lock clears is filled. -/
def fullyOpen (s : Daemon) : Bool :=
  !s.vaultLocked && decide (0 < s.agent.signableKeyCount) && !s.cachedKeyTuples.isEmpty &&
    s.localCacheKeyState.isSome && !s.authorizationMemory.isEmpty

/-- The lock command on a vault with all of it in memory. -/
theorem lock_takes_effect_iff_command : ∃ cfg s tr s', Reachable .plain plainConfig cfg s ∧ fullyOpen s = true ∧
    Step (machine .plain) .plain cfg s (.event (.control .lock)) tr s' ∧ LockedUp s' ∧
    (LockedUp s' ↔ ReachesAgent s (.control .lock) ∨ LockedUp s) := by
  obtain ⟨cfg, s, hs, hcheck⟩ := exists_of_afterLogin
    (show (afterLogin plainConfig approvedScenes).any (fun x => fullyOpen x.2 &&
      ((Scene.take (.control .lock) plainScript).play .plain x.1 x.2).isSome) = true by decide +kernel)
  obtain ⟨hopen, hplays⟩ := Bool.and_eq_true_iff.1 hcheck
  obtain ⟨s', hplay⟩ := Option.isSome_iff_exists.1 hplays
  have hiff := lock_takes_effect_iff .command (Scene.step hplay)
  have hreaches : ReachesAgent s (.control .lock) := by
    refine ⟨hs.isRunning, fun hlocked => ?_⟩
    have hno : s.vaultLocked = true := hlocked.2
    simp [fullyOpen, hno] at hopen
  exact ⟨cfg, s, _, s', hs, hopen, Scene.step hplay, hiff.2 (.inl hreaches), hiff⟩

/-- The state in which the serve task has exited. -/
def served (x : Config × Daemon) : Daemon := { x.2 with agent.isRunning := false }

def remoteLogOut : Scene := .take (.hub .logOut) plainScript

/-- The remote logout leaves an unlocked vault with a signable key. -/
def ignoresLogOut (x : Config × Daemon) : Bool :=
  (remoteLogOut.play .plain x.1 (served x)).any fun s => !s.vaultLocked && decide (0 < s.agent.signableKeyCount)

/-- A remote logout after the serve task has exited does nothing. -/
theorem logOut_ignored : ¬∀ cfg s ev tr s', ReachableOrExited .plain plainConfig cfg s →
    LockTrigger cfg s ev → Step (machine .plain) .plain cfg s (.event ev) tr s' → LockedUp s' := by
  intro h
  obtain ⟨cfg, s, hr, hs⟩ := exists_of_afterLogin
    (show (afterLogin plainConfig [.deliver .logOut]).any ignoresLogOut = true by decide)
  obtain ⟨s', hplay, hunlocked⟩ := (Option.any_eq_true _ _).1 hs
  have hdone := h cfg _ _ _ s' (.serveExits hr.orExited) .logOut (Scene.step hplay)
  simp [hdone.vaultLocked] at hunlocked

end SshWarden
