import SshWarden.Lockless
import SshWarden.LockFlag
import SshWarden.LockRequests
import SshWarden.Scenario

/-!
# What a locked vault holds in memory

Secrets are in four places: the agent's keystore, the two lists of key tuples and the Local Cache Key.
`lock_vault` does not clear the list of public identities, which a login and a sync fill with private keys;
a sync fills both lists of a locked vault; an unlock that fails after it has taken up the Local Cache Key
keeps it; and a dropped action stops in the middle. `locked_holds_no_secrets` says that nothing else leaves
a secret in the memory of a locked vault.
-/

namespace SshWarden
open Prog

variable {E : Crates} {cfg₀ cfg : Config} {s s' : Daemon} {α : Type}

/-- One of the tuples carries a private key. -/
def holdsPem (E : Crates) (ks : List KeyTuple) : Bool := ks.any fun k => (E.parsePrivateKey k.key).isSome

/-- No secret is left in memory. -/
structure Secretless (E : Crates) (s : Daemon) : Prop where
  unsignable : s.agent.NoPrivate
  cached : holdsPem E s.cachedKeyTuples = false
  identities : holdsPem E s.publicKeyIdentityTuples = false
  key : s.localCacheKeyState = none

/-- Cache files list the public keys of their identities. -/
def ListsPublicKeys (E : Crates) : Event → Prop
  | ⟨.loadLocalKeyCache, .ok (some cache)⟩ => holdsPem E (keyTuplesFromCacheHeader cache) = false
  | _ => True

/-- Operations that take up a secret. -/
def Op.takesUp (E : Crates) : Op → Bool
  | writeLocalCacheKey key => key.isSome
  | writeCachedKeyTuples ks | writePublicKeyIdentityTuples ks | agentSetKeys ks => holdsPem E ks
  | _ => false

/-- How far an unlock has come. -/
inductive Progress
  | untouched | taken | unlocked
deriving DecidableEq, Repr

def Progress.after (E : Crates) : Progress → Event → Progress
  | .unlocked, _ => .unlocked
  | _, ⟨.storeVaultLocked false, _⟩ => .unlocked
  | p, e => if e.1.takesUp E then .taken else p

/-- The flag has been raised, and the Local Cache Key or the agent not been cleared since. -/
def raisedFlag : Bool → Event → Bool
  | _, ⟨.storeVaultLocked true, _⟩ => true
  | _, ⟨.writeLocalCacheKey none, _⟩ | _, ⟨.agentClearKeys, _⟩ => false
  | raised, _ => raised

/-- A dropped action stops between taking up a secret and lowering the lock flag, or between raising the
flag and clearing what was unlocked. -/
def StoppedHalfway (E : Crates) (s : Daemon) (tr : List Event) : Prop :=
  if s.vaultLocked then tr.foldl (Progress.after E) .untouched = .taken else tr.foldl raisedFlag false = true

/-- The turn comes to `lock_vault`, or stops in it. -/
def LockTurn (cfg : Config) (s : Daemon) : Turn → Prop
  | .event ev => LockTrigger cfg s ev
  | .dropped .lock => True
  | _ => False

/-- The turn may sync a vault that stays locked. -/
def Turn.syncsLocked : Turn → Bool
  | .event (.control .sync) | .event (.runtime _) => true
  | _ => false

/-- The caches the turn works on. -/
def WorksOn (s : Daemon) (tr : List Event) (cache : LocalKeyCacheFile) : Prop :=
  s.localKeyCacheData = some cache ∨ ⟨.loadLocalKeyCache, .ok (some cache)⟩ ∈ tr

/-- A lock finds no private keys among the public identities. On a locked vault an unlock that takes up a
Local Cache Key finds a list of keys under it, a sync brings no private keys, and a PIN that is set is not
saved. No action is dropped half-way. -/
structure LeavesNothing (E : Crates) (cfg : Config) (s : Daemon) (t : Turn) (tr : List Event) : Prop where
  lock : LockTurn cfg s t → holdsPem E s.publicKeyIdentityTuples = false
  unlock : s.vaultLocked = true → ∀ key, ⟨.writeLocalCacheKey (some key), ()⟩ ∈ tr → ∀ cache, WorksOn s tr cache →
    ∀ json, decryptEnvelopePayload E cache key = .ok (json, key) → ∃ keys, E.keysFromJson json = .ok keys
  sync : s.vaultLocked = true → t.syncsLocked = true → ∀ c keys, ⟨.fetchSync c, .ok keys⟩ ∈ tr →
    holdsPem E (keys.map DecryptedSshKey.tuple) = false
  setPin : s.vaultLocked = true → ∀ pin, t = .event (.control (.setPin pin)) →
    ∀ cache, ⟨.saveLocalKeyCache cache, .ok ()⟩ ∉ tr
  dropped : ∀ action, t = .dropped action → ¬StoppedHalfway E s tr

/-- The agent serves, and a locked vault has no secret in memory. -/
structure Discreet (E : Crates) (s : Daemon) : Prop where
  running : s.agent.isRunning = true
  secretless : s.vaultLocked = true → Secretless E s

theorem Discreet.of_unlocked (hr : s.agent.isRunning = true) (hu : s.vaultLocked = false) : Discreet E s :=
  ⟨hr, fun hl => absurd (hu.symm.trans hl) Bool.false_ne_true⟩

theorem keystoreOf_eq_nil {ks : List KeyTuple} (h : holdsPem E ks = false) : Agent.keystoreOf E ks = [] := by
  have hnone : ∀ k ∈ ks, E.parsePrivateKey k.key = none := by
    intro k hk
    have hk' := List.any_eq_false.1 h k hk
    simpa using hk'
  have hfold : ∀ (l : List KeyTuple), (∀ k ∈ l, E.parsePrivateKey k.key = none) →
      l.foldl (Agent.insertKey E) [] = [] := by
    intro l
    induction l with
    | nil => exact fun _ => rfl
    | cons k l ih =>
      intro hl
      have hstep : Agent.insertKey E [] k = [] := by rw [Agent.insertKey, hl k (List.mem_cons_self ..)]
      rw [List.foldl_cons, hstep]
      exact ih fun k' hk' => hl k' (List.mem_cons_of_mem _ hk')
  exact hfold ks hnone

theorem Secretless.next (h : Secretless E s) {o : Op} (ho : o.takesUp E = false) (a : o.Ans) :
    Secretless E (next E o s a) := by
  cases o with
  | writeLocalCacheKey key =>
    obtain rfl : key = none := by simpa [Op.takesUp] using ho
    exact ⟨h.unsignable, h.cached, h.identities, rfl⟩
  | writeCachedKeyTuples ks => exact ⟨h.unsignable, ho, h.identities, h.key⟩
  | writePublicKeyIdentityTuples ks => exact ⟨h.unsignable, h.cached, ho, h.key⟩
  | agentSetKeys ks =>
    refine ⟨?_, h.cached, h.identities, h.key⟩
    show (s.agent.setKeys E ks).NoPrivate
    unfold Agent.setKeys
    split
    · rw [keystoreOf_eq_nil ho]
      exact fun _ hp => nomatch hp
    · exact h.unsignable
  | agentSetPublicIdentities ks => exact ⟨h.unsignable.setPublicIdentities E ks, h.cached, h.identities, h.key⟩
  | agentLock => exact ⟨h.unsignable.lock, h.cached, h.identities, h.key⟩
  | agentClearKeys => exact ⟨Agent.noPrivate_clearKeys _, h.cached, h.identities, h.key⟩
  | _ =>
    first
      | exact ⟨h.unsignable, h.cached, h.identities, h.key⟩
      | (cases a <;> exact ⟨h.unsignable, h.cached, h.identities, h.key⟩)

theorem Discreet.next (h : Discreet E s) {o : Op} (ho : o.takesUp E = false) (hl : o.locks = false) (a : o.Ans) :
    Discreet E (SshWarden.next E o s a) := by
  refine ⟨isRunning_next E o a h.running, fun hlocked => ?_⟩
  cases hs : s.vaultLocked with
  | true => exact (h.secretless hs).next ho a
  | false => exact absurd ((Op.vaultLocked_next hl hs a).symm.trans hlocked) Bool.false_ne_true

theorem Progress.after_of_ne {p : Progress} (hp : p ≠ .unlocked) {o : Op} (ho : o ≠ .storeVaultLocked false)
    (a : o.Ans) : p.after E ⟨o, a⟩ = if o.takesUp E then .taken else p := by
  cases p with
  | unlocked => exact absurd rfl hp
  | untouched | taken =>
    cases o with
    | storeVaultLocked b => cases b <;> first | exact absurd rfl ho | rfl
    | _ => rfl

/-- While an action runs on a locked vault: no secret has been taken up, or one has, or the flag has been
lowered. -/
def Guarded (E : Crates) (x : Daemon × Progress) : Prop :=
  match x.2 with
  | .untouched => Secretless E x.1
  | .taken => True
  | .unlocked => x.1.vaultLocked = false

theorem Guarded.next {x : Daemon × Progress} (h : Guarded E x) {o : Op} (ho : o.locks = false) (a : o.Ans) :
    Guarded E (SshWarden.next E o x.1 a, x.2.after E ⟨o, a⟩) := by
  obtain ⟨s, p⟩ := x
  by_cases hdown : o = .storeVaultLocked false
  · subst hdown
    have hp : p.after E ⟨.storeVaultLocked false, a⟩ = .unlocked := by cases p <;> rfl
    rw [hp]
    rfl
  · cases p with
    | unlocked => exact Op.vaultLocked_next ho h a
    | untouched =>
      have hafter : Progress.after E .untouched ⟨o, a⟩ = _ := Progress.after_of_ne (by decide) hdown a
      show Guarded E (_, Progress.after E .untouched ⟨o, a⟩)
      rw [hafter]
      cases htakes : o.takesUp E with
      | true => trivial
      | false => exact Secretless.next h htakes a
    | taken =>
      have hafter : Progress.after E .taken ⟨o, a⟩ = _ := Progress.after_of_ne (by decide) hdown a
      show Guarded E (_, Progress.after E .taken ⟨o, a⟩)
      rw [hafter, ite_self]
      trivial

theorem Lockless.steps_unlocked {p p' : DProg α} {tr : List Event} (hp : Lockless p)
    (h : Steps (machine E) p s tr p' s') (hu : s.vaultLocked = false) : s'.vaultLocked = false :=
  hp.steps (I := fun s => s.vaultLocked = false) (fun _ _ a ho hs _ => Op.vaultLocked_next ho hs a) hu h

/-- Where an action that does not lock is dropped, a locked vault has no secret in memory unless the action
stopped half-way. -/
theorem Lockless.discreet_of_steps {p p' : DProg α} {tr : List Event} (hp : Lockless p)
    (h : Steps (machine E) p s tr p' s') (hok : ¬StoppedHalfway E s tr) (hI : Discreet E s) : Discreet E s' := by
  have hr : s'.agent.isRunning = true := isRunning_of_steps h hI.running
  cases hl : s.vaultLocked with
  | false => exact .of_unlocked hr (hp.steps_unlocked h hl)
  | true =>
    have hstart : Guarded E (s, .untouched) := hI.secretless hl
    have hg : Guarded E (s', tr.foldl (Progress.after E) .untouched) :=
      hp.steps (I := Guarded E) (fun _ x a ho hx _ => hx.next ho a) hstart (h.track (Progress.after E) .untouched)
    have htaken : tr.foldl (Progress.after E) .untouched ≠ .taken := fun ht =>
      hok (by rw [StoppedHalfway, if_pos hl]; exact ht)
    cases hfold : tr.foldl (Progress.after E) .untouched with
    | untouched => exact ⟨hr, fun _ => by rw [hfold] at hg; exact hg⟩
    | taken => exact absurd hfold htaken
    | unlocked => exact .of_unlocked hr (by rw [hfold] at hg; exact hg)

/-- The daemon while it locks or forgets, with the flag it has raised. -/
abbrev raisingMachine (E : Crates) : Machine daemonSig (Daemon × Bool) := (machine E).track raisedFlag

/-- Wherever the watchdog may drop the action that locks, no secret is left, or the flag was just raised. -/
def DiscreetAtDrop (E : Crates) (o : Op) (x : Daemon × Bool) : Prop :=
  o.awaits = true → x.2 = true ∨ Discreet E x.1

theorem wp_lockVault_discreet {x : Daemon × Bool} (hI : Discreet E x.1)
    (hp : holdsPem E x.1.publicKeyIdentityTuples = false) :
    wp (raisingMachine E) (DiscreetAtDrop E) lockVault (fun _ x => Discreet E x.1) x := by
  refine wp_perform_bind.2 ⟨fun hw => absurd hw Bool.false_ne_true, fun a ha => ?_⟩
  obtain rfl : a = true := ha.trans hI.running
  have hr : x.1.agent.lock.isRunning = true := by rw [Agent.lock_isRunning, hI.running]
  have hn := Agent.noPrivate_lock hI.running
  refine wp_perform_bind.2 ⟨fun hw => absurd hw Bool.false_ne_true, fun _ _ => ?_⟩
  refine wp_perform_bind.2 ⟨fun _ => .inl rfl, fun _ _ => ?_⟩
  refine wp_perform_bind.2 ⟨fun _ => .inl rfl, fun _ _ => ?_⟩
  exact ⟨fun _ => .inr ⟨hr, fun _ => ⟨hn, rfl, hp, rfl⟩⟩, fun _ _ => ⟨hr, fun _ => ⟨hn, rfl, hp, rfl⟩⟩⟩

theorem wp_handleLock_discreet {x : Daemon × Bool} (hI : Discreet E x.1)
    (hp : x.1.vaultLocked = false → holdsPem E x.1.publicKeyIdentityTuples = false) :
    wp (raisingMachine E) (DiscreetAtDrop E) handleLock (fun _ x => Discreet E x.1) x := by
  refine wp_perform_bind.2 ⟨fun hw => absurd hw Bool.false_ne_true, fun locked hl => ?_⟩
  obtain rfl : locked = x.1.vaultLocked := hl
  refine (wp_ite ..).2 ⟨fun _ => hI, fun hno => ?_⟩
  refine wp_bind .. |>.2 ((wp_lockVault_discreet hI (hp (by simpa using hno))).post fun r _ h => ?_)
  cases r <;> exact h

theorem wp_lockVault_plain (hI : Discreet E s) (hp : holdsPem E s.publicKeyIdentityTuples = false) :
    wp (machine E) (fun _ _ => True) lockVault (fun _ => Discreet E) s := by
  have h : wp (raisingMachine E) (DiscreetAtDrop E) lockVault (fun _ x => Discreet E x.1) (s, false) :=
    wp_lockVault_discreet hI hp
  exact wp.of_track (h.mono (fun _ _ _ => trivial) fun _ _ hx => hx)

/-- A remote logout, or a tick of the auto-lock. -/
theorem wp_lockEvent_discreet {ev : MainEvent} (hev : ev = .hub .logOut ∨ ∃ idle, ev = .autoLockTick idle)
    (hI : Discreet E s) (hp : LockTrigger cfg s ev → holdsPem E s.publicKeyIdentityTuples = false) :
    wp (machine E) (fun _ _ => True) (mainStep E cfg ev) (fun _ => Discreet E) s := by
  rcases hev with rfl | ⟨idle, rfl⟩
  · refine wp_bind .. |>.2 ((support_notify .recordEvent).keepsCore.wp (.machine E) (fun _ _ _ _ => trivial) ?_)
    intro _ s₁ hs
    have hI₁ : Discreet E s₁ := by
      refine ⟨hs.agent ▸ hI.running, fun hl => ?_⟩
      have h := hI.secretless (hs.vaultLocked ▸ hl)
      exact ⟨hs.agent ▸ h.unsignable, hs.cachedKeyTuples ▸ h.cached, hs.publicKeyIdentityTuples ▸ h.identities,
        hs.localCacheKeyState ▸ h.key⟩
    refine wp_bind .. |>.2 ((wp_lockVault_plain hI₁ ?_).post fun _ _ h => h)
    exact hs.publicKeyIdentityTuples ▸ hp .logOut
  · refine (wp_ite ..).2 ⟨fun ht => wp_perform_bind.2 ⟨trivial, fun locked hl => ?_⟩, fun _ => hI⟩
    obtain rfl : locked = s.vaultLocked := hl
    refine (wp_ite ..).2 ⟨fun hu => wp_perform_bind.2 ⟨trivial, fun prompts hprompts => ?_⟩, fun _ => hI⟩
    obtain rfl : prompts = s.inFlightPrompts := hprompts
    refine (wp_ite ..).2 ⟨fun h0 => (wp_ite ..).2 ⟨fun hidle => ?_, fun _ => hI⟩, fun _ => hI⟩
    exact wp_bind .. |>.2 ((wp_lockVault_plain hI
      (hp (.idle idle ht (by simpa using hu) h0 hidle))).post fun _ _ h => h)

/-- Programs that take up no secret and leave the lock flag down. -/
abbrev Tame (E : Crates) (p : DProg α) : Prop :=
  Prog.Only (S := daemonSig) (fun o : Op => o.takesUp E = false ∧ o.locks = false) p

theorem tame_op {o : Op} (h : o.takesUp E = false) (hl : o.locks = false) : Tame E (op o) :=
  ⟨⟨h, hl⟩, fun _ => trivial⟩

theorem KeepsCore.tame {p : DProg α} (h : KeepsCore p) : Tame E p := by
  refine h.mono fun o ho => ?_
  cases o <;> first | exact ⟨rfl, rfl⟩ | exact absurd ho Bool.false_ne_true

theorem tame_forgetFiles (cfg : Config) (removeSharedCache : Bool) :
    Tame E (forgetFiles cfg removeSharedCache) := by
  refine .bind (.ite (.bind (tame_op rfl rfl) fun _ => trivial) trivial) fun _ =>
    .bind (.bind (tame_op rfl rfl) fun cache => ?_) fun _ => .bind (tame_op rfl rfl) fun _ =>
    .bind (tame_op rfl rfl) fun _ => .bind (tame_op rfl rfl) fun _ => trivial
  cases cache with
  | none => trivial
  | some cache => exact (slotReads_currentNativeUnlockSlot cfg cache).routine.keepsCore.tame

/-- The session's keys have been dropped. -/
structure Emptied (E : Crates) (s : Daemon) : Prop where
  running : s.agent.isRunning = true
  cached : holdsPem E s.cachedKeyTuples = false
  key : s.localCacheKeyState = none

theorem Emptied.next (h : Emptied E s) {o : Op} (ho : o.takesUp E = false) (a : o.Ans) :
    Emptied E (SshWarden.next E o s a) := by
  have hr := isRunning_next E o a h.running
  cases o with
  | writeLocalCacheKey key =>
    obtain rfl : key = none := by simpa [Op.takesUp] using ho
    exact ⟨hr, h.cached, rfl⟩
  | writeCachedKeyTuples ks => exact ⟨hr, ho, h.key⟩
  | _ => first | exact ⟨hr, h.cached, h.key⟩ | (cases a <;> exact ⟨hr, h.cached, h.key⟩)

/-- A `forget` of `s` may be dropped here. -/
def ForgetAtDrop (E : Crates) (s : Daemon) (o : Op) (x : Daemon × Bool) : Prop :=
  o.awaits = true → s.vaultLocked = false ∧ x.2 = true ∨ Discreet E x.1

/-- Before `forget` raises the flag. -/
structure Forgetting (E : Crates) (s : Daemon) (x : Daemon × Bool) : Prop where
  discreet : Discreet E x.1
  locked : s.vaultLocked = true → Secretless E x.1

theorem Forgetting.next {x : Daemon × Bool} (h : Forgetting E s x) {o : Op} (ho : o.takesUp E = false)
    (hl : o.locks = false) (a : o.Ans) : Forgetting E s ((raisingMachine E).next o x a) :=
  ⟨h.discreet.next ho hl a, fun hs => (h.locked hs).next ho a⟩

theorem wp_forgetting {p : DProg α} (hp : Tame E p) {x : Daemon × Bool} (h : Forgetting E s x)
    {Q : α → Daemon × Bool → Prop} (hQ : ∀ a x', Forgetting E s x' → Q a x') :
    wp (raisingMachine E) (ForgetAtDrop E s) p Q x :=
  (hp.wp (I := Forgetting E s) (fun _ _ a ho hx _ => hx.next ho.1 ho.2 a) h).mono
    (fun _ _ hx _ => .inr hx.discreet) hQ

/-- From the raised flag to the cleared agent. -/
structure Raised (E : Crates) (s : Daemon) (x : Daemon × Bool) : Prop where
  emptied : Emptied E x.1
  locked : s.vaultLocked = true → Secretless E x.1
  raised : x.2 = true

theorem Raised.atDrop {x : Daemon × Bool} (h : Raised E s x) (o : Op) : ForgetAtDrop E s o x := by
  intro _
  cases hs : s.vaultLocked with
  | false => exact .inl ⟨rfl, h.raised⟩
  | true => exact .inr ⟨h.emptied.running, fun _ => h.locked hs⟩

theorem wp_forgetSession {x : Daemon × Bool} (h : Forgetting E s x) :
    wp (raisingMachine E) (ForgetAtDrop E s) forgetSession (fun _ => Raised E s) x := by
  have at_ : ∀ {x : Daemon × Bool} (o : Op), Forgetting E s x → ForgetAtDrop E s o x :=
    fun _ hx _ => .inr hx.discreet
  refine wp_perform_bind.2 ⟨at_ _ h, fun _ _ => ?_⟩
  have h₁ := h.next (o := .writeLocalCacheKey none) rfl rfl ()
  refine wp_perform_bind.2 ⟨at_ _ h₁, fun _ _ => ?_⟩
  have h₂ := h₁.next (o := .clearMemory) rfl rfl ()
  refine wp_perform_bind.2 ⟨at_ _ h₂, fun _ _ => ?_⟩
  have h₃ := h₂.next (o := .writeCachedKeyTuples []) rfl rfl ()
  have rest : Tame E (do
      op (.writeApiClient none)
      op (.storePendingSync false)
      op (.setNotificationClient none)
      notify .reset) :=
    .bind (tame_op rfl rfl) fun _ => .bind (tame_op rfl rfl) fun _ => .bind (tame_op rfl rfl) fun _ =>
      (support_notify _).keepsCore.tame
  have hrest : wp (raisingMachine E) (ForgetAtDrop E s) (do
      op (.writeApiClient none)
      op (.storePendingSync false)
      op (.setNotificationClient none)
      notify .reset) (fun _ x => Forgetting E s x ∧ Emptied E x.1) _ :=
    (rest.wp (I := fun x => Forgetting E s x ∧ Emptied E x.1)
      (fun _ _ a ho hx _ => ⟨hx.1.next ho.1 ho.2 a, hx.2.next ho.1 a⟩)
      ⟨h₃, ⟨h₃.discreet.running, rfl, rfl⟩⟩).mono (fun _ _ hx _ => .inr hx.1.discreet) fun _ _ hx => hx
  have hraise : ∀ x' : Daemon × Bool, Forgetting E s x' ∧ Emptied E x'.1 →
      wp (raisingMachine E) (ForgetAtDrop E s) (op (.storeVaultLocked true)) (fun _ => Raised E s) x' :=
        fun x' hx =>
    ⟨fun hw => absurd hw Bool.false_ne_true, fun _ _ =>
      ⟨hx.2.next (o := .storeVaultLocked true) rfl (),
        fun hs => (hx.1.locked hs).next (o := .storeVaultLocked true) rfl (), rfl⟩⟩
  have hall := (wp_bind _ (fun _ => op (.storeVaultLocked true)) _).2 (hrest.post fun _ => hraise)
  exact hall

/-- The agent is cleared, and the identities of a cache that was kept are listed again. -/
theorem wp_forgetKeys_discreet (removeSharedCache : Bool) {x : Daemon × Bool} (h : Raised E s x) :
    wp ((raisingMachine E).restrict (ListsPublicKeys E)) (ForgetAtDrop E s) (forgetKeys removeSharedCache)
      (fun _ x => Discreet E x.1) x := by
  have keep : ∀ {x : Daemon × Bool} {o : Op} (a : o.Ans), Raised E s x → o.takesUp E = false →
      raisedFlag x.2 ⟨o, a⟩ = x.2 → Raised E s ((raisingMachine E).next o x a) := fun a hx ho hr =>
    ⟨hx.emptied.next ho a, fun hs => (hx.locked hs).next ho a, hr.trans hx.raised⟩
  have clear : ∀ {x : Daemon × Bool}, Raised E s x → holdsPem E x.1.publicKeyIdentityTuples = false →
      Forgetting E s ((raisingMachine E).next .agentClearKeys x ()) := by
    intro x hx hp
    have hclean : Secretless E ((raisingMachine E).next .agentClearKeys x ()).1 :=
      ⟨Agent.noPrivate_clearKeys _, hx.emptied.cached, hp, hx.emptied.key⟩
    exact ⟨⟨hx.emptied.running, fun _ => hclean⟩, fun _ => hclean⟩
  refine (wp_ite ..).2 ⟨fun _ => ?_, fun _ => ?_⟩
  · refine wp_perform_bind.2 ⟨h.atDrop _, fun _ _ => ?_⟩
    have h₁ := keep (o := .writeLocalKeyCache none) () h rfl rfl
    refine wp_perform_bind.2 ⟨h₁.atDrop _, fun _ _ => ?_⟩
    have h₂ := keep (o := .writePublicKeyIdentityTuples []) () h₁ rfl rfl
    refine wp_perform_bind.2 ⟨h₂.atDrop _, fun _ _ => ?_⟩
    have h₃ := keep (o := .writeKeyNames []) () h₂ rfl rfl
    exact ⟨h₃.atDrop _, fun _ _ => (clear h₃ rfl).discreet⟩
  · have hload : wp ((raisingMachine E).restrict (ListsPublicKeys E)) (ForgetAtDrop E s) loadSharedCache
        (fun cache x' => Raised E s x' ∧ ∀ c, cache = some c →
          holdsPem E (keyTuplesFromCacheHeader c) = false) x := by
      refine wp_perform_bind.2 ⟨h.atDrop _, fun r hr => ?_⟩
      have h₁ := keep (o := .loadLocalKeyCache) r h rfl rfl
      match r, hr, h₁ with
      | .error e, _, h₁ => exact ⟨h₁, nofun⟩
      | .ok none, _, h₁ => exact ⟨h₁, nofun⟩
      | .ok (some c), hr, h₁ =>
        refine ⟨h₁, fun c' hc => ?_⟩
        obtain rfl := Option.some.inj hc
        exact hr.2
    refine wp_bind .. |>.2 (hload.post ?_)
    rintro cache x₁ ⟨h₁, hc⟩
    refine wp_perform_bind.2 ⟨h₁.atDrop _, fun _ _ => ?_⟩
    have h₂ := keep (o := .writeLocalKeyCache cache) () h₁ rfl rfl
    refine wp_perform_bind.2 ⟨h₂.atDrop _, fun _ _ => ?_⟩
    have h₃ := keep (o := .writePublicKeyIdentityTuples []) () h₂ rfl rfl
    refine wp_perform_bind.2 ⟨h₃.atDrop _, fun _ _ => ?_⟩
    have h₄ := keep (o := .writeKeyNames []) () h₃ rfl rfl
    refine wp_perform_bind.2 ⟨h₄.atDrop _, fun _ _ => ?_⟩
    have h₅ := clear h₄ rfl
    cases cache with
    | none => exact h₅.discreet
    | some c =>
      refine wp_perform_bind.2 ⟨fun _ => .inr h₅.discreet, fun a _ => ?_⟩
      have h₆ := h₅.next (o := .agentSetPublicIdentities (keyTuplesFromCacheHeader c)) rfl rfl a
      refine wp_perform_bind.2 ⟨fun _ => .inr h₆.discreet, fun _ _ => ?_⟩
      have h₇ := h₆.next (o := .writePublicKeyIdentityTuples (keyTuplesFromCacheHeader c)) (hc c rfl) rfl ()
      exact ⟨fun _ => .inr h₇.discreet, fun _ _ =>
        (h₇.next (o := .writeKeyNames (keyNamesOf (keyTuplesFromCacheHeader c))) rfl rfl ()).discreet⟩

theorem wp_handleForget_discreet (shared : Bool) (hI : Discreet E s) :
    wp ((raisingMachine E).restrict (ListsPublicKeys E)) (ForgetAtDrop E s) (handleForget cfg shared)
      (fun _ x => Discreet E x.1) (s, false) := by
  have restricted : ∀ {β : Type} {p : DProg β} {Q : β → Daemon × Bool → Prop} {x : Daemon × Bool},
      wp (raisingMachine E) (ForgetAtDrop E s) p Q x →
      wp ((raisingMachine E).restrict (ListsPublicKeys E)) (ForgetAtDrop E s) p Q x := by
    intro β p Q x h
    exact wp_of_steps (fun _ _ _ _ hs => h.at_op hs.of_restrict.1) fun _ _ _ hs => h.of_ret hs.of_restrict.1
  have hstart : Forgetting E s (s, false) := ⟨hI, hI.secretless⟩
  refine wp_bind .. |>.2 ((restricted (wp_forgetting (tame_forgetFiles cfg _) hstart fun _ _ hx => hx)).post ?_)
  intro failures x₁ h₁
  refine wp_bind .. |>.2 ((restricted (wp_forgetSession h₁)).post fun _ x₂ h₂ => ?_)
  exact wp_bind .. |>.2 ((wp_forgetKeys_discreet _ h₂).post fun _ _ hx => hx)

/-! ### A whole turn on a locked vault -/

/-- The two states agree on the flag, the secrets and the cache in memory. -/
structure SameMemory (s s' : Daemon) : Prop where
  keystore : s'.agent.keystore = s.agent.keystore
  isRunning : s'.agent.isRunning = s.agent.isRunning
  vaultLocked : s'.vaultLocked = s.vaultLocked
  cachedKeyTuples : s'.cachedKeyTuples = s.cachedKeyTuples
  publicKeyIdentityTuples : s'.publicKeyIdentityTuples = s.publicKeyIdentityTuples
  localCacheKeyState : s'.localCacheKeyState = s.localCacheKeyState
  localKeyCacheData : s'.localKeyCacheData = s.localKeyCacheData

theorem SameMemory.refl (s : Daemon) : SameMemory s s := ⟨rfl, rfl, rfl, rfl, rfl, rfl, rfl⟩

theorem SameMemory.trans {s'' : Daemon} (h : SameMemory s s') (h' : SameMemory s' s'') : SameMemory s s'' where
  keystore := h'.keystore.trans h.keystore
  isRunning := h'.isRunning.trans h.isRunning
  vaultLocked := h'.vaultLocked.trans h.vaultLocked
  cachedKeyTuples := h'.cachedKeyTuples.trans h.cachedKeyTuples
  publicKeyIdentityTuples := h'.publicKeyIdentityTuples.trans h.publicKeyIdentityTuples
  localCacheKeyState := h'.localCacheKeyState.trans h.localCacheKeyState
  localKeyCacheData := h'.localKeyCacheData.trans h.localKeyCacheData

/-- Operations that leave these alone. -/
def Op.isBland : Op → Bool
  | writeLocalKeyCache _ | writeLocalCacheKey _ | writeCachedKeyTuples _ | writePublicKeyIdentityTuples _ => false
  | o => o.isSteady

abbrev Bland (p : DProg α) : Prop := Prog.Only (S := daemonSig) (fun o : Op => o.isBland = true) p

theorem sameMemory_next {o : Op} (ho : o.isBland = true) (s : Daemon) (a : o.Ans) :
    SameMemory s (next E o s a) := by
  cases o <;> first
    | exact absurd ho Bool.false_ne_true
    | exact ⟨rfl, rfl, rfl, rfl, rfl, rfl, rfl⟩
    | (cases a <;> exact ⟨rfl, rfl, rfl, rfl, rfl, rfl, rfl⟩)

theorem bland_op {o : Op} (h : o.isBland = true) : Bland (op o) := ⟨h, fun _ => trivial⟩

theorem Op.isBland_of_isQuiet {o : Op} (h : o.isQuiet = true) : o.isBland = true := by
  cases o <;> first | rfl | exact absurd h Bool.false_ne_true

theorem Op.isBland_of_isSlotSupport {o : Op} (h : o.isSlotSupport = true) : o.isBland = true := by
  cases o <;> first | rfl | exact absurd h Bool.false_ne_true

theorem Op.isBland_of_isAnswering {o : Op} (h : o.isAnswering = true) : o.isBland = true := by
  cases o <;> first | rfl | exact absurd h Bool.false_ne_true

theorem SlotSupport.bland {p : DProg α} (h : SlotSupport p) : Bland p :=
  h.mono fun _ => Op.isBland_of_isSlotSupport

theorem Routine.bland {p : DProg α} (h : Routine p) : Bland p := h.support.slots.bland

variable {s₀ : Daemon} {tr : List Event} {t : Turn}

/-- The answers of the turn, in which nothing is locked. -/
abbrev turnMachine (E : Crates) (tr : List Event) : Machine daemonSig Daemon :=
  (machine E).restrict fun e => e ∈ tr ∧ e.1.locks = false

theorem Bland.wp {p : DProg α} (hp : Bland p) {Q : α → Daemon → Prop} (hQ : ∀ a s', SameMemory s s' → Q a s') :
    wp (turnMachine E tr) (fun _ _ => True) p Q s :=
  hp.wp_rel SameMemory.refl (fun _ _ _ => .trans) (fun _ s a ho _ => sameMemory_next ho s a)
    (fun _ _ _ _ => trivial) hQ

/-- A payload the turn works on. -/
def HasPayload (s₀ : Daemon) (tr : List Event) (payload : String) : Prop :=
  ∃ cache, WorksOn s₀ tr cache ∧ cache.encryptedPayload = payload

/-- During a turn that starts from the locked state `s₀`: while the vault is locked no secret is in memory,
and the cache there has a payload the turn works on. -/
structure StillDiscreet (E : Crates) (s₀ : Daemon) (tr : List Event) (s : Daemon) : Prop where
  discreet : Discreet E s
  payload : s.vaultLocked = true → ∀ cache, s.localKeyCacheData = some cache →
    HasPayload s₀ tr cache.encryptedPayload

theorem Secretless.congr (h : Secretless E s) (hs : SameMemory s s') : Secretless E s' :=
  ⟨(noPrivate_congr hs.keystore).2 h.unsignable, hs.cachedKeyTuples ▸ h.cached,
    hs.publicKeyIdentityTuples ▸ h.identities, hs.localCacheKeyState.trans h.key⟩

theorem Discreet.congr (h : Discreet E s) (hs : SameMemory s s') : Discreet E s' :=
  ⟨hs.isRunning.trans h.running, fun hl => (h.secretless (hs.vaultLocked ▸ hl)).congr hs⟩

theorem StillDiscreet.congr (h : StillDiscreet E s₀ tr s) (hs : SameMemory s s') : StillDiscreet E s₀ tr s' :=
  ⟨h.discreet.congr hs, fun hl cache hc => h.payload (hs.vaultLocked ▸ hl) cache (hs.localKeyCacheData ▸ hc)⟩

theorem StillDiscreet.of_unlocked (hr : s.agent.isRunning = true) (hu : s.vaultLocked = false) :
    StillDiscreet E s₀ tr s :=
  ⟨.of_unlocked hr hu, fun hl => absurd (hu.symm.trans hl) Bool.false_ne_true⟩

/-- Nothing private is fetched. -/
def FetchesNoPem (E : Crates) (tr : List Event) : Prop :=
  ∀ c keys, ⟨.fetchSync c, .ok keys⟩ ∈ tr → holdsPem E (keys.map DecryptedSshKey.tuple) = false

/-- What is known in the course of such a turn. -/
def turnFacts (E : Crates) (s₀ : Daemon) (tr : List Event) : Facts Daemon where
  I := StillDiscreet E s₀ tr
  Locked s := s.vaultLocked = true
  Unlocked s := s.vaultLocked = false
  Holds cache s := s.vaultLocked = true → HasPayload s₀ tr cache.encryptedPayload
  Opened json key _ := ∃ cache, WorksOn s₀ tr cache ∧ decryptEnvelopePayload E cache key = .ok (json, key)
  Client _ _ := True
  Fetched keys s := s.vaultLocked = false ∨ holdsPem E (keys.map DecryptedSshKey.tuple) = false
  Synced _ _ := True
  MaySync s := s.vaultLocked = false ∨ FetchesNoPem E tr
  MaySetPin _ s := s.vaultLocked = false ∨ ∀ cache, ⟨.saveLocalKeyCache cache, .ok ()⟩ ∉ tr
  pinOk _ := True
  mayForget := False

theorem turnFacts_keeps (h : SameMemory s s') : (turnFacts E s₀ tr).Keeps s s' where
  locked hl := h.vaultLocked.trans hl
  unlocked hu := h.vaultLocked.trans hu
  holds _ hc hl := hc (h.vaultLocked ▸ hl)
  opened _ _ := id
  client _ := id
  fetched _ := .imp_left h.vaultLocked.trans
  synced _ := id
  maySync := .imp_left h.vaultLocked.trans

theorem opened_of_payload {cache : LocalKeyCacheFile} {json : String} {key key' : SymmetricKey}
    (hc : HasPayload s₀ tr cache.encryptedPayload) (h : decryptEnvelopePayload E cache key' = .ok (json, key)) :
    ∃ c, WorksOn s₀ tr c ∧ decryptEnvelopePayload E c key = .ok (json, key) := by
  obtain ⟨c, hw, hp⟩ := hc
  have hkey : key' = key := by
    unfold decryptEnvelopePayload at h
    split at h
    · cases h
    · split at h
      · cases h
      · exact (Prod.mk.inj (Except.ok.inj h)).2
  subst hkey
  refine ⟨c, hw, ?_⟩
  rw [← h, decryptEnvelopePayload, decryptEnvelopePayload, hp]

theorem opened_of_pin {cache : LocalKeyCacheFile} {pin json : String} {key : SymmetricKey}
    (hc : HasPayload s₀ tr cache.encryptedPayload)
    (h : decryptEnvelopeLocalKeyCacheWithPin E cache pin = .ok (json, key)) :
    ∃ c, WorksOn s₀ tr c ∧ decryptEnvelopePayload E c key = .ok (json, key) := by
  obtain ⟨key', -, hopen⟩ := except_bind_ok h
  exact opened_of_payload hc hopen

theorem wp_reload_turn (h : StillDiscreet E s₀ tr s) :
    wp (turnMachine E tr) (fun _ _ => True) (reloadSharedLocalCacheFromDiskIfMultiDevice cfg)
      (fun _ s' => StillDiscreet E s₀ tr s' ∧ s'.vaultLocked = s.vaultLocked) s := by
  refine (wp_ite ..).2 ⟨fun _ => ⟨h, rfl⟩, fun _ => wp_perform_bind.2 ⟨trivial, fun r hr => ?_⟩⟩
  match r, hr with
  | .error e, _ => exact ⟨h, rfl⟩
  | .ok none, _ => exact ⟨h, rfl⟩
  | .ok (some cache), hr =>
    refine wp_bind .. |>.2
      ((slotSteps_persistDeviceUnlockSlotsFromCache cfg cache).slotRoutine.support.bland.wp ?_)
    intro _ s₁ hs
    have h₁ := h.congr hs
    refine ⟨trivial, fun _ _ => ⟨⟨⟨h₁.discreet.running, fun hl => ?_⟩, fun _ c hc => ?_⟩, hs.vaultLocked⟩⟩
    · exact ⟨(h₁.discreet.secretless hl).unsignable, (h₁.discreet.secretless hl).cached,
        (h₁.discreet.secretless hl).identities, (h₁.discreet.secretless hl).key⟩
    · obtain rfl := Option.some.inj hc
      exact ⟨cache, .inr hr.2.1, rfl⟩

theorem wp_decryptWithNative_turn {cache : LocalKeyCacheFile} (hc : HasPayload s₀ tr cache.encryptedPayload) :
    wp (turnMachine E tr) (fun _ _ => True) (decryptEnvelopeLocalKeyCacheWithNative E cfg cache)
      (fun r s' => SameMemory s s' ∧ ∀ json key, r = .ok (json, key) →
        ∃ c, WorksOn s₀ tr c ∧ decryptEnvelopePayload E c key = .ok (json, key)) s := by
  refine wp_bind .. |>.2 ((slotReads_currentNativeUnlockSlot cfg cache).routine.bland.wp fun slot s₁ h₁ => ?_)
  cases slot with
  | none => exact ⟨h₁, fun _ _ hno => nomatch hno⟩
  | some slot =>
    refine wp_perform_bind.2 ⟨trivial, fun r _ => ?_⟩
    cases r with
    | error e => exact ⟨h₁, fun _ _ hno => nomatch hno⟩
    | ok encoded =>
      dsimp only
      split
      · exact ⟨h₁, fun _ _ hno => nomatch hno⟩
      · exact ⟨h₁, fun _ _ hopen => opened_of_payload hc hopen⟩

theorem wp_requestPinDialog_turn {cache : LocalKeyCacheFile} (context : Option UnlockRequestContext)
    (hc : HasPayload s₀ tr cache.encryptedPayload) :
    wp (turnMachine E tr) (fun _ _ => True) (requestPinDialog context (pinValidator E cache))
      (fun r s' => SameMemory s s' ∧ ∀ pin json key, r = some (pin, json, key) →
        ∃ c, WorksOn s₀ tr c ∧ decryptEnvelopePayload E c key = .ok (json, key)) s := by
  refine wp_perform_bind.2 ⟨trivial, fun pins _ => ?_⟩
  have hkeeps : wp (turnMachine E tr) (fun _ _ => True) (validateSubmitted (pinValidator E cache) pins)
      (fun _ => SameMemory s) s := (pinSteps_validateSubmitted _ pins).routine.bland.wp fun _ _ hs => hs
  refine (hkeeps.and (wp_validateSubmitted pins)).mono (fun _ _ _ => trivial) ?_
  rintro r s₁ ⟨h₁, hr⟩
  refine ⟨h₁, fun pin json key he => ?_⟩
  exact opened_of_pin hc (except_eq_ok_of_toOption (hr pin (json, key) he).2)

theorem wp_migratePinSlotIfNeeded_turn {cache : LocalKeyCacheFile} {key : SymmetricKey} {pin : String}
    (h : StillDiscreet E s₀ tr s) (hc : HasPayload s₀ tr cache.encryptedPayload) :
    wp (turnMachine E tr) (fun _ _ => True) (migratePinSlotIfNeeded E cache key pin)
      (fun _ s' => StillDiscreet E s₀ tr s' ∧ s'.vaultLocked = s.vaultLocked) s := by
  refine (wp_ite ..).2 ⟨fun _ => ?_, fun _ => ⟨h, rfl⟩⟩
  have hmigrate : wp (turnMachine E tr) (fun _ _ => True) (migratePinSaltToV3 E cache key pin)
      (fun r s' => SameMemory s s' ∧ ∀ c, r = .ok c → c.encryptedPayload = cache.encryptedPayload) s := by
    refine wp_bind .. |>.2 ((routine_encryptLocalCacheKeyWithPin E key pin).bland.wp fun r s₁ h₁ => ?_)
    match r with
    | .error e => exact ⟨h₁, nofun⟩
    | .ok (enc, salt) =>
      refine wp_perform_bind.2 ⟨trivial, fun r _ => ?_⟩
      cases r with
      | error e => exact ⟨h₁, nofun⟩
      | ok _ =>
        refine ⟨h₁.trans ⟨rfl, rfl, rfl, rfl, rfl, rfl, rfl⟩, fun c he => ?_⟩
        obtain rfl := Except.ok.inj he
        rfl
  refine wp_bind .. |>.2 (hmigrate.post ?_)
  rintro r s₁ ⟨h₁, hr⟩
  have hs := h.congr h₁
  cases r with
  | error e => exact ⟨hs, h₁.vaultLocked⟩
  | ok migrated =>
    refine ⟨trivial, fun _ _ => ⟨⟨⟨hs.discreet.running, fun hl => ?_⟩, fun _ c he => ?_⟩, h₁.vaultLocked⟩⟩
    · exact ⟨(hs.discreet.secretless hl).unsignable, (hs.discreet.secretless hl).cached,
        (hs.discreet.secretless hl).identities, (hs.discreet.secretless hl).key⟩
    · obtain rfl := Option.some.inj he
      exact hr _ rfl ▸ hc

/-- A sync of a locked vault that brings no private key leaves no secret. -/
theorem wp_reconcile_turn {keys : List KeyTuple} (h : StillDiscreet E s₀ tr s)
    (hkeys : s.vaultLocked = false ∨ holdsPem E keys = false) :
    wp (turnMachine E tr) (fun _ _ => True) (reconcileSyncedKeyState E cfg keys)
      (fun _ s' => StillDiscreet E s₀ tr s') s := by
  cases hl : s.vaultLocked with
  | false =>
    refine (reconcilingSteps_reconcileSyncedKeyState E cfg keys).inner.steady.wp ((Lifts.machine E).restrict _)
      (fun _ _ _ _ => trivial) fun _ s' hs => ?_
    exact .of_unlocked (hs.isRunning.trans h.discreet.running) (hs.vaultLocked.trans hl)
  | true =>
    have hclean := h.discreet.secretless hl
    have hp : holdsPem E keys = false := hkeys.resolve_left (by simp [hl])
    refine wp_perform_bind.2 ⟨trivial, fun old _ => ?_⟩
    have hclear : Bland (clearAuthorizationMemoryForChangedKeys E old keys) :=
      .ite trivial (.bind (bland_op rfl) fun _ => trivial)
    refine wp_bind .. |>.2 (hclear.wp fun new s₁ h₁ => ?_)
    refine wp_perform_bind.2 ⟨trivial, fun _ _ => wp_perform_bind.2 ⟨trivial, fun _ _ => ?_⟩⟩
    refine wp_perform_bind.2 ⟨trivial, fun _ _ => wp_perform_bind.2 ⟨trivial, fun existing _ => ?_⟩⟩
    refine wp_perform_bind.2 ⟨trivial, fun key hkey => ?_⟩
    obtain rfl : key = none := hkey.1.trans (h₁.localCacheKeyState.trans hclean.key)
    have h₂ := h.congr h₁
    have hclean₂ := h₂.discreet.secretless (h₁.vaultLocked.trans hl)
    cases existing <;>
      exact ⟨⟨h₂.discreet.running, fun _ => ⟨hclean₂.unsignable, hp, hp, hclean₂.key⟩⟩, h₂.payload⟩

/-- What is not saved is not taken up. -/
theorem wp_writeEnvelope_turn (hno : ∀ cache, ⟨.saveLocalKeyCache cache, .ok ()⟩ ∉ tr) (keys : List KeyTuple)
    (email url pin : String) (key : SymmetricKey) :
    wp (turnMachine E tr) (fun _ _ => True) (writeEnvelopeLocalKeyCacheWithKey E cfg keys email url pin key)
      (fun r s' => SameMemory s s' ∧ ∀ made, r ≠ .ok made) s := by
  refine wp_bind .. |>.2 ((routine_encryptLocalCacheKeyWithPin E key pin).bland.wp fun r s₁ h₁ => ?_)
  match r with
  | .error e => exact ⟨h₁, nofun⟩
  | .ok (enc, salt) =>
    refine wp_perform_bind.2 ⟨trivial, fun iv _ => ?_⟩
    dsimp only
    split
    · exact ⟨h₁, nofun⟩
    · refine wp_bind .. |>.2
        ((slotSteps_enrollNativeIfPossible E cfg _ key).slotRoutine.support.bland.wp fun cache s₂ h₂ => ?_)
      refine wp_perform_bind.2 ⟨trivial, fun r hr => ?_⟩
      cases r with
      | error e => exact ⟨h₁.trans h₂, nofun⟩
      | ok u => exact absurd hr.2.1 (hno cache)

theorem wp_handleSetPin_turn (pin : String) (h : StillDiscreet E s₀ tr s)
    (hset : s.vaultLocked = false ∨ ∀ cache, ⟨.saveLocalKeyCache cache, .ok ()⟩ ∉ tr) :
    wp (turnMachine E tr) (fun _ _ => True) (handleSetPin E cfg pin) (fun _ s' => StillDiscreet E s₀ tr s') s := by
  rcases hset with hu | hno
  · refine (steady_handleSetPin E cfg pin).wp ((Lifts.machine E).restrict _)
      (fun _ _ _ _ => trivial) fun _ s' hs => ?_
    exact .of_unlocked (hs.isRunning.trans h.discreet.running) (hs.vaultLocked.trans hu)
  · refine (wp_ite ..).2 ⟨fun _ => h, fun _ => wp_perform_bind.2 ⟨trivial, fun keys _ => ?_⟩⟩
    refine (wp_ite ..).2 ⟨fun _ => h, fun _ => ?_⟩
    have hwrite : wp (turnMachine E tr) (fun _ _ => True) (writePinCache E cfg keys pin)
        (fun r s' => SameMemory s s' ∧ ∀ made, r ≠ .ok made) s := by
      refine wp_perform_bind.2 ⟨trivial, fun key _ => ?_⟩
      cases key with
      | some key => exact wp_writeEnvelope_turn hno keys _ _ pin key
      | none => exact wp_perform_bind.2 ⟨trivial, fun key _ => wp_writeEnvelope_turn hno keys _ _ pin key⟩
    refine wp_bind .. |>.2 (hwrite.post ?_)
    rintro r s₁ ⟨h₁, hr⟩
    cases r with
    | error e => exact h.congr h₁
    | ok made => exact absurd rfl (hr made)

/-- An unlock of the turn finds a list of keys under the Local Cache Key it takes up. -/
def UnlocksWell (E : Crates) (s₀ : Daemon) (tr : List Event) : Prop :=
  ∀ key, ⟨.writeLocalCacheKey (some key), ()⟩ ∈ tr → ∀ cache, WorksOn s₀ tr cache →
    ∀ json, decryptEnvelopePayload E cache key = .ok (json, key) → ∃ keys, E.keysFromJson json = .ok keys

theorem wp_unlock_turn {json : String} {key : SymmetricKey} (msg : String) (hok : UnlocksWell E s₀ tr)
    (h : StillDiscreet E s₀ tr s)
    (hopen : ∃ c, WorksOn s₀ tr c ∧ decryptEnvelopePayload E c key = .ok (json, key)) :
    wp (turnMachine E tr) (fun _ _ => True)
      (do op (.writeLocalCacheKey (some key)); finishUnlockWithJson E json msg)
      (fun resp s' => StillDiscreet E s₀ tr s' ∧ s'.vaultLocked = false ∧ resp.ok = true) s := by
  refine wp_perform_bind.2 ⟨trivial, fun u hu => ?_⟩
  obtain ⟨cache, hw, hdec⟩ := hopen
  obtain ⟨keys, hparse⟩ := hok key hu.2.1 cache hw json hdec
  unfold finishUnlockWithJson
  rw [hparse]
  refine wp_perform_bind.2 ⟨trivial, fun _ _ => wp_perform_bind.2 ⟨trivial, fun _ _ => ?_⟩⟩
  refine wp_perform_bind.2 ⟨trivial, fun loaded hloaded => ?_⟩
  obtain rfl : loaded = true := hloaded.1.trans h.discreet.running
  refine ⟨trivial, fun _ _ => ⟨.of_unlocked ?_ rfl, rfl, rfl⟩⟩
  exact (Agent.setKeys_isRunning ..).trans h.discreet.running

theorem turnPhases (cfg : Config) (hok : UnlocksWell E s₀ tr) :
    Phases E cfg (turnMachine E tr) (fun _ _ => True) (turnFacts E s₀ tr) where
  quiet ho hI := ⟨trivial, fun a _ =>
    have hs := sameMemory_next (Op.isBland_of_isQuiet ho) _ a
    ⟨hI.congr hs, turnFacts_keeps hs⟩⟩
  locked _ h := h.1.symm
  unlocked _ h := h.1.symm
  readCache hI h hl := hI.payload hl _ h.1.symm
  peekCache hI h hl := hI.payload hl _ h.1.symm
  peekClient _ _ := trivial
  maySync _ hu := .inl hu
  reload hI := (wp_reload_turn hI).post fun _ _ h => ⟨h.1, .imp_left h.2.trans⟩
  lock hI := wp_perform_bind.2 ⟨trivial, fun _ ha => absurd ha.2.2.symm Bool.false_ne_true⟩
  native hI hl hc := (wp_decryptWithNative_turn (hc hl)).post fun _ _ h => ⟨hI.congr h.1, turnFacts_keeps h.1, h.2⟩
  pin _ _ hl hc hdec := opened_of_pin (hc hl) hdec
  dialog context hI hl hc := (wp_requestPinDialog_turn context (hc hl)).post fun _ _ h =>
    ⟨hI.congr h.1, turnFacts_keeps h.1, h.2⟩
  migrate _ hI hl hc hopen _ := (wp_migratePinSlotIfNeeded_turn hI (hc hl)).post fun _ _ h =>
    ⟨h.1, h.2.trans hl, hopen⟩
  enroll hI _ _ := (slotSteps_enrollDevicePlatformSlotsIfMissing E cfg _).slotRoutine.support.bland.wp fun _ _ h =>
    ⟨hI.congr h, turnFacts_keeps h⟩
  unlock msg hI _ hopen := (wp_unlock_turn msg hok hI hopen).post fun _ _ h =>
    ⟨h.1, fun hno => absurd (hno.symm.trans h.2.2) Bool.false_ne_true, fun _ => .inl h.2.1⟩
  fetch hI hm _ := by
    refine (wp_ite ..).2 ⟨fun _ => ⟨hI, nofun⟩, fun _ => (wp_ite ..).2 ⟨fun _ => ⟨hI, nofun⟩, fun _ => ?_⟩⟩
    refine ⟨trivial, fun r hr => ⟨hI, fun keys hk => ?_⟩⟩
    subst hk
    exact hm.imp_right fun hno => hno _ keys hr.2.1
  reconcile hI hf := (wp_reconcile_turn hI hf).post fun _ _ h => ⟨h, trivial⟩
  load hI _ hu := ⟨trivial, fun _ _ => .of_unlocked ((Agent.setKeys_isRunning ..).trans hI.discreet.running) hu⟩
  setClient hI _ := ⟨trivial, fun _ _ =>
    have hs := sameMemory_next (E := E) (o := .writeApiClient _) rfl _ ()
    ⟨hI.congr hs, (turnFacts_keeps hs).maySync⟩⟩
  pokeClient grant hI _ :=
    ⟨trivial, fun _ _ => hI.congr (sameMemory_next (E := E) (o := .pokeApiClient _) rfl _ ())⟩
  checkKey hI hu := (inner_ensureLocalCacheKeyForManualSync E cfg).steady.wp ((Lifts.machine E).restrict _)
    (fun _ _ _ _ => trivial) fun _ _ h =>
      ⟨.of_unlocked (h.isRunning.trans hI.discreet.running) (h.vaultLocked.trans hu),
        .inl (h.vaultLocked.trans hu)⟩
  forget _ hno := hno.elim
  setPin pin hset hI := wp_handleSetPin_turn pin hI hset

theorem turnLoginPhases (E : Crates) (cfg : Config) (s₀ : Daemon) (tr : List Event) :
    Phases.LoginPhases E cfg (turnMachine E tr) (fun _ _ => True) (turnFacts E s₀ tr) (fun _ _ => True)
      (fun _ s => s.agent.isRunning = true) where
  fetch client hI := (support_syncSshKeys client).slots.bland.wp fun _ _ h => ⟨hI.congr h, fun _ _ => trivial⟩
  files _ _ _ _ := trivial
  reconcile hI _ := (reconcilingSteps_reconcileSyncedKeyState E cfg _).inner.steady.wp
    ((Lifts.machine E).restrict _)
    (fun _ _ _ _ => trivial) fun _ _ h => h.isRunning.trans hI.discreet.running
  names hJ := ⟨trivial, fun _ _ => hJ⟩
  load hJ := by
    refine ⟨trivial, fun a ha => ⟨fun hno => ?_, fun _ => ⟨trivial, fun _ _ => ⟨?_, .inl rfl⟩⟩⟩⟩
    · obtain rfl : a = true := ha.1.trans hJ
      exact absurd hno.symm Bool.false_ne_true
    · exact .of_unlocked ((Agent.setKeys_isRunning ..).trans hJ) rfl
  setClient hI hm := ⟨trivial, fun _ _ =>
    have hs := sameMemory_next (E := E) (o := .writeApiClient _) rfl _ ()
    ⟨hI.congr hs, (turnFacts_keeps hs).maySync hm⟩⟩

theorem turnRequestPhases (E : Crates) (cfg : Config) (s₀ : Daemon) (tr : List Event) :
    RequestPhases E cfg (turnMachine E tr) (fun _ _ => True) (turnFacts E s₀ tr) where
  requestUnlock request seed event hseed hI hl _ := by
    unfold unlockWithDecryptedKeys
    split
    · exact ⟨hI, fun _ => hl⟩
    · refine ⟨trivial, fun _ _ => ⟨trivial, fun _ _ => ?_⟩⟩
      refine wp_perform_bind.2 ⟨trivial, fun a ha => ?_⟩
      obtain rfl : a = true := ha.1.trans hI.discreet.running
      refine wp_bind .. |>.2 (hseed.bland.wp fun _ s₁ hs => ?_)
      refine ⟨trivial, fun _ _ => ⟨trivial, fun _ _ => ⟨trivial, fun _ _ => ⟨?_, fun hno => nomatch hno⟩⟩⟩⟩
      exact .of_unlocked (hs.isRunning.trans ((Agent.setKeys_isRunning ..).trans hI.discreet.running)) rfl
  unlockedRequest request hI _ := by
    have hbland : Bland (handleUnlockedRequest cfg request) :=
      (answering_handleUnlockedRequest cfg request).mono fun _ => Op.isBland_of_isAnswering
    exact hbland.wp fun _ _ hs => hI.congr hs

/-! ### Every turn -/

/-- An event of the main loop that does not lock. -/
theorem discreet_of_event {ev : MainEvent} (hev : ev.mayLock = false) (hI : Discreet E s)
    (hok : UnlocksWell E s tr)
    (hsync : (Turn.event ev).syncsLocked = true → FetchesNoPem E tr)
    (hset : ∀ pin, ev = .control (.setPin pin) → ∀ cache, ⟨.saveLocalKeyCache cache, .ok ()⟩ ∉ tr)
    (h : Steps (machine E) (mainStep E cfg ev) s tr (.ret ()) s') : Discreet E s' := by
  have hstart : StillDiscreet E s tr s := ⟨hI, fun _ cache hc => ⟨cache, .inl hc, rfl⟩⟩
  have hlockless : ∀ e ∈ tr, e.1.locks = false :=
    Only.mem_reaches (lockless_mainStep hev) h.reaches
  have hturn : Steps (turnMachine E tr) (mainStep E cfg ev) s tr (.ret ()) s' :=
    h.restrict fun e he => ⟨he, hlockless e he⟩
  have hallowed : Phases.eventAllowed (turnFacts E s tr) s ev := by
    cases ev with
    | control action =>
      cases action with
      | sync => exact .inr (hsync rfl)
      | setPin pin => exact .inr (hset pin rfl)
      | forget shared => exact absurd hev.symm Bool.false_ne_true
      | _ => trivial
    | runtime event => exact .inr (hsync rfl)
    | _ => trivial
  have hwp : wp (turnMachine E tr) (fun _ _ => True) (mainStep E cfg ev) (fun _ => StillDiscreet E s tr) s :=
    (turnPhases cfg hok).wp_mainStep
      (fun password hI' => (turnPhases cfg hok).wp_handleUnlockPassword (turnLoginPhases E cfg s tr) hI' password)
      hallowed hstart
  exact (hwp.of_ret hturn).discreet

theorem discreet_of_request {request : SshAgentUIRequest} (hI : Discreet E s) (hok : UnlocksWell E s tr)
    (h : Steps (machine E) (handleUiRequest E cfg request) s tr (.ret ()) s') : Discreet E s' := by
  have hstart : StillDiscreet E s tr s := ⟨hI, fun _ cache hc => ⟨cache, .inl hc, rfl⟩⟩
  have hlockless : ∀ e ∈ tr, e.1.locks = false :=
    Only.mem_reaches (lockless_handleUiRequest E cfg request) h.reaches
  have hwp : wp (turnMachine E tr) (fun _ _ => True) (handleUiRequest E cfg request)
      (fun _ => StillDiscreet E s tr) s :=
    (turnPhases cfg hok).wp_handleUiRequest (turnRequestPhases E cfg s tr) hstart request
  exact (hwp.of_ret (h.restrict fun e he => ⟨he, hlockless e he⟩)).discreet

/-- The main loop takes up an event. -/
theorem discreet_of_taken {ev : MainEvent} (hI : Discreet E s) (hok : LeavesNothing E cfg s (.event ev) tr)
    (h : Steps ((machine E).restrict (ListsPublicKeys E)) (mainStep E cfg ev) s tr (.ret ()) s') :
    Discreet E s' := by
  obtain ⟨hsteps, hlists⟩ := h.of_restrict
  cases hmay : ev.mayLock with
  | false =>
    cases hl : s.vaultLocked with
    | false =>
      exact .of_unlocked (isRunning_of_steps hsteps hI.running) ((lockless_mainStep hmay).steps_unlocked hsteps hl)
    | true =>
      refine discreet_of_event hmay hI (hok.unlock hl) (hok.sync hl) (fun pin he => ?_) hsteps
      exact hok.setPin hl pin (congrArg Turn.event he)
  | true =>
    have hlock : (ev = .hub .logOut ∨ ∃ idle, ev = .autoLockTick idle) →
        wp (machine E) (fun _ _ => True) (mainStep E cfg ev) (fun _ => Discreet E) s := fun hev =>
      wp_lockEvent_discreet hev hI hok.lock
    cases ev with
    | control action =>
      cases action with
      | lock =>
        have hwp : wp (raisingMachine E) (DiscreetAtDrop E) (mainStep E cfg (.control .lock))
            (fun _ x => Discreet E x.1) (s, false) :=
          wp_bind .. |>.2 ((wp_handleLock_discreet hI fun _ => hok.lock .command).post fun _ _ hx => hx)
        exact hwp.of_ret (hsteps.track raisedFlag false)
      | forget shared =>
        have hwp : wp ((raisingMachine E).restrict (ListsPublicKeys E)) (ForgetAtDrop E s)
            (mainStep E cfg (.control (.forget shared))) (fun _ x => Discreet E x.1) (s, false) :=
          wp_bind .. |>.2 ((wp_handleForget_discreet shared hI).post fun _ _ hx => hx)
        exact hwp.of_ret ((hsteps.track raisedFlag false).restrict hlists)
      | _ => exact absurd hmay Bool.false_ne_true
    | hub event =>
      cases event with
      | logOut => exact (hlock (.inl rfl)).of_ret hsteps
      | _ => exact absurd hmay Bool.false_ne_true
    | autoLockTick idle => exact (hlock (.inr ⟨idle, rfl⟩)).of_ret hsteps
    | _ => exact absurd hmay Bool.false_ne_true

/-- The watchdog drops an action. -/
theorem discreet_of_dropped {action : ControlAction} {p : DProg Unit} (hI : Discreet E s)
    (hok : LeavesNothing E cfg s (.dropped action) tr)
    (h : Steps ((machine E).restrict (ListsPublicKeys E)) (mainStep E cfg (.control action)) s tr p s')
    (hd : Dropped p) : Discreet E s' := by
  obtain ⟨hsteps, hlists⟩ := h.of_restrict
  have hhalf := hok.dropped action rfl
  cases hmay : (MainEvent.control action).mayLock with
  | false => exact (lockless_mainStep hmay).discreet_of_steps hsteps hhalf hI
  | true =>
    obtain ⟨o, k, rfl, hw⟩ := hd
    have hraised : s.vaultLocked = false → tr.foldl raisedFlag false ≠ true := fun hu hr =>
      hhalf (by rw [StoppedHalfway, if_neg (by simp [hu])]; exact hr)
    cases action with
    | lock =>
      cases hl : s.vaultLocked with
      | false =>
        have hwp : wp (raisingMachine E) (DiscreetAtDrop E) (mainStep E cfg (.control .lock))
            (fun _ x => Discreet E x.1) (s, false) :=
          wp_bind .. |>.2 ((wp_handleLock_discreet hI fun _ => hok.lock trivial).post fun _ _ hx => hx)
        exact (hwp.at_op (hsteps.track raisedFlag false) hw).resolve_left (hraised hl)
      | true =>
        have hwp : wp (machine E) (fun o _ => o.awaits = false)
            (mainStep E cfg (.control .lock)) (fun _ _ => True) s := by
          have hstep : mainStep E cfg (.control .lock) = (do let _ ← handleLock; return ()) := rfl
          rw [hstep]
          refine wp_bind .. |>.2 (wp_perform_bind.2 ⟨rfl, fun locked hlocked => ?_⟩)
          obtain rfl : locked = true := hlocked.trans hl
          trivial
        exact absurd ((hwp.at_op hsteps).symm.trans hw) Bool.false_ne_true
    | forget shared =>
      have hwp : wp ((raisingMachine E).restrict (ListsPublicKeys E)) (ForgetAtDrop E s)
          (mainStep E cfg (.control (.forget shared))) (fun _ x => Discreet E x.1) (s, false) :=
        wp_bind .. |>.2 ((wp_handleForget_discreet shared hI).post fun _ _ hx => hx)
      refine (hwp.at_op ((hsteps.track raisedFlag false).restrict hlists) hw).resolve_left ?_
      exact fun hno => hraised hno.1 hno.2
    | _ => exact absurd hmay Bool.false_ne_true

theorem LeavesNothing.received {ev : MainEvent} {s₁ : Daemon} (h : LeavesNothing E cfg s (.event ev) tr)
    (hr : Receives s ev s₁) : LeavesNothing E cfg s₁ (.event ev) tr := by
  have hlock : LockTrigger cfg s₁ ev → LockTrigger cfg s ev := by
    intro ht
    cases ht with
    | command => exact .command
    | logOut => exact .logOut
    | idle idle ht hu hp hi => cases hr; exact .idle idle ht hu hp hi
  cases hr <;> exact ⟨fun ht => h.lock (hlock ht), h.unlock, h.sync, h.setPin, h.dropped⟩

theorem Step.discreet (h : Step ((machine E).restrict (ListsPublicKeys E)) E cfg s t tr s')
    (hok : LeavesNothing E cfg s t tr) (hI : Discreet E s) : Discreet E s' := by
  cases h with
  | event hr hsteps =>
    refine discreet_of_taken (hI.congr ?_) (hok.received hr) hsteps
    cases hr <;> exact ⟨rfl, rfl, rfl, rfl, rfl, rfl, rfl⟩
  | dropped hne hsteps hd => exact discreet_of_dropped hI hok hsteps hd
  | arrives ha => cases ha; exact hI.congr ⟨rfl, rfl, rfl, rfl, rfl, rfl, rfl⟩
  | request hsteps =>
    obtain ⟨hsteps, -⟩ := hsteps.of_restrict
    cases hl : s.vaultLocked with
    | false =>
      exact .of_unlocked (isRunning_of_steps hsteps hI.running)
        ((lockless_handleUiRequest E cfg _).steps_unlocked hsteps hl)
    | true => exact discreet_of_request hI (hok.unlock hl) hsteps

/-! ### Start-up -/

theorem lockless_loadInitialKeys (E : Crates) (cfg : Config) (keys : List DecryptedSshKey) :
    Lockless (loadInitialKeys E cfg keys) :=
  .ite trivial <| .bind (lockless_op rfl) fun _ => .bind (lockless_op rfl) fun _ =>
    .bind (lockless_op rfl) fun _ =>
    .bind (lockless_op rfl) fun _ => .bind (lockless_op rfl) fun _ => .bind (lockless_op rfl) fun _ =>
    .ite (.bind (steady_promptSetupPin E cfg).lockless fun _ => trivial) trivial

theorem lockless_loadInitialIdentities : Lockless loadInitialIdentities := by
  refine .bind (lockless_op rfl) fun _ => .bind (lockless_op rfl) fun cache => ?_
  cases cache with
  | none => exact lockless_op rfl
  | some cache =>
    exact .ite (lockless_op rfl) (.bind (lockless_op rfl) fun _ => .bind (lockless_op rfl) fun _ =>
      .bind (lockless_op rfl) fun _ => lockless_op rfl)

/-- The daemon comes up locked with a cache, and lists the public keys of its identities. -/
theorem wp_bringUp_locked {M : Machine daemonSig Daemon} (hM : Lifts E M id) {c : LocalKeyCacheFile}
    (hc : holdsPem E (keyTuplesFromCacheHeader c) = false) (h : Secretless E s) :
    wp M (fun _ _ => True) (bringUp E cfg (some c) none) (fun up s' => up = true → Discreet E s') s := by
  have hnext : ∀ o s a, M.next o s a = next E o s a := hM.next
  have keep : ∀ {s o} (a : o.Ans), Discreet E s → Op.takesUp E o = false → o.locks = false →
      Discreet E (M.next o s a) := fun {s o} a hs ho hl => hnext o s a ▸ hs.next ho hl a
  refine wp_perform_bind.2 ⟨trivial, fun started _ => ?_⟩
  cases started with
  | false => exact nofun
  | true =>
    refine wp_perform_bind.2 ⟨trivial, fun _ _ => ?_⟩
    have h₁ : Discreet E (M.next (.storeVaultLocked true) (M.next .startAgent s true) ()) := by
      rw [hnext, hnext]
      exact ⟨rfl, fun _ => ⟨h.unsignable, h.cached, h.identities, h.key⟩⟩
    refine wp_perform_bind.2 ⟨trivial, fun _ _ => wp_perform_bind.2 ⟨trivial, fun _ _ => ?_⟩⟩
    have h₂ := keep (o := .writeLocalKeyCache (some c)) () (keep (o := .writeApiClient none) () h₁ rfl rfl) rfl rfl
    refine wp_bind .. |>.2 (wp_perform_bind.2 ⟨trivial, fun _ _ => wp_perform_bind.2 ⟨trivial, fun c' hc' => ?_⟩⟩)
    have h₃ := keep (o := .peekLocalKeyCache) c' (keep (o := .hold .localKeyCacheData .read) () h₂ rfl rfl) rfl rfl
    obtain rfl : c' = some c := by
      have hread := hM.ready _ _ _ hc'
      rw [id, hnext, hnext] at hread
      exact hread
    dsimp only
    split
    · exact ⟨trivial, fun _ _ _ => keep (o := .release .localKeyCacheData) () h₃ rfl rfl⟩
    · refine wp_perform_bind.2 ⟨trivial, fun _ _ => wp_perform_bind.2 ⟨trivial, fun _ _ => ?_⟩⟩
      have h₄ := keep (o := .writePublicKeyIdentityTuples (keyTuplesFromCacheHeader c)) () h₃ hc rfl
      have h₅ := keep (o := .writeKeyNames (keyNamesOf (keyTuplesFromCacheHeader c))) () h₄ rfl rfl
      refine wp_perform_bind.2 ⟨trivial, fun a _ => ⟨trivial, fun _ _ _ => ?_⟩⟩
      exact keep (o := .release .localKeyCacheData) ()
        (keep (o := .agentSetPublicIdentities (keyTuplesFromCacheHeader c)) a h₅ rfl rfl) rfl rfl

/-- Without a cache the daemon comes up unlocked. -/
theorem wp_bringUp_unlocked {M : Machine daemonSig Daemon} (hM : Lifts E M id)
    {login : Option (List DecryptedSshKey × BitwardenClient)} :
    wp M (fun _ _ => True) (bringUp E cfg none login) (fun up s' => up = true → Discreet E s') s := by
  have hnext : ∀ o s a, M.next o s a = next E o s a := hM.next
  have stays : ∀ {β : Type} {p : DProg β} {s}, Lockless p → s.agent.isRunning = true → s.vaultLocked = false →
      wp M (fun _ _ => True) p (fun _ => Discreet E) s := by
    intro β p s hp hr hu
    refine (hp.wp (I := fun s : Daemon => s.agent.isRunning = true ∧ s.vaultLocked = false)
      (fun o s a ho hs _ => ?_) ⟨hr, hu⟩).mono (fun _ _ _ => trivial) fun _ _ hs => .of_unlocked hs.1 hs.2
    rw [hnext]
    exact ⟨isRunning_next E o a hs.1, Op.vaultLocked_next ho hs.2 a⟩
  refine wp_perform_bind.2 ⟨trivial, fun started _ => ?_⟩
  cases started with
  | false => exact nofun
  | true =>
    refine wp_perform_bind.2 ⟨trivial, fun _ _ => ?_⟩
    have hup : (M.next (.storeVaultLocked false) (M.next .startAgent s true) ()).agent.isRunning = true ∧
        (M.next (.storeVaultLocked false) (M.next .startAgent s true) ()).vaultLocked = false := by
      rw [hnext, hnext]
      exact ⟨rfl, rfl⟩
    match login with
    | none =>
      have hrest : Lockless (do
          op (.writeApiClient none)
          op (.writeLocalKeyCache none)
          loadInitialIdentities
          return true : DProg Bool) :=
        .bind (lockless_op rfl) fun _ => .bind (lockless_op rfl) fun _ =>
          .bind lockless_loadInitialIdentities fun _ => trivial
      exact (stays hrest hup.1 hup.2).post fun _ _ hs _ => hs
    | some (keys, client) =>
      have hrest : Lockless (do
          op (.writeApiClient (some client))
          op (.writeLocalKeyCache none)
          op (.writeKeyNames (keyNamesOf (keys.map DecryptedSshKey.tuple)))
          loadInitialKeys E cfg keys) :=
        .bind (lockless_op rfl) fun _ => .bind (lockless_op rfl) fun _ => .bind (lockless_op rfl) fun _ =>
          lockless_loadInitialKeys E cfg keys
      exact (stays hrest hup.1 hup.2).post fun _ _ hs _ => hs

theorem Started.discreet (h : Started ((machine E).restrict (ListsPublicKeys E)) E cfg₀ cfg s s') :
    Discreet E s' := by
  obtain ⟨h₀, hsteps⟩ := h
  have hclean : Secretless E s := by
    rw [h₀]
    exact ⟨fun _ hp => (nomatch hp), rfl, rfl, rfl⟩
  have hwith : ∀ {cfg₁ cache login x}, (∀ {cfg₁}, wp ((machine E).restrict (ListsPublicKeys E)) (fun _ _ => True)
        (bringUp E cfg₁ cache login) (fun up s' => up = true → Discreet E s') x) →
      wp ((machine E).restrict (ListsPublicKeys E)) (fun _ _ => True) (startWith E cfg₁ cache login)
        (fun r s' => r.isSome = true → Discreet E s') x := by
    intro cfg₁ cache login x hb
    refine wp_bind .. |>.2 (hb.post fun up x' hx' => ?_)
    cases up with
    | false => exact nofun
    | true =>
      have hbland : Bland (connectInitialClient E cfg₁) :=
        (Phases.quiet_connectInitialClient E cfg₁).mono fun _ => Op.isBland_of_isQuiet
      refine wp_bind .. |>.2 (hbland.wp_rel SameMemory.refl (fun _ _ _ => .trans)
        (fun _ s a ho _ => sameMemory_next ho s a) (fun _ _ _ _ => trivial) fun _ _ hs _ => ?_)
      exact (hx' rfl).congr hs
  have hlifts := (Lifts.machine E).restrict (ListsPublicKeys E)
  have hstart : wp ((machine E).restrict (ListsPublicKeys E)) (fun _ _ => True) (startUp E cfg₀)
      (fun r s' => r.isSome = true → Discreet E s') s :=
    Phases.wp_startUp (P := Secretless E) (C := fun c => holdsPem E (keyTuplesFromCacheHeader c) = false)
      (K := fun _ => True)
      (fun ho hx => ⟨trivial, fun a _ => hx.congr (sameMemory_next (Op.isBland_of_isSlotSupport ho) _ a)⟩)
      (fun _ hr => hr.2) (fun _ _ => trivial) (fun _ => nofun)
      (fun hx hc => hwith (wp_bringUp_locked hlifts hc hx)) (fun _ _ => hwith (wp_bringUp_unlocked hlifts)) hclean
  exact hstart.of_ret hsteps rfl

end SshWarden
