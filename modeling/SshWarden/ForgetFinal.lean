import SshWarden.AutoUnlockRace
import SshWarden.RequestTasks

/-!
# `forget` beside request handlers

`forget` clears the session one piece after the other. A handler works with the cache it has read at its
start, and may open it while `forget` runs or after it has ended: what it writes then stays. A `forget` that
removes the shared cache is final where no handler of that time updates a piece that it has cleared already
(`forget_is_final`); handlers and events that come later find nothing to open. The session file is not
among the pieces: where its deletion fails it is still there.
-/

namespace SshWarden
open Prog

variable {E : Crates} {cfg : Config} {α : Type} {s s' : Daemon}

/-- The state a later unlock or sync would start from. -/
inductive Remnant
  | piece (p : Piece)
  | localKeyCacheData
  | apiClient
deriving DecidableEq, Repr

def Remnant.GoneIn : Remnant → Daemon → Prop
  | piece p, s => p.ClearedIn s
  | localKeyCacheData, s => s.localKeyCacheData = none
  | apiClient, s => s.apiClient = none

def Op.touches? : Op → Option Remnant
  | writeLocalKeyCache _ => some .localKeyCacheData
  | writeApiClient _ | pokeApiClient _ => some .apiClient
  | o => o.piece?.map .piece

def Op.clears? : Op → Option Remnant
  | agentClearKeys => some (.piece .keystore)
  | writeCachedKeyTuples [] => some (.piece .cachedKeyTuples)
  | writeLocalCacheKey none => some (.piece .localCacheKey)
  | storeVaultLocked true => some (.piece .vaultLocked)
  | writeLocalKeyCache none => some .localKeyCacheData
  | writeApiClient none => some .apiClient
  | _ => none

namespace LoopOp

def piece? : LoopOp → Option Piece
  | atomic o => o.piece?
  | openPrompt => none

def touches? : LoopOp → Option Remnant
  | atomic (.op o) => o.touches?
  | o => o.piece?.map .piece

def clears? : LoopOp → Option Remnant
  | atomic (.op o) => o.clears?
  | atomic .clearKeystore => some (.piece .keystore)
  | _ => none

/-- What has been cleared after the step. -/
def clearing (o : LoopOp) (cleared : List Remnant) : List Remnant := o.clears?.toList ++ cleared

end LoopOp

theorem Op.goneIn_of_clears {o : Op} {r : Remnant} (h : o.clears? = some r) (s : Daemon) (a : o.Ans) :
    r.GoneIn (SshWarden.next E o s a) := by
  unfold Op.clears? at h
  split at h <;> try cases h
  · exact Agent.noPrivate_clearKeys s.agent
  all_goals rfl

theorem LoopOp.goneIn_of_clears {o : LoopOp} {r : Remnant} (h : o.clears? = some r) (s : Daemon) (a : o.Ans) :
    r.GoneIn (loopNext E o s a) := by
  cases o with
  | openPrompt => cases h
  | atomic o =>
    cases o with
    | op o => exact Op.goneIn_of_clears h s a
    | clearKeystore =>
      obtain rfl := Option.some.inj h
      exact Agent.noPrivate_clearKeys s.agent
    | _ => cases h

theorem Remnant.GoneIn.next {r : Remnant} (h : r.GoneIn s) {o : LoopOp} (ho : o.touches? ≠ some r) (a : o.Ans) :
    r.GoneIn (loopNext E o s a) := by
  cases o with
  | openPrompt => exact h
  | atomic o =>
    cases r with
    | piece p =>
      refine Piece.ClearedIn.of_same h (same_of_piece?_ne (o := o) (fun hp => ho ?_) s a)
      cases o with
      | op o => cases o <;> first | cases hp; done | exact congrArg (Option.map Remnant.piece) hp
      | _ => exact congrArg (Option.map Remnant.piece) hp
    | localKeyCacheData =>
      cases o with
      | op o => cases o <;> first | exact h | exact absurd rfl ho | (cases a <;> exact h)
      | _ => exact h
    | apiClient =>
      cases o with
      | op o => cases o <;> first | exact h | exact absurd rfl ho | (cases a <;> exact h)
      | _ => exact h

/-! ### After `forget` -/

/-- Nothing can be opened and nothing can be fetched. -/
structure Forgotten (cfg : Config) (s : Daemon) : Prop where
  cleared : Cleared s
  vaultLocked : s.vaultLocked = true
  localKeyCacheData : s.localKeyCacheData = none
  apiClient : ∀ c, s.apiClient = some c → c.userKey = none
  diskCache : cfg.multiDevice = true → s.disk.localKeyCache = none

theorem Forgotten.of_gone (h : ∀ r : Remnant, r.GoneIn s)
    (hdisk : cfg.multiDevice = true → s.disk.localKeyCache = none) :
    Forgotten cfg s where
  cleared := ⟨h (.piece .keystore), h (.piece .cachedKeyTuples), h (.piece .localCacheKey)⟩
  vaultLocked := h (.piece .vaultLocked)
  localKeyCacheData := h .localKeyCacheData
  apiClient c hc := (Option.some_ne_none c (hc.symm.trans (h .apiClient))).elim
  diskCache := hdisk

theorem Forgotten.congr (h : Forgotten cfg s) (hks : s'.agent.keystore = s.agent.keystore)
    (htuples : s'.cachedKeyTuples = s.cachedKeyTuples) (hkey : s'.localCacheKeyState = s.localCacheKeyState)
    (hlocked : s'.vaultLocked = s.vaultLocked) (hcache : s'.localKeyCacheData = s.localKeyCacheData)
    (hclient : s'.apiClient = s.apiClient) (hdisk : s'.disk.localKeyCache = s.disk.localKeyCache) :
    Forgotten cfg s' where
  cleared := ⟨fun x hx => h.cleared.noPrivate x (hks ▸ hx), htuples.trans h.cleared.cachedKeyTuples,
    hkey.trans h.cleared.localCacheKey⟩
  vaultLocked := hlocked.trans h.vaultLocked
  localKeyCacheData := hcache.trans h.localKeyCacheData
  apiClient c hc := h.apiClient c (hclient ▸ hc)
  diskCache hm := hdisk.trans (h.diskCache hm)

/-- Operations that leave nothing behind. -/
def Op.isBarren : Op → Bool
  | agentLock | agentClearKeys | storeVaultLocked true | writeCachedKeyTuples [] | writeLocalCacheKey none
  | writeLocalKeyCache none | writeApiClient none | writePublicKeyIdentityTuples _ | clearMemory
  | deleteLocalKeyCache => true
  | o => o.isQuiet

theorem Forgotten.next_of_isBarren (h : Forgotten cfg s) {o : Op} (ho : o.isBarren = true) (a : o.Ans) :
    Forgotten cfg (next E o s a) := by
  unfold Op.isBarren at ho
  split at ho
  · exact ⟨⟨h.cleared.noPrivate.lock, h.cleared.cachedKeyTuples, h.cleared.localCacheKey⟩, h.vaultLocked,
      h.localKeyCacheData, h.apiClient, h.diskCache⟩
  · exact ⟨⟨Agent.noPrivate_clearKeys s.agent, h.cleared.cachedKeyTuples, h.cleared.localCacheKey⟩, h.vaultLocked,
      h.localKeyCacheData, h.apiClient, h.diskCache⟩
  · exact ⟨⟨h.cleared.noPrivate, h.cleared.cachedKeyTuples, h.cleared.localCacheKey⟩, rfl, h.localKeyCacheData,
      h.apiClient, h.diskCache⟩
  · exact ⟨⟨h.cleared.noPrivate, rfl, h.cleared.localCacheKey⟩, h.vaultLocked, h.localKeyCacheData, h.apiClient,
      h.diskCache⟩
  · exact ⟨⟨h.cleared.noPrivate, h.cleared.cachedKeyTuples, rfl⟩, h.vaultLocked, h.localKeyCacheData, h.apiClient,
      h.diskCache⟩
  · exact ⟨⟨h.cleared.noPrivate, h.cleared.cachedKeyTuples, h.cleared.localCacheKey⟩, h.vaultLocked, rfl,
      h.apiClient, h.diskCache⟩
  · exact ⟨⟨h.cleared.noPrivate, h.cleared.cachedKeyTuples, h.cleared.localCacheKey⟩, h.vaultLocked,
      h.localKeyCacheData, fun c hc => (Option.some_ne_none c hc.symm).elim, h.diskCache⟩
  · exact h.congr rfl rfl rfl rfl rfl rfl rfl
  · exact h.congr rfl rfl rfl rfl rfl rfl rfl
  · cases a with
    | error e => exact h
    | ok u =>
      exact ⟨⟨h.cleared.noPrivate, h.cleared.cachedKeyTuples, h.cleared.localCacheKey⟩, h.vaultLocked,
        h.localKeyCacheData, h.apiClient, fun _ => rfl⟩
  · have hs := sameSecrets_next E ho s a
    exact h.congr hs.keystore hs.cachedKeyTuples hs.localCacheKeyState hs.vaultLocked hs.localKeyCacheData
      hs.apiClient
      hs.diskCache

/-- A login that the server has accepted. -/
def acceptsLogin : LoopEvent → Bool
  | ⟨.atomic (.op (.loginPassword _ _)), .ok _⟩ => true
  | _ => false

/-- The answers that may be given after `forget`. -/
def forgottenMachine (E : Crates) (cfg : Config) : Machine loopSig Unit where
  ready o _ a := (∃ s, Forgotten cfg s ∧ loopReady E o s a) ∧ acceptsLogin ⟨o, a⟩ = false
  next _ _ _ := ()

/-- The step leaves nothing behind. -/
def LeavesForgotten (E : Crates) (cfg : Config) (o : LoopOp) : Prop :=
  ∀ s a, Forgotten cfg s → loopReady E o s a → Forgotten cfg (loopNext E o s a)

/-- Until a login is accepted the program leaves nothing behind. -/
def Barren (E : Crates) (cfg : Config) (p : LProg α) : Prop :=
  wp (forgottenMachine E cfg) (fun o _ => LeavesForgotten E cfg o) p (fun _ _ => True) ()

section
variable {o : LoopOp} {k : o.Ans → LProg α} {a : o.Ans}

theorem Barren.leaves (h : Barren E cfg (.vis o k)) (hs : Forgotten cfg s) (ha : loopReady E o s a) :
    Forgotten cfg (loopNext E o s a) :=
  h.1 s a hs ha

theorem Barren.rest (h : Barren E cfg (.vis o k)) (hs : Forgotten cfg s) (ha : loopReady E o s a)
    (hlogin : acceptsLogin ⟨o, a⟩ = false) : Barren E cfg (k a) :=
  h.2 a ⟨⟨s, hs, ha⟩, hlogin⟩

end

/-- The operations, with the answers that may be given after `forget`. -/
def forgottenOps (E : Crates) (cfg : Config) : Machine daemonSig Unit where
  ready o _ a := (forgottenMachine E cfg).ready (.atomic (.op o)) () a
  next _ _ _ := ()

/-- Operations that put keys into the agent. -/
def Op.refills : Op → Bool
  | agentSetKeys _ | agentSetPublicIdentities _ => true
  | _ => false

def OpLeavesForgotten (E : Crates) (cfg : Config) (o : Op) (_ : Unit) : Prop :=
  LeavesForgotten E cfg (.atomic (.op o)) ∧ o.refills = false

theorem leavesForgotten_stripPrivateKeys : LeavesForgotten E cfg (.atomic .stripPrivateKeys) := by
  intro s a hs _
  refine ⟨⟨fun x hx => ?_, hs.cleared.cachedKeyTuples, hs.cleared.localCacheKey⟩, hs.vaultLocked,
    hs.localKeyCacheData, hs.apiClient, hs.diskCache⟩
  obtain ⟨y, -, rfl⟩ := List.mem_map.1 hx
  rfl

theorem leavesForgotten_clearKeystore : LeavesForgotten E cfg (.atomic .clearKeystore) := fun s _ hs _ =>
  ⟨⟨Agent.noPrivate_clearKeys s.agent, hs.cleared.cachedKeyTuples, hs.cleared.localCacheKey⟩, hs.vaultLocked,
    hs.localKeyCacheData, hs.apiClient, hs.diskCache⟩

theorem barren_inSteps {p : DProg α}
    (h : wp (forgottenOps E cfg) (OpLeavesForgotten E cfg) p (fun _ _ => True) ()) :
    Barren E cfg (expand inSteps p) := by
  refine wp_inSteps (fun _ _ _ hD => hD.1) (fun _ _ _ _ ha => ha) (fun _ _ _ _ => rfl) (fun o _ ho hD => ?_) h
  have hload : LeavesForgotten E cfg (.atomic .loadIsRunning) := fun _ _ hs _ => hs
  have hstore : ∀ b, LeavesForgotten E cfg (.atomic (.storeNeedsUnlock b)) := fun _ _ _ hs _ =>
    hs.congr rfl rfl rfl rfl rfl rfl rfl
  cases o with
  | agentSetKeys ks => cases hD.2
  | agentSetPublicIdentities ids => cases hD.2
  | agentLock =>
    refine ⟨hload, fun running hrunning => ?_⟩
    cases running with
    | false => exact ⟨hrunning, rfl⟩
    | true => exact ⟨leavesForgotten_stripPrivateKeys, fun _ _ => ⟨hstore false, fun _ _ => ⟨hrunning, rfl⟩⟩⟩
  | agentClearKeys => exact ⟨leavesForgotten_clearKeystore, fun _ ha => ⟨hstore true, fun _ _ => ⟨ha, rfl⟩⟩⟩
  | authDialog info => exact ⟨fun _ _ hs _ => hs, fun _ _ => ⟨hD.1, fun a ha => ⟨ha, rfl⟩⟩⟩
  | _ => cases ho

theorem opLeavesForgotten_of_isBarren {o : Op} (h : o.isBarren = true) : OpLeavesForgotten E cfg o () := by
  refine ⟨fun s a hs _ => hs.next_of_isBarren h a, ?_⟩
  cases o <;> first | rfl | exact absurd h Bool.false_ne_true

abbrev BarrenSteps (p : DProg α) : Prop := Prog.Only (S := daemonSig) (fun o : Op => o.isBarren = true) p

theorem Op.isBarren_of_isQuiet {o : Op} (h : o.isQuiet = true) : o.isBarren = true := by
  cases o <;> first | rfl | exact absurd h Bool.false_ne_true

theorem BarrenSteps.wp {p : DProg α} (hp : BarrenSteps p) {Q : α → Unit → Prop} (hQ : ∀ a, Q a ()) :
    Prog.wp (forgottenOps E cfg) (OpLeavesForgotten E cfg) p Q () :=
  Only.wp_rel (R := fun _ _ => True) hp (fun _ => trivial) (fun _ _ _ _ _ => trivial) (fun _ _ _ _ _ => trivial)
    (fun _ _ ho _ => opLeavesForgotten_of_isBarren ho) fun a _ _ => hQ a

theorem Quiet.barren {p : DProg α} (h : Quiet p) : BarrenSteps p := h.mono fun _ => Op.isBarren_of_isQuiet

/-- A handler finds the vault locked, no cache, and a client without a key. -/
def forgottenFacts : Facts Unit where
  I _ := True
  Locked _ := True
  Unlocked _ := False
  Holds _ _ := False
  Opened _ _ _ := False
  Client c _ := c.userKey = none
  Fetched _ _ := False
  Synced _ _ := False
  MaySync _ := True
  MaySetPin _ _ := True
  pinOk _ := True
  mayForget := True

theorem Forgotten.loadedCache_eq {r : Option LocalKeyCacheFile} (hs : Forgotten cfg s)
    (hm : cfg.multiDevice = true)
    (h : ready E .loadLocalKeyCache s (.ok r)) : r = none :=
  ((h r rfl).1).trans (hs.diskCache hm)

theorem wp_handleForget_forgotten (shared : Bool) :
    wp (forgottenOps E cfg) (OpLeavesForgotten E cfg) (handleForget cfg shared) (fun _ _ => True) () := by
  have hfiles : BarrenSteps (forgetFiles cfg (shared || !cfg.multiDevice)) := by
    refine .bind (.ite (.bind (only_op rfl) fun _ => trivial) trivial) fun _ =>
      .bind (.bind (only_op rfl) fun cache => ?_) fun _ => .bind (only_op rfl) fun _ =>
      .bind (only_op rfl) fun _ => .bind (only_op rfl) fun _ => trivial
    cases cache with
    | none => trivial
    | some cache => exact (slotReads_currentNativeUnlockSlot cfg cache).routine.quiet.barren
  have hsession : BarrenSteps forgetSession :=
    .bind (only_op rfl) fun _ => .bind (only_op rfl) fun _ => .bind (only_op rfl) fun _ =>
      .bind (only_op rfl) fun _ =>
      .bind (only_op rfl) fun _ => .bind (only_op rfl) fun _ =>
        .bind (support_notify _).quiet.barren fun _ => only_op rfl
  have hshared : BarrenSteps forgetSharedKeys :=
    .bind (only_op rfl) fun _ => .bind (only_op rfl) fun _ => .bind (only_op rfl) fun _ => only_op rfl
  have hkeys : wp (forgottenOps E cfg) (OpLeavesForgotten E cfg) (forgetKeys (shared || !cfg.multiDevice))
      (fun _ _ => True) () := by
    refine (wp_ite ..).2 ⟨fun _ => hshared.wp fun _ => trivial, fun hno => ?_⟩
    have hm : cfg.multiDevice = true := by
      cases hm : cfg.multiDevice with
      | true => rfl
      | false => exact absurd (by rw [hm, Bool.not_false, Bool.or_true]) hno
    refine (wp_bind ..).2 (wp_perform_bind.2 ⟨opLeavesForgotten_of_isBarren rfl, ?_⟩)
    rintro r ⟨⟨s, hs, hr⟩, -⟩
    cases r with
    | error e => exact hshared.wp fun _ => trivial
    | ok r =>
      obtain rfl := hs.loadedCache_eq (E := E) hm hr
      exact hshared.wp fun _ => trivial
  refine (wp_bind ..).2 (hfiles.wp fun _ => (wp_bind ..).2 (hsession.wp fun _ => (wp_bind ..).2 (hkeys.post ?_)))
  exact fun _ _ _ => trivial

theorem forgottenPhases (E : Crates) (cfg : Config) :
    Phases E cfg (forgottenOps E cfg) (OpLeavesForgotten E cfg) forgottenFacts where
  quiet ho _ := ⟨opLeavesForgotten_of_isBarren (Op.isBarren_of_isQuiet ho), fun _ _ => ⟨trivial, .refl _ _⟩⟩
  locked _ _ := trivial
  unlocked _ ha := by
    obtain ⟨⟨s, hs, ha⟩, -⟩ := ha
    exact Bool.false_ne_true (Eq.trans ha hs.vaultLocked)
  readCache _ ha := by
    obtain ⟨⟨s, hs, ha⟩, -⟩ := ha
    exact Option.some_ne_none _ (Eq.trans ha hs.localKeyCacheData)
  peekCache _ ha := by
    obtain ⟨⟨s, hs, ha⟩, -⟩ := ha
    exact Option.some_ne_none _ (Eq.trans ha hs.localKeyCacheData)
  peekClient {x c} _ ha := by
    obtain ⟨⟨s, hs, ha⟩, -⟩ := ha
    exact hs.apiClient c (Eq.symm ha)
  maySync _ h := h.elim
  reload _ := by
    refine (wp_ite ..).2 ⟨fun _ => ⟨trivial, id⟩,
      fun hno => wp_perform_bind.2 ⟨opLeavesForgotten_of_isBarren rfl, ?_⟩⟩
    have hm : cfg.multiDevice = true := by simpa using hno
    rintro r ⟨⟨s, hs, hr⟩, -⟩
    cases r with
    | error e => exact ⟨trivial, id⟩
    | ok r =>
      obtain rfl := hs.loadedCache_eq (E := E) hm hr
      exact ⟨trivial, id⟩
  lock _ := by
    have hlock : BarrenSteps lockVault :=
      .bind (only_op rfl) fun _ => .ite (.bind (only_op rfl) fun _ => .bind (only_op rfl) fun _ =>
        .bind (only_op rfl) fun _ => .bind (only_op rfl) fun _ => trivial) trivial
    exact hlock.wp fun _ => trivial
  native _ _ h := h.elim
  pin _ _ _ h := h.elim
  dialog _ _ _ h := h.elim
  migrate _ _ _ h := h.elim
  enroll _ _ h := h.elim
  unlock _ _ _ h := h.elim
  fetch _ _ hc := by
    refine (wp_ite ..).2 ⟨fun _ => ⟨trivial, fun _ hno => by cases hno⟩,
      fun _ => (wp_ite ..).2 ⟨fun _ => ?_, fun hno => ?_⟩⟩
    · exact ⟨trivial, fun _ hno => by cases hno⟩
    · exact absurd (by rw [hc]; rfl) hno
  reconcile _ h := h.elim
  load _ h := h.elim
  setClient {x c} _ hc := by
    refine ⟨⟨fun s a hs _ => ?_, rfl⟩, fun _ _ => ⟨trivial, id⟩⟩
    refine ⟨⟨hs.cleared.noPrivate, hs.cleared.cachedKeyTuples, hs.cleared.localCacheKey⟩, hs.vaultLocked,
      hs.localKeyCacheData, fun c' hc' => ?_, hs.diskCache⟩
    obtain rfl := Option.some.inj hc'
    exact hc
  pokeClient {x c} grant _ hc := by
    refine ⟨⟨fun s a hs _ => ?_, rfl⟩, fun _ _ => trivial⟩
    refine ⟨⟨hs.cleared.noPrivate, hs.cleared.cachedKeyTuples, hs.cleared.localCacheKey⟩, hs.vaultLocked,
      hs.localKeyCacheData, fun c' hc' => ?_, hs.diskCache⟩
    obtain rfl := Option.some.inj hc'
    exact hc
  checkKey _ h := h.elim
  forget shared _ _ := wp_handleForget_forgotten shared
  setPin pin _ _ := by
    refine (wp_ite ..).2 ⟨fun _ => trivial, fun _ => wp_perform_bind.2 ⟨opLeavesForgotten_of_isBarren rfl, ?_⟩⟩
    rintro keys ⟨⟨s, hs, hkeys⟩, -⟩
    have hempty : keys = [] := Eq.trans hkeys hs.cleared.cachedKeyTuples
    exact (wp_ite ..).2 ⟨fun _ => trivial, fun hne => absurd hempty hne⟩

theorem barren_handle (ev : MainEvent) : Barren E cfg ((daemonLoop E cfg).handle ev) := by
  refine barren_inSteps ((forgottenPhases E cfg).wp_mainStep (fun password hI => ?_) ?_ trivial)
  · exact (forgottenPhases E cfg).wp_refusedLogin (fun {_ _ _ _} h => Bool.false_ne_true h.2.symm) hI password
  · cases ev with
    | control action => cases action <;> trivial
    | _ => trivial

theorem barren_serve (request : SshAgentUIRequest) : Barren E cfg ((daemonLoop E cfg).serve request) := by
  have hrequests : RequestPhases E cfg (forgottenOps E cfg) (OpLeavesForgotten E cfg) forgottenFacts :=
    ⟨fun _ _ _ _ _ _ h => h.elim, fun _ _ h => h.elim⟩
  exact barren_inSteps ((forgottenPhases E cfg).wp_handleUiRequest hrequests trivial request)

/-! ### `forget` clears everything -/

/-- The program clears everything, and changes nothing of it otherwise. -/
def ClearsAll (p : LProg Unit) (cleared : List Remnant) : Prop :=
  wp (Machine.record (S := loopSig) (fun _ => True) fun cleared e => e.1.clearing cleared)
    (fun o _ => o.touches? = o.clears?) p (fun _ cleared => ∀ r, r ∈ cleared) cleared

abbrev clearedOps : Machine daemonSig (List Remnant) :=
  .record (fun _ => True) fun cleared e => e.1.clears?.toList ++ cleared

abbrev OnlyClears : Op → List Remnant → Prop := fun o _ => o.touches? = o.clears?

theorem wp_handleForget_clears {shared : Bool} (h : (shared || !cfg.multiDevice) = true) (cleared : List Remnant) :
    wp clearedOps OnlyClears (handleForget cfg shared) (fun _ cleared => ∀ r, r ∈ cleared) cleared := by
  have hfiles : Prog.Only (S := daemonSig) (fun o : Op => o.touches? = o.clears?)
      (forgetFiles cfg (shared || !cfg.multiDevice)) := by
    refine .bind (.ite (.bind (only_op rfl) fun _ => trivial) trivial) fun _ =>
      .bind (.bind (only_op rfl) fun cache => ?_) fun _ => .bind (only_op rfl) fun _ =>
      .bind (only_op rfl) fun _ => .bind (only_op rfl) fun _ => trivial
    cases cache with
    | none => trivial
    | some cache =>
      exact (slotReads_currentNativeUnlockSlot cfg cache).mono fun o ho => by
        cases o <;> first | rfl | exact absurd ho Bool.false_ne_true
  refine (wp_bind ..).2 (hfiles.wp_rel (R := fun _ _ => True) (fun _ => trivial) (fun _ _ _ _ _ => trivial)
    (fun _ _ _ _ _ => trivial) (fun _ _ ho _ => ho) fun failures cleared₁ _ => ?_)
  rw [h]
  refine (wp_bind ..).2 (wp_perform_bind.2 ⟨rfl, fun _ _ => wp_perform_bind.2 ⟨rfl, fun _ _ => wp_perform_bind.2
    ⟨rfl, fun _ _ => wp_perform_bind.2 ⟨rfl, fun _ _ => wp_perform_bind.2 ⟨rfl, fun _ _ => wp_perform_bind.2
    ⟨rfl, fun _ _ => wp_perform_bind.2 ⟨rfl, fun _ _ => wp_perform_bind.2 ⟨rfl, fun _ _ =>
    ⟨rfl, fun _ _ => ?_⟩⟩⟩⟩⟩⟩⟩⟩⟩)
  refine (wp_bind ..).2 (wp_perform_bind.2 ⟨rfl, fun _ _ => wp_perform_bind.2 ⟨rfl, fun _ _ => wp_perform_bind.2
    ⟨rfl, fun _ _ => ⟨rfl, fun _ _ r => ?_⟩⟩⟩⟩)
  cases r with
  | piece p => cases p <;> simp [Machine.record, Op.clears?]
  | _ => simp [Machine.record, Op.clears?]

/-- A `forget` that removes the shared cache. -/
def MainEvent.forgetsShared (cfg : Config) : MainEvent → Bool
  | .control (.forget shared) => shared || !cfg.multiDevice
  | _ => false

theorem clearsAll_handle {ev : MainEvent} (h : ev.forgetsShared cfg = true) :
    ClearsAll ((daemonLoop E cfg).handle ev) [] := by
  have hevent : wp clearedOps OnlyClears (mainStep E cfg ev) (fun _ cleared => ∀ r, r ∈ cleared) [] := by
    cases ev with
    | control action =>
      cases action with
      | forget shared => exact (wp_bind ..).2 ((wp_handleForget_clears h []).post fun _ _ hall => hall)
      | _ => exact absurd h.symm Bool.false_ne_true.symm
    | _ => cases h
  refine wp_inSteps (fun _ _ _ hD => hD) (fun _ _ _ _ _ => trivial) (fun _ _ _ _ => rfl)
    (fun o cleared ho hD => ?_) hevent
  cases o with
  | agentClearKeys => exact ⟨rfl, fun _ _ => ⟨rfl, fun _ _ => ⟨trivial, rfl⟩⟩⟩
  | authDialog info => exact ⟨rfl, fun _ _ => ⟨rfl, fun _ _ => ⟨trivial, rfl⟩⟩⟩
  | agentSetKeys ks => cases hD
  | agentSetPublicIdentities ids => cases hD
  | agentLock => cases hD
  | _ => cases ho

/-! ### Runs -/

/-- `shared` is about the event at hand, and `cleared` is what it has cleared. `forgotten` says that a `forget`
has removed the shared cache and no login has been accepted since; `inFlight` handlers had been spawned when it
ended. -/
structure Revocation where
  shared : Bool := false
  cleared : List Remnant := []
  forgotten : Bool := false
  inFlight : Nat := 0

def Revocation.note (cfg : Config) (t : Revocation) (c : DaemonConf) : DaemonMove → Revocation
  | .take ev => { t with shared := ev.forgetsShared cfg, cleared := [] }
  | .main e => { t with cleared := e.1.clearing t.cleared, forgotten := t.forgotten && !acceptsLogin e }
  | .ends => if t.shared then { t with shared := false, forgotten := true, inFlight := c.tasks.length } else t
  | .drops => { t with shared := false }
  | _ => t

/-- No handler that was there before `forget` has ended updates a piece that `forget` has cleared. Where other
devices use the cache as well, its file is gone when `forget` ends. -/
def LeavesCleared (cfg : Config) (t : Revocation) (c : DaemonConf) : DaemonMove → Prop
  | .task i e => ∀ p ∈ e.1.piece?,
    (t.shared = true → .piece p ∉ t.cleared) ∧ (t.forgotten = true → t.inFlight ≤ i)
  | .ends => t.shared = true → cfg.multiDevice = true → c.state.disk.localKeyCache = none
  | _ => True

instance (cfg : Config) (t : Revocation) (c : DaemonConf) : (m : DaemonMove) → Decidable (LeavesCleared cfg t c m)
  | .task _ e => inferInstanceAs (Decidable (∀ p ∈ e.1.piece?, _))
  | .ends => inferInstanceAs (Decidable (_ → _ → _))
  | .take _ | .main _ | .drops | .arrival | .spawn _ | .finish _ => inferInstanceAs (Decidable True)

/-- Runs of the daemon with its request handlers, with a record of what has been forgotten. -/
def RevocationRun (E : Crates) (cfg : Config) (G : Revocation → DaemonConf → DaemonMove → Prop) (s : Daemon)
    (c : DaemonConf) (t : Revocation) : Prop :=
  Loop.Run (daemonLoop E cfg) (Revocation.note cfg) G (beforeRequests s) {} c t

/-- `forget` leaves a locked vault, no secret and no cache to open, until a login. -/
def ForgetFinal (cfg : Config) (c : DaemonConf) (t : Revocation) : Prop :=
  t.forgotten = true → Forgotten cfg c.state

structure Revoked (cfg : Config) (s : Daemon) (t : Revocation) : Prop where
  forgotten : t.forgotten = true → Forgotten cfg s
  gone : t.shared = true → ∀ r ∈ t.cleared, r.GoneIn s

def LoopOp.isRequesting : LoopOp → Bool
  | atomic (.op o) => o.isRequesting
  | _ => true

theorem requesting_serve (request : SshAgentUIRequest) :
    Prog.Only (S := loopSig) (fun o : LoopOp => o.isRequesting = true) ((daemonLoop E cfg).serve request) := by
  refine (requesting_handleUiRequest E cfg request).expand fun o ho => only_inSteps (fun o' h => ?_) ho
  cases o' with
  | openPrompt => rfl
  | atomic o' => cases o' <;> first | rfl | exact absurd h Bool.false_ne_true

/-- A handler does not log in. -/
theorem acceptsLogin_of_isRequesting {o : LoopOp} (h : o.isRequesting = true) (a : o.Ans) :
    acceptsLogin ⟨o, a⟩ = false := by
  cases o with
  | openPrompt => rfl
  | atomic o =>
    cases o with
    | op o => cases o <;> first | rfl | exact absurd h Bool.false_ne_true
    | _ => rfl

/-- A handler touches nothing but the pieces. -/
theorem LoopOp.touches?_of_isRequesting {o : LoopOp} (h : o.isRequesting = true) :
    o.touches? = o.piece?.map .piece := by
  cases o with
  | openPrompt => rfl
  | atomic o =>
    cases o with
    | op o => cases o <;> first | rfl | exact absurd h Bool.false_ne_true
    | _ => rfl

theorem Forgotten.task (h : Forgotten cfg s) {o : LoopOp} (ho : o.isRequesting = true)
    (hp : o.piece? = none) (a : o.Ans) :
    Forgotten cfg (loopNext E o s a) := by
  cases o with
  | openPrompt => exact h
  | atomic o =>
    cases o with
    | op o =>
      cases o <;> first
        | cases ho; done
        | cases hp; done
        | exact h.congr rfl rfl rfl rfl rfl rfl rfl
        | (cases a <;> exact h.congr rfl rfl rfl rfl rfl rfl rfl)
    | _ => first | cases hp; done | exact h.congr rfl rfl rfl rfl rfl rfl rfl

/-- After `forget` the main loop and the handlers that came later leave nothing behind. -/
def revocationOutline (E : Crates) (cfg : Config) : Loop.Outline loopSig Daemon Revocation MainEvent where
  inv := Revoked cfg
  idle _ := True
  main t _ p := (t.forgotten = true → Barren E cfg p) ∧ (t.shared = true → ClearsAll p t.cleared)
  task t i p := Prog.Only (S := loopSig) (fun o : LoopOp => o.isRequesting = true) p ∧
    (t.forgotten = true → t.inFlight ≤ i → Barren E cfg p)

section
variable {t : Revocation}

theorem Revoked.congr (h : Revoked cfg s t) (hagent : s'.agent = s.agent)
    (hlocked : s'.vaultLocked = s.vaultLocked)
    (htuples : s'.cachedKeyTuples = s.cachedKeyTuples) (hkey : s'.localCacheKeyState = s.localCacheKeyState)
    (hcache : s'.localKeyCacheData = s.localKeyCacheData) (hclient : s'.apiClient = s.apiClient)
    (hdisk : s'.disk = s.disk) : Revoked cfg s' t where
  forgotten hf := (h.forgotten hf).congr (by rw [hagent]) htuples hkey hlocked hcache hclient (by rw [hdisk])
  gone hs r hr := by
    have hgone := h.gone hs r hr
    cases r with
    | piece p =>
      refine Piece.ClearedIn.of_same hgone ?_
      cases p with
      | keystore => exact congrArg Agent.keystore hagent
      | cachedKeyTuples => exact htuples
      | localCacheKey => exact hkey
      | vaultLocked => exact hlocked
    | localKeyCacheData => exact hcache.trans hgone
    | apiClient => exact hclient.trans hgone

/-- A step of an event. -/
theorem Revoked.main (h : Revoked cfg s t) {o : LoopOp} {k : o.Ans → LProg Unit} {a : o.Ans}
    (hbarren : t.forgotten = true → Barren E cfg (.vis o k))
    (hclears : t.shared = true → ClearsAll (.vis o k) t.cleared)
    (ha : loopReady E o s a) :
    Revoked cfg (loopNext E o s a)
      { t with cleared := o.clearing t.cleared, forgotten := t.forgotten && !acceptsLogin ⟨o, a⟩ } where
  forgotten hf := by
    obtain ⟨hf, -⟩ := Bool.and_eq_true_iff.1 hf
    exact (hbarren hf).leaves (h.forgotten hf) ha
  gone hs r hr := by
    have htouches : o.touches? = o.clears? := (hclears hs).1
    by_cases ho : o.clears? = some r
    · exact LoopOp.goneIn_of_clears ho s a
    · rcases List.mem_append.1 hr with hr | hr
      · exact absurd (Option.mem_toList.1 hr) ho
      · exact (h.gone hs r hr).next (htouches ▸ ho) a

/-- A step of a handler. -/
theorem Revoked.task (h : Revoked cfg s t) {i : Nat} {o : LoopOp} {k : o.Ans → LProg Unit} {a : o.Ans}
    (ho : o.isRequesting = true) (hbarren : t.forgotten = true → t.inFlight ≤ i → Barren E cfg (.vis o k))
    (hG : ∀ p, o.piece? = some p →
      (t.shared = true → .piece p ∉ t.cleared) ∧ (t.forgotten = true → t.inFlight ≤ i))
    (ha : loopReady E o s a) : Revoked cfg (loopNext E o s a) t where
  forgotten hf := by
    cases hp : o.piece? with
    | none => exact (h.forgotten hf).task ho hp a
    | some p => exact (hbarren hf ((hG p hp).2 hf)).leaves (h.forgotten hf) ha
  gone hs r hr := by
    refine (h.gone hs r hr).next (fun htouches => ?_) a
    rw [LoopOp.touches?_of_isRequesting ho] at htouches
    obtain ⟨p, hp, rfl⟩ := Option.map_eq_some_iff.1 htouches
    exact (hG p hp).1 hs hr

end

theorem revocationOutline_kept (E : Crates) (cfg : Config) :
    (revocationOutline E cfg).Kept (daemonLoop E cfg) (Revocation.note cfg) (LeavesCleared cfg) where
  take {c t ev s'} h _ _ hr := by
    have hsame : Revoked cfg s' t := by cases hr <;> exact Revoked.congr h.inv rfl rfl rfl rfl rfl rfl rfl
    exact ⟨⟨hsame.forgotten, fun _ r hr => absurd hr List.not_mem_nil⟩,
      ⟨fun _ => barren_handle ev, fun hshared => clearsAll_handle hshared⟩, fun _ _ hp => hp⟩
  main {c t ev o k a} h hcur _ ha := by
    obtain ⟨hbarren, hclears⟩ := h.main ev _ hcur
    refine ⟨Revoked.main h.inv hbarren hclears ha, ⟨fun hf => ?_, fun hs => (hclears hs).2 a trivial⟩, ?_⟩
    · obtain ⟨hf, hlogin⟩ := Bool.and_eq_true_iff.1 hf
      have hforgotten : Forgotten cfg c.state := Revoked.forgotten h.inv hf
      exact (hbarren hf).rest hforgotten ha (by simpa using hlogin)
    · exact fun i p hp => ⟨hp.1, fun hf => hp.2 (Bool.and_eq_true_iff.1 hf).1⟩
  ends {c t ev} h hcur hG := by
    have hinv : Revoked cfg c.state t := h.inv
    have hmain := h.main ev _ hcur
    cases hs : t.shared with
    | false =>
      have hnote : Revocation.note cfg t c .ends = t := if_neg (by rw [hs]; exact Bool.false_ne_true)
      rw [hnote]
      exact ⟨hinv, trivial, h.task⟩
    | true =>
      have hnote : Revocation.note cfg t c .ends =
          { t with shared := false, forgotten := true, inFlight := c.tasks.length } := if_pos hs
      rw [hnote]
      have hall : ∀ r, r ∈ t.cleared := hmain.2 hs
      refine ⟨⟨fun _ => .of_gone (fun r => hinv.gone hs r (hall r)) (hG hs), fun hno => by cases hno⟩,
        trivial, fun i p hi => ?_⟩
      refine ⟨(h.task i p hi).1, fun _ hle => ?_⟩
      have hlt : i < c.tasks.length := (List.getElem?_eq_some_iff.1 hi).1
      exact absurd hlt (Nat.not_lt.2 hle)
  drops {c t ev o k} h _ _ _ := by
    have hinv : Revoked cfg c.state t := h.inv
    exact ⟨⟨hinv.forgotten, fun hno => by cases hno⟩, trivial, fun _ _ hp => hp⟩
  arrival h _ ha := ⟨rfl, by cases ha; exact Revoked.congr h.inv rfl rfl rfl rfl rfl rfl rfl⟩
  spawn h _ _ := ⟨rfl, Revoked.congr h.inv rfl rfl rfl rfl rfl rfl rfl, requesting_serve _,
    fun _ _ => barren_serve _⟩
  task {c t i o k a} h hi hG ha := by
    obtain ⟨hrequest, hbarren⟩ := h.task i _ hi
    refine ⟨Revoked.task h.inv hrequest.1 hbarren hG ha, ⟨hrequest.2 a, fun hf hle => ?_⟩, id, fun _ _ hp => hp,
      fun _ _ hp => hp⟩
    have hforgotten : Forgotten cfg c.state := Revoked.forgotten h.inv hf
    exact (hbarren hf hle).rest hforgotten ha (acceptsLogin_of_isRequesting hrequest.1 a)
  finish h _ := ⟨rfl, Revoked.congr h.inv rfl rfl rfl rfl rfl rfl rfl⟩

/-- Where no handler updates what `forget` has cleared, `forget` is final. -/
theorem forget_is_final {c : DaemonConf} {t : Revocation} (h : RevocationRun E cfg (LeavesCleared cfg) s c t) :
    ForgetFinal cfg c t := by
  have hinv : Revoked cfg s {} :=
    ⟨fun hno => (Bool.false_ne_true hno).elim, fun hno => (Bool.false_ne_true hno).elim⟩
  have hc := (revocationOutline_kept E cfg).run (.start hinv trivial) h
  exact Revoked.forgotten hc.inv

/-- A device without a keyring. -/
def askScript : Script :=
  { plainScript with nativeAvailable := false, nativeEncrypted := .error "", nativeDecrypted := .error "" }

/-- A request is at its prompt while the device is forgotten, and is answered afterwards. -/
theorem forget_is_final_beside_prompt : ∃ cfg s c t,
    RevocationRun .plain cfg (LeavesCleared cfg) s c t ∧ t.forgotten = true ∧ t.inFlight = 1 ∧ AllAnswered c ∧
      ForgetFinal cfg c t := by
  obtain ⟨cfg, -, s, c, t, -, hrun, hcheck⟩ := exists_of_playCues
    (fun x : Config × DaemonConf × Revocation =>
      decide (x.2.2.forgotten = true ∧ x.2.2.inFlight = 1 ∧ AllAnswered x.2.1))
    (show (playCues askScript plainConfig Revocation.note (fun cfg t c m => decide (LeavesCleared cfg t c m))
      (.spawn signRequest :: List.replicate 5 (.task 0) ++ .take (.control (.forget false)) :: mainSteps ++
        List.replicate 20 (.task 0)) {}).any _ = true by decide +kernel)
  have hrun' : RevocationRun .plain cfg (LeavesCleared cfg) s c t := hrun.mono fun _ _ _ => of_decide_eq_true
  obtain ⟨hf, hflight, hanswered⟩ := of_decide_eq_true hcheck
  exact ⟨cfg, s, c, t, hrun', hf, hflight, hanswered, forget_is_final hrun'⟩

/-- The PIN dialog of a request is answered after `forget` has ended. The keys are back when all handlers have
finished. -/
theorem unlocked_after_forget : ∃ cfg s c t,
    RevocationRun .plain cfg (fun _ _ _ => True) s c t ∧ (∀ i < t.inFlight, c.tasks[i]? = some none) ∧
      ¬ForgetFinal cfg c t := by
  obtain ⟨cfg, -, s, c, t, -, hrun, hcheck⟩ := exists_of_playCues
    (fun x : Config × DaemonConf × Revocation =>
      decide (x.2.2.forgotten = true ∧ x.2.2.inFlight = 1 ∧ AllAnswered x.2.1 ∧
      x.2.1.tasks.length = 1 ∧ x.2.1.state.vaultLocked = false))
    (show (playCues askScript plainConfig Revocation.note (fun _ _ _ _ => true)
      (.take (.control .lock) :: mainSteps ++ .spawn signRequest :: List.replicate 5 (.task 0) ++
        .take (.control (.forget false)) :: mainSteps ++ List.replicate 60 (.task 0)) {}).any _ = true by
          decide +kernel)
  obtain ⟨hf, hflight, hanswered, hlength, hopen⟩ := of_decide_eq_true hcheck
  refine ⟨cfg, s, c, t, hrun.mono fun _ _ _ _ => trivial, ?_, fun hfinal => ?_⟩
  · intro i hi
    have hlt : i < c.tasks.length := hi.trans_eq (hflight.trans hlength.symm)
    rw [List.getElem?_eq_getElem hlt, hanswered _ (List.getElem_mem hlt)]
  · exact Bool.false_ne_true (hopen.symm.trans (hfinal hf).vaultLocked)

end SshWarden
