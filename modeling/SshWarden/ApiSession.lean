import Mathlib.Data.List.Induction
import SshWarden.Handlers

/-!
# The API session

The API session is the session file, the client in memory and the refresh tokens the server issues. Only a
login, a restore, the token refresh, setting a PIN and `forget` touch it; every other program leaves it as it
is (`KeepsSession`).
-/

namespace SshWarden
open Prog

variable {E : Crates} {cfg : Config} {α : Type}

/-- The refresh token an event brings from the server. -/
def granted : Event → Option String
  | ⟨.loginPassword _ _, r⟩ => r.toOption.bind fun login => login.1.refreshToken
  | ⟨.refreshAccessToken _, r⟩ => r.toOption.bind TokenGrant.refreshToken
  | _ => none

/-- The newest refresh token after some events. -/
def newestToken (newest : Option String) (tr : List Event) : Option String :=
  tr.foldl (fun newest e => (granted e).or newest) newest

/-- The refresh token in the session file, encrypted with a PIN. -/
def storedToken (s : Daemon) : Option String := s.disk.session.bind SessionFile.pinEncryptedToken

/-- A session has been saved. -/
def Saved (tr : List Event) : Prop := ∃ f, (⟨.saveSession f, .ok ()⟩ : Event) ∈ tr

theorem newestToken_append (newest : Option String) (tr tr' : List Event) :
    newestToken newest (tr ++ tr') = newestToken (newestToken newest tr) tr' :=
  List.foldl_append

theorem newestToken_snoc (newest : Option String) (tr : List Event) (e : Event) :
    newestToken newest (tr ++ [e]) = (granted e).or (newestToken newest tr) :=
  newestToken_append newest tr [e]

/-- The newest token is the one there was, or has been issued in one of the events. -/
theorem newestToken_cases (newest : Option String) (tr : List Event) :
    newestToken newest tr = newest ∨ ∃ e ∈ tr, ∃ token, granted e = some token ∧
      newestToken newest tr = some token := by
  induction tr using List.reverseRecOn with
  | nil => exact .inl rfl
  | append_singleton tr e ih =>
    rw [newestToken_snoc]
    cases hg : granted e with
    | some token => exact .inr ⟨e, by simp, token, hg, rfl⟩
    | none =>
      rw [Option.none_or]
      exact ih.imp_right fun ⟨e', he', h⟩ => ⟨e', by simp [he'], h⟩

/-- Operations that leave the session file, the client and the tokens alone. -/
def Op.keepsSession : Op → Bool
  | loginPassword _ _ | refreshAccessToken _ | saveSession _ | deleteSession | writeApiClient _
  | pokeApiClient _ =>
    false
  | _ => true

abbrev KeepsSession {α : Type} (p : DProg α) : Prop :=
  Prog.Only (S := daemonSig) (fun o : Op => o.keepsSession = true) p

theorem keepsSession_op {o : Op} (h : o.keepsSession = true) : KeepsSession (op o) := ⟨h, fun _ => trivial⟩

theorem PinSteps.keepsSession {p : DProg α} (h : PinSteps p) : KeepsSession p :=
  h.mono fun o ho => by cases o <;> first | rfl | exact absurd ho Bool.false_ne_true

theorem SlotReads.keepsSession {p : DProg α} (h : SlotReads p) : KeepsSession p :=
  h.mono fun o ho => by cases o <;> first | rfl | exact absurd ho Bool.false_ne_true

theorem SlotSteps.keepsSession {p : DProg α} (h : SlotSteps p) : KeepsSession p :=
  h.mono fun o ho => by cases o <;> first | rfl | exact absurd ho Bool.false_ne_true

theorem PinSlotSteps.keepsSession {p : DProg α} (h : PinSlotSteps p) : KeepsSession p :=
  h.mono fun o ho => by cases o <;> first | rfl | exact absurd ho Bool.false_ne_true

theorem LoadingSteps.keepsSession {p : DProg α} (h : LoadingSteps p) : KeepsSession p :=
  h.mono fun o ho => by cases o <;> first | rfl | exact absurd ho Bool.false_ne_true

theorem HubSteps.keepsSession {p : DProg α} (h : HubSteps p) : KeepsSession p :=
  h.mono fun o ho => by cases o <;> first | rfl | exact absurd ho Bool.false_ne_true

theorem ReconcilingSteps.keepsSession {p : DProg α} (h : ReconcilingSteps p) : KeepsSession p :=
  h.mono fun o ho => by cases o <;> first | rfl | exact absurd ho Bool.false_ne_true

theorem SyncSteps.keepsSession {p : DProg α} (h : SyncSteps p) : KeepsSession p :=
  h.mono fun o ho => by cases o <;> first | rfl | exact absurd ho Bool.false_ne_true

theorem PendingSyncSteps.keepsSession {p : DProg α} (h : PendingSyncSteps p) : KeepsSession p :=
  h.mono fun o ho => by cases o <;> first | rfl | exact absurd ho Bool.false_ne_true

theorem keepsSession_encryptLocalCacheKeyWithPin (E : Crates) (key : SymmetricKey) (pin : String) :
    KeepsSession (encryptLocalCacheKeyWithPin E key pin) :=
  only_encryptLocalCacheKeyWithPin (P := fun o => o.keepsSession = true) rfl rfl E key pin

theorem keepsSession_syncSshKeys (client : BitwardenClient) : KeepsSession (syncSshKeys client) :=
  only_syncSshKeys (P := fun o => o.keepsSession = true) (fun _ => rfl) client

theorem keepsSession_notify (u : NotificationUpdate) : KeepsSession (notify u) :=
  .bind (keepsSession_op rfl) fun _ => keepsSession_op rfl

theorem keepsSession_reload (cfg : Config) : KeepsSession (reloadSharedLocalCacheFromDiskIfMultiDevice cfg) := by
  refine .ite trivial <| .bind (keepsSession_op rfl) fun r => ?_
  cases r with
  | error e => trivial
  | ok cache =>
    cases cache with
    | none => trivial
    | some cache =>
      exact .bind (slotSteps_persistDeviceUnlockSlotsFromCache cfg cache).keepsSession fun _ => keepsSession_op rfl

theorem keepsSession_loadSharedCache : KeepsSession loadSharedCache := by
  refine .bind (keepsSession_op rfl) fun r => ?_
  cases r <;> trivial

theorem keepsSession_writeEnvelopeLocalKeyCacheWithKey (E : Crates) (cfg : Config) (keys : List KeyTuple)
    (email url pin : String) (key : SymmetricKey) :
    KeepsSession (writeEnvelopeLocalKeyCacheWithKey E cfg keys email url pin key) := by
  refine .bind (keepsSession_encryptLocalCacheKeyWithPin E key pin) fun r => ?_
  cases r with
  | error e => trivial
  | ok r =>
    refine .bind (keepsSession_op rfl) fun iv => ?_
    split
    · trivial
    · refine .bind (slotSteps_enrollNativeIfPossible E cfg _ key).keepsSession fun cache =>
        .bind (keepsSession_op rfl) fun r => ?_
      cases r <;> trivial

theorem keepsSession_writePinCache (E : Crates) (cfg : Config) (keys : List KeyTuple) (pin : String) :
    KeepsSession (writePinCache E cfg keys pin) := by
  refine .bind (keepsSession_op rfl) fun key => ?_
  cases key with
  | some key => exact keepsSession_writeEnvelopeLocalKeyCacheWithKey E cfg _ _ _ _ _
  | none =>
    exact .bind (keepsSession_op rfl) fun key => keepsSession_writeEnvelopeLocalKeyCacheWithKey E cfg _ _ _ _ key

theorem keepsSession_handleSync (E : Crates) (cfg : Config) : KeepsSession (handleSync E cfg) := by
  have hrun : ∀ wasLocked, KeepsSession (runManualSync E cfg wasLocked) := by
    refine fun wasLocked => .bind (syncSteps_doSync E cfg).keepsSession fun r => ?_
    cases r with
    | error e => trivial
    | ok n => exact .ite (.bind (keepsSession_op rfl) fun _ => trivial) trivial
  have hkey : KeepsSession (ensureLocalCacheKeyForManualSync E cfg) := by
    refine .bind (.when (keepsSession_reload cfg)) fun _ => .bind (keepsSession_op rfl) fun cache => ?_
    cases cache with
    | none => trivial
    | some cache =>
      refine .bind (keepsSession_op rfl) fun key => .ite trivial <| .bind (.when (keepsSession_op rfl)) fun _ =>
        .ite trivial <| .bind (pinSteps_requestPinDialog _ _).keepsSession fun r => ?_
      split
      · exact .bind (keepsSession_op rfl) fun _ => trivial
      · trivial
  refine .bind (keepsSession_op rfl) fun wasLocked => .ite (.bind hkey fun r => ?_) (hrun wasLocked)
  cases r with
  | some e => trivial
  | none => exact hrun wasLocked

theorem keepsSession_finishNativeUnlockResponse (E : Crates) (cfg : Config) (cache : LocalKeyCacheFile)
    (msg : String) : KeepsSession (finishNativeUnlockResponse E cfg cache msg) := by
  refine .bind (slotReads_decryptWithNative E cfg cache).keepsSession fun r => ?_
  cases r with
  | error e => trivial
  | ok opened =>
    exact .bind (keepsSession_op rfl) fun _ => (loadingSteps_finishUnlockWithJson E _ msg).keepsSession

theorem keepsSession_handleUnlockNative (E : Crates) (cfg : Config) : KeepsSession (handleUnlockNative E cfg) := by
  refine .bind (keepsSession_op rfl) fun _ => .ite trivial <| .bind (keepsSession_op rfl) fun cache => ?_
  cases cache with
  | none => trivial
  | some cache =>
    exact .bind (keepsSession_finishNativeUnlockResponse E cfg cache _) fun resp =>
      .ite (.bind (pendingSyncSteps_resolvePendingSync E cfg).keepsSession fun _ => trivial) trivial

theorem keepsSession_lockVault : KeepsSession lockVault :=
  .bind (keepsSession_op rfl) fun _ =>
    .ite (.bind (keepsSession_op rfl) fun _ => .bind (keepsSession_op rfl) fun _ =>
    .bind (keepsSession_op rfl) fun _ => .bind (keepsSession_op rfl) fun _ => trivial) trivial

theorem keepsSession_handleLock : KeepsSession handleLock := by
  refine .bind (keepsSession_op rfl) fun _ => .ite trivial (.bind keepsSession_lockVault fun r => ?_)
  cases r <;> trivial

theorem keepsSession_buildStatusResponse (cfg : Config) (json : Bool) :
    KeepsSession (buildStatusResponse cfg json) :=
  .bind (keepsSession_op rfl) fun _ => .bind (keepsSession_op rfl) fun _ => .bind (keepsSession_op rfl) fun _ =>
    .bind (keepsSession_op rfl) fun _ => .bind (keepsSession_op rfl) fun _ => .bind (keepsSession_op rfl) fun _ =>
      .bind (keepsSession_op rfl) fun _ => trivial

theorem keepsSession_handleAutoLockTick (cfg : Config) (idle : Nat) : KeepsSession (handleAutoLockTick cfg idle) :=
  .ite (.bind (keepsSession_op rfl) fun _ => .ite (.bind (keepsSession_op rfl) fun _ =>
    .ite (.ite (.bind keepsSession_lockVault fun _ => trivial) trivial) trivial) trivial) trivial

theorem keepsSession_handleHubEvent (E : Crates) (cfg : Config) (ev : SyncEvent) :
    KeepsSession (handleHubEvent E cfg ev) := by
  have hsync : ∀ done, KeepsSession (syncOrDefer E cfg done) := by
    refine fun done => .bind (syncSteps_doSync E cfg).keepsSession fun r => ?_
    cases r with
    | ok n => exact keepsSession_notify done
    | error e => exact keepsSession_op rfl
  cases ev with
  | connectionStatus status => exact keepsSession_notify _
  | cipherChanged =>
    refine .bind (keepsSession_op rfl) fun _ => .ite ?_ (hsync _)
    exact .bind (keepsSession_op rfl) fun _ => keepsSession_notify _
  | logOut => exact .bind (keepsSession_notify _) fun _ => .bind keepsSession_lockVault fun _ => trivial
  | fallbackSyncDue => exact .bind (keepsSession_op rfl) fun _ => .ite (keepsSession_op rfl) (hsync _)

theorem Op.keepsSession_of_isAnswering {o : Op} (h : o.isAnswering = true) : o.keepsSession = true := by
  cases o <;> first | rfl | exact absurd h Bool.false_ne_true

theorem Answering.keepsSession {α : Type} {p : DProg α} (h : Answering p) : KeepsSession p :=
  h.mono fun _ => Op.keepsSession_of_isAnswering

theorem Requesting.keepsSession {α : Type} {p : DProg α} (h : Requesting p) : KeepsSession p :=
  h.mono fun o ho => by cases o <;> first | rfl | exact absurd ho Bool.false_ne_true

theorem keepsSession_handleUiRequest (E : Crates) (cfg : Config) (request : SshAgentUIRequest) :
    KeepsSession (handleUiRequest E cfg request) :=
  (requesting_handleUiRequest E cfg request).keepsSession

end SshWarden
