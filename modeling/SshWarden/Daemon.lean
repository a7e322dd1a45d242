import SshWarden.Lib.Text
import SshWarden.Ui

/-!
# The daemon (`src/daemon.rs`)

Start-up, and the main loop as one program for each event it takes up. The main loop is sequential;
the watchdog may drop a control action at any of its `.await` points.
-/

namespace SshWarden

/-- `fetch_vault_keys_with_client`. -/
def fetchVaultKeysWithClient (cfg : Config) : DProg (Option (List DecryptedSshKey × BitwardenClient)) := do
  match ← op .promptSecret with
  | none => return none
  | some password =>
    let deviceId ← op .newDeviceId
    match ← op (.loginPassword cfg.email password) with
    | .error _ => return none
    | .ok (grant, userKey) =>
      let client := (createClient cfg deviceId).loggedIn grant userKey
      match ← syncSshKeys client with
      | .error _ => return none
      | .ok keys => return some (keys, client)

/-- `"y"`, `"yes"` or an empty line, after trimming. -/
def acceptsPinSetup (input : String) : Bool :=
  let input := (Text.trim input.toList).map Char.toLower
  input = [] || input = ['y'] || input = ['y', 'e', 's']

/-- The PIN the user chose at the terminal, when the set-up was not skipped. -/
def askNewPin : DProg (Option String) := do
  match ← op .promptLine with
  | none => return none
  | some input =>
    if !acceptsPinSetup input then return none
    else
      match ← op .promptSecret with
      | none => return none
      | some pin =>
        if pin.utf8ByteSize < 4 then return none
        else
          match ← op .promptSecret with
          | none => return none
          | some confirm => if pin ≠ confirm then return none else return some pin

def promptSetupPin (E : Crates) (cfg : Config) : DProg Unit := do
  match ← askNewPin with
  | none => return ()
  | some pin =>
    let keys ← op .readCachedKeyTuples
    match ← writeEnvelopeLocalKeyCache E cfg keys cfg.email cfg.baseUrl pin with
    | .error _ => return ()
    | .ok (cache, localCacheKey) =>
      op (.writeLocalKeyCache (some cache))
      op (.writeLocalCacheKey (some localCacheKey))
      saveSessionOfClient E (some pin)

/-- The e-mail address is asked for once, when the configuration has none. -/
def resolveEmail (cfg : Config) : DProg (Option Config) := do
  if cfg.email = "" then
    match ← op .promptEmail with
    | none => return none
    | some email => return some { cfg with email }
  else return some cfg

/-- The keys fetched at start-up become live, and a PIN may be set for them. -/
def loadInitialKeys (E : Crates) (cfg : Config) (keys : List DecryptedSshKey) : DProg Bool := do
  let keyTuples := keys.map DecryptedSshKey.tuple
  if keyTuples = [] then return true
  else
    let _ ← op (.writeKeySelectorFiles keys)
    let _ ← op (.syncManagedSshConfig keys)
    op (.writePublicKeyIdentityTuples keyTuples)
    op (.writeCachedKeyTuples keyTuples)
    op (.writeFingerprints (keyMaterialFingerprintsFromTuples E keyTuples))
    if ← op (.agentSetKeys keyTuples) then
      promptSetupPin E cfg
      return true
    else return false

/-- The identities of a remembered device become listable, without their private keys. The read guard
on the cache lives to the end of the statement. -/
def loadInitialIdentities : DProg Unit := do
  op (.hold .localKeyCacheData .read)
  match ← op .peekLocalKeyCache with
  | none => op (.release .localKeyCacheData)
  | some cache =>
    let identities := keyTuplesFromCacheHeader cache
    if identities = [] then op (.release .localKeyCacheData)
    else
      op (.writePublicKeyIdentityTuples identities)
      op (.writeKeyNames (keyNamesOf identities))
      let _ ← op (.agentSetPublicIdentities identities)
      op (.release .localKeyCacheData)

def connectInitialClient (E : Crates) (cfg : Config) : DProg Unit := do
  op (.hold .apiClient .read)
  match ← op .peekApiClient with
  | none => op (.release .apiClient)
  | some client =>
    match client.accessToken with
    | none => op (.release .apiClient)
    | some token =>
      connectNotificationClient cfg (some client) token
      saveDeviceSession E client none
      op (.release .apiClient)

/-- The cache a device starts with; platform slots of an older shared cache move to the device. -/
def loadRememberedDevice (cfg : Config) : DProg (Option LocalKeyCacheFile) := do
  match ← loadSharedCache with
  | none => return none
  | some cache =>
    let _ ← persistDeviceUnlockSlotsFromCache cfg cache
    return some cache

/-- A device without a cache logs in with the master password; after a failed login, or without an
e-mail address, it starts with no keys. -/
def loginAtStart (cfg : Config) : DProg (Option (List DecryptedSshKey × BitwardenClient)) :=
  if cfg.email = "" then return none else fetchVaultKeysWithClient cfg

/-- The agent is started and the shared state filled; `false` when the agent could not start. -/
def bringUp (E : Crates) (cfg : Config) (cache : Option LocalKeyCacheFile)
    (login : Option (List DecryptedSshKey × BitwardenClient)) : DProg Bool := do
  if !(← op .startAgent) then return false
  else
    op (.storeVaultLocked cache.isSome)
    op (.writeApiClient (login.map Prod.snd))
    op (.writeLocalKeyCache cache)
    match login with
    | some (keys, _) =>
      op (.writeKeyNames (keyNamesOf (keys.map DecryptedSshKey.tuple)))
      loadInitialKeys E cfg keys
    | none =>
      loadInitialIdentities
      return true

/-- The end of the start-up: the configuration the main loop runs with. -/
def startWith (E : Crates) (cfg : Config) (cache : Option LocalKeyCacheFile)
    (login : Option (List DecryptedSshKey × BitwardenClient)) : DProg (Option Config) := do
  if ← bringUp E cfg cache login then
    connectInitialClient E cfg
    return some cfg
  else return none

/-- `run_foreground` up to its main loop; `none` when the daemon did not come up. -/
def startUp (E : Crates) (cfg : Config) : DProg (Option Config) := do
  match ← loadRememberedDevice cfg with
  | some cache => startWith E cfg (some cache) none
  | none =>
    match ← resolveEmail cfg with
    | none => return none
    | some cfg =>
      let login ← loginAtStart cfg
      startWith E cfg none login

/-! ### The main loop -/

/-- What the main loop takes up. `autoLockTick` carries the seconds since the last activity. -/
inductive MainEvent
  | control (action : ControlAction)
  | runtime (event : RuntimeEvent)
  | hub (event : SyncEvent)
  | tokenRefresh
  | autoLockTick (idle : Nat)
deriving DecidableEq, Repr

def handleRuntimeEvent (E : Crates) (cfg : Config) : RuntimeEvent → DProg Unit
  | .autoUnlockedPin pin => do
    tryRestoreApiSession E cfg pin
    let _ ← resolvePendingSync E cfg
    return ()
  | .autoUnlockedNative => do
    let _ ← resolvePendingSync E cfg
    return ()

/-- A sync the hub asked for; a failed one stays pending. -/
def syncOrDefer (E : Crates) (cfg : Config) (done : NotificationUpdate) : DProg Unit := do
  match ← doSync E cfg with
  | .ok _ => notify done
  | .error _ => op (.storePendingSync true)

def handleHubEvent (E : Crates) (cfg : Config) : SyncEvent → DProg Unit
  | .connectionStatus status => notify (.applyStatus status)
  | .cipherChanged => do
    if ← op .loadVaultLocked then
      op (.storePendingSync true)
      notify .recordEvent
    else syncOrDefer E cfg .setLastEventAt
  | .logOut => do
    notify .recordEvent
    let _ ← lockVault
    return ()
  | .fallbackSyncDue => do
    if ← op .loadVaultLocked then op (.storePendingSync true)
    else syncOrDefer E cfg .recordFallbackSync

/-- `refresh_access_token` on the client behind the guard. -/
def refreshClient (client : BitwardenClient) : DProg (Except String BitwardenClient) := do
  if client.refreshToken.isNone then return .error "No refresh token available"
  else
    match ← op (.refreshAccessToken client) with
    | .error e => return .error e
    | .ok grant =>
      op (.pokeApiClient (client.refreshed grant))
      return .ok (client.refreshed grant)

/-- The write guard on the API client is kept for the whole tick. -/
def handleTokenRefresh (E : Crates) (cfg : Config) : DProg Unit := do
  op (.hold .apiClient .write)
  match ← op .peekApiClient with
  | none => op (.release .apiClient)
  | some client =>
    let now ← op .now
    if client.isTokenExpiringSoon now then
      match ← refreshClient client with
      | .error _ => op (.release .apiClient)
      | .ok client =>
        saveDeviceSession E client none
        connectIfAuthenticated cfg client
        op (.release .apiClient)
    else op (.release .apiClient)

def handleAutoLockTick (cfg : Config) (idle : Nat) : DProg Unit := do
  if 0 < cfg.lockTimeout then
    if !(← op .loadVaultLocked) then
      if (← op .loadInFlightPrompts) = 0 then
        if idle ≥ cfg.lockTimeout then
          let _ ← lockVault
          return ()
        else return ()
      else return ()
    else return ()
  else return ()

/-- One iteration of the main loop. -/
def mainStep (E : Crates) (cfg : Config) : MainEvent → DProg Unit
  | .control action => do
    let _ ← handleControlCommand E cfg action
    return ()
  | .runtime event => handleRuntimeEvent E cfg event
  | .hub event => handleHubEvent E cfg event
  | .tokenRefresh => handleTokenRefresh E cfg
  | .autoLockTick idle => handleAutoLockTick cfg idle

/-- Taking up an event: a runtime or hub event leaves its channel. -/
inductive Receives (s : Daemon) : MainEvent → Daemon → Prop
  | control (action : ControlAction) (h : action ≠ .stop) : Receives s (.control action) s
  | runtime (event : RuntimeEvent) (rest : List RuntimeEvent) (h : s.runtimeEvents = event :: rest) :
    Receives s (.runtime event) { s with runtimeEvents := rest }
  | hub (event : SyncEvent) (rest : List SyncEvent) (h : s.notificationRx = some (event :: rest)) :
    Receives s (.hub event) { s with notificationRx := some rest }
  | tokenRefresh : Receives s .tokenRefresh s
  | autoLockTick (idle : Nat) : Receives s (.autoLockTick idle) s

/-- The watchdog drops the future of a control action at an `.await` point. -/
def Dropped {α : Type} (p : DProg α) : Prop := ∃ o k, p = .vis o k ∧ o.awaits = true

/-- The hub delivers an event into the channel of a connected client. -/
inductive Arrives (s : Daemon) : Daemon → Prop
  | hub (event : SyncEvent) (queue : List SyncEvent) (h : s.notificationRx = some queue) :
    Arrives s { s with notificationRx := some (queue ++ [event]) }

/-- The state of a device before start-up: nothing in memory, some files on disk. -/
def Daemon.Fresh (s : Daemon) : Prop := s = { disk := s.disk, clock := s.clock }

/-! ### Runs of the daemon -/

/-- What happens next: the main loop takes up an event, or an action of it is dropped, an event
arrives from the hub, or a request of the agent is handled from its start to its end. -/
inductive Turn
  | event (ev : MainEvent)
  | dropped (action : ControlAction)
  | arrival
  | request (request : SshAgentUIRequest)
deriving DecidableEq, Repr

/-- One turn with the operations performed in it. -/
inductive Step (M : Machine daemonSig Daemon) (E : Crates) (cfg : Config) :
    Daemon → Turn → List Event → Daemon → Prop
  | event {s s₁ s' : Daemon} {ev : MainEvent} {tr : List Event} (hr : Receives s ev s₁)
      (h : Prog.Steps M (mainStep E cfg ev) s₁ tr (.ret ()) s') : Step M E cfg s (.event ev) tr s'
  | dropped {s s' : Daemon} {action : ControlAction} {tr : List Event} {p : DProg Unit}
      (hr : action ≠ .stop) (h : Prog.Steps M (mainStep E cfg (.control action)) s tr p s')
      (hd : Dropped p) : Step M E cfg s (.dropped action) tr s'
  | arrives {s s' : Daemon} (ha : Arrives s s') : Step M E cfg s .arrival [] s'
  | request {s s' : Daemon} {request : SshAgentUIRequest} {tr : List Event}
      (h : Prog.Steps M (handleUiRequest E cfg request) s tr (.ret ()) s') :
      Step M E cfg s (.request request) tr s'

/-- Runs whose turns all satisfy `ok` in the state they start from. -/
inductive Run (M : Machine daemonSig Daemon) (E : Crates) (cfg : Config)
    (ok : Daemon → Turn → List Event → Prop) (s₀ : Daemon) : List Event → Daemon → Prop
  | nil : Run M E cfg ok s₀ [] s₀
  | turn {s s' : Daemon} {t : Turn} {tr tr' : List Event} (hs : Run M E cfg ok s₀ tr s)
      (h : Step M E cfg s t tr' s') (hok : ok s t tr') : Run M E cfg ok s₀ (tr ++ tr') s'

/-- The daemon has started with the files of `s₀` and runs with the configuration `cfg`. -/
inductive Started (M : Machine daemonSig Daemon) (E : Crates) (cfg₀ cfg : Config) (s₀ s : Daemon) : Prop
  | mk {tr : List Event} (h₀ : s₀.Fresh)
      (h : Prog.Steps M (startUp E cfg₀) s₀ tr (.ret (some cfg)) s)

/-- The states between the turns of a run. -/
def ReachableIf (M : Machine daemonSig Daemon) (ok : Daemon → Turn → List Event → Prop) (E : Crates)
    (cfg₀ cfg : Config) (s : Daemon) : Prop :=
  ∃ s₀ s₁ tr, Started M E cfg₀ cfg s₀ s₁ ∧ Run M E cfg ok s₁ tr s

def Reachable (E : Crates) (cfg₀ cfg : Config) (s : Daemon) : Prop :=
  ReachableIf (machine E) (fun _ _ _ => True) E cfg₀ cfg s

theorem Run.mono {M : Machine daemonSig Daemon} {E : Crates} {cfg : Config}
    {ok ok' : Daemon → Turn → List Event → Prop} {s₀ s : Daemon} {tr : List Event}
    (h : Run M E cfg ok s₀ tr s) (hok : ∀ s t tr, ok s t tr → ok' s t tr) : Run M E cfg ok' s₀ tr s := by
  induction h with
  | nil => exact .nil
  | turn _ hstep ht ih => exact .turn ih hstep (hok _ _ _ ht)

theorem Run.trans {M : Machine daemonSig Daemon} {E : Crates} {cfg : Config}
    {ok : Daemon → Turn → List Event → Prop} {s₀ s s' : Daemon} {tr tr' : List Event}
    (h : Run M E cfg ok s₀ tr s) (h' : Run M E cfg ok s tr' s') : Run M E cfg ok s₀ (tr ++ tr') s' := by
  induction h' with
  | nil => simpa using h
  | turn _ hstep ht ih =>
    rw [← List.append_assoc]
    exact .turn ih hstep ht

theorem Step.restrict {M : Machine daemonSig Daemon} {E : Crates} {cfg : Config} {s s' : Daemon} {t : Turn}
    {tr : List Event} (h : Step M E cfg s t tr s') {A : Event → Prop} (hA : ∀ e ∈ tr, A e) :
    Step (M.restrict A) E cfg s t tr s' := by
  cases h with
  | event hr hs => exact .event hr (hs.restrict hA)
  | dropped hr hs hd => exact .dropped hr (hs.restrict hA) hd
  | arrives ha => exact .arrives ha
  | request hs => exact .request (hs.restrict hA)

theorem Run.restrict {M : Machine daemonSig Daemon} {E : Crates} {cfg : Config}
    {ok : Daemon → Turn → List Event → Prop} {A : Event → Prop} {s₀ s : Daemon} {tr : List Event}
    (h : Run M E cfg ok s₀ tr s) (hA : ∀ s t tr, ok s t tr → ∀ e ∈ tr, A e) :
    Run (M.restrict A) E cfg ok s₀ tr s := by
  induction h with
  | nil => exact .nil
  | turn _ hstep ht ih => exact .turn ih (hstep.restrict (hA _ _ _ ht)) ht

theorem ReachableIf.mono {M : Machine daemonSig Daemon} {E : Crates} {cfg₀ cfg : Config}
    {ok ok' : Daemon → Turn → List Event → Prop} {s : Daemon} (h : ReachableIf M ok E cfg₀ cfg s)
    (hok : ∀ s t tr, ok s t tr → ok' s t tr) : ReachableIf M ok' E cfg₀ cfg s := by
  obtain ⟨s₀, s₁, tr, hs, hrun⟩ := h
  exact ⟨s₀, s₁, tr, hs, hrun.mono hok⟩

/-- What the start-up establishes and every turn keeps holds of the states between the turns. -/
theorem ReachableIf.induct {M : Machine daemonSig Daemon} {E : Crates} {cfg₀ cfg : Config}
    {ok : Daemon → Turn → List Event → Prop} {I : Daemon → Prop} {s : Daemon}
    (h : ReachableIf M ok E cfg₀ cfg s) (hstart : ∀ s₀ s, Started M E cfg₀ cfg s₀ s → I s)
    (hstep : ∀ s t tr s', Step M E cfg s t tr s' → ok s t tr → I s → I s') : I s := by
  obtain ⟨s₀, s₁, tr, hs, hrun⟩ := h
  induction hrun with
  | nil => exact hstart s₀ _ hs
  | turn _ hst hok ih => exact hstep _ _ _ _ hst hok ih

end SshWarden
