import SshWarden.Unlock

/-!
# Vault sync (`src/sync.rs`)

`doSync` keeps its read guard on the API client across the whole reconciliation; the guard is released
by every early return and by `drop(client_guard)` before the keys are loaded into the agent.
-/

namespace SshWarden

def reconcileSyncedKeyState (E : Crates) (cfg : Config) (keyTuples : List KeyTuple) : DProg Unit := do
  let oldFingerprints ← op .readFingerprints
  let newFingerprints ← clearAuthorizationMemoryForChangedKeys E oldFingerprints keyTuples
  op (.writePublicKeyIdentityTuples keyTuples)
  op (.writeCachedKeyTuples keyTuples)
  op (.writeFingerprints newFingerprints)
  let existingCache ← op .readLocalKeyCache
  let localCacheKey ← op .readLocalCacheKey
  match existingCache, localCacheKey with
  | some existing, some key =>
    match ← refreshEnvelopeLocalKeyCache E cfg keyTuples existing key with
    | .ok cache =>
      op (.writeLocalKeyCache (some cache))
      op (.writeLocalCacheKey (some key))
      notify .markCacheRefreshed
    | .error e => notify (.markCacheStale e)
  | _, _ => return ()

/-- `BitwardenClient::sync_ssh_keys`. -/
def syncSshKeys (client : BitwardenClient) : DProg (Except String (List DecryptedSshKey)) := do
  if client.accessToken.isNone then return .error "Not authenticated"
  else if client.userKey.isNone then return .error "User key not available"
  else op (.fetchSync client)

def doSync (E : Crates) (cfg : Config) : DProg (Except String Nat) := do
  op (.hold .apiClient .read)
  match ← op .peekApiClient with
  | none =>
    op (.release .apiClient)
    return .error "Not authenticated. Run 'sshwarden login'."
  | some client =>
    if !client.hasUserKey then
      op (.release .apiClient)
      return .error
        "Bitwarden session cannot decrypt vault data. Run `sshwarden login` to re-authenticate with your master password."
    else
      match ← syncSshKeys client with
      | .error e =>
        op (.release .apiClient)
        return .error s!"Sync failed: {e}"
      | .ok keys =>
        let keyTuples := keys.map DecryptedSshKey.tuple
        let _ ← op (.writeKeySelectorFiles keys)
        let _ ← op (.syncManagedSshConfig keys)
        reconcileSyncedKeyState E cfg keyTuples
        op (.writeKeyNames (keyNamesOf keyTuples))
        op (.release .apiClient)
        if !(← op .loadVaultLocked) then
          if ← op (.agentSetKeys keyTuples) then
            notify .recordSuccessfulSync
            return .ok keyTuples.length
          else return .error s!"Sync succeeded but failed to reload keys: {setKeysError}"
        else
          notify .recordSuccessfulSync
          return .ok keyTuples.length

def resolvePendingSync (E : Crates) (cfg : Config) : DProg Bool := do
  if !(← op (.swapPendingSync false)) then return false
  else
    match ← doSync E cfg with
    | .ok _ => return true
    | .error _ =>
      op (.storePendingSync true)
      return false

end SshWarden
