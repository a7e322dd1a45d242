import SshWarden.HostMap
import SshWarden.Plain

/-!
# Syncing the vault and the bindings

The keys of a sync response are those of its SSH-key ciphers that can be decrypted; a cipher that
cannot is skipped. The managed SSH config is then written for these keys, and the bindings of all
other ids are pruned as orphans.
-/

namespace SshWarden

inductive CipherType
  | login | secureNote | card | identity | sshKey
  | unknown (v : UInt8)
deriving DecidableEq, Repr

structure SshKeyData where
  privateKey : String
  publicKey : String
deriving DecidableEq, Repr

structure Cipher where
  id : String
  cipherType : CipherType
  name : Option String
  deletedDate : Option String
  archivedDate : Option String
  sshKey : Option SshKeyData
  key : Option String
deriving DecidableEq, Repr

structure SyncResponse where
  ciphers : List Cipher

/-- `decrypt_enc_string_to_string` -/
def decryptEncStringToString (E : Crates) (encString : String) (key : SymmetricKey) :
    Except String String := do
  let bytes ← E.decryptEncString encString key
  match fromUtf8 bytes with
  | some text => return text
  | none => .error "Decrypted data is not valid UTF-8"

/-- A step that fails with its context as the error. -/
def context {α : Type} (x : Except String α) (text : String) : Except String α := x.mapError fun _ => text

namespace Cipher

/-- The filter of `sync_ssh_keys`. -/
def isActiveSshKey (cipher : Cipher) : Bool :=
  cipher.cipherType = .sshKey && cipher.deletedDate.isNone && cipher.archivedDate.isNone

/-- The cipher's own key, or the user key. -/
def effectiveKey (E : Crates) (userKey : SymmetricKey) (cipher : Cipher) : Except String SymmetricKey :=
  match cipher.key with
  | none => return userKey
  | some cipherKeyEnc => do
    let bytes ← context (E.decryptEncString cipherKeyEnc userKey) "Failed to decrypt cipher key"
    if bytes.length ≠ 64 then
      .error ("Cipher key has unexpected length: " ++ toString bytes.length)
    else
      return ⟨bytes.take 32, bytes.drop 32⟩

def displayName (E : Crates) (key : SymmetricKey) (cipher : Cipher) : String :=
  match cipher.name with
  | some encName => ((decryptEncStringToString E encName key).toOption).getD "unnamed"
  | none => "unnamed"

/-- `decrypt_ssh_cipher` -/
def decrypt (E : Crates) (userKey : SymmetricKey) (cipher : Cipher) : Except String DecryptedSshKey := do
  let key ← cipher.effectiveKey E userKey
  match cipher.sshKey with
  | none => .error ("Cipher " ++ cipher.id ++ " is SshKey type but has no ssh_key data")
  | some sshData =>
    let privateKeyPem ← context (decryptEncStringToString E sshData.privateKey key)
      "Failed to decrypt SSH private key"
    let publicKeyOpenssh ← context (decryptEncStringToString E sshData.publicKey key)
      "Failed to decrypt SSH public key"
    return { privateKeyPem, publicKeyOpenssh, name := cipher.displayName E key, cipherId := cipher.id }

end Cipher

/-- `sync_ssh_keys` on a parsed response. -/
def SyncResponse.sshKeys (E : Crates) (userKey : SymmetricKey) (response : SyncResponse) :
    List DecryptedSshKey :=
  (response.ciphers.filter Cipher.isActiveSshKey).filterMap fun cipher => (cipher.decrypt E userKey).toOption

/-- `ManagedKey::from_decrypted` -/
def ManagedKey.fromDecrypted (keys : List DecryptedSshKey) : List ManagedKey :=
  keys.map fun k => ⟨k.name.toList, k.cipherId.toList⟩

/-- `sync_managed_ssh_config_with_bindings` -/
def syncManagedSshConfigWithBindings (env : SnippetEnv) (keys : List DecryptedSshKey)
    (files : BindingFiles) : Except BindingError BindingFiles :=
  syncManagedSshConfigInner env (ManagedKey.fromDecrypted keys) false files

/-! ## What the import does to one key -/

section
variable (knownIds : List Text) (id : Text)

/-- The host lists that the valid `Host` lines of a key give it, in the order of the lines. -/
def hostEdits : Option Text → List Text → List (List Text)
  | _, [] => []
  | pending, line :: lines =>
    match namedKey knownIds (Text.trim line) with
    | some named => hostEdits (some named) lines
    | none =>
      match Text.words (Text.trim line) with
      | [] => hostEdits pending lines
      | directive :: parts =>
        if !Text.eqIgnoreAsciiCase directive "Host".toList then hostEdits pending lines
        else if pending = some id ∧ editedHosts parts ≠ [] ∧ (editedHosts parts).all isValidPattern then
          editedHosts parts :: hostEdits none lines
        else hostEdits none lines

end

/-- Hosts that are not exactly those of the entry replace them. -/
def takeEdit (entry : Option (List Text)) (hosts : List Text) : Option (List Text) :=
  if entry = some hosts then entry
  else some (Distinct.ofList Text.eqIgnoreAsciiCase (hosts.map Text.trim))

theorem isValidPattern_iff {host : Text} : isValidPattern host = true ↔ validateHostPattern host = .ok () := by
  unfold isValidPattern
  cases validateHostPattern host <;> simp

/-- Taking hosts over never fails and only changes the entry of their key. -/
theorem importHosts_get? (st : ManagedImport) (cipherId : Text) (hosts : List Text) :
    ∃ st', importHosts st cipherId hosts = .ok st' ∧ st'.pendingCipherId = st.pendingCipherId ∧
      ∀ id, st'.bindings.bindings.get? id =
        if cipherId = id ∧ hosts ≠ [] ∧ hosts.all isValidPattern then
          takeEdit (st.bindings.bindings.get? id) hosts
        else st.bindings.bindings.get? id := by
  unfold importHosts
  split_ifs with hnil hvalid hsame
  · exact ⟨st, rfl, rfl, fun id => by simp [hnil]⟩
  · refine ⟨st, rfl, rfl, fun id => ?_⟩
    rw [if_neg]
    rintro ⟨-, -, h⟩
    rw [h] at hvalid
    exact absurd hvalid (by decide)
  · refine ⟨st, rfl, rfl, fun id => ?_⟩
    split_ifs with h
    · obtain ⟨rfl, -, -⟩ := h
      rw [hsame, takeEdit, if_pos rfl]
    · rfl
  · have hall : hosts.all isValidPattern = true := by simpa using hvalid
    have hok : hosts.forM validateHostPattern = .ok () :=
      HostBindingsFile.forM_validate_eq_ok fun x hx => isValidPattern_iff.1 (List.all_eq_true.1 hall x hx)
    have hne : Distinct.ofList Text.eqIgnoreAsciiCase (hosts.map Text.trim) ≠ [] :=
      Distinct.ofList_ne_nil (by simpa using hnil)
    have hset : st.bindings.setHosts cipherId hosts = .ok ⟨st.bindings.bindings.insert cipherId
        (Distinct.ofList Text.eqIgnoreAsciiCase (hosts.map Text.trim))⟩ := by
      unfold HostBindingsFile.setHosts
      rw [hok]
      simp only [except_ok_bind, if_neg hne]
      rfl
    rw [hset]
    refine ⟨_, rfl, rfl, fun id => ?_⟩
    rw [Assoc.get?_insert]
    split_ifs with h h' h'
    · subst h
      rw [takeEdit, if_neg hsame]
    · exact absurd ⟨h, hnil, hall⟩ h'
    · exact absurd h'.1 h
    · rfl

section
variable {knownIds : List Text} {id : Text}

variable (knownIds id) in
theorem importLine_get? (st : ManagedImport) (line : Text) (lines : List Text) :
    ∃ st', importLine knownIds st line = .ok st' ∧
      (hostEdits knownIds id st'.pendingCipherId lines).foldl takeEdit (st'.bindings.bindings.get? id) =
        (hostEdits knownIds id st.pendingCipherId (line :: lines)).foldl takeEdit
          (st.bindings.bindings.get? id) := by
  simp only [importLine, hostEdits]
  cases namedKey knownIds (Text.trim line) with
  | some named => exact ⟨_, rfl, rfl⟩
  | none =>
    cases Text.words (Text.trim line) with
    | nil => exact ⟨_, rfl, rfl⟩
    | cons directive parts =>
      dsimp only
      cases hdir : Text.eqIgnoreAsciiCase directive "Host".toList with
      | false => exact ⟨_, rfl, rfl⟩
      | true =>
        simp only [Bool.not_true, Bool.false_eq_true, if_false]
        cases hp : st.pendingCipherId with
        | none =>
          refine ⟨st, rfl, ?_⟩
          rw [if_neg (by simp), hp]
        | some cipherId =>
          obtain ⟨st', hst', hpending, hget⟩ :=
            importHosts_get? { st with pendingCipherId := none } cipherId (editedHosts parts)
          refine ⟨st', hst', ?_⟩
          rw [hpending, hget id]
          simp only [Option.some.injEq]
          split_ifs <;> rfl

variable (knownIds id) in
/-- The import changes a key's entry as its valid `Host` lines say, one after the other. -/
theorem foldlM_importLine_get? (lines : List Text) (st : ManagedImport) :
    ∃ st', lines.foldlM (importLine knownIds) st = .ok st' ∧
      st'.bindings.bindings.get? id =
        (hostEdits knownIds id st.pendingCipherId lines).foldl takeEdit (st.bindings.bindings.get? id) := by
  induction lines generalizing st with
  | nil => exact ⟨st, rfl, rfl⟩
  | cons line lines ih =>
    obtain ⟨st₁, h₁, hget⟩ := importLine_get? knownIds id st line lines
    obtain ⟨st', h', hget'⟩ := ih st₁
    refine ⟨st', ?_, hget'.trans hget⟩
    rw [List.foldlM_cons, h₁]
    exact h'

/-- An import sees every change it makes. -/
theorem importLine_unchanged {st st' : ManagedImport} {line : Text} (h : importLine knownIds st line = .ok st')
    (hc : st'.changed = false) : st'.bindings = st.bindings ∧ st.changed = false := by
  simp only [importLine] at h
  split at h
  · obtain rfl := Except.ok.inj h; exact ⟨rfl, hc⟩
  · split at h
    · obtain rfl := Except.ok.inj h; exact ⟨rfl, hc⟩
    · split_ifs at h
      · obtain rfl := Except.ok.inj h; exact ⟨rfl, hc⟩
      · split at h
        · obtain rfl := Except.ok.inj h; exact ⟨rfl, hc⟩
        · unfold importHosts at h
          split_ifs at h
          · obtain rfl := Except.ok.inj h; exact ⟨rfl, hc⟩
          · obtain rfl := Except.ok.inj h; exact ⟨rfl, hc⟩
          · obtain rfl := Except.ok.inj h; exact ⟨rfl, hc⟩
          · obtain ⟨b, -, h⟩ := except_bind_ok h
            obtain rfl := Except.ok.inj h
            cases hc

theorem foldlM_importLine_unchanged {lines : List Text} {st st' : ManagedImport}
    (h : lines.foldlM (importLine knownIds) st = .ok st') (hc : st'.changed = false) :
    st'.bindings = st.bindings ∧ st.changed = false := by
  induction lines generalizing st with
  | nil => obtain rfl := Except.ok.inj h; exact ⟨rfl, hc⟩
  | cons line lines ih =>
    rw [List.foldlM_cons] at h
    obtain ⟨st₁, h₁, h⟩ := except_bind_ok h
    obtain ⟨hb, hc₁⟩ := ih h
    obtain ⟨hb₁, hc₀⟩ := importLine_unchanged h₁ hc₁
    exact ⟨hb.trans hb₁, hc₀⟩

end

/-! ## What a sync does to one key -/

/-- The host lists the managed file, if there is one, gives a key. -/
def managedEdits (knownIds : List Text) (managed : Option Text) (id : Text) : List (List Text) :=
  match managed with
  | none => []
  | some content => hostEdits knownIds id none (Text.lines content)

theorem import_get? (managed : Option Text) (keys : List ManagedKey) (bindings : HostBindingsFile) :
    ∃ imported changed, importHostBindingsFromManagedFile managed keys bindings = .ok (imported, changed) ∧
      (changed = false → imported = bindings) ∧ ∀ id, imported.bindings.get? id =
        (managedEdits (keys.map ManagedKey.cipherId) managed id).foldl takeEdit (bindings.bindings.get? id) := by
  unfold importHostBindingsFromManagedFile managedEdits
  cases managed with
  | none => exact ⟨bindings, false, rfl, fun _ => rfl, fun _ => rfl⟩
  | some content =>
    obtain ⟨st, hst, -⟩ := foldlM_importLine_get? (keys.map ManagedKey.cipherId) []
      (Text.lines content) { bindings }
    refine ⟨st.bindings, st.changed, ?_, fun hc => (foldlM_importLine_unchanged hst hc).1, fun id => ?_⟩
    · dsimp only
      rw [hst]
      rfl
    · obtain ⟨st', hst', hget⟩ := foldlM_importLine_get? (keys.map ManagedKey.cipherId) id
        (Text.lines content) { bindings }
      rw [hst] at hst'
      obtain rfl := Except.ok.inj hst'
      exact hget

theorem pruneOrphans_get? (file : HostBindingsFile) (knownIds : List Text) (id : Text) :
    (file.pruneOrphans knownIds).1.bindings.get? id = if id ∈ knownIds then file.bindings.get? id else none := by
  have h := Assoc.get?_filter (fun id => decide (id ∈ knownIds)) file.bindings id
  simp only [decide_eq_true_eq] at h
  exact h

theorem pruneOrphans_zero {file : HostBindingsFile} {knownIds : List Text}
    (h : (file.pruneOrphans knownIds).2 = 0) : (file.pruneOrphans knownIds).1 = file := by
  unfold HostBindingsFile.pruneOrphans at h ⊢
  have hlen := List.length_filter_le (fun p : Text × List Text => decide (p.1 ∈ knownIds)) file.bindings
  have : file.bindings.filter (fun p => decide (p.1 ∈ knownIds)) = file.bindings :=
    List.filter_sublist.eq_of_length (by dsimp only at h; omega)
  dsimp only
  rw [this]

section
variable {keys : List ManagedKey}

theorem load_get? (hkeys : keys ≠ []) (files : BindingFiles) :
    ∃ loaded files', loadHostBindingsImportingManaged keys files = .ok (loaded, files') ∧
      files'.bindings = loaded ∧ ∀ id, loaded.bindings.get? id =
        (managedEdits (keys.map ManagedKey.cipherId) files.managed id).foldl takeEdit
          (files.bindings.bindings.get? id) := by
  obtain ⟨imported, changed, himport, hsame, hget⟩ := import_get? files.managed keys files.bindings
  unfold loadHostBindingsImportingManaged
  rw [if_neg hkeys, himport]
  cases changed with
  | true => exact ⟨imported, { files with bindings := imported }, rfl, rfl, hget⟩
  | false => exact ⟨imported, files, rfl, (hsame rfl).symm, hget⟩

theorem prune_bindings (hkeys : keys ≠ []) (files : BindingFiles) :
    (pruneIfKeysKnown keys files.bindings files).2.bindings =
      (files.bindings.pruneOrphans (keys.map ManagedKey.cipherId)).1 := by
  unfold pruneIfKeysKnown
  rw [if_neg hkeys]
  dsimp only
  split_ifs with h
  · rfl
  · exact (pruneOrphans_zero (Nat.eq_zero_of_not_pos h)).symm

/-- A sync with no keys changes no binding; any other takes over what the managed file says of the
listed keys and drops the bindings of all ids that are not listed. -/
theorem syncManaged_get? (env : SnippetEnv) (keys : List ManagedKey) (forceWrite : Bool) (files : BindingFiles) :
    ∃ files', syncManagedSshConfigInner env keys forceWrite files = .ok files' ∧
      ∀ id, files'.bindings.bindings.get? id =
        if keys = [] then files.bindings.bindings.get? id
        else if id ∈ keys.map ManagedKey.cipherId then
          (managedEdits (keys.map ManagedKey.cipherId) files.managed id).foldl takeEdit
            (files.bindings.bindings.get? id)
        else none := by
  have hfinish : ∀ bindings (files₁ : BindingFiles), ∃ files', (if !forceWrite && bindings.bindings.isEmpty
        && files₁.managed.isNone then (pure files₁ : Except BindingError BindingFiles)
      else pure { files₁ with managed := some (sshConfigSnippetWithBindingsIn env keys bindings) }) = .ok files' ∧
        files'.bindings = files₁.bindings := by
    intro bindings files₁
    split_ifs
    · exact ⟨_, rfl, rfl⟩
    · exact ⟨_, rfl, rfl⟩
  unfold syncManagedSshConfigInner
  by_cases hkeys : keys = []
  · subst hkeys
    obtain ⟨files', hf, hb⟩ := hfinish files.bindings files
    exact ⟨files', hf, fun id => by rw [hb, if_pos rfl]⟩
  · obtain ⟨loaded, files₁, hload, rfl, hget⟩ := load_get? hkeys files
    obtain ⟨files', hf, hb⟩ := hfinish (pruneIfKeysKnown keys files₁.bindings files₁).1
      (pruneIfKeysKnown keys files₁.bindings files₁).2
    refine ⟨files', ?_, fun id => ?_⟩
    · rw [hload]; exact hf
    · rw [hb, prune_bindings hkeys, pruneOrphans_get?, if_neg hkeys, hget id]

end

/-! ## Which bindings a vault sync keeps -/

/-- The private and the public key of the cipher can be decrypted, under its own key if it has one. -/
def Cipher.isReadable (E : Crates) (userKey : SymmetricKey) (cipher : Cipher) : Bool :=
  match cipher.effectiveKey E userKey, cipher.sshKey with
  | .ok key, some sshData =>
    (decryptEncStringToString E sshData.privateKey key).isOk
      && (decryptEncStringToString E sshData.publicKey key).isOk
  | _, _ => false

namespace SyncResponse

/-- The ids of the SSH-key ciphers of the vault that are neither deleted nor archived. -/
def activeIds (response : SyncResponse) : List Text :=
  (response.ciphers.filter Cipher.isActiveSshKey).map fun cipher => cipher.id.toList

/-- The ids of those of them that can be decrypted. -/
def readableIds (E : Crates) (userKey : SymmetricKey) (response : SyncResponse) : List Text :=
  ((response.ciphers.filter Cipher.isActiveSshKey).filter (Cipher.isReadable E userKey)).map
    fun cipher => cipher.id.toList

end SyncResponse

section
variable (E : Crates) (userKey : SymmetricKey)

theorem Cipher.decrypt_spec (cipher : Cipher) :
    (cipher.isReadable E userKey = true ∧ ∃ k, cipher.decrypt E userKey = .ok k ∧ k.cipherId = cipher.id) ∨
      (cipher.isReadable E userKey = false ∧ ∃ e, cipher.decrypt E userKey = .error e) := by
  unfold Cipher.decrypt Cipher.isReadable
  cases cipher.effectiveKey E userKey with
  | error e => exact .inr ⟨rfl, e, rfl⟩
  | ok key =>
    cases cipher.sshKey with
    | none => exact .inr ⟨rfl, _, rfl⟩
    | some sshData =>
      simp only [except_ok_bind]
      cases decryptEncStringToString E sshData.privateKey key with
      | error e => exact .inr ⟨rfl, _, rfl⟩
      | ok privateKey =>
        cases decryptEncStringToString E sshData.publicKey key with
        | error e => exact .inr ⟨rfl, _, rfl⟩
        | ok publicKey => exact .inl ⟨rfl, ⟨privateKey, publicKey, cipher.displayName E key, cipher.id⟩, rfl, rfl⟩

/-- The keys of a response have the ids of its readable active ciphers, in their order. -/
theorem sshKeys_ids (response : SyncResponse) :
    (ManagedKey.fromDecrypted (response.sshKeys E userKey)).map ManagedKey.cipherId =
      response.readableIds E userKey := by
  unfold ManagedKey.fromDecrypted SyncResponse.sshKeys SyncResponse.readableIds
  generalize response.ciphers.filter Cipher.isActiveSshKey = ciphers
  induction ciphers with
  | nil => rfl
  | cons cipher ciphers ih =>
    rcases Cipher.decrypt_spec E userKey cipher with ⟨hr, k, hk, hid⟩ | ⟨hr, e, he⟩
    · rw [List.filterMap_cons, hk, List.filter_cons, if_pos hr, List.map_cons, ← ih, ← hid]
      rfl
    · rw [List.filterMap_cons, he, List.filter_cons, if_neg (by rw [hr]; exact Bool.false_ne_true), ← ih]
      rfl

end

/-- A sync keeps the bindings of all active ciphers exactly when it can decrypt none of them, or each
one that has a binding, and the managed file has no other hosts for that one. -/
theorem sync_keeps_bindings_iff (E : Crates) (userKey : SymmetricKey) (env : SnippetEnv)
    (response : SyncResponse) (files : BindingFiles) :
    ∃ files', syncManagedSshConfigWithBindings env (response.sshKeys E userKey) files = .ok files' ∧
      ((∀ id ∈ response.activeIds, ∀ hosts, files.bindings.bindings.get? id = some hosts →
          files'.bindings.bindings.get? id = some hosts) ↔
        response.readableIds E userKey = [] ∨
          ∀ id ∈ response.activeIds, ∀ hosts, files.bindings.bindings.get? id = some hosts →
            id ∈ response.readableIds E userKey ∧
              (managedEdits (response.readableIds E userKey) files.managed id).foldl takeEdit (some hosts)
                = some hosts) := by
  obtain ⟨files', hsync, hget⟩ :=
    syncManaged_get? env (ManagedKey.fromDecrypted (response.sshKeys E userKey)) false files
  refine ⟨files', hsync, ?_⟩
  rw [sshKeys_ids] at hget
  have hnil : ManagedKey.fromDecrypted (response.sshKeys E userKey) = [] ↔
      response.readableIds E userKey = [] := by
    rw [← sshKeys_ids, List.map_eq_nil_iff]
  by_cases hkeys : response.readableIds E userKey = []
  · have hkeep : ∀ id, files'.bindings.bindings.get? id = files.bindings.bindings.get? id := fun id => by
      rw [hget id, if_pos (hnil.2 hkeys)]
    exact ⟨fun _ => .inl hkeys, fun _ id _ hosts h => (hkeep id).trans h⟩
  · have hstep : ∀ id hosts, files.bindings.bindings.get? id = some hosts →
        (files'.bindings.bindings.get? id = some hosts ↔ id ∈ response.readableIds E userKey ∧
          (managedEdits (response.readableIds E userKey) files.managed id).foldl takeEdit (some hosts)
            = some hosts) := by
      intro id hosts h
      rw [hget id, if_neg (hnil.not.2 hkeys), h]
      split_ifs with hid
      · exact (and_iff_right hid).symm
      · exact ⟨nofun, fun hr => absurd hr.1 hid⟩
    rw [or_iff_right hkeys]
    exact ⟨fun h id hid hosts hb => (hstep id hosts hb).1 (h id hid hosts hb),
      fun h id hid hosts hb => (hstep id hosts hb).2 (h id hid hosts hb)⟩

/-! ## A cipher that cannot be decrypted -/

namespace PartialSync

def userKey : SymmetricKey := ⟨List.replicate 32 1, List.replicate 32 2⟩

def sealed (text : String) : String := Plain.encrypt (utf8 text) userKey

def readable : Cipher :=
  ⟨"a1", .sshKey, none, none, none, some ⟨sealed "pem", sealed "ssh-ed25519 AAAA"⟩, none⟩

/-- Its public key was encrypted under another key. -/
def damaged : Cipher :=
  ⟨"b2", .sshKey, none, none, none, some ⟨sealed "pem", "2.AAAA|AAAA|AAAA"⟩, none⟩

def files : BindingFiles where
  bindings := ⟨[("a1".toList, ["one".toList]), ("b2".toList, ["two".toList])]⟩
  managed := none

def env : SnippetEnv where
  selectorDir := "/keys".toList
  pathStyle := .absolute
  home := none
  toLowercase c := [c]

/-- The active cipher `b2` has a binding before the sync and none after it. -/
theorem damaged_binding_lost :
    ∃ files', syncManagedSshConfigWithBindings env
        (SyncResponse.sshKeys .plain userKey ⟨[readable, damaged]⟩) files = .ok files' ∧
      "b2".toList ∈ SyncResponse.activeIds ⟨[readable, damaged]⟩ ∧
      files.bindings.bindings.get? "b2".toList = some ["two".toList] ∧
      files'.bindings.bindings.get? "b2".toList = none := by
  have hids : SyncResponse.readableIds .plain userKey ⟨[readable, damaged]⟩ = ["a1".toList] := by decide
  have hkeys := sshKeys_ids .plain userKey ⟨[readable, damaged]⟩
  rw [hids] at hkeys
  obtain ⟨files', hsync, hget⟩ := syncManaged_get? env
    (ManagedKey.fromDecrypted (SyncResponse.sshKeys .plain userKey ⟨[readable, damaged]⟩)) false files
  refine ⟨files', hsync, by decide, by decide +kernel, ?_⟩
  rw [hget, hkeys, if_neg (by intro h; rw [h] at hkeys; exact nomatch hkeys), if_neg (by decide)]

end PartialSync

end SshWarden
