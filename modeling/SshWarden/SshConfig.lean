import SshWarden.Bindings

/-!
# The managed SSH config

The snippet written for the vault keys and their bindings, the scan that takes edited `Host` lines
back from it, and the commands that change the bindings file and write the snippet again. Reads and
writes of the two files always succeed here. The case mapping of `char::to_lowercase` is a parameter.
-/

namespace SshWarden

structure ManagedKey where
  name : Text
  cipherId : Text
  deriving DecidableEq, Repr

inductive SshConfigPathStyle where
  | absolute | homeRelative
  deriving DecidableEq, Repr

/-- Where the selector files are and how paths are written. -/
structure SnippetEnv where
  selectorDir : Text
  pathStyle : SshConfigPathStyle
  home : Option Text
  toLowercase : Char → List Char

def slugStep (st : Text × Bool) (c : Char) : Text × Bool :=
  if Text.isAsciiAlphanumeric c || c = '_' || c = '-' then (st.1 ++ [c], false)
  else if st.2 then st
  else (st.1 ++ ['-'], true)

def slugifyKeyName (toLowercase : Char → List Char) (name : Text) : Text :=
  let slug := Text.trimMatches '-' ((name.flatMap toLowercase).foldl slugStep ([], false)).1
  if slug = [] then "ssh-key".toList else slug

def vaultItemIdPrefix (cipherId : Text) : Text := (cipherId.filter Text.isAsciiAlphanumeric).take 8

def selectorFileName (toLowercase : Char → List Char) (keyName cipherId : Text) : Text :=
  if vaultItemIdPrefix cipherId = [] then slugifyKeyName toLowercase keyName ++ ".pub".toList
  else slugifyKeyName toLowercase keyName ++ "--".toList ++ vaultItemIdPrefix cipherId ++ ".pub".toList

def quoteChar (c : Char) : Text :=
  if c = '"' then ['\\', '"'] else if c = '\\' then ['\\', '\\'] else [c]

def quoteSshConfigArg (value : Text) : Text := '"' :: value.flatMap quoteChar ++ ['"']

def tildeJoin (relative : Text) : Text :=
  if relative = [] then ['~'] else Text.Path.join ['~'] relative

def homeRelativePath (home : Option Text) (path : Text) : Option Text :=
  (home.bind (Text.Path.stripPrefix path)).map tildeJoin

def displayPath (env : SnippetEnv) (path : Text) : Text :=
  match env.pathStyle with
  | .absolute => path
  | .homeRelative => (homeRelativePath env.home path).getD path

def pathArgWithStyle (env : SnippetEnv) (path : Text) : Text := quoteSshConfigArg (displayPath env path)

/-! ### The snippet -/

def sshwardenKeyMarkerPrefix : Text := "# sshwarden:key ".toList

def selectorPath (env : SnippetEnv) (key : ManagedKey) : Text :=
  Text.Path.join env.selectorDir (selectorFileName env.toLowercase key.name key.cipherId)

def markerLine (key : ManagedKey) : Text := sshwardenKeyMarkerPrefix ++ key.cipherId

def commentLine (key : ManagedKey) : Text := "# ".toList ++ key.name ++ " (".toList ++ key.cipherId ++ ")".toList

def hostLine (hosts : List Text) : Text := "Host ".toList ++ Text.join [' '] hosts

def identityFileLine (env : SnippetEnv) (key : ManagedKey) : Text :=
  "    IdentityFile ".toList ++ pathArgWithStyle env (selectorPath env key)

def identitiesOnlyLine : Text := "    IdentitiesOnly yes".toList

def snippetHeader : List Text :=
  ["# SSHWarden managed SSH config".toList,
    "# You may edit Host lines in SSHWarden key blocks; they are imported before regeneration.".toList,
    "# Other lines are regenerated. Manage bindings via `sshwarden keys bind/unbind ...`.".toList,
    []]

def boundBlock (env : SnippetEnv) (bindings : HostBindingsFile) (key : ManagedKey) : List Text :=
  [markerLine key, commentLine key, hostLine (bindings.hosts key.cipherId), identityFileLine env key,
    identitiesOnlyLine, []]

def unboundBlock (env : SnippetEnv) (key : ManagedKey) : List Text :=
  [markerLine key, commentLine key, "# Host <host>".toList,
    "#     IdentityFile ".toList ++ pathArgWithStyle env (selectorPath env key),
    "#     IdentitiesOnly yes".toList, []]

def unboundSection (env : SnippetEnv) (unboundKeys : List ManagedKey) : List Text :=
  if unboundKeys = [] then []
  else "# --- Unbound keys (uncomment + edit to use) ---".toList :: [] :: unboundKeys.flatMap (unboundBlock env)

def isBound (bindings : HostBindingsFile) (key : ManagedKey) : Bool := bindings.hosts key.cipherId ≠ []

def boundKeys (keys : List ManagedKey) (bindings : HostBindingsFile) : List ManagedKey :=
  keys.filter (isBound bindings)

def unboundKeys (keys : List ManagedKey) (bindings : HostBindingsFile) : List ManagedKey :=
  keys.filter fun key => !isBound bindings key

def snippetLines (env : SnippetEnv) (keys : List ManagedKey) (bindings : HostBindingsFile) : List Text :=
  snippetHeader ++ (boundKeys keys bindings).flatMap (boundBlock env bindings) ++
    unboundSection env (unboundKeys keys bindings)

def sshConfigSnippetWithBindingsIn (env : SnippetEnv) (keys : List ManagedKey)
    (bindings : HostBindingsFile) : Text :=
  Text.join ['\n'] (snippetLines env keys bindings)

/-! ### Importing edited `Host` lines -/

def sshwardenKeyMarkerCipherId (line : Text) : Option Text :=
  ((Text.stripPrefix? sshwardenKeyMarkerPrefix line).map Text.trim).filter (· ≠ [])

def legacyKeyCommentCipherId (line : Text) : Option Text :=
  (Text.stripPrefix? "# ".toList line).bind fun comment =>
    (Text.rsplitOnce " (".toList comment).bind fun cut => Text.stripSuffix? ")".toList cut.2

/-- The listed key that a trimmed marker or comment line names. -/
def namedKey (knownIds : List Text) (trimmed : Text) : Option Text :=
  ((sshwardenKeyMarkerCipherId trimmed).or (legacyKeyCommentCipherId trimmed)).filter (· ∈ knownIds)

structure ManagedImport where
  pendingCipherId : Option Text := none
  bindings : HostBindingsFile
  changed : Bool := false

/-- The hosts of a `Host` line, without the placeholder of the templates. -/
def editedHosts (parts : List Text) : List Text := parts.filter (· ≠ "<host>".toList)

def isValidPattern (host : Text) : Bool :=
  match validateHostPattern host with
  | .ok _ => true
  | .error _ => false

def importHosts (st : ManagedImport) (cipherId : Text) (hosts : List Text) :
    Except BindingError ManagedImport :=
  if hosts = [] then pure st
  else if !hosts.all isValidPattern then pure st
  else if st.bindings.bindings.get? cipherId = some hosts then pure st
  else do
    let bindings ← st.bindings.setHosts cipherId hosts
    pure { st with bindings, changed := true }

def importLine (knownIds : List Text) (st : ManagedImport) (line : Text) :
    Except BindingError ManagedImport :=
  match namedKey knownIds (Text.trim line) with
  | some cipherId => pure { st with pendingCipherId := some cipherId }
  | none =>
    match Text.words (Text.trim line) with
    | [] => pure st
    | directive :: parts =>
      if !Text.eqIgnoreAsciiCase directive "Host".toList then pure st
      else
        match st.pendingCipherId with
        | none => pure st
        | some cipherId => importHosts { st with pendingCipherId := none } cipherId (editedHosts parts)

def importHostBindingsFromManagedFile (managed : Option Text) (keys : List ManagedKey)
    (bindings : HostBindingsFile) : Except BindingError (HostBindingsFile × Bool) :=
  match managed with
  | none => pure (bindings, false)
  | some content => do
    let st ← (Text.lines content).foldlM (importLine (keys.map ManagedKey.cipherId)) { bindings }
    pure (st.bindings, st.changed)

/-! ### The commands -/

/-- `bindings.json` and the managed snippet, which may not exist yet. -/
structure BindingFiles where
  bindings : HostBindingsFile
  managed : Option Text
  deriving DecidableEq

def loadHostBindingsImportingManaged (keys : List ManagedKey) (files : BindingFiles) :
    Except BindingError (HostBindingsFile × BindingFiles) :=
  if keys = [] then pure (files.bindings, files)
  else do
    let (bindings, changed) ← importHostBindingsFromManagedFile files.managed keys files.bindings
    if changed then pure (bindings, { files with bindings }) else pure (bindings, files)

/-- The bindings a locked change starts from. -/
def seededBindings (keys : List ManagedKey) (files : BindingFiles) : Except BindingError HostBindingsFile :=
  if keys = [] then pure files.bindings
  else Prod.fst <$> importHostBindingsFromManagedFile files.managed keys files.bindings

def withHostBindingsLocked {α : Type} (keys : List ManagedKey)
    (mutate : HostBindingsFile → Except BindingError (HostBindingsFile × α)) (files : BindingFiles) :
    Except BindingError (BindingFiles × α) := do
  let seeded ← seededBindings keys files
  let (bindings, value) ← mutate seeded
  pure ({ files with bindings }, value)

def pruneIfKeysKnown (keys : List ManagedKey) (bindings : HostBindingsFile) (files : BindingFiles) :
    HostBindingsFile × BindingFiles :=
  if keys = [] then (bindings, files)
  else
    let (kept, pruned) := bindings.pruneOrphans (keys.map ManagedKey.cipherId)
    if 0 < pruned then (kept, { files with bindings := kept }) else (kept, files)

def syncManagedSshConfigInner (env : SnippetEnv) (keys : List ManagedKey) (forceWrite : Bool)
    (files : BindingFiles) : Except BindingError BindingFiles := do
  let (loaded, files) ← loadHostBindingsImportingManaged keys files
  let (bindings, files) := pruneIfKeysKnown keys loaded files
  if !forceWrite && bindings.bindings.isEmpty && files.managed.isNone then pure files
  else pure { files with managed := some (sshConfigSnippetWithBindingsIn env keys bindings) }

/-- A key query names an item id or, in any case, one key's name; without a cache it is taken as an
id. -/
def resolveCipherId (cache : Option (List ManagedKey)) (query : Text) : Except BindingError Text :=
  match cache with
  | none => pure query
  | some keys =>
    if keys.any fun k => k.cipherId = query then pure query
    else
      match keys.filter fun k => Text.eqIgnoreAsciiCase k.name query with
      | [] => .error (.noKeyMatches query)
      | [k] => pure k.cipherId
      | ks => .error (.severalKeysMatch query ks.length)

def addHosts (cipherId : Text) : List Text → HostBindingsFile → Except BindingError HostBindingsFile
  | [], bindings => pure bindings
  | host :: hosts, bindings => do
    let bindings ← bindings.addHost cipherId host
    addHosts cipherId hosts bindings

def cmdBindingsAdd (env : SnippetEnv) (cache : Option (List ManagedKey)) (key : Text)
    (hosts : List Text) (files : BindingFiles) : Except BindingError BindingFiles := do
  let cipherId ← resolveCipherId cache key
  let (files, _) ← withHostBindingsLocked (cache.getD [])
    (fun bindings => (·, ()) <$> addHosts cipherId hosts bindings) files
  syncManagedSshConfigInner env (cache.getD []) true files

def removeHosts (cipherId : Text) (host : Option Text) (all : Bool) (bindings : HostBindingsFile) :
    Except BindingError (HostBindingsFile × Bool) :=
  match host, all with
  | some _, true => .error .hostAndAll
  | none, false => .error .hostOrAllMissing
  | none, true => pure (bindings.clearKey cipherId)
  | some host, false => pure (bindings.removeHost cipherId host)

def cmdBindingsRemove (env : SnippetEnv) (cache : Option (List ManagedKey)) (key : Text)
    (host : Option Text) (all : Bool) (files : BindingFiles) : Except BindingError BindingFiles := do
  let cipherId ← resolveCipherId cache key
  let (files, changed) ← withHostBindingsLocked (cache.getD []) (removeHosts cipherId host all) files
  if !changed then .error (.noMatchingBinding cipherId)
  else syncManagedSshConfigInner env (cache.getD []) true files

def cmdKeysUnbind (env : SnippetEnv) (cache : Option (List ManagedKey)) (key : Text)
    (host : Option Text) (all : Bool) (files : BindingFiles) : Except BindingError BindingFiles :=
  if all then cmdBindingsRemove env cache key none true files
  else cmdBindingsRemove env cache key host false files

def setAllHosts : List (Text × List Text) → HostBindingsFile → Except BindingError HostBindingsFile
  | [], bindings => pure bindings
  | (cipherId, hosts) :: payload, bindings => do
    let bindings ← bindings.setHosts cipherId hosts
    setAllHosts payload bindings

def persistBindPayload (env : SnippetEnv) (cache : Option (List ManagedKey))
    (payload : List (Text × List Text)) (files : BindingFiles) : Except BindingError BindingFiles := do
  let (files, _) ← withHostBindingsLocked (cache.getD [])
    (fun bindings => (·, ()) <$> setAllHosts payload bindings) files
  syncManagedSshConfigInner env (cache.getD []) true files

end SshWarden
