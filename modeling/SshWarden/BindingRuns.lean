import SshWarden.HostMap
import SshWarden.Injection

/-!
# Binding commands and the map they should compute

Each command changes `bindings.json`, loads it again, takes the `Host` lines of the snippet that is
still the old one back into it, and only then writes the snippet. So a key that had a `Host` line
keeps the hosts of that line whatever the command did (`runCommand_hosts`). A run computes the map
its commands describe exactly when no command changes the hosts of such a key
(`bindingCommands_refine_iff`).
-/

namespace SshWarden

open Text (split words)

def isHostDirective (line : Text) : Bool :=
  match words (Text.trim line) with
  | directive :: _ => Text.eqIgnoreAsciiCase directive "Host".toList
  | [] => false

def hostLines (text : Text) : List Text := (split text).filter isHostDirective

/-- The listed key that the last naming line of `ls` names. -/
def lastNamed (knownIds : List Text) (ls : List Text) : Option Text :=
  (ls.filterMap fun line => namedKey knownIds (Text.trim line)).getLast?

/-- The lines of a key's marker and comment hold no `Host` directive and name the key. -/
structure Readable (knownIds : List Text) (key : ManagedKey) : Prop where
  noHost : ∀ line ∈ split (markerLine key) ++ split (commentLine key), isHostDirective line = false
  named : lastNamed knownIds (split (markerLine key) ++ split (commentLine key)) = some key.cipherId

variable {knownIds : List Text}

theorem lastNamed_cons (line : Text) (ls : List Text) :
    lastNamed knownIds (line :: ls) =
      (lastNamed knownIds ls).or (namedKey knownIds (Text.trim line)) := by
  unfold lastNamed
  rw [List.filterMap_cons]
  cases namedKey knownIds (Text.trim line) with
  | none => simp
  | some id =>
    rw [List.getLast?_cons]
    cases (ls.filterMap fun line => namedKey knownIds (Text.trim line)).getLast? <;> rfl

theorem importLine_of_not_host {line : Text} (h : isHostDirective line = false) (st : ManagedImport) :
    importLine knownIds st line = .ok { st with
      pendingCipherId := (namedKey knownIds (Text.trim line)).or st.pendingCipherId } := by
  unfold isHostDirective at h
  unfold importLine
  cases namedKey knownIds (Text.trim line) with
  | some id => rfl
  | none =>
    cases hw : words (Text.trim line) with
    | nil => rfl
    | cons directive parts =>
      rw [hw] at h
      replace h : Text.eqIgnoreAsciiCase directive "Host".toList = false := h
      simp only [h, Bool.not_false, if_true]
      rfl

/-- Lines without a `Host` directive only move the pending key. -/
theorem foldlM_importLine_of_not_host {ls : List Text} (h : ∀ line ∈ ls, isHostDirective line = false)
    (st : ManagedImport) :
    ls.foldlM (importLine knownIds) st = .ok { st with
      pendingCipherId := (lastNamed knownIds ls).or st.pendingCipherId } := by
  induction ls generalizing st with
  | nil => rfl
  | cons line ls ih =>
    obtain ⟨hline, hls⟩ := List.forall_mem_cons.1 h
    rw [List.foldlM_cons, importLine_of_not_host hline]
    refine (ih hls _).trans ?_
    rw [lastNamed_cons, Option.or_assoc]

theorem isHostDirective_of_word {c : Char} {cs : Text} (hw : Text.isWhitespace c = false)
    (hc : c.toLower ≠ 'h') : isHostDirective (c :: cs) = false := by
  obtain ⟨w, ws, h⟩ := Text.words_eq_cons hw cs
  unfold isHostDirective
  rw [Text.words_trim, h]
  simp [Text.eqIgnoreAsciiCase, hc]

theorem isHostDirective_cons {c : Char} (hw : Text.isWhitespace c = true) (cs : Text) :
    isHostDirective (c :: cs) = isHostDirective cs := by
  unfold isHostDirective
  rw [Text.words_trim, Text.words_trim, Text.words_cons hw]

theorem words_hostLine {hosts : List Text} (h : NormalHosts hosts) :
    words (hostLine hosts) = "Host".toList :: hosts := by
  have hhost : words "Host".toList = ["Host".toList] := by decide
  have hcut : hostLine hosts = "Host".toList ++ ' ' :: Text.join [' '] hosts := rfl
  rw [hcut, Text.words_append_cons _ _ (by decide), hhost, Text.words_join h.no_whitespace]
  rfl

theorem isHostDirective_hostLine {hosts : List Text} (h : NormalHosts hosts) :
    isHostDirective (hostLine hosts) = true := by
  unfold isHostDirective
  rw [Text.words_trim, words_hostLine h]
  exact (by decide : Text.eqIgnoreAsciiCase "Host".toList "Host".toList = true)

theorem sshwardenKeyMarkerPrefix_eq :
    sshwardenKeyMarkerPrefix = '#' :: " sshwarden:key ".toList := by decide

theorem commentPrefix_eq : "# ".toList = ['#', ' '] := by decide

/-- A naming line starts with a comment sign. -/
theorem namedKey_of_head_ne {c : Char} (hc : c ≠ '#') (cs : Text) : namedKey knownIds (c :: cs) = none := by
  unfold namedKey sshwardenKeyMarkerCipherId legacyKeyCommentCipherId
  rw [sshwardenKeyMarkerPrefix_eq, commentPrefix_eq, Text.stripPrefix?_cons_of_ne hc,
    Text.stripPrefix?_cons_of_ne hc]
  rfl

theorem namedKey_hostLine (hosts : List Text) : namedKey knownIds (Text.trim (hostLine hosts)) = none := by
  have hcut : hostLine hosts = 'H' :: ("ost ".toList ++ Text.join [' '] hosts) := rfl
  rw [hcut, Text.trim_cons (by decide)]
  exact namedKey_of_head_ne (by decide) _

/-! ### Importing the snippet -/

theorem importLine_stripCarriageReturn (st : ManagedImport) (line : Text) :
    importLine knownIds st (Text.stripCarriageReturn line) = importLine knownIds st line := by
  unfold importLine
  rw [Text.trim_stripCarriageReturn]

theorem importLine_nil (st : ManagedImport) : importLine knownIds st [] = .ok st := by
  have hn : namedKey knownIds (Text.trim []) = none := by
    unfold namedKey sshwardenKeyMarkerCipherId legacyKeyCommentCipherId
    rw [sshwardenKeyMarkerPrefix_eq, commentPrefix_eq]
    rfl
  unfold importLine
  rw [hn]
  rfl

/-- Line ends do not matter to the scan. -/
theorem foldlM_importLine_endLines (ls : List Text) (st : ManagedImport) :
    (Text.endLines ls).foldlM (importLine knownIds) st = ls.foldlM (importLine knownIds) st := by
  induction ls generalizing st with
  | nil => rfl
  | cons l ls ih =>
    cases ls with
    | nil =>
      unfold Text.endLines
      split_ifs with h
      · subst h
        rw [List.foldlM_cons, importLine_nil]
        rfl
      · rfl
    | cons l' ls =>
      rw [Text.endLines, List.foldlM_cons, List.foldlM_cons, importLine_stripCarriageReturn]
      · exact congrArg _ (funext ih)
      · simp

theorem isValidPattern_of_normal {hosts : List Text} (h : NormalHosts hosts) :
    hosts.all isValidPattern = true := by
  refine List.all_eq_true.2 fun x hx => ?_
  unfold isValidPattern
  rw [h.valid x hx]

/-- What importing a key's `Host` line makes of a map. -/
def takeBack (m : HostMap) (id : Text) (hosts : List Text) : HostMap :=
  if editedHosts hosts = [] then m else Function.update m id (editedHosts hosts)

/-- An import kept the file well formed, and it saw every change it made. -/
structure Imported (keys : List ManagedKey) (st st' : ManagedImport) : Prop where
  wellFormed : st.bindings.WellFormed keys → st'.bindings.WellFormed keys
  unchanged : st'.changed = false → st'.bindings = st.bindings ∧ st.changed = false

variable {keys : List ManagedKey}

theorem Imported.refl (st : ManagedImport) : Imported keys st st := ⟨id, fun h => ⟨rfl, h⟩⟩

theorem Imported.trans {st₁ st₂ st₃ : ManagedImport} (h : Imported keys st₁ st₂)
    (h' : Imported keys st₂ st₃) : Imported keys st₁ st₃ where
  wellFormed hw := h'.wellFormed (h.wellFormed hw)
  unchanged hc := by
    obtain ⟨hb', hc'⟩ := h'.unchanged hc
    obtain ⟨hb, hc⟩ := h.unchanged hc'
    exact ⟨hb'.trans hb, hc⟩

theorem importHosts_normal {hosts : List Text} (hn : NormalHosts hosts) {id : Text}
    (hid : id ∈ keys.map ManagedKey.cipherId) (st : ManagedImport) :
    ∃ st', importHosts st id (editedHosts hosts) = .ok st' ∧
      st'.bindings.hosts = takeBack st.bindings.hosts id hosts ∧ Imported keys st st' := by
  have hedited : NormalHosts (editedHosts hosts) := hn.filter _
  unfold importHosts takeBack
  split_ifs with hnil hvalid hget
  · exact ⟨st, rfl, rfl, .refl st⟩
  · simp [isValidPattern_of_normal hedited] at hvalid
  · have hhosts : st.bindings.hosts id = editedHosts hosts := by
      simp [HostBindingsFile.hosts, hget]
    exact ⟨st, rfl, (Function.update_eq_self_iff.2 hhosts.symm).symm, .refl st⟩
  · rw [HostBindingsFile.setHosts_of_normal hedited hnil]
    refine ⟨_, rfl, HostBindingsFile.hosts_insert .., fun hw => hw.insert hnil hedited hid, fun h => ?_⟩
    cases h

theorem importLine_hostLine {hosts : List Text} (hn : NormalHosts hosts) (st : ManagedImport) (id : Text) :
    importLine knownIds { st with pendingCipherId := some id } (hostLine hosts) =
      importHosts { st with pendingCipherId := none } id (editedHosts hosts) := by
  have hhost : Text.eqIgnoreAsciiCase "Host".toList "Host".toList = true := by decide
  unfold importLine
  rw [namedKey_hostLine, Text.words_trim, words_hostLine hn]
  simp only [hhost, Bool.not_true, Bool.false_eq_true, if_false]

variable {env : SnippetEnv} {bindings : HostBindingsFile}

theorem not_isHostDirective_identityFileLine (key : ManagedKey) :
    isHostDirective (identityFileLine env key) = false := by
  have hcut : identityFileLine env key = ' ' :: ' ' :: ' ' :: ' ' :: 'I' ::
      ("dentityFile ".toList ++ pathArgWithStyle env (selectorPath env key)) := rfl
  rw [hcut, isHostDirective_cons (by decide), isHostDirective_cons (by decide),
    isHostDirective_cons (by decide), isHostDirective_cons (by decide)]
  exact isHostDirective_of_word (by decide) (by decide)

theorem not_isHostDirective_tail (hdir : '\n' ∉ env.selectorDir) (key : ManagedKey) :
    ∀ line ∈ [identityFileLine env key, identitiesOnlyLine, []].flatMap split,
      isHostDirective line = false := by
  have hid : split (identityFileLine env key) = [identityFileLine env key] := by
    refine Text.split_of_not_mem fun h => ?_
    rcases List.mem_append.1 h with h | h
    · exact absurd h (by decide)
    · exact newline_not_mem_pathArg hdir key h
  have hfix : ∀ line ∈ [identitiesOnlyLine, []].flatMap split, isHostDirective line = false := by decide
  rw [List.flatMap_cons, hid]
  exact List.forall_mem_cons.2 ⟨not_isHostDirective_identityFileLine key, hfix⟩

theorem split_hostLine {hosts : List Text} (hn : NormalHosts hosts) :
    split (hostLine hosts) = [hostLine hosts] := by
  refine Text.split_of_not_mem fun h => ?_
  obtain ⟨host, hmem, hc⟩ := newline_mem_hostLine.1 h
  have hw := (hn.no_whitespace host hmem).2 _ hc
  exact absurd Text.newline_isWhitespace (by simp [hw])

/-- The lines of a bound key's block, cut where the scan changes its mind. -/
theorem split_boundBlock {key : ManagedKey} (hn : NormalHosts (bindings.hosts key.cipherId)) :
    (boundBlock env bindings key).flatMap split =
      (split (markerLine key) ++ split (commentLine key)) ++
        hostLine (bindings.hosts key.cipherId) ::
          [identityFileLine env key, identitiesOnlyLine, []].flatMap split := by
  unfold boundBlock
  simp only [List.flatMap_cons, List.flatMap_nil, split_hostLine hn, List.append_assoc,
    List.singleton_append, List.append_nil]

theorem foldlM_boundBlock (hdir : '\n' ∉ env.selectorDir) {key : ManagedKey} (hkey : key ∈ keys)
    (hread : Readable (keys.map ManagedKey.cipherId) key)
    (hn : NormalHosts (bindings.hosts key.cipherId)) (st : ManagedImport) :
    ∃ st', ((boundBlock env bindings key).flatMap split).foldlM
        (importLine (keys.map ManagedKey.cipherId)) st = .ok st' ∧
      st'.bindings.hosts = takeBack st.bindings.hosts key.cipherId (bindings.hosts key.cipherId) ∧
      Imported keys st st' := by
  obtain ⟨st', himport, hhosts, hok⟩ := importHosts_normal hn (List.mem_map_of_mem hkey)
    { st with pendingCipherId := none }
  refine ⟨{ st' with
    pendingCipherId := (lastNamed (keys.map ManagedKey.cipherId)
      ([identityFileLine env key, identitiesOnlyLine, []].flatMap split)).or st'.pendingCipherId },
    ?_, hhosts, ⟨hok.wellFormed, hok.unchanged⟩⟩
  rw [split_boundBlock hn, List.foldlM_append, foldlM_importLine_of_not_host hread.noHost,
    hread.named]
  change List.foldlM _ { st with pendingCipherId := some key.cipherId } _ = _
  rw [List.foldlM_cons, importLine_hostLine hn, himport]
  exact foldlM_importLine_of_not_host (not_isHostDirective_tail hdir key) st'

theorem foldlM_boundBlocks (hdir : '\n' ∉ env.selectorDir)
    (hread : ∀ key ∈ keys, Readable (keys.map ManagedKey.cipherId) key)
    (hn : ∀ id, NormalHosts (bindings.hosts id)) {bound : List ManagedKey} (hbound : bound ⊆ keys)
    (st : ManagedImport) :
    ∃ st', ((bound.flatMap (boundBlock env bindings)).flatMap split).foldlM
        (importLine (keys.map ManagedKey.cipherId)) st = .ok st' ∧
      st'.bindings.hosts = bound.foldl
        (fun m key => takeBack m key.cipherId (bindings.hosts key.cipherId)) st.bindings.hosts ∧
      Imported keys st st' := by
  induction bound generalizing st with
  | nil => exact ⟨st, rfl, rfl, .refl st⟩
  | cons key bound ih =>
    have hkey : key ∈ keys := hbound (List.mem_cons_self ..)
    obtain ⟨st₁, hfold, hhosts, hok⟩ := foldlM_boundBlock hdir hkey (hread key hkey) (hn _) st
    obtain ⟨st₂, hfold', hhosts', hok'⟩ := ih (fun k hk => hbound (List.mem_cons_of_mem _ hk)) st₁
    refine ⟨st₂, ?_, ?_, hok.trans hok'⟩
    · rw [List.flatMap_cons, List.flatMap_append, List.foldlM_append, hfold]
      exact hfold'
    · rw [hhosts', hhosts, List.foldl_cons]

theorem not_isHostDirective_unboundBlock (hdir : '\n' ∉ env.selectorDir) {key : ManagedKey}
    (hread : Readable knownIds key) :
    ∀ line ∈ (unboundBlock env key).flatMap split, isHostDirective line = false := by
  have htemplate : split ("#     IdentityFile ".toList ++ pathArgWithStyle env (selectorPath env key)) =
      ["#     IdentityFile ".toList ++ pathArgWithStyle env (selectorPath env key)] := by
    refine Text.split_of_not_mem fun h => ?_
    rcases List.mem_append.1 h with h | h
    · exact absurd h (by decide)
    · exact newline_not_mem_pathArg hdir key h
  have hfix : isHostDirective "# Host <host>".toList = false ∧
      isHostDirective "#     IdentitiesOnly yes".toList = false ∧ isHostDirective [] = false := by decide
  have hid : isHostDirective
      ("#     IdentityFile ".toList ++ pathArgWithStyle env (selectorPath env key)) = false :=
    isHostDirective_of_word (c := '#') (by decide) (by decide)
  have hsplit : (unboundBlock env key).flatMap split =
      (split (markerLine key) ++ split (commentLine key)) ++
        ["# Host <host>".toList, "#     IdentityFile ".toList ++ pathArgWithStyle env (selectorPath env key),
          "#     IdentitiesOnly yes".toList, []] := by
    have hsplits : split "# Host <host>".toList = ["# Host <host>".toList] ∧
        split "#     IdentitiesOnly yes".toList = ["#     IdentitiesOnly yes".toList] ∧
        split [] = [[]] := by decide
    unfold unboundBlock
    simp only [List.flatMap_cons, List.flatMap_nil, htemplate, hsplits.1, hsplits.2.1, hsplits.2.2,
      List.append_assoc, List.singleton_append, List.append_nil]
  rw [hsplit]
  intro line hline
  rcases List.mem_append.1 hline with hline | hline
  · exact hread.noHost line hline
  · simp only [List.mem_cons, List.not_mem_nil, or_false] at hline
    rcases hline with rfl | rfl | rfl | rfl
    · exact hfix.1
    · exact hid
    · exact hfix.2.1
    · exact hfix.2.2

theorem not_isHostDirective_unboundSection (hdir : '\n' ∉ env.selectorDir) {ks : List ManagedKey}
    (hread : ∀ key ∈ ks, Readable knownIds key) :
    ∀ line ∈ (unboundSection env ks).flatMap split, isHostDirective line = false := by
  have hfix : ∀ line ∈ ["# --- Unbound keys (uncomment + edit to use) ---".toList, []].flatMap split,
      isHostDirective line = false := by decide
  unfold unboundSection
  split_ifs
  · simp
  · intro line hline
    rw [show ∀ x y : Text, ∀ zs, x :: y :: zs = [x, y] ++ zs from fun _ _ _ => rfl,
      List.flatMap_append, List.mem_append] at hline
    rcases hline with hline | hline
    · exact hfix line hline
    · rw [List.flatMap_assoc] at hline
      obtain ⟨key, hkey, hline⟩ := List.mem_flatMap.1 hline
      exact not_isHostDirective_unboundBlock hdir (hread key hkey) line hline

theorem not_isHostDirective_header :
    ∀ line ∈ snippetHeader.flatMap split, isHostDirective line = false := by decide

theorem split_snippet (env : SnippetEnv) (keys : List ManagedKey) (bindings : HostBindingsFile) :
    split (sshConfigSnippetWithBindingsIn env keys bindings) =
      snippetHeader.flatMap split ++
        (((boundKeys keys bindings).flatMap (boundBlock env bindings)).flatMap split ++
          (unboundSection env (unboundKeys keys bindings)).flatMap split) := by
  unfold sshConfigSnippetWithBindingsIn
  rw [Text.split_join (by simp [snippetLines, snippetHeader])]
  unfold snippetLines
  rw [List.append_assoc, List.flatMap_append, List.flatMap_append]

/-- Importing a generated snippet takes back the hosts of each bound key, in order. -/
theorem import_snippet (hdir : '\n' ∉ env.selectorDir)
    (hread : ∀ key ∈ keys, Readable (keys.map ManagedKey.cipherId) key)
    (hn : ∀ id, NormalHosts (bindings.hosts id)) (file : HostBindingsFile) :
    ∃ file' changed, importHostBindingsFromManagedFile
        (some (sshConfigSnippetWithBindingsIn env keys bindings)) keys file = .ok (file', changed) ∧
      file'.hosts = (boundKeys keys bindings).foldl
        (fun m key => takeBack m key.cipherId (bindings.hosts key.cipherId)) file.hosts ∧
      (file.WellFormed keys → file'.WellFormed keys) ∧ (changed = false → file' = file) := by
  obtain ⟨st', hfold, hhosts, hok⟩ := foldlM_boundBlocks hdir hread hn
    (fun key hkey => (List.mem_filter.1 hkey).1 : boundKeys keys bindings ⊆ keys)
    { bindings := file, pendingCipherId :=
        (lastNamed (keys.map ManagedKey.cipherId) (snippetHeader.flatMap split)).or none }
  refine ⟨st'.bindings, st'.changed, ?_, hhosts, hok.wellFormed, fun hc => (hok.unchanged hc).1⟩
  have hunbound := not_isHostDirective_unboundSection hdir
    (fun key hkey => hread key (List.mem_filter.1 hkey).1 :
      ∀ key ∈ unboundKeys keys bindings, Readable (keys.map ManagedKey.cipherId) key)
  unfold importHostBindingsFromManagedFile Text.lines
  dsimp only
  rw [foldlM_importLine_endLines, split_snippet, List.foldlM_append,
    foldlM_importLine_of_not_host not_isHostDirective_header]
  simp only [bind, Except.bind]
  rw [List.foldlM_append, hfold]
  simp only [bind, Except.bind]
  rw [foldlM_importLine_of_not_host hunbound]
  rfl

/-- The bindings are well formed and the snippet, if there is one, is the one written for them. -/
structure Consistent (env : SnippetEnv) (keys : List ManagedKey) (files : BindingFiles) : Prop where
  wellFormed : files.bindings.WellFormed keys
  managed : ∀ text, files.managed = some text →
    text = sshConfigSnippetWithBindingsIn env keys files.bindings

/-- The map `m` after importing the snippet of `files`. -/
def fromSnippet (files : BindingFiles) (m : HostMap) : HostMap := fun id =>
  if files.managed = none ∨ editedHosts (files.bindings.hosts id) = [] then m id
  else editedHosts (files.bindings.hosts id)

theorem takeBack_self (m : HostMap) (id : Text) (hosts : List Text) :
    takeBack m id hosts id = if editedHosts hosts = [] then m id else editedHosts hosts := by
  unfold takeBack
  split_ifs
  · rfl
  · rw [Function.update_self]

theorem takeBack_of_ne (m : HostMap) {id id' : Text} (h : id' ≠ id) (hosts : List Text) :
    takeBack m id' hosts id = m id := by
  unfold takeBack
  split_ifs
  · rfl
  · rw [Function.update_of_ne (Ne.symm h)]

theorem foldl_takeBack (b m : HostMap) (ks : List ManagedKey) (id : Text) :
    ks.foldl (fun m key => takeBack m key.cipherId (b key.cipherId)) m id =
      if editedHosts (b id) ≠ [] ∧ ∃ key ∈ ks, key.cipherId = id then editedHosts (b id) else m id := by
  induction ks generalizing m with
  | nil => simp
  | cons key ks ih =>
    rw [List.foldl_cons, ih]
    by_cases hid : key.cipherId = id
    · subst hid
      rw [takeBack_self]
      by_cases hnil : editedHosts (b key.cipherId) = [] <;> simp [hnil]
    · rw [takeBack_of_ne m hid]
      simp [hid]

theorem mem_boundKeys_of_hosts (hw : bindings.WellFormed keys) {id : Text} (h : bindings.hosts id ≠ []) :
    ∃ key ∈ boundKeys keys bindings, key.cipherId = id := by
  cases hget : bindings.bindings.get? id with
  | none => exact absurd (by simp [HostBindingsFile.hosts, hget]) h
  | some hosts =>
    obtain ⟨key, hkey, hid⟩ := List.mem_map.1 (hw.listed (id, hosts) (Assoc.get?_eq_some_mem hget))
    refine ⟨key, List.mem_filter.2 ⟨hkey, ?_⟩, hid⟩
    unfold isBound
    rw [hid]
    simpa using h

theorem editedHosts_nil : editedHosts [] = [] := rfl

variable {files : BindingFiles}

theorem import_consistent (hdir : '\n' ∉ env.selectorDir)
    (hread : ∀ key ∈ keys, Readable (keys.map ManagedKey.cipherId) key)
    (hfiles : Consistent env keys files) (file : HostBindingsFile) :
    ∃ file' changed, importHostBindingsFromManagedFile files.managed keys file = .ok (file', changed) ∧
      file'.hosts = fromSnippet files file.hosts ∧
      (file.WellFormed keys → file'.WellFormed keys) ∧ (changed = false → file' = file) := by
  cases hmanaged : files.managed with
  | none =>
    refine ⟨file, false, rfl, ?_, id, fun _ => rfl⟩
    funext id
    simp [fromSnippet, hmanaged]
  | some text =>
    obtain ⟨file', changed, himport, hhosts, hok⟩ :=
      import_snippet hdir hread hfiles.wellFormed.normal file
    refine ⟨file', changed, hfiles.managed text hmanaged ▸ himport, ?_, hok⟩
    funext id
    rw [hhosts, foldl_takeBack]
    unfold fromSnippet
    by_cases hnil : editedHosts (files.bindings.hosts id) = []
    · simp [hnil]
    · have hne : files.bindings.hosts id ≠ [] := fun h => hnil (by rw [h, editedHosts_nil])
      rw [if_pos ⟨hnil, mem_boundKeys_of_hosts hfiles.wellFormed hne⟩, if_neg]
      simp [hmanaged, hnil]

/-- Without listed keys no host is bound, so there is nothing to import. -/
theorem fromSnippet_of_no_keys (hw : files.bindings.WellFormed []) (m : HostMap) :
    fromSnippet files m = m := by
  funext id
  have hnil : files.bindings.hosts id = [] := by
    by_contra h
    obtain ⟨key, hkey, -⟩ := mem_boundKeys_of_hosts hw h
    exact absurd hkey List.not_mem_nil
  simp [fromSnippet, hnil, editedHosts_nil]

theorem withHostBindingsLocked_ok {α : Type} (hdir : '\n' ∉ env.selectorDir)
    (hread : ∀ key ∈ keys, Readable (keys.map ManagedKey.cipherId) key)
    (hfiles : Consistent env keys files)
    {mutate : HostBindingsFile → Except BindingError (HostBindingsFile × α)} {files' : BindingFiles}
    {value : α} (h : withHostBindingsLocked keys mutate files = .ok (files', value)) :
    ∃ seeded, seeded.hosts = fromSnippet files files.bindings.hosts ∧ seeded.WellFormed keys ∧
      mutate seeded = .ok (files'.bindings, value) ∧ files'.managed = files.managed := by
  unfold withHostBindingsLocked at h
  obtain ⟨seeded, hseed, h⟩ := except_bind_ok h
  obtain ⟨⟨file', value'⟩, hmutate, h⟩ := except_bind_ok h
  cases h
  have hseeded : seeded.hosts = fromSnippet files files.bindings.hosts ∧ seeded.WellFormed keys := by
    unfold seededBindings at hseed
    split_ifs at hseed with hkeys
    · cases hseed
      subst hkeys
      exact ⟨(fromSnippet_of_no_keys hfiles.wellFormed _).symm, hfiles.wellFormed⟩
    · obtain ⟨file', changed, himport, hhosts, hwf, -⟩ :=
        import_consistent hdir hread hfiles files.bindings
      rw [himport] at hseed
      cases hseed
      exact ⟨hhosts, hwf hfiles.wellFormed⟩
  exact ⟨seeded, hseeded.1, hseeded.2, hmutate, rfl⟩

/-- Writing the snippet first takes the hosts of the old one back into the changed bindings. -/
theorem syncManagedSshConfigInner_ok (hdir : '\n' ∉ env.selectorDir)
    (hread : ∀ key ∈ keys, Readable (keys.map ManagedKey.cipherId) key)
    (hfiles : Consistent env keys files) {changed files' : BindingFiles}
    (hw : changed.bindings.WellFormed keys) (hm : changed.managed = files.managed)
    (h : syncManagedSshConfigInner env keys true changed = .ok files') :
    files'.bindings.hosts = fromSnippet files changed.bindings.hosts ∧
      files'.bindings.WellFormed keys ∧
      files'.managed = some (sshConfigSnippetWithBindingsIn env keys files'.bindings) := by
  unfold syncManagedSshConfigInner at h
  obtain ⟨⟨loaded, files₁⟩, hload, h⟩ := except_bind_ok h
  have hloaded : loaded.hosts = fromSnippet files changed.bindings.hosts ∧ loaded.WellFormed keys ∧
      files₁.bindings = loaded := by
    unfold loadHostBindingsImportingManaged at hload
    split_ifs at hload with hkeys
    · cases hload
      subst hkeys
      exact ⟨(fromSnippet_of_no_keys hfiles.wellFormed _).symm, hw, rfl⟩
    · obtain ⟨file', ch, himport, hhosts, hwf, hsame⟩ :=
        import_consistent hdir hread hfiles changed.bindings
      rw [hm, himport] at hload
      cases ch with
      | true =>
        cases hload
        exact ⟨hhosts, hwf hw, rfl⟩
      | false =>
        cases hload
        exact ⟨hhosts, hwf hw, (hsame rfl).symm⟩
  obtain ⟨hhosts, hwf, hfile⟩ := hloaded
  have hprune : pruneIfKeysKnown keys loaded files₁ = (loaded, files₁) := by
    unfold pruneIfKeysKnown
    rw [HostBindingsFile.pruneOrphans_of_wellFormed hwf]
    simp
  dsimp only at h
  rw [hprune] at h
  cases h
  exact ⟨hfile ▸ hhosts, hfile ▸ hwf, by rw [hfile]⟩

/-! ### Commands -/

def runCommand (env : SnippetEnv) (keys : List ManagedKey) (files : BindingFiles) :
    BindingsCommand → Except BindingError BindingFiles
  | .bind key hosts => cmdBindingsAdd env (some keys) key hosts files
  | .unbind key host all => cmdKeysUnbind env (some keys) key host all files
  | .save payload => persistBindPayload env (some keys) payload files

/-- The cache lists the keys of a dialog's payload; a key query is resolved in the cache. -/
def BindingsCommand.Listed (keys : List ManagedKey) : BindingsCommand → Prop
  | .save payload => ∀ p ∈ payload, p.1 ∈ keys.map ManagedKey.cipherId
  | _ => True

theorem resolveCipherId_mem {query id : Text} (h : resolveCipherId (some keys) query = .ok id) :
    id ∈ keys.map ManagedKey.cipherId := by
  unfold resolveCipherId at h
  dsimp only at h
  split_ifs at h with hany
  · cases h
    obtain ⟨key, hkey, hid⟩ := List.any_eq_true.1 hany
    exact List.mem_map.2 ⟨key, hkey, by simpa using hid⟩
  · split at h
    · cases h
    · cases h
      have hmem := List.mem_filter.1 (List.mem_of_mem_head? (by simp [*] :
        (keys.filter fun k => Text.eqIgnoreAsciiCase k.name query).head? = some ‹ManagedKey›))
      exact List.mem_map_of_mem hmem.1
    · cases h

/-- A command changes the map that the old snippet leaves of the old bindings, and the old snippet's
hosts come back into the result. -/
theorem runCommand_ok (hdir : '\n' ∉ env.selectorDir)
    (hread : ∀ key ∈ keys, Readable (keys.map ManagedKey.cipherId) key)
    (hfiles : Consistent env keys files) {c : BindingsCommand} (hc : c.Listed keys)
    {files' : BindingFiles} (h : runCommand env keys files c = .ok files') :
    files'.bindings.hosts =
        fromSnippet files ((fromSnippet files files.bindings.hosts).after keys c) ∧
      files'.bindings.WellFormed keys ∧
      files'.managed = some (sshConfigSnippetWithBindingsIn env keys files'.bindings) := by
  cases c with
  | bind key hosts =>
    simp only [runCommand, cmdBindingsAdd] at h
    obtain ⟨id, hid, h⟩ := except_bind_ok h
    obtain ⟨⟨changed, ⟨⟩⟩, hlocked, h⟩ := except_bind_ok h
    obtain ⟨seeded, hhosts, hwf, hmutate, hm⟩ := withHostBindingsLocked_ok hdir hread hfiles hlocked
    obtain ⟨file', hadd, hmutate⟩ := except_bind_ok hmutate
    cases hmutate
    obtain ⟨hadded, haddwf⟩ := HostBindingsFile.addHosts_ok hadd
    simp only [HostMap.after, hid]
    rw [← hhosts, ← hadded]
    exact syncManagedSshConfigInner_ok hdir hread hfiles (haddwf keys hwf (resolveCipherId_mem hid)) hm h
  | unbind key host all =>
    have hremove : ∀ host', cmdBindingsRemove env (some keys) key host' all files = .ok files' →
        (all = false → host' = host) →
        files'.bindings.hosts =
            fromSnippet files ((fromSnippet files files.bindings.hosts).after keys (.unbind key host all)) ∧
          files'.bindings.WellFormed keys ∧
          files'.managed = some (sshConfigSnippetWithBindingsIn env keys files'.bindings) := by
      intro host' h hhost
      unfold cmdBindingsRemove at h
      obtain ⟨id, hid, h⟩ := except_bind_ok h
      obtain ⟨⟨changed, removed⟩, hlocked, h⟩ := except_bind_ok h
      obtain ⟨seeded, hhosts, hwf, hmutate, hm⟩ := withHostBindingsLocked_ok hdir hread hfiles hlocked
      obtain ⟨hremoved, hremovedwf⟩ := HostBindingsFile.removeHosts_ok hmutate
      dsimp only at h
      split_ifs at h with hr
      have hafter : changed.bindings.hosts =
          (fromSnippet files files.bindings.hosts).after keys (.unbind key host all) := by
        simp only [HostMap.after, hid]
        rw [hremoved, hhosts]
        cases all with
        | true => rfl
        | false => rw [hhost rfl]
      rw [← hafter]
      exact syncManagedSshConfigInner_ok hdir hread hfiles (hremovedwf keys hwf) hm h
    simp only [runCommand, cmdKeysUnbind] at h
    cases all with
    | true =>
      refine hremove none h fun h => ?_
      cases h
    | false => exact hremove host h fun _ => rfl
  | save payload =>
    simp only [runCommand, persistBindPayload] at h
    obtain ⟨⟨changed, ⟨⟩⟩, hlocked, h⟩ := except_bind_ok h
    obtain ⟨seeded, hhosts, hwf, hmutate, hm⟩ := withHostBindingsLocked_ok hdir hread hfiles hlocked
    obtain ⟨file', hset, hmutate⟩ := except_bind_ok hmutate
    cases hmutate
    obtain ⟨hsaved, hsavedwf⟩ := HostBindingsFile.setAllHosts_ok hset
    simp only [HostMap.after]
    rw [← hhosts, ← hsaved]
    exact syncManagedSshConfigInner_ok hdir hread hfiles (hsavedwf keys hwf hc) hm h

/-- What a command leaves: the hosts of the old snippet where it has any, the command's elsewhere. -/
theorem runCommand_hosts (hdir : '\n' ∉ env.selectorDir)
    (hread : ∀ key ∈ keys, Readable (keys.map ManagedKey.cipherId) key)
    (hfiles : Consistent env keys files) {c : BindingsCommand} (hc : c.Listed keys)
    {files' : BindingFiles} (h : runCommand env keys files c = .ok files') :
    files'.bindings.hosts = fromSnippet files (HostMap.after keys files.bindings.hosts c) := by
  rw [(runCommand_ok hdir hread hfiles hc h).1]
  funext id
  unfold fromSnippet
  split_ifs with hid
  · have hm : fromSnippet files files.bindings.hosts id = files.bindings.hosts id := if_pos hid
    exact HostMap.after_congr hm c
  · rfl

/-- The `Host` lines of a map: one for each listed key that has hosts. -/
def boundHostLines (keys : List ManagedKey) (m : HostMap) : List Text :=
  (keys.filter fun key => m key.cipherId ≠ []).map fun key => hostLine (m key.cipherId)

theorem filter_isHostDirective_boundBlock (hdir : '\n' ∉ env.selectorDir) {key : ManagedKey}
    (hread : Readable knownIds key) (hn : NormalHosts (bindings.hosts key.cipherId)) :
    ((boundBlock env bindings key).flatMap split).filter isHostDirective =
      [hostLine (bindings.hosts key.cipherId)] := by
  have hnone : ∀ {ls : List Text}, (∀ line ∈ ls, isHostDirective line = false) →
      ls.filter isHostDirective = [] :=
    fun h => List.filter_eq_nil_iff.2 fun line hline => by simp [h line hline]
  rw [split_boundBlock hn, List.filter_append, hnone hread.noHost,
    List.filter_cons_of_pos (isHostDirective_hostLine hn), hnone (not_isHostDirective_tail hdir key)]
  rfl

theorem hostLines_snippet (hdir : '\n' ∉ env.selectorDir)
    (hread : ∀ key ∈ keys, Readable (keys.map ManagedKey.cipherId) key)
    (hn : ∀ id, NormalHosts (bindings.hosts id)) :
    hostLines (sshConfigSnippetWithBindingsIn env keys bindings) = boundHostLines keys bindings.hosts := by
  have hbound : ∀ {ks : List ManagedKey}, ks ⊆ keys →
      ((ks.flatMap (boundBlock env bindings)).flatMap split).filter isHostDirective =
        ks.map fun key => hostLine (bindings.hosts key.cipherId) := by
    intro ks hks
    induction ks with
    | nil => rfl
    | cons key ks ih =>
      rw [List.flatMap_cons, List.flatMap_append, List.filter_append, List.map_cons,
        filter_isHostDirective_boundBlock hdir (hread key (hks (List.mem_cons_self ..))) (hn _),
        ih fun k hk => hks (List.mem_cons_of_mem _ hk)]
      rfl
  have hheader : (snippetHeader.flatMap split).filter isHostDirective = [] := by decide
  have hsection : ((unboundSection env (unboundKeys keys bindings)).flatMap split).filter
      isHostDirective = [] := by
    refine List.filter_eq_nil_iff.2 fun line hline => ?_
    simp [not_isHostDirective_unboundSection hdir
      (fun key hkey => hread key (List.mem_filter.1 hkey).1) line hline]
  have hsub : boundKeys keys bindings ⊆ keys := fun key hkey => (List.mem_filter.1 hkey).1
  unfold hostLines
  rw [split_snippet, List.filter_append, List.filter_append, hheader, hsection, hbound hsub,
    List.nil_append, List.append_nil]
  rfl

/-! ### Runs -/

/-- The files after each command of a run. -/
def runCommands (env : SnippetEnv) (keys : List ManagedKey) :
    BindingFiles → List BindingsCommand → Except BindingError (List BindingFiles)
  | _, [] => pure []
  | files, c :: commands => do
    let files' ← runCommand env keys files c
    let rest ← runCommands env keys files' commands
    pure (files' :: rest)

/-- Both files show the map `m`. -/
structure Shows (keys : List ManagedKey) (m : HostMap) (files : BindingFiles) : Prop where
  hosts : files.bindings.hosts = m
  hostLines : ∃ text, files.managed = some text ∧ hostLines text = boundHostLines keys m

/-- After each command the files show the map that the commands so far make of `m`. -/
def Refines (keys : List ManagedKey) : HostMap → List BindingsCommand → List BindingFiles → Prop
  | m, c :: commands, files :: rest =>
    Shows keys (m.after keys c) files ∧ Refines keys (m.after keys c) commands rest
  | _, [], [] => True
  | _, _, _ => False

/-- The command changes no hosts of a key that has some apart from the placeholder. -/
def KeepsHostLines (keys : List ManagedKey) (m : HostMap) (c : BindingsCommand) : Prop :=
  ∀ id, editedHosts (m id) = [] ∨ editedHosts (m id) = m.after keys c id

/-- No command of the run changes hosts that a written snippet holds. -/
def AllKeepHostLines (keys : List ManagedKey) : Bool → HostMap → List BindingsCommand → Prop
  | _, _, [] => True
  | written, m, c :: commands =>
    (written = true → KeepsHostLines keys m c) ∧ AllKeepHostLines keys true (m.after keys c) commands

theorem fromSnippet_eq_after_iff (c : BindingsCommand) :
    fromSnippet files (HostMap.after keys files.bindings.hosts c) =
        HostMap.after keys files.bindings.hosts c ↔
      (files.managed.isSome = true → KeepsHostLines keys files.bindings.hosts c) := by
  rw [funext_iff]
  unfold fromSnippet KeepsHostLines
  cases files.managed with
  | none => simp
  | some text =>
    simp only [reduceCtorEq, false_or, Option.isSome_some, forall_const]
    refine forall_congr' fun id => ?_
    by_cases hnil : editedHosts (files.bindings.hosts id) = [] <;> simp [hnil]

theorem runCommand_shows_iff (hdir : '\n' ∉ env.selectorDir)
    (hread : ∀ key ∈ keys, Readable (keys.map ManagedKey.cipherId) key)
    (hfiles : Consistent env keys files) {c : BindingsCommand} (hc : c.Listed keys)
    {files' : BindingFiles} (h : runCommand env keys files c = .ok files') :
    Shows keys (HostMap.after keys files.bindings.hosts c) files' ↔
      (files.managed.isSome = true → KeepsHostLines keys files.bindings.hosts c) := by
  obtain ⟨-, hwf, hmanaged⟩ := runCommand_ok hdir hread hfiles hc h
  rw [← fromSnippet_eq_after_iff, ← runCommand_hosts hdir hread hfiles hc h]
  refine ⟨fun hshows => hshows.hosts, fun hhosts => ⟨hhosts, _, hmanaged, ?_⟩⟩
  rw [hostLines_snippet hdir hread hwf.normal, hhosts]

/-- A run of successful commands refines the map exactly when no command changes the hosts of a key
whose hosts the snippet already holds. -/
theorem bindingCommands_refine_iff (env : SnippetEnv) (keys : List ManagedKey)
    (hdir : '\n' ∉ env.selectorDir)
    (hread : ∀ key ∈ keys, Readable (keys.map ManagedKey.cipherId) key)
    {files : BindingFiles} (hfiles : Consistent env keys files)
    {commands : List BindingsCommand} (hc : ∀ c ∈ commands, c.Listed keys)
    {states : List BindingFiles} (hrun : runCommands env keys files commands = .ok states) :
    Refines keys files.bindings.hosts commands states ↔
      AllKeepHostLines keys files.managed.isSome files.bindings.hosts commands := by
  induction commands generalizing files states with
  | nil =>
    cases hrun
    simp [Refines, AllKeepHostLines]
  | cons c commands ih =>
    unfold runCommands at hrun
    obtain ⟨files', hstep, hrun⟩ := except_bind_ok hrun
    obtain ⟨rest, hrest, hrun⟩ := except_bind_ok hrun
    cases hrun
    obtain ⟨hcl, hcs⟩ := List.forall_mem_cons.1 hc
    obtain ⟨-, hwf, hmanaged⟩ := runCommand_ok hdir hread hfiles hcl hstep
    have hfiles' : Consistent env keys files' := by
      refine ⟨hwf, fun text htext => ?_⟩
      rw [hmanaged] at htext
      exact (Option.some.inj htext).symm
    have ih := ih hfiles' hcs hrest
    rw [hmanaged, Option.isSome_some] at ih
    have hshows := runCommand_shows_iff hdir hread hfiles hcl hstep
    unfold Refines AllKeepHostLines
    constructor
    · rintro ⟨hs, hr⟩
      rw [hs.hosts] at ih
      exact ⟨hshows.1 hs, ih.1 hr⟩
    · rintro ⟨hk, hall⟩
      have hs := hshows.2 hk
      rw [hs.hosts] at ih
      exact ⟨hs, ih.2 hall⟩

def runStates (env : SnippetEnv) (keys : List ManagedKey) (files : BindingFiles)
    (commands : List BindingsCommand) : List BindingFiles :=
  (runCommands env keys files commands).toOption.getD []

def workKey : ManagedKey := ⟨"Work".toList, "c1".toList⟩

theorem workKey_readable : ∀ key ∈ [workKey], Readable ([workKey].map ManagedKey.cipherId) key := by
  intro key hkey
  rw [List.mem_singleton] at hkey
  subst hkey
  exact ⟨by decide, by decide⟩

theorem consistent_empty (env : SnippetEnv) (keys : List ManagedKey) : Consistent env keys ⟨{}, none⟩ :=
  ⟨HostBindingsFile.wellFormed_empty keys, fun _ h => nomatch h⟩

theorem bindingCommands_refine_sameHost :
    Refines [workKey] (HostBindingsFile.hosts {})
      [.bind "work".toList ["a.example".toList], .bind "work".toList ["A.example".toList]]
      (runStates unixEnv [workKey] ⟨{}, none⟩
        [.bind "work".toList ["a.example".toList], .bind "work".toList ["A.example".toList]]) := by
  refine (bindingCommands_refine_iff unixEnv [workKey] (by decide) workKey_readable
    (consistent_empty _ _) (by simp [BindingsCommand.Listed]) (by decide +kernel)).2 ?_
  refine ⟨fun h => absurd h Bool.false_ne_true, fun _ id => ?_, trivial⟩
  by_cases hid : id = "c1".toList
  · subst hid
    exact Or.inr (by decide +kernel)
  · left
    have hm : HostMap.after [workKey] (HostBindingsFile.hosts {})
        (.bind "work".toList ["a.example".toList]) id = [] :=
      Function.update_of_ne hid _ _
    rw [hm, editedHosts_nil]

/-- The second `keys bind` of a key is taken back when its snippet is written. -/
theorem second_bind_reverted :
    ¬ ∀ (env : SnippetEnv) (keys : List ManagedKey) (files : BindingFiles)
      (commands : List BindingsCommand) (states : List BindingFiles),
      Consistent env keys files → (∀ c ∈ commands, c.Listed keys) →
      runCommands env keys files commands = .ok states →
      Refines keys files.bindings.hosts commands states := by
  intro h
  have h := h unixEnv [workKey] ⟨{}, none⟩
    [.bind "work".toList ["a.example".toList], .bind "work".toList ["b.example".toList]]
    (runStates unixEnv [workKey] ⟨{}, none⟩
      [.bind "work".toList ["a.example".toList], .bind "work".toList ["b.example".toList]])
    (consistent_empty _ _) (by simp [BindingsCommand.Listed]) (by decide +kernel)
  have hhosts := congrFun h.2.1.hosts "c1".toList
  revert hhosts
  decide +kernel

end SshWarden
