import SshWarden.BindingRuns
import SshWarden.Lib.AsciiText

/-!
# Importing a generated snippet

For keys with proper ids, whatever their names look like, the lines that the snippet holds for a key
name this key and no other, and only its `Host` line is one. So importing the snippet gives back the
hosts it was generated from.
-/

namespace SshWarden

open Text (split words)

/-- An id of letters, digits, hyphens and the like: no white space and no parenthesis. -/
structure ProperId (id : Text) : Prop where
  ne_nil : id ≠ []
  no_whitespace : ∀ c ∈ id, Text.isWhitespace c = false
  no_open : '(' ∉ id
  no_close : ')' ∉ id

/-- Letters, digits and hyphens make a proper id. -/
theorem ProperId.of_alphanumeric {id : Text} (h : id ≠ [])
    (hc : ∀ c ∈ id, Text.isAsciiAlphanumeric c = true ∨ c = '-') : ProperId id := by
  have hchar : ∀ c ∈ id, Text.isWhitespace c = false ∧ c ≠ '(' ∧ c ≠ ')' := by
    intro c hmem
    rcases hc c hmem with h | rfl
    · refine ⟨?_, ?_, ?_⟩
      · have hbounds := Text.toNat_of_isAsciiAlphanumeric h
        exact Text.not_isWhitespace_of_ascii (by omega) (by omega)
      · rintro rfl; exact absurd h (by decide)
      · rintro rfl; exact absurd h (by decide)
    · decide
  exact ⟨h, fun c hmem => (hchar c hmem).1, fun hmem => (hchar _ hmem).2.1 rfl, fun hmem => (hchar _ hmem).2.2 rfl⟩

/-- The files that the methods of `HostBindingsFile` make. -/
inductive HostBindingsFile.Made : HostBindingsFile → Prop
  | empty : Made {}
  | setHosts {file file' : HostBindingsFile} {id : Text} {hosts : List Text} (h : Made file)
      (hs : file.setHosts id hosts = .ok file') : Made file'
  | addHost {file file' : HostBindingsFile} {id host : Text} (h : Made file)
      (hs : file.addHost id host = .ok file') : Made file'
  | removeHost {file : HostBindingsFile} (h : Made file) (id host : Text) : Made (file.removeHost id host).1
  | clearKey {file : HostBindingsFile} (h : Made file) (id : Text) : Made (file.clearKey id).1
  | pruneOrphans {file : HostBindingsFile} (h : Made file) (knownIds : List Text) :
      Made (file.pruneOrphans knownIds).1

namespace HostBindingsFile

variable {file file' : HostBindingsFile}

theorem WellFormed.mono {keys keys' : List ManagedKey} (h : WellFormed keys file) (hsub : keys ⊆ keys') :
    WellFormed keys' file where
  ne_nil := h.ne_nil
  normal := h.normal
  listed p hp := List.map_subset _ hsub (h.listed p hp)

theorem WellFormed.pruneOrphans {keys : List ManagedKey} (h : WellFormed keys file) (knownIds : List Text) :
    WellFormed keys (file.pruneOrphans knownIds).1 := by
  have hget : ∀ id, (file.pruneOrphans knownIds).1.bindings.get? id =
      if id ∈ knownIds then file.bindings.get? id else none := fun id => by
    have hfilter := Assoc.get?_filter (fun id => decide (id ∈ knownIds)) file.bindings id
    simp only [decide_eq_true_eq] at hfilter
    exact hfilter
  refine ⟨fun id => ?_, fun id => ?_, fun p hp => h.listed p (List.mem_filter.1 hp).1⟩
  · rw [hget]
    split_ifs
    · exact h.ne_nil id
    · intro hnil
      cases hnil
  · unfold HostBindingsFile.hosts
    rw [hget]
    split_ifs
    · exact h.normal id
    · exact NormalHosts.nil

/-- A file that the methods make is well formed for some keys. -/
theorem Made.wellFormed (h : Made file) : ∃ keys, WellFormed keys file := by
  have hmore : ∀ {keys : List ManagedKey} {file : HostBindingsFile} (id : Text), WellFormed keys file →
      WellFormed (⟨[], id⟩ :: keys) file ∧ id ∈ (⟨[], id⟩ :: keys).map ManagedKey.cipherId := fun id hw =>
    ⟨hw.mono (List.subset_cons_self ..), List.mem_map.2 ⟨_, List.mem_cons_self .., rfl⟩⟩
  induction h with
  | empty => exact ⟨[], wellFormed_empty []⟩
  | @setHosts _ _ id _ _ hs ih =>
    obtain ⟨keys, hw⟩ := ih
    obtain ⟨hw', hid⟩ := hmore id hw
    exact ⟨_, (setHosts_ok hs).2 _ hw' hid⟩
  | @addHost _ _ id _ _ hs ih =>
    obtain ⟨keys, hw⟩ := ih
    obtain ⟨hw', hid⟩ := hmore id hw
    exact ⟨_, (addHost_ok hs).2 _ hw' hid⟩
  | removeHost _ id host ih => obtain ⟨keys, hw⟩ := ih; exact ⟨keys, (removeHost_spec _ id host).2 keys hw⟩
  | clearKey _ id ih => obtain ⟨keys, hw⟩ := ih; exact ⟨keys, hw.erase id⟩
  | pruneOrphans _ knownIds ih => obtain ⟨keys, hw⟩ := ih; exact ⟨keys, hw.pruneOrphans knownIds⟩

theorem WellFormed.get?_eq {keys : List ManagedKey} (h : WellFormed keys file) (id : Text) :
    file.bindings.get? id = if file.hosts id = [] then none else some (file.hosts id) := by
  have hnil := h.ne_nil id
  unfold HostBindingsFile.hosts
  cases hget : file.bindings.get? id with
  | none => rfl
  | some hosts =>
    rw [hget] at hnil
    have hne : hosts ≠ [] := fun h => hnil (congrArg some h)
    exact (if_neg hne).symm

end HostBindingsFile

section
variable {knownIds : List Text} {key : ManagedKey}

theorem ProperId.eq_concat {id : Text} (h : ProperId id) :
    ∃ cs c, id = cs ++ [c] ∧ Text.isWhitespace c = false := by
  obtain ⟨cs, c, rfl⟩ := (List.eq_nil_or_concat' id).resolve_left h.ne_nil
  exact ⟨cs, c, rfl, h.no_whitespace c (List.mem_append_right _ (List.mem_singleton_self _))⟩

theorem namedKey_markerLine (hid : ProperId key.cipherId) (hknown : key.cipherId ∈ knownIds) :
    namedKey knownIds (Text.trim (markerLine key)) = some key.cipherId := by
  obtain ⟨cs, c, hcut, hc⟩ := hid.eq_concat
  have htrim : Text.trim (markerLine key) = sshwardenKeyMarkerPrefix ++ key.cipherId := by
    have hline : markerLine key = '#' :: (" sshwarden:key ".toList ++ cs ++ [c]) := by
      rw [markerLine, sshwardenKeyMarkerPrefix_eq, hcut, ← List.append_assoc]; rfl
    rw [hline, ← List.cons_append, Text.trim_concat hc, Text.trimStart_cons (by decide), List.cons_append, ← hline]
    rfl
  have hmarker : sshwardenKeyMarkerCipherId (sshwardenKeyMarkerPrefix ++ key.cipherId) = some key.cipherId := by
    unfold sshwardenKeyMarkerCipherId
    rw [Text.stripPrefix?_append, Option.map_some, Text.trim_of_no_whitespace hid.no_whitespace]
    exact Option.filter_some_pos (by simpa using hid.ne_nil)
  unfold namedKey
  rw [htrim, hmarker, Option.some_or]
  exact Option.filter_some_pos (by simpa using hknown)

/-- A marker prefix in a comment line leaves a text that ends with the closing parenthesis. -/
theorem mem_of_commentLine_eq {rest : Text} (h : commentLine key = sshwardenKeyMarkerPrefix ++ rest) :
    ')' ∈ Text.trim rest := by
  have hline : commentLine key = ("# ".toList ++ key.name ++ " (".toList ++ key.cipherId) ++ [')'] := rfl
  rw [hline] at h
  rcases List.eq_nil_or_concat' rest with rfl | ⟨cs, c, rfl⟩
  · exact absurd (congrArg List.getLast? h) (by rw [List.getLast?_concat]; decide)
  · rw [← List.append_assoc] at h
    obtain rfl := List.singleton_inj.1 (List.append_inj_right' h rfl)
    rw [Text.trim_concat (by decide)]
    exact List.mem_append_right _ (List.mem_singleton_self _)

theorem namedKey_commentLine (hids : ∀ id ∈ knownIds, ProperId id) (hknown : key.cipherId ∈ knownIds) :
    namedKey knownIds (Text.trim (commentLine key)) = none ∨
      namedKey knownIds (Text.trim (commentLine key)) = some key.cipherId := by
  have hid := hids _ hknown
  have hline : commentLine key = ('#' :: (' ' :: key.name ++ " (".toList ++ key.cipherId)) ++ [')'] := rfl
  have htrim : Text.trim (commentLine key) = commentLine key := by
    rw [hline, Text.trim_concat (by decide), Text.trimStart_cons (by decide)]
  rw [htrim]
  unfold namedKey
  cases hmarker : sshwardenKeyMarkerCipherId (commentLine key) with
  | some id =>
    left
    obtain ⟨hsome, -⟩ := Option.filter_eq_some_iff.1 hmarker
    obtain ⟨rest, hrest, rfl⟩ := Option.map_eq_some_iff.1 hsome
    have hclose := mem_of_commentLine_eq (Text.eq_append_of_stripPrefix? hrest)
    rw [Option.some_or]
    refine Option.filter_some_neg ?_
    simpa using fun hmem => (hids _ hmem).no_close hclose
  | none =>
    right
    have hclose : '(' ∉ key.cipherId ++ [')'] := fun h => (List.mem_append.1 h).elim hid.no_open (by decide)
    have hcomment : legacyKeyCommentCipherId (commentLine key) = some key.cipherId := by
      have hcut : commentLine key = "# ".toList ++ (key.name ++ ' ' :: '(' :: (key.cipherId ++ [')'])) := by
        unfold commentLine
        simp only [List.append_assoc]
        rfl
      unfold legacyKeyCommentCipherId
      rw [hcut, Text.stripPrefix?_append]
      have hsplit := Text.rsplitOnce_append (a := ' ') (b := '(') (by decide) key.name hclose
      exact (congrArg (fun o => Option.bind o _) hsplit).trans (Text.stripSuffix?_append _ _)
    rw [Option.none_or, hcomment]
    exact Option.filter_some_pos (by simpa using hknown)

theorem newline_not_mem_id (hid : ProperId key.cipherId) : '\n' ∉ key.cipherId := fun h => by
  have hw := hid.no_whitespace _ h
  rw [Text.newline_isWhitespace] at hw
  cases hw

theorem readable (hids : ∀ id ∈ knownIds, ProperId id) (hknown : key.cipherId ∈ knownIds)
    (hname : '\n' ∉ key.name) : Readable knownIds key := by
  have hnl := newline_not_mem_id (hids _ hknown)
  have hmarker : split (markerLine key) = [markerLine key] := Text.split_of_not_mem fun h =>
    (List.mem_append.1 h).elim (by decide) hnl
  have hcomment : split (commentLine key) = [commentLine key] := Text.split_of_not_mem fun h => by
    simp only [commentLine, List.mem_append] at h
    rcases h with (((h | h) | h) | h) | h
    exacts [absurd h (by decide), hname h, absurd h (by decide), hnl h, absurd h (by decide)]
  refine ⟨?_, ?_⟩
  · rw [hmarker, hcomment]
    intro line hline
    rcases List.mem_cons.1 hline with rfl | hline
    · exact isHostDirective_of_word (by decide) (by decide)
    · obtain rfl := List.mem_singleton.1 hline
      exact isHostDirective_of_word (by decide) (by decide)
  · rw [hmarker, hcomment]
    have hfirst := namedKey_markerLine (hids _ hknown) hknown
    unfold lastNamed
    rcases namedKey_commentLine hids hknown with h | h <;> simp [hfirst, h]

end

/-! ### Importing into the bindings it was generated from -/

section
variable {env : SnippetEnv} {keys : List ManagedKey} {bindings : HostBindingsFile}

theorem importHosts_of_same {st : ManagedImport} {id : Text} {hosts : List Text}
    (h : hosts ≠ [] → st.bindings.bindings.get? id = some hosts) : importHosts st id hosts = .ok st := by
  unfold importHosts
  split_ifs with hnil hvalid hsame
  · rfl
  · rfl
  · rfl
  · exact absurd (h hnil) hsame

/-- The block of a key whose hosts the bindings have already only moves the pending key. -/
theorem foldlM_boundBlock_same (hdir : '\n' ∉ env.selectorDir) {key : ManagedKey}
    (hread : Readable (keys.map ManagedKey.cipherId) key) (hn : NormalHosts (bindings.hosts key.cipherId))
    {st : ManagedImport} (hst : st.bindings = bindings) (hhosts : editedHosts (bindings.hosts key.cipherId) ≠ [] →
      bindings.bindings.get? key.cipherId = some (editedHosts (bindings.hosts key.cipherId))) :
    ∃ pending, ((boundBlock env bindings key).flatMap split).foldlM
      (importLine (keys.map ManagedKey.cipherId)) st = .ok { st with pendingCipherId := pending } := by
  rw [split_boundBlock hn, List.foldlM_append, foldlM_importLine_of_not_host hread.noHost, hread.named]
  change ∃ pending, List.foldlM _ { st with pendingCipherId := some key.cipherId } _ = _
  rw [List.foldlM_cons, importLine_hostLine hn, importHosts_of_same (by rw [hst]; exact hhosts)]
  exact ⟨_, foldlM_importLine_of_not_host (not_isHostDirective_tail hdir key) _⟩

theorem foldlM_boundBlocks_same (hdir : '\n' ∉ env.selectorDir)
    (hread : ∀ key ∈ keys, Readable (keys.map ManagedKey.cipherId) key)
    (hn : ∀ id, NormalHosts (bindings.hosts id))
    (hhosts : ∀ id, editedHosts (bindings.hosts id) ≠ [] →
      bindings.bindings.get? id = some (editedHosts (bindings.hosts id)))
    {bound : List ManagedKey} (hbound : bound ⊆ keys) {st : ManagedImport} (hst : st.bindings = bindings) :
    ∃ pending, ((bound.flatMap (boundBlock env bindings)).flatMap split).foldlM
      (importLine (keys.map ManagedKey.cipherId)) st = .ok { st with pendingCipherId := pending } := by
  induction bound generalizing st with
  | nil => exact ⟨st.pendingCipherId, rfl⟩
  | cons key bound ih =>
    obtain ⟨pending, hfold⟩ := foldlM_boundBlock_same hdir (hread key (hbound (List.mem_cons_self ..)))
      (hn key.cipherId) hst (hhosts key.cipherId)
    have hst' : ({ st with pendingCipherId := pending } : ManagedImport).bindings = bindings := hst
    obtain ⟨pending', hfold'⟩ := ih (fun k hk => hbound (List.mem_cons_of_mem _ hk)) hst'
    refine ⟨pending', ?_⟩
    rw [List.flatMap_cons, List.flatMap_append, List.foldlM_append, hfold]
    exact hfold'

theorem import_snippet_same (hdir : '\n' ∉ env.selectorDir)
    (hread : ∀ key ∈ keys, Readable (keys.map ManagedKey.cipherId) key)
    (hn : ∀ id, NormalHosts (bindings.hosts id))
    (hhosts : ∀ id, editedHosts (bindings.hosts id) ≠ [] →
      bindings.bindings.get? id = some (editedHosts (bindings.hosts id))) :
    importHostBindingsFromManagedFile (some (sshConfigSnippetWithBindingsIn env keys bindings)) keys bindings
      = .ok (bindings, false) := by
  have hbound : boundKeys keys bindings ⊆ keys := fun key hkey => (List.mem_filter.1 hkey).1
  have hunbound := not_isHostDirective_unboundSection hdir
    (fun key hkey => hread key (List.mem_filter.1 hkey).1 :
      ∀ key ∈ unboundKeys keys bindings, Readable (keys.map ManagedKey.cipherId) key)
  let st : ManagedImport :=
    { bindings
      pendingCipherId := (lastNamed (keys.map ManagedKey.cipherId) (snippetHeader.flatMap split)).or none }
  obtain ⟨pending, hfold⟩ := foldlM_boundBlocks_same hdir hread hn hhosts hbound (rfl : st.bindings = bindings)
  unfold importHostBindingsFromManagedFile Text.lines
  dsimp only
  rw [foldlM_importLine_endLines, split_snippet, List.foldlM_append,
    foldlM_importLine_of_not_host not_isHostDirective_header, except_ok_bind, List.foldlM_append, hfold,
    except_ok_bind, foldlM_importLine_of_not_host hunbound]
  rfl

/-- Importing the snippet of a file into an empty one gives the hosts of its listed keys, in order and
without the placeholder; importing it into the file itself changes nothing where no host is the
placeholder. -/
theorem import_generated (hdir : '\n' ∉ env.selectorDir)
    (hkeys : ∀ key ∈ keys, ProperId key.cipherId ∧ '\n' ∉ key.name) (hmade : bindings.Made) :
    (∃ file changed, importHostBindingsFromManagedFile (some (sshConfigSnippetWithBindingsIn env keys bindings))
        keys {} = .ok (file, changed) ∧
      ∀ id, file.bindings.get? id =
        if id ∈ keys.map ManagedKey.cipherId ∧ (bindings.hosts id).filter (· ≠ "<host>".toList) ≠ [] then
          some ((bindings.hosts id).filter (· ≠ "<host>".toList))
        else none) ∧
    ((∀ id, "<host>".toList ∉ bindings.hosts id) →
      importHostBindingsFromManagedFile (some (sshConfigSnippetWithBindingsIn env keys bindings)) keys bindings
        = .ok (bindings, false)) := by
  obtain ⟨keys', hw⟩ := hmade.wellFormed
  have hids : ∀ id ∈ keys.map ManagedKey.cipherId, ProperId id := by
    intro id hid
    obtain ⟨key, hkey, rfl⟩ := List.mem_map.1 hid
    exact (hkeys key hkey).1
  have hread : ∀ key ∈ keys, Readable (keys.map ManagedKey.cipherId) key := fun key hkey =>
    readable hids (List.mem_map_of_mem hkey) (hkeys key hkey).2
  refine ⟨?_, fun hplain => import_snippet_same hdir hread hw.normal fun id hne => ?_⟩
  · obtain ⟨file, changed, himport, hhosts, hwf, -⟩ := import_snippet hdir hread hw.normal {}
    refine ⟨file, changed, himport, fun id => ?_⟩
    have hempty : HostBindingsFile.hosts {} id = [] := rfl
    have hlisted : editedHosts (bindings.hosts id) ≠ [] →
        ((∃ key ∈ boundKeys keys bindings, key.cipherId = id) ↔ id ∈ keys.map ManagedKey.cipherId) := by
      refine fun hne => ⟨fun ⟨key, hkey, hid⟩ => List.mem_map.2 ⟨key, (List.mem_filter.1 hkey).1, hid⟩,
        fun h => ?_⟩
      obtain ⟨key, hkey, hid⟩ := List.mem_map.1 h
      have hhost : bindings.hosts id ≠ [] := fun h => hne (by rw [h, editedHosts_nil])
      exact ⟨key, List.mem_filter.2 ⟨hkey, by simpa [isBound, hid] using hhost⟩, hid⟩
    have hfile : file.hosts id =
        if id ∈ keys.map ManagedKey.cipherId then editedHosts (bindings.hosts id) else [] := by
      rw [hhosts, foldl_takeBack]
      by_cases hne : editedHosts (bindings.hosts id) = []
      · simp [hne, hempty]
      · simp [hne, hlisted hne, hempty]
    rw [(hwf (HostBindingsFile.wellFormed_empty keys)).get?_eq id, hfile]
    change _ = if id ∈ keys.map ManagedKey.cipherId ∧ editedHosts (bindings.hosts id) ≠ [] then
      some (editedHosts (bindings.hosts id)) else none
    by_cases hid : id ∈ keys.map ManagedKey.cipherId
    · by_cases hne : editedHosts (bindings.hosts id) = [] <;> simp [hid, hne]
    · simp [hid]
  · have hsame : editedHosts (bindings.hosts id) = bindings.hosts id :=
      List.filter_eq_self.2 fun host hhost => decide_eq_true fun h => hplain id (h ▸ hhost)
    rw [hsame] at hne ⊢
    rw [hw.get?_eq id, if_neg hne]

def trickyEnv : SnippetEnv := ⟨"/home/alice/.ssh".toList, .absolute, none, fun c => [c]⟩

/-- A name that looks like the marker of the other key, and one that looks like its comment. -/
def trickyKeys : List ManagedKey :=
  [⟨"sshwarden:key b2".toList, "a1".toList⟩, ⟨"Host x (a1)".toList, "b2".toList⟩]

def trickyBindings : HostBindingsFile :=
  ⟨[("b2".toList, ["*.internal".toList, "<host>".toList]), ("a1".toList, ["<host>".toList])]⟩

theorem trickyBindings_made : trickyBindings.Made := by
  have hfirst : HostBindingsFile.setHosts {} "a1".toList ["<host>".toList]
      = .ok ⟨[("a1".toList, ["<host>".toList])]⟩ := by decide
  have hsecond : HostBindingsFile.setHosts ⟨[("a1".toList, ["<host>".toList])]⟩ "b2".toList
      ["*.internal".toList, "<host>".toList] = .ok trickyBindings := by decide
  exact .setHosts (.setHosts .empty hfirst) hsecond

theorem import_generated_tricky :
    ∃ file changed, importHostBindingsFromManagedFile
        (some (sshConfigSnippetWithBindingsIn trickyEnv trickyKeys trickyBindings)) trickyKeys {}
          = .ok (file, changed) ∧
      file.bindings.get? "b2".toList = some ["*.internal".toList] ∧ file.bindings.get? "a1".toList = none := by
  have hid : ∀ id : Text, id ≠ [] → id.all Text.isAsciiAlphanumeric = true → ProperId id :=
    fun _ hne hall => .of_alphanumeric hne fun c hc => .inl (List.all_eq_true.1 hall c hc)
  have hids : ProperId "a1".toList ∧ ProperId "b2".toList :=
    ⟨hid _ (by decide) (by decide), hid _ (by decide) (by decide)⟩
  have hkeys : ∀ key ∈ trickyKeys, ProperId key.cipherId ∧ '\n' ∉ key.name := by
    intro key hkey
    rcases List.mem_cons.1 hkey with rfl | hkey
    · exact ⟨hids.1, by decide⟩
    · obtain rfl := List.mem_singleton.1 hkey
      exact ⟨hids.2, by decide⟩
  have hdir : '\n' ∉ trickyEnv.selectorDir := by decide
  obtain ⟨file, changed, himport, hget⟩ := (import_generated hdir hkeys trickyBindings_made).1
  exact ⟨file, changed, himport, (hget _).trans (by decide), (hget _).trans (by decide)⟩

end

end SshWarden
