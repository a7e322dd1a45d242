import SshWarden.Lib.AsciiText
import SshWarden.SshConfig

/-!
# What the snippet can make `ssh` execute

The directives of a text are its lines that are neither blank nor comments. The snippet should hold
one block of three directives for each bound key. It does exactly when no line break of a name, an
id or a host opens a directive of its own (`snippet_directives_iff`).
-/

namespace SshWarden

open Text (split)

def isDirective (line : Text) : Bool :=
  line.any (fun c => !Text.isWhitespace c) && line.head? ≠ some '#'

def directives (text : Text) : List Text := (split text).filter isDirective

/-- The three directives of a bound key. -/
def directiveBlock (env : SnippetEnv) (bindings : HostBindingsFile) (key : ManagedKey) : List Text :=
  [hostLine (bindings.hosts key.cipherId), identityFileLine env key, identitiesOnlyLine]

/-- The lines that line breaks in a key's name and id open behind its marker and its comment. -/
def brokenLines (key : ManagedKey) : List Text :=
  (split (markerLine key)).tail ++ (split (commentLine key)).tail

def isSlugChar (c : Char) : Bool := Text.isAsciiAlphanumeric c || c = '_' || c = '-'

theorem foldl_slugStep (cs : Text) : (cs.foldl slugStep ([], false)).1 = Text.collapse isSlugChar false cs :=
  Text.foldl_collapseStep [] false cs

theorem isSlugChar_of_mem_slugify {toLowercase : Char → List Char} {name : Text} {c : Char}
    (h : c ∈ slugifyKeyName toLowercase name) : isSlugChar c = true := by
  unfold slugifyKeyName at h
  rw [foldl_slugStep] at h
  dsimp only at h
  split_ifs at h
  · have hall : "ssh-key".toList.all isSlugChar = true := by decide
    exact List.all_eq_true.1 hall c h
  · rcases Text.mem_collapse (Text.mem_of_mem_trimMatches h) with rfl | ⟨hc, -⟩
    · decide
    · exact hc

theorem newline_not_mem_slugifyKeyName (toLowercase : Char → List Char) (name : Text) :
    '\n' ∉ slugifyKeyName toLowercase name :=
  fun h => absurd (isSlugChar_of_mem_slugify h) (by decide)

theorem newline_not_mem_vaultItemIdPrefix (id : Text) : '\n' ∉ vaultItemIdPrefix id := by
  intro h
  have h := (List.mem_filter.1 (List.mem_of_mem_take h)).2
  revert h
  decide

theorem newline_not_mem_selectorFileName (toLowercase : Char → List Char) (name id : Text) :
    '\n' ∉ selectorFileName toLowercase name id := by
  have hs := newline_not_mem_slugifyKeyName toLowercase name
  have hp := newline_not_mem_vaultItemIdPrefix id
  unfold selectorFileName
  split_ifs
  · simp [hs]
  · simp [hs, hp]

variable {env : SnippetEnv} {keys : List ManagedKey} {bindings : HostBindingsFile}

theorem newline_not_mem_selectorPath (hdir : '\n' ∉ env.selectorDir) (key : ManagedKey) :
    '\n' ∉ selectorPath env key := by
  intro h
  rcases Text.Path.mem_join h with h | h | h
  · exact hdir h
  · exact absurd h (by decide)
  · exact newline_not_mem_selectorFileName _ _ _ h

theorem newline_not_mem_displayPath {path : Text} (h : '\n' ∉ path) : '\n' ∉ displayPath env path := by
  have hrel : ∀ r, homeRelativePath env.home path = some r → '\n' ∉ r := by
    intro r hr hmem
    obtain ⟨p, hp, rfl⟩ := Option.map_eq_some_iff.1 hr
    obtain ⟨home, -, hp⟩ := Option.bind_eq_some_iff.1 hp
    have hnp : '\n' ∉ p := fun hmem => by
      rcases Text.Path.mem_stripPrefix hp hmem with h' | h'
      · exact absurd h' (by decide)
      · exact h h'
    unfold tildeJoin at hmem
    split_ifs at hmem
    · exact absurd hmem (by decide)
    · rcases Text.Path.mem_join hmem with h' | h' | h'
      · exact absurd h' (by decide)
      · exact absurd h' (by decide)
      · exact hnp h'
  unfold displayPath
  cases env.pathStyle with
  | absolute => exact h
  | homeRelative =>
    cases hr : homeRelativePath env.home path with
    | none => exact h
    | some r => exact hrel r hr

theorem newline_not_mem_quoteSshConfigArg {value : Text} (h : '\n' ∉ value) :
    '\n' ∉ quoteSshConfigArg value := by
  have hq : '\n' ∉ value.flatMap quoteChar := by
    intro hmem
    obtain ⟨c, hc, hmem⟩ := List.mem_flatMap.1 hmem
    unfold quoteChar at hmem
    split_ifs at hmem
    · exact absurd hmem (by decide)
    · exact absurd hmem (by decide)
    · rw [List.mem_singleton.1 hmem] at h
      exact h hc
  unfold quoteSshConfigArg
  simp [hq]

theorem newline_not_mem_pathArg (hdir : '\n' ∉ env.selectorDir) (key : ManagedKey) :
    '\n' ∉ pathArgWithStyle env (selectorPath env key) :=
  newline_not_mem_quoteSshConfigArg (newline_not_mem_displayPath (newline_not_mem_selectorPath hdir key))

theorem directives_join {ls : List Text} (h : ls ≠ []) :
    directives (Text.join ['\n'] ls) = ls.flatMap directives := by
  unfold directives
  rw [Text.split_join h, List.filter_flatMap]

theorem isDirective_append {line : Text} (h : isDirective line = true) (rest : Text) :
    isDirective (line ++ rest) = true := by
  cases line with
  | nil => cases h
  | cons c line =>
    unfold isDirective at h ⊢
    simp only [Bool.and_eq_true, List.any_append, List.head?_cons, List.cons_append,
      List.any_cons, Bool.or_eq_true] at h ⊢
    exact ⟨h.1.imp_right Or.inl, h.2⟩

theorem directives_of_not_mem {line : Text} (h : '\n' ∉ line) :
    directives line = if isDirective line then [line] else [] := by
  unfold directives
  rw [Text.split_of_not_mem h]
  split_ifs with hd <;> simp [hd]

/-- Only the further lines of a comment can be directives. -/
theorem directives_comment (cs : Text) :
    directives ('#' :: cs) = (split ('#' :: cs)).tail.filter isDirective := by
  obtain ⟨l, ls, -, h⟩ := Text.split_cons (c := '#') (by decide) cs
  unfold directives
  rw [h, List.filter_cons_of_neg (by simp [isDirective]), List.tail_cons]

/-- A line that starts with a letter opens with a directive. -/
theorem directives_eq_cons {c : Char} (hc : c ≠ '\n') (hw : Text.isWhitespace c = false) (hh : c ≠ '#')
    (cs : Text) :
    ∃ l, (∃ ls, split (c :: cs) = (c :: l) :: ls) ∧
      directives (c :: cs) = (c :: l) :: (split (c :: cs)).tail.filter isDirective := by
  obtain ⟨l, ls, -, h⟩ := Text.split_cons hc cs
  refine ⟨l, ⟨ls, h⟩, ?_⟩
  unfold directives
  rw [h, List.filter_cons_of_pos (by simp [isDirective, hw, hh]), List.tail_cons]

theorem directives_marker (key : ManagedKey) :
    directives (markerLine key) = (split (markerLine key)).tail.filter isDirective :=
  directives_comment _

theorem directives_commentLine (key : ManagedKey) :
    directives (commentLine key) = (split (commentLine key)).tail.filter isDirective :=
  directives_comment _

theorem directives_identityFileLine (hdir : '\n' ∉ env.selectorDir) (key : ManagedKey) :
    directives (identityFileLine env key) = [identityFileLine env key] := by
  have hn : '\n' ∉ identityFileLine env key := by
    intro h
    rcases List.mem_append.1 h with h | h
    · exact absurd h (by decide)
    · exact newline_not_mem_pathArg hdir key h
  have hd : isDirective "    IdentityFile ".toList = true := by decide
  rw [directives_of_not_mem hn, if_pos]
  exact isDirective_append hd _

theorem directives_template (hdir : '\n' ∉ env.selectorDir) (key : ManagedKey) :
    directives ("#     IdentityFile ".toList ++ pathArgWithStyle env (selectorPath env key)) = [] := by
  have hn : '\n' ∉ "#     IdentityFile ".toList ++ pathArgWithStyle env (selectorPath env key) := by
    have := newline_not_mem_pathArg hdir key
    simp [this]
  rw [directives_of_not_mem hn, if_neg]
  simp [isDirective]

theorem directives_boundBlock (hdir : '\n' ∉ env.selectorDir) (key : ManagedKey) :
    (boundBlock env bindings key).flatMap directives =
      (brokenLines key).filter isDirective ++ directives (hostLine (bindings.hosts key.cipherId)) ++
        [identityFileLine env key, identitiesOnlyLine] := by
  have hfix : directives identitiesOnlyLine = [identitiesOnlyLine] ∧ directives [] = [] := by decide
  unfold boundBlock brokenLines
  simp only [List.flatMap_cons, List.flatMap_nil, directives_marker, directives_commentLine,
    directives_identityFileLine hdir, hfix.1, hfix.2, List.filter_append]
  simp

theorem directives_unboundBlock (hdir : '\n' ∉ env.selectorDir) (key : ManagedKey) :
    (unboundBlock env key).flatMap directives = (brokenLines key).filter isDirective := by
  have hfix : directives "# Host <host>".toList = [] ∧ directives "#     IdentitiesOnly yes".toList = [] ∧
      directives [] = [] := by decide
  unfold unboundBlock brokenLines
  simp only [List.flatMap_cons, List.flatMap_nil, directives_marker, directives_commentLine,
    directives_template hdir, hfix.1, hfix.2.1, hfix.2.2, List.filter_append]
  simp

theorem directives_unboundSection (hdir : '\n' ∉ env.selectorDir) (ks : List ManagedKey) :
    (unboundSection env ks).flatMap directives =
      ks.flatMap fun key => (brokenLines key).filter isDirective := by
  have hfix : directives "# --- Unbound keys (uncomment + edit to use) ---".toList = [] ∧
      directives [] = [] := by decide
  unfold unboundSection
  split_ifs with h
  · simp [h]
  · rw [List.flatMap_cons, List.flatMap_cons, hfix.1, hfix.2, List.flatMap_assoc]
    simp only [directives_unboundBlock hdir, List.nil_append]

theorem directives_snippet (hdir : '\n' ∉ env.selectorDir) :
    directives (sshConfigSnippetWithBindingsIn env keys bindings) =
      (boundKeys keys bindings).flatMap (fun key => (brokenLines key).filter isDirective ++
        directives (hostLine (bindings.hosts key.cipherId)) ++
          [identityFileLine env key, identitiesOnlyLine]) ++
      (unboundKeys keys bindings).flatMap fun key => (brokenLines key).filter isDirective := by
  have hheader : snippetHeader.flatMap directives = [] := by decide
  unfold sshConfigSnippetWithBindingsIn
  rw [directives_join (by simp [snippetLines, snippetHeader])]
  unfold snippetLines
  rw [List.flatMap_append, List.flatMap_append, hheader, List.flatMap_assoc,
    directives_unboundSection hdir, List.nil_append]
  simp only [directives_boundBlock hdir]

/-! ### Nothing but the blocks -/

theorem length_flatMap_le {α β : Type} {f g : α → List β} {xs : List α}
    (h : ∀ x ∈ xs, (g x).length ≤ (f x).length) : (xs.flatMap g).length ≤ (xs.flatMap f).length := by
  induction xs with
  | nil => exact Nat.le_refl 0
  | cons x xs ih =>
    rw [List.flatMap_cons, List.flatMap_cons, List.length_append, List.length_append]
    exact Nat.add_le_add (h x (List.mem_cons_self ..)) (ih fun y hy => h y (List.mem_cons_of_mem _ hy))

/-- Where each part is at least as long as its counterpart, equal concatenations are equal part by
part and leave no rest. -/
theorem flatMap_append_eq_iff {α β : Type} {f g : α → List β} {rest : List β} {xs : List α}
    (h : ∀ x ∈ xs, (g x).length ≤ (f x).length) :
    xs.flatMap f ++ rest = xs.flatMap g ↔ (∀ x ∈ xs, f x = g x) ∧ rest = [] := by
  induction xs with
  | nil => simp
  | cons x xs ih =>
    have ih := ih fun y hy => h y (List.mem_cons_of_mem _ hy)
    have hx := h x (List.mem_cons_self ..)
    have hlen := length_flatMap_le fun y hy => h y (List.mem_cons_of_mem _ hy)
    rw [List.flatMap_cons, List.flatMap_cons, List.append_assoc]
    constructor
    · intro heq
      have htotal := congrArg List.length heq
      simp only [List.length_append] at htotal
      obtain ⟨hfg, hrest⟩ := List.append_inj heq (by omega)
      obtain ⟨hall, hnil⟩ := ih.1 hrest
      exact ⟨List.forall_mem_cons.2 ⟨hfg, hall⟩, hnil⟩
    · rintro ⟨hall, hnil⟩
      obtain ⟨hfg, hall⟩ := List.forall_mem_cons.1 hall
      rw [hfg, ih.2 ⟨hall, hnil⟩]

theorem newline_mem_hostLine {hosts : List Text} :
    '\n' ∈ hostLine hosts ↔ ∃ host ∈ hosts, '\n' ∈ host := by
  unfold hostLine
  constructor
  · intro h
    rcases List.mem_append.1 h with h | h
    · exact absurd h (by decide)
    · rcases Text.mem_join h with h | h
      · exact absurd h (by decide)
      · exact h
  · rintro ⟨host, hmem, hc⟩
    exact List.mem_append_right _ (Text.mem_join_of_mem hmem hc)

theorem directives_hostLine_ne_nil (hosts : List Text) : directives (hostLine hosts) ≠ [] := by
  obtain ⟨l, -, hd⟩ := directives_eq_cons (c := 'H') (by decide) (by decide) (by decide)
    ("ost ".toList ++ Text.join [' '] hosts)
  exact fun h => List.cons_ne_nil _ _ (hd.symm.trans h)

theorem directives_hostLine_eq_iff (hosts : List Text) :
    directives (hostLine hosts) = [hostLine hosts] ↔ ∀ host ∈ hosts, '\n' ∉ host := by
  constructor
  · intro heq host hmem hc
    have hl : hostLine hosts ∈ directives (hostLine hosts) := heq ▸ List.mem_singleton_self _
    have hnot := Text.newline_not_mem_of_mem_split (List.mem_filter.1 hl).1
    exact hnot (newline_mem_hostLine.2 ⟨host, hmem, hc⟩)
  · intro h
    have hn : '\n' ∉ hostLine hosts := fun hn => by
      obtain ⟨host, hmem, hc⟩ := newline_mem_hostLine.1 hn
      exact h host hmem hc
    have hd : isDirective "Host ".toList = true := by decide
    rw [directives_of_not_mem hn, if_pos]
    exact isDirective_append hd _

/-- One bound key contributes its block and nothing else. -/
theorem directives_bound_eq_iff (key : ManagedKey) :
    (brokenLines key).filter isDirective ++ directives (hostLine (bindings.hosts key.cipherId)) ++
        [identityFileLine env key, identitiesOnlyLine] = directiveBlock env bindings key ↔
      (∀ host ∈ bindings.hosts key.cipherId, '\n' ∉ host) ∧
        ∀ line ∈ brokenLines key, isDirective line = false := by
  have hblock : directiveBlock env bindings key =
      [hostLine (bindings.hosts key.cipherId)] ++ [identityFileLine env key, identitiesOnlyLine] := rfl
  obtain ⟨l, ls, hl⟩ := List.exists_cons_of_ne_nil (directives_hostLine_ne_nil (bindings.hosts key.cipherId))
  rw [hblock, List.append_left_inj, ← directives_hostLine_eq_iff]
  constructor
  · intro h
    have hlen := congrArg List.length h
    rw [hl, List.length_append, List.length_cons, List.length_singleton] at hlen
    have hnil : (brokenLines key).filter isDirective = [] := List.length_eq_zero_iff.1 (by omega)
    rw [hnil, List.nil_append] at h
    exact ⟨h, fun line hline => by simpa using List.filter_eq_nil_iff.1 hnil line hline⟩
  · rintro ⟨hhost, hbroken⟩
    rw [hhost, List.filter_eq_nil_iff.2 fun line hline => by simp [hbroken line hline], List.nil_append]

theorem mem_boundKeys_or {key : ManagedKey} (h : key ∈ keys) :
    key ∈ boundKeys keys bindings ∨ key ∈ unboundKeys keys bindings := by
  unfold boundKeys unboundKeys
  cases hb : isBound bindings key with
  | true => exact Or.inl (List.mem_filter.2 ⟨h, hb⟩)
  | false => exact Or.inr (List.mem_filter.2 ⟨h, by simp [hb]⟩)

/-- The snippet's directives are one block for each bound key exactly when no bound host holds a line
break and no line break of a listed key's name or id opens a directive. -/
theorem snippet_directives_iff (env : SnippetEnv) (keys : List ManagedKey) (bindings : HostBindingsFile)
    (hdir : '\n' ∉ env.selectorDir) :
    directives (sshConfigSnippetWithBindingsIn env keys bindings) =
        (boundKeys keys bindings).flatMap (directiveBlock env bindings) ↔
      (∀ key ∈ boundKeys keys bindings, ∀ host ∈ bindings.hosts key.cipherId, '\n' ∉ host) ∧
        ∀ key ∈ keys, ∀ line ∈ brokenLines key, isDirective line = false := by
  have hlen : ∀ key ∈ boundKeys keys bindings, (directiveBlock env bindings key).length ≤
      ((brokenLines key).filter isDirective ++ directives (hostLine (bindings.hosts key.cipherId)) ++
        [identityFileLine env key, identitiesOnlyLine]).length := by
    intro key _
    have hpos := List.length_pos_iff.2 (directives_hostLine_ne_nil (bindings.hosts key.cipherId))
    simp only [directiveBlock, List.length_append, List.length_cons, List.length_nil]
    omega
  rw [directives_snippet hdir, flatMap_append_eq_iff hlen]
  simp only [directives_bound_eq_iff, List.flatMap_eq_nil_iff, List.filter_eq_nil_iff,
    Bool.not_eq_true]
  constructor
  · rintro ⟨hbound, hunbound⟩
    refine ⟨fun key hkey => (hbound key hkey).1, fun key hkey => ?_⟩
    rcases mem_boundKeys_or hkey with h | h
    · exact (hbound key h).2
    · exact hunbound key h
  · rintro ⟨hhosts, hbroken⟩
    exact ⟨fun key hkey => ⟨hhosts key hkey, hbroken key (List.mem_filter.1 hkey).1⟩,
      fun key hkey => hbroken key (List.mem_filter.1 hkey).1⟩

def unixEnv : SnippetEnv where
  selectorDir := "/home/user/.config/sshwarden/keys".toList
  pathStyle := .absolute
  home := some "/home/user".toList
  toLowercase := fun c => [c.toLower]

def boundFile (cipherId : Text) (hosts : List Text) : HostBindingsFile := ⟨[(cipherId, hosts)]⟩

theorem snippet_directives_plainName :
    directives (sshConfigSnippetWithBindingsIn unixEnv [⟨"Work (old)".toList, "c1".toList⟩]
        (boundFile "c1".toList ["example.com".toList])) =
      directiveBlock unixEnv (boundFile "c1".toList ["example.com".toList]) ⟨"Work (old)".toList, "c1".toList⟩ :=
  ((snippet_directives_iff _ _ _ (by decide)).2 ⟨by decide, by decide⟩).trans (by decide)

/-- A vault item whose name holds a line break puts a directive of its own into the snippet. -/
theorem snippet_injects_directive :
    ¬ ∀ (env : SnippetEnv) (keys : List ManagedKey) (bindings : HostBindingsFile),
      '\n' ∉ env.selectorDir →
      (∀ p ∈ bindings.bindings, ∀ host ∈ p.2, validateHostPattern host = .ok ()) →
      directives (sshConfigSnippetWithBindingsIn env keys bindings) =
        (boundKeys keys bindings).flatMap (directiveBlock env bindings) := by
  intro h
  have h := h unixEnv [⟨"work\nProxyCommand touch /tmp/x\n#".toList, "c1".toList⟩]
    (boundFile "c1".toList ["example.com".toList]) (by decide) (by decide)
  revert h
  decide

end SshWarden
