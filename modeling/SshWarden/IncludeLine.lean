import SshWarden.Data
import SshWarden.Lib.FileSystem
import SshWarden.SshConfig

/-!
# The Include line in the user's SSH config

`write_sshwarden_include_line` reads `~/.ssh/config`, scans its lines once and writes the whole file
back in place. A line is kept, it is the Include that the marker announces, or it is a stale Include of
SSHWarden (`lineRoles`); the scan writes the kept lines, puts the new Include line for each marked one and
leaves the stale ones out. Of the file system only the outcome of each step is given (`InstallHost`).
-/

namespace SshWarden

def sshwardenIncludeMarker : Text := "# SSHWarden managed key selector snippets".toList

def includeLineWithStyle (env : SnippetEnv) (includePath : Text) (style : SshConfigPathStyle) : Text :=
  "Include ".toList ++ pathArgWithStyle { env with pathStyle := style } includePath

def includeLine (includePath : Text) : Text := "Include ".toList ++ quoteSshConfigArg includePath

def legacyUnquotedIncludeLine (includePath : Text) : Text := "Include ".toList ++ includePath

def lineMatchesSshwardenInclude (env : SnippetEnv) (line includePath : Text) : Bool :=
  Text.trim line == includeLine includePath ||
    Text.trim line == includeLineWithStyle env includePath .homeRelative ||
    Text.trim line == legacyUnquotedIncludeLine includePath

def legacyHomeManagedSshConfigPath (env : SnippetEnv) : Option Text :=
  env.home.map fun home => Text.Path.join (Text.Path.join home ".ssh".toList) "sshwarden_config".toList

def lineMatchesCurrentOrLegacySshwardenInclude (env : SnippetEnv) (line includePath : Text) : Bool :=
  lineMatchesSshwardenInclude env line includePath ||
    (legacyHomeManagedSshConfigPath env).any fun legacy => lineMatchesSshwardenInclude env line legacy

def isSshIncludeDirective (line : Text) : Bool :=
  match Text.words line with
  | [] => false
  | directive :: _ => Text.eqIgnoreAsciiCase directive "Include".toList

structure IncludeScan where
  rewritten : List Text := []
  markerWaitingForInclude : Bool := false
  replacedMarkedInclude : Bool := false
  droppedUnmarkedInclude : Bool := false

section
variable (env : SnippetEnv) (includePath wanted : Text)

/-- What the scan does with a line, outside and after a marker, that is neither marker nor waited for. -/
def scanUnmarked (st : IncludeScan) (line : Text) : IncludeScan :=
  if lineMatchesCurrentOrLegacySshwardenInclude env (Text.trim line) includePath then
    { st with droppedUnmarkedInclude := true }
  else { st with rewritten := st.rewritten ++ [line] }

def scanLine (st : IncludeScan) (line : Text) : IncludeScan :=
  if Text.trim line = sshwardenIncludeMarker then
    { st with markerWaitingForInclude := true, rewritten := st.rewritten ++ [line] }
  else if st.markerWaitingForInclude then
    if Text.trim line = [] then { st with rewritten := st.rewritten ++ [line] }
    else if isSshIncludeDirective (Text.trim line) ||
        lineMatchesCurrentOrLegacySshwardenInclude env (Text.trim line) includePath then
      { st with
        rewritten := st.rewritten ++ [wanted], markerWaitingForInclude := false,
        replacedMarkedInclude := true }
    else scanUnmarked env includePath { st with markerWaitingForInclude := false } line
  else scanUnmarked env includePath st line

def endWithNewline (cs : Text) : Text :=
  if cs ≠ [] ∧ cs.getLast? ≠ some '\n' then cs ++ ['\n'] else cs

/-- The marker and the Include line, after a blank line. -/
def includeBlock : Text := '\n' :: sshwardenIncludeMarker ++ '\n' :: wanted ++ ['\n']

/-- The text to write, unless the wanted line is there. -/
def newConfig (existing : Text) : Option Text :=
  if (Text.lines existing).any fun line => Text.trim line = wanted then none
  else
    let scan := (Text.lines existing).foldl (scanLine env includePath wanted) {}
    if scan.replacedMarkedInclude then some (endWithNewline (Text.join ['\n'] scan.rewritten))
    else
      some (endWithNewline (if scan.droppedUnmarkedInclude then Text.join ['\n'] scan.rewritten else existing) ++
        includeBlock wanted)

end

/-! ### The installation -/

/-- How the steps of an installation go: the SSH directory is created and made private, the configuration
is loaded, the file is read, and it is written (its directory created again, its contents, its mode). -/
structure InstallHost where
  configPath : String
  parent : String
  createPrivateDir : Except String Unit := .ok ()
  loadConfig : Except String SshConfigPathStyle
  readable : Bool := true
  createParentDir : Except String Unit := .ok ()
  write : FileSystem.Written Bytes := .ok
  ensurePrivateFilePermissions : Except String Unit := .ok ()

/-- `read_to_string` with its error taken for an empty file. -/
def readToStringOrDefault (host : InstallHost) (file : Option Bytes) : Text :=
  if host.readable then ((file.bind fromUtf8).map String.toList).getD [] else []

def encodeText (cs : Text) : Bytes := utf8 (String.ofList cs)

/-- The result of `write_private_file` and the file after it. -/
def writePrivateFile (host : InstallHost) (file : Option Bytes) (content : Text) :
    Except String Unit × Option Bytes :=
  match host.createParentDir with
  | .error e => (.error e, file)
  | .ok () =>
    match host.write with
    | .err e none => (.error e, file)
    | .err e (some left) => (.error e, some left)
    | .ok => (host.ensurePrivateFilePermissions, some (encodeText content))

def writeSshwardenIncludeLine (env : SnippetEnv) (host : InstallHost) (includePath : Text)
    (file : Option Bytes) : Except String Unit × Option Bytes :=
  match host.createPrivateDir with
  | .error _ => (.error ("Failed to create SSH config directory: " ++ host.parent), file)
  | .ok () =>
    match host.loadConfig with
    | .error e => (.error e, file)
    | .ok style =>
      match newConfig env includePath (includeLineWithStyle env includePath style)
          (readToStringOrDefault host file) with
      | none => (.ok (), file)
      | some content =>
        let (result, left) := writePrivateFile host file content
        (result.mapError fun _ => "Failed to update SSH config: " ++ host.configPath, left)

/-- A line of the user's, the Include that is the first line with text after a marker, or another Include
of SSHWarden's. -/
inductive LineRole
  | kept | marked | stale
  deriving DecidableEq

section
variable (env : SnippetEnv) (includePath wanted : Text)

/-- Whether a marker is the last line with text, after a line. -/
def afterLine (afterMarker : Bool) (text : Text) : Bool :=
  if text = sshwardenIncludeMarker then true else if text = [] then afterMarker else false

def lineRole (afterMarker : Bool) (text : Text) : LineRole :=
  if text = sshwardenIncludeMarker ∨ text = [] then .kept
  else if afterMarker && (isSshIncludeDirective text ||
      lineMatchesCurrentOrLegacySshwardenInclude env text includePath) then .marked
  else if lineMatchesCurrentOrLegacySshwardenInclude env text includePath then .stale
  else .kept

/-- The roles of lines whose texts `read` gives. -/
def lineRoles {α : Type} (read : α → Text) : Bool → List α → List (LineRole × α)
  | _, [] => []
  | afterMarker, line :: ls =>
    (lineRole env includePath afterMarker (Text.trim (read line)), line) ::
      lineRoles read (afterLine afterMarker (Text.trim (read line))) ls

def keptLines {α : Type} (roles : List (LineRole × α)) : List α :=
  (roles.filter (·.1 = .kept)).map Prod.snd

/-- The line the scan writes for a line, if it writes one. -/
def landed (entry : LineRole × Text) : Option Text :=
  match entry.1 with
  | .kept => some entry.2
  | .marked => some wanted
  | .stale => none

theorem matches_nil : lineMatchesCurrentOrLegacySshwardenInclude env [] includePath = false := by
  have h : ∀ path, lineMatchesSshwardenInclude env [] path = false := by
    intro path
    unfold lineMatchesSshwardenInclude includeLine includeLineWithStyle legacyUnquotedIncludeLine
    simp [Text.trim, Text.trimStart, Text.trimEnd]
  unfold lineMatchesCurrentOrLegacySshwardenInclude
  rw [h, Bool.false_or, Option.any_eq_false_iff_get]
  exact fun _ => h _

theorem marker_ne_nil : sshwardenIncludeMarker ≠ [] := by decide

theorem scanLine_eq (st : IncludeScan) (line : Text) {role : LineRole}
    (hrole : lineRole env includePath st.markerWaitingForInclude (Text.trim line) = role) :
    scanLine env includePath wanted st line =
      { rewritten := st.rewritten ++ (landed wanted (role, line)).toList
        markerWaitingForInclude := afterLine st.markerWaitingForInclude (Text.trim line)
        replacedMarkedInclude := st.replacedMarkedInclude || role = .marked
        droppedUnmarkedInclude := st.droppedUnmarkedInclude || role = .stale } := by
  obtain ⟨rewritten, waiting, replaced, dropped⟩ := st
  subst hrole
  unfold scanLine scanUnmarked lineRole afterLine
  by_cases hmarker : Text.trim line = sshwardenIncludeMarker
  · rw [if_pos hmarker, if_pos (.inl hmarker), if_pos hmarker]
    simp [landed]
  · by_cases hblank : Text.trim line = []
    · have hkept : Text.trim line = sshwardenIncludeMarker ∨ Text.trim line = [] := .inr hblank
      rw [if_neg hmarker, if_pos hkept, if_neg hmarker, if_pos hblank, if_pos hblank, hblank, matches_nil]
      cases waiting <;> simp [landed]
    · rw [if_neg hmarker, if_neg (not_or.2 ⟨hmarker, hblank⟩), if_neg hmarker, if_neg hblank, if_neg hblank]
      cases waiting <;> cases isSshIncludeDirective (Text.trim line) <;>
        cases lineMatchesCurrentOrLegacySshwardenInclude env (Text.trim line) includePath <;>
        simp [landed]

theorem foldl_scanLine (st : IncludeScan) (ls : List Text) :
    let roles := lineRoles env includePath id st.markerWaitingForInclude ls
    let scan := ls.foldl (scanLine env includePath wanted) st
    scan.rewritten = st.rewritten ++ roles.filterMap (landed wanted) ∧
      scan.replacedMarkedInclude = (st.replacedMarkedInclude || roles.any (·.1 = .marked)) ∧
      scan.droppedUnmarkedInclude = (st.droppedUnmarkedInclude || roles.any (·.1 = .stale)) := by
  induction ls generalizing st with
  | nil => simp [lineRoles]
  | cons line ls ih =>
    have hstep := scanLine_eq env includePath wanted st line rfl
    obtain ⟨hrewritten, hreplaced, hdropped⟩ := ih (scanLine env includePath wanted st line)
    dsimp only at hrewritten hreplaced hdropped ⊢
    rw [List.foldl_cons, lineRoles, id, List.filterMap_cons, List.any_cons, List.any_cons, hrewritten, hreplaced,
      hdropped, hstep]
    refine ⟨?_, Bool.or_assoc _ _ _, Bool.or_assoc _ _ _⟩
    rw [List.append_assoc]
    cases landed wanted (lineRole env includePath st.markerWaitingForInclude (Text.trim line), line) <;> rfl

theorem newConfig_eq (existing : Text) :
    newConfig env includePath wanted existing =
      let roles := lineRoles env includePath id false (Text.lines existing)
      if (Text.lines existing).any fun line => Text.trim line = wanted then none
      else if roles.any (·.1 = .marked) then
        some (endWithNewline (Text.join ['\n'] (roles.filterMap (landed wanted))))
      else
        some (endWithNewline (if roles.any (·.1 = .stale) then Text.join ['\n'] (roles.filterMap (landed wanted))
          else existing) ++ includeBlock wanted) := by
  obtain ⟨hrewritten, hreplaced, hdropped⟩ := foldl_scanLine env includePath wanted {} (Text.lines existing)
  unfold newConfig
  dsimp only at hrewritten hreplaced hdropped ⊢
  rw [hrewritten, hreplaced, hdropped, List.nil_append, Bool.false_or, Bool.false_or]

end

theorem lines_endWithNewline_append (cs ds : Text) :
    Text.lines (endWithNewline cs ++ ds) = Text.lines (endWithNewline cs) ++ Text.lines ds := by
  unfold endWithNewline
  split_ifs with h
  · rw [List.append_assoc, List.singleton_append, Text.lines_append_cons, Text.lines_concat_newline]
  · by_cases hnil : cs = []
    · rw [hnil, List.nil_append, Text.lines_nil, List.nil_append]
    · obtain ⟨xs, rfl⟩ := List.getLast?_eq_some_iff.1 (not_not.1 fun hlast => h ⟨hnil, hlast⟩)
      rw [List.append_assoc, List.singleton_append, Text.lines_append_cons, Text.lines_concat_newline]

/-- The lines without a last blank one. -/
def dropBlankLast (ls : List Text) : List Text := if ls.getLast? = some [] then ls.dropLast else ls

theorem lines_endWithNewline_join {ls : List Text} (h : ∀ l ∈ ls, l.getLast? ≠ some '\n') :
    Text.lines (endWithNewline (Text.join ['\n'] ls)) =
      ((dropBlankLast ls).flatMap Text.split).map Text.stripCarriageReturn := by
  have hsplit : ∀ ms : List Text, ms ≠ [] → Text.lines (Text.join ['\n'] ms ++ ['\n']) =
      (ms.flatMap Text.split).map Text.stripCarriageReturn := fun ms hne => by
    rw [Text.lines_concat_newline, Text.split_join hne]
  rcases List.eq_nil_or_concat' ls with rfl | ⟨ms, l, rfl⟩
  · rfl
  · by_cases hl : l = []
    · subst hl
      rw [dropBlankLast, if_pos List.getLast?_concat, List.dropLast_concat]
      by_cases hne : ms = []
      · subst hne
        rfl
      · have hlast : Text.join ['\n'] (ms ++ [[]]) = Text.join ['\n'] ms ++ ['\n'] := Text.join_concat _ hne _
        rw [hlast, ← hsplit ms hne, endWithNewline, if_neg]
        simp
    · have hlast : (Text.join ['\n'] (ms ++ [l])).getLast? = l.getLast? := by
        by_cases hne : ms = []
        · subst hne
          simp [Text.join]
        · rw [Text.join_concat _ hne, ← List.append_assoc, List.getLast?_append_of_ne_nil _ hl]
      have hne : Text.join ['\n'] (ms ++ [l]) ≠ [] := by
        intro hnil
        rw [hnil, List.getLast?_nil, eq_comm, List.getLast?_eq_none_iff] at hlast
        exact hl hlast
      have hnewline : (Text.join ['\n'] (ms ++ [l])).getLast? ≠ some '\n' := fun hend =>
        h l (by simp) (hlast ▸ hend)
      rw [dropBlankLast, if_neg (by simpa using hl), ← hsplit _ (by simp), endWithNewline, if_pos ⟨hne, hnewline⟩]

theorem flatMap_split {ls : List Text} (h : ∀ l ∈ ls, '\n' ∉ l) : ls.flatMap Text.split = ls := by
  rw [List.flatMap_congr fun l hl => Text.split_of_not_mem (h l hl), List.flatMap_singleton']

theorem dropBlankLast_cases (ls : List Text) :
    ls.getLast? ≠ some [] ∧ dropBlankLast ls = ls ∨ ls = dropBlankLast ls ++ [[]] := by
  unfold dropBlankLast
  split_ifs with h
  · exact .inr (List.dropLast_append_getLast? [] h).symm
  · exact .inl ⟨h, rfl⟩

theorem dropBlankLast_sublist (ls : List Text) : (dropBlankLast ls).Sublist ls := by
  unfold dropBlankLast
  split_ifs
  · exact List.dropLast_sublist ls
  · exact List.Sublist.refl ls

theorem newline_not_mem_marker : '\n' ∉ sshwardenIncludeMarker := by decide

theorem lines_includeBlock (wanted : Text) : Text.lines (includeBlock wanted) =
    [] :: sshwardenIncludeMarker :: (Text.split wanted).map Text.stripCarriageReturn := by
  have hblock : includeBlock wanted = [] ++ '\n' :: (sshwardenIncludeMarker ++ '\n' :: (wanted ++ ['\n'])) := by
    simp [includeBlock]
  have hmarker : Text.stripCarriageReturn sshwardenIncludeMarker = sshwardenIncludeMarker := by decide
  rw [hblock, Text.lines_append_cons, Text.lines_append_cons, Text.lines_concat_newline,
    Text.split_of_not_mem newline_not_mem_marker, List.map_singleton, hmarker]
  rfl

section
variable {env : SnippetEnv} {includePath : Text}

theorem include_toList : "Include ".toList = ['I', 'n', 'c', 'l', 'u', 'd', 'e', ' '] := by decide

theorem includeLineWithStyle_eq (env : SnippetEnv) (includePath : Text) (style : SshConfigPathStyle) :
    ∃ cs, includeLineWithStyle env includePath style = 'I' :: (cs ++ ['"']) := by
  refine ⟨['n', 'c', 'l', 'u', 'd', 'e', ' '] ++
    '"' :: (displayPath { env with pathStyle := style } includePath).flatMap quoteChar, ?_⟩
  unfold includeLineWithStyle pathArgWithStyle quoteSshConfigArg
  rw [include_toList]
  rfl

theorem trim_includeLineWithStyle (style : SshConfigPathStyle) :
    Text.trim (includeLineWithStyle env includePath style) = includeLineWithStyle env includePath style := by
  obtain ⟨cs, hcs⟩ := includeLineWithStyle_eq env includePath style
  rw [hcs, ← List.cons_append, Text.trim_concat (by decide), Text.trimStart_cons (by decide)]

theorem getLast?_includeLineWithStyle (style : SshConfigPathStyle) :
    (includeLineWithStyle env includePath style).getLast? = some '"' := by
  obtain ⟨cs, hcs⟩ := includeLineWithStyle_eq env includePath style
  rw [hcs, ← List.cons_append, List.getLast?_concat]

end

/-! ### Where the Include is effective -/

/-- The line starts a block that applies to some hosts only. -/
def opensBlock (line : Text) : Bool :=
  match Text.words line with
  | [] => false
  | directive :: _ =>
    Text.eqIgnoreAsciiCase directive "Host".toList || Text.eqIgnoreAsciiCase directive "Match".toList

/-- The wanted line stands before every block. -/
def Unconditional (wanted : Text) (ls : List Text) : Prop :=
  ∃ above line below, ls = above ++ line :: below ∧ Text.trim line = wanted ∧
    ∀ l ∈ above, opensBlock l = false

theorem opensBlock_trim (line : Text) : opensBlock (Text.trim line) = opensBlock line := by
  unfold opensBlock
  rw [Text.words_trim]

theorem opensBlock_congr {l m : Text} (h : Text.trim l = Text.trim m) : opensBlock l = opensBlock m := by
  rw [← opensBlock_trim l, h, opensBlock_trim]

theorem unconditional_cons {wanted l : Text} {ls : List Text} : Unconditional wanted (l :: ls) ↔
    Text.trim l = wanted ∨ (opensBlock l = false ∧ Unconditional wanted ls) := by
  constructor
  · rintro ⟨above, line, below, h, hline, habove⟩
    cases above with
    | nil =>
      obtain ⟨rfl, -⟩ := List.cons.inj h
      exact .inl hline
    | cons a above =>
      obtain ⟨rfl, rfl⟩ := List.cons.inj h
      exact .inr ⟨habove l (List.mem_cons_self ..), above, line, below, rfl, hline,
        fun m hm => habove m (List.mem_cons_of_mem _ hm)⟩
  · rintro (hl | ⟨hl, above, line, below, rfl, hline, habove⟩)
    · exact ⟨[], l, ls, rfl, hl, by simp⟩
    · exact ⟨l :: above, line, below, rfl, hline, List.forall_mem_cons.2 ⟨hl, habove⟩⟩

theorem unconditional_congr {wanted : Text} {ls ms : List Text} (h : ls.map Text.trim = ms.map Text.trim) :
    Unconditional wanted ls ↔ Unconditional wanted ms := by
  induction ls generalizing ms with
  | nil =>
    rw [List.map_nil, eq_comm, List.map_eq_nil_iff] at h
    rw [h]
  | cons l ls ih =>
    obtain ⟨m, ms, rfl, hm, hms⟩ := List.map_eq_cons_iff.1 h.symm
    rw [unconditional_cons, unconditional_cons, ih hms.symm, opensBlock_congr hm, hm]

theorem unconditional_iff_takeWhile {wanted : Text} {ls : List Text}
    (h : ls.any (fun l => Text.trim l = wanted) = true) :
    Unconditional wanted ls ↔ ∀ l ∈ ls.takeWhile (fun l => Text.trim l ≠ wanted), opensBlock l = false := by
  induction ls with
  | nil => cases h
  | cons l ls ih =>
    rw [unconditional_cons]
    by_cases hl : Text.trim l = wanted
    · simp [hl]
    · have hls : ls.any (fun l => Text.trim l = wanted) = true := by simpa [hl] using h
      rw [ih hls, List.takeWhile_cons]
      simp [hl]

section
variable {env : SnippetEnv} {includePath wanted : Text}

/-- What a role says of its line: only the wanted Include is announced, and no stale one opens a block. -/
def RoleFits (wanted : Text) (entry : LineRole × Text) : Prop :=
  match entry.1 with
  | .kept => Text.trim entry.2 ≠ wanted
  | .marked => True
  | .stale => opensBlock entry.2 = false

theorem unconditional_landed {roles : List (LineRole × Text)} (hwanted : Text.trim wanted = wanted)
    (hroles : ∀ entry ∈ roles, RoleFits wanted entry) (tail : List Text) :
    Unconditional wanted (roles.filterMap (landed wanted) ++ tail) ↔
      (∀ entry ∈ roles.takeWhile (·.1 ≠ .marked), opensBlock entry.2 = false) ∧
        (roles.any (·.1 = .marked) = true ∨ Unconditional wanted tail) := by
  induction roles with
  | nil => simp
  | cons entry roles ih =>
    obtain ⟨hentry, hrest⟩ := List.forall_mem_cons.1 hroles
    have ih := ih hrest
    obtain ⟨role, line⟩ := entry
    cases role with
    | kept =>
      have hline : Text.trim line ≠ wanted := hentry
      simp only [List.filterMap_cons, landed, List.cons_append, unconditional_cons, ih, hline, false_or]
      simp [and_assoc]
    | marked => simp [landed, unconditional_cons, hwanted]
    | stale =>
      have hline : opensBlock line = false := hentry
      simp only [List.filterMap_cons, landed, ih]
      simp [hline]

/-- A line of SSHWarden's starts no block, whichever of its spellings it has. -/
theorem opensBlock_of_matches {line : Text}
    (h : lineMatchesCurrentOrLegacySshwardenInclude env (Text.trim line) includePath = true) :
    opensBlock line = false := by
  have hinclude : ∀ cs, opensBlock ("Include ".toList ++ cs) = false := by
    intro cs
    have hwords : Text.words ("Include ".toList ++ cs) = "Include".toList :: Text.words cs := by
      have hcs : "Include ".toList ++ cs = "Include".toList ++ ' ' :: cs := by
        rw [include_toList, show "Include".toList = ['I', 'n', 'c', 'l', 'u', 'd', 'e'] by decide]
        rfl
      rw [hcs, Text.words_append_cons _ _ (by decide), show Text.words "Include".toList = ["Include".toList] by
        decide]
      rfl
    unfold opensBlock
    rw [hwords]
    exact show (Text.eqIgnoreAsciiCase _ _ || Text.eqIgnoreAsciiCase _ _) = false by decide
  have hpath : ∀ path, lineMatchesSshwardenInclude env (Text.trim line) path = true → opensBlock line = false := by
    intro path hm
    rw [← opensBlock_trim, ← opensBlock_trim]
    unfold lineMatchesSshwardenInclude at hm
    rw [Bool.or_eq_true, Bool.or_eq_true, beq_iff_eq, beq_iff_eq, beq_iff_eq] at hm
    rcases hm with (hm | hm) | hm <;> rw [hm] <;> exact hinclude _
  unfold lineMatchesCurrentOrLegacySshwardenInclude at h
  rcases Bool.or_eq_true_iff.1 h with h | h
  · exact hpath _ h
  · obtain ⟨legacy, -, h⟩ := (Option.any_eq_true _ _).1 h
    exact hpath _ h

theorem mem_lineRoles {α : Type} {read : α → Text} {afterMarker : Bool} {ls : List α} {entry : LineRole × α}
    (h : entry ∈ lineRoles env includePath read afterMarker ls) : entry.2 ∈ ls ∧
      ∃ flag, entry.1 = lineRole env includePath flag (Text.trim (read entry.2)) := by
  induction ls generalizing afterMarker with
  | nil => cases h
  | cons line ls ih =>
    rcases List.mem_cons.1 h with rfl | h
    · exact ⟨List.mem_cons_self .., _, rfl⟩
    · exact (ih h).imp_left (List.mem_cons_of_mem _)

theorem map_snd_lineRoles {α : Type} (read : α → Text) (afterMarker : Bool) (ls : List α) :
    (lineRoles env includePath read afterMarker ls).map Prod.snd = ls := by
  induction ls generalizing afterMarker with
  | nil => rfl
  | cons line ls ih => rw [lineRoles, List.map_cons, ih]

theorem matches_of_stale {flag : Bool} {text : Text} (h : lineRole env includePath flag text = .stale) :
    lineMatchesCurrentOrLegacySshwardenInclude env text includePath = true := by
  unfold lineRole at h
  split_ifs at h with h1 h2 h3
  exact h3

/-- Where the wanted line is missing, the roles fit. -/
theorem roleFits_lineRoles {existing : Text}
    (habsent : ((Text.lines existing).any fun line => Text.trim line = wanted) = false) :
    ∀ entry ∈ lineRoles env includePath id false (Text.lines existing), RoleFits wanted entry := by
  rintro ⟨role, line⟩ hentry
  obtain ⟨hline, flag, hrole⟩ := mem_lineRoles hentry
  cases role with
  | kept => exact fun htrim => by simpa [htrim] using List.any_eq_false.1 habsent line hline
  | marked => exact trivial
  | stale => exact opensBlock_of_matches (matches_of_stale hrole.symm)

theorem filterMap_landed {roles : List (LineRole × Text)} (h : ∀ entry ∈ roles, entry.1 = .kept) :
    roles.filterMap (landed wanted) = roles.map Prod.snd := by
  rw [← List.filterMap_eq_map]
  refine List.filterMap_congr fun entry hentry => ?_
  rw [landed, h entry hentry]
  rfl

theorem newline_not_mem_landed (hwanted : '\n' ∉ wanted) {existing l : Text}
    (h : l ∈ (lineRoles env includePath id false (Text.lines existing)).filterMap (landed wanted)) : '\n' ∉ l := by
  obtain ⟨⟨role, line⟩, hentry, hl⟩ := List.mem_filterMap.1 h
  have hline := Text.newline_not_mem_of_mem_lines (mem_lineRoles hentry).1
  cases role with
  | kept =>
    obtain rfl := Option.some.inj hl
    exact hline
  | marked =>
    obtain rfl := Option.some.inj hl
    exact hwanted
  | stale => cases hl

theorem map_trim_stripCarriageReturn (ls : List Text) :
    (ls.map Text.stripCarriageReturn).map Text.trim = ls.map Text.trim := by
  rw [List.map_map]
  exact List.map_congr_left fun l _ => Text.trim_stripCarriageReturn l

theorem map_trim_lines_endWithNewline (cs : Text) :
    (Text.lines (endWithNewline cs)).map Text.trim = (Text.lines cs).map Text.trim := by
  unfold endWithNewline
  split_ifs with h
  · obtain ⟨ls, l, hsplit, hlines, -⟩ := Text.lines_of_getLast? h.1 h.2
    rw [Text.lines_concat_newline, hsplit, hlines, map_trim_stripCarriageReturn, List.map_append, List.map_append,
      map_trim_stripCarriageReturn]
  · rfl

/-- What the written lines are up to white space: those of the scan, which may miss a last blank line, and
the block where no Include was replaced. -/
theorem trims_newConfig (hwanted : '\n' ∉ wanted) {existing content : Text}
    (h : newConfig env includePath wanted existing = some content) :
    let roles := lineRoles env includePath id false (Text.lines existing)
    ∃ ls, (ls = roles.filterMap (landed wanted) ∨ ls ++ [[]] = roles.filterMap (landed wanted)) ∧
      (Text.lines content).map Text.trim = (ls ++
        if roles.any (·.1 = .marked) then [] else [[], sshwardenIncludeMarker, wanted]).map Text.trim := by
  have hlanded : ∀ l ∈ (lineRoles env includePath id false (Text.lines existing)).filterMap (landed wanted),
      '\n' ∉ l := fun l => newline_not_mem_landed hwanted
  have hjoin := lines_endWithNewline_join fun l hl hend => hlanded l hl (List.mem_of_getLast? hend)
  rw [flatMap_split fun l hl => hlanded l ((dropBlankLast_sublist _).mem hl)] at hjoin
  have hdrop := dropBlankLast_cases ((lineRoles env includePath id false
    (Text.lines existing)).filterMap (landed wanted))
  rw [newConfig_eq] at h
  dsimp only at h ⊢
  split_ifs at h with habsent hmarked hstale
  · obtain rfl := Option.some.inj h
    refine ⟨_, hdrop.imp And.right Eq.symm, ?_⟩
    rw [hjoin, if_pos hmarked, List.append_nil, map_trim_stripCarriageReturn]
  · obtain rfl := Option.some.inj h
    refine ⟨_, hdrop.imp And.right Eq.symm, ?_⟩
    rw [lines_endWithNewline_append, hjoin, if_neg hmarked, lines_includeBlock, Text.split_of_not_mem hwanted,
      List.map_append, map_trim_stripCarriageReturn, List.map_append]
    simp [Text.trim_stripCarriageReturn]
  · obtain rfl := Option.some.inj h
    have hkept : ∀ entry ∈ lineRoles env includePath id false (Text.lines existing), entry.1 = .kept := by
      rintro ⟨role, line⟩ hentry
      cases role with
      | kept => rfl
      | marked => exact absurd (List.any_eq_true.2 ⟨_, hentry, decide_eq_true rfl⟩) hmarked
      | stale => exact absurd (List.any_eq_true.2 ⟨_, hentry, decide_eq_true rfl⟩) hstale
    refine ⟨Text.lines existing, .inl ?_, ?_⟩
    · rw [filterMap_landed hkept, map_snd_lineRoles]
    rw [lines_endWithNewline_append, if_neg hmarked, lines_includeBlock, Text.split_of_not_mem hwanted,
      List.map_append, map_trim_lines_endWithNewline, List.map_append]
    simp [Text.trim_stripCarriageReturn]

/-- The lines before the place the Include gets: before the line that is there, before the first Include
that is replaced, or all. -/
def linesAbove (env : SnippetEnv) (includePath wanted existing : Text) : List Text :=
  if (Text.lines existing).any fun line => Text.trim line = wanted then
    (Text.lines existing).takeWhile fun line => Text.trim line ≠ wanted
  else
    ((lineRoles env includePath id false (Text.lines existing)).takeWhile (·.1 ≠ .marked)).map Prod.snd

theorem unconditional_insert {wanted : Text} (hne : wanted ≠ []) (ls ms : List Text) :
    Unconditional wanted (ls ++ [] :: ms) ↔ Unconditional wanted (ls ++ ms) := by
  have hblank : Text.trim [] ≠ wanted := fun h => hne h.symm
  induction ls with
  | nil => simp [unconditional_cons, hblank, opensBlock]
  | cons l ls ih => simp only [List.cons_append, unconditional_cons, ih]

theorem opensBlock_marker : opensBlock sshwardenIncludeMarker = false := by decide

theorem unconditional_newConfig (hwanted : '\n' ∉ wanted) (htrim : Text.trim wanted = wanted) (hne : wanted ≠ [])
    {existing content : Text} (h : newConfig env includePath wanted existing = some content) :
    Unconditional wanted (Text.lines content) ↔
      ∀ l ∈ linesAbove env includePath wanted existing, opensBlock l = false := by
  have habsent : ((Text.lines existing).any fun line => Text.trim line = wanted) = false := by
    rw [newConfig_eq] at h
    dsimp only at h
    rw [← Bool.not_eq_true]
    intro hpresent
    rw [if_pos hpresent] at h
    cases h
  obtain ⟨ls, hls, htrims⟩ := trims_newConfig hwanted h
  have habove : linesAbove env includePath wanted existing = ((lineRoles env includePath id false
      (Text.lines existing)).takeWhile (·.1 ≠ .marked)).map Prod.snd := by
    rw [linesAbove, habsent]
    rfl
  have hfits : ∀ entry ∈ lineRoles env includePath id false (Text.lines existing), RoleFits wanted entry :=
    roleFits_lineRoles habsent
  have hblock : Unconditional wanted [[], sshwardenIncludeMarker, wanted] := by
    simp [unconditional_cons, opensBlock_marker, htrim, show opensBlock [] = false from rfl]
  have hdrop : ∀ tail, Unconditional wanted (ls ++ tail) ↔ Unconditional wanted
      ((lineRoles env includePath id false (Text.lines existing)).filterMap (landed wanted) ++ tail) := by
    intro tail
    rcases hls with hls | hls
    · rw [hls]
    · rw [← hls, List.append_assoc]
      exact (unconditional_insert hne ls tail).symm
  rw [unconditional_congr htrims, hdrop, unconditional_landed htrim hfits, habove, List.forall_mem_map]
  refine and_iff_left ?_
  split_ifs with hmarked
  · exact .inl hmarked
  · exact .inr hblock

end

/-- The file holds the wanted Include at a place where OpenSSH always applies it. -/
def Effective (wanted : Text) (file : Option Bytes) : Prop :=
  ∃ text, file.bind fromUtf8 = some text ∧ Unconditional wanted (Text.lines text.toList)

theorem not_unconditional_of_newline {wanted : Text} (h : '\n' ∈ wanted) (cs : Text) :
    ¬Unconditional wanted (Text.lines cs) := by
  rintro ⟨above, line, below, hlines, hline, -⟩
  have hmem : line ∈ Text.lines cs := by simp [hlines]
  exact Text.newline_not_mem_of_mem_lines hmem (Text.mem_trim (hline ▸ h))

theorem readToStringOrDefault_ne_nil {host : InstallHost} {file : Option Bytes}
    (h : readToStringOrDefault host file ≠ []) : host.readable = true ∧
      ∃ text, file.bind fromUtf8 = some text ∧ readToStringOrDefault host file = text.toList := by
  unfold readToStringOrDefault at h ⊢
  split_ifs at h ⊢ with hreadable
  · cases htext : file.bind fromUtf8 with
    | none =>
      rw [htext] at h
      exact absurd rfl h
    | some text => exact ⟨hreadable, text, rfl, rfl⟩
  · exact absurd rfl h

theorem fromUtf8_encodeText (cs : Text) : fromUtf8 (encodeText cs) = some (String.ofList cs) := fromUtf8_utf8 _

theorem writeSshwardenIncludeLine_ok {env : SnippetEnv} {host : InstallHost} {includePath : Text}
    {file file' : Option Bytes} {style : SshConfigPathStyle} (hstyle : host.loadConfig = .ok style)
    (h : writeSshwardenIncludeLine env host includePath file = (.ok (), file')) :
    match newConfig env includePath (includeLineWithStyle env includePath style)
      (readToStringOrDefault host file) with
    | none => file' = file
    | some content => file' = some (encodeText content) := by
  unfold writeSshwardenIncludeLine at h
  cases hdir : host.createPrivateDir with
  | error e =>
    rw [hdir] at h
    cases congrArg Prod.fst h
  | ok _ =>
    rw [hdir, hstyle] at h
    dsimp only at h
    cases hnew : newConfig env includePath (includeLineWithStyle env includePath style)
        (readToStringOrDefault host file) with
    | none =>
      rw [hnew] at h
      exact (congrArg Prod.snd h).symm
    | some content =>
      rw [hnew] at h
      unfold writePrivateFile at h
      cases hparent : host.createParentDir with
      | error e =>
        rw [hparent] at h
        cases congrArg Prod.fst h
      | ok _ =>
        rw [hparent] at h
        cases hwrite : host.write with
        | ok =>
          rw [hwrite] at h
          exact (congrArg Prod.snd h).symm
        | err e left =>
          rw [hwrite] at h
          cases left <;> cases congrArg Prod.fst h

theorem newConfig_eq_none_iff {env : SnippetEnv} {includePath wanted existing : Text} :
    newConfig env includePath wanted existing = none ↔
      ((Text.lines existing).any fun line => Text.trim line = wanted) = true := by
  rw [newConfig_eq]
  dsimp only
  split_ifs with hpresent
  · exact iff_of_true rfl hpresent
  · exact iff_of_false nofun hpresent
  · exact iff_of_false nofun hpresent

def smoothHost : InstallHost where
  configPath := "/home/u/.ssh/config"
  parent := "/home/u/.ssh"
  loadConfig := .ok .homeRelative

def homeEnv : SnippetEnv := ⟨"/home/u/keys".toList, .absolute, some "/home/u".toList, fun c => [c.toLower]⟩

def homeIncludePath : Text := "/home/u/bin/sshwarden_config".toList

def homeInclude : Text := includeLineWithStyle homeEnv homeIncludePath .homeRelative

theorem read_smoothHost (cs : Text) : readToStringOrDefault smoothHost (some (encodeText cs)) = cs := by
  unfold readToStringOrDefault
  rw [Option.bind_some, fromUtf8_encodeText, Option.map_some, String.toList_ofList]
  rfl

theorem write_smoothHost {cs content : Text}
    (h : newConfig homeEnv homeIncludePath homeInclude cs = some content) :
    writeSshwardenIncludeLine homeEnv smoothHost homeIncludePath (some (encodeText cs)) =
      (.ok (), some (encodeText content)) := by
  have hnew : newConfig homeEnv homeIncludePath (includeLineWithStyle homeEnv homeIncludePath .homeRelative)
      (readToStringOrDefault smoothHost (some (encodeText cs))) = some content := by rwa [read_smoothHost]
  unfold writeSshwardenIncludeLine
  simp only [smoothHost] at hnew ⊢
  rw [hnew]
  rfl

/-- After an installation that succeeded the Include is effective exactly where its path has no line
break and none of the lines before its place starts a block. -/
theorem include_effective_iff {env : SnippetEnv} {host : InstallHost} {includePath : Text}
    {file file' : Option Bytes} {style : SshConfigPathStyle} (hstyle : host.loadConfig = .ok style)
    (h : writeSshwardenIncludeLine env host includePath file = (.ok (), file')) :
    Effective (includeLineWithStyle env includePath style) file' ↔
      '\n' ∉ includeLineWithStyle env includePath style ∧
        ∀ l ∈ linesAbove env includePath (includeLineWithStyle env includePath style)
          (readToStringOrDefault host file), opensBlock l = false := by
  have hfile := writeSshwardenIncludeLine_ok hstyle h
  have hne : includeLineWithStyle env includePath style ≠ [] := by
    obtain ⟨cs, hcs⟩ := includeLineWithStyle_eq env includePath style
    rw [hcs]
    exact List.cons_ne_nil _ _
  by_cases hwanted : '\n' ∈ includeLineWithStyle env includePath style
  · refine iff_of_false ?_ fun h => h.1 hwanted
    rintro ⟨text, -, htext⟩
    exact not_unconditional_of_newline hwanted _ htext
  · rw [and_iff_right hwanted]
    cases hnew : newConfig env includePath (includeLineWithStyle env includePath style)
        (readToStringOrDefault host file) with
    | none =>
      rw [hnew] at hfile
      subst hfile
      have hpresent := newConfig_eq_none_iff.1 hnew
      have hread : readToStringOrDefault host file' ≠ [] := by
        intro hnil
        rw [hnil] at hpresent
        cases hpresent
      obtain ⟨-, text, htext, hread⟩ := readToStringOrDefault_ne_nil hread
      rw [linesAbove, if_pos hpresent, ← unconditional_iff_takeWhile hpresent, hread]
      constructor
      · rintro ⟨text', htext', h⟩
        rw [htext] at htext'
        rwa [Option.some.inj htext']
      · exact fun h => ⟨text, htext, h⟩
    | some content =>
      rw [hnew] at hfile
      subst hfile
      rw [← unconditional_newConfig hwanted (trim_includeLineWithStyle style) hne hnew]
      constructor
      · rintro ⟨text, htext, h⟩
        rw [Option.bind_some, fromUtf8_encodeText] at htext
        rwa [← Option.some.inj htext, String.toList_ofList] at h
      · intro h
        refine ⟨_, fromUtf8_encodeText content, ?_⟩
        rwa [String.toList_ofList]

/-- A marked Include of another computer's, above the blocks. -/
def sharedConfig : Text :=
  "# SSHWarden managed key selector snippets\n\ninclude /Users/a/sshwarden_config\nHost example\n    User me".toList

def sharedConfigRewritten : Text := ("# SSHWarden managed key selector snippets\n\n" ++
  "Include \"~/bin/sshwarden_config\"\nHost example\n    User me\n").toList

theorem newConfig_sharedConfig :
    newConfig homeEnv homeIncludePath homeInclude sharedConfig = some sharedConfigRewritten := by decide

theorem include_effective_shared : Effective homeInclude (some (encodeText sharedConfigRewritten)) :=
  (@include_effective_iff homeEnv smoothHost homeIncludePath _ _ .homeRelative rfl
    (write_smoothHost newConfig_sharedConfig)).2 ⟨by decide, by rw [read_smoothHost]; decide +kernel⟩

def hostConfig : Text := "Host example\n    User me\n".toList

/-- Appended after a `Host` block, the Include belongs to that block. -/
theorem include_appended_to_block : ¬∀ (env : SnippetEnv) (host : InstallHost) (includePath : Text)
    (file file' : Option Bytes) (style : SshConfigPathStyle), host.loadConfig = .ok style →
      writeSshwardenIncludeLine env host includePath file = (.ok (), file') →
      Effective (includeLineWithStyle env includePath style) file' := by
  intro h
  obtain ⟨content, hcontent⟩ : ∃ content,
      newConfig homeEnv homeIncludePath homeInclude hostConfig = some content :=
    Option.isSome_iff_exists.1 (by decide)
  obtain ⟨text, htext, hunconditional⟩ := h homeEnv smoothHost homeIncludePath _ _ .homeRelative rfl
    (write_smoothHost hcontent)
  rw [Option.bind_some, fromUtf8_encodeText] at htext
  rw [← Option.some.inj htext, String.toList_ofList] at hunconditional
  have hwanted : '\n' ∉ homeInclude := by decide
  have hne : homeInclude ≠ [] := by decide
  have hall := (unconditional_newConfig hwanted (trim_includeLineWithStyle _) hne hcontent).1 hunconditional
  have hblock : ∃ l ∈ linesAbove homeEnv homeIncludePath homeInclude hostConfig, opensBlock l = true := by
    decide
  obtain ⟨l, hl, hopens⟩ := hblock
  exact Bool.false_ne_true ((hall l hl).symm.trans hopens)

end SshWarden
