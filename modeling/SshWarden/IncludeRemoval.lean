import SshWarden.Injection
import SshWarden.UserLines

/-!
# Removing the Include line again

`remove_sshwarden_include_line` scans the lines of `~/.ssh/config` once and leaves out SSHWarden's Includes, each
with the marker before it and the blank lines between. What an installation has put behind the lines of a file without
traces of SSHWarden is taken away again, line for line.
-/

namespace SshWarden

structure RemovalScan where
  kept : List Text := []
  removedAny : Bool := false
  skipMarkerForNextInclude : Bool := false

/-- The loop that takes lines off the end: blank ones, and the marker before them. -/
def popMarker : List Text → List Text
  | [] => []
  | last :: kept =>
    if Text.trim last = [] then popMarker kept
    else if Text.trim last = sshwardenIncludeMarker then kept
    else last :: kept

section
variable (env : SnippetEnv) (includePath : Text)

def removeLine (st : RemovalScan) (line : Text) : RemovalScan :=
  if Text.trim line = sshwardenIncludeMarker then
    { st with skipMarkerForNextInclude := true, kept := st.kept ++ [line] }
  else if lineMatchesCurrentOrLegacySshwardenInclude env (Text.trim line) includePath ||
      (st.skipMarkerForNextInclude && isSshIncludeDirective (Text.trim line)) then
    { kept := if st.skipMarkerForNextInclude then (popMarker st.kept.reverse).reverse else st.kept
      removedAny := true
      skipMarkerForNextInclude := false }
  else
    { st with
      kept := st.kept ++ [line]
      skipMarkerForNextInclude := if Text.trim line ≠ [] then false else st.skipMarkerForNextInclude }

/-- The text to write, where anything is removed. -/
def configWithoutInclude (existing : Text) : Option Text :=
  let scan := (Text.lines existing).foldl (removeLine env includePath) {}
  if scan.removedAny then some (endWithNewline (Text.join ['\n'] scan.kept)) else none

def removeSshwardenIncludeLine (host : InstallHost) (file : Option Bytes) : Except String Bool × Option Bytes :=
  match file with
  | none => (.ok false, none)
  | some bytes =>
    match readText host (some bytes) with
    | none => (.error ("Failed to read SSH config: " ++ host.configPath), some bytes)
    | some existing =>
      match configWithoutInclude env includePath existing with
      | none => (.ok false, some bytes)
      | some content =>
        match host.createPrivateDir with
        | .error _ => (.error ("Failed to prepare SSH config directory: " ++ host.parent), some bytes)
        | .ok () =>
          let (result, left) := writePrivateFile host (some bytes) content
          ((result.mapError fun _ => "Failed to update SSH config: " ++ host.configPath).map fun _ => true, left)

/-- No line is the marker or an Include of SSHWarden's. -/
def Untouched (ls : List Text) : Prop :=
  ∀ line ∈ ls, Text.trim line ≠ sshwardenIncludeMarker ∧
    lineMatchesCurrentOrLegacySshwardenInclude env (Text.trim line) includePath = false

end

/-- Every step of the call succeeds. -/
structure InstallHost.Smooth (host : InstallHost) (style : SshConfigPathStyle) : Prop where
  createPrivateDir : host.createPrivateDir = .ok ()
  loadConfig : host.loadConfig = .ok style
  readable : host.readable = true
  createParentDir : host.createParentDir = .ok ()
  write : host.write = .ok
  ensurePrivateFilePermissions : host.ensurePrivateFilePermissions = .ok ()

section
variable {env : SnippetEnv} {includePath : Text}

theorem roles_untouched {ls : List Text} (h : Untouched env includePath ls) :
    ∀ entry ∈ lineRoles env includePath id false ls, entry.1 = .kept := by
  induction ls with
  | nil => exact fun entry hentry => absurd hentry List.not_mem_nil
  | cons line ls ih =>
    obtain ⟨⟨hmarker, hmatches⟩, hrest⟩ := List.forall_mem_cons.1 h
    have hafter : afterLine false (Text.trim (id line)) = false := by
      simp [afterLine, hmarker]
    rw [lineRoles, hafter]
    refine List.forall_mem_cons.2 ⟨?_, ih hrest⟩
    simp [lineRole, hmatches]

theorem newConfig_untouched {wanted existing : Text} (h : Untouched env includePath (Text.lines existing))
    (hwanted : lineMatchesCurrentOrLegacySshwardenInclude env wanted includePath = true) :
    newConfig env includePath wanted existing = some (endWithNewline existing ++ includeBlock wanted) := by
  have habsent : ((Text.lines existing).any fun line => Text.trim line = wanted) = false := by
    refine List.any_eq_false.2 fun line hline heq => ?_
    have hmatches := (h line hline).2
    rw [of_decide_eq_true heq, hwanted] at hmatches
    cases hmatches
  have hnone : ∀ role ≠ .kept,
      (lineRoles env includePath id false (Text.lines existing)).any (·.1 = role) = false :=
    fun role hrole => List.any_eq_false.2 fun entry hentry heq =>
      hrole ((of_decide_eq_true heq).symm.trans (roles_untouched h entry hentry))
  rw [newConfig_eq]
  dsimp only
  rw [habsent, hnone .marked (by decide), hnone .stale (by decide)]
  rfl

theorem foldl_removeLine {ls : List Text} (h : Untouched env includePath ls) (kept : List Text) :
    ls.foldl (removeLine env includePath) { kept } = { kept := kept ++ ls } := by
  induction ls generalizing kept with
  | nil => rw [List.foldl_nil, List.append_nil]
  | cons line ls ih =>
    obtain ⟨⟨hmarker, hmatches⟩, hrest⟩ := List.forall_mem_cons.1 h
    have hstep : removeLine env includePath { kept } line = { kept := kept ++ [line] } := by
      simp [removeLine, hmarker, hmatches]
    rw [List.foldl_cons, hstep, ih hrest, List.append_assoc, List.singleton_append]

theorem configWithoutInclude_untouched {existing : Text} (h : Untouched env includePath (Text.lines existing)) :
    configWithoutInclude env includePath existing = none := by
  unfold configWithoutInclude
  rw [foldl_removeLine h]
  rfl

theorem trim_marker : Text.trim sshwardenIncludeMarker = sshwardenIncludeMarker := by decide

theorem removeLine_blank (kept : List Text) :
    removeLine env includePath { kept } [] = { kept := kept ++ [[]] } := by
  have hblank : Text.trim [] = ([] : Text) := rfl
  have hmarker : ([] : Text) ≠ sshwardenIncludeMarker := marker_ne_nil.symm
  simp [removeLine, hblank, hmarker, matches_nil]

theorem removeLine_marker (kept : List Text) :
    removeLine env includePath { kept } sshwardenIncludeMarker =
      { kept := kept ++ [sshwardenIncludeMarker], skipMarkerForNextInclude := true } := by
  simp [removeLine, trim_marker]

theorem removeLine_include {wanted : Text} (hwanted : OwnLine wanted) (hmarker : wanted ≠ sshwardenIncludeMarker)
    (hmatches : lineMatchesCurrentOrLegacySshwardenInclude env wanted includePath = true) (kept : List Text) :
    removeLine env includePath
        { kept := kept ++ [sshwardenIncludeMarker], skipMarkerForNextInclude := true } wanted =
      { kept := kept, removedAny := true } := by
  have hpop : popMarker (kept ++ [sshwardenIncludeMarker]).reverse = kept.reverse := by
    rw [List.reverse_append, List.reverse_singleton, List.singleton_append, popMarker, trim_marker,
      if_neg marker_ne_nil, if_pos rfl]
  unfold removeLine
  rw [hwanted.trim, if_neg hmarker, hmatches, hpop, List.reverse_reverse]
  rfl

theorem foldl_removeLine_block {ls : List Text} (h : Untouched env includePath ls) {wanted : Text}
    (hwanted : OwnLine wanted) (hmarker : wanted ≠ sshwardenIncludeMarker)
    (hmatches : lineMatchesCurrentOrLegacySshwardenInclude env wanted includePath = true) :
    (ls ++ [[], sshwardenIncludeMarker, wanted]).foldl (removeLine env includePath) {} =
      { kept := ls ++ [[]], removedAny := true } := by
  rw [List.foldl_append, foldl_removeLine h, List.nil_append, List.foldl_cons, removeLine_blank, List.foldl_cons,
    removeLine_marker, List.foldl_cons, removeLine_include hwanted hmarker hmatches, List.foldl_nil]

theorem map_stripCarriageReturn {ls : List Text} (h : ∀ l ∈ ls, '\r' ∉ l) :
    ls.map Text.stripCarriageReturn = ls := by
  conv_rhs => rw [← List.map_id ls]
  exact List.map_congr_left fun l hl => Text.stripCarriageReturn_of_getLast? fun hlast =>
    h l hl (List.mem_of_getLast? hlast)

theorem lines_endWithNewline {cs : Text} (h : '\r' ∉ cs) : Text.lines (endWithNewline cs) = Text.lines cs := by
  unfold endWithNewline
  split_ifs with hended
  · obtain ⟨ls, l, hsplit, hself, hl⟩ := Text.lines_of_getLast? hended.1 hended.2
    have hreturn : l.getLast? ≠ some '\r' := fun hlast => h (List.mem_of_getLast? (hl ▸ hlast))
    rw [Text.lines_concat_newline, hsplit, hself, List.map_append, List.map_singleton,
      Text.stripCarriageReturn_of_getLast? hreturn]
  · rfl

/-- The lines of a text behind which the block was put, and those that are left of them. -/
theorem lines_with_block {existing wanted : Text} (h : '\r' ∉ existing) (hwanted : OwnLine wanted)
    (hline : '\n' ∉ wanted) :
    Text.lines (endWithNewline existing ++ includeBlock wanted) =
      Text.lines existing ++ [[], sshwardenIncludeMarker, wanted] := by
  rw [lines_endWithNewline_append, lines_endWithNewline h, lines_includeBlock, Text.split_of_not_mem hline,
    List.map_singleton, Text.stripCarriageReturn_of_getLast? hwanted.getLast?]

theorem lines_left {existing : Text} (h : '\r' ∉ existing) :
    Text.lines (endWithNewline (Text.join ['\n'] (Text.lines existing ++ [[]]))) = Text.lines existing := by
  have hnewline : ∀ l ∈ Text.lines existing ++ [[]], '\n' ∉ l := fun l hl => by
    rcases List.mem_append.1 hl with hl | hl
    · exact Text.newline_not_mem_of_mem_lines hl
    · rw [List.mem_singleton.1 hl]
      exact List.not_mem_nil
  have hdrop : dropBlankLast (Text.lines existing ++ [[]]) = Text.lines existing := by
    rw [dropBlankLast, if_pos List.getLast?_concat, List.dropLast_concat]
  rw [lines_endWithNewline_join fun l hl hlast => hnewline l hl (List.mem_of_getLast? hlast), hdrop,
    flatMap_split fun l hl => hnewline l (List.mem_append_left _ hl),
    map_stripCarriageReturn fun l hl => h ∘ Text.mem_of_mem_lines hl]

/-! ### The calls -/

theorem newline_not_mem_include (h : '\n' ∉ includePath) (style : SshConfigPathStyle) :
    '\n' ∉ includeLineWithStyle env includePath style := by
  intro hmem
  rcases List.mem_append.1 hmem with hmem | hmem
  · rw [include_toList] at hmem
    exact absurd hmem (by decide)
  · exact newline_not_mem_quoteSshConfigArg (newline_not_mem_displayPath h) hmem

variable {host : InstallHost} {style : SshConfigPathStyle}

theorem read_smooth (h : host.Smooth style) (existing : Text) :
    readText host (some (encodeText existing)) = some existing := by
  unfold readText
  rw [if_pos h.readable, Option.bind_some, fromUtf8_encodeText, Option.map_some, String.toList_ofList]

theorem writePrivateFile_smooth (h : host.Smooth style) (file : Option Bytes) (content : Text) :
    writePrivateFile host file content = (.ok (), some (encodeText content)) := by
  unfold writePrivateFile
  rw [h.createParentDir, h.write, h.ensurePrivateFilePermissions]

theorem writeSshwardenIncludeLine_smooth (h : host.Smooth style) (existing : Text) :
    writeSshwardenIncludeLine env host includePath (some (encodeText existing)) =
      (.ok (), some (encodeText
        ((newConfig env includePath (includeLineWithStyle env includePath style) existing).getD existing))) := by
  unfold writeSshwardenIncludeLine
  rw [h.createPrivateDir, h.loadConfig, readToStringOrDefault_eq, read_smooth h, Option.getD_some]
  dsimp only
  cases newConfig env includePath (includeLineWithStyle env includePath style) existing with
  | none => rfl
  | some content =>
    dsimp only
    rw [writePrivateFile_smooth h]
    rfl

theorem removeSshwardenIncludeLine_smooth (h : host.Smooth style) (existing : Text) :
    removeSshwardenIncludeLine env includePath host (some (encodeText existing)) =
      (.ok (configWithoutInclude env includePath existing).isSome,
        some (encodeText ((configWithoutInclude env includePath existing).getD existing))) := by
  unfold removeSshwardenIncludeLine
  dsimp only
  rw [read_smooth h]
  dsimp only
  cases configWithoutInclude env includePath existing with
  | none => rfl
  | some content =>
    dsimp only
    rw [h.createPrivateDir, writePrivateFile_smooth h]
    rfl

end

/-- On a file without carriage returns and without traces of SSHWarden, a second installation changes nothing, a
removal takes the Include away again and leaves the lines that were there, and a second removal changes nothing. -/
theorem include_removed_again {env : SnippetEnv} {includePath existing : Text} {host : InstallHost}
    {style : SshConfigPathStyle} (hhost : host.Smooth style) (hpath : '\n' ∉ includePath)
    (hreturn : '\r' ∉ existing)
    (hlines : Untouched env includePath (Text.lines existing)) :
    ∃ installed left,
      writeSshwardenIncludeLine env host includePath (some (encodeText existing)) =
        (.ok (), some (encodeText installed)) ∧
      writeSshwardenIncludeLine env host includePath (some (encodeText installed)) =
        (.ok (), some (encodeText installed)) ∧
      removeSshwardenIncludeLine env includePath host (some (encodeText installed)) =
        (.ok true, some (encodeText left)) ∧
      Text.lines left = Text.lines existing ∧
      removeSshwardenIncludeLine env includePath host (some (encodeText left)) =
        (.ok false, some (encodeText left)) := by
  have hmatches := matches_include env includePath style
  have hmarker := include_ne_marker env includePath style
  have hown : OwnLine (includeLineWithStyle env includePath style) := ownLine_include style
  have hline : '\n' ∉ includeLineWithStyle env includePath style := newline_not_mem_include hpath style
  generalize hwanted : includeLineWithStyle env includePath style = wanted at hmatches hmarker hown hline
  have hnew := newConfig_untouched hlines hmatches
  have hremoved : configWithoutInclude env includePath (endWithNewline existing ++ includeBlock wanted) =
      some (endWithNewline (Text.join ['\n'] (Text.lines existing ++ [[]]))) := by
    unfold configWithoutInclude
    rw [lines_with_block hreturn hown hline, foldl_removeLine_block hlines hown hmarker hmatches]
    rfl
  have hleft := lines_left hreturn
  refine ⟨endWithNewline existing ++ includeBlock wanted, _, ?_, ?_, ?_, hleft, ?_⟩
  · rw [writeSshwardenIncludeLine_smooth hhost, hwanted, hnew, Option.getD_some]
  · rw [writeSshwardenIncludeLine_smooth hhost, hwanted, not_written_again hown hline hnew, Option.getD_none]
  · rw [removeSshwardenIncludeLine_smooth hhost, hremoved]
    rfl
  · rw [removeSshwardenIncludeLine_smooth hhost, configWithoutInclude_untouched (hleft.symm ▸ hlines)]
    rfl

theorem smooth_smoothHost : smoothHost.Smooth .homeRelative := ⟨rfl, rfl, rfl, rfl, rfl, rfl⟩

/-- A file with an Include of the user's and without a newline at its end. -/
def workConfig : Text := "Include work\n\nHost example\n    User me".toList

theorem untouched_workConfig : (Text.lines workConfig).all (fun line =>
    Text.trim line ≠ sshwardenIncludeMarker &&
      !lineMatchesCurrentOrLegacySshwardenInclude homeEnv (Text.trim line) homeIncludePath) = true := by
  decide

theorem include_removed_again_work : ∃ installed left,
    writeSshwardenIncludeLine homeEnv smoothHost homeIncludePath (some (encodeText workConfig)) =
      (.ok (), some (encodeText installed)) ∧
    writeSshwardenIncludeLine homeEnv smoothHost homeIncludePath (some (encodeText installed)) =
      (.ok (), some (encodeText installed)) ∧
    removeSshwardenIncludeLine homeEnv homeIncludePath smoothHost (some (encodeText installed)) =
      (.ok true, some (encodeText left)) ∧
    Text.lines left = Text.lines workConfig ∧
    removeSshwardenIncludeLine homeEnv homeIncludePath smoothHost (some (encodeText left)) =
      (.ok false, some (encodeText left)) := by
  refine include_removed_again smooth_smoothHost (by decide) (by decide +kernel) fun line hline => ?_
  have hall := List.all_eq_true.1 untouched_workConfig line hline
  simpa using hall

end SshWarden
