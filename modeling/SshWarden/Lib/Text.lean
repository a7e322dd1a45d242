import Mathlib.Data.List.Basic
import Mathlib.Data.List.DropRight
import Mathlib.Data.List.TakeDrop
import Mathlib.Data.List.TakeWhile
import Mathlib.Tactic.Common

/-!
# Texts as lists of characters

White space, trimming, words, lines and Unix paths, for text files read and written as a whole.
White space is the Unicode property `White_Space`. The lines of a text joined from parts are the
lines of the parts (`split_join`); the words of a text cut at a white space are the words of its two
sides (`words_append_cons`).
-/

abbrev Text : Type := List Char

namespace Text

instance (t : Text) (ts : List Text) : Decidable (t ∈ ts) := List.instDecidableMemOfLawfulBEq t ts

/-- `char::is_whitespace`. -/
def isWhitespace (c : Char) : Bool :=
  c.toNat ∈ [0x09, 0x0A, 0x0B, 0x0C, 0x0D, 0x20, 0x85, 0xA0, 0x1680, 0x2028, 0x2029, 0x202F, 0x205F, 0x3000] ||
    (0x2000 ≤ c.toNat && c.toNat ≤ 0x200A)

/-- `char::is_control`, the category `Cc`. -/
def isControl (c : Char) : Bool := c.toNat < 0x20 || (0x7F ≤ c.toNat && c.toNat < 0xA0)

/-- `char::is_ascii_alphanumeric`. -/
def isAsciiAlphanumeric (c : Char) : Bool := c.isAlphanum

/-- `str::eq_ignore_ascii_case`; `Char.toLower` changes ASCII letters only. -/
def eqIgnoreAsciiCase (s t : Text) : Bool := s.map Char.toLower == t.map Char.toLower

def trimStart (cs : Text) : Text := cs.dropWhile isWhitespace

def trimEnd (cs : Text) : Text := (cs.reverse.dropWhile isWhitespace).reverse

/-- `str::trim`. -/
def trim (cs : Text) : Text := trimEnd (trimStart cs)

/-- `str::trim_matches` with one character. -/
def trimMatches (c : Char) (cs : Text) : Text :=
  ((cs.dropWhile (· = c)).reverse.dropWhile (· = c)).reverse

/-- `str::strip_prefix`. -/
def stripPrefix? (pre cs : Text) : Option Text :=
  if pre.isPrefixOf cs then some (cs.drop pre.length) else none

/-- `str::strip_suffix`. -/
def stripSuffix? (suf cs : Text) : Option Text :=
  if suf.isSuffixOf cs then some (cs.take (cs.length - suf.length)) else none

/-- `str::rsplit_once`: cut at the last occurrence of `sep`. -/
def rsplitOnce (sep : Text) : Text → Option (Text × Text)
  | [] => if sep = [] then some ([], []) else none
  | c :: cs =>
    match rsplitOnce sep cs with
    | some (before, after) => some (c :: before, after)
    | none => (stripPrefix? sep (c :: cs)).map fun after => ([], after)

/-- `lines.join(sep)`. -/
def join (sep : Text) (ls : List Text) : Text := sep.intercalate ls

/-- The pieces between newlines. -/
def split (cs : Text) : List Text := cs.splitOn '\n'

def stripCarriageReturn (cs : Text) : Text := (stripSuffix? ['\r'] cs).getD cs

/-- A piece that a newline ended loses its carriage return; an empty last piece is no line. -/
def endLines : List Text → List Text
  | [] => []
  | [l] => if l = [] then [] else [l]
  | l :: ls => stripCarriageReturn l :: endLines ls

/-- `str::lines`. -/
def lines (cs : Text) : List Text := endLines (split cs)

/-- `str::split_whitespace`. -/
def words (cs : Text) : List Text := (cs.splitOnP isWhitespace).filter (· ≠ [])

namespace Path

def isRooted (p : Text) : Bool := p.head? = some '/'

/-- `Path::join`. -/
def join (dir file : Text) : Text :=
  if isRooted file then file
  else if dir = [] ∨ dir.getLast? = some '/' then dir ++ file else dir ++ '/' :: file

def segments (p : Text) : List Text := p.splitOn '/'

/-- Empty and `.` segments are no components of a path. -/
def isBlank (s : Text) : Bool := s = [] || s = ['.']

/-- A relative path that starts with `.` keeps it as a component. -/
def startsWithDot (p : Text) : Bool := (segments p).head? = some ['.']

def stripBody : List Text → List Text → Option (List Text)
  | ss, [] => some ss
  | [], _ :: _ => none
  | s :: ss, c :: cs =>
    if isBlank s then stripBody ss (c :: cs) else if s = c then stripBody ss cs else none

def trimBlank (ss : List Text) : List Text := (ss.reverse.dropWhile isBlank).reverse

/-- `Components::as_path`: without the blank segments at both ends. -/
def asPath (ss : List Text) : Text := Text.join ['/'] (trimBlank (ss.dropWhile isBlank))

/-- `Components::as_path` of a whole path: without the blank segments at its end. -/
def trimRight (p : Text) : Text :=
  if isRooted p then '/' :: Text.join ['/'] (trimBlank (segments p).tail)
  else Text.join ['/'] ((segments p).take 1 ++ trimBlank (segments p).tail)

/-- `Path::strip_prefix`: the components of `home` are the first ones of `p`. -/
def stripPrefix (p home : Text) : Option Text :=
  if home = [] then some (trimRight p)
  else if isRooted p = isRooted home ∧ startsWithDot p = startsWithDot home then
    (stripBody (segments p) ((segments home).filter fun s => !isBlank s)).map asPath
  else none

end Path

/-! ### What the operations keep -/

theorem newline_isWhitespace : isWhitespace '\n' = true := by decide

theorem mem_trimStart {c : Char} {cs : Text} (h : c ∈ trimStart cs) : c ∈ cs :=
  (List.dropWhile_sublist _).mem h

theorem mem_trimEnd {c : Char} {cs : Text} (h : c ∈ trimEnd cs) : c ∈ cs :=
  List.mem_reverse.1 ((List.dropWhile_sublist _).mem (List.mem_reverse.1 h))

theorem mem_trim {c : Char} {cs : Text} (h : c ∈ trim cs) : c ∈ cs := mem_trimStart (mem_trimEnd h)

theorem trimStart_of_no_whitespace {cs : Text} (h : ∀ c ∈ cs, isWhitespace c = false) :
    trimStart cs = cs := by
  cases cs with
  | nil => rfl
  | cons c cs => simp [trimStart, List.dropWhile, h c (List.mem_cons_self ..)]

theorem trimEnd_of_no_whitespace {cs : Text} (h : ∀ c ∈ cs, isWhitespace c = false) :
    trimEnd cs = cs := by
  have hr : trimStart cs.reverse = cs.reverse :=
    trimStart_of_no_whitespace fun c hc => h c (List.mem_reverse.1 hc)
  unfold trimEnd
  rw [show cs.reverse.dropWhile isWhitespace = cs.reverse from hr, List.reverse_reverse]

theorem trim_of_no_whitespace {cs : Text} (h : ∀ c ∈ cs, isWhitespace c = false) : trim cs = cs := by
  unfold trim
  rw [trimStart_of_no_whitespace h, trimEnd_of_no_whitespace h]

theorem trimStart_cons {c : Char} (hc : isWhitespace c = false) (cs : Text) :
    trimStart (c :: cs) = c :: cs := by
  simp [trimStart, List.dropWhile, hc]

theorem trimEnd_cons {c : Char} (hc : isWhitespace c = false) (cs : Text) :
    trimEnd (c :: cs) = c :: trimEnd cs := by
  unfold trimEnd
  rw [List.reverse_cons, List.dropWhile_append]
  split_ifs with h
  · simp [List.isEmpty_iff.1 h, List.dropWhile, hc]
  · simp

theorem trim_cons {c : Char} (hc : isWhitespace c = false) (cs : Text) :
    trim (c :: cs) = c :: trimEnd cs := by
  unfold trim
  rw [trimStart_cons hc, trimEnd_cons hc]

theorem trim_trim (cs : Text) : trim (trim cs) = trim cs := by
  have hend : ∀ ds : Text, trimEnd (trimEnd ds) = trimEnd ds := fun ds => by
    unfold trimEnd
    rw [List.reverse_reverse, List.dropWhile_idempotent]
  cases hstart : trimStart cs with
  | nil =>
    show trim (trimEnd (trimStart cs)) = trimEnd (trimStart cs)
    rw [hstart]
    rfl
  | cons c ds =>
    have hc : isWhitespace c = false := by
      have hhead := List.head?_dropWhile_not isWhitespace cs
      have hdrop : cs.dropWhile isWhitespace = c :: ds := hstart
      rw [hdrop] at hhead
      simpa using hhead
    have htrim : trim cs = c :: trimEnd ds := by rw [trim, hstart, trimEnd_cons hc]
    rw [htrim, trim_cons hc, hend]

theorem trim_concat {c : Char} (hc : isWhitespace c = false) (cs : Text) :
    trim (cs ++ [c]) = trimStart cs ++ [c] := by
  have hstart : trimStart (cs ++ [c]) = trimStart cs ++ [c] := by
    unfold trimStart
    rw [List.dropWhile_append]
    split_ifs with h
    · simp [List.isEmpty_iff.1 h, List.dropWhile, hc]
    · rfl
  unfold trim
  rw [hstart]
  simp [trimEnd, hc]

theorem trimEnd_append_whitespace {c : Char} (hc : isWhitespace c = true) (cs : Text) :
    trimEnd (cs ++ [c]) = trimEnd cs := by
  simp [trimEnd, hc]

theorem trim_append_whitespace {c : Char} (hc : isWhitespace c = true) (cs : Text) :
    trim (cs ++ [c]) = trim cs := by
  unfold trim
  induction cs with
  | nil => simp [trimStart, List.dropWhile, hc]
  | cons d cs ih =>
    by_cases hd : isWhitespace d = true
    · simpa [trimStart, List.dropWhile, hd] using ih
    · have hd : isWhitespace d = false := by simpa using hd
      rw [List.cons_append, trimStart_cons hd, trimStart_cons hd, ← List.cons_append,
        trimEnd_append_whitespace hc]

theorem trim_stripCarriageReturn (cs : Text) : trim (stripCarriageReturn cs) = trim cs := by
  unfold stripCarriageReturn stripSuffix?
  split_ifs with h
  · obtain ⟨ds, rfl⟩ := List.isSuffixOf_iff_suffix.1 h
    rw [trim_append_whitespace (by decide)]
    simp
  · rfl

theorem mem_join {sep : Text} {ls : List Text} {c : Char} (h : c ∈ join sep ls) :
    c ∈ sep ∨ ∃ l ∈ ls, c ∈ l := by
  unfold join at h
  induction ls with
  | nil => simp at h
  | cons l ls ih =>
    cases ls with
    | nil => exact Or.inr ⟨l, List.mem_cons_self .., by simpa using h⟩
    | cons l' ls =>
      rw [List.intercalate_cons_cons] at h
      rcases List.mem_append.1 h with h | h
      · rcases List.mem_append.1 h with h | h
        · exact Or.inr ⟨l, List.mem_cons_self .., h⟩
        · exact Or.inl h
      · rcases ih h with h | ⟨m, hm, hc⟩
        · exact Or.inl h
        · exact Or.inr ⟨m, List.mem_cons_of_mem _ hm, hc⟩

theorem stripPrefix?_cons_of_ne {c d : Char} (h : c ≠ d) (pre cs : Text) :
    stripPrefix? (d :: pre) (c :: cs) = none := by
  simp [stripPrefix?, List.isPrefixOf, Ne.symm h]

theorem stripPrefix?_append (pre cs : Text) : stripPrefix? pre (pre ++ cs) = some cs := by
  simp [stripPrefix?]

theorem eq_append_of_stripPrefix? {pre cs rest : Text} (h : stripPrefix? pre cs = some rest) :
    cs = pre ++ rest := by
  obtain ⟨hpre, hrest⟩ := Option.ite_none_right_eq_some.1 h
  obtain ⟨ds, rfl⟩ := List.isPrefixOf_iff_prefix.1 hpre
  rw [List.drop_left] at hrest
  rw [Option.some.inj hrest]

theorem stripSuffix?_append (cs suf : Text) : stripSuffix? suf (cs ++ suf) = some cs := by
  simp [stripSuffix?]

/-- A separator does not occur where one of its characters is missing. -/
theorem rsplitOnce_of_not_mem {sep cs : Text} {c : Char} (hc : c ∈ sep) (h : c ∉ cs) :
    rsplitOnce sep cs = none := by
  induction cs with
  | nil => exact if_neg (List.ne_nil_of_mem hc)
  | cons d cs ih =>
    rw [rsplitOnce, ih fun hmem => h (List.mem_cons_of_mem _ hmem)]
    cases hstrip : stripPrefix? sep (d :: cs) with
    | none => rfl
    | some rest =>
      rw [eq_append_of_stripPrefix? hstrip] at h
      exact absurd (List.mem_append_left _ hc) h

theorem rsplitOnce_append {a b : Char} (hab : a ≠ b) (cs : Text) {rest : Text} (h : b ∉ rest) :
    rsplitOnce [a, b] (cs ++ a :: b :: rest) = some (cs, rest) := by
  induction cs with
  | nil =>
    have hrest : rsplitOnce [a, b] rest = none := rsplitOnce_of_not_mem (by simp) h
    have htail : rsplitOnce [a, b] (b :: rest) = none := by
      rw [rsplitOnce, hrest, stripPrefix?_cons_of_ne hab.symm]; rfl
    rw [List.nil_append, rsplitOnce, htail]
    exact congrArg (Option.map _) (stripPrefix?_append [a, b] rest)
  | cons c cs ih => rw [List.cons_append, rsplitOnce, ih]

theorem split_of_not_mem {cs : Text} (h : '\n' ∉ cs) : split cs = [cs] := List.splitOn_eq_singleton h

theorem split_append_cons (xs ys : Text) : split (xs ++ '\n' :: ys) = split xs ++ split ys :=
  List.splitOn_append_cons_self xs ys

/-- The lines of joined parts are the lines of the parts, whatever line breaks the parts hold. -/
theorem split_join {ls : List Text} (h : ls ≠ []) : split (join ['\n'] ls) = ls.flatMap split := by
  induction ls with
  | nil => exact absurd rfl h
  | cons l ls ih =>
    cases ls with
    | nil => simp [join]
    | cons l' ls =>
      have hj : join ['\n'] (l :: l' :: ls) = l ++ '\n' :: join ['\n'] (l' :: ls) := by
        simp [join, List.intercalate_cons_cons]
      rw [hj, split_append_cons, ih (List.cons_ne_nil _ _)]
      rfl

theorem split_ne_nil (cs : Text) : split cs ≠ [] := List.splitOn_ne_nil _ _

/-- A character other than a newline stays at the start of the first line. -/
theorem split_cons {c : Char} (hc : c ≠ '\n') (cs : Text) :
    ∃ l ls, split cs = l :: ls ∧ split (c :: cs) = (c :: l) :: ls := by
  obtain ⟨l, ls, h⟩ := List.exists_cons_of_ne_nil (split_ne_nil cs)
  refine ⟨l, ls, h, ?_⟩
  unfold split at h ⊢
  rw [List.splitOn_cons_eq_if_modifyHead, h]
  simp [hc]

theorem not_mem_of_mem_splitOn {cs l : Text} {sep : Char} (h : l ∈ cs.splitOn sep) : sep ∉ l := by
  induction cs generalizing l with
  | nil =>
    rw [List.splitOn_nil, List.mem_singleton] at h
    rw [h]
    exact List.not_mem_nil
  | cons c cs ih =>
    rw [List.splitOn_cons_eq_if_modifyHead] at h
    obtain ⟨m, ms, hm⟩ := List.exists_cons_of_ne_nil (List.splitOn_ne_nil sep cs)
    rw [hm] at h ih
    split_ifs at h with hc
    · rcases List.mem_cons.1 h with rfl | h
      · exact List.not_mem_nil
      · exact ih h
    · rcases List.mem_cons.1 h with rfl | h
      · have hm : sep ∉ m := ih (List.mem_cons_self ..)
        have hne : sep ≠ c := fun heq => hc (by simp [heq])
        simp [hne, hm]
      · exact ih (List.mem_cons_of_mem _ h)

theorem newline_not_mem_of_mem_split {cs l : Text} (h : l ∈ split cs) : '\n' ∉ l := not_mem_of_mem_splitOn h

theorem join_concat (sep : Text) {ls : List Text} (h : ls ≠ []) (l : Text) :
    join sep (ls ++ [l]) = join sep ls ++ (sep ++ l) := by
  unfold join
  induction ls with
  | nil => exact absurd rfl h
  | cons m ls ih =>
    cases ls with
    | nil => simp [List.intercalate_cons_cons]
    | cons m' ls =>
      have ih := ih (List.cons_ne_nil _ _)
      rw [List.cons_append] at ih
      rw [List.cons_append, List.cons_append, List.intercalate_cons_cons, ih, List.intercalate_cons_cons,
        List.append_assoc, List.append_assoc, List.append_assoc]

theorem stripCarriageReturn_concat (cs : Text) : stripCarriageReturn (cs ++ ['\r']) = cs := by
  unfold stripCarriageReturn
  rw [stripSuffix?_append, Option.getD_some]

theorem stripCarriageReturn_of_getLast? {cs : Text} (h : cs.getLast? ≠ some '\r') :
    stripCarriageReturn cs = cs := by
  unfold stripCarriageReturn stripSuffix?
  rw [if_neg, Option.getD_none]
  intro hs
  obtain ⟨ds, rfl⟩ := List.isSuffixOf_iff_suffix.1 hs
  exact h (by simp)

theorem mem_stripCarriageReturn {cs : Text} {c : Char} (h : c ∈ stripCarriageReturn cs) : c ∈ cs := by
  by_cases hs : cs.getLast? = some '\r'
  · obtain ⟨ds, rfl⟩ := List.getLast?_eq_some_iff.1 hs
    rw [stripCarriageReturn_concat] at h
    exact List.mem_append_left _ h
  · rwa [stripCarriageReturn_of_getLast? hs] at h

theorem endLines_cons (l m : Text) (ls : List Text) :
    endLines (l :: m :: ls) = stripCarriageReturn l :: endLines (m :: ls) := rfl

theorem endLines_append (ls : List Text) {ms : List Text} (h : ms ≠ []) :
    endLines (ls ++ ms) = ls.map stripCarriageReturn ++ endLines ms := by
  induction ls with
  | nil => rfl
  | cons l ls ih =>
    obtain ⟨m, ns, hms⟩ := List.exists_cons_of_ne_nil (List.append_ne_nil_of_right_ne_nil ls h)
    rw [List.cons_append, List.map_cons, List.cons_append, ← ih, hms, endLines_cons]

@[simp] theorem lines_nil : lines [] = [] := rfl

theorem lines_append_cons (xs ys : Text) :
    lines (xs ++ '\n' :: ys) = (split xs).map stripCarriageReturn ++ lines ys := by
  unfold lines
  rw [split_append_cons, endLines_append _ (split_ne_nil ys)]

theorem lines_concat_newline (xs : Text) : lines (xs ++ ['\n']) = (split xs).map stripCarriageReturn := by
  rw [lines_append_cons, lines_nil, List.append_nil]

/-- Cut before the last line. -/
theorem split_eq_concat (cs : Text) : ∃ ls l, split cs = ls ++ [l] ∧ (cs = l ∨ ∃ xs, cs = xs ++ '\n' :: l) := by
  by_cases h : '\n' ∈ cs
  · obtain ⟨as, bs, hcs, has⟩ := List.eq_append_cons_of_mem (List.mem_reverse.2 h)
    have hcs : cs = bs.reverse ++ '\n' :: as.reverse := by
      rw [← List.reverse_reverse cs, hcs]
      simp
    refine ⟨split bs.reverse, as.reverse, ?_, .inr ⟨_, hcs⟩⟩
    have has : '\n' ∉ as.reverse := by simpa using has
    rw [hcs, split_append_cons, split_of_not_mem has]
  · exact ⟨[], cs, split_of_not_mem h, .inl rfl⟩

/-- The lines of a text that does not end with a newline: the last line is as it stands, and not blank. -/
theorem lines_of_getLast? {cs : Text} (hne : cs ≠ []) (h : cs.getLast? ≠ some '\n') :
    ∃ ls l, split cs = ls ++ [l] ∧ lines cs = ls.map stripCarriageReturn ++ [l] ∧
      l.getLast? = cs.getLast? := by
  obtain ⟨ls, l, hs, hcs⟩ := split_eq_concat cs
  have hl : l ≠ [] := by
    rintro rfl
    rcases hcs with rfl | ⟨xs, rfl⟩
    · exact hne rfl
    · exact h (by simp)
  refine ⟨ls, l, hs, ?_, ?_⟩
  · unfold lines
    rw [hs, endLines_append _ (List.cons_ne_nil _ _), endLines, if_neg hl]
  · obtain ⟨m, c, rfl⟩ := List.eq_nil_or_concat' l |>.resolve_left hl
    rcases hcs with rfl | ⟨xs, rfl⟩
    · rfl
    · rw [← List.cons_append, ← List.append_assoc, List.getLast?_concat, List.getLast?_concat]

/-- A line has the characters of a piece between newlines. -/
theorem mem_split_of_mem_lines {cs l : Text} (h : l ∈ lines cs) : ∃ m ∈ split cs, ∀ c ∈ l, c ∈ m := by
  unfold lines at h
  generalize split cs = ls at h ⊢
  fun_induction endLines ls with
  | case1 => exact absurd h List.not_mem_nil
  | case2 => exact absurd h List.not_mem_nil
  | case3 m hm => exact ⟨m, List.mem_singleton_self m, by simp [List.mem_singleton.1 h]⟩
  | case4 m ms hms ih =>
    rcases List.mem_cons.1 h with rfl | h
    · exact ⟨m, List.mem_cons_self .., fun c => mem_stripCarriageReturn⟩
    · obtain ⟨m', hm', hc⟩ := ih h
      exact ⟨m', List.mem_cons_of_mem _ hm', hc⟩

theorem newline_not_mem_of_mem_lines {cs l : Text} (h : l ∈ lines cs) : '\n' ∉ l := by
  obtain ⟨m, hm, hc⟩ := mem_split_of_mem_lines h
  exact fun hn => newline_not_mem_of_mem_split hm (hc _ hn)

theorem split_append_of_not_mem {xs : Text} (h : '\n' ∉ xs) (cs : Text) :
    split (xs ++ cs) = (split cs).modifyHead (xs ++ ·) := by
  induction xs with
  | nil =>
    obtain ⟨l, ls, hs⟩ := List.exists_cons_of_ne_nil (split_ne_nil cs)
    simp [hs]
  | cons x xs ih =>
    obtain ⟨hx, hxs⟩ := not_or.1 (List.mem_cons.not.1 h)
    obtain ⟨l, ls, hl, hs⟩ := split_cons (Ne.symm hx) (xs ++ cs)
    rw [List.cons_append, hs]
    obtain ⟨m, ms, hm⟩ := List.exists_cons_of_ne_nil (split_ne_nil cs)
    rw [ih hxs, hm] at hl
    obtain ⟨rfl, rfl⟩ := List.cons.inj hl
    simp [hm]

section Encoding
variable {f : Char → Text}

theorem split_flatMap (hnl : f '\n' = ['\n']) (h : ∀ c, '\n' ∈ f c → c = '\n') (cs : Text) :
    split (cs.flatMap f) = (split cs).map (List.flatMap f) := by
  induction cs with
  | nil => rfl
  | cons c cs ih =>
    by_cases hc : c = '\n'
    · subst hc
      rw [List.flatMap_cons, hnl, List.singleton_append, ← List.nil_append ('\n' :: _), split_append_cons, ih,
        ← List.nil_append ('\n' :: cs), split_append_cons]
      rfl
    · obtain ⟨l, ls, hl, hs⟩ := split_cons hc cs
      rw [List.flatMap_cons, split_append_of_not_mem (fun hm => hc (h c hm)), ih, hs, hl]
      simp

theorem stripCarriageReturn_flatMap (hcr : f '\r' = ['\r']) (hne : ∀ c, f c ≠ [])
    (h : ∀ c, '\r' ∈ f c → c = '\r') (cs : Text) :
    stripCarriageReturn (cs.flatMap f) = (stripCarriageReturn cs).flatMap f := by
  rcases List.eq_nil_or_concat' cs with rfl | ⟨cs, c, rfl⟩
  · rfl
  · by_cases hc : c = '\r'
    · subst hc
      rw [List.flatMap_append, List.flatMap_singleton, hcr, stripCarriageReturn_concat, stripCarriageReturn_concat]
    · have hlast : (cs ++ [c]).getLast? ≠ some '\r' := by simpa using hc
      rw [stripCarriageReturn_of_getLast? hlast, stripCarriageReturn_of_getLast?]
      rw [List.flatMap_append, List.flatMap_singleton, List.getLast?_append_of_ne_nil _ (hne c)]
      exact fun hr => hc (h c (List.mem_of_getLast? hr))

/-- Lines are read from an encoded text as from the text where the code of a character holds a line end
for the line ends only. -/
theorem lines_flatMap (hnl : f '\n' = ['\n']) (hcr : f '\r' = ['\r']) (hne : ∀ c, f c ≠ [])
    (h : ∀ c, ∀ d ∈ ['\n', '\r'], d ∈ f c → c = d) (cs : Text) :
    lines (cs.flatMap f) = (lines cs).map (List.flatMap f) := by
  unfold lines
  rw [split_flatMap hnl fun c => h c '\n' (by simp)]
  have hnil : ∀ l : Text, l.flatMap f = [] ↔ l = [] := by
    intro l
    cases l with
    | nil => simp
    | cons c l => simp [hne c]
  fun_induction endLines (split cs) with
  | case1 => rfl
  | case2 => simp [endLines]
  | case3 l hl => simp [endLines, (hnil l).not.2 hl]
  | case4 l ls hls ih =>
    obtain ⟨m, ms, rfl⟩ := List.exists_cons_of_ne_nil (fun hnil => hls hnil)
    rw [List.map_cons, List.map_cons, endLines_cons, ← List.map_cons, ih,
      stripCarriageReturn_flatMap hcr hne fun c => h c '\r' (by simp)]
    rfl

end Encoding

/-! ### Words -/

@[simp] theorem words_nil : words [] = [] := by simp [words]

theorem words_append_cons (xs ys : Text) {c : Char} (hc : isWhitespace c = true) :
    words (xs ++ c :: ys) = words xs ++ words ys := by
  unfold words
  rw [List.splitOnP_append_cons xs ys hc, List.filter_append]

theorem words_cons {c : Char} (hc : isWhitespace c = true) (ys : Text) : words (c :: ys) = words ys := by
  have h := words_append_cons [] ys hc
  rwa [List.nil_append, words_nil, List.nil_append] at h

theorem words_of_no_whitespace {w : Text} (hw : w ≠ []) (h : ∀ c ∈ w, isWhitespace c = false) :
    words w = [w] := by
  unfold words
  rw [List.splitOnP_eq_singleton h]
  simp [hw]

theorem words_trimStart (cs : Text) : words (trimStart cs) = words cs := by
  induction cs with
  | nil => rfl
  | cons c cs ih =>
    unfold trimStart at ih ⊢
    rw [List.dropWhile_cons]
    split_ifs with hc
    · rw [ih, words_cons hc]
    · rfl

theorem words_append_of_whitespace (xs : Text) {ys : Text} (h : ∀ c ∈ ys, isWhitespace c = true) :
    words (xs ++ ys) = words xs := by
  induction ys generalizing xs with
  | nil => rw [List.append_nil]
  | cons c ys ih =>
    have hys := ih [] fun c hc => h c (List.mem_cons_of_mem _ hc)
    rw [List.nil_append, words_nil] at hys
    rw [words_append_cons _ _ (h c (List.mem_cons_self ..)), hys, List.append_nil]

theorem exists_append_of_trimEnd (cs : Text) :
    ∃ ws, cs = trimEnd cs ++ ws ∧ ∀ c ∈ ws, isWhitespace c = true := by
  refine ⟨(cs.reverse.takeWhile isWhitespace).reverse, ?_, fun c hc => ?_⟩
  · unfold trimEnd
    rw [← List.reverse_append, List.takeWhile_append_dropWhile, List.reverse_reverse]
  · exact List.mem_takeWhile_imp (List.mem_reverse.1 hc)

theorem words_trim (cs : Text) : words (trim cs) = words cs := by
  obtain ⟨ws, hcs, hws⟩ := exists_append_of_trimEnd (trimStart cs)
  calc words (trim cs) = words (trimEnd (trimStart cs) ++ ws) := (words_append_of_whitespace _ hws).symm
    _ = words (trimStart cs) := by rw [← hcs]
    _ = words cs := words_trimStart cs

/-- Words without white space, joined by spaces, are read back. -/
theorem words_join {ws : List Text} (h : ∀ w ∈ ws, w ≠ [] ∧ ∀ c ∈ w, isWhitespace c = false) :
    words (join [' '] ws) = ws := by
  induction ws with
  | nil => simp [join]
  | cons w ws ih =>
    obtain ⟨hw, hc⟩ := h w (List.mem_cons_self ..)
    cases ws with
    | nil => simpa [join] using words_of_no_whitespace hw hc
    | cons w' ws =>
      have hj : join [' '] (w :: w' :: ws) = w ++ ' ' :: join [' '] (w' :: ws) := by
        simp [join, List.intercalate_cons_cons]
      rw [hj, words_append_cons _ _ (by decide), words_of_no_whitespace hw hc,
        ih fun v hv => h v (List.mem_cons_of_mem _ hv), List.singleton_append]

/-- The first word of a text that does not start with white space starts with its first character. -/
theorem words_eq_cons {c : Char} (hc : isWhitespace c = false) (cs : Text) :
    ∃ w ws, words (c :: cs) = (c :: w) :: ws := by
  obtain ⟨w, ws, h⟩ := List.exists_cons_of_ne_nil (List.splitOnP_ne_nil isWhitespace cs)
  refine ⟨w, ws.filter (· ≠ []), ?_⟩
  unfold words
  rw [List.splitOnP_cons_eq_if_modifyHead, h]
  simp [hc]

theorem mem_join_of_mem {sep l : Text} {ls : List Text} {c : Char} (hl : l ∈ ls) (hc : c ∈ l) :
    c ∈ join sep ls := by
  unfold join
  induction ls with
  | nil => exact absurd hl List.not_mem_nil
  | cons m ls ih =>
    cases ls with
    | nil =>
      rw [List.mem_singleton] at hl
      subst hl
      simpa using hc
    | cons m' ls =>
      rw [List.intercalate_cons_cons]
      rcases List.mem_cons.1 hl with rfl | hl
      · simp [hc]
      · exact List.mem_append_right _ (ih hl)

theorem mem_of_mem_splitOn {cs s : Text} {sep c : Char} (hs : s ∈ cs.splitOn sep) (hc : c ∈ s) :
    c ∈ cs := by
  have h : c ∈ join [sep] (cs.splitOn sep) := mem_join_of_mem hs hc
  rwa [join, List.intercalate_splitOn] at h

theorem mem_of_mem_lines {cs l : Text} {c : Char} (h : l ∈ lines cs) (hc : c ∈ l) : c ∈ cs := by
  obtain ⟨m, hm, hsub⟩ := mem_split_of_mem_lines h
  exact mem_of_mem_splitOn hm (hsub c hc)

namespace Path

theorem mem_join {dir file : Text} {c : Char} (h : c ∈ join dir file) :
    c ∈ dir ∨ c = '/' ∨ c ∈ file := by
  unfold join at h
  split_ifs at h
  · exact Or.inr (Or.inr h)
  · exact (List.mem_append.1 h).imp_right Or.inr
  · rcases List.mem_append.1 h with h | h
    · exact Or.inl h
    · exact Or.inr (List.mem_cons.1 h)

theorem mem_of_stripBody {ss cs rs : List Text} (h : stripBody ss cs = some rs) {s : Text}
    (hs : s ∈ rs) : s ∈ ss := by
  induction ss generalizing cs with
  | nil =>
    cases cs with
    | nil =>
      cases h
      exact hs
    | cons c cs => cases h
  | cons t ss ih =>
    cases cs with
    | nil =>
      cases h
      exact hs
    | cons c cs =>
      unfold stripBody at h
      split_ifs at h
      · exact List.mem_cons_of_mem _ (ih h)
      · exact List.mem_cons_of_mem _ (ih h)

theorem mem_of_mem_trimBlank {ss : List Text} {s : Text} (h : s ∈ trimBlank ss) : s ∈ ss :=
  List.mem_reverse.1 ((List.dropWhile_sublist _).mem (List.mem_reverse.1 h))

theorem mem_asPath {ss : List Text} {c : Char} (h : c ∈ asPath ss) : c = '/' ∨ ∃ s ∈ ss, c ∈ s := by
  rcases Text.mem_join h with h | ⟨s, hs, hc⟩
  · exact Or.inl (List.mem_singleton.1 h)
  · exact Or.inr ⟨s, (List.dropWhile_sublist _).mem (mem_of_mem_trimBlank hs), hc⟩

theorem mem_trimRight {p : Text} {c : Char} (h : c ∈ trimRight p) : c = '/' ∨ c ∈ p := by
  have hjoin : ∀ ss, (∀ s ∈ ss, s ∈ segments p) → c ∈ Text.join ['/'] ss → c = '/' ∨ c ∈ p := by
    intro ss hss hc
    rcases Text.mem_join hc with hc | ⟨s, hs, hc⟩
    · exact Or.inl (List.mem_singleton.1 hc)
    · exact Or.inr (mem_of_mem_splitOn (hss s hs) hc)
  unfold trimRight at h
  split_ifs at h
  · rcases List.mem_cons.1 h with rfl | h
    · exact Or.inl rfl
    · exact hjoin _ (fun s hs => List.mem_of_mem_tail (mem_of_mem_trimBlank hs)) h
  · refine hjoin _ (fun s hs => ?_) h
    rcases List.mem_append.1 hs with hs | hs
    · exact List.mem_of_mem_take hs
    · exact List.mem_of_mem_tail (mem_of_mem_trimBlank hs)

/-- What is left of a path below a prefix has the path's characters. -/
theorem mem_stripPrefix {p home r : Text} (h : stripPrefix p home = some r) {c : Char} (hc : c ∈ r) :
    c = '/' ∨ c ∈ p := by
  unfold stripPrefix at h
  split_ifs at h
  · cases h
    exact mem_trimRight hc
  · obtain ⟨ss, hss, rfl⟩ := Option.map_eq_some_iff.1 h
    rcases mem_asPath hc with hc | ⟨s, hs, hc⟩
    · exact Or.inl hc
    · exact Or.inr (mem_of_mem_splitOn (mem_of_stripBody hss hs) hc)

end Path

end Text
