import SshWarden.Lib.Text

/-!
# Assignments in four command languages

What a line assigns to which variable, where it is one assignment and nothing else; `none` is a line that is
not finished, or in which something stands that has another meaning.
-/

namespace Shell

/-- Characters that stand for themselves outside quotes. -/
def isPlain (c : Char) : Bool := c.isAlphanum || c ∈ ['_', '-', '.', '/', ':', ',', '+', '@', '%', '=', '^']

/-- Cut at the first occurrence of a character. -/
def cutAt (sep : Char) (line : Text) : Option (Text × Text) :=
  match line.dropWhile (· ≠ sep) with
  | [] => none
  | _ :: rest => some (line.takeWhile (· ≠ sep), rest)

/-- A command that starts with `front`, a name and `sep`; the value is read from what follows. -/
def assignment (front : Text) (sep : Char) (value : Text → Option Text) (line : Text) : Option (Text × Text) :=
  (Text.stripPrefix? front line).bind fun rest =>
    (cutAt sep rest).bind fun r => (value r.2).map fun v => (r.1, v)

/-- A word to the end of the line, inside single quotes (`true`) or outside. -/
def posixWord : Bool → Text → Option Text
  | true, [] => none
  | true, c :: cs => if c = '\'' then posixWord false cs else (posixWord true cs).map (c :: ·)
  | false, [] => some []
  | false, c :: cs =>
    if c = '\'' then posixWord true cs
    else if c = '\\' then match cs with
      | [] => none
      | d :: ds => (posixWord false ds).map (d :: ·)
    else if isPlain c then (posixWord false cs).map (c :: ·) else none

def posixExport : Text → Option (Text × Text) :=
  assignment ['e', 'x', 'p', 'o', 'r', 't', ' '] '=' (posixWord false)

/-- What a backslash and a character stand for outside quotes; numeric escapes are left out. -/
def fishEscape (c : Char) : Option Char :=
  match c with
  | 'a' => some '\x07' | 'b' => some '\x08' | 'e' => some '\x1b' | 'f' => some '\x0c'
  | 'n' => some '\n' | 'r' => some '\r' | 't' => some '\t' | 'v' => some '\x0b'
  | c => if c.isAlphanum then none else some c

/-- A word to the semicolon at the end of the line. Inside single quotes a backslash takes a backslash or a
single quote literally, and stands for itself before any other character. -/
def fishWord : Bool → Text → Option Text
  | true, [] => none
  | true, c :: cs =>
    if c = '\'' then fishWord false cs
    else if c = '\\' then match cs with
      | [] => none
      | d :: ds =>
        if d = '\\' ∨ d = '\'' then (fishWord true ds).map (d :: ·) else (fishWord true (d :: ds)).map (c :: ·)
    else (fishWord true cs).map (c :: ·)
  | false, [] => some []
  | false, c :: cs =>
    if c = '\'' then fishWord true cs
    else if c = '\\' then match cs with
      | [] => none
      | d :: ds => (fishEscape d).bind fun x => (fishWord false ds).map (x :: ·)
    else if c = ';' then if cs = [] then some [] else none
    else if isPlain c then (fishWord false cs).map (c :: ·) else none

def fishSet : Text → Option (Text × Text) :=
  assignment ['s', 'e', 't', ' ', '-', 'g', 'x', ' '] ' ' (fishWord false)

/-- The quote characters around and inside a verbatim string. -/
def isSingleQuote (c : Char) : Bool := c ∈ ['\'', '\u2018', '\u2019', '\u201a', '\u201b']

/-- A verbatim string after its opening quote, to the end of the line: two quote characters are one of the
string. -/
def verbatim : Text → Option Text
  | [] => none
  | [c] => if isSingleQuote c then some [] else none
  | c :: d :: cs =>
    if isSingleQuote c then if isSingleQuote d then (verbatim cs).map (d :: ·) else none
    else (verbatim (d :: cs)).map (c :: ·)

def powershellAssign : Text → Option (Text × Text) :=
  assignment ['$', 'e', 'n', 'v', ':'] ' ' fun rest => (Text.stripPrefix? ['=', ' ', '\''] rest).bind verbatim

/-- A line is typed, or read from a batch file. -/
inductive CmdMode
  | commandLine
  | batch
deriving DecidableEq, Repr

/-- What stands between two percent signs, by the environment, and the arguments of a batch file. -/
structure CmdEnv where
  lookup : Text → Option Text
  argument : Char → Text

/-- Percent expansion; `some name` is what has been read since a percent sign. An undefined variable is
kept on the command line and empty in a batch file, where a percent sign without another is dropped. -/
def expand (env : CmdEnv) : CmdMode → Option Text → Text → Text
  | _, none, [] => []
  | mode, none, c :: cs => if c = '%' then expand env mode (some []) cs else c :: expand env mode none cs
  | .commandLine, some name, [] => '%' :: name
  | .batch, some name, [] => name
  | .commandLine, some name, c :: cs =>
    if c = '%' then match env.lookup name with
      | some value => value ++ expand env .commandLine none cs
      | none => '%' :: name ++ expand env .commandLine (some []) cs
    else expand env .commandLine (some (name ++ [c])) cs
  | .batch, some name, c :: cs =>
    if c = '%' then
      (if name = [] then ['%'] else (env.lookup name).getD []) ++ expand env .batch none cs
    else if name = [] ∧ (c.isDigit ∨ c = '*') then env.argument c ++ expand env .batch none cs
    else expand env .batch (some (name ++ [c])) cs

/-- The characters that separate, pipe, redirect and escape outside double quotes. -/
def isCmdSpecial (c : Char) : Bool := c ∈ ['&', '|', '<', '>', '^']

def isLineBreak (c : Char) : Bool := c = '\n' || c = '\r'

/-- The text of a single command, inside double quotes (`true`) or outside; the quotes stay. -/
def cmdText : Bool → Text → Option Text
  | _, [] => some []
  | quoted, c :: cs =>
    if isLineBreak c then none
    else if c = '"' then (cmdText (!quoted) cs).map (c :: ·)
    else if quoted = false ∧ c = '^' then match cs with
      | [] => none
      | d :: ds => (cmdText false ds).map (d :: ·)
    else if quoted = false ∧ isCmdSpecial c then none
    else (cmdText quoted cs).map (c :: ·)

/-- `set NAME=value`, where no value removes the variable. -/
def cmdSet (mode : CmdMode) (env : CmdEnv) (line : Text) : Option (Text × Text) :=
  (cmdText false (expand env mode none line)).bind
    (assignment ['s', 'e', 't', ' '] '=' fun value => if value = [] then none else some value)

/-! ### Reading an assignment -/

theorem cutAt_append {sep : Char} {name : Text} (h : sep ∉ name) (rest : Text) :
    cutAt sep (name ++ sep :: rest) = some (name, rest) := by
  have hname : ∀ c ∈ name, decide (c ≠ sep) = true := fun c hc => decide_eq_true fun he => h (he ▸ hc)
  rw [cutAt, List.dropWhile_append_of_pos hname, List.takeWhile_append_of_pos hname]
  simp

theorem assignment_append {sep : Char} {name : Text} (h : sep ∉ name) (front : Text) (value : Text → Option Text)
    (rest : Text) : assignment front sep value (front ++ (name ++ sep :: rest)) = (value rest).map fun v =>
      (name, v) := by
  rw [assignment, Text.stripPrefix?_append, Option.bind_some, cutAt_append h, Option.bind_some]

theorem posixWord_close (cs : Text) : posixWord true ('\'' :: cs) = posixWord false cs := rfl

theorem posixWord_open (cs : Text) : posixWord false ('\'' :: cs) = posixWord true cs := by
  cases cs <;> rfl

theorem posixWord_backslash (d : Char) (cs : Text) :
    posixWord false ('\\' :: d :: cs) = (posixWord false cs).map (d :: ·) := rfl

theorem posixWord_cons {c : Char} (h : c ≠ '\'') (cs : Text) :
    posixWord true (c :: cs) = (posixWord true cs).map (c :: ·) := by
  show (if c = '\'' then _ else _) = _
  rw [if_neg h]

theorem fishWord_close (cs : Text) : fishWord true ('\'' :: cs) = fishWord false cs := by
  cases cs <;> rfl

theorem fishWord_open (cs : Text) : fishWord false ('\'' :: cs) = fishWord true cs := by
  cases cs <;> rfl

theorem fishWord_open_quote (cs : Text) :
    fishWord false ('\\' :: '\'' :: cs) = (fishWord false cs).map ('\'' :: ·) := rfl

theorem fishWord_cons {c : Char} (hb : c ≠ '\\') (hq : c ≠ '\'') (cs : Text) :
    fishWord true (c :: cs) = (fishWord true cs).map (c :: ·) := by
  cases cs with
  | nil =>
    show (if c = '\'' then _ else if c = '\\' then _ else _) = _
    rw [if_neg hq, if_neg hb]
  | cons d ds =>
    show (if c = '\'' then _ else if c = '\\' then _ else _) = _
    rw [if_neg hq, if_neg hb]

theorem fishWord_backslash {d : Char} (hb : d ≠ '\\') (hq : d ≠ '\'') (cs : Text) :
    fishWord true ('\\' :: d :: cs) = (fishWord true (d :: cs)).map ('\\' :: ·) := by
  show (if d = '\\' ∨ d = '\'' then _ else _) = _
  rw [if_neg (not_or.2 ⟨hb, hq⟩)]

theorem fishWord_escape {d : Char} (hd : d = '\\' ∨ d = '\'') (cs : Text) :
    fishWord true ('\\' :: d :: cs) = (fishWord true cs).map (d :: ·) := by
  show (if d = '\\' ∨ d = '\'' then _ else _) = _
  rw [if_pos hd]

theorem countP_cons_ge (p : Char → Bool) (c : Char) (cs : Text) : cs.countP p ≤ (c :: cs).countP p := by
  rw [List.countP_cons]
  exact Nat.le_add_right ..

theorem countP_cons_succ {p : Char → Bool} {c : Char} (h : p c = true) (cs : Text) :
    (c :: cs).countP p = cs.countP p + 1 := List.countP_cons_of_pos h

theorem getLast?_of_cons {c d : Char} {cs : Text} (h : (c :: cs).getLast? = some d) (hne : cs ≠ []) :
    cs.getLast? = some d := by
  cases cs with
  | nil => exact absurd rfl hne
  | cons e es => rwa [List.getLast?_cons_cons] at h

theorem fishWord_true_ne_nil {cs v : Text} (h : fishWord true cs = some v) : cs ≠ [] := fun he => by
  rw [he] at h
  cases h

/-- The quotes of a word of fish give nothing, or one character together with a backslash. -/
theorem length_of_fishWord {q : Bool} {l v : Text} (h : fishWord q l = some v) (hend : l.getLast? = some ';') :
    v.length < l.countP (· ≠ '\'') := by
  have hback : decide ('\\' ≠ '\'') = true := by decide
  fun_induction fishWord q l generalizing v with
  | case1 | case3 | case9 | case12 | case14 => cases h
  | case7 => cases hend
  | case2 cs ih | case8 cs ih =>
    have hne : cs ≠ [] := fun he => by rw [he] at hend; cases hend
    exact (ih h (getLast?_of_cons hend hne)).trans_le (countP_cons_ge ..)
  | case4 d cs _ _ ih =>
    obtain ⟨w, hw, rfl⟩ := Option.map_eq_some_iff.1 h
    have hcs := getLast?_of_cons (getLast?_of_cons hend (List.cons_ne_nil d cs)) (fishWord_true_ne_nil hw)
    rw [countP_cons_succ hback]
    exact Nat.succ_lt_succ ((ih hw hcs).trans_le (countP_cons_ge ..))
  | case5 d cs _ _ ih =>
    obtain ⟨w, hw, rfl⟩ := Option.map_eq_some_iff.1 h
    rw [countP_cons_succ hback]
    exact Nat.succ_lt_succ (ih hw (getLast?_of_cons hend (List.cons_ne_nil d cs)))
  | case6 c cs hc _ ih =>
    obtain ⟨w, hw, rfl⟩ := Option.map_eq_some_iff.1 h
    rw [countP_cons_succ (decide_eq_true hc)]
    exact Nat.succ_lt_succ (ih hw (getLast?_of_cons hend (fishWord_true_ne_nil hw)))
  | case10 d cs _ ih =>
    obtain ⟨x, -, hx⟩ := Option.bind_eq_some_iff.1 h
    obtain ⟨w, hw, rfl⟩ := Option.map_eq_some_iff.1 hx
    rw [countP_cons_succ hback]
    refine Nat.succ_lt_succ ?_
    by_cases hne : cs = []
    · -- the semicolon itself stands after the backslash
      subst hne
      obtain rfl := Option.some.inj hw
      obtain rfl := Option.some.inj hend
      decide
    · exact (ih hw (getLast?_of_cons (getLast?_of_cons hend (List.cons_ne_nil d cs)) hne)).trans_le
        (countP_cons_ge ..)
  | case11 =>
    obtain rfl := Option.some.inj h
    decide
  | case13 c cs hc _ hsemi _ ih =>
    obtain ⟨w, hw, rfl⟩ := Option.map_eq_some_iff.1 h
    have hne : cs ≠ [] := fun he => by rw [he] at hend; exact hsemi (Option.some.inj hend)
    rw [countP_cons_succ (decide_eq_true hc)]
    exact Nat.succ_lt_succ (ih hw (getLast?_of_cons hend hne))

theorem length_of_verbatim {l v : Text} (h : verbatim l = some v) :
    2 * v.length + 1 = l.length + l.countP (fun c => !isSingleQuote c) := by
  fun_induction verbatim l generalizing v with
  | case1 => cases h
  | case2 c hc => 
    obtain rfl := Option.some.inj h
    simp [hc]
  | case3 c hc => cases h
  | case4 c d cs hc hd ih =>
    obtain ⟨w, hw, rfl⟩ := Option.map_eq_some_iff.1 h
    have hlen := ih hw
    simp only [List.length_cons, List.countP_cons, hc, hd, Bool.not_true, Bool.false_eq_true, if_false]
    omega
  | case5 c d cs hc hd => cases h
  | case6 c d cs hc ih =>
    obtain ⟨w, hw, rfl⟩ := Option.map_eq_some_iff.1 h
    have hlen := ih hw
    simp only [List.length_cons, List.countP_cons, hc] at hlen ⊢
    simp only [Bool.not_false, if_true]
    omega

theorem length_of_cmdText {q : Bool} {l v : Text} (h : cmdText q l = some v) : v.length ≤ l.length := by
  fun_induction cmdText q l generalizing v with
  | case1 =>
    obtain rfl := Option.some.inj h
    exact Nat.le_refl _
  | case2 | case4 | case6 => cases h
  | case3 _ _ _ ih =>
    obtain ⟨w, hw, rfl⟩ := Option.map_eq_some_iff.1 h
    exact Nat.succ_le_succ (ih hw)
  | case5 =>
    rename_i ih
    obtain ⟨w, hw, rfl⟩ := Option.map_eq_some_iff.1 h
    exact Nat.succ_le_succ ((ih hw).trans (Nat.le_succ _))
  | case7 =>
    rename_i ih
    obtain ⟨w, hw, rfl⟩ := Option.map_eq_some_iff.1 h
    exact Nat.succ_le_succ (ih hw)

theorem expand_of_no_percent (env : CmdEnv) (mode : CmdMode) {l : Text} (h : '%' ∉ l) :
    expand env mode none l = l := by
  induction l with
  | nil => cases mode <;> rfl
  | cons c cs ih =>
    rw [List.mem_cons, not_or] at h
    have hc : ¬c = '%' := Ne.symm h.1
    cases mode <;> rw [expand, if_neg hc, ih h.2]

theorem expand_append (env : CmdEnv) (mode : CmdMode) {front : Text} (h : '%' ∉ front) (l : Text) :
    expand env mode none (front ++ l) = front ++ expand env mode none l := by
  induction front with
  | nil => rfl
  | cons c cs ih =>
    rw [List.mem_cons, not_or] at h
    have hc : ¬c = '%' := Ne.symm h.1
    cases mode <;> rw [List.cons_append, expand, if_neg hc, ih h.2] <;> rfl

/-- No variables and no arguments. -/
def bareEnv : CmdEnv := ⟨fun _ => none, fun _ => []⟩

theorem length_expand_bareEnv (name : Option Text) (l : Text) :
    (expand bareEnv .batch name l).length ≤ (name.getD []).length + l.length := by
  induction l generalizing name with
  | nil => cases name <;> simp [expand]
  | cons c cs ih =>
    cases name with
    | none =>
      rw [expand]
      split
      · exact (ih (some [])).trans (Nat.add_le_add_left (Nat.le_succ _) _)
      · exact Nat.succ_le_succ ((ih none).trans (by simp))
    | some name =>
      rw [expand]
      split
      · have hcs := ih none
        simp only [Option.getD_none, List.length_nil, Nat.zero_add] at hcs
        have hgiven : (if name = [] then ['%'] else (bareEnv.lookup name).getD []).length ≤ name.length + 1 := by
          split <;> simp [bareEnv]
        simp only [List.length_append, List.length_cons, Option.getD_some]
        omega
      · split
        · have hcs := ih none
          simp only [Option.getD_none, Option.getD_some, List.length_nil, List.length_cons] at hcs ⊢
          exact hcs.trans (by omega)
        · have hcs := ih (some (name ++ [c]))
          simp only [Option.getD_some, List.length_append, List.length_cons, List.length_nil] at hcs ⊢
          omega

/-- In a batch file every percent sign costs a character. -/
theorem length_expand_lt {l : Text} (h : '%' ∈ l) : (expand bareEnv .batch none l).length < l.length := by
  induction l with
  | nil => cases h
  | cons c cs ih =>
    by_cases hc : c = '%'
    · have hle := length_expand_bareEnv (some []) cs
      rw [expand, if_pos hc]
      simp only [Option.getD_some, List.length_nil, Nat.zero_add] at hle
      exact Nat.lt_succ_of_le hle
    · have hcs : '%' ∈ cs := (List.mem_cons.1 h).resolve_left (Ne.symm hc)
      rw [expand, if_neg hc]
      exact Nat.succ_lt_succ (ih hcs)

end Shell
