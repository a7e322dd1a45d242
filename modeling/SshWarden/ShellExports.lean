import SshWarden.Lib.Shell

/-!
# Shell exports

`sshwarden env` prints the agent's endpoint as assignments in the syntax of a shell. `sh` and fish share one
escaping function although a backslash means something inside the single quotes of fish, PowerShell takes
more characters for quotes than the ASCII one, and the line for `cmd` has no quotes at all.
-/

namespace SshWarden
open Shell

/-- `shell_single_quote`. -/
def shellSingleQuote (value : Text) : Text :=
  value.flatMap fun c => if c = '\'' then ['\'', '\\', '\'', '\''] else [c]

/-- `powershell_single_quote`. -/
def powershellSingleQuote (value : Text) : Text := value.flatMap fun c => if c = '\'' then ['\'', '\''] else [c]

inductive ShellSyntax
  | posix | fish | powershell | cmd
deriving DecidableEq, Repr

namespace ShellSyntax

def ofName (shell : String) : Option ShellSyntax :=
  if shell ∈ ["sh", "bash", "zsh", "posix"] then some .posix
  else if shell = "fish" then some .fish
  else if shell ∈ ["powershell", "pwsh", "ps"] then some .powershell
  else if shell = "cmd" then some .cmd
  else none

/-- The line printed for one variable. -/
def exportLine (name endpoint : Text) : ShellSyntax → Text
  | .posix => ['e', 'x', 'p', 'o', 'r', 't', ' '] ++ (name ++ '=' :: '\'' :: (shellSingleQuote endpoint ++ ['\'']))
  | .fish =>
    ['s', 'e', 't', ' ', '-', 'g', 'x', ' '] ++ (name ++ ' ' :: '\'' :: (shellSingleQuote endpoint ++ ['\'', ';']))
  | .powershell =>
    ['$', 'e', 'n', 'v', ':'] ++ (name ++ ' ' :: '=' :: ' ' :: '\'' :: (powershellSingleQuote endpoint ++ ['\'']))
  | .cmd => ['s', 'e', 't', ' '] ++ (name ++ '=' :: endpoint)

end ShellSyntax

def authSock : Text := "SSH_AUTH_SOCK".toList

def sshwardenAuthSock : Text := "SSHWARDEN_SSH_AUTH_SOCK".toList

/-- `cmd_env`: the lines on stdout. The default endpoint is looked up also where one is configured. -/
def cmdEnv (configured : Option Text) (defaultPath : Except String Text) (shell : String) :
    Except String (List Text) :=
  match defaultPath with
  | .error e => .error e
  | .ok path => match ShellSyntax.ofName shell with
    | some sx =>
      .ok [sx.exportLine authSock (configured.getD path), sx.exportLine sshwardenAuthSock (configured.getD path)]
    | none => .error s!"Unsupported shell syntax '{shell}'. Use sh, fish, powershell, or cmd."

namespace ShellSyntax

/-- The line is an assignment of the value to the variable, and nothing else; for `cmd` wherever it is read. -/
def Assigns (line name value : Text) : ShellSyntax → Prop
  | .posix => posixExport line = some (name, value)
  | .fish => fishSet line = some (name, value)
  | .powershell => powershellAssign line = some (name, value)
  | .cmd => ∀ mode env, cmdSet mode env line = some (name, value)

/-- Every backslash comes before a character that is neither a backslash nor a single quote. -/
def backslashesAlone : Text → Bool
  | [] => true
  | c :: cs => (c ≠ '\\' || cs.head?.any fun d => d ≠ '\\' && d ≠ '\'') && backslashesAlone cs

/-- No line break, and `&`, `|`, `<`, `>` and `^` only between double quotes. -/
def cmdLiteral : Bool → Text → Bool
  | _, [] => true
  | quoted, c :: cs =>
    !isLineBreak c &&
      if c = '"' then cmdLiteral (!quoted) cs else (quoted || !isCmdSpecial c) && cmdLiteral quoted cs

/-- `cmd` takes the character as it is. -/
def isCmdLiteral (c : Char) : Bool := c ≠ '%' && !isLineBreak c && c ≠ '"' && !isCmdSpecial c

/-- The endpoints that a line of the syntax assigns as they are. -/
def Carries (endpoint : Text) : ShellSyntax → Prop
  | .posix => True
  | .fish => backslashesAlone endpoint = true
  | .powershell => ∀ c ∈ endpoint, isSingleQuote c = true → c = '\''
  | .cmd => endpoint ≠ [] ∧ '%' ∉ endpoint ∧ cmdLiteral false endpoint = true

end ShellSyntax

theorem shellSingleQuote_cons (c : Char) (cs : Text) :
    shellSingleQuote (c :: cs) = (if c = '\'' then ['\'', '\\', '\'', '\''] else [c]) ++ shellSingleQuote cs := rfl

theorem posixWord_shellSingleQuote (value : Text) :
    posixWord true (shellSingleQuote value ++ ['\'']) = some value := by
  induction value with
  | nil => rfl
  | cons c cs ih =>
    rw [shellSingleQuote_cons, List.append_assoc]
    by_cases hc : c = '\''
    · rw [if_pos hc, hc]
      simp only [List.cons_append, List.nil_append]
      rw [posixWord_close, posixWord_backslash, posixWord_open, ih, Option.map_some]
    · rw [if_neg hc, List.singleton_append, posixWord_cons hc, ih, Option.map_some]

theorem count_shellSingleQuote (value : Text) :
    (shellSingleQuote value).countP (· ≠ '\'') = value.length := by
  induction value with
  | nil => rfl
  | cons c cs ih =>
    rw [shellSingleQuote_cons, List.countP_append, ih, List.length_cons, Nat.add_comm]
    split
    · rfl
    · next hc => simp [hc]

theorem fishWord_quote (cs : Text) :
    fishWord true ('\'' :: '\\' :: '\'' :: '\'' :: cs) = (fishWord true cs).map ('\'' :: ·) := by
  rw [fishWord_close, fishWord_open_quote, fishWord_open]

/-- The rest of a quoted endpoint is read as nothing longer than it. -/
theorem length_of_fishWord_quote {value v : Text}
    (h : fishWord true (shellSingleQuote value ++ ['\'', ';']) = some v) : v.length ≤ value.length := by
  have hlen := length_of_fishWord h (by simp)
  rw [List.countP_append, count_shellSingleQuote] at hlen
  exact Nat.le_of_lt_succ hlen

theorem backslashesAlone_cons {c : Char} (hc : c ≠ '\\') (cs : Text) :
    ShellSyntax.backslashesAlone (c :: cs) = ShellSyntax.backslashesAlone cs := by
  rw [ShellSyntax.backslashesAlone]
  simp [hc]

theorem backslashesAlone_backslash (d : Char) (ds : Text) :
    ShellSyntax.backslashesAlone ('\\' :: d :: ds) =
      ((d ≠ '\\' && d ≠ '\'') && ShellSyntax.backslashesAlone (d :: ds)) := by
  rw [ShellSyntax.backslashesAlone]
  simp

theorem map_cons_eq_some_cons {c : Char} {o : Option Text} {cs : Text} :
    o.map (c :: ·) = some (c :: cs) ↔ o = some cs := by
  simp

theorem fishWord_shellSingleQuote (value : Text) :
    fishWord true (shellSingleQuote value ++ ['\'', ';']) = some value ↔
      ShellSyntax.backslashesAlone value = true := by
  induction value with
  | nil => exact ⟨fun _ => rfl, fun _ => by decide⟩
  | cons c cs ih =>
    rw [shellSingleQuote_cons, List.append_assoc]
    by_cases hq : c = '\''
    · rw [if_pos hq, hq, backslashesAlone_cons (by decide), ← ih]
      simp only [List.cons_append, List.nil_append]
      rw [fishWord_quote, map_cons_eq_some_cons]
    rw [if_neg hq, List.singleton_append]
    by_cases hb : c = '\\'
    · subst hb
      cases cs with
      | nil => exact ⟨fun h => absurd h (by decide), fun h => absurd h (by decide)⟩
      | cons d ds =>
        rw [backslashesAlone_backslash]
        by_cases hdb : d = '\\'
        · -- one backslash is read for two: the rest is too short
          subst hdb
          refine ⟨fun h => ?_, fun h => absurd h (by simp)⟩
          rw [shellSingleQuote_cons, if_neg (by decide), List.singleton_append, List.cons_append,
            fishWord_escape (.inl rfl), map_cons_eq_some_cons] at h
          exact absurd (length_of_fishWord_quote h) (Nat.not_succ_le_self _)
        by_cases hdq : d = '\''
        · -- the quote is read where the backslash stands
          subst hdq
          refine ⟨fun h => ?_, fun h => absurd h (by simp)⟩
          rw [shellSingleQuote_cons, if_pos rfl] at h
          simp only [List.cons_append, List.nil_append] at h
          rw [fishWord_escape (.inr rfl)] at h
          obtain ⟨w, -, hw⟩ := Option.map_eq_some_iff.1 h
          exact absurd (List.cons.inj hw).1 (by decide)
        · have hrest : (d ≠ '\\' && d ≠ '\'') = true := by simp [hdb, hdq]
          rw [hrest, Bool.true_and, ← ih, shellSingleQuote_cons, if_neg hdq, List.singleton_append,
            List.cons_append,
            fishWord_backslash hdb hdq, map_cons_eq_some_cons]
    · rw [fishWord_cons hb hq, map_cons_eq_some_cons, ih, backslashesAlone_cons hb]

theorem powershellSingleQuote_cons (c : Char) (cs : Text) :
    powershellSingleQuote (c :: cs) = (if c = '\'' then ['\'', '\''] else [c]) ++ powershellSingleQuote cs := rfl

/-- A quote character of PowerShell that is left as it is. -/
def isOtherQuote (c : Char) : Bool := isSingleQuote c && c ≠ '\''

theorem length_powershellSingleQuote (value : Text) :
    (powershellSingleQuote value).length + (powershellSingleQuote value).countP (fun c => !isSingleQuote c) +
      value.countP isOtherQuote = 2 * value.length := by
  induction value with
  | nil => rfl
  | cons c cs ih =>
    rw [powershellSingleQuote_cons, List.length_append, List.countP_append, List.countP_cons, List.length_cons]
    by_cases hc : c = '\''
    · have hquote : isSingleQuote '\'' = true := by decide
      subst hc
      simp only [isOtherQuote, if_true, List.length_cons, List.length_nil, List.countP_cons,
        List.countP_nil, hquote,
        Bool.not_true, Bool.false_eq_true, if_false, ne_eq, not_true, decide_false, Bool.and_false]
      omega
    · rw [if_neg hc]
      cases hquote : isSingleQuote c <;> simp [isOtherQuote, hquote, hc] <;> omega

theorem verbatim_quote (cs : Text) : verbatim ('\'' :: '\'' :: cs) = (verbatim cs).map ('\'' :: ·) := by
  have hquote : isSingleQuote '\'' = true := by decide
  rw [verbatim, if_pos hquote, if_pos hquote]

theorem verbatim_cons {c : Char} (hc : isSingleQuote c = false) {cs : Text} (hne : cs ≠ []) :
    verbatim (c :: cs) = (verbatim cs).map (c :: ·) := by
  cases cs with
  | nil => exact absurd rfl hne
  | cons d ds => rw [verbatim, if_neg (by rw [hc]; decide)]

theorem verbatim_powershellSingleQuote (value : Text) :
    verbatim (powershellSingleQuote value ++ ['\'']) = some value ↔
      ∀ c ∈ value, isSingleQuote c = true → c = '\'' := by
  constructor
  · intro h
    have hread := length_of_verbatim h
    have hwritten := length_powershellSingleQuote value
    have hend : ['\''].countP (fun c => !isSingleQuote c) = 0 := by decide
    rw [List.length_append, List.countP_append, hend, List.length_singleton] at hread
    have hnone : value.countP isOtherQuote = 0 := by omega
    intro c hc hquote
    have hother := List.countP_eq_zero.1 hnone c hc
    simpa [isOtherQuote, hquote] using hother
  · intro h
    induction value with
    | nil => rfl
    | cons c cs ih =>
      have hcs := ih fun d hd => h d (List.mem_cons_of_mem _ hd)
      rw [powershellSingleQuote_cons, List.append_assoc]
      by_cases hc : c = '\''
      · rw [if_pos hc, hc]
        simp only [List.cons_append, List.nil_append]
        rw [verbatim_quote, hcs, Option.map_some]
      · have hquote : isSingleQuote c = false := Bool.eq_false_iff.2 fun hq => hc (h c (List.mem_cons_self ..) hq)
        rw [if_neg hc, List.singleton_append, verbatim_cons hquote (by simp), hcs, Option.map_some]

theorem cmdText_caret (ds : Text) : cmdText false ('^' :: ds) ≠ some ('^' :: ds) := by
  intro h
  rw [cmdText.eq_def] at h
  cases ds with
  | nil => exact absurd h (by decide)
  | cons d ds =>
    have hbreak : isLineBreak '^' = false := by decide
    simp only [hbreak, Bool.false_eq_true, if_false, Char.reduceEq, true_and, if_true] at h
    -- a caret is dropped, and what is left of the line is too short
    obtain ⟨w, hw, heq⟩ := Option.map_eq_some_iff.1 h
    have hlen := length_of_cmdText hw
    have hsame := congrArg List.length heq
    simp only [List.length_cons] at hsame
    omega

theorem cmdText_eq_self (quoted : Bool) (l : Text) :
    cmdText quoted l = some l ↔ ShellSyntax.cmdLiteral quoted l = true := by
  induction l generalizing quoted with
  | nil => exact ⟨fun _ => rfl, fun _ => rfl⟩
  | cons c cs ih =>
    by_cases hcaret : quoted = false ∧ c = '^'
    · obtain ⟨rfl, rfl⟩ := hcaret
      have hlit : ShellSyntax.cmdLiteral false ('^' :: cs) = false := by
        rw [ShellSyntax.cmdLiteral]
        simp [isCmdSpecial]
      rw [hlit]
      exact ⟨fun h => absurd h (cmdText_caret cs), fun h => nomatch h⟩
    rw [cmdText.eq_def, ShellSyntax.cmdLiteral]
    dsimp only
    cases hbreak : isLineBreak c with
    | true => simp
    | false =>
      by_cases hq : c = '"'
      · simp [hq, ← ih]
      · cases quoted with
        | true => simp [hq, ← ih]
        | false =>
          have hc : c ≠ '^' := fun he => hcaret ⟨rfl, he⟩
          cases hs : isCmdSpecial c <;> simp [hq, hc, ← ih]

theorem cmdText_append {front : Text} (h : ∀ c ∈ front, ShellSyntax.isCmdLiteral c = true) (l : Text) :
    cmdText false (front ++ l) = (cmdText false l).map (front ++ ·) := by
  induction front with
  | nil => simp
  | cons c cs ih =>
    have hlit := h c (List.mem_cons_self ..)
    simp only [ShellSyntax.isCmdLiteral, Bool.and_eq_true, Bool.not_eq_true', decide_eq_true_eq] at hlit
    obtain ⟨⟨⟨-, hbreak⟩, hq⟩, hs⟩ := hlit
    have hc : c ≠ '^' := fun he => absurd hs (by rw [he]; decide)
    rw [List.cons_append, cmdText.eq_def]
    simp [hbreak, hq, hc, hs, ih fun d hd => h d (List.mem_cons_of_mem _ hd), Function.comp_def]

/-! ### What the lines assign -/

namespace ShellSyntax

def isNameChar (c : Char) : Bool := c.isAlphanum || c = '_'

variable {name : Text}

theorem ne_of_isNameChar {c d : Char} (hc : isNameChar c = true) (hd : isNameChar d = false) : c ≠ d := fun he =>
  absurd hc (by rw [he, hd]; decide)

theorem not_mem_name (hname : ∀ c ∈ name, isNameChar c = true) {c : Char} (hc : isNameChar c = false) : c ∉ name :=
  fun hmem => ne_of_isNameChar (hname c hmem) hc rfl

theorem isCmdLiteral_of_isNameChar {c : Char} (hc : isNameChar c = true) : isCmdLiteral c = true := by
  have hne {d : Char} (hd : isNameChar d = false) : c ≠ d := ne_of_isNameChar hc hd
  have hbreak : isLineBreak c = false := by
    simp [isLineBreak, hne (d := '\n') (by decide), hne (d := '\r') (by decide)]
  have hspecial : isCmdSpecial c = false := by
    simp [isCmdSpecial, hne (d := '&') (by decide), hne (d := '|') (by decide), hne (d := '<') (by decide),
      hne (d := '>') (by decide), hne (d := '^') (by decide)]
  simp [isCmdLiteral, hbreak, hspecial, hne (d := '%') (by decide), hne (d := '"') (by decide)]

/-- The line of `cmd` up to the endpoint. -/
def cmdFront (name : Text) : Text := ['s', 'e', 't', ' '] ++ name ++ ['=']

theorem isCmdLiteral_of_mem_cmdFront (hname : ∀ c ∈ name, isNameChar c = true) {c : Char}
    (hc : c ∈ cmdFront name) :
    isCmdLiteral c = true := by
  rw [cmdFront, List.mem_append, List.mem_append] at hc
  obtain (hc | hc) | hc := hc
  · exact List.all_eq_true.1 (by decide : ['s', 'e', 't', ' '].all isCmdLiteral = true) c hc
  · exact isCmdLiteral_of_isNameChar (hname c hc)
  · obtain rfl := List.mem_singleton.1 hc
    decide

theorem cmd_exportLine (name endpoint : Text) :
    ShellSyntax.cmd.exportLine name endpoint = cmdFront name ++ endpoint := by
  simp [exportLine, cmdFront]

theorem map_pair_eq {o : Option Text} {value : Text} : (o.map fun v => (name, v)) = some (name, value) ↔
    o = some value := by
  simp

theorem cmdSet_iff (hname : ∀ c ∈ name, isNameChar c = true) (mode : CmdMode) (env : CmdEnv) (endpoint : Text) :
    cmdSet mode env (ShellSyntax.cmd.exportLine name endpoint) = some (name, endpoint) ↔
      cmdText false (expand env mode none endpoint) = some endpoint ∧ endpoint ≠ [] := by
  have hpercent : '%' ∉ cmdFront name := fun hmem => absurd (isCmdLiteral_of_mem_cmdFront hname hmem) (by decide)
  rw [cmdSet, cmd_exportLine, expand_append env mode hpercent,
    cmdText_append fun c hc => isCmdLiteral_of_mem_cmdFront hname hc]
  cases cmdText false (expand env mode none endpoint) with
  | none => simp
  | some value =>
    rw [Option.map_some, Option.bind_some, ← cmd_exportLine, exportLine,
      assignment_append (not_mem_name hname (by decide)), map_pair_eq]
    by_cases hv : value = []
    · rw [if_pos hv, hv]
      exact ⟨fun h => (nomatch h), fun h => absurd (Option.some.inj h.1).symm h.2⟩
    · rw [if_neg hv]
      exact ⟨fun h => ⟨h, fun he => hv ((Option.some.inj h).trans he)⟩, fun h => h.1⟩

theorem assigns_exportLine_iff (hname : ∀ c ∈ name, isNameChar c = true) (endpoint : Text)
    (sx : ShellSyntax) : sx.Assigns (sx.exportLine name endpoint) name endpoint ↔ sx.Carries endpoint := by
  cases sx with
  | posix =>
    rw [Assigns, posixExport, exportLine, assignment_append (not_mem_name hname (by decide)), map_pair_eq,
      posixWord_open]
    exact ⟨fun _ => trivial, fun _ => posixWord_shellSingleQuote endpoint⟩
  | fish =>
    rw [Assigns, fishSet, exportLine, assignment_append (not_mem_name hname (by decide)), map_pair_eq,
      fishWord_open]
    exact fishWord_shellSingleQuote endpoint
  | powershell =>
    rw [Assigns, powershellAssign, exportLine, assignment_append (not_mem_name hname (by decide)), map_pair_eq]
    exact verbatim_powershellSingleQuote endpoint
  | cmd =>
    constructor
    · intro h
      have hne := ((cmdSet_iff hname .batch bareEnv endpoint).1 (h .batch bareEnv)).2
      have hpercent : '%' ∉ endpoint := fun hmem => by
        have hread := ((cmdSet_iff hname .batch bareEnv endpoint).1 (h .batch bareEnv)).1
        exact absurd (length_of_cmdText hread) (Nat.not_le_of_lt (length_expand_lt hmem))
      have htext := ((cmdSet_iff hname .batch bareEnv endpoint).1 (h .batch bareEnv)).1
      rw [expand_of_no_percent _ _ hpercent] at htext
      exact ⟨hne, hpercent, (cmdText_eq_self false endpoint).1 htext⟩
    · rintro ⟨hne, hpercent, hlit⟩ mode env
      refine (cmdSet_iff hname mode env endpoint).2 ⟨?_, hne⟩
      rw [expand_of_no_percent _ _ hpercent]
      exact (cmdText_eq_self false endpoint).2 hlit

end ShellSyntax

/-- The lines printed assign the endpoint to both variables, and do nothing else. -/
def ExportsEndpoint (sx : ShellSyntax) (lines : List Text) (endpoint : Text) : Prop :=
  ∃ first second, lines = [first, second] ∧ sx.Assigns first authSock endpoint ∧
    sx.Assigns second sshwardenAuthSock endpoint

theorem isNameChar_of_mem_authSock : ∀ c ∈ authSock, ShellSyntax.isNameChar c = true :=
  List.all_eq_true.1 (by decide)

theorem isNameChar_of_mem_sshwardenAuthSock : ∀ c ∈ sshwardenAuthSock, ShellSyntax.isNameChar c = true :=
  List.all_eq_true.1 (by decide)

/-- The lines printed for a shell assign the endpoint as it is exactly for the endpoints that its syntax
carries. -/
theorem exports_endpoint_iff {configured : Option Text} {path : Text} {shell : String} {sx : ShellSyntax}
    (hshell : ShellSyntax.ofName shell = some sx) :
    ∃ lines, cmdEnv configured (.ok path) shell = .ok lines ∧
      (ExportsEndpoint sx lines (configured.getD path) ↔ sx.Carries (configured.getD path)) := by
  refine ⟨_, by rw [cmdEnv, hshell], ?_⟩
  constructor
  · rintro ⟨first, second, hlines, hfirst, -⟩
    obtain ⟨rfl, -⟩ := List.cons.inj hlines
    exact (ShellSyntax.assigns_exportLine_iff isNameChar_of_mem_authSock _ sx).1 hfirst
  · intro hcarries
    exact ⟨_, _, rfl, (ShellSyntax.assigns_exportLine_iff isNameChar_of_mem_authSock _ sx).2 hcarries,
      (ShellSyntax.assigns_exportLine_iff isNameChar_of_mem_sshwardenAuthSock _ sx).2 hcarries⟩

/-- The default endpoint on Windows. -/
def agentPipe : Text := "\\\\.\\pipe\\openssh-ssh-agent".toList

theorem exports_endpoint_cmd : ∃ lines, cmdEnv none (.ok agentPipe) "cmd" = .ok lines ∧
    (ExportsEndpoint .cmd lines agentPipe ↔ ShellSyntax.cmd.Carries agentPipe) :=
  exports_endpoint_iff (by decide)

/-- fish reads the two backslashes of a pipe as one. -/
theorem fish_shortens_pipe : ¬∀ (shell : String) (sx : ShellSyntax) (endpoint : Text) (lines : List Text),
    ShellSyntax.ofName shell = some sx → '\n' ∉ endpoint → '\r' ∉ endpoint →
    cmdEnv none (.ok endpoint) shell = .ok lines → ExportsEndpoint sx lines endpoint := by
  intro hall
  obtain ⟨first, second, hlines, hfirst, -⟩ :=
    hall "fish" .fish agentPipe [_, _] (by decide) (by decide) (by decide +kernel) rfl
  obtain ⟨rfl, -⟩ := List.cons.inj hlines
  have hcarries : ShellSyntax.backslashesAlone agentPipe = true :=
    (ShellSyntax.assigns_exportLine_iff isNameChar_of_mem_authSock agentPipe .fish).1 hfirst
  exact absurd hcarries (by decide)

end SshWarden
