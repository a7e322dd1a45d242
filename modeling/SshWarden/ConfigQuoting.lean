import SshWarden.IncludeLine
import SshWarden.Lib.Components

/-!
# Quoted arguments of the SSH config

Paths are written to the SSH config between double quotes, with a backslash before each backslash and each double
quote. Reading such an argument gives the path back, so that an Include line names one path: the line for one
absolute path is taken for the line of another one only where the two are the same path.
-/

namespace SshWarden
open Text.Path (components)

def isEscapable (c : Char) : Bool := c = '\\' || c = '"'

/-- Up to the closing quote, a backslash escapes a backslash or a double quote behind it. -/
def readQuotedBody : Text → Option (Text × Text)
  | [] => none
  | [c] => if c = '"' then some ([], []) else none
  | c :: d :: cs =>
    if c = '"' then some ([], d :: cs)
    else if c = '\\' && isEscapable d then (readQuotedBody cs).map fun r => (d :: r.1, r.2)
    else (readQuotedBody (d :: cs)).map fun r => (c :: r.1, r.2)

/-- The value of a quoted argument, and the text behind it. -/
def readQuoted : Text → Option (Text × Text)
  | [] => none
  | c :: cs => if c = '"' then readQuotedBody cs else none

/-- The places of the double quotes that no backslash escapes. -/
def unescapedQuotes (i : Nat) : Text → List Nat
  | [] => []
  | [c] => if c = '"' then [i] else []
  | c :: d :: cs =>
    if c = '\\' && isEscapable d then unescapedQuotes (i + 2) cs
    else if c = '"' then i :: unescapedQuotes (i + 1) (d :: cs)
    else unescapedQuotes (i + 1) (d :: cs)

/-- The argument is one quoted token, and the value is read back from it. -/
structure FaithfulToken (value : Text) : Prop where
  quotes : unescapedQuotes 0 (quoteSshConfigArg value) = [0, (quoteSshConfigArg value).length - 1]
  read_back : ∀ rest, readQuoted (quoteSshConfigArg value ++ rest) = some (value, rest)

theorem readQuotedBody_quote (rest : Text) : readQuotedBody ('"' :: rest) = some ([], rest) := by
  cases rest <;> rfl

/-- One character of the value is read from what it was written as. -/
theorem readQuotedBody_quoteChar (c : Char) (rest : Text) :
    readQuotedBody (quoteChar c ++ rest) = (readQuotedBody rest).map fun r => (c :: r.1, r.2) := by
  by_cases hquote : c = '"'
  · subst hquote
    rfl
  by_cases hbackslash : c = '\\'
  · subst hbackslash
    rfl
  · have hchar : quoteChar c = [c] := by rw [quoteChar, if_neg hquote, if_neg hbackslash]
    rw [hchar, List.singleton_append]
    cases rest with
    | nil => exact if_neg hquote
    | cons d rest => rw [readQuotedBody, if_neg hquote, if_neg (by simp [hbackslash])]

theorem readQuotedBody_flatMap (value rest : Text) :
    readQuotedBody (value.flatMap quoteChar ++ '"' :: rest) = some (value, rest) := by
  induction value with
  | nil => exact readQuotedBody_quote rest
  | cons c value ih =>
    rw [List.flatMap_cons, List.append_assoc, readQuotedBody_quoteChar, ih]
    rfl

theorem readQuoted_quoteSshConfigArg (value rest : Text) :
    readQuoted (quoteSshConfigArg value ++ rest) = some (value, rest) := by
  have harg : quoteSshConfigArg value ++ rest = '"' :: (value.flatMap quoteChar ++ '"' :: rest) := by
    simp [quoteSshConfigArg]
  rw [harg, readQuoted, if_pos rfl, readQuotedBody_flatMap]

/-- A character of the value has no unescaped quote. -/
theorem unescapedQuotes_quoteChar (c : Char) {rest : Text} (hrest : rest ≠ []) (i : Nat) :
    unescapedQuotes i (quoteChar c ++ rest) = unescapedQuotes (i + (quoteChar c).length) rest := by
  by_cases hquote : c = '"'
  · subst hquote
    rfl
  by_cases hbackslash : c = '\\'
  · subst hbackslash
    rfl
  · have hchar : quoteChar c = [c] := by rw [quoteChar, if_neg hquote, if_neg hbackslash]
    obtain ⟨d, rest, rfl⟩ := List.exists_cons_of_ne_nil hrest
    rw [hchar, List.singleton_append, unescapedQuotes, if_neg (by simp [hbackslash]), if_neg hquote]
    rfl

theorem unescapedQuotes_flatMap (value : Text) (i : Nat) :
    unescapedQuotes i (value.flatMap quoteChar ++ ['"']) = [i + (value.flatMap quoteChar).length] := by
  induction value generalizing i with
  | nil => rfl
  | cons c value ih =>
    have hne : value.flatMap quoteChar ++ ['"'] ≠ [] := List.append_ne_nil_of_right_ne_nil _ (List.cons_ne_nil _ _)
    rw [List.flatMap_cons, List.append_assoc, unescapedQuotes_quoteChar c hne, ih, List.length_append,
      Nat.add_assoc]

theorem faithfulToken (value : Text) : FaithfulToken value where
  quotes := by
    have hne : value.flatMap quoteChar ++ ['"'] ≠ [] := List.append_ne_nil_of_right_ne_nil _ (List.cons_ne_nil _ _)
    obtain ⟨d, rest, hrest⟩ := List.exists_cons_of_ne_nil hne
    have hfirst : unescapedQuotes 0 ('"' :: (value.flatMap quoteChar ++ ['"'])) =
        0 :: unescapedQuotes 1 (value.flatMap quoteChar ++ ['"']) := by
      rw [hrest]
      rfl
    have hlength : (quoteSshConfigArg value).length - 1 = 1 + (value.flatMap quoteChar).length := by
      simp [quoteSshConfigArg, Nat.add_comm]
    rw [hlength, quoteSshConfigArg, List.cons_append, hfirst, unescapedQuotes_flatMap]
  read_back := readQuoted_quoteSshConfigArg value

theorem quoteSshConfigArg_injective : Function.Injective quoteSshConfigArg := by
  intro value value' h
  have hread := readQuoted_quoteSshConfigArg value []
  rw [h, readQuoted_quoteSshConfigArg value' []] at hread
  exact (Prod.mk.inj (Option.some.inj hread)).1.symm

variable {env : SnippetEnv} {p q : Text}

theorem trim_includeLine (p : Text) : Text.trim (includeLine p) = includeLine p := by
  have henv : includeLine p = includeLineWithStyle ⟨[], .absolute, none, fun c => [c]⟩ p .absolute := rfl
  rw [henv]
  exact trim_includeLineWithStyle .absolute

theorem includeLine_inj (h : includeLine p = includeLine q) : p = q :=
  quoteSshConfigArg_injective (List.append_cancel_left h)

/-- A path below a prefix is written with a tilde. -/
theorem not_isRooted_homeRelativePath {home r : Text} (hne : home ≠ [])
    (h : homeRelativePath (some home) q = some r) : Text.Path.isRooted r = false := by
  obtain ⟨relative, hstrip, rfl⟩ := Option.map_eq_some_iff.1 h
  have hroot : ¬Text.Path.isRooted relative = true := by
    rw [Text.Path.not_isRooted_stripPrefix hne hstrip]
    decide
  unfold tildeJoin Text.Path.join
  rw [if_neg hroot]
  split_ifs <;> rfl

/-- An empty home directory takes nothing off a path but what is blank at its end. -/
theorem homeRelativePath_nil (hq : Text.Path.isRooted q = true) :
    homeRelativePath (some []) q = some (Text.Path.trimRight q) := by
  have hroot := Text.Path.isRooted_trimRight hq
  have hne : Text.Path.trimRight q ≠ [] := by
    intro hnil
    rw [hnil] at hroot
    cases hroot
  have htilde : tildeJoin (Text.Path.trimRight q) = Text.Path.trimRight q := by
    unfold tildeJoin Text.Path.join
    rw [if_neg hne, if_pos hroot]
  exact congrArg some htilde

/-- What an absolute path is written as with a tilde is no absolute path, or it is the same path. -/
theorem displayPath_of_isRooted (hp : Text.Path.isRooted p = true) (hq : Text.Path.isRooted q = true)
    (h : p = displayPath { env with pathStyle := .homeRelative } q) :
    components p = components q ∧ (env.home ≠ some [] → p = q) := by
  have hdisplay : p = (homeRelativePath env.home q).getD q := h
  cases hhome : env.home with
  | none =>
    rw [hhome] at hdisplay
    exact ⟨congrArg components hdisplay, fun _ => hdisplay⟩
  | some home =>
    rw [hhome] at hdisplay
    by_cases hne : home = []
    · subst hne
      rw [homeRelativePath_nil hq] at hdisplay
      refine ⟨?_, fun hnil => absurd rfl hnil⟩
      rw [hdisplay]
      exact Text.Path.components_trimRight q
    · cases hrelative : homeRelativePath (some home) q with
      | none =>
        rw [hrelative] at hdisplay
        exact ⟨congrArg components hdisplay, fun _ => hdisplay⟩
      | some r =>
        rw [hrelative] at hdisplay
        obtain rfl : p = r := hdisplay
        rw [not_isRooted_homeRelativePath hne hrelative] at hp
        cases hp

/-- The line for an absolute path is taken for the line of the same path only. -/
theorem eq_of_lineMatches (hp : Text.Path.isRooted p = true) (hq : Text.Path.isRooted q = true)
    (h : lineMatchesSshwardenInclude env (includeLine p) q = true) :
    components p = components q ∧ (env.home ≠ some [] → p = q) := by
  unfold lineMatchesSshwardenInclude at h
  rw [trim_includeLine, Bool.or_eq_true, Bool.or_eq_true, beq_iff_eq, beq_iff_eq, beq_iff_eq] at h
  rcases h with (h | h) | h
  · exact ⟨congrArg components (includeLine_inj h), fun _ => includeLine_inj h⟩
  · exact displayPath_of_isRooted hp hq (quoteSshConfigArg_injective (List.append_cancel_left h))
  · -- a path that starts with a quote is not absolute
    have hquoted : quoteSshConfigArg p = q := List.append_cancel_left h
    rw [← hquoted] at hq
    cases hq

/-- Quoting gives one token that the value is read back from, and an Include line names one path; paths are equal
when their components are, and as texts too unless the home directory is set to the empty one. -/
theorem quoteSshConfigArg_faithful :
    (∀ value, FaithfulToken value) ∧ Function.Injective quoteSshConfigArg ∧
      ∀ env p q, Text.Path.isRooted p = true → Text.Path.isRooted q = true →
        lineMatchesSshwardenInclude env (includeLine p) q = true →
        components p = components q ∧ (env.home ≠ some [] → p = q) :=
  ⟨faithfulToken, quoteSshConfigArg_injective, fun _ _ _ => eq_of_lineMatches⟩

/-- A path with a quote and backslashes at its end, and a home directory that is set to nothing. -/
def quotedInclude : Text := "/keys \"a\\\\".toList

def emptyHomeEnv : SnippetEnv := { homeEnv with home := some [] }

/-- With a slash behind it the path is the same one. -/
theorem quotedInclude_same_path : components quotedInclude = components (quotedInclude ++ ['/']) ∧
    (emptyHomeEnv.home ≠ some [] → quotedInclude = quotedInclude ++ ['/']) :=
  quoteSshConfigArg_faithful.2.2 emptyHomeEnv quotedInclude (quotedInclude ++ ['/']) (by decide) (by decide)
    (by decide)

end SshWarden
