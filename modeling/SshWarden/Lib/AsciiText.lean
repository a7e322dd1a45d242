import Mathlib.Data.List.DropRight
import SshWarden.Lib.Text

/-!
# Names made from arbitrary texts

Texts are lower-cased, what is not allowed in a name is replaced by single dashes, and the dashes at both ends
are trimmed off. Lower-casing is `char::to_lowercase` in any version of Unicode. The names are the texts that
each of the three leaves as they are.
-/

namespace Text

theorem toLower_of_not_isUpper {c : Char} (h : c.isUpper = false) : c.toLower = c :=
  dif_neg (of_decide_eq_false h)

theorem not_isUpper_toLower (c : Char) : c.toLower.isUpper = false := by
  unfold Char.toLower
  split
  · next h =>
    obtain ⟨hge, hle⟩ := h
    refine decide_eq_false fun hupper => ?_
    have hle' : c.val + 32 ≤ 90 := hupper.2
    have hge' : 65 ≤ c.val := hge
    have hle'' : c.val ≤ 90 := hle
    rw [UInt32.le_iff_toNat_le] at hle' hge' hle''
    rw [UInt32.toNat_add] at hle'
    change (c.val.toNat + 32) % 2 ^ 32 ≤ 90 at hle'
    change 65 ≤ c.val.toNat at hge'
    change c.val.toNat ≤ 90 at hle''
    omega
  · next h => exact decide_eq_false h

/-- An ASCII character goes to its ASCII lower case, and no lower case holds an upper-case ASCII letter. -/
structure LowercaseLaws (toLowercase : Char → List Char) : Prop where
  ascii : ∀ c : Char, c.toNat < 128 → toLowercase c = [c.toLower]
  not_upper : ∀ c, ∀ d ∈ toLowercase c, d.isUpper = false

/-- ASCII and the two characters beyond it whose lower case has an ASCII character. -/
def sampleLowercase (c : Char) : List Char :=
  if c.toNat = 0x130 then ['i', Char.ofNat 0x307] else if c.toNat = 0x212A then ['k'] else [c.toLower]

theorem lowercaseLaws_sample : LowercaseLaws sampleLowercase where
  ascii c hc := by
    unfold sampleLowercase
    rw [if_neg (by omega), if_neg (by omega)]
  not_upper c d hd := by
    unfold sampleLowercase at hd
    split_ifs at hd
    · rcases List.mem_cons.1 hd with rfl | hd
      · decide
      · rw [List.mem_singleton.1 hd]
        decide
    · rw [List.mem_singleton.1 hd]
      decide
    · rw [List.mem_singleton.1 hd]
      exact not_isUpper_toLower c

theorem LowercaseLaws.flatMap_eq_self {toLowercase : Char → List Char} (laws : LowercaseLaws toLowercase)
    {cs : Text}
    (h : ∀ c ∈ cs, c.toNat < 128 ∧ c.isUpper = false) : cs.flatMap toLowercase = cs := by
  induction cs with
  | nil => rfl
  | cons c cs ih =>
    obtain ⟨hascii, hupper⟩ := h c (List.mem_cons_self ..)
    have hlower : c.toLower = c := toLower_of_not_isUpper hupper
    rw [List.flatMap_cons, laws.ascii c hascii, hlower, ih fun d hd => h d (List.mem_cons_of_mem _ hd)]
    rfl

theorem LowercaseLaws.not_upper_flatMap {toLowercase : Char → List Char} (laws : LowercaseLaws toLowercase)
    (cs : Text) : ∀ d ∈ cs.flatMap toLowercase, d.isUpper = false := by
  intro d hd
  obtain ⟨c, -, hd⟩ := List.mem_flatMap.1 hd
  exact laws.not_upper c d hd

theorem toNat_of_isAsciiAlphanumeric {c : Char} (h : isAsciiAlphanumeric c = true) :
    48 ≤ c.toNat ∧ c.toNat < 123 := by
  have h : ((decide (c.val ≥ 65 ∧ c.val ≤ 90) || (decide (c.val ≥ 97) && decide (c.val ≤ 122))) ||
    (decide (c.val ≥ 48) && decide (c.val ≤ 57))) = true := h
  simp only [Bool.or_eq_true, Bool.and_eq_true, decide_eq_true_eq, ge_iff_le, UInt32.le_iff_toNat_le] at h
  change ((65 ≤ c.toNat ∧ c.toNat ≤ 90) ∨ (97 ≤ c.toNat ∧ c.toNat ≤ 122)) ∨ (48 ≤ c.toNat ∧ c.toNat ≤ 57) at h
  omega

/-- Visible ASCII characters are no white space. -/
theorem not_isWhitespace_of_ascii {c : Char} (h : 33 ≤ c.toNat) (h' : c.toNat < 128) : isWhitespace c = false := by
  simp [isWhitespace]
  omega

variable {c d : Char} {cs : Text}

theorem trimMatches_eq_rdropWhile (c : Char) (cs : Text) :
    trimMatches c cs = (cs.dropWhile (· = c)).rdropWhile (· = c) := rfl

theorem infix_trimMatches (c : Char) (cs : Text) : trimMatches c cs <:+: cs :=
  (List.rdropWhile_prefix _ _).isInfix.trans (List.dropWhile_suffix _).isInfix

theorem mem_of_mem_trimMatches (h : d ∈ trimMatches c cs) : d ∈ cs := (infix_trimMatches c cs).mem h

theorem head?_dropWhile_ne (c : Char) (cs : Text) : (cs.dropWhile (· = c)).head? ≠ some c := by
  intro hhead
  have h := List.head?_dropWhile_not (fun x => decide (x = c)) cs
  rw [hhead] at h
  exact of_decide_eq_false h rfl

theorem dropWhile_eq_self (h : cs.head? ≠ some c) : cs.dropWhile (· = c) = cs := by
  cases cs with
  | nil => rfl
  | cons d cs =>
    have hd : d ≠ c := fun heq => h (congrArg some heq)
    exact List.dropWhile_cons_of_neg (by simpa using hd)

theorem head?_trimMatches (c : Char) (cs : Text) : (trimMatches c cs).head? ≠ some c := by
  intro h
  obtain ⟨rest, hrest⟩ := List.rdropWhile_prefix (fun x => decide (x = c)) (cs.dropWhile (· = c))
  rw [trimMatches_eq_rdropWhile] at h
  refine head?_dropWhile_ne c cs ?_
  rw [← hrest, List.head?_append, h]
  rfl

theorem getLast?_trimMatches (c : Char) (cs : Text) : (trimMatches c cs).getLast? ≠ some c := by
  unfold trimMatches
  rw [List.getLast?_reverse]
  exact head?_dropWhile_ne c _

/-- A text with the character at neither end stays. -/
theorem trimMatches_eq_self (hhead : cs.head? ≠ some c) (hlast : cs.getLast? ≠ some c) :
    trimMatches c cs = cs := by
  unfold trimMatches
  rw [dropWhile_eq_self hhead, dropWhile_eq_self (by rwa [List.head?_reverse]), List.reverse_reverse]

/-- One character of the loop that keeps what is allowed and writes a dash for a run of other characters. -/
def collapseStep (allowed : Char → Bool) (st : Text × Bool) (c : Char) : Text × Bool :=
  if allowed c then (st.1 ++ [c], false)
  else if st.2 then st
  else (st.1 ++ ['-'], true)

/-- What the loop writes, from its state on. -/
def collapse (allowed : Char → Bool) : Bool → Text → Text
  | _, [] => []
  | dash, c :: cs =>
    if allowed c then c :: collapse allowed false cs
    else if dash then collapse allowed true cs
    else '-' :: collapse allowed true cs

variable {allowed : Char → Bool} {dash : Bool}

theorem foldl_collapseStep (acc : Text) (dash : Bool) (cs : Text) :
    (cs.foldl (collapseStep allowed) (acc, dash)).1 = acc ++ collapse allowed dash cs := by
  induction cs generalizing acc dash with
  | nil => simp [collapse]
  | cons c cs ih =>
    rw [List.foldl_cons, collapse]
    by_cases hc : allowed c = true
    · have hstep : collapseStep allowed (acc, dash) c = (acc ++ [c], false) := if_pos hc
      rw [hstep, if_pos hc, ih, List.append_assoc, List.singleton_append]
    · rw [if_neg hc]
      cases dash with
      | true =>
        have hstep : collapseStep allowed (acc, true) c = (acc, true) := if_neg hc
        rw [hstep, ih]
        rfl
      | false =>
        have hstep : collapseStep allowed (acc, false) c = (acc ++ ['-'], true) := if_neg hc
        rw [hstep, ih, List.append_assoc, List.singleton_append]
        rfl

theorem mem_collapse (h : c ∈ collapse allowed dash cs) : c = '-' ∨ allowed c = true ∧ c ∈ cs := by
  fun_induction collapse allowed dash cs with
  | case1 => exact absurd h List.not_mem_nil
  | case2 dash d cs hd ih =>
    rcases List.mem_cons.1 h with rfl | h
    · exact .inr ⟨hd, List.mem_cons_self ..⟩
    · exact (ih h).imp_right fun hc => ⟨hc.1, List.mem_cons_of_mem _ hc.2⟩
  | case3 d cs hd ih => exact (ih h).imp_right fun hc => ⟨hc.1, List.mem_cons_of_mem _ hc.2⟩
  | case4 dash d cs hd hdash ih =>
    rcases List.mem_cons.1 h with rfl | h
    · exact .inl rfl
    · exact (ih h).imp_right fun hc => ⟨hc.1, List.mem_cons_of_mem _ hc.2⟩

theorem collapse_of_allowed (h : ∀ c ∈ cs, allowed c = true) : collapse allowed dash cs = cs := by
  induction cs generalizing dash with
  | nil => rfl
  | cons c cs ih =>
    rw [collapse, if_pos (h c (List.mem_cons_self ..)), ih fun d hd => h d (List.mem_cons_of_mem _ hd)]

section SingleDashes
variable (hdash : allowed '-' = false)
include hdash

theorem head?_collapse (cs : Text) : (collapse allowed true cs).head? ≠ some '-' := by
  induction cs with
  | nil => exact nofun
  | cons c cs ih =>
    by_cases hc : allowed c = true
    · rw [collapse, if_pos hc]
      intro h
      obtain rfl : c = '-' := Option.some.inj h
      exact absurd hc (by rw [hdash]; decide)
    · rw [collapse, if_neg hc, if_pos rfl]
      exact ih

omit hdash in
theorem not_dashes_cons (hc : c ≠ '-' ∨ cs.head? ≠ some '-') (h : ¬['-', '-'] <:+: cs) :
    ¬['-', '-'] <:+: c :: cs := by
  rw [List.infix_cons_iff]
  rintro (hstart | hrest)
  · obtain ⟨rfl, t, rfl⟩ := List.cons_prefix_cons.1 hstart
    exact hc.elim (fun hc => hc rfl) fun hc => hc rfl
  · exact h hrest

/-- Where dashes stand for something else they are single. -/
theorem not_dashes_collapse (dash : Bool) (cs : Text) : ¬['-', '-'] <:+: collapse allowed dash cs := by
  fun_induction collapse allowed dash cs with
  | case1 => simp
  | case2 dash d cs hd ih =>
    refine not_dashes_cons (.inl ?_) ih
    rintro rfl
    exact absurd hd (by rw [hdash]; decide)
  | case3 d cs hd ih => exact ih
  | case4 dash d cs hd _ ih => exact not_dashes_cons (.inr (head?_collapse hdash cs)) ih

end SingleDashes

/-- Allowed characters with single dashes between them are left as they are. -/
theorem collapse_eq_self (hchars : ∀ c ∈ cs, allowed c = true ∨ c = '-') (hdashes : ¬['-', '-'] <:+: cs)
    (hhead : dash = true → cs.head? ≠ some '-') : collapse allowed dash cs = cs := by
  induction cs generalizing dash with
  | nil => rfl
  | cons c cs ih =>
    have hchars' : ∀ d ∈ cs, allowed d = true ∨ d = '-' := fun d hd => hchars d (List.mem_cons_of_mem _ hd)
    have hdashes' : ¬['-', '-'] <:+: cs := fun h => hdashes (List.infix_cons h)
    rw [collapse]
    split_ifs with hc hd
    · have hrest : collapse allowed false cs = cs := ih hchars' hdashes' fun h => absurd h Bool.false_ne_true
      rw [hrest]
    · obtain rfl := (hchars c (List.mem_cons_self ..)).resolve_left hc
      exact absurd rfl (hhead hd)
    · obtain rfl := (hchars c (List.mem_cons_self ..)).resolve_left hc
      rw [ih hchars' hdashes']
      intro _ hs
      obtain ⟨t, rfl⟩ := List.head?_eq_some_iff.1 hs
      exact hdashes ⟨[], t, rfl⟩

end Text
