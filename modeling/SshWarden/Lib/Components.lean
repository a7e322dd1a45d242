import Mathlib.Data.List.DropRight
import SshWarden.Lib.Text

/-!
# Components of Unix paths

`Path::components` gives the root, a `.` at the start of a relative path, and the segments that are neither
empty nor `.`. Two paths are equal when their components are.
-/

namespace Text.Path

inductive Component
  | rootDir
  | curDir
  | parentDir
  | normal (name : Text)
deriving DecidableEq, Repr

def component (segment : Text) : Component := if segment = ['.', '.'] then .parentDir else .normal segment

/-- The segments that are components wherever they stand. -/
def body (ss : List Text) : List Text := ss.filter fun s => !isBlank s

/-- `Path::components`. -/
def components (p : Text) : List Component :=
  (if isRooted p then [.rootDir] else if startsWithDot p then [.curDir] else []) ++
    (body (segments p)).map component

/-- `Path::file_name`. -/
def fileName (p : Text) : Option Text :=
  match (components p).getLast? with
  | some (.normal name) => some name
  | _ => none

/-- A text that is the name of a file. -/
structure IsName (s : Text) : Prop where
  nonempty : s ≠ []
  not_cur : s ≠ ['.']
  not_up : s ≠ ['.', '.']
  no_slash : '/' ∉ s

theorem components_congr {p q : Text} (hr : isRooted p = isRooted q) (hd : startsWithDot p = startsWithDot q)
    (hb : body (segments p) = body (segments q)) : components p = components q := by
  unfold components
  rw [hr, hd, hb]

theorem segments_of_not_mem {s : Text} (h : '/' ∉ s) : segments s = [s] := List.splitOn_eq_singleton h

theorem segments_append_cons (p q : Text) : segments (p ++ '/' :: q) = segments p ++ segments q :=
  List.splitOn_append_cons_self p q

theorem segments_ne_nil (p : Text) : segments p ≠ [] := List.splitOn_ne_nil _ _

theorem slash_not_mem_segment {p s : Text} (h : s ∈ segments p) : '/' ∉ s := not_mem_of_mem_splitOn h

theorem segments_join {ss : List Text} (hne : ss ≠ []) (h : ∀ s ∈ ss, '/' ∉ s) :
    segments (Text.join ['/'] ss) = ss := List.splitOn_intercalate '/' h hne

/-- No segments and one empty segment are joined to the same. -/
theorem body_segments_join {ss : List Text} (h : ∀ s ∈ ss, '/' ∉ s) :
    body (segments (Text.join ['/'] ss)) = body ss := by
  cases ss with
  | nil => decide
  | cons s ss => rw [segments_join (List.cons_ne_nil s ss) h]

theorem segments_cons_slash (q : Text) : segments ('/' :: q) = [] :: segments q := segments_append_cons [] q

/-- An absolute path starts with an empty segment that is not its last one. -/
theorem isRooted_iff_segments {p : Text} : isRooted p = true ↔ ∃ ss, ss ≠ [] ∧ segments p = [] :: ss := by
  constructor
  · intro h
    cases p with
    | nil => cases h
    | cons c p =>
      obtain rfl : c = '/' := by simpa [isRooted] using h
      exact ⟨segments p, segments_ne_nil p, segments_cons_slash p⟩
  · rintro ⟨ss, hss, hseg⟩
    obtain ⟨t, ts, rfl⟩ := List.exists_cons_of_ne_nil hss
    have hp : Text.join ['/'] (segments p) = p := List.intercalate_splitOn '/'
    rw [← hp, hseg, Text.join, List.intercalate_cons_cons]
    rfl

theorem not_startsWithDot_of_isRooted {p : Text} (h : isRooted p = true) : startsWithDot p = false := by
  obtain ⟨ss, -, hseg⟩ := isRooted_iff_segments.1 h
  unfold startsWithDot
  rw [hseg]
  rfl

theorem body_append (ss ts : List Text) : body (ss ++ ts) = body ss ++ body ts := List.filter_append ..

theorem IsName.body {s : Text} (h : IsName s) : body [s] = [s] := by
  have hb : isBlank s = false := by simp [isBlank, h.nonempty, h.not_cur]
  simp [Path.body, hb]

theorem IsName.component {s : Text} (h : IsName s) : component s = .normal s := if_neg h.not_up

/-- A name is one normal component. -/
theorem IsName.components {s : Text} (h : IsName s) : components s = [.normal s] := by
  have hseg := segments_of_not_mem h.no_slash
  have hroot : isRooted s = false := by
    refine decide_eq_false fun hhead => h.no_slash ?_
    exact List.mem_of_head? hhead
  have hdot : startsWithDot s = false := by
    unfold startsWithDot
    rw [hseg]
    exact decide_eq_false fun heq => h.not_cur (Option.some.inj heq)
  unfold Path.components
  rw [hroot, hdot, hseg, h.body, List.map_singleton, h.component]
  rfl

theorem isRooted_append {p q : Text} (h : p ≠ []) : isRooted (p ++ q) = isRooted p := by
  unfold isRooted
  rw [List.head?_append_of_ne_nil _ h]

theorem startsWithDot_append_cons (p q : Text) : startsWithDot (p ++ '/' :: q) = startsWithDot p := by
  unfold startsWithDot
  rw [segments_append_cons, List.head?_append_of_ne_nil _ (segments_ne_nil p)]

/-- A name behind a slash is one more component. -/
theorem components_append_name {p s : Text} (hp : p ≠ []) (h : IsName s) :
    components (p ++ '/' :: s) = components p ++ [.normal s] := by
  unfold components
  rw [isRooted_append hp, startsWithDot_append_cons, segments_append_cons, body_append,
    segments_of_not_mem h.no_slash, h.body, List.map_append, List.map_singleton, h.component, List.append_assoc]

theorem components_append_slash {p : Text} (hp : p ≠ []) : components (p ++ ['/']) = components p := by
  refine components_congr (isRooted_append hp) (startsWithDot_append_cons p []) ?_
  have hseg : segments (p ++ ['/']) = segments p ++ [[]] := segments_append_cons p []
  have hnil : body [[]] = [] := by decide
  rw [hseg, body_append, hnil, List.append_nil]

theorem components_slash_name {s : Text} (h : IsName s) : components ('/' :: s) = [.rootDir, .normal s] := by
  have hroot : isRooted ('/' :: s) = true := rfl
  have hbody : body (segments ('/' :: s)) = [s] := by
    rw [segments_cons_slash, segments_of_not_mem h.no_slash]
    exact h.body
  unfold components
  rw [hroot, hbody, List.map_singleton, h.component]
  rfl

/-- A name joined to a directory is one component more. -/
theorem components_join_name (dir : Text) {s : Text} (h : IsName s) :
    components (join dir s) = components dir ++ [.normal s] := by
  have hroot : ¬isRooted s = true := by
    intro hroot
    exact h.no_slash (List.mem_of_head? (of_decide_eq_true hroot))
  unfold join
  rw [if_neg hroot]
  split_ifs with hdir
  · rcases hdir with rfl | hlast
    · exact h.components
    · obtain ⟨d, rfl⟩ := List.getLast?_eq_some_iff.1 hlast
      rw [List.append_assoc, List.singleton_append]
      cases d with
      | nil => exact components_slash_name h
      | cons c d =>
        rw [components_append_slash (List.cons_ne_nil c d), components_append_name (List.cons_ne_nil c d) h]
  · exact components_append_name (fun hnil => hdir (.inl hnil)) h

theorem body_dropWhile (ss : List Text) : body (ss.dropWhile isBlank) = body ss := by
  induction ss with
  | nil => rfl
  | cons s ss ih =>
    cases hs : isBlank s with
    | true => simpa [List.dropWhile, body, hs] using ih
    | false => simp [List.dropWhile, hs]

theorem body_trimBlank (ss : List Text) : body (trimBlank ss) = body ss := by
  have hreverse : ∀ ts : List Text, body ts.reverse = (body ts).reverse := fun ts => List.filter_reverse ..
  unfold trimBlank
  rw [hreverse, body_dropWhile, hreverse, List.reverse_reverse]

/-- Without the blank segments at its end a path is the same path. -/
theorem components_trimRight (p : Text) : components (trimRight p) = components p := by
  obtain ⟨s, ss, hseg⟩ := List.exists_cons_of_ne_nil (segments_ne_nil p)
  have hslash : ∀ t ∈ s :: trimBlank ss, '/' ∉ t := by
    intro t ht
    refine slash_not_mem_segment (hseg ▸ ?_ : t ∈ segments p)
    exact List.mem_cons.2 ((List.mem_cons.1 ht).imp_right mem_of_mem_trimBlank)
  have htail : ∀ t ∈ trimBlank ss, '/' ∉ t := fun t ht => hslash t (List.mem_cons_of_mem _ ht)
  unfold trimRight
  split_ifs with hroot
  · have hs : s = [] := by
      obtain ⟨ts, -, heq⟩ := isRooted_iff_segments.1 hroot
      exact (List.cons.inj (hseg.symm.trans heq)).1
    have hroot' : isRooted ('/' :: Text.join ['/'] (trimBlank (segments p).tail)) = true := rfl
    refine components_congr (hroot'.trans hroot.symm) ?_ ?_
    · rw [not_startsWithDot_of_isRooted hroot', not_startsWithDot_of_isRooted hroot]
    · rw [segments_cons_slash, hseg, hs, List.tail_cons, ← List.singleton_append, body_append,
        body_segments_join htail, body_trimBlank, ← body_append, List.singleton_append]
  · have hjoin : segments (Text.join ['/'] (s :: trimBlank ss)) = s :: trimBlank ss :=
      segments_join (List.cons_ne_nil s _) hslash
    rw [hseg, List.take_succ_cons, List.take_zero, List.tail_cons, List.singleton_append]
    refine components_congr ?_ ?_ ?_
    · rw [Bool.eq_false_iff.2 hroot]
      refine Bool.eq_false_iff.2 fun hroot' => hroot ?_
      obtain ⟨ts, hts, heq⟩ := isRooted_iff_segments.1 hroot'
      obtain ⟨rfl, rfl⟩ := List.cons.inj (hjoin.symm.trans heq)
      exact isRooted_iff_segments.2 ⟨ss, fun hss => hts (by rw [hss]; rfl), hseg⟩
    · unfold startsWithDot
      rw [hjoin, hseg]
      rfl
    · rw [hjoin, hseg, ← List.singleton_append, body_append, body_trimBlank, ← body_append, List.singleton_append]

theorem isRooted_trimRight {p : Text} (h : isRooted p = true) : isRooted (trimRight p) = true := by
  unfold trimRight
  rw [if_pos h]
  rfl

/-- The first segment that is left is a component. -/
theorem not_isBlank_of_head {ss ts : List Text} {t : Text} (h : trimBlank (ss.dropWhile isBlank) = t :: ts) :
    isBlank t = false := by
  obtain ⟨rest, hrest⟩ : trimBlank (ss.dropWhile isBlank) <+: ss.dropWhile isBlank := List.rdropWhile_prefix _ _
  have hhead := List.head?_dropWhile_not isBlank ss
  rw [← hrest, h] at hhead
  exact hhead

theorem not_isRooted_asPath {ss : List Text} (h : ∀ s ∈ ss, '/' ∉ s) : isRooted (asPath ss) = false := by
  refine Bool.eq_false_iff.2 fun hroot => ?_
  have hslash : ∀ s ∈ trimBlank (ss.dropWhile isBlank), '/' ∉ s :=
    fun s hs => h s ((List.dropWhile_sublist _).mem (mem_of_mem_trimBlank hs))
  unfold asPath at hroot
  cases hts : trimBlank (ss.dropWhile isBlank) with
  | nil =>
    rw [hts] at hroot
    cases hroot
  | cons t ts =>
    rw [hts] at hroot hslash
    obtain ⟨us, -, hseg⟩ := isRooted_iff_segments.1 hroot
    rw [segments_join (List.cons_ne_nil t ts) hslash] at hseg
    obtain ⟨rfl, -⟩ := List.cons.inj hseg
    exact absurd (not_isBlank_of_head hts) (by decide)

/-- What is left of a path below a prefix is relative. -/
theorem not_isRooted_stripPrefix {p home r : Text} (hne : home ≠ []) (h : stripPrefix p home = some r) :
    isRooted r = false := by
  unfold stripPrefix at h
  rw [if_neg hne] at h
  split_ifs at h
  obtain ⟨ss, hss, rfl⟩ := Option.map_eq_some_iff.1 h
  exact not_isRooted_asPath fun s hs => slash_not_mem_segment (mem_of_stripBody hss hs)

end Text.Path
