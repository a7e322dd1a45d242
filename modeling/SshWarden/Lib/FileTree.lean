import Mathlib.Logic.Function.Basic
import SshWarden.Lib.Text

/-!
# Directory trees with symbolic links

A place is the list of names from the root, and the tree says what is at it. A path is walked component by
component, and a link is followed by walking its target and then the rest, at most a given number of times.
-/

namespace FileTree

inductive Node
  | file
  | dir
  | link (target : Text)
deriving DecidableEq, Repr

abbrev Place : Type := List Text

abbrev Tree : Type := Place → Option Node

/-- Components as the kernel takes them; an empty segment and `.` stay in the directory. -/
inductive Comp
  | cur
  | up
  | name (n : Text)
deriving DecidableEq, Repr

def comp (segment : Text) : Comp :=
  if Text.Path.isBlank segment then .cur else if segment = ['.', '.'] then .up else .name segment

def comps (path : Text) : List Comp := (Text.Path.segments path).map comp

/-- A walk ends at something, at a free name in a directory, before a name that is not there, or is refused. -/
inductive Outcome
  | found (place : Place)
  | free (place : Place)
  | noEntry
  | refused
deriving DecidableEq, Repr

/-- A walk that follows links by `follow`. -/
def walkBy (t : Tree) (follow : Place → List Comp → Outcome) : Place → List Comp → Outcome
  | here, [] => .found here
  | here, .cur :: cs => walkBy t follow here cs
  | here, .up :: cs => walkBy t follow here.dropLast cs
  | here, .name n :: cs =>
    match t (here ++ [n]) with
    | none => if cs = [] then .free (here ++ [n]) else .noEntry
    | some .dir => walkBy t follow (here ++ [n]) cs
    | some .file => if cs = [] then .found (here ++ [n]) else .refused
    | some (.link target) => follow (if Text.Path.isRooted target then [] else here) (comps target ++ cs)

/-- A walk from a directory that follows so many links. -/
def walk (t : Tree) : Nat → Place → List Comp → Outcome
  | 0 => walkBy t fun _ _ => .refused
  | links + 1 => walkBy t (walk t links)

def maxLinks : Nat := 40

/-- An absolute path. -/
def resolve (t : Tree) (path : Text) : Outcome := walk t maxLinks [] (comps path)

def isDir (t : Tree) (here : Place) (cs : List Comp) : Bool :=
  match walk t maxLinks here cs with
  | .found place => place = [] || t place = some .dir
  | _ => false

inductive MkdirError
  | notFound
  | other

def put (t : Tree) (place : Place) (node : Node) : Tree := Function.update t place (some node)

/-- `mkdir` of a last component behind the others; a link at the last one is not followed. -/
def mkdir (t : Tree) (parent : List Comp) (last : Comp) : Except MkdirError Tree :=
  match walk t maxLinks [] parent with
  | .found place =>
    if place = [] || t place = some .dir then
      match last with
      | .name n => if (t (place ++ [n])).isSome then .error .other else .ok (put t (place ++ [n]) .dir)
      | _ => .error .other
    else .error .other
  | .free _ | .noEntry => .error .notFound
  | .refused => .error .other

/-- `create_dir_all` of an absolute path, whose components are given from the last one. -/
def createDirAll (t : Tree) : List Comp → Option Tree
  | [] => some t
  | .cur :: cs => createDirAll t cs
  | c :: cs =>
    match mkdir t cs.reverse c with
    | .ok t => some t
    | .error .notFound =>
      (createDirAll t cs).bind fun t =>
        match mkdir t cs.reverse c with
        | .ok t => some t
        | .error _ => if isDir t [] (c :: cs).reverse then some t else none
    | .error .other => if isDir t [] (c :: cs).reverse then some t else none

/-- The components of `Path::parent`, from the last one. -/
def parent (path : Text) : List Comp := ((comps path).reverse.dropWhile (· = .cur)).tail

/-- `fs::write`: the file is truncated or created; the tree after it and the place written. -/
def writeFile (t : Tree) (path : Text) : Option (Tree × Place) :=
  match resolve t path with
  | .found place => if t place = some .file then some (t, place) else none
  | .free place => some (put t place .file, place)
  | _ => none

/-- `create_dir_all` of the parent, then `fs::write`. -/
def writeWithParents (t : Tree) (path : Text) : Option (Tree × Place) :=
  (createDirAll t (parent path)).bind fun t => writeFile t path

/-! ### Walks -/

variable {t t' : Tree} {place : Place}

/-- A walk that ends at something has come through a place for each of its beginnings. -/
theorem walkBy_prefix {links : Nat} {follow : Place → List Comp → Outcome}
    (hfollow : ∀ here cs c ds, follow here (cs ++ c :: ds) = .found place →
      ∃ mid, follow here cs = .found mid ∧ ∃ m ≤ links, walk t m mid (c :: ds) = .found place)
    (hself : ∀ here cs, walkBy t follow here cs = .found place → ∃ m ≤ links, walk t m here cs = .found place)
    {here : Place} {cs : List Comp} {c : Comp} {ds : List Comp}
    (h : walkBy t follow here (cs ++ c :: ds) = .found place) :
    ∃ mid, walkBy t follow here cs = .found mid ∧ ∃ m ≤ links, walk t m mid (c :: ds) = .found place := by
  induction cs generalizing here with
  | nil => exact ⟨here, rfl, hself here (c :: ds) h⟩
  | cons b cs ih =>
    cases b with
    | cur => exact ih h
    | up => exact ih h
    | name n =>
      rw [List.cons_append, walkBy] at h
      rw [walkBy]
      cases hn : t (here ++ [n]) with
      | none => simp [hn] at h
      | some node =>
        rw [hn] at h
        cases node with
        | dir => exact ih h
        | file => simp at h
        | link target =>
          have hlink : follow _ (comps target ++ (cs ++ c :: ds)) = .found place := h
          rw [← List.append_assoc] at hlink
          exact hfollow _ _ _ _ hlink

theorem walk_prefix {links : Nat} {here : Place} {cs : List Comp} {c : Comp} {ds : List Comp}
    (h : walk t links here (cs ++ c :: ds) = .found place) :
    ∃ mid, walk t links here cs = .found mid ∧ ∃ m ≤ links, walk t m mid (c :: ds) = .found place := by
  induction links generalizing here cs c ds with
  | zero =>
    exact walkBy_prefix (fun _ _ _ _ hf => by cases hf) (fun _ _ hw => ⟨0, Nat.le_refl _, hw⟩) h
  | succ links ih =>
    refine walkBy_prefix (fun _ _ _ _ hf => ?_) (fun _ _ hw => ⟨links + 1, Nat.le_refl _, hw⟩) h
    obtain ⟨mid, hmid, m, hm, hrest⟩ := ih hf
    exact ⟨mid, hmid, m, Nat.le_succ_of_le hm, hrest⟩

theorem walk_name_of_none {links : Nat} {here : Place} {n : Text} (h : t (here ++ [n]) = none) :
    walk t links here [.name n] = .free (here ++ [n]) := by
  cases links <;> simp [walk, walkBy, h]

theorem mkdir_of_found {cs : List Comp} {c : Comp} (h : walk t maxLinks [] (cs ++ [c]) = .found place) :
    ∀ t', mkdir t cs c ≠ .ok t' ∧ mkdir t cs c ≠ .error .notFound := by
  obtain ⟨mid, hmid, m, -, hlast⟩ := walk_prefix h
  intro t'
  unfold mkdir
  rw [hmid]
  dsimp only
  split
  · cases c with
    | cur => simp
    | up => simp
    | name n =>
      cases hn : t (mid ++ [n]) with
      | some node => simp [hn]
      | none => exact nomatch (walk_name_of_none hn).symm.trans hlast
  · simp

theorem createDirAll_of_found {cs : List Comp} (h : walk t maxLinks [] cs.reverse = .found place)
    (hc : createDirAll t cs = some t') : t' = t := by
  induction cs generalizing place with
  | nil => exact (Option.some.inj hc).symm
  | cons c cs ih =>
    rw [List.reverse_cons] at h
    obtain ⟨mid, hmid, -⟩ := walk_prefix h
    by_cases hcur : c = .cur
    · subst hcur
      exact ih hmid hc
    · have hmk := mkdir_of_found h
      rw [createDirAll] at hc
      · cases hr : mkdir t cs.reverse c with
        | ok t'' => exact absurd hr (hmk t'').1
        | error e =>
          cases e with
          | notFound => exact absurd hr (hmk t).2
          | other =>
            simp only [hr] at hc
            split at hc
            · exact (Option.some.inj hc).symm
            · cases hc
      · exact hcur

/-- Where a file is, writing it changes nothing of the tree. -/
theorem writeWithParents_of_found {path : Text} {written : Place} (h : resolve t path = .found place)
    (hw : writeWithParents t path = some (t', written)) : t' = t ∧ written = place := by
  obtain ⟨t₁, hparent, hwrite⟩ := Option.bind_eq_some_iff.1 hw
  have hsame : t₁ = t := by
    unfold parent at hparent
    have hsplit := List.takeWhile_append_dropWhile (p := fun c => decide (c = Comp.cur))
      (l := (comps path).reverse)
    cases hrest : (comps path).reverse.dropWhile (fun c => decide (c = Comp.cur)) with
    | nil =>
      rw [hrest] at hparent
      exact (Option.some.inj hparent).symm
    | cons c cs =>
      rw [hrest] at hparent hsplit
      have hpath : comps path =
          cs.reverse ++ c :: ((comps path).reverse.takeWhile (fun c => decide (c = Comp.cur))).reverse := by
        have hrev := congrArg List.reverse hsplit
        simpa using hrev.symm
      unfold resolve at h
      rw [hpath] at h
      obtain ⟨mid, hmid, -⟩ := walk_prefix h
      exact createDirAll_of_found hmid hparent
  subst hsame
  unfold writeFile at hwrite
  rw [h] at hwrite
  dsimp only at hwrite
  split at hwrite
  · obtain ⟨ht, hplace⟩ := Prod.mk.inj (Option.some.inj hwrite)
    exact ⟨ht.symm, hplace.symm⟩
  · cases hwrite

def Linkless (t : Tree) : Prop := ∀ place target, t place ≠ some (.link target)

/-- A path read without looking at the tree. -/
def descend : Place → List Comp → Place
  | here, [] => here
  | here, .cur :: cs => descend here cs
  | here, .up :: cs => descend here.dropLast cs
  | here, .name n :: cs => descend (here ++ [n]) cs

theorem walkBy_linkless (hl : Linkless t) {follow : Place → List Comp → Outcome} {here : Place} {cs : List Comp}
    (h : walkBy t follow here cs = .found place ∨ walkBy t follow here cs = .free place) :
    place = descend here cs := by
  induction cs generalizing here with
  | nil =>
    rcases h with h | h
    · exact (Outcome.found.inj h).symm
    · cases h
  | cons c cs ih =>
    cases c with
    | cur => exact ih h
    | up => exact ih h
    | name n =>
      rw [walkBy] at h
      rw [descend]
      cases hn : t (here ++ [n]) with
      | none =>
        by_cases hcs : cs = []
        · subst hcs
          simpa [hn, descend, eq_comm] using h
        · simp [hn, hcs] at h
      | some node =>
        cases node with
        | dir => exact ih (by simpa [hn] using h)
        | file =>
          by_cases hcs : cs = []
          · subst hcs
            simpa [hn, descend, eq_comm] using h
          · simp [hn, hcs] at h
        | link target => exact absurd hn (hl _ _)

theorem walk_linkless (hl : Linkless t) {links : Nat} {here : Place} {cs : List Comp}
    (h : walk t links here cs = .found place ∨ walk t links here cs = .free place) : place = descend here cs := by
  cases links <;> exact walkBy_linkless hl h

theorem Linkless.put (hl : Linkless t) {node : Node} (hnode : ∀ target, node ≠ .link target) (place : Place) :
    Linkless (put t place node) := by
  intro p target hp
  rw [FileTree.put, Function.update_apply] at hp
  split at hp
  · exact hnode target (Option.some.inj hp)
  · exact hl p target hp

theorem Linkless.mkdir (hl : Linkless t) {cs : List Comp} {c : Comp} (h : mkdir t cs c = .ok t') :
    Linkless t' := by
  unfold FileTree.mkdir at h
  split at h
  · split at h
    · split at h
      · split at h
        · cases h
        · exact Except.ok.inj h ▸ hl.put (by simp) _
      · cases h
    · cases h
  all_goals cases h

theorem Linkless.createDirAll (hl : Linkless t) {cs : List Comp} (h : createDirAll t cs = some t') :
    Linkless t' := by
  induction cs generalizing t' with
  | nil => exact Option.some.inj h ▸ hl
  | cons c cs ih =>
    by_cases hcur : c = .cur
    · subst hcur
      exact ih h
    · rw [FileTree.createDirAll] at h
      · split at h
        · next t₁ hmk => exact Option.some.inj h ▸ hl.mkdir hmk
        · obtain ⟨t₁, hparent, hlast⟩ := Option.bind_eq_some_iff.1 h
          split at hlast
          · next t₂ hmk => exact Option.some.inj hlast ▸ (ih hparent).mkdir hmk
          · split at hlast
            · exact Option.some.inj hlast ▸ ih hparent
            · cases hlast
        · split at h
          · exact Option.some.inj h ▸ hl
          · cases h
      · exact hcur

theorem Linkless.writeWithParents (hl : Linkless t) {path : Text} {written : Place}
    (h : writeWithParents t path = some (t', written)) : Linkless t' ∧ written = descend [] (comps path) := by
  obtain ⟨t₁, hparent, hwrite⟩ := Option.bind_eq_some_iff.1 h
  have hl₁ := hl.createDirAll hparent
  unfold writeFile at hwrite
  split at hwrite
  · next place hres =>
    split at hwrite
    · obtain ⟨ht, hplace⟩ := Prod.mk.inj (Option.some.inj hwrite)
      exact ⟨ht ▸ hl₁, hplace ▸ walk_linkless hl₁ (.inl hres)⟩
    · cases hwrite
  · next place hres =>
    obtain ⟨ht, hplace⟩ := Prod.mk.inj (Option.some.inj hwrite)
    exact ⟨ht ▸ hl₁.put (by simp) _, hplace ▸ walk_linkless hl₁ (.inr hres)⟩
  · cases hwrite

end FileTree
