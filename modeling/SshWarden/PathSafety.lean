import SshWarden.Lib.FileTree

/-!
# The managed path is not the user's config

Before the managed snippet is written, its path is compared with that of `~/.ssh/config`: by the places both
lead to when both are there, and otherwise by the two spellings, which do not know of links.
-/

namespace SshWarden
open FileTree

/-- A `PathBuf` by its components: rooted or not, and names and `..` behind. -/
abbrev PathValue : Type := Bool × List Comp

/-- `canonicalize`: the place that the path leads to. -/
def canonicalize (t : Tree) (path : Text) : Option PathValue :=
  match resolve t path with
  | .found place => some (true, place.map .name)
  | _ => none

def pushComponent (rooted : Bool) (normalized : List Comp) : Comp → List Comp
  | .cur => normalized
  | .up => match normalized.getLast? with
    | some (.name _) => normalized.dropLast
    | _ => if rooted then normalized else normalized ++ [.up]
  | .name n => normalized ++ [.name n]

/-- `normalize_path_components_for_safety`. -/
def normalizePathComponents (path : Text) : PathValue :=
  (Text.Path.isRooted path, (comps path).foldl (pushComponent (Text.Path.isRooted path)) [])

/-- `normalized_absolute_path_for_safety`, in a working directory when there is one. -/
def normalizedAbsolutePath (cwd : Option Text) (path : Text) : PathValue :=
  if Text.Path.isRooted path then normalizePathComponents path
  else match cwd with
    | some dir => normalizePathComponents (Text.Path.join dir path)
    | none => normalizePathComponents path

/-- `paths_equivalent_for_safety`. -/
def pathsEquivalent (t : Tree) (cwd : Option Text) (a b : Text) : Bool :=
  match canonicalize t a, canonicalize t b with
  | some a, some b => a = b
  | _, _ => normalizedAbsolutePath cwd a = normalizedAbsolutePath cwd b

/-- `ensure_managed_ssh_config_path_is_safe`. -/
def ensureManagedPathIsSafe (t : Tree) (cwd : Option Text) (managed userConfig : Text) : Except String Unit :=
  if pathsEquivalent t cwd managed userConfig then
    .error s!"managed SSH config path must not be the user's main SSH config: {String.ofList managed}"
  else .ok ()

/-- Writing to the managed path, with the directories it needs, writes the file that the user's path leads to. -/
def Overwrites (t : Tree) (managed userConfig : Text) : Prop :=
  ∃ t' place, writeWithParents t managed = some (t', place) ∧ resolve t' userConfig = .found place

/-- A path that would overwrite the user's config is refused. -/
def PathGuarded (t : Tree) (cwd : Option Text) (managed userConfig : Text) : Prop :=
  Overwrites t managed userConfig → ∃ e, ensureManagedPathIsSafe t cwd managed userConfig = .error e

variable {t : Tree} {cwd : Option Text} {managed userConfig : Text}

theorem ensure_error_iff : (∃ e, ensureManagedPathIsSafe t cwd managed userConfig = .error e) ↔
    pathsEquivalent t cwd managed userConfig = true := by
  unfold ensureManagedPathIsSafe
  split
  · next h => exact ⟨fun _ => h, fun _ => ⟨_, rfl⟩⟩
  · next h => exact ⟨fun ⟨_, he⟩ => (nomatch he), fun h' => absurd h' h⟩

theorem canonicalize_of_found {path : Text} {place : Place} (h : resolve t path = .found place) :
    canonicalize t path = some (true, place.map .name) := by
  rw [canonicalize, h]

theorem canonicalize_eq_none {path : Text} (h : ¬∃ place, resolve t path = .found place) :
    canonicalize t path = none := by
  unfold canonicalize
  split
  · next place hp => exact absurd ⟨place, hp⟩ h
  · rfl

/-- Where the managed file is there, it is compared with the user's by its place. -/
theorem pathsEquivalent_of_found {place : Place} (h : Overwrites t managed userConfig)
    (hm : resolve t managed = .found place) : pathsEquivalent t cwd managed userConfig = true := by
  obtain ⟨t', written, hw, hu⟩ := h
  obtain ⟨rfl, rfl⟩ := writeWithParents_of_found hm hw
  rw [pathsEquivalent, canonicalize_of_found hm, canonicalize_of_found hu]
  exact decide_eq_true rfl

/-- Where it is not, the spellings are compared. -/
theorem pathsEquivalent_of_not_found (hm : ¬∃ place, resolve t managed = .found place) :
    pathsEquivalent t cwd managed userConfig =
      decide (normalizedAbsolutePath cwd managed = normalizedAbsolutePath cwd userConfig) := by
  rw [pathsEquivalent, canonicalize_eq_none hm]

theorem foldl_pushComponent (place : Place) (cs : List Comp) :
    cs.foldl (pushComponent true) (place.map .name) = (descend place cs).map .name := by
  induction cs generalizing place with
  | nil => rfl
  | cons c cs ih =>
    rw [List.foldl_cons]
    cases c with
    | cur => exact ih place
    | up =>
      have hup : pushComponent true (place.map .name) .up = place.dropLast.map .name := by
        rw [pushComponent, List.getLast?_map, List.map_dropLast]
        cases hlast : place.getLast? with
        | some n => rfl
        | none => rw [List.getLast?_eq_none_iff.1 hlast]; rfl
      rw [hup]
      exact ih place.dropLast
    | name n =>
      have hname : pushComponent true (place.map .name) (.name n) = (place ++ [n]).map .name := by
        rw [pushComponent, List.map_append]; rfl
      rw [hname]
      exact ih (place ++ [n])

/-- An absolute path is normalized to what it says of no tree. -/
theorem normalizedAbsolutePath_of_rooted {path : Text} (h : Text.Path.isRooted path = true) :
    normalizedAbsolutePath cwd path = (true, (descend [] (comps path)).map .name) := by
  unfold normalizedAbsolutePath
  rw [if_pos h, normalizePathComponents, h]
  exact congrArg (true, ·) (foldl_pushComponent [] (comps path))

theorem map_name_injective : Function.Injective (List.map Comp.name) :=
  List.map_injective_iff.2 fun _ _ h => Comp.name.inj h

theorem normalizedAbsolutePath_eq_iff (hm : Text.Path.isRooted managed = true)
    (hu : Text.Path.isRooted userConfig = true) :
    normalizedAbsolutePath cwd managed = normalizedAbsolutePath cwd userConfig ↔
      descend [] (comps managed) = descend [] (comps userConfig) := by
  rw [normalizedAbsolutePath_of_rooted hm, normalizedAbsolutePath_of_rooted hu, Prod.mk.injEq,
    map_name_injective.eq_iff]
  exact ⟨fun h => h.2, fun h => ⟨rfl, h⟩⟩

/-- A managed path that leads to the user's config is refused exactly where there is a file already, or the two
paths say the same without a look at the tree. -/
theorem pathGuarded_iff (t : Tree) (cwd : Option Text) (hm : Text.Path.isRooted managed = true)
    (hu : Text.Path.isRooted userConfig = true) :
    PathGuarded t cwd managed userConfig ↔
      (Overwrites t managed userConfig → (∃ place, resolve t managed = .found place) ∨
        descend [] (comps managed) = descend [] (comps userConfig)) := by
  by_cases hthere : ∃ place, resolve t managed = .found place
  · obtain ⟨place, hplace⟩ := hthere
    refine ⟨fun _ _ => .inl ⟨place, hplace⟩, fun _ hover => ?_⟩
    exact ensure_error_iff.2 (pathsEquivalent_of_found hover hplace)
  · unfold PathGuarded
    rw [ensure_error_iff, pathsEquivalent_of_not_found hthere, decide_eq_true_iff,
      normalizedAbsolutePath_eq_iff hm hu]
    exact ⟨fun h hover => .inr (h hover), fun h hover => (h hover).resolve_left hthere⟩

/-- Without links every path that leads to the user's config is refused. -/
theorem pathGuarded_of_linkless (cwd : Option Text) (hl : Linkless t) (hm : Text.Path.isRooted managed = true)
    (hu : Text.Path.isRooted userConfig = true) : PathGuarded t cwd managed userConfig := by
  refine (pathGuarded_iff t cwd hm hu).2 ?_
  rintro ⟨t', place, hw, hu'⟩
  obtain ⟨hl', hplace⟩ := hl.writeWithParents hw
  exact .inr (hplace.symm.trans (walk_linkless hl' (.inl hu')))

/-- `/h/.ssh` is a link to `/d`, where no config is yet. -/
def linkedSsh : Tree := fun place =>
  if place = [['h']] ∨ place = [['d']] then some .dir
  else if place = [['h'], ".ssh".toList] then some (.link "/d".toList)
  else none

/-- A spelling of the user's path with `..` and doubled slashes is refused. -/
theorem pathGuarded_linkedSsh : PathGuarded linkedSsh none "/h/../h//.ssh/config".toList "/h/.ssh/config".toList :=
  (pathGuarded_iff linkedSsh none (by decide) (by decide)).2 fun _ => .inr (by decide +kernel)

def writtenThroughLink : Option (Tree × Place) := writeWithParents linkedSsh "/d/config".toList

theorem writtenThroughLink_overwrites : writtenThroughLink.any (fun w =>
    decide (resolve w.1 "/h/.ssh/config".toList = .found w.2)) = true := by decide +kernel

/-- The target of the link is taken for another file as long as there is none. -/
theorem linked_config_overwritten : ¬∀ (t : Tree) (cwd : Option Text) (managed userConfig : Text),
    Text.Path.isRooted managed = true → Text.Path.isRooted userConfig = true →
      PathGuarded t cwd managed userConfig := by
  intro hall
  obtain ⟨⟨t', place⟩, hw, hu⟩ := (Option.any_eq_true _ _).1 writtenThroughLink_overwrites
  have hover : Overwrites linkedSsh "/d/config".toList "/h/.ssh/config".toList :=
    ⟨t', place, hw, of_decide_eq_true hu⟩
  have herror := ensure_error_iff.1 (hall linkedSsh none _ _ (by decide) (by decide) hover)
  exact absurd herror (by decide +kernel)

end SshWarden
