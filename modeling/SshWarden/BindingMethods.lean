import SshWarden.HostMap
import SshWarden.Lib.OrderedSet
import Mathlib.Data.Set.Card

/-!
# The methods on a bindings file in memory

Each method gets the file to change, so a failing one could leave it half changed. What the file is for is a
map from item ids to ordered sets of host patterns up to ASCII case (`HostSets`); the methods act on the file as the
commands on that map (`Represents.exec`), from the empty file on.
-/

namespace SshWarden

/-- What a method gives back, and the file it leaves, also when it fails. -/
abbrev BindingM (α : Type) : Type := ExceptT BindingError (StateM HostBindingsFile) α

namespace BindingM

def validateHostPattern (pattern : Text) : BindingM Unit :=
  match SshWarden.validateHostPattern pattern with
  | .ok () => pure ()
  | .error e => throw e

def setHosts (cipherUuid : Text) (hosts : List Text) : BindingM Unit := do
  hosts.forM validateHostPattern
  let deduped := Distinct.ofList Text.eqIgnoreAsciiCase (hosts.map Text.trim)
  modify fun file =>
    if deduped = [] then { file with bindings := file.bindings.erase cipherUuid }
    else { file with bindings := file.bindings.insert cipherUuid deduped }

def addHost (cipherUuid host : Text) : BindingM Unit := do
  validateHostPattern host
  modify fun file =>
    let entry := (file.bindings.get? cipherUuid).getD []
    { file with
      bindings := file.bindings.insert cipherUuid (Distinct.push Text.eqIgnoreAsciiCase entry (Text.trim host)) }

def removeHost (cipherUuid host : Text) : BindingM Bool := modifyGet fun file =>
  ((file.removeHost cipherUuid host).2, (file.removeHost cipherUuid host).1)

def clearKey (cipherUuid : Text) : BindingM Bool := modifyGet fun file =>
  ((file.clearKey cipherUuid).2, (file.clearKey cipherUuid).1)

def pruneOrphans (knownIds : List Text) : BindingM Nat := modifyGet fun file =>
  ((file.pruneOrphans knownIds).2, (file.pruneOrphans knownIds).1)

end BindingM

inductive BindingCall where
  | setHosts (cipherUuid : Text) (hosts : List Text)
  | addHost (cipherUuid host : Text)
  | removeHost (cipherUuid host : Text)
  | clearKey (cipherUuid : Text)
  | pruneOrphans (knownIds : List Text)

inductive BindingAnswer where
  | done
  | changed (b : Bool)
  | pruned (n : Nat)
  deriving DecidableEq

namespace BindingCall

def run : BindingCall → BindingM BindingAnswer
  | setHosts id hosts => do BindingM.setHosts id hosts; return .done
  | addHost id host => do BindingM.addHost id host; return .done
  | removeHost id host => return .changed (← BindingM.removeHost id host)
  | clearKey id => return .changed (← BindingM.clearKey id)
  | pruneOrphans ids => return .pruned (← BindingM.pruneOrphans ids)

/-- The answer of a call and the file after it. -/
def exec (call : BindingCall) (file : HostBindingsFile) : Except BindingError BindingAnswer × HostBindingsFile :=
  StateT.run (ExceptT.run call.run) file

end BindingCall

def runCalls (calls : List BindingCall) (file : HostBindingsFile) : HostBindingsFile :=
  calls.foldl (fun file call => (call.exec file).2) file

/-! A method that fails has changed nothing, and one that succeeds is the function on files. -/

namespace BindingM

theorem run_validate (pattern : Text) (file : HostBindingsFile) :
    StateT.run (ExceptT.run (validateHostPattern pattern)) file =
      (SshWarden.validateHostPattern pattern, file) := by
  unfold validateHostPattern
  cases SshWarden.validateHostPattern pattern <;> rfl

theorem run_bind {α β : Type} (m : BindingM α) (f : α → BindingM β) (file : HostBindingsFile) :
    StateT.run (ExceptT.run (m >>= f)) file =
      match StateT.run (ExceptT.run m) file with
      | (.ok a, file') => StateT.run (ExceptT.run (f a)) file'
      | (.error e, file') => (.error e, file') := by
  change StateT.run (ExceptT.run m >>= ExceptT.bindCont f) file = _
  rw [StateT.run_bind]
  change (match StateT.run (ExceptT.run m) file with | (a, file') => _) = _
  rcases StateT.run (ExceptT.run m) file with ⟨_ | a, file'⟩ <;> rfl

theorem run_validateAll (hosts : List Text) (file : HostBindingsFile) :
    StateT.run (ExceptT.run (hosts.forM validateHostPattern)) file =
      (hosts.forM SshWarden.validateHostPattern, file) := by
  induction hosts with
  | nil => rfl
  | cons host hosts ih =>
    rw [List.forM_eq_forM, List.forM_cons, run_bind, run_validate, List.forM_eq_forM, List.forM_cons]
    cases SshWarden.validateHostPattern host with
    | ok _ => exact ih
    | error e => rfl

end BindingM

namespace BindingCall

theorem exec_setHosts (id : Text) (hosts : List Text) (file : HostBindingsFile) : (setHosts id hosts).exec file =
    match file.setHosts id hosts with
    | .ok file' => (.ok .done, file')
    | .error e => (.error e, file) := by
  unfold exec run BindingM.setHosts HostBindingsFile.setHosts
  rw [BindingM.run_bind, BindingM.run_bind, BindingM.run_validateAll]
  cases hosts.forM SshWarden.validateHostPattern with
  | error e => rfl
  | ok _ =>
    change (Except.ok BindingAnswer.done, if _ then _ else _) = _
    dsimp only [bind, Except.bind, pure, Except.pure]
    split_ifs <;> rfl

theorem exec_addHost (id host : Text) (file : HostBindingsFile) : (addHost id host).exec file =
    match file.addHost id host with
    | .ok file' => (.ok .done, file')
    | .error e => (.error e, file) := by
  unfold exec run BindingM.addHost HostBindingsFile.addHost
  rw [BindingM.run_bind, BindingM.run_bind, BindingM.run_validate]
  cases SshWarden.validateHostPattern host <;> rfl

theorem exec_removeHost (id host : Text) (file : HostBindingsFile) : (removeHost id host).exec file =
    (.ok (.changed (file.removeHost id host).2), (file.removeHost id host).1) := rfl

theorem exec_clearKey (id : Text) (file : HostBindingsFile) : (clearKey id).exec file =
    (.ok (.changed (file.clearKey id).2), (file.clearKey id).1) := rfl

theorem exec_pruneOrphans (ids : List Text) (file : HostBindingsFile) : (pruneOrphans ids).exec file =
    (.ok (.pruned (file.pruneOrphans ids).2), (file.pruneOrphans ids).1) := rfl

theorem file_of_error {call : BindingCall} {file : HostBindingsFile} {e : BindingError}
    (h : (call.exec file).1 = .error e) : (call.exec file).2 = file := by
  cases call with
  | setHosts id hosts =>
    rw [exec_setHosts] at h ⊢
    cases hset : file.setHosts id hosts with
    | ok file' =>
      rw [hset] at h
      cases h
    | error e => rfl
  | addHost id host =>
    rw [exec_addHost] at h ⊢
    cases hadd : file.addHost id host with
    | ok file' =>
      rw [hadd] at h
      cases h
    | error e => rfl
  | removeHost id host => cases h
  | clearKey id => cases h
  | pruneOrphans ids => cases h

end BindingCall

/-- A host pattern as the file keeps it. -/
structure HostPattern where
  text : Text
  trimmed : Text.trim text = text
  valid : validateHostPattern text = .ok ()

/-- Patterns are compared without ASCII case. -/
def HostPattern.key (p : HostPattern) : Text := p.text.map Char.toLower

def HostPattern.parse (pattern : Text) : Except BindingError HostPattern :=
  match h : validateHostPattern pattern with
  | .ok () => .ok ⟨Text.trim pattern, (validateHostPattern_of_trim h).1, (validateHostPattern_of_trim h).2⟩
  | .error e => .error e

theorem HostPattern.parse_cases (pattern : Text) :
    (∃ p, parse pattern = .ok p ∧ validateHostPattern pattern = .ok () ∧ p.text = Text.trim pattern) ∨
      ∃ e, parse pattern = .error e ∧ validateHostPattern pattern = .error e := by
  unfold parse
  split
  · next h => exact .inl ⟨_, rfl, h, rfl⟩
  · next e h => exact .inr ⟨e, rfl, h⟩

theorem HostPattern.parseAll_cases (patterns : List Text) :
    (∃ ps, patterns.mapM parse = .ok ps ∧ patterns.forM validateHostPattern = .ok () ∧
      ps.map HostPattern.text = patterns.map Text.trim) ∨
    ∃ e, patterns.mapM parse = .error e ∧ patterns.forM validateHostPattern = .error e := by
  induction patterns with
  | nil => exact .inl ⟨[], rfl, rfl, rfl⟩
  | cons pattern patterns ih =>
    rw [List.mapM_cons, List.forM_eq_forM, List.forM_cons]
    rcases parse_cases pattern with ⟨p, hparse, hvalid, htext⟩ | ⟨e, hparse, hvalid⟩
    · rw [hparse, hvalid]
      rcases ih with ⟨ps, hps, hall, hmap⟩ | ⟨e, hps, hall⟩
      · refine .inl ⟨p :: ps, ?_, hall, ?_⟩
        · simp [hps, bind, Except.bind, pure, Except.pure]
        · rw [List.map_cons, List.map_cons, htext, hmap]
      · refine .inr ⟨e, ?_, hall⟩
        simp [hps, bind, Except.bind]
    · rw [hparse, hvalid]
      exact .inr ⟨e, rfl, rfl⟩

abbrev HostSet : Type := OrderedSet HostPattern.key

abbrev HostSets : Type := Text → HostSet

namespace HostSets
variable (m : HostSets)

/-- The sets after a call, and its answer. -/
noncomputable def exec : BindingCall → Except BindingError BindingAnswer × HostSets
  | .setHosts id hosts =>
    match hosts.mapM HostPattern.parse with
    | .ok ps => (.ok .done, Function.update m id (OrderedSet.ofList ps))
    | .error e => (.error e, m)
  | .addHost id host =>
    match HostPattern.parse host with
    | .ok p => (.ok .done, Function.update m id ((m id).insert p))
    | .error e => (.error e, m)
  | .removeHost id host =>
    let key := (Text.trim host).map Char.toLower
    (.ok (.changed (key ∈ (m id).keys)), Function.update m id ((m id).erase key))
  | .clearKey id => (.ok (.changed ((m id).toList ≠ [])), Function.update m id OrderedSet.empty)
  | .pruneOrphans ids =>
    (.ok (.pruned {id | (m id).toList ≠ [] ∧ id ∉ ids}.ncard),
      fun id => if id ∈ ids then m id else OrderedSet.empty)

noncomputable def after (calls : List BindingCall) : HostSets := calls.foldl (fun m call => (m.exec call).2) m

end HostSets

namespace HostSet
variable (s : HostSet)

def hosts : List Text := s.toList.map HostPattern.text

/-- A file has no entry for an empty set. -/
def entry : Option (List Text) := if s.hosts = [] then none else some s.hosts

@[simp] theorem hosts_eq_nil : s.hosts = [] ↔ s.toList = [] := List.map_eq_nil_iff

theorem isSome_entry : s.entry.isSome = decide (s.toList ≠ []) := by
  unfold entry
  split_ifs with h <;> simpa using h

theorem entry_getD : s.entry.getD [] = s.hosts := by
  unfold entry
  split_ifs with h <;> simp [h]

theorem entry_cases : s.entry = none ∧ s.hosts = [] ∨ s.entry = some s.hosts ∧ s.hosts ≠ [] := by
  unfold entry
  split_ifs with h
  · exact .inl ⟨rfl, h⟩
  · exact .inr ⟨rfl, h⟩

theorem hosts_normal : NormalHosts s.hosts where
  valid x hx := by
    obtain ⟨p, -, rfl⟩ := List.mem_map.1 hx
    exact p.valid
  trimmed x hx := by
    obtain ⟨p, -, rfl⟩ := List.mem_map.1 hx
    exact p.trimmed
  distinct := by
    refine List.pairwise_map.2 ((List.pairwise_map.1 s.nodup).imp fun hne => ?_)
    exact beq_eq_false_iff_ne.2 hne

theorem mem_keys_iff (key : Text) : key ∈ s.keys ↔ ∃ h ∈ s.hosts, h.map Char.toLower = key := by
  simp [OrderedSet.keys, hosts, HostPattern.key]

theorem hosts_insert (p : HostPattern) :
    HostSet.hosts (s.insert p) = Distinct.push Text.eqIgnoreAsciiCase s.hosts p.text := by
  have hany : (s.hosts.any fun y => Text.eqIgnoreAsciiCase y p.text) = true ↔ p.key ∈ s.keys := by
    rw [mem_keys_iff, List.any_eq_true]
    simp only [Text.eqIgnoreAsciiCase, beq_iff_eq]
    rfl
  unfold hosts Distinct.push
  rw [OrderedSet.toList_insert]
  split_ifs with h h' h'
  · rfl
  · exact absurd (hany.2 h) h'
  · exact absurd (hany.1 h') h
  · exact List.map_append

theorem hosts_foldl_insert (ps : List HostPattern) :
    HostSet.hosts (ps.foldl (fun s p => s.insert p) s) =
      (ps.map HostPattern.text).foldl (Distinct.push Text.eqIgnoreAsciiCase) s.hosts := by
  induction ps generalizing s with
  | nil => rfl
  | cons p ps ih => rw [List.foldl_cons, ih, hosts_insert, List.map_cons, List.foldl_cons]

theorem hosts_erase (host : Text) : HostSet.hosts (s.erase (host.map Char.toLower)) =
    s.hosts.filter fun h => !Text.eqIgnoreAsciiCase h host := by
  unfold hosts
  rw [OrderedSet.toList_erase, List.filter_map]
  congr 1
  refine List.filter_congr fun p _ => ?_
  rw [Bool.eq_iff_iff, decide_eq_true_iff]
  simp [Text.eqIgnoreAsciiCase, HostPattern.key]

theorem length_hosts_erase_ne (k : Text) :
    (HostSet.hosts (s.erase k)).length ≠ s.hosts.length ↔ k ∈ s.keys := by
  unfold hosts
  rw [List.length_map, List.length_map]
  exact OrderedSet.length_erase_ne

end HostSet

/-! ### The file as a map of host sets -/

/-- The file has the hosts of each set under its id, each id once. -/
structure Represents (file : HostBindingsFile) (m : HostSets) : Prop where
  nodup : (file.bindings.map Prod.fst).Nodup
  get? : ∀ id, file.bindings.get? id = (m id).entry

/-- The call answers as on the map and leaves a file of the sets after it. -/
def Agrees (call : BindingCall) (file : HostBindingsFile) (m : HostSets) : Prop :=
  (call.exec file).1 = (m.exec call).1 ∧ Represents (call.exec file).2 (m.exec call).2

namespace Represents
variable {file : HostBindingsFile} {m : HostSets}

theorem empty : Represents {} fun _ => OrderedSet.empty := ⟨List.nodup_nil, fun _ => rfl⟩

theorem hosts (h : Represents file m) (id : Text) : file.hosts id = (m id).hosts := by
  unfold HostBindingsFile.hosts
  rw [h.get?, HostSet.entry_getD]

theorem mem (h : Represents file m) {p : Text × List Text} (hp : p ∈ file.bindings) :
    p.2 = (m p.1).hosts ∧ p.2 ≠ [] := by
  have hget := h.get? p.1
  rw [Assoc.get?_of_mem h.nodup hp] at hget
  unfold HostSet.entry at hget
  split_ifs at hget with hnil
  have hhosts : p.2 = (m p.1).hosts := Option.some.inj hget
  exact ⟨hhosts, hhosts ▸ hnil⟩

theorem insert (h : Represents file m) (id : Text) {s : HostSet} (hs : s.hosts ≠ []) :
    Represents { bindings := file.bindings.insert id s.hosts } (Function.update m id s) where
  nodup := Assoc.nodup_insert h.nodup id s.hosts
  get? id' := by
    rw [Assoc.get?_insert, h.get?]
    by_cases hid : id = id'
    · subst hid
      rw [if_pos rfl, Function.update_self]
      exact (if_neg hs).symm
    · rw [if_neg hid, Function.update_of_ne (Ne.symm hid)]

theorem erase (h : Represents file m) (id : Text) {s : HostSet} (hs : s.hosts = []) :
    Represents { bindings := file.bindings.erase id } (Function.update m id s) where
  nodup := h.nodup.sublist (List.filter_sublist.map _)
  get? id' := by
    rw [Assoc.get?_erase, h.get?]
    by_cases hid : id = id'
    · subst hid
      rw [if_pos rfl, Function.update_self]
      exact (if_pos hs).symm
    · rw [if_neg hid, Function.update_of_ne (Ne.symm hid)]

/-! Call by call. -/

theorem setHosts (h : Represents file m) (id : Text) (hosts : List Text) : Agrees (.setHosts id hosts) file m := by
  unfold Agrees
  rw [BindingCall.exec_setHosts]
  simp only [HostBindingsFile.setHosts, HostSets.exec]
  rcases HostPattern.parseAll_cases hosts with ⟨ps, hparse, hvalid, htext⟩ | ⟨e, hparse, hvalid⟩
  · rw [hparse, hvalid]
    have hofList : HostSet.hosts (OrderedSet.ofList ps) =
        Distinct.ofList Text.eqIgnoreAsciiCase (hosts.map Text.trim) := by
      rw [← htext]
      exact HostSet.hosts_foldl_insert _ ps
    simp only [bind, Except.bind, pure, Except.pure, ← hofList]
    split_ifs with hnil
    · exact ⟨rfl, h.erase id hnil⟩
    · exact ⟨rfl, h.insert id hnil⟩
  · rw [hparse, hvalid]
    exact ⟨rfl, h⟩

theorem addHost (h : Represents file m) (id host : Text) : Agrees (.addHost id host) file m := by
  unfold Agrees
  rw [BindingCall.exec_addHost]
  simp only [HostBindingsFile.addHost, HostSets.exec]
  rcases HostPattern.parse_cases host with ⟨p, hparse, hvalid, htext⟩ | ⟨e, hparse, hvalid⟩
  · rw [hparse, hvalid]
    have hentry : (file.bindings.get? id).getD [] = (m id).hosts := h.hosts id
    have hinsert := HostSet.hosts_insert (m id) p
    rw [htext] at hinsert
    simp only [bind, Except.bind, pure, Except.pure, hentry, ← hinsert]
    refine ⟨trivial, h.insert id ?_⟩
    rw [hinsert]
    exact Distinct.push_ne_nil _ _
  · rw [hparse, hvalid]
    exact ⟨rfl, h⟩

theorem removeHost (h : Represents file m) (id host : Text) : Agrees (.removeHost id host) file m := by
  unfold Agrees
  rw [BindingCall.exec_removeHost]
  have hkept := HostSet.hosts_erase (m id) (Text.trim host)
  have hchanged := (m id).length_hosts_erase_ne ((Text.trim host).map Char.toLower)
  simp only [HostBindingsFile.removeHost, HostSets.exec, h.get?]
  generalize (Text.trim host).map Char.toLower = key at hkept hchanged ⊢
  rcases (m id).entry_cases with ⟨hentry, hnil⟩ | ⟨hentry, hne⟩
  · have hsame : (m id).erase key = m id := OrderedSet.ext (by simp [HostSet.hosts_eq_nil _ |>.1 hnil])
    have hkey : key ∉ (m id).keys := fun hkey => hchanged.2 hkey (by rw [hsame])
    rw [hentry, hsame, Function.update_eq_self]
    exact ⟨by simp [hkey], h⟩
  · rw [hentry]
    dsimp only
    rw [← hkept]
    split_ifs with hnil
    · have hkey : key ∈ (m id).keys :=
        hchanged.1 fun hlength => hne (List.length_eq_zero_iff.1 (by simpa [hnil] using hlength.symm))
      exact ⟨by simp [hkey, hne], h.erase id hnil⟩
    · refine ⟨?_, h.insert id hnil⟩
      rw [decide_eq_decide.2 hchanged]

theorem ncard_orphans (h : Represents file m) (ids : List Text) :
    {id | (m id).toList ≠ [] ∧ id ∉ ids}.ncard =
      file.bindings.length - (file.bindings.filter fun p => p.1 ∈ ids).length := by
  have hset : {id | (m id).toList ≠ [] ∧ id ∉ ids} =
      ((file.bindings.filter fun p => p.1 ∉ ids).map Prod.fst).toFinset := by
    ext id
    rw [Set.mem_ofPred_eq, ← decide_eq_true_iff (p := (m id).toList ≠ []), ← HostSet.isSome_entry, ← h.get?,
      ← Assoc.mem_keys_iff]
    simp
  rw [hset, Set.ncard_coe_finset, List.toFinset_card_of_nodup (h.nodup.sublist (List.filter_sublist.map _)),
    List.length_map]
  have hsplit := List.length_eq_length_filter_add (l := file.bindings) fun p => decide (p.1 ∈ ids)
  simp only [← decide_not] at hsplit
  omega

theorem clearKey (h : Represents file m) (id : Text) : Agrees (.clearKey id) file m := by
  unfold Agrees
  rw [BindingCall.exec_clearKey]
  simp only [HostBindingsFile.clearKey, HostSets.exec, h.get?]
  refine ⟨?_, h.erase id rfl⟩
  rw [HostSet.isSome_entry]

theorem pruneOrphans (h : Represents file m) (ids : List Text) : Agrees (.pruneOrphans ids) file m := by
  unfold Agrees
  rw [BindingCall.exec_pruneOrphans]
  simp only [HostBindingsFile.pruneOrphans, HostSets.exec]
  refine ⟨?_, h.nodup.sublist (List.filter_sublist.map _), fun id => ?_⟩
  · rw [h.ncard_orphans]
  · rw [Assoc.get?_filter fun id => decide (id ∈ ids), h.get?]
    by_cases hid : id ∈ ids <;> simp [hid]
    rfl

theorem exec (h : Represents file m) (call : BindingCall) : Agrees call file m := by
  cases call with
  | setHosts id hosts => exact h.setHosts id hosts
  | addHost id host => exact h.addHost id host
  | removeHost id host => exact h.removeHost id host
  | clearKey id => exact h.clearKey id
  | pruneOrphans ids => exact h.pruneOrphans ids

theorem runCalls (h : Represents file m) (calls : List BindingCall) :
    Represents (runCalls calls file) (m.after calls) := by
  induction calls generalizing file m with
  | nil => exact h
  | cons call calls ih => exact ih (h.exec call).2

end Represents

/-- The map after the calls on an empty file. -/
noncomputable def hostSets (calls : List BindingCall) : HostSets :=
  HostSets.after (fun _ => OrderedSet.empty) calls

inductive SetEdit where
  | add (host : Text)
  | remove (host : Text)

namespace SetEdit

def call (id : Text) : SetEdit → BindingCall
  | add host => .addHost id host
  | remove host => .removeHost id host

/-- A pattern that is not valid is not inserted. -/
def apply (s : HostSet) : SetEdit → HostSet
  | add host =>
    match HostPattern.parse host with
    | .ok p => s.insert p
    | .error _ => s
  | remove host => s.erase ((Text.trim host).map Char.toLower)

theorem exec_call (m : HostSets) (id : Text) (e : SetEdit) :
    (m.exec (e.call id)).2 = Function.update m id (e.apply (m id)) := by
  cases e with
  | add host =>
    simp only [call, apply, HostSets.exec]
    cases HostPattern.parse host with
    | ok p => rfl
    | error _ => exact (Function.update_eq_self id m).symm
  | remove host => rfl

theorem after_calls (m : HostSets) (id : Text) (edits : List SetEdit) :
    m.after (edits.map (call id)) = Function.update m id (edits.foldl apply (m id)) := by
  induction edits generalizing m with
  | nil => exact (Function.update_eq_self id m).symm
  | cons e edits ih =>
    have hstep : m.after ((e :: edits).map (call id)) = (m.exec (e.call id)).2.after (edits.map (call id)) := rfl
    rw [hstep, ih, exec_call, Function.update_self, Function.update_idem, List.foldl_cons]

end SetEdit

/-- After any calls on an empty file its entries are not empty and hold trimmed valid patterns, different up to
case; a failing call changes nothing; and the file and the answers are those of the map of ordered sets. -/
theorem bindings_are_host_sets (calls : List BindingCall) :
    (∀ p ∈ (runCalls calls {}).bindings, p.2 ≠ [] ∧ NormalHosts p.2) ∧
      (∀ call file e, (BindingCall.exec call file).1 = .error e → (BindingCall.exec call file).2 = file) ∧
      Represents (runCalls calls {}) (hostSets calls) ∧
      (∀ call, (BindingCall.exec call (runCalls calls {})).1 = ((hostSets calls).exec call).1) ∧
      ∀ id patterns ps (edits : List SetEdit), patterns.mapM HostPattern.parse = .ok ps →
        (runCalls (.setHosts id patterns :: edits.map (SetEdit.call id)) (runCalls calls {})).hosts id =
          HostSet.hosts (edits.foldl SetEdit.apply (OrderedSet.ofList ps)) := by
  have hrep : Represents (runCalls calls {}) (hostSets calls) := Represents.empty.runCalls calls
  refine ⟨fun p hp => ?_, fun call file e => BindingCall.file_of_error, hrep, fun call => (hrep.exec call).1,
    fun id patterns ps edits hps => ?_⟩
  · obtain ⟨hhosts, hne⟩ := hrep.mem hp
    exact ⟨hne, hhosts ▸ HostSet.hosts_normal _⟩
  · rw [(hrep.runCalls _).hosts]
    have hset : ((hostSets calls).exec (.setHosts id patterns)).2 =
        Function.update (hostSets calls) id (OrderedSet.ofList ps) := by
      simp only [HostSets.exec, hps]
    have hafter : (hostSets calls).after (.setHosts id patterns :: edits.map (SetEdit.call id)) =
        ((hostSets calls).exec (.setHosts id patterns)).2.after (edits.map (SetEdit.call id)) := rfl
    rw [hafter, hset, SetEdit.after_calls, Function.update_self, Function.update_self]

end SshWarden
