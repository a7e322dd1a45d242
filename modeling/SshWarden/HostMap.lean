import SshWarden.Data
import SshWarden.SshConfig
import Mathlib.Logic.Function.Basic

/-!
# Bindings as a map

What the bindings file is for: a map from item ids to host lists, and what each command does to it.
A well-formed file (`WellFormed`) keeps, for listed keys only, lists of trimmed valid patterns without
repetitions up to ASCII case. Each method of the file acts on its map as the command says and keeps
the file well formed.
-/

namespace SshWarden

abbrev HostMap : Type := Text → List Text

inductive BindingsCommand where
  /-- `keys bind` -/
  | bind (key : Text) (hosts : List Text)
  /-- `keys unbind` -/
  | unbind (key : Text) (host : Option Text) (all : Bool)
  /-- saving the bind dialog -/
  | save (payload : List (Text × List Text))
  deriving DecidableEq

namespace HostMap

def bind (m : HostMap) (id : Text) (hosts : List Text) : HostMap :=
  Function.update m id ((hosts.map Text.trim).foldl (Distinct.push Text.eqIgnoreAsciiCase) (m id))

def unbind (m : HostMap) (id host : Text) : HostMap :=
  Function.update m id ((m id).filter fun h => !Text.eqIgnoreAsciiCase h (Text.trim host))

def replace (m : HostMap) (id : Text) (hosts : List Text) : HostMap :=
  Function.update m id (Distinct.ofList Text.eqIgnoreAsciiCase (hosts.map Text.trim))

/-- The map after a successful command. -/
def after (keys : List ManagedKey) (m : HostMap) : BindingsCommand → HostMap
  | .bind key hosts =>
    match resolveCipherId (some keys) key with
    | .ok id => m.bind id hosts
    | .error _ => m
  | .unbind key host all =>
    match resolveCipherId (some keys) key with
    | .ok id => if all then Function.update m id [] else m.unbind id (host.getD [])
    | .error _ => m
  | .save payload => payload.foldl (fun m p => m.replace p.1 p.2) m

theorem update_congr {m m' : HostMap} {id : Text} (h : m id = m' id) (id' : Text)
    (f : List Text → List Text) :
    Function.update m id' (f (m id')) id = Function.update m' id' (f (m' id')) id := by
  by_cases hid : id = id'
  · subst hid
    rw [Function.update_self, Function.update_self, h]
  · rw [Function.update_of_ne hid, Function.update_of_ne hid, h]

/-- A command treats each id by itself. -/
theorem after_congr {keys : List ManagedKey} {m m' : HostMap} {id : Text} (h : m id = m' id)
    (c : BindingsCommand) : m.after keys c id = m'.after keys c id := by
  cases c with
  | bind key hosts =>
    simp only [after]
    cases resolveCipherId (some keys) key with
    | ok id' => exact update_congr h id' fun hs => (hosts.map Text.trim).foldl _ hs
    | error e => exact h
  | unbind key host all =>
    simp only [after]
    cases resolveCipherId (some keys) key with
    | ok id' =>
      cases all with
      | true => exact update_congr h id' fun _ => []
      | false => exact update_congr h id' fun hs => hs.filter _
    | error e => exact h
  | save payload =>
    simp only [after]
    induction payload generalizing m m' with
    | nil => exact h
    | cons p payload ih => exact ih (update_congr h p.1 fun _ => Distinct.ofList _ _)

end HostMap

/-- Hosts as the file's own methods leave them. -/
structure NormalHosts (hosts : List Text) : Prop where
  valid : ∀ h ∈ hosts, validateHostPattern h = .ok ()
  trimmed : ∀ h ∈ hosts, Text.trim h = h
  distinct : Distinct.IsDistinct Text.eqIgnoreAsciiCase hosts

namespace NormalHosts

variable {hosts hosts' : List Text}

theorem nil : NormalHosts [] := by
  constructor
  · simp
  · simp
  · exact List.Pairwise.nil

theorem filter (h : NormalHosts hosts) (p : Text → Bool) : NormalHosts (hosts.filter p) where
  valid x hx := h.valid x (List.mem_filter.1 hx).1
  trimmed x hx := h.trimmed x (List.mem_filter.1 hx).1
  distinct := List.Pairwise.filter _ h.distinct

theorem push (h : NormalHosts hosts) {x : Text} (hx : validateHostPattern x = .ok ()) :
    NormalHosts (Distinct.push Text.eqIgnoreAsciiCase hosts (Text.trim x)) where
  valid y hy := by
    rcases Distinct.mem_push hy with hy | rfl
    · exact h.valid y hy
    · exact (validateHostPattern_of_trim hx).2
  trimmed y hy := by
    rcases Distinct.mem_push hy with hy | rfl
    · exact h.trimmed y hy
    · exact (validateHostPattern_of_trim hx).1
  distinct := h.distinct.push _

theorem ofList (h : ∀ x ∈ hosts, validateHostPattern x = .ok ()) :
    NormalHosts (Distinct.ofList Text.eqIgnoreAsciiCase (hosts.map Text.trim)) := by
  have hmem : ∀ y ∈ Distinct.ofList Text.eqIgnoreAsciiCase (hosts.map Text.trim),
      ∃ x, validateHostPattern x = .ok () ∧ Text.trim x = y := by
    intro y hy
    rcases Distinct.mem_foldl_push hy with hy | hy
    · exact absurd hy List.not_mem_nil
    · obtain ⟨x, hx, rfl⟩ := List.mem_map.1 hy
      exact ⟨x, h x hx, rfl⟩
  constructor
  · intro y hy
    obtain ⟨x, hx, rfl⟩ := hmem y hy
    exact (validateHostPattern_of_trim hx).2
  · intro y hy
    obtain ⟨x, hx, rfl⟩ := hmem y hy
    exact (validateHostPattern_of_trim hx).1
  · exact Distinct.isDistinct_ofList _

/-- Writing a normal list back changes nothing in it. -/
theorem ofList_eq (h : NormalHosts hosts) :
    Distinct.ofList Text.eqIgnoreAsciiCase (hosts.map Text.trim) = hosts := by
  have ht : hosts.map Text.trim = hosts := by
    conv_rhs => rw [← List.map_id hosts]
    exact List.map_congr_left h.trimmed
  rw [ht]
  exact Distinct.ofList_of_distinct h.distinct

theorem no_whitespace (h : NormalHosts hosts) :
    ∀ x ∈ hosts, x ≠ [] ∧ ∀ c ∈ x, Text.isWhitespace c = false := by
  intro x hx
  have hv := validateHostPattern_trim (h.valid x hx)
  rwa [h.trimmed x hx] at hv

end NormalHosts

namespace HostBindingsFile

variable {file file' : HostBindingsFile} {id : Text}

structure WellFormed (keys : List ManagedKey) (file : HostBindingsFile) : Prop where
  ne_nil : ∀ id, file.bindings.get? id ≠ some []
  normal : ∀ id, NormalHosts (file.hosts id)
  listed : ∀ p ∈ file.bindings, p.1 ∈ keys.map ManagedKey.cipherId

theorem wellFormed_empty (keys : List ManagedKey) : WellFormed keys {} where
  ne_nil id := by simp
  normal id := NormalHosts.nil
  listed p hp := absurd hp List.not_mem_nil

theorem hosts_insert (file : HostBindingsFile) (id : Text) (hosts : List Text) :
    HostBindingsFile.hosts { bindings := file.bindings.insert id hosts } =
      Function.update file.hosts id hosts := by
  funext id'
  unfold HostBindingsFile.hosts
  rw [Assoc.get?_insert]
  by_cases h : id = id'
  · subst h
    simp
  · rw [if_neg h, Function.update_of_ne (Ne.symm h)]

theorem hosts_erase (file : HostBindingsFile) (id : Text) :
    HostBindingsFile.hosts { bindings := file.bindings.erase id } = Function.update file.hosts id [] := by
  funext id'
  unfold HostBindingsFile.hosts
  rw [Assoc.get?_erase]
  by_cases h : id = id'
  · subst h
    simp
  · rw [if_neg h, Function.update_of_ne (Ne.symm h)]

theorem WellFormed.insert {keys : List ManagedKey} (h : WellFormed keys file) {hosts : List Text}
    (hne : hosts ≠ [])
    (hn : NormalHosts hosts) (hid : id ∈ keys.map ManagedKey.cipherId) :
    WellFormed keys { bindings := file.bindings.insert id hosts } where
  ne_nil id' := by
    rw [Assoc.get?_insert]
    split_ifs
    · simpa using hne
    · exact h.ne_nil id'
  normal id' := by
    rw [hosts_insert]
    by_cases hid' : id' = id
    · subst hid'
      simpa using hn
    · rw [Function.update_of_ne hid']
      exact h.normal id'
  listed p hp := by
    rcases Assoc.mem_insert hp with rfl | hp
    · exact hid
    · exact h.listed p hp

theorem WellFormed.erase {keys : List ManagedKey} (h : WellFormed keys file) (id : Text) :
    WellFormed keys { bindings := file.bindings.erase id } where
  ne_nil id' := by
    rw [Assoc.get?_erase]
    split_ifs
    · simp
    · exact h.ne_nil id'
  normal id' := by
    rw [hosts_erase]
    by_cases hid' : id' = id
    · subst hid'
      simpa using NormalHosts.nil
    · rw [Function.update_of_ne hid']
      exact h.normal id'
  listed p hp := h.listed p (Assoc.mem_erase hp)

/-! ### The methods -/

theorem forM_validate_ok {hosts : List Text} (h : hosts.forM validateHostPattern = .ok ()) :
    ∀ x ∈ hosts, validateHostPattern x = .ok () := by
  induction hosts with
  | nil => simp
  | cons x hosts ih =>
    rw [List.forM_eq_forM, List.forM_cons] at h
    obtain ⟨⟨⟩, hx, h⟩ := except_bind_ok h
    exact List.forall_mem_cons.2 ⟨hx, ih h⟩

theorem forM_validate_eq_ok {hosts : List Text} (h : ∀ x ∈ hosts, validateHostPattern x = .ok ()) :
    hosts.forM validateHostPattern = .ok () := by
  induction hosts with
  | nil => rfl
  | cons x hosts ih =>
    rw [List.forM_eq_forM, List.forM_cons, h x (List.mem_cons_self ..)]
    exact ih fun y hy => h y (List.mem_cons_of_mem _ hy)

theorem setHosts_ok {hosts : List Text} (h : file.setHosts id hosts = .ok file') :
    file'.hosts = HostMap.replace file.hosts id hosts ∧
      ∀ keys, WellFormed keys file → id ∈ keys.map ManagedKey.cipherId → WellFormed keys file' := by
  unfold setHosts at h
  obtain ⟨⟨⟩, hvalid, h⟩ := except_bind_ok h
  have hn := NormalHosts.ofList (forM_validate_ok hvalid)
  unfold HostMap.replace
  dsimp only at h
  split_ifs at h with hnil
  · cases h
    rw [hosts_erase, hnil]
    exact ⟨rfl, fun _ hw _ => hw.erase id⟩
  · cases h
    rw [hosts_insert]
    exact ⟨rfl, fun _ hw hid => hw.insert hnil hn hid⟩

theorem setHosts_of_normal {hosts : List Text} (hn : NormalHosts hosts) (hne : hosts ≠ []) :
    file.setHosts id hosts = .ok { bindings := file.bindings.insert id hosts } := by
  unfold setHosts
  rw [forM_validate_eq_ok hn.valid, hn.ofList_eq]
  simp [hne, bind, Except.bind, pure, Except.pure]

theorem addHost_ok {host : Text} (h : file.addHost id host = .ok file') :
    file'.hosts = HostMap.bind file.hosts id [host] ∧
      ∀ keys, WellFormed keys file → id ∈ keys.map ManagedKey.cipherId → WellFormed keys file' := by
  unfold addHost at h
  obtain ⟨⟨⟩, hvalid, h⟩ := except_bind_ok h
  cases h
  rw [hosts_insert]
  exact ⟨rfl, fun _ hw hid => hw.insert (Distinct.push_ne_nil _ _) ((hw.normal id).push hvalid) hid⟩

theorem addHosts_ok {hosts : List Text} (h : addHosts id hosts file = .ok file') :
    file'.hosts = HostMap.bind file.hosts id hosts ∧
      ∀ keys, WellFormed keys file → id ∈ keys.map ManagedKey.cipherId → WellFormed keys file' := by
  induction hosts generalizing file with
  | nil =>
    cases h
    exact ⟨(Function.update_eq_self id _).symm, fun _ hw _ => hw⟩
  | cons host hosts ih =>
    unfold addHosts at h
    obtain ⟨file₁, hadd, h⟩ := except_bind_ok h
    obtain ⟨hhosts, hwf⟩ := addHost_ok hadd
    obtain ⟨hhosts', hwf'⟩ := ih h
    refine ⟨?_, fun keys hw hid => hwf' keys (hwf keys hw hid) hid⟩
    rw [hhosts', hhosts]
    unfold HostMap.bind
    simp

theorem removeHost_spec (file : HostBindingsFile) (id host : Text) :
    (file.removeHost id host).1.hosts = HostMap.unbind file.hosts id host ∧
      ∀ keys, WellFormed keys file → WellFormed keys (file.removeHost id host).1 := by
  unfold removeHost HostMap.unbind
  cases hget : file.bindings.get? id with
  | none =>
    have hnil : file.hosts id = [] := by simp [HostBindingsFile.hosts, hget]
    refine ⟨?_, fun _ hw => hw⟩
    rw [hnil]
    exact (Function.update_eq_self_iff.2 hnil.symm).symm
  | some hosts =>
    have hhosts : file.hosts id = hosts := by simp [HostBindingsFile.hosts, hget]
    dsimp only
    rw [hhosts]
    split_ifs with hnil
    · rw [hosts_erase, hnil]
      exact ⟨rfl, fun _ hw => hw.erase id⟩
    · rw [hosts_insert]
      refine ⟨rfl, fun _ hw => hw.insert hnil (NormalHosts.filter (hhosts ▸ hw.normal id) _) ?_⟩
      exact hw.listed (id, hosts) (Assoc.get?_eq_some_mem hget)

theorem removeHosts_ok {host : Option Text} {all : Bool} {changed : Bool}
    (h : removeHosts id host all file = .ok (file', changed)) :
    file'.hosts = (if all then Function.update file.hosts id []
      else HostMap.unbind file.hosts id (host.getD [])) ∧
      ∀ keys, WellFormed keys file → WellFormed keys file' := by
  unfold removeHosts at h
  split at h
  · cases h
  · cases h
  · cases h
    exact ⟨hosts_erase file id, fun _ hw => hw.erase id⟩
  · obtain ⟨hhosts, hwf⟩ := removeHost_spec file id ‹Text›
    obtain rfl := congrArg Prod.fst (Except.ok.inj h)
    exact ⟨hhosts, hwf⟩

theorem setAllHosts_ok {payload : List (Text × List Text)} (h : setAllHosts payload file = .ok file') :
    file'.hosts = payload.foldl (fun m p => HostMap.replace m p.1 p.2) file.hosts ∧
      ∀ keys, WellFormed keys file → (∀ p ∈ payload, p.1 ∈ keys.map ManagedKey.cipherId) →
        WellFormed keys file' := by
  induction payload generalizing file with
  | nil =>
    cases h
    exact ⟨rfl, fun _ hw _ => hw⟩
  | cons p payload ih =>
    obtain ⟨id, hosts⟩ := p
    unfold setAllHosts at h
    obtain ⟨file₁, hset, h⟩ := except_bind_ok h
    obtain ⟨hhosts, hwf⟩ := setHosts_ok hset
    obtain ⟨hhosts', hwf'⟩ := ih h
    refine ⟨by rw [hhosts', hhosts, List.foldl_cons], fun keys hw hp => ?_⟩
    obtain ⟨hid, hp⟩ := List.forall_mem_cons.1 hp
    exact hwf' keys (hwf keys hw hid) hp

/-- Nothing is pruned from a file of listed keys. -/
theorem pruneOrphans_of_wellFormed {keys : List ManagedKey} (h : WellFormed keys file) :
    file.pruneOrphans (keys.map ManagedKey.cipherId) = (file, 0) := by
  have hkept : (file.bindings.filter fun p => p.1 ∈ keys.map ManagedKey.cipherId) = file.bindings :=
    List.filter_eq_self.2 fun p hp => by simpa using h.listed p hp
  unfold pruneOrphans
  dsimp only
  rw [hkept, Nat.sub_self]

end HostBindingsFile

end SshWarden
