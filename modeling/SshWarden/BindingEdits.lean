import SshWarden.BindingSteps
import SshWarden.HostMap
import SshWarden.Lib.Pool
import SshWarden.VaultSync

/-!
# The edits of the binding processes

What a command or a dialog changes is an edit (`HostEdit`): it says of some hosts of a key that they are
bound or that they are not. `View` is what a process knows of the files from its own steps, and `own` the
edits it makes when it saves them under the lock. Every save of a process, of its edits or without any,
leaves the other hosts of a key as they were where nothing has moved the key (`Unmoved`).
-/

namespace SshWarden
open Prog

/-- The list has the host, up to ASCII case and the white space around it. -/
def isNamed (hosts : List Text) (host : Text) : Bool :=
  hosts.any fun x => Text.eqIgnoreAsciiCase x (Text.trim host)

theorem eqIgnoreAsciiCase_iff {s t : Text} :
    Text.eqIgnoreAsciiCase s t = true ↔ s.map Char.toLower = t.map Char.toLower := beq_iff_eq

theorem isNamed_iff {hosts : List Text} {host : Text} : isNamed hosts host = true ↔
    ∃ x ∈ hosts, x.map Char.toLower = (Text.trim host).map Char.toLower := by
  simp [isNamed, eqIgnoreAsciiCase_iff]

theorem isNamed_push {hosts : List Text} {x host : Text} :
    isNamed (Distinct.push Text.eqIgnoreAsciiCase hosts x) host =
      (isNamed hosts host || Text.eqIgnoreAsciiCase x (Text.trim host)) := by
  unfold Distinct.push
  split_ifs with h
  · obtain ⟨y, hy, hyx⟩ := List.any_eq_true.1 h
    rw [Bool.eq_iff_iff, Bool.or_eq_true]
    refine ⟨.inl, fun hx => hx.elim id fun hx => ?_⟩
    exact isNamed_iff.2 ⟨y, hy, (eqIgnoreAsciiCase_iff.1 hyx).trans (eqIgnoreAsciiCase_iff.1 hx)⟩
  · simp [isNamed]

theorem isNamed_foldl_push {xs hosts : List Text} {host : Text} :
    isNamed (xs.foldl (Distinct.push Text.eqIgnoreAsciiCase) hosts) host =
      (isNamed hosts host || isNamed xs host) := by
  induction xs generalizing hosts with
  | nil => simp [isNamed]
  | cons x xs ih =>
    rw [List.foldl_cons, ih, isNamed_push, Bool.or_assoc]
    rfl

theorem isNamed_ofList {hosts : List Text} {host : Text} :
    isNamed (Distinct.ofList Text.eqIgnoreAsciiCase hosts) host = isNamed hosts host :=
  isNamed_foldl_push

theorem isNamed_filter {hosts : List Text} {x host : Text} :
    isNamed (hosts.filter fun y => !Text.eqIgnoreAsciiCase y (Text.trim x)) host =
      (isNamed hosts host && !Text.eqIgnoreAsciiCase (Text.trim x) (Text.trim host)) := by
  rw [Bool.eq_iff_iff, Bool.and_eq_true, isNamed_iff, isNamed_iff, Bool.not_eq_true', ← Bool.not_eq_true,
    eqIgnoreAsciiCase_iff]
  simp only [List.mem_filter, Bool.not_eq_true', ← Bool.not_eq_true (Text.eqIgnoreAsciiCase _ _),
    eqIgnoreAsciiCase_iff]
  constructor
  · rintro ⟨y, ⟨hy, hyx⟩, hyh⟩
    exact ⟨⟨y, hy, hyh⟩, fun hx => hyx (hyh.trans hx.symm)⟩
  · rintro ⟨⟨y, hy, hyh⟩, hx⟩
    exact ⟨y, ⟨hy, fun hyx => hx (hyx.symm.trans hyh)⟩, hyh⟩

inductive HostEdit where
  | added (id : Text) (hosts : List Text)
  | removed (id host : Text)
  | cleared (id : Text)
  /-- a dialog that showed the hosts `shown` of a key has saved `hosts` -/
  | replaced (id : Text) (shown hosts : List Text)
  deriving DecidableEq

namespace HostEdit

/-- The key whose hosts the edit is about. -/
def key : HostEdit → Text
  | added id _ | removed id _ | cleared id | replaced id _ _ => id

/-- Whether the edit binds the host to the key or takes it away, if it says anything about it. -/
def binds : HostEdit → Text → Text → Option Bool
  | added id hosts, id', host => if id = id' ∧ isNamed (hosts.map Text.trim) host then some true else none
  | removed id x, id', host =>
    if id = id' ∧ Text.eqIgnoreAsciiCase (Text.trim x) (Text.trim host) then some false else none
  | cleared id, id', _ => if id = id' then some false else none
  | replaced id shown hosts, id', host =>
    if id = id' ∧ isNamed (hosts.map Text.trim) host ≠ isNamed shown host then
      some (isNamed (hosts.map Text.trim) host)
    else none

theorem key_eq_of_binds {e : HostEdit} {id host : Text} {b : Bool} (h : e.binds id host = some b) :
    e.key = id := by
  cases e <;> simp only [binds] at h <;> split_ifs at h with hc
  · exact hc.1
  · exact hc.1
  · exact hc
  · exact hc.1

end HostEdit

/-- What the last edit that says anything about the host says. -/
def verdict (edits : List HostEdit) (id host : Text) : Option Bool :=
  edits.reverse.findSome? fun e => e.binds id host

theorem verdict_singleton (e : HostEdit) (id host : Text) : verdict [e] id host = e.binds id host := by
  simp [verdict]

theorem verdict_append (edits edits' : List HostEdit) (id host : Text) :
    verdict (edits ++ edits') id host = (verdict edits' id host).or (verdict edits id host) := by
  simp [verdict]

theorem mem_key_of_verdict {edits : List HostEdit} {id host : Text} {b : Bool}
    (h : verdict edits id host = some b) : id ∈ edits.map HostEdit.key := by
  obtain ⟨e, he, hbinds⟩ := List.exists_of_findSome?_eq_some h
  exact List.mem_map.2 ⟨e, List.mem_reverse.1 he, HostEdit.key_eq_of_binds hbinds⟩

/-- What an edit says is still said in the end, or a later edit says the opposite. -/
theorem verdict_of_edit (pre post : List HostEdit) {e : HostEdit} {id host : Text} {b : Bool}
    (h : e.binds id host = some b) :
    (∃ e' ∈ post, e'.binds id host = some !b) ∨ verdict (pre ++ e :: post) id host = some b := by
  have hv : verdict (pre ++ e :: post) id host = (verdict post id host).or (some b) := by
    simp [verdict, h]
  rw [hv]
  cases hpost : verdict post id host with
  | none => exact .inr rfl
  | some b' =>
    obtain ⟨e', he', hbinds⟩ := List.exists_of_findSome?_eq_some hpost
    by_cases hb : b' = b
    · exact .inr (congrArg some hb)
    · refine .inl ⟨e', List.mem_reverse.1 he', ?_⟩
      rw [hbinds, Bool.eq_not.2 hb]

theorem HostBindingsFile.addHosts_named {file file' : HostBindingsFile} {id : Text} {hosts : List Text}
    (h : addHosts id hosts file = .ok file') (id' host : Text) : isNamed (file'.hosts id') host =
      ((HostEdit.added id hosts).binds id' host).getD (isNamed (file.hosts id') host) := by
  rw [(addHosts_ok h).1, HostMap.bind, HostEdit.binds]
  by_cases hid : id = id'
  · subst hid
    rw [Function.update_self, isNamed_foldl_push]
    cases isNamed (hosts.map Text.trim) host <;> simp
  · rw [Function.update_of_ne (Ne.symm hid), if_neg fun h => hid h.1, Option.getD_none]

theorem HostBindingsFile.removeHosts_named {file file' : HostBindingsFile} {id : Text} {wanted : Option Text}
    {all changed : Bool} (h : removeHosts id wanted all file = .ok (file', changed)) (id' host : Text) :
    isNamed (file'.hosts id') host =
      ((if all then HostEdit.cleared id else .removed id (wanted.getD [])).binds id' host).getD
        (isNamed (file.hosts id') host) := by
  rw [(removeHosts_ok h).1]
  by_cases hid : id = id'
  · subst hid
    cases all with
    | true => simp [HostEdit.binds, isNamed]
    | false =>
      simp only [Bool.false_eq_true, if_false, HostMap.unbind, Function.update_self, isNamed_filter,
        HostEdit.binds, true_and]
      cases Text.eqIgnoreAsciiCase (Text.trim (wanted.getD [])) (Text.trim host) <;> simp
  · cases all <;> simp [HostMap.unbind, HostEdit.binds, hid, Function.update_of_ne (Ne.symm hid)]

/-- A removal that reports no change has made none. -/
theorem HostBindingsFile.removeHosts_unchanged {file file' : HostBindingsFile} {id : Text}
    {wanted : Option Text} {all : Bool} (h : removeHosts id wanted all file = .ok (file', false)) (id' : Text) :
    file'.hosts id' = file.hosts id' := by
  unfold removeHosts at h
  split at h
  · cases h
  · cases h
  · obtain ⟨rfl, hsame⟩ := Prod.mk.inj (Except.ok.inj h)
    rw [Option.isSome_eq_false_iff, Option.isNone_iff_eq_none] at hsame
    rw [hosts_erase, Function.update_eq_self_iff.2 (by simp [HostBindingsFile.hosts, hsame])]
  · unfold removeHost at h
    split at h
    · obtain ⟨rfl, -⟩ := Prod.mk.inj (Except.ok.inj h)
      rfl
    · rename_i hosts hget
      have hhosts : file.hosts id = hosts := by simp [HostBindingsFile.hosts, hget]
      dsimp only at h
      split_ifs at h with hnil
      · obtain ⟨rfl, hsame⟩ := Prod.mk.inj (Except.ok.inj h)
        have hempty : hosts = [] := by simpa using hsame
        rw [hosts_erase, Function.update_eq_self_iff.2 (hhosts.trans hempty).symm]
      · obtain ⟨rfl, hsame⟩ := Prod.mk.inj (Except.ok.inj h)
        have hlen := not_not.1 (of_decide_eq_false hsame)
        rw [hosts_insert, List.filter_sublist.eq_of_length hlen, Function.update_eq_self_iff.2 hhosts.symm]

/-- What a dialog edits. -/
def replacements (shown : Text → List Text) (payload : List (Text × List Text)) : List HostEdit :=
  payload.map fun p => .replaced p.1 (shown p.1) p.2

theorem verdict_cons (e : HostEdit) (edits : List HostEdit) (id host : Text) :
    verdict (e :: edits) id host = (verdict edits id host).or (e.binds id host) := by
  simp [verdict]

theorem verdict_replacements_of_notMem (shown : Text → List Text) {payload : List (Text × List Text)}
    {id : Text} (h : id ∉ payload.map Prod.fst) (host : Text) :
    verdict (replacements shown payload) id host = none := by
  cases hv : verdict (replacements shown payload) id host with
  | none => rfl
  | some b =>
    have hid := mem_key_of_verdict hv
    rw [replacements, List.map_map] at hid
    exact absurd hid h

/-- A saved dialog leaves of each of its keys the hosts it saves. -/
theorem HostBindingsFile.setAllHosts_named {payload : List (Text × List Text)} {file file' : HostBindingsFile}
    (shown : Text → List Text) (h : setAllHosts payload file = .ok file')
    (hnodup : (payload.map Prod.fst).Nodup) (id host : Text) :
    (∀ b, verdict (replacements shown payload) id host = some b → isNamed (file'.hosts id) host = b) ∧
      (verdict (replacements shown payload) id host = none →
        (id ∈ payload.map Prod.fst → isNamed (shown id) host = isNamed (file.hosts id) host) →
        isNamed (file'.hosts id) host = isNamed (file.hosts id) host) := by
  induction payload generalizing file with
  | nil =>
    obtain rfl := Except.ok.inj h
    exact ⟨nofun, fun _ _ => rfl⟩
  | cons p payload ih =>
    obtain ⟨file₁, hset, h⟩ := except_bind_ok h
    obtain ⟨hp, hnodup⟩ := List.nodup_cons.1 hnodup
    have hhosts := (setHosts_ok hset).1
    obtain ⟨hsome, hnone⟩ := ih h hnodup
    have hcons : verdict (replacements shown (p :: payload)) id host =
        (verdict (replacements shown payload) id host).or
          ((HostEdit.replaced p.1 (shown p.1) p.2).binds id host) := verdict_cons ..
    rw [hcons]
    by_cases hid : p.1 = id
    · subst hid
      have hrest := verdict_replacements_of_notMem shown hp host
      have hnamed : isNamed (file'.hosts p.1) host = isNamed (p.2.map Text.trim) host := by
        rw [hnone hrest fun hmem => absurd hmem hp, hhosts, HostMap.replace, Function.update_self, isNamed_ofList]
      rw [hrest, Option.none_or, hnamed, HostEdit.binds]
      split_ifs with hne
      · exact ⟨fun b hb => Option.some.inj hb, nofun⟩
      · have hsame : isNamed (p.2.map Text.trim) host = isNamed (shown p.1) host := by
          by_contra hno
          exact hne ⟨rfl, hno⟩
        exact ⟨nofun, fun _ hshown => hsame.trans (hshown (List.mem_cons_self ..))⟩
    · have hkeep : file₁.hosts id = file.hosts id := by
        rw [hhosts, HostMap.replace, Function.update_of_ne (Ne.symm hid)]
      have hsilent : (HostEdit.replaced p.1 (shown p.1) p.2).binds id host = none := if_neg fun h => hid h.1
      rw [hsilent, Option.or_none, ← hkeep]
      exact ⟨hsome, fun hv hshown => hnone hv fun hmem => hshown (List.mem_cons_of_mem _ hmem)⟩

end SshWarden
