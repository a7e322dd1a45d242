import SshWarden.BindingRuns
import SshWarden.BindingSteps
import Mathlib.Data.List.Nodup

/-!
# The bind-hosts dialog (`crates/sshwarden-ui/src/bind_hosts/slint_dialog.rs`)

The callbacks of the dialog edit a copy of the host patterns of all keys, beside the rows and the list that the
window shows. Whatever the user clicks, the window shows the copy, and the one answer of the dialog is what the copy
holds of the keys that were edited (`dialog_shows_edits`). Saved in the daemon, that answer is accepted, and it leaves
the hosts that the window showed for every key that the old snippet has no hosts for (`dialog_saves_what_it_shows`).
-/

namespace SshWarden

/-- `n as i32`. -/
def asI32 (n : Nat) : Int := Int.bmod n (2 ^ 32)

/-- `get(idx as usize)`; a negative index is beyond the end of every list. -/
def row? {α : Type} (l : List α) (idx : Int) : Option α := if idx < 0 then none else l[idx.toNat]?

def quickValidateHostPattern (pattern : Text) : Except Text Unit :=
  let trimmed := Text.trim pattern
  if trimmed = [] then .error "Host pattern is empty".toList
  else if trimmed.any Text.isWhitespace then .error "Host pattern must not contain whitespace".toList
  else if trimmed.any Text.isControl then .error "Host pattern must not contain control characters".toList
  else if trimmed.any isUnsafeInSshConfig then
    .error "Host pattern contains a character unsafe in ssh_config".toList
  else .ok ()

def hostPatternWarning (pattern : Text) : Option Text :=
  if Text.trim pattern = "*".toList ∨ Text.trim pattern = "!*".toList then
    some "Warning: this pattern can match many hosts and may reintroduce MaxAuthTries failures.".toList
  else none

/-- A row of the key list. -/
structure KeyEntry where
  cipherId : Text
  name : Text
  boundCount : Int
  deriving DecidableEq

inductive DialogResult where
  | saved (bindings : Assoc Text (List Text))
  | cancelled
  deriving DecidableEq

structure DialogRequest where
  keys : List FileSteps.BindHostsKeyEntry
  initialSelection : Option Text := none
  prefillHost : Option Text := none
  approveOnSave : Bool := false

/-- What the callbacks share, what the window shows, and the answer that has been sent. -/
structure BindHostsDialog where
  working : Assoc Text (List Text)
  keyIds : List Text
  keyNames : Assoc Text Text
  touched : List Text := []
  keys : List KeyEntry
  selectedIndex : Int
  currentHosts : List Text := []
  newHostText : Text
  selectedKeyLabel : Text := []
  errorMessage : Text := []
  approveOnSave : Bool
  result : Option DialogResult := none
  visible : Bool := true
  deriving DecidableEq

inductive DialogEvent where
  | keySelected (idx : Int)
  /-- The user types into the text field. -/
  | typed (text : Text)
  | addHost
  | removeHost (hostIdx : Int)
  | save
  | cancel
  | closeRequested
  deriving DecidableEq

namespace BindHostsDialog

def refreshHostsFor (d : BindHostsDialog) (idx : Int) : BindHostsDialog :=
  { d with currentHosts := ((row? d.keyIds idx).bind d.working.get?).getD [] }

def updateSelectedLabel (d : BindHostsDialog) (idx : Int) : BindHostsDialog :=
  { d with selectedKeyLabel :=
      (((row? d.keyIds idx).bind d.keyNames.get?).map ("Hosts for: ".toList ++ ·)).getD "(no key)".toList }

def updateKeyCount (d : BindHostsDialog) (idx count : Int) : BindHostsDialog :=
  if idx < 0 then d
  else { d with keys := d.keys.modify idx.toNat fun entry => { entry with boundCount := count } }

def selectInitial (request : DialogRequest) : Int :=
  match request.initialSelection with
  | some id => asI32 ((request.keys.findIdx? fun k => k.cipherId = id).getD 0)
  | none => 0

/-- The dialog as it is shown first. -/
def new (request : DialogRequest) : BindHostsDialog :=
  let d : BindHostsDialog :=
    { working := Assoc.ofList (request.keys.map fun k => (k.cipherId, k.hosts))
      keyIds := request.keys.map FileSteps.BindHostsKeyEntry.cipherId
      keyNames := Assoc.ofList (request.keys.map fun k => (k.cipherId, k.name))
      keys := request.keys.map fun k => ⟨k.cipherId, k.name, asI32 k.hosts.length⟩
      selectedIndex := selectInitial request
      newHostText := request.prefillHost.getD []
      approveOnSave := request.approveOnSave }
  (d.refreshHostsFor d.selectedIndex).updateSelectedLabel d.selectedIndex

def onKeySelected (d : BindHostsDialog) (idx : Int) : BindHostsDialog :=
  let d := { d with selectedIndex := idx, newHostText := [] }
  { (d.refreshHostsFor idx).updateSelectedLabel idx with errorMessage := [] }

def onAddHost (d : BindHostsDialog) : BindHostsDialog :=
  let trimmed := Text.trim d.newHostText
  match quickValidateHostPattern trimmed with
  | .error msg => { d with errorMessage := msg }
  | .ok () =>
    match row? d.keyIds d.selectedIndex with
    | none => d
    | some cipherId =>
      if ((d.working.get? cipherId).map fun v => v.any fun h => Text.eqIgnoreAsciiCase h trimmed).getD false then
        { d with errorMessage := "Host pattern already bound to this key".toList }
      else
        let d :=
          { d with
            touched := d.touched.insert cipherId
            working := d.working.insert cipherId ((d.working.get? cipherId).getD [] ++ [trimmed])
            currentHosts := d.currentHosts ++ [trimmed] }
        { d.updateKeyCount d.selectedIndex (asI32 d.currentHosts.length) with
          newHostText := []
          errorMessage := (hostPatternWarning trimmed).getD [] }

def onRemoveHost (d : BindHostsDialog) (hostIdx : Int) : BindHostsDialog :=
  match row? d.keyIds d.selectedIndex with
  | none => d
  | some cipherId =>
    if hostIdx < 0 then d
    else
      match d.working.get? cipherId with
      | none => d
      | some v =>
        if hostIdx.toNat < v.length then
          let d :=
            { d with
              touched := d.touched.insert cipherId
              working := d.working.insert cipherId (v.eraseIdx hostIdx.toNat)
              -- `eraseIdx` leaves a list that the index is beyond, as the check of `row_count` does
              currentHosts := d.currentHosts.eraseIdx hostIdx.toNat }
          { d.updateKeyCount d.selectedIndex (asI32 d.currentHosts.length) with errorMessage := [] }
        else d

/-- The keys that were edited, with their patterns. -/
def payload (d : BindHostsDialog) : Assoc Text (List Text) :=
  d.touched.filterMap fun id => (d.working.get? id).map (id, ·)

/-- The sender of the answer is taken by the first one. -/
def answer (d : BindHostsDialog) (result : DialogResult) : BindHostsDialog :=
  { d with result := d.result.or (some result), visible := false }

def step (d : BindHostsDialog) : DialogEvent → BindHostsDialog
  | .keySelected idx => d.onKeySelected idx
  | .typed text => { d with newHostText := text }
  | .addHost => d.onAddHost
  | .removeHost hostIdx => d.onRemoveHost hostIdx
  | .save => d.answer (.saved d.payload)
  | .cancel | .closeRequested => d.answer .cancelled

def run (d : BindHostsDialog) (events : List DialogEvent) : BindHostsDialog := events.foldl step d

/-- The patterns that the dialog holds for a key. -/
def hosts (d : BindHostsDialog) : HostMap := fun id => (d.working.get? id).getD []

/-! ### What the window shows -/

/-- The rows, the counts and the list of the selected key are those of the working copy. The rows of one id would share
its patterns, but not their count. -/
structure Shows (d : BindHostsDialog) : Prop where
  list : d.currentHosts = ((row? d.keyIds d.selectedIndex).map d.hosts).getD []
  rows : d.keys.map KeyEntry.cipherId = d.keyIds
  counts : d.keyIds.Nodup → ∀ e ∈ d.keys, e.boundCount = asI32 (d.hosts e.cipherId).length
  working : ∀ id, id ∈ d.keyIds ↔ (d.working.get? id).isSome
  touched : ∀ id ∈ d.touched, id ∈ d.keyIds
  nodup : d.touched.Nodup

/-- The patterns of the other keys are the old ones, and edits of normal lists give normal lists. -/
structure Edited (m : HostMap) (d : BindHostsDialog) : Prop where
  untouched : ∀ id, id ∉ d.touched → d.hosts id = m id
  normal : (∀ id, NormalHosts (m id)) → ∀ id, NormalHosts (d.hosts id)

variable {d : BindHostsDialog} {m : HostMap} {id : Text}

theorem row?_mem {α : Type} {l : List α} {idx : Int} {a : α} (h : row? l idx = some a) :
    0 ≤ idx ∧ l[idx.toNat]? = some a := by
  unfold row? at h
  split_ifs at h with hneg
  exact ⟨by omega, h⟩

theorem hosts_of_get? {v : List Text} (h : d.working.get? id = some v) : d.hosts id = v := by
  rw [hosts, h, Option.getD_some]

theorem hosts_insert (d : BindHostsDialog) (id : Text) (v : List Text) :
    (fun id' => ((d.working.insert id v).get? id').getD []) = Function.update d.hosts id v := by
  funext id'
  rw [Assoc.get?_insert]
  by_cases h : id = id'
  · subst h
    rw [if_pos rfl, Function.update_self, Option.getD_some]
  · rw [if_neg h, Function.update_of_ne (Ne.symm h), hosts]

theorem refresh_list (h : ∀ id, id ∈ d.keyIds ↔ (d.working.get? id).isSome) (idx : Int) :
    ((row? d.keyIds idx).bind d.working.get?).getD [] = ((row? d.keyIds idx).map d.hosts).getD [] := by
  cases hrow : row? d.keyIds idx with
  | none => rfl
  | some id =>
    obtain ⟨v, hv⟩ := Option.isSome_iff_exists.1 ((h id).1 (List.mem_of_getElem? (row?_mem hrow).2))
    rw [Option.bind_some, Option.map_some, hv, Option.getD_some, Option.getD_some, hosts_of_get? hv]

/-- The selected key gets other patterns. -/
def editSelected (d : BindHostsDialog) (id : Text) (v : List Text) : BindHostsDialog :=
  { d with touched := d.touched.insert id, working := d.working.insert id v, currentHosts := v }.updateKeyCount
    d.selectedIndex (asI32 v.length)

theorem editSelected_eq (hrow : row? d.keyIds d.selectedIndex = some id) (v : List Text) :
    d.editSelected id v =
      { d with
        touched := d.touched.insert id
        working := d.working.insert id v
        currentHosts := v
        keys := d.keys.modify d.selectedIndex.toNat fun entry =>
          { entry with boundCount := asI32 v.length } } := by
  have hpos := (row?_mem hrow).1
  rw [editSelected, updateKeyCount, if_neg (Int.not_lt.2 hpos)]

theorem hosts_editSelected (hrow : row? d.keyIds d.selectedIndex = some id) (v : List Text) :
    (d.editSelected id v).hosts = Function.update d.hosts id v := by
  rw [editSelected_eq hrow]
  exact hosts_insert d id v

theorem Shows.edit (h : d.Shows) (hrow : row? d.keyIds d.selectedIndex = some id) (v : List Text) :
    (d.editSelected id v).Shows := by
  have hhosts := hosts_editSelected hrow v
  obtain ⟨-, hget⟩ := row?_mem hrow
  rw [editSelected_eq hrow] at hhosts ⊢
  have hrows : ∀ (j : Nat) (e : KeyEntry), d.keys[j]? = some e → d.keyIds[j]? = some e.cipherId := fun j e hj => by
    rw [← h.rows, List.getElem?_map, hj, Option.map_some]
  refine ⟨?_, ?_, fun hnodup e he => ?_, fun id' => ?_, fun id' hid' => ?_, List.Nodup.insert h.nodup⟩
  · rw [hhosts]
    show v = ((row? d.keyIds d.selectedIndex).map _).getD []
    rw [hrow, Option.map_some, Option.getD_some, Function.update_self]
  · refine (List.ext_getElem? fun j => ?_).trans h.rows
    rw [List.getElem?_map, List.getElem?_map, List.getElem?_modify]
    cases d.keys[j]? with
    | none => rfl
    | some e => simp only [Option.map_eq_map, Option.map_some]; split <;> rfl
  · rw [hhosts]
    obtain ⟨j, hj⟩ := List.mem_iff_getElem?.1 he
    rw [List.getElem?_modify] at hj
    obtain ⟨e₀, he₀, rfl⟩ := Option.map_eq_some_iff.1 hj
    have hid₀ := hrows j e₀ he₀
    by_cases hji : d.selectedIndex.toNat = j
    · rw [hji] at hget
      have hid : e₀.cipherId = id := Option.some.inj (hid₀.symm.trans hget)
      simp only [if_pos hji, hid, Function.update_self]
    · have hid : e₀.cipherId ≠ id := by
        intro hid
        have hlt := (List.getElem?_eq_some_iff.1 hget).1
        exact hji ((List.getElem?_inj hlt hnodup).1 (hget.trans (hid ▸ hid₀.symm)))
      rw [if_neg hji, Function.update_of_ne hid]
      exact h.counts hnodup e₀ (List.mem_of_getElem? he₀)
  · show id' ∈ d.keyIds ↔ ((d.working.insert id v).get? id').isSome
    rw [Assoc.get?_insert]
    by_cases hid : id = id'
    · subst hid
      simp [List.mem_of_getElem? hget]
    · rw [if_neg hid]
      exact h.working id'
  · rcases List.mem_insert_iff.1 hid' with rfl | hid'
    · exact List.mem_of_getElem? hget
    · exact h.touched id' hid'

theorem Edited.edit (h : d.Edited m) (hrow : row? d.keyIds d.selectedIndex = some id) {v : List Text}
    (hv : NormalHosts (d.hosts id) → NormalHosts v) : (d.editSelected id v).Edited m := by
  have hhosts := hosts_editSelected hrow v
  have htouched : (d.editSelected id v).touched = d.touched.insert id := by rw [editSelected_eq hrow]
  refine ⟨fun id' hid' => ?_, fun hm id' => ?_⟩
  · rw [htouched, List.mem_insert_iff, not_or] at hid'
    rw [hhosts, Function.update_of_ne hid'.1]
    exact h.untouched id' hid'.2
  · rw [hhosts]
    by_cases hid : id' = id
    · subst hid
      rw [Function.update_self]
      exact hv (h.normal hm id')
    · rw [Function.update_of_ne hid]
      exact h.normal hm id'

/-- The check of the window is that of the bindings file. -/
theorem validate_of_quickValidate {pattern : Text} (h : quickValidateHostPattern pattern = .ok ()) :
    validateHostPattern pattern = .ok () := by
  dsimp only [quickValidateHostPattern] at h
  unfold validateHostPattern
  split_ifs at h ⊢
  rfl

theorem normalHosts_eraseIdx {hosts : List Text} (h : NormalHosts hosts) (i : Nat) :
    NormalHosts (hosts.eraseIdx i) where
  valid x hx := h.valid x (List.mem_of_mem_eraseIdx hx)
  trimmed x hx := h.trimmed x (List.mem_of_mem_eraseIdx hx)
  distinct := h.distinct.sublist (List.eraseIdx_sublist ..)

theorem addHost_cases (h : d.Shows) :
    (∃ error, d.onAddHost = { d with errorMessage := error }) ∨
      ∃ id warning, row? d.keyIds d.selectedIndex = some id ∧
        validateHostPattern (Text.trim d.newHostText) = .ok () ∧
        ((d.hosts id).any fun h => Text.eqIgnoreAsciiCase h (Text.trim d.newHostText)) = false ∧
        d.onAddHost = { d.editSelected id (d.hosts id ++ [Text.trim d.newHostText]) with
          newHostText := [], errorMessage := warning } := by
  dsimp only [onAddHost]
  cases hv : quickValidateHostPattern (Text.trim d.newHostText) with
  | error msg => exact .inl ⟨_, rfl⟩
  | ok u =>
    have hlist := h.list
    cases hrow : row? d.keyIds d.selectedIndex with
    | none => exact .inl ⟨d.errorMessage, rfl⟩
    | some id =>
      rw [hrow, Option.map_some, Option.getD_some] at hlist
      obtain ⟨v, hget⟩ := Option.isSome_iff_exists.1 ((h.working id).1 (List.mem_of_getElem? (row?_mem hrow).2))
      have hhosts := hosts_of_get? hget
      cases hany : (v.any fun h => Text.eqIgnoreAsciiCase h (Text.trim d.newHostText)) with
      | true =>
        refine .inl ⟨"Host pattern already bound to this key".toList, ?_⟩
        simp only [hget, Option.map_some, Option.getD_some, hany, if_true]
      | false =>
        refine .inr ⟨id, (hostPatternWarning (Text.trim d.newHostText)).getD [], rfl, validate_of_quickValidate hv,
          by rw [hhosts, hany], ?_⟩
        simp only [hget, Option.map_some, Option.getD_some, hany, Bool.false_eq_true, if_false, hlist, hhosts,
          editSelected]

theorem removeHost_cases (h : d.Shows) (hostIdx : Int) :
    d.onRemoveHost hostIdx = d ∨
      ∃ id, row? d.keyIds d.selectedIndex = some id ∧ hostIdx.toNat < (d.hosts id).length ∧
        d.onRemoveHost hostIdx =
          { d.editSelected id ((d.hosts id).eraseIdx hostIdx.toNat) with errorMessage := [] } := by
  have hlist := h.list
  dsimp only [onRemoveHost]
  cases hrow : row? d.keyIds d.selectedIndex with
  | none => exact .inl rfl
  | some id =>
    rw [hrow, Option.map_some, Option.getD_some] at hlist
    by_cases hneg : hostIdx < 0
    · exact .inl (by simp only [if_pos hneg])
    · simp only [if_neg hneg]
      cases hget : d.working.get? id with
      | none => exact .inl rfl
      | some v =>
        have hhosts := hosts_of_get? hget
        by_cases hlt : hostIdx.toNat < v.length
        · refine .inr ⟨id, rfl, hhosts ▸ hlt, ?_⟩
          simp only [if_pos hlt, hlist, hhosts, editSelected]
        · exact .inl (by simp only [if_neg hlt])

/-- The new list of a key is what the bindings file makes of the pattern. -/
theorem normal_add {pattern : Text} (hv : validateHostPattern (Text.trim pattern) = .ok ())
    (hany : ((d.hosts id).any fun h => Text.eqIgnoreAsciiCase h (Text.trim pattern)) = false)
    (h : NormalHosts (d.hosts id)) : NormalHosts (d.hosts id ++ [Text.trim pattern]) := by
  have hpush := h.push hv
  rwa [Text.trim_trim, Distinct.push, if_neg (by rw [hany]; exact Bool.false_ne_true)] at hpush

theorem keep_step (h : d.Shows) (he : d.Edited m) (event : DialogEvent) :
    (d.step event).Shows ∧ (d.step event).Edited m ∧ (d.step event).keyIds = d.keyIds := by
  have hkeyIds : ∀ {id v}, row? d.keyIds d.selectedIndex = some id → (d.editSelected id v).keyIds = d.keyIds :=
    fun hrow => by rw [editSelected_eq hrow]
  cases event with
  | keySelected idx =>
    refine ⟨⟨?_, h.rows, h.counts, h.working, h.touched, h.nodup⟩, ⟨he.untouched, he.normal⟩, rfl⟩
    exact refresh_list h.working idx
  | typed text => exact ⟨⟨h.list, h.rows, h.counts, h.working, h.touched, h.nodup⟩, ⟨he.untouched, he.normal⟩, rfl⟩
  | addHost =>
    show d.onAddHost.Shows ∧ d.onAddHost.Edited m ∧ d.onAddHost.keyIds = d.keyIds
    rcases addHost_cases h with ⟨error, heq⟩ | ⟨id, warning, hrow, hv, hany, heq⟩
    · rw [heq]
      exact ⟨⟨h.list, h.rows, h.counts, h.working, h.touched, h.nodup⟩, ⟨he.untouched, he.normal⟩, rfl⟩
    · have hs := h.edit hrow (d.hosts id ++ [Text.trim d.newHostText])
      have hnew := he.edit hrow (normal_add hv hany)
      rw [heq]
      exact ⟨⟨hs.list, hs.rows, hs.counts, hs.working, hs.touched, hs.nodup⟩, ⟨hnew.untouched, hnew.normal⟩,
        hkeyIds hrow⟩
  | removeHost hostIdx =>
    show (d.onRemoveHost hostIdx).Shows ∧ (d.onRemoveHost hostIdx).Edited m ∧
      (d.onRemoveHost hostIdx).keyIds = d.keyIds
    rcases removeHost_cases h hostIdx with heq | ⟨id, hrow, -, heq⟩
    · rw [heq]
      exact ⟨h, he, rfl⟩
    · have hs := h.edit hrow ((d.hosts id).eraseIdx hostIdx.toNat)
      have hnew := he.edit hrow fun hn => normalHosts_eraseIdx hn hostIdx.toNat
      rw [heq]
      exact ⟨⟨hs.list, hs.rows, hs.counts, hs.working, hs.touched, hs.nodup⟩, ⟨hnew.untouched, hnew.normal⟩,
        hkeyIds hrow⟩
  | save | cancel | closeRequested =>
    exact ⟨⟨h.list, h.rows, h.counts, h.working, h.touched, h.nodup⟩, ⟨he.untouched, he.normal⟩, rfl⟩

theorem shows_new (request : DialogRequest) : (new request).Shows := by
  have hlast := Assoc.LastWins.ofList (request.keys.map fun k => (k.cipherId, k.hosts))
  have hkeys : ∀ id, id ∈ (request.keys.map FileSteps.BindHostsKeyEntry.cipherId) ↔
      (Assoc.get? (request.keys.map fun k => (k.cipherId, k.hosts)).reverse id).isSome := by
    intro id
    rw [← Assoc.mem_keys_iff, List.map_reverse, List.mem_reverse, List.map_map]
    rfl
  have hworking : ∀ id, id ∈ (request.keys.map FileSteps.BindHostsKeyEntry.cipherId) ↔
      ((Assoc.ofList (request.keys.map fun k => (k.cipherId, k.hosts))).get? id).isSome := fun id => by
    rw [hkeys, hlast.get?]
  refine ⟨?_, ?_, fun hnodup e he => ?_, hworking, fun _ hno => (List.not_mem_nil hno).elim, List.nodup_nil⟩
  · exact refresh_list (d := new request) hworking _
  · show (request.keys.map _).map KeyEntry.cipherId = _
    rw [List.map_map]
    rfl
  · obtain ⟨k, hk, rfl⟩ := List.mem_map.1 he
    have hfst : ((request.keys.map fun k => (k.cipherId, k.hosts)).reverse.map Prod.fst).Nodup := by
      rw [List.map_reverse, List.nodup_reverse, List.map_map]
      exact hnodup
    have hget := Assoc.get?_of_mem hfst (List.mem_reverse.2 (List.mem_map_of_mem hk))
    have hhosts : (new request).hosts k.cipherId = k.hosts := hosts_of_get? ((hlast.get? _).trans hget)
    rw [hhosts]

theorem edited_new (request : DialogRequest) : (new request).Edited (new request).hosts :=
  ⟨fun _ _ => rfl, fun h => h⟩

theorem keep_run (h : d.Shows) (he : d.Edited m) (events : List DialogEvent) :
    (d.run events).Shows ∧ (d.run events).Edited m ∧ (d.run events).keyIds = d.keyIds := by
  induction events generalizing d with
  | nil => exact ⟨h, he, rfl⟩
  | cons event events ih =>
    obtain ⟨hs, hnew, hids⟩ := keep_step h he event
    obtain ⟨hs, hnew, hids'⟩ := ih hs hnew
    exact ⟨hs, hnew, hids'.trans hids⟩

/-- What is saved of a key. -/
theorem get?_payload (h : d.Shows) (id : Text) :
    d.payload.get? id = if id ∈ d.touched then some (d.hosts id) else none := by
  have hall : ∀ {l : List Text}, (∀ id ∈ l, id ∈ d.keyIds) →
      Assoc.get? (l.filterMap fun id => (d.working.get? id).map (id, ·)) id =
        if id ∈ l then some (d.hosts id) else none := by
    intro l
    induction l with
    | nil => exact fun _ => rfl
    | cons id' l ih =>
      intro hl
      obtain ⟨v, hv⟩ := Option.isSome_iff_exists.1 ((h.working id').1 (hl id' (List.mem_cons_self ..)))
      simp only [List.filterMap_cons, hv, Option.map_some]
      rw [Assoc.get?_cons, ih fun id hid => hl id (List.mem_cons_of_mem _ hid)]
      by_cases heq : id' = id
      · subst heq
        rw [if_pos rfl, if_pos (List.mem_cons_self ..), hosts_of_get? hv]
      · simp [heq, Ne.symm heq]
  exact hall h.touched

/-- The dialog has given this answer with the first event that gives one. -/
def AnsweredBy (d : BindHostsDialog) (pre : List DialogEvent) (event : DialogEvent)
    (result : DialogResult) : Prop :=
  (d.run pre).result = none ∧
    (event = .save ∧ result = .saved (d.run pre).payload ∨
      (event = .cancel ∨ event = .closeRequested) ∧ result = .cancelled)

theorem result_updateKeyCount (d : BindHostsDialog) (idx count : Int) :
    (d.updateKeyCount idx count).result = d.result := by
  unfold updateKeyCount
  split <;> rfl

theorem result_onAddHost (d : BindHostsDialog) : d.onAddHost.result = d.result := by
  dsimp only [onAddHost]
  split
  · rfl
  · split
    · rfl
    · split
      · rfl
      · exact result_updateKeyCount ..

theorem result_onRemoveHost (d : BindHostsDialog) (hostIdx : Int) :
    (d.onRemoveHost hostIdx).result = d.result := by
  dsimp only [onRemoveHost]
  split
  · rfl
  · split
    · rfl
    · split
      · rfl
      · split
        · exact result_updateKeyCount ..
        · rfl

theorem result_step (d : BindHostsDialog) (event : DialogEvent) :
    (d.step event).result = d.result ∨ ∃ result, (d.step event).result = some result ∧
      d.AnsweredBy [] event result := by
  have hanswer : ∀ r, (d.answer r).result = d.result ∨ d.result = none ∧ (d.answer r).result = some r := by
    intro r
    cases hr : d.result with
    | none => exact .inr ⟨rfl, by rw [answer, hr]; rfl⟩
    | some r' => exact .inl (by rw [answer, hr]; rfl)
  cases event with
  | keySelected idx => exact .inl rfl
  | typed text => exact .inl rfl
  | addHost => exact .inl (result_onAddHost d)
  | removeHost hostIdx => exact .inl (result_onRemoveHost d hostIdx)
  | save => exact (hanswer (.saved d.payload)).imp_right fun h => ⟨_, h.2, h.1, .inl ⟨rfl, rfl⟩⟩
  | cancel => exact (hanswer .cancelled).imp_right fun h => ⟨_, h.2, h.1, .inr ⟨.inl rfl, rfl⟩⟩
  | closeRequested => exact (hanswer .cancelled).imp_right fun h => ⟨_, h.2, h.1, .inr ⟨.inr rfl, rfl⟩⟩

theorem result_run {result : DialogResult} (h : d.result = some result) (events : List DialogEvent) :
    (d.run events).result = some result := by
  induction events generalizing d with
  | nil => exact h
  | cons event events ih =>
    rcases result_step d event with hsame | ⟨r, -, hnone, -⟩
    · exact ih (hsame.trans h)
    · exact (Option.some_ne_none _ (h.symm.trans hnone)).elim

theorem exists_answer {events : List DialogEvent} {result : DialogResult} (h₀ : d.result = none)
    (h : (d.run events).result = some result) :
    ∃ pre event post, events = pre ++ event :: post ∧ d.AnsweredBy pre event result := by
  induction events generalizing d with
  | nil => exact (Option.some_ne_none _ (h.symm.trans h₀)).elim
  | cons event events ih =>
    rcases result_step d event with hsame | ⟨r, hr, hby⟩
    · obtain ⟨pre, event', post, rfl, hby⟩ := ih (hsame.trans h₀) h
      exact ⟨event :: pre, event', post, rfl, hby⟩
    · obtain rfl := Option.some.inj ((result_run hr events).symm.trans h)
      exact ⟨[], event, events, rfl, hby⟩

/-- Whatever the user does: the window shows the working copy, which differs from the request only in the keys that
were edited and holds no pattern twice and none that the file would not take. The dialog is answered once, by the first
save or cancel, and the answer holds the edited keys as the window shows them. -/
theorem dialog_shows_edits (request : DialogRequest) (events : List DialogEvent) :
    ((new request).run events).Shows ∧ ((new request).run events).Edited (new request).hosts ∧
      (∀ id, ((new request).run events).payload.get? id =
        if id ∈ ((new request).run events).touched then some (((new request).run events).hosts id) else none) ∧
      ∀ result, ((new request).run events).result = some result →
        ∃ pre event post, events = pre ++ event :: post ∧ (new request).AnsweredBy pre event result := by
  obtain ⟨hshows, hedited, -⟩ := keep_run (shows_new request) (edited_new request) events
  exact ⟨hshows, hedited, get?_payload hshows, fun result h => exists_answer rfl h⟩

/-! ### What is saved -/

end BindHostsDialog

theorem foldl_replace_normal {payload : List (Text × List Text)} (hnodup : (payload.map Prod.fst).Nodup)
    (hnormal : ∀ p ∈ payload, NormalHosts p.2) (m : HostMap) (id : Text) :
    payload.foldl (fun m p => HostMap.replace m p.1 p.2) m id = (Assoc.get? payload id).getD (m id) := by
  induction payload generalizing m with
  | nil => rfl
  | cons p payload ih =>
    obtain ⟨hp, hnodup⟩ := List.nodup_cons.1 hnodup
    rw [List.foldl_cons, ih hnodup fun q hq => hnormal q (List.mem_cons_of_mem _ hq), Assoc.get?_cons]
    by_cases hid : p.1 = id
    · subst hid
      have hnone : Assoc.get? payload p.1 = none := by
        rw [← Option.not_isSome_iff_eq_none, ← Assoc.mem_keys_iff]
        exact hp
      rw [hnone, if_pos rfl, HostMap.replace, Function.update_self, Option.getD_none, Option.getD_some,
        (hnormal p (List.mem_cons_self ..)).ofList_eq]
    · rw [if_neg hid, HostMap.replace, Function.update_of_ne (Ne.symm hid)]

theorem setAllHosts_normal {payload : List (Text × List Text)} (hnormal : ∀ p ∈ payload, NormalHosts p.2)
    (file : HostBindingsFile) : ∃ file', setAllHosts payload file = .ok file' := by
  induction payload generalizing file with
  | nil => exact ⟨file, rfl⟩
  | cons p payload ih =>
    obtain ⟨id, hosts⟩ := p
    have hvalid := HostBindingsFile.forM_validate_eq_ok (hnormal (id, hosts) (List.mem_cons_self ..)).valid
    obtain ⟨file₁, hset⟩ : ∃ file₁, file.setHosts id hosts = .ok file₁ := by
      unfold HostBindingsFile.setHosts
      rw [hvalid]
      by_cases hnil : Distinct.ofList Text.eqIgnoreAsciiCase (hosts.map Text.trim) = []
      · exact ⟨_, if_pos hnil⟩
      · exact ⟨_, if_neg hnil⟩
    obtain ⟨file', h⟩ := ih (fun q hq => hnormal q (List.mem_cons_of_mem _ hq)) file₁
    refine ⟨file', ?_⟩
    unfold setAllHosts
    rw [hset]
    exact h

namespace BindHostsDialog

/-- The dialog of the daemon shows the keys of the cache with their bound hosts. -/
def forKeys (keys : List ManagedKey) (bindings : HostBindingsFile) : List FileSteps.BindHostsKeyEntry :=
  keys.map fun k => ⟨k.cipherId, k.name, bindings.hosts k.cipherId⟩

theorem hosts_new {keys : List ManagedKey} {bindings : HostBindingsFile} (hw : bindings.WellFormed keys)
    {request : DialogRequest} (hkeys : request.keys = forKeys keys bindings) :
    (new request).hosts = bindings.hosts := by
  funext id
  show ((Assoc.ofList (request.keys.map fun k => (k.cipherId, k.hosts))).get? id).getD [] = _
  rw [(Assoc.LastWins.ofList _).get? id]
  cases hget : Assoc.get? (request.keys.map fun k => (k.cipherId, k.hosts)).reverse id with
  | some v =>
    obtain ⟨k, hk, heq⟩ := List.mem_map.1 (List.mem_reverse.1 (Assoc.get?_eq_some_mem hget))
    rw [hkeys] at hk
    obtain ⟨key, -, rfl⟩ := List.mem_map.1 hk
    obtain ⟨rfl, rfl⟩ := Prod.mk.inj heq
    rfl
  | none =>
    have hno : id ∉ keys.map ManagedKey.cipherId := by
      intro hin
      have hkey : id ∈ (request.keys.map fun k => (k.cipherId, k.hosts)).reverse.map Prod.fst := by
        rw [List.map_reverse, List.mem_reverse, List.map_map, hkeys, forKeys, List.map_map]
        exact hin
      rw [Assoc.mem_keys_iff, hget] at hkey
      cases hkey
    have hnone : bindings.bindings.get? id = none := by
      rw [← Option.not_isSome_iff_eq_none, ← Assoc.mem_keys_iff]
      intro hin
      obtain ⟨p, hp, rfl⟩ := List.mem_map.1 hin
      exact hno (hw.listed p hp)
    rw [HostBindingsFile.hosts, hnone]

/-- The keys of a payload are keys of the dialog, once each, and their lists are normal. -/
theorem payload_normal {keys : List ManagedKey} {bindings : HostBindingsFile} {request : DialogRequest}
    (hw : bindings.WellFormed keys) (hkeys : request.keys = forKeys keys bindings) (events : List DialogEvent) :
    (((new request).run events).payload.map Prod.fst).Nodup ∧
      (∀ p ∈ ((new request).run events).payload, NormalHosts p.2 ∧ p.1 ∈ keys.map ManagedKey.cipherId) := by
  obtain ⟨hshows, hedited, hids⟩ := keep_run (shows_new request) (edited_new request) events
  have hnormal := hedited.normal (hosts_new hw hkeys ▸ hw.normal)
  have hfst : ∀ l : List Text,
    (l.filterMap fun id => (((new request).run events).working.get? id).map (id, ·)).map Prod.fst =
      l.filter fun id => (((new request).run events).working.get? id).isSome := by
    intro l
    induction l with
    | nil => rfl
    | cons id l ih =>
      cases hget : ((new request).run events).working.get? id with
      | none =>
        simp only [List.filterMap_cons, List.filter_cons, hget, Option.map_none, Option.isSome_none, ih]; rfl
      | some v =>
        simp only [List.filterMap_cons, List.filter_cons, hget, Option.map_some, Option.isSome_some,
          List.map_cons, ih]; rfl
  refine ⟨?_, fun p hp => ?_⟩
  · rw [payload, hfst]
    exact hshows.nodup.filter _
  · obtain ⟨id, hid, hp⟩ := List.mem_filterMap.1 hp
    obtain ⟨v, hget, rfl⟩ := Option.map_eq_some_iff.1 hp
    refine ⟨hosts_of_get? hget ▸ hnormal id, ?_⟩
    have hlisted := hshows.touched id hid
    rw [hids] at hlisted
    have hkey : id ∈ request.keys.map FileSteps.BindHostsKeyEntry.cipherId := hlisted
    rwa [hkeys, forKeys, List.map_map] at hkey

end BindHostsDialog

variable {env : SnippetEnv} {keys : List ManagedKey} {files : BindingFiles}

theorem fromSnippet_fromSnippet (files : BindingFiles) (m : HostMap) :
    fromSnippet files (fromSnippet files m) = fromSnippet files m := by
  funext id
  unfold fromSnippet
  split <;> rfl

/-- The bindings are loaded with the hosts of the snippet. -/
theorem exists_loaded (hdir : '\n' ∉ env.selectorDir)
    (hread : ∀ key ∈ keys, Readable (keys.map ManagedKey.cipherId) key)
    (hfiles : Consistent env keys files) {bindings : HostBindingsFile} (hw : bindings.WellFormed keys) :
    ∃ loaded, loadHostBindingsImportingManaged keys { files with bindings } =
      .ok (loaded, { files with bindings := loaded }) ∧
      seededBindings keys { files with bindings } = .ok loaded ∧ loaded.hosts = fromSnippet files bindings.hosts ∧
      loaded.WellFormed keys := by
  by_cases hkeys : keys = []
  · subst hkeys
    exact ⟨bindings, rfl, rfl, (fromSnippet_of_no_keys hfiles.wellFormed _).symm, hw⟩
  · obtain ⟨file', changed, himport, hhosts, hwf, hsame⟩ := import_consistent hdir hread hfiles bindings
    refine ⟨file', ?_, ?_, hhosts, hwf hw⟩
    · unfold loadHostBindingsImportingManaged
      rw [if_neg hkeys, himport]
      cases changed with
      | true => rfl
      | false => rw [hsame rfl]; rfl
    · unfold seededBindings
      rw [if_neg hkeys, himport]
      rfl

/-- The answer of the dialog is always accepted. Of the keys that the old snippet has no hosts for it leaves what the
window showed; the others get the hosts of the old snippet back. -/
theorem dialog_saves_what_it_shows (hdir : '\n' ∉ env.selectorDir)
    (hread : ∀ key ∈ keys, Readable (keys.map ManagedKey.cipherId) key) (hfiles : Consistent env keys files) :
    ∃ loaded opened, loadHostBindingsImportingManaged keys files = .ok (loaded, opened) ∧
      ∀ (request : DialogRequest), request.keys = BindHostsDialog.forKeys keys loaded → ∀ events payload,
        ((BindHostsDialog.new request).run events).result = some (.saved payload) →
        ∃ pre post saved, events = pre ++ .save :: post ∧
          persistBindPayload env (some keys) payload opened = .ok saved ∧ saved.bindings.WellFormed keys ∧
          ∀ id, saved.bindings.hosts id =
            if files.managed = none ∨ editedHosts (files.bindings.hosts id) = [] then
              ((BindHostsDialog.new request).run pre).hosts id
            else editedHosts (files.bindings.hosts id) := by
  obtain ⟨loaded, hload, -, hhosts, hwf⟩ := exists_loaded hdir hread hfiles hfiles.wellFormed
  refine ⟨loaded, _, hload, fun request hkeys events payload hresult => ?_⟩
  obtain ⟨pre, event, post, rfl, hnone, hby⟩ := BindHostsDialog.exists_answer rfl hresult
  obtain ⟨rfl, hpayload⟩ : event = .save ∧ payload = ((BindHostsDialog.new request).run pre).payload := by
    rcases hby with ⟨hsave, heq⟩ | ⟨-, heq⟩
    · exact ⟨hsave, DialogResult.saved.inj heq⟩
    · cases heq
  subst hpayload
  obtain ⟨hshows, hedited, -⟩ := BindHostsDialog.keep_run (BindHostsDialog.shows_new request)
    (BindHostsDialog.edited_new request) pre
  obtain ⟨hnodup, hpnormal⟩ := BindHostsDialog.payload_normal hwf hkeys pre
  obtain ⟨seeded, -, hseeded, hseededHosts, hseededWf⟩ := exists_loaded hdir hread hfiles hwf
  obtain ⟨changed, hset⟩ := setAllHosts_normal (fun p hp => (hpnormal p hp).1) seeded
  obtain ⟨hchanged, hchangedWf⟩ := HostBindingsFile.setAllHosts_ok hset
  have hchangedWf := hchangedWf keys hseededWf fun p hp => (hpnormal p hp).2
  obtain ⟨saved, hsync⟩ : ∃ saved,
      syncManagedSshConfigInner env keys true { files with bindings := changed } = .ok saved := by
    obtain ⟨resaved, hreload, -⟩ := exists_loaded hdir hread hfiles hchangedWf
    unfold syncManagedSshConfigInner
    rw [hreload]
    exact ⟨_, rfl⟩
  have hmanaged : ({ files with bindings := changed } : BindingFiles).managed = files.managed := rfl
  obtain ⟨hsaved, hsavedWf, -⟩ := syncManagedSshConfigInner_ok hdir hread hfiles hchangedWf hmanaged hsync
  have hlocked : withHostBindingsLocked keys (fun bindings => (·, ()) <$>
      setAllHosts ((BindHostsDialog.new request).run pre).payload bindings) { files with bindings := loaded } =
      .ok ({ files with bindings := changed }, ()) := by
    unfold withHostBindingsLocked
    rw [hseeded]
    show ((·, ()) <$> setAllHosts ((BindHostsDialog.new request).run pre).payload seeded >>= _) = _
    rw [hset]
    rfl
  refine ⟨pre, post, saved, rfl, ?_, hsavedWf, fun id => ?_⟩
  · unfold persistBindPayload
    rw [Option.getD_some, hlocked]
    exact hsync
  · rw [hsaved, hchanged]
    show (if _ then _ else _) = _
    split
    · rw [foldl_replace_normal hnodup fun p hp => (hpnormal p hp).1, BindHostsDialog.get?_payload hshows]
      split
      · rfl
      · next hno =>
        rw [Option.getD_none, hseededHosts, hhosts, fromSnippet_fromSnippet, ← hhosts, hedited.untouched id hno,
          BindHostsDialog.hosts_new hwf hkeys]
    · rfl

/-- The user types a host for the one key, adds it, removes it and adds another one. -/
def addsTwoHosts : List DialogEvent :=
  [.typed "a.example".toList, .addHost, .removeHost 0, .typed " b.example".toList, .addHost]

theorem dialog_saves_edited_host :
    ∃ loaded opened, loadHostBindingsImportingManaged [workKey] ⟨{}, none⟩ = .ok (loaded, opened) ∧
      ∃ payload saved, ((BindHostsDialog.new ⟨BindHostsDialog.forKeys [workKey] loaded, none, none, false⟩).run
          (addsTwoHosts ++ [.save])).result = some (.saved payload) ∧
        persistBindPayload unixEnv (some [workKey]) payload opened = .ok saved ∧
        saved.bindings.hosts workKey.cipherId = ["b.example".toList] := by
  obtain ⟨loaded, opened, hload, hall⟩ :=
    dialog_saves_what_it_shows (by decide) workKey_readable (consistent_empty unixEnv _)
  have hempty : loadHostBindingsImportingManaged [workKey] ⟨{}, none⟩ = .ok ({}, ⟨{}, none⟩) := by decide +kernel
  obtain ⟨rfl, rfl⟩ := Prod.mk.inj (Except.ok.inj (hempty.symm.trans hload))
  refine ⟨_, _, hload, ?_⟩
  obtain ⟨payload, hpayload⟩ : ∃ payload,
    ((BindHostsDialog.new ⟨BindHostsDialog.forKeys [workKey] {}, none, none, false⟩).run
      (addsTwoHosts ++ [.save])).result = some (.saved payload) :=
    ⟨[("c1".toList, ["b.example".toList])], by decide +kernel⟩
  obtain ⟨pre, post, saved, hevents, hsaved, -, hhosts⟩ := hall _ rfl _ _ hpayload
  obtain ⟨rfl, -⟩ := append_cons_inj (P := fun event => event = .save) hevents rfl (by simp [addsTwoHosts])
    fun _ h => (List.not_mem_nil h).elim
  refine ⟨payload, saved, hpayload, hsaved, (hhosts _).trans ?_⟩
  decide +kernel

end SshWarden
