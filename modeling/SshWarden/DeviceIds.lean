import SshWarden.Lib.AsciiText
import SshWarden.Lib.Components

/-!
# Device ids

The name of a device's own directory below the shared, cloud-synced one, and the name of an installation below
the machine's state directory. Both come out of `sanitize_path_segment`: whatever is configured, the name is one
component of a path, and sanitizing it again changes nothing. The process keeps the values it has computed
first; here they are functions of the environment and the configuration.
-/

namespace SshWarden
open Text.Path (components IsName)

def isSegmentChar (c : Char) : Bool := Text.isAsciiAlphanumeric c || c = '_' || c = '.'

def fallbackSegment : Text := ['d', 'e', 'v', 'i', 'c', 'e']

def sanitizePathSegment (toLowercase : Char → List Char) (value : Text) (lowercase : Bool) : Text :=
  let chars := if lowercase then (Text.trim value).flatMap toLowercase else Text.trim value
  let sanitized := Text.trimMatches '-' (chars.foldl (Text.collapseStep isSegmentChar) ([], false)).1
  if sanitized = [] || sanitized.all (· = '.') then fallbackSegment else sanitized

def sanitizeDeviceId (toLowercase : Char → List Char) (value : Text) : Text :=
  sanitizePathSegment toLowercase value true

def sanitizeInstanceName (toLowercase : Char → List Char) (value : Text) : Text :=
  sanitizePathSegment toLowercase value false

/-- The variables and the program that an id is made from. -/
structure DeviceEnv where
  /-- `SSHWARDEN_DEVICE_ID` -/
  deviceId : Option Text
  computername : Option Text
  hostname : Option Text
  /-- What the program `hostname` prints. -/
  hostnameOutput : Option Text
  username : Option Text
  user : Option Text
  toLowercase : Char → List Char
  /-- `fmt::Debug` of a string. -/
  debug : Text → String

namespace DeviceEnv
variable (env : DeviceEnv)

def hostnameForDeviceId : Text :=
  ((env.computername.or env.hostname).filter fun s => Text.trim s ≠ []).getD
    (((env.hostnameOutput.map Text.trim).filter fun s => s ≠ []).getD ['d', 'e', 'v', 'i', 'c', 'e'])

def autoDeviceId : Text :=
  sanitizeDeviceId env.toLowercase
    (env.hostnameForDeviceId ++ '-' :: (env.username.or env.user).getD ['u', 's', 'e', 'r'])

/-- `current_device_id_from_config`; `configured` is `storage.device_id`. -/
def currentDeviceId (configured : Text) : Text :=
  match (env.deviceId.map Text.trim).filter fun id => id ≠ [] with
  | some id => sanitizeDeviceId env.toLowercase id
  | none =>
    if Text.trim configured ≠ [] && !Text.eqIgnoreAsciiCase (Text.trim configured) ['a', 'u', 't', 'o'] then
      sanitizeDeviceId env.toLowercase (Text.trim configured)
    else env.autoDeviceId

def isSingleSegment (deviceId : Text) : Bool :=
  match components deviceId with
  | [.normal _] => true
  | _ => false

def devicesDir (shared : Text) : Text := Text.Path.join shared ['d', 'e', 'v', 'i', 'c', 'e', 's']

def deviceDataDir (shared : Text) (multiDevice : Bool) (deviceId : Text) : Except String Text :=
  if multiDevice then
    if isSingleSegment deviceId then .ok (Text.Path.join (devicesDir shared) deviceId)
    else .error s!"Invalid device id {env.debug deviceId}: must be a single path segment without separators or '.'/'..'"
  else .ok shared

def defaultInstance : Text := ['d', 'e', 'f', 'a', 'u', 'l', 't']

def instanceKeyWith (shared : Text) (deviceId : Option Text) : Text :=
  match deviceId with
  | some id => sanitizeDeviceId env.toLowercase id
  | none =>
    match Text.Path.fileName shared with
    | none => defaultInstance
    | some name => if Text.trim name = [] then defaultInstance else sanitizeInstanceName env.toLowercase name

end DeviceEnv

variable {toLowercase : Char → List Char} {s : Text}

/-- A name over the characters of a segment, with single dashes inside. -/
structure SafeSegment (s : Text) : Prop where
  nonempty : s ≠ []
  chars : ∀ c ∈ s, isSegmentChar c = true ∨ c = '-'
  not_dots : ∃ c ∈ s, c ≠ '.'
  head : s.head? ≠ some '-'
  last : s.getLast? ≠ some '-'
  single_dashes : ¬['-', '-'] <:+: s

theorem toNat_of_isSegmentChar {c : Char} (h : isSegmentChar c = true ∨ c = '-') :
    45 ≤ c.toNat ∧ c.toNat < 123 := by
  rcases h with h | rfl
  · simp only [isSegmentChar, Bool.or_eq_true, decide_eq_true_eq] at h
    rcases h with (h | rfl) | rfl
    · have hbounds := Text.toNat_of_isAsciiAlphanumeric h
      omega
    · decide
    · decide
  · decide

namespace SafeSegment

theorem slash_not_mem (h : SafeSegment s) : '/' ∉ s := by
  intro hmem
  exact absurd (h.chars _ hmem) (by decide)

/-- The segment is the name of a file. -/
theorem isName (h : SafeSegment s) : IsName s where
  nonempty := h.nonempty
  not_cur := by
    rintro rfl
    obtain ⟨c, hc, hne⟩ := h.not_dots
    exact hne (List.mem_singleton.1 hc)
  not_up := by
    rintro rfl
    obtain ⟨c, hc, hne⟩ := h.not_dots
    simp at hc
    exact hne hc
  no_slash := h.slash_not_mem

theorem trim_eq_self (h : SafeSegment s) : Text.trim s = s := by
  refine Text.trim_of_no_whitespace fun c hc => ?_
  have hbounds := toNat_of_isSegmentChar (h.chars c hc)
  exact Text.not_isWhitespace_of_ascii (by omega) (by omega)

/-- A safe segment without upper-case letters, or whose case is kept, is what it is sanitized to. -/
theorem sanitize_eq_self (h : SafeSegment s) (laws : Text.LowercaseLaws toLowercase) {lowercase : Bool}
    (hcase : lowercase = true → ∀ c ∈ s, c.isUpper = false) :
    sanitizePathSegment toLowercase s lowercase = s := by
  have hchars : (if lowercase then (Text.trim s).flatMap toLowercase else Text.trim s) = s := by
    rw [h.trim_eq_self]
    split_ifs with hl
    · refine laws.flatMap_eq_self fun c hc => ⟨?_, hcase hl c hc⟩
      have hbounds := toNat_of_isSegmentChar (h.chars c hc)
      omega
    · rfl
  have hfold : Text.trimMatches '-' (s.foldl (Text.collapseStep isSegmentChar) ([], false)).1 = s := by
    have hself : Text.collapse isSegmentChar false s = s :=
      Text.collapse_eq_self h.chars h.single_dashes fun h => absurd h Bool.false_ne_true
    rw [Text.foldl_collapseStep, List.nil_append, hself]
    exact Text.trimMatches_eq_self h.head h.last
  have hdots : ¬s.all (· = '.') = true := by
    obtain ⟨c, hc, hne⟩ := h.not_dots
    intro hall
    exact hne (of_decide_eq_true (List.all_eq_true.1 hall c hc))
  unfold sanitizePathSegment
  rw [hchars]
  dsimp only
  rw [hfold, if_neg (by simpa [h.nonempty] using hdots)]

end SafeSegment

theorem safeSegment_fallback : SafeSegment fallbackSegment where
  nonempty := by decide
  chars c hc := by
    have hall : fallbackSegment.all isSegmentChar = true := by decide
    exact .inl (List.all_eq_true.1 hall c hc)
  not_dots := ⟨'d', by decide, by decide⟩
  head := by decide
  last := by decide
  single_dashes := by decide

/-- Whatever is sanitized, the result is a safe segment. -/
theorem safeSegment_sanitize (toLowercase : Char → List Char) (value : Text) (lowercase : Bool) :
    SafeSegment (sanitizePathSegment toLowercase value lowercase) := by
  unfold sanitizePathSegment
  generalize (if lowercase then (Text.trim value).flatMap toLowercase else Text.trim value) = chars
  dsimp only
  rw [Text.foldl_collapseStep, List.nil_append]
  split_ifs with hempty
  · exact safeSegment_fallback
  · obtain ⟨hne, hdots⟩ : Text.trimMatches '-' (Text.collapse isSegmentChar false chars) ≠ [] ∧
        ¬(Text.trimMatches '-' (Text.collapse isSegmentChar false chars)).all (· = '.') = true := by
      simpa using hempty
    refine ⟨hne, fun c hc => ?_, ?_, Text.head?_trimMatches _ _, Text.getLast?_trimMatches _ _, fun hdashes => ?_⟩
    · exact (Text.mem_collapse (Text.mem_of_mem_trimMatches hc)).symm.imp_left And.left
    · simpa using hdots
    · exact Text.not_dashes_collapse (by decide) false chars (hdashes.trans (Text.infix_trimMatches ..))

/-- Nothing upper-case is left of a lower-cased text. -/
theorem not_upper_sanitize (laws : Text.LowercaseLaws toLowercase) (value : Text) :
    ∀ c ∈ sanitizePathSegment toLowercase value true, c.isUpper = false := by
  intro c hc
  unfold sanitizePathSegment at hc
  dsimp only at hc
  rw [Text.foldl_collapseStep, List.nil_append, if_pos rfl] at hc
  split_ifs at hc
  · have hall : fallbackSegment.all (fun c => !c.isUpper) = true := by decide
    simpa using List.all_eq_true.1 hall c hc
  · rcases Text.mem_collapse (Text.mem_of_mem_trimMatches hc) with rfl | ⟨-, hc⟩
    · decide
    · exact laws.not_upper_flatMap _ c hc

theorem sanitize_idem (laws : Text.LowercaseLaws toLowercase) (value : Text) (lowercase : Bool) :
    sanitizePathSegment toLowercase (sanitizePathSegment toLowercase value lowercase) lowercase =
      sanitizePathSegment toLowercase value lowercase := by
  refine (safeSegment_sanitize toLowercase value lowercase).sanitize_eq_self laws ?_
  rintro rfl
  exact not_upper_sanitize laws value

namespace DeviceEnv
variable {env : DeviceEnv}

/-- The device's own directory is a directory in `devices`, and the installation has the name of the device. -/
structure DirsAgree (env : DeviceEnv) (shared deviceId : Text) : Prop where
  data_dir : env.deviceDataDir shared true deviceId = .ok (Text.Path.join (devicesDir shared) deviceId)
  inside : components (Text.Path.join (devicesDir shared) deviceId) =
    components shared ++ [.normal ['d', 'e', 'v', 'i', 'c', 'e', 's'], .normal deviceId]
  instance_key : env.instanceKeyWith shared (some deviceId) = deviceId

theorem dirsAgree_of_name {deviceId : Text} (h : IsName deviceId)
    (hfixed : sanitizeDeviceId env.toLowercase deviceId = deviceId) (shared : Text) :
    DirsAgree env shared deviceId := by
  refine ⟨?_, ?_, hfixed⟩
  · have hsingle : isSingleSegment deviceId = true := by rw [isSingleSegment, h.components]
    unfold deviceDataDir
    rw [if_pos rfl, if_pos hsingle]
  · have hdevices : IsName ['d', 'e', 'v', 'i', 'c', 'e', 's'] := ⟨by decide, by decide, by decide, by decide⟩
    rw [Text.Path.components_join_name _ h, devicesDir, Text.Path.components_join_name _ hdevices,
      List.append_assoc]
    rfl

theorem dirsAgree_sanitize (laws : Text.LowercaseLaws env.toLowercase) (shared value : Text) :
    DirsAgree env shared (sanitizeDeviceId env.toLowercase value) :=
  dirsAgree_of_name (safeSegment_sanitize ..).isName (sanitize_idem laws value true) shared

/-- Wherever it comes from, the device's id is a sanitized one. -/
theorem exists_currentDeviceId (env : DeviceEnv) (configured : Text) :
    ∃ value, env.currentDeviceId configured = sanitizeDeviceId env.toLowercase value := by
  unfold currentDeviceId
  split
  · next id _ => exact ⟨id, rfl⟩
  · split_ifs
    · exact ⟨_, rfl⟩
    · exact ⟨_, rfl⟩

/-- Device ids and instance names are single names that sanitizing keeps, so that the id never leaves the
directory of the devices and names the installation too. -/
theorem deviceIds_safe (laws : Text.LowercaseLaws env.toLowercase) :
    (∀ value lowercase, SafeSegment (sanitizePathSegment env.toLowercase value lowercase) ∧
      components (sanitizePathSegment env.toLowercase value lowercase) =
        [.normal (sanitizePathSegment env.toLowercase value lowercase)] ∧
      sanitizePathSegment env.toLowercase (sanitizePathSegment env.toLowercase value lowercase) lowercase =
        sanitizePathSegment env.toLowercase value lowercase) ∧
      (∀ shared value, DirsAgree env shared (sanitizeDeviceId env.toLowercase value)) ∧
      ∀ shared configured, DirsAgree env shared (env.currentDeviceId configured) := by
  refine ⟨fun value lowercase => ?_, dirsAgree_sanitize laws, fun shared configured => ?_⟩
  · have hsafe := safeSegment_sanitize env.toLowercase value lowercase
    exact ⟨hsafe, hsafe.isName.components, sanitize_idem laws value lowercase⟩
  · obtain ⟨value, hvalue⟩ := env.exists_currentDeviceId configured
    rw [hvalue]
    exact dirsAgree_sanitize laws shared value

/-- A host whose lower-cased name has a combining dot, and a user with a Kelvin sign. -/
def izmir : DeviceEnv where
  deviceId := some "  ".toList
  computername := none
  hostname := some "\u0130zmir.Host".toList
  hostnameOutput := none
  username := none
  user := some "\u212Aim".toList
  toLowercase := Text.sampleLowercase
  debug id := "\"" ++ String.ofList id ++ "\""

theorem izmir_dirs_agree : izmir.currentDeviceId "AUTO ".toList = "i-zmir.host-kim".toList ∧
    DirsAgree izmir "/sync".toList (izmir.currentDeviceId "AUTO ".toList) :=
  ⟨by decide, (@deviceIds_safe izmir Text.lowercaseLaws_sample).2.2 _ _⟩

/-- A path out of the directory becomes a name in it. -/
example : sanitizeDeviceId Text.sampleLowercase "../..".toList = "..-..".toList := by decide

end DeviceEnv

end SshWarden
