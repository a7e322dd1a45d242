import SshWarden.Lib.Assoc
import SshWarden.Lib.Distinct
import SshWarden.Lib.Text

/-!
# The host bindings file

`bindings.json` maps the id of a vault item to the host patterns its key is offered for. The methods
are those of `HostBindingsFile`; the modification times, which nothing reads, are left out.
-/

namespace SshWarden

inductive BindingError where
  | patternEmpty
  | patternWhitespace (pattern : Text)
  | patternControl (pattern : Text)
  | patternUnsafe (pattern : Text)
  | noKeyMatches (query : Text)
  | severalKeysMatch (query : Text) (count : Nat)
  | hostAndAll
  | hostOrAllMissing
  | noMatchingBinding (cipherId : Text)
  deriving DecidableEq, Repr

def isUnsafeInSshConfig (c : Char) : Bool := "\"'\\#".toList.contains c

def validateHostPattern (pattern : Text) : Except BindingError Unit :=
  if Text.trim pattern = [] then .error .patternEmpty
  else if (Text.trim pattern).any Text.isWhitespace then .error (.patternWhitespace pattern)
  else if (Text.trim pattern).any Text.isControl then .error (.patternControl pattern)
  else if (Text.trim pattern).any isUnsafeInSshConfig then .error (.patternUnsafe pattern)
  else .ok ()

theorem validateHostPattern_trim {p : Text} (h : validateHostPattern p = .ok ()) :
    Text.trim p ≠ [] ∧ ∀ c ∈ Text.trim p, Text.isWhitespace c = false := by
  unfold validateHostPattern at h
  split_ifs at h with h₁ h₂ h₃ h₄
  refine ⟨h₁, fun c hc => ?_⟩
  by_contra hw
  exact h₂ (List.any_eq_true.2 ⟨c, hc, by simpa using hw⟩)

/-- What the file keeps of a valid pattern is a trimmed valid pattern. -/
theorem validateHostPattern_of_trim {p : Text} (h : validateHostPattern p = .ok ()) :
    Text.trim (Text.trim p) = Text.trim p ∧ validateHostPattern (Text.trim p) = .ok () := by
  have ht : Text.trim (Text.trim p) = Text.trim p :=
    Text.trim_of_no_whitespace (validateHostPattern_trim h).2
  refine ⟨ht, ?_⟩
  unfold validateHostPattern at h ⊢
  rw [ht]
  split_ifs at h ⊢
  rfl

structure HostBindingsFile where
  bindings : Assoc Text (List Text) := []
  deriving DecidableEq

namespace HostBindingsFile

def setHosts (file : HostBindingsFile) (cipherUuid : Text) (hosts : List Text) :
    Except BindingError HostBindingsFile := do
  hosts.forM validateHostPattern
  let deduped := Distinct.ofList Text.eqIgnoreAsciiCase (hosts.map Text.trim)
  if deduped = [] then pure { file with bindings := file.bindings.erase cipherUuid }
  else pure { file with bindings := file.bindings.insert cipherUuid deduped }

def addHost (file : HostBindingsFile) (cipherUuid host : Text) : Except BindingError HostBindingsFile := do
  validateHostPattern host
  let entry := (file.bindings.get? cipherUuid).getD []
  pure { file with
    bindings := file.bindings.insert cipherUuid (Distinct.push Text.eqIgnoreAsciiCase entry (Text.trim host)) }

def removeHost (file : HostBindingsFile) (cipherUuid host : Text) : HostBindingsFile × Bool :=
  match file.bindings.get? cipherUuid with
  | none => (file, false)
  | some hosts =>
    let kept := hosts.filter fun h => !Text.eqIgnoreAsciiCase h (Text.trim host)
    if kept = [] then ({ file with bindings := file.bindings.erase cipherUuid }, hosts ≠ [])
    else ({ file with bindings := file.bindings.insert cipherUuid kept }, kept.length ≠ hosts.length)

def clearKey (file : HostBindingsFile) (cipherUuid : Text) : HostBindingsFile × Bool :=
  ({ file with bindings := file.bindings.erase cipherUuid }, (file.bindings.get? cipherUuid).isSome)

def pruneOrphans (file : HostBindingsFile) (knownIds : List Text) : HostBindingsFile × Nat :=
  let kept := file.bindings.filter fun p => p.1 ∈ knownIds
  ({ file with bindings := kept }, file.bindings.length - kept.length)

/-- The hosts of a key; none for a key that has no entry. -/
def hosts (file : HostBindingsFile) (cipherUuid : Text) : List Text :=
  (file.bindings.get? cipherUuid).getD []

end HostBindingsFile

end SshWarden
