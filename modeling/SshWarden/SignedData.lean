import SshWarden.Data
import SshWarden.Lib.LengthPrefix

/-!
# Requests to sign

`parse_request` tells an SSHSIG blob, the data that `ssh-keygen -Y sign` and git have signed, from the
data of an SSH authentication, and reads the namespace of the blob. Remembered approvals are keyed by
the operation kind that follows from it. OpenSSH lays the signed data out as the magic preamble and four
length-prefixed strings; the parser takes the length of the first one for a version.
-/

namespace SshWarden

structure SshSigRequest where
  sigNamespace : String
deriving DecidableEq, Repr

inductive SshAgentSignRequest
  | sshSigRequest (request : SshSigRequest)
  | signRequest
deriving DecidableEq, Repr

def operationKindFromNamespace (sigNamespace : String) : OperationKind :=
  if sigNamespace = "git" then .gitSigning
  else if sigNamespace = "file" then .fileSigning
  else if sigNamespace = "ssh" then .sshAuthentication
  else .sshSignature

def SshAgentSignRequest.operationKind : SshAgentSignRequest → OperationKind
  | .signRequest => .sshAuthentication
  | .sshSigRequest request => operationKindFromNamespace request.sigNamespace

/-- `"SSHSIG"` -/
def magicHeader : Bytes := [0x53, 0x53, 0x48, 0x53, 0x49, 0x47]

def parseRequest (data : Bytes) : Except String SshAgentSignRequest :=
  if data.length < magicHeader.length then .ok .signRequest
  else
    let header := data.take magicHeader.length
    let data := data.drop magicHeader.length
    if header = magicHeader then
      if data.length < 4 then .error "Truncated SSHSIG request: missing version"
      else
        match fromUtf8 ((data.drop 4).takeWhile (· ≠ 0)) with
        | some sigNamespace => .ok (.sshSigRequest ⟨sigNamespace⟩)
        | none => .error "Invalid namespace"
    else .ok .signRequest

/-- Each kind but the last has one namespace. -/
theorem operationKindFromNamespace_iff (ns : String) :
    (operationKindFromNamespace ns = .gitSigning ↔ ns = "git") ∧
      (operationKindFromNamespace ns = .fileSigning ↔ ns = "file") ∧
      (operationKindFromNamespace ns = .sshAuthentication ↔ ns = "ssh") := by
  unfold operationKindFromNamespace
  split
  · next h => subst h; decide
  · next hgit =>
    split
    · next h => subst h; decide
    · next hfile =>
      split
      · next h => subst h; decide
      · next hssh => simp [hgit, hfile, hssh]

/-- The signed data of OpenSSH. -/
structure SignedData where
  sigNamespace : String
  reserved : Bytes
  hashAlgorithm : Bytes
  hash : Bytes
  namespace_fits : (utf8 sigNamespace).length < 2 ^ 32
  reserved_fits : reserved.length < 2 ^ 32
  hashAlgorithm_fits : hashAlgorithm.length < 2 ^ 32
  hash_fits : hash.length < 2 ^ 32

namespace SignedData

def bytes (d : SignedData) : Bytes :=
  magicHeader ++ lengthPrefixed (utf8 d.sigNamespace) ++ lengthPrefixed d.reserved
    ++ lengthPrefixed d.hashAlgorithm ++ lengthPrefixed d.hash

/-- The parser reads the namespace of the data, and so takes the data for a signature of git, of a file
or of an authentication only where the namespace says so. -/
def ReadRight (d : SignedData) : Prop :=
  ∃ request, parseRequest d.bytes = .ok request ∧ request = .sshSigRequest ⟨d.sigNamespace⟩ ∧
    (request.operationKind = .gitSigning → d.sigNamespace = "git") ∧
    (request.operationKind = .fileSigning → d.sigNamespace = "file") ∧
    (request.operationKind = .sshAuthentication → d.sigNamespace = "ssh")

/-- What follows the namespace. -/
def afterNamespace (d : SignedData) : Bytes :=
  be32 d.reserved.length ++ (d.reserved ++ (lengthPrefixed d.hashAlgorithm ++ lengthPrefixed d.hash))

theorem bytes_eq (d : SignedData) :
    d.bytes = magicHeader ++ (be32 (utf8 d.sigNamespace).length ++ (utf8 d.sigNamespace ++ d.afterNamespace)) := by
  simp only [bytes, lengthPrefixed, afterNamespace, List.append_assoc]

theorem parseRequest_bytes (d : SignedData) :
    parseRequest d.bytes =
      match fromUtf8 ((utf8 d.sigNamespace ++ d.afterNamespace).takeWhile (· ≠ 0)) with
      | some sigNamespace => .ok (.sshSigRequest ⟨sigNamespace⟩)
      | none => .error "Invalid namespace" := by
  have hlen : ¬d.bytes.length < magicHeader.length := by rw [bytes_eq, List.length_append]; omega
  have hversion (rest : Bytes) : ¬(be32 (utf8 d.sigNamespace).length ++ rest).length < 4 := by
    rw [List.length_append, length_be32]; omega
  have hdrop (rest : Bytes) : (be32 (utf8 d.sigNamespace).length ++ rest).drop 4 = rest := rfl
  rw [parseRequest, if_neg hlen, bytes_eq]
  simp only [List.take_left, List.drop_left, if_true, if_neg (hversion _), hdrop]

theorem readRight_iff_takeWhile {d : SignedData} :
    d.ReadRight ↔ (utf8 d.sigNamespace ++ d.afterNamespace).takeWhile (· ≠ 0) = utf8 d.sigNamespace := by
  unfold ReadRight
  rw [parseRequest_bytes]
  constructor
  · rintro ⟨_, h, rfl, -⟩
    cases hread : fromUtf8 ((utf8 d.sigNamespace ++ d.afterNamespace).takeWhile (· ≠ 0)) with
    | none => rw [hread] at h; cases h
    | some ns =>
      rw [hread] at h
      injection h with h
      injection h with h
      injection h with h
      exact (fromUtf8_eq_some.1 hread).trans (congrArg utf8 h)
  · intro h
    rw [h, fromUtf8_utf8]
    obtain ⟨hgit, hfile, hssh⟩ := operationKindFromNamespace_iff d.sigNamespace
    exact ⟨_, rfl, rfl, hgit.1, hfile.1, hssh.1⟩

/-- The namespace is read right exactly when it has no NUL in it and the high byte of the length that
follows it is one. -/
theorem readRight_iff (d : SignedData) :
    d.ReadRight ↔ 0 ∉ utf8 d.sigNamespace ∧ d.reserved.length < 2 ^ 24 := by
  rw [readRight_iff_takeWhile, List.takeWhile_append_eq_left, afterNamespace,
    takeWhile_be32 d.reserved_fits]
  refine and_congr_left' ?_
  constructor
  · exact fun h h0 => by simpa using h 0 h0
  · intro h b hb
    have hne : b ≠ 0 := fun h0 => h (h0 ▸ hb)
    simpa using hne

/-- Data signed in a namespace that is `git` up to a NUL. -/
def gitUpToNul : SignedData :=
  ⟨"git\x00deploy", [], utf8 "sha512", [1, 2, 3], by decide, by decide, by decide +kernel, by decide⟩

theorem gitUpToNul_read_as_git :
    parseRequest gitUpToNul.bytes = .ok (.sshSigRequest ⟨"git"⟩) ∧
      SshAgentSignRequest.operationKind (.sshSigRequest ⟨"git"⟩) = .gitSigning ∧
      gitUpToNul.sigNamespace ≠ "git" := by
  decide

theorem gitUpToNul_not_readRight : ¬∀ d : SignedData, d.ReadRight := by
  intro h
  obtain ⟨_, hparse, rfl, -⟩ := h gitUpToNul
  rw [gitUpToNul_read_as_git.1] at hparse
  exact absurd hparse (by decide)

end SignedData

end SshWarden
