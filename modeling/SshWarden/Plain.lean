import SshWarden.Data

/-!
# Plain crates

`Crates.plain` is an instance of the crates without cryptographic strength: a ciphertext carries its
key in the clear, and decryption compares it. It keeps the laws the real functions have.
-/

namespace SshWarden

namespace Plain

/-- A byte as a character that is never the separator. -/
def byteChar (b : UInt8) : Char := Char.ofNat (b.toNat + 1)

def charByte (c : Char) : UInt8 := UInt8.ofNat (c.toNat - 1)

def sep : Char := Char.ofNat 0

def text (b : Bytes) : List Char := b.map byteChar

def header (key : SymmetricKey) : List Char := text key.encKey ++ sep :: (text key.macKey ++ [sep])

def encrypt (bytes : Bytes) (key : SymmetricKey) : String := String.ofList (header key ++ text bytes)

def decrypt (enc : String) (key : SymmetricKey) : Except String Bytes :=
  if (header key).isPrefixOf enc.toList then .ok ((enc.toList.drop (header key).length).map charByte)
  else .error "MAC mismatch"

/-- A string between quotes, every character escaped. -/
def quoted (s : String) : List Char := (s.toList.flatMap fun c => ['\\', c]) ++ ['"']

def keysToJson (keys : List KeyTuple) : String :=
  String.ofList (keys.flatMap fun k => quoted k.key ++ quoted k.name ++ quoted k.cipherId)

/-- The quoted strings of a text. -/
def unquote : List Char → List Char → Option (List String)
  | [], [] => some []
  | [], _ :: _ => none
  | '\\' :: c :: rest, acc => unquote rest (acc ++ [c])
  | '"' :: rest, acc => (unquote rest []).map (String.ofList acc :: ·)
  | _ :: _, _ => none

def triples : List String → Option (List KeyTuple)
  | [] => some []
  | key :: name :: cipherId :: rest => (triples rest).map (⟨key, name, cipherId⟩ :: ·)
  | _ => none

def keysFromJson (json : String) : Except String (List KeyTuple) :=
  match (unquote json.toList []).bind triples with
  | some keys => .ok keys
  | none => .error "not a list of keys"

theorem toNat_byteChar (b : UInt8) : (byteChar b).toNat = b.toNat + 1 := by
  have hb := b.toNat_lt
  have hv : Nat.isValidChar (b.toNat + 1) := .inl (by omega)
  rw [byteChar, Char.ofNat, dif_pos hv]
  rfl

theorem charByte_byteChar (b : UInt8) : charByte (byteChar b) = b := by simp [charByte, toNat_byteChar]

theorem map_text (b : Bytes) : (text b).map charByte = b := by
  simp [text, Function.comp_def, charByte_byteChar]

theorem sep_notMem_text (b : Bytes) : sep ∉ text b := by
  intro h
  obtain ⟨byte, -, hb⟩ := List.mem_map.1 h
  have hbyte := charByte_byteChar byte
  have hnat := toNat_byteChar byte
  rw [hb] at hnat
  exact absurd hnat (by simp [sep])

theorem append_sep_inj {l l' m m' : List Char} (hl : sep ∉ l) (hl' : sep ∉ l')
    (h : l ++ sep :: m = l' ++ sep :: m') : l = l' ∧ m = m' := by
  rcases List.append_eq_append_iff.1 h with ⟨c, rfl, hc⟩ | ⟨c, rfl, hc⟩
  · cases c with
    | nil => exact ⟨(List.append_nil l).symm, (List.cons.inj hc).2⟩
    | cons a c => exact absurd ((List.cons.inj hc).1 ▸ List.mem_append_right _ List.mem_cons_self) hl'
  · cases c with
    | nil => exact ⟨List.append_nil l', (List.cons.inj hc).2.symm⟩
    | cons a c => exact absurd ((List.cons.inj hc).1 ▸ List.mem_append_right _ List.mem_cons_self) hl

theorem decrypt_encrypt (bytes : Bytes) (key : SymmetricKey) : decrypt (encrypt bytes key) key = .ok bytes := by
  simp [decrypt, encrypt, map_text]

theorem unquote_quoted (s : String) (rest acc : List Char) :
    unquote (quoted s ++ rest) acc = (unquote rest []).map (String.ofList (acc ++ s.toList) :: ·) := by
  unfold quoted
  generalize s.toList = cs
  induction cs generalizing acc with
  | nil => simp [unquote]
  | cons c cs ih =>
    have hstep := ih (acc ++ [c])
    simpa [unquote] using hstep

theorem keysFromJson_keysToJson (keys : List KeyTuple) : keysFromJson (keysToJson keys) = .ok keys := by
  have hread : (unquote (keys.flatMap fun k => quoted k.key ++ (quoted k.name ++ quoted k.cipherId)) []).bind
      triples = some keys := by
    induction keys with
    | nil => rfl
    | cons k keys ih =>
      obtain ⟨fields, hf, ht⟩ := Option.bind_eq_some_iff.1 ih
      simp [unquote_quoted, hf, triples, ht]
  simp [keysFromJson, keysToJson, hread]

end Plain

def Crates.plain : Crates where
  parsePrivateKey pem := if pem = "" then none else some (pem.toList.map Plain.charByte)
  parsePublicKey openssh := if openssh = "" then none else some (openssh.toList.map Plain.charByte)
  publicKeyOpensshFromPem pem := some pem
  sha256Hex pem := pem
  keysToJson := Plain.keysToJson
  keysFromJson := Plain.keysFromJson
  encryptEncString _ bytes key := .ok (Plain.encrypt bytes key)
  decryptEncString := Plain.decrypt
  argon2id pin salt := .ok (utf8 pin ++ salt)
  base64Encode bytes := String.ofList (Plain.text bytes)
  base64Decode encoded := some (encoded.toList.map Plain.charByte)
  legacyPinSalt := []

end SshWarden
