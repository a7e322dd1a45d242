import SshWarden.CacheEnvelope
import SshWarden.ServerNumbers
import SshWarden.VaultSync

/-!
# The account

The server keeps the user key under the stretched master key, and the items of the vault under the user key
or under a key of their own. `account_arrives`: a login gets the user key exactly with a master key that
stretches to the account's, and the sync behind it reads back what the vault holds, in its order; an item
that cannot be read costs no other.
-/

namespace SshWarden

/-- The crates under the key functions of `crypto.rs`. -/
structure KeyCrates where
  pbkdf2 : Bytes → Bytes → UInt32 → Bytes
  Hkdf : Type
  fromPrk : Bytes → Except String Hkdf
  expand : Hkdf → Bytes → Except String Bytes

variable (H : KeyCrates) (P : CipherCrates)

/-- `derive_password_hash` -/
def derivePasswordHash (masterKey : Bytes) (password : String) : String :=
  String.ofList (P.base64Encode (H.pbkdf2 masterKey (utf8 password) 1))

/-- `stretch_master_key` -/
def stretchMasterKey (masterKey : Bytes) : Except String SymmetricKey := do
  let hk ← (H.fromPrk masterKey).mapError ("HKDF from_prk failed: " ++ ·)
  let encKey ← (H.expand hk (utf8 "enc")).mapError ("HKDF expand enc failed: " ++ ·)
  let macKey ← (H.expand hk (utf8 "mac")).mapError ("HKDF expand mac failed: " ++ ·)
  return ⟨encKey, macKey⟩

/-- `decrypt_user_key` -/
def decryptUserKey (encryptedKey : String) (masterKey : Bytes) : Except String SymmetricKey := do
  let stretched ← stretchMasterKey H masterKey
  let decrypted ← context (decryptEncString P encryptedKey.toList stretched) "Failed to decrypt user symmetric key"
  if decrypted.length ≠ 64 then
    .error ("Decrypted user key has unexpected length: " ++ toString decrypted.length ++ " (expected 64)")
  else
    return ⟨decrypted.take 32, decrypted.drop 32⟩

/-- A login with these key functions. -/
def LoginCrates.withKeys (K : LoginCrates) : LoginCrates :=
  { K with
    passwordHash := derivePasswordHash H P
    decryptUserKey := SshWarden.decryptUserKey H P }

/-- `encrypt_enc_string` has written it. -/
def SealedUnder (enc : String) (key : SymmetricKey) (plaintext : Bytes) : Prop :=
  ∃ iv, encryptEncString P iv plaintext key = .ok enc.toList

/-- Nothing the key decrypts: no EncString at all, or one under another key. -/
def Illegible (enc : String) (key : SymmetricKey) : Prop :=
  (∀ plaintext, ¬Seals P enc.toList key plaintext ∧ ¬Bares P enc.toList key plaintext) ∨
    ∃ other plaintext, other ≠ key ∧ SealedUnder P enc other plaintext

/-- An item has the user key, or a key of its own under the user key. -/
def ItemKey (userKey : SymmetricKey) : Option String → SymmetricKey → Prop
  | none, key => key = userKey
  | some enc, key => key.Sized ∧ SealedUnder P enc userKey (key.encKey ++ key.macKey)

/-- An SSH key as its owner stored it. -/
structure SshItem where
  id : String
  name : Option String
  privateKey : String
  publicKey : String

def SshItem.decrypted (item : SshItem) : DecryptedSshKey where
  privateKeyPem := item.privateKey
  publicKeyOpenssh := item.publicKey
  name := item.name.getD "unnamed"
  cipherId := item.id

namespace Cipher

structure Holds (userKey : SymmetricKey) (cipher : Cipher) (item : SshItem) : Prop where
  active : cipher.isActiveSshKey = true
  id : cipher.id = item.id
  body : ∃ key data, ItemKey P userKey cipher.key key ∧ cipher.sshKey = some data ∧
    SealedUnder P data.privateKey key (utf8 item.privateKey) ∧
    SealedUnder P data.publicKey key (utf8 item.publicKey) ∧
    Option.Rel (fun enc name => SealedUnder P enc key (utf8 name)) cipher.name item.name

/-- Its key or one of its texts cannot be read, or it has no texts. -/
inductive Unreadable (userKey : SymmetricKey) (cipher : Cipher) : Prop
  | key {enc : String} (henc : cipher.key = some enc) (h : Illegible P enc userKey)
  | noData (h : cipher.sshKey = none)
  | privateKey {key : SymmetricKey} {data : SshKeyData} (hkey : ItemKey P userKey cipher.key key)
    (hdata : cipher.sshKey = some data) (h : Illegible P data.privateKey key)
  | publicKey {key : SymmetricKey} {data : SshKeyData} (hkey : ItemKey P userKey cipher.key key)
    (hdata : cipher.sshKey = some data) (h : Illegible P data.publicKey key)

/-- What the vault's owner says of a cipher: the SSH key it holds, or that there is none to read. -/
def Stores (userKey : SymmetricKey) (cipher : Cipher) : Option SshItem → Prop
  | some item => cipher.Holds P userKey item
  | none => cipher.isActiveSshKey = false ∨ cipher.Unreadable P userKey

end Cipher

/-- What the server keeps of an account, with what its owner means by it. -/
structure VaultAccount where
  stretched : SymmetricKey
  userKey : SymmetricKey
  sized : userKey.Sized
  encryptedKey : String
  sealed : SealedUnder P encryptedKey stretched (userKey.encKey ++ userKey.macKey)
  vault : List (Cipher × Option SshItem)
  stored : ∀ entry ∈ vault, entry.1.Stores P userKey entry.2

section

variable {H P} {E : Crates} {K : LoginCrates} {checked : Bool} {platform : Platform} {key userKey : SymmetricKey}
  {enc content : String} {plaintext masterKey : Bytes} {cipher : Cipher}

theorem SealedUnder.decrypt (hP : CipherLaws P) (h : SealedUnder P enc key plaintext) :
    decryptEncString P enc.toList key = .ok plaintext := by
  obtain ⟨iv, henc⟩ := h
  exact decrypt_of_encrypt hP henc

theorem SealedUnder.text (hP : CipherLaws P) (h : SealedUnder P enc key (utf8 content)) :
    decryptEncStringToString (E.withCipher P) enc key = .ok content := by
  have hdec : (E.withCipher P).decryptEncString enc key = .ok (utf8 content) := h.decrypt hP
  rw [decryptEncStringToString, hdec, except_ok_bind, fromUtf8_utf8]
  rfl

theorem Illegible.not_ok (hother : OtherKeysFail P) (h : Illegible P enc key) :
    decryptEncString P enc.toList key ≠ .ok plaintext := by
  intro hdec
  rcases h with hnone | ⟨other, _, hne, iv, henc⟩
  · rcases decryptEncString_ok.1 hdec with hseals | hbares
    · exact (hnone plaintext).1 hseals
    · exact (hnone plaintext).2 hbares
  · exact hne (hother henc hdec).symm

theorem Illegible.no_text (hother : OtherKeysFail P) (h : Illegible P enc key) :
    decryptEncStringToString (E.withCipher P) enc key ≠ .ok content := by
  intro htext
  obtain ⟨bytes, hbytes, -⟩ := except_bind_ok htext
  exact h.not_ok hother hbytes

theorem context_eq_ok {α : Type} {x : Except String α} {a : α} {what : String} :
    context x what = .ok a ↔ x = .ok a := by
  cases x <;> simp [context, Except.mapError]

theorem ItemKey.effectiveKey (hP : CipherLaws P) (h : ItemKey P userKey cipher.key key) :
    cipher.effectiveKey (E.withCipher P) userKey = .ok key := by
  unfold Cipher.effectiveKey
  cases hcipher : cipher.key with
  | none =>
    rw [hcipher] at h
    obtain rfl := h
    rfl
  | some enc =>
    rw [hcipher] at h
    obtain ⟨hsized, hsealed⟩ := h
    have hdec : (E.withCipher P).decryptEncString enc userKey = .ok (key.encKey ++ key.macKey) :=
      hsealed.decrypt hP
    have hlen : ¬(key.encKey ++ key.macKey).length ≠ 64 := not_not.2 hsized.length
    simp only [context_eq_ok.2 hdec, except_ok_bind, if_neg hlen, hsized.take, hsized.drop]
    rfl

namespace Cipher

/-- What is stored reads back. -/
theorem Holds.decrypt (hP : CipherLaws P) {item : SshItem} (h : cipher.Holds P userKey item) :
    cipher.decrypt (E.withCipher P) userKey = .ok item.decrypted := by
  obtain ⟨key, data, hkey, hdata, hprivate, hpublic, hname⟩ := h.body
  have hdisplay : cipher.displayName (E.withCipher P) key = item.name.getD "unnamed" := by
    unfold displayName
    generalize cipher.name = encName at hname ⊢
    generalize item.name = name at hname ⊢
    cases hname with
    | none => rfl
    | some hsealed => simp only [hsealed.text (E := E) hP, Except.toOption, Option.getD_some]
  simp only [Cipher.decrypt, hkey.effectiveKey hP, hdata, context_eq_ok.2 (hprivate.text hP),
    context_eq_ok.2 (hpublic.text hP), except_ok_bind, hdisplay, h.id]
  rfl

theorem Unreadable.not_ok (hP : CipherLaws P) (hother : OtherKeysFail P) (h : cipher.Unreadable P userKey)
    {k : DecryptedSshKey} : cipher.decrypt (E.withCipher P) userKey ≠ .ok k := by
  intro hdec
  obtain ⟨key, hkey, hdec⟩ := except_bind_ok hdec
  cases hdata : cipher.sshKey with
  | none =>
    rw [hdata] at hdec
    cases hdec
  | some data =>
    rw [hdata] at hdec
    obtain ⟨privateKey, hprivate, hdec⟩ := except_bind_ok hdec
    obtain ⟨publicKey, hpublic, -⟩ := except_bind_ok hdec
    have hown : ∀ {key'}, ItemKey P userKey cipher.key key' → key' = key := fun hitem =>
      Except.ok.inj ((hitem.effectiveKey hP).symm.trans hkey)
    cases h with
    | key henc h =>
      unfold effectiveKey at hkey
      rw [henc] at hkey
      obtain ⟨bytes, hbytes, -⟩ := except_bind_ok hkey
      exact h.not_ok hother (context_eq_ok.1 hbytes)
    | noData h => cases hdata.symm.trans h
    | privateKey hitem hdata' h =>
      obtain rfl := hown hitem
      obtain rfl := Option.some.inj (hdata.symm.trans hdata')
      exact h.no_text hother (context_eq_ok.1 hprivate)
    | publicKey hitem hdata' h =>
      obtain rfl := hown hitem
      obtain rfl := Option.some.inj (hdata.symm.trans hdata')
      exact h.no_text hother (context_eq_ok.1 hpublic)

theorem Stores.arrives (hP : CipherLaws P) (hother : OtherKeysFail P) {item : Option SshItem}
    (h : cipher.Stores P userKey item) :
    (if cipher.isActiveSshKey = true then (cipher.decrypt (E.withCipher P) userKey).toOption else none) =
      item.map SshItem.decrypted := by
  cases item with
  | some item =>
    rw [if_pos h.active, h.decrypt hP]
    rfl
  | none =>
    rcases h with hinactive | hunreadable
    · rw [if_neg (by rw [hinactive]; exact Bool.false_ne_true)]
      rfl
    · split
      · cases hdec : cipher.decrypt (E.withCipher P) userKey with
        | error e => rfl
        | ok k => exact absurd hdec (hunreadable.not_ok hP hother)
      · rfl

end Cipher

/-! ### Login and sync -/

variable {client client' : BitwardenClient} {email password : String} {p : PreloginResponse} {t : TokenResponse}
  {connect : String → Except String TokenResponse} {now : Nat}

namespace VaultAccount

theorem sshKeys_eq (hP : CipherLaws P) (hother : OtherKeysFail P) (account : VaultAccount P) :
    SyncResponse.sshKeys (E.withCipher P) account.userKey ⟨account.vault.map Prod.fst⟩ =
      account.vault.filterMap fun entry => entry.2.map SshItem.decrypted := by
  rw [SyncResponse.sshKeys, List.filterMap_filter, List.filterMap_map]
  exact List.filterMap_congr fun entry hentry => (account.stored entry hentry).arrives hP hother

/-- Only the account's stretched master key opens the user key. -/
theorem decryptUserKey_eq_ok (hP : CipherLaws P) (hother : OtherKeysFail P) (account : VaultAccount P) :
    decryptUserKey H P account.encryptedKey masterKey = .ok key ↔
      stretchMasterKey H masterKey = .ok account.stretched ∧ key = account.userKey := by
  have hlen : ¬(account.userKey.encKey ++ account.userKey.macKey).length ≠ 64 := not_not.2 account.sized.length
  constructor
  · intro h
    obtain ⟨stretched, hstretch, h⟩ := except_bind_ok h
    obtain ⟨bytes, hbytes, h⟩ := except_bind_ok h
    have hdec := context_eq_ok.1 hbytes
    obtain ⟨iv, henc⟩ := account.sealed
    obtain rfl := hother henc hdec
    obtain rfl := Except.ok.inj (hdec.symm.trans (account.sealed.decrypt hP))
    rw [if_neg hlen, account.sized.take, account.sized.drop] at h
    exact ⟨hstretch, (Except.ok.inj h).symm⟩
  · rintro ⟨hstretch, rfl⟩
    simp only [decryptUserKey, hstretch, except_ok_bind, context_eq_ok.2 (account.sealed.decrypt hP), if_neg hlen,
      account.sized.take, account.sized.drop]
    rfl

theorem loginPassword_iff (hP : CipherLaws P) (hother : OtherKeysFail P) (account : VaultAccount P)
    (hmaster : deriveMasterKey (K.withKeys H P) checked password email p = .ok masterKey)
    (hconnect : connect (derivePasswordHash H P masterKey password) = .ok t)
    (hkey : t.key = some account.encryptedKey) (htime : now / 1000 + t.expiresIn.toNat ≤ platform.maxSeconds) :
    loginPassword (K.withKeys H P) checked platform client email password (.ok p) connect now = (client', .ok ()) ↔
      stretchMasterKey H masterKey = .ok account.stretched ∧
        client' = client.loggedIn
          ⟨t.accessToken, t.refreshToken, now + t.expiresIn.toNat * 1000⟩ account.userKey := by
  have hanswer : connect ((K.withKeys H P).passwordHash masterKey password) = .ok t := hconnect
  have hadd : instantAdd platform now t.expiresIn = .ok (now + t.expiresIn.toNat * 1000) := if_pos htime
  simp only [loginPassword, hmaster, hanswer, hadd, hkey]
  cases hdec : (K.withKeys H P).decryptUserKey account.encryptedKey masterKey with
  | error e =>
    refine iff_of_false (fun h => by cases (Prod.mk.inj h).2) ?_
    rintro ⟨hstretch, -⟩
    cases hdec.symm.trans ((account.decryptUserKey_eq_ok hP hother).2 ⟨hstretch, rfl⟩)
  | ok userKey =>
    obtain ⟨hstretch, rfl⟩ := (account.decryptUserKey_eq_ok hP hother).1 hdec
    constructor
    · intro h
      exact ⟨hstretch, (Prod.mk.inj h).1.symm⟩
    · rintro ⟨-, rfl⟩
      rfl

end VaultAccount

/-- A login succeeds exactly with a master key that stretches to the account's, and the user key it gets
reads back what the vault holds. -/
theorem account_arrives (hP : CipherLaws P) (hother : OtherKeysFail P) (account : VaultAccount P)
    (client : BitwardenClient) (platform : Platform) (connect : String → Except String TokenResponse) (now : Nat)
    (hmaster : deriveMasterKey (K.withKeys H P) checked password email p = .ok masterKey)
    (hconnect : connect (derivePasswordHash H P masterKey password) = .ok t)
    (hkey : t.key = some account.encryptedKey) (htime : now / 1000 + t.expiresIn.toNat ≤ platform.maxSeconds) :
    ((∃ client', loginPassword (K.withKeys H P) checked platform client email password (.ok p) connect now =
        (client', .ok ())) ↔ stretchMasterKey H masterKey = .ok account.stretched) ∧
      ∀ client', loginPassword (K.withKeys H P) checked platform client email password (.ok p) connect now =
          (client', .ok ()) →
        ∃ userKey, client'.userKey = some userKey ∧
          SyncResponse.sshKeys (E.withCipher P) userKey ⟨account.vault.map Prod.fst⟩ =
            account.vault.filterMap fun entry => entry.2.map SshItem.decrypted := by
  have hlogin : ∀ client',
    loginPassword (K.withKeys H P) checked platform client email password (.ok p) connect now
      = (client', .ok ()) ↔ _ := fun _ => account.loginPassword_iff hP hother hmaster hconnect hkey htime
  refine ⟨⟨?_, fun hstretch => ⟨_, (hlogin _).2 ⟨hstretch, rfl⟩⟩⟩, fun client' h => ?_⟩
  · rintro ⟨client', h⟩
    exact ((hlogin _).1 h).1
  · obtain ⟨-, rfl⟩ := (hlogin _).1 h
    exact ⟨account.userKey, rfl, account.sshKeys_eq hP hother⟩

end

/-- Key crates without cryptographic strength: every output shows its input. -/
def KeyCrates.plain : KeyCrates where
  pbkdf2 key password _ := key ++ password
  Hkdf := Bytes
  fromPrk prk := if prk.length < 32 then .error "invalid pseudorandom key length, too short" else .ok prk
  expand prk info := .ok ((info ++ prk).take 32)

def LoginCrates.plain : LoginCrates where
  lowercase := id
  pbkdf2 password salt _ := (utf8 password ++ utf8 salt ++ List.replicate 32 0).take 32
  sha256 := utf8
  Argon2 := Unit
  argon2Params _ _ _ := .ok ()
  argon2id _ password salt := .ok ((utf8 password ++ salt ++ List.replicate 32 0).take 32)
  passwordHash := derivePasswordHash .plain .plain
  decryptUserKey := SshWarden.decryptUserKey .plain .plain

namespace PlainAccount

def write (data : Bytes) (key : SymmetricKey) : String :=
  match encryptEncString .plain (List.replicate 16 0) data key with
  | .ok s => String.ofList s
  | .error _ => ""

theorem sealedUnder_write {data : Bytes} {key : SymmetricKey} (h : key.encKey.length = 32) :
    SealedUnder .plain (write data key) key data := by
  have hnew : newFromSlices key (List.replicate 16 0) = true := newFromSlices_eq_true.2 ⟨h, List.length_replicate⟩
  refine ⟨List.replicate 16 0, ?_⟩
  simp only [write, encryptEncString, if_pos hnew, String.toList_ofList]

def masterKey : Bytes := (utf8 "hunter2" ++ utf8 "me@example.org" ++ List.replicate 32 0).take 32

def stretched : SymmetricKey := ⟨(utf8 "enc" ++ masterKey).take 32, (utf8 "mac" ++ masterKey).take 32⟩

def userKey : SymmetricKey := ⟨List.replicate 32 1, List.replicate 32 2⟩

def itemKey : SymmetricKey := ⟨List.replicate 32 3, List.replicate 32 4⟩

def organizationKey : SymmetricKey := ⟨List.replicate 32 5, List.replicate 32 6⟩

theorem userKey_sized : userKey.Sized := ⟨List.length_replicate, List.length_replicate⟩

theorem itemKey_sized : itemKey.Sized := ⟨List.length_replicate, List.length_replicate⟩

def texts (key : SymmetricKey) : SshKeyData := ⟨write (utf8 "pem") key, write (utf8 "ssh-ed25519 AAAA") key⟩

theorem sealed_texts {key : SymmetricKey} (h : key.encKey.length = 32) :
    SealedUnder .plain (texts key).privateKey key (utf8 "pem") ∧
      SealedUnder .plain (texts key).publicKey key (utf8 "ssh-ed25519 AAAA") := by
  simp only [texts]
  exact ⟨sealedUnder_write h, sealedUnder_write h⟩

def laptop : Cipher :=
  ⟨"a1", .sshKey, some (write (utf8 "laptop") itemKey), none, none, some (texts itemKey),
    some (write (itemKey.encKey ++ itemKey.macKey) userKey)⟩

def archived : Cipher := { laptop with id := "b2", archivedDate := some "2026-01-01" }

/-- Its key is under an organization's key. -/
def shared : Cipher :=
  { laptop with id := "c3", key := some (write (itemKey.encKey ++ itemKey.macKey) organizationKey) }

def nameless : Cipher := ⟨"d4", .sshKey, none, none, none, some (texts userKey), none⟩

theorem holds_laptop : laptop.Holds .plain userKey ⟨"a1", some "laptop", "pem", "ssh-ed25519 AAAA"⟩ where
  active := rfl
  id := rfl
  body := ⟨itemKey, texts itemKey, ⟨itemKey_sized, sealedUnder_write userKey_sized.enc⟩, rfl,
    (sealed_texts itemKey_sized.enc).1, (sealed_texts itemKey_sized.enc).2,
    .some (sealedUnder_write itemKey_sized.enc)⟩

theorem holds_nameless : nameless.Holds .plain userKey ⟨"d4", none, "pem", "ssh-ed25519 AAAA"⟩ where
  active := rfl
  id := rfl
  body := ⟨userKey, texts userKey, rfl, rfl, (sealed_texts userKey_sized.enc).1,
    (sealed_texts userKey_sized.enc).2, .none⟩

theorem unreadable_shared : shared.Unreadable .plain userKey :=
  .key rfl (.inr ⟨organizationKey, _, by decide, sealedUnder_write List.length_replicate⟩)

def account : VaultAccount .plain where
  stretched := stretched
  userKey := userKey
  sized := userKey_sized
  encryptedKey := write (userKey.encKey ++ userKey.macKey) stretched
  sealed := sealedUnder_write (by decide +kernel)
  vault := [(laptop, some ⟨"a1", some "laptop", "pem", "ssh-ed25519 AAAA"⟩), (archived, none), (shared, none),
    (nameless, some ⟨"d4", none, "pem", "ssh-ed25519 AAAA"⟩)]
  stored := by
    simp only [List.forall_mem_cons]
    exact ⟨holds_laptop, .inl rfl, .inr unreadable_shared, holds_nameless, fun _ h => by cases h⟩

def client : BitwardenClient := { apiUrl := "", identityUrl := "", baseUrl := "", deviceId := "" }

theorem account_arrives_plain : ∃ client' userKey,
    loginPassword (LoginCrates.plain.withKeys .plain .plain) false .unix client "me@example.org" "hunter2"
      (.ok ⟨.pbkdf2, 600000, none, none⟩) (fun _ => .ok ⟨"access", 3600, none, some account.encryptedKey⟩) 0 =
        (client', .ok ()) ∧
      client'.userKey = some userKey ∧
      SyncResponse.sshKeys (Crates.plain.withCipher .plain) userKey ⟨[laptop, archived, shared, nameless]⟩ =
        [⟨"pem", "ssh-ed25519 AAAA", "laptop", "a1"⟩, ⟨"pem", "ssh-ed25519 AAAA", "unnamed", "d4"⟩] := by
  have hmaster : deriveMasterKey (LoginCrates.plain.withKeys .plain .plain) false "hunter2" "me@example.org"
      ⟨.pbkdf2, 600000, none, none⟩ = .ok masterKey := by decide +kernel
  have hstretch : stretchMasterKey .plain masterKey = .ok account.stretched := by decide +kernel
  have harrives := account_arrives (E := .plain) (H := .plain) cipherLaws_plain otherKeysFail_plain account client
    .unix (fun _ => .ok ⟨"access", 3600, none, some account.encryptedKey⟩) 0 hmaster rfl rfl (by decide)
  obtain ⟨client', hlogin⟩ := harrives.1.2 hstretch
  obtain ⟨userKey, hkey, hkeys⟩ := harrives.2 client' hlogin
  exact ⟨client', userKey, hlogin, hkey, hkeys⟩

end PlainAccount

end SshWarden
