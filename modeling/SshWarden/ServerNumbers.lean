import Mathlib.Data.UInt
import SshWarden.Data
import SshWarden.Lib.Text

/-!
# Numbers from the server

The KDF parameters of a prelogin response and the lifetime in a token response go unchecked into a
multiplication and into an addition to the current time. A release build lets the multiplication wrap; the
addition panics in every build.
-/

namespace SshWarden

/-- A call without a result: an error, or a panic, which aborts the daemon. -/
inductive Failure
  | error (text : String)
  | panics (text : String)
deriving DecidableEq, Repr

/-- `anyhow`'s `context`; a panic passes by. -/
def Failure.context (text : String) : Failure → Failure
  | .error e => .error (text ++ ": " ++ e)
  | .panics e => .panics e

def Panics {α : Type} (r : Except Failure α) : Prop := ∃ text, r = .error (.panics text)

inductive KdfType
  | pbkdf2 | argon2id
deriving DecidableEq, Repr

structure PreloginResponse where
  kdf : KdfType
  kdfIterations : UInt32
  kdfMemory : Option UInt32
  kdfParallelism : Option UInt32

structure TokenResponse where
  accessToken : String
  expiresIn : UInt64
  refreshToken : Option String
  key : Option String

/-- `u32` multiplication; only a build with overflow checks panics. -/
def mulU32 (checked : Bool) (a b : UInt32) : Except Failure UInt32 :=
  if checked = true ∧ 2 ^ 32 ≤ a.toNat * b.toNat then .error (.panics "attempt to multiply with overflow")
  else .ok (a * b)

inductive Platform
  | unix | windows
deriving DecidableEq, Repr

/-- The seconds of an `Instant`: a signed `time_t`, and an unsigned `Duration` on Windows. -/
def Platform.maxSeconds : Platform → Nat
  | .unix => 2 ^ 63 - 1
  | .windows => 2 ^ 64 - 1

/-- `Instant + Duration::from_secs`, the instants in milliseconds. -/
def instantAdd (platform : Platform) (now : Nat) (seconds : UInt64) : Except Failure Nat :=
  if now / 1000 + seconds.toNat ≤ platform.maxSeconds then .ok (now + seconds.toNat * 1000)
  else .error (.panics "overflow when adding duration to instant")

/-- The crates behind a login. -/
structure LoginCrates where
  lowercase : String → String
  pbkdf2 : String → String → UInt32 → Bytes
  sha256 : String → Bytes
  Argon2 : Type
  argon2Params : UInt32 → UInt32 → UInt32 → Except String Argon2
  argon2id : Argon2 → String → Bytes → Except String Bytes
  passwordHash : Bytes → String → String
  decryptUserKey : String → Bytes → Except String SymmetricKey

variable (K : LoginCrates) (checked : Bool) (platform : Platform)

/-- The memory parameter in KiB. -/
def kibibytes (prelogin : PreloginResponse) : Except Failure UInt32 :=
  match prelogin.kdfMemory with
  | none => .error (.error "Argon2id requires kdf_memory")
  | some memory => mulU32 checked memory 1024

/-- `derive_master_key`. -/
def deriveMasterKey (password email : String) (prelogin : PreloginResponse) : Except Failure Bytes :=
  let salt := K.lowercase (String.ofList (Text.trim email.toList))
  match prelogin.kdf with
  | .pbkdf2 => .ok (K.pbkdf2 password salt prelogin.kdfIterations)
  | .argon2id => match kibibytes checked prelogin with
    | .error e => .error e
    | .ok memory => match prelogin.kdfParallelism with
      | none => .error (.error "Argon2id requires kdf_parallelism")
      | some parallelism => match K.argon2Params memory prelogin.kdfIterations parallelism with
        | .error e => .error (.error s!"Invalid Argon2 params: {e}")
        | .ok params => match K.argon2id params password (K.sha256 salt) with
          | .error e => .error (.error s!"Argon2 hashing failed: {e}")
          | .ok key => .ok key

/-- `login_password`, by what the server answers to the prelogin and to the token request with a password
hash. The client is changed as far as the call comes. -/
def loginPassword (client : BitwardenClient) (email password : String) (prelogin : Except String PreloginResponse)
    (connect : String → Except String TokenResponse) (now : Nat) : BitwardenClient × Except Failure Unit :=
  match prelogin with
  | .error e => (client, .error (.error e))
  | .ok prelogin => match deriveMasterKey K checked password email prelogin with
    | .error e => (client, .error (e.context "Failed to derive master key"))
    | .ok masterKey => match connect (K.passwordHash masterKey password) with
      | .error e => (client, .error (.error e))
      | .ok t =>
        let client := { client with accessToken := some t.accessToken, refreshToken := t.refreshToken }
        match instantAdd platform now t.expiresIn with
        | .error e => (client, .error e)
        | .ok expiry =>
          let client := { client with tokenExpiry := some expiry }
          match t.key with
          | none => (client, .error (.error "Token response missing encrypted user key"))
          | some key => match K.decryptUserKey key masterKey with
            | .error e =>
              (client, .error (.error ("Failed to decrypt user key from token response: " ++ e)))
            | .ok userKey => ({ client with userKey := some userKey }, .ok ())

/-- `refresh_access_token`. -/
def refreshAccessToken (client : BitwardenClient) (connect : String → Except String TokenResponse) (now : Nat) :
    BitwardenClient × Except Failure Unit :=
  match client.refreshToken with
  | none => (client, .error (.error "No refresh token available"))
  | some refreshToken => match connect refreshToken with
    | .error e => (client, .error (.error e))
    | .ok t =>
      let client :=
        { client with accessToken := some t.accessToken, refreshToken := t.refreshToken.or client.refreshToken }
      match instantAdd platform now t.expiresIn with
      | .error e => (client, .error e)
      | .ok expiry => ({ client with tokenExpiry := some expiry }, .ok ())

variable {K checked platform} {client : BitwardenClient} {email password : String} {now : Nat}

theorem panics_instantAdd {seconds : UInt64} :
    Panics (instantAdd platform now seconds) ↔ platform.maxSeconds < now / 1000 + seconds.toNat := by
  unfold instantAdd Panics
  split
  · next hle => simp [hle]
  · next hlt => simpa using Nat.lt_of_not_le hlt

theorem panics_mulU32 {a b : UInt32} :
    Panics (mulU32 checked a b) ↔ checked = true ∧ 2 ^ 32 ≤ a.toNat * b.toNat := by
  unfold mulU32 Panics
  split
  · next hover => exact iff_of_true ⟨_, rfl⟩ hover
  · next hfit => exact iff_of_false nofun hfit

theorem toNat_of_mulU32 {a b r : UInt32} (h : mulU32 checked a b = .ok r) : r = a * b := by
  unfold mulU32 at h
  split at h
  · cases h
  · exact (Except.ok.inj h).symm

/-- The memory parameter in KiB is a `u32`. -/
def PreloginResponse.MemoryFits (p : PreloginResponse) : Prop :=
  p.kdf = .argon2id → ∀ memory, p.kdfMemory = some memory → memory.toNat < 2 ^ 22

theorem not_panics_deriveMasterKey {p : PreloginResponse} (h : p.MemoryFits) :
    ¬Panics (deriveMasterKey K checked password email p) := by
  rintro ⟨text, hpanics⟩
  unfold deriveMasterKey at hpanics
  dsimp only at hpanics
  split at hpanics
  · cases hpanics
  · next hkdf =>
    split at hpanics
    · next e he =>
      obtain rfl := Except.error.inj hpanics
      unfold kibibytes at he
      split at he
      · cases he
      · next memory hmemory =>
        have hover := (panics_mulU32.1 ⟨text, he⟩).2
        have hfits := h hkdf memory hmemory
        rw [show (1024 : UInt32).toNat = 1024 from rfl] at hover
        omega
    · split at hpanics
      · cases hpanics
      · split at hpanics
        · cases hpanics
        · split at hpanics <;> cases hpanics

theorem not_panics_loginPassword {p : PreloginResponse} {t : TokenResponse} (hp : p.MemoryFits)
    (ht : now / 1000 + t.expiresIn.toNat ≤ platform.maxSeconds) :
    ¬Panics (loginPassword K checked platform client email password (.ok p) (fun _ => .ok t) now).2 := by
  rintro ⟨text, hpanics⟩
  unfold loginPassword at hpanics
  dsimp only at hpanics
  split at hpanics
  · next e he =>
    cases e with
    | error e => cases hpanics
    | panics e => exact not_panics_deriveMasterKey hp ⟨e, he⟩
  · split at hpanics
    · next e he =>
      obtain rfl := Except.error.inj hpanics
      exact absurd (panics_instantAdd.1 ⟨text, he⟩) (Nat.not_lt_of_le ht)
    · split at hpanics
      · cases hpanics
      · split at hpanics <;> cases hpanics

theorem not_panics_refreshAccessToken {t : TokenResponse}
    (ht : now / 1000 + t.expiresIn.toNat ≤ platform.maxSeconds) :
    ¬Panics (refreshAccessToken platform client (fun _ => .ok t) now).2 := by
  rintro ⟨text, hpanics⟩
  unfold refreshAccessToken at hpanics
  split at hpanics
  · cases hpanics
  · dsimp only at hpanics
    split at hpanics
    · next e he =>
      obtain rfl := Except.error.inj hpanics
      exact absurd (panics_instantAdd.1 ⟨text, he⟩) (Nat.not_lt_of_le ht)
    · cases hpanics

/-- The numbers of the two responses make no call panic, and the memory that a key is derived with is the
response's own, in every build. -/
structure InRange (platform : Platform) (now : Nat) (p : PreloginResponse) (t : TokenResponse) : Prop where
  login : ∀ K checked client email password,
    ¬Panics (loginPassword K checked platform client email password (.ok p) (fun _ => .ok t) now).2
  refresh : ∀ client, ¬Panics (refreshAccessToken platform client (fun _ => .ok t) now).2
  memory : p.kdf = .argon2id → ∀ checked memory kib, p.kdfMemory = some memory → kibibytes checked p = .ok kib →
    kib.toNat = memory.toNat * 1024

/-- The responses whose numbers stay in range. -/
theorem inRange_iff (platform : Platform) (now : Nat) (p : PreloginResponse) (t : TokenResponse) :
    InRange platform now p t ↔ p.MemoryFits ∧ now / 1000 + t.expiresIn.toNat ≤ platform.maxSeconds := by
  constructor
  · intro h
    refine ⟨fun hkdf memory hmemory => ?_, ?_⟩
    · -- without overflow checks the product wraps
      have hkib : kibibytes false p = .ok (memory * 1024) := by
        rw [kibibytes, hmemory]
        exact if_neg fun hover => nomatch hover.1
      have hexact := h.memory hkdf false memory _ hmemory hkib
      have hlt := (memory * 1024).toNat_lt
      omega
    · let client : BitwardenClient :=
        { apiUrl := "", identityUrl := "", baseUrl := "", deviceId := "", refreshToken := some "" }
      refine Nat.le_of_not_lt fun hlt => h.refresh client ?_
      obtain ⟨text, htext⟩ := panics_instantAdd.2 hlt
      exact ⟨text, by simp [refreshAccessToken, client, htext]⟩
  · rintro ⟨hp, ht⟩
    refine ⟨fun _ _ _ _ _ => not_panics_loginPassword hp ht, fun _ => not_panics_refreshAccessToken ht, ?_⟩
    intro hkdf checked memory kib hmemory hkib
    rw [kibibytes, hmemory] at hkib
    have hfits := hp hkdf memory hmemory
    have hproduct : memory.toNat * 1024 < 2 ^ 32 := by omega
    rw [toNat_of_mulU32 hkib, UInt32.toNat_mul]
    exact Nat.mod_eq_of_lt hproduct

/-- 4 TiB and 64 MiB of memory are taken for 64 MiB. -/
def wideMemory : PreloginResponse := ⟨.argon2id, 3, some (2 ^ 22 + 64), some 4⟩

theorem wide_memory_wraps : ¬∀ (platform : Platform) (now : Nat) (p : PreloginResponse) (t : TokenResponse),
    InRange platform now p t := by
  intro hall
  have hrange := hall .unix 0 wideMemory ⟨"access", 3600, none, none⟩
  exact absurd (hrange.memory rfl false (2 ^ 22 + 64) _ rfl rfl) (by decide)

end SshWarden
