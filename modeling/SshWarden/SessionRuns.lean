import SshWarden.ApiSession
import SshWarden.Scenario

/-!
# The stored session over the life of a device

The token refresh has no PIN, so a new refresh token it is given does not come into the session file; and a
restore deletes the file after every failed refresh. `session_stays_usable`: where no step runs into one of
these, the stored token is the newest one and the file is only deleted by `forget` or after the server has
rejected the token.
-/

namespace SshWarden
open Prog

variable {E : Crates} {cfg : Config} {α β : Type}

/-- Encryption succeeds, and a ciphertext opens to nothing but what it was made from. -/
structure SealLaws (E : Crates) : Prop where
  encrypts : ∀ iv data key, ∃ enc, E.encryptEncString iv data key = .ok enc
  decrypt : ∀ {iv data key enc}, E.encryptEncString iv data key = .ok enc → E.decryptEncString enc key = .ok data
  authentic : ∀ {iv data key enc key' data'}, E.encryptEncString iv data key = .ok enc →
    E.decryptEncString enc key' = .ok data' → data' = data
  derives : ∀ pin, ∃ material, E.argon2id pin E.legacyPinSalt = .ok material

theorem exists_pinEncrypt (hE : SealLaws E) (iv : Bytes) (data pin : String) :
    ∃ enc, pinEncrypt E iv data pin = .ok enc := by
  obtain ⟨material, hm⟩ := hE.derives pin
  obtain ⟨enc, henc⟩ := hE.encrypts iv (utf8 data) ⟨material.take 32, material.drop 32⟩
  refine ⟨enc, ?_⟩
  rw [pinEncrypt, pinEncryptWithSalt, derivePinKeyWithSalt, hm]
  exact henc

theorem exists_key_of_pinEncrypt {iv : Bytes} {data pin enc : String} (h : pinEncrypt E iv data pin = .ok enc) :
    ∃ key, derivePinKeyWithSalt E pin E.legacyPinSalt = .ok key ∧
      E.encryptEncString iv (utf8 data) key = .ok enc :=
  except_bind_ok h

theorem pinDecrypt_pinEncrypt (hE : SealLaws E) {iv : Bytes} {data pin enc : String}
    (h : pinEncrypt E iv data pin = .ok enc) : pinDecrypt E enc pin = .ok data := by
  obtain ⟨key, hkey, henc⟩ := exists_key_of_pinEncrypt h
  have hdec := hE.decrypt henc
  rw [pinDecrypt, pinDecryptWithSalt, hkey]
  show (E.decryptEncString enc key >>= _) = _
  rw [hdec, except_ok_bind, fromUtf8_utf8]
  rfl

theorem eq_of_pinDecrypt (hE : SealLaws E) {iv : Bytes} {data data' pin pin' enc : String}
    (h : pinEncrypt E iv data pin = .ok enc) (h' : pinDecrypt E enc pin' = .ok data') : data' = data := by
  obtain ⟨key, -, henc⟩ := exists_key_of_pinEncrypt h
  obtain ⟨key', -, h'⟩ := except_bind_ok h'
  obtain ⟨bytes, hdec, h'⟩ := except_bind_ok h'
  obtain rfl := hE.authentic henc hdec
  rw [fromUtf8_utf8] at h'
  exact (Except.ok.inj h').symm

/-! ### The life of a device -/

/-- A start-up (`none`) or a turn, with its events. -/
abbrev Entry : Type := Option Turn × List Event

/-- The newest refresh token the client has been issued. -/
def newestIssued (history : List Entry) : Option String := newestToken none (history.flatMap Prod.snd)

/-- What happens to a device without a session file: the daemon starts, takes its turns, ends in the middle of
one or between two of them, and starts again with the files there are. Every step satisfies `ok`. -/
inductive Lives (E : Crates) (ok : List Entry → Daemon → Entry → Prop) : Option Config → Daemon → List Entry → Prop
  | install {s : Daemon} (hs : s.Fresh) (hfile : s.disk.session = none) : Lives E ok none s []
  | start {r : Option Config} {s s' : Daemon} {history : List Entry} {cfg₀ : Config} {tr : List Event}
      {p : DProg (Option Config)} (hx : Lives E ok r s history)
      (h : Steps (machine E) (startUp E cfg₀) { disk := s.disk, clock := s.clock } tr p s')
      (hok : ok history s (none, tr)) : Lives E ok (p.result?.bind id) s' (history ++ [(none, tr)])
  | turn {cfg : Config} {s s' : Daemon} {history : List Entry} {t : Turn} {tr : List Event}
      (hx : Lives E ok (some cfg) s history) (h : Step (machine E) E cfg s t tr s')
      (hok : ok history s (some t, tr)) : Lives E ok (some cfg) s' (history ++ [(some t, tr)])
  | killed {cfg : Config} {s s₁ s' : Daemon} {history : List Entry} {ev : MainEvent} {tr : List Event}
      {p : DProg Unit} (hx : Lives E ok (some cfg) s history) (hr : Receives s ev s₁)
      (h : Steps (machine E) (mainStep E cfg ev) s₁ tr p s') (hok : ok history s (some (.event ev), tr)) :
      Lives E ok none s' (history ++ [(some (.event ev), tr)])

/-- The ciphertext was made with this PIN. -/
def MadeWith (E : Crates) (enc pin : String) : Prop := ∃ iv token, pinEncrypt E iv token pin = .ok enc

/-- The stored token, made with a PIN, opens with this PIN to the newest token. -/
def Usable (E : Crates) (newest : Option String) (s : Daemon) : Prop :=
  ∀ enc pin, storedToken s = some enc → MadeWith E enc pin →
    ∃ token, newest = some token ∧ pinDecrypt E enc pin = .ok token

/-- The statuses with which the identity server rejects a refresh token. -/
def rejectionStatuses : List String := ["400 Bad Request", "401 Unauthorized"]

/-- The error of a refresh to which the server has answered with one of these statuses. -/
def isRejection (e : String) : Bool :=
  rejectionStatuses.any fun status => ("Token refresh failed (" ++ status ++ "): ").toList.isPrefixOf e.toList

def Rejected (e : String) : Prop := isRejection e = true

def RejectedIn (tr : List Event) : Prop := ∃ c e, (⟨.refreshAccessToken c, .error e⟩ : Event) ∈ tr ∧ Rejected e

def Turn.forgets : Turn → Bool
  | event (.control (.forget _)) | dropped (.forget _) => true
  | _ => false

/-- The session file is deleted by `forget`, or after the server has rejected the token. -/
def DeletesFairly (entry : Entry) : Prop :=
  entry.1.any Turn.forgets = true ∨
    ∀ before a after, entry.2 = before ++ ⟨.deleteSession, a⟩ :: after → RejectedIn before

/-- The turns that restore the API session with a PIN. -/
def Turn.restores : Turn → Bool
  | event (.control .unlock) | event (.control (.unlockPin _)) | event (.runtime (.autoUnlockedPin _))
  | dropped .unlock | dropped (.unlockPin _) => true
  | _ => false

def Turn.setsPin : Turn → Bool
  | event (.control (.setPin _)) | dropped (.setPin _) => true
  | _ => false

/-- The client in memory, if it has a refresh token, has this one. -/
def ClientHolds (newest : Option String) (s : Daemon) : Prop :=
  ∀ client token, s.apiClient = some client → client.refreshToken = some token → newest = some token

theorem ClientHolds.congr {newest : Option String} {s s' : Daemon} (h : ClientHolds newest s)
    (hs : s'.apiClient = s.apiClient) : ClientHolds newest s' :=
  fun client token hc => h client token (hs ▸ hc)

/-- A step that keeps the stored session usable: a restore fails only because the server has rejected the
token; another token is issued only while none is stored, or to a restore that can save it; and a PIN is set
for the newest token. -/
structure SparesSession (history : List Entry) (s : Daemon) (entry : Entry) : Prop where
  rejected : entry.1.any Turn.restores = true →
    ∀ c e, (⟨.refreshAccessToken c, .error e⟩ : Event) ∈ entry.2 → Rejected e
  issued : ∀ e ∈ entry.2, ∀ token, granted e = some token → newestIssued history = some token ∨
    storedToken s = none ∨ entry.1.any Turn.restores = true ∧ Saved entry.2
  pin : entry.1.any Turn.setsPin = true → ClientHolds (newestIssued history) s

/-- The stored token was made from the newest one. -/
def SealsNewest (E : Crates) (newest : Option String) (s : Daemon) : Prop :=
  ∀ enc, storedToken s = some enc → ∃ token iv pin, newest = some token ∧ pinEncrypt E iv token pin = .ok enc

theorem SealsNewest.usable (hE : SealLaws E) {newest : Option String} {s : Daemon} (h : SealsNewest E newest s) :
    Usable E newest s := by
  rintro enc pin hstored ⟨iv', token', hmade⟩
  obtain ⟨token, iv, pin', hn, henc⟩ := h enc hstored
  have hopen := pinDecrypt_pinEncrypt hE hmade
  exact ⟨token, hn, eq_of_pinDecrypt hE henc hopen ▸ hopen⟩

theorem SealsNewest.of_none {newest : Option String} {s : Daemon} (h : storedToken s = none) :
    SealsNewest E newest s :=
  fun _ henc => nomatch h.symm.trans henc

/-- The daemon in the middle of a step, with the events of the step so far. -/
abbrev sessionMachine (E : Crates) (A : Event → Prop) : Machine daemonSig (Daemon × List Event) :=
  ((machine E).restrict A).log

variable {A : Event → Prop} {n stored : Option String} {x x' x'' : Daemon × List Event}

/-- The stored token is the newest one, unless another has been issued in this step and is not saved yet. -/
def AtStop (E : Crates) (n stored : Option String) (x : Daemon × List Event) : Prop :=
  newestToken n x.2 = n ∨ Saved x.2 ∨ stored = none → SealsNewest E (newestToken n x.2) x.1

/-- What holds before every operation: the file is only deleted when the server has rejected the token. -/
def Spares (E : Crates) (n stored : Option String) (o : Op) (x : Daemon × List Event) : Prop :=
  AtStop E n stored x ∧ (o = .deleteSession → RejectedIn x.2)

/-- From `x` the program spares the session at every operation, and ends as `Q` says. -/
abbrev Passes (E : Crates) (A : Event → Prop) (n stored : Option String) (p : DProg α)
    (Q : α → Daemon × List Event → Prop) (x : Daemon × List Event) : Prop :=
  wp (sessionMachine E A) (Spares E n stored) p Q x

theorem storedToken_next (E : Crates) {o : Op} (h : o.keepsSession = true) (s : Daemon) (a : o.Ans) :
    storedToken (next E o s a) = storedToken s := by
  cases o <;> first | rfl | (cases a <;> rfl) | exact absurd h Bool.false_ne_true

theorem apiClient_next (E : Crates) {o : Op} (h : o.keepsSession = true) (s : Daemon) (a : o.Ans) :
    (next E o s a).apiClient = s.apiClient := by
  cases o <;> first | rfl | (cases a <;> rfl) | exact absurd h Bool.false_ne_true

theorem granted_eq_none {o : Op} (h : o.keepsSession = true) (a : o.Ans) : granted ⟨o, a⟩ = none := by
  cases o <;> first | rfl | exact absurd h Bool.false_ne_true

theorem saved_snoc {tr : List Event} {o : Op} {a : o.Ans} (h : ∀ f, o ≠ .saveSession f) :
    Saved (tr ++ [⟨o, a⟩]) ↔ Saved tr := by
  constructor
  · rintro ⟨f, hf⟩
    rcases List.mem_append.1 hf with hf | hf
    · exact ⟨f, hf⟩
    · exact absurd (congrArg Sigma.fst (List.mem_singleton.1 hf)).symm (h f)
  · rintro ⟨f, hf⟩
    exact ⟨f, List.mem_append_left _ hf⟩

/-- The two states agree on the stored token, the newest one and the client. -/
structure SameSession (n : Option String) (x x' : Daemon × List Event) : Prop where
  stored : storedToken x'.1 = storedToken x.1
  newest : newestToken n x'.2 = newestToken n x.2
  client : x'.1.apiClient = x.1.apiClient
  saved : Saved x'.2 ↔ Saved x.2

theorem SameSession.refl (n : Option String) (x : Daemon × List Event) : SameSession n x x := ⟨rfl, rfl, rfl, .rfl⟩

theorem SameSession.trans (h : SameSession n x x') (h' : SameSession n x' x'') : SameSession n x x'' :=
  ⟨h'.stored.trans h.stored, h'.newest.trans h.newest, h'.client.trans h.client, h'.saved.trans h.saved⟩

theorem sameSession_next {o : Op} (h : o.keepsSession = true) (x : Daemon × List Event) (a : o.Ans) :
    SameSession n x ((sessionMachine E A).next o x a) where
  stored := storedToken_next E h x.1 a
  newest := by
    show newestToken n (x.2 ++ [⟨o, a⟩]) = _
    rw [newestToken_snoc, granted_eq_none h, Option.none_or]
  client := apiClient_next E h x.1 a
  saved := saved_snoc fun f hf => by
    subst hf
    exact absurd h Bool.false_ne_true

theorem SealsNewest.congr {s s' : Daemon} (h : SealsNewest E n s) (hs : storedToken s' = storedToken s) :
    SealsNewest E n s' :=
  fun enc henc => h enc (hs ▸ henc)

theorem AtStop.of_eq (h : AtStop E n stored x) (hstored : storedToken x'.1 = storedToken x.1)
    (hnewest : newestToken n x'.2 = newestToken n x.2) (hsaved : Saved x'.2 ↔ Saved x.2) :
    AtStop E n stored x' := by
  intro hstop
  rw [hnewest, hsaved] at hstop
  rw [hnewest]
  exact (h hstop).congr hstored

theorem AtStop.congr (h : AtStop E n stored x) (hs : SameSession n x x') : AtStop E n stored x' :=
  h.of_eq hs.stored hs.newest hs.saved

/-- A program that leaves the session alone passes, and keeps what only depends on the session. -/
theorem KeepsSession.passes {p : DProg α} {I : Daemon × List Event → Prop} (h : KeepsSession p)
    (hI : ∀ {x x'}, SameSession n x x' → I x → I x') (hstop : ∀ {x}, I x → AtStop E n stored x) (hx : I x) :
    Passes E A n stored p (fun _ => I) x := by
  refine h.wp_rel (R := SameSession n) (.refl n) (fun _ _ _ => .trans) (fun o x a ho _ => sameSession_next ho x a)
    (fun o x' ho hs => ⟨hstop (hI hs hx), ?_⟩) fun _ _ hs => hI hs hx
  rintro rfl
  exact absurd ho Bool.false_ne_true

/-- A program that leaves the session of `x` alone comes first. -/
theorem AtStop.follow {p : DProg α} {f : α → DProg β} {Q : β → Daemon × List Event → Prop}
    (hx : AtStop E n stored x) (hp : KeepsSession p) (h : SameSession n x x')
    (hf : ∀ a x'', SameSession n x x'' → Passes E A n stored (f a) Q x'') : Passes E A n stored (p >>= f) Q x' :=
  wp_bind .. |>.2 <| (hp.passes (I := SameSession n x) (fun hs h => h.trans hs) (fun h => hx.congr h) h).post hf

/-! ### Steps in which no PIN is used -/

/-- The stored token is the same or gone, and no token has been issued. -/
structure Lessens (n : Option String) (x x' : Daemon × List Event) : Prop where
  stored : storedToken x'.1 = storedToken x.1 ∨ storedToken x'.1 = none
  newest : newestToken n x'.2 = newestToken n x.2

theorem SameSession.lessens (h : SameSession n x x') : Lessens n x x' := ⟨.inl h.stored, h.newest⟩

theorem Lessens.trans (h : Lessens n x x') (h' : Lessens n x' x'') : Lessens n x x'' where
  stored := by
    rcases h'.stored with hs | hs
    · exact h.stored.imp hs.trans hs.trans
    · exact .inr hs
  newest := h'.newest.trans h.newest

/-- Operations that neither bring nor store a token. -/
def Op.lessensSession : Op → Bool
  | loginPassword _ _ | refreshAccessToken _ | saveSession _ => false
  | _ => true

theorem lessens_next {o : Op} (h : o.lessensSession = true) (x : Daemon × List Event) (a : o.Ans) :
    Lessens n x ((sessionMachine E A).next o x a) where
  stored := by
    show storedToken (next E o x.1 a) = storedToken x.1 ∨ storedToken (next E o x.1 a) = none
    cases o with
    | deleteSession =>
      cases a
      · exact .inl rfl
      · exact .inr rfl
    | _ => first | exact .inl rfl | (cases a <;> exact .inl rfl) | exact absurd h Bool.false_ne_true
  newest := by
    have hg : granted ⟨o, a⟩ = none := by
      cases o <;> first | rfl | exact absurd h Bool.false_ne_true
    show newestToken n (x.2 ++ [⟨o, a⟩]) = _
    rw [newestToken_snoc, hg, Option.none_or]

def Op.grants : Op → Bool
  | loginPassword _ _ | refreshAccessToken _ => true
  | _ => false

/-- An invariant that lasts as long as no token is issued or stored. -/
structure Lasting (E : Crates) (n stored : Option String) (I : Daemon × List Event → Prop) : Prop where
  stop : ∀ {x}, I x → AtStop E n stored x
  lessens : ∀ {x x'}, Lessens n x x' → I x → I x'

/-- An invariant that a step without a PIN keeps. -/
structure Pinless (E : Crates) (A : Event → Prop) (n stored : Option String) (I : Daemon × List Event → Prop) :
    Prop extends Lasting E n stored I where
  grants : ∀ {x} {o : Op} {a : o.Ans}, o.grants = true → A ⟨o, a⟩ → I x → I ((sessionMachine E A).next o x a)

theorem SealsNewest.lessens (h : SealsNewest E n x.1)
    (hs : storedToken x'.1 = storedToken x.1 ∨ storedToken x'.1 = none) :
    SealsNewest E n x'.1 := by
  rcases hs with hs | hs
  · exact h.congr hs
  · exact .of_none hs

theorem storedToken_next_grants (E : Crates) {o : Op} (h : o.grants = true) (s : Daemon) (a : o.Ans) :
    storedToken (next E o s a) = storedToken s := by
  cases o <;> first | rfl | exact absurd h Bool.false_ne_true

/-- No token but the newest one is issued. -/
theorem pinless_unissued (hA : ∀ e, A e → ∀ token, granted e = some token → n = some token) :
    Pinless E A n stored fun x => newestToken n x.2 = n ∧ SealsNewest E n x.1 where
  stop h _ := h.1.symm ▸ h.2
  lessens hs h := ⟨hs.newest.trans h.1, h.2.lessens hs.stored⟩
  grants {x o a} ho ha h := by
    refine ⟨?_, h.2.congr (storedToken_next_grants E ho x.1 a)⟩
    show newestToken n (x.2 ++ [⟨o, a⟩]) = n
    rw [newestToken_snoc, h.1]
    cases hg : granted ⟨o, a⟩ with
    | none => rfl
    | some token => exact (hA _ ha token hg).symm

/-- No token is stored. -/
theorem pinless_unstored : Pinless E A n stored fun x => storedToken x.1 = none where
  stop h _ := .of_none h
  lessens hs h := hs.stored.elim (fun he => he.trans h) id
  grants {x _ a} ho _ h := (storedToken_next_grants E ho x.1 a).trans h

variable {I : Daemon × List Event → Prop}

namespace Lasting

theorem passes (hI : Lasting E n stored I) {p : DProg α} (h : KeepsSession p) (hx : I x) :
    Passes E A n stored p (fun _ => I) x :=
  h.passes (fun hs => hI.lessens hs.lessens) hI.stop hx

theorem bind (hI : Lasting E n stored I) {p : DProg α} {f : α → DProg β} (h : KeepsSession p) (hx : I x)
    (hf : ∀ a x', I x' → Passes E A n stored (f a) (fun _ => I) x') :
    Passes E A n stored (p >>= f) (fun _ => I) x :=
  wp_bind .. |>.2 ((hI.passes h hx).post hf)

/-- An operation that issues no token and deletes no file, where the stored token is the same or gone after it. -/
theorem op_bind (hI : Lasting E n stored I) {o : Op} {f : o.Ans → DProg β} {Q : β → Daemon × List Event → Prop}
    (hx : I x) (hno : o ≠ .deleteSession)
    (hl : ∀ a, A ⟨o, a⟩ → I ((sessionMachine E A).next o x a))
    (hf : ∀ a x', I x' → Passes E A n stored (f a) Q x') : Passes E A n stored (op o >>= f) Q x :=
  wp_perform_bind.2 ⟨⟨hI.stop hx, fun h => absurd h hno⟩, fun a ha => hf a _ (hl a ha.2)⟩

theorem lessens_bind (hI : Lasting E n stored I) {o : Op} {f : o.Ans → DProg β}
    {Q : β → Daemon × List Event → Prop} (hx : I x) (ho : o.lessensSession = true) (hno : o ≠ .deleteSession)
    (hf : ∀ a x', I x' → Passes E A n stored (f a) Q x') : Passes E A n stored (op o >>= f) Q x :=
  hI.op_bind hx hno (fun a _ => hI.lessens (lessens_next ho x a) hx) hf

theorem saveDeviceSession (hI : Lasting E n stored I) (client : BitwardenClient) (hx : I x) :
    Passes E A n stored (saveDeviceSession E client none) (fun _ => I) x := by
  unfold SshWarden.saveDeviceSession
  split
  · exact hx
  · refine wp_bind .. |>.2 (wp_bind .. |>.2 ⟨⟨hI.stop hx, nofun⟩, fun r hr => ?_⟩)
    have hx₁ := hI.lessens (sameSession_next (E := E) (A := A) (o := .loadSession) rfl x r).lessens hx
    have hkept : ∀ existing : Option SessionFile, existing = x.1.disk.session ∨ existing = none →
        existing.bind SessionFile.pinEncryptedToken = storedToken x.1 ∨
          existing.bind SessionFile.pinEncryptedToken = none := by
      rintro existing (rfl | rfl)
      · exact .inl rfl
      · exact .inr rfl
    have hsave : ∀ existing : Option SessionFile, existing = x.1.disk.session ∨ existing = none →
        ∀ f : SessionFile, f.pinEncryptedToken = existing.bind SessionFile.pinEncryptedToken →
        Passes E A n stored (op (.saveSession f) >>= fun _ => pure ()) (fun _ => I)
          ((sessionMachine E A).next .loadSession x r) := by
      intro existing hex f hf
      refine hI.op_bind hx₁ nofun (fun a _ => hI.lessens ⟨?_, ?_⟩ hx₁) fun _ _ hx' => hx'
      · cases a with
        | error e => exact .inl rfl
        | ok u => exact (hkept existing hex).imp hf.trans hf.trans
      · show newestToken n (_ ++ [_]) = _
        rw [newestToken_snoc]
        rfl
    cases r with
    | error e => exact hsave none (.inr rfl) _ rfl
    | ok existing => exact hsave existing (.inl (hr.1 existing rfl)) _ rfl

theorem finishLogin (hI : Lasting E n stored I) (client : BitwardenClient) (keys : List DecryptedSshKey)
    (wasLocked : Bool) (hx : I x) :
    Passes E A n stored (finishLogin E cfg client keys wasLocked) (fun _ => I) x := by
  refine hI.bind (keepsSession_op rfl) hx fun _ x₁ h₁ => hI.bind (keepsSession_op rfl) h₁ fun _ x₂ h₂ =>
    hI.bind (reconcilingSteps_reconcileSyncedKeyState E cfg _).keepsSession h₂ fun _ x₃ h₃ =>
    hI.bind (keepsSession_op rfl) h₃ fun _ x₄ h₄ => hI.bind (keepsSession_op rfl) h₄ fun loaded x₅ h₅ => ?_
  refine (wp_ite ..).2 ⟨fun _ => ?_, fun _ => h₅⟩
  refine hI.bind (keepsSession_op rfl) h₅ fun _ x₆ h₆ => wp_bind .. |>.2 ((hI.saveDeviceSession client h₆).post ?_)
  refine fun _ x₇ h₇ => hI.bind (hubSteps_connectIfAuthenticated cfg client).keepsSession h₇ fun _ x₈ h₈ => ?_
  refine hI.lessens_bind h₈ rfl nofun fun _ x₉ h₉ => ?_
  exact hI.bind (pendingSyncSteps_resolvePendingSync E cfg).keepsSession h₉ fun _ _ h => h

end Lasting

namespace Pinless

theorem handleUnlockPassword (hI : Pinless E A n stored I) (password : String) (hx : I x) :
    Passes E A n stored (handleUnlockPassword E cfg password) (fun _ => I) x := by
  refine hI.toLasting.bind (keepsSession_op rfl) hx fun wasLocked x₁ h₁ => (wp_ite ..).2 ⟨fun _ => h₁, fun _ => ?_⟩
  refine hI.toLasting.bind (keepsSession_op rfl) h₁ fun device x₂ h₂ => ?_
  refine hI.toLasting.op_bind h₂ nofun (fun a ha => hI.grants rfl ha h₂) fun r x₃ h₃ => ?_
  cases r with
  | error e => exact h₃
  | ok r =>
    refine hI.toLasting.bind (keepsSession_syncSshKeys _) h₃ fun r x₄ h₄ => ?_
    cases r with
    | error e => exact h₄
    | ok keys => exact hI.toLasting.finishLogin _ keys wasLocked h₄

theorem handleTokenRefresh (hI : Pinless E A n stored I) (hx : I x) :
    Passes E A n stored (handleTokenRefresh E cfg) (fun _ => I) x := by
  have hrelease : ∀ x', I x' → Passes E A n stored (op (.release .apiClient)) (fun _ => I) x' :=
    fun x' hx' => hI.toLasting.passes (keepsSession_op rfl) hx'
  refine hI.toLasting.bind (keepsSession_op rfl) hx fun _ x₁ h₁ =>
    hI.toLasting.bind (keepsSession_op rfl) h₁ fun client x₂ h₂ => ?_
  cases client with
  | none => exact hrelease _ h₂
  | some client =>
    refine hI.toLasting.bind (keepsSession_op rfl) h₂ fun now x₃ h₃ =>
      (wp_ite ..).2 ⟨fun _ => wp_bind .. |>.2 ?_, fun _ => hrelease _ h₃⟩
    refine (wp_ite ..).2 ⟨fun _ => hrelease _ h₃, fun _ => ?_⟩
    refine hI.toLasting.op_bind h₃ nofun (fun a ha => hI.grants rfl ha h₃) fun r x₄ h₄ => ?_
    cases r with
    | error e => exact hrelease _ h₄
    | ok grant =>
      refine hI.toLasting.lessens_bind h₄ rfl nofun fun _ x₅ h₅ => ?_
      refine (wp_ret _).2 (wp_bind .. |>.2 ((hI.toLasting.saveDeviceSession _ h₅).post fun _ x₆ h₆ => ?_))
      exact hI.toLasting.bind (hubSteps_connectIfAuthenticated cfg _).keepsSession h₆ fun _ x₇ h₇ => hrelease _ h₇

end Pinless

theorem saved_snoc_error {tr : List Event} {f : SessionFile} {e : String} :
    Saved (tr ++ [⟨.saveSession f, .error e⟩]) ↔ Saved tr := by
  constructor
  · rintro ⟨f', hf⟩
    rcases List.mem_append.1 hf with hf | hf
    · exact ⟨f', hf⟩
    · obtain ⟨hf, ha⟩ := Sigma.mk.inj (List.mem_singleton.1 hf)
      obtain rfl := Op.saveSession.inj hf
      exact nomatch eq_of_heq ha
  · rintro ⟨f', hf⟩
    exact ⟨f', List.mem_append_left _ hf⟩

/-- A session saved with a PIN holds the newest token. -/
theorem passes_saveDeviceSession (hE : SealLaws E) {client : BitwardenClient} (pin : String)
    (hclient : ∀ token, client.refreshToken = some token → newestToken n x.2 = some token)
    (hx : AtStop E n stored x) :
    Passes E A n stored (saveDeviceSession E client (some pin)) (fun _ => AtStop E n stored) x := by
  unfold saveDeviceSession
  split
  · exact hx
  · rename_i token htoken
    have hn := hclient token htoken
    have hload : KeepsSession loadDeviceSession := by
      refine .bind (keepsSession_op rfl) fun session => ?_
      cases session <;> trivial
    refine wp_bind .. |>.2 ((hload.passes (I := fun x' => SameSession n x x') (fun hs h => h.trans hs)
      (fun h => hx.congr h) (.refl n x)).post fun existing x₁ h₁ => wp_bind .. |>.2 (wp_perform_bind.2 ?_))
    refine ⟨⟨hx.congr h₁, nofun⟩, fun iv _ => ?_⟩
    obtain ⟨enc, henc⟩ := exists_pinEncrypt hE iv token pin
    have h₂ := h₁.trans (sameSession_next (E := E) (A := A) (o := .randomIv) rfl x₁ iv)
    rw [henc]
    refine (wp_ret _).2 (wp_perform_bind.2 ⟨⟨hx.congr h₂, nofun⟩, fun a _ => ?_⟩)
    cases a with
    | error e =>
      refine hx.congr (h₂.trans ⟨rfl, ?_, rfl, saved_snoc_error⟩)
      exact newestToken_snoc ..
    | ok u =>
      intro _ enc' henc'
      obtain rfl := Option.some.inj henc'
      refine ⟨token, iv, pin, ?_, henc⟩
      exact (newestToken_snoc ..).trans (h₂.newest.trans hn)

theorem passes_saveSessionOfClient (hE : SealLaws E) (pin : String) (hx : AtStop E n stored x)
    (hclient : ClientHolds (newestToken n x.2) x.1) :
    Passes E A n stored (saveSessionOfClient E (some pin)) (fun _ => AtStop E n stored) x := by
  have h₁ := sameSession_next (E := E) (A := A) (n := n) (o := .hold .apiClient .read) rfl x ()
  refine wp_perform_bind.2 ⟨⟨hx, nofun⟩, fun _ _ => wp_perform_bind.2 ⟨⟨hx.congr h₁, nofun⟩, fun client hc => ?_⟩⟩
  have h₂ := h₁.trans (sameSession_next (E := E) (A := A) (o := .peekApiClient) rfl _ client)
  have hrelease : KeepsSession (op (.release .apiClient)) := keepsSession_op rfl
  cases client with
  | none => exact hrelease.passes (fun hs h => h.congr hs) id (hx.congr h₂)
  | some client =>
    have hholds : ∀ token, client.refreshToken = some token → newestToken n _ = some token := fun token htoken =>
      h₂.newest.trans (hclient client token (h₁.client.symm.trans hc.1.symm) htoken)
    exact wp_bind .. |>.2 ((passes_saveDeviceSession hE pin hholds (hx.congr h₂)).post fun _ x₃ h₃ =>
      hrelease.passes (fun hs h => h.congr hs) id h₃)

/-- Setting a PIN stores the newest token, where the client in memory holds it. -/
theorem passes_handleSetPin (hE : SealLaws E) (pin : String) (hx : newestToken n x.2 = n)
    (hs : SealsNewest E n x.1)
    (hclient : ClientHolds n x.1) :
    Passes E A n stored (handleSetPin E cfg pin) (fun _ => AtStop E n stored) x := by
  have hstop : AtStop E n stored x := fun _ => hx.symm ▸ hs
  refine (wp_ite ..).2 ⟨fun _ => hstop,
    fun _ => hstop.follow (keepsSession_op rfl) (.refl n x) fun keys x₁ h₁ => ?_⟩
  refine (wp_ite ..).2 ⟨fun _ => hstop.congr h₁, fun _ =>
    hstop.follow (keepsSession_writePinCache E cfg _ _) h₁ fun r x₂ h₂ => ?_⟩
  cases r with
  | error e => exact hstop.congr h₂
  | ok r =>
    refine hstop.follow (keepsSession_op rfl) h₂ fun _ x₃ h₃ =>
      hstop.follow (keepsSession_op rfl) h₃ fun _ x₄ h₄ => wp_bind .. |>.2 ?_
    refine passes_saveSessionOfClient hE pin (hstop.congr h₄) ?_
    rw [h₄.newest, hx]
    exact hclient.congr h₄.client

/-- Before the restore of a step: no token has been issued or saved in it. -/
structure Unrestored (E : Crates) (n stored : Option String) (x : Daemon × List Event) : Prop where
  newest : newestToken n x.2 = n
  unsaved : ¬Saved x.2
  seals : SealsNewest E n x.1
  stored : storedToken x.1 = stored

theorem Unrestored.stop (h : Unrestored E n stored x) : AtStop E n stored x := fun _ => h.newest.symm ▸ h.seals

theorem Unrestored.congr (h : Unrestored E n stored x) (hs : SameSession n x x') : Unrestored E n stored x' :=
  ⟨hs.newest.trans h.newest, mt hs.saved.1 h.unsaved, h.seals.congr hs.stored, hs.stored.trans h.stored⟩

theorem Unrestored.bind {p : DProg α} {f : α → DProg β} {Q : β → Daemon × List Event → Prop}
    (hx : Unrestored E n stored x) (h : KeepsSession p)
    (hf : ∀ a x', Unrestored E n stored x' → Passes E A n stored (f a) Q x') : Passes E A n stored (p >>= f) Q x :=
  wp_bind .. |>.2 <| (h.passes (fun hs h => h.congr hs) (fun h => h.stop) hx).post hf

theorem AtStop.bind {p : DProg α} {f : α → DProg β} {Q : β → Daemon × List Event → Prop}
    (hx : AtStop E n stored x) (h : KeepsSession p)
    (hf : ∀ a x', AtStop E n stored x' → Passes E A n stored (f a) Q x') : Passes E A n stored (p >>= f) Q x :=
  wp_bind .. |>.2 <| (h.passes (fun hs h => h.congr hs) id hx).post hf

theorem AtStop.of_keeps {p : DProg α} (hx : AtStop E n stored x) (h : KeepsSession p) :
    Passes E A n stored p (fun _ => AtStop E n stored) x :=
  h.passes (fun hs h => h.congr hs) id hx

/-- A rejected token is deleted with its file. -/
theorem passes_deleteRejected {client : BitwardenClient} {e : String} (he : Rejected e)
    (hx : Unrestored E n stored x) :
    Passes E A n stored (do let _ ← op .deleteSession; return ()) (fun _ => AtStop E n stored)
      ((sessionMachine E A).next (.refreshAccessToken client) x (.error e)) := by
  have hsame : SameSession n x ((sessionMachine E A).next (.refreshAccessToken client) x (.error e)) :=
    ⟨rfl, newestToken_snoc .., rfl, saved_snoc nofun⟩
  have hrejected : RejectedIn ((sessionMachine E A).next (.refreshAccessToken client) x (.error e)).2 :=
    ⟨client, e, List.mem_append_right _ (List.mem_singleton_self _), he⟩
  have h₁ := hx.congr hsame
  generalize (sessionMachine E A).next (.refreshAccessToken client) x (.error e) = x₁ at h₁ hrejected ⊢
  refine wp_perform_bind.2 ⟨⟨h₁.stop, fun _ => hrejected⟩, fun a _ _ => ?_⟩
  have hgone := lessens_next (E := E) (A := A) (n := n) (o := .deleteSession) rfl x₁ a
  rw [hgone.newest, h₁.newest]
  exact h₁.seals.lessens hgone.stored

/-- A restore stores the newest token when its session is saved. -/
theorem passes_saveRestored (hE : SealLaws E) {session : SessionFile} {token enc : String} (pin : String)
    (hn : n = some token) (grant : TokenGrant) (hx : Unrestored E n (some enc) x) :
    Passes E A n (some enc) (do
        connectIfAuthenticated cfg ((restoredClient cfg session token).refreshed grant)
        saveDeviceSession E ((restoredClient cfg session token).refreshed grant) (some pin)
        op (.writeApiClient (some ((restoredClient cfg session token).refreshed grant))))
      (fun _ => AtStop E n (some enc))
      ((sessionMachine E A).next (.refreshAccessToken (restoredClient cfg session token)) x (.ok grant)) := by
  have hnewest : newestToken n
    ((sessionMachine E A).next (.refreshAccessToken (restoredClient cfg session token)) x
      (.ok grant)).2 = grant.refreshToken.or (some token) := by
    refine (newestToken_snoc ..).trans ?_
    rw [hx.newest, hn]
    rfl
  have hsaved : ¬Saved ((sessionMachine E A).next (.refreshAccessToken (restoredClient cfg session token)) x
      (.ok grant)).2 := fun h =>
    hx.unsaved ((saved_snoc (o := .refreshAccessToken _) nofun).1 h)
  have hstop : AtStop E n (some enc) ((sessionMachine E A).next
      (.refreshAccessToken (restoredClient cfg session token)) x (.ok grant)) := by
    rintro (hsame | hdone | hnone)
    · exact hsame.symm ▸ hx.seals.congr rfl
    · exact absurd hdone hsaved
    · cases hnone
  generalize (sessionMachine E A).next (.refreshAccessToken (restoredClient cfg session token)) x (.ok grant) = x₁
    at hnewest hstop ⊢
  refine wp_bind .. |>.2 (((hubSteps_connectIfAuthenticated cfg _).keepsSession.passes (I := SameSession n x₁)
    (fun hs h => h.trans hs) (fun h => hstop.congr h) (.refl n x₁)).post fun _ x₂ h₂ => wp_bind .. |>.2 ?_)
  refine (passes_saveDeviceSession hE pin (fun t ht => ?_) (hstop.congr h₂)).post fun _ x₃ h₃ =>
    ⟨⟨h₃, nofun⟩, fun _ _ => ?_⟩
  · exact (h₂.newest.trans hnewest).trans ht
  · exact h₃.of_eq rfl (newestToken_snoc ..) (saved_snoc (o := .writeApiClient _) nofun)

/-- The token a restore gets is stored when it is saved; a restore that fails has been rejected. -/
theorem passes_tryRestoreApiSession (hE : SealLaws E)
    (hA : ∀ c e, A ⟨.refreshAccessToken c, .error e⟩ → Rejected e)
    (pin : String) (hx : Unrestored E n stored x) :
    Passes E A n stored (tryRestoreApiSession E cfg pin) (fun _ => AtStop E n stored) x := by
  refine hx.bind (keepsSession_op rfl) fun client x₁ h₁ => (wp_ite ..).2 ⟨fun _ => h₁.stop, fun _ => ?_⟩
  refine wp_bind .. |>.2 (wp_perform_bind.2 ⟨⟨h₁.stop, nofun⟩, fun r hr => ?_⟩)
  have h₂ := h₁.congr (sameSession_next (E := E) (A := A) (o := .loadSession) rfl x₁ r)
  cases r with
  | error e => exact h₂.stop
  | ok existing =>
    obtain rfl : existing = x₁.1.disk.session := hr.1 existing rfl
    refine (wp_ret _).2 ?_
    split
    · exact h₂.stop
    · rename_i session enc hsession
      obtain ⟨session', hfile, henc⟩ := Option.bind_eq_some_iff.1 hsession
      obtain ⟨enc', hpin, heq⟩ := Option.map_eq_some_iff.1 henc
      obtain ⟨rfl, rfl⟩ := Prod.mk.inj heq
      have hstored : storedToken x₁.1 = some enc' := by rw [storedToken, hfile]; exact hpin
      split
      · exact h₂.stop
      · rename_i opened hopen
        obtain ⟨token, iv, pin', hn, hmade⟩ := h₁.seals enc' hstored
        obtain rfl := eq_of_pinDecrypt hE hmade hopen
        obtain rfl : stored = some enc' := h₁.stored.symm.trans hstored
        clear hsession hr
        generalize (sessionMachine E A).next .loadSession x₁ (.ok x₁.1.disk.session) = x₂ at h₂ ⊢
        refine wp_perform_bind.2 ⟨⟨h₂.stop, nofun⟩, fun r hr => ?_⟩
        cases r with
        | error e => exact passes_deleteRejected (hA _ _ hr.2) h₂
        | ok grant => exact passes_saveRestored hE pin hn grant h₂

section Unlocks
variable (hE : SealLaws E) (hA : ∀ c e, A ⟨.refreshAccessToken c, .error e⟩ → Rejected e)
include hE hA

theorem passes_afterUnlock (pin : String) (resp : ControlResponse) (hx : Unrestored E n stored x) :
    Passes E A n stored (do
      if resp.ok then
        tryRestoreApiSession E cfg pin
        let _ ← resolvePendingSync E cfg
        return resp
      else return resp) (fun _ => AtStop E n stored) x := by
  refine (wp_ite ..).2 ⟨fun _ => wp_bind .. |>.2 ?_, fun _ => hx.stop⟩
  exact (passes_tryRestoreApiSession hE hA pin hx).post fun _ x₁ h₁ =>
    h₁.bind (pendingSyncSteps_resolvePendingSync E cfg).keepsSession fun _ _ h => h

theorem passes_handleUnlockDialog (hx : Unrestored E n stored x) :
    Passes E A n stored (handleUnlockDialog E cfg) (fun _ => AtStop E n stored) x := by
  refine (wp_ite ..).2 ⟨fun _ => hx.bind (keepsSession_op rfl) fun cache x₁ h₁ => ?_, fun _ => hx.stop⟩
  dsimp only
  split
  · exact h₁.stop
  · refine h₁.bind (pinSteps_requestPinDialog _ _).keepsSession fun r x₂ h₂ => ?_
    cases r with
    | none => exact h₂.stop
    | some opened =>
      exact h₂.bind (keepsSession_op rfl) fun _ x₃ h₃ =>
        h₃.bind (loadingSteps_finishUnlockWithJson E _ _).keepsSession
        fun resp x₄ h₄ => passes_afterUnlock hE hA _ resp h₄

theorem passes_handleUnlock (hx : Unrestored E n stored x) :
    Passes E A n stored (handleUnlock E cfg) (fun _ => AtStop E n stored) x := by
  refine hx.bind (keepsSession_op rfl) fun locked x₁ h₁ => (wp_ite ..).2 ⟨fun _ => h₁.stop, fun _ => ?_⟩
  refine h₁.bind (keepsSession_op rfl) fun _ x₂ h₂ => h₂.bind (keepsSession_op rfl) fun cache x₃ h₃ => ?_
  cases cache with
  | none => exact h₃.bind (keepsSession_op rfl) fun _ x₄ h₄ => passes_handleUnlockDialog hE hA h₄
  | some cache =>
    refine h₃.bind (keepsSession_finishNativeUnlockResponse E cfg cache _) fun resp x₄ h₄ =>
      (wp_ite ..).2 ⟨fun _ => h₄.bind
        (pendingSyncSteps_resolvePendingSync E cfg).keepsSession fun _ x₅ h₅ => ?_, fun _ => ?_⟩
    · exact h₅.bind (keepsSession_op rfl) fun _ x₆ h₆ => h₆.stop
    · exact h₄.bind (keepsSession_op rfl) fun _ x₅ h₅ => passes_handleUnlockDialog hE hA h₅

theorem passes_handleUnlockPin (pin : String) (hx : Unrestored E n stored x) :
    Passes E A n stored (handleUnlockPin E cfg pin) (fun _ => AtStop E n stored) x := by
  refine hx.bind (keepsSession_op rfl) fun locked x₁ h₁ => (wp_ite ..).2 ⟨fun _ => h₁.stop, fun _ => ?_⟩
  refine h₁.bind pinSteps_pinLockoutRemaining.keepsSession fun wait x₂ h₂ => ?_
  cases wait with
  | some wait => exact h₂.stop
  | none =>
    have hblock : Passes E A n stored (unlockPinBlock E cfg pin) (fun _ => AtStop E n stored) x₂ := by
      refine h₂.bind (keepsSession_op rfl) fun cache x₃ h₃ => ?_
      cases cache with
      | none => exact h₃.stop
      | some cache =>
        dsimp only
        split
        · exact h₃.stop
        · exact h₃.bind (pinSlotSteps_migratePinSlotIfNeeded E cache _ pin).keepsSession fun _ x₄ h₄ =>
            h₄.bind (slotSteps_enrollDevicePlatformSlotsIfMissing E cfg _).keepsSession fun _ x₅ h₅ =>
            h₅.bind (keepsSession_op rfl) fun _ x₆ h₆ =>
              h₆.bind (loadingSteps_finishUnlockWithJson E _ _).keepsSession
              fun resp x₇ h₇ => passes_afterUnlock hE hA pin resp h₇
    refine wp_bind .. |>.2 (hblock.post fun resp x₃ h₃ => ?_)
    refine h₃.bind (pinSteps_recordPinAttempt _).keepsSession fun delay x₄ h₄ =>
      (wp_ite ..).2 ⟨fun _ => ?_, fun _ => h₄⟩
    exact h₄.bind (keepsSession_op rfl) fun _ _ h => h

end Unlocks

/-- `forget` is the one command that deletes the session file on its own account. -/
theorem lessens_handleForget (cfg : Config) (shared : Bool) :
    Prog.Only (S := daemonSig) (fun o : Op => o.lessensSession = true) (handleForget cfg shared) := by
  have hop : ∀ {o : Op}, o.lessensSession = true →
      Prog.Only (S := daemonSig) (fun o : Op => o.lessensSession = true) (op o) := fun h => ⟨h, fun _ => trivial⟩
  have hkeep : ∀ {γ : Type} {p : DProg γ}, KeepsSession p →
      Prog.Only (S := daemonSig) (fun o : Op => o.lessensSession = true) p :=
    fun h => h.mono fun o ho => by cases o <;> first | rfl | exact absurd ho Bool.false_ne_true
  have hslot : KeepsSession (nativeSlotInMemory cfg) := by
    refine .bind (keepsSession_op rfl) fun cache => ?_
    cases cache with
    | none => trivial
    | some cache => exact (slotReads_currentNativeUnlockSlot cfg cache).keepsSession
  have hkeys : ∀ removeSharedCache, KeepsSession (forgetKeys removeSharedCache) := by
    refine fun removeSharedCache => .ite ?_ (.bind keepsSession_loadSharedCache fun cache => ?_)
    · exact .bind (keepsSession_op rfl) fun _ => .bind (keepsSession_op rfl) fun _ =>
        .bind (keepsSession_op rfl) fun _ => keepsSession_op rfl
    · refine .bind (keepsSession_op rfl) fun _ => .bind (keepsSession_op rfl) fun _ =>
        .bind (keepsSession_op rfl) fun _ => .bind (keepsSession_op rfl) fun _ => ?_
      cases cache with
      | none => trivial
      | some cache =>
        exact .bind (keepsSession_op rfl) fun _ => .bind (keepsSession_op rfl) fun _ => keepsSession_op rfl
  refine .bind (.bind (.ite (.bind (hop rfl) fun _ => trivial) trivial) fun _ => .bind (hkeep hslot) fun _ =>
    .bind (hop rfl) fun _ => .bind (hop rfl) fun _ => .bind (hop rfl) fun _ => trivial) fun _ => .bind ?_ fun _ =>
    .bind (hkeep (hkeys _)) fun _ => trivial
  exact .bind (hop rfl) fun _ => .bind (hop rfl) fun _ => .bind (hop rfl) fun _ => .bind (hop rfl) fun _ =>
    .bind (hop rfl) fun _ => .bind (hop rfl) fun _ => .bind (hkeep (keepsSession_notify _)) fun _ => hop rfl

/-! ### Start-up -/

theorem keepsSession_askNewPin : KeepsSession askNewPin := by
  refine .bind (keepsSession_op rfl) fun input => ?_
  cases input with
  | none => trivial
  | some input =>
    refine .ite trivial (.bind (keepsSession_op rfl) fun pin => ?_)
    cases pin with
    | none => trivial
    | some pin =>
      refine .ite trivial (.bind (keepsSession_op rfl) fun confirm => ?_)
      cases confirm with
      | none => trivial
      | some confirm => exact .ite trivial trivial

theorem keepsSession_loadInitialIdentities : KeepsSession loadInitialIdentities := by
  refine .bind (keepsSession_op rfl) fun _ => .bind (keepsSession_op rfl) fun cache => ?_
  cases cache with
  | none => exact keepsSession_op rfl
  | some cache =>
    exact .ite (keepsSession_op rfl) (.bind (keepsSession_op rfl) fun _ => .bind (keepsSession_op rfl) fun _ =>
      .bind (keepsSession_op rfl) fun _ => keepsSession_op rfl)

theorem atStop_iff : AtStop E n none x ↔ SealsNewest E (newestToken n x.2) x.1 :=
  ⟨fun h => h (.inr (.inr rfl)), fun h _ => h⟩

/-- During a start-up the stored token stays the newest one. -/
theorem lasting_atStop : Lasting E n none (AtStop E n none) where
  stop h := h
  lessens hs h := atStop_iff.2 (hs.newest.symm ▸ (atStop_iff.1 h).lessens hs.stored)

/-- The token of the client, if it has one, is the newest one. -/
def Brings (n : Option String) (client : Option BitwardenClient) (x : Daemon × List Event) : Prop :=
  ∀ c token, client = some c → c.refreshToken = some token → newestToken n x.2 = some token

theorem Brings.congr {client : Option BitwardenClient} (h : Brings n client x) (hs : SameSession n x x') :
    Brings n client x' :=
  fun c token hc ht => hs.newest.trans (h c token hc ht)

theorem passes_loginAtStart (hI : Pinless E A n none I) (hx : I x) :
    Passes E A n none (loginAtStart cfg)
      (fun login x' => AtStop E n none x' ∧ Brings n (login.map Prod.snd) x') x := by
  have hnone : ∀ {x'}, I x' → AtStop E n none x' ∧ Brings n none x' := fun h => ⟨hI.stop h, nofun⟩
  refine (wp_ite ..).2 ⟨fun _ => hnone hx, fun _ => ?_⟩
  refine wp_bind .. |>.2 ((hI.passes (keepsSession_op rfl) hx).post fun password x₁ h₁ => ?_)
  cases password with
  | none => exact hnone h₁
  | some password =>
    refine wp_bind .. |>.2 ((hI.passes (keepsSession_op rfl) h₁).post fun device x₂ h₂ => ?_)
    refine wp_perform_bind.2 ⟨⟨hI.stop h₂, nofun⟩, fun r hr => ?_⟩
    have h₃ := hI.grants rfl hr.2 h₂
    cases r with
    | error e => exact hnone h₃
    | ok login =>
      obtain ⟨grant, userKey⟩ := login
      have hbrings : Brings n (some ((createClient cfg device).loggedIn grant userKey))
          ((sessionMachine E A).next (.loginPassword cfg.email password) x₂ (.ok (grant, userKey))) := by
        rintro c token hc ht
        obtain rfl := Option.some.inj hc
        have hgranted : granted ⟨.loginPassword cfg.email password, .ok (grant, userKey)⟩ = some token := ht
        exact (newestToken_snoc ..).trans (by rw [hgranted, Option.some_or])
      have hsync := (keepsSession_syncSshKeys ((createClient cfg device).loggedIn grant userKey)).passes
        (I := fun x' => I x' ∧ Brings n (some ((createClient cfg device).loggedIn grant userKey)) x') (A := A)
        (fun hs h => ⟨hI.lessens hs.lessens h.1, h.2.congr hs⟩) (fun h => hI.stop h.1) ⟨h₃, hbrings⟩
      refine wp_bind .. |>.2 (hsync.post fun r x₄ h₄ => ?_)
      cases r with
      | error e => exact hnone h₄.1
      | ok keys => exact ⟨hI.stop h₄.1, h₄.2⟩

theorem passes_promptSetupPin (hE : SealLaws E) (hx : AtStop E n none x)
    (hclient : ClientHolds (newestToken n x.2) x.1) :
    Passes E A n none (promptSetupPin E cfg) (fun _ => AtStop E n none) x := by
  refine hx.follow keepsSession_askNewPin (.refl n x) fun pin x₁ h₁ => ?_
  cases pin with
  | none => exact hx.congr h₁
  | some pin =>
    refine hx.follow (keepsSession_op rfl) h₁ fun keys x₂ h₂ => hx.follow (.bind (keepsSession_op rfl) fun key =>
      keepsSession_writeEnvelopeLocalKeyCacheWithKey E cfg _ _ _ _ key) h₂ fun r x₃ h₃ => ?_
    cases r with
    | error e => exact hx.congr h₃
    | ok r =>
      exact hx.follow (keepsSession_op rfl) h₃ fun _ x₄ h₄ => hx.follow (keepsSession_op rfl) h₄ fun _ x₅ h₅ =>
        passes_saveSessionOfClient hE pin (hx.congr h₅) (h₅.newest.symm ▸ hclient.congr h₅.client)

theorem passes_loadInitialKeys (hE : SealLaws E) (keys : List DecryptedSshKey) (hx : AtStop E n none x)
    (hclient : ClientHolds (newestToken n x.2) x.1) :
    Passes E A n none (loadInitialKeys E cfg keys) (fun _ => AtStop E n none) x := by
  refine (wp_ite ..).2 ⟨fun _ => hx, fun _ => hx.follow (keepsSession_op rfl) (.refl n x) fun _ x₁ h₁ =>
    hx.follow (keepsSession_op rfl) h₁ fun _ x₂ h₂ => hx.follow (keepsSession_op rfl) h₂ fun _ x₃ h₃ =>
    hx.follow (keepsSession_op rfl) h₃ fun _ x₄ h₄ => hx.follow (keepsSession_op rfl) h₄ fun _ x₅ h₅ =>
    hx.follow (keepsSession_op rfl) h₅ fun loaded x₆ h₆ =>
      (wp_ite ..).2 ⟨fun _ => wp_bind .. |>.2 ?_, fun _ => hx.congr h₆⟩⟩
  exact (passes_promptSetupPin hE (hx.congr h₆) (h₆.newest.symm ▸ hclient.congr h₆.client)).post fun _ _ h => h

/-- The agent starts with the client the login has brought, and its token is the newest one. -/
theorem passes_startWith (hE : SealLaws E) (cache : Option LocalKeyCacheFile)
    (login : Option (List DecryptedSshKey × BitwardenClient)) (hx : AtStop E n none x)
    (hlogin : Brings n (login.map Prod.snd) x) :
    Passes E A n none (startWith E cfg cache login) (fun _ => AtStop E n none) x := by
  have hconnect : ∀ x', AtStop E n none x' →
      Passes E A n none (connectInitialClient E cfg) (fun _ => AtStop E n none) x' := by
    refine fun x₁ h₁ => h₁.bind (keepsSession_op rfl) fun _ x₂ h₂ =>
      h₂.bind (keepsSession_op rfl) fun client x₃ h₃ => ?_
    have hrelease : KeepsSession (op (.release .apiClient)) := keepsSession_op rfl
    cases client with
    | none => exact h₃.of_keeps hrelease
    | some client =>
      dsimp only
      split
      · exact h₃.of_keeps hrelease
      · exact h₃.bind (hubSteps_connectNotificationClient cfg client _).keepsSession fun _ x₄ h₄ =>
          wp_bind .. |>.2 <|
          (lasting_atStop.saveDeviceSession client h₄).post fun _ x₅ h₅ => h₅.of_keeps hrelease
  have hup : Passes E A n none (bringUp E cfg cache login) (fun _ => AtStop E n none) x := by
    have h₀ : AtStop E n none x ∧ Brings n (login.map Prod.snd) x := ⟨hx, hlogin⟩
    have hkeep : ∀ {γ : Type} {p : DProg γ} {f : γ → DProg Bool} {x'}, KeepsSession p →
        AtStop E n none x' ∧ Brings n (login.map Prod.snd) x' →
        (∀ a x'', AtStop E n none x'' ∧ Brings n (login.map Prod.snd) x'' →
          Passes E A n none (f a) (fun _ => AtStop E n none) x'') →
        Passes E A n none (p >>= f) (fun _ => AtStop E n none) x' :=
      fun hp h hf => wp_bind .. |>.2 <|
        (hp.passes (I := fun x' => AtStop E n none x' ∧ Brings n (login.map Prod.snd) x')
        (fun hs h => ⟨h.1.congr hs, h.2.congr hs⟩) And.left h).post hf
    refine hkeep (keepsSession_op rfl) h₀ fun started x₁ h₁ => (wp_ite ..).2 ⟨fun _ => h₁.1, fun _ => ?_⟩
    refine hkeep (keepsSession_op rfl) h₁ fun _ x₂ h₂ => wp_perform_bind.2 ⟨⟨h₂.1, nofun⟩, fun _ _ => ?_⟩
    have hstop₃ := lasting_atStop.lessens (lessens_next (E := E) (A := A) (n := n)
      (o := .writeApiClient (login.map Prod.snd)) rfl x₂ ()) h₂.1
    have hholds₃ : ClientHolds
      (newestToken n ((sessionMachine E A).next (.writeApiClient (login.map Prod.snd)) x₂ ()).2)
        ((sessionMachine E A).next (.writeApiClient (login.map Prod.snd)) x₂ ()).1 :=
      fun client token hc ht => (newestToken_snoc ..).trans (h₂.2 client token hc ht)
    generalize (sessionMachine E A).next (.writeApiClient (login.map Prod.snd)) x₂ () = x₃ at hstop₃ hholds₃ ⊢
    refine hstop₃.follow (keepsSession_op rfl) (.refl n x₃) fun _ x₄ h₄ => ?_
    cases login with
    | none => exact (hstop₃.congr h₄).bind keepsSession_loadInitialIdentities fun _ _ h => h
    | some login =>
      refine hstop₃.follow (keepsSession_op rfl) h₄ fun _ x₅ h₅ => ?_
      exact passes_loadInitialKeys hE _ (hstop₃.congr h₅) (h₅.newest.symm ▸ hholds₃.congr h₅.client)
  refine wp_bind .. |>.2 (hup.post fun up x₁ h₁ => (wp_ite ..).2 ⟨fun _ => wp_bind .. |>.2 ?_, fun _ => h₁⟩)
  exact (hconnect x₁ h₁).post fun _ _ h => h

theorem passes_startUp (hE : SealLaws E) {cfg₀ : Config} (hI : Pinless E A n none I) (hx : I x) :
    Passes E A n none (startUp E cfg₀) (fun _ => AtStop E n none) x := by
  have hload : KeepsSession (loadRememberedDevice cfg₀) := by
    refine .bind keepsSession_loadSharedCache fun cache => ?_
    cases cache with
    | none => trivial
    | some cache =>
      exact .bind (slotSteps_persistDeviceUnlockSlotsFromCache cfg₀ cache).keepsSession fun _ => trivial
  have hemail : KeepsSession (resolveEmail cfg₀) := by
    refine .ite (.bind (keepsSession_op rfl) fun email => ?_) trivial
    cases email <;> trivial
  refine wp_bind .. |>.2 ((hI.passes hload hx).post fun cache x₁ h₁ => ?_)
  cases cache with
  | some cache => exact passes_startWith hE _ none (hI.stop h₁) nofun
  | none =>
    refine wp_bind .. |>.2 ((hI.passes hemail h₁).post fun cfg x₂ h₂ => ?_)
    cases cfg with
    | none => exact hI.stop h₂
    | some cfg =>
      exact wp_bind .. |>.2 ((passes_loginAtStart hI h₂).post fun login x₃ h₃ =>
        passes_startWith hE none login h₃.1 h₃.2)

/-- What a turn starts with and what its events meet. -/
structure Favours (E : Crates) (A : Event → Prop) (n stored : Option String) (t : Turn) (x : Daemon × List Event) :
    Prop where
  start : Unrestored E n stored x
  rejected : t.restores = true → ∀ c e, A ⟨.refreshAccessToken c, .error e⟩ → Rejected e
  pinless : t.restores = false → ∃ I, Pinless E A n stored I ∧ I x
  pin : t.setsPin = true → ClientHolds n x.1

theorem Favours.congr {t : Turn} (h : Favours E A n stored t x) (hs : SameSession n x x') :
    Favours E A n stored t x' where
  start := h.start.congr hs
  rejected := h.rejected
  pinless hr := by
    obtain ⟨I, hI, hx⟩ := h.pinless hr
    exact ⟨I, hI, hI.lessens hs.lessens hx⟩
  pin hp := (h.pin hp).congr hs.client

theorem passes_handleAction (hE : SealLaws E) {action : ControlAction}
    (h : Favours E A n stored (.event (.control action)) x) (hf : ∀ shared, action ≠ .forget shared) :
    Passes E A n stored (handleAction E cfg action) (fun _ => AtStop E n stored) x := by
  have hstop := h.start.stop
  cases action with
  | stop => exact hstop
  | lock => exact hstop.of_keeps keepsSession_handleLock
  | unlock => exact passes_handleUnlock hE (h.rejected rfl) h.start
  | unlockNative => exact hstop.of_keeps (keepsSession_handleUnlockNative E cfg)
  | unlockHello => exact hstop.of_keeps (.bind (keepsSession_op rfl) fun _ => .ite trivial trivial)
  | status json => exact hstop.of_keeps (keepsSession_buildStatusResponse cfg json)
  | unlockPin pin => exact passes_handleUnlockPin hE (h.rejected rfl) pin h.start
  | unlockPassword password =>
    obtain ⟨I, hI, hx⟩ := h.pinless rfl
    exact (hI.handleUnlockPassword password hx).post fun _ _ h => hI.stop h
  | sync => exact hstop.of_keeps (keepsSession_handleSync E cfg)
  | forget shared => exact absurd rfl (hf shared)
  | setPin pin => exact passes_handleSetPin hE pin h.start.newest h.start.seals (h.pin rfl)
  | bindHostsDialog => exact hstop.of_keeps prompting_handleBindHostsDialog.answering.keepsSession

/-- A step of the main loop other than `forget` keeps the stored session usable. -/
theorem passes_mainStep (hE : SealLaws E) {ev : MainEvent} (h : Favours E A n stored (.event ev) x)
    (hf : (Turn.event ev).forgets = false) :
    Passes E A n stored (mainStep E cfg ev) (fun _ => AtStop E n stored) x := by
  have hstop := h.start.stop
  cases ev with
  | control action =>
    have hreload : KeepsSession (Prog.when action.reloads (reloadSharedLocalCacheFromDiskIfMultiDevice cfg)) :=
      .when (keepsSession_reload cfg)
    refine wp_bind .. |>.2 (hstop.follow hreload (.refl n x) fun _ x₁ h₁ => ?_)
    refine (passes_handleAction hE (h.congr h₁) ?_).post fun _ _ h => h
    rintro shared rfl
    cases hf
  | runtime event =>
    cases event with
    | autoUnlockedPin pin =>
      exact wp_bind .. |>.2 ((passes_tryRestoreApiSession hE (h.rejected rfl) pin h.start).post fun _ x₁ h₁ =>
        h₁.bind (pendingSyncSteps_resolvePendingSync E cfg).keepsSession fun _ _ h => h)
    | autoUnlockedNative =>
      exact hstop.bind (pendingSyncSteps_resolvePendingSync E cfg).keepsSession fun _ _ h => h
  | hub event => exact hstop.of_keeps (keepsSession_handleHubEvent E cfg event)
  | tokenRefresh =>
    obtain ⟨I, hI, hx⟩ := h.pinless rfl
    exact (hI.handleTokenRefresh hx).post fun _ _ h => hI.stop h
  | autoLockTick idle => exact hstop.of_keeps (keepsSession_handleAutoLockTick cfg idle)

/-- Wherever a program that passes is stopped, the stored token is the newest one, unless another has been issued
and is not saved; and the file has only been deleted after a rejection. -/
theorem atStop_of_steps {p p' : DProg α} {s s' : Daemon} {tr : List Event}
    (h : Passes E A n stored p (fun _ => AtStop E n stored) (s, [])) (hs : Steps (machine E) p s tr p' s')
    (hA : ∀ e ∈ tr, A e) : AtStop E n stored (s', tr) ∧
      ∀ before a after, tr = before ++ ⟨.deleteSession, a⟩ :: after → RejectedIn before := by
  have hsteps := hs.restrict hA
  have hend := h.steps (hsteps.log [])
  refine ⟨?_, fun before a after htr => ?_⟩
  · cases p' with
    | ret b => exact hend
    | vis o k => exact hend.1.1
  · obtain ⟨s'', hspares⟩ := h.before hsteps htr
    exact hspares.2 rfl

/-! ### Whole lives -/

theorem newestIssued_snoc (history : List Entry) (entry : Entry) :
    newestIssued (history ++ [entry]) = newestToken (newestIssued history) entry.2 := by
  rw [newestIssued, List.flatMap_append, newestToken_append]
  simp [newestIssued]

section Spared
variable {history : List Entry} {s s₁ s' : Daemon} {entry : Entry}

/-- A step without a PIN has an invariant to keep. -/
theorem SparesSession.exists_pinless (h : SparesSession history s entry)
    (hs : SealsNewest E (newestIssued history) s₁)
    (hstored : storedToken s₁ = storedToken s) (hr : entry.1.any Turn.restores = false) (stored : Option String) :
    ∃ I, Pinless E (· ∈ entry.2) (newestIssued history) stored I ∧ I (s₁, []) := by
  by_cases hnone : storedToken s = none
  · exact ⟨_, pinless_unstored, hstored.trans hnone⟩
  · refine ⟨_, pinless_unissued fun e he token htoken => ?_, rfl, hs⟩
    rcases h.issued e he token htoken with hn | hno | ⟨hyes, -⟩
    · exact hn
    · exact absurd hno hnone
    · exact absurd (hr.symm.trans hyes) Bool.false_ne_true

theorem SparesSession.favours {t : Turn} {tr : List Event} (h : SparesSession history s (some t, tr))
    (hs : SealsNewest E (newestIssued history) s₁) (hstored : storedToken s₁ = storedToken s)
    (hclient : s₁.apiClient = s.apiClient) :
    Favours E (· ∈ tr) (newestIssued history) (storedToken s) t (s₁, []) where
  start := ⟨rfl, by simp [Saved], hs, hstored⟩
  rejected hr c e he := h.rejected hr c e he
  pinless hr := h.exists_pinless hs hstored hr _
  pin hp := (h.pin hp).congr hclient

/-- At the end of the step the stored token is the newest one. -/
theorem SparesSession.seals (h : SparesSession history s entry)
    (hstop : AtStop E (newestIssued history) (storedToken s) (s', entry.2)) :
    SealsNewest E (newestIssued (history ++ [entry])) s' := by
  rw [newestIssued_snoc]
  refine hstop ?_
  rcases newestToken_cases (newestIssued history) entry.2 with hsame | ⟨e, he, token, htoken, hnew⟩
  · exact .inl hsame
  · rcases h.issued e he token htoken with hn | hno | ⟨-, hsaved⟩
    · exact .inl (hnew.trans hn.symm)
    · exact .inr (.inr hno)
    · exact .inr (.inl hsaved)

end Spared

/-- `forget` leaves no token behind that is not the newest one. -/
theorem sealsNewest_of_forget {ev : MainEvent} {s s' : Daemon} {p : DProg Unit} {tr : List Event}
    (hf : (Turn.event ev).forgets = true) (h : Steps (machine E) (mainStep E cfg ev) s tr p s')
    (hs : SealsNewest E n s) : SealsNewest E (newestToken n tr) s' := by
  obtain ⟨shared, rfl⟩ : ∃ shared, ev = .control (.forget shared) := by
    cases ev with
    | control action => cases action <;> first | exact ⟨_, rfl⟩ | cases hf
    | _ => cases hf
  have hprog : Prog.Only (S := daemonSig) (fun o : Op => o.lessensSession = true)
      (mainStep E cfg (.control (.forget shared))) := .bind (lessens_handleForget cfg shared) fun _ => trivial
  have hend := hprog.steps (M := sessionMachine E fun _ => True) (I := Lessens n (s, []))
    (fun o x a ho hx _ => hx.trans (lessens_next ho x a)) ⟨.inl rfl, rfl⟩ ((h.restrict fun _ _ => trivial).log [])
  rw [show newestToken n tr = n from hend.newest]
  exact hs.lessens (x := (s, [])) hend.stored

/-- What is known of the life of a device: the stored token is the newest one, and the file has only been deleted
by `forget` or after a rejection. -/
structure SessionKept (E : Crates) (s : Daemon) (history : List Entry) : Prop where
  seals : SealsNewest E (newestIssued history) s
  deletes : ∀ entry ∈ history, DeletesFairly entry

theorem SessionKept.snoc {s s' : Daemon} {history : List Entry} {entry : Entry} (h : SessionKept E s history)
    (hs : SealsNewest E (newestIssued (history ++ [entry])) s') (hd : DeletesFairly entry) :
    SessionKept E s' (history ++ [entry]) where
  seals := hs
  deletes entry' he := by
    rcases List.mem_append.1 he with he | he
    · exact h.deletes entry' he
    · exact List.mem_singleton.1 he ▸ hd

theorem SessionKept.start (hE : SealLaws E) {s s' : Daemon} {history : List Entry} {cfg₀ : Config}
    {tr : List Event}
    {p : DProg (Option Config)} (h : SessionKept E s history)
    (hsteps : Steps (machine E) (startUp E cfg₀) { disk := s.disk, clock := s.clock } tr p s')
    (hok : SparesSession history s (none, tr)) : SessionKept E s' (history ++ [(none, tr)]) := by
  have hs : SealsNewest E (newestIssued history) { disk := s.disk, clock := s.clock } := h.seals.congr rfl
  obtain ⟨I, hI, hx⟩ := hok.exists_pinless hs rfl rfl none
  obtain ⟨hstop, hdeletes⟩ := atStop_of_steps (passes_startUp hE hI hx) hsteps fun _ he => he
  exact h.snoc (hok.seals fun _ => atStop_iff.1 hstop) (.inr hdeletes)

theorem SessionKept.event (hE : SealLaws E) {s s₁ s' : Daemon} {history : List Entry} {t : Turn} {ev : MainEvent}
    {tr : List Event} {p : DProg Unit} (h : SessionKept E s history) (hstored : storedToken s₁ = storedToken s)
    (hclient : s₁.apiClient = s.apiClient) (hsteps : Steps (machine E) (mainStep E cfg ev) s₁ tr p s')
    (hok : SparesSession history s (some t, tr))
    (ht : t = .event ev ∨ ∃ action, ev = .control action ∧ t = .dropped action) :
    SessionKept E s' (history ++ [(some t, tr)]) := by
  have hs : SealsNewest E (newestIssued history) s₁ := h.seals.congr hstored
  have hforgets : t.forgets = (Turn.event ev).forgets := by
    rcases ht with rfl | ⟨action, rfl, rfl⟩
    · rfl
    · cases action <;> rfl
  by_cases hf : (Turn.event ev).forgets = true
  · refine h.snoc ?_ (.inl (hforgets.trans hf))
    rw [newestIssued_snoc]
    exact sealsNewest_of_forget hf hsteps hs
  · have hfavours : Favours E (· ∈ tr) (newestIssued history) (storedToken s) (.event ev) (s₁, []) := by
      have hsame := hok.favours hs hstored hclient
      rcases ht with rfl | ⟨action, rfl, rfl⟩
      · exact hsame
      · cases action <;> exact ⟨hsame.start, hsame.rejected, hsame.pinless, hsame.pin⟩
    have hpasses : Passes _ _ _ _ (mainStep _ cfg _) _ _ := passes_mainStep hE hfavours (Bool.eq_false_iff.2 hf)
    obtain ⟨hstop, hdeletes⟩ := atStop_of_steps hpasses hsteps fun _ he => he
    exact h.snoc (hok.seals hstop) (.inr hdeletes)

theorem SessionKept.turn (hE : SealLaws E) {s s' : Daemon} {history : List Entry} {t : Turn} {tr : List Event}
    (h : SessionKept E s history) (hstep : Step (machine E) E cfg s t tr s')
    (hok : SparesSession history s (some t, tr)) :
    SessionKept E s' (history ++ [(some t, tr)]) := by
  cases hstep with
  | event hr hsteps =>
    refine h.event hE ?_ ?_ hsteps hok (.inl rfl)
    · cases hr <;> rfl
    · cases hr <;> rfl
  | dropped hr hsteps hd => exact h.event hE rfl rfl hsteps hok (.inr ⟨_, rfl, rfl⟩)
  | arrives ha =>
    refine h.snoc (hok.seals fun _ => ?_) (.inr fun before a after htr => absurd htr.symm (by simp))
    cases ha
    exact h.seals.congr rfl
  | request hsteps =>
    have hstart := (hok.favours h.seals rfl rfl).start
    obtain ⟨hstop, hdeletes⟩ :=
      atStop_of_steps (hstart.stop.of_keeps (keepsSession_handleUiRequest E cfg _)) hsteps
      fun _ he => he
    exact h.snoc (hok.seals hstop) (.inr hdeletes)

namespace Plain

/-- Only one key's header stands at the front of a ciphertext. -/
theorem authentic {bytes bytes' : Bytes} {key key' : SymmetricKey}
    (h : decrypt (encrypt bytes key) key' = .ok bytes') : bytes' = bytes := by
  unfold decrypt at h
  split at h
  · rename_i hpre
    obtain ⟨t, ht⟩ := List.isPrefixOf_iff_prefix.1 hpre
    rw [encrypt, String.toList_ofList] at ht h
    have hparts := ht
    simp only [header, List.append_assoc, List.cons_append, List.nil_append] at hparts
    obtain ⟨henc, hparts⟩ := append_sep_inj (sep_notMem_text _) (sep_notMem_text _) hparts
    obtain ⟨hmac, rfl⟩ := append_sep_inj (sep_notMem_text _) (sep_notMem_text _) hparts
    have hheader : header key' = header key := by rw [header, header, henc, hmac]
    rw [hheader, List.drop_left, map_text] at h
    exact (Except.ok.inj h).symm
  · cases h

end Plain

theorem Lives.mono {ok ok' : List Entry → Daemon → Entry → Prop} (hok : ∀ history s entry, ok history s entry →
    ok' history s entry) {r : Option Config} {s : Daemon} {history : List Entry} (h : Lives E ok r s history) :
    Lives E ok' r s history := by
  induction h with
  | install hs hfile => exact .install hs hfile
  | start _ hsteps h ih => exact .start ih hsteps (hok _ _ _ h)
  | turn _ hstep h ih => exact .turn ih hstep (hok _ _ _ h)
  | killed _ hr hsteps h ih => exact .killed ih hr hsteps (hok _ _ _ h)

/-- A start-up with these answers, or a scene. -/
inductive Chapter
  | start (cfg₀ : Config) (sc : Script)
  | scene (scene : Scene)

/-- The configuration of the daemon that runs, if any, its state and what has happened so far. -/
abbrev Life : Type := Option Config × Daemon × List Entry

def Chapter.play (E : Crates) (ok : List Entry → Daemon → Entry → Bool) (x : Life) : Chapter → Option Life
  | .start cfg₀ sc =>
    let s := { disk := x.2.1.disk, clock := x.2.1.clock }
    let entry : Entry := (none, Prog.trace (machine E) sc.answer enough (startUp E cfg₀) s)
    let end_ := sc.run E enough (startUp E cfg₀) s
    if ok x.2.2 x.2.1 entry then some (end_.1.result?.bind id, end_.2, x.2.2 ++ [entry]) else none
  | .scene scene' =>
    x.1.bind fun cfg => (scene'.play E cfg x.2.1).bind fun s' =>
      let entry : Entry := (some scene'.turn, scene'.trace E cfg x.2.1)
      if ok x.2.2 x.2.1 entry then some (some cfg, s', x.2.2 ++ [entry]) else none

end SshWarden
