import SshWarden.Lib.Prog
import SshWarden.Unlock
import SshWarden.UserLines

/-!
# The lines of the control channel (`crates/sshwarden-agent/src/control.rs`)

A client sends a command as one line, a JSON object, and shuts its end down; the daemon reads a bounded part of it.
Of a line that fits the main loop gets exactly the action that the command names, whatever PIN or password is in it. A
line that does not fit gives no action at all (`receive_cases`).
-/

namespace SshWarden

/-- The arms with a PIN or a password, and the last one. -/
def dispatchSecret (s : String) : Except ControlResponse ControlAction :=
  match Text.stripPrefix? "unlock-pin:".toList s.toList with
  | some pin => .ok (.unlockPin (String.ofList pin))
  | none =>
    match Text.stripPrefix? "unlock-password:".toList s.toList with
    | some password => .ok (.unlockPassword (String.ofList password))
    | none =>
      match Text.stripPrefix? "set-pin:".toList s.toList with
      | some pin => .ok (.setPin (String.ofList pin))
      | none => .error (.err s!"Unknown command: {s}")

def dispatchControlCommand (cmd : String) : Except ControlResponse ControlAction :=
  match cmd with
  | "lock" => .ok .lock
  | "unlock" => .ok .unlock
  | "unlock-hello" => .ok .unlockHello
  | "unlock-native" => .ok .unlockNative
  | "status" => .ok (.status false)
  | "status-json" => .ok (.status true)
  | "sync" => .ok .sync
  | "forget" => .ok (.forget false)
  | "forget-shared" => .ok (.forget true)
  | "stop" => .ok .stop
  | "bind-hosts-dialog" => .ok .bindHostsDialog
  | s => dispatchSecret s

/-- The command that the CLI sends for an action. -/
def controlCommand : ControlAction → String
  | .lock => "lock"
  | .unlock => "unlock"
  | .unlockPin pin => "unlock-pin:" ++ pin
  | .unlockHello => "unlock-hello"
  | .unlockNative => "unlock-native"
  | .unlockPassword password => "unlock-password:" ++ password
  | .status false => "status"
  | .status true => "status-json"
  | .sync => "sync"
  | .setPin pin => "set-pin:" ++ pin
  | .forget false => "forget"
  | .forget true => "forget-shared"
  | .stop => "stop"
  | .bindHostsDialog => "bind-hosts-dialog"

theorem dispatch_of_colon {s : String} (h : ':' ∈ s.toList) : dispatchControlCommand s = dispatchSecret s := by
  unfold dispatchControlCommand
  split
  case h_12 => rfl
  all_goals exact absurd h (by decide)

theorem eq_ofList_append {pre : String} {s : String} {rest : Text}
    (h : Text.stripPrefix? pre.toList s.toList = some rest) :
    s = pre ++ String.ofList rest := by
  rw [← String.toList_inj, String.toList_append, String.toList_ofList]
  exact Text.eq_append_of_stripPrefix? h

theorem dispatch_controlCommand (action : ControlAction) :
    dispatchControlCommand (controlCommand action) = .ok action := by
  have hstrip : ∀ pre pin : String, Text.stripPrefix? pre.toList (pre ++ pin).toList = some pin.toList :=
    fun pre pin => by
    rw [String.toList_append, Text.stripPrefix?_append]
  have hother : ∀ {pre t pin : String} {c d : Char} {cs ds : Text}, pre.toList = c :: cs →
    t.toList = d :: ds → d ≠ c →
      Text.stripPrefix? pre.toList (t ++ pin).toList = none := fun hpre ht hne => by
    rw [String.toList_append, hpre, ht, List.cons_append, Text.stripPrefix?_cons_of_ne hne]
  cases action with
  | unlockPin pin =>
    rw [controlCommand, dispatch_of_colon (by simp), dispatchSecret, hstrip]
    simp
  | unlockPassword password =>
    rw [controlCommand, dispatch_of_colon (by simp), dispatchSecret, hstrip]
    simp [Text.stripPrefix?]
  | setPin pin =>
    rw [controlCommand, dispatch_of_colon (by simp), dispatchSecret, hother rfl rfl (by decide),
      hother rfl rfl (by decide),
      hstrip]
    simp
  | status json => cases json <;> rfl
  | forget shared => cases shared <;> rfl
  | _ => rfl

/-- Nothing but the command of an action gives the action. -/
theorem dispatch_eq_ok {cmd : String} {action : ControlAction} :
    dispatchControlCommand cmd = .ok action ↔ cmd = controlCommand action := by
  refine ⟨fun h => ?_, fun h => h ▸ dispatch_controlCommand action⟩
  unfold dispatchControlCommand at h
  split at h
  case h_12 =>
    unfold dispatchSecret at h
    split at h
    · next pin hpin =>
      obtain rfl := Except.ok.inj h
      exact eq_ofList_append hpin
    · split at h
      · next password hpassword =>
        obtain rfl := Except.ok.inj h
        exact eq_ofList_append hpassword
      · split at h
        · next pin hpin =>
          obtain rfl := Except.ok.inj h
          exact eq_ofList_append hpin
        · cases h
  all_goals
    obtain rfl := Except.ok.inj h
    rfl

theorem dispatch_eq_error {cmd : String} {response : ControlResponse}
    (h : dispatchControlCommand cmd = .error response) :
    response = .err s!"Unknown command: {cmd}" := by
  unfold dispatchControlCommand dispatchSecret at h
  split at h
  case h_12 =>
    split at h
    · cases h
    · split at h
      · cases h
      · split at h <;> cases h
        rfl
  all_goals cases h

/-- The JSON of a command and the parser of `serde_json`. -/
structure ControlWire where
  printCommand : String → String
  parseCommand : String → Except String String

/-- A JSON object on one line, which is read back, while none of its proper prefixes is JSON. -/
structure ControlWire.Lawful (W : ControlWire) (cmd : String) : Prop where
  parse_print : W.parseCommand (W.printCommand cmd) = .ok cmd
  object : ∃ body, (W.printCommand cmd).toList = '{' :: body ++ ['}'] ∧ '\n' ∉ body
  cut : ∀ pre : String, pre.toList <+: (W.printCommand cmd).toList → pre ≠ W.printCommand cmd →
    ∃ e, W.parseCommand pre = .error e

def maxControlLineBytes : Nat := 64 * 1024

/-- `read_line`: up to the first newline, which is read with the line. -/
def readLine (bytes : Bytes) : Bytes :=
  bytes.takeWhile (· ≠ 10) ++ (bytes.dropWhile (· ≠ 10)).take 1

def handleControlLine (W : ControlWire) (line : String) : Except ControlResponse ControlAction :=
  match W.parseCommand line with
  | .error e => .error (.err s!"Invalid command: {e}")
  | .ok cmd => dispatchControlCommand cmd

/-- What a client writes. -/
def commandLine (W : ControlWire) (cmd : String) : Bytes := utf8 (W.printCommand cmd ++ "\n")

/-- What the daemon makes of the line: it closes the connection without an answer, or answers at once, or asks the main
loop for an action. -/
def receive (W : ControlWire) (cmd : String) : Option (Except ControlResponse ControlAction) :=
  let line := readLine ((commandLine W cmd).take maxControlLineBytes)
  if line = [] then none
  else (fromUtf8 line).map fun line => handleControlLine W (String.ofList (Text.trim line.toList))

/-- All of the line but its newline is read. -/
def FitsLine (W : ControlWire) (cmd : String) : Prop := (utf8 (W.printCommand cmd)).length ≤ maxControlLineBytes

theorem utf8_eq_flatMap (s : String) : utf8 s = s.toList.flatMap String.utf8EncodeChar := by
  obtain ⟨cs, rfl⟩ : ∃ cs, s = String.ofList cs := ⟨s.toList, String.ofList_toList.symm⟩
  simp [utf8, List.utf8Encode]

theorem utf8_append (s t : String) : utf8 (s ++ t) = utf8 s ++ utf8 t := by
  rw [utf8_eq_flatMap, utf8_eq_flatMap, utf8_eq_flatMap, String.toList_append, List.flatMap_append]

theorem eq_empty_of_utf8 {s : String} (h : utf8 s = []) : s = "" := by
  have hempty : fromUtf8 (utf8 s) = fromUtf8 (utf8 "") := by
    rw [h]
    rfl
  rw [fromUtf8_utf8, fromUtf8_utf8] at hempty
  exact Option.some.inj hempty

theorem newline_mem_utf8 {s : String} (h : (10 : UInt8) ∈ utf8 s) : '\n' ∈ s.toList := by
  rw [utf8_eq_flatMap] at h
  obtain ⟨c, hc, hmem⟩ := List.mem_flatMap.1 h
  have hnum := toNat_of_mem_utf8EncodeChar hmem (by decide)
  have hten : c = '\n' := Char.toNat_inj.1 hnum.symm
  exact hten ▸ hc

/-- No code of a character is the start of that of another one. -/
theorem utf8EncodeChar_append_inj {c d : Char} {b b' : Bytes}
    (h : String.utf8EncodeChar c ++ b = String.utf8EncodeChar d ++ b') : c = d ∧ b = b' := by
  have hdecode : ∀ (c : Char) (b : Bytes),
      (String.utf8EncodeChar c ++ b).toByteArray.utf8DecodeChar? 0 = some c := fun c b => by
    rw [List.toByteArray_append]
    exact ByteArray.utf8DecodeChar?_utf8EncodeChar_append
  obtain rfl : c = d := Option.some.inj ((hdecode c b).symm.trans (h ▸ hdecode d b'))
  exact ⟨rfl, List.append_cancel_left h⟩

/-- What is decoded of the start of an encoded text is the start of the text. -/
theorem prefix_of_utf8 {s t : String} (h : utf8 t <+: utf8 s) : t.toList <+: s.toList := by
  rw [utf8_eq_flatMap, utf8_eq_flatMap] at h
  obtain ⟨rest, h⟩ := h
  generalize s.toList = cs at h
  generalize t.toList = ds at h
  induction ds generalizing cs with
  | nil => exact List.nil_prefix
  | cons d ds ih =>
    rw [List.flatMap_cons, List.append_assoc] at h
    cases cs with
    | nil =>
      have hnil := (List.append_eq_nil_iff.1 h).1
      exact absurd hnil String.utf8EncodeChar_ne_nil
    | cons c cs =>
      rw [List.flatMap_cons] at h
      obtain ⟨rfl, htail⟩ := utf8EncodeChar_append_inj h
      exact (List.prefix_cons_inj d).2 (ih cs htail)

theorem readLine_of_not_mem {bytes : Bytes} (h : (10 : UInt8) ∉ bytes) :
    readLine bytes = bytes ∧ readLine (bytes ++ [10]) = bytes ++ [10] := by
  have hall : ∀ b ∈ bytes, decide (b ≠ 10) = true := by
    intro b hb
    simp only [decide_eq_true_eq]
    rintro rfl
    exact h hb
  constructor
  · rw [readLine, List.takeWhile_eq_self_iff.2 hall, List.dropWhile_eq_nil_iff.2 hall]
    simp
  · rw [readLine, List.takeWhile_append_of_pos hall, List.dropWhile_append_of_pos hall]
    simp

/-- Of a text that starts with a brace only the end is trimmed. -/
theorem trim_prefix_of_brace (cs : Text) : Text.trim ('{' :: cs) <+: '{' :: cs := by
  obtain ⟨space, hspace, -⟩ := Text.exists_append_of_trimEnd ('{' :: cs)
  refine ⟨space, ?_⟩
  rw [Text.trim, Text.trimStart_cons (by decide), ← hspace]

theorem trim_object (body : Text) : Text.trim ('{' :: body ++ ['}']) = '{' :: body ++ ['}'] := by
  rw [Text.trim_concat (by decide), Text.trimStart_cons (by decide)]

/-! ### What arrives -/

variable {W : ControlWire} {cmd : String}

/-- The bytes of the object have no newline, so that the line ends behind it. -/
theorem newline_not_mem (hW : W.Lawful cmd) : (10 : UInt8) ∉ utf8 (W.printCommand cmd) := by
  intro hmem
  obtain ⟨body, hbody, hno⟩ := hW.object
  have hin := newline_mem_utf8 hmem
  rw [hbody] at hin
  simp [hno] at hin

theorem commandLine_eq (W : ControlWire) (cmd : String) :
    commandLine W cmd = utf8 (W.printCommand cmd) ++ [10] := by
  rw [commandLine, utf8_append]
  rfl

theorem receive_of_fits (hW : W.Lawful cmd) (h : FitsLine W cmd) :
    receive W cmd = some (dispatchControlCommand cmd) := by
  obtain ⟨body, hbody, -⟩ := hW.object
  obtain ⟨hobject, hline⟩ := readLine_of_not_mem (newline_not_mem hW)
  have htrim : Text.trim (W.printCommand cmd).toList = (W.printCommand cmd).toList := by rw [hbody, trim_object]
  -- the newline is read, unless the object fills all that is read
  obtain ⟨text, hread, htext⟩ : ∃ text : String,
      readLine ((commandLine W cmd).take maxControlLineBytes) = utf8 text ∧
        Text.trim text.toList = (W.printCommand cmd).toList := by
    rcases Nat.lt_or_ge (utf8 (W.printCommand cmd)).length maxControlLineBytes with hlt | hge
    · refine ⟨W.printCommand cmd ++ "\n", ?_, ?_⟩
      · rw [commandLine_eq, List.take_of_length_le (by simp; omega), hline, utf8_append]
        rfl
      · rw [String.toList_append]
        exact (Text.trim_append_whitespace (by decide) _).trans htrim
    · refine ⟨W.printCommand cmd, ?_, htrim⟩
      rw [commandLine_eq, List.take_append_of_le_length hge, List.take_of_length_le h, hobject]
  have hne : utf8 text ≠ [] := by
    intro hnil
    rw [eq_empty_of_utf8 hnil, hbody] at htext
    cases htext
  unfold receive
  simp only [hread, if_neg hne, fromUtf8_utf8, Option.map_some, htext, String.ofList_toList]
  rw [handleControlLine, hW.parse_print]

theorem receive_of_not_fits (hW : W.Lawful cmd) (h : ¬FitsLine W cmd) :
    receive W cmd = none ∨ ∃ e : String, receive W cmd = some (.error (.err s!"Invalid command: {e}")) := by
  obtain ⟨body, hbody, -⟩ := hW.object
  have hlong : maxControlLineBytes < (utf8 (W.printCommand cmd)).length := Nat.lt_of_not_le h
  have htake : (commandLine W cmd).take maxControlLineBytes =
      (utf8 (W.printCommand cmd)).take maxControlLineBytes := by
    rw [commandLine_eq, List.take_append_of_le_length (Nat.le_of_lt hlong)]
  have hno : (10 : UInt8) ∉ (utf8 (W.printCommand cmd)).take maxControlLineBytes := fun hmem =>
    newline_not_mem hW (List.mem_of_mem_take hmem)
  have hread := (readLine_of_not_mem hno).1
  unfold receive
  simp only [htake, hread]
  split
  · exact .inl rfl
  · cases htext : fromUtf8 ((utf8 (W.printCommand cmd)).take maxControlLineBytes) with
    | none => exact .inl rfl
    | some text =>
      right
      have hbytes := fromUtf8_eq_some.1 htext
      have hprefix : text.toList <+: (W.printCommand cmd).toList :=
        prefix_of_utf8 (hbytes ▸ List.take_prefix maxControlLineBytes (utf8 (W.printCommand cmd)))
      have hlength : (utf8 text).length = maxControlLineBytes := by
        rw [← hbytes, List.length_take]
        omega
      obtain ⟨cs, hcs⟩ : ∃ cs, text.toList = '{' :: cs := by
        cases hlist : text.toList with
        | nil =>
          rw [String.toList_eq_nil_iff.1 hlist] at hlength
          cases hlength
        | cons c cs =>
          rw [hlist, hbody] at hprefix
          obtain ⟨rfl, -⟩ := List.cons_prefix_cons.1 hprefix
          exact ⟨cs, rfl⟩
      have htrim : Text.trim text.toList <+: text.toList := hcs ▸ trim_prefix_of_brace cs
      obtain ⟨e, he⟩ := hW.cut (String.ofList (Text.trim text.toList))
        (by rw [String.toList_ofList]; exact htrim.trans hprefix) fun heq => by
          have hall : text.toList = (W.printCommand cmd).toList :=
            hprefix.eq_of_length_le (by rw [← heq, String.toList_ofList]; exact htrim.length_le)
          rw [String.toList_inj.1 hall] at hlength
          omega
      refine ⟨e, ?_⟩
      rw [Option.map_some, handleControlLine, he]

/-- The main loop is asked for an action by its own command only, and only if the line fits. Any other line gives an
error that says what is wrong with it, or none. -/
theorem commands_arrive (hW : W.Lawful cmd) :
    (∀ action, receive W cmd = some (.ok action) ↔ FitsLine W cmd ∧ cmd = controlCommand action) ∧
      ∀ response, receive W cmd = some (.error response) →
        (FitsLine W cmd ∧ response = .err s!"Unknown command: {cmd}") ∨
          ¬FitsLine W cmd ∧ ∃ e : String, response = .err s!"Invalid command: {e}" := by
  by_cases hfits : FitsLine W cmd
  · rw [receive_of_fits hW hfits]
    refine ⟨fun action => ?_, fun response h => .inl ⟨hfits, ?_⟩⟩
    · rw [Option.some.injEq, dispatch_eq_ok]
      exact ⟨fun h => ⟨hfits, h⟩, fun h => h.2⟩
    · exact dispatch_eq_error (Option.some.inj h)
  · rcases receive_of_not_fits hW hfits with hnone | ⟨e, he⟩
    · rw [hnone]
      refine ⟨fun action => ⟨fun h => ?_, fun h => absurd h.1 hfits⟩, fun response h => ?_⟩ <;> cases h
    · rw [he]
      refine ⟨fun action => ⟨fun h => ?_, fun h => absurd h.1 hfits⟩,
        fun response h => .inr ⟨hfits, e, ?_⟩⟩ <;> cases h
      rfl

/-- No quote, backslash or control character. -/
def needsEscape (c : Char) : Bool := c = '"' || c = '\\' || c.toNat < 0x20

/-- What `serde_json` does with commands that need no escapes. -/
def ControlWire.plain : ControlWire where
  printCommand cmd := "\x7b\"cmd\":\"" ++ cmd ++ "\"\x7d"
  parseCommand line :=
    match (Text.stripPrefix? "\x7b\"cmd\":\"".toList line.toList).bind (Text.stripSuffix? "\"\x7d".toList) with
    | some cmd => if cmd.any needsEscape then .error "needs escapes" else .ok (String.ofList cmd)
    | none => .error "EOF while parsing"

theorem eq_append_of_stripSuffix? {suf cs rest : Text} (h : Text.stripSuffix? suf cs = some rest) :
    cs = rest ++ suf := by
  unfold Text.stripSuffix? at h
  split_ifs at h with hsuf
  obtain ⟨pre, rfl⟩ := List.isSuffixOf_iff_suffix.1 hsuf
  obtain rfl := Option.some.inj h
  simp

/-- What stands around a command. -/
theorem toList_printPlain (cmd : String) : (ControlWire.plain.printCommand cmd).toList =
    "\x7b\"cmd\":\"".toList ++ (cmd.toList ++ "\"\x7d".toList) := by
  dsimp only [ControlWire.plain]
  rw [String.toList_append, String.toList_append, List.append_assoc]

theorem plain_lawful {cmd : String} (h : cmd.toList.any needsEscape = false) : ControlWire.plain.Lawful cmd where
  parse_print := by
    dsimp only [ControlWire.plain]
    rw [show ("\x7b\"cmd\":\"" ++ cmd ++ "\"\x7d").toList = _ from toList_printPlain cmd, Text.stripPrefix?_append,
      Option.bind_some, Text.stripSuffix?_append]
    simp only [h, Bool.false_eq_true, if_false, String.ofList_toList]
  object := by
    have hobject : '\x7b' :: ("\"cmd\":\"".toList ++ cmd.toList ++ ['"']) ++ ['\x7d'] =
        "\x7b\"cmd\":\"".toList ++ (cmd.toList ++ "\"\x7d".toList) := by
      rw [List.append_assoc, List.cons_append, List.append_assoc, List.append_assoc]
      rfl
    refine ⟨_, (toList_printPlain cmd).trans hobject.symm, fun hmem => ?_⟩
    have hnone := List.any_eq_false.1 h '\n'
    simp only [List.mem_append, List.mem_singleton] at hmem
    rcases hmem with (hmem | hmem) | hmem
    · exact absurd hmem (by decide)
    · exact hnone hmem (by decide)
    · exact absurd hmem (by decide)
  cut pre hpre hne := by
    dsimp only [ControlWire.plain]
    cases hstrip : (Text.stripPrefix? "\x7b\"cmd\":\"".toList pre.toList).bind
      (Text.stripSuffix? "\"\x7d".toList) with
    | none => exact ⟨_, rfl⟩
    | some body =>
      by_cases hbody : body.any needsEscape = true
      · exact ⟨_, if_pos hbody⟩
      · exfalso
        obtain ⟨rest, hrest, hsuf⟩ := Option.bind_eq_some_iff.1 hstrip
        have hpre' := Text.eq_append_of_stripPrefix? hrest
        rw [eq_append_of_stripSuffix? hsuf] at hpre'
        -- the first quote behind the command ends it
        rw [toList_printPlain, hpre', List.prefix_append_right_inj] at hpre
        obtain ⟨t, ht⟩ := hpre
        have hquote : ∀ x ∈ cmd.toList, ¬x = '"' := by
          rintro x hx rfl
          exact List.any_eq_false.1 h _ hx (by decide)
        have hcut : cmd.toList ++ '"' :: ['\x7d'] = body ++ '"' :: '\x7d' :: t := by
          rw [List.append_assoc] at ht
          exact ht.symm
        have hbrace : ∀ x ∈ ['\x7d'], ¬x = '"' := by
          intro x hx
          rw [List.mem_singleton.1 hx]
          decide
        obtain ⟨rfl, -⟩ := append_cons_inj (P := fun c => c = '"') hcut rfl hquote hbrace
        exact hne (String.toList_inj.1 (hpre'.trans (toList_printPlain cmd).symm))

/-- A PIN may hold what ends the object. -/
theorem commands_arrive_brace : receive .plain "unlock-pin:12\x7d " = some (.ok (.unlockPin "12\x7d ")) := by
  have hcmd : "unlock-pin:12\x7d " = controlCommand (.unlockPin "12\x7d ") := by
    rw [controlCommand]
    decide +kernel
  refine ((commands_arrive (plain_lawful (by decide +kernel))).1 _).2 ⟨?_, hcmd⟩
  unfold FitsLine
  decide +kernel

end SshWarden
