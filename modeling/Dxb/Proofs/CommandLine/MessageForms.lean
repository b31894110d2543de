import Dxb.CommandLine.Run

/-!
# A message in three forms

The command that decompiles takes a message as it is, in hex or in base64.  Its token tree is the
same in all three (`tree_of_finds`), and the script in hex is the one of the message itself.  The
script in base64 is decompiled by an entry of its own, to which only two of the four options get:
it has no notes, and escapes line feeds, whatever flags and configuration ask for.

    c.Finds form s message → ¬ c.tokens →
      (c.taking form).run defaults s =
        .ok (.ofText (decompile (form.options (c.options defaults)) message)) (script_of_finds)
    all messages are alike as they are and in a form ↔
      the form is not base64, or neither notes nor literal line feeds are asked for
                                                                              (forms_alike_iff)
-/

namespace Dxb

/-! ## Encoded bytes have no blanks -/

namespace Hex

theorem isBlank_digit_all : ∀ n, n < 16 → Blank.isBlank (digit 'a' n) = false := by decide

theorem isBlank_digits (bytes : List UInt8) :
    ∀ c ∈ digits 'a' bytes, Blank.isBlank c = false := by
  rw [digits, List.forall_mem_flatMap]
  intro b _
  have hb := b.toNat_lt
  simp only [List.forall_mem_cons]
  exact ⟨isBlank_digit_all _ (by omega), isBlank_digit_all _ (by omega), List.forall_mem_nil _⟩

end Hex

namespace Base64

theorem isBlank_character_all : ∀ n, n < 64 → Blank.isBlank (character n) = false := by decide

theorem isBlank_characters (bytes : List UInt8) :
    ∀ c ∈ characters bytes, Blank.isBlank c = false := by
  induction bytes using characters.induct with
  | case1 x y z rest ih =>
    have hx := x.toNat_lt
    have hy := y.toNat_lt
    have hz := z.toNat_lt
    simp only [characters, List.forall_mem_cons]
    exact ⟨isBlank_character_all _ (by omega), isBlank_character_all _ (by omega),
      isBlank_character_all _ (by omega), isBlank_character_all _ (by omega), ih⟩
  | case2 x y =>
    have hx := x.toNat_lt
    have hy := y.toNat_lt
    simp only [characters, List.forall_mem_cons]
    exact ⟨isBlank_character_all _ (by omega), isBlank_character_all _ (by omega),
      isBlank_character_all _ (by omega), rfl, List.forall_mem_nil _⟩
  | case3 x =>
    have hx := x.toNat_lt
    simp only [characters, List.forall_mem_cons]
    exact ⟨isBlank_character_all _ (by omega), isBlank_character_all _ (by omega), rfl, rfl,
      List.forall_mem_nil _⟩
  | case4 => exact List.forall_mem_nil _

end Base64

namespace CommandLine

theorem readHex_lower (bytes : List UInt8) : readHex (Hex.lower bytes) = .ok bytes := by
  have hblanks := Blank.remove_eq_self (Hex.isBlank_digits bytes)
  rw [readHex, Hex.lower, String.toList_ofList, hblanks, ← Hex.lower, Hex.decode?_lower]

theorem readBase64_encode (bytes : List UInt8) : readBase64 (Base64.encode bytes) = .ok bytes := by
  have hblanks := Blank.trim_eq_self (Base64.isBlank_characters bytes)
  rw [readBase64, Base64.encode, String.toList_ofList, hblanks, ← Base64.encode,
    Base64.decode?_encode]

/-! ## Forms -/

inductive MessageForm where
  | raw
  | hex
  | base64
deriving DecidableEq, Repr

namespace MessageForm

/-- A message in a form. -/
def write (message : List UInt8) : MessageForm → List UInt8
  | raw => message
  | hex => utf8 (Hex.lower message)
  | base64 => utf8 (Base64.encode message)

/-- What is left, in a form, of the options that are asked for. -/
def options (o : Options) : MessageForm → Options
  | raw | hex => o
  | base64 => { o with comments := false, formattedStrings := false }

end MessageForm

namespace DecompileCommand

variable {c : DecompileCommand} {defaults : Options} {form : MessageForm} {s : Surroundings}
  {message : List UInt8}

/-- The command, told to take a message in a form. -/
def taking (c : DecompileCommand) (form : MessageForm) : DecompileCommand :=
  { c with hex := form == .hex, base64 := form == .base64 }

/-- Where a command reads there is a message in a form. -/
def Finds (c : DecompileCommand) (form : MessageForm) (s : Surroundings) (message : List UInt8) :
    Prop :=
  ∃ input, c.readInput s = .ok input ∧ (c.taking form).message input = .ok message

/-! ### Runs of the command -/

section Run

variable {input : List UInt8} (hinput : c.readInput s = .ok input)
include hinput

theorem run_tokens (htokens : c.tokens = true) (hmessage : c.message input = .ok message) :
    c.run defaults s = .ok (treeReport (decodeMessage (c.options defaults) message)) := by
  simp [run, hinput, htokens, hmessage, bind, Except.bind, pure, Except.pure]

theorem run_base64 (htokens : c.tokens = false) (hbase64 : c.base64 = true) {text : String}
    (htext : ofUtf8? input = some text) :
    c.run defaults s = .ok (.ofText
      (decompileBase64 (c.options defaults).formatted (c.options defaults).hasHeader text)) := by
  simp [run, hinput, htokens, hbase64, htext, bind, Except.bind, pure, Except.pure]

theorem run_message (htokens : c.tokens = false) (hbase64 : c.base64 = false)
    (hmessage : c.message input = .ok message) :
    c.run defaults s = .ok (.ofText (decompile (c.options defaults) message)) := by
  simp [run, hinput, htokens, hbase64, hmessage, bind, Except.bind, pure, Except.pure]

end Run

/-! ### Messages in a form -/

theorem message_write (c : DecompileCommand) (form : MessageForm) (message : List UInt8) :
    (c.taking form).message (form.write message) = .ok message := by
  cases form with
  | raw => rfl
  | hex => simp [DecompileCommand.message, taking, MessageForm.write, readHex_lower]
  | base64 => simp [DecompileCommand.message, taking, MessageForm.write, readBase64_encode]

theorem finds_of_readInput (h : c.readInput s = .ok (form.write message)) :
    c.Finds form s message :=
  ⟨_, h, message_write c form message⟩

/-- The token tree is the same in all forms. -/
theorem tree_of_finds (htokens : c.tokens = true) (h : c.Finds form s message) :
    (c.taking form).run defaults s =
      .ok (treeReport (decodeMessage (c.options defaults) message)) := by
  obtain ⟨input, hinput, hmessage⟩ := h
  exact run_tokens (c := c.taking form) hinput htokens hmessage

/-- The entry for base64 decodes as the command does. -/
theorem decompileBase64_of_readBase64 {text : String} (h : readBase64 text = .ok message)
    (formatted hasHeader : Bool) :
    decompileBase64 formatted hasHeader text =
      decompile ⟨false, formatted, false, hasHeader⟩ message := by
  unfold decompileBase64
  cases hbytes : Base64.decode? (String.ofList (Blank.trim text.toList)) with
  | none => simp [readBase64, hbytes] at h
  | some bytes =>
    simp only [readBase64, hbytes, Except.ok.injEq] at h
    rw [← h]

theorem text_of_message_base64 {input : List UInt8}
    (h : (c.taking .base64).message input = .ok message) :
    ∃ text, ofUtf8? input = some text ∧ readBase64 text = .ok message := by
  cases htext : ofUtf8? input with
  | none => simp [DecompileCommand.message, taking, htext] at h
  | some text => exact ⟨text, rfl, by simpa [DecompileCommand.message, taking, htext] using h⟩

/-- The script, in each form. -/
theorem script_of_finds (htokens : c.tokens = false) (h : c.Finds form s message) :
    (c.taking form).run defaults s =
      .ok (.ofText (decompile (form.options (c.options defaults)) message)) := by
  obtain ⟨input, hinput, hmessage⟩ := h
  cases form with
  | raw => exact run_message (c := c.taking .raw) hinput htokens rfl hmessage
  | hex => exact run_message (c := c.taking .hex) hinput htokens rfl hmessage
  | base64 =>
    obtain ⟨text, htext, hread⟩ := text_of_message_base64 hmessage
    rw [run_base64 (c := c.taking .base64) hinput htokens rfl htext,
      decompileBase64_of_readBase64 hread]
    rfl

end DecompileCommand

/-! ## What base64 leaves out -/

namespace MessageForm

/-- A program with a note and a line feed: the label `a`, and behind it a text of two lines. -/
def loudProgram : List UInt8 := [0xab, 1, 0x61, 0x14, 0, 0, 0, 0xce, 3, 0x61, 0x0a, 0x62]

/-- The program as a message, with a header if one is expected. -/
def loudMessage (hasHeader : Bool) : List UInt8 :=
  if hasHeader then Header.write ({} : Header) ++ loudProgram else loudProgram

theorem decompile_loudMessage : ∀ comments formatted formattedStrings hasHeader : Bool,
    (comments || formattedStrings) = true →
      decompile ⟨false, formatted, false, hasHeader⟩ (loudMessage hasHeader) ≠
        decompile ⟨comments, formatted, formattedStrings, hasHeader⟩ (loudMessage hasHeader) := by
  decide +kernel

/-- A form leaves nothing out iff every message has the script that is asked for. -/
theorem decompile_options_iff (o : Options) (form : MessageForm) :
    (∀ message, decompile (form.options o) message = decompile o message) ↔
      (form = .base64 → o.comments = false ∧ o.formattedStrings = false) := by
  cases form with
  | raw | hex => simp [options]
  | base64 =>
    obtain ⟨comments, formatted, formattedStrings, hasHeader⟩ := o
    refine ⟨fun h _ => ?_, fun h message => ?_⟩
    · have hloud := decompile_loudMessage comments formatted formattedStrings hasHeader
      have hquiet := Bool.eq_false_iff.mpr fun hoption => hloud hoption (h _)
      exact Bool.or_eq_false_iff.mp hquiet
    · obtain ⟨hcomments, hstrings⟩ := h rfl
      cases hcomments
      cases hstrings
      rfl

end MessageForm

theorem Report.line_injective : Function.Injective Report.line := by
  intro a b h
  have houtput := congrArg (fun r => r.output.toList) h
  simp only [Report.line, String.toList_append, List.append_left_inj] at houtput
  exact String.toList_injective houtput

/-- A panic is told apart from every text. -/
theorem Report.ofText_injective : Function.Injective Report.ofText := by
  have hexit : (0 : UInt8) ≠ 101 := by decide
  have hline : ∀ text, Report.line text ≠ Report.panicked :=
    fun text h => hexit (congrArg Report.exit h)
  intro a b h
  cases a with
  | none =>
    cases b with
    | none => rfl
    | some text => exact absurd h.symm (hline text)
  | some text =>
    cases b with
    | none => exact absurd h (hline text)
    | some text' => exact congrArg some (Report.line_injective h)

/-- Surroundings where everything that can be read is the same. -/
def Surroundings.holding (input : List UInt8) : Surroundings := ⟨input, fun _ => some input⟩

namespace DecompileCommand

theorem readInput_holding (c : DecompileCommand) (input : List UInt8) :
    c.readInput (.holding input) = .ok input := by
  unfold readInput
  split
  · rfl
  · rfl

theorem finds_holding (c : DecompileCommand) (form : MessageForm) (message : List UInt8) :
    c.Finds form (.holding (form.write message)) message :=
  finds_of_readInput (c.readInput_holding _)

theorem options_comments_iff (c : DecompileCommand) (defaults : Options) :
    (c.options defaults).comments = false ↔ (defaults.comments = true → c.noComments = true) := by
  unfold options
  cases defaults.comments <;> simp

theorem options_formattedStrings_iff (c : DecompileCommand) (defaults : Options) :
    (c.options defaults).formattedStrings = false ↔
      defaults.formattedStrings = false ∧ c.formattedStrings = false :=
  Bool.or_eq_false_iff

/-- What is printed of a message that is given in a form; and when that is, for every message, what
is printed of the message itself: always in hex, and in base64 iff neither notes nor literal line
feeds are asked for. -/
theorem forms_alike_iff (c : DecompileCommand) (defaults : Options) (form : MessageForm)
    (htokens : c.tokens = false) :
    (∀ s message, c.readInput s = .ok (form.write message) → c.Finds form s message) ∧
      (∀ s message, c.Finds form s message → (c.taking form).run defaults s =
        .ok (.ofText (decompile (form.options (c.options defaults)) message))) ∧
      ((∀ s t message, c.Finds .raw s message → c.Finds form t message →
          (c.taking form).run defaults t = (c.taking .raw).run defaults s) ↔
        (form = .base64 → (defaults.comments = true → c.noComments = true) ∧
          defaults.formattedStrings = false ∧ c.formattedStrings = false)) := by
  refine ⟨fun s message => finds_of_readInput, fun s message => script_of_finds htokens, ?_⟩
  rw [← options_comments_iff, ← options_formattedStrings_iff,
    ← MessageForm.decompile_options_iff (c.options defaults) form]
  constructor
  · intro halike message
    have hruns := halike _ _ message (c.finds_holding .raw message) (c.finds_holding form message)
    rw [script_of_finds htokens (c.finds_holding .raw message),
      script_of_finds htokens (c.finds_holding form message)] at hruns
    exact Report.ofText_injective (Except.ok.inj hruns)
  · intro hscripts s t message hraw hform
    rw [script_of_finds htokens hraw, script_of_finds htokens hform, hscripts message]
    rfl

/-- With notes turned off, a text of two lines is printed alike as it is and in base64. -/
theorem forms_alike_without_comments :
    let c : DecompileCommand := {
      input := "-", base64 := false, hex := false, noHeader := true, formatted := false,
      formattedStrings := false, noComments := true, tokens := false }
    c.tokens = false ∧
      (c.taking .base64).run {} (.holding (utf8 "zgNhCmI=")) =
        (c.taking .raw).run {} (.holding [0xce, 3, 0x61, 0x0a, 0x62]) := by
  intro c
  have hraw : c.Finds .raw (.holding [0xce, 3, 0x61, 0x0a, 0x62]) [0xce, 3, 0x61, 0x0a, 0x62] :=
    c.finds_holding .raw _
  have htext : Base64.encode [0xce, 3, 0x61, 0x0a, 0x62] = "zgNhCmI=" := by decide +kernel
  have hbase64 : c.Finds .base64 (.holding (utf8 "zgNhCmI=")) [0xce, 3, 0x61, 0x0a, 0x62] := by
    rw [← htext]
    exact c.finds_holding .base64 _
  have halike := (forms_alike_iff c {} .base64 rfl).2.2.mpr fun _ => ⟨fun _ => rfl, rfl, rfl⟩
  exact ⟨rfl, halike _ _ _ hraw hbase64⟩

end DecompileCommand

/-- Line feeds that are to stand for themselves do so in the script of a message that is given as it
is or in hex, but not of the same message in base64. -/
theorem line_feed_in_base64 :
    run ["decompile", "--no-header", "--formatted-strings"]
        (.holding [0xce, 3, 0x61, 0x0a, 0x62]) = ⟨0, "\"a\nb\"\n", ""⟩ ∧
      run ["decompile", "--no-header", "--formatted-strings", "--hex"]
        (.holding (utf8 "ce03610a62")) = ⟨0, "\"a\nb\"\n", ""⟩ ∧
      run ["decompile", "--no-header", "--formatted-strings", "--base64"]
        (.holding (utf8 "zgNhCmI=")) = ⟨0, "\"a\\nb\"\n", ""⟩ := by
  decide +kernel

end CommandLine

end Dxb
