import Mathlib.Algebra.Group.Defs
import Dxb.Proofs.Bytes.Records
import Dxb.Proofs.Program.Nesting
import Dxb.Proofs.Quantity.Halved

/-!
# The layout of instructions

`i.Layout bytes` says that an instruction is laid out as these bytes: its opcode and then its
operands, each with its lengths in front.  A layout says nothing about the values: an endpoint with
a bad name, a quantity over zero and a nested program that fails are laid out like any other.

An instruction that is laid out is read from exactly its bytes (`Instruction.Layout.takes`), so a
step takes exactly these unless it meets one of three obstacles (`DecodeContext.step_of_obstacle`).
-/

namespace Dxb

open Reader (takes_pure takes_bytes takes_text takes_number takes_length takes_uint8 takes_position)

/-! ## Names -/

namespace VariableName

/-- A text that is empty would be taken for a number. -/
def Fits : VariableName → Prop
  | text s => 0 < (utf8 s).length ∧ (utf8 s).length < 256
  | number _ => True

theorem takes (v : VariableName) (h : v.Fits) : read.Takes v.write v := by
  cases v with
  | text s =>
    obtain ⟨hpos, hlt⟩ := h
    refine (takes_length hlt).bind ?_
    rw [if_neg (Nat.ne_of_gt hpos)]
    exact (takes_text s).map text
  | number n =>
    have hzero : (Reader.number 1).Takes [0] 0 := takes_length (n := 0) (by decide)
    exact hzero.bind ((Field.takes .uint16 n trivial).map number)

end VariableName

namespace TypeName

structure Fits (extended : Bool) (t : TypeName) : Prop where
  space : (utf8 t.space).length < 256
  name : (utf8 t.name).length < 256
  variation : (utf8 t.variation).length < 256
  /-- A reference that is not extended has no place for these. -/
  plain : extended = false → t.variation = "" ∧ t.parameters = false

/-- Any byte but zero announces parameters. -/
theorem takes {extended : Bool} {t : TypeName} (h : t.Fits extended) {flag : UInt8}
    (hflag : (flag != 0) = t.parameters) :
    (read extended).Takes (t.writeFlagged extended flag) t := by
  obtain ⟨space, name, variation, parameters⟩ := t
  simp only [writeFlagged, List.append_assoc]
  refine (takes_length h.space).bind ((takes_length h.name).bind ?_)
  have htexts : ∀ variation : String, (do
      let space ← Reader.text (utf8 space).length
      let name ← Reader.text (utf8 name).length
      let variation ← Reader.text (utf8 variation).length
      pure (⟨space, name, variation, parameters⟩ : TypeName)).Takes
        (utf8 space ++ (utf8 name ++ utf8 variation)) ⟨space, name, variation, parameters⟩ := by
    intro variation
    exact (takes_text space).bind ((takes_text name).bind ((takes_text variation).finish
      (takes_pure _)))
  cases extended with
  | true =>
    simp only [if_true, List.append_assoc]
    refine (takes_length h.variation).bind ((takes_uint8 flag).bind ?_)
    rw [hflag]
    exact (takes_pure ((utf8 variation).length, parameters)).bind (htexts variation)
  | false =>
    obtain ⟨rfl, rfl⟩ := h.plain rfl
    exact (takes_pure (0, false)).bind (htexts "")

end TypeName

/-! ## Operands -/

namespace Operand

/-- The values whose lengths an operand can write down. -/
def Fits : (o : Operand) → o.Value → Prop
  | field f, x => f.Fits x
  | variableName, (x : VariableName) => x.Fits
  | typeName extended, (x : TypeName) => x.Fits extended
  | endpoint, (x : EndpointRecord) => x.Fits
  | quantity, (x : QuantityRecord) => x.Fits
  | program, (x : List UInt8) => x.length < 2 ^ 32

/-- The bytes that an operand may be laid out as; only the announcement of parameters leaves a
choice. -/
def Layout : (o : Operand) → o.Value → List UInt8 → Prop
  | typeName extended, (t : TypeName), bytes =>
    t.Fits extended ∧ ∃ flag : UInt8, (flag != 0) = t.parameters ∧
      bytes = t.writeFlagged extended flag
  | o, x, bytes => o.Fits x ∧ bytes = o.write x

theorem layout_write (o : Operand) (x : o.Value) (h : o.Fits x) : o.Layout x (o.write x) := by
  cases o with
  | typeName extended =>
    obtain ⟨space, name, variation, parameters⟩ := x
    refine ⟨h, _, ?_, rfl⟩
    cases parameters <;> rfl
  | _ => exact ⟨h, rfl⟩

theorem takes_program {body : List UInt8} (h : body.length < 2 ^ 32) :
    readProgram.Takes (littleEndian 4 body.length ++ body) body :=
  (takes_number h).bind (takes_position fun _ => (takes_bytes body).withFault _)

theorem Layout.takes {o : Operand} {x : o.Value} {bytes : List UInt8} (h : o.Layout x bytes) :
    o.read.Takes bytes x := by
  cases o with
  | field f =>
    obtain ⟨hfits, rfl⟩ := h
    exact Field.takes f x hfits
  | variableName =>
    obtain ⟨hfits, rfl⟩ := h
    exact VariableName.takes x hfits
  | typeName extended =>
    obtain ⟨hfits, flag, hflag, rfl⟩ := h
    exact TypeName.takes hfits hflag
  | endpoint =>
    obtain ⟨hfits, rfl⟩ := h
    exact EndpointRecord.takes x hfits
  | quantity =>
    obtain ⟨hfits, rfl⟩ := h
    exact QuantityRecord.takes x hfits
  | program =>
    obtain ⟨hfits, rfl⟩ := h
    exact takes_program hfits

end Operand

namespace Operands

def Fits : (os : List Operand) → Operands os → Prop
  | [], () => True
  | o :: os, (x, xs) => o.Fits x ∧ Fits os xs

def Layout : (os : List Operand) → Operands os → List UInt8 → Prop
  | [], (), bytes => bytes = []
  | o :: os, (x, xs), bytes => ∃ first rest, bytes = first ++ rest ∧ o.Layout x first ∧
    Layout os xs rest

theorem layout_write (os : List Operand) (xs : Operands os) (h : Fits os xs) :
    Layout os xs (write os xs) := by
  induction os with
  | nil => exact rfl
  | cons o os ih =>
    obtain ⟨x, xs⟩ := xs
    exact ⟨o.write x, write os xs, rfl, o.layout_write x h.1, ih xs h.2⟩

theorem Layout.takes {os : List Operand} {xs : Operands os} {bytes : List UInt8}
    (h : Layout os xs bytes) : (read os).Takes bytes xs := by
  induction os generalizing bytes with
  | nil =>
    have hnil : bytes = [] := h
    rw [hnil]
    exact takes_pure ()
  | cons o os ih =>
    obtain ⟨x, xs⟩ := xs
    obtain ⟨first, rest, rfl, hx, hxs⟩ := h
    exact hx.takes.bind ((ih hxs).finish (takes_pure (x, xs)))

end Operands

/-! ## Instructions -/

namespace Instruction

def Layout : Instruction → List UInt8 → Prop
  | unassigned byte, bytes => Opcode.ofByte? byte = none ∧ bytes = [byte]
  | assigned op operands, bytes => ∃ rest, bytes = op.byte :: rest ∧
    Operands.Layout op.operands operands rest

/-- The instructions that can be written down. -/
def Fits : Instruction → Prop
  | unassigned byte => Opcode.ofByte? byte = none
  | assigned op operands => Operands.Fits op.operands operands

theorem layout_write (i : Instruction) (h : i.Fits) : i.Layout i.write := by
  cases i with
  | unassigned byte => exact ⟨h, rfl⟩
  | assigned op operands => exact ⟨_, rfl, Operands.layout_write op.operands operands h⟩

/-- With room for what it opens, an instruction is read from exactly its bytes. -/
theorem Layout.takes {i : Instruction} {bytes : List UInt8} (h : i.Layout bytes) {room : Bool}
    (hroom : i.nests = true → room = true) : (read room).Takes bytes i := by
  refine takes_position fun start => ?_
  cases i with
  | unassigned byte =>
    obtain ⟨hbyte, rfl⟩ := h
    refine (takes_uint8 byte).finish ?_
    unfold readRest
    rw [hbyte]
    exact takes_pure _
  | assigned op operands =>
    obtain ⟨rest, rfl, hrest⟩ := h
    have hnest : (op.nests && !room) = false := by
      cases hn : op.nests with
      | false => rfl
      | true =>
        rw [hroom hn]
        rfl
    refine Reader.Takes.bind (takes_uint8 op.byte) ?_
    unfold readRest
    rw [Opcode.ofByte?_byte]
    dsimp only
    rw [hnest]
    exact hrest.takes.finish (takes_pure _)

/-- Without room an instruction that nests is refused at its first byte, whatever its operands. -/
theorem Layout.read_too_deep {i : Instruction} {bytes : List UInt8} (h : i.Layout bytes)
    (hn : i.nests = true) (rest : List UInt8) (o : Nat) :
    ((read false).run ⟨bytes ++ rest, o⟩).1 = .error (.tooDeep o maxDepth) := by
  cases i with
  | unassigned byte => cases hn
  | assigned op operands =>
    have hnest : op.nests = true := hn
    obtain ⟨operandBytes, rfl, -⟩ := h
    have hbyte := takes_uint8 op.byte (operandBytes ++ rest) o
    simp only [List.singleton_append] at hbyte
    simp [read, readRest, Reader.run_bind, hbyte, Opcode.ofByte?_byte, hnest]

end Instruction

/-! ## A quantity that panics -/

namespace Instruction

/-- The instruction of a quantity that is halved as often as needs `k` bytes of zeros. -/
def halved (k : Nat) : Instruction := assigned .quantity (.halved k, ())

variable {k : Nat}

theorem fits_halved (h : k + 1 ≤ Quantity.maxMagnitudeBytes) : (halved k).Fits :=
  ⟨QuantityRecord.fits_halved h, trivial⟩

theorem panics_halved (h : k + 1 ≤ Quantity.maxMagnitudeBytes) (hlong : Ratio.maxWidth ≤ 8 * k + 7)
    (nested : List UInt8 → Option String) : (halved k).Panics nested := by
  refine .quantity (QuantityRecord.quantity?_halved h) (Quantity.text?_halved ?_)
  exact Nat.lt_of_lt_of_le (by decide) hlong

end Instruction

/-! ## Steps -/

namespace DecodeContext

variable (ctx : DecodeContext)

/-- Why an instruction that is laid out cannot be applied: no level is left for what it opens, no
scope is open that it could close, or what it stands for cannot be written. -/
def obstacle? (s : DecoderState) (i : Instruction) (start : Nat) : Option Halt :=
  if i.nests = true ∧ ctx.levels ≤ s.depth then
    some (.fault (.tooDeep start Instruction.maxDepth))
  else if i.closes = true ∧ s.openScopes = [] then some (.fault (.noParentScope start))
  else if ctx.effect s.depth i = .panics then some .panic
  else none

/-- What stands in the way of an effect, said of the instruction. -/
theorem halt?_effect (s : DecoderState) (i : Instruction) (start : Nat) :
    s.halt? start (ctx.effect s.depth i) =
      if i.closes = true ∧ s.openScopes = [] then some (.fault (.noParentScope start))
      else if ctx.effect s.depth i = .panics then some .panic
      else none := by
  have hcloses : i.closes = true ↔ ctx.effect s.depth i = .closes :=
    (i.effect_eq_closes_iff _ _).symm
  simp only [hcloses]
  cases ctx.effect s.depth i <;> simp [DecoderState.halt?]

theorem obstacle?_of_room {s : DecoderState} {i : Instruction} (start : Nat)
    (hroom : i.nests = true → s.depth < ctx.levels) :
    ctx.obstacle? s i start = s.halt? start (ctx.effect s.depth i) := by
  rw [halt?_effect, obstacle?, if_neg fun h => Nat.not_le_of_lt (hroom h.1) h.2]

/-- Any other answer than the first obstacle says that there is room. -/
theorem room_of_obstacle? {s : DecoderState} {i : Instruction} {start : Nat}
    (h : ctx.obstacle? s i start ≠ some (.fault (.tooDeep start Instruction.maxDepth)))
    (hn : i.nests = true) : s.depth < ctx.levels :=
  Nat.lt_of_not_le fun hle => h (if_pos ⟨hn, hle⟩)

theorem obstacle?_eq_none_iff {s : DecoderState} {i : Instruction} {start : Nat} :
    ctx.obstacle? s i start = none ↔ (i.nests = true → s.depth < ctx.levels) ∧
      s.halt? start (ctx.effect s.depth i) = none := by
  constructor
  · intro h
    have hroom : i.nests = true → s.depth < ctx.levels := ctx.room_of_obstacle? (by rw [h]; nofun)
    exact ⟨hroom, ctx.obstacle?_of_room start hroom ▸ h⟩
  · rintro ⟨hroom, hhalt⟩
    rw [ctx.obstacle?_of_room start hroom, hhalt]

/-- The last obstacle is a quantity or a nested program that cannot be written. -/
theorem obstacle?_eq_panic_iff {s : DecoderState} {i : Instruction} {start : Nat} :
    ctx.obstacle? s i start = some .panic ↔ (i.nests = true → s.depth < ctx.levels) ∧
      i.Panics (ctx.nested (ctx.levels - s.depth - 1)) := by
  constructor
  · intro h
    have hroom : i.nests = true → s.depth < ctx.levels := ctx.room_of_obstacle? (by rw [h]; nofun)
    rw [ctx.obstacle?_of_room start hroom, DecoderState.halt?_eq_panic_iff] at h
    exact ⟨hroom, (i.effect_eq_panics_iff _ _).1 h⟩
  · rintro ⟨hroom, hpanics⟩
    rw [ctx.obstacle?_of_room start hroom, DecoderState.halt?_eq_panic_iff]
    exact (i.effect_eq_panics_iff _ _).2 hpanics

/-- A step that meets an obstacle ends there; an error says where the instruction begins. -/
theorem step_of_obstacle {i : Instruction} {bytes : List UInt8} (h : i.Layout bytes)
    {s : DecoderState} {o : Nat} {e : Halt} (he : ctx.obstacle? s i o = some e)
    (rest : List UInt8) : ctx.step s ⟨bytes ++ rest, o⟩ = (s, .error e) := by
  refine step_eq_error_iff.2 ⟨rfl, ?_⟩
  by_cases hdeep : i.nests = true ∧ ctx.levels ≤ s.depth
  · rw [obstacle?, if_pos hdeep] at he
    cases he
    have hread := h.read_too_deep hdeep.1 rest o
    rw [decide_eq_false (Nat.not_lt_of_le hdeep.2)]
    exact .inl ⟨_, _, Prod.ext hread rfl, rfl⟩
  · have hroom : i.nests = true → s.depth < ctx.levels :=
      fun hn => Nat.lt_of_not_le fun hle => hdeep ⟨hn, hle⟩
    rw [ctx.obstacle?_of_room o hroom] at he
    exact .inr ⟨i, _, h.takes (fun hn => decide_eq_true (hroom hn)) rest o, he⟩

end DecodeContext

end Dxb
