import Dxb.Program.Literal
import Dxb.Header
import Dxb.Proofs.Bytes.Locality

/-!
# Records that say themselves where they end

A reader is delimited when the bytes that it takes decide everything: in front of any other bytes
it takes them in the same way, and of less than all of them it makes nothing, but fails for want of
input (`Reader.Delimited`).  Readers stay so when one follows the other (`Delimited.bind`), since
what is cut short is cut short within the first part or within the second one.  All records are read
in this way, so none that was cut short is ever taken for another one (`records_self_delimiting`).
-/

namespace Dxb

namespace Reader

variable {α β : Type}

/-- A reader decides by the bytes that it takes, and needs all of them. -/
structure Delimited (r : Reader α) : Prop where
  stays : r.Local
  truncated : ∀ (taken rest : List UInt8) (o o' : Nat) (a : α),
    r.run ⟨taken ++ rest, o⟩ = (.ok a, ⟨rest, o'⟩) →
      ∀ short, short <+: taken → short ≠ taken →
        ∃ e needed d, r.run ⟨short, o⟩ = (.error (.unexpectedEof e needed), d)

/-! ## Combinators -/

/-- Nothing is cut short where nothing is taken. -/
theorem Delimited.of_takes_nothing {r : Reader α} (h : r.Local)
    (hnone : ∀ c a d, r.run c = (.ok a, d) → d = c) : r.Delimited where
  stays := h
  truncated taken rest o o' a hok short hbegins hne := by
    obtain ⟨hrest, -⟩ := Cursor.mk.inj (hnone _ _ _ hok)
    have htaken : taken = [] := by simpa using hrest
    rw [htaken] at hbegins hne
    exact absurd (List.prefix_nil.1 hbegins) hne

theorem delimited_pure (a : α) : (pure a : Reader α).Delimited :=
  .of_takes_nothing (local_pure a) fun _ _ _ h => (Prod.mk.inj h).2.symm

theorem delimited_fail (e : DecodeError) : (fail e : Reader α).Delimited :=
  .of_takes_nothing (local_fail e) nofun

theorem delimited_position : position.Delimited :=
  .of_takes_nothing local_position fun _ _ _ h => (Prod.mk.inj h).2.symm

namespace Delimited

variable {r : Reader α}

theorem bind {f : α → Reader β} (hr : r.Delimited) (hf : ∀ a, (f a).Delimited) :
    (r >>= f).Delimited where
  stays := hr.stays.bind fun a => (hf a).stays
  truncated taken rest o o' b hok short hbegins hne := by
    obtain ⟨a, first, second, mid, rfl, hfirst, hsecond⟩ := exists_parts_of_bind hok
    rw [run_bind]
    by_cases hlt : short.length < first.length
    · -- the first part is cut short
      have hpart : short <+: first :=
        List.prefix_of_prefix_length_le hbegins (List.prefix_append first second)
          (Nat.le_of_lt hlt)
      have hless : short ≠ first := fun heq => absurd (heq ▸ hlt) (Nat.lt_irrefl _)
      obtain ⟨e, needed, d, hshort⟩ := hr.truncated _ _ _ _ _ hfirst short hpart hless
      exact ⟨e, needed, d, by rw [hshort]⟩
    · -- the first part is there, so the second one is cut short
      obtain ⟨more, rfl⟩ : first <+: short :=
        List.prefix_of_prefix_length_le (List.prefix_append first second) hbegins
          (Nat.le_of_not_lt hlt)
      have hpart : more <+: second := (List.prefix_append_right_inj first).1 hbegins
      have hless : more ≠ second := fun heq => hne (congrArg (first ++ ·) heq)
      rw [hr.stays _ _ _ _ _ hfirst more]
      exact (hf a).truncated _ _ _ _ _ hsecond more hpart hless

theorem map (hr : r.Delimited) (f : α → β) : (f <$> r).Delimited :=
  hr.bind fun a => delimited_pure (f a)

theorem atomic (hr : r.Delimited) : r.atomic.Delimited where
  stays := hr.stays.atomic
  truncated taken rest o o' a hok short hbegins hne := by
    simp only [Reader.atomic] at hok ⊢
    split at hok
    · rename_i b d hb
      cases hok
      obtain ⟨e, needed, d, hshort⟩ := hr.truncated _ _ _ _ _ hb short hbegins hne
      rw [hshort]
      exact ⟨e, needed, _, rfl⟩
    · cases hok

theorem repeated (hr : r.Delimited) (n : Nat) : (r.repeated n).Delimited := by
  induction n with
  | zero => exact delimited_pure []
  | succ n ih => exact hr.bind fun a => ih.bind fun rest => delimited_pure (a :: rest)

theorem ite {c : Prop} [Decidable c] {s : Reader α} (hr : r.Delimited) (hs : s.Delimited) :
    (if c then r else s).Delimited := by
  split
  · exact hr
  · exact hs

end Delimited

/-! ## Fields -/

theorem delimited_bytes (n : Nat) : (bytes n).Delimited where
  stays := local_bytes n
  truncated taken rest o o' a hok short hbegins hne := by
    have hlen : taken.length = n := length_of_bytes hok
    have hshort : short.length < n := by
      rcases Nat.lt_or_ge short.length n with hlt | hge
      · exact hlt
      · exact absurd (hbegins.eq_of_length_le (by omega)) hne
    have htake : short.take n = short := List.take_of_length_le (Nat.le_of_lt hshort)
    refine ⟨o, n - short.length, ⟨short, o⟩, ?_⟩
    simp only [Reader.bytes, htake, if_pos hshort]

theorem delimited_number (width : Nat) : (number width).Delimited :=
  (delimited_bytes width).map ofLittleEndian

theorem delimited_uint8 : uint8.Delimited := (delimited_number 1).map UInt8.ofNat

theorem delimited_uint16 : uint16.Delimited := (delimited_number 2).map UInt16.ofNat

theorem delimited_uint32 : uint32.Delimited := (delimited_number 4).map UInt32.ofNat

theorem delimited_uint64 : uint64.Delimited := (delimited_number 8).map UInt64.ofNat

theorem delimited_padding (n : Nat) : (padding n).Delimited := (delimited_bytes n).map fun _ => ()

/-- Bytes that are no text are refused only when all of them are there. -/
theorem delimited_text (n : Nat) : (text n).Delimited := by
  refine (delimited_position.bind fun start => (delimited_bytes n).bind fun read => ?_).atomic
  split
  · exact delimited_pure _
  · exact delimited_fail _

end Reader

open Reader

/-! ## Records -/

theorem VariableName.delimited_read : VariableName.read.Delimited :=
  (delimited_number 1).bind fun length =>
    .ite (delimited_uint16.map _) ((delimited_text length).map _)

theorem TypeName.delimited_read (extended : Bool) :
    (TypeName.read extended).Delimited := by
  have names : ∀ (space name variation : Nat) (parameters : Bool), Reader.Delimited do
      let space ← Reader.text space
      let name ← Reader.text name
      let variation ← Reader.text variation
      return (⟨space, name, variation, parameters⟩ : TypeName) :=
    fun space name variation _ => (delimited_text space).bind fun _ =>
      (delimited_text name).bind fun _ => (delimited_text variation).bind fun _ =>
        delimited_pure _
  refine (delimited_number 1).bind fun space => (delimited_number 1).bind fun name => .ite ?_ ?_
  · exact (delimited_number 1).bind fun variation => delimited_uint8.bind fun parameters =>
      (delimited_pure _).bind fun _ => names space name _ _
  · exact (delimited_pure _).bind fun _ => names space name _ _

theorem RecordInstance.delimited_read (length : Nat) :
    (RecordInstance.read length).Delimited :=
  .ite (delimited_pure _) (.ite (delimited_pure _) ((delimited_text length).map _))

theorem EndpointRecord.delimited_read : EndpointRecord.read.Delimited := by
  have subspace : EndpointRecord.readSubspace.Delimited := (delimited_number 1).bind delimited_text
  exact (delimited_number 1).bind fun name => (delimited_number 1).bind fun count =>
    (delimited_number 1).bind fun inst => (delimited_bytes name).bind fun _ =>
      (subspace.repeated count).bind fun _ => (RecordInstance.delimited_read inst).bind fun _ =>
        delimited_pure _

theorem QuantityRecord.delimited_read : QuantityRecord.read.Delimited := by
  have factor : QuantityRecord.readFactor.Delimited :=
    delimited_uint8.bind fun _ => (delimited_uint8.map _).bind fun _ => delimited_pure _
  exact delimited_uint8.bind fun _ => (delimited_number 2).bind fun numerator =>
    (delimited_number 2).bind fun denominator => (delimited_bytes numerator).bind fun _ =>
      (delimited_bytes denominator).bind fun _ => (delimited_number 1).bind fun count =>
        (factor.repeated count).bind fun _ => delimited_pure _

/-! ## Headers -/

namespace Header

variable {α : Type}

theorem delimited_invalid : (invalid : Reader α).Delimited :=
  delimited_position.bind fun _ => delimited_fail _

theorem delimited_orInvalid (o : Option α) : (orInvalid o).Delimited := by
  cases o with
  | some a => exact delimited_pure a
  | none => exact delimited_invalid

theorem delimited_skipSubspace : skipSubspace.Delimited :=
  (delimited_number 1).bind fun length =>
    .ite delimited_invalid ((delimited_text length).map fun _ => ())

theorem delimited_readSenderKind : readSenderKind.Delimited := by
  refine delimited_uint8.bind fun byte => .ite (delimited_pure _) ?_
  split
  · exact delimited_pure _
  · exact delimited_invalid

theorem delimited_readSenderName (kind : EndpointKind) (lengths : SenderLengths) :
    (readSenderName kind lengths).Delimited := by
  have judged : ∀ (name : List UInt8) (inst : InstanceRef),
      (orInvalid (Endpoint.ofBytes? kind name inst).toOption).Delimited :=
    fun _ _ => delimited_orInvalid _
  refine .ite delimited_invalid ((delimited_bytes lengths.name).bind fun name => ?_)
  refine (delimited_skipSubspace.repeated lengths.subspaces).bind fun _ => .ite ?_ ?_
  · exact (delimited_pure _).bind fun inst => judged name inst
  · exact ((delimited_text lengths.inst).map _).bind fun inst => judged name inst

theorem delimited_skipAppspace : skipAppspace.Delimited := by
  refine delimited_readSenderKind.bind fun kind => ?_
  cases kind with
  | none => exact delimited_pure ()
  | some kind =>
    exact (delimited_number 1).bind fun _ => (delimited_number 1).bind fun _ =>
      (delimited_number 1).bind fun _ => (delimited_readSenderName kind _).map fun _ => ()

theorem delimited_readSender : readSender.Delimited := by
  refine delimited_readSenderKind.bind fun kind => ?_
  cases kind with
  | none => exact delimited_pure none
  | some kind =>
    exact (delimited_number 1).bind fun _ => (delimited_number 1).bind fun _ =>
      (delimited_number 1).bind fun _ => delimited_uint8.bind fun _ =>
        (delimited_readSenderName kind _).bind fun _ =>
          .ite (delimited_skipAppspace.bind fun _ => delimited_pure _) (delimited_pure _)

theorem delimited_readReceivers : readReceivers.Delimited :=
  (delimited_number 2).bind fun length =>
    .ite (delimited_pure _) ((delimited_bytes length).bind fun _ => delimited_pure _)

theorem delimited_read : read.Delimited := by
  refine (delimited_bytes 2).bind fun start => .ite delimited_invalid ?_
  refine delimited_uint8.bind fun version => delimited_uint16.bind fun blockSize => ?_
  refine delimited_uint8.bind fun ttl => delimited_uint8.bind fun priority => ?_
  refine delimited_uint8.bind fun securityByte => ?_
  refine (delimited_orInvalid _).bind fun security => ?_
  refine delimited_readSender.bind fun sender => ?_
  refine delimited_readReceivers.bind fun receivers => ?_
  -- what stands behind the signature, which may be left out
  have behind : ∀ f : Unit → Reader Header, (f ()).Delimited →
      (if security.isSigned then Reader.padding signatureSize >>= f else f ()).Delimited :=
    fun f hf => .ite ((delimited_padding _).bind fun _ => hf) hf
  refine behind _ ?_
  refine delimited_uint32.bind fun scopeId => delimited_uint16.bind fun returnIndex => ?_
  refine delimited_uint16.bind fun increment => delimited_uint8.bind fun typeByte => ?_
  refine (delimited_orInvalid _).bind fun blockType => ?_
  refine delimited_uint8.bind fun flags => delimited_uint64.bind fun since => ?_
  refine (delimited_orInvalid _).bind fun timestamp => ?_
  exact .ite ((delimited_padding _).bind fun _ => delimited_pure _) (delimited_pure _)

/-- A message that is accepted begins with its header, which any other body may follow; a message
that ends within that header is refused. -/
theorem strip_stays {t : Interning} {message body : List UInt8} {h : HeldHeader}
    (hok : (strip t message).1 = .ok (h, body)) :
    ∃ taken, message = taken ++ body ∧
      (∀ body', strip t (taken ++ body') = (.ok (h, body'), (strip t message).2)) ∧
      ∀ short, short <+: taken → short ≠ taken →
        ∃ o, strip t short = (.error (.invalidHeader o), t) := by
  have hstrip : ∀ (bytes rest : List UInt8) (header : Header) (o : Nat),
      read.run (.ofBytes bytes) = (.ok header, ⟨rest, o⟩) →
        strip t bytes = (.ok ((adopt t header).1, rest), (adopt t header).2) := by
    intro bytes rest header o hread
    unfold strip
    rw [hread]
  cases hread : read.run (.ofBytes message) with
  | mk result rest =>
    cases result with
    | error e =>
      unfold strip at hok
      rw [hread] at hok
      cases hok
    | ok header =>
      obtain ⟨rest, o⟩ := rest
      have hmessage := hstrip _ _ _ _ hread
      rw [hmessage] at hok ⊢
      obtain ⟨rfl, rfl⟩ := Prod.mk.inj (Except.ok.inj hok)
      obtain ⟨taken, rfl, -⟩ := Reader.exists_taken hread
      refine ⟨taken, rfl, fun body' => ?_, fun short hbegins hne => ?_⟩
      · exact hstrip _ _ _ _ (delimited_read.stays _ _ _ _ _ hread body')
      · obtain ⟨e, needed, stopped, hshort⟩ :=
          delimited_read.truncated _ _ _ _ _ hread short hbegins hne
        refine ⟨stopped.offset, ?_⟩
        unfold strip Cursor.ofBytes
        rw [hshort]

end Header

/-! ## All of them -/

/-- Reads the record behind an opcode, and takes a handle to the target that it describes. -/
def Interning.decode (t : Interning) (opcode : Opcode) :
    Reader (Except EndpointError (Handle × Interning)) :=
  (fun record => (record.target? opcode).map t.acquireTarget) <$> EndpointRecord.read

/-- Headers, quantities, endpoints, pointers, variables and types end where they say.  With a value
or an error about a value, they end in the same way in front of any other bytes, and fail for want
of input when they are cut short; for a header that is an invalid header. -/
theorem records_self_delimiting :
    (∀ (t : Interning) (message body : List UInt8) (h : HeldHeader),
      (Header.strip t message).1 = .ok (h, body) →
        ∃ taken, message = taken ++ body ∧
          (∀ body', Header.strip t (taken ++ body') =
            (.ok (h, body'), (Header.strip t message).2)) ∧
          ∀ short, short <+: taken → short ≠ taken →
            ∃ o, Header.strip t short = (.error (.invalidHeader o), t)) ∧
    Quantity.decode.Delimited ∧
    (∀ (t : Interning) (opcode : Opcode), (t.decode opcode).Delimited) ∧
    (Literal.pointer <$> Reader.bytes pointerSize).Delimited ∧
    (∀ sigil, (Literal.variableName sigil <$> VariableName.read).Delimited) ∧
    ∀ extended, ((fun t => (Literal.typeName t, t.parameters)) <$>
      TypeName.read extended).Delimited := by
  refine ⟨fun t message body h hok => Header.strip_stays hok, ?_, ?_, ?_, ?_, ?_⟩
  · exact QuantityRecord.delimited_read.map _
  · exact fun t opcode => EndpointRecord.delimited_read.map _
  · exact (delimited_bytes pointerSize).map _
  · exact fun sigil => VariableName.delimited_read.map _
  · exact fun extended => (TypeName.delimited_read extended).map _

/-- A signed message from `@ann`, with the appspace `@c`. -/
def signedByAnn : List UInt8 :=
  [0x01, 0x64, 1, 0, 0, 64, 0, 1, 0xcf, 3, 1, 255, 1] ++ utf8 "ann" ++ [1] ++ utf8 "a" ++
    [0xcf, 1, 0, 255] ++ utf8 "c" ++ [0, 0] ++ List.replicate 96 7 ++ List.replicate 18 0

/-- Every message that begins with less than this header is refused. -/
theorem records_self_delimiting_signed :
    ∃ h : HeldHeader,
      (Header.strip .empty (signedByAnn ++ [0xc9])).1 = .ok (h, [0xc9]) ∧
      (∀ body, (Header.strip .empty (signedByAnn ++ body)).1 = .ok (h, body)) ∧
      ∀ n < signedByAnn.length, ∃ o,
        Header.strip .empty (signedByAnn.take n) = (.error (.invalidHeader o), .empty) := by
  have hbody : (Header.strip .empty (signedByAnn ++ [0xc9])).1.toOption.map (·.2) =
      some [0xc9] := by decide +kernel
  cases hok : (Header.strip .empty (signedByAnn ++ [0xc9])).1 with
  | error e =>
    rw [hok] at hbody
    cases hbody
  | ok stripped =>
    obtain ⟨h, body⟩ := stripped
    rw [hok] at hbody
    cases hbody
    obtain ⟨taken, hmessage, hstays, hcut⟩ := records_self_delimiting.1 .empty _ _ h hok
    have htaken : signedByAnn = taken := List.append_cancel_right hmessage
    subst htaken
    refine ⟨h, rfl, fun body => by rw [hstays], fun n hn => ?_⟩
    refine hcut _ (List.take_prefix n _) fun hall => ?_
    have hlength := congrArg List.length hall
    rw [List.length_take] at hlength
    omega

end Dxb
