import Dxb.Proofs.Program.Layout
import Dxb.Proofs.Program.Trace

/-!
# Instructions one after the other

Instructions that are laid out one after the other are taken one by one, each step from the first
byte of an instruction to the first byte of the next (`exists_trace_stream`).  Decoding comes to
their end, or stops at the first byte of the first one that meets an obstacle; nothing else goes
wrong (`run_stream`).  One of the obstacles is a panic, where a quantity cannot be written
(`panic_in_stream`).
-/

namespace Dxb

/-- An instruction with a layout. -/
structure Encoded where
  instruction : Instruction
  bytes : List UInt8
  layout : instruction.Layout bytes

namespace Encoded

/-- The bytes of instructions, one after the other. -/
def stream (es : List Encoded) : List UInt8 := es.flatMap bytes

/-- Where instruction number `n` begins, if the first of them begins at the offset `o`. -/
def place (o : Nat) (es : List Encoded) (n : Nat) : Cursor :=
  ⟨stream (es.drop n), o + (stream (es.take n)).length⟩

theorem place_cons_succ (o : Nat) (e : Encoded) (es : List Encoded) (n : Nat) :
    place o (e :: es) (n + 1) = place (o + e.bytes.length) es n := by
  have htake : stream ((e :: es).take (n + 1)) = e.bytes ++ stream (es.take n) := rfl
  rw [place, htake, List.length_append, ← Nat.add_assoc]
  rfl

/-- No instruction is without bytes. -/
theorem atEnd_eq_false (e : Encoded) (rest : List UInt8) (o : Nat) :
    (⟨e.bytes ++ rest, o⟩ : Cursor).atEnd = false := by
  obtain ⟨i, bytes, layout⟩ := e
  cases i with
  | unassigned byte =>
    obtain ⟨-, rfl⟩ := layout
    rfl
  | assigned op operands =>
    obtain ⟨operandBytes, rfl, -⟩ := layout
    rfl

end Encoded

namespace DecodeContext

open Encoded (stream place place_cons_succ)

variable (ctx : DecodeContext)

/-- An instruction that is laid out and meets no obstacle is taken as a whole. -/
theorem takes_of_layout {i : Instruction} {bytes : List UInt8} (h : i.Layout bytes)
    {s : DecoderState} {o : Nat} (hnone : ctx.obstacle? s i o = none) (rest : List UInt8) :
    ctx.Takes ⟨s, ⟨bytes ++ rest, o⟩, i⟩ (s.apply (ctx.effect s.depth i))
      ⟨rest, o + bytes.length⟩ := by
  obtain ⟨hroom, hclose⟩ := ctx.obstacle?_eq_none_iff.1 hnone
  exact ⟨h.takes (fun hn => decide_eq_true (hroom hn)) rest o, hclose, rfl⟩

/-- An instruction is taken from bytes that begin with what is written for it. -/
theorem takes_of_write {i : Instruction} (h : i.Fits) {s : DecoderState} {o o' : Nat}
    (hnone : ctx.obstacle? s i o = none) {bytes rest : List UInt8}
    (hbytes : bytes = i.write ++ rest) (ho : o' = o + i.write.length) :
    ctx.Takes ⟨s, ⟨bytes, o⟩, i⟩ (s.apply (ctx.effect s.depth i)) ⟨rest, o'⟩ := by
  subst hbytes ho
  exact ctx.takes_of_layout (i.layout_write h) hnone rest

/-- Instructions are taken one by one as long as none meets an obstacle. -/
theorem exists_trace_stream (es : List Encoded) (s : DecoderState) (o : Nat) :
    ∃ n ms s', n ≤ es.length ∧ ctx.Trace s (place o es 0) ms s' (place o es n) ∧
      ms.map (·.instruction) = (es.take n).map (·.instruction) ∧
      ms.map (·.start) = (List.range n).map (place o es) ∧
      (∀ m ∈ ms, ctx.obstacle? m.state m.instruction m.start.offset = none) ∧
      (n = es.length ∨ ∃ e error, es[n]? = some e ∧
        ctx.obstacle? s' e.instruction (place o es n).offset = some error) := by
  induction es generalizing s o with
  | nil => exact ⟨0, [], s, Nat.le_refl _, .nil s _, rfl, rfl, List.forall_mem_nil _, .inl rfl⟩
  | cons e es ih =>
    cases hobstacle : ctx.obstacle? s e.instruction o with
    | some error =>
      exact ⟨0, [], s, Nat.zero_le _, .nil s _, rfl, rfl, List.forall_mem_nil _,
        .inr ⟨e, error, rfl, hobstacle⟩⟩
    | none =>
      have htakes := ctx.takes_of_layout e.layout hobstacle (stream es)
      obtain ⟨n, ms, s', hn, htrace, hinstructions, hstarts, hnone, hend⟩ :=
        ih (s.apply (ctx.effect s.depth e.instruction)) (o + e.bytes.length)
      refine ⟨n + 1, ⟨s, place o (e :: es) 0, e.instruction⟩ :: ms, s', Nat.succ_le_succ hn, ?_,
        ?_, ?_, ?_, ?_⟩
      · rw [place_cons_succ]
        exact .cons htakes htrace
      · rw [List.map_cons, hinstructions]
        rfl
      · rw [List.map_cons, hstarts, List.range_succ_eq_map, List.map_cons, List.map_map]
        congr 1
        exact List.map_congr_left fun k _ => (place_cons_succ o e es k).symm
      · rintro m hm
        rcases List.mem_cons.1 hm with rfl | hm
        · exact hobstacle
        · exact hnone m hm
      · rw [place_cons_succ]
        rcases hend with rfl | ⟨next, error, hnext, herror⟩
        · exact .inl rfl
        · exact .inr ⟨next, error, hnext, herror⟩

/-- Instructions laid out one after the other are taken in as many steps as there are instructions,
each step from the bytes of one.  Only the three obstacles end this before the last of them.  The
error of one that closes or nests too much says where it begins; and the only others are those that
panic, for a quantity that cannot be written or a nested program that panics. -/
theorem run_stream (es : List Encoded) :
    ∃ n ms s, n ≤ es.length ∧
      ctx.Trace .initial (.ofBytes (stream es)) ms s (place 0 es n) ∧
      ms.map (·.instruction) = (es.take n).map (·.instruction) ∧
      ms.map (·.start) = (List.range n).map (place 0 es) ∧
      (∀ m ∈ ms, ctx.obstacle? m.state m.instruction m.start.offset = none) ∧
      ((n = es.length ∧ ctx.run .initial (.ofBytes (stream es)) = (s, none)) ∨
        ∃ e error, es[n]? = some e ∧
          ctx.obstacle? s e.instruction (place 0 es n).offset = some error ∧
          (error = .panic → e.instruction.Panics (ctx.nested (ctx.levels - s.depth - 1))) ∧
          ctx.run .initial (.ofBytes (stream es)) = (s, some error)) := by
  obtain ⟨n, ms, s, hn, htrace, hinstructions, hstarts, hnone, hend⟩ :=
    ctx.exists_trace_stream es .initial 0
  have hrun := htrace.steps.run_eq
  refine ⟨n, ms, s, hn, htrace, hinstructions, hstarts, hnone, ?_⟩
  rcases hend with rfl | ⟨e, error, he, herror⟩
  · left
    refine ⟨rfl, hrun.trans (run_of_atEnd ?_)⟩
    rw [place, List.drop_length]
    rfl
  · right
    refine ⟨e, error, he, herror, fun hpanic => ?_, hrun.trans ?_⟩
    · exact (ctx.obstacle?_eq_panic_iff.1 (hpanic ▸ herror)).2
    have hdrop : es.drop n = e :: es.drop (n + 1) := by
      obtain ⟨hlt, rfl⟩ := List.getElem?_eq_some_iff.1 he
      exact List.drop_eq_getElem_cons hlt
    have hplace : place 0 es n =
        ⟨e.bytes ++ stream (es.drop (n + 1)), (place 0 es n).offset⟩ := by
      rw [place, hdrop]
      rfl
    rw [hplace]
    exact run_of_step_error (e.atEnd_eq_false _ _) (ctx.step_of_obstacle e.layout herror _)

/-- The single instruction for a quantity that is halved 65535 times neither closes nor nests, but
decoding it panics. -/
theorem panic_in_stream :
    ∃ e : Encoded, e.instruction = .halved 8191 ∧ e.instruction.closes = false ∧
      e.instruction.nests = false ∧
      (({} : Options).context 64).run .initial (.ofBytes (stream [e])) =
        (.initial, some .panic) := by
  have hfits : (Instruction.halved 8191).Fits := Instruction.fits_halved (by decide)
  obtain ⟨e, he⟩ : ∃ e : Encoded, e.instruction = .halved 8191 :=
    ⟨⟨_, _, Instruction.layout_write _ hfits⟩, rfl⟩
  have hpanics : e.instruction.Panics ((({} : Options).context 64).nested 63) := by
    rw [he]
    exact Instruction.panics_halved (by decide) (by decide) _
  have hnests : e.instruction.nests = false := by rw [he]; rfl
  have hobstacle : (({} : Options).context 64).obstacle? .initial e.instruction 0 = some .panic :=
    (obstacle?_eq_panic_iff _).2 ⟨fun hn => absurd (hnests.symm.trans hn) nofun, hpanics⟩
  refine ⟨e, he, by rw [he]; rfl, hnests, ?_⟩
  exact run_of_step_error (e.atEnd_eq_false [] 0) (step_of_obstacle _ e.layout hobstacle [])

end DecodeContext

end Dxb
