import Dxb.Proofs.Endpoint.Histories
import Dxb.Proofs.Header.Layout

/-!
# Stripping what was encoded

A header that fits and whose sender is alive is stripped as the same header, with the same handle to
the sender, and the body behind it is left (`strip_encode`).  Whatever message is accepted, its
header fits and keeps its sender alive (`of_strip_eq_ok`), so encoding it and stripping once more
changes nothing (`strip_round_trip`).
-/

namespace Dxb

open Interning

variable {t : Interning} {held : List Handle}

/-! ## Headers and the table -/

theorem HeaderOf.Fits.withSender {Sender Other : Type} {h : HeaderOf Sender} (hf : h.Fits)
    (sender : Option Other) : (h.withSender sender).Fits :=
  ⟨hf.receivers, hf.since, hf.dated⟩

/-- The handle that a header holds. -/
def HeldHeader.handles (h : HeldHeader) : List Handle := h.sender.toList.map .endpoint

namespace Header

theorem fits_adopt {h : Header} (hf : h.Fits) (t : Interning) : (adopt t h).1.Fits := by
  unfold adopt
  split <;> exact hf.withSender _

theorem owned_adopt (ht : t.Owned held) (h : Header) :
    (adopt t h).2.Owned (HeldHeader.handles (adopt t h).1 ++ held) := by
  unfold adopt
  split
  · rename_i e _
    exact ht.build e
  · exact ht

/-- The handle to the sender that a header holds is handed out again for what the header says. -/
theorem adopt_described (ht : t.Owned held) {h : HeldHeader}
    (hs : ∀ r ∈ h.sender, t.Live (.endpoint r)) : (adopt t h.described).1 = h := by
  obtain ⟨version, blockSize, ttl, priority, security, sender⟩ := h
  cases sender with
  | none => rfl
  | some r =>
    have hr := ht.build_eq_of_canonical (hs r rfl) rfl
    simp only [adopt, HeldHeader.described, HeaderOf.withSender, Option.map_some, hr]

/-! ## Stripping -/

theorem strip_encode (ht : t.Owned held) {h : HeldHeader} (hf : h.Fits)
    (hs : ∀ r ∈ h.sender, t.Live (.endpoint r)) (body : List UInt8) :
    (strip t (h.encode ++ body)).1 = .ok (h, body) := by
  have hread := takes h.described (hf.withSender _) body 0
  have hadopt := adopt_described ht hs
  unfold strip HeldHeader.encode Cursor.ofBytes
  rw [hread]
  simp only [hadopt]

/-- What a message was accepted as, and what is held afterwards. -/
theorem of_strip_eq_ok (ht : t.Owned held) {message body : List UInt8} {h : HeldHeader}
    (hok : (strip t message).1 = .ok (h, body)) :
    h.Fits ∧ (strip t message).2.Owned (h.handles ++ held) := by
  unfold strip at hok ⊢
  split at hok
  · rename_i header rest hread
    obtain ⟨rfl, -⟩ := Prod.mk.inj (Except.ok.inj hok)
    have hf := ensures_fits _ header rest hread
    exact ⟨fits_adopt hf t, owned_adopt ht header⟩
  · cases hok

end Header

namespace Holdings

/-- After any steps: a header that fits and is from nobody or from an endpoint in use is stripped as
it was encoded, with its body.  And the header of any accepted message fits, so it is stripped as it
was encoded, whatever the message held that a header does not keep. -/
theorem strip_round_trip (steps : List HoldingStep) :
    (∀ (h : HeldHeader) (body : List UInt8), h.Fits →
      (∀ r ∈ h.sender, r ∈ (empty.run steps).reachable) →
        (Header.strip (empty.run steps).table (h.encode ++ body)).1 = .ok (h, body)) ∧
    ∀ (message : List UInt8) (h : HeldHeader) (body : List UInt8),
      (Header.strip (empty.run steps).table message).1 = .ok (h, body) →
        h.Fits ∧ (Header.strip (Header.strip (empty.run steps).table message).2
          (h.encode ++ body)).1 = .ok (h, body) := by
  have hv := valid_run steps
  refine ⟨fun h body hf hs => ?_, fun message h body hok => ?_⟩
  · exact Header.strip_encode hv.owned hf (fun r hr => hv.live_of_mem_reachable (hs r hr)) body
  · obtain ⟨hf, howned⟩ := Header.of_strip_eq_ok hv.owned hok
    refine ⟨hf, Header.strip_encode howned hf (fun r hr => howned.live ?_) body⟩
    refine List.mem_append_left _ (List.mem_map.2 ⟨r, ?_, rfl⟩)
    exact Option.mem_toList.2 hr

/-- Somebody uses `@hd_sender/0002`. -/
def senderInUse : List HoldingStep := [.make (some "a") (.parse "@hd_sender/0002")]

/-- A signed message from `@hd_sender/0002` in the subspace `a`, with the appspace `@c`. -/
def signedMessage : List UInt8 :=
  [0x01, 0x64, 1, 0, 0, 64, 0, 1, 0xcf, 9, 1, 4, 1] ++ utf8 "hd_sender" ++ [1] ++ utf8 "a" ++
    utf8 "0002" ++ [0xcf, 1, 0, 255] ++ utf8 "c" ++ [0, 0] ++ List.replicate 96 7 ++
    List.replicate 18 0 ++ [0xc9]

/-- With the sender in use: a header from it, and the header of a message with an appspace. -/
theorem strip_round_trip_of_sender :
    ∃ (r : EndpointRef) (h : HeldHeader),
      let table := (empty.run senderInUse).table
      let composed : HeldHeader := { security := .signedEncrypted, sender := some r }
      r ∈ (empty.run senderInUse).reachable ∧ r.canonical = "@hd_sender/0002" ∧ composed.Fits ∧
        (Header.strip table (composed.encode ++ [0xc6])).1 = .ok (composed, [0xc6]) ∧
        (Header.strip table signedMessage).1 = .ok (h, [0xc9]) ∧
        (Header.strip (Header.strip table signedMessage).2 (h.encode ++ [0xc9])).1 =
          .ok (h, [0xc9]) := by
  obtain ⟨hwritten, haccepted⟩ := strip_round_trip senderInUse
  have hmade : (empty.run senderInUse).reachable.any (·.canonical == "@hd_sender/0002") = true := by
    decide +kernel
  obtain ⟨r, hr, hcanonical⟩ := List.any_eq_true.1 hmade
  have hdefault : HeaderOf.Fits ({} : HeldHeader) := HeaderOf.fits_default
  have hfits : HeaderOf.Fits ({ security := .signedEncrypted, sender := some r } : HeldHeader) :=
    ⟨hdefault.receivers, hdefault.since, hdefault.dated⟩
  have hcomposed := hwritten _ [0xc6] hfits (fun s hs => Option.some.inj hs ▸ hr)
  have hbody : (Header.strip (empty.run senderInUse).table signedMessage).1.map (·.2) =
      .ok [0xc9] := by decide +kernel
  cases hok : (Header.strip (empty.run senderInUse).table signedMessage).1 with
  | error e =>
    rw [hok] at hbody
    cases hbody
  | ok stripped =>
    obtain ⟨h, body⟩ := stripped
    rw [hok] at hbody
    cases hbody
    exact ⟨r, h, hr, beq_iff_eq.1 hcanonical, hfits, hcomposed, hok, (haccepted _ h _ hok).2⟩

end Holdings

end Dxb
