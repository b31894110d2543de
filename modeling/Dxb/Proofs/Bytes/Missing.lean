import Dxb.Proofs.Bytes.Locality

/-!
# Running out of bytes

A reader that runs out of bytes says at which offset, and how many are missing.  The count is exact
(`Reader.CountsMissing`): with fewer bytes behind the buffer the reader runs out of them at that
offset again, and with as many it does not.  Readers stay so when one follows the other
(`CountsMissing.bind`), since the second one begins behind the place where the first one could
have run out, and so are the readers of all fields (`Field.countsMissing_read`).
-/

namespace Dxb

namespace Reader

variable {α β : Type}

/-- At offset `o` in front of these bytes, a reader lacks `needed` bytes at offset `e`. -/
def Lacks (r : Reader α) (bytes : List UInt8) (o e needed : Nat) : Prop :=
  (r.run ⟨bytes, o⟩).1 = .error (.unexpectedEof e needed)

/-- What a reader says it lacks is what it lacks at that place. -/
structure CountsMissing (r : Reader α) : Prop where
  isLocal : r.Local
  between : ∀ {bytes o e needed}, r.Lacks bytes o e needed → o ≤ e ∧ e ≤ o + bytes.length
  fewer : ∀ {bytes o e needed}, r.Lacks bytes o e needed → ∀ {more : List UInt8},
    more.length < needed → r.Lacks (bytes ++ more) o e (needed - more.length)
  enough : ∀ {bytes o e needed}, r.Lacks bytes o e needed → ∀ {more : List UInt8},
    needed ≤ more.length → ∀ left, ¬ r.Lacks (bytes ++ more) o e left

theorem lacks_bind_iff {r : Reader α} {f : α → Reader β} {bytes : List UInt8} {o e needed : Nat} :
    (r >>= f).Lacks bytes o e needed ↔ r.Lacks bytes o e needed ∨
      ∃ a rest o', r.run ⟨bytes, o⟩ = (.ok a, ⟨rest, o'⟩) ∧ (f a).Lacks rest o' e needed := by
  unfold Lacks
  rw [run_bind]
  cases hr : r.run ⟨bytes, o⟩ with
  | mk result d =>
    cases result with
    | error fault => simp
    | ok a =>
      constructor
      · exact fun h => .inr ⟨a, d.rest, d.offset, rfl, h⟩
      · rintro (h | ⟨_, _, _, hsame, h⟩)
        · cases h
        · cases hsame
          exact h

theorem lacks_atomic_iff {r : Reader α} {bytes : List UInt8} {o e needed : Nat} :
    r.atomic.Lacks bytes o e needed ↔ r.Lacks bytes o e needed := by
  unfold Lacks Reader.atomic
  dsimp only
  split <;> simp [*]

theorem lacks_bytes_iff {n : Nat} {bytes : List UInt8} {o e needed : Nat} :
    (Reader.bytes n).Lacks bytes o e needed ↔
      bytes.length < n ∧ e = o ∧ needed = n - bytes.length := by
  unfold Lacks Reader.bytes
  simp only [List.length_take]
  split
  · simp only [Except.error.injEq, DecodeError.unexpectedEof.injEq]
    omega
  · constructor
    · intro h
      cases h
    · omega

namespace CountsMissing

variable {r : Reader α}

theorem of_never (hlocal : r.Local) (h : ∀ bytes o e needed, ¬ r.Lacks bytes o e needed) :
    r.CountsMissing where
  isLocal := hlocal
  between hlacks := absurd hlacks (h _ _ _ _)
  fewer hlacks := absurd hlacks (h _ _ _ _)
  enough hlacks := absurd hlacks (h _ _ _ _)

theorem atomic (hr : r.CountsMissing) : r.atomic.CountsMissing where
  isLocal := hr.isLocal.atomic
  between h := hr.between (lacks_atomic_iff.1 h)
  fewer h _ hlt := lacks_atomic_iff.2 (hr.fewer (lacks_atomic_iff.1 h) hlt)
  enough h _ hle left hmore :=
    hr.enough (lacks_atomic_iff.1 h) hle left (lacks_atomic_iff.1 hmore)

/-- A reader that lacks bytes, and takes them when more are there, takes all that were there. -/
theorem length_lt_of_ok (hr : r.CountsMissing) {bytes more rest : List UInt8} {o e needed o' : Nat}
    {a : α} (h : r.Lacks bytes o e needed)
    (hok : r.run ⟨bytes ++ more, o⟩ = (.ok a, ⟨rest, o'⟩)) : o + bytes.length < o' := by
  obtain ⟨taken, hbytes, rfl⟩ := exists_taken hok
  apply Nat.lt_of_not_le
  intro hle
  obtain ⟨left, rfl⟩ : taken <+: bytes :=
    List.prefix_of_prefix_length_le ⟨rest, hbytes.symm⟩ (List.prefix_append bytes more) (by omega)
  rw [hbytes] at hok
  have hsame := hr.isLocal _ _ _ _ _ hok left
  rw [Lacks, hsame] at h
  cases h

theorem bind {f : α → Reader β} (hr : r.CountsMissing) (hf : ∀ a, (f a).CountsMissing) :
    (r >>= f).CountsMissing where
  isLocal := hr.isLocal.bind fun a => (hf a).isLocal
  between {bytes o e needed} h := by
    rcases lacks_bind_iff.1 h with hfirst | ⟨a, rest, o', hok, hsecond⟩
    · exact hr.between hfirst
    · obtain ⟨taken, rfl, rfl⟩ := exists_taken hok
      have hbetween := (hf a).between hsecond
      rw [List.length_append]
      omega
  fewer {bytes o e needed} h more hlt := by
    rcases lacks_bind_iff.1 h with hfirst | ⟨a, rest, o', hok, hsecond⟩
    · exact lacks_bind_iff.2 (.inl (hr.fewer hfirst hlt))
    · obtain ⟨taken, rfl, rfl⟩ := exists_taken hok
      have hmore := hr.isLocal _ _ _ _ _ hok (rest ++ more)
      rw [← List.append_assoc] at hmore
      exact lacks_bind_iff.2 (.inr ⟨a, _, _, hmore, (hf a).fewer hsecond hlt⟩)
  enough {bytes o e needed} h more hle left hleft := by
    rcases lacks_bind_iff.1 h with hfirst | ⟨a, rest, o', hok, hsecond⟩
    · -- the first part goes on behind all bytes that were there, so the second one begins there
      rcases lacks_bind_iff.1 hleft with hagain | ⟨a, rest, o', hok, hsecond⟩
      · exact hr.enough hfirst hle left hagain
      · have hbehind := hr.length_lt_of_ok hfirst hok
        have hfirst := hr.between hfirst
        have hsecond := (hf a).between hsecond
        omega
    · obtain ⟨taken, rfl, rfl⟩ := exists_taken hok
      have hmore := hr.isLocal _ _ _ _ _ hok (rest ++ more)
      rw [← List.append_assoc] at hmore
      rcases lacks_bind_iff.1 hleft with hagain | ⟨a', rest', o', hok', hsecond'⟩
      · rw [Lacks, hmore] at hagain
        cases hagain
      · rw [hmore] at hok'
        cases hok'
        exact (hf a).enough hsecond hle left hsecond'

end CountsMissing

theorem countsMissing_pure (a : α) : (pure a : Reader α).CountsMissing :=
  .of_never (local_pure a) nofun

theorem countsMissing_fail {e : DecodeError} (h : ∀ o needed, e ≠ .unexpectedEof o needed) :
    (fail e : Reader α).CountsMissing :=
  .of_never (local_fail e) fun _ _ o needed hlacks => h o needed (Except.error.inj hlacks)

theorem countsMissing_position : position.CountsMissing := .of_never local_position nofun

theorem countsMissing_bytes (n : Nat) : (Reader.bytes n).CountsMissing where
  isLocal := local_bytes n
  between h := by
    have h := lacks_bytes_iff.1 h
    omega
  fewer h more hlt := by
    have h := lacks_bytes_iff.1 h
    rw [lacks_bytes_iff, List.length_append]
    omega
  enough h more hle left hmore := by
    have h := lacks_bytes_iff.1 h
    rw [lacks_bytes_iff, List.length_append] at hmore
    omega

theorem CountsMissing.map {r : Reader α} (hr : r.CountsMissing) (f : α → β) :
    (f <$> r).CountsMissing :=
  hr.bind fun a => countsMissing_pure (f a)

theorem countsMissing_number (width : Nat) : (number width).CountsMissing :=
  (countsMissing_bytes width).map ofLittleEndian

/-- Bytes that are no text are refused only when all of them are there. -/
theorem countsMissing_text (n : Nat) : (text n).CountsMissing := by
  refine (countsMissing_position.bind fun start =>
    (countsMissing_bytes n).bind fun read => ?_).atomic
  split
  · exact countsMissing_pure _
  · exact countsMissing_fail nofun

end Reader

theorem Field.countsMissing_read (f : Field) : f.read.CountsMissing :=
  f.read_induction Reader.countsMissing_bytes Reader.countsMissing_text (fun g h => h.map g)
    fun width _ h => ((Reader.countsMissing_number width).bind h).atomic

end Dxb
