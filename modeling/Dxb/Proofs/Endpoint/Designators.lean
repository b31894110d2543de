import Dxb.Endpoint.Basic
import Dxb.Proofs.Bytes.BigEndian
import Dxb.Proofs.Bytes.HexText

/-!
# What designates an instance

A number can be given as it is, by at most two bytes or by one to four hex digits, with or without
leading zeros; the main endpoint is also what stands for any instance and what is not written.

    i.resolve? = .ok n ↔ i.Designates n                                (resolve?_eq_ok_iff)
-/

namespace Dxb

namespace Hex

theorem all_isSome_iff {cs : List Char} :
    cs.all (fun c => (value? c).isSome) = true ↔
      ∃ values : List Nat, cs.map value? = values.map some := by
  induction cs with
  | nil => exact ⟨fun _ => ⟨[], rfl⟩, fun _ => rfl⟩
  | cons c cs ih =>
    rw [List.all_cons, Bool.and_eq_true, ih, Option.isSome_iff_exists]
    constructor
    · rintro ⟨⟨v, hv⟩, values, hvalues⟩
      exact ⟨v :: values, by rw [List.map_cons, List.map_cons, hv, hvalues]⟩
    · rintro ⟨values, hvalues⟩
      cases values with
      | nil => cases hvalues
      | cons v values =>
        rw [List.map_cons, List.map_cons, List.cons.injEq] at hvalues
        exact ⟨⟨v, hvalues.1⟩, values, hvalues.2⟩

/-- Characters are the digits of one list at most. -/
theorem values_unique {cs : List Char} {values others : List Nat}
    (h : cs.map value? = values.map some) (h' : cs.map value? = others.map some) :
    others = values := by
  rw [h] at h'
  exact ((List.map_inj_right fun _ _ => Option.some.inj).1 h').symm

theorem length_values {cs : List Char} {values : List Nat} (h : cs.map value? = values.map some) :
    cs.length = values.length := by
  rw [← List.length_map value?, h, List.length_map]

theorem foldl_value {cs : List Char} {values : List Nat} (h : cs.map value? = values.map some)
    (n : Nat) : cs.foldl (fun high c => 16 * high + (value? c).getD 0) n =
      values.foldl (fun high d => 16 * high + d) n := by
  induction values generalizing cs n with
  | nil =>
    rw [List.map_eq_nil_iff.1 h]
    rfl
  | cons v values ih =>
    obtain ⟨c, rest, rfl, hc, hrest⟩ := List.map_eq_cons_iff.1 h
    rw [List.foldl_cons, List.foldl_cons, hc, ih hrest]
    rfl

theorem ofDigits_value_lt {cs : List Char} {values : List Nat}
    (h : cs.map value? = values.map some) :
    Digits.ofDigits 16 values < 16 ^ values.length := by
  refine Digits.ofDigits_lt fun v hv => ?_
  have hmem : some v ∈ cs.map value? := h ▸ List.mem_map.2 ⟨v, hv, rfl⟩
  obtain ⟨c, -, hc⟩ := List.mem_map.1 hmem
  exact (value?_eq_some_iff.1 hc).1

end Hex

namespace InstanceRef

/-- The instance that is given by a designator. -/
inductive Designates : InstanceRef → UInt16 → Prop
  | main : Designates .main 0
  | any : Designates .any 0
  | number (n : UInt16) : Designates (.number n) n
  /-- Bytes, highest first. -/
  | bytes {bs : List UInt8} {n : UInt16} (short : bs.length ≤ instanceSize)
      (value : ofBigEndian bs = n.toNat) : Designates (.bytes bs) n
  | blank : Designates (.text "") 0
  | star : Designates (.text "*") 0
  /-- Hex digits in either case, highest first. -/
  | digits {s : String} {values : List Nat} {n : UInt16}
      (hex : s.toList.map Hex.value? = values.map some) (pos : 0 < values.length)
      (short : values.length ≤ 2 * instanceSize) (value : Digits.ofDigits 16 values = n.toNat) :
      Designates (.text s) n

/-- What bytes or digits of a number below the bound stand for. -/
theorem ofNat_eq_iff {value : Nat} {n : UInt16} (h : value < 2 ^ 16) :
    UInt16.ofNat value = n ↔ value = n.toNat := by
  rw [← UInt16.toNat_inj, UInt16.toNat_ofNat', Nat.mod_eq_of_lt h]

theorem resolve?_bytes_eq_ok_iff {bs : List UInt8} {n : UInt16} :
    (bytes bs).resolve? = .ok n ↔ bs.length ≤ instanceSize ∧ ofBigEndian bs = n.toNat := by
  simp only [resolve?]
  split
  · rename_i hlong
    constructor
    · intro h
      cases h
    · rintro ⟨hshort, -⟩
      omega
  · rename_i hshort
    have hle : bs.length ≤ instanceSize := Nat.not_lt.1 hshort
    have hlt : ofBigEndian bs < 2 ^ 16 :=
      Nat.lt_of_lt_of_le (ofBigEndian_lt bs) (Nat.pow_le_pow_right (by decide) hle)
    rw [Except.ok.injEq]
    exact (ofNat_eq_iff hlt).trans ⟨fun h => ⟨hle, h⟩, fun h => h.2⟩

theorem resolve?_text_eq_ok_iff {s : String} {n : UInt16} (hblank : ¬ (s = "" ∨ s = "*")) :
    (text s).resolve? = .ok n ↔ ∃ values : List Nat, s.toList.map Hex.value? = values.map some ∧
      values.length ≤ 2 * instanceSize ∧ Digits.ofDigits 16 values = n.toNat := by
  simp only [resolve?]
  rw [if_neg hblank]
  by_cases hall : s.toList.all (fun c => (Hex.value? c).isSome) = true
  · rw [if_pos hall]
    obtain ⟨values, hvalues⟩ := Hex.all_isSome_iff.1 hall
    rw [Hex.length_values hvalues]
    split
    · rename_i hlong
      constructor
      · intro h
        cases h
      · rintro ⟨others, hothers, hshort, -⟩
        rw [Hex.values_unique hvalues hothers] at hshort
        omega
    · rename_i hshort
      have hle : values.length ≤ 2 * instanceSize := Nat.not_lt.1 hshort
      have hlt : Digits.ofDigits 16 values < 2 ^ 16 :=
        Nat.lt_of_lt_of_le (Hex.ofDigits_value_lt hvalues)
          (Nat.pow_le_pow_right (by decide) hle)
      rw [Hex.foldl_value hvalues, Except.ok.injEq]
      refine (ofNat_eq_iff hlt).trans ⟨fun h => ⟨values, hvalues, hle, h⟩, ?_⟩
      rintro ⟨others, hothers, -, h⟩
      rwa [Hex.values_unique hvalues hothers] at h
  · rw [if_neg hall]
    constructor
    · intro h
      cases h
    · rintro ⟨values, hvalues, -⟩
      exact absurd (Hex.all_isSome_iff.2 ⟨values, hvalues⟩) hall

/-- Resolved is exactly what designates an instance. -/
theorem resolve?_eq_ok_iff {i : InstanceRef} {n : UInt16} :
    i.resolve? = .ok n ↔ i.Designates n := by
  constructor
  · intro h
    cases i with
    | main =>
      cases h
      exact .main
    | any =>
      cases h
      exact .any
    | number m =>
      cases h
      exact .number n
    | bytes bs =>
      obtain ⟨hshort, hvalue⟩ := resolve?_bytes_eq_ok_iff.1 h
      exact .bytes hshort hvalue
    | text s =>
      by_cases hblank : s = "" ∨ s = "*"
      · simp only [resolve?, if_pos hblank] at h
        cases h
        rcases hblank with rfl | rfl
        · exact .blank
        · exact .star
      · obtain ⟨values, hvalues, hshort, hvalue⟩ := (resolve?_text_eq_ok_iff hblank).1 h
        refine .digits hvalues (List.length_pos_iff.2 ?_) hshort hvalue
        rintro rfl
        exact hblank (.inl (String.toList_inj.1 (List.map_eq_nil_iff.1 hvalues)))
  · intro h
    cases h with
    | main | any | number | blank | star => rfl
    | bytes short value => exact resolve?_bytes_eq_ok_iff.2 ⟨short, value⟩
    | @digits s values n hex pos short value =>
      refine (resolve?_text_eq_ok_iff ?_).2 ⟨values, hex, short, value⟩
      rintro (rfl | rfl)
      · rw [← List.length_map some, ← hex] at pos
        exact absurd pos (by decide)
      · cases values with
        | nil => exact absurd pos (by decide)
        | cons v values => cases hex

end InstanceRef

end Dxb
