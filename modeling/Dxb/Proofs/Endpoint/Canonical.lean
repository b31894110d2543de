import Mathlib.Data.List.TakeDrop
import Mathlib.Data.List.TakeWhile
import Dxb.Endpoint.Basic

/-!
# What a canonical text tells

A slash separates the instance, and neither a name nor a sigil has one, so the canonical text gives
back the text without the instance and the instance.  The sigils do not separate as well: a person
may be named `+x` or `@x`, and then is written like the institution `x` or the id `x`.  Such
endpoints are twins, and apart from them the canonical text tells endpoints apart:

    a.canonical = b.canonical ↔ a = b ∨ a.Twins b                     (canonical_eq_iff)
-/

namespace Dxb

/-! ## Hex digits -/

namespace Hex

theorem upper_injective {a b : List UInt8} (h : upper a = upper b) : a = b := by
  have ha := decode?_upper a
  rw [h, decode?_upper] at ha
  exact (Option.some.inj ha).symm

theorem lower_injective {a b : List UInt8} (h : lower a = lower b) : a = b := by
  have ha := decode?_lower a
  rw [h, decode?_lower] at ha
  exact (Option.some.inj ha).symm

theorem exists_digit_of_mem {ten c : Char} {bytes : List UInt8} (h : c ∈ digits ten bytes) :
    ∃ n, n < 16 ∧ digit ten n = c := by
  obtain ⟨b, -, hb⟩ := List.mem_flatMap.1 h
  have hlt := b.toNat_lt
  rcases List.mem_cons.1 hb with rfl | hb
  · exact ⟨_, by omega, rfl⟩
  · exact ⟨_, Nat.mod_lt _ (by omega), (List.mem_singleton.1 hb).symm⟩

theorem not_mem_upper {c : Char} (h : ∀ n, n < 16 → digit 'A' n ≠ c) (bytes : List UInt8) :
    c ∉ (upper bytes).toList := by
  intro hc
  rw [upper, String.toList_ofList] at hc
  obtain ⟨n, hn, hdigit⟩ := exists_digit_of_mem hc
  exact h n hn hdigit

theorem slash_not_mem_upper (bytes : List UInt8) : '/' ∉ (upper bytes).toList :=
  not_mem_upper (by decide) bytes

theorem upper_ne_local (bytes : List UInt8) : upper bytes ≠ "local" := by
  intro h
  have hl : 'l' ∉ (upper bytes).toList := not_mem_upper (by decide) bytes
  rw [h] at hl
  exact hl (by decide)

theorem upper_ne_any (bytes : List UInt8) : upper bytes ≠ "any" := by
  intro h
  have hn : 'n' ∉ (upper bytes).toList := not_mem_upper (by decide) bytes
  rw [h] at hn
  exact hn (by decide)

end Hex

/-! ## Ids -/

namespace NameSlot

/-- What trimming removes is NULs. -/
theorem trim_append_replicate (bytes : List UInt8) :
    trim bytes ++ List.replicate (bytes.length - (trim bytes).length) 0 = bytes := by
  have hsplit := List.takeWhile_append_dropWhile (p := fun b : UInt8 => b == 0)
    (l := bytes.reverse)
  have hzero : bytes.reverse.takeWhile (· == 0) =
      List.replicate (bytes.reverse.takeWhile (· == 0)).length 0 := by
    rw [List.eq_replicate_iff]
    refine ⟨rfl, ?_⟩
    intro b hb
    simpa using List.all_eq_true.1 List.all_takeWhile b hb
  have hlen : bytes.length - (trim bytes).length = (bytes.reverse.takeWhile (· == 0)).length := by
    have := congrArg List.length hsplit
    simp only [List.length_append, List.length_reverse] at this
    simp only [trim, List.length_reverse]
    omega
  have hrev := congrArg List.reverse hsplit
  rw [List.reverse_append, List.reverse_reverse, hzero, List.reverse_replicate] at hrev
  rw [hlen]
  exact hrev

theorem trim_injective {a b : List UInt8} (hlen : a.length = b.length) (h : trim a = trim b) :
    a = b := by
  rw [← trim_append_replicate a, ← trim_append_replicate b, h, hlen]

theorem idText_injective {a b : NameSlot} (h : a.idText = b.idText) : a = b := by
  unfold idText at h
  split at h
  · rename_i ha
    split at h
    · rename_i hb
      rw [ha, hb]
    · split at h
      · exact absurd h (by decide)
      · exact absurd h.symm (Hex.upper_ne_local _)
  · split at h
    · rename_i ha
      split at h
      · exact absurd h (by decide)
      · split at h
        · rename_i hb
          rw [ha, hb]
        · exact absurd h.symm (Hex.upper_ne_any _)
    · split at h
      · exact absurd h (Hex.upper_ne_local _)
      · split at h
        · exact absurd h (Hex.upper_ne_any _)
        · have htrim := Hex.upper_injective h
          obtain ⟨abytes, ha⟩ := a
          obtain ⟨bbytes, hb⟩ := b
          have := trim_injective (ha.trans hb.symm) htrim
          subst this
          rfl

theorem slash_not_mem_idText (s : NameSlot) : '/' ∉ s.idText.toList := by
  unfold idText
  split
  · decide
  · split
    · decide
    · exact Hex.slash_not_mem_upper _

end NameSlot

/-! ## Names -/

theorem TextName.eq_of_text {a b : TextName} (h : a.text = b.text) : a = b := by
  cases a
  cases b
  cases h
  rfl

namespace EndpointName

theorem slash_not_mem_text (n : EndpointName) : '/' ∉ n.text.toList := by
  cases n with
  | person n | institution n | bot n => exact fun h => (n.clean _ h).2.1 rfl
  | id s => exact s.slash_not_mem_idText

/-- Different names that are written alike: the name of a person goes on with the rest of the
sigil of an institution or an id. -/
def Twins : EndpointName → EndpointName → Prop
  | person p, institution i | institution i, person p => p.text = "+" ++ i.text
  | person p, id s | id s, person p => p.text = "@" ++ s.idText
  | _, _ => False

theorem Twins.kind_ne {a b : EndpointName} (h : a.Twins b) : a.kind ≠ b.kind := by
  cases a <;> cases b <;> first | exact h.elim | (intro hk; cases hk)

theorem eq_or_twins_iff {a b : EndpointName} :
    a.kind.sigil ++ a.text = b.kind.sigil ++ b.text ↔ a = b ∨ a.Twins b := by
  have hText : ∀ {x y : TextName}, x.text.toList = y.text.toList ↔ x = y :=
    fun {x y} => ⟨fun h => TextName.eq_of_text (String.toList_inj.1 h), fun h => by rw [h]⟩
  have hId : ∀ {x y : NameSlot}, x.idText.toList = y.idText.toList ↔ x = y :=
    fun {x y} => ⟨fun h => NameSlot.idText_injective (String.toList_inj.1 h), fun h => by rw [h]⟩
  rw [← String.toList_inj]
  simp only [String.toList_append]
  cases a with
  | person p =>
    cases b <;> simp [kind, EndpointKind.sigil, text, Twins, hText, ← String.toList_inj]
  | institution i =>
    cases b <;>
      simp [kind, EndpointKind.sigil, text, Twins, hText, ← String.toList_inj, eq_comm]
  | id s =>
    cases b <;> simp [kind, EndpointKind.sigil, text, Twins, hId, ← String.toList_inj, eq_comm]
  | bot n => cases b <;> simp [kind, EndpointKind.sigil, text, Twins, hText]

end EndpointName

namespace Endpoint

theorem slash_not_mem_mainText (e : Endpoint) : '/' ∉ e.mainText.toList := by
  intro h
  rw [mainText, String.toList_append, List.mem_append] at h
  rcases h with h | h
  · revert h
    cases e.kind <;> decide
  · exact e.name.slash_not_mem_text h

theorem canonical_main (e : Endpoint) : e.main.canonical = e.mainText := by
  simp [canonical, main, mainText, kind]

/-- Different endpoints with the same canonical text. -/
def Twins (a b : Endpoint) : Prop := a.name.Twins b.name ∧ a.inst = b.inst

theorem splitInstance_of_not_mem {name : String} (h : '/' ∉ name.toList) :
    splitInstance name = (name, none) := by
  have hall : ∀ c ∈ name.toList, (c != '/') = true := by
    intro c hc
    simpa using fun hs : c = '/' => h (hs ▸ hc)
  unfold splitInstance
  rw [List.span_eq_takeWhile_dropWhile, List.takeWhile_eq_self_iff.2 hall,
    List.dropWhile_eq_nil_iff.2 hall]
  simp

theorem splitInstance_append {name : String} (h : '/' ∉ name.toList) (inst : String) :
    splitInstance (name ++ "/" ++ inst) = (name, some inst) := by
  have hall : ∀ c ∈ name.toList, (c != '/') = true := by
    intro c hc
    simpa using fun hs : c = '/' => h (hs ▸ hc)
  have htext : (name ++ "/" ++ inst).toList = name.toList ++ '/' :: inst.toList := by simp
  unfold splitInstance
  rw [htext, List.span_eq_takeWhile_dropWhile, List.takeWhile_append_of_pos hall,
    List.dropWhile_append_of_pos hall]
  simp

/-- The canonical text can be taken apart again. -/
theorem splitInstance_canonical (e : Endpoint) :
    splitInstance e.canonical =
      (e.mainText, if e.isMain then none else some e.instanceText) := by
  by_cases hmain : e.inst = 0
  · rw [canonical, if_pos hmain, splitInstance_of_not_mem e.slash_not_mem_mainText]
    simp [isMain, hmain]
  · rw [canonical, if_neg hmain, splitInstance_append e.slash_not_mem_mainText]
    simp [isMain, hmain]

theorem instanceText_injective {a b : Endpoint} (h : a.instanceText = b.instanceText) :
    a.inst = b.inst := by
  have hbytes := Hex.lower_injective h
  simp only [instanceBytes, List.cons.injEq, and_true] at hbytes
  obtain ⟨hhigh, hlow⟩ := hbytes
  have hhigh := congrArg UInt8.toNat hhigh
  have hlow := congrArg UInt8.toNat hlow
  have ha := a.inst.toNat_lt
  have hb := b.inst.toNat_lt
  simp only [UInt8.toNat_ofNat', UInt16.toNat_toUInt8] at hhigh hlow
  apply UInt16.toNat_inj.1
  omega

theorem canonical_eq_iff_of_parts {a b : Endpoint} :
    a.canonical = b.canonical ↔ a.mainText = b.mainText ∧ a.inst = b.inst := by
  constructor
  · intro h
    have hsplit := congrArg splitInstance h
    rw [splitInstance_canonical, splitInstance_canonical] at hsplit
    obtain ⟨hmain, hinst⟩ := Prod.mk.inj hsplit
    refine ⟨hmain, ?_⟩
    by_cases ha : a.inst = 0 <;> by_cases hb : b.inst = 0
    · rw [ha, hb]
    · simp [isMain, ha, hb] at hinst
    · simp [isMain, ha, hb] at hinst
    · simp only [isMain, ha, hb, beq_iff_eq, if_false, Option.some.injEq] at hinst
      exact instanceText_injective hinst
  · rintro ⟨hmain, hinst⟩
    unfold canonical instanceText instanceBytes
    rw [hmain, hinst]

/-- Only twins have the same canonical text. -/
theorem canonical_eq_iff {a b : Endpoint} : a.canonical = b.canonical ↔ a = b ∨ a.Twins b := by
  rw [canonical_eq_iff_of_parts]
  unfold mainText kind
  rw [EndpointName.eq_or_twins_iff]
  obtain ⟨aname, ainst⟩ := a
  obtain ⟨bname, binst⟩ := b
  constructor
  · rintro ⟨h | h, hi⟩
    · left
      rw [Endpoint.mk.injEq]
      exact ⟨h, hi⟩
    · right
      exact ⟨h, hi⟩
  · rintro (h | ⟨h, hi⟩)
    · rw [Endpoint.mk.injEq] at h
      exact ⟨.inl h.1, h.2⟩
    · exact ⟨.inr h, hi⟩

/-- The text without the instance is the canonical text of a main endpoint only. -/
theorem isMain_of_canonical_eq {a b : Endpoint} (h : a.canonical = b.mainText) :
    a.isMain = true := by
  have hsplit := congrArg splitInstance h
  rw [splitInstance_canonical, splitInstance_of_not_mem b.slash_not_mem_mainText] at hsplit
  obtain ⟨-, hinst⟩ := Prod.mk.inj hsplit
  by_cases ha : a.isMain = true
  · exact ha
  · rw [if_neg ha] at hinst
    cases hinst

end Endpoint

end Dxb
