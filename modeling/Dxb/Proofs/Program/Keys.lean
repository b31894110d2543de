import Mathlib.Data.List.Induction
import Dxb.Proofs.Program.Provenance
import Dxb.Proofs.Program.Sequence
import Dxb.Proofs.Text.Literals

/-!
# Keys as literals

A text literal is read back by undoing its escapes (`Quoted.IsLiteral`).  The key of an element also
stands between double quotes, but only its single quotes are escaped, which no reader of literals
undoes, and nothing else is.  So a key is read back if and only if it needs no escape at all, except
that a backslash and a single quote behind it make an escaped backslash together (`readsBack`).
-/

namespace Dxb

open Quoted (unescape? escape escapeChar literal IsLiteral)

/-! ## Inside the quotes of a key -/

/-- What stands between the quotes of a key. -/
def keyChars (key : List Char) : List Char :=
  key.flatMap fun c => if c = '\'' then ['\\', '\''] else [c]

theorem toList_keyText (key : String) :
    (keyText key).toList = ('"' :: keyChars key.toList ++ ['"']) ++ [':', ' '] := by
  have hinside : (String.ofList (keyChars key.toList)).toList = keyChars key.toList :=
    String.toList_ofList
  have htext : keyText key = "\"" ++ String.ofList (keyChars key.toList) ++ "\": " := rfl
  rw [htext, String.toList_append, String.toList_append, hinside]
  simp

@[simp] theorem keyChars_nil : keyChars [] = [] := rfl

@[simp] theorem keyChars_quote (rest : List Char) :
    keyChars ('\'' :: rest) = '\\' :: '\'' :: keyChars rest := rfl

theorem keyChars_cons {c : Char} (h : c ≠ '\'') (rest : List Char) :
    keyChars (c :: rest) = c :: keyChars rest := by
  unfold keyChars
  rw [List.flatMap_cons, if_neg h]
  rfl

/-- A backslash in front of a single quote and the one that escapes the quote are read as one. -/
theorem unescape?_keyChars_pair (rest : List Char) :
    unescape? (keyChars ('\\' :: '\'' :: rest)) =
      (unescape? (keyChars rest)).map fun u => '\\' :: '\'' :: u := by
  rw [keyChars_cons (by decide), keyChars_quote, unescape?, if_pos (.inl rfl),
    Quoted.unescape?_cons (by decide) (by decide), Option.map_map]
  rfl

theorem unescape?_keyChars_quote (rest : List Char) :
    unescape? (keyChars ('\'' :: rest)) = none := by
  rw [keyChars_quote, unescape?]
  rfl

/-- Reading a key gives no more characters than there are in it. -/
theorem length_le_of_unescape?_keyChars {key u : List Char}
    (h : unescape? (keyChars key) = some u) : u.length ≤ key.length := by
  induction key using List.twoStepInduction generalizing u with
  | nil =>
    cases h
    exact Nat.le_refl 0
  | singleton c =>
    by_cases hquote : c = '\''
    · rw [hquote, unescape?_keyChars_quote] at h
      cases h
    · rw [keyChars_cons hquote, keyChars_nil, unescape?] at h
      · split at h
        · cases h
        · cases h
          exact Nat.le_refl 1
      · intro e rest' _ hrest
        cases hrest
  | cons_cons c d rest ih ihd =>
    by_cases hc : c = '\''
    · rw [hc, unescape?_keyChars_quote] at h
      cases h
    by_cases hslash : c = '\\'
    · subst hslash
      by_cases hd : d = '\''
      · subst hd
        rw [unescape?_keyChars_pair] at h
        obtain ⟨v, hv, rfl⟩ := Option.map_eq_some_iff.1 h
        exact Nat.add_le_add_right (ih hv) 2
      · rw [keyChars_cons hc, keyChars_cons hd] at h
        obtain ⟨e, v, rfl, hv⟩ := Quoted.exists_of_unescape?_pair h
        exact Nat.le_succ_of_le (Nat.add_le_add_right (ih hv) 1)
    by_cases hquote : c = '"'
    · subst hquote
      rw [keyChars_cons hc, unescape?] at h
      · cases h
      · intro e rest' hslash
        cases hslash
    · rw [keyChars_cons hc, Quoted.unescape?_cons hslash hquote] at h
      obtain ⟨v, hv, rfl⟩ := Option.map_eq_some_iff.1 h
      exact Nat.add_le_add_right (ihd d hv) 1

/-- A backslash is read with what follows it, and then too little is left to be the key. -/
theorem unescape?_keyChars_slash_ne {rest : List Char} (h : ∀ tail, rest ≠ '\'' :: tail) :
    unescape? (keyChars ('\\' :: rest)) ≠ some ('\\' :: rest) := by
  intro heq
  cases rest with
  | nil => cases heq
  | cons d rest =>
    have hd : d ≠ '\'' := fun hd => h rest (congrArg (· :: rest) hd)
    rw [keyChars_cons (by decide), keyChars_cons hd] at heq
    obtain ⟨e, v, hkey, hv⟩ := Quoted.exists_of_unescape?_pair heq
    have hlength := length_le_of_unescape?_keyChars hv
    rw [← (List.cons.inj hkey).2, List.length_cons] at hlength
    exact Nat.not_succ_le_self _ hlength

/-- No character of a key needs an escape, but for pairs of a backslash and a single quote. -/
def readsBack : List Char → Bool
  | '\\' :: '\'' :: rest => readsBack rest
  | c :: rest => !(c == '\\' || c == '"' || c == '\'') && readsBack rest
  | [] => true

/-- Reading a key back gives the key exactly if nothing in it needs an escape, pairs of a backslash
and a single quote apart. -/
theorem unescape?_keyChars_eq_iff (key : List Char) :
    unescape? (keyChars key) = some key ↔ readsBack key = true := by
  induction key using readsBack.induct with
  | case1 rest ih =>
    rw [unescape?_keyChars_pair, readsBack, ← ih]
    simp
  | case2 c rest hpair ih =>
    rw [readsBack]
    · by_cases hsingle : c = '\''
      · subst hsingle
        rw [unescape?_keyChars_quote]
        simp
      rw [keyChars_cons hsingle]
      by_cases hslash : c = '\\'
      · subst hslash
        have hne := unescape?_keyChars_slash_ne fun d hd => hpair d rfl hd
        rw [keyChars_cons hsingle] at hne
        simp [hne]
      by_cases hquote : c = '"'
      · subst hquote
        simp [unescape?]
      · rw [Quoted.unescape?_cons hslash hquote]
        simp [hslash, hquote, hsingle, ih]
    · exact hpair
  | case3 => simp [unescape?, readsBack]

/-- Of the characters that a key that is read back is made of, literals escape these. -/
theorem cons_eq_escapeChar_append_iff {c : Char} (hslash : c ≠ '\\') (hquote : c ≠ '"')
    (keepNewlines : Bool) (rest other : List Char) :
    c :: rest = escapeChar keepNewlines c ++ other ↔
      (c ≠ '\r' ∧ c ≠ '\t' ∧ (c = '\n' → keepNewlines = true)) ∧ rest = other := by
  by_cases hplain : c ≠ '\r' ∧ c ≠ '\t' ∧ (c = '\n' → keepNewlines = true)
  · rw [Quoted.escapeChar_of_plain ⟨hslash, hquote, hplain⟩, and_iff_right hplain,
      List.singleton_append, List.cons.injEq, and_iff_right rfl]
  · have hescaped : ¬ Quoted.Plain keepNewlines c := fun h => hplain h.2.2
    obtain ⟨e, -, he⟩ := Quoted.exists_escapeChar_of_not_plain hescaped
    rw [he]
    exact ⟨fun h => absurd (List.cons.inj h).1 hslash, fun h => absurd h.1 hplain⟩

/-- A key that is read back is written as a text literal would be exactly if it holds none of the
other characters that a literal escapes. -/
theorem keyChars_eq_escape_iff_of_readsBack (keepNewlines : Bool) {key : List Char}
    (h : readsBack key = true) : keyChars key = escape keepNewlines key ↔
      ∀ c ∈ key, c ≠ '\r' ∧ c ≠ '\t' ∧ (c = '\n' → keepNewlines = true) := by
  induction key using readsBack.induct with
  | case1 rest ih =>
    rw [readsBack] at h
    have hescape : escape keepNewlines ('\\' :: '\'' :: rest) =
        '\\' :: '\\' :: '\'' :: escape keepNewlines rest := rfl
    rw [keyChars_cons (by decide), keyChars_quote, hescape]
    simp [ih h]
  | case2 c rest hpair ih =>
    rw [readsBack] at h
    · simp only [Bool.and_eq_true, Bool.not_eq_true', Bool.or_eq_false_iff, beq_eq_false_iff_ne]
        at h
      obtain ⟨⟨⟨hslash, hquote⟩, hsingle⟩, hrest⟩ := h
      rw [keyChars_cons hsingle, Quoted.escape_cons, cons_eq_escapeChar_append_iff hslash
        hquote, ih hrest, List.forall_mem_cons]
    · exact hpair
  | case3 => simp [escape]

theorem keyChars_eq_escape_iff (keepNewlines : Bool) (key : List Char) :
    keyChars key = escape keepNewlines key ↔ readsBack key = true ∧
      ∀ c ∈ key, c ≠ '\r' ∧ c ≠ '\t' ∧ (c = '\n' → keepNewlines = true) := by
  constructor
  · intro h
    have hback : readsBack key = true := by
      rw [← unescape?_keyChars_eq_iff, h, Quoted.unescape?_escape]
    exact ⟨hback, (keyChars_eq_escape_iff_of_readsBack keepNewlines hback).1 h⟩
  · rintro ⟨hback, hplain⟩
    exact (keyChars_eq_escape_iff_of_readsBack keepNewlines hback).2 hplain

/-! ## The separators of a program -/

namespace DecodeContext

variable {ctx : DecodeContext} {body : List UInt8} {m : Moment} {s' : DecoderState} {c' : Cursor}

/-- The separator that a key becomes ends in a colon and a space.  What stands in front of them is
read back as the key exactly if nothing in the key needs an escape, but for pairs of a backslash and
a single quote; and it is what a text value with the same string is written as exactly if the key
holds no tab, no carriage return, and no line feed that a text would escape either. -/
theorem key_isLiteral_iff (hsteps : ctx.Steps .initial (.ofBytes body) m.state m.start)
    (htakes : ctx.Takes m s' c') {key : String}
    (hkey : m.instruction = .assigned .elementWithKey (key, ())) :
    ∃ text : String, (ctx.decode body).tree.tokenAt m.state.current
        (m.state.tree.tokens m.state.current).size = some (.separator (text ++ ": ")) ∧
      (IsLiteral text.toList key ↔ readsBack key.toList = true) ∧
      ∀ keepNewlines, text = literal keepNewlines key ↔ readsBack key.toList = true ∧
        ∀ c ∈ key.toList, c ≠ '\r' ∧ c ≠ '\t' ∧ (c = '\n' → keepNewlines = true) := by
  have htoken : (ctx.effect m.state.depth m.instruction).token? m.state.tree.size =
      some (.separator (keyText key)) := by
    rw [hkey]
    rfl
  let text := String.ofList ('"' :: keyChars key.toList ++ ['"'])
  have htext : keyText key = text ++ ": " := by
    apply String.toList_injective
    rw [toList_keyText, String.toList_append, String.toList_ofList]
    rfl
  refine ⟨text, ?_, ?_, fun keepNewlines => ?_⟩
  · rw [← htext]
    exact tokenAt_decode hsteps htakes htoken
  · rw [String.toList_ofList, Quoted.isLiteral_enclosed_iff, unescape?_keyChars_eq_iff]
  · rw [← keyChars_eq_escape_iff, literal, String.ofList_inj, List.append_cancel_right_eq,
      List.cons.injEq, and_iff_right rfl]

/-- An object with the key `a\'`, whose backslash and single quote are written like those of a
literal. -/
theorem key_isLiteral_of_pair :
    let ctx := ({} : Options).context 64
    let body := [0xe2, 0xe6, 3, 0x61, 0x5c, 0x27, 0xc8, 0xe3]
    ∃ text : String, (ctx.decode body).tree.tokenAt 1 0 = some (.separator (text ++ ": ")) ∧
      IsLiteral text.toList "a\\'" ∧ text = literal false "a\\'" := by
  intro ctx body
  let first : Moment := ⟨.initial, ⟨body, 0⟩, .assigned (.opening .object) ()⟩
  let s₁ := first.state.apply (ctx.effect 0 first.instruction)
  let m : Moment := ⟨s₁, ⟨body.drop 1, 1⟩, .assigned .elementWithKey ("a\\'", ())⟩
  have hsteps : ctx.Steps .initial (.ofBytes body) m.state m.start :=
    .head (Takes.step (m := first) ⟨rfl, rfl, rfl⟩) (.refl _ _)
  have hkey : (utf8 "a\\'").length < 256 := by decide
  have hfits : m.instruction.Fits := ⟨hkey, trivial⟩
  have htakes : ctx.Takes m (m.state.apply (ctx.effect 1 m.instruction)) ⟨[0xc8, 0xe3], 6⟩ :=
    ctx.takes_of_write hfits (by decide) (by decide +kernel) (by decide +kernel)
  obtain ⟨text, htoken, hliteral, hwritten⟩ := key_isLiteral_iff hsteps htakes rfl
  exact ⟨text, htoken, hliteral.2 (by decide), (hwritten false).2 ⟨by decide, by simp⟩⟩

/-- An object with the key `a"b`: its text is no literal, and the script shows a double quote too
many. -/
theorem key_with_double_quote :
    let ctx := ({} : Options).context 64
    let body := [0xe2, 0xe6, 3, 0x61, 0x22, 0x62, 0xc8, 0xe3]
    ∃ m s' c', ctx.Steps .initial (.ofBytes body) m.state m.start ∧ ctx.Takes m s' c' ∧
      m.instruction = .assigned .elementWithKey ("a\"b", ()) ∧
      (ctx.decode body).tree.tokenAt 1 0 = some (.separator "\"a\"b\": ") ∧
      ¬ IsLiteral "\"a\"b\"".toList "a\"b" ∧
      (ctx.decode body).tree.render false = "\x7b\"a\"b\": null\x7d" := by
  intro ctx body
  let first : Moment := ⟨.initial, ⟨body, 0⟩, .assigned (.opening .object) ()⟩
  let s₁ := first.state.apply (ctx.effect 0 first.instruction)
  let m : Moment := ⟨s₁, ⟨body.drop 1, 1⟩, .assigned .elementWithKey ("a\"b", ())⟩
  have hsteps : ctx.Steps .initial (.ofBytes body) m.state m.start :=
    .head (Takes.step (m := first) ⟨rfl, rfl, rfl⟩) (.refl _ _)
  have hkey : (utf8 "a\"b").length < 256 := by decide
  have hfits : m.instruction.Fits := ⟨hkey, trivial⟩
  have htakes : ctx.Takes m (m.state.apply (ctx.effect 1 m.instruction)) ⟨[0xc8, 0xe3], 6⟩ :=
    ctx.takes_of_write hfits (by decide) (by decide +kernel) (by decide +kernel)
  have hliteral : ¬ IsLiteral ('"' :: ['a', '"', 'b'] ++ ['"']) "a\"b" := by
    rw [Quoted.isLiteral_enclosed_iff]
    decide
  exact ⟨m, _, _, hsteps, htakes, rfl, by decide +kernel, hliteral, by decide +kernel⟩

end DecodeContext

end Dxb
