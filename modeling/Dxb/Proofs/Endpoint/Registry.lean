import Dxb.Endpoint.Registry

/-!
# The table of a registry is exact

A key leads to a place exactly when the cell there is registered under it and has owners (`Exact`).
Sharing a cell that has owners, registering under a free key and giving a handle back keep this, so
no entry is stale and no two cells with owners have the same key.  `tally` counts the cells with
owners whose value has some property; it follows every operation.
-/

namespace Dxb.Registry

variable {α : Type}

/-- Every entry leads to a cell with owners and that key, and every such cell has its entry. -/
def Exact (r : Registry α) : Prop :=
  ∀ key place, r.table.lookup key = some place ↔ 0 < r.owners place ∧ r.key? place = some key

/-- How many cells have owners and a value with a property. -/
def tally (r : Registry α) (p : α → Bool) : Nat :=
  r.cells.countP fun c => decide (0 < c.owners) && p c.value

/-! ## Cells with owners -/

variable {r : Registry α}

theorem lt_length_of_owners_pos {place : Nat} (h : 0 < r.owners place) :
    place < r.cells.length := by
  apply Classical.byContradiction
  intro hn
  simp [owners, List.getElem?_eq_none (Nat.le_of_not_lt hn)] at h

theorem exists_cell_of_owners_pos {place : Nat} (h : 0 < r.owners place) :
    ∃ c, r.cells[place]? = some c ∧ c.owners = r.owners place ∧ r.key? place = some c.key ∧
      r.value? place = some c.value := by
  unfold owners key? value? at *
  cases hc : r.cells[place]? with
  | none => simp [hc] at h
  | some c => exact ⟨c, rfl, by simp, by simp, by simp⟩

theorem owners_length (r : Registry α) : r.owners r.cells.length = 0 := by
  simp [owners]

/-- What lies in a cell stays there when others are made. -/
theorem value?_insert_of_eq_some {place : Nat} {v : α} (h : r.value? place = some v) (key : String)
    (w : α) : (r.insert key w).2.value? place = some v := by
  rw [value?_insert, if_neg]
  · exact h
  · intro hp
    rw [hp] at h
    simp [value?] at h

theorem find?_eq_some_iff (hr : r.Exact) {key : String} {h : Ref α} :
    r.find? key = some h ↔
      0 < r.owners h.place ∧ r.key? h.place = some key ∧ r.value? h.place = some h.value := by
  unfold find? upgrade?
  constructor
  · intro hf
    obtain ⟨place, hl, hu⟩ := Option.bind_eq_some_iff.1 hf
    obtain ⟨ho, hk⟩ := (hr key place).1 hl
    rw [if_pos ho] at hu
    obtain ⟨v, hv, rfl⟩ := Option.map_eq_some_iff.1 hu
    exact ⟨ho, hk, hv⟩
  · rintro ⟨ho, hk, hv⟩
    rw [(hr key h.place).2 ⟨ho, hk⟩, Option.bind_some, if_pos ho, hv]
    rfl

theorem find?_eq_none_iff (hr : r.Exact) {key : String} :
    r.find? key = none ↔ ∀ place, r.key? place = some key → r.owners place = 0 := by
  constructor
  · intro hf place hk
    rcases Nat.eq_zero_or_pos (r.owners place) with h0 | h0
    · exact h0
    · obtain ⟨c, -, -, -, hv⟩ := exists_cell_of_owners_pos h0
      have := (find?_eq_some_iff hr (h := ⟨place, c.value⟩)).2 ⟨h0, hk, hv⟩
      rw [hf] at this
      cases this
  · intro h
    cases hf : r.find? key with
    | none => rfl
    | some ref =>
      obtain ⟨ho, hk, -⟩ := (find?_eq_some_iff hr).1 hf
      have := h _ hk
      omega

/-- Cells with owners and the same key are one cell. -/
theorem Exact.place_eq (hr : r.Exact) {p q : Nat} {key : String} (hp : 0 < r.owners p)
    (hpk : r.key? p = some key) (hq : 0 < r.owners q) (hqk : r.key? q = some key) : p = q := by
  have h1 := (hr key p).2 ⟨hp, hpk⟩
  have h2 := (hr key q).2 ⟨hq, hqk⟩
  rw [h1] at h2
  exact Option.some.inj h2

theorem mem_alive_iff {v : α} :
    v ∈ r.alive ↔ ∃ place, 0 < r.owners place ∧ r.value? place = some v := by
  unfold alive
  constructor
  · intro h
    obtain ⟨c, hc, rfl⟩ := List.mem_map.1 h
    obtain ⟨hm, ho⟩ := List.mem_filter.1 hc
    obtain ⟨place, hp⟩ := List.mem_iff_getElem?.1 hm
    refine ⟨place, ?_, ?_⟩
    · simpa [owners, hp] using ho
    · simp [value?, hp]
  · rintro ⟨place, ho, hv⟩
    obtain ⟨c, hc, hco, -, hcv⟩ := exists_cell_of_owners_pos ho
    rw [hv] at hcv
    refine List.mem_map.2 ⟨c, List.mem_filter.2 ⟨List.mem_of_getElem? hc, ?_⟩, ?_⟩
    · rw [hco]
      simpa using ho
    · exact (Option.some.inj hcv).symm

theorem find?_share {place : Nat} (ho : 0 < r.owners place) (key : String) :
    (r.share place).find? key = r.find? key := by
  have hup : (r.share place).upgrade? = r.upgrade? := by
    funext q
    unfold upgrade?
    rw [value?_share]
    by_cases hq : place = q
    · subst hq
      rw [share, owners_recount_self r ho, if_pos (Nat.succ_pos _), if_pos ho]
    · rw [share, owners_recount_ne r hq]
  unfold find?
  rw [hup]
  rfl

theorem find?_insert (hr : r.Exact) (key k : String) (v : α) :
    (r.insert key v).2.find? k = if k = key then some (r.insert key v).1 else r.find? k := by
  unfold find?
  show (List.lookup k ((key, r.cells.length) :: r.table.filter (·.1 != key))).bind _ = _
  rw [List.lookup_cons, lookup_filter_ne]
  by_cases hk : k = key
  · subst hk
    rw [if_pos rfl, beq_self_eq_true]
    simp [upgrade?, owners_insert, value?_insert]
    rfl
  · have hne : (k == key) = false := by simpa using hk
    simp only [hne, if_neg hk]
    cases hl : r.table.lookup k with
    | none => rfl
    | some place =>
      have hlt := lt_length_of_owners_pos ((hr k place).1 hl).1
      have hp : place ≠ r.cells.length := by omega
      simp [upgrade?, owners_insert, value?_insert, hp]

/-! ## Giving back the last handle -/

theorem drop_of_owners_eq_one {place : Nat} {key : String} {v : α} (ho : r.owners place = 1)
    (hk : r.key? place = some key) (hv : r.value? place = some v) :
    r.drop place = (some v, (r.recount place (· - 1)).release key) := by
  have hpos : 0 < r.owners place := by omega
  obtain ⟨⟨key', v', n⟩, hc, hn, hck, hcv⟩ := exists_cell_of_owners_pos hpos
  rw [hck] at hk
  rw [hcv] at hv
  cases hk
  cases hv
  have hn1 : n = 1 := by rw [← ho]; exact hn
  subst hn1
  simp [drop, hc]

theorem drop_of_one_lt_owners {place : Nat} (ho : 1 < r.owners place) :
    r.drop place = (none, r.recount place (· - 1)) := by
  have hpos : 0 < r.owners place := by omega
  obtain ⟨⟨key, v, n⟩, hc, hn, -, -⟩ := exists_cell_of_owners_pos hpos
  simp only at hn
  rw [← hn] at ho
  unfold drop
  rw [hc]
  dsimp only
  split
  · rename_i heq
    simp only [Option.some.injEq, Cell.mk.injEq] at heq
    omega
  · rfl

theorem value?_of_drop {place : Nat} {v : α} (h : (r.drop place).1 = some v) :
    r.value? place = some v := by
  unfold drop at h
  dsimp only at h
  split at h
  · rename_i hc
    cases h
    simp [value?, hc]
  · cases h

@[simp] theorem value?_drop (place q : Nat) : (r.drop place).2.value? q = r.value? q := by
  unfold drop
  dsimp only
  split <;> simp

@[simp] theorem key?_drop (place q : Nat) : (r.drop place).2.key? q = r.key? q := by
  unfold drop
  dsimp only
  split <;> simp

theorem owners_drop {place : Nat} (h : 0 < r.owners place) (q : Nat) :
    (r.drop place).2.owners q + (if place = q then 1 else 0) = r.owners q := by
  have hdrop : (r.drop place).2.owners q = (r.recount place (· - 1)).owners q := by
    unfold drop
    dsimp only
    split <;> simp
  rw [hdrop]
  by_cases hq : place = q
  · subst hq
    rw [owners_recount_self r h]
    simp only [if_true]
    omega
  · rw [owners_recount_ne r hq]
    simp [hq]

theorem owners_share {place : Nat} (h : 0 < r.owners place) (q : Nat) :
    (r.share place).owners q = r.owners q + if place = q then 1 else 0 := by
  unfold share
  by_cases hq : place = q
  · subst hq
    rw [owners_recount_self r h]
    simp
  · rw [owners_recount_ne r hq]
    simp [hq]

/-! ## Exactness is kept -/

theorem exact_empty : (empty : Registry α).Exact := by
  intro key place
  simp [empty, owners]

/-- Recounting keeps exactness as long as no cell gets its first owner or loses its last. -/
theorem Exact.recount (hr : r.Exact) {p : Nat} {f : Nat → Nat} (hp : 0 < r.owners p)
    (hf : 0 < f (r.owners p)) : (r.recount p f).Exact := by
  intro key place
  rw [key?_recount]
  show r.table.lookup key = some place ↔ _
  rw [hr key place]
  by_cases h : p = place
  · subst h
    rw [owners_recount_self r hp]
    constructor
    · exact fun ⟨_, hk⟩ => ⟨hf, hk⟩
    · exact fun ⟨_, hk⟩ => ⟨hp, hk⟩
  · rw [owners_recount_ne r h]

theorem Exact.share (hr : r.Exact) {p : Nat} (hp : 0 < r.owners p) : (r.share p).Exact :=
  hr.recount hp (by omega)

theorem Exact.insert (hr : r.Exact) {key : String} (hkey : r.find? key = none) (v : α) :
    (r.insert key v).2.Exact := by
  intro k place
  rw [owners_insert, key?_insert]
  show List.lookup k ((key, r.cells.length) :: r.table.filter (·.1 != key)) = some place ↔ _
  rw [List.lookup_cons, lookup_filter_ne]
  by_cases hk : k = key
  · subst hk
    simp only [beq_self_eq_true]
    by_cases hp : place = r.cells.length
    · simp [hp]
    · have h0 := (find?_eq_none_iff hr).1 hkey place
      simp only [if_neg hp, Option.some.injEq]
      constructor
      · intro h
        exact absurd h.symm hp
      · rintro ⟨ho, hk⟩
        have := h0 hk
        omega
  · have hne : (k == key) = false := by simpa using hk
    simp only [hne, if_neg hk]
    rw [hr k place]
    by_cases hp : place = r.cells.length
    · subst hp
      simp only [if_true, Option.some.injEq]
      constructor
      · rintro ⟨ho, -⟩
        exact absurd (lt_length_of_owners_pos ho) (by omega)
      · rintro ⟨-, h⟩
        exact absurd h.symm hk
    · simp [hp]

theorem Exact.drop (hr : r.Exact) {p : Nat} (hp : 0 < r.owners p) : (r.drop p).2.Exact := by
  rcases Nat.lt_or_ge 1 (r.owners p) with h1 | h1
  · rw [drop_of_one_lt_owners h1]
    exact hr.recount hp (by omega)
  · obtain ⟨c, -, -, hk, hv⟩ := exists_cell_of_owners_pos hp
    have ho : r.owners p = 1 := by omega
    rw [drop_of_owners_eq_one ho hk hv]
    have hlookup : r.table.lookup c.key = some p := (hr c.key p).2 ⟨hp, hk⟩
    have hzero : (r.recount p (· - 1)).owners p = 0 := by
      rw [owners_recount_self r hp]
      omega
    -- the entry is stale now, so releasing the key does remove it
    have hstale : (r.recount p (· - 1)).contains c.key = false := by
      show ((r.table.lookup c.key).bind (r.recount p (· - 1)).upgrade?).isSome = false
      simp [hlookup, upgrade?, hzero]
    intro key place
    rw [owners_release, key?_release, key?_recount]
    unfold release
    rw [if_neg (by simp [hstale])]
    show List.lookup key (r.table.filter (·.1 != c.key)) = some place ↔ _
    rw [lookup_filter_ne]
    by_cases hkey : key = c.key
    · subst hkey
      simp only [if_true]
      constructor
      · intro h
        cases h
      · rintro ⟨ho', hk'⟩
        by_cases hpp : p = place
        · subst hpp
          omega
        · rw [owners_recount_ne r hpp] at ho'
          exact absurd (hr.place_eq hp hk ho' hk') hpp
    · rw [if_neg hkey, hr key place]
      by_cases hpp : p = place
      · subst hpp
        rw [hk, hzero]
        constructor
        · rintro ⟨-, h⟩
          exact absurd (Option.some.inj h).symm hkey
        · rintro ⟨h, -⟩
          omega
      · rw [owners_recount_ne r hpp]

/-! ## Tallies -/

theorem countP_modify {β : Type} (p : β → Bool) (f : β → β) {l : List β} {i : Nat} {b : β}
    (h : l[i]? = some b) :
    (l.modify i f).countP p + (if p b then 1 else 0) =
      l.countP p + (if p (f b) then 1 else 0) := by
  induction l generalizing i with
  | nil => simp at h
  | cons a l ih =>
    cases i with
    | zero =>
      have hab : a = b := by simpa using h
      subst hab
      simp only [List.modify_zero_cons, List.countP_cons]
      omega
    | succ i =>
      have := ih (i := i) (by simpa using h)
      simp only [List.modify_succ_cons, List.countP_cons]
      omega

@[simp] theorem tally_release (key : String) (p : α → Bool) :
    (r.release key).tally p = r.tally p := by
  unfold release
  split <;> rfl

theorem tally_insert (key : String) (v : α) (p : α → Bool) :
    (r.insert key v).2.tally p = r.tally p + if p v then 1 else 0 := by
  simp [tally, insert, List.countP_append, List.countP_singleton]

/-- A cell that keeps an owner counts as before. -/
theorem tally_recount {place : Nat} {f : Nat → Nat} (hp : 0 < r.owners place)
    (hf : 0 < f (r.owners place)) (p : α → Bool) : (r.recount place f).tally p = r.tally p := by
  obtain ⟨c, hc, ho, -, -⟩ := exists_cell_of_owners_pos hp
  have := countP_modify (fun c : Cell α => decide (0 < c.owners) && p c.value)
    (fun c => { c with owners := f c.owners }) hc
  rw [← ho] at hp hf
  simp only [hp, hf, decide_true, Bool.true_and] at this
  unfold tally recount
  dsimp only
  omega

/-- A cell that loses its last owner does not count any more. -/
theorem tally_drop_last {place : Nat} {v : α} (ho : r.owners place = 1)
    (hv : r.value? place = some v) (p : α → Bool) :
    (r.drop place).2.tally p + (if p v then 1 else 0) = r.tally p := by
  have hpos : 0 < r.owners place := by omega
  obtain ⟨c, hc, hco, hck, hcv⟩ := exists_cell_of_owners_pos hpos
  rw [drop_of_owners_eq_one ho hck hv, tally_release]
  have := countP_modify (fun c : Cell α => decide (0 < c.owners) && p c.value)
    (fun c => { c with owners := c.owners - 1 }) hc
  rw [hv] at hcv
  cases hcv
  rw [ho] at hco
  simp only [hco, Nat.lt_irrefl, decide_true, decide_false, Bool.true_and, Bool.false_and,
    Nat.sub_self, Nat.zero_lt_one] at this
  unfold tally recount
  simpa using this

theorem tally_pos_iff {p : α → Bool} :
    0 < r.tally p ↔ ∃ place v, 0 < r.owners place ∧ r.value? place = some v ∧ p v = true := by
  unfold tally
  rw [List.countP_pos_iff]
  constructor
  · rintro ⟨c, hm, hc⟩
    obtain ⟨place, hplace⟩ := List.mem_iff_getElem?.1 hm
    simp only [Bool.and_eq_true, decide_eq_true_eq] at hc
    exact ⟨place, c.value, by simpa [owners, hplace] using hc.1, by simp [value?, hplace], hc.2⟩
  · rintro ⟨place, v, ho, hv, hp⟩
    obtain ⟨c, hc, hco, -, hcv⟩ := exists_cell_of_owners_pos ho
    rw [hv] at hcv
    cases hcv
    refine ⟨c, List.mem_of_getElem? hc, ?_⟩
    rw [hco]
    simp [ho, hp]

end Dxb.Registry
