import Mathlib.Data.List.Basic
import Mathlib.Data.Nat.Notation

/-!
# Neighbours in a ranking

A list in the order of a relation, and the entries around a place.

* `above`, `below`: the entries at most `w` places before and behind place `k`.
* **`left_out`**: an entry that is in neither has `w` entries between itself and place `k`.
-/

namespace Ranking

variable {α : Type*} {r : α → α → Prop} {w k j : ℕ} {l : List α} {a b me : α}

/-- The entries at most `w` places before place `k`. -/
def above (w k : ℕ) (l : List α) : List α := (l.take k).drop (k - w)

/-- The entries at most `w` places behind place `k`. -/
def below (w k : ℕ) (l : List α) : List α := (l.drop (k + 1)).take w

theorem mem_above : a ∈ above w k l ↔ ∃ i, l[i]? = some a ∧ i < k ∧ k ≤ i + w := by
  rw [above, List.mem_iff_getElem?]
  simp only [List.getElem?_drop, List.getElem?_take]
  constructor
  · rintro ⟨i, hi⟩
    split_ifs at hi with hlt
    exact ⟨k - w + i, hi, hlt, by omega⟩
  · rintro ⟨i, hi, hlt, hle⟩
    refine ⟨i - (k - w), ?_⟩
    have hplace : k - w + (i - (k - w)) = i := by omega
    rw [hplace, if_pos hlt, hi]

theorem mem_below : a ∈ below w k l ↔ ∃ i, l[i]? = some a ∧ k < i ∧ i ≤ k + w := by
  rw [below, List.mem_iff_getElem?]
  simp only [List.getElem?_take, List.getElem?_drop]
  constructor
  · rintro ⟨i, hi⟩
    split_ifs at hi with hlt
    exact ⟨k + 1 + i, hi, by omega, by omega⟩
  · rintro ⟨i, hi, hlt, hle⟩
    refine ⟨i - (k + 1), ?_⟩
    have hplace : k + 1 + (i - (k + 1)) = i := by omega
    rw [hplace, if_pos (by omega), hi]

theorem mem_above_or_below : a ∈ above w k l ++ below w k l ↔
    ∃ i, l[i]? = some a ∧ i ≠ k ∧ k ≤ i + w ∧ i ≤ k + w := by
  rw [List.mem_append, mem_above, mem_below]
  constructor
  · rintro (⟨i, hi, hlt, hle⟩ | ⟨i, hi, hlt, hle⟩)
    · exact ⟨i, hi, by omega, hle, by omega⟩
    · exact ⟨i, hi, by omega, by omega, hle⟩
  · rintro ⟨i, hi, hne, hlo, hhi⟩
    rcases Nat.lt_or_gt_of_ne hne with hlt | hgt
    · exact Or.inl ⟨i, hi, hlt, hlo⟩
    · exact Or.inr ⟨i, hi, hgt, hhi⟩

theorem length_above (hk : k ≤ l.length) : (above w k l).length = min w k := by
  rw [above, List.length_drop, List.length_take_of_le hk]
  omega

theorem length_below : (below w k l).length = min w (l.length - (k + 1)) := by
  rw [below, List.length_take, List.length_drop]

theorem above_sublist (w k : ℕ) (l : List α) : (above w k l).Sublist l :=
  (List.drop_sublist _ _).trans (List.take_sublist _ _)

theorem below_sublist (w k : ℕ) (l : List α) : (below w k l).Sublist l :=
  (List.take_sublist _ _).trans (List.drop_sublist _ _)

theorem ordered (h : l.Pairwise r) {i j : ℕ} (hi : l[i]? = some a) (hj : l[j]? = some b)
    (hij : i < j) : r a b := by
  obtain ⟨hi', rfl⟩ := List.getElem?_eq_some_iff.mp hi
  obtain ⟨hj', rfl⟩ := List.getElem?_eq_some_iff.mp hj
  exact List.pairwise_iff_getElem.mp h i j hi' hj' hij

/-- **Who is left out.** There are `w` entries between such an entry and place `k`. -/
theorem left_out (h : l.Pairwise r) (hme : l[k]? = some me) (hb : l[j]? = some b) (hne : j ≠ k)
    (habove : b ∉ above w k l) (hbelow : b ∉ below w k l) :
    ((above w k l).length = w ∧ ∀ a ∈ above w k l, r b a ∧ r a me) ∨
      ((below w k l).length = w ∧ ∀ a ∈ below w k l, r me a ∧ r a b) := by
  have hk : k < l.length := (List.getElem?_eq_some_iff.mp hme).1
  have hj : j < l.length := (List.getElem?_eq_some_iff.mp hb).1
  rcases Nat.lt_or_gt_of_ne hne with hlt | hgt
  · have hfar : j + w < k := Nat.lt_of_not_le fun hle => habove (mem_above.mpr ⟨j, hb, hlt, hle⟩)
    refine Or.inl ⟨by rw [length_above (Nat.le_of_lt hk)]; omega, fun a ha => ?_⟩
    obtain ⟨i, hi, hik, hki⟩ := mem_above.mp ha
    exact ⟨ordered h hb hi (by omega), ordered h hi hme hik⟩
  · have hfar : k + w < j := Nat.lt_of_not_le fun hle => hbelow (mem_below.mpr ⟨j, hb, hgt, hle⟩)
    refine Or.inr ⟨by rw [length_below]; omega, fun a ha => ?_⟩
    obtain ⟨i, hi, hki, hik⟩ := mem_below.mp ha
    exact ⟨ordered h hme hi hki, ordered h hi hb (by omega)⟩

end Ranking
