import OnlineCaro.Lib.Run
import Mathlib.Data.Nat.Notation

/-!
# Blocks that are allocated and released

An address is free or has a block, which is unwritten at first. A block that is released is gone,
and its address may be given out again.

* `Blocks`, `malloc`, `store`, `free`: what becomes of one address, and of the others.
* `OwnsBlocks`, **`OwnsBlocks.malloc`**, **`OwnsBlocks.free`**: every block has one owner, as long
  as `malloc` gives out free addresses and nobody releases a block but its owner.
-/

namespace Allocation

open StepRun

/-- What stands at an address: no block, or one that may have been written. -/
abbrev Blocks (α : Type*) := ℕ → Option (Option α)

section Blocks

variable {α : Type*} {m : Blocks α} {p q : ℕ} {a : α}

/-- A new block at `p`. -/
def malloc (p : ℕ) (m : Blocks α) : Blocks α := Function.update m p (some none)

/-- Write to the block at `p`, if there is one. -/
def store (p : ℕ) (a : α) (m : Blocks α) : Blocks α :=
  Function.update m p ((m p).map fun _ => some a)

/-- Release the block at `p`. -/
def free (p : ℕ) (m : Blocks α) : Blocks α := Function.update m p none

@[simp] theorem malloc_self : malloc p m p = some none := Function.update_self ..

@[simp] theorem malloc_of_ne (h : q ≠ p) : malloc p m q = m q := Function.update_of_ne h ..

theorem store_self : store p a m p = (m p).map fun _ => some a := Function.update_self ..

@[simp] theorem store_of_ne (h : q ≠ p) : store p a m q = m q := Function.update_of_ne h ..

@[simp] theorem free_self : free p m p = none := Function.update_self ..

@[simp] theorem free_of_ne (h : q ≠ p) : free p m q = m q := Function.update_of_ne h ..

theorem store_eq_none : store p a m q = none ↔ m q = none := by
  by_cases h : q = p
  · subst h
    rw [store_self, Option.map_eq_none_iff]
  · rw [store_of_ne h]

theorem free_eq_none : free p m q = none ↔ q = p ∨ m q = none := by
  by_cases h : q = p
  · subst h
    rw [free_self]
    exact iff_of_true rfl (Or.inl rfl)
  · rw [free_of_ne h]
    exact (or_iff_right h).symm

theorem malloc_eq_none : malloc p m q = none ↔ q ≠ p ∧ m q = none := by
  by_cases h : q = p
  · subst h
    rw [malloc_self]
    exact iff_of_false (Option.some_ne_none _) fun h => h.1 rfl
  · rw [malloc_of_ne h]
    exact (and_iff_right h).symm

end Blocks

/-! ## Owners -/

section Owners

variable {α κ : Type*} [DecidableEq κ] {m : Blocks α} {p q : ℕ} {a : α} {k : κ}

/-- Every owner has a block, no two owners have the same one, and every block has an owner. -/
structure OwnsBlocks (m : Blocks α) (block : κ → Option ℕ) : Prop where
  live : ∀ {k p}, block k = some p → m p ≠ none
  apart : ∀ {k k' p}, block k = some p → block k' = some p → k = k'
  covers : ∀ {p}, m p ≠ none → ∃ k, block k = some p

variable {block : κ → Option ℕ}

omit [DecidableEq κ] in
theorem OwnsBlocks.store (h : OwnsBlocks m block) (p : ℕ) (a : α) :
    OwnsBlocks (store p a m) block where
  live hk := fun hnone => h.live hk (store_eq_none.mp hnone)
  apart := h.apart
  covers hp := h.covers fun hnone => hp (store_eq_none.mpr hnone)

/-- A block at a free address belongs to its new owner only. -/
theorem OwnsBlocks.malloc (h : OwnsBlocks m block) (hp : m p = none) (hk : block k = none) :
    OwnsBlocks (malloc p m) (Function.update block k (some p)) := by
  have hother : ∀ {k' q}, Function.update block k (some p) k' = some q →
      (k' = k ∧ q = p) ∨ (q ≠ p ∧ block k' = some q) := by
    intro k' q hk'
    rcases update_cases hk' with ⟨he, hq⟩ | ⟨-, hk'⟩
    · exact Or.inl ⟨he, (Option.some.inj hq).symm⟩
    · exact Or.inr ⟨fun hq => h.live hk' (hq ▸ hp), hk'⟩
  constructor
  · intro k' q hk'
    rcases hother hk' with ⟨-, rfl⟩ | ⟨hq, hk'⟩
    · rw [malloc_self]
      exact Option.some_ne_none _
    · rw [malloc_of_ne hq]
      exact h.live hk'
  · intro k₁ k₂ q h₁ h₂
    rcases hother h₁ with ⟨rfl, rfl⟩ | ⟨hq, h₁⟩ <;> rcases hother h₂ with ⟨rfl, hq'⟩ | ⟨hq', h₂⟩
    · rfl
    · exact absurd rfl hq'
    · exact absurd hq' hq
    · exact h.apart h₁ h₂
  · intro q hq
    by_cases he : q = p
    · exact ⟨k, by rw [Function.update_self, he]⟩
    · rw [malloc_of_ne he] at hq
      obtain ⟨k', hk'⟩ := h.covers hq
      have hne : k' ≠ k := by
        rintro rfl
        rw [hk] at hk'
        cases hk'
      exact ⟨k', by rwa [Function.update_of_ne hne]⟩

/-- An owner that releases its block takes no other one away. -/
theorem OwnsBlocks.free (h : OwnsBlocks m block) (hk : block k = some p) :
    OwnsBlocks (free p m) (Function.update block k none) := by
  have hother : ∀ {k' q}, Function.update block k none k' = some q →
      q ≠ p ∧ block k' = some q := by
    intro k' q hk'
    rcases update_cases hk' with ⟨-, ⟨⟩⟩ | ⟨he, hk'⟩
    exact ⟨fun hq => he (h.apart hk' (hq ▸ hk)), hk'⟩
  constructor
  · intro k' q hk'
    obtain ⟨hq, hk'⟩ := hother hk'
    rw [free_of_ne hq]
    exact h.live hk'
  · exact fun h₁ h₂ => h.apart (hother h₁).2 (hother h₂).2
  · intro q hq
    rw [ne_eq, free_eq_none, not_or] at hq
    obtain ⟨k', hk'⟩ := h.covers hq.2
    have hne : k' ≠ k := by
      rintro rfl
      exact hq.1 (Option.some.inj (hk'.symm.trans hk))
    exact ⟨k', by rwa [Function.update_of_ne hne]⟩

end Owners

end Allocation
