import Mathlib.Data.List.Basic

/-!
# Tenure

Who holds what, read off a history with its newest entry first: an entry may give a resource to a
party (`grants`) and may end everything a party holds (`ends`).

* `Holds grants ends h s r`: in `h`, party `s` was given `r` and its tenure has not ended since.
* `Exclusive`: no resource has two holders.
* `exclusive_cons`: exclusion survives an entry that gives a resource to one party only, and only
  while nobody else holds it.
-/

namespace Tenure

variable {ε ι ρ : Type*} (grants : ε → ι → ρ → Prop) (ends : ε → ι → Prop)

/-- Party `s` holds `r` after the history `h`. -/
def Holds : List ε → ι → ρ → Prop
  | [], _, _ => False
  | e :: h, s, r => grants e s r ∨ ¬ ends e s ∧ Holds h s r

instance decidableHolds [∀ e s r, Decidable (grants e s r)] [∀ e s, Decidable (ends e s)] :
    ∀ (h : List ε) (s : ι) (r : ρ), Decidable (Holds grants ends h s r)
  | [], _, _ => isFalse id
  | e :: h, s, r =>
    have := decidableHolds h s r
    inferInstanceAs (Decidable (grants e s r ∨ ¬ ends e s ∧ Holds grants ends h s r))

/-- No resource has two holders. -/
def Exclusive (h : List ε) : Prop :=
  ∀ r s t, Holds grants ends h s r → Holds grants ends h t r → s = t

variable {grants ends} {e : ε} {h : List ε} {s : ι} {r : ρ}

theorem holds_cons : Holds grants ends (e :: h) s r ↔
    grants e s r ∨ ¬ ends e s ∧ Holds grants ends h s r := Iff.rfl

theorem exclusive_nil : Exclusive grants ends [] := fun _ _ _ hs => hs.elim

/-- An entry that neither gives `r` to `s` nor ends the tenure of `s` changes nothing between
them. -/
theorem holds_cons_of_not (hg : ¬ grants e s r) (he : ¬ ends e s) :
    Holds grants ends (e :: h) s r ↔ Holds grants ends h s r := by
  rw [holds_cons]
  exact ⟨fun hh => (hh.resolve_left hg).2, fun hh => Or.inr ⟨he, hh⟩⟩

/-- **Exclusion step.** If an entry gives a resource to at most one party, and only while every
other holder loses it by the same entry, no resource gets a second holder. -/
theorem exclusive_cons (hex : Exclusive grants ends h)
    (hone : ∀ r s t, grants e s r → grants e t r → s = t)
    (hnew : ∀ r s t, grants e s r → Holds grants ends h t r → ends e t ∨ s = t) :
    Exclusive grants ends (e :: h) := by
  intro r s t hs ht
  rcases hs with hs | ⟨hsn, hs⟩ <;> rcases ht with ht | ⟨htn, ht⟩
  · exact hone r s t hs ht
  · exact (hnew r s t hs ht).resolve_left htn
  · exact ((hnew r t s ht hs).resolve_left hsn).symm
  · exact hex r s t hs ht

end Tenure
