import Mathlib.Data.Int.Notation
import Mathlib.Data.Nat.Notation
import Mathlib.Data.List.TakeWhile

/-!
# Decimal text of integers

* `toList_toString_ofNat`, `toList_toString_negSucc`, `toNat_of_mem_toString`: the characters of an
  integer in decimal.
* `stoi`: `std::stoi` to the base ten, `none` where it throws.
* **`stoi_toString`**: it reads back every `int`.
-/

namespace Decimal

theorem toList_toString_ofNat (n : ℕ) : (toString (n : ℤ)).toList = Nat.toDigits 10 n :=
  Nat.toList_repr

theorem toList_toString_negSucc (n : ℕ) :
    (toString (Int.negSucc n)).toList = '-' :: Nat.toDigits 10 (n + 1) := by
  have h : toString (Int.negSucc n) = "-" ++ Nat.repr (n + 1) := rfl
  rw [h, String.toList_append, Nat.toList_repr]
  rfl

theorem toNat_of_mem_toString {v : ℤ} {c : Char} (h : c ∈ (toString v).toList) :
    45 ≤ c.toNat ∧ c.toNat ≤ 57 := by
  have hdigit : ∀ n, c ∈ Nat.toDigits 10 n → 45 ≤ c.toNat ∧ c.toNat ≤ 57 := by
    intro n hn
    obtain ⟨hlow, hhigh⟩ : 48 ≤ c.toNat ∧ c.toNat ≤ 57 :=
      Char.isDigit_iff_toNat.mp (Nat.isDigit_of_mem_toDigits (by decide) (by decide) hn)
    exact ⟨by omega, hhigh⟩
  cases v with
  | ofNat n =>
    rw [show (toString (Int.ofNat n)).toList = Nat.toDigits 10 n from toList_toString_ofNat n] at h
    exact hdigit n h
  | negSucc n =>
    rw [toList_toString_negSucc, List.mem_cons] at h
    rcases h with rfl | h
    · decide
    · exact hdigit _ h

/-- `isspace` in the C locale -/
def isSpace (c : Char) : Bool :=
  c = ' ' || c = '\t' || c = '\n' || c = '\x0b' || c = '\x0c' || c = '\r'

/-- The value of the digits at the start of a text, if there are any. -/
def digitsValue (s : List Char) : Option ℤ :=
  match s.takeWhile Char.isDigit with
  | [] => none
  | digits => some (Nat.ofDigitChars 10 digits 0)

/-- White space, a sign and digits; what follows them is ignored. -/
def textValue (s : List Char) : Option ℤ :=
  match s.dropWhile isSpace with
  | '-' :: s => (digitsValue s).map (- ·)
  | '+' :: s => digitsValue s
  | s => digitsValue s

/-- It throws `invalid_argument` where there are no digits, and `out_of_range` where the value is no
`int`. -/
def stoi (s : String) : Option Int32 :=
  (textValue s.toList).bind fun v =>
    if Int32.minValue.toInt ≤ v ∧ v ≤ Int32.maxValue.toInt then some (Int32.ofInt v) else none

theorem digitsValue_toDigits (n : ℕ) : digitsValue (Nat.toDigits 10 n) = some (n : ℤ) := by
  have hall : (Nat.toDigits 10 n).takeWhile Char.isDigit = Nat.toDigits 10 n :=
    List.takeWhile_eq_self_iff.mpr fun c hc =>
      Nat.isDigit_of_mem_toDigits (by decide) (by decide) hc
  rw [digitsValue, hall]
  split
  · next h => exact absurd h Nat.toDigits_ne_nil
  · rw [Nat.ofDigitChars_ten_toDigits]

theorem isSpace_of_isDigit {c : Char} (h : c.isDigit = true) : isSpace c = false := by
  rw [Bool.eq_false_iff]
  intro hs
  simp only [isSpace, Bool.or_eq_true, decide_eq_true_eq] at hs
  rcases hs with ((((rfl | rfl) | rfl) | rfl) | rfl) | rfl <;> exact absurd h (by decide)

/-- A decimal text starts with a digit, which is neither white space nor a sign. -/
theorem textValue_toDigits (n : ℕ) : textValue (Nat.toDigits 10 n) = some (n : ℤ) := by
  obtain ⟨c, cs, hcs⟩ := List.exists_cons_of_ne_nil (Nat.toDigits_ne_nil (n := n) (b := 10))
  have hdigit : c.isDigit = true :=
    Nat.isDigit_of_mem_toDigits (n := n) (b := 10) (by decide) (by decide)
      (hcs ▸ List.mem_cons_self)
  have hvalue := digitsValue_toDigits n
  rw [hcs] at hvalue ⊢
  rw [textValue, List.dropWhile_cons_of_neg (by rw [isSpace_of_isDigit hdigit]; decide)]
  split
  · next h => exact absurd ((List.cons.inj h).1 ▸ hdigit) (by decide)
  · next h => exact absurd ((List.cons.inj h).1 ▸ hdigit) (by decide)
  · exact hvalue

theorem textValue_toString (v : ℤ) : textValue (toString v).toList = some v := by
  cases v with
  | ofNat n => exact (congrArg textValue (toList_toString_ofNat n)).trans (textValue_toDigits n)
  | negSucc n =>
    rw [toList_toString_negSucc, textValue, List.dropWhile_cons]
    simp [isSpace, digitsValue_toDigits, Int.negSucc_eq]

/-- **Reading back.** -/
theorem stoi_toString (i : Int32) : stoi (toString i.toInt) = some i := by
  rw [stoi, textValue_toString, Option.bind_some,
    if_pos ⟨Int32.minValue_le_toInt i, Int32.toInt_le i⟩, Int32.ofInt_toInt]

end Decimal
