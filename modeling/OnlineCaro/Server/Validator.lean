import OnlineCaro.Lib.CString
import Mathlib.Algebra.Group.Nat.Defs
import Mathlib.Algebra.Group.Int.Defs

/-!
# Letters and digits of a request

`isValidRequest` counts the letters and the digits of a string of letters and digits, and
`splitCharsAndDigits` writes them to two arrays that the caller has to provide.

* `isValidRequest`, `splitCharsAndDigits`: the functions of the source, `none` where an `int`
  overflows or a cell out of range is written.
* `validLoop_eq`, `validLoop_overflow`: the first loop, up to the first character that is neither.
* `splitLoop_eq`: the second loop writes what the first has counted.
* **`validator_splitter_agree`**: the two agree on every string that does not begin with `2 ^ 31`
  letters and digits.
-/

namespace OnlineCaro

open CMem

/-! ## The two functions -/

/-- A NUL-terminated string of ASCII characters. -/
structure AsciiString extends CString where
  ascii : ∀ c ∈ bytes, c < 128

/-- `++` on an `int`; `none` if it overflows. -/
def intSucc (x : ℤ) : Option ℤ := if x + 1 < 2 ^ 31 then some (x + 1) else none

/-- `toupper` of an ASCII character, in the C locale. -/
def toupper (c : UInt8) : UInt8 := if 97 ≤ c ∧ c ≤ 122 then c - 32 else c

/-- `'A' <= toupper(c) <= 'Z'` -/
def charTest (c : UInt8) : Bool := 65 ≤ toupper c ∧ toupper c ≤ 90

/-- `'0' <= c <= '9'` -/
def digitTest (c : UInt8) : Bool := 48 ≤ c ∧ c ≤ 57

/-- The loop of `isValidRequest`, from index `i` on. -/
def validLoop : ℤ → ℤ → ℤ → List UInt8 → Option (Bool × ℤ × ℤ)
  | _, totalChars, totalDigits, [] => some (true, totalChars, totalDigits)
  | i, totalChars, totalDigits, c :: rest =>
    if charTest c then do
      let totalChars ← intSucc totalChars
      let i ← intSucc i
      validLoop i totalChars totalDigits rest
    else if digitTest c then do
      let totalDigits ← intSucc totalDigits
      let i ← intSucc i
      validLoop i totalChars totalDigits rest
    else some (false, totalChars, totalDigits)

/-- The result, and the two counters. -/
def isValidRequest (request : AsciiString) (totalChars totalDigits : ℤ) :
    Option (Bool × ℤ × ℤ) := validLoop 0 totalChars totalDigits request.bytes

/-- The loop of `splitCharsAndDigits`, from index `i` on. -/
def splitLoop : ℤ → ℤ → ℤ → Block → Block → List UInt8 → Option (Block × Block)
  | _, _, _, chars, digits, [] => some (chars, digits)
  | i, charsCounter, numsCounter, chars, digits, c :: rest =>
    if charTest c then do
      let chars ← chars.store charsCounter.toNat c
      let charsCounter ← intSucc charsCounter
      let i ← intSucc i
      splitLoop i charsCounter numsCounter chars digits rest
    else if digitTest c then do
      let digits ← digits.store numsCounter.toNat c
      let numsCounter ← intSucc numsCounter
      let i ← intSucc i
      splitLoop i charsCounter numsCounter chars digits rest
    else do
      let i ← intSucc i
      splitLoop i charsCounter numsCounter chars digits rest

/-- The two arrays. -/
def splitCharsAndDigits (args : AsciiString) (chars digits : Block) : Option (Block × Block) :=
  splitLoop 0 0 0 chars digits args.bytes

/-! ## The character classes -/

/-- A letter of the alphabet, of either case. -/
def isLetter (c : UInt8) : Bool := (Char.ofUInt8 c).isAlpha

def isDigit (c : UInt8) : Bool := (Char.ofUInt8 c).isDigit

theorem isLetter_iff {c : UInt8} : isLetter c = true ↔
    65 ≤ c.toNat ∧ c.toNat ≤ 90 ∨ 97 ≤ c.toNat ∧ c.toNat ≤ 122 := by
  have hdef : isLetter c = (decide (65 ≤ c.toUInt32 ∧ c.toUInt32 ≤ 90) ||
      (decide (97 ≤ c.toUInt32) && decide (c.toUInt32 ≤ 122))) := rfl
  rw [hdef, Bool.or_eq_true_iff, Bool.and_eq_true, decide_eq_true_eq, decide_eq_true_eq,
    decide_eq_true_eq]
  simp only [UInt32.le_iff_toNat_le, UInt8.toNat_toUInt32, UInt32.reduceToNat]

theorem isDigit_iff {c : UInt8} : isDigit c = true ↔ 48 ≤ c.toNat ∧ c.toNat ≤ 57 := by
  have hdef : isDigit c = (decide (48 ≤ c.toUInt32) && decide (c.toUInt32 ≤ 57)) := rfl
  rw [hdef, Bool.and_eq_true, decide_eq_true_eq, decide_eq_true_eq]
  simp only [UInt32.le_iff_toNat_le, UInt8.toNat_toUInt32, UInt32.reduceToNat]

theorem not_isDigit_of_isLetter {c : UInt8} (h : isLetter c = true) : ¬ isDigit c = true := by
  rw [isLetter_iff] at h
  rw [isDigit_iff]
  omega

/-- The test of the source is for letters of either case. -/
theorem charTest_eq (c : UInt8) : charTest c = isLetter c := by
  rw [Bool.eq_iff_iff, isLetter_iff, charTest, decide_eq_true_eq, toupper]
  simp only [UInt8.le_iff_toNat_le, UInt8.reduceToNat]
  split_ifs with h
  · have hsub : (c - 32).toNat = c.toNat - 32 := by
      refine UInt8.toNat_sub_of_le c 32 ?_
      simp only [UInt8.le_iff_toNat_le, UInt8.reduceToNat]
      omega
    omega
  · omega

theorem digitTest_eq (c : UInt8) : digitTest c = isDigit c := by
  rw [Bool.eq_iff_iff, isDigit_iff, digitTest, decide_eq_true_eq]
  simp only [UInt8.le_iff_toNat_le, UInt8.reduceToNat]

/-- A letter or a digit. -/
def isAccepted (c : UInt8) : Bool := isLetter c || isDigit c

theorem isAccepted_iff {c : UInt8} :
    isAccepted c = true ↔ isLetter c = true ∨ isDigit c = true := Bool.or_eq_true_iff

theorem charClass (c : UInt8) :
    isLetter c = true ∧ ¬ isDigit c = true ∨ ¬ isLetter c = true ∧ isDigit c = true ∨
      ¬ isLetter c = true ∧ ¬ isDigit c = true := by
  by_cases hl : isLetter c = true
  · exact Or.inl ⟨hl, not_isDigit_of_isLetter hl⟩
  · exact Or.inr ((Decidable.em _).imp (⟨hl, ·⟩) (⟨hl, ·⟩))

/-- The letters of the string, and its digits. -/
def AsciiString.letters (s : AsciiString) : List UInt8 := s.bytes.filter isLetter

def AsciiString.digits (s : AsciiString) : List UInt8 := s.bytes.filter isDigit

theorem length_letters_add_digits {bytes : List UInt8} (h : ∀ c ∈ bytes, isAccepted c = true) :
    (bytes.filter isLetter).length + (bytes.filter isDigit).length = bytes.length := by
  induction bytes with
  | nil => rfl
  | cons c rest ih =>
    obtain ⟨hc, hrest⟩ := List.forall_mem_cons.mp h
    have hlen := ih hrest
    obtain ⟨hl, hd⟩ | ⟨hl, hd⟩ | ⟨hl, hd⟩ := charClass c
    · rw [List.filter_cons_of_pos hl, List.filter_cons_of_neg hd, List.length_cons,
        List.length_cons]
      omega
    · rw [List.filter_cons_of_neg hl, List.filter_cons_of_pos hd, List.length_cons,
        List.length_cons]
      omega
    · exact ((isAccepted_iff.mp hc).elim hl hd).elim

/-! ## The first loop -/

theorem intSucc_of_lt {x : ℤ} (h : x + 1 < 2 ^ 31) : intSucc x = some (x + 1) := if_pos h

section Loops

variable {i totalChars totalDigits charsCounter numsCounter : ℤ} {chars digits : Block} {c : UInt8}
  {rest : List UInt8}

theorem validLoop_letter (hl : isLetter c = true) (hchars : totalChars + 1 < 2 ^ 31)
    (hi : i + 1 < 2 ^ 31) : validLoop i totalChars totalDigits (c :: rest) =
      validLoop (i + 1) (totalChars + 1) totalDigits rest := by
  rw [validLoop, charTest_eq, if_pos hl, intSucc_of_lt hchars, intSucc_of_lt hi]
  rfl

theorem validLoop_digit (hl : ¬ isLetter c = true) (hd : isDigit c = true)
    (hdigits : totalDigits + 1 < 2 ^ 31) (hi : i + 1 < 2 ^ 31) :
    validLoop i totalChars totalDigits (c :: rest) =
      validLoop (i + 1) totalChars (totalDigits + 1) rest := by
  rw [validLoop, charTest_eq, digitTest_eq, if_neg hl, if_pos hd, intSucc_of_lt hdigits,
    intSucc_of_lt hi]
  rfl

theorem validLoop_other (hl : ¬ isLetter c = true) (hd : ¬ isDigit c = true) :
    validLoop i totalChars totalDigits (c :: rest) = some (false, totalChars, totalDigits) := by
  rw [validLoop, charTest_eq, digitTest_eq, if_neg hl, if_neg hd]

/-- The loop stops at the first character that is neither a letter nor a digit, and has counted
those before it. -/
theorem validLoop_eq (bytes : List UInt8) :
    ∀ i totalChars totalDigits : ℤ, totalChars ≤ i → totalDigits ≤ i →
      i + (bytes.takeWhile isAccepted).length < 2 ^ 31 →
      validLoop i totalChars totalDigits bytes = some (bytes.all isAccepted,
        totalChars + ((bytes.takeWhile isAccepted).filter isLetter).length,
        totalDigits + ((bytes.takeWhile isAccepted).filter isDigit).length) := by
  induction bytes with
  | nil =>
    intro i totalChars totalDigits _ _ _
    simp [validLoop]
  | cons c rest ih =>
    intro i totalChars totalDigits hchars hdigits hlen
    obtain ⟨hl, hd⟩ | ⟨hl, hd⟩ | ⟨hl, hd⟩ := charClass c
    · have hc : isAccepted c = true := isAccepted_iff.mpr (Or.inl hl)
      rw [List.takeWhile_cons_of_pos hc, List.length_cons] at hlen
      rw [validLoop_letter hl (by omega) (by omega),
        ih (i + 1) (totalChars + 1) totalDigits (by omega) (by omega) (by omega)]
      rw [List.takeWhile_cons_of_pos hc, List.filter_cons_of_pos hl, List.filter_cons_of_neg hd,
        List.length_cons, List.all_cons, hc, Bool.true_and, Int.natCast_succ,
        Int.add_right_comm totalChars 1, Int.add_assoc]
    · have hc : isAccepted c = true := isAccepted_iff.mpr (Or.inr hd)
      rw [List.takeWhile_cons_of_pos hc, List.length_cons] at hlen
      rw [validLoop_digit hl hd (by omega) (by omega),
        ih (i + 1) totalChars (totalDigits + 1) (by omega) (by omega) (by omega)]
      rw [List.takeWhile_cons_of_pos hc, List.filter_cons_of_neg hl, List.filter_cons_of_pos hd,
        List.length_cons, List.all_cons, hc, Bool.true_and, Int.natCast_succ,
        Int.add_right_comm totalDigits 1, Int.add_assoc totalDigits]
    · have hc : ¬ isAccepted c = true := fun h => (isAccepted_iff.mp h).elim hl hd
      rw [validLoop_other hl hd, List.takeWhile_cons_of_neg hc, List.all_cons,
        Bool.eq_false_iff.mpr hc]
      simp

theorem validLoop_overflow (bytes : List UInt8) :
    ∀ i totalChars totalDigits : ℤ, i < 2 ^ 31 →
      2 ^ 31 ≤ i + (bytes.takeWhile isAccepted).length →
      validLoop i totalChars totalDigits bytes = none := by
  induction bytes with
  | nil =>
    intro i totalChars totalDigits hi hlen
    rw [List.takeWhile_nil, List.length_nil] at hlen
    omega
  | cons c rest ih =>
    intro i totalChars totalDigits hi hlen
    by_cases hc : isAccepted c = true
    · rw [List.takeWhile_cons_of_pos hc, List.length_cons] at hlen
      have hnext : ∀ totalChars totalDigits : ℤ,
          (intSucc i).bind (fun i => validLoop i totalChars totalDigits rest) = none := by
        intro totalChars totalDigits
        rw [intSucc]
        split_ifs with h
        · exact ih (i + 1) totalChars totalDigits h (by omega)
        · rfl
      rw [validLoop, charTest_eq, digitTest_eq]
      split_ifs with hl hd
      · cases intSucc totalChars with
        | none => rfl
        | some totalChars => exact hnext totalChars totalDigits
      · cases intSucc totalDigits with
        | none => rfl
        | some totalDigits => exact hnext totalChars totalDigits
      · exact ((isAccepted_iff.mp hc).elim hl hd).elim
    · rw [List.takeWhile_cons_of_neg hc, List.length_nil] at hlen
      omega

/-! ## The second loop -/

theorem splitLoop_letter {chars' : Block} (hl : isLetter c = true)
    (hstore : chars.store charsCounter.toNat c = some chars') (hchars : charsCounter + 1 < 2 ^ 31)
    (hi : i + 1 < 2 ^ 31) :
    splitLoop i charsCounter numsCounter chars digits (c :: rest) =
      splitLoop (i + 1) (charsCounter + 1) numsCounter chars' digits rest := by
  rw [splitLoop, charTest_eq, if_pos hl, hstore, intSucc_of_lt hchars, intSucc_of_lt hi]
  rfl

theorem splitLoop_digit {digits' : Block} (hl : ¬ isLetter c = true) (hd : isDigit c = true)
    (hstore : digits.store numsCounter.toNat c = some digits') (hnums : numsCounter + 1 < 2 ^ 31)
    (hi : i + 1 < 2 ^ 31) :
    splitLoop i charsCounter numsCounter chars digits (c :: rest) =
      splitLoop (i + 1) charsCounter (numsCounter + 1) chars digits' rest := by
  rw [splitLoop, charTest_eq, digitTest_eq, if_neg hl, if_pos hd, hstore, intSucc_of_lt hnums,
    intSucc_of_lt hi]
  rfl

theorem splitLoop_other (hl : ¬ isLetter c = true) (hd : ¬ isDigit c = true) (hi : i + 1 < 2 ^ 31) :
    splitLoop i charsCounter numsCounter chars digits (c :: rest) =
      splitLoop (i + 1) charsCounter numsCounter chars digits rest := by
  rw [splitLoop, charTest_eq, digitTest_eq, if_neg hl, if_neg hd, intSucc_of_lt hi]
  rfl

theorem length_lt_of_append {xs ys : List UInt8} {n : ℕ} (h : (xs ++ [c] ++ ys).length ≤ n) :
    xs.length < n := by
  rw [List.length_append, List.length_append, List.length_singleton] at h
  omega

/-- The letters and the digits are written behind those of the characters before. -/
theorem splitLoop_eq (bytes : List UInt8) :
    ∀ (i : ℤ) (ls ds : List UInt8), ls.length ≤ i → ds.length ≤ i → i + bytes.length < 2 ^ 31 →
      (ls ++ bytes.filter isLetter).length ≤ chars.length →
      (ds ++ bytes.filter isDigit).length ≤ digits.length →
      splitLoop i ls.length ds.length (chars.overwrite ls) (digits.overwrite ds) bytes =
        some (chars.overwrite (ls ++ bytes.filter isLetter),
          digits.overwrite (ds ++ bytes.filter isDigit)) := by
  induction bytes with
  | nil =>
    intro i ls ds _ _ _ _ _
    simp [splitLoop]
  | cons c rest ih =>
    intro i ls ds hls hds hlen hchars hdigits
    rw [List.length_cons] at hlen
    have hnext : ∀ xs : List UInt8, (xs.length : ℤ) + 1 = (xs ++ [c]).length := by
      intro xs
      rw [List.length_append]
      rfl
    obtain ⟨hl, hd⟩ | ⟨hl, hd⟩ | ⟨hl, hd⟩ := charClass c
    · rw [List.filter_cons_of_pos hl] at hchars ⊢
      rw [List.filter_cons_of_neg hd] at hdigits ⊢
      rw [List.append_cons] at hchars ⊢
      have hstore : (chars.overwrite ls).store ls.length c = some (chars.overwrite (ls ++ [c])) :=
        Block.store_overwrite (length_lt_of_append hchars) c
      rw [splitLoop_letter hl hstore (by omega) (by omega), hnext ls]
      exact ih (i + 1) _ ds (by rw [← hnext]; omega) (by omega) (by omega) hchars hdigits
    · rw [List.filter_cons_of_neg hl] at hchars ⊢
      rw [List.filter_cons_of_pos hd] at hdigits ⊢
      rw [List.append_cons] at hdigits ⊢
      have hstore : (digits.overwrite ds).store ds.length c = some (digits.overwrite (ds ++ [c])) :=
        Block.store_overwrite (length_lt_of_append hdigits) c
      rw [splitLoop_digit hl hd hstore (by omega) (by omega), hnext ds]
      exact ih (i + 1) ls _ (by omega) (by rw [← hnext]; omega) (by omega) hchars hdigits
    · rw [List.filter_cons_of_neg hl] at hchars ⊢
      rw [List.filter_cons_of_neg hd] at hdigits ⊢
      rw [splitLoop_other hl hd (by omega)]
      exact ih (i + 1) ls ds (by omega) (by omega) (by omega) hchars hdigits

end Loops

/-! ## Both -/

/-- The counters are the numbers of letters and digits, and together the length. With room for them
the letters and the digits are written from index `0` on, in their order, and all other cells stay
as they were. -/
structure SplitAs (s : AsciiString) (totalChars totalDigits : ℤ) : Prop where
  chars : totalChars = s.letters.length
  digits : totalDigits = s.digits.length
  strlen : totalChars + totalDigits = s.strlen
  written : ∀ chars digits : Block, totalChars ≤ chars.length → totalDigits ≤ digits.length →
    splitCharsAndDigits s chars digits = some (chars.overwrite s.letters, digits.overwrite s.digits)

theorem splitAs_of_accepted {s : AsciiString} (h : ∀ c ∈ s.bytes, isAccepted c = true)
    (hlen : s.bytes.length < 2 ^ 31) : SplitAs s s.letters.length s.digits.length where
  chars := rfl
  digits := rfl
  strlen := by
    rw [← Int.natCast_add]
    exact congrArg _ (length_letters_add_digits h)
  written chars digits hchars hdigits := by
    have hsplit := splitLoop_eq s.bytes 0 [] [] (Int.le_refl 0) (Int.le_refl 0) (by omega)
      (Int.ofNat_le.mp hchars) (Int.ofNat_le.mp hdigits)
    exact hsplit

/-- **Validator and splitter.** On every string whose letters and digits before any other character
are fewer than `2 ^ 31`, `isValidRequest` accepts exactly the strings of letters and digits, and
`splitCharsAndDigits` splits those it accepts as counted. -/
theorem validator_splitter_agree (s : AsciiString)
    (h : (s.bytes.takeWhile isAccepted).length < 2 ^ 31) :
    ∃ accepted totalChars totalDigits,
      isValidRequest s 0 0 = some (accepted, totalChars, totalDigits) ∧
      (accepted = true ↔ ∀ c ∈ s.bytes, isLetter c = true ∨ isDigit c = true) ∧
      (accepted = true → SplitAs s totalChars totalDigits) := by
  have hvalid := validLoop_eq s.bytes 0 0 0 (Int.le_refl 0) (Int.le_refl 0) (by omega)
  refine ⟨_, _, _, hvalid, ?_, fun hall => ?_⟩
  · simp only [List.all_eq_true, isAccepted_iff]
  · rw [List.all_eq_true] at hall
    have hwhole : s.bytes.takeWhile isAccepted = s.bytes := List.takeWhile_eq_self_iff.mpr hall
    rw [hwhole] at h ⊢
    rw [Int.zero_add, Int.zero_add]
    exact splitAs_of_accepted hall h

/-- Letters of both cases, and digits between them. -/
def mixedRequest : AsciiString where
  bytes := CMem.ascii "ca20RO21"
  nulFree := by decide
  ascii c hc := by
    have hall : (CMem.ascii "ca20RO21").all (· < 128) = true := rfl
    exact of_decide_eq_true (List.all_eq_true.mp hall c hc)

theorem validator_splitter_agree_mixed : (mixedRequest.bytes.takeWhile isAccepted).length < 2 ^ 31 ∧
    ∃ accepted totalChars totalDigits,
      isValidRequest mixedRequest 0 0 = some (accepted, totalChars, totalDigits) ∧
      (accepted = true ↔ ∀ c ∈ mixedRequest.bytes, isLetter c = true ∨ isDigit c = true) ∧
      (accepted = true → SplitAs mixedRequest totalChars totalDigits) := by
  have hlen : (mixedRequest.bytes.takeWhile isAccepted).length < 2 ^ 31 := by decide
  exact ⟨hlen, validator_splitter_agree mixedRequest hlen⟩

/-- `2 ^ 31` times the letter `a`. -/
def manyLetters : AsciiString where
  bytes := List.replicate (2 ^ 31) 97
  nulFree h := absurd (List.eq_of_mem_replicate h) (by decide)
  ascii c h := by
    rw [List.eq_of_mem_replicate h]
    decide

/-- The index runs past the last `int`. -/
theorem many_letters_overflow :
    (∀ c ∈ manyLetters.bytes, isLetter c = true ∨ isDigit c = true) ∧
      isValidRequest manyLetters 0 0 = none := by
  have hletters : ∀ c ∈ manyLetters.bytes, isLetter c = true := by
    intro c hc
    rw [List.eq_of_mem_replicate hc]
    decide
  have hall : manyLetters.bytes.takeWhile isAccepted = manyLetters.bytes :=
    List.takeWhile_eq_self_iff.mpr fun c hc => isAccepted_iff.mpr (Or.inl (hletters c hc))
  have hlen : manyLetters.bytes.length = 2 ^ 31 := List.length_replicate
  refine ⟨fun c hc => Or.inl (hletters c hc), validLoop_overflow _ 0 0 0 (by decide) ?_⟩
  rw [hall, hlen]
  decide

end OnlineCaro
