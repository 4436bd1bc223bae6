import OnlineCaro.Lib.CString
import Mathlib.Data.Nat.Notation

/-!
# Reading a text file

* `textMode`: what a stream opened with `"r"` delivers of the bytes of a file.
* `fgets`: the next line, cut where the buffer is full, and what is left of the stream.
* `strtok`: the next token of a string, and the string that the next call goes on with.
* `fgets_line`, `fgets_last`: a line that fits is read whole.
* `strtok_field`: a run of delimiters, a field, and what follows it.
* `tokens`: all tokens of a string.
-/

namespace CMem

/-! ## Lines -/

/-- `'\n'` -/
def newline : UInt8 := 10

/-- `'\r'` -/
def carriageReturn : UInt8 := 13

/-- `Ctrl+Z`, the end of a file in text mode. -/
def endOfFile : UInt8 := 26

/-- The bytes of a file as a text stream delivers them: `"\r\n"` is one newline. -/
def textMode : List UInt8 → List UInt8
  | [] => []
  | b :: s =>
    if b = endOfFile then []
    else if b = carriageReturn ∧ s.head? = some newline then textMode s
    else b :: textMode s

theorem textMode_eq_self {s : List UInt8} (h : ∀ b ∈ s, b ≠ carriageReturn ∧ b ≠ endOfFile) :
    textMode s = s := by
  induction s with
  | nil => rfl
  | cons b s ih =>
    have hb := h b List.mem_cons_self
    rw [textMode, if_neg hb.2, if_neg fun hr => hb.1 hr.1]
    rw [ih fun c hc => h c (List.mem_cons_of_mem b hc)]

/-- At most `k` bytes, up to and including the first newline, and the bytes after them. -/
def takeLine : ℕ → List UInt8 → List UInt8 × List UInt8
  | 0, s => ([], s)
  | _ + 1, [] => ([], [])
  | k + 1, b :: s =>
    if b = newline then ([b], s) else (b :: (takeLine k s).1, (takeLine k s).2)

/-- `fgets` into a buffer of `n` bytes, the last one for the terminator; `none` at the end of the
stream. -/
def fgets (n : ℕ) (s : List UInt8) : Option (List UInt8 × List UInt8) :=
  if s = [] then none else some (takeLine (n - 1) s)

@[simp] theorem fgets_nil (n : ℕ) : fgets n [] = none := rfl

theorem takeLine_rest_le (k : ℕ) (s : List UInt8) : (takeLine k s).2.length ≤ s.length := by
  induction k generalizing s with
  | zero => exact le_rfl
  | succ k ih =>
    cases s with
    | nil => exact le_rfl
    | cons b s =>
      rw [takeLine]
      split
      · exact Nat.le_succ _
      · exact (ih s).trans (Nat.le_succ _)

theorem takeLine_rest_lt (k : ℕ) (b : UInt8) (s : List UInt8) :
    (takeLine (k + 1) (b :: s)).2.length < (b :: s).length := by
  rw [takeLine]
  split
  · exact Nat.lt_succ_self _
  · exact Nat.lt_succ_of_le (takeLine_rest_le k s)

/-- A buffer with room for a byte makes the stream shorter. -/
theorem fgets_rest_lt {n : ℕ} (hn : 1 < n) {s line rest : List UInt8}
    (h : fgets n s = some (line, rest)) : rest.length < s.length := by
  obtain ⟨k, rfl⟩ : ∃ k, n = k + 2 := ⟨n - 2, by omega⟩
  cases s with
  | nil => cases h
  | cons b s =>
    have hcut : takeLine (k + 1) (b :: s) = (line, rest) := Option.some.inj h
    have hlt := takeLine_rest_lt k b s
    rwa [hcut] at hlt

theorem takeLine_length_le (k : ℕ) (s : List UInt8) : (takeLine k s).1.length ≤ k := by
  induction k generalizing s with
  | zero => exact le_rfl
  | succ k ih =>
    cases s with
    | nil => exact Nat.zero_le _
    | cons b s =>
      rw [takeLine]
      split
      · exact Nat.le_add_left 1 k
      · exact Nat.succ_le_succ (ih s)

theorem takeLine_newline {k : ℕ} {s x y : List UInt8} (h : (takeLine k s).1 = x ++ newline :: y) :
    y = [] := by
  induction k generalizing s x with
  | zero => exact absurd h.symm (by simp [takeLine])
  | succ k ih =>
    cases s with
    | nil => exact absurd h.symm (by simp [takeLine])
    | cons b s =>
      rw [takeLine] at h
      split at h
      · cases x with
        | nil => exact (List.cons.inj h).2.symm
        | cons c x => exact absurd (List.cons.inj h).2.symm (by simp)
      · next hb =>
        cases x with
        | nil => exact absurd (List.cons.inj h).1 hb
        | cons c x => exact ih (List.cons.inj h).2

theorem takeLine_line {k : ℕ} {line : List UInt8} (hline : newline ∉ line) (hk : line.length < k)
    (s : List UInt8) : takeLine k (line ++ newline :: s) = (line ++ [newline], s) := by
  induction line generalizing k with
  | nil =>
    obtain ⟨k, rfl⟩ := Nat.exists_eq_add_one_of_ne_zero (Nat.ne_of_gt hk)
    rfl
  | cons b line ih =>
    obtain ⟨k, rfl⟩ := Nat.exists_eq_add_one_of_ne_zero (Nat.ne_of_gt (Nat.zero_lt_of_lt hk))
    have hb : b ≠ newline := fun e => hline (e ▸ List.mem_cons_self)
    have hrec := ih (fun hm => hline (List.mem_cons_of_mem b hm)) (Nat.lt_of_succ_lt_succ hk)
    rw [List.cons_append, takeLine, if_neg hb, hrec]
    rfl

theorem takeLine_last {k : ℕ} {line : List UInt8} (hline : newline ∉ line)
    (hk : line.length ≤ k) : takeLine k line = (line, []) := by
  induction line generalizing k with
  | nil => cases k <;> rfl
  | cons b line ih =>
    obtain ⟨k, rfl⟩ := Nat.exists_eq_add_one_of_ne_zero (Nat.ne_of_gt (Nat.zero_lt_of_lt hk))
    have hb : b ≠ newline := fun e => hline (e ▸ List.mem_cons_self)
    rw [takeLine, if_neg hb, ih (fun hm => hline (List.mem_cons_of_mem b hm))
      (Nat.le_of_succ_le_succ hk)]

theorem fgets_line {n : ℕ} {line : List UInt8} (hline : newline ∉ line)
    (hn : line.length + 2 ≤ n) (s : List UInt8) :
    fgets n (line ++ newline :: s) = some (line ++ [newline], s) := by
  have hne : line ++ newline :: s ≠ [] := by simp
  rw [fgets, if_neg hne, takeLine_line hline (by omega)]

theorem fgets_last {n : ℕ} {line : List UInt8} (hline : newline ∉ line) (hne : line ≠ [])
    (hn : line.length + 1 ≤ n) : fgets n line = some (line, []) := by
  rw [fgets, if_neg hne, takeLine_last hline (by omega)]

/-! ## Tokens -/

namespace CString

/-- The string at the pointer moved past the bytes that satisfy `p`. -/
def dropWhile (p : UInt8 → Bool) (s : CString) : CString :=
  ⟨s.bytes.dropWhile p, fun h => s.nulFree ((List.dropWhile_suffix p).subset h)⟩

/-- The string cut at the first byte that does not satisfy `p`. -/
def takeWhile (p : UInt8 → Bool) (s : CString) : CString :=
  ⟨s.bytes.takeWhile p, fun h => s.nulFree ((List.takeWhile_prefix p).subset h)⟩

/-- The string after its first byte; at the terminator the pointer stays. -/
def tail (s : CString) : CString := ⟨s.bytes.tail, fun h => s.nulFree (List.mem_of_mem_tail h)⟩

end CString

/-- `strtok`: it skips delimiters, and returns `NULL` (`none`) if nothing is left; the token ends
before the next delimiter, and the next call goes on behind that one. -/
def strtok (delimiters : List UInt8) (s : CString) : Option (CString × CString) :=
  let start := s.dropWhile (· ∈ delimiters)
  if start.bytes = [] then none
  else some (start.takeWhile (· ∉ delimiters), (start.dropWhile (· ∉ delimiters)).tail)

section Tokens

variable {delimiters : List UInt8} {s : CString}

theorem strtok_rest_lt {token rest : CString} (h : strtok delimiters s = some (token, rest)) :
    rest.bytes.length < s.bytes.length := by
  rw [strtok] at h
  split at h
  · cases h
  · next hne =>
    obtain ⟨-, rfl⟩ := Prod.mk.inj (Option.some.inj h)
    have hstart : 0 < (s.bytes.dropWhile (· ∈ delimiters)).length :=
      List.length_pos_iff.mpr hne
    have hskip := (List.dropWhile_suffix (l := s.bytes) (· ∈ delimiters)).length_le
    have hend := (List.dropWhile_suffix (l := s.bytes.dropWhile (· ∈ delimiters))
      (· ∉ delimiters)).length_le
    show (List.tail _).length < _
    rw [List.length_tail]
    show (List.dropWhile (· ∉ delimiters) (s.bytes.dropWhile (· ∈ delimiters))).length - 1 < _
    omega

theorem strtok_nil (h : s.bytes = []) : strtok delimiters s = none := by
  have hstart : (s.dropWhile (· ∈ delimiters)).bytes = [] := by
    show s.bytes.dropWhile _ = []
    rw [h]
    rfl
  rw [strtok, if_pos hstart]

/-- A field after a run of delimiters; behind it stands a delimiter, or nothing. -/
theorem strtok_field {gap field rest : List UInt8} (hs : s.bytes = gap ++ (field ++ rest))
    (hgap : ∀ b ∈ gap, b ∈ delimiters) (hne : field ≠ []) (hfield : ∀ b ∈ field, b ∉ delimiters)
    (hrest : ∀ b ∈ rest.head?, b ∈ delimiters) :
    ∃ token s', strtok delimiters s = some (token, s') ∧ token.bytes = field ∧
      s'.bytes = rest.tail := by
  obtain ⟨b, field, rfl⟩ := List.exists_cons_of_ne_nil hne
  have hstart : (s.dropWhile (· ∈ delimiters)).bytes = b :: field ++ rest := by
    have hb : b ∉ delimiters := hfield b List.mem_cons_self
    show s.bytes.dropWhile _ = _
    rw [hs, List.dropWhile_append_of_pos fun c hc => decide_eq_true (hgap c hc)]
    rw [List.cons_append, List.dropWhile_cons_of_neg (by simpa using hb)]
  have hall : ∀ c ∈ b :: field, decide (c ∉ delimiters) = true :=
    fun c hc => decide_eq_true (hfield c hc)
  refine ⟨_, _, if_neg (by rw [hstart]; simp), ?_, ?_⟩
  · show List.takeWhile _ (s.dropWhile (· ∈ delimiters)).bytes = _
    rw [hstart, List.takeWhile_append_of_pos hall]
    cases rest with
    | nil => simp
    | cons c rest =>
      have hc : c ∈ delimiters := hrest c rfl
      rw [List.takeWhile_cons_of_neg (by simpa using hc), List.append_nil]
  · show (List.dropWhile _ (s.dropWhile (· ∈ delimiters)).bytes).tail = _
    rw [hstart, List.dropWhile_append_of_pos hall]
    cases rest with
    | nil => rfl
    | cons c rest =>
      have hc : c ∈ delimiters := hrest c rfl
      rw [List.dropWhile_cons_of_neg (by simpa using hc)]

theorem strtok_split {token rest : CString} (h : strtok delimiters s = some (token, rest)) :
    ∃ gap after, s.bytes = gap ++ (token.bytes ++ after) ∧ rest.bytes = after.tail := by
  rw [strtok] at h
  split at h
  · cases h
  · obtain ⟨rfl, rfl⟩ := Prod.mk.inj (Option.some.inj h)
    refine ⟨s.bytes.takeWhile (fun b => decide (b ∈ delimiters)),
      (s.bytes.dropWhile (fun b => decide (b ∈ delimiters))).dropWhile
        (fun b => decide (b ∉ delimiters)), ?_, rfl⟩
    show s.bytes = _ ++ (List.takeWhile (fun b => decide (b ∉ delimiters))
      (s.bytes.dropWhile (fun b => decide (b ∈ delimiters))) ++ _)
    rw [List.takeWhile_append_dropWhile, List.takeWhile_append_dropWhile]

/-- The tokens that the calls of `strtok` return one after the other. -/
def tokens (delimiters : List UInt8) (s : CString) : List CString :=
  match _ : strtok delimiters s with
  | none => []
  | some (token, rest) => token :: tokens delimiters rest
termination_by s.bytes.length
decreasing_by exact strtok_rest_lt ‹_›

theorem tokens_none (h : strtok delimiters s = none) : tokens delimiters s = [] := by
  rw [tokens]
  split
  · rfl
  · next hs => exact nomatch h.symm.trans hs

theorem tokens_some {token rest : CString} (h : strtok delimiters s = some (token, rest)) :
    tokens delimiters s = token :: tokens delimiters rest := by
  rw [tokens]
  split
  · next hs => exact nomatch h.symm.trans hs
  · next hs =>
    obtain ⟨rfl, rfl⟩ := Prod.mk.inj (Option.some.inj (h.symm.trans hs))
    rfl

theorem strtok_token_le {token rest : CString} (h : strtok delimiters s = some (token, rest)) :
    token.strlen ≤ s.strlen := by
  rw [strtok] at h
  split at h
  · cases h
  · obtain ⟨rfl, -⟩ := Prod.mk.inj (Option.some.inj h)
    exact (List.takeWhile_prefix _).length_le.trans (List.dropWhile_suffix _).length_le

theorem strlen_le_of_mem_tokens {token : CString} (h : token ∈ tokens delimiters s) :
    token.strlen ≤ s.strlen := by
  induction s using tokens.induct delimiters with
  | case1 s hs =>
    rw [tokens_none hs] at h
    exact absurd h List.not_mem_nil
  | case2 s first rest hs ih =>
    rw [tokens_some hs] at h
    rcases List.mem_cons.mp h with rfl | h
    · exact strtok_token_le hs
    · exact (ih h).trans (strtok_rest_lt hs).le

end Tokens

end CMem
