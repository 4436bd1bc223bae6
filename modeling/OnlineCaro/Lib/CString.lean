import Mathlib.Data.List.TakeWhile

/-!
# C strings and blocks of memory

* `CString`: the bytes of a NUL-terminated string, none of them NUL; two of them are equal exactly
  when `strcmp` returns `0`.
* `CString.ofBytes`: the string that starts a run of bytes, up to the first NUL.
* `Block`: a block of memory, a cell that was never written being `none`; `Block.store` fails out
  of range.
* `Block.overwrite`: a block with some bytes written at its start; `Block.fill`, `Block.overflow`: a
  loop that writes `f 0, f 1, …` there, with and without room for it.
* `Block.strcpy`, `strcpy_ne_none`, `strcpy_malloc`: a string copied into a block.
-/

namespace CMem

/-- A NUL-terminated string. -/
structure CString where
  bytes : List UInt8
  nulFree : (0 : UInt8) ∉ bytes
  deriving DecidableEq

/-- The bytes of a string of ASCII characters. -/
def ascii (s : String) : List UInt8 := s.toList.map fun c => c.toNat.toUInt8

namespace CString

@[ext] theorem ext {a b : CString} (h : a.bytes = b.bytes) : a = b := by
  cases a; cases b; cases h; rfl

/-- The string at the start of `mem`: what stands before the first NUL. -/
def ofBytes (mem : List UInt8) : CString :=
  ⟨mem.takeWhile (· ≠ 0), fun h => by simpa using List.mem_takeWhile_imp h⟩

/-- A string of ASCII characters. -/
def ofAscii (s : String) : CString := ofBytes (ascii s)

/-- The length, without the terminator. -/
def strlen (s : CString) : ℕ := s.bytes.length

/-- The byte at index `i`; the terminator stands at index `strlen`. -/
def byteAt (s : CString) (i : ℕ) : UInt8 := s.bytes.getD i 0

theorem bytes_ofBytes {mem : List UInt8} (h : (0 : UInt8) ∉ mem) : (ofBytes mem).bytes = mem := by
  refine List.takeWhile_eq_self_iff.mpr fun b hb => ?_
  have : b ≠ 0 := fun e => h (e ▸ hb)
  simpa using this

end CString

/-- A block of memory; `none` is a cell that was never written. -/
abbrev Block := List (Option UInt8)

/-- A fresh block of `n` cells. -/
def malloc (n : ℕ) : Block := List.replicate n none

namespace Block

/-- Write one cell; a write out of range fails. -/
def store (m : Block) (i : ℕ) (b : UInt8) : Option Block :=
  if i < m.length then some (m.set i (some b)) else none

/-- The bytes of the string at the start of a block, if only written cells are read. -/
def text : Block → Option (List UInt8)
  | [] => none
  | none :: _ => none
  | some b :: m => if b = 0 then some [] else (text m).map (b :: ·)

theorem text_append_nul {bs : List UInt8} (h : (0 : UInt8) ∉ bs) (m : Block) :
    text (bs.map some ++ some 0 :: m) = some bs := by
  induction bs with
  | nil => rfl
  | cons b bs ih =>
    have hb : b ≠ 0 := fun e => h (e ▸ List.mem_cons_self)
    simp only [List.map_cons, List.cons_append, text, if_neg hb]
    rw [ih fun hm => h (List.mem_cons_of_mem b hm)]
    rfl

/-- What is read up to the terminator, if nothing is left out before it. -/
theorem text_terminated (bs : List UInt8) (m : Block) :
    text (bs.map some ++ some 0 :: m) = some (bs.takeWhile (· ≠ 0)) := by
  induction bs with
  | nil => rfl
  | cons b bs ih =>
    by_cases hb : b = 0
    · rw [List.map_cons, List.cons_append, text, if_pos hb,
        List.takeWhile_cons_of_neg (by simpa using hb)]
    · rw [List.map_cons, List.cons_append, text, if_neg hb, ih,
        List.takeWhile_cons_of_pos (by simpa using hb)]
      rfl

/-- The block with `bs` written at its start. -/
def overwrite (m : Block) (bs : List UInt8) : Block := bs.map some ++ m.drop bs.length

theorem length_overwrite {m : Block} {bs : List UInt8} (h : bs.length ≤ m.length) :
    (m.overwrite bs).length = m.length := by
  rw [overwrite, List.length_append, List.length_map, List.length_drop]
  omega

theorem store_overwrite {m : Block} {bs : List UInt8} (h : bs.length < m.length) (b : UInt8) :
    (m.overwrite bs).store bs.length b = some (m.overwrite (bs ++ [b])) := by
  have hcell : m.drop bs.length = m[bs.length] :: m.drop (bs.length + 1) :=
    List.drop_eq_getElem_cons h
  rw [store, if_pos (by rwa [length_overwrite h.le]), overwrite,
    List.set_append_right _ _ (by rw [List.length_map]), List.length_map, Nat.sub_self, hcell,
    List.set_cons_zero, overwrite, List.map_append, List.length_append, List.append_assoc]
  rfl

/-- Writing `f 0, …, f (k - 1)` into a block of at least `k` cells. -/
theorem fill (m : Block) (f : ℕ → UInt8) : ∀ k ≤ m.length,
    (List.range k).foldlM (fun (m : Block) i => m.store i (f i)) m =
      some (m.overwrite ((List.range k).map f))
  | 0, _ => rfl
  | k + 1, hk => by
    have hlen : ((List.range k).map f).length = k := by rw [List.length_map, List.length_range]
    have hnext : (m.overwrite ((List.range k).map f)).store ((List.range k).map f).length (f k) =
        some (m.overwrite ((List.range k).map f ++ [f k])) := store_overwrite (by omega) (f k)
    rw [hlen] at hnext
    rw [List.range_succ, List.foldlM_append, fill m f k (by omega), List.map_append]
    simp only [Option.bind_eq_bind, Option.bind_some, List.foldlM_cons, List.foldlM_nil, hnext]
    rfl

/-- A loop that writes more cells than the block has goes out of range. -/
theorem overflow (m : Block) (f : ℕ → UInt8) {k : ℕ} (h : m.length < k) :
    (List.range k).foldlM (fun (m : Block) i => m.store i (f i)) m = none := by
  induction k with
  | zero => exact absurd h (Nat.not_lt_zero _)
  | succ k ih =>
    rw [List.range_succ, List.foldlM_append]
    rcases Nat.lt_or_eq_of_le (Nat.lt_succ_iff.mp h) with hk | rfl
    · rw [ih hk]
      rfl
    · rw [fill m f m.length le_rfl]
      simp [store, length_overwrite]

theorem fill_malloc (f : ℕ → UInt8) (n k : ℕ) (hk : k ≤ n) :
    (List.range k).foldlM (fun (m : Block) i => m.store i (f i)) (malloc n) =
      some ((List.range k).map (fun i => some (f i)) ++ List.replicate (n - k) none) := by
  rw [fill _ f k (by rwa [malloc, List.length_replicate]), overwrite, malloc, List.map_map,
    List.length_map, List.length_range, List.drop_replicate]
  rfl

theorem overflow_malloc (f : ℕ → UInt8) {n k : ℕ} (h : n < k) :
    (List.range k).foldlM (fun (m : Block) i => m.store i (f i)) (malloc n) = none :=
  overflow _ f (by rwa [malloc, List.length_replicate])

theorem map_range_getD (bs : List UInt8) :
    (List.range (bs.length + 1)).map (fun i => some (bs.getD i 0)) = bs.map some ++ [some 0] := by
  refine List.ext_getElem (by simp) fun i h₁ h₂ => ?_
  rw [List.getElem_map, List.getElem_range, List.getD_eq_getElem?_getD]
  rcases Nat.lt_or_ge i bs.length with hi | hi
  · rw [List.getElem_append_left (by simpa using hi)]
    simp [hi]
  · rw [List.getElem_append_right (by simpa using hi)]
    simp [hi]

/-- `strcpy`, terminator included. -/
def strcpy (m : Block) (s : CString) : Option Block :=
  (List.range (s.strlen + 1)).foldlM (fun (m : Block) i => m.store i (s.byteAt i)) m

theorem strcpy_ne_none {m : Block} {s : CString} : m.strcpy s ≠ none ↔ s.strlen < m.length := by
  rw [strcpy]
  constructor
  · intro h
    by_contra hlong
    exact h (overflow m s.byteAt (Nat.lt_succ_of_le (Nat.not_lt.mp hlong)))
  · intro h
    rw [fill m s.byteAt _ h]
    exact Option.some_ne_none _

theorem strcpy_malloc {s : CString} {n : ℕ} (h : s.strlen < n) :
    (malloc n).strcpy s =
      some (s.bytes.map some ++ some 0 :: List.replicate (n - (s.strlen + 1)) none) := by
  rw [strcpy, fill_malloc s.byteAt n (s.strlen + 1) h]
  exact congrArg some ((congrArg (· ++ _) (map_range_getD s.bytes)).trans (by simp))

end Block

end CMem
