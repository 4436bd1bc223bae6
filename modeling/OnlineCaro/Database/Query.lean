import OnlineCaro.Database.Statement
import OnlineCaro.Lib.Decimal
import Mathlib.Algebra.Group.Nat.Defs

/-!
# What `executeQuery` leaves

* `cStr_eq_self_iff`: the strings that C reads whole.
* `fetchRows_of_width`: the two loops over a result set copy its rows, each cell up to its first
  NUL.
* `executeQuery_of_queryFailed`, `executeQuery_of_duplicate`, `executeQuery_of_noResult`,
  `executeQuery_of_storeFailed`, `executeQuery_result`: the exits of `executeQuery`, whatever the
  caller passed.
-/

namespace OnlineCaro

open SqlText

variable {collation : Setoid String} {mysql : MySQL collation} {query errorMsg : String}
  {datas : TableDatas} {userList : UserList collation}

/-! ## Strings as C reads them -/

theorem ne_nul_of_not_mem {a : List Char} (ha : nul ∉ a) : ∀ c ∈ a, decide (c ≠ nul) = true := by
  intro c hc
  have hne : c ≠ nul := fun h => ha (h ▸ hc)
  exact decide_eq_true hne

theorem nul_notMem_cStr (s : String) : nul ∉ (cStr s).toList := by
  rw [cStr, String.toList_ofList]
  exact fun h => absurd (List.mem_takeWhile_imp h) (by decide)

theorem cStr_eq_self_iff {s : String} : cStr s = s ↔ nul ∉ s.toList := by
  constructor
  · intro h
    rw [← h]
    exact nul_notMem_cStr s
  · intro h
    have hwhole : s.toList.takeWhile (· ≠ nul) = s.toList :=
      List.takeWhile_eq_self_iff.mpr (ne_nul_of_not_mem h)
    rw [cStr, hwhole, String.ofList_toList]

theorem cStr_of_not_mem {s : String} (h : nul ∉ s.toList) : cStr s = s := cStr_eq_self_iff.mpr h

theorem nul_notMem_toString (v : ℤ) : nul ∉ (toString v).toList := by
  have hdigits : ∀ n : ℕ, nul ∉ Nat.toDigits 10 n := fun n h =>
    absurd (Nat.isDigit_of_mem_toDigits (by decide) (by decide) h) (by decide)
  cases v with
  | ofNat n =>
    have htext : (toString (Int.ofNat n)).toList = Nat.toDigits 10 n :=
      Decimal.toList_toString_ofNat n
    rw [htext]
    exact hdigits n
  | negSucc n =>
    rw [Decimal.toList_toString_negSucc, List.mem_cons, not_or]
    exact ⟨by decide, hdigits (n + 1)⟩

theorem cStr_toString (v : ℤ) : cStr (toString v) = toString v :=
  cStr_of_not_mem (nul_notMem_toString v)

theorem map_cStr_row (id score : ℤ) (name : String) :
    [toString id, name, toString score].map cStr = [toString id, cStr name, toString score] := by
  simp only [List.map_cons, List.map_nil, cStr_toString]

theorem map_eq_self_iff {α : Type} {f : α → α} {l : List α} :
    l.map f = l ↔ ∀ a ∈ l, f a = a := by
  show l.map f = l ↔ ∀ a ∈ l, f a = id a
  rw [← List.map_inj_left, List.map_id]

theorem map_cStr_eq_self_iff {rows : List (List String)} :
    rows.map (List.map cStr) = rows ↔ ∀ row ∈ rows, ∀ cell ∈ row, nul ∉ cell.toList := by
  rw [map_eq_self_iff]
  refine forall₂_congr fun row _ => ?_
  rw [map_eq_self_iff]
  exact forall₂_congr fun cell _ => cStr_eq_self_iff

/-! ## The copying loops -/

theorem addCells (rows : List (List String)) (row : List String) :
    ∀ k ≤ row.length,
      (List.range k).foldl (fun datas i => datas.addDataInCurrentLastRow (cStr (row.getD i "")))
        (TableDatas.addRow ⟨rows⟩) = ⟨rows ++ [(row.take k).map cStr]⟩
  | 0, _ => rfl
  | k + 1, hk => by
    rw [List.range_succ, List.foldl_append, addCells rows row k (by omega)]
    simp only [List.foldl_cons, List.foldl_nil, TableDatas.addDataInCurrentLastRow,
      List.modifyLast_concat]
    rw [List.take_add_one, List.map_append, List.getD_eq_getElem?_getD,
      List.getElem?_eq_getElem (by omega)]
    rfl

theorem fetchCells_of_length (rows : List (List String)) (row : List String) :
    fetchCells row.length row (TableDatas.addRow ⟨rows⟩) = ⟨rows ++ [row.map cStr]⟩ := by
  rw [fetchCells, addCells rows row _ (Nat.le_refl _), List.take_length]

/-- Rows of the same width are copied in their order. -/
theorem fetchRows_of_width {numCol : ℕ} (rows : List (List String)) :
    ∀ copied : List (List String), (∀ row ∈ rows, row.length = numCol) →
      fetchRows numCol rows ⟨copied⟩ = ⟨copied ++ rows.map (List.map cStr)⟩ := by
  induction rows with
  | nil => intro copied _; rw [List.map_nil, List.append_nil]; rfl
  | cons row rows ih =>
    intro copied hw
    obtain ⟨hrow, hrows⟩ := List.forall_mem_cons.mp hw
    have hfirst : fetchRows numCol (row :: rows) ⟨copied⟩ =
        fetchRows numCol rows (fetchCells numCol row (TableDatas.addRow ⟨copied⟩)) := rfl
    rw [hfirst, ← hrow, fetchCells_of_length, hrow, ih _ hrows, List.append_assoc]
    rfl

/-! ## The exits -/

theorem executeQuery_userList (mysql : MySQL collation) (query errorMsg : String)
    (datas : TableDatas) (userList : UserList collation) :
    (executeQuery mysql query errorMsg datas userList).userList =
      (mysql (cStr query) userList).2 := by
  unfold executeQuery readResult
  dsimp only
  split_ifs with herrno hdup
  · rfl
  · rfl
  · cases (mysql (cStr query) userList).1.mysqlStoreResult with
    | none => rfl
    | some r =>
      dsimp only
      split_ifs <;> rfl

theorem executeQuery_of_queryFailed (errorMsg : String) (datas : TableDatas) {e : SqlError}
    (h : (mysql (cStr query) userList).1 = .queryFailed e) :
    (executeQuery mysql query errorMsg datas userList).errorMsg ≠ "" ∧
      (executeQuery mysql query errorMsg datas userList).datas = ⟨[]⟩ := by
  have hne := e.errno_ne
  have htext := e.text_ne
  simp only [executeQuery, readResult, h, QueryOutcome.mysqlErrno, QueryOutcome.mysqlError,
    if_pos hne]
  split_ifs
  · exact ⟨show "username already exist" ≠ "" by decide, rfl⟩
  · exact ⟨htext, rfl⟩

/-- Rows that cannot be read leave no message and no rows. -/
theorem executeQuery_of_storeFailed {e : SqlError}
    (h : (mysql (cStr query) userList).1 = .storeFailed e) :
    executeQuery mysql query errorMsg datas userList =
      ⟨"", ⟨[]⟩, (mysql (cStr query) userList).2⟩ := by
  simp only [executeQuery, readResult, h, QueryOutcome.mysqlErrno, QueryOutcome.mysqlStoreResult]
  rfl

theorem executeQuery_of_noResult {userList' : UserList collation}
    (h : mysql (cStr query) userList = (.noResult, userList')) :
    executeQuery mysql query errorMsg datas userList = ⟨"", ⟨[]⟩, userList'⟩ := by
  simp only [executeQuery, readResult, h, QueryOutcome.mysqlErrno, QueryOutcome.mysqlStoreResult]
  rfl

theorem executeQuery_of_duplicate {userList' : UserList collation} {e : SqlError}
    (h : mysql (cStr query) userList = (.queryFailed e, userList'))
    (hdup : contains e.text "Duplicate") (hname : contains e.text "username") :
    executeQuery mysql query errorMsg datas userList =
      ⟨"username already exist", ⟨[]⟩, userList'⟩ := by
  simp only [executeQuery, readResult, h, QueryOutcome.mysqlErrno, QueryOutcome.mysqlError,
    if_pos e.errno_ne, if_pos (And.intro hdup hname)]
  rfl

theorem ofNat_eq_zero_iff (n : ℕ) : Int32.ofNat n = 0 ↔ n % 2 ^ 32 = 0 := by
  have hnat : (Int32.ofNat n).toBitVec.toNat = n % 2 ^ 32 := by
    show (BitVec.ofNat 32 n).toNat = n % 2 ^ 32
    rw [BitVec.toNat_ofNat]
  have hzero : (0 : Int32).toBitVec.toNat = 0 := rfl
  rw [← Int32.toBitVec_inj, ← BitVec.toNat_inj, hnat, hzero]

/-- A result set is copied, unless the number of its rows is `0` as an `int`. -/
theorem executeQuery_result {r : ResultSet} (h : (mysql (cStr query) userList).1 = .result r) :
    executeQuery mysql query errorMsg datas userList =
      ⟨"", ⟨if r.rows.length % 2 ^ 32 = 0 then [] else r.rows.map (List.map cStr)⟩,
        (mysql (cStr query) userList).2⟩ := by
  simp only [executeQuery, readResult, h, QueryOutcome.mysqlErrno, QueryOutcome.mysqlStoreResult,
    ne_eq, not_true_eq_false, if_false, ofNat_eq_zero_iff]
  split_ifs
  · rfl
  · rw [TableDatas.clearDatas, fetchRows_of_width r.rows [] r.width]
    rfl

theorem executeQuery_of_result {r : ResultSet} (hlen : r.rows.length < 2 ^ 32)
    (h : (mysql (cStr query) userList).1 = .result r) :
    executeQuery mysql query errorMsg datas userList =
      ⟨"", ⟨r.rows.map (List.map cStr)⟩, (mysql (cStr query) userList).2⟩ := by
  rw [executeQuery_result h, Nat.mod_eq_of_lt hlen]
  split_ifs with hzero
  · rw [List.eq_nil_of_length_eq_zero hzero, List.map_nil]
  · rfl

/-! ## The return code -/

theorem returnCode_of_ne {o : Outputs collation} (h : o.errorMsg ≠ "") : returnCode o = (1, o) :=
  if_pos h

theorem returnCode_of_eq {o : Outputs collation} (h : o.errorMsg = "") : returnCode o = (0, o) :=
  if_neg fun hne => hne h

end OnlineCaro
