import OnlineCaro.Database.LogIn
import OnlineCaro.Lib.Ranking
import Mathlib.Algebra.Group.Int.Defs
import Mathlib.Data.List.Sort

/-!
# The rank list around a user

`getRankList` fetches all users in the order of their scores, and erases from the rows all but the
four above and the four below the given user, who is erased last.

* `removeElements`, `removeAnElement`: `none` for a range that `vector::erase` does not allow.
* `rowIndex`, `getRankList`: the search loop and the function of the source, `none` where C++ leaves
  the behaviour open: a range that is not allowed, `stoi` throwing, an `int` that overflows.
* `rowIndex_found`, `rowIndex_absent`, `rowIndex_overflow`: the loop finds the row of an id that no
  other row has, or none, or has too many rows.
* `getRankList_of_rows`, `getRankList_of_absent`, `getRankList_of_many`: a user that is found, one
  that is not, and too many rows.
* **`rank_window`**: of fewer than `2 ^ 31` rows without a NUL, all users within four places remain,
  and no one else.
-/

namespace OnlineCaro

open Decimal Ranking SqlText

variable {collation : Setoid String}

/-! ## Erasing rows -/

namespace TableDatas

def removeElements (fromIndex toIndex : ℤ) (datas : TableDatas) : Option TableDatas :=
  if 0 ≤ fromIndex ∧ fromIndex ≤ toIndex ∧ toIndex ≤ datas.mDatas.length then
    some ⟨datas.mDatas.take fromIndex.toNat ++ datas.mDatas.drop toIndex.toNat⟩
  else none

def removeAnElement (index : ℤ) (datas : TableDatas) : Option TableDatas :=
  if 0 ≤ index ∧ index < datas.mDatas.length then some ⟨datas.mDatas.eraseIdx index.toNat⟩
  else none

end TableDatas

/-! ## `getRankList` -/

/-- `RANK_LIST_LEVEL_LIMIT` -/
def rankListLevelLimit : ℤ := 4

/-- The loop that looks for the row of the user, from index `i` on. -/
def rowIndex (userId : Int32) : ℤ → ℤ → List (List String) → Option ℤ
  | currentRowIndex, _, [] => some currentRowIndex
  | currentRowIndex, i, row :: rows =>
    match row.head?.bind stoi with
    | none => none
    | some id =>
      let currentRowIndex := if id = userId then i else currentRowIndex
      -- `i++`
      if i + 1 < 2 ^ 31 then rowIndex userId currentRowIndex (i + 1) rows else none

/-- An integer converted to the type of `size()`. -/
def sizeT (x : ℤ) : ℤ := x % 2 ^ 64

def getRankListQuery : String :=
  "SELECT `id`, `username`, `score`" ++ " FROM `user_list` " ++ "ORDER BY `score` DESC"

/-- Rank limit, higher levels. -/
def popHigher (currentRowIndex : ℤ) (datas : TableDatas) : Option TableDatas :=
  if currentRowIndex - rankListLevelLimit ≤ 0 then some datas
  else datas.removeElements 0 (currentRowIndex - rankListLevelLimit)

/-- Rank limit, lower levels. -/
def popLower (currentRowIndex : ℤ) (datas : TableDatas) : Option TableDatas :=
  if sizeT (currentRowIndex + rankListLevelLimit) ≥ sizeT (datas.mDatas.length - 1) then some datas
  else datas.removeElements (currentRowIndex + rankListLevelLimit + 1) datas.mDatas.length

/-- `getRankList` after the call of `executeQuery`. -/
def keepNeighbours (userId : Int32) (o : Outputs collation) : Option (Outputs collation) := do
  let datas := o.datas
  let currentRowIndex ← rowIndex userId (-1) 0 datas.mDatas
  if currentRowIndex = -1 then return { o with errorMsg := "something went wrong" }
  let datas ← popHigher currentRowIndex datas
  -- the rows have moved: look again
  let currentRowIndex ← rowIndex userId currentRowIndex 0 datas.mDatas
  let datas ← popLower currentRowIndex datas
  let currentRowIndex ← rowIndex userId currentRowIndex 0 datas.mDatas
  let datas ← datas.removeAnElement currentRowIndex
  return { o with datas }

def getRankList (mysql : MySQL collation) (userId : Int32) (errorMsg : String) (datas : TableDatas)
    (userList : UserList collation) : Option (Outputs collation) :=
  keepNeighbours userId (executeQuery mysql getRankListQuery errorMsg datas userList)

/-! ## The search loop -/

/-- A row of the rank query. -/
structure RankRow where
  id : Int32
  username : String
  score : ℤ

/-- The cells of a row of the rank query. -/
def RankRow.cells (row : RankRow) : List String :=
  [toString row.id.toInt, row.username, toString row.score]

section Rows

variable {userId : Int32} {before after rows : List RankRow} {me : RankRow}

theorem stoi_cells (row : RankRow) : row.cells.head?.bind stoi = some row.id := stoi_toString row.id

theorem rowIndex_append (h : ∀ row ∈ before, row.id ≠ userId) (rest : List (List String)) :
    ∀ current i : ℤ, i + before.length < 2 ^ 31 →
      rowIndex userId current i (before.map RankRow.cells ++ rest) =
        rowIndex userId current (i + before.length) rest := by
  induction before with
  | nil => intro current i _; simp
  | cons row before ih =>
    intro current i hi
    obtain ⟨hrow, hbefore⟩ := List.forall_mem_cons.mp h
    rw [List.length_cons] at hi ⊢
    simp only [List.map_cons, List.cons_append, rowIndex, stoi_cells, if_neg hrow]
    rw [if_pos (by omega), ih hbefore current (i + 1) (by omega)]
    congr 1
    omega

/-- The loop finds the row with an id that no other row has. -/
theorem rowIndex_found (hbefore : ∀ row ∈ before, row.id ≠ me.id)
    (hafter : ∀ row ∈ after, row.id ≠ me.id)
    (hlen : (before ++ me :: after).length < 2 ^ 31) (current : ℤ) :
    rowIndex me.id current 0 ((before ++ me :: after).map RankRow.cells) =
      some (before.length : ℤ) := by
  rw [List.length_append, List.length_cons] at hlen
  have hend := rowIndex_append hafter [] before.length (before.length + 1) (by omega)
  rw [List.append_nil] at hend
  rw [List.map_append, rowIndex_append hbefore _ current 0 (by omega), List.map_cons, rowIndex]
  simp only [stoi_cells, if_pos]
  rw [Int.zero_add, if_pos (by omega), hend]
  rfl

theorem rowIndex_absent (h : ∀ row ∈ rows, row.id ≠ userId)
    (hlen : rows.length < 2 ^ 31) :
    rowIndex userId (-1) 0 (rows.map RankRow.cells) = some (-1) := by
  have hall := rowIndex_append h [] (-1) 0 (by omega)
  rwa [List.append_nil] at hall

/-- The loop runs past the last `int`. -/
theorem rowIndex_overflow (rows : List RankRow) :
    ∀ current i : ℤ, i < 2 ^ 31 → 2 ^ 31 ≤ i + rows.length →
      rowIndex userId current i (rows.map RankRow.cells) = none := by
  induction rows with
  | nil =>
    intro current i hlt hle
    rw [List.length_nil] at hle
    omega
  | cons row rows ih =>
    intro current i hlt hle
    rw [List.length_cons] at hle
    simp only [List.map_cons, rowIndex, stoi_cells]
    generalize hnext : (if row.id = userId then i else current) = next
    split_ifs with hi
    · exact ih next (i + 1) hi (by omega)
    · rfl

/-! ## The window -/

theorem length_cells (before after : List RankRow) (me : RankRow) :
    (((before ++ me :: after).map RankRow.cells).length : ℤ) =
      before.length + (after.length + 1) := by
  rw [List.length_map, List.length_append, List.length_cons]
  omega

/-- The first erase leaves at most four rows above. -/
theorem popHigher_eq (before after : List RankRow) (me : RankRow) :
    popHigher before.length ⟨(before ++ me :: after).map RankRow.cells⟩ =
      some ⟨(before.drop (before.length - 4) ++ me :: after).map RankRow.cells⟩ := by
  have hsize := length_cells before after me
  unfold popHigher rankListLevelLimit
  split_ifs with h
  · rw [Nat.sub_eq_zero_of_le (by omega : before.length ≤ 4), List.drop_zero]
  · have hto : ((before.length : ℤ) - 4).toNat = before.length - 4 := by omega
    rw [TableDatas.removeElements, if_pos ⟨by omega, by omega, by rw [hsize]; omega⟩, hto]
    rw [Int.toNat_zero, List.take_zero, List.nil_append, ← List.map_drop,
      List.drop_append_of_le_length (Nat.sub_le ..)]

theorem popLower_eq {before after : List RankRow} (me : RankRow) (hbefore : before.length ≤ 4)
    (hlen : after.length < 2 ^ 31) :
    popLower before.length ⟨(before ++ me :: after).map RankRow.cells⟩ =
      some ⟨(before ++ me :: after.take 4).map RankRow.cells⟩ := by
  have hsize := length_cells before after me
  unfold popLower rankListLevelLimit sizeT
  dsimp only
  rw [hsize, Int.emod_eq_of_lt (by omega) (by omega), Int.emod_eq_of_lt (by omega) (by omega)]
  split_ifs with h
  · rw [List.take_of_length_le (by omega)]
  · have hfrom : ((before.length : ℤ) + 4 + 1).toNat = before.length + 5 := by omega
    have hto : ((before.length : ℤ) + (after.length + 1)).toNat =
        ((before ++ me :: after).map RankRow.cells).length := by rw [← hsize, Int.toNat_natCast]
    rw [TableDatas.removeElements, if_pos ⟨by omega, by omega, by rw [hsize]⟩, hfrom, hto]
    rw [List.drop_length, List.append_nil, ← List.map_take, List.take_append,
      List.take_of_length_le (by omega), Nat.add_sub_cancel_left, List.take_succ_cons]

theorem removeAnElement_eq (before after : List RankRow) (me : RankRow) :
    TableDatas.removeAnElement before.length ⟨(before ++ me :: after).map RankRow.cells⟩ =
      some ⟨(before ++ after).map RankRow.cells⟩ := by
  have hsize := length_cells before after me
  rw [TableDatas.removeAnElement, if_pos ⟨by omega, by rw [hsize]; omega⟩, Int.toNat_natCast]
  rw [List.map_append, List.map_cons, List.eraseIdx_append_of_length_le (by simp)]
  simp

end Rows

section Window

variable {mysql : MySQL collation} {userList userList' : UserList collation}
  {before after rows : List RankRow} {me : RankRow} {userId : Int32} {errorMsg : String}
  {datas : TableDatas} {o : Outputs collation}

/-- `getRankList` on the rows above the user, the user and the rows below. -/
theorem getRankList_of_rows
    (ho : executeQuery mysql getRankListQuery errorMsg datas userList =
      ⟨"", ⟨(before ++ me :: after).map RankRow.cells⟩, userList'⟩)
    (hbefore : ∀ row ∈ before, row.id ≠ me.id) (hafter : ∀ row ∈ after, row.id ≠ me.id)
    (hlen : (before ++ me :: after).length < 2 ^ 31) :
    getRankList mysql me.id errorMsg datas userList =
      some ⟨"", ⟨(before.drop (before.length - 4) ++ after.take 4).map RankRow.cells⟩,
        userList'⟩ := by
  have hnear : ∀ row ∈ before.drop (before.length - 4), row.id ≠ me.id :=
    fun row h => hbefore row (List.mem_of_mem_drop h)
  have hnear' : ∀ row ∈ after.take 4, row.id ≠ me.id :=
    fun row h => hafter row (List.mem_of_mem_take h)
  have hfew : (before.drop (before.length - 4)).length ≤ 4 := by
    rw [List.length_drop]
    omega
  rw [List.length_append, List.length_cons] at hlen
  have hfound := rowIndex_found hbefore hafter (by rwa [List.length_append, List.length_cons]) (-1)
  have hfound₁ := rowIndex_found hnear hafter
    (by rw [List.length_append, List.length_cons, List.length_drop]; omega) before.length
  have hfound₂ := rowIndex_found hnear hnear'
    (by rw [List.length_append, List.length_cons, List.length_drop, List.length_take]; omega)
    (before.drop (before.length - 4)).length
  simp only [getRankList, keepNeighbours, ho, hfound, Option.bind_eq_bind, Option.bind_some,
    popHigher_eq, hfound₁, popLower_eq me hfew (by omega : after.length < 2 ^ 31), hfound₂,
    removeAnElement_eq]
  rw [if_neg (by omega)]
  rfl

/-- A user that is not found is reported, and all rows are left. -/
theorem getRankList_of_absent
    (ho : executeQuery mysql getRankListQuery errorMsg datas userList = o)
    (h : rowIndex userId (-1) 0 o.datas.mDatas = some (-1)) :
    getRankList mysql userId errorMsg datas userList =
      some ⟨"something went wrong", o.datas, o.userList⟩ := by
  simp only [getRankList, keepNeighbours, ho, h, Option.bind_eq_bind, Option.bind_some, if_pos]
  rfl

theorem getRankList_of_many
    (ho : executeQuery mysql getRankListQuery errorMsg datas userList =
      ⟨"", ⟨rows.map RankRow.cells⟩, userList'⟩) (hmany : 2 ^ 31 ≤ rows.length) :
    getRankList mysql userId errorMsg datas userList = none := by
  have hover : rowIndex userId (-1) 0 (rows.map RankRow.cells) = none :=
    rowIndex_overflow rows (-1) 0 (by omega) (by omega)
  simp only [getRankList, keepNeighbours, ho, hover]
  rfl

end Window

/-! ## Who is in it -/

section Places

variable {rows : List RankRow}

theorem ids_ne_of_nodup {before after : List RankRow} {me : RankRow}
    (hids : ((before ++ me :: after).map RankRow.id).Nodup) :
    (∀ row ∈ before, row.id ≠ me.id) ∧ ∀ row ∈ after, row.id ≠ me.id := by
  rw [List.map_append, List.map_cons, List.nodup_middle, List.nodup_cons, List.mem_append,
    not_or] at hids
  obtain ⟨⟨hbefore, hafter⟩, -⟩ := hids
  exact ⟨fun row hrow he => hbefore (he ▸ List.mem_map_of_mem hrow),
    fun row hrow he => hafter (he ▸ List.mem_map_of_mem hrow)⟩

theorem getRankList_of_present {mysql : MySQL collation} {userList userList' : UserList collation}
    {userId : Int32} {errorMsg : String} {datas : TableDatas}
    (ho : executeQuery mysql getRankListQuery errorMsg datas userList =
      ⟨"", ⟨rows.map RankRow.cells⟩, userList'⟩)
    (hids : (rows.map RankRow.id).Nodup) (hlen : rows.length < 2 ^ 31)
    (hfound : ∃ row ∈ rows, row.id = userId) :
    ∃ o, getRankList mysql userId errorMsg datas userList = some o ∧ o.errorMsg = "" := by
  obtain ⟨me, hmem, rfl⟩ := hfound
  obtain ⟨before, after, rfl⟩ := List.append_of_mem hmem
  obtain ⟨hbefore, hafter⟩ := ids_ne_of_nodup hids
  exact ⟨_, getRankList_of_rows ho hbefore hafter hlen, rfl⟩

theorem place_unique (hids : (rows.map RankRow.id).Nodup) {i j : ℕ} {row row' : RankRow}
    (hi : rows[i]? = some row) (hj : rows[j]? = some row') (h : row.id = row'.id) : i = j := by
  have hlt : i < (rows.map RankRow.id).length := by
    rw [List.length_map]
    exact (List.getElem?_eq_some_iff.mp hi).1
  refine (List.getElem?_inj hlt hids).mp ?_
  rw [List.getElem?_map, List.getElem?_map, hi, hj, Option.map_some, Option.map_some, h]

theorem id_of_cells {row row' : RankRow} (h : row.cells = row'.cells) : row.id = row'.id := by
  have hstoi := congrArg (fun cells => cells.head?.bind stoi) h
  simp only [stoi_cells] at hstoi
  exact Option.some.inj hstoi

theorem cells_mem_around (hids : (rows.map RankRow.id).Nodup) {j k : ℕ} {row : RankRow}
    (hj : rows[j]? = some row) :
    row.cells ∈ (above 4 k rows ++ below 4 k rows).map RankRow.cells ↔
      j ≠ k ∧ k ≤ j + 4 ∧ j ≤ k + 4 := by
  rw [List.mem_map]
  constructor
  · rintro ⟨row', hrow', hcells⟩
    obtain ⟨i, hi, hplace⟩ := mem_above_or_below.mp hrow'
    rwa [← place_unique hids hi hj (id_of_cells hcells)]
  · exact fun hplace => ⟨row, mem_above_or_below.mpr ⟨j, hj, hplace⟩, rfl⟩

end Places

theorem map_cStr_cells {rows : List RankRow} (hnul : ∀ row ∈ rows, nul ∉ row.username.toList) :
    (rows.map RankRow.cells).map (List.map cStr) = rows.map RankRow.cells := by
  rw [List.map_map]
  refine List.map_congr_left fun row hrow => ?_
  rw [Function.comp_apply, RankRow.cells, map_cStr_row, cStr_of_not_mem (hnul row hrow)]

/-- **The rank window.** The erases are in range, no message is left, and of the result of fewer
than `2 ^ 31` rows with different ids, and no NUL in them, those within four places of the user
remain, in their order. -/
theorem rank_window {mysql : MySQL collation} {userList : UserList collation} {r : ResultSet}
    {rows : List RankRow} (hresult : (mysql (cStr getRankListQuery) userList).1 = .result r)
    (hrows : r.rows = rows.map RankRow.cells) (hids : (rows.map RankRow.id).Nodup)
    (hlen : rows.length < 2 ^ 31) (hnul : ∀ row ∈ rows, nul ∉ row.username.toList) {k : ℕ}
    {me : RankRow} (hme : rows[k]? = some me) (errorMsg : String) (datas : TableDatas) :
    ∃ o, getRankList mysql me.id errorMsg datas userList = some o ∧ o.errorMsg = "" ∧
      o.datas.mDatas = ((rows.take k).drop (k - 4) ++ (rows.drop (k + 1)).take 4).map
        RankRow.cells ∧
      ∀ j row, rows[j]? = some row →
        (row.cells ∈ o.datas.mDatas ↔ j ≠ k ∧ k ≤ j + 4 ∧ j ≤ k + 4) := by
  obtain ⟨hk, hme'⟩ := List.getElem?_eq_some_iff.mp hme
  have hsplit : rows = rows.take k ++ me :: rows.drop (k + 1) := by
    rw [← hme', List.getElem_cons_drop, List.take_append_drop]
  obtain ⟨hbefore, hafter⟩ := ids_ne_of_nodup (hsplit ▸ hids)
  have hcopy : executeQuery mysql getRankListQuery errorMsg datas userList =
      ⟨"", ⟨(rows.take k ++ me :: rows.drop (k + 1)).map RankRow.cells⟩,
        (mysql (cStr getRankListQuery) userList).2⟩ := by
    rw [executeQuery_of_result (by rw [hrows, List.length_map]; omega) hresult, hrows,
      map_cStr_cells hnul, ← hsplit]
  have hlist := getRankList_of_rows hcopy hbefore hafter (by rwa [← hsplit])
  rw [List.length_take_of_le (Nat.le_of_lt hk)] at hlist
  exact ⟨_, hlist, rfl, rfl, fun j row hj => cells_mem_around hids hj⟩

/-! ## A server that knows this query -/

/-- The result set of the rank query. -/
def ranked (userList : UserList collation) : ResultSet where
  numFields := 3
  rows := (userList.rows.insertionSort fun row row' => row'.score ≤ row.score).map
    UserRow.logInCells
  width row h := by
    obtain ⟨_, -, rfl⟩ := List.mem_map.mp h
    rfl

/-- A server that answers the rank query and refuses every other statement. -/
def MySQL.rankOnly : MySQL collation := fun text userList =>
  if text = getRankListQuery then (.result (ranked userList), userList)
  else (.queryFailed syntaxError, userList)

theorem rankOnly_apply (userList : UserList collation) :
    MySQL.rankOnly (cStr getRankListQuery) userList = (.result (ranked userList), userList) := by
  have hsent : cStr getRankListQuery = getRankListQuery := by decide +kernel
  rw [MySQL.rankOnly, if_pos hsent]

theorem rankOnly_result (userList : UserList collation) :
    (MySQL.rankOnly (cStr getRankListQuery) userList).1 = .result (ranked userList) := by
  rw [rankOnly_apply]

/-- A table with these rows. -/
def tableOf (rows : List RankRow) (hids : (rows.map RankRow.id).Nodup)
    (hnames : (rows.map RankRow.username).Nodup) : UserList binary where
  rows := rows.map fun row => ⟨row.id.toInt, row.username, "", row.score⟩
  primaryKey := by
    rw [List.map_map]
    have hint := hids.map (f := Int32.toInt) fun i j h => Int32.toInt_inj.mp h
    rwa [List.map_map] at hint
  uniqueUsername := by
    rw [List.pairwise_map]
    exact List.pairwise_map.mp hnames

/-- In descending order of score, the rows of the table are what the query gives. -/
theorem ranked_tableOf {rows : List RankRow} {hids : (rows.map RankRow.id).Nodup}
    {hnames : (rows.map RankRow.username).Nodup}
    (hsorted : rows.Pairwise fun row row' => row'.score ≤ row.score) :
    (ranked (tableOf rows hids hnames)).rows = rows.map RankRow.cells := by
  have hsort : ((tableOf rows hids hnames).rows.insertionSort
      fun row row' => row'.score ≤ row.score) = (tableOf rows hids hnames).rows :=
    List.Pairwise.insertionSort_eq (List.pairwise_map.mpr hsorted)
  show ((tableOf rows hids hnames).rows.insertionSort _).map UserRow.logInCells = _
  rw [hsort, tableOf, List.map_map]
  rfl

/-- Six users. -/
def sixRows : List RankRow :=
  [⟨31, "alice2", 30⟩, ⟨32, "alice3", 27⟩, ⟨29, "alice", 25⟩, ⟨33, "alice4", 15⟩,
    ⟨1, "hoang1", 13⟩, ⟨34, "alice5", 10⟩]

def sixUsers : UserList binary := tableOf sixRows (by decide) (by decide)

/-- The last of six users sees the four above. -/
theorem rank_window_last :
    (MySQL.rankOnly (cStr getRankListQuery) sixUsers).1 = .result (ranked sixUsers) ∧
      (ranked sixUsers).rows = sixRows.map RankRow.cells ∧
      (sixRows.map RankRow.id).Nodup ∧ sixRows.length < 2 ^ 31 ∧
      (∀ row ∈ sixRows, nul ∉ row.username.toList) ∧ sixRows[5]? = some ⟨34, "alice5", 10⟩ ∧
      ∃ o, getRankList MySQL.rankOnly 34 "" ⟨[]⟩ sixUsers = some o ∧ o.errorMsg = "" ∧
        o.datas.mDatas = ((sixRows.take 5).drop (5 - 4) ++ (sixRows.drop (5 + 1)).take 4).map
          RankRow.cells ∧
        ∀ j row, sixRows[j]? = some row →
          (row.cells ∈ o.datas.mDatas ↔ j ≠ 5 ∧ 5 ≤ j + 4 ∧ j ≤ 5 + 4) := by
  have hresult := rankOnly_result sixUsers
  have hrows : (ranked sixUsers).rows = sixRows.map RankRow.cells := ranked_tableOf (by decide)
  have hids : (sixRows.map RankRow.id).Nodup := by decide
  have hlen : sixRows.length < 2 ^ 31 := by decide
  have hnul : ∀ row ∈ sixRows, nul ∉ row.username.toList := by decide
  have hme : sixRows[5]? = some ⟨34, "alice5", 10⟩ := rfl
  exact ⟨hresult, hrows, hids, hlen, hnul, hme,
    rank_window hresult hrows hids hlen hnul hme "" ⟨[]⟩⟩

/-! ## A username with a NUL -/

/-- A user that has a NUL in the name, and one below. -/
def nulRows : List RankRow := [⟨1, String.ofList ['a', nul, 'b'], 1⟩, ⟨2, "c", 0⟩]

def nulTable : UserList binary := tableOf nulRows (by decide) (by decide)

theorem nulTable_rows : (ranked nulTable).rows = nulRows.map RankRow.cells :=
  ranked_tableOf (by decide)

theorem executeQuery_nul (errorMsg : String) (datas : TableDatas) :
    executeQuery MySQL.rankOnly getRankListQuery errorMsg datas nulTable =
      ⟨"", ⟨([⟨1, "a", 1⟩] ++ ⟨2, "c", 0⟩ :: [] : List RankRow).map RankRow.cells⟩, nulTable⟩ := by
  have hcut : (nulRows.map RankRow.cells).map (List.map cStr) =
      ([⟨1, "a", 1⟩] ++ ⟨2, "c", 0⟩ :: [] : List RankRow).map RankRow.cells := by decide
  rw [executeQuery_of_result (by rw [nulTable_rows]; decide) (rankOnly_result nulTable),
    nulTable_rows, hcut, rankOnly_apply]

theorem getRankList_nul : getRankList MySQL.rankOnly 2 "" ⟨[]⟩ nulTable =
    some ⟨"", ⟨[["1", "a", "1"]]⟩, nulTable⟩ :=
  getRankList_of_rows (executeQuery_nul "" ⟨[]⟩) (by decide) (by decide) (by decide)

/-! ## Too many users -/

/-- A user for every `int`. -/
def fullRows : List RankRow :=
  (List.range (2 ^ 32)).map fun i => ⟨Int32.ofNat i, toString (i : ℤ), 0⟩

theorem length_fullRows : fullRows.length = 2 ^ 32 := by
  rw [fullRows, List.length_map, List.length_range]

theorem nodup_ids_fullRows : (fullRows.map RankRow.id).Nodup := by
  rw [fullRows, List.map_map]
  refine List.nodup_range.map_on fun i hi j hj h => ?_
  have hlow : ∀ i ∈ List.range (2 ^ 32), (Int32.ofNat i).toBitVec.toNat = i := by
    intro i hi
    show (BitVec.ofNat 32 i).toNat = i
    rw [BitVec.toNat_ofNat, Nat.mod_eq_of_lt (List.mem_range.mp hi)]
  have hsame : Int32.ofNat i = Int32.ofNat j := h
  rw [← hlow i hi, ← hlow j hj, hsame]

theorem nodup_usernames_fullRows : (fullRows.map RankRow.username).Nodup := by
  rw [fullRows, List.map_map]
  refine List.nodup_range.map fun i j h => ?_
  have hval := congrArg (fun s : String => textValue s.toList) h
  simp only [Function.comp_apply, textValue_toString] at hval
  exact Int.ofNat.inj (Option.some.inj hval)

theorem sorted_fullRows : fullRows.Pairwise fun row row' => row'.score ≤ row.score := by
  rw [fullRows, List.pairwise_map]
  exact List.pairwise_of_forall fun _ _ => le_rfl

def fullTable : UserList binary := tableOf fullRows nodup_ids_fullRows nodup_usernames_fullRows

theorem fullTable_rows : (ranked fullTable).rows = fullRows.map RankRow.cells :=
  ranked_tableOf sorted_fullRows

/-- The number of rows, as an `int`, is zero: no row is copied. -/
theorem executeQuery_full (errorMsg : String) (datas : TableDatas) :
    executeQuery MySQL.rankOnly getRankListQuery errorMsg datas fullTable =
      ⟨"", ⟨[]⟩, fullTable⟩ := by
  have hzero : (ranked fullTable).rows.length % 2 ^ 32 = 0 := by
    rw [fullTable_rows, List.length_map, length_fullRows, Nat.mod_self]
  rw [executeQuery_result (rankOnly_result fullTable), if_pos hzero, rankOnly_apply]

/-- The name above the user with the id `2` is cut at its NUL. And the user with the id `0` is one
of `2 ^ 32` users, and gets no rank list. -/
theorem rank_window_fails :
    ((ranked nulTable).rows = nulRows.map RankRow.cells ∧ (nulRows.map RankRow.id).Nodup ∧
      nulRows.Pairwise (fun row row' => row'.score ≤ row.score) ∧ nulRows[1]? = some ⟨2, "c", 0⟩ ∧
      getRankList MySQL.rankOnly 2 "" ⟨[]⟩ nulTable =
        some ⟨"", ⟨[["1", "a", "1"]]⟩, nulTable⟩ ∧
      [["1", "a", "1"]] ≠ (nulRows.take 1).map RankRow.cells) ∧
    (ranked fullTable).rows = fullRows.map RankRow.cells ∧ (fullRows.map RankRow.id).Nodup ∧
      fullRows.Pairwise (fun row row' => row'.score ≤ row.score) ∧
      fullRows[0]? = some ⟨0, "0", 0⟩ ∧
      getRankList MySQL.rankOnly 0 "" ⟨[]⟩ fullTable =
        some ⟨"something went wrong", ⟨[]⟩, fullTable⟩ := by
  refine ⟨⟨nulTable_rows, by decide, by decide, rfl, getRankList_nul, by decide⟩,
    fullTable_rows, nodup_ids_fullRows, sorted_fullRows, ?_, ?_⟩
  · rw [fullRows, List.getElem?_map, List.getElem?_range (by decide)]
    rfl
  · exact getRankList_of_absent (executeQuery_full "" ⟨[]⟩) rfl

end OnlineCaro
