import OnlineCaro.Database.RankList
import OnlineCaro.Database.Store
import Mathlib.Data.Int.Interval

/-!
# What the calls report

The callers of `DatabaseOp` learn how a call went from the return code, the message and the rows.

* `FailuresReported`, **`failures_reported_iff`**: `executeQuery` reports every failure but one of
  reading the rows.
* `CopiedExactly`, **`result_copied_iff`**: it copies every result set, unless a cell holds a NUL or
  the number of rows is lost in an `int`.
* `UpdateReported`, **`update_reported_iff`**: an update that finds no row is reported as a success.
* `RankReported`, **`rank_reported_iff`**: a rank list for an unknown user comes with the rows of
  all others.
-/

namespace OnlineCaro

open SqlText

variable {collation : Setoid String} {mysql : MySQL collation}

/-! ## `executeQuery` -/

/-- A failed call of the client library leaves a message and no rows, and a message is left by
nothing else. -/
structure FailuresReported (outcome : QueryOutcome) (o : Outputs collation) : Prop where
  failure : outcome.Failed → o.errorMsg ≠ "" ∧ o.datas = ⟨[]⟩
  success : ¬ outcome.Failed → o.errorMsg = ""

/-- **When failures are reported.** -/
theorem failures_reported_iff (mysql : MySQL collation) (query errorMsg : String)
    (datas : TableDatas) (userList : UserList collation) :
    FailuresReported (mysql (cStr query) userList).1
        (executeQuery mysql query errorMsg datas userList) ↔
      ∀ e, (mysql (cStr query) userList).1 ≠ .storeFailed e := by
  cases h : (mysql (cStr query) userList).1 with
  | queryFailed e =>
    have hleft := executeQuery_of_queryFailed errorMsg datas h
    refine iff_of_true ⟨fun _ => hleft, fun hok => absurd trivial hok⟩ fun e' he => ?_
    cases he
  | noResult =>
    have hleft : executeQuery mysql query errorMsg datas userList = ⟨"", ⟨[]⟩, _⟩ :=
      executeQuery_of_noResult (Prod.ext h rfl)
    refine iff_of_true ⟨fun hf => hf.elim, fun _ => by rw [hleft]⟩ fun e' he => ?_
    cases he
  | storeFailed e =>
    -- no message, although the rows could not be read
    refine iff_of_false (fun hr => ?_) fun hne => hne e rfl
    refine (hr.failure trivial).1 ?_
    rw [executeQuery_of_storeFailed h]
  | result r =>
    refine iff_of_true ⟨fun hf => hf.elim, fun _ => ?_⟩ fun e' he => ?_
    · rw [executeQuery_result h]
    · cases he

theorem executeQuery_of_failed {query : String} {userList : UserList collation} (errorMsg : String)
    (datas : TableDatas) (hf : (mysql (cStr query) userList).1.Failed) :
    (executeQuery mysql query errorMsg datas userList).datas = ⟨[]⟩ := by
  cases h : (mysql (cStr query) userList).1 with
  | queryFailed e => exact (executeQuery_of_queryFailed errorMsg datas h).2
  | storeFailed e => rw [executeQuery_of_storeFailed h]
  | noResult => rw [h] at hf; exact hf.elim
  | result r => rw [h] at hf; exact hf.elim

/-- The connection is lost while the rows are read. -/
def lostConnection : SqlError where
  errno := 2013
  text := "Lost connection to MySQL server during query"
  errno_ne := by decide
  text_ne := by decide

/-- A server that accepts every statement, over a connection that is lost before the rows are
read. -/
def MySQL.interrupted : MySQL collation := fun _ userList => (.storeFailed lostConnection, userList)

theorem interrupted_not_reported :
    ¬ FailuresReported (MySQL.interrupted (cStr getRankListQuery) sixUsers).1
      (executeQuery MySQL.interrupted getRankListQuery "" ⟨[]⟩ sixUsers) := by
  intro h
  refine (h.failure trivial).1 ?_
  rw [executeQuery_of_storeFailed (e := lostConnection) rfl]

/-- No message, and the rows and cells of the result set in their order; each row has the width of
the result set. -/
structure CopiedExactly (r : ResultSet) (o : Outputs collation) : Prop where
  errorMsg : o.errorMsg = ""
  rows : o.datas.mDatas = r.rows

/-- **When a result set is copied.** -/
theorem result_copied_iff {query : String} {userList : UserList collation} {r : ResultSet}
    (h : (mysql (cStr query) userList).1 = .result r) (errorMsg : String) (datas : TableDatas) :
    CopiedExactly r (executeQuery mysql query errorMsg datas userList) ↔
      (∀ row ∈ r.rows, ∀ cell ∈ row, nul ∉ cell.toList) ∧
        (r.rows.length % 2 ^ 32 = 0 → r.rows.length = 0) := by
  rw [executeQuery_result h, ← map_cStr_eq_self_iff]
  by_cases hzero : r.rows.length % 2 ^ 32 = 0
  · rw [if_pos hzero]
    constructor
    · rintro ⟨-, hrows⟩
      rw [← hrows]
      exact ⟨rfl, fun _ => rfl⟩
    · exact fun hkept => ⟨rfl, (List.eq_nil_of_length_eq_zero (hkept.2 hzero)).symm⟩
  · rw [if_neg hzero]
    exact ⟨fun hc => ⟨hc.rows, fun h => absurd h hzero⟩, fun hkept => ⟨rfl, hkept.1⟩⟩

/-- The rank query on six users. -/
theorem result_copied_six :
    (MySQL.rankOnly (cStr getRankListQuery) sixUsers).1 = .result (ranked sixUsers) ∧
      CopiedExactly (ranked sixUsers)
        (executeQuery MySQL.rankOnly getRankListQuery "left over" ⟨[["1"]]⟩ sixUsers) := by
  have hrows : (ranked sixUsers).rows = sixRows.map RankRow.cells := ranked_tableOf (by decide)
  have hnul : ∀ row ∈ (ranked sixUsers).rows, ∀ cell ∈ row, nul ∉ cell.toList := by
    rw [hrows]
    exact map_cStr_eq_self_iff.mp (map_cStr_cells (by decide))
  have hlen : (ranked sixUsers).rows.length % 2 ^ 32 = 0 → (ranked sixUsers).rows.length = 0 := by
    rw [hrows, List.length_map]
    decide
  exact ⟨rankOnly_result sixUsers,
    (result_copied_iff (rankOnly_result sixUsers) "left over" ⟨[["1"]]⟩).mpr ⟨hnul, hlen⟩⟩

/-- The username with a NUL is cut. -/
theorem nul_cell_not_copied :
    (MySQL.rankOnly (cStr getRankListQuery) nulTable).1 = .result (ranked nulTable) ∧
      ¬ CopiedExactly (ranked nulTable)
        (executeQuery MySQL.rankOnly getRankListQuery "" ⟨[]⟩ nulTable) := by
  refine ⟨rankOnly_result nulTable, fun h => ?_⟩
  have hrows := h.rows
  rw [executeQuery_nul, nulTable_rows] at hrows
  revert hrows
  decide

/-! ## `updateUserScore` -/

/-- An update leaves the table alone and fails, or sets the score of the row with its id, if there
is one. -/
def MySQL.UpdatesScore (mysql : MySQL collation) : Prop :=
  ∀ (text : String) (id score : Int32) (userList : UserList collation),
    lex text.toList = some (updateTokens id.toInt score.toInt) →
    (∃ e, mysql text userList = (.queryFailed e, userList)) ∨
    ∃ userList', mysql text userList = (.noResult, userList') ∧
      ∀ row, row ∈ userList'.rows ↔
        ∃ old ∈ userList.rows, row = old.setScore id.toInt score.toInt

/-- There is a row with this id; it has this score after the call, and all else is as before. -/
structure Updated (id score : ℤ) (before after : UserList collation) : Prop where
  found : ∃ row ∈ before.rows, row.id = id
  rows : ∀ row, row ∈ after.rows ↔ ∃ old ∈ before.rows, row = old.setScore id score

/-- The code is `0` for an update that was made. For any other there is a message, and the table is
as before. -/
structure UpdateReported (id score : ℤ) (before : UserList collation)
    (result : ℕ × Outputs collation) : Prop where
  success : result.1 = 0 ↔ Updated id score before result.2.userList
  failure : ¬ Updated id score before result.2.userList →
    result.1 ≠ 0 ∧ result.2.errorMsg ≠ "" ∧ result.2.userList = before

theorem UserRow.setScore_score {id score : ℤ} {row : UserRow} (h : row.id = id) :
    (row.setScore id score).score = score := by
  rw [setScore, if_pos h]

/-- An untouched table looks updated exactly when its row has the score already. -/
theorem updated_self {id score : ℤ} {userList : UserList collation} :
    Updated id score userList userList ↔
      ∃ row ∈ userList.rows, row.id = id ∧ row.score = score := by
  constructor
  · rintro ⟨⟨row, hrow, hid⟩, hrows⟩
    exact ⟨row.setScore id score, (hrows _).mpr ⟨row, hrow, rfl⟩,
      (UserRow.setScore_id id score row).trans hid, UserRow.setScore_score hid⟩
  · rintro ⟨row, hrow, hid, hscore⟩
    -- the row with this id is the only one
    have hself : ∀ old ∈ userList.rows, old.setScore id score = old := by
      intro old hold
      rw [UserRow.setScore]
      split_ifs with h
      · obtain rfl : old = row :=
          List.inj_on_of_nodup_map userList.primaryKey hold hrow (h.trans hid.symm)
        rw [← hscore]
      · rfl
    refine ⟨⟨row, hrow, hid⟩, fun row' => ⟨fun h => ⟨row', h, (hself row' h).symm⟩, ?_⟩⟩
    rintro ⟨old, hold, rfl⟩
    rwa [hself old hold]

/-- **When an update is reported.** -/
theorem update_reported_iff (hlaw : mysql.UpdatesScore) (id score : Int32) (errorMsg : String)
    (userList : UserList collation) :
    UpdateReported id.toInt score.toInt userList
        (updateUserScore mysql id score errorMsg userList) ↔
      ((∃ e, (mysql (cStr (updateQuery id score)) userList).1 = .queryFailed e) ∧
        ¬ ∃ row ∈ userList.rows, row.id = id.toInt ∧ row.score = score.toInt) ∨
      ((mysql (cStr (updateQuery id score)) userList).1 = .noResult ∧
        ∃ row ∈ userList.rows, row.id = id.toInt) := by
  have hlex : lex (cStr (updateQuery id score)).toList =
      some (updateTokens id.toInt score.toInt) := by
    rw [cStr_updateQuery, lex_updateQuery]
  obtain ⟨e, h⟩ | ⟨userList', h, hrows⟩ := hlaw _ id score userList hlex
  · have hmsg := (executeQuery_of_queryFailed errorMsg ⟨[]⟩ (congrArg Prod.fst h)).1
    have htable := executeQuery_userList mysql (updateQuery id score) errorMsg ⟨[]⟩ userList
    rw [h] at htable ⊢
    simp only [updateUserScore, returnCode_of_ne hmsg]
    constructor
    · rintro ⟨hsuccess, -⟩
      refine Or.inl ⟨⟨e, rfl⟩, fun hscore => ?_⟩
      rw [htable, updated_self] at hsuccess
      exact Nat.one_ne_zero (hsuccess.mpr hscore)
    · rintro (⟨-, hscore⟩ | ⟨hok, -⟩)
      · rw [← updated_self] at hscore
        refine ⟨?_, fun _ => ⟨Nat.one_ne_zero, hmsg, htable⟩⟩
        rw [htable]
        exact iff_of_false Nat.one_ne_zero hscore
      · cases hok
  · have hupdated : Updated id.toInt score.toInt userList userList' ↔
        ∃ row ∈ userList.rows, row.id = id.toInt := ⟨fun hu => hu.found, fun hf => ⟨hf, hrows⟩⟩
    simp only [updateUserScore, executeQuery_of_noResult h, h]
    rw [returnCode_of_eq rfl]
    constructor
    · rintro ⟨hsuccess, -⟩
      exact Or.inr ⟨trivial, hupdated.mp (hsuccess.mp rfl)⟩
    · rintro (⟨⟨e, he⟩, -⟩ | ⟨-, hfound⟩)
      · cases he
      · exact ⟨iff_of_true rfl (hupdated.mpr hfound), fun hno => absurd (hupdated.mpr hfound) hno⟩

theorem store_updatesScore : MySQL.store.UpdatesScore := by
  intro text id score userList h
  obtain hfail | ⟨userList', hstore, hrows⟩ := store_keepsUserList.update text id score userList h
  · rw [store_update h] at hfail
    exact hfail.elim
  · exact Or.inr ⟨userList', hstore, hrows⟩

theorem store_updateQuery (id score : Int32) (userList : UserList binary) :
    MySQL.store (cStr (updateQuery id score)) userList =
      (.noResult, userList.update id.toInt score.toInt) := by
  rw [cStr_updateQuery, store_update (lex_updateQuery id score)]

/-- `alice` gets a score below zero. -/
theorem update_reported_alice :
    MySQL.store.UpdatesScore ∧
      UpdateReported (29 : Int32).toInt (-7 : Int32).toInt aliceOnly
        (updateUserScore MySQL.store 29 (-7) "" aliceOnly) := by
  have hrow : ∃ row ∈ aliceOnly.rows, row.id = (29 : Int32).toInt := by decide
  have houtcome := congrArg Prod.fst (store_updateQuery 29 (-7) aliceOnly)
  exact ⟨store_updatesScore,
    (update_reported_iff store_updatesScore 29 (-7) "" aliceOnly).mpr (Or.inr ⟨houtcome, hrow⟩)⟩

/-- There is no row with the id `1`, and the code is that of a success. -/
theorem update_of_unknown_id :
    MySQL.store.UpdatesScore ∧ (∀ row ∈ aliceOnly.rows, row.id ≠ 1) ∧
      (updateUserScore MySQL.store 1 7 "" aliceOnly).1 = 0 ∧
      ¬ UpdateReported (1 : Int32).toInt (7 : Int32).toInt aliceOnly
        (updateUserScore MySQL.store 1 7 "" aliceOnly) := by
  have hno : ∀ row ∈ aliceOnly.rows, row.id ≠ 1 := by decide
  have hcode : (updateUserScore MySQL.store 1 7 "" aliceOnly).1 = 0 := by
    simp only [updateUserScore, executeQuery_of_noResult (store_updateQuery 1 7 aliceOnly)]
    rfl
  refine ⟨store_updatesScore, hno, hcode, fun h => ?_⟩
  obtain ⟨row, hrow, hid⟩ := (h.success.mp hcode).found
  exact hno row hrow hid

/-! ## `getRankList` -/

/-- The rank query leaves the table alone; it fails, or gives all rows of the table. -/
def MySQL.SelectsRanked (mysql : MySQL collation) : Prop :=
  ∀ userList : UserList collation,
    (∃ e, mysql (cStr getRankListQuery) userList = (.queryFailed e, userList)) ∨
    (∃ e, mysql (cStr getRankListQuery) userList = (.storeFailed e, userList)) ∨
    ∃ (r : ResultSet) (rows : List UserRow),
      mysql (cStr getRankListQuery) userList = (.result r, userList) ∧
      r.rows = rows.map UserRow.logInCells ∧ rows.Perm userList.rows

/-- The ids are values of a column of type `int`. -/
def UserList.IntIds (userList : UserList collation) : Prop :=
  ∀ row ∈ userList.rows, -2 ^ 31 ≤ row.id ∧ row.id < 2 ^ 31

/-- The call ends. It leaves no message exactly if the query did not fail and the user is in the
table, and rows only if it leaves no message. -/
def RankReported (outcome : QueryOutcome) (userList : UserList collation) (userId : Int32)
    (result : Option (Outputs collation)) : Prop :=
  ∃ o, result = some o ∧ (o.errorMsg ≠ "" → o.datas = ⟨[]⟩) ∧
    (o.errorMsg = "" ↔ ¬ outcome.Failed ∧ ∃ row ∈ userList.rows, row.id = userId.toInt)

section RankList

variable {userList : UserList collation} {userId : Int32} {errorMsg : String} {datas : TableDatas}

/-- There are at most `2 ^ 32` ids. -/
theorem UserList.IntIds.length_lt (hint : userList.IntIds)
    (habsent : ∀ row ∈ userList.rows, row.id ≠ userId.toInt) : userList.rows.length < 2 ^ 32 := by
  have hids : (userId.toInt :: userList.rows.map UserRow.id).Nodup := by
    rw [List.nodup_cons]
    refine ⟨fun hmem => ?_, userList.primaryKey⟩
    obtain ⟨row, hrow, hid⟩ := List.mem_map.mp hmem
    exact habsent row hrow hid
  have hrange : (userId.toInt :: userList.rows.map UserRow.id).toFinset ⊆
      Finset.Ico (-2 ^ 31) (2 ^ 31) := by
    intro id hid
    rw [List.mem_toFinset, List.mem_cons] at hid
    rw [Finset.mem_Ico]
    obtain rfl | hmem := hid
    · exact ⟨userId.le_toInt, userId.toInt_lt⟩
    · obtain ⟨row, hrow, rfl⟩ := List.mem_map.mp hmem
      exact hint row hrow
  have hcard := Finset.card_le_card hrange
  rw [List.toFinset_card_of_nodup hids, Int.card_Ico, List.length_cons, List.length_map] at hcard
  have htotal : ((2 : ℤ) ^ 31 - -2 ^ 31).toNat = 2 ^ 32 := by decide
  omega

/-- The row of the rank query, as it is copied. -/
def UserRow.toRankRow (row : UserRow) : RankRow :=
  ⟨Int32.ofInt row.id, cStr row.username, row.score⟩

theorem UserRow.toRankRow_id {row : UserRow} (h : -2 ^ 31 ≤ row.id ∧ row.id < 2 ^ 31) :
    row.toRankRow.id.toInt = row.id := Int32.toInt_ofInt_of_le h.1 h.2

theorem UserRow.cells_toRankRow {row : UserRow} (h : -2 ^ 31 ≤ row.id ∧ row.id < 2 ^ 31) :
    row.toRankRow.cells = row.logInCells.map cStr := by
  rw [RankRow.cells, toRankRow_id h, logInCells, map_cStr_row]
  rfl

section Converted

variable {rows : List UserRow} (hrange : ∀ row ∈ rows, -2 ^ 31 ≤ row.id ∧ row.id < 2 ^ 31)
include hrange

theorem map_cells_toRankRow :
    (rows.map UserRow.toRankRow).map RankRow.cells =
      (rows.map UserRow.logInCells).map (List.map cStr) := by
  rw [List.map_map, List.map_map]
  exact List.map_congr_left fun row hrow => UserRow.cells_toRankRow (hrange row hrow)

theorem nodup_ids_toRankRow (hids : (rows.map UserRow.id).Nodup) :
    ((rows.map UserRow.toRankRow).map RankRow.id).Nodup := by
  have hkey : ((rows.map UserRow.toRankRow).map RankRow.id).map Int32.toInt =
      rows.map UserRow.id := by
    rw [List.map_map, List.map_map]
    exact List.map_congr_left fun row hrow => UserRow.toRankRow_id (hrange row hrow)
  refine List.Nodup.of_map Int32.toInt ?_
  rwa [hkey]

theorem exists_toRankRow_iff : (∃ row ∈ rows.map UserRow.toRankRow, row.id = userId) ↔
    ∃ row ∈ rows, row.id = userId.toInt := by
  have hid : ∀ row ∈ rows, (row.toRankRow.id = userId ↔ row.id = userId.toInt) := by
    intro row hrow
    rw [← Int32.toInt_inj, UserRow.toRankRow_id (hrange row hrow)]
  constructor
  · rintro ⟨row', hrow', he⟩
    obtain ⟨row, hrow, rfl⟩ := List.mem_map.mp hrow'
    exact ⟨row, hrow, (hid row hrow).mp he⟩
  · rintro ⟨row, hrow, he⟩
    exact ⟨row.toRankRow, List.mem_map_of_mem hrow, (hid row hrow).mpr he⟩

end Converted

theorem something_ne : "something went wrong" ≠ "" := by decide

theorem rankReported_of_noRows {outcome : QueryOutcome}
    (h : (executeQuery mysql getRankListQuery errorMsg datas userList).datas = ⟨[]⟩) :
    RankReported outcome userList userId (getRankList mysql userId errorMsg datas userList) ↔
      (outcome.Failed ∨ ∀ row ∈ userList.rows, row.id ≠ userId.toInt) := by
  have hnone : rowIndex userId (-1) 0
      (executeQuery mysql getRankListQuery errorMsg datas userList).datas.mDatas = some (-1) := by
    rw [h]
    rfl
  have hlist := getRankList_of_absent rfl hnone
  rw [RankReported, hlist]
  constructor
  · rintro ⟨o, ho, -, hiff⟩
    obtain rfl := Option.some.inj ho
    by_contra hno
    push Not at hno
    exact something_ne (hiff.mpr hno)
  · intro hno
    refine ⟨_, rfl, fun _ => h, iff_of_false something_ne ?_⟩
    rintro ⟨hok, row, hrow, hid⟩
    exact hno.elim hok fun habsent => habsent row hrow hid

theorem rankReported_of_rows {r : ResultSet} {rows : List UserRow} (hint : userList.IntIds)
    (hresult : (mysql (cStr getRankListQuery) userList).1 = .result r)
    (hrows : r.rows = rows.map UserRow.logInCells) (hperm : rows.Perm userList.rows)
    (hlost : ¬ r.rows.length % 2 ^ 32 = 0) :
    RankReported (.result r) userList userId
        (getRankList mysql userId errorMsg datas userList) ↔
      (∃ row ∈ userList.rows, row.id = userId.toInt) ∧ userList.rows.length < 2 ^ 31 := by
  have hrange : ∀ row ∈ rows, -2 ^ 31 ≤ row.id ∧ row.id < 2 ^ 31 :=
    fun row hrow => hint row (hperm.mem_iff.mp hrow)
  have hids := nodup_ids_toRankRow hrange
    ((hperm.map UserRow.id).nodup_iff.mpr userList.primaryKey)
  have hlen : (rows.map UserRow.toRankRow).length = userList.rows.length := by
    rw [List.length_map, hperm.length_eq]
  have hexists : (∃ row ∈ rows.map UserRow.toRankRow, row.id = userId) ↔
      ∃ row ∈ userList.rows, row.id = userId.toInt := by
    rw [exists_toRankRow_iff hrange]
    exact exists_congr fun row => and_congr_left fun _ => hperm.mem_iff
  have hcopy : executeQuery mysql getRankListQuery errorMsg datas userList =
      ⟨"", ⟨(rows.map UserRow.toRankRow).map RankRow.cells⟩,
        (mysql (cStr getRankListQuery) userList).2⟩ := by
    rw [executeQuery_result hresult, if_neg hlost, hrows, map_cells_toRankRow hrange]
  rw [← hexists, ← hlen]
  rcases Nat.lt_or_ge (rows.map UserRow.toRankRow).length (2 ^ 31) with hfew | hmany
  · by_cases hfound : ∃ row ∈ rows.map UserRow.toRankRow, row.id = userId
    · obtain ⟨o, ho, hmsg⟩ := getRankList_of_present hcopy hids hfew hfound
      refine iff_of_true ⟨o, ho, fun hne => absurd hmsg hne, ?_⟩ ⟨hfound, hfew⟩
      exact iff_of_true hmsg ⟨id, hexists.mp hfound⟩
    · refine iff_of_false ?_ fun h => hfound h.1
      have hall := rowIndex_absent (fun row hrow he => hfound ⟨row, hrow, he⟩) hfew
      rintro ⟨o, ho, hempty, -⟩
      rw [getRankList_of_absent hcopy hall] at ho
      obtain rfl := Option.some.inj ho
      have hnil : (rows.map UserRow.toRankRow).map RankRow.cells = [] :=
        congrArg TableDatas.mDatas (hempty something_ne)
      rw [map_cells_toRankRow hrange, ← hrows, List.map_eq_nil_iff] at hnil
      exact hlost (by rw [hnil]; rfl)
  · refine iff_of_false ?_ fun h => absurd h.2 (Nat.not_lt.mpr hmany)
    rintro ⟨o, ho, -⟩
    rw [getRankList_of_many hcopy hmany] at ho
    cases ho

end RankList

/-- **When a rank list is reported.** -/
theorem rank_reported_iff {userList : UserList collation} (hlaw : mysql.SelectsRanked)
    (hint : userList.IntIds) (userId : Int32) (errorMsg : String) (datas : TableDatas) :
    RankReported (mysql (cStr getRankListQuery) userList).1 userList userId
        (getRankList mysql userId errorMsg datas userList) ↔
      (mysql (cStr getRankListQuery) userList).1.Failed ∨ userList.rows = [] ∨
        (∃ row ∈ userList.rows, row.id = userId.toInt) ∧ userList.rows.length < 2 ^ 31 := by
  by_cases hfailed : (mysql (cStr getRankListQuery) userList).1.Failed
  · rw [rankReported_of_noRows (executeQuery_of_failed errorMsg datas hfailed)]
    exact iff_of_true (Or.inl hfailed) (Or.inl hfailed)
  obtain ⟨e, h⟩ | ⟨e, h⟩ | ⟨r, rows, h, hrows, hperm⟩ := hlaw userList
  · rw [h] at hfailed
    exact absurd trivial hfailed
  · rw [h] at hfailed
    exact absurd trivial hfailed
  have hresult := congrArg Prod.fst h
  have hlen : r.rows.length = userList.rows.length := by
    rw [hrows, List.length_map, hperm.length_eq]
  rw [or_iff_right hfailed]
  by_cases hlost : r.rows.length % 2 ^ 32 = 0
  · rw [rankReported_of_noRows (by rw [executeQuery_result hresult, if_pos hlost]),
      or_iff_right hfailed]
    constructor
    · intro habsent
      have := hint.length_lt habsent
      exact Or.inl (List.eq_nil_of_length_eq_zero (by omega))
    · rintro (hnil | ⟨⟨row, hrow, hid⟩, hfew⟩)
      · rw [hnil]
        exact fun row hrow => absurd hrow List.not_mem_nil
      · have hpos := List.length_pos_of_mem hrow
        omega
  · rw [hresult, rankReported_of_rows hint hresult hrows hperm hlost]
    refine (or_iff_right fun hnil => hlost ?_).symm
    rw [hlen, hnil]
    rfl

theorem rankOnly_selectsRanked : (MySQL.rankOnly : MySQL collation).SelectsRanked := fun userList =>
  Or.inr (Or.inr ⟨ranked userList, _, rankOnly_apply userList, rfl, List.perm_insertionSort _ _⟩)

theorem sixUsers_intIds : sixUsers.IntIds := by
  have hids : ∀ row ∈ sixUsers.rows, -2 ^ 31 ≤ row.id ∧ row.id < 2 ^ 31 := by decide
  exact hids

/-- The last of six users. -/
theorem rank_reported_last :
    (MySQL.rankOnly : MySQL binary).SelectsRanked ∧ sixUsers.IntIds ∧
      RankReported (MySQL.rankOnly (cStr getRankListQuery) sixUsers).1 sixUsers 34
        (getRankList MySQL.rankOnly 34 "left over" ⟨[["1"]]⟩ sixUsers) := by
  have hfound : ∃ row ∈ sixUsers.rows, row.id = (34 : Int32).toInt := by decide
  have hfew : sixUsers.rows.length < 2 ^ 31 := by decide
  exact ⟨rankOnly_selectsRanked, sixUsers_intIds,
    (rank_reported_iff rankOnly_selectsRanked sixUsers_intIds 34 "left over" ⟨[["1"]]⟩).mpr
      (Or.inr (Or.inr ⟨hfound, hfew⟩))⟩

/-- No user has the id `99`, and all six are left in the rows. -/
theorem rank_of_unknown_user :
    (MySQL.rankOnly : MySQL binary).SelectsRanked ∧ sixUsers.IntIds ∧
      (∀ row ∈ sixUsers.rows, row.id ≠ 99) ∧
      getRankList MySQL.rankOnly 99 "" ⟨[]⟩ sixUsers =
        some ⟨"something went wrong", ⟨sixRows.map RankRow.cells⟩, sixUsers⟩ ∧
      ¬ RankReported (MySQL.rankOnly (cStr getRankListQuery) sixUsers).1 sixUsers 99
        (getRankList MySQL.rankOnly 99 "" ⟨[]⟩ sixUsers) := by
  have hrows : (ranked sixUsers).rows = sixRows.map RankRow.cells := ranked_tableOf (by decide)
  have hno : ∀ row ∈ sixUsers.rows, row.id ≠ 99 := by decide
  have habsent : ∀ row ∈ sixRows, row.id ≠ 99 := by decide
  have hcopy : executeQuery MySQL.rankOnly getRankListQuery "" ⟨[]⟩ sixUsers =
      ⟨"", ⟨sixRows.map RankRow.cells⟩, sixUsers⟩ := by
    rw [executeQuery_of_result (by rw [hrows, List.length_map]; decide) (rankOnly_result sixUsers),
      hrows, map_cStr_cells (by decide), rankOnly_apply]
  have hlist := getRankList_of_absent hcopy (rowIndex_absent habsent (by decide))
  refine ⟨rankOnly_selectsRanked, sixUsers_intIds, hno, hlist, ?_⟩
  rintro ⟨o, ho, hempty, -⟩
  rw [hlist] at ho
  obtain rfl := Option.some.inj ho
  have hnil : sixRows.map RankRow.cells = [] := congrArg TableDatas.mDatas (hempty something_ne)
  exact List.cons_ne_nil _ _ hnil

end OnlineCaro
