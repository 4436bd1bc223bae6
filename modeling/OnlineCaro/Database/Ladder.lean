import OnlineCaro.Database.Reports
import OnlineCaro.Lib.Ranking

/-!
# The ladder over whole runs

Accounts are created and scores are updated; then someone asks who stands around a user.

* `MySQL.KeepsLadder`: what the calls rely on, with the rank query and the ids of new rows.
* `UserRow.Numbered`: all ids come from `AUTO_INCREMENT`, so there are fewer than `2 ^ 31` rows.
* `IsRanking`, `KeepsTrack.isRanking`: the rank query gives the accounts in the order of their last
  scores.
* `Around`, **`ladder_correct`**: the rank list of a created account is right after every history,
  and a user that was not created is reported.
* `MySQL.ladder`: a server that keeps a ladder.
-/

namespace OnlineCaro

open SqlText StepRun Ranking

/-! ## What the calls rely on -/

/-- An id of a column `int AUTO_INCREMENT`. -/
def UserRow.Numbered (row : UserRow) : Prop := 0 < row.id ∧ row.id < 2 ^ 31

/-- The statements of the store; new rows are numbered; and the rank query fails, or gives the rows
in descending order of score. -/
structure MySQL.KeepsLadder (mysql : MySQL binary) : Prop extends mysql.KeepsUserList where
  autoIncrement : ∀ (text u p : String) (userList : UserList binary),
    lex text.toList = some (createTokens u p) →
    ∀ row ∈ (mysql text userList).2.rows, row ∈ userList.rows ∨ row.Numbered
  rank : ∀ userList : UserList binary,
    (∃ e, mysql (cStr getRankListQuery) userList = (.queryFailed e, userList)) ∨
    (∃ e, mysql (cStr getRankListQuery) userList = (.storeFailed e, userList)) ∨
    ∃ (r : ResultSet) (rows : List UserRow),
      mysql (cStr getRankListQuery) userList = (.result r, userList) ∧
      r.rows = rows.map UserRow.logInCells ∧ rows.Perm userList.rows ∧
      rows.Pairwise fun row row' => row'.score ≤ row.score

/-! ## The ids -/

/-- The table is what the history says, its rows are numbered, and no username holds a NUL. -/
structure KeepsTrack (c : CallConfig) : Prop extends Tracks c where
  numbered : ∀ row ∈ c.state.rows, row.Numbered
  nulFree : ∀ row ∈ c.state.rows, nul ∉ row.username.toList

section Steps

variable {mysql : MySQL binary} {c : CallConfig}

theorem keepsTrack_empty : KeepsTrack (start emptyUserList) :=
  ⟨tracks_empty, fun _ hrow => absurd hrow List.not_mem_nil,
    fun _ hrow => absurd hrow List.not_mem_nil⟩

theorem callStep_userList (userList : UserList binary) (x : Call) :
    (callStep mysql userList x).1 = (mysql (cStr x.query) userList).2 := by
  cases x with
  | createAccount u p errorMsg =>
    unfold callStep createAccount returnCode
    dsimp only
    split_ifs <;> exact executeQuery_userList mysql _ errorMsg _ _
  | updateUserScore id score errorMsg =>
    unfold callStep updateUserScore returnCode
    dsimp only
    split_ifs <;> exact executeQuery_userList mysql _ errorMsg _ _

theorem UserRow.Numbered.setScore {row : UserRow} (h : row.Numbered) (id score : ℤ) :
    (row.setScore id score).Numbered := by
  unfold Numbered
  rwa [setScore_id]

theorem KeepsTrack.step (hlaw : mysql.KeepsLadder) (ht : KeepsTrack c) {x : Call}
    (hx : Permitted mysql c x) : KeepsTrack (advance (callStep mysql) c x) := by
  have htracks := ht.toTracks.step hlaw.toKeepsUserList hx
  obtain ⟨hcred, hok⟩ := hx
  cases x with
  | createAccount u p errorMsg =>
    obtain ⟨hu, hp⟩ := hcred u p errorMsg rfl
    obtain ⟨hnul, hlex⟩ :=
      createQuery_sent hlaw.toKeepsUserList hu.toUnescaped hp.toUnescaped hok
    refine ⟨htracks, fun row hrow => ?_, fun row hrow => ?_⟩
    · rw [advance_state, callStep_userList] at hrow
      exact (hlaw.autoIncrement _ u p c.state hlex row hrow).elim (ht.numbered row) id
    · rw [advance_state] at hrow
      obtain ⟨-, hcall⟩ | ⟨-, id, userList', hcall, -, hrows⟩ :=
        call_createAccount hlaw.toKeepsUserList hu hp errorMsg hok
      · rw [hcall] at hrow
        exact ht.nulFree row hrow
      · rw [hcall] at hrow
        obtain rfl | hold := (hrows row).mp hrow
        · exact hnul
        · exact ht.nulFree row hold
  | updateUserScore id score errorMsg =>
    obtain ⟨userList', hcall, hrows⟩ :=
      call_updateUserScore hlaw.toKeepsUserList id score errorMsg hok
    refine ⟨htracks, fun row hrow => ?_, fun row hrow => ?_⟩
    all_goals
      rw [advance_state, hcall] at hrow
      obtain ⟨old, hold, rfl⟩ := (hrows row).mp hrow
    · exact (ht.numbered old hold).setScore _ _
    · rw [UserRow.setScore_username]
      exact ht.nulFree old hold

/-- **Along a history.** -/
theorem keepsTrack_run (hlaw : mysql.KeepsLadder) {calls : List Call}
    (hok : Always (callStep mysql) (Permitted mysql) (start emptyUserList) calls) :
    KeepsTrack (run (callStep mysql) (start emptyUserList) calls) :=
  run_induction (fun _ _ ht hx => ht.step hlaw hx) keepsTrack_empty hok

end Steps

/-- Different ids, all of them positive `int`s. -/
theorem length_lt_of_numbered {rows : List UserRow} (hids : (rows.map UserRow.id).Nodup)
    (hnum : ∀ row ∈ rows, row.Numbered) : rows.length < 2 ^ 31 := by
  have hrange : (rows.map UserRow.id).toFinset ⊆ Finset.Icc 1 (2 ^ 31 - 1) := by
    intro id hid
    obtain ⟨row, hrow, rfl⟩ := List.mem_map.mp (List.mem_toFinset.mp hid)
    have := hnum row hrow
    rw [Finset.mem_Icc]
    exact ⟨this.1, by have := this.2; omega⟩
  have hcard := Finset.card_le_card hrange
  rw [List.toFinset_card_of_nodup hids, List.length_map, Int.card_Icc] at hcard
  omega

/-! ## The rank list -/

theorem UserRow.Numbered.int {row : UserRow} (h : row.Numbered) :
    -2 ^ 31 ≤ row.id ∧ row.id < 2 ^ 31 := ⟨by have := h.1; omega, h.2⟩

section RankList

variable {mysql : MySQL binary} {userList : UserList binary} {rows : List UserRow} {r : ResultSet}
  {userId : Int32}

theorem executeQuery_of_numbered (hids : (rows.map UserRow.id).Nodup)
    (hnum : ∀ row ∈ rows, row.Numbered)
    (hresult : (mysql (cStr getRankListQuery) userList).1 = .result r)
    (hrows : r.rows = rows.map UserRow.logInCells) (errorMsg : String) (datas : TableDatas) :
    executeQuery mysql getRankListQuery errorMsg datas userList =
      ⟨"", ⟨(rows.map UserRow.toRankRow).map RankRow.cells⟩,
        (mysql (cStr getRankListQuery) userList).2⟩ := by
  have hlen := length_lt_of_numbered hids hnum
  rw [executeQuery_of_result (by rw [hrows, List.length_map]; omega) hresult, hrows,
    map_cells_toRankRow fun row h => (hnum row h).int]

/-- The neighbours of the row at place `k`. -/
theorem getRankList_around (hids : (rows.map UserRow.id).Nodup) (hnum : ∀ row ∈ rows, row.Numbered)
    (hnul : ∀ row ∈ rows, nul ∉ row.username.toList)
    (hresult : (mysql (cStr getRankListQuery) userList).1 = .result r)
    (hrows : r.rows = rows.map UserRow.logInCells) {k : ℕ} {me : UserRow} (hme : rows[k]? = some me)
    (hid : userId.toInt = me.id) (errorMsg : String) (datas : TableDatas) :
    ∃ o, getRankList mysql userId errorMsg datas userList = some o ∧ o.errorMsg = "" ∧
      o.datas.mDatas = (above 4 k rows ++ below 4 k rows).map UserRow.logInCells := by
  have hint : ∀ row ∈ rows, -2 ^ 31 ≤ row.id ∧ row.id < 2 ^ 31 := fun row h => (hnum row h).int
  obtain ⟨hk, hme'⟩ := List.getElem?_eq_some_iff.mp hme
  have hsplit : rows.map UserRow.toRankRow = (rows.take k).map UserRow.toRankRow ++
      me.toRankRow :: (rows.drop (k + 1)).map UserRow.toRankRow := by
    rw [← List.map_cons, ← List.map_append, ← hme', List.getElem_cons_drop, List.take_append_drop]
  obtain rfl : me.toRankRow.id = userId := by
    rw [← Int32.toInt_inj, hid]
    exact UserRow.toRankRow_id (hint me (List.mem_of_getElem? hme))
  obtain ⟨hbefore, hafter⟩ := ids_ne_of_nodup (hsplit ▸ nodup_ids_toRankRow hint hids)
  have hcopy := executeQuery_of_numbered hids hnum hresult hrows errorMsg datas
  rw [hsplit] at hcopy
  have hlen := length_lt_of_numbered hids hnum
  refine ⟨_, getRankList_of_rows hcopy hbefore hafter (by rwa [← hsplit, List.length_map]), rfl, ?_⟩
  have hnear : above 4 k rows ++ below 4 k rows ⊆ rows :=
    List.append_subset.mpr ⟨(above_sublist 4 k rows).subset, (below_sublist 4 k rows).subset⟩
  have hwhole : (above 4 k rows ++ below 4 k rows).map UserRow.logInCells =
      ((above 4 k rows ++ below 4 k rows).map UserRow.toRankRow).map RankRow.cells := by
    rw [map_cells_toRankRow fun row h => hint row (hnear h), List.map_map]
    exact List.map_congr_left fun row h =>
      ((UserRow.map_cStr_logInCells row).mpr (hnul row (hnear h))).symm
  rw [hwhole, List.length_map, List.length_take_of_le hk.le, ← List.map_drop, ← List.map_take,
    ← List.map_append]
  rfl

theorem getRankList_unknown (hids : (rows.map UserRow.id).Nodup)
    (hnum : ∀ row ∈ rows, row.Numbered)
    (hresult : (mysql (cStr getRankListQuery) userList).1 = .result r)
    (hrows : r.rows = rows.map UserRow.logInCells)
    (habsent : ∀ row ∈ rows, row.id ≠ userId.toInt) (errorMsg : String) (datas : TableDatas) :
    ∃ o, getRankList mysql userId errorMsg datas userList = some o ∧
      o.errorMsg = "something went wrong" := by
  have hother : ∀ row ∈ rows.map UserRow.toRankRow, row.id ≠ userId := fun row hrow he =>
    have ⟨old, hold, hid⟩ :=
      (exists_toRankRow_iff fun row h => (hnum row h).int).mp ⟨row, hrow, he⟩
    habsent old hold hid
  have hcopy := executeQuery_of_numbered hids hnum hresult hrows errorMsg datas
  exact ⟨_, getRankList_of_absent hcopy (rowIndex_absent hother
    (by rw [List.length_map]; exact length_lt_of_numbered hids hnum)), rfl⟩

end RankList

/-! ## Who stands around a user -/

/-- The score that the history gives a row. -/
def UserRow.scoreIn (h : List CallEntry) (row : UserRow) : ℤ := scoreAfter row.id row.username h

/-- The created accounts, each once, in descending order of the scores of the history. -/
structure IsRanking (h : List CallEntry) (ranking : List UserRow) : Prop where
  created : ∀ u p, Created h u p ↔ ∃ row ∈ ranking, row.username = u ∧ row.password = p
  usernames : (ranking.map UserRow.username).Nodup
  ids : (ranking.map UserRow.id).Nodup
  sorted : ranking.Pairwise fun row row' => row'.scoreIn h ≤ row.scoreIn h

/-- The rows that the caller gets are the neighbours of the user, with their scores; and for each
user left out four of them are at least as near, on its side. -/
structure Around (h : List CallEntry) (ranking : List UserRow) (k : ℕ) (me : UserRow)
    (o : Outputs binary) : Prop where
  errorMsg : o.errorMsg = ""
  rows : o.datas.mDatas = (above 4 k ranking ++ below 4 k ranking).map fun row =>
    [toString row.id, row.username, toString (row.scoreIn h)]
  leftOut : ∀ row ∈ ranking, row ≠ me → row ∉ above 4 k ranking → row ∉ below 4 k ranking →
    ((above 4 k ranking).length = 4 ∧
      ∀ near ∈ above 4 k ranking, me.scoreIn h ≤ near.scoreIn h ∧
        near.scoreIn h ≤ row.scoreIn h) ∨
    ((below 4 k ranking).length = 4 ∧
      ∀ near ∈ below 4 k ranking, row.scoreIn h ≤ near.scoreIn h ∧
        near.scoreIn h ≤ me.scoreIn h)

theorem KeepsTrack.isRanking {c : CallConfig} (ht : KeepsTrack c) {rows : List UserRow}
    (hperm : rows.Perm c.state.rows)
    (hsorted : rows.Pairwise fun row row' => row'.score ≤ row.score) :
    IsRanking c.history rows where
  created u p := by
    rw [ht.created]
    exact exists_congr fun row => and_congr_left fun _ => hperm.mem_iff.symm
  usernames := (hperm.map UserRow.username).nodup_iff.mpr
    (List.pairwise_map.mpr c.state.uniqueUsername)
  ids := (hperm.map UserRow.id).nodup_iff.mpr c.state.primaryKey
  sorted := hsorted.imp_of_mem fun {row row'} hrow hrow' hle => by
    rwa [UserRow.scoreIn, UserRow.scoreIn, ← ht.score row (hperm.mem_iff.mp hrow),
      ← ht.score row' (hperm.mem_iff.mp hrow')]

theorem IsRanking.around {h : List CallEntry} {ranking : List UserRow} (hr : IsRanking h ranking)
    {k : ℕ} {me : UserRow} (hme : ranking[k]? = some me) {o : Outputs binary}
    (hmsg : o.errorMsg = "") (hrows : o.datas.mDatas = (above 4 k ranking ++ below 4 k ranking).map
      fun row => [toString row.id, row.username, toString (row.scoreIn h)]) :
    Around h ranking k me o := by
  refine ⟨hmsg, hrows, fun row hrow hne habove hbelow => ?_⟩
  obtain ⟨j, hj⟩ := List.mem_iff_getElem?.mp hrow
  have hjk : j ≠ k := by
    rintro rfl
    exact hne (Option.some.inj (hj.symm.trans hme))
  obtain ⟨hlen, hbetween⟩ | ⟨hlen, hbetween⟩ := left_out hr.sorted hme hj hjk habove hbelow
  · exact Or.inl ⟨hlen, fun near hnear => (hbetween near hnear).symm⟩
  · exact Or.inr ⟨hlen, fun near hnear => (hbetween near hnear).symm⟩

theorem KeepsTrack.exists_ranking {mysql : MySQL binary} {c : CallConfig} (hlaw : mysql.KeepsLadder)
    (ht : KeepsTrack c) (hquery : ¬ (mysql (cStr getRankListQuery) c.state).1.Failed) :
    ∃ (r : ResultSet) (ranking : List UserRow), IsRanking c.history ranking ∧
      ranking.Perm c.state.rows ∧ (mysql (cStr getRankListQuery) c.state).1 = .result r ∧
      r.rows = ranking.map UserRow.logInCells := by
  obtain ⟨e, h⟩ | ⟨e, h⟩ | ⟨r, rows, h, hrows, hperm, hsorted⟩ := hlaw.rank c.state
  · exact absurd (by rw [h]; trivial) hquery
  · exact absurd (by rw [h]; trivial) hquery
  · exact ⟨r, rows, ht.isRanking hperm hsorted, hperm, congrArg Prod.fst h, hrows⟩

section Listed

variable {mysql : MySQL binary} {c : CallConfig} {r : ResultSet} {ranking : List UserRow}
  {userId : Int32}

theorem KeepsTrack.around (ht : KeepsTrack c) (hr : IsRanking c.history ranking)
    (hperm : ranking.Perm c.state.rows)
    (hresult : (mysql (cStr getRankListQuery) c.state).1 = .result r)
    (hrows : r.rows = ranking.map UserRow.logInCells) {k : ℕ} {me : UserRow}
    (hme : ranking[k]? = some me) (hid : userId.toInt = me.id) (errorMsg : String)
    (datas : TableDatas) :
    ∃ o, getRankList mysql userId errorMsg datas c.state = some o ∧
      Around c.history ranking k me o := by
  have hnum : ∀ row ∈ ranking, row.Numbered := fun row hrow =>
    ht.numbered row (hperm.mem_iff.mp hrow)
  have hnul : ∀ row ∈ ranking, nul ∉ row.username.toList := fun row hrow =>
    ht.nulFree row (hperm.mem_iff.mp hrow)
  obtain ⟨o, ho, hmsg, hlist⟩ :=
    getRankList_around hr.ids hnum hnul hresult hrows hme hid errorMsg datas
  refine ⟨o, ho, hr.around hme hmsg (hlist.trans (List.map_congr_left ?_))⟩
  intro row hrow
  have hmem : row ∈ c.state.rows := by
    refine hperm.mem_iff.mp ?_
    rcases List.mem_append.mp hrow with h | h
    · exact (above_sublist 4 k ranking).subset h
    · exact (below_sublist 4 k ranking).subset h
  rw [UserRow.scoreIn, ← ht.score row hmem]
  rfl

end Listed

/-- **The ladder.** On an empty table, for every sequence of permitted calls, if the rank query does
not fail: the created accounts have a ranking by their last scores such that the rank list of each
is that of its neighbours; and for an id that no account has an error is reported. -/
theorem ladder_correct {mysql : MySQL binary} (hlaw : mysql.KeepsLadder) (calls : List Call)
    (hok : Always (callStep mysql) (Permitted mysql) (start emptyUserList) calls)
    (hquery : ¬ (mysql (cStr getRankListQuery)
      (run (callStep mysql) (start emptyUserList) calls).state).1.Failed)
    (errorMsg : String) (datas : TableDatas) :
    ∃ ranking, IsRanking (run (callStep mysql) (start emptyUserList) calls).history ranking ∧
      (∀ (k : ℕ) (me : UserRow), ranking[k]? = some me →
        ∃ userId : Int32, userId.toInt = me.id ∧
          ∃ o, getRankList mysql userId errorMsg datas
              (run (callStep mysql) (start emptyUserList) calls).state = some o ∧
            Around (run (callStep mysql) (start emptyUserList) calls).history ranking k me o) ∧
      ∀ userId : Int32, (∀ row ∈ ranking, row.id ≠ userId.toInt) →
        ∃ o, getRankList mysql userId errorMsg datas
            (run (callStep mysql) (start emptyUserList) calls).state = some o ∧
          o.errorMsg = "something went wrong" := by
  have ht := keepsTrack_run hlaw hok
  generalize run (callStep mysql) (start emptyUserList) calls = c at ht hquery ⊢
  obtain ⟨r, ranking, hr, hperm, hresult, hrows⟩ := ht.exists_ranking hlaw hquery
  have hnum : ∀ row ∈ ranking, row.Numbered := fun row hrow =>
    ht.numbered row (hperm.mem_iff.mp hrow)
  refine ⟨ranking, hr, fun k me hme => ?_, fun userId habsent => ?_⟩
  · have hme' := (hnum me (List.mem_of_getElem? hme)).int
    have hid : (Int32.ofInt me.id).toInt = me.id := Int32.toInt_ofInt_of_le hme'.1 hme'.2
    exact ⟨_, hid, ht.around hr hperm hresult hrows hme hid errorMsg datas⟩
  · exact getRankList_unknown hr.ids hnum hresult hrows habsent errorMsg datas

/-! ## A server that keeps a ladder -/

/-- No id is left for a new row. -/
def noAutoIncrement : SqlError where
  errno := 1467
  text := "Failed to read auto-increment value from storage engine"
  errno_ne := by decide
  text_ne := by decide

instance UserRow.decidableNumbered : DecidablePred UserRow.Numbered :=
  fun _ => inferInstanceAs (Decidable (_ ∧ _))

/-- The server of the store, with the rank query, and with ids that are `int`s. -/
def MySQL.ladder : MySQL binary := fun text userList =>
  if text = getRankListQuery then (.result (ranked userList), userList)
  else if ∀ row ∈ (MySQL.store text userList).2.rows, row ∈ userList.rows ∨ row.Numbered then
    MySQL.store text userList
  else (.queryFailed noAutoIncrement, userList)

/-- The tokens of the rank query. -/
def rankTokens : List Token :=
  [.word "SELECT".toList, .quoted "id".toList, .symbol ',', .quoted "username".toList, .symbol ',',
    .quoted "score".toList, .word "FROM".toList, .quoted userListTable.toList,
    .word "ORDER".toList, .word "BY".toList, .quoted "score".toList, .word "DESC".toList]

theorem lex_getRankListQuery : lex getRankListQuery.toList = some rankTokens := by decide +kernel

section Server

variable {text : String} {userList : UserList binary}

theorem ladder_apply (h : lex text.toList ≠ some rankTokens) :
    MySQL.ladder text userList = MySQL.store text userList ∨
      MySQL.ladder text userList = (.queryFailed noAutoIncrement, userList) := by
  have hne : text ≠ getRankListQuery := by
    rintro rfl
    exact h lex_getRankListQuery
  rw [MySQL.ladder, if_neg hne]
  split_ifs
  · exact Or.inl rfl
  · exact Or.inr rfl

theorem createTokens_ne_rankTokens (u p : String) : some (createTokens u p) ≠ some rankTokens := by
  intro h
  have hfirst : some (Token.word "INSERT".toList) ≠ some (.word "SELECT".toList) := by decide
  exact hfirst (congrArg List.head? (Option.some.inj h))

theorem updateTokens_ne_rankTokens (id score : ℤ) :
    some (updateTokens id score) ≠ some rankTokens := by
  intro h
  have hfirst : some (Token.word "UPDATE".toList) ≠ some (.word "SELECT".toList) := by decide
  exact hfirst (congrArg List.head? (Option.some.inj h))

theorem logInTokens_ne_rankTokens (u p : String) : some (logInTokens u p) ≠ some rankTokens := by
  intro h
  have hlen : 16 ≠ 12 := by decide
  exact hlen (congrArg List.length (Option.some.inj h))

theorem otherFailure_noAutoIncrement {userList' : UserList binary}
    (h : MySQL.ladder text userList = (.queryFailed noAutoIncrement, userList')) :
    (MySQL.ladder text userList).1.OtherFailure := by
  rw [h]
  exact (by decide : noAutoIncrement.errno ≠ dupEntry)

theorem ladder_keepsUserList : MySQL.ladder.KeepsUserList where
  insert text u p userList hu hp h := by
    have hother : lex text.toList ≠ some rankTokens := by
      rw [h]
      exact createTokens_ne_rankTokens u p
    rcases ladder_apply hother with hs | hs
    · rw [hs]
      exact store_keepsUserList.insert text u p userList hu hp h
    · exact Or.inl (otherFailure_noAutoIncrement hs)
  update text id score userList h := by
    have hother : lex text.toList ≠ some rankTokens := by
      rw [h]
      exact updateTokens_ne_rankTokens _ _
    rcases ladder_apply hother with hs | hs
    · rw [hs]
      exact store_keepsUserList.update text id score userList h
    · exact Or.inl (otherFailure_noAutoIncrement hs)
  select text u p userList h := by
    have hother : lex text.toList ≠ some rankTokens := by
      rw [h]
      exact logInTokens_ne_rankTokens u p
    rcases ladder_apply hother with hs | hs
    · rw [hs]
      exact store_keepsUserList.select text u p userList h
    · exact Or.inl ⟨_, hs⟩
  openLiteral text userList q value h := by
    have hopen : lex text.toList ≠ some rankTokens := by
      rw [lex_eq_none_of_text h]
      exact (Option.some_ne_none _).symm
    rcases ladder_apply hopen with hs | hs
    · rw [hs]
      exact store_keepsUserList.openLiteral text userList q value h
    · exact otherFailure_noAutoIncrement hs

theorem ladder_getRankListQuery (userList : UserList binary) :
    MySQL.ladder (cStr getRankListQuery) userList = (.result (ranked userList), userList) := by
  have hsent : cStr getRankListQuery = getRankListQuery := by decide +kernel
  rw [MySQL.ladder, if_pos hsent]

theorem ladder_keepsLadder : MySQL.ladder.KeepsLadder where
  toKeepsUserList := ladder_keepsUserList
  autoIncrement text u p userList h row hrow := by
    unfold MySQL.ladder at hrow
    split_ifs at hrow with htext hnum
    · exact Or.inl hrow
    · exact hnum row hrow
    · exact Or.inl hrow
  rank userList := Or.inr (Or.inr ⟨_, _, ladder_getRankListQuery userList, rfl,
    List.perm_insertionSort _ _, List.pairwise_insertionSort _ _⟩)

theorem UserList.freshId_pos (rows : List UserRow) : 0 < freshId rows := by
  have hnonneg : 0 ≤ (rows.map UserRow.id).foldr max 0 := by
    induction rows with
    | nil => exact le_rfl
    | cons row rows ih => exact ih.trans (le_max_right _ _)
  unfold freshId
  omega

/-- A new account, while there are ids left. -/
theorem ladder_create {u p : String} (hu : Unescaped u) (hp : Unescaped p)
    (hsent : cStr (createQuery u p) = createQuery u p)
    (hnew : ∀ row ∈ userList.rows, row.username ≠ u)
    (hleft : UserList.freshId userList.rows < 2 ^ 31) :
    MySQL.ladder (cStr (createQuery u p)) userList = (.noResult, userList.add u p hnew) := by
  have hlex := lex_createQuery hu hp
  have hstore : MySQL.store (createQuery u p) userList = (.noResult, userList.add u p hnew) := by
    rw [store_create hlex, dif_pos hnew]
  have hne : createQuery u p ≠ getRankListQuery := by
    intro h
    rw [h, lex_getRankListQuery] at hlex
    exact createTokens_ne_rankTokens u p hlex.symm
  rw [hsent, MySQL.ladder, if_neg hne, hstore, if_pos]
  intro row hrow
  rcases List.mem_append.mp hrow with h | h
  · exact Or.inl h
  · rw [List.mem_singleton.mp h]
    exact Or.inr ⟨UserList.freshId_pos _, hleft⟩

theorem ladder_permitted {c : CallConfig} {u p : String} (hu : Credential u) (hp : Credential p)
    (hsent : cStr (createQuery u p) = createQuery u p)
    (hnew : ∀ row ∈ c.state.rows, row.username ≠ u)
    (hleft : UserList.freshId c.state.rows < 2 ^ 31) (errorMsg : String) :
    Permitted MySQL.ladder c (.createAccount u p errorMsg) := by
  refine ⟨fun u' p' errorMsg' h => ?_, ?_⟩
  · injection h with hu' hp'
    exact ⟨hu' ▸ hu, hp' ▸ hp⟩
  · rw [Call.query, ladder_create hu.toUnescaped hp.toUnescaped hsent hnew hleft]
    exact id

end Server

/-- Two accounts, the second without a point. -/
def twoCalls : List Call := [.createAccount "alice" "123456" "", .createAccount "bob" "x" ""]

theorem twoCalls_permitted : Always (callStep MySQL.ladder) (Permitted MySQL.ladder)
    (start emptyUserList) twoCalls := by
  have hname : Credential "alice" := ⟨⟨by decide, by decide⟩, by decide⟩
  have hpass : Credential "123456" := ⟨⟨by decide, by decide⟩, by decide⟩
  have hname' : Credential "bob" := ⟨⟨by decide, by decide⟩, by decide⟩
  have hpass' : Credential "x" := ⟨⟨by decide, by decide⟩, by decide⟩
  have hsent : cStr (createQuery "alice" "123456") = createQuery "alice" "123456" :=
    cStr_of_not_mem (by rw [createTemplate_fill]; decide +kernel)
  have hsent' : cStr (createQuery "bob" "x") = createQuery "bob" "x" :=
    cStr_of_not_mem (by rw [createTemplate_fill]; decide +kernel)
  have hnone : ∀ row ∈ emptyUserList.rows, row.username ≠ "alice" :=
    fun _ h => absurd h List.not_mem_nil
  have hfirst : (callStep MySQL.ladder emptyUserList
      (.createAccount "alice" "123456" "")).1.rows = [⟨1, "alice", "123456", 0⟩] := by
    rw [callStep_userList, Call.query,
      ladder_create hname.toUnescaped hpass.toUnescaped hsent hnone (by decide)]
    rfl
  refine ⟨ladder_permitted hname hpass hsent hnone (by decide) "",
    ladder_permitted hname' hpass' hsent' ?_ ?_ "", trivial⟩
  · rw [advance_state, start, hfirst]
    exact List.forall_mem_singleton.mpr (by decide)
  · rw [advance_state, start, hfirst]
    decide

theorem ladder_correct_two :
    MySQL.ladder.KeepsLadder ∧
      Always (callStep MySQL.ladder) (Permitted MySQL.ladder) (start emptyUserList) twoCalls ∧
      ∃ ranking,
        IsRanking (run (callStep MySQL.ladder) (start emptyUserList) twoCalls).history ranking ∧
        (∀ (k : ℕ) (me : UserRow), ranking[k]? = some me →
          ∃ userId : Int32, userId.toInt = me.id ∧
            ∃ o, getRankList MySQL.ladder userId "" ⟨[]⟩
                (run (callStep MySQL.ladder) (start emptyUserList) twoCalls).state = some o ∧
              Around (run (callStep MySQL.ladder) (start emptyUserList) twoCalls).history ranking k
                me o) ∧
        ∀ userId : Int32, (∀ row ∈ ranking, row.id ≠ userId.toInt) →
          ∃ o, getRankList MySQL.ladder userId "" ⟨[]⟩
              (run (callStep MySQL.ladder) (start emptyUserList) twoCalls).state = some o ∧
            o.errorMsg = "something went wrong" := by
  refine ⟨ladder_keepsLadder, twoCalls_permitted,
    ladder_correct ladder_keepsLadder twoCalls twoCalls_permitted ?_ "" ⟨[]⟩⟩
  rw [ladder_getRankListQuery]
  exact id

end OnlineCaro
