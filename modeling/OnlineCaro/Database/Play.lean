import OnlineCaro.Database.Ladder

/-!
# A game that is played

A player logs in, is given a new score, and asks for the rank list; the id goes from one call to the
next as the text that the log-in has left.

* `KeepsTrack.logIn`: what the log-in leaves for a created account.
* `Listed`: the player stands in the ladder with the new score.
* **`play_correct`**: so it is after every history.
-/

namespace OnlineCaro

open SqlText StepRun Ranking Decimal

section Play

variable {mysql : MySQL binary} {c : CallConfig} {u p : String}

/-- The log-in of a created account. -/
theorem KeepsTrack.logIn (hlaw : mysql.KeepsLadder) (ht : KeepsTrack c) (hu : Unescaped u)
    (hp : Unescaped p) (hcreated : Created c.history u p)
    (hlogin : ¬ (mysql (cStr (logInQuery u p)) c.state).1.Failed) (errorMsg : String)
    (datas : TableDatas) :
    ∃ row ∈ c.state.rows, row.username = u ∧
      OnlineCaro.logIn mysql u p errorMsg datas c.state =
        (0, ⟨"", ⟨[row.logInCells]⟩, c.state⟩) := by
  rw [logIn_rows hlaw.toKeepsUserList hu hp hlogin]
  obtain ⟨-, hno⟩ | ⟨row, hrow, hm, hone⟩ := filter_matches c.state u p
  · obtain ⟨row, hrow, hm⟩ := (ht.created u p).mp hcreated
    exact absurd hm (hno row hrow)
  · refine ⟨row, hrow, hm.1, ?_⟩
    rw [hone]
    rfl

/-- The player `u` stands in the ladder with its score, and the rank list is that of its
neighbours. -/
def Listed (mysql : MySQL binary) (c : CallConfig) (u : String) (userId score : Int32)
    (errorMsg : String) (datas : TableDatas) : Prop :=
  ∃ ranking k me o, IsRanking c.history ranking ∧ ranking[k]? = some me ∧ me.username = u ∧
    me.id = userId.toInt ∧ me.scoreIn c.history = score.toInt ∧
    getRankList mysql userId errorMsg datas c.state = some o ∧ Around c.history ranking k me o

theorem KeepsTrack.listed (hlaw : mysql.KeepsLadder) (ht : KeepsTrack c)
    (hquery : ¬ (mysql (cStr getRankListQuery) c.state).1.Failed) {me : UserRow}
    (hme : me ∈ c.state.rows) {userId score : Int32} (hid : me.id = userId.toInt)
    (hscore : me.score = score.toInt) (errorMsg : String) (datas : TableDatas) :
    Listed mysql c me.username userId score errorMsg datas := by
  obtain ⟨r, ranking, hr, hperm, hresult, hrows⟩ := ht.exists_ranking hlaw hquery
  obtain ⟨k, hk⟩ := List.mem_iff_getElem?.mp (hperm.mem_iff.mpr hme)
  obtain ⟨o, ho, haround⟩ := ht.around hr hperm hresult hrows hk hid.symm errorMsg datas
  have hlast : me.scoreIn c.history = score.toInt := by
    rw [UserRow.scoreIn, ← ht.score me hme, hscore]
  exact ⟨ranking, k, me, o, hr, hk, rfl, hid, hlast, ho, haround⟩

theorem mem_updateUserScore (hlaw : mysql.KeepsLadder) {row : UserRow} (hrow : row ∈ c.state.rows)
    (userId score : Int32) (errorMsg : String)
    (hok : ¬ (mysql (cStr (updateQuery userId score)) c.state).1.OtherFailure) :
    (callStep mysql c.state (.updateUserScore userId score errorMsg)).2 = (0, "") ∧
      row.setScore userId.toInt score.toInt ∈
        (advance (callStep mysql) c (.updateUserScore userId score errorMsg)).state.rows := by
  obtain ⟨userList', hcall, hrows⟩ :=
    call_updateUserScore hlaw.toKeepsUserList userId score errorMsg hok
  rw [advance_state, hcall]
  exact ⟨rfl, (hrows _).mpr ⟨row, hrow, rfl⟩⟩

/-- **A game that is played.** On an empty table, after every sequence of permitted calls, as long as
no statement fails: the log-in of a created account leaves its id as a text that can be read back,
and its last score; and when the score of that id is set, the player is listed with the new
score. -/
theorem play_correct (hlaw : mysql.KeepsLadder) (calls : List Call)
    (hok : Always (callStep mysql) (Permitted mysql) (start emptyUserList) calls)
    (hu : Credential u) (hp : Credential p)
    (hcreated : Created (run (callStep mysql) (start emptyUserList) calls).history u p)
    (hlogin : ¬ (mysql (cStr (logInQuery u p))
      (run (callStep mysql) (start emptyUserList) calls).state).1.Failed)
    (errorMsg : String) (datas : TableDatas) :
    ∃ (userId : Int32) (idText : String),
      logIn mysql u p errorMsg datas (run (callStep mysql) (start emptyUserList) calls).state =
        (0, ⟨"", ⟨[[idText, u, toString (scoreAfter userId.toInt u
          (run (callStep mysql) (start emptyUserList) calls).history)]]⟩,
          (run (callStep mysql) (start emptyUserList) calls).state⟩) ∧
      stoi idText = some userId ∧
      ∀ (score : Int32) (errorMsg' : String),
        ¬ (mysql (cStr (updateQuery userId score))
          (run (callStep mysql) (start emptyUserList) calls).state).1.OtherFailure →
        (callStep mysql (run (callStep mysql) (start emptyUserList) calls).state
          (.updateUserScore userId score errorMsg')).2 = (0, "") ∧
        (¬ (mysql (cStr getRankListQuery) (run (callStep mysql) (start emptyUserList)
            (calls ++ [.updateUserScore userId score errorMsg'])).state).1.Failed →
          Listed mysql (run (callStep mysql) (start emptyUserList)
            (calls ++ [.updateUserScore userId score errorMsg']))
            u userId score errorMsg' datas) := by
  have ht := keepsTrack_run hlaw hok
  simp only [run_append, run_cons, run_nil]
  generalize run (callStep mysql) (start emptyUserList) calls = c at ht hcreated hlogin ⊢
  obtain ⟨row, hrow, rfl, hlog⟩ :=
    ht.logIn hlaw hu.toUnescaped hp.toUnescaped hcreated hlogin errorMsg datas
  have hint := (ht.numbered row hrow).int
  have hid : (Int32.ofInt row.id).toInt = row.id := Int32.toInt_ofInt_of_le hint.1 hint.2
  refine ⟨Int32.ofInt row.id, toString row.id, ?_, ?_, fun score errorMsg' hup => ?_⟩
  · rw [hlog, hid, ← ht.score row hrow]
    rfl
  · rw [← hid, stoi_toString, hid]
  · obtain ⟨hcode, hmem⟩ := mem_updateUserScore hlaw hrow _ score errorMsg' hup
    have hpermit : Permitted mysql c (.updateUserScore (Int32.ofInt row.id) score errorMsg') :=
      ⟨fun _ _ _ h => Call.noConfusion h, hup⟩
    refine ⟨hcode, fun hquery => ?_⟩
    have hset : (row.setScore (Int32.ofInt row.id).toInt score.toInt).score = score.toInt := by
      rw [UserRow.setScore, if_pos hid.symm]
    have hlisted := (ht.step hlaw hpermit).listed hlaw hquery hmem
      (by rw [UserRow.setScore_id, hid]) hset errorMsg' datas
    rwa [UserRow.setScore_username] at hlisted

end Play

/-! ## On the server with the ladder -/

section Server

variable {userList : UserList binary}

theorem ladder_logIn {u p : String} (hu : Unescaped u) (hp : Unescaped p)
    (hsent : cStr (logInQuery u p) = logInQuery u p) :
    MySQL.ladder (cStr (logInQuery u p)) userList =
      (.result (selected userList u p), userList) := by
  have hlex := lex_logInQuery hu hp
  have hne : logInQuery u p ≠ getRankListQuery := by
    intro h
    rw [h, lex_getRankListQuery] at hlex
    exact logInTokens_ne_rankTokens u p hlex.symm
  rw [hsent, MySQL.ladder, if_neg hne, store_logIn hlex]
  exact if_pos fun _ h => Or.inl h

theorem ladder_update (hnum : ∀ row ∈ userList.rows, row.Numbered) (id score : Int32) :
    MySQL.ladder (cStr (updateQuery id score)) userList =
      (.noResult, userList.update id.toInt score.toInt) := by
  have hlex := lex_updateQuery id score
  have hne : updateQuery id score ≠ getRankListQuery := by
    intro h
    rw [h, lex_getRankListQuery] at hlex
    exact updateTokens_ne_rankTokens _ _ hlex.symm
  rw [cStr_updateQuery, MySQL.ladder, if_neg hne, store_update hlex, if_pos]
  intro row hrow
  obtain ⟨old, hold, rfl⟩ := List.mem_map.mp hrow
  exact Or.inr ((hnum old hold).setScore _ _)

end Server

theorem play_correct_alice : ∃ (userId : Int32) (idText : String),
    logIn MySQL.ladder "alice" "123456" "" ⟨[]⟩
        (run (callStep MySQL.ladder) (start emptyUserList) twoCalls).state =
      (0, ⟨"", ⟨[[idText, "alice", toString (scoreAfter userId.toInt "alice"
        (run (callStep MySQL.ladder) (start emptyUserList) twoCalls).history)]]⟩,
        (run (callStep MySQL.ladder) (start emptyUserList) twoCalls).state⟩) ∧
    stoi idText = some userId ∧
    (callStep MySQL.ladder (run (callStep MySQL.ladder) (start emptyUserList) twoCalls).state
      (.updateUserScore userId 7 "")).2 = (0, "") ∧
    Listed MySQL.ladder (run (callStep MySQL.ladder) (start emptyUserList)
      (twoCalls ++ [.updateUserScore userId 7 ""])) "alice" userId 7 "" ⟨[]⟩ := by
  have hname : Credential "alice" := ⟨⟨by decide, by decide⟩, by decide⟩
  have hpass : Credential "123456" := ⟨⟨by decide, by decide⟩, by decide⟩
  have hasked : cStr (logInQuery "alice" "123456") = logInQuery "alice" "123456" :=
    cStr_of_not_mem (by rw [logInTemplate_fill]; decide +kernel)
  have hfirst : (callStep MySQL.ladder (start emptyUserList : CallConfig).state
      (.createAccount "alice" "123456" "")).2.1 = 0 := by
    obtain ⟨⟨row, hrow, -⟩, -⟩ | ⟨-, id, userList', hcall, -, -⟩ :=
      call_createAccount ladder_keepsUserList hname hpass "" twoCalls_permitted.1.2
    · exact absurd hrow List.not_mem_nil
    · rw [hcall]
  have hcreated : Created (run (callStep MySQL.ladder) (start emptyUserList) twoCalls).history
      "alice" "123456" := by
    have hadvance := created_advance hfirst
    rw [twoCalls, run_cons, run_cons, run_nil, advance_history]
    exact hadvance.cons _
  have hlogin : ¬ (MySQL.ladder (cStr (logInQuery "alice" "123456"))
      (run (callStep MySQL.ladder) (start emptyUserList) twoCalls).state).1.Failed := by
    rw [ladder_logIn hname.toUnescaped hpass.toUnescaped hasked]
    exact id
  obtain ⟨userId, idText, hlog, hid, hplay⟩ := play_correct ladder_keepsLadder twoCalls
    twoCalls_permitted hname hpass hcreated hlogin "" ⟨[]⟩
  have hnum := (keepsTrack_run ladder_keepsLadder twoCalls_permitted).numbered
  obtain ⟨hcode, hlisted⟩ := hplay 7 "" (by rw [ladder_update hnum]; exact id)
  exact ⟨userId, idText, hlog, hid, hcode, hlisted (by rw [ladder_getRankListQuery]; exact id)⟩

end OnlineCaro
