import OnlineCaro.Database.Query
import Mathlib.Data.List.TakeWhile

/-!
# Log-in through the table

`logIn` decides on success from the message and the rows that `executeQuery` leaves.

* `MySQL.SelectsUser`, `MySQL.RefusesOpenLiteral`: what log-in relies on.
* `cStr_logInQuery`, `logIn_outcomes`: how its statement is sent, and what can be reported of it.
* `LogInCorrect`: what log-in promises of one call.
* **`logIn_correct_iff`**: it keeps the promise exactly when the statement fails, or a row matches,
  with a username without NUL, and the rows can be read.
* `MySQL.logInOnly`: a server on which log-in can rely.
-/

namespace OnlineCaro

open SqlText

variable {collation : Setoid String}

/-! ## What log-in relies on -/

/-- The row has this username and this password, as the collation compares them. -/
def UserRow.Matches (collation : Setoid String) (username password : String) (row : UserRow) :
    Prop :=
  collation.r row.username username ∧ collation.r row.password password

instance [DecidableRel collation.r] (username password : String) (row : UserRow) :
    Decidable (row.Matches collation username password) :=
  inferInstanceAs (Decidable (_ ∧ _))

/-- A string that needs no escape in a literal. -/
structure Unescaped (s : String) : Prop where
  doubleQuote : doubleQuote ∉ s.toList
  backslash : backslash ∉ s.toList

/-- The table is not touched by a statement with the tokens of a log-in, and if it does not fail
its result set is made of the matching rows. -/
def MySQL.SelectsUser (mysql : MySQL collation) [DecidableRel collation.r] : Prop :=
  ∀ (text username password : String) (userList : UserList collation),
    lex text.toList = some (logInTokens username password) →
    (∃ e, mysql text userList = (.queryFailed e, userList)) ∨
    (∃ e, mysql text userList = (.storeFailed e, userList)) ∨
    ∃ r : ResultSet, mysql text userList = (.result r, userList) ∧
      r.rows = (userList.rows.filter (·.Matches collation username password)).map
        UserRow.logInCells

/-- A statement that ends inside a literal fails. -/
def MySQL.RefusesOpenLiteral (mysql : MySQL collation) : Prop :=
  ∀ (text : String) (userList : UserList collation) (q : Char) (value : List Char),
    (scan .start text.toList).2 = .text q value →
    ∃ e, (mysql text userList).1 = .queryFailed e

/-! ## The statement as it is sent -/

theorem takeWhile_append_of_exists {α : Type} {P : α → Bool} {a : List α} (b : List α)
    (h : ∃ c ∈ a, P c = false) : (a ++ b).takeWhile P = a.takeWhile P := by
  rw [List.takeWhile_append, if_neg]
  intro hlen
  obtain ⟨c, hc, hP⟩ := h
  have := List.takeWhile_eq_self_iff.mp ((List.takeWhile_prefix P).eq_of_length hlen) c hc
  simp [hP] at this

/-- Reading on to the first NUL, past a part without NUL that ends with an opening quote. -/
theorem takeWhile_open {a : List Char} (ha : nul ∉ a) (w : List Char) :
    (a ++ doubleQuote :: w).takeWhile (· ≠ nul) =
      a ++ doubleQuote :: w.takeWhile (· ≠ nul) := by
  rw [List.takeWhile_append_of_pos (ne_nul_of_not_mem ha), List.takeWhile_cons_of_pos (by decide)]

/-- A statement with two literals is sent whole, or it is cut at a NUL inside one of them. -/
theorem cStr_fill (t : Template doubleQuote) (hbefore : nul ∉ t.before)
    (hbetween : nul ∉ t.between) (hafter : nul ∉ t.after) {query u p : String}
    (hquery : query.toList = t.fill u.toList p.toList) (hu : Unescaped u) (hp : Unescaped p) :
    cStr query = query ∨
      ∃ value, (scan .start (cStr query).toList).2 = .text doubleQuote value := by
  have hcut : ∀ {a : List Char} {c : Char}, c ∉ a → c ∉ a.takeWhile (· ≠ nul) :=
    fun h hc => h ((List.takeWhile_prefix _).subset hc)
  have hnul : ∀ {a : List Char}, nul ∈ a → ∃ c ∈ a, decide (c ≠ nul) = false :=
    fun h => ⟨nul, h, by decide⟩
  simp only [cStr, String.toList_ofList, hquery, Template.fill]
  rw [takeWhile_open hbefore]
  by_cases hun : nul ∈ u.toList
  · refine .inr ⟨u.toList.takeWhile (· ≠ nul), ?_⟩
    rw [takeWhile_append_of_exists _ (hnul hun)]
    exact t.scan_cut_first (hcut hu.doubleQuote) (hcut hu.backslash)
  rw [takeWhile_open hun, takeWhile_open hbetween]
  by_cases hpn : nul ∈ p.toList
  · refine .inr ⟨p.toList.takeWhile (· ≠ nul), ?_⟩
    rw [takeWhile_append_of_exists _ (hnul hpn)]
    exact t.scan_cut_second hu.doubleQuote hu.backslash (hcut hp.doubleQuote) (hcut hp.backslash)
  · left
    have hend : t.after.takeWhile (· ≠ nul) = t.after :=
      List.takeWhile_eq_self_iff.mpr (ne_nul_of_not_mem hafter)
    rw [takeWhile_open hpn, hend, ← String.toList_inj, String.toList_ofList, hquery]
    rfl

theorem nul_notMem_of_sent (t : Template doubleQuote) {query u p : String}
    (hquery : query.toList = t.fill u.toList p.toList) (h : cStr query = query) :
    nul ∉ u.toList := by
  intro hmem
  refine cStr_eq_self_iff.mp h ?_
  rw [hquery, Template.fill]
  simp [hmem]

theorem cStr_logInQuery {u p : String} (hu : Unescaped u) (hp : Unescaped p) :
    cStr (logInQuery u p) = logInQuery u p ∨
      ∃ value, (scan .start (cStr (logInQuery u p)).toList).2 = .text doubleQuote value :=
  cStr_fill logInTemplate (by decide +kernel) (by decide +kernel) (by decide)
    (logInTemplate_fill u p) hu hp

theorem lex_logInQuery {u p : String} (hu : Unescaped u) (hp : Unescaped p) :
    lex (logInQuery u p).toList = some (logInTokens u p) := by
  rw [logInTemplate_fill, ← logInTemplate_tokens, Template.lex_fill_iff]
  exact ⟨plain_of_not_mem hu.doubleQuote hu.backslash,
    plain_of_not_mem hp.doubleQuote hp.backslash⟩

theorem logIn_outcomes [DecidableRel collation.r] {mysql : MySQL collation}
    (hselect : mysql.SelectsUser) (hopen : mysql.RefusesOpenLiteral) {u p : String}
    (hu : Unescaped u) (hp : Unescaped p) (userList : UserList collation) :
    (∃ e, (mysql (cStr (logInQuery u p)) userList).1 = .queryFailed e) ∨
    (∃ e, (mysql (cStr (logInQuery u p)) userList).1 = .storeFailed e) ∨
    ∃ r : ResultSet, (mysql (cStr (logInQuery u p)) userList).1 = .result r ∧
      r.rows = (userList.rows.filter (·.Matches collation u p)).map UserRow.logInCells := by
  obtain hs | ⟨value, hs⟩ := cStr_logInQuery hu hp
  · have hlex : lex (cStr (logInQuery u p)).toList = some (logInTokens u p) := by
      rw [hs, lex_logInQuery hu hp]
    obtain ⟨e, h⟩ | ⟨e, h⟩ | ⟨r, h, hr⟩ := hselect _ u p userList hlex
    · exact .inl ⟨e, congrArg Prod.fst h⟩
    · exact .inr (.inl ⟨e, congrArg Prod.fst h⟩)
    · exact .inr (.inr ⟨r, congrArg Prod.fst h, hr⟩)
  · exact .inl (hopen _ userList doubleQuote value hs)

/-! ## One log-in -/

/-- Of the cells of a row only the username may hold a NUL. -/
theorem UserRow.map_cStr_logInCells (row : UserRow) :
    row.logInCells.map cStr = row.logInCells ↔ nul ∉ row.username.toList := by
  rw [logInCells, map_cStr_row, ← cStr_eq_self_iff]
  simp

/-- No two rows match. -/
theorem filter_matches [DecidableRel collation.r] (userList : UserList collation) (u p : String) :
    (userList.rows.filter (·.Matches collation u p) = [] ∧
      ∀ row ∈ userList.rows, ¬ row.Matches collation u p) ∨
    ∃ row ∈ userList.rows, row.Matches collation u p ∧
      userList.rows.filter (·.Matches collation u p) = [row] := by
  have hpair := userList.uniqueUsername.filter fun row => decide (row.Matches collation u p)
  have hmem : ∀ row ∈ userList.rows.filter (·.Matches collation u p),
      row ∈ userList.rows ∧ row.Matches collation u p := fun row h => by
    simpa using List.mem_filter.mp h
  cases h : userList.rows.filter (·.Matches collation u p) with
  | nil =>
    refine .inl ⟨rfl, fun row hrow hm => ?_⟩
    have := List.filter_eq_nil_iff.mp h row hrow
    simp [hm] at this
  | cons row rest =>
    rw [h] at hpair hmem
    obtain ⟨hrow, hm⟩ := hmem row List.mem_cons_self
    cases rest with
    | nil => exact .inr ⟨row, hrow, hm, rfl⟩
    | cons row' rest =>
      -- both usernames are the same as `u`
      obtain ⟨-, hm'⟩ := hmem row' (List.mem_cons_of_mem row List.mem_cons_self)
      exact absurd (collation.trans hm.1 (collation.symm hm'.1))
        (List.rel_of_pairwise_cons hpair List.mem_cons_self)

theorem eq_of_filter_matches [DecidableRel collation.r] {userList : UserList collation}
    {u p : String} {row row' : UserRow}
    (hone : userList.rows.filter (·.Matches collation u p) = [row]) (hrow' : row' ∈ userList.rows)
    (hm' : row'.Matches collation u p) : row' = row := by
  have hmem : row' ∈ userList.rows.filter (·.Matches collation u p) :=
    List.mem_filter.mpr ⟨hrow', decide_eq_true hm'⟩
  rwa [hone, List.mem_singleton] at hmem

/-- Some call of the client library reports a failure. -/
def QueryOutcome.Failed : QueryOutcome → Prop
  | .queryFailed _ | .storeFailed _ => True
  | .noResult | .result _ => False

/-- What log-in promises of one call, `outcome` being reported of its statement: it succeeds with
the matching row, or else it returns non-zero with a message and no rows. -/
structure LogInCorrect (outcome : QueryOutcome) (userList : UserList collation) (u p : String)
    (result : ℕ × Outputs collation) : Prop where
  success : (result.1 = 0 ∧ ∃ row ∈ userList.rows, row.Matches collation u p ∧
      result.2.datas.mDatas = [row.logInCells]) ↔
    ¬ outcome.Failed ∧ ∃ row ∈ userList.rows, row.Matches collation u p
  failure : (outcome.Failed ∨ ∀ row ∈ userList.rows, ¬ row.Matches collation u p) →
    result.1 ≠ 0 ∧ result.2.errorMsg ≠ "" ∧ result.2.datas.isDataEmpty

section Calls

variable {mysql : MySQL collation} {u p errorMsg : String} {datas : TableDatas}
  {userList : UserList collation}

theorem logIn_of_queryFailed (errorMsg : String) (datas : TableDatas) {e : SqlError}
    (h : (mysql (cStr (logInQuery u p)) userList).1 = .queryFailed e) :
    (logIn mysql u p errorMsg datas userList).1 = 1 ∧
      (logIn mysql u p errorMsg datas userList).2.errorMsg = "user doesn't exist" ∧
      (logIn mysql u p errorMsg datas userList).2.datas = ⟨[]⟩ := by
  obtain ⟨hmsg, hdatas⟩ := executeQuery_of_queryFailed errorMsg datas h
  have hif : (executeQuery mysql (logInQuery u p) errorMsg datas userList).errorMsg ≠ "" ∧
      (executeQuery mysql (logInQuery u p) errorMsg datas userList).datas.isDataEmpty = true :=
    ⟨hmsg, by rw [hdatas]; rfl⟩
  simp only [logIn, logInCode, if_pos hif]
  exact ⟨trivial, trivial, hdatas⟩

/-- Rows that cannot be read are not reported. -/
theorem logIn_of_storeFailed {e : SqlError}
    (h : (mysql (cStr (logInQuery u p)) userList).1 = .storeFailed e) :
    logIn mysql u p errorMsg datas userList =
      (0, ⟨"", ⟨[]⟩, (mysql (cStr (logInQuery u p)) userList).2⟩) := by
  simp only [logIn, logInCode, executeQuery_of_storeFailed h]
  exact if_neg fun hne => hne.1 rfl

/-- A result set is a success, also when it has no rows. -/
theorem logIn_of_result {r : ResultSet} (hlen : r.rows.length < 2 ^ 32)
    (h : (mysql (cStr (logInQuery u p)) userList).1 = .result r) :
    logIn mysql u p errorMsg datas userList =
      (0, ⟨"", ⟨r.rows.map (List.map cStr)⟩, (mysql (cStr (logInQuery u p)) userList).2⟩) := by
  simp only [logIn, logInCode, executeQuery_of_result hlen h]
  exact if_neg fun hne => hne.1 rfl

theorem logIn_of_row {r : ResultSet} {row : UserRow} (hr : r.rows = [row.logInCells])
    (h : (mysql (cStr (logInQuery u p)) userList).1 = .result r) :
    logIn mysql u p errorMsg datas userList =
      (0, ⟨"", ⟨[row.logInCells.map cStr]⟩, (mysql (cStr (logInQuery u p)) userList).2⟩) := by
  rw [logIn_of_result (by simp [hr]) h, hr, List.map_singleton]

/-- The only row that matches is what the caller gets, unless its username has a NUL. -/
theorem logInCorrect_row_iff [DecidableRel collation.r] {r : ResultSet} {row : UserRow}
    {userList' : UserList collation} (hrow : row ∈ userList.rows)
    (hm : row.Matches collation u p)
    (hone : userList.rows.filter (·.Matches collation u p) = [row]) :
    LogInCorrect (.result r) userList u p (0, ⟨"", ⟨[row.logInCells.map cStr]⟩, userList'⟩) ↔
      nul ∉ row.username.toList := by
  rw [← UserRow.map_cStr_logInCells]
  constructor
  · intro hc
    obtain ⟨-, row', hrow', hm', hcells⟩ := hc.success.mpr ⟨not_false, row, hrow, hm⟩
    obtain rfl := eq_of_filter_matches hone hrow' hm'
    exact List.singleton_inj.mp hcells
  · intro hcells
    refine ⟨?_, fun hf => absurd hm ((hf.resolve_left not_false) row hrow)⟩
    exact iff_of_true ⟨rfl, row, hrow, hm, congrArg ([·]) hcells⟩ ⟨not_false, row, hrow, hm⟩

end Calls

/-- **Log-in.** A call keeps its promise exactly when its statement fails, or the rows can be read
and some row matches, with a username that has no NUL. -/
theorem logIn_correct_iff [DecidableRel collation.r] {mysql : MySQL collation}
    (hselect : mysql.SelectsUser) (hopen : mysql.RefusesOpenLiteral) {u p : String}
    (hu : Unescaped u) (hp : Unescaped p) (errorMsg : String) (datas : TableDatas)
    (userList : UserList collation) :
    LogInCorrect (mysql (cStr (logInQuery u p)) userList).1 userList u p
        (logIn mysql u p errorMsg datas userList) ↔
      (∃ e, (mysql (cStr (logInQuery u p)) userList).1 = .queryFailed e) ∨
      ((∃ r, (mysql (cStr (logInQuery u p)) userList).1 = .result r) ∧
        ∃ row ∈ userList.rows, row.Matches collation u p ∧ nul ∉ row.username.toList) := by
  obtain ⟨e, h⟩ | ⟨e, h⟩ | ⟨r, h, hr⟩ := logIn_outcomes hselect hopen hu hp userList
  · obtain ⟨hcode, hmsg, hdatas⟩ := logIn_of_queryFailed errorMsg datas h
    refine ⟨fun _ => .inl ⟨e, h⟩, fun _ => ⟨?_, fun _ => ?_⟩⟩
    · rw [hcode, h]
      simp [QueryOutcome.Failed]
    · rw [hcode, hmsg, hdatas]
      exact ⟨by decide, by decide, rfl⟩
  · -- the code is 0 although the rows were not read
    rw [logIn_of_storeFailed h, h]
    constructor
    · intro hc
      exact absurd rfl (hc.failure (.inl trivial)).1
    · rintro (⟨e', he⟩ | ⟨⟨r, hr⟩, -⟩) <;> contradiction
  · obtain ⟨hnil, hno⟩ | ⟨row, hrow, hm, hone⟩ := filter_matches userList u p
    · -- the code is 0 although no row matches
      rw [hnil] at hr
      rw [logIn_of_result (by simp [hr]) h, h]
      constructor
      · intro hc
        exact absurd rfl (hc.failure (.inr hno)).1
      · rintro (⟨e', he⟩ | ⟨-, row, hrow, hm, -⟩)
        · contradiction
        · exact absurd hm (hno row hrow)
    · rw [hone] at hr
      rw [logIn_of_row hr h, h, logInCorrect_row_iff hrow hm hone]
      constructor
      · exact fun hnul => .inr ⟨⟨r, rfl⟩, row, hrow, hm, hnul⟩
      · rintro (⟨e', he⟩ | ⟨-, row', hrow', hm', hnul⟩)
        · contradiction
        · rwa [← eq_of_filter_matches hone hrow' hm']

/-! ## A server that knows this statement -/

/-- The value of a literal. -/
def literalOf : Token → Option (List Char)
  | .text value => some value
  | _ => none

/-- The username and password of a log-in. -/
def credentialsOf (tokens : List Token) : Option (String × String) :=
  match tokens.filterMap literalOf with
  | [u, p] =>
    if tokens = logInTokens (String.ofList u) (String.ofList p) then
      some (String.ofList u, String.ofList p)
    else none
  | _ => none

theorem credentialsOf_logInTokens (u p : String) :
    credentialsOf (logInTokens u p) = some (u, p) := by
  have h : (logInTokens u p).filterMap literalOf = [u.toList, p.toList] := rfl
  simp [credentialsOf, h, String.ofList_toList]

/-- The result set of a log-in. -/
def selected [DecidableRel collation.r] (userList : UserList collation) (u p : String) :
    ResultSet where
  numFields := 3
  rows := (userList.rows.filter (·.Matches collation u p)).map UserRow.logInCells
  width row h := by
    obtain ⟨_, -, rfl⟩ := List.mem_map.mp h
    rfl

def syntaxError : SqlError where
  errno := 1064
  text := "You have an error in your SQL syntax"
  errno_ne := by decide
  text_ne := by decide

/-- A server that answers a log-in and refuses every other statement. -/
def MySQL.logInOnly [DecidableRel collation.r] : MySQL collation := fun text userList =>
  match (lex text.toList).bind credentialsOf with
  | some (u, p) => (.result (selected userList u p), userList)
  | none => (.queryFailed syntaxError, userList)

theorem logInOnly_of_lex [DecidableRel collation.r] {text u p : String}
    (h : lex text.toList = some (logInTokens u p)) (userList : UserList collation) :
    MySQL.logInOnly text userList = (.result (selected userList u p), userList) := by
  simp only [MySQL.logInOnly, h, Option.bind_some, credentialsOf_logInTokens]

theorem logInOnly_selectsUser [DecidableRel collation.r] :
    (MySQL.logInOnly : MySQL collation).SelectsUser :=
  fun _ u p userList h => .inr (.inr ⟨selected userList u p, logInOnly_of_lex h userList, rfl⟩)

theorem logInOnly_refusesOpenLiteral [DecidableRel collation.r] :
    (MySQL.logInOnly : MySQL collation).RefusesOpenLiteral := by
  intro text userList q value h
  exact ⟨syntaxError, by simp only [MySQL.logInOnly, lex_eq_none_of_text h, Option.bind_none]⟩

/-- Strings are compared as they are. -/
def binary : Setoid String := ⟨Eq, eq_equivalence⟩

instance decidableBinary : DecidableRel binary.r := inferInstanceAs (DecidableEq String)

/-- A table with one row. -/
def aliceOnly : UserList binary where
  rows := [⟨29, "alice", "123456", 25⟩]
  primaryKey := by simp
  uniqueUsername := List.pairwise_singleton _ _

/-- A server for that table. -/
def binaryServer : MySQL binary := MySQL.logInOnly

/-- The right password. -/
theorem logIn_correct_iff_alice :
    binaryServer.SelectsUser ∧ binaryServer.RefusesOpenLiteral ∧
      (∃ r, (binaryServer (cStr (logInQuery "alice" "123456")) aliceOnly).1 = .result r) ∧
      LogInCorrect (binaryServer (cStr (logInQuery "alice" "123456")) aliceOnly).1 aliceOnly
        "alice" "123456" (logIn binaryServer "alice" "123456" "" ⟨[]⟩ aliceOnly) := by
  have hname : Unescaped "alice" := ⟨by decide, by decide⟩
  have hpass : Unescaped "123456" := ⟨by decide, by decide⟩
  have hsent : cStr (logInQuery "alice" "123456") = logInQuery "alice" "123456" := by
    refine cStr_of_not_mem ?_
    rw [logInTemplate_fill]
    decide +kernel
  have hresult : ∃ r,
      (binaryServer (cStr (logInQuery "alice" "123456")) aliceOnly).1 = .result r := by
    refine ⟨selected aliceOnly "alice" "123456", ?_⟩
    rw [binaryServer, hsent, logInOnly_of_lex (lex_logInQuery hname hpass)]
  have hrow : ∃ row ∈ aliceOnly.rows, row.Matches binary "alice" "123456" ∧
      nul ∉ row.username.toList := by decide
  exact ⟨logInOnly_selectsUser, logInOnly_refusesOpenLiteral, hresult,
    (logIn_correct_iff logInOnly_selectsUser logInOnly_refusesOpenLiteral hname hpass "" ⟨[]⟩
      aliceOnly).mpr (.inr ⟨hresult, hrow⟩)⟩

/-- Nobody has the name, and the return code is that of a success. -/
theorem logIn_of_unknown_name :
    binaryServer.SelectsUser ∧ binaryServer.RefusesOpenLiteral ∧
    logIn binaryServer "bob" "123456" "" ⟨[]⟩ aliceOnly = (0, ⟨"", ⟨[]⟩, aliceOnly⟩) ∧
    ¬ LogInCorrect (binaryServer (cStr (logInQuery "bob" "123456")) aliceOnly).1 aliceOnly
      "bob" "123456" (logIn binaryServer "bob" "123456" "" ⟨[]⟩ aliceOnly) := by
  have hno : ∀ row ∈ aliceOnly.rows, ¬ row.Matches binary "bob" "123456" := by decide
  have hrows : (selected aliceOnly "bob" "123456").rows = [] := by decide
  have hsent : cStr (logInQuery "bob" "123456") = logInQuery "bob" "123456" := by
    refine cStr_of_not_mem ?_
    rw [logInTemplate_fill]
    decide +kernel
  have hlex : lex (cStr (logInQuery "bob" "123456")).toList =
      some (logInTokens "bob" "123456") := by
    rw [hsent, lex_logInQuery ⟨by decide, by decide⟩ ⟨by decide, by decide⟩]
  have hresult : binaryServer (cStr (logInQuery "bob" "123456")) aliceOnly =
      (.result (selected aliceOnly "bob" "123456"), aliceOnly) := logInOnly_of_lex hlex aliceOnly
  have hlogIn : logIn binaryServer "bob" "123456" "" ⟨[]⟩ aliceOnly =
      (0, ⟨"", ⟨[]⟩, aliceOnly⟩) := by
    rw [logIn_of_result (by rw [hrows]; decide) (congrArg Prod.fst hresult), hrows, hresult,
      List.map_nil]
  refine ⟨logInOnly_selectsUser, logInOnly_refusesOpenLiteral, hlogIn, fun hc => ?_⟩
  have := (hc.failure (.inr hno)).1
  rw [hlogIn] at this
  exact this rfl

end OnlineCaro
