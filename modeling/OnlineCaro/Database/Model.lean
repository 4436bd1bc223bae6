import OnlineCaro.Lib.SqlText
import Mathlib.Data.List.Infix
import Mathlib.Data.List.ModifyLast

/-!
# `DatabaseOp`: accounts in a MySQL table

`DatabaseOp` builds a statement from its arguments, sends it with the client library, and copies
the result set into a `TableDatas`. The functions are translated from `DatabaseOp.cpp` and
`TableDatas.cpp`; the client library with the server behind it is a parameter, `MySQL`.

* `TableDatas`: the rows and cells given back to the caller.
* `QueryOutcome`: what the client library reports of one statement.
* `executeQuery`, `createAccount`, `logIn`, `updateUserScore`: the functions of the source.
* `UserList`: the contents of the table `user_list`, under the collation of its columns.
-/

namespace OnlineCaro

open SqlText

/-! ## Rows and cells for the caller -/

/-- The data of the last statement that returned rows. -/
structure TableDatas where
  mDatas : List (List String)
  deriving DecidableEq

namespace TableDatas

def isDataEmpty (datas : TableDatas) : Bool := datas.mDatas.isEmpty

def addRow (datas : TableDatas) : TableDatas := ⟨datas.mDatas ++ [[]]⟩

/-- Only called when there is a row. -/
def addDataInCurrentLastRow (datas : TableDatas) (data : String) : TableDatas :=
  ⟨datas.mDatas.modifyLast (· ++ [data])⟩

def clearDatas (_datas : TableDatas) : TableDatas := ⟨[]⟩

end TableDatas

/-! ## The client library -/

/-- `mysql_errno` and `mysql_error` after a failure. -/
structure SqlError where
  errno : ℕ
  text : String
  errno_ne : errno ≠ 0
  text_ne : text ≠ ""

/-- A result set; no column of the table is nullable, so that every cell is a string. -/
structure ResultSet where
  numFields : ℕ
  rows : List (List String)
  width : ∀ row ∈ rows, row.length = numFields

/-- What the client library reports of one statement. -/
inductive QueryOutcome
  /-- `mysql_query` fails. -/
  | queryFailed (e : SqlError)
  /-- The statement returns no rows: `mysql_store_result` gives `NULL`. -/
  | noResult
  /-- `mysql_store_result` gives `NULL` because the rows could not be read. -/
  | storeFailed (e : SqlError)
  | result (r : ResultSet)

namespace QueryOutcome

/-- `mysql_errno` after `mysql_query` -/
def mysqlErrno : QueryOutcome → ℕ
  | .queryFailed e => e.errno
  | _ => 0

/-- `mysql_error` after `mysql_query` -/
def mysqlError : QueryOutcome → String
  | .queryFailed e => e.text
  | _ => ""

def mysqlStoreResult : QueryOutcome → Option ResultSet
  | .result r => some r
  | _ => none

end QueryOutcome

/-! ## The table -/

/-- A row of `user_list`. -/
structure UserRow where
  id : ℤ
  username : String
  password : String
  score : ℤ
  deriving DecidableEq

/-- The cells of a row that log-in selects. -/
def UserRow.logInCells (row : UserRow) : List String :=
  [toString row.id, row.username, toString row.score]

/-- The table `user_list`: `id` is its primary key, and no two usernames are the same under the
collation of the column. -/
structure UserList (collation : Setoid String) where
  rows : List UserRow
  primaryKey : (rows.map UserRow.id).Nodup
  uniqueUsername : rows.Pairwise fun row row' => ¬ collation.r row.username row'.username

/-- The client library and the server: what is reported of a statement, and the table it leaves. -/
abbrev MySQL (collation : Setoid String) :=
  String → UserList collation → QueryOutcome × UserList collation

variable {collation : Setoid String}

/-! ## `executeQuery` -/

/-- A string as C reads it: up to the first NUL. -/
def cStr (s : String) : String := String.ofList (s.toList.takeWhile (· ≠ nul))

/-- `s.find(t) != string::npos` -/
def contains (s t : String) : Prop := t.toList <:+: s.toList

instance (s t : String) : Decidable (contains s t) := inferInstanceAs (Decidable (_ <:+: _))

/-- What a call leaves: the two reference parameters and the table. -/
structure Outputs (collation : Setoid String) where
  errorMsg : String
  datas : TableDatas
  userList : UserList collation

/-- The loop over the cells of one row: `row[i]` is a `char *`, and becomes a string up to its first
NUL. -/
def fetchCells (numCol : ℕ) (row : List String) (datas : TableDatas) : TableDatas :=
  (List.range numCol).foldl
    (fun datas i => datas.addDataInCurrentLastRow (cStr (row.getD i ""))) datas

/-- The loop over `mysql_fetch_row`. -/
def fetchRows (numCol : ℕ) (rows : List (List String)) (datas : TableDatas) : TableDatas :=
  rows.foldl (fun datas row => fetchCells numCol row datas.addRow) datas

/-- `executeQuery` after the call of `mysql_query`. -/
def readResult (outcome : QueryOutcome) (errorMsg : String) (datas : TableDatas)
    (userList : UserList collation) : Outputs collation :=
  if outcome.mysqlErrno ≠ 0 then
    let errorMsg := outcome.mysqlError
    if contains errorMsg "Duplicate" ∧ contains errorMsg "username" then
      ⟨"username already exist", datas, userList⟩
    else ⟨errorMsg, datas, userList⟩
  else
    match outcome.mysqlStoreResult with
    | none => ⟨errorMsg, datas, userList⟩
    | some resSet =>
      -- `int num_rows = mysql_num_rows(res_set)`
      let numRows := Int32.ofNat resSet.rows.length
      let numCol := resSet.numFields
      if numRows = 0 then ⟨errorMsg, datas, userList⟩
      else ⟨errorMsg, fetchRows numCol resSet.rows datas, userList⟩

/-- On a connection that was made; `DatabaseOp.executeQuery` is the call on any handle. -/
def executeQuery (mysql : MySQL collation) (query : String) (_errorMsg : String)
    (datas : TableDatas) (userList : UserList collation) : Outputs collation :=
  let errorMsg := ""
  let datas := datas.clearDatas
  let (outcome, userList) := mysql (cStr query) userList
  readResult outcome errorMsg datas userList

/-! ## Statements -/

def userListTable : String := "user_list"

def createQuery (username password : String) : String :=
  "INSERT INTO `" ++ userListTable ++ "` (`username`, `password`) VALUES "
    ++ "(" ++ "\"" ++ username ++ "\""
    ++ ","
    ++ "\"" ++ password ++ "\"" ++ ")"

/-- The end of `createAccount` and of `updateUserScore`; the result is the return code. -/
def returnCode (o : Outputs collation) : ℕ × Outputs collation :=
  if o.errorMsg ≠ "" then (1, o) else (0, o)

def createAccount (mysql : MySQL collation) (username password errorMsg : String)
    (userList : UserList collation) : ℕ × Outputs collation :=
  returnCode (executeQuery mysql (createQuery username password) errorMsg ⟨[]⟩ userList)

def logInQuery (username password : String) : String :=
  "SELECT `id`, `username`, `score` FROM " ++ "`" ++ userListTable ++ "`"
    ++ " WHERE `username` = " ++ "\"" ++ username ++ "\""
    ++ " AND `password` = " ++ "\"" ++ password ++ "\""

/-- The end of `logIn`; the result is the return code. -/
def logInCode (o : Outputs collation) : ℕ × Outputs collation :=
  if o.errorMsg ≠ "" ∧ o.datas.isDataEmpty then
    (1, { o with errorMsg := "user doesn't exist" })
  else (0, o)

def logIn (mysql : MySQL collation) (username password errorMsg : String) (datas : TableDatas)
    (userList : UserList collation) : ℕ × Outputs collation :=
  logInCode (executeQuery mysql (logInQuery username password) errorMsg datas userList)

def updateQuery (userId userScore : Int32) : String :=
  "UPDATE `" ++ userListTable ++ "`" ++ "SET `score`= " ++ toString userScore.toInt
    ++ " WHERE `id` = " ++ toString userId.toInt

def updateUserScore (mysql : MySQL collation) (userId userScore : Int32) (errorMsg : String)
    (userList : UserList collation) : ℕ × Outputs collation :=
  returnCode (executeQuery mysql (updateQuery userId userScore) errorMsg ⟨[]⟩ userList)

end OnlineCaro
