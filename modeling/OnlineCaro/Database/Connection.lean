import OnlineCaro.Database.RankList
import OnlineCaro.Lib.Run

/-!
# The connection behind the calls

`DatabaseOp` is a singleton. Its constructor makes the connection once, and every public call goes
through `executeQuery`, which hands the field `connect` to the client library.

* `init`: the field `connect` and the text printed, from what `mysql_init` and
  `mysql_real_connect` return; a handle is an element of `H`, `NULL` is `none`.
* `mysqlQuery`, `DatabaseOp.executeQuery` and the four calls: on any handle, `NULL` among them.
* `executeQuery_of_connected`, `call_of_null`: on a connection the calls are those of
  `Database.Model` and `Database.RankList`; without one each of them ends at `mysql_query`.
* `dbStep_connect`: no call changes the handle.
* `CallSafe`, **`calls_safe_iff`**: the calls are safe if the connection was made, and no call is
  if it was not.
-/

namespace OnlineCaro

open StepRun

variable {H : Type*} {collation : Setoid String}

/-- The field `connect`, and what is printed. -/
def init (mysqlInit : Option H) (mysqlRealConnect : H → Option H) : Option H × String :=
  match mysqlInit with
  | none => (none, "mysql initialization failed\n")
  | some handle =>
    match mysqlRealConnect handle with
    | some connect => (some connect, "Connection Succeeded\n")
    | none => (none, "Connection Failed\n")

theorem init_isSome {mysqlInit : Option H} {mysqlRealConnect : H → Option H} :
    (init mysqlInit mysqlRealConnect).1.isSome ↔
      ∃ handle, mysqlInit = some handle ∧ (mysqlRealConnect handle).isSome := by
  cases mysqlInit with
  | none => simp [init]
  | some handle => cases hconnect : mysqlRealConnect handle <;> simp [init, hconnect]

/-! ## Calls -/

/-- What C++ gives no meaning to. -/
inductive CallFault
  /-- `NULL` is passed to `mysql_query`. -/
  | nullHandle
  /-- `getRankList` erases a range that is not there, reads no number, or overflows an `int`. -/
  | undefined

/-- The singleton, and the table on the server. -/
structure DatabaseOp (H : Type*) (collation : Setoid String) where
  connect : Option H
  userList : UserList collation

/-- The call of `mysql_query`; `mysql` is the client library with the server, on a handle that is
not `NULL`. -/
def mysqlQuery (mysql : H → MySQL collation) (connect : Option H) (query : String)
    (userList : UserList collation) : Except CallFault (QueryOutcome × UserList collation) :=
  match connect with
  | none => .error .nullHandle
  | some handle => .ok (mysql handle query userList)

namespace DatabaseOp

variable (mysql : H → MySQL collation) (db : DatabaseOp H collation)

def executeQuery (query _errorMsg : String) (datas : TableDatas) :
    Except CallFault (Outputs collation) := do
  let errorMsg := ""
  let datas := datas.clearDatas
  let (outcome, userList) ← mysqlQuery mysql db.connect (cStr query) db.userList
  return readResult outcome errorMsg datas userList

def createAccount (username password errorMsg : String) :
    Except CallFault (ℕ × Outputs collation) := do
  let o ← db.executeQuery mysql (createQuery username password) errorMsg ⟨[]⟩
  return returnCode o

def logIn (username password errorMsg : String) (datas : TableDatas) :
    Except CallFault (ℕ × Outputs collation) := do
  let o ← db.executeQuery mysql (logInQuery username password) errorMsg datas
  return logInCode o

def updateUserScore (userId userScore : Int32) (errorMsg : String) :
    Except CallFault (ℕ × Outputs collation) := do
  let o ← db.executeQuery mysql (updateQuery userId userScore) errorMsg ⟨[]⟩
  return returnCode o

def getRankList (userId : Int32) (errorMsg : String) (datas : TableDatas) :
    Except CallFault (Outputs collation) := do
  let o ← db.executeQuery mysql getRankListQuery errorMsg datas
  match keepNeighbours userId o with
  | some o => return o
  | none => throw .undefined

end DatabaseOp

/-- A public call; `errorMsg` and `datas` are what the caller's variables hold. -/
inductive DbCall
  | createAccount (username password errorMsg : String)
  | logIn (username password errorMsg : String) (datas : TableDatas)
  | updateUserScore (userId userScore : Int32) (errorMsg : String)
  | getRankList (userId : Int32) (errorMsg : String) (datas : TableDatas)

/-- What becomes of a call: a fault, or the return code, which `getRankList` does not have, with
what the caller gets. -/
abbrev CallResult (collation : Setoid String) := Except CallFault (Option ℕ × Outputs collation)

def DatabaseOp.call (mysql : H → MySQL collation) (db : DatabaseOp H collation) :
    DbCall → CallResult collation
  | .createAccount username password errorMsg => do
    let (code, o) ← db.createAccount mysql username password errorMsg
    return (some code, o)
  | .logIn username password errorMsg datas => do
    let (code, o) ← db.logIn mysql username password errorMsg datas
    return (some code, o)
  | .updateUserScore userId userScore errorMsg => do
    let (code, o) ← db.updateUserScore mysql userId userScore errorMsg
    return (some code, o)
  | .getRankList userId errorMsg datas => do
    let o ← db.getRankList mysql userId errorMsg datas
    return (none, o)

/-- One call. What a fault does to the table is not known; it is left as it was. -/
def dbStep (mysql : H → MySQL collation) (db : DatabaseOp H collation) (call : DbCall) :
    DatabaseOp H collation × CallResult collation :=
  match db.call mysql call with
  | .ok (code, o) => ({ db with userList := o.userList }, .ok (code, o))
  | .error fault => (db, .error fault)

/-- The handle stays as `init` left it. -/
theorem dbStep_connect (mysql : H → MySQL collation) (db : DatabaseOp H collation)
    (call : DbCall) : (dbStep mysql db call).1.connect = db.connect := by
  unfold dbStep
  split <;> rfl

theorem dbStep_result (mysql : H → MySQL collation) (db : DatabaseOp H collation)
    (call : DbCall) : (dbStep mysql db call).2 = db.call mysql call := by
  unfold dbStep
  split <;> simp [*]

/-! ## With and without a connection -/

section Handles

variable {mysql : H → MySQL collation} {db : DatabaseOp H collation} {handle : H}

theorem executeQuery_of_null (h : db.connect = none) (query errorMsg : String)
    (datas : TableDatas) :
    db.executeQuery mysql query errorMsg datas = .error .nullHandle := by
  rw [DatabaseOp.executeQuery, h]
  rfl

theorem executeQuery_of_connected (h : db.connect = some handle) (query errorMsg : String)
    (datas : TableDatas) : db.executeQuery mysql query errorMsg datas =
      .ok (executeQuery (mysql handle) query errorMsg datas db.userList) := by
  rw [DatabaseOp.executeQuery, h]
  rfl

/-- Every call begins with `executeQuery`. -/
theorem call_of_null (h : db.connect = none) (call : DbCall) :
    db.call mysql call = .error .nullHandle := by
  cases call with
  | createAccount username password errorMsg =>
    rw [DatabaseOp.call, DatabaseOp.createAccount, executeQuery_of_null h]
    rfl
  | logIn username password errorMsg datas =>
    rw [DatabaseOp.call, DatabaseOp.logIn, executeQuery_of_null h]
    rfl
  | updateUserScore userId userScore errorMsg =>
    rw [DatabaseOp.call, DatabaseOp.updateUserScore, executeQuery_of_null h]
    rfl
  | getRankList userId errorMsg datas =>
    rw [DatabaseOp.call, DatabaseOp.getRankList, executeQuery_of_null h]
    rfl

theorem createAccount_of_connected (h : db.connect = some handle)
    (username password errorMsg : String) :
    db.createAccount mysql username password errorMsg =
      .ok (createAccount (mysql handle) username password errorMsg db.userList) := by
  rw [DatabaseOp.createAccount, executeQuery_of_connected h]
  rfl

theorem logIn_of_connected (h : db.connect = some handle) (username password errorMsg : String)
    (datas : TableDatas) : db.logIn mysql username password errorMsg datas =
      .ok (logIn (mysql handle) username password errorMsg datas db.userList) := by
  rw [DatabaseOp.logIn, executeQuery_of_connected h]
  rfl

theorem updateUserScore_of_connected (h : db.connect = some handle) (userId userScore : Int32)
    (errorMsg : String) : db.updateUserScore mysql userId userScore errorMsg =
      .ok (updateUserScore (mysql handle) userId userScore errorMsg db.userList) := by
  rw [DatabaseOp.updateUserScore, executeQuery_of_connected h]
  rfl

theorem getRankList_of_connected (h : db.connect = some handle) (userId : Int32)
    (errorMsg : String) (datas : TableDatas) : db.getRankList mysql userId errorMsg datas =
      match getRankList (mysql handle) userId errorMsg datas db.userList with
      | some o => .ok o
      | none => .error .undefined := by
  rw [DatabaseOp.getRankList, executeQuery_of_connected h]
  rfl

theorem call_of_connected (h : db.connect = some handle) (call : DbCall) :
    db.call mysql call ≠ .error .nullHandle := by
  cases call with
  | createAccount username password errorMsg =>
    rw [DatabaseOp.call, createAccount_of_connected h]
    exact fun he => nomatch he
  | logIn username password errorMsg datas =>
    rw [DatabaseOp.call, logIn_of_connected h]
    exact fun he => nomatch he
  | updateUserScore userId userScore errorMsg =>
    rw [DatabaseOp.call, updateUserScore_of_connected h]
    exact fun he => nomatch he
  | getRankList userId errorMsg datas =>
    rw [DatabaseOp.call, getRankList_of_connected h]
    cases getRankList (mysql handle) userId errorMsg datas db.userList with
    | some o => exact fun he => nomatch he
    | none => exact fun he => nomatch he

end Handles

/-! ## Safety -/

/-- A return code other than `0` or a message, and no rows. -/
def ReportsFailure : CallResult collation → Prop
  | .ok (code, o) => ((∃ c, code = some c ∧ c ≠ 0) ∨ o.errorMsg ≠ "") ∧ o.datas = ⟨[]⟩
  | .error _ => False

/-- `NULL` is not passed to the client library, and without a connection the call fails. -/
structure CallSafe (connect : Option H) (result : CallResult collation) : Prop where
  handle : result ≠ .error .nullHandle
  failure : connect = none → ReportsFailure result

theorem callSafe_iff (mysql : H → MySQL collation) (db : DatabaseOp H collation) (call : DbCall) :
    CallSafe db.connect (dbStep mysql db call).2 ↔ db.connect.isSome := by
  rw [dbStep_result]
  cases hconnect : db.connect with
  | none => exact iff_of_false (fun h => h.handle (call_of_null hconnect call)) Bool.false_ne_true
  | some handle =>
    exact iff_of_true ⟨call_of_connected hconnect call, fun h => nomatch h⟩ rfl

/-- **Calls on a missing connection.** -/
theorem calls_safe_iff (mysqlInit : Option H) (mysqlRealConnect : H → Option H)
    (mysql : H → MySQL collation) (userList : UserList collation) (calls : List DbCall) :
    Always (dbStep mysql) (fun c call => CallSafe c.state.connect (dbStep mysql c.state call).2)
        (start ⟨(init mysqlInit mysqlRealConnect).1, userList⟩) calls ↔
      (∃ handle, mysqlInit = some handle ∧ (mysqlRealConnect handle).isSome) ∨ calls = [] := by
  rw [← init_isSome]
  cases calls with
  | nil => exact iff_of_true trivial (Or.inr rfl)
  | cons call calls =>
    rw [or_iff_left (List.cons_ne_nil call calls)]
    constructor
    · rintro ⟨hfirst, -⟩
      exact (callSafe_iff mysql _ call).mp hfirst
    · intro hsome
      -- the handle is there before every call
      refine always_of_invariant (I := fun c => c.state.connect.isSome) ?_ ?_ hsome _
      · intro c call hc
        rwa [advance_state, dbStep_connect]
      · exact fun c call hc => (callSafe_iff mysql c.state call).mpr hc

/-- The server refuses the connection, and someone logs in. -/
theorem log_in_on_missing_connection :
    (init (some ()) fun _ => none).1 = none ∧
      ¬ Always (dbStep fun _ => MySQL.rankOnly)
        (fun c call => CallSafe c.state.connect (dbStep (fun _ => MySQL.rankOnly) c.state call).2)
        (start ⟨(init (some ()) fun _ => none).1, sixUsers⟩)
        [.logIn "alice" "123456" "" ⟨[]⟩] := by
  refine ⟨rfl, ?_⟩
  rintro ⟨hfirst, -⟩
  exact hfirst.handle rfl

end OnlineCaro
