import OnlineCaro.Lib.CString
import Mathlib.Logic.Function.Basic

/-!
# The account server of `online-caro.cpp`

The server keeps one list of accounts, `accountDB`, and one thread for each connection. A thread
owns the buffer `state` with the name its client gave; it handles one received request after
another with `processRequest`. Here one request is one atomic step of the whole server.

* `Account`, `findNode`, `updateNode`: the records and the search loop of the handlers.
* `NameBuf`: the life of a session's name buffer. What C leaves open, the text that an unwritten
  or a released buffer reads as, is the `residue` of the request; each such access is a `Fault`.
* `getData`, `processUsername`, `processPassword`, `processBlockAccount`, `processLogout`,
  `processRequest`: the functions of the source, on the memory they touch (`Frame`).
* `Server`, `Event`, `step`: all sessions together, one turn of the loop of
  `processRequestThread` at a time.
-/

namespace OnlineCaro

open CMem

/-! ## Protocol constants -/

/-- The reply codes. -/
inductive Reply
  | usernameSuccess
  | usernameNotFound
  | accountIsBlocked
  | accountIsLoggedIn
  | passwordSuccess
  | passwordIncorrect
  | logoutSuccess
  deriving DecidableEq

/-- The characters of a reply code. -/
def Reply.code : Reply → String
  | .usernameSuccess => "10"
  | .usernameNotFound => "11"
  | .accountIsBlocked => "12"
  | .accountIsLoggedIn => "13"
  | .passwordSuccess => "20"
  | .passwordIncorrect => "21"
  | .logoutSuccess => "30"

/-- `'1'` -/
def usernameOperation : UInt8 := 49

/-- `'2'` -/
def passwordOperation : UInt8 := 50

/-- `'3'` -/
def logoutOperation : UInt8 := 51

def statusDefault : Int32 := 0

def statusLoggedIn : Int32 := 1

def statusBlocked : Int32 := 2

/-! ## Accounts -/

/-- A record of the list `accountDB`; `next` is the tail of the list. -/
structure Account where
  username : CString
  password : CString
  status : Int32
  counter : Int32
  deriving DecidableEq

/-- The search loop of the handlers: from `accountDB` along `next` to the first node whose
username is `name`. -/
def findNode (accountDB : List Account) (name : CString) : Option Account :=
  accountDB.find? fun node => node.username = name

/-- Assign through the pointer that the search loop found. -/
def updateNode (name : CString) (write : Account → Account) : List Account → List Account
  | [] => []
  | node :: next =>
    if node.username = name then write node :: next else node :: updateNode name write next

/-! ## The name buffer of a session -/

/-- What the pointer `state` of a session points to. -/
inductive NameBuf
  | unwritten
  | holds (name : CString)
  | released
  deriving DecidableEq

/-- An access to the name buffer that C gives no meaning to. -/
inductive Fault
  | writeReleased
  | readUnwritten
  | readReleased
  | doubleRelease
  deriving DecidableEq

namespace NameBuf

/-- The string a reader of the buffer sees. -/
def read (residue : CString) : NameBuf → CString
  | .holds name => name
  | _ => residue

def readFaults : NameBuf → List Fault
  | .unwritten => [.readUnwritten]
  | .holds _ => []
  | .released => [.readReleased]

/-- `strcpy(state, data)` -/
def write (data : CString) : NameBuf → NameBuf
  | .released => .released
  | _ => .holds data

def writeFaults : NameBuf → List Fault
  | .released => [.writeReleased]
  | _ => []

def releaseFaults : NameBuf → List Fault
  | .released => [.doubleRelease]
  | _ => []

end NameBuf

/-- The memory a handler works on: the shared list, the response buffer (`none` while nothing is
written to it), the name buffer, and the faulty accesses so far. -/
structure Frame where
  accountDB : List Account
  response : Option Reply
  state : NameBuf
  faults : List Fault

namespace Frame

/-- Read `state` as a string. -/
def readState (residue : CString) (f : Frame) : CString × Frame :=
  (f.state.read residue, { f with faults := f.faults ++ f.state.readFaults })

/-- `strcpy(state, data)` -/
def copyState (data : CString) (f : Frame) : Frame :=
  { f with state := f.state.write data, faults := f.faults ++ f.state.writeFaults }

/-- `free(state)` -/
def freeState (f : Frame) : Frame :=
  { f with state := .released, faults := f.faults ++ f.state.releaseFaults }

end Frame

/-! ## Decoding a request -/

def getOperationCode (request : CString) : UInt8 := request.byteAt 0

/-- Copy what follows the operation code, terminator included, into `data`. -/
def getData (request : CString) (data : Block) : Option Block :=
  (List.range request.strlen).foldlM (fun data i => data.store i (request.byteAt (i + 1))) data

/-- The string that `getData` leaves in a block with room for it. -/
def requestData (request : CString) : CString :=
  CString.ofBytes (((getData request (malloc (request.strlen + 1))).bind Block.text).getD [])

/-! ## The handlers -/

def processUsername (data residue : CString) (f : Frame) : Frame :=
  let f := f.copyState data
  let response :=
    match findNode f.accountDB data with
    | some node =>
      if node.status = statusBlocked then .accountIsBlocked
      else if node.status = statusLoggedIn then .accountIsLoggedIn
      else .usernameSuccess
    | none => .usernameNotFound
  -- every branch prints `state`
  { (f.readState residue).2 with response := some response }

def processBlockAccount (residue : CString) (f : Frame) : Bool × Frame :=
  let (name, f) := f.readState residue
  match findNode f.accountDB name with
  | some node =>
    let counter := node.counter + 1
    let counted := updateNode name (fun node => { node with counter }) f.accountDB
    if counter = 3 then
      let blocked := updateNode name (fun node => { node with status := statusBlocked }) counted
      (true, { f with accountDB := blocked })
    else (false, { f with accountDB := counted })
  | none => (false, f)

def processPassword (data residue : CString) (f : Frame) : Frame :=
  let (name, f) := f.readState residue
  match findNode f.accountDB name with
  | some node =>
    if node.password = data then
      let loggedIn :=
        updateNode name (fun node => { node with status := statusLoggedIn }) f.accountDB
      { f with accountDB := loggedIn, response := some .passwordSuccess }
    else
      let (blocked, f) := processBlockAccount residue f
      { f with response := some (if blocked then .accountIsBlocked else .passwordIncorrect) }
  -- the search ran to the end: nothing is written to the response
  | none => f

/-- The new buffer that `state` is set to is local to the function: the session keeps the pointer
to the released one. -/
def processLogout (residue : CString) (f : Frame) : Frame :=
  let (name, f) := f.readState residue
  let reset (node : Account) : Account :=
    if node.username = name then { node with status := statusDefault } else node
  { f.freeState with accountDB := f.accountDB.map reset, response := some .logoutSuccess }

/-- The result tells the thread whether to go on. -/
def processRequest (request residue : CString) (f : Frame) : Bool × Frame :=
  let code := getOperationCode request
  let data := requestData request
  if code = usernameOperation then (true, processUsername data residue f)
  else if code = passwordOperation then (true, processPassword data residue f)
  else if code = logoutOperation then (true, processLogout residue f)
  else (false, processLogout residue f)

/-! ## The server -/

/-- A session: its name buffer, and whether its thread still receives requests. -/
structure Session where
  state : NameBuf
  live : Bool
  deriving DecidableEq

/-- The shared account list and all sessions. -/
structure Server (ι : Type) where
  accountDB : List Account
  session : ι → Session

/-- What reaches the server. -/
inductive Event (ι : Type)
  /-- `recv` returns the bytes `msg` to session `s`; none at all when the client has closed. -/
  | recv (s : ι) (msg : List UInt8) (residue : CString)
  /-- The connection of `s` is lost: every further `recv` fails. -/
  | lost (s : ι)

/-- What `processRequest` returned, what it wrote to the response buffer, and its faults. -/
structure Outcome where
  processStatus : Bool
  response : Option Reply
  faults : List Fault
  deriving DecidableEq

/-- The reply that is sent. -/
def Outcome.sent (o : Outcome) : Option Reply := if o.processStatus then o.response else none

/-- The request in `buff`, after `buff[ret] = 0`. -/
def receive (msg : List UInt8) : CString := CString.ofBytes msg

variable {ι : Type} [DecidableEq ι]

/-- One turn of the loop of `processRequestThread` in one session. -/
def step (σ : Server ι) : Event ι → Server ι × Option Outcome
  | .lost s => (⟨σ.accountDB, Function.update σ.session s ⟨(σ.session s).state, false⟩⟩, none)
  | .recv s msg residue =>
    if (σ.session s).live then
      let (processStatus, f) :=
        processRequest (receive msg) residue ⟨σ.accountDB, none, (σ.session s).state, []⟩
      (⟨f.accountDB, Function.update σ.session s ⟨f.state, processStatus⟩⟩,
        some ⟨processStatus, f.response, f.faults⟩)
    else (σ, none)

/-- The server with the accounts loaded and no request handled yet. -/
def boot (accountDB : List Account) : Server ι := ⟨accountDB, fun _ => ⟨.unwritten, true⟩⟩

end OnlineCaro
