import OnlineCaro.Lib.Allocation
import OnlineCaro.Server.History

/-!
# The buffers of all threads in one memory

The name buffer, the response and the data of a request are blocks that `malloc` hands out to any
thread, and only `processLogout` releases one: the thread keeps its pointer to it, and the address
may be handed out again. Every event carries the addresses that `malloc` returns in it; a buffer has
room for every string.

* `Memory`, `bufferAt`: the blocks, and what a pointer finds.
* `processUsername`, ..., `processRequest`: the handlers of the source, on pointers.
* `Pointers.step`: the threads, with their connections.
* `Shows`, `Does`, **`processRequest_does`**: with a name buffer of its own a request does what it
  does to the frame of the model.
-/

namespace OnlineCaro

open CMem Allocation

namespace Pointers

/-! ## Memory -/

/-- The list, the blocks of all threads, and the faulty accesses so far. -/
structure Memory where
  accountDB : List Account
  blocks : Blocks CString
  faults : List Fault

/-- What a pointer finds. -/
def bufferAt (blocks : Blocks CString) (p : ℕ) : NameBuf :=
  match blocks p with
  | none => .released
  | some none => .unwritten
  | some (some s) => .holds s

namespace Memory

/-- Read the string at `p`. -/
def string (p : ℕ) (residue : CString) (m : Memory) : CString × Memory :=
  ((bufferAt m.blocks p).read residue,
    { m with faults := m.faults ++ (bufferAt m.blocks p).readFaults })

/-- `strcpy` to `p` -/
def strcpy (p : ℕ) (s : CString) (m : Memory) : Memory :=
  { m with blocks := store p s m.blocks
           faults := m.faults ++ (bufferAt m.blocks p).writeFaults }

/-- `free(p)` -/
def free (p : ℕ) (m : Memory) : Memory :=
  { m with blocks := Allocation.free p m.blocks
           faults := m.faults ++ (bufferAt m.blocks p).releaseFaults }

/-- `malloc`, which returns `p` -/
def malloc (p : ℕ) (m : Memory) : Memory := { m with blocks := Allocation.malloc p m.blocks }

section Fields

variable (p : ℕ) (s : CString) (m : Memory)

@[simp] theorem string_blocks : (m.string p s).2.blocks = m.blocks := rfl

@[simp] theorem strcpy_accountDB : (m.strcpy p s).accountDB = m.accountDB := rfl

@[simp] theorem strcpy_blocks : (m.strcpy p s).blocks = store p s m.blocks := rfl

@[simp] theorem strcpy_faults :
    (m.strcpy p s).faults = m.faults ++ (bufferAt m.blocks p).writeFaults := rfl

@[simp] theorem free_blocks : (m.free p).blocks = Allocation.free p m.blocks := rfl

@[simp] theorem malloc_blocks : (m.malloc p).blocks = Allocation.malloc p m.blocks := rfl

end Fields

end Memory

/-- The string of a reply code. -/
def text (r : Reply) : CString := CString.ofAscii r.code

/-! ## The handlers -/

def processUsername (data response state : ℕ) (residue : CString) (m : Memory) : Memory :=
  let (name, m) := m.string data residue
  let m := m.strcpy state name
  let reply :=
    match findNode m.accountDB name with
    | some node =>
      if node.status = statusBlocked then .accountIsBlocked
      else if node.status = statusLoggedIn then .accountIsLoggedIn
      else .usernameSuccess
    | none => .usernameNotFound
  -- every branch prints `state`
  (m.string state residue).2.strcpy response (text reply)

def processBlockAccount (state : ℕ) (residue : CString) (m : Memory) : Bool × Memory :=
  let (name, m) := m.string state residue
  match findNode m.accountDB name with
  | some node =>
    let counter := node.counter + 1
    let counted := updateNode name (fun node => { node with counter }) m.accountDB
    if counter = 3 then
      let blocked := updateNode name (fun node => { node with status := statusBlocked }) counted
      (true, { m with accountDB := blocked })
    else (false, { m with accountDB := counted })
  | none => (false, m)

def processPassword (data response state : ℕ) (residue : CString) (m : Memory) : Memory :=
  let (password, m) := m.string data residue
  let (name, m) := m.string state residue
  match findNode m.accountDB name with
  | some node =>
    if node.password = password then
      let loggedIn :=
        updateNode name (fun node => { node with status := statusLoggedIn }) m.accountDB
      { m with accountDB := loggedIn }.strcpy response (text .passwordSuccess)
    else
      let (blocked, m) := processBlockAccount state residue m
      m.strcpy response (text (if blocked then .accountIsBlocked else .passwordIncorrect))
  | none => m

/-- The pointer to the new block at `fresh` is lost with the return. -/
def processLogout (response state fresh : ℕ) (residue : CString) (m : Memory) : Memory :=
  let (name, m) := m.string state residue
  let reset (node : Account) : Account :=
    if node.username = name then { node with status := statusDefault } else node
  let m := ({ m with accountDB := m.accountDB.map reset }.free state).malloc fresh
  m.strcpy response (text .logoutSuccess)

def processRequest (request : CString) (data response state fresh : ℕ) (residue : CString)
    (m : Memory) : Bool × Memory :=
  let code := getOperationCode request
  let m := (m.malloc data).strcpy data (requestData request)
  if code = usernameOperation then (true, processUsername data response state residue m)
  else if code = passwordOperation then (true, processPassword data response state residue m)
  else if code = logoutOperation then (true, processLogout response state fresh residue m)
  else (false, processLogout response state fresh residue m)

/-! ## The threads -/

/-- The variables of a connection thread: its pointer, and whether it is in its loop. -/
structure Connection where
  state : ℕ
  looping : Bool

/-- The shared list, the blocks, and the threads that have been started. -/
structure State (ι : Type) where
  accountDB : List Account
  blocks : Blocks CString
  connection : ι → Option Connection

/-- What happens in the server, with the addresses that `malloc` returns. -/
inductive Event (ι : Type)
  /-- The thread of `s` starts, with a name buffer. -/
  | accept (s : ι) (state : ℕ)
  /-- `recv` returns the bytes `msg`; `fresh` is for the new block of `processLogout`. -/
  | recv (s : ι) (msg : List UInt8) (residue : CString) (response data fresh : ℕ)
  /-- The connection of `s` is lost. -/
  | lost (s : ι)

/-- What the thread of `session` has sent, and the faults of its request. -/
structure Exchange (ι : Type) where
  session : ι
  sent : Option CString
  faults : List Fault
  deriving DecidableEq

variable {ι : Type} [DecidableEq ι]

/-- One step of a thread. -/
def step (x : State ι) : Event ι → State ι × Option (Exchange ι)
  | .accept s state =>
    match x.connection s with
    | some _ => (x, none)
    | none =>
      (⟨x.accountDB, malloc state x.blocks, Function.update x.connection s (some ⟨state, true⟩)⟩,
        none)
  | .recv s msg residue response data fresh =>
    match x.connection s with
    | some ⟨state, true⟩ =>
      let m := Memory.malloc response ⟨x.accountDB, x.blocks, []⟩
      let (processStatus, m) := processRequest (receive msg) data response state fresh residue m
      (⟨m.accountDB, m.blocks, Function.update x.connection s (some ⟨state, processStatus⟩)⟩,
        some ⟨s, if processStatus then (m.blocks response).join else none, m.faults⟩)
    | _ => (x, none)
  | .lost s =>
    (⟨x.accountDB, x.blocks, Function.update x.connection s
      ((x.connection s).map fun c => ⟨c.state, false⟩)⟩, none)

/-- The server before the first connection. -/
def listening (accountDB : List Account) : State ι := ⟨accountDB, fun _ => none, fun _ => none⟩

/-! ## One request -/

section Request

/-- The memory as a request with the name buffer at `state` and the response at `response` sees it;
`rest` is all the rest. -/
structure Shows (state response : ℕ) (rest : Blocks CString) (m : Memory) (f : Frame) : Prop where
  accountDB : m.accountDB = f.accountDB
  buffer : bufferAt m.blocks state = f.state
  reply : m.blocks response = some (f.response.map text)
  faults : m.faults = f.faults
  others : ∀ p, p ≠ state → p ≠ response → m.blocks p = rest p

variable {data response state fresh : ℕ} {rest : Blocks CString} {m : Memory} {f : Frame}
  {value residue : CString}

theorem bufferAt_store (blocks : Blocks CString) (p : ℕ) (s : CString) :
    bufferAt (store p s blocks) p = (bufferAt blocks p).write s := by
  unfold bufferAt
  rw [store_self]
  rcases blocks p with _ | _ | _ <;> rfl

theorem bufferAt_congr {blocks blocks' : Blocks CString} {p : ℕ} (h : blocks p = blocks' p) :
    bufferAt blocks p = bufferAt blocks' p := by
  rw [bufferAt, bufferAt, h]

theorem Shows.string (h : Shows state response rest m f) (residue : CString) :
    (m.string state residue).1 = (f.readState residue).1 ∧
      Shows state response rest (m.string state residue).2 (f.readState residue).2 := by
  unfold Memory.string Frame.readState
  rw [h.buffer, h.faults]
  exact ⟨rfl, h.accountDB, h.buffer, h.reply, rfl, h.others⟩

theorem Shows.string_data (h : Shows state response rest m f) (hs : data ≠ state)
    (hr : data ≠ response) (hd : rest data = some (some value)) (residue : CString) :
    m.string data residue = (value, m) := by
  have hbuf : bufferAt m.blocks data = .holds value := by
    rw [bufferAt, h.others data hs hr, hd]
  rw [Memory.string, hbuf, NameBuf.readFaults, List.append_nil]
  rfl

theorem Shows.strcpy_state (h : Shows state response rest m f) (hne : state ≠ response)
    (name : CString) : Shows state response rest (m.strcpy state name) (f.copyState name) where
  accountDB := h.accountDB
  buffer := by
    rw [Memory.strcpy_blocks, bufferAt_store, h.buffer]
    rfl
  reply := by
    rw [Memory.strcpy_blocks, store_of_ne (Ne.symm hne)]
    exact h.reply
  faults := by
    rw [Memory.strcpy_faults, h.faults, h.buffer]
    rfl
  others p hs hr := by
    rw [Memory.strcpy_blocks, store_of_ne hs]
    exact h.others p hs hr

theorem Shows.strcpy_response (h : Shows state response rest m f) (hne : state ≠ response)
    (r : Reply) :
    Shows state response rest (m.strcpy response (text r)) { f with response := some r } where
  accountDB := h.accountDB
  buffer := (bufferAt_congr (store_of_ne hne)).trans h.buffer
  reply := by
    rw [Memory.strcpy_blocks, store_self, h.reply]
    rfl
  faults := by
    have hlive : (bufferAt m.blocks response).writeFaults = [] := by
      rw [bufferAt, h.reply]
      cases f.response <;> rfl
    rw [Memory.strcpy_faults, hlive, List.append_nil]
    exact h.faults
  others p hs hr := by
    rw [Memory.strcpy_blocks, store_of_ne hr]
    exact h.others p hs hr

theorem Shows.update (h : Shows state response rest m f) (db : List Account) :
    Shows state response rest { m with accountDB := db } { f with accountDB := db } :=
  ⟨rfl, h.buffer, h.reply, h.faults, h.others⟩

theorem processUsername_shows (h : Shows state response rest m f) (hne : state ≠ response)
    (hs : data ≠ state) (hr : data ≠ response) (hd : rest data = some (some value)) :
    Shows state response rest (processUsername data response state residue m)
      (OnlineCaro.processUsername value residue f) := by
  unfold processUsername
  rw [h.string_data hs hr hd]
  have hcopy := (h.strcpy_state hne value)
  have hprint := (hcopy.string residue).2.strcpy_response hne
  dsimp only
  rw [hcopy.accountDB]
  exact hprint _

theorem processBlockAccount_shows (h : Shows state response rest m f) (residue : CString) :
    (processBlockAccount state residue m).1 = (OnlineCaro.processBlockAccount residue f).1 ∧
      Shows state response rest (processBlockAccount state residue m).2
        (OnlineCaro.processBlockAccount residue f).2 := by
  obtain ⟨hname, hread⟩ := h.string residue
  unfold processBlockAccount OnlineCaro.processBlockAccount
  dsimp only
  rw [hname, hread.accountDB]
  cases findNode (f.readState residue).2.accountDB (f.readState residue).1 with
  | none => exact ⟨rfl, hread⟩
  | some node =>
    dsimp only
    split_ifs
    · exact ⟨rfl, hread.update _⟩
    · exact ⟨rfl, hread.update _⟩

theorem processPassword_shows (h : Shows state response rest m f) (hne : state ≠ response)
    (hs : data ≠ state) (hr : data ≠ response) (hd : rest data = some (some value)) :
    Shows state response rest (processPassword data response state residue m)
      (OnlineCaro.processPassword value residue f) := by
  unfold processPassword OnlineCaro.processPassword
  rw [h.string_data hs hr hd]
  obtain ⟨hname, hread⟩ := h.string residue
  dsimp only
  rw [hname, hread.accountDB]
  cases findNode (f.readState residue).2.accountDB (f.readState residue).1 with
  | none => exact hread
  | some node =>
    dsimp only
    by_cases hp : node.password = value
    · rw [if_pos hp, if_pos hp]
      exact (hread.update _).strcpy_response hne _
    · rw [if_neg hp, if_neg hp]
      obtain ⟨hblocked, hblock⟩ := processBlockAccount_shows hread residue
      rw [hblocked]
      exact hblock.strcpy_response hne _

/-- What a request leaves: a logout takes the name buffer away and leaves a block at `fresh`. -/
structure Does (op : Operation) (state response fresh : ℕ) (rest : Blocks CString) (m : Memory)
    (f : Frame) : Prop where
  accountDB : m.accountDB = f.accountDB
  buffer : ¬ op.LogsOut → bufferAt m.blocks state = f.state
  reply : m.blocks response = some (f.response.map text)
  faults : m.faults = f.faults
  others : ∀ p, p ≠ state → p ≠ response → (op.LogsOut → p ≠ fresh) → m.blocks p = rest p

theorem Shows.does (h : Shows state response rest m f) (op : Operation) (fresh : ℕ) :
    Does op state response fresh rest m f :=
  ⟨h.accountDB, fun _ => h.buffer, h.reply, h.faults, fun p hs hr _ => h.others p hs hr⟩

theorem processLogout_does {op : Operation} (h : Shows state response rest m f)
    (hne : state ≠ response) (hfresh : fresh ≠ response) (hop : op.LogsOut) :
    Does op state response fresh rest (processLogout response state fresh residue m)
      (OnlineCaro.processLogout residue f) := by
  obtain ⟨hname, hread⟩ := h.string residue
  have hreply : (m.string state residue).2.blocks response = some (f.response.map text) :=
    hread.reply
  have hlive : bufferAt (Allocation.malloc fresh (Allocation.free state
      (m.string state residue).2.blocks)) response = bufferAt m.blocks response :=
    bufferAt_congr ((malloc_of_ne (Ne.symm hfresh)).trans (free_of_ne (Ne.symm hne)))
  have hwrite : (bufferAt m.blocks response).writeFaults = [] := by
    rw [bufferAt, h.reply]
    cases f.response <;> rfl
  unfold processLogout OnlineCaro.processLogout
  dsimp only
  rw [hname, hread.accountDB]
  refine ⟨rfl, fun hno => absurd hop hno, ?_, ?_, fun p hs hr hf => ?_⟩
  · rw [Memory.strcpy_blocks, store_self, Memory.malloc_blocks, malloc_of_ne (Ne.symm hfresh),
      Memory.free_blocks, free_of_ne (Ne.symm hne), hreply]
    rfl
  · show (_ ++ (bufferAt (m.string state residue).2.blocks state).releaseFaults) ++
      (bufferAt (Allocation.malloc fresh (Allocation.free state
        (m.string state residue).2.blocks)) response).writeFaults = _
    rw [hlive, hwrite, List.append_nil, hread.buffer, hread.faults]
    rfl
  · rw [Memory.strcpy_blocks, store_of_ne hr, Memory.malloc_blocks, malloc_of_ne (hf hop),
      Memory.free_blocks, free_of_ne hs]
    exact hread.others p hs hr

theorem processRequest_eq (request : CString) (m : Memory) :
    processRequest request data response state fresh residue m =
      match operation request with
      | .username _ => (true, processUsername data response state residue
          ((m.malloc data).strcpy data (requestData request)))
      | .password _ => (true, processPassword data response state residue
          ((m.malloc data).strcpy data (requestData request)))
      | .logout => (true, processLogout response state fresh residue
          ((m.malloc data).strcpy data (requestData request)))
      | .clientOut => (false, processLogout response state fresh residue
          ((m.malloc data).strcpy data (requestData request))) := by
  simp only [processRequest, operation]
  split_ifs <;> rfl

theorem operation_data {request value : CString}
    (h : operation request = .username value ∨ operation request = .password value) :
    requestData request = value := by
  unfold operation at h
  split_ifs at h <;> simp_all

/-- **A request on pointers.** -/
theorem processRequest_does {request : CString} {x : Blocks CString} {buf : NameBuf}
    (residue : CString) (db : List Account) (hbuf : bufferAt x state = buf) (hlive : x state ≠ none)
    (hresponse : x response = none) (hdata : Allocation.malloc response x data = none)
    (hfresh : (operation request).LogsOut → fresh ≠ response) :
    (processRequest request data response state fresh residue
        (Memory.malloc response ⟨db, x, []⟩)).1 =
      (OnlineCaro.processRequest request residue ⟨db, none, buf, []⟩).1 ∧
    Does (operation request) state response fresh
      (store data (requestData request) (Allocation.malloc data x))
      (processRequest request data response state fresh residue
        (Memory.malloc response ⟨db, x, []⟩)).2
      (OnlineCaro.processRequest request residue ⟨db, none, buf, []⟩).2 := by
  have hne : state ≠ response := fun h => hlive (h ▸ hresponse)
  have hr : data ≠ response := by
    rintro rfl
    rw [malloc_self] at hdata
    cases hdata
  have hs : data ≠ state := by
    rintro rfl
    rw [malloc_of_ne hr] at hdata
    exact hlive hdata
  have hd : store data (requestData request) (Allocation.malloc data x) data =
      some (some (requestData request)) := by
    rw [store_self, malloc_self]
    rfl
  have h : Shows state response (store data (requestData request) (Allocation.malloc data x))
      (((Memory.malloc response ⟨db, x, []⟩).malloc data).strcpy data (requestData request))
      ⟨db, none, buf, []⟩ := by
    refine ⟨rfl, ?_, ?_, ?_, fun p hps hpr => ?_⟩
    · refine (bufferAt_congr ?_).trans hbuf
      simp only [Memory.strcpy_blocks, Memory.malloc_blocks]
      rw [store_of_ne (Ne.symm hs), malloc_of_ne (Ne.symm hs), malloc_of_ne hne]
    · simp only [Memory.strcpy_blocks, Memory.malloc_blocks]
      rw [store_of_ne (Ne.symm hr), malloc_of_ne (Ne.symm hr), malloc_self]
      rfl
    · have hnew : bufferAt (Allocation.malloc data (Allocation.malloc response x)) data =
          .unwritten := by rw [bufferAt, malloc_self]
      simp only [Memory.strcpy_faults, Memory.malloc_blocks, hnew]
      rfl
    · simp only [Memory.strcpy_blocks, Memory.malloc_blocks]
      by_cases hp : p = data
      · rw [hp, store_self, store_self, malloc_self, malloc_self]
      · rw [store_of_ne hp, store_of_ne hp, malloc_of_ne hp, malloc_of_ne hp, malloc_of_ne hpr]
  rw [processRequest_eq, OnlineCaro.processRequest_eq]
  cases hop : operation request with
  | username value =>
    rw [operation_data (Or.inl hop)] at hd h ⊢
    exact ⟨rfl, (processUsername_shows h hne hs hr hd).does _ _⟩
  | password value =>
    rw [operation_data (Or.inr hop)] at hd h ⊢
    exact ⟨rfl, (processPassword_shows h hne hs hr hd).does _ _⟩
  | logout => exact ⟨rfl, processLogout_does h hne (hfresh (hop ▸ trivial)) trivial⟩
  | clientOut => exact ⟨rfl, processLogout_does h hne (hfresh (hop ▸ trivial)) trivial⟩

end Request

end Pointers

end OnlineCaro
