import OnlineCaro.Lib.Serial
import OnlineCaro.Lib.Interference
import OnlineCaro.Server.Isolation
import OnlineCaro.Server.Loader

/-!
# The handlers, access by access

The threads of the server share the nodes of `accountDB` and take no lock. Here a handler makes one
access to a field that some handler writes at a time, and any thread may come next; each access by
itself is atomic, and what one thread writes the next access sees. The names, passwords and `next`
pointers that nobody writes after the loader are read together with the access before. An access
through a pointer to no node, or to a field that was never written, is an `AccessFault`.

* `Point`, `Task`: where a handler stands, and the request it works on.
* `Task.access`: the handlers of the source, on the heap of the loader.
* `handlers`, `runThreads`: what every connection thread runs, and all threads under a schedule.
* `Chain`: the addresses of the nodes of a list, and **`IsList.chain`**, **`Chain.isList`**.
* `cellsOf`: a heap with a given list.
-/

namespace OnlineCaro

open CMem StepRun

/-! ## Tasks -/

/-- Where a handler stands: the access that it makes next. A search has a pointer of type `P`, which
may be `NULL`; past the comparison of the names it has a node of type `N`. -/
inductive Point (P N : Type)
  /-- The loop of `processUsername`, and the two tests of `node->status`. -/
  | seekUsername (node : P)
  | testBlocked (node : N)
  | testLoggedIn (node : N)
  /-- The loop of `processPassword`, and `node->status = STATUS_LOGGED_IN`. -/
  | seekPassword (node : P)
  | storeLoggedIn (node : N)
  /-- The loop of `processBlockAccount`, the load, the store and the test of
  `++node->counter == 3`, and `node->status = STATUS_BLOCKED`. -/
  | seekCounter (node : P)
  | loadCounter (node : N)
  | storeCounter (node : N) (counter : Int32)
  | testCounter (node : N)
  | storeBlocked (node : N)
  /-- The loop of `processLogout`, and `node->status = STATUS_DEFAULT`. -/
  | seekLogout (node : P)
  | storeDefault (node : N)
  deriving DecidableEq

/-- A request in progress: what `state` reads as, the operation, and the next access. -/
structure Task (P N : Type) where
  name : CString
  op : Operation
  point : Point P N
  deriving DecidableEq

namespace Task

variable {P N : Type}

/-- The string that the names are compared with. -/
def address (t : Task P N) : CString := t.op.address t.name

/-- The string that the password is compared with. -/
def data (t : Task P N) : CString :=
  match t.op with
  | .username data | .password data => data
  | .logout | .clientOut => .ofBytes []

/-- What `processLogout` has written to the response in the end, if it is sent. -/
def logoutReply (t : Task P N) : Option Reply :=
  match t.op with
  | .clientOut => none
  | _ => some .logoutSuccess

/-- A handler before its first access. -/
def start (accountDB : P) (name : CString) (op : Operation) : Task P N :=
  ⟨name, op, match op with
    | .username _ => .seekUsername accountDB
    | .password _ => .seekPassword accountDB
    | .logout | .clientOut => .seekLogout accountDB⟩

end Task

/-- What `recv` returns to a thread. -/
inductive Arrival
  | recv (msg : List UInt8) (residue : CString)
  | lost

/-- The event of the server that an arrival is. -/
def Arrival.event {ι : Type} (s : ι) : Arrival → Event ι
  | .recv msg residue => .recv s msg residue
  | .lost => .lost s

/-- A session before its first request. -/
def Session.fresh : Session := ⟨.unwritten, true⟩

/-- The part of a request that other threads do not see: what becomes of the name buffer and of the
loop of the thread, and the handler that is called. -/
def Session.accept {P N : Type} (accountDB : P) (own : Session) :
    Arrival → Session × Option (Task P N)
  | .lost => (⟨own.state, false⟩, none)
  | .recv msg residue =>
    if own.live then
      (⟨bufferAfter own.state (operation (receive msg)), liveAfter (operation (receive msg))⟩,
        some (.start accountDB (own.state.read residue) (operation (receive msg))))
    else (own, none)

/-! ## The heap -/

/-- An access that C gives no meaning to. -/
inductive AccessFault
  | noNode
  | unwrittenField
  deriving DecidableEq

namespace Heap

/-- The value of a field that has one. -/
def written {α : Type} : Option α → Except AccessFault α
  | none => .error .unwrittenField
  | some value => .ok value

/-- `*node` -/
def cell (heap : Heap) (node : ℕ) : Except AccessFault AccountCell :=
  match heap[node]? with
  | none => .error .noNode
  | some cell => .ok cell

def username (heap : Heap) (node : ℕ) : Except AccessFault CString := do
  let cell ← heap.cell node
  return .ofBytes (← written (cell.username.bind Block.text))

def password (heap : Heap) (node : ℕ) : Except AccessFault CString := do
  let cell ← heap.cell node
  return .ofBytes (← written (cell.password.bind Block.text))

def status (heap : Heap) (node : ℕ) : Except AccessFault Int32 := do
  written (← heap.cell node).status

def counter (heap : Heap) (node : ℕ) : Except AccessFault Int32 := do
  written (← heap.cell node).counter

def next (heap : Heap) (node : ℕ) : Except AccessFault (Option ℕ) := do
  written (← heap.cell node).next

/-- An assignment to a field of `*node`. -/
def assign (heap : Heap) (node : ℕ) (field : AccountCell → AccountCell) :
    Except AccessFault Heap := do
  return heap.set node (field (← heap.cell node))

def setStatus (heap : Heap) (node : ℕ) (status : Int32) : Except AccessFault Heap :=
  heap.assign node fun cell => { cell with status := some status }

def setCounter (heap : Heap) (node : ℕ) (counter : Int32) : Except AccessFault Heap :=
  heap.assign node fun cell => { cell with counter := some counter }

end Heap

/-! ## The accesses of the handlers -/

/-- A handler after an access: it goes on, or it is done with a reply or without. -/
abbrev Next (P N : Type) := Point P N ⊕ Option Reply

/-- The next access of a handler to the list at `accountDB`. -/
def Task.access (accountDB : Option ℕ) (heap : Heap) (t : Task (Option ℕ) ℕ) :
    Except AccessFault (Heap × Next (Option ℕ) ℕ) :=
  match t.point with
  -- `processUsername`
  | .seekUsername none => return (heap, .inr (some .usernameNotFound))
  | .seekUsername (some node) => do
    if (← heap.username node) = t.address then return (heap, .inl (.testBlocked node))
    else return (heap, .inl (.seekUsername (← heap.next node)))
  | .testBlocked node => do
    if (← heap.status node) = statusBlocked then return (heap, .inr (some .accountIsBlocked))
    else return (heap, .inl (.testLoggedIn node))
  | .testLoggedIn node => do
    if (← heap.status node) = statusLoggedIn then return (heap, .inr (some .accountIsLoggedIn))
    else return (heap, .inr (some .usernameSuccess))
  -- `processPassword`
  | .seekPassword none => return (heap, .inr none)
  | .seekPassword (some node) => do
    if (← heap.username node) = t.address then
      if (← heap.password node) = t.data then return (heap, .inl (.storeLoggedIn node))
      else return (heap, .inl (.seekCounter accountDB))
    else return (heap, .inl (.seekPassword (← heap.next node)))
  | .storeLoggedIn node =>
    return (← heap.setStatus node statusLoggedIn, .inr (some .passwordSuccess))
  -- `processBlockAccount`
  | .seekCounter none => return (heap, .inr (some .passwordIncorrect))
  | .seekCounter (some node) => do
    if (← heap.username node) = t.address then return (heap, .inl (.loadCounter node))
    else return (heap, .inl (.seekCounter (← heap.next node)))
  | .loadCounter node => return (heap, .inl (.storeCounter node (← heap.counter node)))
  | .storeCounter node counter =>
    return (← heap.setCounter node (counter + 1), .inl (.testCounter node))
  | .testCounter node => do
    if (← heap.counter node) = 3 then return (heap, .inl (.storeBlocked node))
    else return (heap, .inr (some .passwordIncorrect))
  | .storeBlocked node =>
    return (← heap.setStatus node statusBlocked, .inr (some .accountIsBlocked))
  -- `processLogout`
  | .seekLogout none => return (heap, .inr t.logoutReply)
  | .seekLogout (some node) => do
    if (← heap.username node) = t.address then return (heap, .inl (.storeDefault node))
    else return (heap, .inl (.seekLogout (← heap.next node)))
  | .storeDefault node => do
    let heap ← heap.setStatus node statusDefault
    return (heap, .inl (.seekLogout (← heap.next node)))

/-- One access of a thread; a fault ends the request. -/
def Task.work (accountDB : Option ℕ) (heap : Heap) (t : Task (Option ℕ) ℕ) :
    Heap × (Task (Option ℕ) ℕ ⊕ Except AccessFault (Option Reply)) :=
  match t.access accountDB heap with
  | .error fault => (heap, .inr (.error fault))
  | .ok (heap, .inl point) => (heap, .inl { t with point })
  | .ok (heap, .inr reply) => (heap, .inr (.ok reply))

/-- What every connection thread runs. -/
def handlers (accountDB : Option ℕ) : Threads.Program Session Arrival Heap (Task (Option ℕ) ℕ)
    (Except AccessFault (Option Reply)) :=
  ⟨Session.accept accountDB, Task.work accountDB⟩

/-- All threads of the server. -/
abbrev ThreadState (ι : Type) := Threads.State ι Session Heap (Task (Option ℕ) ℕ)

/-- The threads with the history of their run. -/
abbrev ThreadConfig (ι : Type) := StepRun.Config (ThreadState ι) (Threads.Input ι Arrival)
  (Option (ι × Except AccessFault (Option Reply)))

/-- The threads before their first request, with the loaded heap. -/
def launch {ι : Type} (heap : Heap) : ThreadState ι := Threads.idle heap fun _ => .fresh

/-- The threads under a schedule. -/
def runThreads {ι : Type} [DecidableEq ι] (accountDB : Option ℕ) (heap : Heap)
    (is : List (Threads.Input ι Arrival)) : ThreadConfig ι :=
  run (Threads.step (handlers accountDB)) (start (launch heap)) is

/-! ## The addresses of the nodes -/

/-- The nodes of the list `db`, in its order, are at `addrs`. -/
structure Chain (heap : Heap) (addrs : List ℕ) (db : List Account) : Prop where
  length : addrs.length = db.length
  node : ∀ {k a}, db[k]? = some a → ∃ node cell, addrs[k]? = some node ∧
    heap[node]? = some cell ∧ cell.Holds a ∧ cell.next = some addrs[k + 1]?

namespace Chain

variable {heap : Heap} {addrs : List ℕ} {db : List Account} {k node : ℕ} {a : Account}

theorem isList_drop (h : Chain heap addrs db) (k : ℕ) : IsList heap addrs[k]? (db.drop k) := by
  induction hn : db.length - k generalizing k with
  | zero =>
    have hk : db.length ≤ k := Nat.sub_eq_zero_iff_le.mp hn
    rw [List.drop_eq_nil_of_le hk]
    exact List.getElem?_eq_none (h.length ▸ hk)
  | succ n ih =>
    have hk : k < db.length := by omega
    obtain ⟨node, cell, haddr, hcell, hholds, hnext⟩ := h.node (List.getElem?_eq_getElem hk)
    rw [List.drop_eq_getElem_cons hk]
    exact ⟨node, cell, _, haddr, hcell, hholds, hnext, ih (k + 1) (by omega)⟩

/-- **The list at the first address.** -/
theorem isList (h : Chain heap addrs db) : IsList heap addrs[0]? db := h.isList_drop 0

/-- A list that ends goes through no node twice. -/
theorem addr_inj (h : Chain heap addrs db) {i j : ℕ} (hi : addrs[i]? = some node)
    (hj : addrs[j]? = some node) : i = j := by
  have hdrop : db.drop i = db.drop j :=
    IsList.unique (hi ▸ h.isList_drop i) (hj ▸ h.isList_drop j)
  have hlen := congrArg List.length hdrop
  rw [List.length_drop, List.length_drop, ← h.length] at hlen
  have hi := (List.getElem?_eq_some_iff.mp hi).1
  have hj := (List.getElem?_eq_some_iff.mp hj).1
  omega

theorem exists_cell (h : Chain heap addrs db) (hk : addrs[k]? = some node) :
    ∃ a cell, db[k]? = some a ∧ heap[node]? = some cell ∧ cell.Holds a ∧
      cell.next = some addrs[k + 1]? := by
  have hlt : k < db.length := h.length ▸ (List.getElem?_eq_some_iff.mp hk).1
  obtain ⟨node', cell, haddr, hcell⟩ := h.node (List.getElem?_eq_getElem hlt)
  obtain rfl := Option.some.inj (haddr.symm.trans hk)
  exact ⟨_, cell, List.getElem?_eq_getElem hlt, hcell⟩

theorem set (h : Chain heap addrs db) (hk : addrs[k]? = some node) {cell : AccountCell}
    (hholds : cell.Holds a) (hnext : cell.next = some addrs[k + 1]?) :
    Chain (heap.set node cell) addrs (db.set k a) := by
  refine ⟨by rw [h.length, List.length_set], fun {j b} hb => ?_⟩
  obtain ⟨_, old, -, hold, -⟩ := h.exists_cell hk
  have hnode : node < heap.length := (List.getElem?_eq_some_iff.mp hold).1
  by_cases hj : k = j
  · subst hj
    have hlt : k < db.length := by
      have := (List.getElem?_eq_some_iff.mp hb).1
      rwa [List.length_set] at this
    rw [List.getElem?_set_self hlt] at hb
    obtain rfl := Option.some.inj hb
    exact ⟨node, cell, hk, List.getElem?_set_self hnode, hholds, hnext⟩
  · rw [List.getElem?_set_ne hj] at hb
    obtain ⟨node', cell', haddr, hcell, hrest⟩ := h.node hb
    refine ⟨node', cell', haddr, ?_, hrest⟩
    have hne : node ≠ node' := by
      rintro rfl
      exact hj (h.addr_inj hk haddr)
    rwa [List.getElem?_set_ne hne]

end Chain

/-- **The addresses of a list.** -/
theorem IsList.chain {heap : Heap} {p : Option ℕ} {db : List Account} (h : IsList heap p db) :
    ∃ addrs, addrs[0]? = p ∧ Chain heap addrs db := by
  induction db generalizing p with
  | nil => exact ⟨[], h.symm, rfl, fun h => nomatch h⟩
  | cons a db ih =>
    obtain ⟨node, cell, next, rfl, hcell, hholds, hnext, hlist⟩ := h
    obtain ⟨addrs, rfl, hchain⟩ := ih hlist
    refine ⟨node :: addrs, rfl, congrArg (· + 1) hchain.length, fun {k b} hb => ?_⟩
    cases k with
    | zero =>
      obtain rfl := Option.some.inj hb
      exact ⟨node, cell, rfl, hcell, hholds, hnext⟩
    | succ k => exact hchain.node hb

/-! ## A heap with a given list -/

/-- A field with a copy of the string. -/
def fieldOf (s : CString) : Block := s.bytes.map some ++ [some 0]

/-- The record `a`, with the pointer `next`. -/
def AccountCell.of (a : Account) (next : Option ℕ) : AccountCell :=
  ⟨some (fieldOf a.username), some (fieldOf a.password), some a.status, some next, some a.counter⟩

/-- The pointer to a list that is stored from the address `node` on. -/
def headOf (node : ℕ) : List Account → Option ℕ
  | [] => none
  | _ => some node

/-- The records one after the other, from the address `node` on. -/
def cellsOf (node : ℕ) : List Account → Heap
  | [] => []
  | a :: db => .of a (headOf (node + 1) db) :: cellsOf (node + 1) db

theorem AccountCell.of_holds (a : Account) (next : Option ℕ) : (AccountCell.of a next).Holds a :=
  ⟨Block.text_append_nul a.username.nulFree [], Block.text_append_nul a.password.nulFree [], rfl,
    rfl⟩

theorem isList_append_cellsOf (heap : Heap) (db : List Account) :
    IsList (heap ++ cellsOf heap.length db) (headOf heap.length db) db := by
  induction db generalizing heap with
  | nil => rfl
  | cons a db ih =>
    have hcell : (heap ++ cellsOf heap.length (a :: db))[heap.length]? =
        some (.of a (headOf (heap.length + 1) db)) := by
      rw [List.getElem?_append_right le_rfl, Nat.sub_self]
      rfl
    refine ⟨heap.length, _, _, rfl, hcell, AccountCell.of_holds a _, rfl, ?_⟩
    have hnext := ih (heap ++ [.of a (headOf (heap.length + 1) db)])
    rwa [List.length_append, List.append_assoc] at hnext

/-- Every list of accounts is the list of some heap. -/
theorem isList_cellsOf (db : List Account) : IsList (cellsOf 0 db) (headOf 0 db) db :=
  isList_append_cellsOf [] db

end OnlineCaro
