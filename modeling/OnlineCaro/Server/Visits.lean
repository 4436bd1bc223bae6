import OnlineCaro.Server.Accesses

/-!
# The handlers on the list of accounts

The same handlers without the heap: a node is its position in the list, an access visits one record,
and nothing can go wrong. The heap of the loader refines this, so that what holds of the visits
under every schedule holds of the accesses.

* `Task.visit`, `Task.walk`, `visitors`: one access to one record, and the threads.
* `Task.At`, **`access_walk`**: an access in the heap is the visit of the record at that address.
* **`handlers_refine`**, `Mirrors`, **`mirrors_run`**: the threads of the server refine the
  visitors.
-/

namespace OnlineCaro

open CMem StepRun Threads

/-! ## Visits -/

/-- The position of the record that is accessed next. -/
def Point.index : Point ℕ ℕ → ℕ
  | .seekUsername k | .testBlocked k | .testLoggedIn k | .seekPassword k | .storeLoggedIn k
  | .seekCounter k | .loadCounter k | .storeCounter k _ | .testCounter k | .storeBlocked k
  | .seekLogout k | .storeDefault k => k

namespace Task

/-- The reply if there is no record at that position. -/
def atEnd (t : Task ℕ ℕ) : Option Reply :=
  match t.point with
  | .seekUsername _ => some .usernameNotFound
  | .seekCounter _ => some .passwordIncorrect
  | .seekLogout _ => t.logoutReply
  | _ => none

/-- One access to the record `node`. -/
def visit (t : Task ℕ ℕ) (node : Account) : Account × Next ℕ ℕ :=
  match t.point with
  | .seekUsername k =>
    (node, .inl (if node.username = t.address then .testBlocked k else .seekUsername (k + 1)))
  | .testBlocked k =>
    (node, if node.status = statusBlocked then .inr (some .accountIsBlocked)
      else .inl (.testLoggedIn k))
  | .testLoggedIn _ =>
    (node, .inr (some
      (if node.status = statusLoggedIn then .accountIsLoggedIn else .usernameSuccess)))
  | .seekPassword k =>
    (node, .inl (if node.username = t.address then
        if node.password = t.data then .storeLoggedIn k else .seekCounter 0
      else .seekPassword (k + 1)))
  | .storeLoggedIn _ => ({ node with status := statusLoggedIn }, .inr (some .passwordSuccess))
  | .seekCounter k =>
    (node, .inl (if node.username = t.address then .loadCounter k else .seekCounter (k + 1)))
  | .loadCounter k => (node, .inl (.storeCounter k node.counter))
  | .storeCounter k counter => ({ node with counter := counter + 1 }, .inl (.testCounter k))
  | .testCounter k =>
    (node, if node.counter = 3 then .inl (.storeBlocked k) else .inr (some .passwordIncorrect))
  | .storeBlocked _ => ({ node with status := statusBlocked }, .inr (some .accountIsBlocked))
  | .seekLogout k =>
    (node, .inl (if node.username = t.address then .storeDefault k else .seekLogout (k + 1)))
  | .storeDefault k => ({ node with status := statusDefault }, .inl (.seekLogout (k + 1)))

/-- One access to the list. -/
def walk (db : List Account) (t : Task ℕ ℕ) : List Account × Next ℕ ℕ :=
  match db[t.point.index]? with
  | none => (db, .inr t.atEnd)
  | some node => (db.set t.point.index (t.visit node).1, (t.visit node).2)

/-- One access of a thread. -/
def walkOn (db : List Account) (t : Task ℕ ℕ) : List Account × (Task ℕ ℕ ⊕ Option Reply) :=
  ((t.walk db).1, (t.walk db).2.map (fun point => { t with point }) id)

end Task

/-- The threads on the list of accounts. -/
def visitors : Program Session Arrival (List Account) (Task ℕ ℕ) (Option Reply) :=
  ⟨Session.accept 0, Task.walkOn⟩

/-- The visitors with the history of their run. -/
abbrev VisitConfig (ι : Type) := StepRun.Config (State ι Session (List Account) (Task ℕ ℕ))
  (Input ι Arrival) (Option (ι × Option Reply))

/-- The visitors under a schedule. -/
def runVisitors {ι : Type} [DecidableEq ι] (db : List Account) (is : List (Input ι Arrival)) :
    VisitConfig ι :=
  run (Threads.step visitors) (start (idle db fun _ => .fresh)) is

section Visit

variable {db : List Account} {t : Task ℕ ℕ} {a : Account}

theorem walk_none (h : db[t.point.index]? = none) : t.walk db = (db, .inr t.atEnd) := by
  rw [Task.walk, h]

theorem walk_some (h : db[t.point.index]? = some a) :
    t.walk db = (db.set t.point.index (t.visit a).1, (t.visit a).2) := by
  rw [Task.walk, h]

theorem walk_cases (db : List Account) (t : Task ℕ ℕ) :
    (db[t.point.index]? = none ∧ t.walk db = (db, .inr t.atEnd)) ∨
      ∃ a, db[t.point.index]? = some a ∧
        t.walk db = (db.set t.point.index (t.visit a).1, (t.visit a).2) := by
  cases h : db[t.point.index]? with
  | none => exact Or.inl ⟨rfl, walk_none h⟩
  | some a => exact Or.inr ⟨a, rfl, walk_some h⟩

theorem work_next {db' : List Account} {t' : Task ℕ ℕ} (h : visitors.work db t = (db', .inl t')) :
    ∃ a point, db[t.point.index]? = some a ∧ (t.visit a).2 = .inl point ∧
      t' = { t with point } ∧ db' = db.set t.point.index (t.visit a).1 := by
  obtain ⟨hdb, hrest⟩ := Prod.mk.inj h
  rcases walk_cases db t with ⟨-, hw⟩ | ⟨a, ha, hw⟩ <;> rw [hw] at hrest hdb
  · cases hrest
  · cases hv : (t.visit a).2 with
    | inr r => rw [hv] at hrest; cases hrest
    | inl point =>
      rw [hv] at hrest
      exact ⟨a, point, ha, hv, (Sum.inl.inj hrest).symm, hdb.symm⟩

theorem work_done {db' : List Account} {r : Option Reply}
    (h : visitors.work db t = (db', .inr r)) :
    (db[t.point.index]? = none ∧ db' = db ∧ r = t.atEnd) ∨
      ∃ a, db[t.point.index]? = some a ∧ (t.visit a).2 = .inr r ∧
        db' = db.set t.point.index (t.visit a).1 := by
  obtain ⟨hdb, hrest⟩ := Prod.mk.inj h
  rcases walk_cases db t with ⟨hnone, hw⟩ | ⟨a, ha, hw⟩ <;> rw [hw] at hrest hdb
  · exact Or.inl ⟨hnone, hdb.symm, (Sum.inr.inj hrest).symm⟩
  · cases hv : (t.visit a).2 with
    | inl point => rw [hv] at hrest; cases hrest
    | inr r' =>
      rw [hv] at hrest
      obtain rfl : r' = r := Sum.inr.inj hrest
      exact Or.inr ⟨a, ha, hv, hdb.symm⟩

theorem visit_username (t : Task ℕ ℕ) (a : Account) : (t.visit a).1.username = a.username := by
  unfold Task.visit
  split <;> rfl

theorem visit_password (t : Task ℕ ℕ) (a : Account) : (t.visit a).1.password = a.password := by
  unfold Task.visit
  split <;> rfl

end Visit

/-! ## Reading and writing a node of the list -/

section Node

variable {heap : Heap} {addrs : List ℕ} {db : List Account} {k node : ℕ} {a : Account}
  {cell : AccountCell}

theorem CString.ofBytes_bytes (s : CString) : CString.ofBytes s.bytes = s :=
  CString.ext (CString.bytes_ofBytes s.nulFree)

theorem Heap.cell_eq (h : heap[node]? = some cell) : heap.cell node = .ok cell := by
  rw [Heap.cell, h]

theorem Chain.holds (h : Chain heap addrs db) (hk : addrs[k]? = some node) (ha : db[k]? = some a) :
    ∃ cell, heap[node]? = some cell ∧ cell.Holds a ∧ cell.next = some addrs[k + 1]? := by
  obtain ⟨b, cell, hb, hcell, hholds, hnext⟩ := h.exists_cell hk
  obtain rfl := Option.some.inj (hb.symm.trans ha)
  exact ⟨cell, hcell, hholds, hnext⟩

theorem Chain.username (h : Chain heap addrs db) (hk : addrs[k]? = some node)
    (ha : db[k]? = some a) : heap.username node = .ok a.username := by
  obtain ⟨cell, hcell, hholds, -⟩ := h.holds hk ha
  simp only [Heap.username, Heap.cell_eq hcell, hholds.username, Heap.written, bind, Except.bind,
    pure, Except.pure, CString.ofBytes_bytes]

theorem Chain.password (h : Chain heap addrs db) (hk : addrs[k]? = some node)
    (ha : db[k]? = some a) : heap.password node = .ok a.password := by
  obtain ⟨cell, hcell, hholds, -⟩ := h.holds hk ha
  simp only [Heap.password, Heap.cell_eq hcell, hholds.password, Heap.written, bind, Except.bind,
    pure, Except.pure, CString.ofBytes_bytes]

theorem Chain.status (h : Chain heap addrs db) (hk : addrs[k]? = some node)
    (ha : db[k]? = some a) : heap.status node = .ok a.status := by
  obtain ⟨cell, hcell, hholds, -⟩ := h.holds hk ha
  simp only [Heap.status, Heap.cell_eq hcell, hholds.status, Heap.written, bind, Except.bind]

theorem Chain.counter (h : Chain heap addrs db) (hk : addrs[k]? = some node)
    (ha : db[k]? = some a) : heap.counter node = .ok a.counter := by
  obtain ⟨cell, hcell, hholds, -⟩ := h.holds hk ha
  simp only [Heap.counter, Heap.cell_eq hcell, hholds.counter, Heap.written, bind, Except.bind]

theorem Chain.next (h : Chain heap addrs db) (hk : addrs[k]? = some node) :
    heap.next node = .ok addrs[k + 1]? := by
  obtain ⟨a, cell, -, hcell, -, hnext⟩ := h.exists_cell hk
  simp only [Heap.next, Heap.cell_eq hcell, hnext, Heap.written, bind, Except.bind]

theorem Chain.setStatus (h : Chain heap addrs db) (hk : addrs[k]? = some node)
    (ha : db[k]? = some a) (status : Int32) : ∃ heap', heap.setStatus node status = .ok heap' ∧
      Chain heap' addrs (db.set k { a with status }) := by
  obtain ⟨cell, hcell, hholds, hnext⟩ := h.holds hk ha
  refine ⟨heap.set node { cell with status := some status }, ?_, h.set hk ?_ hnext⟩
  · simp only [Heap.setStatus, Heap.assign, Heap.cell_eq hcell, bind, Except.bind, pure,
      Except.pure]
  · exact ⟨hholds.username, hholds.password, rfl, hholds.counter⟩

theorem Chain.setCounter (h : Chain heap addrs db) (hk : addrs[k]? = some node)
    (ha : db[k]? = some a) (counter : Int32) : ∃ heap', heap.setCounter node counter = .ok heap' ∧
      Chain heap' addrs (db.set k { a with counter }) := by
  obtain ⟨cell, hcell, hholds, hnext⟩ := h.holds hk ha
  refine ⟨heap.set node { cell with counter := some counter }, ?_, h.set hk ?_ hnext⟩
  · simp only [Heap.setCounter, Heap.assign, Heap.cell_eq hcell, bind, Except.bind, pure,
      Except.pure]
  · exact ⟨hholds.username, hholds.password, hholds.status, rfl⟩

end Node

/-! ## Refinement -/

/-- An access in the heap, and the access to the record at that address. -/
inductive Point.At (addrs : List ℕ) : Point (Option ℕ) ℕ → Point ℕ ℕ → Prop
  | seekUsername (k : ℕ) : At addrs (.seekUsername addrs[k]?) (.seekUsername k)
  | testBlocked {k node : ℕ} (hk : addrs[k]? = some node) :
    At addrs (.testBlocked node) (.testBlocked k)
  | testLoggedIn {k node : ℕ} (hk : addrs[k]? = some node) :
    At addrs (.testLoggedIn node) (.testLoggedIn k)
  | seekPassword (k : ℕ) : At addrs (.seekPassword addrs[k]?) (.seekPassword k)
  | storeLoggedIn {k node : ℕ} (hk : addrs[k]? = some node) :
    At addrs (.storeLoggedIn node) (.storeLoggedIn k)
  | seekCounter (k : ℕ) : At addrs (.seekCounter addrs[k]?) (.seekCounter k)
  | loadCounter {k node : ℕ} (hk : addrs[k]? = some node) :
    At addrs (.loadCounter node) (.loadCounter k)
  | storeCounter {k node : ℕ} (hk : addrs[k]? = some node) (counter : Int32) :
    At addrs (.storeCounter node counter) (.storeCounter k counter)
  | testCounter {k node : ℕ} (hk : addrs[k]? = some node) :
    At addrs (.testCounter node) (.testCounter k)
  | storeBlocked {k node : ℕ} (hk : addrs[k]? = some node) :
    At addrs (.storeBlocked node) (.storeBlocked k)
  | seekLogout (k : ℕ) : At addrs (.seekLogout addrs[k]?) (.seekLogout k)
  | storeDefault {k node : ℕ} (hk : addrs[k]? = some node) :
    At addrs (.storeDefault node) (.storeDefault k)

/-- The same request at the same record. -/
structure Task.At (addrs : List ℕ) (t : Task (Option ℕ) ℕ) (t' : Task ℕ ℕ) : Prop where
  name : t.name = t'.name
  op : t.op = t'.op
  point : t.point.At addrs t'.point

section Refinement

variable {heap : Heap} {addrs : List ℕ} {db : List Account} {t : Task (Option ℕ) ℕ} {t' : Task ℕ ℕ}

theorem Task.At.address (h : t.At addrs t') : t.address = t'.address := by
  rw [Task.address, Task.address, h.name, h.op]

theorem Task.At.data (h : t.At addrs t') : t.data = t'.data := by
  rw [Task.data, Task.data, h.op]

theorem Task.At.logoutReply (h : t.At addrs t') : t.logoutReply = t'.logoutReply := by
  rw [Task.logoutReply, Task.logoutReply, h.op]

/-- What an access in the heap has to do. -/
def Task.Does (addrs : List ℕ) (x : Except AccessFault (Heap × Next (Option ℕ) ℕ))
    (y : List Account × Next ℕ ℕ) : Prop :=
  ∃ heap next, x = .ok (heap, next) ∧ Chain heap addrs y.1 ∧
    Sum.LiftRel (Point.At addrs) (· = ·) next y.2

theorem Chain.exists_record (hc : Chain heap addrs db) {k node : ℕ} (hk : addrs[k]? = some node) :
    ∃ a, db[k]? = some a := by
  obtain ⟨a, -, ha, -⟩ := hc.exists_cell hk
  exact ⟨a, ha⟩

section Does

variable {x : Except AccessFault (Heap × Next (Option ℕ) ℕ)} {next : Next (Option ℕ) ℕ}
  {u : Task ℕ ℕ} {a : Account} {node : ℕ}

theorem Task.Does.ended (hc : Chain heap addrs db) (hk : addrs[u.point.index]? = none)
    (hx : x = .ok (heap, .inr u.atEnd)) : Task.Does addrs x (u.walk db) := by
  have hend : db[u.point.index]? = none := by
    rw [List.getElem?_eq_none_iff] at hk ⊢
    exact hc.length ▸ hk
  rw [walk_none hend]
  exact ⟨heap, _, hx, hc, .inr rfl⟩

theorem Task.Does.write {heap' : Heap} (ha : db[u.point.index]? = some a)
    (hc : Chain heap' addrs (db.set u.point.index (u.visit a).1)) (hx : x = .ok (heap', next))
    (hnext : Sum.LiftRel (Point.At addrs) (· = ·) next (u.visit a).2) :
    Task.Does addrs x (u.walk db) := by
  rw [walk_some ha]
  exact ⟨heap', next, hx, hc, hnext⟩

theorem Task.Does.read (hc : Chain heap addrs db) (ha : db[u.point.index]? = some a)
    (hv : (u.visit a).1 = a) (hx : x = .ok (heap, next))
    (hnext : Sum.LiftRel (Point.At addrs) (· = ·) next (u.visit a).2) :
    Task.Does addrs x (u.walk db) := by
  refine .write ha ?_ hx hnext
  obtain ⟨hk, hget⟩ := List.getElem?_eq_some_iff.mp ha
  rwa [hv, ← hget, List.set_getElem_self]

/-- One node of a search. -/
theorem Task.Does.seek (hc : Chain heap addrs db) (hk : addrs[u.point.index]? = some node)
    {found : Except AccessFault (Heap × Next (Option ℕ) ℕ)} {go : Option ℕ → Point (Option ℕ) ℕ}
    {here : Account → Point ℕ ℕ} {there : Point ℕ ℕ}
    (hv : ∀ a, u.visit a = (a, .inl (if a.username = u.address then here a else there)))
    (hhere : ∀ a, db[u.point.index]? = some a →
      ∃ point, found = .ok (heap, .inl point) ∧ point.At addrs (here a))
    (hthere : (go addrs[u.point.index + 1]?).At addrs there) :
    Task.Does addrs (do
        if (← heap.username node) = u.address then found
        else return (heap, .inl (go (← heap.next node))))
      (u.walk db) := by
  obtain ⟨a, ha⟩ := hc.exists_record hk
  simp only [hc.username hk ha, hc.next hk, bind, Except.bind, pure, Except.pure]
  by_cases hn : a.username = u.address
  · obtain ⟨point, hfound, hat⟩ := hhere a ha
    refine .read hc ha (by rw [hv]) ((if_pos hn).trans hfound) ?_
    rw [hv, if_pos hn]
    exact .inl hat
  · refine .read hc ha (by rw [hv]) (if_neg hn) ?_
    rw [hv, if_neg hn]
    exact .inl hthere

end Does

/-- **An access is a visit.** -/
theorem access_walk (hc : Chain heap addrs db) (h : t.At addrs t') :
    Task.Does addrs (t.access addrs[0]? heap) (t'.walk db) := by
  obtain ⟨name, op, point⟩ := t
  obtain ⟨name', op', point'⟩ := t'
  obtain ⟨rfl, rfl, hp⟩ := h
  simp only at hp
  cases hp with
  | seekUsername k =>
    cases hk : addrs[k]? with
    | none => exact .ended (u := ⟨name, op, .seekUsername k⟩) hc hk rfl
    | some node =>
      exact .seek (u := ⟨name, op, .seekUsername k⟩) hc hk (fun _ => rfl)
        (fun _ _ => ⟨_, rfl, .testBlocked hk⟩) (.seekUsername (k + 1))
  | @testBlocked k node hk =>
    obtain ⟨a, ha⟩ := hc.exists_record hk
    simp only [Task.access, hc.status hk ha]
    by_cases hs : a.status = statusBlocked
    · refine .read (u := ⟨name, op, .testBlocked k⟩) hc ha rfl (if_pos hs) ?_
      simp only [Task.visit, if_pos hs]
      exact .inr rfl
    · refine .read (u := ⟨name, op, .testBlocked k⟩) hc ha rfl (if_neg hs) ?_
      simp only [Task.visit, if_neg hs]
      exact .inl (.testLoggedIn hk)
  | @testLoggedIn k node hk =>
    obtain ⟨a, ha⟩ := hc.exists_record hk
    simp only [Task.access, hc.status hk ha]
    by_cases hs : a.status = statusLoggedIn
    · refine .read (u := ⟨name, op, .testLoggedIn k⟩) hc ha rfl (if_pos hs) ?_
      simp only [Task.visit, if_pos hs]
      exact .inr rfl
    · refine .read (u := ⟨name, op, .testLoggedIn k⟩) hc ha rfl (if_neg hs) ?_
      simp only [Task.visit, if_neg hs]
      exact .inr rfl
  | seekPassword k =>
    cases hk : addrs[k]? with
    | none => exact .ended (u := ⟨name, op, .seekPassword k⟩) hc hk rfl
    | some node =>
      refine .seek (u := ⟨name, op, .seekPassword k⟩) hc hk (fun _ => rfl) (fun a ha => ?_)
        (.seekPassword (k + 1))
      simp only [hc.password hk ha]
      split_ifs with hpass
      · exact ⟨_, if_pos hpass, .storeLoggedIn hk⟩
      · exact ⟨_, if_neg hpass, .seekCounter 0⟩
  | @storeLoggedIn k node hk =>
    obtain ⟨a, ha⟩ := hc.exists_record hk
    obtain ⟨heap', hset, hc'⟩ := hc.setStatus hk ha statusLoggedIn
    simp only [Task.access, hset]
    exact .write (u := ⟨name, op, .storeLoggedIn k⟩) ha hc' rfl (.inr rfl)
  | seekCounter k =>
    cases hk : addrs[k]? with
    | none => exact .ended (u := ⟨name, op, .seekCounter k⟩) hc hk rfl
    | some node =>
      exact .seek (u := ⟨name, op, .seekCounter k⟩) hc hk (fun _ => rfl)
        (fun _ _ => ⟨_, rfl, .loadCounter hk⟩) (.seekCounter (k + 1))
  | @loadCounter k node hk =>
    obtain ⟨a, ha⟩ := hc.exists_record hk
    simp only [Task.access, hc.counter hk ha]
    exact .read (u := ⟨name, op, .loadCounter k⟩) hc ha rfl rfl (.inl (.storeCounter hk _))
  | @storeCounter k node hk counter =>
    obtain ⟨a, ha⟩ := hc.exists_record hk
    obtain ⟨heap', hset, hc'⟩ := hc.setCounter hk ha (counter + 1)
    simp only [Task.access, hset]
    exact .write (u := ⟨name, op, .storeCounter k counter⟩) ha hc' rfl (.inl (.testCounter hk))
  | @testCounter k node hk =>
    obtain ⟨a, ha⟩ := hc.exists_record hk
    simp only [Task.access, hc.counter hk ha]
    by_cases h3 : a.counter = 3
    · refine .read (u := ⟨name, op, .testCounter k⟩) hc ha rfl (if_pos h3) ?_
      simp only [Task.visit, if_pos h3]
      exact .inl (.storeBlocked hk)
    · refine .read (u := ⟨name, op, .testCounter k⟩) hc ha rfl (if_neg h3) ?_
      simp only [Task.visit, if_neg h3]
      exact .inr rfl
  | @storeBlocked k node hk =>
    obtain ⟨a, ha⟩ := hc.exists_record hk
    obtain ⟨heap', hset, hc'⟩ := hc.setStatus hk ha statusBlocked
    simp only [Task.access, hset]
    exact .write (u := ⟨name, op, .storeBlocked k⟩) ha hc' rfl (.inr rfl)
  | seekLogout k =>
    cases hk : addrs[k]? with
    | none => exact .ended (u := ⟨name, op, .seekLogout k⟩) hc hk rfl
    | some node =>
      exact .seek (u := ⟨name, op, .seekLogout k⟩) hc hk (fun _ => rfl)
        (fun _ _ => ⟨_, rfl, .storeDefault hk⟩) (.seekLogout (k + 1))
  | @storeDefault k node hk =>
    obtain ⟨a, ha⟩ := hc.exists_record hk
    obtain ⟨heap', hset, hc'⟩ := hc.setStatus hk ha statusDefault
    simp only [Task.access, hset, bind, Except.bind, hc'.next hk]
    exact .write (u := ⟨name, op, .storeDefault k⟩) ha hc' rfl (.inl (.seekLogout (k + 1)))

/-- **The threads of the server refine the visitors**, and no access to the list is faulty. -/
theorem handlers_refine (addrs : List ℕ) :
    Refines (handlers addrs[0]?) visitors (fun heap db => Chain heap addrs db) (Task.At addrs)
      (fun result reply => result = .ok reply) where
  accept_own own e := by
    cases e with
    | lost => rfl
    | recv msg residue =>
      simp only [handlers, visitors, Session.accept]
      split_ifs <;> rfl
  accept_task own e := by
    cases e with
    | lost => exact .none
    | recv msg residue =>
      simp only [handlers, visitors, Session.accept]
      split_ifs
      · refine .some ⟨rfl, rfl, ?_⟩
        simp only [Task.start]
        cases operation (receive msg) with
        | username data => exact .seekUsername 0
        | password data => exact .seekPassword 0
        | logout | clientOut => exact .seekLogout 0
      · exact .none
  work_memory hc ht := by
    obtain ⟨heap, next, hx, hheap, hnext⟩ := access_walk hc ht
    simp only [handlers, visitors, Task.work, hx, Task.walkOn]
    cases next <;> exact hheap
  work_rest hc ht := by
    obtain ⟨heap, next, hx, hheap, hnext⟩ := access_walk hc ht
    simp only [handlers, visitors, Task.work, hx, Task.walkOn]
    generalize (Task.walk _ _).2 = y at hnext
    cases hnext with
    | inl hp => exact .inl ⟨ht.name, ht.op, hp⟩
    | inr hr => exact .inr (congrArg Except.ok hr)

/-- The threads and the visitors, in step. -/
abbrev Mirrors {ι : Type} (addrs : List ℕ) (c : ThreadConfig ι) (d : VisitConfig ι) : Prop :=
  Related (fun heap db => Chain heap addrs db) (Task.At addrs)
    (fun result reply => result = .ok reply) c d

variable {ι : Type} [DecidableEq ι]

omit [DecidableEq ι] in
theorem mirrors_start (hc : Chain heap addrs db) :
    Mirrors addrs (start (launch heap)) (start (idle db fun _ : ι => Session.fresh)) :=
  ⟨hc, rfl, fun _ => .none, .nil⟩

/-- **In step under every schedule.** -/
theorem mirrors_run (hc : Chain heap addrs db) (is : List (Input ι Arrival)) :
    Mirrors addrs (runThreads addrs[0]? heap is) (runVisitors db is) :=
  refines_run (handlers_refine addrs) hc (fun _ => .fresh) is

theorem Mirrors.results {c : ThreadConfig ι} {d : VisitConfig ι} (h : Mirrors addrs c d) (s : ι) :
    results s c.history = (results s d.history).map Except.ok := by
  have hok : ∀ {rs : List (Except AccessFault (Option Reply))} {l : List (Option Reply)},
      List.Forall₂ (fun result reply => result = .ok reply) rs l → rs = l.map Except.ok := by
    intro rs l h
    induction h with
    | nil => rfl
    | cons hr _ ih => rw [List.map_cons, hr, ih]
  exact hok (results_matches h.history s)

theorem mirrors_ok {c : ThreadConfig ι} {d : VisitConfig ι} (h : Mirrors addrs c d) (s : ι) :
    ∀ result ∈ results s c.history, ∃ r, result = .ok r := by
  intro result hresult
  rw [h.results] at hresult
  obtain ⟨r, -, rfl⟩ := List.mem_map.mp hresult
  exact ⟨r, rfl⟩

end Refinement

end OnlineCaro
