import OnlineCaro.Server.Model
import Mathlib.Data.List.Forall2

/-!
# What a step of the server does

* `operation`: the switch of `processRequest`, with the data it passes on.
* `findNode_updateNode`, `forall₂_updateNode`, `mem_updateNode`: the list after an assignment.
* `Account.submit`, `Account.answer`: the effect and the reply of a password, on one record.
* `accountsAfter`, `bufferAfter`, `liveAfter`, `replyAfter`: everything one request changes, by its
  operation; **`step_recv`** says that a step is exactly this.

Later modules use these and never unfold a handler.
-/

namespace OnlineCaro

open CMem

/-! ## Requests -/

theorem requestData_bytes (request : CString) :
    (requestData request).bytes = request.bytes.tail := by
  obtain ⟨bytes, hnul⟩ := request
  cases bytes with
  | nil => rfl
  | cons b bs =>
    have hbs : (0 : UInt8) ∉ bs := fun h => hnul (List.mem_cons_of_mem b h)
    have hfill := Block.fill_malloc (fun i => (⟨b :: bs, hnul⟩ : CString).byteAt (i + 1))
      (bs.length + 2) (bs.length + 1) (by omega)
    simp only [requestData, getData, CString.strlen, List.length_cons] at hfill ⊢
    rw [hfill]
    simp only [CString.byteAt, List.getD_cons_succ, Block.map_range_getD, List.append_assoc,
      List.cons_append, List.nil_append, Option.bind_some]
    rw [Block.text_append_nul hbs]
    exact CString.bytes_ofBytes hbs

/-- A request, by its operation code, with the data its handler is given. -/
inductive Operation
  | username (data : CString)
  | password (data : CString)
  | logout
  | clientOut
  deriving DecidableEq

/-- The switch of `processRequest`. -/
def operation (request : CString) : Operation :=
  if getOperationCode request = usernameOperation then .username (requestData request)
  else if getOperationCode request = passwordOperation then .password (requestData request)
  else if getOperationCode request = logoutOperation then .logout
  else .clientOut

/-- The operations that `processLogout` handles. -/
def Operation.LogsOut : Operation → Prop
  | .logout | .clientOut => True
  | _ => False

instance : DecidablePred Operation.LogsOut := fun o => by
  cases o <;> unfold Operation.LogsOut <;> infer_instance

theorem processRequest_eq (request residue : CString) (f : Frame) :
    processRequest request residue f = match operation request with
      | .username data => (true, processUsername data residue f)
      | .password data => (true, processPassword data residue f)
      | .logout => (true, processLogout residue f)
      | .clientOut => (false, processLogout residue f) := by
  simp only [processRequest, operation]
  split_ifs <;> rfl

/-- A request starts with its operation code, and its data follow. -/
theorem bytes_of_getOperationCode {request : CString} {code : UInt8} (hne : code ≠ 0)
    (h : getOperationCode request = code) :
    request.bytes = code :: (requestData request).bytes := by
  rw [requestData_bytes]
  unfold getOperationCode CString.byteAt at h
  cases hb : request.bytes with
  | nil =>
    rw [hb] at h
    exact absurd h.symm hne
  | cons b bs =>
    rw [hb] at h
    rw [← h]
    rfl

theorem bytes_of_operation_username {request data : CString}
    (h : operation request = .username data) : request.bytes = usernameOperation :: data.bytes := by
  unfold operation at h
  split_ifs at h with h₁
  injection h with h
  rw [← h]
  exact bytes_of_getOperationCode (by decide) h₁

theorem bytes_of_operation_password {request data : CString}
    (h : operation request = .password data) : request.bytes = passwordOperation :: data.bytes := by
  unfold operation at h
  split_ifs at h with h₁ h₂
  injection h with h
  rw [← h]
  exact bytes_of_getOperationCode (by decide) h₂

/-! ## The account list after an assignment -/

section AccountList

variable {db : List Account} {name u : CString} {write write' : Account → Account} {a : Account}

theorem findNode_cons (node : Account) (next : List Account) (name : CString) :
    findNode (node :: next) name =
      if node.username = name then some node else findNode next name := by
  unfold findNode
  rw [List.find?_cons]
  split_ifs with h <;> simp [h]

theorem username_of_findNode (h : findNode db name = some a) : a.username = name := by
  simpa using List.find?_some h

theorem mem_of_findNode (h : findNode db name = some a) : a ∈ db := List.mem_of_find?_eq_some h

theorem updateNode_of_none (h : findNode db name = none) : updateNode name write db = db := by
  induction db with
  | nil => rfl
  | cons node next ih =>
    rw [findNode_cons] at h
    split_ifs at h with hn
    rw [updateNode, if_neg hn, ih h]

theorem updateNode_congr (h : ∀ a, findNode db name = some a → write a = write' a) :
    updateNode name write db = updateNode name write' db := by
  induction db with
  | nil => rfl
  | cons node next ih =>
    simp only [findNode_cons] at h
    simp only [updateNode]
    split_ifs at h ⊢ with hn
    · rw [h node rfl]
    · rw [ih h]

theorem updateNode_updateNode (hw : ∀ a, (write a).username = a.username) :
    updateNode name write' (updateNode name write db) =
      updateNode name (fun a => write' (write a)) db := by
  induction db with
  | nil => rfl
  | cons node next ih =>
    simp only [updateNode]
    split_ifs with hn
    · rw [updateNode, if_pos ((hw node).trans hn)]
    · rw [updateNode, if_neg hn, ih]

theorem findNode_updateNode (hw : ∀ a, (write a).username = a.username) :
    findNode (updateNode name write db) u =
      if u = name then (findNode db u).map write else findNode db u := by
  induction db with
  | nil => split_ifs <;> rfl
  | cons node next ih =>
    simp only [updateNode]
    split_ifs with hn hu hu
    · rw [findNode_cons, findNode_cons, if_pos ((hw node).trans (hn.trans hu.symm)),
        if_pos (hn.trans hu.symm)]
      rfl
    · have hne : ¬ node.username = u := fun e => hu (e.symm.trans hn)
      rw [findNode_cons, findNode_cons, if_neg (by rw [hw]; exact hne), if_neg hne]
    · have hne : ¬ node.username = u := fun e => hn (e.trans hu)
      rw [findNode_cons, findNode_cons, if_neg hne, if_neg hne, ih, if_pos hu]
    · rw [findNode_cons, findNode_cons, ih, if_neg hu]

theorem mem_updateNode {b : Account} (h : b ∈ updateNode name write db) :
    b ∈ db ∨ ∃ a, findNode db name = some a ∧ b = write a := by
  induction db with
  | nil => exact absurd h List.not_mem_nil
  | cons node next ih =>
    simp only [updateNode] at h
    rw [findNode_cons]
    split_ifs at h ⊢ with hn
    · rcases List.mem_cons.mp h with rfl | h
      · exact Or.inr ⟨node, rfl, rfl⟩
      · exact Or.inl (List.mem_cons_of_mem _ h)
    · rcases List.mem_cons.mp h with rfl | h
      · exact Or.inl List.mem_cons_self
      · exact (ih h).imp_left (List.mem_cons_of_mem _)

/-- Record by record: every record keeps a reflexive relation exactly when the one that is
written does. -/
theorem forall₂_updateNode {R : Account → Account → Prop} (hR : ∀ a, R a a) :
    List.Forall₂ R db (updateNode name write db) ↔
      ∀ a, findNode db name = some a → R a (write a) := by
  induction db with
  | nil => simp [updateNode, findNode]
  | cons node next ih =>
    simp only [updateNode, findNode_cons]
    split_ifs with hn
    · simp [hR]
    · rw [List.forall₂_cons, ih]
      exact ⟨fun h => h.2, fun h => ⟨hR node, h⟩⟩

theorem forall₂_map {R : Account → Account → Prop} :
    List.Forall₂ R db (db.map write) ↔ ∀ a ∈ db, R a (write a) := by
  rw [List.forall₂_map_right_iff, List.forall₂_same]

theorem findNode_map (hw : ∀ a, (write a).username = a.username) :
    findNode (db.map write) u = (findNode db u).map write := by
  induction db with
  | nil => rfl
  | cons node next ih =>
    rw [List.map_cons, findNode_cons, findNode_cons, hw, ih]
    split_ifs <;> rfl

end AccountList

/-! ## Handlers on one record -/

namespace Account

/-- A wrong password. -/
def fail (a : Account) : Account :=
  if a.counter + 1 = 3 then { a with counter := a.counter + 1, status := statusBlocked }
  else { a with counter := a.counter + 1 }

/-- A password request. -/
def submit (data : CString) (a : Account) : Account :=
  if a.password = data then { a with status := statusLoggedIn } else a.fail

/-- The reply to a password request. -/
def answer (data : CString) (a : Account) : Reply :=
  if a.password = data then .passwordSuccess
  else if a.counter + 1 = 3 then .accountIsBlocked else .passwordIncorrect

/-- A login or a lockout keeps the account from being used. -/
def Occupied (a : Account) : Prop := a.status = statusLoggedIn ∨ a.status = statusBlocked

/-- The reply to a username request. -/
def greet (a : Account) : Reply :=
  if a.status = statusBlocked then .accountIsBlocked
  else if a.status = statusLoggedIn then .accountIsLoggedIn
  else .usernameSuccess

/-- `processLogout`, in a session named `name`. -/
def reset (name : CString) (a : Account) : Account :=
  if a.username = name then { a with status := statusDefault } else a

variable (data name : CString) (a : Account)

@[simp] theorem fail_username : a.fail.username = a.username := by unfold fail; split_ifs <;> rfl

@[simp] theorem fail_password : a.fail.password = a.password := by unfold fail; split_ifs <;> rfl

@[simp] theorem fail_counter : a.fail.counter = a.counter + 1 := by unfold fail; split_ifs <;> rfl

theorem fail_status :
    a.fail.status = if a.counter + 1 = 3 then statusBlocked else a.status := by
  unfold fail; split_ifs <;> rfl

@[simp] theorem submit_username : (a.submit data).username = a.username := by
  unfold submit; split_ifs <;> simp

@[simp] theorem submit_password : (a.submit data).password = a.password := by
  unfold submit; split_ifs <;> simp

theorem submit_counter :
    (a.submit data).counter = if a.password = data then a.counter else a.counter + 1 := by
  unfold submit; split_ifs <;> simp

theorem submit_status_of_eq {a : Account} {data : CString} (h : a.password = data) :
    (a.submit data).status = statusLoggedIn := by
  rw [submit, if_pos h]

theorem submit_status_of_ne {a : Account} {data : CString} (h : a.password ≠ data) :
    (a.submit data).status = if a.counter + 1 = 3 then statusBlocked else a.status := by
  rw [submit, if_neg h, fail_status]

theorem answer_eq_passwordSuccess {a : Account} {data : CString} :
    a.answer data = .passwordSuccess ↔ a.password = data := by
  unfold answer
  split_ifs with h₁ h₂ <;> simp [h₁]

theorem greet_eq_usernameSuccess {a : Account} :
    a.greet = .usernameSuccess ↔ ¬ a.Occupied := by
  unfold greet Occupied
  split_ifs with h₁ h₂ <;> simp [*]

@[simp] theorem reset_username : (a.reset name).username = a.username := by
  unfold reset; split_ifs <;> rfl

@[simp] theorem reset_password : (a.reset name).password = a.password := by
  unfold reset; split_ifs <;> rfl

@[simp] theorem reset_counter : (a.reset name).counter = a.counter := by
  unfold reset; split_ifs <;> rfl

theorem reset_of_eq {a : Account} {name : CString} (h : a.username = name) :
    (a.reset name).status = statusDefault := by
  rw [reset, if_pos h]

theorem reset_of_ne {a : Account} {name : CString} (h : a.username ≠ name) : a.reset name = a :=
  if_neg h

end Account

/-! ## What one request does -/

/-- The account list after an operation in a session named `name`. -/
def accountsAfter (name : CString) (db : List Account) : Operation → List Account
  | .username _ => db
  | .password data => updateNode name (Account.submit data) db
  | .logout | .clientOut => db.map (Account.reset name)

/-- The name buffer after an operation. -/
def bufferAfter (state : NameBuf) : Operation → NameBuf
  | .username data => state.write data
  | .password _ => state
  | .logout | .clientOut => .released

/-- Whether the thread goes on. -/
def liveAfter : Operation → Bool
  | .clientOut => false
  | _ => true

/-- The reply to a username request. -/
def usernameReply (db : List Account) (data : CString) : Reply :=
  ((findNode db data).map Account.greet).getD .usernameNotFound

/-- The reply that is sent for an operation in a session named `name`. -/
def replyAfter (name : CString) (db : List Account) : Operation → Option Reply
  | .username data => some (usernameReply db data)
  | .password data => (findNode db name).map (Account.answer data)
  | .logout => some .logoutSuccess
  | .clientOut => none

/-- What an operation in a session named `name` does to one record. -/
def Account.after (name : CString) (a : Account) : Operation → Account
  | .username _ => a
  | .password data => if a.username = name then a.submit data else a
  | .logout | .clientOut => a.reset name

@[simp] theorem Account.after_username (name : CString) (a : Account) (op : Operation) :
    (a.after name op).username = a.username := by
  cases op <;> simp only [Account.after, Account.reset_username]
  split_ifs <;> simp

@[simp] theorem Account.after_password (name : CString) (a : Account) (op : Operation) :
    (a.after name op).password = a.password := by
  cases op <;> simp only [Account.after, Account.reset_password]
  split_ifs <;> simp

/-- The operation is a password request with a password that `a` does not have. -/
def Operation.wrongFor (a : Account) : Operation → Bool
  | .password data => decide (a.password ≠ data)
  | _ => false

theorem Account.after_counter (name : CString) (a : Account) (op : Operation) :
    (a.after name op).counter =
      if name = a.username ∧ op.wrongFor a = true then a.counter + 1 else a.counter := by
  cases op with
  | username data => simp [Account.after, Operation.wrongFor]
  | password data =>
    simp only [Account.after, Operation.wrongFor, decide_eq_true_eq, eq_comm (a := name)]
    by_cases hn : a.username = name
    · rw [if_pos hn, submit_counter]
      by_cases hp : a.password = data <;> simp [hn, hp]
    · rw [if_neg hn, if_neg fun h => hn h.1]
  | logout => simp [Account.after, Operation.wrongFor]
  | clientOut => simp [Account.after, Operation.wrongFor]

/-- The first record of a name is followed through every operation. -/
theorem findNode_accountsAfter (name u : CString) (db : List Account) (op : Operation) :
    findNode (accountsAfter name db op) u = (findNode db u).map (Account.after name · op) := by
  cases op with
  | username data => simp [accountsAfter, Account.after]
  | password data =>
    rw [accountsAfter, findNode_updateNode (Account.submit_username data)]
    cases h : findNode db u with
    | none => simp
    | some a =>
      have hu := username_of_findNode h
      simp only [Option.map_some, Account.after, hu]
      split_ifs <;> rfl
  | logout => exact findNode_map (Account.reset_username name)
  | clientOut => exact findNode_map (Account.reset_username name)

theorem exists_of_mem_accountsAfter {name : CString} {db : List Account} {op : Operation}
    {b : Account} (hb : b ∈ accountsAfter name db op) :
    b ∈ db ∨ (∃ a data, op = .password data ∧ findNode db name = some a ∧ b = a.submit data) ∨
      ∃ a ∈ db, op.LogsOut ∧ a.username = name ∧ b = a.reset name := by
  have hreset : ∀ b ∈ db.map (Account.reset name),
      b ∈ db ∨ ∃ a ∈ db, a.username = name ∧ b = a.reset name := by
    intro b hb
    obtain ⟨a, ha, rfl⟩ := List.mem_map.mp hb
    by_cases hn : a.username = name
    · exact Or.inr ⟨a, ha, hn, rfl⟩
    · exact Or.inl (by rwa [Account.reset_of_ne hn])
  cases op with
  | username data => exact Or.inl hb
  | password data =>
    rcases mem_updateNode hb with hb | ⟨a, ha, rfl⟩
    · exact Or.inl hb
    · exact Or.inr (Or.inl ⟨a, data, rfl, ha, rfl⟩)
  | logout =>
    exact (hreset b hb).imp_right fun ⟨a, ha, hn, e⟩ => Or.inr ⟨a, ha, trivial, hn, e⟩
  | clientOut =>
    exact (hreset b hb).imp_right fun ⟨a, ha, hn, e⟩ => Or.inr ⟨a, ha, trivial, hn, e⟩

theorem processUsername_response (data residue : CString) (f : Frame) :
    (processUsername data residue f).response = some (usernameReply f.accountDB data) := by
  simp only [processUsername, usernameReply, Frame.copyState]
  cases findNode f.accountDB data with
  | none => rfl
  | some node => rfl

theorem processBlockAccount_accountDB (residue : CString) (f : Frame) :
    (processBlockAccount residue f).2.accountDB =
      updateNode (f.state.read residue) Account.fail f.accountDB := by
  simp only [processBlockAccount, Frame.readState]
  cases h : findNode f.accountDB (f.state.read residue) with
  | none => exact (updateNode_of_none h).symm
  | some node =>
    dsimp only
    split_ifs with hc <;> dsimp only
    · have hw : ∀ a : Account, { a with counter := node.counter + 1 }.username = a.username :=
        fun _ => rfl
      rw [updateNode_updateNode hw]
      refine updateNode_congr fun a ha => ?_
      obtain rfl : node = a := Option.some.inj (h.symm.trans ha)
      rw [Account.fail, if_pos hc]
    · refine updateNode_congr fun a ha => ?_
      obtain rfl : node = a := Option.some.inj (h.symm.trans ha)
      rw [Account.fail, if_neg hc]

theorem processBlockAccount_state (residue : CString) (f : Frame) :
    (processBlockAccount residue f).2.state = f.state := by
  simp only [processBlockAccount, Frame.readState]
  cases findNode f.accountDB (f.state.read residue) with
  | none => rfl
  | some node => dsimp only; split_ifs <;> rfl

theorem processBlockAccount_fst {residue : CString} {f : Frame} {node : Account}
    (h : findNode f.accountDB (f.state.read residue) = some node) :
    (processBlockAccount residue f).1 = decide (node.counter + 1 = 3) := by
  simp only [processBlockAccount, Frame.readState, h]
  split_ifs with hc <;> simp [hc]

/-- A search that runs to the end writes nothing, not even the response. -/
theorem processPassword_of_none {data residue : CString} {f : Frame}
    (h : findNode f.accountDB (f.state.read residue) = none) :
    processPassword data residue f = (f.readState residue).2 := by
  simp only [processPassword]
  rw [show findNode (f.readState residue).2.accountDB (f.readState residue).1 = none from h]

theorem processPassword_of_eq {data residue : CString} {f : Frame} {node : Account}
    (h : findNode f.accountDB (f.state.read residue) = some node) (hp : node.password = data) :
    processPassword data residue f =
      { (f.readState residue).2 with
        accountDB := updateNode (f.state.read residue)
          (fun node => { node with status := statusLoggedIn }) f.accountDB
        response := some .passwordSuccess } := by
  simp only [processPassword]
  rw [show findNode (f.readState residue).2.accountDB (f.readState residue).1 = some node from h]
  exact if_pos hp

theorem processPassword_of_ne {data residue : CString} {f : Frame} {node : Account}
    (h : findNode f.accountDB (f.state.read residue) = some node) (hp : node.password ≠ data) :
    processPassword data residue f =
      { (processBlockAccount residue (f.readState residue).2).2 with
        response := some (if (processBlockAccount residue (f.readState residue).2).1 = true
          then .accountIsBlocked else .passwordIncorrect) } := by
  simp only [processPassword]
  rw [show findNode (f.readState residue).2.accountDB (f.readState residue).1 = some node from h]
  exact if_neg hp

theorem processPassword_accountDB (data residue : CString) (f : Frame) :
    (processPassword data residue f).accountDB =
      updateNode (f.state.read residue) (Account.submit data) f.accountDB := by
  cases h : findNode f.accountDB (f.state.read residue) with
  | none => rw [processPassword_of_none h, updateNode_of_none h]; rfl
  | some node =>
    by_cases hp : node.password = data
    · rw [processPassword_of_eq h hp]
      refine updateNode_congr fun a ha => ?_
      obtain rfl : node = a := Option.some.inj (h.symm.trans ha)
      rw [Account.submit, if_pos hp]
    · rw [processPassword_of_ne h hp]
      refine (processBlockAccount_accountDB residue _).trans (updateNode_congr fun a ha => ?_)
      obtain rfl : node = a := Option.some.inj (h.symm.trans ha)
      rw [Account.submit, if_neg hp]

theorem processPassword_state (data residue : CString) (f : Frame) :
    (processPassword data residue f).state = f.state := by
  cases h : findNode f.accountDB (f.state.read residue) with
  | none => rw [processPassword_of_none h]; rfl
  | some node =>
    by_cases hp : node.password = data
    · rw [processPassword_of_eq h hp]; rfl
    · rw [processPassword_of_ne h hp]; exact processBlockAccount_state residue _

theorem processPassword_response {data residue : CString} {f : Frame} (hf : f.response = none) :
    (processPassword data residue f).response =
      (findNode f.accountDB (f.state.read residue)).map (Account.answer data) := by
  cases h : findNode f.accountDB (f.state.read residue) with
  | none => rw [processPassword_of_none h]; exact hf
  | some node =>
    by_cases hp : node.password = data
    · rw [processPassword_of_eq h hp, Option.map_some, Account.answer, if_pos hp]
    · have hb : (processBlockAccount residue (f.readState residue).2).1 =
          decide (node.counter + 1 = 3) := processBlockAccount_fst h
      rw [processPassword_of_ne h hp, hb]
      simp [Account.answer, hp]

section Step

variable {ι : Type} [DecidableEq ι] {σ : Server ι} {s : ι} {msg : List UInt8} {residue : CString}

/-- The name that a request of `s` acts on. -/
def Server.nameOf (σ : Server ι) (s : ι) (residue : CString) : CString :=
  (σ.session s).state.read residue

/-- **One request.** A request of a live session changes the account list, its own session and
nothing else, as its operation says. -/
theorem step_recv (hl : (σ.session s).live = true) :
    (step σ (.recv s msg residue)).1 =
      ⟨accountsAfter (σ.nameOf s residue) σ.accountDB (operation (receive msg)),
        Function.update σ.session s
          ⟨bufferAfter (σ.session s).state (operation (receive msg)),
            liveAfter (operation (receive msg))⟩⟩ := by
  simp only [step, if_pos hl, processRequest_eq]
  cases operation (receive msg) with
  | username data => rfl
  | password data =>
    dsimp only
    rw [processPassword_accountDB, processPassword_state]
    rfl
  | logout => rfl
  | clientOut => rfl

theorem step_reply (hl : (σ.session s).live = true) :
    (step σ (.recv s msg residue)).2.bind Outcome.sent =
      replyAfter (σ.nameOf s residue) σ.accountDB (operation (receive msg)) := by
  simp only [step, if_pos hl, processRequest_eq]
  cases operation (receive msg) with
  | username data =>
    simp only [Option.bind_some, Outcome.sent, if_true]
    exact processUsername_response data residue _
  | password data =>
    simp only [Option.bind_some, Outcome.sent, if_true]
    exact processPassword_response rfl
  | logout => rfl
  | clientOut => rfl

theorem step_recv_dead (hl : (σ.session s).live = false) :
    step σ (.recv s msg residue) = (σ, none) := by
  simp [step, hl]

theorem step_lost (σ : Server ι) (s : ι) :
    step σ (.lost s) =
      (⟨σ.accountDB, Function.update σ.session s ⟨(σ.session s).state, false⟩⟩, none) := rfl

end Step

end OnlineCaro
