import OnlineCaro.Server.Visits

/-!
# Requests for different names are atomic

As long as no two requests for the same name are handled at the same time, the threads do what the
server does that handles every request in one step. Requests for one name do not commute: two wrong
passwords that overlap may count as one.

* `Task.finish`: all that is left of a request, done at once; **`finish_start`**: for a request that
  has just begun this is the atomic request.
* `SameFor u`: two lists that agree on the records of `u`.
* **`visitors_serialize`**: one access at a time, requests for different names commute.
* **`threads_atomic`**: the server run under a schedule, and the server one request at a time.
* **`lost_update`**: three wrong passwords, of which two overlap.
-/

namespace OnlineCaro

open CMem StepRun Threads

/-! ## The rest of a request -/

/-- The test of the counter in `processBlockAccount`. -/
def Account.block (a : Account) : Account :=
  if a.counter = 3 then { a with status := statusBlocked } else a

/-- The reply after the counter was tested. -/
def verdict (counter : Int32) : Reply :=
  if counter = 3 then .accountIsBlocked else .passwordIncorrect

theorem Account.fail_eq_block (a : Account) :
    a.fail = { a with counter := a.counter + 1 }.block := by
  unfold fail block
  split_ifs <;> rfl

theorem Account.answer_eq_verdict {a : Account} {data : CString} (h : a.password ≠ data) :
    a.answer data = verdict (a.counter + 1) := by
  rw [answer, if_neg h, verdict]

namespace Task

/-- What a request still does to the records from its position on. -/
def rest (t : Task ℕ ℕ) : List Account → List Account :=
  match t.point with
  | .seekUsername _ | .testBlocked _ | .testLoggedIn _ => id
  | .seekPassword _ => updateNode t.address (Account.submit t.data)
  | .storeLoggedIn _ => List.modifyHead fun a => { a with status := statusLoggedIn }
  | .seekCounter _ => updateNode t.address Account.fail
  | .loadCounter _ => List.modifyHead Account.fail
  | .storeCounter _ counter =>
    List.modifyHead fun a => { a with counter := counter + 1 }.block
  | .testCounter _ => List.modifyHead Account.block
  | .storeBlocked _ => List.modifyHead fun a => { a with status := statusBlocked }
  | .seekLogout _ => List.map (Account.reset t.address)
  | .storeDefault _ => fun db =>
    (db.modifyHead fun a => { a with status := statusDefault }).take 1 ++
      (db.drop 1).map (Account.reset t.address)

/-- The reply that a request will get, given the records from its position on. -/
def reply (t : Task ℕ ℕ) (db : List Account) : Option Reply :=
  match t.point with
  | .seekUsername _ => some (usernameReply db t.address)
  | .testBlocked _ => db.head?.map Account.greet
  | .testLoggedIn _ => db.head?.map fun a =>
    if a.status = statusLoggedIn then .accountIsLoggedIn else .usernameSuccess
  | .seekPassword _ => (findNode db t.address).map (Account.answer t.data)
  | .storeLoggedIn _ => some .passwordSuccess
  | .seekCounter _ => some (((findNode db t.address).map fun a => verdict (a.counter + 1)).getD
    .passwordIncorrect)
  | .loadCounter _ => db.head?.map fun a => verdict (a.counter + 1)
  | .storeCounter _ counter => some (verdict (counter + 1))
  | .testCounter _ => db.head?.map fun a => verdict a.counter
  | .storeBlocked _ => some .accountIsBlocked
  | .seekLogout _ | .storeDefault _ => t.logoutReply

/-- All that is left of a request, at once. -/
def finish (db : List Account) (t : Task ℕ ℕ) : List Account × Option Reply :=
  (db.take t.point.index ++ t.rest (db.drop t.point.index), t.reply (db.drop t.point.index))

/-- What a handler has found out when it makes its next access: past the comparison it stands at a
record with the name, and `processPassword` stops at the first. -/
def Ok (db : List Account) (t : Task ℕ ℕ) : Prop :=
  match t.point with
  | .seekUsername _ | .seekCounter _ | .seekLogout _ => True
  | .seekPassword k => ∀ a ∈ db.take k, a.username ≠ t.address
  | .testBlocked k | .testLoggedIn k | .storeLoggedIn k | .loadCounter k | .storeCounter k _
  | .testCounter k | .storeBlocked k | .storeDefault k =>
    (db[k]?).map Account.username = some t.address

end Task

/-- **A request that has just begun.** -/
theorem finish_start (db : List Account) (name : CString) (op : Operation) :
    (Task.start 0 name op).finish db = (accountsAfter name db op, replyAfter name db op) := by
  cases op <;> rfl

section Finish

variable {db : List Account} {t t' : Task ℕ ℕ} {a b : Account} {r : Option Reply}

theorem take_drop_set {k : ℕ} (h : db[k]? = some a) (b : Account) :
    db.drop k = a :: db.drop (k + 1) ∧ (db.set k b).drop k = b :: db.drop (k + 1) ∧
      db.set k b = db.take k ++ b :: db.drop (k + 1) := by
  obtain ⟨hk, rfl⟩ := List.getElem?_eq_some_iff.mp h
  have hset : db.set k b = db.take k ++ b :: db.drop (k + 1) :=
    List.set_eq_take_append_cons_drop.trans (if_pos hk)
  have hlen : (db.take k).length = k := List.length_take_of_le hk.le
  refine ⟨List.drop_eq_getElem_cons hk, ?_, hset⟩
  rw [hset, List.drop_append_of_le_length hlen.ge, List.drop_eq_nil_of_le hlen.le, List.nil_append]

theorem finish_stay (h : db[t.point.index]? = some a) (hi : t'.point.index = t.point.index)
    (hrest : ∀ l, t'.rest (b :: l) = t.rest (a :: l))
    (hreply : ∀ l, t'.reply (b :: l) = t.reply (a :: l)) :
    t'.finish (db.set t.point.index b) = t.finish db := by
  obtain ⟨hdrop, hdrop', -⟩ := take_drop_set h b
  rw [Task.finish, Task.finish, hi, hdrop, hdrop', hrest, hreply, List.take_set_of_le le_rfl]

theorem finish_move (h : db[t.point.index]? = some a) (hi : t'.point.index = t.point.index + 1)
    (hrest : ∀ l, b :: t'.rest l = t.rest (a :: l))
    (hreply : ∀ l, t'.reply l = t.reply (a :: l)) :
    t'.finish (db.set t.point.index b) = t.finish db := by
  obtain ⟨hdrop, hdrop', hset⟩ := take_drop_set h b
  have hk : t.point.index < db.length := (List.getElem?_eq_some_iff.mp h).1
  have htake : (db.set t.point.index b).take (t.point.index + 1) =
      db.take t.point.index ++ [b] := by
    rw [List.take_add_one, List.getElem?_set_self hk, Option.toList_some,
      List.take_set_of_le le_rfl]
  have hdrop'' : (db.set t.point.index b).drop (t.point.index + 1) =
      db.drop (t.point.index + 1) := by
    rw [← List.drop_drop, hdrop']
    rfl
  rw [Task.finish, Task.finish, hi, hdrop, ← hrest, hreply, htake, hdrop'', List.append_assoc]
  rfl

theorem finish_end (h : db[t.point.index]? = some a) (hrest : ∀ l, t.rest (a :: l) = b :: l)
    (hreply : ∀ l, t.reply (a :: l) = r) : t.finish db = (db.set t.point.index b, r) := by
  obtain ⟨hdrop, -, hset⟩ := take_drop_set h b
  rw [Task.finish, hdrop, hrest, hreply, hset]

theorem updateNode_append {name : CString} {write : Account → Account} {l : List Account}
    (h : ∀ a ∈ l, a.username ≠ name) (l' : List Account) :
    updateNode name write (l ++ l') = l ++ updateNode name write l' := by
  induction l with
  | nil => rfl
  | cons a l ih =>
    rw [List.cons_append, updateNode, if_neg (h a List.mem_cons_self),
      ih fun b hb => h b (List.mem_cons_of_mem a hb), List.cons_append]

theorem findNode_append {name : CString} {l : List Account} (h : ∀ a ∈ l, a.username ≠ name)
    (l' : List Account) : findNode (l ++ l') name = findNode l' name := by
  induction l with
  | nil => rfl
  | cons a l ih =>
    rw [List.cons_append, findNode_cons, if_neg (h a List.mem_cons_self),
      ih fun b hb => h b (List.mem_cons_of_mem a hb)]

/-- `processBlockAccount` searches from the start of the list once more, and stops at the record
that `processPassword` stopped at. -/
theorem finish_restart {k : ℕ} {name : CString} {op : Operation} (h : db[k]? = some a)
    (hok : ∀ b ∈ db.take k, b.username ≠ op.address name) (hn : a.username = op.address name)
    (hp : a.password ≠ (⟨name, op, .seekPassword k⟩ : Task ℕ ℕ).data) :
    (⟨name, op, .seekCounter 0⟩ : Task ℕ ℕ).finish db =
      (⟨name, op, .seekPassword k⟩ : Task ℕ ℕ).finish db := by
  obtain ⟨hdrop, -, -⟩ := take_drop_set h a
  have hsplit : db = db.take k ++ db.drop k := (List.take_append_drop k db).symm
  have hrest : updateNode (op.address name) Account.fail db =
      db.take k ++ a.fail :: db.drop (k + 1) := by
    conv_lhs => rw [hsplit]
    rw [updateNode_append hok, hdrop, updateNode, if_pos hn]
  have hreply : findNode db (op.address name) = some a := by
    conv_lhs => rw [hsplit]
    rw [findNode_append hok, hdrop, findNode_cons, if_pos hn]
  simp only [Task.finish, Task.rest, Task.reply, Task.address, Point.index, List.take_zero,
    List.drop_zero, List.nil_append, hrest, hreply, hdrop, updateNode, findNode_cons, if_pos hn,
    Option.map_some, Option.getD_some, Account.answer_eq_verdict hp, Account.submit, if_neg hp]

end Finish

/-! ## What an access preserves -/

section Walk

variable {db : List Account} {t t' : Task ℕ ℕ} {a : Account}

/-- Record by record: an access keeps a reflexive relation that the visit of its record keeps. -/
theorem forall₂_walk {R : Account → Account → Prop} (hR : ∀ a, R a a)
    (h : ∀ a, db[t.point.index]? = some a → R a (t.visit a).1) :
    List.Forall₂ R db (t.walk db).1 := by
  rcases walk_cases db t with ⟨-, hw⟩ | ⟨a, ha, hw⟩
  · rw [hw]
    exact List.forall₂_same.mpr fun a _ => hR a
  · rw [hw]
    have hdrop := (take_drop_set ha (t.visit a).1).1
    rw [(take_drop_set ha (t.visit a).1).2.2]
    conv_lhs => rw [← List.take_append_drop t.point.index db, hdrop]
    exact List.rel_append (List.forall₂_same.mpr fun b _ => hR b)
      (.cons (h a ha) (List.forall₂_same.mpr fun b _ => hR b))

/-- The same name and the same password. -/
def SameLogin (a b : Account) : Prop := a.username = b.username ∧ a.password = b.password

/-- The same name and the same password, and the same record if the name is `u`. -/
def SameFor (u : CString) (a b : Account) : Prop := SameLogin a b ∧ (a.username = u → a = b)

theorem sameLogin_equivalence : Equivalence SameLogin where
  refl _ := ⟨rfl, rfl⟩
  symm h := ⟨h.1.symm, h.2.symm⟩
  trans h h' := ⟨h.1.trans h'.1, h.2.trans h'.2⟩

theorem sameFor_equivalence (u : CString) : Equivalence (SameFor u) where
  refl a := ⟨sameLogin_equivalence.refl a, fun _ => rfl⟩
  symm h := ⟨sameLogin_equivalence.symm h.1, fun hu => (h.2 (h.1.1.trans hu)).symm⟩
  trans h h' := ⟨sameLogin_equivalence.trans h.1 h'.1, fun hu =>
    (h.2 hu).trans (h'.2 (h.1.1.symm.trans hu))⟩

theorem forall₂_equivalence {α : Type} {R : α → α → Prop} (hR : Equivalence R) :
    Equivalence (List.Forall₂ R) where
  refl l := List.forall₂_same.mpr fun a _ => hR.refl a
  symm h := h.flip.imp fun _ _ => hR.symm
  trans {l₁ l₂ l₃} h h' := by
    induction h generalizing l₃ with
    | nil => exact h'
    | cons hab _ ih =>
      cases h' with
      | cons hbc h' => exact .cons (hR.trans hab hbc) (ih h')

theorem map_username_of_forall₂ {db db' : List Account} (h : List.Forall₂ SameLogin db db') :
    db.map Account.username = db'.map Account.username := by
  induction h with
  | nil => rfl
  | cons hab _ ih => rw [List.map_cons, List.map_cons, hab.1, ih]

theorem walk_sameLogin (db : List Account) (t : Task ℕ ℕ) :
    List.Forall₂ SameLogin db (t.walk db).1 :=
  forall₂_walk sameLogin_equivalence.refl fun a _ =>
    ⟨(visit_username t a).symm, (visit_password t a).symm⟩

/-- What a handler has found out depends on the names. -/
theorem ok_congr {db' : List Account} (h : db.map Account.username = db'.map Account.username)
    (hok : t.Ok db) : t.Ok db' := by
  have htake : ∀ k, (∀ a ∈ db.take k, a.username ≠ t.address) →
      ∀ a ∈ db'.take k, a.username ≠ t.address := by
    intro k hk a ha e
    have hmem : t.address ∈ (db'.take k).map Account.username := List.mem_map.mpr ⟨a, ha, e⟩
    rw [List.map_take, ← h, ← List.map_take] at hmem
    obtain ⟨b, hb, e⟩ := List.mem_map.mp hmem
    exact hk b hb e
  have hget : ∀ k : ℕ, (db[k]?).map Account.username = some t.address →
      (db'[k]?).map Account.username = some t.address := by
    intro k hk
    rwa [← List.getElem?_map, ← h, List.getElem?_map]
  unfold Task.Ok at hok ⊢
  split at hok
  · trivial
  · trivial
  · trivial
  · exact htake _ hok
  all_goals exact hget _ hok

theorem visit_eq_self (hok : t.Ok db) (ha : db[t.point.index]? = some a)
    (hne : a.username ≠ t.address) : (t.visit a).1 = a := by
  have hnode : ∀ k : ℕ, k = t.point.index → (db[k]?).map Account.username ≠ some t.address := by
    rintro k rfl h
    rw [ha, Option.map_some] at h
    exact hne (Option.some.inj h)
  obtain ⟨name, op, point⟩ := t
  cases point <;> first | rfl | exact absurd hok (hnode _ rfl)

theorem walk_sameFor {u : CString} (hok : t.Ok db) (hu : u ≠ t.address) :
    List.Forall₂ (SameFor u) db (t.walk db).1 :=
  forall₂_walk (sameFor_equivalence u).refl fun a ha =>
    ⟨⟨(visit_username t a).symm, (visit_password t a).symm⟩, fun e =>
      (visit_eq_self hok ha fun e' => hu (e.symm.trans e')).symm⟩

end Walk

/-! ## One access after another -/

section Next

variable {db : List Account} {t : Task ℕ ℕ} {a : Account} {point : Point ℕ ℕ} {r : Option Reply}

theorem visit_ok (hok : t.Ok db) (ha : db[t.point.index]? = some a)
    (hv : (t.visit a).2 = .inl point) : ({ t with point } : Task ℕ ℕ).Ok db := by
  have hnode : ∀ {k : ℕ}, k = t.point.index → a.username = t.address →
      (db[k]?).map Account.username = some t.address := by
    rintro k rfl h
    rw [ha, Option.map_some, h]
  obtain ⟨name, op, p⟩ := t
  cases p <;> simp only [Task.visit, reduceCtorEq, Sum.inl.injEq] at hv
  case seekUsername k =>
    subst hv
    split_ifs with hn
    · exact hnode rfl hn
    · trivial
  case testBlocked k =>
    split_ifs at hv
    obtain rfl := Sum.inl.inj hv
    exact hok
  case seekPassword k =>
    subst hv
    split_ifs with hn hp
    · exact hnode rfl hn
    · trivial
    · intro b hb
      rw [List.take_add_one, show db[k]? = some a from ha] at hb
      rcases List.mem_append.mp hb with hb | hb
      · exact hok b hb
      · obtain rfl : b = a := by simpa using hb
        exact hn
  case seekCounter k =>
    subst hv
    split_ifs with hn
    · exact hnode rfl hn
    · trivial
  case loadCounter k =>
    subst hv
    exact hok
  case storeCounter k counter =>
    subst hv
    exact hok
  case testCounter k =>
    split_ifs at hv
    obtain rfl := Sum.inl.inj hv
    exact hok
  case seekLogout k =>
    subst hv
    split_ifs with hn
    · exact hnode rfl hn
    · trivial
  case storeDefault k =>
    subst hv
    trivial

theorem finish_visit (hok : t.Ok db) (ha : db[t.point.index]? = some a)
    (hv : (t.visit a).2 = .inl point) :
    ({ t with point } : Task ℕ ℕ).finish (db.set t.point.index (t.visit a).1) = t.finish db := by
  obtain ⟨name, op, p⟩ := t
  cases p <;> simp only [Task.visit, reduceCtorEq, Sum.inl.injEq] at hv
  case seekUsername k =>
    subst hv
    split_ifs with hn <;> rw [Task.address] at hn
    · exact finish_stay ha rfl (fun _ => rfl) fun l => by
        simp [Task.reply, Task.address, usernameReply, findNode_cons, hn, Task.visit]
    · exact finish_move ha rfl (fun _ => rfl) fun l => by
        simp [Task.reply, Task.address, usernameReply, findNode_cons, hn]
  case testBlocked k =>
    split_ifs at hv with hs
    obtain rfl := Sum.inl.inj hv
    exact finish_stay ha rfl (fun _ => rfl)
      fun l => by simp [Task.reply, Task.visit, Account.greet, hs]
  case seekPassword k =>
    subst hv
    split_ifs with hn hp <;> rw [Task.address] at hn
    · exact finish_stay ha rfl
        (fun l => by simp [Task.rest, Task.address, updateNode, hn, Account.submit, hp, Task.visit])
        fun l => by simp [Task.reply, Task.address, findNode_cons, hn, Account.answer, hp]
    · obtain ⟨hk, hself⟩ := List.getElem?_eq_some_iff.mp ha
      subst hself
      rw [Task.visit, List.set_getElem_self]
      exact finish_restart ha hok hn hp
    · exact finish_move ha rfl
        (fun l => by simp [Task.rest, Task.address, Task.data, updateNode, hn, Task.visit])
        fun l => by simp [Task.reply, Task.address, Task.data, findNode_cons, hn]
  case seekCounter k =>
    subst hv
    split_ifs with hn <;> rw [Task.address] at hn
    · exact finish_stay ha rfl
        (fun l => by simp [Task.rest, Task.address, updateNode, hn, Task.visit])
        fun l => by simp [Task.reply, Task.address, findNode_cons, hn, Task.visit]
    · exact finish_move ha rfl
        (fun l => by simp [Task.rest, Task.address, updateNode, hn, Task.visit])
        fun l => by simp [Task.reply, Task.address, findNode_cons, hn]
  case loadCounter k =>
    subst hv
    exact finish_stay ha rfl
      (fun l => congrArg (· :: l) (Account.fail_eq_block a).symm) fun _ => rfl
  case storeCounter k counter =>
    subst hv
    exact finish_stay ha rfl (fun _ => rfl) fun _ => rfl
  case testCounter k =>
    split_ifs at hv with h3
    obtain rfl := Sum.inl.inj hv
    exact finish_stay ha rfl (fun l => by simp [Task.rest, Account.block, h3, Task.visit])
      fun l => by simp [Task.reply, verdict, h3]
  case seekLogout k =>
    subst hv
    split_ifs with hn <;> rw [Task.address] at hn
    · exact finish_stay ha rfl
        (fun l => by simp [Task.rest, Task.address, Account.reset, hn, Task.visit]) fun _ => rfl
    · exact finish_move ha rfl
        (fun l => by simp [Task.rest, Task.address, Account.reset, hn, Task.visit]) fun _ => rfl
  case storeDefault k =>
    subst hv
    exact finish_move ha rfl (fun _ => rfl) fun _ => rfl

theorem finish_visit_end (ha : db[t.point.index]? = some a) (hv : (t.visit a).2 = .inr r) :
    t.finish db = (db.set t.point.index (t.visit a).1, r) := by
  obtain ⟨name, op, p⟩ := t
  cases p <;> simp only [Task.visit, reduceCtorEq, Sum.inr.injEq] at hv
  case testBlocked k =>
    split_ifs at hv with hs
    obtain rfl := Sum.inr.inj hv
    exact finish_end ha (fun _ => rfl) fun l => by simp [Task.reply, Account.greet, hs]
  case testLoggedIn k =>
    subst hv
    exact finish_end ha (fun _ => rfl) fun l => by simp [Task.reply]
  case storeLoggedIn k =>
    subst hv
    exact finish_end ha (fun _ => rfl) fun _ => rfl
  case testCounter k =>
    split_ifs at hv with h3
    obtain rfl := Sum.inr.inj hv
    exact finish_end ha (fun l => by simp [Task.rest, Account.block, h3, Task.visit])
      fun l => by simp [Task.reply, verdict, h3]
  case storeBlocked k =>
    subst hv
    exact finish_end ha (fun _ => rfl) fun _ => rfl

theorem finish_atEnd (hok : t.Ok db) (h : db[t.point.index]? = none) :
    t.finish db = (db, t.atEnd) := by
  have hdrop : db.drop t.point.index = [] := List.drop_eq_nil_of_le (List.getElem?_eq_none_iff.mp h)
  have htake : db.take t.point.index = db := List.take_of_length_le (List.getElem?_eq_none_iff.mp h)
  rw [Task.finish, hdrop, htake]
  have hnode : ∀ k : ℕ, k = t.point.index → (db[k]?).map Account.username ≠ some t.address := by
    rintro k rfl
    rw [h]
    exact nofun
  obtain ⟨name, op, p⟩ := t
  cases p <;> first
    | exact absurd hok (hnode _ rfl)
    | exact Prod.ext (List.append_nil db) rfl

end Next

/-! ## Regions -/

section Region

variable {db db' l l' : List Account} {t : Task ℕ ℕ} {u : CString}

/-- Past the comparison, the next record has the name. -/
def Task.AtName (t : Task ℕ ℕ) (l : List Account) : Prop :=
  match t.point with
  | .seekUsername _ | .seekPassword _ | .seekCounter _ | .seekLogout _ => True
  | _ => ∀ a ∈ l.head?, a.username = t.address

theorem atName_drop (hok : t.Ok db) : t.AtName (db.drop t.point.index) := by
  have hnode : ∀ k : ℕ, (db[k]?).map Account.username = some t.address →
      ∀ a ∈ (db.drop k).head?, a.username = t.address := by
    intro k h a ha
    rw [List.head?_drop] at ha
    rw [show db[k]? = some a from ha] at h
    exact Option.some.inj h
  obtain ⟨name, op, p⟩ := t
  cases p <;> first | trivial | exact hnode _ hok

theorem forall₂_modifyHead {R : Account → Account → Prop} {write : Account → Account}
    (hR : ∀ a, R a a) (h : ∀ a ∈ l.head?, R a (write a)) :
    List.Forall₂ R l (l.modifyHead write) := by
  cases l with
  | nil => exact .nil
  | cons a l => exact .cons (h a rfl) (List.forall₂_same.mpr fun b _ => hR b)

theorem Account.block_sameLogin (a : Account) : SameLogin a a.block := by
  unfold block
  split_ifs <;> exact ⟨rfl, rfl⟩

theorem Account.reset_sameLogin (name : CString) (a : Account) : SameLogin a (a.reset name) :=
  ⟨(reset_username name a).symm, (reset_password name a).symm⟩

/-- What is left of a request writes records of its name only, and no names or passwords. -/
theorem forall₂_rest {R : Account → Account → Prop} (hR : ∀ a, R a a)
    (hw : ∀ a b, a.username = t.address → SameLogin a b → R a b) (hname : t.AtName l) :
    List.Forall₂ R l (t.rest l) := by
  have hfind : ∀ write : Account → Account, (∀ a, SameLogin a (write a)) →
      List.Forall₂ R l (updateNode t.address write l) := fun write hwrite =>
    (forall₂_updateNode hR).mpr fun a ha => hw a _ (username_of_findNode ha) (hwrite a)
  have hmap : ∀ l : List Account, List.Forall₂ R l (l.map (Account.reset t.address)) := fun l =>
    forall₂_map.mpr fun a _ => by
      by_cases hn : a.username = t.address
      · exact hw a _ hn (Account.reset_sameLogin _ a)
      · rw [Account.reset_of_ne hn]
        exact hR a
  have hhead : ∀ write : Account → Account, (∀ a ∈ l.head?, a.username = t.address) →
      (∀ a, SameLogin a (write a)) → List.Forall₂ R l (l.modifyHead write) :=
    fun write h hwrite => forall₂_modifyHead hR fun a ha => hw a _ (h a ha) (hwrite a)
  obtain ⟨name, op, p⟩ := t
  cases p with
  | seekUsername k => exact List.forall₂_same.mpr fun a _ => hR a
  | testBlocked k => exact List.forall₂_same.mpr fun a _ => hR a
  | testLoggedIn k => exact List.forall₂_same.mpr fun a _ => hR a
  | seekPassword k =>
    exact hfind _ fun a => ⟨(Account.submit_username _ a).symm, (Account.submit_password _ a).symm⟩
  | storeLoggedIn k => exact hhead _ hname fun _ => ⟨rfl, rfl⟩
  | seekCounter k =>
    exact hfind _ fun a => ⟨(Account.fail_username a).symm, (Account.fail_password a).symm⟩
  | loadCounter k =>
    exact hhead _ hname fun a => ⟨(Account.fail_username a).symm, (Account.fail_password a).symm⟩
  | storeCounter k counter =>
    exact hhead _ hname fun a =>
      sameLogin_equivalence.trans (y := { a with counter := counter + 1 }) ⟨rfl, rfl⟩
        (Account.block_sameLogin _)
  | testCounter k => exact hhead _ hname Account.block_sameLogin
  | storeBlocked k => exact hhead _ hname fun _ => ⟨rfl, rfl⟩
  | seekLogout k => exact hmap l
  | storeDefault k =>
    cases l with
    | nil => exact .nil
    | cons a l => exact .cons (hw a _ (hname a rfl) ⟨rfl, rfl⟩) (hmap l)

theorem findNode_congr (h : List.Forall₂ (SameFor u) l l') : findNode l u = findNode l' u := by
  induction h with
  | nil => rfl
  | cons hab _ ih =>
    rw [findNode_cons, findNode_cons, ← hab.1.1, ih]
    split_ifs with hn
    · rw [hab.2 hn]
    · rfl

theorem head_congr (h : List.Forall₂ (SameFor u) l l') (hname : ∀ a ∈ l.head?, a.username = u) :
    l.head? = l'.head? := by
  cases h with
  | nil => rfl
  | cons hab _ => exact congrArg some (hab.2 (hname _ rfl))

theorem updateNode_sameFor {write : Account → Account} (h : List.Forall₂ (SameFor u) l l') :
    List.Forall₂ (SameFor u) (updateNode u write l) (updateNode u write l') := by
  induction h with
  | nil => exact .nil
  | cons hab hl ih =>
    rw [updateNode, updateNode, ← hab.1.1]
    split_ifs with hn
    · rw [hab.2 hn]
      exact .cons ((sameFor_equivalence u).refl _) hl
    · exact .cons hab ih

theorem modifyHead_sameFor {write : Account → Account} (h : List.Forall₂ (SameFor u) l l')
    (hname : ∀ a ∈ l.head?, a.username = u) :
    List.Forall₂ (SameFor u) (l.modifyHead write) (l'.modifyHead write) := by
  cases h with
  | nil => exact .nil
  | cons hab hl =>
    rw [List.modifyHead_cons, List.modifyHead_cons, hab.2 (hname _ rfl)]
    exact .cons ((sameFor_equivalence u).refl _) hl

theorem reset_sameFor (h : List.Forall₂ (SameFor u) l l') :
    List.Forall₂ (SameFor u) (l.map (Account.reset u)) (l'.map (Account.reset u)) := by
  induction h with
  | nil => exact .nil
  | @cons a b _ _ hab _ ih =>
    refine .cons ?_ ih
    by_cases hn : a.username = u
    · rw [hab.2 hn]
      exact (sameFor_equivalence u).refl _
    · rw [Account.reset_of_ne hn, Account.reset_of_ne (hab.1.1 ▸ hn)]
      exact hab

theorem rest_sameFor (h : List.Forall₂ (SameFor t.address) l l') (hname : t.AtName l) :
    List.Forall₂ (SameFor t.address) (t.rest l) (t.rest l') ∧ t.reply l = t.reply l' := by
  have hfind := findNode_congr h
  obtain ⟨name, op, p⟩ := t
  cases p with
  | seekUsername k =>
    exact ⟨h, by simp only [Task.reply, usernameReply]; rw [hfind]⟩
  | testBlocked k => exact ⟨h, by simp only [Task.reply]; rw [head_congr h hname]⟩
  | testLoggedIn k => exact ⟨h, by simp only [Task.reply]; rw [head_congr h hname]⟩
  | seekPassword k => exact ⟨updateNode_sameFor h, by simp only [Task.reply]; rw [hfind]⟩
  | storeLoggedIn k => exact ⟨modifyHead_sameFor h hname, rfl⟩
  | seekCounter k => exact ⟨updateNode_sameFor h, by simp only [Task.reply]; rw [hfind]⟩
  | loadCounter k =>
    exact ⟨modifyHead_sameFor h hname, by simp only [Task.reply]; rw [head_congr h hname]⟩
  | storeCounter k counter => exact ⟨modifyHead_sameFor h hname, rfl⟩
  | testCounter k =>
    exact ⟨modifyHead_sameFor h hname, by simp only [Task.reply]; rw [head_congr h hname]⟩
  | storeBlocked k => exact ⟨modifyHead_sameFor h hname, rfl⟩
  | seekLogout k => exact ⟨reset_sameFor h, rfl⟩
  | storeDefault k =>
    refine ⟨?_, rfl⟩
    cases h with
    | nil => exact .nil
    | cons hab hl =>
      refine .cons ?_ (reset_sameFor hl)
      rw [hab.2 (hname _ rfl)]
      exact (sameFor_equivalence _).refl _

end Region

theorem visitors_regional : Regional visitors Task.address
    (fun u => List.Forall₂ (SameFor u)) (fun db t => t.Ok db) where
  same_equiv u := forall₂_equivalence (sameFor_equivalence u)
  ok_accept {own e t} db h := by
    cases e with
    | lost => cases h
    | recv msg residue =>
      simp only [visitors, Session.accept] at h
      split_ifs at h
      obtain rfl := Option.some.inj h
      generalize operation (receive msg) = op
      cases op with
      | username data => trivial
      | password data => exact fun a ha => absurd ha List.not_mem_nil
      | logout | clientOut => trivial
  ok_work hok _ := ok_congr (map_username_of_forall₂ (walk_sameLogin _ _)) hok
  ok_next {db db' t t'} hok h := by
    obtain ⟨a, point, ha, hv, rfl, rfl⟩ := work_next h
    have hlogin := walk_sameLogin db t
    rw [walk_some ha] at hlogin
    exact ok_congr (map_username_of_forall₂ hlogin) (visit_ok hok ha hv)
  region_next {db db' t t'} h := by
    obtain ⟨a, point, -, -, rfl, -⟩ := work_next h
    rfl
  frame hok hu := walk_sameFor hok hu

/-- **Requests for different names commute**, access by access. -/
theorem visitors_serialize : Serializes visitors (fun db t => Task.finish db t) Task.address
    (fun u => List.Forall₂ (SameFor u)) (fun db t => t.Ok db) where
  toRegional := visitors_regional
  finish_next {db db' t t'} hok h := by
    obtain ⟨a, point, ha, hv, rfl, rfl⟩ := work_next h
    exact finish_visit hok ha hv
  finish_done {db db' t r} hok h := by
    rcases work_done h with ⟨hnone, rfl, rfl⟩ | ⟨a, ha, hv, rfl⟩
    · exact finish_atEnd hok hnone
    · exact finish_visit_end ha hv
  finish_frame {db t u} hok hu := by
    have hrest : List.Forall₂ (SameFor u) (db.drop t.point.index)
        (t.rest (db.drop t.point.index)) :=
      forall₂_rest (sameFor_equivalence u).refl
        (fun a b hn hab => ⟨hab, fun e => absurd (e.symm.trans hn) hu⟩) (atName_drop hok)
    conv_lhs => rw [← List.take_append_drop t.point.index db]
    exact List.rel_append (List.forall₂_same.mpr fun a _ => (sameFor_equivalence u).refl a) hrest
  finish_local {db db' t} hok h := by
    have hlocal := rest_sameFor (List.forall₂_drop t.point.index h) (atName_drop hok)
    exact ⟨List.rel_append (List.forall₂_take t.point.index h) hlocal.1, hlocal.2⟩

/-! ## The threads and the server -/

section Server

variable {ι : Type} [DecidableEq ι]

/-- What session `s` is answered in one event. -/
def answerOf (s : ι) (e : Entry ι) : Option (Option Reply) :=
  if e.input.session = s then e.output.map Outcome.sent else none

/-- What the requests of session `s` were answered, oldest first; `none` if nothing is sent. -/
def answersOf (s : ι) : List (Entry ι) → List (Option Reply)
  | [] => []
  | e :: h => answersOf s h ++ (answerOf s e).toList

/-- The requests that the threads take under a schedule, as events of the server. -/
def eventsTaken (accountDB : Option ℕ) (heap : Heap) (is : List (Input ι Arrival)) :
    List (Event ι) :=
  (arrivals (handlers accountDB) (launch heap) is).map fun x => x.2.event x.1

/-- No two requests for one name are handled at the same time. -/
abbrev OnePerName (accountDB : Option ℕ) (c : ThreadConfig ι) : Input ι Arrival → Prop :=
  OnePerRegion (handlers accountDB) Task.address c

/-- The threads agree with the server that handles the same requests one at a time: the sessions
do, the replies do as far as they have been given, and so do the records of every name that no
request is at work on. -/
structure Agrees (accountDB : Option ℕ) (c : ThreadConfig ι) (d : Config ι) : Prop where
  sessions : c.state.own = d.state.session
  answers : ∀ s, results s c.history <+: (answersOf s d.history).map Except.ok
  answered : ∀ s, c.state.task s = none →
    results s c.history = (answersOf s d.history).map Except.ok
  records : ∃ db, IsList c.state.memory accountDB db ∧
    ∀ u, (∀ s t, c.state.task s = some t → t.address ≠ u) →
      recordsOf u db = recordsOf u d.state.accountDB
  accounts : (∀ s, c.state.task s = none) → IsList c.state.memory accountDB d.state.accountDB

theorem serialStep_event (σ : Server ι) (s : ι) (e : Arrival) :
    serialStep visitors (fun db t => Task.finish db t) ⟨σ.accountDB, σ.session⟩ (s, e) =
      (⟨(step σ (e.event s)).1.accountDB, (step σ (e.event s)).1.session⟩,
        (step σ (e.event s)).2.map fun o => (s, o.sent)) := by
  cases e with
  | lost => rfl
  | recv msg residue =>
    cases hl : (σ.session s).live with
    | false =>
      have hacc : Session.accept 0 (σ.session s) (.recv msg residue) =
          (σ.session s, (none : Option (Task ℕ ℕ))) := by rw [Session.accept, hl]; rfl
      rw [serialStep_none (congrArg Prod.snd hacc)]
      simp only [visitors, hacc, Arrival.event, step_recv_dead hl, Function.update_eq_self]
      rfl
    | true =>
      have hacc : Session.accept 0 (σ.session s) (.recv msg residue) =
          (⟨bufferAfter (σ.session s).state (operation (receive msg)),
            liveAfter (operation (receive msg))⟩,
            (some (Task.start 0 (σ.nameOf s residue) (operation (receive msg))) :
              Option (Task ℕ ℕ))) := by
        rw [Session.accept, hl]; rfl
      obtain ⟨o, ho⟩ : ∃ o, (step σ (.recv s msg residue)).2 = some o := by
        simp only [step, if_pos hl]
        exact ⟨_, rfl⟩
      have hreply : (step σ (.recv s msg residue)).2.bind Outcome.sent =
          replyAfter (σ.nameOf s residue) σ.accountDB (operation (receive msg)) := step_reply hl
      rw [ho, Option.bind_some] at hreply
      rw [serialStep_some (congrArg Prod.snd hacc)]
      simp only [visitors, hacc, Arrival.event, finish_start, step_recv hl, ho, Option.map_some,
        hreply]

/-- The serial machine is the server. -/
theorem run_serial (db : List Account) (as : List (ι × Arrival)) :
    let e := run (serialStep visitors fun db t => Task.finish db t)
      (start ⟨db, fun _ => Session.fresh⟩) as
    let d := run step (serve db) (as.map fun x => x.2.event x.1)
    e.state = ⟨d.state.accountDB, d.state.session⟩ ∧
      ∀ s, results s e.history = answersOf s d.history := by
  have hrun : ∀ (e : StepRun.Config (Serial ι Session (List Account)) (ι × Arrival)
        (Option (ι × Option Reply))) (d : Config ι),
      e.state = ⟨d.state.accountDB, d.state.session⟩ →
      (∀ s, results s e.history = answersOf s d.history) →
      (run (serialStep visitors fun db t => Task.finish db t) e as).state =
          ⟨(run step d (as.map fun x => x.2.event x.1)).state.accountDB,
            (run step d (as.map fun x => x.2.event x.1)).state.session⟩ ∧
        ∀ s, results s (run (serialStep visitors fun db t => Task.finish db t) e as).history =
          answersOf s (run step d (as.map fun x => x.2.event x.1)).history := by
    induction as with
    | nil => exact fun e d hstate hres => ⟨hstate, hres⟩
    | cons x as ih =>
      intro e d hstate hres
      obtain ⟨s, a⟩ := x
      have hstep := serialStep_event d.state s a
      rw [← hstate] at hstep
      refine ih _ _ (congrArg Prod.fst hstep) fun s' => ?_
      have hsession : (a.event s).session = s := by cases a <;> rfl
      simp only [advance_history, results, answersOf, resultOf, answerOf, record, hstep, hres,
        hsession]
      cases (step d.state (a.event s)).2 with
      | none => split_ifs <;> rfl
      | some o => rfl
  exact hrun _ _ rfl fun _ => rfl

theorem recordsOf_congr {u : CString} {l l' : List Account} (h : List.Forall₂ (SameFor u) l l') :
    recordsOf u l = recordsOf u l' := by
  induction h with
  | nil => rfl
  | cons hab _ ih =>
    rw [recordsOf_cons, recordsOf_cons, ← hab.1.1, ih]
    split_ifs with hn
    · rw [hab.2 hn]
    · rfl

theorem eq_of_sameFor {l l' : List Account} (h : ∀ u, List.Forall₂ (SameFor u) l l') : l = l' := by
  induction l generalizing l' with
  | nil => exact (List.forall₂_nil_left_iff.mp (h (.ofBytes []))).symm
  | cons a l ih =>
    cases l' with
    | nil => exact nomatch h a.username
    | cons b l' =>
      have hab := (List.forall₂_cons.mp (h a.username)).1.2 rfl
      rw [hab, ih fun u => (List.forall₂_cons.mp (h u)).2]

/-- **Requests for different names are atomic.** If no two requests for one name are ever handled at
the same time, the threads agree with the server that handles the requests one after the other, in
the order in which they arrive. -/
theorem threads_atomic {heap : Heap} {accountDB : Option ℕ} {db : List Account}
    (hlist : IsList heap accountDB db) {is : List (Input ι Arrival)}
    (hone : Always (Threads.step (handlers accountDB)) (OnePerName accountDB)
      (start (launch heap)) is) :
    Agrees accountDB (runThreads accountDB heap is)
      (run step (serve db) (eventsTaken accountDB heap is)) := by
  obtain ⟨addrs, rfl, hchain⟩ := hlist.chain
  have href := handlers_refine addrs
  have hstart : Mirrors addrs (start (launch heap))
      (start (idle db fun _ : ι => Session.fresh)) := mirrors_start hchain
  have hrel := mirrors_run hchain is
  have hone' : Always (Threads.step visitors) (OnePerRegion visitors Task.address)
      (start (idle db fun _ : ι => Session.fresh)) is :=
    always_related (fun _ _ i h => href.advance h i)
      (fun _ _ _ h => href.onePerRegion (fun _ _ => Task.At.address) h) hstart hone
  have hlinked : Linked (fun db t => Task.finish db t) Task.address
      (fun u => List.Forall₂ (SameFor u)) (fun db t => t.Ok db) (runVisitors db is) _ :=
    serializable visitors_serialize db (fun _ : ι => Session.fresh) hone'
  have hevents : eventsTaken addrs[0]? heap is =
      (arrivals visitors (idle db fun _ : ι => Session.fresh) is).map fun x => x.2.event x.1 :=
    congrArg (List.map _) (href.arrivals hstart is)
  obtain ⟨hstate, hanswers⟩ :=
    run_serial db (arrivals visitors (idle db fun _ : ι => Session.fresh) is)
  rw [← hevents] at hstate hanswers
  have hmemory : ∀ u, (∀ s t, (runVisitors db is).state.task s = some t → t.address ≠ u) →
      List.Forall₂ (SameFor u) (runVisitors db is).state.memory
        (run step (serve db) (eventsTaken addrs[0]? heap is)).state.accountDB := by
    intro u hu
    have hfree := hlinked.free u hu
    rwa [hstate] at hfree
  refine ⟨?_, fun s => ?_, fun s hs => ?_, ⟨_, hrel.memory.isList, fun u hu => ?_⟩,
    fun hidle => ?_⟩
  · rw [hrel.own, hlinked.own, hstate]
  · rw [hrel.results, ← hanswers, ← hlinked.results, List.map_append]
    exact List.prefix_append _ _
  · rw [hrel.results, ← hanswers, ← hlinked.results, hrel.task_none.mp hs, Option.map_none,
      Option.toList_none, List.append_nil]
  · refine recordsOf_congr (hmemory u fun s t' ht' => ?_)
    obtain ⟨t, ht, hat⟩ := hrel.task_some ht'
    exact hat.address ▸ hu s t ht
  · have hall := eq_of_sameFor fun u => hmemory u fun s t' ht' =>
      nomatch (hrel.task_none.mp (hidle s)).symm.trans ht'
    exact hall ▸ hrel.memory.isList

/-- A request that arrives at thread `s`, and `n` accesses of the thread. -/
def handle (s : ι) (msg : String) (n : ℕ) : List (Input ι Arrival) :=
  .receive s (.recv (ascii msg) (.ofAscii "")) :: List.replicate n (.work s)

/-- A request of `bob` from end to end, while one of `alice` is under way. -/
def bobAmidAlice : List (Input Bool Arrival) :=
  handle true "1alice" 1 ++ handle false "1bob" 4 ++ [.work true, .work true]

theorem threads_atomic_alice :
    Always (Threads.step (handlers (some 0))) (OnePerName (some 0))
        (start (launch (cellsOf 0 [alice, bob]))) bobAmidAlice ∧
      Agrees (some 0) (runThreads (some 0) (cellsOf 0 [alice, bob]) bobAmidAlice)
        (run step (serve [alice, bob]) (eventsTaken (some 0) (cellsOf 0 [alice, bob])
          bobAmidAlice)) := by
  have hone : Always (Threads.step (handlers (some 0))) (OnePerName (some 0))
      (start (launch (cellsOf 0 [alice, bob]))) bobAmidAlice := by
    refine ⟨fun _ _ _ s' t' h => (nomatch h), trivial, fun _ t ht s' t' ht' => ?_,
      ⟨trivial, trivial, trivial, trivial, trivial, trivial, trivial⟩⟩
    obtain rfl := Option.some.inj ht
    cases s' with
    | false => exact nomatch ht'
    | true =>
      obtain rfl := Option.some.inj ht'
      decide
  exact ⟨hone, threads_atomic (isList_cellsOf [alice, bob]) hone⟩

/-- Two sessions of `alice` that give a wrong password each: the second loads the counter before the
first stores it. -/
def overlap : List (Input Bool Arrival) :=
  handle true "1alice" 3 ++ handle false "1alice" 3 ++ handle true "2x" 3 ++ handle false "2x" 5 ++
    [.work true, .work true]

/-- Two wrong passwords that overlap count as one. -/
theorem lost_update :
    (runThreads (some 0) (cellsOf 0 [alice]) overlap).state.memory.counter 0 = .ok 1 ∧
      (run step (serve [alice]) (eventsTaken (some 0) (cellsOf 0 [alice])
        overlap)).state.accountDB.map Account.counter = [2] := by
  decide +kernel

end Server

end OnlineCaro
