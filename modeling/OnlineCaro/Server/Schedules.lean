import OnlineCaro.Server.Atomicity

/-!
# Every schedule

What holds however the accesses of the handlers are interleaved, also where requests for one name
overlap.

* **`threads_safe`**: no access to the list is faulty, and it keeps its nodes, names and passwords.
* `Task.cost`, **`handlers_waitFree`**: a request is answered after a number of accesses that
  depends on the length of the list only.
* `Fits`, **`replies_fit`**: every request is answered, in its turn, as its operation and the login
  data of the list require; so `PASSWORD_SUCCESS` is sent for the right password only.
* **`counter_le_wrong`**: an account is never blocked for wrong passwords before the third one.
-/

namespace OnlineCaro

open CMem StepRun Threads

variable {ι : Type} [DecidableEq ι]

/-! ## Wait-freedom -/

/-- A bound on the accesses that a request still makes after the next one. -/
def Task.cost (db : List Account) (t : Task ℕ ℕ) : ℕ :=
  match t.point with
  | .seekUsername k => (db.length - k) + 2
  | .testBlocked _ => 1
  | .testLoggedIn _ => 0
  | .seekPassword k => (db.length - k) + db.length + 5
  | .storeLoggedIn _ => 0
  | .seekCounter k => (db.length - k) + 4
  | .loadCounter _ => 3
  | .storeCounter _ _ => 2
  | .testCounter _ => 1
  | .storeBlocked _ => 0
  | .seekLogout k => 2 * (db.length - k)
  | .storeDefault k => 2 * (db.length - k) - 1

theorem cost_le (db : List Account) (t : Task ℕ ℕ) : t.cost db ≤ 2 * db.length + 5 := by
  unfold Task.cost
  split <;> omega

theorem walk_length (db : List Account) (t : Task ℕ ℕ) : (t.walk db).1.length = db.length :=
  (walk_sameLogin db t).length_eq.symm

theorem cost_congr {db db' : List Account} (h : db.length = db'.length) (t : Task ℕ ℕ) :
    t.cost db = t.cost db' := by
  unfold Task.cost
  rw [h]

theorem cost_next {db db' : List Account} {t t' : Task ℕ ℕ}
    (h : visitors.work db t = (db', .inl t')) : t'.cost db' < t.cost db := by
  obtain ⟨a, point, ha, hv, rfl, rfl⟩ := work_next h
  have hk : t.point.index < db.length := (List.getElem?_eq_some_iff.mp ha).1
  have hlen : (db.set t.point.index (t.visit a).1).length = db.length := List.length_set
  rw [cost_congr hlen]
  obtain ⟨name, op, p⟩ := t
  cases p <;> simp only [Task.visit, reduceCtorEq, Sum.inl.injEq] at hv <;>
    simp only [Point.index] at hk
  case seekUsername k =>
    subst hv
    split_ifs <;> simp only [Task.cost] <;> omega
  case testBlocked k =>
    split_ifs at hv
    obtain rfl := Sum.inl.inj hv
    exact Nat.zero_lt_one
  case seekPassword k =>
    subst hv
    split_ifs <;> simp only [Task.cost] <;> omega
  case seekCounter k =>
    subst hv
    split_ifs <;> simp only [Task.cost] <;> omega
  case loadCounter k =>
    subst hv
    exact Nat.lt_succ_self 2
  case storeCounter k counter =>
    subst hv
    exact Nat.lt_succ_self 1
  case testCounter k =>
    split_ifs at hv
    obtain rfl := Sum.inl.inj hv
    exact Nat.zero_lt_one
  case seekLogout k =>
    subst hv
    split_ifs <;> simp only [Task.cost] <;> omega
  case storeDefault k =>
    subst hv
    simp only [Task.cost]
    omega

/-! ## Replies -/

/-- The replies to an operation in a session named `name` that the login data of the list allow. -/
def Fits (db : List Account) (name : CString) : Operation → Option Reply → Prop
  | .username data, r => match findNode db data with
    | none => r = some .usernameNotFound
    | some _ => r = some .usernameSuccess ∨ r = some .accountIsBlocked ∨ r = some .accountIsLoggedIn
  | .password data, r => match findNode db name with
    | none => r = none
    | some a =>
      if a.password = data then r = some .passwordSuccess
      else r = some .passwordIncorrect ∨ r = some .accountIsBlocked
  | .logout, r => r = some .logoutSuccess
  | .clientOut, r => r = none

/-- What a handler knows of the login data in the list. -/
def Task.Knows (db : List Account) (t : Task ℕ ℕ) : Prop :=
  match t.point with
  | .seekUsername k => (∃ data, t.op = .username data) ∧ ∀ a ∈ db.take k, a.username ≠ t.address
  | .testBlocked _ | .testLoggedIn _ =>
    (∃ data, t.op = .username data) ∧ ∃ a, findNode db t.address = some a
  | .seekPassword k => (∃ data, t.op = .password data) ∧ ∀ a ∈ db.take k, a.username ≠ t.address
  | .storeLoggedIn _ => ∃ a, findNode db t.name = some a ∧ t.op = .password a.password
  | .seekCounter k => (∃ a, findNode db t.name = some a ∧ t.op.wrongFor a = true) ∧
    ∀ a ∈ db.take k, a.username ≠ t.name
  | .loadCounter k | .storeCounter k _ | .testCounter k | .storeBlocked k =>
    ∃ a, findNode db t.name = some a ∧ t.op.wrongFor a = true ∧ db[k]? = some a ∧
      ∀ b ∈ db.take k, b.username ≠ t.name
  | .seekLogout _ | .storeDefault _ => t.op.LogsOut

section Knows

variable {db m : List Account} {t : Task ℕ ℕ} {a b : Account} {k : ℕ} {name : CString}
  {point : Point ℕ ℕ} {r : Option Reply}

theorem exists_sameLogin (h : List.Forall₂ SameLogin db m) (ha : m[k]? = some a) :
    ∃ b, db[k]? = some b ∧ SameLogin b a := by
  induction h generalizing k with
  | nil => exact nomatch ha
  | cons hab _ ih =>
    cases k with
    | zero =>
      obtain rfl := Option.some.inj ha
      exact ⟨_, rfl, hab⟩
    | succ k => exact ih ha

theorem findNode_of_first (hb : db[k]? = some b) (hfirst : ∀ a ∈ db.take k, a.username ≠ name)
    (hn : b.username = name) : findNode db name = some b := by
  rw [← List.take_append_drop k db, findNode_append hfirst, (take_drop_set hb b).1, findNode_cons,
    if_pos hn]

theorem findNode_of_end (hk : m[k]? = none) (h : List.Forall₂ SameLogin db m)
    (hfirst : ∀ a ∈ db.take k, a.username ≠ name) : findNode db name = none := by
  have hle : db.length ≤ k := h.length_eq ▸ List.getElem?_eq_none_iff.mp hk
  rw [List.take_of_length_le hle] at hfirst
  refine List.find?_eq_none.mpr fun a ha => ?_
  simpa using hfirst a ha

theorem forall_take_succ (hb : db[k]? = some b) (hfirst : ∀ a ∈ db.take k, a.username ≠ name)
    (hn : b.username ≠ name) : ∀ a ∈ db.take (k + 1), a.username ≠ name := by
  intro a ha
  rw [List.take_add_one, hb] at ha
  rcases List.mem_append.mp ha with ha | ha
  · exact hfirst a ha
  · obtain rfl : a = b := by simpa using ha
    exact hn

theorem wrongFor_password {data : CString} (h : a.password ≠ data) :
    (Operation.password data).wrongFor a = true := decide_eq_true h

theorem visit_knows (h : List.Forall₂ SameLogin db m) (ht : t.Knows db)
    (ha : m[t.point.index]? = some a) (hv : (t.visit a).2 = .inl point) :
    ({ t with point } : Task ℕ ℕ).Knows db := by
  obtain ⟨b, hb, hname, hpass⟩ := exists_sameLogin h ha
  obtain ⟨name, op, p⟩ := t
  cases p <;> simp only [Task.visit, reduceCtorEq, Sum.inl.injEq] at hv
  case seekUsername k =>
    obtain ⟨hop, hfirst⟩ := ht
    subst hv
    split_ifs with hn <;> rw [← hname] at hn
    · exact ⟨hop, b, findNode_of_first hb hfirst hn⟩
    · exact ⟨hop, forall_take_succ hb hfirst hn⟩
  case testBlocked k =>
    split_ifs at hv
    obtain rfl := Sum.inl.inj hv
    exact ht
  case seekPassword k =>
    obtain ⟨⟨data, rfl⟩, hfirst⟩ := ht
    subst hv
    split_ifs with hn hp <;> rw [← hname] at hn
    · rw [← hpass] at hp
      obtain rfl : b.password = data := hp
      exact ⟨b, findNode_of_first hb hfirst hn, rfl⟩
    · rw [← hpass] at hp
      exact ⟨⟨b, findNode_of_first hb hfirst hn, wrongFor_password hp⟩,
        fun _ h => absurd h List.not_mem_nil⟩
    · exact ⟨⟨data, rfl⟩, forall_take_succ hb hfirst hn⟩
  case seekCounter k =>
    obtain ⟨⟨c, hc, hwrong⟩, hfirst⟩ := ht
    have haddr : op.address name = name := by
      cases op <;> first | rfl | exact absurd hwrong Bool.false_ne_true
    subst hv
    split_ifs with hn <;> rw [← hname, Task.address, haddr] at hn
    · obtain rfl := Option.some.inj ((findNode_of_first hb hfirst hn).symm.trans hc)
      exact ⟨b, hc, hwrong, hb, hfirst⟩
    · exact ⟨⟨c, hc, hwrong⟩, forall_take_succ hb hfirst hn⟩
  case loadCounter k =>
    subst hv
    exact ht
  case storeCounter k counter =>
    subst hv
    exact ht
  case testCounter k =>
    split_ifs at hv
    obtain rfl := Sum.inl.inj hv
    exact ht
  case seekLogout k =>
    subst hv
    split_ifs <;> exact ht
  case storeDefault k =>
    subst hv
    exact ht

theorem fits_wrong (hb : findNode db name = some b) {op : Operation} (hwrong : op.wrongFor b = true)
    (hr : r = some .passwordIncorrect ∨ r = some .accountIsBlocked) : Fits db name op r := by
  cases op with
  | password data =>
    have hne : b.password ≠ data := of_decide_eq_true hwrong
    simp only [Fits, hb, if_neg hne]
    exact hr
  | username data => exact absurd hwrong Bool.false_ne_true
  | logout => exact absurd hwrong Bool.false_ne_true
  | clientOut => exact absurd hwrong Bool.false_ne_true

theorem fits_logout {op : Operation} (h : op.LogsOut) :
    Fits db name op (⟨name, op, point⟩ : Task ℕ ℕ).logoutReply := by
  cases op with
  | username data => exact h.elim
  | password data => exact h.elim
  | logout => rfl
  | clientOut => rfl

theorem visit_fits (h : List.Forall₂ SameLogin db m) (ht : t.Knows db)
    (ha : m[t.point.index]? = some a) (hv : (t.visit a).2 = .inr r) : Fits db t.name t.op r := by
  obtain ⟨b, hb, -, -⟩ := exists_sameLogin h ha
  have husername : ∀ {name op} {r : Reply}, (∃ data, op = .username data) →
      (∃ a, findNode db (Operation.address name op) = some a) →
      r = .usernameSuccess ∨ r = .accountIsBlocked ∨ r = .accountIsLoggedIn →
      Fits db name op (some r) := by
    rintro name _ r ⟨data, rfl⟩ ⟨a, ha⟩ hr
    simp only [Fits, show findNode db data = some a from ha, Option.some.injEq]
    exact hr
  obtain ⟨name, op, p⟩ := t
  cases p <;> simp only [Task.visit, reduceCtorEq, Sum.inr.injEq] at hv
  case testBlocked k =>
    split_ifs at hv
    obtain rfl := Sum.inr.inj hv
    exact husername ht.1 ht.2 (Or.inr (Or.inl rfl))
  case testLoggedIn k =>
    subst hv
    refine husername ht.1 ht.2 ?_
    split_ifs
    · exact Or.inr (Or.inr rfl)
    · exact Or.inl rfl
  case storeLoggedIn k =>
    obtain ⟨c, hc, rfl⟩ := ht
    subst hv
    simp only [Fits, hc, if_true]
  case testCounter k =>
    obtain ⟨c, hc, hwrong, -⟩ := ht
    split_ifs at hv
    obtain rfl := Sum.inr.inj hv
    exact fits_wrong hc hwrong (Or.inl rfl)
  case storeBlocked k =>
    obtain ⟨c, hc, hwrong, -⟩ := ht
    subst hv
    exact fits_wrong hc hwrong (Or.inr rfl)

theorem atEnd_fits (h : List.Forall₂ SameLogin db m) (ht : t.Knows db) (hok : t.Ok m)
    (hk : m[t.point.index]? = none) : Fits db t.name t.op t.atEnd := by
  have hnode : ∀ k : ℕ, k = t.point.index → (m[k]?).map Account.username ≠ some t.address := by
    rintro k rfl
    rw [hk]
    exact nofun
  obtain ⟨name, op, p⟩ := t
  cases p with
  | seekUsername k =>
    obtain ⟨⟨data, rfl⟩, hfirst⟩ := ht
    simp only [Fits, show findNode db data = none from findNode_of_end hk h hfirst]
    rfl
  | seekPassword k =>
    obtain ⟨⟨data, rfl⟩, hfirst⟩ := ht
    simp only [Fits, show findNode db name = none from findNode_of_end hk h hfirst]
    rfl
  | seekCounter k =>
    obtain ⟨⟨c, hc, hwrong⟩, -⟩ := ht
    exact fits_wrong hc hwrong (Or.inl rfl)
  | seekLogout k => exact fits_logout ht
  -- past the comparison there is a record
  | testBlocked k | testLoggedIn k | storeLoggedIn k | loadCounter k | testCounter k
  | storeBlocked k | storeDefault k | storeCounter k _ => exact absurd hok (hnode _ rfl)

end Knows

/-- What a request that started as `t₀` knows at its next access. -/
structure Task.Follows (db : List Account) (t₀ t : Task ℕ ℕ) : Prop where
  name : t.name = t₀.name
  op : t.op = t₀.op
  knows : t.Knows db
  ok : t.Ok db

theorem knows_start (db : List Account) (name : CString) (op : Operation) :
    (Task.start 0 name op : Task ℕ ℕ).Knows db := by
  cases op with
  | username data => exact ⟨⟨data, rfl⟩, fun _ h => absurd h List.not_mem_nil⟩
  | password data => exact ⟨⟨data, rfl⟩, fun _ h => absurd h List.not_mem_nil⟩
  | logout | clientOut => trivial

/-- **What no interference can change.** -/
theorem visitors_sound (db : List Account) : Sound visitors (List.Forall₂ SameLogin db)
    (Task.Follows db) (fun t r => Fits db t.name t.op r) where
  start {own e t} h := by
    refine ⟨rfl, rfl, ?_, visitors_serialize.ok_accept db h⟩
    cases e with
    | lost => cases h
    | recv msg residue =>
      simp only [visitors, Session.accept] at h
      split_ifs at h
      obtain rfl := Option.some.inj h
      exact knows_start db _ _
  keep hm _ := (forall₂_equivalence sameLogin_equivalence).trans hm (walk_sameLogin _ _)
  next {m m' t₀ t t'} hm ht h := by
    have hnames := map_username_of_forall₂ hm
    have hok := visitors_serialize.ok_next (ok_congr hnames ht.ok) h
    have hnames' := map_username_of_forall₂ (walk_sameLogin m t)
    rw [show (t.walk m).1 = m' from congrArg Prod.fst h] at hnames'
    obtain ⟨a, point, ha, hv, rfl, -⟩ := work_next h
    exact ⟨ht.name, ht.op, visit_knows hm ht.knows ha hv,
      ok_congr (hnames.trans hnames').symm hok⟩
  done {m m' t₀ t r} hm ht h := by
    rw [← ht.name, ← ht.op]
    rcases work_done h with ⟨hnone, -, rfl⟩ | ⟨a, ha, hv, -⟩
    · exact atEnd_fits hm ht.knows (ok_congr (map_username_of_forall₂ hm) ht.ok) hnone
    · exact visit_fits hm ht.knows ha hv

section Runs

variable {heap : Heap} {accountDB : Option ℕ} {db : List Account}

theorem soundRun_visitors (db : List Account) (is : List (Input ι Arrival)) :
    SoundRun visitors (List.Forall₂ SameLogin db) (Task.Follows db)
      (fun t r => Fits db t.name t.op r) (runVisitors db is) :=
  sound_run (visitors_sound db) ((forall₂_equivalence sameLogin_equivalence).refl db) is

/-- **Safety of the list.** Under every schedule no access to a node goes through a bad pointer or
reads an unwritten field, and `accountDB` stays a list of the same records in the same order, with
the names and the passwords that were loaded. -/
theorem threads_safe (hlist : IsList heap accountDB db) (is : List (Input ι Arrival)) :
    (∀ s, ∀ result ∈ results s (runThreads accountDB heap is).history, ∃ r, result = .ok r) ∧
      ∃ db', IsList (runThreads accountDB heap is).state.memory accountDB db' ∧
        List.Forall₂ SameLogin db db' := by
  obtain ⟨addrs, rfl, hchain⟩ := hlist.chain
  have hrel := mirrors_run hchain is
  exact ⟨mirrors_ok hrel, _, hrel.memory.isList, (soundRun_visitors db is).inv⟩

theorem threads_safe_alice :
    IsList (cellsOf 0 [alice]) (some 0) [alice] ∧
      (∀ s, ∀ result ∈ results s (runThreads (some 0) (cellsOf 0 [alice]) overlap).history,
        ∃ r, result = .ok r) ∧
      ∃ db', IsList (runThreads (some 0) (cellsOf 0 [alice]) overlap).state.memory (some 0) db' ∧
        List.Forall₂ SameLogin [alice] db' :=
  ⟨isList_cellsOf [alice], threads_safe (isList_cellsOf [alice]) overlap⟩

/-- **Wait-freedom of the handlers.** A thread with a request in progress has answered it after at
most `2 * n + 6` accesses of its own to a list of `n` accounts, whatever the others do. -/
theorem handlers_waitFree (hlist : IsList heap accountDB db) (is js : List (Input ι Arrival))
    {s : ι} (hbusy : (runThreads accountDB heap is).state.task s ≠ none)
    (hturns : 2 * db.length + 6 ≤ turns s js) :
    (results s (runThreads accountDB heap is).history).length <
      (results s (runThreads accountDB heap (is ++ js)).history).length := by
  obtain ⟨addrs, rfl, hchain⟩ := hlist.chain
  have hrel := mirrors_run hchain is
  have hlen : (runVisitors db is).state.memory.length = db.length :=
    (soundRun_visitors db is).inv.length_eq.symm
  obtain ⟨t, ht⟩ := Option.ne_none_iff_exists'.mp (mt hrel.task_none.mpr hbusy)
  have hcost := cost_le (runVisitors db is).state.memory t
  have hnext : ∀ db db' (t t' : Task ℕ ℕ), visitors.work db t = (db', .inl t') →
      t'.cost db' < t.cost db := fun _ _ _ _ => cost_next
  have hother : ∀ db (t t' : Task ℕ ℕ), t.cost (visitors.work db t').1 ≤ t.cost db :=
    fun db t t' => (cost_congr (walk_length db t') t).le
  have hmore := waitFree hnext hother ht (Nat.lt_of_lt_of_le (by omega) hturns)
  have happend : run (Threads.step visitors) (runVisitors db is) js = runVisitors db (is ++ js) :=
    (run_append _ is js).symm
  rw [happend] at hmore
  rwa [hrel.results, (mirrors_run hchain (is ++ js)).results, List.length_map, List.length_map]

/-- A search that has just begun, while another thread is at work. -/
theorem handlers_waitFree_alice :
    (runThreads (some 0) (cellsOf 0 [alice]) (handle true "1alice" 1)).state.task true ≠ none ∧
      (results true (runThreads (some 0) (cellsOf 0 [alice])
        (handle true "1alice" 1)).history).length <
      (results true (runThreads (some 0) (cellsOf 0 [alice]) (handle true "1alice" 1 ++
        (handle false "1alice" 2 ++ List.replicate 8 (.work true)))).history).length := by
  have hbusy : (runThreads (some 0) (cellsOf 0 [alice]) (handle true "1alice" 1)).state.task true ≠
      none := by decide +kernel
  exact ⟨hbusy, handlers_waitFree (isList_cellsOf [alice]) _ _ hbusy (by decide +kernel)⟩

/-- The requests that thread `s` has taken, oldest first, each with the name its session had. -/
def requestsTaken (accountDB : Option ℕ) (s : ι) (c : ThreadConfig ι) :
    List (CString × Operation) :=
  (tasks (handlers accountDB) s c.history).map fun t => (t.name, t.op)

/-- **Every request is answered in its turn.** Under every schedule the replies of a session answer
its requests one by one, all but the one in progress, each with a reply that fits. -/
theorem replies_fit (hlist : IsList heap accountDB db) (is : List (Input ι Arrival)) (s : ι) :
    ∃ answered pending, requestsTaken accountDB s (runThreads accountDB heap is) =
        answered ++ pending ∧
      (if (runThreads accountDB heap is).state.task s = none then pending.length = 0
        else pending.length = 1) ∧
      List.Forall₂ (fun request result => ∃ r, result = .ok r ∧ Fits db request.1 request.2 r)
        answered (results s (runThreads accountDB heap is).history) := by
  obtain ⟨addrs, rfl, hchain⟩ := hlist.chain
  have hrel := mirrors_run hchain is
  have hsound := soundRun_visitors db is
  have htaken : requestsTaken addrs[0]? s (runThreads addrs[0]? heap is) =
      (tasks visitors s (runVisitors db is).history).map fun t => (t.name, t.op) := by
    refine List.forall₂_eq_eq_eq ▸ List.forall₂_map_left_iff.mpr (List.forall₂_map_right_iff.mpr ?_)
    exact ((handlers_refine addrs).tasks hrel.history s).imp fun _ _ h => Prod.ext h.name h.op
  have hfit : ∀ {ts : List (Task ℕ ℕ)} {rs : List (Option Reply)},
      List.Forall₂ (fun t r => Fits db t.name t.op r) ts rs →
      List.Forall₂ (fun request result => ∃ r, result = .ok r ∧ Fits db request.1 request.2 r)
        (ts.map fun t => (t.name, t.op))
        (rs.map fun r => (.ok r : Except AccessFault (Option Reply))) := fun h =>
    List.forall₂_map_left_iff.mpr (List.forall₂_map_right_iff.mpr
      (h.imp fun _ r hr => ⟨r, rfl, hr⟩))
  rw [htaken, hrel.results]
  cases hs : (runVisitors db is).state.task s with
  | none =>
    exact ⟨_, [], (List.append_nil _).symm, by rw [if_pos (hrel.task_none.mpr hs)]; rfl,
      hfit (hsound.waiting s hs)⟩
  | some t =>
    obtain ⟨ts, t₀, hts, -, hpost⟩ := hsound.busy s t hs
    refine ⟨_, [(t₀.name, t₀.op)], ?_, ?_, hfit hpost⟩
    · rw [hts, List.map_append]
      rfl
    · rw [if_neg fun h => nomatch (hrel.task_none.mp h).symm.trans hs]
      rfl

theorem replies_fit_alice :
    ∃ answered pending, requestsTaken (some 0) true
        (runThreads (some 0) (cellsOf 0 [alice]) overlap) = answered ++ pending ∧
      (if (runThreads (some 0) (cellsOf 0 [alice]) overlap).state.task true = none
        then pending.length = 0 else pending.length = 1) ∧
      List.Forall₂
        (fun request result => ∃ r, result = .ok r ∧ Fits [alice] request.1 request.2 r)
        answered (results true (runThreads (some 0) (cellsOf 0 [alice]) overlap).history) :=
  replies_fit (isList_cellsOf [alice]) overlap true

end Runs

/-! ## Wrong passwords -/

section WrongPasswords

variable {P N : Type} (a : Account)

/-- A password request in the name of `a`, with a wrong password. -/
def Task.wrongFor (t : Task P N) : Bool := decide (t.name = a.username) && t.op.wrongFor a

/-- The store of the counter, for a wrong password of `a`. -/
def Task.counts (t : Task ℕ ℕ) : Bool :=
  (match t.point with
    | .storeCounter _ _ => true
    | _ => false) && t.wrongFor a

/-- A wrong password of `a` that was not counted yet. -/
def Task.Uncounted (t : Task ℕ ℕ) : Prop :=
  t.wrongFor a = true ∧ match t.point with
    | .seekPassword _ | .seekCounter _ | .loadCounter _ | .storeCounter _ _ => True
    | _ => False

/-- The wrong passwords for `a` that were received, over all sessions. -/
def wrongReceived (accountDB : Option ℕ) (c : ThreadConfig ι) : ℕ :=
  c.history.countP (begins (handlers accountDB) (Task.wrongFor a))

variable {a}

theorem toInt_add_one_le (v : Int32) : (v + 1).toInt ≤ v.toInt + 1 := by
  have hlow := v.minValue_le_toInt
  have hbmod : (v + 1).toInt = (v.toInt + 1).bmod (2 ^ 32) := Int32.toInt_add v 1
  rw [hbmod]
  have := Int32.toInt_minValue
  simp only [Int.bmod]
  omega

/-- A wrong password is counted once. -/
theorem counts_le_wrong (a : Account) (db : List Account) (is : List (Input ι Arrival)) :
    (runVisitors db is).history.countP (passes (Task.counts a)) ≤
      (runVisitors db is).history.countP (begins visitors (Task.wrongFor a)) := by
  have hstart : ∀ own e t, (visitors.accept own e).2 = some t → Task.Uncounted a t →
      Task.wrongFor a t = true := fun _ _ _ _ h => h.1
  refine passes_le_begins hstart (fun t ht => ?_) (fun m m' t t' h hah => ?_) db _ is
  · obtain ⟨name, op, p⟩ := t
    rw [Task.counts, Bool.and_eq_true] at ht
    cases p <;> first | exact ⟨ht.2, trivial⟩ | exact absurd ht.1 Bool.false_ne_true
  · obtain ⟨b, point, -, hv, rfl, -⟩ := work_next h
    obtain ⟨name, op, p⟩ := t
    obtain ⟨hwrong, hpoint⟩ := hah
    have hwrong' : (⟨name, op, p⟩ : Task ℕ ℕ).wrongFor a = true := hwrong
    cases p <;> simp only [Task.visit, reduceCtorEq, Sum.inl.injEq] at hv
    case seekUsername k =>
      subst hv
      split_ifs at hpoint <;> exact hpoint.elim
    case testBlocked k =>
      split_ifs at hv
      obtain rfl := Sum.inl.inj hv
      exact hpoint.elim
    case seekPassword k => exact ⟨⟨hwrong', trivial⟩, rfl⟩
    case seekCounter k => exact ⟨⟨hwrong', trivial⟩, rfl⟩
    case loadCounter k => exact ⟨⟨hwrong', trivial⟩, rfl⟩
    case storeCounter k counter =>
      subst hv
      exact hpoint.elim
    case testCounter k =>
      split_ifs at hv
      obtain rfl := Sum.inl.inj hv
      exact hpoint.elim
    case seekLogout k =>
      subst hv
      split_ifs at hpoint <;> exact hpoint.elim
    case storeDefault k =>
      subst hv
      exact hpoint.elim

/-- The counter that `a` has if every store of it is counted. -/
def limit (a : Account) (c : VisitConfig ι) : ℤ :=
  a.counter.toInt + (c.history.countP (passes (Task.counts a)) : ℕ)

/-- The record of `a`, at position `k`, and the requests that are at work on its counter. -/
structure Bounded (db : List Account) (a : Account) (k : ℕ) (c : VisitConfig ι) : Prop where
  sound : SoundRun visitors (List.Forall₂ SameLogin db) (Task.Follows db)
    (fun t r => Fits db t.name t.op r) c
  counter : ∀ b, c.state.memory[k]? = some b → b.counter.toInt ≤ limit a c
  blocked : ∀ b, c.state.memory[k]? = some b → b.status = statusBlocked →
    a.status = statusBlocked ∨ 3 ≤ limit a c
  loaded : ∀ s name op counter, c.state.task s = some ⟨name, op, .storeCounter k counter⟩ →
    counter.toInt ≤ limit a c
  tested : ∀ s name op, c.state.task s = some ⟨name, op, .storeBlocked k⟩ → 3 ≤ limit a c

variable {db : List Account} {k : ℕ} {c : VisitConfig ι} {t : Task ℕ ℕ}

theorem limit_advance (a : Account) (c : VisitConfig ι) (i : Input ι Arrival) :
    limit a (advance (Threads.step visitors) c i) = limit a c +
      if passes (Task.counts a) (record (Threads.step visitors) c.state i) = true then 1
      else 0 := by
  rw [limit, limit, advance_history, List.countP_cons]
  split_ifs <;> push_cast <;> omega

theorem limit_mono (a : Account) (c : VisitConfig ι) (i : Input ι Arrival) :
    limit a c ≤ limit a (advance (Threads.step visitors) c i) := by
  rw [limit_advance]
  split_ifs <;> omega

theorem wrongFor_of_knows (hk : db[k]? = some a) {name : CString} {op : Operation}
    (h : ∃ b, findNode db name = some b ∧ op.wrongFor b = true ∧ db[k]? = some b ∧
      ∀ c ∈ db.take k, c.username ≠ name) (point : Point ℕ ℕ) :
    (⟨name, op, point⟩ : Task ℕ ℕ).wrongFor a = true := by
  obtain ⟨b, hb, hwrong, hkb, -⟩ := h
  obtain rfl := Option.some.inj (hk.symm.trans hkb)
  rw [Task.wrongFor, hwrong, username_of_findNode hb, decide_eq_true rfl]
  rfl

theorem visit_counter (hk : db[k]? = some a) (ht : t.Knows db) (hi : t.point.index = k)
    {b : Account} {n : ℤ} (hb : b.counter.toInt ≤ n)
    (hload : ∀ counter, t.point = .storeCounter k counter → counter.toInt ≤ n) :
    (t.visit b).1.counter.toInt ≤ n + if t.counts a = true then 1 else 0 := by
  have hle : n ≤ n + if t.counts a = true then 1 else 0 := by split_ifs <;> omega
  obtain ⟨name, op, p⟩ := t
  cases p with
  | storeCounter k' counter =>
    obtain rfl : k' = k := hi
    have hcounts : (⟨name, op, .storeCounter k' counter⟩ : Task ℕ ℕ).counts a = true :=
      wrongFor_of_knows hk ht _
    rw [if_pos hcounts]
    exact Int.le_trans (toInt_add_one_le counter) (Int.add_le_add_right (hload counter rfl) 1)
  | _ => exact Int.le_trans hb hle

theorem visit_blocked (hi : t.point.index = k) {b : Account} {q : Prop}
    (hb : b.status = statusBlocked → q) (htest : t.point = .storeBlocked k → q) :
    (t.visit b).1.status = statusBlocked → q := by
  obtain ⟨name, op, p⟩ := t
  cases p with
  | storeBlocked k' =>
    obtain rfl : k' = k := hi
    exact fun _ => htest rfl
  | storeLoggedIn k' => exact fun h => absurd h (show statusLoggedIn ≠ statusBlocked by decide)
  | storeDefault k' => exact fun h => absurd h (show statusDefault ≠ statusBlocked by decide)
  | _ => exact hb

theorem visit_loaded {b : Account} {counter : Int32}
    (h : (t.visit b).2 = .inl (.storeCounter k counter)) :
    t.point = .loadCounter k ∧ counter = b.counter := by
  obtain ⟨name, op, p⟩ := t
  cases p <;> simp only [Task.visit, reduceCtorEq, Sum.inl.injEq] at h
  case loadCounter k' =>
    obtain ⟨rfl, rfl⟩ := Point.storeCounter.inj h
    exact ⟨rfl, rfl⟩
  all_goals split_ifs at h <;> cases h

theorem visit_tested {b : Account} (h : (t.visit b).2 = .inl (.storeBlocked k)) :
    t.point = .testCounter k ∧ b.counter = 3 := by
  obtain ⟨name, op, p⟩ := t
  cases p <;> simp only [Task.visit, reduceCtorEq, Sum.inl.injEq] at h
  case testCounter k' =>
    split_ifs at h with h3
    obtain rfl := Point.storeBlocked.inj (Sum.inl.inj h)
    exact ⟨rfl, h3⟩
  all_goals split_ifs at h <;> cases h

theorem accept_point {own : Session} {e : Arrival} (h : (visitors.accept own e).2 = some t) :
    ∃ name op, t = Task.start 0 name op := by
  cases e with
  | lost => cases h
  | recv msg residue =>
    simp only [visitors, Session.accept] at h
    split_ifs at h
    exact ⟨_, _, (Option.some.inj h).symm⟩

theorem limit_work (a : Account) {s : ι} (hs : c.state.task s = some t) :
    limit a (advance (Threads.step visitors) c (.work s)) =
      limit a c + if t.counts a = true then 1 else 0 := by
  have hpass : passes (Task.counts a) (record (Threads.step visitors) c.state (.work s)) =
      t.counts a := by
    rw [passes, record_input, record_pre]
    simp only [hs, Option.any_some]
  rw [limit_advance, hpass]

theorem walk_getElem? {m : List Account} {b : Account} (h : (t.walk m).1[k]? = some b) :
    m[k]? = some b ∨ ∃ b₀, m[k]? = some b₀ ∧ t.point.index = k ∧ b = (t.visit b₀).1 := by
  rcases walk_cases m t with ⟨-, hw⟩ | ⟨b₀, hb₀, hw⟩ <;> rw [hw] at h
  · exact Or.inl h
  · by_cases hi : t.point.index = k
    · rw [hi] at h hb₀
      rw [List.getElem?_set_self (List.getElem?_eq_some_iff.mp hb₀).1] at h
      exact Or.inr ⟨b₀, hb₀, hi, (Option.some.inj h).symm⟩
    · rw [List.getElem?_set_ne hi] at h
      exact Or.inl h

theorem Bounded.counter_work (hk : db[k]? = some a) (h : Bounded db a k c) {s : ι}
    (hs : c.state.task s = some t) {b : Account} (hb : (t.walk c.state.memory).1[k]? = some b) :
    b.counter.toInt ≤ limit a (advance (Threads.step visitors) c (.work s)) := by
  rcases walk_getElem? hb with hb | ⟨b₀, hb₀, hi, rfl⟩
  · exact Int.le_trans (h.counter b hb) (limit_mono a c _)
  · obtain ⟨_, _, -, hmid, -⟩ := h.sound.busy s t hs
    rw [limit_work a hs]
    refine visit_counter hk hmid.knows hi (h.counter b₀ hb₀) fun counter hp => ?_
    exact h.loaded s t.name t.op counter (by rw [hs, ← hp])

theorem Bounded.blocked_work (h : Bounded db a k c) {s : ι} (hs : c.state.task s = some t)
    {b : Account} (hb : (t.walk c.state.memory).1[k]? = some b) (hst : b.status = statusBlocked) :
    a.status = statusBlocked ∨ 3 ≤ limit a (advance (Threads.step visitors) c (.work s)) := by
  refine Or.imp_right (Int.le_trans · (limit_mono a c _)) ?_
  rcases walk_getElem? hb with hb | ⟨b₀, hb₀, hi, rfl⟩
  · exact h.blocked b hb hst
  · exact visit_blocked hi (h.blocked b₀ hb₀)
      (fun hp => Or.inr (h.tested s t.name t.op (by rw [hs, ← hp]))) hst

theorem work_point {m : List Account} {name : CString} {op : Operation} {point : Point ℕ ℕ}
    (h : (visitors.work m t).2.getLeft? = some ⟨name, op, point⟩) :
    ∃ b, m[t.point.index]? = some b ∧ (t.visit b).2 = .inl point := by
  obtain ⟨b, point', hb, hv, htask, -⟩ :=
    work_next (Prod.ext rfl (Sum.getLeft?_eq_some_iff.mp h))
  have hpoint : point = point' := congrArg Task.point htask
  exact ⟨b, hb, hpoint ▸ hv⟩

theorem Bounded.work (hk : db[k]? = some a) (h : Bounded db a k c) {s : ι}
    (hs : c.state.task s = some t) :
    Bounded db a k (advance (Threads.step visitors) c (.work s)) := by
  have hmono := limit_mono a c (.work s)
  refine ⟨h.sound.work (visitors_sound db) hs, ?_, ?_, ?_, ?_⟩ <;>
    rw [advance_state, step_work hs]
  · exact fun b => h.counter_work hk hs
  · exact fun b => h.blocked_work hs
  · intro s' name op counter hs'
    rcases update_cases hs' with ⟨-, hnew⟩ | ⟨-, hold⟩
    · obtain ⟨b, hb, hv⟩ := work_point hnew
      obtain ⟨hp, rfl⟩ := visit_loaded hv
      rw [hp] at hb
      exact Int.le_trans (h.counter b hb) hmono
    · exact Int.le_trans (h.loaded s' name op counter hold) hmono
  · intro s' name op hs'
    rcases update_cases hs' with ⟨-, hnew⟩ | ⟨-, hold⟩
    · obtain ⟨b, hb, hv⟩ := work_point hnew
      obtain ⟨hp, h3⟩ := visit_tested hv
      rw [hp] at hb
      have hle := h.counter b hb
      rw [h3] at hle
      exact Int.le_trans hle hmono
    · exact Int.le_trans (h.tested s' name op hold) hmono

theorem Bounded.receive (h : Bounded db a k c) {s : ι} {e : Arrival}
    (hs : c.state.task s = none) :
    Bounded db a k (advance (Threads.step visitors) c (.receive s e)) := by
  have hmono := limit_mono a c (.receive s e)
  have hstep := step_receive (p := visitors) (e := e) hs
  -- a request that has just begun stands at no store
  have hold : ∀ s' t', Function.update c.state.task s (visitors.accept (c.state.own s) e).2 s' =
      some t' → c.state.task s' = some t' ∨ ∃ name op, t' = Task.start 0 name op := by
    intro s' t' hs'
    rcases update_cases hs' with ⟨-, hnew⟩ | ⟨-, hold⟩
    · exact Or.inr (accept_point hnew)
    · exact Or.inl hold
  refine ⟨h.sound.receive (visitors_sound db) hs, ?_, ?_, ?_, ?_⟩ <;> rw [advance_state, hstep]
  · exact fun b hb => Int.le_trans (h.counter b hb) hmono
  · exact fun b hb hst => (h.blocked b hb hst).imp_right (Int.le_trans · hmono)
  · intro s' name op counter hs'
    rcases hold s' _ hs' with hs' | ⟨name', op', ht'⟩
    · exact Int.le_trans (h.loaded s' name op counter hs') hmono
    · cases op' <;> cases ht'
  · intro s' name op hs'
    rcases hold s' _ hs' with hs' | ⟨name', op', ht'⟩
    · exact Int.le_trans (h.tested s' name op hs') hmono
    · cases op' <;> cases ht'

theorem Bounded.skip (h : Bounded db a k c) {i : Input ι Arrival}
    (hi : Threads.step visitors c.state i = (c.state, none))
    (hb : begun visitors (record (Threads.step visitors) c.state i) = none) :
    Bounded db a k (advance (Threads.step visitors) c i) := by
  have hmono := limit_mono a c i
  refine ⟨h.sound.skip hi hb, ?_, ?_, ?_, ?_⟩ <;> rw [advance_state, hi]
  · exact fun b hb => Int.le_trans (h.counter b hb) hmono
  · exact fun b hb hst => (h.blocked b hb hst).imp_right (Int.le_trans · hmono)
  · exact fun s name op counter hs => Int.le_trans (h.loaded s name op counter hs) hmono
  · exact fun s name op hs => Int.le_trans (h.tested s name op hs) hmono

theorem bounded_run (hk : db[k]? = some a) (is : List (Input ι Arrival)) :
    Bounded db a k (runVisitors db is) := by
  refine run_invariant (I := Bounded db a k) (fun c i h => ?_) ?_ is
  · cases i with
    | receive s e =>
      cases hs : c.state.task s with
      | none => exact h.receive hs
      | some t => exact h.skip (step_receive_busy hs) (begun_busy rfl hs)
    | work s =>
      cases hs : c.state.task s with
      | none => exact h.skip (step_work_idle hs) (begun_work rfl)
      | some t => exact h.work hk hs
  · refine ⟨soundRun_visitors db [], fun b hb => ?_, fun b hb hst => Or.inl ?_,
      fun _ _ _ _ h => (nomatch h), fun _ _ _ h => (nomatch h)⟩
    · obtain rfl := Option.some.inj (hk.symm.trans hb)
      exact Int.le_of_eq (Int.add_zero _).symm
    · obtain rfl := Option.some.inj (hk.symm.trans hb)
      exact hst

theorem exists_first {name : CString} (h : findNode db name = some a) :
    ∃ k : ℕ, db[k]? = some a ∧ ∀ b ∈ db.take k, b.username ≠ name := by
  obtain ⟨-, l, l', rfl, hl⟩ := List.find?_eq_some_iff_append.mp h
  refine ⟨l.length, by simp, fun b hb => ?_⟩
  rw [List.take_left] at hb
  simpa using hl b hb

/-- **No lockout before the third wrong password.** Under every schedule, overlapping requests
included, the counter of an account, the first of its name and with its counter at `0`, is at most
the number of wrong passwords received for it, and a handler blocks it only after three of them. -/
theorem counter_le_wrong {heap : Heap} {accountDB : Option ℕ} (hlist : IsList heap accountDB db)
    (ha : findNode db a.username = some a) (h0 : a.counter = 0) (is : List (Input ι Arrival)) :
    ∃ db' b, IsList (runThreads accountDB heap is).state.memory accountDB db' ∧
      findNode db' a.username = some b ∧
      b.counter.toInt ≤ wrongReceived a accountDB (runThreads accountDB heap is) ∧
      (b.status = statusBlocked → a.status = statusBlocked ∨
        3 ≤ wrongReceived a accountDB (runThreads accountDB heap is)) := by
  obtain ⟨addrs, rfl, hchain⟩ := hlist.chain
  obtain ⟨k, hk, hfirst⟩ := exists_first ha
  have hrel := mirrors_run hchain is
  have hbounded := bounded_run hk is
  have hlogins := hbounded.sound.inv
  have hwrong : limit a (runVisitors db is) ≤
      wrongReceived a addrs[0]? (runThreads addrs[0]? heap is) := by
    have hbegins : wrongReceived a addrs[0]? (runThreads addrs[0]? heap is) =
        (runVisitors db is).history.countP (begins visitors (Task.wrongFor a)) :=
      (handlers_refine addrs).begins (fun t t' h => by
        rw [Task.wrongFor, Task.wrongFor, h.name, h.op]) hrel.history
    have hcounts := counts_le_wrong a db is
    have hzero : a.counter.toInt = 0 := by rw [h0]; rfl
    rw [limit, hzero, hbegins]
    omega
  obtain ⟨b, hb, hname⟩ : ∃ b, (runVisitors db is).state.memory[k]? = some b ∧
      b.username = a.username := by
    obtain ⟨b, hb, hab⟩ := exists_sameLogin
      (forall₂_equivalence sameLogin_equivalence |>.symm hlogins) hk
    exact ⟨b, hb, hab.1⟩
  have hfirst' : ∀ c ∈ (runVisitors db is).state.memory.take k, c.username ≠ a.username := by
    intro c hc he
    have hmem : a.username ∈ ((runVisitors db is).state.memory.take k).map Account.username :=
      List.mem_map.mpr ⟨c, hc, he⟩
    rw [List.map_take, ← map_username_of_forall₂ hlogins, ← List.map_take] at hmem
    obtain ⟨d, hd, he⟩ := List.mem_map.mp hmem
    exact hfirst d hd he
  refine ⟨_, b, hrel.memory.isList, findNode_of_first hb hfirst' hname, ?_, fun hst => ?_⟩
  · exact Int.le_trans (hbounded.counter b hb) hwrong
  · refine (hbounded.blocked b hb hst).imp_right fun h3 => ?_
    have := Int.le_trans h3 hwrong
    omega

theorem counter_le_wrong_alice :
    findNode [alice] alice.username = some alice ∧ alice.counter = 0 ∧
      ∃ db' b, IsList (runThreads (some 0) (cellsOf 0 [alice]) overlap).state.memory (some 0) db' ∧
        findNode db' alice.username = some b ∧
        b.counter.toInt ≤
          wrongReceived alice (some 0) (runThreads (some 0) (cellsOf 0 [alice]) overlap) ∧
        (b.status = statusBlocked → alice.status = statusBlocked ∨
          3 ≤ wrongReceived alice (some 0) (runThreads (some 0) (cellsOf 0 [alice]) overlap)) :=
  ⟨by decide, by decide, counter_le_wrong (isList_cellsOf [alice]) (by decide) (by decide) overlap⟩

end WrongPasswords

end OnlineCaro
