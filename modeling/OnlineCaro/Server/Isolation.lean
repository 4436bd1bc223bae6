import OnlineCaro.Server.TwoStep

/-!
# Accounts do not interfere

A username request is addressed to the name it carries, any other request to the name of its
session. Leaving out all requests that are not addressed to `u` makes no difference to `u`.

* `recordsOf u`: the records of a list with the username `u`; what an operation does to them depends
  on them alone.
* `Remains u`: the events that stay when the requests not addressed to `u` are left out.
* `Simulates u`: the run and the shorter run agree on the records of `u`, on the replies to what
  remains, and on the sessions whose name is `u`.
* **`accounts_do_not_interfere`**: they do so after every run of orderly sessions.
-/

namespace OnlineCaro

open CMem StepRun

variable {ι : Type} [DecidableEq ι]

/-! ## The records of one name -/

/-- The records with the username `u`, in their order. -/
def recordsOf (u : CString) (db : List Account) : List Account :=
  db.filter fun node => node.username = u

/-- The name that a request in a session named `name` is addressed to. -/
def Operation.address (name : CString) : Operation → CString
  | .username data => data
  | _ => name

section Records

variable {u name : CString} {write : Account → Account}

theorem recordsOf_cons (u : CString) (node : Account) (next : List Account) :
    recordsOf u (node :: next) =
      if node.username = u then node :: recordsOf u next else recordsOf u next := by
  unfold recordsOf
  rw [List.filter_cons]
  split_ifs with h₁ h₂ h₂ <;> simp_all

theorem findNode_recordsOf (u : CString) (db : List Account) :
    findNode (recordsOf u db) u = findNode db u := by
  induction db with
  | nil => rfl
  | cons node next ih =>
    rw [recordsOf_cons, findNode_cons]
    split_ifs with h
    · rw [findNode_cons, if_pos h]
    · exact ih

theorem recordsOf_updateNode (hw : ∀ a, (write a).username = a.username) (db : List Account) :
    recordsOf u (updateNode u write db) = updateNode u write (recordsOf u db) := by
  induction db with
  | nil => rfl
  | cons node next ih =>
    rw [updateNode, recordsOf_cons]
    split_ifs with h
    · rw [recordsOf_cons, if_pos ((hw node).trans h), updateNode, if_pos h]
    · rw [recordsOf_cons, if_neg h, ih]

theorem recordsOf_updateNode_of_ne (hw : ∀ a, (write a).username = a.username) (hne : name ≠ u)
    (db : List Account) : recordsOf u (updateNode name write db) = recordsOf u db := by
  induction db with
  | nil => rfl
  | cons node next ih =>
    rw [updateNode]
    split_ifs with h
    · have hu : node.username ≠ u := fun e => hne (h.symm.trans e)
      rw [recordsOf_cons, recordsOf_cons, if_neg (by rwa [hw]), if_neg hu]
    · rw [recordsOf_cons, recordsOf_cons, ih]

theorem recordsOf_map (hw : ∀ a, (write a).username = a.username) (db : List Account) :
    recordsOf u (db.map write) = (recordsOf u db).map write := by
  induction db with
  | nil => rfl
  | cons node next ih =>
    rw [List.map_cons, recordsOf_cons, recordsOf_cons, hw, ih]
    split_ifs <;> rfl

theorem map_reset_recordsOf_of_ne (hne : name ≠ u) (db : List Account) :
    (recordsOf u db).map (Account.reset name) = recordsOf u db := by
  refine (List.map_congr_left fun a ha => ?_).trans (List.map_id _)
  have hu : a.username = u := by simpa using (List.mem_filter.mp ha).2
  exact Account.reset_of_ne fun h => hne (h.symm.trans hu)

theorem recordsOf_accountsAfter (u : CString) (db : List Account) (op : Operation) :
    recordsOf u (accountsAfter u db op) = accountsAfter u (recordsOf u db) op := by
  cases op with
  | username data => rfl
  | password data => exact recordsOf_updateNode (Account.submit_username data) db
  | logout => exact recordsOf_map (Account.reset_username u) db
  | clientOut => exact recordsOf_map (Account.reset_username u) db

theorem recordsOf_accountsAfter_of_ne {op : Operation} (hne : op.address name ≠ u)
    (db : List Account) : recordsOf u (accountsAfter name db op) = recordsOf u db := by
  cases op with
  | username data => rfl
  | password data => exact recordsOf_updateNode_of_ne (Account.submit_username data) hne db
  | logout | clientOut =>
    exact (recordsOf_map (Account.reset_username name) db).trans (map_reset_recordsOf_of_ne hne db)

end Records

/-! ## What remains -/

theorem address_self {op : Operation} {u name : CString} (h : op.address name = u) :
    op.address u = u := by
  cases op with
  | username data => exact h
  | password data | logout | clientOut => rfl

theorem replyAfter_recordsOf (name : CString) (db : List Account) (op : Operation) :
    replyAfter name (recordsOf (op.address name) db) op = replyAfter name db op := by
  cases op with
  | username data => simp only [replyAfter, usernameReply, Operation.address, findNode_recordsOf]
  | password data => simp only [replyAfter, Operation.address, findNode_recordsOf]
  | logout => rfl
  | clientOut => rfl

/-- The event stays when the requests that are not addressed to `u` are left out. A connection
that is lost is no request, and what reaches a session whose thread has ended is none either. -/
def Remains (u : CString) (σ : Server ι) : Event ι → Prop
  | .recv s msg residue =>
    (σ.session s).live = true ∧ (operation (receive msg)).address (σ.nameOf s residue) = u
  | .lost _ => True

instance decidableRemains (u : CString) (σ : Server ι) : DecidablePred (Remains u σ) := fun e => by
  cases e <;> unfold Remains <;> infer_instance

/-- The events of a history that remain, with the replies sent to them. -/
def repliesTo (u : CString) (h : List (Entry ι)) : List (Event ι × Option Reply) :=
  (h.filter fun e => Remains u e.pre e.input).map fun e => (e.input, e.output.bind Outcome.sent)

/-- All events of a history, with the replies sent to them. -/
def replies (h : List (Entry ι)) : List (Event ι × Option Reply) :=
  h.map fun e => (e.input, e.output.bind Outcome.sent)

/-- Session `x` of the run and session `y` of the shorter run: while `x` can still send a request
to `u`, `y` is there to take it, and has the same name if that is `u`. -/
def Follows (u : CString) (x y : Session) : Prop :=
  x.live = true → x.state ≠ .released →
    y.live = true ∧ y.state ≠ .released ∧ (x.state = .holds u → y.state = .holds u)

/-- The run `c` and the shorter run `d` agree on `u`. -/
structure Simulates (u : CString) (c d : Config ι) : Prop where
  records : recordsOf u c.state.accountDB = recordsOf u d.state.accountDB
  sessions : ∀ s, Follows u (c.state.session s) (d.state.session s)
  replies : repliesTo u c.history = OnlineCaro.replies d.history

/-! ## One step of the two runs -/

section Step

variable {u : CString} {c d : Config ι} {e : Event ι} {s : ι} {msg : List UInt8}
  {residue : CString}

/-- An orderly request is a username request, or its session has a name. -/
theorem Orderly.named (hord : Orderly c (.recv s msg residue)) (hname : NamedByRequest c)
    (hl : (c.state.session s).live = true) : (c.state.session s).state ≠ .released ∧
      ((∃ data, operation (receive msg) = .username data) ∨
        ∃ name, (c.state.session s).state = .holds name) := by
  obtain ⟨hfirst, hlog⟩ := hord hl
  rcases hname s hl hlog with ⟨hnil, hs⟩ | ⟨-, -, name, -, hs⟩
  · exact ⟨by simp [hs], Or.inl (hfirst hnil)⟩
  · exact ⟨by simp [hs], Or.inr ⟨name, hs⟩⟩

theorem remains_cases (hord : Orderly c (.recv s msg residue)) (hname : NamedByRequest c)
    (hk : Remains u c.state (.recv s msg residue)) :
    operation (receive msg) = .username u ∨ (c.state.session s).state = .holds u := by
  obtain ⟨hl, haddr⟩ := hk
  rcases (hord.named hname hl).2 with ⟨data, hop⟩ | ⟨name, hs⟩
  · rw [hop] at haddr
    exact Or.inl (hop.trans (congrArg _ haddr))
  · cases hop : operation (receive msg) with
    | username data =>
      rw [hop] at haddr
      exact Or.inl (congrArg _ haddr)
    | password data | logout | clientOut =>
      have hu : (c.state.session s).state.read residue = u := by rw [hop] at haddr; exact haddr
      rw [hs] at hu
      exact Or.inr (hs.trans (congrArg _ hu))

theorem Follows.after {x y : Session} {op : Operation} (h : Follows u x y)
    (hx : x.live = true) (hr : x.state ≠ .released)
    (hop : op = .username u ∨ x.state = .holds u) :
    Follows u ⟨bufferAfter x.state op, liveAfter op⟩ ⟨bufferAfter y.state op, liveAfter op⟩ := by
  obtain ⟨hy, hyr, hyu⟩ := h hx hr
  intro hl hrel
  cases op with
  | username data =>
    obtain ⟨state, live⟩ := y
    have hdata : bufferAfter state (.username data) = .holds data := by
      cases state with
      | unwritten => rfl
      | holds name => rfl
      | released => exact absurd rfl hyr
    refine ⟨rfl, by rw [hdata]; simp, fun hu => hdata.trans ?_⟩
    cases hs : x.state <;> simp_all [bufferAfter, NameBuf.write]
  | password data => exact ⟨rfl, hyr, hyu⟩
  | logout => exact absurd rfl hrel
  | clientOut => exact absurd hl Bool.false_ne_true

/-- A request that is left out does not give its session the name `u`. -/
theorem Follows.skip {x y : Session} {op : Operation} {residue : CString} (h : Follows u x y)
    (hx : x.live = true) (hr : x.state ≠ .released)
    (hop : op.address (x.state.read residue) ≠ u) :
    Follows u ⟨bufferAfter x.state op, liveAfter op⟩ y := by
  obtain ⟨hy, hyr, hyu⟩ := h hx hr
  intro hl hrel
  cases op with
  | username data =>
    refine ⟨hy, hyr, fun hu => absurd ?_ hop⟩
    cases hs : x.state <;> simp_all [bufferAfter, NameBuf.write, Operation.address]
  | password data => exact ⟨hy, hyr, hyu⟩
  | logout => exact absurd rfl hrel
  | clientOut => exact absurd hl Bool.false_ne_true

/-- An operation addressed to `u` acts alike in all sessions named `u`, and a username request for
`u` does so in any session. -/
theorem after_eq_of_addressed {x : Session} {op : Operation} (residue : CString)
    (haddr : op.address u = u) (h : op = .username u ∨ x.state = .holds u) (db : List Account) :
    accountsAfter (x.state.read residue) db op = accountsAfter u db op ∧
      replyAfter (x.state.read residue) db op = replyAfter u (recordsOf u db) op := by
  have hreply : replyAfter u db op = replyAfter u (recordsOf u db) op := by
    rw [← replyAfter_recordsOf u db op, haddr]
  rcases h with rfl | hs
  · exact ⟨rfl, hreply⟩
  · have hread : x.state.read residue = u := by rw [hs]; rfl
    rw [hread]
    exact ⟨rfl, hreply⟩

theorem repliesTo_cons_of_remains (h : Remains u c.state e) :
    repliesTo u (advance step c e).history =
      (e, (step c.state e).2.bind Outcome.sent) :: repliesTo u c.history := by
  have hkeep :
      decide (Remains u (record step c.state e).pre (record step c.state e).input) = true :=
    decide_eq_true h
  rw [repliesTo, advance_history, List.filter_cons, if_pos hkeep]
  rfl

theorem repliesTo_cons_of_not (h : ¬ Remains u c.state e) :
    repliesTo u (advance step c e).history = repliesTo u c.history := by
  have hdrop :
      ¬ decide (Remains u (record step c.state e).pre (record step c.state e).input) = true := by
    rwa [decide_eq_true_eq]
  rw [repliesTo, advance_history, List.filter_cons, if_neg hdrop]
  rfl

theorem follows_update (h : ∀ t, Follows u (c.state.session t) (d.state.session t))
    {x y : Session} (hs : Follows u x y) (t : ι) :
    Follows u (Function.update c.state.session s x t) (Function.update d.state.session s y t) := by
  by_cases ht : t = s
  · subst ht
    rwa [Function.update_self, Function.update_self]
  · rw [Function.update_of_ne ht, Function.update_of_ne ht]
    exact h t

end Step

theorem simulates_advance {u : CString} {c d : Config ι} {e : Event ι} (h : Simulates u c d)
    (hname : NamedByRequest c) (hord : Orderly c e) (hk : Remains u c.state e) :
    Simulates u (advance step c e) (advance step d e) := by
  cases e with
  | lost s =>
    refine ⟨h.records, ?_, ?_⟩
    · exact follows_update h.sessions fun hl => absurd hl Bool.false_ne_true
    · rw [repliesTo_cons_of_remains hk, h.replies]
      rfl
  | recv s msg residue =>
    have hl := hk.1
    have hr := (hord.named hname hl).1
    have hu := remains_cases hord hname hk
    obtain ⟨hl', -, hs'⟩ := h.sessions s hl hr
    have haddr : (operation (receive msg)).address u = u := address_self hk.2
    obtain ⟨ha, hp⟩ := after_eq_of_addressed residue haddr hu c.state.accountDB
    obtain ⟨ha', hp'⟩ :=
      after_eq_of_addressed residue haddr (hu.imp_right hs') d.state.accountDB
    refine ⟨?_, ?_, ?_⟩
    · rw [advance_state, advance_state, step_recv hl, step_recv hl']
      dsimp only [Server.nameOf]
      rw [ha, ha', recordsOf_accountsAfter, recordsOf_accountsAfter, h.records]
    · rw [advance_state, advance_state, step_recv hl, step_recv hl']
      exact follows_update h.sessions ((h.sessions s).after hl hr hu)
    · rw [repliesTo_cons_of_remains hk, h.replies, step_reply hl, Server.nameOf, hp, h.records,
        ← hp', ← Server.nameOf, ← step_reply hl']
      rfl

theorem simulates_skip {u : CString} {c d : Config ι} {e : Event ι} (h : Simulates u c d)
    (hname : NamedByRequest c) (hord : Orderly c e) (hk : ¬ Remains u c.state e) :
    Simulates u (advance step c e) d := by
  have hreplies : repliesTo u (advance step c e).history = OnlineCaro.replies d.history :=
    (repliesTo_cons_of_not hk).trans h.replies
  cases e with
  | lost s => exact absurd trivial hk
  | recv s msg residue =>
    cases hl : (c.state.session s).live with
    | false =>
      have hsame : (advance step c (.recv s msg residue)).state = c.state := by
        rw [advance_state, step_recv_dead hl]
      exact ⟨hsame ▸ h.records, hsame ▸ h.sessions, hreplies⟩
    | true =>
      have haddr : (operation (receive msg)).address (c.state.nameOf s residue) ≠ u :=
        fun he => hk ⟨hl, he⟩
      refine ⟨?_, fun t => ?_, hreplies⟩
      · rw [advance_state, step_recv hl, ← h.records]
        exact recordsOf_accountsAfter_of_ne haddr c.state.accountDB
      · rw [advance_state, step_recv hl]
        dsimp only
        by_cases ht : t = s
        · subst ht
          rw [Function.update_self]
          exact (h.sessions t).skip hl (hord.named hname hl).1 haddr
        · rw [Function.update_of_ne ht]
          exact h.sessions t

/-! ## Both runs -/

/-- **Accounts do not interfere.** In a run of orderly sessions, leaving out all requests that are
not addressed to `u` changes no reply to a request that remains, and no record of `u`. -/
theorem accounts_do_not_interfere (db : List Account) (es : List (Event ι)) (u : CString)
    (hg : Always step Orderly (serve db) es) :
    replies (run step (serve db) (project step (Remains u) (boot db) es)).history =
        repliesTo u (run step (serve db) es).history ∧
      recordsOf u (run step (serve db) (project step (Remains u) (boot db) es)).state.accountDB =
        recordsOf u (run step (serve db) es).state.accountDB := by
  have h : NamedByRequest (run step (serve db) es) ∧
      Simulates u (run step (serve db) es)
        (run step (serve db) (project step (Remains u) (boot db) es)) := by
    refine run_project (R := fun c d => NamedByRequest c ∧ Simulates u c d)
      (fun c d e h hord hk => ?_) (fun c d e h hord hk => ?_) ?_ hg
    · exact ⟨namedByRequest_advance h.1 hord, simulates_advance h.2 h.1 hord hk⟩
    · exact ⟨namedByRequest_advance h.1 hord, simulates_skip h.2 h.1 hord hk⟩
    · exact ⟨fun _ _ _ => Or.inl ⟨rfl, rfl⟩, rfl, fun _ hl hr => ⟨hl, hr, id⟩, rfl⟩
  exact ⟨h.2.replies.symm, h.2.records.symm⟩

def bob : Account := ⟨CString.ofAscii "bob", CString.ofAscii "hunter", statusDefault, 0⟩

/-- `alice` logs in while another session tries a password of `bob`. -/
def aliceAndBob : List (Event ℕ) :=
  requests 0 ["1alice"] ++ requests 1 ["1bob", "2x"] ++ requests 0 ["2secret"]

/-- What remains for `alice` is her own session. -/
theorem accounts_do_not_interfere_alice :
    Always step Orderly (serve [alice, bob]) aliceAndBob ∧
      replies (run step (serve [alice, bob]) (requests 0 ["1alice", "2secret"])).history =
        repliesTo alice.username (run step (serve [alice, bob]) aliceAndBob).history ∧
      recordsOf alice.username
          (run step (serve [alice, bob]) (requests 0 ["1alice", "2secret"])).state.accountDB =
        recordsOf alice.username (run step (serve [alice, bob]) aliceAndBob).state.accountDB := by
  have hg : Always step Orderly (serve [alice, bob]) aliceAndBob := by
    refine ⟨fun _ => ⟨fun _ => ⟨alice.username, by decide⟩, by decide⟩,
      fun _ => ⟨fun _ => ⟨bob.username, by decide⟩, by decide⟩,
      fun _ => ⟨fun h => absurd h (by decide), by decide⟩,
      fun _ => ⟨fun h => absurd h (by decide), by decide⟩, trivial⟩
  have hproject : project step (Remains alice.username) (boot [alice, bob]) aliceAndBob =
      requests 0 ["1alice", "2secret"] := rfl
  have h := accounts_do_not_interfere [alice, bob] aliceAndBob alice.username hg
  rw [hproject] at h
  exact ⟨hg, h⟩

end OnlineCaro
