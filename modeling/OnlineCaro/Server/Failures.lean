import OnlineCaro.Server.Lockout

/-!
# Counting failures

`processBlockAccount` searches the list again for the record that `processPassword` has found, and
counts the failure there, whichever session it comes from.

* `BlockedLate`: an account that was not loaded as blocked is blocked only after three wrong
  passwords.
* `ExactCount`, `CountedReply`: the counter after a run, and the answers to the first three wrong
  passwords.
* **`exact_failure_count`**: both, for every account of a list without duplicate usernames.
-/

namespace OnlineCaro

open CMem StepRun

variable {ι : Type} [DecidableEq ι]

/-- The counter of `a` is the number of wrong passwords so far, and `a` is not blocked before the
third of them. -/
def ExactCount (a : Account) (c : Config ι) : Prop :=
  ∃ b ∈ findNode c.state.accountDB a.username,
    b.counter.toInt = wrongCount a c.history ∧
      (b.status = statusBlocked → 3 ≤ wrongCount a c.history)

/-- The first two wrong passwords for `a` are answered `PASSWORD_INCORRECT`; the third is answered
`ACCOUNT_IS_BLOCKED` and leaves `a` blocked. -/
def CountedReply (a : Account) (c : Config ι) (e : Event ι) : Prop :=
  Handled (fun s name op => name = a.username → op.wrongFor a = true →
    (wrongCount a c.history < 2 → Answers (record step c.state e) s .passwordIncorrect) ∧
    (wrongCount a c.history = 2 → Answers (record step c.state e) s .accountIsBlocked ∧
      ∃ b ∈ findNode (advance step c e).state.accountDB a.username,
        b.status = statusBlocked)) c.state e

/-- If the first record of the name of `a` is blocked, three wrong passwords were submitted. -/
def BlockedLate (a : Account) (c : Config ι) : Prop :=
  ∀ b ∈ findNode c.state.accountDB a.username, b.status = statusBlocked →
    3 ≤ wrongCount a c.history

/-! ## One request -/

/-- Only the wrong password that makes the counter `3` blocks an account. -/
theorem Account.blocked_of_after {a : Account} {name : CString} {op : Operation}
    (h : (a.after name op).status = statusBlocked) :
    a.status = statusBlocked ∨ name = a.username ∧ op.wrongFor a = true ∧ a.counter + 1 = 3 := by
  have hreset : (a.reset name).status = statusBlocked → a.status = statusBlocked := by
    intro h
    by_cases hn : a.username = name
    · rw [reset_of_eq hn] at h
      exact absurd h (by decide)
    · rwa [reset_of_ne hn] at h
  cases op with
  | username data => exact Or.inl h
  | password data =>
    by_cases hn : a.username = name
    · by_cases hp : a.password = data
      · rw [after, if_pos hn, submit_status_of_eq hp] at h
        exact absurd h (by decide)
      · rw [after, if_pos hn, submit_status_of_ne hp] at h
        split_ifs at h with hc
        · exact Or.inr ⟨hn.symm, decide_eq_true hp, hc⟩
        · exact Or.inl h
    · rw [after, if_neg hn] at h
      exact Or.inl h
  | logout => exact Or.inl (hreset h)
  | clientOut => exact Or.inl (hreset h)

theorem Account.answer_of_ne {a : Account} {data : CString} (h : a.password ≠ data) :
    a.answer data = if a.counter + 1 = 3 then .accountIsBlocked else .passwordIncorrect := by
  rw [answer, if_neg h]

theorem Operation.eq_password_of_wrongFor {a : Account} {op : Operation}
    (h : op.wrongFor a = true) : ∃ data, op = .password data ∧ a.password ≠ data := by
  cases op with
  | password data => exact ⟨data, rfl, of_decide_eq_true h⟩
  | username data => exact absurd h Bool.false_ne_true
  | logout => exact absurd h Bool.false_ne_true
  | clientOut => exact absurd h Bool.false_ne_true

theorem wrongFor_congr {a b : Account} (h : b.password = a.password) (op : Operation) :
    op.wrongFor b = op.wrongFor a := by
  cases op <;> simp only [Operation.wrongFor, h]

theorem blockedLate_advance {a : Account} {c : Config ι} (e : Event ι) (hc : CountsFailures a c)
    (hb : BlockedLate a c) : BlockedLate a (advance step c e) := by
  -- an event that leaves the list alone
  have hsame : ∀ e, (step c.state e).1.accountDB = c.state.accountDB →
      BlockedLate a (advance step c e) := by
    intro e hdb b hfound hs
    rw [advance_state, hdb] at hfound
    rw [advance_history, wrongCount_cons]
    exact Nat.le_add_right_of_le (hb b hfound hs)
  cases e with
  | lost s => exact hsame _ rfl
  | recv s msg residue =>
    cases hl : (c.state.session s).live with
    | false => exact hsame _ (by rw [step_recv_dead hl])
    | true =>
      obtain ⟨b, hfound, hpw, hcount⟩ := hc
      intro b' hfound' hs
      rw [advance_state, step_recv hl, findNode_accountsAfter, hfound] at hfound'
      obtain rfl := Option.some.inj hfound'
      rw [advance_history, wrongCount_cons]
      rcases Account.blocked_of_after hs with hs | ⟨hn, hw, hthree⟩
      · exact Nat.le_add_right_of_le (hb b hfound hs)
      · have hwrong : wrongPassword a (record step c.state (.recv s msg residue)) = true := by
          rw [wrongFor_congr hpw] at hw
          rw [wrongPassword_record, hl, hn, username_of_findNode hfound, hw]
          simp
        rw [hcount, ofNat_add_one_eq_three] at hthree
        rw [if_pos hwrong]
        omega

theorem countedReply_of_counts {a : Account} {c : Config ι} (e : Event ι)
    (hc : CountsFailures a c) : CountedReply a c e := by
  cases e with
  | lost s => trivial
  | recv s msg residue =>
    intro hl hn hw
    obtain ⟨b, hfound, hpw, hcount⟩ := hc
    obtain ⟨data, hop, hne⟩ := Operation.eq_password_of_wrongFor hw
    rw [← hpw] at hne
    have hthree : b.counter + 1 = 3 ↔ (wrongCount a c.history + 1) % 2 ^ 32 = 3 := by
      rw [hcount, ofNat_add_one_eq_three]
    have hreply : ∀ r, Answers (record step c.state (.recv s msg residue)) s r ↔
        (if b.counter + 1 = 3 then Reply.accountIsBlocked else .passwordIncorrect) = r := by
      intro r
      rw [answers_record hl, hop, replyAfter, hn, hfound, Option.map_some,
        Account.answer_of_ne hne, Option.some.injEq, eq_self_iff_true, true_and]
    constructor
    · intro hlt
      rw [hreply, if_neg (by rw [hthree]; omega)]
    · intro htwo
      have hb : b.counter + 1 = 3 := by rw [hthree, htwo]; rfl
      refine ⟨by rw [hreply, if_pos hb], b.after a.username (.password data), ?_, ?_⟩
      · rw [advance_state, step_recv hl, hop, hn, findNode_accountsAfter, hfound]
        rfl
      · rw [Account.after, if_pos (username_of_findNode hfound), Account.submit_status_of_ne hne,
          if_pos hb]

/-! ## Runs -/

theorem findNode_of_mem {db : List Account} {a : Account}
    (hdb : (db.map Account.username).Nodup) (ha : a ∈ db) : findNode db a.username = some a := by
  induction db with
  | nil => exact absurd ha List.not_mem_nil
  | cons node next ih =>
    rw [List.map_cons, List.nodup_cons] at hdb
    rw [findNode_cons]
    rcases List.mem_cons.mp ha with rfl | ha
    · exact if_pos rfl
    · have hne : node.username ≠ a.username := fun h =>
        hdb.1 (h ▸ List.mem_map_of_mem ha)
      rw [if_neg hne]
      exact ih hdb.2 ha

/-- **Exact failure count.** In every run over a list without duplicate usernames, all at
`STATUS_DEFAULT`, the counter of an account is the number of wrong passwords submitted for it; it
is not blocked before the third, and the first three are answered as they should be. -/
theorem exact_failure_count (db : List Account) (hdb : (db.map Account.username).Nodup)
    (h0 : ∀ a ∈ db, a.status = statusDefault ∧ a.counter = 0) (es : List (Event ι)) (a : Account)
    (ha : a ∈ db) (hfew : wrongCount a (run step (serve db) es).history < 2 ^ 31) :
    ExactCount a (run step (serve db) es) ∧ Always step (CountedReply a) (serve db) es := by
  have hfound := findNode_of_mem hdb ha
  have hstart : CountsFailures a (serve db : Config ι) := countsFailures_serve hfound (h0 a ha).2
  have hlate : BlockedLate a (serve db : Config ι) := by
    intro b hb hs
    obtain rfl := Option.some.inj (hfound.symm.trans hb)
    rw [(h0 a ha).1] at hs
    exact absurd hs (by decide)
  have hinv := run_invariant (I := fun c => CountsFailures a c ∧ BlockedLate a c)
    (fun c e hc => ⟨countsFailures_advance e hc.1, blockedLate_advance e hc.1 hc.2⟩)
    (c := serve db) ⟨hstart, hlate⟩ es
  constructor
  · obtain ⟨⟨b, hb, -, hcount⟩, hblocked⟩ := hinv
    refine ⟨b, hb, ?_, hblocked b hb⟩
    rw [hcount, Int32.toInt_ofNat_of_lt hfew]
  · exact always_of_invariant (I := CountsFailures a) (fun _ e => countsFailures_advance e)
      (fun _ e => countedReply_of_counts e) hstart es

theorem exact_failure_count_alice :
    ExactCount alice (run step (serve [alice])
        (requests 0 ["1alice", "2x", "2y"] ++ requests 1 ["1alice", "2secret", "2z"])) ∧
      Always step (CountedReply alice) (serve [alice])
        (requests 0 ["1alice", "2x", "2y"] ++ requests 1 ["1alice", "2secret", "2z"]) :=
  exact_failure_count [alice] (by decide) (by decide) _ alice (by decide) (by decide)

end OnlineCaro
