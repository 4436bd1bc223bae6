import OnlineCaro.Server.History
import Mathlib.Algebra.Group.Nat.Defs

/-!
# Lockout

`processUsername` turns a blocked account away; `processPassword` and `processLogout` do not look
at the status they overwrite, and `processBlockAccount` blocks only when the counter is `3`.

* `lockout_absorbing_iff`: in a run no request takes an account out of `STATUS_BLOCKED` exactly
  when none carries the password of a blocked account, or logs out in its name.
* `wrongCount`, `CountsFailures`: the counter of an account counts the wrong passwords, modulo
  `2 ^ 32`.
* `blocked_answer_iff`: after three wrong passwords no request at all is answered
  `ACCOUNT_IS_BLOCKED`.
-/

namespace OnlineCaro

open CMem StepRun

variable {ι : Type} [DecidableEq ι]

/-! ## Blocked accounts -/

/-- The step leaves every blocked account blocked. -/
def KeepsBlocked (c : Config ι) (e : Event ι) : Prop :=
  List.Forall₂ (fun a b => a.status = statusBlocked → b.status = statusBlocked)
    c.state.accountDB (advance step c e).state.accountDB

/-- A request, in a session named `name`, that overwrites the status of a blocked account. -/
def Unblocks (name : CString) (db : List Account) : Operation → Prop
  | .username _ => False
  | .password data =>
    ∃ a, findNode db name = some a ∧ a.status = statusBlocked ∧ a.password = data
  | .logout | .clientOut => ∃ a ∈ db, a.username = name ∧ a.status = statusBlocked

theorem Account.submit_blocked {a : Account} (data : CString) (h : a.status = statusBlocked) :
    (a.submit data).status = statusBlocked ↔ a.password ≠ data := by
  by_cases hp : a.password = data
  · rw [submit_status_of_eq hp]
    exact iff_of_false (by decide) fun hn => hn hp
  · rw [submit_status_of_ne hp, h, ite_self]
    exact iff_of_true rfl hp

theorem Account.reset_blocked {a : Account} (name : CString) (h : a.status = statusBlocked) :
    (a.reset name).status = statusBlocked ↔ a.username ≠ name := by
  by_cases hn : a.username = name
  · rw [reset_of_eq hn]
    exact iff_of_false (by decide) fun h => h hn
  · rw [reset_of_ne hn]
    exact iff_of_true h hn

theorem accountsAfter_keepsBlocked (name : CString) (db : List Account) (op : Operation) :
    List.Forall₂ (fun a b => a.status = statusBlocked → b.status = statusBlocked) db
      (accountsAfter name db op) ↔ ¬ Unblocks name db op := by
  have hmap : List.Forall₂
      (fun a b : Account => a.status = statusBlocked → b.status = statusBlocked)
      db (db.map (Account.reset name)) ↔
        ¬ ∃ a ∈ db, a.username = name ∧ a.status = statusBlocked := by
    rw [forall₂_map]
    push Not
    refine forall₂_congr fun a _ => ⟨fun h hn hs => ?_, fun h hs => ?_⟩
    · exact (Account.reset_blocked name hs).mp (h hs) hn
    · exact (Account.reset_blocked name hs).mpr fun hn => h hn hs
  cases op with
  | username data => exact iff_of_true (List.forall₂_same.mpr fun _ _ h => h) id
  | password data =>
    rw [accountsAfter, forall₂_updateNode fun _ h => h, Unblocks]
    push Not
    refine forall₂_congr fun a _ => forall_congr' fun hs => ?_
    exact Account.submit_blocked data hs
  | logout => exact hmap
  | clientOut => exact hmap

/-- **When lockout is absorbing.** No step of a run takes an account out of `STATUS_BLOCKED`
exactly when no request of the run carries, in a session with its name, the password of a blocked
account, and none logs out or leaves in a session with its name. -/
theorem lockout_absorbing_iff (db : List Account) (es : List (Event ι)) :
    Always step KeepsBlocked (serve db) es ↔
      Always step (fun c => Handled (fun _ name op => ¬ Unblocks name c.state.accountDB op) c.state)
        (serve db) es := by
  refine always_congr (fun c e => ?_) _ es
  have hrefl : List.Forall₂
      (fun a b : Account => a.status = statusBlocked → b.status = statusBlocked)
      c.state.accountDB c.state.accountDB := List.forall₂_same.mpr fun _ _ h => h
  refine (step_accountDB (R := List.Forall₂ _ c.state.accountDB) hrefl e).trans ?_
  exact handled_congr (fun _ name op => accountsAfter_keepsBlocked name _ op) c.state e

/-- The account of the examples: `alice`, with the password `secret`. -/
def alice : Account := ⟨CString.ofAscii "alice", CString.ofAscii "secret", statusDefault, 0⟩

/-- Requests of session `s`, one after the other. -/
def requests (s : ι) (msgs : List String) : List (Event ι) :=
  msgs.map fun msg => .recv s (ascii msg) (CString.ofAscii "")

/-- The logout after the third wrong password takes `alice` out of `STATUS_BLOCKED`. -/
theorem lockout_not_absorbing : ¬ Always step KeepsBlocked (serve [alice])
    (requests 0 ["1alice", "2x", "2x", "2x", "3"]) := by
  rintro ⟨-, -, -, -, h, -⟩
  revert h
  unfold KeepsBlocked
  decide

/-! ## Wrong passwords -/

/-- A handled password request in the name of `a`, with a wrong password. -/
def wrongPassword (a : Account) (e : Entry ι) : Bool :=
  match e.input with
  | .recv s msg residue =>
    (e.pre.session s).live && (decide (e.pre.nameOf s residue = a.username) &&
      (operation (receive msg)).wrongFor a)
  | .lost _ => false

theorem wrongPassword_record (a : Account) (σ : Server ι) (s : ι) (msg : List UInt8)
    (residue : CString) : wrongPassword a (record step σ (.recv s msg residue)) =
      ((σ.session s).live && (decide (σ.nameOf s residue = a.username) &&
        (operation (receive msg)).wrongFor a)) := rfl

/-- The wrong passwords submitted for `a`, over all sessions. -/
def wrongCount (a : Account) (h : List (Entry ι)) : ℕ := h.countP (wrongPassword a)

omit [DecidableEq ι] in
theorem wrongCount_cons (a : Account) (e : Entry ι) (h : List (Entry ι)) :
    wrongCount a (e :: h) = wrongCount a h + if wrongPassword a e = true then 1 else 0 :=
  List.countP_cons

/-- The record of `a` is in the list, with its password and the number of wrong passwords so far,
as an `int` that wraps around, in its counter. -/
def CountsFailures (a : Account) (c : Config ι) : Prop :=
  ∃ b, findNode c.state.accountDB a.username = some b ∧ b.password = a.password ∧
    b.counter = Int32.ofNat (wrongCount a c.history)

theorem countsFailures_advance {a : Account} {c : Config ι} (e : Event ι)
    (h : CountsFailures a c) : CountsFailures a (advance step c e) := by
  obtain ⟨b, hb, hp, hc⟩ := h
  have hu := username_of_findNode hb
  -- an event that changes nothing and is no wrong password
  have hsame : ∀ e, (step c.state e).1.accountDB = c.state.accountDB →
      wrongPassword a (record step c.state e) = false → CountsFailures a (advance step c e) := by
    intro e hdb hw
    refine ⟨b, hdb.symm ▸ hb, hp, ?_⟩
    rw [advance_history, wrongCount_cons, hw, if_neg Bool.false_ne_true, Nat.add_zero, hc]
  cases e with
  | lost s => exact hsame _ rfl rfl
  | recv s msg residue =>
    cases hl : (c.state.session s).live with
    | false => exact hsame _ (by rw [step_recv_dead hl]) (by rw [wrongPassword_record, hl]; rfl)
    | true =>
      have hw : wrongPassword a (record step c.state (.recv s msg residue)) = true ↔
          c.state.nameOf s residue = b.username ∧
            (operation (receive msg)).wrongFor b = true := by
        have hwf : (operation (receive msg)).wrongFor a = (operation (receive msg)).wrongFor b := by
          simp only [Operation.wrongFor, hp]
        rw [wrongPassword_record, hl, hwf, hu, Bool.true_and, Bool.and_eq_true, decide_eq_true_eq]
      refine ⟨b.after (c.state.nameOf s residue) (operation (receive msg)), ?_, ?_, ?_⟩
      · rw [advance_state, step_recv hl, findNode_accountsAfter, hb]
        rfl
      · rw [Account.after_password, hp]
      · rw [advance_history, wrongCount_cons, Account.after_counter, hc, if_congr hw rfl rfl]
        split_ifs
        · rw [Int32.ofNat_add]; rfl
        · rfl

omit [DecidableEq ι] in
theorem countsFailures_serve {db : List Account} {a : Account}
    (ha : findNode db a.username = some a) (h0 : a.counter = 0) :
    CountsFailures a (serve db : Config ι) := ⟨a, ha, rfl, h0⟩

/-- A password request in the name of `a`, after three wrong passwords for `a`, is answered
`ACCOUNT_IS_BLOCKED`. -/
def AnswersBlocked (a : Account) (c : Config ι) (e : Event ι) : Prop :=
  Handled (fun s name op => ∀ data, op = .password data → name = a.username →
    3 ≤ wrongCount a c.history → Answers (record step c.state e) s .accountIsBlocked) c.state e

/-- No password request is made in the name of `a` after three wrong passwords for `a`. -/
def NoLatePassword (a : Account) (c : Config ι) (e : Event ι) : Prop :=
  Handled (fun _ name op => ∀ data, op = .password data → name = a.username →
    wrongCount a c.history < 3) c.state e

theorem Account.answer_eq_accountIsBlocked {a : Account} {data : CString} :
    a.answer data = .accountIsBlocked ↔ a.password ≠ data ∧ a.counter + 1 = 3 := by
  unfold answer
  split_ifs with h₁ h₂ <;> simp [*]

theorem ofNat_add_one_eq_three (n : ℕ) : Int32.ofNat n + 1 = 3 ↔ (n + 1) % 2 ^ 32 = 3 := by
  rw [← Int32.toBitVec_inj, ← BitVec.toNat_inj]
  simp [Int32.toBitVec_add]

theorem wrongCount_advance {a : Account} {c : Config ι} {e : Event ι}
    (h : wrongCount a c.history ≤ 3) (hg : NoLatePassword a c e) :
    wrongCount a (advance step c e).history ≤ 3 := by
  rw [advance_history, wrongCount_cons]
  split_ifs with hw
  · cases e with
    | lost s => exact absurd hw Bool.false_ne_true
    | recv s msg residue =>
      rw [wrongPassword_record, Bool.and_eq_true, Bool.and_eq_true, decide_eq_true_eq] at hw
      obtain ⟨hl, hn, hwrong⟩ := hw
      -- only a password request counts
      cases hop : operation (receive msg) with
      | password data => exact hg hl data hop hn
      | username data | logout | clientOut =>
        rw [hop] at hwrong
        exact absurd hwrong Bool.false_ne_true
  · exact h

/-- The first late password request finds the counter at `3`, and leaves it or makes it `4`. -/
theorem answersBlocked_iff {a : Account} {c : Config ι} (e : Event ι) (h : CountsFailures a c)
    (hle : wrongCount a c.history ≤ 3) : AnswersBlocked a c e ↔ NoLatePassword a c e := by
  obtain ⟨b, hb, hp, hc⟩ := h
  cases e with
  | lost s => rfl
  | recv s msg residue =>
    refine forall_congr' fun hl => forall₂_congr fun data hop => forall_congr' fun hn => ?_
    rw [← not_le]
    refine ⟨fun hans hthree => ?_, fun hfew hthree => absurd hthree hfew⟩
    have hreply := ((answers_record hl).mp (hans hthree)).2
    rw [hop, hn, replyAfter, hb, Option.map_some, Option.some.injEq,
      Account.answer_eq_accountIsBlocked, hc, le_antisymm hle hthree] at hreply
    exact absurd hreply.2 (by decide)

/-- **When a lockout is answered as one.** In a run, every password request in the name of `a`
after the third wrong password for `a` is answered `ACCOUNT_IS_BLOCKED` exactly when there is none:
the first of them is not. -/
theorem blocked_answer_iff (db : List Account) (a : Account)
    (ha : findNode db a.username = some a) (h0 : a.counter = 0) (es : List (Event ι)) :
    Always step (AnswersBlocked a) (serve db) es ↔ Always step (NoLatePassword a) (serve db) es :=
  always_iff_of_guarded (I := fun c => CountsFailures a c ∧ wrongCount a c.history ≤ 3)
    (fun _ e h hg => ⟨countsFailures_advance e h.1, wrongCount_advance h.2 hg⟩)
    (fun _ e h => answersBlocked_iff e h.1 h.2) ⟨countsFailures_serve ha h0, Nat.zero_le 3⟩ es

/-- The third wrong password is followed by a logout. -/
theorem blocked_answer_iff_alice :
    findNode [alice] alice.username = some alice ∧ alice.counter = 0 ∧
      Always step (NoLatePassword alice) (serve [alice])
        (requests 0 ["1alice", "2x", "2x", "2x", "3"]) ∧
      Always step (AnswersBlocked alice) (serve [alice])
        (requests 0 ["1alice", "2x", "2x", "2x", "3"]) := by
  have hname : operation (receive (ascii "1alice")) = .username (.ofAscii "alice") := by decide
  have hlogout : operation (receive (ascii "3")) = .logout := by decide
  have hnone : Always step (NoLatePassword alice) (serve [alice])
      (requests 0 ["1alice", "2x", "2x", "2x", "3"]) := by
    refine ⟨?_, ?_, ?_, ?_, ?_, trivial⟩
    · exact fun _ _ hop => nomatch hname.symm.trans hop
    · exact fun _ _ _ _ => by decide
    · exact fun _ _ _ _ => by decide
    · exact fun _ _ _ _ => by decide
    · exact fun _ _ hop => nomatch hlogout.symm.trans hop
  exact ⟨by decide, by decide, hnone,
    (blocked_answer_iff [alice] alice (by decide) (by decide) _).mpr hnone⟩

/-- After three wrong passwords the right one is still answered `PASSWORD_SUCCESS`. -/
theorem login_after_lockout : ¬ Always step (AnswersBlocked alice) (serve [alice])
    (requests 0 ["1alice", "2x", "2x", "2x", "2secret"]) := by
  rintro ⟨-, -, -, -, h, -⟩
  have ha := h rfl (CString.ofAscii "secret") (by decide) (by decide) (by decide)
  revert ha
  decide

end OnlineCaro
