import OnlineCaro.Lib.Directory
import OnlineCaro.Server.Failures
import OnlineCaro.Server.Isolation
import Mathlib.Data.List.Induction

/-!
# The server as a directory of locks

What the server is for: every account has a password and a lock, and a request in its name opens,
fails to open or releases the lock.

* `Lock`, `Card`, `Card.handle`, `unknown`: an account by itself, and a name without an account.
* `Account.card`: the lock that a record stands for.
* `server_serves`: the list, searched from its head, serves requests as a directory of locks.
* **`server_is_directory`**: in every run, what the requests for a name do and are answered is a run
  of one lock.
* **`blocked_iff_history`**: which requests leave an account blocked.
-/

namespace OnlineCaro

open CMem StepRun Directory

/-! ## One account by itself -/

/-- The lock of an account. -/
inductive Lock
  | free
  | inUse
  | blocked
  deriving DecidableEq

/-- An account, and the wrong passwords that it was given. -/
structure Card where
  password : CString
  lock : Lock
  failures : Int32
  deriving DecidableEq

namespace Card

/-- The reply to someone who gives the name. -/
def greeting (card : Card) : Reply :=
  match card.lock with
  | .free => .usernameSuccess
  | .inUse => .accountIsLoggedIn
  | .blocked => .accountIsBlocked

/-- Only the third failure blocks, and the right password opens every lock. -/
def handle (card : Card) : Operation → Card × Option Reply
  | .username _ => (card, some card.greeting)
  | .password data =>
    if card.password = data then ({ card with lock := .inUse }, some .passwordSuccess)
    else if card.failures + 1 = 3 then
      ({ card with failures := card.failures + 1, lock := .blocked }, some .accountIsBlocked)
    else ({ card with failures := card.failures + 1 }, some .passwordIncorrect)
  | .logout => ({ card with lock := .free }, some .logoutSuccess)
  | .clientOut => ({ card with lock := .free }, none)

end Card

/-- The reply in the name of no account. -/
def unknown : Operation → Option Reply
  | .username _ => some .usernameNotFound
  | .password _ => none
  | .logout => some .logoutSuccess
  | .clientOut => none

/-! ## The records -/

/-- What a status says of the lock. -/
def lockOf (status : Int32) : Lock :=
  if status = statusBlocked then .blocked else if status = statusLoggedIn then .inUse else .free

theorem lockOf_eq_blocked {status : Int32} : lockOf status = .blocked ↔ status = statusBlocked := by
  unfold lockOf
  split_ifs with hb hl
  · exact iff_of_true rfl hb
  · exact iff_of_false (by decide) hb
  · exact iff_of_false (by decide) hb

def Account.card (a : Account) : Card := ⟨a.password, lockOf a.status, a.counter⟩

section Cards

variable {a : Account} {name : CString} {op : Operation}

theorem greeting_card (a : Account) : a.card.greeting = a.greet := by
  unfold Account.card Card.greeting lockOf Account.greet
  dsimp only
  split_ifs <;> rfl

theorem card_after (hn : a.username = op.address name) :
    (a.after name op).card = (a.card.handle op).1 := by
  cases op with
  | username data => rfl
  | password data =>
    have hafter : a.after name (.password data) = a.submit data :=
      if_pos (show a.username = name from hn)
    rw [hafter]
    unfold Account.submit Account.fail Account.card Card.handle
    dsimp only
    split_ifs <;> rfl
  | logout =>
    have hafter : a.after name .logout = { a with status := statusDefault } :=
      if_pos (show a.username = name from hn)
    rw [hafter]
    rfl
  | clientOut =>
    have hafter : a.after name .clientOut = { a with status := statusDefault } :=
      if_pos (show a.username = name from hn)
    rw [hafter]
    rfl

theorem after_of_ne (hn : a.username ≠ op.address name) : a.after name op = a := by
  cases op with
  | username data => rfl
  | password data => exact if_neg hn
  | logout => exact Account.reset_of_ne hn
  | clientOut => exact Account.reset_of_ne hn

theorem replyAfter_cell (db : List Account) (name : CString) (op : Operation) :
    replyAfter name db op =
      (cell Card.handle unknown ((findNode db (op.address name)).map Account.card) op).2 := by
  cases op with
  | username data =>
    show some (usernameReply db data) = (cell _ _ ((findNode db data).map Account.card) _).2
    unfold usernameReply
    cases findNode db data with
    | none => rfl
    | some a =>
      rw [Option.map_some, Option.map_some, ← greeting_card]
      rfl
  | password data =>
    show (findNode db name).map _ = (cell _ _ ((findNode db name).map Account.card) _).2
    cases findNode db name with
    | none => rfl
    | some a =>
      simp only [Option.map_some, cell, Card.handle, Account.answer, Account.card]
      split_ifs <;> rfl
  | logout => cases h : findNode db (Operation.address name .logout) <;> rfl
  | clientOut => cases h : findNode db (Operation.address name .clientOut) <;> rfl

end Cards

/-! ## The server -/

section Server

variable {ι : Type} [DecidableEq ι]

/-- The lock of a name: that of the first record of the name. -/
def Server.entry (σ : Server ι) (u : CString) : Option Card :=
  (findNode σ.accountDB u).map Account.card

/-- The name that an event is addressed to, and the operation; none if it is no request of a session
whose thread is running. -/
def Server.request (σ : Server ι) : Event ι → Option (CString × Operation)
  | .recv s msg residue =>
    if (σ.session s).live then
      some ((operation (receive msg)).address (σ.nameOf s residue), operation (receive msg))
    else none
  | .lost _ => none

/-- The reply that is sent. -/
def sentReply (o : Option Outcome) : Option Reply := o.bind Outcome.sent

omit [DecidableEq ι] in
theorem request_eq_some {σ : Server ι} {e : Event ι} {u : CString} {op : Operation}
    (h : σ.request e = some (u, op)) :
    ∃ s msg residue, e = .recv s msg residue ∧ (σ.session s).live = true ∧
      u = (operation (receive msg)).address (σ.nameOf s residue) ∧
      op = operation (receive msg) := by
  cases e with
  | lost s => cases h
  | recv s msg residue =>
    simp only [Server.request] at h
    split_ifs at h with hl
    obtain ⟨hu, hop⟩ := Prod.mk.inj (Option.some.inj h)
    exact ⟨s, msg, residue, rfl, hl, hu.symm, hop.symm⟩

/-- **The list serves as a directory.** -/
theorem server_serves : Serves (step : Server ι → Event ι → Server ι × Option Outcome) Card.handle
    unknown Server.entry Server.request sentReply where
  quiet {σ e} hr u := by
    cases e with
    | lost s => rfl
    | recv s msg residue =>
      have hl : (σ.session s).live = false := by
        simp only [Server.request] at hr
        split_ifs at hr with hl
        exact Bool.eq_false_iff.mpr hl
      rw [step_recv_dead hl]
  entry_self {σ e u op} hr := by
    obtain ⟨s, msg, residue, rfl, hl, rfl, rfl⟩ := request_eq_some hr
    unfold Server.entry
    rw [step_recv hl, findNode_accountsAfter]
    cases ha : findNode σ.accountDB ((operation (receive msg)).address (σ.nameOf s residue)) with
    | none => rfl
    | some a => exact congrArg some (card_after (username_of_findNode ha))
  entry_other {σ e u op u'} hr hne := by
    obtain ⟨s, msg, residue, rfl, hl, rfl, rfl⟩ := request_eq_some hr
    unfold Server.entry
    rw [step_recv hl, findNode_accountsAfter]
    cases ha : findNode σ.accountDB u' with
    | none => rfl
    | some a =>
      rw [Option.map_some, after_of_ne]
      exact fun he => hne ((username_of_findNode ha).symm.trans he)
  reply_eq {σ e u op} hr := by
    obtain ⟨s, msg, residue, rfl, hl, rfl, rfl⟩ := request_eq_some hr
    exact (step_reply hl).trans (replyAfter_cell _ _ _)

/-- The requests in the name `u` and the replies that were sent, latest first. -/
abbrev repliesIn (u : CString) (h : List (Entry ι)) : List (Operation × Option Reply) :=
  traceOf Server.request sentReply u h

/-- The requests in the name `u`, oldest first. -/
abbrev requestsIn (u : CString) (h : List (Entry ι)) : List Operation :=
  requestsFor Server.request sentReply u h

/-- **The server is a directory.** For every account list, every name and every run: the requests in
the name and their replies are a run of the lock of its first record, and leave that record as they
leave the lock; or they are answered as in the name of no account. -/
theorem server_is_directory (db : List Account) (u : CString) (es : List (Event ι)) :
    repliesIn u (run step (serve db) es).history =
        trace (run (cell Card.handle unknown) (start ((findNode db u).map Account.card))
          (requestsIn u (run step (serve db) es).history)).history ∧
      (findNode (run step (serve db) es).state.accountDB u).map Account.card =
        (run (cell Card.handle unknown) (start ((findNode db u).map Account.card))
          (requestsIn u (run step (serve db) es).history)).state := by
  have hruns := serves_run server_serves (boot db) u es
  exact ⟨hruns.trace_eq, hruns.entry_eq⟩

end Server

/-! ## When an account is blocked -/

section Blocked

variable {a : Account} {ops : List Operation} {op : Operation}

/-- A request in the name of `a` that leaves it blocked if it is. -/
def Operation.Keeps (a : Account) : Operation → Prop
  | .username _ => True
  | .password data => a.password ≠ data
  | .logout | .clientOut => False

/-- The third wrong password has come, and after it neither the right one nor a logout. -/
def BlockedBy (a : Account) (ops : List Operation) : Prop :=
  ∃ earlier third later, ops = earlier ++ third :: later ∧ third.wrongFor a = true ∧
    earlier.countP (·.wrongFor a) = 2 ∧ ∀ op ∈ later, op.Keeps a

theorem not_blockedBy_nil : ¬ BlockedBy a [] := by
  rintro ⟨earlier, third, later, hsplit, -⟩
  exact List.append_ne_nil_of_right_ne_nil _ (List.cons_ne_nil _ _) hsplit.symm

/-- The last request is the third wrong password, or one that keeps the account blocked. -/
theorem blockedBy_concat : BlockedBy a (ops ++ [op]) ↔
    (op.wrongFor a = true ∧ ops.countP (·.wrongFor a) = 2) ∨ (BlockedBy a ops ∧ op.Keeps a) := by
  constructor
  · rintro ⟨earlier, third, later, hsplit, hwrong, htwo, hkeeps⟩
    rcases List.eq_nil_or_concat later with rfl | ⟨later, last, rfl⟩
    · obtain ⟨rfl, hlast⟩ := List.append_inj' hsplit rfl
      obtain rfl := List.singleton_inj.mp hlast
      exact Or.inl ⟨hwrong, htwo⟩
    · rw [List.concat_eq_append] at hsplit hkeeps
      rw [← List.cons_append, ← List.append_assoc] at hsplit
      obtain ⟨rfl, hlast⟩ := List.append_inj' hsplit rfl
      obtain rfl := List.singleton_inj.mp hlast
      refine Or.inr ⟨⟨earlier, third, later, rfl, hwrong, htwo, fun op hop => ?_⟩, ?_⟩
      · exact hkeeps op (List.mem_append_left _ hop)
      · exact hkeeps _ (List.mem_append_right _ List.mem_cons_self)
  · rintro (⟨hwrong, htwo⟩ | ⟨⟨earlier, third, later, rfl, hwrong, htwo, hkeeps⟩, hop⟩)
    · exact ⟨ops, op, [], rfl, hwrong, htwo, fun _ h => absurd h List.not_mem_nil⟩
    · refine ⟨earlier, third, later ++ [op], by simp, hwrong, htwo, fun op' h => ?_⟩
      rcases List.mem_append.mp h with h | h
      · exact hkeeps op' h
      · rwa [List.mem_singleton.mp h]

/-- A card with the password of `a`, the wrong passwords so far as an `int`, and a lock that is
blocked when the requests say so. -/
structure CardAfter (a : Account) (ops : List Operation) (card : Card) : Prop where
  password_eq : card.password = a.password
  failures_eq : card.failures = Int32.ofNat (ops.countP (·.wrongFor a))
  blocked_iff : card.lock = .blocked ↔ BlockedBy a ops

theorem CardAfter.handle {card : Card} (h : CardAfter a ops card)
    (hfew : (ops ++ [op]).countP (·.wrongFor a) < 2 ^ 32) :
    CardAfter a (ops ++ [op]) (card.handle op).1 := by
  have hcount : (ops ++ [op]).countP (·.wrongFor a) =
      ops.countP (·.wrongFor a) + if op.wrongFor a = true then 1 else 0 := by
    rw [List.countP_append, List.countP_singleton]
  rw [hcount] at hfew
  have hthree : op.wrongFor a = true →
      (card.failures + 1 = 3 ↔ ops.countP (·.wrongFor a) = 2) := by
    intro hwrong
    rw [if_pos hwrong] at hfew
    rw [h.failures_eq, ofNat_add_one_eq_three, Nat.mod_eq_of_lt hfew]
    omega
  -- a request that is no wrong password, and the lock that it leaves
  have hright : ∀ lock, op.wrongFor a = false → (lock = .blocked ↔ BlockedBy a ops ∧ op.Keeps a) →
      CardAfter a (ops ++ [op]) { card with lock := lock } := by
    intro lock hwrong hlock
    refine ⟨h.password_eq, ?_, ?_⟩
    · rw [hcount, if_neg (by rw [hwrong]; exact Bool.false_ne_true)]
      exact h.failures_eq
    · rw [blockedBy_concat, hwrong]
      simpa using hlock
  cases op with
  | username data => exact hright card.lock rfl (h.blocked_iff.trans (and_iff_left trivial).symm)
  | logout => exact hright .free rfl (iff_of_false (by decide) And.right)
  | clientOut => exact hright .free rfl (iff_of_false (by decide) And.right)
  | password data =>
    unfold Card.handle
    dsimp only
    by_cases hp : a.password = data
    · rw [if_pos (h.password_eq.trans hp)]
      exact hright .inUse (decide_eq_false (not_not_intro hp))
        (iff_of_false (by decide) fun hk => hk.2 hp)
    · have hwrong : (Operation.password data).wrongFor a = true := decide_eq_true hp
      have hsucc : card.failures + 1 =
          Int32.ofNat ((ops ++ [Operation.password data]).countP (·.wrongFor a)) := by
        rw [hcount, if_pos hwrong, h.failures_eq, Int32.ofNat_add]
        rfl
      rw [if_neg (fun he => hp (h.password_eq.symm.trans he))]
      split_ifs with hc
      · refine ⟨h.password_eq, hsucc, iff_of_true rfl ?_⟩
        exact blockedBy_concat.mpr (Or.inl ⟨hwrong, (hthree hwrong).mp hc⟩)
      · refine ⟨h.password_eq, hsucc, ?_⟩
        rw [blockedBy_concat]
        refine h.blocked_iff.trans ⟨fun hb => Or.inr ⟨hb, hp⟩, ?_⟩
        rintro (⟨-, htwo⟩ | ⟨hb, -⟩)
        · exact absurd ((hthree hwrong).mpr htwo) hc
        · exact hb

theorem cardAfter_foldl (hs : a.status ≠ statusBlocked) (h0 : a.counter = 0)
    (hfew : ops.countP (·.wrongFor a) < 2 ^ 32) :
    CardAfter a ops (ops.foldl (fun card op => (card.handle op).1) a.card) := by
  induction ops using List.reverseRecOn with
  | nil =>
    refine ⟨rfl, h0, iff_of_false (fun hb => hs ?_) not_blockedBy_nil⟩
    exact lockOf_eq_blocked.mp hb
  | append_singleton ops op ih =>
    rw [List.foldl_append]
    refine CardAfter.handle (ih (lt_of_le_of_lt ?_ hfew)) hfew
    rw [List.countP_append]
    exact Nat.le_add_right _ _

/-- **When an account is blocked.** For every account that starts unblocked with its counter at `0`,
and every run with fewer than `2 ^ 31` wrong passwords in its name: it is blocked exactly when the
third of them has come and after that neither the right password nor a logout in its name. -/
theorem blocked_iff_history {ι : Type} [DecidableEq ι] (db : List Account)
    (ha : findNode db a.username = some a) (hs : a.status ≠ statusBlocked) (h0 : a.counter = 0)
    (es : List (Event ι))
    (hfew : (requestsIn a.username (run step (serve db) es).history).countP (·.wrongFor a) <
      2 ^ 31) :
    (∃ b, findNode (run step (serve db) es).state.accountDB a.username = some b ∧
        b.status = statusBlocked) ↔
      BlockedBy a (requestsIn a.username (run step (serve db) es).history) := by
  have hentry := (serves_run server_serves (boot db) a.username es).entry_eq
  have hstart : (boot db : Server ι).entry a.username = some a.card := congrArg _ ha
  rw [hstart, run_cell_some] at hentry
  obtain ⟨b, hb, hcard⟩ := Option.map_eq_some_iff.mp hentry
  have hafter : CardAfter a _ b.card := Eq.subst (motive := CardAfter a _) hcard.symm
    (cardAfter_foldl hs h0 (hfew.trans (by decide)))
  refine Iff.trans ⟨?_, fun h => ⟨b, hb, h⟩⟩ (lockOf_eq_blocked.symm.trans hafter.blocked_iff)
  rintro ⟨b', hb', hs'⟩
  obtain rfl := Option.some.inj (hb.symm.trans hb')
  exact hs'

/-- The third wrong password for `alice`. -/
theorem blocked_iff_history_alice :
    BlockedBy alice (requestsIn alice.username (run step (serve [alice])
        (requests 0 ["1alice", "2x", "2y", "2z"])).history) ∧
      ∃ b, findNode (run step (serve [alice])
        (requests 0 ["1alice", "2x", "2y", "2z"])).state.accountDB alice.username = some b ∧
          b.status = statusBlocked := by
  have hblocked : ∃ b, findNode (run step (serve [alice])
      (requests 0 ["1alice", "2x", "2y", "2z"])).state.accountDB alice.username = some b ∧
        b.status = statusBlocked :=
    ⟨{ alice with status := statusBlocked, counter := 3 }, by decide⟩
  exact ⟨(blocked_iff_history [alice] (by decide) (by decide) (by decide) _ (by decide)).mp
    hblocked, hblocked⟩

end Blocked

end OnlineCaro
