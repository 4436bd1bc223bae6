import OnlineCaro.Lib.Run
import OnlineCaro.Lib.Tenure
import OnlineCaro.Server.Handlers

/-!
# Runs of the server and their history

A run of the server is any list of events: any number of sessions, their requests interleaved in
any way. The history of a run is what its claims look back at.

* `serve db`: the start of a run, with the accounts `db` loaded.
* `Answers`, `Grants`, `Ends`, `Holds`: a session was answered, was answered `PASSWORD_SUCCESS`
  for a name, has logged out or is gone, is logged in to a name.
* `requestsOf`, `lastUsername`: the requests of a session, and the last one with a username.
* `Handled`, `step_accountDB`: properties of the request that an event brings.
* `Accepts`, **`grants_record`**: when the next request is answered `PASSWORD_SUCCESS`.
-/

namespace OnlineCaro

open CMem StepRun

/-- The server with the history of its run. -/
abbrev Config (ι : Type) := StepRun.Config (Server ι) (Event ι) (Option Outcome)

/-- A handled event: the server before it, the event and its outcome. -/
abbrev Entry (ι : Type) := StepRun.Entry (Server ι) (Event ι) (Option Outcome)

variable {ι : Type} [DecidableEq ι]

/-- The session that an event belongs to. -/
def Event.session : Event ι → ι
  | .recv s _ _ => s
  | .lost s => s

/-- The start of a run. -/
def serve (db : List Account) : Config ι := start (boot db)

/-! ## What an entry says -/

/-- Session `s` was sent the reply `r`. -/
def Answers (e : Entry ι) (s : ι) (r : Reply) : Prop :=
  match e.input with
  | .recv t _ _ => t = s ∧ e.output.bind Outcome.sent = some r
  | .lost _ => False

/-- Session `s` was answered `PASSWORD_SUCCESS` while its name was `u`. -/
def Grants (e : Entry ι) (s : ι) (u : CString) : Prop :=
  match e.input with
  | .recv t _ residue =>
    t = s ∧ e.output.bind Outcome.sent = some .passwordSuccess ∧ e.pre.nameOf s residue = u
  | .lost _ => False

/-- Session `s` logged out, or its connection ended. -/
def Ends (e : Entry ι) (s : ι) : Prop :=
  match e.input with
  | .recv t msg _ => t = s ∧ (operation (receive msg)).LogsOut
  | .lost t => t = s

/-- Session `s` is logged in to `u`: it was answered `PASSWORD_SUCCESS` for `u` and has neither
logged out nor ended since. -/
abbrev Holds (h : List (Entry ι)) (s : ι) (u : CString) : Prop := Tenure.Holds Grants Ends h s u

omit [DecidableEq ι] in
theorem holds_cons {e : Entry ι} {h : List (Entry ι)} {s : ι} {u : CString} :
    Holds (e :: h) s u ↔ Grants e s u ∨ ¬ Ends e s ∧ Holds h s u := Tenure.holds_cons

omit [DecidableEq ι] in
theorem holds_cons_of_not {e : Entry ι} {h : List (Entry ι)} {s : ι} {u : CString}
    (hg : ¬ Grants e s u) (he : ¬ Ends e s) : Holds (e :: h) s u ↔ Holds h s u :=
  Tenure.holds_cons_of_not hg he

instance (e : Entry ι) (s : ι) (r : Reply) : Decidable (Answers e s r) := by
  unfold Answers; split <;> infer_instance

instance (e : Entry ι) (s : ι) (u : CString) : Decidable (Grants e s u) := by
  unfold Grants; split <;> infer_instance

instance (e : Entry ι) (s : ι) : Decidable (Ends e s) := by
  unfold Ends; split <;> infer_instance

/-- The operation of a request that the server handled for session `s`. -/
def handledOperation (s : ι) (e : Entry ι) : Option Operation :=
  match e.input with
  | .recv t msg _ =>
    if t = s ∧ (e.pre.session t).live = true then some (operation (receive msg)) else none
  | .lost _ => none

/-- The operations of the requests handled for session `s`, oldest first. -/
def requestsOf (s : ι) : List (Entry ι) → List Operation
  | [] => []
  | e :: h => requestsOf s h ++ (handledOperation s e).toList

/-- The name in a username request that the server handled for session `s`. -/
def usernameRequest (s : ι) (e : Entry ι) : Option CString :=
  match handledOperation s e with
  | some (.username data) => some data
  | _ => none

/-- The last username request of session `s`. -/
def lastUsername (h : List (Entry ι)) (s : ι) : Option (Entry ι) :=
  h.find? fun e => (usernameRequest s e).isSome

/-! ## The next event -/

/-- `P` holds of the session, its name and the operation of a request that is handled. -/
def Handled (P : ι → CString → Operation → Prop) (σ : Server ι) : Event ι → Prop
  | .recv s msg residue =>
    (σ.session s).live = true → P s (σ.nameOf s residue) (operation (receive msg))
  | .lost _ => True

theorem step_accountDB {R : List Account → Prop} {σ : Server ι} (h0 : R σ.accountDB)
    (e : Event ι) : R (step σ e).1.accountDB ↔
      Handled (fun _ name op => R (accountsAfter name σ.accountDB op)) σ e := by
  cases e with
  | lost s => exact iff_of_true h0 trivial
  | recv s msg residue =>
    cases hl : (σ.session s).live with
    | false =>
      rw [step_recv_dead hl]
      exact iff_of_true h0 fun h => absurd h (Bool.eq_false_iff.mp hl)
    | true =>
      rw [step_recv hl]
      exact ⟨fun h _ => h, fun h => h hl⟩

omit [DecidableEq ι] in
theorem handled_congr {P Q : ι → CString → Operation → Prop}
    (h : ∀ s name op, P s name op ↔ Q s name op) (σ : Server ι) (e : Event ι) :
    Handled P σ e ↔ Handled Q σ e := by
  cases e with
  | lost s => rfl
  | recv s msg residue => exact imp_congr_right fun _ => h _ _ _

/-- The request `msg` carries the password of the first record with the name `u` of session
`s`. -/
def Accepts (σ : Server ι) (s : ι) (msg : List UInt8) (residue u : CString) : Prop :=
  (σ.session s).live = true ∧ σ.nameOf s residue = u ∧
    ∃ a, findNode σ.accountDB u = some a ∧ operation (receive msg) = .password a.password

section Record

variable {σ : Server ι} {s t : ι} {msg : List UInt8} {residue u : CString} {r : Reply}

theorem record_recv_dead (hl : (σ.session s).live = false) :
    record step σ (.recv s msg residue) = ⟨σ, .recv s msg residue, none⟩ := by
  rw [record, step_recv_dead hl]

theorem answers_record (hl : (σ.session s).live = true) :
    Answers (record step σ (.recv s msg residue)) t r ↔
      s = t ∧ replyAfter (σ.nameOf s residue) σ.accountDB (operation (receive msg)) = some r := by
  rw [← step_reply hl]
  rfl

theorem not_answers_record_dead (hl : (σ.session s).live = false) :
    ¬ Answers (record step σ (.recv s msg residue)) t r := by
  rw [record_recv_dead hl]
  rintro ⟨-, h⟩
  exact absurd h (by simp)

theorem replyAfter_eq_passwordSuccess {name : CString} {db : List Account} {op : Operation} :
    replyAfter name db op = some .passwordSuccess ↔
      ∃ a, findNode db name = some a ∧ op = .password a.password := by
  cases op with
  | username data =>
    simp only [replyAfter, usernameReply, reduceCtorEq, and_false, exists_false, iff_false]
    cases findNode db data with
    | none => simp
    | some a => simp only [Option.map_some, Option.getD_some, Account.greet]; split_ifs <;> simp
  | password data =>
    simp only [replyAfter, Option.map_eq_some_iff, Account.answer_eq_passwordSuccess,
      Operation.password.injEq]
    exact exists_congr fun a => and_congr_right fun _ => eq_comm
  | logout => simp [replyAfter]
  | clientOut => simp [replyAfter]

theorem answers_passwordSuccess :
    Answers (record step σ (.recv s msg residue)) t .passwordSuccess ↔
      s = t ∧ Accepts σ s msg residue (σ.nameOf s residue) := by
  cases hl : (σ.session s).live with
  | false => simp [not_answers_record_dead hl, Accepts, hl]
  | true => simp [answers_record hl, replyAfter_eq_passwordSuccess, Accepts, hl]

/-- **The next login.** -/
theorem grants_record :
    Grants (record step σ (.recv s msg residue)) t u ↔ s = t ∧ Accepts σ s msg residue u := by
  have h : Answers (record step σ (.recv s msg residue)) t .passwordSuccess ↔
      s = t ∧ Accepts σ s msg residue (σ.nameOf s residue) := answers_passwordSuccess
  constructor
  · rintro ⟨rfl, hr, rfl⟩
    exact ⟨rfl, (h.mp ⟨rfl, hr⟩).2⟩
  · rintro ⟨rfl, ha⟩
    obtain rfl := ha.2.1
    exact ⟨rfl, (h.mpr ⟨rfl, ha⟩).2, rfl⟩

/-- A reply goes to the session that asked. -/
theorem not_grants_of_ne {e : Event ι} (h : e.session ≠ t) : ¬ Grants (record step σ e) t u := by
  cases e with
  | lost s => exact id
  | recv s msg residue => exact fun hg => h hg.1

theorem not_ends_of_ne {e : Event ι} (h : e.session ≠ t) : ¬ Ends (record step σ e) t := by
  cases e with
  | lost s => exact h
  | recv s msg residue => exact fun he => h he.1

theorem step_session_of_ne {e : Event ι} (h : e.session ≠ t) :
    (step σ e).1.session t = σ.session t := by
  cases e with
  | lost s => exact Function.update_of_ne h.symm _ _
  | recv s msg residue =>
    cases hl : (σ.session s).live with
    | false => rw [step_recv_dead hl]
    | true => rw [step_recv hl]; exact Function.update_of_ne h.symm _ _

theorem step_session_self (hl : (σ.session s).live = true) :
    (step σ (.recv s msg residue)).1.session s =
      ⟨bufferAfter (σ.session s).state (operation (receive msg)),
        liveAfter (operation (receive msg))⟩ := by
  rw [step_recv hl]
  exact Function.update_self _ _ _

theorem handledOperation_recv (hl : (σ.session s).live = true) :
    handledOperation s (record step σ (.recv s msg residue)) = some (operation (receive msg)) :=
  if_pos ⟨rfl, hl⟩

theorem handledOperation_dead (hl : (σ.session s).live = false) :
    handledOperation t (record step σ (.recv s msg residue)) = none :=
  if_neg fun h => absurd h.2 (Bool.eq_false_iff.mp hl)

theorem handledOperation_of_ne {e : Event ι} (h : e.session ≠ t) :
    handledOperation t (record step σ e) = none := by
  cases e with
  | lost s => rfl
  | recv s msg residue => exact if_neg fun hs => h hs.1

theorem handledOperation_lost : handledOperation t (record step σ (.lost s)) = none := rfl

end Record

/-! ## The requests of one session -/

section RequestsOf

variable {e : Entry ι} {h : List (Entry ι)} {s : ι}

theorem input_of_handledOperation {op : Operation} (he : handledOperation s e = some op) :
    ∃ msg residue, e.input = .recv s msg residue ∧ operation (receive msg) = op := by
  unfold handledOperation at he
  cases hi : e.input with
  | lost t => rw [hi] at he; cases he
  | recv t msg residue =>
    rw [hi] at he
    dsimp only at he
    split_ifs at he with ht
    exact ⟨msg, residue, by rw [ht.1], Option.some.inj he⟩

theorem requestsOf_cons_none (he : handledOperation s e = none) :
    requestsOf s (e :: h) = requestsOf s h := by
  rw [requestsOf, he, Option.toList_none, List.append_nil]

theorem requestsOf_cons_some {op : Operation} (he : handledOperation s e = some op) :
    requestsOf s (e :: h) = requestsOf s h ++ [op] := by
  rw [requestsOf, he, Option.toList_some]

theorem lastUsername_cons_none (he : usernameRequest s e = none) :
    lastUsername (e :: h) s = lastUsername h s := by
  rw [lastUsername, List.find?_cons, he]
  rfl

theorem lastUsername_cons_some {u : CString} (he : usernameRequest s e = some u) :
    lastUsername (e :: h) s = some e := by
  rw [lastUsername, List.find?_cons, he]
  rfl

end RequestsOf

end OnlineCaro
