import OnlineCaro.Server.Lockout

/-!
# Logging in and out

* `logout_authority_iff`: a logout, an unknown operation code or the end of a connection changes
  only accounts that its session is logged in to, exactly when the session's name is such an
  account or one that is at `STATUS_DEFAULT`.
* `single_login`: no account has two sessions logged in to it, in every run in which a password is
  accepted only while the guard of `processUsername` would still pass, and no session is logged
  out by another.
-/

namespace OnlineCaro

open CMem StepRun

variable {ι : Type} [DecidableEq ι]

/-! ## Logout authority -/

/-- Only accounts that `s` is logged in to change their status in the step. -/
def ChangesOwn (c : Config ι) (e : Event ι) (s : ι) : Prop :=
  List.Forall₂ (fun a b => b.status ≠ a.status → Holds c.history s a.username)
    c.state.accountDB (advance step c e).state.accountDB

/-- A logout, an unknown operation code or the end of a connection changes the status of an
account only if its session is logged in to it. -/
def LogoutAuthority (c : Config ι) (e : Event ι) : Prop :=
  match e with
  | .recv s msg _ => (operation (receive msg)).LogsOut → ChangesOwn c e s
  | .lost s => ChangesOwn c e s

/-- A session logs out, or leaves, with the name of an account that it is logged in to, or that
is at `STATUS_DEFAULT`. -/
def LeavesOwn (c : Config ι) (e : Event ι) : Prop :=
  Handled (fun s name op => op.LogsOut → ∀ a ∈ c.state.accountDB, a.username = name →
    a.status = statusDefault ∨ Holds c.history s name) c.state e

theorem accountsAfter_of_logsOut {name : CString} {db : List Account} {op : Operation}
    (h : op.LogsOut) : accountsAfter name db op = db.map (Account.reset name) := by
  cases op with
  | username data => exact h.elim
  | password data => exact h.elim
  | logout => rfl
  | clientOut => rfl

theorem Account.reset_status_ne {a : Account} {name : CString} :
    (a.reset name).status ≠ a.status ↔ a.username = name ∧ a.status ≠ statusDefault := by
  by_cases hn : a.username = name
  · rw [reset_of_eq hn]
    exact ⟨fun h => ⟨hn, h.symm⟩, fun h => h.2.symm⟩
  · rw [reset_of_ne hn]
    exact iff_of_false (fun h => h rfl) fun h => hn h.1

theorem logoutAuthority_iff (c : Config ι) (e : Event ι) : LogoutAuthority c e ↔ LeavesOwn c e := by
  have hsame : ∀ e s, (step c.state e).1.accountDB = c.state.accountDB → ChangesOwn c e s := by
    intro e s h
    rw [ChangesOwn, advance_state, h]
    exact List.forall₂_same.mpr fun a _ hne => absurd rfl hne
  cases e with
  | lost s => exact iff_of_true (hsame _ _ rfl) trivial
  | recv s msg residue =>
    cases hl : (c.state.session s).live with
    | false =>
      refine iff_of_true (fun _ => hsame _ _ (by rw [step_recv_dead hl])) fun h => ?_
      exact absurd h (Bool.eq_false_iff.mp hl)
    | true =>
      refine Iff.trans (forall_congr' fun ho => ?_) ⟨fun h _ => h, fun h => h hl⟩
      rw [ChangesOwn, advance_state, step_recv hl, accountsAfter_of_logsOut ho, forall₂_map]
      refine forall₂_congr fun a _ => ?_
      rw [Account.reset_status_ne, and_imp]
      refine forall_congr' fun hn => ?_
      rw [hn, ← or_iff_not_imp_left]

/-- **When logout has authority.** -/
theorem logout_authority_iff (db : List Account) (es : List (Event ι)) :
    Always step LogoutAuthority (serve db) es ↔ Always step LeavesOwn (serve db) es :=
  always_congr logoutAuthority_iff _ es

/-- A session that is turned away because `alice` is logged in elsewhere logs `alice` out. -/
theorem logout_without_authority : ¬ Always step LogoutAuthority (serve [alice])
    (requests 0 ["1alice", "2secret"] ++ requests 1 ["1alice", "3"]) := by
  rintro ⟨-, -, -, h, -⟩
  have h := h trivial
  revert h
  unfold ChangesOwn
  decide

/-! ## Single login -/

/-- A password is accepted only for an account that is neither logged in nor blocked, or from a
session that is logged in to it; and no session logs out or leaves with the name of an account
that another one is logged in to. -/
def RespectsLogin (c : Config ι) (e : Event ι) : Prop :=
  Handled (fun s name op =>
    match op with
    | .username _ => True
    | .password data => ∀ a ∈ findNode c.state.accountDB name, a.password = data →
      ¬ a.Occupied ∨ Holds c.history s name
    | .logout | .clientOut => ∀ t, Holds c.history t name → t = s) c.state e

/-- No account has two sessions logged in to it. -/
def SingleLogin (c : Config ι) : Prop := Tenure.Exclusive Grants Ends c.history

/-- Accounts that a session is logged in to are occupied. -/
def HeldOccupied (c : Config ι) : Prop :=
  ∀ s u, Holds c.history s u → ∃ a, findNode c.state.accountDB u = some a ∧ a.Occupied

theorem Account.after_occupied {a : Account} {name : CString} {op : Operation} (h : a.Occupied)
    (hn : op.LogsOut → a.username ≠ name) : (a.after name op).Occupied := by
  cases op with
  | username data => exact h
  | password data =>
    simp only [after]
    split_ifs with hu
    · by_cases hp : a.password = data
      · exact Or.inl (submit_status_of_eq hp)
      · rw [Occupied, submit_status_of_ne hp]
        split_ifs
        · exact Or.inr rfl
        · exact h
    · exact h
  | logout => rw [after, reset_of_ne (hn trivial)]; exact h
  | clientOut => rw [after, reset_of_ne (hn trivial)]; exact h

theorem findNode_of_accepts {σ : Server ι} {s : ι} {msg : List UInt8} {residue u : CString}
    (h : Accepts σ s msg residue u) :
    ∃ a, findNode (step σ (.recv s msg residue)).1.accountDB u = some a ∧
      a.status = statusLoggedIn := by
  obtain ⟨hl, hn, a, ha, hop⟩ := h
  refine ⟨a.submit a.password, ?_, Account.submit_status_of_eq rfl⟩
  rw [step_recv hl, hn, hop, findNode_accountsAfter, ha, Option.map_some, Account.after,
    if_pos (username_of_findNode ha)]

theorem heldOccupied_advance {c : Config ι} {e : Event ι} (h : HeldOccupied c)
    (hg : RespectsLogin c e) : HeldOccupied (advance step c e) := by
  intro t u ht
  rcases ht with ht | ⟨hend, ht⟩
  · cases e with
    | lost s => exact ht.elim
    | recv s msg residue =>
      obtain ⟨a, ha, hs⟩ := findNode_of_accepts (grants_record.mp ht).2
      exact ⟨a, ha, Or.inl hs⟩
  · obtain ⟨a, ha, hocc⟩ := h t u ht
    cases e with
    | lost s => exact ⟨a, ha, hocc⟩
    | recv s msg residue =>
      cases hl : (c.state.session s).live with
      | false => exact ⟨a, by rw [advance_state, step_recv_dead hl]; exact ha, hocc⟩
      | true =>
        refine ⟨a.after (c.state.nameOf s residue) (operation (receive msg)), ?_,
          Account.after_occupied hocc fun ho hn => ?_⟩
        · rw [advance_state, step_recv hl, findNode_accountsAfter, ha, Option.map_some]
        · -- a logout in the name `u` is one of `t` itself, whose tenure would then end
          have hg := hg hl
          rw [← hn, username_of_findNode ha] at hg
          cases hop : operation (receive msg) with
          | username data => rw [hop] at ho; exact ho
          | password data => rw [hop] at ho; exact ho
          | logout => rw [hop] at hg; exact hend ⟨(hg t ht).symm, ho⟩
          | clientOut => rw [hop] at hg; exact hend ⟨(hg t ht).symm, ho⟩

theorem singleLogin_advance {c : Config ι} {e : Event ι} (hs : SingleLogin c) (ho : HeldOccupied c)
    (hg : RespectsLogin c e) : SingleLogin (advance step c e) := by
  cases e with
  | lost s =>
    exact Tenure.exclusive_cons hs (fun _ _ _ h => h.elim) fun _ _ _ h => h.elim
  | recv s msg residue =>
    refine Tenure.exclusive_cons hs (fun u t t' ht ht' => ?_) fun u t t' ht ht' => ?_
    · exact (grants_record.mp ht).1.symm.trans (grants_record.mp ht').1
    · obtain ⟨rfl, hl, hn, a, ha, hop⟩ := grants_record.mp ht
      have hg := hg hl
      rw [hop, hn] at hg
      rcases hg a ha rfl with hfree | hown
      · obtain ⟨b, hb, hocc⟩ := ho t' u ht'
        obtain rfl : a = b := Option.some.inj (ha.symm.trans hb)
        exact absurd hocc hfree
      · exact Or.inr (hs u s t' hown ht')

/-- **Single login.** In a run whose steps all respect the logins before them, no account ever has
two sessions logged in to it. -/
theorem single_login (db : List Account) (es : List (Event ι))
    (hg : Always step RespectsLogin (serve db) es) : SingleLogin (run step (serve db) es) := by
  have h := run_induction (I := fun c => SingleLogin c ∧ HeldOccupied c)
    (G := RespectsLogin)
    (fun c e hc hg => ⟨singleLogin_advance hc.1 hc.2 hg, heldOccupied_advance hc.2 hg⟩)
    (c := serve db) ⟨Tenure.exclusive_nil, fun _ _ h => h.elim⟩ hg
  exact h.1

theorem single_login_alice :
    Always step RespectsLogin (serve [alice])
        (requests 0 ["1alice", "2secret"] ++ requests 1 ["1alice", "2x", "2x"]) ∧
      SingleLogin (run step (serve [alice])
        (requests 0 ["1alice", "2secret"] ++ requests 1 ["1alice", "2x", "2x"])) := by
  have hg : Always step RespectsLogin (serve [alice])
      (requests 0 ["1alice", "2secret"] ++ requests 1 ["1alice", "2x", "2x"]) := by
    refine ⟨fun _ => trivial, fun _ a ha _ => Or.inl ?_, fun _ => trivial, fun _ a ha hp => ?_,
      fun _ a ha hp => ?_, trivial⟩
    · obtain rfl : alice = a := Option.some.inj ha
      rintro (h | h) <;> exact absurd h (by decide)
    · obtain rfl := Option.some.inj ha
      exact absurd hp (by decide)
    · obtain rfl := Option.some.inj ha
      exact absurd hp (by decide)
  exact ⟨hg, single_login [alice] _ hg⟩

/-- Two sessions that give their username before either gives its password are both logged in. -/
theorem double_login : ¬ SingleLogin (run step (serve [alice])
    (requests 0 ["1alice"] ++ requests 1 ["1alice"] ++ requests 0 ["2secret"] ++
      requests 1 ["2secret"])) := by
  intro h
  exact absurd (h alice.username 0 1 (by decide) (by decide)) (by decide)

end OnlineCaro
