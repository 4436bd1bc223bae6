import OnlineCaro.Server.Login

/-!
# Stale logins

An account at `STATUS_LOGGED_IN` can be logged in to again only after a logout in its name. A
session gives it back by logging out, or when its connection is closed, while its name is that
account.

* `Owns`: a connected session that is logged in to the account its name buffer holds.
* `NoStaleLogin`: every account at `STATUS_LOGGED_IN` has such a session, whose logout sets it to
  `STATUS_DEFAULT`.
* **`no_stale_login_iff`**: a run never has a stale login exactly when no session turns away from
  the account it owns while nobody else owns it, by another username or by losing its connection.
-/

namespace OnlineCaro

open CMem StepRun

variable {ι : Type} [DecidableEq ι]

/-- Session `s` is connected, its name buffer holds `u`, and it is logged in to `u`. -/
def Owns (c : Config ι) (s : ι) (u : CString) : Prop :=
  (c.state.session s).live = true ∧ (c.state.session s).state = .holds u ∧ Holds c.history s u

/-- After a logout of session `s` every record named `u` is at `STATUS_DEFAULT`. -/
def LogoutResets (σ : Server ι) (s : ι) (u : CString) : Prop :=
  ∀ msg residue, operation (receive msg) = .logout →
    ∀ b ∈ (step σ (.recv s msg residue)).1.accountDB, b.username = u → b.status = statusDefault

/-- Every account at `STATUS_LOGGED_IN` is owned by a session whose logout resets it. -/
def NoStaleLogin (c : Config ι) : Prop :=
  ∀ a ∈ c.state.accountDB, a.status = statusLoggedIn →
    ∃ s, Owns c s a.username ∧ LogoutResets c.state s a.username

/-- Another session than `s` owns `u`. -/
def OwnedElse (c : Config ι) (s : ι) (u : CString) : Prop := ∃ t, t ≠ s ∧ Owns c t u

/-- No session turns away from an account at `STATUS_LOGGED_IN` that it alone owns, and no
password is accepted for a name that is not the session's own. -/
def KeepsOwner (c : Config ι) : Event ι → Prop
  | .lost s => ∀ a ∈ c.state.accountDB, a.status = statusLoggedIn → Owns c s a.username →
      OwnedElse c s a.username
  | .recv s msg residue => (c.state.session s).live = true →
    match operation (receive msg) with
    | .username data => ∀ a ∈ c.state.accountDB, a.status = statusLoggedIn →
        Owns c s a.username → a.username = data ∨ OwnedElse c s a.username
    | .password data =>
      (∃ a, findNode c.state.accountDB (c.state.nameOf s residue) = some a ∧ a.password = data) →
        (c.state.session s).state = .holds (c.state.nameOf s residue) ∨
          OwnedElse c s (c.state.nameOf s residue)
    | .logout | .clientOut => True

theorem logoutResets_of_owns {c : Config ι} {s : ι} {u : CString} (h : Owns c s u) :
    LogoutResets c.state s u := by
  intro msg residue hop b hb hu
  have hname : c.state.nameOf s residue = u := by rw [Server.nameOf, h.2.1]; rfl
  rw [step_recv h.1, hop, accountsAfter, hname] at hb
  obtain ⟨a, -, rfl⟩ := List.mem_map.mp hb
  rw [Account.reset_username] at hu
  exact Account.reset_of_eq hu

theorem noStaleLogin_iff {c : Config ι} : NoStaleLogin c ↔
    ∀ a ∈ c.state.accountDB, a.status = statusLoggedIn → ∃ s, Owns c s a.username :=
  forall₂_congr fun _ _ => forall_congr' fun _ =>
    exists_congr fun _ => ⟨fun h => h.1, fun h => ⟨h, logoutResets_of_owns h⟩⟩

/-! ## Ownership after one event -/

theorem owns_advance_of_ne {c : Config ι} {e : Event ι} {t : ι} {u : CString}
    (h : e.session ≠ t) : Owns (advance step c e) t u ↔ Owns c t u := by
  simp only [Owns, advance_state, advance_history, step_session_of_ne h]
  rw [holds_cons_of_not (not_grants_of_ne h) (not_ends_of_ne h)]

theorem OwnedElse.advance {c : Config ι} {e : Event ι} {u : CString} (h : OwnedElse c e.session u) :
    ∃ t, Owns (advance step c e) t u := by
  obtain ⟨t, ht, ho⟩ := h
  exact ⟨t, (owns_advance_of_ne ht.symm).mpr ho⟩

theorem ownedElse_of_advance {c : Config ι} {e : Event ι} {t : ι} {u : CString}
    (h : Owns (advance step c e) t u) (hne : e.session ≠ t) : OwnedElse c e.session u :=
  ⟨t, hne.symm, (owns_advance_of_ne hne).mp h⟩

section Self

variable {c : Config ι} {s : ι} {msg : List UInt8} {residue u data : CString}

theorem not_owns_lost : ¬ Owns (advance step c (.lost s)) s u := by
  rintro ⟨hl, -⟩
  rw [advance_state, step_lost] at hl
  simp at hl

theorem owns_username (hl : (c.state.session s).live = true)
    (hop : operation (receive msg) = .username data) :
    Owns (advance step c (.recv s msg residue)) s u ↔
      (c.state.session s).state.write data = .holds u ∧ Holds c.history s u := by
  simp only [Owns, advance_state, advance_history, step_session_self hl, hop, bufferAfter,
    liveAfter, true_and]
  rw [holds_cons_of_not]
  · rintro hg
    obtain ⟨a, -, h⟩ := (grants_record.mp hg).2.2.2
    exact Operation.noConfusion (hop.symm.trans h)
  · rintro ⟨-, he⟩
    rw [hop] at he
    exact he

theorem owns_password (hl : (c.state.session s).live = true)
    (hop : operation (receive msg) = .password data) :
    Owns (advance step c (.recv s msg residue)) s u ↔
      (c.state.session s).state = .holds u ∧
        (Accepts c.state s msg residue u ∨ Holds c.history s u) := by
  have he : ¬ Ends (record step c.state (.recv s msg residue)) s := by
    rintro ⟨-, he⟩
    rw [hop] at he
    exact he
  simp only [Owns, advance_state, advance_history, step_session_self hl, hop, bufferAfter,
    liveAfter, true_and]
  rw [holds_cons, grants_record]
  simp [he]

end Self

/-! ## One step -/

section Step

variable {c : Config ι} {s : ι} {msg : List UInt8} {residue data : CString}

theorem noStaleLogin_lost (h : NoStaleLogin c) :
    NoStaleLogin (advance step c (.lost s)) ↔ KeepsOwner c (.lost s) := by
  rw [noStaleLogin_iff] at h ⊢
  constructor
  · intro h' a ha hs _
    obtain ⟨t, ht⟩ := h' a ha hs
    refine ownedElse_of_advance (e := .lost s) ht fun e => ?_
    subst e
    exact not_owns_lost ht
  · intro hk a ha hs
    obtain ⟨t, ht⟩ := h a ha hs
    by_cases hts : s = t
    · subst hts
      exact (hk a ha hs ht).advance
    · exact ⟨t, (owns_advance_of_ne (e := .lost s) hts).mpr ht⟩

theorem noStaleLogin_username (hl : (c.state.session s).live = true)
    (hop : operation (receive msg) = .username data) (h : NoStaleLogin c) :
    NoStaleLogin (advance step c (.recv s msg residue)) ↔ KeepsOwner c (.recv s msg residue) := by
  rw [noStaleLogin_iff] at h ⊢
  rw [advance_state, step_recv hl, hop]
  simp only [KeepsOwner, hop, accountsAfter, hl, true_implies]
  constructor
  · intro h' a ha hs ho
    obtain ⟨t, ht⟩ := h' a ha hs
    by_cases hts : s = t
    · subst hts
      have hw := ((owns_username hl hop).mp ht).1
      rw [ho.2.1] at hw
      exact Or.inl (NameBuf.holds.inj hw).symm
    · exact Or.inr (ownedElse_of_advance (e := .recv s msg residue) ht hts)
  · intro hk a ha hs
    obtain ⟨t, ht⟩ := h a ha hs
    by_cases hts : s = t
    · subst hts
      rcases hk a ha hs ht with rfl | helse
      · exact ⟨s, (owns_username hl hop).mpr ⟨by rw [ht.2.1]; rfl, ht.2.2⟩⟩
      · exact helse.advance (e := .recv s msg residue)
    · exact ⟨t, (owns_advance_of_ne (e := .recv s msg residue) hts).mpr ht⟩

theorem noStaleLogin_password (hl : (c.state.session s).live = true)
    (hop : operation (receive msg) = .password data) (h : NoStaleLogin c) :
    NoStaleLogin (advance step c (.recv s msg residue)) ↔ KeepsOwner c (.recv s msg residue) := by
  rw [noStaleLogin_iff] at h ⊢
  rw [advance_state, step_recv hl, hop]
  simp only [KeepsOwner, hop, hl, true_implies]
  set name := c.state.nameOf s residue with hname
  constructor
  · rintro h' ⟨a, ha, rfl⟩
    have hfound : findNode (accountsAfter name c.state.accountDB (.password a.password)) name =
        some (a.submit a.password) := by
      rw [findNode_accountsAfter, ha, Option.map_some, Account.after,
        if_pos (username_of_findNode ha)]
    obtain ⟨t, ht⟩ := h' _ (mem_of_findNode hfound) (Account.submit_status_of_eq rfl)
    rw [Account.submit_username, username_of_findNode ha] at ht
    by_cases hts : s = t
    · subst hts
      exact Or.inl ((owns_password hl hop).mp ht).1
    · exact Or.inr (ownedElse_of_advance (e := .recv s msg residue) ht hts)
  · intro hk b hb hs
    -- a record that was at `STATUS_LOGGED_IN` before keeps its owner
    have hold : ∀ a ∈ c.state.accountDB, a.status = statusLoggedIn →
        ∃ t, Owns (advance step c (.recv s msg residue)) t a.username := by
      intro a ha hs
      obtain ⟨t, ht⟩ := h a ha hs
      by_cases hts : s = t
      · subst hts
        exact ⟨s, (owns_password hl hop).mpr ⟨ht.2.1, Or.inr ht.2.2⟩⟩
      · exact ⟨t, (owns_advance_of_ne (e := .recv s msg residue) hts).mpr ht⟩
    rcases exists_of_mem_accountsAfter hb with hb | ⟨a, d, hd, ha, rfl⟩ | ⟨a, -, ho, -⟩
    · exact hold b hb hs
    · obtain rfl := Operation.password.inj hd
      rw [Account.submit_username]
      by_cases hp : a.password = data
      · rw [username_of_findNode ha]
        rcases hk ⟨a, ha, hp⟩ with hbuf | helse
        · exact ⟨s, (owns_password hl hop).mpr
            ⟨hbuf, Or.inl ⟨hl, hname.symm, a, ha, by rw [hop, hp]⟩⟩⟩
        · exact helse.advance (e := .recv s msg residue)
      · rw [Account.submit_status_of_ne hp] at hs
        split_ifs at hs
        · exact absurd hs (by decide)
        · exact hold a (mem_of_findNode ha) hs
    · exact ho.elim

theorem noStaleLogin_logsOut (hl : (c.state.session s).live = true)
    (hop : (operation (receive msg)).LogsOut) (h : NoStaleLogin c) :
    NoStaleLogin (advance step c (.recv s msg residue)) := by
  rw [noStaleLogin_iff] at h ⊢
  rw [advance_state, step_recv hl, accountsAfter_of_logsOut hop]
  intro b hb hs
  obtain ⟨a, ha, rfl⟩ := List.mem_map.mp hb
  by_cases hn : a.username = c.state.nameOf s residue
  · rw [Account.reset_of_eq hn] at hs
    exact absurd hs (by decide)
  · rw [Account.reset_of_ne hn] at hs ⊢
    obtain ⟨t, ht⟩ := h a ha hs
    refine ⟨t, (owns_advance_of_ne fun e => hn ?_).mpr ht⟩
    obtain rfl : s = t := e
    rw [Server.nameOf, ht.2.1]
    rfl

end Step

theorem noStaleLogin_advance (c : Config ι) (e : Event ι) (h : NoStaleLogin c) :
    NoStaleLogin (advance step c e) ↔ KeepsOwner c e := by
  cases e with
  | lost s => exact noStaleLogin_lost h
  | recv s msg residue =>
    cases hl : (c.state.session s).live with
    | false =>
      refine iff_of_true ?_ fun hlive => absurd hlive (Bool.eq_false_iff.mp hl)
      rw [noStaleLogin_iff] at h ⊢
      rw [advance_state, step_recv_dead hl]
      intro a ha hs
      obtain ⟨t, ht⟩ := h a ha hs
      refine ⟨t, (owns_advance_of_ne fun e => ?_).mpr ht⟩
      obtain rfl : s = t := e
      exact absurd ht.1 (Bool.eq_false_iff.mp hl)
    | true =>
      cases hop : operation (receive msg) with
      | username data => exact noStaleLogin_username hl hop h
      | password data => exact noStaleLogin_password hl hop h
      | logout =>
        refine iff_of_true (noStaleLogin_logsOut hl (by rw [hop]; trivial) h) fun _ => ?_
        rw [hop]; trivial
      | clientOut =>
        refine iff_of_true (noStaleLogin_logsOut hl (by rw [hop]; trivial) h) fun _ => ?_
        rw [hop]; trivial

/-- **When no login is stale.** -/
theorem no_stale_login_iff (db : List Account) (h0 : ∀ a ∈ db, a.status ≠ statusLoggedIn)
    (es : List (Event ι)) :
    Always step (fun c e => NoStaleLogin (advance step c e)) (serve db) es ↔
      Always step KeepsOwner (serve db) es :=
  always_invariant_iff noStaleLogin_advance (fun a ha hs => absurd hs (h0 a ha)) es

/-- A session that logs in to `alice` and out again. -/
theorem no_stale_login_iff_alice : (∀ a ∈ [alice], a.status ≠ statusLoggedIn) ∧
    Always step KeepsOwner (serve [alice]) (requests 0 ["1alice", "2secret", "3"]) ∧
      Always step (fun c e => NoStaleLogin (advance step c e)) (serve [alice])
        (requests 0 ["1alice", "2secret", "3"]) := by
  have hkeeps : Always step KeepsOwner (serve [alice])
      (requests 0 ["1alice", "2secret", "3"]) := by
    refine ⟨fun _ a ha hs => ?_, fun _ _ => Or.inl (by decide), fun _ => trivial, trivial⟩
    obtain rfl := List.mem_singleton.mp ha
    exact absurd hs (by decide)
  exact ⟨by decide, hkeeps, (no_stale_login_iff [alice] (by decide) _).mpr hkeeps⟩

/-- A session that turns to another name leaves `alice` logged in. -/
theorem stale_login : ¬ Always step (fun c e => NoStaleLogin (advance step c e)) (serve [alice])
    (requests () ["1alice", "2secret", "1bob"]) := by
  rintro ⟨-, -, h, -⟩
  obtain ⟨⟨⟩, hs, -⟩ := h { alice with status := statusLoggedIn } (by decide) rfl
  exact absurd hs.2.1 (by decide)

end OnlineCaro
