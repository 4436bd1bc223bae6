import OnlineCaro.Server.Login

/-!
# The two steps of a login

A session first gives its username and then its password. `processUsername` keeps its verdict to
itself: all that the session keeps is the name, also when it was turned away.

* `two_step_iff`: `PASSWORD_SUCCESS` is sent only after `USERNAME_SUCCESS` exactly when every
  accepted password follows a username request for an account that was free at that time.
* `Orderly`, `NamedByRequest`: in a session that sends a username first and nothing after its
  logout, the name buffer holds the name of its last username request.
* `authentication_sound`: in runs of such sessions `PASSWORD_SUCCESS` answers the loaded password
  of the account that the last username request named.
-/

namespace OnlineCaro

open CMem StepRun

variable {ι : Type} [DecidableEq ι]

/-! ## Username, then password -/

/-- `PASSWORD_SUCCESS` is sent only to a session whose last username request was answered
`USERNAME_SUCCESS`. -/
def TwoStepOrder (c : Config ι) (e : Event ι) : Prop :=
  ∀ s, Answers (record step c.state e) s .passwordSuccess →
    ∃ e' ∈ lastUsername c.history s, Answers e' s .usernameSuccess

/-- The password of the account with the session's name arrives only if the last username request
of the session named an account that was neither logged in nor blocked at that time. -/
def FollowsFreeName (c : Config ι) (e : Event ι) : Prop :=
  Handled (fun s name op => (∃ a ∈ findNode c.state.accountDB name, op = .password a.password) →
    ∃ e' ∈ lastUsername c.history s, ∃ data ∈ usernameRequest s e',
      ∃ a ∈ findNode e'.pre.accountDB data, ¬ a.Occupied) c.state e

theorem replyAfter_eq_usernameSuccess {name : CString} {db : List Account} {op : Operation} :
    replyAfter name db op = some .usernameSuccess ↔
      ∃ data, op = .username data ∧ ∃ a ∈ findNode db data, ¬ a.Occupied := by
  cases op with
  | username data =>
    simp only [replyAfter, usernameReply, Option.some.injEq, Operation.username.injEq,
      exists_eq_left']
    cases findNode db data with
    | none => simp
    | some a => simp [Account.greet_eq_usernameSuccess]
  | password data =>
    simp only [replyAfter, Option.map_eq_some_iff, reduceCtorEq, false_and, exists_false, iff_false,
      not_exists, not_and]
    intro a _
    unfold Account.answer
    split_ifs <;> simp
  | logout => simp [replyAfter]
  | clientOut => simp [replyAfter]

theorem mem_usernameRequest {e : Entry ι} {s : ι} {data : CString} :
    data ∈ usernameRequest s e ↔ handledOperation s e = some (.username data) := by
  unfold usernameRequest
  cases h : handledOperation s e with
  | none => simp
  | some op => cases op <;> simp [eq_comm]

/-- A recorded username request is answered by the state of its account at that time. -/
theorem answers_usernameSuccess {e : Entry ι} {s : ι} (he : e = record step e.pre e.input) :
    Answers e s .usernameSuccess ↔
      ∃ data ∈ usernameRequest s e, ∃ a ∈ findNode e.pre.accountDB data, ¬ a.Occupied := by
  obtain ⟨σ, ev, out⟩ := e
  dsimp only at he
  rw [he]
  simp only [mem_usernameRequest]
  cases ev with
  | lost t => simp [Answers, handledOperation_lost]
  | recv t msg residue =>
    cases hl : (σ.session t).live with
    | false => simp [not_answers_record_dead hl, handledOperation_dead hl]
    | true =>
      rw [answers_record hl, replyAfter_eq_usernameSuccess]
      by_cases hts : t = s
      · subst hts
        simp [handledOperation_recv hl]
      · rw [handledOperation_of_ne (e := .recv t msg residue) hts]
        simp [hts]

theorem twoStepOrder_iff {c : Config ι} (hc : Recorded step c) (e : Event ι) :
    TwoStepOrder c e ↔ FollowsFreeName c e := by
  cases e with
  | lost s => exact iff_of_true (fun _ h => h.elim) trivial
  | recv s msg residue =>
    have hlast : ∀ t, (∃ e' ∈ lastUsername c.history t, Answers e' t .usernameSuccess) ↔
        ∃ e' ∈ lastUsername c.history t, ∃ data ∈ usernameRequest t e',
          ∃ a ∈ findNode e'.pre.accountDB data, ¬ a.Occupied := by
      refine fun t => exists_congr fun e' => and_congr_right fun he' => ?_
      exact answers_usernameSuccess (hc e' (List.mem_of_find?_eq_some he'))
    constructor
    · rintro h hl ⟨a, ha, hop⟩
      exact (hlast s).mp (h s (answers_passwordSuccess.mpr ⟨rfl, hl, rfl, a, ha, hop⟩))
    · intro h t ht
      obtain ⟨rfl, hl, -, a, ha, hop⟩ := answers_passwordSuccess.mp ht
      exact (hlast s).mpr (h hl ⟨a, ha, hop⟩)

/-- **When the two steps are in order.** -/
theorem two_step_iff (db : List Account) (es : List (Event ι)) :
    Always step TwoStepOrder (serve db) es ↔ Always step FollowsFreeName (serve db) es :=
  always_iff_of_invariant (I := Recorded step) (fun _ e h => h.advance e)
    (fun _ e h => twoStepOrder_iff h e) (recorded_start _) es

/-- A session that was told `ACCOUNT_IS_LOGGED_IN` gives the password and is logged in. -/
theorem password_after_refusal : ¬ Always step TwoStepOrder (serve [alice])
    (requests 0 ["1alice", "2secret"] ++ requests 1 ["1alice", "2secret"]) := by
  rintro ⟨-, -, -, h, -⟩
  obtain ⟨e', he', ha⟩ := h 1 (by decide)
  obtain rfl := Option.some.inj he'
  revert ha
  decide

/-! ## Orderly sessions -/

/-- A session sends a username request first, and nothing after a logout. The end of a connection is
a request too: it comes neither before the username nor after the logout. -/
def Orderly (c : Config ι) (e : Event ι) : Prop :=
  Handled (fun s _ op => (requestsOf s c.history = [] → ∃ data, op = .username data) ∧
    .logout ∉ requestsOf s c.history) c.state e

/-- The name buffer of a session that has not logged out is unwritten before its first request and
holds the name of its last username request afterwards. -/
def NamedByRequest (c : Config ι) : Prop :=
  ∀ s, (c.state.session s).live = true → .logout ∉ requestsOf s c.history →
    requestsOf s c.history = [] ∧ (c.state.session s).state = .unwritten ∨
      ∃ e' ∈ lastUsername c.history s, ∃ u ∈ usernameRequest s e',
        (c.state.session s).state = .holds u

theorem usernameRequest_eq_none {e : Entry ι} {s : ι}
    (h : ∀ data, handledOperation s e ≠ some (.username data)) : usernameRequest s e = none := by
  unfold usernameRequest
  cases hop : handledOperation s e with
  | none => rfl
  | some op =>
    cases op with
    | username data => exact absurd hop (h data)
    | password data => rfl
    | logout => rfl
    | clientOut => rfl

theorem namedByRequest_self {c : Config ι} {s : ι} {msg : List UInt8} {residue : CString}
    (h : NamedByRequest c) (hg : Orderly c (.recv s msg residue))
    (hl : (c.state.session s).live = true)
    (hl' : ((advance step c (.recv s msg residue)).state.session s).live = true)
    (hout : .logout ∉ requestsOf s (advance step c (.recv s msg residue)).history) :
    ∃ e' ∈ lastUsername (advance step c (.recv s msg residue)).history s,
      ∃ u ∈ usernameRequest s e',
        ((advance step c (.recv s msg residue)).state.session s).state = .holds u := by
  obtain ⟨hfirst, hlog⟩ := hg hl
  have hop : handledOperation s (record step c.state (.recv s msg residue)) =
      some (operation (receive msg)) := handledOperation_recv hl
  rw [advance_state, step_session_self hl] at hl' ⊢
  rw [advance_history] at hout ⊢
  rw [requestsOf_cons_some hop, List.mem_append, List.mem_singleton, not_or] at hout
  cases hm : operation (receive msg) with
  | username data =>
    rw [hm] at hop
    have hu := mem_usernameRequest.mpr hop
    refine ⟨_, lastUsername_cons_some hu, data, hu, ?_⟩
    rcases h s hl hlog with ⟨-, hs⟩ | ⟨-, -, u, -, hs⟩ <;> rw [hs] <;> rfl
  | password data =>
    have hnone : usernameRequest s (record step c.state (.recv s msg residue)) = none :=
      usernameRequest_eq_none fun d hd => by rw [hop, hm] at hd; injection hd with hd; cases hd
    rw [lastUsername_cons_none hnone]
    rcases h s hl hlog with ⟨hnil, -⟩ | hnamed
    · obtain ⟨d, hd⟩ := hfirst hnil
      rw [hm] at hd
      cases hd
    · exact hnamed
  | logout => exact absurd hm.symm hout.2
  | clientOut => rw [hm] at hl'; exact absurd hl' Bool.false_ne_true

theorem namedByRequest_advance {c : Config ι} {e : Event ι} (h : NamedByRequest c)
    (hg : Orderly c e) : NamedByRequest (advance step c e) := by
  intro t hl hout
  -- an event that is no handled request of `t`
  have hkeep : handledOperation t (record step c.state e) = none →
      (step c.state e).1.session t = c.state.session t →
      requestsOf t (advance step c e).history = [] ∧
          ((advance step c e).state.session t).state = .unwritten ∨
        ∃ e' ∈ lastUsername (advance step c e).history t, ∃ u ∈ usernameRequest t e',
          ((advance step c e).state.session t).state = .holds u := by
    intro hnone hsame
    have hu : usernameRequest t (record step c.state e) = none :=
      usernameRequest_eq_none fun d hd => by rw [hnone] at hd; cases hd
    rw [advance_state, hsame] at hl ⊢
    rw [advance_history, requestsOf_cons_none hnone] at hout ⊢
    rw [lastUsername_cons_none hu]
    exact h t hl hout
  by_cases ht : e.session = t
  · cases e with
    | lost s =>
      obtain rfl : s = t := ht
      rw [advance_state, step_lost] at hl
      simp at hl
    | recv s msg residue =>
      obtain rfl : s = t := ht
      cases hs : (c.state.session s).live with
      | false => exact hkeep (handledOperation_dead hs) (by rw [step_recv_dead hs])
      | true => exact Or.inr (namedByRequest_self h hg hs hl hout)
  · exact hkeep (handledOperation_of_ne ht) (step_session_of_ne ht)

/-! ## Authentication -/

/-- The message of the event, if there is one, contains no NUL. -/
def NulFree : Event ι → Prop
  | .recv _ msg _ => (0 : UInt8) ∉ msg
  | .lost _ => True

/-- The first record of every name still has the password that was loaded for it. -/
def KeepsPasswords (db : List Account) (c : Config ι) : Prop :=
  ∀ u, (findNode c.state.accountDB u).map Account.password = (findNode db u).map Account.password

theorem keepsPasswords_advance {db : List Account} {c : Config ι} (e : Event ι)
    (h : KeepsPasswords db c) : KeepsPasswords db (advance step c e) := by
  intro u
  refine (step_accountDB (R := fun db' => (findNode db' u).map Account.password =
    (findNode db u).map Account.password) (h u) e).mpr ?_
  cases e with
  | lost s => trivial
  | recv s msg residue =>
    intro _
    rw [findNode_accountsAfter, Option.map_map, ← h u]
    exact congrArg (fun f => (findNode c.state.accountDB u).map f)
      (funext fun a => Account.after_password _ a _)

/-- Whoever is sent `PASSWORD_SUCCESS` has asked `'2'` and a password after a last username request
`'1'` and a name, such that the first loaded record of that name has that password; and that
record is at `STATUS_LOGGED_IN` afterwards. -/
def AuthenticationSound (db : List Account) (c : Config ι) (e : Event ι) : Prop :=
  ∀ s, Answers (record step c.state e) s .passwordSuccess →
    ∃ a ∈ findNode db a.username,
      (∃ residue, e = .recv s (passwordOperation :: a.password.bytes) residue) ∧
      (∃ e' ∈ lastUsername c.history s, ∃ residue,
        e'.input = .recv s (usernameOperation :: a.username.bytes) residue) ∧
      ∃ b ∈ findNode (advance step c e).state.accountDB a.username, b.status = statusLoggedIn

theorem bytes_receive {msg : List UInt8} (h : (0 : UInt8) ∉ msg) : (receive msg).bytes = msg :=
  CString.bytes_ofBytes h

theorem authenticationSound_of_named {db : List Account} {c : Config ι} {e : Event ι}
    (hname : NamedByRequest c) (hpw : KeepsPasswords db c)
    (hnul : ∀ e' ∈ c.history, NulFree e'.input) (hord : Orderly c e) (hfree : NulFree e) :
    AuthenticationSound db c e := by
  intro s hs
  cases e with
  | lost t => exact hs.elim
  | recv t msg residue =>
    obtain ⟨rfl, hacc⟩ := answers_passwordSuccess.mp hs
    obtain ⟨hl, -, a', ha', hop⟩ := hacc
    obtain ⟨hfirst, hlog⟩ := hord hl
    -- the name that the request acts on is that of the last username request
    have hnamed : ∃ e' ∈ lastUsername c.history t, ∃ u ∈ usernameRequest t e',
        (c.state.session t).state = .holds u := by
      rcases hname t hl hlog with ⟨hnil, -⟩ | h
      · obtain ⟨d, hd⟩ := hfirst hnil
        exact Operation.noConfusion (hop.symm.trans hd)
      · exact h
    obtain ⟨e', he', u, hu, hstate⟩ := hnamed
    have hn : c.state.nameOf t residue = u := by rw [Server.nameOf, hstate]; rfl
    rw [hn] at ha'
    -- the record and its password are the loaded ones
    have hload := hpw u
    rw [ha', Option.map_some, eq_comm, Option.map_eq_some_iff] at hload
    obtain ⟨a, ha, hpass⟩ := hload
    obtain rfl := username_of_findNode ha
    refine ⟨a, ha, ⟨residue, ?_⟩, ⟨e', he', ?_⟩, ?_⟩
    · rw [← bytes_receive hfree, bytes_of_operation_password hop, hpass]
    · obtain ⟨msg', residue', hin, hop'⟩ := input_of_handledOperation (mem_usernameRequest.mp hu)
      have hfree' := hnul e' (List.mem_of_find?_eq_some he')
      rw [hin] at hfree' ⊢
      exact ⟨residue', by rw [← bytes_of_operation_username hop', bytes_receive hfree']⟩
    · obtain ⟨b, hb, hst⟩ := findNode_of_accepts ⟨hl, hn, a', ha', hop⟩
      exact ⟨b, hb, hst⟩

/-- **Authentication.** In a run whose sessions are orderly and whose messages contain no NUL,
`PASSWORD_SUCCESS` answers only the loaded password of the account that the session's last
username request named, and puts that account at `STATUS_LOGGED_IN`. -/
theorem authentication_sound (db : List Account) (es : List (Event ι))
    (hg : Always step (fun c e => Orderly c e ∧ NulFree e) (serve db) es) :
    Always step (AuthenticationSound db) (serve db) es := by
  refine always_of_guarded (I := fun c => NamedByRequest c ∧ KeepsPasswords db c ∧
    ∀ e' ∈ c.history, NulFree e'.input) (fun c e hc hg => ?_) (fun c e hc hg => ?_) ?_ hg
  · refine ⟨namedByRequest_advance hc.1 hg.1, keepsPasswords_advance e hc.2.1, fun e' he' => ?_⟩
    rcases List.mem_cons.mp he' with rfl | he'
    · exact hg.2
    · exact hc.2.2 e' he'
  · exact authenticationSound_of_named hc.1 hc.2.1 hc.2.2 hg.1 hg.2
  · exact ⟨fun _ _ _ => Or.inl ⟨rfl, rfl⟩, fun _ => rfl, fun _ h => absurd h List.not_mem_nil⟩

theorem authentication_sound_alice :
    Always step (fun c e => Orderly c e ∧ NulFree e) (serve [alice])
        (requests 0 ["1alice", "2x", "2secret", "3"]) ∧
      Always step (AuthenticationSound [alice]) (serve [alice])
        (requests 0 ["1alice", "2x", "2secret", "3"]) := by
  have hg : Always step (fun c e => Orderly c e ∧ NulFree e) (serve [alice])
      (requests 0 ["1alice", "2x", "2secret", "3"]) := by
    refine ⟨⟨fun _ => ⟨fun _ => ⟨alice.username, by decide⟩, by decide⟩, by unfold NulFree; decide⟩,
      ⟨fun _ => ⟨fun h => absurd h (by decide), by decide⟩, by unfold NulFree; decide⟩,
      ⟨fun _ => ⟨fun h => absurd h (by decide), by decide⟩, by unfold NulFree; decide⟩,
      ⟨fun _ => ⟨fun h => absurd h (by decide), by decide⟩, by unfold NulFree; decide⟩, trivial⟩
  exact ⟨hg, authentication_sound [alice] _ hg⟩

end OnlineCaro
