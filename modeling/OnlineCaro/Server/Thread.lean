import OnlineCaro.Server.Segmentation

/-!
# The loop of a session

`processRequestThread` receives until `processRequest` returns `false`. A `recv` that fails is
reported on the console, and the loop goes on.

* `Turn`, `turn`: what one turn of the loop meets, and what it does; `turn_eq_step`: it is a step
  of the server.
* `Gone`: from some turn on nothing is received any more.
* `LeavesLoop`: the loop ends with `processLogout`, and the socket is closed.
* **`leaves_loop_iff`**: it does if `recv` returns `0` some time, or a request with no operation
  code.
-/

namespace OnlineCaro

open CMem StepRun

/-- What `recv` returns: a negative value, or as many bytes as there are in `msg`. -/
inductive Received
  | failed
  | bytes (msg : List UInt8)

/-- What a turn of the loop meets: the result of `recv`, the account list as all threads have left
it, and what an unwritten or a released name buffer reads as. -/
structure Turn where
  received : Received
  accountDB : List Account
  residue : CString

/-- The variables of `processRequestThread`. -/
structure Thread where
  state : NameBuf
  looping : Bool
  socketClosed : Bool

namespace Thread

/-- The name buffer is allocated, and the loop is entered. -/
def start : Thread := ⟨.unwritten, true, false⟩

end Thread

/-- One turn of the loop, with the memory that `processRequest` leaves if it is called. -/
def turn (t : Thread) (x : Turn) : Thread × Option Frame :=
  if t.looping then
    match x.received with
    | .failed => (t, none)
    | .bytes msg =>
      let (processStatus, f) :=
        processRequest (receive msg) x.residue ⟨x.accountDB, none, t.state, []⟩
      -- a failure of `send` is reported only
      if processStatus then (⟨f.state, true, t.socketClosed⟩, some f)
      -- `break` and `closesocket`
      else (⟨f.state, false, true⟩, some f)
  else (t, none)

section Turn

variable {ι : Type} [DecidableEq ι] {t : Thread} {x : Turn} {msg : List UInt8}

/-- A turn that receives is the step of the server. -/
theorem turn_eq_step {σ : Server ι} {s : ι} {residue : CString}
    (hl : (σ.session s).live = true) (ht : t.looping = true)
    (hs : t.state = (σ.session s).state) :
    ∃ f, (turn t ⟨.bytes msg, σ.accountDB, residue⟩).2 = some f ∧
      (step σ (.recv s msg residue)).1.accountDB = f.accountDB ∧
      (step σ (.recv s msg residue)).1.session s =
        ⟨(turn t ⟨.bytes msg, σ.accountDB, residue⟩).1.state,
          (turn t ⟨.bytes msg, σ.accountDB, residue⟩).1.looping⟩ := by
  simp only [turn, step, if_pos hl, if_pos ht, hs]
  split_ifs with hgo
  · exact ⟨_, rfl, rfl, by rw [Function.update_self, hgo]⟩
  · exact ⟨_, rfl, rfl, by rw [Function.update_self, Bool.eq_false_iff.mpr hgo]⟩

/-- `recv` returns `0`, or a request that starts with no operation code. -/
def EndsSession : Received → Prop
  | .failed => False
  | .bytes msg => ∀ b ∈ msg.head?, ¬ IsCode b

theorem operation_eq_clientOut :
    operation (receive msg) = .clientOut ↔ ∀ b ∈ msg.head?, ¬ IsCode b := by
  cases msg with
  | nil => exact iff_of_true rfl fun b hb => nomatch hb
  | cons b bs =>
    constructor
    · rintro hop b' hb' hcode
      obtain rfl : b = b' := Option.some.inj hb'
      exact operation_of_code hcode bs hop
    · exact fun h => operation_of_not_code (h b rfl) bs

theorem turn_of_endsSession (ht : t.looping = true) (h : EndsSession x.received) :
    (turn t x).1.looping = false ∧ (turn t x).1.socketClosed = true ∧
      (turn t x).2 = some (processLogout x.residue ⟨x.accountDB, none, t.state, []⟩) := by
  cases hx : x.received with
  | failed =>
    rw [hx] at h
    exact h.elim
  | bytes msg =>
    rw [hx] at h
    simp only [turn, if_pos ht, hx, processRequest_eq, operation_eq_clientOut.mpr h]
    exact ⟨rfl, rfl, rfl⟩

theorem turn_of_not_endsSession (ht : t.looping = true) (h : ¬ EndsSession x.received) :
    (turn t x).1.looping = true := by
  cases hx : x.received with
  | failed =>
    simp only [turn, if_pos ht, hx]
    exact ht
  | bytes msg =>
    rw [hx] at h
    have hop : operation (receive msg) ≠ .clientOut := fun he => h (operation_eq_clientOut.mp he)
    simp only [turn, if_pos ht, hx, processRequest_eq]
    cases hreq : operation (receive msg) with
    | clientOut => exact absurd hreq hop
    | username data | password data | logout => rfl

end Turn

/-! ## Infinite runs of the loop -/

/-- From some turn on `recv` returns `0` or fails. -/
def Gone (turns : ℕ → Turn) : Prop :=
  ∃ n, ∀ k, n ≤ k → (turns k).received = .failed ∨ (turns k).received = .bytes []

/-- The thread before turn `n`. -/
def threadAt (turns : ℕ → Turn) : ℕ → Thread := stateAt turn Thread.start turns

/-- After finitely many turns the loop is left, with the socket closed, and the last turn has
called `processLogout`. -/
def LeavesLoop (turns : ℕ → Turn) : Prop :=
  ∃ n, (threadAt turns n).looping = true ∧ (threadAt turns (n + 1)).looping = false ∧
    (threadAt turns (n + 1)).socketClosed = true ∧
    (turn (threadAt turns n) (turns n)).2 = some (processLogout (turns n).residue
      ⟨(turns n).accountDB, none, (threadAt turns n).state, []⟩)

theorem endsSession_of_leaves {turns : ℕ → Turn} {n : ℕ} (h : (threadAt turns n).looping = true)
    (h' : (threadAt turns (n + 1)).looping = false) : EndsSession (turns n).received := by
  by_contra hgo
  have hloop : (threadAt turns (n + 1)).looping = true := turn_of_not_endsSession h hgo
  rw [h'] at hloop
  cases hloop

/-- **When a session ends.** -/
theorem leaves_loop_iff (turns : ℕ → Turn) :
    LeavesLoop turns ↔ ∃ n, EndsSession (turns n).received := by
  constructor
  · rintro ⟨n, h, h', -⟩
    exact ⟨n, endsSession_of_leaves h h'⟩
  · rintro ⟨n, hn⟩
    have hleft : ∃ k, (threadAt turns k).looping = true ∧
        ¬ (threadAt turns (k + 1)).looping = true := by
      by_cases hloop : (threadAt turns n).looping = true
      · have hstop := (turn_of_endsSession hloop hn).1
        exact ⟨n, hloop, Bool.eq_false_iff.mp hstop⟩
      · have hstart : Thread.start.looping = true := rfl
        obtain ⟨k, -, hk⟩ :=
          exists_step_of_not (A := fun t : Thread => t.looping = true) hstart hloop
        exact ⟨k, hk⟩
    obtain ⟨k, hk, hk'⟩ := hleft
    rw [Bool.not_eq_true] at hk'
    obtain ⟨-, hsocket, hlogout⟩ := turn_of_endsSession hk (endsSession_of_leaves hk hk')
    exact ⟨k, hk, hk', hsocket, hlogout⟩

/-- A login, and then every `recv` fails. -/
def resetAfterLogin : ℕ → Turn
  | 0 => ⟨.bytes (ascii "1alice"), [alice], .ofAscii ""⟩
  | 1 => ⟨.bytes (ascii "2secret"), [alice], .ofAscii ""⟩
  | _ => ⟨.failed, [{ alice with status := statusLoggedIn }], .ofAscii ""⟩

/-- The thread of a connection that was reset never leaves its loop. -/
theorem reset_never_leaves : Gone resetAfterLogin ∧ ¬ LeavesLoop resetAfterLogin := by
  constructor
  · refine ⟨2, fun k hk => Or.inl ?_⟩
    obtain ⟨k, rfl⟩ := Nat.exists_eq_add_of_le' hk
    rfl
  · rintro ⟨n, h, h', -⟩
    have hends := endsSession_of_leaves h h'
    match n with
    | 0 => exact hends usernameOperation rfl (Or.inl rfl)
    | 1 => exact hends passwordOperation rfl (Or.inr (Or.inl rfl))
    | n + 2 => exact hends

end OnlineCaro
