import Mathlib.Data.List.Basic
import Mathlib.Data.Nat.Notation

/-!
# Runs of a deterministic machine with outputs

`step s i` is the next state of a machine in state `s` on input `i`, and its output. A run keeps,
newest first, an `Entry` for each step it took, so that a property of one step may look back at
the whole run.

* `Config`, `advance`, `run`: a state with its history, one step, a list of steps.
* `Always P c is`: `P` holds of every step of the run of `is` from `c`, of the configuration
  before the step and its input.
* `run_induction`: an invariant that the steps meeting `G` preserve holds after every run whose
  steps all meet `G`.
* `always_of_invariant`, `always_of_guarded`, `always_iff_of_invariant`, `always_invariant_iff`:
  properties of single steps, lifted to runs.
* `project`, `run_project`: a run with some of its inputs left out, and how to compare the two.
* `translation`, `run_translation`, `run_related`: two machines whose runs are related step by step.
* `stateAt`: the states of an infinite run.
* `Recorded`: the history tells what the machine did.
-/

namespace StepRun

variable {σ ι ο : Type*}

/-- One step of a run: the state it was taken in, its input and its output. -/
structure Entry (σ ι ο : Type*) where
  pre : σ
  input : ι
  output : ο

/-- A state with the steps that led to it, newest first. -/
structure Config (σ ι ο : Type*) where
  state : σ
  history : List (Entry σ ι ο)

/-- The configuration before any step. -/
def start (s : σ) : Config σ ι ο := ⟨s, []⟩

variable (step : σ → ι → σ × ο)

/-- The entry of the step on input `i` in state `s`. -/
def record (s : σ) (i : ι) : Entry σ ι ο := ⟨s, i, (step s i).2⟩

/-- One step. -/
def advance (c : Config σ ι ο) (i : ι) : Config σ ι ο :=
  ⟨(step c.state i).1, record step c.state i :: c.history⟩

/-- The run of a list of inputs. -/
def run (c : Config σ ι ο) (is : List ι) : Config σ ι ο := is.foldl (advance step) c

/-- `P` holds of every step of the run. -/
def Always (P : Config σ ι ο → ι → Prop) : Config σ ι ο → List ι → Prop
  | _, [] => True
  | c, i :: is => P c i ∧ Always P (advance step c i) is

variable {step} {P Q G : Config σ ι ο → ι → Prop} {I : Config σ ι ο → Prop}

instance decidableAlways [∀ c, DecidablePred (P c)] :
    ∀ (c : Config σ ι ο) (is : List ι), Decidable (Always step P c is)
  | _, [] => .isTrue trivial
  | c, i :: is =>
    have := decidableAlways (advance step c i) is
    inferInstanceAs (Decidable (P c i ∧ Always step P (advance step c i) is))

@[simp] theorem record_pre (s : σ) (i : ι) : (record step s i).pre = s := rfl

@[simp] theorem record_input (s : σ) (i : ι) : (record step s i).input = i := rfl

@[simp] theorem advance_state (c : Config σ ι ο) (i : ι) :
    (advance step c i).state = (step c.state i).1 := rfl

@[simp] theorem advance_history (c : Config σ ι ο) (i : ι) :
    (advance step c i).history = record step c.state i :: c.history := rfl

@[simp] theorem run_nil (c : Config σ ι ο) : run step c [] = c := rfl

@[simp] theorem run_cons (c : Config σ ι ο) (i : ι) (is : List ι) :
    run step c (i :: is) = run step (advance step c i) is := rfl

@[simp] theorem always_nil (c : Config σ ι ο) : Always step P c [] := trivial

@[simp] theorem always_cons {c : Config σ ι ο} {i : ι} {is : List ι} :
    Always step P c (i :: is) ↔ P c i ∧ Always step P (advance step c i) is := Iff.rfl

/-- **Invariants of guarded runs.** An invariant preserved by the steps that meet `G` holds after
every run whose steps all meet `G`. -/
theorem run_induction (hs : ∀ c i, I c → G c i → I (advance step c i)) {c : Config σ ι ο}
    {is : List ι} (h0 : I c) (hg : Always step G c is) : I (run step c is) := by
  induction is generalizing c with
  | nil => exact h0
  | cons i is ih => exact ih (hs c i h0 hg.1) hg.2

theorem run_invariant (hs : ∀ c i, I c → I (advance step c i)) {c : Config σ ι ο} (h0 : I c)
    (is : List ι) : I (run step c is) := by
  induction is generalizing c with
  | nil => exact h0
  | cons i is ih => exact ih (hs c i h0)

/-- A property of single steps that an invariant gives holds of every step. -/
theorem always_of_invariant (hs : ∀ c i, I c → I (advance step c i)) (hp : ∀ c i, I c → P c i)
    {c : Config σ ι ο} (h0 : I c) (is : List ι) : Always step P c is := by
  induction is generalizing c with
  | nil => trivial
  | cons i is ih => exact ⟨hp c i h0, ih (hs c i h0)⟩

/-- Step properties that agree under an invariant of the runs that have them agree on every run. -/
theorem always_iff_of_guarded (hs : ∀ c i, I c → G c i → I (advance step c i))
    (hp : ∀ c i, I c → (P c i ↔ G c i)) {c : Config σ ι ο} (h0 : I c) (is : List ι) :
    Always step P c is ↔ Always step G c is := by
  induction is generalizing c with
  | nil => rfl
  | cons i is ih =>
    rw [always_cons, always_cons, hp c i h0]
    exact and_congr_right fun hg => ih (hs c i h0 hg)

theorem always_iff_of_invariant (hs : ∀ c i, I c → I (advance step c i))
    (hp : ∀ c i, I c → (P c i ↔ Q c i)) {c : Config σ ι ο} (h0 : I c) (is : List ι) :
    Always step P c is ↔ Always step Q c is :=
  always_iff_of_guarded (fun c i hc _ => hs c i hc) hp h0 is

theorem always_congr (hp : ∀ c i, P c i ↔ Q c i) (c : Config σ ι ο) (is : List ι) :
    Always step P c is ↔ Always step Q c is :=
  always_iff_of_invariant (I := fun _ => True) (fun _ _ _ => trivial) (fun c i _ => hp c i)
    trivial is

/-- If a step keeps `I` exactly when it meets `G`, a run stays in `I` exactly when all its steps
meet `G`. -/
theorem always_invariant_iff (hs : ∀ c i, I c → (I (advance step c i) ↔ G c i))
    {c : Config σ ι ο} (h0 : I c) (is : List ι) :
    Always step (fun c i => I (advance step c i)) c is ↔ Always step G c is :=
  always_iff_of_guarded (fun c i hc hg => (hs c i hc).mpr hg) hs h0 is

/-- A property of single steps that an invariant of guarded runs and the guard give holds of every
step of a guarded run. -/
theorem always_of_guarded (hs : ∀ c i, I c → G c i → I (advance step c i))
    (hp : ∀ c i, I c → G c i → P c i) {c : Config σ ι ο} (h0 : I c) {is : List ι}
    (hg : Always step G c is) : Always step P c is := by
  induction is generalizing c with
  | nil => trivial
  | cons i is ih => exact ⟨hp c i h0 hg.1, ih (hs c i h0 hg.1) hg.2⟩

/-! ## Leaving inputs out -/

variable (step) in
/-- The inputs of a run that meet `keep` in the state they are taken in. -/
def project (keep : σ → ι → Prop) [∀ s, DecidablePred (keep s)] : σ → List ι → List ι
  | _, [] => []
  | s, i :: is =>
    if keep s i then i :: project keep (step s i).1 is else project keep (step s i).1 is

/-- **Two runs.** A relation between a run and the run without the inputs left out: a kept input is
taken by both, any other by the first alone. -/
theorem run_project {R : Config σ ι ο → Config σ ι ο → Prop} {keep : σ → ι → Prop}
    [∀ s, DecidablePred (keep s)]
    (hkeep : ∀ c d i, R c d → G c i → keep c.state i → R (advance step c i) (advance step d i))
    (hskip : ∀ c d i, R c d → G c i → ¬ keep c.state i → R (advance step c i) d)
    {c d : Config σ ι ο} (h0 : R c d) {is : List ι} (hg : Always step G c is) :
    R (run step c is) (run step d (project step keep c.state is)) := by
  induction is generalizing c d with
  | nil => exact h0
  | cons i is ih =>
    rw [run_cons, project]
    split_ifs with hk
    · exact ih (hkeep c d i h0 hg.1 hk) hg.2
    · exact ih (hskip c d i h0 hg.1 hk) hg.2

/-! ## Two machines -/

section TwoMachines

variable {σ' ι' ο' : Type*}

variable (step) in
/-- The inputs of another machine that the steps of a run stand for. -/
def translation (image : σ → ι → Option ι') : σ → List ι → List ι'
  | _, [] => []
  | s, i :: is => (image s i).toList ++ translation image (step s i).1 is

theorem run_append (c : Config σ ι ο) (is js : List ι) :
    run step c (is ++ js) = run step (run step c is) js := List.foldl_append

variable {step' : σ' → ι' → σ' × ο'}

/-- **Simulation.** A step that stands for an input of the other machine is matched by the step on
that input, any other by no step at all. -/
theorem run_translation {R : Config σ ι ο → Config σ' ι' ο' → Prop} {image : σ → ι → Option ι'}
    (hstep : ∀ c d i, R c d → G c i →
      R (advance step c i) (run step' d (image c.state i).toList))
    {c : Config σ ι ο} {d : Config σ' ι' ο'} (h0 : R c d) {is : List ι}
    (hg : Always step G c is) :
    R (run step c is) (run step' d (translation step image c.state is)) := by
  induction is generalizing c d with
  | nil => exact h0
  | cons i is ih =>
    rw [run_cons, translation, run_append]
    exact ih (hstep c d i h0 hg.1) hg.2

variable {step' : σ' → ι → σ' × ο'} {R : Config σ ι ο → Config σ' ι ο' → Prop}

/-- Two machines that take the same inputs in step. -/
theorem run_related (hstep : ∀ c d i, R c d → R (advance step c i) (advance step' d i))
    {c : Config σ ι ο} {d : Config σ' ι ο'} (h0 : R c d) (is : List ι) :
    R (run step c is) (run step' d is) := by
  induction is generalizing c d with
  | nil => exact h0
  | cons i is ih => exact ih (hstep c d i h0)

/-- A property of the single steps of one machine, carried over to the other. -/
theorem always_related {Q' : Config σ' ι ο' → ι → Prop}
    (hstep : ∀ c d i, R c d → R (advance step c i) (advance step' d i))
    (hp : ∀ c d i, R c d → P c i → Q' d i) {c : Config σ ι ο} {d : Config σ' ι ο'} (h0 : R c d)
    {is : List ι} (h : Always step P c is) : Always step' Q' d is := by
  induction is generalizing c d with
  | nil => trivial
  | cons i is ih => exact ⟨hp c d i h0 h.1, ih (hstep c d i h0) h.2⟩

end TwoMachines

/-! ## Infinite runs -/

variable (step) in
/-- The state before step `n` of the run of an infinite sequence of inputs. -/
def stateAt (s : σ) (is : ℕ → ι) : ℕ → σ
  | 0 => s
  | n + 1 => (step (stateAt s is n) (is n)).1

/-- What holds at the start and not for ever ends at some step. -/
theorem exists_step_of_not {A : σ → Prop} {s : σ} {is : ℕ → ι} (h0 : A s) {n : ℕ}
    (hn : ¬ A (stateAt step s is n)) :
    ∃ k < n, A (stateAt step s is k) ∧ ¬ A (stateAt step s is (k + 1)) := by
  induction n with
  | zero => exact absurd h0 hn
  | succ n ih =>
    by_cases h : A (stateAt step s is n)
    · exact ⟨n, Nat.lt_succ_self n, h, hn⟩
    · obtain ⟨k, hk, hA⟩ := ih h
      exact ⟨k, Nat.lt_succ_of_lt hk, hA⟩

/-! ## Components -/

/-- A component after an update is the new one, or another one that is there as before. -/
theorem update_cases {κ α : Type*} [DecidableEq κ] {part : κ → Option α} {o : Option α} {k k' : κ}
    {a : α} (h : Function.update part k o k' = some a) :
    (k' = k ∧ o = some a) ∨ (k' ≠ k ∧ part k' = some a) := by
  by_cases he : k' = k
  · subst he
    rw [Function.update_self] at h
    exact Or.inl ⟨rfl, h⟩
  · rw [Function.update_of_ne he] at h
    exact Or.inr ⟨he, h⟩

/-! ## Recorded steps -/

variable (step) in
/-- Every entry of the history was recorded by `step`. -/
def Recorded (c : Config σ ι ο) : Prop := ∀ e ∈ c.history, e = record step e.pre e.input

theorem recorded_start (s : σ) : Recorded step (start s) := fun _ he => absurd he List.not_mem_nil

theorem Recorded.advance {c : Config σ ι ο} (h : Recorded step c) (i : ι) :
    Recorded step (advance step c i) := by
  intro e he
  rcases List.mem_cons.mp he with rfl | he
  · rfl
  · exact h e he

end StepRun
