import OnlineCaro.Lib.Run
import Mathlib.Data.List.Forall2
import Mathlib.Data.Option.Basic
import Mathlib.Data.Sum.Basic
import Mathlib.Logic.Function.Basic

/-!
# Threads on a shared memory

Threads named by `ι` run one program. A thread waits for an arrival, which may start a task; it
works on the task one access to the shared memory at a time, until the task ends with a result. Any
thread may take the next step, so that a list of inputs is a schedule.

* `Program`, `State`, `Input`, `step`: the threads and their steps.
* `results s`: the results that thread `s` has had, oldest first.
* **`waitFree`**: a task that takes at most `n` accesses ends after `n` steps of its own thread,
  whatever the others do.
* `Refines`, **`refines_run`**: programs that match access by access run alike under every schedule.
-/

namespace Threads

open StepRun

/-- What every thread runs. -/
structure Program (S E M T R : Type*) where
  /-- The private state after an arrival, and the task that it starts. -/
  accept : S → E → S × Option T
  /-- One access to the memory: the task goes on, or it ends. -/
  work : M → T → M × (T ⊕ R)

/-- The shared memory, and of every thread its private state and the task in progress. -/
structure State (ι S M T : Type*) where
  memory : M
  own : ι → S
  task : ι → Option T

/-- What happens next. -/
inductive Input (ι E : Type*)
  /-- `e` arrives at thread `s`, if it waits for one. -/
  | receive (s : ι) (e : E)
  /-- Thread `s` makes the next access of its task. -/
  | work (s : ι)

variable {ι S E M T R : Type*} [DecidableEq ι]

section Step

variable (p : Program S E M T R)

/-- One step of one thread, and the result if it ends a task. -/
def step (x : State ι S M T) : Input ι E → State ι S M T × Option (ι × R)
  | .receive s e =>
    match x.task s with
    | some _ => (x, none)
    | none =>
      (⟨x.memory, Function.update x.own s (p.accept (x.own s) e).1,
        Function.update x.task s (p.accept (x.own s) e).2⟩, none)
  | .work s =>
    match x.task s with
    | none => (x, none)
    | some t =>
      match p.work x.memory t with
      | (m, .inl t) => (⟨m, x.own, Function.update x.task s (some t)⟩, none)
      | (m, .inr r) => (⟨m, x.own, Function.update x.task s none⟩, some (s, r))

/-- All threads wait for their first arrival. -/
def idle (m : M) (own : ι → S) : State ι S M T := ⟨m, own, fun _ => none⟩

variable {p} {x : State ι S M T} {s : ι} {e : E} {m : M} {t t' : T} {r : R}

theorem step_receive (h : x.task s = none) :
    step p x (.receive s e) =
      (⟨x.memory, Function.update x.own s (p.accept (x.own s) e).1,
        Function.update x.task s (p.accept (x.own s) e).2⟩, none) := by
  simp only [step, h]

theorem step_receive_busy (h : x.task s = some t) : step p x (.receive s e) = (x, none) := by
  simp only [step, h]

theorem step_work_idle (h : x.task s = none) : step p x (.work s) = (x, none) := by
  simp only [step, h]

theorem step_work_next (h : x.task s = some t) (hw : p.work x.memory t = (m, .inl t')) :
    step p x (.work s) = (⟨m, x.own, Function.update x.task s (some t')⟩, none) := by
  simp only [step, h, hw]

theorem step_work_done (h : x.task s = some t) (hw : p.work x.memory t = (m, .inr r)) :
    step p x (.work s) = (⟨m, x.own, Function.update x.task s none⟩, some (s, r)) := by
  simp only [step, h, hw]

theorem step_work (h : x.task s = some t) :
    step p x (.work s) =
      (⟨(p.work x.memory t).1, x.own,
        Function.update x.task s (p.work x.memory t).2.getLeft?⟩,
        (p.work x.memory t).2.getRight?.map fun r => (s, r)) := by
  rcases hw : p.work x.memory t with ⟨m, t' | r⟩
  · exact step_work_next h hw
  · exact step_work_done h hw

end Step

/-! ## Results -/

section Results

variable {σ κ : Type*}

/-- The result of thread `s` in one step. -/
def resultOf (s : ι) (e : Entry σ κ (Option (ι × R))) : Option R :=
  e.output.bind fun o => if o.1 = s then some o.2 else none

/-- The results that thread `s` has had, oldest first. -/
def results (s : ι) : List (Entry σ κ (Option (ι × R))) → List R
  | [] => []
  | e :: h => results s h ++ (resultOf s e).toList

variable {e : Entry σ κ (Option (ι × R))} {h : List (Entry σ κ (Option (ι × R)))} {s t : ι} {r : R}

theorem results_cons_none (he : e.output = none) : results s (e :: h) = results s h := by
  rw [results, resultOf, he]
  exact List.append_nil _

theorem results_cons_self (he : e.output = some (s, r)) :
    results s (e :: h) = results s h ++ [r] := by
  rw [results, resultOf, he, Option.bind_some, if_pos rfl]
  rfl

theorem results_cons_of_ne (he : e.output = some (t, r)) (hne : t ≠ s) :
    results s (e :: h) = results s h := by
  rw [results, resultOf, he, Option.bind_some, if_neg hne]
  exact List.append_nil _

theorem results_cons_congr {σ' κ' : Type*} {e' : Entry σ' κ' (Option (ι × R))}
    {h' : List (Entry σ' κ' (Option (ι × R)))} (he : e.output = e'.output)
    (hh : results s h = results s h') : results s (e :: h) = results s (e' :: h') := by
  rw [results, results, resultOf, resultOf, he, hh]

theorem results_prefix_cons : results s h <+: results s (e :: h) := List.prefix_append _ _

theorem results_prefix_run {step : σ → κ → σ × Option (ι × R)}
    (c : Config σ κ (Option (ι × R))) (is : List κ) :
    results s c.history <+: results s (run step c is).history :=
  run_invariant (I := fun d => results s c.history <+: results s d.history)
    (fun _ _ hd => hd.trans results_prefix_cons) (List.prefix_refl _) is

end Results

/-! ## Wait-freedom -/

section WaitFree

/-- The steps that a schedule gives to thread `s`. -/
def turns (s : ι) : List (Input ι E) → ℕ
  | [] => 0
  | .receive _ _ :: is => turns s is
  | .work s' :: is => (if s' = s then 1 else 0) + turns s is

variable {p : Program S E M T R} {x : State ι S M T} {s : ι} {t : T}

/-- A thread at work is left alone by everything but its own steps, apart from accesses of other
tasks to the memory. -/
theorem step_others (hs : x.task s = some t) {i : Input ι E} (hi : i ≠ .work s) :
    (step p x i).1.task s = some t ∧
      ((step p x i).1.memory = x.memory ∨
        ∃ t', (step p x i).1.memory = (p.work x.memory t').1) := by
  cases i with
  | receive s' e =>
    cases hs' : x.task s' with
    | some t' =>
      rw [step_receive_busy hs']
      exact ⟨hs, Or.inl rfl⟩
    | none =>
      have hne : s ≠ s' := by
        rintro rfl
        exact nomatch hs'.symm.trans hs
      rw [step_receive hs']
      exact ⟨(Function.update_of_ne hne ..).trans hs, Or.inl rfl⟩
  | work s' =>
    have hne : s ≠ s' := fun e => hi (congrArg Input.work e.symm)
    cases hs' : x.task s' with
    | none =>
      rw [step_work_idle hs']
      exact ⟨hs, Or.inl rfl⟩
    | some t' =>
      rcases hw : p.work x.memory t' with ⟨m, t'' | r⟩
      · rw [step_work_next hs' hw]
        exact ⟨(Function.update_of_ne hne ..).trans hs, Or.inr ⟨t', by rw [hw]⟩⟩
      · rw [step_work_done hs' hw]
        exact ⟨(Function.update_of_ne hne ..).trans hs, Or.inr ⟨t', by rw [hw]⟩⟩

/-- **Wait-freedom.** If every access of a task lowers its cost, and the accesses of other tasks do
not raise it, the task ends once its thread has had more turns than that, under every schedule. -/
theorem waitFree {cost : M → T → ℕ}
    (hnext : ∀ m m' t t', p.work m t = (m', .inl t') → cost m' t' < cost m t)
    (hother : ∀ m t t', cost (p.work m t').1 t ≤ cost m t)
    {c : Config (State ι S M T) (Input ι E) (Option (ι × R))} (hs : c.state.task s = some t)
    {is : List (Input ι E)} (hturns : cost c.state.memory t < turns s is) :
    (results s c.history).length < (results s (run (step p) c is).history).length := by
  induction is generalizing c t with
  | nil => exact absurd hturns (Nat.not_lt_zero _)
  | cons i is ih =>
    rw [run_cons]
    have hgrow : (results s c.history).length ≤
        (results s (advance (step p) c i).history).length := results_prefix_cons.length_le
    by_cases hi : i = .work s
    · subst hi
      rw [turns, if_pos rfl] at hturns
      rcases hw : p.work c.state.memory t with ⟨m, t' | r⟩
      · refine Nat.lt_of_le_of_lt hgrow (ih (t := t') ?_ ?_)
        · rw [advance_state, step_work_next hs hw]
          exact Function.update_self ..
        · rw [advance_state, step_work_next hs hw]
          have := hnext _ _ _ _ hw
          show cost m t' < _
          omega
      · refine Nat.lt_of_lt_of_le ?_ (results_prefix_run _ is).length_le
        rw [advance_history, results_cons_self (by rw [record, step_work_done hs hw]),
          List.length_append]
        exact Nat.lt_succ_self _
    · obtain ⟨htask, hmem⟩ := step_others (p := p) hs hi
      have hcost : cost (step p c.state i).1.memory t ≤ cost c.state.memory t := by
        rcases hmem with hmem | ⟨t', hmem⟩
        · exact Nat.le_of_eq (by rw [hmem])
        · exact hmem ▸ hother _ _ _
      have hrest : turns s (i :: is) = turns s is := by
        cases i with
        | receive s' e => rfl
        | work s' => rw [turns, if_neg fun e => hi (congrArg Input.work e), Nat.zero_add]
      rw [hrest] at hturns
      exact Nat.lt_of_le_of_lt hgrow (ih htask (Nat.lt_of_le_of_lt hcost hturns))

end WaitFree

/-! ## Two programs -/

section Refinement

variable {M' T' R' : Type*} (p : Program S E M T R) (q : Program S E M' T' R')
  (mem : M → M' → Prop) (pend : T → T' → Prop) (result : R → R' → Prop)

/-- Program `p` does on its memory what `q` does on another one, access by access. -/
structure Refines : Prop where
  accept_own : ∀ own e, (p.accept own e).1 = (q.accept own e).1
  accept_task : ∀ own e, Option.Rel pend (p.accept own e).2 (q.accept own e).2
  work_memory : ∀ {m m' t t'}, mem m m' → pend t t' → mem (p.work m t).1 (q.work m' t').1
  work_rest : ∀ {m m' t t'}, mem m m' → pend t t' →
    Sum.LiftRel pend result (p.work m t).2 (q.work m' t').2

/-- Steps that match. -/
structure Matches (e : Entry (State ι S M T) (Input ι E) (Option (ι × R)))
    (e' : Entry (State ι S M' T') (Input ι E) (Option (ι × R'))) : Prop where
  input : e.input = e'.input
  own : e.pre.own = e'.pre.own
  task : ∀ s, Option.Rel pend (e.pre.task s) (e'.pre.task s)
  output : Option.Rel (fun o o' => o.1 = o'.1 ∧ result o.2 o'.2) e.output e'.output

/-- Runs that match. -/
structure Related (c : Config (State ι S M T) (Input ι E) (Option (ι × R)))
    (d : Config (State ι S M' T') (Input ι E) (Option (ι × R'))) : Prop where
  memory : mem c.state.memory d.state.memory
  own : c.state.own = d.state.own
  task : ∀ s, Option.Rel pend (c.state.task s) (d.state.task s)
  history : List.Forall₂ (Matches pend result) c.history d.history

variable {p q mem pend result}
  {c : Config (State ι S M T) (Input ι E) (Option (ι × R))}
  {d : Config (State ι S M' T') (Input ι E) (Option (ι × R'))}

theorem rel_update {α β : Type*} {r : α → β → Prop} {f : ι → Option α} {g : ι → Option β}
    (h : ∀ s, Option.Rel r (f s) (g s)) (s : ι) {a : Option α} {b : Option β}
    (hab : Option.Rel r a b) (s' : ι) :
    Option.Rel r (Function.update f s a s') (Function.update g s b s') := by
  by_cases he : s' = s
  · subst he
    rwa [Function.update_self, Function.update_self]
  · rw [Function.update_of_ne he, Function.update_of_ne he]
    exact h s'

theorem rel_getLeft? {α α' β β' : Type*} {r : α → β → Prop} {r' : α' → β' → Prop} {x : α ⊕ α'}
    {y : β ⊕ β'} (h : Sum.LiftRel r r' x y) : Option.Rel r x.getLeft? y.getLeft? := by
  cases h with
  | inl h => exact .some h
  | inr h => exact .none

omit [DecidableEq ι] in
theorem rel_getRight? {α α' β β' : Type*} {r : α → β → Prop} {r' : α' → β' → Prop} {x : α ⊕ α'}
    {y : β ⊕ β'} (h : Sum.LiftRel r r' x y) (s : ι) :
    Option.Rel (fun o o' : ι × _ => o.1 = o'.1 ∧ r' o.2 o'.2)
      (x.getRight?.map fun a => (s, a)) (y.getRight?.map fun b => (s, b)) := by
  cases h with
  | inl h => exact .none
  | inr h => exact .some ⟨rfl, h⟩

omit [DecidableEq ι] in
theorem Related.skip {next : State ι S M T → Input ι E → State ι S M T × Option (ι × R)}
    {next' : State ι S M' T' → Input ι E → State ι S M' T' × Option (ι × R')}
    (h : Related mem pend result c d) {i : Input ι E} (hc : next c.state i = (c.state, none))
    (hd : next' d.state i = (d.state, none)) :
    Related mem pend result (StepRun.advance next c i) (StepRun.advance next' d i) := by
  constructor <;> simp only [advance_state, advance_history, hc, hd]
  · exact h.memory
  · exact h.own
  · exact h.task
  · refine .cons ⟨rfl, h.own, h.task, ?_⟩ h.history
    rw [record, record, hc, hd]
    exact .none

theorem Refines.receive (hp : Refines p q mem pend result) (h : Related mem pend result c d)
    {s : ι} (hc : c.state.task s = none) (hd : d.state.task s = none) (e : E) :
    Related mem pend result (StepRun.advance (step p) c (.receive s e))
      (StepRun.advance (step q) d (.receive s e)) := by
  have hown : c.state.own s = d.state.own s := congrFun h.own s
  constructor <;> simp only [advance_state, advance_history, step_receive hc, step_receive hd]
  · exact h.memory
  · rw [h.own, hp.accept_own]
  · exact rel_update h.task s (hown ▸ hp.accept_task _ _)
  · refine .cons ⟨rfl, h.own, h.task, ?_⟩ h.history
    rw [record, record, step_receive hc, step_receive hd]
    exact .none

theorem Refines.work (hp : Refines p q mem pend result) (h : Related mem pend result c d)
    {s : ι} {t : T} {t' : T'} (hc : c.state.task s = some t) (hd : d.state.task s = some t')
    (ht : pend t t') :
    Related mem pend result (StepRun.advance (step p) c (.work s))
      (StepRun.advance (step q) d (.work s)) := by
  have hrest := hp.work_rest h.memory ht
  constructor <;> simp only [advance_state, advance_history, step_work hc, step_work hd]
  · exact hp.work_memory h.memory ht
  · exact h.own
  · exact rel_update h.task s (rel_getLeft? hrest)
  · refine .cons ⟨rfl, h.own, h.task, ?_⟩ h.history
    rw [record, record, step_work hc, step_work hd]
    exact rel_getRight? hrest s

theorem Refines.advance (hp : Refines p q mem pend result) (h : Related mem pend result c d)
    (i : Input ι E) : Related mem pend result (advance (step p) c i) (advance (step q) d i) := by
  cases i with
  | receive s e =>
    have hs := h.task s
    cases hc : c.state.task s <;> cases hd : d.state.task s <;> rw [hc, hd] at hs
    · exact hp.receive h hc hd e
    · cases hs
    · cases hs
    · exact h.skip (step_receive_busy hc) (step_receive_busy hd)
  | work s =>
    have hs := h.task s
    cases hc : c.state.task s <;> cases hd : d.state.task s <;> rw [hc, hd] at hs
    · exact h.skip (step_work_idle hc) (step_work_idle hd)
    · cases hs
    · cases hs
    · obtain ⟨ht⟩ := hs
      exact hp.work h hc hd ht

/-- **Refinement.** The two programs run alike under every schedule. -/
theorem refines_run (hp : Refines p q mem pend result) {m : M} {m' : M'} (hm : mem m m')
    (own : ι → S) (is : List (Input ι E)) :
    Related mem pend result (run (step p) (start (idle m own)) is)
      (run (step q) (start (idle m' own)) is) :=
  run_related (R := Related mem pend result) (fun _ _ i h => hp.advance h i)
    ⟨hm, rfl, fun _ => .none, .nil⟩ is

omit [DecidableEq ι] in
theorem Related.task_none (h : Related mem pend result c d) {s : ι} :
    c.state.task s = none ↔ d.state.task s = none := by
  have hs := h.task s
  cases hc : c.state.task s <;> cases hd : d.state.task s <;> rw [hc, hd] at hs
  · exact iff_of_true rfl rfl
  · cases hs
  · cases hs
  · exact iff_of_false nofun nofun

omit [DecidableEq ι] in
theorem Related.task_some (h : Related mem pend result c d) {s : ι} {t' : T'}
    (hd : d.state.task s = some t') : ∃ t, c.state.task s = some t ∧ pend t t' := by
  have hs := h.task s
  rw [hd] at hs
  cases hc : c.state.task s with
  | none => rw [hc] at hs; cases hs
  | some t =>
    rw [hc] at hs
    cases hs with
    | some ht => exact ⟨t, rfl, ht⟩

theorem results_matches {h : List (Entry (State ι S M T) (Input ι E) (Option (ι × R)))}
    {h' : List (Entry (State ι S M' T') (Input ι E) (Option (ι × R')))}
    (hm : List.Forall₂ (Matches pend result) h h') (s : ι) :
    List.Forall₂ result (results s h) (results s h') := by
  induction hm with
  | nil => exact .nil
  | @cons e e' h h' he _ ih =>
    have hout := he.output
    cases ho : e.output with
    | none =>
      cases ho' : e'.output with
      | some o' => rw [ho, ho'] at hout; cases hout
      | none => rwa [results_cons_none ho, results_cons_none ho']
    | some o =>
      cases ho' : e'.output with
      | none => rw [ho, ho'] at hout; cases hout
      | some o' =>
        rw [ho, ho'] at hout
        obtain ⟨hthread, hres⟩ : o.1 = o'.1 ∧ result o.2 o'.2 := by cases hout; assumption
        obtain ⟨t, r⟩ := o
        obtain ⟨t', r'⟩ := o'
        obtain rfl : t = t' := hthread
        by_cases hs : t = s
        · subst hs
          rw [results_cons_self ho, results_cons_self ho']
          exact List.rel_append ih (.cons hres .nil)
        · rwa [results_cons_of_ne ho hs, results_cons_of_ne ho' hs]

end Refinement

end Threads
