import OnlineCaro.Lib.Threads

/-!
# What holds under any interference

Two rules for tasks whose accesses other tasks may interrupt at any point.

* `tasks s`: the tasks that thread `s` has started, oldest first.
* `Sound`, **`sound_run`**: an invariant of the memory that every access keeps, and what a task
  knows about itself at each access; then the results answer the tasks one by one.
* `begins`, `passes`, **`passes_le_begins`**: an access that a task makes at most once is made no
  more often than such tasks are started.
-/

namespace Threads

open StepRun

variable {ι S E M T R : Type*} [DecidableEq ι]

/-! ## Results that answer their tasks -/

section Interference

variable (p : Program S E M T R)

/-- The thread and the task that a step starts. -/
def begun (e : Entry (State ι S M T) (Input ι E) (Option (ι × R))) : Option (ι × T) :=
  match e.input with
  | .receive s a =>
    if e.pre.task s = none then (p.accept (e.pre.own s) a).2.map fun t => (s, t) else none
  | .work _ => none

/-- The tasks that thread `s` has started, oldest first. -/
def tasks (s : ι) : List (Entry (State ι S M T) (Input ι E) (Option (ι × R))) → List T
  | [] => []
  | e :: h => tasks s h ++ ((begun p e).bind fun b => if b.1 = s then some b.2 else none).toList

/-- What holds under any interference: the accesses of a task that was started as `t₀` keep `inv`
and rely on nothing else of the memory. -/
structure Sound (inv : M → Prop) (mid : T → T → Prop) (post : T → R → Prop) : Prop where
  start : ∀ {own e t}, (p.accept own e).2 = some t → mid t t
  keep : ∀ {m t₀ t}, inv m → mid t₀ t → inv (p.work m t).1
  next : ∀ {m m' t₀ t t'}, inv m → mid t₀ t → p.work m t = (m', .inl t') → mid t₀ t'
  done : ∀ {m m' t₀ t r}, inv m → mid t₀ t → p.work m t = (m', .inr r) → post t₀ r

/-- The memory keeps its invariant, and every result meets the postcondition of its task. -/
structure SoundRun (inv : M → Prop) (mid : T → T → Prop) (post : T → R → Prop)
    (c : Config (State ι S M T) (Input ι E) (Option (ι × R))) : Prop where
  inv : inv c.state.memory
  waiting : ∀ s, c.state.task s = none →
    List.Forall₂ post (tasks p s c.history) (results s c.history)
  busy : ∀ s t, c.state.task s = some t → ∃ ts t₀, tasks p s c.history = ts ++ [t₀] ∧
    mid t₀ t ∧ List.Forall₂ post ts (results s c.history)

variable {p} {inv : M → Prop} {mid : T → T → Prop} {post : T → R → Prop}
  {e : Entry (State ι S M T) (Input ι E) (Option (ι × R))}
  {h : List (Entry (State ι S M T) (Input ι E) (Option (ι × R)))}
  {c : Config (State ι S M T) (Input ι E) (Option (ι × R))} {x : State ι S M T} {s s' : ι}
  {t t' : T} {m : M} {r : R}

theorem tasks_cons_none (he : begun p e = none) : tasks p s (e :: h) = tasks p s h := by
  rw [tasks, he]
  exact List.append_nil _

theorem tasks_cons_self (he : begun p e = some (s, t)) :
    tasks p s (e :: h) = tasks p s h ++ [t] := by
  rw [tasks, he, Option.bind_some, if_pos rfl]
  rfl

theorem tasks_cons_of_ne (he : begun p e = some (s', t)) (hne : s' ≠ s) :
    tasks p s (e :: h) = tasks p s h := by
  rw [tasks, he, Option.bind_some, if_neg hne]
  exact List.append_nil _

omit [DecidableEq ι] in
theorem begun_work (hi : e.input = .work s) : begun p e = none := by
  rw [begun, hi]

omit [DecidableEq ι] in
theorem begun_busy {a : E} (hi : e.input = .receive s a) (hs : e.pre.task s = some t) :
    begun p e = none := by
  simp only [begun, hi, hs, reduceCtorEq, if_false]

omit [DecidableEq ι] in
theorem begun_receive {a : E} (hi : e.input = .receive s a) (hs : e.pre.task s = none) :
    begun p e = (p.accept (e.pre.own s) a).2.map fun t => (s, t) := by
  simp only [begun, hi, hs, if_true]

theorem SoundRun.skip (hc : SoundRun p inv mid post c) {i : Input ι E}
    (hi : step p c.state i = (c.state, none))
    (hb : begun p (record (step p) c.state i) = none) :
    SoundRun p inv mid post (advance (step p) c i) := by
  constructor <;> simp only [advance_state, advance_history, hi, tasks_cons_none hb,
    results_cons_none (e := record (step p) c.state i) (by rw [record, hi])]
  · exact hc.inv
  · exact hc.waiting
  · exact hc.busy

theorem SoundRun.receive (hp : Sound p inv mid post) (hc : SoundRun p inv mid post c) {a : E}
    (hs : c.state.task s = none) : SoundRun p inv mid post (advance (step p) c (.receive s a)) := by
  have hout : ∀ s', results s' (record (step p) c.state (.receive s a) :: c.history) =
      results s' c.history := fun s' => results_cons_none (by rw [record, step_receive hs])
  have hb : begun p (record (step p) c.state (.receive s a)) =
      (p.accept (c.state.own s) a).2.map fun t => (s, t) := begun_receive rfl hs
  constructor <;> simp only [advance_state, advance_history, step_receive hs, hout]
  · exact hc.inv
  · intro s' hs'
    by_cases he : s' = s
    · subst he
      rw [Function.update_self] at hs'
      rw [hs'] at hb
      rw [tasks_cons_none hb]
      exact hc.waiting s' hs
    · rw [Function.update_of_ne he] at hs'
      have hw := hc.waiting s' hs'
      cases ha : (p.accept (c.state.own s) a).2 with
      | none => rwa [tasks_cons_none (by rw [hb, ha]; rfl)]
      | some t => rwa [tasks_cons_of_ne (by rw [hb, ha]; rfl) (Ne.symm he)]
  · intro s' t' ht'
    rcases update_cases ht' with ⟨rfl, ha⟩ | ⟨he, ht'⟩
    · rw [ha] at hb
      exact ⟨tasks p s' c.history, t', tasks_cons_self hb, hp.start ha, hc.waiting s' hs⟩
    · have hw := hc.busy s' t' ht'
      cases ha : (p.accept (c.state.own s) a).2 with
      | none => rwa [tasks_cons_none (by rw [hb, ha]; rfl)]
      | some t => rwa [tasks_cons_of_ne (by rw [hb, ha]; rfl) (Ne.symm he)]

theorem SoundRun.work (hp : Sound p inv mid post) (hc : SoundRun p inv mid post c)
    (hs : c.state.task s = some t) : SoundRun p inv mid post (advance (step p) c (.work s)) := by
  obtain ⟨ts, t₀, hts, hmid, hpost⟩ := hc.busy s t hs
  have hinv := hp.keep hc.inv hmid
  have hb : ∀ s', tasks p s' (record (step p) c.state (.work s) :: c.history) =
      tasks p s' c.history := fun s' => tasks_cons_none (begun_work rfl)
  rcases hw : p.work c.state.memory t with ⟨m, t' | r⟩
  · have hout : ∀ s', results s' (record (step p) c.state (.work s) :: c.history) =
        results s' c.history := fun s' => results_cons_none (by rw [record, step_work_next hs hw])
    constructor <;> simp only [advance_state, advance_history, step_work_next hs hw, hout, hb]
    · rwa [hw] at hinv
    · intro s' hs'
      by_cases he : s' = s
      · subst he
        rw [Function.update_self] at hs'
        cases hs'
      · exact hc.waiting s' (by rwa [Function.update_of_ne he] at hs')
    · intro s' t'' ht''
      rcases update_cases ht'' with ⟨rfl, hnew⟩ | ⟨-, ht''⟩
      · obtain rfl := Option.some.inj hnew
        exact ⟨ts, t₀, hts, hp.next hc.inv hmid hw, hpost⟩
      · exact hc.busy s' t'' ht''
  · have hout : ∀ s' ≠ s, results s' (record (step p) c.state (.work s) :: c.history) =
        results s' c.history := fun s' he =>
      results_cons_of_ne (by rw [record, step_work_done hs hw]) (Ne.symm he)
    constructor <;> simp only [advance_state, advance_history, step_work_done hs hw, hb]
    · rwa [hw] at hinv
    · intro s' hs'
      by_cases he : s' = s
      · subst he
        rw [hts, results_cons_self (by rw [record, step_work_done hs hw])]
        exact List.rel_append hpost (.cons (hp.done hc.inv hmid hw) .nil)
      · rw [hout s' he]
        exact hc.waiting s' (by rwa [Function.update_of_ne he] at hs')
    · intro s' t'' ht''
      rcases update_cases ht'' with ⟨-, ⟨⟩⟩ | ⟨he, ht''⟩
      rw [hout s' he]
      exact hc.busy s' t'' ht''

/-- **Interference freedom.** Under every schedule the results answer the tasks in their order,
each as its postcondition says. -/
theorem sound_run (hp : Sound p inv mid post) {own : ι → S} (hm : inv m) (is : List (Input ι E)) :
    SoundRun p inv mid post (run (step p) (start (idle m own)) is) := by
  refine run_invariant (I := SoundRun p inv mid post) (fun c i hc => ?_) ?_ is
  · cases i with
    | receive s a =>
      cases hs : c.state.task s with
      | some t => exact hc.skip (step_receive_busy hs) (begun_busy rfl hs)
      | none => exact hc.receive hp hs
    | work s =>
      cases hs : c.state.task s with
      | none => exact hc.skip (step_work_idle hs) (begun_work rfl)
      | some t => exact hc.work hp hs
  · exact ⟨hm, fun _ _ => .nil, fun _ _ h => nomatch h⟩

end Interference

/-! ## Counting accesses -/

section Counting

variable (p : Program S E M T R)

/-- The step starts a task that meets `P`. -/
def begins (P : T → Bool) (e : Entry (State ι S M T) (Input ι E) (Option (ι × R))) : Bool :=
  (begun p e).any fun b => P b.2

/-- The step is the next access of a task that meets `Q`. -/
def passes (Q : T → Bool) (e : Entry (State ι S M T) (Input ι E) (Option (ι × R))) : Bool :=
  match e.input with
  | .receive _ _ => false
  | .work s => (e.pre.task s).any Q

/-- The threads in `waiting` are all that have a task with `ahead`. -/
def Covers (ahead : T → Prop) (task : ι → Option T) (waiting : List ι) : Prop :=
  ∀ s t, task s = some t → ahead t → s ∈ waiting

variable {p} {P Q : T → Bool} {ahead : T → Prop} {task : ι → Option T} {waiting : List ι} {s : ι}
  {o : Option T}

theorem Covers.update (h : Covers ahead task waiting) {waiting' : List ι}
    (hsub : ∀ s' ≠ s, s' ∈ waiting → s' ∈ waiting')
    (hs : ∀ t, o = some t → ahead t → s ∈ waiting') :
    Covers ahead (Function.update task s o) waiting' := by
  intro s' t ht hah
  rcases update_cases ht with ⟨rfl, ho⟩ | ⟨he, ht⟩
  · exact hs t ho hah
  · exact hsub s' he (h s' t ht hah)

/-- A thread whose new task has the access behind it. -/
theorem Covers.erase (h : Covers ahead task waiting) (ho : ∀ t, o = some t → ¬ ahead t) :
    Covers ahead (Function.update task s o) (waiting.erase s) :=
  h.update (fun _ he hm => (List.mem_erase_of_ne he).mpr hm) fun t ht hah => absurd hah (ho t ht)

/-- An access that counts takes its thread off the list. -/
theorem Covers.length_erase (h : Covers ahead task waiting) {t : T} (hs : task s = some t)
    (hahead : Q t = true → ahead t) :
    (if Q t = true then 1 else 0) + (waiting.erase s).length ≤ waiting.length := by
  split_ifs with hQ
  · have hmem := h s t hs (hahead hQ)
    have hpos := List.length_pos_of_mem hmem
    rw [List.length_erase_of_mem hmem]
    omega
  · rw [Nat.zero_add]
    exact List.length_erase_le

/-- **Once.** If a task that still has the access `Q` ahead was begun as a `P`, and no longer has it
once it made it, the access is made at most once for each such task. -/
theorem passes_le_begins (hstart : ∀ own e t, (p.accept own e).2 = some t → ahead t → P t = true)
    (hahead : ∀ t, Q t = true → ahead t)
    (hnext : ∀ m m' t t', p.work m t = (m', .inl t') → ahead t' → ahead t ∧ Q t = false)
    (m : M) (own : ι → S) (is : List (Input ι E)) :
    (run (step p) (start (idle m own)) is).history.countP (passes Q) ≤
      (run (step p) (start (idle m own)) is).history.countP (begins p P) := by
  have hstep : ∀ (c : Config (State ι S M T) (Input ι E) (Option (ι × R))) (i : Input ι E),
      (∃ waiting, Covers ahead c.state.task waiting ∧
        c.history.countP (passes Q) + waiting.length ≤ c.history.countP (begins p P)) →
      ∃ waiting, Covers ahead (advance (step p) c i).state.task waiting ∧
        (advance (step p) c i).history.countP (passes Q) + waiting.length ≤
          (advance (step p) c i).history.countP (begins p P) := by
    rintro c i ⟨waiting, hw, hle⟩
    simp only [advance_state, advance_history, List.countP_cons]
    cases i with
    | receive s a =>
      have hpass : passes Q (record (step p) c.state (.receive s a)) = false := rfl
      rw [hpass, if_neg Bool.false_ne_true]
      cases hs : c.state.task s with
      | some t =>
        rw [step_receive_busy hs]
        exact ⟨waiting, hw, by omega⟩
      | none =>
        rw [step_receive hs]
        by_cases hah : ∃ t, (p.accept (c.state.own s) a).2 = some t ∧ ahead t
        · obtain ⟨t, ha, hah⟩ := hah
          have hbeg : begins p P (record (step p) c.state (.receive s a)) = true := by
            rw [begins, begun_receive rfl hs, record_pre, ha]
            exact hstart _ _ t ha hah
          refine ⟨s :: waiting, hw.update (fun _ _ hm => List.mem_cons_of_mem _ hm)
            fun _ _ _ => List.mem_cons_self, ?_⟩
          rw [hbeg, if_pos rfl, List.length_cons]
          omega
        · refine ⟨waiting.erase s, hw.erase fun t ha h => hah ⟨t, ha, h⟩, ?_⟩
          have := List.length_erase_le (a := s) (l := waiting)
          omega
    | work s =>
      have hbeg : begins p P (record (step p) c.state (.work s)) = false := rfl
      have hpass : passes Q (record (step p) c.state (.work s)) = (c.state.task s).any Q := rfl
      rw [hbeg, hpass, if_neg Bool.false_ne_true]
      cases hs : c.state.task s with
      | none =>
        rw [step_work_idle hs]
        exact ⟨waiting, hw, hle⟩
      | some t =>
        rw [Option.any_some]
        have hlen := hw.length_erase hs (hahead t)
        rcases hwk : p.work c.state.memory t with ⟨m', t' | r⟩
        · rw [step_work_next hs hwk]
          by_cases hah : ahead t'
          · obtain ⟨hah, hQ⟩ := hnext _ _ _ _ hwk hah
            rw [hQ, if_neg Bool.false_ne_true]
            exact ⟨waiting, hw.update (fun _ _ hm => hm) fun _ _ _ => hw s t hs hah, hle⟩
          · exact ⟨waiting.erase s, hw.erase fun _ h => Option.some.inj h ▸ hah, by omega⟩
        · rw [step_work_done hs hwk]
          exact ⟨waiting.erase s, hw.erase nofun, by omega⟩
  obtain ⟨waiting, -, hle⟩ := run_invariant hstep (c := start (idle m own))
    ⟨[], fun _ _ h => (nomatch h), Nat.le_refl _⟩ is
  omega

end Counting

/-! ## Programs that match -/

section Refinement

variable {M' T' R' : Type*} {p : Program S E M T R} {q : Program S E M' T' R'}
  {mem : M → M' → Prop} {pend : T → T' → Prop} {result : R → R' → Prop}
  {e : Entry (State ι S M T) (Input ι E) (Option (ι × R))}
  {e' : Entry (State ι S M' T') (Input ι E) (Option (ι × R'))}
  {h : List (Entry (State ι S M T) (Input ι E) (Option (ι × R)))}
  {h' : List (Entry (State ι S M' T') (Input ι E) (Option (ι × R')))}

omit [DecidableEq ι] in
theorem Refines.begun (hp : Refines p q mem pend result) (he : Matches pend result e e') :
    Option.Rel (fun b b' => b.1 = b'.1 ∧ pend b.2 b'.2) (begun p e) (begun q e') := by
  have hinput := he.input
  cases hi : e.input with
  | work s =>
    rw [begun_work hi, begun_work (hinput ▸ hi)]
    exact .none
  | receive s a =>
    have hi' : e'.input = .receive s a := hinput ▸ hi
    have hacc := hp.accept_task (e.pre.own s) a
    have htask := he.task s
    cases ht : e.pre.task s <;> cases ht' : e'.pre.task s <;> rw [ht, ht'] at htask
    · rw [begun_receive hi ht, begun_receive hi' ht', ← he.own]
      cases h : (p.accept (e.pre.own s) a).2 <;> cases h' : (q.accept (e.pre.own s) a).2 <;>
        rw [h, h'] at hacc
      · exact .none
      · cases hacc
      · cases hacc
      · cases hacc with
        | some hpend => exact .some ⟨rfl, hpend⟩
    · cases htask
    · cases htask
    · rw [begun_busy hi ht, begun_busy hi' ht']
      exact .none

theorem Refines.tasks (hp : Refines p q mem pend result)
    (hm : List.Forall₂ (Matches pend result) h h') (s : ι) :
    List.Forall₂ pend (tasks p s h) (tasks q s h') := by
  induction hm with
  | nil => exact .nil
  | @cons e e' h h' he _ ih =>
    have hb := hp.begun he
    cases hbe : Threads.begun p e <;> cases hbe' : Threads.begun q e' <;> rw [hbe, hbe'] at hb
    · rwa [tasks_cons_none hbe, tasks_cons_none hbe']
    · cases hb
    · cases hb
    · next b b' =>
      obtain ⟨hthread, hpend⟩ : b.1 = b'.1 ∧ pend b.2 b'.2 := by cases hb; assumption
      obtain ⟨t, x⟩ := b
      obtain ⟨t', x'⟩ := b'
      obtain rfl : t = t' := hthread
      by_cases hs : t = s
      · subst hs
        rw [tasks_cons_self hbe, tasks_cons_self hbe']
        exact List.rel_append ih (.cons hpend .nil)
      · rwa [tasks_cons_of_ne hbe hs, tasks_cons_of_ne hbe' hs]

omit [DecidableEq ι] in
theorem Refines.begins (hp : Refines p q mem pend result) {P : T → Bool} {P' : T' → Bool}
    (hP : ∀ t t', pend t t' → P t = P' t') (hm : List.Forall₂ (Matches pend result) h h') :
    h.countP (begins p P) = h'.countP (begins q P') := by
  induction hm with
  | nil => rfl
  | @cons e e' h h' he _ ih =>
    have hb := hp.begun he
    have hone : Threads.begins p P e = Threads.begins q P' e' := by
      rw [Threads.begins, Threads.begins]
      cases hbe : Threads.begun p e <;> cases hbe' : Threads.begun q e' <;> rw [hbe, hbe'] at hb
      · rfl
      · cases hb
      · cases hb
      · cases hb with
        | some hpend => exact hP _ _ hpend.2
    rw [List.countP_cons, List.countP_cons, ih, hone]

end Refinement

end Threads
