import OnlineCaro.Lib.Threads
import Mathlib.Data.Set.Defs

/-!
# Regions of the memory

Every task works on one region of the memory and leaves the others alone. A group of threads whose
regions no other thread works on does under every schedule what it does when it is alone.

* `Regional`, `Separates`: what a program has to satisfy, one access at a time.
* `KeepsApart`: the condition on the arrivals; `alone`: the schedule of the group.
* `Apart`, **`runs_apart`**: the relation between the two runs.
-/

namespace Threads

open StepRun

variable {ι S E M T R U : Type*} [DecidableEq ι]

section Regions

variable (p : Program S E M T R)

/-- Memories may be the `same` on a region; `ok` is what a task may rely on at its current
access. -/
structure Regional (region : T → U) (same : U → M → M → Prop) (ok : M → T → Prop) : Prop where
  same_equiv : ∀ u, Equivalence (same u)
  ok_accept : ∀ {own e t} (m : M), (p.accept own e).2 = some t → ok m t
  ok_work : ∀ {m t t'}, ok m t → ok m t' → ok (p.work m t').1 t
  ok_next : ∀ {m m' t t'}, ok m t → p.work m t = (m', .inl t') → ok m' t'
  region_next : ∀ {m m' t t'}, p.work m t = (m', .inl t') → region t' = region t
  frame : ∀ {m t u}, ok m t → u ≠ region t → same u m (p.work m t).1

/-- An access depends on the region of its task only. -/
structure Separates (region : T → U) (same : U → M → M → Prop) (ok : M → T → Prop) : Prop
    extends Regional p region same ok where
  work_rest : ∀ {m m' t}, ok m t → same (region t) m m' → (p.work m t).2 = (p.work m' t).2
  work_same : ∀ {m m' t}, ok m t → same (region t) m m' →
    same (region t) (p.work m t).1 (p.work m' t).1

/-- The thread of a step. -/
def Input.thread : Input ι E → ι
  | .receive s _ => s
  | .work s => s

/-- The schedule without the threads outside the group. -/
def alone (group : ι → Bool) (is : List (Input ι E)) : List (Input ι E) :=
  is.filter fun i => group i.thread

/-- The tasks of the group, and only they, are for regions in `V`. -/
def KeepsApart (region : T → U) (V : Set U) (group : ι → Bool)
    (c : Config (State ι S M T) (Input ι E) (Option (ι × R))) : Input ι E → Prop
  | .receive s e => c.state.task s = none → ∀ t ∈ (p.accept (c.state.own s) e).2,
      (region t ∈ V ↔ group s = true)
  | .work _ => True

/-- The run of all threads, and that of the group. -/
structure Apart (region : T → U) (same : U → M → M → Prop) (ok : M → T → Prop) (V : Set U)
    (group : ι → Bool) (c d : Config (State ι S M T) (Input ι E) (Option (ι × R))) : Prop where
  okAlone : ∀ s t, group s = true → d.state.task s = some t → ok d.state.memory t
  ok : ∀ s t, c.state.task s = some t → ok c.state.memory t
  kept : ∀ s t, c.state.task s = some t → (region t ∈ V ↔ group s = true)
  memory : ∀ u ∈ V, same u c.state.memory d.state.memory
  own : ∀ s, group s = true → c.state.own s = d.state.own s
  task : ∀ s, group s = true → c.state.task s = d.state.task s
  results : ∀ s, group s = true → results s c.history = results s d.history

variable {p} {region : T → U} {same : U → M → M → Prop} {ok : M → T → Prop} {V : Set U}
  {group : ι → Bool} {c d : Config (State ι S M T) (Input ι E) (Option (ι × R))} {s : ι} {t : T}
  {e : E} {i : Input ι E}

theorem Apart.skip (h : Apart region same ok V group c d)
    (hi : step p c.state i = (c.state, none)) :
    Apart region same ok V group (advance (step p) c i) d := by
  have hres : ∀ s, Threads.results s (record (step p) c.state i :: c.history) =
      Threads.results s c.history := fun s => results_cons_none (by rw [record, hi])
  refine ⟨h.okAlone, ?_, ?_, ?_, ?_, ?_, ?_⟩ <;>
    simp only [advance_state, advance_history, hi, hres]
  · exact h.ok
  · exact h.kept
  · exact h.memory
  · exact h.own
  · exact h.task
  · exact h.results

theorem Apart.skip_alone (h : Apart region same ok V group c d)
    (hi : step p d.state i = (d.state, none)) :
    Apart region same ok V group c (advance (step p) d i) := by
  have hres : ∀ s, Threads.results s (record (step p) d.state i :: d.history) =
      Threads.results s d.history := fun s => results_cons_none (by rw [record, hi])
  refine ⟨?_, h.ok, h.kept, ?_, ?_, ?_, ?_⟩ <;>
    simp only [advance_state, advance_history, hi, hres]
  · exact h.okAlone
  · exact h.memory
  · exact h.own
  · exact h.task
  · exact h.results

theorem Apart.receive_task (hp : Separates p region same ok) (h : Apart region same ok V group c d)
    (hs : c.state.task s = none) (hk : KeepsApart p region V group c (.receive s e)) {s' : ι}
    {t' : T} (ht' : Function.update c.state.task s (p.accept (c.state.own s) e).2 s' = some t') :
    ok c.state.memory t' ∧ (region t' ∈ V ↔ group s' = true) := by
  rcases update_cases ht' with ⟨rfl, ha⟩ | ⟨-, ht'⟩
  · exact ⟨hp.ok_accept _ ha, hk hs t' ha⟩
  · exact ⟨h.ok s' t' ht', h.kept s' t' ht'⟩

theorem Apart.receive_inside (hp : Separates p region same ok)
    (h : Apart region same ok V group c d) (hs : c.state.task s = none) (hg : group s = true)
    (hk : KeepsApart p region V group c (.receive s e)) :
    Apart region same ok V group (advance (step p) c (.receive s e))
      (advance (step p) d (.receive s e)) := by
  have hs' : d.state.task s = none := (h.task s hg).symm.trans hs
  have hown : d.state.own s = c.state.own s := (h.own s hg).symm
  constructor <;> simp only [advance_state, advance_history, step_receive hs, step_receive hs']
  · intro s' t' hg' ht'
    rcases update_cases ht' with ⟨rfl, ha⟩ | ⟨-, ht'⟩
    · exact hp.ok_accept _ ha
    · exact h.okAlone s' t' hg' ht'
  · exact fun s' t' ht' => (h.receive_task hp hs hk ht').1
  · exact fun s' t' ht' => (h.receive_task hp hs hk ht').2
  · exact h.memory
  · intro s' hg'
    by_cases he : s' = s
    · subst he
      rw [Function.update_self, Function.update_self, hown]
    · rw [Function.update_of_ne he, Function.update_of_ne he]
      exact h.own s' hg'
  · intro s' hg'
    by_cases he : s' = s
    · subst he
      rw [Function.update_self, Function.update_self, hown]
    · rw [Function.update_of_ne he, Function.update_of_ne he]
      exact h.task s' hg'
  · intro s' hg'
    rw [results_cons_none (by rw [record, step_receive hs]),
      results_cons_none (by rw [record, step_receive hs'])]
    exact h.results s' hg'

theorem Apart.receive_outside (hp : Separates p region same ok)
    (h : Apart region same ok V group c d) (hs : c.state.task s = none) (hg : group s ≠ true)
    (hk : KeepsApart p region V group c (.receive s e)) :
    Apart region same ok V group (advance (step p) c (.receive s e)) d := by
  have hne : ∀ {s'}, group s' = true → s' ≠ s := fun hg' he => hg (he ▸ hg')
  refine ⟨h.okAlone, ?_, ?_, ?_, ?_, ?_, ?_⟩ <;>
    simp only [advance_state, advance_history, step_receive hs]
  · exact fun s' t' ht' => (h.receive_task hp hs hk ht').1
  · exact fun s' t' ht' => (h.receive_task hp hs hk ht').2
  · exact h.memory
  · intro s' hg'
    rw [Function.update_of_ne (hne hg')]
    exact h.own s' hg'
  · intro s' hg'
    rw [Function.update_of_ne (hne hg')]
    exact h.task s' hg'
  · intro s' hg'
    rw [results_cons_none (by rw [record, step_receive hs])]
    exact h.results s' hg'

theorem Regional.work_task (hp : Regional p region same ok) {x : State ι S M T}
    {P : ι → Prop} (hok : ∀ s t, P s → x.task s = some t → ok x.memory t)
    (hP : P s) (hs : x.task s = some t) {s' : ι} {t' : T} (hP' : P s')
    (ht' : Function.update x.task s (p.work x.memory t).2.getLeft? s' = some t') :
    ok (p.work x.memory t).1 t' ∧ ∃ t₁, x.task s' = some t₁ ∧ region t' = region t₁ := by
  rcases update_cases ht' with ⟨rfl, hnext⟩ | ⟨-, ht'⟩
  · have hw : p.work x.memory t = ((p.work x.memory t).1, .inl t') :=
      Prod.ext rfl (Sum.getLeft?_eq_some_iff.mp hnext)
    exact ⟨hp.ok_next (hok s' t hP hs) hw, t, hs, hp.region_next hw⟩
  · exact ⟨hp.ok_work (hok s' t' hP' ht') (hok s t hP hs), t', ht', rfl⟩

theorem Apart.work_ok (hp : Separates p region same ok) (h : Apart region same ok V group c d)
    (hs : c.state.task s = some t) {s' : ι} {t' : T}
    (ht' : Function.update c.state.task s (p.work c.state.memory t).2.getLeft? s' = some t') :
    ok (p.work c.state.memory t).1 t' ∧ (region t' ∈ V ↔ group s' = true) := by
  obtain ⟨hok, t₁, ht₁, hregion⟩ := hp.work_task (P := fun _ => True) (fun s t _ => h.ok s t)
    trivial hs trivial ht'
  exact ⟨hok, hregion ▸ h.kept s' t₁ ht₁⟩

theorem Apart.work_inside (hp : Separates p region same ok) (h : Apart region same ok V group c d)
    (hs : c.state.task s = some t) (hg : group s = true) :
    Apart region same ok V group (advance (step p) c (.work s)) (advance (step p) d (.work s)) := by
  have hs' : d.state.task s = some t := (h.task s hg).symm.trans hs
  have hok := h.ok s t hs
  have hsame := h.memory (region t) ((h.kept s t hs).mpr hg)
  have hrest := hp.work_rest hok hsame
  -- the access of the group alone relies on the same as that of all threads
  have hother : ∀ u ≠ region t, same u d.state.memory (p.work d.state.memory t).1 :=
    fun u hu => hp.frame (h.okAlone s t hg hs') hu
  constructor <;> simp only [advance_state, advance_history, step_work hs, step_work hs', ← hrest]
  · exact fun s' t' hg' ht' =>
      (hp.work_task (P := fun s => group s = true) h.okAlone hg hs' hg' (hrest ▸ ht')).1
  · exact fun s' t' ht' => (h.work_ok hp hs ht').1
  · exact fun s' t' ht' => (h.work_ok hp hs ht').2
  · intro u hu
    by_cases he : u = region t
    · exact he ▸ hp.work_same hok hsame
    · have hframe := hp.frame hok he
      exact (hp.same_equiv u).trans ((hp.same_equiv u).symm hframe)
        ((hp.same_equiv u).trans (h.memory u hu) (hother u he))
  · exact h.own
  · intro s' hg'
    by_cases he : s' = s
    · rw [he, Function.update_self, Function.update_self]
    · rw [Function.update_of_ne he, Function.update_of_ne he]
      exact h.task s' hg'
  · intro s' hg'
    refine results_cons_congr ?_ (h.results s' hg')
    rw [record, record, step_work hs, step_work hs', ← hrest]

theorem Apart.work_outside (hp : Separates p region same ok)
    (h : Apart region same ok V group c d) (hs : c.state.task s = some t) (hg : group s ≠ true) :
    Apart region same ok V group (advance (step p) c (.work s)) d := by
  have hne : ∀ {s'}, group s' = true → s' ≠ s := fun hg' he => hg (he ▸ hg')
  refine ⟨h.okAlone, ?_, ?_, ?_, ?_, ?_, ?_⟩ <;>
    simp only [advance_state, advance_history, step_work hs]
  · exact fun s' t' ht' => (h.work_ok hp hs ht').1
  · exact fun s' t' ht' => (h.work_ok hp hs ht').2
  · intro u hu
    have hregion : u ≠ region t := fun he => hg ((h.kept s t hs).mp (he ▸ hu))
    exact (hp.same_equiv u).trans ((hp.same_equiv u).symm (hp.frame (h.ok s t hs) hregion))
      (h.memory u hu)
  · exact h.own
  · intro s' hg'
    rw [Function.update_of_ne (hne hg')]
    exact h.task s' hg'
  · intro s' hg'
    rw [← h.results s' hg']
    cases hr : (p.work c.state.memory t).2.getRight? with
    | none => exact results_cons_none (by rw [record, step_work hs, hr]; rfl)
    | some r => exact results_cons_of_ne (by rw [record, step_work hs, hr]; rfl) (hne hg').symm

/-- One step of a thread in the group. -/
theorem Apart.inside (hp : Separates p region same ok) (h : Apart region same ok V group c d)
    (hg : group i.thread = true) (hk : KeepsApart p region V group c i) :
    Apart region same ok V group (advance (step p) c i) (advance (step p) d i) := by
  cases i with
  | receive s e =>
    cases hs : c.state.task s with
    | none => exact h.receive_inside hp hs hg hk
    | some t =>
      exact (h.skip (step_receive_busy hs)).skip_alone
        (step_receive_busy ((h.task s hg).symm.trans hs))
  | work s =>
    cases hs : c.state.task s with
    | none =>
      exact (h.skip (step_work_idle hs)).skip_alone (step_work_idle ((h.task s hg).symm.trans hs))
    | some t => exact h.work_inside hp hs hg

/-- One step of another thread. -/
theorem Apart.outside (hp : Separates p region same ok) (h : Apart region same ok V group c d)
    (hg : group i.thread ≠ true) (hk : KeepsApart p region V group c i) :
    Apart region same ok V group (advance (step p) c i) d := by
  cases i with
  | receive s e =>
    cases hs : c.state.task s with
    | none => exact h.receive_outside hp hs hg hk
    | some t => exact h.skip (step_receive_busy hs)
  | work s =>
    cases hs : c.state.task s with
    | none => exact h.skip (step_work_idle hs)
    | some t => exact h.work_outside hp hs hg

omit [DecidableEq ι] in
theorem alone_cons_inside (hg : group i.thread = true) (is : List (Input ι E)) :
    alone group (i :: is) = i :: alone group is := by
  unfold alone
  exact List.filter_cons_of_pos hg

omit [DecidableEq ι] in
theorem alone_cons_outside (hg : group i.thread ≠ true) (is : List (Input ι E)) :
    alone group (i :: is) = alone group is := by
  unfold alone
  exact List.filter_cons_of_neg hg

/-- **A group by itself.** The other threads make no difference to the group. -/
theorem runs_apart (hp : Separates p region same ok) (m : M) (own : ι → S) {is : List (Input ι E)}
    (hk : Always (step p) (KeepsApart p region V group) (start (idle m own)) is) :
    Apart region same ok V group (run (step p) (start (idle m own)) is)
      (run (step p) (start (idle m own)) (alone group is)) := by
  have hrun : ∀ (is : List (Input ι E))
      (c d : Config (State ι S M T) (Input ι E) (Option (ι × R))),
      Apart region same ok V group c d → Always (step p) (KeepsApart p region V group) c is →
      Apart region same ok V group (run (step p) c is) (run (step p) d (alone group is)) := by
    intro is
    induction is with
    | nil => exact fun c d h _ => h
    | cons i is ih =>
      intro c d h hk
      by_cases hg : group i.thread = true
      · rw [alone_cons_inside hg]
        exact ih _ _ (h.inside hp hg hk.1) hk.2
      · rw [alone_cons_outside hg]
        exact ih _ _ (h.outside hp hg hk.1) hk.2
  refine hrun is _ _ ⟨fun _ _ _ h => ?_, fun _ _ h => ?_, fun _ _ h => ?_,
    fun u _ => (hp.same_equiv u).refl m, fun _ _ => rfl, fun _ _ => rfl, fun _ _ => rfl⟩ hk
  all_goals exact absurd h.symm (Option.some_ne_none _)

end Regions

/-! ## Two programs -/

section Refinement

variable {M' T' R' : Type*} {p : Program S E M T R} {q : Program S E M' T' R'}
  {mem : M → M' → Prop} {pend : T → T' → Prop} {result : R → R' → Prop}
  {c : Config (State ι S M T) (Input ι E) (Option (ι × R))}
  {d : Config (State ι S M' T') (Input ι E) (Option (ι × R'))}

omit [DecidableEq ι] in
theorem Refines.keepsApart (hp : Refines p q mem pend result) {region : T → U} {region' : T' → U}
    (hregion : ∀ t t', pend t t' → region t = region' t') (h : Related mem pend result c d)
    {V : Set U} {group : ι → Bool} {i : Input ι E} (hc : KeepsApart p region V group c i) :
    KeepsApart q region' V group d i := by
  cases i with
  | work s => trivial
  | receive s e =>
    intro hs t' ht'
    have hacc := hp.accept_task (c.state.own s) e
    have hown : c.state.own s = d.state.own s := congrFun h.own s
    rw [hown, show (q.accept (d.state.own s) e).2 = some t' from ht'] at hacc
    cases ha : (p.accept (d.state.own s) e).2 with
    | none => rw [ha] at hacc; cases hacc
    | some t =>
      rw [ha] at hacc
      cases hacc with
      | some ht =>
        rw [← hregion _ _ ht]
        exact hc (h.task_none.mpr hs) t (hown ▸ ha)

end Refinement

end Threads
