import OnlineCaro.Lib.Regions

/-!
# Serializability

Tasks that work on different regions of the memory commute, access by access. So if no two tasks of
one region are ever in progress together, the threads do what a machine does that handles every
arrival, and all the work on its task, in one step.

* `serialStep`: that machine; `arrivals`: what the threads take from a schedule, in its order.
* `Serializes`: what a program has to satisfy, one access at a time.
* `OnePerRegion`: the condition on the schedule.
* `Linked`, **`serializable`**: the relation between the two runs.
-/

namespace Threads

open StepRun

variable {ι S E M T R : Type*} [DecidableEq ι]

section Serial

variable {U : Type*} (p : Program S E M T R) (finish : M → T → M × R)

/-- The shared memory and the private states. -/
structure Serial (ι S M : Type*) where
  memory : M
  own : ι → S

/-- An arrival with all the work on its task. -/
def serialStep (x : Serial ι S M) (i : ι × E) : Serial ι S M × Option (ι × R) :=
  match p.accept (x.own i.1) i.2 with
  | (own, none) => (⟨x.memory, Function.update x.own i.1 own⟩, none)
  | (own, some t) =>
    (⟨(finish x.memory t).1, Function.update x.own i.1 own⟩, some (i.1, (finish x.memory t).2))

/-- The arrival that a step takes. -/
def arrival (x : State ι S M T) : Input ι E → Option (ι × E)
  | .receive s e => if x.task s = none then some (s, e) else none
  | .work _ => none

/-- The arrivals that the threads take under a schedule, in their order. -/
def arrivals (x : State ι S M T) (is : List (Input ι E)) : List (ι × E) :=
  translation (step p) arrival x is

/-- Tasks of different regions commute; `finish` does all that is left of a task at once. -/
structure Serializes (region : T → U) (same : U → M → M → Prop) (ok : M → T → Prop) : Prop
    extends Regional p region same ok where
  finish_next : ∀ {m m' t t'}, ok m t → p.work m t = (m', .inl t') → finish m' t' = finish m t
  finish_done : ∀ {m m' t r}, ok m t → p.work m t = (m', .inr r) → finish m t = (m', r)
  finish_frame : ∀ {m t u}, ok m t → u ≠ region t → same u m (finish m t).1
  finish_local : ∀ {m m' t}, ok m t → same (region t) m m' →
    same (region t) (finish m t).1 (finish m' t).1 ∧ (finish m t).2 = (finish m' t).2

/-- An arrival starts a task only while no task of its region is in progress. -/
def OnePerRegion (region : T → U) (c : Config (State ι S M T) (Input ι E) (Option (ι × R))) :
    Input ι E → Prop
  | .receive s e => c.state.task s = none → ∀ t ∈ (p.accept (c.state.own s) e).2,
      ∀ s' t', c.state.task s' = some t' → region t' ≠ region t
  | .work _ => True

/-- The threads and the serial machine, which has already done all of the tasks in progress. -/
structure Linked (region : T → U) (same : U → M → M → Prop) (ok : M → T → Prop)
    (c : Config (State ι S M T) (Input ι E) (Option (ι × R)))
    (d : Config (Serial ι S M) (ι × E) (Option (ι × R))) : Prop where
  own : c.state.own = d.state.own
  ok : ∀ s t, c.state.task s = some t → ok c.state.memory t
  exclusive : ∀ s s' t t', c.state.task s = some t → c.state.task s' = some t' →
    region t = region t' → s = s'
  busy : ∀ s t, c.state.task s = some t →
    same (region t) (finish c.state.memory t).1 d.state.memory
  free : ∀ u, (∀ s t, c.state.task s = some t → region t ≠ u) →
    same u c.state.memory d.state.memory
  results : ∀ s, results s c.history ++
      ((c.state.task s).map fun t => (finish c.state.memory t).2).toList = results s d.history

variable {p finish} {region : T → U} {same : U → M → M → Prop} {ok : M → T → Prop}
  {c : Config (State ι S M T) (Input ι E) (Option (ι × R))}
  {d : Config (Serial ι S M) (ι × E) (Option (ι × R))} {s : ι} {e : E} {m : M} {t t' : T} {r : R}

theorem serialStep_none {x : Serial ι S M} (h : (p.accept (x.own s) e).2 = none) :
    serialStep p finish x (s, e) =
      (⟨x.memory, Function.update x.own s (p.accept (x.own s) e).1⟩, none) := by
  rw [serialStep]
  split
  · next own ha => rw [ha]
  · next own t ha => exact absurd (congrArg Prod.snd ha).symm (by rw [h]; exact nofun)

theorem serialStep_some {x : Serial ι S M} (h : (p.accept (x.own s) e).2 = some t) :
    serialStep p finish x (s, e) =
      (⟨(finish x.memory t).1, Function.update x.own s (p.accept (x.own s) e).1⟩,
        some (s, (finish x.memory t).2)) := by
  rw [serialStep]
  split
  · next own ha => exact absurd (congrArg Prod.snd ha).symm (by rw [h]; exact nofun)
  · next own t' ha =>
    obtain rfl : t = t' := Option.some.inj (h.symm.trans (congrArg Prod.snd ha))
    rw [ha]

theorem Linked.receive_none (h : Linked finish region same ok c d) (hs : c.state.task s = none)
    (ha : (p.accept (c.state.own s) e).2 = none) :
    Linked finish region same ok (advance (step p) c (.receive s e))
      (advance (serialStep p finish) d (s, e)) := by
  have ha' : (p.accept (d.state.own s) e).2 = none := h.own ▸ ha
  have htask : Function.update c.state.task s none = c.state.task :=
    Function.update_eq_self_iff.mpr hs.symm
  constructor <;> simp only [advance_state, advance_history, step_receive hs, serialStep_none ha',
    ha, htask]
  · rw [h.own]
  · exact h.ok
  · exact h.exclusive
  · exact h.busy
  · exact h.free
  · intro s'
    rw [results_cons_none (by rw [record, step_receive hs]),
      results_cons_none (by rw [record, serialStep_none ha'])]
    exact h.results s'

theorem Linked.receive_some (hp : Serializes p finish region same ok)
    (h : Linked finish region same ok c d) (hs : c.state.task s = none)
    (ha : (p.accept (c.state.own s) e).2 = some t)
    (hfree : ∀ s' t', c.state.task s' = some t' → region t' ≠ region t) :
    Linked finish region same ok (advance (step p) c (.receive s e))
      (advance (serialStep p finish) d (s, e)) := by
  have ha' : (p.accept (d.state.own s) e).2 = some t := h.own ▸ ha
  have hok : ok c.state.memory t := hp.ok_accept _ ha
  have hlocal := hp.finish_local hok (h.free _ hfree)
  -- the other regions, in the serial machine
  have hframe : ∀ u ≠ region t, same u d.state.memory (finish d.state.memory t).1 :=
    fun u hu => hp.finish_frame (hp.ok_accept _ ha) hu
  constructor <;> simp only [advance_state, advance_history, step_receive hs, serialStep_some ha',
    ha]
  · rw [h.own]
  · intro s' t' ht'
    rcases update_cases ht' with ⟨-, hnew⟩ | ⟨-, ht'⟩
    · exact Option.some.inj hnew ▸ hok
    · exact h.ok s' t' ht'
  · intro s₁ s₂ t₁ t₂ h₁ h₂ hr
    rcases update_cases h₁ with ⟨he₁, h₁⟩ | ⟨-, h₁⟩ <;>
      rcases update_cases h₂ with ⟨he₂, h₂⟩ | ⟨-, h₂⟩
    · exact he₁.trans he₂.symm
    · exact absurd (Option.some.inj h₁ ▸ hr.symm) (hfree s₂ t₂ h₂)
    · exact absurd (Option.some.inj h₂ ▸ hr) (hfree s₁ t₁ h₁)
    · exact h.exclusive s₁ s₂ t₁ t₂ h₁ h₂ hr
  · intro s' t' ht'
    rcases update_cases ht' with ⟨-, hnew⟩ | ⟨-, ht'⟩
    · exact Option.some.inj hnew ▸ hlocal.1
    · exact (hp.same_equiv _).trans (h.busy s' t' ht') (hframe _ (hfree s' t' ht'))
  · intro u hu
    have hut : u ≠ region t := fun e => hu s t (Function.update_self ..) e.symm
    refine (hp.same_equiv u).trans (h.free u fun s' t' ht' => ?_) (hframe u hut)
    have hne : s' ≠ s := by
      rintro rfl
      exact Option.some_ne_none t' (ht'.symm.trans hs)
    exact hu s' t' (by rwa [Function.update_of_ne hne])
  · intro s'
    rw [results_cons_none (by rw [record, step_receive hs])]
    by_cases he : s' = s
    · subst he
      have hres := h.results s'
      rw [hs, Option.map_none, Option.toList_none, List.append_nil] at hres
      rw [results_cons_self (by rw [record, serialStep_some ha']), ← hres, Function.update_self,
        Option.map_some, Option.toList_some, hlocal.2]
    · rw [results_cons_of_ne (by rw [record, serialStep_some ha']) (Ne.symm he),
        Function.update_of_ne he]
      exact h.results s'

/-- What the tasks of other regions have left to do is the same after a step of one task. -/
theorem Linked.others (hp : Serializes p finish region same ok)
    (h : Linked finish region same ok c d) (hs : c.state.task s = some t)
    (hm : (p.work c.state.memory t).1 = m) {s' : ι} (hne : s' ≠ s)
    (hs' : c.state.task s' = some t') :
    same (region t') (finish m t').1 d.state.memory ∧
      (finish m t').2 = (finish c.state.memory t').2 := by
  subst hm
  have hregion : region t' ≠ region t := fun e => hne (h.exclusive s' s t' t hs' hs e)
  have hlocal := hp.finish_local (h.ok s' t' hs') (hp.frame (h.ok s t hs) hregion)
  exact ⟨(hp.same_equiv _).trans ((hp.same_equiv _).symm hlocal.1) (h.busy s' t' hs'),
    hlocal.2.symm⟩

theorem Linked.map_others (hp : Serializes p finish region same ok)
    (h : Linked finish region same ok c d) (hs : c.state.task s = some t)
    (hm : (p.work c.state.memory t).1 = m) {s' : ι} (hne : s' ≠ s) :
    ((c.state.task s').map fun t => (finish m t).2) =
      (c.state.task s').map fun t => (finish c.state.memory t).2 :=
  Option.map_congr fun _ hs' => (h.others hp hs hm hne hs').2

theorem Linked.work_next (hp : Serializes p finish region same ok)
    (h : Linked finish region same ok c d) (hs : c.state.task s = some t)
    (hw : p.work c.state.memory t = (m, .inl t')) :
    Linked finish region same ok (advance (step p) c (.work s)) d := by
  have hok := h.ok s t hs
  have hfin := hp.finish_next hok hw
  have hmem : (p.work c.state.memory t).1 = m := congrArg Prod.fst hw
  constructor <;> simp only [advance_state, advance_history, step_work_next hs hw]
  · exact h.own
  · intro s' t'' ht''
    rcases update_cases ht'' with ⟨-, hnew⟩ | ⟨-, ht''⟩
    · exact Option.some.inj hnew ▸ hp.ok_next hok hw
    · exact hmem ▸ hp.ok_work (h.ok s' t'' ht'') hok
  · intro s₁ s₂ t₁ t₂ h₁ h₂ hr
    have hback : ∀ s' t'', Function.update c.state.task s (some t') s' = some t'' →
        ∃ t₀, c.state.task s' = some t₀ ∧ region t₀ = region t'' := by
      intro s' t'' ht''
      rcases update_cases ht'' with ⟨rfl, hnew⟩ | ⟨-, ht''⟩
      · exact ⟨t, hs, by rw [← Option.some.inj hnew, hp.region_next hw]⟩
      · exact ⟨t'', ht'', rfl⟩
    obtain ⟨t₁', h₁, hr₁⟩ := hback s₁ t₁ h₁
    obtain ⟨t₂', h₂, hr₂⟩ := hback s₂ t₂ h₂
    exact h.exclusive s₁ s₂ t₁' t₂' h₁ h₂ (hr₁.trans (hr.trans hr₂.symm))
  · intro s' t'' ht''
    rcases update_cases ht'' with ⟨rfl, hnew⟩ | ⟨he, ht''⟩
    · obtain rfl := Option.some.inj hnew
      rw [hfin, hp.region_next hw]
      exact h.busy s' t hs
    · exact (h.others hp hs hmem he ht'').1
  · intro u hu
    have hut : u ≠ region t := fun e =>
      hu s t' (Function.update_self ..) ((hp.region_next hw).trans e.symm)
    refine (hp.same_equiv u).trans ((hp.same_equiv u).symm (hmem ▸ hp.frame hok hut))
      (h.free u fun s' t'' ht'' => ?_)
    by_cases he : s' = s
    · subst he
      obtain rfl := Option.some.inj (hs.symm.trans ht'')
      exact hut.symm
    · exact hu s' t'' (by rwa [Function.update_of_ne he])
  · intro s'
    rw [results_cons_none (by rw [record, step_work_next hs hw]), ← h.results s']
    congr 1
    by_cases he : s' = s
    · subst he
      rw [Function.update_self, hs, Option.map_some, Option.map_some, hfin]
    · rw [Function.update_of_ne he, h.map_others hp hs hmem he]

theorem Linked.work_done (hp : Serializes p finish region same ok)
    (h : Linked finish region same ok c d) (hs : c.state.task s = some t)
    (hw : p.work c.state.memory t = (m, .inr r)) :
    Linked finish region same ok (advance (step p) c (.work s)) d := by
  have hok := h.ok s t hs
  have hfin := hp.finish_done hok hw
  have hmem : (p.work c.state.memory t).1 = m := congrArg Prod.fst hw
  have hback : ∀ {s' t''}, Function.update c.state.task s none s' = some t'' →
      s' ≠ s ∧ c.state.task s' = some t'' := by
    intro s' t'' ht''
    rcases update_cases ht'' with ⟨-, ⟨⟩⟩ | hback
    exact hback
  constructor <;> simp only [advance_state, advance_history, step_work_done hs hw]
  · exact h.own
  · intro s' t'' ht''
    exact hmem ▸ hp.ok_work (h.ok s' t'' (hback ht'').2) hok
  · exact fun s₁ s₂ t₁ t₂ h₁ h₂ => h.exclusive s₁ s₂ t₁ t₂ (hback h₁).2 (hback h₂).2
  · exact fun s' t'' ht'' => (h.others hp hs hmem (hback ht'').1 (hback ht'').2).1
  · intro u hu
    by_cases hut : u = region t
    · -- the region that the task leaves
      have hbusy := h.busy s t hs
      rw [hfin] at hbusy
      exact hut ▸ hbusy
    · refine (hp.same_equiv u).trans ((hp.same_equiv u).symm (hmem ▸ hp.frame hok hut))
        (h.free u fun s' t'' ht'' => ?_)
      by_cases he : s' = s
      · subst he
        obtain rfl := Option.some.inj (hs.symm.trans ht'')
        exact Ne.symm hut
      · exact hu s' t'' (by rwa [Function.update_of_ne he])
  · intro s'
    rw [← h.results s']
    by_cases he : s' = s
    · subst he
      rw [results_cons_self (by rw [record, step_work_done hs hw]), Function.update_self, hs,
        Option.map_some, hfin]
      exact List.append_nil _
    · rw [results_cons_of_ne (by rw [record, step_work_done hs hw]) (Ne.symm he),
        Function.update_of_ne he, h.map_others hp hs hmem he]

theorem Linked.skip (h : Linked finish region same ok c d) {i : Input ι E}
    (hi : step p c.state i = (c.state, none)) :
    Linked finish region same ok (advance (step p) c i) d := by
  constructor <;> simp only [advance_state, advance_history, hi]
  · exact h.own
  · exact h.ok
  · exact h.exclusive
  · exact h.busy
  · exact h.free
  · intro s
    rw [results_cons_none (by rw [record, hi])]
    exact h.results s

/-- **Serializability.** If no two tasks of one region are ever in progress together, the threads do
what the serial machine does on the same arrivals in their order. -/
theorem serializable (hp : Serializes p finish region same ok) (m : M) (own : ι → S)
    {is : List (Input ι E)}
    (hone : Always (step p) (OnePerRegion p region) (start (idle m own)) is) :
    Linked finish region same ok (run (step p) (start (idle m own)) is)
      (run (serialStep p finish) (start ⟨m, own⟩) (arrivals p (idle m own) is)) := by
  refine run_translation (R := Linked finish region same ok) (G := OnePerRegion p region)
    (fun c d i h hg => ?_) ?_ hone
  · cases i with
    | receive s e =>
      cases hs : c.state.task s with
      | some t =>
        rw [arrival, hs, if_neg (by exact nofun)]
        exact h.skip (step_receive_busy hs)
      | none =>
        rw [arrival, if_pos hs]
        cases ha : (p.accept (c.state.own s) e).2 with
        | none => exact h.receive_none hs ha
        | some t => exact h.receive_some hp hs ha (hg hs t ha)
    | work s =>
      cases hs : c.state.task s with
      | none => exact h.skip (step_work_idle hs)
      | some t =>
        rcases hw : p.work c.state.memory t with ⟨m, t' | r⟩
        · exact h.work_next hp hs hw
        · exact h.work_done hp hs hw
  · exact ⟨rfl, fun _ _ h => (nomatch h), fun _ _ _ _ h => (nomatch h), fun _ _ h => (nomatch h),
      fun u _ => (hp.same_equiv u).refl m, fun _ => rfl⟩

end Serial

/-! ## Programs that match -/

section Refinement

variable {M' T' R' U : Type*} {p : Program S E M T R} {q : Program S E M' T' R'}
  {mem : M → M' → Prop} {pend : T → T' → Prop} {result : R → R' → Prop}
  {c : Config (State ι S M T) (Input ι E) (Option (ι × R))}
  {d : Config (State ι S M' T') (Input ι E) (Option (ι × R'))}

omit [DecidableEq ι] in
theorem Refines.onePerRegion (hp : Refines p q mem pend result) {region : T → U} {region' : T' → U}
    (hregion : ∀ t t', pend t t' → region t = region' t') (h : Related mem pend result c d)
    {i : Input ι E} (hc : OnePerRegion p region c i) : OnePerRegion q region' d i := by
  cases i with
  | work s => trivial
  | receive s e =>
    intro hs t' ht' s' t'' ht''
    have hacc := hp.accept_task (c.state.own s) e
    have hown : c.state.own s = d.state.own s := congrFun h.own s
    rw [hown, show (q.accept (d.state.own s) e).2 = some t' from ht'] at hacc
    cases ha : (p.accept (d.state.own s) e).2 with
    | none => rw [ha] at hacc; cases hacc
    | some t =>
      rw [ha] at hacc
      cases hacc with
      | some ht =>
        obtain ⟨t₁, ht₁, hpend⟩ := h.task_some ht''
        rw [← hregion _ _ ht, ← hregion _ _ hpend]
        exact hc (h.task_none.mpr hs) t (hown ▸ ha) s' t₁ ht₁

theorem Refines.arrivals (hp : Refines p q mem pend result) (h : Related mem pend result c d)
    (is : List (Input ι E)) :
    Threads.arrivals p c.state is = Threads.arrivals q d.state is := by
  induction is generalizing c d with
  | nil => rfl
  | cons i is ih =>
    have harr : arrival c.state i = arrival d.state i := by
      cases i with
      | work s => rfl
      | receive s e => simp only [arrival, h.task_none]
    rw [Threads.arrivals, translation, Threads.arrivals, translation, harr]
    exact congrArg (_ ++ ·) (ih (hp.advance h i))

end Refinement

end Threads
