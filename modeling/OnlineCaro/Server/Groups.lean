import OnlineCaro.Server.Atomicity

/-!
# Groups of sessions

Sessions that use names which no other session uses, and name buffers that no other session gets:
nothing follows a logout.

* `visit_sameFor`, `visitors_separate`: an access depends on the records of its name only.
* `NothingAfterLogout`, `NamesApart`: no released buffer is used, and the names of the group and
  those of the other sessions are different.
* **`groups_isolated`**: under every schedule such a group is answered as if it were alone, and
  leaves its records as if it were alone.
-/

namespace OnlineCaro

open CMem StepRun Threads

/-! ## Record by record -/

section Lists

variable {α : Type} {R : α → α → Prop} {l l' : List α} {a b : α}

theorem forall₂_getElem? (h : List.Forall₂ R l l') (k : ℕ) : Option.Rel R l[k]? l'[k]? := by
  induction h generalizing k with
  | nil => exact .none
  | cons hab _ ih =>
    cases k with
    | zero => exact .some hab
    | succ k => exact ih k

theorem forall₂_set (h : List.Forall₂ R l l') (hab : R a b) (k : ℕ) :
    List.Forall₂ R (l.set k a) (l'.set k b) := by
  induction h generalizing k with
  | nil => exact .nil
  | cons hcd hl ih =>
    cases k with
    | zero => exact .cons hab hl
    | succ k => exact .cons hcd (ih k)

end Lists

/-! ## What an access depends on -/

section Visit

variable {db db' : List Account} {t : Task ℕ ℕ} {a b : Account} {u : CString}

theorem visit_sameFor (hok : t.Ok db) (ha : db[t.point.index]? = some a)
    (hab : SameFor t.address a b) :
    SameFor t.address (t.visit a).1 (t.visit b).1 ∧ (t.visit a).2 = (t.visit b).2 := by
  by_cases hn : a.username = t.address
  · rw [hab.2 hn]
    exact ⟨(sameFor_equivalence _).refl _, rfl⟩
  · have hn' : b.username ≠ t.address := hab.1.1 ▸ hn
    have hnode : ∀ k : ℕ, k = t.point.index →
        (db[k]?).map Account.username ≠ some t.address := by
      rintro k rfl h
      rw [ha, Option.map_some] at h
      exact hn (Option.some.inj h)
    obtain ⟨name, op, p⟩ := t
    cases p with
    | seekUsername k => exact ⟨hab, by simp only [Task.visit, if_neg hn, if_neg hn']⟩
    | seekPassword k => exact ⟨hab, by simp only [Task.visit, if_neg hn, if_neg hn']⟩
    | seekCounter k => exact ⟨hab, by simp only [Task.visit, if_neg hn, if_neg hn']⟩
    | seekLogout k => exact ⟨hab, by simp only [Task.visit, if_neg hn, if_neg hn']⟩
    | _ => exact absurd hok (hnode _ rfl)

theorem walk_sameFor_address (hok : t.Ok db) (h : List.Forall₂ (SameFor t.address) db db') :
    List.Forall₂ (SameFor t.address) (t.walk db).1 (t.walk db').1 ∧
      (t.walk db).2 = (t.walk db').2 := by
  have hget := forall₂_getElem? h t.point.index
  cases ha : db[t.point.index]? with
  | none =>
    cases hb : db'[t.point.index]? with
    | some b => rw [ha, hb] at hget; cases hget
    | none =>
      rw [walk_none ha, walk_none hb]
      exact ⟨h, rfl⟩
  | some a =>
    cases hb : db'[t.point.index]? with
    | none => rw [ha, hb] at hget; cases hget
    | some b =>
      rw [ha, hb] at hget
      obtain ⟨hab⟩ := hget
      obtain ⟨hwrite, hnext⟩ := visit_sameFor hok ha hab
      rw [walk_some ha, walk_some hb]
      exact ⟨forall₂_set h hwrite _, hnext⟩

end Visit

/-- **An access depends on the records of its name only.** -/
theorem visitors_separate : Separates visitors Task.address
    (fun u => List.Forall₂ (SameFor u)) (fun db t => t.Ok db) where
  toRegional := visitors_regional
  work_rest {db db' t} hok h := by
    show Sum.map _ _ (t.walk db).2 = Sum.map _ _ (t.walk db').2
    rw [(walk_sameFor_address hok h).2]
  work_same hok h := (walk_sameFor_address hok h).1

/-! ## The group by itself -/

section Groups

variable {ι : Type} [DecidableEq ι]

/-- Nothing is received from a session after its logout, not even the end of its connection. A
released name buffer may be the buffer of another session. -/
def NothingAfterLogout (c : ThreadConfig ι) : Input ι Arrival → Prop
  | .receive s (.recv _ _) => c.state.task s = none → (c.state.own s).live = true →
      (c.state.own s).state ≠ .released
  | _ => True

/-- The sessions of the group send requests for names in `V`, and the other sessions for other
names; none goes on after its logout. -/
structure NamesApart (accountDB : Option ℕ) (V : Set CString) (group : ι → Bool)
    (c : ThreadConfig ι) (i : Input ι Arrival) : Prop where
  apart : KeepsApart (handlers accountDB) Task.address V group c i
  nothingAfterLogout : NothingAfterLogout c i

/-- **Sessions with names of their own.** Under every schedule in which nothing follows a logout, also
where requests of the group for one name overlap, the sessions of the group get the results and
leave the records that they get and leave when the other sessions do nothing. -/
theorem groups_isolated {heap : Heap} {accountDB : Option ℕ} {db : List Account}
    (hlist : IsList heap accountDB db) {V : Set CString} {group : ι → Bool}
    {is : List (Input ι Arrival)}
    (hapart : Always (Threads.step (handlers accountDB)) (NamesApart accountDB V group)
      (start (launch heap)) is) :
    (∀ s, group s = true → results s (runThreads accountDB heap is).history =
      results s (runThreads accountDB heap (alone group is)).history) ∧
    ∃ db₁ db₂, IsList (runThreads accountDB heap is).state.memory accountDB db₁ ∧
      IsList (runThreads accountDB heap (alone group is)).state.memory accountDB db₂ ∧
      ∀ u ∈ V, recordsOf u db₁ = recordsOf u db₂ := by
  obtain ⟨addrs, rfl, hchain⟩ := hlist.chain
  have href := handlers_refine addrs
  have hstart : Mirrors addrs (start (launch heap))
      (start (idle db fun _ : ι => Session.fresh)) := mirrors_start hchain
  have hapart' : Always (Threads.step visitors) (KeepsApart visitors Task.address V group)
      (start (idle db fun _ : ι => Session.fresh)) is :=
    always_related (P := NamesApart addrs[0]? V group) (fun _ _ i h => href.advance h i)
      (fun _ _ _ h hi => href.keepsApart (fun _ _ => Task.At.address) h hi.apart) hstart hapart
  have hruns := runs_apart visitors_separate db (fun _ : ι => Session.fresh) hapart'
  have hall := mirrors_run hchain is
  have halone := mirrors_run hchain (alone group is)
  refine ⟨fun s hs => ?_, _, _, hall.memory.isList, halone.memory.isList,
    fun u hu => recordsOf_congr (hruns.memory u hu)⟩
  rw [hall.results, halone.results]
  exact congrArg (List.map _) (hruns.results s hs)

/-- Two sessions of `alice` that overlap, while a third one is at work on `bob`. -/
def overlapAndBob : List (Input ℕ Arrival) :=
  handle 0 "1alice" 1 ++ handle 2 "1bob" 2 ++ handle 1 "1alice" 3 ++ [.work 0, .work 2, .work 0] ++
    handle 0 "2x" 2 ++ [.work 2]

theorem groups_isolated_alice :
    Always (Threads.step (handlers (some 0)))
        (NamesApart (some 0) {u | u = .ofAscii "alice"} fun s => decide (s < 2))
        (start (launch (cellsOf 0 [alice, bob]))) overlapAndBob ∧
      (∀ s, decide (s < 2) = true →
        results s (runThreads (some 0) (cellsOf 0 [alice, bob]) overlapAndBob).history =
          results s (runThreads (some 0) (cellsOf 0 [alice, bob])
            (alone (fun s => decide (s < 2)) overlapAndBob)).history) ∧
      ∃ db₁ db₂,
        IsList (runThreads (some 0) (cellsOf 0 [alice, bob]) overlapAndBob).state.memory
          (some 0) db₁ ∧
        IsList (runThreads (some 0) (cellsOf 0 [alice, bob])
          (alone (fun s => decide (s < 2)) overlapAndBob)).state.memory (some 0) db₂ ∧
        ∀ u ∈ {u | u = .ofAscii "alice"}, recordsOf u db₁ = recordsOf u db₂ := by
  have hinside : ∀ {s u}, u = CString.ofAscii "alice" → s < 2 →
      (u ∈ {u | u = CString.ofAscii "alice"} ↔ decide (s < 2) = true) :=
    fun hu hs => iff_of_true hu (decide_eq_true hs)
  have hapart : Always (Threads.step (handlers (some 0)))
      (NamesApart (some 0) {u | u = .ofAscii "alice"} fun s => decide (s < 2))
      (start (launch (cellsOf 0 [alice, bob]))) overlapAndBob := by
    have hwork : ∀ {c : ThreadConfig ℕ} {s : ℕ}, NamesApart (some 0)
        {u | u = .ofAscii "alice"} (fun s => decide (s < 2)) c (.work s) := ⟨trivial, trivial⟩
    refine ⟨⟨fun _ t ht => ?_, fun _ _ => by decide⟩, hwork,
      ⟨fun _ t ht => ?_, fun _ _ => by decide⟩, hwork, hwork,
      ⟨fun _ t ht => ?_, fun _ _ => by decide⟩, hwork, hwork, hwork, hwork, hwork, hwork,
      ⟨fun _ t ht => ?_, fun _ _ => by decide +kernel⟩, hwork, hwork, hwork, trivial⟩
    all_goals obtain rfl := Option.some.inj ht
    · exact hinside rfl (by decide)
    · have hbob : CString.ofAscii "bob" ≠ .ofAscii "alice" := by decide
      exact iff_of_false hbob (by decide)
    · exact hinside rfl (by decide)
    · exact hinside (by decide +kernel) (by decide)
  exact ⟨hapart, groups_isolated (isList_cellsOf [alice, bob]) hapart⟩

end Groups

end OnlineCaro
