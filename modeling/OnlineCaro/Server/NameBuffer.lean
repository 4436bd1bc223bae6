import OnlineCaro.Server.TwoStep

/-!
# The life of a name buffer

`processRequestThread` allocates the buffer, `processUsername` writes it, the other handlers read
it, and `processLogout` releases it without telling the thread.

* `NameBuf.Allows`: the operations that find the buffer as they need it.
* `WellOrdered`: a username request first, and nothing after a logout.
* **`no_fault_iff`**: the requests of a session, up to the end of its connection, touch its buffer
  without a fault exactly when they are well ordered.
-/

namespace OnlineCaro

open CMem StepRun

variable {ι : Type} [DecidableEq ι]

/-- The faults of session `s` in a run. -/
def faultsOf (s : ι) : List (Entry ι) → List Fault
  | [] => []
  | e :: h => faultsOf s h ++
    match e.input, e.output with
    | .recv t _ _, some o => if t = s then o.faults else []
    | _, _ => []

/-- A username request comes first, and no request after a logout. -/
def WellOrdered (ops : List Operation) : Prop :=
  (∀ op ∈ ops.head?, ∃ data, op = .username data) ∧ .logout ∉ ops.dropLast

/-! ## Faults of the handlers -/

/-- The operation finds the buffer as it needs it: allocated, and holding a name if it is read. -/
def NameBuf.Allows : NameBuf → Operation → Prop
  | .released, _ => False
  | .unwritten, .username _ => True
  | .unwritten, _ => False
  | .holds _, _ => True

theorem processBlockAccount_faults (residue : CString) (f : Frame) :
    (processBlockAccount residue f).2.faults = f.faults ++ f.state.readFaults := by
  simp only [processBlockAccount, Frame.readState]
  cases findNode f.accountDB (f.state.read residue) with
  | none => rfl
  | some node => dsimp only; split_ifs <;> rfl

theorem processPassword_faults {data residue : CString} {f : Frame} :
    (processPassword data residue f).faults = [] ↔ f.faults = [] ∧ f.state.readFaults = [] := by
  cases h : findNode f.accountDB (f.state.read residue) with
  | none => rw [processPassword_of_none h]; exact List.append_eq_nil_iff
  | some node =>
    by_cases hp : node.password = data
    · rw [processPassword_of_eq h hp]; exact List.append_eq_nil_iff
    · rw [processPassword_of_ne h hp]
      simp only [processBlockAccount_faults, Frame.readState, List.append_eq_nil_iff]
      tauto

theorem processRequest_faults {request : CString} (residue : CString) {f : Frame}
    (hf : f.faults = []) :
    (processRequest request residue f).2.faults = [] ↔ f.state.Allows (operation request) := by
  rw [processRequest_eq]
  cases operation request with
  | username data =>
    simp only [processUsername, Frame.copyState, Frame.readState, hf]
    cases f.state <;> simp [NameBuf.write, NameBuf.writeFaults, NameBuf.readFaults, NameBuf.Allows]
  | password data =>
    dsimp only
    rw [processPassword_faults]
    cases f.state <;> simp [NameBuf.readFaults, NameBuf.Allows, hf]
  | logout =>
    simp only [processLogout, Frame.freeState, Frame.readState, hf]
    cases f.state <;> simp [NameBuf.readFaults, NameBuf.releaseFaults, NameBuf.Allows]
  | clientOut =>
    simp only [processLogout, Frame.freeState, Frame.readState, hf]
    cases f.state <;> simp [NameBuf.readFaults, NameBuf.releaseFaults, NameBuf.Allows]

/-! ## Well-ordered requests -/

theorem wellOrdered_nil : WellOrdered [] := ⟨fun _ h => absurd h (by simp), List.not_mem_nil⟩

theorem wellOrdered_singleton {op : Operation} :
    WellOrdered [op] ↔ ∃ data, op = .username data := by
  simp [WellOrdered]

theorem wellOrdered_snoc {ops : List Operation} (hne : ops ≠ []) (op : Operation) :
    WellOrdered (ops ++ [op]) ↔ WellOrdered ops ∧ .logout ∉ ops := by
  obtain ⟨o, os, rfl⟩ := List.exists_cons_of_ne_nil hne
  rw [WellOrdered, WellOrdered, List.dropLast_concat, List.cons_append, List.head?_cons,
    List.head?_cons]
  constructor
  · rintro ⟨h₁, h₂⟩
    exact ⟨⟨h₁, fun h => h₂ (List.dropLast_subset _ h)⟩, h₂⟩
  · rintro ⟨⟨h₁, -⟩, h₂⟩
    exact ⟨h₁, h₂⟩

/-! ## The buffer in a run -/

/-- The buffer of a live session, by the requests so far; and these had no fault exactly when they
were well ordered. -/
structure Lifecycle (c : Config ι) (s : ι) : Prop where
  faults : faultsOf s c.history = [] ↔ WellOrdered (requestsOf s c.history)
  unwritten : requestsOf s c.history = [] → (c.state.session s).state = .unwritten
  released : .logout ∈ requestsOf s c.history → (c.state.session s).state = .released
  holds : requestsOf s c.history ≠ [] → WellOrdered (requestsOf s c.history) →
    .logout ∉ requestsOf s c.history → (c.state.session s).live = true →
      ∃ u, (c.state.session s).state = .holds u

theorem faultsOf_of_none {σ : Server ι} {e : Event ι} {s : ι} {h : List (Entry ι)}
    (hn : handledOperation s (record step σ e) = none) :
    faultsOf s (record step σ e :: h) = faultsOf s h := by
  rw [faultsOf]
  refine (congrArg (faultsOf s h ++ ·) ?_).trans (List.append_nil _)
  cases e with
  | lost t => rfl
  | recv t msg residue =>
    cases hl : (σ.session t).live with
    | false => rw [record_recv_dead hl]
    | true =>
      have hts : t ≠ s := fun e => by
        subst e
        exact absurd ((handledOperation_recv hl).symm.trans hn) (by simp)
      cases ho : (step σ (.recv t msg residue)).2 with
      | none => simp [record, ho]
      | some o => simp [record, ho, hts]

theorem faultsOf_recv {σ : Server ι} {s : ι} {msg : List UInt8} {residue : CString}
    {h : List (Entry ι)} (hl : (σ.session s).live = true) :
    faultsOf s (record step σ (.recv s msg residue) :: h) = [] ↔
      faultsOf s h = [] ∧ (σ.session s).state.Allows (operation (receive msg)) := by
  rw [faultsOf, List.append_eq_nil_iff,
    ← processRequest_faults residue (f := ⟨σ.accountDB, none, (σ.session s).state, []⟩) rfl]
  simp [record, step, hl]

theorem lifecycle_of_none {c : Config ι} {e : Event ι} {s : ι} (h : Lifecycle c s)
    (hn : handledOperation s (record step c.state e) = none)
    (hs : ((step c.state e).1.session s).state = (c.state.session s).state)
    (hl : ((step c.state e).1.session s).live = true → (c.state.session s).live = true) :
    Lifecycle (advance step c e) s := by
  have hr : requestsOf s (advance step c e).history = requestsOf s c.history :=
    requestsOf_cons_none hn
  refine ⟨?_, ?_, ?_, ?_⟩ <;> rw [hr]
  · rw [advance_history, faultsOf_of_none hn]
    exact h.faults
  · exact fun he => hs.trans (h.unwritten he)
  · exact fun hlog => hs.trans (h.released hlog)
  · intro hne hw hlog hlive
    obtain ⟨u, hu⟩ := h.holds hne hw hlog (hl hlive)
    exact ⟨u, hs.trans hu⟩

/-- Well-ordered requests leave the buffer to the next operation exactly as it needs it. -/
theorem allows_iff_wellOrdered {c : Config ι} {s : ι} (h : Lifecycle c s)
    (hl : (c.state.session s).live = true) (op : Operation) :
    faultsOf s c.history = [] ∧ (c.state.session s).state.Allows op ↔
      WellOrdered (requestsOf s c.history ++ [op]) := by
  by_cases hnil : requestsOf s c.history = []
  · rw [h.faults, hnil, h.unwritten hnil, List.nil_append, wellOrdered_singleton]
    cases op <;> simp [NameBuf.Allows, wellOrdered_nil]
  · rw [h.faults, wellOrdered_snoc hnil]
    refine and_congr_right fun hw => ?_
    by_cases hlog : .logout ∈ requestsOf s c.history
    · rw [h.released hlog]
      exact iff_of_false id fun hn => hn hlog
    · obtain ⟨u, hu⟩ := h.holds hnil hw hlog hl
      rw [hu]
      exact iff_of_true trivial hlog

theorem lifecycle_recv {c : Config ι} {s : ι} {msg : List UInt8} {residue : CString}
    (h : Lifecycle c s) (hl : (c.state.session s).live = true) :
    Lifecycle (advance step c (.recv s msg residue)) s := by
  have hop : handledOperation s (record step c.state (.recv s msg residue)) =
      some (operation (receive msg)) := handledOperation_recv hl
  have hr : requestsOf s (advance step c (.recv s msg residue)).history =
      requestsOf s c.history ++ [operation (receive msg)] := requestsOf_cons_some hop
  refine ⟨?_, ?_, ?_, ?_⟩ <;> rw [hr]
  · rw [advance_history, faultsOf_recv hl]
    exact allows_iff_wellOrdered h hl _
  · exact fun he => absurd he (by simp)
  · intro hlog
    rw [advance_state, step_session_self hl]
    rw [List.mem_append, List.mem_singleton] at hlog
    rcases hlog with hlog | hlog
    · rw [h.released hlog]
      cases operation (receive msg) <;> rfl
    · rw [← hlog]
      rfl
  · intro _ hw hlog hlive
    rw [advance_state, step_session_self hl] at hlive ⊢
    have hallow := ((allows_iff_wellOrdered h hl _).mpr hw).2
    cases ho : operation (receive msg) with
    | username data =>
      rw [ho] at hallow
      cases hs : (c.state.session s).state with
      | unwritten => exact ⟨data, rfl⟩
      | holds u => exact ⟨data, rfl⟩
      | released => rw [hs] at hallow; exact hallow.elim
    | password data =>
      rw [ho] at hallow
      cases hs : (c.state.session s).state with
      | unwritten => rw [hs] at hallow; exact hallow.elim
      | holds u => exact ⟨u, rfl⟩
      | released => rw [hs] at hallow; exact hallow.elim
    | logout => rw [ho] at hlog; exact absurd (by simp) hlog
    | clientOut => rw [ho] at hlive; exact absurd hlive Bool.false_ne_true

theorem lifecycle_advance (c : Config ι) (e : Event ι) (h : ∀ s, Lifecycle c s) (t : ι) :
    Lifecycle (advance step c e) t := by
  by_cases ht : e.session = t
  · cases e with
    | lost s =>
      obtain rfl : s = t := ht
      refine lifecycle_of_none (h s) handledOperation_lost ?_ ?_ <;> simp [step_lost]
    | recv s msg residue =>
      obtain rfl : s = t := ht
      cases hl : (c.state.session s).live with
      | false =>
        refine lifecycle_of_none (h s) (handledOperation_dead hl) ?_ ?_ <;>
          simp [step_recv_dead hl]
      | true => exact lifecycle_recv (h s) hl
  · have hs := step_session_of_ne (σ := c.state) ht
    exact lifecycle_of_none (h t) (handledOperation_of_ne ht) (by rw [hs]) (by rw [hs]; exact id)

/-- **When the name buffer is used well.** In every run, whatever the other sessions do, the
requests of a session touch its name buffer without a fault exactly when they start with a
username request and nothing, not even the end of the connection, follows a logout. -/
theorem no_fault_iff (db : List Account) (es : List (Event ι)) (s : ι) :
    faultsOf s (run step (serve db) es).history = [] ↔
      WellOrdered (requestsOf s (run step (serve db) es).history) := by
  refine (run_invariant (I := fun c => ∀ s, Lifecycle c s) lifecycle_advance
    (c := serve db) (fun s => ⟨?_, fun _ => rfl, ?_, ?_⟩) es s).faults
  · exact iff_of_true rfl wellOrdered_nil
  · exact fun h => absurd h List.not_mem_nil
  · exact fun h => absurd rfl h

/-- The connection that ends after its logout releases its buffer a second time. -/
theorem double_release : Fault.doubleRelease ∈
    faultsOf 0 (run step (serve [alice]) (requests 0 ["1alice", "2secret", "3", ""])).history := by
  decide

end OnlineCaro
