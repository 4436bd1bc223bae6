import OnlineCaro.Server.Isolation
import OnlineCaro.Server.NameBuffer
import OnlineCaro.Server.Pointers

/-!
# Whose block it is

As long as nothing follows a logout, not even the end of the connection, no two threads ever share a
block, whatever addresses `malloc` gives out: the threads on pointers are the server of the model. A
client that goes on may write to the name buffer of another one.

* `loggedOut s`, `leaked`: who has logged out, and the blocks that no thread has a pointer to any
  more.
* `owner`, `Backs`: every block has one owner, and the name buffers are those of the model.
* **`buffers_private`**, `buffer_shared`.
-/

namespace OnlineCaro.Pointers

open CMem Allocation StepRun

variable {ι : Type} [DecidableEq ι]

/-! ## What a run tells -/

/-- The threads with the history of their run. -/
abbrev Config (ι : Type) := StepRun.Config (State ι) (Event ι) (Option (Exchange ι))

abbrev Entry (ι : Type) := StepRun.Entry (State ι) (Event ι) (Option (Exchange ι))

/-- The event of the server that an event stands for. -/
def request (x : State ι) : Event ι → Option (OnlineCaro.Event ι)
  | .accept _ _ => none
  | .recv s msg residue _ _ _ => (x.connection s).map fun _ => .recv s msg residue
  | .lost s => (x.connection s).map fun _ => .lost s

/-- What the server has sent, with its faults, latest first. -/
def exchanged (h : List (OnlineCaro.Entry ι)) : List (Exchange ι) :=
  h.filterMap fun e => match e.input with
    | .recv s _ _ => e.output.map fun o => ⟨s, o.sent.map text, o.faults⟩
    | .lost _ => none

/-- What the threads have sent, latest first. -/
def exchanges (h : List (Entry ι)) : List (Exchange ι) := h.filterMap (·.output)

/-- A request of `s` that `processLogout` has handled. -/
def logsOut (s : ι) (e : Entry ι) : Bool :=
  match e.input, e.output with
  | .recv t msg _ _ _ _, some _ => decide (t = s ∧ (operation (receive msg)).LogsOut)
  | _, _ => false

def loggedOut (s : ι) (h : List (Entry ι)) : Bool := h.any (logsOut s)

/-- The blocks that a request leaves behind. -/
def leftBy (e : Entry ι) : List ℕ :=
  match e.input, e.output with
  | .recv _ msg _ response data fresh, some _ =>
    if (operation (receive msg)).LogsOut then [fresh, data, response] else [data, response]
  | _, _ => []

/-- The blocks that no thread has a pointer to any more. -/
def leaked (h : List (Entry ι)) : List ℕ := h.flatMap leftBy

/-- `malloc` returns free addresses. -/
def MallocFresh (c : Config ι) : Event ι → Prop
  | .accept s state => c.state.connection s = none → c.state.blocks state = none
  | .recv s msg _ response data fresh => ∀ k ∈ c.state.connection s, k.looping = true →
    c.state.blocks response = none ∧ malloc response c.state.blocks data = none ∧
    ((operation (receive msg)).LogsOut →
      Allocation.free k.state (malloc data (malloc response c.state.blocks)) fresh = none)
  | .lost _ => True

/-- Nothing comes from a client after its logout, not even the end of its connection. -/
def Orderly (c : Config ι) : Event ι → Prop
  | .recv s _ _ _ _ _ => ∀ k ∈ c.state.connection s, k.looping = true →
    loggedOut s c.history = false
  | _ => True

instance (c : Config ι) : DecidablePred (MallocFresh c) := fun e => by
  cases e <;> unfold MallocFresh <;> infer_instance

instance (c : Config ι) : DecidablePred (Orderly c) := fun e => by
  cases e <;> unfold Orderly <;> infer_instance

/-! ## The owners -/

/-- A thread owns its name buffer until it logs out; the other blocks belong to themselves. -/
def owner (c : Config ι) : ι ⊕ ℕ → Option ℕ
  | .inl s => if loggedOut s c.history = true then none
    else (c.state.connection s).map Connection.state
  | .inr p => if p ∈ leaked c.history then some p else none

/-- The threads on pointers, and the server. -/
structure Backs (c : Config ι) (d : OnlineCaro.Config ι) : Prop where
  accountDB : c.state.accountDB = d.state.accountDB
  idle : ∀ s, c.state.connection s = none →
    d.state.session s = ⟨.unwritten, true⟩ ∧ loggedOut s c.history = false
  live : ∀ s k, c.state.connection s = some k → (d.state.session s).live = k.looping
  buffer : ∀ s k, c.state.connection s = some k → loggedOut s c.history = false →
    bufferAt c.state.blocks k.state = (d.state.session s).state
  owns : OwnsBlocks c.state.blocks (owner c)
  nodup : (leaked c.history).Nodup
  sent : exchanges c.history = exchanged d.history
  faults : ∀ x ∈ exchanges c.history, ∀ f ∈ x.faults, f = .readUnwritten

/-! ## Faults -/

theorem processPassword_readFaults {data residue : CString} {f : Frame} {x : Fault}
    (hx : x ∈ (OnlineCaro.processPassword data residue f).faults) :
    x ∈ f.faults ∨ x ∈ f.state.readFaults := by
  cases h : findNode f.accountDB (f.state.read residue) with
  | none =>
    rw [processPassword_of_none h] at hx
    exact List.mem_append.mp hx
  | some node =>
    by_cases hp : node.password = data
    · rw [processPassword_of_eq h hp] at hx
      exact List.mem_append.mp hx
    · rw [processPassword_of_ne h hp] at hx
      simp only [processBlockAccount_faults, Frame.readState, List.mem_append] at hx
      exact hx.elim id Or.inr

/-- The only fault with a name buffer of its own: it is read while no name stands in it. -/
theorem processRequest_readUnwritten (request residue : CString) {f : Frame} (hf : f.faults = [])
    (hlive : f.state ≠ .released) :
    ∀ x ∈ (OnlineCaro.processRequest request residue f).2.faults, x = .readUnwritten := by
  have hread : ∀ x ∈ f.state.readFaults, x = .readUnwritten := by
    cases hs : f.state with
    | unwritten => exact fun x hx => List.mem_singleton.mp hx
    | holds name => exact fun x hx => absurd hx List.not_mem_nil
    | released => exact absurd hs hlive
  have hlogout : (OnlineCaro.processLogout residue f).faults = f.state.readFaults := by
    simp only [OnlineCaro.processLogout, Frame.freeState, Frame.readState, hf, List.nil_append]
    cases hs : f.state with
    | released => exact absurd hs hlive
    | _ => rfl
  intro x hx
  rw [OnlineCaro.processRequest_eq] at hx
  cases hop : operation request with
  | username data =>
    rw [hop] at hx
    simp only [OnlineCaro.processUsername, Frame.copyState, Frame.readState, hf] at hx
    cases hs : f.state with
    | released => exact absurd hs hlive
    | _ =>
      rw [hs] at hx
      exact absurd hx List.not_mem_nil
  | password data =>
    rw [hop] at hx
    refine hread x ((processPassword_readFaults hx).resolve_left ?_)
    rw [hf]
    exact List.not_mem_nil
  | logout =>
    rw [hop] at hx
    exact hread x (hlogout ▸ hx)
  | clientOut =>
    rw [hop] at hx
    exact hread x (hlogout ▸ hx)

theorem bufferAt_ne_released {blocks : Blocks CString} {p : ℕ} (h : blocks p ≠ none) :
    bufferAt blocks p ≠ .released := by
  unfold bufferAt
  rcases hp : blocks p with _ | _ | _
  · exact absurd hp h
  · exact NameBuf.noConfusion
  · exact NameBuf.noConfusion

section Handlers

variable {κ : Type} [DecidableEq κ] {block : κ → Option ℕ} {k k' : κ} {m : Memory}
  {data response state fresh : ℕ} {residue : CString}

omit [DecidableEq κ] in
theorem processUsername_owns (h : OwnsBlocks m.blocks block) :
    OwnsBlocks (processUsername data response state residue m).blocks block :=
  (h.store state _).store response _

theorem processBlockAccount_blocks (m : Memory) :
    (processBlockAccount state residue m).2.blocks = m.blocks := by
  unfold processBlockAccount
  dsimp only
  split
  · split_ifs <;> rfl
  · rfl

omit [DecidableEq κ] in
theorem processPassword_owns (h : OwnsBlocks m.blocks block) :
    OwnsBlocks (processPassword data response state residue m).blocks block := by
  unfold processPassword
  dsimp only
  split
  · split_ifs
    · exact h.store response _
    all_goals
      rw [Memory.strcpy_blocks, processBlockAccount_blocks]
      exact h.store response _
  · exact h

/-- The thread gives its block away, and the new one belongs to no thread. -/
theorem processLogout_owns (h : OwnsBlocks m.blocks block) (hk : block k = some state)
    (hfresh : Allocation.free state m.blocks fresh = none)
    (hk' : Function.update block k none k' = none) :
    OwnsBlocks (processLogout response state fresh residue m).blocks
      (Function.update (Function.update block k none) k' (some fresh)) :=
  ((h.free hk).malloc hfresh hk').store response _

theorem processRequest_owns {request : CString} (h : OwnsBlocks m.blocks block)
    (hdata : m.blocks data = none) (hno : ¬ (operation request).LogsOut) (hk : block k = none) :
    OwnsBlocks (processRequest request data response state fresh residue m).2.blocks
      (Function.update block k (some data)) := by
  have h' := (h.malloc hdata hk).store data (requestData request)
  rw [processRequest_eq]
  cases hop : operation request with
  | username value => exact processUsername_owns h'
  | password value => exact processPassword_owns h'
  | logout => exact absurd (hop ▸ trivial) hno
  | clientOut => exact absurd (hop ▸ trivial) hno

theorem processRequest_owns_logout {request : CString} {i j k : κ} (h : OwnsBlocks m.blocks block)
    (hdata : m.blocks data = none) (hlogout : (operation request).LogsOut)
    (hj : block j = none) (hk : Function.update block j (some data) k = some state)
    (hfresh : Allocation.free state (Allocation.malloc data m.blocks) fresh = none)
    (hi : Function.update (Function.update block j (some data)) k none i = none) :
    OwnsBlocks (processRequest request data response state fresh residue m).2.blocks
      (Function.update (Function.update (Function.update block j (some data)) k none) i
        (some fresh)) := by
  have h' := (h.malloc hdata hj).store data (requestData request)
  have hfresh' : Allocation.free state
      (store data (requestData request) (Allocation.malloc data m.blocks)) fresh = none := by
    rw [free_eq_none, store_eq_none]
    exact free_eq_none.mp hfresh
  rw [processRequest_eq]
  cases hop : operation request with
  | username value =>
    rw [hop] at hlogout
    exact hlogout.elim
  | password value =>
    rw [hop] at hlogout
    exact hlogout.elim
  | logout => exact processLogout_owns h' hk hfresh' hi
  | clientOut => exact processLogout_owns h' hk hfresh' hi

end Handlers

/-! ## One step -/

section Step

variable {x : State ι} {c : Config ι} {d : OnlineCaro.Config ι} {s : ι} {msg : List UInt8}
  {residue : CString} {response data fresh state : ℕ}

/-- The request that a thread handles. -/
abbrev handle (x : State ι) (msg : List UInt8) (residue : CString)
    (response data fresh state : ℕ) : Bool × Memory :=
  processRequest (receive msg) data response state fresh residue
    (Memory.malloc response ⟨x.accountDB, x.blocks, []⟩)

theorem step_recv (hs : x.connection s = some ⟨state, true⟩) :
    step x (.recv s msg residue response data fresh) =
      (⟨(handle x msg residue response data fresh state).2.accountDB,
        (handle x msg residue response data fresh state).2.blocks,
        Function.update x.connection s
          (some ⟨state, (handle x msg residue response data fresh state).1⟩)⟩,
        some ⟨s, if (handle x msg residue response data fresh state).1 then
            ((handle x msg residue response data fresh state).2.blocks response).join else none,
          (handle x msg residue response data fresh state).2.faults⟩) := by
  simp only [step, hs]

theorem step_recv_idle (hs : ∀ state, x.connection s ≠ some ⟨state, true⟩) :
    step x (.recv s msg residue response data fresh) = (x, none) := by
  rcases hk : x.connection s with _ | ⟨state, looping⟩
  · simp only [step, hk]
  · cases looping with
    | false => simp only [step, hk]
    | true => exact absurd hk (hs state)

theorem step_accept (hs : x.connection s = none) :
    step x (.accept s state) = (⟨x.accountDB, malloc state x.blocks,
      Function.update x.connection s (some ⟨state, true⟩)⟩, none) := by
  simp only [step, hs]

theorem step_accept_again {k : Connection} (hs : x.connection s = some k) :
    step x (.accept s state) = (x, none) := by
  simp only [step, hs]

/-- The request that the server handles. -/
abbrev answered (σ : Server ι) (s : ι) (msg : List UInt8) (residue : CString) : Bool × Frame :=
  OnlineCaro.processRequest (receive msg) residue ⟨σ.accountDB, none, (σ.session s).state, []⟩

theorem server_recv {σ : Server ι} (hl : (σ.session s).live = true) :
    OnlineCaro.step σ (.recv s msg residue) =
      (⟨(answered σ s msg residue).2.accountDB, Function.update σ.session s
          ⟨(answered σ s msg residue).2.state, (answered σ s msg residue).1⟩⟩,
        some ⟨(answered σ s msg residue).1, (answered σ s msg residue).2.response,
          (answered σ s msg residue).2.faults⟩) := by
  simp only [OnlineCaro.step, if_pos hl]

theorem silent {e : Entry ι} (he : e.output = none) (h : List (Entry ι)) :
    (∀ s, loggedOut s (e :: h) = loggedOut s h) ∧ leaked (e :: h) = leaked h ∧
      exchanges (e :: h) = exchanges h := by
  obtain ⟨pre, input, output⟩ := e
  obtain rfl : output = none := he
  refine ⟨fun s => ?_, ?_, List.filterMap_cons_none rfl⟩
  · rw [loggedOut, List.any_cons, loggedOut]
    cases input <;> rfl
  · rw [leaked, List.flatMap_cons, leaked]
    cases input <;> rfl

omit [DecidableEq ι] in
theorem exchanged_cons_none {e : OnlineCaro.Entry ι} (he : e.output = none)
    (h : List (OnlineCaro.Entry ι)) : exchanged (e :: h) = exchanged h := by
  obtain ⟨pre, input, output⟩ := e
  obtain rfl : output = none := he
  cases input <;> exact List.filterMap_cons_none rfl

theorem Backs.skip (h : Backs c d) {e : Event ι} (he : step c.state e = (c.state, none)) :
    Backs (advance step c e) d := by
  obtain ⟨hlog, hleak, hexch⟩ := silent (e := record step c.state e) (by rw [record, he]) c.history
  have howner : owner (advance step c e) = owner c := by
    funext k
    cases k <;> simp only [owner, advance_state, advance_history, he, hlog, hleak]
  refine ⟨?_, ?_, ?_, ?_, ?_, ?_, ?_, ?_⟩ <;>
    simp only [advance_state, advance_history, he, hlog, hleak, hexch, howner]
  · exact h.accountDB
  · exact h.idle
  · exact h.live
  · exact h.buffer
  · exact h.owns
  · exact h.nodup
  · exact h.sent
  · exact h.faults

theorem Backs.skip_server (h : Backs c d) {e : OnlineCaro.Event ι}
    (he : OnlineCaro.step d.state e = (d.state, none)) :
    Backs c (advance OnlineCaro.step d e) := by
  have hexch := exchanged_cons_none (e := record OnlineCaro.step d.state e)
    (by rw [record, he]) d.history
  refine ⟨?_, ?_, ?_, ?_, h.owns, h.nodup, ?_, h.faults⟩ <;>
    simp only [advance_state, advance_history, he, hexch]
  · exact h.accountDB
  · exact h.idle
  · exact h.live
  · exact h.buffer
  · exact h.sent

theorem owner_inl {k : Connection} (hk : c.state.connection s = some k)
    (hno : loggedOut s c.history = false) : owner c (.inl s) = some k.state := by
  rw [owner, if_neg (by rw [hno]; exact Bool.false_ne_true), hk]
  rfl

theorem Backs.ne_of_free (h : Backs c d) {k : Connection} (hk : c.state.connection s = some k)
    (hno : loggedOut s c.history = false) {p : ℕ} (hp : c.state.blocks p = none) : k.state ≠ p :=
  fun he => h.owns.live (owner_inl hk hno) (he ▸ hp)

theorem owner_accept (hs : c.state.connection s = none) (hno : loggedOut s c.history = false) :
    owner (advance step c (.accept s state)) =
      Function.update (owner c) (.inl s) (some state) := by
  obtain ⟨hlog, hleak, -⟩ :=
    silent (e := record step c.state (.accept s state)) (by rw [record, step_accept hs]) c.history
  funext k
  cases k with
  | inl s' =>
    by_cases he : s' = s
    · subst he
      simp [owner, step_accept hs, hlog, hno]
    · rw [Function.update_of_ne fun hinl => he (Sum.inl.inj hinl)]
      simp [owner, step_accept hs, hlog, he]
  | inr q =>
    rw [Function.update_of_ne Sum.inr_ne_inl]
    simp [owner, hleak]

theorem Backs.accept (h : Backs c d) (hs : c.state.connection s = none)
    (hfree : c.state.blocks state = none) :
    Backs (advance step c (.accept s state)) d := by
  obtain ⟨hlog, hleak, hexch⟩ :=
    silent (e := record step c.state (.accept s state)) (by rw [record, step_accept hs]) c.history
  refine ⟨?_, ?_, ?_, ?_, ?_, ?_, ?_, ?_⟩ <;>
    simp only [advance_state, advance_history, step_accept hs, hlog, hleak, hexch]
  · exact h.accountDB
  · intro s' hs'
    by_cases he : s' = s
    · exact h.idle s' (he ▸ hs)
    · rw [Function.update_of_ne he] at hs'
      exact h.idle s' hs'
  · intro s' k hk
    rcases update_cases hk with ⟨rfl, hnew⟩ | ⟨-, hk⟩
    · rw [(h.idle s' hs).1, ← Option.some.inj hnew]
    · exact h.live s' k hk
  · intro s' k hk hno
    rcases update_cases hk with ⟨rfl, hnew⟩ | ⟨-, hk⟩
    · rw [(h.idle s' hs).1, ← Option.some.inj hnew, bufferAt, malloc_self]
    · rw [← h.buffer s' k hk hno]
      exact bufferAt_congr (malloc_of_ne (h.ne_of_free hk hno hfree))
  · rw [owner_accept hs (h.idle s hs).2]
    refine h.owns.malloc hfree ?_
    rw [owner, hs]
    split_ifs <;> rfl
  · exact h.nodup
  · exact h.sent
  · exact h.faults

theorem step_lost_connected {k : Connection} (hs : c.state.connection s = some k) :
    step c.state (.lost s) = (⟨c.state.accountDB, c.state.blocks,
      Function.update c.state.connection s (some ⟨k.state, false⟩)⟩, none) := by
  simp only [step, hs, Option.map_some]

theorem owner_lost {k : Connection} (hs : c.state.connection s = some k) :
    owner (advance step c (.lost s)) = owner c := by
  obtain ⟨hlog, hleak, -⟩ := silent (e := record step c.state (.lost s)) rfl c.history
  funext i
  cases i with
  | inl s' =>
    by_cases he : s' = s
    · subst he
      simp [owner, step_lost_connected hs, hlog, hs]
    · simp [owner, step_lost_connected hs, hlog, he]
  | inr q => simp [owner, hleak]

theorem Backs.lost (h : Backs c d) {k : Connection} (hs : c.state.connection s = some k) :
    Backs (advance step c (.lost s)) (advance OnlineCaro.step d (.lost s)) := by
  obtain ⟨hlog, hleak, hexch⟩ :=
    silent (e := record step c.state (.lost s)) rfl c.history
  have hexch' := exchanged_cons_none (e := record OnlineCaro.step d.state (.lost s)) rfl d.history
  -- the pointers stay
  have hback : ∀ {s' k'}, Function.update c.state.connection s (some ⟨k.state, false⟩) s' =
      some k' → ∃ k₀, c.state.connection s' = some k₀ ∧ k₀.state = k'.state := by
    intro s' k' hk'
    rcases update_cases hk' with ⟨rfl, hnew⟩ | ⟨-, hk'⟩
    · exact ⟨k, hs, by rw [← Option.some.inj hnew]⟩
    · exact ⟨k', hk', rfl⟩
  have hstep := step_lost_connected hs
  refine ⟨?_, ?_, ?_, ?_, ?_, ?_, ?_, ?_⟩ <;>
    simp only [advance_state, advance_history, hstep, step_lost, hlog, hleak, hexch, hexch']
  · exact h.accountDB
  · intro s' hs'
    have he : s' ≠ s := by
      rintro rfl
      rw [Function.update_self] at hs'
      cases hs'
    rw [Function.update_of_ne he] at hs' ⊢
    exact h.idle s' hs'
  · intro s' k' hk'
    rcases update_cases hk' with ⟨rfl, hnew⟩ | ⟨he, hk'⟩
    · rw [Function.update_self, ← Option.some.inj hnew]
    · rw [Function.update_of_ne he]
      exact h.live s' k' hk'
  · intro s' k' hk' hno
    obtain ⟨k₀, hk₀, hstate⟩ := hback hk'
    rw [← hstate, h.buffer s' k₀ hk₀ hno]
    by_cases he : s' = s
    · rw [he, Function.update_self]
    · rw [Function.update_of_ne he]
  · rw [owner_lost hs]
    exact h.owns
  · exact h.nodup
  · exact h.sent
  · exact h.faults

/-! ## One request -/

theorem handled {e : Entry ι} {ex : Exchange ι}
    (he : e.input = .recv s msg residue response data fresh) (ho : e.output = some ex)
    (h : List (Entry ι)) :
    (∀ s', loggedOut s' (e :: h) =
      (decide (s = s' ∧ (operation (receive msg)).LogsOut) || loggedOut s' h)) ∧
    leaked (e :: h) = (if (operation (receive msg)).LogsOut then [fresh, data, response]
      else [data, response]) ++ leaked h ∧
    exchanges (e :: h) = ex :: exchanges h := by
  obtain ⟨pre, input, output⟩ := e
  obtain rfl : input = _ := he
  obtain rfl : output = _ := ho
  exact ⟨fun s' => rfl, rfl, List.filterMap_cons_some rfl⟩

theorem update_inr (g : ι ⊕ ℕ → Option ℕ) (p q : ℕ) :
    Function.update g (.inr p) (some p) (.inr q) = if q = p then some q else g (.inr q) := by
  by_cases he : q = p
  · rw [he, Function.update_self, if_pos rfl]
  · rw [Function.update_of_ne fun hinr => he (Sum.inr.inj hinr), if_neg he]

theorem Backs.leaked_live (h : Backs c d) {p : ℕ} (hp : p ∈ leaked c.history) :
    owner c (.inr p) = some p ∧ c.state.blocks p ≠ none :=
  have hown : owner c (.inr p) = some p := if_pos hp
  ⟨hown, h.owns.live hown⟩

theorem Backs.state_not_leaked (h : Backs c d) {k : Connection}
    (hk : c.state.connection s = some k) (hno : loggedOut s c.history = false) :
    k.state ∉ leaked c.history :=
  fun hp => Sum.inl_ne_inr (h.owns.apart (owner_inl hk hno) (h.leaked_live hp).1)

end Step

section Request

variable {c : Config ι} {d : OnlineCaro.Config ι} {s s' : ι} {msg : List UInt8}
  {residue : CString} {response data fresh state p q : ℕ}

theorem mem_leaked_recv (hs : c.state.connection s = some ⟨state, true⟩) :
    q ∈ leaked (advance step c (.recv s msg residue response data fresh)).history ↔
      (operation (receive msg)).LogsOut ∧ q = fresh ∨ q = data ∨ q = response ∨
        q ∈ leaked c.history := by
  rw [advance_history, (handled rfl (by rw [record, step_recv hs]) c.history).2.1]
  split_ifs with hout <;> simp [hout]

theorem owner_inl_recv (hs : c.state.connection s = some ⟨state, true⟩) (s' : ι) :
    owner (advance step c (.recv s msg residue response data fresh)) (.inl s') =
      if s' = s ∧ (operation (receive msg)).LogsOut then none else owner c (.inl s') := by
  have hlog := (handled (e := record step c.state (.recv s msg residue response data fresh)) rfl
    (by rw [record, step_recv hs]) c.history).1
  by_cases he : s' = s
  · subst he
    by_cases hout : (operation (receive msg)).LogsOut
    · simp [owner, hlog, hout]
    · simp [owner, step_recv hs, hlog, hout, hs]
  · simp [owner, step_recv hs, hlog, he, Ne.symm he]

theorem owner_inr_recv (hs : c.state.connection s = some ⟨state, true⟩) (q : ℕ) :
    owner (advance step c (.recv s msg residue response data fresh)) (.inr q) =
      if (operation (receive msg)).LogsOut ∧ q = fresh ∨ q = data ∨ q = response then some q
      else owner c (.inr q) := by
  rw [owner, owner]
  simp only [mem_leaked_recv hs, ← or_assoc]
  split_ifs <;> simp_all

theorem owner_recv (hs : c.state.connection s = some ⟨state, true⟩)
    (hout : ¬ (operation (receive msg)).LogsOut) :
    owner (advance step c (.recv s msg residue response data fresh)) =
      Function.update (Function.update (owner c) (.inr response) (some response)) (.inr data)
        (some data) := by
  funext k
  cases k with
  | inl s' =>
    rw [owner_inl_recv hs, if_neg fun h => hout h.2, Function.update_of_ne Sum.inl_ne_inr,
      Function.update_of_ne Sum.inl_ne_inr]
  | inr q =>
    rw [owner_inr_recv hs, update_inr, update_inr]
    split_ifs <;> simp_all

/-- A logout also gives the name buffer away, and leaves the new one behind. -/
theorem owner_recv_logout (hs : c.state.connection s = some ⟨state, true⟩)
    (hout : (operation (receive msg)).LogsOut) :
    owner (advance step c (.recv s msg residue response data fresh)) =
      Function.update (Function.update (Function.update (Function.update (owner c) (.inr response)
        (some response)) (.inr data) (some data)) (.inl s) none) (.inr fresh) (some fresh) := by
  funext k
  cases k with
  | inl s' =>
    rw [owner_inl_recv hs, Function.update_of_ne Sum.inl_ne_inr]
    by_cases he : s' = s
    · rw [he, Function.update_self, if_pos ⟨rfl, hout⟩]
    · rw [if_neg fun h => he h.1, Function.update_of_ne fun hinl => he (Sum.inl.inj hinl),
        Function.update_of_ne Sum.inl_ne_inr, Function.update_of_ne Sum.inl_ne_inr]
  | inr q =>
    rw [owner_inr_recv hs, update_inr, Function.update_of_ne Sum.inr_ne_inl, update_inr, update_inr]
    split_ifs <;> simp_all

/-- A request that a thread handles before its logout, with free addresses for its blocks. -/
structure Handles (c : Config ι) (s : ι) (msg : List UInt8) (response data fresh state : ℕ) :
    Prop where
  connected : c.state.connection s = some ⟨state, true⟩
  active : loggedOut s c.history = false
  responseFree : c.state.blocks response = none
  dataFree : c.state.blocks data = none
  dataNe : data ≠ response
  freshFree : (operation (receive msg)).LogsOut →
    Allocation.free state (malloc data (malloc response c.state.blocks)) fresh = none

theorem Backs.not_leaked (h : Backs c d) (hp : c.state.blocks p = none) : p ∉ leaked c.history :=
  fun hl => (h.leaked_live hl).2 hp

/-- Where the new block of `processLogout` may be. -/
theorem Backs.fresh_cases (h : Backs c d) (hg : Handles c s msg response data fresh state)
    (hout : (operation (receive msg)).LogsOut) :
    fresh ≠ response ∧ fresh ≠ data ∧ (fresh = state ∨ c.state.blocks fresh = none) := by
  have hfree := hg.freshFree hout
  rw [free_eq_none, malloc_eq_none, malloc_eq_none] at hfree
  rcases hfree with rfl | ⟨hd, hr, hx⟩
  · have hne : ∀ {p}, c.state.blocks p = none → fresh ≠ p :=
      fun hp => h.ne_of_free hg.connected hg.active hp
    exact ⟨hne hg.responseFree, hne hg.dataFree, Or.inl rfl⟩
  · exact ⟨hr, hd, Or.inr hx⟩

theorem Backs.fresh_not_leaked (h : Backs c d) (hg : Handles c s msg response data fresh state)
    (hout : (operation (receive msg)).LogsOut) : fresh ∉ leaked c.history := by
  obtain ⟨-, -, rfl | hfree⟩ := h.fresh_cases hg hout
  · exact h.state_not_leaked hg.connected hg.active
  · exact h.not_leaked hfree

theorem Backs.owns_recv (h : Backs c d) (hg : Handles c s msg response data fresh state)
    (residue : CString) :
    OwnsBlocks (handle c.state msg residue response data fresh state).2.blocks
      (owner (advance step c (.recv s msg residue response data fresh))) := by
  have hr : owner c (.inr response) = none := if_neg (h.not_leaked hg.responseFree)
  have hd : Function.update (owner c) (.inr response) (some response) (.inr data) = none := by
    rw [update_inr, if_neg hg.dataNe]
    exact if_neg (h.not_leaked hg.dataFree)
  have hdata : malloc response c.state.blocks data = none :=
    malloc_eq_none.mpr ⟨hg.dataNe, hg.dataFree⟩
  have howns := h.owns.malloc hg.responseFree hr
  by_cases hout : (operation (receive msg)).LogsOut
  · have hk : Function.update (Function.update (owner c) (.inr response) (some response))
        (.inr data) (some data) (.inl s) = some state := by
      rw [Function.update_of_ne Sum.inl_ne_inr, Function.update_of_ne Sum.inl_ne_inr]
      exact owner_inl hg.connected hg.active
    have hf : Function.update (Function.update (Function.update (owner c) (.inr response)
        (some response)) (.inr data) (some data)) (.inl s) none (.inr fresh) = none := by
      obtain ⟨hfr, hfd, -⟩ := h.fresh_cases hg hout
      rw [Function.update_of_ne Sum.inr_ne_inl, update_inr, if_neg hfd, update_inr, if_neg hfr]
      exact if_neg (h.fresh_not_leaked hg hout)
    rw [owner_recv_logout hg.connected hout]
    exact processRequest_owns_logout
      (m := Memory.malloc response ⟨c.state.accountDB, c.state.blocks, []⟩) howns hdata hout hd hk
      (hg.freshFree hout) hf
  · rw [owner_recv hg.connected hout]
    exact processRequest_owns
      (m := Memory.malloc response ⟨c.state.accountDB, c.state.blocks, []⟩) howns hdata hout hd

theorem Backs.nodup_recv (h : Backs c d) (hg : Handles c s msg response data fresh state)
    (residue : CString) :
    (leaked (advance step c (.recv s msg residue response data fresh)).history).Nodup := by
  rw [advance_history, (handled rfl (by rw [record, step_recv hg.connected]) c.history).2.1]
  have hr := h.not_leaked hg.responseFree
  have hd := h.not_leaked hg.dataFree
  split_ifs with hout
  · obtain ⟨hfr, hfd, -⟩ := h.fresh_cases hg hout
    have hf := h.fresh_not_leaked hg hout
    simp [hfr, hfd, hf, hg.dataNe, hr, hd, h.nodup]
  · simp [hg.dataNe, hr, hd, h.nodup]

theorem Backs.does (h : Backs c d) (hg : Handles c s msg response data fresh state)
    (residue : CString) :
    (handle c.state msg residue response data fresh state).1 =
        (answered d.state s msg residue).1 ∧
      Does (operation (receive msg)) state response fresh
        (store data (requestData (receive msg)) (malloc data c.state.blocks))
        (handle c.state msg residue response data fresh state).2
        (answered d.state s msg residue).2 := by
  rw [answered, ← h.accountDB]
  exact processRequest_does residue c.state.accountDB (h.buffer s _ hg.connected hg.active)
    (h.owns.live (owner_inl hg.connected hg.active)) hg.responseFree
    (malloc_eq_none.mpr ⟨hg.dataNe, hg.dataFree⟩) fun hout => (h.fresh_cases hg hout).1

theorem Backs.buffer_other (h : Backs c d) (hg : Handles c s msg response data fresh state)
    (residue : CString) {k : Connection} (hk : c.state.connection s' = some k) (he : s' ≠ s)
    (hno : loggedOut s' c.history = false) :
    bufferAt (handle c.state msg residue response data fresh state).2.blocks k.state =
      bufferAt c.state.blocks k.state := by
  have hstate : k.state ≠ state := fun hk' =>
    he (Sum.inl.inj (h.owns.apart (owner_inl hk hno) (hk' ▸ owner_inl hg.connected hg.active)))
  have hother : ∀ {p}, c.state.blocks p = none → k.state ≠ p := fun hp => h.ne_of_free hk hno hp
  refine bufferAt_congr
    (((h.does hg residue).2.others _ hstate (hother hg.responseFree) fun hout => ?_).trans ?_)
  · obtain ⟨-, -, rfl | hfree⟩ := h.fresh_cases hg hout
    · exact hstate
    · exact hother hfree
  · rw [store_of_ne (hother hg.dataFree), malloc_of_ne (hother hg.dataFree)]

theorem Backs.faults_recv (h : Backs c d) (hg : Handles c s msg response data fresh state)
    (residue : CString) :
    ∀ f ∈ (handle c.state msg residue response data fresh state).2.faults, f = .readUnwritten := by
  rw [(h.does hg residue).2.faults]
  refine processRequest_readUnwritten _ _ rfl fun hreleased => ?_
  exact bufferAt_ne_released (h.owns.live (owner_inl hg.connected hg.active))
    ((h.buffer s _ hg.connected hg.active).trans hreleased)

omit [DecidableEq ι] in
theorem exchanged_recv {e : OnlineCaro.Entry ι} {o : Outcome} (he : e.input = .recv s msg residue)
    (ho : e.output = some o) (h : List (OnlineCaro.Entry ι)) :
    exchanged (e :: h) = ⟨s, o.sent.map text, o.faults⟩ :: exchanged h := by
  obtain ⟨pre, input, output⟩ := e
  obtain rfl : input = _ := he
  obtain rfl : output = _ := ho
  exact List.filterMap_cons_some rfl

theorem Backs.recv (h : Backs c d) (hg : Handles c s msg response data fresh state)
    (residue : CString) :
    Backs (advance step c (.recv s msg residue response data fresh))
      (advance OnlineCaro.step d (.recv s msg residue)) := by
  have hs := hg.connected
  have hlive : (d.state.session s).live = true := h.live s _ hs
  obtain ⟨hstatus, hdoes⟩ := h.does hg residue
  obtain ⟨hlog, -, hexch⟩ := handled (e := record step c.state
    (.recv s msg residue response data fresh)) rfl (by rw [record, step_recv hs]) c.history
  have hexch' := exchanged_recv (e := record OnlineCaro.step d.state (.recv s msg residue)) rfl
    (by rw [record, server_recv hlive]) d.history
  have howns := h.owns_recv hg residue
  refine ⟨?_, ?_, ?_, ?_, ?_, h.nodup_recv hg residue, ?_, ?_⟩ <;>
    simp only [advance_state, advance_history, step_recv hs, server_recv hlive, hlog, hexch, hexch']
  · exact hdoes.accountDB
  · intro s' hs'
    have he : s' ≠ s := by
      rintro rfl
      rw [Function.update_self] at hs'
      cases hs'
    rw [Function.update_of_ne he] at hs' ⊢
    rw [Bool.or_eq_false_iff, decide_eq_false_iff_not]
    exact ⟨(h.idle s' hs').1, fun h => he h.1.symm, (h.idle s' hs').2⟩
  · intro s' k hk
    rcases update_cases hk with ⟨rfl, hnew⟩ | ⟨he, hold⟩
    · rw [Function.update_self, ← Option.some.inj hnew]
      exact hstatus.symm
    · rw [Function.update_of_ne he]
      exact h.live s' k hold
  · intro s' k hk hno
    rw [Bool.or_eq_false_iff, decide_eq_false_iff_not, not_and] at hno
    rcases update_cases hk with ⟨rfl, hnew⟩ | ⟨he, hold⟩
    · rw [Function.update_self, ← Option.some.inj hnew]
      exact hdoes.buffer (hno.1 rfl)
    · rw [Function.update_of_ne he, ← h.buffer s' k hold hno.2]
      exact h.buffer_other hg residue hold he hno.2
  · exact howns
  · rw [h.sent, hstatus, hdoes.reply, hdoes.faults, Option.join_some]
    cases hgoes : (answered d.state s msg residue).1 <;> rfl
  · intro x hx
    rcases List.mem_cons.mp hx with rfl | hx
    · exact h.faults_recv hg residue
    · exact h.faults x hx

end Request

section Runs

variable {c : Config ι} {d : OnlineCaro.Config ι}

theorem Backs.turn (h : Backs c d) (e : Event ι) (hmalloc : MallocFresh c e)
    (horder : Orderly c e) :
    Backs (advance step c e) (run OnlineCaro.step d (request c.state e).toList) := by
  cases e with
  | accept s state =>
    cases hs : c.state.connection s with
    | none => exact h.accept hs (hmalloc hs)
    | some k => exact h.skip (step_accept_again hs)
  | recv s msg residue response data fresh =>
    rw [request]
    rcases hs : c.state.connection s with _ | ⟨state, looping⟩
    · refine h.skip (step_recv_idle fun state hk => ?_)
      rw [hs] at hk
      cases hk
    · cases looping with
      | true =>
        obtain ⟨hresponse, hdata, hfresh⟩ := hmalloc _ hs rfl
        obtain ⟨hne, hfree⟩ := malloc_eq_none.mp hdata
        exact h.recv ⟨hs, horder _ hs rfl, hresponse, hfree, hne, hfresh⟩ residue
      | false =>
        have hidle : ∀ state, c.state.connection s ≠ some ⟨state, true⟩ := by
          intro state' hk
          rw [hs] at hk
          cases hk
        exact (h.skip (step_recv_idle hidle)).skip_server (step_recv_dead (h.live s _ hs))
  | lost s =>
    rw [request]
    cases hs : c.state.connection s with
    | none =>
      refine h.skip ?_
      rw [step, hs, Option.map_none, ← hs, Function.update_eq_self]
    | some k => exact h.lost hs

theorem backs_listening (accountDB : List Account) :
    Backs (start (listening accountDB) : Config ι) (serve accountDB) where
  accountDB := rfl
  idle _ _ := ⟨rfl, rfl⟩
  live _ _ hk := by cases hk
  buffer _ _ hk := by cases hk
  owns := by
    have hnone : ∀ k, owner (start (listening accountDB) : Config ι) k = none := by
      rintro (s | p) <;> rfl
    exact ⟨fun hk => absurd hk (by simp [hnone]), fun hk => absurd hk (by simp [hnone]),
      fun hp => absurd rfl hp⟩
  nodup := List.nodup_nil
  sent := rfl
  faults := fun _ hx => absurd hx List.not_mem_nil

/-- Clients that have not logged out have different name buffers, and in each stands what the model
says. -/
def BuffersApart (c : Config ι) (d : OnlineCaro.Config ι) : Prop :=
  ∀ s k, c.state.connection s = some k → loggedOut s c.history = false →
    bufferAt c.state.blocks k.state = (d.state.session s).state ∧
    ∀ s' k', c.state.connection s' = some k' → loggedOut s' c.history = false →
      k'.state = k.state → s' = s

theorem Backs.buffersApart (h : Backs c d) : BuffersApart c d := fun s k hk hno =>
  ⟨h.buffer s k hk hno, fun _ _ hk' hno' he =>
    Sum.inl.inj (h.owns.apart (owner_inl hk' hno') (he ▸ owner_inl hk hno))⟩

/-- The blocks in use are the name buffers of the clients that have not logged out, and the blocks
left behind. -/
theorem Backs.in_use (h : Backs c d) (p : ℕ) :
    c.state.blocks p ≠ none ↔ p ∈ leaked c.history ∨
      ∃ s k, c.state.connection s = some k ∧ loggedOut s c.history = false ∧ k.state = p := by
  constructor
  · intro hp
    obtain ⟨s | q, hk⟩ := h.owns.covers hp
    · rw [owner] at hk
      split_ifs at hk with hno
      obtain ⟨k, hs, rfl⟩ := Option.map_eq_some_iff.mp hk
      exact Or.inr ⟨s, k, hs, Bool.eq_false_iff.mpr hno, rfl⟩
    · rw [owner] at hk
      split_ifs at hk with hq
      exact Or.inl (Option.some.inj hk ▸ hq)
  · rintro (hp | ⟨s, k, hs, hno, rfl⟩)
    · exact (h.leaked_live hp).2
    · exact h.owns.live (owner_inl hs hno)

/-- **Private buffers.** In every run in which `malloc` returns free addresses and nothing follows a
logout, not even the end of the connection, the threads on pointers send what the server of the
model sends, and leave the same list; no two of them have the same name buffer, and nothing but an
unwritten name is ever read in error. The blocks in use are the name buffers and those left behind,
which are all different. -/
theorem buffers_private (accountDB : List Account) (es : List (Event ι))
    (h : Always step (fun c e => MallocFresh c e ∧ Orderly c e) (start (listening accountDB)) es) :
    let c := run step (start (listening accountDB)) es
    let d := run OnlineCaro.step (serve accountDB)
      (translation step request (listening accountDB) es)
    c.state.accountDB = d.state.accountDB ∧ exchanges c.history = exchanged d.history ∧
      BuffersApart c d ∧ (∀ x ∈ exchanges c.history, ∀ f ∈ x.faults, f = .readUnwritten) ∧
      (leaked c.history).Nodup ∧ ∀ p, c.state.blocks p ≠ none ↔ p ∈ leaked c.history ∨
        ∃ s k, c.state.connection s = some k ∧ loggedOut s c.history = false ∧ k.state = p := by
  intro c d
  have hbacks : Backs c d := run_translation (fun c d e hcd hg => hcd.turn e hg.1 hg.2)
    (backs_listening accountDB) h
  exact ⟨hbacks.accountDB, hbacks.sent, hbacks.buffersApart, hbacks.faults, hbacks.nodup,
    hbacks.in_use⟩

/-- The requests of a client, each with the addresses that `malloc` returns. -/
def received (s : ℕ) (msg : String) (response data fresh : ℕ) : Event ℕ :=
  .recv s (ascii msg) (CString.ofAscii "") response data fresh

/-- The second client gets the name buffer that the first one has released. -/
def aliceThenBob : List (Event ℕ) :=
  [.accept 0 100, received 0 "1alice" 1 2 0, received 0 "2secret" 3 4 0, received 0 "3" 5 6 7,
    .accept 1 100, received 1 "1bob" 8 9 0, received 1 "2hunter" 10 11 0]

theorem buffers_private_alice :
    Always step (fun c e => MallocFresh c e ∧ Orderly c e) (start (listening [alice, bob]))
        aliceThenBob ∧
      exchanges (run step (start (listening [alice, bob])) aliceThenBob).history =
        exchanged (run OnlineCaro.step (serve [alice, bob])
          (translation step request (listening [alice, bob]) aliceThenBob)).history := by
  have h : Always step (fun c e => MallocFresh c e ∧ Orderly c e) (start (listening [alice, bob]))
      aliceThenBob := by decide +kernel
  exact ⟨h, (buffers_private [alice, bob] aliceThenBob h).2.1⟩

/-- The first client goes on after its logout: the name it sends is that of the second one, whose
right password is then a wrong one of `alice`. -/
theorem buffer_shared :
    let es : List (Event ℕ) := [.accept 0 100, received 0 "3" 1 2 3, .accept 1 100,
      received 1 "1bob" 4 5 0, received 0 "1alice" 6 7 0, received 1 "2hunter" 8 9 0]
    Always step MallocFresh (start (listening [alice, bob])) es ∧
      (exchanges (run step (start (listening [alice, bob])) es).history).head? =
        some ⟨1, some (text .passwordIncorrect), []⟩ ∧
      (exchanged (run OnlineCaro.step (serve [alice, bob])
        (translation step request (listening [alice, bob]) es)).history).head? =
        some ⟨1, some (text .passwordSuccess), []⟩ := by
  decide +kernel

end Runs

end OnlineCaro.Pointers
