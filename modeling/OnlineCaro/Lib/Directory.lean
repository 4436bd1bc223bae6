import OnlineCaro.Lib.Run

/-!
# Directories

A directory has an entry for some keys, and every request names a key. The entry of a key is a
machine of its own, which the requests for other keys do not reach.

* `cell`: the machine of a key, whether there is an entry or not.
* `Serves`: a machine whose states show a directory and whose inputs are requests.
* `traceOf`, **`serves_run`**: what a key is asked and answered in a run of that machine is a run of
  the key's own machine.
-/

namespace Directory

open StepRun

variable {K V I O σ ι ο : Type*}

/-- The entry of a key on a request; without an entry only the answer depends on the request. -/
def cell (handle : V → I → V × O) (absent : I → O) : Option V → I → Option V × O
  | none, i => (none, absent i)
  | some v, i => (some (handle v i).1, (handle v i).2)

/-- What a machine was asked and what it answered, latest first. -/
def trace (h : List (Entry σ ι ο)) : List (ι × ο) := h.map fun e => (e.input, e.output)

/-- A step that is a request for a key changes the entry of that key only, as the key's own machine
does, and answers as it does; any other step changes no entry. -/
structure Serves (step : σ → ι → σ × ο) (handle : V → I → V × O) (absent : I → O)
    (entry : σ → K → Option V) (request : σ → ι → Option (K × I)) (reply : ο → O) : Prop where
  quiet : ∀ {x i}, request x i = none → ∀ k, entry (step x i).1 k = entry x k
  entry_self : ∀ {x i k a}, request x i = some (k, a) →
    entry (step x i).1 k = (cell handle absent (entry x k) a).1
  entry_other : ∀ {x i k a k'}, request x i = some (k, a) → k' ≠ k →
    entry (step x i).1 k' = entry x k'
  reply_eq : ∀ {x i k a}, request x i = some (k, a) →
    reply (step x i).2 = (cell handle absent (entry x k) a).2

section Run

variable [DecidableEq K] (request : σ → ι → Option (K × I)) (reply : ο → O)

/-- The request for the key `k` in one step, with its answer. -/
def requestOf (k : K) (e : Entry σ ι ο) : Option (I × O) :=
  (request e.pre e.input).bind fun r => if r.1 = k then some (r.2, reply e.output) else none

/-- The requests for the key `k` and their answers, latest first. -/
def traceOf (k : K) (h : List (Entry σ ι ο)) : List (I × O) :=
  h.filterMap (requestOf request reply k)

variable {request reply} {step : σ → ι → σ × ο} {handle : V → I → V × O} {absent : I → O}
  {entry : σ → K → Option V} {c : Config σ ι ο} {k : K}

theorem traceOf_cons_none {e : Entry σ ι ο} (he : requestOf request reply k e = none)
    (h : List (Entry σ ι ο)) : traceOf request reply k (e :: h) = traceOf request reply k h :=
  List.filterMap_cons_none he

theorem traceOf_cons_some {e : Entry σ ι ο} {x : I × O}
    (he : requestOf request reply k e = some x) (h : List (Entry σ ι ο)) :
    traceOf request reply k (e :: h) = x :: traceOf request reply k h :=
  List.filterMap_cons_some he

/-- The requests for the key `k`, oldest first. -/
def requestsFor (request : σ → ι → Option (K × I)) (reply : ο → O) (k : K)
    (h : List (Entry σ ι ο)) : List I :=
  ((traceOf request reply k h).map Prod.fst).reverse

/-- What the run has shown of the key is the run of the key's machine on its requests. -/
structure Replays (request : σ → ι → Option (K × I)) (reply : ο → O) (handle : V → I → V × O)
    (absent : I → O) (entry : σ → K → Option V) (v : Option V) (k : K) (c : Config σ ι ο) :
    Prop where
  entry_eq : entry c.state k =
    (run (cell handle absent) (start v) (requestsFor request reply k c.history)).state
  trace_eq : traceOf request reply k c.history =
    trace (run (cell handle absent) (start v) (requestsFor request reply k c.history)).history

theorem requestsFor_cons_none {e : Entry σ ι ο} (he : requestOf request reply k e = none)
    (h : List (Entry σ ι ο)) :
    requestsFor request reply k (e :: h) = requestsFor request reply k h := by
  rw [requestsFor, traceOf_cons_none he, requestsFor]

theorem requestsFor_cons_some {e : Entry σ ι ο} {x : I × O}
    (he : requestOf request reply k e = some x) (h : List (Entry σ ι ο)) :
    requestsFor request reply k (e :: h) = requestsFor request reply k h ++ [x.1] := by
  rw [requestsFor, traceOf_cons_some he, List.map_cons, List.reverse_cons, requestsFor]

theorem Replays.skip {v : Option V} (h : Replays request reply handle absent entry v k c) {i : ι}
    (hi : requestOf request reply k (record step c.state i) = none)
    (he : entry (step c.state i).1 k = entry c.state k) :
    Replays request reply handle absent entry v k (advance step c i) := by
  constructor
  · rw [advance_state, advance_history, requestsFor_cons_none hi, he]
    exact h.entry_eq
  · rw [advance_history, requestsFor_cons_none hi, traceOf_cons_none hi]
    exact h.trace_eq

theorem Replays.advance (hs : Serves step handle absent entry request reply) {v : Option V}
    (h : Replays request reply handle absent entry v k c) (i : ι) :
    Replays request reply handle absent entry v k (advance step c i) := by
  have hreq : requestOf request reply k (record step c.state i) =
      (request c.state i).bind fun r =>
        if r.1 = k then some (r.2, reply (step c.state i).2) else none := rfl
  cases hr : request c.state i with
  | none => exact h.skip (by rw [hreq, hr]; rfl) (hs.quiet hr k)
  | some r =>
    obtain ⟨k', a⟩ := r
    rw [hr, Option.bind_some] at hreq
    by_cases hk : k' = k
    · subst hk
      rw [if_pos rfl, hs.reply_eq hr] at hreq
      constructor
      · rw [advance_state, advance_history, requestsFor_cons_some hreq, hs.entry_self hr,
          h.entry_eq, run_append]
        rfl
      · rw [advance_history, requestsFor_cons_some hreq, traceOf_cons_some hreq, h.trace_eq,
          h.entry_eq, run_append]
        rfl
    · rw [if_neg hk] at hreq
      exact h.skip hreq (hs.entry_other hr (Ne.symm hk))

/-- **Every entry runs by itself.** -/
theorem serves_run (hs : Serves step handle absent entry request reply) (x : σ) (k : K)
    (is : List ι) :
    Replays request reply handle absent entry (entry x k) k (run step (start x) is) :=
  run_invariant (fun _ i h => h.advance hs i) ⟨rfl, rfl⟩ is

/-- With an entry, the machine of the key goes from one value to the next. -/
theorem run_cell_some (v : V) (is : List I) :
    (run (cell handle absent) (start (some v)) is).state =
      some (is.foldl (fun v i => (handle v i).1) v) := by
  have hrun : ∀ (c : Config (Option V) I O), c.state = some v →
      (run (cell handle absent) c is).state =
        some (is.foldl (fun v i => (handle v i).1) v) := by
    induction is generalizing v with
    | nil => exact fun c hc => hc
    | cons i is ih =>
      intro c hc
      refine ih (handle v i).1 _ ?_
      rw [advance_state, hc]
      rfl
  exact hrun _ rfl

end Run

end Directory
