import OnlineCaro.Server.Lockout

/-!
# How a stream is cut

A connection is a stream of bytes, and `recv` returns it in pieces of any length. The thread takes
each piece for one request.

* `IsCut`: the ways to cut a stream into pieces that fit into `buff`.
* `observe`: the replies to the pieces and the accounts at the end; `serveChunks` is the same by
  recursion on the pieces.
* `Indifferent`: the streams of at most one byte, and those that start with no operation code.
* **`segmentation_iff`**: the server treats all cuts of a stream like the one into requests exactly
  when the stream is indifferent.
-/

namespace OnlineCaro

open CMem StepRun

/-! ## Cuts -/

section Cuts

variable {α : Type} {bound : ℕ}

/-- The pieces of a stream, none empty and all shorter than `bound`. -/
structure IsCut (bound : ℕ) (stream : List α) (chunks : List (List α)) : Prop where
  flatten : chunks.flatten = stream
  nonempty : ∀ chunk ∈ chunks, chunk ≠ []
  fits : ∀ chunk ∈ chunks, chunk.length < bound

/-- Every element for itself. -/
def singles (stream : List α) : List (List α) := stream.map fun b => [b]

theorem isCut_singles (h : 1 < bound) (stream : List α) : IsCut bound stream (singles stream) := by
  refine ⟨?_, ?_, ?_⟩
  · rw [singles, ← List.flatMap_def]
    exact List.flatMap_singleton' stream
  · simp [singles]
  · simpa [singles] using fun _ _ => h

theorem IsCut.cons {chunk stream : List α} {chunks : List (List α)} (h : IsCut bound stream chunks)
    (hne : chunk ≠ []) (hlen : chunk.length < bound) :
    IsCut bound (chunk ++ stream) (chunk :: chunks) :=
  ⟨congrArg (chunk ++ ·) h.flatten, List.forall_mem_cons.mpr ⟨hne, h.nonempty⟩,
    List.forall_mem_cons.mpr ⟨hlen, h.fits⟩⟩

theorem IsCut.uncons {b : α} {bs : List α} {chunks : List (List α)}
    (h : IsCut bound (b :: bs) chunks) : ∃ chunk rest, chunks = (b :: chunk) :: rest ∧
      chunk ++ rest.flatten = bs ∧ chunk.length + 1 < bound ∧ IsCut bound rest.flatten rest := by
  obtain ⟨hf, hne, hlen⟩ := h
  cases chunks with
  | nil => cases hf
  | cons piece rest =>
    cases piece with
    | nil => exact absurd rfl (hne [] List.mem_cons_self)
    | cons b' chunk =>
      obtain ⟨rfl, hbs⟩ := List.cons.inj hf
      exact ⟨chunk, rest, rfl, hbs, hlen _ List.mem_cons_self, rfl,
        (List.forall_mem_cons.mp hne).2, (List.forall_mem_cons.mp hlen).2⟩

theorem IsCut.eq_nil {chunks : List (List α)} (h : IsCut bound [] chunks) : chunks = [] := by
  cases chunks with
  | nil => rfl
  | cons piece rest =>
    have hnil : piece = [] := (List.append_eq_nil_iff.mp h.flatten).1
    exact absurd hnil (h.nonempty _ List.mem_cons_self)

theorem IsCut.eq_singleton {b : α} {chunks : List (List α)} (h : IsCut bound [b] chunks) :
    chunks = [[b]] := by
  obtain ⟨chunk, rest, rfl, hnil, -, hrest⟩ := h.uncons
  obtain ⟨rfl, hflat⟩ := List.append_eq_nil_iff.mp hnil
  rw [hflat] at hrest
  rw [hrest.eq_nil]

end Cuts

/-! ## One connection -/

/-- `BUFF_SIZE` -/
def buffSize : ℕ := 2048

/-- The replies that were sent, oldest first. -/
def sentReplies {ι : Type} (h : List (Entry ι)) : List Reply :=
  (h.filterMap fun e => e.output.bind Outcome.sent).reverse

/-- The pieces as they reach the only session. At the `n`-th of them a name buffer that is unwritten
or released reads as `residue n`. -/
def pieces : (ℕ → CString) → List (List UInt8) → List (Event Unit)
  | _, [] => []
  | residue, chunk :: chunks => .recv () chunk (residue 0) :: pieces (residue ∘ Nat.succ) chunks

/-- The replies on a connection, and the statuses and counters of all accounts at its end. -/
def observe (db : List Account) (residue : ℕ → CString) (chunks : List (List UInt8)) :
    List Reply × List (Int32 × Int32) :=
  let c := run step (serve db) (pieces residue chunks)
  (sentReplies c.history, c.state.accountDB.map fun a => (a.status, a.counter))

/-- Requests that the server treats alike however their bytes arrive. Both runs find the same in the
buffer they allocate; what they read after the first piece, where no name was written or the buffer
is released, is left open in each of them. -/
def CutsAlike (requests : List (List UInt8)) : Prop :=
  ∀ db residue residue' chunks, residue 0 = residue' 0 → IsCut buffSize requests.flatten chunks →
    observe db residue chunks = observe db residue' requests

/-- The replies to the pieces and the account list after them, from an open connection. -/
def serveChunks :
    (ℕ → CString) → NameBuf → List Account → List (List UInt8) → List Reply × List Account
  | _, _, db, [] => ([], db)
  | residue, state, db, chunk :: chunks =>
    let op := operation (receive chunk)
    let name := state.read (residue 0)
    let next := if liveAfter op then
        serveChunks (residue ∘ Nat.succ) (bufferAfter state op) (accountsAfter name db op) chunks
      else ([], accountsAfter name db op)
    ((replyAfter name db op).toList ++ next.1, next.2)

theorem run_pieces_dead {c : Config Unit} (h : (c.state.session ()).live = false)
    (residue : ℕ → CString) (chunks : List (List UInt8)) :
    sentReplies (run step c (pieces residue chunks)).history = sentReplies c.history ∧
      (run step c (pieces residue chunks)).state = c.state := by
  induction chunks generalizing c residue with
  | nil => exact ⟨rfl, rfl⟩
  | cons chunk chunks ih =>
    have hstate : (advance step c (.recv () chunk (residue 0))).state = c.state := by
      rw [advance_state, step_recv_dead h]
    have hsent : sentReplies (advance step c (.recv () chunk (residue 0))).history =
        sentReplies c.history := by
      rw [advance_history, sentReplies, List.filterMap_cons_none]
      · rfl
      · rw [record, step_recv_dead h]
        rfl
    obtain ⟨hr, hs⟩ := ih (c := advance step c (.recv () chunk (residue 0)))
      (by rw [hstate]; exact h) (residue ∘ Nat.succ)
    exact ⟨hr.trans hsent, hs.trans hstate⟩

theorem run_pieces {c : Config Unit} (residue : ℕ → CString) {state : NameBuf}
    (h : c.state.session () = ⟨state, true⟩) (chunks : List (List UInt8)) :
    sentReplies (run step c (pieces residue chunks)).history =
        sentReplies c.history ++ (serveChunks residue state c.state.accountDB chunks).1 ∧
      (run step c (pieces residue chunks)).state.accountDB =
        (serveChunks residue state c.state.accountDB chunks).2 := by
  induction chunks generalizing c state residue with
  | nil => exact ⟨(List.append_nil _).symm, rfl⟩
  | cons chunk chunks ih =>
    have hl : (c.state.session ()).live = true := by rw [h]
    have hname : c.state.nameOf () (residue 0) = state.read (residue 0) := by rw [Server.nameOf, h]
    have hstate : (advance step c (.recv () chunk (residue 0))).state.accountDB =
          accountsAfter (state.read (residue 0)) c.state.accountDB (operation (receive chunk)) ∧
        (advance step c (.recv () chunk (residue 0))).state.session () =
          ⟨bufferAfter state (operation (receive chunk)),
            liveAfter (operation (receive chunk))⟩ := by
      rw [advance_state, step_recv hl, hname, h]
      exact ⟨rfl, by dsimp only; rw [Function.update_self]⟩
    have hsent : sentReplies (advance step c (.recv () chunk (residue 0))).history =
        sentReplies c.history ++ (replyAfter (state.read (residue 0)) c.state.accountDB
          (operation (receive chunk))).toList := by
      rw [← hname, ← step_reply hl, advance_history, sentReplies, List.filterMap_cons]
      cases hout : (step c.state (.recv () chunk (residue 0))).2.bind Outcome.sent with
      | none => simp [record, hout, sentReplies]
      | some r => simp [record, hout, sentReplies]
    obtain ⟨hdb, hsess⟩ := hstate
    rw [pieces, run_cons]
    simp only [serveChunks]
    split_ifs with hgo
    · rw [hgo] at hsess
      obtain ⟨hr, hd⟩ := ih (residue ∘ Nat.succ) hsess
      rw [hr, hd, hdb, hsent, List.append_assoc]
      exact ⟨rfl, rfl⟩
    · have hdead : ((advance step c
          (.recv () chunk (residue 0))).state.session ()).live = false := by
        rw [hsess]
        exact Bool.eq_false_iff.mpr hgo
      obtain ⟨hr, hs⟩ := run_pieces_dead hdead (residue ∘ Nat.succ) chunks
      rw [hr, hs, hdb, hsent, List.append_nil]
      exact ⟨rfl, rfl⟩

theorem observe_eq (db : List Account) (residue : ℕ → CString) (chunks : List (List UInt8)) :
    observe db residue chunks =
      ((serveChunks residue .unwritten db chunks).1,
        (serveChunks residue .unwritten db chunks).2.map fun a => (a.status, a.counter)) := by
  have hopen : (serve db : Config Unit).state.session () = ⟨.unwritten, true⟩ := rfl
  obtain ⟨hr, hd⟩ := run_pieces residue hopen chunks
  unfold observe
  dsimp only
  rw [hr, hd]
  rfl

/-! ## The first byte of a piece -/

/-- The operation codes. -/
def IsCode (b : UInt8) : Prop := b = usernameOperation ∨ b = passwordOperation ∨ b = logoutOperation

instance decidableIsCode : DecidablePred IsCode := fun _ => inferInstanceAs (Decidable (_ ∨ _))

/-- The streams that can be cut in one way only, and those whose first piece ends the connection. -/
def Indifferent (stream : List UInt8) : Prop :=
  stream.length ≤ 1 ∨ ∀ b ∈ stream.head?, ¬ IsCode b

variable {residue residue' : ℕ → CString} {db : List Account} {state : NameBuf} {b : UInt8}
  {bs : List UInt8} {chunks : List (List UInt8)}

theorem getOperationCode_receive (b : UInt8) (bs : List UInt8) :
    getOperationCode (receive (b :: bs)) = b := by
  unfold getOperationCode receive CString.ofBytes CString.byteAt
  by_cases hb : b = 0
  · simp [hb]
  · simp [hb]

theorem operation_of_logout (bs : List UInt8) :
    operation (receive (logoutOperation :: bs)) = .logout := by
  unfold operation
  rw [getOperationCode_receive, if_neg (by decide), if_neg (by decide), if_pos rfl]

theorem operation_of_not_code (h : ¬ IsCode b) (bs : List UInt8) :
    operation (receive (b :: bs)) = .clientOut := by
  simp only [IsCode, not_or] at h
  unfold operation
  rw [getOperationCode_receive, if_neg h.1, if_neg h.2.1, if_neg h.2.2]

/-- A piece that starts with no operation code ends the connection. -/
theorem serveChunks_of_not_code (h : ¬ IsCode b) :
    serveChunks residue state db ((b :: bs) :: chunks) =
      ([], db.map (Account.reset (state.read (residue 0)))) := by
  simp [serveChunks, operation_of_not_code h, liveAfter, replyAfter, accountsAfter]

theorem serveChunks_of_logout (bs : List UInt8) :
    serveChunks residue state db ((logoutOperation :: bs) :: chunks) =
      (.logoutSuccess :: (serveChunks (residue ∘ Nat.succ) .released
          (db.map (Account.reset (state.read (residue 0)))) chunks).1,
        (serveChunks (residue ∘ Nat.succ) .released
          (db.map (Account.reset (state.read (residue 0)))) chunks).2) := by
  simp [serveChunks, operation_of_logout, liveAfter, replyAfter, accountsAfter, bufferAfter]

/-! ## Indifferent streams -/

/-- The only piece of a connection finds what the buffer was allocated with. -/
theorem serveChunks_single (h : residue 0 = residue' 0) (chunk : List UInt8) :
    serveChunks residue state db [chunk] = serveChunks residue' state db [chunk] := by
  simp only [serveChunks, h]

theorem serveChunks_unknown (h : ¬ IsCode b) (hc : IsCut buffSize (b :: bs) chunks) :
    serveChunks residue state db chunks =
      ([], db.map (Account.reset (state.read (residue 0)))) := by
  obtain ⟨chunk, rest, rfl, -⟩ := hc.uncons
  exact serveChunks_of_not_code h

theorem observe_eq_of_indifferent {stream : List UInt8} (h : Indifferent stream)
    {chunks' : List (List UInt8)} (hres : residue 0 = residue' 0)
    (hc : IsCut buffSize stream chunks) (hc' : IsCut buffSize stream chunks') :
    observe db residue chunks = observe db residue' chunks' := by
  rw [observe_eq, observe_eq]
  cases stream with
  | nil =>
    rw [hc.eq_nil, hc'.eq_nil]
    rfl
  | cons b bs =>
    rcases h with h | h
    · obtain rfl := List.eq_nil_of_length_eq_zero (Nat.le_zero.mp (Nat.succ_le_succ_iff.mp h))
      rw [hc.eq_singleton, hc'.eq_singleton, serveChunks_single hres]
    · rw [serveChunks_unknown (h b rfl) hc, serveChunks_unknown (h b rfl) hc', hres]

/-! ## All other streams -/

theorem operation_of_code (h : IsCode b) (bs : List UInt8) :
    operation (receive (b :: bs)) ≠ .clientOut := by
  unfold operation
  rw [getOperationCode_receive]
  rcases h with rfl | rfl | rfl
  · simp
  · rw [if_neg (by decide)]
    simp
  · rw [if_neg (by decide), if_neg (by decide)]
    simp

theorem requestData_receive (hb : b ≠ 0) (h : (0 : UInt8) ∉ bs) :
    requestData (receive (b :: bs)) = ⟨bs, h⟩ := by
  have hnul : (0 : UInt8) ∉ b :: bs := List.not_mem_cons_of_ne_of_not_mem hb.symm h
  refine CString.ext ?_
  rw [requestData_bytes, receive, CString.bytes_ofBytes hnul]
  rfl

theorem operation_of_username (h : (0 : UInt8) ∉ bs) :
    operation (receive (usernameOperation :: bs)) = .username ⟨bs, h⟩ := by
  unfold operation
  rw [getOperationCode_receive, if_pos rfl, requestData_receive (by decide) h]

theorem operation_of_password (h : (0 : UInt8) ∉ bs) :
    operation (receive (passwordOperation :: bs)) = .password ⟨bs, h⟩ := by
  unfold operation
  rw [getOperationCode_receive, if_neg (by decide), if_pos rfl, requestData_receive (by decide) h]

theorem head?_serveChunks {r : Reply} {chunk : List UInt8}
    (h : replyAfter (state.read (residue 0)) db (operation (receive chunk)) = some r) :
    (serveChunks residue state db (chunk :: chunks)).1.head? = some r := by
  simp [serveChunks, h]

/-- The number of pieces up to the first that starts with no operation code. -/
def answered : List (List UInt8) → ℕ
  | (b :: _) :: chunks => if IsCode b then answered chunks + 1 else 0
  | _ => 0

/-- After a logout, under a listed name, every piece is answered until one starts with no operation
code. -/
theorem length_serveChunks_released {name : CString} (hname : findNode db name ≠ none)
    (hne : ∀ chunk ∈ chunks, chunk ≠ []) :
    (serveChunks (fun _ => name) .released db chunks).1.length = answered chunks := by
  induction chunks generalizing db with
  | nil => rfl
  | cons chunk chunks ih =>
    obtain ⟨hchunk, hrest⟩ := List.forall_mem_cons.mp hne
    obtain ⟨b, bs, rfl⟩ := List.exists_cons_of_ne_nil hchunk
    rw [answered]
    split_ifs with hb
    · have hname' : findNode (accountsAfter name db (operation (receive (b :: bs)))) name ≠
          none := by
        rw [findNode_accountsAfter]
        simpa using hname
      have hread : NameBuf.read name .released = name := rfl
      have hrun : (fun _ => name) ∘ Nat.succ = fun _ => name := rfl
      obtain ⟨a, ha⟩ := Option.ne_none_iff_exists'.mp hname
      have ih' := ih hname' hrest
      cases hop : operation (receive (b :: bs)) with
      | clientOut => exact absurd hop (operation_of_code hb bs)
      | username data | password data | logout =>
        rw [hop] at ih'
        simp [serveChunks, hop, hread, hrun, liveAfter, bufferAfter, NameBuf.write, replyAfter, ha,
          ih', Nat.add_comm]
    · rw [serveChunks_of_not_code hb]
      rfl

/-- Two runs on pieces of a stream that are told apart, though both start in the same memory. -/
def CutsDiffer (stream : List UInt8) : Prop :=
  ∃ db residue residue' chunks chunks', residue 0 = residue' 0 ∧ IsCut buffSize stream chunks ∧
    IsCut buffSize stream chunks' ∧ observe db residue chunks ≠ observe db residue' chunks'

theorem isCut_front (b b' : UInt8) (bs : List UInt8) :
    IsCut buffSize (b :: b' :: bs) ([b] :: [b'] :: singles bs) ∧
      IsCut buffSize (b :: b' :: bs) ([b, b'] :: singles bs) := by
  have hbs : IsCut buffSize bs (singles bs) := isCut_singles (by decide) bs
  have hb' : IsCut buffSize ([b'] ++ bs) ([b'] :: singles bs) :=
    hbs.cons (by simp) (by simp [buffSize])
  have hb : IsCut buffSize ([b] ++ ([b'] ++ bs)) ([b] :: [b'] :: singles bs) :=
    hb'.cons (by simp) (by simp [buffSize])
  have hbb' : IsCut buffSize ([b, b'] ++ bs) ([b, b'] :: singles bs) :=
    hbs.cons (by simp) (by simp [buffSize])
  exact ⟨hb, hbb'⟩

theorem observe_ne_of_head? {chunks' : List (List UInt8)}
    (h : (serveChunks residue .unwritten db chunks).1.head? ≠
      (serveChunks residue' .unwritten db chunks').1.head?) :
    observe db residue chunks ≠ observe db residue' chunks' := by
  rw [observe_eq, observe_eq]
  exact fun he => h (congrArg (fun o => o.1.head?) he)

theorem observe_ne_of_length {chunks' : List (List UInt8)}
    (h : (serveChunks residue .unwritten db chunks).1.length ≠
      (serveChunks residue' .unwritten db chunks').1.length) :
    observe db residue chunks ≠ observe db residue' chunks' := by
  rw [observe_eq, observe_eq]
  exact fun he => h (congrArg (fun o => o.1.length) he)

/-- A username cut in two names another account. -/
theorem cutsDiffer_username {b' : UInt8} (hb' : (0 : UInt8) ∉ [b']) (bs : List UInt8) :
    CutsDiffer (usernameOperation :: b' :: bs) := by
  obtain ⟨hcut, hcut'⟩ := isCut_front usernameOperation b' bs
  refine ⟨[⟨⟨[b'], hb'⟩, ⟨[], List.not_mem_nil⟩, statusDefault, 0⟩], fun _ => .ofAscii "",
    fun _ => .ofAscii "", _, _, rfl, hcut, hcut', observe_ne_of_head? ?_⟩
  have hone : operation (receive [usernameOperation]) = .username ⟨[], List.not_mem_nil⟩ :=
    operation_of_username List.not_mem_nil
  have htwo : operation (receive [usernameOperation, b']) = .username ⟨[b'], hb'⟩ :=
    operation_of_username hb'
  rw [head?_serveChunks (r := .usernameNotFound) (by rw [hone]; rfl),
    head?_serveChunks (r := .usernameSuccess) (by
      rw [htwo]
      simp [replyAfter, usernameReply, findNode, Account.greet, statusDefault, statusBlocked,
        statusLoggedIn])]
  simp

/-- A password cut in two is wrong. -/
theorem cutsDiffer_password {b' : UInt8} (hb' : (0 : UInt8) ∉ [b']) (bs : List UInt8) :
    CutsDiffer (passwordOperation :: b' :: bs) := by
  obtain ⟨hcut, hcut'⟩ := isCut_front passwordOperation b' bs
  refine ⟨[⟨.ofAscii "", ⟨[b'], hb'⟩, statusDefault, 0⟩], fun _ => .ofAscii "",
    fun _ => .ofAscii "", _, _, rfl, hcut, hcut', observe_ne_of_head? ?_⟩
  have hone : operation (receive [passwordOperation]) = .password ⟨[], List.not_mem_nil⟩ :=
    operation_of_password List.not_mem_nil
  have htwo : operation (receive [passwordOperation, b']) = .password ⟨[b'], hb'⟩ :=
    operation_of_password hb'
  rw [head?_serveChunks (r := .passwordIncorrect) (by
      rw [hone]
      simp [replyAfter, findNode, NameBuf.read, Account.answer]),
    head?_serveChunks (r := .passwordSuccess) (by
      rw [htwo]
      simp [replyAfter, findNode, NameBuf.read, Account.answer])]
  simp

theorem length_serveChunks_logout {name : CString} (hname : findNode db name ≠ none)
    (bs : List UInt8) (hne : ∀ chunk ∈ chunks, chunk ≠ []) :
    (serveChunks (fun _ => name) .unwritten db ((logoutOperation :: bs) :: chunks)).1.length =
      answered chunks + 1 := by
  have hname' : findNode (db.map (Account.reset name)) name ≠ none := by
    rw [findNode_map (Account.reset_username name)]
    simpa using hname
  rw [serveChunks_of_logout]
  exact congrArg (· + 1) (length_serveChunks_released hname' hne)

/-- An operation code after a logout is answered when it comes in a piece of its own. -/
theorem cutsDiffer_code {b' : UInt8} (h : IsCode b') (bs : List UInt8) :
    CutsDiffer (logoutOperation :: b' :: bs) := by
  obtain ⟨hcut, hcut'⟩ := isCut_front logoutOperation b' bs
  have hname : findNode [⟨.ofAscii "", .ofAscii "", statusDefault, 0⟩] (.ofAscii "") ≠ none := by
    simp [findNode]
  refine ⟨[⟨.ofAscii "", .ofAscii "", statusDefault, 0⟩], fun _ => .ofAscii "",
    fun _ => .ofAscii "", _, _, rfl, hcut, hcut', observe_ne_of_length ?_⟩
  rw [length_serveChunks_logout hname [] (List.forall_mem_cons.mp hcut.nonempty).2,
    length_serveChunks_logout hname [b'] (List.forall_mem_cons.mp hcut'.nonempty).2]
  simp [answered, h]

/-- A name that is not listed changes nothing. -/
theorem accountsAfter_of_ne {name : CString} (h : ∀ a ∈ db, a.username ≠ name) (op : Operation) :
    accountsAfter name db op = db := by
  have hreset : db.map (Account.reset name) = db :=
    (List.map_congr_left fun a ha => Account.reset_of_ne (h a ha)).trans (List.map_id db)
  cases op with
  | username data => rfl
  | password data => exact updateNode_of_none (by simpa [findNode] using h)
  | logout | clientOut => exact hreset

theorem serveChunks_released_of_ne {name : CString} (h : ∀ a ∈ db, a.username ≠ name)
    (chunks : List (List UInt8)) : (serveChunks (fun _ => name) .released db chunks).2 = db := by
  have hread : NameBuf.read name .released = name := rfl
  have hrun : (fun _ => name) ∘ Nat.succ = fun _ => name := rfl
  induction chunks with
  | nil => rfl
  | cons chunk chunks ih =>
    have hbuffer : bufferAfter .released (operation (receive chunk)) = .released := by
      cases operation (receive chunk) <;> rfl
    simp only [serveChunks, hread, accountsAfter_of_ne h, hrun, hbuffer]
    split_ifs
    · exact ih
    · rfl

theorem serveChunks_logout_of_ne {name : CString} (h : ∀ a ∈ db, a.username ≠ name)
    (bs : List UInt8) (chunks : List (List UInt8)) :
    (serveChunks (fun _ => name) .unwritten db ((logoutOperation :: bs) :: chunks)).2 = db := by
  have hlogout : db.map (Account.reset name) = db := accountsAfter_of_ne h .logout
  rw [serveChunks_of_logout]
  exact (congrArg (fun l => (serveChunks _ _ l _).2) hlogout).trans
    (serveChunks_released_of_ne h chunks)

theorem serveChunks_logout_end (h : ¬ IsCode b) (chunks : List (List UInt8)) :
    (serveChunks residue .unwritten db ([logoutOperation] :: [b] :: chunks)).2 =
      (db.map (Account.reset (residue 0))).map (Account.reset (residue 1)) := by
  rw [serveChunks_of_logout, serveChunks_of_not_code h]
  rfl

/-- After a logout the released buffer is read for the end of the connection, unless this came with
the logout in one piece. -/
theorem cutsDiffer_released {b' : UInt8} (h : ¬ IsCode b') (bs : List UInt8) :
    CutsDiffer (logoutOperation :: b' :: bs) := by
  obtain ⟨hcut, hcut'⟩ := isCut_front logoutOperation b' bs
  refine ⟨[⟨.ofAscii "a", .ofAscii "", statusLoggedIn, 0⟩],
    fun n => if n = 0 then .ofAscii "" else .ofAscii "a", fun _ => .ofAscii "", _, _, rfl, hcut,
    hcut', ?_⟩
  rw [observe_eq, observe_eq, serveChunks_logout_end h, serveChunks_logout_of_ne (by decide)]
  intro he
  have hstatus : statusDefault = statusLoggedIn :=
    (Prod.mk.inj (List.cons.inj (Prod.mk.inj he).2).1).1
  exact absurd hstatus (by decide)

theorem cutsDiffer_of_not_indifferent {stream : List UInt8} (hnul : (0 : UInt8) ∉ stream)
    (h : ¬ Indifferent stream) : CutsDiffer stream := by
  unfold Indifferent at h
  simp only [not_or, not_forall, not_not] at h
  obtain ⟨hlen, b, hb, hcode⟩ := h
  cases stream with
  | nil => cases hb
  | cons b₀ bs =>
    obtain rfl : b₀ = b := Option.some.inj hb
    cases bs with
    | nil => exact absurd le_rfl hlen
    | cons b' bs =>
      have hb' : (0 : UInt8) ∉ [b'] := fun hm => hnul (by simp_all)
      rcases hcode with rfl | rfl | rfl
      · exact cutsDiffer_username hb' bs
      · exact cutsDiffer_password hb' bs
      · by_cases hnext : IsCode b'
        · exact cutsDiffer_code hnext bs
        · exact cutsDiffer_released hnext bs

/-- **When segmentation does not matter.** For all account lists, the server treats every cut of
the bytes of the requests like the one into requests, exactly when their stream is indifferent. -/
theorem segmentation_iff {requests : List (List UInt8)}
    (hreq : IsCut buffSize requests.flatten requests) (hnul : (0 : UInt8) ∉ requests.flatten) :
    CutsAlike requests ↔ Indifferent requests.flatten := by
  constructor
  · intro h
    by_contra hind
    obtain ⟨db, residue, residue', chunks, chunks', hres, hcut, hcut', hne⟩ :=
      cutsDiffer_of_not_indifferent hnul hind
    exact hne ((h db residue residue chunks rfl hcut).trans
      (h db residue' residue chunks' hres.symm hcut').symm)
  · exact fun h db residue residue' chunks hres hcut => observe_eq_of_indifferent h hres hcut hreq

/-- A logout that nothing follows arrives in one piece. -/
theorem segmentation_logout :
    IsCut buffSize [ascii "3"].flatten [ascii "3"] ∧ (0 : UInt8) ∉ [ascii "3"].flatten ∧
      CutsAlike [ascii "3"] := by
  have hcut : IsCut buffSize [ascii "3"].flatten [ascii "3"] := ⟨rfl, by decide, by decide⟩
  have hnul : (0 : UInt8) ∉ [ascii "3"].flatten := by decide
  exact ⟨hcut, hnul, (segmentation_iff hcut hnul).mpr (Or.inl (by decide))⟩

/-- Username and password in one piece are taken for one username. -/
theorem merged_requests : ¬ CutsAlike [ascii "1alice", ascii "2secret"] := by
  intro h
  have hcut : IsCut buffSize [ascii "1alice", ascii "2secret"].flatten [ascii "1alice2secret"] :=
    ⟨by decide, by decide, by decide⟩
  have hsame := h [alice] (fun _ => .ofAscii "") (fun _ => .ofAscii "") _ rfl hcut
  revert hsame
  decide

end OnlineCaro
