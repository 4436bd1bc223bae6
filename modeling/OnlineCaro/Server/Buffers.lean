import OnlineCaro.Server.Lockout

/-!
# The response and the data of a request

For each request the thread allocates a response buffer, which a handler writes and `send` reads,
and `processRequest` allocates a data buffer, which `getData` writes.

* `responseBuffer`: the response buffer when `send` reads it.
* **`sends_code_iff`**: every answer is a reply code exactly when every password request is made
  under a listed name.
* `sentCells`: what `send` is handed. The length is still that of the request.
* **`sent_reply_iff`**: two requests with the same answer are sent the whole code, and nothing
  else, exactly when they have the same length, `2` or `3`.
* **`decodes_in_range_iff`**: `getData` stays in its buffer exactly when the request has at most
  one character.
-/

namespace OnlineCaro

open CMem StepRun

variable {ι : Type} [DecidableEq ι]

/-! ## The response buffer -/

/-- `RESPONSE_SIZE` -/
def responseSize : ℕ := 3

/-- The response buffer after the handler has copied the code of its reply, if it has one. -/
def responseBuffer : Option Reply → Option Block
  | none => some (malloc responseSize)
  | some r => (malloc responseSize).strcpy (CString.ofAscii r.code)

theorem responseBuffer_some (r : Reply) :
    responseBuffer (some r) = some ((ascii r.code).map some ++ [some 0]) := by
  cases r <;> rfl

theorem text_responseBuffer {response : Option Reply} :
    (∃ r : Reply, (responseBuffer response).bind Block.text = some (ascii r.code)) ↔
      response ≠ none := by
  cases response with
  | none =>
    refine iff_of_false ?_ fun h => h rfl
    rintro ⟨r, hr⟩
    cases hr
  | some r =>
    refine iff_of_true ⟨r, ?_⟩ (Option.some_ne_none r)
    cases r <;> rfl

/-- The thread goes on after all but an unknown operation, and then sends what the handler
wrote. -/
theorem step_outcome {σ : Server ι} {s : ι} (msg : List UInt8) (residue : CString)
    (hl : (σ.session s).live = true) :
    ∃ o, (step σ (.recv s msg residue)).2 = some o ∧
      o.processStatus = liveAfter (operation (receive msg)) ∧
      (o.processStatus = true →
        o.response = replyAfter (σ.nameOf s residue) σ.accountDB (operation (receive msg))) := by
  have hreply : (step σ (.recv s msg residue)).2.bind Outcome.sent = _ := step_reply hl
  have hstep : ∃ o, (step σ (.recv s msg residue)).2 = some o ∧
      o.processStatus = liveAfter (operation (receive msg)) := by
    simp only [step, if_pos hl, processRequest_eq]
    cases operation (receive msg) <;> exact ⟨_, rfl, rfl⟩
  obtain ⟨o, ho, hlive⟩ := hstep
  refine ⟨o, ho, hlive, fun h => ?_⟩
  rw [ho, Option.bind_some, Outcome.sent, if_pos h] at hreply
  exact hreply

/-- If the thread goes on to `send`, the response buffer holds one of the reply codes. -/
def SendsCode (c : Config ι) (e : Event ι) : Prop :=
  ∀ o ∈ (step c.state e).2, o.processStatus = true →
    ∃ r : Reply, (responseBuffer o.response).bind Block.text = some (ascii r.code)

/-- If the event is a password request, its session has the name of a listed account. -/
def FindsAccount (c : Config ι) (e : Event ι) : Prop :=
  Handled (fun _ name op => ∀ data, op = .password data →
    findNode c.state.accountDB name ≠ none) c.state e

theorem sendsCode_iff (c : Config ι) (e : Event ι) : SendsCode c e ↔ FindsAccount c e := by
  cases e with
  | lost s => exact iff_of_true (fun o ho => by cases ho) trivial
  | recv s msg residue =>
    cases hl : (c.state.session s).live with
    | false =>
      refine iff_of_true (fun o ho => ?_) fun h => absurd h (Bool.eq_false_iff.mp hl)
      rw [step_recv_dead hl] at ho
      cases ho
    | true =>
      obtain ⟨o, ho, hlive, hresp⟩ := step_outcome msg residue hl
      have hsends : SendsCode c (.recv s msg residue) ↔
          (liveAfter (operation (receive msg)) = true →
            replyAfter (c.state.nameOf s residue) c.state.accountDB (operation (receive msg)) ≠
              none) := by
        unfold SendsCode
        rw [ho, ← hlive]
        constructor
        · intro h hgo
          rw [← hresp hgo]
          exact text_responseBuffer.mp (h o rfl hgo)
        · rintro h o' ho' hgo
          obtain rfl := Option.some.inj ho'
          exact text_responseBuffer.mpr (by rw [hresp hgo]; exact h hgo)
      have hfinds : FindsAccount c (.recv s msg residue) ↔
          ∀ data, operation (receive msg) = .password data →
            findNode c.state.accountDB (c.state.nameOf s residue) ≠ none :=
        ⟨fun h => h hl, fun h _ => h⟩
      rw [hsends, hfinds]
      cases operation (receive msg) with
      | username data => simp [replyAfter]
      | password data => simp [replyAfter, liveAfter]
      | logout => simp [replyAfter]
      | clientOut => simp [liveAfter]

/-- **When every answer is a code.** -/
theorem sends_code_iff (db : List Account) (es : List (Event ι)) :
    Always step SendsCode (serve db) es ↔ Always step FindsAccount (serve db) es :=
  always_congr sendsCode_iff (serve db) es

/-- The password of a name that is not listed is answered with an unwritten buffer. -/
theorem unwritten_response : ¬ Always step SendsCode (serve [alice])
    (requests 0 ["1bob", "2x"]) := by
  rintro ⟨-, h, -⟩
  obtain ⟨r, hr⟩ := h _ rfl rfl
  cases hr

/-! ## What is sent -/

/-- The cells that `send(connSock, response, ret, 0)` reads; `none` is a cell beyond the buffer. -/
def handed (response : Block) (ret : ℕ) : List (Option (Option UInt8)) :=
  (List.range ret).map fun i => response[i]?

/-- The cells that are handed to `send` after an event: `ret` is what `recv` has returned. -/
def sentCells (σ : Server ι) (e : Event ι) : Option (List (Option (Option UInt8))) :=
  match e, (step σ e).2 with
  | .recv _ msg _, some o =>
    if o.processStatus then (responseBuffer o.response).map (handed · msg.length) else none
  | _, _ => none

/-- All of the code of `r` is sent, and no cell from beyond the response buffer. -/
def SendsWhole (r : Reply) (cells : Option (List (Option (Option UInt8)))) : Prop :=
  ∃ sent, cells = some sent ∧ (ascii r.code).map (fun b => some (some b)) <+: sent ∧ none ∉ sent

@[simp] theorem length_handed (response : Block) (ret : ℕ) :
    (handed response ret).length = ret := by
  simp [handed]

theorem handed_eq (response : Block) (ret : ℕ) : handed response ret =
    (response.map some).take ret ++ List.replicate (ret - response.length) none := by
  have hlen : (handed response ret).length =
      ((response.map some).take ret ++ List.replicate (ret - response.length) none).length := by
    rw [length_handed, List.length_append, List.length_take, List.length_map,
      List.length_replicate]
    omega
  refine List.ext_getElem hlen fun i h₁ h₂ => ?_
  have hi : i < ret := by simpa using h₁
  rw [List.getElem_append]
  split_ifs with hb
  · have hm : i < response.length := by simp at hb; omega
    simp [handed, hm]
  · have hm : response.length ≤ i := by simp at hb; omega
    simp [handed, hm]

theorem none_notMem_handed (response : Block) (ret : ℕ) :
    none ∉ handed response ret ↔ ret ≤ response.length := by
  rw [handed_eq, List.mem_append, not_or, List.mem_replicate]
  constructor
  · rintro ⟨-, h⟩
    by_contra hlt
    exact h ⟨by omega, rfl⟩
  · refine fun h => ⟨fun hm => ?_, fun ⟨hne, _⟩ => hne (by omega)⟩
    simpa using List.mem_of_mem_take hm

theorem prefix_handed (code : List UInt8) (rest : Block) (ret : ℕ) :
    code.map (fun b => some (some b)) <+: handed (code.map some ++ rest) ret ↔
      code.length ≤ ret := by
  constructor
  · intro h
    simpa using h.length_le
  · intro h
    rw [handed_eq, List.map_append, List.map_map, List.take_append, List.take_of_length_le
      (by simpa using h), List.append_assoc]
    exact List.prefix_append _ _

theorem length_code (r : Reply) : (ascii r.code).length = 2 := by cases r <;> rfl

theorem sendsWhole_iff {r : Reply} {ret : ℕ} :
    SendsWhole r (some (handed ((ascii r.code).map some ++ [some 0]) ret)) ↔
      2 ≤ ret ∧ ret ≤ responseSize := by
  have hlen : ((ascii r.code).map some ++ [some 0] : Block).length = responseSize := by
    simp [length_code, responseSize]
  have hpre := prefix_handed (ascii r.code) [some 0] ret
  have hin := none_notMem_handed ((ascii r.code).map some ++ [some 0]) ret
  rw [length_code] at hpre
  rw [hlen] at hin
  constructor
  · rintro ⟨sent, hs, hcode, hnone⟩
    obtain rfl := Option.some.inj hs
    exact ⟨hpre.mp hcode, hin.mp hnone⟩
  · rintro ⟨h₁, h₂⟩
    exact ⟨_, rfl, hpre.mpr h₁, hin.mpr h₂⟩

/-- A reply is handed over as the code in its buffer, cut to the length of the request. -/
theorem sentCells_of_answers {σ : Server ι} {s : ι} {msg : List UInt8} {residue : CString}
    {r : Reply} (h : Answers (record step σ (.recv s msg residue)) s r) :
    sentCells σ (.recv s msg residue) =
      some (handed ((ascii r.code).map some ++ [some 0]) msg.length) := by
  obtain ⟨-, h⟩ := h
  obtain ⟨o, ho, hsent⟩ := Option.bind_eq_some_iff.mp h
  have ho' : (step σ (.recv s msg residue)).2 = some o := ho
  unfold Outcome.sent at hsent
  split_ifs at hsent with hgo
  simp only [sentCells, ho', if_pos hgo, hsent, responseBuffer_some, Option.map_some]

/-- **When the reply is what is sent.** Two requests that are answered with the same code are sent
the whole code, nothing from beyond the response buffer, and the same bytes, exactly when they have
the same length and this is `2` or `3`. -/
theorem sent_reply_iff {σ σ' : Server ι} {s s' : ι} {msg msg' : List UInt8}
    {residue residue' : CString} {r : Reply}
    (h : Answers (record step σ (.recv s msg residue)) s r)
    (h' : Answers (record step σ' (.recv s' msg' residue')) s' r) :
    (SendsWhole r (sentCells σ (.recv s msg residue)) ∧
        SendsWhole r (sentCells σ' (.recv s' msg' residue')) ∧
        sentCells σ (.recv s msg residue) = sentCells σ' (.recv s' msg' residue')) ↔
      msg.length = msg'.length ∧ 2 ≤ msg.length ∧ msg.length ≤ responseSize := by
  rw [sentCells_of_answers h, sentCells_of_answers h', sendsWhole_iff, sendsWhole_iff]
  constructor
  · rintro ⟨hin, -, hsame⟩
    have hlen := congrArg List.length (Option.some.inj hsame)
    exact ⟨by simpa using hlen, hin⟩
  · rintro ⟨hlen, hin⟩
    rw [← hlen]
    exact ⟨hin, hin, rfl⟩

/-- The names `"al"` and `"bo"` are refused alike. -/
theorem sent_reply_refused :
    Answers (record step (boot [alice]) (.recv 0 (ascii "1al") (CString.ofAscii "")))
        0 .usernameNotFound ∧
      Answers (record step (boot [alice]) (.recv 1 (ascii "1bo") (CString.ofAscii "")))
        1 .usernameNotFound ∧
      SendsWhole .usernameNotFound
        (sentCells (boot [alice]) (.recv 0 (ascii "1al") (CString.ofAscii ""))) ∧
      SendsWhole .usernameNotFound
        (sentCells (boot [alice]) (.recv 1 (ascii "1bo") (CString.ofAscii ""))) ∧
      sentCells (boot [alice]) (.recv 0 (ascii "1al") (CString.ofAscii "")) =
        sentCells (boot [alice]) (.recv 1 (ascii "1bo") (CString.ofAscii "")) := by
  have h : Answers (record step (boot [alice]) (.recv 0 (ascii "1al") (CString.ofAscii "")))
      0 .usernameNotFound := ⟨rfl, rfl⟩
  have h' : Answers (record step (boot [alice]) (.recv 1 (ascii "1bo") (CString.ofAscii "")))
      1 .usernameNotFound := ⟨rfl, rfl⟩
  exact ⟨h, h', (sent_reply_iff h h').mpr ⟨rfl, by decide, by decide⟩⟩

/-- Three cells from beyond the buffer follow the reply to `"1alice"`, and of the reply to `"3"`
only the first character is sent. -/
theorem sent_beyond_and_cut :
    ¬ SendsWhole .usernameSuccess
        (sentCells (boot [alice]) (.recv 0 (ascii "1alice") (CString.ofAscii ""))) ∧
      ¬ SendsWhole .logoutSuccess (sentCells
        (run step (serve [alice]) (requests 0 ["1alice", "2secret"])).state
        (.recv 0 (ascii "3") (CString.ofAscii ""))) := by
  constructor
  · rintro ⟨sent, hs, -, hin⟩
    obtain rfl := Option.some.inj hs
    revert hin
    decide
  · rintro ⟨sent, hs, hcode, -⟩
    obtain rfl := Option.some.inj hs
    have hlen := hcode.length_le
    revert hlen
    decide

/-! ## The data buffer -/

/-- `processRequest` allocates `sizeof(char)` bytes for the data. -/
def dataSize : ℕ := 1

/-- `getData` stays in the data buffer and leaves the tail of the request there, if the operation
has data. -/
def DecodesInRange (request : CString) : Prop :=
  ∃ data, getData request (malloc dataSize) = some data ∧
    (getOperationCode request = usernameOperation ∨
        getOperationCode request = passwordOperation →
      Block.text data = some request.bytes.tail)

/-- **When decoding stays in its buffer.** -/
theorem decodes_in_range_iff (request : CString) :
    DecodesInRange request ↔ request.strlen ≤ 1 := by
  constructor
  · rintro ⟨data, hdata, -⟩
    by_contra hlong
    have hout := Block.overflow_malloc (fun i => request.byteAt (i + 1))
      (show dataSize < request.strlen from Nat.not_le.mp hlong)
    rw [getData, hout] at hdata
    cases hdata
  · intro hshort
    obtain ⟨bytes, hnul⟩ := request
    cases bytes with
    | nil =>
      refine ⟨[none], rfl, fun h => ?_⟩
      rcases h with h | h <;> exact absurd h (by simp [getOperationCode, CString.byteAt,
        usernameOperation, passwordOperation])
    | cons b bs =>
      cases bs with
      | nil => exact ⟨[some 0], rfl, fun _ => rfl⟩
      | cons b' bs => exact absurd hshort (by simp [CString.strlen])

theorem data_overflow : ¬ DecodesInRange (CString.ofAscii "1a") := by
  rintro ⟨data, hdata, -⟩
  cases hdata

end OnlineCaro
