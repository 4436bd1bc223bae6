import OnlineCaro.Server.Loader
import OnlineCaro.Server.Segmentation

/-!
# Receiving a request

`recv` is given all `BUFF_SIZE` bytes of `buff`, and the terminator is written behind what it
returns. The data of a username request are then copied to the `DATA_MAX_SIZE` bytes of the
session's name.

* `received`, `text_received`: the buffer with its terminator, and the request it reads as.
* `FitsBuffers`: both writes are in range.
* **`fits_buffers_iff`**: they are for fewer than `BUFF_SIZE` bytes, unless they are a username
  request with a name too long.
-/

namespace OnlineCaro

open CMem

/-- `buff` after `recv` has put `msg` there, and `buff[ret] = 0`. -/
def received (buff : Block) (msg : List UInt8) : Option Block :=
  (buff.overwrite msg).store msg.length 0

theorem received_of_lt {buff : Block} {msg : List UInt8} (h : msg.length < buff.length) :
    received buff msg = some (buff.overwrite (msg ++ [0])) := Block.store_overwrite h 0

theorem length_lt_of_received {buff full : Block} {msg : List UInt8}
    (h : received buff msg = some full) : msg.length < buff.length := by
  rw [received, Block.store] at h
  split_ifs at h with hin
  rw [Block.overwrite, List.length_append, List.length_map, List.length_drop] at hin
  omega

theorem text_received {buff full : Block} {msg : List UInt8} (h : received buff msg = some full) :
    full.text = some (receive msg).bytes := by
  rw [received_of_lt (length_lt_of_received h)] at h
  obtain rfl := Option.some.inj h
  rw [Block.overwrite, List.map_append, List.append_assoc]
  exact Block.text_terminated msg _

/-- Whatever the buffers held before, the terminator falls inside `buff`, and the name that a
username request carries fits into `state`. -/
def FitsBuffers (msg : List UInt8) : Prop :=
  ∀ buff state : Block, buff.length = buffSize → state.length = dataMaxSize →
    ∃ full, received buff msg = some full ∧ ∀ request data : CString,
      full.text = some request.bytes → operation request = .username data →
        state.strcpy data ≠ none

theorem bytes_receive_cons {b : UInt8} (hb : b ≠ 0) (bs : List UInt8) :
    (receive (b :: bs)).bytes = b :: bs.takeWhile (· ≠ 0) := by
  show (b :: bs).takeWhile (· ≠ 0) = _
  rw [List.takeWhile_cons_of_pos (by simpa using hb)]

/-- The data of a username request are what stands between its code and the first NUL. -/
theorem operation_eq_username {msg : List UInt8} {data : CString} :
    operation (receive msg) = .username data ↔
      msg.head? = some usernameOperation ∧ data.bytes = msg.tail.takeWhile (· ≠ 0) := by
  constructor
  · intro h
    have hbytes := bytes_of_operation_username h
    cases msg with
    | nil => cases hbytes
    | cons b bs =>
      have hb : b ≠ 0 := by
        rintro rfl
        cases hbytes
      rw [bytes_receive_cons hb] at hbytes
      obtain ⟨rfl, hdata⟩ := List.cons.inj hbytes
      exact ⟨rfl, hdata.symm⟩
  · rintro ⟨hhead, hdata⟩
    obtain ⟨bs, rfl⟩ : ∃ bs, msg = usernameOperation :: bs := ⟨_, List.eq_cons_of_mem_head? hhead⟩
    unfold operation
    rw [getOperationCode_receive, if_pos rfl]
    refine congrArg _ (CString.ext ?_)
    rw [requestData_bytes, bytes_receive_cons (by decide), hdata]
    rfl

theorem FitsBuffers.fresh {msg : List UInt8} (h : FitsBuffers msg) :
    msg.length < buffSize ∧
      ∀ data, operation (receive msg) = .username data → data.strlen < dataMaxSize := by
  obtain ⟨full, hfull, hname⟩ := h (malloc buffSize) (malloc dataMaxSize) List.length_replicate
    List.length_replicate
  have hlt := length_lt_of_received hfull
  rw [malloc, List.length_replicate] at hlt
  refine ⟨hlt, fun data hop => ?_⟩
  have hcopy := Block.strcpy_ne_none.mp (hname _ data (text_received hfull) hop)
  rwa [malloc, List.length_replicate] at hcopy

/-- **When a request fits.** -/
theorem fits_buffers_iff (msg : List UInt8) :
    FitsBuffers msg ↔ msg.length < buffSize ∧ (msg.head? = some usernameOperation →
      (msg.tail.takeWhile (· ≠ 0)).length < dataMaxSize) := by
  constructor
  · intro h
    obtain ⟨hlt, hname⟩ := h.fresh
    exact ⟨hlt, fun hhead => hname (.ofBytes msg.tail) (operation_eq_username.mpr ⟨hhead, rfl⟩)⟩
  · rintro ⟨hlt, hname⟩ buff state hbuff hstate
    refine ⟨_, received_of_lt (hbuff ▸ hlt), fun request data htext hop => ?_⟩
    have hsame := htext.symm.trans (text_received (received_of_lt (hbuff ▸ hlt)))
    have hrequest : request = receive msg := CString.ext (Option.some.inj hsame)
    obtain ⟨hhead, hdata⟩ := operation_eq_username.mp (hrequest ▸ hop)
    rw [Block.strcpy_ne_none, hstate, CString.strlen, hdata]
    exact hname hhead

/-- A full buffer has no room for the terminator, and a name of `DATA_MAX_SIZE` characters has none
for its own. -/
theorem full_buffer_and_long_name :
    ¬ FitsBuffers (List.replicate buffSize usernameOperation) ∧
      ¬ FitsBuffers (usernameOperation :: List.replicate dataMaxSize 97) := by
  constructor
  · intro h
    have hlt := h.fresh.1
    rw [List.length_replicate] at hlt
    exact Nat.lt_irrefl _ hlt
  · intro h
    have hnul : (0 : UInt8) ∉ List.replicate dataMaxSize 97 := by
      rw [List.mem_replicate]
      rintro ⟨-, h⟩
      exact absurd h (by decide)
    have hlen := h.fresh.2 _ (operation_of_username hnul)
    rw [CString.strlen, List.length_replicate] at hlen
    exact Nat.lt_irrefl _ hlen

end OnlineCaro
