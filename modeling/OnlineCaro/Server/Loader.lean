import OnlineCaro.Server.Model
import OnlineCaro.Lib.TextFile

/-!
# Loading the accounts

`writeAccountsToBuffer` reads `account.txt` line by line and appends an account for each line to
the list `accountDB`. Here the list lives in a heap of cells that `malloc` leaves unwritten, and
what C gives no meaning to is a `LoadFault` that ends the run.

* `storeTokens`, `convertRecordToEntity`: one line, with a token array of `slots` cells.
* `storeRecord`, `loadRecords`, `writeAccountsToBuffer`: the loop over the lines and its pointers.
* `IsList`: the list that `printBuffer` and the handlers walk.
* **`loader_unsafe`**: with the array of the source no file at all is loaded safely.
-/

namespace OnlineCaro

open CMem

/-! ## One record -/

/-- A step of the loader that C gives no meaning to. -/
inductive LoadFault
  | slotOutOfRange
  | unwrittenSlot
  | nullToken
  | fieldOverflow
  | fgetsOnNull
  deriving DecidableEq

/-- `FIELD_NUMBER` -/
def fieldNumber : ℕ := 3

/-- `DATA_MAX_SIZE` -/
def dataMaxSize : ℕ := 1024

/-- `" "` -/
def delimiter : List UInt8 := [32]

/-- The token array `buffer`: a cell holds nothing yet, `NULL`, or a token. -/
abbrev TokenArray := List (Option (Option CString))

namespace TokenArray

/-- `buffer[index] = token` -/
def store (buffer : TokenArray) (index : ℕ) (token : Option CString) :
    Except LoadFault TokenArray :=
  if index < buffer.length then .ok (buffer.set index (some token)) else .error .slotOutOfRange

/-- `buffer[index]`, used as a string. -/
def string (buffer : TokenArray) (index : ℕ) : Except LoadFault CString :=
  match buffer[index]? with
  | none => .error .slotOutOfRange
  | some none => .error .unwrittenSlot
  | some (some none) => .error .nullToken
  | some (some (some token)) => .ok token

end TokenArray

/-- The loop of `convertRecordToEntity`: what `strtok` returns goes to the next cell, the `NULL` at
the end included. -/
def storeTokens (buffer : TokenArray) (index : ℕ) (s : CString) : Except LoadFault TokenArray :=
  match h : strtok delimiter s with
  | none => buffer.store index none
  | some (token, rest) => do
    let buffer ← buffer.store index (some token)
    storeTokens buffer (index + 1) rest
termination_by s.bytes.length
decreasing_by exact strtok_rest_lt h

/-- A node of the list; `none` is a field that was never written. -/
structure AccountCell where
  username : Option Block
  password : Option Block
  status : Option Int32
  next : Option (Option ℕ)
  counter : Option Int32

/-- `malloc(sizeof(Account))` -/
def AccountCell.fresh : AccountCell := ⟨none, none, none, none, none⟩

/-- A fresh block of `DATA_MAX_SIZE` bytes with a copy of the token. -/
def copyField (token : CString) : Except LoadFault Block :=
  match (malloc dataMaxSize).strcpy token with
  | none => .error .fieldOverflow
  | some block => .ok block

def convertRecordToEntity (slots : ℕ) (record : CString) (account : AccountCell) :
    Except LoadFault AccountCell := do
  let buffer ← storeTokens (List.replicate slots none) 0 record
  let username ← copyField (← buffer.string 0)
  let password ← copyField (← buffer.string 1)
  let digit ← buffer.string 2
  return { account with
    username := some username
    password := some password
    status := some ((digit.byteAt 0).toInt8.toInt32 - 48)
    next := some none
    counter := some 0 }

/-! ## The loop over the lines -/

/-- The nodes in the order of their `malloc`; an address is an index. -/
abbrev Heap := List AccountCell

/-- The variables of `writeAccountsToBuffer`. -/
structure LoadState where
  heap : Heap
  accountDB : ℕ
  node : ℕ
  isFirstRecord : Bool

/-- The body of the loop: a node for the record, and the pointers set to it. -/
def storeRecord (slots : ℕ) (record : CString) (s : LoadState) : Except LoadFault LoadState := do
  let account := s.heap.length
  let heap := s.heap ++ [← convertRecordToEntity slots record .fresh]
  if s.isFirstRecord then
    return { heap, accountDB := account, node := account, isFirstRecord := false }
  else
    let heap := heap.modify s.node fun cell => { cell with next := some (some account) }
    return { s with heap, node := account }

/-- `MAX_RECORD_LENGTH` -/
def maxRecordLength : ℕ := 1024

/-- `while (fgets(record, MAX_RECORD_LENGTH, file) != NULL)`, on what is left of the stream. -/
def loadRecords (slots : ℕ) (file : List UInt8) (s : LoadState) : Except LoadFault LoadState :=
  match _ : fgets maxRecordLength file with
  | none => .ok s
  | some (record, rest) => do
    let s ← storeRecord slots (.ofBytes record) s
    loadRecords slots rest s
termination_by file.length
decreasing_by
  have hbuffer : 1 < maxRecordLength := by decide
  exact fgets_rest_lt hbuffer ‹_›

/-- The two nodes allocated before the file is opened: `accountDB` and `node`. -/
def LoadState.initial : LoadState := ⟨[.fresh, .fresh], 0, 1, true⟩

/-- The bytes of `account.txt`; `none` if it cannot be opened, and then `fgets` gets `NULL`. -/
def writeAccountsToBuffer (slots : ℕ) : Option (List UInt8) → Except LoadFault LoadState
  | none => .error .fgetsOnNull
  | some file => loadRecords slots (textMode file) .initial

/-! ## The list in the heap -/

/-- A node with all its fields written. -/
structure AccountCell.Holds (cell : AccountCell) (account : Account) : Prop where
  username : cell.username.bind Block.text = some account.username.bytes
  password : cell.password.bind Block.text = some account.password.bytes
  status : cell.status = some account.status
  counter : cell.counter = some account.counter

/-- The accounts from the pointer `p` along `next` to `NULL`. -/
def IsList (heap : Heap) : Option ℕ → List Account → Prop
  | p, [] => p = none
  | p, account :: accounts => ∃ node cell next, p = some node ∧ heap[node]? = some cell ∧
      cell.Holds account ∧ cell.next = some next ∧ IsList heap next accounts

theorem AccountCell.Holds.unique {cell : AccountCell} {a b : Account} (ha : cell.Holds a)
    (hb : cell.Holds b) : a = b := by
  have hname := CString.ext (Option.some.inj (ha.username.symm.trans hb.username))
  have hpass := CString.ext (Option.some.inj (ha.password.symm.trans hb.password))
  have hstatus := Option.some.inj (ha.status.symm.trans hb.status)
  have hcounter := Option.some.inj (ha.counter.symm.trans hb.counter)
  cases a
  cases b
  congr

theorem IsList.unique {heap : Heap} {p : Option ℕ} {as bs : List Account} (ha : IsList heap p as)
    (hb : IsList heap p bs) : as = bs := by
  induction as generalizing p bs with
  | nil =>
    cases bs with
    | nil => rfl
    | cons b bs =>
      obtain ⟨node, cell, next, hp, -⟩ := hb
      exact nomatch ha.symm.trans hp
  | cons a as ih =>
    obtain ⟨node, cell, next, hp, hcell, ha, hnext, has⟩ := ha
    cases bs with
    | nil => exact nomatch hp.symm.trans hb
    | cons b bs =>
      obtain ⟨node', cell', next', hp', hcell', hb, hnext', hbs⟩ := hb
      obtain rfl := Option.some.inj (hp.symm.trans hp')
      obtain rfl := Option.some.inj (hcell.symm.trans hcell')
      obtain rfl := Option.some.inj (hnext.symm.trans hnext')
      rw [ha.unique hb, ih has hbs]

/-! ## Safety -/

/-- The loader ends without a fault, and `accountDB` is the head of a list of written accounts. -/
def LoadsSafely (slots : ℕ) (file : Option (List UInt8)) : Prop :=
  ∃ s accounts, writeAccountsToBuffer slots file = .ok s ∧ IsList s.heap (some s.accountDB) accounts

theorem TokenArray.store_ok {buffer buffer' : TokenArray} {index : ℕ} {token : Option CString}
    (h : buffer.store index token = .ok buffer') :
    index < buffer.length ∧ buffer' = buffer.set index (some token) := by
  rw [store] at h
  split at h
  · next hindex => exact ⟨hindex, (Except.ok.inj h).symm⟩
  · cases h

theorem storeTokens_none {buffer : TokenArray} {index : ℕ} {s : CString}
    (h : strtok delimiter s = none) : storeTokens buffer index s = buffer.store index none := by
  rw [storeTokens]
  split
  · rfl
  · next hs => exact nomatch h.symm.trans hs

theorem storeTokens_some {buffer : TokenArray} {index : ℕ} {s token rest : CString}
    (h : strtok delimiter s = some (token, rest)) :
    storeTokens buffer index s =
      (buffer.store index (some token)).bind fun buffer => storeTokens buffer (index + 1) rest := by
  rw [storeTokens]
  split
  · next hs => exact nomatch h.symm.trans hs
  · next hs =>
    obtain ⟨rfl, rfl⟩ := Prod.mk.inj (Option.some.inj (h.symm.trans hs))
    rfl

/-- The end marker needs a cell of its own: behind the written cells of an array, the last one
never gets a token. -/
theorem storeTokens_last {buffer buffer' : TokenArray} {index : ℕ} {s : CString}
    (h : storeTokens buffer index s = .ok buffer')
    (hfresh : ∀ j, index ≤ j → j < buffer.length → buffer[j]? = some none) :
    ∃ fault, buffer'.string (buffer.length - 1) = .error fault := by
  induction buffer, index, s using storeTokens.induct with
  | case1 buffer index s hs =>
    rw [storeTokens_none hs] at h
    obtain ⟨hindex, rfl⟩ := TokenArray.store_ok h
    rcases Nat.lt_or_eq_of_le (Nat.le_sub_one_of_lt hindex) with hlt | rfl
    · have hlast := hfresh (buffer.length - 1) hlt.le (by omega)
      refine ⟨.unwrittenSlot, ?_⟩
      rw [TokenArray.string, List.getElem?_set_ne hlt.ne, hlast]
    · refine ⟨.nullToken, ?_⟩
      rw [TokenArray.string, List.getElem?_set_self hindex]
  | case2 buffer index s token rest hs ih =>
    rw [storeTokens_some hs] at h
    cases hstore : buffer.store index (some token) with
    | error fault =>
      rw [hstore] at h
      cases h
    | ok stored =>
      rw [hstore] at h
      obtain ⟨-, rfl⟩ := TokenArray.store_ok hstore
      have hlast := ih _ h fun j hj hlen => by
        rw [List.getElem?_set_ne (by omega)]
        exact hfresh j (by omega) (by simpa using hlen)
      rwa [List.length_set] at hlast

/-- A record of three fields or more: the third is followed by something to store, another token or
the end marker. -/
theorem storeTokens_three {s s₁ s₂ s₃ username password status : CString}
    (h₁ : strtok delimiter s = some (username, s₁))
    (h₂ : strtok delimiter s₁ = some (password, s₂))
    (h₃ : strtok delimiter s₂ = some (status, s₃)) :
    storeTokens (List.replicate fieldNumber none) 0 s = .error .slotOutOfRange := by
  rw [storeTokens_some h₁]
  show storeTokens [some (some username), none, none] 1 s₁ = _
  rw [storeTokens_some h₂]
  show storeTokens [some (some username), some (some password), none] 2 s₂ = _
  rw [storeTokens_some h₃]
  show storeTokens [some (some username), some (some password), some (some status)] 3 s₃ = _
  cases h : strtok delimiter s₃ with
  | none =>
    rw [storeTokens_none h]
    rfl
  | some fourth =>
    rw [storeTokens_some h]
    rfl

theorem exists_error_bind {ε α β : Type} {x : Except ε α} {f : α → Except ε β}
    (h : ∀ a, x = .ok a → ∃ e, f a = .error e) : ∃ e, (x >>= f) = .error e := by
  cases x with
  | error e => exact ⟨e, rfl⟩
  | ok a => exact h a rfl

theorem convertRecordToEntity_fails (record : CString) (account : AccountCell) :
    ∃ fault, convertRecordToEntity fieldNumber record account = .error fault := by
  refine exists_error_bind fun buffer hbuffer => ?_
  obtain ⟨fault, hthird⟩ : ∃ fault, buffer.string 2 = .error fault :=
    storeTokens_last hbuffer fun j _ hj => List.getElem?_replicate_of_lt (by simpa using hj)
  refine exists_error_bind fun username _ => exists_error_bind fun _ _ => ?_
  refine exists_error_bind fun password _ => exists_error_bind fun _ _ => ?_
  rw [hthird]
  exact ⟨fault, rfl⟩

theorem loadRecords_end {slots : ℕ} {file : List UInt8} (h : fgets maxRecordLength file = none)
    (s : LoadState) : loadRecords slots file s = .ok s := by
  rw [loadRecords]
  split
  · rfl
  · next hf => exact nomatch h.symm.trans hf

theorem loadRecords_line {slots : ℕ} {file record rest : List UInt8}
    (h : fgets maxRecordLength file = some (record, rest)) (s : LoadState) :
    loadRecords slots file s =
      (storeRecord slots (.ofBytes record) s).bind fun s => loadRecords slots rest s := by
  rw [loadRecords]
  split
  · next hf => exact nomatch h.symm.trans hf
  · next hf =>
    obtain ⟨rfl, rfl⟩ := Prod.mk.inj (Option.some.inj (h.symm.trans hf))
    rfl

/-- Without a record the head stays a node that nothing was written to. -/
theorem not_isList_initial (accounts : List Account) :
    ¬ IsList LoadState.initial.heap (some LoadState.initial.accountDB) accounts := by
  intro h
  cases accounts with
  | nil => cases h
  | cons account accounts =>
    obtain ⟨node, cell, next, hp, hcell, -, hnext, -⟩ := h
    obtain rfl := Option.some.inj hp
    obtain rfl := Option.some.inj hcell
    cases hnext

/-- **No file is loaded safely.** A missing file is read through `NULL`, an empty one leaves
`accountDB` unwritten, and the first record of any other goes past the token array or takes `NULL`
for a field. -/
theorem loader_unsafe (file : Option (List UInt8)) : ¬ LoadsSafely fieldNumber file := by
  rintro ⟨s, accounts, hs, hlist⟩
  cases file with
  | none => cases hs
  | some file =>
    replace hs : loadRecords fieldNumber (textMode file) .initial = .ok s := hs
    cases hf : fgets maxRecordLength (textMode file) with
    | none =>
      rw [loadRecords_end hf] at hs
      obtain rfl := Except.ok.inj hs
      exact not_isList_initial accounts hlist
    | some line =>
      obtain ⟨record, rest⟩ := line
      rw [loadRecords_line hf] at hs
      obtain ⟨fault, hfault⟩ : ∃ fault,
          storeRecord fieldNumber (.ofBytes record) .initial = .error fault :=
        exists_error_bind fun cell hcell => by
          obtain ⟨fault, hfails⟩ := convertRecordToEntity_fails (.ofBytes record) .fresh
          exact nomatch hcell.symm.trans hfails
      rw [hfault] at hs
      cases hs

/-- A file with one well-formed line: the end marker goes past the array. -/
theorem alice_file_unsafe :
    writeAccountsToBuffer fieldNumber (some (ascii "alice secret 0\n")) = .error .slotOutOfRange ∧
      ¬ LoadsSafely fieldNumber (some (ascii "alice secret 0\n")) := by
  have hline : fgets maxRecordLength (textMode (ascii "alice secret 0\n")) =
      some (ascii "alice secret 0\n", []) := by decide +kernel
  have husername : strtok delimiter (.ofAscii "alice secret 0\n") =
      some (.ofAscii "alice", .ofAscii "secret 0\n") := by decide +kernel
  have hpassword : strtok delimiter (.ofAscii "secret 0\n") =
      some (.ofAscii "secret", .ofAscii "0\n") := by decide +kernel
  have hstatus : strtok delimiter (.ofAscii "0\n") = some (.ofAscii "0\n", .ofAscii "") := by
    decide +kernel
  have hload : writeAccountsToBuffer fieldNumber (some (ascii "alice secret 0\n")) =
      .error .slotOutOfRange := by
    rw [writeAccountsToBuffer, loadRecords_line hline, storeRecord, convertRecordToEntity]
    show ((storeTokens (List.replicate fieldNumber none) 0 (.ofAscii "alice secret 0\n") >>= _
      : Except LoadFault AccountCell) >>= _).bind _ = _
    rw [storeTokens_three husername hpassword hstatus]
    rfl
  refine ⟨hload, ?_⟩
  rintro ⟨s, accounts, hs, -⟩
  exact nomatch hload.symm.trans hs

end OnlineCaro
