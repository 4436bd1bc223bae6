import OnlineCaro.Lib.Decimal
import OnlineCaro.Server.AccountFile
import OnlineCaro.Server.Schedules

/-!
# Starting up

`main` loads the accounts, prints them, and then starts a thread for every connection. With the
token array of the source nothing is loaded safely (`loader_unsafe`), so its size is a parameter.

* `records`, `parseRecord`: what the loader makes of any file, without the heap.
* **`loader_iff`**: the loader ends without a fault and with a list exactly when every record of the
  file can be parsed, and then the list is that of the parsed records.
* `printBuffer`: the loop over the list; `printBuffer_list`: it ends after the last account, and
  prints every account. **`listing_shows_accounts`**: two files with one listing load the same.
* **`startup_safe`**: from the file to the threads.
-/

namespace OnlineCaro

open CMem StepRun Threads

/-! ## Records -/

/-- The records that `fgets` delivers, one after the other. -/
def records (file : List UInt8) : List CString :=
  match _ : fgets maxRecordLength file with
  | none => []
  | some (record, rest) => .ofBytes record :: records rest
termination_by file.length
decreasing_by
  have hbuffer : 1 < maxRecordLength := by decide
  exact fgets_rest_lt hbuffer ‹_›

/-- The account of a record: three tokens or more, and in the token array of `slots` cells room for
all of them and the end marker. -/
def parseRecord (slots : ℕ) (record : CString) : Option Account :=
  match tokens delimiter record with
  | username :: password :: digit :: rest =>
    if rest.length + 3 < slots then
      some ⟨username, password, (digit.byteAt 0).toInt8.toInt32 - 48, 0⟩
    else none
  | _ => none

/-- The accounts of a file, if all its records can be parsed. -/
def parseFile (slots : ℕ) (file : List UInt8) : Option (List Account) :=
  (records (textMode file)).mapM (parseRecord slots)

theorem records_end {file : List UInt8} (h : fgets maxRecordLength file = none) :
    records file = [] := by
  rw [records]
  split
  · rfl
  · next hf => exact nomatch h.symm.trans hf

theorem records_line {file record rest : List UInt8}
    (h : fgets maxRecordLength file = some (record, rest)) :
    records file = .ofBytes record :: records rest := by
  rw [records]
  split
  · next hf => exact nomatch h.symm.trans hf
  · next hf =>
    obtain ⟨rfl, rfl⟩ := Prod.mk.inj (Option.some.inj (h.symm.trans hf))
    rfl

theorem strlen_record {file record rest : List UInt8}
    (h : fgets maxRecordLength file = some (record, rest)) :
    (CString.ofBytes record).strlen < dataMaxSize := by
  rw [fgets] at h
  split at h
  · cases h
  · have hrecord : (takeLine (maxRecordLength - 1) file).1 = record :=
      congrArg Prod.fst (Option.some.inj h)
    have hlen := takeLine_length_le (maxRecordLength - 1) file
    rw [hrecord] at hlen
    exact Nat.lt_of_le_of_lt ((List.takeWhile_prefix _).length_le.trans hlen) (by decide)

/-! ## The token array -/

section Tokens

variable {buffer : TokenArray} {index : ℕ} {s : CString}

theorem storeTokens_ok (h : index + (tokens delimiter s).length < buffer.length) :
    ∃ stored, storeTokens buffer index s = .ok stored ∧
      (∀ j < index, stored[j]? = buffer[j]?) ∧
      (∀ j token, (tokens delimiter s)[j]? = some token →
        stored[index + j]? = some (some (some token))) ∧
      stored[index + (tokens delimiter s).length]? = some (some none) := by
  induction buffer, index, s using storeTokens.induct with
  | case1 buffer index s hs =>
    rw [tokens_none hs] at h ⊢
    refine ⟨buffer.set index (some none), ?_, fun j hj => ?_, fun j token ht => ?_, ?_⟩
    · rw [storeTokens_none hs, TokenArray.store, if_pos (show index < buffer.length from h)]
    · exact List.getElem?_set_ne hj.ne'
    · cases ht
    · exact List.getElem?_set_self h
  | case2 buffer index s token rest hs ih =>
    rw [tokens_some hs, List.length_cons] at h
    have hindex : index < buffer.length := by omega
    have hstore : buffer.store index (some token) = .ok (buffer.set index (some (some token))) := by
      rw [TokenArray.store, if_pos hindex]
    obtain ⟨stored, hok, hbefore, htokens, hend⟩ := ih (buffer.set index (some (some token)))
      (by rw [List.length_set]; omega)
    rw [tokens_some hs]
    refine ⟨stored, ?_, fun j hj => ?_, fun j t ht => ?_, ?_⟩
    · rw [storeTokens_some hs, hstore]
      exact hok
    · rw [hbefore j (by omega), List.getElem?_set_ne hj.ne']
    · cases j with
      | zero =>
        obtain rfl := Option.some.inj ht
        rw [Nat.add_zero, hbefore index (Nat.lt_succ_self _), List.getElem?_set_self hindex]
      | succ j =>
        rw [show index + (j + 1) = index + 1 + j by omega]
        exact htokens j t ht
    · rw [List.length_cons, show index + ((tokens delimiter rest).length + 1) =
        index + 1 + (tokens delimiter rest).length by omega]
      exact hend

theorem storeTokens_overflow (h : buffer.length ≤ index + (tokens delimiter s).length) :
    storeTokens buffer index s = .error .slotOutOfRange := by
  induction buffer, index, s using storeTokens.induct with
  | case1 buffer index s hs =>
    rw [tokens_none hs] at h
    have hindex : ¬ index < buffer.length := Nat.not_lt.mpr h
    rw [storeTokens_none hs, TokenArray.store, if_neg hindex]
  | case2 buffer index s token rest hs ih =>
    rw [tokens_some hs, List.length_cons] at h
    rw [storeTokens_some hs, TokenArray.store]
    split_ifs with hindex
    · exact ih _ (by rw [List.length_set]; omega)
    · rfl

end Tokens

/-! ## One record -/

section Record

variable {slots : ℕ} {record : CString} {buffer : TokenArray} {a : Account}

theorem string_token {token : CString} {j : ℕ} (h : buffer[j]? = some (some (some token))) :
    buffer.string j = .ok token := by
  rw [TokenArray.string, h]

theorem string_end {j : ℕ} (h : buffer[j]? = some (some none)) :
    buffer.string j = .error .nullToken := by
  rw [TokenArray.string, h]

theorem copyField_ok {token : CString} (h : token.strlen < dataMaxSize) :
    ∃ block, copyField token = .ok block ∧ block.text = some token.bytes := by
  rw [copyField, Block.strcpy_malloc h]
  exact ⟨_, rfl, Block.text_append_nul token.nulFree _⟩

theorem copyField_token {token : CString} (hlen : record.strlen < dataMaxSize)
    (h : token ∈ tokens delimiter record) :
    ∃ block, copyField token = .ok block ∧ block.text = some token.bytes :=
  copyField_ok (Nat.lt_of_le_of_lt (strlen_le_of_mem_tokens h) hlen)

/-- A record that can be parsed becomes a node. -/
theorem convertRecordToEntity_ok (hlen : record.strlen < dataMaxSize)
    (h : parseRecord slots record = some a) :
    ∃ cell, convertRecordToEntity slots record .fresh = .ok cell ∧ cell.Holds a ∧
      cell.next = some none := by
  rw [parseRecord] at h
  split at h
  · next username password digit rest htokens =>
    split_ifs at h with hroom
    obtain rfl := Option.some.inj h
    have hstore : 0 + (tokens delimiter record).length <
        (List.replicate slots none : TokenArray).length := by
      rw [htokens, List.length_replicate]
      simp only [List.length_cons]
      omega
    obtain ⟨buffer, hbuffer, -, hcells, -⟩ := storeTokens_ok hstore
    obtain ⟨name, hname, hnameText⟩ := copyField_token hlen
      (show username ∈ _ from htokens ▸ List.mem_cons_self)
    obtain ⟨pass, hpass, hpassText⟩ := copyField_token hlen
      (show password ∈ _ from htokens ▸ List.mem_cons_of_mem _ List.mem_cons_self)
    have h0 : buffer.string 0 = .ok username :=
      string_token (hcells 0 username (by rw [htokens]; rfl))
    have h1 : buffer.string 1 = .ok password :=
      string_token (hcells 1 password (by rw [htokens]; rfl))
    have h2 : buffer.string 2 = .ok digit :=
      string_token (hcells 2 digit (by rw [htokens]; rfl))
    refine ⟨⟨some name, some pass, some ((digit.byteAt 0).toInt8.toInt32 - 48), some none, some 0⟩,
      ?_, ⟨hnameText, hpassText, rfl, rfl⟩, rfl⟩
    simp only [convertRecordToEntity, hbuffer, h0, hname, h1, hpass, h2, bind, Except.bind, pure,
      Except.pure]
  · cases h

theorem convertRecordToEntity_error (hlen : record.strlen < dataMaxSize)
    (h : parseRecord slots record = none) :
    ∃ fault, convertRecordToEntity slots record .fresh = .error fault := by
  rcases Nat.lt_or_ge (0 + (tokens delimiter record).length)
    (List.replicate slots none : TokenArray).length with hroom | hroom
  · obtain ⟨buffer, hbuffer, -, hcells, hend⟩ := storeTokens_ok hroom
    simp only [convertRecordToEntity, hbuffer, bind, Except.bind]
    rw [parseRecord] at h
    cases htokens : tokens delimiter record with
    | nil =>
      rw [htokens] at hend
      rw [string_end (j := 0) hend]
      exact ⟨_, rfl⟩
    | cons username tokens₁ =>
      obtain ⟨name, hname, -⟩ := copyField_token hlen
        (show username ∈ _ from htokens ▸ List.mem_cons_self)
      have h0 : buffer.string 0 = .ok username :=
        string_token (hcells 0 username (by rw [htokens]; rfl))
      simp only [h0, hname]
      cases tokens₁ with
      | nil =>
        rw [htokens] at hend
        rw [string_end (j := 1) hend]
        exact ⟨_, rfl⟩
      | cons password tokens₂ =>
        obtain ⟨pass, hpass, -⟩ := copyField_token hlen
          (show password ∈ _ from htokens ▸ List.mem_cons_of_mem _ List.mem_cons_self)
        have h1 : buffer.string 1 = .ok password :=
          string_token (hcells 1 password (by rw [htokens]; rfl))
        simp only [h1, hpass]
        cases tokens₂ with
        | nil =>
          rw [htokens] at hend
          rw [string_end (j := 2) hend]
          exact ⟨_, rfl⟩
        | cons digit rest =>
          -- three tokens, and room for all of them
          rw [htokens] at h hroom
          simp only [List.length_cons, List.length_replicate] at hroom
          simp only [if_pos (show rest.length + 3 < slots by omega)] at h
          cases h
  · simp only [convertRecordToEntity, storeTokens_overflow hroom, bind, Except.bind]
    exact ⟨_, rfl⟩

end Record

/-! ## The loop over any file -/

section Loop

variable {slots : ℕ} {file : List UInt8} {s : LoadState} {a : Account} {accounts : List Account}

theorem LoadState.EndsWith.append {b : Account} {new : AccountCell} (h : s.EndsWith a)
    (hnew : new.Holds b) (hnext : new.next = some none) : (s.append new).EndsWith b := by
  obtain ⟨cell, hcell, -⟩ := h.last
  have hnode : s.node < s.heap.length := (List.getElem?_eq_some_iff.mp hcell).1
  refine ⟨h.notFirst, new, ?_, hnew, hnext⟩
  show (List.modify _ _ _)[s.heap.length]? = _
  rw [List.getElem?_modify_ne _ _ hnode.ne, List.getElem?_concat_length]

theorem loadRecords_ok (h : s.EndsWith a)
    (hparse : (records file).mapM (parseRecord slots) = some accounts) :
    ∃ t, loadRecords slots file s = .ok t ∧ t.accountDB = s.accountDB ∧
      IsList t.heap (some s.node) (a :: accounts) ∧
      ∀ i < s.heap.length, i ≠ s.node → t.heap[i]? = s.heap[i]? := by
  induction file using records.induct generalizing s a accounts with
  | case1 file hend =>
    rw [records_end hend] at hparse
    obtain rfl := Option.some.inj hparse
    obtain ⟨cell, hcell, hholds, hnext⟩ := h.last
    exact ⟨s, loadRecords_end hend s, rfl, ⟨s.node, cell, none, rfl, hcell, hholds, hnext, rfl⟩,
      fun _ _ _ => rfl⟩
  | case2 file record rest hline ih =>
    rw [records_line hline, List.mapM_cons] at hparse
    obtain ⟨b, hb, hparse⟩ := Option.bind_eq_some_iff.mp hparse
    obtain ⟨accounts', haccounts, hparse⟩ := Option.bind_eq_some_iff.mp hparse
    obtain rfl := Option.some.inj hparse
    obtain ⟨new, hnew, hnewHolds, hnewNext⟩ := convertRecordToEntity_ok (strlen_record hline) hb
    obtain ⟨cell, hcell, hholds, hnext⟩ := h.last
    have hnode : s.node < s.heap.length := (List.getElem?_eq_some_iff.mp hcell).1
    have hbefore : ∀ i < s.heap.length, i ≠ s.node → (s.append new).heap[i]? = s.heap[i]? := by
      intro i hi hne
      rw [LoadState.append, List.getElem?_modify_ne _ _ hne.symm, List.getElem?_append_left hi]
    have hlink : (s.append new).heap[s.node]? =
        some { cell with next := some (some s.heap.length) } := by
      rw [LoadState.append, List.getElem?_modify_eq, List.getElem?_append_left hnode, hcell]
      rfl
    have hlen : (s.append new).heap.length = s.heap.length + 1 := by
      simp [LoadState.append]
    obtain ⟨t, ht, hdb, hlist, hframe⟩ :=
      ih (h.append hnewHolds hnewNext) haccounts
    have hkeep : ∀ i < s.heap.length, t.heap[i]? = (s.append new).heap[i]? :=
      fun i hi => hframe i (by omega) (Nat.ne_of_lt hi)
    refine ⟨t, ?_, hdb, ?_, fun i hi hne => (hkeep i hi).trans (hbefore i hi hne)⟩
    · rw [loadRecords_line hline, storeRecord_next hnew h.notFirst]
      exact ht
    · exact ⟨s.node, _, _, rfl, (hkeep s.node hnode).trans hlink,
        ⟨hholds.username, hholds.password, hholds.status, hholds.counter⟩, rfl, hlist⟩

theorem loadRecords_error (h : (records file).mapM (parseRecord slots) = none) (s : LoadState) :
    ∃ fault, loadRecords slots file s = .error fault := by
  induction file using records.induct generalizing s with
  | case1 file hend =>
    rw [records_end hend] at h
    cases h
  | case2 file record rest hline ih =>
    rw [records_line hline, List.mapM_cons] at h
    rw [loadRecords_line hline]
    cases hb : parseRecord slots (.ofBytes record) with
    | none =>
      obtain ⟨fault, hfault⟩ := convertRecordToEntity_error (strlen_record hline) hb
      rw [storeRecord, hfault]
      exact ⟨fault, rfl⟩
    | some b =>
      rw [hb, Option.bind_eq_bind, Option.bind_some] at h
      have hrest : (records rest).mapM (parseRecord slots) = none := by
        cases hrest : (records rest).mapM (parseRecord slots) with
        | none => rfl
        | some accounts => rw [hrest] at h; cases h
      refine exists_error_bind fun t _ => ih hrest t

theorem load_of_parse (hne : accounts ≠ []) (h : parseFile slots file = some accounts) :
    ∃ s, writeAccountsToBuffer slots (some file) = .ok s ∧
      IsList s.heap (some s.accountDB) accounts := by
  rw [parseFile] at h
  cases hf : fgets maxRecordLength (textMode file) with
  | none =>
    rw [records_end hf] at h
    exact absurd (Option.some.inj h).symm hne
  | some line =>
    obtain ⟨record, rest⟩ := line
    rw [records_line hf, List.mapM_cons] at h
    obtain ⟨a, ha, h⟩ := Option.bind_eq_some_iff.mp h
    obtain ⟨as, has, h⟩ := Option.bind_eq_some_iff.mp h
    obtain rfl := Option.some.inj h
    obtain ⟨cell, hcell, hholds, hnext⟩ := convertRecordToEntity_ok (strlen_record hf) ha
    have hends : LoadState.EndsWith ⟨LoadState.initial.heap ++ [cell], 2, 2, false⟩ a :=
      ⟨rfl, cell, rfl, hholds, hnext⟩
    obtain ⟨t, ht, hdb, hlist, -⟩ := loadRecords_ok hends has
    refine ⟨t, ?_, ?_⟩
    · show loadRecords slots (textMode file) .initial = .ok t
      rw [loadRecords_line hf, storeRecord_first hcell rfl]
      exact ht
    · rw [hdb]
      exact hlist

theorem parse_of_load (hload : writeAccountsToBuffer slots (some file) = .ok s)
    (hlist : IsList s.heap (some s.accountDB) accounts) :
    accounts ≠ [] ∧ parseFile slots file = some accounts := by
  have hloop : loadRecords slots (textMode file) .initial = .ok s := hload
  cases hparse : parseFile slots file with
  | none =>
    obtain ⟨fault, hfault⟩ := loadRecords_error hparse .initial
    exact nomatch hfault.symm.trans hloop
  | some parsed =>
    rcases eq_or_ne parsed [] with rfl | hne
    · -- an empty file: the head is still unwritten
      have hend : fgets maxRecordLength (textMode file) = none := by
        cases hf : fgets maxRecordLength (textMode file) with
        | none => rfl
        | some line =>
          rw [parseFile, records_line hf, List.mapM_cons] at hparse
          obtain ⟨a, -, hparse⟩ := Option.bind_eq_some_iff.mp hparse
          obtain ⟨as, -, hparse⟩ := Option.bind_eq_some_iff.mp hparse
          cases hparse
      rw [loadRecords_end hend] at hloop
      obtain rfl := Except.ok.inj hloop
      exact absurd hlist (not_isList_initial accounts)
    · obtain ⟨t, ht, hparsed⟩ := load_of_parse hne hparse
      obtain rfl := Except.ok.inj (ht.symm.trans hload)
      rw [hlist.unique hparsed]
      exact ⟨hne, rfl⟩

/-- **The loader on any file.** It ends without a fault, with `accountDB` at the head of the list
`accounts`, exactly when the file has a record, every record can be parsed, and `accounts` are the
accounts of the records in their order. -/
theorem loader_iff (slots : ℕ) (file : List UInt8) (accounts : List Account) :
    (∃ s, writeAccountsToBuffer slots (some file) = .ok s ∧
        IsList s.heap (some s.accountDB) accounts) ↔
      accounts ≠ [] ∧ parseFile slots file = some accounts :=
  ⟨fun ⟨_, hload, hlist⟩ => parse_of_load hload hlist, fun ⟨hne, h⟩ => load_of_parse hne h⟩

end Loop

/-! ## The listing -/

/-- `printf("%d", n)` -/
def decimal (n : Int32) : List UInt8 := ascii (toString n.toInt)

/-- The three lines of an account, and a blank one. -/
def accountText (a : Account) : List UInt8 :=
  ascii "Username: " ++ a.username.bytes ++ newline ::
    (ascii "Password: " ++ a.password.bytes ++ newline ::
      (ascii "Status: " ++ decimal a.status ++ [newline, newline]))

/-- What `printBuffer` prints of one node, and the pointer that it goes on with. -/
def printNode (heap : Heap) (node : ℕ) : Except AccessFault (List UInt8 × Option ℕ) := do
  let username ← heap.username node
  let password ← heap.password node
  let status ← heap.status node
  let text := ascii "Username: " ++ username.bytes ++ newline ::
    (ascii "Password: " ++ password.bytes ++ newline ::
      (ascii "Status: " ++ decimal status ++ [newline, newline]))
  return (text, ← heap.next node)

/-- `while (node != NULL)`, for at most `fuel` nodes; `none` if it goes on after that. -/
def printNodes (heap : Heap) : ℕ → Option ℕ → Option (Except AccessFault (List UInt8))
  | _, none => some (.ok [])
  | 0, some _ => none
  | fuel + 1, some node =>
    match printNode heap node with
    | .error fault => some (.error fault)
    | .ok (text, next) => (printNodes heap fuel next).map fun rest => rest.map (text ++ ·)

/-- The console output of `printBuffer`. -/
def printBuffer (heap : Heap) (accountDB : Option ℕ) (fuel : ℕ) :
    Option (Except AccessFault (List UInt8)) :=
  (printNodes heap fuel accountDB).map fun text => text.map (ascii "\nDATABASE:\n\n" ++ ·)

/-- The listing of a database. -/
def databaseText (db : List Account) : List UInt8 :=
  ascii "\nDATABASE:\n\n" ++ db.flatMap accountText

theorem printNodes_list {heap : Heap} {p : Option ℕ} {db : List Account} (h : IsList heap p db)
    {fuel : ℕ} (hfuel : db.length ≤ fuel) :
    printNodes heap fuel p = some (.ok (db.flatMap accountText)) := by
  induction db generalizing p fuel with
  | nil =>
    obtain rfl := h
    cases fuel <;> rfl
  | cons a db ih =>
    obtain ⟨addrs, rfl, hchain⟩ := h.chain
    obtain ⟨fuel, rfl⟩ := Nat.exists_eq_add_one_of_ne_zero
      (Nat.ne_of_gt (Nat.lt_of_lt_of_le (Nat.succ_pos db.length) hfuel))
    obtain ⟨node, hnode⟩ : ∃ node, addrs[0]? = some node := by
      obtain ⟨node, cell, haddr, -⟩ := hchain.node (k := 0) rfl
      exact ⟨node, haddr⟩
    have hprint : printNode heap node = .ok (accountText a, addrs[1]?) := by
      simp only [printNode, hchain.username hnode rfl, hchain.password hnode rfl,
        hchain.status hnode rfl, hchain.next hnode, bind, Except.bind, pure, Except.pure]
      rfl
    rw [hnode, printNodes, hprint]
    simp only [ih (hchain.isList_drop 1) (Nat.le_of_succ_le_succ hfuel)]
    rfl

/-- On a list `printBuffer` ends after the last account, and has printed every
account in its order. -/
theorem printBuffer_list {heap : Heap} {p : Option ℕ} {db : List Account} (h : IsList heap p db)
    {fuel : ℕ} (hfuel : db.length ≤ fuel) :
    printBuffer heap p fuel = some (.ok (databaseText db)) := by
  rw [printBuffer, printNodes_list h hfuel]
  rfl

/-! ## What the listing shows -/

theorem append_newline_inj {l l' r r' : List UInt8} (hl : newline ∉ l) (hl' : newline ∉ l')
    (h : l ++ newline :: r = l' ++ newline :: r') : l = l' ∧ r = r' := by
  induction l generalizing l' with
  | nil =>
    cases l' with
    | nil => exact ⟨rfl, (List.cons.inj h).2⟩
    | cons b l' => exact absurd ((List.cons.inj h).1 ▸ List.mem_cons_self) hl'
  | cons a l ih =>
    cases l' with
    | nil => exact absurd ((List.cons.inj h).1 ▸ List.mem_cons_self) hl
    | cons b l' =>
      obtain ⟨rfl, htail⟩ := List.cons.inj h
      obtain ⟨rfl, rfl⟩ := ih (fun hm => hl (List.mem_cons_of_mem _ hm))
        (fun hm => hl' (List.mem_cons_of_mem _ hm)) htail
      exact ⟨rfl, rfl⟩

theorem toNat_toUInt8 {c : Char} (h : c.toNat < 256) : c.toNat.toUInt8.toNat = c.toNat := by
  rw [Nat.toUInt8_eq, UInt8.toNat_ofNat_of_lt' h]

theorem map_toUInt8_inj {s t : List Char} (hs : ∀ c ∈ s, c.toNat < 256)
    (ht : ∀ c ∈ t, c.toNat < 256)
    (h : s.map (fun c => c.toNat.toUInt8) = t.map (fun c => c.toNat.toUInt8)) : s = t := by
  induction s generalizing t with
  | nil => exact (List.map_eq_nil_iff.mp h.symm).symm
  | cons c s ih =>
    cases t with
    | nil => cases h
    | cons d t =>
      obtain ⟨hcd, htail⟩ := List.cons.inj h
      have hnat : c.toNat.toUInt8.toNat = d.toNat.toUInt8.toNat := congrArg UInt8.toNat hcd
      rw [toNat_toUInt8 (hs c List.mem_cons_self), toNat_toUInt8 (ht d List.mem_cons_self)] at hnat
      rw [Char.toNat_inj.mp hnat, ih (fun c hc => hs c (List.mem_cons_of_mem _ hc))
        (fun c hc => ht c (List.mem_cons_of_mem _ hc)) htail]

theorem toNat_lt_of_mem_toString {v : ℤ} {c : Char} (h : c ∈ (toString v).toList) :
    c.toNat < 256 :=
  Nat.lt_of_le_of_lt (Decimal.toNat_of_mem_toString h).2 (by decide)

theorem newline_notMem_decimal (n : Int32) : newline ∉ decimal n := by
  intro h
  obtain ⟨c, hc, hb⟩ := List.mem_map.mp h
  have hnat := toNat_toUInt8 (toNat_lt_of_mem_toString hc)
  have hlow := (Decimal.toNat_of_mem_toString hc).1
  rw [← hnat, hb] at hlow
  exact absurd hlow (by decide)

theorem decimal_injective : Function.Injective decimal := by
  intro m n h
  have htext := map_toUInt8_inj (fun _ => toNat_lt_of_mem_toString)
    (fun _ => toNat_lt_of_mem_toString) h
  have hstoi := Decimal.stoi_toString m
  rw [String.toList_inj.mp htext, Decimal.stoi_toString] at hstoi
  exact (Option.some.inj hstoi).symm

/-- No newline in the name and in the password. -/
def Account.OneLine (a : Account) : Prop :=
  newline ∉ a.username.bytes ∧ newline ∉ a.password.bytes

theorem accountText_append_inj {a b : Account} {r r' : List UInt8} (ha : a.OneLine)
    (hb : b.OneLine) (h : accountText a ++ r = accountText b ++ r') :
    a.username = b.username ∧ a.password = b.password ∧ a.status = b.status ∧ r = r' := by
  simp only [accountText, List.append_assoc, List.cons_append] at h
  obtain ⟨hname, h⟩ := append_newline_inj ha.1 hb.1 (List.append_cancel_left h)
  obtain ⟨hpass, h⟩ := append_newline_inj ha.2 hb.2 (List.append_cancel_left h)
  obtain ⟨hstatus, h⟩ := append_newline_inj (newline_notMem_decimal _) (newline_notMem_decimal _)
    (List.append_cancel_left h)
  exact ⟨CString.ext hname, CString.ext hpass, decimal_injective hstatus, (List.cons.inj h).2⟩

/-- Only the last token of a record contains its newline. -/
theorem newline_notMem_token {s token rest : CString}
    (hs : ∀ x y, s.bytes = x ++ newline :: y → y = [])
    (h : strtok delimiter s = some (token, rest)) (hne : tokens delimiter rest ≠ []) :
    newline ∉ token.bytes ∧ ∀ x y, rest.bytes = x ++ newline :: y → y = [] := by
  obtain ⟨gap, after, hsplit, hrest⟩ := strtok_split h
  constructor
  · intro hmem
    obtain ⟨x, y, hxy⟩ := List.append_of_mem hmem
    have hend := hs (gap ++ x) (y ++ after) (by rw [hsplit, hxy]; simp)
    have hnil : rest.bytes = [] := by rw [hrest, (List.append_eq_nil_iff.mp hend).2]; rfl
    exact hne (tokens_none (strtok_nil hnil))
  · intro x y hxy
    cases after with
    | nil => exact absurd (hrest.symm.trans hxy).symm (by simp)
    | cons b after =>
      obtain rfl : after = x ++ newline :: y := hrest.symm.trans hxy
      exact hs (gap ++ (token.bytes ++ b :: x)) y (by rw [hsplit]; simp)

theorem oneLine_of_parse {slots : ℕ} {file record rest : List UInt8} {a : Account}
    (hline : fgets maxRecordLength file = some (record, rest))
    (h : parseRecord slots (.ofBytes record) = some a) : a.OneLine ∧ a.counter = 0 := by
  have hlast : ∀ x y, (CString.ofBytes record).bytes = x ++ newline :: y → y = [] := by
    intro x y hxy
    have hrecord : record = x ++ newline :: (y ++ record.dropWhile (· ≠ 0)) := by
      have hsplit : record = (CString.ofBytes record).bytes ++ record.dropWhile (· ≠ 0) :=
        List.takeWhile_append_dropWhile.symm
      rw [hxy] at hsplit
      simpa using hsplit
    rw [fgets] at hline
    split at hline
    · cases hline
    · have hcut : (takeLine (maxRecordLength - 1) file).1 = record :=
        congrArg Prod.fst (Option.some.inj hline)
      exact (List.append_eq_nil_iff.mp (takeLine_newline (hcut.trans hrecord))).1
  rw [parseRecord] at h
  split at h
  · next username password digit more htokens =>
    split_ifs at h
    obtain rfl := Option.some.inj h
    cases h₁ : strtok delimiter (.ofBytes record) with
    | none => rw [tokens_none h₁] at htokens; cases htokens
    | some first =>
      obtain ⟨token, rest₁⟩ := first
      rw [tokens_some h₁] at htokens
      obtain ⟨rfl, htokens₁⟩ := List.cons.inj htokens
      obtain ⟨hname, hlast₁⟩ := newline_notMem_token hlast h₁ (htokens₁ ▸ List.cons_ne_nil _ _)
      cases h₂ : strtok delimiter rest₁ with
      | none => rw [tokens_none h₂] at htokens₁; cases htokens₁
      | some second =>
        obtain ⟨token₂, rest₂⟩ := second
        rw [tokens_some h₂] at htokens₁
        obtain ⟨rfl, htokens₂⟩ := List.cons.inj htokens₁
        obtain ⟨hpass, -⟩ := newline_notMem_token hlast₁ h₂ (htokens₂ ▸ List.cons_ne_nil _ _)
        exact ⟨⟨hname, hpass⟩, rfl⟩
  · cases h

theorem oneLine_of_parseFile {slots : ℕ} {file : List UInt8} {db : List Account}
    (h : (records file).mapM (parseRecord slots) = some db) :
    ∀ a ∈ db, a.OneLine ∧ a.counter = 0 := by
  induction file using records.induct generalizing db with
  | case1 file hend =>
    rw [records_end hend] at h
    obtain rfl := Option.some.inj h
    exact fun a ha => absurd ha List.not_mem_nil
  | case2 file record rest hline ih =>
    rw [records_line hline, List.mapM_cons] at h
    obtain ⟨a, ha, h⟩ := Option.bind_eq_some_iff.mp h
    obtain ⟨db, hdb, h⟩ := Option.bind_eq_some_iff.mp h
    obtain rfl := Option.some.inj h
    intro b hb
    rcases List.mem_cons.mp hb with rfl | hb
    · exact oneLine_of_parse hline ha
    · exact ih hdb b hb

/-- Listings of accounts that fit on their lines show them. -/
theorem flatMap_accountText_inj {db db' : List Account} (h : ∀ a ∈ db, a.OneLine ∧ a.counter = 0)
    (h' : ∀ a ∈ db', a.OneLine ∧ a.counter = 0)
    (htext : db.flatMap accountText = db'.flatMap accountText) : db = db' := by
  have hne : ∀ (a : Account) (r : List UInt8), accountText a ++ r ≠ [] := by
    intro a r he
    have := congrArg List.length (List.append_eq_nil_iff.mp he).1
    simp [accountText] at this
  induction db generalizing db' with
  | nil =>
    cases db' with
    | nil => rfl
    | cons b db' => exact absurd htext.symm (hne b _)
  | cons a db ih =>
    cases db' with
    | nil => exact absurd htext (hne a _)
    | cons b db' =>
      obtain ⟨ha, ha0⟩ := h a List.mem_cons_self
      obtain ⟨hb, hb0⟩ := h' b List.mem_cons_self
      obtain ⟨hname, hpass, hstatus, hrest⟩ := accountText_append_inj ha hb htext
      have htail := ih (fun c hc => h c (List.mem_cons_of_mem _ hc))
        (fun c hc => h' c (List.mem_cons_of_mem _ hc)) hrest
      have hab : a = b := by
        cases a
        cases b
        simp only at hname hpass hstatus ha0 hb0
        rw [hname, hpass, hstatus, ha0, hb0]
      rw [hab, htail]

theorem databaseText_inj {db db' : List Account} (h : ∀ a ∈ db, a.OneLine ∧ a.counter = 0)
    (h' : ∀ a ∈ db', a.OneLine ∧ a.counter = 0) (htext : databaseText db = databaseText db') :
    db = db' :=
  flatMap_accountText_inj h h' (List.append_cancel_left htext)

/-- **The listing shows what was loaded.** With a token array that is large enough, two files after
whose loading `printBuffer` prints the same have loaded the same accounts. -/
theorem listing_shows_accounts {slots : ℕ} {file file' : List UInt8} {s s' : LoadState}
    {db db' : List Account} (hload : writeAccountsToBuffer slots (some file) = .ok s)
    (hlist : IsList s.heap (some s.accountDB) db)
    (hload' : writeAccountsToBuffer slots (some file') = .ok s')
    (hlist' : IsList s'.heap (some s'.accountDB) db') {fuel fuel' : ℕ} (hfuel : db.length ≤ fuel)
    (hfuel' : db'.length ≤ fuel')
    (hprint : printBuffer s.heap (some s.accountDB) fuel =
      printBuffer s'.heap (some s'.accountDB) fuel') : db = db' := by
  have htext : databaseText db = databaseText db' := by
    rw [printBuffer_list hlist hfuel, printBuffer_list hlist' hfuel'] at hprint
    exact Except.ok.inj (Option.some.inj hprint)
  obtain ⟨-, hparse⟩ := parse_of_load hload hlist
  obtain ⟨-, hparse'⟩ := parse_of_load hload' hlist'
  exact databaseText_inj (oneLine_of_parseFile hparse) (oneLine_of_parseFile hparse') htext

theorem parseFile_line {file record : List UInt8} {username password digit s₁ s₂ s₃ : CString}
    (hline : fgets maxRecordLength (textMode file) = some (record, []))
    (h₁ : strtok delimiter (.ofBytes record) = some (username, s₁))
    (h₂ : strtok delimiter s₁ = some (password, s₂)) (h₃ : strtok delimiter s₂ = some (digit, s₃))
    (hend : strtok delimiter s₃ = none) :
    parseFile 4 file = some [⟨username, password, (digit.byteAt 0).toInt8.toInt32 - 48, 0⟩] := by
  have hlast : fgets maxRecordLength [] = none := by decide
  rw [parseFile, records_line hline, records_end hlast, List.mapM_cons, List.mapM_nil,
    parseRecord, tokens_some h₁, tokens_some h₂, tokens_some h₃, tokens_none hend]
  rfl

/-- `  alice secret 0`, with spaces before the name and a newline. -/
theorem parse_indented : parseFile 4 (ascii "  alice secret 0\n") = some [alice] := by
  have hline : fgets maxRecordLength (textMode (ascii "  alice secret 0\n")) =
      some (ascii "  alice secret 0\n", []) := by decide +kernel
  have husername : strtok delimiter (.ofAscii "  alice secret 0\n") =
      some (.ofAscii "alice", .ofAscii "secret 0\n") := by decide +kernel
  have hpassword : strtok delimiter (.ofAscii "secret 0\n") =
      some (.ofAscii "secret", .ofAscii "0\n") := by decide +kernel
  have hstatus : strtok delimiter (.ofAscii "0\n") = some (.ofAscii "0\n", .ofAscii "") := by
    decide +kernel
  exact parseFile_line hline husername hpassword hstatus (by decide +kernel)

/-- `alice secret 0`, without. -/
theorem parse_plain : parseFile 4 (ascii "alice secret 0") = some [alice] := by
  have hline : fgets maxRecordLength (textMode (ascii "alice secret 0")) =
      some (ascii "alice secret 0", []) := by decide +kernel
  have husername : strtok delimiter (.ofAscii "alice secret 0") =
      some (.ofAscii "alice", .ofAscii "secret 0") := by decide +kernel
  have hpassword : strtok delimiter (.ofAscii "secret 0") =
      some (.ofAscii "secret", .ofAscii "0") := by decide +kernel
  have hstatus : strtok delimiter (.ofAscii "0") = some (.ofAscii "0", .ofAscii "") := by
    decide +kernel
  exact parseFile_line hline husername hpassword hstatus (by decide +kernel)

/-- The same listing from two files. -/
theorem listing_shows_accounts_alice :
    ∃ s s' db', writeAccountsToBuffer 4 (some (ascii "  alice secret 0\n")) = .ok s ∧
      writeAccountsToBuffer 4 (some (ascii "alice secret 0")) = .ok s' ∧
      printBuffer s.heap (some s.accountDB) 1 = printBuffer s'.heap (some s'.accountDB) 1 ∧
      IsList s'.heap (some s'.accountDB) db' ∧ [alice] = db' := by
  obtain ⟨s, hload, hlist⟩ := load_of_parse (List.cons_ne_nil alice []) parse_indented
  obtain ⟨s', hload', hlist'⟩ := load_of_parse (List.cons_ne_nil alice []) parse_plain
  have hprint : printBuffer s.heap (some s.accountDB) 1 =
      printBuffer s'.heap (some s'.accountDB) 1 := by
    rw [printBuffer_list hlist (Nat.le_refl 1), printBuffer_list hlist' (Nat.le_refl 1)]
  exact ⟨s, s', [alice], hload, hload', hprint, hlist', listing_shows_accounts hload hlist hload'
    hlist' (Nat.le_refl 1) (Nat.le_refl 1) hprint⟩

/-! ## From the file to the threads -/

section Main

variable {ι : Type} [DecidableEq ι]

/-- **From the file to the threads.** After a file with a record, all of whose records can be parsed
with a token array of that size, the list is printed to its end, and under every schedule of the
threads no access to it is faulty and it keeps the names and the passwords of the file. -/
theorem startup_safe {slots : ℕ} {file : List UInt8} {db : List Account} (hne : db ≠ [])
    (hparse : parseFile slots file = some db) :
    ∃ s, writeAccountsToBuffer slots (some file) = .ok s ∧
      printBuffer s.heap (some s.accountDB) db.length = some (.ok (databaseText db)) ∧
      ∀ is : List (Input ι Arrival),
        (∀ t, ∀ result ∈ results t (runThreads (some s.accountDB) s.heap is).history,
          ∃ r, result = .ok r) ∧
        ∃ db', IsList (runThreads (some s.accountDB) s.heap is).state.memory
          (some s.accountDB) db' ∧ List.Forall₂ SameLogin db db' := by
  obtain ⟨s, hload, hlist⟩ := load_of_parse hne hparse
  refine ⟨s, hload, printBuffer_list hlist (Nat.le_refl _), fun is => ?_⟩
  obtain ⟨addrs, hhead, hchain⟩ := hlist.chain
  rw [← hhead]
  have hrel := mirrors_run hchain is
  exact ⟨mirrors_ok hrel, _, hrel.memory.isList, (soundRun_visitors db is).inv⟩

theorem startup_safe_alice :
    ∃ s, writeAccountsToBuffer 4 (some (ascii "  alice secret 0\n")) = .ok s ∧
      printBuffer s.heap (some s.accountDB) 1 = some (.ok (databaseText [alice])) ∧
      ∀ is : List (Input Bool Arrival),
        (∀ t, ∀ result ∈ results t (runThreads (some s.accountDB) s.heap is).history,
          ∃ r, result = .ok r) ∧
        ∃ db', IsList (runThreads (some s.accountDB) s.heap is).state.memory
          (some s.accountDB) db' ∧ List.Forall₂ SameLogin [alice] db' :=
  startup_safe (List.cons_ne_nil alice []) parse_indented

end Main

end OnlineCaro
