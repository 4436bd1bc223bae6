import OnlineCaro.Server.Loader

/-!
# The account file

A line of `account.txt` is `username password status`, with one space or more between the fields.

* `FileLine`: such a line, with what makes it readable.
* `fileText`: the lines with a newline after each, after the last one perhaps.
* `convertRecordToEntity_line`, `storeRecord_line`: one line becomes one node.
* `loadRecords_lines`: the loop hangs the accounts of the lines on the last node.
* **`account_file_round_trip`**: with room for the end marker, the list of accounts is the one
  written to the file.
-/

namespace OnlineCaro

open CMem

/-! ## Lines -/

/-- `' '` -/
def space : UInt8 := 32

/-- A non-empty string of printable ASCII characters other than the space. -/
structure IsField (s : CString) : Prop where
  ne_nil : s.bytes ≠ []
  printable : ∀ b ∈ s.bytes, 33 ≤ b ∧ b ≤ 126

theorem IsField.of_all {s : CString} (hne : s.bytes.isEmpty = false)
    (h : s.bytes.all (fun b => 33 ≤ b && b ≤ 126) = true) : IsField s := by
  refine ⟨fun hnil => by simp [hnil] at hne, fun b hb => ?_⟩
  have hb := List.all_eq_true.mp h b hb
  rw [Bool.and_eq_true, decide_eq_true_eq, decide_eq_true_eq] at hb
  exact hb

theorem not_delimiter_of_le {b : UInt8} (h : 33 ≤ b) : b ∉ delimiter := by
  intro hd
  rw [delimiter, List.mem_singleton] at hd
  exact absurd h (hd ▸ by decide)

theorem IsField.not_delimiter {s : CString} (h : IsField s) : ∀ b ∈ s.bytes, b ∉ delimiter :=
  fun b hb => not_delimiter_of_le (h.printable b hb).1

/-- A line of the file; `gap₁` and `gap₂` count the spaces beyond the first. -/
structure FileLine where
  username : CString
  password : CString
  status : Fin 10
  gap₁ : ℕ
  gap₂ : ℕ
  username_field : IsField username
  password_field : IsField password
  fits : username.strlen + gap₁ + password.strlen + gap₂ + 3 ≤ 1022

namespace FileLine

/-- The account that the line was written for. -/
def account (line : FileLine) : Account where
  username := line.username
  password := line.password
  status := Int32.ofNat line.status
  counter := 0

/-- The character of the status. -/
def digit (line : FileLine) : UInt8 := 48 + (line.status : ℕ).toUInt8

/-- The spaces after a field, and what follows them. -/
def gap (n : ℕ) (rest : List UInt8) : List UInt8 := List.replicate (n + 1) space ++ rest

/-- The line without its newline. -/
def text (line : FileLine) : List UInt8 :=
  line.username.bytes ++ gap line.gap₁ (line.password.bytes ++ gap line.gap₂ [line.digit])

theorem digit_printable (line : FileLine) : 33 ≤ line.digit ∧ line.digit ≤ 126 := by
  have h : ∀ d : Fin 10, (33 : UInt8) ≤ 48 + (d : ℕ).toUInt8 ∧
      (48 + (d : ℕ).toUInt8 : UInt8) ≤ 126 := by decide
  exact h line.status

theorem decode_digit (line : FileLine) :
    line.digit.toInt8.toInt32 - 48 = Int32.ofNat line.status := by
  have h : ∀ d : Fin 10, (48 + (d : ℕ).toUInt8 : UInt8).toInt8.toInt32 - 48 = Int32.ofNat d := by
    decide
  exact h line.status

theorem length_text (line : FileLine) : line.text.length ≤ 1022 := by
  have h := line.fits
  simp only [CString.strlen] at h
  simp only [text, gap, List.length_append, List.length_replicate, List.length_singleton]
  omega

theorem text_ne_nil (line : FileLine) : line.text ≠ [] := by
  intro h
  exact line.username_field.ne_nil (List.append_eq_nil_iff.mp h).1

theorem mem_text {line : FileLine} {b : UInt8} (hb : b ∈ line.text) : 32 ≤ b ∧ b ≤ 126 := by
  have hprint : 33 ≤ b ∧ b ≤ 126 → 32 ≤ b ∧ b ≤ 126 :=
    fun h => ⟨UInt8.le_trans (by decide) h.1, h.2⟩
  have hspace : b = space → 32 ≤ b ∧ b ≤ 126 := fun h => h ▸ by decide
  simp only [text, gap, List.mem_append, List.mem_replicate, List.mem_singleton] at hb
  rcases hb with hb | ⟨-, hb⟩ | hb | ⟨-, hb⟩ | rfl
  · exact hprint (line.username_field.printable b hb)
  · exact hspace hb
  · exact hprint (line.password_field.printable b hb)
  · exact hspace hb
  · exact hprint line.digit_printable

theorem newline_not_mem_text (line : FileLine) : newline ∉ line.text :=
  fun h => absurd (mem_text h).1 (by decide)

end FileLine

/-- The file: after each line a newline, after the last one if `lastNewline`. -/
def fileText (lastNewline : Bool) : List FileLine → List UInt8
  | [] => []
  | [line] => line.text ++ if lastNewline then [newline] else []
  | line :: lines => line.text ++ newline :: fileText lastNewline lines

/-- What ends a record: its newline, or the end of the file. -/
def IsEnding (ending : List UInt8) : Prop := ending = [newline] ∨ ending = []

/-- Each line of the file is one record. -/
theorem fgets_fileText (lastNewline : Bool) (line : FileLine) (lines : List FileLine) :
    ∃ ending, IsEnding ending ∧ fgets maxRecordLength (fileText lastNewline (line :: lines)) =
      some (line.text ++ ending, fileText lastNewline lines) := by
  have hlen : line.text.length + 2 ≤ maxRecordLength := Nat.add_le_add_right line.length_text 2
  have hline := fgets_line line.newline_not_mem_text hlen
  cases lines with
  | cons line' lines => exact ⟨[newline], .inl rfl, hline _⟩
  | nil =>
    cases lastNewline with
    | true => exact ⟨[newline], .inl rfl, hline []⟩
    | false =>
      refine ⟨[], .inr rfl, ?_⟩
      show fgets maxRecordLength (line.text ++ []) = some (line.text ++ [], [])
      rw [List.append_nil]
      exact fgets_last line.newline_not_mem_text line.text_ne_nil (by omega)

theorem mem_fileText {lastNewline : Bool} {lines : List FileLine} {b : UInt8}
    (hb : b ∈ fileText lastNewline lines) : b = newline ∨ 32 ≤ b ∧ b ≤ 126 := by
  induction lines with
  | nil => cases hb
  | cons line lines ih =>
    cases lines with
    | nil =>
      rcases List.mem_append.mp hb with hb | hb
      · exact .inr (FileLine.mem_text hb)
      · split at hb
        · exact .inl (List.mem_singleton.mp hb)
        · cases hb
    | cons line' lines =>
      rcases List.mem_append.mp hb with hb | hb
      · exact .inr (FileLine.mem_text hb)
      · rcases List.mem_cons.mp hb with rfl | hb
        · exact .inl rfl
        · exact ih hb

theorem textMode_fileText (lastNewline : Bool) (lines : List FileLine) :
    textMode (fileText lastNewline lines) = fileText lastNewline lines := by
  refine textMode_eq_self fun b hb => ?_
  rcases mem_fileText hb with rfl | ⟨hlow, -⟩
  · decide
  · exact ⟨fun h => absurd hlow (h ▸ by decide), fun h => absurd hlow (h ▸ by decide)⟩

/-! ## One line, one node -/

theorem replicate_space (n : ℕ) : ∀ b ∈ List.replicate n space, b ∈ delimiter := by
  intro b hb
  rw [List.eq_of_mem_replicate hb]
  exact List.mem_singleton_self space

theorem strtok_gap {s field : CString} (hfield : IsField field) {n m : ℕ} {rest : List UInt8}
    (hs : s.bytes = List.replicate n space ++ (field.bytes ++ FileLine.gap m rest)) :
    ∃ s', strtok delimiter s = some (field, s') ∧ s'.bytes = List.replicate m space ++ rest := by
  have hhead : ∀ b ∈ (FileLine.gap m rest).head?, b ∈ delimiter := by
    intro b hb
    obtain rfl : space = b := Option.some.inj hb
    exact List.mem_singleton_self space
  obtain ⟨token, s', htok, hbytes, hrest⟩ :=
    strtok_field hs (replicate_space n) hfield.ne_nil hfield.not_delimiter hhead
  obtain rfl := CString.ext hbytes
  exact ⟨s', htok, hrest⟩

section Line

variable (line : FileLine) {ending : List UInt8}

/-- The tokens of a line; the newline stays with the last one. -/
theorem storeTokens_line {record : CString} (hending : IsEnding ending)
    (hrecord : record.bytes = line.text ++ ending) (k : ℕ) :
    ∃ digit : CString, digit.byteAt 0 = line.digit ∧
      storeTokens (List.replicate (k + 4) none) 0 record =
        .ok (some (some line.username) :: some (some line.password) :: some (some digit) ::
          some none :: List.replicate k none) := by
  have hlast : ∀ b ∈ line.digit :: ending, b ∉ delimiter := by
    intro b hb
    rcases List.mem_cons.mp hb with rfl | hb
    · exact not_delimiter_of_le line.digit_printable.1
    · rcases hending with rfl | rfl
      · -- `strtok` does not stop at a newline
        rw [List.mem_singleton.mp hb]
        decide
      · cases hb
  have hfields : record.bytes = List.replicate 0 space ++ (line.username.bytes ++
      FileLine.gap line.gap₁ (line.password.bytes ++
        FileLine.gap line.gap₂ (line.digit :: ending))) := by
    rw [hrecord]
    simp only [FileLine.text, FileLine.gap, List.append_assoc, List.replicate_zero,
      List.nil_append, List.singleton_append]
  obtain ⟨s₁, h₁, hs₁⟩ := strtok_gap line.username_field hfields
  obtain ⟨s₂, h₂, hs₂⟩ := strtok_gap line.password_field hs₁
  have hs₂ : s₂.bytes = List.replicate line.gap₂ space ++ (line.digit :: ending ++ []) := by
    rw [hs₂, List.append_nil]
  obtain ⟨digit, s₃, h₃, hdigit, hs₃⟩ := strtok_field hs₂ (replicate_space line.gap₂)
    (List.cons_ne_nil _ _) hlast fun b hb => nomatch hb
  refine ⟨digit, by rw [CString.byteAt, hdigit]; rfl, ?_⟩
  have hcells : List.replicate (k + 4) (none : Option (Option CString)) =
      none :: none :: none :: none :: List.replicate k none := rfl
  rw [hcells, storeTokens_some h₁]
  show storeTokens (some (some line.username) :: none :: none :: none :: List.replicate k none)
    1 s₁ = _
  rw [storeTokens_some h₂]
  show storeTokens (some (some line.username) :: some (some line.password) :: none :: none ::
    List.replicate k none) 2 s₂ = _
  rw [storeTokens_some h₃]
  show storeTokens (some (some line.username) :: some (some line.password) ::
    some (some digit) :: none :: List.replicate k none) 3 s₃ = _
  rw [storeTokens_none (strtok_nil hs₃)]
  rfl

theorem copyField_fits (field : CString) (h : field.strlen ≤ 1022) :
    ∃ block, copyField field = .ok block ∧ block.text = some field.bytes := by
  have hcopy := Block.strcpy_malloc (s := field) (n := dataMaxSize)
    (Nat.lt_of_le_of_lt h (by decide))
  rw [copyField, hcopy]
  exact ⟨_, rfl, Block.text_append_nul field.nulFree _⟩

theorem convertRecordToEntity_line (hending : IsEnding ending) {slots : ℕ} (hslots : 4 ≤ slots)
    (account : AccountCell) : ∃ cell,
      convertRecordToEntity slots (.ofBytes (line.text ++ ending)) account = .ok cell ∧
        cell.Holds line.account ∧ cell.next = some none := by
  obtain ⟨k, rfl⟩ := Nat.exists_eq_add_of_le' hslots
  have hrecord : (CString.ofBytes (line.text ++ ending)).bytes = line.text ++ ending := by
    refine CString.bytes_ofBytes fun h => ?_
    rcases List.mem_append.mp h with h | h
    · exact absurd (FileLine.mem_text h).1 (by decide)
    · rcases hending with rfl | rfl
      · exact absurd (List.mem_singleton.mp h) (by decide)
      · cases h
  obtain ⟨digit, hdigit, htokens⟩ := storeTokens_line line hending hrecord k
  have hfits := line.fits
  obtain ⟨username, husername, hname⟩ := copyField_fits line.username (by omega)
  obtain ⟨password, hpassword, hpass⟩ := copyField_fits line.password (by omega)
  refine ⟨⟨some username, some password, some (line.digit.toInt8.toInt32 - 48), some none, some 0⟩,
    ?_, ⟨hname, hpass, congrArg some line.decode_digit, rfl⟩, rfl⟩
  rw [convertRecordToEntity, htokens]
  show (copyField line.username >>= fun username => copyField line.password >>= fun password => _)
    = _
  rw [husername, hpassword, ← hdigit]
  rfl

end Line

/-! ## The loop -/

/-- The node `cell` behind the last one. -/
def LoadState.append (s : LoadState) (cell : AccountCell) : LoadState where
  heap := (s.heap ++ [cell]).modify s.node fun last =>
    { last with next := some (some s.heap.length) }
  accountDB := s.accountDB
  node := s.heap.length
  isFirstRecord := s.isFirstRecord

/-- The last node holds `account`, and its `next` is `NULL`. -/
structure LoadState.EndsWith (s : LoadState) (account : Account) : Prop where
  notFirst : s.isFirstRecord = false
  last : ∃ cell, s.heap[s.node]? = some cell ∧ cell.Holds account ∧ cell.next = some none

section Loop

variable {slots : ℕ} {s : LoadState}

theorem storeRecord_next {record : CString} {cell : AccountCell}
    (hcell : convertRecordToEntity slots record .fresh = .ok cell) (h : s.isFirstRecord = false) :
    storeRecord slots record s = .ok (s.append cell) := by
  rw [storeRecord, hcell, h]
  cases s
  cases h
  rfl

theorem storeRecord_first {record : CString} {cell : AccountCell}
    (hcell : convertRecordToEntity slots record .fresh = .ok cell) (h : s.isFirstRecord = true) :
    storeRecord slots record s =
      .ok ⟨s.heap ++ [cell], s.heap.length, s.heap.length, false⟩ := by
  rw [storeRecord, hcell, h]
  rfl

/-- **The loop over the lines.** It hangs their accounts on the last node and changes no node before
that one. -/
theorem loadRecords_lines (hslots : 4 ≤ slots) (lastNewline : Bool) (lines : List FileLine)
    {account : Account} (h : s.EndsWith account) :
    ∃ t, loadRecords slots (fileText lastNewline lines) s = .ok t ∧ t.accountDB = s.accountDB ∧
      IsList t.heap (some s.node) (account :: lines.map FileLine.account) ∧
      ∀ i < s.heap.length, i ≠ s.node → t.heap[i]? = s.heap[i]? := by
  induction lines generalizing s account with
  | nil =>
    obtain ⟨cell, hcell, hholds, hnext⟩ := h.last
    exact ⟨s, loadRecords_end (fgets_nil _) s, rfl,
      ⟨s.node, cell, none, rfl, hcell, hholds, hnext, rfl⟩, fun _ _ _ => rfl⟩
  | cons line lines ih =>
    obtain ⟨ending, hending, hfgets⟩ := fgets_fileText lastNewline line lines
    obtain ⟨new, hnew, hnewHolds, hnewNext⟩ :=
      convertRecordToEntity_line line hending hslots .fresh
    obtain ⟨cell, hcell, hholds, hnext⟩ := h.last
    have hnode : s.node < s.heap.length := (List.getElem?_eq_some_iff.mp hcell).1
    have hbefore : ∀ i < s.heap.length, i ≠ s.node → (s.append new).heap[i]? = s.heap[i]? := by
      intro i hi hne
      rw [LoadState.append, List.getElem?_modify_ne _ _ hne.symm, List.getElem?_append_left hi]
    have hlink : (s.append new).heap[s.node]? =
        some { cell with next := some (some s.heap.length) } := by
      rw [LoadState.append, List.getElem?_modify_eq, List.getElem?_append_left hnode, hcell]
      rfl
    have hends : (s.append new).EndsWith line.account := by
      refine ⟨h.notFirst, new, ?_, hnewHolds, hnewNext⟩
      show (List.modify _ _ _)[s.heap.length]? = _
      rw [List.getElem?_modify_ne _ _ hnode.ne, List.getElem?_concat_length]
    have hlen : (s.append new).heap.length = s.heap.length + 1 := by
      simp [LoadState.append]
    obtain ⟨t, ht, hdb, hlist, hframe⟩ := ih hends
    have hkeep : ∀ i < s.heap.length, t.heap[i]? = (s.append new).heap[i]? :=
      fun i hi => hframe i (by omega) (Nat.ne_of_lt hi)
    refine ⟨t, ?_, hdb, ?_, fun i hi hne => (hkeep i hi).trans (hbefore i hi hne)⟩
    · rw [loadRecords_line hfgets, storeRecord_next hnew h.notFirst]
      exact ht
    · exact ⟨s.node, _, _, rfl, (hkeep s.node hnode).trans hlink,
        ⟨hholds.username, hholds.password, hholds.status, hholds.counter⟩, rfl, hlist⟩

end Loop

/-- **The account file is read back.** The pointer `accountDB` starts the list of the accounts of
the lines, and no other list. -/
theorem account_file_round_trip {slots : ℕ} (hslots : 4 ≤ slots) (lastNewline : Bool)
    {lines : List FileLine} (hlines : lines ≠ []) :
    ∃ s, writeAccountsToBuffer slots (some (fileText lastNewline lines)) = .ok s ∧
      ∀ accounts, IsList s.heap (some s.accountDB) accounts ↔
        accounts = lines.map FileLine.account := by
  obtain ⟨line, lines, rfl⟩ := List.exists_cons_of_ne_nil hlines
  obtain ⟨ending, hending, hfgets⟩ := fgets_fileText lastNewline line lines
  obtain ⟨cell, hcell, hholds, hnext⟩ :=
    convertRecordToEntity_line line hending hslots .fresh
  have hends : LoadState.EndsWith ⟨LoadState.initial.heap ++ [cell], 2, 2, false⟩ line.account :=
    ⟨rfl, cell, rfl, hholds, hnext⟩
  obtain ⟨s, hs, hdb, hlist, -⟩ := loadRecords_lines hslots lastNewline lines hends
  refine ⟨s, ?_, fun accounts => ⟨fun h => ?_, ?_⟩⟩
  · rw [writeAccountsToBuffer, textMode_fileText, loadRecords_line hfgets,
      storeRecord_first hcell rfl]
    exact hs
  · exact h.unique (hdb ▸ hlist)
  · rintro rfl
    exact hdb ▸ hlist

/-- `alice   secret 0` -/
def aliceLine : FileLine :=
  ⟨.ofAscii "alice", .ofAscii "secret", 0, 2, 0, .of_all rfl rfl, .of_all rfl rfl, by decide⟩

/-- `bob pw 2` -/
def bobLine : FileLine :=
  ⟨.ofAscii "bob", .ofAscii "pw", 2, 0, 0, .of_all rfl rfl, .of_all rfl rfl, by decide⟩

theorem account_file_round_trip_alice :
    ∃ s, writeAccountsToBuffer 4 (some (ascii "alice   secret 0\nbob pw 2")) = .ok s ∧
      IsList s.heap (some s.accountDB)
        [⟨.ofAscii "alice", .ofAscii "secret", 0, 0⟩, ⟨.ofAscii "bob", .ofAscii "pw", 2, 0⟩] := by
  have hfile : fileText false [aliceLine, bobLine] = ascii "alice   secret 0\nbob pw 2" := by
    decide +kernel
  obtain ⟨s, hs, hlist⟩ := account_file_round_trip (Nat.le_refl 4) false
    (List.cons_ne_nil aliceLine [bobLine])
  exact ⟨s, hfile ▸ hs, (hlist _).mpr rfl⟩

end OnlineCaro
