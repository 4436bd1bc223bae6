import OnlineCaro.Lib.Decimal
import Mathlib.Data.List.Basic

/-!
# The text of SQL statements

Statements are cut into tokens one character after another, as MySQL does in its default mode: a
string literal stands between two quotes of the same kind, a backslash escapes the next character
of it, and a doubled quote in it is one quote.

* `Token`, `Mode`, `Mode.feed`, `scan`: the tokens, and the machine that finds them.
* `lex`: the tokens of a whole text, if it does not end inside a literal, a name or a comment.
* `weight_lex`: the tokens of a text are not longer than the text.
* `Plain`: the texts that a literal decodes to themselves.
* **`lex_literal_iff`**: where a literal can end.
* `lex_digits`, `lex_int`: a number, and the decimal text of an integer.
* `Template`: a statement with two literals left open.
* **`Template.lex_fill_iff`**: the two texts set between its quotes are the literals of the
  statement exactly when both are plain.

An operator of several characters is given as its characters, and a number as a word. A version
comment `/*! … */`, which MySQL may execute, has no tokens here.
-/

namespace SqlText

open Decimal (toList_toString_ofNat toList_toString_negSucc)

/-- A token; a literal and a quoted name are given decoded. -/
inductive Token
  | word (w : List Char)
  | quoted (name : List Char)
  | text (value : List Char)
  | symbol (c : Char)
  deriving DecidableEq

/-- What the machine is reading. -/
inductive Mode
  | start
  | word (w : List Char)
  | quoted (name : List Char)
  /-- After the quote that ends a name unless it is doubled. -/
  | quotedEnd (name : List Char)
  | text (q : Char) (value : List Char)
  | textEscape (q : Char) (value : List Char)
  /-- After the quote that ends a literal unless it is doubled. -/
  | textEnd (q : Char) (value : List Char)
  | dash
  | dashDash
  | slash
  | commentOpen
  | comment
  | commentStar
  | lineComment
  | failed
  deriving DecidableEq

/-! ## The machine -/

def singleQuote : Char := Char.ofNat 39

def doubleQuote : Char := Char.ofNat 34

def backquote : Char := Char.ofNat 96

def backslash : Char := Char.ofNat 92

def nul : Char := Char.ofNat 0

/-- Blank, tab, line feed, vertical tab, form feed or carriage return. -/
def isSpace (c : Char) : Bool := c.toNat = 32 || (9 ≤ c.toNat && c.toNat ≤ 13)

def isControl (c : Char) : Bool := c.toNat < 32 || c.toNat = 127

/-- A character of an unquoted name, a keyword or a number. -/
def isWord (c : Char) : Bool := c.isAlphanum || c = '_' || c = '$' || 128 ≤ c.toNat

/-- What a backslash and the character after it stand for in a literal. The pairs for the two
wildcards of `LIKE` stay as they are. -/
def escape (c : Char) : List Char :=
  if c = '%' ∨ c = '_' then [backslash, c]
  else if c = 'n' then [Char.ofNat 10]
  else if c = 't' then [Char.ofNat 9]
  else if c = 'r' then [Char.ofNat 13]
  else if c = 'b' then [Char.ofNat 8]
  else if c = '0' then [nul]
  else if c = 'Z' then [Char.ofNat 26]
  else [c]

/-- The first character of a token. -/
def enter (c : Char) : List Token × Mode :=
  if isSpace c then ([], .start)
  else if isWord c then ([], .word [c])
  else if c = backquote then ([], .quoted [])
  else if c = doubleQuote ∨ c = singleQuote then ([], .text c [])
  else if c = '#' then ([], .lineComment)
  else if c = '-' then ([], .dash)
  else if c = '/' then ([], .slash)
  else ([.symbol c], .start)

/-- `c` begins a new token after `token`. -/
def leave (token : Token) (c : Char) : List Token × Mode := (token :: (enter c).1, (enter c).2)

/-- A comment that runs to the end of its line. -/
def skipLine (c : Char) : List Token × Mode :=
  if c = Char.ofNat 10 ∨ c = nul then enter c else ([], .lineComment)

/-- Read one character: the tokens that are then complete, and the next mode. -/
def Mode.feed : Mode → Char → List Token × Mode
  | .start, c => enter c
  | .word w, c => if isWord c then ([], .word (w ++ [c])) else leave (.word w) c
  | .quoted name, c =>
    if c = backquote then ([], .quotedEnd name)
    else if c = nul then ([], .failed)
    else ([], .quoted (name ++ [c]))
  | .quotedEnd name, c =>
    if c = backquote then ([], .quoted (name ++ [c])) else leave (.quoted name) c
  | .text q v, c =>
    if c = backslash then ([], .textEscape q v)
    else if c = q then ([], .textEnd q v)
    else ([], .text q (v ++ [c]))
  | .textEscape q v, c => ([], .text q (v ++ escape c))
  | .textEnd q v, c => if c = q then ([], .text q (v ++ [c])) else leave (.text v) c
  | .dash, c => if c = '-' then ([], .dashDash) else leave (.symbol '-') c
  | .dashDash, c =>
    -- two dashes begin a comment only before a blank or a control character
    if isSpace c ∨ isControl c then skipLine c
    else if c = '-' then ([.symbol '-'], .dashDash)
    else (.symbol '-' :: (leave (.symbol '-') c).1, (leave (.symbol '-') c).2)
  | .slash, c => if c = '*' then ([], .commentOpen) else leave (.symbol '/') c
  | .commentOpen, c =>
    ([], if c = '!' then .failed else if c = '*' then .commentStar else .comment)
  | .comment, c => ([], if c = '*' then .commentStar else .comment)
  | .commentStar, c => ([], if c = '/' then .start else if c = '*' then .commentStar else .comment)
  | .lineComment, c => skipLine c
  | .failed, _ => ([], .failed)

/-- The tokens that the end of the text completes. -/
def Mode.finish : Mode → Option (List Token)
  | .start | .lineComment | .dashDash => some []
  | .word w => some [.word w]
  | .quotedEnd name => some [.quoted name]
  | .textEnd _ v => some [.text v]
  | .dash => some [.symbol '-']
  | .slash => some [.symbol '/']
  | .quoted _ | .text .. | .textEscape .. | .commentOpen | .comment | .commentStar | .failed => none

/-- Read a text. -/
def scan (m : Mode) : List Char → List Token × Mode
  | [] => ([], m)
  | c :: w => ((m.feed c).1 ++ (scan (m.feed c).2 w).1, (scan (m.feed c).2 w).2)

/-- The tokens from mode `m` to the end of the text. -/
def lexFrom (m : Mode) (w : List Char) : Option (List Token) :=
  (scan m w).2.finish.map ((scan m w).1 ++ ·)

/-- The tokens of a text. -/
def lex (w : List Char) : Option (List Token) := lexFrom .start w

/-! ## Reading in parts -/

theorem lexFrom_nil (m : Mode) : lexFrom m [] = m.finish := by
  cases h : m.finish <;> simp [lexFrom, scan, h]

theorem lexFrom_cons (m : Mode) (c : Char) (w : List Char) :
    lexFrom m (c :: w) = (lexFrom (m.feed c).2 w).map ((m.feed c).1 ++ ·) := by
  simp only [lexFrom, scan, Option.map_map]
  congr 1
  funext ts
  exact List.append_assoc _ _ _

/-- Reading on after a part that completes no token. -/
theorem lexFrom_cons_of_nil {m m' : Mode} {c : Char} (h : m.feed c = ([], m')) (w : List Char) :
    lexFrom m (c :: w) = lexFrom m' w := by
  rw [lexFrom_cons, h]
  simp

theorem lexFrom_append (m : Mode) (a b : List Char) :
    lexFrom m (a ++ b) = (lexFrom (scan m a).2 b).map ((scan m a).1 ++ ·) := by
  induction a generalizing m with
  | nil => simp [scan]
  | cons c a ih =>
    rw [List.cons_append, lexFrom_cons, ih, Option.map_map]
    congr 1
    funext ts
    simp [scan]

/-- A text that ends inside a literal has no tokens. -/
theorem lex_eq_none_of_text {w v : List Char} {q : Char} (h : (scan .start w).2 = .text q v) :
    lex w = none := by
  rw [lex, lexFrom, h]
  rfl

theorem lexFrom_leave {m : Mode} {token : Token} {c : Char} (h : m.feed c = leave token c)
    (w : List Char) : lexFrom m (c :: w) = (lex (c :: w)).map (token :: ·) := by
  rw [lex, lexFrom_cons, lexFrom_cons, h, Option.map_map]
  rfl

theorem scan_append_snd (m : Mode) (a b : List Char) :
    (scan m (a ++ b)).2 = (scan (scan m a).2 b).2 := by
  induction a generalizing m with
  | nil => rfl
  | cons c a ih => exact ih _

/-! ## Weights -/

/-- The least number of characters of a token. -/
def Token.weight : Token → ℕ
  | .word w => w.length
  | .quoted name => name.length + 2
  | .text v => v.length + 2
  | .symbol _ => 1

/-- The least number of characters of some tokens. -/
def weight : List Token → ℕ
  | [] => 0
  | t :: ts => t.weight + weight ts

@[simp] theorem weight_nil : weight [] = 0 := rfl

@[simp] theorem weight_cons (t : Token) (ts : List Token) :
    weight (t :: ts) = t.weight + weight ts := rfl

@[simp] theorem weight_append (ts ts' : List Token) :
    weight (ts ++ ts') = weight ts + weight ts' := by
  induction ts with
  | nil => rw [List.nil_append, weight_nil, Nat.zero_add]
  | cons t ts ih => rw [List.cons_append, weight_cons, weight_cons, ih, Nat.add_assoc]

/-- The least number of characters of the token that is being read. -/
def Mode.weight : Mode → ℕ
  | .word w => w.length
  | .quoted name => name.length + 1
  | .quotedEnd name => name.length + 2
  | .text _ v => v.length + 1
  | .textEscape _ v => v.length + 2
  | .textEnd _ v => v.length + 2
  | .dash => 1
  | .dashDash => 2
  | .slash => 1
  | _ => 0

theorem length_escape_le (c : Char) : (escape c).length ≤ 2 := by
  unfold escape
  split_ifs <;> simp

theorem weight_enter (c : Char) : weight (enter c).1 + (enter c).2.weight ≤ 1 := by
  unfold enter
  split_ifs <;> simp [Mode.weight, Token.weight]

theorem weight_skipLine (c : Char) : weight (skipLine c).1 + (skipLine c).2.weight ≤ 1 := by
  unfold skipLine
  split_ifs
  · exact weight_enter c
  · simp [Mode.weight]

theorem weight_leave (t : Token) (c : Char) :
    weight (leave t c).1 + (leave t c).2.weight ≤ t.weight + 1 := by
  have := weight_enter c
  simp only [leave, weight_cons]
  omega

theorem weight_feed (m : Mode) (c : Char) :
    weight (m.feed c).1 + (m.feed c).2.weight ≤ m.weight + 1 := by
  have he := weight_enter c
  have hl := fun t => weight_leave t c
  cases m with
  | start => exact Nat.le_trans he (Nat.le_add_left 1 _)
  | word w =>
    simp only [Mode.feed]
    split_ifs
    · simp [Mode.weight]
    · exact hl (.word w)
  | quoted name => simp only [Mode.feed]; split_ifs <;> simp [Mode.weight]
  | quotedEnd name =>
    simp only [Mode.feed]
    split_ifs
    · simp [Mode.weight]
    · exact hl (.quoted name)
  | text q v => simp only [Mode.feed]; split_ifs <;> simp [Mode.weight]
  | textEscape q v =>
    have := length_escape_le c
    simp only [Mode.feed, Mode.weight, weight_nil, List.length_append]
    omega
  | textEnd q v =>
    simp only [Mode.feed]
    split_ifs
    · simp [Mode.weight]
    · exact hl (.text v)
  | dash =>
    simp only [Mode.feed]
    split_ifs
    · simp [Mode.weight]
    · exact hl (.symbol '-')
  | dashDash =>
    simp only [Mode.feed]
    split_ifs
    · exact Nat.le_trans (weight_skipLine c) (Nat.le_add_left 1 _)
    · simp [Mode.weight, Token.weight]
    · have : (Token.symbol '-').weight = 1 := rfl
      have : Mode.dashDash.weight = 2 := rfl
      have := hl (.symbol '-')
      simp only [weight_cons]
      omega
  | slash =>
    simp only [Mode.feed]
    split_ifs
    · simp [Mode.weight]
    · exact hl (.symbol '/')
  | commentOpen | comment | commentStar =>
    simp only [Mode.feed]
    split_ifs <;> simp [Mode.weight]
  | lineComment => exact Nat.le_trans (weight_skipLine c) (Nat.le_add_left 1 _)
  | failed => simp [Mode.feed, Mode.weight]

theorem weight_finish {m : Mode} {ts : List Token} (h : m.finish = some ts) :
    weight ts ≤ m.weight := by
  cases m <;> simp only [Mode.finish, Option.some.injEq, reduceCtorEq] at h <;>
    subst h <;> simp [Mode.weight, Token.weight]

theorem weight_lexFrom {m : Mode} {w : List Char} {ts : List Token} (h : lexFrom m w = some ts) :
    weight ts ≤ m.weight + w.length := by
  induction w generalizing m ts with
  | nil =>
    rw [lexFrom_nil] at h
    exact weight_finish h
  | cons c w ih =>
    rw [lexFrom_cons, Option.map_eq_some_iff] at h
    obtain ⟨ts', h', rfl⟩ := h
    have h₁ := ih h'
    have h₂ := weight_feed m c
    simp only [weight_append, List.length_cons]
    omega

/-- The tokens of a text are not longer than the text. -/
theorem weight_lex {w : List Char} {ts : List Token} (h : lex w = some ts) :
    weight ts ≤ w.length := by
  have := weight_lexFrom h
  simpa [Mode.weight] using this

/-! ## Literals -/

/-- A text that a literal between two `q` decodes to itself: no `q` in it, and each backslash the
first of a pair that stays as it is. -/
inductive Plain (q : Char) : List Char → Prop
  | nil : Plain q []
  | char {c : Char} {u : List Char} (hb : c ≠ backslash) (hq : c ≠ q) (hu : Plain q u) :
      Plain q (c :: u)
  | pair {c : Char} {u : List Char} (hc : c = '%' ∨ c = '_') (hu : Plain q u) :
      Plain q (backslash :: c :: u)

theorem plain_of_not_mem {q : Char} : ∀ {u : List Char}, q ∉ u → backslash ∉ u → Plain q u
  | [], _, _ => .nil
  | c :: u, hq, hb => by
    rw [List.mem_cons, not_or] at hq hb
    exact .char (Ne.symm hb.1) (Ne.symm hq.1) (plain_of_not_mem hq.2 hb.2)

theorem feed_text {q c : Char} (hb : c ≠ backslash) (hq : c ≠ q) (v : List Char) :
    (Mode.text q v).feed c = ([], .text q (v ++ [c])) := by simp [Mode.feed, hb, hq]

theorem feed_text_backslash (q : Char) (v : List Char) :
    (Mode.text q v).feed backslash = ([], .textEscape q v) := by simp [Mode.feed]

theorem feed_text_quote {q : Char} (hq : q ≠ backslash) (v : List Char) :
    (Mode.text q v).feed q = ([], .textEnd q v) := by simp [Mode.feed, hq]

theorem feed_textEnd_quote (q : Char) (v : List Char) :
    (Mode.textEnd q v).feed q = ([], .text q (v ++ [q])) := by simp [Mode.feed]

theorem feed_textEnd {q c : Char} (hq : c ≠ q) (v : List Char) :
    (Mode.textEnd q v).feed c = leave (.text v) c := by simp [Mode.feed, hq]

theorem lexFrom_textEnd {q : Char} (v : List Char) :
    ∀ {w : List Char}, w.head? ≠ some q →
      lexFrom (.textEnd q v) w = (lex w).map (.text v :: ·)
  | [], _ => rfl
  | _ :: w, h => lexFrom_leave (feed_textEnd (fun e => h (congrArg some e)) v) w

/-- A plain text is read as it stands, up to the quote that ends the literal. -/
theorem lexFrom_plain {q : Char} (hq : q ≠ backslash) {u : List Char} (hu : Plain q u)
    (v : List Char) {w : List Char} (hw : w.head? ≠ some q) :
    lexFrom (.text q v) (u ++ q :: w) = (lex w).map (.text (v ++ u) :: ·) := by
  induction hu generalizing v with
  | nil =>
    rw [List.nil_append, lexFrom_cons_of_nil (feed_text_quote hq v), lexFrom_textEnd v hw,
      List.append_nil]
  | @char c u hb hc _ ih =>
    rw [List.cons_append, lexFrom_cons_of_nil (feed_text hb hc v), ih, List.append_assoc]
    rfl
  | @pair c u hc _ ih =>
    have he : escape c = [backslash, c] := if_pos hc
    rw [List.cons_append, List.cons_append, lexFrom_cons_of_nil (feed_text_backslash q v),
      lexFrom_cons_of_nil rfl, he, ih, List.append_assoc]
    rfl

/-- Without a quote and a backslash, a literal goes on. -/
theorem scan_text_of_not_mem {q : Char} : ∀ {u : List Char} (v : List Char), q ∉ u →
    backslash ∉ u → (scan (.text q v) u).2 = .text q (v ++ u)
  | [], v, _, _ => by rw [List.append_nil]; rfl
  | c :: u, v, hq, hb => by
    rw [List.mem_cons, not_or] at hq hb
    have h : (scan (.text q v) (c :: u)).2 = (scan ((Mode.text q v).feed c).2 u).2 := rfl
    rw [h, feed_text (Ne.symm hb.1) (Ne.symm hq.1), scan_text_of_not_mem _ hq.2 hb.2,
      List.append_assoc]
    rfl

/-- What stands between the quotes of a literal is at least as long as its value, and longer
unless it is plain. -/
structure Spells (q : Char) (raw value : List Char) : Prop where
  le : value.length ≤ raw.length
  plain : value.length = raw.length → raw = value ∧ Plain q raw

theorem Spells.nil (q : Char) : Spells q [] [] := ⟨Nat.le_refl _, fun _ => ⟨rfl, .nil⟩⟩

theorem Spells.char {q c : Char} {raw value : List Char} (h : Spells q raw value)
    (hb : c ≠ backslash) (hq : c ≠ q) : Spells q (c :: raw) (c :: value) := by
  refine ⟨Nat.succ_le_succ h.le, fun he => ?_⟩
  obtain ⟨rfl, hp⟩ := h.plain (Nat.succ.inj he)
  exact ⟨rfl, .char hb hq hp⟩

theorem Spells.doubled {q : Char} {raw value : List Char} (h : Spells q raw value) :
    Spells q (q :: q :: raw) (q :: value) := by
  have := h.le
  refine ⟨?_, fun he => ?_⟩ <;> simp only [List.length_cons] at *
  · omega
  · omega

theorem Spells.escape {q : Char} {raw value : List Char} (h : Spells q raw value) (c : Char) :
    Spells q (backslash :: c :: raw) (SqlText.escape c ++ value) := by
  have hle := h.le
  have hlen := length_escape_le c
  refine ⟨by simp only [List.length_append, List.length_cons]; omega, fun he => ?_⟩
  simp only [List.length_append, List.length_cons] at he
  by_cases hc : c = '%' ∨ c = '_'
  · have hesc : SqlText.escape c = [backslash, c] := if_pos hc
    obtain ⟨rfl, hp⟩ := h.plain (by omega)
    exact ⟨by rw [hesc]; rfl, .pair hc hp⟩
  · have hone : (SqlText.escape c).length = 1 := by
      rw [SqlText.escape, if_neg hc]
      split_ifs <;> rfl
    omega

/-- Every literal ends at a quote, and its value is spelled by what stands before it. -/
theorem exists_of_lexFrom_text {q : Char} (hq : q ≠ backslash) :
    ∀ {w : List Char} {v : List Char} {ts : List Token}, lexFrom (.text q v) w = some ts →
      ∃ raw value rest ts', w = raw ++ q :: rest ∧ Spells q raw value ∧
        lex rest = some ts' ∧ ts = .text (v ++ value) :: ts'
  | [], v, ts, h => by simp [lexFrom_nil, Mode.finish] at h
  | c :: w, v, ts, h => by
    by_cases hb : c = backslash
    · subst hb
      rw [lexFrom_cons_of_nil (feed_text_backslash q v)] at h
      cases w with
      | nil => simp [lexFrom_nil, Mode.finish] at h
      | cons d w =>
        rw [lexFrom_cons_of_nil rfl] at h
        obtain ⟨raw, value, rest, ts', rfl, hs, hl, rfl⟩ := exists_of_lexFrom_text hq h
        exact ⟨_, _, rest, ts', rfl, hs.escape d, hl, by rw [List.append_assoc]⟩
    by_cases hc : c = q
    · subst hc
      rw [lexFrom_cons_of_nil (feed_text_quote hq v)] at h
      by_cases hw : w.head? = some c
      · obtain ⟨w', rfl⟩ : ∃ w', w = c :: w' := List.head?_eq_some_iff.mp hw
        rw [lexFrom_cons_of_nil (feed_textEnd_quote c v)] at h
        obtain ⟨raw, value, rest, ts', rfl, hs, hl, rfl⟩ := exists_of_lexFrom_text hq h
        exact ⟨_, _, rest, ts', rfl, hs.doubled, hl, by rw [List.append_assoc]; rfl⟩
      · rw [lexFrom_textEnd v hw, Option.map_eq_some_iff] at h
        obtain ⟨ts', hl, rfl⟩ := h
        exact ⟨[], [], w, ts', rfl, .nil c, hl, by rw [List.append_nil]⟩
    · rw [lexFrom_cons_of_nil (feed_text hb hc v)] at h
      obtain ⟨raw, value, rest, ts', rfl, hs, hl, rfl⟩ := exists_of_lexFrom_text hq h
      exact ⟨_, _, rest, ts', rfl, hs.char hb hc, hl, by rw [List.append_assoc]; rfl⟩

/-- **Where a literal ends.** Text `u` set between quotes is the value of the literal it begins
exactly when it is plain, unless the literal runs on to a quote of what follows. -/
theorem lex_literal_iff {q : Char} (hq : q ≠ backslash) {u w : List Char} {ts : List Token}
    (hw : w.head? ≠ some q) (hlong : ∀ s r, w = s ++ q :: r → lex r ≠ some ts) :
    lexFrom (.text q []) (u ++ q :: w) = some (.text u :: ts) ↔ Plain q u ∧ lex w = some ts := by
  constructor
  · intro h
    obtain ⟨raw, value, rest, ts', he, hs, hl, ht⟩ := exists_of_lexFrom_text hq h
    obtain ⟨rfl, rfl⟩ : u = value ∧ ts = ts' := by simpa using ht
    obtain ⟨s, rfl, hrest⟩ | ⟨s, rfl, hrest⟩ := List.append_eq_append_iff.mp he
    · cases s with
      | nil =>
        obtain ⟨-, rfl⟩ := List.cons.inj hrest
        rw [List.append_nil] at hs
        exact ⟨(hs.plain rfl).2, hl⟩
      | cons c s => exact absurd hl (hlong s rest (List.cons.inj hrest).2)
    · -- the literal is not shorter than its value
      have hle := hs.le
      rw [List.length_append] at hle
      obtain rfl : s = [] := List.eq_nil_of_length_eq_zero (by omega)
      obtain ⟨-, rfl⟩ := List.cons.inj hrest
      rw [List.append_nil] at hs ⊢
      exact ⟨(hs.plain rfl).2, hl⟩
  · rintro ⟨hu, hl⟩
    rw [lexFrom_plain hq hu [] hw, hl]
    rfl

/-! ## Integers -/

theorem isWord_of_isDigit {c : Char} (h : c.isDigit = true) : isWord c = true := by
  simp [isWord, Char.isAlphanum, h]

theorem isSpace_of_isDigit {c : Char} (h : c.isDigit = true) : isSpace c = false := by
  rw [Char.isDigit, Bool.and_eq_true, decide_eq_true_eq, decide_eq_true_eq] at h
  have hlow : 48 ≤ c.toNat := UInt32.le_iff_toNat_le.mp h.1
  rw [Bool.eq_false_iff]
  intro hs
  simp only [isSpace, Bool.or_eq_true, Bool.and_eq_true, decide_eq_true_eq] at hs
  omega

theorem lexFrom_word {ds : List Char} (hds : ∀ c ∈ ds, isWord c = true) (v : List Char)
    {w : List Char} (hw : ∀ c ∈ w.head?, isWord c = false) :
    lexFrom (.word v) (ds ++ w) = (lex w).map (.word (v ++ ds) :: ·) := by
  induction ds generalizing v with
  | nil =>
    rw [List.nil_append, List.append_nil]
    cases w with
    | nil => rfl
    | cons c w =>
      refine lexFrom_leave ?_ w
      simp [Mode.feed, hw c rfl]
  | cons d ds ih =>
    obtain ⟨hd, hds⟩ := List.forall_mem_cons.mp hds
    have hfeed : (Mode.word v).feed d = ([], .word (v ++ [d])) := by simp [Mode.feed, hd]
    rw [List.cons_append, lexFrom_cons_of_nil hfeed, ih hds, List.append_assoc]
    rfl

theorem lex_digits {ds : List Char} (hne : ds ≠ []) (hds : ∀ c ∈ ds, c.isDigit = true)
    {w : List Char} (hw : ∀ c ∈ w.head?, isWord c = false) :
    lex (ds ++ w) = (lex w).map (.word ds :: ·) := by
  obtain ⟨d, ds', rfl⟩ := List.exists_cons_of_ne_nil hne
  obtain ⟨hd, hds'⟩ := List.forall_mem_cons.mp hds
  have henter : Mode.start.feed d = ([], .word [d]) := by
    simp [Mode.feed, enter, isSpace_of_isDigit hd, isWord_of_isDigit hd]
  rw [lex, List.cons_append, lexFrom_cons_of_nil henter,
    lexFrom_word (fun c hc => isWord_of_isDigit (hds' c hc)) [d] hw]
  rfl

/-- The tokens of the decimal text of an integer. -/
def intTokens : ℤ → List Token
  | .ofNat n => [.word (Nat.toDigits 10 n)]
  | .negSucc n => [.symbol '-', .word (Nat.toDigits 10 (n + 1))]

theorem lex_toDigits (n : ℕ) {w : List Char} (hw : ∀ c ∈ w.head?, isWord c = false) :
    lex (Nat.toDigits 10 n ++ w) = (lex w).map (.word (Nat.toDigits 10 n) :: ·) :=
  lex_digits Nat.toDigits_ne_nil
    (fun _ hc => Nat.isDigit_of_mem_toDigits (by decide) (by decide) hc) hw

theorem lex_int (v : ℤ) {w : List Char} (hw : ∀ c ∈ w.head?, isWord c = false) :
    lex ((toString v).toList ++ w) = (lex w).map (intTokens v ++ ·) := by
  cases v with
  | ofNat n =>
    have htext : (toString (Int.ofNat n)).toList = Nat.toDigits 10 n := toList_toString_ofNat n
    rw [htext, lex_toDigits n hw]
    rfl
  | negSucc n =>
    have hdash : Mode.start.feed '-' = ([], .dash) := by decide
    have hleave : ∀ c, c.isDigit = true → Mode.dash.feed c = leave (.symbol '-') c := by
      intro c hc
      have hne : c ≠ '-' := fun h => absurd (h ▸ hc) (by decide)
      simp [Mode.feed, hne]
    obtain ⟨d, ds, hds⟩ := List.exists_cons_of_ne_nil (Nat.toDigits_ne_nil (n := n + 1) (b := 10))
    have hd : d.isDigit = true :=
      Nat.isDigit_of_mem_toDigits (n := n + 1) (b := 10) (by decide) (by decide)
        (hds ▸ List.mem_cons_self)
    rw [toList_toString_negSucc, List.cons_append, lex, lexFrom_cons_of_nil hdash, hds,
      List.cons_append, lexFrom_leave (hleave d hd), ← List.cons_append, ← hds, lex_toDigits _ hw,
      Option.map_map]
    rfl

/-! ## Statements with two literals -/

/-- A statement with two literals left open: its text and tokens before, between and after them.
What follows the second literal is too short to hold the tokens after the first. -/
structure Template (q : Char) where
  before : List Char
  between : List Char
  after : List Char
  beforeTokens : List Token
  betweenTokens : List Token
  afterTokens : List Token
  ne_backslash : q ≠ backslash
  scan_before : scan .start (before ++ [q]) = (beforeTokens, .text q [])
  scan_between : scan .start (between ++ [q]) = (betweenTokens, .text q [])
  lex_after : lex after = some afterTokens
  between_ne_nil : between ≠ []
  not_mem_between : q ∉ between
  not_mem_after : q ∉ after
  after_le : after.length ≤ weight betweenTokens + weight afterTokens

namespace Template

variable {q : Char} (t : Template q)

/-- The statement with `u` and `p` set between the quotes. -/
def fill (u p : List Char) : List Char :=
  t.before ++ q :: (u ++ q :: (t.between ++ q :: (p ++ q :: t.after)))

/-- The tokens of the statement with the literals `u` and `p`. -/
def tokens (u p : List Char) : List Token :=
  t.beforeTokens ++ .text u :: (t.betweenTokens ++ .text p :: t.afterTokens)

/-- The first literal ends at its own quote: another character follows it. -/
theorem between_eq_cons : ∃ c w, t.between = c :: w ∧ c ≠ q := by
  obtain ⟨c, w, hw⟩ := List.exists_cons_of_ne_nil t.between_ne_nil
  refine ⟨c, w, hw, fun hc => t.not_mem_between ?_⟩
  rw [hw, hc]
  exact List.mem_cons_self

theorem lex_open {a w : List Char} {ts : List Token}
    (h : scan .start (a ++ [q]) = (ts, .text q [])) :
    lex (a ++ q :: w) = (lexFrom (.text q []) w).map (ts ++ ·) := by
  rw [lex, ← List.singleton_append, ← List.append_assoc, lexFrom_append, h]

/-- After a quote that does not stand in `a`, no more than after the first one. -/
theorem length_le_of_append_eq {a b s r : List Char} (ha : q ∉ a) (h : a ++ q :: b = s ++ q :: r) :
    r.length ≤ b.length := by
  obtain ⟨s', rfl, hb⟩ | ⟨s', rfl, hr⟩ := List.append_eq_append_iff.mp h
  · have := congrArg List.length hb
    simp only [List.length_append, List.length_cons] at this
    omega
  · cases s' with
    | nil => exact Nat.le_of_eq (congrArg List.length (List.cons.inj hr).2)
    | cons c s' =>
      obtain ⟨rfl, -⟩ := List.cons.inj hr
      exact absurd (List.mem_append_right s List.mem_cons_self) ha

/-- The second literal ends at its own quote: no other follows. -/
theorem second_literal_iff (p : List Char) :
    lexFrom (.text q []) (p ++ q :: t.after) = some (.text p :: t.afterTokens) ↔ Plain q p := by
  have hhead : t.after.head? ≠ some q := fun h => t.not_mem_after (List.mem_of_mem_head? h)
  rw [lex_literal_iff t.ne_backslash hhead, and_iff_left t.lex_after]
  rintro s r h
  exact absurd (h ▸ List.mem_append_right s List.mem_cons_self) t.not_mem_after

/-- The tokens after the first literal do not fit into what follows the next quote. -/
theorem lex_ne_of_split {p s r : List Char}
    (h : t.between ++ q :: (p ++ q :: t.after) = s ++ q :: r) :
    lex r ≠ some (t.betweenTokens ++ .text p :: t.afterTokens) := by
  intro hr
  have hw := weight_lex hr
  have hl := length_le_of_append_eq t.not_mem_between h
  have := t.after_le
  simp only [weight_append, weight_cons, Token.weight] at hw
  simp only [List.length_append, List.length_cons] at hl
  omega

/-- **Both literals.** The texts set into the statement are its literals exactly when both are
plain. -/
theorem lex_fill_iff (u p : List Char) :
    lex (t.fill u p) = some (t.tokens u p) ↔ Plain q u ∧ Plain q p := by
  have hhead : (t.between ++ q :: (p ++ q :: t.after)).head? ≠ some q := by
    obtain ⟨c, w, hw, hc⟩ := t.between_eq_cons
    rw [hw]
    exact fun h => hc (Option.some.inj h)
  rw [fill, tokens, lex_open t.scan_before, Option.map_eq_some_iff]
  simp only [List.append_cancel_left_eq, exists_eq_right]
  rw [lex_literal_iff t.ne_backslash hhead fun s r h => t.lex_ne_of_split h,
    lex_open t.scan_between, Option.map_eq_some_iff]
  simp only [List.append_cancel_left_eq, exists_eq_right]
  rw [t.second_literal_iff]

/-! ### A statement cut short -/

theorem scan_open {a w : List Char} {ts : List Token}
    (h : scan .start (a ++ [q]) = (ts, .text q [])) :
    (scan .start (a ++ q :: w)).2 = (scan (.text q []) w).2 := by
  rw [← List.singleton_append, ← List.append_assoc, scan_append_snd, h]

theorem scan_cut_first {u : List Char} (hq : q ∉ u) (hb : backslash ∉ u) :
    (scan .start (t.before ++ q :: u)).2 = .text q u := by
  rw [scan_open t.scan_before, scan_text_of_not_mem [] hq hb]
  rfl

/-- Cut inside the second literal, the statement stays open. -/
theorem scan_cut_second {u p : List Char} (hqu : q ∉ u) (hbu : backslash ∉ u) (hqp : q ∉ p)
    (hbp : backslash ∉ p) :
    (scan .start (t.before ++ q :: (u ++ q :: (t.between ++ q :: p)))).2 = .text q p := by
  have hend : (scan (.textEnd q u) (t.between ++ q :: p)).2 =
      (scan .start (t.between ++ q :: p)).2 := by
    obtain ⟨c, w, hw, hc⟩ := t.between_eq_cons
    rw [hw]
    simp only [List.cons_append, scan, feed_textEnd hc]
    rfl
  rw [scan_open t.scan_before, scan_append_snd, scan_text_of_not_mem [] hqu hbu, List.nil_append]
  simp only [scan, feed_text_quote t.ne_backslash]
  rw [hend, scan_open t.scan_between, scan_text_of_not_mem [] hqp hbp]
  rfl

end Template

end SqlText
