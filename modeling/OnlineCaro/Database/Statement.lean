import OnlineCaro.Database.Model

/-!
# The tokens of the statements

`createAccount` and `logIn` set the username and the password between double quotes, as they are;
`updateUserScore` sets two numbers.

* `createTokens`, `logInTokens`: the fixed tokens of the two statements, with two literals.
* `updateTokens`, `lex_updateQuery`: the tokens of the third, whatever the numbers.
* `createTemplate`, `logInTemplate`: the two statements with their literals left open.
* **`statement_tokens_iff`**: a statement has those tokens exactly when both strings are plain.
-/

namespace OnlineCaro

open SqlText

/-- The tokens that create an account. -/
def createTokens (username password : String) : List Token :=
  [.word "INSERT".toList, .word "INTO".toList, .quoted userListTable.toList,
    .symbol '(', .quoted "username".toList, .symbol ',', .quoted "password".toList, .symbol ')',
    .word "VALUES".toList,
    .symbol '(', .text username.toList, .symbol ',', .text password.toList, .symbol ')']

/-- The tokens that look up an account. -/
def logInTokens (username password : String) : List Token :=
  [.word "SELECT".toList, .quoted "id".toList, .symbol ',', .quoted "username".toList, .symbol ',',
    .quoted "score".toList, .word "FROM".toList, .quoted userListTable.toList,
    .word "WHERE".toList, .quoted "username".toList, .symbol '=', .text username.toList,
    .word "AND".toList, .quoted "password".toList, .symbol '=', .text password.toList]

/-- The statement of `createAccount`. -/
def createTemplate : Template doubleQuote where
  before := "INSERT INTO `".toList ++ userListTable.toList
    ++ "` (`username`, `password`) VALUES ".toList ++ "(".toList
  between := [',']
  after := [')']
  beforeTokens := (createTokens "" "").take 10
  betweenTokens := [.symbol ',']
  afterTokens := [.symbol ')']
  ne_backslash := by decide
  scan_before := by decide +kernel
  scan_between := by decide
  lex_after := by decide
  between_ne_nil := by decide
  not_mem_between := by decide
  not_mem_after := by decide
  after_le := by decide

/-- The statement of `logIn`. -/
def logInTemplate : Template doubleQuote where
  before := "SELECT `id`, `username`, `score` FROM ".toList ++ "`".toList ++ userListTable.toList
    ++ "`".toList ++ " WHERE `username` = ".toList
  between := " AND `password` = ".toList
  after := []
  beforeTokens := (logInTokens "" "").take 11
  betweenTokens := [.word "AND".toList, .quoted "password".toList, .symbol '=']
  afterTokens := []
  ne_backslash := by decide
  scan_before := by decide +kernel
  scan_between := by decide +kernel
  lex_after := by decide
  between_ne_nil := by decide
  not_mem_between := by decide
  not_mem_after := by decide
  after_le := by decide

theorem toList_quote : "\"".toList = [doubleQuote] := by decide

theorem createTemplate_fill (u p : String) :
    (createQuery u p).toList = createTemplate.fill u.toList p.toList := by
  unfold createQuery Template.fill createTemplate
  simp only [String.toList_append, toList_quote, List.append_assoc, List.singleton_append,
    -String.reduceToList]
  rfl

theorem logInTemplate_fill (u p : String) :
    (logInQuery u p).toList = logInTemplate.fill u.toList p.toList := by
  unfold logInQuery Template.fill logInTemplate
  simp only [String.toList_append, toList_quote, List.append_assoc, List.cons_append,
    List.nil_append, -String.reduceToList]

theorem createTemplate_tokens (u p : String) :
    createTemplate.tokens u.toList p.toList = createTokens u p := rfl

theorem logInTemplate_tokens (u p : String) :
    logInTemplate.tokens u.toList p.toList = logInTokens u p := rfl

/-- **The statements carry the credentials.** Each of the two statements is the fixed sequence of
tokens with the username and the password as its two literals exactly when both are plain. -/
theorem statement_tokens_iff (u p : String) :
    (lex (createQuery u p).toList = some (createTokens u p) ↔
      Plain doubleQuote u.toList ∧ Plain doubleQuote p.toList) ∧
    (lex (logInQuery u p).toList = some (logInTokens u p) ↔
      Plain doubleQuote u.toList ∧ Plain doubleQuote p.toList) := by
  constructor
  · rw [createTemplate_fill, ← createTemplate_tokens, Template.lex_fill_iff]
  · rw [logInTemplate_fill, ← logInTemplate_tokens, Template.lex_fill_iff]

/-- A password that ends its literal: the condition of the statement then holds of every row. -/
theorem password_adds_condition :
    lex (logInQuery "alice" "\" OR \"1\"=\"1").toList =
      some (logInTokens "alice" "" ++
        [.word "OR".toList, .text "1".toList, .symbol '=', .text "1".toList]) ∧
    lex (logInQuery "alice" "\" OR \"1\"=\"1").toList ≠
      some (logInTokens "alice" "\" OR \"1\"=\"1") := by
  have h : lex (logInTemplate.fill "alice".toList "\" OR \"1\"=\"1".toList) =
      some (logInTokens "alice" "" ++
        [.word "OR".toList, .text "1".toList, .symbol '=', .text "1".toList]) := by
    decide +kernel
  rw [logInTemplate_fill, h]
  exact ⟨rfl, by decide⟩

/-! ## The statement of an update -/

/-- The tokens that set a score. -/
def updateTokens (id score : ℤ) : List Token :=
  [.word "UPDATE".toList, .quoted userListTable.toList, .word "SET".toList,
    .quoted "score".toList, .symbol '='] ++ intTokens score ++
    ([.word "WHERE".toList, .quoted "id".toList, .symbol '='] ++ intTokens id)

theorem toList_updateQuery (id score : Int32) :
    (updateQuery id score).toList =
      "UPDATE `user_list`SET `score`= ".toList ++ ((toString score.toInt).toList ++
        (" WHERE `id` = ".toList ++ ((toString id.toInt).toList ++ []))) := by
  unfold updateQuery userListTable
  simp only [String.toList_append, List.append_assoc, List.append_nil, -String.reduceToList]
  rfl

theorem lex_updateQuery (id score : Int32) :
    lex (updateQuery id score).toList = some (updateTokens id.toInt score.toInt) := by
  have hset : scan .start "UPDATE `user_list`SET `score`= ".toList =
      ((updateTokens 0 0).take 5, .start) := by decide +kernel
  have hwhere : scan .start " WHERE `id` = ".toList =
      ([.word "WHERE".toList, .quoted "id".toList, .symbol '='], .start) := by decide +kernel
  have hid : lex (" WHERE `id` = ".toList ++ ((toString id.toInt).toList ++ [])) =
      some ([.word "WHERE".toList, .quoted "id".toList, .symbol '='] ++ intTokens id.toInt) := by
    rw [lex, lexFrom_append, hwhere]
    dsimp only
    rw [← lex, lex_int _ (fun c hc => by cases hc)]
    rw [show lex [] = some [] from rfl]
    simp only [Option.map_some, List.append_nil]
  have hblank : ∀ c ∈ (" WHERE `id` = ".toList ++ ((toString id.toInt).toList ++ [])).head?,
      isWord c = false := by
    intro c hc
    obtain rfl : ' ' = c := Option.some.inj hc
    decide
  rw [toList_updateQuery, lex, lexFrom_append, hset]
  dsimp only
  rw [← lex, lex_int _ hblank, hid]
  rfl

end OnlineCaro
