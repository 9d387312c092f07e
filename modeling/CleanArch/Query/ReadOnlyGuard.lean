import CleanArch.Lexing.Runs
import CleanArch.Text.Chars
import Mathlib.Data.List.Infix

/-!
# The read-only guard of query plans

`QueryPlanService.validate_read_only_query` (`app/services/query_plan_service.py`), which decides
whether the text of a query may be sent after `EXPLAIN ANALYZE`. It removes what `_COMMENT_REGEX`
matches, and looks for forbidden keywords among the words of the rest; the database gets the text as
it was. The regex knows no quotes: `'--'` starts a comment for it.
-/

namespace CleanArch

open Lexing List PyChar

/-!
## The lexical rules of SQL

A database splits the text of a query into string literals, quoted identifiers, comments and plain
text. It reads the text from left to right, with a look at what comes next (`SqlLexer`). The results
hold for all such rules; `postgresql` has those of PostgreSQL, with `E'…'` and `$tag$…$tag$`.
-/

/-- Whether a character is plain text, and the state after it. -/
structure SqlLexer where
  State : Type
  start : State
  step : State → Char → List Char → Bool × State

def sqlWord (c : Char) : Bool := c.isAlphanum || c == '_' || c == '$' || decide (128 ≤ c.toNat)

/-- Where the lexer is. At `plain` it knows whether a word goes on, a block comment has its depth,
and `skip n s` reads `n` more characters of a delimiter before `s`. -/
inductive SqlState where
  | plain (word : Bool)
  | quoted (close : Char) (escapes : Bool)
  | dollar (tag : List Char)
  | line
  | block (depth : Nat)
  | skip (n : Nat) (s : SqlState)

/-- The tag of `$tag$`, after its first `$`. -/
def dollarTag (rest : List Char) : Option (List Char) :=
  let tag := rest.takeWhile fun c => sqlWord c && c != '$'
  if rest[tag.length]? = some '$' ∧ ¬ tag.head?.any Char.isDigit then some tag else none

def SqlState.step : SqlState → Char → List Char → Bool × SqlState
  | .plain word, c, rest =>
    match c, rest with
    | '\'', _ => (false, .quoted '\'' false)
    | '"', _ => (false, .quoted '"' false)
    | '-', '-' :: _ => (false, .line)
    | '/', '*' :: _ => (false, .skip 1 (.block 0))
    | c, '\'' :: _ =>
      if c.toUpper = 'E' ∧ !word then (false, .skip 1 (.quoted '\'' true))
      else (true, .plain (sqlWord c))
    | c, rest =>
      match if c = '$' ∧ !word then dollarTag rest else none with
      | some tag => (false, .skip (tag.length + 1) (.dollar tag))
      | none => (true, .plain (sqlWord c))
  | .quoted close escapes, c, rest =>
    if escapes ∧ (c = '\\' ∨ c = close ∧ rest.head? = some close) then
      (false, .skip 1 (.quoted close escapes))
    else (false, if c = close then .plain false else .quoted close escapes)
  | .dollar tag, c, rest =>
    if c = '$' ∧ (tag ++ ['$']).isPrefixOf rest then (false, .skip (tag.length + 1) (.plain false))
    else (false, .dollar tag)
  | .line, c, _ => if c = '\n' ∨ c = '\r' then (true, .plain false) else (false, .line)
  | .block n, c, rest =>
    if c = '*' ∧ rest.head? = some '/' then
      (false, .skip 1 (if n = 0 then .plain false else .block (n - 1)))
    else if c = '/' ∧ rest.head? = some '*' then (false, .skip 1 (.block (n + 1)))
    else (false, .block n)
  | .skip n s, _, _ => (false, if n ≤ 1 then s else .skip (n - 1) s)

@[reducible] def postgresql : SqlLexer := ⟨SqlState, .plain false, SqlState.step⟩

def plainText (d : SqlLexer) (query : List Char) : List (Char × Bool) := scan d.step d.start query

def plainWords (d : SqlLexer) (query : List Char) : List (List Char) :=
  (runs (fun x => x.2 && sqlWord x.1) (plainText d query)).map (·.map Prod.fst)

lemma sqlWord_false (h : sqlWord c = false) :
    c.toNat < 128 ∧ c.isAlphanum = false ∧ (c == '_') = false := by
  simp only [sqlWord, Bool.or_eq_false_iff, decide_eq_false_iff_not, not_le] at h
  exact ⟨h.2, h.1.1.1, h.1.1.2⟩

structure UnsafeQueryExecutionException where
  message : String
  deriving DecidableEq

def forbiddenKeywords : List String :=
  ["INSERT", "UPDATE", "DELETE", "DROP", "ALTER", "TRUNCATE", "REPLACE", "GRANT", "REVOKE",
    "CREATE", "EXECUTE", "CALL", "MERGE"]

def readKeywords : List String := ["SELECT", "WITH", "VALUES"]

/-! ## The guard -/

inductive CommentState where
  | text
  | line
  | opening
  | block
  | closing
  deriving DecidableEq

/-- One character under `(--[^\n]*)|(/\*.*?\*/)`: does it stay, and the state after it. A `/*`
that is never closed is no match. -/
def CommentState.step : CommentState → Char → List Char → Bool × CommentState
  | .text, c, rest =>
    if c = '-' ∧ rest.head? = some '-' then (false, .line)
    else if c = '/' ∧ rest.head? = some '*' ∧ ['*', '/'] <:+: rest.tail then (false, .opening)
    else (true, .text)
  | .line, c, _ => if c = '\n' then (true, .text) else (false, .line)
  | .opening, _, _ => (false, .block)
  | .block, c, rest =>
    if c = '*' ∧ rest.head? = some '/' then (false, .closing) else (false, .block)
  | .closing, _, _ => (false, .text)

def keptText (query : List Char) : List (Char × Bool) := scan CommentState.step .text query

/-- `_COMMENT_REGEX.sub("", query)`. -/
def removeComments (query : List Char) : List Char :=
  ((keptText query).filter Prod.snd).map Prod.fst

/-- `re.findall(r"\b[A-Za-z_]+\b", s)`. -/
def findTokens [PyChar] (s : List Char) : List String :=
  ((runs word s).filter (·.all fun c => c.isAlpha || c == '_')).map String.ofList

def validateReadOnlyQuery [PyChar] (sqlQuery : String) :
    Except UnsafeQueryExecutionException Unit :=
  let stripped := trim space (removeComments sqlQuery.toList)
  if stripped.isEmpty then .error ⟨"Empty query provided for execution plan analysis."⟩
  else
    match findTokens (stripped.flatMap upper) with
    | [] => .error ⟨"Invalid SQL query syntax."⟩
    | firstToken :: tokens =>
      if firstToken ∉ readKeywords then
        .error ⟨"Query must begin with a read statement (SELECT, WITH), got '" ++ firstToken ++
          "'."⟩
      else
        match (firstToken :: tokens).find? (· ∈ forbiddenKeywords) with
        | some token =>
          .error ⟨"Prohibited mutating keyword '" ++ token ++
            "' detected in query plan diagnostic payload."⟩
        | none => .ok ()

/-- The statement that `analyze_query_execution_plan` sends for an accepted query. -/
def explainStatement (isPostgresql : Bool) (sqlQuery : String) : String :=
  (if isPostgresql then "EXPLAIN (ANALYZE, BUFFERS, FORMAT JSON) " else "EXPLAIN QUERY PLAN ") ++
    sqlQuery

structure ReadOnlyReplicaMutationException where
  message : String
  deriving DecidableEq

/-- `_guard_replica_mutations`, which looks at the start of a statement. -/
def guardReplicaMutations [PyChar] (statement : String) :
    Except ReadOnlyReplicaMutationException Unit :=
  let normalized := (trim space statement.toList).flatMap upper
  match ["INSERT", "UPDATE", "DELETE", "DROP", "ALTER", "CREATE", "TRUNCATE"].find?
      (fun start => start.toList.isPrefixOf normalized) with
  | some start =>
    .error ⟨"Mutating operation '" ++ start ++
      "' is strictly prohibited on read replica engine."⟩
  | none => .ok ()

/-- The guard of the replica lets every `EXPLAIN` pass, so `validate_read_only_query` is the only
one that looks at the query. -/
lemma guardReplicaMutations_explain [PyChar] :
    guardReplicaMutations (explainStatement isPostgresql q) = .ok () := by
  obtain ⟨rest, hrest⟩ : ∃ rest, (explainStatement isPostgresql q).toList = 'E' :: rest := by
    cases isPostgresql with
    | false | true => exact ⟨_, String.toList_append ..⟩
  have hE : space 'E' = false ∧ upper 'E' = ['E'] :=
    ⟨space_ascii 'E' (by decide), upper_ascii 'E' (by decide)⟩
  obtain ⟨a', b', htrim, ha, -⟩ :=
    trim_append (p := space) (a := []) (w := ['E']) (b := rest) (by simp) (by simp [hE.1])
  rw [suffix_nil.mp ha] at htrim
  have hnorm : (trim space (explainStatement isPostgresql q).toList).flatMap upper =
      'E' :: b'.flatMap upper := by
    rw [hrest, show 'E' :: rest = [] ++ ['E'] ++ rest from rfl, htrim]
    simp [hE.2]
  simp only [guardReplicaMutations, hnorm]
  rfl

lemma not_forbidden_of_accepted [PyChar] (h : validateReadOnlyQuery q = .ok ()) :
    ∀ token ∈ findTokens ((trim space (removeComments q.toList)).flatMap upper),
      token ∉ forbiddenKeywords := by
  simp only [validateReadOnlyQuery] at h
  split at h
  · cases h
  · split at h
    · cases h
    · next firstToken tokens htokens =>
      split at h
      · cases h
      · split at h
        · cases h
        · next hfind =>
          intro token ht
          rw [htokens] at ht
          simpa using List.find?_eq_none.mp hfind token ht

/-! ## The two readings of a query -/

/-- A character, whether the database reads it as plain text, and whether the guard keeps it. -/
structure Cell where
  char : Char
  plain : Bool
  kept : Bool

def cells (d : SqlLexer) (query : List Char) : List Cell :=
  zipWith (fun x y => ⟨x.1, x.2, y.2⟩) (plainText d query) (keptText query)

def Cell.inWord (x : Cell) : Bool := x.plain && sqlWord x.char

def keyword (word : List Char) : String := String.ofList (word.map Char.toUpper)

/-- The word `w` between `a` and `b` stays when the comments are removed, and it stays a word: no
word character comes next to it. -/
structure InSight (a w b : List Cell) : Prop where
  kept : ∀ x ∈ w, x.kept = true
  left : ∀ x ∈ (a.filter Cell.kept).getLast?, sqlWord x.char = false
  right : ∀ x ∈ (b.filter Cell.kept).head?, sqlWord x.char = false

def KeywordsInSight (d : SqlLexer) (query : List Char) : Prop :=
  ∀ a w b, cells d query = a ++ w ++ b → Stands Cell.inWord a w b →
    keyword (w.map Cell.char) ∈ forbiddenKeywords → InSight a w b

/-- Both scans can be read off the cells. -/
lemma map_zipWith_scan {σ τ : Type} (f : σ → Char → List Char → Bool × σ)
    (g : τ → Char → List Char → Bool × τ) (s : σ) (t : τ) (l : List Char) :
    let cells := zipWith (fun x y => (⟨x.1, x.2, y.2⟩ : Cell)) (scan f s l) (scan g t l)
    cells.map (fun x => (x.char, x.plain)) = scan f s l ∧
      cells.map (fun x => (x.char, x.kept)) = scan g t l := by
  induction l generalizing s t with
  | nil => exact ⟨rfl, rfl⟩
  | cons c cs ih => simp only [scan, zipWith_cons_cons, map_cons, ih, and_self]

lemma map_cells_plain : (cells d q).map (fun x => (x.char, x.plain)) = plainText d q :=
  (map_zipWith_scan ..).1

lemma removeComments_eq : removeComments q = ((cells d q).filter Cell.kept).map Cell.char := by
  have h : (cells d q).map (fun x => (x.char, x.kept)) = keptText q := (map_zipWith_scan ..).2
  rw [removeComments, ← h, filter_map, map_map]
  rfl

lemma mem_plainWords :
    w ∈ plainWords d q ↔ ∃ a u b, cells d q = a ++ u ++ b ∧ Stands Cell.inWord a u b ∧
      u.map Cell.char = w := by
  simp only [plainWords, ← map_cells_plain, mem_map, mem_runs_map]
  constructor
  · rintro ⟨-, ⟨a, u, b, heq, hs, rfl⟩, rfl⟩
    exact ⟨a, u, b, heq, hs, by simp⟩
  · rintro ⟨a, u, b, heq, hs, rfl⟩
    exact ⟨_, ⟨a, u, b, heq, hs, rfl⟩, by simp⟩

/-! ## What the guard sees -/

lemma isAlpha_of_keyword {word : List Char} (h : keyword word ∈ forbiddenKeywords) :
    ∀ c ∈ word, c.isAlpha = true := by
  have hall : forbiddenKeywords.all (fun k => k.toList.all Char.isUpper) = true := by
    decide +kernel
  have hupper : ∀ k ∈ forbiddenKeywords, ∀ c ∈ k.toList, c.isUpper = true :=
    fun k hk => all_eq_true.mp (all_eq_true.mp hall k hk)
  intro c hc
  have hu : c.toUpper.isUpper = true :=
    hupper _ h _ (by simpa [keyword] using ⟨c, hc, rfl⟩)
  have hlt := toNat_lt_of_toUpper (toNat_lt_of_isUpper hu)
  exact ascii_forall (P := fun c => c.toUpper.isUpper = true → c.isAlpha = true)
    (by decide +kernel) hlt hu

section Guard

variable [PyChar]

lemma alpha_facts (h : c.isAlpha = true) :
    space c = false ∧ upper c = [c.toUpper] ∧ word c.toUpper = true ∧ c.toUpper.isAlpha = true := by
  have hlt := toNat_lt_of_isAlpha h
  have hup : c.toUpper.isAlpha = true ∧ c.toUpper.toNat < 128 ∧
      decide (9 ≤ c.toNat ∧ c.toNat ≤ 13 ∨ 28 ≤ c.toNat ∧ c.toNat ≤ 32) = false :=
    ascii_forall (P := fun c => c.isAlpha = true → c.toUpper.isAlpha = true ∧
      c.toUpper.toNat < 128 ∧
      decide (9 ≤ c.toNat ∧ c.toNat ≤ 13 ∨ 28 ≤ c.toNat ∧ c.toNat ≤ 32) = false)
      (by decide +kernel) hlt h
  refine ⟨?_, upper_ascii c hlt, ?_, hup.1⟩
  · rw [space_ascii c hlt, hup.2.2]
  · rw [word_ascii _ hup.2.1]
    simp [Char.isAlphanum, hup.1]

lemma upper_of_not_sqlWord (h : sqlWord c = false) : upper c = [c] ∧ word c = false := by
  obtain ⟨hlt, halnum, hunder⟩ := sqlWord_false h
  have hself : c.toUpper = c :=
    ascii_forall (P := fun c => c.isAlphanum = false → c.toUpper = c) (by decide +kernel) hlt halnum
  rw [upper_ascii c hlt, hself, word_ascii c hlt, halnum, hunder]
  exact ⟨rfl, rfl⟩

lemma upper_word {word : List Char} (h : ∀ c ∈ word, c.isAlpha = true) :
    word.flatMap upper = word.map Char.toUpper := by
  induction word with
  | nil => rfl
  | cons c cs ih =>
    rw [flatMap_cons, map_cons, (alpha_facts (h c mem_cons_self)).2.1,
      ih fun c hc => h c (mem_cons_of_mem _ hc)]
    rfl

lemma token_of_letters (hne : w ≠ []) (hw : ∀ c ∈ w, c.isAlpha = true)
    (ha : ∀ c ∈ a.getLast?, sqlWord c = false) (hb : ∀ c ∈ b.head?, sqlWord c = false) :
    keyword w ∈ findTokens ((a ++ w ++ b).flatMap upper) := by
  have hs : Stands word (a.flatMap upper) (w.map Char.toUpper)
      (b.flatMap upper) := by
    refine ⟨by simpa using hne, ?_, ?_, ?_⟩
    · simpa using fun c hc => (alpha_facts (hw c hc)).2.2.1
    · intro c hc
      rcases a.eq_nil_or_concat with rfl | ⟨a', c', rfl⟩
      · cases hc
      · obtain ⟨hup, hword⟩ := upper_of_not_sqlWord (ha c' (by simp))
        simp only [concat_eq_append, flatMap_append, flatMap_singleton, hup,
          getLast?_append, getLast?_singleton, Option.some_or, Option.mem_def,
          Option.some.injEq] at hc
        rwa [← hc]
    · intro c hc
      cases b with
      | nil => cases hc
      | cons c' =>
        obtain ⟨hup, hword⟩ := upper_of_not_sqlWord (hb c' rfl)
        simp only [flatMap_cons, hup, singleton_append, List.head?_cons,
          Option.mem_def, Option.some.injEq] at hc
        rwa [← hc]
  have hrun : w.map Char.toUpper ∈ runs word ((a ++ w ++ b).flatMap upper) :=
    mem_runs.mpr ⟨_, _, by rw [flatMap_append, flatMap_append, upper_word hw], hs⟩
  have hletters : (w.map Char.toUpper).all (fun c => c.isAlpha || c == '_') = true := by
    refine all_eq_true.mpr fun u hu => ?_
    obtain ⟨c, hc, rfl⟩ := mem_map.mp hu
    rw [(alpha_facts (hw c hc)).2.2.2, Bool.true_or]
  exact mem_map.mpr ⟨_, mem_filter.mpr ⟨hrun, hletters⟩, rfl⟩

lemma InSight.token (heq : cells d q = a ++ w ++ b) (hs : Stands Cell.inWord a w b)
    (hw : keyword (w.map Cell.char) ∈ forbiddenKeywords) (h : InSight a w b) :
    keyword (w.map Cell.char) ∈ findTokens ((trim space (removeComments q)).flatMap upper) := by
  have halpha := isAlpha_of_keyword hw
  have hkept : removeComments q = (a.filter Cell.kept).map Cell.char ++ w.map Cell.char ++
      (b.filter Cell.kept).map Cell.char := by
    rw [removeComments_eq, heq, filter_append, filter_append,
      filter_eq_self.mpr h.kept, map_append, map_append]
  have hne : w.map Cell.char ≠ [] := by simpa using hs.ne
  -- the blanks at the ends of the text go, the word stays
  obtain ⟨a', b', htrim, ⟨a'', ha⟩, ⟨b'', hb⟩⟩ :=
    trim_append (a := (a.filter Cell.kept).map Cell.char)
      (b := (b.filter Cell.kept).map Cell.char) hne fun c hc => (alpha_facts (halpha c hc)).1
  rw [hkept, htrim]
  refine token_of_letters hne halpha (fun c hc => ?_) fun c hc => ?_
  · have hlast : c ∈ ((a.filter Cell.kept).map Cell.char).getLast? := by
      rw [← ha, getLast?_append, Option.mem_def.mp hc]
      rfl
    rw [getLast?_map] at hlast
    obtain ⟨x, hx, rfl⟩ := Option.map_eq_some_iff.mp hlast
    exact h.left x hx
  · have hhead : c ∈ ((b.filter Cell.kept).map Cell.char).head? := by
      rw [← hb, List.head?_append, Option.mem_def.mp hc]
      rfl
    rw [List.head?_map] at hhead
    obtain ⟨x, hx, rfl⟩ := Option.map_eq_some_iff.mp hhead
    exact h.right x hx

end Guard

/-- Of a query that the guard accepts, the database reads no forbidden keyword as a plain word if
and only if all such keywords are in sight, whatever its lexical rules are. -/
theorem accepted_read_only_iff [PyChar] (d : SqlLexer) (q : String)
    (h : validateReadOnlyQuery q = .ok ()) :
    (∀ w ∈ plainWords d q.toList, keyword w ∉ forbiddenKeywords) ↔ KeywordsInSight d q.toList := by
  constructor
  · intro hwords a w b heq hs hw
    exact absurd hw (hwords _ (mem_plainWords.mpr ⟨a, w, b, heq, hs, rfl⟩))
  · intro hsight w hw hforbidden
    obtain ⟨a, u, b, heq, hs, rfl⟩ := mem_plainWords.mp hw
    have htoken := (hsight a u b heq hs hforbidden).token heq hs hforbidden
    exact not_forbidden_of_accepted h _ htoken hforbidden

/-- A query with a forbidden word inside a comment. -/
theorem accepted_read_only_iff_select :
    letI := asciiChar
    validateReadOnlyQuery "SELECT id FROM users -- DELETE" = .ok () ∧
      ((∀ w ∈ plainWords postgresql "SELECT id FROM users -- DELETE".toList,
        keyword w ∉ forbiddenKeywords) ↔
      KeywordsInSight postgresql "SELECT id FROM users -- DELETE".toList) :=
  letI := asciiChar
  have h : validateReadOnlyQuery "SELECT id FROM users -- DELETE" = .ok () := by decide +kernel
  ⟨h, accepted_read_only_iff postgresql _ h⟩

/-- Queries that the guard accepts and that delete rows: a comment that joins two words, and
literals that look like the start of a comment. -/
theorem accepted_deletes :
    letI := asciiChar
    validateReadOnlyQuery "WITH d AS (DELETE/**/FROM users) SELECT 1" = .ok () ∧
      "DELETE".toList ∈ plainWords postgresql "WITH d AS (DELETE/**/FROM users) SELECT 1".toList ∧
      validateReadOnlyQuery "SELECT '--'; DELETE FROM users" = .ok () ∧
      "DELETE".toList ∈ plainWords postgresql "SELECT '--'; DELETE FROM users".toList ∧
      validateReadOnlyQuery "SELECT $$--$$; DELETE FROM users" = .ok () ∧
      "DELETE".toList ∈ plainWords postgresql "SELECT $$--$$; DELETE FROM users".toList ∧
      "DELETE" ∈ forbiddenKeywords := by
  decide +kernel

end CleanArch
