import CleanArch.Text.Fnmatch

/-!
# Topics of the message broker

`_topic_matches` and `_match_tokens` of `MockAMQPExchange` (`app/core/rabbitmq.py`). `*` stands for
one word and `#` for any number of words. Every other word should stand for itself (`AmqpMatches`),
but it is passed to `fnmatchcase`.
-/

namespace CleanArch
namespace Amqp

open Bool Fnmatch List Wildcards

/-- `s.split(".")`. -/
def words (s : String) : List (List Char) := s.toList.splitOn '.'

/-- A word of the pattern that is `*` or `#`. -/
def isWildcard (w : List Char) : Bool := w = ['*'] || w = ['#']

section Matcher

variable [PySeq]

def matchTokens : List (List Char) → List (List Char) → Bool
  | [], keyTokens => keyTokens.isEmpty
  | p :: patternTokens, keyTokens =>
    if p = ['#'] then
      (List.range (keyTokens.length + 1)).any fun i => matchTokens patternTokens (keyTokens.drop i)
    else if p = ['*'] then
      match keyTokens with
      | [] => false
      | _ :: keyTokens => matchTokens patternTokens keyTokens
    else
      match keyTokens with
      | [] => false
      | k :: keyTokens => fnmatchcase k p && matchTokens patternTokens keyTokens

def topicMatches (pattern routingKey : String) : Bool :=
  if pattern = "#" then true
  else if pattern = routingKey then true
  else matchTokens (words pattern) (words routingKey)

end Matcher

/-! ## What a pattern should match -/

/-- A word of a pattern: `literal` says what a word that is not a wildcard stands for. -/
def wordPiece (literal : List Char → List Char → Bool) (w : List Char) : Piece (List Char) :=
  if w = ['#'] then .many
  else if w = ['*'] then .one fun _ => true
  else .one (literal w)

def itself (w x : List Char) : Bool := x == w

/-- `*` is one word, `#` is any number of words, and every other word is itself. -/
def AmqpMatches (pattern routingKey : String) : Prop :=
  Matches ((words pattern).map (wordPiece itself)) (words routingKey)

instance (pattern routingKey : String) : Decidable (AmqpMatches pattern routingKey) :=
  inferInstanceAs (Decidable (Matches _ _))

/-! ## Words -/

lemma notMem_of_mem_splitOn {α : Type} [BEq α] [LawfulBEq α] {sep : α} {l w : List α}
    (hw : w ∈ l.splitOn sep) : sep ∉ w := by
  induction l generalizing w with
  | nil =>
    rw [splitOn_nil, mem_singleton] at hw
    rw [hw]
    exact not_mem_nil
  | cons x l ih =>
    rw [splitOn_cons_eq_if_modifyHead] at hw
    split at hw
    · rcases mem_cons.mp hw with rfl | hw
      · exact not_mem_nil
      · exact ih hw
    · next hx =>
      cases hl : l.splitOn sep with
      | nil =>
        rw [hl] at hw
        cases hw
      | cons =>
        rw [hl, modifyHead_cons] at hw
        rw [hl] at ih
        rcases mem_cons.mp hw with rfl | hw
        · intro hmem
          rcases mem_cons.mp hmem with heq | hmem
          · exact hx (beq_iff_eq.mpr heq.symm)
          · exact ih mem_cons_self hmem
        · exact ih (mem_cons_of_mem _ hw)

lemma dot_notMem (hw : w ∈ words s) : '.' ∉ w :=
  notMem_of_mem_splitOn hw

lemma exists_words_eq (hws : ws ≠ []) (hdot : ∀ w ∈ ws, '.' ∉ w) : ∃ s, words s = ws := by
  refine ⟨String.ofList (['.'].intercalate ws), ?_⟩
  rw [words, String.toList_ofList]
  exact splitOn_intercalate '.' hdot hws

lemma words_injective (h : words s = words s') : s = s' := by
  have := congrArg (['.'].intercalate ·) h
  simp only [words, intercalate_splitOn] at this
  exact String.toList_injective this

/-! ## Pieces -/

lemma wordPiece_of_literal (h : isWildcard w = false) : wordPiece literal w = .one (literal w) := by
  simp only [isWildcard, or_eq_false_iff, decide_eq_false_iff_not] at h
  rw [wordPiece, if_neg h.2, if_neg h.1]

lemma wordPiece_of_wildcard (h : isWildcard w = true) :
    wordPiece literal w = wordPiece literal' w := by
  simp only [isWildcard, or_eq_true, decide_eq_true_eq] at h
  unfold wordPiece
  rcases h with rfl | rfl
  all_goals rfl

lemma isOne_wordPiece : (wordPiece literal w).isOne = !decide (w = ['#']) := by
  unfold wordPiece
  split
  · next h => simp [h, Piece.isOne]
  · next h => split <;> simp [h, Piece.isOne]

lemma accepts_wordPiece : (wordPiece literal w).accepts x = (isWildcard w || literal w x) := by
  unfold wordPiece isWildcard
  split
  · next h => simp [h, Piece.accepts]
  · next h =>
    split
    · next h' => simp [h', Piece.accepts]
    · next h' => simp [h, h', Piece.accepts]

lemma matches_picks (pick : List Char → List Char) (ws : List (List Char)) :
    Matches (ws.map (wordPiece literal)) ((ws.filter fun w => !decide (w = ['#'])).map pick) ↔
      ∀ w ∈ ws, isWildcard w = false → literal w (pick w) = true := by
  have h := matches_picks_iff (wordPiece literal) pick ws
  simp only [isOne_wordPiece, accepts_wordPiece, or_eq_true] at h
  rw [h]
  refine forall₂_congr fun w _ => ?_
  cases isWildcard w <;> simp

lemma matches_self (h : ∀ w, literal w w = true) : Matches (ws.map (wordPiece literal)) ws := by
  induction ws with
  | nil => exact .nil
  | cons w ws ih =>
    rw [map_cons]
    by_cases hw : isWildcard w = false
    · rw [wordPiece_of_literal hw]
      exact .one (h w) ih
    · unfold wordPiece
      split
      · exact .take (.skip ih)
      · split
        · exact .one rfl ih
        · exact .one (h w) ih

/-! ## The matcher -/

section Matcher

variable [PySeq]

/-- A word that stands for what `fnmatchcase` reads in it. -/
def globbed (w x : List Char) : Bool := fnmatchcase x w

lemma matchTokens_iff (ps ks : List (List Char)) :
    matchTokens ps ks = true ↔ Matches (ps.map (wordPiece globbed)) ks := by
  induction ps generalizing ks with
  | nil => simp [matchTokens]
  | cons p ps ih =>
    rw [matchTokens.eq_def, map_cons, wordPiece]
    dsimp only
    split
    · simp only [any_eq_true, mem_range, Nat.lt_succ_iff, ih, matches_many_iff]
    · split
      · cases ks with
        | nil => simp
        | cons => simp [ih]
      · cases ks with
        | nil => simp
        | cons => simp [ih, globbed]

lemma topicMatches_iff : topicMatches pattern key = true ↔
    pattern = "#" ∨ pattern = key ∨ matchTokens (words pattern) (words key) = true := by
  unfold topicMatches
  split
  · simp [*]
  · split <;> simp [*]

lemma not_matchTokens_of_dead (hw : w ∈ ps) (hliteral : isWildcard w = false)
    (hdead : ∀ x, '.' ∉ x → fnmatchcase x w = false) :
    ¬ matchTokens ps (words key) = true := by
  rw [matchTokens_iff]
  intro h
  have hpiece : .one (globbed w) ∈ ps.map (wordPiece globbed) := by
    rw [← wordPiece_of_literal hliteral]
    exact mem_map_of_mem hw
  obtain ⟨x, hx, hmatch⟩ := h.exists_mem hpiece
  rw [globbed, hdead x (dot_notMem hx)] at hmatch
  cases hmatch

end Matcher

lemma itself_self (w : List Char) : itself w w = true := beq_self_eq_true w

lemma amqpMatches_self : AmqpMatches s s := matches_self itself_self

lemma amqpMatches_hash : AmqpMatches "#" key := by
  have hwords : words "#" = [['#']] := by decide +kernel
  rw [AmqpMatches, hwords]
  exact matches_many

/-! ## Patterns -/

section Patterns

variable [PySeq] {pattern : String}

def Faithful (pattern : String) : Prop :=
  ∀ key, topicMatches pattern key = true ↔ AmqpMatches pattern key

lemma faithful_of_plain (h : ∀ w ∈ words pattern, isWildcard w = false → plain w = true) :
    Faithful pattern := by
  have hpieces : (words pattern).map (wordPiece globbed) =
      (words pattern).map (wordPiece itself) := by
    refine map_congr_left fun w hw => ?_
    cases hwild : isWildcard w with
    | true => exact wordPiece_of_wildcard hwild
    | false =>
      rw [wordPiece_of_literal hwild, wordPiece_of_literal hwild]
      refine congrArg Piece.one (funext fun x => ?_)
      rw [globbed, itself, Bool.eq_iff_iff, fnmatchcase_plain_iff (h w hw hwild), beq_iff_eq]
  intro key
  rw [topicMatches_iff, matchTokens_iff, hpieces]
  refine ⟨?_, fun h => .inr (.inr h)⟩
  rintro (rfl | rfl | h)
  · exact amqpMatches_hash
  · exact amqpMatches_self
  · exact h

lemma faithful_of_dead (hliteral : ∀ w ∈ words pattern, isWildcard w = false)
    (hdead : ∃ w ∈ words pattern, ∀ x, '.' ∉ x → fnmatchcase x w = false) : Faithful pattern := by
  obtain ⟨w, hw, hdead⟩ := hdead
  intro key
  have hspec : AmqpMatches pattern key ↔ pattern = key := by
    have hpieces : (words pattern).map (wordPiece itself) =
        (words pattern).map fun w => .one (· == w) :=
      map_congr_left fun w hw => wordPiece_of_literal (hliteral w hw)
    rw [AmqpMatches, hpieces, matches_literal_iff]
    exact ⟨fun h => (words_injective h).symm, fun h => h ▸ rfl⟩
  rw [hspec, topicMatches_iff]
  refine ⟨?_, fun h => .inr (.inl h)⟩
  rintro (rfl | h | h)
  · cases hliteral ['#'] (by decide +kernel)
  · exact h
  · exact absurd h (not_matchTokens_of_dead hw (hliteral w hw) hdead)

lemma not_faithful_of_dead (hw : w ∈ words pattern) (hliteral : isWildcard w = false)
    (hdead : ∀ x, '.' ∉ x → fnmatchcase x w = false) (hv : v ∈ words pattern)
    (hwild : isWildcard v = true) : ¬ Faithful pattern := by
  intro hfaithful
  -- the wildcards stand for `a`, the other words for themselves
  let pick : List Char → List Char := fun u => if isWildcard u then ['a'] else u
  let ks := ((words pattern).filter fun u => !decide (u = ['#'])).map pick
  have hpick : ∀ u, isWildcard (pick u) = false := by
    intro u
    simp only [pick]
    split
    · decide
    · next h => exact eq_false_iff.mpr h
  have hmem : w ∈ ks := by
    refine mem_map.mpr ⟨w, mem_filter.mpr ⟨hw, ?_⟩, ?_⟩
    · simp only [isWildcard, or_eq_false_iff, decide_eq_false_iff_not] at hliteral
      simp [hliteral.2]
    · simp only [pick, hliteral, false_eq_true, if_false]
  have hdots : ∀ u ∈ ks, '.' ∉ u := by
    intro u hu
    obtain ⟨u', hu', rfl⟩ := mem_map.mp hu
    simp only [pick]
    split
    · decide
    · exact dot_notMem (mem_filter.mp hu').1
  obtain ⟨key, hkey⟩ := exists_words_eq (ne_nil_of_mem hmem) hdots
  have hspec : AmqpMatches pattern key := by
    rw [AmqpMatches, hkey, matches_picks]
    intro u hu hu'
    simp only [pick, hu', false_eq_true, if_false]
    exact itself_self u
  rcases topicMatches_iff.mp ((hfaithful key).mpr hspec) with rfl | rfl | hcode
  · rw [show words "#" = [['#']] by decide +kernel, mem_singleton] at hw
    rw [hw] at hliteral
    cases hliteral
  · rw [hkey] at hv
    obtain ⟨u, -, rfl⟩ := mem_map.mp hv
    rw [hpick] at hwild
    cases hwild
  · exact not_matchTokens_of_dead hw hliteral hdead hcode

lemma not_faithful_of_other (hw : w ∈ words pattern) (hliteral : isWildcard w = false)
    (hother : ∃ x, '.' ∉ x ∧ fnmatchcase x w = true ∧ x ≠ w)
    (hall : ∀ u ∈ words pattern, isWildcard u = false → ∃ x, '.' ∉ x ∧ fnmatchcase x u = true) :
    ¬ Faithful pattern := by
  intro hfaithful
  have hpicks : ∀ u, ∃ x, '.' ∉ x ∧ (u ∈ words pattern → isWildcard u = false →
      fnmatchcase x u = true) ∧ (u = w → x ≠ w) := by
    intro u
    by_cases huw : u = w
    · obtain ⟨x, hdot, hmatch, hne⟩ := hother
      exact ⟨x, hdot, fun _ _ => huw ▸ hmatch, fun _ => hne⟩
    · by_cases hu : u ∈ words pattern ∧ isWildcard u = false
      · obtain ⟨x, hdot, hmatch⟩ := hall u hu.1 hu.2
        exact ⟨x, hdot, fun _ _ => hmatch, fun h => absurd h huw⟩
      · exact ⟨[], not_mem_nil, fun h h' => absurd ⟨h, h'⟩ hu, fun h => absurd h huw⟩
  choose pick hdot hmatch hne using hpicks
  have hw' : w ≠ ['#'] := by
    rintro rfl
    cases hliteral
  have hks : ((words pattern).filter fun u => !decide (u = ['#'])).map pick ≠ [] :=
    ne_nil_of_mem (mem_map_of_mem (mem_filter.mpr ⟨hw, by simp [hw']⟩))
  obtain ⟨key, hkey⟩ := exists_words_eq hks fun x hx => by
    obtain ⟨u, -, rfl⟩ := mem_map.mp hx
    exact hdot u
  have hcode : matchTokens (words pattern) (words key) = true := by
    rw [matchTokens_iff, hkey, matches_picks]
    exact hmatch
  have hspec := (hfaithful key).mp (topicMatches_iff.mpr (.inr (.inr hcode)))
  rw [AmqpMatches, hkey, matches_picks] at hspec
  exact hne w rfl (beq_iff_eq.mp (hspec w hw hliteral))

/-- **A pattern has exactly the routing keys that it should have** if and only if all its words that
are not `*` or `#` are plain, or it has no `*` and `#` and a word that nothing matches. -/
theorem topic_matches_iff (pattern : String) :
    (∀ key, topicMatches pattern key = true ↔ AmqpMatches pattern key) ↔
      (∀ w ∈ words pattern, isWildcard w = false → plain w = true) ∨
      (∀ w ∈ words pattern, isWildcard w = false) ∧
        ∃ w ∈ words pattern, ∀ x, '.' ∉ x → fnmatchcase x w = false := by
  constructor
  · intro hfaithful
    by_contra hnot
    obtain ⟨hplain, hdead⟩ := not_or.mp hnot
    push Not at hplain
    obtain ⟨w, hw, hliteral, hwplain⟩ := hplain
    by_cases hall : ∀ u ∈ words pattern, isWildcard u = false →
        ∃ x, '.' ∉ x ∧ fnmatchcase x u = true
    · refine not_faithful_of_other hw hliteral ?_ hall hfaithful
      exact exists_other_match (by decide) (dot_notMem hw) (eq_false_iff.mpr hwplain)
        (hall w hw hliteral)
    · push Not at hall
      obtain ⟨u, hu, huliteral, hudead⟩ := hall
      have hudead : ∀ x, '.' ∉ x → fnmatchcase x u = false := fun x hx =>
        eq_false_iff.mpr (hudead x hx)
      refine hdead ⟨fun v hv => ?_, u, hu, hudead⟩
      by_contra hwild
      have hwild : isWildcard v = true := by simpa using hwild
      exact not_faithful_of_dead hu huliteral hudead hv hwild hfaithful
  · rintro (h | ⟨hliteral, hdead⟩)
    · exact faithful_of_plain h
    · exact faithful_of_dead hliteral hdead

end Patterns

@[reducible] def listedSeq : PySeq where
  inSeq stuff c := match stuff with
    | '!' :: rest => !rest.contains c
    | stuff => stuff.contains c

/-- A word of a pattern with `?` accepts a word that it is not, and a word with brackets does not
accept itself. -/
theorem words_are_globbed : (@topicMatches listedSeq "orders.v?" "orders.v2" = true ∧
      ¬ AmqpMatches "orders.v?" "orders.v2") ∧
    (@topicMatches listedSeq "*.[eu]" "orders.[eu]" = false ∧
      AmqpMatches "*.[eu]" "orders.[eu]") := by
  decide +kernel

end Amqp
end CleanArch
