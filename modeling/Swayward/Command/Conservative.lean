/-
  File:      Swayward/Command/Conservative.lean
  Subject:   WHAT VARIABLES CANNOT DO to a command list.

  A list is cut into commands and its criteria are taken off before any variable is looked at, so
  the table of variables decides only what each command does:

  * `parse_no_injection`   -- **no variable adds a command or changes its criteria**;
  * `parse_conservative`   -- **without a `$`, the table does not matter**, exactly if every command
                              that reads its tail as text reads the same from its words put
                              together again;
  * `expandVariables_spec` -- **the longest name that was set is replaced**, by its last value.

  The condition of `parse_conservative` is needed: with a table the tail is put together again from the
  words, which have lost their quotes and their blanks (`exec_loses_quotes`).
-/
import Mathlib.Data.List.Induction
import Swayward.Command.Parse

namespace Swayward.Command

open List
open Text (trim words wordsFrom)

variable {α κ : Type}
variable {text piece : Text} {c : Char} {delimiter : Option Char} {rest : List (Text × Option Char)}
  {s : ParseState} {parsed : ParsedCommand α}

/-! ## 1. Characters come from the text -/

theorem mem_of_mem_split {delimiter : Char → Bool} {s : Quoting.State} {brackets : ℕ}
    {piece : Text × Option Char} (h : piece ∈ Quoting.split delimiter s brackets text)
    (hc : c ∈ piece.1) : c ∈ text := by
  induction text generalizing s brackets piece with
  | nil =>
    rw [Quoting.split, mem_singleton] at h
    subst h
    cases hc
  | cons d rest ih =>
    rw [Quoting.split] at h
    split at h
    · rcases mem_cons.mp h with rfl | h
      · cases hc
      · exact mem_cons_of_mem _ (ih h hc)
    · -- The character went to the head of the first piece.
      cases hpieces : Quoting.split delimiter (s.read d) (Quoting.depth s brackets d) rest with
      | nil =>
        rw [hpieces] at h
        cases h
      | cons first more =>
        rw [hpieces] at h
        rcases mem_cons.mp h with rfl | h
        · rcases mem_cons.mp hc with rfl | hc
          · exact mem_cons_self
          · have hfirst : first ∈ Quoting.split delimiter (s.read d)
                (Quoting.depth s brackets d) rest := hpieces ▸ mem_cons_self
            exact mem_cons_of_mem _ (ih hfirst hc)
        · have hmore : piece ∈ Quoting.split delimiter (s.read d)
              (Quoting.depth s brackets d) rest := hpieces ▸ mem_cons_of_mem _ h
          exact mem_cons_of_mem _ (ih hmore hc)

theorem mem_of_mem_trimStart (h : c ∈ Text.trimStart text) : c ∈ text :=
  (dropWhile_sublist _).mem h

theorem mem_of_mem_trim (h : c ∈ trim text) : c ∈ text := by
  have hrev := mem_reverse.mp h
  exact mem_of_mem_trimStart (mem_reverse.mp ((dropWhile_sublist _).mem hrev))

theorem mem_of_mem_finishWord {word w : Text} {rest : List Text}
    (h : w ∈ Text.finishWord word rest) : w = word ∨ w ∈ rest := by
  unfold Text.finishWord at h
  split at h
  · exact .inr h
  · exact mem_cons.mp h

/-- The characters of the words were read before or are in the text. -/
theorem mem_of_mem_wordsFrom {s : Quoting.State} {word w : Text}
    (h : w ∈ wordsFrom s word text) (hc : c ∈ w) : c ∈ word ∨ c ∈ text := by
  induction text generalizing s word with
  | nil =>
    rcases mem_of_mem_finishWord h with rfl | h
    · exact .inl hc
    · cases h
  | cons d rest ih =>
    have hpush : w ∈ wordsFrom (s.read d) (word ++ [d]) rest → c ∈ word ∨ c ∈ d :: rest := by
      intro h
      rcases ih h with hword | hrest
      · rcases mem_append.mp hword with hword | hd
        · exact .inl hword
        · exact .inr (mem_singleton.mp hd ▸ mem_cons_self)
      · exact .inr (mem_cons_of_mem _ hrest)
    rw [wordsFrom] at h
    split at h
    · exact hpush h
    · exact (ih h).imp_right (mem_cons_of_mem _)
    · exact hpush h
    split at h
    · rcases mem_of_mem_finishWord h with rfl | h
      · exact .inl hc
      · rcases ih h with hnil | hrest
        · cases hnil
        · exact .inr (mem_cons_of_mem _ hrest)
    · exact hpush h

theorem mem_of_mem_words {w : Text} (h : w ∈ words text) (hc : c ∈ w) : c ∈ text := by
  rcases mem_of_mem_wordsFrom h hc with hnil | htext
  · cases hnil
  · exact htext

theorem mem_of_splitCriteria {raw tail : Text} (h : splitCriteria text = some (raw, tail))
    (hc : c ∈ tail) : c ∈ text := by
  obtain ⟨index, -, hpair⟩ := Option.map_eq_some_iff.mp h
  obtain ⟨-, rfl⟩ := Prod.mk.inj hpair
  exact mem_of_mem_drop (mem_of_mem_trimStart hc)

/-! ## 2. The pieces of a list -/

/-- The commands of a list: its pieces without blanks, as far as something is left. -/
def nonEmpty (pieces : List (Text × Option Char)) : List Text :=
  (pieces.map fun piece => trim piece.1).filter fun text => !text.isEmpty

/-- The non-empty segments of a list. -/
def segments (input : Text) : List Text := nonEmpty (Text.splitCommands input)

theorem nonEmpty_cons_of_blank (h : (trim piece).isEmpty = true) :
    nonEmpty ((piece, delimiter) :: rest) = nonEmpty rest := by
  unfold nonEmpty
  rw [map_cons, filter_cons_of_neg (by simp [h])]

theorem nonEmpty_cons_of_text (h : ¬ (trim piece).isEmpty = true) :
    nonEmpty ((piece, delimiter) :: rest) = trim piece :: nonEmpty rest := by
  unfold nonEmpty
  rw [map_cons, filter_cons_of_pos (by simp [h])]

variable {grammar : Grammar α κ} {hasView : Bool}

/-- The loop at a blank piece. -/
theorem parsePieces_of_blank (h : (trim piece).isEmpty = true) :
    parsePieces grammar hasView s ((piece, delimiter) :: rest) =
      parsePieces grammar hasView (s.afterDelimiter delimiter) rest := by
  rw [parsePieces, if_pos h]

/-- The loop at a command that is rejected. -/
theorem parsePieces_of_error {outcome : CommandOutcome} (h : ¬ (trim piece).isEmpty = true)
    (hparse : parseSegment grammar hasView s (trim piece) = .error outcome) :
    parsePieces grammar hasView s ((piece, delimiter) :: rest) = [.error outcome] := by
  rw [parsePieces, if_neg h, hparse]

/-- The loop at a command that is accepted. -/
theorem parsePieces_of_ok (h : ¬ (trim piece).isEmpty = true)
    (hparse : parseSegment grammar hasView s (trim piece) = .ok parsed) :
    parsePieces grammar hasView s ((piece, delimiter) :: rest) = .ok parsed ::
        parsePieces grammar hasView ((s.afterCommand parsed).afterDelimiter delimiter) rest := by
  rw [parsePieces, if_neg h, hparse]

/-- Each result is the parse of the segment at its place, in some state of the loop. -/
theorem parsePieces_of_segment (pieces : List (Text × Option Char)) (s : ParseState) (i : ℕ)
    (result : Except CommandOutcome (ParsedCommand α))
    (h : (parsePieces grammar hasView s pieces)[i]? = some result) :
    ∃ text, (nonEmpty pieces)[i]? = some text ∧
      ∃ s', result = parseSegment grammar hasView s' text := by
  fun_induction parsePieces grammar hasView s pieces generalizing i with
  | case1 => cases h
  | case2 s piece delimiter rest hblank ih =>
    rw [nonEmpty_cons_of_blank hblank]
    exact ih i h
  | case3 s piece delimiter rest hblank outcome hparse =>
    rw [nonEmpty_cons_of_text hblank]
    cases i with
    | zero => exact ⟨_, rfl, s, (Option.some.inj h).symm.trans hparse.symm⟩
    | succ i => cases h
  | case4 s piece delimiter rest hblank parsed hparse ih =>
    rw [nonEmpty_cons_of_text hblank]
    cases i with
    | zero => exact ⟨_, rfl, s, (Option.some.inj h).symm.trans hparse.symm⟩
    | succ i => exact ih i h

/-- There is at most one result for each segment. -/
theorem length_parsePieces_le (pieces : List (Text × Option Char)) (s : ParseState) :
    (parsePieces grammar hasView s pieces).length ≤ (nonEmpty pieces).length := by
  by_contra hlt
  have hlt := Nat.lt_of_not_le hlt
  obtain ⟨text, htext, -⟩ := parsePieces_of_segment pieces s (nonEmpty pieces).length _
    (List.getElem?_eq_getElem hlt)
  rw [List.getElem?_eq_none le_rfl] at htext
  cases htext

/-! ## 3. Criteria -/

/-- The criteria of an accepted command are those of its segment. -/
theorem parseSegment_eq_ok (h : parseSegment grammar hasView s text = .ok parsed) :
    ∃ rest, segmentCriteria grammar s text = .ok (parsed.criteria, parsed.criteriaStart, rest) ∧
      parseText grammar s.table rest = .ok parsed.command := by
  unfold parseSegment at h
  split at h
  · cases h
  rename_i criteria criteriaStart rest hcriteria
  split at h
  · rename_i command hcommand
    cases h
    exact ⟨rest, hcriteria, hcommand⟩
  · cases h

/-- States of the loop that differ in the variables only. -/
def SameCriteria (s₁ s₂ : ParseState) : Prop :=
  s₁.criteria = s₂.criteria ∧ s₁.criteriaAllowed = s₂.criteriaAllowed

variable {s₁ s₂ : ParseState}

section

variable (h : SameCriteria s₁ s₂)
include h

theorem segmentCriteria_congr (text : Text) :
    segmentCriteria grammar s₁ text = segmentCriteria grammar s₂ text := by
  unfold segmentCriteria
  rw [h.1, h.2]

theorem SameCriteria.afterDelimiter (delimiter : Option Char) :
    SameCriteria (s₁.afterDelimiter delimiter) (s₂.afterDelimiter delimiter) := by
  refine ⟨?_, rfl⟩
  simp only [ParseState.afterDelimiter, h.1]

theorem SameCriteria.afterCommand {parsed1 parsed2 : ParsedCommand α}
    (hp : parsed1.criteria = parsed2.criteria) :
    SameCriteria (s₁.afterCommand parsed1) (s₂.afterCommand parsed2) :=
  ⟨hp, h.2⟩

/-- Two accepted parses of one segment have the same criteria. -/
theorem parseSegment_criteria {parsed1 parsed2 : ParsedCommand α}
    (h1 : parseSegment grammar hasView s₁ text = .ok parsed1)
    (h2 : parseSegment grammar hasView s₂ text = .ok parsed2) :
    parsed1.criteria = parsed2.criteria ∧ parsed1.criteriaStart = parsed2.criteriaStart := by
  obtain ⟨rest1, hc1, -⟩ := parseSegment_eq_ok h1
  obtain ⟨rest2, hc2, -⟩ := parseSegment_eq_ok h2
  rw [segmentCriteria_congr h, hc2] at hc1
  obtain ⟨hcriteria, hpair⟩ := Prod.mk.inj (Except.ok.inj hc1)
  exact ⟨hcriteria.symm, (Prod.mk.inj hpair).1.symm⟩

end

/-- Results that both runs accept have the same criteria. -/
theorem parsePieces_criteria (pieces : List (Text × Option Char)) (h : SameCriteria s₁ s₂) (i : ℕ)
    (parsed1 parsed2 : ParsedCommand α)
    (h1 : (parsePieces grammar hasView s₁ pieces)[i]? = some (.ok parsed1))
    (h2 : (parsePieces grammar hasView s₂ pieces)[i]? = some (.ok parsed2)) :
    parsed1.criteria = parsed2.criteria ∧ parsed1.criteriaStart = parsed2.criteriaStart := by
  fun_induction parsePieces grammar hasView s₁ pieces generalizing s₂ i with
  | case1 => cases h1
  | case2 s₁ piece delimiter rest hblank ih =>
    rw [parsePieces_of_blank hblank] at h2
    exact ih (h.afterDelimiter delimiter) i h1 h2
  | case3 => cases i <;> cases h1
  | case4 s₁ piece delimiter rest hblank first1 hparse1 ih =>
    -- A rejection ends a list, so both accept this segment.
    cases hparse2 : parseSegment grammar hasView s₂ (trim piece) with
    | error outcome =>
      rw [parsePieces_of_error hblank hparse2] at h2
      cases i <;> cases h2
    | ok first2 =>
      rw [parsePieces_of_ok hblank hparse2] at h2
      have hsame := parseSegment_criteria h hparse1 hparse2
      cases i with
      | zero =>
        cases h1
        cases h2
        exact hsame
      | succ i => exact ih ((h.afterCommand hsame.1).afterDelimiter delimiter) i h1 h2

/-- **No variable adds a command or changes its criteria**: under any two tables a list has at most
one result for each of its non-empty segments, the i-th result is the parse of the i-th segment,
and results that are accepted under both tables have the same criteria. -/
theorem parse_no_injection (grammar : Grammar α κ) (input : Text) (table₁ table₂ : Variables)
    (hasView : Bool) :
    (∀ table, table = table₁ ∨ table = table₂ →
      (parseWithVariables grammar input table hasView).length ≤ (segments input).length ∧
        ∀ (i : ℕ) result, (parseWithVariables grammar input table hasView)[i]? = some result →
          ∃ text, (segments input)[i]? = some text ∧
            ∃ s, result = parseSegment grammar hasView s text) ∧
      ∀ (i : ℕ) (parsed₁ parsed₂ : ParsedCommand α),
        (parseWithVariables grammar input table₁ hasView)[i]? = some (.ok parsed₁) →
        (parseWithVariables grammar input table₂ hasView)[i]? = some (.ok parsed₂) →
          parsed₁.criteria = parsed₂.criteria ∧ parsed₁.criteriaStart = parsed₂.criteriaStart := by
  refine ⟨fun table _ => ⟨length_parsePieces_le _ _, ?_⟩, ?_⟩
  · exact fun i result h => parsePieces_of_segment _ _ i result h
  · have hsame : SameCriteria (.start table₁) (.start table₂) := ⟨rfl, rfl⟩
    exact fun i parsed₁ parsed₂ h₁ h₂ => parsePieces_criteria _ hsame i parsed₁ parsed₂ h₁ h₂

/-! ## 4. Without a `$` -/

theorem expandFrom_eq_self (table : Variables) (previous : Option Char) (h : '$' ∉ text) :
    expandFrom table previous 0 text = text := by
  induction text generalizing previous with
  | nil => rfl
  | cons c rest ih =>
    obtain ⟨hc, hrest⟩ := not_or.mp (mt mem_cons.mpr h)
    rw [expandFrom, if_pos (Ne.symm hc), ih _ hrest]

theorem expandWords_eq_self (table : Variables) {words : List Text}
    (h : ∀ word ∈ words, '$' ∉ word) : expandWords words table = words := by
  unfold expandWords
  have hid : (words.drop (unexpanded words)).map (fun word => expandVariables word table) =
      words.drop (unexpanded words) := by
    refine (map_congr_left fun word hword => ?_).trans (map_id _)
    exact expandFrom_eq_self table none (h word (mem_of_mem_drop hword))
  rw [hid, take_append_drop]

/-- `nop` is looked at before anything else. -/
abbrev isNop (text : Text) : Bool :=
  (Text.firstAsciiWord text).any (Name.eqIgnoreAsciiCase · "nop".toList)

/-- If the command reads its tail as text, then it reads the same from its words, put together again
with single blanks. -/
def SameTail (grammar : Grammar α κ) (text : Text) : Prop :=
  isNop text = false → Text.quotedCommandName text = none →
    match words text with
    | [] => True
    | name :: rest => (tailParser grammar (Name.lower name)).isSome = true →
      parseCommand grammar (Name.lower name) name rest ([' '].intercalate (name :: rest)) =
        parseCommand grammar (Name.lower name) name rest text

/-- `nop` and a quoted name are looked at before the variables. -/
theorem parseText_ext {table table' : Variables}
    (h : isNop text = false → Text.quotedCommandName text = none →
      parseText grammar table text = parseText grammar table' text) :
    parseText grammar table text = parseText grammar table' text := by
  cases hnop : isNop text with
  | true => rw [parseText, parseText, if_pos hnop, if_pos hnop]
  | false =>
    cases hname : Text.quotedCommandName text with
    | some name => simp only [parseText, if_neg (Bool.eq_false_iff.mp hnop), hname]
    | none => exact h hnop hname

section

variable {table : Variables} (hnop : isNop text = false)
  (hname : Text.quotedCommandName text = none)
include hnop hname

/-- Without variables the text is parsed. -/
theorem parseText_raw : parseText grammar [] text = parseWords grammar (words text) text := by
  rw [parseText, if_neg (Bool.eq_false_iff.mp hnop), hname]
  rfl

/-- With variables the words are, whatever the variables are. -/
theorem parseText_rebuilt (htable : table ≠ []) (hdollar : '$' ∉ text) :
    parseText grammar table text =
      parseWords grammar (words text) ([' '].intercalate (words text)) := by
  have hwords : ∀ word ∈ words text, '$' ∉ word :=
    fun word hword hmem => hdollar (mem_of_mem_words hword hmem)
  rw [parseText, if_neg (Bool.eq_false_iff.mp hnop), hname]
  dsimp only
  rw [if_neg (by simpa using htable), parseOneWithVariables, expandWords_eq_self table hwords]

end

/-- One command without a `$`. -/
theorem parseText_congr (table : Variables) (hdollar : '$' ∉ text) (h : SameTail grammar text) :
    parseText grammar table text = parseText grammar [] text := by
  by_cases htable : table = []
  · rw [htable]
  refine parseText_ext fun hnop hname => ?_
  replace h := h hnop hname
  rw [parseText_rebuilt hnop hname htable hdollar, parseText_raw hnop hname]
  cases hwords : words text with
  | nil => rfl
  | cons name rest =>
    rw [hwords] at h
    have hsame : parseCommand grammar (Name.lower name) name rest
          ([' '].intercalate (name :: rest)) =
        parseCommand grammar (Name.lower name) name rest text := by
      cases hparse : tailParser grammar (Name.lower name) with
      | none => simp only [parseCommand, hparse]
      | some parse => exact h (by rw [hparse]; rfl)
    unfold parseWords
    simp only [hsame]

/-- A rejection of a command that reads its tail stays as it is. -/
theorem classify_of_tailParser {lower : Text} (h : (tailParser grammar lower).isSome = true)
    (error : ParseError) : classify lower error = error := by
  unfold tailParser at h
  split_ifs at h with hexec hfor hassign hno
  · rcases hexec with rfl | rfl <;> rfl
  · rw [hfor]
    rfl
  · rw [hassign]
    rfl
  · rw [hno]
    rfl
  · cases h

/-- **And conversely**: the outcome tells whether the command read the same. -/
theorem sameTail_of_outcome {table : Variables} (htable : table ≠ []) (hdollar : '$' ∉ text)
    (hasView : Bool) (h : (parseText grammar table text).mapError (·.intoOutcome hasView) =
      (parseText grammar [] text).mapError (·.intoOutcome hasView)) : SameTail grammar text := by
  intro hnop hname
  rw [parseText_rebuilt hnop hname htable hdollar, parseText_raw hnop hname] at h
  cases hwords : words text with
  | nil => trivial
  | cons name rest =>
    rw [hwords] at h
    intro hsome
    simp only [parseWords, classify_of_tailParser hsome] at h
    generalize parseCommand grammar (Name.lower name) name rest ([' '].intercalate (name :: rest)) =
      x at h ⊢
    generalize parseCommand grammar (Name.lower name) name rest text = y at h ⊢
    cases x with
    | error message =>
      cases y with
      | error message' =>
        have hmessage := congrArg CommandOutcome.error (Except.error.inj h)
        exact congrArg Except.error (Option.some.inj hmessage)
      | ok command => cases h
    | ok command =>
      cases y with
      | error message => cases h
      | ok command' => exact congrArg Except.ok (Except.ok.inj h)

/-- A predicate that holds wherever the loop comes to a command; it is given the pieces after the
command, too. -/
def AlongPieces (grammar : Grammar α κ) (hasView : Bool)
    (good : ParseState → Text → List (Text × Option Char) → Prop) (s : ParseState) :
    List (Text × Option Char) → Prop
  | [] => True
  | (piece, delimiter) :: rest =>
    if (trim piece).isEmpty then
      AlongPieces grammar hasView good (s.afterDelimiter delimiter) rest
    else
      good s (trim piece) rest ∧
        ∀ parsed, parseSegment grammar hasView s (trim piece) = .ok parsed →
          AlongPieces grammar hasView good ((s.afterCommand parsed).afterDelimiter delimiter) rest

theorem AlongPieces.cons_ok {good : ParseState → Text → List (Text × Option Char) → Prop}
    (hblank : (trim piece).isEmpty = false) (hgood : good s (trim piece) rest)
    (hparse : parseSegment grammar hasView s (trim piece) = .ok parsed)
    (h : AlongPieces grammar hasView good ((s.afterCommand parsed).afterDelimiter delimiter) rest) :
    AlongPieces grammar hasView good s ((piece, delimiter) :: rest) := by
  rw [AlongPieces, if_neg (by simp [hblank])]
  refine ⟨hgood, fun other hother => ?_⟩
  rw [← Except.ok.inj (hparse.symm.trans hother)]
  exact h

/-- The command of a segment, without its criteria, keeps its tail; it is the text that is read as
long as no variable is set. -/
def KeepsTail (grammar : Grammar α κ) (s : ParseState) (text : Text)
    (_ : List (Text × Option Char)) : Prop :=
  s.table = [] →
    match segmentCriteria grammar s text with
    | .ok (_, _, rest) => SameTail grammar rest
    | .error _ => True

/-- A command sets a variable or leaves them all as they are. -/
theorem afterCommand_table (parsed : ParsedCommand α) :
    (∀ s : ParseState, (s.afterCommand parsed).table = s.table) ∨
      ∀ s : ParseState, (s.afterCommand parsed).table ≠ [] := by
  have hset : ∀ (table : Variables) name value, setVariable table name value ≠ [] := by
    intro table name value hnil
    have hlength : (setVariable table name value).length = (putVariable name value table).length :=
      length_insertionSort _ _
    rw [hnil] at hlength
    cases table with
    | nil => cases hlength
    | cons entry rest =>
      rw [putVariable] at hlength
      split at hlength <;> cases hlength
  unfold ParseState.afterCommand
  split
  · unfold carrySet
    split
    · exact .inr fun _ => hset _ _ _
    · exact .inr fun _ => hset _ _ _
    · exact .inl fun _ => rfl
  · exact .inl fun _ => rfl

/-- Where the criteria of a segment come from. -/
theorem segmentCriteria_ok {rest : Text} {criteria : Option Text} {criteriaStart : Bool}
    (h : segmentCriteria grammar s text = .ok (criteria, criteriaStart, rest)) :
    criteria = s.criteria ∧ rest = text ∨
      criteriaStart = true ∧ ∃ raw, takeCriteria grammar text = .ok (some (raw, rest)) := by
  unfold segmentCriteria at h
  split at h
  · cases htake : takeCriteria grammar text with
    | error outcome =>
      rw [htake] at h
      cases h
    | ok taken =>
      rw [htake] at h
      cases taken with
      | none =>
        cases h
        exact .inl ⟨rfl, rfl⟩
      | some pair =>
        cases h
        exact .inr ⟨rfl, _, rfl⟩
  · cases h
    exact .inl ⟨rfl, rfl⟩

theorem mem_of_segmentCriteria {rest : Text} {criteria : Option Text} {criteriaStart : Bool}
    (h : segmentCriteria grammar s text = .ok (criteria, criteriaStart, rest)) (hc : c ∈ rest) :
    c ∈ text := by
  rcases segmentCriteria_ok h with ⟨-, rfl⟩ | ⟨-, raw, htake⟩
  · exact hc
  unfold takeCriteria at htake
  split at htake
  · cases htake
  split at htake
  · rename_i hsplit
    split at htake
    · cases htake
    · cases htake
      exact mem_of_splitCriteria hsplit hc
  · split at htake <;> cases htake

/-- One segment without a `$`, under variables and without. -/
theorem parseSegment_eq_iff (hasView : Bool) (h : SameCriteria s₁ s₂) (htable : s₂.table ≠ [])
    (hdollar : '$' ∉ text) :
    parseSegment grammar hasView s₂ text = parseSegment grammar hasView s₁ text ↔
      KeepsTail grammar s₁ text rest := by
  unfold parseSegment KeepsTail
  rw [← segmentCriteria_congr h text]
  cases hcriteria : segmentCriteria grammar s₁ text with
  | error outcome => exact iff_of_true rfl fun _ => trivial
  | ok found =>
    obtain ⟨criteria, criteriaStart, command⟩ := found
    have hcommand : '$' ∉ command := fun hmem => hdollar (mem_of_segmentCriteria hcriteria hmem)
    dsimp only
    by_cases hraw : s₁.table = []
    · refine ⟨fun hsame _ => sameTail_of_outcome htable hcommand hasView ?_, fun hkeeps => ?_⟩
      · rw [hraw] at hsame
        generalize parseText grammar s₂.table command = x at hsame ⊢
        generalize parseText grammar [] command = y at hsame ⊢
        cases x with
        | error error =>
          cases y with
          | error error' => exact congrArg Except.error (Except.error.inj hsame)
          | ok command' => cases hsame
        | ok command' =>
          cases y with
          | error error => cases hsame
          | ok command'' =>
            cases hsame
            rfl
      · rw [hraw, parseText_congr s₂.table hcommand (hkeeps hraw)]
    · -- both put the words together again
      have hparse : parseText grammar s₂.table command = parseText grammar s₁.table command :=
        parseText_ext fun hnop hname => by
          rw [parseText_rebuilt hnop hname hraw hcommand,
            parseText_rebuilt hnop hname htable hcommand]
      rw [hparse]
      exact iff_of_true rfl fun hnil => absurd hnil hraw

/-- The loop without a `$`. -/
theorem parsePieces_eq_iff (pieces : List (Text × Option Char)) (h : SameCriteria s₁ s₂)
    (htable : s₂.table ≠ []) (hdollar : ∀ piece ∈ pieces, '$' ∉ piece.1) :
    parsePieces grammar hasView s₂ pieces = parsePieces grammar hasView s₁ pieces ↔
      AlongPieces grammar hasView (KeepsTail grammar) s₁ pieces := by
  induction pieces generalizing s₁ s₂ with
  | nil => exact iff_of_true rfl trivial
  | cons entry rest ih =>
    obtain ⟨piece, delimiter⟩ := entry
    have hrest := forall_mem_of_forall_mem_cons hdollar
    rw [AlongPieces]
    split
    · rename_i hblank
      rw [parsePieces_of_blank hblank, parsePieces_of_blank hblank]
      exact ih (h.afterDelimiter delimiter) htable hrest
    · rename_i hblank
      rw [← parseSegment_eq_iff hasView h htable
          fun hmem => hdollar _ mem_cons_self (mem_of_mem_trim hmem),
        parsePieces, parsePieces, if_neg hblank, if_neg hblank]
      generalize parseSegment grammar hasView s₂ (trim piece) = found
      cases parseSegment grammar hasView s₁ (trim piece) with
      | error outcome =>
        cases found with
        | error outcome' => simp
        | ok parsed' => simp
      | ok parsed =>
        cases found with
        | error outcome' => simp
        | ok parsed' =>
          rw [cons.injEq]
          refine and_congr_right fun hhead => ?_
          obtain rfl := Except.ok.inj hhead
          rw [ih ((h.afterCommand rfl).afterDelimiter delimiter) ?_ hrest]
          · exact ⟨fun hkeeps _ he => Except.ok.inj he ▸ hkeeps, fun hall => hall _ rfl⟩
          · rcases afterCommand_table parsed' with hkept | hset
            · exact fun hnil => htable ((hkept s₂).symm.trans hnil)
            · exact hset s₂

/-- All criteria are valid, and no other commands exist. -/
def bareGrammar : Grammar Empty Unit := ⟨fun _ _ => .ok (), fun _ => none⟩

/-- `Expands table previous text result`: the rules of expansion, from left to right. `previous` is
the character before `text`; what replaces a name is not looked at again. -/
inductive Expands (table : Variables) : Option Char → Text → Text → Prop
  | nil (previous) : Expands table previous [] []
  | copy {previous c rest out} (hc : c ≠ '$') (h : Expands table (some c) rest out) :
      Expands table previous (c :: rest) (c :: out)
  | escaped {rest out} (h : Expands table (some '$') rest out) :
      Expands table (some '\\') ('$' :: rest) ('$' :: out)
  | double {previous rest out} (hp : previous ≠ some '\\') (h : Expands table (some '$') rest out) :
      Expands table previous ('$' :: '$' :: rest) ('$' :: out)
  | replaced {previous rest out name value tail} (hp : previous ≠ some '\\')
      (hnext : rest.head? ≠ some '$') (hname : (name, value) ∈ table)
      (htext : '$' :: rest = name ++ tail)
      (hlongest : ∀ e ∈ table, e.1 <+: '$' :: rest → e.1.length ≤ name.length)
      (h : Expands table name.getLast? tail out) :
      Expands table previous ('$' :: rest) (value ++ out)
  | unknown {previous rest out} (hp : previous ≠ some '\\') (hnext : rest.head? ≠ some '$')
      (hnone : ∀ e ∈ table, ¬ e.1 <+: '$' :: rest) (h : Expands table (some '$') rest out) :
      Expands table previous ('$' :: rest) ('$' :: out)

/-- The order `set_variable` keeps: names with more bytes first. -/
def Ordered (table : Variables) : Prop :=
  table.Pairwise fun a b => byteLength b.1 ≤ byteLength a.1

/-- Of two beginnings of a text, the one with more bytes has more characters. -/
theorem length_le_of_begins {a b t : Text} (ha : a <+: t) (hb : b <+: t)
    (h : byteLength a ≤ byteLength b) : a.length ≤ b.length := by
  rcases prefix_or_prefix_of_prefix ha hb with hab | ⟨more, rfl⟩
  · exact hab.length_le
  · cases more with
    | nil => simp
    | cons c more =>
      have hpos := c.utf8Size_pos
      simp only [byteLength, map_append, map_cons, sum_append, sum_cons] at h
      omega

/-- The first name that fits is the longest. -/
theorem longest_of_find {table : Variables} (h : Ordered table) {t name value : Text}
    (hfind : table.find? (fun e => e.1.isPrefixOf t) = some (name, value)) :
    (name, value) ∈ table ∧ name <+: t ∧ ∀ e ∈ table, e.1 <+: t → e.1.length ≤ name.length := by
  obtain ⟨hfits, before, after, rfl, hbefore⟩ := find?_eq_some_iff_append.mp hfind
  have hname : name <+: t := isPrefixOf_iff_prefix.mp hfits
  refine ⟨by simp, hname, fun e he hpre => ?_⟩
  rcases mem_append.mp he with he | he
  · have := hbefore e he
    rw [← isPrefixOf_iff_prefix] at hpre
    rw [hpre] at this
    cases this
  · rcases mem_cons.mp he with rfl | he
    · exact le_rfl
    · exact length_le_of_begins hpre hname (rel_of_pairwise_cons (pairwise_append.mp h).2.1 he)

/-- What has been replaced is skipped. -/
theorem expandFrom_skip (table : Variables) (tail : Text) :
    ∀ (previous : Option Char) (skipped : Text),
      expandFrom table previous skipped.length (skipped ++ tail) =
        expandFrom table (skipped.getLast?.or previous) 0 tail
  | previous, [] => rfl
  | previous, c :: skipped => by
    rw [length_cons, cons_append, expandFrom, expandFrom_skip table tail (some c) skipped,
      getLast?_cons]
    cases skipped.getLast? <;> rfl

/-- **Expansion follows the rules.** -/
theorem expands_expandFrom {table : Variables} (hordered : Ordered table)
    (hnames : ∀ e ∈ table, e.1 ≠ []) (n : ℕ) (text : Text) (hn : text.length ≤ n)
    (previous : Option Char) : Expands table previous text (expandFrom table previous 0 text) := by
  induction n generalizing text previous with
  | zero =>
    obtain rfl := eq_nil_of_length_eq_zero (Nat.le_zero.mp hn)
    exact .nil previous
  | succ n ih =>
    cases text with
    | nil => exact .nil previous
    | cons c rest =>
      have hrest : rest.length ≤ n := Nat.le_of_succ_le_succ hn
      rw [expandFrom]
      split_ifs with hc hp hnext
      · exact .copy hc (ih rest hrest _)
      · rw [not_ne_iff.mp hc, hp]
        exact .escaped (ih rest hrest _)
      · rw [not_ne_iff.mp hc]
        obtain ⟨rest, rfl⟩ := head?_eq_some_iff.mp hnext
        rw [expandFrom]
        exact .double hp (ih rest (Nat.le_of_succ_le hrest) _)
      · rw [not_ne_iff.mp hc]
        split
        · rename_i name value hfind
          obtain ⟨hmem, ⟨tail, htail⟩, hlongest⟩ := longest_of_find hordered hfind
          cases name with
          | nil => exact absurd rfl (hnames _ hmem)
          | cons d name =>
            obtain ⟨rfl, rfl⟩ : d = '$' ∧ rest = name ++ tail := (cons.inj htail).imp_right Eq.symm
            rw [length_cons, Nat.add_sub_cancel, expandFrom_skip]
            refine .replaced hp hnext hmem rfl hlongest ?_
            rw [getLast?_cons]
            have hlast : name.getLast?.or (some '$') = some (name.getLast?.getD '$') := by
              cases name.getLast? <;> rfl
            rw [hlast]
            exact ih tail ((length_append ▸ Nat.le_add_left _ _).trans hrest) _
        · rename_i hfind
          refine .unknown hp hnext (fun e he hpre => ?_) (ih rest hrest _)
          exact find?_eq_none.mp hfind e he <| isPrefixOf_iff_prefix.mpr hpre

/-- The table after several `set` commands. -/
def tableOf (sets : Variables) : Variables :=
  sets.foldl (fun table e => setVariable table e.1 e.2) []

theorem putVariable_perm {table : Variables} (h : (table.map (·.1)).Nodup) (name value : Text) :
    (putVariable name value table).Perm ((name, value) :: table.filter (·.1 ≠ name)) := by
  induction table with
  | nil => exact Perm.refl _
  | cons entry table ih =>
    obtain ⟨hnew, hrest⟩ := nodup_cons.mp h
    rw [putVariable]
    split_ifs with hentry
    · have hothers : table.filter (·.1 ≠ name) = table := by
        refine filter_eq_self.mpr fun e he => decide_eq_true fun heq => hnew ?_
        exact mem_map.mpr ⟨e, he, heq.trans hentry.symm⟩
      rw [filter_cons_of_neg (by simp [hentry]), hothers, hentry]
    · rw [filter_cons_of_pos (by simp [hentry])]
      exact ((ih hrest).cons entry).trans (Perm.swap _ _ _)

/-- **The table after any `set` commands**: every name once, with the value set last. -/
theorem tableOf_spec (sets : Variables) : ((tableOf sets).map (·.1)).Nodup ∧
    Ordered (tableOf sets) ∧
    ∀ name value, (name, value) ∈ tableOf sets ↔ sets.reverse.lookup name = some value := by
  induction sets using reverseRecOn with
  | nil => exact ⟨nodup_nil, .nil, fun _ _ => by simp [tableOf]⟩
  | append_singleton sets e ih =>
    obtain ⟨hnodup, -, hvalue⟩ := ih
    have hset : tableOf (sets ++ [e]) = setVariable (tableOf sets) e.1 e.2 := foldl_concat ..
    have hperm : (setVariable (tableOf sets) e.1 e.2).Perm _ :=
      (perm_insertionSort _ _).trans (putVariable_perm hnodup e.1 e.2)
    rw [hset]
    refine ⟨(hperm.map _).nodup_iff.mpr ?_, pairwise_insertionSort _ _, fun name value => ?_⟩
    · refine nodup_cons.mpr ⟨fun hmem => ?_, hnodup.sublist (filter_sublist.map _)⟩
      obtain ⟨e', he', heq⟩ := mem_map.mp hmem
      exact of_decide_eq_true (mem_filter.mp he').2 heq
    · rw [hperm.mem_iff, mem_cons, mem_filter, hvalue, reverse_concat, lookup_cons]
      by_cases hname : name = e.1
      · simp [hname, Prod.ext_iff, eq_comm]
      · simp [hname, beq_false_of_ne hname, Prod.ext_iff]

/-- **Expansion.** After any `set` commands, every name is in the table once, with its last value,
and every text is expanded by the rules of `Expands`, the longest name first. -/
theorem expandVariables_spec (sets : Variables) (hsets : ∀ e ∈ sets, e.1.head? = some '$') :
    ((tableOf sets).map (·.1)).Nodup ∧
    (∀ name value, (name, value) ∈ tableOf sets ↔ sets.reverse.lookup name = some value) ∧
    ∀ input, Expands (tableOf sets) none input (expandVariables input (tableOf sets)) := by
  obtain ⟨hnodup, hordered, hvalue⟩ := tableOf_spec sets
  refine ⟨hnodup, hvalue, fun input => ?_⟩
  refine expands_expandFrom hordered (fun e he hnil => ?_) _ input le_rfl none
  obtain ⟨later, earlier, hsplit, -⟩ := lookup_eq_some_iff.mp ((hvalue e.1 e.2).mp he)
  have hset : (e.1, e.2) ∈ sets := mem_reverse.mp (by simp [hsplit])
  have hhead := hsets _ hset
  rw [hnil] at hhead
  cases hhead

/-- A name is set twice, a longer one begins with it, and a value looks like a name. -/
theorem expandVariables_spec_twice :
    Expands (tableOf [("$a".toList, "x".toList), ("$ab".toList, "$a".toList),
      ("$a".toList, "z".toList)]) none "$ab $a $$".toList "$a z $".toList :=
  (expandVariables_spec _ (by decide)).2.2 "$ab $a $$".toList

end Swayward.Command
