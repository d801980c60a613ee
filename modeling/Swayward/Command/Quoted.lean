/-
  File:      Swayward/Command/Quoted.lean
  Subject:   QUOTED TEXT, from the command line to the command.

  A quoted argument passes the list splitter, the trimming and the tokenizer; a quoted value of
  criteria passes the list splitter, `criteria_end` and the lexer of the criteria:

  * `parse_quoted`     -- **a quoted argument arrives as it was typed**, unless it is itself between
                          single quotes: `join_words` takes those off too (`quotes_taken_twice`);
  * `criteria_quoting` -- **the three scanners of criteria agree** on values between double quotes.
-/
import Swayward.Command.Conservative

namespace Swayward.Command

open List Quoting
open Text (between criteriaEndFrom endsCommand finishWord isWhitespace joinWords splitCommands trim
  trimStart words wordsFrom)

variable {α κ : Type} {s s' : State} {l : Text} {c : Char}

/-! ## 1. Kinds of characters -/

/-- Between double quotes. -/
def inQuotes : State := ⟨some '"', false⟩

theorem kind_ground (hquote : isQuote c = false) (hslash : c ≠ '\\') : ground.kind c = .plain := by
  simp [State.kind, ground, hquote, hslash]

theorem kind_inQuotes (hquote : c ≠ '"') (hslash : c ≠ '\\') : inQuotes.kind c = .quoted := by
  simp [State.kind, inQuotes, hquote, hslash]

/-- Stands in an unquoted word: no blank, no quote, nothing that cuts a list or its criteria. -/
def isBare (c : Char) : Bool :=
  !isQuote c && c != '\\' && !isWhitespace c && ordinary endsCommand c

theorem of_isBare (h : isBare c = true) :
    ground.kind c = .plain ∧ isWhitespace c = false ∧ ordinary endsCommand c = true := by
  simp only [isBare, Bool.and_eq_true, Bool.not_eq_true', bne_iff_ne] at h
  exact ⟨kind_ground h.1.1.1 h.1.1.2, h.1.2, h.2⟩

theorem reads_bare (h : ∀ c ∈ l, isBare c = true) :
    reads (ordinary endsCommand) ground l = some ground := by
  refine reads_span fun c hc => .inr ?_
  obtain ⟨hkind, -, hordinary⟩ := of_isBare (h c hc)
  exact ⟨hkind, hordinary⟩

/-! ## 2. Words -/

theorem wordsFrom_span
    (h : ∀ c ∈ l, s.kind c = .quoted ∨ s.kind c = .plain ∧ isWhitespace c = false)
    (word r : Text) : wordsFrom s word (l ++ r) = wordsFrom s (word ++ l) r := by
  induction l generalizing word with
  | nil => rw [append_nil, nil_append]
  | cons c rest ih =>
    have hrest := ih (fun c hc => h c (mem_cons_of_mem _ hc)) (word ++ [c])
    rw [append_assoc, singleton_append] at hrest
    rw [cons_append, wordsFrom, State.read]
    rcases h c mem_cons_self with hc | ⟨hc, hblank⟩
    · simpa [hc] using hrest
    · simpa [hc, hblank] using hrest

/-- Unquoted words with a blank after each, and a quoted one. -/
def beforeQuoted (ws : List Text) (arg : Text) : Text :=
  ws.flatMap (· ++ [' ']) ++ '"' :: (arg ++ ['"'])

section

variable {ws : List Text} {arg : Text} (hws : ∀ w ∈ ws, w ≠ [] ∧ ∀ c ∈ w, isBare c = true)
  (hslash : '\\' ∉ arg) (hquote : '"' ∉ arg)
include hws hslash hquote

omit hws in
theorem kind_arg (c : Char) (hc : c ∈ arg) : inQuotes.kind c = .quoted :=
  kind_inQuotes (fun e => hquote (e ▸ hc)) fun e => hslash (e ▸ hc)

theorem words_beforeQuoted (hne : arg ≠ []) : words (beforeQuoted ws arg) = ws ++ [arg] := by
  unfold words beforeQuoted
  induction ws with
  | nil =>
    have hspan := wordsFrom_span (fun c hc => .inl (kind_arg hslash hquote c hc)) [] ['"']
    refine (hspan.trans ?_ : wordsFrom inQuotes [] (arg ++ ['"']) = [arg])
    simp [wordsFrom, State.kind, inQuotes, finishWord, hne]
  | cons w ws ih =>
    obtain ⟨hw, hbare⟩ := hws w mem_cons_self
    rw [flatMap_cons, append_assoc, append_assoc, singleton_append,
      wordsFrom_span fun c hc => .inr ?_]
    · refine (?_ : finishWord w (wordsFrom ground [] _) = _)
      rw [ih fun w hw => hws w (mem_cons_of_mem _ hw)]
      simp [finishWord, hw]
    · obtain ⟨hkind, hblank, -⟩ := of_isBare (hbare c hc)
      exact ⟨hkind, hblank⟩

theorem reads_beforeQuoted :
    reads (ordinary endsCommand) ground (beforeQuoted ws arg) = some ground := by
  unfold beforeQuoted
  induction ws with
  | nil =>
    refine (?_ : reads _ inQuotes (arg ++ ['"']) = _)
    rw [reads_append, reads_span fun c hc => .inl (kind_arg hslash hquote c hc)]
    rfl
  | cons w ws ih =>
    rw [flatMap_cons, append_assoc, append_assoc, reads_append, reads_bare (hws w mem_cons_self).2]
    exact ih fun w hw => hws w (mem_cons_of_mem _ hw)

end

/-! ## 3. Quoted arguments -/

theorem trim_quoted (hc : isWhitespace c = false) (l : Text) :
    trim (c :: (l ++ ['"'])) = c :: (l ++ ['"']) := by
  unfold trim trimStart Text.trimEnd
  rw [dropWhile_cons_of_neg (by simp [hc]), ← cons_append, reverse_append, reverse_singleton,
    singleton_append, dropWhile_cons_of_neg (by decide)]
  simp

theorem parse_beforeQuoted {grammar : Grammar α κ} {hasView : Bool} (w : Text) (ws : List Text)
    {arg : Text} {command : Command α} (hws : ∀ x ∈ w :: ws, x ≠ [] ∧ ∀ c ∈ x, isBare c = true)
    (hslash : '\\' ∉ arg) (hquote : '"' ∉ arg) (hne : arg ≠ [])
    (hnop : (Text.firstAsciiWord (beforeQuoted (w :: ws) arg)).any
      (Name.eqIgnoreAsciiCase · "nop".toList) = false)
    (hname : Text.quotedCommandName (beforeQuoted (w :: ws) arg) = none)
    (hparse : parseCommand grammar (Name.lower w) w (ws ++ [arg]) (beforeQuoted (w :: ws) arg) =
      .ok command) :
    parseWithVariables grammar (beforeQuoted (w :: ws) arg) [] hasView =
      [.ok ⟨command, none, false⟩] := by
  have hsplit : splitCommands (beforeQuoted (w :: ws) arg) =
      [(beforeQuoted (w :: ws) arg, none)] := by
    have := split_append_of_reads (reads_beforeQuoted hws hslash hquote) 0 []
    rw [append_nil] at this
    rw [splitCommands, this, split, foldr_consHead, append_nil]
  obtain ⟨c, w', rfl⟩ := exists_cons_of_ne_nil (hws w mem_cons_self).1
  obtain ⟨-, hblank, hordinary⟩ := of_isBare ((hws _ mem_cons_self).2 c mem_cons_self)
  have htrim : trim (beforeQuoted ((c :: w') :: ws) arg) = beforeQuoted ((c :: w') :: ws) arg := by
    have := trim_quoted hblank (w' ++ ' ' :: (ws.flatMap (· ++ [' ']) ++ '"' :: arg))
    simpa [beforeQuoted] using this
  have hwords := words_beforeQuoted hws hslash hquote hne
  have htext : parseText grammar [] (beforeQuoted ((c :: w') :: ws) arg) = .ok command := by
    rw [parseText, hnop, hname, hwords]
    simp only [Bool.false_eq_true, if_false, isEmpty_nil, if_true, cons_append, parseWords, hparse]
  have hcriteria : segmentCriteria grammar (.start []) (beforeQuoted ((c :: w') :: ws) arg) =
      .ok (none, false, beforeQuoted ((c :: w') :: ws) arg) := by
    have : takeCriteria grammar (beforeQuoted ((c :: w') :: ws) arg) = .ok none := by
      rw [takeCriteria, if_pos]
      simp only [ordinary, Bool.and_eq_true, bne_iff_ne] at hordinary
      simpa [beforeQuoted] using hordinary.1.2
    rw [segmentCriteria, this]
    rfl
  unfold parseWithVariables
  rw [hsplit, parsePieces_of_ok]
  · rfl
  · rw [htrim]
    simp [beforeQuoted]
  · rw [htrim, parseSegment, hcriteria]
    dsimp only
    rw [show (ParseState.start []).table = [] from rfl, htext]

theorem length_of_between {quote : Char} {arg inner : Text} (h : between quote arg = some inner) :
    inner.length < arg.length := by
  cases arg with
  | nil => cases h
  | cons c rest =>
    obtain ⟨-, he⟩ := Option.ite_none_right_eq_some.mp h
    rw [← Option.some.inj he, length_dropLast, length_cons]
    omega

/-- Quotes are left to take off exactly if the argument is between single ones. -/
theorem joinWords_singleton_iff {arg : Text} (hquote : '"' ∉ arg) :
    joinWords [arg] = arg ↔ between '\'' arg = none := by
  have hdouble : between '"' arg = none := by
    cases arg with
    | nil => rfl
    | cons c rest => simp [between, (ne_of_not_mem_cons hquote).symm]
  have hjoin : joinWords [arg] = (between '\'' arg).getD arg := by
    simp [joinWords, Text.unquote, hdouble, intercalate]
  rw [hjoin]
  cases hsingle : between '\'' arg with
  | none => exact iff_of_true rfl rfl
  | some inner =>
    have hlt := length_of_between hsingle
    refine iff_of_false (fun he => ?_) nofun
    rw [show inner = arg from he] at hlt
    omega

theorem parseMark_singleton {arg : Text} (hoption : "--".toList.isPrefixOf arg = false) :
    parseMark [arg] = .ok (.mark false false (joinWords [arg]) : Command α) := by
  have hoptions : markOptions false false [arg] = .ok (false, false, [arg]) := by
    rw [markOptions, if_neg (Bool.eq_false_iff.mp hoption)]
  rw [parseMark, hoptions]
  rfl

/-- **A quoted argument arrives as it was typed, exactly if** it is not between single quotes
itself. -/
theorem parse_quoted (grammar : Grammar α κ) (hasView : Bool) (arg : Text) (hne : arg ≠ [])
    (hslash : '\\' ∉ arg) (hquote : '"' ∉ arg) (hoption : "--".toList.isPrefixOf arg = false) :
    (parseWithVariables grammar ("mark \"".toList ++ arg ++ ['"']) [] hasView =
        [.ok ⟨.mark false false arg, none, false⟩] ∧
      parseWithVariables grammar ("title_format \"".toList ++ arg ++ ['"']) [] hasView =
        [.ok ⟨.titleFormat arg, none, false⟩] ∧
      parseWithVariables grammar ("unmark \"".toList ++ arg ++ ['"']) [] hasView =
        [.ok ⟨.unmark (some arg), none, false⟩] ∧ ∀ v : Text, (∀ c ∈ v, isBare c = true) →
        parseWithVariables grammar ("set $".toList ++ v ++ " \"".toList ++ arg ++ ['"']) []
            hasView = [.ok ⟨.set ('$' :: v) arg, none, false⟩]) ↔
      between '\'' arg = none := by
  have hmark : parseWithVariables grammar ("mark \"".toList ++ arg ++ ['"']) [] hasView =
      [.ok ⟨.mark false false (joinWords [arg]), none, false⟩] :=
    parse_beforeQuoted "mark".toList [] (by simp; decide) hslash hquote hne rfl rfl
      (parseMark_singleton hoption)
  have htitle : parseWithVariables grammar ("title_format \"".toList ++ arg ++ ['"']) [] hasView =
      [.ok ⟨.titleFormat (joinWords [arg]), none, false⟩] :=
    parse_beforeQuoted "title_format".toList [] (by simp; decide) hslash hquote hne rfl rfl rfl
  have hunmark : parseWithVariables grammar ("unmark \"".toList ++ arg ++ ['"']) [] hasView =
      [.ok ⟨.unmark (some (joinWords [arg])), none, false⟩] :=
    parse_beforeQuoted "unmark".toList [] (by simp; decide) hslash hquote hne rfl rfl rfl
  have hset : ∀ v : Text, (∀ c ∈ v, isBare c = true) →
      parseWithVariables grammar ("set $".toList ++ v ++ " \"".toList ++ arg ++ ['"']) []
        hasView = [.ok ⟨.set ('$' :: v) (joinWords [arg]), none, false⟩] := by
    intro v hv
    have hws : ∀ x ∈ ["set".toList, '$' :: v], x ≠ [] ∧ ∀ c ∈ x, isBare c = true := by
      rintro x (_ | ⟨_, _ | ⟨_, hx⟩⟩)
      · simp
        decide
      · exact ⟨cons_ne_nil _ _, forall_mem_cons.mpr ⟨by decide, hv⟩⟩
      · cases hx
    have htext : "set $".toList ++ v ++ " \"".toList ++ arg ++ ['"'] =
        beforeQuoted ["set".toList, '$' :: v] arg := by
      simp [beforeQuoted]
    rw [htext]
    exact parse_beforeQuoted "set".toList ['$' :: v] hws hslash hquote hne rfl rfl rfl
  rw [← joinWords_singleton_iff hquote, hmark, htitle, hunmark]
  constructor
  · rintro ⟨-, he, -⟩
    simpa using he
  · intro hjoin
    rw [hjoin] at hset ⊢
    exact ⟨rfl, rfl, rfl, hset⟩

/-- Blanks, separators, brackets and an apostrophe. -/
theorem parse_quoted_title :
    parseWithVariables bareGrammar "title_format \" it's [a]; %title, \"".toList [] true =
      [.ok ⟨.titleFormat " it's [a]; %title, ".toList, none, false⟩] :=
  ((parse_quoted bareGrammar true " it's [a]; %title, ".toList (by decide) (by decide) (by decide)
    (by decide)).mpr (by decide)).2.1

/-- **Single quotes inside double quotes are taken off too.** -/
theorem quotes_taken_twice :
    parseWithVariables bareGrammar "mark \"'a'\"".toList [] true =
        [.ok ⟨.mark false false "a".toList, none, false⟩] ∧
      parseWithVariables bareGrammar "title_format \"'a'\"".toList [] true =
        [.ok ⟨.titleFormat "a".toList, none, false⟩] ∧
      parseWithVariables bareGrammar "unmark \"'a'\"".toList [] true =
        [.ok ⟨.unmark (some "a".toList), none, false⟩] ∧
      parseWithVariables bareGrammar "set $v \"'a'\"".toList [] true =
        [.ok ⟨.set "$v".toList "a".toList, none, false⟩] :=
  ⟨rfl, rfl, rfl, rfl⟩

/-! ## 4. The lexer of criteria -/

def isNameChar (c : Char) : Bool := c.isLower || c == '_'

/-- `next_name`: the name, if one is left, and what follows it. -/
def nextName (input : Text) : Except Text (Option Text × Text) :=
  let rest := trimStart input
  if rest.isEmpty then .ok (none, [])
  else
    let name := rest.takeWhile isNameChar
    if name.isEmpty then .error "Invalid criteria token".toList
    else .ok (some name, rest.dropWhile isNameChar)

/-- The loop of `next_value`. A backslash is removed before a double quote and kept otherwise. -/
def nextValueFrom (quoted : Bool) : Text → Except Text (Text × Text)
  | [] => if quoted then .error "Quote mismatch in criteria".toList else .ok ([], [])
  | '\\' :: '"' :: rest => (nextValueFrom quoted rest).map fun value => ('"' :: value.1, value.2)
  | c :: rest =>
    if c != '\\' && ((quoted && c == '"') || (!quoted && isWhitespace c)) then .ok ([], rest)
    else (nextValueFrom quoted rest).map fun value => (c :: value.1, value.2)

def nextValue (input : Text) : Except Text (Option Text × Text) :=
  match trimStart input with
  | '=' :: rest =>
    let rest := trimStart rest
    let quoted := rest.head? == some '"'
    (nextValueFrom quoted (if quoted then rest.tail else rest)).map fun value =>
      (some value.1, value.2)
  | rest => .ok (none, rest)

/-- The loop of `parse_pairs`. Every round reads a name, so it ends before the fuel does. -/
def parsePairsFrom : ℕ → Text → Except Text (List (Text × Option Text))
  | 0, _ => .error []
  | fuel + 1, input => do
    let (name, rest) ← nextName input
    match name with
    | none => .ok []
    | some name =>
      let (value, rest) ← nextValue rest
      let pairs ← parsePairsFrom fuel rest
      .ok ((name, value) :: pairs)

def parsePairs (input : Text) : Except Text (List (Text × Option Text)) :=
  parsePairsFrom (input.length + 1) input

/-! ## 5. Quoted criteria -/

/-- A backslash before every double quote. -/
def escapeQuotes (value : Text) : Text :=
  value.flatMap fun c => if c = '"' then ['\\', '"'] else [c]

def quotedPair (pair : Text × Text) : Text :=
  pair.1 ++ '=' :: '"' :: (escapeQuotes pair.2 ++ ['"'])

def quotedCriteria (pairs : List (Text × Text)) : Text :=
  '[' :: ([' '].intercalate (pairs.map quotedPair) ++ [']'])

theorem isBare_of_isNameChar (h : isNameChar c = true) : isBare c = true := by
  have hrange : 95 ≤ c.toNat ∧ c.toNat < 123 := by
    simp only [isNameChar, Bool.or_eq_true, beq_iff_eq] at h
    rcases h with hlower | rfl
    · have hlow : 97 ≤ c.toNat := of_decide_eq_true (Bool.and_eq_true_iff.mp hlower).1
      have hhigh : c.toNat ≤ 122 := of_decide_eq_true (Bool.and_eq_true_iff.mp hlower).2
      omega
    · decide
  have hall : ∀ n < 123, 95 ≤ n → isBare (Char.ofNat n) = true := by decide
  rw [← Char.ofNat_toNat c]
  exact hall _ hrange.2 hrange.1

theorem reads_escapeQuotes {value : Text} (hslash : '\\' ∉ value) (ok : Char → Bool) :
    reads ok inQuotes (escapeQuotes value) = some inQuotes := by
  induction value with
  | nil => rfl
  | cons c value ih =>
    have hrest := ih (not_mem_of_not_mem_cons hslash)
    rw [escapeQuotes, flatMap_cons, reads_append]
    by_cases hc : c = '"'
    · rw [if_pos hc]
      exact hrest
    · have hkind := kind_inQuotes hc (ne_of_not_mem_cons hslash).symm
      rw [if_neg hc, reads_span fun x hx => .inl (mem_singleton.mp hx ▸ hkind)]
      exact hrest

theorem nextValueFrom_escapeQuotes {value : Text} (hslash : '\\' ∉ value) (rest : Text) :
    nextValueFrom true (escapeQuotes value ++ '"' :: rest) = .ok (value, rest) := by
  induction value with
  | nil => rfl
  | cons c value ih =>
    have hrest := ih (not_mem_of_not_mem_cons hslash)
    rw [escapeQuotes, flatMap_cons, append_assoc]
    by_cases hc : c = '"'
    · subst hc
      exact congrArg (Except.map fun v => ('"' :: v.1, v.2)) hrest
    · have hne : c ≠ '\\' := (ne_of_not_mem_cons hslash).symm
      rw [if_neg hc, singleton_append, nextValueFrom]
      · rw [if_neg (by simp [hc]), ← escapeQuotes, hrest]
        rfl
      · exact fun _ e _ => hne e

section

variable {pairs : List (Text × Text)}
  (hpairs : ∀ p ∈ pairs, p.1 ≠ [] ∧ (∀ c ∈ p.1, isNameChar c = true) ∧ '\\' ∉ p.2)

/-- A pair is read with nothing left open. -/
theorem reads_quotedPair {p : Text × Text} (hname : ∀ c ∈ p.1, isNameChar c = true)
    (hslash : '\\' ∉ p.2) :
    reads (ordinary endsCommand) ground (quotedPair p) = some ground := by
  rw [quotedPair, reads_append, reads_bare fun c hc => isBare_of_isNameChar (hname c hc)]
  refine (?_ : reads _ inQuotes (escapeQuotes p.2 ++ ['"']) = _)
  rw [reads_append, reads_escapeQuotes hslash]
  rfl

theorem nextName_quotedPair {p : Text × Text} (hne : p.1 ≠ [])
    (hname : ∀ c ∈ p.1, isNameChar c = true) (rest : Text) :
    nextName (quotedPair p ++ rest) =
      .ok (some p.1, '=' :: '"' :: (escapeQuotes p.2 ++ '"' :: rest)) := by
  obtain ⟨name, value⟩ := p
  have htext : quotedPair (name, value) ++ rest =
      name ++ '=' :: '"' :: (escapeQuotes value ++ '"' :: rest) := by simp [quotedPair]
  have htrim : trimStart (name ++ '=' :: '"' :: (escapeQuotes value ++ '"' :: rest)) =
      name ++ '=' :: '"' :: (escapeQuotes value ++ '"' :: rest) := by
    obtain ⟨c, name, rfl⟩ := exists_cons_of_ne_nil hne
    obtain ⟨-, hblank, -⟩ := of_isBare (isBare_of_isNameChar (hname c mem_cons_self))
    exact dropWhile_cons_of_neg (by simp [hblank])
  rw [htext, nextName]
  simp only [htrim]
  rw [if_neg (by simp [hne]), takeWhile_append_of_pos hname, dropWhile_append_of_pos hname]
  rw [takeWhile_cons_of_neg (by decide), dropWhile_cons_of_neg (by decide), append_nil,
    if_neg (by simpa using hne)]

theorem nextValue_quoted {value : Text} (hslash : '\\' ∉ value) (rest : Text) :
    nextValue ('=' :: '"' :: (escapeQuotes value ++ '"' :: rest)) = .ok (some value, rest) := by
  refine (?_ : (nextValueFrom true (escapeQuotes value ++ '"' :: rest)).map _ = _)
  rw [nextValueFrom_escapeQuotes hslash]
  rfl

include hpairs

theorem reads_pairs :
    reads (ordinary endsCommand) ground (pairs.flatMap fun p => ' ' :: quotedPair p) =
      some ground := by
  induction pairs with
  | nil => rfl
  | cons p pairs ih =>
    obtain ⟨-, hname, hslash⟩ := hpairs p mem_cons_self
    rw [flatMap_cons, reads_append]
    refine (congrArg (Option.bind · _) (reads_quotedPair hname hslash)).trans ?_
    exact ih fun p hp => hpairs p (mem_cons_of_mem _ hp)

theorem parsePairsFrom_pairs {fuel : ℕ} (hpos : 0 < fuel)
    (hfuel : (pairs.flatMap fun p => ' ' :: quotedPair p).length ≤ fuel) :
    parsePairsFrom fuel (pairs.flatMap fun p => ' ' :: quotedPair p) =
      .ok (pairs.map fun p => (p.1, some p.2)) := by
  induction pairs generalizing fuel with
  | nil =>
    cases fuel with
    | zero => cases hpos
    | succ fuel => rfl
  | cons p pairs ih =>
    obtain ⟨hne, hname, hslash⟩ := hpairs p mem_cons_self
    cases fuel with
    | zero => cases hpos
    | succ fuel =>
      rw [flatMap_cons, length_append, length_cons, quotedPair, length_append, length_cons] at hfuel
      have hrest := @ih (fun p hp => hpairs p (mem_cons_of_mem _ hp)) fuel (by omega) (by omega)
      have hblank : ∀ x, nextName (' ' :: x) = nextName x := fun x => rfl
      rw [flatMap_cons, cons_append, parsePairsFrom, hblank, nextName_quotedPair hne hname]
      refine (?_ : (nextValue _ >>= fun v => parsePairsFrom fuel v.2 >>= fun pairs =>
        Except.ok ((p.1, v.1) :: pairs)) = _)
      rw [nextValue_quoted hslash]
      refine (?_ : (parsePairsFrom fuel _ >>= fun pairs =>
        Except.ok ((p.1, some p.2) :: pairs)) = _)
      rw [hrest]
      rfl

end

theorem criteriaEndFrom_append {ok : Char → Bool} (h : reads ok s l = some s')
    (hok : ok ']' = false) (index : ℕ) (rest : Text) :
    criteriaEndFrom s index (l ++ rest) = criteriaEndFrom s' (index + l.length) rest := by
  induction l generalizing s index with
  | nil =>
    cases h
    rfl
  | cons c l ih =>
    obtain ⟨hc, h⟩ := reads_cons_of_ok h
    rw [cons_append, criteriaEndFrom, if_neg, ih h, length_cons, Nat.add_right_comm, Nat.add_assoc]
    rintro ⟨hplain, rfl⟩
    rw [hc hplain] at hok
    cases hok

theorem intercalate_cons (a : Text) (l : List Text) :
    [' '].intercalate (a :: l) = a ++ l.flatMap fun x => ' ' :: x := by
  induction l generalizing a with
  | nil => simp [intercalate]
  | cons b l ih => simpa [intercalate] using ih b

/-- **Quoted criteria are read as they were meant**: the list is cut after the command, the criteria
end at their bracket, and the lexer returns the pairs. -/
theorem criteria_quoting (pairs : List (Text × Text)) (hne : pairs ≠ [])
    (hpairs : ∀ p ∈ pairs, p.1 ≠ [] ∧ (∀ c ∈ p.1, isNameChar c = true) ∧ '\\' ∉ p.2)
    (command rest : Text)
    (hcommand : ∀ c ∈ command, Quoting.isQuote c = false ∧ c ≠ '\\' ∧ c ≠ '[' ∧ c ≠ ']' ∧
      endsCommand c = false) :
    (splitCommands (quotedCriteria pairs ++ ' ' :: command ++ ';' :: rest)).head? =
        some (quotedCriteria pairs ++ ' ' :: command, some ';') ∧
      (∀ more, Text.criteriaEnd (quotedCriteria pairs ++ more) =
        some ((quotedCriteria pairs).length - 1)) ∧
      parsePairs (quotedCriteria pairs).tail.dropLast =
        .ok (pairs.map fun p => (p.1, some p.2)) := by
  obtain ⟨p, tail, rfl⟩ := exists_cons_of_ne_nil hne
  have hbody : ' ' :: [' '].intercalate ((p :: tail).map quotedPair) =
      (p :: tail).flatMap fun p => ' ' :: quotedPair p := by
    rw [map_cons, intercalate_cons, flatMap_map]
    rfl
  have hreads := reads_pairs hpairs
  have hparse := @parsePairsFrom_pairs _ hpairs
    (([' '].intercalate ((p :: tail).map quotedPair)).length + 1) (Nat.succ_pos _)
  rw [← hbody] at hreads hparse
  have hparse := hparse le_rfl
  set body := [' '].intercalate ((p :: tail).map quotedPair) with hdef
  have hreads : reads (ordinary endsCommand) ground body = some ground := hreads
  have hcriteria : quotedCriteria (p :: tail) = '[' :: (body ++ [']']) := rfl
  rw [hcriteria]
  refine ⟨?_, fun more => ?_, ?_⟩
  · have hend : reads (ordinary endsCommand) ground command = some ground := by
      refine reads_span fun c hc => .inr ?_
      obtain ⟨hquote, hslash, hopen, hclose, hcut⟩ := hcommand c hc
      exact ⟨kind_ground hquote hslash, by simp [ordinary, hopen, hclose, hcut]⟩
    have hopen : splitCommands ('[' :: (body ++ [']']) ++ ' ' :: command ++ ';' :: rest) =
        consHead '[' (split endsCommand ground 1
          (body ++ ']' :: ' ' :: (command ++ ';' :: rest))) := by
      simp only [cons_append, append_assoc]
      rfl
    have hclose : split endsCommand ground 1 (']' :: ' ' :: (command ++ ';' :: rest)) =
        consHead ']' (consHead ' ' (split endsCommand ground 0 (command ++ ';' :: rest))) :=
      rfl
    have hcut : split endsCommand ground 0 (';' :: rest) =
        ([], some ';') :: split endsCommand ground 0 rest := rfl
    rw [hopen, split_append_of_reads hreads, hclose, split_append_of_reads hend, hcut,
      foldr_consHead]
    simp only [consHead, foldr_consHead, head?_cons, append_nil, append_assoc, cons_append,
      nil_append]
  · have hend : Text.criteriaEnd ('[' :: (body ++ [']']) ++ more) =
        criteriaEndFrom ground 1 (body ++ ']' :: more) := by
      rw [cons_append, append_assoc]
      rfl
    rw [hend, criteriaEndFrom_append hreads rfl, Nat.add_comm]
    simp [criteriaEndFrom, State.kind, ground, isQuote]
  · rw [tail_cons, dropLast_concat]
    exact hparse

/-- Brackets, separators and both quotes in a value. -/
theorem criteria_quoting_title :
    let raw := quotedCriteria [("title".toList, "a]\"b'; c".toList), ("app_id".toList, [])]
    (splitCommands (raw ++ " kill;nop".toList)).head? = some (raw ++ " kill".toList, some ';') ∧
      parsePairs raw.tail.dropLast =
        .ok [("title".toList, some "a]\"b'; c".toList), ("app_id".toList, some [])] := by
  have h := criteria_quoting [("title".toList, "a]\"b'; c".toList), ("app_id".toList, [])]
    (cons_ne_nil _ _) (by simp; decide) "kill".toList "nop".toList (by simp; decide)
  exact ⟨h.1, h.2.2⟩

end Swayward.Command
