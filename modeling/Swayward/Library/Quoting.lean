/-
  File:      Swayward/Library/Quoting.lean
  Subject:   QUOTED TEXT: which characters of a text stand outside quotes and escapes.

  A text with single and double quotes and backslash escapes is read character by character; the
  only memory is the open quote and whether the last character was an escape. Every character is
  then of one of four kinds (`Kind`). On top of that reading, `split` cuts a text at delimiters that
  stand outside quotes, escapes and square brackets:

  * `State.kind`, `State.read`   -- the kind of the next character, the memory after it;
  * `split`                      -- the pieces, each with the delimiter that ends it;
  * `split_append_delimiter`     -- a text that ends outside of everything can be cut off;
  * `reads`, `split_append_of_reads` -- a text without a delimiter or bracket stays in one piece.
-/
import Mathlib.Data.List.Basic

namespace Quoting

open List

/-- How a character is read. -/
inductive Kind
  /-- A backslash that escapes, or the character it escapes. -/
  | escape
  /-- A quote that opens or closes. -/
  | quote
  /-- Between quotes. -/
  | quoted
  /-- Outside of quotes and escapes. -/
  | plain
  deriving DecidableEq, Repr

/-- What the text so far leaves open. -/
structure State where
  quote : Option Char
  escaped : Bool
  deriving DecidableEq, Repr

/-- Nothing is open. -/
def ground : State := ⟨none, false⟩

def isQuote (c : Char) : Bool := c == '\'' || c == '"'

namespace State

/-- The kind of the next character. -/
def kind (s : State) (c : Char) : Kind :=
  if s.escaped || c == '\\' then .escape
  else
    match s.quote with
    | some opened => if c = opened then .quote else .quoted
    | none => if isQuote c then .quote else .plain

/-- The memory after the next character. -/
def read (s : State) (c : Char) : State :=
  match s.kind c with
  | .escape => { s with escaped := !s.escaped }
  | .quote => { s with quote := if s.quote.isSome then none else some c }
  | .quoted => s
  | .plain => s

theorem read_of_plain {s : State} {c : Char} (h : s.kind c = .plain) : s.read c = s := by
  unfold read
  rw [h]

end State

/-! ## 1. Pieces -/

/-- Put a character in front of the first piece. -/
def consHead (c : Char) : List (List Char × Option Char) → List (List Char × Option Char)
  | [] => []
  | (piece, delimiter) :: rest => (c :: piece, delimiter) :: rest

/-- The bracket depth after a character; a closing bracket too many is ignored. -/
def depth (s : State) (brackets : ℕ) (c : Char) : ℕ :=
  if s.kind c = .plain then
    if c = '[' then brackets + 1 else if c = ']' then brackets - 1 else brackets
  else brackets

/-- Whether a character ends a piece. -/
def cuts (delimiter : Char → Bool) (s : State) (brackets : ℕ) (c : Char) : Bool :=
  decide (s.kind c = .plain) && delimiter c && brackets == 0

/-- The pieces of a text, each with the delimiter after it. -/
def split (delimiter : Char → Bool) (s : State) (brackets : ℕ) :
    List Char → List (List Char × Option Char)
  | [] => [([], none)]
  | c :: rest =>
    if cuts delimiter s brackets c then ([], some c) :: split delimiter s brackets rest
    else consHead c (split delimiter (s.read c) (depth s brackets c) rest)

/-- What a text leaves open. -/
def scan (s : State) (brackets : ℕ) : List Char → State × ℕ
  | [] => (s, brackets)
  | c :: rest => scan (s.read c) (depth s brackets c) rest

/-- End the last piece with a delimiter. -/
def closeLast (d : Char) : List (List Char × Option Char) → List (List Char × Option Char)
  | [] => []
  | [(piece, _)] => [(piece, some d)]
  | piece :: next :: rest => piece :: closeLast d (next :: rest)

theorem split_ne_nil (delimiter : Char → Bool) (s : State) (brackets : ℕ) (l : List Char) :
    split delimiter s brackets l ≠ [] := by
  induction l generalizing s brackets with
  | nil => exact cons_ne_nil _ _
  | cons c rest ih =>
    rw [split]
    split
    · exact cons_ne_nil _ _
    · cases h : split delimiter (s.read c) (depth s brackets c) rest with
      | nil => exact absurd h (ih _ _)
      | cons piece rest => exact cons_ne_nil _ _

theorem closeLast_cons (d : Char) (piece : List Char × Option Char)
    {rest : List (List Char × Option Char)} (h : rest ≠ []) :
    closeLast d (piece :: rest) = piece :: closeLast d rest := by
  cases rest with
  | nil => exact absurd rfl h
  | cons next rest => rfl

theorem consHead_closeLast (c d : Char) (pieces : List (List Char × Option Char)) :
    consHead c (closeLast d pieces) = closeLast d (consHead c pieces) := by
  match pieces with
  | [] => rfl
  | [_] => rfl
  | _ :: _ :: _ => rfl

theorem closeLast_ne_nil (d : Char) {pieces : List (List Char × Option Char)} (h : pieces ≠ []) :
    closeLast d pieces ≠ [] := by
  match pieces with
  | [] => exact absurd rfl h
  | [_] => exact cons_ne_nil _ _
  | _ :: _ :: _ => exact cons_ne_nil _ _

theorem consHead_append (c : Char) {pieces : List (List Char × Option Char)} (h : pieces ≠ [])
    (more : List (List Char × Option Char)) :
    consHead c (pieces ++ more) = consHead c pieces ++ more := by
  cases pieces with
  | nil => exact absurd rfl h
  | cons piece rest => rfl

/-- A character that cuts stands outside brackets, and leaves nothing open that was not. -/
theorem scan_cons_of_cuts {delimiter : Char → Bool} {s : State} {brackets : ℕ} {c : Char}
    (h : cuts delimiter s brackets c = true) (hc : c ≠ '[') (rest : List Char) :
    scan s brackets (c :: rest) = scan s brackets rest := by
  simp only [cuts, Bool.and_eq_true, decide_eq_true_eq, beq_iff_eq] at h
  obtain ⟨⟨hkind, -⟩, hdepth⟩ := h
  have hsame : depth s brackets c = brackets := by
    unfold depth
    rw [if_pos hkind, if_neg hc]
    split
    · rw [hdepth]
    · rfl
  rw [scan, State.read_of_plain hkind, hsame]

/-- **A text that leaves nothing open is cut off by a delimiter**: the pieces of the whole are the
pieces of the first text, the last of them ended by the delimiter, and the pieces of the second. -/
theorem split_append_delimiter {delimiter : Char → Bool} {d : Char} (hd : delimiter d = true)
    (hplain : ground.kind d = .plain) (hopen : delimiter '[' = false) (l r : List Char) (s : State)
    (brackets : ℕ) (hend : scan s brackets l = (ground, 0)) :
    split delimiter s brackets (l ++ d :: r) =
      closeLast d (split delimiter s brackets l) ++ split delimiter ground 0 r := by
  induction l generalizing s brackets with
  | nil =>
    obtain ⟨rfl, rfl⟩ := Prod.mk.inj hend
    have hcuts : cuts delimiter ground 0 d = true := by simp [cuts, hplain, hd]
    have hcut : split delimiter ground 0 (d :: r) = ([], some d) :: split delimiter ground 0 r := by
      rw [split, if_pos hcuts]
    rw [nil_append, hcut]
    rfl
  | cons c rest ih =>
    rw [cons_append, split, split]
    by_cases hc : cuts delimiter s brackets c = true
    · have hne : c ≠ '[' := by
        rintro rfl
        simp [cuts, hopen] at hc
      rw [scan_cons_of_cuts hc hne] at hend
      rw [if_pos hc, if_pos hc, ih s brackets hend,
        closeLast_cons d _ (split_ne_nil delimiter s brackets rest)]
      rfl
    · have hrest := split_ne_nil delimiter (s.read c) (depth s brackets c) rest
      rw [if_neg hc, if_neg hc, ih _ _ hend, consHead_append c (closeLast_ne_nil d hrest),
        consHead_closeLast]

/-! ## 2. Texts that are not cut -/

variable {ok delimiter : Char → Bool} {s s' : State} {l : List Char}

/-- Read a text whose plain characters are all `ok`; what it leaves open. -/
def reads (ok : Char → Bool) (s : State) : List Char → Option State
  | [] => some s
  | c :: rest => if s.kind c = .plain ∧ ok c = false then none else reads ok (s.read c) rest

theorem reads_append (l r : List Char) :
    reads ok s (l ++ r) = (reads ok s l).bind fun s' => reads ok s' r := by
  induction l generalizing s with
  | nil => rfl
  | cons c rest ih =>
    rw [cons_append, reads, reads]
    split
    · rfl
    · exact ih

theorem reads_cons_of_ok {c : Char} (h : reads ok s (c :: l) = some s') :
    (s.kind c = .plain → ok c = true) ∧ reads ok (s.read c) l = some s' := by
  rw [reads] at h
  split at h
  · cases h
  · rename_i hc
    exact ⟨fun hplain => by simpa [hplain] using hc, h⟩

/-- Characters that change nothing. -/
theorem reads_span (h : ∀ c ∈ l, s.kind c = .quoted ∨ s.kind c = .plain ∧ ok c = true) :
    reads ok s l = some s := by
  induction l with
  | nil => rfl
  | cons c rest ih =>
    have hrest := ih fun c hc => h c (mem_cons_of_mem _ hc)
    rw [reads, State.read]
    rcases h c mem_cons_self with hc | ⟨hc, hok⟩
    · simpa [hc] using hrest
    · simpa [hc, hok] using hrest

/-- Neither ends a piece nor opens or closes a bracket. -/
def ordinary (delimiter : Char → Bool) (c : Char) : Bool := !delimiter c && c != '[' && c != ']'

theorem foldr_consHead (l piece : List Char) (delimiter : Option Char)
    (rest : List (List Char × Option Char)) :
    l.foldr consHead ((piece, delimiter) :: rest) = (l ++ piece, delimiter) :: rest := by
  induction l with
  | nil => rfl
  | cons c l ih => rw [foldr_cons, ih, consHead, cons_append]

/-- **A text without plain delimiters and brackets goes into one piece**, at any depth. -/
theorem split_append_of_reads (h : reads (ordinary delimiter) s l = some s') (brackets : ℕ)
    (r : List Char) :
    split delimiter s brackets (l ++ r) = l.foldr consHead (split delimiter s' brackets r) := by
  induction l generalizing s with
  | nil =>
    cases h
    rfl
  | cons c rest ih =>
    obtain ⟨hok, h⟩ := reads_cons_of_ok h
    have hcuts : ¬ cuts delimiter s brackets c = true := by
      intro hcut
      simp only [cuts, Bool.and_eq_true, decide_eq_true_eq] at hcut
      have := hok hcut.1.1
      simp [ordinary, hcut.1.2] at this
    have hdepth : depth s brackets c = brackets := by
      unfold depth
      split
      · rename_i hplain
        simp [ordinary, hplain] at hok
        rw [if_neg hok.1.2, if_neg hok.2]
      · rfl
    rw [cons_append, split, if_neg hcuts, hdepth, ih h, foldr_cons]

end Quoting
