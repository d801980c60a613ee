/-
  File:      Swayward/Command/Lexer.lean
  Subject:   CUTTING COMMAND TEXT: command lists, criteria, words, quotes.

  The text of a command list is read with the quoting rules of `Quoting`. This file has the
  functions that cut it, and nothing that knows a command:

  * `splitCommands`      -- the commands of a list, each with the delimiter after it;
  * `criteriaEnd`        -- where leading criteria end;
  * `words`              -- the words of a command, without their quotes;
  * `unquote`, `joinWords`, `stripSwayQuotes` -- quotes that are taken off later;
  * `quotedCommandName`  -- a first word that holds a quote.
-/
import Swayward.Layout.Name
import Swayward.Library.Quoting

namespace Swayward

namespace Text

/-! ## 1. Blanks -/

/-- `char::is_whitespace`: the Unicode property. -/
def isWhitespace (c : Char) : Bool :=
  (0x9 ≤ c.toNat && c.toNat ≤ 0xD) || c.toNat == 0x20 || c.toNat == 0x85 || c.toNat == 0xA0 ||
    c.toNat == 0x1680 || (0x2000 ≤ c.toNat && c.toNat ≤ 0x200A) || c.toNat == 0x2028 ||
    c.toNat == 0x2029 || c.toNat == 0x202F || c.toNat == 0x205F || c.toNat == 0x3000

/-- `char::is_ascii_whitespace`; the vertical tab is not among them. -/
def isAsciiWhitespace (c : Char) : Bool :=
  c == ' ' || c == '\t' || c == '\n' || c == '\x0c' || c == '\r'

def trimStart (text : Text) : Text := text.dropWhile isWhitespace

def trimEnd (text : Text) : Text := (text.reverse.dropWhile isWhitespace).reverse

def trim (text : Text) : Text := trimEnd (trimStart text)

/-- `split_ascii_whitespace().next()`. -/
def firstAsciiWord (text : Text) : Option Text :=
  match (text.dropWhile isAsciiWhitespace).takeWhile (!isAsciiWhitespace ·) with
  | [] => none
  | word => some word

/-- `strip_prefix`. -/
def stripPrefix (start text : Text) : Option Text :=
  if start.isPrefixOf text then some (text.drop start.length) else none

/-! ## 2. Cutting -/

/-- The characters that end a command. -/
def endsCommand (c : Char) : Bool := c == ';' || c == ',' || c == '\x00'

def splitCommands (input : Text) : List (Text × Option Char) :=
  Quoting.split endsCommand Quoting.ground 0 input

/-- The loop of `criteria_end`, at position `index`. -/
def criteriaEndFrom (s : Quoting.State) (index : ℕ) : Text → Option ℕ
  | [] => none
  | c :: rest =>
    if s.kind c = .plain ∧ c = ']' then some index
    else criteriaEndFrom (s.read c) (index + 1) rest

/-- The position of the bracket that closes the criteria; the first character is not looked at. -/
def criteriaEnd (input : Text) : Option ℕ := criteriaEndFrom Quoting.ground 1 input.tail

/-- A finished word, if it has characters. -/
def finishWord (word : Text) (words : List Text) : List Text :=
  if word.isEmpty then words else word :: words

/-- The loop of `words`, with the word read so far. -/
def wordsFrom (s : Quoting.State) (word : Text) : Text → List Text
  | [] => finishWord word []
  | c :: rest =>
    match s.kind c with
    -- Escapes stay in the word, backslash and all.
    | .escape => wordsFrom (s.read c) (word ++ [c]) rest
    | .quote => wordsFrom (s.read c) word rest
    | .quoted => wordsFrom (s.read c) (word ++ [c]) rest
    | .plain =>
      if isWhitespace c then finishWord word (wordsFrom (s.read c) [] rest)
      else wordsFrom (s.read c) (word ++ [c]) rest

def words (input : Text) : List Text := wordsFrom Quoting.ground [] input

/-! ## 3. Quotes -/

/-- The text between two quotes `quote`. -/
def between (quote : Char) : Text → Option Text
  | [] => none
  | c :: rest => if c = quote ∧ rest.getLast? = some quote then some rest.dropLast else none

def unquote (value : Text) : Text :=
  ((between '"' value).or (between '\'' value)).getD value

def joinWords (words : List Text) : Text := unquote ([' '].intercalate words)

/-- The loop of `strip_sway_quotes`. -/
def stripSwayQuotesFrom (inSingle inDouble escaped : Bool) : Text → Text
  | [] => []
  | c :: rest =>
    let next := c == '\\' && !escaped
    if c == '\'' && !inDouble && !escaped then stripSwayQuotesFrom (!inSingle) inDouble next rest
    else if c == '"' && !inSingle && !escaped then
      stripSwayQuotesFrom inSingle (!inDouble) next rest
    else c :: stripSwayQuotesFrom inSingle inDouble next rest

def stripSwayQuotes (value : Text) : Text := stripSwayQuotesFrom false false false value

/-- The first token: up to a blank that is not quoted. -/
def firstToken (s : Quoting.State) : Text → Text
  | [] => []
  | c :: rest =>
    if s.kind c = .plain ∧ isAsciiWhitespace c = true then []
    else c :: firstToken (s.read c) rest

/-- The raw first token, if it holds a quote character. -/
def quotedCommandName (text : Text) : Option Text :=
  let name := firstToken Quoting.ground (text.dropWhile isAsciiWhitespace)
  if name.any Quoting.isQuote then some name else none

end Text

end Swayward
