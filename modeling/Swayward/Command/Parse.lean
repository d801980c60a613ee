/-
  File:      Swayward/Command/Parse.lean
  Subject:   PARSING COMMAND LISTS, with variables and criteria.

  The parser of `swayward-ipc`: a list is split, criteria are taken off, and each command is looked
  up by its first word. The functions keep the names, the order of the checks and the messages of
  the source. Two things are parameters (`Grammar`), because no statement here looks into them: the
  parser of criteria, and the parsers of those commands that read nothing but their words and are
  no concern of the command list (`focus`, `move`, `resize`, the settings, ...).

  * `expandVariables`, `setVariable`   -- variables;
  * `parseExec`, `parseForWindow`, ... -- the commands that read their tail as text;
  * `parseCommand`, `parseWords`       -- one command, and the kind of its rejection;
  * `parseSegment`                     -- one command of a list, with its criteria;
  * `parseWithVariables`               -- the list.
-/
import Mathlib.Algebra.Order.Ring.Nat
import Mathlib.Data.List.Sort
import Swayward.Command.Lexer

namespace Swayward.Command

open Name (eqIgnoreAsciiCase lower numberText)
open Text (joinWords stripPrefix trim trimStart words)

/-! ## 1. Variables -/

/-- A name and a value, longest name first. -/
abbrev Variables := List (Text × Text)

/-- `str::len`: bytes. -/
def byteLength (text : Text) : ℕ := (text.map Char.utf8Size).sum

/-- The loop of `expand_variables`: `previous` is the character before the text, and the first
`skip` characters belong to what has been replaced. -/
def expandFrom (table : Variables) (previous : Option Char) (skip : ℕ) : Text → Text
  | [] => []
  | c :: rest =>
    match skip with
    | skip + 1 => expandFrom table (some c) skip rest
    | 0 =>
      if c ≠ '$' then c :: expandFrom table (some c) 0 rest
      else if previous = some '\\' then '$' :: expandFrom table (some c) 0 rest
      else if rest.head? = some '$' then '$' :: expandFrom table (some c) 1 rest
      else
        match table.find? fun entry => entry.1.isPrefixOf (c :: rest) with
        | some (name, value) => value ++ expandFrom table (some c) (name.length - 1) rest
        | none => '$' :: expandFrom table (some c) 0 rest

def expandVariables (input : Text) (table : Variables) : Text :=
  expandFrom table none 0 input

/-- Replace the value of a known name, or append the variable. -/
def putVariable (name value : Text) : Variables → Variables
  | [] => [(name, value)]
  | entry :: rest =>
    if entry.1 = name then (entry.1, value) :: rest
    else entry :: putVariable name value rest

def setVariable (table : Variables) (name value : Text) : Variables :=
  (putVariable name value table).insertionSort fun a b => byteLength b.1 ≤ byteLength a.1

/-! ## 2. Commands and rejections -/

inductive Toggle
  | enable | disable | toggle
  deriving DecidableEq, Repr

inductive InhibitIdleMode
  | focus | fullscreen | «open» | none | visible
  deriving DecidableEq, Repr

inductive SplitLayout
  | splitH | splitV | toggleSplit
  deriving DecidableEq, Repr

inductive BorderStyle
  | normal | none | pixel | csd | toggle
  deriving DecidableEq, Repr

structure Border where
  style : BorderStyle
  width : Option ℕ
  deriving DecidableEq, Repr

inductive AssignmentTarget
  | workspace (name : Text)
  | workspaceNumber (number : Text)
  | output (name : Text)
  deriving DecidableEq, Repr

/-- The commands; those whose parser is a parameter are `plain`. -/
inductive Command (α : Type)
  | plain (command : α)
  | split (layout : Option SplitLayout)
  | floating (mode : Toggle)
  | urgent (value : Text)
  | border (border : Border)
  | titleFormat (format : Text)
  | sticky (value : Text)
  | scratchpadShow
  | kill
  | reload
  | exit
  | inhibitIdle (mode : InhibitIdleMode)
  | createOutput
  | shortcutsInhibitor (enable : Bool)
  | set (name value : Text)
  | bind (key : Text) (command : Option Text)
      (keycode release locked inhibited noRepeat : Bool) (inputDevice : Text)
  | switchBind (switch : Text) (command : Option Text) (locked : Bool)
  | mode (name : Text) (pangoMarkup : Bool) (subcommand : Option (Command α))
  | nop
  | exec (command : Text) (noStartupId : Bool)
  | mark (add toggle : Bool) (identifier : Text)
  | unmark (identifier : Option Text)
  | forWindow (criteria command : Text)
  | assign (criteria : Text) (target : AssignmentTarget)
  | noFocus (criteria : Text)

structure ParsedCommand (α : Type) where
  command : Command α
  criteria : Option Text
  criteriaStart : Bool

/-- What a client is told about one command; a success is no parse error. -/
structure CommandOutcome where
  success : Bool
  error : Option Text
  parseError : Option Bool
  consistent : success = true → parseError = none
  deriving DecidableEq, Repr

/-- CMD_INVALID. -/
def parseError (error : Text) : CommandOutcome := ⟨false, some error, some true, nofun⟩

/-- CMD_FAILURE. -/
def failure (error : Text) : CommandOutcome := ⟨false, some error, some false, nofun⟩

def success : CommandOutcome := ⟨true, none, none, fun _ => rfl⟩

inductive ErrorKind
  | invalid | failure
  deriving DecidableEq, Repr

/-- A rejection; `withoutView` replaces it when nothing is focused. -/
structure ParseError where
  message : Text
  kind : ErrorKind
  withoutView : Option (Text × ErrorKind)
  deriving DecidableEq, Repr

namespace ParseError

def ofMessage (message : Text) : ParseError := ⟨message, .invalid, none⟩

def intoFailure (error : ParseError) : ParseError := { error with kind := .failure }

def messageIs (error : ParseError) (message : Text) : Bool := error.message == message

def unlessView (error : ParseError) (message : Text) (kind : ErrorKind) : ParseError :=
  { error with withoutView := some (message, kind) }

/-- The message and the kind that count. -/
def reply (error : ParseError) (hasView : Bool) : Text × ErrorKind :=
  match error.withoutView with
  | some replacement => if hasView then (error.message, error.kind) else replacement
  | none => (error.message, error.kind)

def intoOutcome (error : ParseError) (hasView : Bool) : CommandOutcome :=
  ⟨false, some (error.reply hasView).1, some ((error.reply hasView).2 == .invalid), nofun⟩

end ParseError

/-- The parsers that are not looked into: criteria (given the focused container), and the commands
that read their words only. -/
structure Grammar (α κ : Type) where
  parseCriteria : Text → Option ℕ → Except Text κ
  arguments : Text → Option (List Text → Except Text α)

variable {α κ : Type} (grammar : Grammar α κ)

/-! ## 3. Commands that read their tail -/

/-- `format!("Unknown/invalid command '{name}'")`. -/
def unknownCommand (name : Text) : Text := "Unknown/invalid command '".toList ++ name ++ ['\'']

/-- The text after the name, as it was typed. -/
def rawTail (input name : Text) : Except Text Text :=
  match stripPrefix name (trimStart input) with
  | some tail => .ok (trimStart tail)
  | none => .error (unknownCommand ((Text.firstAsciiWord input).getD []))

/-- Criteria and what follows them. -/
def splitCriteria (rest : Text) : Option (Text × Text) :=
  (Text.criteriaEnd rest).map fun index =>
    (rest.take (index + 1), trimStart (rest.drop (index + 1)))

def noStartupIdFlag : Text := "--no-startup-id".toList

/-- The flag of `exec`, if a blank or the end follows it. -/
def takeNoStartupId (command : Text) : Text × Bool :=
  match stripPrefix noStartupIdFlag command with
  | some rest =>
    if rest.head?.all Text.isWhitespace then (trimStart rest, true) else (command, false)
  | none => (command, false)

/-- A command that is one quoted word loses its quotes. -/
def execText (command : Text) : Text :=
  if (words command).length = 1 ∧ command.head?.any Quoting.isQuote = true then
    Text.stripSwayQuotes command
  else command

def execTail (name tail : Text) : Except Text (Command α) :=
  let (command, noStartupId) := takeNoStartupId tail
  if command.isEmpty then .error ("Expected '".toList ++ name ++ " <command>'".toList)
  else .ok (.exec (execText command) noStartupId)

def parseExec (input name : Text) : Except Text (Command α) := do
  let tail ← rawTail input name
  execTail name tail

/-- Valid criteria at the head of a tail, and what follows them. -/
def tailCriteria (tail usage : Text) : Except Text (Text × Text) :=
  match splitCriteria tail with
  | none => .error usage
  | some (criteria, rest) =>
    (grammar.parseCriteria criteria none).map fun _ => (criteria, rest)

def startsWithDigit (text : Text) : Bool := text.head?.any Char.isDigit

def workspaceNumberTarget (words : List Text) : Except Text AssignmentTarget :=
  let number := joinWords words
  if startsWithDigit number then .ok (.workspaceNumber number)
  else .error ("Invalid workspace number '".toList ++ number ++ ['\''])

def assignUsage : Text :=
  "Expected 'assign <criteria> [workspace|number|output] <target>'".toList

/-- The target of `assign`; the arms are tried in order. -/
def assignmentTarget (words : List Text) : Except Text AssignmentTarget :=
  match words with
  | [] => .error assignUsage
  | kind :: rest =>
    if eqIgnoreAsciiCase kind "output".toList && !rest.isEmpty then
      .ok (.output (joinWords rest))
    else if eqIgnoreAsciiCase kind "number".toList && !rest.isEmpty then
      workspaceNumberTarget rest
    else if eqIgnoreAsciiCase kind "workspace".toList &&
        rest.head?.any (eqIgnoreAsciiCase · "number".toList) && !rest.tail.isEmpty then
      workspaceNumberTarget rest.tail
    else if eqIgnoreAsciiCase kind "workspace".toList && !rest.isEmpty then
      .ok (.workspace (joinWords rest))
    else .ok (.workspace (joinWords (kind :: rest)))

/-- An arrow before the target of `assign`. -/
def stripArrow (target : Text) : Text :=
  trimStart <|
    ((stripPrefix ['→'] target).or (stripPrefix "->".toList target)).getD target

def assignTail (tail : Text) : Except Text (Command α) := do
  let (criteria, rest) ← tailCriteria grammar tail assignUsage
  let target := stripArrow rest
  if target.isEmpty then .error assignUsage
  else (assignmentTarget (words target)).map (.assign criteria)

def parseAssign (input name : Text) : Except Text (Command α) := do
  let tail ← rawTail input name
  assignTail grammar tail

def noFocusUsage : Text := "Expected 'no_focus <criteria>'".toList

def noFocusTail (tail : Text) : Except Text (Command α) :=
  if tail.head? ≠ some '[' then .error "No criteria".toList
  else do
    let (criteria, trailing) ← tailCriteria grammar tail noFocusUsage
    if trailing.isEmpty then .ok (.noFocus criteria) else .error noFocusUsage

def parseNoFocus (input name : Text) : Except Text (Command α) := do
  let tail ← rawTail input name
  noFocusTail grammar tail

def forWindowUsage : Text := "Expected 'for_window [criteria] <command>'".toList

def forWindowTail (tail : Text) : Except Text (Command α) := do
  let (criteria, command) ← tailCriteria grammar tail forWindowUsage
  if command.isEmpty then .error forWindowUsage else .ok (.forWindow criteria command)

def parseForWindow (input name : Text) : Except Text (Command α) := do
  let tail ← rawTail input name
  forWindowTail grammar tail

/-! ## 4. Commands that read their words -/

/-- `format!("Invalid {name} command (expected {expected}, got {count})")`. -/
def invalidCount (name expected : Text) (count : ℕ) : Text :=
  "Invalid ".toList ++ name ++ " command (expected ".toList ++ expected ++ ", got ".toList ++
    numberText count ++ [')']

/-- How many words a command needs: the qualifier, the number, and whether it is exact. -/
def arity (name : Text) : Option (Text × ℕ × Bool) :=
  if name ∈ ["default_border".toList, "default_floating_border".toList, "new_window".toList,
      "new_float".toList, "font".toList, "mode".toList, "title_align".toList] then
    some ("at least ".toList, 1, false)
  else if name = "for_window".toList then some ("at least ".toList, 2, false)
  else if name = "swap".toList then some ("at least ".toList, 4, false)
  else if name ∈ ["focus_follows_mouse".toList, "focus_on_window_activation".toList,
      "focus_wrapping".toList, "force_focus_wrapping".toList, "popup_during_fullscreen".toList,
      "sticky".toList, "tiling_drag".toList, "tiling_drag_threshold".toList] then
    some ([], 1, true)
  else if name ∈ ["floating_minimum_size".toList, "floating_maximum_size".toList] then
    some ([], 3, true)
  else if name ∈ ["reload".toList, "splith".toList, "splitv".toList, "splitt".toList] then
    some ([], 0, true)
  else none

def displayName (name : Text) : Text :=
  if name = "new_window".toList then "default_border".toList
  else if name = "new_float".toList then "default_floating_border".toList
  else name

def checkArity (name : Text) (count : ℕ) : Except Text Unit :=
  match arity name with
  | none => .ok ()
  | some (qualifier, expected, exact) =>
    if (exact && count != expected) || (!exact && decide (count < expected)) then
      .error (invalidCount (displayName name) (qualifier ++ numberText expected ++
        " argument".toList ++ if expected = 1 then [] else ['s']) count)
    else .ok ()

def expectedSyntax (text : Text) : Text := "Expected '".toList ++ text ++ ['\'']

def noArgs (args : List Text) (usage : Text) : Except Text Unit :=
  if args.isEmpty then .ok () else .error (expectedSyntax usage)

def one (args : List Text) (usage : Text) : Except Text Text :=
  match args with
  | [arg] => .ok arg
  | _ => .error (expectedSyntax usage)

/-- `parse_boolean`. -/
def parseBoolean (value : Text) (current : Bool) : Bool :=
  if lower value ∈ ["1".toList, "yes".toList, "on".toList, "true".toList, "enable".toList,
      "enabled".toList, "active".toList] then true
  else if lower value = "toggle".toList then !current
  else false

def parseBooleanToggle (value : Text) : Toggle :=
  if eqIgnoreAsciiCase value "toggle".toList then .toggle
  else if parseBoolean value false then .enable
  else .disable

def splitInvalid : Text :=
  "Invalid split command (expected either horizontal or vertical).".toList

def parseSplit (args : List Text) : Except Text (Command α) := do
  let arg ← one args "split <h|v|none|toggle>".toList
  let lower := lower arg
  if lower ∈ ["h".toList, "horizontal".toList] then .ok (.split (some .splitH))
  else if lower ∈ ["v".toList, "vertical".toList] then .ok (.split (some .splitV))
  else if lower ∈ ["t".toList, "toggle".toList] then .ok (.split (some .toggleSplit))
  else if lower ∈ ["n".toList, "none".toList] then .ok (.split none)
  else .error splitInvalid

def borderSyntax : Text :=
  "Expected 'border <none|normal|pixel|csd|toggle>' or 'border pixel <px>'".toList

/-- `str::parse::<u16>`: digits after an optional plus sign. -/
def parseU16 (value : Text) : Option ℕ :=
  let digits := (stripPrefix ['+'] value).getD value
  if digits.isEmpty || !digits.all Char.isDigit then none
  else
    let number := Nat.ofDigitChars 10 digits 0
    if number < 65536 then some number else none

def borderStyle (style : Text) : Option BorderStyle :=
  let lower := lower style
  if lower = "normal".toList then some .normal
  else if lower = "none".toList then some .none
  else if lower = "pixel".toList then some .pixel
  else if lower = "csd".toList then some .csd
  else if lower = "toggle".toList then some .toggle
  else none

def parseBorder (args : List Text) : Except Text Border :=
  match args with
  | [] => .error "Invalid border command (expected at least 1 argument, got 0)".toList
  | word :: rest =>
    match borderStyle word, rest with
    | none, _ => .error borderSyntax
    | some style, [] => .ok ⟨style, none⟩
    | some style, [value] =>
      if style = .none ∨ style = .csd then .error borderSyntax
      else
        match parseU16 value with
        | some width => .ok ⟨style, some width⟩
        | none => .error borderSyntax
    | some _, _ => .error borderSyntax

/-- The options of `mark`, and the words after them. -/
def markOptions (add toggle : Bool) : List Text → Except Text (Bool × Bool × List Text)
  | [] => .ok (add, toggle, [])
  | word :: rest =>
    if "--".toList.isPrefixOf word then
      if word = "--add".toList then markOptions true toggle rest
      else if word = "--replace".toList then markOptions false toggle rest
      else if word = "--toggle".toList then markOptions add true rest
      else .error ("Unrecognized argument '".toList ++ word ++ ['\''])
    else .ok (add, toggle, word :: rest)

def parseMark (args : List Text) : Except Text (Command α) := do
  let (add, toggle, rest) ← markOptions false false args
  if args.isEmpty then .error "Invalid mark command (expected at least 1 argument, got 0)".toList
  else if rest.isEmpty then .error "Expected '[--add|--replace] [--toggle] <identifier>'".toList
  else .ok (.mark add toggle (joinWords rest))

def parseSet (args : List Text) : Except Text (Command α) :=
  match args with
  | name :: word :: value =>
    if name.head? = some '$' then .ok (.set name (joinWords (word :: value)))
    else .error ("variable '".toList ++ name ++ "' must start with $".toList)
  | _ => .error (invalidCount "set".toList "at least 2 arguments".toList args.length)

/-- The two checks for missing words of the binding commands. -/
def requireBindArgs (name : Text) (minimum got : ℕ) (afterOptions : Bool) : Except Text Unit :=
  if minimum ≤ got then .ok ()
  else if afterOptions then
    .error (invalidCount name
      ("at least ".toList ++ numberText minimum ++ " non-option arguments".toList) got)
  else
    .error (invalidCount name
      ("at least ".toList ++ numberText minimum ++ " argument".toList ++
        if minimum = 1 then [] else ['s']) got)

def unsupportedOption (name option : Text) : Text :=
  "unsupported ".toList ++ name ++ " option ".toList ++ option

/-- The options of `bindswitch` and `unbindswitch`: `--locked`, and the words after them. -/
def switchOptions (name : Text) (unbind locked : Bool) : List Text → Except Text (Bool × List Text)
  | [] => .ok (locked, [])
  | word :: rest =>
    if "--".toList.isPrefixOf word then
      if word = "--locked".toList then switchOptions name unbind true rest
      else if word = "--no-warn".toList then switchOptions name unbind locked rest
      else if word = "--reload".toList then
        if unbind then switchOptions name unbind locked rest
        else
          .error ("bindswitch --reload requires tracked per-device switch state during " ++
            "reload").toList
      else .error (unsupportedOption name word)
    else .ok (locked, word :: rest)

/-- `split_once(':')`. -/
def splitColon (text : Text) : Option (Text × Text) :=
  if text.contains ':' then
    some (text.takeWhile (· != ':'), (text.dropWhile (· != ':')).tail)
  else none

/-- A switch binding, after the options. -/
def switchBind (name : Text) (unbind locked : Bool) (combo : Text) (command : List Text) :
    Except Text (Command α) :=
  match splitColon combo with
  | none =>
    if unbind then .ok (.switchBind combo none locked)
    else
      .error ("Invalid ".toList ++ name ++
        " command (expected binding with the form <switch>:<state>)".toList)
  | some (switch, state) =>
    if switch ∉ ["lid".toList, "tablet".toList] then
      .error ("Invalid ".toList ++ name ++
        " command (expected switch binding: unknown switch ".toList ++ switch ++ [')'])
    else if state ∉ ["on".toList, "off".toList, "toggle".toList] then
      .error ("Invalid ".toList ++ name ++
        " command (expected switch state: unknown state ".toList ++ state ++ [')'])
    else .ok (.switchBind combo (if unbind then none else some (joinWords command)) locked)

def parseSwitchBindCommand (args : List Text) (unbind : Bool) : Except Text (Command α) := do
  let name := if unbind then "unbindswitch".toList else "bindswitch".toList
  let minimum := if unbind then 1 else 2
  requireBindArgs name minimum args.length false
  let (locked, remaining) ← switchOptions name unbind false args
  requireBindArgs name minimum remaining.length true
  match remaining with
  | combo :: command => switchBind name unbind locked (joinWords [combo]) command
  | [] => .error ("Invalid ".toList ++ name ++ " command".toList)

/-- The options of a key binding. -/
structure BindOptions where
  release : Bool
  locked : Bool
  inhibited : Bool
  noRepeat : Bool
  inputDevice : Text

/-- The options of the binding commands, and the words after them. -/
def bindOptions (name : Text) (options : BindOptions) :
    List Text → Except Text (BindOptions × List Text)
  | [] => .ok (options, [])
  | word :: rest =>
    if "--".toList.isPrefixOf word then
      if word = "--release".toList then bindOptions name { options with release := true } rest
      else if word = "--locked".toList then bindOptions name { options with locked := true } rest
      else if word = "--inhibited".toList then
        bindOptions name { options with inhibited := true } rest
      else if word = "--no-repeat".toList then
        bindOptions name { options with noRepeat := true } rest
      else if word = "--no-warn".toList then bindOptions name options rest
      else
        match stripPrefix "--input-device=".toList word with
        | some device => bindOptions name { options with inputDevice := Text.unquote device } rest
        | none => .error (unsupportedOption name word)
    else .ok (options, word :: rest)

def bindName (keycode unbind : Bool) : Text :=
  match keycode, unbind with
  | false, false => "bindsym".toList
  | false, true => "unbindsym".toList
  | true, false => "bindcode".toList
  | true, true => "unbindcode".toList

def parseBindCommand (args : List Text) (keycode unbind : Bool) : Except Text (Command α) := do
  let name := bindName keycode unbind
  let minimum := if unbind then 1 else 2
  requireBindArgs name minimum args.length false
  let (options, remaining) ← bindOptions name ⟨false, false, false, false, ['*']⟩ args
  requireBindArgs name minimum remaining.length true
  match remaining with
  | key :: command =>
    .ok (.bind (joinWords [key]) (if unbind then none else some (joinWords command))
      keycode options.release options.locked options.inhibited options.noRepeat
      options.inputDevice)
  | [] => .error ("Invalid ".toList ++ name ++ " command".toList)

def gesturesUnsupported : Text := "gesture events have no sway command-binding model".toList

/-- The binding commands, which stand alone or inside `mode`. -/
def bindingParser (lower : Text) : Option (List Text → Except Text (Command α)) :=
  if lower = "bindsym".toList then some fun rest => parseBindCommand rest false false
  else if lower = "unbindsym".toList then some fun rest => parseBindCommand rest false true
  else if lower = "bindcode".toList then some fun rest => parseBindCommand rest true false
  else if lower = "unbindcode".toList then some fun rest => parseBindCommand rest true true
  else if lower = "bindswitch".toList then some fun rest => parseSwitchBindCommand rest false
  else if lower = "unbindswitch".toList then some fun rest => parseSwitchBindCommand rest true
  else if lower ∈ ["bindgesture".toList, "unbindgesture".toList] then
    some fun _ => .error gesturesUnsupported
  else none

/-- The command inside `mode`. -/
def modeSubcommand : List Text → Except Text (Option (Command α))
  | [] => .ok none
  | word :: rest =>
    if eqIgnoreAsciiCase word "set".toList then (parseSet rest).map some
    else
      match bindingParser (lower word) with
      | some parse => (parse rest).map some
      | none => .error (unknownCommand word)

def parseMode (args : List Text) : Except Text (Command α) := do
  let pangoMarkup := args.head? == some "--pango_markup".toList
  let args := if pangoMarkup then args.tail else args
  match args with
  | [] => .error (if pangoMarkup then "Mode name is missing" else "Expected 'mode <name>'").toList
  | name :: subcommand =>
    let subcommand ← modeSubcommand subcommand
    .ok (.mode (joinWords [name]) pangoMarkup subcommand)

def shortcutsInhibitorUsage : Text := "Expected `shortcuts_inhibitor enable|disable`".toList

def parseShortcutsInhibitor (rest : List Text) : Except Text (Command α) :=
  if rest = ["enable".toList] then .ok (.shortcutsInhibitor true)
  else if rest = ["disable".toList] then .ok (.shortcutsInhibitor false)
  else .error shortcutsInhibitorUsage

def parseInhibitIdle (rest : List Text) : Except Text (Command α) :=
  match rest with
  | [word] =>
    if word = "focus".toList then .ok (.inhibitIdle .focus)
    else if word = "fullscreen".toList then .ok (.inhibitIdle .fullscreen)
    else if word = "open".toList then .ok (.inhibitIdle .open)
    else if word = "none".toList then .ok (.inhibitIdle .none)
    else if word = "visible".toList then .ok (.inhibitIdle .visible)
    else .error "Expected `inhibit_idle focus|fullscreen|open|none|visible`".toList
  | _ => .error (invalidCount "inhibit_idle".toList "1 argument".toList rest.length)

def parseFloating (rest : List Text) : Except Text (Command α) :=
  match rest with
  | [value] => .ok (.floating (parseBooleanToggle value))
  | _ => .error (invalidCount "floating".toList "1 argument".toList rest.length)

def parseUrgent (rest : List Text) : Except Text (Command α) :=
  match rest with
  | [value] =>
    if value ∈ ["allow".toList, "deny".toList] then
      .error "urgent allow|deny requires client urgency-request policy support".toList
    else .ok (.urgent value)
  | _ => .error (invalidCount "urgent".toList "1 argument".toList rest.length)

def parseTitleFormat (rest : List Text) : Except Text (Command α) :=
  if rest.isEmpty then .error "Expected 'title_format <format>'".toList
  else .ok (.titleFormat (joinWords rest))

def parseScratchpad (rest : List Text) : Except Text (Command α) :=
  match rest with
  | [word] =>
    if eqIgnoreAsciiCase word "show".toList then .ok .scratchpadShow
    else .error "Expected 'scratchpad show'".toList
  | _ => .error "Expected 'scratchpad show'".toList

def parseExit (rest : List Text) : Except Text (Command α) :=
  if rest.isEmpty then .ok .exit
  else .error (invalidCount "exit".toList "0 arguments".toList rest.length)

def parseMaxRenderTime (rest : List Text) : Except Text (Command α) :=
  .error (if rest.isEmpty then "Missing max render time argument."
    else "max_render_time requires per-view render deadline support").toList

def parseUnmark (rest : List Text) : Except Text (Command α) :=
  .ok (.unmark (if rest.isEmpty then none else some (joinWords rest)))

/-- The parser of a command that reads its words only. The names are distinct, so the order of the
arms does not matter. -/
def wordsParser (lower : Text) : Option (List Text → Except Text (Command α)) :=
  if lower = "split".toList then some parseSplit
  else if lower = "splith".toList then
    some fun rest => (noArgs rest lower).map fun _ => .split (some .splitH)
  else if lower = "splitv".toList then
    some fun rest => (noArgs rest lower).map fun _ => .split (some .splitV)
  else if lower = "splitt".toList then
    some fun rest => (noArgs rest lower).map fun _ => .split (some .toggleSplit)
  else if lower = "floating".toList then some parseFloating
  else if lower = "urgent".toList then some parseUrgent
  else if lower = "border".toList then some fun rest => (parseBorder rest).map .border
  else if lower = "title_format".toList then some parseTitleFormat
  else if lower = "sticky".toList then
    some fun rest => (one rest "sticky <enable|disable|toggle>".toList).map .sticky
  else if lower = "scratchpad".toList then some parseScratchpad
  else if lower = "kill".toList then some fun _ => .ok .kill
  else if lower = "reload".toList then some fun rest => (noArgs rest lower).map fun _ => .reload
  else if lower = "exit".toList then some parseExit
  else if lower = "inhibit_idle".toList then some parseInhibitIdle
  else if lower = "create_output".toList then some fun _ => .ok .createOutput
  else if lower = "allow_tearing".toList then
    some fun _ => .error "allow_tearing requires immediate presentation support".toList
  else if lower = "max_render_time".toList then some parseMaxRenderTime
  else if lower = "shortcuts_inhibitor".toList then some parseShortcutsInhibitor
  else if lower = "set".toList then some parseSet
  else if lower = "mode".toList then some parseMode
  else if lower = "nop".toList then some fun _ => .ok .nop
  else if lower = "mark".toList then some parseMark
  else if lower = "unmark".toList then some parseUnmark
  else
    match bindingParser lower with
    | some parse => some parse
    | none => (grammar.arguments lower).map fun parse rest => (parse rest).map .plain

/-- The parser of a command that reads its tail as text. -/
def tailParser (lower : Text) : Option (Text → Text → Except Text (Command α)) :=
  if lower = "exec".toList ∨ lower = "exec_always".toList then some parseExec
  else if lower = "for_window".toList then some (parseForWindow grammar)
  else if lower = "assign".toList then some (parseAssign grammar)
  else if lower = "no_focus".toList then some (parseNoFocus grammar)
  else none

/-! ## 5. One command -/

def parseCommand (lower name : Text) (rest : List Text) (input : Text) :
    Except Text (Command α) := do
  checkArity lower rest.length
  match tailParser grammar lower with
  | some parse => parse input name
  | none =>
    match wordsParser grammar lower with
    | some parse => parse rest
    | none => .error (unknownCommand name)

def opacityFloatInvalid : Text := "opacity float invalid".toList
def invalidXPosition : Text := "Invalid x position specified".toList
def invalidYPosition : Text := "Invalid y position specified".toList
def movePositionUsage : Text :=
  ("Expected 'move [absolute] position <x> [px] <y> [px]' or 'move [absolute] position center' " ++
    "or 'move position cursor|mouse|pointer'").toList
def focusFollowsMouseUsage : Text := "Expected 'focus_follows_mouse no|yes|always'".toList
def mouseWarpingUsage : Text := "Expected 'mouse_warping output|container|none'".toList
def invalidSize : Text := "Invalid size specified".toList

/-- The kind of a rejection, and what replaces it without a view. -/
def classify (lower : Text) (error : ParseError) : ParseError :=
  if lower = "border".toList ∧ error.messageIs borderSyntax then
    error.unlessView "Only views can have borders".toList .invalid
  else if lower = "shortcuts_inhibitor".toList ∧ error.messageIs shortcutsInhibitorUsage then
    error.unlessView "Only views can have shortcuts inhibitors".toList .invalid
  else if lower = "opacity".toList ∧ error.messageIs opacityFloatInvalid then
    error.unlessView "No current container".toList .failure
  else if lower = "move".toList ∧ (error.messageIs movePositionUsage ∨
      error.messageIs invalidXPosition ∨ error.messageIs invalidYPosition) then
    error.unlessView "Only floating containers can be moved to an absolute position".toList .failure
  else if lower = "resize".toList then error.unlessView "Cannot resize nothing".toList .invalid
  else if lower = "focus_follows_mouse".toList ∧ error.messageIs focusFollowsMouseUsage then
    error.intoFailure
  else if lower = "mouse_warping".toList ∧ error.messageIs mouseWarpingUsage then error.intoFailure
  else if lower = "split".toList ∧ error.messageIs splitInvalid then error.intoFailure
  else if (lower = "titlebar_border_thickness".toList ∨ lower = "titlebar_padding".toList) ∧
      error.messageIs invalidSize then error.intoFailure
  else error

def parseWords (args : List Text) (input : Text) : Except ParseError (Command α) :=
  match args with
  | [] => .error (.ofMessage "expected a command".toList)
  | name :: rest =>
    match parseCommand grammar (lower name) name rest input with
    | .ok command => .ok command
    | .error message => .error (classify (lower name) (.ofMessage message))

/-- How many words are not expanded: the name, and for `set` the variable it defines. -/
def unexpanded (words : List Text) : ℕ :=
  if words.head?.any (eqIgnoreAsciiCase · "set".toList) then 2 else 1

def expandWords (words : List Text) (table : Variables) : List Text :=
  words.take (unexpanded words) ++
    (words.drop (unexpanded words)).map fun word => expandVariables word table

def parseOneWithVariables (input : Text) (table : Variables) : Except ParseError (Command α) :=
  let expanded := expandWords (words input) table
  parseWords grammar expanded ([' '].intercalate expanded)

/-- One command without its criteria. -/
def parseText (table : Variables) (text : Text) : Except ParseError (Command α) :=
  if (Text.firstAsciiWord text).any (eqIgnoreAsciiCase · "nop".toList) then .ok .nop
  else
    match Text.quotedCommandName text with
    | some name => .error (.ofMessage (unknownCommand name))
    | none =>
      -- Without variables the raw text is parsed, with variables the words put together again.
      if table.isEmpty then parseWords grammar (words text) text
      else parseOneWithVariables grammar text table

/-! ## 6. A list of commands -/

/-- Leading criteria, and the text after them. -/
def takeCriteria (text : Text) : Except CommandOutcome (Option (Text × Text)) :=
  if text.head? ≠ some '[' then .ok none
  else
    match splitCriteria text with
    | some (raw, tail) =>
      match grammar.parseCriteria raw none with
      | .error error => .error (parseError error)
      | .ok _ => .ok (some (raw, tail))
    | none =>
      match grammar.parseCriteria (text ++ [']']) none with
      | .error error => .error (parseError error)
      | .ok _ => .error (parseError "No closing brace found in criteria".toList)

def carrySet (table : Variables) : Command α → Variables
  | .set name value => setVariable table name value
  | .mode _ _ (some (.set name value)) => setVariable table name value
  | _ => table

/-- What the loop of `parse_with_variables` carries from one command to the next. -/
structure ParseState where
  table : Variables
  criteria : Option Text
  criteriaAllowed : Bool

namespace ParseState

/-- A new list. -/
def start (table : Variables) : ParseState := ⟨table, none, true⟩

/-- A semicolon ends the criteria, a comma keeps them and forbids new ones. -/
def afterDelimiter (s : ParseState) (delimiter : Option Char) : ParseState :=
  { s with
    criteria :=
      if delimiter = some ';' ∨ delimiter = some '\x00' then none else s.criteria
    criteriaAllowed := decide (delimiter ≠ some ',') }

/-- The criteria of a command and the variables after it. -/
def afterCommand (s : ParseState) (parsed : ParsedCommand α) : ParseState :=
  { s with
    criteria := parsed.criteria
    table :=
      if parsed.criteria.isNone then carrySet s.table parsed.command else s.table }

end ParseState

/-- The criteria of a command, whether they begin here, and the text after them. -/
def segmentCriteria (s : ParseState) (text : Text) :
    Except CommandOutcome (Option Text × Bool × Text) :=
  if s.criteriaAllowed then
    (takeCriteria grammar text).map fun
      | some (raw, tail) => (some raw, true, tail)
      | none => (s.criteria, false, text)
  else .ok (s.criteria, false, text)

/-- One command of a list. -/
def parseSegment (hasView : Bool) (s : ParseState) (text : Text) :
    Except CommandOutcome (ParsedCommand α) :=
  match segmentCriteria grammar s text with
  | .error outcome => .error outcome
  | .ok (criteria, criteriaStart, rest) =>
    match parseText grammar s.table rest with
    | .ok command => .ok ⟨command, criteria, criteriaStart⟩
    | .error error => .error (error.intoOutcome hasView)

/-- The loop of `parse_with_variables`: it stops at the first rejection of any kind. -/
def parsePieces (grammar : Grammar α κ) (hasView : Bool) (s : ParseState) :
    List (Text × Option Char) → List (Except CommandOutcome (ParsedCommand α))
  | [] => []
  | (piece, delimiter) :: rest =>
    if (trim piece).isEmpty then parsePieces grammar hasView (s.afterDelimiter delimiter) rest
    else
      match parseSegment grammar hasView s (trim piece) with
      | .error outcome => [.error outcome]
      | .ok parsed =>
        .ok parsed ::
          parsePieces grammar hasView ((s.afterCommand parsed).afterDelimiter delimiter) rest

def parseWithVariables (input : Text) (table : Variables)
    (hasView : Bool) : List (Except CommandOutcome (ParsedCommand α)) :=
  parsePieces grammar hasView (.start table) (Text.splitCommands input)

end Swayward.Command
