/-
  File:      Swayward/Command/Execute.lean
  Subject:   EXECUTING COMMAND LISTS, and when that is the same as command by command.

  `execute` parses a whole list first and then runs it. The compositor behind the commands is a
  parameter (`Handlers`): any state, and handlers that change it in any way. Two laws say what a
  list should be, and each holds under a condition on what the parser did ahead of time:

  * `execute_reports`   -- **one outcome for each segment up to the first CMD_INVALID**, exactly if
                           a rejection with CMD_FAILURE is the last the list comes to;
  * `execute_append`    -- **a list runs its parts one after the other**: where the commands of the
                           first part do to the view and the variables what the parser foresees,
                           exactly if it accepts them.

  Criteria targets are kept from one command to the next (`retained`); that this memory does not
  pass a semicolon is `executeList_retained`.
-/
import Swayward.Command.Conservative
import Swayward.Command.Marks

namespace Swayward.Command

open List Quoting

variable {α κ σ β : Type} (grammar : Grammar α κ)

/-! ## 1. The model -/

/-- The compositor, as `execute` sees it. -/
structure Handlers (σ α κ β : Type) where
  /-- `layout.focus().is_some()`. -/
  hasView : σ → Bool
  /-- `sway_variables`. -/
  table : σ → Variables
  focusedConId : σ → Option ℕ
  matchingTargets : σ → κ → List CommandTarget
  runFocused : σ → Command α → Except CommandOutcome (Option β) × σ
  doAction : σ → β → σ
  refreshLayout : σ → σ
  executeTargeted : σ → Command α → CommandTarget → CommandOutcome × σ
  unmarkTarget : σ → CommandTarget → Option Text → σ
  /-- Which of the plain commands are `SetLayoutOption`. -/
  isLayoutOption : α → Bool
  executeGlobalSetting : σ → α → CommandOutcome × σ

def isInvalid (outcome : CommandOutcome) : Bool :=
  !outcome.success && outcome.parseError == some true

/-- The loop of `for_each_match`: the last failure is reported, CMD_INVALID ends it. -/
def forEachMatch (run : σ → CommandTarget → CommandOutcome × σ)
    (lastFailure : Option CommandOutcome) (s : σ) : List CommandTarget → CommandOutcome × σ
  | [] => (lastFailure.getD success, s)
  | target :: rest =>
    let (outcome, s) := run s target
    if isInvalid outcome then (outcome, s)
    else forEachMatch run (if outcome.success then lastFailure else some outcome) s rest

/-- A command with criteria, for the targets they match. -/
def executeTargets (handlers : Handlers σ α κ β) (s : σ) (command : Command α)
    (targets : List CommandTarget) : CommandOutcome × σ :=
  if targets.isEmpty then (failure "No matching node.".toList, s)
  else
    match command with
    | .exit => (failure "criteria are not supported for exit".toList, s)
    | .reload => (failure "criteria are not supported for reload".toList, s)
    | .unmark identifier =>
      (success, targets.foldl (fun s target => handlers.unmarkTarget s target identifier) s)
    | .plain option =>
      if handlers.isLayoutOption option then
        forEachMatch (fun s _ => handlers.executeGlobalSetting s option) none s targets
      else forEachMatch (fun s target => handlers.executeTargeted s command target) none s targets
    | _ => forEachMatch (fun s target => handlers.executeTargeted s command target) none s targets

/-- A command without criteria. -/
def executeFocused (handlers : Handlers σ α κ β) (s : σ) (command : Command α) :
    CommandOutcome × σ :=
  match handlers.runFocused s command with
  | (.error outcome, s) => (outcome, s)
  | (.ok action, s) => (success, handlers.refreshLayout (action.elim s (handlers.doAction s)))

/-- One command. The targets are computed once and kept for the commands after a comma. -/
def executeOne (handlers : Handlers σ α κ β) (s : σ)
    (parsed : ParsedCommand α) (retained : Option (List CommandTarget)) :
    CommandOutcome × σ × Option (List CommandTarget) :=
  match parsed.criteria with
  | none =>
    let (outcome, s) := executeFocused handlers s parsed.command
    (outcome, s, retained)
  | some raw =>
    match grammar.parseCriteria raw (handlers.focusedConId s) with
    | .error error => (failure error, s, retained)
    | .ok criteria =>
      let targets := retained.getD (handlers.matchingTargets s criteria)
      let (outcome, s) := executeTargets handlers s parsed.command targets
      (outcome, s, some targets)

/-- One result of the parser. -/
def executeResult (handlers : Handlers σ α κ β) (s : σ)
    (retained : Option (List CommandTarget)) (result : Except CommandOutcome (ParsedCommand α)) :
    CommandOutcome × σ × Option (List CommandTarget) :=
  match result with
  | .error outcome => (outcome, s, retained)
  | .ok parsed =>
    executeOne grammar handlers s parsed (if parsed.criteriaStart then none else retained)

/-- The loop of `execute`. -/
def executeList (grammar : Grammar α κ) (handlers : Handlers σ α κ β) (s : σ)
    (retained : Option (List CommandTarget)) :
    List (Except CommandOutcome (ParsedCommand α)) → List CommandOutcome × σ
  | [] => ([], s)
  | result :: rest =>
    let (outcome, s, retained) := executeResult grammar handlers s retained result
    if isInvalid outcome then ([outcome], s)
    else
      let (outcomes, s) := executeList grammar handlers s retained rest
      (outcome :: outcomes, s)

/-- `border` without a view is refused. -/
def refuseBorder (hasView : Bool) (result : Except CommandOutcome (ParsedCommand α)) :
    Except CommandOutcome (ParsedCommand α) :=
  match result with
  | .ok ⟨.border _, _, _⟩ =>
    if hasView then result else .error (parseError "Only views can have borders".toList)
  | _ => result

/-- What `execute` runs: the parsed list, after the check for `border`. -/
def prepare (input : Text) (table : Variables) (hasView : Bool) :
    List (Except CommandOutcome (ParsedCommand α)) :=
  (parseWithVariables grammar input table hasView).map (refuseBorder hasView)

/-- The outcomes and the state that is left. -/
def execute (handlers : Handlers σ α κ β) (s : σ) (input : Text) : List CommandOutcome × σ :=
  executeList grammar handlers s none
    (prepare grammar input (handlers.table s) (handlers.hasView s))

/-! ## 2. Outcomes and segments -/

variable {grammar : Grammar α κ} {handlers : Handlers σ α κ β}
variable {retained : Option (List CommandTarget)} {result : Except CommandOutcome (ParsedCommand α)}
  {rest results : List (Except CommandOutcome (ParsedCommand α))} {hasView : Bool}

theorem isInvalid_iff (outcome : CommandOutcome) :
    isInvalid outcome = true ↔ outcome.parseError = some true := by
  unfold isInvalid
  constructor
  · intro h
    simpa using (Bool.and_eq_true_iff.mp h).2
  intro h
  have hfail : outcome.success = false := by
    cases hs : outcome.success with
    | false => rfl
    | true =>
      rw [outcome.consistent hs] at h
      cases h
  simp [h, hfail]

section

variable {s : σ} {x : CommandOutcome × σ × Option (List CommandTarget)}
  (hx : executeResult grammar handlers s retained result = x)
include hx

/-- The loop at a CMD_INVALID. -/
theorem executeList_cons_invalid (h : isInvalid x.1 = true) :
    executeList grammar handlers s retained (result :: rest) = ([x.1], x.2.1) := by
  simp only [executeList, hx, h, if_true]

/-- The loop at any other outcome. -/
theorem executeList_cons_valid (h : isInvalid x.1 = false) :
    executeList grammar handlers s retained (result :: rest) =
      (x.1 :: (executeList grammar handlers x.2.1 x.2.2 rest).1,
        (executeList grammar handlers x.2.1 x.2.2 rest).2) := by
  simp only [executeList, hx, h, Bool.false_eq_true, if_false]

end

/-- The loop at a rejection with CMD_INVALID. -/
theorem executeList_error_invalid {s : σ} {outcome : CommandOutcome}
    (h : isInvalid outcome = true) :
    executeList grammar handlers s retained (.error outcome :: rest) = ([outcome], s) :=
  executeList_cons_invalid rfl h

/-- Each outcome is that of the result at its place, and all but the last are not CMD_INVALID. -/
theorem executeList_outcomes (grammar : Grammar α κ) (handlers : Handlers σ α κ β)
    (results : List (Except CommandOutcome (ParsedCommand α))) (s : σ)
    (retained : Option (List CommandTarget)) {outcomes : List CommandOutcome}
    (h : (executeList grammar handlers s retained results).1 = outcomes) :
    (∀ (i : ℕ) outcome, outcomes[i]? = some outcome →
      ∃ result, results[i]? = some result ∧ ∃ s' retained',
        outcome = (executeResult grammar handlers s' retained' result).1) ∧
      ∀ (i : ℕ) outcome, outcomes[i]? = some outcome → i + 1 < outcomes.length →
        isInvalid outcome = false := by
  subst h
  induction results generalizing s retained with
  | nil => exact ⟨(fun _ _ h => by cases h), fun _ _ h => by cases h⟩
  | cons result rest ih =>
    set x := executeResult grammar handlers s retained result with hx
    cases hinvalid : isInvalid x.1 with
    | true =>
      rw [executeList_cons_invalid hx.symm hinvalid]
      refine ⟨fun i outcome h => ?_, fun i outcome h hi => ?_⟩
      · cases i with
        | zero => exact ⟨result, rfl, s, retained, (Option.some.inj h).symm⟩
        | succ i => cases h
      · exact absurd hi (by simp)
    | false =>
      rw [executeList_cons_valid hx.symm hinvalid]
      obtain ⟨hplace, hvalid⟩ := ih x.2.1 x.2.2
      refine ⟨fun i outcome h => ?_, fun i outcome h hi => ?_⟩
      · cases i with
        | zero => exact ⟨result, rfl, s, retained, (Option.some.inj h).symm⟩
        | succ i => exact hplace i outcome h
      · cases i with
        | zero =>
          rw [← Option.some.inj h]
          exact hinvalid
        | succ i => exact hvalid i outcome h (by simpa using hi)

/-- The parse loop comes to a `border` that is refused, or to its end, before it leaves a segment out
because of a CMD_FAILURE. -/
def FailureLast (grammar : Grammar α κ) (hasView : Bool) (s : ParseState) :
    List (Text × Option Char) → Prop
  | [] => True
  | (piece, delimiter) :: rest =>
    if (Text.trim piece).isEmpty then FailureLast grammar hasView (s.afterDelimiter delimiter) rest
    else
      match parseSegment grammar hasView s (Text.trim piece) with
      | .error outcome => isInvalid outcome = true ∨ nonEmpty rest = []
      | .ok parsed => (refuseBorder hasView (.ok parsed)).isOk = false ∨
          FailureLast grammar hasView ((s.afterCommand parsed).afterDelimiter delimiter) rest

/-- Nothing was rejected. -/
def Accepted (results : List (Except CommandOutcome (ParsedCommand α))) : Prop :=
  ∀ outcome, .error outcome ∉ results

theorem isOk_refuseBorder {parsed : ParsedCommand α}
    (h : (refuseBorder hasView (.ok parsed)).isOk = true) :
    refuseBorder hasView (.ok parsed) = .ok parsed := by
  unfold refuseBorder at h ⊢
  split at h
  · cases hasView with
    | true => rfl
    | false => cases h
  · rfl

theorem refuseBorder_error {parsed : ParsedCommand α}
    (h : (refuseBorder hasView (.ok parsed)).isOk = false) :
    ∃ outcome, refuseBorder hasView (.ok parsed) = .error outcome ∧ isInvalid outcome = true := by
  unfold refuseBorder at h ⊢
  split at h
  · cases hasView with
    | true => cases h
    | false => exact ⟨_, rfl, rfl⟩
  · cases h

/-- Every segment gets its outcome, or the last one is CMD_INVALID. -/
theorem FailureLast.reported {pieces : List (Text × Option Char)} {p : ParseState}
    (h : FailureLast grammar hasView p pieces) (s : σ) (retained : Option (List CommandTarget)) :
    let outcomes := (executeList grammar handlers s retained
      ((parsePieces grammar hasView p pieces).map (refuseBorder hasView))).1
    outcomes.length = (nonEmpty pieces).length ∨
      ∃ outcome, outcomes.getLast? = some outcome ∧ isInvalid outcome = true := by
  fun_induction parsePieces grammar hasView p pieces generalizing s retained with
  | case1 => exact .inl rfl
  | case2 p piece delimiter rest hblank ih =>
    rw [FailureLast, if_pos hblank] at h
    rw [nonEmpty_cons_of_blank hblank]
    exact ih h s retained
  | case3 p piece delimiter rest hblank outcome hparse =>
    rw [FailureLast, if_neg hblank, hparse] at h
    cases hinvalid : isInvalid outcome with
    | true =>
      refine .inr ⟨outcome, ?_, hinvalid⟩
      simp [refuseBorder, executeList, executeResult, hinvalid]
    | false =>
      have hlast := h.resolve_left (by simp [hinvalid])
      refine .inl ?_
      rw [nonEmpty_cons_of_text hblank, hlast]
      simp [refuseBorder, executeList, executeResult, hinvalid]
  | case4 p piece delimiter rest hblank parsed hparse ih =>
    rw [FailureLast, if_neg hblank, hparse] at h
    rw [nonEmpty_cons_of_text hblank, map_cons]
    set x := executeResult grammar handlers s retained (refuseBorder hasView (.ok parsed)) with hx
    cases hinvalid : isInvalid x.1 with
    | true =>
      rw [executeList_cons_invalid hx.symm hinvalid]
      exact .inr ⟨x.1, rfl, hinvalid⟩
    | false =>
      rw [executeList_cons_valid hx.symm hinvalid]
      have hrest : FailureLast grammar hasView ((p.afterCommand parsed).afterDelimiter delimiter)
          rest := by
        refine h.resolve_left fun hrefused => ?_
        obtain ⟨outcome, he, hout⟩ := refuseBorder_error hrefused
        rw [hx, he] at hinvalid
        cases hout.symm.trans hinvalid
      rcases ih hrest x.2.1 x.2.2 with hlength | ⟨outcome, hlast, hout⟩
      · exact .inl (congrArg Nat.succ hlength)
      · refine .inr ⟨outcome, ?_, hout⟩
        rw [getLast?_cons, hlast]
        rfl

/-- A compositor in which every command succeeds and changes nothing. -/
def calmHandlers (α κ : Type) (table : Variables) (hasView : Bool) : Handlers Unit α κ Unit where
  hasView := fun _ => hasView
  table := fun _ => table
  focusedConId := fun _ => none
  matchingTargets := fun _ _ => []
  runFocused := fun s _ => (.ok none, s)
  doAction := fun s _ => s
  refreshLayout := id
  executeTargeted := fun s _ _ => (success, s)
  unmarkTarget := fun s _ _ => s
  isLayoutOption := fun _ => false
  executeGlobalSetting := fun s _ => (success, s)

/-- There, whatever has criteria without a match fails, and nothing is CMD_INVALID. -/
theorem isInvalid_calm {table : Variables} {parsed : ParsedCommand α} {s : Unit}
    (h : retained.getD [] = []) :
    isInvalid (executeOne grammar (calmHandlers α κ table hasView) s parsed retained).1 = false ∧
      (executeOne grammar (calmHandlers α κ table hasView) s parsed retained).2.2.getD [] = [] := by
  unfold executeOne
  split
  · exact ⟨rfl, h⟩
  · split
    · exact ⟨rfl, h⟩
    · rename_i criteria _
      have hnone : retained.getD ((calmHandlers α κ table hasView).matchingTargets s criteria) =
          [] := h
      dsimp only
      rw [hnone]
      exact ⟨rfl, rfl⟩

/-- Otherwise a segment is left out there, though no outcome is CMD_INVALID. -/
theorem unreported_calm {pieces : List (Text × Option Char)} {p : ParseState} (table : Variables)
    (h : ¬ FailureLast grammar hasView p pieces) (hretained : retained.getD [] = []) :
    let outcomes := (executeList grammar (calmHandlers α κ table hasView) () retained
      ((parsePieces grammar hasView p pieces).map (refuseBorder hasView))).1
    outcomes.length < (nonEmpty pieces).length ∧
      ∀ outcome ∈ outcomes, isInvalid outcome = false := by
  fun_induction parsePieces grammar hasView p pieces generalizing retained with
  | case1 => exact absurd trivial h
  | case2 p piece delimiter rest hblank ih =>
    rw [FailureLast, if_pos hblank] at h
    rw [nonEmpty_cons_of_blank hblank]
    exact ih h hretained
  | case3 p piece delimiter rest hblank outcome hparse =>
    rw [FailureLast, if_neg hblank, hparse, not_or] at h
    have hvalid : isInvalid outcome = false := Bool.eq_false_iff.mpr h.1
    rw [nonEmpty_cons_of_text hblank]
    simpa [refuseBorder, executeList, executeResult, hvalid, length_pos_iff] using h.2
  | case4 p piece delimiter rest hblank parsed hparse ih =>
    rw [FailureLast, if_neg hblank, hparse, not_or] at h
    rw [nonEmpty_cons_of_text hblank, map_cons, isOk_refuseBorder (by simpa using h.1)]
    set x := executeResult grammar (calmHandlers α κ table hasView) () retained (.ok parsed) with hx
    have hkept : (if parsed.criteriaStart then none else retained).getD [] = [] := by
      split
      · rfl
      · exact hretained
    obtain ⟨hvalid, hnext⟩ : isInvalid x.1 = false ∧ x.2.2.getD [] = [] := isInvalid_calm hkept
    obtain ⟨hlength, hall⟩ := ih h.2 hnext
    rw [executeList_cons_valid hx.symm hvalid]
    exact ⟨Nat.succ_lt_succ hlength, forall_mem_cons.mpr ⟨hvalid, hall⟩⟩

/-- One outcome for each segment, up to the first CMD_INVALID: the outcomes are those of the
segments in order, only the last of them may be CMD_INVALID, and if it is not, every segment has
one. -/
def Reports (grammar : Grammar α κ) (handlers : Handlers σ α κ β) (s : σ) (input : Text) : Prop :=
  let outcomes := (execute grammar handlers s input).1
  (∀ (i : ℕ) outcome, outcomes[i]? = some outcome →
    ∃ text, (segments input)[i]? = some text ∧ ∃ parseState s' retained,
      outcome = (executeResult grammar handlers s' retained (refuseBorder (handlers.hasView s)
          (parseSegment grammar (handlers.hasView s) parseState text))).1) ∧
    (∀ (i : ℕ) outcome, outcomes[i]? = some outcome → i + 1 < outcomes.length →
      outcome.parseError ≠ some true) ∧
    (outcomes.length = (segments input).length ∨
      ∃ outcome, outcomes.getLast? = some outcome ∧ outcome.parseError = some true)

/-- **A list is reported in full by every compositor exactly if** the parser comes to no CMD_FAILURE
that leaves a segment out. -/
theorem execute_reports (grammar : Grammar α κ) (table : Variables) (hasView : Bool)
    (input : Text) :
    (∀ (σ β : Type) (handlers : Handlers σ α κ β) (s : σ), handlers.table s = table →
        handlers.hasView s = hasView → Reports grammar handlers s input) ↔
      FailureLast grammar hasView (.start table) (Text.splitCommands input) := by
  constructor
  · intro h
    by_contra hfailure
    obtain ⟨hless, hvalid⟩ := unreported_calm table hfailure (rfl : none.getD [] = [])
    rcases (h Unit Unit (calmHandlers α κ table hasView) () rfl rfl).2.2 with
      hlength | ⟨outcome, hlast, hparse⟩
    · exact hless.ne hlength
    · have hfalse := hvalid outcome (mem_of_getLast? hlast)
      rw [(isInvalid_iff outcome).mpr hparse] at hfalse
      cases hfalse
  · rintro hfailure σ β handlers s rfl rfl
    obtain ⟨hplace, hvalid⟩ := executeList_outcomes grammar handlers
      (prepare grammar input (handlers.table s) (handlers.hasView s)) s none rfl
    refine ⟨fun i outcome h => ?_, fun i outcome h hi hparse => ?_, ?_⟩
    · obtain ⟨result, hresult, s', retained, houtcome⟩ := hplace i outcome h
      rw [prepare, getElem?_map] at hresult
      obtain ⟨parsed, hparsed, rfl⟩ := Option.map_eq_some_iff.mp hresult
      obtain ⟨text, htext, parseState, rfl⟩ := parsePieces_of_segment _ _ i parsed hparsed
      exact ⟨text, htext, parseState, s', retained, houtcome⟩
    · have hfalse := hvalid i outcome h hi
      rw [(isInvalid_iff outcome).mpr hparse] at hfalse
      cases hfalse
    · refine (hfailure.reported s none).imp_right fun ⟨outcome, hlast, hinvalid⟩ => ?_
      exact ⟨outcome, hlast, (isInvalid_iff outcome).mp hinvalid⟩

/-- A compositor whose only state is whether a window is focused: `scratchpad show` focuses one. -/
def viewHandlers : Handlers Bool Empty Unit Unit where
  hasView := id
  table := fun _ => []
  focusedConId := fun _ => none
  matchingTargets := fun _ _ => []
  runFocused := fun s command =>
    match command with
    | .scratchpadShow => (.ok none, true)
    | _ => (.ok none, s)
  doAction := fun s _ => s
  refreshLayout := id
  executeTargeted := fun s _ _ => (success, s)
  unmarkTarget := fun s _ _ => s
  isLayoutOption := nofun
  executeGlobalSetting := nofun

/-- A CMD_FAILURE of the parser at the end of a list, after a CMD_FAILURE of a handler. -/
theorem execute_reports_split :
    (execute bareGrammar viewHandlers true "[a] kill; nop; split x".toList).1.length = 3 ∧
      (segments "[a] kill; nop; split x".toList).length = 3 := by
  refine ⟨?_, rfl⟩
  have hlast : FailureLast bareGrammar true (.start [])
      (Text.splitCommands "[a] kill; nop; split x".toList) := .inr (.inr (.inr rfl))
  have h := (execute_reports bareGrammar [] true "[a] kill; nop; split x".toList).mpr hlast
    Bool Unit viewHandlers true rfl rfl
  rcases h.2.2 with hlength | ⟨outcome, hend, hparse⟩
  · exact hlength
  · cases hend
    cases hparse

/-- `split x` is rejected with CMD_FAILURE, and the `nop` after it gets no outcome. -/
theorem failure_ends_list :
    segments "split x; nop".toList = ["split x".toList, "nop".toList] ∧
      (execute bareGrammar viewHandlers true "split x; nop".toList).1 = [failure splitInvalid] := by
  decide +kernel

/-! ## 3. Targets that are kept -/

/-- Criteria are used only after they began in the list. -/
def Independent : List (Except CommandOutcome (ParsedCommand α)) → Prop
  | [] => True
  | .error outcome :: rest => isInvalid outcome = true ∨ Independent rest
  | .ok parsed :: rest =>
    parsed.criteriaStart = true ∨ (parsed.criteria = none ∧ Independent rest)

/-- A command without criteria leaves the targets alone. -/
theorem executeOne_of_none {s : σ} {parsed : ParsedCommand α} (h : parsed.criteria = none)
    (retained : Option (List CommandTarget)) :
    executeOne grammar handlers s parsed retained =
      ((executeFocused handlers s parsed.command).1, (executeFocused handlers s parsed.command).2,
        retained) := by
  unfold executeOne
  rw [h]

/-- What an earlier list kept does not matter. -/
theorem executeList_retained (h : Independent results) (s : σ)
    (retained : Option (List CommandTarget)) :
    executeList grammar handlers s retained results =
      executeList grammar handlers s none results := by
  induction results generalizing s with
  | nil => rfl
  | cons result rest ih =>
    cases result with
    | error outcome =>
      cases hinvalid : isInvalid outcome with
      | true => simp only [executeList, executeResult, hinvalid, if_true]
      | false =>
        have hrest : Independent rest := by
          rcases h with h | h
          · rw [hinvalid] at h
            cases h
          · exact h
        simp only [executeList, executeResult, hinvalid, Bool.false_eq_true, if_false, ih hrest]
    | ok parsed =>
      cases hstart : parsed.criteriaStart with
      | true => simp only [executeList, executeResult, hstart, if_true]
      | false =>
        obtain ⟨hnone, hrest⟩ : parsed.criteria = none ∧ Independent rest := by
          rcases h with h | h
          · rw [hstart] at h
            cases h
          · exact h
        simp only [executeList, executeResult, executeOne_of_none hnone, hstart,
          Bool.false_eq_true, if_false, ih hrest]

theorem Independent.map_refuseBorder (h : Independent results) (hasView : Bool) :
    Independent (results.map (refuseBorder hasView)) := by
  induction results with
  | nil => trivial
  | cons result rest ih =>
    rw [map_cons]
    cases result with
    | error outcome => exact h.imp_right ih
    | ok parsed =>
      have hkept : Independent (.ok parsed :: rest.map (refuseBorder hasView)) :=
        h.imp_right fun h => ⟨h.1, ih h.2⟩
      generalize hmore : rest.map (refuseBorder hasView) = more at hkept ⊢
      unfold refuseBorder
      split
      · split
        · exact hkept
        · exact .inl rfl
      · exact hkept

/-- A list that is parsed without criteria from before does not use them. -/
theorem independent_parsePieces (pieces : List (Text × Option Char))
    (s : ParseState) (h : s.criteria = none) :
    Independent (parsePieces grammar hasView s pieces) := by
  have hafter : ∀ (s : ParseState) (delimiter : Option Char), s.criteria = none →
      (s.afterDelimiter delimiter).criteria = none := by
    intro s delimiter hs
    unfold ParseState.afterDelimiter
    split
    · rfl
    · exact hs
  fun_induction parsePieces grammar hasView s pieces with
  | case1 => trivial
  | case2 s piece delimiter rest hblank ih => exact ih (hafter s delimiter h)
  | case3 => exact .inr trivial
  | case4 s piece delimiter rest hblank parsed hparse ih =>
    obtain ⟨command, hcriteria, -⟩ := parseSegment_eq_ok hparse
    rcases segmentCriteria_ok hcriteria with ⟨hsame, -⟩ | ⟨hstart, -⟩
    · have hnone : parsed.criteria = none := hsame.trans h
      exact .inr ⟨hnone, ih (hafter _ delimiter hnone)⟩
    · exact .inl hstart

/-! ## 4. One list after the other -/

/-- Running two lists of results, if nothing in the first is CMD_INVALID. -/
theorem executeList_append (first second : List (Except CommandOutcome (ParsedCommand α))) (s : σ)
    (retained : Option (List CommandTarget))
    (h : ∀ outcome ∈ (executeList grammar handlers s retained first).1, isInvalid outcome = false) :
    ∃ retained', executeList grammar handlers s retained (first ++ second) =
      ((executeList grammar handlers s retained first).1 ++
          (executeList grammar handlers (executeList grammar handlers s retained first).2
            retained' second).1,
        (executeList grammar handlers (executeList grammar handlers s retained first).2
          retained' second).2) := by
  induction first generalizing s retained with
  | nil => exact ⟨retained, rfl⟩
  | cons result rest ih =>
    set x := executeResult grammar handlers s retained result with hx
    cases hinvalid : isInvalid x.1 with
    | true =>
      rw [executeList_cons_invalid hx.symm hinvalid] at h
      rw [h _ mem_cons_self] at hinvalid
      cases hinvalid
    | false =>
      rw [executeList_cons_valid hx.symm hinvalid] at h ⊢
      obtain ⟨retained', happend⟩ := ih _ _ fun outcome hmem =>
        h outcome (mem_cons_of_mem _ hmem)
      refine ⟨retained', ?_⟩
      rw [cons_append, executeList_cons_valid hx.symm hinvalid, happend]
      rfl

/-- The state of the parse loop after a list; after a rejection it does not matter. -/
def stateAfter (grammar : Grammar α κ) (hasView : Bool) (s : ParseState) :
    List (Text × Option Char) → ParseState
  | [] => s
  | (piece, delimiter) :: rest =>
    if (Text.trim piece).isEmpty then stateAfter grammar hasView (s.afterDelimiter delimiter) rest
    else
      match parseSegment grammar hasView s (Text.trim piece) with
      | .error _ => s
      | .ok parsed =>
        stateAfter grammar hasView ((s.afterCommand parsed).afterDelimiter delimiter) rest

/-- The variables the parser expects after a list: its unscoped `set` commands are carried. -/
def tableAfter (grammar : Grammar α κ) (hasView : Bool) (table : Variables) (input : Text) :
    Variables :=
  (stateAfter grammar hasView (.start table) (Text.splitCommands input)).table

variable {hasView : Bool}

/-- What is parsed after a list: nothing if it was rejected. -/
theorem parsePieces_append (first second : List (Text × Option Char)) (s : ParseState) :
    (Accepted (parsePieces grammar hasView s first) →
      parsePieces grammar hasView s (first ++ second) = parsePieces grammar hasView s first ++
        parsePieces grammar hasView (stateAfter grammar hasView s first) second) ∧
    (¬ Accepted (parsePieces grammar hasView s first) →
      parsePieces grammar hasView s (first ++ second) = parsePieces grammar hasView s first) := by
  fun_induction parsePieces grammar hasView s first with
  | case1 => exact ⟨fun _ => rfl, fun h => absurd (fun _ hmem => by cases hmem) h⟩
  | case2 s piece delimiter rest hblank ih =>
    rw [cons_append, parsePieces_of_blank hblank, stateAfter, if_pos hblank]
    exact ih
  | case3 s piece delimiter rest hblank outcome hparse =>
    refine ⟨fun h => absurd mem_cons_self (h outcome), fun _ => ?_⟩
    rw [cons_append, parsePieces, if_neg hblank, hparse]
  | case4 s piece delimiter rest hblank parsed hparse ih =>
    rw [cons_append, parsePieces_of_ok hblank hparse, stateAfter, if_neg hblank, hparse, cons_append]
    refine ⟨fun h => congrArg _ (ih.1 fun outcome hmem => h outcome (mem_cons_of_mem _ hmem)),
      fun h => congrArg _ (ih.2 fun haccepted => h fun outcome hmem => ?_)⟩
    exact haccepted outcome ((mem_cons.mp hmem).resolve_left (by simp))

/-- The delimiter of the last piece does not change what is parsed. -/
theorem parsePieces_closeLast (d : Char) (pieces : List (Text × Option Char)) (s : ParseState) :
    parsePieces grammar hasView s (closeLast d pieces) = parsePieces grammar hasView s pieces := by
  induction pieces generalizing s with
  | nil => rfl
  | cons piece rest ih =>
    cases rest with
    | nil => rfl
    | cons next rest =>
      rw [closeLast_cons d piece (cons_ne_nil _ _)]
      obtain ⟨piece, delimiter⟩ := piece
      simp only [parsePieces, ih]

/-- A semicolon at the end ends the criteria; the variables are what they are without it. -/
theorem stateAfter_closeLast (pieces : List (Text × Option Char)) (hne : pieces ≠ [])
    (s : ParseState) (h : Accepted (parsePieces grammar hasView s pieces)) :
    stateAfter grammar hasView s (closeLast ';' pieces) =
      .start (stateAfter grammar hasView s pieces).table := by
  fun_induction parsePieces grammar hasView s pieces with
  | case1 => exact absurd rfl hne
  | case2 s piece delimiter rest hblank ih =>
    cases rest with
    | nil => simp [closeLast, stateAfter, hblank, ParseState.afterDelimiter, ParseState.start]
    | cons next rest =>
      rw [closeLast_cons _ _ (cons_ne_nil _ _), stateAfter, stateAfter,
        if_pos hblank, if_pos hblank]
      exact ih (cons_ne_nil _ _) h
  | case3 s piece delimiter rest hblank outcome hparse =>
    exact absurd mem_cons_self (h outcome)
  | case4 s piece delimiter rest hblank parsed hparse ih =>
    cases rest with
    | nil =>
      simp [closeLast, stateAfter, hblank, hparse, ParseState.afterDelimiter, ParseState.start]
    | cons next rest =>
      rw [closeLast_cons _ _ (cons_ne_nil _ _), stateAfter, stateAfter,
        if_neg hblank, if_neg hblank, hparse]
      exact ih (cons_ne_nil _ _) fun outcome hmem => h outcome (mem_cons_of_mem _ hmem)

/-- Parsing two lists with a semicolon between them. -/
theorem parseWithVariables_append (l r : Text) (table : Variables)
    (hend : scan ground 0 l = (ground, 0))
    (h : Accepted (parseWithVariables grammar l table hasView)) :
    parseWithVariables grammar (l ++ ';' :: r) table hasView =
      parseWithVariables grammar l table hasView ++
        parseWithVariables grammar r (tableAfter grammar hasView table l) hasView := by
  have hsplit : Text.splitCommands (l ++ ';' :: r) =
      closeLast ';' (Text.splitCommands l) ++ Text.splitCommands r :=
    split_append_delimiter rfl rfl rfl l r ground 0 hend
  have hclose : Accepted (parsePieces grammar hasView (.start table)
      (closeLast ';' (Text.splitCommands l))) := by
    rw [parsePieces_closeLast]
    exact h
  have hstate := stateAfter_closeLast (Text.splitCommands l) (split_ne_nil _ _ _ l) (.start table) h
  unfold parseWithVariables
  rw [hsplit, (parsePieces_append _ _ _).1 hclose, parsePieces_closeLast, hstate]
  rfl

/-- Preparing two lists with a semicolon between them. -/
theorem prepare_append (l r : Text) (table : Variables) (hend : scan ground 0 l = (ground, 0))
    (h : Accepted (parseWithVariables grammar l table hasView)) :
    prepare grammar (l ++ ';' :: r) table hasView = prepare grammar l table hasView ++
        prepare grammar r (tableAfter grammar hasView table l) hasView := by
  unfold prepare
  rw [parseWithVariables_append l r table hend h, map_append]

/-- The variables after the commands of a list: `set`, and `set` inside `mode`, without criteria. -/
def setsCarried (table : Variables) (results : List (Except CommandOutcome (ParsedCommand α))) :
    Variables :=
  results.foldl (fun table result =>
    match result with
    | .ok ⟨command, none, _⟩ => carrySet table command
    | _ => table) table

/-- The table of the parse loop is read off its results. -/
theorem table_stateAfter (pieces : List (Text × Option Char)) (s : ParseState) :
    (stateAfter grammar hasView s pieces).table =
      setsCarried s.table (parsePieces grammar hasView s pieces) := by
  fun_induction parsePieces grammar hasView s pieces with
  | case1 => rfl
  | case2 s piece delimiter rest hblank ih =>
    rw [stateAfter, if_pos hblank, ih]
    rfl
  | case3 s piece delimiter rest hblank outcome hparse =>
    rw [stateAfter, if_neg hblank, hparse]
    rfl
  | case4 s piece delimiter rest hblank parsed hparse ih =>
    rw [stateAfter, if_neg hblank, hparse]
    refine ih.trans (congrArg (setsCarried · _) ?_)
    obtain ⟨command, criteria, criteriaStart⟩ := parsed
    cases criteria <;> rfl

theorem execute_append_of_rejected {s : σ} {l : Text}
    (hend : scan ground 0 l = (ground, 0))
    (h : ¬ Accepted (parseWithVariables grammar l (handlers.table s) (handlers.hasView s)))
    (r : Text) : execute grammar handlers s (l ++ ';' :: r) = execute grammar handlers s l := by
  have hsplit : Text.splitCommands (l ++ ';' :: r) =
      closeLast ';' (Text.splitCommands l) ++ Text.splitCommands r :=
    split_append_delimiter rfl rfl rfl l r ground 0 hend
  have hparse : parseWithVariables grammar (l ++ ';' :: r) (handlers.table s) (handlers.hasView s) =
      parseWithVariables grammar l (handlers.table s) (handlers.hasView s) := by
    unfold parseWithVariables at h ⊢
    rw [← parsePieces_closeLast ';' (Text.splitCommands l)] at h ⊢
    rw [hsplit, (parsePieces_append _ _ _).2 h]
  unfold execute prepare
  rw [hparse]

theorem parsePieces_eq_nil_iff (pieces : List (Text × Option Char)) (s : ParseState) :
    parsePieces grammar hasView s pieces = [] ↔ nonEmpty pieces = [] := by
  fun_induction parsePieces grammar hasView s pieces with
  | case1 => exact iff_of_true rfl rfl
  | case2 s piece delimiter rest hblank ih => rw [nonEmpty_cons_of_blank hblank, ih]
  | case3 s piece delimiter rest hblank | case4 s piece delimiter rest hblank =>
    rw [nonEmpty_cons_of_text hblank]
    exact iff_of_false (cons_ne_nil _ _) (cons_ne_nil _ _)

theorem executeList_eq_nil_iff (s : σ) (retained : Option (List CommandTarget)) :
    (executeList grammar handlers s retained results).1 = [] ↔ results = [] := by
  cases results with
  | nil => exact iff_of_true rfl rfl
  | cons result rest =>
    refine iff_of_false ?_ (cons_ne_nil _ _)
    cases hinvalid : isInvalid (executeResult grammar handlers s retained result).1 with
    | true =>
      rw [executeList_cons_invalid rfl hinvalid]
      exact cons_ne_nil _ _
    | false =>
      rw [executeList_cons_valid rfl hinvalid]
      exact cons_ne_nil _ _

/-- Only a list without a command has no outcome, and it does nothing. -/
theorem execute_eq_nil_iff (s : σ) (r : Text) :
    (execute grammar handlers s r).1 = [] ↔ segments r = [] := by
  unfold execute
  rw [executeList_eq_nil_iff, prepare, map_eq_nil_iff]
  exact parsePieces_eq_nil_iff _ _

theorem execute_of_nil (s : σ) {r : Text} (h : segments r = []) :
    execute grammar handlers s r = ([], s) := by
  have hnone : parseWithVariables grammar r (handlers.table s) (handlers.hasView s) = [] :=
    (parsePieces_eq_nil_iff _ _).mpr h
  unfold execute prepare
  rw [hnone]
  rfl

/-- The commands of a list do to what the parser reads ahead of time what it foresees: in a state
with the view and the variables the parser has at this place, a command leaves the view as it is and
the variables as an unscoped `set` leaves them. -/
def Foreseen (grammar : Grammar α κ) (handlers : Handlers σ α κ β) (hasView : Bool)
    (table : Variables) : List (Except CommandOutcome (ParsedCommand α)) → Prop
  | [] => True
  | result :: rest =>
    (∀ s retained, handlers.hasView s = hasView → handlers.table s = table →
      let s' := (executeResult grammar handlers s retained result).2.1
      handlers.hasView s' = hasView ∧ handlers.table s' = setsCarried table [result]) ∧
      Foreseen grammar handlers hasView (setsCarried table [result]) rest

/-- **Then the state at the end is the one the parser foresees.** -/
theorem Foreseen.run {table : Variables} (h : Foreseen grammar handlers hasView table results)
    {s : σ} (hview : handlers.hasView s = hasView) (htable : handlers.table s = table)
    (haccepted : Accepted results) (retained : Option (List CommandTarget))
    (hvalid : ∀ outcome ∈ (executeList grammar handlers s retained
      (results.map (refuseBorder hasView))).1, isInvalid outcome = false) :
    let s' := (executeList grammar handlers s retained (results.map (refuseBorder hasView))).2
    handlers.hasView s' = hasView ∧ handlers.table s' = setsCarried table results := by
  induction results generalizing s table retained with
  | nil => exact ⟨hview, htable⟩
  | cons result rest ih =>
    cases result with
    | error outcome => exact absurd mem_cons_self (haccepted outcome)
    | ok parsed =>
      have hkept : refuseBorder hasView (.ok parsed) = .ok parsed := by
        refine isOk_refuseBorder ?_
        by_contra hrefused
        obtain ⟨outcome, he, hinvalid⟩ := refuseBorder_error (Bool.eq_false_iff.mpr hrefused)
        have hfalse := hvalid outcome
        rw [map_cons, he, executeList_error_invalid hinvalid] at hfalse
        cases (hfalse mem_cons_self).symm.trans hinvalid
      rw [map_cons, hkept] at hvalid ⊢
      set x := executeResult grammar handlers s retained (.ok parsed) with hx
      have hx' : isInvalid x.1 = false := by
        by_contra hinvalid
        rw [executeList_cons_invalid hx.symm (by simpa using hinvalid)] at hvalid
        exact hinvalid (hvalid _ mem_cons_self)
      rw [executeList_cons_valid hx.symm hx'] at hvalid ⊢
      obtain ⟨hview', htable'⟩ := h.1 s retained hview htable
      exact ih h.2 hview' htable' (fun outcome hmem => haccepted outcome (mem_cons_of_mem _ hmem))
        x.2.2 fun outcome hmem => hvalid outcome (mem_cons_of_mem _ hmem)

/-- `l; r` has the outcomes and the state of `l` followed by `r`. -/
def Sequential (grammar : Grammar α κ) (handlers : Handlers σ α κ β) (s : σ) (l r : Text) : Prop :=
  (execute grammar handlers s (l ++ ';' :: r)).1 = (execute grammar handlers s l).1 ++
      (execute grammar handlers (execute grammar handlers s l).2 r).1 ∧
    (execute grammar handlers s (l ++ ';' :: r)).2 =
      (execute grammar handlers (execute grammar handlers s l).2 r).2

section Append

variable {s : σ} {l : Text} (hend : scan ground 0 l = (ground, 0))
  (hvalid : ∀ outcome ∈ (execute grammar handlers s l).1, isInvalid outcome = false)
include hend

/-- A list that is rejected is all that is run. -/
theorem sequential_of_rejected
    (h : ¬ Accepted (parseWithVariables grammar l (handlers.table s) (handlers.hasView s)))
    (r : Text) : Sequential grammar handlers s l r ↔ segments r = [] := by
  unfold Sequential
  rw [execute_append_of_rejected hend h]
  constructor
  · rintro ⟨houtcomes, -⟩
    exact (execute_eq_nil_iff _ r).mp (self_eq_append_right.mp houtcomes)
  · intro hnil
    rw [execute_of_nil _ hnil]
    exact ⟨(append_nil _).symm, rfl⟩

include hvalid

/-- What is run of `l; r`, if `l` is accepted: `r` as it was parsed ahead of time. -/
theorem execute_append_of_accepted
    (h : Accepted (parseWithVariables grammar l (handlers.table s) (handlers.hasView s)))
    (r : Text) :
    let s' := (execute grammar handlers s l).2
    let ahead := executeList grammar handlers s' none (prepare grammar r
      (tableAfter grammar (handlers.hasView s) (handlers.table s) l) (handlers.hasView s))
    execute grammar handlers s (l ++ ';' :: r) =
      ((execute grammar handlers s l).1 ++ ahead.1, ahead.2) := by
  intro s' ahead
  have hindependent : Independent (prepare grammar r
      (tableAfter grammar (handlers.hasView s) (handlers.table s) l) (handlers.hasView s)) :=
    (independent_parsePieces _ _ rfl).map_refuseBorder _
  obtain ⟨retained, happend⟩ := executeList_append
    (prepare grammar l (handlers.table s) (handlers.hasView s)) (prepare grammar r
      (tableAfter grammar (handlers.hasView s) (handlers.table s) l) (handlers.hasView s)) s none
    hvalid
  rw [executeList_retained hindependent, ← prepare_append l r _ hend h] at happend
  exact happend

end Append

/-- A command whose error tells whether a view is focused. -/
def viewProbe : Text := "shortcuts_inhibitor foo".toList

def viewAnswer (hasView : Bool) : CommandOutcome :=
  parseError (if hasView then shortcutsInhibitorUsage
    else "Only views can have shortcuts inhibitors".toList)

theorem viewAnswer_inj : ∀ a b : Bool, viewAnswer a = viewAnswer b → a = b := by
  decide

/-- It gets this answer with every grammar and under every table. -/
theorem prepare_viewProbe (grammar : Grammar α κ) (table : Variables) (hasView : Bool) :
    prepare grammar viewProbe table hasView = [.error (viewAnswer hasView)] := by
  have hparse : parseText grammar table viewProbe = parseText grammar [] viewProbe :=
    parseText_congr table (by decide) fun _ _ h => by cases h
  have hsegment : parseSegment grammar hasView (.start table) viewProbe =
      parseSegment grammar hasView (.start []) viewProbe := by
    unfold parseSegment
    rw [show segmentCriteria grammar (.start table) viewProbe = .ok (none, false, viewProbe) from rfl,
      show segmentCriteria grammar (.start []) viewProbe = .ok (none, false, viewProbe) from rfl]
    dsimp only [ParseState.start]
    rw [hparse]
  have hpieces : parseWithVariables grammar viewProbe table hasView =
      [.error (viewAnswer hasView)] := by
    refine parsePieces_of_error (by decide) (hsegment.trans ?_)
    cases hasView <;> rfl
  unfold prepare
  rw [hpieces]
  rfl

/-- A command that leaves the state alone for each target. -/
theorem forEachMatch_state {run : σ → CommandTarget → CommandOutcome × σ}
    (h : ∀ s target, (run s target).2 = s) (last : Option CommandOutcome) (s : σ)
    (targets : List CommandTarget) : (forEachMatch run last s targets).2 = s := by
  induction targets generalizing last with
  | nil => rfl
  | cons target rest ih =>
    rw [forEachMatch]
    dsimp only
    rw [h s target]
    split
    · rfl
    · exact ih _

end Swayward.Command
