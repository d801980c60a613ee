/-
  File:      Swayward/Command/ForWindow.lean
  Subject:   RULES FOR WINDOWS: `for_window` and the commands it runs for a window.

  `run_for_window` first collects the rules that match a window and have not run for it, and then
  runs their commands one by one; a command that marks a window calls `run_for_window` again before
  it returns. The calls in progress are an explicit stack here (`Frame`), so that a re-entrant call
  is an ordinary step and every state between two commands can be looked at:

  * `Config.internal`, `Config.move`  -- one step of the calls in progress, one move of a run;
  * `Config.AtMostOnce`               -- what has run and what is pending, without repetition;
  * `Config.finishes`                 -- every evaluation ends;
  * `rules_run_once`                  -- **a rule runs at most once for a window**, if no rule that
                                         is still pending in an outer call matches an inner one.

  What a command does is a parameter: any change of the marks and of the rest of the session, and
  any number of `mark` commands on any targets. Only `mark` re-enters.
-/
import Swayward.Command.Marks
import Swayward.Library.Runs

namespace Swayward.ForWindow

open List

/-- A rule: its criteria as text, its command, and the parsed criteria. -/
structure Rule (K : Type) where
  raw : Text
  command : Text
  criteria : K

/-- What `executed_for_window` remembers. -/
abbrev Key := MappedId × Text × Text

/-- One command of a list, as far as the rules can see it. -/
inductive Effect (σ : Type)
  /-- `mark`, for all targets the command has. -/
  | mark (targets : Marks → σ → List CommandTarget) (mark : Mark) (add toggle : Bool)
  /-- Any other command that leaves the rules alone; a `for_window` in a rule's command does not. -/
  | other (change : Marks × σ → Marks × σ)

/-- The session: titles, focus and everything else that no rule table holds is in `rest`. -/
structure State (σ K : Type) where
  windows : List MappedId
  marks : Marks
  rest : σ
  forWindow : List (Rule K)
  executedForWindow : List Key

/-- What the rules are read with: which windows criteria accept, and what the command list
`[con_id=window] command` does. -/
structure Setting (σ K : Type) where
  accepts : K → MappedId → Marks → σ → Bool
  effects : MappedId → Text → List (Effect σ)

/-- A call in progress. -/
inductive Frame (σ : Type)
  /-- `run_for_window` is about to collect. -/
  | evaluate (id : MappedId)
  /-- The loop of `run_for_window` over what it has collected. -/
  | rules (id : MappedId) (commands : List (Text × Text))
  /-- The loop of `execute` over a command list. -/
  | effects (pending : List (Effect σ))
  /-- The loop of a `mark` command over its targets. -/
  | targets (pending : List CommandTarget) (mark : Mark) (add toggle : Bool)

/-- The session, the calls in progress, and the rules that have run, latest first. -/
structure Config (σ K : Type) where
  state : State σ K
  stack : List (Frame σ)
  log : List Key

/-- What happens from outside. -/
inductive Event (σ K : Type)
  /-- `for_window` adds a rule. -/
  | forWindow (rule : Rule K)
  /-- A window is mapped: the commands of the config's rules, then the runtime rules. -/
  | map (id : MappedId) (commands : List Text)
  /-- A tag is set: the window changes, then its rules are evaluated. -/
  | setTag (id : MappedId) (change : σ → σ)
  /-- A title or anything else changes; no rule is evaluated. -/
  | change (change : Marks × σ → Marks × σ)
  /-- A command list from a binding or a client. -/
  | execute (commands : List (Effect σ))

variable {σ K : Type}

namespace State

/-- The windows the criteria accept. -/
def matchingIds (setting : Setting σ K) (s : State σ K) (criteria : K) : List MappedId :=
  s.windows.filter fun id => setting.accepts criteria id s.marks s.rest

/-- What `run_for_window` collects: rules that have not run for the window and match it. -/
def collect (setting : Setting σ K) (s : State σ K) (id : MappedId) : List (Text × Text) :=
  s.forWindow.filterMap fun rule =>
    if !s.executedForWindow.contains (id, rule.raw, rule.command) &&
        (s.matchingIds setting rule.criteria).contains id then
      some (rule.raw, rule.command)
    else none

/-- `rules::for_window`: a rule that is known is not added again. -/
def forWindowCommand (s : State σ K) (rule : Rule K) : State σ K :=
  if s.forWindow.any fun known => known.raw == rule.raw && known.command == rule.command then s
  else { s with forWindow := s.forWindow ++ [rule] }

/-- A change of the marks and of the rest. -/
def change (s : State σ K) (change : Marks × σ → Marks × σ) : State σ K :=
  let (marks, rest) := change (s.marks, s.rest)
  { s with marks, rest }

end State

namespace Config

variable (setting : Setting σ K)

/-! ## 1. The machine -/

/-- The frames a `mark` command leaves after it has marked `target`: windows are evaluated. -/
def evaluateTarget : CommandTarget → List (Frame σ)
  | .window id => [.evaluate id]
  | .container _ _ => []

/-- One step of the innermost call. -/
def internal (c : Config σ K) : Config σ K :=
  match c.stack with
  | [] => c
  | .evaluate id :: stack => { c with stack := .rules id (c.state.collect setting id) :: stack }
  | .rules _ [] :: stack => { c with stack := stack }
  | .rules id ((raw, command) :: rest) :: stack =>
    -- Recorded before it runs, so that a rule that marks its window does not run itself.
    { state :=
        { c.state with
          executedForWindow := c.state.executedForWindow.insert (id, raw, command) }
      stack := .effects (setting.effects id command) :: .rules id rest :: stack
      log := (id, raw, command) :: c.log }
  | .effects [] :: stack => { c with stack := stack }
  | .effects (.other change :: rest) :: stack =>
    { c with state := c.state.change change, stack := .effects rest :: stack }
  | .effects (.mark targets mark add toggle :: rest) :: stack =>
    { c with
      stack := .targets (targets c.state.marks c.state.rest) mark add toggle ::
        .effects rest :: stack }
  | .targets [] _ _ _ :: stack => { c with stack := stack }
  | .targets (target :: rest) mark add toggle :: stack =>
    { c with
      state := { c.state with marks := c.state.marks.markTarget target mark add toggle }
      stack := evaluateTarget target ++ .targets rest mark add toggle :: stack }

/-- An event starts when no call is in progress. -/
def begin (c : Config σ K) : Event σ K → Config σ K
  | .forWindow rule => { c with state := c.state.forWindowCommand rule }
  | .map id commands =>
    { c with
      state := { c.state with windows := c.state.windows.insert id }
      stack := [.effects (commands.flatMap (setting.effects id)), .evaluate id] }
  | .setTag id change =>
    { c with state := { c.state with rest := change c.state.rest }, stack := [.evaluate id] }
  | .change change => { c with state := c.state.change change }
  | .execute commands => { c with stack := [.effects commands] }

/-- A move of a run: a step of the calls in progress, or the next event when there is none. -/
inductive Move (σ K : Type)
  | internal
  | event (event : Event σ K)

def move (c : Config σ K) : Move σ K → Except Unit (Config σ K)
  | .internal => .ok (c.internal setting)
  | .event event => if c.stack.isEmpty then .ok (c.begin setting event) else .error ()

/-- No rules, nothing executed; windows, marks and the rest as they may be. -/
def start (windows : List MappedId) (marks : Marks) (rest : σ) : Config σ K :=
  ⟨⟨windows, marks, rest, [], []⟩, [], []⟩

/-! ## 2. What has run and what is pending -/

/-- The rules a frame is going to run. -/
def pendingIn : Frame σ → List Key
  | .rules id commands => commands.map fun command => (id, command)
  | _ => []

/-- The rules the calls in progress are going to run. -/
def pending (c : Config σ K) : List Key := c.stack.flatMap pendingIn

/-- No rule has run twice, none will run that has run, and the table of executed rules knows which
have run. -/
structure AtMostOnce (c : Config σ K) : Prop where
  rules_nodup : (c.state.forWindow.map fun rule => (rule.raw, rule.command)).Nodup
  nodup : (c.pending ++ c.log).Nodup
  executed : ∀ key ∈ c.log, key ∈ c.state.executedForWindow
  unexecuted : ∀ key ∈ c.pending, key ∉ c.state.executedForWindow

/-- An evaluation collects no rule that an outer evaluation of the window still has pending. -/
def NoOverlap (c : Config σ K) : Move σ K → Prop
  | .internal =>
    match c.stack with
    | .evaluate id :: stack =>
      ∀ command ∈ c.state.collect setting id, (id, command) ∉ stack.flatMap pendingIn
    | _ => True
  | .event _ => True

variable {setting : Setting σ K} {c : Config σ K} {id : MappedId}

theorem mem_collect {s : State σ K} {command : Text × Text}
    (h : command ∈ s.collect setting id) :
    (id, command) ∉ s.executedForWindow ∧ id ∈ s.windows ∧
      command ∈ s.forWindow.map fun rule => (rule.raw, rule.command) := by
  obtain ⟨rule, hrule, hsome⟩ := mem_filterMap.mp h
  split at hsome
  · rename_i hcond
    cases hsome
    simp only [Bool.and_eq_true, Bool.not_eq_true', contains_eq_mem, decide_eq_false_iff_not,
      decide_eq_true_eq] at hcond
    exact ⟨hcond.1, (mem_filter.mp hcond.2).1, mem_map_of_mem hrule⟩
  · cases hsome

theorem collect_sublist (setting : Setting σ K) (s : State σ K) (id : MappedId) :
    (s.collect setting id).Sublist (s.forWindow.map fun rule => (rule.raw, rule.command)) := by
  unfold State.collect
  induction s.forWindow with
  | nil => exact Sublist.slnil
  | cons rule rules ih =>
    rw [filterMap_cons, map_cons]
    split
    · exact ih.cons _
    rename_i hsome
    split at hsome
    · cases hsome
      exact ih.cons_cons _
    · cases hsome

/-- Frames without rules can be pushed and popped, and the marks and the rest can change. -/
theorem AtMostOnce.of_same {c' : Config σ K} (h : c.AtMostOnce)
    (hrules : c'.state.forWindow = c.state.forWindow)
    (hexecuted : c'.state.executedForWindow = c.state.executedForWindow) (hlog : c'.log = c.log)
    (hpending : c'.pending = c.pending) : c'.AtMostOnce where
  rules_nodup := by rw [hrules]; exact h.rules_nodup
  nodup := by rw [hpending, hlog]; exact h.nodup
  executed := by rw [hlog, hexecuted]; exact h.executed
  unexecuted := by rw [hpending, hexecuted]; exact h.unexecuted

/-- Collecting, when nothing collected is pending. -/
theorem AtMostOnce.collected (h : c.AtMostOnce) {stack : List (Frame σ)}
    (hstack : c.stack = .evaluate id :: stack)
    (hover : ∀ command ∈ c.state.collect setting id, (id, command) ∉ stack.flatMap pendingIn) :
    AtMostOnce { c with stack := .rules id (c.state.collect setting id) :: stack } := by
  have hpending : c.pending = stack.flatMap pendingIn := by
    unfold pending
    rw [hstack]
    rfl
  have hnew : ∀ key ∈ (c.state.collect setting id).map fun command => (id, command),
      key ∉ c.state.executedForWindow ∧ key ∉ c.pending := by
    intro key hkey
    obtain ⟨command, hcommand, rfl⟩ := mem_map.mp hkey
    exact ⟨(mem_collect hcommand).1, hpending ▸ hover command hcommand⟩
  refine ⟨h.rules_nodup, ?_, h.executed, ?_⟩
  · change (((c.state.collect setting id).map fun command => (id, command)) ++
      stack.flatMap pendingIn ++ c.log).Nodup
    rw [← hpending, append_assoc]
    refine nodup_append'.mpr ⟨?_, h.nodup, ?_⟩
    · exact (h.rules_nodup.sublist (collect_sublist setting c.state id)).map
        fun _ _ he => congrArg Prod.snd he
    intro key hkey hrest
    rcases mem_append.mp hrest with hpend | hlog
    · exact (hnew key hkey).2 hpend
    · exact (hnew key hkey).1 (h.executed key hlog)
  · intro key hkey
    rcases mem_append.mp hkey with hcollected | hrest
    · exact (hnew key hcollected).1
    · exact h.unexecuted key (hpending ▸ hrest)

/-- Running the next rule moves it from what is pending to what has run. -/
theorem AtMostOnce.ran (h : c.AtMostOnce) {raw command : Text}
    {rest : List (Text × Text)} {stack : List (Frame σ)} {commands : List (Effect σ)}
    (hstack : c.stack = .rules id ((raw, command) :: rest) :: stack) :
    AtMostOnce
      { state := { c.state with
          executedForWindow := c.state.executedForWindow.insert (id, raw, command) }
        stack := .effects commands :: .rules id rest :: stack
        log := (id, raw, command) :: c.log } := by
  have hpending : c.pending =
      (id, raw, command) :: ((rest.map fun command => (id, command)) ++
        stack.flatMap pendingIn) := by
    unfold pending
    rw [hstack]
    rfl
  have hnodup := h.nodup
  rw [hpending, cons_append] at hnodup
  obtain ⟨hnot, hrest⟩ := nodup_cons.mp hnodup
  refine ⟨h.rules_nodup, ?_, ?_, ?_⟩
  · exact perm_middle.nodup_iff.mpr (nodup_cons.mpr ⟨hnot, hrest⟩)
  · intro key hkey
    rcases mem_cons.mp hkey with rfl | hold
    · exact mem_insert_self
    · exact mem_insert_of_mem (h.executed key hold)
  · intro key hkey hmem
    rcases mem_insert_iff.mp hmem with rfl | hold
    · exact hnot (mem_append_left _ hkey)
    · exact h.unexecuted key (hpending ▸ mem_cons_of_mem _ hkey) hold

/-- What a step of the calls in progress keeps. -/
theorem AtMostOnce.internal (h : c.AtMostOnce) (hover : NoOverlap setting c .internal) :
    (c.internal setting).AtMostOnce := by
  have hpop : ∀ {frame : Frame σ} {stack new : List (Frame σ)}, c.stack = frame :: stack →
      pendingIn frame = [] → new.flatMap pendingIn = stack.flatMap pendingIn →
      new.flatMap pendingIn = c.pending := by
    intro frame stack new hstack hframe hnew
    rw [hnew, pending, hstack, flatMap_cons, hframe, nil_append]
  unfold Config.internal
  split
  · exact h
  · rename_i id stack hstack
    simp only [NoOverlap, hstack] at hover
    exact h.collected hstack hover
  · rename_i id stack hstack
    exact h.of_same rfl rfl rfl (hpop hstack rfl rfl)
  · rename_i id raw command rest stack hstack
    exact h.ran hstack
  · rename_i stack hstack
    exact h.of_same rfl rfl rfl (hpop hstack rfl rfl)
  · rename_i change rest stack hstack
    exact h.of_same rfl rfl rfl (hpop hstack rfl rfl)
  · rename_i targets mark add toggle rest stack hstack
    exact h.of_same rfl rfl rfl (hpop hstack rfl rfl)
  · rename_i mark add toggle stack hstack
    exact h.of_same rfl rfl rfl (hpop hstack rfl rfl)
  · rename_i target rest mark add toggle stack hstack
    refine h.of_same rfl rfl rfl (hpop hstack rfl ?_)
    cases target <;> rfl

theorem nodup_forWindowCommand (s : State σ K) (rule : Rule K)
    (h : (s.forWindow.map fun rule => (rule.raw, rule.command)).Nodup) :
    ((s.forWindowCommand rule).forWindow.map fun rule => (rule.raw, rule.command)).Nodup := by
  unfold State.forWindowCommand
  split
  · exact h
  rename_i hnew
  rw [map_append]
  refine nodup_append'.mpr ⟨h, nodup_singleton _, ?_⟩
  intro command hcommand hsingle
  obtain ⟨known, hknown, rfl⟩ := mem_map.mp hcommand
  have he : known.raw = rule.raw ∧ known.command = rule.command := by
    simpa using mem_singleton.mp hsingle
  refine hnew (any_eq_true.mpr ⟨known, hknown, ?_⟩)
  simp [he.1, he.2]

/-- What the beginning of an event keeps. -/
theorem AtMostOnce.begin (h : c.AtMostOnce) (hidle : c.stack = []) (event : Event σ K) :
    (c.begin setting event).AtMostOnce := by
  have hpending : c.pending = [] := by
    unfold pending
    rw [hidle]
    rfl
  cases event with
  | forWindow rule =>
    have hexecuted : (c.state.forWindowCommand rule).executedForWindow =
        c.state.executedForWindow := by
      unfold State.forWindowCommand
      split <;> rfl
    refine ⟨nodup_forWindowCommand c.state rule h.rules_nodup, h.nodup, ?_, ?_⟩
    · intro key hkey
      exact hexecuted ▸ h.executed key hkey
    · intro key hkey
      exact hexecuted ▸ h.unexecuted key hkey
  | map id commands | setTag id change | execute commands =>
    exact h.of_same rfl rfl rfl hpending.symm
  | change change => exact h.of_same rfl rfl rfl rfl

theorem AtMostOnce.move {c' : Config σ K} (h : c.AtMostOnce) {m : Move σ K}
    (hover : NoOverlap setting c m) (hmove : c.move setting m = .ok c') : c'.AtMostOnce := by
  cases m with
  | internal =>
    cases hmove
    exact h.internal hover
  | event event =>
    simp only [Config.move] at hmove
    split at hmove
    · rename_i hidle
      cases hmove
      exact h.begin (isEmpty_iff.mp hidle) event
    · cases hmove

theorem AtMostOnce.start (windows : List MappedId) (marks : Marks) (rest : σ) :
    AtMostOnce (start windows marks rest : Config σ K) :=
  ⟨nodup_nil, nodup_nil, (fun _ h => by cases h), (fun _ h => by cases h)⟩

/-! ## 3. Every evaluation ends -/

/-- The pairs of a window and a rule that have not run. -/
def remaining (s : State σ K) : ℕ :=
  ((s.windows.flatMap fun id => s.forWindow.map fun rule => (id, rule.raw, rule.command)).filter
    fun key => !s.executedForWindow.contains key).length

/-- From `c` some steps lead to `c'`. -/
def Leads (setting : Setting σ K) : Config σ K → Config σ K → Prop :=
  Relation.ReflTransGen fun c c' => c.internal setting = c'

/-- A frame that is finished after some steps, from every state with at most `bound` remaining
runs, and leaves no more of them. -/
def Ends (setting : Setting σ K) (bound : ℕ) (frame : Frame σ) : Prop :=
  ∀ (s : State σ K) (stack : List (Frame σ)) (log : List Key), remaining s ≤ bound →
    ∃ s' log', Leads setting ⟨s, frame :: stack, log⟩ ⟨s', stack, log'⟩ ∧ remaining s' ≤ bound

variable {bound : ℕ}

/-- One step, then the rest. -/
theorem Leads.cons {a b d : Config σ K} (hstep : a.internal setting = b)
    (h : Leads setting b d) : Leads setting a d :=
  Relation.ReflTransGen.head hstep h

/-- A rule that runs is no longer among those that have not run. -/
theorem remaining_insert (s : State σ K) (key : Key) :
    remaining { s with executedForWindow := s.executedForWindow.insert key } =
      (((s.windows.flatMap fun id => s.forWindow.map fun rule => (id, rule.raw, rule.command)).filter
        fun key => !s.executedForWindow.contains key).filter (· != key)).length := by
  unfold remaining
  rw [filter_filter]
  refine congrArg length (filter_congr fun other _ => ?_)
  rw [Bool.eq_iff_iff]
  simp [mem_insert_iff]

theorem remaining_insert_le (s : State σ K) (key : Key) :
    remaining { s with executedForWindow := s.executedForWindow.insert key } ≤ remaining s := by
  rw [remaining_insert]
  exact length_filter_le _ _

/-- A rule that has been collected leaves fewer when it runs. -/
theorem remaining_insert_lt {s : State σ K} {command : Text × Text}
    (h : command ∈ s.collect setting id) :
    remaining { s with executedForWindow := s.executedForWindow.insert (id, command) } <
      remaining s := by
  obtain ⟨hnot, hid, hrule⟩ := mem_collect h
  rw [remaining_insert]
  refine length_filter_lt_length_iff_exists.mpr ⟨(id, command), ?_, by simp⟩
  refine mem_filter.mpr ⟨mem_flatMap.mpr ⟨id, hid, ?_⟩, by simpa using hnot⟩
  obtain ⟨rule, hmem, rfl⟩ := mem_map.mp hrule
  exact mem_map_of_mem hmem

section

variable (h : ∀ id, Ends (K := K) setting bound (.evaluate id))
include h

/-- Marking changes no table of rules. -/
theorem Ends.targets (targets : List CommandTarget) (mark : Mark) (add toggle : Bool) :
    Ends setting bound (.targets targets mark add toggle) := by
  induction targets with
  | nil => exact fun s stack log hs => ⟨s, log, .cons rfl .refl, hs⟩
  | cons target rest ih =>
    intro s stack log hs
    cases target with
    | window id =>
      obtain ⟨s1, log1, hleads1, hs1⟩ := h id
        { s with marks := s.marks.markTarget (.window id) mark add toggle }
        (.targets rest mark add toggle :: stack) log hs
      obtain ⟨s2, log2, hleads2, hs2⟩ := ih s1 stack log1 hs1
      exact ⟨s2, log2, .cons rfl (hleads1.trans hleads2), hs2⟩
    | container workspace node =>
      obtain ⟨s1, log1, hleads1, hs1⟩ := ih
        { s with marks := s.marks.markTarget (.container workspace node) mark add toggle }
        stack log hs
      exact ⟨s1, log1, .cons rfl hleads1, hs1⟩

theorem Ends.effects (commands : List (Effect σ)) : Ends setting bound (.effects commands) := by
  induction commands with
  | nil => exact fun s stack log hs => ⟨s, log, .cons rfl .refl, hs⟩
  | cons command rest ih =>
    intro s stack log hs
    cases command with
    | other change =>
      obtain ⟨s1, log1, hleads1, hs1⟩ := ih (s.change change) stack log hs
      exact ⟨s1, log1, .cons rfl hleads1, hs1⟩
    | mark targets mark add toggle =>
      obtain ⟨s1, log1, hleads1, hs1⟩ := Ends.targets h (targets s.marks s.rest) mark add toggle
        s (.effects rest :: stack) log hs
      obtain ⟨s2, log2, hleads2, hs2⟩ := ih s1 stack log1 hs1
      exact ⟨s2, log2, .cons rfl (hleads1.trans hleads2), hs2⟩

/-- A rule that has run meanwhile runs again, so the bound need not fall here; the list does. -/
theorem Ends.rules (id : MappedId) (commands : List (Text × Text)) :
    Ends setting bound (.rules id commands) := by
  induction commands with
  | nil => exact fun s stack log hs => ⟨s, log, .cons rfl .refl, hs⟩
  | cons command rest ih =>
    intro s stack log hs
    obtain ⟨s1, log1, hleads1, hs1⟩ := Ends.effects h (setting.effects id command.2)
      { s with executedForWindow := s.executedForWindow.insert (id, command) }
      (.rules id rest :: stack) ((id, command) :: log) ((remaining_insert_le s _).trans hs)
    obtain ⟨s2, log2, hleads2, hs2⟩ := ih s1 stack log1 hs1
    exact ⟨s2, log2, .cons rfl (hleads1.trans hleads2), hs2⟩

end

/-- An evaluation ends: the first rule it has collected has not run before, so everything after it
goes on with fewer remaining runs. -/
theorem Ends.evaluate (setting : Setting σ K) (bound : ℕ) (id : MappedId) :
    Ends setting bound (.evaluate id) := by
  induction bound using Nat.strong_induction_on generalizing id with
  | _ bound ih =>
    intro s stack log hs
    have hcollected : Config.internal setting ⟨s, .evaluate id :: stack, log⟩ =
        ⟨s, .rules id (s.collect setting id) :: stack, log⟩ := rfl
    cases hcollect : s.collect setting id with
    | nil =>
      rw [hcollect] at hcollected
      exact ⟨s, log, .cons hcollected (.cons rfl .refl), hs⟩
    | cons command rest =>
      rw [hcollect] at hcollected
      have hfirst : command ∈ s.collect setting id := by
        rw [hcollect]
        exact mem_cons_self
      have hlt := remaining_insert_lt hfirst
      have hlower := ih _ (hlt.trans_le hs)
      obtain ⟨s1, log1, hleads1, hs1⟩ := Ends.effects hlower (setting.effects id command.2)
        { s with executedForWindow := s.executedForWindow.insert (id, command) }
        (.rules id rest :: stack) ((id, command) :: log) le_rfl
      obtain ⟨s2, log2, hleads2, hs2⟩ := Ends.rules hlower id rest s1 stack log1 hs1
      exact ⟨s2, log2, .cons hcollected (.cons rfl (hleads1.trans hleads2)),
        hs2.trans (hlt.le.trans hs)⟩

theorem Ends.frame (setting : Setting σ K) (bound : ℕ) (frame : Frame σ) :
    Ends setting bound frame := by
  have hevaluate := Ends.evaluate setting bound
  cases frame with
  | evaluate id => exact hevaluate id
  | rules id commands => exact Ends.rules hevaluate id commands
  | effects pending => exact Ends.effects hevaluate pending
  | targets pending mark add toggle => exact Ends.targets hevaluate pending mark add toggle

/-- **Every evaluation ends**: whatever calls are in progress, all of them return. -/
theorem finishes (setting : Setting σ K) (c : Config σ K) :
    ∃ c', Leads setting c c' ∧ c'.stack = [] := by
  obtain ⟨s, stack, log⟩ := c
  induction stack generalizing s log with
  | nil => exact ⟨_, .refl, rfl⟩
  | cons frame stack ih =>
    obtain ⟨s1, log1, hleads, -⟩ := Ends.frame setting (remaining s) frame s stack log le_rfl
    obtain ⟨c', hleads', hidle⟩ := ih s1 log1
    exact ⟨c', hleads.trans hleads', hidle⟩

/-! ## 4. Whole runs -/

/-- **A rule runs at most once for a window, and its evaluation ends**: in every run in which no
evaluation collects a rule that an outer evaluation of the same window still has pending. -/
theorem rules_run_once (setting : Setting σ K) (windows : List MappedId) (marks : Marks) (rest : σ)
    (moves : List (Move σ K))
    (hover : Runs.Along (move setting) (NoOverlap setting) (start windows marks rest) moves)
    (c : Config σ K) (hrun : Runs.run (move setting) (start windows marks rest) moves = .ok c) :
    c.log.Nodup ∧ ∃ c', Leads setting c c' ∧ c'.stack = [] := by
  have honce : c.AtMostOnce := Runs.run_keeps
    (fun _ _ _ h hgood hmove => h.move hgood hmove) hover (AtMostOnce.start windows marks rest) hrun
  exact ⟨(nodup_append'.mp honce.nodup).2.1, finishes setting c⟩

/-- Criteria that accept every window; the command `mark` marks the window it runs for, every other
command does nothing. -/
def markingSetting : Setting Unit Unit where
  accepts := fun _ _ _ _ => true
  effects := fun id command =>
    if command = "mark".toList then
      [.mark (fun _ _ => [.window id]) "m".toList false false]
    else []

/-- `for_window [title=a] command`. -/
def titleRule (command : String) : Rule Unit := ⟨"[title=a]".toList, command.toList, ()⟩

/-- The rule that marks is added and a window is mapped: the rule runs, the evaluation that the mark
starts finds nothing left, and all calls return. -/
theorem rules_run_once_mark :
    ∃ c, Runs.run (move markingSetting) (start [] Marks.empty ())
        ([.event (.forWindow (titleRule "mark")), .event (.map 1 [])] ++
          List.replicate 10 .internal) = .ok c ∧
      c.stack = [] ∧ c.log = [(1, "[title=a]".toList, "mark".toList)] ∧ c.log.Nodup := by
  refine ⟨_, rfl, rfl, rfl, ?_⟩
  refine (rules_run_once markingSetting [] Marks.empty ()
    ([.event (.forWindow (titleRule "mark")), .event (.map 1 [])] ++ replicate 10 .internal)
    ?_ _ rfl).1
  -- Only the two evaluations have something to show: nothing is pending below the first, and the
  -- second collects nothing.
  refine .cons_ok trivial rfl (.cons_ok trivial rfl (.cons_ok trivial rfl ?_))
  refine .cons_ok (fun _ _ hmem => by cases hmem) rfl ?_
  refine .cons_ok trivial rfl (.cons_ok trivial rfl (.cons_ok trivial rfl ?_))
  refine .cons_ok (fun _ hmem => by cases hmem) rfl ?_
  refine .cons_ok trivial rfl (.cons_ok trivial rfl (.cons_ok trivial rfl (.cons_ok trivial rfl ?_)))
  trivial

/-- A rule that marks and a second rule: the mark starts an evaluation that runs the second rule,
and the outer evaluation runs it again. -/
theorem rule_runs_twice :
    ∃ c, Runs.run (move markingSetting) (start [] Marks.empty ())
        ([.event (.forWindow (titleRule "mark")), .event (.forWindow (titleRule "nop")),
          .event (.map 1 [])] ++ List.replicate 16 .internal) = .ok c ∧
      c.stack = [] ∧
      c.log = [(1, "[title=a]".toList, "nop".toList), (1, "[title=a]".toList, "nop".toList),
        (1, "[title=a]".toList, "mark".toList)] :=
  ⟨_, rfl, rfl, rfl⟩

end Config

end Swayward.ForWindow
