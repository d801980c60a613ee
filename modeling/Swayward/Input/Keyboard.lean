/-
  File:      Swayward/Input/Keyboard.lean
  Subject:   KEY BINDINGS: which key events a binding takes from the clients.

  `should_intercept_key` decides for every key event whether a client sees it. It remembers two
  things: the keys whose press it took for a binding (`suppressed`), and the release binding of the
  key pressed last (`held`). The bindings, the session lock, the shortcut inhibitor and the
  screenshot interface are part of the event here, so all of them may change from one to the next.

  * `findConfiguredBind`, `findBind`  -- the lookup, with its ranks and fallbacks;
  * `shouldInterceptKey`              -- the decision;
  * `shouldInterceptKey_press`, `shouldInterceptKey_release` -- what it comes to;
  * `pairs_balanced`                  -- **a release is forwarded if and only if its press was**, if
                                         nothing disturbs a held release binding and no taken key
                                         code is down twice.
-/
import Mathlib.Data.Finset.Basic
import Swayward.Layout.Name
import Swayward.Library.FinMap
import Swayward.Library.Runs

namespace Swayward.Input

abbrev Keycode := ℕ

abbrev Keysym := ℕ

/-! ## 1. Bindings -/

/-- What starts a binding; buttons and wheels never match a key. -/
inductive Trigger
  | keysym (keysym : Keysym)
  | keycode (code : Keycode)
  | pointer (button : ℕ)
  deriving DecidableEq, Repr

inductive Modifier
  | ctrl | shift | alt | super | num | caps | isoLevel3Shift | isoLevel5Shift | compositor
  deriving DecidableEq, Repr

abbrev Modifiers := Finset Modifier

/-- The state of the modifier keys. -/
structure ModifiersState where
  ctrl : Bool
  shift : Bool
  capsLock : Bool
  alt : Bool
  logo : Bool
  numLock : Bool
  isoLevel3Shift : Bool
  isoLevel5Shift : Bool

/-- One modifier, if it is on. -/
def flag (on : Bool) (modifier : Modifier) : Modifiers := if on then {modifier} else ∅

def modifiersFromState (mods : ModifiersState) : Modifiers :=
  flag mods.ctrl .ctrl ∪ flag mods.shift .shift ∪ flag mods.capsLock .caps ∪ flag mods.alt .alt ∪
    flag mods.logo .super ∪ flag mods.numLock .num ∪ flag mods.isoLevel3Shift .isoLevel3Shift ∪
    flag mods.isoLevel5Shift .isoLevel5Shift

inductive ModKey
  | none | ctrl | shift | alt | super | isoLevel3Shift | isoLevel5Shift
  deriving DecidableEq, Repr

namespace ModKey

def toModifiers : ModKey → Modifiers
  | .none => ∅
  | .ctrl => {.ctrl}
  | .shift => {.shift}
  | .alt => {.alt}
  | .super => {.super}
  | .isoLevel3Shift => {.isoLevel3Shift}
  | .isoLevel5Shift => {.isoLevel5Shift}

def isPressed (key : ModKey) (modifiers : Modifiers) : Bool :=
  decide (key ≠ .none) && decide (key.toModifiers ⊆ modifiers)

end ModKey

/-- A binding. -/
structure Bind (A : Type) where
  trigger : Trigger
  modifiers : Modifiers
  action : A
  inputDevice : Text
  group : Option ℕ
  release : Bool
  allowWhenLocked : Bool
  allowInhibiting : Bool
  deriving DecidableEq

/-- What the lookup asks of actions. -/
structure Actions (A : Type) where
  changeVt : ℕ → A
  suspend : A
  allowedWhenLocked : A → Bool
  allowedDuringScreenshot : A → Bool

/-- A key as the layouts see it. -/
structure KeyEventContext where
  inputDevice : Text
  keyCode : Keycode
  modified : Keysym
  raw : Option Keysym
  group : ℕ
  codeModifiers : ModifiersState
  rawModifiers : ModifiersState
  translatedModifiers : ModifiersState

/-- What decides which bindings may fire. -/
structure BindingPolicy where
  modKey : ModKey
  locked : Bool
  inhibited : Bool
  disablePowerKeyHandling : Bool

variable {A : Type} (actions : Actions A)

/-! ## 2. The lookup -/

/-- The best binding so far, and the best that ignores the locks. -/
structure Search (A : Type) where
  best : Option (Bind A)
  bestRank : Option ℕ
  lockFallback : Option (Bind A)
  lockFallbackRank : Option ℕ

/-- The modifiers of a binding, with the compositor's key read both ways. -/
def bindModifiers (modKey : ModKey) (bind : Bind A) : Modifiers :=
  if Modifier.compositor ∈ bind.modifiers then bind.modifiers ∪ modKey.toModifiers
  else if modKey ≠ .none ∧ modKey.toModifiers ⊆ bind.modifiers then
    insert .compositor bind.modifiers
  else bind.modifiers

/-- The modifiers that are down, with the compositor's key. -/
def pressedModifiers (modKey : ModKey) (mods : ModifiersState) : Modifiers :=
  if modKey.isPressed (modifiersFromState mods) then insert .compositor (modifiersFromState mods)
  else modifiersFromState mods

/-- The four bits of a rank, as one number. -/
def rankOf (exactInput hasGroup lockedMatches inhibitedMatches : Bool) : ℕ :=
  8 * exactInput.toNat + 4 * hasGroup.toNat + 2 * lockedMatches.toNat + inhibitedMatches.toNat

/-- Whether a binding may fire at all for this trigger. -/
def eligible (trigger : Trigger) (context : KeyEventContext)
    (policy : BindingPolicy) (bind : Bind A) : Bool :=
  decide (bind.trigger = trigger) && bind.group.all (· == context.group) &&
    !(policy.locked && !(bind.allowWhenLocked || actions.allowedWhenLocked bind.action)) &&
    !(policy.inhibited && bind.allowInhibiting)

/-- One turn of the loop of `find_configured_bind_with_context`. -/
def consider (trigger : Trigger) (modifiers : Modifiers)
    (context : KeyEventContext) (policy : BindingPolicy) (search : Search A) (bind : Bind A) :
    Search A :=
  let exactInput := bind.inputDevice == context.inputDevice
  let own := bindModifiers policy.modKey bind
  let locked := bind.allowWhenLocked || actions.allowedWhenLocked bind.action
  let rank := rankOf exactInput bind.group.isSome (locked == policy.locked)
    (!bind.allowInhibiting == policy.inhibited)
  let locks : Modifiers := {.caps, .num}
  if !eligible actions trigger context policy bind then search
  else if !exactInput && bind.inputDevice != ['*'] then search
  else if own = modifiers then
    if search.bestRank.all (· < rank) then { search with best := some bind, bestRank := some rank }
    else search
  else if Disjoint own locks ∧ own = modifiers \ locks ∧
      search.lockFallbackRank.all (· < rank) = true then
    { search with lockFallback := some bind, lockFallbackRank := some rank }
  else search

/-- `find_configured_bind_with_context`, for one trigger. -/
def findConfiguredBind (bindings : List (Bind A)) (trigger : Trigger)
    (mods : ModifiersState) (context : KeyEventContext) (policy : BindingPolicy) :
    Option (Bind A) :=
  let modifiers := pressedModifiers policy.modKey mods
  let found := bindings.foldl (consider actions trigger modifiers context policy)
    ⟨none, none, none, none⟩
  found.best.or found.lockFallback

/-- `KEY_XF86Switch_VT_1`, `KEY_XF86Switch_VT_12`, `KEY_XF86PowerOff`. -/
def switchVtFirst : Keysym := 0x1008FE01
def switchVtLast : Keysym := 0x1008FE0C
def powerOff : Keysym := 0x1008FF2A

/-- `KEY_KP_Space`, `KEY_KP_Equal`. -/
def keypadSpace : Keysym := 0xFF80
def keypadEqual : Keysym := 0xFFBD

def hardcodedAction (modified : Keysym) (policy : BindingPolicy) : Option A :=
  if switchVtFirst ≤ modified ∧ modified ≤ switchVtLast then
    some (actions.changeVt (modified - switchVtFirst + 1))
  else if modified = powerOff ∧ policy.disablePowerKeyHandling = false then some actions.suspend
  else none

/-- A binding that no configuration has; it can not be inhibited. -/
def builtinBind (keysym : Keysym) (action : A) : Bind A where
  trigger := .keysym keysym
  modifiers := ∅
  action := action
  inputDevice := ['*']
  group := none
  release := false
  allowWhenLocked := false
  allowInhibiting := false

/-- Num Lock made another keypad symbol of the key. -/
def numlockChangedKeypadSymbol (event : KeyEventContext) : Bool :=
  event.translatedModifiers.numLock && decide (event.raw ≠ some event.modified) &&
    decide (keypadSpace ≤ event.modified ∧ event.modified ≤ keypadEqual)

def findBind (bindings : List (Bind A)) (event : KeyEventContext)
    (policy : BindingPolicy) : Option (Bind A) :=
  match hardcodedAction actions event.modified policy with
  | some action => some (builtinBind event.modified action)
  | none =>
    let modifiedBind := findConfiguredBind actions bindings (.keysym event.modified)
      event.translatedModifiers event policy
    if modifiedBind.isSome || numlockChangedKeypadSymbol event then modifiedBind
    else
      (event.raw.bind fun raw =>
        findConfiguredBind actions bindings (.keysym raw) event.rawModifiers event policy).or
      (findConfiguredBind actions bindings (.keycode event.keyCode) event.codeModifiers event
        policy)

/-! ## 3. The decision -/

/-- What is remembered between key events. -/
structure Memory (A : Type) where
  suppressed : List Keycode
  held : Option (Bind A)

inductive FilterResult (A : Type)
  | forward
  | intercept (bind : Option (Bind A))

def FilterResult.isForward : FilterResult A → Bool
  | .forward => true
  | .intercept _ => false

/-- A key event, with everything the decision reads. -/
structure KeyEvent (A : Type) where
  context : KeyEventContext
  pressed : Bool
  bindings : List (Bind A)
  /-- What the screenshot interface does with a key, while it is open. -/
  screenshotUi : Option (Keysym → ModifiersState → Option A)
  policy : BindingPolicy

/-- The release binding that a press matches. -/
def releaseBind (e : KeyEvent A) : Option (Bind A) :=
  if e.pressed then findBind actions (e.bindings.filter (·.release)) e.context e.policy else none

/-- The binding of the event itself: the screenshot interface comes before most bindings. -/
def finalBind (e : KeyEvent A) : Option (Bind A) :=
  let bind := findBind actions (e.bindings.filter (!·.release)) e.context e.policy
  match e.screenshotUi, e.context.raw with
  | some action, some raw =>
    if bind.any fun bind => actions.allowedDuringScreenshot bind.action then bind
    else (action raw e.context.rawModifiers).map (builtinBind raw)
  | _, _ => bind

/-- Whether the held binding is started by this key. -/
def heldMatches (held : Option (Bind A)) (event : KeyEventContext) : Bool :=
  held.any fun bind => bind.trigger == .keycode event.keyCode ||
    bind.trigger == .keysym event.modified || event.raw.any (bind.trigger == .keysym ·)

variable [DecidableEq A] (actions : Actions A)

/-- The held binding is given up, or fires. -/
def disturbsHeld (m : Memory A) (release : Option (Bind A)) (e : KeyEvent A) : Bool :=
  decide (m.held ≠ release) || (!e.pressed && heldMatches m.held e.context)

/-- The end of `should_intercept_key`, after the held binding. -/
def decideKey (m : Memory A) (e : KeyEvent A) : FilterResult A × Memory A :=
  let code := e.context.keyCode
  match finalBind actions e, e.pressed with
  | some bind, true =>
    if e.policy.inhibited && bind.allowInhibiting then (.forward, m)
    else (.intercept (some bind), { m with suppressed := m.suppressed.insert code })
  | _, false =>
    if m.suppressed.contains code then
      (.intercept none, { m with suppressed := m.suppressed.filter (· != code) })
    else (.forward, m)
  | none, true => if m.held.isSome then (.intercept none, m) else (.forward, m)

def shouldInterceptKey (m : Memory A) (e : KeyEvent A) : FilterResult A × Memory A :=
  let release := releaseBind actions e
  if disturbsHeld m release e && !e.pressed then
    (.intercept m.held,
      ⟨m.suppressed.filter (· != e.context.keyCode), none⟩)
  else
    let given : Memory A := if disturbsHeld m release e then { m with held := none } else m
    let kept : Memory A :=
      if e.pressed && release.isSome then { given with held := release } else given
    decideKey actions kept e

/-! ## 4. What the decision comes to -/

variable {actions : Actions A} {policy : BindingPolicy} {m : Memory A} {e : KeyEvent A}

/-- No binding found so far is inhibited. -/
def Search.Uninhibited (policy : BindingPolicy) (search : Search A) : Prop :=
  ∀ bind, search.best = some bind ∨ search.lockFallback = some bind →
    (policy.inhibited && bind.allowInhibiting) = false

omit [DecidableEq A] in
theorem Search.Uninhibited.consider {search : Search A} (h : search.Uninhibited policy)
    (trigger : Trigger) (modifiers : Modifiers) (context : KeyEventContext) (bind : Bind A) :
    (consider actions trigger modifiers context policy search bind).Uninhibited policy := by
  unfold Input.consider
  simp only
  split
  · exact h
  rename_i heligible
  have hopen : (policy.inhibited && bind.allowInhibiting) = false := by
    simp only [eligible, Bool.not_eq_true', Bool.not_eq_false, Bool.and_eq_true] at heligible
    exact heligible.2
  split
  · exact h
  split
  · split
    · intro other hother
      rcases hother with hbest | hfallback
      · cases hbest
        exact hopen
      · exact h other (.inr hfallback)
    · exact h
  · split
    · intro other hother
      rcases hother with hbest | hfallback
      · exact h other (.inl hbest)
      · cases hfallback
        exact hopen
    · exact h

omit [DecidableEq A] in
/-- A binding that is found is not inhibited. -/
theorem findConfiguredBind_uninhibited {bindings : List (Bind A)} {trigger : Trigger}
    {mods : ModifiersState} {context : KeyEventContext} {bind : Bind A}
    (h : findConfiguredBind actions bindings trigger mods context policy = some bind) :
    (policy.inhibited && bind.allowInhibiting) = false := by
  have hloop : ∀ search : Search A, search.Uninhibited policy →
      (bindings.foldl (consider actions trigger (pressedModifiers policy.modKey mods) context
        policy) search).Uninhibited policy := by
    clear h
    induction bindings with
    | nil => exact fun _ hsearch => hsearch
    | cons next rest ih =>
      exact fun search hsearch => ih _ (hsearch.consider trigger _ context next)
  have hfound := hloop ⟨none, none, none, none⟩ (fun bind hbind => by rcases hbind with h | h <;> cases h)
  rcases Option.or_eq_some_iff.mp h with hbest | ⟨-, hfallback⟩
  · exact hfound bind (.inl hbest)
  · exact hfound bind (.inr hfallback)

omit [DecidableEq A] in
theorem findBind_uninhibited {bindings : List (Bind A)} {event : KeyEventContext} {bind : Bind A}
    (h : findBind actions bindings event policy = some bind) :
    (policy.inhibited && bind.allowInhibiting) = false := by
  unfold findBind at h
  split at h
  · cases h
    exact Bool.and_false _
  simp only at h
  split at h
  · exact findConfiguredBind_uninhibited h
  rcases Option.or_eq_some_iff.mp h with hraw | ⟨-, hcode⟩
  · obtain ⟨raw, -, hraw⟩ := Option.bind_eq_some_iff.mp hraw
    exact findConfiguredBind_uninhibited hraw
  · exact findConfiguredBind_uninhibited hcode

omit [DecidableEq A] in
theorem finalBind_uninhibited {bind : Bind A} (h : finalBind actions e = some bind) :
    (e.policy.inhibited && bind.allowInhibiting) = false := by
  unfold finalBind at h
  simp only at h
  split at h
  · split at h
    · exact findBind_uninhibited h
    · obtain ⟨action, -, rfl⟩ := Option.map_eq_some_iff.mp h
      exact Bool.and_false _
  · exact findBind_uninhibited h

/-- Whether a press is taken for a binding of its own. -/
def takes (actions : Actions A) (e : KeyEvent A) : Bool := (finalBind actions e).isSome

/-- Whatever was held before, the release binding of a press takes its place. -/
theorem shouldInterceptKey_of_pressed (m : Memory A) (h : e.pressed = true) :
    shouldInterceptKey actions m e = decideKey actions ⟨m.suppressed, releaseBind actions e⟩ e := by
  unfold shouldInterceptKey
  simp only [h, Bool.not_true, Bool.and_false, Bool.false_eq_true, if_false, Bool.true_and]
  refine congrArg (decideKey actions · e) ?_
  cases hrelease : releaseBind actions e with
  | some bind =>
    rw [if_pos Option.isSome_some]
    split <;> rfl
  | none =>
    simp only [Option.isSome_none, Bool.false_eq_true, if_false]
    split
    · rfl
    rename_i hkept
    have hsame : m.held = none := by
      simpa [disturbsHeld, h] using hkept
    rw [← hsame]

/-- **A press** is forwarded if it has neither a binding nor a release binding; a binding suppresses
the key, and the release binding, if any, is now the held one. -/
theorem shouldInterceptKey_press (m : Memory A) (h : e.pressed = true) :
    (shouldInterceptKey actions m e).1.isForward =
        (!takes actions e && (releaseBind actions e).isNone) ∧
      (∀ code, code ∈ (shouldInterceptKey actions m e).2.suppressed ↔
        (takes actions e = true ∧ code = e.context.keyCode) ∨ code ∈ m.suppressed) ∧
      (shouldInterceptKey actions m e).2.held = releaseBind actions e := by
  rw [shouldInterceptKey_of_pressed m h]
  unfold decideKey takes
  simp only [h]
  cases hfinal : finalBind actions e with
  | some bind =>
    simp only [finalBind_uninhibited hfinal, Bool.false_eq_true, if_false]
    refine ⟨rfl, fun code => ?_, trivial⟩
    simp [List.mem_insert_iff]
  | none =>
    cases hrelease : releaseBind actions e with
    | some bind | none => exact ⟨rfl, fun code => by simp, rfl⟩

/-- **A release** is forwarded if nothing is held and its key is not suppressed; afterwards nothing
is held and its key is not suppressed. -/
theorem shouldInterceptKey_release (m : Memory A) (h : e.pressed = false) :
    (shouldInterceptKey actions m e).1.isForward =
        (m.held.isNone && !m.suppressed.contains e.context.keyCode) ∧
      (∀ code, code ∈ (shouldInterceptKey actions m e).2.suppressed ↔
        code ≠ e.context.keyCode ∧ code ∈ m.suppressed) ∧
      (shouldInterceptKey actions m e).2.held = none := by
  have hrelease : releaseBind actions e = none := by
    unfold releaseBind
    rw [h]
    rfl
  unfold shouldInterceptKey
  simp only [hrelease, h, Bool.not_false, Bool.and_true, Bool.false_and, Bool.false_eq_true, if_false]
  cases hheld : m.held with
  | some bind =>
    have hdisturbs : disturbsHeld m none e = true := by simp [disturbsHeld, hheld]
    rw [if_pos hdisturbs]
    refine ⟨rfl, fun code => ?_, rfl⟩
    simp [and_comm]
  | none =>
    have hquiet : disturbsHeld m none e = false := by simp [disturbsHeld, hheld, heldMatches]
    rw [hquiet, if_neg Bool.false_ne_true, if_neg Bool.false_ne_true]
    unfold decideKey
    simp only [h]
    cases hcode : m.suppressed.contains e.context.keyCode with
    | true =>
      rw [if_pos rfl]
      refine ⟨rfl, fun code => ?_, hheld⟩
      simp [and_comm]
    | false =>
      rw [if_neg Bool.false_ne_true]
      refine ⟨rfl, fun code => ?_, hheld⟩
      have hnot : e.context.keyCode ∉ m.suppressed := by simpa using hcode
      constructor
      · exact fun hmem => ⟨fun heq => hnot (heq ▸ hmem), hmem⟩
      · exact fun hmem => hmem.2

/-! ## 5. Pairs -/

/-- A key of a keyboard. -/
abbrev PhysicalKey := Text × Keycode

def KeyEvent.key (e : KeyEvent A) : PhysicalKey := (e.context.inputDevice, e.context.keyCode)

/-- A finished press and release, and which of the two a client saw. -/
structure Pair where
  key : PhysicalKey
  press : Bool
  release : Bool
  deriving DecidableEq

/-- The memory, with the keys that are down, whether their press was forwarded, the key of the last
event if that was a press, and the finished pairs. -/
structure Ledger (A : Type) where
  memory : Memory A
  down : FinMap PhysicalKey Bool
  last : Option PhysicalKey
  pairs : List Pair

namespace Ledger

def start : Ledger A := ⟨⟨[], none⟩, ∅, none, []⟩

/-- One key event; a key that is down is not pressed, one that is up is not released. -/
def step (actions : Actions A) (s : Ledger A) (e : KeyEvent A) : Except Unit (Ledger A) :=
  let decision := shouldInterceptKey actions s.memory e
  match e.pressed, s.down.lookup e.key with
  | true, none =>
    .ok ⟨decision.2, s.down.insert e.key decision.1.isForward, some e.key, s.pairs⟩
  | false, some press =>
    .ok ⟨decision.2, s.down.erase e.key, none,
      ⟨e.key, press, decision.1.isForward⟩ :: s.pairs⟩
  | _, _ => .error ()

/-- While a release binding is held, the next event is the release of its key, unless the key is
suppressed anyway: then it may be any press, or the release of another suppressed key. -/
def HoldUndisturbed (s : Ledger A) (e : KeyEvent A) : Prop :=
  s.memory.held.isSome = true → ∀ key, s.last = some key →
    (e.pressed = false ∧ e.key = key) ∨
      (key.2 ∈ s.memory.suppressed ∧ (e.pressed = true ∨ e.key.2 ∈ s.memory.suppressed))

/-- A key code that is down on another keyboard is pressed only if no binding takes either. -/
def CodeFree (actions : Actions A) (s : Ledger A) (e : KeyEvent A) : Prop :=
  e.pressed = true → ∀ device, (device, e.key.2) ∈ s.down →
    e.key.2 ∉ s.memory.suppressed ∧ takes actions e = false

/-- What every event of an undisturbed run meets. -/
def Undisturbed (actions : Actions A) (s : Ledger A) (e : KeyEvent A) : Prop :=
  HoldUndisturbed s e ∧ CodeFree actions s e

/-- A key that is down was taken if and only if its code is suppressed or its release binding is
held; a suppressed code is down once. -/
structure Balanced (s : Ledger A) : Prop where
  taken : ∀ key press, s.down.lookup key = some press →
    (press = false ↔ key.2 ∈ s.memory.suppressed ∨
      (s.memory.held.isSome = true ∧ s.last = some key))
  once : ∀ code ∈ s.memory.suppressed, ∃ device, (device, code) ∈ s.down ∧
    ∀ other, (other, code) ∈ s.down → other = device
  holder : s.memory.held.isSome = true → ∃ key, s.last = some key
  equal : ∀ pair ∈ s.pairs, pair.press = pair.release

variable {s t : Ledger A}

omit [DecidableEq A] in
theorem Balanced.start : Balanced (start : Ledger A) where
  taken := fun _ _ h => by cases h
  once := fun _ h => by cases h
  holder := fun h => by cases h
  equal := fun _ h => by cases h

omit [DecidableEq A] in
/-- In an undisturbed run a hold that the event does not end is not needed. -/
theorem Balanced.taken_iff (h : s.Balanced) (hold : HoldUndisturbed s e) {key : PhysicalKey}
    {press : Bool} (hkey : s.down.lookup key = some press)
    (hother : e.pressed = true ∨ e.key ≠ key) :
    press = false ↔ key.2 ∈ s.memory.suppressed := by
  rw [h.taken key press hkey]
  refine ⟨fun htaken => ?_, .inl⟩
  rcases htaken with hmem | ⟨hheld, hlast⟩
  · exact hmem
  rcases hold hheld key hlast with ⟨hrelease, heq⟩ | ⟨hmem, -⟩
  · rcases hother with hpress | hne
    · rw [hrelease] at hpress
      cases hpress
    · exact absurd heq hne
  · exact hmem

/-- What a press keeps. -/
theorem Balanced.press (h : s.Balanced) (hgood : Undisturbed actions s e)
    (hpressed : e.pressed = true) :
    Balanced ⟨(shouldInterceptKey actions s.memory e).2,
      s.down.insert e.key (shouldInterceptKey actions s.memory e).1.isForward, some e.key,
      s.pairs⟩ := by
  obtain ⟨hforward, hsuppressed, hheld⟩ :=
    shouldInterceptKey_press (A := A) (e := e) s.memory hpressed
  have hfresh : e.key.2 ∉ s.memory.suppressed := by
    intro hmem
    obtain ⟨device, hdown, -⟩ := h.once _ hmem
    exact (hgood.2 hpressed device hdown).1 hmem
  refine ⟨?_, ?_, fun _ => ⟨e.key, rfl⟩, h.equal⟩
  · intro key press hkey
    change press = false ↔ key.2 ∈ (shouldInterceptKey actions s.memory e).2.suppressed ∨
      ((shouldInterceptKey actions s.memory e).2.held.isSome = true ∧ some e.key = some key)
    rw [FinMap.lookup_insert_eq] at hkey
    rw [hsuppressed, hheld]
    by_cases heq : key = e.key
    · -- The key itself: it was up, so its code was not suppressed.
      subst heq
      rw [if_pos rfl, hforward] at hkey
      rw [← Option.some.inj hkey]
      cases takes actions e <;> cases releaseBind actions e <;> simp [hfresh]; rfl
    · -- Another key: the new hold is not its own, and the code can be new only if it is another.
      rw [if_neg heq] at hkey
      rw [h.taken_iff hgood.1 hkey (.inl hpressed)]
      have hne : some e.key ≠ some key := fun he => heq (Option.some.inj he).symm
      have hcode : takes actions e = true → key.2 ≠ e.context.keyCode := by
        intro htakes hcode
        have hdown : (key.1, e.key.2) ∈ s.down := by
          have hpair : (key.1, e.key.2) = key := Prod.ext rfl hcode.symm
          rw [hpair]
          exact FinMap.mem_iff_lookup.mpr ⟨press, hkey⟩
        rw [(hgood.2 hpressed key.1 hdown).2] at htakes
        cases htakes
      constructor
      · exact fun hmem => .inl (.inr hmem)
      rintro ((⟨htakes, heqCode⟩ | hmem) | ⟨-, hlast⟩)
      · exact absurd heqCode (hcode htakes)
      · exact hmem
      · exact absurd hlast hne
  · intro code hcode
    change ∃ device, (device, code) ∈ s.down.insert e.key _ ∧
      ∀ other, (other, code) ∈ s.down.insert e.key _ → other = device
    rcases (hsuppressed code).mp hcode with ⟨htakes, rfl⟩ | hmem
    · refine ⟨e.context.inputDevice, (AList.mem_insert _).mpr (.inl rfl), fun other hother => ?_⟩
      rcases (AList.mem_insert _).mp hother with heq | hdown
      · exact congrArg Prod.fst heq
      · have hfree := (hgood.2 hpressed other hdown).2
        rw [htakes] at hfree
        cases hfree
    · obtain ⟨device, hdown, honce⟩ := h.once code hmem
      refine ⟨device, (AList.mem_insert _).mpr (.inr hdown), fun other hother => ?_⟩
      rcases (AList.mem_insert _).mp hother with heq | hdown
      · have hcode : code = e.key.2 := congrArg Prod.snd heq
        exact absurd (hcode ▸ hmem) hfresh
      · exact honce other hdown

/-- What a release keeps: it is forwarded as its press was. -/
theorem Balanced.release (h : s.Balanced) (hgood : Undisturbed actions s e)
    (hreleased : e.pressed = false) {press : Bool} (hdown : s.down.lookup e.key = some press) :
    Balanced ⟨(shouldInterceptKey actions s.memory e).2, s.down.erase e.key, none,
      ⟨e.key, press, (shouldInterceptKey actions s.memory e).1.isForward⟩ :: s.pairs⟩ := by
  obtain ⟨hforward, hsuppressed, hheld⟩ :=
    shouldInterceptKey_release (A := A) (e := e) s.memory hreleased
  have hnot : ¬e.pressed = true := by simp [hreleased]
  refine ⟨?_, ?_, ?_, ?_⟩
  · intro key other hkey
    change other = false ↔ key.2 ∈ (shouldInterceptKey actions s.memory e).2.suppressed ∨
      ((shouldInterceptKey actions s.memory e).2.held.isSome = true ∧ none = some key)
    rw [FinMap.lookup_erase_eq] at hkey
    rw [hsuppressed]
    by_cases heq : key = e.key
    · rw [if_pos heq] at hkey
      cases hkey
    rw [if_neg heq] at hkey
    rw [h.taken_iff hgood.1 hkey (.inr (Ne.symm heq))]
    constructor
    · refine fun hmem => .inl ⟨fun hcode => heq ?_, hmem⟩
      -- A suppressed code is down once, so the two keys would be the same.
      obtain ⟨device, -, honce⟩ := h.once key.2 hmem
      have h1 := honce key.1 (FinMap.mem_iff_lookup.mpr ⟨other, hkey⟩)
      have hmem2 : (e.key.1, key.2) ∈ s.down := by
        rw [hcode]
        exact FinMap.mem_iff_lookup.mpr ⟨press, hdown⟩
      have h2 := honce e.key.1 hmem2
      exact Prod.ext (h1.trans h2.symm) hcode
    · rintro (⟨-, hmem⟩ | ⟨-, hlast⟩)
      · exact hmem
      · cases hlast
  · intro code hcode
    change ∃ device, (device, code) ∈ s.down.erase e.key ∧
      ∀ other, (other, code) ∈ s.down.erase e.key → other = device
    obtain ⟨hne, hmem⟩ := (hsuppressed code).mp hcode
    obtain ⟨device, hdevice, honce⟩ := h.once code hmem
    refine ⟨device, AList.mem_erase.mpr ⟨fun heq => hne (congrArg Prod.snd heq), hdevice⟩, ?_⟩
    exact fun other hother => honce other (AList.mem_erase.mp hother).2
  · intro hsome
    rw [hheld] at hsome
    cases hsome
  · intro pair hpair
    rcases List.mem_cons.mp hpair with rfl | hold
    · change press = (shouldInterceptKey actions s.memory e).1.isForward
      rw [hforward]
      cases hholds : s.memory.held with
      | none =>
        have htaken := h.taken e.key press hdown
        rw [hholds] at htaken
        have hiff : press = false ↔ e.context.keyCode ∈ s.memory.suppressed := by
          simpa [KeyEvent.key] using htaken
        rw [Option.isNone_none, Bool.true_and, List.contains_eq_mem]
        cases press <;> simp_all
      | some bind =>
        -- What is held belongs to this key, or this key is suppressed as well.
        have hsome : s.memory.held.isSome = true := by
          rw [hholds]
          rfl
        obtain ⟨key, hlast⟩ := h.holder hsome
        refine (h.taken e.key press hdown).mpr ?_
        rcases hgood.1 hsome key hlast with ⟨-, rfl⟩ | ⟨-, hpressed | hmem⟩
        · exact .inr ⟨hsome, hlast⟩
        · exact absurd hpressed hnot
        · exact .inl hmem
    · exact h.equal pair hold

theorem Balanced.step (h : s.Balanced) (hgood : Undisturbed actions s e)
    (hstep : s.step actions e = .ok t) : t.Balanced := by
  unfold Ledger.step at hstep
  simp only at hstep
  split at hstep
  · rename_i hpressed hup
    cases hstep
    exact h.press hgood hpressed
  · rename_i press hreleased hdown
    cases hstep
    exact h.release hgood hreleased hdown
  · cases hstep

/-- **Key events reach clients in pairs**: in every sequence of key events in which the keys of each
keyboard alternate between press and release, a release is forwarded if and only if its press was,
if no event disturbs a held release binding and no taken key code is down twice. -/
theorem pairs_balanced (actions : Actions A) (events : List (KeyEvent A))
    (hgood : Runs.Along (step actions) (Undisturbed actions) start events)
    (hrun : Runs.run (step actions) start events = .ok t) :
    ∀ pair ∈ t.pairs, pair.press = pair.release := by
  have hbalanced : t.Balanced := Runs.run_keeps
    (fun _ _ _ h hgood hstep => h.step hgood hstep) hgood Balanced.start hrun
  exact hbalanced.equal

/-! ## 6. Two keys -/

/-- Actions that are numbers; none is special. -/
def plainActions : Actions ℕ := ⟨fun vt => vt, 0, fun _ => false, fun _ => false⟩

def noModifiers : ModifiersState := ⟨false, false, false, false, false, false, false, false⟩

/-- A binding of a key code, for every keyboard. -/
def codeBind (code : Keycode) (release : Bool) : Bind ℕ :=
  ⟨.keycode code, ∅, code, ['*'], none, release, false, false⟩

/-- A key of the only keyboard; 38 has a release binding, 39 a binding. -/
def keyEvent (code : Keycode) (pressed : Bool) : KeyEvent ℕ where
  context := ⟨"kbd".toList, code, code, none, 0, noModifiers, noModifiers, noModifiers⟩
  pressed := pressed
  bindings := [codeBind 38 true, codeBind 39 false]
  screenshotUi := none
  policy := ⟨.none, false, false, false⟩

/-- No key with the code of the event is down. -/
theorem codeFree_of_keys {s : Ledger ℕ} {e : KeyEvent ℕ}
    (h : ∀ key ∈ s.down.keys, key.2 ≠ e.key.2) : CodeFree plainActions s e :=
  fun _ device hdown => absurd rfl (h (device, e.key.2) (AList.mem_keys.mp hdown))

/-- The two bound keys, with a key between them that has no binding. -/
theorem pairs_balanced_two :
    ∃ t : Ledger ℕ, Runs.run (step plainActions) start
        [keyEvent 39 true, keyEvent 50 true, keyEvent 39 false, keyEvent 50 false,
          keyEvent 38 true, keyEvent 38 false] = .ok t ∧
      t.pairs.length = 3 ∧ ∀ pair ∈ t.pairs, pair.press = pair.release := by
  refine ⟨_, rfl, rfl, ?_⟩
  refine pairs_balanced plainActions
    [keyEvent 39 true, keyEvent 50 true, keyEvent 39 false, keyEvent 50 false, keyEvent 38 true,
      keyEvent 38 false] ?_ rfl
  refine .cons_ok ⟨nofun, codeFree_of_keys (by decide)⟩ rfl ?_
  refine .cons_ok ⟨nofun, codeFree_of_keys (by decide)⟩ rfl ?_
  refine .cons_ok ⟨nofun, nofun⟩ rfl ?_
  refine .cons_ok ⟨nofun, nofun⟩ rfl ?_
  refine .cons_ok ⟨nofun, codeFree_of_keys (by decide)⟩ rfl ?_
  refine .cons_ok ⟨fun _ key hlast => .inl ⟨rfl, Option.some.inj hlast⟩, nofun⟩ rfl ?_
  trivial

/-- A key with a release binding is pressed, another key is pressed, the first is released: its
press was taken, its release is forwarded. -/
theorem release_after_other_key :
    ∃ t : Ledger ℕ, Runs.run (step plainActions) start
        [keyEvent 38 true, keyEvent 50 true, keyEvent 38 false] = .ok t ∧
      t.pairs = [⟨("kbd".toList, 38), false, true⟩] :=
  ⟨_, rfl, rfl⟩

end Ledger

end Swayward.Input
