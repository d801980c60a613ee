/-
  File:      Swayward/Session/State.lean
  Subject:   THE OUTPUTS of a session: their redraw state, their lock state and what they show.

  One `OutputState` per connected output, the session's `LockState`, the event loop's pending
  timers and the things that are drawn. Time is in milliseconds. A pixel buffer is the list of
  elements it was made from, so that two pictures are equal when they show the same things.

  * `RedrawState`  -- where an output is between two frames (swayward.rs, `queue_redraw`);
  * `LockState`    -- how far a session lock has come, with the confirmation it still owes;
  * `renderInner`  -- the elements of one output, front to back (swayward/render.rs);
  * `Notice`       -- what leaves the compositor: frames, and the word to the lock client.
-/
import Mathlib.Data.Rat.Defs
import Swayward.Library.FinMap
import Swayward.Library.Runs

namespace Swayward.Session

abbrev OutputId := ℕ

/-- A pending timer of the event loop (`RegistrationToken`). -/
abbrev Token := ℕ

abbrev SurfaceId := ℕ

/-! ## 1. Redraw state -/

inductive RedrawState
  | idle
  | queued
  | waitingForVBlank (redrawNeeded : Bool)
  | waitingForEstimatedVBlank (token : Token)
  | waitingForEstimatedVBlankAndQueued (token : Token)
  deriving DecidableEq, Repr

namespace RedrawState

def queueRedraw : RedrawState → RedrawState
  | idle => queued
  | waitingForEstimatedVBlank token => waitingForEstimatedVBlankAndQueued token
  | queued => queued
  | waitingForEstimatedVBlankAndQueued token => waitingForEstimatedVBlankAndQueued token
  | waitingForVBlank _ => waitingForVBlank true

/-- The states `redraw_queued_outputs` looks for and `redraw` asserts. -/
def isQueued : RedrawState → Bool
  | queued | waitingForEstimatedVBlankAndQueued _ => true
  | _ => false

/-- The estimated-vblank timer the state carries. -/
def token : RedrawState → Option Token
  | waitingForEstimatedVBlank token | waitingForEstimatedVBlankAndQueued token => some token
  | _ => none

/-- The state after a redraw that showed nothing. -/
def skipped : RedrawState → RedrawState
  | waitingForEstimatedVBlank token | waitingForEstimatedVBlankAndQueued token =>
    waitingForEstimatedVBlank token
  | _ => idle

@[simp] theorem token_queueRedraw (r : RedrawState) : r.queueRedraw.token = r.token := by
  cases r <;> rfl

@[simp] theorem token_skipped (r : RedrawState) : r.skipped.token = r.token := by
  cases r <;> rfl

end RedrawState

/-! ## 2. Session lock -/

inductive LockRenderState
  | unlocked
  | locked
  deriving DecidableEq, Repr

/-- An `ext_session_lock_v1` object. Every lock request makes a new one, so its number also names
the request, and the `SessionLocker` that answers it. -/
structure SessionLock where
  id : ℕ
  client : ℕ
  deriving DecidableEq, Repr

structure LockSurface where
  surface : SurfaceId
  client : ℕ
  lock : SessionLock
  deriving DecidableEq, Repr

inductive LockState
  | unlocked
  | waitingForSurfaces (confirmation : SessionLock) (deadlineToken : Token)
  | locking (confirmation : SessionLock)
  | locked (lock : SessionLock)
  deriving DecidableEq, Repr

namespace LockState

def isLocked : LockState → Bool
  | unlocked | waitingForSurfaces _ _ => false
  | locking _ | locked _ => true

/-- The request that still waits for its answer. -/
def owed : LockState → Option SessionLock
  | waitingForSurfaces confirmation _ | locking confirmation => some confirmation
  | unlocked | locked _ => none

end LockState

/-! ## 3. What is drawn -/

inductive RenderTarget
  | output
  | screencast
  | screenCapture
  deriving DecidableEq, Repr

/-- A render element with its contents `C`. A texture is the list of elements it was rendered
from, drawn with an opacity. -/
inductive Element (C : Type)
  | contents (pixels : C)
  | texture (rendered : List (Element C)) (alpha : ℚ)
  | lockColor
  | opaqueRegions (of : Element C)

namespace ScreenTransition

def defaultDelay : ℕ := 250
def duration : ℕ := 500

end ScreenTransition

/-- A picture of the output held over it while a transition runs. -/
structure ScreenTransition (C : Type) where
  fromTexture : RenderTarget → List (Element C)
  startAt : ℕ

namespace ScreenTransition

variable {C : Type}

def isDone (transition : ScreenTransition C) (now : ℕ) : Bool :=
  transition.startAt + duration ≤ now

def alpha (transition : ScreenTransition C) (now : ℕ) : ℚ :=
  if transition.startAt + duration ≤ now then 0
  else if transition.startAt ≤ now then 1 - (now - transition.startAt : ℚ) / duration
  else 1

def render (transition : ScreenTransition C) (now : ℕ) (target : RenderTarget) : Element C :=
  .texture (transition.fromTexture target) (transition.alpha now)

end ScreenTransition

/-- Everything the outputs can show. The windows, layer-shell surfaces and interface elements that
only an unlocked session draws are one component, `session`. -/
structure Scene (C : Type) where
  pointerVisible : Bool
  pointer : OutputId → List (Element C)
  exitConfirmDialog : OutputId → List (Element C)
  configErrorNotification : OutputId → Option (Element C)
  lockSurface : SurfaceId → List (Element C)
  debugDrawOpaqueRegions : Bool
  session : OutputId → RenderTarget → List (Element C)

/-- Nothing to show. -/
def Scene.blank {C : Type} : Scene C where
  pointerVisible := false
  pointer _ := []
  exitConfirmDialog _ := []
  configErrorNotification _ := none
  lockSurface _ := []
  debugDrawOpaqueRegions := false
  session _ _ := []

/-! ## 4. The state -/

structure OutputState (C : Type) where
  redrawState : RedrawState
  unfinishedAnimationsRemain : Bool
  lockRenderState : LockRenderState
  lockSurface : Option LockSurface
  screenTransition : Option (ScreenTransition C)

/-- What a pending timer does when it fires. -/
inductive Source
  | estimatedVBlank (output : OutputId)
  | lockDeadline
  | lockRedraw (output : OutputId)
  deriving DecidableEq, Repr

/-- What leaves the compositor, with the value `is_locked()` had at that moment. -/
inductive Notice
  | outputAdded (output : OutputId) (locked : Bool)
  | frame (output : OutputId) (locked : Bool)
  | inactive (output : OutputId) (locked : Bool)
  | locked (request : ℕ)
  deriving DecidableEq, Repr

/-- The branches of the code that must not be reached. -/
inductive Panic
  | missingOutput
  | outputAlreadyTracked
  | redrawNotQueued
  | frameQueuedInWrongState
  | estimatedTimerQueuedInWrongState
  | estimatedTimerFiredInWrongState
  deriving DecidableEq, Repr

structure Compositor (C : Type) where
  outputs : FinMap OutputId (OutputState C)
  lockState : LockState
  sources : FinMap Token Source
  nextToken : Token
  nextLock : ℕ
  deadLocks : List ℕ
  mapped : List SurfaceId
  monitorsActive : Bool
  poweredOff : List OutputId
  now : ℕ
  scene : Scene C
  /-- What has left the compositor so far, the newest first. -/
  log : List Notice

namespace Compositor

variable {C : Type} (s : Compositor C)

def new (scene : Scene C) : Compositor C where
  outputs := ∅
  lockState := .unlocked
  sources := ∅
  nextToken := 0
  nextLock := 0
  deadLocks := []
  mapped := []
  monitorsActive := true
  poweredOff := []
  now := 0
  scene := scene
  log := []

def isLocked : Bool := s.lockState.isLocked

/-- `output_power`, in which only the outputs that were switched off matter. -/
def powered (o : OutputId) : Bool := !s.poweredOff.contains o

def tell (notice : Notice) : Compositor C := { s with log := notice :: s.log }

def modifyOutput (o : OutputId) (f : OutputState C → OutputState C) : Compositor C :=
  { s with outputs := s.outputs.modify o f }

def setRedrawState (o : OutputId) (r : RedrawState) : Compositor C :=
  s.modifyOutput o fun out => { out with redrawState := r }

def removeSource (token : Token) : Compositor C :=
  { s with sources := s.sources.erase token }

def queueRedraw (s : Compositor C) (o : OutputId) : Compositor C :=
  s.modifyOutput o fun out => { out with redrawState := out.redrawState.queueRedraw }

def queueRedrawAll : Compositor C :=
  { s with outputs := s.outputs.mapVals fun _ out =>
      { out with redrawState := out.redrawState.queueRedraw } }

/-- Whether every connected output displays a locked frame. -/
def allLocked : Bool :=
  s.outputs.all fun out => out.lockRenderState = .locked

/-! ## 5. Rendering -/

/-- The elements of an output, front to back. -/
def renderInner (o : OutputId) (target : RenderTarget) (includePointer : Bool) : List (Element C) :=
  match s.outputs.lookup o with
  | none => []
  | some out =>
    let pointer :=
      if includePointer && s.scene.pointerVisible then s.scene.pointer o else []
    let transition := out.screenTransition.toList.map (·.render s.now target)
    let lockSurface := out.lockSurface.toList.flatMap fun surface =>
      s.scene.lockSurface surface.surface
    let rest :=
      if s.isLocked then lockSurface ++ [.lockColor] else s.scene.session o target
    let elements := pointer ++ transition ++ s.scene.exitConfirmDialog o ++
      (s.scene.configErrorNotification o).toList ++ rest
    if s.scene.debugDrawOpaqueRegions then
      elements.flatMap fun elem => [.opaqueRegions elem, elem]
    else elements

/-- Freeze what every output shows for a while. An output whose picture cannot be taken, because
rendering to a texture failed, is passed over. -/
def doScreenTransition (delayMs : Option ℕ) (failed : List OutputId) : Compositor C :=
  { s with outputs := s.outputs.mapVals fun o out =>
      if failed.contains o then out
      else { out with
        screenTransition := some
          { fromTexture := fun target => s.renderInner o target false
            startAt := s.now + delayMs.getD ScreenTransition.defaultDelay } } }

def advanceAnimations : Compositor C :=
  { s with outputs := s.outputs.mapVals fun _ out =>
      { out with screenTransition := out.screenTransition.filter fun t => !t.isDone s.now } }

end Compositor

end Swayward.Session
