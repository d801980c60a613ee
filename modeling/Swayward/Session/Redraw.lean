/-
  File:      Swayward/Session/Redraw.lean
  Subject:   REDRAWING an output on the TTY backend (swayward/render.rs, backend/tty.rs).

  A redraw ends in one of the backend's five ways; a frame that was not queued is made up for by a
  timer at the time the vblank would have come. The vblank, the timer and the next redraw arrive in
  any order.
-/
import Swayward.Session.Lock

namespace Swayward.Session

/-- How a call of the TTY backend's `render` goes. -/
inductive Backend
  /-- The device or surface is missing or inactive, or there is no renderer. -/
  | notReady
  | renderError
  | queueError
  | noDamage
  | frameQueued
  deriving DecidableEq, Repr

inductive RenderResult
  | submitted
  | noDamage
  | skipped
  deriving DecidableEq, Repr

namespace Compositor

variable {C : Type} (s : Compositor C)

/-- Arm a timer at the predicted vblank, unless one is pending. -/
def queueEstimatedVblankTimer (o : OutputId) : Except Panic (Compositor C) :=
  match s.outputs.lookup o with
  | none => .error .missingOutput
  | some out =>
    match out.redrawState with
    | .idle | .waitingForVBlank _ => .error .estimatedTimerQueuedInWrongState
    | .waitingForEstimatedVBlank token | .waitingForEstimatedVBlankAndQueued token =>
      .ok (s.setRedrawState o (.waitingForEstimatedVBlank token))
    | .queued =>
      let s := { s with
        sources := s.sources.insert s.nextToken (.estimatedVBlank o)
        nextToken := s.nextToken + 1 }
      .ok (s.setRedrawState o (.waitingForEstimatedVBlank (s.nextToken - 1)))

/-- A frame was handed to the DRM, which will answer with a vblank. -/
def frameQueued (o : OutputId) : Except Panic (Compositor C) :=
  match s.outputs.lookup o with
  | none => .error .missingOutput
  | some out =>
    match out.redrawState with
    | .idle | .waitingForVBlank _ | .waitingForEstimatedVBlank _ =>
      .error .frameQueuedInWrongState
    | .queued => .ok (s.setRedrawState o (.waitingForVBlank false))
    | .waitingForEstimatedVBlankAndQueued token =>
      .ok ((s.setRedrawState o (.waitingForVBlank false)).removeSource token)

/-- The TTY backend's `render`. -/
def render (o : OutputId) : Backend → Except Panic (Compositor C × RenderResult)
  | .notReady => .ok (s, .skipped)
  | .frameQueued => (s.frameQueued o).map (·, .submitted)
  | .noDamage => (s.queueEstimatedVblankTimer o).map (·, .noDamage)
  | .renderError | .queueError => (s.queueEstimatedVblankTimer o).map (·, .skipped)

/-- What a redraw leaves in the output's own state, and what it tells the outside. -/
def afterRender (o : OutputId) (active : Bool) (res : RenderResult) : Compositor C :=
  let s := if res = .skipped then
      s.modifyOutput o fun out => { out with redrawState := out.redrawState.skipped }
    else s
  -- an inactive output has no framebuffer attached, so nothing of the last frame is visible
  if res ≠ .skipped ∨ !active then
    let s := s.tell (if active then .frame o s.isLocked else .inactive o s.isLocked)
    s.modifyOutput o fun out =>
      { out with lockRenderState := if s.isLocked then .locked else .unlocked }
  else s

/-- If this output is still unlocked the lock keeps waiting, without a look at the others. -/
def checkLocking (o : OutputId) : Compositor C :=
  match s.outputs.lookup o with
  | some out => if out.lockRenderState = .unlocked then s else s.finishLocking
  | none => s

/-- Freeze the clock at the time the next frame is predicted for. -/
def atTime (target : ℕ) : Compositor C := { s with now := target }

/-- Remember whether another frame will be needed after this one. -/
def noteAnimations (o : OutputId) (animating : Bool) : Compositor C :=
  s.modifyOutput o fun out =>
    { out with unfinishedAnimationsRemain := animating || out.screenTransition.isSome }

/-- Redraw an output at `target`. `animating` says whether some animation is going on, a screen
transition aside. An inactive output is not rendered. -/
def redraw (o : OutputId) (target : ℕ) (animating : Bool) (backend : Backend) :
    Except Panic (Compositor C) :=
  let active := s.monitorsActive && s.powered o
  match s.outputs.lookup o with
  | none => .error .missingOutput
  | some out =>
    if out.redrawState.isQueued then do
      let r ← if active then ((s.atTime target).noteAnimations o animating).render o backend
        else .ok (s.atTime target, .skipped)
      pure ((r.1.afterRender o active r.2).checkLocking o)
    else .error .redrawNotQueued

/-- A vblank of the output, expected or not. A throttled one is put off, to arrive again. -/
def onVblank (o : OutputId) (throttled : Bool) : Compositor C :=
  match s.outputs.lookup o with
  | none => s
  | some out =>
    if !s.powered o then s.setRedrawState o .idle
    else if throttled then s
    else
      let redrawNeeded := match out.redrawState with
        | .waitingForVBlank redrawNeeded => redrawNeeded
        | _ => true
      let s := s.setRedrawState o .idle
      if redrawNeeded || out.unfinishedAnimationsRemain then s.queueRedraw o else s

def onEstimatedVblankTimer (o : OutputId) : Except Panic (Compositor C) :=
  match s.outputs.lookup o with
  | none => .ok s
  | some out =>
    match out.redrawState with
    | .idle | .queued | .waitingForVBlank _ => .error .estimatedTimerFiredInWrongState
    | .waitingForEstimatedVBlankAndQueued _ => .ok (s.setRedrawState o .queued)
    | .waitingForEstimatedVBlank _ =>
      let s := s.setRedrawState o .idle
      .ok (if out.unfinishedAnimationsRemain then s.queueRedraw o else s)

/-- A pending timer fires. -/
def onTimer (token : Token) : Except Panic (Compositor C) :=
  match s.sources.lookup token with
  | none => .ok s
  | some (.estimatedVBlank o) => (s.removeSource token).onEstimatedVblankTimer o
  | some .lockDeadline => .ok (s.removeSource token).continueToLocking
  | some (.lockRedraw o) => .ok (s.onLockRedrawTimer token o)

/-- The power of an output is switched. Only a switch to on asks for a redraw. -/
def setOutputPower (o : OutputId) (powered : Bool) : Compositor C :=
  if powered then
    { s with poweredOff := s.poweredOff.filter (· != o) }.queueRedraw o
  else { s with poweredOff := o :: s.poweredOff }

/-! ## The machine -/

end Compositor

/-- What can happen to the outputs of a session. Additions, removals and redraws name outputs of
the backend, which knows which ones there are. -/
inductive Event (C : Type)
  | addOutput (output : OutputId) (moved : List OutputId)
  | removeOutput (output : OutputId) (moved : List OutputId) (closedScreenshotUi : Bool)
  | queueRedraw (output : OutputId)
  | queueRedrawAll
  | redraw (output : OutputId) (target : ℕ) (animating : Bool) (backend : Backend)
  | vblank (output : OutputId) (throttled : Bool)
  | timer (token : Token)
  | setMonitorsActive (active : Bool)
  | setOutputPower (output : OutputId) (powered : Bool)
  | lock (client : ℕ)
  | unlock
  | lockDied (lock : ℕ)
  | newLockSurface (surface : LockSurface) (output : OutputId)
  | commit (surface : SurfaceId) (isMapped : Bool)
  | doScreenTransition (delayMs : Option ℕ) (failed : List OutputId)
  | advanceAnimations
  | tick (now : ℕ)
  | draw (scene : Scene C)

namespace Compositor

variable {C : Type}

/-- One event. `redraw_queued_outputs` calls `redraw` for outputs it found queued. -/
def step (s : Compositor C) : Event C → Except Panic (Compositor C)
  | .addOutput o moved => if o ∈ s.outputs then .ok s else s.addOutput o moved
  | .removeOutput o moved closed => if o ∈ s.outputs then s.removeOutput o moved closed else .ok s
  | .queueRedraw o => .ok (s.queueRedraw o)
  | .queueRedrawAll => .ok s.queueRedrawAll
  | .redraw o target animating backend =>
    if (s.outputs.lookup o).any (·.redrawState.isQueued) then s.redraw o target animating backend
    else .ok s
  | .vblank o throttled => .ok (s.onVblank o throttled)
  | .timer token => s.onTimer token
  | .setMonitorsActive true => .ok s.activateMonitors
  | .setMonitorsActive false => .ok { s with monitorsActive := false }
  | .setOutputPower o powered => .ok (s.setOutputPower o powered)
  | .lock client => .ok (s.lock client)
  | .unlock => .ok s.unlock
  | .lockDied lock => .ok { s with deadLocks := lock :: s.deadLocks }
  | .newLockSurface surface o => .ok (s.newLockSurface surface o)
  | .commit surface isMapped => .ok (s.commit surface isMapped)
  | .doScreenTransition delayMs failed => .ok (s.doScreenTransition delayMs failed)
  | .advanceAnimations => .ok s.advanceAnimations
  | .tick now => .ok { s with now := now }
  | .draw scene => .ok { s with scene := scene }

/-- A run of events from a session without outputs. -/
def run (s : Compositor C) (events : List (Event C)) : Except Panic (Compositor C) :=
  Runs.run step s events

end Compositor

end Swayward.Session
