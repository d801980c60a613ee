/-
  File:      Swayward/Session/Lock.lean
  Subject:   LOCKING the session (swayward/lock.rs, and the parts of outputs.rs and compositor.rs
             that a lock in progress reacts to).

  A lock request waits for the lock surfaces (or for a deadline), then for every output to show a
  locked frame, and only then is answered. The answer, `confirm`, is given in five places: with no
  output connected (`lock`, `continueToLocking`), when a dead lock is replaced (`lock`), after the
  last redraw (`finishLocking` in `redraw`) and when an output goes away (`removeOutput`).

  The places where a locked screen closes the screenshot interface, resets the cursor image and
  cancels the recent-windows interface are left out: an unlocked session alone draws them.
-/
import Swayward.Session.State

namespace Swayward.Session.Compositor

variable {C : Type} (s : Compositor C)

/-- `confirmation.lock()`: the client is told, and the session is locked for it. -/
def confirm (confirmation : SessionLock) : Compositor C :=
  { s.tell (.locked confirmation.id) with lockState := .locked confirmation }

/-- Ask for a redraw every 100 ms until the output is locked (`ensure_lock_redraw`). -/
def ensureLockRedraw (o : OutputId) : Compositor C :=
  { s with
    sources := s.sources.insert s.nextToken (.lockRedraw o)
    nextToken := s.nextToken + 1 }

def continueToLocking : Compositor C :=
  match s.lockState with
  | .waitingForSurfaces confirmation deadlineToken =>
    let s := s.removeSource deadlineToken
    if s.outputs.keys.isEmpty then s.confirm confirmation
    else
      let s := { s with lockState := .locking confirmation }
      s.outputs.keys.foldl ensureLockRedraw s.queueRedrawAll
  | _ => s

/-- Every output has a lock surface that was committed to. -/
def surfacesReady : Bool :=
  s.outputs.all fun out => out.lockSurface.any fun surface => s.mapped.contains surface.surface

def maybeContinueToLocking : Compositor C :=
  match s.lockState with
  | .waitingForSurfaces _ _ => if s.surfacesReady then s.continueToLocking else s
  | _ => s

def isAlive (lock : SessionLock) : Bool := !s.deadLocks.contains lock.id

/-- A lock request by a client. A refused request is dropped without an answer. -/
def lock (client : ℕ) : Compositor C :=
  let confirmation : SessionLock := { id := s.nextLock, client := client }
  let s := { s with nextLock := s.nextLock + 1 }
  match s.lockState with
  | .waitingForSurfaces _ _ | .locking _ => s
  | .locked held => if s.isAlive held then s else s.confirm confirmation
  | .unlocked =>
    if s.outputs.keys.isEmpty then s.confirm confirmation
    else
      { s with
        lockState := .waitingForSurfaces confirmation s.nextToken
        sources := s.sources.insert s.nextToken .lockDeadline
        nextToken := s.nextToken + 1 }

/-- The deadline of a request that is given up goes with it. -/
def dropDeadline : Compositor C :=
  match s.lockState with
  | .waitingForSurfaces _ deadlineToken => s.removeSource deadlineToken
  | _ => s

def activateMonitors : Compositor C :=
  if s.monitorsActive then s else { s with monitorsActive := true }.queueRedrawAll

def unlock : Compositor C :=
  let s := { s.dropDeadline with lockState := .unlocked }
  let s := { s with outputs := s.outputs.mapVals fun _ out => { out with lockSurface := none } }
  s.queueRedrawAll.activateMonitors

def newLockSurface (surface : LockSurface) (o : OutputId) : Compositor C :=
  let add (lock : SessionLock) :=
    if lock.client != surface.client then s
    else if lock != surface.lock then s
    else s.modifyOutput o fun out => { out with lockSurface := some surface }
  match s.lockState with
  | .unlocked => s
  | .waitingForSurfaces confirmation _ => add confirmation
  | .locking confirmation => add confirmation
  | .locked lock => add lock

/-- The surface belongs to the lock in force. -/
def accepts (surface : LockSurface) : LockState → Bool
  | .unlocked => false
  | .waitingForSurfaces lock _ | .locking lock | .locked lock =>
    !(lock.client != surface.client) && !(lock != surface.lock)

theorem newLockSurface_eq (surface : LockSurface) (o : OutputId) :
    s.newLockSurface surface o = if accepts surface s.lockState = true then
      s.modifyOutput o fun out => { out with lockSurface := some surface } else s := by
  unfold newLockSurface
  cases s.lockState with
  | unlocked => rfl
  | waitingForSurfaces lock _ | locking lock | locked lock =>
    by_cases hc : lock.client = surface.client <;> by_cases hl : lock = surface.lock <;>
      simp [accepts, hc, hl]

def setMapped (surface : SurfaceId) (isMapped : Bool) : Compositor C :=
  { s with
    mapped := if isMapped then surface :: s.mapped else s.mapped.filter (· != surface) }

/-- The output a lock surface belongs to. -/
def lockSurfaceOutput (surface : SurfaceId) : Option OutputId :=
  (s.outputs.entries.find? fun e => e.2.lockSurface.any (·.surface == surface)).map (·.1)

/-- A commit to a surface, after which it is mapped or not. -/
def commit (surface : SurfaceId) (isMapped : Bool) : Compositor C :=
  let s := s.setMapped surface isMapped
  match s.lockSurfaceOutput surface with
  | none => s
  | some o =>
    match s.lockState with
    | .waitingForSurfaces _ _ => s.maybeContinueToLocking
    | _ => s.queueRedraw o

/-- Answer a lock in progress once every output is locked. -/
def finishLocking : Compositor C :=
  match s.lockState with
  | .locking confirmation => if s.allLocked then s.confirm confirmation else s
  | _ => s

/-- Redraw the outputs whose position changed (`reposition_outputs`). -/
def repositionOutputs (moved : List OutputId) : Compositor C :=
  moved.foldl queueRedraw s

def addOutput (o : OutputId) (moved : List OutputId) : Except Panic (Compositor C) :=
  let out : OutputState C :=
    { redrawState := .idle
      unfinishedAnimationsRemain := false
      -- nothing was rendered yet, so it is as good as locked
      lockRenderState := if s.isLocked then .locked else .unlocked
      lockSurface := none
      screenTransition := none }
  if o ∈ s.outputs then .error .outputAlreadyTracked
  else
    let s := { s with outputs := s.outputs.insert o out }
    .ok ((s.tell (.outputAdded o s.isLocked)).repositionOutputs (o :: moved))

/-- Forget an output, and its timer with it. -/
def dropOutput (o : OutputId) (out : OutputState C) : Compositor C :=
  let s := { s with outputs := s.outputs.erase o }
  match out.redrawState.token with
  | some token => s.removeSource token
  | none => s

/-- With an output gone, a lock in progress may have nothing left to wait for. -/
def recheckLocking : Compositor C :=
  match s.lockState with
  | .locking _ => s.finishLocking
  | _ => s.maybeContinueToLocking

def removeOutput (o : OutputId) (moved : List OutputId)
    (closedScreenshotUi : Bool) : Except Panic (Compositor C) :=
  let s := s.repositionOutputs moved
  match s.outputs.lookup o with
  | none => .error .missingOutput
  | some out =>
    let s := (s.dropOutput o out).recheckLocking
    .ok (if closedScreenshotUi then s.queueRedrawAll else s)

/-- The 100 ms timer of `ensure_lock_redraw`, which stays armed until the output is locked. -/
def onLockRedrawTimer (token : Token) (o : OutputId) : Compositor C :=
  match s.lockState, s.outputs.lookup o with
  | .locking _, some out =>
    if out.lockRenderState = .locked then s.removeSource token else s.queueRedraw o
  | _, _ => s.removeSource token

end Swayward.Session.Compositor
