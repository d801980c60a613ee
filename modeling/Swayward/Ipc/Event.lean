/-
  File:      Swayward/Ipc/Event.lean
  Subject:   THE EVENTS of the compositor (`swayward-ipc/src/legacy.rs`) and what of them a sway
             client is sent (`ipc/server/transport/events.rs`).

  Some events only keep the compositor's own mirror of the layout up to date; the others have a sway
  event type and are queued to the clients that subscribed to its family. A payload that is JSON in
  the source is a node here, or the text of what no rule reads.
-/
import Swayward.Ipc.Node

namespace Swayward.Ipc

/-- A workspace as the mirror of the layout records it. -/
structure Workspace where
  id : ℕ
  idx : ℕ
  name : Option Name
  output : Option Name
  isUrgent : Bool
  isActive : Bool
  isFocused : Bool
  activeWindowId : Option ℕ
  deriving DecidableEq

/-- A window as the mirror of the layout records it. -/
structure Window where
  id : ℕ
  title : Option Text
  appId : Option Text
  pid : Option ℤ
  workspaceId : Option ℕ
  isFocused : Bool
  isFloating : Bool
  isUrgent : Bool
  focusTimestamp : Option ℕ
  deriving DecidableEq

/-- The `change` of a sway window event. -/
inductive WindowChange
  | new | close | focus | title | fullscreenMode | move | floating | urgent | mark
  deriving DecidableEq, Repr

inductive Event
  | workspacesChanged (workspaces : List Workspace)
  | workspaceEmptied (current : Node)
  | workspaceInitialized (current : Node)
  | workspaceRenamed (current : Node)
  | workspaceMoved (current : Node)
  | workspaceReloaded
  | workspaceUrgencyChanged (id : ℕ) (current : Node)
  | workspaceFocusChanged (old : Option Node) (current : Node)
  | workspaceActivated (id : ℕ) (focused : Bool)
  | workspaceActiveWindowChanged (workspaceId : ℕ) (activeWindowId : Option ℕ)
  | windowsChanged (windows : List Window)
  | windowOpenedOrChanged (window : Window)
  | windowClosed (id : ℕ)
  | windowFocusChanged (id : Option ℕ)
  | windowFocusTimestampChanged (id : ℕ) (focusTimestamp : Option ℕ)
  | windowUrgencyChanged (id : ℕ) (urgent : Bool)
  | windowLayoutsChanged (ids : List ℕ)
  | windowMoved (id : ℤ)
  | swayWindowChanged (change : WindowChange) (container : Node)
  | swayInputChanged (change input : Text)
  | swayBinding (command : Text)
  | bindingModeChanged (mode : Text) (pangoMarkup : Bool)
  | outputChanged
  | shutdown (reason : Text)
  | tick (payload : List UInt8) (first : Bool)
  | keyboardLayoutsChanged (names : List Text)
  | keyboardLayoutSwitched (idx : ℕ)

/-- `SwayEventType`. -/
inductive SwayEventType
  | workspace | output | mode | window | binding | shutdown | tick | input
  deriving DecidableEq, Repr

/-- The number of an event type on the wire; its high bit is set. -/
def SwayEventType.code : SwayEventType → ℕ
  | .workspace => 0x80000000
  | .output => 0x80000001
  | .mode => 0x80000002
  | .window => 0x80000003
  | .binding => 0x80000005
  | .shutdown => 0x80000006
  | .tick => 0x80000007
  | .input => 0x80000015

namespace Event

/-- `reaches_sway_clients`: the rest is bookkeeping of the mirror. -/
def reachesSwayClients : Event → Bool
  | workspaceActiveWindowChanged _ _ | workspacesChanged _ | workspaceActivated _ _
  | windowsChanged _ | windowOpenedOrChanged _ | windowClosed _ | windowFocusTimestampChanged _ _
  | windowUrgencyChanged _ _ | windowLayoutsChanged _ | windowFocusChanged _
  | keyboardLayoutsChanged _ | keyboardLayoutSwitched _ => false
  | _ => true

/-- The type `sway_event` gives an event. -/
def swayEventType : Event → Option SwayEventType
  | outputChanged => some .output
  | swayInputChanged _ _ => some .input
  | workspaceEmptied _ | workspaceReloaded | workspaceInitialized _ | workspaceRenamed _
  | workspaceMoved _ | workspaceUrgencyChanged _ _ | workspaceFocusChanged _ _ => some .workspace
  | shutdown _ => some .shutdown
  | tick _ _ => some .tick
  | bindingModeChanged _ _ => some .mode
  | swayBinding _ => some .binding
  | swayWindowChanged _ _ | windowMoved _ => some .window
  | _ => none

/-- The JSON of an event, by its type. -/
inductive Payload
  | change (change : Text)
  | input (change input : Text)
  | workspace (change : String) (old current : Option Node)
  | tick (first : Bool) (payload : List UInt8)
  | mode (change : Text) (pangoMarkup : Bool)
  | binding (command : Text)
  | window (change : WindowChange) (container : Option Node)

/-- The payload `sway_event` gives an event; `tree` is the tree of the last refresh, in the state
that the tasks of the clients share with the compositor. -/
def payload (tree : Option Node) : Event → Option Payload
  | outputChanged => some (.change "unspecified".toList)
  | swayInputChanged change input => some (.input change input)
  | workspaceEmptied current => some (.workspace "empty" none current)
  | workspaceReloaded => some (.workspace "reload" none none)
  | workspaceInitialized current => some (.workspace "init" none current)
  | workspaceRenamed current => some (.workspace "rename" none current)
  | workspaceMoved current => some (.workspace "move" none current)
  | workspaceUrgencyChanged _ current => some (.workspace "urgent" none current)
  | workspaceFocusChanged old current => some (.workspace "focus" old current)
  | shutdown reason => some (.change reason)
  | tick payload first => some (.tick first payload)
  | bindingModeChanged mode pangoMarkup => some (.mode mode pangoMarkup)
  | swayBinding command => some (.binding command)
  | swayWindowChanged change container => some (.window change container)
  | windowMoved id => some (.window .move (tree.bind (·.findNodeById id)))
  | _ => none

theorem payload_congr {tree tree' : Option Node} (e : Event) (h : ∀ id, e = windowMoved id →
    tree.bind (·.findNodeById id) = tree'.bind (·.findNodeById id)) :
    e.payload tree = e.payload tree' := by
  cases e with
  | windowMoved id => rw [payload, payload, h id rfl]
  | _ => rfl

end Event

end Swayward.Ipc
