/-
  File:      Swayward/Layout/Workspace.lean
  Subject:   ONE WORKSPACE: its identity, its tiled windows and its floating layer (`workspace.rs`).

  A workspace is told apart by an identifier that is never handed out again; what clients see is its
  identity. `floatingIsActive` says which of the two layers has the focus. Sizes, gaps and the
  rendering of a workspace are left out.
-/
import Swayward.Layout.Floating
import Swayward.Layout.Name

namespace Swayward

variable {I : Type}

/-! ## 1. Workspaces -/

/-- A connected output: its connector, and make, model and serial as far as they are known. -/
structure Output where
  handle : ℕ
  connector : Name
  description : Option Name := none
  deriving DecidableEq

abbrev WorkspaceId := ℕ

inductive FloatingActive
  | no
  /-- the tiling layer is active, but the floating one is in front of it -/
  | noButRaised
  | yes
  deriving DecidableEq, Repr

structure Workspace (I : Type) where
  id : WorkspaceId
  identity : Identity := {}
  /-- whether the configuration declares it -/
  persistent : Bool := false
  originalOutput : Name
  output : Option Output := none
  tiling : SoundTree I
  floating : FloatingLayout I := {}
  floatingIsActive : FloatingActive := .no

namespace Workspace

variable (ws : Workspace I)

/-! ## 2. Identity -/

def name : Option Name := ws.identity.name

def number : Option ℕ := ws.identity.number

def swayName : Option Name := ws.identity.swayName

/-! ## 3. Windows -/

def tiles : List (Tile I) := ws.tiling.tiles ++ ws.floating.tiles

def windows : List I := ws.tiling.windows ++ ws.floating.windows

def hasWindows : Bool := !ws.windows.isEmpty

/-- Whether the workspace outlives focus leaving it. -/
def mustBeKept : Bool := ws.hasWindows || ws.persistent

section Windows

variable [DecidableEq I] (ws : Workspace I)

def hasWindow (window : I) : Bool := ws.windows.contains window

def activeWindow (ws : Workspace I) : Option I :=
  match ws.floatingIsActive with
  | .yes => ws.floating.activeWindow
  | _ => ws.tiling.tree.activeWindow

end Windows

end Workspace

end Swayward
