/-
  File:      Swayward/Ipc/Node.lean
  Subject:   THE NODES CLIENTS SEE: the tree of a GET_TREE reply and of event payloads
             (`swayward-ipc/src/tree.rs`, `ipc/tree/visibility.rs`, `ipc/server/query_state.rs`).

  A node is a record of fields with two lists of children, the tiled and the floating ones. Searches
  go through a node before its children and through the tiled children before the floating ones
  (`preorder`); every search of the source is the first hit of that order.

  Left out: rectangles, borders and percentages, which nothing here reads.
-/
import Mathlib.Data.List.Basic
import Swayward.Layout.Name

namespace Swayward.Ipc

open List

/-! ## 1. Nodes -/

inductive NodeType
  | root | output | workspace | con | floatingCon
  deriving DecidableEq, Repr

inductive NodeLayout
  | splitH | splitV | stacked | tabbed | output | none
  deriving DecidableEq, Repr

inductive Orientation
  | horizontal | vertical | none
  deriving DecidableEq, Repr

/-- The `floating` field of a container. -/
inductive FloatingState
  | autoOff | userOff | userOn
  deriving DecidableEq, Repr

inductive ScratchpadState
  | none | fresh
  deriving DecidableEq, Repr

structure WorkspaceProperties where
  num : ℤ
  output : Name
  representation : Option Text := none
  deriving DecidableEq

structure ViewProperties where
  visible : Bool
  appId : Option Text := none
  foreignToplevelIdentifier : Option ℕ
  deriving DecidableEq

inductive NodeProperties
  | none
  | output
  | workspace (properties : WorkspaceProperties)
  | view (properties : ViewProperties)
  deriving DecidableEq

/-- The fields of a node other than its children. -/
structure NodeInfo where
  id : ℤ
  nodeType : NodeType
  layout : NodeLayout
  orientation : Orientation
  name : Option Name := none
  focus : List ℤ := []
  focused : Bool := false
  fullscreenMode : ℕ := 0
  floating : Option FloatingState := none
  scratchpadState : Option ScratchpadState := none
  sticky : Bool := false
  urgent : Bool := false
  marks : List Text := []
  properties : NodeProperties := .none
  deriving DecidableEq

inductive Node
  | mk (info : NodeInfo) (nodes floatingNodes : List Node)

namespace NodeInfo

/-- Show or hide a view. -/
def setVisible (visible : Bool) (info : NodeInfo) : NodeInfo :=
  match info.properties with
  | .view properties => { info with properties := .view { properties with visible := visible } }
  | _ => info

@[simp] theorem id_setVisible (visible : Bool) (info : NodeInfo) :
    (info.setVisible visible).id = info.id := by
  unfold setVisible
  split <;> rfl

@[simp] theorem focused_setVisible (visible : Bool) (info : NodeInfo) :
    (info.setVisible visible).focused = info.focused := by
  unfold setVisible
  split <;> rfl

@[simp] theorem setVisible_setVisible (a b : Bool) (info : NodeInfo) :
    (info.setVisible a).setVisible b = info.setVisible b := by
  obtain ⟨id, type, layout, orientation, name, focus, focused, mode, floating, pad, sticky, urgent,
    marks, properties⟩ := info
  cases properties <;> rfl

/-- Set the representation of a workspace. -/
def setRepresentation (text : Option Text) (info : NodeInfo) : NodeInfo :=
  match info.properties with
  | .workspace p => { info with properties := .workspace { p with representation := text } }
  | _ => info

end NodeInfo

namespace Node

variable {change : NodeInfo → NodeInfo} (n : Node)

def info : Node → NodeInfo
  | mk info _ _ => info

def nodes : Node → List Node
  | mk _ nodes _ => nodes

def floatingNodes : Node → List Node
  | mk _ _ floatingNodes => floatingNodes

@[simp] theorem info_mk (i : NodeInfo) (ns fs : List Node) : (mk i ns fs).info = i := rfl

@[simp] theorem nodes_mk (i : NodeInfo) (ns fs : List Node) : (mk i ns fs).nodes = ns := rfl

@[simp] theorem floatingNodes_mk (i : NodeInfo) (ns fs : List Node) :
    (mk i ns fs).floatingNodes = fs := rfl

theorem eta : mk n.info n.nodes n.floatingNodes = n := by cases n; rfl

def id : ℤ := n.info.id

def focused : Bool := n.info.focused

/-- Change the fields of one node. -/
def withInfo (change : NodeInfo → NodeInfo) (n : Node) : Node :=
  mk (change n.info) n.nodes n.floatingNodes

@[simp] theorem info_withInfo (change : NodeInfo → NodeInfo) (n : Node) :
    (n.withInfo change).info = change n.info := rfl

/-- A property of a node that holds when it holds of all its children holds of every node. -/
@[elab_as_elim]
theorem induct {motive : Node → Prop}
    (mk : ∀ info nodes floating, (∀ n ∈ nodes, motive n) → (∀ n ∈ floating, motive n) →
      motive (.mk info nodes floating)) (n : Node) : motive n :=
  n.rec (motive_2 := fun l => ∀ n ∈ l, motive n) mk (fun _ h => nomatch h) (fun _ _ h hs n hn => by
      rcases mem_cons.mp hn with rfl | hn
      · exact h
      · exact hs n hn)

/-! ## 2. Searches -/

mutual

/-- The nodes of a tree: a node, its tiled children, its floating children. -/
def preorder : Node → List Node
  | mk info nodes floating =>
    mk info nodes floating :: (preorderAll nodes ++ preorderAll floating)

def preorderAll : List Node → List Node
  | [] => []
  | n :: ns => n.preorder ++ preorderAll ns

end

theorem preorderAll_eq (l : List Node) : preorderAll l = l.flatMap preorder := by
  induction l with
  | nil => rfl
  | cons n ns ih => rw [preorderAll, flatMap_cons, ih]

theorem preorder_eq :
    n.preorder = n :: (n.nodes.flatMap preorder ++ n.floatingNodes.flatMap preorder) := by
  obtain ⟨info, nodes, floating⟩ := n
  rw [preorder, preorderAll_eq, preorderAll_eq]
  rfl

/-- The first node that satisfies `p`. -/
def find? (p : Node → Bool) (n : Node) : Option Node := n.preorder.find? p

/-- The identifiers of a tree. -/
def ids : List ℤ := n.preorder.map (·.id)

/-- The identifiers of the nodes that are marked focused. -/
def focusedIds : List ℤ := (n.preorder.filter (·.focused)).map (·.id)

/-- The identifier of every node, with whether it is marked focused. -/
def flags : List (ℤ × Bool) := n.preorder.map fun m => (m.id, m.focused)

theorem ids_eq_flags : n.ids = n.flags.map (·.1) := by
  unfold ids flags
  rw [map_map]
  rfl

theorem focusedIds_eq_flags : n.focusedIds = (n.flags.filter (·.2)).map (·.1) := by
  unfold focusedIds flags
  rw [filter_map, map_map]
  rfl

section Readings

variable {γ : Type} (f : NodeInfo → γ)

/-- What `f` reads off every node. -/
def readings (n : Node) : List γ := n.preorder.map fun m => f m.info

theorem readings_eq (n : Node) :
    n.readings f =
      f n.info :: (n.nodes.flatMap (readings f) ++ n.floatingNodes.flatMap (readings f)) := by
  unfold readings
  rw [preorder_eq, map_cons, map_append, map_flatMap, map_flatMap]

end Readings

theorem flags_eq :
    n.flags = (n.id, n.focused) :: (n.nodes.flatMap flags ++ n.floatingNodes.flatMap flags) :=
  readings_eq (fun i => (i.id, i.focused)) n

/-- Fields other than the identifier and the focused flag do not show in the flags. -/
theorem flags_withInfo
    (h : ((change n.info).id, (change n.info).focused) = (n.info.id, n.info.focused)) :
    (n.withInfo change).flags = n.flags := by
  rw [flags_eq, flags_eq n]
  exact congrArg (· :: _) h

theorem self_mem_preorder : n ∈ n.preorder := by
  rw [preorder_eq]
  exact mem_cons_self

theorem mem_preorder_of_mem_nodes {n child m : Node} (hc : child ∈ n.nodes)
    (hm : m ∈ child.preorder) : m ∈ n.preorder := by
  rw [preorder_eq]
  exact mem_cons_of_mem _ (mem_append_left _ (mem_flatMap.mpr ⟨child, hc, hm⟩))

/-- `find_node_by_id`. -/
def findNodeById (id : ℤ) : Option Node := n.find? (·.id == id)

/-- `find_workspace_by_tree_id`. -/
def findWorkspaceByTreeId (id : ℤ) : Option Node :=
  n.find? fun m => m.info.nodeType == .workspace && m.id == id

/-- `find_focused_node`. -/
def findFocusedNode : Option Node :=
  n.find? fun m => m.focused && m.info.nodeType != .workspace

/-! ## 3. Changes to every node -/

mutual

def mapInfo (change : NodeInfo → NodeInfo) : Node → Node
  | mk info nodes floating =>
    mk (change info) (mapInfoAll change nodes) (mapInfoAll change floating)

def mapInfoAll (change : NodeInfo → NodeInfo) : List Node → List Node
  | [] => []
  | n :: ns => n.mapInfo change :: mapInfoAll change ns

end

section

variable (change : NodeInfo → NodeInfo)

theorem mapInfoAll_eq (l : List Node) : mapInfoAll change l = l.map (mapInfo change) := by
  induction l with
  | nil => rfl
  | cons n ns ih => rw [mapInfoAll, map_cons, ih]

theorem mapInfo_mk (info : NodeInfo) (nodes floating : List Node) :
    (mk info nodes floating).mapInfo change =
      mk (change info) (nodes.map (mapInfo change)) (floating.map (mapInfo change)) := by
  rw [mapInfo, mapInfoAll_eq, mapInfoAll_eq]

/-- A change of the fields changes the nodes that are met, and nothing else. -/
theorem preorder_mapInfo : (n.mapInfo change).preorder = n.preorder.map (mapInfo change) := by
  induction n using induct with
  | mk info nodes floating hnodes hfloating =>
    have hall : ∀ l : List Node,
        (∀ n ∈ l, (n.mapInfo change).preorder = n.preorder.map (mapInfo change)) →
        (l.map (mapInfo change)).flatMap preorder = (l.flatMap preorder).map (mapInfo change) := by
      intro l hl
      rw [map_flatMap, flatMap_map]
      exact flatMap_congr hl
    rw [preorder_eq, preorder_eq (mk info nodes floating), map_cons, map_append,
      mapInfo_mk, nodes_mk, floatingNodes_mk, nodes_mk, floatingNodes_mk, hall nodes hnodes,
      hall floating hfloating]

@[simp] theorem info_mapInfo : (n.mapInfo change).info = change n.info := by
  cases n
  rw [mapInfo_mk, info_mk, info_mk]

end

theorem readings_mapInfo {γ : Type} {f : NodeInfo → γ} {g : γ → γ}
    (h : ∀ i, f (change i) = g (f i)) (n : Node) :
    (n.mapInfo change).readings f = (n.readings f).map g := by
  unfold readings
  rw [preorder_mapInfo, map_map, map_map]
  refine map_congr_left fun m _ => ?_
  simp only [Function.comp_apply, info_mapInfo, h]

/-- `clear_focused`. -/
def clearFocused : Node → Node := mapInfo fun info => { info with focused := false }

/-- **A cleared tree has no focused node.** -/
theorem flags_clearFocused : n.clearFocused.flags = n.flags.map fun e => (e.1, false) :=
  readings_mapInfo (f := fun i => (i.id, i.focused)) (fun _ => rfl) n

/-- `clear_workspace_focus`: with `hide`, the views that are not sticky are hidden. -/
def clearWorkspaceFocus (hide : Bool) : Node → Node :=
  mapInfo fun info =>
    let info := { info with focused := false }
    if hide && !info.sticky then info.setVisible false else info

/-! ## 4. Visibility -/

mutual

/-- `contains_fullscreen`: the floating children are not looked at. -/
def containsFullscreen : Node → Bool
  | mk info nodes _ => info.fullscreenMode != 0 || anyFullscreen nodes

def anyFullscreen : List Node → Bool
  | [] => false
  | n :: ns => n.containsFullscreen || anyFullscreen ns

end

theorem anyFullscreen_eq (l : List Node) : anyFullscreen l = l.any containsFullscreen := by
  induction l with
  | nil => rfl
  | cons n ns ih => rw [anyFullscreen, any_cons, ih]

theorem containsFullscreen_eq :
    n.containsFullscreen = (n.info.fullscreenMode != 0 || n.nodes.any containsFullscreen) := by
  obtain ⟨info, nodes, floating⟩ := n
  rw [containsFullscreen, anyFullscreen_eq]
  rfl

theorem containsFullscreen_withInfo (h : (change n.info).fullscreenMode = n.info.fullscreenMode) :
    (n.withInfo change).containsFullscreen = n.containsFullscreen := by
  rw [containsFullscreen_eq, containsFullscreen_eq n, info_withInfo, h]
  rfl

@[simp] theorem nodes_clearFocused : n.clearFocused.nodes = n.nodes.map clearFocused := by
  cases n
  exact congrArg nodes (mapInfo_mk _ _ _ _)

@[simp] theorem floatingNodes_clearFocused :
    n.clearFocused.floatingNodes = n.floatingNodes.map clearFocused := by
  cases n
  exact congrArg floatingNodes (mapInfo_mk _ _ _ _)

theorem containsFullscreen_clearFocused :
    n.clearFocused.containsFullscreen = n.containsFullscreen := by
  induction n using induct with
  | mk info nodes floating hnodes _ =>
    rw [containsFullscreen_eq, containsFullscreen_eq (mk info nodes floating),
      nodes_clearFocused, any_map, clearFocused, info_mapInfo]
    refine congrArg _ (Bool.eq_iff_iff.mpr ?_)
    simp only [any_eq_true, nodes_mk, Function.comp_apply]
    exact ⟨fun ⟨n, hn, h⟩ => ⟨n, hn, hnodes n hn ▸ h⟩,
      fun ⟨n, hn, h⟩ => ⟨n, hn, (hnodes n hn).symm ▸ h⟩⟩

/-- The child a tabbed or stacked container shows. -/
def activeTab (layout : NodeLayout) (focus : List ℤ) (children : List Node) : Option ℤ :=
  if layout = .tabbed ∨ layout = .stacked then
    (focus.find? fun id => children.any (·.id == id)).or (children.head?.map (·.id))
  else
    none

mutual

/-- `set_windows_visible`. -/
def setWindowsVisible (visible : Bool) : Node → Node
  | mk info nodes floating =>
    mk (info.setVisible visible)
      (showChildren (activeTab info.layout info.focus nodes) visible nodes)
      (showAll visible floating)

/-- The children of a container: of tabs, the active one is shown. -/
def showChildren (active : Option ℤ) (visible : Bool) : List Node → List Node
  | [] => []
  | n :: ns =>
    n.setWindowsVisible (visible && active.all (· == n.id)) :: showChildren active visible ns

def showAll (visible : Bool) : List Node → List Node
  | [] => []
  | n :: ns => n.setWindowsVisible visible :: showAll visible ns

end

/-- `set_child_windows_visible`. -/
def setChildWindowsVisible (layout : NodeLayout) (focus : List ℤ) (children : List Node)
    (visible : Bool) : List Node :=
  showChildren (activeTab layout focus children) visible children

mutual

/-- The node that holds the fullscreen one: only that one is shown in it. -/
def showFullscreen (visible : Bool) : Node → Node
  | mk info nodes floating =>
    if info.fullscreenMode = 0 then
      mk info (if anyFullscreen nodes then onlyFullscreen visible nodes else nodes) floating
    else
      setWindowsVisible visible (mk info nodes floating)

/-- Of several nodes, the first that holds a fullscreen one; the others are hidden. -/
def onlyFullscreen (visible : Bool) : List Node → List Node
  | [] => []
  | n :: ns =>
    if n.containsFullscreen then
      n.showFullscreen visible :: showAll false ns
    else
      n.setWindowsVisible false :: onlyFullscreen visible ns

end

/-- `apply_fullscreen_state`, with whether there was a fullscreen node. -/
def applyFullscreenState (nodes : List Node) (visible : Bool) : List Node × Bool :=
  if anyFullscreen nodes then (onlyFullscreen visible nodes, true) else (nodes, false)

/-- A node with every view hidden: what the visibility rules leave alone. -/
def hidden : Node → Node := mapInfo (·.setVisible false)

theorem hidden_mk (info : NodeInfo) (nodes floating : List Node) :
    (mk info nodes floating).hidden =
      mk (info.setVisible false) (nodes.map hidden) (floating.map hidden) :=
  mapInfo_mk _ info nodes floating

section Readings

variable {γ : Type} {f : NodeInfo → γ} (hf : ∀ i, f (i.setVisible false) = f i)

include hf

theorem readings_hidden (n : Node) : n.hidden.readings f = n.readings f := by
  have h : n.hidden.readings f = (n.readings f).map fun e => e := readings_mapInfo hf n
  rwa [map_id'] at h

theorem flatMap_readings_of_hidden {l l' : List Node} (h : l.map hidden = l'.map hidden) :
    l.flatMap (readings f) = l'.flatMap (readings f) := by
  have hread : ∀ l : List Node, l.flatMap (readings f) = (l.map hidden).flatMap (readings f) := by
    intro l
    rw [flatMap_map]
    exact flatMap_congr fun n _ => (n.readings_hidden hf).symm
  rw [hread, hread l', h]

end Readings

theorem flags_hidden : n.hidden.flags = n.flags :=
  readings_hidden (f := fun i => (i.id, i.focused))
    (fun i => by rw [i.id_setVisible, i.focused_setVisible]) n

theorem hidden_setWindowsVisible : ∀ visible, (n.setWindowsVisible visible).hidden = n.hidden := by
  induction n using induct with
  | mk info nodes floating hnodes hfloating =>
    have hshow : ∀ (l : List Node) (active : Option ℤ) (visible : Bool),
        (∀ n ∈ l, ∀ visible, (n.setWindowsVisible visible).hidden = n.hidden) →
        (showChildren active visible l).map hidden = l.map hidden := by
      intro l active visible hl
      induction l with
      | nil => rfl
      | cons n ns ih =>
        rw [showChildren, map_cons, map_cons, hl n mem_cons_self,
          ih fun m hm => hl m (mem_cons_of_mem _ hm)]
    have hall : ∀ (l : List Node) (visible : Bool),
        (∀ n ∈ l, ∀ visible, (n.setWindowsVisible visible).hidden = n.hidden) →
        (showAll visible l).map hidden = l.map hidden := by
      intro l visible hl
      induction l with
      | nil => rfl
      | cons n ns ih =>
        rw [showAll, map_cons, map_cons, hl n mem_cons_self,
          ih fun m hm => hl m (mem_cons_of_mem _ hm)]
    intro visible
    rw [setWindowsVisible, hidden_mk, hidden_mk, hshow nodes _ _ hnodes,
      hall floating _ hfloating, NodeInfo.setVisible_setVisible]

theorem flags_setWindowsVisible (visible : Bool) (n : Node) :
    (n.setWindowsVisible visible).flags = n.flags := by
  rw [← flags_hidden, n.hidden_setWindowsVisible, flags_hidden]

theorem map_hidden_showAll (visible : Bool) (l : List Node) :
    (showAll visible l).map hidden = l.map hidden := by
  induction l with
  | nil => rfl
  | cons n ns ih => rw [showAll, map_cons, map_cons, n.hidden_setWindowsVisible, ih]

theorem map_hidden_showChildren (active : Option ℤ) (visible : Bool) (l : List Node) :
    (showChildren active visible l).map hidden = l.map hidden := by
  induction l with
  | nil => rfl
  | cons n ns ih => rw [showChildren, map_cons, map_cons, n.hidden_setWindowsVisible, ih]

theorem hidden_showFullscreen (visible : Bool) (n : Node) :
    (n.showFullscreen visible).hidden = n.hidden := by
  induction n using induct with
  | mk info nodes floating hnodes _ =>
    have hall : ∀ l : List Node, (∀ n ∈ l, (n.showFullscreen visible).hidden = n.hidden) →
        (onlyFullscreen visible l).map hidden = l.map hidden := by
      intro l hl
      induction l with
      | nil => rfl
      | cons n ns ih =>
        rw [onlyFullscreen]
        split
        · rw [map_cons, map_cons, hl n mem_cons_self, map_hidden_showAll]
        · rw [map_cons, map_cons, n.hidden_setWindowsVisible,
            ih fun m hm => hl m (mem_cons_of_mem _ hm)]
    rw [showFullscreen]
    split
    · rw [hidden_mk, hidden_mk]
      split
      · rw [hall nodes hnodes]
      · rfl
    · exact hidden_setWindowsVisible _ _

theorem map_hidden_onlyFullscreen (visible : Bool) (l : List Node) :
    (onlyFullscreen visible l).map hidden = l.map hidden := by
  induction l with
  | nil => rfl
  | cons n ns ih =>
    rw [onlyFullscreen]
    split
    · rw [map_cons, map_cons, n.hidden_showFullscreen, map_hidden_showAll]
    · rw [map_cons, map_cons, n.hidden_setWindowsVisible, ih]

theorem map_hidden_applyFullscreenState (nodes : List Node) (visible : Bool) :
    (applyFullscreenState nodes visible).1.map hidden = nodes.map hidden := by
  unfold applyFullscreenState
  split
  · exact map_hidden_onlyFullscreen visible nodes
  · rfl

end Node

end Swayward.Ipc
