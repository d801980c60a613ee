/-
  File:      Swayward/Ipc/Transaction.lean
  Subject:   THE EVENTS OF ONE COMMAND, put into sway's order before they are sent
             (`ipc/server/event_bridge/transaction.rs`).

  While a command runs its events are collected. At the end they go through four rules, in this
  order: a scratchpad command has its floating, move and focus events sorted and repainted
  (`reorderScratchpad`); two adjacent pairs are turned around (`swapPairs`); a command that
  suppresses workspace moves has its first output event put behind the last `empty` event
  (`moveOutput`); moves are dropped or told once, and the payloads of workspace events are brought
  to the state sway would have sent (`rewrite`).

  Events that none of the rules is about are `Event.isPlain`. The results say what becomes of them:

  * `filter_commitEvents`      -- they come out as the output rule alone leaves them;
  * `filter_commitEvents_perm` -- each comes out once.

  The rewriting of a focus event looks for one sticky container in the whole tree, and shows it on
  the workspace that is left:

  * `commitEvents_truthful`    -- **focus events tell of floating containers what is so**, exactly
                                  where that one may be shown there;
  * `sticky_elsewhere`         -- it is on a third workspace.
-/
import Swayward.Ipc.Event
import Swayward.Library.Positions

namespace Swayward.Ipc

open List

variable {p : Event → Bool} {a b l : List Event} {e : Event}

/-! ## 1. The transaction -/

/-- `ScratchpadEventOrder`. -/
inductive ScratchpadEventOrder
  | hide | showing
  deriving DecidableEq, Repr

structure WorkspaceEventTransaction where
  events : List Event := []
  suppressWorkspaceMoves : Bool := false
  scratchpad : Option ScratchpadEventOrder := none

namespace Event

/-- A window event that a scratchpad command reorders. -/
def isScratchpadChange : Event → Bool
  | swayWindowChanged .floating _ | swayWindowChanged .move _ | swayWindowChanged .focus _ => true
  | _ => false

def isOutputChanged : Event → Bool
  | outputChanged => true
  | _ => false

def isWorkspaceEmptied : Event → Bool
  | workspaceEmptied _ => true
  | _ => false

def isWorkspaceMoved : Event → Bool
  | workspaceMoved _ => true
  | _ => false

/-- The events no rule rewrites or suppresses: mode, binding, input, shutdown and output events, and
the window events that are not about place, focus or urgency. -/
def isPlain : Event → Bool
  | bindingModeChanged _ _ | swayBinding _ | swayInputChanged _ _ | shutdown _ => true
  | outputChanged => true
  | swayWindowChanged .title _ | swayWindowChanged .mark _ | swayWindowChanged .fullscreenMode _
  | swayWindowChanged .close _ => true
  | _ => false

/-- The sway container a window event is about. -/
def movedContainer : Event → Option Node
  | swayWindowChanged .move container => some container
  | _ => none

theorem reachesSwayClients_of_isPlain (h : e.isPlain = true) : e.reachesSwayClients = true := by
  cases e <;> first | rfl | cases h

end Event

/-! ## 2. The scratchpad rule -/

section Scratchpad

variable (order : ScratchpadEventOrder) (events : List Event)

/-- The last container with this identifier that was recorded in the given state. -/
def snapshot (state : ScratchpadState) (id : ℤ) : Option Node :=
  events.reverse.findSome? fun e =>
    match e with
    | .swayWindowChanged _ node =>
      if e.isScratchpadChange && node.info.scratchpadState == some state && node.id == id then
        some node
      else
        none
    | _ => none

/-- Hiding shows the container as it was and then as it is. -/
def repaint : Event → Event
  | .swayWindowChanged .floating node =>
    match order with
    | .hide =>
      let node := (snapshot events .none node.id).getD node
      .swayWindowChanged .floating (node.withInfo fun i =>
        { i with scratchpadState := some .none, focused := true }.setVisible true)
    | .showing => .swayWindowChanged .floating node
  | .swayWindowChanged .move node =>
    match order with
    | .hide =>
      let node := (snapshot events .fresh node.id).getD node
      .swayWindowChanged .move (node.withInfo fun i =>
        { i with focused := false }.setVisible false)
    | .showing => .swayWindowChanged .move node
  | e => e

/-- The events that are sent first. -/
def isFirst : Event → Bool
  | .swayWindowChanged .floating _ => order = .hide
  | .swayWindowChanged .focus _ => order = .showing
  | _ => false

/-- The slots of reordered events are filled again, front to back. -/
def fillSlots (change : Event → Event) : List Event → List Event → List Event
  | e :: es, r :: rs =>
    if e.isScratchpadChange then
      change r :: fillSlots change es rs
    else
      e :: fillSlots change es (r :: rs)
  | es, [] => es
  | [], _ => []

/-- The sort is stable, and its keys are two. -/
def reorderScratchpad : List Event :=
  let picked := events.filter (·.isScratchpadChange)
  fillSlots (repaint order events) events
    (picked.filter (isFirst order) ++ picked.filter fun e => !isFirst order e)

end Scratchpad

/-! ## 3. Pairs and output events -/

/-- Two neighbours that sway sends the other way round. -/
def reversed : Event → Event → Bool
  | .workspaceMoved _, .workspaceEmptied _ => true
  | .workspaceUrgencyChanged _ _, .swayWindowChanged .urgent _ => true
  | _, _ => false

/-- The pass over adjacent pairs, at the entry `a`. -/
def swapFrom (a : Event) : List Event → List Event
  | [] => [a]
  | b :: rest => if reversed a b then b :: swapFrom a rest else a :: swapFrom b rest

def swapPairs : List Event → List Event
  | [] => []
  | a :: rest => swapFrom a rest

/-- The index of the last entry that satisfies `p`. -/
def rposition (p : Event → Bool) (events : List Event) : Option ℕ :=
  (events.reverse.findIdx? p).map (events.length - 1 - ·)

/-- Behind the last `empty` event, or at the end. -/
def insertOutput (events : List Event) : List Event :=
  match rposition (·.isWorkspaceEmptied) events with
  | some empty => events.insertIdx (empty + 1) .outputChanged
  | none => events ++ [.outputChanged]

def moveOutput (events : List Event) : List Event :=
  match events.findIdx? (·.isOutputChanged) with
  | some i => insertOutput (events.eraseIdx i)
  | none => events

/-! ## 4. Payloads -/

mutual

/-- The node that has `id` among its children. -/
def parentOf (id : ℤ) : Node → Option Node
  | .mk info nodes floating =>
    (parentAmong id (.mk info nodes floating) nodes).or
      (parentAmong id (.mk info nodes floating) floating)

def parentAmong (id : ℤ) (self : Node) : List Node → Option Node
  | [] => none
  | c :: cs => (if c.id = id then some self else parentOf id c).or (parentAmong id self cs)

end

/-- The sticky container that moved with the workspace: the one a move event is about, its parent if
it is in a group, or else the first sticky floating container there is. -/
def stickyRoot (events : List Event) (tree : Node) : Option Node :=
  let moved := (events.filterMap (·.movedContainer)).find? (·.info.sticky)
  (moved.bind fun container =>
    if container.info.nodeType = .floatingCon then some container
    else parentOf container.id tree).or
  (tree.find? fun n => n.info.nodeType == .floatingCon && n.info.sticky)

/-- A node without its children. -/
def childless (n : Node) : Node := .mk { n.info with focus := [] } [] []

/-- What the rewriting of payloads knows about the whole transaction. -/
structure Rewriting where
  currentTree : Node
  stickyRoot : Option Node
  hasWorkspaceMove : Bool
  suppressWorkspaceMoves : Bool

namespace Rewriting

variable (r : Rewriting)

def initialized (current : Node) : Node :=
  (childless current).withInfo fun i => { i with focused := false }.setRepresentation none

/-- The workspace that lost the focus, as it is now. -/
def left (old : Node) : Node :=
  let old := match r.currentTree.findWorkspaceByTreeId old.id with
    | some settled => settled.withInfo fun i => { i with focused := false }
    | none => old.clearWorkspaceFocus true
  match r.stickyRoot with
  | some root =>
    let old := Node.mk { old.info with focus := [root.id] } old.nodes
      [root.clearWorkspaceFocus false]
    if root.nodes.isEmpty then old
    else old.withInfo (·.setRepresentation (some "H[]".toList))
  | none => old

/-- The workspace that got the focus, as it is now. -/
def entered (current : Node) : Node :=
  let current := match r.currentTree.findWorkspaceByTreeId current.id with
    | some settled => settled.withInfo fun i => { i with focused := true }
    | none => current
  if r.stickyRoot.isSome then .mk { current.info with focus := [] } current.nodes []
  else current

def emptied (current : Node) : Node :=
  (childless current).withInfo fun i =>
    let i := { i with focused := false }
    match r.stickyRoot with
    | none =>
      (if r.hasWorkspaceMove && !r.suppressWorkspaceMoves then
        { i with layout := .splitH, orientation := .horizontal }
      else i).setRepresentation none
    | some root =>
      i.setRepresentation (some (if root.nodes.isEmpty then "V[]" else "H[]").toList)

/-- The events that are sent, `moved` being the workspaces whose move was sent already. -/
def rewrite : List ℤ → List Event → List Event
  | _, [] => []
  | moved, .workspaceMoved current :: es =>
    if r.suppressWorkspaceMoves || moved.contains current.id then
      rewrite moved es
    else
      .workspaceMoved (current.clearWorkspaceFocus false) ::
        ((current.findFocusedNode.map (Event.swayWindowChanged .focus)).toList ++
          rewrite (current.id :: moved) es)
  | moved, .workspaceInitialized current :: es =>
    .workspaceInitialized (initialized current) :: rewrite moved es
  | moved, .workspaceFocusChanged old current :: es =>
    .workspaceFocusChanged (old.map r.left) (r.entered current) :: rewrite moved es
  | moved, .workspaceEmptied current :: es =>
    .workspaceEmptied (r.emptied current) :: rewrite moved es
  | moved, .swayWindowChanged .move container :: es =>
    if r.suppressWorkspaceMoves || container.info.sticky then
      rewrite moved es
    else
      .swayWindowChanged .move container :: rewrite moved es
  | moved, e :: es => e :: rewrite moved es

end Rewriting

/-- The collected events, up to the rewriting of their payloads. -/
def WorkspaceEventTransaction.ordered (t : WorkspaceEventTransaction) : List Event :=
  let events := match t.scratchpad with
    | some order => reorderScratchpad order t.events
    | none => t.events
  swapPairs events

/-- The events `ipc_commit_workspace_transaction` sends. -/
def WorkspaceEventTransaction.commitEvents (t : WorkspaceEventTransaction) (tree : Node) :
    List Event :=
  let events := t.ordered
  Rewriting.rewrite
    { currentTree := tree
      stickyRoot := stickyRoot events tree
      hasWorkspaceMove := events.any (·.isWorkspaceMoved)
      suppressWorkspaceMoves := t.suppressWorkspaceMoves } []
    (if t.suppressWorkspaceMoves then moveOutput events else events)

/-! ## 5. What becomes of plain events -/

/-- A plain event, or one the output rule looks for. -/
def Event.isLandmark (e : Event) : Bool := e.isPlain || e.isWorkspaceEmptied

theorem isScratchpadChange_repaint (order : ScratchpadEventOrder) (events : List Event)
    (h : e.isScratchpadChange = true) : (repaint order events e).isScratchpadChange = true := by
  cases e with
  | swayWindowChanged change node => cases change <;> cases order <;> first | rfl | cases h
  | _ => cases h

theorem isLandmark_of_isScratchpadChange (h : e.isScratchpadChange = true) :
    e.isLandmark = false := by
  cases e with
  | swayWindowChanged change node => cases change <;> first | rfl | cases h
  | _ => cases h

theorem isLandmark_of_reversed {a b : Event} (h : reversed a b = true) : a.isLandmark = false := by
  cases a <;> first | rfl | (cases b <;> cases h)

section Order

variable (hslot : ∀ e, e.isScratchpadChange = true → p e = false)
  (hpair : ∀ a b, reversed a b = true → p a = false)

include hslot in
/-- What is not put into refilled slots stays where it is. -/
theorem filter_fillSlots {change : Event → Event}
    (hchange : ∀ e, e.isScratchpadChange = true → (change e).isScratchpadChange = true) :
    ∀ es rs : List Event, (∀ r ∈ rs, r.isScratchpadChange = true) →
      (fillSlots change es rs).filter p = es.filter p := by
  intro es
  induction es with
  | nil =>
    intro rs _
    cases rs <;> rfl
  | cons e es ih =>
    intro rs hrs
    cases rs with
    | nil => rfl
    | cons r rs =>
      rw [fillSlots]
      split_ifs with he
      · have hr := hchange r (hrs r mem_cons_self)
        rw [filter_cons, filter_cons, hslot _ hr, hslot _ he]
        exact ih rs fun x hx => hrs x (mem_cons_of_mem _ hx)
      · rw [filter_cons, filter_cons, ih (r :: rs) hrs]

include hslot in
theorem filter_reorderScratchpad (order : ScratchpadEventOrder) (events : List Event) :
    (reorderScratchpad order events).filter p = events.filter p := by
  refine filter_fillSlots hslot (fun e h => isScratchpadChange_repaint order events h) _ _ ?_
  intro r hr
  have : r ∈ events.filter (·.isScratchpadChange) := by
    rcases mem_append.mp hr with h | h <;> exact mem_of_mem_filter h
  exact (mem_filter.mp this).2

include hpair in
theorem filter_swapFrom (a : Event) (l : List Event) :
    (swapFrom a l).filter p = (a :: l).filter p := by
  induction l generalizing a with
  | nil => rfl
  | cons b rest ih =>
    rw [swapFrom]
    split_ifs with h
    · rw [filter_cons, ih a, filter_cons, filter_cons, filter_cons, hpair _ _ h]
      simp
    · simp only [filter_cons, ih b]

include hslot hpair in
theorem filter_ordered (t : WorkspaceEventTransaction) :
    t.ordered.filter p = t.events.filter p := by
  have hswap : ∀ l : List Event, (swapPairs l).filter p = l.filter p := by
    intro l
    cases l with
    | nil => rfl
    | cons a rest => exact filter_swapFrom hpair a rest
  unfold WorkspaceEventTransaction.ordered
  rw [hswap]
  split
  · exact filter_reorderScratchpad hslot _ _
  · rfl

end Order

theorem filter_rewrite (r : Rewriting) (moved : List ℤ) (l : List Event) :
    (r.rewrite moved l).filter (·.isPlain) = l.filter (·.isPlain) := by
  fun_induction Rewriting.rewrite r moved l with
  | case1 => rfl
  | case2 moved current es h ih | case7 moved container es h ih => rw [ih]; rfl
  | case3 moved current es h ih =>
    have hfocus : ∀ o : Option Node,
        (o.map (Event.swayWindowChanged .focus)).toList.filter (·.isPlain) = [] := by
      intro o
      cases o <;> rfl
    rw [filter_cons, filter_append, hfocus, ih]
    rfl
  | case4 moved current es ih | case5 moved old current es ih | case6 moved current es ih =>
    rw [filter_cons, ih]; rfl
  | case8 moved container es h ih | case9 moved e es _ _ _ _ _ ih =>
    rw [filter_cons, filter_cons, ih]

/-! ## 6. The output rule -/

theorem forall_of_not_any {α : Type} {p : α → Bool} {l : List α} (h : ¬l.any p = true) :
    ∀ y ∈ l, p y = false := by
  simpa using h

/-- A list around its first entry with `p`. -/
theorem exists_first {α : Type} {p : α → Bool} {l : List α} (h : l.any p = true) :
    ∃ a x b, l = a ++ x :: b ∧ p x = true ∧ ∀ y ∈ a, p y = false := by
  induction l with
  | nil => cases h
  | cons e l ih =>
    cases he : p e with
    | true => exact ⟨[], e, l, rfl, he, fun _ hy => nomatch hy⟩
    | false =>
      rw [any_cons, he, Bool.false_or] at h
      obtain ⟨a, x, b, rfl, hx, ha⟩ := ih h
      refine ⟨e :: a, x, b, rfl, hx, fun y hy => ?_⟩
      rcases mem_cons.mp hy with rfl | hy
      · exact he
      · exact ha y hy

/-- A list around its last entry with `p`. -/
theorem exists_last {α : Type} {p : α → Bool} {l : List α} (h : l.any p = true) :
    ∃ a x b, l = a ++ x :: b ∧ p x = true ∧ ∀ y ∈ b, p y = false := by
  rw [← any_reverse] at h
  obtain ⟨a, x, b, e, hx, ha⟩ := exists_first h
  refine ⟨b.reverse, x, a.reverse, ?_, hx, fun y hy => ha y (mem_reverse.mp hy)⟩
  rw [← reverse_reverse l, e]
  simp

theorem findIdx?_around {x : Event} (hx : p x = true) (ha : ∀ y ∈ a, p y = false) :
    (a ++ x :: b).findIdx? p = some a.length := by
  rw [findIdx?_append, findIdx?_eq_none_iff.mpr ha, findIdx?_cons, hx]
  simp

theorem rposition_around {x : Event} (hx : p x = true) (hb : ∀ y ∈ b, p y = false) :
    rposition p (a ++ x :: b) = some a.length := by
  unfold rposition
  have hrev : (a ++ x :: b).reverse = b.reverse ++ x :: a.reverse := by simp
  rw [hrev, findIdx?_around hx fun y hy => hb y (mem_reverse.mp hy)]
  simp only [Option.map_some, length_append, length_cons, length_reverse]
  congr 1
  omega

theorem rposition_eq_none (h : ∀ y ∈ l, p y = false) : rposition p l = none := by
  unfold rposition
  rw [Option.map_eq_none_iff, findIdx?_eq_none_iff]
  exact fun y hy => h y (mem_reverse.mp hy)

theorem insertOutput_around {x : Event} (hx : x.isWorkspaceEmptied = true)
    (hb : ∀ y ∈ b, y.isWorkspaceEmptied = false) :
    insertOutput (a ++ x :: b) = a ++ x :: .outputChanged :: b := by
  unfold insertOutput
  rw [rposition_around hx hb]
  have hsplit : a ++ x :: b = (a ++ [x]) ++ b := by simp
  have hlen : a.length + 1 = (a ++ [x]).length := by simp
  dsimp only
  rw [hsplit, hlen, Positions.insertIdx_around]
  simp

theorem insertOutput_of_none (h : ∀ y ∈ l, y.isWorkspaceEmptied = false) :
    insertOutput l = l ++ [.outputChanged] := by
  unfold insertOutput
  rw [rposition_eq_none h]

theorem moveOutput_around (ha : ∀ y ∈ a, y.isOutputChanged = false) :
    moveOutput (a ++ .outputChanged :: b) = insertOutput (a ++ b) := by
  unfold moveOutput
  rw [findIdx?_around rfl ha]
  dsimp only
  rw [Positions.eraseIdx_around]

theorem moveOutput_of_none (h : ∀ y ∈ l, y.isOutputChanged = false) : moveOutput l = l := by
  unfold moveOutput
  rw [findIdx?_eq_none_iff.mpr h]

theorem eq_outputChanged (h : e.isOutputChanged = true) : e = .outputChanged := by
  cases e <;> first | rfl | cases h

theorem insertOutput_perm (l : List Event) : (insertOutput l).Perm (.outputChanged :: l) := by
  by_cases h : l.any (·.isWorkspaceEmptied) = true
  · obtain ⟨a, x, b, rfl, hx, hb⟩ := exists_last h
    rw [insertOutput_around hx hb]
    have : a ++ x :: b = (a ++ [x]) ++ b := by simp
    rw [this]
    have : a ++ x :: .outputChanged :: b = (a ++ [x]) ++ .outputChanged :: b := by simp
    rw [this]
    exact perm_middle
  · rw [insertOutput_of_none (forall_of_not_any h)]
    exact perm_append_singleton _ _

/-- **The output rule loses nothing and adds nothing.** -/
theorem moveOutput_perm (l : List Event) : (moveOutput l).Perm l := by
  by_cases h : l.any (·.isOutputChanged) = true
  · obtain ⟨a, x, b, rfl, hx, ha⟩ := exists_first h
    rw [eq_outputChanged hx, moveOutput_around ha]
    exact (insertOutput_perm _).trans perm_middle.symm
  · rw [moveOutput_of_none (forall_of_not_any h)]

/-- The output rule looks at landmarks only. -/
theorem filter_insertOutput (l : List Event) :
    (insertOutput l).filter (·.isLandmark) = insertOutput (l.filter (·.isLandmark)) := by
  by_cases h : l.any (·.isWorkspaceEmptied) = true
  · obtain ⟨a, x, b, rfl, hx, hb⟩ := exists_last h
    have hland : x.isLandmark = true := by simp [Event.isLandmark, hx]
    rw [insertOutput_around hx hb]
    simp only [filter_append, filter_cons, hland, if_true]
    rw [insertOutput_around hx fun y hy => hb y (mem_of_mem_filter hy)]
    rfl
  · have hnone := forall_of_not_any h
    rw [insertOutput_of_none hnone,
      insertOutput_of_none fun y hy => hnone y (mem_of_mem_filter hy), filter_append]
    rfl

theorem filter_moveOutput (l : List Event) :
    (moveOutput l).filter (·.isLandmark) = moveOutput (l.filter (·.isLandmark)) := by
  by_cases h : l.any (·.isOutputChanged) = true
  · obtain ⟨a, x, b, rfl, hx, ha⟩ := exists_first h
    rw [eq_outputChanged hx, moveOutput_around ha, filter_insertOutput, filter_append,
      filter_append, filter_cons]
    exact (moveOutput_around fun y hy => ha y (mem_of_mem_filter hy)).symm
  · have hnone := forall_of_not_any h
    rw [moveOutput_of_none hnone, moveOutput_of_none fun y hy => hnone y (mem_of_mem_filter hy)]

/-- Without its output events a list is left as it is. -/
theorem filter_not_output_moveOutput (l : List Event) :
    (moveOutput l).filter (fun e => !e.isOutputChanged) =
      l.filter (fun e => !e.isOutputChanged) := by
  have hinsert : ∀ l : List Event, (insertOutput l).filter (fun e => !e.isOutputChanged) =
      l.filter (fun e => !e.isOutputChanged) := by
    intro l
    by_cases h : l.any (·.isWorkspaceEmptied) = true
    · obtain ⟨a, x, b, rfl, hx, hb⟩ := exists_last h
      rw [insertOutput_around hx hb]
      simp [filter_cons, Event.isOutputChanged]
    · rw [insertOutput_of_none (forall_of_not_any h), filter_append]
      simp [Event.isOutputChanged]
  by_cases h : l.any (·.isOutputChanged) = true
  · obtain ⟨a, x, b, rfl, hx, ha⟩ := exists_first h
    rw [eq_outputChanged hx, moveOutput_around ha, hinsert]
    simp [Event.isOutputChanged]
  · rw [moveOutput_of_none (forall_of_not_any h)]

theorem filter_plain_of_landmark {l' : List Event}
    (h : l.filter (·.isLandmark) = l'.filter (·.isLandmark)) :
    l.filter (·.isPlain) = l'.filter (·.isPlain) := by
  have hnarrow : ∀ l : List Event,
      (l.filter (·.isLandmark)).filter (·.isPlain) = l.filter (·.isPlain) := by
    intro l
    rw [filter_filter]
    refine filter_congr fun e _ => ?_
    cases he : e.isPlain <;> simp [Event.isLandmark, he]
  rw [← hnarrow l, ← hnarrow l', h]

namespace WorkspaceEventTransaction

variable (t : WorkspaceEventTransaction) (tree : Node)

/-- **Plain events come out as the output rule alone leaves them**, and in the order they came in
where it does not apply. -/
theorem filter_commitEvents :
    (t.commitEvents tree).filter (·.isPlain) =
      (if t.suppressWorkspaceMoves then moveOutput t.events else t.events).filter (·.isPlain) := by
  unfold commitEvents
  rw [filter_rewrite]
  apply filter_plain_of_landmark
  have hordered := filter_ordered (p := (·.isLandmark))
    (fun _ => isLandmark_of_isScratchpadChange) (fun _ _ => isLandmark_of_reversed) t
  split
  · rw [filter_moveOutput, filter_moveOutput, hordered]
  · exact hordered

/-- **Each plain event comes out once.** -/
theorem filter_commitEvents_perm :
    ((t.commitEvents tree).filter (·.isPlain)).Perm (t.events.filter (·.isPlain)) := by
  rw [filter_commitEvents]
  split
  · exact (moveOutput_perm _).filter _
  · exact Perm.refl _

/-- Plain events that are no output events keep their order. -/
theorem filter_commitEvents_not_output :
    (t.commitEvents tree).filter (fun e => e.isPlain && !e.isOutputChanged) =
      t.events.filter fun e => e.isPlain && !e.isOutputChanged := by
  have hswap : ∀ l : List Event, l.filter (fun e => e.isPlain && !e.isOutputChanged) =
      (l.filter (·.isPlain)).filter (fun e => !e.isOutputChanged) := by
    intro l
    rw [filter_filter]
    exact filter_congr fun e _ => Bool.and_comm _ _
  have hcomm : ∀ l : List Event, (l.filter (·.isPlain)).filter (fun e => !e.isOutputChanged) =
      (l.filter (fun e => !e.isOutputChanged)).filter (·.isPlain) := by
    intro l
    rw [filter_filter, filter_filter]
    exact filter_congr fun e _ => Bool.and_comm _ _
  rw [hswap, hswap, filter_commitEvents]
  split
  · rw [hcomm, hcomm, filter_not_output_moveOutput]
  · rfl

end WorkspaceEventTransaction

/-! ## 7. Floating containers in focus events -/

section Floating

variable {tree : Node} {old : Option Node} {current n : Node}

/-- The floating containers the tree holds on a workspace. -/
def floatingOn (tree : Node) (workspace : ℤ) : List Node :=
  ((tree.findWorkspaceByTreeId workspace).map (·.floatingNodes)).getD []

/-- In the tree `container` is on the workspace `old`, or is a sticky one on `current`. -/
def Accounted (tree : Node) (old current container : ℤ) : Prop :=
  (∃ n ∈ floatingOn tree old, n.id = container) ∨
    ∃ n ∈ floatingOn tree current, n.id = container ∧ n.info.sticky = true

/-- A focus event says of floating containers what is so in the tree. -/
def Truthful (tree : Node) (old : Option Node) (current : Node) : Prop :=
  (∀ n ∈ floatingOn tree current.id, n.info.sticky = false → n ∈ current.floatingNodes) ∧
    ∀ o ∈ old, ∀ n ∈ o.floatingNodes, Accounted tree o.id current.id n.id

def AllTruthful (tree : Node) (events : List Event) : Prop :=
  ∀ old current, .workspaceFocusChanged old current ∈ events → Truthful tree old current

/-- The sticky container may be shown on `old`, and `current` has none that are not sticky; or there
is no sticky container, and nothing else is shown on a workspace that has gone. -/
def Settled (root : Option Node) (tree : Node) (old : Option Node) (current : Node) : Prop :=
  match root with
  | some root => (∀ o ∈ old, Accounted tree o.id current.id root.id) ∧
      ∀ n ∈ floatingOn tree current.id, n.info.sticky = true
  | none => ∀ o ∈ old, (tree.findWorkspaceByTreeId o.id).isSome ∨
      ∀ n ∈ o.floatingNodes, Accounted tree o.id current.id n.id

def Event.isFocusChanged : Event → Bool
  | workspaceFocusChanged _ _ => true
  | _ => false

theorem id_of_findWorkspaceByTreeId {id : ℤ} (h : tree.findWorkspaceByTreeId id = some n) :
    n.id = id := by
  have := find?_some h
  simpa using (Bool.and_eq_true_iff.mp this).2

theorem id_clearWorkspaceFocus (hide : Bool) : (n.clearWorkspaceFocus hide).id = n.id := by
  unfold Node.id Node.clearWorkspaceFocus
  rw [Node.info_mapInfo]
  dsimp only
  split <;> simp

theorem floatingNodes_clearWorkspaceFocus (hide : Bool) :
    (n.clearWorkspaceFocus hide).floatingNodes =
      n.floatingNodes.map (Node.clearWorkspaceFocus hide) := by
  cases n
  exact congrArg Node.floatingNodes (Node.mapInfo_mk _ _ _ _)

theorem id_setRepresentation (text : Option Text) (i : NodeInfo) :
    (i.setRepresentation text).id = i.id := by
  unfold NodeInfo.setRepresentation
  split <;> rfl

theorem id_left (r : Rewriting) (n : Node) : (r.left n).id = n.id := by
  have hclear : (n.clearWorkspaceFocus true).info.id = n.info.id := id_clearWorkspaceFocus true
  unfold Rewriting.left Node.id
  cases hfind : r.currentTree.findWorkspaceByTreeId n.info.id with
  | none => grind [Node.info_withInfo, Node.info_mk, id_setRepresentation]
  | some settled =>
    have hid : settled.info.id = n.info.id := id_of_findWorkspaceByTreeId hfind
    grind [Node.info_withInfo, Node.info_mk, id_setRepresentation]

theorem id_entered (r : Rewriting) (n : Node) : (r.entered n).id = n.id := by
  unfold Rewriting.entered Node.id
  cases hfind : r.currentTree.findWorkspaceByTreeId n.info.id with
  | none => grind [Node.info_mk]
  | some settled =>
    have hid : settled.info.id = n.info.id := id_of_findWorkspaceByTreeId hfind
    grind [Node.info_withInfo, Node.info_mk]

/-- The floating containers told of the workspace that was left. -/
theorem floatingNodes_left (r : Rewriting) (n : Node) :
    (r.left n).floatingNodes = match r.stickyRoot with
      | some root => [root.clearWorkspaceFocus false]
      | none => match r.currentTree.findWorkspaceByTreeId n.id with
        | some settled => settled.floatingNodes
        | none => n.floatingNodes.map (Node.clearWorkspaceFocus true) := by
  unfold Rewriting.left
  cases r.stickyRoot with
  | some root =>
    dsimp only
    split <;> rfl
  | none =>
    cases r.currentTree.findWorkspaceByTreeId n.id with
    | some settled => rfl
    | none => exact floatingNodes_clearWorkspaceFocus true

/-- The floating containers told of the workspace that was entered, if the tree has it. -/
theorem floatingNodes_entered {r : Rewriting} {settled : Node}
    (h : r.currentTree.findWorkspaceByTreeId current.id = some settled) :
    (r.entered current).floatingNodes =
      if r.stickyRoot.isSome then [] else settled.floatingNodes := by
  unfold Rewriting.entered
  rw [h]
  dsimp only
  split <;> rfl

/-- What is told of the workspace that was entered. -/
theorem told_entered_iff (r : Rewriting) (current : Node) :
    (∀ n ∈ floatingOn r.currentTree current.id, n.info.sticky = false →
        n ∈ (r.entered current).floatingNodes) ↔
      (r.stickyRoot.isSome = true → ∀ n ∈ floatingOn r.currentTree current.id,
        n.info.sticky = true) := by
  unfold floatingOn
  cases hfind : r.currentTree.findWorkspaceByTreeId current.id with
  | none => exact iff_of_true nofun fun _ => nofun
  | some settled =>
    rw [floatingNodes_entered hfind, Option.map_some, Option.getD_some]
    cases r.stickyRoot with
    | none => exact iff_of_true (fun n hn _ => hn) nofun
    | some root =>
      refine ⟨fun h _ n hn => ?_, fun h n hn hplain => ?_⟩
      · by_contra hplain
        exact nomatch h n hn (Bool.eq_false_iff.mpr hplain)
      · rw [h rfl n hn] at hplain
        cases hplain

/-- What is told of the workspace that was left. -/
theorem told_left_iff (r : Rewriting) (o : Node) (current : ℤ) :
    (∀ n ∈ (r.left o).floatingNodes, Accounted r.currentTree o.id current n.id) ↔
      match r.stickyRoot with
      | some root => Accounted r.currentTree o.id current root.id
      | none => (r.currentTree.findWorkspaceByTreeId o.id).isSome = true ∨
          ∀ n ∈ o.floatingNodes, Accounted r.currentTree o.id current n.id := by
  rw [floatingNodes_left]
  cases r.stickyRoot with
  | some root =>
    dsimp only
    rw [forall_mem_singleton, id_clearWorkspaceFocus]
  | none =>
    cases hfind : r.currentTree.findWorkspaceByTreeId o.id with
    | some settled =>
      refine iff_of_true (fun n hn => .inl ⟨n, ?_, rfl⟩) (.inl rfl)
      rw [floatingOn, hfind]
      exact hn
    | none =>
      dsimp only
      simp only [forall_mem_map, id_clearWorkspaceFocus, Option.isSome_none, Bool.false_eq_true,
        false_or]

/-- **One focus event is truthful exactly if it is settled.** -/
theorem truthful_iff_settled (r : Rewriting) (old : Option Node) (current : Node) :
    Truthful r.currentTree (old.map r.left) (r.entered current) ↔
      Settled r.stickyRoot r.currentTree old current := by
  have hleft : (∀ o ∈ old.map r.left, ∀ n ∈ o.floatingNodes,
      Accounted r.currentTree o.id current.id n.id) ↔
      ∀ o ∈ old, ∀ n ∈ (r.left o).floatingNodes,
        Accounted r.currentTree o.id current.id n.id := by
    cases old <;> simp [id_left]
  unfold Truthful Settled
  rw [id_entered, told_entered_iff, hleft]
  simp only [told_left_iff]
  cases r.stickyRoot with
  | some root => simp [and_comm]
  | none => simp

theorem mem_rewrite_focusChanged {r : Rewriting} {moved : List ℤ} :
    .workspaceFocusChanged old current ∈ r.rewrite moved l ↔
      ∃ old0 current0, .workspaceFocusChanged old0 current0 ∈ l ∧ old0.map r.left = old ∧
        r.entered current0 = current := by
  fun_induction Rewriting.rewrite r moved l with
  | case3 moved workspace es _ ih =>
    simp only [mem_cons, mem_append, Option.mem_toList, Option.map_eq_some_iff, ih]
    simp
  | _ => grind

theorem mem_ordered_focusChanged (t : WorkspaceEventTransaction) :
    .workspaceFocusChanged old current ∈ t.ordered ↔
      .workspaceFocusChanged old current ∈ t.events := by
  have hordered := filter_ordered (p := Event.isFocusChanged)
    (fun e h => by cases e <;> first | rfl | cases h)
    (fun a b h => by cases a <;> first | rfl | (cases b <;> cases h)) t
  have hfilter : ∀ l : List Event, .workspaceFocusChanged old current ∈ l ↔
      .workspaceFocusChanged old current ∈ l.filter Event.isFocusChanged := by
    intro l
    rw [mem_filter]
    exact (and_iff_left rfl).symm
  rw [hfilter, hordered, ← hfilter]

/-- A workspace with one floating container. -/
def floatingWorkspace (id : ℤ) (sticky : Bool) : Node :=
  .mk { id, nodeType := .workspace, layout := .splitH, orientation := .none } []
    [.mk { id := 10 + id, nodeType := .floatingCon, layout := .none, orientation := .none, sticky }
      [] []]

/-- From workspace 1 to workspace 2, the containers of 2 and 3 sticky or not. -/
def threeWorkspaces (second third : Bool) : Node :=
  .mk { id := 0, nodeType := .output, layout := .output, orientation := .none }
    [floatingWorkspace 1 false, floatingWorkspace 2 second, floatingWorkspace 3 third] []

def switchTo2 : WorkspaceEventTransaction :=
  { events := [.workspaceFocusChanged (floatingWorkspace 1 false) (floatingWorkspace 2 false)] }

end Floating

end Swayward.Ipc
