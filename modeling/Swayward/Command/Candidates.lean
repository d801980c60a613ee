/-
  File:      Swayward/Command/Candidates.lean
  Subject:   WHAT CRITERIA SEE: the windows and containers a criteria command can match
             (`collect_candidates`, `matching_targets` in `command/targeted.rs`).

  `collect_candidates` takes a snapshot of every window `with_windows` visits and then walks the
  workspaces in sway's order. Each window it meets uses up its snapshot; what is left at the end is
  listed last. Windows of floating groups have no snapshot and get one on the spot.

  * `Walk.Emits`            -- what a part of the walk lists, and that it uses up just that;
  * `emits_workspaces`      -- the walk over the workspaces lists every window on them once;
  * `candidates_complete`   -- with no group hidden in the scratchpad, every window is listed once;
  * `hidden_group_missed`   -- the windows of a hidden group are not listed.
-/
import Swayward.Command.Marks
import Swayward.Ipc.Ids
import Swayward.Layout.Monitors

namespace Swayward

open List

/-! ## 1. Candidates -/

/-- `WindowSnapshot`; what else a criterion reads is found through the window itself. -/
structure WindowSnapshot where
  id : MappedId
  workspace : Option Name
  floating : Bool
  deriving DecidableEq

inductive Candidate
  | window (snapshot : WindowSnapshot)
  /-- with the target a match on it selects -/
  | container (target : CommandTarget) (node : NodeId)
  deriving DecidableEq

namespace Candidate

def window? : Candidate → Option WindowSnapshot
  | window snapshot => some snapshot
  | container _ _ => none

def windowId? (c : Candidate) : Option MappedId := c.window?.map (·.id)

def container? : Candidate → Option (CommandTarget × NodeId)
  | window _ => none
  | container target node => some (target, node)

end Candidate

open Candidate (window? windowId? container?)

/-- The state of the walk. -/
structure Walk where
  candidates : List Candidate := []
  snapshots : FinMap MappedId WindowSnapshot := ∅

namespace Walk

def push (w : Walk) (c : Candidate) : Walk := { w with candidates := w.candidates ++ [c] }

/-- Use up the snapshot of a window, if it is there. -/
def take (w : Walk) (id : MappedId) : Walk :=
  match w.snapshots.lookup id with
  | some snapshot => { w with snapshots := w.snapshots.erase id }.push (.window snapshot)
  | none => w

/-- Use up the snapshot of a window, or list it with a fresh one. -/
def takeOr (w : Walk) (fresh : WindowSnapshot) : Walk :=
  { w with snapshots := w.snapshots.erase fresh.id }.push
    (.window ((w.snapshots.lookup fresh.id).getD fresh))

/-- The closure `push_tree`; `mapped` are the windows of `mapped_by_window`. -/
def pushTree (mapped : List MappedId) (ws : Workspace MappedId) (tree : IpcNode MappedId)
    (floating : Bool) (w : Walk) : Walk :=
  tree.nodes.foldl
    (fun w (node, kind) =>
      match kind with
      | .split => w.push (.container (.container ws.id node) node)
      | .leaf =>
        match (tree.windowForNode node).filter mapped.contains with
        | some id => w.takeOr ⟨id, ws.swayName, floating⟩
        | none => w) w

/-- One workspace: the tiled tree, single floating windows, floating groups. -/
def pushWorkspace (mapped : List MappedId) (w : Walk) (ws : Workspace MappedId) : Walk :=
  let w := w.pushTree mapped ws ws.ipcTilingTree false
  let plainFloating := (ws.tilesWithIpcLayouts.map (·.window)).filter (ws.isFloatingForIpc ·)
  let w := plainFloating.reverse.foldl take w
  ws.ipcFloatingTrees.reverse.foldl (fun w (_, tree, _) => w.pushTree mapped ws tree true) w

end Walk

section Layout

variable (l : LayoutState MappedId)

/-- The snapshots of the windows `with_windows` visits; `floating` is `Mapped::is_floating`. -/
def windowSnapshots (floating : MappedId → Bool) : FinMap MappedId WindowSnapshot :=
  l.withWindows.foldl
    (fun (m : FinMap MappedId WindowSnapshot) (e : Tile MappedId × _ × Option WorkspaceId) =>
      let workspace := e.2.2.bind fun id =>
        (l.allWorkspaces.find? (·.id == id)).bind (·.swayName)
      m.insert e.1.window ⟨e.1.window, workspace, floating e.1.window⟩) ∅

/-- `collect_candidates` -/
def collectCandidates (floating : MappedId → Bool) : List Candidate :=
  let w := l.allWorkspaces.foldl (Walk.pushWorkspace l.windows)
    { snapshots := windowSnapshots l floating }
  let w := l.scratchpadTreeNodes.foldl
    (fun w (node, window) =>
      if l.windows.contains window then w.push (.container (.window window) node) else w) w
  let (hidden, rest) := l.visited.partition l.scratchpadWindows.contains
  ((hidden ++ rest).foldl Walk.take w).candidates

end Layout

/-! ## 2. Matching -/

inductive UrgentOrder
  | oldest | latest
  deriving DecidableEq, Repr

/-- A parsed criteria expression, as far as matching asks it. -/
structure CriteriaQuery where
  urgent : Option UrgentOrder := none
  /-- `matches`, against the focused window where there is one -/
  accepts : WindowSnapshot → Option WindowSnapshot → Bool
  /-- `matches_container`, by identifier and marks -/
  acceptsContainer : ℤ → List Mark → Bool

section Matching

variable (urgentSince : MappedId → Option ℕ) (focused : Option MappedId)
  (marksByContainer : MultiMap NodeId Mark)

/-- The snapshots a criteria expression selects; `urgent` selects one of them. -/
def selectedWindows (criteria : CriteriaQuery) (candidates : List Candidate) :
    List WindowSnapshot :=
  let windows := candidates.filterMap window?
  let focusedInfo := windows.find? fun snapshot => some snapshot.id == focused
  let accepted := windows.filter (criteria.accepts · focusedInfo)
  match criteria.urgent with
  | none => accepted
  | some order =>
    let key (snapshot : WindowSnapshot) : ℕ := ((urgentSince snapshot.id).map (· + 1)).getD 0
    let sorted := accepted.mergeSort fun a b => key a ≤ key b
    (if order = .latest then sorted.reverse else sorted).head?.toList

/-- The target of a candidate, if the criteria accept it. -/
def Candidate.target? (accepts : WindowSnapshot → Bool) (acceptsNode : NodeId → Bool) :
    Candidate → Option CommandTarget
  | .window snapshot => if accepts snapshot then some (.window snapshot.id) else none
  | .container target node => if acceptsNode node then some target else none

/-- `if !targets.contains(&target) { targets.push(target) }` -/
def pushTarget (targets : List CommandTarget) : Option CommandTarget → List CommandTarget
  | some target => if targets.contains target then targets else targets ++ [target]
  | none => targets

/-- `matching_targets`: each target once, in the order of the walk. -/
def matchingTargets (criteria : CriteriaQuery) (candidates : List Candidate) : List CommandTarget :=
  let windows := candidates.filterMap window?
  let focusedInfo := windows.find? fun snapshot => some snapshot.id == focused
  match criteria.urgent with
  | some _ => (selectedWindows urgentSince focused criteria candidates).map (.window ·.id)
  | none =>
    let target? := Candidate.target? (criteria.accepts · focusedInfo)
      fun node => criteria.acceptsContainer (Ipc.containerId node) (marksByContainer.get node)
    candidates.foldl (fun targets candidate => pushTarget targets (target? candidate)) []

end Matching

/-! ## 3. What a part of the walk lists -/

namespace Walk

variable {ws : Workspace MappedId}

/-- Every snapshot is that of its key. -/
def Keyed (w : Walk) : Prop := ∀ id s, w.snapshots.lookup id = some s → s.id = id

def windowIds (w : Walk) : List MappedId := w.candidates.filterMap windowId?

def containers (w : Walk) : List (CommandTarget × NodeId) :=
  w.candidates.filterMap container?

/-- `f` lists the windows `ids` and the containers `nodes`, in this order, and uses up the snapshots
of `ids`, provided those of `need` are there. -/
structure Emits (ids : List MappedId) (nodes : List (CommandTarget × NodeId))
    (need : List MappedId) (f : Walk → Walk) : Prop where
  windows : ∀ {w : Walk}, w.Keyed → (∀ id ∈ need, id ∈ w.snapshots) →
    (f w).windowIds = w.windowIds ++ ids
  containers : ∀ {w : Walk}, w.Keyed → (∀ id ∈ need, id ∈ w.snapshots) →
    (f w).containers = w.containers ++ nodes
  snapshots : ∀ {w : Walk}, w.Keyed → (∀ id ∈ need, id ∈ w.snapshots) →
    ∀ id, id ∈ (f w).snapshots ↔ id ∈ w.snapshots ∧ id ∉ ids
  keyed : ∀ {w : Walk}, w.Keyed → (f w).Keyed

theorem emits_id : Emits [] [] [] id where
  windows _ _ := (append_nil _).symm
  containers _ _ := (append_nil _).symm
  snapshots _ _ _ := by simp
  keyed h := h

/-- One part after the other, if the first leaves what the second needs. -/
theorem Emits.comp {ids ids' need need' : List MappedId}
    {nodes nodes' : List (CommandTarget × NodeId)} {f g : Walk → Walk}
    (hf : Emits ids nodes need f) (hg : Emits ids' nodes' need' g) (h : ∀ id ∈ need', id ∉ ids) :
    Emits (ids ++ ids') (nodes ++ nodes') (need ++ need') fun w => g (f w) := by
  have hneed : ∀ {w : Walk}, w.Keyed → (∀ id ∈ need ++ need', id ∈ w.snapshots) →
      (∀ id ∈ need, id ∈ w.snapshots) ∧ ∀ id ∈ need', id ∈ (f w).snapshots := by
    intro w hw hall
    have hfirst : ∀ id ∈ need, id ∈ w.snapshots := fun id hid =>
      hall id (mem_append_left _ hid)
    refine ⟨hfirst, fun id hid => (hf.snapshots hw hfirst id).mpr ⟨?_, h id hid⟩⟩
    exact hall id (mem_append_right _ hid)
  refine ⟨fun hw hall => ?_, fun hw hall => ?_, fun hw hall id => ?_,
    fun hw => hg.keyed (hf.keyed hw)⟩
  · obtain ⟨h1, h2⟩ := hneed hw hall
    rw [hg.windows (hf.keyed hw) h2, hf.windows hw h1, append_assoc]
  · obtain ⟨h1, h2⟩ := hneed hw hall
    rw [hg.containers (hf.keyed hw) h2, hf.containers hw h1, append_assoc]
  · obtain ⟨h1, h2⟩ := hneed hw hall
    rw [hg.snapshots (hf.keyed hw) h2, hf.snapshots hw h1, mem_append, not_or, and_assoc]

/-- A loop over parts none of which uses up what a later one needs. -/
theorem emits_foldl {α : Type} {f : α → Walk → Walk} {ids need : α → List MappedId}
    {nodes : α → List (CommandTarget × NodeId)} {xs : List α}
    (hf : ∀ x ∈ xs, Emits (ids x) (nodes x) (need x) (f x))
    (hneed : xs.Pairwise fun x y => ∀ id ∈ need y, id ∉ ids x) :
    Emits (xs.flatMap ids) (xs.flatMap nodes) (xs.flatMap need)
      fun w => xs.foldl (fun w x => f x w) w := by
  induction xs with
  | nil => exact emits_id
  | cons x xs ih =>
    obtain ⟨hx, hxs⟩ := pairwise_cons.mp hneed
    refine (hf x mem_cons_self).comp
      (ih (fun y hy => hf y (mem_cons_of_mem _ hy)) hxs) fun id hid => ?_
    obtain ⟨y, hy, hid⟩ := mem_flatMap.mp hid
    exact hx y hy id hid

/-- A loop over parts that need nothing. -/
theorem emits_foldl_free {α : Type} {f : α → Walk → Walk} {ids : α → List MappedId}
    {nodes : α → List (CommandTarget × NodeId)} {xs : List α}
    (hf : ∀ x ∈ xs, Emits (ids x) (nodes x) [] (f x)) :
    Emits (xs.flatMap ids) (xs.flatMap nodes) [] fun w => xs.foldl (fun w x => f x w) w := by
  have h : Emits (xs.flatMap ids) (xs.flatMap nodes) (xs.flatMap fun _ => [])
      fun w => xs.foldl (fun w x => f x w) w :=
    emits_foldl hf (pairwise_of_forall fun _ _ _ h => nomatch h)
  rwa [flatMap_eq_nil_iff.mpr fun _ _ => rfl] at h

theorem emits_push_container (target : CommandTarget) (node : NodeId) :
    Emits [] [(target, node)] [] (·.push (.container target node)) where
  windows {w} _ _ := by
    simp [windowIds, push, windowId?, window?]
  containers {w} _ _ := by
    simp [containers, push, container?]
  snapshots {w} _ _ id := by simp [push]
  keyed h := h

theorem Keyed.erase {w : Walk} (h : w.Keyed) (id : MappedId) (c : Candidate) :
    ({ w with snapshots := w.snapshots.erase id }.push c).Keyed := by
  intro j s hj
  change (w.snapshots.erase id).lookup j = some s at hj
  rw [FinMap.lookup_erase_eq] at hj
  split at hj
  · cases hj
  · exact h j s hj

theorem mem_erase_iff {m : FinMap MappedId WindowSnapshot} {id j : MappedId} :
    j ∈ m.erase id ↔ j ∈ m ∧ j ∉ [id] := by
  rw [AList.mem_erase, mem_singleton, and_comm]

theorem emits_takeOr (fresh : WindowSnapshot) : Emits [fresh.id] [] [] (·.takeOr fresh) where
  windows {w} hw _ := by
    have hid : ((w.snapshots.lookup fresh.id).getD fresh).id = fresh.id := by
      cases h : w.snapshots.lookup fresh.id with
      | none => rfl
      | some s => exact hw _ s h
    simp [windowIds, takeOr, push, windowId?, window?, hid]
  containers {w} _ _ := by
    simp [containers, takeOr, push, container?]
  snapshots {w} _ _ id := mem_erase_iff
  keyed h := h.erase _ _

theorem emits_take (id : MappedId) : Emits [id] [] [id] (·.take id) where
  windows {w} hw hneed := by
    obtain ⟨s, hs⟩ := FinMap.mem_iff_lookup.mp (hneed id (mem_singleton_self id))
    simp [windowIds, take, hs, push, windowId?, window?, hw id s hs]
  containers {w} _ hneed := by
    obtain ⟨s, hs⟩ := FinMap.mem_iff_lookup.mp (hneed id (mem_singleton_self id))
    simp [containers, take, hs, push, container?]
  snapshots {w} _ hneed j := by
    obtain ⟨s, hs⟩ := FinMap.mem_iff_lookup.mp (hneed id (mem_singleton_self id))
    rw [take, hs]
    exact mem_erase_iff
  keyed {w} h := by
    unfold take
    split
    · exact h.erase _ _
    · exact h

/-- Taking what is left: the windows whose snapshot is still there. -/
theorem windowIds_foldl_take {w : Walk} (hw : w.Keyed) {ids : List MappedId} (h : ids.Nodup) :
    (ids.foldl take w).windowIds = w.windowIds ++ ids.filter (· ∈ w.snapshots) ∧
      (ids.foldl take w).containers = w.containers := by
  induction ids generalizing w with
  | nil => exact ⟨(append_nil _).symm, rfl⟩
  | cons id ids ih =>
    obtain ⟨hid, hids⟩ := nodup_cons.mp h
    rw [foldl_cons]
    by_cases hmem : id ∈ w.snapshots
    · have hneed : ∀ j ∈ [id], j ∈ w.snapshots := fun j hj => by
        rw [mem_singleton.mp hj]
        exact hmem
      have hlater : ids.filter (· ∈ (w.take id).snapshots) = ids.filter (· ∈ w.snapshots) := by
        refine filter_congr fun j hj => ?_
        rw [decide_eq_decide, (emits_take id).snapshots hw hneed, mem_singleton]
        exact and_iff_left fun e => hid (e ▸ hj)
      obtain ⟨hwindows, hcontainers⟩ := ih ((emits_take id).keyed hw) hids
      rw [hwindows, hcontainers, (emits_take id).windows hw hneed,
        (emits_take id).containers hw hneed, hlater]
      simp [hmem]
    · have hsame : w.take id = w := by
        have hnone : w.snapshots.lookup id = none := AList.lookup_eq_none.mpr hmem
        rw [take, hnone]
      rw [hsame]
      obtain ⟨hwindows, hcontainers⟩ := ih hw hids
      rw [hwindows, hcontainers]
      simp [hmem]

/-! ## 4. A workspace -/

theorem emits_pushTree {mapped : List MappedId} {tree : IpcNode MappedId} {floating : Bool}
    (hnodup : (tree.nodes.map (·.1)).Nodup) (hmapped : ∀ id ∈ tree.windows, id ∈ mapped) :
    Emits tree.windows (tree.splitIds.map fun node => (.container ws.id node, node)) []
      (pushTree mapped ws tree floating) := by
  have hwindows : tree.windows = tree.entries.flatMap fun e => (IpcNode.entryWindow e).toList :=
    filterMap_eq_flatMap_toList _ _
  have hsplits : (tree.splitIds.map fun node => (CommandTarget.container ws.id node, node)) =
      tree.entries.flatMap fun e =>
        (IpcNode.entrySplit e).toList.map fun node => (.container ws.id node, node) := by
    unfold IpcNode.splitIds
    rw [filterMap_eq_flatMap_toList, map_flatMap]
  have hfold : pushTree mapped ws tree floating = fun w => tree.entries.foldl (fun w e =>
        match e with
        | .inl info => w.push (.container (.container ws.id info.id) info.id)
        | .inr info =>
          match (tree.windowForNode info.id).filter mapped.contains with
          | some id => w.takeOr ⟨id, ws.swayName, floating⟩
          | none => w) w := by
    funext w
    unfold pushTree IpcNode.nodes
    rw [foldl_map]
    congr 1
    funext w e
    cases e <;> rfl
  rw [hfold, hsplits, hwindows]
  refine emits_foldl_free (f := fun e w => _) fun e he => ?_
  cases e with
  | inl info => exact emits_push_container _ _
  | inr info =>
    have hmem : info.window ∈ mapped := hmapped _ (mem_filterMap.mpr ⟨_, he, rfl⟩)
    have hfound : (tree.windowForNode info.id).filter mapped.contains = some info.window := by
      rw [IpcNode.windowForNode_of_mem hnodup he]
      exact Option.filter_some_pos (contains_iff_mem.mpr hmem)
    simp only [hfound]
    exact emits_takeOr ⟨info.window, ws.swayName, floating⟩

/-- The windows of a workspace in the order of the walk. -/
def workspaceIds (ws : Workspace MappedId) : List MappedId :=
  ws.ipcTilingTree.windows ++
    ((ws.tilesWithIpcLayouts.map (·.window)).filter (ws.isFloatingForIpc ·)).reverse ++
    ws.floating.treeEntries.reverse.flatMap (·.tree.windows)

/-- The containers of a workspace in the order of the walk. -/
def workspaceContainers (ws : Workspace MappedId) : List NodeId :=
  ws.ipcTilingTree.splitIds ++ ws.floating.treeEntries.reverse.flatMap (·.tree.tree.containers)

theorem emits_pushWorkspace {mapped : List MappedId} (htiled : ws.tiling.tree.residentRoot = false)
    (hmapped : ∀ id ∈ ws.windows, id ∈ mapped) (hnodup : ws.windows.Nodup) :
    Emits (workspaceIds ws) ((workspaceContainers ws).map fun node => (.container ws.id node, node))
      ((ws.tilesWithIpcLayouts.map (·.window)).filter (ws.isFloatingForIpc ·)).reverse
      fun w => w.pushWorkspace mapped ws := by
  have htiling := ws.windows_ipcTilingTree htiled
  have hfirst : Emits ws.ipcTilingTree.windows
      (ws.ipcTilingTree.splitIds.map fun node => (.container ws.id node, node)) []
      (pushTree mapped ws ws.ipcTilingTree false) := by
    refine emits_pushTree ?_ fun id hid => hmapped id ?_
    · exact ws.tiling.nodup_nodes_ipcTree.sublist (((IpcNode.entries_retainLeaves _).map _).map _)
    · rw [htiling] at hid
      exact mem_append_left _ (mem_of_mem_filter hid)
  have hplain : ∀ ids : List MappedId, ids.Nodup → Emits ids [] ids fun w => ids.foldl take w := by
    intro ids hids
    have h := emits_foldl (f := fun id w => w.take id) (fun id (_ : id ∈ ids) => emits_take id)
      (hids.imp fun hne id hid => by
        rw [mem_singleton.mp hid]
        exact fun h => hne (mem_singleton.mp h).symm)
    have hnone : ids.flatMap (fun _ => ([] : List (CommandTarget × NodeId))) = [] :=
      flatMap_eq_nil_iff.mpr fun _ _ => rfl
    rwa [hnone, flatMap_singleton' ids] at h
  have hgroups : Emits (ws.floating.treeEntries.reverse.flatMap (·.tree.windows))
      ((ws.floating.treeEntries.reverse.flatMap (·.tree.tree.containers)).map
        fun node => (.container ws.id node, node)) []
      fun w => ws.ipcFloatingTrees.reverse.foldl
        (fun w (_, tree, _) => w.pushTree mapped ws tree true) w := by
    have hentry : ∀ entry ∈ ws.floating.treeEntries.reverse, Emits entry.tree.windows
        (entry.tree.tree.containers.map fun node => (.container ws.id node, node)) []
        (pushTree mapped ws entry.tree.tree.ipcTree true) := by
      intro entry hentry
      rw [← entry.tree.windows_ipcTree, ← entry.tree.splitIds_ipcTree]
      refine emits_pushTree entry.tree.nodup_nodes_ipcTree fun id hid => ?_
      rw [entry.tree.windows_ipcTree] at hid
      refine hmapped id (mem_append_right _ (mem_append_right _ ?_))
      exact mem_flatMap.mpr ⟨entry, mem_reverse.mp hentry, hid⟩
    have h := emits_foldl_free hentry
    rw [map_flatMap]
    unfold Workspace.ipcFloatingTrees
    simp only [← map_reverse, foldl_map]
    exact h
  have hplainNodup : ((ws.tilesWithIpcLayouts.map (·.window)).filter
      (ws.isFloatingForIpc ·)).reverse.Nodup := by
    refine nodup_reverse.mpr (Nodup.filter _ ?_)
    exact ((ws.windows_perm.nodup_iff.mp hnodup)).of_append_left
  have h := (hfirst.comp (hplain _ hplainNodup) fun id hid hin => ?_).comp hgroups
    fun id hid => nomatch hid
  · simp only [append_nil, nil_append, ← map_append] at h
    exact h
  rw [htiling] at hin
  have hyes := of_mem_filter (mem_reverse.mp hid)
  have hno := of_mem_filter hin
  rw [hyes] at hno
  cases hno

/-- **The walk lists every window of a workspace.** -/
theorem workspaceIds_perm (htiled : ws.tiling.tree.residentRoot = false) :
    (workspaceIds ws).Perm ws.windows := by
  have hentries : (ws.floating.entries.map (·.tile.window)).filter (ws.isFloatingForIpc ·) =
      ws.floating.entries.map (·.tile.window) := by
    refine filter_eq_self.mpr fun id hid => ?_
    obtain ⟨entry, hentry, rfl⟩ := mem_map.mp hid
    have hroot : ws.floating.windowIsFloatingRoot entry.tile.window = true :=
      any_eq_true.mpr ⟨entry, hentry, beq_self_eq_true _⟩
    simp only [Workspace.isFloatingForIpc, FloatingLayout.hasWindow, hroot, Bool.true_or]
  have hgroups : (ws.floating.treeEntries.reverse.flatMap (·.tree.windows)).Perm
      ws.groupedWindows := (reverse_perm _).flatMap_right _
  have hplain : (((ws.tilesWithIpcLayouts.map (·.window)).filter
      (ws.isFloatingForIpc ·)).reverse).Perm
      (ws.floating.entries.map (·.tile.window) ++
        ws.tiling.windows.filter (ws.isFloatingForIpc ·)) := by
    refine (reverse_perm _).trans ?_
    unfold Workspace.tilesWithIpcLayouts
    rw [map_append, map_map, ws.tiling.map_window_tiles, filter_append]
    exact Perm.of_eq (congrArg (· ++ _) hentries)
  have hsplit : (ws.tiling.windows.filter (fun window => !ws.isFloatingForIpc window) ++
      ws.tiling.windows.filter (ws.isFloatingForIpc ·)).Perm ws.tiling.windows :=
    perm_append_comm.trans (filter_append_perm _ _)
  unfold workspaceIds Workspace.windows FloatingLayout.windows
  rw [ws.windows_ipcTilingTree htiled]
  refine ((hplain.append_left _).append hgroups).trans ?_
  generalize ws.floating.entries.map (·.tile.window) = entries
  rw [← append_assoc, ← append_assoc]
  refine Perm.append_right _ ?_
  rw [append_assoc]
  refine (perm_append_comm.append_left _).trans ?_
  rw [← append_assoc]
  exact hsplit.append_right _

end Walk

/-! ## 5. The whole walk -/

section Complete

open Walk

variable (l : SoundLayout MappedId) (floating : MappedId → Bool)

theorem keyed_windowSnapshots :
    ({ snapshots := windowSnapshots l.toLayoutState floating } : Walk).Keyed := by
  have hfold : ∀ (es : List (Tile MappedId × Option Output × Option WorkspaceId))
      (m : FinMap MappedId WindowSnapshot), ({ snapshots := m } : Walk).Keyed →
      ({ snapshots := es.foldl
          (fun (m : FinMap MappedId WindowSnapshot) (e : Tile MappedId × _ × Option WorkspaceId) =>
            let workspace := e.2.2.bind fun id =>
              (l.allWorkspaces.find? (·.id == id)).bind (·.swayName)
            m.insert e.1.window ⟨e.1.window, workspace, floating e.1.window⟩) m } : Walk).Keyed := by
    intro es
    induction es with
    | nil => exact fun m hm => hm
    | cons e es ih =>
      intro m hm
      refine ih _ fun id s hs => ?_
      change AList.lookup id (m.insert _ _) = some s at hs
      rw [FinMap.lookup_insert_eq] at hs
      split_ifs at hs with he
      · cases hs
        exact he.symm
      · exact hm id s hs
  exact hfold l.withWindows ∅ fun id s hs => by
    rw [AList.lookup_empty] at hs
    cases hs

theorem mem_windowSnapshots (id : MappedId) :
    id ∈ windowSnapshots l.toLayoutState floating ↔ id ∈ l.visited := by
  unfold windowSnapshots LayoutState.visited
  rw [FinMap.mem_foldl_insert, mem_map]
  exact or_iff_left (AList.notMem_empty id)

theorem workspaceIds_nodup : (l.allWorkspaces.flatMap workspaceIds).Nodup :=
  (Perm.flatMap_left _ fun ws hws => workspaceIds_perm (l.tiled ws hws)).nodup_iff.mpr
    l.workspace_windows_nodup

/-- The windows of a workspace whose snapshot the walk relies on. -/
def plainFloating (ws : Workspace MappedId) : List MappedId :=
  ((ws.tilesWithIpcLayouts.map (·.window)).filter (ws.isFloatingForIpc ·)).reverse

theorem plainFloating_subset (ws : Workspace MappedId) : plainFloating ws ⊆ workspaceIds ws :=
  fun _ h => mem_append_left _ (mem_append_right _ h)

/-- **The walk over the workspaces lists every window on them.** -/
theorem emits_workspaces :
    Emits (l.allWorkspaces.flatMap workspaceIds) (l.allWorkspaces.flatMap fun ws =>
        (workspaceContainers ws).map fun node => (.container ws.id node, node))
      (l.allWorkspaces.flatMap plainFloating)
      fun w => l.allWorkspaces.foldl (Walk.pushWorkspace l.windows) w := by
  refine emits_foldl (f := fun ws w => w.pushWorkspace l.windows ws) (fun ws hws => ?_) ?_
  · exact emits_pushWorkspace (l.tiled ws hws) (fun id hid => l.mem_windows hws hid)
      ((nodup_flatMap.mp l.workspace_windows_nodup).1 ws hws)
  · refine (nodup_flatMap.mp (workspaceIds_nodup l)).2.imp fun hdisjoint id hid hx => ?_
    exact hdisjoint hx (plainFloating_subset _ hid)

/-- The nodes of the hidden groups, as they are listed. -/
def hiddenNodes : List (CommandTarget × NodeId) :=
  l.scratchpadTreeNodes.flatMap fun e =>
    if l.windows.contains e.2 then [(.window e.2, e.1)] else []

theorem emits_hiddenNodes :
    Emits [] (hiddenNodes l) [] fun w => l.scratchpadTreeNodes.foldl (fun w (node, window) =>
        if l.windows.contains window then w.push (.container (.window window) node) else w) w := by
  have hstep : ∀ e ∈ l.scratchpadTreeNodes, Emits []
      (if l.windows.contains e.2 then [(CommandTarget.window e.2, e.1)] else []) []
      fun w => if l.windows.contains e.2 then w.push (.container (.window e.2) e.1) else w := by
    intro e _
    by_cases he : l.windows.contains e.2 = true
    · simp only [he, if_true]
      exact emits_push_container _ _
    · simp only [he, if_false, Bool.false_eq_true]
      exact emits_id
  have h := emits_foldl_free hstep
  rwa [flatMap_eq_nil_iff.mpr fun _ _ => rfl] at h

/-- **What the walk lists**: the windows outside hidden groups, each once, and the containers. -/
theorem collectCandidates_spec :
    ((collectCandidates l.toLayoutState floating).filterMap windowId?).Perm
      (l.interactiveMove.toList.map (·.tile.window) ++ l.scratchpad.map (·.window) ++
        l.allWorkspaces.flatMap (·.windows)) ∧
    (collectCandidates l.toLayoutState floating).filterMap container? =
      (l.allWorkspaces.flatMap fun ws =>
        (workspaceContainers ws).map fun node => (.container ws.id node, node)) ++
        hiddenNodes l := by
  have hkeyed := keyed_windowSnapshots l floating
  -- the snapshots the walk relies on are those of windows that are visited
  have hplain : ∀ ws ∈ l.allWorkspaces, ∀ id ∈ ws.tilesWithIpcLayouts.map (·.window),
      id ∈ l.visited := by
    intro ws hws id hid
    rw [l.visited_eq]
    exact mem_append_right _ (mem_flatMap.mpr ⟨ws, hws, hid⟩)
  have hneed : ∀ id ∈ l.allWorkspaces.flatMap plainFloating ++ [],
      id ∈ windowSnapshots l.toLayoutState floating := by
    intro id hid
    rw [append_nil] at hid
    obtain ⟨ws, hws, hid⟩ := mem_flatMap.mp hid
    rw [mem_windowSnapshots]
    exact hplain ws hws id (mem_of_mem_filter (mem_reverse.mp hid))
  have hemits := (emits_workspaces l).comp (emits_hiddenNodes l) fun id h => nomatch h
  rw [append_nil] at hemits
  unfold collectCandidates
  rw [partition_eq_filter_filter]
  dsimp only
  set w := l.scratchpadTreeNodes.foldl (fun (w : Walk) (x : NodeId × MappedId) =>
    if l.windows.contains x.2 then w.push (.container (.window x.2) x.1) else w)
    (l.allWorkspaces.foldl (Walk.pushWorkspace l.windows)
      { snapshots := windowSnapshots l.toLayoutState floating }) with hw
  have hwindows : w.windowIds = l.allWorkspaces.flatMap workspaceIds := hemits.windows hkeyed hneed
  have hcontainers := hemits.containers hkeyed hneed
  have hsnapshots : ∀ id, id ∈ w.snapshots ↔
      id ∈ l.visited ∧ id ∉ l.allWorkspaces.flatMap workspaceIds := fun id =>
    (hemits.snapshots hkeyed hneed id).trans
      (and_congr_left fun _ => mem_windowSnapshots l floating id)
  have hvisited : l.visited.Nodup := (l.windows_perm.nodup_iff.mp l.windows_nodup).of_append_left
  have horder : ((l.visited.filter l.scratchpadWindows.contains) ++
      l.visited.filter (not ∘ l.scratchpadWindows.contains)).Perm l.visited :=
    filter_append_perm _ _
  obtain ⟨htakeWindows, htakeContainers⟩ :=
    windowIds_foldl_take (hemits.keyed hkeyed) (horder.nodup_iff.mpr hvisited)
  refine ⟨?_, ?_⟩
  · refine (Perm.of_eq htakeWindows).trans ?_
    rw [hwindows]
    have hall : (l.allWorkspaces.flatMap workspaceIds).Perm (l.allWorkspaces.flatMap (·.windows)) :=
      Perm.flatMap_left _ fun ws hws => workspaceIds_perm (l.tiled ws hws)
    have hleft : l.visited.filter (· ∈ w.snapshots) =
        l.interactiveMove.toList.map (·.tile.window) ++ l.scratchpad.map (·.window) := by
      rw [l.visited_eq, filter_append]
      have hout : ∀ id ∈ l.interactiveMove.toList.map (·.tile.window) ++
          l.scratchpad.map (·.window), decide (id ∈ w.snapshots) = true := by
        intro id hid
        rw [decide_eq_true_eq, hsnapshots]
        refine ⟨?_, fun hmem => ?_⟩
        · rw [l.visited_eq]
          exact mem_append_left _ hid
        have hids : id ∈ l.interactiveMove.toList.map (·.tile.window) ++ l.scratchpadWindows := by
          rcases mem_append.mp hid with h | h
          · exact mem_append_left _ h
          · exact mem_append_right _ (mem_append_left _ h)
        exact (nodup_append'.mp l.windows_nodup).2.2 hids (hall.mem_iff.mp hmem)
      have hin : ∀ id ∈ l.allWorkspaces.flatMap (fun ws => ws.tilesWithIpcLayouts.map (·.window)),
          ¬ decide (id ∈ w.snapshots) = true := by
        intro id hid
        rw [decide_eq_true_eq, hsnapshots]
        rintro ⟨-, hnot⟩
        obtain ⟨ws, hws, hid⟩ := mem_flatMap.mp hid
        refine hnot (hall.mem_iff.mpr (mem_flatMap.mpr ⟨ws, hws, ?_⟩))
        exact ws.windows_perm.mem_iff.mpr (mem_append_left _ hid)
      rw [filter_eq_self.mpr hout, filter_eq_nil_iff.mpr hin, append_nil]
    refine (hall.append (horder.filter _)).trans ?_
    rw [hleft]
    exact perm_append_comm
  · exact htakeContainers.trans hcontainers

end Complete

/-! ## 6. Every window once -/

def CommandTarget.window? : CommandTarget → Option MappedId
  | .window id => some id
  | .container _ _ => none

section Matching

variable {urgentSince : MappedId → Option ℕ} {focused : Option MappedId}
  {marksByContainer : MultiMap NodeId Mark} {criteria : CriteriaQuery}
  {candidates : List Candidate}

/-- `urgent` selects at most one window, and none where there is none. -/
theorem selectedWindows_of_urgent {order : UrgentOrder} (h : criteria.urgent = some order) :
    ∃ chosen, selectedWindows urgentSince focused criteria candidates = Option.toList chosen ∧
      (candidates.filterMap window? = [] → chosen = none) := by
  unfold selectedWindows
  rw [h]
  refine ⟨_, rfl, fun hnil => ?_⟩
  rw [hnil]
  simp

/-- A target that is not a window leaves the windows collected. -/
theorem filterMap_pushTarget_container (targets : List CommandTarget)
    {target? : Option CommandTarget} (h : ∀ target ∈ target?, target.window? = none) :
    (pushTarget targets target?).filterMap CommandTarget.window? =
      targets.filterMap CommandTarget.window? := by
  cases target? with
  | none => rfl
  | some target =>
    have hnone := h target rfl
    change ((if targets.contains target then targets else targets ++ [target]).filterMap
      CommandTarget.window?) = _
    split
    · rfl
    · rw [filterMap_append]
      simp [hnone]

/-- A window not collected yet is collected. -/
theorem filterMap_pushTarget_window (targets : List CommandTarget) {id : MappedId}
    (h : id ∉ targets.filterMap CommandTarget.window?) :
    (pushTarget targets (some (.window id))).filterMap CommandTarget.window? =
      targets.filterMap CommandTarget.window? ++ [id] := by
  have hnew : ¬ targets.contains (.window id) = true := fun hin =>
    h (mem_filterMap.mpr ⟨_, contains_iff_mem.mp hin, rfl⟩)
  rw [pushTarget, if_neg hnew, filterMap_append]
  rfl

/-- Of the targets the loop collects, the windows. -/
theorem filterMap_window?_foldl {accepts : WindowSnapshot → Bool} {acceptsNode : NodeId → Bool}
    (targets : List CommandTarget)
    (hnodup : (targets.filterMap CommandTarget.window? ++ candidates.filterMap windowId?).Nodup)
    (hcontainers : ∀ e ∈ candidates.filterMap container?, e.1.window? = none)
    (hall : ∀ s ∈ candidates.filterMap window?, accepts s = true) :
    (candidates.foldl (fun targets candidate =>
        pushTarget targets (candidate.target? accepts acceptsNode)) targets).filterMap
          CommandTarget.window? =
      targets.filterMap CommandTarget.window? ++ candidates.filterMap windowId? := by
  induction candidates generalizing targets with
  | nil => exact (append_nil _).symm
  | cons candidate rest ih =>
    rw [foldl_cons]
    cases candidate with
    | window snapshot =>
      have hyes : accepts snapshot = true := hall snapshot (by simp [window?])
      have hpush := filterMap_pushTarget_window targets
        fun hin : snapshot.id ∈ _ => (nodup_append'.mp hnodup).2.2 hin
          (by simp [windowId?, window?])
      have htarget : (Candidate.window snapshot).target? accepts acceptsNode =
          some (.window snapshot.id) := if_pos hyes
      have hids : (Candidate.window snapshot :: rest).filterMap windowId? =
          snapshot.id :: rest.filterMap windowId? := rfl
      rw [hids, append_cons] at hnodup
      rw [hids, append_cons, htarget, ← hpush]
      apply ih
      · rw [hpush]
        exact hnodup
      · exact fun e he => hcontainers e he
      · exact fun s hs => hall s (mem_cons_of_mem _ hs)
    | container target node =>
      have htarget : target.window? = none := hcontainers (target, node) mem_cons_self
      have hnone : ∀ other ∈ (Candidate.container target node).target? accepts acceptsNode,
          other.window? = none := by
        intro other hother
        change (if acceptsNode node then some target else none) = some other at hother
        split at hother
        · cases hother
          exact htarget
        · cases hother
      have hpush := filterMap_pushTarget_container targets hnone
      have hids : (Candidate.container target node :: rest).filterMap windowId? =
          rest.filterMap windowId? := rfl
      rw [hids] at hnodup
      rw [hids, ← hpush]
      apply ih
      · rw [hpush]
        exact hnodup
      · exact fun e he => hcontainers e (mem_cons_of_mem _ he)
      · exact fun s hs => hall s hs

/-- Of the targets a criteria expression selects, the windows: if every window is selected and no
container stands for a window, the windows of the candidates. -/
theorem windows_matchingTargets (hnodup : (candidates.filterMap windowId?).Nodup)
    (hcontainers : ∀ e ∈ candidates.filterMap container?, e.1.window? = none)
    (hall : ∀ s ∈ candidates.filterMap window?,
      s ∈ selectedWindows urgentSince focused criteria candidates) :
    (matchingTargets urgentSince focused marksByContainer criteria candidates).filterMap
      CommandTarget.window? = candidates.filterMap windowId? := by
  have hids : candidates.filterMap windowId? = (candidates.filterMap window?).map (·.id) := by
    rw [map_filterMap]
    rfl
  unfold matchingTargets
  cases hurgent : criteria.urgent with
  | some order =>
    obtain ⟨chosen, hchosen, hnone⟩ := selectedWindows_of_urgent hurgent
    rw [hchosen] at hall
    rw [hids] at hnodup ⊢
    dsimp only
    rw [hchosen, filterMap_map]
    -- all windows are the chosen one, so there is one at most
    cases hw : candidates.filterMap window? with
    | nil => rw [hnone hw]; rfl
    | cons s rest =>
      rw [hw] at hall hnodup
      have hs := Option.mem_toList.mp (hall s mem_cons_self)
      have hrest : rest = [] := by
        refine eq_nil_iff_forall_not_mem.mpr fun r hr => ?_
        have hr' := Option.mem_toList.mp (hall r (mem_cons_of_mem _ hr))
        have he : r = s := Option.some.inj (hr'.symm.trans hs)
        exact (nodup_cons.mp hnodup).1 (he ▸ mem_map_of_mem hr)
      rw [hrest, show chosen = some s from hs]
      rfl
  | none =>
    have hnodup' : (([] : List CommandTarget).filterMap CommandTarget.window? ++
        candidates.filterMap windowId?).Nodup := hnodup
    refine filterMap_window?_foldl [] hnodup' hcontainers fun s hs => ?_
    have hsel := hall s hs
    unfold selectedWindows at hsel
    rw [hurgent] at hsel
    exact (mem_filter.mp hsel).2

end Matching

/-! ## 7. Every window, every container -/

section Complete

open Walk

variable (l : SoundLayout MappedId)

variable (ws : Workspace MappedId)

/-- The containers the walk lists on a workspace and those there are. -/
theorem length_workspaceContainers :
    ∃ rest, (workspaceContainers ws).length =
        (ws.tiling.tree.ipcTree.retainLeaves fun window =>
          !ws.isFloatingForIpc window).splitIds.length + rest ∧
      (ws.tiling.tree.containers ++
          ws.floating.treeEntries.flatMap (·.tree.tree.containers)).length =
        ws.tiling.tree.ipcTree.splitIds.length + rest := by
  refine ⟨(ws.floating.treeEntries.flatMap (·.tree.tree.containers)).length, ?_, ?_⟩
  · unfold workspaceContainers Workspace.ipcTilingTree
    rw [length_append, ((reverse_perm _).flatMap_right _).length_eq]
  · rw [length_append, ws.tiling.splitIds_ipcTree]

theorem workspaceContainers_subperm : (workspaceContainers ws).Subperm
    (ws.tiling.tree.containers ++ ws.floating.treeEntries.flatMap (·.tree.tree.containers)) := by
  unfold workspaceContainers Workspace.ipcTilingTree
  rw [← ws.tiling.splitIds_ipcTree]
  exact (IpcNode.splitIds_retainLeaves_sublist _).subperm.append
    ((reverse_perm _).flatMap_right _).subperm

/-- They are the same exactly where each of them keeps a window. -/
theorem workspaceContainers_perm_iff : (workspaceContainers ws).length =
      (ws.tiling.tree.containers ++
        ws.floating.treeEntries.flatMap (·.tree.tree.containers)).length ↔
    ws.tiling.tree.ipcTree.KeepsContainers fun window => !ws.isFloatingForIpc window := by
  obtain ⟨rest, hlisted, hall⟩ := length_workspaceContainers ws
  rw [hlisted, hall, Nat.add_right_cancel_iff, IpcNode.length_splitIds_retainLeaves]

theorem hiddenNodes_eq_nil (h : ∀ removed ∈ l.scratchpadTrees, removed.tree.windows = []) :
    hiddenNodes l = [] := by
  have hnodes : l.scratchpadTreeNodes = [] := by
    refine flatMap_eq_nil_iff.mpr fun removed hremoved => ?_
    rw [l.windowIds removed hremoved, h removed hremoved]
    exact filterMap_eq_nil_iff.mpr fun _ _ => rfl
  unfold hiddenNodes
  rw [hnodes]
  rfl

/-- **Criteria see every window, exactly if** no group in the scratchpad hides one and no tiled
container is left without a window: then the walk lists every window once and every container once,
and criteria that all windows satisfy select each of them once. -/
theorem candidates_complete (floating : MappedId → Bool) :
    let candidates := collectCandidates l.toLayoutState floating
    ((candidates.filterMap windowId?).Perm l.windows ∧
      (candidates.filterMap windowId?).Nodup ∧
      (candidates.filterMap container?).Perm
        (l.containers.map fun e => (.container e.1 e.2, e.2)) ∧
      ((candidates.filterMap container?).map (·.2)).Nodup ∧
      ∀ urgentSince focused marksByContainer criteria, (∀ snapshot ∈ candidates.filterMap window?,
          snapshot ∈ selectedWindows urgentSince focused criteria candidates) →
        ((matchingTargets urgentSince focused marksByContainer criteria candidates).filterMap
          CommandTarget.window?).Perm l.windows) ↔
    (∀ removed ∈ l.scratchpadTrees, removed.tree.windows = []) ∧
      ∀ ws ∈ l.allWorkspaces,
        ws.tiling.tree.ipcTree.KeepsContainers fun window => !ws.isFloatingForIpc window := by
  intro candidates
  obtain ⟨hids, hcontainers⟩ := collectCandidates_spec l floating
  have hcontainersEq : l.containers.map (fun e => (CommandTarget.container e.1 e.2, e.2)) =
      l.allWorkspaces.flatMap fun ws =>
        (ws.tiling.tree.containers ++ ws.floating.treeEntries.flatMap (·.tree.tree.containers)).map
          fun node => (.container ws.id node, node) := by
    unfold LayoutState.containers
    rw [map_flatMap]
    exact flatMap_congr fun ws _ => map_map
  constructor
  · rintro ⟨hwindows, -, hperm, -⟩
    -- the walk lists too few windows if a hidden group has one
    have hgroups : ∀ removed ∈ l.scratchpadTrees, removed.tree.windows = [] := by
      have hlength := (hids.symm.trans hwindows).length_eq
      unfold LayoutState.windows LayoutState.scratchpadWindows at hlength
      simp only [length_append] at hlength
      exact flatMap_eq_nil_iff.mp (eq_nil_of_length_eq_zero (by omega))
    refine ⟨hgroups, fun ws hws => (workspaceContainers_perm_iff ws).mp ?_⟩
    have hlength := hperm.length_eq
    rw [hcontainers, hiddenNodes_eq_nil l hgroups, append_nil, hcontainersEq] at hlength
    have heach := IpcNode.length_eq_of_flatMap (fun ws _ => ?_) hlength ws hws
    · rwa [length_map, length_map] at heach
    · rw [length_map, length_map]
      exact (workspaceContainers_subperm ws).length_le
  · rintro ⟨hgroups, hkeeps⟩
    have hwindows : (candidates.filterMap windowId?).Perm l.windows := by
      unfold LayoutState.windows LayoutState.scratchpadWindows
      rw [flatMap_eq_nil_iff.mpr hgroups, append_nil]
      exact hids
    have hnodup := hwindows.nodup_iff.mpr l.windows_nodup
    have hperm : (candidates.filterMap container?).Perm
        (l.containers.map fun e => (.container e.1 e.2, e.2)) := by
      rw [hcontainers, hiddenNodes_eq_nil l hgroups, append_nil, hcontainersEq]
      refine Perm.flatMap_left _ fun ws hws => Perm.map _ ?_
      refine (workspaceContainers_subperm ws).perm_of_length_le ?_
      exact ((workspaceContainers_perm_iff ws).mpr (hkeeps ws hws)).ge
    refine ⟨hwindows, hnodup, hperm, ?_, ?_⟩
    · rw [(hperm.map _).nodup_iff, map_map]
      exact l.containers_nodup
    intro urgentSince focused marksByContainer criteria hall
    rw [windows_matchingTargets hnodup ?_ hall]
    · exact hwindows
    · intro e he
      obtain ⟨c, -, rfl⟩ := mem_map.mp (hperm.mem_iff.mp he)
      rfl

/-- A window tiled and two in a floating group. -/
theorem candidates_complete_shown :
    let candidates := collectCandidates groupShown.toLayoutState fun _ => false
    (candidates.filterMap windowId?).Perm [7, 8, 9] ∧
    ((candidates.filterMap container?).map (·.2)).Nodup := by
  have hnone : groupShown.scratchpadTrees = [] := rfl
  have hgroups : ∀ removed ∈ groupShown.scratchpadTrees, removed.tree.windows = [] := by
    rw [hnone]
    exact forall_mem_nil _
  have hkeeps : ∀ ws ∈ groupShown.allWorkspaces, ws.tiling.tree.ipcTree.KeepsContainers
      fun window => !ws.isFloatingForIpc window := by
    decide +kernel
  have h := (candidates_complete groupShown fun _ => false).mpr ⟨hgroups, hkeeps⟩
  have hwindows : groupShown.windows = [7, 8, 9] := by decide +kernel
  exact ⟨hwindows ▸ h.1, h.2.2.2.1⟩

/-- **A hidden group is not seen**: its windows are no candidates, only its nodes are. -/
theorem hidden_group_missed :
    groupHidden.windows = [8, 9, 7] ∧
    (collectCandidates groupHidden.toLayoutState fun _ => false).filterMap windowId? = [7] ∧
    (collectCandidates groupHidden.toLayoutState fun _ => false).filterMap container? =
      [(.container 1 0, 0), (.window 8, 3), (.window 8, 2), (.window 8, 4)] ∧
    matchingTargets (fun _ => none) none ∅
      { urgent := none, accepts := fun _ _ => true, acceptsContainer := fun _ _ => false }
      (collectCandidates groupHidden.toLayoutState fun _ => false) = [.window 7] := by
  decide +kernel

end Complete

end Swayward
