/-
  File:      Swayward/Keeps/Safety.lean
  Subject:   WHAT HOLDS IN EVERY REACHABLE WORLD, and which steps the code lets through that break it.

  The results of this file are read off `Good.run`:

  * every arena is a well-formed tree (`wellFormed_run`);
  * no node lies deeper than `maxTreeDepth` (`depth_run`);
  * without a fullscreen node nothing is excluded from its split (`unmarked_run`);
  * the focus and the side tables name nodes (`tables_run`);
  * the fullscreen node is the only one, and what is maximized is a leaf (`modes_run`);
  * the windows are those that came and did not go (`conserved_run`).

  Each of the first four comes with a run that the code accepts, whose last step breaks the property.
-/
import Swayward.Keeps.WellFormed

namespace Swayward

open Arena Forest TilingTree

variable {I : Type}

namespace World

variable [DecidableEq I]

/-! ## 1. Well-formed trees -/

/-- **Every tree of a reachable world is well formed**, and a walk from its root meets every node
    once. -/
theorem wellFormed_run (steps : List (Step I))
    (hsteps : Along (fun w step => step.sane w = true) { counter := 0 } steps) :
    ∀ t ∈ (run steps).trees, t.toArena.WellFormed ∧ (t.depthFirst t.root).Nodup ∧
      ∀ n, n ∈ t.depthFirst t.root ↔ t.contains n = true := by
  have h := good_of_sane hsteps
  intro t ht
  obtain ⟨r, hok, -⟩ := (h.trees t ht).ok
  exact ⟨hok.wellFormed, hok.wellFormed.walk⟩

/-- A window is opened in the tree at `i`, next to the focus. -/
def openWindow (i window : ℕ) : Step ℕ :=
  .tile i (.addTileWithActivation { window := window } .focused true)

/-- A tree with two windows. -/
def openTwo : List (Step ℕ) := [.newTree {}, openWindow 0 7, openWindow 0 8]

/-- The second window is split and gets company in its container, which is then carried to another
    tree with a window. -/
def carryContainer : List (Step ℕ) :=
  openTwo ++ [.quiet 0 (.layout (.splitFocused .splitV)), openWindow 0 9, .newTree {},
    openWindow 1 10, .detach 0 3, .attach 1 0 none true]

theorem wellFormed_run_carried : (run carryContainer).trees.map (·.held) = [[7], [10, 8, 9]] ∧
    ∀ t ∈ (run carryContainer).trees, t.toArena.WellFormed ∧ (t.depthFirst t.root).Nodup ∧
      ∀ n, n ∈ t.depthFirst t.root ↔ t.contains n = true :=
  ⟨by decide +kernel, wellFormed_run carryContainer (by decide +kernel)⟩

/-- The root of an empty workspace is moved next to a window. -/
def moveEmptyRoot : List (Step ℕ) :=
  [.newTree {}, .newTree {}, openWindow 1 7, .detach 0 0, .attach 1 0 none true]

/-- A tabbed empty workspace is focused as a whole and given another layout. -/
def layoutEmptyRoot : List (Step ℕ) :=
  [.newTree {}, .quiet 0 (.layout (.setLayout 0 .tabbed)), .quiet 0 (.focus .focusRoot),
    .quiet 0 (.layout (.setFocusedLayout .splitV))]

omit [DecidableEq I] in
theorem not_wellFormed_of_empty {t : TilingTree I} {p : NodeId}
    (hp : (t.splitAt p).map (·.children) = some []) (hroot : p ≠ t.root) :
    ¬ t.toArena.WellFormed := by
  obtain ⟨s, hs, hc⟩ := Option.map_eq_some_iff.mp hp
  exact fun h => h.nonempty p s hs hroot hc

/-- An empty split is left among the children of the root. -/
theorem moveEmptyRoot_not_wellFormed :
    (∃ t ∈ (run moveEmptyRoot).trees, ¬ t.toArena.WellFormed) ∧
      ∃ t ∈ (run layoutEmptyRoot).trees, ¬ t.toArena.WellFormed := by
  have h₁ : (run moveEmptyRoot).trees.any (fun t =>
      (t.splitAt 3).map (·.children) = some [] && 3 != t.root) = true := by decide +kernel
  have h₂ : (run layoutEmptyRoot).trees.any (fun t =>
      (t.splitAt 1).map (·.children) = some [] && 1 != t.root) = true := by decide +kernel
  simp only [List.any_eq_true, Bool.and_eq_true, decide_eq_true_eq, bne_iff_ne] at h₁ h₂
  obtain ⟨t, ht, hempty, hne⟩ := h₁
  obtain ⟨u, hu, hempty', hne'⟩ := h₂
  exact ⟨⟨t, ht, not_wellFormed_of_empty hempty hne⟩, u, hu, not_wellFormed_of_empty hempty' hne'⟩

/-! ## 2. Depth -/

/-- **No node lies deeper than the limit**, if no step carries a subtree below a place it does not
    fit. -/
theorem depth_run (steps : List (Step I))
    (hsteps : Along (fun w step => step.sane w = true ∧ step.fits w = true) { counter := 0 } steps) :
    ∀ t ∈ (run steps).trees, ∀ n, t.contains n = true → (t.ancestors n).length ≤ maxTreeDepth := by
  have h : Good True False (run steps) := good_start.run steps (hsteps.mono fun _ _ hs =>
    ⟨hs.1, fun _ => hs.2, False.elim⟩)
  intro t ht n hn
  obtain ⟨r, hok, hdeep⟩ := (h.trees t ht).ok
  exact ((hok.climbs no_unlinked).length_ancestors_le n).trans (hdeep trivial n hn)

theorem depth_run_carried : (run carryContainer).trees.map (·.held) = [[7], [10, 8, 9]] ∧
    ∀ t ∈ (run carryContainer).trees, ∀ n, t.contains n = true →
      (t.ancestors n).length ≤ maxTreeDepth :=
  ⟨by decide +kernel, depth_run carryContainer (by decide +kernel)⟩

/-- A workspace is wrapped up to the limit and moved as a whole next to a window of another one. -/
def moveDeepRoot : List (Step ℕ) :=
  [.newTree {}, openWindow 0 7] ++ List.replicate 63 (.quiet 0 (.layout .wrapWorkspaceChildren)) ++
    [.newTree {}, openWindow 1 8, .detach 0 0, .attach 1 0 none true]

theorem moveDeepRoot_too_deep : ∃ t ∈ (run moveDeepRoot).trees, ∃ n, t.contains n = true ∧
    maxTreeDepth < (t.ancestors n).length := by
  have h : (run moveDeepRoot).trees.any (fun t =>
      t.contains 1 && decide (maxTreeDepth < (t.ancestors 1).length)) = true := by decide +kernel
  simp only [List.any_eq_true, Bool.and_eq_true, decide_eq_true_eq] at h
  obtain ⟨t, ht, hn, hdeep⟩ := h
  exact ⟨t, ht, 1, hn, hdeep⟩

/-! ## 3. Marks -/

/-- **Without a fullscreen node no leaf is marked**, so nothing is excluded from its split and no
    child of a split gets an empty share. -/
theorem unmarked_run (steps : List (Step I))
    (hsteps : Along (fun w step => step.sane w = true ∧ step.holds w) { counter := 0 } steps) :
    ∀ t ∈ (run steps).trees, t.fullscreenNode = none →
      t.mappedUnderFullscreen = ∅ ∧ t.movedUnderFullscreen = ∅ ∧ t.splitExcluded = ∅ ∧
        ∀ p s, t.splitAt p = some s →
          ∀ x ∈ visibleShares t.splitExcluded s.children s.percents, 0 < x := by
  have h : Good False True (run steps) := good_start.run steps (hsteps.mono fun _ _ hs =>
    ⟨hs.1, False.elim, fun _ => hs.2⟩)
  intro t ht hfs
  have hinv := h.trees t ht
  have hmarks := hinv.marks trivial (fullscreenNode_none.mp hfs)
  have hmapped : t.mappedUnderFullscreen = ∅ :=
    Finset.eq_empty_of_forall_notMem fun n hn => hmarks n (.inl hn)
  have hmoved : t.movedUnderFullscreen = ∅ :=
    FinMap.eq_empty_of_forall_notMem fun n hn => hmarks n (.inr hn)
  have hexcluded : t.splitExcluded = ∅ := by
    unfold splitExcluded
    rw [hmapped, hmoved, hfs]
    split <;> rfl
  refine ⟨hmapped, hmoved, hexcluded, fun p s hs x hx => ?_⟩
  obtain ⟨r, hok, -⟩ := hinv.ok
  rw [hexcluded, visibleShares, if_pos rfl] at hx
  exact ((hok.sound hs).shares trivial).1 x hx

omit [DecidableEq I] in
/-- A leaf that is not the last one of its container may go. -/
theorem heldBut_of_all {w : World I} {t : TilingTree I} {i : ℕ} {id : NodeId}
    (ht : w.tree i = some t)
    (h : (w.tree i).all (fun t => t.pendingModes.keys.all fun n =>
      (t.children n).any fun m => m != id && (t.tile m).isSome) = true) : t.HeldBut id := by
  rw [ht, Option.all_some, List.all_eq_true] at h
  intro n hn
  obtain ⟨mode, hmode, -⟩ := Option.bind_eq_some_iff.mp
    (Option.isSome_iff_exists.mp hn).choose_spec
  have hkey : n ∈ t.pendingModes.keys := AList.mem_keys.mp (FinMap.mem_iff_lookup.mpr ⟨_, hmode⟩)
  obtain ⟨m, hm, hleaf⟩ := List.any_eq_true.mp (h n hkey)
  rw [Bool.and_eq_true, bne_iff_ne] at hleaf
  exact .inr (.inr ⟨m, hleaf.1, Below.of_kid hm, hleaf.2⟩)

/-- A container of two windows is fullscreen while a window opens beside it and one of the two is
    closed; then it is fullscreen no more. -/
def endFullscreen : List (Step ℕ) :=
  openTwo ++ [.quiet 0 (.layout (.splitFocused .splitV)), openWindow 0 9,
    .quiet 0 (.mode (.setNodeFullscreen 3 (some .workspace))),
    .tile 0 (.addTileWithActivation { window := 10 } (.node 1) true), .tile 0 (.removeTileNode 4),
    .quiet 0 (.mode (.setNodeFullscreen 3 none))]

/-- The window that opened beside it was marked until then. -/
theorem unmarked_run_ended :
    (run endFullscreen.dropLast).trees.map (fun t => (t.fullscreenNode, t.mappedUnderFullscreen)) =
        [(some 3, {5})] ∧
      (run endFullscreen).trees.map (fun t => (t.fullscreenNode, t.held)) = [(none, [7, 10, 8])] ∧
      ∀ t ∈ (run endFullscreen).trees, t.fullscreenNode = none →
        t.mappedUnderFullscreen = ∅ ∧ t.movedUnderFullscreen = ∅ ∧ t.splitExcluded = ∅ ∧
          ∀ p s, t.splitAt p = some s →
            ∀ x ∈ visibleShares t.splitExcluded s.children s.percents, 0 < x :=
  ⟨by decide +kernel, by decide +kernel, unmarked_run endFullscreen
    ⟨⟨by decide +kernel, trivial⟩, ⟨by decide +kernel, fun _ _ => trivial⟩,
      ⟨by decide +kernel, fun _ _ => trivial⟩, ⟨by decide +kernel, fun _ _ => trivial⟩,
      ⟨by decide +kernel, fun _ _ => trivial⟩, ⟨by decide +kernel, fun _ _ => trivial⟩,
      ⟨by decide +kernel, fun _ _ => trivial⟩,
      -- the container keeps its other window
      ⟨by decide +kernel, fun _ ht => .inr (heldBut_of_all ht (by decide +kernel))⟩,
      ⟨by decide +kernel, fun _ _ => trivial⟩, trivial⟩⟩

/-- A window is opened beside a fullscreen container, and then the only window of that container is
    closed. -/
def closeLastOfFullscreen : List (Step ℕ) :=
  [.newTree {}, openWindow 0 7, openWindow 0 8, .quiet 0 (.layout (.splitFocused .splitV)),
    .quiet 0 (.mode (.setNodeFullscreen 3 (some .workspace))),
    .tile 0 (.addTileWithActivation { window := 9 } (.node 1) true), .tile 0 (.removeTileNode 2)]

/-- The second window keeps its mark, and with it a share of nothing. -/
theorem closeLastOfFullscreen_marked : ∃ t ∈ (run closeLastOfFullscreen).trees,
    t.fullscreenNode = none ∧ t.mappedUnderFullscreen ≠ ∅ ∧
      ∃ s, t.splitAt 0 = some s ∧ 0 ∈ visibleShares t.splitExcluded s.children s.percents := by
  have h : (run closeLastOfFullscreen).trees.any (fun t =>
      t.fullscreenNode = none && t.mappedUnderFullscreen ≠ ∅ && (t.splitAt 0).any fun s =>
        decide (0 ∈ visibleShares t.splitExcluded s.children s.percents)) = true := by decide +kernel
  simp only [List.any_eq_true, Bool.and_eq_true, decide_eq_true_eq, Option.any_eq_true] at h
  obtain ⟨t, ht, ⟨hfs, hmapped⟩, s, hs, hzero⟩ := h
  exact ⟨t, ht, hfs, hmapped, s, hs, hzero⟩

/-! ## 4. Focus and side tables -/

/-- **The focus and the side tables are in order in every reachable world.** -/
theorem tables_run (steps : List (Step I))
    (hsteps : Along (fun w step => step.sane w = true) { counter := 0 } steps) :
    ∀ t ∈ (run steps).trees, t.TablesInOrder := by
  have h := good_of_sane hsteps
  exact fun t ht => (h.trees t ht).tablesInOrder trivial trivial rfl

theorem tables_run_ended :
    (run endFullscreen).trees.map (fun t => (t.focus, t.focusHistory)) =
        [(some 2, [2, 3, 1, 5])] ∧
      ∀ t ∈ (run endFullscreen).trees, t.TablesInOrder :=
  ⟨by decide +kernel, tables_run endFullscreen (by decide +kernel)⟩

/-- The empty split of `moveEmptyRoot` is made fullscreen. -/
theorem moveEmptyRoot_unfocused : ∃ t ∈ (run (moveEmptyRoot ++
    [.quiet 1 (.mode (.setNodeFullscreen 3 (some .workspace)))])).trees,
    t.focus = none ∧ t.windows ≠ [] := by
  have h : (run (moveEmptyRoot ++ [.quiet 1 (.mode (.setNodeFullscreen 3 (some .workspace)))])
      ).trees.any (fun t => t.focus = none && t.windows ≠ []) = true := by decide +kernel
  simpa only [List.any_eq_true, Bool.and_eq_true, decide_eq_true_eq] using h

/-! ## 5. Modes -/

/-- **The fullscreen node is the only node with a fullscreen mode**, and only leaves are maximized. So
    `fullscreenNode` does not depend on the order of its hash map. -/
theorem modes_run (steps : List (Step I))
    (hsteps : Along (fun w step => step.sane w = true) { counter := 0 } steps) :
    ∀ t ∈ (run steps).trees,
      (∀ n, t.fullscreenNode = some n ↔ (t.fullscreenMode n).isSome = true) ∧
        ∀ n mode, t.pendingModes.lookup n = some mode → mode.maximized = true →
          (t.tile n).isSome = true := by
  have h := good_of_sane hsteps
  intro t ht
  have hmodes := (h.trees t ht).modes trivial
  refine ⟨fun n => ⟨fullscreenNode_some, fun hn => ?_⟩, hmodes.leaf⟩
  cases hfs : t.fullscreenNode with
  | none => simp [fullscreenNode_none.mp hfs n] at hn
  | some m => rw [hmodes.one m n (by simp) (by simp) (fullscreenNode_some hfs) hn]

/-- Of two windows one is made fullscreen, then the other. -/
def fullscreenTwo : List (Step ℕ) :=
  openTwo ++ [.quiet 0 (.mode (.setNodeFullscreen 1 (some .workspace))),
    .quiet 0 (.mode (.setNodeFullscreen 2 (some .workspace)))]

theorem modes_run_two : (run fullscreenTwo).trees.map (·.fullscreenNode) = [some 2] ∧
    ∀ t ∈ (run fullscreenTwo).trees,
      (∀ n, t.fullscreenNode = some n ↔ (t.fullscreenMode n).isSome = true) ∧
        ∀ n mode, t.pendingModes.lookup n = some mode → mode.maximized = true →
          (t.tile n).isSome = true :=
  ⟨by decide +kernel, modes_run fullscreenTwo (by decide +kernel)⟩

/-! ## 6. Windows -/

/-- **No run loses or duplicates a window**, over any number of trees and subtrees in transit: those
    that came are those that are there and those that were removed. -/
theorem conserved_run (steps : List (Step I))
    (hsteps : Along (fun w step => step.sane w = true) { counter := 0 } steps) :
    (run steps).windows.Nodup ∧ (history { counter := 0 } steps).1.Perm
      ((run steps).windows ++ (history { counter := 0 } steps).2) := by
  have h := good_start.history steps (hsteps.mono fun _ _ hs =>
    (⟨hs, False.elim, False.elim⟩ : _ ∧ (False → _) ∧ (False → _)))
  exact ⟨h.1.distinct, h.2⟩

/-- Of two windows one is carried to another tree, and the other one is closed. -/
def carryOne : List (Step ℕ) :=
  openTwo ++ [.newTree {}, .detach 0 1, .attach 1 0 none true, .tile 0 (.removeTile 8)]

theorem conserved_run_carryOne : (run carryOne).windows = [7] ∧
    (run carryOne).windows.Nodup ∧ (history { counter := 0 } carryOne).1.Perm
      ((run carryOne).windows ++ (history { counter := 0 } carryOne).2) :=
  ⟨by decide +kernel, conserved_run carryOne (by decide +kernel)⟩

end World

end Swayward
