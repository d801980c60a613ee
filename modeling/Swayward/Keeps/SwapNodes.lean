/-
  File:      Swayward/Keeps/SwapNodes.lean
  Subject:   SWAPPING TWO NODES, AND SWAPPING THEM BACK.

  `swap_nodes` writes two child lists, two parent links and two fullscreen modes. What comes out is
  the tree read through the transposition of the two ids (`Exchanged`), in every arrangement of the
  two places. A transposition is its own inverse, so a second swap restores the tree, unless it is
  refused: the depth check of the second swap asks whether the subtrees fit where they once stood,
  and in a tree that is already too deep they need not.
-/
import Swayward.Layout.SoundTree

namespace Swayward

variable {I : Type}

open Forest Arena Positions

namespace TilingTree

variable {c : Ctx I} {t u v : TilingTree I} {first second n : NodeId}
variable {r : NodeId → ℕ} {g : Prop}

/-! ## 1. What a swap does -/

/-- `u` is `t` with the places of two nodes exchanged: each split has its layout, its percents and
    its other children, and the splits of the two subtrees are as they were. -/
structure Exchanged (t u : TilingTree I) (first second : NodeId) : Prop where
  splitAt : ∀ n, u.splitAt n = (t.splitAt n).map (exchange first second)
  parentOf : ∀ n, u.parentOf n = t.parentOf (Equiv.swap first second n)
  mode : ∀ n, u.fullscreenMode n = t.fullscreenMode (Equiv.swap first second n)
  window : ∀ n, (u.tile n).map (·.window) = (t.tile n).map (·.window)
  inside : ∀ n, Below t.children first n ∨ Below t.children second n → u.splitAt n = t.splitAt n

/-- **Exchanging twice restores every split, every parent link and every mode.** -/
theorem Exchanged.twice (h : Exchanged t u first second) (h' : Exchanged u v first second)
    (n : NodeId) : v.splitAt n = t.splitAt n ∧ v.parentOf n = t.parentOf n ∧
      v.fullscreenMode n = t.fullscreenMode n := by
  refine ⟨?_, ?_, ?_⟩
  · have hself : ∀ s, exchange first second (exchange first second s) = s := fun s => by
      simp [exchange, Function.comp_def]
    rw [h'.splitAt, h.splitAt]
    cases t.splitAt n with
    | none => rfl
    | some s => exact congrArg some (hself s)
  · rw [h'.parentOf, h.parentOf, Equiv.swap_apply_self]
  · rw [h'.mode, h.mode, Equiv.swap_apply_self]

/-- A node below the root has a place in its parent's list. -/
theorem exists_place {a : Arena I} (h : Ok g ∅ ∅ r a) (hn : a.contains n = true)
    (hroot : n ≠ a.root) :
    ∃ p i, a.parentOf n = some p ∧ a.childIndex p n = some i := by
  obtain ⟨p, hp⟩ := h.home hn hroot (Set.notMem_empty n)
  obtain ⟨s, hs, hmem⟩ := splitAt_of_mem_children hp
  obtain ⟨i, hi⟩ := exists_idxOf? hmem
  exact ⟨p, i, h.kid_parent hp, Option.bind_eq_some_iff.mpr ⟨s, hs, hi⟩⟩

theorem not_below_of_containsNode (h : Ok g ∅ ∅ r t.toArena) {x y : NodeId}
    (e : t.containsNode x y = false) : ¬ Below t.children x y := fun hb => by
  rw [(h.containsNode_iff no_unlinked).mpr hb] at e
  cases e

/-- **A swap that is not refused exchanges the two places.** -/
theorem swapNodes_of_ok (h : Inv c ∅ t) (hswap : t.checkSwappable first second = .ok ()) :
    ∃ u, t.swapNodes first second = (u, .ok ()) ∧ Exchanged t u first second ∧
      Ok c.full ∅ ∅ (swapRank t.children t.nodeDepth first second) u.toArena ∧
      ∀ n, u.contains n = t.contains n := by
  obtain ⟨hok, -⟩ := h.exact
  obtain ⟨hf, hs, hne, hfs, hsf, -⟩ := checkSwappable_ok hswap
  have hfs := not_below_of_containsNode hok hfs
  have hsf := not_below_of_containsNode hok hsf
  -- the root is above every node, so neither is the root
  obtain ⟨p, i, hp, hi⟩ := exists_place hok hf fun e => hfs (e ▸ hok.below_root hs)
  obtain ⟨q, j, hq, hj⟩ := exists_place hok hs fun e => hsf (e ▸ hok.below_root hf)
  have hsame := sameNodes_swapArena (a := t.toArena) first p i second q j
  have hsplit := splitAt_swapArena hok hi hj
  unfold swapNodes
  simp only [hswap, hp, hq, hi, hj]
  generalize t.focusAfterSwap first p second q = focus
  set t1 : TilingTree I := { t with toArena := swapArena t.toArena first p i second q j }
  set t2 : TilingTree I := if (t1.swapFullscreenModes first second).focus = focus then
    t1.swapFullscreenModes first second else (t1.swapFullscreenModes first second).setFocusId focus
    with ht2
  have hmodes : t2.pendingModes = (t1.swapFullscreenModes first second).pendingModes := by
    rw [ht2]
    split
    · rfl
    · cases focus <;> rfl
  have harena : t2.toArena = swapArena t.toArena first p i second q j := by
    have e : (t1.swapFullscreenModes first second).toArena = t1.toArena := by
      unfold swapFullscreenModes
      rw [setPendingFullscreen_eq, setPendingFullscreen_eq]
    rw [ht2]
    split
    · exact e
    · rw [toArena_setFocusId, e]
  refine ⟨_, rfl, ⟨fun n => ?_, fun n => ?_, fun n => ?_, fun n => ?_, fun n hn => ?_⟩, ?_, ?_⟩
  · rw [splitAt_requestWindowSizes, harena, hsplit]
  · rw [parentOf_requestWindowSizes, harena, parentOf_swapArena hf hs hne]
    by_cases ef : n = first
    · rw [if_pos ef, ef, Equiv.swap_apply_left, hq]
    · by_cases es : n = second
      · rw [if_neg ef, if_pos es, es, Equiv.swap_apply_right, hp]
      · rw [if_neg ef, if_neg es, Equiv.swap_apply_of_ne_of_ne ef es]
  · have hmode : t2.fullscreenMode n = (t1.swapFullscreenModes first second).fullscreenMode n :=
      congrArg (fun modes => (modes.lookup n).bind (·.fullscreen)) hmodes
    exact hmode.trans (fullscreenMode_swapFullscreenModes hne n)
  · rw [window_requestWindowSizes, harena, hsame.tile]
  · -- a place inside one of the subtrees is neither node's place
    rw [splitAt_requestWindowSizes, harena, hsplit]
    cases e : t.splitAt n with
    | none => rfl
    | some s =>
      have hkid : ∀ {x}, x ∈ s.children → x ∈ t.children n := fun hx => children_of_splitAt e ▸ hx
      refine congrArg some (exchange_of_notMem (fun hx => ?_) fun hx => ?_)
      · rcases hn with hn | hn
        · exact hok.ranked.not_below_kid (hkid hx) hn
        · exact hsf (hn.step (hkid hx))
      · rcases hn with hn | hn
        · exact hfs (hn.step (hkid hx))
        · exact hok.ranked.not_below_kid (hkid hx) hn
  · refine (ok_swapArena hok hi hj hfs hsf).congr (fun n => ?_) (fun n => ?_) (fun n => ?_) ?_ ?_
    · rw [contains_requestWindowSizes, harena]
    · rw [parentOf_requestWindowSizes, harena]
    · rw [splitAt_requestWindowSizes, harena]
    · exact (congrArg Arena.root harena : t2.root = _)
    · exact (congrArg Arena.counter harena : t2.counter = _).ge
  · intro n
    rw [contains_requestWindowSizes, harena, hsame.contains]

/-! ## 2. Swapping back -/

/-- What `check_swappable` refuses: an unknown node, a node with itself, a node with one inside it,
    and a swap that would put a subtree too deep. -/
def Refused (t : TilingTree I) (first second : NodeId) : Prop :=
  t.contains first = false ∨ t.contains second = false ∨ first = second ∨
    Below t.children first second ∨ Below t.children second first ∨
    t.fitsAt first (t.subtreeHeight second) = false ∨
    t.fitsAt second (t.subtreeHeight first) = false

theorem checkSwappable_ok_iff (h : Ok g ∅ ∅ r t.toArena) :
    t.checkSwappable first second = .ok () ↔ ¬ t.Refused first second := by
  unfold checkSwappable Refused
  rw [← h.containsNode_iff no_unlinked, ← h.containsNode_iff no_unlinked]
  split_ifs with h1 h2 h3 h4 <;> grind

/-- Every node is below the root, so the root cannot be swapped. -/
theorem refused_root (h : Ok g ∅ ∅ r t.toArena)
    (hroot : first = t.root ∨ second = t.root) : t.Refused first second := by
  unfold Refused
  rcases hroot with rfl | rfl
  · cases hs : t.contains second with
    | false => exact .inr (.inl rfl)
    | true => exact .inr (.inr (.inr (.inl (h.below_root hs))))
  · cases hf : t.contains first with
    | false => exact .inl rfl
    | true => exact .inr (.inr (.inr (.inr (.inl (h.below_root hf)))))

/-- Below a node, a tree with the same splits there has nothing else. -/
theorem below_of_inside {x m : NodeId} (hin : ∀ m, Below t.children x m → u.splitAt m = t.splitAt m)
    (hm : Below u.children x m) : Below t.children x m := by
  induction hm with
  | refl => exact Below.refl x
  | tail hb hc ih =>
    rename_i p y
    refine ih.step ?_
    have e : u.children p = t.children p := by simp only [Arena.children, hin p ih]
    exact e ▸ hc

theorem subtreeHeight_of_inside {x : NodeId} (hcon : ∀ n, u.contains n = t.contains n)
    (hin : ∀ m, Below t.children x m → u.splitAt m = t.splitAt m) :
    u.subtreeHeight x = t.subtreeHeight x := by
  have hsize : u.size = t.size := (size_le_of_contains fun n hn => (hcon n).symm.trans hn).antisymm
      (size_le_of_contains fun n hn => (hcon n).trans hn)
  unfold subtreeHeight
  rw [hsize, heightFrom_eq_fold, heightFrom_eq_fold]
  refine fold_congr (fun m hm => ?_) fun m _ => rfl
  simp only [Arena.children, hin m hm]

/-- **The way back is open**, if both subtrees fit at the places they had. -/
theorem checkSwappable_back (h : Inv c ∅ t) (hswap : t.checkSwappable first second = .ok ())
    (hex : Exchanged t u first second)
    (hu : Ok c.full ∅ ∅ (swapRank t.children t.nodeDepth first second) u.toArena)
    (hcon : ∀ n, u.contains n = t.contains n)
    (hfirst : t.fitsAt first (t.subtreeHeight first) = true)
    (hsecond : t.fitsAt second (t.subtreeHeight second) = true) :
    u.checkSwappable first second = .ok () := by
  have hrefused := (checkSwappable_ok_iff h.exact.1).mp hswap
  unfold Refused at hrefused
  simp only [not_or, Bool.not_eq_false] at hrefused
  obtain ⟨hf, hs, hne, hfs, hsf, -⟩ := hrefused
  have hin := hex.inside
  have hrank : ∀ n, u.nodeDepth n ≤ swapRank t.children t.nodeDepth first second n :=
    (hu.climbs no_unlinked).nodeDepth_le
  -- each node is no deeper than the other one was
  have hd1 : u.nodeDepth first ≤ t.nodeDepth second := by
    refine (hrank first).trans ?_
    rw [swapRank, if_pos (Below.refl first)]
    omega
  have hd2 : u.nodeDepth second ≤ t.nodeDepth first := by
    refine (hrank second).trans ?_
    rw [swapRank, if_neg hfs, if_pos (Below.refl second)]
    omega
  have hh1 := subtreeHeight_of_inside (x := first) hcon fun m hm => hin m (.inl hm)
  have hh2 := subtreeHeight_of_inside (x := second) hcon fun m hm => hin m (.inr hm)
  have hf' : t.nodeDepth first + t.subtreeHeight first ≤ maxTreeDepth + 1 :=
    of_decide_eq_true hfirst
  have hs' : t.nodeDepth second + t.subtreeHeight second ≤ maxTreeDepth + 1 :=
    of_decide_eq_true hsecond
  rw [checkSwappable_ok_iff hu]
  unfold Refused
  simp only [not_or, Bool.not_eq_false, fitsAt, decide_eq_true_eq, hcon, hh1, hh2]
  refine ⟨hf, hs, hne, fun hb => hfs ?_, fun hb => hsf ?_, by omega, by omega⟩
  · exact below_of_inside (fun m hm => hin m (.inl hm)) hb
  · exact below_of_inside (fun m hm => hin m (.inr hm)) hb

/-- **A swap is refused and changes nothing, or it exchanges exactly the two places**, and the same
    swap takes it back wherever both subtrees fit at the places they had. -/
theorem swapNodes_exchanges (t : TilingTree I) (h : t.WellFormed) (first second : NodeId) :
    (first = t.root ∨ second = t.root → t.Refused first second) ∧
      ((t.Refused first second ∧ ∃ e, t.swapNodes first second = (t, .error e)) ∨
        (¬ t.Refused first second ∧ ∃ u, t.swapNodes first second = (u, .ok ()) ∧
          Exchanged t u first second ∧ (t.fitsAt first (t.subtreeHeight first) = true →
            t.fitsAt second (t.subtreeHeight second) = true →
            ∃ v, u.swapNodes first second = (v, .ok ()) ∧
              ∀ n, v.splitAt n = t.splitAt n ∧ v.parentOf n = t.parentOf n ∧
                v.fullscreenMode n = t.fullscreenMode n))) := by
  have hok := h.inv.exact.1
  refine ⟨refused_root hok, ?_⟩
  cases hswap : t.checkSwappable first second with
  | error e =>
    refine .inl ⟨?_, e, by unfold swapNodes; rw [hswap]⟩
    by_contra hr
    rw [(checkSwappable_ok_iff hok).mpr hr] at hswap
    cases hswap
  | ok =>
    obtain ⟨u, hu, hex, hoku, hcon⟩ := swapNodes_of_ok h.inv hswap
    refine .inr ⟨(checkSwappable_ok_iff hok).mp hswap, u, hu, hex, fun hfirst hsecond => ?_⟩
    have hinv : Inv (World.ctx False False t) ∅ u := by
      have := h.inv.swapNodes first second
      rwa [hu] at this
    obtain ⟨v, hv, hex', -⟩ := swapNodes_of_ok hinv
      (checkSwappable_back h.inv hswap hex hoku hcon hfirst hsecond)
    exact ⟨v, hv, hex.twice hex'⟩

theorem swapNodes_exchanges_container :
    ∃ u v, (workspaceTree 0).swapNodes 2 4 = (u, .ok ()) ∧ Exchanged (workspaceTree 0) u 2 4 ∧
      u.swapNodes 2 4 = (v, .ok ()) ∧ ∀ n, v.splitAt n = (workspaceTree 0).splitAt n ∧
        v.parentOf n = (workspaceTree 0).parentOf n ∧
        v.fullscreenMode n = (workspaceTree 0).fullscreenMode n := by
  have hok : ((workspaceTree 0).swapNodes 2 4).2.isOk = true := by decide +kernel
  rcases (swapNodes_exchanges (workspaceTree 0) (wellFormed_workspaceTree (by decide +kernel))
    2 4).2 with ⟨-, e, he⟩ | ⟨-, u, hu, hex, hback⟩
  · rw [he] at hok
    cases hok
  · obtain ⟨v, hv, hsame⟩ := hback (by decide +kernel) (by decide +kernel)
    exact ⟨u, v, hu, hex, hv, hsame⟩

/-- The tree of a workspace that took over one nested up to the limit. -/
def deepTree : TilingTree ℕ := (SoundTree.ofRun World.moveDeepRoot (by decide +kernel) 1).tree

/-- A container two levels down is swapped with a window one level down; on the way back it would
    again reach below the limit, and is refused. -/
theorem deepTree_swap_refused_back : deepTree.WellFormed ∧
    (deepTree.swapNodes 64 66).2.isOk = true ∧
    ((deepTree.swapNodes 64 66).1.swapNodes 64 66).2 = .error .tooDeep :=
  ⟨(SoundTree.ofRun World.moveDeepRoot _ 1).wellFormed, by decide +kernel⟩

end TilingTree

end Swayward
