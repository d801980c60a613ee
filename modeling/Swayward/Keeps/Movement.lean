/-
  File:      Swayward/Keeps/Movement.lean
  Subject:   MOVING AND SWAPPING NODES KEEPS THE INVARIANT.

  A move unlinks a subtree and links it again under another split. Two questions decide whether the
  invariant survives: does the subtree fit the depth bound at its new place, and does the fullscreen
  node keep a leaf when its old place is reaped. The first is checked by the code in most cases, the
  second is the hypothesis `Keeps` below.
-/
import Swayward.Keeps.Mutation

namespace Swayward

variable {I : Type}

open Forest Arena Positions

namespace TilingTree

variable {c : Ctx I} {E : Set NodeId} {t : TilingTree I} {id p q n : NodeId}
variable {r r' : NodeId → ℕ} {a' : Arena I} {E' : Set NodeId} {first second : NodeId} {g : Prop}

/-! ## 1. A subtree at a new place -/

/-- When `id` goes below `p`, every fullscreen node but the root keeps a leaf: it is inside `id`, or
    around `p`, or holds a leaf besides those of `id`. -/
def Keeps (t : TilingTree I) (id p : NodeId) : Prop :=
  ∀ n, (t.fullscreenMode n).isSome → n = t.root ∨ Below t.children id n ∨ Below t.children n p ∨
    ∃ m, Below t.children n m ∧ (t.tile m).isSome ∧ ¬ Below t.children id m

section

variable {a : Arena I} (hr : Relinked g ∅ E r a id q p a') (hok : Ok g ∅ E r a)
  (hok' : Ok g ∅ E' r' a')
include hr hok hok'

/-- Who is listed where after the move. -/
theorem Relinked.mem_children (y x : NodeId) :
    x ∈ a'.children y ↔ (x = id ∧ y = p) ∨ (x ≠ id ∧ x ∈ a.children y) := by
  have hlisted : ∀ {g : Prop} {r : NodeId → ℕ} {E : Set NodeId} {b : Arena I}, Ok g ∅ E r b →
      (x ∈ b.children y ↔ b.parentOf x = some y) := fun h =>
    ⟨fun hx => h.kid_parent hx, fun hx => h.mem_children hx⟩
  rw [hlisted hok', hlisted hok, hr.parentOf]
  by_cases e : x = id
  · simp [e, eq_comm]
  · simp [e]

/-- Ways down that do not end inside the moved subtree stay. -/
theorem Relinked.below_outside {x y : NodeId} (hxy : Below a.children x y)
    (hy : ¬ Below a.children id y) : Below a'.children x y := by
  have hkids := Relinked.mem_children hr hok hok'
  induction hxy with
  | refl => exact Below.refl x
  | tail _ hz ih =>
    refine (ih fun hb => hy (hb.step hz)).step ((hkids _ _).mpr (.inr ⟨?_, hz⟩))
    rintro rfl
    exact hy (Below.refl _)

/-- Ways down inside the moved subtree stay. -/
theorem Relinked.below_inside {x y : NodeId} (hxy : Below a.children x y)
    (hx : Below a.children id x) : Below a'.children x y := by
  have hkids := Relinked.mem_children hr hok hok'
  induction hxy with
  | refl => exact Below.refl x
  | tail hxz hy ih =>
    refine ih.step ((hkids _ _).mpr (.inr ⟨?_, hy⟩))
    rintro rfl
    exact hok.ranked.not_below_kid hy (hx.trans hxz)

end

section

variable (h : Inv c ∅ t) (hr : Relinked c.full ∅ ∅ t.nodeDepth t.toArena id q p a')
include h hr

section

variable (hbelow : ¬ Below t.children id p)
include hbelow

/-- **A subtree hung under another split.** -/
theorem Inv.relink
    (hdeep : c.deep → t.nodeDepth p + t.subtreeHeight id ≤ maxTreeDepth ∨
      t.nodeDepth p < t.nodeDepth id) :
    Inv c {q} { t with toArena := a' } := by
  obtain ⟨hok, hbound⟩ := h.exact
  have hins : insert q (∅ : Set NodeId) = {q} := by simp
  have hid : t.contains id = true := contains_of_parentOf hr.parent
  refine h.edit ?_ hr.same.tile fun n hn => (hr.same.contains n).trans hn
  by_cases hup : t.nodeDepth p < t.nodeDepth id
  · refine ⟨_, hins ▸ hr.upward hup, fun hd n hn => hbound hd n ?_⟩
    rwa [hr.same.contains] at hn
  obtain ⟨r', hok', hr'⟩ := hr.anywhere hbelow
  refine ⟨r', hins ▸ hok', fun hd n hn => ?_⟩
  rw [hr.same.contains] at hn
  rcases hr' n with e | ⟨hb, e⟩
  · exact e ▸ hbound hd n hn
  · have hfit := (hdeep hd).resolve_right hup
    have := hok.nodeDepth_below no_unlinked hid hb
    omega

/-- The fullscreen node holds a leaf after the move, before the old place is reaped. -/
theorem Inv.held_relink (hm : c.marks) (hkeeps : t.Keeps id p) : Held { t with toArena := a' } := by
  obtain ⟨hok, -⟩ := h.exact
  obtain ⟨r', hok', -⟩ := hr.anywhere hbelow
  have hid : t.contains id = true := contains_of_parentOf hr.parent
  have hleaf : ∀ {x}, t.contains x = true → x ≠ t.root →
      ∃ m, Below t.children x m ∧ (t.tile m).isSome := fun hc hne =>
    hok.exists_leaf (c.marks_full hm) hc hne
  intro x hx
  have hx : (t.fullscreenMode x).isSome := hx
  rcases hkeeps x hx with e | hb | hb | ⟨m, hb, ht, hout⟩
  · exact .inl (e.trans hr.same.root.symm)
  · by_cases e : x = t.root
    · exact .inl (e.trans hr.same.root.symm)
    · obtain ⟨m, hm, ht⟩ := hleaf ((h.side (c.marks_side hm)).contains_fullscreenNode hx) e
      exact .inr ⟨m, Relinked.below_inside hr hok hok' hm hb, by rw [hr.same.tile]; exact ht⟩
  · obtain ⟨m, hm, ht⟩ := hleaf hid (hok.ne_root_of_parentOf hr.parent)
    refine .inr ⟨m, ?_, by rw [hr.same.tile]; exact ht⟩
    have hp := Relinked.below_outside hr hok hok' hb hbelow
    have hkid := (Relinked.mem_children hr hok hok' p id).mpr (.inl ⟨rfl, rfl⟩)
    exact (hp.step hkid).trans (Relinked.below_inside hr hok hok' hm (Below.refl id))
  · exact .inr ⟨m, Relinked.below_outside hr hok hok' hb hout, by rw [hr.same.tile]; exact ht⟩

/-- **A subtree hung under another split, its old place reaped.** -/
theorem Inv.relinkReap
    (hdeep : c.deep → t.nodeDepth p + t.subtreeHeight id ≤ maxTreeDepth ∨
      t.nodeDepth p < t.nodeDepth id) (hkeeps : c.marks → t.Keeps id p) :
    Inv c ∅ ({ t with toArena := a' : TilingTree I }.reapEmptyFrom q) :=
  (h.relink hr hbelow hdeep).reapEmptyFrom fun hm => h.held_relink hr hbelow hm (hkeeps hm)

end

/-- The same for a split that is not as deep. -/
theorem Inv.relinkReap_up (hup : t.nodeDepth p < t.nodeDepth id) (hkeeps : c.marks → t.Keeps id p) :
    Inv c ∅ ({ t with toArena := a' : TilingTree I }.reapEmptyFrom q) := by
  obtain ⟨hok, -⟩ := h.exact
  exact h.relinkReap hr (fun hb => (hok.ranked.le hb).not_gt hup) (fun _ => .inr hup) hkeeps

end

/-! ## 2. Moving onto a node -/

section Windows

variable [DecidableEq I]

theorem Inv.rankWindow (h : Inv c E t) (window : I) (rank : ℕ) :
    Inv c E (match t.nodeForWindow window with
      | some leaf => t.rankInHistory leaf rank
      | none => t) := by
  split
  · rename_i leaf hleaf
    exact h.reinsert (fun _ => contains_nodeForWindow hleaf) rank
  · exact h

theorem Inv.reinsertFocusHistory (h : Inv c E t) (windows : List I) (rank : ℕ) :
    Inv c E (t.reinsertFocusHistory windows rank) := by
  unfold TilingTree.reinsertFocusHistory
  induction windows with
  | nil => exact h
  | cons w windows ih => exact ih.rankWindow w rank

omit [DecidableEq I] in
/-- A node goes below a split that is not inside it. -/
theorem Inv.nodeDestination_spec (h : Inv c E t) {destination : NodeId} {after : Option NodeId}
    (hd : t.nodeDestination destination = some (p, after))
    (hbelow : ¬ Below t.children id destination) :
    t.isSplit p = true ∧ ¬ Below t.children id p := by
  obtain ⟨r, hok, -⟩ := h.ok
  unfold TilingTree.nodeDestination at hd
  split at hd
  · rename_i q tile hget
    cases hd
    have hp : t.parentOf destination = some p := by simp [parentOf, hget]
    have hkid := hok.mem_children hp
    obtain ⟨s, hs, -⟩ := splitAt_of_mem_children hkid
    exact ⟨(t.isSplit_eq_true p).mpr ⟨s, hs⟩, fun hb => hbelow (hb.step hkid)⟩
  · rename_i s hget
    cases hd
    exact ⟨(t.isSplit_eq_true p).mpr ⟨s, by simp [splitAt, hget]⟩, hbelow⟩
  · cases hd

/-- **Moving a node onto another.** -/
theorem Inv.moveSubtreeToNode (h : Inv c ∅ t) (id destination : NodeId)
    (hkeeps : c.marks → ∀ p after, t.nodeDestination destination = some (p, after) → t.Keeps id p) :
    Inv c ∅ (t.moveSubtreeToNode id destination).1 := by
  obtain ⟨hok, -⟩ := h.exact
  unfold TilingTree.moveSubtreeToNode
  refine Inv.ite_fst (fun _ => h) fun hgo => ?_
  simp only [not_or] at hgo
  have hbelow : ¬ Below t.children id destination := fun hb =>
    hgo.2.2.2.2 ((hok.containsNode_iff no_unlinked).mpr hb)
  split
  · exact h
  rename_i p after hd
  obtain ⟨hsplit, hbelow⟩ := h.nodeDestination_spec hd hbelow
  refine Inv.ite_fst (fun _ => h) fun hfit => Inv.ite_fst (fun _ => h) fun _ => ?_
  split
  · exact h
  rename_i a q hrelink
  have hr := relinked_relinkAfter hok hsplit hrelink
  have h1 := h.relinkReap hr hbelow (fun _ => .inl (by simpa [fitsBelow] using hfit))
    fun hm => hkeeps hm p after hd
  exact (h1.compactTree.reinsertFocusHistory _ _).requestWindowSizes

end Windows

/-! ## 3. Reordering among siblings -/

/-- The focus after a directional move. -/
theorem Inv.finishDirectionalMove (h : Inv c E t) (hh : c.side → c.hole = ∅) (id : NodeId) :
    Inv c E (t.finishDirectionalMove id) := by
  unfold TilingTree.finishDirectionalMove
  refine Inv.ite (fun _ => Inv.requestWindowSizes (h.of_core rfl)) fun _ => Inv.requestWindowSizes ?_
  cases hleaf : t.firstLeafIn id with
  | some leaf =>
    have ht := h.firstLeafIn_some hleaf
    exact h.setFocusId (fun _ => contains_of_isSome_tile ht) fun _ =>
      ⟨leaf, h.windows_isSome.mpr ht⟩
  | none =>
    refine h.setFocusTo (fun hs x hx => ?_) h.awake
    refine ((h.side hs).focus x hx).resolve_right ?_
    rw [hh hs]
    exact Set.notMem_empty x

theorem Sound.moveEntry {s : Split} (h : s.Sound g) {i j : ℕ} (hj : j < s.children.length) :
    (Split.moveEntry s i j).children.Perm s.children ∧ (Split.moveEntry s i j).Sound g := by
  unfold Split.moveEntry
  split
  · rename_i child x hchild hx
    obtain ⟨hi, rfl⟩ := List.getElem?_eq_some_iff.mp hchild
    obtain ⟨hi', rfl⟩ := List.getElem?_eq_some_iff.mp hx
    have hlen := h.lengths
    have hle : j ≤ (s.children.eraseIdx i).length := by
      rw [List.length_eraseIdx_of_lt hi]
      omega
    have hle' : j ≤ (s.percents.eraseIdx i).length := by
      rw [List.length_eraseIdx_of_lt hi']
      omega
    have hp : ((s.children.eraseIdx i).insertIdx j s.children[i]).Perm s.children :=
      (List.perm_insertIdx _ _ hle).trans (List.getElem_cons_eraseIdx_perm hi)
    have hp' : ((s.percents.eraseIdx i).insertIdx j s.percents[i]).Perm s.percents :=
      (List.perm_insertIdx _ _ hle').trans (List.getElem_cons_eraseIdx_perm hi')
    exact ⟨hp, hp.nodup_iff.mpr h.nodup, by rw [hp.length_eq]; exact hp'.length_eq.trans hlen,
      fun hg => (h.shares hg).perm hp'⟩
  · exact ⟨List.Perm.refl _, h⟩

/-- **Moving a node among its siblings.** -/
theorem Inv.moveSubtreeToIndex (h : Inv c ∅ t) (hh : c.side → c.hole = ∅) (id : NodeId)
    (index : Option ℕ) : Inv c.calmed ∅ (t.moveSubtreeToIndex id index).1 := by
  have h1 := h.close
  unfold TilingTree.moveSubtreeToIndex
  simp only
  split
  · exact h1
  rename_i p hp
  split
  · exact h1
  rename_i s hs
  split
  · exact h1
  rename_i i hi
  refine Inv.ite_fst (fun _ => h1) fun _ => ?_
  refine Inv.finishDirectionalMove (h1.modifySplit fun s' hs' hsound => ?_) hh id
  refine Sound.moveEntry hsound ?_
  have e : t.splitAt p = some s := hs
  have e' : t.splitAt p = some s' := hs'
  rw [e] at e'
  cases e'
  have := (List.idxOf?_eq_some_iff.mp hi).1
  split <;> omega

/-! ## 4. Swapping -/

theorem fullscreenMode_swapFullscreenModes (hne : first ≠ second) (n : NodeId) :
    (t.swapFullscreenModes first second).fullscreenMode n =
      t.fullscreenMode (if n = first then second else if n = second then first else n) := by
  unfold swapFullscreenModes
  simp only [fullscreenMode_setPendingFullscreen]
  by_cases e : n = first
  · subst e
    simp [hne]
  · by_cases e' : n = second
    · subst e'
      simp [hne.symm]
    · simp [e, e']

theorem Inv.swapFullscreenModes (h : Inv c E t) (hne : first ≠ second)
    (hf : t.contains first = true) (hs : t.contains second = true) :
    Inv c E (t.swapFullscreenModes first second) := by
  have hmode := fullscreenMode_swapFullscreenModes (t := t) hne
  have e : t.swapFullscreenModes first second =
      { t with pendingModes := (t.swapFullscreenModes first second).pendingModes } := by
    unfold TilingTree.swapFullscreenModes
    rw [setPendingFullscreen_eq, setPendingFullscreen_eq]
  rw [e] at hmode ⊢
  refine h.withModes (fun hside n hn => ?_) (fun hside => ⟨fun x y _ _ hx hy => ?_,
    fun n mode hn hmax => ?_⟩) fun hm hall n => ?_
  · rcases mem_pendingModes_setPendingFullscreen hn with rfl | hn
    · exact hs
    · rcases mem_pendingModes_setPendingFullscreen hn with rfl | hn
      · exact hf
      · exact (h.side hside).mode hn
  · rw [hmode] at hx hy
    have := (h.modes hside).eq hx hy
    grind
  · have h' : ∀ n mode, (t.setPendingFullscreen first (t.fullscreenMode second)).pendingModes.lookup
        n = some mode → mode.maximized = true → (t.tile n).isSome :=
      leaf_setPendingFullscreen (h.modes hside) _
    have hmodes : (t.setPendingFullscreen first (t.fullscreenMode second)).Modes Set.univ := by
      rw [setPendingFullscreen_eq]
      exact ⟨fun x _ hx => (hx (Set.mem_univ x)).elim, h'⟩
    have := leaf_setPendingFullscreen hmodes _ n mode hn hmax
    rw [setPendingFullscreen_eq] at this
    exact this
  · refine h.marks hm (fun x => ?_) n
    have := hall (if x = first then second else if x = second then first else x)
    rw [hmode] at this
    grind

theorem checkSwappable_ok (h : t.checkSwappable first second = .ok ()) :
    t.contains first = true ∧ t.contains second = true ∧ first ≠ second ∧
      t.containsNode first second = false ∧ t.containsNode second first = false ∧
      t.nodeDepth first + t.subtreeHeight second ≤ maxTreeDepth + 1 ∧
      t.nodeDepth second + t.subtreeHeight first ≤ maxTreeDepth + 1 := by
  unfold checkSwappable at h
  split_ifs at h with h1 h2 h3 h4
  simp only [Bool.or_eq_true, Bool.not_eq_true', not_or, Bool.not_eq_false, fitsAt,
    decide_eq_false_iff_not, not_not, Bool.not_eq_true] at h1 h3 h4
  exact ⟨h1.1, h1.2, h2, h3.1, h3.2, h4.1, h4.2⟩

/-- The depth check of a swap. -/
theorem Inv.deep_swap (h : Inv c E t) (hs : t.checkSwappable first second = .ok ()) (hd : c.deep)
    (hn : t.contains n = true) :
    swapRank t.children t.nodeDepth first second n ≤ maxTreeDepth := by
  obtain ⟨hok, hbound⟩ := h.exact
  obtain ⟨hf, hs, -, -, -, hfit, hfit'⟩ := checkSwappable_ok hs
  unfold swapRank
  split
  · have := hok.nodeDepth_below no_unlinked hf ‹_›
    omega
  split
  · have := hok.nodeDepth_below no_unlinked hs ‹_›
    omega
  · exact hbound hd n hn

/-- The focus, if it changes, goes to one of the two. -/
theorem focusAfterSwap_cases (first p second q : NodeId) :
    t.focusAfterSwap first p second q = t.focus ∨
      ∃ x, t.focusAfterSwap first p second q = some x ∧ t.focus.isSome ∧
        (x = first ∨ x = second) := by
  unfold focusAfterSwap
  simp only
  split_ifs with h1 h2
  · exact .inr ⟨second, rfl, by simp [h1.1], .inr rfl⟩
  · exact .inr ⟨first, rfl, by simp [h2.1], .inl rfl⟩
  · exact .inl rfl

/-- **Swapping two nodes.** The resize session stays open. -/
theorem Inv.swapNodes (h : Inv c ∅ t) (first second : NodeId) :
    Inv c ∅ (t.swapNodes first second).1 := by
  obtain ⟨hok, -⟩ := h.exact
  unfold TilingTree.swapNodes
  split
  · exact h
  rename_i hswap
  obtain ⟨hf, hs, hne, hfs, hsf, -⟩ := checkSwappable_ok hswap
  have hdisj : ∀ {x y}, t.containsNode x y = false → ¬ Below t.children x y := fun e hb => by
    rw [(hok.containsNode_iff no_unlinked).mpr hb] at e
    cases e
  split
  · rename_i p q hp hq
    split
    · rename_i i j hi hj
      have hok' := ok_swapArena hok hi hj (hdisj hfs) (hdisj hsf)
      have hsame := sameNodes_swapArena (a := t.toArena) first p i second q j
      have h1 : Inv c ∅ { t with toArena := swapArena t.toArena first p i second q j } := by
        refine h.edit ⟨_, hok', fun hd n hn => h.deep_swap hswap hd ?_⟩ hsame.tile fun n hn =>
          (hsame.contains n).trans hn
        rwa [hsame.contains] at hn
      have h2 := h1.swapFullscreenModes hne ((hsame.contains first).trans hf)
        ((hsame.contains second).trans hs)
      refine Inv.requestWindowSizes (Inv.ite (fun _ => h2) fun hchanged => ?_)
      have hfocus : ({ t with toArena := swapArena t.toArena first p i second q j :
          TilingTree I }.swapFullscreenModes first second).focus = t.focus := by
        unfold TilingTree.swapFullscreenModes
        rw [focus_setPendingFullscreen, focus_setPendingFullscreen]
      rw [hfocus] at hchanged
      obtain ⟨x, hx, hsome, hx'⟩ := (focusAfterSwap_cases first p second q).resolve_left
        (Ne.symm hchanged)
      rw [hx]
      refine h2.setFocusId (fun _ => ?_) fun ha => (h.awake ha).mp hsome
      unfold TilingTree.swapFullscreenModes
      rw [setPendingFullscreen_eq, setPendingFullscreen_eq]
      refine (hsame.contains x).trans ?_
      rcases hx' with rfl | rfl <;> assumption
    · exact h
  · exact h

/-! ## 5. Consuming and expelling -/

theorem neighbour_some {l : List NodeId} {i : ℕ} {backwards : Bool} {x : NodeId}
    (h : neighbour l i backwards = some x) : ∃ j, j ≠ i ∧ l[j]? = some x := by
  unfold neighbour at h
  split at h
  · split at h
    · cases h
    · exact ⟨i - 1, by omega, h⟩
  · exact ⟨i + 1, by omega, h⟩

/-- A neighbour of a child is another child. -/
theorem Ok.neighbour_spec {D : Set NodeId} (hok : Ok g D E r t.toArena) {s : Split}
    (hs : t.splitAt p = some s) {i : ℕ} (hi : s.children.idxOf? id = some i) {backwards : Bool}
    {x : NodeId} (h : neighbour s.children i backwards = some x) :
    x ∈ t.children p ∧ x ≠ id := by
  obtain ⟨j, hji, hj⟩ := neighbour_some h
  rw [children_of_splitAt hs]
  refine ⟨List.mem_of_getElem? hj, ?_⟩
  rintro rfl
  exact hji ((List.getElem?_inj (List.getElem?_eq_some_iff.mp hj).1
    (hok.sound hs).nodup).mp (hj.trans (getElem?_of_idxOf? hi).symm))

/-- The pair that `consume` makes. -/
theorem Inv.wrapPair (h : Inv c ∅ t) {sibling : NodeId} {i : ℕ} {right : Bool}
    (hp : t.parentOf id = some p) (hsib : sibling ∈ t.children p) (hne : sibling ≠ id)
    (hcan : t.canWrap id = true) (hcan' : t.canWrap sibling = true)
    (hi : (t.removeChild p id).childIndex p sibling = some i) :
    Inv c ∅ { t with toArena := wrapPairArena (t.removeChild p id) p sibling id i right } := by
  obtain ⟨hok, hbound⟩ := h.exact
  have hkid := hok.mem_children hp
  have hu := hok.unlinked_removeChild hp
  obtain ⟨s, hs, hi⟩ := Option.bind_eq_some_iff.mp hi
  have hcid : (t.removeChild p id).contains id = true :=
    (hu.same.contains id).trans (hok.contains_kid hkid)
  have hw := wraps_wrapPairArena hu.ok hs hi (Set.mem_insert id ∅) hcid right
  have hfresh : (t.removeChild p id).counter ∉ s.children := fun hx =>
    hu.ok.ne_counter (hu.ok.contains_kid (children_of_splitAt hs ▸ hx)) rfl
  have hok' := hu.ok.wraps hw (fun _ => by cases right <;> simp) (fun x hx => ?_)
    ((hu.ok.sound hs).set hfresh i) ?_
  · have hD : ((insert id ∅ : Set NodeId) \ {x | x ∈ if right then [sibling, id] else [id, sibling]}) \
        {(t.removeChild p id).counter} = ∅ := by
      ext x
      simp only [Set.mem_sdiff, Set.mem_insert_iff, Set.mem_empty_iff_false, or_false, Set.mem_ofPred_eq,
        mem_pair_iff]
      tauto
    have hE : (insert p ∅ : Set NodeId) \ {p} = ∅ := by simp
    rw [hD, hE] at hok'
    refine h.edit ⟨_, hok', fun hd n hn => ?_⟩ (fun n => (hw.tile n).trans (hu.same.tile n))
      fun n hn => (hw.contains n).mpr (.inr ((hu.same.contains n).trans hn))
    have hdeep := h.deep_of_canWrap hcan hkid
    have hdeep' := h.deep_of_canWrap hcan' hsib
    have hmono : ∀ {x m}, Below (t.removeChild p id).children x m → Below t.children x m :=
      fun hm => hm.mono fun y z hz => ((hu.mem y z).mp hz).1
    unfold wrapRank
    split
    · exact hdeep.1
    rename_i hnw
    have hn := ((hw.contains n).mp hn).resolve_left hnw
    rw [hu.same.contains] at hn
    by_cases hx : ∃ x ∈ (if right then [sibling, id] else [id, sibling]),
        Below (t.removeChild p id).children x n
    · rw [if_pos hx]
      obtain ⟨x, hx, hxn⟩ := hx
      rcases mem_pair_iff.mp hx with rfl | rfl
      · exact hdeep.2 n (hmono hxn)
      · exact hdeep'.2 n (hmono hxn)
    · rw [if_neg hx]
      exact hbound hd n hn
  · rcases mem_pair_iff.mp hx with rfl | rfl
    · exact ⟨hcid, .inr (Set.mem_insert _ _), hok.ranked _ _ hkid⟩
    · exact ⟨(hu.same.contains _).trans (hok.contains_kid hsib), .inl (mem_of_idxOf? hi),
        hok.ranked _ _ hsib⟩
  · refine ⟨?_, ?_, fun _ => Shares.isShares_of_pos_of_sum (by norm_num) (by norm_num)⟩
    · cases right <;> simp [hne, hne.symm]
    · cases right <;> rfl

/-- **Consuming a neighbour.** -/
theorem Inv.consume (h : Inv c ∅ t) (id : NodeId) (right : Bool) :
    Kept c ∅ t (t.consume id right).1 := by
  obtain ⟨hok, -⟩ := h.exact
  unfold TilingTree.consume
  split
  · exact .same h
  rename_i p hp
  split
  · exact .same h
  rename_i i hi
  split
  · exact .same h
  rename_i sibling hsib
  refine .ite_fst (fun _ => .same h) fun hcan => ?_
  simp only [Bool.or_eq_true, Bool.not_eq_true', not_or, Bool.not_eq_false] at hcan
  obtain ⟨s, hs, hi⟩ := Option.bind_eq_some_iff.mp hi
  rw [children_of_splitAt hs] at hsib
  obtain ⟨hmem, hne⟩ := Ok.neighbour_spec hok hs hi hsib
  -- the sibling is still listed
  have hu := hok.unlinked_removeChild hp
  obtain ⟨s', hs', hmem'⟩ := splitAt_of_mem_children ((hu.mem p sibling).mpr ⟨hmem, hne⟩)
  obtain ⟨k, hk⟩ := exists_idxOf? hmem'
  have hk : (t.removeChild p id).childIndex p sibling = some k := by
    simp [childIndex, hs', hk]
  have h1 : Inv c.calmed ∅ { t with
      interactiveResize := none
      toArena := wrapPairArena (t.removeChild p id) p sibling id k right } :=
    h.close.wrapPair hp hmem hne hcan.1 hcan.2 hk
  simp only
  split
  · rename_i hnone
    rw [show (t.removeChild p id).childIndex p sibling = none from hnone] at hk
    cases hk
  · rename_i k' hk'
    rw [show (t.removeChild p id).childIndex p sibling = some k' from hk'] at hk
    cases hk
    exact .closed h1.compactTree.requestWindowSizes

/-- **Expelling a node from its parent.** -/
theorem Inv.expel (h : Inv c ∅ t) (id : NodeId) (after : Bool)
    (hkeeps : c.marks → ∀ q p, t.parentOf id = some q → t.parentOf q = some p → t.Keeps id p) :
    Kept c ∅ t (t.expel id after).1 := by
  obtain ⟨hok, -⟩ := h.exact
  unfold TilingTree.expel
  split
  · exact .same h
  rename_i q hq
  split
  · exact .same h
  rename_i p hp
  have h1 : Inv c.calmed ∅ { t with interactiveResize := none } := h.close
  simp only
  split
  · exact .closed h1
  rename_i i hi
  have hqp := hok.mem_children hp
  have hidq := hok.mem_children hq
  have hr := relinked_expel hok hq hqp (if after then i + 1 else i)
  have hup : t.nodeDepth p < t.nodeDepth id := (hok.ranked p q hqp).trans (hok.ranked q id hidq)
  have hbelow : ¬ Below t.children id p := fun hb => (hok.ranked.le hb).not_gt hup
  have h2 := h1.relink hr hbelow fun _ => .inr hup
  have h3 := h2.collapseFrom fun hm => h1.held_relink hr hbelow hm (hkeeps hm q p hq hp)
  exact .closed h3.compactTree.requestWindowSizes

theorem focus_contains (h : Inv c E t) (hs : c.side) (hh : c.hole = ∅) {f : NodeId}
    (hf : t.focus = some f) : t.contains f = true := by
  rcases (h.side hs).focus f hf with hc | hc
  · exact hc
  · rw [hh] at hc
    exact hc.elim

/-- The node a command acts on: the leaf of the given window, or else the focus. -/
theorem Inv.focusCommandNode [DecidableEq I] (h : Inv c E t) (hh : c.side → c.hole = ∅)
    {window : Option I} (hid : (window.bind t.nodeForWindow).or t.focus = some id) :
    Kept c E t (t.setFocusId (some id)) := by
  refine .focus ?_
  rcases Option.or_eq_some_iff.mp hid with hw | ⟨-, hf⟩
  · obtain ⟨w, -, hw⟩ := Option.bind_eq_some_iff.mp hw
    obtain ⟨tile, ht, -⟩ := nodeForWindow_some hw
    refine h.setFocusId (fun _ => contains_of_tile ht) fun _ => ⟨id, ?_⟩
    rw [← h.tiles, ht]
    rfl
  · exact h.setFocusId (fun hs => focus_contains h hs (hh hs) hf) (h.focus_some hf)

theorem Inv.expelOrConsume [DecidableEq I] (h : Inv c ∅ t) (hh : c.side → c.hole = ∅)
    (window : Option I) (right : Bool)
    (hkeeps : c.marks → ∀ id q p, (window.bind t.nodeForWindow).or t.focus = some id →
      t.parentOf id = some q → t.parentOf q = some p → t.Keeps id p) :
    Kept c ∅ t (t.expelOrConsume window right) := by
  unfold TilingTree.expelOrConsume
  split
  · exact .same h
  rename_i id hid
  have hfocus := h.focusCommandNode hh hid
  have h1 := hfocus.trans (hfocus.inv.expel id right fun hm q p => hkeeps hm id q p hid)
  simp only
  split <;> rename_i e <;> rw [e] at h1
  · exact h1
  · exact h1.trans (h1.inv.consume id right)

end TilingTree

end Swayward
