/-
  File:      Swayward/Keeps/Geometry.lean
  Subject:   WINDOWS DO NOT OVERLAP: the boxes `compute_geometry` gives to the visible leaves.

  A linear split cuts its box along one axis, with gaps that never make it longer. A tabbed or stacked
  split gives all children one box, but only one of them is visible. So a point lies in at most one
  visible leaf, and in none outside the area of the tree.

  * `linearBoxes_spec`    -- where the pieces of one cut are;
  * `covers_of_mem`       -- the boxes of a subtree are inside its box;
  * `apart_of_visible`    -- no two visible leaves of a subtree share a point;
  * `World.geometry_run`  -- **so it is in every tree of every reachable world**.
-/
import Swayward.Keeps.Visible

namespace Swayward

open Arena Forest TilingTree List

/-! ## 1. Cutting a box -/

def Point.coord (p : Point) (horizontal : Bool) : ℚ := if horizontal then p.x else p.y

namespace Rect

def start (r : Rect) (horizontal : Bool) : ℚ := r.loc.coord horizontal

def extent (r : Rect) (horizontal : Bool) : ℚ := if horizontal then r.size.w else r.size.h

/-- `p` is between the edges of the box, on both axes. -/
def Covers (r : Rect) (p : Point) : Prop :=
  ∀ h, r.start h < p.coord h ∧ p.coord h < r.start h + r.extent h

/-- The boxes have no point in common. -/
def Apart (r r' : Rect) : Prop := ∀ p, r.Covers p → ¬ r'.Covers p

end Rect

/-- The pieces lie one behind the other, from `cursor` on. -/
theorem linearBoxes_spec {h : Bool} {rect : Rect} {gap available : ℚ} (hgap : 0 ≤ gap)
    {shares : List ℚ} (hshares : ∀ x ∈ shares, 0 ≤ x) (cursor : ℚ) :
    (linearBoxes h rect gap available cursor shares).length = shares.length ∧
    (∀ b ∈ linearBoxes h rect gap available cursor shares,
      b.start (!h) = rect.start (!h) ∧ b.extent (!h) = rect.extent (!h) ∧
      cursor ≤ b.start h ∧ (∃ x, b.extent h = max available 0 * x) ∧
      b.start h + b.extent h + gap ≤
        cursor + max available 0 * shares.sum + gap * shares.length) ∧
    (linearBoxes h rect gap available cursor shares).Pairwise fun b b' =>
      b.start h + b.extent h ≤ b'.start h := by
  induction shares generalizing cursor with
  | nil => simp [linearBoxes]
  | cons x shares ih =>
    obtain ⟨hx, hshares⟩ := forall_mem_cons.mp hshares
    obtain ⟨hlength, hrest, hpairwise⟩ := ih hshares (cursor + max available 0 * x + gap)
    have hpiece : 0 ≤ max available 0 * x := mul_nonneg (le_max_right _ _) hx
    have hsum : 0 ≤ max available 0 * shares.sum :=
      mul_nonneg (le_max_right _ _) (sum_nonneg hshares)
    have hgaps : 0 ≤ gap * shares.length := mul_nonneg hgap (Nat.cast_nonneg _)
    rw [linearBoxes, forall_mem_cons, pairwise_cons, sum_cons, length_cons, length_cons, mul_add,
      Nat.cast_succ]
    refine ⟨congrArg (· + 1) hlength, ⟨?_, fun b hb => ?_⟩, fun b hb => ?_, hpairwise⟩
    · cases h <;> simp [Rect.start, Rect.extent, Point.coord] <;> grind
    · obtain ⟨h1, h2, h3, h4, h5⟩ := hrest b hb
      exact ⟨h1, h2, by linarith, h4, by linarith⟩
    · obtain ⟨-, -, h3, -, -⟩ := hrest b hb
      refine le_trans ?_ h3
      cases h <;> simp [Rect.start, Rect.extent, Point.coord] <;> linarith

/-- The pieces of a box, with gaps between them, are inside the box and apart. -/
theorem pieces_spec (h : Bool) (rect : Rect) {gap : ℚ} (hgap : 0 ≤ gap) {shares : List ℚ}
    (hshares : ∀ x ∈ shares, 0 ≤ x) (hsum : shares.sum ≤ 1) {boxes : List Rect}
    (hboxes : boxes = linearBoxes h rect gap (rect.extent h - gap * (shares.length - 1 : ℕ))
      (rect.start h) shares) :
    boxes.length = shares.length ∧ (∀ b ∈ boxes, ∀ p, b.Covers p → rect.Covers p) ∧
      boxes.Pairwise Rect.Apart := by
  obtain ⟨hlength, hspec, hpairwise⟩ := linearBoxes_spec (h := h) hgap hshares (rect.start h)
  subst hboxes
  refine ⟨hlength, fun b hb p hp axis => ?_, hpairwise.imp fun {b b'} hbb' p hp hp' => ?_⟩
  · obtain ⟨hstart, hextent, hlow, ⟨x, hx⟩, hhigh⟩ := hspec b hb
    by_cases haxis : axis = h
    · subst haxis
      obtain ⟨hp1, hp2⟩ := hp axis
      have hpieces : 0 < shares.length := hlength ▸ length_pos_of_mem hb
      -- a piece that covers a point is not empty
      have hpositive : 0 < rect.extent axis - gap * (shares.length - 1 : ℕ) := by
        by_contra hle
        rw [max_eq_right (not_lt.mp hle), zero_mul] at hx
        linarith
      rw [max_eq_left hpositive.le] at hhigh
      rw [Nat.cast_pred hpieces] at hpositive hhigh
      refine ⟨by linarith, ?_⟩
      nlinarith
    · obtain rfl : axis = !h := by cases axis <;> cases h <;> simp_all
      rw [← hstart, ← hextent]
      exact hp _
  · have := (hp h).2
    have := (hp' h).1
    linarith

/-- The shares that are left are shares of the whole. -/
theorem visibleShares_spec (excluded : Finset NodeId) {children : List NodeId} {percents : List ℚ}
    (hlength : percents.length = children.length) (hpercents : ∀ x ∈ percents, 0 ≤ x)
    (hsum : percents.sum ≤ 1) :
    (visibleShares excluded children percents).length = children.length ∧
      (∀ x ∈ visibleShares excluded children percents, 0 ≤ x) ∧
      (visibleShares excluded children percents).sum ≤ 1 := by
  unfold visibleShares
  split_ifs
  · exact ⟨hlength, hpercents, hsum⟩
  have hscaled : ∀ (e : List (NodeId × ℚ)) (total : ℚ),
      (e.map fun e => if e.1 ∈ excluded then 0 else e.2 / total).sum =
        ((e.filter fun e => decide (e.1 ∉ excluded)).map (·.2)).sum / total := by
    intro e total
    induction e with
    | nil => simp
    | cons e l ih => by_cases he : e.1 ∈ excluded <;> simp [he, ih, add_div]
  simp only [← map_uncurry_zip_eq_zipWith, Function.uncurry_def]
  refine ⟨by simp [hlength], fun x hx => ?_, (hscaled _ _).trans_le (div_self_le_one _)⟩
  obtain ⟨e, he, rfl⟩ := mem_map.mp hx
  split_ifs
  · exact le_rfl
  · refine div_nonneg (hpercents _ (of_mem_zip he).2) (sum_nonneg fun x hx => ?_)
    obtain ⟨e, he, rfl⟩ := mem_map.mp hx
    exact hpercents _ (of_mem_zip (mem_filter.mp he).1).2

/-! ## 2. The boxes of the children -/

variable {I : Type}

/-- The gap between the children of a linear split. -/
def kidGap (c : AssignContext) (s : Split) (rect : Rect) (suppressGaps : Bool) : ℚ :=
  let h := s.layout == .splitH
  if suppressGaps then 0
  else splitGap c.gaps (rect.extent h) s.children.length (if h then minSaneW else minSaneH)

/-- The height of the titles of the other splits. -/
def stripHeight (c : AssignContext) (s : Split) : ℚ :=
  if s.layout = .stacked then c.titlebarHeight * s.children.length else c.titlebarHeight

/-- The boxes that the children of a split are given. -/
def kidBoxes (c : AssignContext) (s : Split) (rect : Rect) (suppressGaps : Bool) :
    List (NodeId × Rect) :=
  if s.layout.isSplit then
    let h := s.layout == .splitH
    let gap := kidGap c s rect suppressGaps
    s.children.zip (linearBoxes h rect gap (rect.extent h - gap * (s.children.length - 1 : ℕ))
      (rect.start h) (visibleShares c.excluded s.children s.percents))
  else
    let strip := stripHeight c s
    s.children.map (·, { loc := { rect.loc with y := rect.loc.y + strip }
                         size := { rect.size with h := max (rect.size.h - strip) 0 } })

section Kids

variable {a : Arena I} {c : AssignContext} {rect : Rect} {suppress : Bool} {fuel : ℕ} {id : NodeId}

theorem assign_succ : a.assign c (fuel + 1) id rect suppress =
    if a.contains id then
      (id, rect) :: ((a.splitAt id).elim [] fun s => (kidBoxes c s rect suppress).flatMap
        fun k => a.assign c fuel k.1 k.2 (suppress || !s.layout.isSplit))
    else [] := by
  rw [assign]
  unfold Arena.contains Arena.splitAt
  cases a.get id with
  | none => rfl
  | some node =>
    obtain ⟨q, value⟩ := node
    cases value with
    | leaf tile => rfl
    | split s =>
      cases h : s.layout.isSplit <;>
        simp only [kidBoxes, h, Bool.false_eq_true, if_true, if_false, Option.isSome_some,
          Option.bind_some, Option.elim_some, Bool.not_true, Bool.not_false, Bool.or_true,
          Bool.or_false, flatMap_map] <;>
        rfl

variable {s : Split} (hgaps : 0 ≤ c.gaps) (hbar : 0 ≤ c.titlebarHeight)
variable {E : Set NodeId} {r : NodeId → ℕ}

include hgaps hbar

/-- **The boxes of the children are inside the box of their split**, and those of a linear split are
    apart. -/
theorem kidBoxes_spec (hok : a.Ok True ∅ E r) (hs : a.splitAt id = some s) (rect : Rect)
    (suppress : Bool) :
    (kidBoxes c s rect suppress).map (·.1) = s.children ∧
      (∀ k ∈ kidBoxes c s rect suppress, ∀ p, k.2.Covers p → rect.Covers p) ∧
      (s.layout.isSplit = true →
        (kidBoxes c s rect suppress).Pairwise fun k k' => k.2.Apart k'.2) := by
  have hsound := hok.sound hs
  unfold kidBoxes
  by_cases hlinear : s.layout.isSplit = true
  · rw [if_pos hlinear]
    have hsum : s.percents.sum ≤ 1 := by
      by_cases h : s.percents = []
      · simp [h]
      · exact ((hsound.shares trivial).2 h).le
    obtain ⟨hlength, hshares, htotal⟩ := visibleShares_spec c.excluded hsound.lengths
      (fun x hx => ((hsound.shares trivial).1 x hx).le) hsum
    have hgap : 0 ≤ kidGap c s rect suppress := by
      unfold kidGap splitGap
      dsimp only
      split_ifs
      any_goals exact le_rfl
      all_goals exact Int.cast_nonneg (Int.floor_nonneg.mpr (by positivity))
    obtain ⟨hboxes, hinside, hapart⟩ := pieces_spec (s.layout == .splitH) rect hgap hshares htotal rfl
    rw [hlength] at *
    refine ⟨map_fst_zip hboxes.ge, fun k hk => hinside _ (of_mem_zip hk).2, fun _ => ?_⟩
    exact (pairwise_map (f := Prod.snd)).mp ((map_snd_zip hboxes.le).symm ▸ hapart)
  · rw [if_neg hlinear]
    have hstrip : 0 ≤ stripHeight c s := by
      unfold stripHeight
      split_ifs <;> positivity
    refine ⟨(map_map ..).trans (map_id _), fun k hk p hp h => ?_, fun h => absurd h hlinear⟩
    obtain ⟨child, -, rfl⟩ := mem_map.mp hk
    have := hp h
    cases h <;> simp only [Rect.start, Rect.extent, Point.coord] at * <;> grind

variable (hok : a.Ok True ∅ E r)
include hok

/-- A box that is given below `id`: it is that of `id`, or given by way of a child. -/
theorem mem_assign {e : NodeId × Rect} (he : e ∈ a.assign c (fuel + 1) id rect suppress) :
    e = (id, rect) ∨ ∃ s, a.splitAt id = some s ∧
      ∃ k ∈ kidBoxes c s rect suppress, k.1 ∈ a.children id ∧
        e ∈ a.assign c fuel k.1 k.2 (suppress || !s.layout.isSplit) := by
  rw [assign_succ] at he
  split_ifs at he with hid
  · refine (mem_cons.mp he).imp_right fun he => ?_
    cases hs : a.splitAt id with
    | none => simp [hs] at he
    | some s =>
      rw [hs] at he
      obtain ⟨k, hk, he⟩ := mem_flatMap.mp he
      refine ⟨s, rfl, k, hk, ?_, he⟩
      rw [children_of_splitAt hs, ← (kidBoxes_spec hgaps hbar hok hs rect suppress).1]
      exact mem_map_of_mem hk
  · cases he

/-- **The boxes given below a node are inside its box.** -/
theorem covers_of_mem {e : NodeId × Rect} {p : Point}
    (he : e ∈ a.assign c fuel id rect suppress) (hp : e.2.Covers p) :
    Below a.children id e.1 ∧ rect.Covers p := by
  induction fuel generalizing id rect suppress with
  | zero => cases he
  | succ fuel ih =>
    obtain rfl | ⟨s, hs, k, hk, hkid, he⟩ := mem_assign hgaps hbar hok he
    · exact ⟨Below.refl _, hp⟩
    · obtain ⟨hbelow, hcovers⟩ := ih he
      exact ⟨(Below.of_kid hkid).trans hbelow,
        (kidBoxes_spec hgaps hbar hok hs _ _).2.1 k hk p hcovers⟩

end Kids

/-! ## 3. Visible leaves -/

namespace TilingTree

variable {t : TilingTree I} {c : AssignContext} {rect : Rect} {suppress : Bool} {fuel : ℕ}
variable {id n m : NodeId} {b b' : Rect} {p : Point} {r : NodeId → ℕ}
variable (hok : t.toArena.Ok True ∅ ∅ r) (hgaps : 0 ≤ c.gaps) (hbar : 0 ≤ c.titlebarHeight)
include hok hgaps hbar

/-- The way to a visible leaf: it ends here, or it goes on in a child that is shown. -/
theorem kid_of_visible (hn : Below t.shownKids id n) (hleaf : (t.tile n).isSome)
    (hb : (n, b) ∈ t.assign c (fuel + 1) id rect suppress) (hp : b.Covers p) :
    (t.splitAt id = none ∧ n = id) ∨ ∃ s, t.splitAt id = some s ∧
      ∃ k ∈ kidBoxes c s rect suppress, k.1 ∈ t.shownKids id ∧ Below t.shownKids k.1 n ∧
        (n, b) ∈ t.assign c fuel k.1 k.2 (suppress || !s.layout.isSplit) ∧ k.2.Covers p := by
  obtain h | ⟨s, hs, k, hk, hkid, he⟩ := mem_assign hgaps hbar hok hb
  · obtain ⟨rfl, rfl⟩ := Prod.mk.inj h
    cases hs : t.splitAt n with
    | none => exact .inl ⟨rfl, rfl⟩
    | some s => simp [tile_of_splitAt hs] at hleaf
  · obtain ⟨hbelow, hcovers⟩ := covers_of_mem hgaps hbar hok he hp
    rcases below_iff_kid.mp hn with rfl | ⟨k', hk', hk'n⟩
    · simp [tile_of_splitAt hs] at hleaf
    have heq : k' = k.1 := by
      by_contra hne
      exact hok.siblings_apart (mem_children_of_mem_shownKids hk') hkid hne
        (hk'n.mono fun p k hk => mem_children_of_mem_shownKids hk) hbelow
    exact .inr ⟨s, hs, k, hk, heq ▸ hk', heq ▸ hk'n, he, hcovers⟩

/-- **No two visible leaves below a node share a point.** -/
theorem apart_of_visible (hn : Below t.shownKids id n) (hm : Below t.shownKids id m) (hne : n ≠ m)
    (hleaf : (t.tile n).isSome) (hleaf' : (t.tile m).isSome)
    (hb : (n, b) ∈ t.assign c fuel id rect suppress)
    (hb' : (m, b') ∈ t.assign c fuel id rect suppress) (hp : b.Covers p) : ¬ b'.Covers p := by
  intro hp'
  induction fuel generalizing id rect suppress with
  | zero => cases hb
  | succ fuel ih =>
    rcases kid_of_visible hok hgaps hbar hn hleaf hb hp with ⟨hs, rfl⟩ | ⟨s, hs, k, hk, hshown, hkn,
      hb, hkp⟩ <;>
    rcases kid_of_visible hok hgaps hbar hm hleaf' hb' hp' with ⟨hs', rfl⟩ | ⟨s', hs', k', hk',
      hshown', hkm, hb', hkp'⟩
    · exact hne rfl
    · simp [hs] at hs'
    · simp [hs] at hs'
    obtain rfl : s = s' := Option.some.inj (hs.symm.trans hs')
    obtain ⟨hkeys, -, hapart⟩ := kidBoxes_spec hgaps hbar hok hs rect suppress
    by_cases heq : k = k'
    · subst heq
      exact ih hkn hkm hb hb'
    cases hlinear : s.layout.isSplit with
    | true =>
      have : Std.Symm fun k k' : NodeId × Rect => k.2.Apart k'.2 :=
        ⟨fun _ _ h p hp hp' => h p hp' hp⟩
      exact (hapart hlinear).forall hk hk' heq p hkp hkp'
    | false =>
      -- one tab is shown
      rw [shownKids, hs] at hshown hshown'
      simp only [hlinear, Bool.false_eq_true, if_false, Option.mem_toList] at hshown hshown'
      have hkey := Option.some.inj (hshown.symm.trans hshown')
      refine heq (inj_on_of_nodup_map ?_ hk hk' hkey)
      exact hkeys.symm ▸ (hok.sound hs).nodup

/-- Every visible leaf gets a box. -/
theorem exists_box (hn : n ∈ t.collectVisible fuel id) (rect : Rect) (suppress : Bool) :
    ∃ b, (n, b) ∈ t.assign c fuel id rect suppress := by
  induction fuel generalizing id rect suppress with
  | zero => cases hn
  | succ fuel ih =>
    rw [collectVisible_eq_fold, fold] at hn
    split_ifs at hn with hleaf
    · rw [mem_singleton.mp hn, assign_succ, if_pos (contains_of_isSome_tile hleaf)]
      exact ⟨rect, mem_cons_self⟩
    · obtain ⟨l, hl, hn⟩ := mem_flatten.mp hn
      obtain ⟨k, hk, rfl⟩ := mem_map.mp hl
      rw [← collectVisible_eq_fold] at hn
      obtain ⟨s, hs, hks⟩ := splitAt_of_mem_children (mem_children_of_mem_shownKids hk)
      rw [← (kidBoxes_spec hgaps hbar hok hs rect suppress).1] at hks
      obtain ⟨e, he, rfl⟩ := mem_map.mp hks
      obtain ⟨b, hb⟩ := ih hn e.2 (suppress || !s.layout.isSplit)
      rw [assign_succ, if_pos (contains_of_splitAt hs), hs]
      exact ⟨b, mem_cons_of_mem _ (mem_flatMap.mpr ⟨e, he, hb⟩)⟩

end TilingTree

/-! ## 4. The boxes of a tree -/

/-- The last box recorded for a node stays. -/
theorem lookup_recordBoxes {boxes : List (NodeId × Rect)} {n : NodeId} {b : Rect}
    (h : (n, b) ∈ boxes) (table : FinMap NodeId Rect) :
    ∃ b, (n, b) ∈ boxes ∧ (recordBoxes boxes table).lookup n = some b := by
  obtain ⟨before, after, rfl⟩ := append_of_mem h
  have hn : n ∈ recordBoxes (before ++ (n, b) :: after) table :=
    (FinMap.mem_foldl_insert _ _ _ _ _).mpr (.inl ⟨_, h, rfl⟩)
  obtain ⟨v, hv⟩ := FinMap.mem_iff_lookup.mp hn
  have hv' := hv
  rw [recordBoxes, foldl_append, foldl_cons] at hv'
  rcases FinMap.lookup_foldl_insert_some _ _ _ hv' with ⟨e, he, rfl, rfl⟩ | hv'
  · exact ⟨_, mem_append_right _ (mem_cons_of_mem _ he), hv⟩
  · rw [AList.lookup_insert] at hv'
    exact ⟨v, Option.some.inj hv' ▸ h, hv⟩

namespace TilingTree

section Boxes

variable (t : TilingTree I)

/-- What the geometry pass reads. -/
def context : AssignContext where
  gaps := max t.gaps 0
  titlebarHeight := t.titlebarHeight
  excluded := t.splitExcluded

/-- The node the visible leaves are below. -/
def visibleTop : NodeId := t.fullscreenNode.getD t.root

/-- The area they share: below a fullscreen node, the view. -/
def visibleArea : Rect :=
  if t.fullscreenNode.isSome then { size := t.viewSize } else t.workspaceArea (max t.gaps 0)

abbrev boxes : List (NodeId × Rect) :=
  t.assign t.context t.size t.visibleTop t.visibleArea false

/-- Every visible leaf has a box, this box is inside the area, and it shares no point with the box of
    another visible leaf. -/
def WindowsApart : Prop :=
  ∀ n ∈ t.visibleLeaves, ∃ b, t.computeGeometry.leafBoxes.lookup n = some b ∧
    (∀ p, b.Covers p → t.visibleArea.Covers p) ∧
    ∀ m ∈ t.visibleLeaves, m ≠ n → ∀ b', t.computeGeometry.leafBoxes.lookup m = some b' →
      b.Apart b'

theorem leafBoxes_eq : ∃ table, t.computeGeometry.leafBoxes =
    recordBoxes (t.boxes.filter fun e => (t.tile e.1).isSome) table := by
  simp only [computeGeometry, assignedBoxes, boxes, visibleTop, visibleArea]
  rw [filter_append, recordBoxes, foldl_append]
  cases t.fullscreenNode with
  | none => exact ⟨∅, rfl⟩
  | some f => exact ⟨_, rfl⟩

end Boxes

variable {t : TilingTree I} {n : NodeId} {r : NodeId → ℕ} (hok : t.toArena.Ok True ∅ ∅ r)
variable (htop : t.contains t.visibleTop = true) (hbar : 0 ≤ t.titlebarHeight)
include hok htop hbar

/-- The box that is recorded for a visible leaf. -/
theorem box_of_visible (hn : n ∈ t.visibleLeaves) :
    Below t.shownKids t.visibleTop n ∧ (t.tile n).isSome ∧
      ∃ b, (n, b) ∈ t.boxes ∧ t.computeGeometry.leafBoxes.lookup n = some b := by
  have hvisible : t.visibleLeaves = t.collectVisible t.size t.visibleTop := by
    unfold visibleLeaves visibleTop
    cases t.fullscreenNode <;> rfl
  rw [hvisible] at hn
  obtain ⟨hbelow, hleaf⟩ := (mem_collectVisible hok htop).mp hn
  obtain ⟨b, hb⟩ := exists_box hok (c := t.context) (le_max_right _ _) hbar hn t.visibleArea false
  obtain ⟨table, hboxes⟩ := t.leafBoxes_eq
  rw [hboxes]
  have hmem : (n, b) ∈ t.boxes.filter fun e => (t.tile e.1).isSome :=
    mem_filter.mpr ⟨hb, hleaf⟩
  obtain ⟨b', hb', hlookup⟩ := lookup_recordBoxes hmem table
  exact ⟨hbelow, hleaf, b', (mem_filter.mp hb').1, hlookup⟩

theorem windowsApart : t.WindowsApart := by
  have hgaps : 0 ≤ t.context.gaps := le_max_right _ _
  intro n hn
  obtain ⟨hbelow, hleaf, b, hb, hlookup⟩ := box_of_visible hok htop hbar hn
  refine ⟨b, hlookup, fun p hp => (covers_of_mem hgaps hbar hok hb hp).2, ?_⟩
  intro m hm hne b' hlookup' p hp
  obtain ⟨hbelow', hleaf', v, hv, hlookup''⟩ := box_of_visible hok htop hbar hm
  obtain rfl : v = b' := Option.some.inj (hlookup''.symm.trans hlookup')
  exact apart_of_visible hok hgaps hbar hbelow hbelow' hne.symm hleaf hleaf' hb hv hp

end TilingTree

/-! ## 5. Runs -/

namespace World

variable [DecidableEq I]

/-- **Windows do not overlap**, in any tree of any reachable world. -/
theorem geometry_run (steps : List (Step I))
    (hsteps : Along (fun w step => step.sane w = true) { counter := 0 } steps) :
    ∀ t ∈ (run steps).trees, 0 ≤ t.titlebarHeight → t.WindowsApart := by
  have h := good_of_sane hsteps
  intro t ht hbar
  have hinv := h.trees t ht
  obtain ⟨r, hok, -⟩ := hinv.ok
  refine windowsApart hok ?_ hbar
  unfold visibleTop
  cases hfs : t.fullscreenNode with
  | none => exact hok.contains_root
  | some f => exact (hinv.side trivial).contains_fullscreenNode (fullscreenNode_some hfs)

/-- A window beside two tabs. -/
def tabsOnScreen : List (Step ℕ) :=
  [.newTree { parentArea := { size := { w := 800, h := 600 } }, titlebarHeight := 20 },
    openWindow 0 7, openWindow 0 8, .quiet 0 (.layout (.splitFocused .tabbed)), openWindow 0 9]

theorem geometry_run_tabs :
    (run tabsOnScreen).trees.map (fun t =>
      t.visibleLeaves.map fun n => (n, t.computeGeometry.leafBoxes.lookup n)) =
        [[(1, some ⟨⟨0, 0⟩, ⟨400, 600⟩⟩), (4, some ⟨⟨400, 20⟩, ⟨400, 580⟩⟩)]] ∧
    ∀ t ∈ (run tabsOnScreen).trees, t.WindowsApart := by
  have hbar : ∀ t ∈ (run tabsOnScreen).trees, 0 ≤ t.titlebarHeight := by decide +kernel
  exact ⟨by decide +kernel, fun t ht => geometry_run tabsOnScreen (by decide +kernel) t ht
    (hbar t ht)⟩

end World

end Swayward
