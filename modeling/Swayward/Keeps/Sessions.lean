/-
  File:      Swayward/Keeps/Sessions.lean
  Subject:   RESIZE SESSIONS: the tree an open session remembers is still there.

  A session names the leaf it resizes and, for each axis, two neighbouring siblings with the shares
  they had when it began. Nearly every operation closes the session or leaves alone what it reads
  (`Kept.minds`). The operations that carry a subtree to another place of the tree do neither.

  * `Coherent.interactiveResizeUpdate`: an update lands on the initial shares, changed by the amount
    the pointer has moved;
  * `drag_memoryless`: where a drag ends does not depend on the way there;
  * `SessionCoherent.runQuiet`: what an operation does to a session;
  * `sessions_run`: in a run in which no subtree is carried while a session is open, every session
    is coherent.
-/
import Swayward.Keeps.World
import Swayward.Tree.WellFormed

namespace Swayward

open Arena Forest List
open Option (all_some bind_some map_some mem_toList)

variable {I : Type}

/-! ## 1. Coherent sessions -/

namespace ResizeAxis

/-- The two siblings of an axis. -/
def siblings (axis : ResizeAxis) : List NodeId := [axis.first, axis.second]

/-- How far the pointer has moved the boundary, in shares. -/
def amount (axis : ResizeAxis) (delta : Point) : ℚ :=
  (if axis.horizontal then delta.x else delta.y) * axis.sign / max axis.axisSize 1

/-- Both shares stay positive. -/
def Fits (axis : ResizeAxis) (delta : Point) : Prop :=
  0 < axis.initialFirst + axis.amount delta ∧ 0 < axis.initialSecond - axis.amount delta

instance (axis : ResizeAxis) (delta : Point) : Decidable (axis.Fits delta) :=
  inferInstanceAs (Decidable (_ ∧ _))

/-- The siblings whose shares change. -/
def moved (axis : ResizeAxis) (delta : Point) : List NodeId :=
  if axis.Fits delta then axis.siblings else []

theorem moved_subset (axis : ResizeAxis) (delta : Point) : axis.moved delta ⊆ axis.siblings := by
  unfold moved
  split
  · exact Subset.refl _
  · exact nil_subset _

end ResizeAxis

open ResizeAxis

namespace TilingTree

variable {t t' u : TilingTree I} {a b p id : NodeId} {x y : ℚ}

/-- Neighbours are what the session reads of two siblings. -/
theorem Neighbours.siblingPercents (h : t.Neighbours a b x y) :
    t.siblingPercents a b = some (x, y) := by
  obtain ⟨p, i, j, h⟩ := h
  obtain ⟨ha, hb, s, hs, hi, hj, -, hx, hy⟩ := neighbourShares_iff.mp h
  simp only [TilingTree.siblingPercents, ha, hb, hs, hi, hj, bind_some, hx, hy, if_true]

/-- **A coherent session**: its target is the leaf of its window, the two siblings of each axis are
    neighbours whose shares sum to what they summed to at the start, and no node is in two axes. -/
structure Coherent (t : TilingTree I) (session : InteractiveResize I) : Prop where
  leaf : (t.tile session.target).map (·.window) = some session.window
  apart : (session.axes.flatMap siblings).Nodup
  shares : ∀ axis ∈ session.axes, ∃ x y, t.Neighbours axis.first axis.second x y ∧
    x + y = axis.initialFirst + axis.initialSecond

/-- The open session, if there is one, is coherent. -/
def SessionCoherent (t : TilingTree I) : Prop :=
  ∀ session, t.interactiveResize = some session → t.Coherent session

theorem SessionCoherent.of_none (h : t.interactiveResize = none) : t.SessionCoherent :=
  fun session hs => by rw [h] at hs; cases hs

theorem SessionCoherent.ite_fst {α : Type*} {P : Prop} [Decidable P] {v w : TilingTree I × α}
    (hv : P → v.1.SessionCoherent) (hw : ¬ P → w.1.SessionCoherent) :
    (if P then v else w).1.SessionCoherent := by
  split
  · exact hv ‹_›
  · exact hw ‹_›

theorem Coherent.steady {session : InteractiveResize I} (h : t.Coherent session)
    (hs : Steady t t') : t'.Coherent session where
  leaf := (hs.window _).trans h.leaf
  apart := h.apart
  shares axis ha := by
    obtain ⟨x, y, hn, hsum⟩ := h.shares axis ha
    exact ⟨x, y, hs.shares hn, hsum⟩

theorem SessionCoherent.minds (h : t.SessionCoherent) (hm : Minds t t') : t'.SessionCoherent := by
  rcases hm with hnone | ⟨he, hs⟩
  · exact .of_none hnone
  · exact fun session hsession => (h session (he ▸ hsession)).steady hs

/-! ## 2. Updating a session -/

/-- `s'` has the children of `s`, and its shares where they are not nodes of `N`. -/
structure Reshared (N : List NodeId) (s s' : Split) : Prop where
  children : s'.children = s.children
  percents : ∀ k : ℕ, (∀ n ∈ N, s.children[k]? ≠ some n) → s'.percents[k]? = s.percents[k]?

/-- `u` differs from `t` in the shares of nodes of `N` only. -/
structure Reshares (N : List NodeId) (t u : TilingTree I) : Prop where
  session : u.interactiveResize = t.interactiveResize
  window : ∀ n, (u.tile n).map (·.window) = (t.tile n).map (·.window)
  parent : ∀ n, u.parentOf n = t.parentOf n
  split : ∀ q, Option.Rel (Reshared N) (t.splitAt q) (u.splitAt q)

theorem Reshares.refl (N : List NodeId) (t : TilingTree I) : Reshares N t t where
  session := rfl
  window _ := rfl
  parent _ := rfl
  split q := by
    cases t.splitAt q with
    | none => exact .none
    | some s => exact .some ⟨rfl, fun _ _ => rfl⟩

theorem Reshares.trans {M N : List NodeId} {v : TilingTree I} (h : Reshares M t u)
    (h' : Reshares N u v) : Reshares (M ++ N) t v where
  session := h'.session.trans h.session
  window n := (h'.window n).trans (h.window n)
  parent n := (h'.parent n).trans (h.parent n)
  split q := by
    have hq := h.split q
    have hq' := h'.split q
    revert hq hq'
    generalize t.splitAt q = s, u.splitAt q = s', v.splitAt q = s''
    rintro (⟨hs⟩ | _) (⟨hs'⟩ | _)
    · refine .some ⟨hs'.children.trans hs.children, fun k hk => ?_⟩
      refine (hs'.percents k fun n hn => ?_).trans (hs.percents k fun n hn => ?_)
      · exact hs.children ▸ hk n (mem_append_right M hn)
      · exact hk n (mem_append_left N hn)
    · exact .none

/-- Neighbours outside `N` keep their shares. -/
theorem Reshares.shares {N : List NodeId} (h : Reshares N t u) (ha : a ∉ N) (hb : b ∉ N)
    (hn : t.Neighbours a b x y) : u.Neighbours a b x y := by
  obtain ⟨p, i, j, hn⟩ := hn
  obtain ⟨hap, hbp, s, hs, hi, hj, hij, hx, hy⟩ := neighbourShares_iff.mp hn
  have hp := h.split p
  rw [hs] at hp
  generalize hs' : u.splitAt p = o at hp
  obtain ⟨hp⟩ := hp
  have hstays : ∀ {n m}, n ∉ N → s.children.idxOf? n = some m →
      ∀ x ∈ N, s.children[m]? ≠ some x := fun hn hm x hx e => by
    rw [Positions.getElem?_of_idxOf? hm] at e
    cases e
    exact hn hx
  refine ⟨p, i, j, neighbourShares_iff.mpr ⟨(h.parent a).trans hap, (h.parent b).trans hbp, _, hs',
    hp.children ▸ hi, hp.children ▸ hj, hij, ?_, ?_⟩⟩
  · exact (hp.percents i (hstays ha hi)).trans hx
  · exact (hp.percents j (hstays hb hj)).trans hy

/-- **Two neighbours trade**: their shares change by `delta`, those of other nodes do not. -/
theorem resizeAdjacentInner_trades {i j : ℕ} (delta : ℚ)
    (h : t.neighbourShares a b = some (p, i, j, x, y)) (hx : 0 < x + delta) (hy : 0 < y - delta) :
    (t.resizeAdjacentInner a b delta).1.Neighbours a b (x + delta) (y - delta) ∧
      Reshares [a, b] t (t.resizeAdjacentInner a b delta).1 := by
  obtain ⟨ha, hb, s, hs, hi, hj, hij, hxi, hyj⟩ := neighbourShares_iff.mp h
  set v : TilingTree I := { t with toArena := t.modifySplit p (Split.transfer · i j x y delta) }
  have hrun : (t.resizeAdjacentInner a b delta).1 = v.requestWindowSizes := by
    unfold TilingTree.resizeAdjacentInner
    rw [h]
    simp only
    rw [if_neg (by push Not; exact ⟨hx, hy⟩)]
  rw [hrun]
  have hsplit : ∀ q, v.requestWindowSizes.splitAt q =
      if q = p then some (s.transfer i j x y delta) else t.splitAt q := fun q =>
    (splitAt_requestWindowSizes q).trans (splitAt_modifySplit_of hs q)
  have hparent : ∀ n, v.requestWindowSizes.parentOf n = t.parentOf n := fun n =>
    (parentOf_requestWindowSizes n).trans (parentOf_modifySplit _ _ _ _)
  have hi' : i < s.percents.length := (List.getElem?_eq_some_iff.mp hxi).1
  have hj' : j < s.percents.length := (List.getElem?_eq_some_iff.mp hyj).1
  refine ⟨⟨p, i, j, neighbourShares_iff.mpr ?_⟩, rfl, fun n => ?_, hparent, fun q => ?_⟩
  · refine ⟨(hparent a).trans ha, (hparent b).trans hb, _, (hsplit p).trans (if_pos rfl), hi, hj,
      hij, ?_, ?_⟩
    · simp only [Split.transfer]
      rw [getElem?_set_ne (by omega), getElem?_set_self hi']
    · simp only [Split.transfer]
      rw [getElem?_set_self (by simpa using hj')]
  · refine (window_requestWindowSizes n).trans ?_
    exact congrArg (Option.map (·.window)) (tile_modifySplit _ _ _ _)
  · rw [hsplit]
    split_ifs with e
    · rw [e, hs]
      refine .some ⟨rfl, fun k hk => ?_⟩
      have hik : i ≠ k := fun e => hk a mem_cons_self (e ▸ Positions.getElem?_of_idxOf? hi)
      have hjk : j ≠ k := fun e =>
        hk b (mem_cons_of_mem _ mem_cons_self) (e ▸ Positions.getElem?_of_idxOf? hj)
      simp only [Split.transfer]
      rw [getElem?_set_ne hjk, getElem?_set_ne hik]
    · exact (Reshares.refl _ t).split q

/-- The shares of an axis are the initial ones, changed by the amount moved, unless one of those
    would not be positive; their sum is the initial one in any case. -/
def Landed (t : TilingTree I) (axis : ResizeAxis) (delta : Point) : Prop :=
  ∃ x y, t.Neighbours axis.first axis.second x y ∧
    x + y = axis.initialFirst + axis.initialSecond ∧
    (0 < axis.initialFirst + axis.amount delta → 0 < axis.initialSecond - axis.amount delta →
      x = axis.initialFirst + axis.amount delta ∧ y = axis.initialSecond - axis.amount delta)

/-- **One axis is brought up to date.** -/
theorem updateAxis_lands {axis : ResizeAxis} (delta : Point)
    (h : t.Neighbours axis.first axis.second x y)
    (hsum : x + y = axis.initialFirst + axis.initialSecond) :
    (t.updateAxis axis delta).1.Landed axis delta ∧
      Reshares (axis.moved delta) t (t.updateAxis axis delta).1 := by
  have hrun : (t.updateAxis axis delta).1 =
      if axis.initialFirst + axis.amount delta ≤ 0 ∨ axis.initialSecond - axis.amount delta ≤ 0 then
        t
      else
        (t.resizeAdjacentInner axis.first axis.second
          (axis.initialFirst + axis.amount delta - x)).1 := by
    unfold updateAxis
    rw [h.siblingPercents]
    exact apply_ite Prod.fst _ _ _
  rw [hrun]
  by_cases hpos : axis.initialFirst + axis.amount delta ≤ 0 ∨
      axis.initialSecond - axis.amount delta ≤ 0
  · rw [if_pos hpos]
    refine ⟨⟨x, y, h, hsum, fun h1 h2 => ?_⟩, .refl _ t⟩
    rcases hpos with hpos | hpos
    · exact absurd h1 (not_lt.mpr hpos)
    · exact absurd h2 (not_lt.mpr hpos)
  · rw [if_neg hpos]
    push Not at hpos
    obtain ⟨p, i, j, hn⟩ := h
    have hfirst : x + (axis.initialFirst + axis.amount delta - x) =
        axis.initialFirst + axis.amount delta := by ring
    have hsecond : y - (axis.initialFirst + axis.amount delta - x) =
        axis.initialSecond - axis.amount delta := by linarith only [hsum]
    obtain ⟨hland, hbut⟩ := resizeAdjacentInner_trades
      (axis.initialFirst + axis.amount delta - x) hn
      (by rw [hfirst]; exact hpos.1) (by rw [hsecond]; exact hpos.2)
    rw [hfirst, hsecond] at hland
    rw [show axis.moved delta = axis.siblings from if_pos hpos]
    exact ⟨⟨_, _, hland, by ring, fun _ _ => ⟨rfl, rfl⟩⟩, hbut⟩

/-- All axes are brought up to date, one after the other. -/
theorem foldl_updateAxis_lands (axes : List ResizeAxis) (delta : Point) {z z' : TilingTree I × Bool}
    (hapart : (axes.flatMap siblings).Nodup)
    (hshares : ∀ axis ∈ axes, ∃ x y, z.1.Neighbours axis.first axis.second x y ∧
      x + y = axis.initialFirst + axis.initialSecond)
    (hz : axes.foldl (fun (t, changed) axis =>
      let (t, moved) := t.updateAxis axis delta
      (t, changed || moved)) z = z') :
    (∀ axis ∈ axes, z'.1.Landed axis delta) ∧
      Reshares (axes.flatMap (·.moved delta)) z.1 z'.1 := by
  induction axes generalizing z with
  | nil => exact ⟨(fun _ h => nomatch h), hz ▸ .refl _ _⟩
  | cons axis axes ih =>
    rw [flatMap_cons, nodup_append'] at hapart
    obtain ⟨-, hrest, hdisjoint⟩ := hapart
    obtain ⟨x, y, hn, hsum⟩ := hshares axis mem_cons_self
    obtain ⟨⟨x', y', hn', hland⟩, hbut⟩ := updateAxis_lands delta hn hsum
    have hout : ∀ other ∈ axes, ∀ n ∈ other.siblings, n ∉ axis.moved delta :=
      fun other ho n hn hn' => hdisjoint (axis.moved_subset delta hn')
        (mem_flatMap.mpr ⟨other, ho, hn⟩)
    have hlater : ∀ n ∈ axis.siblings, n ∉ axes.flatMap (·.moved delta) := fun n hn hn' => by
      obtain ⟨other, ho, hn'⟩ := mem_flatMap.mp hn'
      exact hdisjoint hn (mem_flatMap.mpr ⟨other, ho, other.moved_subset delta hn'⟩)
    obtain ⟨hall, hbut'⟩ := ih hrest (fun other ho => by
      obtain ⟨v, w, hvw, hsum'⟩ := hshares other (mem_cons_of_mem _ ho)
      refine ⟨v, w, hbut.shares ?_ ?_ hvw, hsum'⟩
      · exact hout other ho _ mem_cons_self
      · exact hout other ho _ (mem_cons_of_mem _ mem_cons_self)) hz
    refine ⟨fun other ho => ?_, hbut.trans hbut'⟩
    rcases mem_cons.mp ho with rfl | ho
    · -- the later axes do not touch this one
      refine ⟨x', y', hbut'.shares ?_ ?_ hn', hland⟩
      · exact hlater _ mem_cons_self
      · exact hlater _ (mem_cons_of_mem _ mem_cons_self)
    · exact hall other ho

section Sessions

variable {session : InteractiveResize I}
variable {r : NodeId → ℕ} {boxes : FinMap NodeId Rect} {axis : ResizeAxis} {g : Prop}

/-- **An update lands**: every axis of a coherent session ends on its initial shares, changed by the
    amount moved, and the session is coherent afterwards. -/
theorem Coherent.interactiveResizeUpdate [DecidableEq I] (h : t.Coherent session)
    (hs : t.interactiveResize = some session) {delta : Point} {z : TilingTree I × Bool}
    (hz : t.interactiveResizeUpdate session.window delta = z) :
    (∀ axis ∈ session.axes, z.1.Landed axis delta) ∧ z.1.interactiveResize = some session ∧
      z.1.Coherent session ∧ Reshares (session.axes.flatMap (·.moved delta)) t z.1 := by
  unfold TilingTree.interactiveResizeUpdate at hz
  rw [hs] at hz
  obtain ⟨hland, hbut⟩ := foldl_updateAxis_lands session.axes delta (z := (t, false)) h.apart
    h.shares ((if_pos rfl).symm.trans hz)
  refine ⟨hland, hbut.session.trans hs, ⟨(hbut.window _).trans h.leaf, h.apart, fun axis ha => ?_⟩,
    hbut⟩
  obtain ⟨x, y, hn, hsum, -⟩ := hland axis ha
  exact ⟨x, y, hn, hsum⟩

theorem SessionCoherent.interactiveResizeUpdate [DecidableEq I] (h : t.SessionCoherent) (window : I)
    (delta : Point) : (t.interactiveResizeUpdate window delta).1.SessionCoherent := by
  cases hs : t.interactiveResize with
  | none =>
    unfold TilingTree.interactiveResizeUpdate
    rw [hs]
    exact h
  | some session =>
    by_cases hw : session.window = window
    · subst hw
      obtain ⟨-, hsame, hcoherent, -⟩ := (h session hs).interactiveResizeUpdate hs rfl
      intro session' hs'
      rw [hsame] at hs'
      cases hs'
      exact hcoherent
    · unfold TilingTree.interactiveResizeUpdate
      rw [hs]
      simp only [if_neg hw]
      exact h

/-! ## 3. Opening a session -/

/-- The neighbour in a list of different nodes stands next to the entry. -/
theorem idxOf?_neighbour {l : List NodeId} (hl : l.Nodup) {i : ℕ} {backwards : Bool}
    (h : neighbour l i backwards = some b) :
    ∃ j, l.idxOf? b = some j ∧ (i + 1 = j ∨ j + 1 = i) := by
  have hat : ∀ j, l[j]? = some b → l.idxOf? b = some j := fun j hj => by
    obtain ⟨hlt, hb⟩ := List.getElem?_eq_some_iff.mp hj
    rw [idxOf?_eq_some_iff]
    refine ⟨hlt, by simp [hb], fun k hk hkb => ?_⟩
    have hkb : l[k] = b := by simpa using hkb
    exact hk.ne ((Nodup.getElem_inj_iff hl).mp (hkb.trans hb.symm))
  unfold neighbour at h
  split at h
  · split at h
    · cases h
    · exact ⟨i - 1, hat _ h, .inr (by omega)⟩
  · exact ⟨i + 1, hat _ h, .inl rfl⟩

/-- **A boundary is one of neighbours**, in a split with the layout asked for. -/
theorem resizeBoundary_spec (hok : t.toArena.Ok g ∅ ∅ r) {layout : Layout}
    {towardBefore : Bool} (fuel : ℕ) {branch : NodeId} {boundary : Boundary}
    (h : t.resizeBoundary boxes layout towardBefore fuel branch = some boundary) :
    ∃ p i j, t.neighbourShares boundary.first boundary.second =
      some (p, i, j, boundary.firstShare, boundary.secondShare) ∧ t.layoutOf p = some layout := by
  fun_induction resizeBoundary t boxes layout towardBefore fuel branch with
  | case6 fuel branch p hp s hs hlayout i hi boundary' hat =>
    -- there is a neighbour on that side
    cases h
    unfold boundaryAt at hat
    split at hat
    · cases hat
    rename_i second hsecond
    obtain ⟨j, hj, hij⟩ := idxOf?_neighbour (hok.sound hs).nodup hsecond
    split at hat
    · rename_i box x y _ hx hy
      cases hat
      rw [hj, bind_some] at hy
      have hmem : second ∈ t.children p := by
        rw [children_of_splitAt hs]
        exact Positions.mem_of_idxOf? hj
      refine ⟨p, i, j, neighbourShares_iff.mpr ⟨hp, hok.kid_parent hmem, s, hs, hi, hj, hij, hx,
        hy⟩, ?_⟩
      simp only [Arena.layoutOf, hs, map_some, hlayout]
    · cases hat
  | case7 _ _ _ _ _ _ _ _ _ _ ih => exact ih h
  | case8 _ _ _ _ _ _ _ ih => exact ih h
  | _ => cases h

theorem resizeAxis_spec (hok : t.toArena.Ok g ∅ ∅ r) {horizontal towardBefore : Bool}
    (h : t.resizeAxis boxes id horizontal towardBefore = some axis) :
    ∃ p i j, t.neighbourShares axis.first axis.second =
      some (p, i, j, axis.initialFirst, axis.initialSecond) ∧
        t.layoutOf p = some (axisLayout horizontal) := by
  obtain ⟨boundary, hb, rfl⟩ := Option.map_eq_some_iff.mp h
  exact resizeBoundary_spec hok _ hb

/-- The siblings of an axis are two nodes. -/
theorem nodup_siblings (h : t.Neighbours axis.first axis.second x y) : axis.siblings.Nodup := by
  obtain ⟨p, i, j, h⟩ := h
  obtain ⟨-, -, s, -, hi, hj, hij, -, -⟩ := neighbourShares_iff.mp h
  refine nodup_cons.mpr ⟨fun hm => ?_, nodup_singleton _⟩
  rw [mem_singleton] at hm
  rw [hm, hj] at hi
  cases hi
  omega

/-- The siblings of an axis have one parent. -/
theorem parentOf_siblings {i j : ℕ}
    (h : t.neighbourShares axis.first axis.second = some (p, i, j, x, y)) :
    ∀ n ∈ axis.siblings, t.parentOf n = some p := by
  obtain ⟨ha, hb, -⟩ := neighbourShares_iff.mp h
  intro n hn
  rcases mem_cons.mp hn with rfl | hn
  · exact ha
  · rw [mem_singleton.mp hn]
    exact hb

/-- The axes of a new session: at most one of each orientation, in different splits. -/
theorem apart_axes (hok : t.toArena.Ok g ∅ ∅ r) {left top : Bool}
    {o o' : Option ResizeAxis} (ho : ∀ axis ∈ o, t.resizeAxis boxes id true left = some axis)
    (ho' : ∀ axis ∈ o', t.resizeAxis boxes id false top = some axis) :
    ((o.toList ++ o'.toList).flatMap siblings).Nodup := by
  have hone : ∀ {q : Option ResizeAxis} {horizontal toward : Bool},
      (∀ axis ∈ q, t.resizeAxis boxes id horizontal toward = some axis) →
        (q.toList.flatMap siblings).Nodup := fun {q _ _} hq => by
    cases q with
    | none => exact nodup_nil
    | some axis =>
      obtain ⟨p, i, j, hn, -⟩ := resizeAxis_spec hok (hq axis rfl)
      simpa using nodup_siblings ⟨p, i, j, hn⟩
  rw [flatMap_append, nodup_append']
  refine ⟨hone ho, hone ho', fun n hn hn' => ?_⟩
  obtain ⟨axis, ha, hna⟩ := mem_flatMap.mp hn
  obtain ⟨axis', ha', hna'⟩ := mem_flatMap.mp hn'
  obtain ⟨p, i, j, hp, hlayout⟩ := resizeAxis_spec hok (ho axis (mem_toList.mp ha))
  obtain ⟨p', i', j', hp', hlayout'⟩ := resizeAxis_spec hok (ho' axis' (mem_toList.mp ha'))
  -- a node in both axes would have its parent run both ways
  have hsame := (parentOf_siblings hp n hna).symm.trans (parentOf_siblings hp' n hna')
  cases hsame
  rw [hlayout] at hlayout'
  cases hlayout'

/-- **A new session is coherent.** -/
theorem SessionCoherent.interactiveResizeBegin [DecidableEq I]
    (hok : t.toArena.Ok g ∅ ∅ r) (h : t.SessionCoherent) (window : I) (edges : ResizeEdge) :
    (t.interactiveResizeBegin window edges).1.SessionCoherent := by
  unfold TilingTree.interactiveResizeBegin
  refine .ite_fst (fun _ => h) fun _ => ?_
  split
  · exact h
  rename_i id hid
  refine .ite_fst (fun _ => h) fun _ => .ite_fst (fun _ => h) fun _ session hs => ?_
  cases hs
  have hh : ∀ axis ∈ (if edges.leftRight then
      t.resizeAxis t.computeGeometry.ipcNodes id true edges.left else none),
      t.resizeAxis t.computeGeometry.ipcNodes id true edges.left = some axis :=
    fun axis ha => (Option.ite_none_right_eq_some.mp ha).2
  have hv : ∀ axis ∈ (if edges.topBottom then
      t.resizeAxis t.computeGeometry.ipcNodes id false edges.top else none),
      t.resizeAxis t.computeGeometry.ipcNodes id false edges.top = some axis :=
    fun axis ha => (Option.ite_none_right_eq_some.mp ha).2
  refine ⟨?_, apart_axes hok hh hv, fun axis ha => ⟨_, _, ?_, rfl⟩⟩
  · obtain ⟨tile, ht, rfl⟩ := nodeForWindow_some hid
    exact congrArg (Option.map (·.window)) ht
  rcases mem_append.mp ha with ha | ha
  · obtain ⟨p, i, j, hn, -⟩ := resizeAxis_spec hok (hh axis (mem_toList.mp ha))
    exact ⟨p, i, j, hn⟩
  · obtain ⟨p, i, j, hn, -⟩ := resizeAxis_spec hok (hv axis (mem_toList.mp ha))
    exact ⟨p, i, j, hn⟩

/-! ## 4. Where a drag ends -/

/-- The tree after the pointer went through `deltas`. -/
def drag [DecidableEq I] (t : TilingTree I) (window : I) (deltas : List Point) : TilingTree I :=
  deltas.foldl (fun t delta => (t.interactiveResizeUpdate window delta).1) t

theorem drag_concat [DecidableEq I] (window : I) (deltas : List Point) (delta : Point) :
    t.drag window (deltas ++ [delta]) =
      ((t.drag window deltas).interactiveResizeUpdate window delta).1 :=
  foldl_concat _ _ _ _

theorem Coherent.drag [DecidableEq I] (h : t.Coherent session)
    (hs : t.interactiveResize = some session) (deltas : List Point) :
    (t.drag session.window deltas).Coherent session ∧
      (t.drag session.window deltas).interactiveResize = some session ∧
      ∃ N ⊆ session.axes.flatMap siblings, Reshares N t (t.drag session.window deltas) := by
  induction deltas generalizing t with
  | nil => exact ⟨h, hs, [], nil_subset _, .refl _ t⟩
  | cons delta deltas ih =>
    obtain ⟨-, hs', h', hr⟩ := h.interactiveResizeUpdate hs rfl
    obtain ⟨hc, hsame, N, hN, hr'⟩ := ih h' hs'
    refine ⟨hc, hsame, _, append_subset.mpr ⟨fun n hn => ?_, hN⟩, hr.trans hr'⟩
    obtain ⟨axis, ha, hn⟩ := mem_flatMap.mp hn
    exact mem_flatMap.mpr ⟨axis, ha, axis.moved_subset delta hn⟩

/-- The shares of neighbours, where the old tree lists them. -/
theorem Reshares.share {N : List NodeId} {q : NodeId} {s s' : Split}
    (hr : Reshares N t u) (hok : t.toArena.Ok g ∅ ∅ r) (h : u.Neighbours a b x y)
    (hs : t.splitAt q = some s) (hs' : u.splitAt q = some s') (hc : s'.children = s.children)
    (k : ℕ) :
    (s.children[k]? = some a → s'.percents[k]? = some x) ∧
      (s.children[k]? = some b → s'.percents[k]? = some y) := by
  obtain ⟨p, i, j, h⟩ := h
  obtain ⟨ha, hb, s0, hs0, hi, hj, -, hx, hy⟩ := neighbourShares_iff.mp h
  have hat : ∀ {n m z}, u.parentOf n = some p → s0.children.idxOf? n = some m →
      s0.percents[m]? = some z → s.children[k]? = some n → s'.percents[k]? = some z :=
    fun {n m z} hn hm hz hk => by
    -- a node has one parent and stands there once
    have hparent := hok.kid_parent (children_of_splitAt hs ▸ mem_of_getElem? hk)
    rw [← hr.parent, hn] at hparent
    cases hparent
    rw [hs0] at hs'
    cases hs'
    have hkm : s.children[m]? = some n := hc ▸ Positions.getElem?_of_idxOf? hm
    rwa [(List.getElem?_inj (List.getElem?_eq_some_iff.mp hk).1 (hok.sound hs).nodup).mp
      (hk.trans hkm.symm)]
  exact ⟨hat ha hi hx, hat hb hj hy⟩

/-- **Two drags that end at one position** where every axis fits leave the same shares. -/
theorem Coherent.drag_last [DecidableEq I] (h : t.Coherent session)
    (hok : t.toArena.Ok g ∅ ∅ r) (hs : t.interactiveResize = some session) {delta : Point}
    (hfits : ∀ axis ∈ session.axes, axis.Fits delta) (ds es : List Point) (q : NodeId) :
    ((t.drag session.window (ds ++ [delta])).splitAt q).map (·.percents) =
      ((t.drag session.window (es ++ [delta])).splitAt q).map (·.percents) := by
  have hend : ∀ ds, ∀ axis ∈ session.axes,
      (t.drag session.window (ds ++ [delta])).Neighbours axis.first axis.second
        (axis.initialFirst + axis.amount delta) (axis.initialSecond - axis.amount delta) :=
    fun ds axis ha => by
      obtain ⟨hc, hsame, -⟩ := h.drag hs ds
      obtain ⟨x, y, hn, -, hland⟩ := (hc.interactiveResizeUpdate hsame rfl).1 axis ha
      obtain ⟨rfl, rfl⟩ := hland (hfits axis ha).1 (hfits axis ha).2
      rwa [drag_concat]
  obtain ⟨-, -, M, hM, hr⟩ := h.drag hs (ds ++ [delta])
  obtain ⟨-, -, N, hN, hr'⟩ := h.drag hs (es ++ [delta])
  have hq := hr.split q
  have hq' := hr'.split q
  generalize ht : t.splitAt q = s, hu : (t.drag session.window (ds ++ [delta])).splitAt q = s1,
    hv : (t.drag session.window (es ++ [delta])).splitAt q = s2 at hq hq'
  obtain @⟨s, s1, hq⟩ | _ := hq
  · obtain ⟨hq'⟩ := hq'
    rw [map_some, map_some, Option.some.injEq]
    refine ext_getElem? fun k => ?_
    by_cases hk : ∀ n ∈ session.axes.flatMap siblings, s.children[k]? ≠ some n
    · refine (hq.percents k fun n hn => hk n (hM hn)).trans ?_
      exact (hq'.percents k fun n hn => hk n (hN hn)).symm
    · push Not at hk
      obtain ⟨n, hmem, hk⟩ := hk
      obtain ⟨axis, ha, hmem⟩ := mem_flatMap.mp hmem
      obtain ⟨hfirst, hsecond⟩ := hr.share hok (hend ds axis ha) ht hu hq.children k
      obtain ⟨hfirst', hsecond'⟩ := hr'.share hok (hend es axis ha) ht hv hq'.children k
      rcases mem_cons.mp hmem with rfl | hmem
      · exact (hfirst hk).trans (hfirst' hk).symm
      · cases mem_singleton.mp hmem
        exact (hsecond hk).trans (hsecond' hk).symm
  · cases hq'
    rfl

/-- **One update, axis by axis**: an axis that does not fit keeps its shares. -/
theorem Coherent.drag_step [DecidableEq I] (h : t.Coherent session)
    (hs : t.interactiveResize = some session) (delta : Point) (ha : axis ∈ session.axes) :
    (t.interactiveResizeUpdate session.window delta).1.siblingPercents axis.first axis.second =
      if axis.Fits delta then
        some (axis.initialFirst + axis.amount delta, axis.initialSecond - axis.amount delta)
      else t.siblingPercents axis.first axis.second := by
  obtain ⟨hland, -, -, hr⟩ := h.interactiveResizeUpdate hs rfl
  split
  · rename_i hfits
    obtain ⟨x, y, hn, -, hland⟩ := hland axis ha
    obtain ⟨rfl, rfl⟩ := hland hfits.1 hfits.2
    exact hn.siblingPercents
  rename_i hfits
  obtain ⟨x, y, hn, -⟩ := h.shares axis ha
  have hout : ∀ n ∈ axis.siblings, n ∉ session.axes.flatMap (·.moved delta) := fun n hn hn' => by
    obtain ⟨other, ho, hn'⟩ := mem_flatMap.mp hn'
    have hne : axis ≠ other := by
      rintro rfl
      rw [moved, if_neg hfits] at hn'
      cases hn'
    have hsymm : Std.Symm (Function.onFun List.Disjoint siblings) := ⟨fun _ _ hd => hd.symm⟩
    exact (nodup_flatMap.mp h.apart).2.forall ha ho hne hn (other.moved_subset delta hn')
  have hn' := hr.shares (hout _ mem_cons_self) (hout _ (mem_cons_of_mem _ mem_cons_self)) hn
  rw [hn.siblingPercents, hn'.siblingPercents]

theorem interactiveResizeBegin_succeeds [DecidableEq I] {window : I} {edges : ResizeEdge}
    (h : t.interactiveResizeBegin window edges = (u, true)) :
    t.interactiveResize = none ∧ u.toArena = t.toArena ∧
      ∃ session, u.interactiveResize = some session ∧ session.window = window := by
  revert h
  fun_cases TilingTree.interactiveResizeBegin t window edges with
  | case5 hnone =>
    rintro ⟨⟩
    exact ⟨by simpa using hnone, rfl, _, rfl, rfl⟩
  | _ => exact fun h => nomatch h

/-- **A drag has no memory but its last position**: two drags of one boundary that end at a position
    where every axis fits leave the same shares in the whole tree, and an axis that does not fit
    keeps its shares while the others are brought up to date. -/
theorem drag_memoryless [DecidableEq I] (h : t.toArena.WellFormed) (window : I) (edges : ResizeEdge)
    (hbegin : t.interactiveResizeBegin window edges = (u, true)) :
    ∃ session, u.interactiveResize = some session ∧
      (∀ ds es delta, (∀ axis ∈ session.axes, axis.Fits delta) → ∀ q,
        ((u.drag window (ds ++ [delta])).splitAt q).map (·.percents) =
          ((u.drag window (es ++ [delta])).splitAt q).map (·.percents)) ∧
      ∀ ds delta, ∀ axis ∈ session.axes,
        (u.drag window (ds ++ [delta])).siblingPercents axis.first axis.second =
          if axis.Fits delta then
            some (axis.initialFirst + axis.amount delta, axis.initialSecond - axis.amount delta)
          else (u.drag window ds).siblingPercents axis.first axis.second := by
  obtain ⟨r, hok⟩ := h.ok
  obtain ⟨hnone, harena, session, hs, rfl⟩ := interactiveResizeBegin_succeeds hbegin
  have hcoherent := SessionCoherent.interactiveResizeBegin hok (.of_none hnone) session.window edges
  rw [hbegin] at hcoherent
  rw [← harena] at hok
  refine ⟨session, hs, fun ds es delta hfits => (hcoherent _ hs).drag_last hok hs hfits ds es,
    fun ds delta axis ha => ?_⟩
  obtain ⟨hc, hsame, -⟩ := (hcoherent _ hs).drag hs ds
  rw [drag_concat]
  exact hc.drag_step hsame delta ha

/-! ## 5. What the operations do to a session -/

variable {c : Ctx I}

theorem Minds.closed {E : Set NodeId} (h : Inv c.calmed E u) : Minds t u := .inl (h.calm trivial)

/-- **A resize command keeps the session coherent**; an update lands, and a new session is
    coherent from the start. -/
theorem SessionCoherent.runResize [DecidableEq I] (hinv : Inv c ∅ t) (h : t.SessionCoherent)
    (op : ResizeOp I) :
    (op.run t).SessionCoherent := by
  cases op with
  | resizeAdjacent => exact h.minds (hinv.resizeAdjacent _ _ _).minds
  | resizeAcrossSiblings => exact h.minds (hinv.resizeAcrossSiblings _ _ _).minds
  | resizeNodeDimension => exact h.minds (hinv.resizeNodeDimension _ _ _).minds
  | resizeNodeEdgeCommand => exact h.minds (hinv.resizeNodeEdgeCommand _ _ _).minds
  | setNodeSizeSway => exact h.minds (hinv.setNodeSizeSway _ _ _).minds
  | toggleFullWidth => exact h.minds hinv.toggleFullWidth.minds
  | setWindowDimension => exact h.minds (hinv.setWindowDimension _ _ _).minds
  | resizeWindowEdge => exact h.minds (hinv.resizeWindowEdge _ _ _).minds
  | resetWindowHeight => exact h.minds (hinv.resetWindowHeight _).minds
  | togglePreset => exact h.minds (hinv.togglePreset _ _ _).minds
  | interactiveResizeBegin window edges =>
    obtain ⟨r, hok, -⟩ := hinv.ok
    exact h.interactiveResizeBegin hok window edges
  | interactiveResizeUpdate window delta => exact h.interactiveResizeUpdate window delta
  | interactiveResizeEnd => exact h.minds (hinv.interactiveResizeEnd _).minds

/-- Adding or removing a window closes the session. -/
theorem minds_runTile [DecidableEq I] (h : Inv c ∅ t) (hb : ¬ c.bare) (hdeep : ¬ c.deep)
    (hmarks : ¬ c.marks) (op : TileOp I) (hp : op.promised t = true) : Minds t (op.run t) := by
  cases op with
  | addTileWithActivation tile target activate =>
    exact .closed (h.addTileWithActivation tile target activate hb fun hd => absurd hd hdeep).1
  | addTileAtDrop tile target edge activate =>
    exact .closed (h.addTileAtDrop tile target edge activate hb).1
  | addTileToExistingParent tile parent activate =>
    obtain ⟨hsplit, hroot⟩ := Bool.and_eq_true_iff.mp hp
    obtain ⟨s, hs⟩ := (t.isSplit_eq_true parent).mp hsplit
    exact .closed (h.addTileToExistingParent tile hs (by simpa using hroot) activate
      fun hd => absurd hd hdeep)
  | removeTileNode id =>
    cases ht : t.tile id with
    | none =>
      simp only [TileOp.run, TilingTree.removeTileNode, ht]
      exact .refl t
    | some tile => exact .closed (h.removeTileNode ht fun hm => absurd hm hmarks)
  | removeTile window =>
    cases e : t.nodeForWindow window with
    | none =>
      simp only [TileOp.run, TilingTree.removeTile, e]
      exact .refl t
    | some id => exact .closed ((h.removeTile window fun hm => absurd hm hmarks).2 id e)
  | removeTileForTransfer window =>
    cases e : t.nodeForWindow window with
    | none =>
      simp only [TileOp.run, TilingTree.removeTileForTransfer, e]
      exact .refl t
    | some id =>
      exact .closed ((h.removeTileForTransfer window fun hm => absurd hm hmarks).2 id e)

/-! ## 6. Runs -/

end Sessions

end TilingTree

open TilingTree

variable [DecidableEq I]

/-- The move goes through and carries a subtree to another place without closing the session. -/
def MoveOp.carries (t : TilingTree I) : MoveOp I → Bool
  | .swapNodes first second => (t.checkSwappable first second).isOk
  | .moveSubtreeToNode id destination =>
    id ≠ t.root && id ≠ destination && t.contains id && t.contains destination &&
      !t.containsNode id destination &&
      (t.nodeDestination destination).any fun slot => t.fitsBelow slot.1 (t.subtreeHeight id)
  | _ => false

/-- No subtree is carried to another place of a tree while a session is open there. -/
def Step.keepsSessions (w : World I) : Step I → Bool
  | .quiet i (.move op) => (w.tree i).all fun t => t.interactiveResize.isNone || !op.carries t
  | .attach i _ _ _ => (w.tree i).all (·.interactiveResize.isNone)
  | _ => true

namespace TilingTree

variable {c : Ctx I} {t : TilingTree I}

omit [DecidableEq I] in
/-- No session is open. -/
theorem Inv.calmed_of_none {E : Set NodeId} (h : Inv c E t) (hnone : t.interactiveResize = none) :
    Inv c.calmed E t :=
  { h with calm := fun _ => hnone }

theorem moveSubtreeToNode_of_not_carries {id destination : NodeId}
    (h : MoveOp.carries t (.moveSubtreeToNode id destination) = false) :
    (t.moveSubtreeToNode id destination).1 = t := by
  unfold TilingTree.moveSubtreeToNode
  split
  · rfl
  rename_i hguard
  simp only
  split
  · rfl
  rename_i p after hslot
  rw [if_pos]
  simp only [not_or, Bool.not_eq_true', Bool.not_eq_false] at hguard
  obtain ⟨hroot, hne, hid, hdest, hinside⟩ := hguard
  simpa [MoveOp.carries, hroot, hne, hid, hdest, hinside, hslot] using h

omit [DecidableEq I] in
theorem swapNodes_of_error {first second : NodeId}
    (h : (t.checkSwappable first second).isOk = false) : (t.swapNodes first second).1 = t := by
  unfold TilingTree.swapNodes
  split
  · rfl
  · rename_i e
    rw [e] at h
    cases h

theorem minds_runMove (h : Inv c ∅ t) (hh : c.side → c.hole = ∅) (hd : c.side → c.Distinct)
    (hdeep : ¬ c.deep) (hmarks : ¬ c.marks) (op : MoveOp I)
    (hkeep : t.interactiveResize = none ∨ op.carries t = false) : Minds t (op.run t) := by
  rcases hkeep with hnone | hkeep
  · exact .closed ((h.calmed_of_none hnone).runMove hh hd op (fun hd => absurd hd hdeep)
      fun hm => absurd hm hmarks)
  have hd' : ∀ {P : Prop}, c.deep → P := fun hd => absurd hd hdeep
  have hm' : ∀ {P : Prop}, c.marks → P := fun hm => absurd hm hmarks
  cases op with
  | moveDirection id direction => exact (h.moveDirection hh id direction hd' hm').minds
  | moveNodeDirection id direction => exact (h.moveNodeDirection hh hd id direction hd' hm').minds
  | moveSubtreeToIndex id index => exact .closed (h.moveSubtreeToIndex hh id index)
  | moveSubtreeToNode id destination =>
    rw [MoveOp.run, moveSubtreeToNode_of_not_carries hkeep]
    exact .refl t
  | swapNodes first second =>
    rw [MoveOp.run, swapNodes_of_error hkeep]
    exact .refl t
  | consume id right => exact (h.consume id right).minds
  | expel id after => exact (h.expel id after hm').minds
  | expelOrConsume window right => exact (h.expelOrConsume hh window right hm').minds

/-- **Every quiet operation keeps the session coherent**, unless it carries a subtree. -/
theorem SessionCoherent.runQuiet (hinv : Inv c ∅ t) (hfa : c.full → c.awake)
    (hh : c.side → c.hole = ∅) (hd : c.side → c.Distinct) (hb : ¬ c.bare) (hdeep : ¬ c.deep)
    (hmarks : ¬ c.marks) (h : t.SessionCoherent) (op : QuietOp I)
    (hp : c.awake → op.promised t = true)
    (hkeep : ∀ move, op = .move move → t.interactiveResize = none ∨ move.carries t = false) :
    (op.run t).SessionCoherent := by
  cases op with
  | layout op => exact h.minds (hinv.runLayout hfa op).minds
  | move op => exact h.minds (minds_runMove hinv hh hd hdeep hmarks op (hkeep op rfl))
  | resize op => exact h.runResize hinv op
  | mode op => exact h.minds (hinv.runMode hb op).minds
  | focus op => exact h.minds (hinv.runFocus hh op hp).minds

/-- A swap between trees closes the sessions of both first. -/
theorem swapNodesBetween_close (t u : TilingTree I) (first second : NodeId) :
    t.swapNodesBetween u first second =
      ({ t with interactiveResize := none } : TilingTree I).swapNodesBetween
        { u with interactiveResize := none } first second := rfl

end TilingTree

namespace World

variable {w : World I} {t u : TilingTree I} {i : ℕ}

/-- Every session that is open in a tree is coherent. -/
def SessionsCoherent (w : World I) : Prop := ∀ t ∈ w.trees, t.SessionCoherent

omit [DecidableEq I] in
theorem SessionsCoherent.tree (h : w.SessionsCoherent) (ht : w.tree i = some t) :
    t.SessionCoherent := by
  obtain ⟨t0, h0, rfl⟩ := Option.map_eq_some_iff.mp ht
  exact (h t0 (mem_of_getElem? h0)).minds
    (.inr ⟨rfl, .of_readings (fun _ => rfl) (fun _ => rfl) fun _ => rfl⟩)

omit [DecidableEq I] in
theorem SessionsCoherent.put (h : w.SessionsCoherent) (hu : u.SessionCoherent) {v : World I}
    (hv : v.trees = w.trees.set i u) : v.SessionsCoherent := by
  intro x hx
  rw [hv] at hx
  rcases mem_or_eq_of_mem_set hx with hx | rfl
  · exact h x hx
  · exact hu

omit [DecidableEq I] in
theorem SessionsCoherent.push (h : w.SessionsCoherent) (hu : u.SessionCoherent) {v : World I}
    (hv : v.trees = w.trees ++ [u]) : v.SessionsCoherent := by
  intro x hx
  rw [hv] at hx
  rcases mem_append.mp hx with hx | hx
  · exact h x hx
  · rw [mem_singleton.mp hx]
    exact hu

/-- **One step keeps the sessions coherent.** -/
theorem SessionsCoherent.step (hgood : Good False False w) (h : w.SessionsCoherent) (step : Step I)
    (hsane : step.sane w = true) (hkeep : step.keepsSessions w = true) :
    (w.step step).SessionsCoherent := by
  cases step with
  | newTree config => exact h.push (.of_none rfl) rfl
  | quiet i op =>
    rw [World.step]
    split
    · rename_i t ht
      obtain ⟨hinv, -, hperm, -⟩ := hgood.tree ht
      have hd : t.held.Nodup := (hperm.nodup_iff.mp hgood.distinct).of_append_left
      have hp : op.promised t = true := by simpa [Step.sane, ht] using hsane
      refine h.put ((h.tree ht).runQuiet hinv (fun _ => trivial) (fun _ => rfl)
        (fun _ => hinv.distinct hd) id id id op (fun _ => hp) ?_) rfl
      rintro move rfl
      simpa [Step.keepsSessions, ht] using hkeep
    · exact h
  | tile i op =>
    rw [World.step]
    split
    · rename_i t ht
      obtain ⟨hinv, -⟩ := hgood.tree ht
      simp only [Step.sane, ht, all_some] at hsane
      split
      · exact h
      · exact h.put ((h.tree ht).minds (minds_runTile hinv id id id op hsane)) rfl
    · exact h
  | detach i id =>
    rw [World.step]
    split
    · rename_i v sub q hv
      obtain ⟨t, ht, hv⟩ := Option.bind_eq_some_iff.mp hv
      obtain ⟨hinv, -⟩ := hgood.tree ht
      have hfin := hinv.detachFinish (contains_of_detachSubtree hv) False.elim hv
      exact h.put (.of_none (hfin.calm trivial)) rfl
    · exact h
  | attach i k target unwrap =>
    rw [World.step]
    split
    · rename_i t sub ht hk
      obtain ⟨hinv, hcount, -, -⟩ := hgood.tree ht
      simp only [Step.sane, Step.keepsSessions, ht, hk, all_some, Bool.and_eq_true,
        Bool.or_eq_true, Bool.not_eq_true', Option.isNone_iff_eq_none] at hsane hkeep
      have hfit : sub.node.Fit (ctx False False t).calmed t.counter :=
        (hgood.transit sub (mem_of_getElem? hk)).congr rfl rfl rfl hcount.ge
      have htarget : ∀ x, target.filter (· < w.counter) = some x →
          t.outside sub.node x = true := fun x hx => by
        have := hsane.2
        rwa [hx] at this
      have hatt := (hinv.calmed_of_none hkeep).attachSubtreeWith trivial sub hfit htarget unwrap
        (hsane.1.imp_right fun hne => by simpa using hne) False.elim False.elim
      exact h.put (.of_none (hatt.calm trivial)) rfl
    · exact h
  | group k config =>
    rw [World.step]
    split
    · rename_i sub hk
      simp only [Step.sane, hk, all_some, Bool.not_eq_true'] at hsane
      have hfit : sub.node.Fit (ctx False False (new 0 {} : TilingTree I)).calmed (w.counter + 1) :=
        (hgood.transit sub (mem_of_getElem? hk)).congr rfl rfl rfl (Nat.le_succ _)
      have hinv := Inv.fromDetachedSubtree w.counter config sub hfit
        (fun _ => by simpa using hsane) False.elim False.elim
      exact h.push (.of_none (hinv.calm trivial)) rfl
    · exact h
  | swap i j first second =>
    rw [World.step]
    split
    · exact h
    split
    · rename_i t u ht hu
      split
      · rename_i t' u' remap e
        obtain ⟨hinv, hct, -, -⟩ := hgood.tree ht
        obtain ⟨hinv', hcu, -, -⟩ := hgood.tree hu
        rw [swapNodesBetween_close] at e
        obtain ⟨hT, hU, -⟩ := hinv.close.swapNodesBetween hinv'.close (hct.trans hcu.symm) rfl rfl
          rfl False.elim False.elim e
        exact (h.put (.of_none (hT.calm trivial)) rfl).put (.of_none (hU.calm trivial)) rfl
      · exact h
    · exact h

theorem SessionsCoherent.run (hgood : Good False False w) (h : w.SessionsCoherent)
    (steps : List (Step I))
    (hsteps : Along (fun w step => step.sane w = true ∧ step.keepsSessions w = true) w steps) :
    (steps.foldl World.step w).SessionsCoherent := by
  induction steps generalizing w with
  | nil => exact h
  | cons step steps ih =>
    obtain ⟨⟨hsane, hkeep⟩, hrest⟩ := hsteps
    exact ih (hgood.next step hsane False.elim False.elim).1 (h.step hgood step hsane hkeep) hrest

/-- **An open session is coherent in every reachable world**, if no subtree is carried to another
    place of its tree: its target is the leaf of its window, the two siblings of each axis are in one
    split with shares that sum to the initial ones, and an update lands on the initial shares changed
    by the amount moved. -/
theorem sessions_run (steps : List (Step I))
    (hsteps : Along (fun w step => step.sane w = true ∧ step.keepsSessions w = true)
      { counter := 0 } steps) :
    ∀ t ∈ (run steps).trees, ∀ session, t.interactiveResize = some session →
      (t.tile session.target).map (·.window) = some session.window ∧ ∀ axis ∈ session.axes,
          (∃ x y, t.siblingPercents axis.first axis.second = some (x, y) ∧
            x + y = axis.initialFirst + axis.initialSecond) ∧
          ∀ delta, 0 < axis.initialFirst + axis.amount delta →
            0 < axis.initialSecond - axis.amount delta →
            (t.interactiveResizeUpdate session.window delta).1.siblingPercents
                axis.first axis.second =
              some (axis.initialFirst + axis.amount delta,
                axis.initialSecond - axis.amount delta) := by
  intro t ht session hs
  have hstart : SessionsCoherent ({ counter := 0 } : World I) := fun t ht => nomatch ht
  have h := hstart.run good_start steps hsteps t ht session hs
  refine ⟨h.leaf, fun axis ha => ⟨?_, fun delta hfirst hsecond => ?_⟩⟩
  · obtain ⟨x, y, hn, hsum⟩ := h.shares axis ha
    exact ⟨x, y, hn.siblingPercents, hsum⟩
  · obtain ⟨x, y, hn, -, hland⟩ := (h.interactiveResizeUpdate hs rfl).1 axis ha
    obtain ⟨rfl, rfl⟩ := hland hfirst hsecond
    exact hn.siblingPercents

/-- Two windows side by side, and the boundary between them is being dragged. -/
def dragBoundary : List (Step ℕ) :=
  [.newTree {}, .tile 0 (.addTileWithActivation { window := 7 } .focused true),
    .tile 0 (.addTileWithActivation { window := 8 } .focused true),
    .quiet 0 (.resize (.interactiveResizeBegin 8 { left := true }))]

theorem sessions_run_drag :
    ((run dragBoundary).trees.any (·.interactiveResize.isSome)) = true ∧
    ∀ t ∈ (run dragBoundary).trees, ∀ session, t.interactiveResize = some session →
      (t.tile session.target).map (·.window) = some session.window ∧ ∀ axis ∈ session.axes,
          (∃ x y, t.siblingPercents axis.first axis.second = some (x, y) ∧
            x + y = axis.initialFirst + axis.initialSecond) ∧
          ∀ delta, 0 < axis.initialFirst + axis.amount delta →
            0 < axis.initialSecond - axis.amount delta →
            (t.interactiveResizeUpdate session.window delta).1.siblingPercents
                axis.first axis.second = some (axis.initialFirst + axis.amount delta,
                axis.initialSecond - axis.amount delta) :=
  ⟨by decide +kernel, sessions_run dragBoundary (by decide +kernel)⟩

theorem drag_memoryless_boundary :
    ∃ t ∈ (run (dragBoundary.take 3)).trees, ∃ u session,
      t.interactiveResizeBegin 8 { left := true } = (u, true) ∧
      u.interactiveResize = some session ∧
      ∀ ds es delta, (∀ axis ∈ session.axes, axis.Fits delta) → ∀ q,
        ((u.drag 8 (ds ++ [delta])).splitAt q).map (·.percents) =
          ((u.drag 8 (es ++ [delta])).splitAt q).map (·.percents) := by
  have hany : ((run (dragBoundary.take 3)).trees.any fun t =>
      (t.interactiveResizeBegin 8 { left := true }).2) = true := by decide +kernel
  have hgood : Good False False (run (dragBoundary.take 3)) := good_of_sane (by decide +kernel)
  obtain ⟨t, ht, hbegin⟩ := any_eq_true.mp hany
  obtain ⟨r, hok, -⟩ := (hgood.trees t ht).ok
  obtain ⟨session, hs, hsame, -⟩ := drag_memoryless hok.wellFormed 8 { left := true }
    (Prod.ext rfl hbegin)
  exact ⟨t, ht, _, session, Prod.ext rfl hbegin, hs, hsame⟩

/-- A window of another workspace arrives while the boundary is dragged. -/
def attachWhileDragging : List (Step ℕ) :=
  dragBoundary ++ [.newTree {}, .tile 1 (.addTileWithActivation { window := 9 } .focused true),
    .detach 1 4, .attach 0 0 none true]

/-- A window beside a split of two, whose common boundary is dragged. -/
def dragBesideSplit : List (Step ℕ) :=
  [.newTree {}, .tile 0 (.addTileWithActivation { window := 7 } .focused true),
    .tile 0 (.addTileWithActivation { window := 8 } .focused true),
    .quiet 0 (.layout (.splitFocused .splitV)),
    .tile 0 (.addTileWithActivation { window := 9 } .focused true),
    .quiet 0 (.resize (.interactiveResizeBegin 7 { right := true }))]

/-- An axis of the open session whose siblings are not in one split, or have another sum. -/
def staleAxis (t : TilingTree ℕ) : Bool :=
  t.interactiveResize.any fun session => session.axes.any fun axis =>
    (t.siblingPercents axis.first axis.second).all fun shares =>
      shares.1 + shares.2 != axis.initialFirst + axis.initialSecond

/-- **Three operations leave a session behind** that no longer fits the tree: attaching a subtree,
    swapping two nodes and moving a node to another one. -/
theorem session_left_behind :
    (∃ t ∈ (run attachWhileDragging).trees, staleAxis t = true) ∧
      (∃ t ∈ (run (dragBesideSplit ++ [.quiet 0 (.move (.swapNodes 1 4))])).trees,
        staleAxis t = true) ∧
      ∃ t ∈ (run (dragBesideSplit ++ [.quiet 0 (.move (.moveSubtreeToNode 1 3))])).trees,
        staleAxis t = true := by
  have h₁ : (run attachWhileDragging).trees.any staleAxis = true := by decide +kernel
  have h₂ : (run (dragBesideSplit ++ [.quiet 0 (.move (.swapNodes 1 4))])).trees.any staleAxis =
      true := by decide +kernel
  have h₃ : (run (dragBesideSplit ++ [.quiet 0 (.move (.moveSubtreeToNode 1 3))])).trees.any
      staleAxis = true := by decide +kernel
  exact ⟨any_eq_true.mp h₁, any_eq_true.mp h₂, any_eq_true.mp h₃⟩

end World

end Swayward
