/-
  File:      Swayward/Keeps/SquashForMove.lean
  Subject:   SQUASHING AFTER A MOVE keeps the invariant, if no fullscreen node is in a pair.

  Other than `squash`, this pass does not move the fullscreen mode of a squashed pair on. That no
  node of a squashable pair is fullscreen (`Unsquashed`) is kept while other pairs are squashed, so
  it is enough to know it before the pass.
-/
import Swayward.Keeps.Normalize

namespace Swayward

variable {I : Type}

open Forest Arena Positions List

namespace Layout

theorem parallel_comm (a b : Layout) : a.parallel b = b.parallel a := by
  cases a <;> cases b <;> rfl

theorem parallel_trans {a b d : Layout} (h : a.parallel b = true) (h' : b.parallel d = true) :
    a.parallel d = true := by
  cases a <;> cases b <;> cases d <;> simp_all [parallel]

/-- There are two axes only. -/
theorem parallel_of_not {a b d : Layout} (h : a.parallel b = false) (h' : a.parallel d = false) :
    b.parallel d = true := by
  cases a <;> cases b <;> cases d <;> simp_all [parallel]

end Layout

namespace TilingTree

variable {c : Ctx I} {t : TilingTree I} {id p child : NodeId}

/-! ## 1. Pairs -/

/-- A squashable pair, written out. -/
structure Squashable (t : TilingTree I) (id child p : NodeId) (ps s cs : Split) : Prop where
  parent : t.parentOf id = some p
  resident : ¬ (t.residentRoot = true ∧ p = t.root)
  outer : t.splitAt p = some ps
  split : t.splitAt id = some s
  inner : t.splitAt child = some cs
  only : s.children = [child]
  isSplit : s.layout.isSplit = true
  isSplit' : cs.layout.isSplit = true
  across : s.layout.parallel cs.layout = false
  along : ps.layout.parallel cs.layout = true

theorem squashable_iff :
    t.squashableChild id = some child ↔ ∃ p ps s cs, t.Squashable id child p ps s cs := by
  constructor
  · intro h
    obtain ⟨hk, hs⟩ := squashableChild_eq_some h
    unfold isSquashable at hs
    split at hs
    · cases hs
    rename_i p hp
    split at hs
    · cases hs
    rename_i hres
    split at hs
    · rename_i ps s cs hps hids hcs
      simp only [Bool.and_eq_true, beq_iff_eq, Bool.not_eq_true'] at hs
      rw [children_of_splitAt hids] at hk
      exact ⟨p, ps, s, cs, hp, by simpa using hres, hps, hids, hcs, hk, hs.1.1.1.2, hs.1.1.2,
        hs.1.2, hs.2⟩
    · cases hs
  · rintro ⟨p, ps, s, cs, h⟩
    have hres : (t.residentRoot && p == t.root) = false := by
      have := h.resident
      cases e : t.residentRoot <;> simp_all
    have hsq : t.isSquashable id child = true := by
      unfold isSquashable
      simp [h.parent, h.outer, h.split, h.inner, hres, h.only, h.isSplit, h.isSplit', h.across,
        h.along]
    unfold squashableChild
    rw [children_of_splitAt h.split, h.only]
    simp [hsq]

/-- No node of a squashable pair is fullscreen. -/
def Unsquashed (t : TilingTree I) : Prop :=
  ∀ id child, t.squashableChild id = some child →
    t.fullscreenMode id = none ∧ t.fullscreenMode child = none

/-- **Squashing one pair makes no pair of a fullscreen node.** A pair that is new after the edit
    comes from two pairs that shared the squashed one. -/
theorem Unsquashed.squashPair {t' : TilingTree I} {ps s cs ps' : Split}
    {g : Prop} {r : NodeId → ℕ} (h : t.Unsquashed) (hok : t.toArena.Ok g ∅ ∅ r)
    (hp : t.Squashable id child p ps s cs) (hne : cs.children ≠ [])
    (hlayout : ps'.layout = ps.layout)
    (hmem : ∀ x, x ∈ ps'.children ↔ (x ∈ ps.children ∧ x ≠ id) ∨ x ∈ cs.children)
    (hsplit : ∀ q, t'.splitAt q =
      if q = id ∨ q = child then none else if q = p then some ps' else t.splitAt q)
    (hpar : ∀ n, n ≠ id → n ≠ child →
      t'.parentOf n = if n ∈ cs.children then some p else t.parentOf n)
    (hroot : t'.root = t.root) (hres : t'.residentRoot = t.residentRoot)
    (hmode : ∀ n, (t'.fullscreenMode n).isSome → (t.fullscreenMode n).isSome) :
    t'.Unsquashed := by
  have hkid : ∀ {x}, x ∈ cs.children → x ∈ t.children child := fun hx =>
    children_of_splitAt hp.inner ▸ hx
  have hchild : child ∈ t.children id := by rw [children_of_splitAt hp.split, hp.only]; simp
  have hidp : id ∈ t.children p := hok.mem_children hp.parent
  have hr := hok.ranked p id hidp
  have hr' := hok.ranked id child hchild
  have hrk : ∀ {x}, x ∈ cs.children → r child < r x := fun hx => hok.ranked child _ (hkid hx)
  -- what remains has its layout from before
  have hold : ∀ {q x}, t'.splitAt q = some x → ∃ y, t.splitAt q = some y ∧ y.layout = x.layout := by
    intro q x hx
    rw [hsplit] at hx
    split at hx
    · cases hx
    split_ifs at hx with e
    · cases hx
      exact ⟨ps, e ▸ hp.outer, hlayout.symm⟩
    · exact ⟨x, hx, rfl⟩
  have hstay : ∀ {q x}, t'.splitAt q = some x → q ≠ id ∧ q ≠ child := by
    intro q x hx
    rw [hsplit] at hx
    split at hx
    · cases hx
    · rename_i hq
      exact not_or.mp hq
  intro n m hnm
  obtain ⟨p1, ps1, s1, cs1, h1⟩ := squashable_iff.mp hnm
  suffices ho : t.fullscreenMode n = none ∧ t.fullscreenMode m = none by
    have hnone : ∀ {x}, t.fullscreenMode x = none → t'.fullscreenMode x = none := by
      intro x hx
      cases e : t'.fullscreenMode x with
      | none => rfl
      | some mode => simpa [hx] using hmode x (by simp [e])
    exact ⟨hnone ho.1, hnone ho.2⟩
  obtain ⟨hnid, hnchild⟩ := hstay h1.split
  obtain ⟨y, hy, hylayout⟩ := hold h1.outer
  obtain ⟨ym, hym, hymlayout⟩ := hold h1.inner
  have hres1 : ¬ (t.residentRoot = true ∧ p1 = t.root) := by
    rw [← hres, ← hroot]
    exact h1.resident
  have hparn := hpar n hnid hnchild
  rw [h1.parent] at hparn
  have hs1 := h1.split
  rw [hsplit, if_neg (by simp [hnid, hnchild])] at hs1
  by_cases hn : n = p
  · -- the new pair is `p` with its only grandchild
    subst hn
    rw [if_pos rfl] at hs1
    cases hs1
    have hncs : n ∉ cs.children := fun hx => absurd (hrk hx) (hr.trans hr').not_gt
    rw [if_neg hncs] at hparn
    have hm : ∀ x ∈ cs.children, x = m := by
      intro x hx
      have := (hmem x).mpr (.inr hx)
      simpa [h1.only] using this
    have hcs : cs.children = [m] := by
      obtain ⟨x, hx⟩ := exists_mem_of_ne_nil _ hne
      have hx' := hm x hx
      subst hx'
      exact eq_singleton (hok.sound hp.inner).nodup hx hm
    have hps : ps.children = [id] := by
      refine eq_singleton (hok.sound hp.outer).nodup (children_of_splitAt hp.outer ▸ hidp)
        fun x hx => ?_
      by_contra hxid
      have hxm : x = m := by simpa [h1.only] using (hmem x).mpr (.inl ⟨hx, hxid⟩)
      have := hok.uniqueParent _ _ _ (children_of_splitAt hp.outer ▸ hx : x ∈ t.children n)
        (hkid (by simp [hcs, hxm]))
      exact (hr.trans hr').ne (congrArg r this)
    have hacross : ps.layout.parallel s.layout = false := by
      by_contra hc
      have := Layout.parallel_trans ((Layout.parallel_comm _ _).trans (Bool.not_eq_false _ ▸ hc)) hp.along
      rw [hp.across] at this
      cases this
    have hacross1 : ps.layout.parallel ym.layout = false := by
      rw [hymlayout, ← hlayout]
      exact h1.across
    have hsm : s.layout.parallel ym.layout = true := Layout.parallel_of_not hacross hacross1
    have hout : t.Squashable n id p1 y ps s :=
      { parent := hparn.symm, resident := hres1, outer := hy, split := hp.outer, inner := hp.split
        only := hps, isSplit := hlayout ▸ h1.isSplit, isSplit' := hp.isSplit, across := hacross
        along := by
          have := h1.along
          rw [← hylayout, ← hymlayout] at this
          exact Layout.parallel_trans this ((Layout.parallel_comm _ _).trans hsm) }
    have hin : t.Squashable child m id s cs ym :=
      { parent := hok.kid_parent hchild
        resident := fun hx => hok.ne_root_of_parentOf hp.parent hx.2
        outer := hp.split, split := hp.inner, inner := hym, only := hcs, isSplit := hp.isSplit'
        isSplit' := hymlayout ▸ h1.isSplit'
        across := by
          by_contra hc
          have := Layout.parallel_trans hp.along (Bool.not_eq_false _ ▸ hc)
          rw [hacross1] at this
          cases this
        along := hsm }
    exact ⟨(h n id (squashable_iff.mpr ⟨_, _, _, _, hout⟩)).1,
      (h child m (squashable_iff.mpr ⟨_, _, _, _, hin⟩)).2⟩
  · -- an old pair, whose parent may have changed to the parallel `p`
    rw [if_neg hn] at hs1
    refine h n m (squashable_iff.mpr ?_)
    by_cases hncs : n ∈ cs.children
    · rw [if_pos hncs] at hparn
      cases hparn
      rw [hp.outer] at hy
      cases hy
      have halong := h1.along
      rw [← hylayout, ← hymlayout] at halong
      exact ⟨child, cs, s1, ym,
        { parent := hok.kid_parent (hkid hncs)
          resident := fun hx => hok.ne_root_of_parentOf (hok.kid_parent hchild) hx.2
          outer := hp.inner, split := hs1, inner := hym, only := h1.only, isSplit := h1.isSplit
          isSplit' := hymlayout ▸ h1.isSplit', across := hymlayout ▸ h1.across
          along := Layout.parallel_trans ((Layout.parallel_comm _ _).trans hp.along) halong }⟩
    · rw [if_neg hncs] at hparn
      exact ⟨p1, y, s1, ym,
        { parent := hparn.symm, resident := hres1, outer := hy, split := hs1, inner := hym
          only := h1.only, isSplit := h1.isSplit, isSplit' := hymlayout ▸ h1.isSplit'
          across := hymlayout ▸ h1.across, along := hylayout ▸ hymlayout ▸ h1.along }⟩

/-! ## 2. The tree after squashing a pair -/

theorem erases_foldl_removeNode (N : List NodeId) (t : TilingTree I) :
    Erases N t.toArena (N.foldl removeNode t).toArena := by
  induction N generalizing t with
  | nil => exact ⟨fun n => by simp, rfl, rfl⟩
  | cons x N ih => exact (erases_removeNode t x).trans (ih _)

theorem residentRoot_foldl_removeNode (N : List NodeId) (t : TilingTree I) :
    (N.foldl removeNode t).residentRoot = t.residentRoot := by
  induction N generalizing t with
  | nil => rfl
  | cons x N ih =>
    refine (ih _).trans ?_
    unfold removeNode
    split <;> rfl

theorem fullscreenMode_foldl_removeNode (N : List NodeId) (t : TilingTree I) (n : NodeId)
    (h : ((N.foldl removeNode t).fullscreenMode n).isSome) : (t.fullscreenMode n).isSome := by
  induction N generalizing t with
  | nil => exact h
  | cons x N ih =>
    have h := ih _ h
    by_cases hx : t.contains x = true
    · rw [fullscreenMode_removeNode hx] at h
      split at h
      · cases h
      · exact h
    · simpa [removeNode, hx] using h

/-- The edit of the split that takes the grandchildren in. -/
def takeReversed (cs : Split) (i : ℕ) (s : Split) : Split :=
  { spliceAt s i cs.children.reverse cs.percents.reverse with
    percents := Shares.normalize (spliceAt s i cs.children.reverse cs.percents.reverse).percents }

theorem squashPairForMove_eq {cs : Split} {i : ℕ} (hp : t.parentOf id = some p)
    (hk : t.squashableChild id = some child) (hcs : t.splitAt child = some cs)
    (hi : t.childIndex p id = some i) :
    t.squashPairForMove id = some (t.retire
      (adopt (t.modifySplit p (takeReversed cs i)) cs.children p) [id, child] none
      (t.focus = some id ∨ t.focus = some child) (cs.children.getLast?.getD p),
      cs.children.length) := by
  unfold squashPairForMove
  simp only [hp, hk, hcs, hi]
  rfl

theorem Inv.squashPairForMove {t' : TilingTree I} {k : ℕ} (h : Inv c ∅ t)
    (hu : c.marks → t.Unsquashed) (e : t.squashPairForMove id = some (t', k)) :
    Inv c ∅ t' ∧ (c.marks → t'.Unsquashed) := by
  cases hk : t.squashableChild id with
  | none => simp [TilingTree.squashPairForMove, hk] at e
  | some child =>
    obtain ⟨r, hok, hdeep⟩ := h.ok
    obtain ⟨p, ps, s, cs, hsq⟩ := squashable_iff.mp hk
    have hidp : id ∈ ps.children :=
      children_of_splitAt hsq.outer ▸ hok.mem_children hsq.parent
    obtain ⟨i, hi⟩ := exists_idxOf? hidp
    have hi' : t.childIndex p id = some i := by simp [childIndex, hsq.outer, hi]
    rw [squashPairForMove_eq hsq.parent hk hsq.inner hi'] at e
    cases e
    obtain ⟨s', hpair⟩ := Pair.of_some hok hk hsq.inner hi'
    cases Option.some.inj (hsq.outer.symm.trans hpair.parent)
    constructor
    · refine h.squashPair hok hdeep hpair (reverse_perm _) rfl (fun hnew => ?_) ?_
        (fun x m hx => nomatch hx) fun hm _ => hu hm id child hk
      · exact sound_spliceAt_normalized (hok.sound hsq.outer) (hok.sound hsq.inner) hi hnew
      · cases hc : cs.children.getLast? with
        | none => exact .inl rfl
        | some x => exact .inr (mem_of_getLast? hc)
    · intro hm
      have hchild : child ∈ t.children id := by simp [hpair.only]
      have hne : cs.children ≠ [] := hok.full (c.marks_full hm) hsq.inner
        (fun e => hok.root_not_kid id (e ▸ hchild)) (Set.notMem_empty child)
      have he : Erases [id, child] (adopt (t.modifySplit p (takeReversed cs i)) cs.children p)
          (t.retire (adopt (t.modifySplit p (takeReversed cs i)) cs.children p) [id, child] none
            (t.focus = some id ∨ t.focus = some child) (cs.children.getLast?.getD p)).toArena := by
        have := erases_foldl_removeNode [id, child] (({ t with
          toArena := adopt (t.modifySplit p (takeReversed cs i)) cs.children p :
            TilingTree I }.handFullscreen none).passFocus
              (t.focus = some id ∨ t.focus = some child) (cs.children.getLast?.getD p))
        rwa [toArena_passFocus] at this
      refine (hu hm).squashPair hok hsq hne
        (rfl : (takeReversed cs i ps).layout = ps.layout) (fun x => ?_) (fun q => ?_) (fun n hnid hnchild => ?_) ?_ ?_ fun n hn => ?_
      · have := mem_spliceAt (hok.sound hsq.outer) hi cs.children.reverse cs.percents.reverse x
        rwa [mem_reverse] at this
      · rw [he.splitAt, splitAt_adopt, splitAt_modifySplit_of hsq.outer]
        simp
      · rw [he.parentOf (by simp [hnid, hnchild]), parentOf_adopt, parentOf_modifySplit]
        exact fun x hx => (contains_modifySplit _ _ _ _).trans (hpair.rankKids x hx).2
      · exact he.root.trans (sameNodes_adopt _ _).root
      · exact (residentRoot_foldl_removeNode _ _).trans (residentRoot_passFocus _ _)
      · have := fullscreenMode_foldl_removeNode _ _ n hn
        rwa [fullscreenMode_passFocus] at this

/-! ## 3. The pass -/

theorem Inv.squashWalk (h : Inv c ∅ t) (hu : c.marks → t.Unsquashed) (fuel : ℕ) (n : NodeId)
    (index : ℕ) :
    Inv c ∅ (squashWalk fuel t n index) ∧ (c.marks → (squashWalk fuel t n index).Unsquashed) := by
  induction fuel generalizing t n index with
  | zero => exact ⟨h, hu⟩
  | succ fuel ih =>
    unfold TilingTree.squashWalk
    split
    · exact ⟨h, hu⟩
    split
    · rename_i t' moved e
      obtain ⟨h', hu'⟩ := h.squashPairForMove hu e
      exact ih h' hu' _ _
    · obtain ⟨h', hu'⟩ := ih h hu _ 0
      exact ih h' hu' _ _

theorem sound_averageShare {g : Prop} {s : Split} (h : s.Sound g) (fresh : NodeId) :
    (averageShare s fresh).Sound g := by
  unfold averageShare
  split
  · exact h
  rename_i i hi
  split
  · exact h
  rename_i hlen
  obtain ⟨hlt, -⟩ := idxOf?_eq_some_iff.mp hi
  refine h.of_percents (by simp) fun hg => Shares.normalize_isShares fun x hx => ?_
  rcases mem_or_eq_of_mem_set hx with hx | rfl
  · exact (h.shares hg).1 x hx
  -- the others are positive and there are some
  have hpos : 0 < (s.percents.eraseIdx i).sum := by
    refine sum_pos _ (fun y hy => (h.shares hg).1 y (mem_of_mem_eraseIdx hy)) ?_
    intro hnil
    have := length_eraseIdx_of_lt (h.lengths ▸ hlt : i < s.percents.length)
    rw [hnil, h.lengths] at this
    simp at this
    omega
  exact div_pos hpos (by exact_mod_cast (by omega : 0 < s.children.length - 1))

theorem children_averageShare (s : Split) (fresh : NodeId) :
    (averageShare s fresh).children = s.children := by
  unfold averageShare
  split
  · rfl
  · split <;> rfl

/-- **Squashing after a move keeps the invariant.** -/
theorem Inv.squashForMove (h : Inv c ∅ t) (hu : c.marks → t.Unsquashed)
    (fresh : Option NodeId) : Inv c ∅ (t.squashForMove fresh) := by
  have h' := (h.squashWalk hu (2 * t.size + 1) t.root 0).1
  unfold TilingTree.squashForMove
  cases fresh with
  | none => exact h'
  | some fresh =>
    simp only
    split
    · exact h'
    · exact h'.modifySplit fun s _ hs =>
        ⟨by rw [children_averageShare], sound_averageShare hs _⟩

end TilingTree

end Swayward
