/-
  File:      Swayward/Keeps/Directional.lean
  Subject:   DIRECTIONAL MOVES KEEP THE INVARIANT, under two conditions that the code does not check.

  A node that moves into a neighbouring container may land deeper than the tree allows; and the pass
  that squashes split pairs afterwards loses the fullscreen mode of a squashed node. Both are
  described by what the tree is like before the move: `moveFits` and `moveHolds`.
-/
import Swayward.Keeps.Movement

namespace Swayward

variable {I : Type}

open Forest Arena Positions List
open Option (map_eq_some_iff bind_eq_some_iff)
open Bool (and_eq_true not_eq_true' or_eq_true)
open Below (of_kid refl)

/-- No window is in two leaves. -/
def Ctx.Distinct (c : Ctx I) : Prop :=
  ∀ m n w, c.windows m = some w → c.windows n = some w → m = n

namespace TilingTree

variable {c : Ctx I} {E : Set NodeId} {t u v : TilingTree I} {id p q n : NodeId}
variable {a : Arena I} {g : Prop} {r : NodeId → ℕ} {direction : Direction}
  {destination branch : NodeId}

/-! ## 1. What reaping leaves -/

theorem layoutOf_modifySplit {f : Split → Split} (hf : ∀ s, (f s).layout = s.layout) :
    (a.modifySplit p f).layoutOf n = a.layoutOf n := by
  unfold Arena.layoutOf
  rw [splitAt_modifySplit]
  split_ifs with e
  · subst e
    cases a.splitAt n with
    | none => rfl
    | some s => simp [hf]
  · rfl

theorem layoutOf_removeChild (child : NodeId) :
    (a.removeChild p child).layoutOf n = a.layoutOf n := by
  refine layoutOf_modifySplit fun s => ?_
  split <;> rfl

/-- `u` is `t` without some splits that hold no leaf. -/
structure Reaps (t u : TilingTree I) : Prop where
  root : u.root = t.root
  resident : u.residentRoot = t.residentRoot
  old : ∀ n, u.contains n = true → t.contains n = true
  layoutOf : ∀ n, u.contains n = true → u.layoutOf n = t.layoutOf n
  parentOf : ∀ n, u.contains n = true → u.parentOf n = t.parentOf n
  sub : ∀ n x, x ∈ u.children n → x ∈ t.children n
  stays : ∀ n x m, u.contains n = true → x ∈ t.children n → Below t.children x m →
    (t.tile m).isSome → x ∈ u.children n
  way : ∀ x m, Below t.children x m → (t.tile m).isSome →
    Below u.children x m ∧ (u.tile m).isSome
  mode : ∀ n, (u.fullscreenMode n).isSome → (t.fullscreenMode n).isSome

theorem Reaps.refl (t : TilingTree I) : Reaps t t :=
  ⟨rfl, rfl, fun _ h => h, fun _ _ => rfl, fun _ _ => rfl, fun _ _ h => h, fun _ _ _ _ h _ _ => h,
    fun _ _ h ht => ⟨h, ht⟩, fun _ h => h⟩

theorem Reaps.trans (h : Reaps t u) (h' : Reaps u v) : Reaps t v where
  root := h'.root.trans h.root
  resident := h'.resident.trans h.resident
  old n hn := h.old n (h'.old n hn)
  layoutOf n hn := (h'.layoutOf n hn).trans (h.layoutOf n (h'.old n hn))
  parentOf n hn := (h'.parentOf n hn).trans (h.parentOf n (h'.old n hn))
  sub n x hx := h.sub n x (h'.sub n x hx)
  stays n x m hn hx hm ht := by
    obtain ⟨hm', ht'⟩ := h.way x m hm ht
    exact h'.stays n x m hn (h.stays n x m (h'.old n hn) hx hm ht) hm' ht'
  way x m hm ht := by
    obtain ⟨hm', ht'⟩ := h.way x m hm ht
    exact h'.way x m hm' ht'
  mode n hn := h.mode n (h'.mode n hn)

theorem residentRoot_removeNode (id : NodeId) :
    (t.removeNode id).residentRoot = t.residentRoot := by
  unfold removeNode
  split <;> rfl

/-- **One round of reaping.** -/
theorem reaps_reapNode {s : Split} (hok : t.toArena.Ok g ∅ E r) (hs : t.splitAt id = some s)
    (hk : s.children = []) (hp : t.parentOf id = some p) :
    Reaps t (t.reapNode id p) := by
  obtain ⟨l, e⟩ := reapNode_eq t id p
  have harena : (t.reapNode id p).toArena = (t.removeNode id).removeChild p id := by
    rw [e]
    exact toArena_dropEmpty t id p
  have he := erases_removeNode t id
  have hsame : SameNodes (t.removeNode id).toArena ((t.removeNode id).removeChild p id) :=
    sameNodes_modifySplit _ _
  have hid : t.contains id = true := contains_of_splitAt hs
  have hk' : t.children id = [] := by rw [children_of_splitAt hs, hk]
  have hcon : ∀ n, (t.reapNode id p).contains n = true ↔ t.contains n = true ∧ n ≠ id := by
    intro n
    rw [harena, hsame.contains, he.contains]
    simp
  have hkids : ∀ q x, x ∈ (t.reapNode id p).children q ↔ x ∈ t.children q ∧ x ≠ id := by
    intro q x
    rw [harena]
    exact mem_children_dropChild hok hp hk' he q x
  have htile : ∀ n, n ≠ id → (t.reapNode id p).tile n = t.tile n := by
    intro n hn
    rw [harena, hsame.tile, he.tile]
    simp [hn]
  have hleaf : ∀ {m}, (t.tile m).isSome → m ≠ id := by
    rintro m ht rfl
    simp [tile_of_splitAt hs] at ht
  have hway : ∀ {x m}, Below t.children x m → m ≠ id → Below (t.reapNode id p).children x m := by
    intro x m hm
    induction hm with
    | refl => exact fun _ => refl x
    | tail _ hy ih =>
      refine fun hne => (ih ?_).step ((hkids _ _).mpr ⟨hy, hne⟩)
      rintro rfl
      simp [hk'] at hy
  refine ⟨?_, ?_, fun n hn => ((hcon n).mp hn).1, fun n hn => ?_, fun n hn => ?_,
    fun n x hx => ((hkids n x).mp hx).1, fun n x m _ hx hm ht => (hkids n x).mpr ⟨hx, ?_⟩,
    fun x m hm ht => ⟨hway hm (hleaf ht), ?_⟩, fun n hn => ?_⟩
  · rw [harena]
    exact he.root
  · rw [e]
    refine (residentRoot_removeNode _).trans ?_
    exact residentRoot_passFocus _ _
  · have hne := ((hcon n).mp hn).2
    rw [harena]
    refine (layoutOf_removeChild _).trans ?_
    unfold Arena.layoutOf
    rw [he.splitAt]
    simp [hne]
  · have hne := ((hcon n).mp hn).2
    rw [harena]
    refine (parentOf_modifySplit _ _ _ _).trans ?_
    rw [he.parentOf]
    simp [hne]
  · rintro rfl
    rcases below_iff_kid.mp hm with rfl | ⟨k, hk, -⟩
    · exact hleaf ht rfl
    · simp [hk'] at hk
  · rw [htile m (hleaf ht)]
    exact ht
  · rw [e] at hn
    have hn : (((t.passFocus (t.focus = some id) p).removeNode id).fullscreenMode n).isSome := hn
    rw [fullscreenMode_removeNode (by rwa [toArena_passFocus]), fullscreenMode_passFocus] at hn
    by_cases en : n = id
    · simp [en] at hn
    · simpa [en] using hn

/-- **Reaping.** -/
theorem Inv.reaps_reapFrom (h : Inv c {id} t) (fuel : ℕ) (hheld : c.marks → t.Held) :
    Reaps t (TilingTree.reapFrom fuel t id) := by
  fun_induction TilingTree.reapFrom fuel t id with
  | case3 _ t id s p hp hs hgo ih =>
    have hk : s.children = [] := by
      simp only [or_eq_true, decide_eq_true_eq, not_eq_true', not_or] at hgo
      simpa using hgo.2
    obtain ⟨r, hok, -⟩ := h.ok
    obtain ⟨h', hheld'⟩ := h.reapNode hs hk hp hheld
    have hE : insert p (({id} : Set NodeId) \ {id}) = {p} := by simp
    rw [hE] at h'
    exact (reaps_reapNode hok hs hk hp).trans (ih h' hheld')
  | _ => exact Reaps.refl _

/-! ## 2. Fullscreen nodes that a move leaves in a pair -/

/-- Whether all leaves of `x` are inside `id`, so that `x` goes when `id` does. -/
def emptiedBy (t : TilingTree I) (id x : NodeId) : Bool :=
  (t.leafIdsIn x).all (t.containsNode id ·)

/-- Whether `child` is the only child of `n` that is left when `id` has gone from its place. -/
def leftAlone (t : TilingTree I) (id n child : NodeId) : Bool :=
  (t.children n).contains child && (t.children n).all fun x =>
    x == child || (!t.containsNode id n && t.emptiedBy id x)

/-- Whether `n` with the only child `child` is squashed in a container with layout `outer`. -/
def squashedIn (t : TilingTree I) (outer : Layout) (n child : NodeId) : Bool :=
  match t.layoutOf n, t.layoutOf child with
  | some l, some l' => l.isSplit && l'.isSplit && !l.parallel l' && outer.parallel l'
  | _, _ => false

/-- Whether `n` and `child` are a pair that is squashed after `id` has moved. `outer n` is the layout
    of the container that `n` is in then, if pairs in it are squashed at all. -/
def pairedAfter (t : TilingTree I) (id : NodeId) (outer : NodeId → Option Layout)
    (n child : NodeId) : Bool :=
  t.leftAlone id n child &&
    match outer n with
    | some layout => t.squashedIn layout n child
    | none => false

/-- Whether the fullscreen node is in such a pair. -/
def fullscreenPaired (t : TilingTree I) (id : NodeId) (outer : NodeId → Option Layout) : Bool :=
  match t.fullscreenNode with
  | none => false
  | some f =>
    (t.children f).any (t.pairedAfter id outer f) ||
      match t.parentOf f with
      | some n => t.pairedAfter id outer n f
      | none => false

theorem fullscreenPaired_of {outer : NodeId → Option Layout} {child f : NodeId}
    (hf : t.fullscreenNode = some f) (hpair : t.pairedAfter id outer n child = true)
    (hpar : t.parentOf child = some n) (hn : f = n ∨ f = child) :
    t.fullscreenPaired id outer = true := by
  unfold fullscreenPaired
  rw [hf]
  simp only [or_eq_true, any_eq_true]
  rcases hn with rfl | rfl
  · refine .inl ⟨child, ?_, hpair⟩
    simp only [pairedAfter, leftAlone, and_eq_true] at hpair
    simpa using hpair.1.1
  · exact .inr (by rw [hpar]; exact hpair)

/-- How the tree `w` comes from `t` by moving `id`: the node `n` of `w` stands for the node `old n`
    of `t`, and `outer` says where the nodes are. -/
structure Moves (t w : TilingTree I) (id : NodeId) (old : NodeId → NodeId)
    (outer : NodeId → Option Layout) : Prop where
  same : ∀ n, t.contains n = true → old n = n
  mode : ∀ n, w.fullscreenMode n = t.fullscreenMode n
  kid : ∀ n x, n ≠ w.root → x ∈ w.children n → x = id ∨ x ∈ t.children (old n)
  stays : ∀ n x m, w.contains n = true → n ≠ w.root → x ∈ t.children (old n) → x ≠ id →
    Below t.children x m → (t.tile m).isSome → (Below t.children id (old n) ∨ ¬ Below t.children id m) →
    x ∈ w.children n ∧ Below w.children x m ∧ (w.tile m).isSome
  leaf : ∃ m, Below w.children id m ∧ (w.tile m).isSome
  layoutOf : ∀ n, n ≠ w.root → w.contains n = true → w.layoutOf n = t.layoutOf (old n)
  outer : ∀ n p layout, w.parentOf n = some p → ¬ (w.residentRoot = true ∧ p = w.root) →
    id ∉ w.children n → w.layoutOf p = some layout → outer (old n) = some layout

section

variable {w : TilingTree I} {old : NodeId → NodeId} {outer : NodeId → Option Layout} {g : Prop}
  {r : NodeId → ℕ} {ps s cs : Split}

/-- A child that keeps a leaf is still there after reaping; so it is the only one. -/
theorem Moves.eq_child {child x m : NodeId} (hmv : Moves t w id old outer)
    (hre : Reaps w u) (hq : u.Squashable n child p ps s cs) (hroot : n ≠ w.root)
    (hx : x ∈ t.children (old n)) (hne : x ≠ id) (hm : Below t.children x m)
    (ht : (t.tile m).isSome) (hor : Below t.children id (old n) ∨ ¬ Below t.children id m) :
    x = child := by
  have hcn : u.contains n = true := contains_of_splitAt hq.split
  obtain ⟨hxw, hmw, htw⟩ := hmv.stays n x m (hre.old n hcn) hroot hx hne hm ht hor
  have := hre.stays n x m hcn hxw hmw htw
  rw [children_of_splitAt hq.split, hq.only] at this
  exact mem_singleton.mp this

/-- The moved node is not the child of a pair with a fullscreen node. -/
theorem Inv.child_ne_of_moves (h : Inv c ∅ t) (hm : c.marks) {child f : NodeId}
    (hmv : Moves t w id old outer) (hre : Reaps w u) (hq : u.Squashable n child p ps s cs)
    (hroot : n ≠ w.root) (hft : (t.fullscreenMode f).isSome) (hfid : ¬ Below t.children f id)
    (hid : t.contains id = true) (hf : f = n ∨ f = child) : child ≠ id := by
  rintro rfl
  obtain ⟨hok, -⟩ := h.exact
  have hfn : f = n := hf.resolve_right fun e => hfid (e ▸ refl f)
  subst hfn
  have hcf := (h.side (c.marks_side hm)).contains_fullscreenNode hft
  have hfroot : f ≠ t.root := fun e => hfid (e ▸ hok.below_root hid)
  have hold := hmv.same f hcf
  obtain ⟨m, hfm, ht⟩ := hok.exists_leaf (c.marks_full hm) hcf hfroot
  -- a fullscreen node that is a split has a child with a leaf
  have hsplit : t.layoutOf f = some s.layout := by
    have hcn : u.contains f = true := contains_of_splitAt hq.split
    rw [← hold, ← hmv.layoutOf f hroot (hre.old f hcn), ← hre.layoutOf f hcn]
    simp [Arena.layoutOf, hq.split]
  obtain ⟨fs, hfs, -⟩ := map_eq_some_iff.mp hsplit
  rcases below_iff_kid.mp hfm with rfl | ⟨x, hx, hxm⟩
  · simp [tile_of_splitAt hfs] at ht
  have hxid : x ≠ child := fun e => hfid (e ▸ of_kid hx)
  refine hxid (hmv.eq_child hre hq hroot (by rwa [hold]) hxid hxm ht ?_)
  rw [hold]
  by_cases hb : Below t.children child m
  · exact .inl ((hok.uniqueParent.comparable hfm hb).resolve_left hfid)
  · exact .inr hb

theorem Inv.leftAlone_of_moves (h : Inv c ∅ t) (hm : c.marks) {child : NodeId}
    (hmv : Moves t w id old outer) (hre : Reaps w u) (hq : u.Squashable n child p ps s cs)
    (hroot : n ≠ w.root) (hct : child ∈ t.children (old n)) : t.leftAlone id (old n) child = true := by
  obtain ⟨hok, -⟩ := h.exact
  simp only [leftAlone, and_eq_true, contains_iff_mem, all_eq_true, or_eq_true,
    beq_iff_eq, not_eq_true']
  refine ⟨hct, fun x hx => ?_⟩
  by_cases e : x = child
  · exact .inl e
  have hcx := hok.contains_kid hx
  have hxroot : x ≠ t.root := fun er => hok.root_not_kid _ (er ▸ hx)
  refine .inr ⟨?_, ?_⟩
  · by_contra hcn
    have hb := (hok.containsNode_iff no_unlinked).mp (by simpa using hcn)
    obtain ⟨m, hxm, ht⟩ := hok.exists_leaf (c.marks_full hm) hcx hxroot
    refine e (hmv.eq_child hre hq hroot hx ?_ hxm ht (.inl hb))
    rintro rfl
    exact hok.ranked.not_below_kid hx hb
  · simp only [emptiedBy, all_eq_true]
    intro m hmx
    obtain ⟨hxm, ht⟩ := (hok.mem_leafIdsIn hcx).mp hmx
    rw [hok.containsNode_iff no_unlinked]
    by_contra hb
    exact e (hmv.eq_child hre hq hroot hx (fun exid => hb (exid ▸ hxm)) hxm ht (.inr hb))

/-- No fullscreen node holds `id`. -/
def Clear (t : TilingTree I) (id : NodeId) : Prop :=
  ∀ f, (t.fullscreenMode f).isSome → ¬ Below t.children f id

/-- **No fullscreen node is in a pair after the move**, if none was going to be. -/
theorem Inv.unsquashed_of_moves (h : Inv c ∅ t) (hm : c.marks) (hid : t.contains id = true)
    (hfs : t.Clear id)
    (hmv : Moves t w id old outer) (hre : Reaps w u) (hoku : u.toArena.Ok g ∅ E r)
    (hpair : t.fullscreenPaired id outer = false) : u.Unsquashed := by
  obtain ⟨hok, -⟩ := h.exact
  intro n child hsq
  obtain ⟨p, ps, s, cs, hq⟩ := squashable_iff.mp hsq
  have hcn : u.contains n = true := contains_of_splitAt hq.split
  have hcc : u.contains child = true := contains_of_splitAt hq.inner
  have hkid : child ∈ u.children n := by rw [children_of_splitAt hq.split, hq.only]; simp
  have hroot : n ≠ w.root := by
    rw [← hre.root]
    exact hoku.ne_root_of_parentOf hq.parent
  have hcroot : child ≠ w.root := by
    rw [← hre.root]
    rintro rfl
    exact hoku.root_not_kid _ hkid
  have key : ∀ f, (u.fullscreenMode f).isSome → f = n ∨ f = child → False := by
    intro f hfu hf
    have hft : (t.fullscreenMode f).isSome := by rw [← hmv.mode]; exact hre.mode f hfu
    have hchild := h.child_ne_of_moves hm hmv hre hq hroot hft (hfs f hft) hid hf
    have hct := (hmv.kid n child hroot (hre.sub n child hkid)).resolve_left hchild
    have hidw : id ∉ w.children n := by
      intro hx
      obtain ⟨m, hmid, ht⟩ := hmv.leaf
      have := hre.stays n id m hcn hx hmid ht
      rw [children_of_splitAt hq.split, hq.only] at this
      exact hchild (mem_singleton.mp this).symm
    have houter : outer (old n) = some ps.layout := by
      refine hmv.outer n p ps.layout ((hre.parentOf n hcn).symm.trans hq.parent) ?_ hidw ?_
      · rw [← hre.resident, ← hre.root]
        exact hq.resident
      · rw [← hre.layoutOf p (contains_of_splitAt hq.outer)]
        simp [Arena.layoutOf, hq.outer]
    have hln : t.layoutOf (old n) = some s.layout := by
      rw [← hmv.layoutOf n hroot (hre.old n hcn), ← hre.layoutOf n hcn]
      simp [Arena.layoutOf, hq.split]
    have hlc : t.layoutOf child = some cs.layout := by
      rw [← hmv.same child (hok.contains_kid hct), ← hmv.layoutOf child hcroot (hre.old child hcc),
        ← hre.layoutOf child hcc]
      simp [Arena.layoutOf, hq.inner]
    have hpaired : t.pairedAfter id outer (old n) child = true := by
      unfold pairedAfter squashedIn
      rw [h.leftAlone_of_moves hm hmv hre hq hroot hct, houter, hln, hlc]
      simp [hq.isSplit, hq.isSplit', hq.across, hq.along]
    have hf' : f = old n ∨ f = child := by
      rcases hf with rfl | rfl
      · exact .inl (hmv.same f ((h.side (c.marks_side hm)).contains_fullscreenNode hft)).symm
      · exact .inr rfl
    rw [fullscreenPaired_of ((h.modes (c.marks_side hm)).eq_fullscreenNode hft) hpaired
      (hok.kid_parent hct) hf'] at hpair
    cases hpair
  constructor
  · by_contra hne
    exact key n (Option.ne_none_iff_isSome.mp hne) (.inl rfl)
  · by_contra hne
    exact key child (Option.ne_none_iff_isSome.mp hne) (.inr rfl)

end

/-! ## 3. Into a neighbour -/

/-- Where the nodes are after `id` has moved to `p`. A pair in `p` is none any more, and in a resident
    root pairs are not squashed. -/
def outerInto (t : TilingTree I) (id p n : NodeId) : Option Layout :=
  if n = p then none
  else
    (if n = id then some p else t.parentOf n).bind fun q =>
      if t.residentRoot && q == t.root then none else t.layoutOf q

theorem layoutOf_setParent {o : Option NodeId} : (a.setParent p o).layoutOf n = a.layoutOf n := by
  unfold Arena.layoutOf
  rw [splitAt_setParent]

theorem layoutOf_relinkAt {a' : Arena I} {i : ℕ} (e : relinkAt a id p i = some (a', q)) :
    a'.layoutOf n = a.layoutOf n := by
  obtain ⟨⟨b, q'⟩, hb, e⟩ := map_eq_some_iff.mp e
  cases e
  obtain ⟨q', -, e⟩ := map_eq_some_iff.mp hb
  cases e
  unfold Arena.insertChildAt
  split
  · rw [layoutOf_setParent, layoutOf_modifySplit, layoutOf_setParent, layoutOf_removeChild]
    exact fun _ => rfl
  · rw [layoutOf_setParent, layoutOf_removeChild]

theorem Inv.moves_relink {a' : Arena I} (h : Inv c ∅ t) (hm : c.marks)
    (hr : Relinked c.full ∅ ∅ t.nodeDepth t.toArena id q p a') (hbelow : ¬ Below t.children id p)
    (hlay : ∀ n, a'.layoutOf n = t.layoutOf n) :
    Moves t { t with toArena := a' } id (fun n => n) (t.outerInto id p) := by
  obtain ⟨hok, -⟩ := h.exact
  obtain ⟨r', hok', -⟩ := hr.anywhere hbelow
  have hkids := Relinked.mem_children hr hok hok'
  have hid : t.contains id = true := contains_of_parentOf hr.parent
  refine ⟨fun _ _ => rfl, fun _ => rfl, fun n x _ hx => ?_, fun n x m _ _ hx hne hxm ht hor => ?_, ?_,
    fun n _ _ => hlay n, fun n P layout hP hres hidn hlayout => ?_⟩
  · exact ((hkids n x).mp hx).imp (fun e => e.1) fun e => e.2
  · refine ⟨(hkids n x).mpr (.inr ⟨hne, hx⟩), ?_, (congrArg Option.isSome (hr.same.tile m)).trans ht⟩
    rcases hor with hb | hb
    · exact Relinked.below_inside hr hok hok' hxm (hb.step hx)
    · exact Relinked.below_outside hr hok hok' hxm hb
  · obtain ⟨m, hidm, ht⟩ := hok.exists_leaf (c.marks_full hm) hid
      (hok.ne_root_of_parentOf hr.parent)
    exact ⟨m, Relinked.below_inside hr hok hok' hidm (refl id),
      (congrArg Option.isSome (hr.same.tile m)).trans ht⟩
  · have hnp : n ≠ p := by
      rintro rfl
      exact hidn ((hkids n id).mpr (.inl ⟨rfl, rfl⟩))
    have hP : (if n = id then some p else t.parentOf n) = some P := (hr.parentOf n).symm.trans hP
    have hres : (t.residentRoot && P == t.root) = false := by
      have hroot : a'.root = t.root := hr.same.root
      have hres : ¬ (t.residentRoot = true ∧ P = a'.root) := hres
      rw [hroot] at hres
      cases e : t.residentRoot <;> simp_all
    unfold outerInto
    rw [if_neg hnp, hP]
    simp only [Option.bind_some, hres, Bool.false_eq_true, if_false]
    exact (hlay P).symm.trans hlayout

theorem mem_children_of_focusedChildIn {child : NodeId} (h : t.focusedChildIn n = some child) :
    child ∈ t.children n := by
  unfold focusedChildIn at h
  split at h
  · cases h
  rename_i s hs
  rw [children_of_splitAt hs]
  rcases Option.or_eq_some_iff.mp h with h | ⟨-, h⟩
  · obtain ⟨f, -, h⟩ := exists_of_findSome?_eq_some h
    exact mem_of_find?_eq_some h
  · exact mem_of_mem_head? h

/-- Where the descent of a directional move ends: inside the neighbour, or beside it. -/
theorem directionalDestination_spec (hu : UniqueParent t.children) {fuel i : ℕ}
    (hd : t.directionalDestination direction fuel destination = some (p, i)) :
    t.isSplit p = true ∧ (Below t.children destination p ∨ destination ∈ t.children p) := by
  induction fuel generalizing destination with
  | zero => cases hd
  | succ fuel ih =>
    unfold directionalDestination at hd
    split at hd
    · cases hd
    · split at hd
      · cases hd
      · obtain ⟨k, hk, e⟩ := map_eq_some_iff.mp hd
        cases e
        obtain ⟨s, hs, hk⟩ := bind_eq_some_iff.mp hk
        exact ⟨(t.isSplit_eq_true p).mpr ⟨s, hs⟩, .inr (children_of_splitAt hs ▸ mem_of_idxOf? hk)⟩
    · rename_i s hget
      have hs : t.splitAt destination = some s := by simp [Arena.splitAt, hget]
      split at hd
      · split at hd
        · cases hd
        · cases hd
          exact ⟨(t.isSplit_eq_true p).mpr ⟨s, hs⟩, .inl (refl p)⟩
      · obtain ⟨child, hchild, hd⟩ := bind_eq_some_iff.mp hd
        obtain ⟨hsplit, hor⟩ := ih hd
        have hkid := mem_children_of_focusedChildIn hchild
        refine ⟨hsplit, .inl ?_⟩
        rcases hor with hb | hc
        · exact (of_kid hkid).trans hb
        · exact hu _ _ _ hc hkid ▸ refl p

/-- A node inside or beside a neighbour of `branch` is not inside what `branch` holds. -/
theorem Ok.not_below_of_neighbour {D : Set NodeId} (hok : Ok g D E r a) {parent : NodeId}
    (hb : Below a.children branch id) (hbranch : branch ∈ a.children parent)
    (hdest : destination ∈ a.children parent) (hne : destination ≠ branch)
    (hp : Below a.children destination p ∨ destination ∈ a.children p) :
    ¬ Below a.children id p := by
  intro hidp
  have hbp := hb.trans hidp
  rcases hp with hp | hp
  · -- two children of one node are not comparable
    have hsib : ∀ {x y}, x ∈ a.children parent → y ∈ a.children parent → x ≠ y →
        ¬ Below a.children x y := by
      intro x y hx hy hxy hbelow
      obtain ⟨z, hxz, hyz⟩ := hbelow.parent (Ne.symm hxy)
      rw [hok.uniqueParent _ _ _ hyz hy] at hxz
      exact hok.ranked.not_below_kid hx hxz
    rcases hok.uniqueParent.comparable hbp hp with hc | hc
    · exact hsib hbranch hdest (Ne.symm hne) hc
    · exact hsib hdest hbranch hne hc
  · rw [hok.uniqueParent _ _ _ hp hdest] at hbp
    exact hok.ranked.not_below_kid hbranch hbp

/-- If the fullscreen node does not hold the moved one, it keeps a leaf wherever that goes. -/
theorem Inv.keeps_of_not_above (h : Inv c ∅ t) (hm : c.marks) (hid : t.contains id = true)
    (hfs : t.Clear id) (p : NodeId) :
    t.Keeps id p := by
  obtain ⟨hok, -⟩ := h.exact
  intro f hf
  by_cases hb : Below t.children id f
  · exact .inr (.inl hb)
  have hroot : f ≠ t.root := fun e => hfs f hf (e ▸ hok.below_root hid)
  obtain ⟨m, hfm, ht⟩ := hok.exists_leaf (c.marks_full hm)
    ((h.side (c.marks_side hm)).contains_fullscreenNode hf) hroot
  refine .inr (.inr (.inr ⟨m, hfm, ht, fun hidm => ?_⟩))
  exact (hok.uniqueParent.comparable hfm hidm).elim (hfs f hf) hb

/-- **Moving into a neighbour.** -/
theorem Inv.moveIntoDirectionalDestination (h : Inv c ∅ t) (hh : c.side → c.hole = ∅)
    {parent : NodeId} (hfs : c.marks → t.Clear id)
    (hb : Below t.children branch id) (hbranch : branch ∈ t.children parent)
    (hdest : destination ∈ t.children parent) (hne : destination ≠ branch)
    (hdeep : c.deep → ∀ p i, t.directionalDestination direction t.size destination = some (p, i) →
      t.nodeDepth p + t.subtreeHeight id ≤ maxTreeDepth)
    (hpair : c.marks → ∀ p i, t.directionalDestination direction t.size destination = some (p, i) →
      t.fullscreenPaired id (t.outerInto id p) = false) :
    Inv c ∅ (t.moveIntoDirectionalDestination id destination direction).1 := by
  obtain ⟨hok, -⟩ := h.exact
  unfold TilingTree.moveIntoDirectionalDestination
  split
  · exact h
  rename_i p i hd
  split
  · exact h
  rename_i a q hrelink
  obtain ⟨hsplit, hp⟩ := directionalDestination_spec hok.uniqueParent hd
  have hbelow := Ok.not_below_of_neighbour hok hb hbranch hdest hne hp
  have hr := relinked_relinkAt hok hsplit hrelink
  have hid : t.contains id = true := contains_of_parentOf hr.parent
  have hkeeps : c.marks → t.Keeps id p := fun hm => h.keeps_of_not_above hm hid (hfs hm) p
  have h1 := h.relinkReap hr hbelow (fun hd' => .inl (hdeep hd' p i hd)) hkeeps
  refine Inv.finishDirectionalMove (h1.squashForMove (fun hm => ?_) none) hh id
  obtain ⟨r1, hok1, -⟩ := h1.ok
  have hre := (h.relink hr hbelow fun hd' => .inl (hdeep hd' p i hd)).reaps_reapFrom
    (Arena.size a) fun hm => h.held_relink hr hbelow hm (hkeeps hm)
  exact h.unsquashed_of_moves hm hid (hfs hm)
    (h.moves_relink hm hr hbelow fun n => layoutOf_relinkAt hrelink) hre hok1 (hpair hm p i hd)

/-! ## 4. Beside the wrapped children of the root -/

/-- Where the nodes are after the root's children have been wrapped: the root itself stands for the
    new wrapper, which takes over its layout. -/
def outerWrap (t : TilingTree I) (id : NodeId) (direction : Direction) (n : NodeId) :
    Option Layout :=
  if n = id ∨ n = t.root then (if t.residentRoot then none else some direction.axis)
  else (t.parentOf n).bind t.layoutOf

section Wrap

variable {b : Arena I} {s : Split} {direction : Direction}

/-- The tree of `wrapRootForDirection`. -/
def wrapped (t : TilingTree I) (b : Arena I) (s : Split) (id : NodeId) (direction : Direction) :
    TilingTree I :=
  { t with
    toArena := (wrapRootForDirectionArena b s id direction).1
    ipcStaleNodes := insert b.counter t.ipcStaleNodes }

theorem wrapRootForDirection_eq (hs : b.splitAt b.root = some s) :
    { t with toArena := b : TilingTree I }.wrapRootForDirection id direction =
      t.wrapped b s id direction := by
  unfold wrapRootForDirection
  have hs' : ({ t with toArena := b } : TilingTree I).splitAt
      ({ t with toArena := b } : TilingTree I).root = some s := hs
  rw [hs']
  rfl

section

variable (h : Inv c ∅ t)
include h

/-- The node is hung under the root, then its new siblings are wrapped. -/
theorem Inv.wrapped (hd : t.detachSubtreeOnly id = some (b, q)) (hs : b.splitAt b.root = some s)
    (hcan : t.canWrapRootChildren = true) (hne : s.children ≠ []) :
    Inv c {q} (t.wrapped b s id direction) := by
  obtain ⟨hok, -⟩ := h.exact
  obtain ⟨s0, hs0⟩ := hok.root_split
  have hu := hok.unlinked_detachSubtreeOnly hd
  have hid : t.contains id = true := contains_of_parentOf hu.parent
  have hroot : b.root = t.root := hu.same.root
  have hidroot := hok.ne_root_of_parentOf hu.parent
  have hrelink : relinkAt t.toArena id t.root 0 = some (b.insertChildAt b.root id 0, q) := by
    unfold relinkAt
    rw [hd, hroot]
    rfl
  have hr := relinked_relinkAt hok ((t.isSplit_eq_true _).mpr ⟨s0, hs0⟩) hrelink
  have hbelow : ¬ Below t.children id t.root := fun hb =>
    hidroot (hok.ranked.antisymm (hok.below_root hid) hb)
  have hup : t.nodeDepth t.root < t.nodeDepth id := hok.ranked.lt (hok.below_root hid) hidroot
  have h1 := h.relink hr hbelow fun _ => .inr hup
  have hcb : b.contains id = true := (hu.same.contains id).trans hid
  have hw := wraps_wrapRootForDirectionArena hu.ok hs (Set.mem_insert id ∅) hcb direction
  have hsound := hu.ok.sound hs
  have hidc : id ≠ b.counter := fun e => by
    have := hok.fresh hid
    rw [← hu.same.counter] at this
    exact this.ne e
  have hids : id ∉ s.children := fun hx =>
    ((hu.mem b.root id).mp (children_of_splitAt hs ▸ hx)).2 rfl
  -- the depths before the move bound those after it
  have hdepth : ∀ m, (b.insertChildAt b.root id 0).nodeDepth m ≤ t.nodeDepth m := fun m =>
    ((hr.upward hup).climbs fun _ hn => hn.elim).nodeDepth_le m
  have h2 := h1.wraps hw (fun _ => hne) (fun x hx => (mem_insertIdx_min 0 x).mpr (.inl hx))
    (fun _ _ => ?_) (fun _ => ⟨hsound.nodup, hsound.lengths, hsound.shares⟩) fun _ => ⟨?_, ?_⟩
  · have hsub : ({q} : Set NodeId) \ {b.root} ⊆ {q} := Set.sdiff_subset
    have hstale := (hw.contains b.counter).mpr (.inl (puts_insertChildAt hs hcb 0).counter.symm)
    exact (h2.mono hsub).markStale hstale
  · refine ⟨?_, ?_, fun _ => Shares.isShares_of_pos_of_sum (by norm_num) (by norm_num)⟩
    · cases direction.isBackwards <;> simp [hidc, hidc.symm]
    · cases direction.isBackwards <;> rfl
  · have := h.deep_of_canWrapRootChildren hcan (contains_of_splitAt hs0)
    have := hdepth b.root
    rw [hroot] at this ⊢
    exact (Nat.add_le_add_right this 1).trans ‹_›
  · intro x hx m hm
    have hcx : (b.insertChildAt b.root id 0).contains x = true := by
      rw [hr.same.contains, ← hu.same.contains]
      exact hu.ok.contains_kid (children_of_splitAt hs ▸ hx : x ∈ b.children b.root)
    have hcm := (hr.upward hup).contains_below hcx hm
    rw [hr.same.contains] at hcm
    exact (Nat.add_le_add_right (hdepth m) 1).trans (h.deep_of_canWrapRootChildren hcan hcm)

/-- Who is listed where in the wrapped tree. -/
theorem Inv.wrapped_facts (hd : t.detachSubtreeOnly id = some (b, q))
    (hs : b.splitAt b.root = some s) (direction : Direction) :
    (t.wrapped b s id direction).root = t.root ∧
      (∀ x, x ∈ s.children ↔ x ∈ t.children t.root ∧ x ≠ id) ∧
      (∀ n, n ≠ t.root → ∀ x, x ∈ (t.wrapped b s id direction).children n ↔
        if n = t.counter then x ∈ s.children else x ∈ t.children n ∧ x ≠ id) ∧
      (∀ n, (t.wrapped b s id direction).parentOf n =
        if n = t.counter then some t.root else if n ∈ s.children then some t.counter
        else if n = id then some t.root else t.parentOf n) ∧
      (∀ n, (t.wrapped b s id direction).layoutOf n =
        if n = t.counter then t.layoutOf t.root else if n = t.root then some direction.axis
        else t.layoutOf n) ∧ ∀ n, (t.wrapped b s id direction).tile n = t.tile n := by
  obtain ⟨hok, -⟩ := h.exact
  have hu := hok.unlinked_detachSubtreeOnly hd
  have hid : t.contains id = true := contains_of_parentOf hu.parent
  have hcb : b.contains id = true := (hu.same.contains id).trans hid
  have hroot : b.root = t.root := hu.same.root
  have hcounter : b.counter = t.counter := hu.same.counter
  have hput := puts_insertChildAt hs hcb 0
  have hw := wraps_wrapRootForDirectionArena hu.ok hs (Set.mem_insert id ∅) hcb direction
  have hmem : ∀ x, x ∈ s.children ↔ x ∈ t.children t.root ∧ x ≠ id := fun x => by
    rw [← children_of_splitAt hs, hu.mem, hroot]
  have hlay : ∀ n, b.layoutOf n = t.layoutOf n := fun n => by
    obtain ⟨q', -, e⟩ := map_eq_some_iff.mp hd
    cases e
    rw [layoutOf_setParent, layoutOf_removeChild]
  have hsplit := hw.splitAt
  simp only [hput.counter, hput.splitAt] at hsplit
  refine ⟨hw.root.trans (hput.root.trans hroot), hmem, fun n hn x => ?_, fun n => ?_, fun n => ?_,
    fun n => (hw.tile n).trans ((hput.tile n).trans (hu.same.tile n))⟩
  · have hsn := hsplit n
    rw [hcounter, hroot] at hsn
    by_cases e : n = t.counter
    · rw [if_pos e] at hsn ⊢
      exact (children_of_splitAt (show (t.wrapped b s id direction).splitAt n = _ from hsn)) ▸ Iff.rfl
    rw [if_neg e] at hsn ⊢
    simp only [if_neg hn] at hsn
    rw [← hu.mem]
    have : (t.wrapped b s id direction).children n = b.children n := by
      unfold Arena.children
      rw [show (t.wrapped b s id direction).splitAt n = b.splitAt n from hsn]
    rw [this]
  · have hpn := hw.parentOf n
    rw [hput.counter, hput.parentOf, hcounter, hroot] at hpn
    refine (show (t.wrapped b s id direction).parentOf n = _ from hpn).trans ?_
    by_cases e : n = id
    · simp [e]
    · simp only [if_neg e, hu.parentOf n e]
  · have hsn := hsplit n
    rw [hcounter, hroot] at hsn
    unfold Arena.layoutOf
    rw [show (t.wrapped b s id direction).splitAt n = _ from hsn]
    have hlr := hlay t.root
    rw [← hroot] at hlr
    unfold Arena.layoutOf at hlr hlay
    rw [hs, hroot] at hlr
    by_cases e : n = t.counter
    · simp only [if_pos e, Option.map_some]
      exact hlr
    by_cases er : n = t.root
    · simp [if_neg e, if_pos er]
    · simp only [if_neg e, if_neg er]
      exact hlay n

/-- Ways down below the root that stay inside or outside the moved node are kept. -/
theorem Inv.below_wrapped (hd : t.detachSubtreeOnly id = some (b, q))
    (hs : b.splitAt b.root = some s) {x m : NodeId} (hx : x ≠ t.root) (hxm : Below t.children x m)
    (hor : Below t.children id x ∨ ¬ Below t.children id m) :
    Below (t.wrapped b s id direction).children x m := by
  obtain ⟨hok, -⟩ := h.exact
  obtain ⟨-, -, hkids, -⟩ := h.wrapped_facts hd hs direction
  induction hxm with
  | refl => exact refl x
  | @tail z y hxz hy ih =>
    have hzroot : z ≠ t.root := by
      rintro rfl
      rcases Relation.ReflTransGen.cases_tail hxz with e | ⟨z', -, hz'⟩
      · exact hx e.symm
      · exact hok.root_not_kid _ hz'
    obtain ⟨s', hs', -⟩ := splitAt_of_mem_children hy
    have hzc := hok.ne_counter (contains_of_splitAt hs')
    have hyid : y ≠ id := by
      rintro rfl
      rcases hor with hb | hb
      · exact hok.ranked.not_below_kid hy (hb.trans hxz)
      · exact hb (refl y)
    refine (ih (hor.imp_right fun hb hz => hb (hz.step hy))).step ?_
    rw [hkids z hzroot, if_neg hzc]
    exact ⟨hy, hyid⟩

theorem Inv.moves_wrapped (hm : c.marks) (hd : t.detachSubtreeOnly id = some (b, q))
    (hs : b.splitAt b.root = some s) :
    Moves t (t.wrapped b s id direction) id (fun n => if n = t.counter then t.root else n)
      (t.outerWrap id direction) := by
  obtain ⟨hok, -⟩ := h.exact
  have hu := hok.unlinked_detachSubtreeOnly hd
  have hid : t.contains id = true := contains_of_parentOf hu.parent
  have hidroot := hok.ne_root_of_parentOf hu.parent
  obtain ⟨hroot, hmem, hkids, hpar, hlay, htile⟩ := h.wrapped_facts hd hs direction
  have hne : ∀ {n}, t.contains n = true → n ≠ t.counter := hok.ne_counter
  have hrootc := hne hok.contains_root
  refine ⟨fun n hn => if_neg (hne hn), fun _ => rfl, fun n x hn hx => ?_,
    fun n x m _ hn hx hxid hxm ht hor => ?_, ?_, fun n hn _ => ?_, fun n P layout hP hres _ hl => ?_⟩
  · rw [hroot] at hn
    rw [hkids n hn] at hx
    split_ifs at hx with e
    · rw [if_pos e]
      exact .inr ((hmem x).mp hx).1
    · rw [if_neg e]
      exact .inr hx.1
  · rw [hroot] at hn
    have hxroot : x ≠ t.root := fun e => hok.root_not_kid _ (e ▸ hx)
    have hor' : Below t.children id x ∨ ¬ Below t.children id m := hor.imp_left fun hb => hb.step hx
    refine ⟨?_, h.below_wrapped hd hs hxroot hxm hor', by rw [htile]; exact ht⟩
    rw [hkids n hn]
    by_cases e : n = t.counter
    · rw [if_pos e] at hx ⊢
      exact (hmem x).mpr ⟨hx, hxid⟩
    · rw [if_neg e] at hx ⊢
      exact ⟨hx, hxid⟩
  · obtain ⟨m, hidm, ht⟩ := hok.exists_leaf (c.marks_full hm) hid hidroot
    exact ⟨m, h.below_wrapped hd hs hidroot hidm (.inl (refl id)), by rw [htile]; exact ht⟩
  · rw [hroot] at hn
    rw [hlay, if_neg hn]
    by_cases e : n = t.counter <;> simp [e]
  · rw [hroot] at hres
    have hres : P = t.root → t.residentRoot = false := fun e => by
      by_contra hr
      exact hres ⟨show t.residentRoot = true by simpa using hr, e⟩
    rw [hpar] at hP
    unfold outerWrap
    by_cases e : n = t.counter
    · -- the wrapper
      rw [if_pos e] at hP
      cases hP
      rw [hlay, if_neg hrootc, if_pos rfl] at hl
      simp [e, hres rfl, hl]
    · rw [if_neg e] at hP ⊢
      by_cases hns : n ∈ s.children
      · -- a child of the root that is in the wrapper now
        rw [if_pos hns] at hP
        cases hP
        obtain ⟨hnr, hnid⟩ := (hmem n).mp hns
        rw [hlay, if_pos rfl] at hl
        have hnroot : n ≠ t.root := fun er => hok.root_not_kid _ (er ▸ hnr)
        simp [hnid, hnroot, hok.kid_parent hnr, hl]
      · rw [if_neg hns] at hP
        by_cases hnid : n = id
        · rw [if_pos hnid] at hP
          cases hP
          rw [hlay, if_neg hrootc, if_pos rfl] at hl
          simp [hnid, hres rfl, hl]
        · rw [if_neg hnid] at hP
          have hnroot := hok.ne_root_of_parentOf hP
          have hkid := hok.mem_children hP
          have hProot : P ≠ t.root := fun er => hns ((hmem n).mpr ⟨er ▸ hkid, hnid⟩)
          obtain ⟨sp, hsp, -⟩ := splitAt_of_mem_children hkid
          rw [hlay, if_neg (hne (contains_of_splitAt hsp)), if_neg hProot] at hl
          simp [hnid, hnroot, hP, hl]

/-- The fullscreen node holds a leaf in the wrapped tree. -/
theorem Inv.held_wrapped (hm : c.marks) (hd : t.detachSubtreeOnly id = some (b, q))
    (hs : b.splitAt b.root = some s) (hkeeps : t.Keeps id t.root) :
    (t.wrapped b s id direction).Held := by
  obtain ⟨hok, -⟩ := h.exact
  obtain ⟨hroot, -, -, -, -, htile⟩ := h.wrapped_facts hd hs direction
  intro f hf
  have hf : (t.fullscreenMode f).isSome := hf
  rw [hroot]
  by_cases e : f = t.root
  · exact .inl e
  have hcf := (h.side (c.marks_side hm)).contains_fullscreenNode hf
  rcases hkeeps f hf with e' | hb | hb | ⟨m, hfm, ht, hout⟩
  · exact absurd e' e
  · obtain ⟨m, hfm, ht⟩ := hok.exists_leaf (c.marks_full hm) hcf e
    exact .inr ⟨m, h.below_wrapped hd hs e hfm (.inl hb), by rw [htile]; exact ht⟩
  · exact absurd (hok.ranked.antisymm (hok.below_root hcf) hb) e
  · exact .inr ⟨m, h.below_wrapped hd hs e hfm (.inr hout), by rw [htile]; exact ht⟩

/-- **Moving beside all other children of the root.** -/
theorem Inv.promoteByWrappingRoot (hh : c.side → c.hole = ∅)
    (hfs : c.marks → t.Clear id)
    (hcan : t.canWrapRootChildren = true) (hne : ∃ x ∈ t.children t.root, x ≠ id)
    (hpair : c.marks → t.fullscreenPaired id (t.outerWrap id direction) = false) :
    Inv c ∅ (t.promoteByWrappingRoot id direction).1 := by
  obtain ⟨hok, -⟩ := h.exact
  unfold TilingTree.promoteByWrappingRoot
  split
  · exact h
  rename_i b q hd
  have hu := hok.unlinked_detachSubtreeOnly hd
  have hid : t.contains id = true := contains_of_parentOf hu.parent
  obtain ⟨s, hs⟩ := hu.ok.root_split
  obtain ⟨x, hx, hxid⟩ := hne
  have hnil : s.children ≠ [] := by
    have hxs : x ∈ b.children b.root := (hu.mem _ x).mpr ⟨hu.same.root ▸ hx, hxid⟩
    rw [children_of_splitAt hs] at hxs
    exact ne_nil_of_mem hxs
  simp only
  rw [wrapRootForDirection_eq hs]
  have hkeeps : c.marks → t.Keeps id t.root := fun hm => h.keeps_of_not_above hm hid (hfs hm) _
  have h1 : Inv c {q} (t.wrapped b s id direction) := h.wrapped hd hs hcan hnil
  have hheld : c.marks → (t.wrapped b s id direction).Held := fun hm =>
    h.held_wrapped hm hd hs (hkeeps hm)
  have h2 := h1.reapEmptyFrom hheld
  refine Inv.finishDirectionalMove (h2.squashForMove (fun hm => ?_) (some id)) hh id
  obtain ⟨r2, hok2, -⟩ := h2.ok
  exact h.unsquashed_of_moves hm hid (hfs hm) (h.moves_wrapped hm hd hs)
    (h1.reaps_reapFrom _ hheld) hok2 (hpair hm)

end

end Wrap

/-! ## 5. To the end of an ancestor -/

/-- The share a promoted node keeps is one of the old ones. -/
theorem Inv.keptShare_pos (h : Inv c E t) (hg : c.full) {wanted : Layout} {x : ℚ}
    (hx : t.keptShare id wanted = some x) : 0 < x := by
  obtain ⟨r, hok, -⟩ := h.ok
  obtain ⟨s, hs, hx⟩ := bind_eq_some_iff.mp hx
  obtain ⟨q, -, hs⟩ := bind_eq_some_iff.mp hs
  split at hx
  · obtain ⟨i, -, hx⟩ := bind_eq_some_iff.mp hx
    exact ((hok.sound hs).shares hg).1 x (mem_of_getElem? hx)
  · cases hx

/-- **Moving to the end of an ancestor.** -/
theorem Inv.promoteToBoundary (h : Inv c ∅ t) (hh : c.side → c.hole = ∅)
    (hfs : c.marks → t.Clear id)
    (hb : Below t.children branch id) (hne : branch ≠ id)
    (hend : (t.children p)[if direction.isBackwards then 0 else (t.children p).length - 1]? =
      some branch) :
    Inv c ∅ (t.promoteToBoundary id p direction).1 := by
  obtain ⟨hok, -⟩ := h.exact
  unfold TilingTree.promoteToBoundary
  simp only
  rw [hend]
  simp only
  split
  · exact h
  rename_i a q hpromote
  have hkid : branch ∈ t.children p := mem_of_getElem? hend
  have hr := relinked_promoteArena hok hkid hne
    (fun hg x hx => h.keptShare_pos hg hx) hpromote
  have hid : t.contains id = true := contains_of_parentOf hr.parent
  have hup : t.nodeDepth p < t.nodeDepth id :=
    (hok.ranked p branch hkid).trans_le (hok.ranked.le hb)
  have h1 := h.relinkReap_up hr hup fun hm => h.keeps_of_not_above hm hid (hfs hm) p
  exact h1.compactTree.finishDirectionalMove hh id

/-! ## 6. The only window -/

/-- Only leaves are fullscreen. -/
def LeafFullscreen (c : Ctx I) (t : TilingTree I) : Prop :=
  ∀ n, (t.fullscreenMode n).isSome → (c.windows n).isSome

theorem isSome_fullscreenMode_removeNode
    (h : ((t.removeNode id).fullscreenMode n).isSome) : (t.fullscreenMode n).isSome := by
  by_cases hid : t.contains id = true
  · rw [fullscreenMode_removeNode hid] at h
    split at h
    · cases h
    · exact h
  · simpa [removeNode, hid] using h

/-- A mode that squashing hands to a split comes from a split. -/
theorem isSome_fullscreenMode_squash (h : ((t.squash id).fullscreenMode n).isSome) :
    (t.fullscreenMode n).isSome ∨ ∃ x s, t.splitAt x = some s ∧ (t.fullscreenMode x).isSome := by
  unfold squash at h
  split at h
  · rename_i p child hp hk
    split at h
    · rename_i cs i hcs hi
      obtain ⟨hkids, -⟩ := squashableChild_eq_some hk
      obtain ⟨s, hs, -⟩ := splitAt_of_mem_children (show child ∈ t.children id by simp [hkids])
      have h := isSome_fullscreenMode_removeNode (isSome_fullscreenMode_removeNode h)
      have hmodes : ∀ {u v : TilingTree I} {P : Prop} [Decidable P] {o : Option NodeId},
          (if P then u.setFocusId o else u).fullscreenMode n = u.fullscreenMode n := by
        intro u v P _ o
        split
        · cases o <;> rfl
        · rfl
      rw [hmodes (v := t)] at h
      split at h
      · rename_i m hm
        refine .inr ?_
        rcases Option.or_eq_some_iff.mp hm with hm | ⟨-, hm⟩
        · exact ⟨id, s, hs, by rw [show t.fullscreenMode id = some m from hm]; rfl⟩
        · exact ⟨child, cs, hcs, by rw [show t.fullscreenMode child = some m from hm]; rfl⟩
      · exact .inl h
    · exact .inl h
  · exact .inl h

theorem Inv.leafFullscreen_squash (h : Inv c E t) (hl : LeafFullscreen c t) :
    LeafFullscreen c (t.squash id) := by
  intro n hn
  rcases isSome_fullscreenMode_squash hn with hn | ⟨x, s, hs, hx⟩
  · exact hl n hn
  · have := h.windows_isSome.mp (hl x hx)
    simp [tile_of_splitAt hs] at this

theorem Inv.leafFullscreen_compactFrom (h : Inv c ∅ t) (hl : LeafFullscreen c t) (fuel : ℕ) :
    LeafFullscreen c (TilingTree.compactFrom fuel t) := by
  fun_induction TilingTree.compactFrom fuel t with
  | case3 _ _ _ _ ih => exact ih (h.squash _) (h.leafFullscreen_squash hl)
  | _ => exact hl

theorem Inv.leafFullscreen_setLayout (h : Inv c ∅ t) (hl : LeafFullscreen c t) {s : Split}
    (hs : t.splitAt id = some s) (layout : Layout) : LeafFullscreen c (t.setLayout id layout) := by
  have hsplit : t.isSplit id = true := (t.isSplit_eq_true id).mpr ⟨s, hs⟩
  have h1 := h.closeSlot
  have h2 := h1.setSplitLayoutRemembering id layout
  unfold TilingTree.setLayout
  simp only
  rw [if_pos (show ({ t with interactiveResize := none, fullscreenTileSlot := false } :
    TilingTree I).isSplit id = true from hsplit)]
  exact h2.leafFullscreen_compactFrom hl _

/-- Only leaves are fullscreen: then every one of them keeps its leaf, itself. -/
theorem Inv.keeps_of_leafFullscreen (h : Inv c E t) (hl : LeafFullscreen c t) (id p : NodeId) :
    t.Keeps id p := by
  intro f hf
  by_cases hb : Below t.children id f
  · exact .inr (.inl hb)
  · exact .inr (.inr (.inr ⟨f, refl f, h.windows_isSome.mp (hl f hf), hb⟩))

theorem Inv.moveToReorientedRoot (h : Inv c ∅ t) (hh : c.side → c.hole = ∅) (id : NodeId)
    (wanted : Layout) (hl : c.marks → LeafFullscreen c t) :
    Inv c.calmed ∅ (t.moveToReorientedRoot id wanted) := by
  obtain ⟨r, hok, -⟩ := h.ok
  obtain ⟨s, hs⟩ := hok.root_split
  have h1 := h.setLayout t.root wanted
  have hl1 : c.marks → LeafFullscreen c (t.setLayout t.root wanted) := fun hm =>
    h.leafFullscreen_setLayout (hl hm) hs wanted
  unfold TilingTree.moveToReorientedRoot
  simp only
  set u := t.setLayout t.root wanted
  obtain ⟨hok1, -⟩ := h1.exact
  obtain ⟨s1, hs1⟩ := hok1.root_split
  split
  · exact h1
  rename_i x _
  split
  · exact h1
  rename_i p hp
  split
  · exact h1
  rename_i a q hrelink
  obtain ⟨hp, -⟩ := Option.filter_eq_some_iff.mp hp
  have hr := relinked_relinkAt hok1
    ((u.isSplit_eq_true _).mpr ⟨s1, hs1⟩) hrelink
  have hpq : p = q := Option.some.inj (hp.symm.trans hr.parent)
  subst hpq
  have hx : u.contains x = true := contains_of_parentOf hp
  have hxroot := hok1.ne_root_of_parentOf hp
  have hup : u.nodeDepth u.root < u.nodeDepth x := hok1.ranked.lt (hok1.below_root hx) hxroot
  exact (h1.relinkReap_up hr hup fun hm =>
    h1.keeps_of_leafFullscreen (hl1 hm) x _).finishDirectionalMove hh x

/-- The ancestor of the only window is in a split above it. -/
theorem onlyWindowAncestor_below {leaf ancestor current : NodeId} {wanted : Layout} {fuel : ℕ}
    (hok : t.toArena.Ok g ∅ E r) (hb : Below t.children current leaf)
    (ha : t.onlyWindowAncestor leaf wanted fuel current = some ancestor) :
    Below t.children ancestor leaf := by
  fun_induction onlyWindowAncestor t leaf wanted fuel current with
  | case5 _ current p hp _ _ _ _ ih =>
    exact ih ((of_kid (hok.mem_children hp)).trans hb) ha
  | case6 =>
    cases ha
    exact hb
  | _ => cases ha

theorem Inv.promoteOnlyWindow (h : Inv c ∅ t) (hh : c.side → c.hole = ∅) {leaf ancestor : NodeId}
    (hb : Below t.children ancestor leaf) (direction : Direction)
    (hl : c.marks → LeafFullscreen c t) :
    Inv c ∅ (t.promoteOnlyWindow leaf ancestor direction) := by
  obtain ⟨hok, -⟩ := h.exact
  unfold TilingTree.promoteOnlyWindow
  split
  · exact h
  rename_i p hp
  split
  · exact h
  split
  · exact h
  rename_i a q hrelink
  have hkid := hok.mem_children hp
  obtain ⟨s, hs, -⟩ := splitAt_of_mem_children hkid
  have hr := relinked_relinkAt hok
    ((t.isSplit_eq_true _).mpr ⟨s, hs⟩) hrelink
  have hup : t.nodeDepth p < t.nodeDepth leaf :=
    (hok.ranked p ancestor hkid).trans_le (hok.ranked.le hb)
  exact (h.relinkReap_up hr hup fun hm =>
    h.keeps_of_leafFullscreen (hl hm) leaf p).compactTree.finishDirectionalMove hh leaf

theorem Inv.moveOnlyWindow (h : Inv c ∅ t) (hh : c.side → c.hole = ∅) (id : NodeId)
    (direction : Direction) (hl : c.marks → LeafFullscreen c t) :
    Inv c ∅ (t.moveOnlyWindow id direction) := by
  obtain ⟨hok, -⟩ := h.exact
  unfold TilingTree.moveOnlyWindow
  refine Inv.ite (fun _ => (h.moveToReorientedRoot hh id _ hl).uncalm) fun _ => ?_
  split
  · exact h
  rename_i leaf _
  split
  · exact h
  refine Inv.ite (fun _ => h) fun _ => ?_
  split
  · exact h
  · rename_i ancestor ha
    exact Inv.ite (fun _ => h) fun _ =>
      h.promoteOnlyWindow hh (onlyWindowAncestor_below hok (refl leaf) ha) direction hl

/-! ## 7. The walk of a directional move -/

/-- What an action of the walk says about the tree. -/
def MoveAction.Sound (t : TilingTree I) (id : NodeId) (direction : Direction) : MoveAction → Prop
  | .into destination => ∃ branch parent, Below t.children branch id ∧
      branch ∈ t.children parent ∧ destination ∈ t.children parent ∧ destination ≠ branch
  | .promote p => ∃ branch, Below t.children branch id ∧ branch ≠ id ∧
      (t.children p)[if direction.isBackwards then 0 else (t.children p).length - 1]? = some branch
  | .wrapRoot => t.canWrapRootChildren = true
  | _ => True

theorem neighbour_none {l : List NodeId} {i : ℕ} {backwards : Bool} {x : NodeId}
    (hx : l[i]? = some x) (h : neighbour l i backwards = none) :
    l[if backwards then 0 else l.length - 1]? = some x := by
  obtain ⟨hi, -⟩ := List.getElem?_eq_some_iff.mp hx
  unfold neighbour at h
  cases backwards with
  | true =>
    simp only [if_true] at h ⊢
    split_ifs at h with e
    · exact e ▸ hx
    · have := List.getElem?_eq_none_iff.mp h
      omega
  | false =>
    simp only [Bool.false_eq_true, if_false] at h ⊢
    have := List.getElem?_eq_none_iff.mp h
    rw [show l.length - 1 = i by omega]
    exact hx

/-- **The walk decides soundly.** It climbs from `id`, so `id` is below every branch it looks at. -/
theorem moveWalk_sound (hok : t.toArena.Ok g ∅ E r) (direction : Direction) (boundaryRoot : NodeId)
    (fuel : ℕ) (hb : Below t.children branch id) :
    (t.moveWalk id direction boundaryRoot fuel branch).Sound t id direction := by
  fun_induction moveWalk t id direction boundaryRoot fuel branch with
  | case3 _ _ _ hgo =>
    simp only [not_or, not_eq_true'] at hgo
    simpa [MoveAction.Sound] using hgo.2
  | case7 _ branch parent hp s hs _ i hi destination hd =>
    exact ⟨branch, parent, hb, hok.mem_children hp,
      Ok.neighbour_spec hok hs hi hd⟩
  | case10 _ branch parent _ s hs _ i hi hnone _ hne =>
    refine ⟨branch, hb, hne, ?_⟩
    rw [children_of_splitAt hs]
    exact neighbour_none (getElem?_of_idxOf? hi) hnone
  | case11 _ branch parent hp s hs climb _ _ _ _ _ ih | case12 _ branch parent hp s hs climb _ ih =>
    dsimp only [climb]
    split
    · exact trivial
    · exact ih ((of_kid (hok.mem_children hp)).trans hb)
  | _ => exact trivial

/-! ## 8. Directional moves -/

/-- Whether a fullscreen node holds `id`: such a node does not move. -/
def heldFullscreen (t : TilingTree I) (id : NodeId) : Bool :=
  match t.fullscreenNode with
  | some fullscreen => t.containsNode fullscreen id
  | none => false

/-- The action that the walk of `moveDirectionInner` decides on, if it gets that far. -/
def moveAction (t : TilingTree I) (id : NodeId) (direction : Direction) : MoveAction :=
  if !t.contains id ∨ id = t.root ∨ t.heldFullscreen id ∨ t.windows.length ≤ 1 ∨
      (t.splitLen t.root = some 1 ∧ t.rootBranch id = some id) then
    .stay
  else
    t.moveWalk id direction (t.residentRootNode.getD t.root) t.size id

/-- A node that goes into a neighbour fits where it lands. The code does not check this. -/
def moveFits (t : TilingTree I) (id : NodeId) (direction : Direction) : Bool :=
  match t.moveAction id direction with
  | .into destination =>
    match t.directionalDestination direction t.size destination with
    | some (p, _) => t.fitsBelow p (t.subtreeHeight id)
    | none => true
  | _ => true

/-- A move that squashes pairs leaves no fullscreen node in a pair, and where the only window moves
    no container around it is fullscreen. -/
def moveHolds (t : TilingTree I) (id : NodeId) (direction : Direction) : Bool :=
  (1 < t.windows.length ||
    match t.fullscreenNode with
    | some fullscreen => t.containsNode fullscreen id || (t.tile fullscreen).isSome
    | none => true) &&
  match t.moveAction id direction with
  | .into destination =>
    match t.directionalDestination direction t.size destination with
    | some (p, _) => !t.fullscreenPaired id (t.outerInto id p)
    | none => true
  | .wrapRoot => !t.fullscreenPaired id (t.outerWrap id direction)
  | _ => true

/-- The root holds another child than the moved node. -/
theorem Inv.root_child_ne (h : Inv c E t) (hid : t.contains id = true) (hroot : id ≠ t.root)
    (hlone : ¬ (t.splitLen t.root = some 1 ∧ t.rootBranch id = some id)) :
    ∃ x ∈ t.children t.root, x ≠ id := by
  obtain ⟨r, hok, -⟩ := h.ok
  obtain ⟨s, hs⟩ := hok.root_split
  by_contra hall
  push Not at hall
  obtain ⟨k, hk, -⟩ := (below_iff_kid.mp (hok.below_root hid)).resolve_left hroot
  have hkid : id ∈ t.children t.root := hall k hk ▸ hk
  have honly := eq_singleton (hok.nodup t.root) hkid hall
  rw [children_of_splitAt hs] at honly
  refine hlone ⟨by simp [splitLen, hs, honly], ?_⟩
  simp [rootBranch, hok.kid_parent hkid]

/-- Closing the resize session is not seen by the walks. -/
theorem moveWalk_close (id : NodeId) (direction : Direction) (boundaryRoot : NodeId) (fuel : ℕ)
    (branch : NodeId) :
    ({ t with interactiveResize := none } : TilingTree I).moveWalk id direction boundaryRoot fuel
      branch = t.moveWalk id direction boundaryRoot fuel branch := by
  induction fuel generalizing branch with
  | zero => rfl
  | succ fuel ih =>
    unfold moveWalk
    simp only [ih]

theorem directionalDestination_close (direction : Direction) (fuel : ℕ) (n : NodeId) :
    ({ t with interactiveResize := none } : TilingTree I).directionalDestination direction fuel n =
      t.directionalDestination direction fuel n := by
  induction fuel generalizing n with
  | zero => rfl
  | succ fuel ih =>
    unfold directionalDestination
    simp only [funext ih]
    rfl

theorem fullscreen_not_above (h : t.Modes ∅) (hok : t.toArena.Ok g ∅ E r)
    (hheld : t.heldFullscreen id = false) {f : NodeId} (hf : (t.fullscreenMode f).isSome) :
    ¬ Below t.children f id := by
  intro hb
  unfold heldFullscreen at hheld
  rw [h.eq_fullscreenNode hf] at hheld
  simp only at hheld
  rw [(hok.containsNode_iff no_unlinked).mpr hb] at hheld
  cases hheld

/-- **A directional move keeps the invariant** where it fits and holds: it is refused, or closes the
    session. -/
theorem Inv.moveDirectionInner (h : Inv c ∅ t) (hh : c.side → c.hole = ∅) (id : NodeId)
    (direction : Direction) (hfits : c.deep → t.moveFits id direction = true)
    (hholds : c.marks → t.moveHolds id direction = true) :
    t.moveDirectionInner id direction = (t, false) ∨
      Inv c.calmed ∅ (t.moveDirectionInner id direction).1 := by
  obtain ⟨hok, -⟩ := h.exact
  have h1 : Inv c.calmed ∅ { t with interactiveResize := none } := h.close
  unfold TilingTree.moveDirectionInner
  have hrefuse : ∀ {P : Prop} [Decidable P] {z : TilingTree I × Bool}, (¬ P → z = (t, false) ∨
      Inv c.calmed ∅ z.1) → (if P then (t, false) else z) = (t, false) ∨
        Inv c.calmed ∅ (if P then (t, false) else z).1 := fun {P _ z} hz => by
    split
    · exact .inl rfl
    · exact hz ‹_›
  refine hrefuse fun hid => hrefuse fun hheld => ?_
  simp only [not_or, not_eq_true', Bool.not_eq_false] at hid
  have hheld : t.heldFullscreen id = false := by
    unfold heldFullscreen
    cases e : t.fullscreenNode with
    | none => rfl
    | some f => simpa [e] using hheld
  have hfs : c.marks → t.Clear id := fun hm f hf =>
    fullscreen_not_above (h.modes (c.marks_side hm)) hok hheld hf
  refine .inr (Inv.ite_fst (fun hone => ?_) fun hmany => Inv.ite_fst (fun _ => ?_) fun hlone => ?_)
  · refine Inv.ite (fun _ => h1.moveOnlyWindow hh id direction fun hm f hf => ?_) fun _ => h1
    -- the fullscreen node does not hold `id`, so it is a leaf
    have hf : (t.fullscreenMode f).isSome := hf
    have hholds := hholds hm
    unfold moveHolds at hholds
    rw [(h.modes (c.marks_side hm)).eq_fullscreenNode hf] at hholds
    have hone : t.windows.length ≤ 1 := hone
    simp only [and_eq_true, or_eq_true, decide_eq_true_eq] at hholds
    rcases hholds.1 with hw | hc | ht
    · omega
    · exact absurd ((hok.containsNode_iff no_unlinked).mp hc) (hfs hm f hf)
    · exact h.windows_isSome.mpr ht
  · exact (h1.setLayout _ _).uncalm
  · have haction : t.moveAction id direction =
        t.moveWalk id direction (t.residentRootNode.getD t.root) t.size id := by
      unfold moveAction
      rw [if_neg]
      simp only [hid.1, hid.2, hheld, not_or, Bool.not_true, Bool.false_eq_true, not_false_eq_true,
        true_and]
      exact ⟨hmany, hlone⟩
    have hsound := moveWalk_sound hok direction (t.residentRootNode.getD t.root) t.size (refl id)
    have hwalk : ∀ u : TilingTree I, u = { t with interactiveResize := none } →
        u.moveWalk id direction (u.residentRootNode.getD u.root) u.size id =
          t.moveAction id direction := by
      rintro _ rfl
      rw [moveWalk_close, haction]
      rfl
    rw [← haction] at hsound
    rw [hwalk _ rfl]
    cases e : t.moveAction id direction with
    | stay => exact h1
    | toIndex index => exact (h1.moveSubtreeToIndex hh id _).uncalm
    | into destination =>
      rw [e] at hsound
      obtain ⟨branch, parent, hb, hbranch, hdest, hne⟩ := hsound
      refine h1.moveIntoDirectionalDestination hh hfs hb hbranch hdest hne (fun hd p i hp => ?_)
        fun hm p i hp => ?_
      · have hp : t.directionalDestination direction t.size destination = some (p, i) :=
          (directionalDestination_close _ _ _).symm.trans hp
        have := hfits hd
        simp only [moveFits, e, hp] at this
        simpa [fitsBelow] using this
      · have hp : t.directionalDestination direction t.size destination = some (p, i) :=
          (directionalDestination_close _ _ _).symm.trans hp
        have := hholds hm
        simp only [moveHolds, e, hp, and_eq_true, not_eq_true'] at this
        exact this.2
    | promote p =>
      rw [e] at hsound
      obtain ⟨branch, hb, hne, hend⟩ := hsound
      exact h1.promoteToBoundary hh hfs hb hne hend
    | wrapRoot =>
      rw [e] at hsound
      refine h1.promoteByWrappingRoot hh hfs hsound (h.root_child_ne hid.1 hid.2 hlone) fun hm => ?_
      have := hholds hm
      simp only [moveHolds, e, and_eq_true, not_eq_true'] at this
      exact this.2

theorem Inv.moveDirection (h : Inv c ∅ t) (hh : c.side → c.hole = ∅) (id : NodeId)
    (direction : Direction) (hfits : c.deep → t.moveFits id direction = true)
    (hholds : c.marks → t.moveHolds id direction = true) :
    Kept c ∅ t (t.moveDirection id direction).1 := by
  unfold TilingTree.moveDirection
  rcases h.moveDirectionInner hh id direction hfits hholds with e | h1
  · rw [e]
    exact .same h
  split <;> rename_i e <;> rw [e] at h1
  · exact .closed h1.compactTree
  · exact .closed h1

theorem Inv.nodup_windowFocusHistory (h : Inv c E t) (hs : c.side) (hc : c.Distinct) :
    t.windowFocusHistory.Nodup := by
  refine Nodup.filterMap (fun m n w hm hn => ?_) (h.side hs).history
  exact hc m n w ((h.tiles m).symm.trans hm) ((h.tiles n).symm.trans hn)

variable [DecidableEq I]

theorem Inv.restoreWindowFocusHistory (h : Inv c E t) {history : List I}
    (hn : c.side → history.Nodup) : Inv c E (t.restoreWindowFocusHistory history) := by
  refine h.withHistory fun hs => ⟨fun n hn => ?_, ?_⟩
  · obtain ⟨w, -, hw⟩ := mem_filterMap.mp hn
    exact contains_nodeForWindow hw
  refine Nodup.filterMap (fun v w n hv hw => ?_) (hn hs)
  obtain ⟨tile, ht, e⟩ := nodeForWindow_some hv
  obtain ⟨tile', ht', e'⟩ := nodeForWindow_some hw
  rw [ht] at ht'
  cases ht'
  exact e.symm.trans e'

omit [DecidableEq I] in
/-- Containers that are appended to the history when they are still there. -/
theorem nodup_appended (a : Arena I) (l history : List NodeId) (hn : history.Nodup)
    (hc : ∀ n ∈ history, a.contains n = true) :
    (l.foldl (fun history node =>
        if a.contains node && !history.contains node then history ++ [node] else history)
        history).Nodup ∧ ∀ n ∈ l.foldl (fun history node =>
        if a.contains node && !history.contains node then history ++ [node] else history) history,
        a.contains n = true := by
  induction l generalizing history with
  | nil => exact ⟨hn, hc⟩
  | cons x l ih =>
    rw [foldl_cons]
    split_ifs with hx
    · simp only [and_eq_true, not_eq_true', contains_eq_mem,
        decide_eq_false_iff_not] at hx
      refine ih _ ?_ fun n hn => ?_
      · exact Nodup.append hn (nodup_singleton x) (disjoint_singleton.mpr hx.2)
      · rcases mem_append.mp hn with hn | hn
        · exact hc n hn
        · exact mem_singleton.mp hn ▸ hx.1
    · exact ih history hn hc

/-- **A directional move of any node**, focus and history restored. -/
theorem Inv.moveNodeDirection (h : Inv c ∅ t) (hh : c.side → c.hole = ∅)
    (hd : c.side → c.Distinct) (id : NodeId) (direction : Direction)
    (hfits : c.deep → t.moveFits id direction = true)
    (hholds : c.marks → t.moveHolds id direction = true) :
    Kept c ∅ t (t.moveNodeDirection id direction).1 := by
  have h1 := h.moveDirection hh id direction hfits hholds
  unfold TilingTree.moveNodeDirection
  simp only
  set u := (t.moveDirection id direction).1
  have h2 : Kept c ∅ t (if (t.moveDirection id direction).2 then
      { u.restoreWindowFocusHistory t.windowFocusHistory with
        focusHistory := (t.focusHistory.filter (t.isSplit ·)).foldl (fun history node =>
          if (u.restoreWindowFocusHistory t.windowFocusHistory).contains node &&
            !history.contains node then history ++ [node] else history)
          (u.restoreWindowFocusHistory t.windowFocusHistory).focusHistory } else u) := by
    refine .ite (fun _ => h1.trans (.side ?_ rfl rfl)) fun _ => h1
    have h' : Inv c ∅ (u.restoreWindowFocusHistory t.windowFocusHistory) :=
      h1.inv.restoreWindowFocusHistory fun hs => h.nodup_windowFocusHistory hs (hd hs)
    refine h'.withHistory fun hs => ?_
    obtain ⟨hn, hc⟩ := nodup_appended _ (t.focusHistory.filter (t.isSplit ·)) _ (h'.side hs).history
      fun n hn => (h'.side hs).names n (.inl hn)
    exact ⟨hc, hn⟩
  refine .ite (fun hf => ?_) fun _ => h2
  -- the old focus is still there
  have hf := ((and_eq_true _ _).mp hf).2
  cases hfocus : t.focus with
  | none => simp [hfocus] at hf
  | some f =>
    rw [hfocus] at hf
    exact h2.trans (.side (h2.inv.putFocus hf (h.focus_some hfocus)) rfl rfl)

end TilingTree

end Swayward
