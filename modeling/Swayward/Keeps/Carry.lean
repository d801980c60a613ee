/-
  File:      Swayward/Keeps/Carry.lean
  Subject:   WHAT A SUBTREE KEEPS WHEN IT CHANGES TREES: shape, shares, modes, windows.

  A detached node is read off one tree and planted in another. `Carries.snapshot` says that reading
  it off again gives the same node, with the identifiers it got there. Between planting and reading
  the tree may only change as `Rests` allows: its focus, and the sizes its windows were asked for.
-/
import Swayward.Keeps.Swap

namespace Swayward

open Arena Forest Shares Positions List

variable {I : Type} {first : NodeId}

/-! ## 1. Nodes up to identifiers -/

namespace DetachedNode

mutual

/-- The node with other identifiers, tiles plain. -/
def renamed (f : NodeId → NodeId) : DetachedNode I → DetachedNode I
  | .split oldId layout children percents info mode =>
    .split (f oldId) layout (renamedOf f children) percents info mode
  | .leaf oldId tile mode mapped => .leaf (f oldId) tile.plain mode mapped

def renamedOf (f : NodeId → NodeId) : List (DetachedNode I) → List (DetachedNode I)
  | [] => []
  | node :: nodes => node.renamed f :: renamedOf f nodes

end

theorem renamedOf_eq (f : NodeId → NodeId) (nodes : List (DetachedNode I)) :
    renamedOf f nodes = nodes.map (renamed f) := by
  induction nodes with
  | nil => rfl
  | cons node nodes ih => rw [renamedOf, ih, map_cons]

end DetachedNode

open DetachedNode

namespace TilingTree

variable {c : Ctx I} {t u v w : TilingTree I} {id p n : NodeId} {g : Prop} {D E : Set NodeId}
  {r : NodeId → ℕ} {news : List (NodeId × DetachedNode I)}
variable {e : NodeId × DetachedNode I} {x : TilingTree I × NodeId × List (NodeId × NodeId)}

/-! ## 2. Reading off what was planted -/

/-- The new nodes of `w` are what they were planted as. -/
structure Carries (news : List (NodeId × DetachedNode I)) (w : TilingTree I) : Prop where
  shaped : Shaped w news
  tile : ∀ e ∈ news, (w.tile e.1).map Tile.plain = e.2.tile.map Tile.plain
  mode : ∀ e ∈ news, w.pendingModes.lookup e.1 = e.2.pendingMode
  mapped : ∀ e ∈ news, e.1 ∈ w.mappedUnderFullscreen ↔ e.2.mapped = true

theorem Carries.rests (h : Carries news t) (hr : Rests t u) : Carries news u where
  shaped e he oldId layout children percents info mode heq := by
    rw [hr.splitAt]
    exact h.shaped e he oldId layout children percents info mode heq
  tile e he := (hr.tile e.1).trans (h.tile e he)
  mode e he := by
    rw [hr.modes]
    exact h.mode e he
  mapped e he := by
    rw [hr.mapped]
    exact h.mapped e he

theorem Carries.contains (h : Carries news w) (he : e ∈ news) : w.contains e.1 = true := by
  obtain ⟨n, node⟩ := e
  cases node with
  | leaf oldId tile mode mapped =>
    obtain ⟨tile', ht, -⟩ := Option.map_eq_some_iff.mp (h.tile _ he)
    exact contains_of_tile ht
  | split oldId layout children percents info mode =>
    obtain ⟨ids, hs, -⟩ := h.shaped _ he _ _ _ _ _ _ rfl
    exact contains_of_splitAt hs

theorem map_eq_map_of_forall₂ {α β γ : Type} {R : α → β → Prop} {l : List α} {l' : List β}
    {f : β → γ} {g : α → γ} (h : List.Forall₂ R l l') (hfg : ∀ a, ∀ b ∈ l', R a b → f b = g a) :
    l'.map f = l.map g := by
  induction h with
  | nil => rfl
  | cons hab _ ih =>
    rw [map_cons, map_cons, hfg _ _ mem_cons_self hab,
      ih fun a b hb => hfg a b (mem_cons_of_mem _ hb)]

/-- **Reading a planted node off gives it back**, with its new identifiers. -/
theorem Carries.snapshot (h : Carries news w) (hok : Ok g D E r w.toArena) {f : NodeId → NodeId}
    (hf : ∀ e ∈ news, f e.2.oldId = e.1) (he : e ∈ news) :
    (w.snapshot e.1).renamed (fun n => n) = e.2.renamed f := by
  refine subtree_induction (P := fun n => ∀ e ∈ news, e.1 = n →
    (w.snapshot n).renamed (fun n => n) = e.2.renamed f) hok.ranked (hok.covered (h.contains he))
    (fun n ih => ?_) e he rfl
  rintro ⟨i, node⟩ he rfl
  have hmode := h.mode _ he
  have hid := hf _ he
  cases node with
  | leaf oldId tile mode mapped =>
    obtain ⟨tile', ht, hplain⟩ := Option.map_eq_some_iff.mp (h.tile _ he)
    have hmapped : decide (i ∈ w.mappedUnderFullscreen) = mapped := by
      have := h.mapped _ he
      cases mapped <;> simpa [DetachedNode.mapped] using this
    rw [snapshot_leaf hok ht, renamed, renamed, hplain, hmode, hmapped]
    exact congrArg (fun n => leaf n _ _ _) hid.symm
  | split oldId layout children percents info mode =>
    obtain ⟨ids, hs, hids⟩ := h.shaped _ he _ _ _ _ _ _ rfl
    rw [snapshot_split hok hs, renamed, renamed, renamedOf_eq, renamedOf_eq, map_map, hmode]
    have hkids : ids.map (renamed (fun n => n) ∘ w.snapshot) = children.map (renamed f) :=
      map_eq_map_of_forall₂ hids fun child k hk hmem =>
        ih k (children_of_splitAt hs ▸ hk) (k, child) hmem rfl
    rw [hkids]
    exact congrArg (fun n => DetachedNode.split n _ _ _ _ _) hid.symm

/-- The new identifier of each planted node, by its old one. -/
def newId (news : List (NodeId × DetachedNode I)) (n : NodeId) : NodeId :=
  ((news.find? fun e => e.2.oldId == n).map Prod.fst).getD n

theorem newId_of_mem (hnodup : (news.map fun e => e.2.oldId).Nodup) (he : e ∈ news) :
    newId news e.2.oldId = e.1 := by
  unfold newId
  cases hfind : news.find? fun e' => e'.2.oldId == e.2.oldId with
  | none => simpa using find?_eq_none.mp hfind e he
  | some e' =>
    have heq : e'.2.oldId = e.2.oldId := by simpa using find?_some hfind
    rw [inj_on_of_nodup_map hnodup (mem_of_find?_eq_some hfind) he heq]
    rfl

/-- The list of changed identifiers lists exactly those. -/
theorem mem_remaps (hnodup : (news.map fun e => e.2.oldId).Nodup) (a b : NodeId) :
    (a, b) ∈ remaps news ↔ a ∈ news.map (fun e => e.2.oldId) ∧ b = newId news a ∧ a ≠ b := by
  simp only [remaps, mem_filterMap, mem_map]
  constructor
  · rintro ⟨e, he, heq⟩
    by_cases hid : e.1 = e.2.oldId
    · rw [if_pos hid] at heq
      cases heq
    · rw [if_neg hid] at heq
      cases heq
      exact ⟨⟨e, he, rfl⟩, (newId_of_mem hnodup he).symm, fun e' => hid e'.symm⟩
  · rintro ⟨⟨e, he, rfl⟩, rfl, hne⟩
    rw [newId_of_mem hnodup he] at hne ⊢
    exact ⟨e, he, if_neg fun e' => hne e'.symm⟩

/-- A tree with side tables in order carries what is planted in it. -/
theorem Planted.carries (hpl : Planted t news u) (hshape : Shaped u news) {H : Set NodeId}
    (hs : t.Side H) : Carries news u where
  shaped := hshape
  tile e he := by rw [(hpl.node e he).2]
  mode e he := hpl.lookup_new hs he
  mapped e he := by
    rw [hpl.mapped]
    constructor
    · rintro (hm | ⟨e', he', heq, hm⟩)
      · obtain ⟨tile, ht⟩ := Option.isSome_iff_exists.mp (hs.marked e.1 (.inl hm))
        have := contains_of_tile ht
        rw [hpl.fresh e he] at this
        cases this
      · rwa [← inj_on_of_nodup_map hpl.nodup he' he heq]
    · exact fun hm => .inr ⟨e, he, rfl, hm⟩

/-- The same with the subtree linked into a list of the old tree. -/
theorem Planted.carries_puts (hpl : Planted t news u) (hshape : Shaped u news) {H : Set NodeId}
    (hside : t.Side H) {s s' : Split} (hs : t.splitAt p = some s) {a : Arena I}
    (hputs : Puts u.toArena p id s s' a) : Carries news { u with toArena := a } := by
  have hcarries := hpl.carries hshape hside
  have hnew : ∀ e ∈ news, e.1 ≠ p := fun e he e' => by
    have := hpl.fresh e he
    rw [e', contains_of_splitAt hs] at this
    cases this
  refine ⟨?_, ?_, hcarries.mode, hcarries.mapped⟩
  · intro e he oldId layout children percents info mode heq
    obtain ⟨ids, hs', hids'⟩ := hshape e he oldId layout children percents info mode heq
    exact ⟨ids, (hputs.splitAt e.1).trans ((if_neg (hnew e he)).trans hs'), hids'⟩
  · intro e he
    exact (congrArg (Option.map Tile.plain) (hputs.tile e.1)).trans (hcarries.tile e he)

/-! ## 3. Taking the place of another subtree -/

/-- In `u` a subtree read as `node` stands where `first` stood in `t`, with the share `first` had,
    and nothing around it has changed. Its identifiers went through `f`, and `remapped` lists the
    ones that changed. -/
structure TakesPlace (f : NodeId → NodeId) (t : TilingTree I) (first : NodeId)
    (node : DetachedNode I) (u : TilingTree I) (remapped : List (NodeId × NodeId)) : Prop where
  place : ∀ p s, t.parentOf first = some p → t.splitAt p = some s → u.splitAt p = some { s with
    children := s.children.map fun c => if c = first then f node.oldId else c }
  others : ∀ n, t.contains n = true → n ∉ t.depthFirst first → t.parentOf first ≠ some n →
    u.splitAt n = t.splitAt n ∧ (u.tile n).map (·.window) = (t.tile n).map (·.window)
  subtree : (u.snapshot (f node.oldId)).renamed (fun n => n) = node.renamed f
  remap : ∀ a b, (a, b) ∈ remapped ↔ a ∈ node.subnodes.map oldId ∧ b = f a ∧ a ≠ b

/-- **What `attachSubtreeForSwap` puts where.** -/
theorem attachSubtreeForSwap_spec [DecidableEq I] {H : Set NodeId} (hside : t.Side H)
    (hb : ∀ n, t.contains n = true → n < t.counter) (subtree : DetachedSubtree I)
    {slot : DetachedSlot} {s : Split} (hs : t.splitAt slot.parent = some s)
    (hold : ∀ m ∈ subtree.node.subnodes, m.oldId < t.counter)
    (hnodup : (subtree.node.subnodes.map oldId).Nodup)
    (hx : t.attachSubtreeForSwap subtree slot = x) (hok : Ok g D E r x.1.toArena) :
    ∃ f, x.2.1 = f subtree.node.oldId ∧
      (∀ n, t.contains n = true → x.1.splitAt n = if n = slot.parent then
        some (plugged s slot.index x.2.1 slot.percent) else t.splitAt n) ∧
      (∀ n, t.contains n = true → (x.1.tile n).map (·.window) = (t.tile n).map (·.window)) ∧
      (x.1.snapshot x.2.1).renamed (fun n => n) = subtree.node.renamed f ∧
      ∀ a b, (a, b) ∈ x.2.2 ↔ a ∈ subtree.node.subnodes.map oldId ∧ b = f a ∧ a ≠ b := by
  obtain ⟨news, hnews, hmem, hpl, -, hshape, hremap, -⟩ :=
    grown_insertDetachedNode subtree.node t none [] hb hold rfl
  have hids : news.map (fun e => e.2.oldId) = subtree.node.subnodes.map oldId := by
    rw [← hnews, map_map]
    rfl
  have hnodup' : (news.map fun e => e.2.oldId).Nodup := hids ▸ hnodup
  obtain ⟨hrests, hx2⟩ := rests_attachSubtreeForSwap subtree ((isSplit_eq_true _ _).mpr ⟨_, hs⟩)
  rw [hx] at hrests hx2
  set y := insertDetachedNode t none [] subtree.node with hy
  -- the new nodes, the list of the parent: nothing else differs
  have hys : y.1.splitAt slot.parent = some s :=
    (hpl.reads (hpl.not_new (contains_of_splitAt hs))).1.trans hs
  have hputs : Puts y.1.toArena slot.parent y.2.1 s (plugged s slot.index y.2.1 slot.percent)
      (y.1.plugIn slot y.2.1).toArena :=
    puts_modifySplit (f := (plugged · slot.index y.2.1 slot.percent)) hys (hpl.node _ hmem).1
      fun x => mem_insertIdx_min slot.index x
  have hcarries : Carries news x.1 := (hpl.carries_puts hshape hside hs hputs).rests hrests
  have hyx : x.2.1 = y.2.1 := congrArg Prod.fst hx2
  refine ⟨newId news, hyx.trans (newId_of_mem hnodup' hmem).symm, fun n hn => ?_, fun n hn => ?_,
    ?_, fun a b => ?_⟩
  · refine (hrests.splitAt n).trans ((hputs.splitAt n).trans ?_)
    rw [hyx]
    split
    · rfl
    · exact (hpl.reads (hpl.not_new hn)).1
  · refine (hrests.window n).trans ((congrArg (Option.map (·.window)) (hputs.tile n)).trans ?_)
    rw [(hpl.reads (hpl.not_new hn)).2.2.2]
  · rw [hyx]
    exact hcarries.snapshot hok (fun e he => newId_of_mem hnodup' he) hmem
  · rw [← hids, ← mem_remaps hnodup', hx2, hremap, nil_append]

/-- **A subtree that fills a gap takes the place of the one that left it.** -/
theorem takesPlace_attachSubtreeForSwap [DecidableEq I] (h : Inv c ∅ t) (hfull : c.full)
    (hside : c.side) {sub : DetachedSubtree I} {slot : DetachedSlot}
    (e : t.detachSubtreeForSwap first = some (v, sub, slot)) {k : NodeId} (hk : v.counter ≤ k)
    (incoming : DetachedSubtree I) (hold : ∀ m ∈ incoming.node.subnodes, m.oldId < k)
    (hnodup : (incoming.node.subnodes.map oldId).Nodup)
    (hx : ({ v with counter := k } : TilingTree I).attachSubtreeForSwap incoming slot = x)
    (hok : Ok g D E r x.1.toArena) :
    ∃ f, TakesPlace f t first incoming.node x.1 x.2.2 := by
  obtain ⟨s, -, hp, hs, hi, hpercent, -, hdet, hinv, -⟩ := h.detachSubtreeForSwap e
  obtain ⟨rt, hokt, -⟩ := h.ok
  have hsv := h.splitAt_removed hdet hp hs hi
  have hinv' := hinv.advance hk
  obtain ⟨rv, hokv, -⟩ := hinv'.ok
  obtain ⟨f, hf, hsplit, hwindow, hsub, hremap⟩ := attachSubtreeForSwap_spec
    (hinv'.side hside) (fun n hn => hokv.fresh hn) incoming hsv hold hnodup hx hok
  have hlen : (s.children.eraseIdx slot.index).length = (s.percents.eraseIdx slot.index).length := by
    rw [length_eraseIdx, length_eraseIdx, (hokt.sound hs).lengths]
  refine ⟨f, fun p s' hp' hs' => ?_, fun n hn hnN hnp => ?_, hf ▸ hsub, hremap⟩
  · rw [hp] at hp'
    cases hp'
    rw [hs] at hs'
    cases hs'
    refine (hsplit _ (contains_of_splitAt hsv)).trans ?_
    have hshares : insertShare (rescale (s.percents.eraseIdx slot.index))
        (min slot.index (s.children.eraseIdx slot.index).length) slot.percent = s.percents := by
      rw [hlen]
      obtain ⟨A, B, hAB, hA⟩ := exists_around hpercent
      have hsh := (hokt.sound hs).shares hfull
      rw [hAB] at hsh ⊢
      rw [← hA, eraseIdx_around, length_append, min_eq_left (Nat.le_add_right _ _)]
      exact insertShare_rescale hsh
    rw [if_pos rfl, hf, plugged, hshares, insertIdx_eraseIdx_eq_map (hokt.sound hs).nodup hi]
  · have hnv : v.contains n = true := (hdet.contains n).mpr ⟨hn, .inr hnN⟩
    have hne : n ≠ slot.parent := fun e => hnp (e ▸ hp)
    constructor
    · refine (hsplit n hnv).trans ((if_neg hne).trans ?_)
      exact (hdet.splitAt _ hp n hnN).trans ((splitAt_removeChild hs hi n).trans (if_neg hne))
    · exact (hwindow n hnv).trans ((hdet.window n).trans (if_neg hnN))

end TilingTree

theorem DetachedNode.oldIds_placeFullscreen (node : DetachedNode I) (mode : Option FullscreenMode) :
    (node.placeFullscreen mode).subnodes.map oldId = node.subnodes.map oldId := by
  rw [subnodes_eq_cons, inner_placeFullscreen, subnodes_eq_cons, map_cons, map_cons,
    map_map, oldId_placeFullscreen]
  simp [Function.comp_def]

namespace TilingTree

variable {c d : Ctx I} {t u : TilingTree I} {n : NodeId} {g : Prop} {D E : Set NodeId}
  {r : NodeId → ℕ}
variable {second : NodeId}

/-- The identifiers in a snapshot are those of the subtree. -/
theorem oldIds_snapshot (h : Ok g D E r t.toArena) (hn : t.contains n = true) :
    (t.snapshot n).subnodes.map oldId = t.depthFirst n := by
  rw [subnodes_snapshot h hn, map_map]
  refine (map_congr_left fun m hm => ?_).trans (map_id' _)
  exact oldId_snapshot h (h.contains_below hn ((h.mem_depthFirst hn).mp hm))

/-- The subtree at `second` of `u`, as it goes to the place of `first` in `t`: it gets the fullscreen
    mode `first` has. -/
def incoming (t u : TilingTree I) (first second : NodeId) : DetachedNode I :=
  (u.snapshot second).placeFullscreen (t.fullscreenMode first)

theorem oldIds_incoming (h : Ok g D E r u.toArena) (hn : u.contains second = true) :
    (t.incoming u first second).subnodes.map oldId = u.depthFirst second := by
  unfold incoming
  rw [oldIds_placeFullscreen, oldIds_snapshot h hn]

theorem oldId_lt_incoming (h : Ok g D E r u.toArena)
    (hn : u.contains second = true) {m : DetachedNode I}
    (hm : m ∈ (t.incoming u first second).subnodes) : m.oldId < u.counter := by
  have := mem_map_of_mem (f := oldId) hm
  rw [oldIds_incoming h hn] at this
  exact h.fresh (h.contains_below hn ((h.mem_depthFirst hn).mp this))

/-- **A successful swap exchanges the two subtrees**: before the trees are compacted, each stands
    at the place of the other, with its share. -/
theorem Inv.swapNodesBetween_places [DecidableEq I] (h : Inv c ∅ t) (h' : Inv d ∅ u)
    (hcount : t.counter = u.counter) (hfull : c.full) (hfull' : d.full) (hside : c.side)
    (hside' : d.side) (hbare : c.bare = d.bare) (hmarks : ¬ c.marks) (hmarks' : ¬ d.marks)
    {t' u' : TilingTree I} {remap : SwapRemap}
    (e : t.swapNodesBetween u first second = .ok (t', u', remap)) :
    ∃ t1 u1 f f', t' = t1.finishSubtreeDetach none ∧ u' = u1.finishSubtreeDetach none ∧
      TakesPlace f t first (t.incoming u first second) t1 remap.second ∧
      TakesPlace f' u second (u.incoming t second first) u1 remap.first := by
  obtain ⟨t1, sub1, slot1, u1, sub2, slot2, hfits, hfits', e1, e2, e⟩ := swapNodesBetween_ok e
  obtain ⟨s, ⟨hid, hroot⟩, -, -, -, -, hnode, hdet, -, -⟩ := h.detachSubtreeForSwap e1
  obtain ⟨s', ⟨hid', hroot'⟩, -, -, -, -, hnode', hdet', -, -⟩ := h'.detachSubtreeForSwap e2
  obtain ⟨r, hok, -⟩ := h.ok
  obtain ⟨r', hok', -⟩ := h'.ok
  have hc1 : t1.counter = t.counter := hdet.counter.trans (if_neg hroot)
  have hc2 : u1.counter = u.counter := hdet'.counter.trans (if_neg hroot')
  simp only [DetachedSubtree.swapFullscreenPosition, hnode, hnode', fullscreen_snapshot hok hid,
    fullscreen_snapshot hok' hid'] at e
  obtain ⟨rfl, rfl, rfl⟩ := e
  have hf : c.full = d.full := propext ⟨fun _ => hfull', fun _ => hfull⟩
  have hs : c.side = d.side := propext ⟨fun _ => hside', fun _ => hside⟩
  obtain ⟨hT, -, -, hTc⟩ := h.halfSwap h' hf hs hbare e1 hid' hroot' (k := t1.counter) le_rfl
    (hc1 ▸ hcount ▸ le_rfl) { sub2 with
      node := (u.snapshot second).placeFullscreen (t.fullscreenMode first) }
    rfl hfits (fun hm => absurd hm hmarks) rfl rfl
  obtain ⟨hU, -, -, -⟩ := h'.halfSwap h hf.symm hs.symm hbare.symm e2 hid hroot
    (k := _) ((hc2.trans (hcount.symm.trans hc1.symm)).le.trans hTc) (hc1.symm.le.trans hTc)
    { sub1 with node := (t.snapshot first).placeFullscreen (u.fullscreenMode second) }
    rfl hfits' (fun hm => absurd hm hmarks') rfl rfl
  obtain ⟨rT, hokT, -⟩ := hT.ok
  obtain ⟨rU, hokU, -⟩ := hU.ok
  have hcu : u.counter ≤ t1.counter := hc1 ▸ hcount ▸ le_rfl
  obtain ⟨f, hf⟩ := takesPlace_attachSubtreeForSwap h hfull hside e1 (k := t1.counter) le_rfl
    { sub2 with node := t.incoming u first second }
    (fun m hm => (oldId_lt_incoming hok' hid' hm).trans_le hcu)
    ((oldIds_incoming hok' hid').symm ▸ hok'.nodup_depthFirst hid') rfl hokT
  obtain ⟨f', hf'⟩ := takesPlace_attachSubtreeForSwap h' hfull' hside' e2
    ((hc2.trans (hcount.symm.trans hc1.symm)).le.trans hTc)
    { sub1 with node := u.incoming t second first }
    (fun m hm => (oldId_lt_incoming hok hid hm).trans_le (hc1.symm.le.trans hTc))
    ((oldIds_incoming hok hid).symm ▸ hok.nodup_depthFirst hid) rfl hokU
  exact ⟨_, _, f, f', rfl, rfl, hf, hf'⟩

end TilingTree

end Swayward
