/-
  File:      Swayward/Keeps/Plant.lean
  Subject:   PLANTING A SUBTREE: new nodes beside the old ones.

  `insertDetachedNode` writes the nodes of a detached subtree into the arena, children below their
  parents, and leaves the top one unlisted. `Planted` says what that adds, `Shaped` and `Hung` how the
  new nodes hang together; a final link into a list of the tree then restores the invariant
  (`Inv.plantUnder`).
-/
import Swayward.Keeps.Detach

namespace Swayward

open Arena Forest Positions Shares List
open Prod (fst snd)

variable {I : Type} {nodes : List (DetachedNode I)} {e : NodeId × DetachedNode I} {oldId : NodeId}
  {percents : List ℚ} {info : SplitMeta} {layout : Layout}

/-! ## 1. Sound detached nodes -/

namespace DetachedNode

/-- One node in order: as many shares as children. -/
def Proper (g : Prop) : DetachedNode I → Prop
  | .split _ _ children percents _ _ =>
    percents.length = children.length ∧ (g → IsShares percents ∧ children ≠ [])
  | .leaf .. => True

/-- In order below the top, which may be an empty split. -/
def Loose (g : Prop) : DetachedNode I → Prop
  | .split _ _ children percents _ _ =>
    percents.length = children.length ∧ (g → IsShares percents) ∧
      ∀ m ∈ subnodesOf children, m.Proper g
  | .leaf .. => True

theorem mem_subnodes_self (node : DetachedNode I) : node ∈ node.subnodes := by
  cases node <;> simp [subnodes]

theorem mem_subnodes_of_child {m : DetachedNode I} {children : List (DetachedNode I)}
    {mode : Option PendingMode} (hm : m ∈ subnodesOf children) :
    m ∈ (split oldId layout children percents info mode).subnodes := by
  rw [subnodes]
  exact mem_cons_of_mem _ hm

theorem mem_subnodesOf_cons {m node : DetachedNode I} :
    m ∈ subnodesOf (node :: nodes) ↔ m ∈ node.subnodes ∨ m ∈ subnodesOf nodes := by
  rw [subnodesOf, mem_append]

/-- With a window inside, the top is in order too. -/
theorem Loose.proper {g : Prop} {node : DetachedNode I} (h : node.Loose g)
    (hw : g → node.windows ≠ []) : ∀ m ∈ node.subnodes, m.Proper g := by
  cases node with
  | leaf oldId tile mode mapped => simp [subnodes, Proper]
  | split oldId layout children percents info mode =>
    obtain ⟨hlen, hshares, hinner⟩ := h
    intro m hm
    rw [subnodes] at hm
    rcases mem_cons.mp hm with rfl | hm
    · refine ⟨hlen, fun hg => ⟨hshares hg, ?_⟩⟩
      rintro rfl
      exact hw hg (by simp [windows, windowsOf])
    · exact hinner m hm

end DetachedNode

namespace Arena

variable {a : Arena I} {n : NodeId}

theorem tile_of_get {q : Option NodeId} {tile : Tile I}
    (h : a.get n = some { parent := q, value := .leaf tile }) : a.tile n = some tile := by
  simp [Arena.tile, h]

theorem splitAt_of_get {q : Option NodeId} {s : Split}
    (h : a.get n = some { parent := q, value := .split s }) : a.splitAt n = some s := by
  simp [Arena.splitAt, h]

theorem parentOf_of_get {node : Node I} (h : a.get n = some node) : a.parentOf n = node.parent := by
  simp [Arena.parentOf, h]

/-- What a new node adds to the arena: it gets the identifier it asks for, or the next one. -/
theorem insertWithId_spec (oldId : NodeId) (node : Node I) {x : Arena I × NodeId}
    (hx : a.insertWithId oldId node = x) (hb : ∀ n, a.contains n = true → n < a.counter)
    (hold : oldId < a.counter) :
    a.contains x.2 = false ∧ x.2 < x.1.counter ∧ a.counter ≤ x.1.counter ∧ x.1.root = a.root ∧
      (∀ n, x.1.get n = if n = x.2 then some node else a.get n) ∧
      (x.2 = oldId ∨ a.counter ≤ x.2) ∧ x.1.contains oldId = true := by
  subst hx
  unfold insertWithId
  by_cases hc : a.contains oldId = true
  · rw [if_pos hc]
    refine ⟨?_, Nat.lt_succ_self _, Nat.le_succ _, rfl, fun n => get_alloc node n, .inr le_rfl,
      (contains_alloc node oldId).mpr (.inr hc)⟩
    by_contra hcc
    rw [Bool.not_eq_false] at hcc
    exact (hb _ hcc).ne rfl
  · rw [if_neg hc]
    refine ⟨by simpa using hc, hold, le_rfl, rfl, fun n => a.get_put oldId n node, .inl rfl, ?_⟩
    rw [Arena.contains, get_put, if_pos rfl]
    rfl

end Arena

namespace TilingTree

variable {t u v : TilingTree I} {id n : NodeId}
variable {news news' : List (NodeId × DetachedNode I)} {mode : Option PendingMode}
  {children : List (DetachedNode I)} {parent : Option NodeId} {ids : List NodeId}

/-! ## 2. What planting adds -/

/-- `u` is `t` with the new nodes `news`, each with the detached node it comes from. -/
structure Planted (t : TilingTree I) (news : List (NodeId × DetachedNode I)) (u : TilingTree I) :
    Prop where
  others : u = { t with
    toArena := u.toArena
    pendingModes := u.pendingModes
    mappedUnderFullscreen := u.mappedUnderFullscreen }
  root : u.root = t.root
  counter : t.counter ≤ u.counter
  bounded : ∀ n, u.contains n = true → n < u.counter
  fresh : ∀ e ∈ news, t.contains e.1 = false
  nodup : (news.map Prod.fst).Nodup
  old : ∀ n, n ∉ news.map Prod.fst → u.get n = t.get n
  node : ∀ e ∈ news, u.contains e.1 = true ∧ u.tile e.1 = e.2.tile
  mode : ∀ n, n ∉ news.map Prod.fst → u.pendingModes.lookup n = t.pendingModes.lookup n
  newMode : ∀ e ∈ news, u.pendingModes.lookup e.1 = e.2.pendingMode.or (t.pendingModes.lookup e.1)
  mapped : ∀ n, n ∈ u.mappedUnderFullscreen ↔
    n ∈ t.mappedUnderFullscreen ∨ ∃ e ∈ news, e.1 = n ∧ e.2.mapped = true
  origin : ∀ e ∈ news, e.1 = e.2.oldId ∨ t.counter ≤ e.1

theorem Planted.refl (hb : ∀ n, t.contains n = true → n < t.counter) : Planted t [] t :=
  ⟨rfl, rfl, le_rfl, hb, by simp, by simp, fun _ _ => rfl, by simp, fun _ _ => rfl, by simp,
    by simp, by simp⟩

theorem Planted.contains (h : Planted t news u) (n : NodeId) :
    u.contains n = true ↔ t.contains n = true ∨ n ∈ news.map fst := by
  by_cases hn : n ∈ news.map fst
  · obtain ⟨e, he, rfl⟩ := mem_map.mp hn
    simp [(h.node e he).1, hn]
  · unfold Arena.contains
    rw [h.old n hn]
    simp [hn]

/-- A node that was there is not new. -/
theorem Planted.not_new (h : Planted t news u) (hn : t.contains n = true) : n ∉ news.map fst := by
  intro hmem
  obtain ⟨e, he, rfl⟩ := mem_map.mp hmem
  rw [h.fresh e he] at hn
  cases hn

/-- The old nodes are read as before. -/
theorem Planted.reads (h : Planted t news u) (hn : n ∉ news.map fst) :
    u.splitAt n = t.splitAt n ∧ u.parentOf n = t.parentOf n ∧ u.children n = t.children n ∧
      u.tile n = t.tile n := by
  unfold Arena.children Arena.splitAt Arena.parentOf Arena.tile
  rw [h.old n hn]
  exact ⟨rfl, rfl, rfl, rfl⟩

theorem Planted.trans (h : Planted t news u) (h' : Planted u news' v) : Planted t (news ++ news') v := by
  have hmem : ∀ n, n ∈ (news ++ news').map fst ↔
      n ∈ news.map fst ∨ n ∈ news'.map fst := by simp
  have hnew : ∀ e ∈ news, e.1 ∉ news'.map fst := fun e he => h'.not_new (h.node e he).1
  have hfresh : ∀ e ∈ news', t.contains e.1 = false ∧ e.1 ∉ news.map fst := by
    intro e he
    have := h'.fresh e he
    rw [← Bool.not_eq_true, h.contains, not_or, Bool.not_eq_true] at this
    exact this
  refine ⟨?_, h'.root.trans h.root, h.counter.trans h'.counter, h'.bounded, ?_, ?_, fun n hn => ?_,
    ?_, fun n hn => ?_, ?_, fun n => ?_, fun e he => ?_⟩
  · rw [h'.others, h.others]
  · intro e he
    rcases mem_append.mp he with he | he
    · exact h.fresh e he
    · exact (hfresh e he).1
  · rw [map_append, nodup_append]
    refine ⟨h.nodup, h'.nodup, fun x hx y hy e => ?_⟩
    obtain ⟨f, hf, rfl⟩ := mem_map.mp hy
    exact (hfresh f hf).2 (e ▸ hx)
  · rw [hmem, not_or] at hn
    exact (h'.old n hn.2).trans (h.old n hn.1)
  · intro e he
    rcases mem_append.mp he with he | he
    · refine ⟨(h'.contains _).mpr (.inl (h.node e he).1), ?_⟩
      rw [← (h.node e he).2, (h'.reads (hnew e he)).2.2.2]
    · exact h'.node e he
  · rw [hmem, not_or] at hn
    exact (h'.mode n hn.2).trans (h.mode n hn.1)
  · intro e he
    rcases mem_append.mp he with he | he
    · rw [h'.mode _ (hnew e he), h.newMode e he]
    · rw [h'.newMode e he, h.mode _ (hfresh e he).2]
  · rw [h'.mapped, h.mapped]
    simp only [mem_append, or_and_right, exists_or, or_assoc]
  · rcases mem_append.mp he with he | he
    · exact h.origin e he
    · exact (h'.origin e he).imp_right h.counter.trans

/-- One new leaf. -/
theorem Planted.leaf {tile : Tile I} {mapped : Bool}
    (hb : ∀ n, t.contains n = true → n < t.counter) (hold : oldId < t.counter)
    (parent : Option NodeId) (remapped : List (NodeId × NodeId)) :
    Planted t [((insertDetachedNode t parent remapped (.leaf oldId tile mode mapped)).2.1,
        .leaf oldId tile mode mapped)]
      (insertDetachedNode t parent remapped (.leaf oldId tile mode mapped)).1 := by
  rw [insertDetachedNode]
  set x := t.insertWithId oldId { parent := parent, value := .leaf tile } with hx
  obtain ⟨hfresh, hlt, hle, hroot, hget, horigin, -⟩ := insertWithId_spec oldId _ hx.symm hb hold
  simp only
  refine ⟨rfl, hroot, hle, fun n hn => ?_, by simpa using hfresh, by simp, fun n hn => ?_, ?_,
    fun n hn => ?_, ?_, fun n => ?_, fun e he => mem_singleton.mp he ▸ horigin⟩
  · have hn : (x.1.get n).isSome = true := hn
    rw [hget] at hn
    by_cases e : n = x.2
    · exact e ▸ hlt
    · rw [if_neg e] at hn
      exact (hb n hn).trans_le hle
  · exact (hget n).trans (if_neg (by simpa using hn))
  · intro e he
    obtain rfl := mem_singleton.mp he
    have : x.1.get x.2 = some { parent := parent, value := .leaf tile } := by rw [hget, if_pos rfl]
    exact ⟨congrArg Option.isSome this, tile_of_get this⟩
  · have hne : n ≠ x.2 := by simpa using hn
    cases mode with
    | none => rfl
    | some mode => exact (FinMap.lookup_insert_eq _ _ _ _).trans (if_neg hne)
  · intro e he
    obtain rfl := mem_singleton.mp he
    cases mode with
    | none => rfl
    | some mode => exact (FinMap.lookup_insert_eq _ _ _ _).trans (if_pos rfl)
  · cases mapped with
    | false => simp [DetachedNode.mapped]
    | true =>
      simp only [if_true, Finset.mem_insert, mem_singleton, exists_eq_left,
        DetachedNode.mapped, and_true]
      rw [or_comm, eq_comm]

/-- The tree in which a split is being planted: its children are still missing. -/
def openSplit (t : TilingTree I) (parent : Option NodeId) (oldId : NodeId) (layout : Layout)
    (percents : List ℚ) (info : SplitMeta) : TilingTree I × NodeId :=
  let x := t.insertWithId oldId
    { parent := parent, value := .split { layout, children := [], percents, info } }
  ({ t with toArena := x.1 }, x.2)

/-- The split gets its children and its mode. -/
def closeSplit (t : TilingTree I) (id : NodeId) (ids : List NodeId) (mode : Option PendingMode) :
    TilingTree I :=
  { t with
    toArena := t.modifySplit id fun s => { s with children := ids }
    pendingModes :=
      match mode with
      | some mode => t.pendingModes.insert id mode
      | none => t.pendingModes }

/-- The list of changed identifiers, with one more entry if `oldId` was taken. -/
def noteRemap (oldId id : NodeId) (remapped : List (NodeId × NodeId)) : List (NodeId × NodeId) :=
  if id = oldId then remapped else remapped ++ [(oldId, id)]

theorem insertDetachedNode_split (t : TilingTree I) (parent : Option NodeId)
    (remapped : List (NodeId × NodeId)) (oldId : NodeId) (layout : Layout)
    (children : List (DetachedNode I)) (percents : List ℚ) (info : SplitMeta)
    (mode : Option PendingMode) :
    let x := t.openSplit parent oldId layout percents info
    let y := insertDetachedNodes x.1 (some x.2) (noteRemap oldId x.2 remapped) children
    insertDetachedNode t parent remapped (.split oldId layout children percents info mode) =
      (y.1.closeSplit x.2 y.2.1 mode, x.2, y.2.2) := by
  rw [insertDetachedNode]
  rfl

/-- A split that is opened, filled and closed. -/
theorem Planted.split (hb : ∀ n, t.contains n = true → n < t.counter) (hold : oldId < t.counter)
    (h : Planted (t.openSplit parent oldId layout percents info).1 news u) :
    Planted t (((t.openSplit parent oldId layout percents info).2,
        .split oldId layout children percents info mode) :: news)
      (u.closeSplit (t.openSplit parent oldId layout percents info).2 ids mode) := by
  obtain ⟨hfresh, hlt, hle, hroot, hget, horigin, -⟩ := insertWithId_spec oldId
    { parent := parent, value := .split { layout, children := [], percents, info } } rfl hb hold
  set x := t.openSplit parent oldId layout percents info with hx
  change t.contains x.2 = false at hfresh
  change x.2 < x.1.counter at hlt
  change ∀ n, x.1.get n = if n = x.2 then
    some { parent := parent, value := .split { layout, children := [], percents, info } }
    else t.get n at hget
  have hxc : x.1.contains x.2 = true := by
    unfold Arena.contains
    rw [hget, if_pos rfl]
    rfl
  have hnot := h.not_new hxc
  have hmode : ∀ n, (u.closeSplit x.2 ids mode).pendingModes.lookup n =
      if n = x.2 then mode.or (u.pendingModes.lookup n) else u.pendingModes.lookup n := by
    intro n
    unfold closeSplit
    cases mode with
    | none => simp
    | some mode =>
      refine (FinMap.lookup_insert_eq _ _ _ _).trans ?_
      simp
  have hcon : ∀ n, (u.closeSplit x.2 ids mode).contains n = u.contains n := fun n =>
    contains_modifySplit _ _ _ _
  refine ⟨?_, h.root.trans hroot, hle.trans h.counter, fun n hn => h.bounded n (hcon n ▸ hn), ?_, ?_,
    fun n hn => ?_, ?_, fun n hn => ?_, ?_, fun n => ?_, fun e he => ?_⟩
  · unfold closeSplit
    conv_lhs => rw [h.others]
    rfl
  · intro e he
    rcases mem_cons.mp he with rfl | he
    · exact hfresh
    have := h.fresh e he
    unfold Arena.contains at this ⊢
    rw [hget] at this
    split at this
    · cases this
    · exact this
  · rw [map_cons, nodup_cons]
    exact ⟨hnot, h.nodup⟩
  · rw [map_cons, mem_cons, not_or] at hn
    have : (u.closeSplit x.2 ids mode).get n = u.get n := by
      refine (get_modify _ _ _ _).trans ?_
      rw [if_neg hn.1]
    rw [this, h.old n hn.2, hget, if_neg hn.1]
  · intro e he
    rw [hcon]
    have htile : ∀ n, (u.closeSplit x.2 ids mode).tile n = u.tile n := fun n =>
      tile_modifySplit _ _ _ _
    rw [htile]
    rcases mem_cons.mp he with rfl | he
    · refine ⟨(h.contains _).mpr (.inl hxc), ?_⟩
      have : u.get x.2 = some
          { parent := parent, value := .split { layout, children := [], percents, info } } := by
        rw [h.old _ hnot, hget, if_pos rfl]
      exact tile_of_splitAt (splitAt_of_get this)
    · exact h.node e he
  · rw [map_cons, mem_cons, not_or] at hn
    rw [hmode, if_neg hn.1, h.mode n hn.2]
    rfl
  · intro e he
    rcases mem_cons.mp he with rfl | he
    · rw [hmode, if_pos rfl, h.mode _ hnot]
      rfl
    rw [hmode, if_neg ?_, h.newMode e he]
    · rfl
    · intro e'
      exact hnot (e' ▸ mem_map_of_mem he)
  · refine (h.mapped n).trans (or_congr_right ?_)
    simp [DetachedNode.mapped]
  · rcases mem_cons.mp he with rfl | he
    · exact horigin
    · exact (h.origin e he).imp_right hle.trans

/-- Every new split lists the nodes that were planted for its children. -/
def Shaped (u : TilingTree I) (news : List (NodeId × DetachedNode I)) : Prop :=
  ∀ e ∈ news, ∀ oldId layout children percents info mode,
    e.2 = .split oldId layout children percents info mode →
      ∃ ids, u.splitAt e.1 = some { layout, children := ids, percents, info } ∧
        List.Forall₂ (fun child id => (id, child) ∈ news) children ids

/-- The identifiers that changed, as pairs of the old and the new one. -/
def remaps (news : List (NodeId × DetachedNode I)) : List (NodeId × NodeId) :=
  news.filterMap fun e => if e.1 = e.2.oldId then none else some (e.2.oldId, e.1)

theorem remaps_cons (id : NodeId) (node : DetachedNode I) (news : List (NodeId × DetachedNode I))
    (remapped : List (NodeId × NodeId)) :
    noteRemap node.oldId id remapped ++ remaps news = remapped ++ remaps ((id, node) :: news) := by
  unfold noteRemap remaps
  by_cases e : id = node.oldId <;> simp [e]

theorem Shaped.append (h : Shaped u news) (h' : Shaped v news') (hpl : Planted u news' v)
    (hold : ∀ e ∈ news, u.contains e.1 = true) : Shaped v (news ++ news') := by
  intro e he oldId layout children percents info mode heq
  rcases mem_append.mp he with hmem | hmem
  · obtain ⟨ids, hs, hids⟩ := h e hmem oldId layout children percents info mode heq
    refine ⟨ids, ?_, hids.imp fun _ _ hc => mem_append_left _ hc⟩
    rw [(hpl.reads (hpl.not_new (hold e hmem))).1, hs]
  · obtain ⟨ids, hs, hids⟩ := h' e hmem oldId layout children percents info mode heq
    exact ⟨ids, hs, hids.imp fun _ _ hc => mem_append_right _ hc⟩

theorem Shaped.split (h : Shaped u news)
    (hid : u.splitAt id = some { layout, children := [], percents, info })
    (hnot : id ∉ news.map fst)
    (hids : List.Forall₂ (fun child id => (id, child) ∈ news) children ids) :
    Shaped (u.closeSplit id ids mode)
      ((id, .split oldId layout children percents info mode) :: news) := by
  intro e he oldId' layout' children' percents' info' mode' heq
  rcases mem_cons.mp he with rfl | hmem
  · cases heq
    exact ⟨ids, splitAt_modifySplit_of hid id |>.trans (if_pos rfl),
      hids.imp fun _ _ hc => mem_cons_of_mem _ hc⟩
  · obtain ⟨ids', hs, hids'⟩ := h e hmem _ _ _ _ _ _ heq
    refine ⟨ids', ?_, hids'.imp fun _ _ hc => mem_cons_of_mem _ hc⟩
    have hne : e.1 ≠ id := fun e' => hnot (e' ▸ mem_map_of_mem hmem)
    exact (splitAt_modifySplit_of hid e.1).trans ((if_neg hne).trans hs)

/-- Every new node is one of `tops`, whose parent is `parent`, or a child of a new split. -/
structure Hung (u : TilingTree I) (news : List (NodeId × DetachedNode I)) (tops : List NodeId)
    (parent : Option NodeId) : Prop where
  nodup : tops.Nodup
  top : ∀ x ∈ tops, x ∈ news.map Prod.fst ∧ u.parentOf x = parent
  kids : ∀ e ∈ news, (u.children e.1).Nodup ∧
    ∀ x ∈ u.children e.1, x ∈ news.map Prod.fst ∧ u.parentOf x = some e.1 ∧ x ∉ tops
  home : ∀ e ∈ news, e.1 ∈ tops ∨ ∃ f ∈ news, e.1 ∈ u.children f.1

theorem Hung.append (h : Hung u news [id] parent)
    (h' : Hung v news' ids parent) (hpl : Planted u news' v)
    (hold : ∀ e ∈ news, u.contains e.1 = true) : Hung v (news ++ news') (id :: ids) parent := by
  have hapart : ∀ x ∈ news.map fst, x ∉ news'.map fst := fun x hx => by
    obtain ⟨e, he, rfl⟩ := mem_map.mp hx
    exact hpl.not_new (hold e he)
  have hids : ∀ x ∈ ids, x ∉ news.map fst := fun x hx hx' => hapart x hx' (h'.top x hx).1
  obtain ⟨hid, hparent⟩ := h.top id mem_cons_self
  have hmem : ∀ x, x ∈ (news ++ news').map fst ↔
      x ∈ news.map fst ∨ x ∈ news'.map fst := by simp
  refine ⟨nodup_cons.mpr ⟨fun hm => hids id hm hid, h'.nodup⟩, fun x hx => ?_, fun e he => ?_,
    fun e he => ?_⟩
  · rw [hmem]
    rcases mem_cons.mp hx with rfl | hx
    · exact ⟨.inl hid, (hpl.reads (hapart _ hid)).2.1.trans hparent⟩
    · exact (h'.top x hx).imp_left .inr
  · rcases mem_append.mp he with he | he
    · obtain ⟨hnodup, hkids⟩ := h.kids e he
      rw [(hpl.reads (hapart _ (mem_map_of_mem he))).2.2.1]
      refine ⟨hnodup, fun x hx => ?_⟩
      obtain ⟨hnew, hpar, htop⟩ := hkids x hx
      refine ⟨(hmem x).mpr (.inl hnew), (hpl.reads (hapart x hnew)).2.1.trans hpar, fun hm => ?_⟩
      rcases mem_cons.mp hm with rfl | hm
      · exact htop mem_cons_self
      · exact hids x hm hnew
    · obtain ⟨hnodup, hkids⟩ := h'.kids e he
      refine ⟨hnodup, fun x hx => ?_⟩
      obtain ⟨hnew, hpar, htop⟩ := hkids x hx
      refine ⟨(hmem x).mpr (.inr hnew), hpar, fun hm => ?_⟩
      rcases mem_cons.mp hm with rfl | hm
      · exact hapart x hid hnew
      · exact htop hm
  · rcases mem_append.mp he with he | he
    · rcases h.home e he with htop | ⟨f, hf, hx⟩
      · exact .inl (mem_singleton.mp htop ▸ mem_cons_self)
      · rw [← (hpl.reads (hapart _ (mem_map_of_mem hf))).2.2.1] at hx
        exact .inr ⟨f, mem_append_left _ hf, hx⟩
    · exact (h'.home e he).imp (mem_cons_of_mem _) fun ⟨f, hf, hx⟩ => ⟨f, mem_append_right _ hf, hx⟩

theorem Hung.leaf {tile : Tile I} {node : DetachedNode I}
    (hid : u.get id = some { parent, value := .leaf tile }) : Hung u [(id, node)] [id] parent := by
  refine ⟨nodup_singleton _, fun x hx => ?_, fun e he => ?_, fun e he => .inl ?_⟩
  · rw [mem_singleton.mp hx]
    exact ⟨mem_cons_self, parentOf_of_get hid⟩
  · rw [mem_singleton.mp he, children_of_tile (tile_of_get hid)]
    exact ⟨nodup_nil, nofun⟩
  · rw [mem_singleton.mp he]
    exact mem_cons_self

theorem Hung.split {s : Split} {node : DetachedNode I}
    (h : Hung u news ids (some id)) (hid : u.get id = some { parent, value := .split s })
    (hnot : id ∉ news.map fst) :
    Hung (u.closeSplit id ids mode) ((id, node) :: news) [id] parent := by
  have hkids : ∀ q, (u.closeSplit id ids mode).children q = if q = id then ids else u.children q :=
    children_of_splitAt_eq fun q => splitAt_modifySplit_of (splitAt_of_get hid) q
  have hpar : ∀ n, (u.closeSplit id ids mode).parentOf n = u.parentOf n := fun n =>
    parentOf_modifySplit _ _ _ _
  have hne : ∀ x ∈ news.map fst, x ≠ id := fun x hx e => hnot (e ▸ hx)
  refine ⟨nodup_singleton _, fun x hx => ?_, fun e he => ?_, fun e he => ?_⟩
  · rw [mem_singleton.mp hx]
    exact ⟨mem_cons_self, (hpar id).trans (parentOf_of_get hid)⟩
  · rw [hkids]
    rcases mem_cons.mp he with rfl | he
    · refine ⟨by simpa using h.nodup, fun x hx => ?_⟩
      obtain ⟨hnew, hx⟩ := h.top x (by simpa using hx)
      exact ⟨mem_cons_of_mem _ hnew, (hpar x).trans hx, by simpa using hne x hnew⟩
    · rw [if_neg (hne _ (mem_map_of_mem he))]
      refine ⟨(h.kids e he).1, fun x hx => ?_⟩
      obtain ⟨hnew, hx, -⟩ := (h.kids e he).2 x hx
      exact ⟨mem_cons_of_mem _ hnew, (hpar x).trans hx, by simpa using hne x hnew⟩
  · rcases mem_cons.mp he with rfl | he
    · exact .inl mem_cons_self
    rcases h.home e he with htop | ⟨f, hf, hx⟩
    · exact .inr ⟨_, mem_cons_self, by simpa [hkids] using htop⟩
    · refine .inr ⟨f, mem_cons_of_mem _ hf, ?_⟩
      rwa [hkids, if_neg (hne _ (mem_map_of_mem hf))]

mutual

/-- **What `insertDetachedNode` adds**, how the new nodes hang together, and which identifiers
    changed. All the old ones are taken then. -/
theorem grown_insertDetachedNode (node : DetachedNode I) (t : TilingTree I)
    (parent : Option NodeId) (remapped : List (NodeId × NodeId))
    (hb : ∀ n, t.contains n = true → n < t.counter)
    (hold : ∀ m ∈ node.subnodes, m.oldId < t.counter) {x}
    (hx : insertDetachedNode t parent remapped node = x) :
    ∃ news, news.map snd = node.subnodes ∧ (x.2.1, node) ∈ news ∧ Planted t news x.1 ∧
      Hung x.1 news [x.2.1] parent ∧ Shaped x.1 news ∧ x.2.2 = remapped ++ remaps news ∧
      ∀ m ∈ node.subnodes, x.1.contains m.oldId = true :=
  match node with
  | .leaf oldId tile mode mapped => by
      subst hx
      have hold' := hold _ (DetachedNode.mem_subnodes_self _)
      obtain ⟨-, -, -, -, hget, -, htaken⟩ :=
        insertWithId_spec oldId { parent := parent, value := .leaf tile } rfl hb hold'
      refine ⟨[(_, .leaf oldId tile mode mapped)], rfl, mem_singleton_self _,
        Planted.leaf hb hold' parent remapped, @Hung.leaf _ _ _ _ tile _ ?_, ?_, ?_, fun m hm => ?_⟩
      · rw [insertDetachedNode]
        exact (hget _).trans (if_pos rfl)
      · intro e he oldId layout children percents info mode heq
        rw [mem_singleton.mp he] at heq
        cases heq
      · rw [insertDetachedNode]
        exact (append_nil _).symm.trans (remaps_cons _ (.leaf oldId tile mode mapped) [] remapped)
      · rw [mem_singleton.mp hm, insertDetachedNode]
        exact htaken
  | .split oldId layout children percents info mode => by
      subst hx
      have hold' := hold _ (DetachedNode.mem_subnodes_self _)
      obtain ⟨-, hlt, hle, -, hget, -, hself⟩ := insertWithId_spec oldId
        { parent := parent, value := .split { layout, children := [], percents, info } } rfl hb hold'
      obtain ⟨news, hnews, hids, hpl, hhung, hshape, hremap, htaken⟩ := grown_insertDetachedNodes
        children
        (t.openSplit parent oldId layout percents info).1
        (some (t.openSplit parent oldId layout percents info).2)
        (noteRemap oldId (t.openSplit parent oldId layout percents info).2 remapped)
        (fun n hn => by
          have hn : (((t.openSplit parent oldId layout percents info).1).get n).isSome = true := hn
          rw [show (t.openSplit parent oldId layout percents info).1.get n = _ from hget n] at hn
          split_ifs at hn with e
          · exact e ▸ hlt
          · exact (hb n hn).trans_le hle)
        (fun m hm => (hold m (DetachedNode.mem_subnodes_of_child hm)).trans_le hle) rfl
      rw [insertDetachedNode_split]
      have hopen : (t.openSplit parent oldId layout percents info).1.get
          (t.openSplit parent oldId layout percents info).2 =
            some { parent, value := .split { layout, children := [], percents, info } } :=
        (hget _).trans (if_pos rfl)
      have hnot := hpl.not_new (congrArg Option.isSome hopen)
      refine ⟨_, by rw [map_cons, hnews, DetachedNode.subnodes], mem_cons_self,
        hpl.split hb hold', hhung.split ((hpl.old _ hnot).trans hopen) hnot,
        hshape.split (splitAt_of_get ((hpl.old _ hnot).trans hopen)) hnot hids,
        hremap.trans (remaps_cons _ (.split oldId layout children percents info mode) _ _),
        fun m hm => ?_⟩
      refine (contains_modifySplit _ _ _ _).trans ?_
      rw [DetachedNode.subnodes] at hm
      rcases mem_cons.mp hm with rfl | hm
      · exact (hpl.contains oldId).mpr (.inl hself)
      · exact htaken m hm

theorem grown_insertDetachedNodes (nodes : List (DetachedNode I)) (t : TilingTree I)
    (parent : Option NodeId) (remapped : List (NodeId × NodeId))
    (hb : ∀ n, t.contains n = true → n < t.counter)
    (hold : ∀ m ∈ DetachedNode.subnodesOf nodes, m.oldId < t.counter) {x}
    (hx : insertDetachedNodes t parent remapped nodes = x) :
    ∃ news, news.map snd = DetachedNode.subnodesOf nodes ∧
      List.Forall₂ (fun node id => (id, node) ∈ news) nodes x.2.1 ∧ Planted t news x.1 ∧
      Hung x.1 news x.2.1 parent ∧ Shaped x.1 news ∧ x.2.2 = remapped ++ remaps news ∧
      ∀ m ∈ DetachedNode.subnodesOf nodes, x.1.contains m.oldId = true :=
  match nodes with
  | [] => by
      subst hx
      exact ⟨[], rfl, .nil, Planted.refl hb, ⟨nodup_nil, nofun, nofun, nofun⟩, nofun,
        (append_nil _).symm, nofun⟩
  | node :: nodes => by
      subst hx
      obtain ⟨news, hnews, hid, hpl, hhung, hshape, hremap, htaken⟩ :=
        grown_insertDetachedNode node t parent remapped hb
          (fun m hm => hold m (DetachedNode.mem_subnodesOf_cons.mpr (.inl hm))) rfl
      obtain ⟨news', hnews', hids, hpl', hhung', hshape', hremap', htaken'⟩ :=
        grown_insertDetachedNodes nodes _ parent _ hpl.bounded (fun m hm =>
          (hold m (DetachedNode.mem_subnodesOf_cons.mpr (.inr hm))).trans_le hpl.counter) rfl
      rw [insertDetachedNodes]
      refine ⟨news ++ news', by rw [map_append, hnews, hnews', DetachedNode.subnodesOf],
        .cons (mem_append_left _ hid) (hids.imp fun _ _ hc => mem_append_right _ hc),
        hpl.trans hpl', hhung.append hhung' hpl' fun e he => (hpl.node e he).1,
        hshape.append hshape' hpl' fun e he => (hpl.node e he).1, ?_, fun m hm => ?_⟩
      · refine hremap'.trans ?_
        rw [hremap, append_assoc, remaps, remaps, remaps, filterMap_append]
      · rcases DetachedNode.mem_subnodesOf_cons.mp hm with hm | hm
        · exact (hpl'.contains _).mpr (.inl (htaken m hm))
        · exact htaken' m hm

end

end TilingTree

/-! ## 3. New nodes hang together -/

namespace DetachedNode

mutual

theorem height_subnodes (node : DetachedNode I) :
    ∀ m ∈ node.subnodes, 1 ≤ m.height ∧ m.height ≤ node.height := by
  match node with
  | .leaf oldId tile mode mapped => simp [subnodes, height]
  | .split oldId layout children percents info mode =>
    rw [subnodes, forall_mem_cons, height]
    refine ⟨⟨Nat.le_add_right 1 _, le_rfl⟩, fun m hm => ?_⟩
    have := height_subnodesOf children m hm
    omega

theorem height_subnodesOf (nodes : List (DetachedNode I)) :
    ∀ m ∈ subnodesOf nodes, 1 ≤ m.height ∧ m.height ≤ heightOf nodes := by
  match nodes with
  | [] => exact nofun
  | node :: nodes =>
    intro m hm
    rw [heightOf]
    rcases mem_subnodesOf_cons.mp hm with hm | hm
    · have := height_subnodes node m hm
      omega
    · have := height_subnodesOf nodes m hm
      omega

end

theorem height_child {children : List (DetachedNode I)} {m : DetachedNode I} (hm : m ∈ children) :
    m.height ≤ heightOf children := by
  refine (height_subnodesOf children m ?_).2
  rw [subnodesOf_eq]
  exact mem_flatMap.mpr ⟨m, hm, mem_subnodes_self m⟩

end DetachedNode

namespace TilingTree

variable {t u : TilingTree I} {news : List (NodeId × DetachedNode I)} {tops : List NodeId}
  {parent : Option NodeId} {g : Prop} {E : Set NodeId} {r : NodeId → ℕ}

open Classical in
/-- The new nodes are ranked from `k` on, the higher ones first. -/
noncomputable def plantedRank (news : List (NodeId × DetachedNode I)) (r : NodeId → ℕ) (k H : ℕ)
    (n : NodeId) : ℕ :=
  if h : ∃ e ∈ news, e.1 = n then k + (H - h.choose.2.height) else r n

theorem plantedRank_new (hpl : Planted t news u) (he : e ∈ news)
    (k H : ℕ) : plantedRank news r k H e.1 = k + (H - e.2.height) := by
  have hex : ∃ f ∈ news, f.1 = e.1 := ⟨e, he, rfl⟩
  unfold plantedRank
  rw [dif_pos hex, inj_on_of_nodup_map hpl.nodup hex.choose_spec.1 he hex.choose_spec.2]

theorem exists_of_forall₂ {α β : Type*} {R : α → β → Prop} {l : List α} {l' : List β} {y : β}
    (h : List.Forall₂ R l l') (hy : y ∈ l') : ∃ x ∈ l, R x y := by
  induction h with
  | nil => cases hy
  | cons hR _ ih =>
    rcases mem_cons.mp hy with rfl | hy
    · exact ⟨_, mem_cons_self, hR⟩
    · obtain ⟨x, hx, hR⟩ := ih hy
      exact ⟨x, mem_cons_of_mem _ hx, hR⟩

/-- **The old nodes and the new ones form a tree**, but for the tops of the new ones. -/
theorem Planted.ok (hpl : Planted t news u) (h : Ok g ∅ E r t.toArena) (hh : Hung u news tops parent)
    (hsh : Shaped u news) (hproper : ∀ e ∈ news, e.2.Proper g) {H : ℕ}
    (hH : ∀ e ∈ news, 1 ≤ e.2.height ∧ e.2.height ≤ H) (k : ℕ) :
    ∃ r', (∀ x, t.contains x = true → r' x = r x) ∧ Ok g {x | x ∈ tops} E r' u.toArena ∧
      ∀ e ∈ news, k ≤ r' e.1 ∧ r' e.1 + 1 ≤ k + H := by
  have hagree : ∀ x, t.contains x = true → plantedRank news r k H x = r x := fun x hx => by
    refine dif_neg ?_
    rintro ⟨e, he, rfl⟩
    exact hpl.not_new hx (mem_map_of_mem he)
  -- a new split lists new nodes that are less high
  have hnew : ∀ e ∈ news, ∀ s, u.splitAt e.1 = some s →
      s.percents.length = s.children.length ∧ (g → IsShares s.percents ∧ s.children ≠ []) ∧
        ∀ x ∈ s.children, ∃ f ∈ news, f.1 = x ∧ f.2.height < e.2.height := by
    rintro ⟨id, node⟩ he s hs
    cases node with
    | leaf oldId tile mode mapped =>
      have := tile_of_splitAt hs
      rw [(hpl.node _ he).2] at this
      cases this
    | split oldId layout children percents info mode =>
      obtain ⟨ids, hids, hall⟩ := hsh _ he _ _ _ _ _ _ rfl
      rw [hs] at hids
      cases hids
      have hlen := hall.length_eq
      obtain ⟨hp, hg⟩ := hproper _ he
      refine ⟨hp.trans hlen, fun h => ⟨(hg h).1, fun e => (hg h).2 ?_⟩, fun x hx => ?_⟩
      · have e : ids = [] := e
        rw [e, length_nil] at hlen
        exact eq_nil_of_length_eq_zero hlen
      · obtain ⟨child, hchild, hx⟩ := exists_of_forall₂ hall hx
        have := DetachedNode.height_child hchild
        exact ⟨_, hx, rfl, by rw [DetachedNode.height]; exact Nat.lt_one_add_iff.mpr this⟩
  have hold : ∀ {p x}, p ∉ news.map fst → x ∈ u.children p →
      x ∈ t.children p ∧ t.contains x = true := fun hp hx => by
    rw [(hpl.reads hp).2.2.1] at hx
    exact ⟨hx, h.contains_kid hx⟩
  obtain ⟨s0, hs0⟩ := h.root_split
  have hroot : t.root ∉ news.map fst := hpl.not_new (contains_of_splitAt hs0)
  refine ⟨plantedRank news r k H, hagree, ⟨⟨s0, ?_⟩, ?_, fun hm => ?_, fun {p x} hx => ?_,
    fun {n} hn hr hD => ?_, fun p x hx => ?_, fun {p s} hs => ?_, fun hn => hpl.bounded _ hn,
    fun hg p s hs hr hE => ?_⟩, fun e he => ?_⟩
  · rw [hpl.root, (hpl.reads hroot).1, hs0]
  · rw [hpl.root, (hpl.reads hroot).2.1, h.root_parent]
  · rw [hpl.root] at hm
    exact hroot (hh.top _ hm).1
  · by_cases hp : p ∈ news.map fst
    · obtain ⟨e, he, rfl⟩ := mem_map.mp hp
      exact ((hh.kids e he).2 x hx).2
    · obtain ⟨hx, hc⟩ := hold hp hx
      refine ⟨(hpl.reads (hpl.not_new hc)).2.1.trans (h.kid_parent hx), fun hm => ?_⟩
      exact hpl.not_new hc (hh.top x hm).1
  · rcases (hpl.contains n).mp hn with hn | hn
    · obtain ⟨p, hp⟩ := h.home hn (hpl.root ▸ hr) (Set.notMem_empty n)
      obtain ⟨s, hs, -⟩ := splitAt_of_mem_children hp
      exact ⟨p, by rwa [(hpl.reads (hpl.not_new (contains_of_splitAt hs))).2.2.1]⟩
    · obtain ⟨e, he, rfl⟩ := mem_map.mp hn
      obtain ⟨f, -, hx⟩ := (hh.home e he).resolve_left hD
      exact ⟨f.1, hx⟩
  · by_cases hp : p ∈ news.map fst
    · obtain ⟨e, he, rfl⟩ := mem_map.mp hp
      obtain ⟨s, hs, hx⟩ := splitAt_of_mem_children hx
      obtain ⟨f, hf, rfl, hlt⟩ := (hnew e he s hs).2.2 x hx
      rw [plantedRank_new hpl he, plantedRank_new hpl hf]
      have := hH e he
      omega
    · obtain ⟨hx, hc⟩ := hold hp hx
      obtain ⟨s, hs, -⟩ := splitAt_of_mem_children hx
      rw [hagree p (contains_of_splitAt hs), hagree x hc]
      exact h.ranked p x hx
  · by_cases hp : p ∈ news.map fst
    · obtain ⟨e, he, rfl⟩ := mem_map.mp hp
      obtain ⟨hlen, hshares, -⟩ := hnew e he s hs
      exact ⟨children_of_splitAt hs ▸ (hh.kids e he).1, hlen, fun hg => (hshares hg).1⟩
    · exact h.sound ((hpl.reads hp).1 ▸ hs)
  · by_cases hp : p ∈ news.map fst
    · obtain ⟨e, he, rfl⟩ := mem_map.mp hp
      exact ((hnew e he s hs).2.1 hg).2
    · exact h.full hg ((hpl.reads hp).1 ▸ hs) (hpl.root ▸ hr) hE
  · rw [plantedRank_new hpl he]
    have := hH e he
    omega

end TilingTree

/-! ## 4. Tables and modes -/

/-- A detached node that a tree of context `c` and with counter `k` can take in. -/
structure DetachedNode.Fit (c : Ctx I) (k : NodeId) (node : DetachedNode I) : Prop where
  old : ∀ m ∈ node.subnodes, m.oldId < k
  loose : node.Loose c.full
  one : c.side → node.subnodes.Pairwise fun x y => ¬ (x.fullscreen.isSome ∧ y.fullscreen.isSome)
  leaf : c.side → ∀ m ∈ node.subnodes, ∀ mode, m.pendingMode = some mode →
    mode.maximized = true → m.tile.isSome
  bare : c.bare → ∀ m ∈ node.subnodes, m.mapped = false

namespace TilingTree

variable {c : Ctx I} {t u : TilingTree I} {n : NodeId} {r : NodeId → ℕ}
  {news : List (NodeId × DetachedNode I)} {a : Arena I} {H : Set NodeId}

/-- The old nodes keep their fullscreen modes, the new ones bring theirs. -/
theorem Planted.fullscreenMode_old (hpl : Planted t news u) (hn : n ∉ news.map fst) :
    u.fullscreenMode n = t.fullscreenMode n := by
  unfold fullscreenMode
  rw [hpl.mode n hn]

theorem Planted.lookup_new (hpl : Planted t news u) (hs : t.Side H) (he : e ∈ news) :
    u.pendingModes.lookup e.1 = e.2.pendingMode := by
  rw [hpl.newMode e he]
  have : t.pendingModes.lookup e.1 = none := by
    cases hl : t.pendingModes.lookup e.1 with
    | none => rfl
    | some mode =>
      have := hs.mode (FinMap.mem_iff_lookup.mpr ⟨mode, hl⟩)
      rw [hpl.fresh e he] at this
      cases this
  rw [this, Option.or_none]

theorem Planted.fullscreenMode_new (hpl : Planted t news u) (hs : t.Side H)
    (he : e ∈ news) : u.fullscreenMode e.1 = e.2.fullscreen := by
  unfold fullscreenMode DetachedNode.fullscreen
  rw [hpl.lookup_new hs he]

theorem Planted.fullscreen_cases (hpl : Planted t news u) (hs : t.Side H)
    (hn : (u.fullscreenMode n).isSome) :
    (t.fullscreenMode n).isSome ∨ ∃ e ∈ news, e.1 = n ∧ e.2.fullscreen.isSome := by
  by_cases hnew : n ∈ news.map fst
  · obtain ⟨e, he, rfl⟩ := mem_map.mp hnew
    exact .inr ⟨e, he, rfl, hpl.fullscreenMode_new hs he ▸ hn⟩
  · exact .inl (hpl.fullscreenMode_old hnew ▸ hn)

/-- **Nodes planted and linked keep the invariant**, the focus left open. -/
theorem Inv.planted {E E' : Set NodeId} (h : Inv c E t) (hpl : Planted t news u)
    (hleaf : c.side → ∀ e ∈ news, ∀ mode, e.2.pendingMode = some mode → mode.maximized = true →
      e.2.tile.isSome) (hbare : c.bare → ∀ e ∈ news, e.2.mapped = false)
    (hone : c.side → news.Pairwise fun x y => ¬ (x.2.fullscreen.isSome ∧ y.2.fullscreen.isSome))
    (hfs : c.side → (∃ e ∈ news, e.2.fullscreen.isSome) → ∀ n, t.fullscreenMode n = none)
    (hmarks : c.marks → (∃ e ∈ news, e.2.mapped = true) →
      (∃ n, (t.fullscreenMode n).isSome) ∨ ∃ e ∈ news, e.2.fullscreen.isSome)
    (hsame : SameNodes u.toArena a)
    (hok : ∃ r, Ok c.full ∅ E' r a ∧ (c.deep → ∀ n, a.contains n = true → r n ≤ maxTreeDepth)) :
    Inv (c.on { u with toArena := a }).asleep E' { u with toArena := a } := by
  have hold : ∀ n, t.contains n = true → a.contains n = true := fun n hn =>
    (hsame.contains n).trans ((hpl.contains n).mpr (.inl hn))
  have holdTile : ∀ n, (t.tile n).isSome → (a.tile n).isSome := fun n hn => by
    rw [hsame.tile, (hpl.reads (hpl.not_new (contains_of_isSome_tile hn))).2.2.2]
    exact hn
  have hnewCon : ∀ e ∈ news, a.contains e.1 = true := fun e he =>
    (hsame.contains _).trans (hpl.node e he).1
  -- the parts that planting leaves alone
  have hothers : u.focus = t.focus ∧ u.focusHistory = t.focusHistory ∧
      u.ipcStaleNodes = t.ipcStaleNodes ∧ u.lastEnteredBy = t.lastEnteredBy ∧
      u.fullscreenLayoutWrappers = t.fullscreenLayoutWrappers ∧
      u.preLayoutIpcRects = t.preLayoutIpcRects ∧
      u.movedUnderFullscreen = t.movedUnderFullscreen ∧
      u.interactiveResize = t.interactiveResize := by
    rw [hpl.others]
    exact ⟨rfl, rfl, rfl, rfl, rfl, rfl, rfl, rfl⟩
  obtain ⟨hfocus, hhistory, hstale, hentered, hwrappers, hrects, hmoved, hresize⟩ := hothers
  have hmarked : ∀ n, ({ u with toArena := a } : TilingTree I).Marked n →
      t.Marked n ∨ ∃ e ∈ news, e.1 = n ∧ e.2.mapped = true := by
    rintro n (hn | hn)
    · exact ((hpl.mapped n).mp hn).imp_left .inl
    · exact .inl (.inr (hmoved ▸ hn))
  refine ⟨hok, fun _ => rfl, fun hs => ⟨fun f hf => ?_, fun n hn => ?_, fun n hn => ?_, ?_⟩,
    fun hs => ⟨fun m n _ _ hm hn => ?_, fun n mode hn hmax => ?_⟩, False.elim, fun hm hnone n hn => ?_,
    fun hb n hn => ?_, fun hcalm => hresize.trans (h.calm hcalm)⟩
  · exact ((h.side hs).focus f (hfocus ▸ hf)).imp_left (hold f)
  · have hside := h.side hs
    by_cases hnew : n ∈ news.map fst
    · obtain ⟨e, he, rfl⟩ := mem_map.mp hnew
      exact hnewCon e he
    refine hold n (hside.retable hn ⟨hhistory, hstale, hentered⟩ (fun hn => ?_)
      (fun hn => hside.wrapper (hwrappers ▸ hn)) fun hn => hside.rect (hrects ▸ hn))
    obtain ⟨mode, hmode⟩ := FinMap.mem_iff_lookup.mp hn
    rw [show u.pendingModes.lookup n = _ from hpl.mode n hnew] at hmode
    exact hside.mode (FinMap.mem_iff_lookup.mpr ⟨mode, hmode⟩)
  · rcases hmarked n hn with hn | ⟨e, he, rfl, hmapped⟩
    · exact holdTile n ((h.side hs).marked n hn)
    · show (a.tile e.1).isSome
      rw [hsame.tile, (hpl.node e he).2]
      cases hnode : e.2 with
      | split => simp [hnode, DetachedNode.mapped] at hmapped
      | leaf => rfl
  · exact hhistory ▸ (h.side hs).history
  · have hm := hpl.fullscreen_cases (h.side hs) hm
    rcases hpl.fullscreen_cases (h.side hs) hn with hn | ⟨f, hf, rfl, hfn⟩
    · rcases hm with hm | ⟨e, he, -, hem⟩
      · exact (h.modes hs).eq hm hn
      · rw [hfs hs ⟨e, he, hem⟩ n] at hn
        cases hn
    · rcases hm with hm | ⟨e, he, rfl, hem⟩
      · rw [hfs hs ⟨f, hf, hfn⟩ m] at hm
        cases hm
      by_contra hne
      have hsymm : Std.Symm fun x y : NodeId × DetachedNode I =>
          ¬ (x.2.fullscreen.isSome ∧ y.2.fullscreen.isSome) :=
        ⟨fun x y hxy hyx => hxy hyx.symm⟩
      exact (hone hs).forall he hf (fun e' => hne (congrArg fst e')) ⟨hem, hfn⟩
  · by_cases hn' : n ∈ news.map fst
    · obtain ⟨e, he, rfl⟩ := mem_map.mp hn'
      show (a.tile e.1).isSome
      rw [hsame.tile, (hpl.node e he).2]
      exact hleaf hs e he mode ((hpl.lookup_new (h.side hs) he).symm.trans hn) hmax
    · exact holdTile n ((h.modes hs).leaf n mode ((hpl.mode n hn').symm.trans hn) hmax)
  · have hs := c.marks_side hm
    have hnoneT : ∀ m, t.fullscreenMode m = none := fun m => by
      by_cases hm' : m ∈ news.map fst
      · obtain ⟨e, he, rfl⟩ := mem_map.mp hm'
        by_contra hne
        have := (h.side hs).contains_fullscreenNode (Option.isSome_iff_ne_none.mpr hne)
        rw [hpl.fresh e he] at this
        cases this
      · rw [← hpl.fullscreenMode_old hm']
        exact hnone m
    rcases hmarked n hn with hn | ⟨e, he, -, hmapped⟩
    · exact h.marks hm hnoneT n hn
    rcases hmarks hm ⟨e, he, hmapped⟩ with ⟨m, hm'⟩ | ⟨f, hf, hf'⟩
    · simp [hnoneT m] at hm'
    have := hnone f.1
    rw [show ({ u with toArena := a } : TilingTree I).fullscreenMode f.1 = _ from
      hpl.fullscreenMode_new (h.side hs) hf] at this
    simp [this] at hf'
  · rcases hmarked n hn with hn | ⟨e, he, -, hmapped⟩
    · exact h.bare hb n hn
    · rw [hbare hb e he] at hmapped
      cases hmapped

end TilingTree

/-! ## 5. Linking what was planted -/

namespace DetachedNode

mutual

/-- Some part is fullscreen. -/
theorem hasFullscreen_iff (node : DetachedNode I) :
    node.hasFullscreen = true ↔ ∃ m ∈ node.subnodes, m.fullscreen.isSome := by
  match node with
  | .leaf oldId tile mode mapped => simp [hasFullscreen, subnodes, fullscreen, pendingMode]
  | .split oldId layout children percents info mode =>
    rw [hasFullscreen, subnodes, Bool.or_eq_true, anyFullscreen_iff children]
    simp [fullscreen, pendingMode]

theorem anyFullscreen_iff (nodes : List (DetachedNode I)) :
    anyFullscreen nodes = true ↔ ∃ m ∈ subnodesOf nodes, m.fullscreen.isSome := by
  match nodes with
  | [] => simp [anyFullscreen, subnodesOf]
  | node :: nodes =>
    rw [anyFullscreen, subnodesOf, Bool.or_eq_true, hasFullscreen_iff node, anyFullscreen_iff nodes]
    simp only [mem_append, or_and_right, exists_or]

end

/-- Some leaf carries a mark along. -/
def hasMapped (node : DetachedNode I) : Bool := node.subnodes.any mapped

end DetachedNode

namespace TilingTree

variable {c : Ctx I} {t u : TilingTree I} {id p n : NodeId} {r : NodeId → ℕ}
  {news : List (NodeId × DetachedNode I)} {a : Arena I}

theorem mem_subnodes_of_news (hnews : news.map snd = nodes) :
    ∀ e ∈ news, e.2 ∈ nodes := fun _ he => hnews ▸ mem_map_of_mem he

theorem exists_news (hnews : news.map snd = nodes)
    {P : DetachedNode I → Prop} : (∃ m ∈ nodes, P m) ↔ ∃ e ∈ news, P e.2 := by
  rw [← hnews]
  simp only [mem_map, exists_exists_and_eq_and]

/-- A detached node that `t` has a place for: no split without a window comes with it, no second
    fullscreen node, and its marks fall under one. -/
structure Admits (c : Ctx I) (t : TilingTree I) (node : DetachedNode I) : Prop where
  fit : node.Fit c t.counter
  windows : c.full → node.windows ≠ []
  alone : c.side → node.hasFullscreen = true → ∀ n, t.fullscreenMode n = none
  marks : c.marks → node.hasMapped = true →
    (∃ n, (t.fullscreenMode n).isSome) ∨ node.hasFullscreen = true

/-- **A detached node is planted and linked under `p`**, the focus left open. -/
theorem Inv.plantUnder {E : Set NodeId} (h : Inv c E t) {node : DetachedNode I} (hadm : Admits c t node)
    {s s' : Split} (hp : t.contains p = true) {remapped : List (NodeId × NodeId)}
    (hy : insertDetachedNode t none [] node = (u, id, remapped)) (hputs : Puts u.toArena p id s s' a)
    (hsound : s.Sound c.full → id ∉ s.children → s'.Sound c.full)
    (hdeep : c.deep → t.nodeDepth p + node.height ≤ maxTreeDepth) :
    Inv (c.on { u with toArena := a }).asleep (E \ {p}) { u with toArena := a } := by
  obtain ⟨hok, hbound⟩ := h.exact
  have hfit := hadm.fit
  obtain ⟨news, hnews, hid, hpl, hhung, hshape, -⟩ := grown_insertDetachedNode node t none []
    (fun x hx => hok.fresh hx) hfit.old hy
  have hmem := mem_subnodes_of_news hnews
  obtain ⟨r', hagree, hok', hrank⟩ := hpl.ok hok hhung hshape
    (fun e he => hfit.loose.proper hadm.windows e.2 (hmem e he))
    (fun e he => node.height_subnodes e.2 (hmem e he)) (t.nodeDepth p + 1)
  have hokA := hok'.puts hputs (mem_singleton_self _) hsound
    (hputs.ranked_up hok' (by rw [hagree p hp]; exact (hrank _ hid).1))
  rw [show {x | x ∈ [id]} \ {id} = (∅ : Set NodeId) by simp] at hokA
  refine h.planted hpl (fun hs e he => hfit.leaf hs e.2 (hmem e he))
    (fun hb e he => hfit.bare hb e.2 (hmem e he)) (fun hs => ?_) (fun hs he => ?_)
    (fun hm he => ?_) hputs.sameNodes ⟨r', hokA, fun hd n hn => ?_⟩
  · have := hfit.one hs
    rwa [← hnews, pairwise_map] at this
  · exact hadm.alone hs ((node.hasFullscreen_iff).mpr ((exists_news hnews).mpr he))
  · refine (hadm.marks hm ?_).imp_right fun hf =>
      (exists_news hnews).mp (node.hasFullscreen_iff.mp hf)
    obtain ⟨e, he, hmapped⟩ := he
    exact any_eq_true.mpr ⟨e.2, hmem e he, hmapped⟩
  · rw [hputs.contains] at hn
    rcases (hpl.contains n).mp hn with hc | hn
    · rw [hagree n hc]
      exact hbound hd n hc
    · obtain ⟨e, he, rfl⟩ := mem_map.mp hn
      have := hrank e he
      have := hdeep hd
      omega

/-! ## 6. What was detached fits -/

section Detached

variable {g : Prop} {D E : Set NodeId}

theorem pendingMode_snapshot (h : Ok g D E r t.toArena) (hn : t.contains n = true) :
    (t.snapshot n).pendingMode = t.pendingModes.lookup n := by
  rcases (t.contains_iff n).mp hn with ⟨s, hs⟩ | ⟨tile, ht⟩
  · rw [snapshot_split h hs]
    rfl
  · rw [snapshot_leaf h ht]
    rfl

theorem tile_snapshot (h : Ok g D E r t.toArena) (hn : t.contains n = true) :
    (t.snapshot n).tile = t.tile n := by
  rcases (t.contains_iff n).mp hn with ⟨s, hs⟩ | ⟨tile, ht⟩
  · rw [snapshot_split h hs, tile_of_splitAt hs]
    rfl
  · rw [snapshot_leaf h ht, ht]
    rfl

theorem mapped_snapshot (h : Ok g D E r t.toArena) (hn : t.contains n = true)
    (hm : (t.snapshot n).mapped = true) : t.Marked n := by
  rcases (t.contains_iff n).mp hn with ⟨s, hs⟩ | ⟨tile, ht⟩
  · rw [snapshot_split h hs] at hm
    cases hm
  · rw [snapshot_leaf h ht] at hm
    exact .inl (of_decide_eq_true hm)

/-- Below the root everything is in order. -/
theorem proper_snapshot (h : Ok g D ∅ r t.toArena) (hn : t.contains n = true) (hr : n ≠ t.root) :
    (t.snapshot n).Proper g := by
  rcases (t.contains_iff n).mp hn with ⟨s, hs⟩ | ⟨tile, ht⟩
  · rw [snapshot_split h hs]
    refine ⟨(h.sound hs).lengths.trans (length_map _).symm, fun hg => ⟨(h.sound hs).shares hg, ?_⟩⟩
    rw [Ne, map_eq_nil_iff]
    exact h.full hg hs hr (Set.notMem_empty n)
  · rw [snapshot_leaf h ht]
    trivial

/-- Nothing below another node is the root. -/
theorem ne_root_of_below (h : Ok g D E r t.toArena) {m : NodeId} (hr : n ≠ t.root)
    (hm : Below t.children n m) : m ≠ t.root := by
  rintro rfl
  obtain ⟨z, -, hz⟩ := hm.parent (Ne.symm hr)
  exact h.root_not_kid z hz

theorem loose_snapshot (h : Ok g D ∅ r t.toArena) (hn : t.contains n = true) :
    (t.snapshot n).Loose g := by
  rcases (t.contains_iff n).mp hn with ⟨s, hs⟩ | ⟨tile, ht⟩
  · rw [snapshot_split h hs]
    refine ⟨(h.sound hs).lengths.trans (length_map _).symm, (h.sound hs).shares, fun m hm => ?_⟩
    rw [DetachedNode.subnodesOf_eq, flatMap_map, mem_flatMap] at hm
    obtain ⟨x, hx, hm⟩ := hm
    have hx := children_of_splitAt hs ▸ hx
    rw [subnodes_snapshot h (h.contains_kid hx)] at hm
    obtain ⟨y, hy, rfl⟩ := mem_map.mp hm
    have hxm := (h.mem_depthFirst (h.contains_kid hx)).mp hy
    exact proper_snapshot h (h.contains_below (h.contains_kid hx) hxm)
      (ne_root_of_below h (fun e => h.root_not_kid n (e ▸ hx)) hxm)
  · rw [snapshot_leaf h ht]
    trivial

/-- The parts of a detached node: the node itself, then the nodes of the tree below it. The top of a
    detached root has a new identifier and is otherwise like the root. -/
theorem subnodes_detachment (h : Ok g D E r t.toArena) (hid : t.contains id = true) :
    ∃ top, t.detachment id = top ∧ top.subnodes = top :: ((t.depthFirst id).tail.map t.snapshot) ∧
      top.oldId = (if id = t.root then t.counter else id) ∧
      top.pendingMode = t.pendingModes.lookup id ∧ top.tile = t.tile id ∧
      (top.mapped = true → t.Marked id) := by
  refine ⟨_, rfl, ?_⟩
  unfold detachment
  by_cases e : id = t.root
  · rw [if_pos e, if_pos e]
    obtain ⟨s, hs⟩ := h.root_split
    subst e
    rw [hs]
    refine ⟨?_, rfl, rfl, (tile_of_splitAt hs).symm, fun hm => nomatch hm⟩
    rw [DetachedNode.subnodes, h.depthFirst_eq hid, tail_cons, DetachedNode.subnodesOf_eq,
      flatMap_map, children_of_splitAt hs, map_flatMap]
    congr 1
    refine flatMap_congr fun x hx => ?_
    exact subnodes_snapshot h (h.contains_kid (children_of_splitAt hs ▸ hx))
  · rw [if_neg e, if_neg e]
    refine ⟨?_, oldId_snapshot h hid, pendingMode_snapshot h hid, tile_snapshot h hid,
      mapped_snapshot h hid⟩
    rw [subnodes_snapshot h hid, h.depthFirst_eq hid]
    rfl

/-- **What `detachSubtree` hands out can be attached again.** -/
theorem Inv.fit_detachment (h : Inv c ∅ t) (hid : t.contains id = true) :
    (t.detachment id).Fit c (if id = t.root then t.counter + 1 else t.counter) := by
  obtain ⟨r, hok, -⟩ := h.ok
  obtain ⟨top, htop, hsub, hold, hmode, htile, hmapped⟩ := subnodes_detachment hok hid
  have hdf := hok.depthFirst_eq hid
  have htail : ∀ n ∈ (t.depthFirst id).tail, t.contains n = true := fun n hn => by
    refine hok.contains_below hid ((hok.mem_depthFirst hid).mp ?_)
    exact mem_of_mem_tail hn
  have hpm : ∀ m ∈ top.subnodes, ∃ n, t.contains n = true ∧
      m.pendingMode = t.pendingModes.lookup n ∧ m.tile = t.tile n ∧
      (m.mapped = true → t.Marked n) := by
    intro m hm
    rw [hsub] at hm
    rcases mem_cons.mp hm with rfl | hm
    · exact ⟨id, hid, hmode, htile, hmapped⟩
    · obtain ⟨n, hn, rfl⟩ := mem_map.mp hm
      have hn := htail n hn
      exact ⟨n, hn, pendingMode_snapshot hok hn, tile_snapshot hok hn, mapped_snapshot hok hn⟩
  rw [htop]
  refine ⟨fun m hm => ?_, ?_, fun hs => ?_, fun hs m hm mode hmode' hmax => ?_, fun hb m hm => ?_⟩
  · rw [hsub] at hm
    rcases mem_cons.mp hm with rfl | hm
    · rw [hold]
      split
      · exact Nat.lt_succ_self _
      · exact hok.fresh hid
    · obtain ⟨n, hn, rfl⟩ := mem_map.mp hm
      rw [oldId_snapshot hok (htail n hn)]
      refine (hok.fresh (htail n hn)).trans_le ?_
      split
      · exact Nat.le_succ _
      · exact le_rfl
  · rw [← htop]
    unfold detachment
    split_ifs with e
    · obtain ⟨s, hs⟩ := hok.root_split
      have := loose_snapshot hok (contains_of_splitAt hs)
      rw [snapshot_split hok hs] at this
      rw [hs]
      exact this
    · exact loose_snapshot hok hid
  · rw [hsub, pairwise_cons, pairwise_map]
    have hf : ∀ n, t.contains n = true → (t.snapshot n).fullscreen = t.fullscreenMode n :=
      fun n hn => by
        unfold DetachedNode.fullscreen fullscreenMode
        rw [pendingMode_snapshot hok hn]
    have hftop : top.fullscreen = t.fullscreenMode id := by
      unfold DetachedNode.fullscreen fullscreenMode
      rw [hmode]
    have hnodup := hok.nodup_depthFirst hid
    rw [hdf, nodup_cons] at hnodup
    rw [hdf, tail_cons] at htail ⊢
    refine ⟨fun m hm => ?_, hnodup.2.imp_of_mem fun {x y} hx hy hne hboth => hne ?_⟩
    · obtain ⟨n, hn, rfl⟩ := mem_map.mp hm
      rintro ⟨h1, h2⟩
      rw [hftop] at h1
      rw [hf n (htail n hn)] at h2
      exact hnodup.1 ((h.modes hs).eq h1 h2 ▸ hn)
    · rw [hf x (htail x hx), hf y (htail y hy)] at hboth
      exact (h.modes hs).eq hboth.1 hboth.2
  · obtain ⟨n, hn, hm', ht', -⟩ := hpm m hm
    rw [ht']
    exact (h.modes hs).leaf n mode (hm' ▸ hmode') hmax
  · obtain ⟨n, hn, -, -, hmk⟩ := hpm m hm
    by_contra hc
    exact h.bare hb n (hmk (by simpa using hc))

end Detached

end TilingTree

end Swayward
