/-
  File:      Swayward/Keeps/Normalize.lean
  Subject:   NORMALIZING KEEPS THE INVARIANT: reaping, collapsing, squashing.

  Reaping leaves no empty split behind: the set of splits that may be empty shrinks from the one
  the caller emptied to none (`Inv.reapEmptyFrom`, `Inv.collapseFrom`). The other normalizers keep
  the invariant as it is. What collapsing, flattening and squashing have in common is `retire`.
-/
import Swayward.Tree.Invariant

namespace Swayward

variable {I : Type}

open Forest Arena Positions List

/-- The context after the leaf `id` has gone; the focus is settled later. For a split nothing
    changes. -/
def Ctx.forget (c : Ctx I) (id : NodeId) : Ctx I where
  full := c.full
  side := c.side
  deep := c.deep
  awake := c.awake ∧ c.windows id = none
  marks := c.marks
  bare := c.bare
  calm := c.calm
  windows n := if n = id then none else c.windows n
  hole := c.hole
  awake_full h := c.awake_full h.1
  awake_side h := c.awake_side h.1
  marks_full := c.marks_full
  marks_side := c.marks_side

theorem Ctx.forget_of_none {c : Ctx I} {id : NodeId} (h : c.windows id = none) :
    c.forget id = c := by
  have hw : (c.forget id).windows = c.windows := by
    funext n
    by_cases e : n = id
    · simp [Ctx.forget, e, h]
    · simp [Ctx.forget, e]
  have ha : (c.forget id).awake = c.awake := by simp [Ctx.forget, h]
  cases c
  simp only [Ctx.forget, Ctx.mk.injEq, true_and, and_true] at hw ha ⊢
  exact ⟨ha, hw⟩

namespace TilingTree

variable {c : Ctx I} {E : Set NodeId} {t : TilingTree I} {id p : NodeId}
variable {a : Arena I} {r : NodeId → ℕ} {heir child : NodeId} {s cs : Split} {N : List NodeId}
  {fullscreen : Option (NodeId × FullscreenMode)} {i : ℕ} {g P : Prop}

/-! ## 1. The number of nodes -/

theorem size_eq_card (a : Arena I) : a.size = a.nodes.keys.toFinset.card := by
  rw [toFinset_card_of_nodup a.nodes.keys_nodup, length_keys]

theorem mem_keys_toFinset {n : NodeId} : n ∈ a.nodes.keys.toFinset ↔ a.contains n = true := by
  rw [mem_toFinset]
  refine ⟨fun h => ?_, mem_keys_of_contains⟩
  unfold Arena.contains Arena.get
  rw [AList.lookup_isSome]
  exact h

theorem size_le_of_contains {b : Arena I} (h : ∀ n, b.contains n = true → a.contains n = true) :
    b.size ≤ a.size := by
  rw [size_eq_card, size_eq_card]
  exact Finset.card_le_card fun n hn => mem_keys_toFinset.mpr (h n (mem_keys_toFinset.mp hn))

theorem size_lt_of_contains {b : Arena I} (h : ∀ n, b.contains n = true → a.contains n = true)
    (hid : a.contains id = true) (hid' : b.contains id = false) : b.size < a.size := by
  rw [size_eq_card, size_eq_card]
  refine Finset.card_lt_card ⟨fun n hn => mem_keys_toFinset.mpr (h n (mem_keys_toFinset.mp hn)),
    fun hsub => ?_⟩
  have := mem_keys_toFinset.mp (hsub (mem_keys_toFinset.mpr hid))
  rw [hid'] at this
  cases this

/-! ## 2. A childless node goes -/

theorem Marks.removeNode (h : t.Marks) (hid : t.contains id = true)
    (hf : t.fullscreenMode id = none) : (t.removeNode id).Marks := by
  intro hnone n hn
  refine h (fun m => ?_) n (marked_removeNode hid hn).1
  have := hnone m
  rw [fullscreenMode_removeNode hid] at this
  by_cases e : m = id
  · rw [e, hf]
  · simpa [e] using this

/-- **Removing a childless node from the arena and from its parent's list.** -/
theorem Inv.dropChild (h : Inv c E t) (hp : t.parentOf id = some p) (hk : t.children id = [])
    (hf : t.focus = some id → id ∈ c.hole) (hmarks : c.marks → (t.removeNode id).Marks) :
    Inv (c.forget id) (insert p (E \ {id}))
      { t.removeNode id with toArena := (t.removeNode id).removeChild p id } := by
  have hid : t.contains id = true := contains_of_parentOf hp
  have he := erases_removeNode t id
  have hsame : SameNodes (t.removeNode id).toArena ((t.removeNode id).removeChild p id) :=
    sameNodes_modifySplit _ _
  have hcon : ∀ n, (t.removeNode id).contains n = true →
      ((t.removeNode id).removeChild p id).contains n = true := fun n hn =>
    (hsame.contains n).trans hn
  have htile : ∀ n, ((t.removeNode id).removeChild p id).tile n =
      if n = id then none else t.tile n := fun n => by
    rw [hsame.tile, he.tile]
    simp
  constructor
  · obtain ⟨r, hok, hdeep⟩ := h.ok
    refine ⟨r, hok.dropChild hp hk he, fun hd n hn => hdeep hd n ?_⟩
    have hn : ((t.removeNode id).removeChild p id).contains n = true := hn
    rw [hsame.contains] at hn
    exact ((he.contains n).mp hn).1
  · intro n
    have hn := h.tiles n
    refine (congrArg (Option.map (·.window)) (htile n)).trans ?_
    by_cases e : n = id
    · simp [e, Ctx.forget]
    · simpa [e, Ctx.forget] using hn
  · intro hs
    have hside := (h.side hs).removeNode hid hf
    exact hside.over hsame.tile hcon
  · intro hs
    have hmodes := ((h.modes hs).mono (Set.empty_subset (insert id ∅))).removeNode hid
    exact hmodes.over hsame.tile
  · rintro ⟨ha, hw⟩
    have := h.awake ha
    simpa [Ctx.forget_of_none hw] using this
  · exact hmarks
  · exact fun hb n hn => h.bare hb n (marked_removeNode hid hn).1
  · intro hcalm
    exact interactiveResize_removeNode.trans (h.calm hcalm)

/-! ## 3. Reaping -/

/-- The focus moves to `heir` in case `P`: when the node it is on is about to go. -/
def passFocus (t : TilingTree I) (P : Prop) [Decidable P] (heir : NodeId) : TilingTree I :=
  if P then t.setFocusId (some heir) else t

section PassFocus

variable (P : Prop) [Decidable P] (heir : NodeId)

theorem focus_passFocus : (t.passFocus P heir).focus = if P then some heir else t.focus := by
  unfold passFocus
  split <;> rfl

@[simp] theorem toArena_passFocus : (t.passFocus P heir).toArena = t.toArena := by
  unfold passFocus
  split <;> rfl

@[simp] theorem pendingModes_passFocus : (t.passFocus P heir).pendingModes = t.pendingModes := by
  unfold passFocus
  split <;> rfl

@[simp] theorem interactiveResize_passFocus :
    (t.passFocus P heir).interactiveResize = t.interactiveResize := by
  unfold passFocus
  split <;> rfl

@[simp] theorem residentRoot_passFocus : (t.passFocus P heir).residentRoot = t.residentRoot := by
  unfold passFocus
  split <;> rfl

theorem marked_passFocus {n : NodeId} : (t.passFocus P heir).Marked n ↔ t.Marked n := by
  unfold passFocus
  split <;> rfl

theorem fullscreenMode_passFocus (n : NodeId) :
    (t.passFocus P heir).fullscreenMode n = t.fullscreenMode n := by
  unfold fullscreenMode
  rw [pendingModes_passFocus]

end PassFocus

theorem Side.passFocus {H : Set NodeId} [Decidable P] (h : t.Side H)
    (hc : Climbs r t.toArena) (hheir : t.contains heir = true) :
    (t.passFocus P heir).Side H := by
  unfold TilingTree.passFocus
  split
  · have hside := h.setFocusId hc hheir
    exact { hside with focus := fun f hf => .inl ((hside.focus f hf).resolve_right id) }
  · exact h

theorem Inv.passFocus [Decidable P] (h : Inv c E t) (hP : P → t.focus.isSome)
    (hheir : c.side → t.contains heir = true) :
    Inv c E (t.passFocus P heir) := by
  unfold TilingTree.passFocus
  split_ifs with hp
  · exact h.setFocusId hheir fun ha => (h.awake ha).mp (hP hp)
  · exact h

theorem Inv.raiseViewAfterReap (h : Inv c E t) (p : NodeId) : Inv c E (t.raiseViewAfterReap p) := by
  unfold TilingTree.raiseViewAfterReap
  split
  · exact h
  rename_i view hview
  split
  · exact h
  · refine h.reinsert (fun hs => ?_) _
    obtain ⟨q, -, hq⟩ := exists_of_findSome?_eq_some hview
    exact (h.side hs).names view (.inl (mem_of_find?_eq_some hq))

/-- What is listed after a childless node has gone. -/
theorem mem_children_dropChild {b : Arena I} (h : Ok g ∅ E r a)
    (hp : a.parentOf id = some p) (hk : a.children id = []) (he : Erases [id] a b) (q x : NodeId) :
    x ∈ (b.removeChild p id).children q ↔ x ∈ a.children q ∧ x ≠ id := by
  have hlt := h.ranked p id (h.mem_children hp)
  have hpid : p ≠ id := fun e => hlt.ne (congrArg r e)
  have he' : Erases [id] (a.removeChild p id) (b.removeChild p id) :=
    he.modify (by simpa using hpid) _
  have hmem := (h.unlinked_removeChild hp).mem q x
  unfold children at hmem hk ⊢
  rw [he'.splitAt]
  by_cases e : q = id
  · subst e
    simp [hk]
  · simpa [e] using hmem

/-- A fullscreen node that holds a leaf besides `id` still holds it when the childless `id` goes. -/
theorem held_dropChild {t' : TilingTree I} (h : ∀ n, (t'.fullscreenMode n).isSome → n = t.root ∨
      ∃ m, m ≠ id ∧ Below t.children n m ∧ (t.tile m).isSome)
    (hroot : t'.root = t.root) (hk : t.children id = [])
    (hkids : ∀ q x, x ∈ t'.children q ↔ x ∈ t.children q ∧ x ≠ id)
    (htile : ∀ n, n ≠ id → t'.tile n = t.tile n) : t'.Held := by
  intro n hn
  rcases h n hn with e | ⟨m, hne, hm, ht⟩
  · exact .inl (e.trans hroot.symm)
  refine .inr ⟨m, ?_, by rwa [htile m hne]⟩
  -- the nodes on the way down have children: none of them is `id`
  have hpath : ∀ {x}, Below t.children n x → x ≠ id → Below t'.children n x := by
    intro x hx
    induction hx with
    | refl => exact fun _ => Below.refl n
    | tail _ hc ih =>
      refine fun hxid => (ih ?_).step ((hkids _ _).mpr ⟨hc, hxid⟩)
      rintro rfl
      simp [hk] at hc
  exact hpath hm hne

theorem Inv.dropEmpty (h : Inv c E t) (hs : t.splitAt id = some s) (hk : s.children = [])
    (hp : t.parentOf id = some p) (hheld : c.marks → t.Held) :
    Inv c (insert p (E \ {id})) (t.dropEmpty id p) ∧ (c.marks → (t.dropEmpty id p).Held) := by
  obtain ⟨r, hok, -⟩ := h.ok
  set u := t.passFocus (t.focus = some id) p
  have harena : u.toArena = t.toArena := toArena_passFocus _ p
  have hmem := hok.mem_children hp
  have hpid : p ≠ id := fun e => (hok.ranked p id hmem).ne (congrArg r e)
  obtain ⟨ps, hps, -⟩ := splitAt_of_mem_children hmem
  have hid : t.contains id = true := contains_of_splitAt hs
  have hnt : t.tile id = none := tile_of_splitAt hs
  have hk' : t.children id = [] := by rw [children_of_splitAt hs, hk]
  have hw : c.windows id = none := by simpa [hnt] using (h.tiles id).symm
  have h1 : Inv c E u := h.passFocus (fun hf => by simp [hf]) fun _ => contains_of_splitAt hps
  have hmode : ∀ n, u.fullscreenMode n = t.fullscreenMode n := fullscreenMode_passFocus _ p
  have hid1 : u.contains id = true := by rwa [harena]
  have hnone : c.marks → t.fullscreenMode id = none := by
    intro hm
    cases e : t.fullscreenMode id with
    | none => rfl
    | some mode =>
      rcases hheld hm id (by simp [e]) with e | ⟨m, hbelow, ht⟩
      · exact absurd e (hok.ne_root_of_parentOf hp)
      · rcases below_iff_kid.mp hbelow with rfl | ⟨k, hk, -⟩
        · simp [hnt] at ht
        · simp [hk'] at hk
  refine ⟨?_, fun hm => ?_⟩
  · have hp1 : u.parentOf id = some p := by rwa [harena]
    have h2 := h1.dropChild hp1 (by rwa [harena])
      (fun hf => ?_) fun hm => (h1.marks hm).removeNode hid1 ((hmode id).trans (hnone hm))
    · rw [Ctx.forget_of_none hw] at h2
      exact h2
    rw [focus_passFocus] at hf
    split at hf
    · exact absurd (Option.some.inj hf) hpid
    · contradiction
  · have he : Erases [id] t.toArena (u.removeNode id).toArena := harena ▸ erases_removeNode u id
    refine held_dropChild (t := t) (fun n hn => ?_) (by exact he.root) hk'
      (mem_children_dropChild hok hp hk' he) fun n hn => ?_
    · have hn : ((u.removeNode id).fullscreenMode n).isSome := hn
      rw [fullscreenMode_removeNode hid1, hmode] at hn
      have hn : (t.fullscreenMode n).isSome := by
        by_cases e : n = id
        · simp [e] at hn
        · simpa [e] using hn
      refine (hheld hm n hn).imp_right fun ⟨m, hbelow, ht⟩ => ⟨m, ?_, hbelow, ht⟩
      rintro rfl
      simp [hnt] at ht
    · have : (u.removeNode id).tile n = t.tile n := by
        rw [he.tile]
        simp [hn]
      exact (tile_modifySplit _ _ _ _).trans this

theorem raiseViewAfterReap_eq (t : TilingTree I) (p : NodeId) :
    ∃ l, t.raiseViewAfterReap p = { t with focusHistory := l } := by
  unfold raiseViewAfterReap
  split
  · exact ⟨_, rfl⟩
  · split
    · exact ⟨_, rfl⟩
    · exact ⟨_, rfl⟩

theorem reapNode_eq (t : TilingTree I) (id p : NodeId) :
    ∃ l, t.reapNode id p = { t.dropEmpty id p with focusHistory := l } :=
  raiseViewAfterReap_eq _ p

theorem toArena_removeNode_congr {u : TilingTree I} (e : u.toArena = t.toArena) (id : NodeId) :
    (u.removeNode id).toArena = (t.removeNode id).toArena := by
  unfold removeNode
  rw [e]
  split
  · simp
  · exact e

theorem toArena_dropEmpty (t : TilingTree I) (id p : NodeId) :
    (t.dropEmpty id p).toArena = (t.removeNode id).removeChild p id :=
  congrArg (Arena.removeChild · p id)
    (toArena_removeNode_congr (toArena_passFocus (t.focus = some id) p) id)

theorem focus_raiseViewAfterReap (t : TilingTree I) (p : NodeId) :
    (t.raiseViewAfterReap p).focus = t.focus := by
  obtain ⟨l, hl⟩ := raiseViewAfterReap_eq t p
  rw [hl]

theorem isSome_focus_reapNode : (t.reapNode id p).focus.isSome = t.focus.isSome := by
  unfold reapNode
  rw [focus_raiseViewAfterReap]
  refine (congrArg Option.isSome focus_removeNode).trans ?_
  split_ifs with e
  · simp [e, setFocusId]
  · rfl

/-- Whether there is a focus does not change. -/
theorem isSome_focus_reapFrom (fuel : ℕ) (id : NodeId) :
    (reapFrom fuel t id).focus.isSome = t.focus.isSome := by
  fun_induction reapFrom fuel t id with
  | case3 _ _ _ _ _ _ _ _ ih => rw [ih, isSome_focus_reapNode]
  | _ => rfl

theorem Inv.reapNode (h : Inv c E t) (hs : t.splitAt id = some s) (hk : s.children = [])
    (hp : t.parentOf id = some p) (hheld : c.marks → t.Held) :
    Inv c (insert p (E \ {id})) (t.reapNode id p) ∧ (c.marks → (t.reapNode id p).Held) := by
  obtain ⟨h', hheld'⟩ := h.dropEmpty hs hk hp hheld
  refine ⟨h'.raiseViewAfterReap p, fun hm => ?_⟩
  obtain ⟨l, e⟩ := reapNode_eq t id p
  rw [e]
  exact hheld' hm

/-- Dropping a node leaves fewer nodes. -/
theorem size_dropEmpty (hid : t.contains id = true) : (t.dropEmpty id p).size < t.size := by
  have hcon : ∀ n, (t.dropEmpty id p).contains n = true ↔ t.contains n = true ∧ n ≠ id := fun n => by
    rw [toArena_dropEmpty, removeChild, contains_modifySplit, (erases_removeNode t id).contains]
    simp
  refine size_lt_of_contains (fun n hn => ((hcon n).mp hn).1) hid ?_
  simpa using fun hn => ((hcon id).mp hn).2 rfl

theorem size_reapNode (hid : t.contains id = true) : (t.reapNode id p).size < t.size := by
  obtain ⟨l, e⟩ := reapNode_eq t id p
  rw [e]
  exact size_dropEmpty hid

/-- A tree has nodes. -/
theorem Inv.size_pos (h : Inv c E t) : 0 < t.size := by
  obtain ⟨r, hok, -⟩ := h.ok
  rw [size_eq_card]
  exact Finset.card_pos.mpr ⟨_, mem_keys_toFinset.mpr hok.contains_root⟩

/-- Where reaping stops: `id` is not an empty split below the root. -/
theorem Inv.settle (h : Inv c {id} t)
    (hid : ∀ s, t.splitAt id = some s → ∀ p, t.parentOf id = some p → id ≠ t.root →
      s.children ≠ []) : Inv c ∅ t := by
  refine h.shrink fun _ q hq _ s hs hr => ?_
  cases hq
  obtain ⟨r, hok, -⟩ := h.ok
  obtain ⟨q, hq⟩ := hok.home (contains_of_splitAt hs) hr (Set.notMem_empty id)
  exact hid s hs q (hok.kid_parent hq) hr

theorem Inv.reapFrom {fuel : ℕ} (h : Inv c {id} t) (hheld : c.marks → t.Held)
    (hfuel : t.size ≤ fuel) : Inv c ∅ (reapFrom fuel t id) := by
  fun_induction TilingTree.reapFrom fuel t id with
  | case1 =>
    have := h.size_pos
    omega
  | case2 _ t id s p hp hs hstop =>
    refine h.settle fun s' hs' q hq hr => ?_
    rw [hs] at hs'
    cases hs'
    simpa [hr] using hstop
  | case3 _ t id s p hp hs hgo ih =>
    have hk : s.children = [] := by
      simp only [Bool.or_eq_true, decide_eq_true_eq, Bool.not_eq_true', not_or] at hgo
      simpa using hgo.2
    obtain ⟨h', hheld'⟩ := h.reapNode hs hk hp hheld
    have hE : insert p (({id} : Set NodeId) \ {id}) = {p} := by simp
    rw [hE] at h'
    have := size_reapNode (t := t) (p := p) (contains_of_splitAt hs)
    exact ih h' hheld' (by omega)
  | case4 _ _ _ hstop => exact h.settle fun s hs q hq _ => (hstop s q hs hq).elim

/-- **Reaping leaves no empty split behind.** -/
theorem Inv.reapEmptyFrom (h : Inv c {id} t) (hheld : c.marks → t.Held) :
    Inv c ∅ (t.reapEmptyFrom id) :=
  h.reapFrom hheld le_rfl

/-! ## 4. Splits that retire -/

/-- Hand a fullscreen mode to a node. -/
def handFullscreen (t : TilingTree I) (fullscreen : Option (NodeId × FullscreenMode)) :
    TilingTree I :=
  match fullscreen with
  | some (id, mode) => t.setPendingFullscreen id (some mode)
  | none => t

theorem handFullscreen_eq (fullscreen : Option (NodeId × FullscreenMode)) :
    t.handFullscreen fullscreen =
      { t with pendingModes := (t.handFullscreen fullscreen).pendingModes } := by
  unfold handFullscreen
  split
  · exact setPendingFullscreen_eq _
  · rfl

/-- The step that `collapseNode`, `flattenParent`, `squash` and `squashPairForMove` share: the arena
    has been edited, a fullscreen mode and (in case `P`) the focus are handed on, the splits `N`
    go. -/
def retire (t : TilingTree I) (a : Arena I) (N : List NodeId)
    (fullscreen : Option (NodeId × FullscreenMode)) (P : Prop) [Decidable P] (heir : NodeId) :
    TilingTree I :=
  N.foldl removeNode (({ t with toArena := a : TilingTree I }.handFullscreen fullscreen).passFocus
    P heir)

/-- What removing several nodes does to the arena and to the other parts. -/
theorem foldl_removeNode {M H : Set NodeId} (hN : ∀ n ∈ N, t.contains n = true) (hnodup : N.Nodup)
    (hf : ∀ n ∈ N, t.focus ≠ some n) :
    Erases N t.toArena (N.foldl removeNode t).toArena ∧ (N.foldl removeNode t).focus = t.focus ∧
      (N.foldl removeNode t).interactiveResize = t.interactiveResize ∧
      (∀ n, (N.foldl removeNode t).fullscreenMode n = if n ∈ N then none else t.fullscreenMode n) ∧
      (∀ n, (N.foldl removeNode t).Marked n → t.Marked n) ∧
      (t.Side H → (N.foldl removeNode t).Side H) ∧
      (t.Modes (M ∪ {n | n ∈ N}) → (N.foldl removeNode t).Modes M) := by
  induction N generalizing t with
  | nil =>
    refine ⟨⟨fun n => by simp, rfl, rfl⟩, rfl, rfl, fun n => by simp, fun n hn => hn,
      fun h => h, fun h => ?_⟩
    simpa using h
  | cons x N ih =>
    obtain ⟨hx, hnodup⟩ := nodup_cons.mp hnodup
    have hcx : t.contains x = true := hN x (by simp)
    have he := erases_removeNode t x
    obtain ⟨he', hf', hi', hm', hk', hs', hM'⟩ := ih (t := t.removeNode x)
      (fun n hn => (he.contains n).mpr ⟨hN n (by simp [hn]), by
        rintro (_ | ⟨_, ⟨⟩⟩)
        exact hx hn⟩) hnodup (fun n hn => by
          rw [focus_removeNode]
          exact hf n (by simp [hn]))
    refine ⟨?_, ?_, ?_, ?_, ?_, ?_, ?_⟩
    · simpa using he.trans he'
    · rw [foldl_cons, hf', focus_removeNode]
    · rw [foldl_cons, hi', interactiveResize_removeNode]
    · intro n
      rw [foldl_cons, hm', fullscreenMode_removeNode hcx]
      by_cases e : n = x <;> by_cases e' : n ∈ N <;> simp [e, e']
    · exact fun n hn => (marked_removeNode hcx (hk' n hn)).1
    · exact fun h => hs' (h.removeNode hcx fun e => absurd e (hf x (by simp)))
    · intro h
      refine hM' (Modes.removeNode (h.mono ?_) hcx)
      rintro n (hn | hn)
      · exact .inr (.inl hn)
      · rcases mem_cons.mp hn with rfl | hn
        · exact .inl rfl
        · exact .inr (.inr hn)

/-- A fullscreen mode is handed from a node of `N` to another node. -/
theorem Modes.handOver {N : Set NodeId} (h : t.Modes ∅) (hN : ∃ n ∈ N, (t.fullscreenMode n).isSome)
    (m : FullscreenMode) :
    (t.setPendingFullscreen heir (some m)).Modes N where
  one x y hx hy hx' hy' := by
    obtain ⟨n, hn, hmode⟩ := hN
    have hheir : ∀ {x}, x ∉ N →
        ((t.setPendingFullscreen heir (some m)).fullscreenMode x).isSome → x = heir := by
      intro x hx hx'
      rw [fullscreenMode_setPendingFullscreen] at hx'
      by_contra e
      rw [if_neg e] at hx'
      exact hx (h.eq hx' hmode ▸ hn)
    rw [hheir hx hx', hheir hy hy']
  leaf n mode hn hmax := by
    have := leaf_setPendingFullscreen h (some m) n mode hn hmax
    rw [setPendingFullscreen_eq]
    exact this

/-- **Retiring splits keeps the invariant.** -/
theorem Inv.retire {E' : Set NodeId} [Decidable P]
    (h : Inv c E t) (hsame : SameNodes t.toArena a) (hclimb : Climbs r a)
    (hok : ∀ a', Erases N a a' → ∃ r, Ok c.full ∅ E' r a' ∧
      (c.deep → ∀ n, a'.contains n = true → r n ≤ maxTreeDepth))
    (hN : ∀ n ∈ N, ∃ s, t.splitAt n = some s) (hnodup : N.Nodup)
    (hheir : t.contains heir = true) (hheirN : heir ∉ N) (hP : P ↔ ∃ n ∈ N, t.focus = some n)
    (hfull : ∀ x m, fullscreen = some (x, m) → t.contains x = true ∧ x ∉ N ∧
      ∃ n ∈ N, (t.fullscreenMode n).isSome)
    (hlost : c.marks → fullscreen = none → ∀ n ∈ N, t.fullscreenMode n = none) :
    Inv c E' (t.retire a N fullscreen P heir) := by
  set t1 : TilingTree I := { t with toArena := a } with ht1
  set t2 := t1.handFullscreen fullscreen with ht2
  have e2 : t2 = { t1 with pendingModes := t2.pendingModes } := handFullscreen_eq fullscreen
  have harena2 : t2.toArena = a := by rw [e2]
  have hcon : ∀ n, t2.contains n = t.contains n := fun n => by rw [harena2, hsame.contains]
  have hfocus3 : ∀ n ∈ N, (t2.passFocus P heir).focus ≠ some n := by
    intro n hn
    rw [focus_passFocus]
    split_ifs with hp
    · rintro ⟨⟩
      exact hheirN hn
    · rw [e2]
      exact fun hf => hp (hP.mpr ⟨n, hn, hf⟩)
  obtain ⟨he, hfocus, hresize, hmode, hmarked, hside, hmodes⟩ :=
    foldl_removeNode (t := t2.passFocus P heir) (N := N) (M := ∅) (H := c.hole) (fun n hn => by
        obtain ⟨s, hs⟩ := hN n hn
        rw [toArena_passFocus, hcon, contains_of_splitAt hs]) hnodup hfocus3
  rw [toArena_passFocus, harena2] at he
  have htile : ∀ n, (t.retire a N fullscreen P heir).tile n = t.tile n := by
    intro n
    refine (he.tile n).trans ?_
    rw [hsame.tile]
    split_ifs with hn
    · obtain ⟨s, hs⟩ := hN n hn
      exact (tile_of_splitAt hs).symm
    · rfl
  constructor
  · exact hok _ he
  · exact fun n => (congrArg _ (htile n)).trans (h.tiles n)
  · intro hs
    have hside1 : t1.Side c.hole :=
      (h.side hs).over hsame.tile fun n hn => (hsame.contains n).trans hn
    have hside2 : t2.Side c.hole := by
      rw [ht2]
      unfold handFullscreen
      split
      · rename_i x m
        exact hside1.setPendingFullscreen ((hsame.contains x).trans (hfull x m rfl).1) _
      · exact hside1
    exact hside (hside2.passFocus (r := r) (by rwa [harena2]) (by rw [hcon, hheir]))
  · intro hs
    refine hmodes ?_
    have hmodes1 : t1.Modes ∅ := (h.modes hs).over hsame.tile
    have hmodes2 : t2.Modes (∅ ∪ {n | n ∈ N}) := by
      rw [ht2]
      unfold handFullscreen
      split
      · rename_i x m
        obtain ⟨-, -, n, hn, hmode⟩ := hfull x m rfl
        exact hmodes1.handOver ⟨n, .inr hn, hmode⟩ m
      · exact hmodes1.mono (Set.empty_subset _)
    refine ⟨fun x y hx hy hx' hy' => hmodes2.one x y hx hy ?_ ?_, fun n mode hn hmax => ?_⟩
    · rwa [fullscreenMode_passFocus] at hx'
    · rwa [fullscreenMode_passFocus] at hy'
    · rw [pendingModes_passFocus] at hn
      rw [toArena_passFocus]
      exact hmodes2.leaf n mode hn hmax
  · intro ha
    have hawake := h.awake ha
    have : (t.retire a N fullscreen P heir).focus.isSome = t.focus.isSome := by
      refine (congrArg Option.isSome hfocus).trans ?_
      rw [focus_passFocus]
      split_ifs with hp
      · obtain ⟨n, -, hf⟩ := hP.mp hp
        simp [hf]
      · rw [e2]
    rw [this]
    exact hawake
  · intro hm hnone n hn
    -- a mode handed on is still there; without one, none was there before
    cases hfs : fullscreen with
    | some xm =>
      obtain ⟨x, m⟩ := xm
      have hx := hnone x
      have hx : (foldl removeNode (t2.passFocus P heir) N).fullscreenMode x = none := hx
      rw [hmode, if_neg (hfull x m hfs).2.1, fullscreenMode_passFocus, ht2, hfs] at hx
      simp [handFullscreen, fullscreenMode_setPendingFullscreen] at hx
    | none =>
      have e2' : t2 = t1 := by rw [ht2, hfs]; rfl
      refine h.marks hm (fun x => ?_) n ?_
      · by_cases hx : x ∈ N
        · exact hlost hm hfs x hx
        · have hx' : (foldl removeNode (t2.passFocus P heir) N).fullscreenMode x = none := hnone x
          rw [hmode, if_neg hx, fullscreenMode_passFocus, e2'] at hx'
          exact hx'
      · have := (marked_passFocus P heir).mp (hmarked n hn)
        rw [e2'] at this
        exact this
  · intro hb n hn
    have := (marked_passFocus P heir).mp (hmarked n hn)
    rw [e2] at this
    exact h.bare hb n this
  · intro hcalm
    refine hresize.trans ?_
    rw [interactiveResize_passFocus, e2]
    exact h.calm hcalm

/-! ## 5. Collapsing -/

/-- Links that are bent upward still lead up. -/
theorem climbs_adopt (h : Climbs r a) {K : List NodeId} (f : Split → Split)
    (hp : a.contains p = true) (hK : ∀ x ∈ K, a.contains x = true ∧ r p < r x) :
    Climbs r (adopt (a.modifySplit p f) K p) := by
  have hsame := (sameNodes_modifySplit (a := a) p f).trans (sameNodes_adopt K p)
  have hpar : ∀ n, (adopt (a.modifySplit p f) K p).parentOf n =
      if n ∈ K then some p else a.parentOf n := fun n => by
    rw [parentOf_adopt K p n fun x hx => (contains_modifySplit _ _ _ _).trans (hK x hx).1,
      parentOf_modifySplit]
  constructor
  · intro n q hq
    rw [hpar] at hq
    rw [hsame.contains]
    split at hq
    · cases hq
      exact hp
    · exact h.node hq
  · intro n q hq
    rw [hpar] at hq
    split_ifs at hq with hn
    · cases hq
      exact (hK n hn).2
    · exact h.rank n q hq

@[simp] theorem focus_setPendingFullscreen (m : Option FullscreenMode) :
    (t.setPendingFullscreen id m).focus = t.focus := by
  rw [setPendingFullscreen_eq]

/-- The arena of `collapseNode` and `flattenParent`. -/
theorem collapseNode_eq (child : NodeId) (index : ℕ) :
    t.collapseNode id p child index =
      t.retire ((t.modifySplit p fun s => { s with children := s.children.set index child }).setParent
        child (some p)) [id] ((t.fullscreenMode id).map (child, ·)) (t.focus = some id) child := by
  unfold collapseNode retire handFullscreen passFocus
  cases e : t.fullscreenMode id with
  | none =>
    have e' : ({ t with toArena := (t.modifySplit p fun s =>
        { s with children := s.children.set index child }).setParent child (some p) } :
          TilingTree I).fullscreenMode id = none := e
    simp only [e', Option.map_none]
    rfl
  | some m =>
    have e' : ({ t with toArena := (t.modifySplit p fun s =>
        { s with children := s.children.set index child }).setParent child (some p) } :
          TilingTree I).fullscreenMode id = some m := e
    simp only [e', Option.map_some, focus_setPendingFullscreen]
    rfl

/-- **The only child in the place of its parent.** -/
theorem Inv.replaceByChild (h : Inv c E t) {index : ℕ} (hi : t.childIndex p id = some index)
    (hk : t.children id = [child]) :
    Inv c E (t.retire ((t.modifySplit p fun s =>
      { s with children := s.children.set index child }).setParent child (some p)) [id]
      ((t.fullscreenMode id).map (child, ·)) (t.focus = some id) child) := by
  obtain ⟨r, hok, hdeep⟩ := h.ok
  have hchild : child ∈ t.children id := by simp [hk]
  obtain ⟨s, hs, -⟩ := splitAt_of_mem_children hchild
  obtain ⟨ps, hps, hi'⟩ := Option.bind_eq_some_iff.mp hi
  have hidp : id ∈ t.children p := children_of_splitAt hps ▸ mem_of_idxOf? hi'
  have hlt := hok.ranked p id hidp
  have hlt' := hok.ranked id child hchild
  have hne : child ≠ id := fun e => hlt'.ne (congrArg r e.symm)
  have hcchild := hok.contains_kid hchild
  have hsame : SameNodes t.toArena ((t.modifySplit p fun s =>
      { s with children := s.children.set index child }).setParent child (some p)) :=
    (sameNodes_modifySplit _ _).trans (sameNodes_setParent _ _)
  refine h.retire (r := r) hsame
    (climbs_adopt (K := [child]) (hok.climbs no_unlinked) _ (contains_of_splitAt hps)
      (by simpa using ⟨hcchild, hlt.trans hlt'⟩))
    (fun a' he => ⟨r, hok.replaceByChild hi hk he, fun hd n hn => hdeep hd n ?_⟩)
    (by simpa using ⟨s, hs⟩) (by simp) hcchild (by simpa using hne) (by simp)
    (fun x m hx => ?_) fun _ hnone => ?_
  · rw [he.contains, hsame.contains] at hn
    exact hn.1
  · obtain ⟨m', hm', e⟩ := Option.map_eq_some_iff.mp hx
    cases e
    exact ⟨hcchild, by simpa using hne, id, by simp, by simp [hm']⟩
  · simpa using hnone

theorem Inv.collapseNode (h : Inv c E t) {index : ℕ} (hi : t.childIndex p id = some index)
    (hk : t.children id = [child]) :
    Inv c E (t.collapseNode id p child index) := by
  rw [collapseNode_eq]
  exact h.replaceByChild hi hk

/-- Retiring splits leaves fewer nodes. -/
theorem size_retire [Decidable P] (hsame : SameNodes t.toArena a)
    (hid : t.contains id = true) (hN : id ∈ N) :
    (t.retire a N fullscreen P heir).size < t.size := by
  have hgone : ∀ (N : List NodeId) (u : TilingTree I) (n : NodeId),
      (N.foldl removeNode u).contains n = true → u.contains n = true ∧ n ∉ N := by
    intro N
    induction N with
    | nil => exact fun u n hn => ⟨hn, by simp⟩
    | cons x N ih =>
      intro u n hn
      obtain ⟨hn, hnN⟩ := ih _ n hn
      obtain ⟨hn, hnx⟩ := ((erases_removeNode u x).contains n).mp hn
      refine ⟨hn, ?_⟩
      simp_all
  have hstart : ∀ n, (({ t with toArena := a : TilingTree I }.handFullscreen fullscreen).passFocus P
      heir).contains n = t.contains n := fun n => by
    rw [toArena_passFocus, handFullscreen_eq]
    exact hsame.contains n
  refine size_lt_of_contains (fun n hn => ?_) hid ?_
  · rw [← hstart]
    exact (hgone N _ n hn).1
  · by_contra hc
    rw [Bool.not_eq_false] at hc
    exact (hgone N _ id hc).2 hN

/-- With no empty split, every fullscreen node but the root holds a leaf. -/
theorem Inv.held (h : Inv c ∅ t) (hm : c.marks) : t.Held := by
  intro n hn
  obtain ⟨r, hok, -⟩ := h.ok
  by_cases e : n = t.root
  · exact .inl e
  refine .inr (hok.exists_leaf (c.marks_full hm) ?_ e)
  refine (h.side (c.marks_side hm)).mode ?_
  unfold fullscreenMode at hn
  obtain ⟨m, hm⟩ := Option.isSome_iff_exists.mp hn
  obtain ⟨mode, hmode, -⟩ := Option.bind_eq_some_iff.mp hm
  exact FinMap.mem_iff_lookup.mpr ⟨mode, hmode⟩

theorem Inv.collapseUp {fuel : ℕ} (h : Inv c {id} t) (hheld : c.marks → t.Held)
    (hfuel : t.size ≤ fuel) : Inv c ∅ (collapseUp fuel t id) := by
  have hsettle : ∀ {t : TilingTree I} {id s}, Inv c {id} t → t.splitAt id = some s →
      s.children ≠ [] → Inv c ∅ t := fun h hs hne => h.settle fun s' hs' _ _ _ => by
    rw [hs] at hs'
    cases hs'
    exact hne
  fun_induction TilingTree.collapseUp fuel t id with
  | case1 =>
    have := h.size_pos
    omega
  | case2 => exact h.settle fun _ _ _ _ hr => absurd rfl hr
  | case3 _ t id s p hp hs _ hk ih =>
    obtain ⟨h', hheld'⟩ := h.dropEmpty hs hk hp hheld
    have hE : insert p (({id} : Set NodeId) \ {id}) = {p} := by simp
    rw [hE] at h'
    have : (t.dropEmpty id p).size < t.size := size_dropEmpty (contains_of_splitAt hs)
    exact ih h' hheld' (by omega)
  | case4 _ t id s p _ hs _ child hk index hi ih =>
    have h' := (hsettle h hs (by simp [hk])).collapseNode hi ((children_of_splitAt hs).trans hk)
    have : (t.collapseNode id p child index).size < t.size := by
      rw [collapseNode_eq]
      exact size_retire ((sameNodes_modifySplit _ _).trans (sameNodes_setParent _ _))
        (contains_of_splitAt hs) (by simp)
    exact ih (h'.mono (Set.empty_subset _)) h'.held (by omega)
  | case5 _ _ _ _ _ _ hs _ _ hk => exact hsettle h hs (by simp [hk])
  | case6 _ _ _ _ _ _ hs _ hk => exact hsettle h hs hk
  | case7 _ _ _ hstop => exact h.settle fun s hs q hq _ => (hstop s q hs hq).elim

/-- **Collapsing leaves no empty split behind.** -/
theorem Inv.collapseFrom (h : Inv c {id} t) (hheld : c.marks → t.Held) :
    Inv c ∅ (t.collapseFrom id) :=
  h.collapseUp hheld le_rfl

/-! ## 6. Squashing -/

theorem squashableChild_eq_some (h : t.squashableChild id = some child) :
    t.children id = [child] ∧ t.isSquashable id child = true := by
  unfold squashableChild at h
  split at h
  · split at h
    · cases h
      exact ⟨by assumption, by assumption⟩
    · cases h
  · cases h

/-- What is used of a squashable pair. -/
structure Pair (t : TilingTree I) (r : NodeId → ℕ) (id p child : NodeId) (s cs : Split) (i : ℕ) :
    Prop where
  parent : t.splitAt p = some s
  index : s.children.idxOf? id = some i
  only : t.children id = [child]
  inner : t.splitAt child = some cs
  rank : r p < r id
  rank' : r id < r child
  rankKids : ∀ x ∈ cs.children, r child < r x ∧ t.contains x = true

theorem Pair.of_some (hok : t.toArena.Ok g ∅ E r)
    (hk : t.squashableChild id = some child) (hcs : t.splitAt child = some cs)
    (hi : t.childIndex p id = some i) :
    ∃ s, t.Pair r id p child s cs i := by
  obtain ⟨hk, -⟩ := squashableChild_eq_some hk
  obtain ⟨s, hs, hi⟩ := Option.bind_eq_some_iff.mp hi
  have hkids : ∀ x ∈ cs.children, x ∈ t.children child := fun x hx =>
    children_of_splitAt hcs ▸ hx
  exact ⟨s, hs, hi, hk, hcs, hok.ranked _ _ (children_of_splitAt hs ▸ mem_of_idxOf? hi),
    hok.ranked _ _ (by simp [hk]),
    fun x hx => ⟨hok.ranked _ _ (hkids x hx), hok.contains_kid (hkids x hx)⟩⟩

/-- **Squashing a pair**, however the grandchildren are ordered and share. -/
theorem Inv.squashPair {kids : List NodeId} {f : Split → Split} (h : Inv c ∅ t)
    (hok : t.toArena.Ok c.full ∅ ∅ r)
    (hdeep : c.deep → ∀ n, t.contains n = true → r n ≤ maxTreeDepth)
    (hp : t.Pair r id p child s cs i) (hkids : kids.Perm cs.children)
    (hf : (f s).children = (spliceAt s i kids []).children)
    (hsound : (∀ x ∈ kids, x ∉ s.children) → (f s).Sound c.full)
    (hheir : heir = p ∨ heir ∈ cs.children) (hfull : ∀ x m, fullscreen = some (x, m) →
      x = p ∧ ((t.fullscreenMode id).isSome ∨ (t.fullscreenMode child).isSome))
    (hlost : c.marks → fullscreen = none →
      t.fullscreenMode id = none ∧ t.fullscreenMode child = none) :
    Inv c ∅ (t.retire (adopt (t.modifySplit p f) cs.children p) [id, child] fullscreen
      (t.focus = some id ∨ t.focus = some child) heir) := by
  have hsame : SameNodes t.toArena (adopt (t.modifySplit p f) cs.children p) :=
    (sameNodes_modifySplit _ _).trans (sameNodes_adopt _ _)
  have hchild : child ∈ t.children id := by simp [hp.only]
  obtain ⟨ids, hids, -⟩ := splitAt_of_mem_children hchild
  have hcp := contains_of_splitAt hp.parent
  have hpN : p ∉ [id, child] := by
    simp only [mem_cons, not_mem_nil, or_false, not_or]
    exact ⟨fun e => hp.rank.ne (congrArg r e), fun e => (hp.rank.trans hp.rank').ne (congrArg r e)⟩
  have hne : id ≠ child := fun e => hp.rank'.ne (congrArg r e)
  have hnonempty : c.full → cs.children ≠ [] := fun hg =>
    hok.full hg hp.inner (fun e => hok.root_not_kid id (e ▸ hchild)) (Set.notMem_empty child)
  refine h.retire (r := r) hsame (climbs_adopt (hok.climbs no_unlinked) _ hcp fun x hx =>
      ⟨(hp.rankKids x hx).2, hp.rank.trans (hp.rank'.trans (hp.rankKids x hx).1)⟩)
    (fun a' he => ⟨r, hok.squashPair hp.parent hp.index hp.only hp.inner hnonempty hkids hf hsound he,
      fun hd n hn => hdeep hd n ?_⟩)
    (by simpa using ⟨⟨ids, hids⟩, cs, hp.inner⟩) (by simpa using hne) ?_ ?_ (by simp)
    (fun x m hx => ?_) fun hm hnone => by simpa using hlost hm hnone
  · rw [he.contains, hsame.contains] at hn
    exact hn.1
  · rcases hheir with rfl | hx
    · exact hcp
    · exact (hp.rankKids _ hx).2
  · rcases hheir with rfl | hx
    · exact hpN
    · have := hp.rankKids _ hx
      simp only [mem_cons, not_mem_nil, or_false, not_or]
      exact ⟨fun e => (hp.rank'.trans this.1).ne (congrArg r e.symm),
        fun e => this.1.ne (congrArg r e.symm)⟩
  · obtain ⟨rfl, hm⟩ := hfull x m hx
    refine ⟨hcp, hpN, ?_⟩
    simpa using hm

/-- The grandchildren divide the share of the pair. -/
theorem sound_spliceAt_scaled (hs : s.Sound g) (hcs : cs.Sound g)
    (hi : s.children.idxOf? id = some i) (hne : g → cs.children ≠ [])
    (hnew : ∀ x ∈ cs.children, x ∉ s.children) :
    (spliceAt s i cs.children (cs.percents.map ((s.percents[i]?.getD 0) * ·))).Sound g := by
  have hw := sound_spliceAt (cs.percents.map ((s.percents[i]?.getD 0) * ·)) hs hi hcs.nodup hnew
    (by simpa using hcs.lengths)
  refine ⟨hw.nodup, hw.lengths, fun hg => ?_⟩
  obtain ⟨hlt, -⟩ := idxOf?_eq_some_iff.mp hi
  obtain ⟨A, x, B, e, rfl⟩ := hs.percent_around hlt
  have hG : cs.percents ≠ [] := by
    intro hnil
    have := hcs.lengths
    rw [hnil] at this
    exact hne hg (eq_nil_of_length_eq_zero this.symm)
  have := Shares.splice_isShares (e ▸ hs.shares hg) (hcs.shares hg) hG
  simpa only [spliceAt, e, take_around, drop_around, getElem?_append_right (Nat.le_refl _),
    Nat.sub_self, getElem?_cons_zero, Option.getD_some] using this

/-- The grandchildren come in with their own fractions, and all are normalized. -/
theorem sound_spliceAt_normalized (hs : s.Sound g) (hcs : cs.Sound g)
    (hi : s.children.idxOf? id = some i) (hnew : ∀ x ∈ cs.children.reverse, x ∉ s.children) :
    Split.Sound g { spliceAt s i cs.children.reverse cs.percents.reverse with
      percents := Shares.normalize (spliceAt s i cs.children.reverse cs.percents.reverse).percents } := by
  have hw := sound_spliceAt cs.percents.reverse hs hi (nodup_reverse.mpr hcs.nodup) hnew
    (by simpa using hcs.lengths)
  refine ⟨hw.nodup, by simpa using hw.lengths, fun hg => Shares.normalize_isShares fun x hx => ?_⟩
  simp only [spliceAt, mem_append, mem_reverse] at hx
  rcases hx with (hx | hx) | hx
  · exact (hs.shares hg).1 x (mem_of_mem_take hx)
  · exact (hcs.shares hg).1 x hx
  · exact (hs.shares hg).1 x (mem_of_mem_drop hx)

theorem squash_eq (hp : t.parentOf id = some p) (hk : t.squashableChild id = some child)
    (hcs : t.splitAt child = some cs) (hi : t.childIndex p id = some i) :
    t.squash id = t.retire (adopt (t.modifySplit p fun s =>
        spliceAt s i cs.children (cs.percents.map ((s.percents[i]?.getD 0) * ·))) cs.children p)
      [id, child] (((t.fullscreenMode id).or (t.fullscreenMode child)).map (p, ·))
      (t.focus = some id ∨ t.focus = some child) (cs.children.head?.getD p) := by
  unfold squash retire handFullscreen passFocus
  simp only [hp, hk, hcs, hi]
  cases e : (t.fullscreenMode id).or (t.fullscreenMode child) with
  | none =>
    simp only [fullscreenMode] at e ⊢
    simp only [e, Option.map_none]
    rfl
  | some m =>
    simp only [fullscreenMode] at e ⊢
    simp only [e, Option.map_some, focus_setPendingFullscreen]
    rfl

theorem Inv.squash (h : Inv c ∅ t) (id : NodeId) : Inv c ∅ (t.squash id) := by
  cases hp : t.parentOf id with
  | none => simpa [TilingTree.squash, hp] using h
  | some p =>
    cases hk : t.squashableChild id with
    | none => simpa [TilingTree.squash, hp, hk] using h
    | some child =>
      cases hcs : t.splitAt child with
      | none => simpa [TilingTree.squash, hp, hk, hcs] using h
      | some cs =>
        cases hi : t.childIndex p id with
        | none => simpa [TilingTree.squash, hp, hk, hcs, hi] using h
        | some i =>
          rw [squash_eq hp hk hcs hi]
          obtain ⟨r, hok, hdeep⟩ := h.ok
          obtain ⟨s, hpair⟩ := Pair.of_some hok hk hcs hi
          have hchild : child ∈ t.children id := by simp [hpair.only]
          refine h.squashPair hok hdeep hpair (Perm.refl _) rfl (fun hnew => ?_) ?_
            (fun x m hx => ?_) fun _ hnone => ?_
          · exact sound_spliceAt_scaled (hok.sound hpair.parent) (hok.sound hcs) hpair.index
              (fun hg => hok.full hg hcs (fun e => hok.root_not_kid id (e ▸ hchild))
                (Set.notMem_empty child)) hnew
          · cases hc : cs.children with
            | nil => exact .inl rfl
            | cons x l => exact .inr (by simp)
          · obtain ⟨m', hm', e⟩ := Option.map_eq_some_iff.mp hx
            cases e
            refine ⟨rfl, ?_⟩
            have := congrArg Option.isSome hm'
            simpa using this
          · simpa using hnone

theorem Inv.compactFrom (h : Inv c ∅ t) (fuel : ℕ) : Inv c ∅ (compactFrom fuel t) := by
  fun_induction TilingTree.compactFrom fuel t with
  | case3 _ _ _ _ ih => exact ih (h.squash _)
  | _ => exact h

/-- **Compacting keeps the invariant.** -/
theorem Inv.compactTree (h : Inv c ∅ t) : Inv c ∅ t.compactTree := h.compactFrom _

end TilingTree

end Swayward
