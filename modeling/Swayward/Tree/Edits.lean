/-
  File:      Swayward/Tree/Edits.lean
  Subject:   THE ARENA'S FUNCTIONS KEEP ITS STRUCTURE: one lemma for each function that edits.

  First what the edits do to one split (its children stay without duplicates, its shares stay
  shares), then what they do to `Arena.Ok`.
-/
import Swayward.Tree.Structure

namespace Swayward

variable {I : Type} {g : Prop} {f : Split → Split} {i : ℕ}

open Forest Shares Positions List

/-! ## 1. Edits of one split -/

namespace Split.Sound

variable {s : Split}
variable {i : ℕ} {c : NodeId}

section

variable (h : s.Sound g)
include h

/-- An edit of layout or metadata only. -/
theorem of_eq {s' : Split} (hc : s'.children = s.children) (hp : s'.percents = s.percents) :
    s'.Sound g :=
  ⟨hc ▸ h.nodup, by rw [hc, hp]; exact h.lengths, fun hg => hp ▸ h.shares hg⟩

theorem of_percents {l : List ℚ} (hl : l.length = s.percents.length) (hs : g → IsShares l) :
    Sound g { s with percents := l } :=
  ⟨h.nodup, hl.trans h.lengths, hs⟩

theorem percent_around (hi : i < s.children.length) :
    ∃ A x B, s.percents = A ++ x :: B ∧ A.length = i := by
  rw [← h.lengths] at hi
  obtain ⟨A, B, e, hA⟩ := exists_around (List.getElem?_eq_getElem hi)
  exact ⟨A, _, B, e, hA⟩

theorem mem_eraseIdx (hi : s.children.idxOf? c = some i) (x : NodeId) :
    x ∈ s.children.eraseIdx i ↔ x ∈ s.children ∧ x ≠ c := by
  obtain ⟨A, B, e, rfl⟩ := exists_around_idxOf? hi
  have hn := h.nodup
  rw [e] at hn ⊢
  rw [eraseIdx_around]
  have := nodup_middle.mp hn
  grind

theorem mem_set (hi : s.children.idxOf? c = some i) (w x : NodeId) :
    x ∈ s.children.set i w ↔ (x ∈ s.children ∧ x ≠ c) ∨ x = w := by
  obtain ⟨A, B, e, rfl⟩ := exists_around_idxOf? hi
  have hn := h.nodup
  rw [e] at hn ⊢
  rw [set_around]
  have := nodup_middle.mp hn
  grind

/-- Removing a child; the other shares are rescaled. -/
theorem remove (hi : s.children.idxOf? c = some i) :
    Sound g { s with
      children := s.children.eraseIdx i
      percents := rescale (s.percents.eraseIdx i) } where
  nodup := h.nodup.eraseIdx i
  lengths := by
    obtain ⟨hlt, -⟩ := idxOf?_eq_some_iff.mp hi
    rw [length_rescale, length_eraseIdx_of_lt (h.lengths ▸ hlt),
      length_eraseIdx_of_lt hlt, h.lengths]
  shares := fun hg =>
    rescale_isShares fun x hx => (h.shares hg).1 x (mem_of_mem_eraseIdx hx)

end

theorem nodup_insertIdx {l : List NodeId} (h : l.Nodup) (hc : c ∉ l) (hi : i ≤ l.length) :
    (l.insertIdx i c).Nodup := by
  rw [(perm_insertIdx c l hi).nodup_iff]
  exact nodup_cons.mpr ⟨hc, h⟩

/-- A new child with an equal share. -/
theorem insertAt (h : s.Sound g) (hc : c ∉ s.children) (i : ℕ) :
    Sound g { s with
      children := s.children.insertIdx (min i s.children.length) c
      percents := insertShare s.percents (min i s.percents.length)
        (1 / ((s.children.length + 1 : ℕ) : ℚ)) } where
  nodup := nodup_insertIdx h.nodup hc (min_le_right _ _)
  lengths := by
    rw [length_insertShare (min_le_right _ _),
      length_insertIdx_of_le_length (min_le_right _ _), h.lengths]
  shares := fun hg => by
    refine insertShare_isShares (h.shares hg) (min_le_right _ _) (by positivity) ?_ ?_
    · intro hne
      have hpos : 0 < s.children.length := by
        rw [← h.lengths]
        exact length_pos_iff.mpr hne
      rw [div_lt_one (by positivity)]
      exact_mod_cast Nat.lt_add_of_pos_left hpos
    · intro hnil
      have : s.children.length = 0 := by rw [← h.lengths, hnil]; rfl
      simp [this]

/-- A new child that takes half of the share of `d`. -/
theorem insertHalf (h : s.Sound g) {d : NodeId} (hc : c ∉ s.children) {target : ℕ} {x : ℚ}
    (ht : s.children.idxOf? d = some target) (hx : s.percents[target]? = some x) (i : ℕ) :
    Sound g { s with
      children := s.children.insertIdx (min i s.children.length) c
      percents := halve s.percents target (min i s.children.length) x } where
  nodup := nodup_insertIdx h.nodup hc (min_le_right _ _)
  lengths := by
    rw [length_halve (h.lengths ▸ min_le_right _ _),
      length_insertIdx_of_le_length (min_le_right _ _), h.lengths]
  shares := fun hg => by
    obtain ⟨A, B, e, rfl⟩ := exists_around hx
    have hs := h.shares hg
    rw [e] at hs ⊢
    exact halve_isShares hs (by rw [← e, h.lengths]; exact min_le_right _ _)

/-- Refreshed shares, from any positive ones. -/
theorem refresh (h : s.Sound False) (hpos : g → ∀ x ∈ s.percents, 0 < x)
    (fresh : NodeId → Bool) :
    Sound g { s with percents := Shares.refresh fresh s.children s.percents } where
  nodup := h.nodup
  lengths := (length_refresh fresh h.lengths).trans h.lengths
  shares hg := refresh_isShares fresh s.children (hpos hg)

/-- One share overwritten: no more than lengths and a positive list can be said. -/
theorem setPercent (h : s.Sound g) {x : ℚ} (hx : g → 0 < x) (i : ℕ) :
    Sound False { s with percents := s.percents.set i x } ∧
      (g → ∀ y ∈ s.percents.set i x, 0 < y) := by
  refine ⟨⟨h.nodup, by simpa using h.lengths, False.elim⟩, fun hg y hy => ?_⟩
  rcases mem_or_eq_of_mem_set hy with hy | rfl
  · exact (h.shares hg).1 y hy
  · exact hx hg

theorem weaken (h : s.Sound g) : s.Sound False := ⟨h.nodup, h.lengths, False.elim⟩

/-- Another child in the place of `c`, with its share. -/
theorem set (h : s.Sound g) {w : NodeId} (hw : w ∉ s.children) (i : ℕ) :
    Sound g { s with children := s.children.set i w } where
  nodup := by
    by_cases hi : i < s.children.length
    · obtain ⟨A, B, e, rfl⟩ := exists_around (List.getElem?_eq_getElem hi)
      have hn := h.nodup
      rw [e] at hn hw ⊢
      rw [set_around]
      have := nodup_middle.mp hn
      rw [nodup_middle]
      grind
    · rw [set_eq_of_length_le (by omega)]
      exact h.nodup
  lengths := by simpa using h.lengths
  shares := h.shares

end Split.Sound

namespace Arena

variable {D E : Set NodeId} {r : NodeId → ℕ} {a : Arena I}
variable {a' : Arena I} {p c : NodeId} {s : Split}

/-- The two arenas hold the same nodes and the same tiles; links and splits may differ. -/
structure SameNodes (a a' : Arena I) : Prop where
  tile : ∀ n, a'.tile n = a.tile n
  contains : ∀ n, a'.contains n = a.contains n
  root : a'.root = a.root
  counter : a'.counter = a.counter

theorem SameNodes.trans {b c : Arena I} (h : SameNodes a b) (h' : SameNodes b c) :
    SameNodes a c where
  tile n := (h'.tile n).trans (h.tile n)
  contains n := (h'.contains n).trans (h.contains n)
  root := h'.root.trans h.root
  counter := h'.counter.trans h.counter

theorem sameNodes_modifySplit (p : NodeId) (f : Split → Split) : SameNodes a (a.modifySplit p f) :=
  ⟨by simp, by simp, rfl, rfl⟩

theorem sameNodes_setParent (c : NodeId) (p : Option NodeId) : SameNodes a (a.setParent c p) :=
  ⟨by simp, by simp, rfl, rfl⟩

/-- Nodes that are splits stay splits. -/
theorem SameNodes.splitAt (h : SameNodes a a') (hs : a.splitAt p = some s) :
    ∃ s', a'.splitAt p = some s' := by
  have hc : a'.contains p = true := by rw [h.contains, contains_of_splitAt hs]
  rcases (a'.contains_iff p).mp hc with hs' | ⟨tile, ht⟩
  · exact hs'
  · rw [h.tile, tile_of_splitAt hs] at ht
    cases ht

/-! ## 2. Taking a node out of its list -/

theorem splitAt_removeChild (hs : a.splitAt p = some s) (hi : s.children.idxOf? c = some i)
    (q : NodeId) :
    (a.removeChild p c).splitAt q =
      if q = p then
        some { s with
          children := s.children.eraseIdx i
          percents := rescale (s.percents.eraseIdx i) }
      else a.splitAt q := by
  unfold removeChild
  rw [splitAt_modifySplit_of hs]
  simp only [hi]

theorem Ok.removeChild (h : Ok g D E r a) (hc : c ∈ a.children p) :
    Ok g (insert c D) (insert p E) r (a.removeChild p c) := by
  obtain ⟨s, hs, hcs⟩ := splitAt_of_mem_children hc
  obtain ⟨i, hi⟩ := exists_idxOf? hcs
  have hsound := h.sound hs
  exact h.unlink hs (hsound.mem_eraseIdx hi) hcs (hsound.remove hi)
    (splitAt_removeChild hs hi) (by simp [Arena.removeChild]) (by simp [Arena.removeChild]) rfl rfl

/-- The parent link of an unlisted node is free. -/
theorem Ok.setParent (h : Ok g D E r a) (hc : c ∈ D) (p : Option NodeId) :
    Ok g D E r (a.setParent c p) := by
  have hpar : ∀ n, n ≠ c → (a.setParent c p).parentOf n = a.parentOf n := by
    intro n hn
    rw [parentOf_setParent]
    simp [hn]
  have hroot : a.root ≠ c := fun e => h.root_linked (e ▸ hc)
  constructor
  · simpa using h.root_split
  · rw [root_setParent, hpar _ hroot]
    exact h.root_parent
  · exact h.root_linked
  · intro q x hx
    rw [children_setParent] at hx
    have hxD := (h.kid hx).2
    rw [hpar x fun e => hxD (e ▸ hc)]
    exact h.kid hx
  · simpa using @h.home
  · intro q x hx
    rw [children_setParent] at hx
    exact h.ranked q x hx
  · simpa using @h.sound
  · simpa using @h.fresh
  · simpa using @h.full

/-- `b` is `a` with `id` taken out of the list of its parent `q`. -/
structure Unlinked (g : Prop) (D E : Set NodeId) (r : NodeId → ℕ) (a : Arena I) (id q : NodeId)
    (b : Arena I) : Prop where
  parent : a.parentOf id = some q
  same : SameNodes a b
  mem : ∀ p x, x ∈ b.children p ↔ x ∈ a.children p ∧ x ≠ id
  parentOf : ∀ n, n ≠ id → b.parentOf n = a.parentOf n
  ok : Ok g (insert id D) (insert q E) r b

theorem Ok.unlinked_removeChild (h : Ok g ∅ E r a) {id q : NodeId} (hq : a.parentOf id = some q) :
    Unlinked g ∅ E r a id q (a.removeChild q id) where
  parent := hq
  same := sameNodes_modifySplit _ _
  mem p x := by
    obtain ⟨s, hs, hid⟩ := h.split_of_parentOf hq
    obtain ⟨i, hi⟩ := exists_idxOf? hid
    rw [children_of_splitAt_eq (splitAt_removeChild hs hi)]
    by_cases e : p = q
    · subst e
      simp only [if_true, (h.sound hs).mem_eraseIdx hi, children_of_splitAt hs]
    simp only [e, if_false]
    refine ⟨fun hx => ⟨hx, ?_⟩, fun hx => hx.1⟩
    rintro rfl
    exact e (h.uniqueParent _ _ _ hx (h.mem_children hq))
  parentOf n _ := by simp [Arena.removeChild]
  ok := h.removeChild (h.mem_children hq)

/-- **Detaching a linked node.** -/
theorem Ok.unlinked_detachSubtreeOnly (h : Ok g ∅ E r a) {id q : NodeId} {b : Arena I}
    (e : a.detachSubtreeOnly id = some (b, q)) : Unlinked g ∅ E r a id q b := by
  unfold Arena.detachSubtreeOnly at e
  obtain ⟨q', hq, e⟩ := Option.map_eq_some_iff.mp e
  cases e
  have hu := h.unlinked_removeChild hq
  refine ⟨hq, hu.same.trans (sameNodes_setParent _ _), ?_, ?_,
    hu.ok.setParent (Set.mem_insert _ _) none⟩
  · intro p x
    rw [children_setParent]
    exact hu.mem p x
  · intro n hn
    rw [parentOf_setParent]
    simpa [hn] using hu.parentOf n hn

/-! ## 3. Putting an unlisted node into a list -/

/-- `a'` is `a` with `c` put into the list of `p`, whose split `s` becomes `s'`. -/
structure Puts (a : Arena I) (p c : NodeId) (s s' : Split) (a' : Arena I) : Prop where
  split : a.splitAt p = some s
  node : a.contains c = true
  mem : ∀ x, x ∈ s'.children ↔ x ∈ s.children ∨ x = c
  splitAt : ∀ q, a'.splitAt q = if q = p then some s' else a.splitAt q
  parentOf : ∀ n, a'.parentOf n = if n = c then some p else a.parentOf n
  tile : ∀ n, a'.tile n = a.tile n
  contains : ∀ n, a'.contains n = a.contains n
  root : a'.root = a.root
  counter : a'.counter = a.counter

theorem puts_modifySplit (hs : a.splitAt p = some s) (hc : a.contains c = true)
    (hmem : ∀ x, x ∈ (f s).children ↔ x ∈ s.children ∨ x = c) :
    Puts a p c s (f s) ((a.modifySplit p f).setParent c (some p)) where
  split := hs
  node := hc
  mem := hmem
  splitAt q := by rw [splitAt_setParent, splitAt_modifySplit_of hs]
  parentOf n := by rw [parentOf_setParent]; simp [hc]
  tile n := by simp
  contains n := by simp
  root := rfl
  counter := rfl

namespace Puts

variable {p c : NodeId} {s s' : Split} {a' : Arena I}

section

variable (hp : Puts a p c s s' a')
include hp

theorem sameNodes : SameNodes a a' :=
  ⟨hp.tile, hp.contains, hp.root, hp.counter⟩

theorem mem_children (q x : NodeId) : x ∈ a'.children q ↔ x ∈ a.children q ∨ (q = p ∧ x = c) := by
  rw [children_of_splitAt_eq hp.splitAt]
  by_cases e : q = p
  · subst e
    simp [hp.mem, children_of_splitAt hp.split]
  · simp [e]

/-- A further edit of the split that keeps its members. -/
theorem modifySplit (hf : ∀ x, x ∈ (f s').children ↔ x ∈ s'.children) :
    Puts a p c s (f s') (a'.modifySplit p f) where
  split := hp.split
  node := hp.node
  mem x := (hf x).trans (hp.mem x)
  splitAt q := by
    have hs' : a'.splitAt p = some s' := by rw [hp.splitAt]; simp
    rw [splitAt_modifySplit_of hs', hp.splitAt]
    by_cases e : q = p <;> simp [e]
  parentOf n := by rw [parentOf_modifySplit, hp.parentOf]
  tile n := by rw [tile_modifySplit, hp.tile]
  contains n := by rw [contains_modifySplit, hp.contains]
  root := hp.root
  counter := hp.counter

/-- The node goes up: the old ranks still grow. -/
theorem ranked_up (h : Ok g D E r a) (hr : r p < r c) : Ranked a'.children r := by
  intro q x hx
  rcases (hp.mem_children q x).mp hx with hx | ⟨rfl, rfl⟩
  · exact h.ranked q x hx
  · exact hr

/-- The node goes anywhere outside its own subtree. -/
theorem ranked_graft (h : Ok g D E r a) (hD : c ∈ D) (hbelow : ¬ Below a.children c p) :
    Ranked a'.children (graftRank a.children r c p) :=
  h.ranked.graft h.uniqueParent (fun _ hq => (h.kid hq).2 hD) hbelow
    fun q x hx => (hp.mem_children q x).mp hx

end

end Puts

/-- **Putting an unlisted node into a list.** -/
theorem Ok.puts {s' : Split} {r' : NodeId → ℕ} (h : Ok g D E r a) (hp : Puts a p c s s' a')
    (hD : c ∈ D) (hsound : s.Sound g → c ∉ s.children → s'.Sound g) (hr : Ranked a'.children r') :
    Ok g (D \ {c}) (E \ {p}) r' a' := by
  have hc : c ∉ s.children := fun hc =>
    (h.kid (children_of_splitAt hp.split ▸ hc : c ∈ a.children p)).2 hD
  have h' : Ok g (D \ {x | x ∈ [c]}) (E \ {p}) r' a' :=
    h.link hp.split (by simpa using ⟨hD, hp.node⟩) (by simpa using hp.mem)
      (hsound (h.sound hp.split) hc) hp.splitAt (by simpa using hp.parentOf) hp.contains hp.root
      hp.counter hr fun q hq hq' => ⟨by simpa [hq] using hq', by simp⟩
  simpa using h'

theorem mem_insertIdx_min {l : List NodeId} (i : ℕ) (x : NodeId) :
    x ∈ l.insertIdx (min i l.length) c ↔ x ∈ l ∨ x = c := by
  rw [mem_insertIdx (min_le_right _ _)]
  exact or_comm

/-- What `insertChildAt` does to the split. -/
def insertedAt (s : Split) (c : NodeId) (i : ℕ) : Split :=
  { s with
    children := s.children.insertIdx (min i s.children.length) c
    percents := insertShare s.percents (min i s.percents.length)
      (1 / ((s.children.length + 1 : ℕ) : ℚ)) }

theorem puts_insertChildAt (hs : a.splitAt p = some s) (hc : a.contains c = true) (i : ℕ) :
    Puts a p c s (insertedAt s c i) (a.insertChildAt p c i) := by
  have hp : a.isSplit p = true := (a.isSplit_eq_true p).mpr ⟨s, hs⟩
  unfold insertChildAt
  rw [hc, hp]
  exact puts_modifySplit (f := fun s => insertedAt s c i) hs hc fun x => mem_insertIdx_min i x

theorem puts_insertChild (hs : a.splitAt p = some s) (hc : a.contains c = true)
    (after : Option NodeId) :
    ∃ i, Puts a p c s (insertedAt s c i) (a.insertChild p c after) := by
  unfold insertChild
  rw [hs]
  exact ⟨_, puts_insertChildAt hs hc _⟩

/-- What `insertExistingChild` does to the split. -/
def insertedHalf (s : Split) (c : NodeId) (i target : ℕ) (x : ℚ) : Split :=
  { s with
    children := s.children.insertIdx (min i s.children.length) c
    percents := halve s.percents target (min i s.children.length) x }

theorem puts_insertExistingChild {d : NodeId} (hs : a.splitAt p = some s) (hsound : s.Sound g)
    (hc : a.contains c = true) (hd : d ∈ s.children) (i : ℕ) :
    ∃ target x, s.children.idxOf? d = some target ∧ s.percents[target]? = some x ∧
      Puts a p c s (insertedHalf s c i target x) (a.insertExistingChild p c i d) := by
  obtain ⟨target, ht⟩ := exists_idxOf? hd
  obtain ⟨hlt, -⟩ := idxOf?_eq_some_iff.mp ht
  obtain ⟨x, hx⟩ : ∃ x, s.percents[target]? = some x :=
    ⟨_, List.getElem?_eq_getElem (hsound.lengths ▸ hlt)⟩
  refine ⟨target, x, ht, hx, ?_⟩
  unfold insertExistingChild
  simp only [hs, ht, hx, hc, if_true]
  exact puts_modifySplit (f := fun s' =>
    { s' with
      children := s'.children.insertIdx (min i s.children.length) c
      percents := halve s'.percents target (min i s.children.length) x }) hs hc
    fun x => mem_insertIdx_min i x

/-! ## 4. Moving a node from one list to another -/

/-- `a'` is `a` with `id` moved from the list of `q` to the list of `p`. -/
structure Relinked (g : Prop) (D E : Set NodeId) (r : NodeId → ℕ) (a : Arena I)
    (id q p : NodeId) (a' : Arena I) : Prop where
  parent : a.parentOf id = some q
  same : SameNodes a a'
  parentOf : ∀ n, a'.parentOf n = if n = id then some p else a.parentOf n
  anywhere : ¬ Below a.children id p → ∃ r', Ok g D (insert q E) r' a' ∧
    ∀ n, r' n = r n ∨ Below a.children id n ∧ r' n = r n + (r p + 1) - r id
  upward : r p < r id → Ok g D (insert q E) r a'

theorem Unlinked.relinked {id q : NodeId} {b : Arena I} {s' : Split}
    (hu : Unlinked g ∅ E r a id q b) (hp : Puts b p id s s' a')
    (hsound : s.Sound g → id ∉ s.children → s'.Sound g) : Relinked g ∅ E r a id q p a' := by
  have hid : id ∈ insert id (∅ : Set NodeId) := Set.mem_insert _ _
  have hDid : insert id (∅ : Set NodeId) \ {id} = ∅ := by simp
  have hE : (insert q E) \ {p} ⊆ insert q E := Set.sdiff_subset
  constructor
  · exact hu.parent
  · exact hu.same.trans hp.sameNodes
  · intro n
    rw [hp.parentOf]
    by_cases e : n = id
    · simp [e]
    · simp only [e, if_false]
      exact hu.parentOf n e
  · intro hbelow
    have hmono : ∀ {n}, Below b.children id n → Below a.children id n := fun hn =>
      hn.mono fun y x hx => ((hu.mem y x).mp hx).1
    have hput := hu.ok.puts hp hid hsound (hp.ranked_graft hu.ok hid fun hn => hbelow (hmono hn))
    rw [hDid] at hput
    refine ⟨_, hput.mono hE, fun n => ?_⟩
    by_cases hn : Below b.children id n
    · exact .inr ⟨hmono hn, graftRank_of_below hn⟩
    · exact .inl (graftRank_of_not_below hn)
  · intro hr
    have hput := hu.ok.puts hp hid hsound (hp.ranked_up hu.ok hr)
    rw [hDid] at hput
    exact hput.mono hE

/-! ## 5. New splits -/

theorem Ok.counter_fresh (h : Ok g D E r a) : a.contains a.counter = false := by
  by_contra hc
  exact (h.fresh (by simpa using hc)).ne rfl

theorem Ok.ne_counter (h : Ok g D E r a) {n : NodeId} (hn : a.contains n = true) : n ≠ a.counter :=
  (h.fresh hn).ne

theorem get_alloc (node : Node I) (n : NodeId) :
    (a.alloc node).1.get n = if n = a.counter then some node else a.get n :=
  a.get_put a.counter n node

@[simp] theorem root_alloc (node : Node I) : (a.alloc node).1.root = a.root := rfl

@[simp] theorem id_alloc (node : Node I) : (a.alloc node).2 = a.counter := rfl

theorem contains_alloc (node : Node I) (n : NodeId) :
    (a.alloc node).1.contains n = true ↔ n = a.counter ∨ a.contains n = true := by
  unfold contains
  rw [get_alloc]
  by_cases e : n = a.counter <;> simp [e]

theorem parentOf_alloc (node : Node I) (n : NodeId) :
    (a.alloc node).1.parentOf n = if n = a.counter then node.parent else a.parentOf n := by
  unfold parentOf
  rw [get_alloc]
  by_cases e : n = a.counter <;> simp [e]

theorem splitAt_alloc (p : Option NodeId) (s : Split) (n : NodeId) :
    (a.alloc ⟨p, .split s⟩).1.splitAt n = if n = a.counter then some s else a.splitAt n := by
  unfold splitAt
  rw [get_alloc]
  by_cases e : n = a.counter <;> simp [e]

theorem tile_alloc_split (p : Option NodeId) (s : Split) (hw : a.contains a.counter = false)
    (n : NodeId) : (a.alloc ⟨p, .split s⟩).1.tile n = a.tile n := by
  unfold Arena.tile
  rw [get_alloc]
  by_cases e : n = a.counter
  · have : a.get n = none := by simpa [contains, e] using hw
    simp [e, e ▸ this]
  · simp [e]

/-- `a'` is `a` with a new split `sw`, listed by `p`, that takes over the listed nodes
    `sw.children`. -/
structure Wraps (a : Arena I) (p : NodeId) (s s' sw : Split) (a' : Arena I) : Prop where
  split : a.splitAt p = some s
  mem : ∀ x, x ∈ s'.children ↔ (x ∈ s.children ∧ x ∉ sw.children) ∨ x = a.counter
  splitAt : ∀ q, a'.splitAt q =
    if q = a.counter then some sw else if q = p then some s' else a.splitAt q
  parentOf : ∀ n, a'.parentOf n =
    if n = a.counter then some p else if n ∈ sw.children then some a.counter else a.parentOf n
  contains : ∀ n, a'.contains n = true ↔ n = a.counter ∨ a.contains n = true
  tile : ∀ n, a'.tile n = a.tile n
  root : a'.root = a.root
  counter : a'.counter = a.counter + 1

/-- **A new split takes over nodes of one list, and unlisted ones.** -/
theorem Ok.wraps (h : Ok g D E r a) {s' sw : Split} (hw : Wraps a p s s' sw a')
    (hne : g → sw.children ≠ [])
    (hK : ∀ x ∈ sw.children, a.contains x = true ∧ (x ∈ s.children ∨ x ∈ D) ∧ r p < r x)
    (hsound : s'.Sound g) (hsound' : sw.Sound g) :
    Ok g ((D \ {x | x ∈ sw.children}) \ {a.counter}) (E \ {p})
      (wrapRank a.children r sw.children p a.counter) a' := by
  have hfresh := h.counter_fresh
  have hpw := h.ne_counter (contains_of_splitAt hw.split)
  refine h.wrap hw.split hfresh (by rw [hw.counter]; exact Nat.lt_succ_self _)
    (by rw [hw.counter]; exact Nat.le_succ _) hw.root ?_ hne hw.mem hsound hsound' hw.splitAt
    hw.parentOf hw.contains ?_
  · intro x hx
    obtain ⟨hx1, hx2, hx3⟩ := hK x hx
    exact ⟨hx1, hx2.imp_right fun hD => ⟨hD, fun e => hx3.ne (congrArg r e).symm⟩⟩
  · refine h.ranked.wrap hpw (fun c hc => ⟨(hK c hc).2.2, h.ne_counter (hK c hc).1⟩) fun q x hx => ?_
    -- what is listed after the edit
    unfold children at hx
    rw [hw.splitAt] at hx
    by_cases eq : q = a.counter
    · simp only [eq, if_true] at hx
      exact .inr (.inl ⟨eq, hx⟩)
    by_cases ep : q = p
    · simp only [ep, hpw, if_false, if_true, hw.mem] at hx
      rcases hx with ⟨hx, -⟩ | hx
      · have hx' : x ∈ a.children q := by rwa [ep, children_of_splitAt hw.split]
        exact .inr (.inr ⟨eq, h.ne_counter (h.contains_kid hx'), hx'⟩)
      · exact .inl ⟨ep, hx⟩
    · simp only [eq, ep, if_false] at hx
      exact .inr (.inr ⟨eq, h.ne_counter (h.contains_kid hx), hx⟩)

end Arena

namespace TilingTree

open Arena

variable {D E : Set NodeId} {r : NodeId → ℕ} {a a' : Arena I} {id q p : NodeId}
variable {i : ℕ} {s : Split} {l : List NodeId} {c d : NodeId}

theorem relinked_relinkAt (h : Ok g ∅ E r a) (hp : a.isSplit p = true)
    (e : relinkAt a id p i = some (a', q)) : Relinked g ∅ E r a id q p a' := by
  obtain ⟨⟨b, q'⟩, hb, e⟩ := Option.map_eq_some_iff.mp e
  cases e
  have hu := h.unlinked_detachSubtreeOnly hb
  obtain ⟨s, hs⟩ := (a.isSplit_eq_true p).mp hp
  obtain ⟨s', hs'⟩ := hu.same.splitAt hs
  have hid : b.contains id = true := by rw [hu.same.contains, contains_of_parentOf hu.parent]
  exact hu.relinked (puts_insertChildAt hs' hid i) fun hsound hc => hsound.insertAt hc i

theorem relinked_relinkAfter (h : Ok g ∅ E r a) (hp : a.isSplit p = true) {after : Option NodeId}
    (e : relinkAfter a id p after = some (a', q)) : Relinked g ∅ E r a id q p a' := by
  obtain ⟨⟨b, q'⟩, hb, e⟩ := Option.map_eq_some_iff.mp e
  cases e
  have hu := h.unlinked_detachSubtreeOnly hb
  obtain ⟨s, hs⟩ := (a.isSplit_eq_true p).mp hp
  obtain ⟨s', hs'⟩ := hu.same.splitAt hs
  have hid : b.contains id = true := by rw [hu.same.contains, contains_of_parentOf hu.parent]
  obtain ⟨i, hput⟩ := puts_insertChild hs' hid after
  exact hu.relinked hput fun hsound hc => hsound.insertAt hc i

/-- The edit of `expel`: out of the parent's list, into the grandparent's beside the parent. -/
theorem relinked_expel (h : Ok g ∅ E r a) (hq : a.parentOf id = some q) (hqp : q ∈ a.children p)
    (i : ℕ) : Relinked g ∅ E r a id q p ((a.removeChild q id).insertExistingChild p id i q) := by
  have hu := h.unlinked_removeChild hq
  have hne : q ≠ id := fun e => (h.ranked q id (h.mem_children hq)).ne (congrArg r e)
  obtain ⟨s, hs, hqs⟩ := splitAt_of_mem_children ((hu.mem p q).mpr ⟨hqp, hne⟩)
  have hid : (a.removeChild q id).contains id = true := by
    rw [hu.same.contains, contains_of_parentOf hq]
  obtain ⟨target, x, ht, hx, hput⟩ := puts_insertExistingChild hs (hu.ok.sound hs) hid hqs i
  exact hu.relinked hput fun hsound hc => hsound.insertHalf hc ht hx i

/-- The edit of `promoteToBoundary`: to the end of `p`, beside the child `boundary`. -/
theorem relinked_promoteArena (h : Ok g ∅ E r a) {boundary : NodeId} {index : ℕ}
    {share : Option ℚ} (hb : boundary ∈ a.children p) (hne : boundary ≠ id)
    (hshare : g → ∀ x, share = some x → 0 < x)
    (e : promoteArena a id p boundary index share = some (a', q)) :
    Relinked g ∅ E r a id q p a' := by
  obtain ⟨⟨b, q'⟩, hd, e⟩ := Option.map_eq_some_iff.mp e
  have hu := h.unlinked_detachSubtreeOnly hd
  obtain ⟨s, hs, hbs⟩ := splitAt_of_mem_children ((hu.mem p boundary).mpr ⟨hb, hne⟩)
  have hid : b.contains id = true := by rw [hu.same.contains, contains_of_parentOf hu.parent]
  obtain ⟨target, x, ht, hx, hput⟩ := puts_insertExistingChild hs (hu.ok.sound hs) hid hbs index
  cases share with
  | none =>
    cases e
    refine hu.relinked (hput.modifySplit fun x => Iff.rfl) fun hsound hc => ?_
    have hs' := hsound.insertHalf hc ht hx index
    exact hs'.weaken.refresh (fun hg => (hs'.shares hg).1) _
  | some share =>
    cases e
    refine hu.relinked ((hput.modifySplit fun x => ?_).modifySplit fun x => Iff.rfl)
      fun hsound hc => ?_
    · split <;> rfl
    have hs' := hsound.insertHalf hc ht hx index
    split
    · rename_i i hi
      obtain ⟨hw, hpos⟩ := hs'.setPercent (fun hg => hshare hg _ rfl) i
      exact hw.refresh hpos _
    · exact hs'.weaken.refresh (fun hg => (hs'.shares hg).1) _

/-! ## 6. The wraps of the code -/

theorem parentOf_adopt (ids : List NodeId) (w n : NodeId) (hids : ∀ x ∈ ids, a.contains x = true) :
    (adopt a ids w).parentOf n = if n ∈ ids then some w else a.parentOf n := by
  induction ids generalizing a with
  | nil => simp [adopt]
  | cons x ids ih =>
    have hx : a.contains x = true := hids x (by simp)
    have ih := ih (a := a.setParent x (some w)) fun y hy => by
      simpa using hids y (mem_cons_of_mem _ hy)
    unfold adopt at ih ⊢
    rw [foldl_cons, ih, parentOf_setParent]
    by_cases hn : n ∈ ids
    · simp [hn]
    · by_cases e : n = x <;> simp [hn, e, hx]

theorem sameNodes_adopt (ids : List NodeId) (w : NodeId) : SameNodes a (adopt a ids w) := by
  induction ids generalizing a with
  | nil => exact ⟨fun _ => rfl, fun _ => rfl, rfl, rfl⟩
  | cons x ids ih => exact (sameNodes_setParent x (some w)).trans ih

theorem splitAt_adopt (ids : List NodeId) (w n : NodeId) :
    (adopt a ids w).splitAt n = a.splitAt n := by
  induction ids generalizing a with
  | nil => rfl
  | cons x ids ih => exact (ih (a := a.setParent x (some w))).trans (by simp)

section

variable (h : Ok g D E r a)
include h

/-- The wraps of the code allocate the new split, edit the split of `p` and reparent the nodes taken
    over, in one order or another. -/
theorem wraps_alloc {sw : Split}
    (hs : a.splitAt p = some s) (hK : ∀ x ∈ sw.children, a.contains x = true)
    (hmem : ∀ x, x ∈ (f s).children ↔ (x ∈ s.children ∧ x ∉ sw.children) ∨ x = a.counter)
    (hsame : SameNodes (a.alloc ⟨some p, .split sw⟩).1 a')
    (hsplit : ∀ q, a'.splitAt q = ((a.alloc ⟨some p, .split sw⟩).1.modifySplit p f).splitAt q)
    (hpar : ∀ n, a'.parentOf n =
      if n ∈ sw.children then some a.counter else (a.alloc ⟨some p, .split sw⟩).1.parentOf n) :
    Wraps a p s (f s) sw a' := by
  have hfresh := h.counter_fresh
  have hpw := h.ne_counter (contains_of_splitAt hs)
  have hs' : (a.alloc ⟨some p, .split sw⟩).1.splitAt p = some s := by
    rw [splitAt_alloc]
    simp [hpw, hs]
  constructor
  · exact hs
  · exact hmem
  · intro q
    rw [hsplit, splitAt_modifySplit_of hs', splitAt_alloc]
    by_cases e : q = p <;> simp [e, hpw]
  · intro n
    rw [hpar, parentOf_alloc]
    by_cases e : n = a.counter
    · have : n ∉ sw.children := fun hn => h.ne_counter (hK n hn) e
      simp [e, e ▸ this]
    · simp [e]
  · intro n
    rw [hsame.contains, contains_alloc]
  · intro n
    rw [hsame.tile, tile_alloc_split _ _ hfresh]
  · exact hsame.root
  · exact hsame.counter

theorem wraps_wrapArena (hs : a.splitAt p = some s) (hi : s.children.idxOf? id = some i)
    (layout : Layout) :
    Wraps a p s { s with children := s.children.set i a.counter }
      { layout := layout, children := [id], percents := [1] } (wrapArena a id p i layout).1 := by
  have hid : a.contains id = true := h.contains_kid (children_of_splitAt hs ▸ mem_of_idxOf? hi)
  refine wraps_alloc h (f := fun s => { s with children := s.children.set i a.counter }) hs
    (by simpa using hid) (fun x => by simpa using (h.sound hs).mem_set hi a.counter x)
    ((sameNodes_modifySplit _ _).trans (sameNodes_setParent _ _))
    (fun q => splitAt_setParent _ _ _ _) fun n => ?_
  unfold wrapArena
  rw [parentOf_setParent, contains_modifySplit, parentOf_modifySplit,
    (contains_alloc _ _).mpr (.inr hid)]
  simp only [and_true, mem_singleton]
  rfl

/-- The arena in which a new split holds all children of the root. -/
theorem wraps_wrapRootArena (hs : a.splitAt a.root = some s) (layout : Layout) :
    Wraps a a.root s { s with children := [a.counter], percents := [1] }
      { layout := layout, children := s.children, percents := s.percents
        info := { previousLayout := if s.layout.isSplit then some s.layout else none } }
      (wrapRootArena a s layout).1 := by
  have hK : ∀ x ∈ s.children, a.contains x = true := fun x hx =>
    h.contains_kid (children_of_splitAt hs ▸ hx)
  refine wraps_alloc h (f := fun s => { s with children := [a.counter], percents := [1] }) hs hK
    (fun x => by simp) ((sameNodes_adopt _ _).trans (sameNodes_modifySplit _ _))
    (fun q => ?_) fun n => ?_
  · unfold wrapRootArena
    rw [splitAt_modifySplit, splitAt_modifySplit, splitAt_adopt, splitAt_adopt,
      (sameNodes_adopt _ _).root]
    rfl
  · unfold wrapRootArena
    rw [parentOf_modifySplit, parentOf_adopt]
    · rfl
    · exact fun x hx => (contains_alloc _ _).mpr (.inr (hK x hx))

omit h in
theorem mem_pair_iff {x y z : NodeId} {right : Bool} :
    (x ∈ if right then [y, z] else [z, y]) ↔ x = z ∨ x = y := by
  cases right <;> simp [or_comm]

/-- A new split around `sibling`, listed by `p`, and the unlisted `id`. -/
theorem wraps_wrapPairArena {sibling : NodeId} (hs : a.splitAt p = some s)
    (hi : s.children.idxOf? sibling = some i) (hD : id ∈ D) (hid : a.contains id = true)
    (right : Bool) :
    Wraps a p s { s with children := s.children.set i a.counter }
      { layout := .splitV, children := if right then [sibling, id] else [id, sibling]
        percents := [1 / 2, 1 / 2] } (wrapPairArena a p sibling id i right) := by
  have hsib : a.contains sibling = true := h.contains_kid (children_of_splitAt hs ▸ mem_of_idxOf? hi)
  have hids : id ∉ s.children := fun hx =>
    (h.kid (children_of_splitAt hs ▸ hx : id ∈ a.children p)).2 hD
  refine wraps_alloc h (f := fun s => { s with children := s.children.set i a.counter }) hs
    (fun x hx => ?_) (fun x => ?_) (((sameNodes_modifySplit _ _).trans
      (sameNodes_setParent _ _)).trans (sameNodes_setParent _ _)) (fun q => ?_) fun n => ?_
  · rcases mem_pair_iff.mp hx with rfl | rfl
    · exact hid
    · exact hsib
  · rw [(h.sound hs).mem_set hi, mem_pair_iff]
    refine or_congr_left ⟨fun hx => ⟨hx.1, ?_⟩, fun hx => ⟨hx.1, fun e => hx.2 (.inr e)⟩⟩
    rintro (rfl | e)
    · exact hids hx.1
    · exact hx.2 e
  · unfold wrapPairArena
    rw [splitAt_setParent, splitAt_setParent]
    rfl
  · have hc : ∀ {x node}, a.contains x = true → (a.alloc node).1.contains x = true := fun hx =>
      (contains_alloc _ _).mpr (.inr hx)
    unfold wrapPairArena
    rw [parentOf_setParent, parentOf_setParent, parentOf_modifySplit, contains_setParent,
      contains_modifySplit, contains_modifySplit, hc hid, hc hsib]
    simp only [and_true, mem_pair_iff]
    by_cases e : n = id
    · simp only [e, true_or, if_true]; rfl
    · simp only [e, false_or, if_false]; rfl

/-- The arena in which a new split holds the children of the root, and the unlisted `id` stands
    beside it: as if `id` had been put into the root first. -/
theorem wraps_wrapRootForDirectionArena (hs : a.splitAt a.root = some s) (hD : id ∈ D)
    (hid : a.contains id = true) (direction : Direction) :
    Wraps (a.insertChildAt a.root id 0) a.root (insertedAt s id 0)
      { layout := direction.axis
        children := if direction.isBackwards then [id, a.counter] else [a.counter, id]
        percents := [1 / 2, 1 / 2]
        info := s.info } { s with info := {} } (wrapRootForDirectionArena a s id direction).1 := by
  have hput := puts_insertChildAt hs hid 0
  have hfresh := h.counter_fresh
  have hK : ∀ x ∈ s.children, a.contains x = true := fun x hx =>
    h.contains_kid (children_of_splitAt hs ▸ hx)
  have hids : id ∉ s.children := fun hx =>
    (h.kid (children_of_splitAt hs ▸ hx : id ∈ a.children a.root)).2 hD
  have hrw := h.ne_counter (contains_of_splitAt hs)
  have hidw := h.ne_counter hid
  have hroot : ∀ {b : Arena I} {ids w}, (adopt b ids w).root = b.root := (sameNodes_adopt _ _).root
  have hsplit : ∀ q sw, (a.alloc ⟨some a.root, .split sw⟩).1.splitAt q =
      if q = a.counter then some sw else a.splitAt q := fun q sw => splitAt_alloc _ _ _
  constructor
  · rw [hput.splitAt]
    simp
  · intro x
    rw [hput.mem, hput.counter, mem_pair_iff]
    grind
  · intro q
    unfold wrapRootForDirectionArena
    rw [splitAt_modifySplit, splitAt_setParent, splitAt_setParent, splitAt_adopt, splitAt_adopt,
      hsplit, hsplit, hput.splitAt, hput.counter]
    by_cases e : q = a.root
    · simp [e, hrw, hs, hroot]
    · simp [e, hroot]
  · intro n
    unfold wrapRootForDirectionArena
    rw [parentOf_modifySplit, parentOf_setParent, (sameNodes_adopt _ _).contains, parentOf_adopt,
      parentOf_alloc, (contains_alloc _ _).mpr (.inr hid), hput.parentOf, hput.counter]
    · by_cases e : n = id
      · simp [e, hids, hidw]
      · have : n = a.counter → n ∉ s.children := fun ew hn => h.ne_counter (hK n hn) ew
        by_cases ew : n = a.counter
        · simp [ew, hidw.symm, ew ▸ this ew]
        · simp [e, ew]
    · exact fun x hx => (contains_alloc _ _).mpr (.inr (hK x hx))
  · intro n
    unfold wrapRootForDirectionArena
    rw [contains_modifySplit, contains_setParent, (sameNodes_adopt _ _).contains, contains_alloc,
      hput.counter, hput.contains]
  · intro n
    unfold wrapRootForDirectionArena
    rw [tile_modifySplit, tile_setParent, (sameNodes_adopt _ _).tile,
      tile_alloc_split _ _ hfresh, hput.tile]
  · rw [hput.root]
    exact hroot
  · rw [hput.counter]
    exact (sameNodes_adopt _ _).counter

end

/-! ## 7. Swapping -/

theorem sameNodes_swapArena (first firstParent : NodeId) (i : ℕ) (second secondParent : NodeId)
    (j : ℕ) : SameNodes a (swapArena a first firstParent i second secondParent j) :=
  (((sameNodes_modifySplit _ _).trans (sameNodes_modifySplit _ _)).trans
    (sameNodes_setParent _ _)).trans (sameNodes_setParent _ _)

theorem map_swap_of_notMem (hc : c ∉ l) (hd : d ∉ l) : l.map (Equiv.swap c d) = l := by
  refine (map_congr_left fun x hx => ?_).trans (map_id l)
  exact Equiv.swap_apply_of_ne_of_ne (fun e => hc (e ▸ hx)) fun e => hd (e ▸ hx)

theorem set_eq_map_swap (hl : l.Nodup) (hi : l.idxOf? c = some i) (hd : d ∉ l) :
    l.set i d = l.map (Equiv.swap c d) := by
  obtain ⟨A, B, e, rfl⟩ := exists_around_idxOf? hi
  rw [e] at hl hd ⊢
  have hc := (nodup_cons.mp (nodup_middle.mp hl)).1
  simp only [mem_append, mem_cons, not_or] at hc hd
  rw [set_around, map_append, map_cons, Equiv.swap_apply_left,
    map_swap_of_notMem hc.1 hd.1, map_swap_of_notMem hc.2 hd.2.2]

theorem set_set_eq_map_swap (hl : l.Nodup) {j : ℕ} (hi : l.idxOf? c = some i)
    (hj : l.idxOf? d = some j) :
    (l.set i d).set j c = l.map (Equiv.swap c d) := by
  obtain ⟨hlt, hc⟩ := List.getElem?_eq_some_iff.mp (getElem?_of_idxOf? hi)
  obtain ⟨hlt', hd⟩ := List.getElem?_eq_some_iff.mp (getElem?_of_idxOf? hj)
  refine ext_getElem (by simp) fun k hk hk' => ?_
  rw [getElem_set, getElem_map]
  split
  · rename_i e
    subst e
    rw [hd, Equiv.swap_apply_right]
  · rename_i ej
    rw [getElem_set]
    split_ifs with e
    · subst e
      rw [hc, Equiv.swap_apply_left]
    · rw [Equiv.swap_apply_of_ne_of_ne]
      · exact fun e' => e (hl.getElem_inj_iff.mp (hc.trans e'.symm))
      · exact fun e' => ej (hl.getElem_inj_iff.mp (hd.trans e'.symm))

/-- A split with two children exchanged, wherever they are. -/
def exchange (c d : NodeId) (s : Split) : Split :=
  { s with children := s.children.map (Equiv.swap c d) }

theorem exchange_of_notMem (hc : c ∉ s.children) (hd : d ∉ s.children) : exchange c d s = s := by
  rw [exchange, map_swap_of_notMem hc hd]

theorem mem_children_of_childIndex (h : a.childIndex p c = some i) : c ∈ a.children p := by
  obtain ⟨s, hs, hi⟩ := Option.bind_eq_some_iff.mp h
  exact children_of_splitAt hs ▸ mem_of_idxOf? hi

/-- **The splits after a swap**: in each the two nodes are exchanged. -/
theorem splitAt_swapArena (h : Ok g D E r a) {j : ℕ} (hi : a.childIndex p c = some i)
    (hj : a.childIndex q d = some j) (n : NodeId) :
    (swapArena a c p i d q j).splitAt n = (a.splitAt n).map (exchange c d) := by
  have hc := mem_children_of_childIndex hi
  have hd := mem_children_of_childIndex hj
  obtain ⟨s, hs, hi'⟩ := Option.bind_eq_some_iff.mp hi
  obtain ⟨s', hs', hj'⟩ := Option.bind_eq_some_iff.mp hj
  have hmem : ∀ {n x u}, a.splitAt n = some u → x ∈ u.children → x ∈ a.children n :=
    fun hu hx => children_of_splitAt hu ▸ hx
  have hother : n ≠ p → n ≠ q → (a.splitAt n).map (exchange c d) = a.splitAt n := by
    intro hp hq
    cases hn : a.splitAt n with
    | none => rfl
    | some u => exact congrArg some (exchange_of_notMem
        (fun hx => hp (h.uniqueParent _ _ _ (hmem hn hx) hc))
        fun hx => hq (h.uniqueParent _ _ _ (hmem hn hx) hd))
  unfold swapArena replaceChild
  rw [splitAt_setParent, splitAt_setParent]
  by_cases hpq : p = q
  · subst hpq
    cases Option.some.inj (hs.symm.trans hs')
    have hs1 := splitAt_modifySplit_of (f := fun s => { s with children := s.children.set i d }) hs p
    rw [if_pos rfl] at hs1
    rw [splitAt_modifySplit_of hs1, splitAt_modifySplit_of hs]
    by_cases e : n = p
    · subst e
      rw [if_pos rfl, hs, Option.map_some, exchange]
      simp only [set_set_eq_map_swap (h.sound hs).nodup hi' hj']
    · rw [if_neg e, if_neg e, hother e e]
  · -- neither node is in the other's list
    have hds : d ∉ s.children := fun hx => hpq (h.uniqueParent _ _ _ (hmem hs hx) hd)
    have hcs : c ∉ s'.children := fun hx => hpq (h.uniqueParent _ _ _ hc (hmem hs' hx))
    have hs1 : (a.modifySplit p fun s => { s with children := s.children.set i d }).splitAt q =
        some s' := by
      rw [splitAt_modifySplit_of hs, if_neg (Ne.symm hpq), hs']
    rw [splitAt_modifySplit_of hs1, splitAt_modifySplit_of hs]
    by_cases eq : n = q
    · subst eq
      rw [if_pos rfl, hs', Option.map_some, exchange, Equiv.swap_comm]
      simp only [set_eq_map_swap (h.sound hs').nodup hj' hcs]
    · rw [if_neg eq]
      by_cases ep : n = p
      · subst ep
        rw [if_pos rfl, hs, Option.map_some, exchange]
        simp only [set_eq_map_swap (h.sound hs).nodup hi' hds]
      · rw [if_neg ep, hother ep eq]

theorem parentOf_swapArena {j : ℕ} (hc : a.contains c = true) (hd : a.contains d = true)
    (hcd : c ≠ d) (n : NodeId) :
    (swapArena a c p i d q j).parentOf n =
      if n = c then some q else if n = d then some p else a.parentOf n := by
  unfold swapArena replaceChild
  rw [parentOf_setParent, parentOf_setParent]
  simp only [contains_setParent, contains_modifySplit, parentOf_modifySplit, hc, hd, and_true]
  by_cases ec : n = c
  · simp [ec, hcd]
  · simp [ec]

/-- **Swapping two nodes, neither inside the other.** -/
theorem ok_swapArena (h : Ok g D E r a) {j : ℕ} (hi : a.childIndex p c = some i)
    (hj : a.childIndex q d = some j) (hcd : ¬ Below a.children c d) (hdc : ¬ Below a.children d c) :
    Ok g D E (swapRank a.children r c d) (swapArena a c p i d q j) := by
  have hne : c ≠ d := fun e => hcd (e ▸ Below.refl c)
  have hcp := mem_children_of_childIndex hi
  have hdq := mem_children_of_childIndex hj
  have hsame := sameNodes_swapArena (a := a) c p i d q j
  have hsplit := splitAt_swapArena h hi hj
  refine h.swap hcp hdq hcd hdc ?_ ?_ ?_ (parentOf_swapArena (h.contains_kid hcp)
    (h.contains_kid hdq) hne) hsame.contains hsame.root hsame.counter
  · intro n x
    have hkids : (swapArena a c p i d q j).children n = (a.children n).map (Equiv.swap c d) := by
      unfold children
      rw [hsplit]
      cases a.splitAt n <;> rfl
    have hu := h.uniqueParent
    rw [hkids, mem_map_of_involutive (Equiv.swap_apply_self c d)]
    by_cases ec : x = c
    · rw [ec, Equiv.swap_apply_left]
      exact ⟨fun hx => .inl ⟨hu _ _ _ hx hdq, rfl⟩, by grind⟩
    by_cases ed : x = d
    · rw [ed, Equiv.swap_apply_right]
      exact ⟨fun hx => .inr (.inl ⟨hu _ _ _ hx hcp, rfl⟩), by grind⟩
    · rw [Equiv.swap_apply_of_ne_of_ne ec ed]
      grind
  · intro n
    unfold isSplit
    rw [hsplit, Option.isSome_map]
  · intro n u hu
    rw [hsplit] at hu
    obtain ⟨s, hs, rfl⟩ := Option.map_eq_some_iff.mp hu
    have hsound := h.sound hs
    exact ⟨hsound.nodup.map (Equiv.injective _), by simpa [exchange] using hsound.lengths,
      hsound.shares⟩

end TilingTree

namespace Arena

variable {D E : Set NodeId} {r : NodeId → ℕ} {a b a' : Arena I}
variable {s : Split} {id p : NodeId}

/-! ## 8. Erasing nodes -/

/-- `b` is `a` without the nodes `N`. -/
structure Erases (N : List NodeId) (a b : Arena I) : Prop where
  get : ∀ n, b.get n = if n ∈ N then none else a.get n
  root : b.root = a.root
  counter : b.counter = a.counter

namespace Erases

variable {N M : List NodeId}

section

variable (h : Erases N a b)
include h

theorem trans (h' : Erases M b a') : Erases (N ++ M) a a' where
  get n := by
    rw [h'.get, h.get]
    by_cases hM : n ∈ M <;> by_cases hN : n ∈ N <;> simp [hM, hN]
  root := h'.root.trans h.root
  counter := h'.counter.trans h.counter

theorem splitAt (n : NodeId) : b.splitAt n = if n ∈ N then none else a.splitAt n := by
  unfold Arena.splitAt
  rw [h.get]
  by_cases hN : n ∈ N <;> simp [hN]

theorem tile (n : NodeId) : b.tile n = if n ∈ N then none else a.tile n := by
  unfold Arena.tile
  rw [h.get]
  by_cases hN : n ∈ N <;> simp [hN]

theorem parentOf {n : NodeId} (hn : n ∉ N) : b.parentOf n = a.parentOf n := by
  unfold Arena.parentOf
  rw [h.get]
  simp [hn]

theorem contains (n : NodeId) : b.contains n = true ↔ a.contains n = true ∧ n ∉ N := by
  unfold Arena.contains
  rw [h.get]
  by_cases hN : n ∈ N <;> simp [hN]

/-- Editing a remaining node before or after makes no difference. -/
theorem modify {p : NodeId} (hp : p ∉ N) (f : Node I → Node I) :
    Erases N (a.modify p f) (b.modify p f) where
  get n := by
    rw [get_modify, get_modify, h.get, h.get]
    by_cases e : n = p
    · simp [e, hp]
    · simp [e]
  root := h.root
  counter := h.counter

end

end Erases

/-- **A whole subtree goes that no list names.** -/
theorem Ok.prune {N : List NodeId} (h : Ok g D E r a) (he : Erases N a b) (hroot : a.root ∉ N)
    (hdown : ∀ n ∈ N, ∀ x ∈ a.children n, x ∈ N)
    (hup : ∀ p, ∀ x ∈ a.children p, x ∈ N → p ∈ N) : Ok g (D \ {x | x ∈ N}) E r b := by
  have hk : ∀ q x, x ∈ b.children q ↔ x ∈ a.children q ∧ q ∉ N := by
    intro q x
    unfold children
    rw [he.splitAt]
    by_cases hq : q ∈ N <;> simp [hq]
  have hsplit : ∀ {q s}, b.splitAt q = some s → a.splitAt q = some s := by
    intro q s hs
    rw [he.splitAt] at hs
    split at hs
    · cases hs
    · exact hs
  obtain ⟨s, hs⟩ := h.root_split
  refine ⟨⟨s, ?_⟩, ?_, ?_, fun {q x} hx => ?_, fun {n} hn hr hD => ?_, fun q x hx => ?_,
    fun hs => h.sound (hsplit hs), fun {n} hn => ?_, fun hg _ _ hs hr => ?_⟩
  · rw [he.root, he.splitAt, if_neg hroot, hs]
  · rw [he.root, he.parentOf hroot, h.root_parent]
  · rw [he.root]
    exact fun hx => h.root_linked hx.1
  · obtain ⟨hx, hq⟩ := (hk q x).mp hx
    have hxN : x ∉ N := fun hxN => hq (hup q x hx hxN)
    rw [he.parentOf hxN]
    exact ⟨h.kid_parent hx, fun hD => (h.kid hx).2 hD.1⟩
  · obtain ⟨hn, hnN⟩ := (he.contains n).mp hn
    obtain ⟨q, hq⟩ := h.home hn (he.root ▸ hr) fun hnD => hD ⟨hnD, hnN⟩
    exact ⟨q, (hk q n).mpr ⟨hq, fun hqN => hnN (hdown q hqN n hq)⟩⟩
  · exact h.ranked q x ((hk q x).mp hx).1
  · rw [he.counter]
    exact h.fresh ((he.contains n).mp hn).1
  · exact h.full hg (hsplit hs) (he.root ▸ hr)

/-- The root lets go of its children. -/
theorem Ok.emptyRoot (h : Ok g ∅ E r a) (hs : a.splitAt a.root = some s) (layout : Layout) :
    Ok g {x | x ∈ s.children} E r (a.modifySplit a.root fun _ => { layout := layout }) := by
  set b := a.modifySplit a.root fun _ => { layout := layout } with hb
  have hsb : ∀ q, b.splitAt q = if q = a.root then some { layout := layout } else a.splitAt q :=
    fun q => splitAt_modifySplit_of hs q
  have hk : ∀ q x, x ∈ b.children q ↔ x ∈ a.children q ∧ q ≠ a.root := by
    intro q x
    rw [children_of_splitAt_eq hsb]
    by_cases e : q = a.root <;> simp [e]
  have hsr := children_of_splitAt hs
  refine ⟨⟨_, by rw [show b.root = a.root from rfl, hsb, if_pos rfl]⟩, ?_, ?_, fun {q x} hx => ?_,
    fun {n} hn hr hD => ?_, fun q x hx => ?_, fun {q s'} hs' => ?_, fun {n} hn => ?_,
    fun hg q s' hs' hr hE => ?_⟩
  · rw [hb, parentOf_modifySplit]
    exact h.root_parent
  · exact fun hx => h.root_not_kid _ (hsr ▸ hx : a.root ∈ a.children a.root)
  · obtain ⟨hx, hq⟩ := (hk q x).mp hx
    rw [hb, parentOf_modifySplit]
    exact ⟨h.kid_parent hx, fun hxs =>
      hq (h.uniqueParent _ _ _ hx (hsr ▸ hxs : x ∈ a.children a.root))⟩
  · rw [hb, contains_modifySplit] at hn
    obtain ⟨q, hq⟩ := h.home hn hr (Set.notMem_empty n)
    refine ⟨q, (hk q n).mpr ⟨hq, ?_⟩⟩
    rintro rfl
    exact hD (hsr ▸ hq)
  · exact h.ranked q x ((hk q x).mp hx).1
  · rw [hsb] at hs'
    split at hs'
    · cases hs'
      exact ⟨nodup_nil, rfl, fun _ => isShares_nil⟩
    · exact h.sound hs'
  · rw [hb, contains_modifySplit] at hn
    exact h.fresh hn
  · rw [hsb, if_neg (show q ≠ a.root from hr)] at hs'
    exact h.full hg hs' hr hE

/-- **A childless node goes from the arena and from its parent's list.** -/
theorem Ok.dropChild (h : Ok g ∅ E r a) (hp : a.parentOf id = some p) (hk : a.children id = [])
    (he : Erases [id] a b) : Ok g ∅ (insert p (E \ {id})) r (b.removeChild p id) := by
  obtain ⟨s, hs, hid⟩ := h.split_of_parentOf hp
  obtain ⟨i, hi⟩ := exists_idxOf? hid
  have hlt := h.ranked p id (h.mem_children hp)
  have hpid : p ≠ id := fun e => hlt.ne (congrArg r e)
  have he' : Erases [id] (a.removeChild p id) (b.removeChild p id) :=
    he.modify (by simpa using hpid) _
  refine h.splice (N := [id]) (K := []) hs ?_ (by simpa using hpid) ?_ (by simp) (by simpa using hlt)
    (fun x => ?_) ((h.sound hs).remove hi) (fun q => ?_) (fun n hn => ?_) (fun n => ?_) he'.root
    he'.counter (fun q hq hE hE' => ?_) (.inl (Set.mem_insert _ _))
  · simpa using .inl hid
  · simp [hk]
  · simpa using (h.sound hs).mem_eraseIdx hi x
  · rw [he'.splitAt, splitAt_removeChild hs hi]
  · rw [he'.parentOf hn]
    simp [Arena.removeChild]
  · rw [he'.contains]
    simp [Arena.removeChild]
  · exact (hE' (.inr ⟨hE, by simpa using hq⟩)).elim

open TilingTree (spliceAt sameNodes_adopt adopt)

/-- **The children `K` of the erased splits `N` take their places.** -/
theorem Ok.spliceOut (h : Ok g D E r a) {N K : List NodeId}
    (hs : a.splitAt p = some s) (hN : ∀ n ∈ N, n ∈ s.children ∨ ∃ m ∈ N, n ∈ a.children m)
    (hNK : ∀ n ∈ N, ∀ x ∈ a.children n, x ∈ N ∨ x ∈ K)
    (hKN : ∀ x ∈ K, x ∉ N ∧ ∃ n ∈ N, x ∈ a.children n) (hrank : ∀ n ∈ N, r p < r n)
    (hmem : ∀ x, x ∈ (f s).children ↔ (x ∈ s.children ∧ x ∉ N) ∨ x ∈ K) (hsound : (f s).Sound g)
    (hne : g → K ≠ []) (he : Erases N (adopt (a.modifySplit p f) K p) a') :
    Ok g D E r a' := by
  have hp : p ∉ N := fun hp => (hrank p hp).ne rfl
  have hcon : ∀ x ∈ K, (a.modifySplit p f).contains x = true := by
    intro x hx
    obtain ⟨-, n, -, hxn⟩ := hKN x hx
    simpa using h.contains_kid hxn
  refine h.splice hs hN hp hNK hKN hrank hmem hsound (fun q => ?_) (fun n hn => ?_) (fun n => ?_)
    ?_ ?_ (fun q _ hE hE' => absurd hE hE') (.inr hne)
  · rw [he.splitAt, TilingTree.splitAt_adopt, splitAt_modifySplit_of hs]
  · rw [he.parentOf hn, TilingTree.parentOf_adopt _ _ _ hcon, parentOf_modifySplit]
  · rw [he.contains, (sameNodes_adopt _ _).contains, contains_modifySplit]
  · exact he.root.trans (sameNodes_adopt _ _).root
  · exact he.counter.trans (sameNodes_adopt _ _).counter

/-- **The only child of a split takes its place** (`collapseNode`, `flattenParent`). -/
theorem Ok.replaceByChild (h : Ok g D E r a) {child : NodeId}
    (hi : a.childIndex p id = some i) (hk : a.children id = [child])
    (he : Erases [id] ((a.modifySplit p fun s =>
      { s with children := s.children.set i child }).setParent child (some p)) a') :
    Ok g D E r a' := by
  obtain ⟨s, hs, hi⟩ := Option.bind_eq_some_iff.mp hi
  have hid : id ∈ a.children p := children_of_splitAt hs ▸ mem_of_idxOf? hi
  have hchild : child ∈ a.children id := by simp [hk]
  have hlt := h.ranked p id hid
  have hlt' := h.ranked id child hchild
  have hnotin : child ∉ s.children := by
    intro hc
    have := h.uniqueParent _ _ _ (children_of_splitAt hs ▸ hc : child ∈ a.children p) hchild
    exact hlt.ne (congrArg r this)
  have hne : child ≠ id := fun e => hlt'.ne (congrArg r e.symm)
  refine h.spliceOut (N := [id]) (K := [child]) hs ?_ ?_ ?_ (by simpa using hlt) (fun x => ?_)
    ((h.sound hs).set hnotin i) (by simp) he
  · simpa using .inl (mem_of_idxOf? hi)
  · simp [hk]
  · simpa using ⟨hne, hchild⟩
  · simpa using (h.sound hs).mem_set hi child x

/-- Several children in the place of one. -/
theorem mem_spliceAt (hs : s.Sound g) (hi : s.children.idxOf? id = some i)
    (kids : List NodeId) (shares : List ℚ) (x : NodeId) :
    x ∈ (spliceAt s i kids shares).children ↔ (x ∈ s.children ∧ x ≠ id) ∨ x ∈ kids := by
  obtain ⟨A, B, e, rfl⟩ := exists_around_idxOf? hi
  have hn := nodup_middle.mp (e ▸ hs.nodup)
  simp only [spliceAt, e, take_around, drop_around]
  grind

theorem sound_spliceAt {kids : List NodeId} (shares : List ℚ) (hs : s.Sound g)
    (hi : s.children.idxOf? id = some i) (hkids : kids.Nodup) (hnew : ∀ x ∈ kids, x ∉ s.children)
    (hlen : shares.length = kids.length) :
    (spliceAt s i kids shares).Sound False := by
  obtain ⟨A, B, e, rfl⟩ := exists_around_idxOf? hi
  have hlt : A.length < s.percents.length := by
    rw [hs.lengths, e]
    simp
  obtain ⟨A', x, B', e', hA'⟩ := hs.percent_around (hs.lengths ▸ hlt)
  have hl := hs.lengths
  refine ⟨?_, ?_, False.elim⟩
  · have hn := nodup_middle.mp (e ▸ hs.nodup)
    rw [e] at hnew
    simp only [spliceAt, e, take_around, drop_around]
    grind
  · rw [e, e'] at hl
    simp only [spliceAt, e, e', take_around, drop_around]
    rw [← hA', take_around, drop_around]
    simp only [length_append, length_cons] at hl ⊢
    omega

/-- **The grandchildren take the places of a squashed pair**, in any order and with any shares that
    make the edited split sound. -/
theorem Ok.squashPair (h : Ok g D E r a) {child : NodeId} {cs : Split} {kids : List NodeId}
    (hs : a.splitAt p = some s) (hi : s.children.idxOf? id = some i)
    (hk : a.children id = [child]) (hcs : a.splitAt child = some cs) (hfull : g → cs.children ≠ [])
    (hkids : kids.Perm cs.children)
    (hf : (f s).children = (spliceAt s i kids []).children)
    (hsound : (∀ x ∈ kids, x ∉ s.children) → (f s).Sound g)
    (he : Erases [id, child] (adopt (a.modifySplit p f) cs.children p) a') :
    Ok g D E r a' := by
  have hid : id ∈ a.children p := children_of_splitAt hs ▸ mem_of_idxOf? hi
  have hchild : child ∈ a.children id := by simp [hk]
  have hlt := h.ranked p id hid
  have hlt' := h.ranked id child hchild
  have hkcs := children_of_splitAt hcs
  have hnew : ∀ x ∈ kids, x ∉ s.children := by
    intro x hx hxs
    have hx' : x ∈ a.children child := hkcs ▸ hkids.mem_iff.mp hx
    have := h.uniqueParent _ _ _ (children_of_splitAt hs ▸ hxs : x ∈ a.children p) hx'
    exact (hlt.trans hlt').ne (congrArg r this)
  refine h.spliceOut hs ?_ ?_ ?_ ?_ ?_ (hsound hnew) hfull he
  · simpa using ⟨.inl (mem_of_idxOf? hi), .inr (.inl hchild)⟩
  · simpa [hk, hkcs] using fun x hx => .inr hx
  · intro x hx
    have hxc : x ∈ a.children child := hkcs ▸ hx
    have hlt'' := h.ranked child x hxc
    refine ⟨?_, child, by simp, hxc⟩
    simp only [mem_cons, not_mem_nil, or_false, not_or]
    exact ⟨fun e => (hlt'.trans hlt'').ne (congrArg r e.symm),
      fun e => hlt''.ne (congrArg r e.symm)⟩
  · simpa using ⟨hlt, hlt.trans hlt'⟩
  · intro x
    have hchilds : child ∉ s.children := fun hc => by
      have := h.uniqueParent _ _ _ (children_of_splitAt hs ▸ hc : child ∈ a.children p) hchild
      exact hlt.ne (congrArg r this)
    rw [hf, mem_spliceAt (h.sound hs) hi, hkids.mem_iff]
    grind

end Arena

end Swayward
