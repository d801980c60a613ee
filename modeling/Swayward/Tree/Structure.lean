/-
  File:      Swayward/Tree/Structure.lean
  Subject:   THE STRUCTURE OF THE ARENA: an invariant that holds in the middle of an operation, too.

  `Arena.Ok g D E r a` says that the arena `a` is a tree, up to

  * `D` -- nodes that are in the arena but in no child list (an operation is moving them);
  * `E` -- splits other than the root that may be without children (an operation will reap them);
  * `g` -- a proposition that switches on what concerns shares and empty splits. Both rest on each
    other, and they are the part of the invariant that one operation can break.

  `r` is a rank along the child lists. It is a parameter rather than hidden, because most edits
  keep it: a bound on ranks is a bound on depth.

  The file proves what each edit of the arena does to the invariant: `Ok.rearrange`, `Ok.unlink`,
  `Ok.link`, `Ok.drop`, `Ok.splice`, `Ok.wrap`, `Ok.swap`, `Ok.put`.
-/
import Swayward.Tree.Navigate

namespace Swayward

variable {I : Type}

open Forest Shares Positions

/-! ## 1. One split -/

/-- Children without duplicates, one share for each, and (with `g`) proper shares. -/
structure Split.Sound (g : Prop) (s : Split) : Prop where
  nodup : s.children.Nodup
  lengths : s.percents.length = s.children.length
  shares : g → IsShares s.percents

namespace Arena

/-! ## 2. The invariant -/

structure Ok (g : Prop) (D E : Set NodeId) (r : NodeId → ℕ) (a : Arena I) : Prop where
  root_split : ∃ s, a.splitAt a.root = some s
  root_parent : a.parentOf a.root = none
  root_linked : a.root ∉ D
  kid : ∀ {p c}, c ∈ a.children p → a.parentOf c = some p ∧ c ∉ D
  home : ∀ {n}, a.contains n = true → n ≠ a.root → n ∉ D → ∃ p, n ∈ a.children p
  ranked : Ranked a.children r
  sound : ∀ {p s}, a.splitAt p = some s → s.Sound g
  fresh : ∀ {n}, a.contains n = true → n < a.counter
  full : g → ∀ {p s}, a.splitAt p = some s → p ≠ a.root → p ∉ E → s.children ≠ []

variable {g : Prop} {D E : Set NodeId} {r : NodeId → ℕ} {a b : Arena I}
variable {p c w : NodeId} {f : Split → Split} {s : Split}

section

variable (h : Ok g D E r a)
include h

theorem Ok.contains_root : a.contains a.root = true := by
  obtain ⟨s, hs⟩ := h.root_split
  exact contains_of_splitAt hs

theorem Ok.tile_root : a.tile a.root = none := by
  obtain ⟨s, hs⟩ := h.root_split
  exact tile_of_splitAt hs

theorem Ok.kid_parent (hc : c ∈ a.children p) : a.parentOf c = some p :=
  (h.kid hc).1

theorem Ok.contains_kid (hc : c ∈ a.children p) : a.contains c = true :=
  contains_of_parentOf (h.kid_parent hc)

theorem Ok.uniqueParent : UniqueParent a.children := by
  intro p q c hp hq
  have := h.kid_parent hp
  rw [h.kid_parent hq] at this
  exact (Option.some.inj this).symm

theorem Ok.root_not_kid (p : NodeId) : a.root ∉ a.children p := by
  intro hc
  have := h.kid_parent hc
  rw [h.root_parent] at this
  cases this

theorem Ok.ne_root_of_parentOf {n : NodeId} (hp : a.parentOf n = some p) : n ≠ a.root := by
  rintro rfl
  rw [h.root_parent] at hp
  cases hp

/-- A linked node is listed by its parent. -/
theorem Ok.mem_children_of {n : NodeId} (hp : a.parentOf n = some p) (hn : n ∉ D) :
    n ∈ a.children p := by
  obtain ⟨q, hq⟩ := h.home (contains_of_parentOf hp) (h.ne_root_of_parentOf hp) hn
  have := h.kid_parent hq
  rw [hp] at this
  cases this
  exact hq

theorem Ok.nodup (p : NodeId) : (a.children p).Nodup := by
  cases e : a.splitAt p with
  | none => simp [children, e]
  | some s => rw [children_of_splitAt e]; exact (h.sound e).nodup

theorem Ok.mono {E' : Set NodeId} (hE : E ⊆ E') : Ok g D E' r a :=
  { h with full := fun hg _ _ hs hr hE' => h.full hg hs hr fun hp => hE' (hE hp) }

/-- Arenas that answer alike are alike. -/
theorem Ok.congr (hc : ∀ n, b.contains n = a.contains n) (hp : ∀ n, b.parentOf n = a.parentOf n)
    (hs : ∀ n, b.splitAt n = a.splitAt n) (hr : b.root = a.root) (hn : a.counter ≤ b.counter) :
    Ok g D E r b := by
  have hk : b.children = a.children := by
    funext n
    simp [children, hs]
  constructor
  · rw [hr, hs]; exact h.root_split
  · rw [hr, hp]; exact h.root_parent
  · rw [hr]; exact h.root_linked
  · intro p c; rw [hk, hp]; exact h.kid
  · intro n; rw [hc, hr, hk]; exact h.home
  · rw [hk]; exact h.ranked
  · intro p s; rw [hs]; exact h.sound
  · intro n hn'
    rw [hc] at hn'
    exact (h.fresh hn').trans_le hn
  · intro hg p s; rw [hs, hr]; exact h.full hg

end

theorem Ok.mem_children (h : Ok g ∅ E r a) {n : NodeId} (hp : a.parentOf n = some p) :
    n ∈ a.children p :=
  h.mem_children_of hp (Set.notMem_empty n)

theorem Ok.split_of_parentOf (h : Ok g ∅ E r a) {n : NodeId} (hp : a.parentOf n = some p) :
    ∃ s, a.splitAt p = some s ∧ n ∈ s.children :=
  splitAt_of_mem_children (h.mem_children hp)

/-! ## 3. Edits of one split that keep its members -/

theorem splitAt_modifySplit_of (hs : a.splitAt p = some s) (q : NodeId) :
    (a.modifySplit p f).splitAt q = if q = p then some (f s) else a.splitAt q := by
  rw [splitAt_modifySplit, hs]
  rfl

theorem splitAt_modifySplit_none (hs : a.splitAt p = none) (q : NodeId) :
    (a.modifySplit p f).splitAt q = a.splitAt q := by
  rw [splitAt_modifySplit]
  by_cases e : q = p
  · subst e; simp [hs]
  · simp [e]

/-- The children after an edit of the split at `p`. -/
theorem children_of_splitAt_eq (hs : ∀ q, b.splitAt q = if q = p then some s else a.splitAt q)
    (q : NodeId) :
    b.children q = if q = p then s.children else a.children q := by
  unfold children
  rw [hs]
  by_cases e : q = p <;> simp [e]

/-- **Permuting the children of a split and changing its shares, layout or metadata.** -/
theorem Ok.rearrange (h : Ok g D E r a)
    (hf : ∀ s, a.splitAt p = some s → (f s).children.Perm s.children ∧ (f s).Sound g) :
    Ok g D E r (a.modifySplit p f) := by
  cases e : a.splitAt p with
  | none => exact h.congr (by simp) (by simp) (splitAt_modifySplit_none e) rfl le_rfl
  | some s =>
    obtain ⟨hperm, hsound⟩ := hf s e
    have hs := splitAt_modifySplit_of (f := f) e
    have hk := children_of_splitAt_eq hs
    have hmem : ∀ q c, c ∈ (a.modifySplit p f).children q ↔ c ∈ a.children q := by
      intro q c
      rw [hk]
      by_cases eq : q = p
      · subst eq
        simp [hperm.mem_iff, children_of_splitAt e]
      · simp [eq]
    constructor
    · have := h.root_split
      grind [root_modifySplit]
    · simpa using h.root_parent
    · exact h.root_linked
    · intro q c hc
      simpa using h.kid ((hmem q c).mp hc)
    · intro n hn hr hD
      obtain ⟨q, hq⟩ := h.home (by simpa using hn) hr hD
      exact ⟨q, (hmem q n).mpr hq⟩
    · exact fun q c hc => h.ranked q c ((hmem q c).mp hc)
    · have := @h.sound
      grind
    · exact fun hn => h.fresh (by simpa using hn)
    · intro hg q s' hq hr hE hnil
      rw [hs] at hq
      by_cases eq : q = p
      · simp only [eq, if_true, Option.some.injEq] at hq
        subst hq
        rw [hnil] at hperm
        exact h.full hg e (eq ▸ hr) (eq ▸ hE) hperm.symm.eq_nil
      · exact h.full hg (by simpa [eq] using hq) hr hE hnil

/-! ## 4. Unlinking and linking -/

/-- **Taking a child out of its parent's list.** -/
theorem Ok.unlink (h : Ok g D E r a) {s' : Split} (hs : a.splitAt p = some s)
    (hmem : ∀ x, x ∈ s'.children ↔ x ∈ s.children ∧ x ≠ c) (hc : c ∈ s.children)
    (hsound : s'.Sound g) (hsplit : ∀ q, b.splitAt q = if q = p then some s' else a.splitAt q)
    (hpar : ∀ n, n ≠ c → b.parentOf n = a.parentOf n) (hcon : ∀ n, b.contains n = a.contains n)
    (hroot : b.root = a.root) (hcount : b.counter = a.counter) : Ok g (insert c D) (insert p E) r b := by
  have hcp : c ∈ a.children p := by rwa [children_of_splitAt hs]
  have hk : ∀ q x, x ∈ b.children q ↔ x ∈ a.children q ∧ x ≠ c := by
    intro q x
    rw [children_of_splitAt_eq hsplit]
    by_cases e : q = p
    · subst e
      simp [hmem, children_of_splitAt hs]
    simp only [e, if_false]
    refine ⟨fun hx => ⟨hx, ?_⟩, fun hx => hx.1⟩
    rintro rfl
    exact e (h.uniqueParent _ _ _ hx hcp)
  have hcr : c ≠ a.root := fun e => h.root_not_kid p (e ▸ hcp)
  obtain ⟨_, _, _, _, _, -, _, _, -⟩ := id h
  constructor
  · grind
  · grind
  · grind
  · grind
  · grind
  · exact fun q x hx => h.ranked q x ((hk q x).mp hx).1
  · grind
  · grind
  intro hg q s'' hq hr hE
  refine h.full hg (p := q) ?_ (hroot ▸ hr) fun hE' => hE (.inr hE')
  rw [hsplit] at hq
  simpa [show q ≠ p from fun e => hE (.inl e)] using hq

/-- **Putting unlisted nodes into a split's list.** -/
theorem Ok.link (h : Ok g D E r a) {L : List NodeId} {z : Split} {F : Set NodeId} {r' : NodeId → ℕ}
    (hs : a.splitAt p = some s) (hL : ∀ x ∈ L, x ∈ D ∧ a.contains x = true)
    (hmem : ∀ x, x ∈ z.children ↔ x ∈ s.children ∨ x ∈ L) (hsound : z.Sound g)
    (hsplit : ∀ q, b.splitAt q = if q = p then some z else a.splitAt q)
    (hpar : ∀ n, b.parentOf n = if n ∈ L then some p else a.parentOf n)
    (hcon : ∀ n, b.contains n = a.contains n) (hroot : b.root = a.root)
    (hcount : b.counter = a.counter) (hr : Ranked b.children r')
    (hE : ∀ q ∈ E, q ∉ F → q = p ∧ L ≠ []) : Ok g (D \ {x | x ∈ L}) F r' b := by
  have hk : ∀ q x, x ∈ b.children q ↔ x ∈ a.children q ∨ (q = p ∧ x ∈ L) := by
    intro q x
    rw [children_of_splitAt_eq hsplit]
    by_cases e : q = p
    · subst e
      simp [hmem, children_of_splitAt hs]
    · simp [e]
  obtain ⟨_, _, _, _, _, -, _, _, -⟩ := id h
  constructor
  · grind
  · grind
  · grind
  · intro q c hc
    rw [hk] at hc
    simp only [Set.mem_sdiff, Set.mem_ofPred_eq]
    grind
  · simp only [Set.mem_sdiff, Set.mem_ofPred_eq]
    grind
  · exact hr
  · grind
  · grind
  · intro hg q s'' hq hr hE'
    have := @h.full hg q
    have : L ≠ [] → z.children ≠ [] := by
      intro hne hnil
      obtain ⟨x, hx⟩ := List.exists_mem_of_ne_nil L hne
      have := (hmem x).mpr (.inr hx)
      rw [hnil] at this
      cases this
    have hnil : z.children = [] → s.children = [] := by
      intro hnil
      refine List.eq_nil_iff_forall_not_mem.mpr fun x hx => ?_
      have := (hmem x).mpr (.inl hx)
      rw [hnil] at this
      cases this
    grind

/-! ## 5. Nodes that go -/

/-- **Nodes `N` below the split `p` go, and their children outside `N` take their places.** With no
    such children this is the removal of a childless node; with one node in `N` it is a collapse;
    with two, a squash. -/
theorem Ok.splice (h : Ok g D E r a) {N K : List NodeId} {s' : Split} {E' : Set NodeId}
    (hs : a.splitAt p = some s) (hN : ∀ n ∈ N, n ∈ s.children ∨ ∃ m ∈ N, n ∈ a.children m)
    (hp : p ∉ N) (hNK : ∀ n ∈ N, ∀ x ∈ a.children n, x ∈ N ∨ x ∈ K)
    (hKN : ∀ x ∈ K, x ∉ N ∧ ∃ n ∈ N, x ∈ a.children n) (hrank : ∀ n ∈ N, r p < r n)
    (hmem : ∀ x, x ∈ s'.children ↔ (x ∈ s.children ∧ x ∉ N) ∨ x ∈ K) (hsound : s'.Sound g)
    (hsplit : ∀ q, b.splitAt q = if q ∈ N then none else if q = p then some s' else a.splitAt q)
    (hpar : ∀ n, n ∉ N → b.parentOf n = if n ∈ K then some p else a.parentOf n)
    (hcon : ∀ n, b.contains n = true ↔ a.contains n = true ∧ n ∉ N) (hroot : b.root = a.root)
    (hcount : b.counter = a.counter) (hE : ∀ q, q ∉ N → q ∈ E → q ∉ E' → q = p ∧ (g → K ≠ []))
    (hpE : p ∈ E' ∨ (g → K ≠ [])) : Ok g D E' r b := by
  have hks := children_of_splitAt hs
  -- a node of `N` is listed by `p` or by another node of `N`
  have hlist : ∀ n ∈ N, ∀ q, n ∈ a.children q → q = p ∨ q ∈ N := by
    intro n hn q hq
    rcases hN n hn with hn' | ⟨m, hm, hn'⟩
    · exact .inl (h.uniqueParent _ _ _ hq (hks ▸ hn'))
    · exact .inr (h.uniqueParent _ _ _ hq hn' ▸ hm)
  have hNroot : a.root ∉ N := by
    intro hn
    rcases hN _ hn with hn' | ⟨m, -, hn'⟩
    · exact h.root_not_kid p (hks ▸ hn')
    · exact h.root_not_kid m hn'
  have hk : ∀ q x, x ∈ b.children q ↔ q ∉ N ∧ x ∉ N ∧ (x ∈ a.children q ∨ (q = p ∧ x ∈ K)) := by
    intro q x
    have hc : b.children q =
        if q ∈ N then [] else if q = p then s'.children else a.children q := by
      unfold children
      rw [hsplit]
      by_cases e : q ∈ N
      · simp [e]
      · by_cases e' : q = p <;> simp [e, e', hp]
    rw [hc]
    grind
  have hrank' : ∀ x ∈ K, r p < r x := by
    intro x hx
    obtain ⟨-, n, hn, hxn⟩ := hKN x hx
    exact (hrank n hn).trans (h.ranked n x hxn)
  obtain ⟨_, _, _, _, _, -, _, _, -⟩ := id h
  constructor
  · grind
  · grind
  · grind
  · grind
  · intro n hn hr hD
    obtain ⟨hn, hnN⟩ := (hcon n).mp hn
    obtain ⟨q, hq⟩ := h.home hn (hroot ▸ hr) hD
    by_cases hqN : q ∈ N
    · exact ⟨p, (hk p n).mpr ⟨hp, hnN, .inr ⟨rfl, (hNK q hqN n hq).resolve_left hnN⟩⟩⟩
    · exact ⟨q, (hk q n).mpr ⟨hqN, hnN, .inl hq⟩⟩
  · intro q x hx
    obtain ⟨-, -, hx | ⟨rfl, hx⟩⟩ := (hk q x).mp hx
    · exact h.ranked q x hx
    · exact hrank' x hx
  · grind
  · grind
  · intro hg q s'' hq hr hE''
    have hfull := @h.full hg q
    have hK : K ≠ [] → s'.children ≠ [] := by
      intro hne hnil
      obtain ⟨x, hx⟩ := List.exists_mem_of_ne_nil K hne
      have := (hmem x).mpr (.inr hx)
      rw [hnil] at this
      cases this
    grind

/-! ## 6. Nodes that come -/

theorem children_of_absent (hw : a.contains w = false) : a.children w = [] := by
  cases e : a.splitAt w with
  | none => simp [children, e]
  | some s => rw [contains_of_splitAt e] at hw; cases hw

theorem Ok.not_kid_of_absent (h : Ok g D E r a) (hw : a.contains w = false)
    (q : NodeId) : w ∉ a.children q := fun hq => by
  rw [h.contains_kid hq] at hw
  cases hw

theorem Ok.ne_root_of_absent (h : Ok g D E r a) (hw : a.contains w = false) : w ≠ a.root := by
  rintro rfl
  rw [h.contains_root] at hw
  cases hw

/-- **A new node, in no list yet and without children.** -/
theorem Ok.put (h : Ok g D E r a) (hw : a.contains w = false)
    (hcount : w < b.counter) (hcount' : a.counter ≤ b.counter) (hroot : b.root = a.root)
    (hsplit : ∀ q, q ≠ w → b.splitAt q = a.splitAt q)
    (hnew : ∀ s, b.splitAt w = some s → s.children = [] ∧ s.Sound g)
    (hpar : ∀ n, n ≠ w → b.parentOf n = a.parentOf n)
    (hcon : ∀ n, b.contains n = true ↔ n = w ∨ a.contains n = true) :
    Ok g (insert w D) (insert w E) r b := by
  have hwk := children_of_absent hw
  have hk : ∀ q, b.children q = a.children q := by
    intro q
    by_cases e : q = w
    · subst e
      rw [hwk]
      cases e : b.splitAt q with
      | none => simp [children, e]
      | some s => rw [children_of_splitAt e, (hnew s e).1]
    · simp [children, hsplit q e]
  have hwkid := h.not_kid_of_absent hw
  have hwroot := h.ne_root_of_absent hw
  obtain ⟨_, _, _, _, _, -, _, _, -⟩ := id h
  constructor
  · grind
  · grind
  · grind
  · grind
  · grind
  · exact fun q x hx => h.ranked q x (hk q ▸ hx)
  · grind
  · grind
  · intro hg q s hq hr hE
    have hqw : q ≠ w := fun e => hE (.inl e)
    exact h.full hg (hsplit q hqw ▸ hq) (hroot ▸ hr) fun hE' => hE (.inr hE')

/-- **A new split `w` takes the places of some children of `p`**, and may take in unlisted nodes
    besides. -/
theorem Ok.wrap (h : Ok g D E r a) {s' sw : Split} {r' : NodeId → ℕ}
    (hs : a.splitAt p = some s) (hw : a.contains w = false) (hcount : w < b.counter)
    (hcount' : a.counter ≤ b.counter) (hroot : b.root = a.root)
    (hK : ∀ x ∈ sw.children, a.contains x = true ∧ (x ∈ s.children ∨ x ∈ D ∧ x ≠ p))
    (hne : g → sw.children ≠ [])
    (hmem : ∀ x, x ∈ s'.children ↔ (x ∈ s.children ∧ x ∉ sw.children) ∨ x = w)
    (hsound : s'.Sound g) (hsound' : sw.Sound g) (hsplit : ∀ q, b.splitAt q =
      if q = w then some sw else if q = p then some s' else a.splitAt q) (hpar : ∀ n, b.parentOf n =
      if n = w then some p else if n ∈ sw.children then some w else a.parentOf n)
    (hcon : ∀ n, b.contains n = true ↔ n = w ∨ a.contains n = true)
    (hr : Ranked b.children r') : Ok g ((D \ {x | x ∈ sw.children}) \ {w}) (E \ {p}) r' b := by
  have hks := children_of_splitAt hs
  have hpw : p ≠ w := by
    rintro rfl
    rw [contains_of_splitAt hs] at hw
    cases hw
  have hwkid := h.not_kid_of_absent hw
  have hwk := children_of_absent hw
  have hroot' : a.root ∉ sw.children := by
    intro hx
    rcases (hK _ hx).2 with hx | hx
    · exact h.root_not_kid p (hks ▸ hx)
    · exact h.root_linked hx.1
  have hk : ∀ q x, x ∈ b.children q ↔
      (q = w ∧ x ∈ sw.children) ∨ (q = p ∧ x = w) ∨ (x ∈ a.children q ∧ x ∉ sw.children) := by
    intro q x
    have hc : b.children q =
        if q = w then sw.children else if q = p then s'.children else a.children q := by
      unfold children
      rw [hsplit]
      by_cases e : q = w
      · simp [e]
      · by_cases e' : q = p <;> simp [e, e', hpw]
    have hout : ∀ x ∈ sw.children, x ∈ a.children q → q = p := by
      intro x hx hq
      rcases (hK x hx).2 with hx' | hx'
      · exact h.uniqueParent _ _ _ hq (hks ▸ hx')
      · exact absurd hx'.1 (h.kid hq).2
    rw [hc]
    grind
  obtain ⟨_, _, _, _, _, -, _, _, -⟩ := id h
  have hwroot := h.ne_root_of_absent hw
  constructor
  · grind
  · grind
  · simp only [Set.mem_sdiff]
    grind
  · intro q c hc
    simp only [Set.mem_sdiff, Set.mem_ofPred_eq, Set.mem_singleton_iff]
    grind
  · simp only [Set.mem_sdiff, Set.mem_ofPred_eq, Set.mem_singleton_iff]
    grind
  · exact hr
  · grind
  · grind
  · intro hg q s'' hq hr hE
    have hfull := @h.full hg q
    have hw' : s'.children ≠ [] := by
      intro hnil
      have := (hmem w).mpr (.inr rfl)
      rw [hnil] at this
      cases this
    simp only [Set.mem_sdiff, Set.mem_singleton_iff] at hE
    grind

/-- **Two children trade places.** -/
theorem Ok.swap (h : Ok g D E r a) {d q : NodeId} (hcp : c ∈ a.children p)
    (hdq : d ∈ a.children q) (hcd : ¬ Below a.children c d) (hdc : ¬ Below a.children d c)
    (hk : ∀ s x, x ∈ b.children s ↔
      (s = q ∧ x = c) ∨ (s = p ∧ x = d) ∨ (x ∈ a.children s ∧ x ≠ c ∧ x ≠ d))
    (hsplit : ∀ n, b.isSplit n = a.isSplit n) (hsound : ∀ n s, b.splitAt n = some s → s.Sound g)
    (hpar : ∀ n, b.parentOf n = if n = c then some q else if n = d then some p else a.parentOf n)
    (hcon : ∀ n, b.contains n = a.contains n) (hroot : b.root = a.root)
    (hcount : b.counter = a.counter) : Ok g D E (swapRank a.children r c d) b := by
  have hne : c ≠ d := by
    rintro rfl
    exact hcd (Below.refl c)
  have hcD := (h.kid hcp).2
  have hdD := (h.kid hdq).2
  have hcr : c ≠ a.root := fun e => h.root_not_kid p (e ▸ hcp)
  have hdr : d ≠ a.root := fun e => h.root_not_kid q (e ▸ hdq)
  have hcc := h.contains_kid hcp
  have hdc' := h.contains_kid hdq
  obtain ⟨_, _, _, _, _, -, -, _, -⟩ := id h
  have hex : ∀ n, (∃ s, b.splitAt n = some s) ↔ ∃ s, a.splitAt n = some s := by
    intro n
    rw [← isSplit_eq_true, ← isSplit_eq_true, hsplit]
  constructor
  · rw [hroot]
    exact (hex _).mpr h.root_split
  · grind
  · grind
  · grind
  · grind
  · exact h.ranked.swap h.uniqueParent hcp hdq hcd hdc fun s x hx => (hk s x).mp hx
  · exact fun hs => hsound _ _ hs
  · grind
  intro hg n s hs hr hE hnil
  obtain ⟨s0, hs0⟩ := (hex n).mp ⟨s, hs⟩
  refine h.full hg hs0 (hroot ▸ hr) hE ?_
  have hempty : ∀ x, x ∉ b.children n := by
    intro x
    rw [children_of_splitAt hs, hnil]
    exact List.not_mem_nil
  rw [← children_of_splitAt hs0]
  refine List.eq_nil_iff_forall_not_mem.mpr fun x hx => ?_
  have := hempty x
  have := hempty c
  have := hempty d
  have := h.uniqueParent
  unfold UniqueParent at this
  grind

end Arena

end Swayward
