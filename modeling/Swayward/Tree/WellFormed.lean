/-
  File:      Swayward/Tree/WellFormed.lean
  Subject:   WELL-FORMED ARENAS, as a reader would state it, and what the proofs use instead.

  `Arena.WellFormed` says what an arena is for: a tree below its root, with proper shares. The
  proofs work with `Arena.Ok`, which speaks of a rank and can be loosened in the middle of an
  operation. `Ok.wellFormed` and `WellFormed.ok` show that between operations both say the same.
-/
import Swayward.Tree.Walks

namespace Swayward

open Forest

variable {I : Type}

namespace Arena

/-- The arena is a tree of splits and leaves below its root. -/
structure WellFormed (a : Arena I) : Prop where
  root_split : ∃ s, a.splitAt a.root = some s
  root_parent : a.parentOf a.root = none
  /-- every node can be reached from the root -/
  reached : ∀ n, a.contains n = true → Below a.children a.root n
  /-- and in one way only: one split lists it, once -/
  parent : ∀ p c, c ∈ a.children p → a.parentOf c = some p
  once : ∀ p s, a.splitAt p = some s → s.children.Nodup
  nonempty : ∀ p s, a.splitAt p = some s → p ≠ a.root → s.children ≠ []
  lengths : ∀ p s, a.splitAt p = some s → s.percents.length = s.children.length
  positive : ∀ p s, a.splitAt p = some s → ∀ x ∈ s.percents, 0 < x
  sum : ∀ p s, a.splitAt p = some s → s.children ≠ [] → s.percents.sum = 1
  /-- identifiers come from the counter -/
  fresh : ∀ n, a.contains n = true → n < a.counter

variable {a : Arena I} {r : NodeId → ℕ}

theorem Ok.wellFormed (h : Ok True ∅ ∅ r a) : a.WellFormed where
  root_split := h.root_split
  root_parent := h.root_parent
  reached _ hn := h.below_root hn
  parent _ _ hc := h.kid_parent hc
  once _ _ hs := (h.sound hs).nodup
  nonempty _ _ hs hp := h.full trivial hs hp (Set.notMem_empty _)
  lengths _ _ hs := (h.sound hs).lengths
  positive _ _ hs := ((h.sound hs).shares trivial).1
  sum _ _ hs hne := ((h.sound hs).shares trivial).2 fun e => by
    have := (h.sound hs).lengths
    rw [e] at this
    exact hne (List.eq_nil_of_length_eq_zero this.symm)
  fresh _ hn := h.fresh hn

/-- A split that lists a child is a node. -/
theorem contains_of_mem_children {p c : NodeId} (hc : c ∈ a.children p) : a.contains p = true := by
  unfold children at hc
  cases e : a.splitAt p with
  | none => simp [e] at hc
  | some s => exact contains_of_splitAt e

/-- **A well-formed arena has a rank**: the distance from the root. -/
theorem WellFormed.ok (h : a.WellFormed) : ∃ r, Ok True ∅ ∅ r a := by
  have hroot : ∀ p, a.root ∉ a.children p := fun p hp => by
    have := h.parent p a.root hp
    rw [h.root_parent] at this
    cases this
  have huniq : UniqueParent a.children := fun p q c hp hq => by
    have := h.parent p c hp
    rw [h.parent q c hq] at this
    exact (Option.some.inj this).symm
  obtain ⟨r, hr⟩ := exists_ranked huniq hroot fun p c hc =>
    h.reached p (contains_of_mem_children hc)
  refine ⟨r, h.root_split, h.root_parent, Set.notMem_empty _, fun hc => ⟨h.parent _ _ hc,
    Set.notMem_empty _⟩, fun hn hne _ => ?_, hr, fun hs => ⟨h.once _ _ hs, h.lengths _ _ hs,
    fun _ => ⟨h.positive _ _ hs, fun hne => ?_⟩⟩, fun hn => h.fresh _ hn,
    fun _ _ _ hs hp _ => h.nonempty _ _ hs hp⟩
  · obtain e | ⟨p, -, hp⟩ := Relation.ReflTransGen.cases_tail (h.reached _ hn)
    · exact absurd e hne
    · exact ⟨p, hp⟩
  · refine h.sum _ _ hs fun e => hne ?_
    have := h.lengths _ _ hs
    rw [e] at this
    exact List.eq_nil_of_length_eq_zero this

/-- **A walk from the root meets every node, once.** -/
theorem WellFormed.walk (h : a.WellFormed) :
    (a.depthFirst a.root).Nodup ∧ ∀ n, n ∈ a.depthFirst a.root ↔ a.contains n = true := by
  obtain ⟨r, hok⟩ := h.ok
  have hroot := hok.contains_root
  refine ⟨hok.nodup_depthFirst hroot, fun n => ?_⟩
  rw [hok.mem_depthFirst hroot]
  exact ⟨hok.contains_below hroot, h.reached n⟩

end Arena

end Swayward
