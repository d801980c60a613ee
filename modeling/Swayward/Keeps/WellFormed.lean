/-
  File:      Swayward/Keeps/WellFormed.lean
  Subject:   WELL-FORMED TREES: arena, focus, side tables and modes.

  `TilingTree.WellFormed` is the invariant as a reader states it. `Inv.wellFormed` and
  `WellFormed.inv` pass between it and the invariant the proofs use.
-/
import Swayward.Keeps.World
import Swayward.Tree.WellFormed

namespace Swayward

open Arena Forest

variable {I : Type}

namespace TilingTree

variable {c : Ctx I} {t : TilingTree I}

/-- The focus is unset exactly on a tree without windows, what it and the side tables name are
    nodes, and no node is in the focus history twice. -/
structure TablesInOrder (t : TilingTree I) : Prop where
  focus_none : t.focus = none ↔ t.windows = []
  focus : ∀ f, t.focus = some f → t.contains f = true
  history : t.focusHistory.Nodup
  names : ∀ n, t.Names n → t.contains n = true
  /-- leaves only are marked -/
  marked : ∀ n, t.Marked n → (t.tile n).isSome

theorem Inv.tablesInOrder (h : Inv c ∅ t) (hs : c.side) (ha : c.awake) (hh : c.hole = ∅) :
    t.TablesInOrder where
  focus_none := by
    rw [← Option.not_isSome_iff_eq_none, h.awake ha, List.eq_nil_iff_forall_not_mem]
    constructor
    · rintro hnone ⟨n, x⟩ hx
      exact hnone ⟨n, Option.isSome_iff_exists.mpr ⟨x, h.mem_windows.mp hx⟩⟩
    · rintro hnone ⟨n, hn⟩
      obtain ⟨x, hx⟩ := Option.isSome_iff_exists.mp hn
      exact hnone (n, x) (h.mem_windows.mpr hx)
  focus f hf := ((h.side hs).focus f hf).resolve_right (by simp [hh])
  history := (h.side hs).history
  names := (h.side hs).names
  marked := (h.side hs).marked

/-- **A well-formed tree**: what `check_invariants` asserts, a resize session apart. -/
structure WellFormed (t : TilingTree I) : Prop where
  arena : t.toArena.WellFormed
  tables : t.TablesInOrder
  modes : t.Modes ∅

theorem Inv.wellFormed (h : Inv c ∅ t) (hf : c.full = True) (hs : c.side) (ha : c.awake)
    (hh : c.hole = ∅) : t.WellFormed where
  arena := by
    obtain ⟨r, hok, -⟩ := h.ok
    rw [hf] at hok
    exact hok.wellFormed
  tables := h.tablesInOrder hs ha hh
  modes := h.modes hs

/-- A leaf's window is among the windows of the tree. -/
theorem mem_windows_of_wellFormed (h : t.toArena.WellFormed) {n : NodeId} {w : I} :
    (n, w) ∈ t.windows ↔ (t.tile n).map (·.window) = some w := by
  unfold Arena.windows
  simp only [List.mem_filterMap, h.walk.2]
  constructor
  · rintro ⟨m, -, hm⟩
    obtain ⟨tile, ht, e⟩ := Option.map_eq_some_iff.mp hm
    cases e
    rw [ht]
    rfl
  · intro hn
    obtain ⟨tile, ht, rfl⟩ := Option.map_eq_some_iff.mp hn
    exact ⟨n, contains_of_tile ht, by rw [ht]; rfl⟩

theorem WellFormed.inv (h : t.WellFormed) : Inv (World.ctx False False t) ∅ t where
  ok := by
    obtain ⟨r, hok⟩ := h.arena.ok
    exact ⟨r, hok, False.elim⟩
  tiles _ := rfl
  side _ := ⟨fun f hf => .inl (h.tables.focus f hf), h.tables.names, h.tables.marked,
    h.tables.history⟩
  modes _ := h.modes
  awake _ := by
    rw [← not_iff_not, Option.not_isSome_iff_eq_none, h.tables.focus_none,
      List.eq_nil_iff_forall_not_mem]
    constructor
    · rintro hnone ⟨n, hn⟩
      obtain ⟨x, hx⟩ := Option.isSome_iff_exists.mp hn
      exact hnone (n, x) ((mem_windows_of_wellFormed h.arena).mpr hx)
    · rintro hnone ⟨n, x⟩ hx
      exact hnone ⟨n, Option.isSome_iff_exists.mpr ⟨x, (mem_windows_of_wellFormed h.arena).mp hx⟩⟩
  marks := False.elim
  bare := False.elim
  calm := False.elim

end TilingTree

end Swayward
