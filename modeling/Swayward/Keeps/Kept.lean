/-
  File:      Swayward/Keeps/Kept.lean
  Subject:   WHAT AN OPERATION KEEPS: the invariant, and what an open resize session reads.

  A session names the leaf it resizes and, for each axis, two neighbouring siblings with the shares
  they had when it began. Nearly every operation closes the session or leaves alone what it reads
  (`Minds`). `Kept` joins that to the invariant, so that each operation is gone through once.
-/
import Swayward.Tree.Invariant

namespace Swayward

open Arena Forest

variable {I : Type} {c : Ctx I} {E : Set NodeId}

/-- The context in which no resize session is open. -/
def Ctx.calmed (c : Ctx I) : Ctx I := { c with calm := True }

namespace TilingTree

variable {t t' u v : TilingTree I} {a b p id : NodeId} {x y : ℚ}

/-! ## 1. What a session reads -/

/-- `first` and `second` are neighbours in one split, with shares `x` and `y`. -/
def Neighbours (t : TilingTree I) (first second : NodeId) (x y : ℚ) : Prop :=
  ∃ p i j, t.neighbourShares first second = some (p, i, j, x, y)

/-- What `neighbourShares` finds. -/
theorem neighbourShares_iff {a b p : NodeId} {i j : ℕ} {x y : ℚ} :
    t.neighbourShares a b = some (p, i, j, x, y) ↔
      t.parentOf a = some p ∧ t.parentOf b = some p ∧ ∃ s, t.splitAt p = some s ∧
        s.children.idxOf? a = some i ∧ s.children.idxOf? b = some j ∧ (i + 1 = j ∨ j + 1 = i) ∧
        s.percents[i]? = some x ∧ s.percents[j]? = some y := by
  constructor
  · intro h
    revert h
    fun_cases neighbourShares t a b with
    | case3 q hq hb s hs i' j' hj hi hij x' y' hy hx =>
      rintro ⟨⟩
      exact ⟨hq, hb, s, hs, hi, hj, hij, hx, hy⟩
    | _ => exact fun h => nomatch h
  · rintro ⟨ha, hb, s, hs, hi, hj, hij, hx, hy⟩
    simp only [neighbourShares, ha, hb, hs, hi, hj, hij, hx, hy, if_true]

/-- `t'` has the windows of `t` at the same leaves, and all neighbours of `t` with their shares. -/
structure Steady (t t' : TilingTree I) : Prop where
  window : ∀ n, (t'.tile n).map (·.window) = (t.tile n).map (·.window)
  shares : ∀ {a b x y}, t.Neighbours a b x y → t'.Neighbours a b x y

theorem Steady.refl (t : TilingTree I) : Steady t t := ⟨fun _ => rfl, id⟩

theorem Steady.trans (h : Steady t t') (h' : Steady t' u) : Steady t u :=
  ⟨fun n => (h'.window n).trans (h.window n), fun hn => h'.shares (h.shares hn)⟩

theorem neighbourShares_congr (hp : ∀ n, t'.parentOf n = t.parentOf n)
    (hs : ∀ n, t'.splitAt n = t.splitAt n) (a b : NodeId) :
    t'.neighbourShares a b = t.neighbourShares a b := by
  unfold neighbourShares
  simp only [hp, hs]

theorem Steady.of_readings (hw : ∀ n, (t'.tile n).map (·.window) = (t.tile n).map (·.window))
    (hp : ∀ n, t'.parentOf n = t.parentOf n) (hs : ∀ n, t'.splitAt n = t.splitAt n) :
    Steady t t' := by
  refine ⟨hw, fun {a b x y} hn => ?_⟩
  unfold Neighbours at hn ⊢
  rwa [neighbourShares_congr hp hs]

/-- An operation closes the session, or leaves it and what it reads alone. -/
def Minds (t t' : TilingTree I) : Prop :=
  t'.interactiveResize = none ∨
    (t'.interactiveResize = t.interactiveResize ∧ Steady t t')

theorem Minds.refl (t : TilingTree I) : Minds t t := .inr ⟨rfl, .refl t⟩

theorem Minds.trans (h : Minds t t') (h' : Minds t' u) : Minds t u := by
  rcases h' with hnone | ⟨he', hs'⟩
  · exact .inl hnone
  · rcases h with hnone | ⟨he, hs⟩
    · exact .inl (he'.trans hnone)
    · exact .inr ⟨he'.trans he, hs.trans hs'⟩

/-- An operation on side tables only. -/
theorem Minds.of_arena (hr : t'.interactiveResize = t.interactiveResize)
    (ha : t'.toArena = t.toArena) : Minds t t' := by
  refine .inr ⟨hr, .of_readings (fun n => ?_) (fun n => ?_) fun n => ?_⟩ <;> rw [ha]

/-! ## 2. Operations -/

theorem Inv.close (h : Inv c E t) : Inv c.calmed E { t with interactiveResize := none } :=
  { h.withSession (fun _ => rfl) with calm := fun _ => rfl }

theorem Inv.uncalm (h : Inv c.calmed E t) : Inv c E t :=
  ⟨h.ok, h.tiles, h.side, h.modes, h.awake, h.marks, h.bare, fun _ => h.calm trivial⟩

/-- **What is kept from `t` to `u`**: the invariant, and what a session reads unless it is closed. -/
structure Kept (c : Ctx I) (E : Set NodeId) (t u : TilingTree I) : Prop where
  inv : Inv c E u
  minds : Minds t u

theorem Kept.same (h : Inv c E t) : Kept c E t t := ⟨h, .refl t⟩

/-- The session was closed. -/
theorem Kept.closed (h : Inv c.calmed E u) : Kept c E t u := ⟨h.uncalm, .inl (h.calm trivial)⟩

/-- Only side tables differ. -/
theorem Kept.side (h : Inv c E u) (hr : u.interactiveResize = t.interactiveResize)
    (ha : u.toArena = t.toArena) : Kept c E t u := ⟨h, .of_arena hr ha⟩

theorem Kept.focus {o : Option NodeId} (h : Inv c E (t.setFocusId o)) :
    Kept c E t (t.setFocusId o) :=
  .side h (by cases o <;> rfl) (toArena_setFocusId o)

theorem Kept.trans (h : Kept c E t u) (h' : Kept c E u v) : Kept c E t v :=
  ⟨h'.inv, h.minds.trans h'.minds⟩

theorem Kept.requestWindowSizes (h : Kept c E t u) : Kept c E t u.requestWindowSizes :=
  h.trans ⟨h.inv.requestWindowSizes, .inr ⟨rfl, .of_readings window_requestWindowSizes
    parentOf_requestWindowSizes splitAt_requestWindowSizes⟩⟩

theorem Kept.ite {P : Prop} [Decidable P] (hu : P → Kept c E t u) (hv : ¬ P → Kept c E t v) :
    Kept c E t (if P then u else v) := by
  split
  · exact hu ‹_›
  · exact hv ‹_›

theorem Kept.ite_fst {α : Type*} {P : Prop} [Decidable P] {x y : TilingTree I × α}
    (hx : P → Kept c E t x.1) (hy : ¬ P → Kept c E t y.1) :
    Kept c E t (if P then x else y).1 := by
  split
  · exact hx ‹_›
  · exact hy ‹_›

end TilingTree

end Swayward
