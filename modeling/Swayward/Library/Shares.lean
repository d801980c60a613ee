/-
  File:      Swayward/Library/Shares.lean
  Subject:   SHARES: lists of positive numbers that sum to one.

  A container divides its length among its members: each holds a share, all shares are positive
  and together they make one. The empty list is a list of shares too. Every way of changing such a
  list ends in a list of shares again:

  * `normalize_isShares`, `rescale_isShares` -- dividing any positive list by its sum;
  * `insertShare_isShares`, `halve_isShares` -- a newcomer, served by all or by one;
  * `splice_isShares` -- one share divided by a list of shares;
  * `transfer_isShares`, `spread_isShares` -- two members trading, one trading with all others;
  * `equal_isShares` -- everyone the same.
-/
import Mathlib.Algebra.BigOperators.Group.List.Basic
import Mathlib.Algebra.BigOperators.Ring.List
import Mathlib.Algebra.Order.Field.Basic
import Mathlib.Algebra.Order.BigOperators.Group.List
import Mathlib.Tactic.FieldSimp
import Mathlib.Tactic.Linarith
import Mathlib.Tactic.Ring
import Swayward.Library.Positions

namespace Shares

open List

variable {K : Type*} [Field K]
variable {l : List K} {i : ℕ} {x : K}

/-! ## 1. Newcomers -/

/-- Make room for a share `x` and put it in at position `i`. -/
def insertShare (l : List K) (i : ℕ) (x : K) : List K :=
  (l.map (· * (1 - x))).insertIdx i x

theorem length_insertShare (hi : i ≤ l.length) (x : K) :
    (insertShare l i x).length = l.length + 1 := by
  unfold insertShare
  rw [length_insertIdx_of_le_length (by simpa using hi)]
  simp

/-- Halve the share at `target` and put the other half in at position `i`. -/
def halve (l : List K) (target i : ℕ) (x : K) : List K :=
  (l.set target (x / 2)).insertIdx i (x / 2)

theorem length_halve (hi : i ≤ l.length) (target : ℕ) (x : K) :
    (halve l target i x).length = l.length + 1 := by
  unfold halve
  rw [length_insertIdx_of_le_length (by simpa using hi)]
  simp

theorem sum_map_div (l : List K) (x : K) : (l.map (· / x)).sum = l.sum / x := by
  simp only [div_eq_mul_inv, sum_map_mul_right, map_id']

theorem sum_map_const_mul (l : List K) (x : K) : (l.map (x * ·)).sum = x * l.sum := by
  simpa using sum_map_mul_left l id x

theorem sum_map_sub_const (l : List K) (x : K) :
    (l.map (· - x)).sum = l.sum - (l.length : K) * x := by
  induction l with
  | nil => simp
  | cons a l ih =>
    simp only [map_cons, sum_cons, ih, length_cons, Nat.cast_succ]
    ring

/-! ## 2. Shares, and dividing by the sum -/

variable [LinearOrder K]

/-- Positive, and summing to one unless there are none. -/
def IsShares (l : List K) : Prop :=
  (∀ x ∈ l, 0 < x) ∧ (l ≠ [] → l.sum = 1)

theorem isShares_nil : IsShares ([] : List K) := ⟨by simp, by simp⟩

theorem IsShares.perm {l' : List K} (h : IsShares l) (hp : l'.Perm l) : IsShares l' := by
  refine ⟨fun x hx => h.1 x (hp.mem_iff.mp hx), fun hne => ?_⟩
  rw [hp.sum_eq]
  exact h.2 fun e => hne (by rw [e] at hp; exact hp.eq_nil)

theorem isShares_of_pos_of_sum (hl : ∀ x ∈ l, 0 < x) (hs : l.sum = 1) : IsShares l :=
  ⟨hl, fun _ => hs⟩

/-- Divide by the sum, unless that is not positive. -/
def normalize (l : List K) : List K :=
  if 0 < l.sum then l.map (· / l.sum) else l

/-- Divide by the sum; a list without a positive sum falls back to equal shares. -/
def rescale (l : List K) : List K :=
  if 0 < l.sum then l.map (· / l.sum) else l.map fun _ => 1 / (l.length : K)

@[simp] theorem length_normalize (l : List K) : (normalize l).length = l.length := by
  unfold normalize
  split <;> simp

@[simp] theorem length_rescale (l : List K) : (rescale l).length = l.length := by
  unfold rescale
  split <;> simp

/-- Give every member that `fresh` marks the mean of the other members' shares (or one, if all are
    marked), then normalize. -/
def refresh {α : Type*} (fresh : α → Bool) (members : List α) (l : List K) : List K :=
  let kept := (members.zip l).filter fun e => !fresh e.1
  let share := if kept.length = 0 then 1 else (kept.map (·.2)).sum / (kept.length : K)
  normalize (List.zipWith (fun c x => if fresh c then share else x) members l)

theorem length_refresh {α : Type*} (fresh : α → Bool) {members : List α}
    (h : l.length = members.length) : (refresh fresh members l).length = l.length := by
  simp [refresh, h]

/-- **Two members trade a part of their shares.** -/
theorem transfer_isShares (h : IsShares l) {j : ℕ} (hij : i ≠ j) {y d : K} (hi : l[i]? = some x)
    (hj : l[j]? = some y) (hx : 0 < x + d) (hy : 0 < y - d) :
    IsShares ((l.set i (x + d)).set j (y - d)) := by
  obtain ⟨hi', ei⟩ := List.getElem?_eq_some_iff.mp hi
  obtain ⟨hj', ej⟩ := List.getElem?_eq_some_iff.mp hj
  refine isShares_of_pos_of_sum ?_ ?_
  · intro z hz
    rcases mem_or_eq_of_mem_set hz with hz | rfl
    · rcases mem_or_eq_of_mem_set hz with hz | rfl
      · exact h.1 z hz
      · exact hx
    · exact hy
  · have hsum := h.2 (ne_nil_of_length_pos (by omega))
    have h1 : (l.set i (x + d)).sum = l.sum + d := by
      rw [sum_set', dif_pos hi', ei]
      ring
    rw [sum_set', dif_pos (by simpa using hj'), h1, hsum]
    simp only [getElem_set_ne hij, ej]
    ring

/-! ## 3. What keeps a list of shares -/

/-- **One member takes from all the others alike.** -/
theorem spread_isShares (h : IsShares l) {d e : K} (hi : l[i]? = some x)
    (he : d = ((l.length - 1 : ℕ) : K) * e) (hx : 0 < x + d)
    (hrest : ∀ y ∈ l.eraseIdx i, 0 < y - e) : IsShares ((l.map (· - e)).set i (x + d)) := by
  obtain ⟨hi', ei⟩ := List.getElem?_eq_some_iff.mp hi
  refine isShares_of_pos_of_sum (fun z hz => ?_) ?_
  · obtain ⟨k, hk, rfl⟩ := mem_iff_getElem.mp hz
    simp only [length_set, length_map] at hk
    by_cases e' : i = k
    · subst e'
      simpa using hx
    · rw [getElem_set_ne e', getElem_map]
      exact hrest _ (mem_eraseIdx_iff_getElem.mpr ⟨k, hk, fun e => e' e.symm, rfl⟩)
  · have hsum := h.2 (ne_nil_of_length_pos (by omega))
    have hlen : (l.length : K) = ((l.length - 1 : ℕ) : K) + 1 := by
      rw [← Nat.cast_succ]
      congr 1
      omega
    rw [sum_set', dif_pos (by simpa using hi'), sum_map_sub_const, hsum]
    simp only [getElem_map, ei]
    rw [he, hlen]
    ring

variable [IsStrictOrderedRing K]

theorem equal_isShares {α : Type*} (l : List α) : IsShares (l.map fun _ => 1 / (l.length : K)) := by
  rcases l with - | ⟨a, l⟩
  · exact isShares_nil
  have hpos : (0 : K) < ((a :: l).length : K) := by
    exact_mod_cast Nat.succ_pos l.length
  refine isShares_of_pos_of_sum (fun x hx => ?_) ?_
  · obtain ⟨-, -, rfl⟩ := mem_map.mp hx
    positivity
  · rw [map_const', sum_replicate, nsmul_eq_mul]
    field_simp

/-- **A positive list divided by its sum is a list of shares.** -/
theorem normalize_isShares (hl : ∀ x ∈ l, 0 < x) : IsShares (normalize l) := by
  rcases eq_or_ne l [] with rfl | hne
  · simpa [normalize] using isShares_nil
  have hpos := sum_pos l hl hne
  simp only [normalize, hpos, if_true]
  refine isShares_of_pos_of_sum ?_ ?_
  · intro y hy
    obtain ⟨x, hx, rfl⟩ := mem_map.mp hy
    exact div_pos (hl x hx) hpos
  · rw [sum_map_div, div_self hpos.ne']

theorem rescale_isShares (hl : ∀ x ∈ l, 0 < x) : IsShares (rescale l) := by
  rcases eq_or_ne l [] with rfl | hne
  · simpa [rescale] using isShares_nil
  · have hpos := sum_pos l hl hne
    have h := normalize_isShares hl
    simpa only [normalize, rescale, hpos, if_true] using h

/-- **A newcomer is served by all members alike.** -/
theorem insertShare_isShares (h : IsShares l) (hi : i ≤ l.length) (hx : 0 < x)
    (hlt : l ≠ [] → x < 1) (hone : l = [] → x = 1) :
    IsShares (insertShare l i x) := by
  have hp : (insertShare l i x).Perm (x :: l.map (· * (1 - x))) :=
    perm_insertIdx _ _ (by simpa using hi)
  refine IsShares.perm (isShares_of_pos_of_sum ?_ ?_) hp
  · intro y hy
    rcases mem_cons.mp hy with rfl | hy
    · exact hx
    · obtain ⟨z, hz, rfl⟩ := mem_map.mp hy
      have := hlt (ne_nil_of_mem hz)
      exact mul_pos (h.1 z hz) (by linarith)
  · rw [sum_cons, sum_map_mul_right, map_id']
    rcases eq_or_ne l [] with rfl | hne
    · simp [hone rfl]
    · rw [h.2 hne]; ring

/-- **A share that goes and comes back** leaves all shares as they were. -/
theorem insertShare_rescale {A B : List K} (h : IsShares (A ++ x :: B)) :
    insertShare (rescale (A ++ B)) A.length x = A ++ x :: B := by
  have hsum : (A ++ B).sum = 1 - x := by
    have := h.2 (by simp)
    simp only [sum_append, sum_cons] at this ⊢
    linarith
  have key : (rescale (A ++ B)).map (· * (1 - x)) = A ++ B := by
    rcases eq_or_ne (A ++ B) [] with e | hne
    · simp [e, rescale]
    have hpos := sum_pos (A ++ B) (fun y hy => h.1 y (by
      rcases mem_append.mp hy with hy | hy <;> simp [hy])) hne
    have hx : 1 - x ≠ 0 := by rw [← hsum]; exact hpos.ne'
    unfold rescale
    rw [if_pos hpos, map_map, hsum]
    refine (map_congr_left fun y _ => ?_).trans (map_id _)
    simp [div_mul_cancel₀ y hx]
  unfold insertShare
  rw [key, Positions.insertIdx_around]

/-- **A newcomer takes half of one share.** -/
theorem halve_isShares {A B : List K} (h : IsShares (A ++ x :: B)) (hi : i ≤ (A ++ x :: B).length) :
    IsShares (halve (A ++ x :: B) A.length i x) := by
  have hset : (A ++ x :: B).set A.length (x / 2) = A ++ x / 2 :: B := by simp
  have hp : (halve (A ++ x :: B) A.length i x).Perm (x / 2 :: (A ++ x / 2 :: B)) := by
    unfold halve
    rw [hset]
    exact perm_insertIdx _ _ (by simpa using hi)
  have hx : 0 < x := h.1 x (by simp)
  refine IsShares.perm (isShares_of_pos_of_sum ?_ ?_) hp
  · intro y hy
    simp only [mem_cons, mem_append] at hy
    rcases hy with rfl | hy | rfl | hy
    · linarith
    · exact h.1 y (by simp [hy])
    · linarith
    · exact h.1 y (by simp [hy])
  · have := h.2 (by simp)
    simp only [sum_cons, sum_append] at this ⊢
    linarith

/-- **One share divided by a list of shares.** -/
theorem splice_isShares {A B G : List K} (h : IsShares (A ++ x :: B)) (hG : IsShares G)
    (hne : G ≠ []) : IsShares (A ++ G.map (x * ·) ++ B) := by
  have hx : 0 < x := h.1 x (by simp)
  refine isShares_of_pos_of_sum ?_ ?_
  · intro y hy
    simp only [mem_append, mem_map] at hy
    rcases hy with (hy | ⟨z, hz, rfl⟩) | hy
    · exact h.1 y (by simp [hy])
    · exact mul_pos hx (hG.1 z hz)
    · exact h.1 y (by simp [hy])
  · have := h.2 (by simp)
    simp only [sum_cons, sum_append, sum_map_const_mul, hG.2 hne] at this ⊢
    linarith

/-- **Refreshing a list of positive shares.** -/
theorem refresh_isShares {α : Type*} (fresh : α → Bool) (members : List α) (hl : ∀ x ∈ l, 0 < x) :
    IsShares (refresh fresh members l) := by
  unfold refresh
  set kept := (members.zip l).filter fun e => !fresh e.1
  have hkept : ∀ y ∈ kept.map (·.2), 0 < y := by
    intro y hy
    obtain ⟨⟨c, x⟩, he, rfl⟩ := mem_map.mp hy
    exact hl x (of_mem_zip (mem_filter.mp he).1).2
  have hshare : (0 : K) <
      if kept.length = 0 then 1 else (kept.map (·.2)).sum / (kept.length : K) := by
    split
    · exact one_pos
    rename_i hne
    have hne' : kept.map (·.2) ≠ [] := by
      intro e
      exact hne (by simpa using congrArg length e)
    exact div_pos (sum_pos _ hkept hne') (by exact_mod_cast Nat.pos_of_ne_zero hne)
  refine normalize_isShares fun y hy => ?_
  rw [zipWith_eq_zipWith_take_min, ← map_uncurry_zip_eq_zipWith] at hy
  obtain ⟨⟨c, x⟩, he, rfl⟩ := mem_map.mp hy
  have hx : 0 < x := hl x (mem_of_mem_take (of_mem_zip he).2)
  simp only [Function.uncurry]
  split
  · exact hshare
  · exact hx

end Shares
