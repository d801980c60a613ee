/-
  File:      Swayward/Library/Forest.lean
  Subject:   FORESTS GIVEN BY CHILD LISTS: order, ranks, walks with fuel.

  A forest over a type `α` is a function `kids : α → List α`. It has no cycle exactly when a rank
  grows along its edges; ranks are the currency of this file:

  * `Below kids c n` -- `n` lies in the subtree of `c`;
  * `Ranked kids r` -- the rank `r` grows along every edge;
  * `Ranked.graft`, `Ranked.wrap`, `Ranked.swap` -- how a rank is repaired when a subtree is hung
    under another node, put under a new node, or traded for another one;
  * `fold_unfold` -- a recursion over subtrees that carries fuel satisfies its own equation without
    fuel, if the fuel covers the nodes of the subtree; `subtree_induction` is the matching
    induction;
  * `mem_climb_iff` -- the same for the walk along parent links.
-/
import Mathlib.Data.List.Basic
import Mathlib.Data.Nat.Basic
import Mathlib.Data.Nat.Find
import Mathlib.Logic.Relation
import Mathlib.Order.Basic

namespace Forest

variable {α : Type*}

/-! ## 1. Order and rank -/

/-- `n` lies in the subtree of `c`. -/
def Below (kids : α → List α) (c n : α) : Prop :=
  Relation.ReflTransGen (fun p c => c ∈ kids p) c n

/-- The rank grows along every edge. -/
def Ranked (kids : α → List α) (r : α → ℕ) : Prop :=
  ∀ p c, c ∈ kids p → r p < r c

/-- No node is listed under two parents. -/
def UniqueParent (kids : α → List α) : Prop :=
  ∀ p q c, c ∈ kids p → c ∈ kids q → p = q

variable {kids kids' : α → List α} {r : α → ℕ}
variable {c n : α} {fuel : ℕ}

theorem Below.refl (n : α) : Below kids n n := Relation.ReflTransGen.refl

theorem Below.trans {a b : α} (h : Below kids a b) (h' : Below kids b c) : Below kids a c :=
  Relation.ReflTransGen.trans h h'

theorem Below.of_kid {p : α} (h : c ∈ kids p) : Below kids p c :=
  Relation.ReflTransGen.single h

theorem Below.step {a p : α} (h : Below kids a p) (hc : c ∈ kids p) : Below kids a c :=
  h.tail hc

/-- Below a node: the node itself or below one of its kids. -/
theorem below_iff_kid : Below kids c n ↔ n = c ∨ ∃ k ∈ kids c, Below kids k n := by
  unfold Below
  rw [Relation.ReflTransGen.cases_head_iff]
  exact or_congr eq_comm Iff.rfl

/-- Everything strictly below `c` has its parent below `c`. -/
theorem Below.parent (h : Below kids c n) (hne : n ≠ c) : ∃ p, Below kids c p ∧ n ∈ kids p := by
  rcases Relation.ReflTransGen.cases_tail h with e | ⟨p, hp, hn⟩
  · exact absurd e hne
  · exact ⟨p, hp, hn⟩

theorem Below.mono (hk : ∀ p c, c ∈ kids p → c ∈ kids' p) (h : Below kids c n) : Below kids' c n :=
  Relation.ReflTransGen.mono hk _ _ h

theorem Ranked.le (hr : Ranked kids r) (h : Below kids c n) : r c ≤ r n := by
  induction h with
  | refl => exact le_rfl
  | tail _ hn ih => exact ih.trans (hr _ _ hn).le

theorem Ranked.lt (hr : Ranked kids r) (h : Below kids c n) (hne : n ≠ c) : r c < r n := by
  obtain ⟨p, hp, hn⟩ := h.parent hne
  exact (hr.le hp).trans_lt (hr _ _ hn)

theorem Ranked.antisymm (hr : Ranked kids r) (h : Below kids c n) (h' : Below kids n c) : n = c := by
  by_contra hne
  exact absurd (hr.lt h hne) (hr.le h').not_gt

/-- A parent is not below its kid. -/
theorem Ranked.not_below_kid (hr : Ranked kids r) {p : α} (hc : c ∈ kids p) : ¬ Below kids c p :=
  fun h => absurd (hr.le h) (hr p c hc).not_ge

/-- With unique parents, two nodes above a common node are comparable. -/
theorem UniqueParent.comparable (hu : UniqueParent kids) {a b : α} (ha : Below kids a n)
    (hb : Below kids b n) : Below kids a b ∨ Below kids b a := by
  induction ha with
  | refl => exact .inr hb
  | tail hp hn ih =>
    rcases Relation.ReflTransGen.cases_tail hb with e | ⟨q, hq, hn'⟩
    · subst e
      exact .inl (hp.tail hn)
    · obtain rfl := hu _ _ _ hn hn'
      exact ih hq

/-! ## 2. Repairing a rank -/

section Repair

variable {p : α}

open Classical in
/-- The rank after hanging the subtree of `c` under `p`. -/
noncomputable def graftRank (kids : α → List α) (r : α → ℕ) (c p : α) (n : α) : ℕ :=
  if Below kids c n then r n + (r p + 1) - r c else r n

theorem graftRank_of_below {c n : α} (h : Below kids c n) :
    graftRank kids r c p n = r n + (r p + 1) - r c := by
  simp [graftRank, h]

theorem graftRank_of_not_below {c n : α} (h : ¬ Below kids c n) : graftRank kids r c p n = r n := by
  simp [graftRank, h]

/-- **Hanging an unlisted subtree under a node outside it keeps the forest ranked.** -/
theorem Ranked.graft (hr : Ranked kids r) (hu : UniqueParent kids) {c : α} (hc : ∀ q, c ∉ kids q)
    (hp : ¬ Below kids c p) (hk : ∀ q x, x ∈ kids' q → x ∈ kids q ∨ (q = p ∧ x = c)) :
    Ranked kids' (graftRank kids r c p) := by
  intro q x hx
  rcases hk q x hx with hx | ⟨rfl, rfl⟩
  · by_cases hq : Below kids c q
    · -- inside the subtree both ends are shifted alike
      rw [graftRank_of_below hq, graftRank_of_below (hq.step hx)]
      have := hr q x hx
      have := hr.le hq
      omega
    · have hx' : ¬ Below kids c x := by
        intro h
        by_cases e : x = c
        · exact hc q (e ▸ hx)
        · obtain ⟨q', hq', hx'⟩ := h.parent e
          exact hq (hu _ _ _ hx hx' ▸ hq')
      rw [graftRank_of_not_below hq, graftRank_of_not_below hx']
      exact hr q x hx
  · rw [graftRank_of_not_below hp, graftRank_of_below (Below.refl _)]
    omega

open Classical in
/-- The rank after putting the subtrees of `K` under a new node `w`, itself under `p`. -/
noncomputable def wrapRank (kids : α → List α) (r : α → ℕ) (K : List α) (p w : α) (n : α) : ℕ :=
  if n = w then r p + 1 else if ∃ c ∈ K, Below kids c n then r n + 1 else r n

/-- **Putting a new node between `p` and nodes of higher rank keeps the forest ranked.** -/
theorem Ranked.wrap (hr : Ranked kids r) {K : List α} {w : α} (hpw : p ≠ w)
    (hK : ∀ c ∈ K, r p < r c ∧ c ≠ w)
    (hk : ∀ q x, x ∈ kids' q → (q = p ∧ x = w) ∨ (q = w ∧ x ∈ K) ∨ (q ≠ w ∧ x ≠ w ∧ x ∈ kids q)) :
    Ranked kids' (wrapRank kids r K p w) := by
  have hp : ¬ ∃ c ∈ K, Below kids c p := by
    rintro ⟨c, hc, h⟩
    exact absurd (hr.le h) (hK c hc).1.not_ge
  intro q x hx
  unfold wrapRank
  rcases hk q x hx with ⟨rfl, rfl⟩ | ⟨rfl, hxK⟩ | ⟨hqw, hxw, hx⟩
  · simp [hpw, hp]
  · have hbelow : ∃ c ∈ K, Below kids c x := ⟨x, hxK, Below.refl x⟩
    simp [(hK x hxK).2, hbelow, (hK x hxK).1]
  have hlt := hr q x hx
  simp only [hqw, hxw, if_false]
  by_cases hq : ∃ c ∈ K, Below kids c q
  · obtain ⟨c, hc, hcq⟩ := hq
    have hbelow : ∃ c ∈ K, Below kids c x := ⟨c, hc, hcq.step hx⟩
    rw [if_pos ⟨c, hc, hcq⟩, if_pos hbelow]
    omega
  · rw [if_neg hq]
    split <;> omega

open Classical in
/-- The rank after the subtrees of `c` and `d` have traded places. -/
noncomputable def swapRank (kids : α → List α) (r : α → ℕ) (c d : α) (n : α) : ℕ :=
  if Below kids c n then r n + r d - r c
  else if Below kids d n then r n + r c - r d
  else r n

/-- **Trading two disjoint subtrees keeps the forest ranked.** -/
theorem Ranked.swap (hr : Ranked kids r) (hu : UniqueParent kids) {c d q : α} (hcp : c ∈ kids p)
    (hdq : d ∈ kids q) (hcd : ¬ Below kids c d) (hdc : ¬ Below kids d c)
    (hk : ∀ s x, x ∈ kids' s → (s = q ∧ x = c) ∨ (s = p ∧ x = d) ∨ (x ∈ kids s ∧ x ≠ c ∧ x ≠ d)) :
    Ranked kids' (swapRank kids r c d) := by
  have hcc : ¬ Below kids c p := hr.not_below_kid hcp
  have hdd : ¬ Below kids d q := hr.not_below_kid hdq
  have hcq : ¬ Below kids c q := fun h => hcd (h.step hdq)
  have hdp : ¬ Below kids d p := fun h => hdc (h.step hcp)
  intro s x hx
  rcases hk s x hx with ⟨rfl, rfl⟩ | ⟨rfl, rfl⟩ | ⟨hx, hxc, hxd⟩
  · have := hr _ _ hdq
    simp [swapRank, hcq, hdd, Below.refl]
    omega
  · have := hr _ _ hcp
    simp [swapRank, hcc, hdp, hcd, Below.refl]
    omega
  · have hlt := hr s x hx
    have up : ∀ e, x ≠ e → Below kids e x → Below kids e s := by
      intro e hne h
      obtain ⟨s', hs', hx'⟩ := h.parent hne
      exact hu _ _ _ hx hx' ▸ hs'
    by_cases hc : Below kids c s
    · have := hr.le hc
      simp only [swapRank, hc, hc.step hx, if_true]
      omega
    · by_cases hd : Below kids d s
      · have := hr.le hd
        have hcx : ¬ Below kids c x := fun h => hc (up c hxc h)
        simp only [swapRank, hc, hcx, hd, hd.step hx, if_true, if_false]
        omega
      · have hcx : ¬ Below kids c x := fun h => hc (up c hxc h)
        have hdx : ¬ Below kids d x := fun h => hd (up d hxd h)
        simpa [swapRank, hc, hd, hcx, hdx] using hlt

end Repair

/-! ## 3. Recursion over subtrees with fuel -/

section Fold

variable {β : Type*}

/-- A recursion over the subtree of a node, cut off when the fuel ends. -/
def fold (kids : α → List α) (f : α → List β → β) (cut : β) : ℕ → α → β
  | 0, _ => cut
  | fuel + 1, n => f n ((kids n).map (fold kids f cut fuel))

/-- The nodes of the subtree of `n` are among `l`. -/
def CoveredBy (kids : α → List α) (n : α) (l : List α) : Prop :=
  ∀ m, Below kids n m → m ∈ l

variable {n : α} {l : List α}

/-- A fold looks at its own subtree only. -/
theorem fold_congr {f f' : α → List β → β} {cut : β}
    (hk : ∀ m, Below kids n m → kids' m = kids m) (hf : ∀ m, Below kids n m → f' m = f m) :
    fold kids' f' cut fuel n = fold kids f cut fuel n := by
  induction fuel generalizing n with
  | zero => rfl
  | succ fuel ih =>
    rw [fold, fold, hk n (Below.refl n), hf n (Below.refl n)]
    congr 1
    refine List.map_congr_left fun c hc => ?_
    exact ih (fun m hm => hk m ((Below.of_kid hc).trans hm))
      fun m hm => hf m ((Below.of_kid hc).trans hm)

variable [DecidableEq α]

/-- The subtree of a kid is covered without its parent. -/
theorem CoveredBy.kid (hr : Ranked kids r) {c : α} (h : CoveredBy kids n l) (hc : c ∈ kids n) :
    CoveredBy kids c (l.erase n) := by
  intro m hm
  have hne : m ≠ n := by
    rintro rfl
    exact hr.not_below_kid hc hm
  exact (List.mem_erase_of_ne hne).mpr (h m ((Below.of_kid hc).trans hm))

theorem CoveredBy.length_erase (h : CoveredBy kids n l) : (l.erase n).length + 1 = l.length := by
  have hn : n ∈ l := h n (Below.refl n)
  have := List.length_pos_of_mem hn
  rw [List.length_erase_of_mem hn]
  omega

/-- Fuel beyond the number of covering nodes changes nothing. -/
theorem fold_succ (hr : Ranked kids r) (f : α → List β → β) (cut : β) :
    ∀ (fuel : ℕ) (n : α) (l : List α), CoveredBy kids n l → l.length ≤ fuel →
      fold kids f cut (fuel + 1) n = fold kids f cut fuel n
  | 0, n, l, h, hl => by
      have := h.length_erase
      omega
  | fuel + 1, n, l, h, hl => by
      have hlen := h.length_erase
      rw [fold, fold]
      congr 1
      refine List.map_congr_left fun c hc => ?_
      exact fold_succ hr f cut fuel c (l.erase n) (h.kid hr hc) (by omega)

/-- **With enough fuel a recursion satisfies its equation without fuel.** -/
theorem fold_unfold (hr : Ranked kids r) (f : α → List β → β) (cut : β)
    (h : CoveredBy kids n l) (hl : l.length ≤ fuel) :
    fold kids f cut fuel n = f n ((kids n).map (fold kids f cut fuel)) := by
  rw [← fold_succ hr f cut fuel n l h hl]
  rfl

/-- **Induction over a covered subtree**: from the kids to the node. -/
theorem subtree_induction (hr : Ranked kids r) {P : α → Prop} (h : CoveredBy kids n l)
    (step : ∀ n, (∀ c ∈ kids n, P c) → P n) : P n := by
  induction hl : l.length generalizing n l with
  | zero =>
    have := h.length_erase
    omega
  | succ k ih =>
    have hlen := h.length_erase
    exact step n fun c hc => ih (h.kid hr hc) (by omega)

/-- **The leaves a walk collects** are those below the node it starts from. -/
theorem mem_fold_leaves (hr : Ranked kids r) {leaf : α → Bool}
    (hleaf : ∀ n, leaf n = true → kids n = []) {m : α} (h : CoveredBy kids n l)
    (hl : l.length ≤ fuel) :
    m ∈ fold kids (fun n ls => if leaf n then [n] else ls.flatten) [] fuel n ↔
      Below kids n m ∧ leaf m = true := by
  refine subtree_induction (P := fun n => CoveredBy kids n l →
    (m ∈ fold kids (fun n ls => if leaf n then [n] else ls.flatten) [] fuel n ↔
      Below kids n m ∧ leaf m = true)) hr h (fun n ih h => ?_) h
  have ih : ∀ c ∈ kids n,
      (m ∈ fold kids (fun n ls => if leaf n then [n] else ls.flatten) [] fuel c ↔
        Below kids c m ∧ leaf m = true) := fun c hc =>
    ih c hc fun x hx => h x ((Below.of_kid hc).trans hx)
  rw [fold_unfold hr _ _ h hl, below_iff_kid]
  cases e : leaf n with
  | true =>
    rw [hleaf n e]
    simp only [if_true, List.mem_singleton, List.not_mem_nil, false_and, exists_false, or_false]
    refine ⟨?_, fun hm => hm.1⟩
    rintro rfl
    exact ⟨rfl, e⟩
  | false =>
    simp only [Bool.false_eq_true, if_false, List.mem_flatten, List.mem_map]
    constructor
    · rintro ⟨_, ⟨c, hc, rfl⟩, hm⟩
      obtain ⟨hcm, hm⟩ := (ih c hc).mp hm
      exact ⟨.inr ⟨c, hc, hcm⟩, hm⟩
    · rintro ⟨rfl | ⟨c, hc, hcm⟩, hm⟩
      · rw [e] at hm
        cases hm
      · exact ⟨_, ⟨c, hc, rfl⟩, (ih c hc).mpr ⟨hcm, hm⟩⟩

end Fold

/-! ## 4. Walking up -/

section Climb

variable (parent : α → Option α)

/-- The nodes on the way up from `n`, nearest first, `n` left out. -/
def climb : ℕ → α → List α
  | 0, _ => []
  | fuel + 1, n =>
    match parent n with
    | none => []
    | some p => p :: climb fuel p

theorem length_climb_le (fuel : ℕ) (n : α) : (climb parent fuel n).length ≤ fuel := by
  induction fuel generalizing n with
  | zero => exact Nat.le_refl 0
  | succ fuel ih =>
    rw [climb]
    split
    · exact Nat.zero_le _
    · exact Nat.succ_le_succ (ih _)

/-- `a` is reached from `n` by at least one parent link. -/
def Above (a n : α) : Prop := Relation.TransGen (fun p c => parent c = some p) a n

variable {parent}

theorem above_iff {a n : α} :
    Above parent a n ↔ ∃ p, parent n = some p ∧ (a = p ∨ Above parent a p) := by
  constructor
  · intro h
    obtain ⟨p, hap, hp⟩ := Relation.TransGen.tail'_iff.mp h
    rcases Relation.reflTransGen_iff_eq_or_transGen.mp hap with e | hap
    · exact ⟨p, hp, .inl e.symm⟩
    · exact ⟨p, hp, .inr hap⟩
  · rintro ⟨p, hp, rfl | ha⟩
    · exact Relation.TransGen.single hp
    · exact ha.tail hp

section Fuel

variable (hr : ∀ n p, parent n = some p → r p < r n) {l : List α}
  (hl : ∀ n p, parent n = some p → n ∈ l)

include hr hl

/-- Fuel beyond the number of nodes that can be met changes nothing. -/
theorem climb_succ : ∀ (fuel : ℕ) (n : α), (l.filter fun m => r m ≤ r n).length ≤ fuel →
    climb parent (fuel + 1) n = climb parent fuel n := by
  have hmem : ∀ {n p}, parent n = some p → n ∈ l.filter fun m => r m ≤ r n := fun hp =>
    List.mem_filter.mpr ⟨hl _ _ hp, by simp⟩
  intro fuel
  induction fuel with
  | zero =>
    intro n hlen
    cases e : parent n with
    | none => simp [climb, e]
    | some p =>
      have := List.length_pos_of_mem (hmem e)
      omega
  | succ fuel ih =>
    intro n hlen
    cases e : parent n with
    | none => simp [climb, e]
    | some p =>
      have hp := hr n p e
      -- the parent meets fewer nodes: `n` itself is not among them
      have hsub : l.filter (fun m => r m ≤ r p) =
          (l.filter fun m => r m ≤ r n).filter fun m => r m ≤ r p := by
        rw [List.filter_filter]
        refine List.filter_congr fun m _ => ?_
        by_cases hm : r m ≤ r p
        · have : r m ≤ r n := hm.trans hp.le
          simp [hm, this]
        · simp [hm]
      have hlt : (l.filter fun m => r m ≤ r p).length < (l.filter fun m => r m ≤ r n).length := by
        rw [hsub]
        exact List.length_filter_lt_length_iff_exists.mpr ⟨n, hmem e, by simpa using hp⟩
      have ih := ih p (by omega)
      rw [climb, climb, e]
      exact congrArg (p :: ·) ih

/-- **The walk up satisfies its equation without fuel**, if its fuel covers the nodes with a
    parent. -/
theorem climb_unfold (hf : l.length ≤ fuel) (n : α) :
    climb parent fuel n =
      match parent n with
      | none => []
      | some p => p :: climb parent fuel p := by
  rw [← climb_succ hr hl fuel n ((List.length_filter_le _ _).trans hf)]
  rfl

/-- **The walk up finds exactly the nodes above.** -/
theorem mem_climb_iff (hf : l.length ≤ fuel) {a n : α} :
    a ∈ climb parent fuel n ↔ Above parent a n := by
  induction hk : r n using Nat.strong_induction_on generalizing n with
  | h k ih =>
    rw [climb_unfold hr hl hf, above_iff]
    cases e : parent n with
    | none => simp
    | some p =>
      have hp := hr n p e
      simp [ih (r p) (hk ▸ hp) rfl]

end Fuel

end Climb

/-! ## 5. Ranks from a root -/

/-- `n` is `k` edges below `root`. -/
def Steps (kids : α → List α) (root : α) : ℕ → α → Prop
  | 0, n => n = root
  | k + 1, n => ∃ p, Steps kids root k p ∧ n ∈ kids p

theorem Steps.unique {root : α} (huniq : UniqueParent kids) (hroot : ∀ p, root ∉ kids p) :
    ∀ {k l : ℕ} {n : α}, Steps kids root k n → Steps kids root l n → k = l
  | 0, 0, _, _, _ => rfl
  | 0, _ + 1, _, rfl, ⟨p, _, hp⟩ => absurd hp (hroot p)
  | _ + 1, 0, _, ⟨p, _, hp⟩, rfl => absurd hp (hroot p)
  | k + 1, l + 1, n, ⟨p, hp, hn⟩, ⟨q, hq, hn'⟩ => by
      obtain rfl := huniq p q n hn hn'
      rw [hp.unique huniq hroot hq]

theorem Below.steps {root : α} (h : Below kids root n) : ∃ k, Steps kids root k n := by
  induction h with
  | refl => exact ⟨0, rfl⟩
  | tail _ hc ih =>
    obtain ⟨k, hk⟩ := ih
    exact ⟨k + 1, _, hk, hc⟩

/-- **A forest in which everything with kids hangs below one root has a rank**: the distance to
    the root. -/
theorem exists_ranked {root : α} (huniq : UniqueParent kids) (hroot : ∀ p, root ∉ kids p)
    (hreach : ∀ p c, c ∈ kids p → Below kids root p) : ∃ r, Ranked kids r := by
  classical
  refine ⟨fun n => if h : ∃ k, Steps kids root k n then Nat.find h else 0, fun p c hc => ?_⟩
  obtain ⟨k, hk⟩ := (hreach p c hc).steps
  have hk' : Steps kids root (k + 1) c := ⟨p, hk, hc⟩
  have hp : ∃ k, Steps kids root k p := ⟨k, hk⟩
  have hc : ∃ k, Steps kids root k c := ⟨k + 1, hk'⟩
  simp only [hp, hc, dif_pos]
  rw [(Nat.find_spec hp).unique huniq hroot hk, (Nat.find_spec hc).unique huniq hroot hk']
  exact Nat.lt_succ_self k

end Forest
