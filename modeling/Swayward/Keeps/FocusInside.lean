/-
  File:      Swayward/Keeps/FocusInside.lean
  Subject:   FOCUS COMMANDS AND THE FULLSCREEN NODE.

  While a node is fullscreen nothing else of the workspace is shown, so a relative focus command
  must not leave it. The walk for a direction stops at the fullscreen node; `focus parent` refuses
  to leave it, `focus child` only goes down. The walk for a sibling knows no barrier: it stays
  inside only if it finds its target before the fullscreen node, or nothing above it would do.
-/
import Swayward.Keeps.Visible
import Swayward.Layout.SoundTree

namespace Swayward

variable {I : Type}

open Forest Arena Positions
open Option (bind_some isSome_or none_or or_eq_some_iff or_none)

namespace TilingTree

variable {t : TilingTree I} {F n p x : NodeId} {axis : Layout} {backwards : Bool}
variable {wrap : Option NodeId}

section Walk

variable {g : Prop} {r : NodeId → ℕ} (hok : Ok g ∅ ∅ r t.toArena)

/-! ## 1. One step of the walk for a sibling -/

/-- The child next to `n`, if the split around `n` runs along `axis`. -/
def siblingAt (t : TilingTree I) (axis : Layout) (backwards : Bool) (n : NodeId) : Option NodeId :=
  ((t.parentOf n).bind t.splitAt).bind fun s =>
    if s.layout.parallel axis then
      (s.children.idxOf? n).bind (neighbour s.children · backwards)
    else
      none

/-- The far end of the split around `n`, if the focus may wrap around there. -/
def wrapAt (t : TilingTree I) (axis : Layout) (backwards : Bool) (n : NodeId) : Option NodeId :=
  ((t.parentOf n).bind t.splitAt).bind fun s =>
    if s.layout.parallel axis ∧ t.options.focusWrapping ≠ .no ∧ 1 < s.children.length then
      farEnd s.children backwards
    else
      none

theorem neighbour_ne {l : List NodeId} {i : ℕ} (hnodup : l.Nodup) (hi : l.idxOf? x = some i) :
    neighbour l i backwards ≠ some x := by
  obtain ⟨hlt, hx, -⟩ := List.idxOf?_eq_some_iff.mp hi
  intro h
  unfold neighbour at h
  split at h
  · split at h
    · cases h
    · obtain ⟨hlt', hx'⟩ := List.getElem?_eq_some_iff.mp h
      have := hnodup.getElem_inj_iff.mp (hx'.trans hx.symm)
      omega
  · obtain ⟨hlt', hx'⟩ := List.getElem?_eq_some_iff.mp h
    have := hnodup.getElem_inj_iff.mp (hx'.trans hx.symm)
    omega

/-- The far end of two or more is another node, seen from where nothing comes next. -/
theorem farEnd_ne {l : List NodeId} {i : ℕ} (hnodup : l.Nodup) (hi : l.idxOf? x = some i)
    (hmany : 1 < l.length) (hnone : neighbour l i backwards = none) :
    farEnd l backwards ≠ some x := by
  obtain ⟨hlt, hx, -⟩ := List.idxOf?_eq_some_iff.mp hi
  intro h
  unfold neighbour at hnone
  unfold farEnd at h
  cases backwards with
  | true =>
    rw [if_pos rfl] at hnone h
    rw [List.getLast?_eq_getElem?] at h
    obtain ⟨hlt', hx'⟩ := List.getElem?_eq_some_iff.mp h
    have hi' := hnodup.getElem_inj_iff.mp (hx'.trans hx.symm)
    rw [if_neg (by omega)] at hnone
    have := List.getElem?_eq_none_iff.mp hnone
    omega
  | false =>
    rw [if_neg Bool.false_ne_true] at hnone h
    rw [List.head?_eq_getElem?] at h
    obtain ⟨hlt', hx'⟩ := List.getElem?_eq_some_iff.mp h
    have hi' := hnodup.getElem_inj_iff.mp (hx'.trans hx.symm)
    have := List.getElem?_eq_none_iff.mp hnone
    omega

theorem mem_of_siblingAt (hp : t.parentOf n = some p)
    (h : t.siblingAt axis backwards n = some x ∨ t.wrapAt axis backwards n = some x) :
    x ∈ t.children p := by
  unfold siblingAt wrapAt at h
  rw [hp, bind_some] at h
  cases hs : t.splitAt p with
  | none => simp [hs] at h
  | some s =>
    rw [hs, bind_some, bind_some] at h
    rw [children_of_splitAt hs]
    rcases h with h | h
    · split at h
      · obtain ⟨i, -, hi⟩ := Option.bind_eq_some_iff.mp h
        exact mem_of_neighbour hi
      · cases h
    · split at h
      · exact mem_of_farEnd h
      · cases h

include hok

/-- **One step of the walk**: it ends at the sibling, with forced wrapping at the far end; otherwise
    it goes up and remembers the first far end. -/
theorem siblingTarget_succ (fuel : ℕ) (hp : t.parentOf n = some p)
    (hforce : t.options.focusWrapping = .force → wrap = none) :
    t.siblingTarget axis backwards (fuel + 1) wrap n = (t.siblingAt axis backwards n).or
        (if t.options.focusWrapping = .force then
          (t.wrapAt axis backwards n).or (t.siblingTarget axis backwards fuel wrap p) else
          t.siblingTarget axis backwards fuel (wrap.or (t.wrapAt axis backwards n)) p) := by
  obtain ⟨s, hs, hmem⟩ := splitAt_of_mem_children (hok.mem_children hp)
  obtain ⟨i, hi⟩ := exists_idxOf? hmem
  rw [siblingTarget]
  unfold siblingAt wrapAt
  simp only [hp, hs, hi, bind_some]
  by_cases hpar : s.layout.parallel axis = true
  · simp only [hpar, if_true, true_and]
    cases neighbour s.children i backwards with
    | some target => rfl
    | none =>
      by_cases hw : t.options.focusWrapping ≠ .no ∧ 1 < s.children.length
      · have hfar : (farEnd s.children backwards).isSome := by
          unfold farEnd
          have := List.ne_nil_of_length_pos (Nat.zero_lt_of_lt hw.2)
          cases backwards <;> simp [this]
        obtain ⟨y, hy⟩ := Option.isSome_iff_exists.mp hfar
        by_cases hf : t.options.focusWrapping = .force
        · simp [hf, hforce hf, hw.2, hy]
        · cases wrap <;> simp [hf, hw, hy]
      · simp only [← and_assoc, hw, false_and, if_false]
        split <;> simp
  · simp [hpar]

/-! ## 2. The walk for a sibling and a barrier it does not know -/

/-- The walk that starts at `f` ends inside `F`: on the way up to `F` it finds a sibling, or with
    forced wrapping a far end; or no node from `F` on has a sibling, and the first far end is inside
    `F` or there is none. -/
def SiblingInside (t : TilingTree I) (F : NodeId) (axis : Layout) (backwards : Bool) (f : NodeId) :
    Prop :=
  let inner := fun n => Below t.children F n ∧ n ≠ F ∧ Below t.children n f
  (∃ n, inner n ∧ ((t.siblingAt axis backwards n).isSome ∨
      t.options.focusWrapping = .force ∧ (t.wrapAt axis backwards n).isSome)) ∨
    ((∀ n, Below t.children n F → t.siblingAt axis backwards n = none) ∧
      ((∃ n, inner n ∧ (t.wrapAt axis backwards n).isSome) ∨
        ∀ n, Below t.children n F → t.wrapAt axis backwards n = none))

/-- From `F` on the walk finds nothing new. -/
theorem siblingTarget_above (fuel : ℕ) (hn : Below t.children n F)
    (hforce : t.options.focusWrapping = .force → wrap = none)
    (hsib : ∀ m, Below t.children m F → t.siblingAt axis backwards m = none)
    (hwrap : wrap.isSome ∨ ∀ m, Below t.children m F → t.wrapAt axis backwards m = none) :
    t.siblingTarget axis backwards fuel wrap n = wrap := by
  induction fuel generalizing n with
  | zero => rfl
  | succ fuel ih =>
    cases hp : t.parentOf n with
    | none => rw [siblingTarget, hp]
    | some p =>
      have hup : Below t.children p F :=
        (Below.of_kid (hok.mem_children hp)).trans hn
      rw [siblingTarget_succ hok fuel hp hforce, hsib n hn, none_or]
      rcases hwrap with hw | hw
      · obtain ⟨y, rfl⟩ := Option.isSome_iff_exists.mp hw
        rw [if_neg fun e => by cases hforce e]
        exact ih hup
      · rw [hw n hn, none_or, or_none, ite_self]
        exact ih hup

theorem below_of_below_kid (h : Below t.children x n) (hne : n ≠ x) (hp : t.parentOf n = some p) :
    Below t.children x p := by
  obtain ⟨q, hq, hnq⟩ := h.parent hne
  cases hp.symm.trans (hok.kid_parent hnq)
  exact hq

theorem below_parent_or_eq (h : Below t.children x n) (hp : t.parentOf n = some p) :
    x = n ∨ Below t.children x p := by
  by_cases hne : n = x
  · exact .inl hne.symm
  · exact .inr (below_of_below_kid hok h hne hp)

theorem eq_of_below_below (h : Below t.children F n) (h' : Below t.children n F) : n = F := by
  by_contra hne
  obtain ⟨p, hp, hn⟩ := h.parent hne
  exact hok.ranked.not_below_kid hn (h'.trans hp)

/-- **The walk for a sibling stays inside.** The walk carries either the whole condition, or a far
    end inside `F` with no sibling beyond. -/
theorem siblingTarget_inside (fuel : ℕ) (hn : Below t.children F n)
    (hforce : t.options.focusWrapping = .force → wrap = none)
    (hwrap : ∀ y, wrap = some y → Below t.children F y) (hin : t.SiblingInside F axis backwards n ∨
      (wrap.isSome ∧ ∀ m, Below t.children m F → t.siblingAt axis backwards m = none))
    (h : t.siblingTarget axis backwards fuel wrap n = some x) : Below t.children F x := by
  induction fuel generalizing n wrap with
  | zero => exact hwrap x h
  | succ fuel ih =>
    by_cases hF : n = F
    · -- no node is both inside `F` and on the way up from it
      subst hF
      have hnone : ∀ {m}, ¬ (Below t.children n m ∧ m ≠ n ∧ Below t.children m n) := fun hm =>
        hm.2.1 (eq_of_below_below hok hm.1 hm.2.2)
      have habove : (∀ m, Below t.children m n → t.siblingAt axis backwards m = none) ∧
          (wrap.isSome ∨ ∀ m, Below t.children m n → t.wrapAt axis backwards m = none) := by
        rcases hin with (⟨m, hm, -⟩ | ⟨hsib, ⟨m, hm, -⟩ | hw⟩) | ⟨hw, hsib⟩
        · exact absurd hm hnone
        · exact absurd hm hnone
        · exact ⟨hsib, .inr hw⟩
        · exact ⟨hsib, .inl hw⟩
      rw [siblingTarget_above hok _ hn hforce habove.1 habove.2] at h
      exact hwrap x h
    · cases hp : t.parentOf n with
      | none =>
        rw [siblingTarget, hp] at h
        exact hwrap x h
      | some p =>
        have hpF := below_of_below_kid hok hn hF hp
        -- what lay on the way from here lies on the way from the parent, but for `n` itself
        have hup : ∀ {m}, Below t.children m n → m ≠ n → Below t.children m p := fun hm hne =>
          below_of_below_kid hok hm (Ne.symm hne) hp
        rw [siblingTarget_succ hok fuel hp hforce] at h
        rcases or_eq_some_iff.mp h with h | ⟨hsibn, h⟩
        · exact hpF.step (mem_of_siblingAt hp (.inl h))
        have hnext : t.wrapAt axis backwards n = some x ∨
            ((t.options.focusWrapping = .force → t.wrapAt axis backwards n = none) ∧
              t.siblingTarget axis backwards fuel (wrap.or (t.wrapAt axis backwards n)) p =
                some x) := by
          split at h
          · rcases or_eq_some_iff.mp h with h | ⟨hnone, h⟩
            · exact .inl h
            · exact .inr ⟨fun _ => hnone, by rwa [hnone, or_none]⟩
          · exact .inr ⟨fun e => absurd e ‹_›, h⟩
        rcases hnext with h | ⟨hwrapn, h⟩
        · exact hpF.step (mem_of_siblingAt hp (.inr h))
        refine ih hpF (fun e => ?_) (fun y hy => ?_) ?_ h
        · rw [hforce e, hwrapn e, or_none]
        · rcases or_eq_some_iff.mp hy with hy | ⟨-, hy⟩
          · exact hwrap y hy
          · exact hpF.step (mem_of_siblingAt hp (.inr hy))
        · rcases hin with (⟨m, ⟨hFm, hne, hmn⟩, hm⟩ | ⟨hsib, ⟨m, ⟨hFm, hne, hmn⟩, hm⟩ | hw⟩) |
            ⟨hw, hsib⟩
          · refine .inl (.inl ⟨m, ⟨hFm, hne, hup hmn ?_⟩, hm⟩)
            rintro rfl
            rcases hm with hm | ⟨hf, hm⟩
            · simp [hsibn] at hm
            · simp [hwrapn hf] at hm
          · by_cases e : m = n
            · exact .inr ⟨by rw [isSome_or, ← e, hm, Bool.or_true], hsib⟩
            · exact .inl (.inr ⟨hsib, .inl ⟨m, ⟨hFm, hne, hup hmn e⟩, hm⟩⟩)
          · exact .inl (.inr ⟨hsib, .inr hw⟩)
          · exact .inr ⟨by rw [isSome_or, hw, Bool.true_or], hsib⟩

/-- What a step from `F` or from above it lands on is outside `F`. -/
theorem not_below_of_siblingAt (hn : Below t.children n F) (hp : t.parentOf n = some p)
    (h : t.siblingAt axis backwards n = some x ∨
      t.siblingAt axis backwards n = none ∧ t.wrapAt axis backwards n = some x) :
    ¬ Below t.children F x := by
  have hx : x ∈ t.children p := mem_of_siblingAt hp (h.imp_right And.right)
  -- another child of the same split
  have hne : x ≠ n := by
    obtain ⟨s, hs, hmem⟩ := splitAt_of_mem_children (hok.mem_children hp)
    obtain ⟨i, hi⟩ := exists_idxOf? hmem
    have hnodup : s.children.Nodup := (hok.sound hs).nodup
    unfold siblingAt wrapAt at h
    simp only [hp, hs, hi, bind_some] at h
    rintro rfl
    by_cases hpar : s.layout.parallel axis = true
    · simp only [hpar, if_true, true_and] at h
      rcases h with h | ⟨hnone, h⟩
      · exact neighbour_ne hnodup hi h
      · obtain ⟨hmany, hfar⟩ := Option.ite_none_right_eq_some.mp h
        exact farEnd_ne hnodup hi hmany.2 hnone hfar
    · simp [hpar] at h
  intro hF
  refine hok.ranked.not_below_kid (hok.mem_children hp) ?_
  exact below_of_below_kid hok (hn.trans hF) hne (hok.kid_parent hx)

theorem parentOf_eq_none (h : t.nodeDepth n = 0) : t.parentOf n = none := by
  rw [(hok.climbs no_unlinked).nodeDepth_eq] at h
  cases hp : t.parentOf n with
  | none => rfl
  | some p => simp [hp] at h

/-- At the top there is nothing to find. -/
theorem wrap_of_top (htop : t.parentOf n = none)
    (h : (∃ m, Below t.children m n ∧ (t.siblingAt axis backwards m).isSome) ∨
      (wrap = none ∧ ∃ m, Below t.children m n ∧ (t.wrapAt axis backwards m).isSome) ∨
      ∃ y, wrap = some y ∧ ¬ Below t.children F y) :
    ∃ y, wrap = some y ∧ ¬ Below t.children F y := by
  have hself : ∀ {m}, Below t.children m n → m = n := by
    intro m hm
    by_contra hne
    obtain ⟨p, -, hkid⟩ := hm.parent (Ne.symm hne)
    cases htop.symm.trans (hok.kid_parent hkid)
  rcases h with ⟨m, hm, hsome⟩ | ⟨-, m, hm, hsome⟩ | h
  · rw [hself hm, siblingAt, htop] at hsome
    cases hsome
  · rw [hself hm, wrapAt, htop] at hsome
    cases hsome
  · exact h

/-- From `F` on the walk ends outside `F`, if a sibling or, with nothing found inside, a far end is
    there. -/
theorem siblingTarget_leaves (fuel : ℕ) (hn : Below t.children n F) (hfuel : t.nodeDepth n ≤ fuel)
    (hforce : t.options.focusWrapping = .force → wrap = none)
    (h : (∃ m, Below t.children m n ∧ (t.siblingAt axis backwards m).isSome) ∨
      (wrap = none ∧ ∃ m, Below t.children m n ∧ (t.wrapAt axis backwards m).isSome) ∨
      ∃ y, wrap = some y ∧ ¬ Below t.children F y) :
    ∃ y, t.siblingTarget axis backwards fuel wrap n = some y ∧ ¬ Below t.children F y := by
  induction fuel generalizing n wrap with
  | zero =>
    obtain ⟨y, rfl, hy⟩ := wrap_of_top hok (parentOf_eq_none hok (Nat.le_zero.mp hfuel)) h
    exact ⟨y, rfl, hy⟩
  | succ fuel ih =>
    cases hp : t.parentOf n with
    | none =>
      obtain ⟨y, rfl, hy⟩ := wrap_of_top hok hp h
      exact ⟨y, by rw [siblingTarget, hp], hy⟩
    | some p =>
      have hup : Below t.children p F := (Below.of_kid (hok.mem_children hp)).trans hn
      have hdepth : t.nodeDepth p ≤ fuel := by
        rw [(hok.climbs no_unlinked).nodeDepth_eq, hp] at hfuel
        exact Nat.le_of_succ_le_succ hfuel
      rw [siblingTarget_succ hok fuel hp hforce]
      cases hsib : t.siblingAt axis backwards n with
      | some y => exact ⟨y, rfl, not_below_of_siblingAt hok hn hp (.inl hsib)⟩
      | none =>
        rw [none_or]
        -- a sibling is further up
        have hfar : ∀ {m}, Below t.children m n → (t.siblingAt axis backwards m).isSome →
            Below t.children m p := by
          intro m hm hsome
          refine (below_parent_or_eq hok hm hp).resolve_left ?_
          rintro rfl
          rw [hsib] at hsome
          cases hsome
        cases hwrap : t.wrapAt axis backwards n with
        | some y =>
          have hy := not_below_of_siblingAt hok hn hp (.inr ⟨hsib, hwrap⟩)
          by_cases hf : t.options.focusWrapping = .force
          · exact ⟨y, by rw [if_pos hf]; rfl, hy⟩
          rw [if_neg hf]
          refine ih hup hdepth (fun e => absurd e hf) ?_
          rcases h with ⟨m, hm, hsome⟩ | ⟨rfl, -⟩ | ⟨z, rfl, hz⟩
          · exact .inl ⟨m, hfar hm hsome, hsome⟩
          · exact .inr (.inr ⟨y, none_or, hy⟩)
          · exact .inr (.inr ⟨z, rfl, hz⟩)
        | none =>
          rw [none_or, or_none, ite_self]
          refine ih hup hdepth hforce ?_
          rcases h with ⟨m, hm, hsome⟩ | ⟨hnone, m, hm, hsome⟩ | hz
          · exact .inl ⟨m, hfar hm hsome, hsome⟩
          · refine .inr (.inl ⟨hnone, m, (below_parent_or_eq hok hm hp).resolve_left ?_, hsome⟩)
            rintro rfl
            rw [hwrap] at hsome
            cases hsome
          · exact .inr (.inr hz)

theorem at_barrier {fuel : ℕ} (hF : n = F) (hfuel : t.nodeDepth n ≤ fuel)
    (hforce : t.options.focusWrapping = .force → wrap = none)
    (h : (∃ m, Below t.children m F ∧ (t.siblingAt axis backwards m).isSome) ∨
      (wrap = none ∧ ∃ m, Below t.children m F ∧ (t.wrapAt axis backwards m).isSome)) :
    ∃ y, t.siblingTarget axis backwards fuel wrap n = some y ∧ ¬ Below t.children F y := by
  subst hF
  exact siblingTarget_leaves hok _ (Below.refl n) hfuel hforce (h.imp_right .inl)

/-- **Otherwise the walk for a sibling leaves.** On the way up to `F` it finds nothing that ends it,
    and from there on it goes by what is outside. -/
theorem siblingTarget_outside (fuel : ℕ) (hn : Below t.children F n) (hfuel : t.nodeDepth n ≤ fuel)
    (hforce : t.options.focusWrapping = .force → wrap = none)
    (hinner : ∀ m, Below t.children F m → m ≠ F → Below t.children m n →
      t.siblingAt axis backwards m = none ∧
        (t.options.focusWrapping = .force → t.wrapAt axis backwards m = none))
    (h : (∃ m, Below t.children m F ∧ (t.siblingAt axis backwards m).isSome) ∨
      (wrap = none ∧ (∀ m, Below t.children F m → m ≠ F → Below t.children m n →
          t.wrapAt axis backwards m = none) ∧
        ∃ m, Below t.children m F ∧ (t.wrapAt axis backwards m).isSome)) :
    ∃ y, t.siblingTarget axis backwards fuel wrap n = some y ∧ ¬ Below t.children F y := by
  induction fuel generalizing n wrap with
  | zero =>
    by_cases hF : n = F
    · exact at_barrier hok hF hfuel hforce (h.imp_right fun hw => ⟨hw.1, hw.2.2⟩)
    obtain ⟨p, -, hkid⟩ := hn.parent hF
    have htop := parentOf_eq_none hok (Nat.le_zero.mp hfuel)
    cases htop.symm.trans (hok.kid_parent hkid)
  | succ fuel ih =>
    by_cases hF : n = F
    · exact at_barrier hok hF hfuel hforce (h.imp_right fun hw => ⟨hw.1, hw.2.2⟩)
    obtain ⟨p, hpF, hkid⟩ := hn.parent hF
    have hp := hok.kid_parent hkid
    have hdepth : t.nodeDepth p ≤ fuel := by
      rw [(hok.climbs no_unlinked).nodeDepth_eq, hp] at hfuel
      exact Nat.le_of_succ_le_succ hfuel
    have hup : ∀ {m}, Below t.children m p → Below t.children m n := fun hm => hm.step hkid
    obtain ⟨hsib, hwrap⟩ := hinner n hn hF (Below.refl n)
    have hcarried : t.siblingTarget axis backwards (fuel + 1) wrap n =
        t.siblingTarget axis backwards fuel (wrap.or (t.wrapAt axis backwards n)) p := by
      rw [siblingTarget_succ hok fuel hp hforce, hsib, none_or]
      split
      · rename_i hf
        rw [hwrap hf, none_or, or_none]
      · rfl
    rw [hcarried]
    refine ih hpF hdepth (fun hf => by rw [hforce hf, hwrap hf, or_none])
      (fun m hFm hne hm => hinner m hFm hne (hup hm)) (h.imp_right ?_)
    rintro ⟨rfl, hnone, hfar⟩
    exact ⟨by rw [hnone n hn hF (Below.refl n)]; rfl,
      fun m hFm hne hm => hnone m hFm hne (hup hm), hfar⟩

/-! ## 3. The walk for a direction -/

/-- **The walk for a direction stops at the barrier.** -/
theorem directionalTarget_inside (dir : Direction) (allowWrap : Bool) (fuel : ℕ)
    (hn : Below t.children F n) (hwrap : ∀ y, wrap = some y → Below t.children F y)
    (h : t.directionalTarget dir allowWrap (some F) fuel wrap n = some x) :
    Below t.children F x := by
  have hup : ∀ {n p}, Below t.children F n → ¬ some F = some n → t.parentOf n = some p →
      Below t.children F p := fun hn hF hp => below_of_below_kid hok hn (fun e => hF (e ▸ rfl)) hp
  have hkid : ∀ {p s y}, Below t.children F p → t.splitAt p = some s → y ∈ s.children →
      Below t.children F y := fun hpF hs hy => hpF.step (children_of_splitAt hs ▸ hy)
  fun_induction directionalTarget t dir allowWrap (some F) fuel wrap n with
  | case1 | case2 | case3 => exact hwrap x h
  | case6 _ _ n p hp hF s hs _ _ _ leaf hleaf =>
    cases h
    exact hkid (hup hn hF hp) hs (mem_of_neighbour hleaf)
  | case7 _ _ n p hp hF s hs => exact hkid (hup hn hF hp) hs (mem_of_farEnd h)
  | case8 _ wrap n p hp hF s hs climb _ _ _ _ _ _ ih =>
    have hfar : ∀ y, wrap.or (farEnd s.children dir.isBackwards) = some y →
        Below t.children F y := by
      intro y hy
      rcases or_eq_some_iff.mp hy with hy | ⟨-, hy⟩
      · exact hwrap y hy
      · exact hkid (hup hn hF hp) hs (mem_of_farEnd hy)
    dsimp only [climb] at h
    split at h
    · exact hfar x h
    · exact ih _ (hup hn hF hp) hfar h
  | case9 _ _ n p hp hF s hs climb _ _ _ _ _ ih | case10 _ _ n p hp hF s hs climb _ ih =>
    dsimp only [climb] at h
    split at h
    · exact hwrap x h
    · exact ih _ (hup hn hF hp) hwrap h
  | _ => cases h

end Walk

/-! ## 4. The commands -/

/-- The focus is at `F` or inside it. -/
def FocusInside (t : TilingTree I) (F : NodeId) : Prop :=
  ∃ f, t.focus = some f ∧ Below t.children F f

theorem focusInside_setFocusId (h : Below t.children F x) : (t.setFocusId (some x)).FocusInside F :=
  ⟨x, focus_setFocusId _, by rwa [toArena_setFocusId]⟩

/-- What `focus next|prev sibling` needs in order to stay inside `F`; the axis is that of the split
    around the focus. -/
def SiblingStays (t : TilingTree I) (F : NodeId) (next : Bool) : Prop :=
  ∀ f layout, t.focus = some f → (t.parentOf f).bind t.layoutOf = some layout →
    t.SiblingInside F (Layout.axis layout) (!next) f

section Commands

variable {g : Prop} {r : NodeId → ℕ} (hok : Ok g ∅ ∅ r t.toArena) (hin : t.FocusInside F)

include hok hin

theorem focusDirectionInner_inside (hF : t.fullscreenNode = some F) (hcon : t.contains F = true)
    (dir : Direction) (allowWrap : Bool) :
    (t.focusDirectionInner dir allowWrap).1.FocusInside F := by
  obtain ⟨f, hf, hb⟩ := hin
  unfold focusDirectionInner
  cases hnext : t.directionalFocusTarget dir allowWrap with
  | none =>
    dsimp only
    rw [none_or, hf]
    exact focusInside_setFocusId hb
  | some leaf =>
    obtain ⟨y, hy, hleaf⟩ := Option.bind_eq_some_iff.mp hnext
    rw [hf, hF, bind_some] at hy
    have hyF := directionalTarget_inside hok dir allowWrap t.size hb (by simp) hy
    exact focusInside_setFocusId
      (hyF.trans (below_focusedLeafIn hok (hok.contains_below hcon hyF) hleaf).1)

theorem focusNextOrPrev_inside (hF : t.fullscreenNode = some F) (hcon : t.contains F = true)
    (next : Bool) : (t.focusNextOrPrev next).1.FocusInside F := by
  unfold focusNextOrPrev
  split
  · exact hin
  · split
    · exact focusDirectionInner_inside hok hin hF hcon _ _
    · exact focusDirectionInner_inside hok hin hF hcon _ _

theorem focusParent_inside (hF : t.fullscreenNode = some F) : t.focusParent.1.FocusInside F := by
  obtain ⟨f, hf, hb⟩ := hin
  unfold focusParent
  rw [hf, hF]
  dsimp only
  split
  · exact ⟨f, hf, hb⟩
  rename_i hne
  split
  · exact ⟨f, hf, hb⟩
  · rename_i p hp
    exact focusInside_setFocusId (below_of_below_kid hok hb (fun e => hne (e ▸ rfl)) hp)

omit hok in
theorem focusChild_inside : t.focusChild.1.FocusInside F := by
  obtain ⟨f, hf, hb⟩ := hin
  unfold focusChild
  rw [hf, bind_some]
  split
  · rename_i child hchild
    exact focusInside_setFocusId (hb.step (mem_children_of_focusedChildIn hchild))
  · exact ⟨f, hf, hb⟩

/-- **The command for a sibling stays inside exactly under its condition.** -/
theorem focusNextPrevSibling_inside (next : Bool) :
    (t.focusNextPrevSibling next).1.FocusInside F ↔ t.SiblingStays F next := by
  obtain ⟨f, hf, hb⟩ := hin
  unfold SiblingStays
  constructor
  · intro hstays f' layout hf' hlayout
    cases hf.symm.trans hf'
    by_contra hnot
    unfold SiblingInside at hnot
    simp only [not_or, not_exists, not_and] at hnot
    obtain ⟨hinner, houter⟩ := hnot
    have hdepth : t.nodeDepth f ≤ t.size := length_climb_le _ _ _
    have hnothing : ∀ m, Below t.children F m → m ≠ F → Below t.children m f →
        t.siblingAt (Layout.axis layout) (!next) m = none ∧ (t.options.focusWrapping = .force →
          t.wrapAt (Layout.axis layout) (!next) m = none) := by
      intro m hFm hne hm
      obtain ⟨hsib, hwrap⟩ := hinner m ⟨hFm, hne, hm⟩
      exact ⟨Option.not_isSome_iff_eq_none.mp hsib,
        fun hforce => Option.not_isSome_iff_eq_none.mp (hwrap hforce)⟩
    obtain ⟨y, hy, hleaves⟩ := siblingTarget_outside hok t.size hb hdepth (fun _ => rfl)
      hnothing (by
        by_cases hsib : ∀ m, Below t.children m F →
            t.siblingAt (Layout.axis layout) (!next) m = none
        · obtain ⟨hnone, hfar⟩ := houter hsib
          push Not at hfar
          obtain ⟨m, hm, hsome⟩ := hfar
          exact .inr ⟨rfl, fun m hFm hne hm =>
            Option.not_isSome_iff_eq_none.mp (hnone m ⟨hFm, hne, hm⟩),
            m, hm, Option.isSome_iff_ne_none.mpr hsome⟩
        · push Not at hsib
          obtain ⟨m, hm, hsome⟩ := hsib
          exact .inl ⟨m, hm, Option.isSome_iff_ne_none.mpr hsome⟩)
    unfold focusNextPrevSibling at hstays
    simp only [hf, hlayout, hy] at hstays
    obtain ⟨f', hf', hb'⟩ := hstays
    rw [focus_setFocusId] at hf'
    rw [toArena_setFocusId] at hb'
    exact hleaves (Option.some.inj hf' ▸ hb')
  · intro hstays
    unfold focusNextPrevSibling
    rw [hf]
    dsimp only
    split
    · exact ⟨f, hf, hb⟩
    rename_i layout hlayout
    split
    · rename_i target htarget
      exact focusInside_setFocusId (siblingTarget_inside hok t.size hb (fun _ => rfl) (by simp)
        (.inl (hstays f layout hf hlayout)) htarget)
    · exact ⟨f, hf, hb⟩

end Commands

/-- **The relative focus commands stay inside the fullscreen node**, the one for a sibling exactly
    if the walk ends before it or finds nothing beyond. -/
theorem focus_stays_inside (t : TilingTree I) (h : t.WellFormed) (F : NodeId)
    (hF : t.fullscreenNode = some F) (hin : t.FocusInside F) :
    (∀ dir, (t.focusDirection dir).1.FocusInside F ∧
        (t.focusDirectionWithoutWrap dir).1.FocusInside F) ∧
      (∀ next, (t.focusNextOrPrev next).1.FocusInside F) ∧
      t.focusParent.1.FocusInside F ∧ t.focusChild.1.FocusInside F ∧
      ∀ next, (t.focusNextPrevSibling next).1.FocusInside F ↔ t.SiblingStays F next := by
  have hok := h.inv.exact.1
  have hcon := (h.inv.side trivial).contains_fullscreenNode (fullscreenNode_some hF)
  exact ⟨fun dir => ⟨focusDirectionInner_inside hok hin hF hcon dir true,
      focusDirectionInner_inside hok hin hF hcon dir false⟩,
    focusNextOrPrev_inside hok hin hF hcon, focusParent_inside hok hin hF, focusChild_inside hin,
    focusNextPrevSibling_inside hok hin⟩

/-- Window `7` beside a container with `8` over `9`, the last one focused; node `id` fullscreen. -/
def fullscreenAt (id : NodeId) : List (Step ℕ) :=
  [.newTree {}, World.openWindow 0 7, World.openWindow 0 8,
    .quiet 0 (.layout (.splitFocused .splitV)), World.openWindow 0 9,
    .quiet 0 (.mode (.setNodeFullscreen id (some .workspace)))]

theorem focus_stays_inside_container : ∃ t : TilingTree ℕ, t.fullscreenNode = some 3 ∧
    t.focus = some 4 ∧ t.SiblingStays 3 false ∧ (t.focusNextPrevSibling false).1.FocusInside 3 := by
  let t := SoundTree.ofRun (fullscreenAt 3) (by decide +kernel) 0
  have hkid : Below t.tree.children 3 4 := Below.of_kid (by decide +kernel)
  have hstays : t.tree.SiblingStays 3 false := by
    rintro f layout hf hlayout
    have hf' : t.tree.focus = some 4 := by decide +kernel
    cases hf.symm.trans hf'
    have hl : (t.tree.parentOf 4).bind t.tree.layoutOf = some .splitV := by decide +kernel
    cases hlayout.symm.trans hl
    exact .inl ⟨4, ⟨hkid, by decide, Below.refl 4⟩, .inl (by decide +kernel)⟩
  have hall := focus_stays_inside t.tree t.wellFormed 3 (by decide +kernel)
    ⟨4, by decide +kernel, hkid⟩
  exact ⟨t.tree, by decide +kernel, by decide +kernel, hstays, (hall.2.2.2.2 false).mpr hstays⟩

/-- Window `9` is fullscreen and focused; its sibling gets the focus. -/
theorem focusNextPrevSibling_leaves : ∃ t : TilingTree ℕ, t.WellFormed ∧
    t.fullscreenNode = some 4 ∧ t.FocusInside 4 ∧
      ¬ (t.focusNextPrevSibling false).1.FocusInside 4 := by
  let t := SoundTree.ofRun (fullscreenAt 4) (by decide +kernel) 0
  refine ⟨t.tree, t.wellFormed, by decide +kernel, ⟨4, by decide +kernel, Below.refl 4⟩, ?_⟩
  rintro ⟨f, hf, hb⟩
  have hf' : (t.tree.focusNextPrevSibling false).1.focus = some 2 := by decide +kernel
  cases hf.symm.trans hf'
  have hleaf : (t.tree.focusNextPrevSibling false).1.children 4 = [] := by decide +kernel
  rcases below_iff_kid.mp hb with e | ⟨k, hk, -⟩
  · cases e
  · rw [hleaf] at hk
    cases hk

end TilingTree

end Swayward
