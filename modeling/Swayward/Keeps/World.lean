/-
  File:      Swayward/Keeps/World.lean
  Subject:   RUNS KEEP THE INVARIANT: every tree of a reachable world is in order.

  `World.Good` says that every tree satisfies the invariant, that every subtree in transit fits into
  any of them, and that no window is in two places. `Good.next` is the step lemma: it asks for the
  conditions the code does not check, and says which windows come and go. `Good.history` is the
  induction over a run.
-/
import Swayward.Keeps.Swap

namespace Swayward

open Arena Forest TilingTree List

variable {I : Type}

namespace World

/-! ## 1. The invariant of a world -/

/-- The context of a tree in a world: everything in force but for the depth bound and the marks,
    which are so where asked for. -/
def ctx (deep marks : Prop) (t : TilingTree I) : Ctx I where
  full := True
  side := True
  deep := deep
  awake := True
  marks := marks
  bare := False
  calm := False
  windows n := (t.tile n).map (·.window)
  hole := ∅
  awake_full _ := trivial
  awake_side _ := trivial
  marks_full _ := trivial
  marks_side _ := trivial

/-- The windows of the trees but the one at `i`. -/
def others (w : World I) (i : ℕ) : List I := (w.trees.eraseIdx i).flatMap held

/-- The windows in transit. -/
def moving (w : World I) : List I := w.transit.flatMap (·.windows)

structure Good (deep marks : Prop) (w : World I) : Prop where
  trees : ∀ t ∈ w.trees, Inv (ctx deep marks t) ∅ t
  counter : ∀ t ∈ w.trees, t.counter ≤ w.counter
  transit : ∀ s ∈ w.transit, s.node.Fit (ctx deep marks (new 0 {} : TilingTree I)) w.counter
  distinct : w.windows.Nodup

/-- `w'` is in order, and has the windows of `w` and the first of `traffic` without the second. -/
def Next (deep marks : Prop) (w : World I) (traffic : List I × List I) (w' : World I) : Prop :=
  Good deep marks w' ∧ (w.windows ++ traffic.1).Perm (w'.windows ++ traffic.2)

theorem perm_append_right_comm (a b c : List I) : (a ++ b ++ c).Perm (a ++ c ++ b) := by
  rw [append_assoc, append_assoc]
  exact perm_append_comm.append_left a

variable {deep marks : Prop} {w w' : World I} {t u : TilingTree I} {i : ℕ}
variable {transit : List (DetachedSubtree I)}

theorem Good.next_of_perm (h : Good deep marks w') (hperm : w.windows.Perm w'.windows) :
    Next deep marks w ([], []) w' :=
  ⟨h, hperm.append_right []⟩

/-! ## 2. One tree of a world -/

variable (h : Good deep marks w)
include h

/-- What is known of a tree that is taken up. -/
theorem Good.tree (ht : w.tree i = some t) :
    Inv (ctx deep marks t) ∅ t ∧ t.counter = w.counter ∧
      w.windows.Perm (t.held ++ (w.others i ++ w.moving)) ∧ ∃ t0, w.trees[i]? = some t0 := by
  obtain ⟨t0, h0, rfl⟩ := Option.map_eq_some_iff.mp ht
  have hmem := mem_of_getElem? h0
  have hinv := h.trees t0 hmem
  have hadv := hinv.advance (h.counter t0 hmem)
  refine ⟨hadv, rfl, ?_, t0, h0⟩
  have := ((Positions.flatMap_around held h0).append_right w.moving)
  rw [append_assoc] at this
  exact this.trans ((hinv.held_perm hadv).append_right _)

/-- **A tree is put back**, and with it what is in transit. -/
theorem Good.put (ht : w.tree i = some t) (hu : Inv (ctx deep marks u) ∅ u)
    {k : NodeId} (hk : max w.counter u.counter ≤ k)
    (hfit : ∀ s ∈ transit, s.node.Fit (ctx deep marks (new 0 {} : TilingTree I)) k)
    {traffic : List I × List I} (hnodup : (w.windows ++ traffic.1).Nodup)
    (hperm : (w.windows ++ traffic.1).Perm
      (u.held ++ (w.others i ++ transit.flatMap (·.windows)) ++ traffic.2)) :
    Next deep marks w traffic { counter := k, trees := w.trees.set i u, transit := transit } := by
  obtain ⟨-, -, -, t0, h0⟩ := h.tree ht
  have hset := ((Positions.flatMap_set held h0 u).append_right (transit.flatMap (·.windows)))
  rw [append_assoc] at hset
  replace hperm := hperm.trans (hset.symm.append_right _)
  refine ⟨⟨fun x hx => ?_, fun x hx => ?_, hfit, (hperm.nodup_iff.mp hnodup).of_append_left⟩, hperm⟩
  · rcases mem_or_eq_of_mem_set hx with hx | rfl
    · exact h.trees x hx
    · exact hu
  · rcases mem_or_eq_of_mem_set hx with hx | rfl
    · exact (h.counter x hx).trans ((le_max_left _ _).trans hk)
    · exact (le_max_right _ _).trans hk

theorem Good.put_of_perm (ht : w.tree i = some t)
    (hu : Inv (ctx deep marks u) ∅ u) {k : NodeId} (hk : max w.counter u.counter ≤ k)
    (hfit : ∀ s ∈ transit, s.node.Fit (ctx deep marks (new 0 {} : TilingTree I)) k)
    (hperm : w.windows.Perm (u.held ++ (w.others i ++ transit.flatMap (·.windows)))) :
    Next deep marks w ([], []) { counter := k, trees := w.trees.set i u, transit := transit } := by
  refine h.put ht hu hk hfit ?_ (hperm.append_right [])
  rw [append_nil]
  exact h.distinct

theorem Good.fit_mono {k : NodeId} (hk : w.counter ≤ k) :
    ∀ s ∈ w.transit, s.node.Fit (ctx deep marks (new 0 {} : TilingTree I)) k :=
  fun s hs => (h.transit s hs).congr rfl rfl rfl hk

/-- **A new tree joins.** -/
theorem Good.push (hu : Inv (ctx deep marks u) ∅ u)
    (hfit : ∀ s ∈ transit, s.node.Fit (ctx deep marks (new 0 {} : TilingTree I))
      (max w.counter u.counter))
    (hperm : w.windows.Perm ((w.trees.flatMap held ++ u.held) ++ transit.flatMap (·.windows))) :
    Next deep marks w ([], []) { w.push u with transit := transit } := by
  have hpush : w.windows.Perm ({ w.push u with transit := transit } : World I).windows := by
    simpa only [World.windows, World.push, flatMap_append, flatMap_singleton] using hperm
  refine Good.next_of_perm ⟨fun x hx => ?_, fun x hx => ?_, hfit, hpush.nodup_iff.mp h.distinct⟩ hpush
  · rcases mem_append.mp hx with hx | hx
    · exact h.trees x hx
    · rw [mem_singleton.mp hx]
      exact hu
  · rcases mem_append.mp hx with hx | hx
    · exact (h.counter x hx).trans (le_max_left _ _)
    · rw [mem_singleton.mp hx]
      exact le_max_right _ _

/-! ## 3. Conditions -/

end World

namespace Step

open World

variable [DecidableEq I]

/-- What a step needs for the trees to stay in order: `set_focus` and `focus_root` are for trees with
    a window, a subtree is attached to a node outside it, and holds a window unless it is unwrapped
    into an empty root. The last is the one the code does not ensure. -/
def sane (w : World I) : Step I → Bool
  | .quiet i op => (w.tree i).all (op.promised ·)
  | .tile i op => (w.tree i).all (op.promised ·)
  | .attach i k target unwrap =>
    match w.tree i, w.transit[k]? with
    | some t, some subtree =>
      (t.unwraps subtree unwrap || !subtree.windows.isEmpty) &&
        (target.filter (· < w.counter)).all (t.outside subtree.node ·)
    | _, _ => true
  | .group k _ => w.transit[k]?.all (!·.windows.isEmpty)
  | _ => true

/-- What a step needs for the depth bound. -/
def fits (w : World I) : Step I → Bool
  | .quiet i op => (w.tree i).all (op.fits ·)
  | .attach i k _ unwrap =>
    match w.tree i, w.transit[k]? with
    | some t, some subtree =>
      subtree.height ≤ maxTreeDepth ||
        (t.unwraps subtree unwrap && subtree.height ≤ maxTreeDepth + 1)
    | _, _ => true
  | .group k _ => w.transit[k]?.all (·.height ≤ maxTreeDepth)
  | _ => true

/-- What a step needs for the marks. -/
def holds (w : World I) : Step I → Prop
  | .quiet i op => ∀ t, w.tree i = some t → op.holds t
  | .tile i op => ∀ t, w.tree i = some t → op.holds t
  | .detach i id => ∀ t, w.tree i = some t → t.LeavesHeld id
  | .attach i k _ unwrap => ∀ t subtree, w.tree i = some t → w.transit[k]? = some subtree →
      t.attachHolds subtree unwrap = true
  | .group k _ => ∀ subtree, w.transit[k]? = some subtree → subtree.node.hasMapped = true →
      subtree.hasFullscreen = true
  | .swap i j first second => ∀ t u, w.tree i = some t → w.tree j = some u →
      t.swapHolds first (u.snapshot second) ∧ u.swapHolds second (t.snapshot first)
  | .newTree _ => True

/-- The windows a step brings in, and those it takes away. -/
def traffic (w : World I) : Step I → List I × List I
  | .tile i op =>
    ((w.tree i).filter fun _ => !op.window.any (w.windows.contains ·)).elim ([], []) fun t =>
      (op.window.toList, op.taken t)
  | _ => ([], [])

end Step

namespace World

/-! ## 4. Steps -/

variable {deep marks : Prop} {w : World I} {t u : TilingTree I} {i : ℕ}
variable {sub : DetachedSubtree I}

theorem contains_of_detachSubtree {id : NodeId}
    {x : TilingTree I × DetachedSubtree I × Option NodeId} (h : t.detachSubtree id = some x) :
    t.contains id = true := by
  unfold detachSubtree at h
  by_contra hc
  rw [if_pos (by simpa using hc)] at h
  cases h

/-- What is in transit, without the subtree that is taken up. -/
theorem moving_around {k : ℕ} (hk : w.transit[k]? = some sub) :
    w.moving.Perm (sub.windows ++ (w.transit.eraseIdx k).flatMap (·.windows)) :=
  Positions.flatMap_around (fun s : DetachedSubtree I => s.windows) hk

theorem inv_ctx_new (deep marks : Prop) (counter : NodeId) (config : Config) :
    Inv (ctx deep marks (new counter config : TilingTree I)) ∅ (new counter config) :=
  Inv.onSelf (c := { ctx deep marks (new 0 {} : TilingTree I) with windows := fun _ => none })
    (inv_new counter config fun _ => rfl)

theorem held_new (counter : NodeId) (config : Config) :
    (new counter config : TilingTree I).held = [] := by
  unfold held
  rw [map_eq_nil_iff, eq_nil_iff_forall_not_mem]
  rintro ⟨n, x⟩ hx
  have := (inv_ctx_new False False counter config).mem_windows.mp hx
  change ((new counter config : TilingTree I).tile n).map _ = _ at this
  unfold Arena.tile at this
  rw [get_new] at this
  by_cases e : n = counter <;> simp [e] at this

/-- One tree in the place of another, as an exchange of windows. -/
theorem windows_put {t0 : TilingTree I} (h0 : w.trees[i]? = some t0) (u : TilingTree I) :
    (t0.held ++ (w.put i u).windows).Perm (u.held ++ w.windows) := by
  have h1 : (w.put i u).windows.Perm (u.held ++ (w.others i ++ w.moving)) := by
    rw [← append_assoc]
    exact (Positions.flatMap_set held h0 u).append_right _
  have h2 : w.windows.Perm (t0.held ++ (w.others i ++ w.moving)) := by
    rw [← append_assoc]
    exact (Positions.flatMap_around held h0).append_right _
  exact (h1.append_left _).trans ((perm_append_comm_assoc _ _ _).trans (h2.symm.append_left _))

section

variable [DecidableEq I] (h : Good deep marks w)
include h

theorem Good.quiet (ht : w.tree i = some t) (op : QuietOp I)
    (hp : op.promised t = true) (hfits : deep → op.fits t = true) (hholds : marks → op.holds t) :
    Next deep marks w ([], []) (w.put i (op.run t)) := by
  obtain ⟨hinv, -, hperm, -⟩ := h.tree ht
  have hd : t.held.Nodup := (hperm.nodup_iff.mp h.distinct).of_append_left
  have hrun := hinv.runQuiet (fun _ => trivial) (fun _ => rfl) (fun _ => hinv.distinct hd) id id op
    (fun _ => hp) hfits hholds
  refine h.put_of_perm ht hrun.onSelf le_rfl (h.fit_mono (le_max_left _ _)) ?_
  exact hperm.trans ((hinv.held_perm hrun).append_right _)

theorem Good.tile (ht : w.tree i = some t) (op : TileOp I)
    (hnew : ∀ x ∈ op.window, x ∉ w.windows) (hp : op.promised t = true)
    (hholds : marks → op.holds t) :
    Next deep marks w (op.window.toList, op.taken t) (w.put i (op.run t)) := by
  obtain ⟨hinv, -, hperm, -⟩ := h.tree ht
  obtain ⟨hrun, hheld⟩ := hinv.runTile id op hp (fun _ => trivial) hholds
  refine h.put ht hrun le_rfl (h.fit_mono (le_max_left _ _)) ?_ ?_
  · rw [nodup_append']
    refine ⟨h.distinct, ?_, fun x hx' hx => hnew x (Option.mem_toList.mp hx) hx'⟩
    cases op.window <;> simp
  · -- the other windows step aside, and the tree accounts for its own
    refine (hperm.append_right _).trans ((perm_append_right_comm _ _ _).trans ?_)
    exact (hheld.append_right _).trans (perm_append_right_comm _ _ _)

omit [DecidableEq I] in
theorem Good.detach (ht : w.tree i = some t) {id : NodeId}
    {v : TilingTree I} {q : Option NodeId} (hv : t.detachSubtree id = some (v, sub, q))
    (hholds : marks → t.LeavesHeld id) :
    Next deep marks w ([], []) { (w.tick v).put i (v.finishSubtreeDetach q) with
      transit := w.transit ++ [sub] } := by
  obtain ⟨hinv, hcount, hperm, -⟩ := h.tree ht
  have hid := contains_of_detachSubtree hv
  have hfin := (hinv.detachFinish hid hholds hv).uncalm
  have hheld := hinv.held_detachFinish hid hv
  obtain ⟨v', e, hdet, -, -⟩ := hinv.detachSubtree hid
  rw [hv] at e
  cases e
  refine h.put_of_perm ht hfin (max_le_max_right _ (le_max_left _ _)) ?_ ?_
  · intro s hs
    rcases mem_append.mp hs with hs | hs
    · exact (h.transit s hs).congr rfl rfl rfl ((le_max_left _ _).trans (le_max_left _ _))
    rw [mem_singleton.mp hs]
    refine (hinv.fit_detachment hid).congr rfl rfl rfl ?_
    rw [← hdet.counter]
    exact (le_max_right _ _).trans (le_max_left _ _)
  · rw [flatMap_append, flatMap_singleton]
    refine hperm.trans ((hheld.append_right _).trans ?_)
    rw [append_assoc]
    refine Perm.append_left _ (perm_append_comm.trans ?_)
    rw [append_assoc]
    exact Perm.refl _

theorem Good.attach (ht : w.tree i = some t) {k : ℕ}
    (hk : w.transit[k]? = some sub) {target : Option NodeId}
    (htarget : ∀ x, target = some x → t.outside sub.node x = true) (unwrap : Bool)
    (hwin : t.unwraps sub unwrap = true ∨ sub.windows ≠ [])
    (hdeep : deep → sub.height ≤ maxTreeDepth ∨
      (t.unwraps sub unwrap = true ∧ sub.height ≤ maxTreeDepth + 1))
    (hholds : marks → t.attachHolds sub unwrap = true) :
    Next deep marks w ([], []) { w.put i (t.attachSubtreeWith sub target unwrap).1 with
      transit := w.transit.eraseIdx k } := by
  obtain ⟨hinv, hcount, hperm, -⟩ := h.tree ht
  have hfit : sub.node.Fit (ctx deep marks t) t.counter :=
    (h.transit sub (mem_of_getElem? hk)).congr rfl rfl rfl hcount.ge
  have hatt := hinv.attachSubtreeWith trivial sub hfit htarget unwrap hwin hdeep hholds
  obtain ⟨leaves, hg, hl⟩ := hinv.grows_attachSubtreeWith sub hfit.old target unwrap
  have hheld := hg.held hinv hatt
  rw [hl] at hheld
  refine h.put_of_perm ht hatt le_rfl (fun s hs => ?_) ?_
  · exact h.fit_mono (le_max_left _ _) s (mem_of_mem_eraseIdx hs)
  refine hperm.trans (Perm.trans ?_ (hheld.append_right _).symm)
  rw [append_assoc]
  refine Perm.append_left _ (Perm.trans ?_ (perm_append_comm_assoc _ _ _))
  exact (moving_around hk).append_left _

omit [DecidableEq I] in
theorem Good.newTree (config : Config) :
    Next deep marks w ([], []) (w.push (new w.counter config)) := by
  refine h.push (inv_ctx_new _ _ _ config) (h.fit_mono (le_max_left _ _)) ?_
  rw [held_new, append_nil]
  exact Perm.refl _

theorem Good.group (config : Config) {k : ℕ} (hk : w.transit[k]? = some sub)
    (hwin : sub.windows ≠ []) (hdeep : deep → sub.height ≤ maxTreeDepth)
    (hholds : marks → sub.node.hasMapped = true → sub.hasFullscreen = true) :
    Next deep marks w ([], []) { w.push (fromDetachedSubtree w.counter config sub).1 with
      transit := w.transit.eraseIdx k } := by
  have hfit : sub.node.Fit (ctx deep marks (new 0 {} : TilingTree I)) (w.counter + 1) :=
    (h.transit sub (mem_of_getElem? hk)).congr rfl rfl rfl (Nat.le_succ _)
  have hinv := Inv.fromDetachedSubtree w.counter config sub hfit (fun _ => hwin) hdeep hholds
  obtain ⟨leaves, hg, hl⟩ := grows_fromDetachedSubtree w.counter config sub hfit.old
  have hheld := hg.held (inv_ctx_new deep marks w.counter config) hinv
  rw [hl, held_new, nil_append] at hheld
  refine h.push hinv (fun s hs => ?_) ?_
  · exact h.fit_mono (le_max_left _ _) s (mem_of_mem_eraseIdx hs)
  rw [append_assoc]
  exact ((moving_around hk).trans (hheld.append_right _).symm).append_left _

theorem Good.swap {j : ℕ} (hij : i ≠ j) (ht : w.tree i = some t)
    (hu : w.tree j = some u) {first second : NodeId}
    (hholds : marks → t.swapHolds first (u.snapshot second) ∧ u.swapHolds second (t.snapshot first))
    {t' u' : TilingTree I} {remap : SwapRemap}
    (e : t.swapNodesBetween u first second = .ok (t', u', remap)) :
    Next deep marks w ([], []) ((w.put i t').put j u') := by
  obtain ⟨hinv, hct, -, t0, ht0⟩ := h.tree ht
  obtain ⟨hinv', hcu, -, u0, hu0⟩ := h.tree hu
  obtain ⟨hT, hU, hheld⟩ := hinv.swapNodesBetween hinv' (hct.trans hcu.symm) rfl rfl rfl
    (fun hm => (hholds hm).1) (fun hm => (hholds hm).2) e
  have hwin : w.windows.Perm ((w.put i t').put j u').windows := by
    -- both exchanges together move nothing
    have hput : (w.put i t').trees[j]? = some u0 := by
      change (w.trees.set i t')[j]? = some u0
      rw [getElem?_set_ne hij, hu0]
    have h1 := windows_put ht0 t'
    have h2 := windows_put hput u'
    have hsame : ∀ {x x0 : TilingTree I} {k : ℕ}, w.tree k = some x → w.trees[k]? = some x0 →
        x.held.Perm x0.held := by
      intro x x0 k hx hx0
      obtain ⟨y, hy, rfl⟩ := Option.map_eq_some_iff.mp hx
      rw [hx0] at hy
      cases hy
      have hmem := mem_of_getElem? hx0
      exact ((h.trees x0 hmem).advance (h.counter x0 hmem)).held_perm (h.trees x0 hmem)
    have hmoved : (t'.held ++ u'.held).Perm (t0.held ++ u0.held) :=
      hheld.trans ((hsame ht ht0).append (hsame hu hu0))
    have key : (t0.held ++ (u0.held ++ ((w.put i t').put j u').windows)).Perm
        (t0.held ++ (u0.held ++ w.windows)) := by
      refine (h2.append_left _).trans ((perm_append_comm_assoc _ _ _).trans
        ((h1.append_left _).trans ?_))
      rw [← append_assoc, ← append_assoc]
      exact (perm_append_comm.trans hmoved).append_right _
    exact ((perm_append_left_iff _).mp ((perm_append_left_iff _).mp key)).symm
  have hmem : ∀ x ∈ ((w.put i t').put j u').trees, x ∈ w.trees ∨ x = t' ∨ x = u' := by
    intro x hx
    rcases mem_or_eq_of_mem_set hx with hx | hx
    · exact (mem_or_eq_of_mem_set hx).imp_right .inl
    · exact .inr (.inr hx)
  have hle : max (max w.counter t'.counter) u'.counter = ((w.put i t').put j u').counter := rfl
  refine Good.next_of_perm
    ⟨fun x hx => ?_, fun x hx => ?_, fun s hs => ?_, hwin.nodup_iff.mp h.distinct⟩ hwin
  · rcases hmem x hx with hx | rfl | rfl
    · exact h.trees x hx
    · exact hT
    · exact hU
  · rw [← hle]
    rcases hmem x hx with hx | rfl | rfl
    · exact (h.counter x hx).trans ((le_max_left _ _).trans (le_max_left _ _))
    · exact (le_max_right _ _).trans (le_max_left _ _)
    · exact le_max_right _ _
  · exact h.fit_mono ((le_max_left _ _).trans (le_max_left _ _)) s hs

/-! ## 5. Runs -/

/-- **One step keeps the world in order**, and accounts for every window. -/
theorem Good.next (step : Step I) (hsane : step.sane w = true)
    (hfits : deep → step.fits w = true) (hholds : marks → step.holds w) :
    Next deep marks w (step.traffic w) (w.step step) := by
  have hstay : Next deep marks w ([], []) w := h.next_of_perm (Perm.refl _)
  cases step with
  | newTree config => exact h.newTree config
  | quiet i op =>
    rw [World.step]
    split
    · rename_i t ht
      simp only [Step.sane, Step.fits, Step.holds, ht, Option.all_some] at hsane hfits hholds
      exact h.quiet ht op hsane hfits fun hm => hholds hm t rfl
    · exact hstay
  | tile i op =>
    rw [World.step, Step.traffic]
    cases ht : w.tree i with
    | none => exact hstay
    | some t =>
      simp only [Step.sane, Step.fits, Step.holds, ht, Option.all_some] at hsane hfits hholds
      by_cases hnew : op.window.any (w.windows.contains ·) = true
      · simpa only [hnew, if_true, Option.filter_some, Bool.not_true, Bool.false_eq_true, if_false,
          Option.elim_none] using hstay
      simp only [hnew, Option.filter_some, Bool.not_false]
      refine h.tile ht op (fun x hx hmem => hnew ?_) hsane fun hm => hholds hm t rfl
      rw [Option.mem_def.mp hx]
      simpa using hmem
  | detach i id =>
    rw [World.step]
    split
    · rename_i v sub q hv
      obtain ⟨t, ht, hv⟩ := Option.bind_eq_some_iff.mp hv
      exact h.detach ht hv fun hm => hholds hm t ht
    · exact hstay
  | attach i k target unwrap =>
    rw [World.step]
    split
    · rename_i t sub ht hk
      simp only [Step.sane, Step.fits, Step.holds, ht, hk, Bool.and_eq_true, Bool.or_eq_true,
        Bool.not_eq_true', decide_eq_true_eq] at hsane hfits hholds
      refine h.attach ht hk (fun x hx => ?_) unwrap (hsane.1.imp_right fun hne => ?_) hfits
        fun hm => hholds hm t sub rfl rfl
      · have := hsane.2
        rw [hx] at this
        exact this
      · simpa using hne
    · exact hstay
  | group k config =>
    rw [World.step]
    split
    · rename_i sub hk
      simp only [Step.sane, Step.fits, Step.holds, hk, Option.all_some, Bool.not_eq_true',
        decide_eq_true_eq] at hsane hfits hholds
      exact h.group config hk (by simpa using hsane) hfits fun hm => hholds hm sub rfl
    · exact hstay
  | swap i j first second =>
    rw [World.step]
    split
    · exact hstay
    rename_i hij
    split
    · rename_i t u ht hu
      split
      · rename_i t' u' remap e
        exact h.swap hij ht hu (fun hm => hholds hm t u ht hu) e
      · exact hstay
    · exact hstay

end

/-- The world before anything happened. -/
theorem good_start : Good deep marks ({ counter := 0 } : World I) where
  trees _ ht := nomatch ht
  counter _ ht := nomatch ht
  transit _ hs := nomatch hs
  distinct := nodup_nil

variable [DecidableEq I]

/-- Every step of a run satisfies `P` in the world it is taken in. -/
def Along (P : World I → Step I → Prop) : World I → List (Step I) → Prop
  | _, [] => True
  | w, step :: steps => P w step ∧ Along P (w.step step) steps

instance decidableAlong {P : World I → Step I → Prop} [∀ w step, Decidable (P w step)] :
    ∀ (w : World I) (steps : List (Step I)), Decidable (Along P w steps)
  | _, [] => isTrue trivial
  | w, step :: steps =>
    have := decidableAlong (P := P) (w.step step) steps
    inferInstanceAs (Decidable (_ ∧ _))

theorem Along.mono {P Q : World I → Step I → Prop} (hPQ : ∀ w step, P w step → Q w step)
    {steps : List (Step I)} (h : Along P w steps) : Along Q w steps := by
  induction steps generalizing w with
  | nil => trivial
  | cons step steps ih => exact ⟨hPQ w step h.1, ih h.2⟩

/-- The windows that came in a run, and those that went. -/
def history : World I → List (Step I) → List I × List I
  | _, [] => ([], [])
  | w, step :: steps =>
    let later := history (w.step step) steps
    ((step.traffic w).1 ++ later.1, (step.traffic w).2 ++ later.2)

/-- **A whole run keeps the world in order**, and accounts for every window. -/
theorem Good.history (h : Good deep marks w) (steps : List (Step I))
    (hsteps : Along (fun w step => step.sane w = true ∧ (deep → step.fits w = true) ∧
      (marks → step.holds w)) w steps) :
    Next deep marks w (w.history steps) (steps.foldl World.step w) := by
  induction steps generalizing w with
  | nil => exact h.next_of_perm (Perm.refl _)
  | cons step steps ih =>
    obtain ⟨⟨hsane, hfits, hholds⟩, hrest⟩ := hsteps
    obtain ⟨hgood, hperm⟩ := h.next step hsane hfits hholds
    obtain ⟨hend, hlater⟩ := ih hgood hrest
    refine ⟨hend, ?_⟩
    simp only [World.history, foldl_cons, ← append_assoc]
    refine (hperm.append_right _).trans ((perm_append_right_comm _ _ _).trans ?_)
    exact (hlater.append_right _).trans (perm_append_right_comm _ _ _)

theorem Good.run (h : Good deep marks w) (steps : List (Step I))
    (hsteps : Along (fun w step => step.sane w = true ∧ (deep → step.fits w = true) ∧
      (marks → step.holds w)) w steps) : Good deep marks (steps.foldl World.step w) :=
  (h.history steps hsteps).1

theorem good_of_sane {steps : List (Step I)}
    (h : Along (fun w step => step.sane w = true) { counter := 0 } steps) :
    Good False False (run steps) :=
  good_start.run steps (h.mono fun _ _ hs => ⟨hs, False.elim, False.elim⟩)

end World

end Swayward
