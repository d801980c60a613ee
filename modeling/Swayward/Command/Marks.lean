/-
  File:      Swayward/Command/Marks.lean
  Subject:   MARKS: the three tables that say who carries a mark.

  Windows and containers carry marks. The compositor keeps the marks of each window, the marks of
  each container, and for the windows also the index from a mark to its window. `mark`, `unmark`,
  closing a window and moving a container to other node ids each change some of the tables. The
  file follows them over whole histories:

  * `Marks.Consistent`         -- no mark is carried twice, and the index says who carries it;
  * `Consistent.apply`         -- every operation keeps that;
  * `marks_unique`             -- **a mark has at most one carrier, the index agrees**.

  Tables without duplicates are read as one list of all marks (`MultiMap.values`): a removal leaves
  a part of that list, a remapping permutes it, and a new mark is appended to it after it has been
  taken out everywhere.
-/
import Swayward.Layout.Name
import Swayward.Library.MultiMap
import Swayward.Tree.Node

namespace Swayward

open List MultiMap

/-- A mapped window. -/
abbrev MappedId := ℕ

abbrev Mark := Text

/-- What a command acts on. -/
inductive CommandTarget
  | window (id : MappedId)
  | container (workspace : ℕ) (node : NodeId)
  deriving DecidableEq, Repr

/-- The tables of marks. -/
structure Marks where
  marks : FinMap Mark MappedId
  marksByWindow : MultiMap MappedId Mark
  marksByContainer : MultiMap NodeId Mark

namespace Marks

variable (s : Marks)

/-! ## 1. The operations -/

/-- `Swayward::new`: no marks. -/
def empty : Marks := ⟨∅, ∅, ∅⟩

/-- The window loses the mark it is known to carry. -/
def take (window : MappedId) (mark : Mark) : Marks :=
  { s with
    marks := s.marks.erase mark
    marksByWindow := s.marksByWindow.keepAt window (· != mark) }

/-- The window loses all its marks. -/
def takeAll (window : MappedId) : Marks :=
  { s with
    marks := (s.marksByWindow.get window).foldl (fun marks mark => marks.erase mark) s.marks
    marksByWindow := s.marksByWindow.erase window }

def unmark : Option MappedId → Option Mark → Marks
  | some window, some mark => if s.marks.lookup mark = some window then s.take window mark else s
  | some window, none => s.takeAll window
  | none, some mark =>
    match s.marks.lookup mark with
    | some window => s.take window mark
    | none => s
  | none, none => { s with marks := ∅, marksByWindow := ∅ }

/-- The window gets the mark. -/
def give (window : MappedId) (mark : Mark) : Marks :=
  { s with
    marks := s.marks.insert mark window
    marksByWindow := s.marksByWindow.extend window [mark] }

def setMark (window : MappedId) (mark : Mark) (add toggle : Bool) : Marks :=
  let hadMark := s.marks.lookup mark == some window
  let kept := if add then s else s.takeAll window
  let free := kept.unmark none (some mark)
  if !toggle || !hadMark then free.give window mark else free

/-- The marks of the old ids, taken out of the table in the order of the list. -/
def detachMarks (byContainer : MultiMap NodeId Mark) :
    List (NodeId × NodeId) → List (NodeId × List Mark) × MultiMap NodeId Mark
  | [] => ([], byContainer)
  | (old, new) :: rest =>
    match byContainer.lookup old with
    | some marks =>
      let (moved, left) := detachMarks (byContainer.erase old) rest
      ((new, marks) :: moved, left)
    | none => detachMarks byContainer rest

def remapContainerMarks (remapped : List (NodeId × NodeId)) : Marks :=
  let (moved, left) := detachMarks s.marksByContainer remapped
  { s with
    marksByContainer := moved.foldl (fun byContainer m => byContainer.extend m.1 m.2) left }

def unmarkGlobally (mark : Option Mark) : Marks :=
  let s := s.unmark none mark
  match mark with
  | some mark => { s with marksByContainer := s.marksByContainer.keep (· != mark) }
  | none => { s with marksByContainer := ∅ }

def unmarkTarget (target : CommandTarget) (mark : Option Mark) : Marks :=
  match target, mark with
  | .window window, mark => s.unmark (some window) mark
  | .container _ node, some mark =>
    { s with marksByContainer := s.marksByContainer.keepAt node (· != mark) }
  | .container _ node, none => { s with marksByContainer := s.marksByContainer.erase node }

/-- The marks of a target. -/
def ofTarget : CommandTarget → List Mark
  | .window window => s.marksByWindow.get window
  | .container _ node => s.marksByContainer.get node

/-- The target of a `mark` command gets the mark. -/
def giveTarget (target : CommandTarget) (mark : Mark) : Marks :=
  match target with
  | .window window => s.setMark window mark true false
  | .container _ node => { s with marksByContainer := s.marksByContainer.extend node [mark] }

def markTarget (target : CommandTarget) (mark : Mark) (add toggle : Bool) : Marks :=
  -- Read before anything is removed, so that `--toggle` without `--add` sees the mark.
  let hadMark := (s.ofTarget target).contains mark
  let kept := if add then s else s.unmarkTarget target none
  let free := kept.unmarkGlobally (some mark)
  if !toggle || !hadMark then free.giveTarget target mark else free

/-- What happens to the tables from outside. -/
inductive Event
  /-- `mark`, for the focused target or for one match of the criteria. -/
  | mark (target : CommandTarget) (mark : Mark) (add toggle : Bool)
  /-- `unmark` for one match of the criteria. -/
  | unmarkTarget (target : CommandTarget) (mark : Option Mark)
  /-- `unmark` without criteria. -/
  | unmarkGlobally (mark : Option Mark)
  /-- A window is unmapped. -/
  | close (window : MappedId)
  /-- A container was moved and its nodes got other ids. -/
  | remap (remapped : List (NodeId × NodeId))

def apply : Event → Marks
  | .mark target mark add toggle => s.markTarget target mark add toggle
  | .unmarkTarget target mark => s.unmarkTarget target mark
  | .unmarkGlobally mark => s.unmarkGlobally mark
  | .close window => s.unmark (some window) none
  | .remap remapped => s.remapContainerMarks remapped

def run (events : List Event) : Marks := events.foldl apply empty

/-! ## 2. The invariant -/

/-- All marks that are carried. -/
def carried : List Mark := s.marksByWindow.values ++ s.marksByContainer.values

/-- No mark is carried twice, and the index names the window that carries a mark. -/
structure Consistent (s : Marks) : Prop where
  carried_nodup : s.carried.Nodup
  index : ∀ mark window,
    s.marks.lookup mark = some window ↔ mark ∈ s.marksByWindow.get window

variable {s : Marks} {mark : Mark}

theorem Consistent.empty : Consistent empty := by
  refine ⟨nodup_nil, fun mark window => ?_⟩
  constructor
  · intro h
    cases h
  · intro h
    cases h

/-- Containers that lose marks, or exchange them, stay consistent with the windows. -/
theorem Consistent.containers (h : s.Consistent) {byContainer : MultiMap NodeId Mark}
    (hsub : byContainer.values.Subperm s.marksByContainer.values) :
    Consistent { s with marksByContainer := byContainer } where
  carried_nodup := nodup_of_subperm ((Subperm.refl _).append hsub) h.carried_nodup
  index := h.index

/-- A window loses one mark that it carries. -/
theorem Consistent.take (h : s.Consistent) {window : MappedId}
    (hmark : s.marks.lookup mark = some window) : (s.take window mark).Consistent where
  carried_nodup := nodup_of_subperm
      ((s.marksByWindow.values_keepAt_subperm window _).append (Subperm.refl _))
      h.carried_nodup
  index := by
    intro m w
    change (s.marks.erase mark).lookup m = some w ↔ m ∈ (s.marksByWindow.keepAt window _).get w
    rw [FinMap.lookup_erase_eq, get_keepAt]
    by_cases hm : m = mark
    · subst hm
      rw [if_pos rfl]
      refine iff_of_false (fun hnone => by cases hnone) ?_
      by_cases hw : w = window
      · simp [hw]
      · rw [if_neg hw, ← h.index, hmark]
        exact fun he => hw (Option.some.inj he).symm
    · rw [if_neg hm, h.index]
      by_cases hw : w = window
      · simp [hw, hm]
      · rw [if_neg hw]

/-- Erasing the marks of a list from the index. -/
theorem lookup_foldl_erase (marks : FinMap Mark MappedId) (gone : List Mark) (mark : Mark) :
    (gone.foldl (fun marks mark => marks.erase mark) marks).lookup mark =
      if mark ∈ gone then none else marks.lookup mark := by
  induction gone generalizing marks with
  | nil => simp
  | cons m gone ih =>
    rw [foldl_cons, ih, FinMap.lookup_erase_eq]
    by_cases hmem : mark ∈ gone <;> by_cases he : mark = m <;> simp [hmem, he]

/-- A window loses all its marks. -/
theorem Consistent.takeAll (h : s.Consistent) (window : MappedId) :
    (s.takeAll window).Consistent where
  carried_nodup := nodup_of_subperm
      ((s.marksByWindow.values_erase_subperm window).append (Subperm.refl _))
      h.carried_nodup
  index := by
    intro m w
    change ((s.marksByWindow.get window).foldl _ s.marks).lookup m = some w ↔
      m ∈ get (s.marksByWindow.erase window) w
    rw [lookup_foldl_erase, get_erase]
    by_cases hm : m ∈ s.marksByWindow.get window
    · have hlookup := (h.index m window).mpr hm
      rw [if_pos hm]
      refine iff_of_false (fun hnone => by cases hnone) fun hmem => ?_
      by_cases hw : w = window
      · simp [hw] at hmem
      · rw [if_neg hw, ← h.index, hlookup] at hmem
        exact hw (Option.some.inj hmem).symm
    · rw [if_neg hm, h.index]
      by_cases hw : w = window
      · subst hw
        simp [hm]
      · rw [if_neg hw]

theorem Consistent.unmark (h : s.Consistent) (window : Option MappedId) (mark : Option Mark) :
    (s.unmark window mark).Consistent := by
  match window, mark with
  | some window, some mark =>
    simp only [Marks.unmark]
    split_ifs with hmark
    · exact h.take hmark
    · exact h
  | some window, none => exact h.takeAll window
  | none, some mark =>
    simp only [Marks.unmark]
    split
    · rename_i window hmark
      exact h.take hmark
    · exact h
  | none, none =>
    refine ⟨?_, fun m w => ?_⟩
    · exact (nodup_append.mp h.carried_nodup).2.1
    · exact iff_of_false (fun hnone => by cases hnone) (fun hmem => by cases hmem)

theorem Consistent.unmarkTarget (h : s.Consistent) (target : CommandTarget) (mark : Option Mark) :
    (s.unmarkTarget target mark).Consistent := by
  match target, mark with
  | .window window, mark => exact h.unmark (some window) mark
  | .container _ node, some mark =>
    exact h.containers (s.marksByContainer.values_keepAt_subperm node _)
  | .container _ node, none => exact h.containers (s.marksByContainer.values_erase_subperm node)

theorem Consistent.unmarkGlobally (h : s.Consistent) (mark : Option Mark) :
    (s.unmarkGlobally mark).Consistent := by
  match mark with
  | some mark =>
    refine (h.unmark none (some mark)).containers ?_
    rw [values_keep]
    exact filter_sublist.subperm
  | none => exact (h.unmark none none).containers (nil_subperm)

/-! ## 3. A new mark -/

section

variable (h : s.Consistent)
include h

/-- After a global `unmark` nobody carries the mark. -/
theorem Consistent.notMem_unmarkGlobally (mark : Mark) :
    mark ∉ (s.unmarkGlobally (some mark)).carried := by
  have hafter := h.unmark none (some mark)
  intro hmem
  rcases mem_append.mp hmem with hwindow | hcontainer
  · obtain ⟨w, hw⟩ := mem_values.mp hwindow
    have hlookup : (s.unmark none (some mark)).marks.lookup mark = some w :=
      (hafter.index mark w).mpr hw
    simp only [Marks.unmark] at hlookup
    split at hlookup
    · rw [Marks.take, FinMap.lookup_erase_eq, if_pos rfl] at hlookup
      cases hlookup
    · rename_i hnone
      rw [hnone] at hlookup
      cases hlookup
  · change mark ∈ ((s.unmark none (some mark)).marksByContainer.keep _).values at hcontainer
    rw [values_keep] at hcontainer
    simpa using (mem_filter.mp hcontainer).2

/-- A window gets a mark nobody carries. -/
theorem Consistent.give (window : MappedId) (hfree : mark ∉ s.carried) :
    (s.give window mark).Consistent where
  carried_nodup := by
    have hperm : (s.give window mark).carried.Perm (mark :: s.carried) := by
      refine ((s.marksByWindow.values_extend window [mark]).append_right _).trans ?_
      rw [append_assoc]
      exact perm_middle
    exact hperm.nodup_iff.mpr (nodup_cons.mpr ⟨hfree, h.carried_nodup⟩)
  index := by
    intro m w
    change (s.marks.insert mark window).lookup m = some w ↔
      m ∈ (s.marksByWindow.extend window [mark]).get w
    have hnone : ∀ w, mark ∉ s.marksByWindow.get w := fun w hw =>
      hfree (mem_append_left _ (mem_values.mpr ⟨w, hw⟩))
    rw [FinMap.lookup_insert_eq, get_extend]
    by_cases hm : m = mark
    · subst hm
      rw [if_pos rfl]
      by_cases hw : w = window
      · simp [hw]
      · rw [if_neg hw]
        exact iff_of_false (fun he => hw (Option.some.inj he).symm) (hnone w)
    · rw [if_neg hm, h.index]
      by_cases hw : w = window
      · simp [hw, hm]
      · rw [if_neg hw]

/-- A mark that nobody carries is in no table, so `set_mark` only adds it. -/
theorem Consistent.setMark_eq_give (window : MappedId) (hfree : mark ∉ s.carried) :
    s.setMark window mark true false = s.give window mark := by
  have hlookup : s.marks.lookup mark = none := by
    refine Option.eq_none_iff_forall_ne_some.mpr fun w hw => hfree ?_
    exact mem_append_left _ (mem_values.mpr ⟨w, (h.index mark w).mp hw⟩)
  simp [Marks.setMark, Marks.unmark, hlookup]

theorem Consistent.giveTarget (target : CommandTarget) (hfree : mark ∉ s.carried) :
    (s.giveTarget target mark).Consistent := by
  match target with
  | .window window =>
    rw [Marks.giveTarget, h.setMark_eq_give window hfree]
    exact h.give window hfree
  | .container workspace node =>
    refine ⟨?_, h.index⟩
    have hperm : (s.giveTarget (.container workspace node) mark).carried.Perm (s.carried ++ [mark]) := by
      rw [carried, carried, append_assoc]
      exact (s.marksByContainer.values_extend node [mark]).append_left _
    refine hperm.nodup_iff.mpr (nodup_append.mpr ⟨h.carried_nodup, nodup_singleton _, ?_⟩)
    intro a ha b hb he
    rw [mem_singleton.mp hb] at he
    exact hfree (he ▸ ha)

theorem Consistent.markTarget (target : CommandTarget) (mark : Mark) (add toggle : Bool) :
    (s.markTarget target mark add toggle).Consistent := by
  have hkept : (if add then s else s.unmarkTarget target none).Consistent := by
    split
    · exact h
    · exact h.unmarkTarget target none
  unfold Marks.markTarget
  dsimp only
  split
  · exact (hkept.unmarkGlobally (some mark)).giveTarget target (hkept.notMem_unmarkGlobally mark)
  · exact hkept.unmarkGlobally (some mark)

end

/-! ## 4. Other node ids -/

/-- Taking the marks of the old ids out splits the list of all marks. -/
theorem detachMarks_perm (byContainer : MultiMap NodeId Mark) (remapped : List (NodeId × NodeId)) :
    byContainer.values.Perm ((detachMarks byContainer remapped).2.values ++
        (detachMarks byContainer remapped).1.flatMap (·.2)) := by
  induction remapped generalizing byContainer with
  | nil => simp [detachMarks]
  | cons pair rest ih =>
    obtain ⟨old, new⟩ := pair
    cases hold : byContainer.lookup old with
    | none => simpa only [detachMarks, hold] using ih byContainer
    | some marks =>
      have hget : byContainer.get old = marks := by
        unfold MultiMap.get
        rw [hold]
        rfl
      simp only [detachMarks, hold, flatMap_cons]
      refine (byContainer.values_perm_get old).trans ?_
      rw [hget]
      exact ((ih (byContainer.erase old)).append_left marks).trans (perm_append_comm_assoc _ _ _)

/-- Putting marks under ids appends them to the list of all marks. -/
theorem foldl_extend_perm (moved : List (NodeId × List Mark)) (byContainer : MultiMap NodeId Mark) :
    (moved.foldl (fun (byContainer : MultiMap NodeId Mark) m => byContainer.extend m.1 m.2)
      byContainer).values.Perm (byContainer.values ++ moved.flatMap (·.2)) := by
  induction moved generalizing byContainer with
  | nil => simp
  | cons m moved ih =>
    rw [foldl_cons, flatMap_cons, ← append_assoc]
    exact (ih _).trans ((byContainer.values_extend m.1 m.2).append_right _)

/-- A remapping moves marks between containers and loses none. -/
theorem remapContainerMarks_perm (s : Marks) (remapped : List (NodeId × NodeId)) :
    (s.remapContainerMarks remapped).marksByContainer.values.Perm s.marksByContainer.values :=
  (foldl_extend_perm _ _).trans (detachMarks_perm s.marksByContainer remapped).symm

/-! ## 5. Whole histories -/

/-- What one operation keeps. -/
theorem Consistent.apply (h : s.Consistent) (event : Event) : (s.apply event).Consistent := by
  cases event with
  | mark target mark add toggle => exact h.markTarget target mark add toggle
  | unmarkTarget target mark => exact h.unmarkTarget target mark
  | unmarkGlobally mark => exact h.unmarkGlobally mark
  | close window => exact h.unmark (some window) none
  | remap remapped => exact h.containers (s.remapContainerMarks_perm remapped).subperm

theorem consistent_run (events : List Event) : (run events).Consistent := by
  have hfold : ∀ s : Marks, s.Consistent → (events.foldl Marks.apply s).Consistent := by
    induction events with
    | nil => exact fun _ h => h
    | cons event events ih => exact fun s h => ih (s.apply event) (h.apply event)
  exact hfold empty Consistent.empty

/-- Who can carry a mark: a container is known by its node, wherever its workspace is. -/
inductive Carrier
  | window (id : MappedId)
  | container (node : NodeId)

/-- The marks of a carrier. -/
def ofCarrier (s : Marks) : Carrier → List Mark
  | .window window => s.marksByWindow.get window
  | .container node => s.marksByContainer.get node

/-- **A mark identifies at most one node**: after any history of `mark`, `unmark`, closed windows
and remapped containers, a mark has at most one carrier, no carrier has a mark twice, and the index
of the window marks agrees with the lists. -/
theorem marks_unique (events : List Event) :
    (∀ mark c d, mark ∈ (run events).ofCarrier c → mark ∈ (run events).ofCarrier d → c = d) ∧
      (∀ c, ((run events).ofCarrier c).Nodup) ∧
      ∀ mark window, (run events).marks.lookup mark = some window ↔
        mark ∈ (run events).marksByWindow.get window := by
  have h := consistent_run events
  obtain ⟨hwindows, hcontainers, hdisjoint⟩ := nodup_append'.mp h.carried_nodup
  refine ⟨?_, ?_, h.index⟩
  · intro mark c d hc hd
    match c, d with
    | .window v, .window w => rw [key_unique hwindows hc hd]
    | .container m, .container n => rw [key_unique hcontainers hc hd]
    | .window v, .container n =>
      exact (hdisjoint (mem_values.mpr ⟨v, hc⟩) (mem_values.mpr ⟨n, hd⟩)).elim
    | .container m, .window w =>
      exact (hdisjoint (mem_values.mpr ⟨w, hd⟩) (mem_values.mpr ⟨m, hc⟩)).elim
  · intro c
    match c with
    | .window w => exact nodup_get hwindows w
    | .container n => exact nodup_get hcontainers n

end Marks

end Swayward
