/-
  File:      Swayward/Layout/SubtreeTransfer.lean
  Subject:   SWAPPING CONTAINERS OF TWO WORKSPACES (`subtree_transfer.rs`).

  The swap takes both subtrees out before it puts either in, so it can fail when one of them is
  already gone from its tree. It returns the layout as it stands with every error. For containers
  that are there, `swapTilingNodesBetweenWorkspaces_exchanges` says that an error leaves the layout
  as it was, and that success exchanges the two: tree, index and share.

  Of a workspace the swap sees its identifier and its tiling tree, of a monitor its workspaces.
-/
import Swayward.Layout.Workspace

namespace Swayward

open Arena TilingTree List
open Option (bind_eq_some_iff bind_some isSome_iff_exists map_some)

variable {I : Type}

/-! ## 1. Workspaces on monitors -/

structure TiledWorkspace (I : Type) where
  id : WorkspaceId
  tiling : TilingTree I

/-- `MonitorSet`: the workspaces of each monitor, or those that wait for one. -/
inductive TiledMonitors (I : Type)
  | normal (monitors : List (List (TiledWorkspace I)))
  | noOutputs (workspaces : List (TiledWorkspace I))

structure TiledLayout (I : Type) where
  /-- where the node identifiers of all trees come from -/
  counter : NodeId
  monitorSet : TiledMonitors I

namespace TiledMonitors

def workspaces : TiledMonitors I → List (TiledWorkspace I)
  | .normal monitors => monitors.flatten
  | .noOutputs workspaces => workspaces

end TiledMonitors

/-- A monitor, and a workspace of it. -/
abbrev Place := ℕ × ℕ

namespace Place

variable (monitors : List (List (TiledWorkspace I)))

def read (place : Place) : Option (TiledWorkspace I) :=
  monitors[place.1]?.bind (·[place.2]?)

def setTiling (place : Place) (tree : TilingTree I) : List (List (TiledWorkspace I)) :=
  monitors.modify place.1 fun monitor => monitor.modify place.2 fun ws => { ws with tiling := tree }

/-- The first monitor that has the workspace, and its index there. -/
def find (id : WorkspaceId) : Option Place :=
  (monitors.findIdx? fun monitor => monitor.any (·.id == id)).bind fun m =>
    monitors[m]?.bind fun monitor => (monitor.findIdx? (·.id == id)).map fun w => (m, w)

/-- `distinct_workspaces_mut`: the places of two workspaces that are not the same. -/
def distinctWorkspaces (first second : WorkspaceId) : Option (Place × Place) :=
  if first = second then
    none
  else
    (find monitors first).bind fun p => (find monitors second).map fun q => (p, q)

end Place

open Place

namespace TiledLayout

/-- `Layout::workspace`. -/
def workspace (l : TiledLayout I) (id : WorkspaceId) : Option (TiledWorkspace I) :=
  l.monitorSet.workspaces.find? (·.id == id)

/-- The tree of a workspace, when the next node identifier is that of the layout. -/
def tree (l : TiledLayout I) (ws : TiledWorkspace I) : TilingTree I :=
  { ws.tiling with counter := l.counter }

/-- Whether `other` of another workspace fits at the place of `slot`. -/
def fits (l : TiledLayout I) (workspace : WorkspaceId) (slot : NodeId) (otherWs : WorkspaceId)
    (other : NodeId) : Bool :=
  match l.workspace workspace, (l.workspace otherWs).map fun ws => (l.tree ws).subtreeHeight other with
  | some candidate, some height => (l.tree candidate).fitsAt slot height
  | _, _ => false

variable [DecidableEq I]

def swapTilingNodesBetweenWorkspaces (l : TiledLayout I) (firstWorkspace : WorkspaceId)
    (first : NodeId) (secondWorkspace : WorkspaceId) (second : NodeId) :
    TiledLayout I × Except String SwapRemap :=
  if !l.fits firstWorkspace first secondWorkspace second ||
      !l.fits secondWorkspace second firstWorkspace first then
    (l, .error SwapError.tooDeep.message)
  else
    match l.monitorSet with
    | .noOutputs _ => (l, .error "cannot swap containers without an output")
    | .normal monitors =>
      match distinctWorkspaces monitors firstWorkspace secondWorkspace with
      | none => (l, .error SwapError.noMatchingNode.message)
      | some (p, q) =>
        match p.read monitors, q.read monitors with
        | some firstWs, some secondWs =>
          match (l.tree firstWs).detachSubtreeForSwap first with
          | none => (l, .error SwapError.noMatchingNode.message)
          | some (t, firstSubtree, firstSlot) =>
            match (l.tree secondWs).detachSubtreeForSwap second with
            | none =>
              -- the first subtree has left its tree and is dropped
              ({ l with monitorSet := .normal (p.setTiling monitors t) },
                .error SwapError.noMatchingNode.message)
            | some (u, secondSubtree, secondSlot) =>
              let subtrees := firstSubtree.swapFullscreenPosition secondSubtree
              let (t, _, secondRemapped) := t.attachSubtreeForSwap subtrees.2 firstSlot
              let u := { u with counter := t.counter }
              let (u, _, firstRemapped) := u.attachSubtreeForSwap subtrees.1 secondSlot
              let t := t.finishSubtreeDetach none
              let u := u.finishSubtreeDetach none
              ({ counter := u.counter
                 monitorSet := .normal (q.setTiling (p.setTiling monitors t) u) },
                .ok { first := firstRemapped, second := secondRemapped })
        | _, _ => (l, .error SwapError.noMatchingNode.message)

end TiledLayout

/-! ## 2. Finding a workspace -/

namespace Place

variable {monitors : List (List (TiledWorkspace I))} {id : WorkspaceId} {p q : Place}

/-- What is found is there. -/
theorem read_of_find (h : find monitors id = some p) :
    ∃ ws, p.read monitors = some ws ∧ ws.id = id := by
  obtain ⟨m, hm, h⟩ := bind_eq_some_iff.mp h
  obtain ⟨monitor, hmon, h⟩ := bind_eq_some_iff.mp h
  obtain ⟨w, hw, rfl⟩ := Option.map_eq_some_iff.mp h
  obtain ⟨hlt, hid, -⟩ := findIdx?_eq_some_iff_getElem.mp hw
  refine ⟨monitor[w], ?_, by simpa using hid⟩
  unfold read
  rw [hmon]
  exact List.getElem?_eq_getElem hlt

/-- The first workspace with an identifier is where it is found. -/
theorem find?_flatten (monitors : List (List (TiledWorkspace I))) (id : WorkspaceId) :
    monitors.flatten.find? (·.id == id) = (find monitors id).bind (read monitors) := by
  induction monitors with
  | nil => rfl
  | cons monitor monitors ih =>
    rw [flatten_cons, find?_append]
    cases hany : monitor.any (·.id == id) with
    | true =>
      obtain ⟨w, hw⟩ := isSome_iff_exists.mp
        ((findIdx?_isSome (p := fun ws : TiledWorkspace I => ws.id == id)).trans hany)
      obtain ⟨hlt, hid, hfirst⟩ := findIdx?_eq_some_iff_getElem.mp hw
      have hfind : find (monitor :: monitors) id = some (0, w) := by
        simp [find, findIdx?_cons, hany, hw]
      rw [hfind]
      have : monitor.find? (·.id == id) = some monitor[w] := by
        rw [find?_eq_some_iff_getElem]
        exact ⟨hid, w, hlt, rfl, fun j hj => by simpa using hfirst j hj⟩
      rw [this]
      simp [read, hlt]
    | false =>
      have hnone : monitor.find? (·.id == id) = none := by
        rw [find?_eq_none]
        intro ws hws hid
        have := any_eq_false.mp hany ws hws
        exact this hid
      rw [hnone, Option.none_or, ih]
      unfold find
      rw [findIdx?_cons, hany]
      cases monitors.findIdx? fun monitor => monitor.any (·.id == id) with
      | none => rfl
      | some m =>
        simp only [Bool.false_eq_true, if_false, map_some, bind_some, getElem?_cons_succ]
        cases monitors[m]? with
        | none => rfl
        | some found =>
          simp only [bind_some]
          cases found.findIdx? (·.id == id) <;> rfl

theorem getElem?_modify_ite {α : Type} (l : List α) (f : α → α) (i j : ℕ) :
    (l.modify i f)[j]? = if j = i then l[j]?.map f else l[j]? := by
  rw [getElem?_modify]
  by_cases e : i = j
  · subst e
    cases l[i]? <;> simp
  · simp [e, Ne.symm e]

/-- A tree is written at its place only. -/
theorem read_setTiling (tree : TilingTree I) :
    q.read (p.setTiling monitors tree) =
      if q = p then (q.read monitors).map fun ws => { ws with tiling := tree }
      else q.read monitors := by
  obtain ⟨m, w⟩ := p
  obtain ⟨m', w'⟩ := q
  unfold read setTiling
  simp only [getElem?_modify_ite, Prod.mk.injEq]
  by_cases hm : m' = m
  · simp only [hm, if_true, true_and]
    cases monitors[m]? with
    | none => simp
    | some monitor => simp only [map_some, bind_some, getElem?_modify_ite]
  · simp only [hm, if_false, false_and]

/-- The identifiers of the workspaces of each monitor. -/
def ids (monitors : List (List (TiledWorkspace I))) : List (List WorkspaceId) :=
  monitors.map (·.map (·.id))

theorem find_eq (monitors : List (List (TiledWorkspace I))) (id : WorkspaceId) :
    find monitors id = ((ids monitors).findIdx? (·.any (· == id))).bind fun m =>
      (ids monitors)[m]?.bind fun monitor => (monitor.findIdx? (· == id)).map fun w => (m, w) := by
  unfold find ids
  rw [findIdx?_map]
  have : (fun l : List WorkspaceId => l.any (· == id)) ∘ (fun l : List (TiledWorkspace I) => l.map (·.id)) =
      fun monitor => monitor.any (·.id == id) := by
    funext monitor
    simp [any_map, Function.comp_def]
  rw [this]
  congr 1
  funext m
  rw [getElem?_map]
  cases monitors[m]? with
  | none => rfl
  | some monitor =>
    simp only [map_some, bind_some, findIdx?_map]
    rfl

theorem ids_setTiling (tree : TilingTree I) : ids (p.setTiling monitors tree) = ids monitors := by
  refine ext_getElem? fun m => ?_
  unfold ids setTiling
  simp only [getElem?_map, getElem?_modify_ite]
  split
  · cases monitors[m]? with
    | none => rfl
    | some monitor =>
      refine congrArg some (ext_getElem? fun w => ?_)
      simp only [getElem?_map, getElem?_modify_ite]
      split
      · cases monitor[w]? <;> rfl
      · rfl
  · rfl

/-- Places do not depend on the trees. -/
theorem find_setTiling (tree : TilingTree I) :
    find (p.setTiling monitors tree) id = find monitors id := by
  rw [find_eq, find_eq, ids_setTiling]

end Place

namespace TiledLayout

variable {monitors : List (List (TiledWorkspace I))} {k k' : NodeId} {id : WorkspaceId} {p : Place}

theorem workspace_normal :
    (⟨k, .normal monitors⟩ : TiledLayout I).workspace id =
      (find monitors id).bind (read monitors) := find?_flatten monitors id

/-- Writing a tree changes the workspace at that place. -/
theorem workspace_setTiling {a : WorkspaceId} {ws : TiledWorkspace I}
    (hp : find monitors a = some p) (hws : p.read monitors = some ws) (tree : TilingTree I) :
    (⟨k', .normal (p.setTiling monitors tree)⟩ : TiledLayout I).workspace id =
      if id = a then some { ws with tiling := tree }
      else (⟨k, .normal monitors⟩ : TiledLayout I).workspace id := by
  rw [workspace_normal, workspace_normal, find_setTiling]
  by_cases e : id = a
  · rw [if_pos e, e, hp]
    simp only [bind_some, read_setTiling, if_true, hws, map_some]
  rw [if_neg e]
  cases hq : find monitors id with
  | none => rfl
  | some q =>
    have hne : q ≠ p := fun e' => by
      obtain ⟨ws1, h1, hid1⟩ := read_of_find hq
      obtain ⟨ws2, h2, hid2⟩ := read_of_find hp
      rw [e', h2] at h1
      cases h1
      exact e (hid1.symm.trans hid2)
    simp only [bind_some, read_setTiling, if_neg hne]

/-- Writing two trees at different places. -/
theorem workspace_setTiling_twice (k' : NodeId) {a b : WorkspaceId} {wa wb : TiledWorkspace I}
    {q : Place} (hab : a ≠ b) (hp : find monitors a = some p) (hq : find monitors b = some q)
    (hpa : p.read monitors = some wa) (hqb : q.read monitors = some wb) (ta tb : TilingTree I)
    (id : WorkspaceId) :
    (⟨k', .normal (q.setTiling (p.setTiling monitors ta) tb)⟩ : TiledLayout I).workspace id =
      if id = b then some ⟨b, tb⟩ else if id = a then some ⟨a, ta⟩
      else (⟨k, .normal monitors⟩ : TiledLayout I).workspace id := by
  obtain ⟨wa', hwa', rfl⟩ := read_of_find hp
  obtain ⟨wb', hwb', rfl⟩ := read_of_find hq
  rw [hpa] at hwa'
  rw [hqb] at hwb'
  cases hwa'
  cases hwb'
  have hne : q ≠ p := fun e => by
    rw [e, hpa] at hqb
    cases hqb
    exact hab rfl
  have hread : q.read (p.setTiling monitors ta) = some wb :=
    (read_setTiling ta).trans ((if_neg hne).trans hqb)
  rw [workspace_setTiling (k := k) ((find_setTiling ta).trans hq) hread, workspace_setTiling hp hpa]

end TiledLayout

/-! ## 3. All or nothing -/

namespace TilingTree

variable {c : Ctx I} {t : TilingTree I} {id : NodeId}

/-- **A container that is there can be taken out for a swap.** -/
theorem Inv.exists_detachSubtreeForSwap (h : Inv c ∅ t) (hid : t.contains id = true)
    (hroot : id ≠ t.root) : ∃ x, t.detachSubtreeForSwap id = some x := by
  obtain ⟨r, hok, -⟩ := h.ok
  obtain ⟨v, e, -⟩ := h.detachSubtree hid
  obtain ⟨parent, hkid⟩ := hok.home hid hroot (Set.notMem_empty id)
  have hp := hok.kid_parent hkid
  obtain ⟨s, hs, hmem⟩ := splitAt_of_mem_children hkid
  obtain ⟨i, hi⟩ := Positions.exists_idxOf? hmem
  have hlt : i < s.percents.length := by
    rw [(hok.sound hs).lengths]
    exact (idxOf?_eq_some_iff.mp hi).1
  have hindex : t.childIndex parent id = some i := by
    unfold childIndex
    rw [hs]
    exact hi
  unfold TilingTree.detachSubtreeForSwap
  rw [if_neg hroot, hp]
  simp only [hindex, hs, bind_some, List.getElem?_eq_getElem hlt, e, map_some]
  exact ⟨_, rfl⟩

end TilingTree

namespace TiledLayout

variable [DecidableEq I] {l : TiledLayout I} {a b : WorkspaceId} {wa wb : TiledWorkspace I}
  {first second : NodeId}

omit [DecidableEq I] in
theorem fits_eq (ha : l.workspace a = some wa) (hb : l.workspace b = some wb) (n m : NodeId) :
    l.fits a n b m = (l.tree wa).fitsAt n ((l.tree wb).subtreeHeight m) := by
  unfold fits
  rw [ha, hb]
  rfl

/-- For containers that are there, the swap of the two trees decides. -/
theorem swapTilingNodesBetweenWorkspaces_eq {k : NodeId}
    {monitors : List (List (TiledWorkspace I))} {p q : Place}
    (hl : l = ⟨k, .normal monitors⟩) (hab : a ≠ b) (hp : find monitors a = some p)
    (hq : find monitors b = some q) (hpa : p.read monitors = some wa)
    (hqb : q.read monitors = some wb) (hfirst : ((l.tree wa).detachSubtreeForSwap first).isSome)
    (hsecond : ((l.tree wb).detachSubtreeForSwap second).isSome) :
    l.swapTilingNodesBetweenWorkspaces a first b second =
      match (l.tree wa).swapNodesBetween (l.tree wb) first second with
      | .error e => (l, .error e.message) | .ok (ta, tb, remap) =>
        (⟨tb.counter, .normal (q.setTiling (p.setTiling monitors ta) tb)⟩, .ok remap) := by
  subst hl
  have ha : (⟨k, .normal monitors⟩ : TiledLayout I).workspace a = some wa := by
    rw [workspace_normal, hp]
    exact hpa
  have hb : (⟨k, .normal monitors⟩ : TiledLayout I).workspace b = some wb := by
    rw [workspace_normal, hq]
    exact hqb
  have hfound : distinctWorkspaces monitors a b = some (p, q) := by
    unfold distinctWorkspaces
    rw [if_neg hab, hp, hq]
    rfl
  obtain ⟨⟨t, sub, slot⟩, ex⟩ := isSome_iff_exists.mp hfirst
  obtain ⟨⟨u, sub', slot'⟩, ey⟩ := isSome_iff_exists.mp hsecond
  unfold swapTilingNodesBetweenWorkspaces TilingTree.swapNodesBetween
  rw [fits_eq ha hb, fits_eq hb ha]
  split
  · rfl
  · simp only [hfound, hpa, hqb, ex, ey]

/-- **Swapping containers of two workspaces is all or nothing.** An error leaves the layout as it
    was. Otherwise no other workspace has changed, the two trees hold the windows they held, and up
    to compaction each subtree stands at the place of the other, with its share and with all shares
    around it as they were; the result lists the identifiers that changed. -/
theorem swapTilingNodesBetweenWorkspaces_exchanges (hab : a ≠ b) (ha : l.workspace a = some wa)
    (hb : l.workspace b = some wb) (hwa : (l.tree wa).WellFormed) (hwb : (l.tree wb).WellFormed)
    (hfirst : (l.tree wa).contains first = true) (hfirst' : first ≠ (l.tree wa).root)
    (hsecond : (l.tree wb).contains second = true) (hsecond' : second ≠ (l.tree wb).root) :
    (∃ message, l.swapTilingNodesBetweenWorkspaces a first b second = (l, .error message)) ∨
      ∃ l' remap ta tb, l.swapTilingNodesBetweenWorkspaces a first b second = (l', .ok remap) ∧
        l'.workspace a = some ⟨a, ta⟩ ∧ l'.workspace b = some ⟨b, tb⟩ ∧
        (∀ c, c ≠ a → c ≠ b → l'.workspace c = l.workspace c) ∧
        (ta.held ++ tb.held).Perm ((l.tree wa).held ++ (l.tree wb).held) ∧
        (((l.tree wa).held ++ (l.tree wb).held).Nodup → (ta.held ++ tb.held).Nodup) ∧
        ∃ ta₁ tb₁ f g, ta = ta₁.finishSubtreeDetach none ∧ tb = tb₁.finishSubtreeDetach none ∧
          TakesPlace f (l.tree wa) first ((l.tree wa).incoming (l.tree wb) first second) ta₁
            remap.second ∧
          TakesPlace g (l.tree wb) second ((l.tree wb).incoming (l.tree wa) second first) tb₁
            remap.first := by
  obtain ⟨x, ex⟩ := hwa.inv.exists_detachSubtreeForSwap hfirst hfirst'
  obtain ⟨y, ey⟩ := hwb.inv.exists_detachSubtreeForSwap hsecond hsecond'
  rcases hl : l with ⟨k, monitors | workspaces⟩
  · rw [hl, workspace_normal] at ha hb
    obtain ⟨p, hp, hpa⟩ := bind_eq_some_iff.mp ha
    obtain ⟨q, hq, hqb⟩ := bind_eq_some_iff.mp hb
    have hswap := swapTilingNodesBetweenWorkspaces_eq hl hab hp hq hpa hqb
      (Option.isSome_of_eq_some ex) (Option.isSome_of_eq_some ey)
    rw [← hl]
    cases e : (l.tree wa).swapNodesBetween (l.tree wb) first second with
    | error e' =>
      rw [e] at hswap
      exact .inl ⟨_, hswap⟩
    | ok result =>
      obtain ⟨ta, tb, remap⟩ := result
      rw [e] at hswap
      obtain ⟨-, -, hperm⟩ := hwa.inv.swapNodesBetween hwb.inv rfl rfl rfl rfl False.elim
        False.elim e
      obtain ⟨ta₁, tb₁, f, g, hta, htb, hf, hg⟩ := hwa.inv.swapNodesBetween_places hwb.inv rfl
        trivial trivial trivial trivial rfl not_false not_false e
      have hread := workspace_setTiling_twice (k := k) tb.counter hab hp hq hpa hqb ta tb
      refine .inr ⟨_, remap, ta, tb, hswap, ?_, ?_, fun c hca hcb => ?_, hperm,
        fun hd => hperm.nodup_iff.mpr hd, ta₁, tb₁, f, g, hta, htb, hf, hg⟩
      · exact (hread a).trans ((if_neg hab).trans (if_pos rfl))
      · exact (hread b).trans (if_pos rfl)
      · rw [hl]
        exact (hread c).trans ((if_neg hcb).trans (if_neg hca))
  · rw [← hl]
    by_cases hfits : (!l.fits a first b second || !l.fits b second a first) = true
    · exact .inl ⟨_, if_pos hfits⟩
    · refine .inl ⟨"cannot swap containers without an output", ?_⟩
      unfold swapTilingNodesBetweenWorkspaces
      rw [if_neg hfits, hl]

/-- The two workspaces of `twoWorkspaces`, each on a monitor of its own. -/
def twoMonitors : TiledLayout ℕ where
  counter := (workspaceTree 0).counter
  monitorSet := .normal [[⟨1, workspaceTree 0⟩], [⟨2, workspaceTree 1⟩]]

theorem tree_twoMonitors {i : ℕ} {ws : TiledWorkspace ℕ}
    (h : (workspaceTree i).counter = (workspaceTree 0).counter)
    (hws : ws.tiling = workspaceTree i) : twoMonitors.tree ws = workspaceTree i := by
  unfold tree twoMonitors
  rw [hws]
  simp only [← h]

/-- The container of `8` and `9` goes to the place of `10`. -/
theorem swapTilingNodesBetweenWorkspaces_exchanges_container :
    ∃ l' remap ta tb, twoMonitors.swapTilingNodesBetweenWorkspaces 1 4 2 6 = (l', .ok remap) ∧
        l'.workspace 1 = some ⟨1, ta⟩ ∧ l'.workspace 2 = some ⟨2, tb⟩ ∧
        (ta.held ++ tb.held).Perm [7, 8, 9, 10] ∧ (ta.held ++ tb.held).Nodup := by
  have ha : twoMonitors.tree ⟨1, workspaceTree 0⟩ = workspaceTree 0 := tree_twoMonitors rfl rfl
  have hb : twoMonitors.tree ⟨2, workspaceTree 1⟩ = workspaceTree 1 :=
    tree_twoMonitors (by decide +kernel) rfl
  have hheld : (twoMonitors.tree ⟨1, workspaceTree 0⟩).held ++
      (twoMonitors.tree ⟨2, workspaceTree 1⟩).held = [7, 8, 9, 10] := by
    rw [ha, hb]
    decide +kernel
  have hfirst : (twoMonitors.tree ⟨1, workspaceTree 0⟩).contains 4 = true := by decide +kernel
  have hsecond : (twoMonitors.tree ⟨2, workspaceTree 1⟩).contains 6 = true := by decide +kernel
  rcases swapTilingNodesBetweenWorkspaces_exchanges (l := twoMonitors) (a := 1) (b := 2)
    (by decide) rfl rfl (ha ▸ wellFormed_workspaceTree (by decide +kernel))
    (hb ▸ wellFormed_workspaceTree (by decide +kernel)) hfirst (by decide +kernel) hsecond
    (by decide +kernel) with
    ⟨message, e⟩ | ⟨l', remap, ta, tb, e, hta, htb, -, hperm, hnodup, -⟩
  · have hok : (twoMonitors.swapTilingNodesBetweenWorkspaces 1 4 2 6).2.toBool = true := by
      decide +kernel
    rw [e] at hok
    cases hok
  · rw [hheld] at hperm hnodup
    exact ⟨l', remap, ta, tb, e, hta, htb, hperm, hnodup (by decide)⟩

end TiledLayout

end Swayward
