/-
  File:      Swayward/Ipc/MirrorRefresh.lean
  Subject:   A REFRESH OF THE MIRROR (`ipc_refresh_workspaces`).

  Where records are kept, the loop over the workspaces notes all that differs (`Told`), and
  replaying that gives the records of the layout. Where they are replaced, the events are replayed
  over the new records. Most do nothing then, but the event for a workspace that is gone deletes
  records by name and output, and so the record of a new workspace that has both.

  * `told_scan`            -- the loop notes all that differs;
  * `refresh_within`       -- every record is that of a workspace of the layout;
  * `refresh_complete`     -- every workspace has one, unless a name comes back;
  * `refresh_idle`         -- records that are right give no event;
  * `workspaces_mirrored`  -- **the same after any earlier refreshes**;
  * `returning_name_lost`  -- a workspace that comes back under its old name.
-/
import Swayward.Ipc.OneFocused
import Swayward.Ipc.WorkspaceMirror

namespace Swayward.Ipc

variable {m : WorkspacesState} {w t : Workspace} {event : Event} {T : List Workspace}

open List
open Option (any_some bind_some isSome_iff_exists map_eq_some_iff map_none map_some some_ne_none)

/-! ## 1. The loop over the workspaces -/

/-- The mirror after some workspaces became focused. -/
def focusing (ids : List ℕ) (m : WorkspacesState) : WorkspacesState :=
  ids.foldl (fun m id => m.apply (.workspaceActivated id true)) m

/-- `w'` is `w`, but for its active and its focused flag. -/
structure SameButFocus (w w' : Workspace) : Prop where
  id : w'.id = w.id
  name : w'.name = w.name
  output : w'.output = w.output
  urgent : w'.isUrgent = w.isUrgent
  window : w'.activeWindowId = w.activeWindowId

theorem lookup_focusing_none {k : ℕ} (h : m.lookup k = none)
    (ids : List ℕ) : (focusing ids m).lookup k = none := by
  induction ids generalizing m with
  | nil => exact h
  | cons id ids ih =>
    refine ih ?_
    change (m.apply (.workspaceActivated id true)).lookup k = none
    cases hws : m.lookup id with
    | none => rwa [apply_activated_none hws]
    | some ws => rw [lookup_activated hws, h, map_none]

/-- A workspace that is not among them gets no flag. -/
theorem lookup_focusing {k : ℕ} (h : m.lookup k = some w) (hid : w.id = k) (ids : List ℕ) :
    ∃ w', (focusing ids m).lookup k = some w' ∧ SameButFocus w w' ∧
      (k ∉ ids → (w'.isActive = true → w.isActive = true) ∧
        (w'.isFocused = true → w.isFocused = true)) := by
  induction ids generalizing m w with
  | nil => exact ⟨w, h, ⟨rfl, rfl, rfl, rfl, rfl⟩, fun _ => ⟨fun e => e, fun e => e⟩⟩
  | cons id ids ih =>
    cases hws : m.lookup id with
    | none =>
      obtain ⟨w', hw', hsame, hflags⟩ := ih h hid
      refine ⟨w', ?_, hsame, fun hk => hflags fun hmem => hk (mem_cons_of_mem _ hmem)⟩
      rwa [focusing, foldl_cons, apply_activated_none hws]
    | some ws =>
      have hone : (m.apply (.workspaceActivated id true)).lookup k =
          some (w.activated ws.output id true) := by rw [lookup_activated hws, h]; rfl
      obtain ⟨w', hw', hsame, hflags⟩ := ih hone hid
      refine ⟨w', hw', ⟨hsame.id, hsame.name, hsame.output, hsame.urgent, hsame.window⟩,
        fun hk => ?_⟩
      obtain ⟨hactive, hfocused⟩ := hflags fun hmem => hk (mem_cons_of_mem _ hmem)
      have hne : (w.id == id) = false :=
        beq_eq_false_iff_ne.mpr fun e => hk (hid ▸ e ▸ mem_cons_self)
      constructor
      · intro e
        have := hactive e
        unfold Workspace.activated at this
        split at this
        · exact absurd (hne.symm.trans this) Bool.false_ne_true
        · exact this
      · intro e
        exact absurd (hne.symm.trans (hfocused e)) Bool.false_ne_true

theorem outdated_apply_activated (m : WorkspacesState) (id : ℕ) (now : Workspace) :
    outdated (m.apply (.workspaceActivated id true)) now = outdated m now := by
  unfold outdated
  cases hws : m.lookup id with
  | none => rw [apply_activated_none hws]
  | some ws =>
    rw [lookup_activated hws]
    cases m.lookup now.id <;> rfl

theorem isFocused_of_takesFocus {now : Workspace}
    (h : takesFocus m now = true) : now.isFocused = true := by
  unfold takesFocus at h
  cases hold : m.lookup now.id with
  | none =>
    rw [hold] at h
    exact absurd h Bool.false_ne_true
  | some old =>
    rw [hold] at h
    exact (Bool.and_eq_true_iff.mp h).1

section Scan

variable (oldNode : Option Node)

theorem seen_foldl_scanOne (shown : List (Node × Workspace)) (s : Scan) (id : ℕ) :
    id ∈ (shown.foldl (scanOne oldNode) s).seen ↔ id ∈ shown.map (·.2.id) ∨ id ∈ s.seen := by
  induction shown generalizing s with
  | nil => simp
  | cons e shown ih =>
    rw [foldl_cons, ih, scanOne, map_cons, mem_cons, mem_cons, or_left_comm, or_assoc]

theorem changed_foldl_scanOne (shown : List (Node × Workspace)) (s : Scan) :
    (shown.foldl (scanOne oldNode) s).changed =
      (s.changed || shown.any fun e => outdated s.mirror e.2) := by
  induction shown generalizing s with
  | nil => simp
  | cons e shown ih =>
    have hmirror : (fun e' : Node × Workspace => outdated (scanOne oldNode s e).mirror e'.2) =
        fun e' => outdated s.mirror e'.2 := by
      funext e'
      unfold scanOne
      dsimp only
      split
      · exact outdated_apply_activated _ _ _
      · rfl
    rw [foldl_cons, ih, hmirror, any_cons]
    exact Bool.or_assoc _ _ _

/-- What the loop leaves: `taken` are the workspaces that became focused. -/
structure Scanned (shown : List (Node × Workspace)) (s s' : Scan) (taken : List ℕ) : Prop where
  mirror : s'.mirror = focusing taken s.mirror
  taken_focused : ∀ id ∈ taken, ∃ e ∈ shown, e.2.id = id ∧ e.2.isFocused = true
  kept : s.events ⊆ s'.events
  /-- each workspace is compared with the mirror of its turn -/
  noted : ∀ e ∈ shown, ∃ before ⊆ taken,
    noteEvents oldNode (focusing before s.mirror) e.1 e.2 ⊆ s'.events ∧
      (takesFocus (focusing before s.mirror) e.2 = true → e.2.id ∈ taken)
  source : ∀ event ∈ s'.events, event ∈ s.events ∨ ∃ e ∈ shown, ∃ m,
    event ∈ noteEvents oldNode m e.1 e.2

theorem exists_scanned (shown : List (Node × Workspace)) (s : Scan) :
    ∃ taken, Scanned oldNode shown s (shown.foldl (scanOne oldNode) s) taken := by
  induction shown generalizing s with
  | nil =>
    exact ⟨[], rfl, (fun _ h => nomatch h), fun _ h => h, (fun _ h => nomatch h), fun _ h => .inl h⟩
  | cons e shown ih =>
    obtain ⟨taken, h⟩ := ih (scanOne oldNode s e)
    have hstep : ∃ now, (scanOne oldNode s e).mirror = focusing now s.mirror ∧
        (∀ id ∈ now, e.2.id = id ∧ e.2.isFocused = true) ∧
        (takesFocus s.mirror e.2 = true → e.2.id ∈ now) := by
      by_cases htakes : takesFocus s.mirror e.2 = true
      · exact ⟨[e.2.id], if_pos htakes, fun id hid =>
          ⟨(mem_singleton.mp hid).symm, isFocused_of_takesFocus htakes⟩,
          fun _ => mem_cons_self⟩
      · exact ⟨[], if_neg htakes, (fun _ h => nomatch h), fun h => absurd h htakes⟩
    obtain ⟨now, hnow, hfocused, htakes⟩ := hstep
    have happend : ∀ ids, focusing ids (scanOne oldNode s e).mirror =
        focusing (now ++ ids) s.mirror := by
      intro ids
      rw [hnow]
      exact (foldl_append).symm
    refine ⟨now ++ taken, ?_, ?_, ?_, ?_, ?_⟩
    · exact h.mirror.trans (happend taken)
    · intro id hid
      rcases mem_append.mp hid with hid | hid
      · exact ⟨e, mem_cons_self, hfocused id hid⟩
      · obtain ⟨e', he', hid'⟩ := h.taken_focused id hid
        exact ⟨e', mem_cons_of_mem _ he', hid'⟩
    · exact fun event hevent => h.kept (mem_append_left _ hevent)
    · intro e' he'
      rcases mem_cons.mp he' with rfl | he'
      · exact ⟨[], nil_subset _, fun event hevent => h.kept (mem_append_right _ hevent),
          fun ht => mem_append_left _ (htakes ht)⟩
      obtain ⟨before, hsub, hevents, hin⟩ := h.noted e' he'
      rw [happend] at hevents hin
      exact ⟨now ++ before, append_subset.mpr ⟨subset_append_left _ _,
        fun id hid => mem_append_right _ (hsub hid)⟩, hevents,
        fun ht => mem_append_right _ (hin ht)⟩
    · intro event hevent
      rcases h.source event hevent with hevent | ⟨e', he', m, hm⟩
      · rcases mem_append.mp hevent with hevent | hevent
        · exact .inl hevent
        · exact .inr ⟨e, mem_cons_self, s.mirror, hevent⟩
      · exact .inr ⟨e', mem_cons_of_mem _ he', m, hm⟩

variable {oldNode}

/-- **The loop tells only what is so.** -/
theorem settling_of_mem_noteEvents {node : Node} {now : Workspace} (hnow : now ∈ T)
    (h : event ∈ noteEvents oldNode m node now) : Settling T event := by
  unfold noteEvents at h
  split at h
  · rcases mem_cons.mp h with rfl | h
    · exact .initialized _
    · split at h
      · rw [mem_singleton.mp h]
        exact .focusChanged _ _
      · exact nomatch h
  · simp only [mem_append, mem_ite_nil_right, mem_singleton] at h
    rcases h with ((h | ⟨-, rfl⟩) | ⟨-, rfl⟩) | h
    · split at h
      · rw [mem_singleton.mp h]
        exact .renamed _
      · rw [mem_singleton.mp (mem_ite_nil_right.mp h).2]
        exact .moved _
    · exact .window hnow
    · refine .urgency hnow ?_
      cases node
      rfl
    · split at h
      · rw [mem_singleton.mp h]
        exact .focusChanged _ _
      · obtain ⟨hactive, h⟩ := mem_ite_nil_right.mp h
        rw [mem_singleton.mp h]
        exact .activated hnow (Bool.and_eq_true_iff.mp hactive).1 (absurd · Bool.false_ne_true)

/-- What is told of a workspace whose record differs. -/
theorem mem_noteEvents {node : Node} {now old : Workspace} (h : m.lookup now.id = some old) :
    (old.activeWindowId ≠ now.activeWindowId →
      .workspaceActiveWindowChanged now.id now.activeWindowId ∈ noteEvents oldNode m node now) ∧
    (now.isUrgent ≠ old.isUrgent → .workspaceUrgencyChanged now.id (node.setUrgent now.isUrgent) ∈
        noteEvents oldNode m node now) ∧
    (now.isActive = true → old.isActive = false → takesFocus m now = false →
      .workspaceActivated now.id false ∈ noteEvents oldNode m node now) := by
  simp only [noteEvents, h, mem_append]
  refine ⟨fun hne => ?_, fun hne => ?_, fun hnow hold htakes => ?_⟩
  · rw [if_pos hne]
    exact .inl (.inl (.inr mem_cons_self))
  · rw [if_pos hne]
    exact .inl (.inr mem_cons_self)
  · rw [takesFocus, h, any_some] at htakes
    rw [htakes, if_neg Bool.false_ne_true, hnow, hold]
    exact .inr mem_cons_self

end Scan

/-! ## 2. A refresh mirrors the layout -/

theorem within_workspacesChanged : Within T (m.apply (.workspacesChanged T)) := by
  intro k w h
  rcases FinMap.lookup_foldl_insert_some T Workspace.id (fun w => w) h with ⟨t, ht, rfl, rfl⟩ | h
  · exact ⟨t, ht, rfl, rfl⟩
  · exact absurd h.symm (some_ne_none w)

theorem isSome_lookup_workspacesChanged
    (ht : t ∈ T) : ((m.apply (.workspacesChanged T)).lookup t.id).isSome = true :=
  AList.lookup_isSome.mpr
    ((FinMap.mem_foldl_insert T Workspace.id (fun w => w) ∅ t.id).mpr (.inl ⟨t, ht, rfl⟩))

theorem emptiedBy_emptied (node : Node) (w : Workspace) :
    emptiedBy node.emptied w = emptiedBy node w := by
  obtain ⟨info, nodes, floating⟩ := node
  cases info
  cases ‹NodeProperties› <;> rfl

/-- An event of a refresh that replaces the records. -/
def Replayed (T : List Workspace) (event : Event) : Prop :=
  Settling T event ∨ ∃ node, event = .workspaceEmptied node

theorem Within.aligned (h : Within T m) : Aligned T m := by
  intro k w hw
  obtain ⟨t, ht, hid, hfacts⟩ := h k w hw
  obtain ⟨hwid, hname, hout, -⟩ := facts_eq_iff.mp hfacts
  exact ⟨t, ht, hid, hwid, hname, hout⟩

/-- Replaying changes no record that is right. -/
theorem Within.apply (hT : IsTarget T) (hm : Within T m) (h : Replayed T event) :
    Within T (m.apply event) := by
  intro k w' hw'
  rcases h with h | ⟨node, rfl⟩
  · obtain ⟨t, ht, rfl, -⟩ := (h.towards hT hm.aligned).aligned hm.aligned k w' hw'
    obtain ⟨w, hw, hc⟩ := (h.towards hT hm.aligned).exists_before ht hw'
    obtain ⟨u, hu, hid, hfacts⟩ := hm t.id w hw
    obtain rfl := hT.eq_of_id hu ht hid
    exact ⟨u, hu, rfl, hc.facts hfacts⟩
  · rw [WorkspacesState.apply, FinMap.lookup_retain] at hw'
    exact hm k w' (Option.filter_eq_some_iff.mp hw').1

theorem Within.foldl (hT : IsTarget T) {events : List Event}
    (hevents : ∀ event ∈ events, Replayed T event) (hm : Within T m) :
    Within T (events.foldl WorkspacesState.apply m) := by
  induction events generalizing m with
  | nil => exact hm
  | cons event events ih =>
    exact ih (fun e he => hevents e (mem_cons_of_mem _ he))
      (hm.apply hT (hevents event mem_cons_self))

/-- The event of a workspace that is gone keeps the records it is not about. -/
theorem complete_foldl (hT : IsTarget T) {events : List Event}
    (hevents : ∀ event ∈ events, Settling T event ∨
      ∃ node, event = .workspaceEmptied node ∧ ∀ t ∈ T, emptiedBy node t = false)
    (hm : Within T m) (hall : Complete T m) :
    Complete T (events.foldl WorkspacesState.apply m) := by
  induction events generalizing m with
  | nil => exact hall
  | cons event events ih =>
    have hevent := hevents event mem_cons_self
    refine ih (fun e he => hevents e (mem_cons_of_mem _ he))
      (hm.apply hT (hevent.imp_right fun h => h.imp fun _ => And.left)) fun t ht => ?_
    obtain ⟨w, hw⟩ := isSome_iff_exists.mp (hall t ht)
    rcases hevent with h | ⟨node, rfl, hnode⟩
    · obtain ⟨w', hw', -⟩ := (h.towards hT hm.aligned).closer t ht w hw
      rw [hw']
      rfl
    · obtain ⟨u, hu, hid, hfacts⟩ := hm t.id w hw
      obtain rfl := hT.eq_of_id hu ht hid
      obtain ⟨-, hname, hout, -⟩ := facts_eq_iff.mp hfacts
      have hkeep : emptiedBy node w = false := by
        rw [← hnode u hu, emptiedBy, emptiedBy, hname, hout]
      rw [WorkspacesState.apply, FinMap.lookup_retain, hw, Option.filter_some, hkeep]
      rfl

/-- The events tell all that differs. -/
structure Told (T : List Workspace) (m : WorkspacesState) (events : List Event) : Prop where
  settling : ∀ event ∈ events, Settling T event
  urgent : ∀ t ∈ T, ∀ w, m.lookup t.id = some w → w.isUrgent = t.isUrgent ∨
    ∃ node : Node, node.info.urgent = t.isUrgent ∧ .workspaceUrgencyChanged t.id node ∈ events
  window : ∀ t ∈ T, ∀ w, m.lookup t.id = some w → w.activeWindowId = t.activeWindowId ∨
    .workspaceActiveWindowChanged t.id t.activeWindowId ∈ events
  active : ∀ t ∈ T, t.isActive = true → ∀ w, m.lookup t.id = some w → w.isActive = true ∨
    ∃ focused, .workspaceActivated t.id focused ∈ events
  focused : ∀ t ∈ T, t.isFocused = true → ∀ w, m.lookup t.id = some w → w.isFocused = true ∨
    .workspaceActivated t.id true ∈ events

/-- A workspace that became active puts the flags of its output right. -/
theorem activated_settles (hT : IsTarget T) (hm : Aligned T m) {t u : Workspace} (ht : t ∈ T)
    (hu : u ∈ T) (hactive : u.isActive = true) (hout : u.output = t.output) {focused : Bool}
    (hhas : (m.lookup u.id).isSome = true)
    (hw : (m.apply (.workspaceActivated u.id focused)).lookup t.id = some w) :
    w.isActive = t.isActive := by
  obtain ⟨ws, hws⟩ := isSome_iff_exists.mp hhas
  rw [lookup_activated hws, (hm.record hT hu hws).2] at hw
  obtain ⟨w0, hw0, rfl⟩ := map_eq_some_iff.mp hw
  obtain ⟨hid, hplace⟩ := hm.record hT ht hw0
  exact isActive_activated hT hu ht hid hactive hplace hout.symm

/-- A workspace that became focused puts every focused flag right. -/
theorem focused_settles (hT : IsTarget T) (hm : Aligned T m) {t u : Workspace} (ht : t ∈ T)
    (hu : u ∈ T) (hfocused : u.isFocused = true) (hhas : (m.lookup u.id).isSome = true)
    (hw : (m.apply (.workspaceActivated u.id true)).lookup t.id = some w) :
    w.isFocused = t.isFocused := by
  obtain ⟨ws, hws⟩ := isSome_iff_exists.mp hhas
  rw [lookup_activated hws] at hw
  obtain ⟨w0, hw0, rfl⟩ := map_eq_some_iff.mp hw
  exact isFocused_activated hT hu ht (hm.record hT ht hw0).1 _ hfocused

namespace Told

variable {events : List Event}

/-- The active flags in the end. The workspace that should be active on the output decides: it was
so before, and then no other one was, or the events make it so. -/
theorem isActive (h : Told T m events) (hT : IsTarget T) (hm : Coherent m) (ha : Aligned T m)
    (hall : Complete T m) (ht : t ∈ T)
    (hw : (events.foldl WorkspacesState.apply m).lookup t.id = some w) :
    w.isActive = t.isActive := by
  refine foldl_settles hT ht (fun _ _ hc => hc.active) h.settling ha hall ?_ hw
  by_cases hsome : t.output.isSome = true
  · obtain ⟨u, hu, hactive, hout⟩ := hT.exists_active t ht hsome
    obtain ⟨wu, hwu⟩ := isSome_iff_exists.mp (hall u hu)
    rcases h.active u hu hactive wu hwu with hbefore | ⟨focused, hevent⟩
    · refine .inl fun w0 hw0 => ?_
      have hplace : w0.output = wu.output :=
        (ha.record hT ht hw0).2.trans (hout.symm.trans (ha.record hT hu hwu).2.symm)
      rw [Bool.eq_iff_iff]
      constructor
      · intro e
        have hid := hm.active_unique _ w0 _ wu hw0 hwu e hbefore hplace
        rw [hT.eq_of_id ht hu hid, hactive]
      · intro e
        have hid := hT.active_unique _ ht _ hu e hactive hout.symm
        rw [hid] at hw0
        rw [Option.some.inj (hw0.symm.trans hwu), hbefore]
    · exact .inr ⟨_, hevent, fun m' ha' hall' w0 hw0 =>
        activated_settles hT ha' ht hu hactive hout (hall' u hu) hw0⟩
  · refine .inl fun w0 hw0 => ?_
    have hout := (ha.record hT ht hw0).2
    have hold : ¬ w0.isActive = true := fun e => hsome (hout ▸ hm.active_output _ w0 hw0 e)
    have hnew : ¬ t.isActive = true := fun e => hsome (hT.active_output _ ht e)
    rw [Bool.eq_false_iff.mpr hold, Bool.eq_false_iff.mpr hnew]

/-- The focused flags in the end. -/
theorem isFocused (h : Told T m events) (hT : IsTarget T) (hm : Coherent m) (ha : Aligned T m)
    (hall : Complete T m) (ht : t ∈ T)
    (hw : (events.foldl WorkspacesState.apply m).lookup t.id = some w) :
    w.isFocused = t.isFocused := by
  refine foldl_settles hT ht (fun _ _ hc => hc.focused) h.settling ha hall ?_ hw
  obtain ⟨u, hu, hfocused⟩ := hT.exists_focused (ne_nil_of_mem ht)
  obtain ⟨wu, hwu⟩ := isSome_iff_exists.mp (hall u hu)
  rcases h.focused u hu hfocused wu hwu with hbefore | hevent
  · refine .inl fun w0 hw0 => ?_
    rw [Bool.eq_iff_iff]
    constructor
    · intro e
      have hid := hm.focused_unique _ w0 _ wu hw0 hwu e hbefore
      rw [hT.eq_of_id ht hu hid, hfocused]
    · intro e
      have hid := hT.focused_unique _ ht _ hu e hfocused
      rw [hid] at hw0
      rw [Option.some.inj (hw0.symm.trans hwu), hbefore]
  · exact .inr ⟨_, hevent, fun m' ha' hall' w0 hw0 =>
      focused_settles hT ha' ht hu hfocused (hall' u hu) hw0⟩

/-- **Replaying events that tell all that differs gives the records of the layout.** -/
theorem within (h : Told T m events) (hT : IsTarget T) (hm : Coherent m) (ha : Aligned T m)
    (hall : Complete T m) : Within T (events.foldl WorkspacesState.apply m) := by
  intro k w hw
  obtain ⟨t, ht, rfl, hid, hname, hout⟩ := (foldl_towards hT h.settling ha).aligned ha k w hw
  obtain ⟨w0, hw0⟩ := isSome_iff_exists.mp (hall t ht)
  have hurgent : w.isUrgent = t.isUrgent := by
    refine foldl_settles hT ht (fun _ _ hc => hc.urgent) h.settling ha hall ?_ hw
    rcases h.urgent t ht w0 hw0 with e | ⟨node, hnode, hevent⟩
    · exact .inl fun w1 hw1 => Option.some.inj (hw1.symm.trans hw0) ▸ e
    refine .inr ⟨_, hevent, fun m' _ _ w1 hw1 => ?_⟩
    rw [WorkspacesState.apply, FinMap.lookup_modify, if_pos rfl] at hw1
    obtain ⟨w2, -, rfl⟩ := map_eq_some_iff.mp hw1
    exact hnode
  have hwindow : w.activeWindowId = t.activeWindowId := by
    refine foldl_settles hT ht (fun _ _ hc => hc.window) h.settling ha hall ?_ hw
    rcases h.window t ht w0 hw0 with e | hevent
    · exact .inl fun w1 hw1 => Option.some.inj (hw1.symm.trans hw0) ▸ e
    refine .inr ⟨_, hevent, fun m' _ _ w1 hw1 => ?_⟩
    rw [WorkspacesState.apply, FinMap.lookup_modify, if_pos rfl] at hw1
    obtain ⟨w2, -, rfl⟩ := map_eq_some_iff.mp hw1
    rfl
  exact ⟨t, ht, rfl, facts_eq_iff.mpr ⟨hid, hname, hout, hurgent,
    h.isActive hT hm ha hall ht hw, h.isFocused hT hm ha hall ht hw, hwindow⟩⟩

end Told

section Refresh

variable {shown : List (Node × Workspace)} {focusedNode previous : Option Node}

theorem mem_focusLast (h : event ∈ focusLast shown focusedNode previous m) :
    event ∈ (scan shown previous m).events ∨
      ∃ old node, event = .workspaceFocusChanged old node := by
  unfold focusLast at h
  dsimp only at h
  split at h
  · rcases mem_append.mp h with h | h
    · exact .inl (mem_of_mem_filter h)
    · obtain ⟨node, -, rfl⟩ := map_eq_some_iff.mp (Option.mem_toList.mp h)
      exact .inr ⟨_, _, rfl⟩
  · exact .inl h

theorem mem_focusLast_of_mem (h : event ∈ (scan shown previous m).events)
    (hfocus : isFocusChange event = false) : event ∈ focusLast shown focusedNode previous m := by
  unfold focusLast
  dsimp only
  split
  · refine mem_append_left _ (mem_filter.mpr ⟨h, ?_⟩)
    rw [hfocus]
    rfl
  · exact h

theorem settling_focusLast (h : event ∈ focusLast shown focusedNode previous m) :
    Settling (shown.map (·.2)) event := by
  obtain ⟨taken, hscan⟩ := exists_scanned (oldFocusedNode previous m) shown { mirror := m }
  rcases mem_focusLast h with h | ⟨old, node, rfl⟩
  · rcases hscan.source event h with h | ⟨e, he, m', hm'⟩
    · exact nomatch h
    · exact settling_of_mem_noteEvents (mem_map_of_mem he) hm'
  · exact .focusChanged _ _

/-- **The loop notes all that differs.** -/
theorem told_scan (focusedNode previous : Option Node) (hT : IsTarget (shown.map (·.2)))
    (hm : Coherent m) :
    ∃ taken, (scan shown previous m).mirror = focusing taken m ∧
      Told (shown.map (·.2)) m (taken.map (.workspaceActivated · true) ++
        focusLast shown focusedNode previous m) := by
  obtain ⟨taken, hscan⟩ := exists_scanned (oldFocusedNode previous m) shown { mirror := m }
  refine ⟨taken, hscan.mirror, ?_⟩
  -- the record of a workspace at its turn
  have hturn : ∀ t ∈ shown.map (·.2), ∀ w, m.lookup t.id = some w → ∃ node before w',
      before ⊆ taken ∧ (focusing before m).lookup t.id = some w' ∧ SameButFocus w w' ∧
      (t.id ∉ taken → (w'.isActive = true → w.isActive = true) ∧
        (w'.isFocused = true → w.isFocused = true)) ∧
      noteEvents (oldFocusedNode previous m) (focusing before m) node t ⊆
        (scan shown previous m).events ∧
      (takesFocus (focusing before m) t = true → t.id ∈ taken) := by
    intro t ht w hw
    obtain ⟨e, he, rfl⟩ := mem_map.mp ht
    obtain ⟨before, hsub, hevents, htaken⟩ := hscan.noted e he
    obtain ⟨w', hw', hsame, hflags⟩ := lookup_focusing hw (hm.keyed _ _ hw) before
    exact ⟨e.1, before, w', hsub, hw', hsame, fun h => hflags fun hid => h (hsub hid), hevents,
      htaken⟩
  refine ⟨?_, ?_, ?_, ?_, ?_⟩
  · intro event hevent
    rcases mem_append.mp hevent with h | h
    · obtain ⟨id, hid, rfl⟩ := mem_map.mp h
      obtain ⟨e, he, rfl, hfocused⟩ := hscan.taken_focused id hid
      have ht : e.2 ∈ shown.map (·.2) := mem_map_of_mem he
      exact .activated ht (hT.focused_active _ ht hfocused) fun _ => hfocused
    · exact settling_focusLast h
  · intro t ht w hw
    obtain ⟨node, before, w', -, hw', hsame, -, hevents, -⟩ := hturn t ht w hw
    by_cases h : t.isUrgent = w'.isUrgent
    · exact .inl (hsame.urgent.symm.trans h.symm)
    · refine .inr ⟨node.setUrgent t.isUrgent, by cases node; rfl, mem_append_right _ ?_⟩
      exact mem_focusLast_of_mem (hevents ((mem_noteEvents hw').2.1 h)) rfl
  · intro t ht w hw
    obtain ⟨node, before, w', -, hw', hsame, -, hevents, -⟩ := hturn t ht w hw
    by_cases h : w'.activeWindowId = t.activeWindowId
    · exact .inl (hsame.window.symm.trans h)
    · refine .inr (mem_append_right _ ?_)
      exact mem_focusLast_of_mem (hevents ((mem_noteEvents hw').1 h)) rfl
  · intro t ht hactive w hw
    obtain ⟨node, before, w', -, hw', -, hflags, hevents, htaken⟩ := hturn t ht w hw
    by_cases hin : t.id ∈ taken
    · exact .inr ⟨true, mem_append_left _ (mem_map_of_mem hin)⟩
    cases hw'a : w'.isActive with
    | true => exact .inl ((hflags hin).1 hw'a)
    | false =>
      refine .inr ⟨false, mem_append_right _ ?_⟩
      have htakes := Bool.eq_false_iff.mpr fun h => hin (htaken h)
      exact mem_focusLast_of_mem (hevents ((mem_noteEvents hw').2.2 hactive hw'a htakes)) rfl
  · intro t ht hfocused w hw
    obtain ⟨node, before, w', -, hw', -, hflags, -, htaken⟩ := hturn t ht w hw
    by_cases hin : t.id ∈ taken
    · exact .inr (mem_append_left _ (mem_map_of_mem hin))
    refine .inl ((hflags hin).2 ?_)
    by_contra hw'f
    refine hin (htaken ?_)
    rw [takesFocus, hw', any_some, hfocused, Bool.eq_false_iff.mpr hw'f]
    rfl

theorem mem_unseen (hm : Coherent m) (h : w ∈ unseen shown previous m) :
    w.id ∈ m ∧ w.id ∉ shown.map (·.2.id) := by
  obtain ⟨taken, hscan⟩ := exists_scanned (oldFocusedNode previous m) shown { mirror := m }
  obtain ⟨hmem, hseen⟩ := mem_filter.mp h
  obtain ⟨⟨k, w'⟩, he, rfl⟩ := mem_map.mp hmem
  have hlookup : (focusing taken m).lookup k = some w' := hscan.mirror ▸ AList.mem_lookup_iff.mpr he
  cases hw : m.lookup k with
  | none =>
    exact absurd (hlookup.symm.trans (lookup_focusing_none hw taken)) (some_ne_none _)
  | some w =>
    obtain ⟨u, hu, hsame, -⟩ := lookup_focusing hw (hm.keyed k w hw) taken
    obtain rfl := Option.some.inj (hu.symm.trans hlookup)
    have hid : u.id = k := hsame.id.trans (hm.keyed k w hw)
    refine ⟨FinMap.mem_iff_lookup.mpr ⟨w, hid ▸ hw⟩, fun hin => ?_⟩
    have hnot : u.id ∉ (scan shown previous m).seen := by simpa using hseen
    exact hnot ((seen_foldl_scanOne _ shown _ _).mpr (.inl hin))

theorem mem_unseen_of_notMem {k : ℕ} (hm : Coherent m) (hk : k ∈ m)
    (hnot : k ∉ shown.map (·.2.id)) : ∃ w ∈ unseen shown previous m, w.id = k := by
  obtain ⟨taken, hscan⟩ := exists_scanned (oldFocusedNode previous m) shown { mirror := m }
  obtain ⟨w, hw⟩ := FinMap.mem_iff_lookup.mp hk
  obtain ⟨w', hw', hsame, -⟩ := lookup_focusing hw (hm.keyed k w hw) taken
  have hid : w'.id = k := hsame.id.trans (hm.keyed k w hw)
  rw [← hscan.mirror] at hw'
  refine ⟨w', mem_filter.mpr ⟨mem_map.mpr ⟨_, AList.mem_lookup_iff.mp hw', rfl⟩, ?_⟩, hid⟩
  have hseen : w'.id ∉ (scan shown previous m).seen := by
    rw [scan, seen_foldl_scanOne, hid]
    exact fun h => h.elim hnot fun h => nomatch h
  simpa using hseen

/-- Nothing came, went or moved: the records have the places they should have. -/
theorem aligned_of_unchanged (hm : Coherent m) (hchanged : (scan shown previous m).changed = false)
    (hunseen : unseen shown previous m = []) :
    Aligned (shown.map (·.2)) m ∧ Complete (shown.map (·.2)) m := by
  rw [scan, changed_foldl_scanOne, Bool.false_or, any_eq_false] at hchanged
  have hplace : ∀ t ∈ shown.map (·.2), ∃ w, m.lookup t.id = some w ∧ w.name = t.name ∧
      w.output = t.output := by
    intro t ht
    obtain ⟨e, he, rfl⟩ := mem_map.mp ht
    have h := hchanged e he
    unfold outdated at h
    cases hw : m.lookup e.2.id with
    | none =>
      rw [hw] at h
      exact absurd rfl h
    | some w =>
      rw [hw] at h
      simpa using h
  constructor
  · intro k w hw
    have hk : k ∈ shown.map (·.2.id) := by
      by_contra hnot
      obtain ⟨u, hu, -⟩ := mem_unseen_of_notMem hm (FinMap.mem_iff_lookup.mpr ⟨w, hw⟩) hnot
      rw [hunseen] at hu
      exact nomatch hu
    obtain ⟨e, he, rfl⟩ := mem_map.mp hk
    obtain ⟨u, hu, hname, hout⟩ := hplace e.2 (mem_map_of_mem he)
    obtain rfl := Option.some.inj (hu.symm.trans hw)
    exact ⟨e.2, mem_map_of_mem he, rfl, hm.keyed _ u hu, hname, hout⟩
  · intro t ht
    obtain ⟨w, hw, -⟩ := hplace t ht
    rw [hw]
    rfl

/-- The records in the end, when none came, went or moved. -/
theorem exists_replay (focusedNode : Option Node) (hT : IsTarget (shown.map (·.2)))
    (hm : Coherent m)
    (h : ¬ ((scan shown previous m).changed || !(unseen shown previous m).isEmpty) = true) :
    Aligned (shown.map (·.2)) m ∧ Complete (shown.map (·.2)) m ∧
    ∃ events, Told (shown.map (·.2)) m events ∧
      (focusLast shown focusedNode previous m ++ emptiedEvents shown previous m).foldl
        WorkspacesState.apply (scan shown previous m).mirror =
      events.foldl WorkspacesState.apply m := by
  obtain ⟨hchanged, hunseen⟩ := Bool.or_eq_false_iff.mp (Bool.eq_false_iff.mpr h)
  have hunseen : unseen shown previous m = [] := by simpa using hunseen
  obtain ⟨ha, hall⟩ := aligned_of_unchanged hm hchanged hunseen
  obtain ⟨taken, hmirror, htold⟩ := told_scan focusedNode previous hT hm
  refine ⟨ha, hall, _, htold, ?_⟩
  rw [emptiedEvents, hunseen, filterMap_nil, append_nil, hmirror, foldl_append, foldl_map]
  rfl

theorem replayed_of_mem
    (h : event ∈ focusLast shown focusedNode previous m ++ emptiedEvents shown previous m) :
    Settling (shown.map (·.2)) event ∨ ∃ w ∈ unseen shown previous m, ∃ node,
      nodeIn previous w.id = some node ∧ event = .workspaceEmptied node.emptied := by
  rcases mem_append.mp h with h | h
  · exact .inl (settling_focusLast h)
  · obtain ⟨w, hw, he⟩ := mem_filterMap.mp h
    obtain ⟨node, hnode, rfl⟩ := map_eq_some_iff.mp he
    exact .inr ⟨w, hw, node, hnode, rfl⟩

/-- **After a refresh every record is that of a workspace of the layout.** -/
theorem refresh_within (hT : IsTarget (shown.map (·.2))) (hm : Coherent m) :
    Within (shown.map (·.2)) (refreshWorkspaces shown focusedNode previous m).1 := by
  unfold refreshWorkspaces
  dsimp only
  split_ifs with hsame
  · refine Within.foldl hT (fun event hevent => ?_) within_workspacesChanged
    exact (replayed_of_mem (mem_of_mem_filter hevent)).imp_right
      fun ⟨_, _, node, _, he⟩ => ⟨node.emptied, he⟩
  · obtain ⟨ha, hall, events, htold, he⟩ := exists_replay focusedNode hT hm hsame
    rw [he]
    exact htold.within hT hm ha hall

/-- **And every workspace has one**, unless a workspace that is gone had the name and the output of
one that is there. -/
theorem refresh_complete (hT : IsTarget (shown.map (·.2))) (hm : Coherent m)
    (hname : ∀ k ∈ m, k ∉ shown.map (·.2.id) → ∀ node, nodeIn previous k = some node →
      ∀ t ∈ shown.map (·.2), emptiedBy node t = false) :
    Complete (shown.map (·.2)) (refreshWorkspaces shown focusedNode previous m).1 := by
  unfold refreshWorkspaces
  dsimp only
  split_ifs with hsame
  · refine complete_foldl hT (fun event hevent => ?_) within_workspacesChanged
      fun t ht => isSome_lookup_workspacesChanged ht
    rcases replayed_of_mem (mem_of_mem_filter hevent) with h | ⟨w, hw, node, hnode, rfl⟩
    · exact .inl h
    · obtain ⟨hk, hnot⟩ := mem_unseen hm hw
      refine .inr ⟨_, rfl, fun t ht => ?_⟩
      rw [emptiedBy_emptied]
      exact hname w.id hk hnot node hnode t ht
  · obtain ⟨ha, hall, events, htold, he⟩ := exists_replay focusedNode hT hm hsame
    rw [he]
    exact (foldl_towards hT htold.settling ha).complete hall

/-- The loop over workspaces whose records are right. -/
theorem foldl_scanOne_idle (oldNode : Option Node) (s : Scan)
    (h : ∀ e ∈ shown, ∃ w, s.mirror.lookup e.2.id = some w ∧ w.facts = e.2.facts) :
    (shown.foldl (scanOne oldNode) s).mirror = s.mirror ∧
      (shown.foldl (scanOne oldNode) s).events = s.events ∧
      (shown.foldl (scanOne oldNode) s).changed = s.changed := by
  induction shown generalizing s with
  | nil => exact ⟨rfl, rfl, rfl⟩
  | cons e shown ih =>
    obtain ⟨w, hw, hfacts⟩ := h e mem_cons_self
    obtain ⟨-, hname, hout, hurgent, hactive, hfocused, hwindow⟩ := facts_eq_iff.mp hfacts
    have htakes : takesFocus s.mirror e.2 = false := by
      rw [takesFocus, hw, any_some, hfocused, Bool.and_not_self]
    have hmirror : (scanOne oldNode s e).mirror = s.mirror := by
      rw [scanOne, htakes]
      rfl
    have hevents : (scanOne oldNode s e).events = s.events := by
      simp [scanOne, noteEvents, hw, hname, hout, hurgent, hactive, hfocused, hwindow]
    have hchanged : (scanOne oldNode s e).changed = s.changed := by
      simp [scanOne, outdated, hw, hname, hout]
    have hrest := ih (scanOne oldNode s e) fun e' he' => by
      rw [hmirror]
      exact h e' (mem_cons_of_mem _ he')
    rwa [hmirror, hevents, hchanged] at hrest

theorem Mirrors.within (h : Mirrors T m) : Within T m := by
  intro k w hw
  have hk := h k
  rw [hw] at hk
  obtain ⟨t, ht, hfacts⟩ := map_eq_some_iff.mp hk.symm
  exact ⟨t, mem_of_find?_eq_some ht, id_of_find? ht, hfacts.symm⟩

/-- **A refresh of records that are right tells nothing.** -/
theorem refresh_idle (hT : IsTarget (shown.map (·.2))) (hm : Mirrors (shown.map (·.2)) m) :
    (refreshWorkspaces shown focusedNode previous m).2 = [] := by
  have hcoherent := hT.coherent hm.within
  have hrecords : ∀ e ∈ shown, ∃ w, m.lookup e.2.id = some w ∧ w.facts = e.2.facts := by
    intro e he
    have hk := hm e.2.id
    rw [hT.find?_id (mem_map_of_mem he)] at hk
    exact map_eq_some_iff.mp hk
  obtain ⟨hmirror, hevents, hchanged⟩ :=
    foldl_scanOne_idle (oldFocusedNode previous m) { mirror := m } hrecords
  have hknown : ∀ k ∈ m, k ∈ shown.map (·.2.id) := by
    intro k hk
    obtain ⟨w, hw⟩ := FinMap.mem_iff_lookup.mp hk
    obtain ⟨t, ht, rfl, -⟩ := hm.within k w hw
    obtain ⟨e, he, rfl⟩ := mem_map.mp ht
    exact mem_map.mpr ⟨e, he, rfl⟩
  have hunseen : unseen shown previous m = [] := by
    refine eq_nil_iff_forall_not_mem.mpr fun w hw => ?_
    obtain ⟨hin, hnot⟩ := mem_unseen hcoherent hw
    exact hnot (hknown _ hin)
  have hfocus : focusLast shown focusedNode previous m = [] := by
    unfold focusLast
    dsimp only
    rw [if_neg, scan, hevents]
    cases hold : oldFocused m with
    | none => exact Bool.false_ne_true
    | some w =>
      obtain ⟨⟨k, w'⟩, he, rfl⟩ := mem_map.mp (mem_of_find?_eq_some hold)
      have hw : m.lookup k = some w' := AList.mem_lookup_iff.mpr he
      have hseen : w'.id ∈ (scan shown previous m).seen := by
        rw [scan, seen_foldl_scanOne, hcoherent.keyed k w' hw]
        exact .inl (hknown k (FinMap.mem_iff_lookup.mpr ⟨w', hw⟩))
      simpa using hseen
  unfold refreshWorkspaces
  dsimp only
  rw [hfocus, emptiedEvents, hunseen, scan, hchanged]
  rfl

end Refresh

/-! ## 3. The layout -/

section Layout

variable (l : LayoutState MappedId) (v : Views)

/-- The identifier of `active_workspace` -/
def activeWorkspaceId : Option ℕ := (l.activeMonitor.bind (·.activeWorkspace)).map (·.id)

/-- What should be recorded of a workspace. -/
def workspaceRecord (mon : Option (Monitor MappedId)) (index : ℕ)
    (ws : Swayward.Workspace MappedId) : Workspace where
  id := ws.id
  idx := min (index + 1) 255
  name := ws.swayName
  output := mon.map (·.outputName)
  isUrgent := ws.windows.any v.isUrgent
  isActive := mon.any (·.activeWorkspaceIdx == index)
  isFocused := some ws.id == activeWorkspaceId l
  activeWindowId := ws.activeWindow

/-- The workspaces the current tree describes, with their nodes and records. -/
def describedRecords : List (Node × Workspace) :=
  l.workspaces.filterMap fun (mon, index, ws) =>
    (nodeIn (some (describeTree l v)) ws.id).map fun node =>
      (node, workspaceRecord l v mon index ws)

end Layout

/-- What the server keeps from one refresh to the next. -/
structure EventState where
  workspaces : WorkspacesState := ∅
  /-- the tree of the last refresh -/
  baselineTree : Option Node := none

/-- The workspace part of `ipc_initialize_event_state` -/
def EventState.refresh (s : EventState) (l : LayoutState MappedId) (v : Views) :
    EventState × List Event :=
  let current := describeTree l v
  let focusedNode := (activeWorkspaceId l).bind fun id => nodeIn (some current) id
  let result := refreshWorkspaces (describedRecords l v) focusedNode s.baselineTree s.workspaces
  ({ workspaces := result.1, baselineTree := some current }, result.2)

/-- The state after refreshes of several layouts. -/
def EventState.after (history : List (SoundLayout MappedId × Views)) : EventState :=
  history.foldl (fun s e => (s.refresh e.1.toLayoutState e.2).1) {}

section Target

variable (l : SoundLayout MappedId) (v : Views) {m : Monitor MappedId}

variable {l} in
/-- A workspace that is described has a node. -/
theorem isSome_nodeIn (hm : m ∈ l.monitors)
    {e : ℕ × Swayward.Workspace MappedId} (he : e ∈ describedWorkspaces m) :
    (nodeIn (some (describeTree l.toLayoutState v)) e.2.id).isSome = true := by
  rw [nodeIn, bind_some, Node.findWorkspaceByTreeId, Node.find?, find?_isSome]
  refine ⟨_, describeWorkspace_mem_preorder v hm he, ?_⟩
  exact Bool.and_eq_true_iff.mpr ⟨rfl, beq_self_eq_true _⟩

/-- Without outputs the tree describes no workspace. -/
theorem nodeIn_of_noMonitors (h : l.monitors = []) (id : ℕ) :
    nodeIn (some (describeTree l.toLayoutState v)) id = none := by
  rw [nodeIn, bind_some, Node.findWorkspaceByTreeId, Node.find?, find?_eq_none]
  intro node hnode hfound
  have hid : node.id = workspaceId id := beq_iff_eq.mp (Bool.and_eq_true_iff.mp hfound).2
  obtain ⟨hidden, -, hperm⟩ := ids_perm l v
  have hmem := hperm.subset (mem_map_of_mem hnode)
  have hlow := le_idFrom 200000000 id
  have hhigh := idFrom_lt 200000000 id
  rw [h, shownWorkspaces, h] at hmem
  rw [hid] at hmem
  unfold workspaceId at hmem
  have hscratch : ∀ x ∈ [scratchWorkspaceId, scratchOutputId], (500000000 : ℤ) ≤ x := by decide
  have hroot : rootId < 200000000 := by decide
  rcases mem_append.mp hmem with hmem | hmem
  · rw [mem_singleton.mp hmem] at hlow
    omega
  rcases mem_append.mp hmem with hmem | hmem
  · exact nomatch hmem
  rcases mem_append.mp hmem with hmem | hmem
  · have := (mem_map_idFrom (f := fun n => n) hmem).1
    omega
  rcases mem_append.mp hmem with hmem | hmem
  · have := (mem_map_idFrom (f := fun n => n) hmem).1
    omega
  · have := hscratch _ hmem
    omega

variable {l} in
/-- The place of a workspace that the tree describes. -/
theorem exists_place (h : t ∈ (describedRecords l.toLayoutState v).map (·.2)) :
    ∃ m ∈ l.monitors, ∃ index ws, m.workspaces[index]? = some ws ∧
      t = workspaceRecord l.toLayoutState v (some m) index ws := by
  obtain ⟨e, he, rfl⟩ := mem_map.mp h
  obtain ⟨⟨mon, index, ws⟩, hmem, he⟩ := mem_filterMap.mp he
  obtain ⟨node, hnode, rfl⟩ := map_eq_some_iff.mp he
  cases hset : l.monitorSet with
  | normal monitors idx =>
    have hmon : l.monitors = monitors := by rw [LayoutState.monitors, hset]
    rw [LayoutState.workspaces, hset] at hmem
    obtain ⟨m, hm, hin⟩ := mem_flatMap.mp hmem
    obtain ⟨⟨ws', index'⟩, hzip, heq⟩ := mem_map.mp hin
    obtain ⟨rfl, rfl, rfl⟩ : some m = mon ∧ index' = index ∧ ws' = ws := by
      simpa only [Prod.mk.injEq] using heq
    exact ⟨m, hmon ▸ hm, index', ws', mk_mem_zipIdx_iff_getElem?.mp hzip, rfl⟩
  | noOutputs workspaces =>
    have hmon : l.monitors = [] := by rw [LayoutState.monitors, hset]
    rw [nodeIn_of_noMonitors l v hmon] at hnode
    exact nomatch hnode

theorem exists_record (hm : m ∈ l.monitors) {index : ℕ}
    {ws : Swayward.Workspace MappedId} (h : (index, ws) ∈ describedWorkspaces m) :
    workspaceRecord l.toLayoutState v (some m) index ws ∈
      (describedRecords l.toLayoutState v).map (·.2) := by
  obtain ⟨node, hnode⟩ : ∃ node, nodeIn (some (describeTree l.toLayoutState v)) ws.id = some node :=
    isSome_iff_exists.mp (isSome_nodeIn v hm h)
  refine mem_map.mpr ⟨(node, _), mem_filterMap.mpr ⟨(some m, index, ws), ?_, ?_⟩, rfl⟩
  · exact l.mem_workspaces hm (mem_of_mem_describedWorkspaces h)
  · exact congrArg (Option.map _) hnode

/-- The active workspace of an output has a record. -/
theorem exists_active_record (hm : m ∈ l.monitors) :
    ∃ index ws, m.workspaces[index]? = some ws ∧ m.activeWorkspace = some ws ∧
      index = m.activeWorkspaceIdx ∧ workspaceRecord l.toLayoutState v (some m) index ws ∈
        (describedRecords l.toLayoutState v).map (·.2) := by
  obtain ⟨ws, -, hws⟩ := (l.monitors_sound m hm).exists_activeWorkspace
  obtain ⟨index, hdescribed⟩ := exists_mem_describedWorkspaces hm hws
  have hindex := mem_of_mem_describedWorkspaces hdescribed
  refine ⟨index, ws, hindex, hws, ?_, exists_record l v hm hdescribed⟩
  have hnodup : m.workspaces.Nodup := (l.monitor_workspaces_nodup hm).of_map
  obtain ⟨hlt, he⟩ := List.getElem?_eq_some_iff.mp hindex
  obtain ⟨hlt', he'⟩ := List.getElem?_eq_some_iff.mp hws
  exact (hnodup.getElem_inj_iff).mp (he.trans he'.symm)

theorem nodup_workspaceIds : (l.workspaces.map fun e => e.2.2.id).Nodup := by
  have := l.workspaces_nodup
  rwa [← l.map_workspaces, map_map] at this

/-- An identifier belongs to one place. -/
theorem place_unique {m m' : Monitor MappedId} (hm : m ∈ l.monitors) (hm' : m' ∈ l.monitors)
    {index index' : ℕ} {ws ws' : Swayward.Workspace MappedId} (h : m.workspaces[index]? = some ws)
    (h' : m'.workspaces[index']? = some ws') (hid : ws.id = ws'.id) :
    m = m' ∧ index = index' ∧ ws = ws' := by
  have heq := inj_on_of_nodup_map (nodup_workspaceIds l) (l.mem_workspaces hm h) (l.mem_workspaces hm' h') hid
  simpa only [Prod.mk.injEq, Option.some.injEq] using heq

/-- **The workspaces of a layout are a target.** -/
theorem isTarget : IsTarget ((describedRecords l.toLayoutState v).map (·.2)) where
  nodup := by
    rw [map_map]
    refine (nodup_workspaceIds l).sublist (Positions.map_filterMap_sublist (fun e e' he => ?_) l.workspaces)
    obtain ⟨node, -, rfl⟩ := map_eq_some_iff.mp he
    rfl
  active_unique := by
    intro t ht u hu hta hua hout
    obtain ⟨m, hm, index, ws, hws, rfl⟩ := exists_place v ht
    obtain ⟨m', hm', index', ws', hws', rfl⟩ := exists_place v hu
    obtain rfl := inj_on_of_nodup_map l.outputs_nodup hm hm' (Option.some.inj hout)
    have hindex : m.activeWorkspaceIdx = index := beq_iff_eq.mp hta
    have hindex' : m.activeWorkspaceIdx = index' := beq_iff_eq.mp hua
    obtain rfl : index = index' := hindex.symm.trans hindex'
    obtain rfl := Option.some.inj (hws.symm.trans hws')
    rfl
  focused_unique := by
    intro t ht u hu htf huf
    obtain ⟨m, -, index, ws, -, rfl⟩ := exists_place v ht
    obtain ⟨m', -, index', ws', -, rfl⟩ := exists_place v hu
    exact Option.some.inj ((beq_iff_eq.mp htf).trans (beq_iff_eq.mp huf).symm)
  active_output := by
    intro t ht _
    obtain ⟨m, -, index, ws, -, rfl⟩ := exists_place v ht
    rfl
  focused_active := by
    intro t ht htf
    obtain ⟨m, hm, index, ws, hws, rfl⟩ := exists_place v ht
    obtain ⟨n, hn, hactive⟩ := l.exists_activeMonitor (ne_nil_of_mem hm)
    obtain ⟨index', ws', hws', hactive', rfl, -⟩ := exists_active_record l v hn
    have hid : ws.id = ws'.id := by
      have h := beq_iff_eq.mp htf
      rw [activeWorkspaceId, hactive, bind_some, hactive', map_some] at h
      exact Option.some.inj h
    obtain ⟨rfl, rfl, rfl⟩ := place_unique l hm hn hws hws' hid
    exact beq_self_eq_true _
  exists_active := by
    intro t ht _
    obtain ⟨m, hm, index, ws, -, rfl⟩ := exists_place v ht
    obtain ⟨index', ws', -, -, rfl, hin⟩ := exists_active_record l v hm
    exact ⟨_, hin, beq_self_eq_true _, rfl⟩
  exists_focused := by
    intro hne
    obtain ⟨t, ht⟩ := exists_mem_of_ne_nil _ hne
    obtain ⟨m, hm, -⟩ := exists_place v ht
    obtain ⟨n, hn, hactive⟩ := l.exists_activeMonitor (ne_nil_of_mem hm)
    obtain ⟨index', ws', -, hactive', -, hin⟩ := exists_active_record l v hn
    refine ⟨_, hin, beq_iff_eq.mpr ?_⟩
    rw [activeWorkspaceId, hactive, bind_some, hactive', map_some]

end Target

/-- Some workspace that is gone had, when it was last described, the name and the output of one that
is described now. -/
def NameReturns (s : EventState) (l : LayoutState MappedId) (v : Views) : Prop :=
  ∃ k ∈ s.workspaces.keys, k ∉ (describedRecords l v).map (·.2.id) ∧
    ∃ node ∈ nodeIn s.baselineTree k, ∃ e ∈ describedRecords l v, emptiedBy node e.2 = true

instance (s : EventState) (l : LayoutState MappedId) (v : Views) : Decidable (NameReturns s l v) :=
  inferInstanceAs (Decidable (∃ k ∈ s.workspaces.keys,
    k ∉ (describedRecords l v).map (·.2.id) ∧ ∃ node ∈ nodeIn s.baselineTree k,
      ∃ e ∈ describedRecords l v, emptiedBy node e.2 = true))

theorem coherent_after (history : List (SoundLayout MappedId × Views)) :
    Coherent (EventState.after history).workspaces := by
  induction history using reverseRecOn with
  | nil =>
    have hnone : ∀ k, (∅ : WorkspacesState).lookup k = none := fun k => AList.lookup_empty k
    refine ⟨fun k w h => ?_, fun k w _ _ h => ?_, fun k w _ _ h => ?_, fun k w h => ?_⟩ <;>
      exact absurd ((hnone k).symm.trans h).symm (some_ne_none w)
  | append_singleton history e ih =>
    unfold EventState.after at ih ⊢
    rw [foldl_append]
    exact (isTarget e.1 e.2).coherent (refresh_within (isTarget e.1 e.2) ih)

/-- **After any earlier refreshes, a refresh makes the records those of the layout, and refreshing
again tells nothing**, unless a name returns. -/
theorem workspaces_mirrored (history : List (SoundLayout MappedId × Views))
    (l : SoundLayout MappedId) (v : Views)
    (hname : ¬ NameReturns (EventState.after history) l.toLayoutState v) :
    Mirrors ((describedRecords l.toLayoutState v).map (·.2))
      ((EventState.after history).refresh l.toLayoutState v).1.workspaces ∧
    (((EventState.after history).refresh l.toLayoutState v).1.refresh l.toLayoutState v).2 =
      [] := by
  have hT := isTarget l v
  have hm := coherent_after history
  have hmirrors : Mirrors ((describedRecords l.toLayoutState v).map (·.2))
      ((EventState.after history).refresh l.toLayoutState v).1.workspaces := by
    refine hT.mirrors (refresh_within hT hm) (refresh_complete hT hm ?_)
    intro k hk hnot node hnode t ht
    obtain ⟨e, he, rfl⟩ := mem_map.mp ht
    by_contra hempties
    exact hname ⟨k, hk, hnot, node, hnode, e, he, Bool.eq_true_of_not_eq_false hempties⟩
  exact ⟨hmirrors, refresh_idle hT hmirrors⟩

/-- One output that shows the empty workspace `number`. -/
def numberedWorkspace (id number : ℕ) : SoundLayout ℕ :=
  soundOneOutput
    { id := id, identity := { number := some number }, originalOutput := []
      tiling := SoundTree.new 0 {} } []
    List.nodup_nil
    (by
      change ((SoundTree.new 0 {} : SoundTree ℕ).tree.depthFirst 0 ++ []).Nodup
      decide +kernel)
    rfl windowIds_nil

/-- The focus goes from the empty workspace 3 to workspace 4, and 3 is gone. -/
theorem workspaces_mirrored_switch : let s := EventState.after [(numberedWorkspace 1 3, plainViews)]
    let s' := (s.refresh (numberedWorkspace 2 4).toLayoutState plainViews).1
    s.workspaces.keys = [1] ∧ s'.workspaces.keys = [2] ∧
      (s'.refresh (numberedWorkspace 2 4).toLayoutState plainViews).2 = [] :=
  ⟨by decide +kernel, by decide +kernel,
    (workspaces_mirrored [(numberedWorkspace 1 3, plainViews)] (numberedWorkspace 2 4) plainViews
      (by decide +kernel)).2⟩

/-- **A name that returns is lost.** The focus goes from the empty workspace 3 to 4 and back before
the next refresh: workspace 3 is a new one. Its record is deleted with the event for the old one,
and the refresh after that announces it again. -/
theorem returning_name_lost : let s := EventState.after [(numberedWorkspace 1 3, plainViews)]
    let l := (numberedWorkspace 3 3).toLayoutState
    (describedRecords l plainViews).map (·.2.id) = [3] ∧
      (s.refresh l plainViews).1.workspaces.lookup 3 = none ∧
      ¬ Mirrors ((describedRecords l plainViews).map (·.2)) (s.refresh l plainViews).1.workspaces ∧
      ((s.refresh l plainViews).1.refresh l plainViews).2.length = 2 := by
  have hlookup : ((EventState.after [(numberedWorkspace 1 3, plainViews)]).refresh
      (numberedWorkspace 3 3).toLayoutState plainViews).1.workspaces.lookup 3 = none := by
    decide +kernel
  have hthere : (((describedRecords (numberedWorkspace 3 3).toLayoutState plainViews).map
      (·.2)).find? (·.id == 3)).isSome = true := by decide +kernel
  refine ⟨by decide +kernel, hlookup, fun h => ?_, by decide +kernel⟩
  have hthree := h 3
  rw [hlookup, map_none, eq_comm, Option.map_eq_none_iff] at hthree
  rw [hthree] at hthere
  exact Bool.false_ne_true hthere

end Swayward.Ipc
