/-
  File:      Swayward/Ipc/WorkspaceMirror.lean
  Subject:   THE MIRROR OF THE WORKSPACES (`ipc/server/event_bridge/workspaces.rs`,
             `WorkspacesState` of `swayward-ipc/src/state.rs`).

  The compositor keeps a record of each workspace it has told clients about. A refresh compares the
  records with the layout, collects events and brings the records up to date: by replaying the
  events where no workspace came, went or changed its name or output, and by replacing all records
  otherwise.

  An event that tells what is so (`Settling`) leaves a record as it is or gives it flags it should
  have (`Closer`). What one event puts right the later ones keep:

  * `Settling.towards`  -- one event;
  * `foldl_settles`     -- **a list of them**.
-/
import Swayward.Ipc.Event
import Swayward.Ipc.Ids
import Swayward.Library.FinMap

namespace Swayward.Ipc

variable {m : WorkspacesState} {t : Workspace} {T : List Workspace}

open List

/-! ## 1. Records -/

/-- `WorkspacesState` -/
abbrev WorkspacesState := FinMap ℕ Workspace

namespace Workspace

/-- The record after a workspace of `output` became active. -/
def activated (output : Option Name) (id : ℕ) (focused : Bool) (w : Workspace) : Workspace :=
  { w with
    isActive := if w.output = output then w.id == id else w.isActive
    isFocused := if focused then w.id == id else w.isFocused }

/-- What clients are told of a workspace. -/
def facts (w : Workspace) : ℕ × Option Name × Option Name × Bool × Bool × Bool × Option ℕ :=
  (w.id, w.name, w.output, w.isUrgent, w.isActive, w.isFocused, w.activeWindowId)

end Workspace

/-- The record has the name and the output of a workspace that is gone. -/
def emptiedBy (current : Node) (w : Workspace) : Bool :=
  w.name == current.info.name &&
    match current.info.properties with
    | .workspace properties => w.output == some properties.output
    | _ => false

/-- `WorkspacesState::apply` -/
def WorkspacesState.apply (m : WorkspacesState) : Event → WorkspacesState
  | .workspacesChanged workspaces =>
    workspaces.foldl (fun (m : WorkspacesState) w => m.insert w.id w) ∅
  | .workspaceEmptied current => m.retain fun _ w => !emptiedBy current w
  | .workspaceUrgencyChanged id current =>
    m.modify id fun w => { w with isUrgent := current.info.urgent }
  | .workspaceActivated id focused =>
    match m.lookup id with
    | some ws => m.mapVals fun _ w => w.activated ws.output id focused
    | none => m
  | .workspaceActiveWindowChanged id window =>
    m.modify id fun w => { w with activeWindowId := window }
  | _ => m

/-! ## 2. A refresh -/

def Node.setFocused (focused : Bool) (n : Node) : Node :=
  n.withInfo fun info => { info with focused := focused }

def Node.setUrgent (urgent : Bool) (n : Node) : Node :=
  n.withInfo fun info => { info with urgent := urgent }

/-- A workspace that is gone, without its contents. -/
def Node.emptied (n : Node) : Node :=
  .mk ({ n.info with focus := [], focused := false }.setRepresentation none) [] []

/-- The node of a workspace in a tree that may be missing. -/
def nodeIn (tree : Option Node) (id : ℕ) : Option Node :=
  tree.bind (·.findWorkspaceByTreeId (workspaceId id))

section Scan

variable (oldNode : Option Node)

/-- The events for one workspace, with its node and its record as it should be. -/
def noteEvents (m : WorkspacesState) (node : Node) (now : Workspace) : List Event :=
  match m.lookup now.id with
  | none =>
    .workspaceInitialized (node.setFocused false) ::
      if now.isFocused then [.workspaceFocusChanged oldNode (node.setFocused true)] else []
  | some old =>
    (if old.name ≠ now.name then [.workspaceRenamed node]
      else if old.output ≠ now.output then [.workspaceMoved node]
      else []) ++
    (if old.activeWindowId ≠ now.activeWindowId then
        [.workspaceActiveWindowChanged now.id now.activeWindowId]
      else []) ++
    (if now.isUrgent ≠ old.isUrgent then
        [.workspaceUrgencyChanged now.id (node.setUrgent now.isUrgent)]
      else []) ++
    (if now.isFocused && !old.isFocused then
        [.workspaceFocusChanged oldNode (node.setFocused true)]
      else if now.isActive && !old.isActive then [.workspaceActivated now.id false]
      else [])

/-- The workspace is new, or has another name or output. -/
def outdated (m : WorkspacesState) (now : Workspace) : Bool :=
  (m.lookup now.id).all fun old => old.name != now.name || old.output != now.output

/-- The workspace was known and became focused. -/
def takesFocus (m : WorkspacesState) (now : Workspace) : Bool :=
  (m.lookup now.id).any fun old => now.isFocused && !old.isFocused

/-- The state of the loop over the workspaces. -/
structure Scan where
  mirror : WorkspacesState
  events : List Event := []
  seen : List ℕ := []
  changed : Bool := false

/-- One round of the loop. A workspace that became focused is noted at once. -/
def scanOne (s : Scan) (e : Node × Workspace) : Scan where
  mirror := if takesFocus s.mirror e.2 then s.mirror.apply (.workspaceActivated e.2.id true)
    else s.mirror
  events := s.events ++ noteEvents oldNode s.mirror e.1 e.2
  seen := e.2.id :: s.seen
  changed := s.changed || outdated s.mirror e.2

end Scan

def isFocusChange : Event → Bool
  | .workspaceFocusChanged _ _ => true
  | _ => false

/-- The events that are kept when all records are replaced. -/
def isSwayEvent : Event → Bool
  | .workspaceInitialized _ => true
  | .workspaceRenamed _ => true
  | .workspaceMoved _ => true
  | .workspaceFocusChanged _ _ => true
  | .workspaceUrgencyChanged _ _ => true
  | .workspaceEmptied _ => true
  | _ => false

section Refresh

variable (shown : List (Node × Workspace)) (focusedNode previous : Option Node)
  (m : WorkspacesState)

/-- The record of the workspace that had the focus. -/
def oldFocused : Option Workspace := (m.entries.map (·.2)).find? (·.isFocused)

/-- Its node. -/
def oldFocusedNode : Option Node :=
  ((oldFocused m).bind fun w => nodeIn previous w.id).map (Node.setFocused false)

/-- The loop over the workspaces. -/
def scan : Scan := shown.foldl (scanOne (oldFocusedNode previous m)) { mirror := m }

/-- The focus event is told last if the workspace that had the focus is gone. -/
def focusLast : List Event :=
  let s := scan shown previous m
  if (oldFocused m).any fun w => !s.seen.contains w.id then
    s.events.filter (fun event => !isFocusChange event) ++
      (focusedNode.map fun node =>
        .workspaceFocusChanged (oldFocusedNode previous m) (node.setFocused true)).toList
  else
    s.events

/-- The records of workspaces that are gone. -/
def unseen : List Workspace :=
  let s := scan shown previous m
  (s.mirror.entries.map (·.2)).filter fun w => !s.seen.contains w.id

/-- The events for them. -/
def emptiedEvents : List Event :=
  (unseen shown previous m).filterMap fun w =>
    (nodeIn previous w.id).map fun node => .workspaceEmptied node.emptied

/-- `ipc_refresh_workspaces`: the records and what clients are told. `shown` are the workspaces that
the current tree describes. -/
def refreshWorkspaces : WorkspacesState × List Event :=
  let s := scan shown previous m
  let events := focusLast shown focusedNode previous m ++ emptiedEvents shown previous m
  if s.changed || !(unseen shown previous m).isEmpty then
    let events := events.filter isSwayEvent
    (events.foldl WorkspacesState.apply (s.mirror.apply (.workspacesChanged (shown.map (·.2)))),
      events)
  else
    (events.foldl WorkspacesState.apply s.mirror, events)

end Refresh

/-! ## 3. Records and what they should be -/

/-- The records of a layout: one per workspace, one active per output, one focused. -/
structure IsTarget (T : List Workspace) : Prop where
  nodup : (T.map (·.id)).Nodup
  active_unique : ∀ t ∈ T, ∀ u ∈ T, t.isActive = true → u.isActive = true →
    t.output = u.output → t.id = u.id
  focused_unique : ∀ t ∈ T, ∀ u ∈ T, t.isFocused = true → u.isFocused = true → t.id = u.id
  active_output : ∀ t ∈ T, t.isActive = true → t.output.isSome = true
  focused_active : ∀ t ∈ T, t.isFocused = true → t.isActive = true
  exists_active : ∀ t ∈ T, t.output.isSome = true → ∃ u ∈ T, u.isActive = true ∧ u.output = t.output
  exists_focused : T ≠ [] → ∃ t ∈ T, t.isFocused = true

/-- What every mirror satisfies between two refreshes. -/
structure Coherent (m : WorkspacesState) : Prop where
  keyed : ∀ k w, m.lookup k = some w → w.id = k
  active_unique : ∀ k w j u, m.lookup k = some w → m.lookup j = some u → w.isActive = true →
    u.isActive = true → w.output = u.output → k = j
  focused_unique : ∀ k w j u, m.lookup k = some w → m.lookup j = some u → w.isFocused = true →
    u.isFocused = true → k = j
  active_output : ∀ k w, m.lookup k = some w → w.isActive = true → w.output.isSome = true

/-- Every record is that of a workspace of the layout. -/
def Within (T : List Workspace) (m : WorkspacesState) : Prop :=
  ∀ k w, m.lookup k = some w → ∃ t ∈ T, t.id = k ∧ w.facts = t.facts

/-- Every workspace of the layout has a record. -/
def Complete (T : List Workspace) (m : WorkspacesState) : Prop :=
  ∀ t ∈ T, (m.lookup t.id).isSome = true

/-- **The records are those of the layout.** -/
def Mirrors (T : List Workspace) (m : WorkspacesState) : Prop :=
  ∀ k, (m.lookup k).map Workspace.facts = (T.find? (·.id == k)).map Workspace.facts

theorem facts_eq_iff {w t : Workspace} : w.facts = t.facts ↔
    w.id = t.id ∧ w.name = t.name ∧ w.output = t.output ∧ w.isUrgent = t.isUrgent ∧
      w.isActive = t.isActive ∧ w.isFocused = t.isFocused ∧
      w.activeWindowId = t.activeWindowId := by
  simp only [Workspace.facts, Prod.mk.injEq]

theorem id_of_find? {k : ℕ} (h : T.find? (·.id == k) = some t) : t.id = k := by
  simpa using find?_some h

namespace IsTarget

theorem eq_of_id (hT : IsTarget T) {t u : Workspace} (ht : t ∈ T) (hu : u ∈ T)
    (h : t.id = u.id) : t = u :=
  inj_on_of_nodup_map hT.nodup ht hu h

theorem find?_id (hT : IsTarget T) (ht : t ∈ T) : T.find? (·.id == t.id) = some t := by
  cases h : T.find? (·.id == t.id) with
  | none => exact absurd (beq_self_eq_true t.id) (find?_eq_none.mp h t ht)
  | some u =>
    rw [hT.eq_of_id (mem_of_find?_eq_some h) ht (id_of_find? h)]

/-- Records that are those of a layout, and all of them. -/
theorem mirrors (hT : IsTarget T) (hm : Within T m) (hall : Complete T m) : Mirrors T m := by
  intro k
  cases hk : m.lookup k with
  | some w =>
    obtain ⟨t, ht, rfl, hfacts⟩ := hm k w hk
    rw [hT.find?_id ht, Option.map_some, Option.map_some, hfacts]
  | none =>
    cases hf : T.find? (·.id == k) with
    | none => rfl
    | some t =>
      have := hall t (mem_of_find?_eq_some hf)
      rw [id_of_find? hf, hk] at this
      exact absurd this Bool.false_ne_true

theorem coherent (hT : IsTarget T) (hm : Within T m) : Coherent m where
  keyed := by
    intro k w hw
    obtain ⟨t, -, rfl, hfacts⟩ := hm k w hw
    exact (facts_eq_iff.mp hfacts).1
  active_unique := by
    intro k w j u hw hu hwa hua hout
    obtain ⟨t, ht, rfl, hwt⟩ := hm k w hw
    obtain ⟨t', ht', rfl, hut⟩ := hm j u hu
    obtain ⟨-, -, hwo, -, hwt, -⟩ := facts_eq_iff.mp hwt
    obtain ⟨-, -, huo, -, hut, -⟩ := facts_eq_iff.mp hut
    exact hT.active_unique t ht t' ht' (hwt ▸ hwa) (hut ▸ hua) (hwo ▸ huo ▸ hout)
  focused_unique := by
    intro k w j u hw hu hwf huf
    obtain ⟨t, ht, rfl, hwt⟩ := hm k w hw
    obtain ⟨t', ht', rfl, hut⟩ := hm j u hu
    obtain ⟨-, -, -, -, -, hwt, -⟩ := facts_eq_iff.mp hwt
    obtain ⟨-, -, -, -, -, hut, -⟩ := facts_eq_iff.mp hut
    exact hT.focused_unique t ht t' ht' (hwt ▸ hwf) (hut ▸ huf)
  active_output := by
    intro k w hw hwa
    obtain ⟨t, ht, rfl, hwt⟩ := hm k w hw
    obtain ⟨-, -, hwo, -, hwt, -⟩ := facts_eq_iff.mp hwt
    exact hwo ▸ hT.active_output t ht (hwt ▸ hwa)

end IsTarget

/-! ## 4. What an event does to the records -/

/-- `w'` is `w`, some flags of it replaced by those of `t`. -/
structure Closer (t w w' : Workspace) : Prop where
  id : w'.id = w.id
  name : w'.name = w.name
  output : w'.output = w.output
  urgent : w'.isUrgent = w.isUrgent ∨ w'.isUrgent = t.isUrgent
  active : w'.isActive = w.isActive ∨ w'.isActive = t.isActive
  focused : w'.isFocused = w.isFocused ∨ w'.isFocused = t.isFocused
  window : w'.activeWindowId = w.activeWindowId ∨ w'.activeWindowId = t.activeWindowId

theorem Closer.refl (t w : Workspace) : Closer t w w :=
  ⟨rfl, rfl, rfl, .inl rfl, .inl rfl, .inl rfl, .inl rfl⟩

theorem Closer.trans {t w w' w'' : Workspace} (h : Closer t w w') (h' : Closer t w' w'') :
    Closer t w w'' where
  id := h'.id.trans h.id
  name := h'.name.trans h.name
  output := h'.output.trans h.output
  urgent := h'.urgent.elim (fun e => h.urgent.imp e.trans e.trans) .inr
  active := h'.active.elim (fun e => h.active.imp e.trans e.trans) .inr
  focused := h'.focused.elim (fun e => h.focused.imp e.trans e.trans) .inr
  window := h'.window.elim (fun e => h.window.imp e.trans e.trans) .inr

/-- A record that is right stays so. -/
theorem Closer.facts {t w w' : Workspace} (h : Closer t w w') (hw : w.facts = t.facts) :
    w'.facts = t.facts := by
  obtain ⟨hid, hname, hout, hu, ha, hf, hwin⟩ := facts_eq_iff.mp hw
  exact facts_eq_iff.mpr ⟨h.id.trans hid, h.name.trans hname, h.output.trans hout,
    h.urgent.elim (·.trans hu) fun e => e, h.active.elim (·.trans ha) fun e => e,
    h.focused.elim (·.trans hf) fun e => e, h.window.elim (·.trans hwin) fun e => e⟩

/-- Every record belongs to a workspace of the layout that has its name and output. -/
def Aligned (T : List Workspace) (m : WorkspacesState) : Prop :=
  ∀ k w, m.lookup k = some w → ∃ t ∈ T, t.id = k ∧ w.id = t.id ∧ w.name = t.name ∧
    w.output = t.output

theorem Aligned.record {w : Workspace} (hm : Aligned T m) (hT : IsTarget T) (ht : t ∈ T)
    (hw : m.lookup t.id = some w) : w.id = t.id ∧ w.output = t.output := by
  obtain ⟨u, hu, hid, hwid, -, hout⟩ := hm t.id w hw
  obtain rfl := hT.eq_of_id hu ht hid
  exact ⟨hwid, hout⟩

/-- The same records, each closer to what it should be. -/
structure Towards (T : List Workspace) (m m' : WorkspacesState) : Prop where
  missing : ∀ k, m.lookup k = none → m'.lookup k = none
  closer : ∀ t ∈ T, ∀ w, m.lookup t.id = some w → ∃ w', m'.lookup t.id = some w' ∧ Closer t w w'

namespace Towards

variable {m' m'' : WorkspacesState}

theorem refl (T : List Workspace) (m : WorkspacesState) : Towards T m m :=
  ⟨fun _ h => h, fun t _ w h => ⟨w, h, Closer.refl t w⟩⟩

theorem trans (h : Towards T m m') (h' : Towards T m' m'') : Towards T m m'' where
  missing k hk := h'.missing k (h.missing k hk)
  closer := by
    intro t ht w hw
    obtain ⟨w', hw', hc⟩ := h.closer t ht w hw
    obtain ⟨w'', hw'', hc'⟩ := h'.closer t ht w' hw'
    exact ⟨w'', hw'', hc.trans hc'⟩

/-- A record afterwards comes from one before. -/
theorem exists_before (h : Towards T m m') (ht : t ∈ T) {w' : Workspace}
    (hw' : m'.lookup t.id = some w') : ∃ w, m.lookup t.id = some w ∧ Closer t w w' := by
  cases hw : m.lookup t.id with
  | none => exact absurd (hw'.symm.trans (h.missing _ hw)) (Option.some_ne_none _)
  | some w =>
    obtain ⟨u, hu, hc⟩ := h.closer t ht w hw
    exact ⟨w, rfl, Option.some.inj (hu.symm.trans hw') ▸ hc⟩

theorem aligned (h : Towards T m m') (hm : Aligned T m) : Aligned T m' := by
  intro k w' hw'
  cases hw : m.lookup k with
  | none => exact absurd (hw'.symm.trans (h.missing _ hw)) (Option.some_ne_none _)
  | some w =>
    obtain ⟨t, ht, rfl, hid, hname, hout⟩ := hm k w hw
    obtain ⟨u, hu, hc⟩ := h.exists_before ht hw'
    obtain rfl : w = u := Option.some.inj (hw.symm.trans hu)
    exact ⟨t, ht, rfl, hc.id.trans hid, hc.name.trans hname, hc.output.trans hout⟩

end Towards

/-- An event that tells what is so. -/
inductive Settling (T : List Workspace) : Event → Prop
  | initialized (node : Node) : Settling T (.workspaceInitialized node)
  | renamed (node : Node) : Settling T (.workspaceRenamed node)
  | moved (node : Node) : Settling T (.workspaceMoved node)
  | focusChanged (old : Option Node) (node : Node) : Settling T (.workspaceFocusChanged old node)
  | urgency {t : Workspace} (ht : t ∈ T) {node : Node} (h : node.info.urgent = t.isUrgent) :
      Settling T (.workspaceUrgencyChanged t.id node)
  | window {t : Workspace} (ht : t ∈ T) :
      Settling T (.workspaceActiveWindowChanged t.id t.activeWindowId)
  | activated {t : Workspace} (ht : t ∈ T) (hactive : t.isActive = true) {focused : Bool}
      (hfocused : focused = true → t.isFocused = true) :
      Settling T (.workspaceActivated t.id focused)

theorem lookup_activated {id : ℕ} {ws : Workspace}
    (h : m.lookup id = some ws) (focused : Bool) (k : ℕ) :
    (m.apply (.workspaceActivated id focused)).lookup k =
      (m.lookup k).map (·.activated ws.output id focused) := by
  simp only [WorkspacesState.apply, h, FinMap.lookup_mapVals]

theorem apply_activated_none {id : ℕ} (h : m.lookup id = none)
    (focused : Bool) : m.apply (.workspaceActivated id focused) = m := by
  simp only [WorkspacesState.apply, h]

section Replay

/-- A change of one record. -/
theorem towards_modify (ht : t ∈ T) (hT : IsTarget T) {f : Workspace → Workspace}
    (hf : ∀ w, Closer t w (f w)) : Towards T m (m.modify t.id f) where
  missing := by
    intro k hk
    rw [FinMap.lookup_modify]
    split_ifs with heq
    · rw [← heq, hk]
      rfl
    · exact hk
  closer := by
    intro u hu w hw
    rw [FinMap.lookup_modify]
    split_ifs with heq
    · obtain rfl := hT.eq_of_id hu ht heq
      exact ⟨f w, by rw [hw]; rfl, hf w⟩
    · exact ⟨w, hw, Closer.refl u w⟩

section Activated

variable (hT : IsTarget T) {u w : Workspace} (ht : t ∈ T) (hu : u ∈ T) {focused : Bool}
  (hid : w.id = u.id)
include hT ht hu hid

theorem isFocused_activated (output : Option Name) (hfocused : t.isFocused = true) :
    (w.activated output t.id true).isFocused = u.isFocused := by
  rw [Workspace.activated, if_pos rfl, hid, Bool.eq_iff_iff, beq_iff_eq]
  constructor
  · intro e
    rw [hT.eq_of_id hu ht e, hfocused]
  · intro e
    exact hT.focused_unique u hu t ht e hfocused

variable (hactive : t.isActive = true) (hout : w.output = u.output)
include hactive hout

theorem isActive_activated (h : u.output = t.output) :
    (w.activated t.output t.id focused).isActive = u.isActive := by
  rw [Workspace.activated, if_pos (hout.trans h), hid, Bool.eq_iff_iff, beq_iff_eq]
  constructor
  · intro e
    rw [hT.eq_of_id hu ht e, hactive]
  · intro e
    exact hT.active_unique u hu t ht e hactive h

/-- The records of the output of a workspace that is active. -/
theorem closer_activated (hfocused : focused = true → t.isFocused = true) :
    Closer u w (w.activated t.output t.id focused) where
  id := rfl
  name := rfl
  output := rfl
  urgent := .inl rfl
  window := .inl rfl
  active := by
    by_cases h : w.output = t.output
    · exact .inr (isActive_activated hT ht hu hid hactive hout (hout.symm.trans h))
    · exact .inl (if_neg h)
  focused := by
    cases focused with
    | false => exact .inl rfl
    | true => exact .inr (isFocused_activated hT ht hu hid _ (hfocused rfl))

end Activated

/-- **An event that tells what is so brings every record closer.** -/
theorem Settling.towards (hT : IsTarget T) (hm : Aligned T m) {event : Event}
    (h : Settling T event) : Towards T m (m.apply event) := by
  cases h with
  | initialized | renamed | moved | focusChanged => exact Towards.refl T m
  | urgency ht hurgent =>
    exact towards_modify ht hT fun w =>
      ⟨rfl, rfl, rfl, .inr hurgent, .inl rfl, .inl rfl, .inl rfl⟩
  | window ht =>
    exact towards_modify ht hT fun w => ⟨rfl, rfl, rfl, .inl rfl, .inl rfl, .inl rfl, .inr rfl⟩
  | @activated t ht hactive focused hfocused =>
    cases hws : m.lookup t.id with
    | none =>
      rw [apply_activated_none hws]
      exact Towards.refl T m
    | some ws =>
      refine ⟨fun k hk => by rw [lookup_activated hws, hk]; rfl, fun u hu w hw => ?_⟩
      obtain ⟨hid, hout⟩ := hm.record hT hu hw
      refine ⟨_, by rw [lookup_activated hws, hw]; rfl, ?_⟩
      rw [(hm.record hT ht hws).2]
      exact closer_activated hT ht hu hid hactive hout hfocused

theorem foldl_towards (hT : IsTarget T) {events : List Event}
    (hevents : ∀ event ∈ events, Settling T event) (hm : Aligned T m) :
    Towards T m (events.foldl WorkspacesState.apply m) := by
  induction events generalizing m with
  | nil => exact Towards.refl T m
  | cons event events ih =>
    have hfirst := (hevents event mem_cons_self).towards hT hm
    exact hfirst.trans (ih (fun e he => hevents e (mem_cons_of_mem _ he)) (hfirst.aligned hm))

theorem Towards.complete {m' : WorkspacesState} (h : Towards T m m') (hm : Complete T m) :
    Complete T m' := by
  intro t ht
  obtain ⟨w, hw⟩ := Option.isSome_iff_exists.mp (hm t ht)
  obtain ⟨w', hw', -⟩ := h.closer t ht w hw
  rw [hw']
  rfl

/-- What one of the events puts right is right in the end. -/
theorem foldl_settles {γ : Type} {get : Workspace → γ} (hT : IsTarget T)
    (ht : t ∈ T) (hkeep : ∀ w w', Closer t w w' → get w' = get w ∨ get w' = get t)
    {events : List Event} (hevents : ∀ event ∈ events, Settling T event) (hm : Aligned T m)
    (hall : Complete T m) (h : (∀ w, m.lookup t.id = some w → get w = get t) ∨ ∃ event ∈ events,
      ∀ m : WorkspacesState, Aligned T m → Complete T m →
        ∀ w, (m.apply event).lookup t.id = some w → get w = get t)
    {w : Workspace} (hw : (events.foldl WorkspacesState.apply m).lookup t.id = some w) :
    get w = get t := by
  rcases h with h | ⟨event, hevent, hset⟩
  · obtain ⟨w0, hw0, hc⟩ := (foldl_towards hT hevents hm).exists_before ht hw
    exact (hkeep w0 w hc).elim (·.trans (h w0 hw0)) id
  -- the events before it keep the places, those after it keep what it put right
  obtain ⟨before, after, rfl⟩ := append_of_mem hevent
  rw [foldl_append, foldl_cons] at hw
  have hfirst := foldl_towards hT (fun e he => hevents e (mem_append_left _ he)) hm
  have hone := (hevents event hevent).towards hT (hfirst.aligned hm)
  obtain ⟨w1, hw1, hc⟩ := (foldl_towards hT (fun e he => hevents e
    (mem_append_right _ (mem_cons_of_mem _ he)))
    (hone.aligned (hfirst.aligned hm))).exists_before ht hw
  exact (hkeep w1 w hc).elim
    (·.trans (hset _ (hfirst.aligned hm) (hfirst.complete hall) w1 hw1)) id

end Replay

end Swayward.Ipc
