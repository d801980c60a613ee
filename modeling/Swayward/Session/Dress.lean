/-
  File:      Swayward/Session/Dress.lean
  Subject:   WHAT IS DRAWN DOES NOT MATTER to how the outputs and the lock evolve.

  `dress` changes what a state draws, its scene and the pictures that screen transitions hold over
  the outputs, and nothing else. Every event that takes no picture works the same in a dressed
  state.

  * `step_dress` -- such an event commutes with `dress`;
  * `scene_step` -- such an event leaves the scene alone.
-/
import Swayward.Session.Redraw

namespace Swayward.Session

open Except (map ok)
open Option (map_some)

variable {C : Type} {s t u : Compositor C}

/-! ## 1. States that draw something else -/

/-- Change the picture an output holds. -/
def OutputState.dress (f : ScreenTransition C → ScreenTransition C) (out : OutputState C) :
    OutputState C :=
  { out with screenTransition := out.screenTransition.map f }

namespace Compositor

/-- The same state with another scene and other held pictures. -/
def dress (scene : Scene C) (f : ScreenTransition C → ScreenTransition C) (s : Compositor C) :
    Compositor C :=
  { s with scene := scene, outputs := s.outputs.mapVals fun _ out => out.dress f }

section Dress

variable {scene : Scene C} {f : ScreenTransition C → ScreenTransition C}

theorem lockState_dress (s : Compositor C) : (s.dress scene f).lockState = s.lockState := rfl

theorem redrawState_dress (out : OutputState C) : (out.dress f).redrawState = out.redrawState := rfl

section

variable (s : Compositor C) (o : OutputId)

theorem lookup_dress :
    (s.dress scene f).outputs.lookup o = (s.outputs.lookup o).map (OutputState.dress f) :=
  FinMap.lookup_mapVals _ _ _

theorem mem_dress : o ∈ (s.dress scene f).outputs ↔ o ∈ s.outputs :=
  FinMap.mem_mapVals _ _ _

theorem dress_modifyOutput {change : OutputState C → OutputState C}
    (h : ∀ out, (change out).dress f = change (out.dress f)) :
    (s.dress scene f).modifyOutput o change = (s.modifyOutput o change).dress scene f := by
  unfold dress modifyOutput
  simp only [Compositor.mk.injEq, and_true]
  exact (FinMap.mapVals_modify s.outputs o h).symm

theorem dress_mapVals {change : OutputId → OutputState C → OutputState C}
    (h : ∀ o out, (change o out).dress f = change o (out.dress f)) :
    { s.dress scene f with outputs := (s.dress scene f).outputs.mapVals change } =
      ({ s with outputs := s.outputs.mapVals change } : Compositor C).dress scene f := by
  unfold dress
  simp only [FinMap.mapVals_mapVals, h]

theorem dress_queueRedraw : (s.dress scene f).queueRedraw o = (s.queueRedraw o).dress scene f :=
  dress_modifyOutput s o fun _ => rfl

theorem dress_setRedrawState (r : RedrawState) :
    (s.dress scene f).setRedrawState o r = (s.setRedrawState o r).dress scene f :=
  dress_modifyOutput s o fun _ => rfl

theorem dress_queueRedrawAll : (s.dress scene f).queueRedrawAll = s.queueRedrawAll.dress scene f :=
  dress_mapVals s fun _ _ => rfl

theorem dress_queueRedrawIf (needed : Bool) (o : OutputId) :
    (if needed = true then (s.dress scene f).queueRedraw o else s.dress scene f) =
      (if needed = true then s.queueRedraw o else s).dress scene f := by
  split
  · exact dress_queueRedraw s o
  · rfl

theorem dress_repositionOutputs (moved : List OutputId) :
    (s.dress scene f).repositionOutputs moved = (s.repositionOutputs moved).dress scene f := by
  unfold repositionOutputs
  induction moved generalizing s with
  | nil => rfl
  | cons o moved ih => rw [List.foldl_cons, List.foldl_cons, dress_queueRedraw, ih]

theorem dress_allLocked : (s.dress scene f).allLocked = s.allLocked :=
  FinMap.all_mapVals s.outputs (fun _ out => out.dress f) fun _ _ => rfl

theorem dress_surfacesReady : (s.dress scene f).surfacesReady = s.surfacesReady :=
  FinMap.all_mapVals s.outputs (fun _ out => out.dress f) fun _ _ => rfl

theorem dress_keys : (s.dress scene f).outputs.keys = s.outputs.keys :=
  FinMap.keys_mapVals _ _

theorem dress_foldl_ensureLockRedraw (os : List OutputId) :
    os.foldl ensureLockRedraw (s.dress scene f) = (os.foldl ensureLockRedraw s).dress scene f := by
  induction os generalizing s with
  | nil => rfl
  | cons o os ih =>
    rw [List.foldl_cons, List.foldl_cons, ← ih]
    rfl

end

/-! ## 2. Locking -/

section

variable (s : Compositor C)

theorem dress_finishLocking : (s.dress scene f).finishLocking = s.finishLocking.dress scene f := by
  unfold finishLocking
  rw [dress_allLocked, lockState_dress]
  split
  · split <;> rfl
  · rfl

theorem dress_continueToLocking :
    (s.dress scene f).continueToLocking = s.continueToLocking.dress scene f := by
  unfold continueToLocking
  rw [lockState_dress]
  split
  · rename_i confirmation deadlineToken _
    dsimp only
    have hkeys : ((s.dress scene f).removeSource deadlineToken).outputs.keys =
        (s.removeSource deadlineToken).outputs.keys := @dress_keys C scene f s
    rw [hkeys]
    split
    · rfl
    · rw [← dress_foldl_ensureLockRedraw, ← dress_queueRedrawAll]
      rfl
  · rfl

theorem dress_maybeContinueToLocking :
    (s.dress scene f).maybeContinueToLocking = s.maybeContinueToLocking.dress scene f := by
  unfold maybeContinueToLocking
  rw [dress_surfacesReady, lockState_dress]
  split
  · split
    · exact dress_continueToLocking s
    · rfl
  · rfl

theorem dress_lock (client : ℕ) :
    (s.dress scene f).lock client = (s.lock client).dress scene f := by
  unfold lock
  dsimp only
  rw [dress_keys, lockState_dress]
  split
  · rfl
  · rfl
  · rename_i held _
    show (if s.isAlive held = true then _ else _) = (if s.isAlive held = true then _ else _ :
      Compositor C).dress scene f
    split <;> rfl
  · split <;> rfl

theorem dress_activateMonitors :
    (s.dress scene f).activateMonitors = s.activateMonitors.dress scene f := by
  unfold activateMonitors
  rw [show (s.dress scene f).monitorsActive = s.monitorsActive from rfl]
  split
  · rfl
  · exact dress_queueRedrawAll { s with monitorsActive := true }

theorem dress_unlock : (s.dress scene f).unlock = s.unlock.dress scene f := by
  have hdrop : (s.dress scene f).dropDeadline = s.dropDeadline.dress scene f := by
    unfold dropDeadline
    rw [lockState_dress]
    split <;> rfl
  unfold unlock
  dsimp only
  rw [hdrop, ← dress_activateMonitors, ← dress_queueRedrawAll]
  refine congrArg (fun u : Compositor C => u.queueRedrawAll.activateMonitors) ?_
  exact dress_mapVals { s.dropDeadline with lockState := .unlocked } fun _ _ => rfl

theorem dress_newLockSurface (surface : LockSurface) (o : OutputId) :
    (s.dress scene f).newLockSurface surface o = (s.newLockSurface surface o).dress scene f := by
  rw [newLockSurface_eq, newLockSurface_eq, lockState_dress]
  split
  · exact dress_modifyOutput s o fun _ => rfl
  · rfl

theorem dress_lockSurfaceOutput (surface : SurfaceId) :
    (s.dress scene f).lockSurfaceOutput surface = s.lockSurfaceOutput surface := by
  unfold lockSurfaceOutput dress FinMap.mapVals
  dsimp only
  rw [List.find?_map, Option.map_map]
  rfl

theorem dress_commit (surface : SurfaceId) (isMapped : Bool) :
    (s.dress scene f).commit surface isMapped = (s.commit surface isMapped).dress scene f := by
  unfold commit
  dsimp only
  rw [show (s.dress scene f).setMapped surface isMapped = (s.setMapped surface isMapped).dress scene f
    from rfl, dress_lockSurfaceOutput]
  generalize s.setMapped surface isMapped = r
  split
  · rfl
  rw [lockState_dress]
  split
  · exact dress_maybeContinueToLocking r
  · exact dress_queueRedraw r _

end

/-! ## 3. Outputs and frames -/

section

variable (s : Compositor C) (o : OutputId)

theorem dress_addOutput (moved : List OutputId) :
    (s.dress scene f).addOutput o moved = (s.addOutput o moved).map (dress scene f) := by
  unfold addOutput
  by_cases ho : o ∈ s.outputs
  · rw [if_pos ho, if_pos ((mem_dress s o).mpr ho)]
    rfl
  rw [if_neg ho, if_neg fun h => ho ((mem_dress s o).mp h)]
  refine congrArg ok ?_
  rw [← dress_repositionOutputs]
  refine congrArg (fun u : Compositor C => u.repositionOutputs (o :: moved)) ?_
  unfold dress tell
  simp only [Compositor.mk.injEq, true_and, FinMap.mapVals_insert]
  exact ⟨rfl, rfl⟩

theorem dress_dropOutput (out : OutputState C) :
    (s.dress scene f).dropOutput o (out.dress f) = (s.dropOutput o out).dress scene f := by
  have herase : ({ s.dress scene f with outputs := (s.dress scene f).outputs.erase o } :
      Compositor C) = ({ s with outputs := s.outputs.erase o } : Compositor C).dress scene f := by
    unfold dress
    simp only [FinMap.mapVals_erase]
  unfold dropOutput
  dsimp only at herase ⊢
  rw [herase, redrawState_dress]
  split <;> rfl

theorem dress_recheckLocking :
    (s.dress scene f).recheckLocking = s.recheckLocking.dress scene f := by
  unfold recheckLocking
  rw [lockState_dress]
  split
  · exact dress_finishLocking s
  · exact dress_maybeContinueToLocking s

theorem dress_removeOutput (moved : List OutputId) (closed : Bool) :
    (s.dress scene f).removeOutput o moved closed =
      (s.removeOutput o moved closed).map (dress scene f) := by
  unfold removeOutput
  dsimp only
  rw [dress_repositionOutputs, lookup_dress]
  cases hout : (s.repositionOutputs moved).outputs.lookup o with
  | none => rfl
  | some out =>
    refine congrArg ok ?_
    rw [dress_dropOutput, dress_recheckLocking]
    split
    · exact dress_queueRedrawAll _
    · rfl

theorem dress_queueEstimatedVblankTimer : (s.dress scene f).queueEstimatedVblankTimer o =
      (s.queueEstimatedVblankTimer o).map (dress scene f) := by
  unfold queueEstimatedVblankTimer
  rw [lookup_dress]
  cases s.outputs.lookup o with
  | none => rfl
  | some out =>
    rw [map_some]
    dsimp only
    rw [redrawState_dress]
    split
    · rfl
    · rfl
    · exact congrArg ok (dress_setRedrawState s o _)
    · exact congrArg ok (dress_setRedrawState s o _)
    · exact congrArg ok (dress_setRedrawState { s with
        sources := s.sources.insert s.nextToken (.estimatedVBlank o)
        nextToken := s.nextToken + 1 } o _)

theorem dress_frameQueued :
    (s.dress scene f).frameQueued o = (s.frameQueued o).map (dress scene f) := by
  unfold frameQueued
  rw [lookup_dress]
  cases s.outputs.lookup o with
  | none => rfl
  | some out =>
    rw [map_some]
    dsimp only
    rw [redrawState_dress]
    split
    · rfl
    · rfl
    · rfl
    · exact congrArg ok (dress_setRedrawState s o _)
    · exact congrArg (fun u : Compositor C => ok (u.removeSource _)) (dress_setRedrawState s o _)

theorem dress_afterRender (active : Bool) (res : RenderResult) :
    (s.dress scene f).afterRender o active res = (s.afterRender o active res).dress scene f := by
  have hskip : (if res = .skipped then (s.dress scene f).modifyOutput o fun out =>
        { out with redrawState := out.redrawState.skipped } else s.dress scene f) =
      (if res = .skipped then s.modifyOutput o fun out =>
        { out with redrawState := out.redrawState.skipped } else s).dress scene f := by
    split
    · exact dress_modifyOutput s o fun _ => rfl
    · rfl
  unfold afterRender
  dsimp only
  rw [hskip]
  generalize (if res = RenderResult.skipped then
      s.modifyOutput o fun out => { out with redrawState := out.redrawState.skipped }
      else s) = r
  split
  · exact dress_modifyOutput (r.tell _) o fun _ => rfl
  · rfl

theorem dress_checkLocking :
    (s.dress scene f).checkLocking o = (s.checkLocking o).dress scene f := by
  unfold checkLocking
  rw [lookup_dress]
  cases s.outputs.lookup o with
  | none => rfl
  | some out =>
    rw [map_some]
    dsimp only
    rw [show (out.dress f).lockRenderState = out.lockRenderState from rfl]
    split
    · rfl
    · exact dress_finishLocking s

theorem dress_render (backend : Backend) : (s.dress scene f).render o backend =
      (s.render o backend).map fun r => (r.1.dress scene f, r.2) := by
  cases backend with
  | notReady => rfl
  | frameQueued =>
    refine (congrArg (map _) (dress_frameQueued s o)).trans ?_
    show map _ (map _ (s.frameQueued o)) = map _ (map _ (s.frameQueued o))
    cases s.frameQueued o <;> rfl
  | renderError | queueError | noDamage =>
    refine (congrArg (map _) (dress_queueEstimatedVblankTimer s o)).trans ?_
    show map _ (map _ (s.queueEstimatedVblankTimer o)) =
      map _ (map _ (s.queueEstimatedVblankTimer o))
    cases s.queueEstimatedVblankTimer o <;> rfl

theorem dress_redraw (target : ℕ) (animating : Bool) (backend : Backend) :
    (s.dress scene f).redraw o target animating backend =
      (s.redraw o target animating backend).map (dress scene f) := by
  unfold redraw
  rw [lookup_dress]
  cases s.outputs.lookup o with
  | none => rfl
  | some out =>
    rw [map_some]
    dsimp only
    have hnote : ((s.dress scene f).atTime target).noteAnimations o animating =
        ((s.atTime target).noteAnimations o animating).dress scene f :=
      dress_modifyOutput (s.atTime target) o fun out => by simp [OutputState.dress]
    rw [redrawState_dress,
      show (s.dress scene f).monitorsActive = s.monitorsActive from rfl,
      show (s.dress scene f).powered o = s.powered o from rfl, hnote, dress_render]
    split
    · split
      · cases ((s.atTime target).noteAnimations o animating).render o backend with
        | error p => rfl
        | ok r =>
          refine congrArg ok ?_
          rw [← dress_checkLocking, ← dress_afterRender]
      · refine congrArg ok ?_
        rw [← dress_checkLocking, ← dress_afterRender]
        rfl
    · rfl

theorem dress_onVblank (throttled : Bool) :
    (s.dress scene f).onVblank o throttled = (s.onVblank o throttled).dress scene f := by
  unfold onVblank
  rw [lookup_dress]
  cases s.outputs.lookup o with
  | none => rfl
  | some out =>
    rw [map_some]
    dsimp only
    rw [show (s.dress scene f).powered o = s.powered o from rfl, redrawState_dress]
    split
    · exact dress_setRedrawState s o _
    split
    · rfl
    · rw [dress_setRedrawState]
      exact dress_queueRedrawIf _ _ o

theorem dress_onEstimatedVblankTimer : (s.dress scene f).onEstimatedVblankTimer o =
      (s.onEstimatedVblankTimer o).map (dress scene f) := by
  unfold onEstimatedVblankTimer
  rw [lookup_dress]
  cases s.outputs.lookup o with
  | none => rfl
  | some out =>
    rw [map_some]
    dsimp only
    rw [redrawState_dress]
    split
    · rfl
    · rfl
    · rfl
    · exact congrArg ok (dress_setRedrawState s o _)
    · refine congrArg ok ?_
      rw [dress_setRedrawState]
      exact dress_queueRedrawIf _ _ o

theorem dress_onTimer (token : Token) :
    (s.dress scene f).onTimer token = (s.onTimer token).map (dress scene f) := by
  unfold onTimer
  rw [show (s.dress scene f).sources = s.sources from rfl]
  cases s.sources.lookup token with
  | none => rfl
  | some source =>
    cases source with
    | estimatedVBlank o => exact dress_onEstimatedVblankTimer (s.removeSource token) o
    | lockDeadline =>
      exact congrArg ok (dress_continueToLocking (s.removeSource token))
    | lockRedraw o =>
      refine congrArg ok ?_
      unfold onLockRedrawTimer
      rw [lookup_dress, lockState_dress]
      cases s.lockState with
      | locking c =>
        cases s.outputs.lookup o with
        | none => rfl
        | some out =>
          rw [map_some]
          dsimp only
          rw [show (out.dress f).lockRenderState = out.lockRenderState from rfl]
          split
          · rfl
          · exact dress_queueRedraw s o
      | unlocked => rfl
      | waitingForSurfaces c d => rfl
      | locked l => rfl

end

end Dress

end Compositor

/-! ## 4. One event -/

/-- The events that neither take a picture nor change what is drawn. -/
def Event.isPlain : Event C → Bool
  | .doScreenTransition _ _ | .draw _ => false
  | _ => true

namespace Compositor

theorem step_dress (scene : Scene C) {f : ScreenTransition C → ScreenTransition C}
    (hf : ∀ t, (f t).startAt = t.startAt) (s : Compositor C) {e : Event C} (he : e.isPlain = true) :
    (s.dress scene f).step e = (s.step e).map (dress scene f) := by
  cases e with
  | addOutput o moved =>
    simp only [step]
    by_cases ho : o ∈ s.outputs
    · rw [if_pos ho, if_pos ((mem_dress s o).mpr ho)]
      rfl
    · rw [if_neg ho, if_neg fun h => ho ((mem_dress s o).mp h)]
      exact dress_addOutput s o moved
  | removeOutput o moved closed =>
    simp only [step]
    by_cases ho : o ∈ s.outputs
    · rw [if_pos ho, if_pos ((mem_dress s o).mpr ho)]
      exact dress_removeOutput s o moved closed
    · rw [if_neg ho, if_neg fun h => ho ((mem_dress s o).mp h)]
      rfl
  | queueRedraw o => exact congrArg ok (dress_queueRedraw s o)
  | queueRedrawAll => exact congrArg ok (dress_queueRedrawAll s)
  | redraw o target animating backend =>
    simp only [step]
    have hany : ((s.dress scene f).outputs.lookup o).any (·.redrawState.isQueued) =
        (s.outputs.lookup o).any (·.redrawState.isQueued) := by
      rw [lookup_dress]
      cases s.outputs.lookup o <;> rfl
    rw [hany]
    split
    · exact dress_redraw s o target animating backend
    · rfl
  | vblank o throttled => exact congrArg ok (dress_onVblank s o throttled)
  | timer token => exact dress_onTimer s token
  | setMonitorsActive active =>
    cases active with
    | false => rfl
    | true => exact congrArg ok (dress_activateMonitors s)
  | setOutputPower o powered =>
    cases powered with
    | false => rfl
    | true => exact congrArg ok (dress_queueRedraw
        { s with poweredOff := s.poweredOff.filter (· != o) } o)
  | lock client => exact congrArg ok (dress_lock s client)
  | unlock => exact congrArg ok (dress_unlock s)
  | lockDied lock => rfl
  | newLockSurface surface o => exact congrArg ok (dress_newLockSurface s surface o)
  | commit surface isMapped => exact congrArg ok (dress_commit s surface isMapped)
  | doScreenTransition delayMs failed => cases he
  | advanceAnimations =>
    refine congrArg ok (dress_mapVals s fun o out => ?_)
    unfold OutputState.dress
    cases out.screenTransition with
    | none => rfl
    | some t =>
      have hdone : ∀ now, (f t).isDone now = t.isDone now := by
        intro now
        unfold ScreenTransition.isDone
        rw [hf]
      simp only [map_some, Option.filter_some, hdone]
      split <;> rfl
  | tick now => rfl
  | draw scene => cases he

theorem dress_self (s : Compositor C) : s.dress s.scene id = s := by
  have hid : (fun (_ : OutputId) (out : OutputState C) => out.dress id) = fun _ out => out := by
    funext _ out
    simp [OutputState.dress]
  unfold dress
  rw [hid]
  refine congrArg (fun outputs => { s with outputs := outputs }) (AList.ext ?_)
  simp [FinMap.mapVals]

/-- A plain event leaves what is drawn alone. -/
theorem scene_step {e : Event C} (he : e.isPlain = true) (h : s.step e = .ok t) :
    t.scene = s.scene := by
  have hs := step_dress s.scene (fun _ => rfl) s (f := id) he
  rw [dress_self, h] at hs
  have ht : t = t.dress s.scene id := Except.ok.inj hs
  calc t.scene = (t.dress s.scene id).scene := congrArg Compositor.scene ht
    _ = s.scene := rfl

end Compositor

end Swayward.Session
