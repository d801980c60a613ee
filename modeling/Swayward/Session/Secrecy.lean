/-
  File:      Swayward/Session/Secrecy.lean
  Subject:   THE LOCK SCREEN HIDES THE SESSION: two runs that differ only in what the windows show.

  The locked branch of the renderer draws nothing of the session, but one thing of the session can
  outlive it: the picture a screen transition holds over an output. Two runs stay equal up to the
  session and the pictures, and once the session is locked, up to the session alone, provided no
  output held a picture at the moment the lock took effect.

  * `locked_render_eq`       -- the two runs render the same while locked, if no picture was held;
  * `transition_over_lock`   -- a transition started before the lock shows the session over it.
-/
import Swayward.Session.Dress
import Swayward.Session.LockSafety

namespace Swayward.Session

variable {C : Type} {s t u v : Compositor C}

/-! ## 1. What is left without the session -/

/-- The scene without the session. -/
def Scene.hide (scene : Scene C) : Scene C := { scene with session := fun _ _ => [] }

namespace Compositor

/-- The state without the session. -/
def veil (s : Compositor C) : Compositor C := s.dress s.scene.hide id

/-- The state without the session and without the pictures held over the outputs. -/
def hide (s : Compositor C) : Compositor C :=
  s.dress s.scene.hide fun t => { t with fromTexture := fun _ => [] }

theorem lookup_veil (s : Compositor C) (o : OutputId) :
    s.veil.outputs.lookup o = s.outputs.lookup o := by
  refine (lookup_dress s o).trans ?_
  cases s.outputs.lookup o with
  | none => rfl
  | some out => simp [OutputState.dress]

/-- A locked output is rendered without the session. -/
theorem renderInner_veil (hs : s.isLocked = true) (o : OutputId) (target : RenderTarget)
    (includePointer : Bool) :
    s.veil.renderInner o target includePointer = s.renderInner o target includePointer := by
  unfold renderInner
  rw [lookup_veil, show s.veil.isLocked = s.isLocked from rfl, hs]
  rfl

/-- Two states that differ in the session, and in the held pictures only while unlocked. -/
structure Alike (u v : Compositor C) : Prop where
  hidden : u.hide = v.hide
  veiled : u.isLocked = true → u.veil = v.veil

theorem hide_step {e : Event C} (he : e.isPlain = true) (h : s.step e = .ok t) :
    s.hide.step e = .ok t.hide := by
  unfold hide
  rw [step_dress, h, scene_step he h]
  · rfl
  · exact fun _ => rfl
  · exact he

theorem veil_step {e : Event C} (he : e.isPlain = true) (h : s.step e = .ok t) :
    s.veil.step e = .ok t.veil := by
  unfold veil
  rw [step_dress, h, scene_step he h]
  · rfl
  · exact fun _ => rfl
  · exact he

theorem hide_doScreenTransition (s : Compositor C) (delayMs : Option ℕ) (failed : List OutputId) :
    (s.doScreenTransition delayMs failed).hide =
      (s.hide.doScreenTransition delayMs failed).hide := by
  unfold hide dress doScreenTransition
  simp only [Compositor.mk.injEq, and_true, true_and, FinMap.mapVals_mapVals]
  refine ⟨?_, rfl⟩
  refine congrArg s.outputs.mapVals (funext fun o => funext fun out => ?_)
  unfold OutputState.dress
  split
  · simp only [Option.map_map]
    rfl
  · rfl

theorem veil_doScreenTransition (hs : s.isLocked = true) (delayMs : Option ℕ)
    (failed : List OutputId) :
    (s.doScreenTransition delayMs failed).veil = s.veil.doScreenTransition delayMs failed := by
  have hrender : s.renderInner = s.veil.renderInner := by
    funext o target includePointer
    exact (renderInner_veil hs o target includePointer).symm
  unfold veil dress at hrender ⊢
  unfold doScreenTransition
  simp only [Compositor.mk.injEq, and_true, FinMap.mapVals_mapVals]
  refine congrArg s.outputs.mapVals (funext fun o => funext fun out => ?_)
  rw [hrender]
  unfold OutputState.dress
  split <;> simp

/-! ## 2. When a lock takes effect -/

theorem isLocked_step {e : Event C} (hs : s.step e = .ok t) (h : t.isLocked = true) :
    s.isLocked = true ∨ s.entersLock e = true := by
  by_cases he : e = .unlock
  · subst he
    cases hs
    unfold unlock activateMonitors at h
    dsimp only at h
    split at h <;> cases h
  · exact (Safe.step he hs).locks h

/-! ## 3. Two runs -/

/-- No output holds a picture when a lock takes effect. -/
def NoPictureAtLock (s : Compositor C) (e : Event C) : Prop :=
  s.isLocked = false → s.entersLock e = true → s.outputs.all (·.screenTransition.isNone) = true

/-- Two events of the two runs: the same one, or two changes of what is drawn that differ in the
session only. -/
inductive Paired : Event C → Event C → Prop
  | same (e : Event C) : Paired e e
  | draw {a b : Scene C} (h : a.hide = b.hide) : Paired (.draw a) (.draw b)

theorem veil_eq_hide (h : s.outputs.all (·.screenTransition.isNone) = true) : s.veil = s.hide := by
  unfold veil hide dress
  refine congrArg (fun outputs => { s with scene := s.scene.hide, outputs := outputs }) ?_
  refine FinMap.mapVals_congr fun o out ho => ?_
  unfold OutputState.dress
  rw [Option.isNone_iff_eq_none.mp (FinMap.all_eq_true.mp h o out ho)]
  rfl

/-- Without pictures, states that differ in the session and the pictures differ in the session. -/
theorem veil_eq_of_hide_eq (h : u.hide = v.hide)
    (hu : u.outputs.all (·.screenTransition.isNone) = true) : u.veil = v.veil := by
  have hall : ∀ w : Compositor C, w.hide.outputs.all (·.screenTransition.isNone) =
      w.outputs.all (·.screenTransition.isNone) := by
    intro w
    refine FinMap.all_mapVals w.outputs (fun _ => OutputState.dress _)
      (p := fun out => out.screenTransition.isNone) (q := fun out => out.screenTransition.isNone) fun o out => ?_
    unfold OutputState.dress
    cases out.screenTransition <;> rfl
  have hv : v.outputs.all (·.screenTransition.isNone) = true := by
    rw [← hall v, ← h, hall u, hu]
  exact (veil_eq_hide hu).trans (h.trans (veil_eq_hide hv).symm)

/-- What one event keeps. -/
theorem Alike.step {t1 t2 : Compositor C} {e1 e2 : Event C} (h : Alike u v) (hp : Paired e1 e2)
    (hclean : u.NoPictureAtLock e1) (h1 : u.step e1 = .ok t1) (h2 : v.step e2 = .ok t2) :
    Alike t1 t2 := by
  have hdraw : ∀ a b : Scene C, a.hide = b.hide →
      Alike ({ u with scene := a } : Compositor C) { v with scene := b } := by
    intro a b hab
    refine ⟨?_, fun hl => ?_⟩
    · exact congrArg₂ (fun (w : Compositor C) scene => { w with scene := scene }) h.hidden hab
    · exact congrArg₂ (fun (w : Compositor C) scene => { w with scene := scene }) (h.veiled hl) hab
  cases hp with
  | draw hab => cases h1; cases h2; exact hdraw _ _ hab
  | same =>
    by_cases he : e1.isPlain = true
    · refine ⟨?_, fun hl => ?_⟩
      · have hs := hide_step he h1
        rw [h.hidden, hide_step he h2] at hs
        exact (Except.ok.inj hs).symm
      · have hveil : u.veil = v.veil := by
          by_cases hu : u.isLocked = true
          · exact h.veiled hu
          · have henter := (isLocked_step h1 hl).resolve_left hu
            exact veil_eq_of_hide_eq h.hidden (hclean (Bool.not_eq_true _ ▸ hu) henter)
        have hs := veil_step he h1
        rw [hveil, veil_step he h2] at hs
        exact (Except.ok.inj hs).symm
    · cases e1 with
      | doScreenTransition delayMs failed =>
        cases h1
        cases h2
        refine ⟨?_, fun hl => ?_⟩
        · rw [hide_doScreenTransition, hide_doScreenTransition v, h.hidden]
        have hu : u.isLocked = true := hl
        have hv : v.isLocked = true := (congrArg Compositor.isLocked (h.veiled hu)).symm.trans hu
        rw [veil_doScreenTransition hu, veil_doScreenTransition hv, h.veiled hu]
      | draw scene => cases h1; cases h2; exact hdraw _ _ rfl
      | _ => exact absurd rfl he

/-- **A locked output shows nothing of the session**: two runs that differ only in what the session
draws render the same elements on every output, for every target, in every locked state, if no
output held the picture of a screen transition when the lock took effect. -/
theorem locked_render_eq (scene₁ scene₂ : Scene C) (hscene : scene₁.hide = scene₂.hide)
    (events₁ events₂ : List (Event C)) (hpair : List.Forall₂ Paired events₁ events₂)
    (hclean : Runs.Along step NoPictureAtLock (new scene₁) events₁) (t₁ t₂ : Compositor C)
    (h₁ : (new scene₁).run events₁ = .ok t₁) (h₂ : (new scene₂).run events₂ = .ok t₂)
    (hlocked : t₁.isLocked = true) (o : OutputId) (target : RenderTarget) (includePointer : Bool) :
    t₁.renderInner o target includePointer = t₂.renderInner o target includePointer := by
  have hnew : Alike (new scene₁) (new scene₂) := by
    refine ⟨?_, fun hl => by cases hl⟩
    exact congrArg new hscene
  have ht : Alike t₁ t₂ := Runs.run_related
    (fun _ _ _ _ _ _ hrel hp hgood hs₁ hs₂ => hrel.step hp hgood hs₁ hs₂)
    hpair hclean hnew h₁ h₂
  have hlocked₂ : t₂.isLocked = true :=
    (congrArg Compositor.isLocked (ht.veiled hlocked)).symm.trans hlocked
  rw [← renderInner_veil hlocked, ht.veiled hlocked, renderInner_veil hlocked₂]

/-- A scene in which the windows show `pixels`. -/
def windowScene (pixels : ℕ) : Scene ℕ :=
  { Scene.blank with session := fun _ _ => [.contents pixels] }

/-- One output that shows the session, then a lock whose deadline passes. -/
def lockAfterFrame : List (Event ℕ) :=
  [.addOutput 0 [], .redraw 0 16 false .frameQueued, .vblank 0 false, .lock 7, .timer 0,
    .redraw 0 33 false .frameQueued]

/-- Two sessions with different windows look the same once locked. -/
theorem locked_render_eq_windows :
    ∃ t₁ t₂, (new (windowScene 1)).run lockAfterFrame = .ok t₁ ∧
      (new (windowScene 2)).run lockAfterFrame = .ok t₂ ∧ t₁.isLocked = true ∧
      t₁.renderInner 0 .output true = t₂.renderInner 0 .output true := by
  refine ⟨_, _, rfl, rfl, rfl, ?_⟩
  refine locked_render_eq (windowScene 1) (windowScene 2) rfl lockAfterFrame lockAfterFrame
    (List.forall₂_same.mpr fun e _ => .same e) ?_ _ _ rfl rfl rfl 0 .output true
  exact .cons_ok (fun _ _ => rfl) rfl (.cons_ok (fun _ _ => rfl) rfl (.cons_ok (fun _ _ => rfl) rfl
    (.cons_ok (fun _ _ => rfl) rfl (.cons_ok (fun _ _ => rfl) rfl (.cons_ok (fun _ _ => rfl) rfl
      trivial)))))

set_option maxRecDepth 4000 in
/-- A transition with the default delay, then a lock: the client is told `locked`, and what the
windows showed is still drawn over the lock screen. -/
theorem transition_over_lock :
    ∃ t₁ t₂, (new (windowScene 1)).run [.addOutput 0 [], .doScreenTransition none [],
        .lock 7, .timer 0, .redraw 0 33 false .frameQueued] = .ok t₁ ∧
      (new (windowScene 2)).run [.addOutput 0 [], .doScreenTransition none [],
        .lock 7, .timer 0, .redraw 0 33 false .frameQueued] = .ok t₂ ∧
      t₁.log.head? = some (.locked 0) ∧ t₂.log.head? = some (.locked 0) ∧
      t₁.renderInner 0 .output false = [.texture [.contents 1] 1, .lockColor] ∧
      t₂.renderInner 0 .output false = [.texture [.contents 2] 1, .lockColor] :=
  ⟨_, _, rfl, rfl, rfl, rfl, rfl, rfl⟩

end Compositor

end Swayward.Session
