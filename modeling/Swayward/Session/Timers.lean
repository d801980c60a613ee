/-
  File:      Swayward/Session/Timers.lean
  Subject:   THE REDRAW STATE MACHINE keeps track of its timers.

  `Timed` pairs the pending estimated-vblank timers with the tokens the outputs' redraw states
  carry. Every event keeps it and reaches none of the code's assertions, with one exception: a
  vblank that is acted on while the output waits for an estimated vblank. `on_vblank` overwrites
  that state and forgets its timer, which later fires in a state it calls unreachable.

  * `run_timed`               -- without such a vblank, no run breaks down and timers and tokens pair;
  * `vblank_during_estimate`  -- one such vblank, and the timer it forgot ends the run.
-/
import Swayward.Session.Redraw

namespace Swayward.Session

/-- The output an estimated-vblank timer is for. -/
def Source.estimated : Source → Option OutputId
  | estimatedVBlank o => some o
  | lockDeadline | lockRedraw _ => none

namespace Compositor

variable {C : Type} {s : Compositor C}

/-! ## 1. Timers and tokens -/

/-- The output a pending estimated-vblank timer is for. -/
def timer (s : Compositor C) (t : Token) : Option OutputId :=
  (s.sources.lookup t).bind Source.estimated

/-- The estimated-vblank timer an output's redraw state carries. -/
def token (s : Compositor C) (o : OutputId) : Option Token :=
  (s.outputs.lookup o).bind (·.redrawState.token)

structure Timed (s : Compositor C) : Prop where
  paired : ∀ o t, s.timer t = some o ↔ s.token o = some t
  fresh : ∀ t ∈ s.sources, t < s.nextToken
  deadline : ∀ c d, s.lockState = .waitingForSurfaces c d → s.timer d = none ∧ d < s.nextToken

theorem timer_eq_some {t : Token} {o : OutputId} :
    s.timer t = some o ↔ s.sources.lookup t = some (.estimatedVBlank o) := by
  unfold timer
  rw [Option.bind_eq_some_iff]
  constructor
  · rintro ⟨source, h, e⟩
    cases source <;> cases e
    exact h
  · intro h
    exact ⟨_, h, rfl⟩

theorem timer_removeSource (s : Compositor C) (t j : Token) :
    (s.removeSource t).timer j = if j = t then none else s.timer j := by
  unfold timer removeSource
  rw [FinMap.lookup_erase_eq]
  split <;> rfl

theorem timer_insert (s : Compositor C) (t j : Token) (source : Source) (next : Token) :
    ({ s with sources := s.sources.insert t source, nextToken := next } : Compositor C).timer j =
      if j = t then source.estimated else s.timer j := by
  unfold timer
  rw [FinMap.lookup_insert_eq]
  split <;> rfl

theorem token_modifyOutput (s : Compositor C) (o i : OutputId)
    (f : OutputState C → OutputState C) :
    (s.modifyOutput o f).token i =
      if i = o then (s.outputs.lookup o).bind fun out => (f out).redrawState.token
      else s.token i := by
  unfold token modifyOutput
  rw [FinMap.lookup_modify]
  split_ifs with h
  · subst h
    cases s.outputs.lookup i <;> rfl
  · rfl

theorem token_mapVals (s : Compositor C) {f : OutputId → OutputState C → OutputState C}
    (hf : ∀ o out, (f o out).redrawState.token = out.redrawState.token) (i : OutputId) :
    ({ s with outputs := s.outputs.mapVals f } : Compositor C).token i = s.token i := by
  unfold token
  rw [FinMap.lookup_mapVals]
  cases s.outputs.lookup i with
  | none => rfl
  | some out => exact hf i out

namespace Timed

variable {outputs : FinMap OutputId (OutputState C)} {t : Token} {o : OutputId}
  {out : OutputState C} {r : RedrawState}

section

variable (h : s.Timed)
include h

theorem timer_nextToken : s.timer s.nextToken = none := by
  unfold timer
  have hnot : s.nextToken ∉ s.sources := fun hmem => Nat.lt_irrefl _ (h.fresh _ hmem)
  rw [AList.lookup_eq_none.mpr hnot, Option.bind_none]

/-- Changes that keep every output's token. -/
theorem of_token (ht : ∀ o, ({ s with outputs := outputs } : Compositor C).token o = s.token o) :
    ({ s with outputs := outputs } : Compositor C).Timed where
  paired o t := (h.paired o t).trans (by rw [ht])
  fresh := h.fresh
  deadline := h.deadline

theorem modifyOutput (o : OutputId) {f : OutputState C → OutputState C}
    (hf : ∀ out, (f out).redrawState.token = out.redrawState.token) :
    (s.modifyOutput o f).Timed := by
  refine h.of_token fun i => (s.token_modifyOutput o i f).trans ?_
  split_ifs with hi
  · subst hi
    unfold token
    exact congrArg _ (funext hf)
  · rfl

theorem mapVals {f : OutputId → OutputState C → OutputState C}
    (hf : ∀ o out, (f o out).redrawState.token = out.redrawState.token) :
    ({ s with outputs := s.outputs.mapVals f } : Compositor C).Timed :=
  h.of_token (s.token_mapVals hf)

theorem queueRedraw (o : OutputId) : (s.queueRedraw o).Timed :=
  h.modifyOutput o fun _ => RedrawState.token_queueRedraw _

theorem queueRedrawIf (needed : Bool) (o : OutputId) :
    (if needed = true then s.queueRedraw o else s).Timed := by
  split
  · exact h.queueRedraw o
  · exact h

theorem queueRedrawAll : s.queueRedrawAll.Timed :=
  h.mapVals fun _ _ => RedrawState.token_queueRedraw _

theorem repositionOutputs (moved : List OutputId) : (s.repositionOutputs moved).Timed := by
  unfold Compositor.repositionOutputs
  induction moved generalizing s with
  | nil => exact h
  | cons o moved ih => exact ih (h.queueRedraw o)

theorem tell (notice : Notice) : (s.tell notice).Timed :=
  ⟨h.paired, h.fresh, h.deadline⟩

/-- A lock state that does not wait for surfaces has no deadline. -/
theorem setLockState (lockState : LockState) (hl : ∀ c d, lockState ≠ .waitingForSurfaces c d) :
    ({ s with lockState := lockState } : Compositor C).Timed where
  paired := h.paired
  fresh := h.fresh
  deadline c d e := absurd e (hl c d)

theorem confirm (confirmation : SessionLock) : (s.confirm confirmation).Timed :=
  (h.tell _).setLockState _ fun _ _ => LockState.noConfusion

theorem fresh_erase (t : Token) : ∀ j ∈ s.sources.erase t, j < s.nextToken :=
  fun j hj => h.fresh j (AList.mem_erase.mp hj).2

/-- Removing a timer that is no estimated vblank. -/
theorem removeSource (ht : s.timer t = none) : (s.removeSource t).Timed := by
  have htimer : ∀ j, (s.removeSource t).timer j = s.timer j := by
    intro j
    rw [timer_removeSource]
    split_ifs with hj
    · rw [hj, ht]
    · rfl
  exact ⟨fun o j => by rw [htimer]; exact h.paired o j, h.fresh_erase t,
    fun c d e => by rw [htimer]; exact h.deadline c d e⟩

theorem fresh_insert (source : Source) :
    ∀ j ∈ s.sources.insert s.nextToken source, j < s.nextToken + 1 := by
  intro j hj
  rcases (AList.mem_insert _).mp hj with hj | hj
  · exact hj ▸ Nat.lt_succ_self _
  · exact Nat.lt_succ_of_lt (h.fresh j hj)

/-- A new timer that is no estimated vblank. -/
theorem insertSource (source : Source) (hs : source.estimated = none) :
    ({ s with
        sources := s.sources.insert s.nextToken source
        nextToken := s.nextToken + 1 } : Compositor C).Timed := by
  have htimer : ∀ j, ({ s with
      sources := s.sources.insert s.nextToken source
      nextToken := s.nextToken + 1 } : Compositor C).timer j = s.timer j := by
    intro j
    rw [timer_insert]
    split_ifs with hj
    · rw [hj, h.timer_nextToken, hs]
    · rfl
  refine ⟨fun o j => by rw [htimer]; exact h.paired o j, h.fresh_insert source, fun c d e => ?_⟩
  have hd := h.deadline c d e
  exact ⟨by rw [htimer]; exact hd.1, Nat.lt_succ_of_lt hd.2⟩

end

/-! ## 2. Arming and disarming a timer -/

/-- A timer is armed for an output without one. -/
theorem arm (h : s.Timed) (ho : s.outputs.lookup o = some out)
    (hout : out.redrawState.token = none) :
    (({ s with
        sources := s.sources.insert s.nextToken (.estimatedVBlank o)
        nextToken := s.nextToken + 1 } : Compositor C).setRedrawState o
      (.waitingForEstimatedVBlank s.nextToken)).Timed := by
  have hnone : s.token o = none := by
    unfold token
    rw [ho]
    exact hout
  refine ⟨fun i t => ?_, h.fresh_insert _, fun c d e => ?_⟩
  · refine Iff.trans (Eq.congr_left (s.timer_insert _ _ _ (s.nextToken + 1))) (Iff.trans ?_
      (Eq.congr_left (token_modifyOutput _ o i _)).symm)
    rw [ho]
    by_cases hi : i = o
    · subst hi
      rw [if_pos rfl]
      split_ifs with ht
      · subst ht
        exact iff_of_true rfl rfl
      · refine iff_of_false (fun e => ?_) (fun e => ht (Option.some.inj e).symm)
        rw [(h.paired i t).mp e] at hnone
        cases hnone
    · rw [if_neg hi]
      split_ifs with ht
      · refine iff_of_false (fun e => hi (Option.some.inj e).symm) (fun e => ?_)
        have := (h.paired i t).mpr e
        rw [ht, h.timer_nextToken] at this
        cases this
      · exact h.paired i t
  · have hd := h.deadline c d e
    refine ⟨(s.timer_insert _ _ _ (s.nextToken + 1)).trans ?_, Nat.lt_succ_of_lt hd.2⟩
    rw [if_neg (Nat.ne_of_lt hd.2)]
    exact hd.1

/-- An output's timer goes away together with the token, and nobody else's does. -/
theorem disarm (h : s.Timed) (ho : s.token o = some t)
    (htoken : ∀ i, ({ s with outputs := outputs } : Compositor C).token i =
      if i = o then none else s.token i) :
    (({ s with outputs := outputs } : Compositor C).removeSource t).Timed := by
  refine ⟨fun i j => ?_, h.fresh_erase t, fun c d e => ?_⟩
  · refine Iff.trans (Eq.congr_left (s.timer_removeSource t j)) (Iff.trans ?_
      (Eq.congr_left (htoken i)).symm)
    by_cases hj : j = t
    · rw [if_pos hj, hj]
      refine iff_of_false (fun e => by cases e) (fun e => ?_)
      split at e
      · cases e
      rename_i hi
      have hi' := (h.paired i t).mpr e
      rw [(h.paired o t).mpr ho] at hi'
      exact hi (Option.some.inj hi').symm
    · rw [if_neg hj]
      by_cases hi : i = o
      · rw [if_pos hi, hi]
        refine iff_of_false (fun e => ?_) (fun e => by cases e)
        rw [(h.paired o j).mp e] at ho
        exact hj (Option.some.inj ho)
      · rw [if_neg hi]
        exact h.paired i j
  · have hd := h.deadline c d e
    refine ⟨(s.timer_removeSource t d).trans ?_, hd.2⟩
    split
    · rfl
    · exact hd.1

theorem token_setRedrawState (hr : r.token = none) (i : OutputId) :
    (s.setRedrawState o r).token i = if i = o then none else s.token i := by
  unfold setRedrawState
  rw [token_modifyOutput]
  split
  · cases s.outputs.lookup o with
    | none => rfl
    | some out => exact hr
  · rfl

theorem disarm_setRedrawState (h : s.Timed) (ho : s.token o = some t) (hr : r.token = none) :
    ((s.setRedrawState o r).removeSource t).Timed :=
  h.disarm ho (token_setRedrawState hr)

/-- A redraw state without a token follows another one. -/
theorem setRedrawState (h : s.Timed) (ho : s.token o = none) (hr : r.token = none) :
    (s.setRedrawState o r).Timed := by
  refine h.of_token fun i => (token_setRedrawState hr i).trans ?_
  split
  · rename_i hi
    rw [hi, ho]
  · rfl

/-! ## 3. Locking keeps timers -/

section

variable (h : s.Timed)
include h

theorem ensureLockRedraw (o : OutputId) : (s.ensureLockRedraw o).Timed :=
  h.insertSource _ rfl

theorem foldl_ensureLockRedraw (os : List OutputId) :
    (os.foldl Compositor.ensureLockRedraw s).Timed := by
  induction os generalizing s with
  | nil => exact h
  | cons o os ih => exact ih (h.ensureLockRedraw o)

theorem continueToLocking : s.continueToLocking.Timed := by
  unfold Compositor.continueToLocking
  split
  · rename_i confirmation d hl
    have hs := h.removeSource (h.deadline _ d hl).1
    dsimp only
    split
    · exact hs.confirm confirmation
    · refine (Timed.queueRedrawAll ?_).foldl_ensureLockRedraw _
      exact hs.setLockState _ fun _ _ => LockState.noConfusion
  · exact h

theorem maybeContinueToLocking : s.maybeContinueToLocking.Timed := by
  unfold Compositor.maybeContinueToLocking
  split
  · split
    · exact h.continueToLocking
    · exact h
  · exact h

theorem finishLocking : s.finishLocking.Timed := by
  unfold Compositor.finishLocking
  split
  · split
    · exact h.confirm _
    · exact h
  · exact h

theorem lock (client : ℕ) : (s.lock client).Timed := by
  have hn : ({ s with nextLock := s.nextLock + 1 } : Compositor C).Timed :=
    ⟨h.paired, h.fresh, h.deadline⟩
  unfold Compositor.lock
  dsimp only
  split
  · exact hn
  · exact hn
  · split
    · exact hn
    · exact hn.confirm _
  · split
    · exact hn.confirm _
    · have hi := hn.insertSource .lockDeadline rfl
      refine ⟨hi.paired, hi.fresh, fun c d e => ?_⟩
      -- the new deadline is the timer that was just inserted
      cases e
      refine ⟨?_, Nat.lt_succ_self _⟩
      unfold timer
      rw [AList.lookup_insert]
      rfl

theorem dropDeadline : s.dropDeadline.Timed := by
  unfold Compositor.dropDeadline
  split
  · rename_i c d hl
    exact h.removeSource (h.deadline c d hl).1
  · exact h

theorem activateMonitors : s.activateMonitors.Timed := by
  unfold Compositor.activateMonitors
  split
  · exact h
  · exact Timed.queueRedrawAll ⟨h.paired, h.fresh, h.deadline⟩

theorem unlock : s.unlock.Timed := by
  have hs := h.dropDeadline.setLockState .unlocked fun _ _ => LockState.noConfusion
  have hnone := hs.mapVals (f := fun _ out => { out with lockSurface := none }) fun _ _ => rfl
  exact hnone.queueRedrawAll.activateMonitors

theorem newLockSurface (surface : LockSurface) (o : OutputId) :
    (s.newLockSurface surface o).Timed := by
  rw [newLockSurface_eq]
  split
  · exact h.modifyOutput o fun _ => rfl
  · exact h

theorem commit (surface : SurfaceId) (isMapped : Bool) : (s.commit surface isMapped).Timed := by
  have hs : (s.setMapped surface isMapped).Timed := ⟨h.paired, h.fresh, h.deadline⟩
  unfold Compositor.commit
  dsimp only
  split
  · exact hs
  · split
    · exact hs.maybeContinueToLocking
    · exact hs.queueRedraw _

end

/-! ## 4. Outputs come and go -/

theorem addOutput (h : s.Timed) (ho : o ∉ s.outputs) (moved : List OutputId) :
    ∃ s', s.addOutput o moved = .ok s' ∧ s'.Timed := by
  refine ⟨_, if_neg ho, Timed.repositionOutputs (Timed.tell ?_ _) _⟩
  refine h.of_token fun i => ?_
  unfold token
  rw [FinMap.lookup_insert_eq]
  split
  · rename_i hi
    rw [hi, AList.lookup_eq_none.mpr ho]
    rfl
  · rfl

theorem token_erase (o i : OutputId) :
    ({ s with outputs := s.outputs.erase o } : Compositor C).token i =
      if i = o then none else s.token i := by
  unfold token
  rw [FinMap.lookup_erase_eq]
  split <;> rfl

theorem dropOutput (h : s.Timed) (ho : s.outputs.lookup o = some out) : (s.dropOutput o out).Timed := by
  have htoken : s.token o = out.redrawState.token := by
    unfold token
    rw [ho]
    rfl
  unfold Compositor.dropOutput
  dsimp only
  split
  · rename_i t ht
    exact h.disarm (htoken.trans ht) (token_erase o)
  rename_i ht
  refine h.of_token fun i => (token_erase o i).trans ?_
  split
  · rename_i hi
    rw [hi, htoken, ht]
  · rfl

theorem recheckLocking (h : s.Timed) : s.recheckLocking.Timed := by
  unfold Compositor.recheckLocking
  split
  · exact h.finishLocking
  · exact h.maybeContinueToLocking

theorem mem_repositionOutputs (moved : List OutputId) :
    o ∈ (s.repositionOutputs moved).outputs ↔ o ∈ s.outputs := by
  unfold Compositor.repositionOutputs
  induction moved generalizing s with
  | nil => rfl
  | cons i moved ih => exact ih.trans (FinMap.mem_modify _ _ _ _)

theorem removeOutput (h : s.Timed) (ho : o ∈ s.outputs) (moved : List OutputId) (closed : Bool) :
    ∃ s', s.removeOutput o moved closed = .ok s' ∧ s'.Timed := by
  have hr := h.repositionOutputs moved
  obtain ⟨out, hout⟩ := FinMap.mem_iff_lookup.mp ((mem_repositionOutputs moved).mpr ho)
  unfold Compositor.removeOutput
  dsimp only
  rw [hout]
  refine ⟨_, rfl, ?_⟩
  have hs := (hr.dropOutput hout).recheckLocking
  split
  · exact hs.queueRedrawAll
  · exact hs

/-! ## 5. Redraws, vblanks and timers -/

section

variable (h : s.Timed)
include h

theorem queueEstimatedVblankTimer (ho : s.outputs.lookup o = some out)
    (hq : out.redrawState.isQueued = true) :
    ∃ s', s.queueEstimatedVblankTimer o = .ok s' ∧ s'.Timed := by
  unfold Compositor.queueEstimatedVblankTimer
  rw [ho]
  dsimp only
  cases hr : out.redrawState with
  | queued => exact ⟨_, rfl, h.arm ho (by rw [hr]; rfl)⟩
  | waitingForEstimatedVBlankAndQueued t =>
    refine ⟨_, rfl, h.of_token fun i => (token_modifyOutput s o i _).trans ?_⟩
    split
    · rename_i hi
      unfold token
      rw [hi, ho, Option.bind_some, Option.bind_some, hr]
      rfl
    · rfl
  | idle | waitingForVBlank b | waitingForEstimatedVBlank t => rw [hr] at hq; cases hq

theorem frameQueued (ho : s.outputs.lookup o = some out) (hq : out.redrawState.isQueued = true) :
    ∃ s', s.frameQueued o = .ok s' ∧ s'.Timed := by
  have htoken : s.token o = out.redrawState.token := by
    unfold token
    rw [ho]
    rfl
  unfold Compositor.frameQueued
  rw [ho]
  dsimp only
  cases hr : out.redrawState with
  | queued => exact ⟨_, rfl, h.setRedrawState (htoken.trans (by rw [hr]; rfl)) rfl⟩
  | waitingForEstimatedVBlankAndQueued t =>
    exact ⟨_, rfl, h.disarm_setRedrawState (htoken.trans (by rw [hr]; rfl)) rfl⟩
  | idle | waitingForVBlank b | waitingForEstimatedVBlank t => rw [hr] at hq; cases hq

theorem render (ho : s.outputs.lookup o = some out) (hq : out.redrawState.isQueued = true)
    (backend : Backend) :
    ∃ r, s.render o backend = .ok r ∧ r.1.Timed := by
  cases backend with
  | notReady => exact ⟨_, rfl, h⟩
  | frameQueued =>
    obtain ⟨s', e, hs⟩ := h.frameQueued ho hq
    exact ⟨_, congrArg (Except.map _) e, hs⟩
  | renderError | queueError | noDamage =>
    obtain ⟨s', e, hs⟩ := h.queueEstimatedVblankTimer ho hq
    exact ⟨_, congrArg (Except.map _) e, hs⟩

theorem afterRender (o : OutputId) (active : Bool) (res : RenderResult) :
    (s.afterRender o active res).Timed := by
  have hskip : (if res = .skipped then
      s.modifyOutput o fun out => { out with redrawState := out.redrawState.skipped }
      else s).Timed := by
    split
    · exact h.modifyOutput o fun _ => RedrawState.token_skipped _
    · exact h
  unfold Compositor.afterRender
  dsimp only
  split
  · exact (hskip.tell _).modifyOutput o fun _ => rfl
  · exact hskip

theorem checkLocking (o : OutputId) : (s.checkLocking o).Timed := by
  unfold Compositor.checkLocking
  split
  · split
    · exact h
    · exact h.finishLocking
  · exact h

theorem redraw (ho : s.outputs.lookup o = some out) (hq : out.redrawState.isQueued = true)
    (target : ℕ) (animating : Bool) (backend : Backend) :
    ∃ s', s.redraw o target animating backend = .ok s' ∧ s'.Timed := by
  have hnow : (s.atTime target).Timed := ⟨h.paired, h.fresh, h.deadline⟩
  have hnote : ((s.atTime target).noteAnimations o animating).Timed :=
    hnow.modifyOutput o fun _ => rfl
  have hout : ((s.atTime target).noteAnimations o animating).outputs.lookup o = some { out with
      unfinishedAnimationsRemain := animating || out.screenTransition.isSome } :=
    (FinMap.lookup_modify _ _ _ _).trans ((if_pos rfl).trans (congrArg (Option.map _) ho))
  unfold Compositor.redraw
  rw [ho]
  dsimp only
  rw [if_pos hq]
  split
  · obtain ⟨r, hr, ht⟩ := hnote.render hout hq backend
    rw [hr]
    exact ⟨_, rfl, (ht.afterRender o _ _).checkLocking o⟩
  · exact ⟨_, rfl, (hnow.afterRender o _ _).checkLocking o⟩

theorem onVblank {throttled : Bool}
    (hgood : (s.powered o = true ∧ throttled = true) ∨ s.token o = none) :
    (s.onVblank o throttled).Timed := by
  unfold Compositor.onVblank
  split
  · exact h
  split
  · rename_i hp
    have ho := hgood.resolve_left fun hg => by simp [hg.1] at hp
    exact h.setRedrawState ho rfl
  · split
    · exact h
    · rename_i ht
      have ho := hgood.resolve_left fun hg => ht hg.2
      have hs := h.setRedrawState (r := .idle) ho rfl
      exact hs.queueRedrawIf _ o

theorem onEstimatedVblankTimer (ht : s.timer t = some o) :
    ∃ s', (s.removeSource t).onEstimatedVblankTimer o = .ok s' ∧ s'.Timed := by
  have ho := (h.paired o t).mp ht
  obtain ⟨out, hout, hr⟩ := Option.bind_eq_some_iff.mp ho
  have hidle := h.disarm_setRedrawState ho (r := .idle) rfl
  unfold Compositor.onEstimatedVblankTimer
  rw [show (s.removeSource t).outputs.lookup o = some out from hout]
  dsimp only
  cases hs : out.redrawState with
  | waitingForEstimatedVBlank t' =>
    exact ⟨_, rfl, hidle.queueRedrawIf _ o⟩
  | waitingForEstimatedVBlankAndQueued t' =>
    exact ⟨_, rfl, h.disarm_setRedrawState ho (r := .queued) rfl⟩
  | idle | queued | waitingForVBlank b => rw [hs] at hr; cases hr

theorem onTimer (t : Token) : ∃ s', s.onTimer t = .ok s' ∧ s'.Timed := by
  unfold Compositor.onTimer
  cases hs : s.sources.lookup t with
  | none => exact ⟨s, rfl, h⟩
  | some source =>
    have ht : s.timer t = source.estimated := congrArg (Option.bind · Source.estimated) hs
    cases source with
    | estimatedVBlank o => exact h.onEstimatedVblankTimer (timer_eq_some.mpr hs)
    | lockDeadline => exact ⟨_, rfl, (h.removeSource ht).continueToLocking⟩
    | lockRedraw o =>
      refine ⟨_, rfl, ?_⟩
      unfold Compositor.onLockRedrawTimer
      split
      · split
        · exact h.removeSource ht
        · exact h.queueRedraw o
      · exact h.removeSource ht

end

end Timed

/-! ## 6. Runs -/

/-- Every event is taken as it comes, but for a vblank: one that is acted on, because the output is
switched off or the vblank is not throttled, finds no estimated-vblank timer pending. -/
def VblankWithoutTimer (s : Compositor C) : Event C → Prop
  | .vblank o throttled => (s.powered o = true ∧ throttled = true) ∨ s.token o = none
  | _ => True

theorem Timed.step (h : s.Timed) (e : Event C) (hgood : s.VblankWithoutTimer e) :
    ∃ s', s.step e = .ok s' ∧ s'.Timed := by
  cases e with
  | addOutput o moved =>
    by_cases ho : o ∈ s.outputs
    · exact ⟨s, if_pos ho, h⟩
    · obtain ⟨s', e, hs⟩ := h.addOutput ho moved
      exact ⟨s', (if_neg ho).trans e, hs⟩
  | removeOutput o moved closed =>
    by_cases ho : o ∈ s.outputs
    · obtain ⟨s', e, hs⟩ := h.removeOutput ho moved closed
      exact ⟨s', (if_pos ho).trans e, hs⟩
    · exact ⟨s, if_neg ho, h⟩
  | queueRedraw o => exact ⟨_, rfl, h.queueRedraw o⟩
  | queueRedrawAll => exact ⟨_, rfl, h.queueRedrawAll⟩
  | redraw o target animating backend =>
    by_cases ho : (s.outputs.lookup o).any (·.redrawState.isQueued) = true
    · obtain ⟨out, hout, hq⟩ := (Option.any_eq_true _ _).mp ho
      obtain ⟨s', e, hs⟩ := h.redraw hout hq target animating backend
      exact ⟨s', (if_pos ho).trans e, hs⟩
    · exact ⟨s, if_neg ho, h⟩
  | vblank o throttled => exact ⟨_, rfl, h.onVblank hgood⟩
  | timer t => exact h.onTimer t
  | setMonitorsActive active =>
    cases active with
    | false => exact ⟨_, rfl, h.paired, h.fresh, h.deadline⟩
    | true => exact ⟨_, rfl, h.activateMonitors⟩
  | setOutputPower o powered =>
    cases powered with
    | false => exact ⟨_, rfl, h.paired, h.fresh, h.deadline⟩
    | true =>
      have hp : ({ s with poweredOff := s.poweredOff.filter (· != o) } : Compositor C).Timed :=
        ⟨h.paired, h.fresh, h.deadline⟩
      exact ⟨_, rfl, hp.queueRedraw o⟩
  | lock client => exact ⟨_, rfl, h.lock client⟩
  | unlock => exact ⟨_, rfl, h.unlock⟩
  | lockDied lock | tick now | draw scene => exact ⟨_, rfl, h.paired, h.fresh, h.deadline⟩
  | newLockSurface surface o => exact ⟨_, rfl, h.newLockSurface surface o⟩
  | commit surface isMapped => exact ⟨_, rfl, h.commit surface isMapped⟩
  | doScreenTransition delayMs failed =>
    refine ⟨_, rfl, h.mapVals fun o out => ?_⟩
    split <;> rfl
  | advanceAnimations => exact ⟨_, rfl, h.mapVals fun _ _ => rfl⟩

theorem timed_new (scene : Scene C) : (new scene).Timed where
  paired o t := iff_of_false (fun e => by cases e) (fun e => by cases e)
  fresh t ht := absurd ht (AList.notMem_empty t)
  deadline c d e := by cases e

/-- **Timers and redraw states stay paired, and no assertion of the redraw state machine is
reached**, whatever the events, as long as no vblank is acted on while an estimated vblank is
awaited. -/
theorem run_timed (scene : Scene C) (events : List (Event C))
    (h : Runs.Along step VblankWithoutTimer (new scene) events) :
    ∃ s, (new scene).run events = .ok s ∧ ∀ o t, s.sources.lookup t = some (.estimatedVBlank o) ↔
        ∃ out, s.outputs.lookup o = some out ∧ out.redrawState.token = some t := by
  obtain ⟨s, hs, ht⟩ := Runs.run_safe (fun s e hinv hgood => Timed.step hinv e hgood) h
    (timed_new scene)
  refine ⟨s, hs, fun o t => ?_⟩
  rw [← timer_eq_some, ht.paired o t]
  exact Option.bind_eq_some_iff

/-- Two outputs, a frame with its vblank and a timer that fires in time. -/
theorem run_timed_two_outputs :
    ∃ s, (new (Scene.blank : Scene ℕ)).run [.addOutput 0 [], .redraw 0 16 false .noDamage,
        .addOutput 1 [0], .timer 0, .redraw 0 33 true .frameQueued, .vblank 0 false] = .ok s ∧
      ∀ o t, s.sources.lookup t = some (.estimatedVBlank o) ↔
        ∃ out, s.outputs.lookup o = some out ∧ out.redrawState.token = some t :=
  run_timed _ _ (.cons_ok trivial rfl (.cons_ok trivial rfl (.cons_ok trivial rfl
    (.cons_ok trivial rfl (.cons_ok trivial rfl (.cons_ok (Or.inr rfl) rfl trivial))))))

/-- A vblank nobody waits for while the output waits for an estimated one: the output goes back to
`Queued` with the timer still pending, and the timer then fires in a state it cannot be in. -/
theorem vblank_during_estimate :
    ((new (Scene.blank : Scene ℕ)).run [.addOutput 0 [], .redraw 0 16 false .noDamage,
        .vblank 0 false]).toOption.map (fun s => (s.sources.lookup 0, s.token 0)) =
      some (some (.estimatedVBlank 0), none) ∧
    (new (Scene.blank : Scene ℕ)).run [.addOutput 0 [], .redraw 0 16 false .noDamage,
        .vblank 0 false, .timer 0] = .error .estimatedTimerFiredInWrongState :=
  ⟨rfl, rfl⟩

end Compositor

end Swayward.Session
