/-
  File:      Swayward/Session/LockSafety.lean
  Subject:   A LOCK CLIENT IS TOLD THE TRUTH: `locked` is sent at most once for a request, and only
             when every connected output shows a locked frame.

  The answer is given in five places. What they share is `Guarded`: a locked session has only
  locked outputs, a locked output has last shown something that was made under a lock, and the
  request still owed an answer has had none. `Safe` collects what one piece of code may do to the
  lock; a step is a chain of such pieces, and only `unlock` leaves the locked state.

  * `Guarded.run`       -- the invariant holds in every state of every run;
  * `lock_confirmation` -- the safety of the answer, and of every state until `unlock`.
-/
import Swayward.Session.Redraw

namespace Swayward.Session

open List

/-! ## 1. What an output last showed -/

namespace Notice

/-- Whether the notice is about this output. -/
def isAbout (o : OutputId) : Notice → Bool
  | outputAdded i _ | frame i _ | inactive i _ => i = o
  | locked _ => false

/-- Whether the session was locked at the moment of the notice. -/
def underLock : Notice → Bool
  | outputAdded _ under | frame _ under | inactive _ under => under
  | locked _ => true

/-- The request a notice answers. -/
def answered : Notice → Option ℕ
  | locked request => some request
  | _ => none

end Notice

/-- The events that do not touch the lock. -/
def Event.isQuiet {C : Type} : Event C → Bool
  | .addOutput _ _ | .removeOutput _ _ _ | .redraw _ _ _ _ | .timer _ | .lock _ | .unlock
  | .commit _ _ => false
  | _ => true

namespace Compositor

variable {C : Type} {s u v : Compositor C}

/-- The requests that were answered, the newest first. -/
def told (s : Compositor C) : List ℕ := s.log.filterMap Notice.answered

/-- The last frame of the output was made under the lock; or it has rendered nothing since it was
added under the lock; or it was found inactive under the lock. -/
def ShownLocked (s : Compositor C) (o : OutputId) : Prop :=
  ∃ notice, s.log.find? (·.isAbout o) = some notice ∧ notice.underLock = true

def Held (s : Compositor C) : Prop := ∃ lock, s.lockState = .locked lock

structure Guarded (s : Compositor C) : Prop where
  held : s.Held → ∀ o out, s.outputs.lookup o = some out → out.lockRenderState = .locked
  shown : ∀ o out, s.outputs.lookup o = some out → out.lockRenderState = .locked → s.ShownLocked o
  once : s.told.Nodup
  old : ∀ r ∈ s.told, r < s.nextLock
  owed : ∀ c, s.lockState.owed = some c → c.id ∉ s.told ∧ c.id < s.nextLock

/-- Code that leaves the lock and the log alone, and of the outputs at most drops some or changes
what is not their lock state. -/
structure Quiet (u v : Compositor C) : Prop where
  lockState : v.lockState = u.lockState
  log : v.log = u.log
  nextLock : v.nextLock = u.nextLock
  outputs : ∀ o out, v.outputs.lookup o = some out →
    ∃ was, u.outputs.lookup o = some was ∧ was.lockRenderState = out.lockRenderState

namespace Quiet

variable {o : OutputId}

/-- Code that touches neither the outputs, the lock nor the log. -/
theorem of_eq (hlock : v.lockState = u.lockState) (hlog : v.log = u.log)
    (hnext : v.nextLock = u.nextLock) (hout : v.outputs = u.outputs) : Quiet u v :=
  ⟨hlock, hlog, hnext, fun _ out ho => ⟨out, hout ▸ ho, rfl⟩⟩

theorem refl (s : Compositor C) : Quiet s s := of_eq rfl rfl rfl rfl

theorem trans {w : Compositor C} (h : Quiet u v) (h' : Quiet v w) : Quiet u w where
  lockState := h'.lockState.trans h.lockState
  log := h'.log.trans h.log
  nextLock := h'.nextLock.trans h.nextLock
  outputs o out ho := by
    obtain ⟨mid, hmid, e⟩ := h'.outputs o out ho
    obtain ⟨was, hwas, e'⟩ := h.outputs o mid hmid
    exact ⟨was, hwas, e'.trans e⟩

theorem isLocked (h : Quiet u v) : v.isLocked = u.isLocked :=
  congrArg LockState.isLocked h.lockState

section

variable (s : Compositor C)

theorem of_modify (o : OutputId) {f : OutputState C → OutputState C}
    (hf : ∀ out, (f out).lockRenderState = out.lockRenderState) :
    Quiet s (s.modifyOutput o f) := by
  refine ⟨rfl, rfl, rfl, fun i out hi => ?_⟩
  have hi' := (FinMap.lookup_modify s.outputs o i f).symm.trans hi
  split at hi'
  · obtain ⟨was, hwas, e⟩ := Option.map_eq_some_iff.mp hi'
    rename_i hio
    subst hio
    exact ⟨was, hwas, by rw [← e, hf]⟩
  · exact ⟨out, hi', rfl⟩

theorem of_mapVals {f : OutputId → OutputState C → OutputState C}
    (hf : ∀ o out, (f o out).lockRenderState = out.lockRenderState) :
    Quiet s { s with outputs := s.outputs.mapVals f } := by
  refine ⟨rfl, rfl, rfl, fun i out hi => ?_⟩
  obtain ⟨was, hwas, e⟩ := Option.map_eq_some_iff.mp
    ((FinMap.lookup_mapVals s.outputs f i).symm.trans hi)
  exact ⟨was, hwas, by rw [← e, hf]⟩

theorem queueRedraw (o : OutputId) : Quiet s (s.queueRedraw o) :=
  of_modify s o fun _ => rfl

theorem setRedrawState (o : OutputId) (r : RedrawState) : Quiet s (s.setRedrawState o r) :=
  of_modify s o fun _ => rfl

theorem queueRedrawIf (needed : Bool) (o : OutputId) :
    Quiet s (if needed = true then s.queueRedraw o else s) := by
  split
  · exact queueRedraw s o
  · exact refl s

theorem queueRedrawAll : Quiet s s.queueRedrawAll := of_mapVals s fun _ _ => rfl

theorem removeSource (t : Token) : Quiet s (s.removeSource t) :=
  of_eq rfl rfl rfl rfl

theorem repositionOutputs (moved : List OutputId) : Quiet s (s.repositionOutputs moved) := by
  unfold Compositor.repositionOutputs
  induction moved generalizing s with
  | nil => exact refl s
  | cons o moved ih => exact (queueRedraw s o).trans (ih _)

theorem foldl_ensureLockRedraw (os : List OutputId) : Quiet s (os.foldl ensureLockRedraw s) := by
  induction os generalizing s with
  | nil => exact refl s
  | cons o os ih =>
    exact Quiet.trans (v := s.ensureLockRedraw o) (of_eq rfl rfl rfl rfl) (ih _)

theorem newLockSurface (surface : LockSurface) (o : OutputId) :
    Quiet s (s.newLockSurface surface o) := by
  rw [newLockSurface_eq]
  split
  · exact of_modify s o fun _ => rfl
  · exact refl s

theorem activateMonitors : Quiet s s.activateMonitors := by
  unfold Compositor.activateMonitors
  split
  · exact refl s
  · exact Quiet.trans (v := { s with monitorsActive := true }) (of_eq rfl rfl rfl rfl)
      (queueRedrawAll _)

theorem dropOutput (o : OutputId) (out : OutputState C) : Quiet s (s.dropOutput o out) := by
  have herase : Quiet s { s with outputs := s.outputs.erase o } := by
    refine ⟨rfl, rfl, rfl, fun i out hi => ?_⟩
    have hi' := (FinMap.lookup_erase_eq s.outputs o i).symm.trans hi
    split at hi'
    · cases hi'
    · exact ⟨out, hi', rfl⟩
  unfold Compositor.dropOutput
  dsimp only
  split
  · exact herase.trans (removeSource _ _)
  · exact herase

end

theorem queueEstimatedVblankTimer (h : s.queueEstimatedVblankTimer o = .ok v) : Quiet s v := by
  unfold Compositor.queueEstimatedVblankTimer at h
  split at h
  · cases h
  split at h
  · cases h
  · cases h
  · cases h
    exact setRedrawState _ _ _
  · cases h
    exact setRedrawState _ _ _
  cases h
  exact Quiet.trans (v := { s with
    sources := s.sources.insert s.nextToken (.estimatedVBlank o)
    nextToken := s.nextToken + 1 }) (of_eq rfl rfl rfl rfl) (setRedrawState _ _ _)

theorem frameQueued (h : s.frameQueued o = .ok v) : Quiet s v := by
  unfold Compositor.frameQueued at h
  split at h
  · cases h
  split at h
  · cases h
  · cases h
  · cases h
  · cases h
    exact setRedrawState _ _ _
  · cases h
    exact (setRedrawState _ _ _).trans (removeSource _ _)

theorem render {backend : Backend} {r : Compositor C × RenderResult}
    (h : s.render o backend = .ok r) : Quiet s r.1 := by
  cases backend with
  | notReady => cases h; exact refl s
  | frameQueued =>
    obtain ⟨a, ha, rfl⟩ := Runs.map_eq_ok h
    exact frameQueued ha
  | renderError | queueError | noDamage =>
    obtain ⟨a, ha, rfl⟩ := Runs.map_eq_ok h
    exact queueEstimatedVblankTimer ha

theorem onVblank (s : Compositor C) (o : OutputId) (throttled : Bool) :
    Quiet s (s.onVblank o throttled) := by
  unfold Compositor.onVblank
  split
  · exact refl s
  split
  · exact setRedrawState s o _
  · split
    · exact refl s
    · exact (setRedrawState s o _).trans (queueRedrawIf _ _ o)

theorem onEstimatedVblankTimer (h : s.onEstimatedVblankTimer o = .ok v) : Quiet s v := by
  unfold Compositor.onEstimatedVblankTimer at h
  split at h
  · cases h
    exact refl _
  split at h
  · cases h
  · cases h
  · cases h
  · cases h
    exact setRedrawState _ _ _
  · cases h
    exact (setRedrawState _ _ _).trans (queueRedrawIf _ _ _)

theorem onLockRedrawTimer (s : Compositor C) (t : Token) (o : OutputId) :
    Quiet s (s.onLockRedrawTimer t o) := by
  unfold Compositor.onLockRedrawTimer
  split
  · split
    · exact removeSource s t
    · exact queueRedraw s _
  · exact removeSource s t

theorem step {e : Event C} (he : e.isQuiet = true) (h : s.step e = .ok v) : Quiet s v := by
  cases e with
  | queueRedraw o => cases h; exact queueRedraw s o
  | queueRedrawAll => cases h; exact queueRedrawAll s
  | vblank o throttled => cases h; exact onVblank s o throttled
  | setMonitorsActive active =>
    cases active with
    | false => cases h; exact of_eq rfl rfl rfl rfl
    | true => cases h; exact activateMonitors s
  | setOutputPower o powered =>
    cases powered with
    | false => cases h; exact of_eq rfl rfl rfl rfl
    | true =>
      cases h
      exact Quiet.trans (v := { s with poweredOff := s.poweredOff.filter (· != o) })
        (of_eq rfl rfl rfl rfl) (queueRedraw _ o)
  | newLockSurface surface o => cases h; exact newLockSurface s surface o
  | doScreenTransition delayMs failed =>
    cases h
    refine of_mapVals s fun o out => ?_
    split <;> rfl
  | advanceAnimations => cases h; exact of_mapVals s fun _ _ => rfl
  | lockDied _ | tick _ | draw _ => cases h; exact of_eq rfl rfl rfl rfl
  | _ => cases he

end Quiet

/-- Whether a lock request waits for its surfaces. -/
def isWaiting (s : Compositor C) : Bool :=
  match s.lockState with
  | .waitingForSurfaces _ _ => true
  | _ => false

/-- The events with which a lock takes effect: a request with no output connected, the deadline of
the wait for lock surfaces, the commit that completes them, and the removal of the last output
that had none. -/
def entersLock (s : Compositor C) : Event C → Bool
  | .lock _ => s.outputs.keys.isEmpty
  | .timer token => s.isWaiting && s.sources.lookup token = some .lockDeadline
  | .commit surface isMapped =>
    s.isWaiting && (s.setMapped surface isMapped).surfacesReady
  | .removeOutput o moved _ =>
    let s := s.repositionOutputs moved
    s.isWaiting && { s with outputs := s.outputs.erase o }.surfacesReady
  | _ => false

/-- What code other than `unlock` may do to the lock, which takes effect only if `may`. -/
structure Safe (may : Prop) (u v : Compositor C) : Prop where
  guarded : u.Guarded → v.Guarded
  told : v.told = u.told ∨ v.Held
  held : u.Held → v.Held
  locks : v.isLocked = true → u.isLocked = true ∨ may

variable {may : Prop}

theorem Quiet.safe (h : Quiet u v) : Safe may u v := by
  have htold : v.told = u.told := congrArg (filterMap Notice.answered) h.log
  have hheld : v.Held ↔ u.Held := by unfold Held; rw [h.lockState]
  refine ⟨fun hu => ⟨fun hv o out ho => ?_, fun o out ho hl => ?_, ?_, ?_, ?_⟩, .inl htold,
    hheld.mpr, fun hv => .inl (h.isLocked ▸ hv)⟩
  · obtain ⟨was, hwas, e⟩ := h.outputs o out ho
    rw [← e]
    exact hu.held (hheld.mp hv) o was hwas
  · obtain ⟨was, hwas, e⟩ := h.outputs o out ho
    unfold ShownLocked
    rw [h.log]
    exact hu.shown o was hwas (e.trans hl)
  · rw [htold]
    exact hu.once
  · rw [htold, h.nextLock]
    exact hu.old
  · rw [h.lockState, htold, h.nextLock]
    exact hu.owed

theorem Quiet.guarded (h : Quiet u v) : u.Guarded → v.Guarded :=
  Safe.guarded (h.safe : Safe False u v)

namespace Safe

variable {o : OutputId}

theorem refl (s : Compositor C) : Safe may s s := ⟨id, .inl rfl, id, .inl⟩

theorem trans {w : Compositor C} (h : Safe may u v) (h' : Safe may v w) : Safe may u w where
  guarded hu := h'.guarded (h.guarded hu)
  told := by
    rcases h'.told with e | hw
    · rcases h.told with e' | hv
      · exact .inl (e.trans e')
      · exact .inr (h'.held hv)
    · exact .inr hw
  held hu := h'.held (h.held hu)
  locks hw := (h'.locks hw).elim h.locks .inr

/-! ## 2. The answer -/

/-- A request may be answered when every output is locked, if it was not answered before. -/
theorem confirm {c : SessionLock}
    (hall : s.Guarded → ∀ o out, s.outputs.lookup o = some out → out.lockRenderState = .locked)
    (howed : s.Guarded → c.id ∉ s.told ∧ c.id < s.nextLock) (hmay : s.isLocked = true ∨ may) :
    Safe may s (s.confirm c) where
  guarded h := by
    obtain ⟨hnot, hlt⟩ := howed h
    refine ⟨fun _ => hall h, fun o out ho hl => h.shown o out ho hl, ?_, ?_, ?_⟩
    · exact nodup_cons.mpr ⟨hnot, h.once⟩
    · intro r hr
      rcases mem_cons.mp hr with e | hr
      · exact e ▸ hlt
      · exact h.old r hr
    · intro c' e
      cases e
  told := .inr ⟨c, rfl⟩
  held _ := ⟨c, rfl⟩
  locks _ := hmay

theorem finishLocking (s : Compositor C) : Safe may s s.finishLocking := by
  unfold Compositor.finishLocking
  split
  · rename_i c hl
    split_ifs with hall
    · refine confirm (fun _ o out ho => ?_) (fun h => h.owed c (by rw [hl]; rfl))
        (.inl (congrArg LockState.isLocked hl))
      exact of_decide_eq_true (FinMap.all_eq_true.mp hall o out ho)
    · exact refl s
  · exact refl s

theorem lookup_of_keys_isEmpty (h : s.outputs.keys.isEmpty = true) (o : OutputId) :
    s.outputs.lookup o = none := by
  refine AList.lookup_eq_none.mpr fun hmem => ?_
  have hkeys : o ∈ s.outputs.keys := hmem
  rw [isEmpty_iff.mp h] at hkeys
  cases hkeys

theorem continueToLocking (s : Compositor C) (hmay : s.isWaiting = true → may) :
    Safe may s s.continueToLocking := by
  unfold Compositor.continueToLocking
  split
  · rename_i c d hl
    have hmay : may := hmay (by rw [isWaiting, hl])
    dsimp only
    split_ifs with hempty
    · refine (Quiet.removeSource s d).safe.trans
        (confirm (fun _ o out ho => ?_) (fun h => ?_) (.inr hmay))
      · rw [lookup_of_keys_isEmpty hempty o] at ho
        cases ho
      · exact h.owed c (by rw [show (s.removeSource d).lockState = _ from hl]; rfl)
    · refine Safe.trans (v := { s.removeSource d with lockState := .locking c }) ?_
        ((Quiet.queueRedrawAll _).trans (Quiet.foldl_ensureLockRedraw _ _)).safe
      -- the request waits on, now for the outputs
      refine ⟨fun h => ⟨?_, h.shown, h.once, h.old, fun c' e => ?_⟩, .inl rfl, ?_,
        fun _ => .inr hmay⟩
      · rintro ⟨l, e⟩
        cases e
      · cases e
        exact h.owed c (by rw [hl]; rfl)
      · rintro ⟨l, e⟩
        rw [hl] at e
        cases e
  · exact refl s

theorem maybeContinueToLocking (s : Compositor C)
    (hmay : (s.isWaiting && s.surfacesReady) = true → may) :
    Safe may s s.maybeContinueToLocking := by
  unfold Compositor.maybeContinueToLocking
  split
  · split_ifs with hready
    · exact continueToLocking s fun hw => hmay (Bool.and_eq_true_iff.mpr ⟨hw, hready⟩)
    · exact refl s
  · exact refl s

/-- A new request has a number no earlier one has. -/
theorem lock (s : Compositor C) (client : ℕ) :
    Safe (s.outputs.keys.isEmpty = true) s (s.lock client) := by
  let s' : Compositor C := { s with nextLock := s.nextLock + 1 }
  have hold : s.Guarded → ∀ r ∈ s.told, r < s.nextLock + 1 :=
    fun h r hr => Nat.lt_succ_of_lt (h.old r hr)
  have hn : Safe (s.outputs.keys.isEmpty = true) s s' := by
    refine ⟨fun h => ⟨h.held, h.shown, h.once, hold h, fun c e => ?_⟩, .inl rfl, id, .inl⟩
    exact ⟨(h.owed c e).1, Nat.lt_succ_of_lt (h.owed c e).2⟩
  have hfresh : s.Guarded → s.nextLock ∉ s.told ∧ s.nextLock < s.nextLock + 1 :=
    fun h => ⟨fun hmem => Nat.lt_irrefl _ (h.old _ hmem), Nat.lt_succ_self _⟩
  have hanswer (hall : s.Guarded → ∀ o out, s.outputs.lookup o = some out →
      out.lockRenderState = .locked)
      (hmay : s.isLocked = true ∨ s.outputs.keys.isEmpty = true) :
      Safe (s.outputs.keys.isEmpty = true) s (s'.confirm ⟨s.nextLock, client⟩) := by
    refine ⟨fun h => ?_, .inr ⟨_, rfl⟩, fun _ => ⟨_, rfl⟩, fun _ => hmay⟩
    have hc : Safe _ s' (s'.confirm ⟨s.nextLock, client⟩) :=
      confirm (fun _ => hall h) (fun _ => hfresh h) hmay
    exact hc.guarded (hn.guarded h)
  unfold Compositor.lock
  dsimp only
  split
  · exact hn
  · exact hn
  · rename_i held hl
    split
    · exact hn
    · exact hanswer (fun h => h.held ⟨held, hl⟩) (.inl (congrArg LockState.isLocked hl))
  · rename_i hl
    split_ifs with hempty
    · refine hanswer (fun _ o out ho => ?_) (.inr hempty)
      rw [lookup_of_keys_isEmpty hempty o] at ho
      cases ho
    · refine ⟨fun h => ⟨?_, h.shown, h.once, hold h, fun c e => ?_⟩, .inl rfl, ?_,
        fun h => by cases h⟩
      · rintro ⟨l, e⟩
        cases e
      · cases e
        exact hfresh h
      · rintro ⟨l, e⟩
        rw [hl] at e
        cases e

theorem commit (s : Compositor C) (surface : SurfaceId) (isMapped : Bool) :
    Safe (s.entersLock (.commit surface isMapped) = true) s (s.commit surface isMapped) := by
  have hs : Quiet s (s.setMapped surface isMapped) := .of_eq rfl rfl rfl rfl
  unfold Compositor.commit
  dsimp only
  split
  · exact hs.safe
  · split
    · exact hs.safe.trans (maybeContinueToLocking _ fun h => h)
    · exact (hs.trans (.queueRedraw _ _)).safe

/-! ## 3. Outputs -/

theorem find?_tell (s : Compositor C) (notice : Notice) (o : OutputId) :
    (s.tell notice).log.find? (·.isAbout o) =
      if notice.isAbout o then some notice else s.log.find? (·.isAbout o) := by
  unfold tell
  rw [find?_cons]
  split <;> simp_all

/-- An output is given a lock state together with a notice that justifies it. -/
theorem of_notice {outputs : FinMap OutputId (OutputState C)} {notice : Notice}
    (hself : ∀ out, outputs.lookup o = some out →
      out.lockRenderState = if s.isLocked then .locked else .unlocked)
    (hothers : ∀ i ≠ o, outputs.lookup i = s.outputs.lookup i)
    (hanswer : notice.answered = none) (habout : ∀ i, notice.isAbout i = decide (o = i))
    (hunder : notice.underLock = s.isLocked) :
    Safe may s { s.tell notice with outputs := outputs } := by
  have htold : ({ s.tell notice with outputs := outputs } : Compositor C).told = s.told :=
    filterMap_cons_none hanswer
  refine ⟨fun h => ⟨fun hheld i out hi => ?_, fun i out hi hl => ?_, ?_, ?_, ?_⟩, .inl htold, id,
    .inl⟩
  · by_cases hio : i = o
    · subst hio
      obtain ⟨l, hl⟩ := hheld
      have hlocked : s.isLocked = true := congrArg LockState.isLocked hl
      rw [hself out hi, if_pos hlocked]
    · exact h.held hheld i out ((hothers i hio).symm.trans hi)
  · have hfind := find?_tell s notice i
    by_cases hio : i = o
    · subst hio
      rw [habout, decide_eq_true rfl, if_pos rfl] at hfind
      refine ⟨notice, hfind, ?_⟩
      rw [hunder]
      rw [hself out hi] at hl
      by_contra hfalse
      rw [if_neg hfalse] at hl
      cases hl
    · rw [habout, decide_eq_false fun e => hio e.symm, if_neg Bool.false_ne_true] at hfind
      obtain ⟨was, hwas, hunder'⟩ := h.shown i out ((hothers i hio).symm.trans hi) hl
      exact ⟨was, hfind.trans hwas, hunder'⟩
  · rw [htold]
    exact h.once
  · rw [htold]
    exact h.old
  · rw [htold]
    exact h.owed

theorem addOutput {moved : List OutputId} (h : s.addOutput o moved = .ok v) : Safe may s v := by
  unfold Compositor.addOutput at h
  by_cases ho : o ∈ s.outputs
  · rw [if_pos ho] at h
    cases h
  rw [if_neg ho] at h
  cases h
  refine Safe.trans (of_notice (fun out hout => ?_) (fun i hi => ?_) rfl (fun _ => rfl) rfl)
    (Quiet.repositionOutputs _ _).safe
  · rw [AList.lookup_insert] at hout
    rw [← Option.some.inj hout]
  · exact AList.lookup_insert_ne hi

theorem recheckLocking (s : Compositor C)
    (hmay : (s.isWaiting && s.surfacesReady) = true → may) : Safe may s s.recheckLocking := by
  unfold Compositor.recheckLocking
  split
  · exact finishLocking s
  · exact maybeContinueToLocking s hmay

theorem removeOutput {moved : List OutputId} {closed : Bool}
    (h : s.removeOutput o moved closed = .ok v) :
    Safe (s.entersLock (.removeOutput o moved closed) = true) s v := by
  unfold Compositor.removeOutput at h
  dsimp only at h
  split at h
  · cases h
  rename_i out _
  cases h
  refine (Quiet.repositionOutputs s moved).safe.trans ?_
  have hmay : (((s.repositionOutputs moved).dropOutput o out).isWaiting &&
      ((s.repositionOutputs moved).dropOutput o out).surfacesReady) = true →
      s.entersLock (.removeOutput o moved closed) = true := by
    unfold Compositor.dropOutput
    dsimp only
    split <;> exact fun h => h
  have hs := (Quiet.dropOutput (s.repositionOutputs moved) o out).safe.trans (recheckLocking _ hmay)
  split
  · exact hs.trans (Quiet.queueRedrawAll _).safe
  · exact hs

theorem afterRender (s : Compositor C) (o : OutputId) (active : Bool) (res : RenderResult) :
    Safe may s (s.afterRender o active res) := by
  have hskip : Safe may s (if res = .skipped then
      s.modifyOutput o fun out => { out with redrawState := out.redrawState.skipped }
      else s) := by
    split
    · exact Quiet.safe (.of_modify s o fun _ => rfl)
    · exact refl s
  unfold Compositor.afterRender
  dsimp only
  generalize (if res = RenderResult.skipped then
      s.modifyOutput o fun out => { out with redrawState := out.redrawState.skipped }
      else s) = r at hskip ⊢
  split
  · refine hskip.trans (of_notice (o := o) (fun out hout => ?_) (fun i hi => ?_) ?_ (fun i => ?_) ?_)
    · have hout' := (FinMap.lookup_modify r.outputs o o _).symm.trans hout
      rw [if_pos rfl] at hout'
      obtain ⟨was, -, e⟩ := Option.map_eq_some_iff.mp hout'
      rw [← e]
      rfl
    · exact (FinMap.lookup_modify r.outputs o i _).trans (if_neg hi)
    · cases active <;> rfl
    · cases active <;> rfl
    · cases active <;> rfl
  · exact hskip

theorem checkLocking (s : Compositor C) (o : OutputId) : Safe may s (s.checkLocking o) := by
  unfold Compositor.checkLocking
  split
  · split
    · exact refl s
    · exact finishLocking s
  · exact refl s

theorem redraw {target : ℕ} {animating : Bool} {backend : Backend}
    (h : s.redraw o target animating backend = .ok v) : Safe may s v := by
  have hnow : Quiet s (s.atTime target) := .of_eq rfl rfl rfl rfl
  have hnote : Quiet s ((s.atTime target).noteAnimations o animating) :=
    hnow.trans (.of_modify _ o fun _ => rfl)
  unfold Compositor.redraw at h
  dsimp only at h
  split at h
  · cases h
  split at h
  · split at h
    · obtain ⟨r, hr, h⟩ := Runs.bind_eq_ok h
      cases h
      exact (hnote.trans (.render hr)).safe.trans ((afterRender r.1 o _ _).trans (checkLocking _ o))
    · cases h
      exact hnow.safe.trans ((afterRender _ o _ _).trans (checkLocking _ o))
  · cases h

theorem onTimer {t : Token} (h : s.onTimer t = .ok v) :
    Safe (s.entersLock (.timer t) = true) s v := by
  unfold Compositor.onTimer at h
  split at h
  · cases h
    exact refl s
  · exact ((Quiet.removeSource s t).trans (.onEstimatedVblankTimer h)).safe
  · rename_i hsource
    cases h
    exact (Quiet.removeSource s t).safe.trans (continueToLocking _ fun hw =>
      Bool.and_eq_true_iff.mpr ⟨hw, decide_eq_true hsource⟩)
  · cases h
    exact (Quiet.onLockRedrawTimer s t _).safe

theorem step {e : Event C} (he : e ≠ .unlock) (h : s.step e = .ok v) :
    Safe (s.entersLock e = true) s v := by
  cases e with
  | addOutput o moved =>
    simp only [Compositor.step] at h
    split at h
    · cases h
      exact refl s
    · exact addOutput h
  | removeOutput o moved closed =>
    simp only [Compositor.step] at h
    split at h
    · exact removeOutput h
    · cases h
      exact refl s
  | redraw o target animating backend =>
    simp only [Compositor.step] at h
    split at h
    · exact redraw h
    · cases h
      exact refl s
  | timer t => exact onTimer h
  | lock client => cases h; exact lock s client
  | unlock => exact absurd rfl he
  | commit surface isMapped => cases h; exact commit s surface isMapped
  | _ => exact Quiet.safe (.step rfl h)

end Safe

/-! ## 4. Runs -/

theorem told_unlock (s : Compositor C) : s.unlock.told = s.told := by
  have hmonitors : ∀ u : Compositor C, u.activateMonitors.told = u.told := by
    intro u
    unfold activateMonitors
    split <;> rfl
  have hdrop : s.dropDeadline.told = s.told := by
    unfold dropDeadline
    split <;> rfl
  exact (hmonitors _).trans hdrop

theorem Guarded.unlock (h : s.Guarded) : s.unlock.Guarded := by
  have hdrop : s.dropDeadline.Guarded := by
    unfold dropDeadline
    split
    · exact (Quiet.removeSource s _).guarded h
    · exact h
  have hunlocked : ({ s.dropDeadline with lockState := .unlocked } : Compositor C).Guarded := by
    refine ⟨?_, hdrop.shown, hdrop.once, hdrop.old, fun c e => by cases e⟩
    rintro ⟨l, e⟩
    cases e
  have hsurface := (Quiet.of_mapVals _ (f := fun _ out => { out with lockSurface := none })
    fun _ _ => rfl).guarded hunlocked
  exact ((Quiet.queueRedrawAll _).trans (.activateMonitors _)).guarded hsurface

theorem Guarded.step (h : s.Guarded) {e : Event C} (hs : s.step e = .ok v) : v.Guarded := by
  by_cases he : e = .unlock
  · subst he
    cases hs
    exact h.unlock
  · exact (Safe.step he hs).guarded h

theorem guarded_new (scene : Scene C) : (new scene).Guarded where
  held h := by
    obtain ⟨l, e⟩ := h
    cases e
  shown o out ho := by cases ho
  once := nodup_nil
  old r hr := by cases hr
  owed c e := by cases e

theorem locked_run {events : List (Event C)} (hs : s.Held) (hno : .unlock ∉ events)
    (h : s.run events = .ok v) : v.Held := by
  induction events generalizing s with
  | nil => cases h; exact hs
  | cons e events ih =>
    obtain ⟨s', hstep, h⟩ := Runs.run_cons_eq_ok h
    have he : e ≠ .unlock := fun heq => hno (heq ▸ mem_cons_self)
    exact ih ((Safe.step he hstep).held hs) (fun hmem => hno (mem_cons_of_mem _ hmem)) h

theorem Guarded.run (h : s.Guarded) {events : List (Event C)} (hs : s.run events = .ok v) :
    v.Guarded :=
  Runs.run_keeps_all (fun _ _ _ hinv hstep => hinv.step hstep) h hs

/-- **A lock client is told `locked` at most once for each request, and only while every connected
output displays a locked frame**; and from then until `unlock` no output goes back. -/
theorem lock_confirmation (scene : Scene C) (events : List (Event C)) (s : Compositor C)
    (h : (new scene).run events = .ok s) :
    s.told.Nodup ∧
    ∀ e s', s.step e = .ok s' → s'.told ≠ s.told → (∀ o out, s'.outputs.lookup o = some out →
        out.lockRenderState = .locked ∧ s'.ShownLocked o) ∧
      ∀ more t, .unlock ∉ more → s'.run more = .ok t →
        ∀ o out, t.outputs.lookup o = some out → out.lockRenderState = .locked := by
  have hs := (guarded_new scene).run h
  refine ⟨hs.once, fun e s' hstep htold => ?_⟩
  have he : e ≠ .unlock := by
    intro heq
    subst heq
    cases hstep
    exact htold (told_unlock s)
  have hheld := (Safe.step he hstep).told.resolve_left htold
  have hs' := hs.step hstep
  refine ⟨fun o out ho => ?_, fun more t hno hrun => ?_⟩
  · have hl := hs'.held hheld o out ho
    exact ⟨hl, hs'.shown o out ho hl⟩
  · exact (hs'.run hrun).held (locked_run hheld hno hrun)

/-- One output that showed the session, a lock whose deadline passes, and the redraw it waits for. -/
theorem lock_confirmation_one_output :
    ∃ s s', (new (Scene.blank : Scene ℕ)).run [.addOutput 0 [], .redraw 0 16 false .frameQueued,
        .vblank 0 false, .lock 7, .timer 0] = .ok s ∧
      s.step (.redraw 0 33 false .frameQueued) = .ok s' ∧ s'.told = [0] ∧
      ∀ o out, s'.outputs.lookup o = some out → out.lockRenderState = .locked := by
  refine ⟨_, _, rfl, rfl, rfl, fun o out ho => ?_⟩
  have hs := lock_confirmation (Scene.blank : Scene ℕ) [.addOutput 0 [],
    .redraw 0 16 false .frameQueued, .vblank 0 false, .lock 7, .timer 0] _ rfl
  exact ((hs.2 (.redraw 0 33 false .frameQueued) _ rfl (cons_ne_nil 0 [])).1 o out ho).1

end Compositor

end Swayward.Session
