/-
  File:      Swayward/Session/Screencopy.lean
  Subject:   THE QUEUE OF SCREEN COPIES of one manager, and the cast it is shown as
             (protocols/screencopy.rs).
-/
import Swayward.Session.State

namespace Swayward.Session

open List Runs

abbrev FrameId := ℕ

structure Screencopy where
  frame : FrameId
  output : OutputId

structure ScreencopyCast where
  output : OutputId
  deadline : ℕ

structure ScreencopyQueue where
  pendingFrames : List FrameId := []
  screencopies : List Screencopy := []
  cast : Option ScreencopyCast := none

/-- `CAST_TIMEOUT`, in nanoseconds. -/
def castTimeout : ℕ := 10000000000

namespace ScreencopyQueue

variable (q : ScreencopyQueue) (now : ℕ)

/-- The first copy ever starts a cast; a new front gives it its output. -/
def push (copy : Screencopy) : ScreencopyQueue where
  pendingFrames := q.pendingFrames
  screencopies := q.screencopies ++ [copy]
  cast := match q.cast with
    | some cast =>
      some (if q.screencopies.isEmpty then { cast with output := copy.output } else cast)
    | none => some ⟨copy.output, now + castTimeout⟩

/-- `pop`; without a copy or a cast it panics. -/
def pop : Option (Screencopy × ScreencopyQueue) :=
  match q.screencopies, q.cast with
  | copy :: rest, some cast =>
    let cast := match rest with
      | next :: _ => { cast with output := next.output }
      | [] => { cast with deadline := now + castTimeout }
    some (copy, { q with screencopies := rest, cast := some cast })
  | _, _ => none

def clearExpiredCast : ScreencopyQueue :=
  if q.screencopies.isEmpty ∧ q.cast.any (·.deadline ≤ now) then { q with cast := none } else q

/-- The common part of `remove_output` and `remove_frame`. -/
def retain (keep : Screencopy → Bool) : ScreencopyQueue :=
  if q.screencopies.isEmpty then q
  else
    let rest := q.screencopies.filter keep
    { q with
      screencopies := rest
      cast := q.cast.map fun cast =>
        if rest.isEmpty then { cast with deadline := now + castTimeout } else cast }

def removeOutput (output : OutputId) : ScreencopyQueue := q.retain now (·.output ≠ output)

def removeFrame (frame : FrameId) : ScreencopyQueue :=
  { q with pendingFrames := q.pendingFrames.erase frame }.retain now (·.frame ≠ frame)

inductive Step
  | push (copy : Screencopy)
  | pop
  | clearExpiredCast
  | removeOutput (output : OutputId)
  | removeFrame (frame : FrameId)

/-- One operation, at a time. -/
def step (e : ℕ × Step) : Except Unit ScreencopyQueue :=
  match e.2 with
  | .push copy => .ok (q.push e.1 copy)
  | .pop => match q.pop e.1 with
    | some (_, q) => .ok q
    | none => .error ()
  | .clearExpiredCast => .ok (q.clearExpiredCast e.1)
  | .removeOutput output => .ok (q.removeOutput e.1 output)
  | .removeFrame frame => .ok (q.removeFrame e.1 frame)

/-- The cast names the output of the front copy. -/
def Named : Prop := ∀ front ∈ q.screencopies.head?, q.cast.map (·.output) = some front.output

/-- The first copy that stays has the output of the front copy. -/
def KeepsOutput (keep : Screencopy → Bool) : Prop :=
  ∀ front ∈ q.screencopies.head?, ∀ next ∈ q.screencopies.find? keep, next.output = front.output

/-- What a removal must not do: bring another output to the front. -/
def Steady (e : ℕ × Step) : Prop :=
  match e.2 with
  | .removeOutput output => q.KeepsOutput (·.output ≠ output)
  | .removeFrame frame => q.KeepsOutput (·.frame ≠ frame)
  | _ => True

variable {q now}

theorem Named.retain (h : q.Named) {keep : Screencopy → Bool} (hkeep : q.KeepsOutput keep) :
    (q.retain now keep).Named := by
  intro next hnext
  unfold ScreencopyQueue.retain at hnext ⊢
  split_ifs at hnext ⊢ with hempty
  · exact h next hnext
  · rw [head?_filter] at hnext
    obtain ⟨front, hfront⟩ : ∃ front, q.screencopies.head? = some front :=
      Option.isSome_iff_exists.mp (by simpa using hempty)
    rw [hkeep front hfront next hnext, ← h front hfront, Option.map_map]
    congr 1
    funext cast
    simp only [Function.comp_apply]
    split_ifs <;> rfl

theorem Named.step (h : q.Named) {e : ℕ × Step} {q' : ScreencopyQueue} (he : q.Steady e)
    (hstep : q.step e = .ok q') : q'.Named := by
  obtain ⟨now, _ | _ | _ | output | frame⟩ := e
  case removeOutput => exact Except.ok.inj hstep ▸ h.retain he
  case removeFrame =>
    have hwaiting : Named { q with pendingFrames := q.pendingFrames.erase frame } := h
    exact Except.ok.inj hstep ▸ hwaiting.retain he
  all_goals
    simp only [Named, ScreencopyQueue.step] at h hstep ⊢
    cases hq : q.screencopies <;>
      grind [ScreencopyQueue.push, ScreencopyQueue.pop, ScreencopyQueue.clearExpiredCast]

/-- **The cast names the output being captured**, in every state of a run in which no removal brings
a copy of another output to the front. -/
theorem named_run {events : List (ℕ × Step)} (hsteady : Along step Steady {} events)
    (h : run step {} events = .ok q) : q.Named :=
  run_keeps (fun _ _ _ h he => h.step he) hsteady (fun _ h => by cases h) h

theorem named_run_two : ∃ q, run step {} [(0, .push ⟨1, 1⟩), (0, .push ⟨2, 1⟩),
    (1, .removeFrame 1)] = .ok q ∧ q.Named := by
  refine Exists.imp (fun q h => ⟨h, named_run ?_ h⟩) ⟨_, rfl⟩
  refine .cons_ok trivial rfl (.cons_ok trivial rfl (.cons_ok ?_ rfl trivial))
  rintro _ ⟨⟩ _ ⟨⟩
  rfl

/-- The first of two copies goes with its output, and the cast still names it. -/
theorem not_named_removed : ∃ q, run step {} [(0, .push ⟨1, 1⟩), (0, .push ⟨2, 2⟩),
    (1, .removeOutput 1)] = .ok q ∧ ¬ q.Named := by
  refine ⟨_, rfl, fun h => ?_⟩
  have := h ⟨2, 2⟩ rfl
  revert this
  decide

end ScreencopyQueue

end Swayward.Session
