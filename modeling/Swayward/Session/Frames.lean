/-
  File:      Swayward/Session/Frames.lean
  Subject:   WHEN A FRAME IS SHOWN: the predicted presentation time of an output (frame_clock.rs),
             and the transactions that hold clients' commits back (utils/transaction.rs).
-/
import Mathlib.Order.Bounds.Basic
import Mathlib.Data.PNat.Basic
import Mathlib.Data.List.Induction

namespace Swayward.Session

/-! ## 1. The frame clock -/

/-- Times and intervals are whole nanoseconds. -/
structure FrameClock where
  lastPresentationTime : Option ℕ
  refreshIntervalNs : Option ℕ+
  vrr : Bool

namespace FrameClock

/-- `next_presentation_time` at the clock value `now`; nothing where the `u64` arithmetic overflows,
which the build checks. -/
def nextPresentationTime (clock : FrameClock) (now : ℕ) : Option ℕ :=
  match clock.refreshIntervalNs, clock.lastPresentationTime with
  | some interval, some last =>
    let now :=
      if now ≤ last then
        -- an early VBlank, or one that is two or more early
        if now + interval < last then last + interval else now + interval
      else now
    let sinceLastNs := now - last
    let toNextNs := (sinceLastNs / interval + 1) * interval
    -- `sinceLastNs` is smaller, so it overflows only if this does
    if 2 ^ 64 ≤ toNextNs then none
    else if clock.vrr ∧ interval < toNextNs then some now
    else some (last + toNextNs)
  | _, _ => some now

/-- The times at which the output refreshes after the last presentation and after `now`. -/
def due (last : ℕ) (interval : ℕ+) (now : ℕ) : Set ℕ :=
  {t | (∃ k ≥ 1, t = last + k * interval) ∧ now < t}

variable {last now : ℕ} {interval : ℕ+}

/-- Adding one to the quotient gives the first multiple after `now`. -/
theorem isLeast_due {since : ℕ} (h : since = now - last ∨ since < interval ∧ now < last) :
    IsLeast (due last interval now) (last + (since / interval + 1) * interval) := by
  have hlater : ∀ k ≥ 1, now < last + k * interval ↔ since / interval + 1 ≤ k := by
    intro k hk
    have hpos : (interval : ℕ) ≤ k * interval := Nat.le_mul_of_pos_left _ hk
    rw [Nat.succ_le_iff, Nat.div_lt_iff_lt_mul interval.pos]
    rcases h with rfl | ⟨hless, hearly⟩
    · have := interval.pos
      omega
    · omega
  refine ⟨⟨⟨_, Nat.le_add_left _ _, rfl⟩, (hlater _ (Nat.le_add_left _ _)).2 le_rfl⟩, ?_⟩
  rintro _ ⟨⟨k, hk, rfl⟩, ht⟩
  exact Nat.add_le_add_left (Nat.mul_le_mul_right _ ((hlater k hk).1 ht)) _

theorem nextPresentationTime_of_timely (hne : now ≠ last) (hearly : last ≤ now + interval)
    (hfits : ∃ t ∈ due last interval now, t < last + 2 ^ 64) :
    ∃ t, nextPresentationTime ⟨some last, some interval, false⟩ now = some t ∧
      IsLeast (due last interval now) t ∧ t ≤ max now last + interval := by
  obtain ⟨since, hsince, hcase⟩ : ∃ since,
      since = (if now ≤ last then now + interval else now) - last ∧
        (since = now - last ∨ since < interval ∧ now < last) := ⟨_, rfl, by split <;> omega⟩
  have hupper : (since / interval + 1) * interval ≤ since + interval := by
    rw [Nat.add_mul, Nat.one_mul]
    exact Nat.add_le_add_right (Nat.div_mul_le_self _ _) _
  have hzero : since < interval → (since / interval + 1) * interval = (interval : ℕ) := by
    intro hless
    rw [Nat.div_eq_of_lt hless, Nat.zero_add, Nat.one_mul]
  have hsmall : (since / interval + 1) * interval < 2 ^ 64 := by
    obtain ⟨t, ht, hlt⟩ := hfits
    exact Nat.lt_of_add_lt_add_left (((isLeast_due hcase).2 ht).trans_lt hlt)
  refine ⟨_, ?_, isLeast_due hcase, ?_⟩
  · simp only [nextPresentationTime, if_neg (Nat.not_lt.2 hearly), ← hsince]
    rw [if_neg (Nat.not_le.2 hsmall)]
    simp
  · rcases hcase with rfl | ⟨hless, -⟩
    · omega
    · rw [hzero hless]
      omega

/-- What is predicted lies less than `2 ^ 64` after the last presentation. -/
theorem lt_of_nextPresentationTime {t : ℕ}
    (h : nextPresentationTime ⟨some last, some interval, false⟩ now = some t) :
    t < last + 2 ^ 64 := by
  simp only [nextPresentationTime, Bool.false_eq_true, false_and, if_false] at h
  obtain ⟨hfits, h⟩ := Option.ite_none_left_eq_some.mp h
  have := Option.some.inj h
  omega

/-- At the last presentation, and more than one interval before it, one refresh is left out. -/
theorem nextPresentationTime_of_untimely {t : ℕ} (h : now = last ∨ now + interval < last)
    (ht : nextPresentationTime ⟨some last, some interval, false⟩ now = some t) :
    t = last + 2 * interval := by
  have hnow : (if now ≤ last then if now + interval < last then last + interval else now + interval
      else now) = last + (interval : ℕ) := by
    rcases h with rfl | h
    · simp
    · rw [if_pos (by omega), if_pos h]
  simp only [nextPresentationTime, hnow, Nat.add_sub_cancel_left, Nat.div_self interval.pos,
    Bool.false_eq_true, false_and, if_false] at ht
  exact (Option.some.inj (Option.ite_none_left_eq_some.mp ht).2).symm

/-- **Prediction.** The next presentation is the first refresh after the current time, and later
clocks predict no earlier one, exactly unless the clock stands at the last presentation or more
than one interval before it, or the product overflows. -/
theorem nextPresentationTime_isLeast : let clock : FrameClock := ⟨some last, some interval, false⟩
    (∃ t, clock.nextPresentationTime now = some t ∧ IsLeast (due last interval now) t ∧
      t ≤ max now last + interval ∧
      ∀ now' ≥ now, now' ≠ last → (∃ t ∈ due last interval now', t < last + 2 ^ 64) →
        ∃ t' ≥ t, clock.nextPresentationTime now' = some t') ↔
    now ≠ last ∧ last ≤ now + interval ∧ ∃ t ∈ due last interval now, t < last + 2 ^ 64 := by
  intro clock
  constructor
  · rintro ⟨t, ht, hleast, -⟩
    have htimely : ¬ (now = last ∨ now + interval < last) := by
      intro h
      have hdue : last + interval ∈ due last interval now :=
        ⟨⟨1, le_rfl, by rw [Nat.one_mul]⟩, by have := interval.pos; omega⟩
      have hle := hleast.2 hdue
      rw [nextPresentationTime_of_untimely h ht] at hle
      have := interval.pos
      omega
    exact ⟨fun h => htimely (.inl h), not_lt.mp fun h => htimely (.inr h), t, hleast.1,
      lt_of_nextPresentationTime ht⟩
  · rintro ⟨hne, hearly, hfits⟩
    obtain ⟨t, ht, hleast, hupper⟩ := nextPresentationTime_of_timely hne hearly hfits
    refine ⟨t, ht, hleast, hupper, fun now' hnow hne' hfits' => ?_⟩
    obtain ⟨t', ht', hleast', -⟩ :=
      nextPresentationTime_of_timely hne' (hearly.trans (Nat.add_le_add_right hnow _)) hfits'
    exact ⟨t', hleast.2 ⟨hleast'.1.1, hnow.trans_lt hleast'.1.2⟩, ht'⟩

theorem nextPresentationTime_isLeast_one :
    ∃ t, nextPresentationTime ⟨some 10, some 4, false⟩ 15 = some t ∧ t ≤ 19 := by
  obtain ⟨t, ht, -, hle, -⟩ := (@nextPresentationTime_isLeast 10 15 4).mpr
    ⟨by decide, by decide, 18, ⟨⟨2, by decide, rfl⟩, by decide⟩, by decide⟩
  exact ⟨t, ht, hle⟩

/-- Exactly at the last presentation the clock predicts the refresh after the next, and steps back
when it advances by a nanosecond. -/
theorem nextPresentationTime_at_last : let clock : FrameClock := ⟨some 10, some 4, false⟩
    clock.nextPresentationTime 10 = some 18 ∧ 14 ∈ due 10 4 10 ∧
      clock.nextPresentationTime 11 = some 14 := by
  refine ⟨rfl, ⟨⟨1, le_rfl, rfl⟩, by decide⟩, rfl⟩

end FrameClock

/-! ## 2. Client transactions -/

/-- A `Transaction`: its handles, what they share, and its sources in the event loop. -/
structure Transaction (C : Type) where
  handles : ℕ := 1
  completed : Bool := false
  notifications : Option (List C) := none
  /-- `Deadline::Registered` -/
  registered : Bool := false
  timer : Bool := false
  /-- The ping that removes the timer. -/
  pinged : Bool := false
  /-- What has been sent on the channel. -/
  sent : List C := []

inductive BlockerState
  | pending | released
  deriving DecidableEq, Repr

inductive TransactionStep (C : Type)
  | clone
  | drop
  | addNotification (client : C)
  | registerDeadlineTimer
  | deadline
  | ping

namespace Transaction

variable {C : Type}

/-- `TransactionBlocker::state`, of any blocker: its weak pointer is dead once no handle is left. -/
def blockerState (t : Transaction C) : BlockerState :=
  if t.handles = 0 ∨ t.completed then .released else .pending

/-- `Inner::complete` -/
def complete (t : Transaction C) : Transaction C :=
  { t with completed := true, notifications := none, sent := t.sent ++ t.notifications.getD [] }

/-- One call or event. The calls need a handle, the events their source. -/
def step (t : Transaction C) : TransactionStep C → Transaction C
  | .clone => if t.handles = 0 then t else { t with handles := t.handles + 1 }
  | .drop =>
    if t.handles = 1 then { t.complete with handles := 0, pinged := t.registered }
    else { t with handles := t.handles - 1 }
  | .addNotification client =>
    if t.handles = 0 ∨ t.completed then t
    else { t with notifications := some (t.notifications.getD [] ++ [client]) }
  | .registerDeadlineTimer =>
    if t.handles = 0 ∨ t.registered then t else { t with registered := true, timer := true }
  | .deadline =>
    if t.timer then
      -- the callback upgrades its weak pointer
      if t.handles = 0 then { t with timer := false } else { t.complete with timer := false }
    else t
  | .ping => if t.pinged then { t with pinged := false, timer := false } else t

def run (steps : List (TransactionStep C)) : Transaction C := steps.foldl step {}

/-! ### What a list of steps amounts to -/

def countHandles (handles : ℕ) : TransactionStep C → ℕ
  | .clone => if handles = 0 then 0 else handles + 1
  | .drop => handles - 1
  | _ => handles

/-- The handles that are left. -/
def handlesAfter (steps : List (TransactionStep C)) : ℕ := steps.foldl countHandles 1

/-- The step `a` is taken, after steps that meet `P`. -/
def Taken (a : TransactionStep C) (P : List (TransactionStep C) → Prop)
    (steps : List (TransactionStep C)) : Prop :=
  ∃ before after, steps = before ++ a :: after ∧ P before

/-- The timer was registered, on a handle. -/
def Registered : List (TransactionStep C) → Prop :=
  Taken .registerDeadlineTimer (handlesAfter · ≠ 0)

/-- The deadline has fired. A timer that the ping removed does not fire; no handle is left then. -/
def Fired : List (TransactionStep C) → Prop := Taken .deadline Registered

/-- The deadline has fired or every handle has been dropped. -/
def Done (steps : List (TransactionStep C)) : Prop := Fired steps ∨ handlesAfter steps = 0

/-- The clients that were added. -/
def clients (steps : List (TransactionStep C)) : List C :=
  steps.filterMap fun a => match a with
    | .addNotification client => some client
    | _ => none

theorem taken_concat {a x : TransactionStep C} {P : List (TransactionStep C) → Prop}
    {steps : List (TransactionStep C)} :
    Taken a P (steps ++ [x]) ↔ Taken a P steps ∨ x = a ∧ P steps := by
  constructor
  · rintro ⟨before, after, h, hP⟩
    rcases List.eq_nil_or_concat after with rfl | ⟨after, y, rfl⟩
    · obtain ⟨rfl, hx⟩ := List.append_inj' h rfl
      exact .inr ⟨List.singleton_inj.mp hx, hP⟩
    · rw [List.concat_eq_append, ← List.cons_append, ← List.append_assoc] at h
      exact .inl ⟨before, after, (List.append_inj' h rfl).1, hP⟩
  · rintro (⟨before, after, rfl, hP⟩ | ⟨rfl, hP⟩)
    · exact ⟨before, after ++ [x], by simp, hP⟩
    · exact ⟨steps, [], rfl, hP⟩

theorem Taken.append {a : TransactionStep C} {P : List (TransactionStep C) → Prop}
    {steps : List (TransactionStep C)} (h : Taken a P steps) (more : List (TransactionStep C)) :
    Taken a P (steps ++ more) := by
  obtain ⟨before, after, rfl, hP⟩ := h
  exact ⟨before, after ++ more, by simp, hP⟩

theorem Fired.registered {steps : List (TransactionStep C)} (h : Fired steps) :
    Registered steps := by
  obtain ⟨before, after, rfl, hP⟩ := h
  exact hP.append _

/-- Once done, done for good. -/
theorem Done.append {steps : List (TransactionStep C)} (h : Done steps)
    (more : List (TransactionStep C)) : Done (steps ++ more) := by
  rcases h with h | h
  · exact .inl (h.append more)
  · right
    induction more using List.reverseRecOn with
    | nil => simpa using h
    | append_singleton more a ih =>
      unfold handlesAfter at *
      rw [← List.append_assoc, List.foldl_append, ih]
      cases a <;> rfl

/-! ### The transaction after a list of steps -/

/-- The state says what the steps amount to, and until they are done the clients wait. -/
structure Sound (steps : List (TransactionStep C)) (t : Transaction C) : Prop where
  handles : t.handles = handlesAfter steps
  registered : t.registered = true ↔ Registered steps
  timer : t.handles ≠ 0 → (t.timer = true ↔ Registered steps ∧ ¬ Fired steps)
  pinged : t.pinged = true → t.handles = 0
  completed : t.completed = true ↔ Done steps
  notifications : t.notifications.getD [] = if t.completed then [] else clients steps
  sent : t.completed = false → t.sent = []

theorem Sound.concat {steps : List (TransactionStep C)} {t : Transaction C} (h : Sound steps t)
    (a : TransactionStep C) : Sound (steps ++ [a]) (t.step a) := by
  obtain ⟨hhandles, hregistered, htimer, hpinged, hcompleted, hwaiting, hsent⟩ := h
  have hfired : Fired (steps ++ [a]) ↔ Fired steps ∨ a = .deadline ∧ Registered steps :=
    taken_concat
  have hreg : Registered (steps ++ [a]) ↔
      Registered steps ∨ a = .registerDeadlineTimer ∧ handlesAfter steps ≠ 0 := taken_concat
  have hclients : clients (steps ++ [a]) = clients steps ++ clients [a] := List.filterMap_append
  have hfires : Fired steps → Registered steps := Fired.registered
  have hleft : handlesAfter (steps ++ [a]) = countHandles (handlesAfter steps) a :=
    List.foldl_append
  unfold Done at hcompleted
  cases a <;> constructor <;>
    grind -ring -linarith [Transaction.step, Transaction.complete, countHandles, clients, Done]

theorem sound_run (steps : List (TransactionStep C)) : Sound steps (run steps) := by
  induction steps using List.reverseRecOn with
  | nil =>
    have hnot : ∀ a P, ¬ Taken a P ([] : List (TransactionStep C)) := by
      rintro a P ⟨before, after, h, -⟩
      simp at h
    constructor <;> simp [run, handlesAfter, Registered, Fired, Done, clients, hnot]
  | append_singleton steps a ih =>
    unfold run
    rw [List.foldl_append]
    exact ih.concat a

/-- What is sent by the step that completes the transaction. -/
theorem Sound.sent_step {steps : List (TransactionStep C)} {t : Transaction C} (h : Sound steps t)
    {a : TransactionStep C} (hbefore : t.completed = false) (hafter : (t.step a).completed = true) :
    (t.step a).sent = clients steps := by
  have hwaiting := h.notifications
  have hsent := h.sent hbefore
  cases a <;> grind [Transaction.step, Transaction.complete]

/-- A completed transaction sends nothing more. -/
theorem sent_append {steps : List (TransactionStep C)} (h : Done steps)
    (more : List (TransactionStep C)) : (run (steps ++ more)).sent = (run steps).sent := by
  induction more using List.reverseRecOn with
  | nil => rw [List.append_nil]
  | append_singleton more a ih =>
    have hsound := sound_run (steps ++ more)
    have hcompleted := hsound.completed.mpr (h.append more)
    have hwaiting := hsound.notifications
    rw [← List.append_assoc, run, List.foldl_append, ← ih, ← run]
    cases a <;> grind [Transaction.step, Transaction.complete, List.foldl]

/-- **Completed once.** Blockers are released exactly when the deadline has fired or every handle has
been dropped, and for good; nothing is sent before, and after it one notification for each client
that was added before. -/
theorem completes_once (steps : List (TransactionStep C)) :
    ((run steps).blockerState = .released ↔ Done steps) ∧
    (∀ more, (run steps).blockerState = .released →
      (run (steps ++ more)).blockerState = .released) ∧
    (¬ Done steps → (run steps).sent = []) ∧
    ∀ before a after, steps = before ++ a :: after → ¬ Done before → Done (before ++ [a]) →
      (run steps).sent = clients before := by
  have hreleased : ∀ steps : List (TransactionStep C),
      (run steps).blockerState = .released ↔ Done steps := by
    intro steps
    have h := sound_run steps
    rw [← h.completed]
    have := h.completed.mpr ∘ .inr
    unfold blockerState
    grind [h.handles]
  have hpending : ∀ steps : List (TransactionStep C), ¬ Done steps →
      (run steps).completed = false := fun steps h =>
    Bool.eq_false_iff.mpr fun hc => h ((sound_run steps).completed.mp hc)
  refine ⟨hreleased steps, fun more => ?_, fun h => (sound_run steps).sent (hpending steps h), ?_⟩
  · rw [hreleased, hreleased]
    exact fun h => h.append more
  · rintro before a after rfl hbefore hafter
    rw [← List.singleton_append, ← List.append_assoc, sent_append hafter]
    have hrun : run (before ++ [a]) = (run before).step a := List.foldl_append
    have hcompleted := (sound_run (before ++ [a])).completed.mpr hafter
    rw [hrun] at hcompleted ⊢
    exact (sound_run before).sent_step (hpending before hbefore) hcompleted

/-- The deadline fires while one of two handles is left; one client came in time. -/
theorem completes_once_deadline :
    (run [.clone, .addNotification 7, .registerDeadlineTimer, .drop, .deadline,
      .addNotification 8, .drop, .ping]).sent = [7] := by
  have hregistered : Registered [TransactionStep.clone, .addNotification 7,
      .registerDeadlineTimer, .drop] := ⟨[.clone, .addNotification 7], [.drop], rfl, by decide⟩
  refine (completes_once _).2.2.2 [.clone, .addNotification 7, .registerDeadlineTimer, .drop]
    .deadline [.addNotification 8, .drop, .ping] rfl ?_ (.inl ⟨_, [], rfl, hregistered⟩)
  rintro (⟨before, after, h, -⟩ | h)
  · have : TransactionStep.deadline ∈ before ++ .deadline :: after := by simp
    rw [← h] at this
    simp at this
  · exact absurd h (by decide)

end Transaction

end Swayward.Session
