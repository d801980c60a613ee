/-
  File:      Swayward/Library/Runs.lean
  Subject:   RUNS of a machine that takes one event at a time and can break down.

  A machine is a step function `σ → ε → Except π σ`: an event either gives the next state or breaks
  the machine with a `π`. A run is the fold of its events. `Along` says that every step of a run
  meets a condition on the state and the event it starts from. The rules:

  * `run_keeps`   -- what every good step keeps, a good run keeps;
  * `run_safe`    -- if no good step from an invariant breaks down, no good run does;
  * `run_related` -- two runs whose steps keep a relation end related.
-/
import Mathlib.Data.List.Basic

namespace Runs

variable {σ σ₁ σ₂ ε ε₁ ε₂ π : Type*}

theorem bind_eq_ok.{u, v} {π : Type u} {α β : Type v} {f : α → Except π β} {x : Except π α} {y : β}
    (h : x >>= f = .ok y) : ∃ a, x = .ok a ∧ f a = .ok y := by
  cases x with
  | error p => cases h
  | ok a => exact ⟨a, rfl, h⟩

theorem map_eq_ok {α β : Type*} {f : α → β} {x : Except π α} {y : β} (h : x.map f = .ok y) :
    ∃ a, x = .ok a ∧ f a = y := by
  cases x with
  | error p => cases h
  | ok a => exact ⟨a, rfl, Except.ok.inj h⟩

/-- The state after `events`, if the machine does not break down on the way. -/
def run (step : σ → ε → Except π σ) (s : σ) (events : List ε) : Except π σ :=
  events.foldlM step s

/-- Every step of the run meets `good`, a condition on the state before the step and the event. -/
def Along (step : σ → ε → Except π σ) (good : σ → ε → Prop) : σ → List ε → Prop
  | _, [] => True
  | s, e :: events => good s e ∧ ∀ s', step s e = .ok s' → Along step good s' events

variable {step : σ → ε → Except π σ}
variable {s : σ} {events : List ε} {good : σ → ε → Prop} {inv : σ → Prop}

theorem run_cons (s : σ) (e : ε) (events : List ε) :
    run step s (e :: events) = step s e >>= fun s' => run step s' events := by
  simp [run, List.foldlM_cons]

theorem run_cons_eq_ok {t : σ} {e : ε} (h : run step s (e :: events) = .ok t) :
    ∃ s', step s e = .ok s' ∧ run step s' events = .ok t := by
  rw [run_cons] at h
  exact bind_eq_ok h

theorem Along.of_forall (h : ∀ s e, good s e) (s : σ) (events : List ε) :
    Along step good s events := by
  induction events generalizing s with
  | nil => trivial
  | cons e events ih => exact ⟨h s e, fun s' _ => ih s'⟩

theorem Along.cons_ok {s' : σ} {e : ε} (hgood : good s e) (hs : step s e = .ok s')
    (h : Along step good s' events) : Along step good s (e :: events) :=
  ⟨hgood, fun _ ht => Except.ok.inj (hs.symm.trans ht) ▸ h⟩

/-- **What every good step keeps, a good run keeps.** -/
theorem run_keeps (hstep : ∀ s e s', inv s → good s e → step s e = .ok s' → inv s') {t : σ}
    (hgood : Along step good s events) (hinv : inv s) (h : run step s events = .ok t) : inv t := by
  induction events generalizing s with
  | nil => cases h; exact hinv
  | cons e events ih =>
    obtain ⟨s', hs, h⟩ := run_cons_eq_ok h
    exact ih (hgood.2 s' hs) (hstep s e s' hinv hgood.1 hs) h

/-- What every step keeps, every run keeps. -/
theorem run_keeps_all (hstep : ∀ s e s', inv s → step s e = .ok s' → inv s') {t : σ} (hinv : inv s)
    (h : run step s events = .ok t) : inv t :=
  have hall : Along step (fun _ _ => True) s events := Along.of_forall (fun _ _ => trivial) s events
  run_keeps (fun s e s' hs _ => hstep s e s' hs) hall hinv h

/-- **If no good step breaks down, no good run does.** -/
theorem run_safe (hstep : ∀ s e, inv s → good s e → ∃ s', step s e = .ok s' ∧ inv s')
    (hgood : Along step good s events) (hinv : inv s) :
    ∃ t, run step s events = .ok t ∧ inv t := by
  induction events generalizing s with
  | nil => exact ⟨s, rfl, hinv⟩
  | cons e events ih =>
    obtain ⟨s', hs, hinv'⟩ := hstep s e hinv hgood.1
    obtain ⟨t, ht, hinvt⟩ := ih (hgood.2 s' hs) hinv'
    exact ⟨t, by rw [run_cons, hs]; exact ht, hinvt⟩

/-- **Two runs whose steps keep a relation end related**, for events that are related in pairs. -/
theorem run_related {step1 : σ₁ → ε₁ → Except π σ₁} {step2 : σ₂ → ε₂ → Except π σ₂}
    {good : σ₁ → ε₁ → Prop} {rel : σ₁ → σ₂ → Prop} {pair : ε₁ → ε₂ → Prop}
    (hstep : ∀ s1 s2 e1 e2 t1 t2, rel s1 s2 → pair e1 e2 → good s1 e1 →
      step1 s1 e1 = .ok t1 → step2 s2 e2 = .ok t2 → rel t1 t2)
    {s1 t1 : σ₁} {s2 t2 : σ₂} {events1 : List ε₁} {events2 : List ε₂}
    (hpair : List.Forall₂ pair events1 events2) (hgood : Along step1 good s1 events1)
    (hrel : rel s1 s2) (h1 : run step1 s1 events1 = .ok t1) (h2 : run step2 s2 events2 = .ok t2) :
    rel t1 t2 := by
  induction hpair generalizing s1 s2 with
  | nil => cases h1; cases h2; exact hrel
  | cons he _ ih =>
    obtain ⟨s1', hs1, h1⟩ := run_cons_eq_ok h1
    obtain ⟨s2', hs2, h2⟩ := run_cons_eq_ok h2
    exact ih (hgood.2 s1' hs1) (hstep _ _ _ _ _ _ hrel he hgood.1 hs1 hs2) h1 h2

end Runs
