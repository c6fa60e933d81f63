import Mathlib.Data.List.Defs

/-!
Two machines that are called in the same way.

A machine takes calls one after another; a call returns something and leaves a state, or
raises an exception and leaves the state it found. One machine refines another when their
states stay related and each call that is legal for the other has the same reply: then the
replies of every legal run are the same (`run_refines`).
-/

namespace Pvllm.Refinement

variable {σ τ C ρ ε : Type*}

def perform (step : σ → C → Except ε (ρ × σ)) (s : σ) (c : C) : Except ε ρ × σ :=
  match step s c with
  | .ok (reply, s') => (.ok reply, s')
  | .error e => (.error e, s)

def run (step : σ → C → Except ε (ρ × σ)) (s : σ) : List C → List (Except ε ρ) × σ
  | [] => ([], s)
  | c :: rest =>
    ((perform step s c).1 :: (run step (perform step s c).2 rest).1,
      (run step (perform step s c).2 rest).2)

def LegalRun (step : τ → C → Except ε (ρ × τ)) (legal : τ → C → Prop) (t : τ) :
    List C → Prop
  | [] => True
  | c :: rest => legal t c ∧ LegalRun step legal (perform step t c).2 rest

/-- The same reply and related states, or the same exception. -/
inductive Agree (R : σ → τ → Prop) : Except ε (ρ × σ) → Except ε (ρ × τ) → Prop
  | ok {s : σ} {t : τ} (reply : ρ) : R s t → Agree R (.ok (reply, s)) (.ok (reply, t))
  | error (e : ε) : Agree R (.error e) (.error e)

variable {R : σ → τ → Prop} {legal : τ → C → Prop}
  {concrete : σ → C → Except ε (ρ × σ)} {spec : τ → C → Except ε (ρ × τ)}

theorem Agree.perform {s : σ} {t : τ} {c : C} (hR : R s t)
    (h : Agree R (concrete s c) (spec t c)) :
    (Refinement.perform concrete s c).1 = (Refinement.perform spec t c).1 ∧
      R (Refinement.perform concrete s c).2 (Refinement.perform spec t c).2 := by
  unfold Refinement.perform
  revert h
  generalize concrete s c = x
  generalize spec t c = y
  intro h
  cases h with
  | ok reply h => exact ⟨rfl, h⟩
  | error e => exact ⟨rfl, hR⟩

/-- What agrees call by call agrees over every legal run. -/
theorem run_refines (hstep : ∀ s t c, R s t → legal t c → Agree R (concrete s c) (spec t c))
    {s : σ} {t : τ} (hR : R s t) {calls : List C} (hlegal : LegalRun spec legal t calls) :
    (run concrete s calls).1 = (run spec t calls).1 ∧
      R (run concrete s calls).2 (run spec t calls).2 := by
  induction calls generalizing s t with
  | nil => exact ⟨rfl, hR⟩
  | cons c rest ih =>
      obtain ⟨hc, hrest⟩ := hlegal
      obtain ⟨hreply, hstate⟩ := (hstep s t c hR hc).perform hR
      obtain ⟨hreplies, hfinal⟩ := ih hstate hrest
      exact ⟨congrArg₂ List.cons hreply hreplies, hfinal⟩

end Pvllm.Refinement
