import Desmos.Library.Machine

/-! # Threads that share a state

A thread runs a program of atomic steps over a shared state and a state of its own. A schedule picks
which thread steps next, so every interleaving is a run of one machine.
-/
namespace Desmos.Library

variable {κ σ τ ι ω : Type*}

/-- One atomic step of a thread: its answer, the shared state and its own state. -/
abbrev Program (σ τ ι ω : Type*) := σ → τ → ι → ω × σ × τ

/-- A shared state with the threads that work on it. -/
structure Pool (κ σ τ : Type*) where
  shared : σ
  threads : κ → τ

variable {prog : κ → Program σ τ ι ω} {A : κ → σ → τ → Prop}

namespace Pool

/-- The threads `κ`, each with its own program, interleaved by a schedule. -/
def interleave [DecidableEq κ] (prog : κ → Program σ τ ι ω) : Machine (Pool κ σ τ) (κ × ι) ω :=
  fun p e =>
    let (answer, shared, own) := prog e.1 p.shared (p.threads e.1) e.2
    (answer, ⟨shared, Function.update p.threads e.1 own⟩)

/-- A shared invariant together with an assertion about every thread. -/
structure Holds (I : σ → Prop) (A : κ → σ → τ → Prop) (p : Pool κ σ τ) : Prop where
  shared : I p.shared
  threads : ∀ k, A k p.shared (p.threads k)

variable {I : σ → Prop} {p : Pool κ σ τ}

section
variable
  (own : ∀ k s t i, I s → A k s t → I (prog k s t i).2.1 ∧ A k (prog k s t i).2.1 (prog k s t i).2.2)
  (other : ∀ k j s t i u, j ≠ k → I s → A k s t → A j s u → A j (prog k s t i).2.1 u)
include own other

/-- A step keeps its own thread's assertion, and those of the others by not interfering. -/
theorem Holds.step [DecidableEq κ]
    (h : p.Holds I A) (e : κ × ι) : (interleave prog p e).2.Holds I A := by
  obtain ⟨hI, hA⟩ := own e.1 p.shared (p.threads e.1) e.2 h.shared (h.threads e.1)
  refine ⟨hI, fun k => ?_⟩
  by_cases hk : k = e.1
  · subst hk
    simpa [interleave] using hA
  · simpa [interleave, Function.update_of_ne hk] using
      other e.1 k p.shared (p.threads e.1) e.2 (p.threads k) hk h.shared (h.threads e.1)
        (h.threads k)

/-- What holds at the start holds after every interleaving. -/
theorem Holds.final [DecidableEq κ]
    (h : p.Holds I A) (schedule : List (κ × ι)) :
    ((interleave prog).final p schedule).Holds I A :=
  Machine.final_invariant (I := Holds I A) (fun _ e hp => hp.step own other e) h schedule

/-- What the assertions say of one step's answer holds of every answer. -/
theorem Holds.trace [DecidableEq κ] {q : ω → Prop}
    (answer : ∀ k s t i, I s → A k s t → q (prog k s t i).1) (h : p.Holds I A)
    (schedule : List (κ × ι)) :
    ∀ e ∈ (interleave prog).trace p schedule, q e.2 :=
  Machine.trace_invariant (I := Holds I A) (p := fun e => q e.2)
    (fun _ e hp => hp.step own other e)
    (fun p e hp => answer e.1 p.shared (p.threads e.1) e.2 hp.shared (hp.threads e.1)) h

end

end Pool

end Desmos.Library
