import Mathlib.Tactic

/-! # Programs that can stop and can fail

A program in `ExceptT ε Option` stops, fails with an error or returns. It agrees with a computation
in `Except` if it does not stop and has the same outcome.
-/
namespace Desmos.Library

universe u
variable {ε α β : Type u}

/-- The program does not stop, and its outcome is the given one. -/
def Agrees (x : ExceptT ε Option α) (y : Except ε α) : Prop := x.run = some y

variable {f : α → ExceptT ε Option β}

namespace Agrees

theorem ok (a : α) : Agrees (pure a : ExceptT ε Option α) (.ok a) := rfl

theorem error (e : ε) : Agrees (throw e : ExceptT ε Option α) (.error e) := rfl

/-- The values of the two computations need not be of one type. -/
theorem bindMap {γ : Type u} {x : ExceptT ε Option α} {y : Except ε γ} {v : γ → α}
    {g : γ → Except ε β} (hx : Agrees x (y.map v))
    (hf : ∀ c, y = .ok c → Agrees (f (v c)) (g c)) : Agrees (x >>= f) (y >>= g) := by
  have hrun : (x >>= f).run = x.run.bind fun
      | .ok a => (f a).run
      | .error e => some (.error e) := rfl
  unfold Agrees at hx ⊢
  rw [hrun, hx]
  cases y with
  | error e => rfl
  | ok c => exact hf c rfl

/-- A step that can only stop, and does not. -/
theorem step {x : Option α} {a : α} {y : Except ε β} (hx : x = some a)
    (hf : Agrees (f a) y) : Agrees ((liftM x : ExceptT ε Option α) >>= f) y := by
  subst hx
  exact hf

theorem ite {c : Prop} [Decidable c] {x x' : ExceptT ε Option α} {y y' : Except ε α}
    (h : c → Agrees x y) (h' : ¬ c → Agrees x' y') :
    Agrees (if c then x else x') (if c then y else y') := by
  by_cases hc : c
  · rw [if_pos hc, if_pos hc]
    exact h hc
  · rw [if_neg hc, if_neg hc]
    exact h' hc

end Agrees

end Desmos.Library
