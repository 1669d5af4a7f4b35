import Mathlib.Tactic

/-! # Total correctness of programs that may stop

`Returns x Q` says that a computation in `Option` returns and that the result satisfies `Q`; the
rules below follow the program.
-/
namespace Desmos.Library

universe u

variable {α β : Type u} {σ τ : Type*}

/-- The program does not stop, and `Q` holds of what it returns. -/
def Returns (x : Option α) (Q : α → Prop) : Prop := ∃ a, x = some a ∧ Q a

namespace Returns

theorem pure {Q : α → Prop} {a : α} (h : Q a) : Returns (some a) Q := ⟨a, rfl, h⟩

theorem bind {x : Option α} {f : α → Option β} {P : α → Prop} {Q : β → Prop}
    (hx : Returns x P) (hf : ∀ a, P a → Returns (f a) Q) : Returns (x >>= f) Q := by
  obtain ⟨a, rfl, ha⟩ := hx
  exact hf a ha

theorem mono {x : Option α} {P Q : α → Prop} (hx : Returns x P) (h : ∀ a, P a → Q a) :
    Returns x Q := by
  obtain ⟨a, rfl, ha⟩ := hx
  exact ⟨a, rfl, h a ha⟩

theorem ite {c : Prop} [Decidable c] {x y : Option α} {Q : α → Prop} (hx : c → Returns x Q)
    (hy : ¬ c → Returns y Q) : Returns (if c then x else y) Q := by
  by_cases h : c
  · rw [if_pos h]
    exact hx h
  · rw [if_neg h]
    exact hy h

variable {n : ℕ} {s : σ}

/-- A counting loop whose steps keep `J` and add `w i` to a measure of the state. -/
theorem foldlM_sum {A : Type*} [AddCommMonoid A] {body : σ → Fin n → Option σ}
    (J : ℕ → σ → Prop) (m : σ → A) (w : Fin n → A)
    (step : ∀ i s, J i.val s → Returns (body s i) fun s' => J (i.val + 1) s' ∧ m s' = m s + w i)
    (h0 : J 0 s) :
    Returns (Fin.foldlM n body s) fun s' => J n s' ∧ m s' = m s + ∑ i, w i := by
  induction n with
  | zero =>
    rw [Fin.foldlM_zero]
    exact Returns.pure ⟨h0, by simp⟩
  | succ n ih =>
    rw [Fin.foldlM_succ_last]
    apply Returns.bind (ih (fun i => w i.castSucc) fun i s h => step i.castSucc s h)
    rintro s' ⟨hJ, hm⟩
    apply Returns.mono (step (Fin.last n) s' hJ)
    rintro s'' ⟨hJ', hm'⟩
    exact ⟨hJ', by rw [hm', hm, Fin.sum_univ_castSucc, add_assoc]⟩

/-- A counting loop with an invariant that may depend on the counter. -/
theorem foldlM {body : σ → Fin n → Option σ} (J : ℕ → σ → Prop)
    (step : ∀ i s, J i.val s → Returns (body s i) (J (i.val + 1))) (h0 : J 0 s) :
    Returns (Fin.foldlM n body s) (J n) := by
  have h := foldlM_sum J (fun _ => 0) (fun _ => (0 : ℕ))
    (fun i s hs => (step i s hs).mono fun _ h => ⟨h, rfl⟩) h0
  exact h.mono fun _ h => h.1

/-- A loop that counts down, with an invariant about the counter. -/
theorem foldrM {body : Fin n → σ → Option σ} (J : ℕ → σ → Prop)
    (step : ∀ i s, J (i.val + 1) s → Returns (body i s) (J i.val)) (hn : J n s) :
    Returns (Fin.foldrM n body s) (J 0) := by
  induction n generalizing J with
  | zero =>
    rw [Fin.foldrM_zero]
    exact Returns.pure hn
  | succ n ih =>
    rw [Fin.foldrM_succ]
    exact Returns.bind (ih (fun k => J (k + 1)) (fun i s h => step i.succ s h) hn) (step 0)

/-- A loop that counts down, run in lock step with a pure one. -/
theorem foldrM_simulates {body : Fin n → σ → Option σ} {g : Fin n → τ → τ}
    (R : σ → τ → Prop) (step : ∀ i s t, R s t → Returns (body i s) fun s' => R s' (g i t)) {t : τ}
    (h : R s t) :
    Returns (Fin.foldrM n body s) fun s' => R s' (Fin.foldr n g t) := by
  induction n generalizing s t with
  | zero =>
    rw [Fin.foldrM_zero, Fin.foldr_zero]
    exact Returns.pure h
  | succ n ih =>
    rw [Fin.foldrM_succ, Fin.foldr_succ]
    exact Returns.bind (ih (fun i => step i.succ) h) fun s' h' => step 0 s' _ h'

end Returns

/-- A pure counting loop with an invariant that may depend on the counter. -/
theorem foldl_invariant {n : ℕ} {body : σ → Fin n → σ} (J : ℕ → σ → Prop)
    (step : ∀ i s, J i.val s → J (i.val + 1) (body s i)) {s : σ} (h0 : J 0 s) :
    J n (Fin.foldl n body s) := by
  induction n with
  | zero =>
    exact h0
  | succ n ih =>
    rw [Fin.foldl_succ_last]
    exact step (Fin.last n) _ (ih fun i s h => step i.castSucc s h)

end Desmos.Library
