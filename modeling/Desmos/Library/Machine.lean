import Mathlib.Tactic

/-! # Deterministic machines that answer each input

A machine is a step function from a state and an input to an answer and the
next state. Whole runs are folds of single steps, so every statement about a
run below comes from a statement about one step.
-/
namespace Desmos.Library

variable {σ τ ι ω υ α : Type*}

/-- A transition function that also answers its input. -/
abbrev Machine (σ ι ω : Type*) := σ → ι → ω × σ

variable {is : List ι} {m : Machine σ ι ω} {I p : σ → Prop} {s : σ} {R : σ → τ → Prop}
  {n : Machine τ ι ω}

namespace Machine

/-- The state after a finite run. -/
def final (m : Machine σ ι ω) (s : σ) : List ι → σ
  | [] => s
  | i :: is => final m (m s i).2 is

/-- Every input of a run, paired with its answer. -/
def trace (m : Machine σ ι ω) (s : σ) : List ι → List (ι × ω)
  | [] => []
  | i :: is => (i, (m s i).1) :: trace m (m s i).2 is

@[simp] theorem final_nil (m : Machine σ ι ω) (s : σ) : m.final s [] = s := rfl

@[simp] theorem final_cons (m : Machine σ ι ω) (s : σ) (i : ι) (is : List ι) :
    m.final s (i :: is) = m.final (m s i).2 is := rfl

theorem final_append (m : Machine σ ι ω) (s : σ) (is js : List ι) :
    m.final s (is ++ js) = m.final (m.final s is) js := by
  induction is generalizing s with
  | nil => rfl
  | cons i is ih => exact ih (m s i).2

@[simp] theorem trace_cons (m : Machine σ ι ω) (s : σ) (i : ι) (is : List ι) :
    m.trace s (i :: is) = (i, (m s i).1) :: m.trace (m s i).2 is := rfl

theorem trace_append (m : Machine σ ι ω) (s : σ) (is js : List ι) :
    m.trace s (is ++ js) = m.trace s is ++ m.trace (m.final s is) js := by
  induction is generalizing s with
  | nil => rfl
  | cons i is ih => exact congrArg _ (ih (m s i).2)

variable {i : ι} {q : ι → Prop} {f : List ι → σ → ι → List α} {t : τ}

/-- The answer at a position is the one that the state before it gives. -/
theorem trace_getElem? (m : Machine σ ι ω) (s : σ) {j : ℕ} (h : is[j]? = some i) :
    (m.trace s is)[j]? = some (i, (m (m.final s (is.take j)) i).1) := by
  induction is generalizing s j with
  | nil => cases h
  | cons i' is ih =>
    cases j with
    | zero =>
      cases h
      rfl
    | succ j => exact ih (m s i').2 h

/-- What every step with an answer in `p` keeps, every run with such answers keeps. -/
theorem final_invariant_of_trace {p : ι × ω → Prop}
    (hstep : ∀ s i, I s → p (i, (m s i).1) → I (m s i).2) (hs : I s)
    (hp : ∀ e ∈ m.trace s is, p e) : I (m.final s is) := by
  induction is generalizing s with
  | nil => exact hs
  | cons i is ih =>
    exact ih (hstep s i hs (hp _ List.mem_cons_self)) fun e he => hp e (List.mem_cons_of_mem _ he)

/-- What every step keeps, every run keeps. -/
theorem final_invariant
    (hstep : ∀ s i, I s → I (m s i).2) (hs : I s) (is : List ι) : I (m.final s is) :=
  final_invariant_of_trace (fun s i h _ => hstep s i h) hs fun _ _ => trivial

/-- What an invariant says of a single answer to an input in `q` holds of every answer of a run
on such inputs. -/
theorem trace_invariant_on {p : ι × ω → Prop}
    (hstep : ∀ s i, I s → q i → I (m s i).2 ∧ p (i, (m s i).1)) (hs : I s)
    (hq : ∀ i ∈ is, q i) : ∀ e ∈ m.trace s is, p e := by
  induction is generalizing s with
  | nil => simp [trace]
  | cons i is ih =>
    obtain ⟨hnext, hanswer⟩ := hstep s i hs (hq i List.mem_cons_self)
    rw [trace_cons, List.forall_mem_cons]
    exact ⟨hanswer, ih hnext fun j hj => hq j (List.mem_cons_of_mem _ hj)⟩

/-- What an invariant says of a single answer holds of every answer of a run. -/
theorem trace_invariant {p : ι × ω → Prop}
    (hstep : ∀ s i, I s → I (m s i).2) (hanswer : ∀ s i, I s → p (i, (m s i).1)) (hs : I s)
    : ∀ e ∈ m.trace s is, p e :=
  trace_invariant_on (q := fun _ => True) (fun s i h _ => ⟨hstep s i h, hanswer s i h⟩) hs
    fun _ _ => trivial

@[simp] theorem final_concat (m : Machine σ ι ω) (s : σ) (is : List ι) (i : ι) :
    m.final s (is ++ [i]) = (m (m.final s is) i).2 := by
  rw [final_append, final_cons, final_nil]

/-- The invariant may speak of the inputs so far. -/
theorem final_history {I : List ι → σ → Prop} (hs : I [] s)
    (hstep : ∀ past i, I past (m.final s past) → I (past ++ [i]) (m (m.final s past) i).2)
    (is : List ι) : I is (m.final s is) := by
  induction is using List.reverseRecOn with
  | nil => exact hs
  | append_singleton past i ih =>
    rw [final_concat]
    exact hstep past i ih

/-- What `f` sees along a run: the inputs so far, the state they lead to and the next input. -/
def along (m : Machine σ ι ω) (s : σ) (f : List ι → σ → ι → List α) (is : List ι) : List α :=
  (List.range is.length).flatMap fun n =>
    (is[n]?).elim [] (f (is.take n) (m.final s (is.take n)))

theorem along_concat (m : Machine σ ι ω) (s : σ) (f : List ι → σ → ι → List α) (is : List ι)
    (i : ι) : m.along s f (is ++ [i]) = m.along s f is ++ f is (m.final s is) i := by
  have hearly : ∀ n ∈ List.range is.length,
      ((is ++ [i])[n]?).elim [] (f ((is ++ [i]).take n) (m.final s ((is ++ [i]).take n))) =
        (is[n]?).elim [] (f (is.take n) (m.final s (is.take n))) := by
    intro n hn
    have hlt := List.mem_range.mp hn
    rw [List.getElem?_append_left hlt, List.take_append_of_le_length hlt.le]
  rw [along, List.length_append, List.length_singleton, List.range_succ, List.flatMap_append,
    List.flatMap_congr hearly]
  simp [along]

/-- The splits of a run at one of its inputs are those of the run before its last input, and the
one at the last input. -/
theorem forall_split_concat {p : List ι → ι → Prop} :
    (∀ early j late, is ++ [i] = early ++ j :: late → p early j) ↔
      (∀ early j late, is = early ++ j :: late → p early j) ∧ p is i := by
  constructor
  · intro h
    exact ⟨fun early j late hsplit => h early j (late ++ [i]) (by rw [hsplit]; simp),
      h is i [] rfl⟩
  · rintro ⟨hearly, hlast⟩ early j late h
    rcases List.eq_nil_or_concat' late with rfl | ⟨late, k, rfl⟩
    · obtain ⟨rfl, heq⟩ := List.append_inj' h rfl
      cases heq
      exact hlast
    · have hsplit : is ++ [i] = (early ++ j :: late) ++ [k] := by
        rw [h]
        simp
      exact hearly early j late (List.append_inj' hsplit rfl).1

theorem mem_along {a : α} : a ∈ m.along s f is ↔
      ∃ early i late, is = early ++ i :: late ∧ a ∈ f early (m.final s early) i := by
  rw [← not_iff_not]
  push Not
  induction is using List.reverseRecOn with
  | nil => simp [along]
  | append_singleton is i ih =>
    rw [along_concat, List.mem_append, not_or, ih,
      forall_split_concat (p := fun early i => a ∉ f early (m.final s early) i)]

/-- What is seen along a run is in order if what is seen at each input is, and comes after all
that was seen before. -/
theorem along_pairwise_iff {R : α → α → Prop} :
    (m.along s f is).Pairwise R ↔ ∀ early i late, is = early ++ i :: late →
      (f early (m.final s early) i).Pairwise R ∧
        ∀ a ∈ m.along s f early, ∀ b ∈ f early (m.final s early) i, R a b := by
  induction is using List.reverseRecOn with
  | nil => simp [along]
  | append_singleton is i ih =>
    rw [along_concat, List.pairwise_append, ih, forall_split_concat
      (p := fun early i => (f early (m.final s early) i).Pairwise R ∧
        ∀ a ∈ m.along s f early, ∀ b ∈ f early (m.final s early) i, R a b)]

/-- From the end of `early` to the end of `late`, every state is in `p`. -/
def HeldSince (m : Machine σ ι ω) (s : σ) (p : σ → Prop) (early late : List ι) : Prop :=
  ∀ mid, mid <+: late → p (m.final s (early ++ mid))

theorem HeldSince.start {early : List ι}
    (h : p (m.final s early)) : m.HeldSince s p early [] := by
  intro mid hmid
  rw [List.prefix_nil.mp hmid, List.append_nil]
  exact h

theorem HeldSince.concat {early late : List ι}
    (h : m.HeldSince s p early late) (hi : p (m.final s (early ++ late ++ [i]))) :
    m.HeldSince s p early (late ++ [i]) := by
  intro mid hmid
  rcases List.prefix_concat_iff.mp hmid with rfl | hmid
  · rw [← List.append_assoc]
    exact hi
  · exact h mid hmid

/-- The input with number `n` brought the state into `p`, where it has been ever since. -/
def BeganAt (m : Machine σ ι ω) (s : σ) (p : σ → Prop) (is : List ι) (n : ℕ) : Prop :=
  ∃ early i late, is = early ++ i :: late ∧ early.length = n ∧ ¬ p (m.final s early) ∧
    m.HeldSince s p (early ++ [i]) late

theorem BeganAt.lt_length {n : ℕ}
    (h : m.BeganAt s p is n) : n < is.length := by
  obtain ⟨early, i, late, rfl, rfl, -⟩ := h
  rw [List.length_append, List.length_cons]
  omega

theorem BeganAt.start (hout : ¬ p (m.final s is)) (hin : p (m.final s (is ++ [i]))) :
    m.BeganAt s p (is ++ [i]) is.length :=
  ⟨is, i, [], rfl, rfl, hout, HeldSince.start hin⟩

theorem BeganAt.concat {n : ℕ} (h : m.BeganAt s p is n) (hin : p (m.final s (is ++ [i]))) :
    m.BeganAt s p (is ++ [i]) n := by
  obtain ⟨early, j, late, rfl, hn, hout, hheld⟩ := h
  refine ⟨early, j, late ++ [i], by simp, hn, hout, hheld.concat ?_⟩
  rw [List.append_assoc early [j] late]
  exact hin

/-- One machine's states and answers follow another's, step by step. -/
def Simulates (m : Machine σ ι ω) (n : Machine τ ι ω) (R : σ → τ → Prop) : Prop :=
  ∀ s t i, R s t → (m s i).1 = (n t i).1 ∧ R (m s i).2 (n t i).2

theorem Simulates.final
    (h : m.Simulates n R) (hst : R s t) (is : List ι) :
    R (m.final s is) (n.final t is) := by
  induction is generalizing s t with
  | nil => exact hst
  | cons i is ih => exact ih (h s t i hst).2

theorem Simulates.trace
    (h : m.Simulates n R) (hst : R s t) (is : List ι) :
    m.trace s is = n.trace t is := by
  induction is generalizing s t with
  | nil => rfl
  | cons i is ih =>
    obtain ⟨ha, hr⟩ := h s t i hst
    rw [trace_cons, trace_cons, ha, ih hr]

/-- Answers that correspond step by step correspond along a run. -/
theorem trace_forall₂ {n : Machine τ ι υ} {A : ω → υ → Prop}
    {p : ι → Prop} (h : ∀ s t i, R s t → p i → A (m s i).1 (n t i).1 ∧ R (m s i).2 (n t i).2)
    (hst : R s t) (hp : ∀ i ∈ is, p i) :
    List.Forall₂ (fun a b => a.1 = b.1 ∧ A a.2 b.2) (m.trace s is) (n.trace t is) := by
  induction is generalizing s t with
  | nil => exact .nil
  | cons i is ih =>
    obtain ⟨ha, hr⟩ := h s t i hst (hp i List.mem_cons_self)
    exact .cons ⟨rfl, ha⟩ (ih hr fun j hj => hp j (List.mem_cons_of_mem _ hj))

/-- In the run on `is`, no input outside `p` moves the state it meets. -/
def QuietOutside (m : Machine σ ι ω) (p : ι → Bool) (s : σ) : List ι → Prop
  | [] => True
  | i :: is => (p i = false → (m s i).2 = s) ∧ m.QuietOutside p (m s i).2 is

/-- Inputs that move nothing can be removed from a run: the others get the
answers they would have got without them. -/
theorem trace_filter {p : ι → Bool}
    (h : m.QuietOutside p s is) :
    (m.trace s is).filter (fun e => p e.1) = m.trace s (is.filter p) := by
  induction is generalizing s with
  | nil => rfl
  | cons i is ih =>
    rw [trace_cons]
    by_cases hp : p i = true
    · rw [List.filter_cons_of_pos (by simpa using hp), List.filter_cons_of_pos hp, trace_cons,
        ih h.2]
    · have hq : (m s i).2 = s := h.1 (by simpa using hp)
      rw [List.filter_cons_of_neg (by simpa using hp), List.filter_cons_of_neg (by simpa using hp),
        ih h.2, hq]

/-- Inputs that the relation does not see can be removed from a run: the others get the answers
they would have got without them. The relation may speak of the inputs still to come. -/
theorem trace_filter_of_blind_ahead {p : ι → Bool}
    {R : List ι → σ → τ → Prop}
    (hblind : ∀ s t i is, R (i :: is) s t → p i = false → R is (m s i).2 t)
    (hseen : ∀ s t i is, R (i :: is) s t → p i = true →
      (m s i).1 = (n t i).1 ∧ R is (m s i).2 (n t i).2) (hst : R is s t) :
    (m.trace s is).filter (fun e => p e.1) = n.trace t (is.filter p) := by
  induction is generalizing s t with
  | nil => rfl
  | cons i is ih =>
    rw [trace_cons]
    by_cases hp : p i = true
    · have hstep := hseen s t i is hst hp
      rw [List.filter_cons_of_pos (by simpa using hp), List.filter_cons_of_pos hp, trace_cons,
        ih hstep.2, hstep.1]
    · have hq : p i = false := by simpa using hp
      rw [List.filter_cons_of_neg (by simpa using hp), List.filter_cons_of_neg (by simpa using hp)]
      exact ih (hblind s t i is hst hq)

theorem trace_filter_of_blind {p : ι → Bool}
    (hblind : ∀ s t i, R s t → p i = false → R (m s i).2 t)
    (hseen : ∀ s t i, R s t → p i = true → (m s i).1 = (n t i).1 ∧ R (m s i).2 (n t i).2)
    (hst : R s t) (is : List ι) :
    (m.trace s is).filter (fun e => p e.1) = n.trace t (is.filter p) :=
  trace_filter_of_blind_ahead (R := fun _ => R) (fun s t i _ => hblind s t i)
    (fun s t i _ => hseen s t i) hst

/-- If every answer in `p` is paid for out of a potential, a run has no more of them than the
potential it starts with pays for. -/
theorem countP_le_potential {p : ι × ω → Bool} (potential : σ → ℕ) (price : ℕ)
    (hstep : ∀ s i, I s → q i → I (m s i).2 ∧
      price * (p (i, (m s i).1)).toNat + potential (m s i).2 ≤ potential s)
    (hs : I s) (hq : ∀ i ∈ is, q i) :
    price * (m.trace s is).countP p ≤ potential s := by
  induction is generalizing s with
  | nil => simp [trace]
  | cons i is ih =>
    have hone := hstep s i hs (hq i List.mem_cons_self)
    have hrest := ih hone.1 fun j hj => hq j (List.mem_cons_of_mem _ hj)
    rw [trace_cons]
    cases hp : p (i, (m s i).1) with
    | false =>
      rw [List.countP_cons_of_neg (by simp [hp])]
      omega
    | true =>
      have hpaid := hone.2
      rw [hp, Bool.toNat_true] at hpaid
      rw [List.countP_cons_of_pos hp, Nat.mul_add]
      omega

end Machine

end Desmos.Library
