import Desmos.Core.Session

/-! # The nonces of concurrent senders

Threads that share a session interleave between drawing a number and sealing with it. The counter
wraps on the call after the refused one, so nonces are unique as long as a session makes no more
than `2 ^ 64` calls.
-/
namespace Desmos.Core
open Library Proto

/-- A thread enters `encryptPacket` and draws its number, or the `i`-th call in
flight runs to its end. -/
inductive SendEvent where
  | call (plaintext : Bytes)
  | resume (i : ℕ)

structure SendRun where
  session : Session Established
  inFlight : List (UInt64 × Bytes)
  draws : List (UInt64 × Bytes)
  nonces : List Nonce

namespace SendRun

def start (s : Session Established) : SendRun :=
  { session := s, inFlight := [], draws := [], nonces := [] }

/-- The nonces a call handed to the AEAD: one, unless it was refused before. -/
def sealedUnder (seq : UInt64) : Except SessionError (UInt64 × Bytes) → List Nonce
  | .error .counterOverflow => []
  | _ => [buildNonce seq]

/-- One scheduled event; a call that runs to its end answers its caller. -/
def step (P : Primitives) : Machine SendRun SendEvent (Option (Except SessionError (UInt64 × Bytes)))
  | r, .call plaintext =>
    let (seq, session) := r.session.fetchAdd
    (none, { r with
      session := session
      inFlight := r.inFlight ++ [(seq, plaintext)]
      draws := r.draws ++ [(seq, plaintext)] })
  | r, .resume i =>
    match r.inFlight[i]? with
    | none => (none, r)
    | some (seq, plaintext) =>
      let answer := r.session.sealWith P seq plaintext
      (some answer, { r with
        inFlight := r.inFlight.eraseIdx i
        nonces := r.nonces ++ sealedUnder seq answer })

def calls : List SendEvent → ℕ
  | [] => 0
  | .call _ :: es => calls es + 1
  | .resume _ :: es => calls es

end SendRun

theorem Session.sealWith_overflow_iff (P : Primitives) (s : Session Established) (seq : UInt64)
    (pt : Bytes) : s.sealWith P seq pt = .error .counterOverflow ↔ seq = 0xFFFFFFFFFFFFFFFF := by
  unfold sealWith
  by_cases h : seq = 0xFFFFFFFFFFFFFFFF
  · simp [h]
  · cases s.state.sendKey.sealInPlace P (buildNonce seq) (buildAad s.id seq) pt with
    | error e => simp [h]
    | ok buf => simp [h]

namespace SendRun
variable {P : Primitives} {s : Session Established} {r : SendRun}

theorem sealedUnder_sealWith (P : Primitives) (s : Session Established) (seq : UInt64)
    (pt : Bytes) :
    sealedUnder seq (s.sealWith P seq pt) =
      if seq = 0xFFFFFFFFFFFFFFFF then [] else [buildNonce seq] := by
  split_ifs with h
  · rw [(s.sealWith_overflow_iff P seq pt).mpr h, sealedUnder]
  · have hne := mt (s.sealWith_overflow_iff P seq pt).mp h
    unfold sealedUnder
    split
    · exact absurd ‹_› hne
    · rfl

def draw (s : Session Established) (i : ℕ) : UInt64 := s.state.sendCounter + UInt64.ofNat i

theorem draw_toNat (s : Session Established) (i : ℕ) :
    (draw s i).toNat = (s.state.sendCounter.toNat + i) % 2 ^ 64 := by
  simp [draw]

/-- Numbers are drawn in order, and what was sealed or may still be sealed was
drawn, each draw once. -/
structure Invariant (s : Session Established) (r : SendRun) : Prop where
  counter : r.session.state.sendCounter = draw s r.draws.length
  drawn : r.draws.map Prod.fst = (List.range r.draws.length).map (draw s)
  spent : ∃ used : List UInt64, r.nonces = used.map buildNonce ∧
    (used ++ r.inFlight.map Prod.fst).Subperm (r.draws.map Prod.fst)

theorem start_invariant (s : Session Established) : Invariant s (start s) where
  counter := by simp [start, draw]
  drawn := rfl
  spent := ⟨[], rfl, by simp [start]⟩

theorem Invariant.call (h : Invariant s r) (pt : Bytes) :
    Invariant s (step P r (.call pt)).2 where
  counter := by
    simp only [step, Session.fetchAdd, h.counter, draw, List.length_append, List.length_singleton,
      UInt64.add_assoc, UInt64.ofNat_add]
    rfl
  drawn := by
    simp [step, Session.fetchAdd, h.counter, h.drawn, List.range_succ]
  spent := by
    obtain ⟨used, hn, hp⟩ := h.spent
    refine ⟨used, hn, ?_⟩
    simp only [step, List.map_append, ← List.append_assoc]
    exact hp.append (List.Subperm.refl _)

theorem Invariant.resume (h : Invariant s r) (i : ℕ) :
    Invariant s (step P r (.resume i)).2 := by
  simp only [step]
  rcases hi : r.inFlight[i]? with _ | ⟨seq, pt⟩
  · exact h
  · obtain ⟨hlt, he⟩ := List.getElem?_eq_some_iff.mp hi
    have hperm : (seq :: (r.inFlight.eraseIdx i).map Prod.fst).Perm (r.inFlight.map Prod.fst) := by
      have := (List.getElem_cons_eraseIdx_perm hlt).map Prod.fst
      rwa [he] at this
    obtain ⟨used, hn, hp⟩ := h.spent
    have hall : (used ++ [seq] ++ (r.inFlight.eraseIdx i).map Prod.fst).Subperm
        (r.draws.map Prod.fst) := by
      rw [List.append_assoc]
      exact (hperm.append_left used).subperm.trans hp
    refine ⟨h.counter, h.drawn, ?_⟩
    simp only [sealedUnder_sealWith]
    split_ifs with ho
    · refine ⟨used, by simpa using hn, List.Subperm.trans ?_ hall⟩
      rw [List.append_assoc]
      exact (List.Subperm.refl used).append (List.sublist_cons_self _ _).subperm
    · exact ⟨used ++ [seq], by simp [hn], hall⟩

theorem step_invariant (e : SendEvent) (h : Invariant s r) : Invariant s (step P r e).2 := by
  cases e with
  | call pt => exact h.call pt
  | resume i => exact h.resume i

theorem draws_length (r : SendRun) (es : List SendEvent) :
    ((step P).final r es).draws.length = r.draws.length + calls es := by
  induction es generalizing r with
  | nil => rfl
  | cons e es ih =>
    rw [Machine.final_cons, ih]
    cases e with
    | call pt =>
      simp only [step, calls, List.length_append, List.length_singleton]
      omega
    | resume i =>
      simp only [step, calls]
      rcases r.inFlight[i]? with _ | ⟨seq, pt⟩ <;> rfl

theorem draw_inj {i j n : ℕ} (hn : s.state.sendCounter.toNat + n ≤ 2 ^ 64) (hi : i < n) (hj : j < n)
    (h : draw s i = draw s j) : i = j := by
  have hv := congrArg UInt64.toNat h
  rw [draw_toNat, draw_toNat, Nat.mod_eq_of_lt (by omega), Nat.mod_eq_of_lt (by omega)] at hv
  omega

theorem Invariant.nonces_nodup (h : Invariant s r)
    (hn : s.state.sendCounter.toNat + r.draws.length ≤ 2 ^ 64) : r.nonces.Nodup := by
  have hd : (r.draws.map Prod.fst).Nodup := by
    rw [h.drawn]
    refine List.Nodup.map_on ?_ List.nodup_range
    intro i hi j hj he
    exact draw_inj hn (List.mem_range.mp hi) (List.mem_range.mp hj) he
  obtain ⟨used, hu, l, hl, hsub⟩ := h.spent
  have hused : used.Nodup := (List.nodup_append.mp (hl.nodup_iff.mp (hsub.nodup hd))).1
  rw [hu]
  exact hused.map buildNonce_injective

theorem Invariant.getElem_draws (h : Invariant s r) {i : ℕ} (hi : i < r.draws.length) :
    (r.draws[i]).1 = draw s i := by
  have hm : (r.draws.map Prod.fst)[i]? = ((List.range r.draws.length).map (draw s))[i]? := by
    rw [h.drawn]
  simpa [hi] using hm

end SendRun

variable (P : Primitives)

/-- A call refused for exhaustion is only ever followed by refused calls. -/
def SendRun.StaysRefused (r : SendRun) : Prop :=
  r.draws.Pairwise fun a b => r.session.sealWith P a.1 a.2 = .error .counterOverflow →
    r.session.sealWith P b.1 b.2 = .error .counterOverflow

theorem SendRun.Invariant.staysRefused_iff {P : Primitives} {s : Session Established} {r : SendRun}
    (h : SendRun.Invariant s r) :
    r.StaysRefused P ↔ s.state.sendCounter.toNat + r.draws.length ≤ 2 ^ 64 := by
  have hlt := s.state.sendCounter.toNat_lt
  have hmax (i : ℕ) : draw s i = 0xFFFFFFFFFFFFFFFF ↔
      (s.state.sendCounter.toNat + i) % 2 ^ 64 = 2 ^ 64 - 1 := by
    rw [← UInt64.toNat_inj, draw_toNat]
    rfl
  simp only [StaysRefused, List.pairwise_iff_getElem, Session.sealWith_overflow_iff]
  constructor
  · intro hp
    by_contra hgt
    have hi : 2 ^ 64 - 1 - s.state.sendCounter.toNat < r.draws.length := by omega
    have hj : 2 ^ 64 - s.state.sendCounter.toNat < r.draws.length := by omega
    have hr := hp _ _ hi hj (by omega)
    rw [h.getElem_draws hi, h.getElem_draws hj, hmax, hmax] at hr
    omega
  · intro hle i j hi hj hij hr
    rw [h.getElem_draws hi, hmax, Nat.mod_eq_of_lt (by omega)] at hr
    omega

/-- For every schedule of calls on a session, in any interleaving: no nonce is
used twice and exhaustion is final if and only if the calls fit into what is
left of the 64-bit counter. -/
theorem encryptPacket_nonces_unique_iff (P : Primitives) (s : Session Established)
    (es : List SendEvent) :
    ((SendRun.step P).final (SendRun.start s) es).nonces.Nodup ∧
      ((SendRun.step P).final (SendRun.start s) es).StaysRefused P ↔
        s.state.sendCounter.toNat + SendRun.calls es ≤ 2 ^ 64 := by
  have hinv : SendRun.Invariant s ((SendRun.step P).final (SendRun.start s) es) :=
    Machine.final_invariant (fun _ e h => SendRun.step_invariant e h) (SendRun.start_invariant s) es
  have hlen : ((SendRun.step P).final (SendRun.start s) es).draws.length = SendRun.calls es := by
    rw [SendRun.draws_length]
    simp [SendRun.start]
  rw [hinv.staysRefused_iff, hlen]
  constructor
  · exact fun h => h.2
  · exact fun h => ⟨hinv.nonces_nodup (by rwa [hlen]), h⟩

namespace SendRun

/-- One thread that makes `n` calls, each running to its end before the next. -/
def oneByOne : ℕ → List SendEvent
  | 0 => []
  | n + 1 => oneByOne n ++ [.call [], .resume 0]

theorem oneByOne_nonces (s : Session Established) (n : ℕ) :
    let r := (step P).final (start s) (oneByOne n)
    r.session.state.sendCounter = draw s n ∧ r.inFlight = [] ∧
      r.nonces =
        (((List.range n).map (draw s)).filter (· ≠ 0xFFFFFFFFFFFFFFFF)).map buildNonce := by
  induction n with
  | zero => simp [oneByOne, start, draw]
  | succ n ih =>
    obtain ⟨hc, hf, hn⟩ := ih
    rw [oneByOne, Machine.final_append]
    generalize (step P).final (start s) (oneByOne n) = r at hc hf hn
    simp only [Machine.final_cons, Machine.final_nil, step, Session.fetchAdd, hf, List.nil_append,
      List.getElem?_cons_zero, List.eraseIdx_cons_zero, sealedUnder_sealWith, hn, hc]
    refine ⟨?_, trivial, ?_⟩
    · simp only [draw, UInt64.ofNat_add, UInt64.add_assoc]
      rfl
    · rw [List.range_succ, List.map_append, List.filter_append, List.map_append]
      by_cases hm : draw s n = 0xFFFFFFFFFFFFFFFF <;> simp [hm]

theorem oneByOne_reuse (s : Session Established) {n : ℕ} (hn : 0 < n)
    (hw : draw s n = draw s 0) (h0 : draw s 0 ≠ 0xFFFFFFFFFFFFFFFF) :
    ¬ ((step P).final (start s) (oneByOne (n + 1))).nonces.Nodup := by
  rw [(oneByOne_nonces P s (n + 1)).2.2]
  have hsub : [0, n].Sublist (List.range (n + 1)) := by
    rw [List.range_succ]
    exact (List.singleton_sublist.mpr (List.mem_range.mpr hn)).append (List.Sublist.refl [n])
  have hdup :=
    ((hsub.map (draw s)).filter (fun q => decide (q ≠ 0xFFFFFFFFFFFFFFFF))).map buildNonce
  intro hnd
  have h2 := hdup.nodup hnd
  simp [hw, h0] at h2

end SendRun

/-- A fresh session and `2 ^ 64 + 1` calls of one thread: the last call comes
after the refused one and seals under the nonce of the first. -/
theorem encryptPacket_reuses_nonce_zero :
    let keys : TransportKeys := ⟨Vector.replicate 32 1, Vector.replicate 32 2, Vector.replicate 32 3⟩
    let s := freshSession 1 keys 0
    ¬ ((SendRun.step .transparent).final (SendRun.start s) (SendRun.oneByOne (2 ^ 64 + 1))).nonces.Nodup :=
  SendRun.oneByOne_reuse .transparent _ (by decide) (by decide) (by decide)

end Desmos.Core
