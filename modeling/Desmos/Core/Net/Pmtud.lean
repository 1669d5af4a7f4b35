import Desmos.Library.Machine
import Desmos.Library.U64

/-! # Path MTU discovery

The prober shrinks its probe by a fixed step after each timeout and stops at the first probe that
gets through. On a path that carries the least MTU it always finds a size, and misses the largest
one by less than a step.
-/
namespace Desmos.Core
open Library

inductive PmtudState where
  | probing
  | converged (size : UInt16)
  | failed
  deriving DecidableEq

structure Pmtud where
  state : PmtudState
  currentProbe : UInt16
  attempts : UInt8
  maxAttempts : UInt8
  deriving DecidableEq

namespace Pmtud

def minMtu : UInt16 := 1280

def probeStep : UInt16 := 64

def defaultMaxAttempts : UInt8 := 5

def withMaxAttempts (initialMtu : UInt16) (maxAttempts : UInt8) : Pmtud where
  state := .probing
  currentProbe := max initialMtu minMtu
  attempts := 0
  maxAttempts := maxAttempts

def new (initialMtu : UInt16) : Pmtud := withMaxAttempts initialMtu defaultMaxAttempts

def currentProbeSize (p : Pmtud) : UInt16 :=
  match p.state with
  | .probing => p.currentProbe
  | .converged size => size
  | .failed => minMtu

def mtu (p : Pmtud) : UInt16 :=
  match p.state with
  | .probing => p.currentProbe
  | .converged size => size
  | .failed => minMtu

def isDone (p : Pmtud) : Bool := p.state ≠ .probing

def onSuccess (p : Pmtud) (probedSize : UInt16) : Pmtud :=
  if p.state = .failed then p else { p with state := .converged probedSize, attempts := 0 }

def onTimeout (p : Pmtud) (probedSize : UInt16) : Pmtud :=
  if p.isDone then p
  else if probedSize ≠ p.currentProbe then p
  else
    let p := { p with attempts := saturatingAdd8 p.attempts 1 }
    if p.currentProbe ≤ minMtu then
      if p.maxAttempts ≤ p.attempts then { p with state := .failed } else p
    else { p with currentProbe := max (saturatingSub16 p.currentProbe probeStep) minMtu }

def reset (p : Pmtud) (initialMtu : UInt16) : Pmtud :=
  { p with state := .probing, currentProbe := max initialMtu minMtu, attempts := 0 }

/-- One round on a path that carries packets of up to `pathMtu` bytes. -/
def probe (pathMtu : ℕ) (p : Pmtud) : Pmtud :=
  if p.currentProbeSize.toNat ≤ pathMtu then p.onSuccess p.currentProbeSize
  else p.onTimeout p.currentProbeSize

/-- The search goes on from `start`: what it has come down to is above the floor, and if it has
come down at all, the last probe was too large. -/
structure Searching (start : UInt16) (pathMtu : ℕ) (p : Pmtud) : Prop where
  probing : p.state = .probing
  floor : minMtu.toNat ≤ p.currentProbe.toNat
  ceiling : p.currentProbe.toNat ≤ start.toNat
  near : p.currentProbe = start ∨ pathMtu < p.currentProbe.toNat + probeStep.toNat

section Search
variable {start : UInt16} {pathMtu : ℕ} {p : Pmtud}

theorem searching_withMaxAttempts (initialMtu : UInt16) (maxAttempts : UInt8) (pathMtu : ℕ) :
    Searching (max initialMtu minMtu) pathMtu (withMaxAttempts initialMtu maxAttempts) where
  probing := rfl
  floor := by
    rw [withMaxAttempts, toNat_max16]
    exact le_max_right _ _
  ceiling := le_rfl
  near := Or.inl rfl

section
variable (h : Searching start pathMtu p)
include h

theorem Searching.currentProbeSize_eq : p.currentProbeSize = p.currentProbe := by
  rw [currentProbeSize, h.probing]

theorem Searching.mtu_eq : p.mtu = p.currentProbe := by
  rw [mtu, h.probing]

theorem Searching.found (hfits : p.currentProbe.toNat ≤ pathMtu) :
    (p.probe pathMtu).state = .converged p.currentProbe := by
  rw [probe, h.currentProbeSize_eq, if_pos hfits, onSuccess, h.probing]
  rfl

theorem Searching.shrink (hpath : minMtu.toNat ≤ pathMtu)
    (hlarge : pathMtu < p.currentProbe.toNat) :
    Searching start pathMtu (p.probe pathMtu) ∧
      (p.probe pathMtu).currentProbe.toNat < p.currentProbe.toNat := by
  have hfloor : ¬ p.currentProbe ≤ minMtu := by
    rw [UInt16.le_iff_toNat_le]
    omega
  have hdone : p.isDone = false := by simp [isDone, h.probing]
  have hnext : p.probe pathMtu = { p with
      attempts := saturatingAdd8 p.attempts 1
      currentProbe := max (saturatingSub16 p.currentProbe probeStep) minMtu } := by
    rw [probe, h.currentProbeSize_eq, if_neg (by omega), onTimeout, hdone]
    simp [hfloor]
  have hsize : (p.probe pathMtu).currentProbe.toNat =
      max (p.currentProbe.toNat - probeStep.toNat) minMtu.toNat := by
    rw [hnext, toNat_max16, toNat_saturatingSub16]
  have hstep : probeStep.toNat = 64 := rfl
  have hceiling := h.ceiling
  refine ⟨⟨?_, ?_, ?_, Or.inr ?_⟩, ?_⟩
  · rw [hnext, h.probing]
  · omega
  · omega
  · omega
  · omega

theorem Searching.converges (hpath : minMtu.toNat ≤ pathMtu) :
    ∃ n size, ((probe pathMtu)^[n] p).state = .converged size ∧ size.toNat ≤ pathMtu ∧
      (size = start ∨ pathMtu < size.toNat + probeStep.toNat) ∧
      ∀ k < n, Searching start pathMtu ((probe pathMtu)^[k] p) := by
  induction hsize : p.currentProbe.toNat using Nat.strong_induction_on generalizing p with
  | _ m ih =>
    by_cases hfits : p.currentProbe.toNat ≤ pathMtu
    · refine ⟨1, p.currentProbe, h.found hfits, hfits, h.near, fun k hk => ?_⟩
      rw [Nat.lt_one_iff.mp hk]
      exact h
    · obtain ⟨hnext, hless⟩ := h.shrink hpath (not_le.mp hfits)
      obtain ⟨n, size, hstate, hcarried, hnear, hbefore⟩ := ih _ (hsize ▸ hless) hnext rfl
      refine ⟨n + 1, size, hstate, hcarried, hnear, fun k hk => ?_⟩
      cases k with
      | zero => exact h
      | succ k => exact hbefore k (Nat.lt_of_succ_lt_succ hk)

end

end Search

/-- On a path that carries the least MTU the search ends with a size that the path carries: the
first one it tried, or one within a step of the largest. Until then the MTU it reports is between
the least one and the first. -/
theorem discovery_converges (initialMtu : UInt16) (maxAttempts : UInt8) (pathMtu : ℕ)
    (hpath : 1280 ≤ pathMtu) :
    ∃ n size, ((probe pathMtu)^[n] (withMaxAttempts initialMtu maxAttempts)).state =
        .converged size ∧
      size.toNat ≤ pathMtu ∧ (size = max initialMtu minMtu ∨ pathMtu - size.toNat < 64) ∧
      ∀ k < n, ((probe pathMtu)^[k] (withMaxAttempts initialMtu maxAttempts)).state = .probing ∧
        1280 ≤ ((probe pathMtu)^[k] (withMaxAttempts initialMtu maxAttempts)).mtu ∧
        ((probe pathMtu)^[k] (withMaxAttempts initialMtu maxAttempts)).mtu ≤
          max initialMtu minMtu := by
  have hstart := searching_withMaxAttempts initialMtu maxAttempts pathMtu
  obtain ⟨n, size, hstate, hcarried, hnear, hbefore⟩ := hstart.converges hpath
  refine ⟨n, size, hstate, hcarried, hnear.imp_right fun h => ?_, fun k hk => ?_⟩
  · have hstep : probeStep.toNat = 64 := rfl
    omega
  · rw [(hbefore k hk).mtu_eq]
    exact ⟨(hbefore k hk).probing, UInt16.le_iff_toNat_le.mpr (hbefore k hk).floor,
      UInt16.le_iff_toNat_le.mpr (hbefore k hk).ceiling⟩

/-- From an Ethernet MTU to a path of 1400 bytes in three probes. -/
theorem discovery_converges_tunnel :
    ((probe 1400)^[3] (withMaxAttempts 1500 5)).state = .converged 1372 ∧
    ∃ n size, ((probe 1400)^[n] (withMaxAttempts 1500 5)).state = .converged size ∧
      size.toNat ≤ 1400 ∧ (size = max 1500 minMtu ∨ 1400 - size.toNat < 64) ∧
      ∀ k < n, ((probe 1400)^[k] (withMaxAttempts 1500 5)).state = .probing ∧
        1280 ≤ ((probe 1400)^[k] (withMaxAttempts 1500 5)).mtu ∧
        ((probe 1400)^[k] (withMaxAttempts 1500 5)).mtu ≤ max 1500 minMtu :=
  ⟨by decide, discovery_converges 1500 5 1400 (by decide)⟩

inductive PmtudCall where
  | onSuccess (probedSize : UInt16)
  | onTimeout (probedSize : UInt16)
  | reset (initialMtu : UInt16)
  deriving DecidableEq

def PmtudCall.isReset : PmtudCall → Bool
  | .reset _ => true
  | _ => false

/-- Calls in any order and with any sizes: the results of old probes arrive late. -/
def pmtudRun : Machine Pmtud PmtudCall Unit := fun p call =>
  match call with
  | .onSuccess size => ((), p.onSuccess size)
  | .onTimeout size => ((), p.onTimeout size)
  | .reset initialMtu => ((), p.reset initialMtu)

section Finished
variable {p q : Pmtud}

theorem mtu_congr (hdone : p.isDone) (hstate : q.state = p.state) : q.mtu = p.mtu := by
  cases hp : p.state with
  | probing => simp [isDone, hp] at hdone
  | converged size => rw [mtu, mtu, hstate, hp]
  | failed => rw [mtu, mtu, hstate, hp]

theorem isDone_congr (hstate : q.state = p.state) : q.isDone = p.isDone := by
  rw [isDone, isDone, hstate]

theorem state_of_finished (hdone : p.isDone) {call : PmtudCall} (hreset : call.isReset = false)
    (hsame : ∀ size s, call = .onSuccess size → p.state = .converged s → size = s) :
    (pmtudRun p call).2.state = p.state := by
  cases call with
  | onTimeout size =>
    change (p.onTimeout size).state = p.state
    rw [onTimeout, if_pos hdone]
  | reset initialMtu => cases hreset
  | onSuccess size =>
    change (p.onSuccess size).state = p.state
    rw [onSuccess]
    cases hp : p.state with
    | probing => simp [isDone, hp] at hdone
    | failed =>
      exact hp
    | converged s =>
      rw [if_neg (by simp), hsame size s rfl hp]

end Finished

/-- Along the run, a search that is finished reports one MTU until it is reset. -/
def StaysFinished (p : Pmtud) (run : List PmtudCall) : Prop :=
  ∀ early late rest, run = early ++ late ++ rest → (pmtudRun.final p early).isDone →
    (∀ call ∈ late, call.isReset = false) →
    (pmtudRun.final p (early ++ late)).mtu = (pmtudRun.final p early).mtu

/-- Every acknowledgement that comes after the search has found a size is of that size. -/
def AcknowledgesFound (p : Pmtud) (run : List PmtudCall) : Prop :=
  ∀ early size rest, run = early ++ .onSuccess size :: rest →
    ∀ s, (pmtudRun.final p early).state = .converged s → size = s

theorem final_state_of_finished {p : Pmtud} {early late rest : List PmtudCall}
    (hfound : AcknowledgesFound p (early ++ late ++ rest)) (hdone : (pmtudRun.final p early).isDone)
    (hreset : ∀ call ∈ late, call.isReset = false) :
    (pmtudRun.final p (early ++ late)).state = (pmtudRun.final p early).state := by
  induction late using List.reverseRecOn generalizing rest with
  | nil => rw [List.append_nil]
  | append_singleton late call ih =>
    have hbefore : AcknowledgesFound p (early ++ late ++ (call :: rest)) := by simpa using hfound
    have hlate := ih hbefore fun c hc => hreset c (List.mem_append_left _ hc)
    rw [← List.append_assoc, Machine.final_concat, ← hlate]
    apply state_of_finished
    · rw [isDone_congr hlate, hdone]
    · exact hreset call (by simp)
    · rintro size s rfl hs
      exact hfound (early ++ late) size rest (by simp) s hs

/-- A finished search keeps its MTU until the next reset exactly when no other size is
acknowledged late. -/
theorem staysFinished_iff (p : Pmtud) (run : List PmtudCall) :
    StaysFinished p run ↔ AcknowledgesFound p run := by
  constructor
  · intro h early size rest hrun s hfound
    have hdone : (pmtudRun.final p early).isDone := by simp [isDone, hfound]
    have hmtu := h early [.onSuccess size] rest (by rw [hrun]; simp) hdone
      (by simp [PmtudCall.isReset])
    rw [Machine.final_concat] at hmtu
    change ((pmtudRun.final p early).onSuccess size).mtu = _ at hmtu
    simpa [onSuccess, mtu, hfound] using hmtu
  · rintro h early late rest rfl hdone hreset
    exact mtu_congr hdone (final_state_of_finished h hdone hreset)

/-- The search finds 1500 bytes, and then the acknowledgement of a smaller probe comes in. -/
theorem not_staysFinished_late :
    ¬ StaysFinished (new 1500) [.onSuccess 1500, .onSuccess 1400] := by
  intro h
  have hmtu := h [.onSuccess 1500] [.onSuccess 1400] [] rfl (by decide) (by decide)
  exact absurd hmtu (by decide)

end Pmtud

end Desmos.Core
