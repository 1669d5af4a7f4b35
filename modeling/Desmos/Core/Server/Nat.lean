import Desmos.Core.Io
import Desmos.Library.Machine

/-! # The NAT rules of the server

The controller appends three rules with `iptables` and takes them out again in reverse order. The
kernel is a multiset of rules: an append adds a copy or fails, a deletion takes one copy and fails
if there is none.
-/
namespace Desmos.Core
open Library

/-- The match and target of a rule stand in `body`; the operator is added at each call. -/
structure Rule where
  table : String
  chain : String
  body : List String
  deriving DecidableEq

namespace Rule

def installArgv (r : Rule) : List String := ["-t", r.table] ++ ["-A"] ++ [r.chain] ++ r.body

def removeArgv (r : Rule) : List String := ["-t", r.table] ++ ["-D"] ++ [r.chain] ++ r.body

end Rule

/-- The kernel's rules, and how many appends it has been asked for. -/
structure Iptables where
  rules : Multiset Rule
  appends : ℕ

/-- What the environment decides: which of the appends fail, and what an error says. -/
structure IptablesEnv where
  appendFails : ℕ → Option IoError
  exited : List String → IoError

namespace Iptables

def run (env : IptablesEnv) (k : Iptables) (argv : List String) : Except IoError Unit × Iptables :=
  match argv with
  | _ :: table :: op :: chain :: body =>
    if op = "-A" then
      match env.appendFails k.appends with
      | some e => (.error e, { k with appends := k.appends + 1 })
      | none => (.ok (), ⟨⟨table, chain, body⟩ ::ₘ k.rules, k.appends + 1⟩)
    else if op = "-D" ∧ ⟨table, chain, body⟩ ∈ k.rules then
      (.ok (), { k with rules := k.rules.erase ⟨table, chain, body⟩ })
    else (.error (env.exited argv), k)
  | _ => (.error (env.exited argv), k)

end Iptables

inductive NatError where
  | invalidConfig (reason : String)
  | iptables (e : IoError)
  | alreadyInstalled
  | notInstalled
  deriving DecidableEq

structure NatConfig where
  tunnelIface : String
  egressIface : String
  tunnelCidr : String
  deriving DecidableEq

namespace NatConfig

def validate (c : NatConfig) : Except NatError Unit :=
  if c.tunnelIface.isEmpty then .error (.invalidConfig "tunnel_iface is empty")
  else if c.egressIface.isEmpty then .error (.invalidConfig "egress_iface is empty")
  else if '/' ∉ c.tunnelCidr.toList then .error (.invalidConfig "tunnel_cidr missing '/'")
  else .ok ()

def rules (c : NatConfig) : List Rule :=
  [{ table := "nat", chain := "POSTROUTING"
     body := ["-s", c.tunnelCidr, "-o", c.egressIface, "-j", "MASQUERADE"] },
   { table := "filter", chain := "FORWARD"
     body := ["-i", c.tunnelIface, "-o", c.egressIface, "-j", "ACCEPT"] },
   { table := "filter", chain := "FORWARD"
     body := ["-i", c.egressIface, "-o", c.tunnelIface, "-m", "state", "--state",
       "RELATED,ESTABLISHED", "-j", "ACCEPT"] }]

end NatConfig

structure NatController where
  config : NatConfig
  installed : Option (List Rule)
  deriving DecidableEq

namespace NatController

def new (config : NatConfig) : NatController := { config, installed := none }

def isInstalled (c : NatController) : Bool := c.installed.isSome

/-- Delete rules one after the other, past errors; the last error is kept. -/
def deleteRules (env : IptablesEnv) :
    List Rule → (lastErr : Option IoError) → Iptables → Option IoError × Iptables
  | [], lastErr, k => (lastErr, k)
  | rule :: rules, lastErr, k =>
    match k.run env rule.removeArgv with
    | (.error e, k) => deleteRules env rules (some e) k
    | (.ok _, k) => deleteRules env rules lastErr k

/-- Append rules one after the other; the first error takes back what was committed. -/
def appendRules (env : IptablesEnv) :
    List Rule → (committed : List Rule) → Iptables → Except IoError (List Rule) × Iptables
  | [], committed, k => (.ok committed, k)
  | rule :: rules, committed, k =>
    match k.run env rule.installArgv with
    | (.error e, k) => (.error e, (deleteRules env committed.reverse none k).2)
    | (.ok _, k) => appendRules env rules (committed ++ [rule]) k

def install (env : IptablesEnv) (c : NatController) (k : Iptables) :
    Except NatError Unit × NatController × Iptables :=
  if c.installed.isSome then (.error .alreadyInstalled, c, k)
  else
    match c.config.validate with
    | .error e => (.error e, c, k)
    | .ok _ =>
      match appendRules env c.config.rules [] k with
      | (.error e, k) => (.error (.iptables e), c, k)
      | (.ok committed, k) => (.ok (), { c with installed := some committed }, k)

def remove (env : IptablesEnv) (c : NatController) (k : Iptables) :
    Except NatError Unit × NatController × Iptables :=
  match c.installed with
  | none => (.error .notInstalled, c, k)
  | some rules =>
    match deleteRules env rules.reverse none k with
    | (some e, k) => (.error (.iptables e), { c with installed := none }, k)
    | (none, k) => (.ok (), { c with installed := none }, k)

end NatController

inductive NatCall where
  | install
  | remove

/-- The controller and the kernel under a run of calls. -/
def natRun (env : IptablesEnv) :
    Machine (NatController × Iptables) NatCall (Except NatError Unit) := fun s call =>
  match call with
  | .install => s.1.install env s.2
  | .remove => s.1.remove env s.2

namespace NatController
variable {env : IptablesEnv} {k : Iptables} {base : Multiset Rule}

theorem run_installArgv (rule : Rule) : k.run env rule.installArgv =
    match env.appendFails k.appends with
    | some e => (.error e, { k with appends := k.appends + 1 })
    | none => (.ok (), ⟨rule ::ₘ k.rules, k.appends + 1⟩) := rfl

theorem run_removeArgv {rule : Rule} (h : rule ∈ k.rules) :
    k.run env rule.removeArgv = (.ok (), { k with rules := k.rules.erase rule }) := by
  simp [Iptables.run, Rule.removeArgv, h]

theorem deleteRules_eq (env : IptablesEnv) {rules : List Rule}
    (h : k.rules = base + (rules : Multiset Rule)) (lastErr : Option IoError) :
    deleteRules env rules lastErr k = (lastErr, { k with rules := base }) := by
  induction rules generalizing k with
  | nil =>
    rw [Multiset.coe_nil, add_zero] at h
    rw [deleteRules, ← h]
  | cons rule rules ih =>
    have hmem : rule ∈ k.rules := by simp [h]
    have hrest : k.rules.erase rule = base + (rules : Multiset Rule) := by
      rw [h, ← Multiset.cons_coe, Multiset.add_cons, Multiset.erase_cons_head]
    rw [deleteRules, run_removeArgv hmem]
    exact ih hrest

theorem deleteRules_reverse_eq (env : IptablesEnv) {rules : List Rule}
    (h : k.rules = base + (rules : Multiset Rule)) (lastErr : Option IoError) :
    deleteRules env rules.reverse lastErr k = (lastErr, { k with rules := base }) := by
  apply deleteRules_eq
  rw [h, Multiset.coe_reverse]

theorem appendRules_cases (env : IptablesEnv) (rules : List Rule) {committed : List Rule}
    (h : k.rules = base + (committed : Multiset Rule)) :
    (∃ n, appendRules env rules committed k =
      (.ok (committed ++ rules), ⟨base + (committed ++ rules : List Rule), n⟩)) ∨
    ∃ e n, appendRules env rules committed k = (.error e, ⟨base, n⟩) := by
  induction rules generalizing committed k with
  | nil =>
    left
    refine ⟨k.appends, ?_⟩
    rw [appendRules, List.append_nil, ← h]
  | cons rule rules ih =>
    rw [appendRules, run_installArgv]
    cases hfails : env.appendFails k.appends with
    | some e =>
      right
      have hback := deleteRules_reverse_eq env (k := { k with appends := k.appends + 1 }) h none
      refine ⟨e, k.appends + 1, ?_⟩
      simp only [hback]
    | none =>
      have hnext : rule ::ₘ k.rules = base + ((committed ++ [rule] : List Rule) : Multiset Rule) := by
        rw [h, ← Multiset.coe_add, Multiset.coe_singleton, ← add_assoc, ← Multiset.singleton_add,
          add_comm]
      have hrest := ih (k := ⟨rule ::ₘ k.rules, k.appends + 1⟩) hnext
      rw [List.append_assoc, List.singleton_append] at hrest
      exact hrest

variable {c : NatController}

/-- A call to `install` either changes nothing but the count of appends, or appends all the
rules and says so. -/
theorem install_cases (env : IptablesEnv) (c : NatController) (k : Iptables) :
    (∃ e n, c.install env k = (.error e, c, { k with appends := n })) ∨
    ∃ n, c.installed = none ∧ c.install env k = (.ok (), { c with installed := some c.config.rules },
      ⟨k.rules + (c.config.rules : Multiset Rule), n⟩) := by
  unfold install
  split
  · exact Or.inl ⟨_, k.appends, rfl⟩
  · next hnone =>
    split
    · exact Or.inl ⟨_, k.appends, rfl⟩
    · have hstart : k.rules = k.rules + (([] : List Rule) : Multiset Rule) := by simp
      rcases appendRules_cases env c.config.rules hstart with
        ⟨n, heq⟩ | ⟨e, n, heq⟩
      · right
        refine ⟨n, by simpa using hnone, ?_⟩
        rw [heq]
        rfl
      · left
        refine ⟨.iptables e, n, ?_⟩
        rw [heq]

theorem remove_eq {rules : List Rule} (hinstalled : c.installed = some rules)
    (h : k.rules = base + (rules : Multiset Rule)) :
    c.remove env k = (.ok (), { c with installed := none }, { k with rules := base }) := by
  unfold remove
  rw [hinstalled]
  simp only [deleteRules_reverse_eq env h none]

/-- The kernel holds what it held at first, and the controller's rules if they are installed. -/
structure Consistent (config : NatConfig) (initial : Multiset Rule)
    (s : NatController × Iptables) : Prop where
  unchanged : s.1.config = config
  installed : s.1.installed = none ∨ s.1.installed = some config.rules
  kernel : s.2.rules =
    initial + if s.1.isInstalled then (config.rules : Multiset Rule) else 0

theorem Consistent.step {config : NatConfig} {initial : Multiset Rule}
    {s : NatController × Iptables} (h : Consistent config initial s) (env : IptablesEnv)
    (call : NatCall) : Consistent config initial (natRun env s call).2 := by
  cases call with
  | install =>
    rcases install_cases env s.1 s.2 with ⟨e, n, heq⟩ | ⟨n, hnone, heq⟩
    · rw [natRun, heq]
      exact ⟨h.unchanged, h.installed, h.kernel⟩
    · have hkernel := h.kernel
      rw [isInstalled, hnone] at hkernel
      rw [natRun, heq]
      refine ⟨h.unchanged, Or.inr (by rw [h.unchanged]), ?_⟩
      rw [hkernel, h.unchanged]
      simp [isInstalled]
  | remove =>
    rcases h.installed with hnone | hrules
    · have hsame : s.1.remove env s.2 = (.error .notInstalled, s.1, s.2) := by
        rw [remove, hnone]
      rw [natRun, hsame]
      exact h
    · have hkernel := h.kernel
      rw [isInstalled, hrules] at hkernel
      rw [natRun, remove_eq hrules hkernel]
      exact ⟨h.unchanged, Or.inl rfl, by simp [isInstalled]⟩

theorem count_rules {config : NatConfig} {rule : Rule} (h : rule ∈ config.rules) :
    (config.rules : Multiset Rule).count rule = 1 := by
  have hnodup : config.rules.Nodup := by simp [NatConfig.rules]
  rw [Multiset.coe_count]
  exact List.count_eq_one_of_mem hnodup h

end NatController

open NatController in
/-- An `install` that fails leaves the rules of the kernel as they were, one that succeeds is
undone by `remove`, and after any calls the controller says that its rules are installed just if
the kernel holds each of them once more than at first. -/
theorem nat_all_or_nothing (env : IptablesEnv) :
    (∀ (c : NatController) (k : Iptables) (e : NatError), (c.install env k).1 = .error e →
      (c.install env k).2.2.rules = k.rules) ∧
    (∀ (c : NatController) (k : Iptables), (c.install env k).1 = .ok () →
      let (c', k') := (c.install env k).2
      (c'.remove env k').1 = .ok () ∧ (c'.remove env k').2.2.rules = k.rules) ∧
    ∀ (config : NatConfig) (initial : Iptables) (calls : List NatCall),
      let (c, k) := (natRun env).final (.new config, initial) calls
      c.isInstalled = true ↔
        ∀ rule ∈ config.rules, k.rules.count rule = initial.rules.count rule + 1 := by
  refine ⟨fun c k e herror => ?_, fun c k hok => ?_, fun config initial calls => ?_⟩
  · rcases install_cases env c k with ⟨e', n, heq⟩ | ⟨n, hnone, heq⟩
    · rw [heq]
    · rw [heq] at herror
      cases herror
  · rcases install_cases env c k with ⟨e', n, heq⟩ | ⟨n, hnone, heq⟩
    · rw [heq] at hok
      cases hok
    · have hremove := @remove_eq env ⟨k.rules + (c.config.rules : Multiset Rule), n⟩ k.rules
        { c with installed := some c.config.rules } c.config.rules rfl rfl
      rw [heq]
      simp [hremove]
  · have hend : Consistent config initial.rules
        ((natRun env).final (.new config, initial) calls) := by
      apply Machine.final_invariant (fun s call h => h.step env call)
      exact ⟨rfl, Or.inl rfl, by simp [isInstalled, new]⟩
    generalize (natRun env).final (.new config, initial) calls = s at hend
    have hkernel := hend.kernel
    change s.1.isInstalled = true ↔ _
    cases hinstalled : s.1.isInstalled with
    | true =>
      rw [hinstalled, if_pos rfl] at hkernel
      refine iff_of_true rfl fun rule hrule => ?_
      rw [hkernel, Multiset.count_add, count_rules hrule]
    | false =>
      rw [hinstalled, if_neg Bool.false_ne_true, add_zero] at hkernel
      refine iff_of_false Bool.false_ne_true fun hall => ?_
      have hfirst := hall _ (List.mem_cons_self : _ ∈ config.rules)
      rw [hkernel] at hfirst
      omega

end Desmos.Core
