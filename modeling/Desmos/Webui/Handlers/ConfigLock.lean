import Desmos.Core.Daemon.Runner
import Desmos.Library.RwLock
import Desmos.Webui.Handlers.Config

/-! # The lock of the configuration

The thread of the daemon reads the mode and the tunnel size under guards that it drops at once. The
guard under which it reads the section of its mode lives through the packet loop, and a request
whose changes are safe waits for it.
-/
namespace Desmos.Webui
open Library Http Desmos.Core Proto

variable {F κ : Type}

/-- What `runDaemon` does with the configuration under its guard. The engine and the registry
are of the start. -/
def tunnel (P : Primitives) (env : DaemonEnv) (start : Config) (mode : Mode) (cfg : Config) :
    Except IoError Running :=
  let engine := Engine.new (newStrategy (start.client.map ClientConfig.bondingStrategy)) ⟨[]⟩
  let registry := if start.general.mode = .server then start.server.map (newRegistry env) else none
  match mode with
  | .client =>
    match cfg.client with
    | none => .error ⟨.invalidInput, "client mode requires [client] config"⟩
    | some client => (runClientLinux P env client engine).result
  | .server =>
    match cfg.server with
    | none => .error ⟨.invalidInput, "server mode requires [server] config"⟩
    | some srv =>
      match env.parseAddr srv.listen with
      | none => .error ⟨.invalidInput, "bad listen address: " ++ srv.listen⟩
      | some listen =>
        match registry with
        | none => .error ⟨.other, "ClientRegistry not initialized"⟩
        | some registry => runServerLinux env listen registry PipelineMetrics.new
  | .p2p => .ok .idle

theorem runDaemon_result (P : Primitives) (env : DaemonEnv) (config : Config) :
    (runDaemon P env config).result = tunnel P env config config.general.mode config := by
  unfold runDaemon tunnel
  cases config.general.mode with
  | client => cases config.client <;> rfl
  | server =>
    cases config.server with
    | none => rfl
    | some srv =>
      cases haddr : env.parseAddr srv.listen with
      | none => simp [haddr]
      | some listen => simp [haddr]
  | p2p => rfl

/-- Where the thread of the daemon stands behind `init_context`. -/
inductive DaemonState where
  | started
  | modeRead (mode : Mode)
  | mtuRead (mode : Mode) (mtu : UInt32)
  | guarded (mode : Mode) (mtu : UInt32)
  | packetLoop (running : Running)
  | idle
  | exited (result : Except IoError Unit)

/-- The stretch of the program in which the guard lives. -/
def DaemonState.HasGuard : DaemonState → Prop
  | .guarded _ _ => True
  | .packetLoop _ => True
  | _ => False

def DaemonState.InPacketLoop (s : DaemonState) : Prop := ∃ running, s = .packetLoop running

/-- One step of `run_daemon`. The guards of the first two reads are temporaries; the third is a
variable and is dropped on the way out. -/
def daemonStep [DecidableEq κ] (P : Primitives) (env : DaemonEnv) (start : Config)
    (lock : RwLock (Option κ) Config) (state : DaemonState) (shutdown : Bool) :
    RwLock (Option κ) Config × DaemonState :=
  match state with
  | .started => (lock, .modeRead lock.value.general.mode)
  | .modeRead mode => (lock, .mtuRead mode lock.value.general.tunnelMtu)
  | .mtuRead .p2p _ => (lock, .idle)
  | .mtuRead mode mtu => (lock.acquire none, .guarded mode mtu)
  | .guarded mode _ =>
    match tunnel P env start mode lock.value with
    | .error e => (lock.release none, .exited (.error e))
    | .ok running => (lock, .packetLoop running)
  | .packetLoop running =>
    if shutdown then (lock.release none, .exited (.ok ())) else (lock, .packetLoop running)
  | .idle => if shutdown then (lock, .exited (.ok ())) else (lock, .idle)
  | .exited result => (lock, .exited result)

/-- The steps of `put` on the locked configuration: the write waits while a guard is held. -/
def putLocked (api : Api F) :
    Program (RwLock (Option κ) Config) PutState PutInput (Option Response) :=
  fun lock state i =>
    match state with
    | .compared newConfig d =>
      match lock.tryWrite newConfig with
      | none => (none, lock, .compared newConfig d)
      | some lock => (some (applied api i.stamp d), lock, .ready)
    | state =>
      let (answer, _, next) := putStep api (some lock.value) state i
      (answer, lock, next)

/-- The thread of the daemon and the threads `κ` of the API. -/
structure DaemonSystem (κ : Type) where
  lock : RwLock (Option κ) Config
  daemon : DaemonState
  web : κ → PutState

inductive Turn (κ : Type) where
  | daemon (shutdown : Bool)
  | web (k : κ) (i : PutInput)

def boot (start : Config) : DaemonSystem κ :=
  { lock := .new start, daemon := .started, web := fun _ => .ready }

/-- Every interleaving of the daemon with requests. -/
def daemonRun [DecidableEq κ] (P : Primitives) (env : DaemonEnv) (api : Api F) (start : Config) :
    Machine (DaemonSystem κ) (Turn κ) (Option Response) :=
  fun s turn =>
    match turn with
    | .daemon shutdown =>
      let (lock, daemon) := daemonStep P env start s.lock s.daemon shutdown
      (none, { s with lock, daemon })
    | .web k i =>
      let (answer, lock, own) := putLocked api s.lock (s.web k) i
      (answer, { s with lock, web := Function.update s.web k own })

/-- The one guard that is ever held between steps is the daemon's, from the third read on. -/
def Guarded (s : DaemonSystem κ) : Prop :=
  (s.daemon.HasGuard ∧ s.lock.readers = [none]) ∨ (¬ s.daemon.HasGuard ∧ s.lock.readers = [])

theorem putLocked_readers (api : Api F) (lock : RwLock (Option κ) Config) (state : PutState)
    (i : PutInput) : (putLocked api lock state i).2.1.readers = lock.readers := by
  cases state with
  | ready => rfl
  | validated newConfig => rfl
  | compared newConfig d =>
    cases hwrite : lock.tryWrite newConfig with
    | none => simp only [putLocked, hwrite]
    | some lock' =>
      simp only [putLocked, hwrite]
      exact RwLock.tryWrite_readers hwrite

theorem none_mem_readers {s : DaemonSystem κ} (h : Guarded s) (hloop : s.daemon.InPacketLoop) :
    none ∈ s.lock.readers := by
  obtain ⟨running, hloop⟩ := hloop
  have hheld : s.lock.readers = [none] := by
    refine (h.resolve_right fun hfree => hfree.1 ?_).2
    rw [hloop]
    trivial
  simp [hheld]

variable {newConfig : Config}

section Guard
variable [DecidableEq κ] {P : Primitives} {env : DaemonEnv} {api : Api F} {start : Config}
  {s : DaemonSystem κ}

theorem guarded_step (h : Guarded s) (turn : Turn κ) :
    Guarded (daemonRun P env api start s turn).2 := by
  cases turn with
  | web k i =>
    have hreaders := putLocked_readers api s.lock (s.web k) i
    change (s.daemon.HasGuard ∧ (putLocked api s.lock (s.web k) i).2.1.readers = _) ∨
      (¬ s.daemon.HasGuard ∧ (putLocked api s.lock (s.web k) i).2.1.readers = _)
    rwa [hreaders]
  | daemon shutdown =>
    obtain ⟨lock, daemon, web⟩ := s
    simp only [daemonRun]
    cases daemon with
    | started => exact .inr ⟨id, (h.resolve_left fun h => h.1).2⟩
    | modeRead mode => exact .inr ⟨id, (h.resolve_left fun h => h.1).2⟩
    | mtuRead mode mtu =>
      have hfree : lock.readers = [] := (h.resolve_left fun h => h.1).2
      cases mode with
      | p2p => exact .inr ⟨id, hfree⟩
      | client => exact .inl ⟨trivial, by simp [daemonStep, RwLock.acquire, hfree]⟩
      | server => exact .inl ⟨trivial, by simp [daemonStep, RwLock.acquire, hfree]⟩
    | guarded mode mtu =>
      have hheld : lock.readers = [none] := (h.resolve_right fun h => h.1 trivial).2
      cases htunnel : tunnel P env start mode lock.value with
      | error e =>
        simp only [daemonStep, htunnel]
        exact .inr ⟨id, by simp [RwLock.release, hheld]⟩
      | ok running =>
        simp only [daemonStep, htunnel]
        exact .inl ⟨trivial, hheld⟩
    | packetLoop running =>
      have hheld : lock.readers = [none] := (h.resolve_right fun h => h.1 trivial).2
      cases shutdown with
      | false => exact .inl ⟨trivial, hheld⟩
      | true => exact .inr ⟨id, by simp [daemonStep, RwLock.release, hheld]⟩
    | idle =>
      have hfree : lock.readers = [] := (h.resolve_left fun h => h.1).2
      cases shutdown with
      | false => exact .inr ⟨id, hfree⟩
      | true => exact .inr ⟨id, hfree⟩
    | exited result => exact .inr ⟨id, (h.resolve_left fun h => h.1).2⟩

theorem guarded_run (turns : List (Turn κ)) :
    Guarded ((daemonRun P env api start).final (boot start) turns) :=
  Machine.final_invariant (I := Guarded) (fun _ turn h => guarded_step h turn)
    (.inr ⟨id, rfl⟩) turns

/-- A thread of the API at its write, and the daemon in its loop with the guard. -/
structure Waits (s : DaemonSystem κ) (k : κ) (newConfig : Config) (d : ConfigDiff) : Prop where
  inLoop : s.daemon.InPacketLoop
  held : none ∈ s.lock.readers
  waiting : s.web k = .compared newConfig d

theorem Waits.blocked {k : κ} {d : ConfigDiff} (h : Waits s k newConfig d)
    (i : PutInput) : daemonRun P env api start s (.web k i) = (none, s) := by
  have hput : putLocked api s.lock (s.web k) i = (none, s.lock, s.web k) := by
    rw [h.waiting]
    simp only [putLocked, RwLock.tryWrite_of_mem h.held]
  simp [daemonRun, hput]

/-- No step but the shutdown ends the wait. Another thread may come to its own write, and waits
there as well. -/
theorem Waits.step {k : κ} {d : ConfigDiff} (h : Waits s k newConfig d)
    (P : Primitives) (env : DaemonEnv) (api : Api F) (start : Config) {turn : Turn κ} (hturn : turn ≠ .daemon true) :
    Waits (daemonRun P env api start s turn).2 k newConfig d ∧
      (daemonRun P env api start s turn).2.lock = s.lock := by
  cases turn with
  | daemon shutdown =>
    cases shutdown with
    | true => exact absurd rfl hturn
    | false =>
      have hstep : (daemonRun P env api start s (.daemon false)).2 = s := by
        obtain ⟨running, hloop⟩ := h.inLoop
        obtain ⟨lock, daemon, web⟩ := s
        cases hloop
        rfl
      rw [hstep]
      exact ⟨h, rfl⟩
  | web k' i =>
    have hlock : (putLocked api s.lock (s.web k') i).2.1 = s.lock := by
      cases hstate : s.web k' with
      | ready => rfl
      | validated _ => rfl
      | compared newConfig' d' => simp only [putLocked, RwLock.tryWrite_of_mem h.held]
    have hsame : (daemonRun P env api start s (.web k' i)).2.lock = s.lock := hlock
    refine ⟨⟨h.inLoop, hsame ▸ h.held, ?_⟩, hsame⟩
    by_cases hk : k' = k
    · subst hk
      rw [h.blocked]
      exact h.waiting
    · have hweb : (daemonRun P env api start s (.web k' i)).2.web k = s.web k :=
        Function.update_of_ne (Ne.symm hk) _ _
      rw [hweb]
      exact h.waiting

theorem Waits.run {k : κ} {d : ConfigDiff} {later : List (Turn κ)}
    (h : Waits s k newConfig d) (P : Primitives) (env : DaemonEnv) (api : Api F) (start : Config)
    (hlater : .daemon true ∉ later) :
    Waits ((daemonRun P env api start).final s later) k newConfig d ∧
      ((daemonRun P env api start).final s later).lock = s.lock := by
  induction later generalizing s with
  | nil => exact ⟨h, rfl⟩
  | cons turn later ih =>
    rw [List.mem_cons, not_or] at hlater
    obtain ⟨hnext, hlock⟩ := h.step P env api start (Ne.symm hlater.1)
    rw [Machine.final_cons, ← hlock]
    exact ih hnext hlater.2

theorem packetLoop_reached (api : Api F) {running : Running} (hmode : start.general.mode ≠ .p2p)
    (hup : (runDaemon P env start).result = .ok running) :
    ((daemonRun P env api start).final (boot (κ := κ) start)
      (List.replicate 4 (.daemon false))).daemon = .packetLoop running := by
  have htunnel : tunnel P env start start.general.mode start = .ok running := by
    rw [← runDaemon_result, hup]
  have hguard : daemonStep P env start (RwLock.new start : RwLock (Option κ) Config)
      (.mtuRead start.general.mode start.general.tunnelMtu) false =
        ((RwLock.new start).acquire none,
          .guarded start.general.mode start.general.tunnelMtu) := by
    cases hcase : start.general.mode with
    | p2p => exact absurd hcase hmode
    | client => rfl
    | server => rfl
  have hvalue : (RwLock.new start : RwLock (Option κ) Config).value = start := rfl
  simp only [List.replicate, Machine.final_cons, Machine.final_nil, daemonRun, boot, daemonStep.eq_1,
    daemonStep.eq_2, hvalue, hguard]
  simp only [daemonStep, RwLock.acquire_value, hvalue, htunnel]

end Guard

/-- The daemon holds no guard of the configuration in any state in which it is in its loop. -/
def LoopLeavesLock [DecidableEq κ] (P : Primitives) (env : DaemonEnv) (api : Api F)
    (start : Config) : Prop :=
  ∀ turns : List (Turn κ), let s := (daemonRun P env api start).final (boot start) turns
    s.daemon.InPacketLoop → none ∉ s.lock.readers

/-- Every daemon that comes up as a client or a server holds its guard in its loop. A request
that has come to its write there gets no answer and changes nothing, until the shutdown. -/
theorem write_waits_for_shutdown [DecidableEq κ] (P : Primitives) (env : DaemonEnv) (api : Api F)
    (start : Config) (running : Running) (hmode : start.general.mode ≠ .p2p)
    (hup : (runDaemon P env start).result = .ok running) :
    ¬ LoopLeavesLock (κ := κ) P env api start ∧
      ∀ turns : List (Turn κ), let s := (daemonRun P env api start).final (boot start) turns
        s.daemon.InPacketLoop → none ∈ s.lock.readers ∧
          ∀ k newConfig d, s.web k = .compared newConfig d → ∀ later, .daemon true ∉ later →
            let s' := (daemonRun P env api start).final s later
            s'.lock.value = s.lock.value ∧ ∀ i, daemonRun P env api start s' (.web k i) = (none, s') := by
  have hheld : ∀ turns : List (Turn κ),
      ((daemonRun P env api start).final (boot start) turns).daemon.InPacketLoop →
        none ∈ ((daemonRun P env api start).final (boot start) turns).lock.readers :=
    fun turns => none_mem_readers (guarded_run turns)
  constructor
  · intro hfree
    have hloop := packetLoop_reached (κ := κ) api hmode hup
    exact hfree _ ⟨running, hloop⟩ (hheld _ ⟨running, hloop⟩)
  · intro turns s hloop
    refine ⟨hheld turns hloop, ?_⟩
    intro k newConfig d hwaiting later hlater
    have hwaits : Waits s k newConfig d := ⟨hloop, hheld turns hloop, hwaiting⟩
    have hrun := hwaits.run P env api start hlater
    exact ⟨congrArg RwLock.value hrun.2, hrun.1.blocked⟩

open Sample in
theorem server_keeps_writes_waiting :
    ¬ LoopLeavesLock (κ := Unit) .transparent (systemWith []) integerApi serverConfig :=
  (write_waits_for_shutdown .transparent (systemWith []) integerApi serverConfig _ (by decide)
    (server_up [])).1

open Sample in
/-- The server is in its loop after four steps and holds the guard. -/
theorem server_holds_config_in_loop :
    let s := (daemonRun (κ := Unit) .transparent (systemWith []) integerApi serverConfig).final
      (boot serverConfig) (List.replicate 4 (.daemon false))
    s.daemon.InPacketLoop ∧ none ∈ s.lock.readers := by
  have hloop : DaemonState.InPacketLoop _ :=
    ⟨_, packetLoop_reached (κ := Unit) integerApi (by decide) (server_up [])⟩
  exact ⟨hloop, none_mem_readers (guarded_run _) hloop⟩

end Desmos.Webui
