import Desmos.Core.Io
import Desmos.Library.Machine
import Desmos.Library.Text

/-! # The override of the DNS resolver

On Linux and FreeBSD the override rewrites `/etc/resolv.conf` and keeps what was there in a
backup file. A file system is the content of each path that has one, and the operations on
it succeed.
-/
namespace Desmos.Core.ResolverHook
open Library

abbrev FileSystem := String → Option Bytes

inductive DnsOverrideError where
  | io (e : IoError)
  | unsupported
  | commandFailed (msg : String)
  deriving DecidableEq, Repr

structure DnsState where
  backupPath : String
  deriving DecidableEq, Repr

def resolvConf : String := "/etc/resolv.conf"
def resolvBackup : String := "/etc/resolv.conf.desmos-backup"

def resolvContent (servers : List String) : Bytes :=
  Text.asBytes ("# Generated by desmos — dns_leak_protection\n".toList ++
    servers.flatMap fun server => ("nameserver " ++ server ++ "\n").toList)

def applyResolvConf (servers : List String) (fs : FileSystem) : DnsState × FileSystem :=
  let fs := match fs resolvConf with
    | some content => Function.update fs resolvBackup (some content)
    | none => fs
  (⟨resolvBackup⟩, Function.update fs resolvConf (some (resolvContent servers)))

def apply (servers : List String) (fs : FileSystem) :
    Except DnsOverrideError DnsState × FileSystem :=
  if servers.isEmpty then (.error (.commandFailed "no DNS servers specified"), fs)
  else
    let (state, fs) := applyResolvConf servers fs
    (.ok state, fs)

def restoreResolvConf (backupPath : String) (fs : FileSystem) : FileSystem :=
  match fs backupPath with
  | some content =>
    Function.update (Function.update fs resolvConf (some content)) backupPath none
  | none => fs

def restore (state : DnsState) (fs : FileSystem) : FileSystem := restoreResolvConf state.backupPath fs

/-- The guard that restores when it is dropped, unless it was disarmed. -/
structure DnsGuard where
  state : Option DnsState

namespace DnsGuard

def new (state : DnsState) : DnsGuard := ⟨some state⟩

def disarm (_guard : DnsGuard) : DnsGuard := ⟨none⟩

def drop (guard : DnsGuard) (fs : FileSystem) : FileSystem :=
  match guard.state with
  | some state => restore state fs
  | none => fs

end DnsGuard

/-- One override: the servers, and whether the process ends before the guard is dropped. -/
structure DnsSession where
  servers : List String
  crashes : Bool
  deriving DecidableEq

/-- Sessions one after the other, with the state that the last `apply` returned. -/
def dnsRun : Machine (FileSystem × Option DnsState) DnsSession Unit := fun st session =>
  match ResolverHook.apply session.servers st.1 with
  | (.error _, fs) => ((), fs, st.2)
  | (.ok state, fs) =>
    ((), if session.crashes then fs else (DnsGuard.new state).drop fs, some state)

/-- The file system after the sessions and a restore of the last state that was returned. -/
def restoredAfter (fs : FileSystem) (sessions : List DnsSession) : FileSystem :=
  match dnsRun.final (fs, none) sessions with
  | (fs, some state) => restore state fs
  | (fs, none) => fs

def applied (sessions : List DnsSession) : List DnsSession :=
  sessions.filter fun s => !s.servers.isEmpty

theorem resolvBackup_ne : resolvBackup ≠ resolvConf := by decide

theorem dnsRun_final_applied (st : FileSystem × Option DnsState) (sessions : List DnsSession) :
    dnsRun.final st sessions = dnsRun.final st (applied sessions) := by
  induction sessions generalizing st with
  | nil => rfl
  | cons s sessions ih =>
    by_cases hs : s.servers.isEmpty = true
    · have hkept : applied (s :: sessions) = applied sessions :=
        List.filter_cons_of_neg (by simpa using hs)
      have hsame : (dnsRun st s).2 = st := by simp [dnsRun, apply, hs]
      rw [hkept, Machine.final_cons, hsame]
      exact ih st
    · have hkept : applied (s :: sessions) = s :: applied sessions :=
        List.filter_cons_of_pos (by simpa using hs)
      rw [hkept, Machine.final_cons, Machine.final_cons]
      exact ih _

variable {fs : FileSystem} {s : DnsSession}

theorem dnsRun_step (last : Option DnsState) {content : Bytes}
    (hs : s.servers.isEmpty = false) (hfile : fs resolvConf = some content) :
    (dnsRun (fs, last) s).2.2 = some ⟨resolvBackup⟩ ∧
    (dnsRun (fs, last) s).2.1 resolvConf =
      some (if s.crashes then resolvContent s.servers else content) ∧
    (dnsRun (fs, last) s).2.1 resolvBackup = if s.crashes then some content else none := by
  have happly : ResolverHook.apply s.servers fs = (.ok ⟨resolvBackup⟩,
      Function.update (Function.update fs resolvBackup (some content)) resolvConf
        (some (resolvContent s.servers))) := by
    simp [apply, applyResolvConf, hs, hfile]
  cases hcrash : s.crashes with
  | true => simp [dnsRun, happly, hcrash, resolvBackup_ne]
  | false =>
    simp [dnsRun, happly, hcrash, DnsGuard.drop, DnsGuard.new, restore, restoreResolvConf,
      resolvBackup_ne, resolvBackup_ne.symm]

theorem dnsRun_resolvConf_isSome (st : FileSystem × Option DnsState)
    (hs : s.servers.isEmpty = false) :
    ((dnsRun st s).2.1 resolvConf).isSome ∧ (dnsRun st s).2.2 = some ⟨resolvBackup⟩ := by
  cases hfile : st.1 resolvConf with
  | some content =>
    obtain ⟨hstate, hconf, -⟩ := dnsRun_step st.2 hs hfile
    exact ⟨by rw [hconf]; rfl, hstate⟩
  | none =>
    have happly : ResolverHook.apply s.servers st.1 = (.ok ⟨resolvBackup⟩,
        Function.update st.1 resolvConf (some (resolvContent s.servers))) := by
      simp [apply, applyResolvConf, hs, hfile]
    cases hcrash : s.crashes with
    | true => simp [dnsRun, happly, hcrash]
    | false =>
      cases hbackup : st.1 resolvBackup with
      | none =>
        simp [dnsRun, happly, hcrash, DnsGuard.drop, DnsGuard.new, restore, restoreResolvConf,
          hbackup, resolvBackup_ne]
      | some old =>
        simp [dnsRun, happly, hcrash, DnsGuard.drop, DnsGuard.new, restore, restoreResolvConf,
          hbackup, resolvBackup_ne, resolvBackup_ne.symm]

/-- What `resolv.conf` holds after sessions that found `content` in it: what the last one to
crash wrote. -/
def contentAfter (content : Bytes) (sessions : List DnsSession) : Bytes :=
  ((sessions.filter DnsSession.crashes).getLast?.map fun s => resolvContent s.servers).getD content

theorem contentAfter_concat (content : Bytes) (sessions : List DnsSession) (s : DnsSession) :
    contentAfter content (sessions ++ [s]) =
      if s.crashes then resolvContent s.servers else contentAfter content sessions := by
  cases hcrash : s.crashes with
  | true => simp [contentAfter, List.filter_append, hcrash]
  | false => simp [contentAfter, List.filter_append, hcrash]

variable {sessions : List DnsSession}

theorem dnsRun_content {content : Bytes} (hfile : fs resolvConf = some content)
    (hs : ∀ s ∈ sessions, s.servers.isEmpty = false) :
    (dnsRun.final (fs, none) sessions).1 resolvConf = some (contentAfter content sessions) := by
  induction sessions using List.reverseRecOn with
  | nil => exact hfile
  | append_singleton sessions s ih =>
    have hbefore := ih fun t ht => hs t (List.mem_append_left _ ht)
    have hstep := dnsRun_step (dnsRun.final (fs, none) sessions).2
      (hs s (List.mem_append_right _ List.mem_cons_self)) hbefore
    rw [Machine.final_concat, contentAfter_concat]
    exact hstep.2.1

theorem restoredAfter_eq {state : DnsState}
    (h : (dnsRun.final (fs, none) sessions).2 = some state) :
    restoredAfter fs sessions = restore state (dnsRun.final (fs, none) sessions).1 := by
  rw [restoredAfter]
  cases hfinal : dnsRun.final (fs, none) sessions with
  | mk fs' last =>
    rw [hfinal] at h
    cases h
    rfl

theorem restoredAfter_concat {content : Bytes}
    (hfile : fs resolvConf = some content)
    (hs : ∀ t ∈ sessions ++ [s], t.servers.isEmpty = false) :
    restoredAfter fs (sessions ++ [s]) resolvConf = some (contentAfter content sessions) := by
  have hbefore := dnsRun_content hfile fun t ht => hs t (List.mem_append_left _ ht)
  obtain ⟨hstate, hconf, hbackup⟩ := dnsRun_step
    (dnsRun.final (fs, none) sessions).2
    (hs s (List.mem_append_right _ List.mem_cons_self)) hbefore
  rw [restoredAfter_eq (by rw [Machine.final_concat]; exact hstate), Machine.final_concat, restore,
    restoreResolvConf]
  cases hcrash : s.crashes with
  | true =>
    rw [hcrash, if_pos rfl] at hbackup
    simp [hbackup, resolvBackup_ne.symm]
  | false =>
    rw [hcrash] at hbackup hconf
    simpa [hbackup] using hconf

theorem restore_isSome (h : (fs resolvConf).isSome) :
    (restore ⟨resolvBackup⟩ fs resolvConf).isSome := by
  cases hbackup : fs resolvBackup with
  | none => simpa [restore, restoreResolvConf, hbackup] using h
  | some content => simp [restore, restoreResolvConf, hbackup, resolvBackup_ne.symm]

theorem restoredAfter_isSome (fs : FileSystem) (sessions : List DnsSession)
    (hs : s.servers.isEmpty = false) :
    (restoredAfter fs (sessions ++ [s]) resolvConf).isSome := by
  obtain ⟨hsome, hstate⟩ := dnsRun_resolvConf_isSome (dnsRun.final (fs, none) sessions) hs
  rw [← Machine.final_concat] at hsome hstate
  rw [restoredAfter_eq hstate]
  exact restore_isSome hsome

theorem restoredAfter_applied (fs : FileSystem) (sessions : List DnsSession) :
    restoredAfter fs sessions = restoredAfter fs (applied sessions) := by
  rw [restoredAfter, restoredAfter, dnsRun_final_applied]

/-- The restore at the end brings `resolv.conf` back if nothing was overridden, or if the file
was there and the last crash before the last session left it as it was. -/
theorem dns_restored_iff (fs : FileSystem) (sessions : List DnsSession) :
    restoredAfter fs sessions resolvConf = fs resolvConf ↔
      applied sessions = [] ∨ ∃ content, fs resolvConf = some content ∧
        ∀ s ∈ ((applied sessions).dropLast.filter DnsSession.crashes).getLast?,
          resolvContent s.servers = content := by
  have hservers : ∀ s ∈ applied sessions, s.servers.isEmpty = false := by
    intro s hs
    simpa [applied] using (List.mem_filter.mp hs).2
  rw [restoredAfter_applied]
  induction happlied : applied sessions using List.reverseRecOn with
  | nil => exact iff_of_true rfl (Or.inl rfl)
  | append_singleton earlier s =>
    rw [happlied] at hservers
    rw [List.dropLast_concat]
    cases hfile : fs resolvConf with
    | none =>
      have hsome := restoredAfter_isSome fs earlier
        (hservers s (List.mem_append_right _ List.mem_cons_self))
      constructor
      · intro h
        rw [h] at hsome
        cases hsome
      · rintro (h | ⟨content, h, -⟩)
        · simp at h
        · cases h
    | some content =>
      rw [restoredAfter_concat hfile hservers, contentAfter]
      cases hcrashed : (earlier.filter DnsSession.crashes).getLast? with
      | none => simp
      | some t =>
        constructor
        · intro h
          refine Or.inr ⟨content, rfl, fun u hu => ?_⟩
          cases hu
          exact Option.some.inj h
        · rintro (h | ⟨content', h, hlast⟩)
          · simp at h
          · cases h
            exact congrArg some (hlast t rfl)

def Sample.userFile : FileSystem := fun path => if path = resolvConf then some [0x61] else none

/-- A crash followed by a clean session leaves the crashed session's servers in place of the
user's, and a file that was not there is there in the end. -/
theorem crashed_override_kept :
    restoredAfter Sample.userFile [⟨["10.8.0.1"], true⟩, ⟨["10.8.0.1"], false⟩] resolvConf ≠
      Sample.userFile resolvConf ∧
    restoredAfter (fun _ => none) [⟨["10.8.0.1"], false⟩] resolvConf ≠ none := by
  decide +kernel

end Desmos.Core.ResolverHook
