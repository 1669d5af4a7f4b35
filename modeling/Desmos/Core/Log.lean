import Desmos.Library.Machine
import Desmos.Library.TextSearch

/-! # The logger

An entry of the least level or above is a line on standard error, in which secrets are blanked out,
and goes into a ring of recent entries as it is.
-/
namespace Desmos.Core
open Library

inductive Level where
  | trace | debug | info | warn | error

def Level.asStr : Level → String
  | .trace => "trace"
  | .debug => "debug"
  | .info => "info"
  | .warn => "warn"
  | .error => "error"

structure Entry where
  level : Level
  target : String
  msg : String
  fields : List (String × Text)

def isSecret (key : String) : Bool :=
  ["psk", "password", "private_key"].any fun k => Text.eqIgnoreAsciiCase k.toList key.toList

def redact (key : String) (value : Text) : Text := if isSecret key then "***".toList else value

def displayField (field : String × Text) : Text :=
  ' ' :: field.1.toList ++ '=' :: redact field.1 field.2

def Entry.display (e : Entry) : Text :=
  ("level=" ++ e.level.asStr ++ " target=" ++ e.target ++ " msg=" ++ e.msg).toList ++
    e.fields.flatMap displayField

/-- `LogRing::push` on a ring of the given capacity. -/
def pushRing (capacity : ℕ) (buf : List Entry) (entry : Entry) : List Entry :=
  (if buf.length = capacity then buf.tail else buf) ++ [entry]

structure Logger where
  ring : List Entry
  minLevel : Level

def Logger.new : Logger := ⟨[], .info⟩

inductive LogCall where
  | emit (entry : Entry)
  | setMinLevel (level : Level)

/-- The logger with the line that a call writes to standard error. -/
def logging (capacity : ℕ) : Machine Logger LogCall (Option Text)
  | l, .setMinLevel level => (none, { l with minLevel := level })
  | l, .emit entry =>
    if entry.level.ctorIdx < l.minLevel.ctorIdx then (none, l)
    else (some entry.display, { l with ring := pushRing capacity l.ring entry })

def writtenBy : LogCall × Option Text → Option Entry
  | (.emit entry, some _) => some entry
  | _ => none

/-- The last entries that fit. A ring without any room never finds itself full and keeps them all. -/
def recent (capacity : ℕ) (all : List Entry) : List Entry :=
  if capacity = 0 then all else all.drop (all.length - capacity)

/-- The key is the same, and so is the value unless it is secret. -/
def AlikeField (f f' : String × Text) : Prop := f.1 = f'.1 ∧ (isSecret f.1 = false → f.2 = f'.2)

/-- The two calls differ at most in the values of secret fields. -/
inductive LogCall.Alike : LogCall → LogCall → Prop
  | setMinLevel (level : Level) : Alike (.setMinLevel level) (.setMinLevel level)
  | emit (level : Level) (target msg : String) {fields fields' : List (String × Text)}
      (h : List.Forall₂ AlikeField fields fields') :
      Alike (.emit ⟨level, target, msg, fields⟩) (.emit ⟨level, target, msg, fields'⟩)

theorem flatMap_displayField_congr {fields fields' : List (String × Text)}
    (h : List.Forall₂ AlikeField fields fields') :
    fields.flatMap displayField = fields'.flatMap displayField := by
  induction h with
  | nil => rfl
  | @cons f f' _ _ hf _ ih =>
    obtain ⟨hkey, hvalue⟩ := hf
    rw [List.flatMap_cons, List.flatMap_cons, ih, displayField, displayField, redact, redact,
      ← hkey]
    cases hs : isSecret f.1 with
    | true => rfl
    | false => rw [hvalue hs]

theorem pushRing_recent (capacity : ℕ) (all : List Entry) (entry : Entry) :
    pushRing capacity (recent capacity all) entry = recent capacity (all ++ [entry]) := by
  unfold pushRing recent
  by_cases hzero : capacity = 0
  · cases all <;> simp [hzero]
  · rw [if_neg hzero, if_neg hzero, List.length_append, List.length_singleton,
      List.drop_append_of_le_length (by omega), List.length_drop]
    split
    · rw [List.tail_drop, show all.length - capacity + 1 = all.length + 1 - capacity by omega]
    · rw [show all.length - capacity = all.length + 1 - capacity by omega]

theorem trace_alike (capacity : ℕ) {calls calls' : List LogCall}
    (h : List.Forall₂ LogCall.Alike calls calls') {l l' : Logger} (hl : l.minLevel = l'.minLevel) :
    ((logging capacity).trace l calls).map Prod.snd =
      ((logging capacity).trace l' calls').map Prod.snd := by
  induction h generalizing l l' with
  | nil => rfl
  | cons hcall _ ih =>
    simp only [Machine.trace_cons, List.map_cons]
    cases hcall with
    | setMinLevel level => exact congrArg _ (ih rfl)
    | emit level target msg hfields =>
      have hline := flatMap_displayField_congr hfields
      by_cases hlow : level.ctorIdx < l'.minLevel.ctorIdx
      · simp [logging, hl, hlow, ih hl]
      · simp only [logging, hl, hlow, if_false, Entry.display, hline]
        exact congrArg _ (ih rfl)

/-- After any calls the ring holds the last of the entries that were written, and no value of a
secret field has an effect on what is written to standard error. -/
theorem log_recent_and_redacted (capacity : ℕ) (calls : List LogCall) :
    ((logging capacity).final .new calls).ring =
      recent capacity (((logging capacity).trace .new calls).filterMap writtenBy) ∧
    ∀ calls', List.Forall₂ LogCall.Alike calls calls' →
      ((logging capacity).trace .new calls).map Prod.snd =
        ((logging capacity).trace .new calls').map Prod.snd := by
  refine ⟨?_, fun _ h => trace_alike capacity h rfl⟩
  refine Machine.final_history (m := logging capacity) (s := .new) (I := fun past l => l.ring =
    recent capacity (((logging capacity).trace .new past).filterMap writtenBy)) ?_ ?_ calls
  · simp [Logger.new, recent, Machine.trace]
  · intro past call ih
    rw [Machine.trace_append, List.filterMap_append]
    generalize (logging capacity).final .new past = l at ih ⊢
    cases call with
    | setMinLevel level => simpa [logging, writtenBy, Machine.trace, List.filterMap_cons] using ih
    | emit entry =>
      by_cases hlow : entry.level.ctorIdx < l.minLevel.ctorIdx
      · simpa [logging, writtenBy, Machine.trace, List.filterMap_cons, hlow] using ih
      · simp [logging, writtenBy, Machine.trace, hlow, ih, pushRing_recent]

end Desmos.Core
