import MGServer.Verified.ByteString

/-!
# The part of spdlog behind the server's log

From `include/spdlog`: the constructor of `daily_file_sink`, the registry of
loggers and `daily_logger_mt`.  The sink's file name carries the date of the
day; whether that file can be opened in one of the five tries is an input
here, `opens`.  The registry is never empty: its constructor puts the default
logger into it under the empty name, so a logger without a name cannot be
created.
-/

namespace MGServer.Ports.Spdlog

open MGServer.Verified.ByteString

/-- `spdlog_ex`, by what it says. -/
inductive SpdlogEx where
  /-- daily_file_sink: Invalid rotation time in ctor -/
  | invalidRotationTime
  /-- Failed opening file … for writing -/
  | failedOpeningFile
  /-- logger with name '…' already exists -/
  | loggerExists (logger_name : Bytes)
  deriving Repr, DecidableEq

/-! ## The sink -/

/-- The constructor's check. -/
def InvalidRotation (rotation_hour rotation_minute : Int) : Prop :=
  rotation_hour < 0 ∨ rotation_hour > 23 ∨ rotation_minute < 0 ∨ rotation_minute > 59

instance (rotation_hour rotation_minute : Int) :
    Decidable (InvalidRotation rotation_hour rotation_minute) :=
  inferInstanceAs (Decidable (_ ∨ _ ∨ _ ∨ _))

/-- A sink the constructor has let through. -/
structure DailyFileSink where
  base_filename_ : Bytes
  rotation_h_ : Int
  rotation_m_ : Int
  truncate_ : Bool
  valid : ¬ InvalidRotation rotation_h_ rotation_m_
  deriving DecidableEq

def dailyFileSink (opens : Bool) (base_filename : Bytes)
    (rotation_hour rotation_minute : Int) (truncate : Bool) :
    Except SpdlogEx DailyFileSink :=
  if hInvalid : InvalidRotation rotation_hour rotation_minute then
    .error .invalidRotationTime
  else if opens then
    .ok ⟨base_filename, rotation_hour, rotation_minute, truncate, hInvalid⟩
  else
    .error .failedOpeningFile

inductive Sink where
  | ansicolorStdout
  | dailyFile (sink : DailyFileSink)
  deriving DecidableEq

structure Logger where
  name_ : Bytes
  sink : Sink
  deriving DecidableEq

/-! ## The registry -/

/-- The loggers by their names, of which there are never two alike, and the
interval of the periodic flusher. -/
structure Registry where
  loggers_ : List Logger
  names : (loggers_.map Logger.name_).Nodup
  periodic_flusher_ : Option Nat
  deriving DecidableEq

namespace Registry

/-- The registry as its constructor leaves it. -/
def start : Registry where
  loggers_ := [⟨[], .ansicolorStdout⟩]
  names := by simp
  periodic_flusher_ := none

def registerLogger (r : Registry) (new_logger : Logger) : Except SpdlogEx Registry :=
  if hName : new_logger.name_ ∈ r.loggers_.map Logger.name_ then
    .error (.loggerExists new_logger.name_)
  else
    .ok
      { r with
        loggers_ := new_logger :: r.loggers_
        names := List.nodup_cons.2 ⟨hName, r.names⟩ }

def flushEvery (r : Registry) (interval : Nat) : Registry :=
  { r with periodic_flusher_ := some interval }

end Registry

/-- `daily_logger_mt`: the sink first, then the logger is registered. -/
def dailyLoggerMt (opens : Bool) (r : Registry) (logger_name filename : Bytes)
    (hour minute : Int) : Except SpdlogEx (Logger × Registry) := do
  let sink ← dailyFileSink opens filename hour minute false
  let new_logger : Logger := ⟨logger_name, .dailyFile sink⟩
  let r' ← r.registerLogger new_logger
  return (new_logger, r')

/-! ## What a new logger is -/

/-- The logger writes to a daily file of this base name that changes at this
time. -/
def Logger.BuiltWith (l : Logger) (logger_name filename : Bytes) (hour minute : Int) :
    Prop :=
  l.name_ = logger_name ∧
    ∃ sink, l.sink = .dailyFile sink ∧ sink.base_filename_ = filename ∧
      sink.rotation_h_ = hour ∧ sink.rotation_m_ = minute ∧ sink.truncate_ = false

section Daily

variable {opens : Bool} {r r' : Registry} {logger_name filename : Bytes}
  {hour minute : Int} {truncate : Bool} {l : Logger}

theorem dailyFileSink_ok {sink : DailyFileSink}
    (hSink : dailyFileSink opens filename hour minute truncate = .ok sink) :
    sink.base_filename_ = filename ∧ sink.rotation_h_ = hour ∧
      sink.rotation_m_ = minute ∧ sink.truncate_ = truncate := by
  unfold dailyFileSink at hSink
  split at hSink
  · cases hSink
  · split at hSink
    · cases hSink
      exact ⟨rfl, rfl, rfl, rfl⟩
    · cases hSink

theorem registerLogger_error {ex : SpdlogEx}
    (hRegister : r.registerLogger l = .error ex) :
    ex = .loggerExists l.name_ := by
  unfold Registry.registerLogger at hRegister
  split at hRegister
  · cases hRegister
    rfl
  · cases hRegister

theorem dailyLoggerMt_ok
    (hMade : dailyLoggerMt opens r logger_name filename hour minute = .ok (l, r')) :
    l.BuiltWith logger_name filename hour minute := by
  unfold dailyLoggerMt at hMade
  cases hSink : dailyFileSink opens filename hour minute false with
  | error ex =>
      rw [hSink] at hMade
      cases hMade
  | ok sink =>
      cases hRegister : r.registerLogger ⟨logger_name, .dailyFile sink⟩ with
      | error ex =>
          simp only [bind, Except.bind, hSink, hRegister] at hMade
          cases hMade
      | ok r'' =>
          simp only [bind, Except.bind, hSink, hRegister] at hMade
          cases hMade
          exact ⟨rfl, sink, rfl, dailyFileSink_ok hSink⟩

/-- Only the constructor's check throws for the rotation time. -/
theorem dailyLoggerMt_invalid_iff :
    dailyLoggerMt opens r logger_name filename hour minute =
      .error .invalidRotationTime ↔
      InvalidRotation hour minute := by
  unfold dailyLoggerMt dailyFileSink
  by_cases hInvalid : InvalidRotation hour minute
  · rw [dif_pos hInvalid]
    exact iff_of_true rfl hInvalid
  · rw [dif_neg hInvalid]
    refine iff_of_false ?_ hInvalid
    intro hThrown
    cases opens with
    | false => cases hThrown
    | true =>
        cases hRegister : r.registerLogger
            ⟨logger_name, .dailyFile ⟨filename, hour, minute, false, hInvalid⟩⟩ with
        | error ex =>
            obtain rfl := registerLogger_error hRegister
            simp only [if_true, bind, Except.bind, hRegister] at hThrown
            cases hThrown
        | ok r' =>
            simp only [if_true, bind, Except.bind, hRegister] at hThrown
            cases hThrown

end Daily

end MGServer.Ports.Spdlog
