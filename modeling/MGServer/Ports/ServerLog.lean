import MGServer.Ports.ServerConfNumbers
import MGServer.Ports.Spdlog

/-!
# The server's log

Port of `server/source/ServerLog.cpp` and of the `LOG_` macros of `defines.h`,
which all go through `GetRotatingLogger`.  Two lazily created singletons meet
here: the logger is built from whatever `LoggerInfo` holds at the first call
that does not throw, and it is never built again.

The loader stores any byte as `hour` and `minutes`, while the sink's
constructor throws for a time that is not one of the day.
-/

namespace MGServer.Ports.ServerLog

open MGServer.Verified.ByteString
open MGServer.Verified.Assignments
open MGServer.Verified.Transition
open MGServer.Ports.TinyXml
open MGServer.Ports.ServerConf
open MGServer.Ports.Spdlog

/-- The `ServerLog` object, and the registry of spdlog it works on. -/
structure Log where
  RotatingLogger : Option Logger
  registry : Registry
  deriving DecidableEq

/-- Before the first call. -/
def Log.start : Log := ⟨none, Registry.start⟩

/-- The guarded half of `InitLog`. -/
def Log.build (log : Log) (info : stLoggerInfo) (opens : Bool) : Except SpdlogEx Log :=
  match log.RotatingLogger with
  | some _ => .ok log
  | none =>
      (dailyLoggerMt opens log.registry info.LoggerName info.LogFilePath info.hour.toNat
        info.minutes.toNat).map fun made => ⟨some made.1, made.2⟩

/-- `InitLog`, for the `LoggerInfo` the configuration holds at the call. -/
def Log.initLog (log : Log) (info : stLoggerInfo)
    (opens : Bool) : Except SpdlogEx Log :=
  (log.build info opens).map fun log =>
    { log with registry := log.registry.flushEvery info.flushCache.toNat }

/-- `GetRotatingLogger`: the pointer it returns, and the object after it. -/
def Log.getRotatingLogger (log : Log) (info : stLoggerInfo) (opens : Bool) :
    Except SpdlogEx (Option Logger × Log) :=
  match log.RotatingLogger with
  | some logger => .ok (some logger, log)
  | none => (log.initLog info opens).map fun log => (log.RotatingLogger, log)

/-! ## One call -/

/-- The logger is the one this configuration asks for. -/
def FollowsInfo (info : stLoggerInfo) (logger : Logger) : Prop :=
  logger.BuiltWith info.LoggerName info.LogFilePath info.hour.toNat info.minutes.toNat

/-- The logger that was there before, or else one that follows `info`. -/
def LoggerAfter (before : Option Logger) (info : stLoggerInfo) (logger : Logger) :
    Prop :=
  before = some logger ∨ (before = none ∧ FollowsInfo info logger)

section Call

variable {log log' : Log} {info : stLoggerInfo} {opens : Bool} {logger : Logger}

theorem map_eq_ok {ε α γ : Type} {f : α → γ} {x : Except ε α} {c : γ} :
    x.map f = .ok c ↔ ∃ a, x = .ok a ∧ f a = c := by
  cases x with
  | error e => simp [Except.map]
  | ok a => simp [Except.map]

theorem map_eq_error {ε α γ : Type} {f : α → γ} {x : Except ε α} {e : ε} :
    x.map f = .error e ↔ x = .error e := by
  cases x with
  | error e' => simp [Except.map]
  | ok a => simp [Except.map]

/-- **What `InitLog` leaves.** A logger that is there stays; otherwise the
call has built one from `info`. -/
theorem initLog_ok (hInit : log.initLog info opens = .ok log') :
    ∃ logger, log'.RotatingLogger = some logger ∧
      LoggerAfter log.RotatingLogger info logger := by
  obtain ⟨built, hBuilt, rfl⟩ := map_eq_ok.1 hInit
  unfold Log.build at hBuilt
  cases hOld : log.RotatingLogger with
  | some logger =>
      rw [hOld] at hBuilt
      cases hBuilt
      exact ⟨logger, hOld, Or.inl rfl⟩
  | none =>
      rw [hOld] at hBuilt
      obtain ⟨made, hMade, rfl⟩ := map_eq_ok.1 hBuilt
      exact ⟨made.1, rfl, Or.inr ⟨rfl, dailyLoggerMt_ok hMade⟩⟩

/-- `InitLog` throws for the rotation time exactly when it has to build a
logger and `info` holds no time of the day. -/
theorem initLog_invalid_iff :
    log.initLog info opens = .error .invalidRotationTime ↔
      log.RotatingLogger = none ∧
      InvalidRotation info.hour.toNat info.minutes.toNat := by
  rw [Log.initLog, map_eq_error, Log.build]
  cases hOld : log.RotatingLogger with
  | some logger => simp
  | none =>
      simp only [map_eq_error, dailyLoggerMt_invalid_iff, true_and]

theorem getRotatingLogger_some (hOld : log.RotatingLogger = some logger) :
    log.getRotatingLogger info opens = .ok (some logger, log) := by
  unfold Log.getRotatingLogger
  rw [hOld]

theorem getRotatingLogger_none (hOld : log.RotatingLogger = none) :
    log.getRotatingLogger info opens =
      (log.initLog info opens).map fun log => (log.RotatingLogger, log) := by
  unfold Log.getRotatingLogger
  rw [hOld]

theorem getRotatingLogger_ok {returned : Option Logger}
    (hGet : log.getRotatingLogger info opens = .ok (returned, log')) :
    ∃ logger, returned = some logger ∧ log'.RotatingLogger = some logger ∧
      LoggerAfter log.RotatingLogger info logger := by
  cases hOld : log.RotatingLogger with
  | some logger =>
      rw [getRotatingLogger_some hOld] at hGet
      cases hGet
      exact ⟨logger, rfl, hOld, Or.inl rfl⟩
  | none =>
      rw [getRotatingLogger_none hOld] at hGet
      obtain ⟨built, hInit, hPair⟩ := map_eq_ok.1 hGet
      cases hPair
      obtain ⟨logger, hNew, hAfter⟩ := initLog_ok hInit
      rw [hOld] at hAfter
      exact ⟨logger, hNew, hNew, hAfter⟩

theorem getRotatingLogger_invalid_iff :
    log.getRotatingLogger info opens = .error .invalidRotationTime ↔
      log.RotatingLogger = none ∧
      InvalidRotation info.hour.toNat info.minutes.toNat := by
  cases hOld : log.RotatingLogger with
  | some logger => simp [getRotatingLogger_some hOld]
  | none => rw [getRotatingLogger_none hOld, map_eq_error, initLog_invalid_iff, hOld]

end Call

/-! ## An accepted configuration -/

/-- The rotation time is one of the day, and neither call makes the sink's
constructor throw for it. -/
def StartsLogger (info : stLoggerInfo) : Prop :=
  (info.hour ≤ 23 ∧ info.minutes ≤ 59) ∧
    ∀ (log : Log) (opens : Bool),
      log.initLog info opens ≠ .error .invalidRotationTime ∧
      log.getRotatingLogger info opens ≠ .error .invalidRotationTime

/-- The low bytes of the last `hour` and `minutes` entries make a time of the
day. -/
def RotationFits (file : File) : Prop :=
  (∀ value, lastOf (bytesOf "hour") (loadedEntries file (bytesOf "loggerinfo")) =
    some value → atoi value % 256 ≤ 23) ∧
  (∀ value, lastOf (bytesOf "minutes") (loadedEntries file (bytesOf "loggerinfo")) =
    some value → atoi value % 256 ≤ 59)

theorem not_invalidRotation_iff (info : stLoggerInfo) :
    ¬ InvalidRotation info.hour.toNat info.minutes.toNat ↔
      info.hour ≤ 23 ∧ info.minutes ≤ 59 := by
  rw [UInt8.le_iff_toNat_le, UInt8.le_iff_toNat_le]
  show ¬ _ ↔ info.hour.toNat ≤ 23 ∧ info.minutes.toNat ≤ 59
  unfold InvalidRotation
  omega

theorem startsLogger_iff (info : stLoggerInfo) :
    StartsLogger info ↔ info.hour ≤ 23 ∧ info.minutes ≤ 59 := by
  constructor
  · exact fun hStarts => hStarts.1
  · intro hTime
    have hValid := (not_invalidRotation_iff info).2 hTime
    refine ⟨hTime, fun log opens => ⟨?_, ?_⟩⟩
    · intro hThrown
      exact hValid (initLog_invalid_iff.1 hThrown).2
    · intro hThrown
      exact hValid (getRotatingLogger_invalid_iff.1 hThrown).2

/-- A byte field set from the entries, on top of zero, stays within a bound
that zero meets. -/
theorem setting_toUInt8_le_iff (es : List (Bytes × Bytes)) (k : Bytes) (bound : UInt8) :
    setting es k toUInt8 0 ≤ bound ↔
      ∀ value, lastOf k es = some value → atoi value % 256 ≤ bound.toNat := by
  rw [UInt8.le_iff_toNat_le, setting]
  cases lastOf k es with
  | none => simp
  | some value =>
      simp only [Option.elim, Option.some.injEq, forall_eq']
      rw [toUInt8, UInt8.ofInt, UInt8.toNat_ofNat']
      omega

/-- **A configuration that can start the log.** For every file, on top of a
fresh configuration: a load that returns true leaves a rotation time the sink
takes exactly when the low bytes of the last `hour` and `minutes` entries are
one. -/
theorem logger_starts_iff (file : File) :
    (∀ s', loadServerConf {} (Files.same file) = .loaded s' →
      StartsLogger s'.LoggerInfo) ↔
      ((Files.same file).Loadable → RotationFits file) := by
  have hStored : ∀ s', loadServerConf {} (Files.same file) = .loaded s' →
      (StartsLogger s'.LoggerInfo ↔ RotationFits file) := by
    intro s' hLoad
    rw [startsLogger_iff, (reloaded_of_loaded hLoad).logger]
    exact and_congr (setting_toUInt8_le_iff _ _ 23) (setting_toUInt8_le_iff _ _ 59)
  constructor
  · intro hAll hLoadable
    obtain ⟨s', hLoad⟩ := (loadServerConf_loaded_iff {} _).2 hLoadable
    exact (hStored s' hLoad).1 (hAll s' hLoad)
  · intro hFits s' hLoad
    exact (hStored s' hLoad).2 (hFits ((loadServerConf_loaded_iff {} _).1 ⟨s', hLoad⟩))

/-- Hour 24 is accepted, and the first log call throws. -/
theorem logger_fails_hourDoc :
    ¬ ∀ (file : File) (s' : Conf), loadServerConf {} (Files.same file) = .loaded s' →
      StartsLogger s'.LoggerInfo := by
  intro hAll
  have hLoad : loadServerConf {} (Files.same (some (hourDoc "24"))) =
      .loaded
        { AddressInfo := { port := 2019, backlog := 2147483647 }
          LoggerInfo := { hour := 24 }
          RedisInfo := { redisPort := 6379 } } := by decide +kernel
  have hThrown : Log.start.getRotatingLogger { hour := 24 } true =
      .error .invalidRotationTime := getRotatingLogger_invalid_iff.2 ⟨rfl, by decide⟩
  exact ((hAll _ _ hLoad).2 Log.start true).2 hThrown

/-! ## Loads and log calls in any order -/

/-- The two singletons. -/
structure System where
  conf : Conf
  log : Log
  deriving DecidableEq

def System.start : System := ⟨{}, Log.start⟩

inductive Call where
  | loadServerConf (files : Files)
  | initLog (opens : Bool)
  | getRotatingLogger (opens : Bool)

/-- A load that uses a null pointer has no successor; a call that throws
leaves both objects as they were. -/
def System.step (s : System) : Call → Option System
  | .loadServerConf files =>
      match loadServerConf s.conf files with
      | .loaded conf => some { s with conf := conf }
      | .failed conf => some { s with conf := conf }
      | .crashed => none
  | .initLog opens =>
      match s.log.initLog s.conf.LoggerInfo opens with
      | .ok log => some { s with log := log }
      | .error _ => some s
  | .getRotatingLogger opens =>
      match s.log.getRotatingLogger s.conf.LoggerInfo opens with
      | .ok (_, log) => some { s with log := log }
      | .error _ => some s

def Call.loads : Call → Bool
  | .loadServerConf _ => true
  | _ => false

section Runs

variable {s s' : System} {call : Call} {logger : Logger}

/-- **One call.** A load leaves the log alone; a log call leaves the
configuration alone, and the logger pointer too unless it sets it to what the
configuration asks for. -/
theorem step_cases (hStep : s.step call = some s') :
    (call.loads = true ∧ s'.log = s.log) ∨
    (call.loads = false ∧ s'.conf = s.conf ∧
      (s'.log = s.log ∨
        ∃ logger, s'.log.RotatingLogger = some logger ∧
          LoggerAfter s.log.RotatingLogger s.conf.LoggerInfo logger)) := by
  cases call with
  | loadServerConf files =>
      simp only [System.step] at hStep
      split at hStep
      · cases hStep
        exact Or.inl ⟨rfl, rfl⟩
      · cases hStep
        exact Or.inl ⟨rfl, rfl⟩
      · cases hStep
  | initLog opens =>
      simp only [System.step] at hStep
      split at hStep
      · rename_i log hInit
        cases hStep
        exact Or.inr ⟨rfl, rfl, Or.inr (initLog_ok hInit)⟩
      · cases hStep
        exact Or.inr ⟨rfl, rfl, Or.inl rfl⟩
  | getRotatingLogger opens =>
      simp only [System.step] at hStep
      split at hStep
      · rename_i returned log hGet
        cases hStep
        obtain ⟨logger, -, hNew, hAfter⟩ := getRotatingLogger_ok hGet
        exact Or.inr ⟨rfl, rfl, Or.inr ⟨logger, hNew, hAfter⟩⟩
      · cases hStep
        exact Or.inr ⟨rfl, rfl, Or.inl rfl⟩

/-- A logger that is there stays, whatever is called. -/
theorem step_keeps (hOld : s.log.RotatingLogger = some logger)
    (hStep : s.step call = some s') : s'.log.RotatingLogger = some logger := by
  rcases step_cases hStep with ⟨-, hLog⟩ | ⟨-, -, hLog | ⟨logger', hNew, hAfter⟩⟩
  · rw [hLog]
    exact hOld
  · rw [hLog]
    exact hOld
  · rw [hOld] at hAfter
    rcases hAfter with hSame | ⟨hNone, -⟩
    · rw [hNew]
      exact hSame.symm
    · cases hNone

end Runs

/-- The configuration is `conf`, and a logger that is there is the old one or
follows `conf`. -/
structure Settled (before : Option Logger) (conf : Conf) (s : System) : Prop where
  conf_eq : s.conf = conf
  logger : (s.log.RotatingLogger = none ∧ before = none) ∨
    ∃ logger, s.log.RotatingLogger = some logger ∧
      LoggerAfter before conf.LoggerInfo logger

section Settled

variable {before : Option Logger} {conf : Conf} {s s' : System} {call : Call}

theorem Settled.loggerAfter (hSettled : Settled before conf s) {logger : Logger}
    (hAfter : LoggerAfter s.log.RotatingLogger s.conf.LoggerInfo logger) :
    LoggerAfter before conf.LoggerInfo logger := by
  rw [hSettled.conf_eq] at hAfter
  rcases hSettled.logger with ⟨hNone, hBefore⟩ | ⟨logger', hSome, hOrigin⟩
  · rw [hNone] at hAfter
    rw [hBefore]
    exact hAfter
  · rw [hSome] at hAfter
    rcases hAfter with hEq | ⟨hEq, -⟩
    · cases hEq
      exact hOrigin
    · cases hEq

theorem Settled.quiet_step (hSettled : Settled before conf s)
    (hCall : call.loads = false) (hStep : s.step call = some s') :
    Settled before conf s' := by
  rcases step_cases hStep with ⟨hLoads, -⟩ | ⟨-, hConf, hLog⟩
  · rw [hCall] at hLoads
    cases hLoads
  · refine ⟨hConf.trans hSettled.conf_eq, ?_⟩
    rcases hLog with hSame | ⟨logger, hNew, hAfter⟩
    · rw [hSame]
      exact hSettled.logger
    · exact Or.inr ⟨logger, hNew, hSettled.loggerAfter hAfter⟩

theorem Settled.quiet_run (hSettled : Settled before conf s) {calls : List Call}
    (hQuiet : ∀ call ∈ calls, call.loads = false)
    (hRun : run System.step s calls = some s') : Settled before conf s' :=
  run_preserves_on System.step (Q := fun call => call.loads = false)
    (fun _ _ _ hCall hP hOne => hP.quiet_step hCall hOne) hQuiet hSettled hRun

end Settled

section Follows

variable {pre mid post : List Call} {files : Files} {opens : Bool} {s₀ s₁ s : System}
  {conf : Conf}

/-- The state behind a load that returned true. -/
theorem settled_of_load (hPre : run System.step System.start pre = some s₀)
    (hLoad : loadServerConf s₀.conf files = .loaded conf)
    (hMid :
      run System.step System.start (pre ++ .loadServerConf files :: mid) = some s₁)
    (hQuiet : ∀ call ∈ mid, call.loads = false) :
    Settled s₀.log.RotatingLogger conf s₁ := by
  rw [run_append, hPre, Option.bind_some] at hMid
  obtain ⟨loaded, hStep, hRest⟩ := (run_cons_eq_some System.step).1 hMid
  simp only [System.step, hLoad] at hStep
  cases hStep
  have hSettled : Settled s₀.log.RotatingLogger conf { s₀ with conf := conf } := by
    refine ⟨rfl, ?_⟩
    cases hOld : s₀.log.RotatingLogger with
    | none => exact Or.inl ⟨rfl, rfl⟩
    | some logger => exact Or.inr ⟨logger, rfl, Or.inl rfl⟩
  exact hSettled.quiet_run hQuiet hRest

/-- **The log and the configuration.** In every run of loads and log calls,
take a load that returned true and an `InitLog` after it with no other load in
between.  If that `InitLog` returned, every later `GetRotatingLogger` returns:
the logger that was there before the load, or, if there was none, one built
with what this load stored.  If it threw, this holds of every later
`GetRotatingLogger` that returns before the next load. -/
theorem logger_follows_load (hPre : run System.step System.start pre = some s₀)
    (hLoad : loadServerConf s₀.conf files = .loaded conf)
    (hMid :
      run System.step System.start (pre ++ .loadServerConf files :: mid) = some s₁)
    (hQuiet : ∀ call ∈ mid, call.loads = false)
    (hRun : run System.step System.start
      (pre ++ .loadServerConf files :: mid ++ .initLog opens :: post) = some s)
    (opens' : Bool) :
    ((∃ log, s₁.log.initLog s₁.conf.LoggerInfo opens = .ok log) →
      ∃ logger, s.log.getRotatingLogger s.conf.LoggerInfo opens' =
        .ok (some logger, s.log) ∧
        LoggerAfter s₀.log.RotatingLogger conf.LoggerInfo logger) ∧
    ((∀ call ∈ post, call.loads = false) → ∀ returned log,
      s.log.getRotatingLogger s.conf.LoggerInfo opens' = .ok (returned, log) →
      ∃ logger, returned = some logger ∧
        LoggerAfter s₀.log.RotatingLogger conf.LoggerInfo logger) := by
  have hSettled := settled_of_load hPre hLoad hMid hQuiet
  rw [run_append, hMid, Option.bind_some] at hRun
  obtain ⟨s₂, hInit, hPost⟩ := (run_cons_eq_some System.step).1 hRun
  constructor
  · rintro ⟨log, hReturned⟩
    simp only [System.step, hReturned] at hInit
    cases hInit
    obtain ⟨logger, hNew, hAfter⟩ := initLog_ok hReturned
    -- from here on no call touches the pointer
    have hKept : s.log.RotatingLogger = some logger :=
      run_preserves System.step (P := fun s => s.log.RotatingLogger = some logger)
        (fun _ _ _ hOld hStep => step_keeps hOld hStep) hNew hPost
    exact ⟨logger, getRotatingLogger_some hKept, hSettled.loggerAfter hAfter⟩
  · intro hNoLoad returned log hGet
    have hSettled' := (hSettled.quiet_step rfl hInit).quiet_run hNoLoad hPost
    obtain ⟨logger, hReturned, -, hAfter⟩ := getRotatingLogger_ok hGet
    exact ⟨logger, hReturned, hSettled'.loggerAfter hAfter⟩

end Follows

/-- A configuration with a logger of this name. -/
def logDoc (name : String) : List Node :=
  [tag "server" []
    [tag "addressInfo" [] [],
      tag "loggerinfo" []
        [valueTag "LoggerName" name, valueTag "LogFilePath" "logs/server.log",
          valueTag "hour" "2", valueTag "minutes" "30"],
      tag "redisInfo" [] [],
      tag "uniqueInfo" [] []]]

def logFiles (name : String) : Files := Files.same (some (logDoc name))

/-- What a load of `logDoc` stores in a fresh configuration. -/
def logConf (name : String) : Conf :=
  { LoggerInfo :=
      { LoggerName := bytesOf name
        LogFilePath := bytesOf "logs/server.log"
        hour := 2
        minutes := 30 } }

/-- A load, a log call that cannot open its file and one that can. -/
def startUp : List Call :=
  .loadServerConf (logFiles "game") :: [.getRotatingLogger false,
    .getRotatingLogger true]

theorem logger_follows_load_startUp :
    ∃ s, run System.step System.start
        (startUp ++ .initLog true :: [.loadServerConf (logFiles "gate")]) = some s ∧
      ∃ logger, s.log.getRotatingLogger s.conf.LoggerInfo false =
        .ok (some logger, s.log) ∧
        LoggerAfter none (logConf "game").LoggerInfo logger := by
  have hLoad : loadServerConf {} (logFiles "game") = .loaded (logConf "game") := by
    decide +kernel
  have hMid : (run System.step System.start startUp).map
      (fun s => (s.log.initLog s.conf.LoggerInfo true).toBool) = some true := by
    decide +kernel
  have hRun : (run System.step System.start
      (startUp ++ .initLog true :: [.loadServerConf (logFiles "gate")])).isSome := by
    decide +kernel
  obtain ⟨s₁, hMid, hOk⟩ := Option.map_eq_some_iff.1 hMid
  obtain ⟨s, hRun⟩ := Option.isSome_iff_exists.1 hRun
  have hReturned : ∃ log, s₁.log.initLog s₁.conf.LoggerInfo true = .ok log := by
    cases hInit : s₁.log.initLog s₁.conf.LoggerInfo true with
    | ok log => exact ⟨log, rfl⟩
    | error ex =>
        rw [hInit] at hOk
        cases hOk
  have hStart : run System.step System.start [] = some System.start := rfl
  exact ⟨s, hRun,
    (logger_follows_load hStart hLoad hMid (by decide) hRun false).1 hReturned⟩

/-- The first configuration has built the logger; after the second is loaded
and `InitLog` is called, the log is still the first one's. -/
theorem logger_ignores_reload :
    ¬ ∀ (pre mid post : List Call) (files : Files) (opens opens' : Bool)
      (s₀ s : System) (conf : Conf) (returned : Option Logger) (log : Log),
      run System.step System.start pre = some s₀ →
      loadServerConf s₀.conf files = .loaded conf →
      run System.step System.start
        (pre ++ .loadServerConf files :: mid ++ .initLog opens :: post) = some s →
      s.log.getRotatingLogger s.conf.LoggerInfo opens' = .ok (returned, log) →
      ∃ logger, returned = some logger ∧ FollowsInfo conf.LoggerInfo logger := by
  intro hAll
  have hPre : (run System.step System.start
      [.loadServerConf (logFiles "game"), .initLog true]).map System.conf =
        some (logConf "game") := by decide +kernel
  have hRun : (run System.step System.start
      ([.loadServerConf (logFiles "game"), .initLog true] ++
        .loadServerConf (logFiles "gate") :: [] ++ .initLog true :: [])).map
      (fun s => s.log.RotatingLogger.map Logger.name_) =
        some (some (bytesOf "game")) := by
    decide +kernel
  obtain ⟨s₀, hPre, hConf⟩ := Option.map_eq_some_iff.1 hPre
  obtain ⟨s, hRun, hName⟩ := Option.map_eq_some_iff.1 hRun
  obtain ⟨logger, hOld, hName⟩ := Option.map_eq_some_iff.1 hName
  have hLoad : loadServerConf s₀.conf (logFiles "gate") = .loaded (logConf "gate") := by
    rw [hConf]
    decide +kernel
  obtain ⟨logger', hSame, hFollows⟩ :=
    hAll _ [] [] _ true true s₀ s _ _ _ hPre hLoad hRun
    (getRotatingLogger_some hOld)
  cases hSame
  have hGate : bytesOf "game" = bytesOf "gate" := hName.symm.trans hFollows.1
  revert hGate
  decide

end MGServer.Ports.ServerLog
