import MGServer.Ports.ServerConfMeaning
import MGServer.Verified.Transition

/-!
# Loading the configuration again

`ServerConf` is one object that may be loaded any number of times.  A load
only ever assigns: no loader resets a field it finds no entry for, and nothing
writes `bAllConfLoadedRight` after the constructor.  So a reload keeps what
the new file does not mention, and the flag says true from the start.
-/

namespace MGServer.Ports.ServerConf

open MGServer.Verified.ByteString
open MGServer.Verified.Assignments
open MGServer.Verified.Transition
open MGServer.Ports.TinyXml

/-! ## What a reload keeps -/

/-- The entries the loop of a section works through. -/
def loadedEntries (file : File) (name : Bytes) : List (Bytes × Bytes) :=
  match file.bind fun doc => sectionIn doc name with
  | some info => entriesOf (valuesOf info)
  | none => []

theorem Applied.eq_assignAll {α : Type} {sec : Section α} {file : File} {st st' : α}
    (hApplied : Applied sec file st st') :
    st' = assignAll sec.rules (loadedEntries file sec.name) st := by
  obtain ⟨doc, info, rfl, hInfo, -, hSt⟩ := hApplied
  simp only [loadedEntries, Option.bind_some, hInfo]
  exact hSt

/-- The two structures agree on every field without an entry. -/
def addressAgree (es : List (Bytes × Bytes)) (a b : stAddressInfo) : Prop :=
  (bytesOf "serverIp" ∉ es.map Prod.fst → a.serverIp = b.serverIp) ∧
  (bytesOf "port" ∉ es.map Prod.fst → a.port = b.port) ∧
  (bytesOf "maxevents" ∉ es.map Prod.fst → a.maxEvents = b.maxEvents) ∧
  (bytesOf "backlog" ∉ es.map Prod.fst → a.backlog = b.backlog) ∧
  (bytesOf "WorkerThreadTaskMax" ∉ es.map Prod.fst →
    a.WorkerThreadTaskMax = b.WorkerThreadTaskMax) ∧
  (bytesOf "timeCheckAcceptClient" ∉ es.map Prod.fst →
    a.timeCheckAcceptClient = b.timeCheckAcceptClient)

def loggerAgree (es : List (Bytes × Bytes)) (a b : stLoggerInfo) : Prop :=
  (bytesOf "LoggerName" ∉ es.map Prod.fst → a.LoggerName = b.LoggerName) ∧
  (bytesOf "LogFilePath" ∉ es.map Prod.fst → a.LogFilePath = b.LogFilePath) ∧
  (bytesOf "hour" ∉ es.map Prod.fst → a.hour = b.hour) ∧
  (bytesOf "minutes" ∉ es.map Prod.fst → a.minutes = b.minutes) ∧
  (bytesOf "flushCache" ∉ es.map Prod.fst → a.flushCache = b.flushCache)

def redisAgree (es : List (Bytes × Bytes)) (a b : stRedisInfo) : Prop :=
  (bytesOf "redisAddress" ∉ es.map Prod.fst → a.redisAddress = b.redisAddress) ∧
  (bytesOf "redisPort" ∉ es.map Prod.fst → a.redisPort = b.redisPort)

def uniqueAgree (es : List (Bytes × Bytes)) (a b : stUniqueInfo) : Prop :=
  bytesOf "serverID" ∉ es.map Prod.fst → a.serverID = b.serverID

section Agree

variable {es : List (Bytes × Bytes)}

theorem addressMeaning_eq_iff {a b : stAddressInfo} :
    addressMeaning es a = addressMeaning es b ↔ addressAgree es a b := by
  simp only [addressMeaning, stAddressInfo.mk.injEq, setting_eq_iff, addressAgree]

theorem loggerMeaning_eq_iff {a b : stLoggerInfo} :
    loggerMeaning es a = loggerMeaning es b ↔ loggerAgree es a b := by
  simp only [loggerMeaning, stLoggerInfo.mk.injEq, setting_eq_iff, loggerAgree]

theorem redisMeaning_eq_iff {a b : stRedisInfo} :
    redisMeaning es a = redisMeaning es b ↔ redisAgree es a b := by
  simp only [redisMeaning, stRedisInfo.mk.injEq, setting_eq_iff, redisAgree]

theorem uniqueMeaning_eq_iff {a b : stUniqueInfo} :
    uniqueMeaning es a = uniqueMeaning es b ↔ uniqueAgree es a b := by
  simp only [uniqueMeaning, stUniqueInfo.mk.injEq, setting_eq_iff, uniqueAgree]

end Agree

/-- The four structures, without the flag. -/
def Conf.SameInfo (s t : Conf) : Prop :=
  s.AddressInfo = t.AddressInfo ∧ s.LoggerInfo = t.LoggerInfo ∧
  s.RedisInfo = t.RedisInfo ∧ s.UniqueInfo = t.UniqueInfo

/-- What the file says on top of a prior configuration, for whatever elements
the sections hold. -/
structure Reloaded (file : File) (s s' : Conf) : Prop where
  address : s'.AddressInfo =
    addressMeaning (loadedEntries file (bytesOf "addressInfo")) s.AddressInfo
  logger : s'.LoggerInfo =
    loggerMeaning (loadedEntries file (bytesOf "loggerinfo")) s.LoggerInfo
  redis : s'.RedisInfo =
    redisMeaning (loadedEntries file (bytesOf "redisInfo")) s.RedisInfo
  unique : s'.UniqueInfo =
    uniqueMeaning (loadedEntries file (bytesOf "uniqueInfo")) s.UniqueInfo

theorem reloaded_of_loaded {file : File} {s s' : Conf}
    (hLoad : loadServerConf s (Files.same file) = .loaded s') : Reloaded file s s' := by
  obtain ⟨hAddress, hLogger, hRedis, hUnique, -⟩ := loadServerConf_loaded hLoad
  exact
    { address := by rw [hAddress.eq_assignAll, addressSection_meaning]; rfl
      logger := by rw [hLogger.eq_assignAll, loggerSection_meaning]; rfl
      redis := by rw [hRedis.eq_assignAll, redisSection_meaning]; rfl
      unique := by rw [hUnique.eq_assignAll, uniqueSection_meaning]; rfl }

/-- **What a reload keeps.** Two successful loads of one file leave, in each
field, the conversion of the last entry of its type or else what the field
held before; so they leave the same configuration exactly when the prior ones
agree on every field the file has no entry for. -/
theorem reload_same_iff {file : File} {s t s' t' : Conf}
    (hLoad : loadServerConf s (Files.same file) = .loaded s')
    (hLoad' : loadServerConf t (Files.same file) = .loaded t') :
    (Reloaded file s s' ∧ Reloaded file t t') ∧
    (s'.SameInfo t' ↔
      addressAgree (loadedEntries file (bytesOf "addressInfo")) s.AddressInfo
        t.AddressInfo ∧
      loggerAgree (loadedEntries file (bytesOf "loggerinfo")) s.LoggerInfo
        t.LoggerInfo ∧
      redisAgree (loadedEntries file (bytesOf "redisInfo")) s.RedisInfo t.RedisInfo ∧
      uniqueAgree (loadedEntries file (bytesOf "uniqueInfo")) s.UniqueInfo
        t.UniqueInfo) := by
  have hReload := reloaded_of_loaded hLoad
  have hReload' := reloaded_of_loaded hLoad'
  refine ⟨⟨hReload, hReload'⟩, ?_⟩
  rw [Conf.SameInfo, hReload.address, hReload.logger, hReload.redis, hReload.unique,
    hReload'.address, hReload'.logger, hReload'.redis, hReload'.unique,
    addressMeaning_eq_iff, loggerMeaning_eq_iff, redisMeaning_eq_iff,
    uniqueMeaning_eq_iff]

/-- A configuration whose `redisPort` is left from an earlier load. -/
def oldConf : Conf := { RedisInfo := { redisPort := 6379 } }

theorem loadServerConf_sampleDoc :
    loadServerConf {} (Files.same (some sampleDoc)) =
      .loaded (meaning sampleDoc {}) := by
  decide +kernel

theorem loadServerConf_sampleDoc_oldConf :
    loadServerConf oldConf (Files.same (some sampleDoc)) =
      .loaded (meaning sampleDoc oldConf) := by
  decide +kernel

/-- The `redisInfo` section of `sampleDoc` is empty, so the old port stays. -/
theorem reload_same_iff_oldConf :
    ∃ s' t', loadServerConf {} (Files.same (some sampleDoc)) = .loaded s' ∧
      loadServerConf oldConf (Files.same (some sampleDoc)) = .loaded t' ∧
      Reloaded (some sampleDoc) oldConf t' ∧
      (s'.SameInfo t' →
        redisAgree (loadedEntries (some sampleDoc) (bytesOf "redisInfo")) {}
          oldConf.RedisInfo) := by
  have hSame :=
    reload_same_iff loadServerConf_sampleDoc loadServerConf_sampleDoc_oldConf
  exact ⟨_, _, loadServerConf_sampleDoc, loadServerConf_sampleDoc_oldConf, hSame.1.2,
    fun h => (hSame.2.1 h).2.2.1⟩

theorem reload_keeps_removed :
    ¬ ∀ (file : File) (s t s' t' : Conf),
      loadServerConf s (Files.same file) = .loaded s' →
      loadServerConf t (Files.same file) = .loaded t' → s'.SameInfo t' := by
  intro hAll
  have hRedis := (hAll _ _ _ _ _ loadServerConf_sampleDoc
    loadServerConf_sampleDoc_oldConf).2.2.1
  revert hRedis
  decide +kernel

/-! ## The flag -/

/-- A call of a public member. -/
inductive ConfCall where
  | loadServerConf (files : Files)
  | hasLoadConfRight
  | getAddressInfoConfiguration
  | getLoggerInfo
  | getRedisInfo

/-- The object, and what its calls of `LoadServerConf` have returned. -/
structure Session where
  conf : Conf
  returned : List Bool

/-- The object as the constructor leaves it. -/
def Session.start : Session := ⟨{}, []⟩

/-- A load that uses a null pointer has no successor; the other members only
read. -/
def Session.step (s : Session) : ConfCall → Option Session
  | .loadServerConf files =>
      match loadServerConf s.conf files with
      | .loaded conf => some ⟨conf, s.returned ++ [true]⟩
      | .failed conf => some ⟨conf, s.returned ++ [false]⟩
      | .crashed => none
  | _ => some s

/-- `hasLoadConfRight()` says whether the latest load returned true. -/
def Session.Agrees (s : Session) : Prop :=
  s.conf.hasLoadConfRight = true ↔ s.returned.getLast? = some true

def ConfCall.files? : ConfCall → Option Files
  | .loadServerConf files => some files
  | _ => none

/-- The files of the latest load. -/
def lastLoad (calls : List ConfCall) : Option Files :=
  (calls.filterMap ConfCall.files?).getLast?

/-- What the calls say about the session: the flag has never moved, and the
latest result is decided by the latest files. -/
structure Session.Follows (calls : List ConfCall) (s : Session) : Prop where
  flag : s.conf.bAllConfLoadedRight = true
  latest : s.returned.getLast? = some true ↔
    ∃ files, lastLoad calls = some files ∧ files.Loadable

theorem loadServerConf_flag {s s' : Conf} {files : Files}
    (hLoad : loadServerConf s files = .loaded s' ∨
    loadServerConf s files = .failed s') :
    s'.bAllConfLoadedRight = s.bAllConfLoadedRight := by
  rcases hLoad with hLoad | hLoad
  · exact (loadServerConf_loaded hLoad).2.2.2.2
  · rcases loadServerConf_failed hLoad with
      ⟨_, -, rfl⟩ | ⟨_, _, -, -, rfl⟩ | ⟨_, _, _, -, -, -, rfl⟩ |
      ⟨_, _, _, _, -, -, -, -, rfl⟩
    · rfl
    · rfl
    · rfl
    · rfl

theorem lastLoad_snoc_load (calls : List ConfCall) (files : Files) :
    lastLoad (calls ++ [.loadServerConf files]) = some files := by
  simp [lastLoad, ConfCall.files?]

theorem lastLoad_snoc_read {call : ConfCall} (hRead : call.files? = none)
    (calls : List ConfCall) : lastLoad (calls ++ [call]) = lastLoad calls := by
  simp [lastLoad, hRead]

theorem step_follows {calls : List ConfCall} {s s' : Session} {call : ConfCall}
    (hFollows : s.Follows calls) (hStep : s.step call = some s') :
    s'.Follows (calls ++ [call]) := by
  cases call with
  | loadServerConf files =>
      simp only [Session.step] at hStep
      have hDecided := loadServerConf_loaded_iff s.conf files
      cases hLoad : loadServerConf s.conf files with
      | loaded conf =>
          rw [hLoad] at hStep
          cases hStep
          refine ⟨(loadServerConf_flag (.inl hLoad)).trans hFollows.flag, ?_⟩
          rw [lastLoad_snoc_load]
          have hFiles := hDecided.1 ⟨conf, hLoad⟩
          simp [hFiles]
      | failed conf =>
          rw [hLoad] at hStep
          cases hStep
          refine ⟨(loadServerConf_flag (.inr hLoad)).trans hFollows.flag, ?_⟩
          rw [lastLoad_snoc_load]
          have hFiles : ¬ files.Loadable := by
            intro hFiles
            obtain ⟨conf', hLoad'⟩ := hDecided.2 hFiles
            rw [hLoad] at hLoad'
            cases hLoad'
          simp [hFiles]
      | crashed =>
          rw [hLoad] at hStep
          cases hStep
  | _ =>
      cases hStep
      refine ⟨hFollows.flag, ?_⟩
      rw [lastLoad_snoc_read rfl]
      exact hFollows.latest

theorem run_follows {calls : List ConfCall} {s : Session}
    (hRun : run Session.step Session.start calls = some s) : s.Follows calls := by
  refine run_invariant_from Session.step
    (P := fun calls s => s.Follows calls) ?_ ?_ hRun
  · refine ⟨rfl, ?_⟩
    simp [Session.start, lastLoad]
  · intro hist s call s' hFollows hStep
    exact step_follows hFollows hStep

/-- **The load status.** After any sequence of loads and reads, the flag
agrees with the latest load exactly when there was one and its files had, each
time they were opened, the section asked for and only known entries in it. -/
theorem status_agrees_iff {calls : List ConfCall} {s : Session}
    (hRun : run Session.step Session.start calls = some s) :
    s.Agrees ↔ ∃ files, lastLoad calls = some files ∧ files.Loadable := by
  have hFollows := run_follows hRun
  have hFlag : s.conf.hasLoadConfRight = true := hFollows.flag
  rw [Session.Agrees, ← hFollows.latest]
  simp only [hFlag, true_iff]

/-- A good load, a read and a load of a file that is gone. -/
def lostFile : List ConfCall :=
  [.loadServerConf (Files.same (some sampleDoc)), .getRedisInfo,
    .loadServerConf (Files.same none)]

theorem status_agrees_iff_lostFile :
    ∃ s, run Session.step Session.start lostFile = some s ∧
      s.returned = [true, false] ∧
      (s.Agrees ↔ ∃ files, lastLoad lostFile = some files ∧ files.Loadable) := by
  have hReturned : (run Session.step Session.start lostFile).map Session.returned =
      some [true, false] := by decide +kernel
  obtain ⟨s, hRun, hs⟩ := Option.map_eq_some_iff.1 hReturned
  exact ⟨s, hRun, hs, status_agrees_iff hRun⟩

/-- The latest load returned false and the flag says true. -/
theorem status_disagrees_lostFile :
    ¬ ∀ (calls : List ConfCall) (s : Session),
      run Session.step Session.start calls = some s → s.Agrees := by
  intro hAll
  have hBoth : (run Session.step Session.start lostFile).map
      (fun s => (s.conf.hasLoadConfRight, s.returned)) =
        some (true, [true, false]) := by decide +kernel
  obtain ⟨s, hRun, hs⟩ := Option.map_eq_some_iff.1 hBoth
  obtain ⟨hFlag, hReturned⟩ := Prod.mk.inj hs
  have hLast := (hAll lostFile s hRun).1 hFlag
  rw [hReturned] at hLast
  revert hLast
  decide

end MGServer.Ports.ServerConf
