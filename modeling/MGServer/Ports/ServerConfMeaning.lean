import MGServer.Ports.ServerConfLoad

/-!
# What a configuration file says

For a document whose sections hold `value` elements with both attributes and
nothing else, the four loops have a meaning that does not mention them: each
field holds the conversion of the last entry of its type in its own section,
or what it held before.
-/

namespace MGServer.Ports.ServerConf

open MGServer.Verified.ByteString
open MGServer.Verified.Assignments
open MGServer.Ports.TinyXml

/-- The types each section knows. -/
def addressTypes : List Bytes :=
  ["serverIp", "port", "maxevents", "backlog", "WorkerThreadTaskMax",
    "timeCheckAcceptClient"].map bytesOf

def loggerTypes : List Bytes :=
  ["LoggerName", "LogFilePath", "hour", "minutes", "flushCache"].map bytesOf

def redisTypes : List Bytes := ["redisAddress", "redisPort"].map bytesOf

def uniqueTypes : List Bytes := ["serverID"].map bytesOf

def sectionNames : List Bytes :=
  ["addressInfo", "loggerinfo", "redisInfo", "uniqueInfo"].map bytesOf

/-- The child elements of the four sections are `value` elements with both
attributes. -/
def Conformant (doc : List Node) : Prop :=
  ∀ name ∈ sectionNames, ∀ info, sectionIn doc name = some info →
    ∀ e ∈ elements info.children, cstr e.value = bytesOf "value" ∧
      (e.attribute (bytesOf "type")).isSome ∧ (e.attribute (bytesOf "value")).isSome

/-- The entries of a section, in order. -/
def sectionEntries (doc : List Node) (name : Bytes) : List (Bytes × Bytes) :=
  match sectionIn doc name with
  | some info => entriesOf (elements info.children)
  | none => []

/-- The section is there and all its entries are of a known type. -/
def SectionOk (doc : List Node) (name : Bytes) (types : List Bytes) : Prop :=
  (sectionIn doc name).isSome ∧ ∀ entry ∈ sectionEntries doc name, entry.1 ∈ types

def Accepted (doc : List Node) : Prop :=
  SectionOk doc (bytesOf "addressInfo") addressTypes ∧
  SectionOk doc (bytesOf "loggerinfo") loggerTypes ∧
  SectionOk doc (bytesOf "redisInfo") redisTypes ∧
  SectionOk doc (bytesOf "uniqueInfo") uniqueTypes

def addressMeaning (es : List (Bytes × Bytes)) (prior : stAddressInfo) :
    stAddressInfo where
  serverIp := setting es (bytesOf "serverIp") id prior.serverIp
  port := setting es (bytesOf "port") toUInt32 prior.port
  maxEvents := setting es (bytesOf "maxevents") toUInt32 prior.maxEvents
  backlog := setting es (bytesOf "backlog") toUInt32 prior.backlog
  WorkerThreadTaskMax :=
    setting es (bytesOf "WorkerThreadTaskMax") toUInt32 prior.WorkerThreadTaskMax
  timeCheckAcceptClient :=
    setting es (bytesOf "timeCheckAcceptClient") toUInt32 prior.timeCheckAcceptClient

def loggerMeaning (es : List (Bytes × Bytes)) (prior : stLoggerInfo) :
    stLoggerInfo where
  LoggerName := setting es (bytesOf "LoggerName") id prior.LoggerName
  LogFilePath := setting es (bytesOf "LogFilePath") id prior.LogFilePath
  hour := setting es (bytesOf "hour") toUInt8 prior.hour
  minutes := setting es (bytesOf "minutes") toUInt8 prior.minutes
  flushCache := setting es (bytesOf "flushCache") toUInt8 prior.flushCache

def redisMeaning (es : List (Bytes × Bytes)) (prior : stRedisInfo) :
    stRedisInfo where
  redisAddress := setting es (bytesOf "redisAddress") id prior.redisAddress
  redisPort := setting es (bytesOf "redisPort") toUInt32 prior.redisPort

def uniqueMeaning (es : List (Bytes × Bytes)) (prior : stUniqueInfo) :
    stUniqueInfo where
  serverID := setting es (bytesOf "serverID") id prior.serverID

/-- What a document says, for a prior configuration. -/
def meaning (doc : List Node) (s : Conf) : Conf :=
  { s with
    AddressInfo := addressMeaning
      (sectionEntries doc (bytesOf "addressInfo")) s.AddressInfo
    LoggerInfo := loggerMeaning (sectionEntries doc (bytesOf "loggerinfo")) s.LoggerInfo
    RedisInfo := redisMeaning (sectionEntries doc (bytesOf "redisInfo")) s.RedisInfo
    UniqueInfo := uniqueMeaning
      (sectionEntries doc (bytesOf "uniqueInfo")) s.UniqueInfo }

/-! ## Each loop is its section's meaning -/

section Fields

variable (es : List (Bytes × Bytes))

private theorem address_fields :
    Field addressSection.rules stAddressInfo.serverIp (bytesOf "serverIp") id ∧
    Field addressSection.rules stAddressInfo.port (bytesOf "port") toUInt32 ∧
    Field addressSection.rules stAddressInfo.maxEvents (bytesOf "maxevents") toUInt32 ∧
    Field addressSection.rules stAddressInfo.backlog (bytesOf "backlog") toUInt32 ∧
    Field addressSection.rules stAddressInfo.WorkerThreadTaskMax
      (bytesOf "WorkerThreadTaskMax") toUInt32 ∧
    Field addressSection.rules stAddressInfo.timeCheckAcceptClient
      (bytesOf "timeCheckAcceptClient") toUInt32 := by
  refine ⟨?_, ?_, ?_, ?_, ?_, ?_⟩ <;>
    refine ⟨by decide, ?_⟩ <;>
    simp only [addressSection, List.forall_mem_cons, List.not_mem_nil, false_imp_iff,
      implies_true, and_true] <;>
    exact ⟨fun _ _ => rfl, fun _ _ => rfl, fun _ _ => rfl, fun _ _ => rfl,
      fun _ _ => rfl, fun _ _ => rfl⟩

theorem addressSection_meaning (prior : stAddressInfo) :
    assignAll addressSection.rules es prior = addressMeaning es prior := by
  obtain ⟨hIp, hPort, hMax, hBacklog, hTask, hTime⟩ := address_fields
  have hIp := hIp.get_assignAll es prior
  have hPort := hPort.get_assignAll es prior
  have hMax := hMax.get_assignAll es prior
  have hBacklog := hBacklog.get_assignAll es prior
  have hTask := hTask.get_assignAll es prior
  have hTime := hTime.get_assignAll es prior
  simp only [addressMeaning, ← hIp, ← hPort, ← hMax, ← hBacklog, ← hTask, ← hTime]

private theorem logger_fields :
    Field loggerSection.rules stLoggerInfo.LoggerName (bytesOf "LoggerName") id ∧
    Field loggerSection.rules stLoggerInfo.LogFilePath (bytesOf "LogFilePath") id ∧
    Field loggerSection.rules stLoggerInfo.hour (bytesOf "hour") toUInt8 ∧
    Field loggerSection.rules stLoggerInfo.minutes (bytesOf "minutes") toUInt8 ∧
    Field loggerSection.rules stLoggerInfo.flushCache
      (bytesOf "flushCache") toUInt8 := by
  refine ⟨?_, ?_, ?_, ?_, ?_⟩ <;>
    refine ⟨by decide, ?_⟩ <;>
    simp only [loggerSection, List.forall_mem_cons, List.not_mem_nil, false_imp_iff,
      implies_true, and_true] <;>
    exact ⟨fun _ _ => rfl, fun _ _ => rfl, fun _ _ => rfl, fun _ _ => rfl,
      fun _ _ => rfl⟩

theorem loggerSection_meaning (prior : stLoggerInfo) :
    assignAll loggerSection.rules es prior = loggerMeaning es prior := by
  obtain ⟨hName, hPath, hHour, hMinutes, hFlush⟩ := logger_fields
  have hName := hName.get_assignAll es prior
  have hPath := hPath.get_assignAll es prior
  have hHour := hHour.get_assignAll es prior
  have hMinutes := hMinutes.get_assignAll es prior
  have hFlush := hFlush.get_assignAll es prior
  simp only [loggerMeaning, ← hName, ← hPath, ← hHour, ← hMinutes, ← hFlush]

private theorem redis_fields :
    Field redisSection.rules stRedisInfo.redisAddress (bytesOf "redisAddress") id ∧
    Field redisSection.rules stRedisInfo.redisPort (bytesOf "redisPort") toUInt32 := by
  refine ⟨?_, ?_⟩ <;>
    refine ⟨by decide, ?_⟩ <;>
    simp only [redisSection, List.forall_mem_cons, List.not_mem_nil, false_imp_iff,
      implies_true, and_true] <;>
    exact ⟨fun _ _ => rfl, fun _ _ => rfl⟩

theorem redisSection_meaning (prior : stRedisInfo) :
    assignAll redisSection.rules es prior = redisMeaning es prior := by
  have hAddress := redis_fields.1.get_assignAll es prior
  have hPort := redis_fields.2.get_assignAll es prior
  simp only [redisMeaning, ← hAddress, ← hPort]

private theorem unique_field :
    Field uniqueSection.rules stUniqueInfo.serverID (bytesOf "serverID") id := by
  refine ⟨by decide, ?_⟩
  simp only [uniqueSection, List.forall_mem_cons, List.not_mem_nil, false_imp_iff,
    implies_true, and_true]
  exact fun _ _ => rfl

theorem uniqueSection_meaning (prior : stUniqueInfo) :
    assignAll uniqueSection.rules es prior = uniqueMeaning es prior := by
  have hId := unique_field.get_assignAll es prior
  simp only [uniqueMeaning, ← hId]

end Fields

/-! ## The four loads together -/

section Conformant

variable {α : Type} {doc : List Node}

/-- In a section of `value` elements only, the loop sees every element. -/
theorem valuesOf_eq {info : Element}
    (hValues : ∀ e ∈ elements info.children, cstr e.value = bytesOf "value") :
    valuesOf info = elements info.children := by
  unfold valuesOf elementsFrom
  cases hEs : elements info.children with
  | nil => rfl
  | cons e es =>
      have hHead := hValues e (by rw [hEs]; exact List.mem_cons_self ..)
      exact List.dropWhile_cons_of_neg (by simp [hHead])

theorem loadSection_conformant (sec : Section α) (hDoc : Conformant doc)
    (hName : sec.name ∈ sectionNames) (st : α) :
    (SectionOk doc sec.name (sec.rules.map Rule.key) ∧
      loadSection sec (some doc) st =
        .loaded (assignAll sec.rules (sectionEntries doc sec.name) st)) ∨
    (¬ SectionOk doc sec.name (sec.rules.map Rule.key) ∧
      ∃ st', loadSection sec (some doc) st = .failed st') := by
  rw [loadSection_some]
  unfold SectionOk sectionEntries
  cases hInfo : sectionIn doc sec.name with
  | none =>
      refine Or.inr ⟨?_, st, rfl⟩
      rintro ⟨hSome, -⟩
      cases hSome
  | some info =>
      have hChildren := hDoc sec.name hName info hInfo
      have hEntry : ∀ e ∈ elements info.children, ∃ entry, entryOf e = some entry := by
        intro e he
        obtain ⟨-, hType, hValue⟩ := hChildren e he
        obtain ⟨type, hType⟩ := Option.isSome_iff_exists.1 hType
        obtain ⟨value, hValue⟩ := Option.isSome_iff_exists.1 hValue
        exact ⟨(type, value), by simp [entryOf, hType, hValue]⟩
      simp only
      rw [valuesOf_eq fun e he => (hChildren e he).1]
      rcases runEntries_cases (elements info.children) st with
        ⟨hAll, hRun⟩ |
        ⟨good, bad, rest, hSplit, -, ⟨entry, hBad, hUnknown, hRun⟩ | ⟨hBad, -⟩⟩
      · refine Or.inl ⟨⟨rfl, ?_⟩, hRun⟩
        intro entry hMem
        obtain ⟨e, he, hEq⟩ := List.mem_filterMap.1 hMem
        obtain ⟨entry', hEq', hKnown⟩ := hAll e he
        rw [hEq] at hEq'
        cases hEq'
        exact hKnown
      · refine Or.inr ⟨?_, _, hRun⟩
        rintro ⟨-, hOk⟩
        apply hUnknown
        apply hOk entry
        rw [hSplit]
        exact List.mem_filterMap.2 ⟨bad, by simp, hBad⟩
      · obtain ⟨entry, hSome⟩ := hEntry bad (by rw [hSplit]; simp)
        rw [hBad] at hSome
        cases hSome

end Conformant

/-- **The meaning of the configuration format.** For a document that keeps to
the format, in one unchanging file, and any prior configuration: the load
returns true exactly when the four sections are there and know all their
entries, and then the configuration is what the document says; otherwise it
returns false. -/
theorem loadServerConf_meaning {doc : List Node} (hDoc : Conformant doc) (s : Conf) :
    (Accepted doc ∧
      loadServerConf s (Files.same (some doc)) = .loaded (meaning doc s)) ∨
    (¬ Accepted doc ∧ ∃ s', loadServerConf s (Files.same (some doc)) = .failed s') := by
  rcases loadSection_conformant addressSection hDoc (by decide) s.AddressInfo with
    ⟨hAddress, hLoad₁⟩ | ⟨hAddress, address, hLoad₁⟩
  swap
  · refine Or.inr ⟨fun h => hAddress h.1, { s with AddressInfo := address }, ?_⟩
    simp only [loadServerConf, loadServerInfo, Files.same, hLoad₁,
      Load.map, Load.andThen]
  rcases loadSection_conformant loggerSection hDoc (by decide) s.LoggerInfo with
    ⟨hLogger, hLoad₂⟩ | ⟨hLogger, logger, hLoad₂⟩
  swap
  · refine Or.inr ⟨fun h => hLogger h.2.1, ?_⟩
    simp only [loadServerConf, loadServerInfo, loadLogInfo, Files.same, hLoad₁, hLoad₂,
      Load.map, Load.andThen]
    exact ⟨_, rfl⟩
  rcases loadSection_conformant redisSection hDoc (by decide) s.RedisInfo with
    ⟨hRedis, hLoad₃⟩ | ⟨hRedis, redis, hLoad₃⟩
  swap
  · refine Or.inr ⟨fun h => hRedis h.2.2.1, ?_⟩
    simp only [loadServerConf, loadServerInfo, loadLogInfo, loadRedisInfo, Files.same,
      hLoad₁, hLoad₂, hLoad₃, Load.map, Load.andThen]
    exact ⟨_, rfl⟩
  rcases loadSection_conformant uniqueSection hDoc (by decide) s.UniqueInfo with
    ⟨hUnique, hLoad₄⟩ | ⟨hUnique, unique, hLoad₄⟩
  swap
  · refine Or.inr ⟨fun h => hUnique h.2.2.2, ?_⟩
    simp only [loadServerConf, loadServerInfo, loadLogInfo,
      loadRedisInfo, loadUniqueInfo, Files.same, hLoad₁, hLoad₂, hLoad₃, hLoad₄,
        Load.map, Load.andThen]
    exact ⟨_, rfl⟩
  refine Or.inl ⟨⟨hAddress, hLogger, hRedis, hUnique⟩, ?_⟩
  simp only [loadServerConf, loadServerInfo, loadLogInfo, loadRedisInfo, loadUniqueInfo,
    Files.same, hLoad₁, hLoad₂, hLoad₃, hLoad₄, Load.map, Load.andThen,
    addressSection_meaning, loggerSection_meaning, redisSection_meaning,
    uniqueSection_meaning]
  rfl

/-- The sections in another order, one entry repeated and one negative. -/
def sampleDoc : List Node :=
  [.declaration,
    tag "server" []
      [tag "uniqueInfo" [] [.comment (bytesOf "id"), valueTag "serverID" "server01"],
        tag "addressInfo" []
          [valueTag "port" "1", valueTag "WorkerThreadTaskMax" "-1",
            .comment (bytesOf "again"), valueTag "port" "2019"],
        tag "redisInfo" [] [],
        tag "loggerinfo" [] [valueTag "hour" "258"]]]

theorem loadServerConf_meaning_sampleDoc :
    Conformant sampleDoc ∧
      ((Accepted sampleDoc ∧ loadServerConf {} (Files.same (some sampleDoc)) =
          .loaded (meaning sampleDoc {})) ∨
        (¬ Accepted sampleDoc ∧
          ∃ s', loadServerConf {} (Files.same (some sampleDoc)) = .failed s')) ∧
      meaning sampleDoc {} =
        { AddressInfo := { port := 2019, WorkerThreadTaskMax := 4294967295 }
          LoggerInfo := { hour := 2 }
          UniqueInfo := { serverID := bytesOf "server01" } } := by
  have hDoc : Conformant sampleDoc := by
    have hCheck : ∀ name ∈ sectionNames, ∀ info ∈ sectionIn sampleDoc name,
        ∀ e ∈ elements info.children, cstr e.value = bytesOf "value" ∧
          (e.attribute (bytesOf "type")).isSome ∧
          (e.attribute (bytesOf "value")).isSome := by
      decide +kernel
    intro name hName info hInfo
    exact hCheck name hName info hInfo
  exact ⟨hDoc, loadServerConf_meaning hDoc {}, by decide +kernel⟩

end MGServer.Ports.ServerConf
