import MGServer.Ports.ServerConf

/-!
# What a configuration load does

One loader, seen from outside: it works through the elements of its section
from the first `value` element on, and stops at the first one whose type it
does not know.  `runEntries_cases` says this for the loop; from it follows
what a load that returns false has left behind, and that the files alone
decide whether a load returns true.
-/

namespace MGServer.Ports.ServerConf

open MGServer.Verified.ByteString
open MGServer.Verified.Assignments
open MGServer.Ports.TinyXml

/-! ## The loop over elements -/

section Loop

variable {α : Type} {sec : Section α}

/-- The type and the value of an element that has both. -/
def entryOf (e : Element) : Option (Bytes × Bytes) :=
  (e.attribute (bytesOf "type")).bind fun type =>
    (e.attribute (bytesOf "value")).map fun value => (type, value)

def entriesOf (es : List Element) : List (Bytes × Bytes) := es.filterMap entryOf

/-- The entry's type is one of the section's. -/
def Section.knows (sec : Section α) (entry : Bytes × Bytes) : Prop :=
  entry.1 ∈ sec.rules.map Rule.key

/-- The loop without the nodes between the elements. -/
def runEntries (sec : Section α) : List Element → α → Load α
  | [], st => .loaded st
  | e :: es, st => (loadEntry sec e st).andThen (runEntries sec es)

theorem loadSiblings_eq (nodes : List Node) :
    loadSiblings sec nodes = runEntries sec (elements nodes) := by
  induction nodes with
  | nil => rfl
  | cons node rest ih =>
      funext st
      cases hNode : node.toElement with
      | none => simp only [loadSiblings, hNode, ih, elements_cons_none hNode]
      | some e =>
          simp only [loadSiblings, hNode, ih, elements_cons_some hNode, runEntries]

/-- The section's element in a document, if there is one. -/
def sectionIn (doc : List Node) (name : Bytes) : Option Element :=
  (firstChildElement doc).bind fun server =>
    (firstChildElementNamed name server.element.children).map ElementPtr.element

/-- The elements of a section that the loop works through. -/
def valuesOf (info : Element) : List Element :=
  elementsFrom (bytesOf "value") info.children

theorem loadSection_some (doc : List Node) (st : α) :
    loadSection sec (some doc) st =
      match sectionIn doc sec.name with
      | none => .failed st
      | some info => runEntries sec (valuesOf info) st := by
  simp only [loadSection, sectionIn]
  cases firstChildElement doc with
  | none => rfl
  | some server =>
      simp only [Option.bind_some]
      cases firstChildElementNamed sec.name server.element.children with
      | none => rfl
      | some info =>
          simp only [Option.map_some, valuesOf, elementsFrom_eq]
          cases firstChildElementNamed (bytesOf "value") info.element.children with
          | none => rfl
          | some p => simp only [runEntries, loadSiblings_eq]

/-- One element: a known entry is assigned, an unknown one ends the load. -/
theorem loadEntry_known {e : Element} {entry : Bytes × Bytes}
    (hEntry : entryOf e = some entry) (hKnown : sec.knows entry) (st : α) :
    loadEntry sec e st = .loaded (assignAll sec.rules [entry] st) := by
  obtain ⟨type, hType, hRest⟩ := Option.bind_eq_some_iff.1 hEntry
  obtain ⟨value, hValue, rfl⟩ := Option.map_eq_some_iff.1 hRest
  obtain ⟨rule, hRule⟩ :=
    Option.isSome_iff_exists.1 ((ruleFor_isSome_iff sec.rules type).2 hKnown)
  simp only [loadEntry, hType, hRule, hValue, assignAll]

theorem loadEntry_unknown {e : Element} {entry : Bytes × Bytes}
    (hEntry : entryOf e = some entry) (hUnknown : ¬ sec.knows entry) (st : α) :
    loadEntry sec e st = .failed st := by
  obtain ⟨type, hType, hRest⟩ := Option.bind_eq_some_iff.1 hEntry
  obtain ⟨value, hValue, rfl⟩ := Option.map_eq_some_iff.1 hRest
  have hNone : ruleFor sec.rules type = none := by
    cases hRule : ruleFor sec.rules type with
    | none => rfl
    | some rule =>
        have hSome := (ruleFor_isSome_iff sec.rules type).1 (by rw [hRule]; rfl)
        exact absurd hSome hUnknown
  simp only [loadEntry, hType, hNone, hValue]

theorem loadEntry_bare {e : Element} (hEntry : entryOf e = none) (st : α) :
    loadEntry sec e st = .crashed := by
  simp only [loadEntry]
  cases hType : e.attribute (bytesOf "type") with
  | none => rfl
  | some type =>
      simp only
      cases hValue : e.attribute (bytesOf "value") with
      | none => cases ruleFor sec.rules type <;> rfl
      | some value =>
          rw [entryOf, hType, Option.bind_some, hValue] at hEntry
          cases hEntry

/-- Every element has an entry the section knows. -/
def AllKnown (sec : Section α) (es : List Element) : Prop :=
  ∀ e ∈ es, ∃ entry, entryOf e = some entry ∧ sec.knows entry

theorem runEntries_append {good : List Element} (hGood : AllKnown sec good)
    (rest : List Element) (st : α) :
    runEntries sec (good ++ rest) st =
      runEntries sec rest (assignAll sec.rules (entriesOf good) st) := by
  induction good generalizing st with
  | nil => rfl
  | cons e es ih =>
      obtain ⟨entry, hEntry, hKnown⟩ := hGood e (List.mem_cons_self ..)
      have hRest : AllKnown sec es := fun x hx => hGood x (List.mem_cons_of_mem e hx)
      obtain ⟨rule, hRule⟩ :=
        Option.isSome_iff_exists.1 ((ruleFor_isSome_iff sec.rules entry.1).2 hKnown)
      have hEntries : entriesOf (e :: es) = entry :: entriesOf es := by
        simp [entriesOf, hEntry]
      simp only [List.cons_append, runEntries,
        loadEntry_known hEntry hKnown, Load.andThen]
      rw [ih hRest, hEntries]
      simp only [assignAll, hRule]

/-- **The loop, from outside.** Either every element is a known entry and all
are assigned, or those before the first bad one are. -/
theorem runEntries_cases (es : List Element) (st : α) :
    (AllKnown sec es ∧
      runEntries sec es st = .loaded (assignAll sec.rules (entriesOf es) st)) ∨
    ∃ good bad rest, es = good ++ bad :: rest ∧ AllKnown sec good ∧
      ((∃ entry, entryOf bad = some entry ∧ ¬ sec.knows entry ∧
        runEntries sec es st = .failed (assignAll sec.rules (entriesOf good) st)) ∨
      (entryOf bad = none ∧ runEntries sec es st = .crashed)) := by
  by_cases hAll : AllKnown sec es
  · refine Or.inl ⟨hAll, ?_⟩
    have hRun := runEntries_append hAll [] st
    rw [List.append_nil] at hRun
    exact hRun
  · right
    -- split at the first element that is not a known entry
    have hSplit : ∃ good bad rest, es = good ++ bad :: rest ∧ AllKnown sec good ∧
        ¬ ∃ entry, entryOf bad = some entry ∧ sec.knows entry := by
      clear st
      induction es with
      | nil => exact absurd (by intro e he; cases he) hAll
      | cons e es ih =>
          by_cases hHead : ∃ entry, entryOf e = some entry ∧ sec.knows entry
          · have hTail : ¬ AllKnown sec es := by
              intro hTail
              apply hAll
              intro x hx
              rcases List.mem_cons.1 hx with rfl | hx
              · exact hHead
              · exact hTail x hx
            obtain ⟨good, bad, rest, rfl, hGood, hBad⟩ := ih hTail
            refine ⟨e :: good, bad, rest, rfl, ?_, hBad⟩
            intro x hx
            rcases List.mem_cons.1 hx with rfl | hx
            · exact hHead
            · exact hGood x hx
          · exact ⟨[], e, es, rfl, (by intro x hx; cases hx), hHead⟩
    obtain ⟨good, bad, rest, rfl, hGood, hBad⟩ := hSplit
    refine ⟨good, bad, rest, rfl, hGood, ?_⟩
    rw [runEntries_append hGood]
    cases hEntry : entryOf bad with
    | none =>
        refine Or.inr ⟨rfl, ?_⟩
        simp only [runEntries, loadEntry_bare hEntry, Load.andThen]
    | some entry =>
        have hUnknown : ¬ sec.knows entry := fun hKnown => hBad ⟨entry, hEntry, hKnown⟩
        refine Or.inl ⟨entry, rfl, hUnknown, ?_⟩
        simp only [runEntries, loadEntry_unknown hEntry hUnknown, Load.andThen]

end Loop

/-! ## One loader -/

section Loader

variable {α : Type} {sec : Section α} {file : File} {st st' : α}

/-- The loader found its section and assigned all of its entries. -/
def Applied (sec : Section α) (file : File) (st st' : α) : Prop :=
  ∃ doc info, file = some doc ∧ sectionIn doc sec.name = some info ∧
    AllKnown sec (valuesOf info) ∧
    st' = assignAll sec.rules (entriesOf (valuesOf info)) st

/-- The loader returned false: it found no file or no section and changed
nothing, or it assigned the entries before the first one of an unknown type
and no others. -/
def Stopped (sec : Section α) (file : File) (st st' : α) : Prop :=
  ((∀ doc, file = some doc → sectionIn doc sec.name = none) ∧ st' = st) ∨
  ∃ doc info good bad rest entry, file = some doc ∧
    sectionIn doc sec.name = some info ∧ valuesOf info = good ++ bad :: rest ∧
    AllKnown sec good ∧ entryOf bad = some entry ∧ ¬ sec.knows entry ∧
    st' = assignAll sec.rules (entriesOf good) st

theorem applied_of_loaded (hLoad : loadSection sec file st = .loaded st') :
    Applied sec file st st' := by
  cases file with
  | none => cases hLoad
  | some doc =>
      rw [loadSection_some] at hLoad
      cases hInfo : sectionIn doc sec.name with
      | none =>
          rw [hInfo] at hLoad
          cases hLoad
      | some info =>
          rw [hInfo] at hLoad
          simp only at hLoad
          rcases runEntries_cases (valuesOf info) st with
            ⟨hAll, hRun⟩ | ⟨good, bad, rest, -, -, ⟨entry, -, -, hRun⟩ | ⟨-, hRun⟩⟩
          · rw [hRun] at hLoad
            cases hLoad
            exact ⟨doc, info, rfl, hInfo, hAll, rfl⟩
          · rw [hRun] at hLoad
            cases hLoad
          · rw [hRun] at hLoad
            cases hLoad

theorem stopped_of_failed (hLoad : loadSection sec file st = .failed st') :
    Stopped sec file st st' := by
  cases file with
  | none =>
      cases hLoad
      refine Or.inl ⟨?_, rfl⟩
      intro doc hDoc
      cases hDoc
  | some doc =>
      rw [loadSection_some] at hLoad
      cases hInfo : sectionIn doc sec.name with
      | none =>
          rw [hInfo] at hLoad
          cases hLoad
          refine Or.inl ⟨?_, rfl⟩
          intro doc' hDoc
          cases hDoc
          exact hInfo
      | some info =>
          rw [hInfo] at hLoad
          simp only at hLoad
          rcases runEntries_cases (valuesOf info) st with
            ⟨-, hRun⟩ |
            ⟨good, bad, rest, hSplit, hGood,
              ⟨entry, hEntry, hUnknown, hRun⟩ | ⟨-, hRun⟩⟩
          · rw [hRun] at hLoad
            cases hLoad
          · rw [hRun] at hLoad
            cases hLoad
            exact Or.inr ⟨doc, info, good, bad, rest, entry, rfl, hInfo, hSplit, hGood,
              hEntry, hUnknown, rfl⟩
          · rw [hRun] at hLoad
            cases hLoad

/-- The file has the section, and every entry the loop meets is complete and
of a known type. -/
def Section.Loadable (sec : Section α) (file : File) : Prop :=
  ∃ doc info, file = some doc ∧ sectionIn doc sec.name = some info ∧
    AllKnown sec (valuesOf info)

theorem loaded_of_applied (hApplied : Applied sec file st st') :
    loadSection sec file st = .loaded st' := by
  obtain ⟨doc, info, rfl, hInfo, hAll, rfl⟩ := hApplied
  rw [loadSection_some, hInfo]
  have hRun := runEntries_append hAll [] st
  rw [List.append_nil] at hRun
  exact hRun

/-- Whether a loader returns true is decided by the file alone. -/
theorem applied_of_loadable (hLoadable : sec.Loadable file) (st : α) :
    ∃ st', Applied sec file st st' := by
  obtain ⟨doc, info, hFile, hInfo, hAll⟩ := hLoadable
  exact ⟨_, doc, info, hFile, hInfo, hAll, rfl⟩

theorem Applied.loadable (hApplied : Applied sec file st st') : sec.Loadable file := by
  obtain ⟨doc, info, hFile, hInfo, hAll, -⟩ := hApplied
  exact ⟨doc, info, hFile, hInfo, hAll⟩

end Loader

/-! ## A load that returns false -/

theorem andThen_failed {α : Type} {l : Load α} {k : α → Load α} {st' : α}
    (h : l.andThen k = .failed st') :
    l = .failed st' ∨ ∃ st, l = .loaded st ∧ k st = .failed st' := by
  cases l with
  | loaded st => exact Or.inr ⟨st, rfl, h⟩
  | failed st => exact Or.inl h
  | crashed => cases h

theorem map_failed {α γ : Type} {f : α → γ} {l : Load α} {st' : γ}
    (h : l.map f = .failed st') : ∃ st, l = .failed st ∧ st' = f st := by
  cases l with
  | loaded st => cases h
  | failed st =>
      cases h
      exact ⟨st, rfl, rfl⟩
  | crashed => cases h

theorem map_loaded {α γ : Type} {f : α → γ} {l : Load α} {st' : γ}
    (h : l.map f = .loaded st') : ∃ st, l = .loaded st ∧ st' = f st := by
  cases l with
  | loaded st =>
      cases h
      exact ⟨st, rfl, rfl⟩
  | failed st => cases h
  | crashed => cases h

/-- The state `s'` in which a failed load from `s` leaves the configuration.
The sections are loaded in the order address, logger, redis, unique: those
before the failing one have all their entries applied, the failing one those
before its first unknown entry, and the later ones are as they were. -/
def LeftBehind (s : Conf) (files : Files) (s' : Conf) : Prop :=
  (∃ address, Stopped addressSection files.address s.AddressInfo address ∧
    s' = { s with AddressInfo := address }) ∨
  (∃ address logger, Applied addressSection files.address s.AddressInfo address ∧
    Stopped loggerSection files.logger s.LoggerInfo logger ∧
    s' = { s with AddressInfo := address, LoggerInfo := logger }) ∨
  (∃ address logger redis,
    Applied addressSection files.address s.AddressInfo address ∧
    Applied loggerSection files.logger s.LoggerInfo logger ∧
    Stopped redisSection files.redis s.RedisInfo redis ∧
    s' = { s with AddressInfo := address, LoggerInfo := logger, RedisInfo := redis }) ∨
  (∃ address logger redis unique,
    Applied addressSection files.address s.AddressInfo address ∧
    Applied loggerSection files.logger s.LoggerInfo logger ∧
    Applied redisSection files.redis s.RedisInfo redis ∧
    Stopped uniqueSection files.unique s.UniqueInfo unique ∧
    s' = { s with
      AddressInfo := address
      LoggerInfo := logger
      RedisInfo := redis
      UniqueInfo := unique })

/-- **What a failed load leaves behind.** -/
theorem loadServerConf_failed {s s' : Conf} {files : Files}
    (hLoad : loadServerConf s files = .failed s') : LeftBehind s files s' := by
  rcases andThen_failed hLoad with hFail | ⟨s₁, hOk₁, hLoad⟩
  · obtain ⟨address, hAddress, rfl⟩ := map_failed hFail
    exact Or.inl ⟨address, stopped_of_failed hAddress, rfl⟩
  obtain ⟨address, hAddress, rfl⟩ := map_loaded hOk₁
  right
  rcases andThen_failed hLoad with hFail | ⟨s₂, hOk₂, hLoad⟩
  · obtain ⟨logger, hLogger, rfl⟩ := map_failed hFail
    exact Or.inl ⟨address, logger, applied_of_loaded hAddress,
      stopped_of_failed hLogger, rfl⟩
  obtain ⟨logger, hLogger, rfl⟩ := map_loaded hOk₂
  right
  rcases andThen_failed hLoad with hFail | ⟨s₃, hOk₃, hLoad⟩
  · obtain ⟨redis, hRedis, rfl⟩ := map_failed hFail
    exact Or.inl ⟨address, logger, redis, applied_of_loaded hAddress,
      applied_of_loaded hLogger, stopped_of_failed hRedis, rfl⟩
  obtain ⟨redis, hRedis, rfl⟩ := map_loaded hOk₃
  obtain ⟨unique, hUnique, rfl⟩ := map_failed hLoad
  exact Or.inr ⟨address, logger, redis, unique, applied_of_loaded hAddress,
    applied_of_loaded hLogger, applied_of_loaded hRedis, stopped_of_failed hUnique, rfl⟩

/-- An element `<name attributes…>children…</name>` of a literal document. -/
def tag (name : String) (attributes : List (String × String)) (children : List Node) :
    Node :=
  .element (bytesOf name) (attributes.map fun a => (bytesOf a.1, bytesOf a.2)) children

/-- `<value type="…" value="…" />`. -/
def valueTag (type value : String) : Node :=
  tag "value" [("type", type), ("value", value)] []

/-- A document with an `addressInfo` section and no other. -/
def addressOnly : List Node :=
  [.declaration,
    tag "server" [] [tag "addressInfo" [] [valueTag "port" "2019"]]]

theorem loadServerConf_failed_addressOnly :
    loadServerConf {} (Files.same (some addressOnly)) =
        .failed { AddressInfo := { port := 2019 } } ∧
      LeftBehind {} (Files.same (some addressOnly))
        { AddressInfo := { port := 2019 } } := by
  have hLoad : loadServerConf {} (Files.same (some addressOnly)) =
      .failed { AddressInfo := { port := 2019 } } := by decide +kernel
  exact ⟨hLoad, loadServerConf_failed hLoad⟩

/-- A load that returns false may have changed the configuration. -/
theorem loadServerConf_not_atomic :
    ¬ ∀ (s s' : Conf) (files : Files), loadServerConf s files = .failed s' →
      s'.AddressInfo = s.AddressInfo ∧ s'.LoggerInfo = s.LoggerInfo ∧
      s'.RedisInfo = s.RedisInfo ∧ s'.UniqueInfo = s.UniqueInfo := by
  intro hAtomic
  have hLoad : loadServerConf {} (Files.same (some addressOnly)) =
      .failed { AddressInfo := { port := 2019 } } := by decide +kernel
  have hSame := (hAtomic _ _ _ hLoad).1
  revert hSame
  decide

/-! ## A load that returns true -/

theorem andThen_loaded {α : Type} {l : Load α} {k : α → Load α} {st' : α}
    (h : l.andThen k = .loaded st') : ∃ st, l = .loaded st ∧ k st = .loaded st' := by
  cases l with
  | loaded st => exact ⟨st, rfl, h⟩
  | failed st => cases h
  | crashed => cases h

/-- **What a successful load does.** Every section has all its entries
applied, and nothing else changes. -/
theorem loadServerConf_loaded {s s' : Conf} {files : Files}
    (hLoad : loadServerConf s files = .loaded s') :
    Applied addressSection files.address s.AddressInfo s'.AddressInfo ∧
    Applied loggerSection files.logger s.LoggerInfo s'.LoggerInfo ∧
    Applied redisSection files.redis s.RedisInfo s'.RedisInfo ∧
    Applied uniqueSection files.unique s.UniqueInfo s'.UniqueInfo ∧
    s'.bAllConfLoadedRight = s.bAllConfLoadedRight := by
  obtain ⟨s₁, hOk₁, hLoad⟩ := andThen_loaded hLoad
  obtain ⟨address, hAddress, rfl⟩ := map_loaded hOk₁
  obtain ⟨s₂, hOk₂, hLoad⟩ := andThen_loaded hLoad
  obtain ⟨logger, hLogger, rfl⟩ := map_loaded hOk₂
  obtain ⟨s₃, hOk₃, hLoad⟩ := andThen_loaded hLoad
  obtain ⟨redis, hRedis, rfl⟩ := map_loaded hOk₃
  obtain ⟨unique, hUnique, rfl⟩ := map_loaded hLoad
  exact ⟨applied_of_loaded hAddress, applied_of_loaded hLogger,
    applied_of_loaded hRedis, applied_of_loaded hUnique, rfl⟩

/-- Each of the four times, the file has what the loader looks for. -/
def Files.Loadable (files : Files) : Prop :=
  addressSection.Loadable files.address ∧ loggerSection.Loadable files.logger ∧
  redisSection.Loadable files.redis ∧ uniqueSection.Loadable files.unique

/-- Whether a load returns true is decided by the files alone. -/
theorem loadServerConf_loaded_iff (s : Conf) (files : Files) :
    (∃ s', loadServerConf s files = .loaded s') ↔ files.Loadable := by
  constructor
  · rintro ⟨s', hLoad⟩
    obtain ⟨hAddress, hLogger, hRedis, hUnique, -⟩ := loadServerConf_loaded hLoad
    exact ⟨hAddress.loadable, hLogger.loadable, hRedis.loadable, hUnique.loadable⟩
  · rintro ⟨hAddress, hLogger, hRedis, hUnique⟩
    obtain ⟨address, hAddress⟩ := applied_of_loadable hAddress s.AddressInfo
    obtain ⟨logger, hLogger⟩ := applied_of_loadable hLogger s.LoggerInfo
    obtain ⟨redis, hRedis⟩ := applied_of_loadable hRedis s.RedisInfo
    obtain ⟨unique, hUnique⟩ := applied_of_loadable hUnique s.UniqueInfo
    simp only [loadServerConf, loadServerInfo, loadLogInfo,
      loadRedisInfo, loadUniqueInfo, loaded_of_applied hAddress,
      loaded_of_applied hLogger, loaded_of_applied hRedis,
      loaded_of_applied hUnique, Load.map, Load.andThen]
    exact ⟨_, rfl⟩

end MGServer.Ports.ServerConf
