import MGServer.Ports.ServerConfSnapshot

/-!
# Missing attributes

A loader checks the root and the section it looks up for null, but not the
two attributes of an entry.  So whether it returns at all depends on the
document: it uses a null pointer exactly when one of the elements it comes to
lacks an attribute.
-/

namespace MGServer.Ports.ServerConf

open MGServer.Verified.ByteString
open MGServer.Verified.Assignments
open MGServer.Ports.TinyXml

/-! ## What each loader reads -/

def Loader.sectionName : Loader → Bytes
  | .address => bytesOf "addressInfo"
  | .logger => bytesOf "loggerinfo"
  | .redis => bytesOf "redisInfo"
  | .unique => bytesOf "uniqueInfo"

def Loader.types : Loader → List Bytes
  | .address => addressTypes
  | .logger => loggerTypes
  | .redis => redisTypes
  | .unique => uniqueTypes

/-- The loader returned, true or false. -/
def Load.Returned {α : Type} (l : Load α) : Prop :=
  ∃ st, l = .loaded st ∨ l = .failed st

theorem returned_iff {α : Type} {l : Load α} : l.Returned ↔ l ≠ .crashed := by
  cases l with
  | loaded st => simp [Load.Returned]
  | failed st => simp [Load.Returned]
  | crashed => simp [Load.Returned]

theorem map_eq_crashed {α γ : Type} {f : α → γ} {l : Load α} :
    l.map f = .crashed ↔ l = .crashed := by
  cases l <;> simp [Load.map]

/-! ## The elements the loop comes to -/

/-- Up to the one it stops at, if there is one, the elements have both
attributes. -/
def complete (types : List Bytes) : List Element → Bool
  | [] => true
  | e :: es =>
      match entryOf e with
      | none => false
      | some entry => !types.contains entry.1 || complete types es

section Loop

variable {α : Type} {sec : Section α}

theorem runEntries_eq_crashed_iff (es : List Element) (st : α) :
    runEntries sec es st = .crashed ↔ complete (sec.rules.map Rule.key) es = false := by
  induction es generalizing st with
  | nil => simp [runEntries, complete]
  | cons e es ih =>
      cases hEntry : entryOf e with
      | none => simp [runEntries, loadEntry_bare hEntry, Load.andThen, complete, hEntry]
      | some entry =>
          by_cases hKnown : sec.knows entry
          · have hMem : (sec.rules.map Rule.key).contains entry.1 = true :=
              List.contains_iff_mem.2 hKnown
            simp only [runEntries, loadEntry_known hEntry hKnown,
              Load.andThen, complete, hEntry, hMem, Bool.not_true, Bool.false_or]
            exact ih _
          · have hMem : entry.1 ∉ sec.rules.map Rule.key := hKnown
            simp [runEntries, loadEntry_unknown hEntry hKnown,
              Load.andThen, complete, hEntry, hMem]

theorem loadSection_returned_iff (doc : List Node) (st : α) :
    (loadSection sec (some doc) st).Returned ↔
      ∀ info, sectionIn doc sec.name = some info →
        complete (sec.rules.map Rule.key) (valuesOf info) = true := by
  rw [returned_iff, loadSection_some]
  cases hInfo : sectionIn doc sec.name with
  | none => simp
  | some info =>
      simp only [ne_eq, runEntries_eq_crashed_iff, Bool.not_eq_false, Option.some.injEq,
        forall_eq']

end Loop

/-- In the loader's section no attribute is missing from the elements its loop
comes to: those from the first `value` element on, up to the first one of a
type it does not know. -/
def Loader.Guarded (loader : Loader) (doc : List Node) : Prop :=
  ∀ info, sectionIn doc loader.sectionName = some info →
    complete loader.types (valuesOf info) = true

/-- **When a loader returns.** -/
theorem load_returns_iff (loader : Loader) (s : Conf) (doc : List Node) :
    (loader.load s (some doc)).Returned ↔ loader.Guarded doc := by
  have hMap : ∀ {α : Type} {f : α → Conf} {l : Load α},
      (l.map f).Returned ↔ l.Returned := by
    intro α f l
    rw [returned_iff, returned_iff, ne_eq, ne_eq, map_eq_crashed]
  cases loader with
  | address => exact hMap.trans (loadSection_returned_iff doc s.AddressInfo)
  | logger => exact hMap.trans (loadSection_returned_iff doc s.LoggerInfo)
  | redis => exact hMap.trans (loadSection_returned_iff doc s.RedisInfo)
  | unique => exact hMap.trans (loadSection_returned_iff doc s.UniqueInfo)

/-- An `addressInfo` section whose second entry has no value. -/
def valuelessDoc : List Node :=
  [tag "server" []
    [tag "addressInfo" []
      [valueTag "serverIp" "localhost", tag "value" [("type", "port")] []]]]

theorem load_crashes_valueless :
    ¬ ∀ (loader : Loader) (s : Conf) (doc : List Node),
      (loader.load s (some doc)).Returned := by
  intro hAll
  have hCrash : Loader.address.load {} (some valuelessDoc) = .crashed := by
    decide +kernel
  exact returned_iff.1 (hAll .address {} valuelessDoc) hCrash

end MGServer.Ports.ServerConf
