import MGServer.Ports.ServerConfReload
import Mathlib.Algebra.Ring.Nat
import Mathlib.Algebra.Ring.Int.Defs

/-!
# Numbers in the configuration

Nine entries are numbers.  All of them go through `atoi` into an unsigned
field without a check: six fields have 32 bits and take every non-negative
`int` as it is, but `hour`, `minutes` and `flushCache` have 8 and keep only
the low byte of what is written.
-/

namespace MGServer.Ports.ServerConf

open MGServer.Verified.ByteString
open MGServer.Verified.Assignments
open MGServer.Ports.TinyXml

/-! ## The numeric fields -/

/-- A numeric field: the section and type of its entries, and where the value
goes. -/
structure NumericField where
  sectionName : Bytes
  type : Bytes
  get : Conf → Nat

/-- The fields of type `uint32_t`. -/
def wideFields : List NumericField :=
  [⟨bytesOf "addressInfo", bytesOf "port", fun s => s.AddressInfo.port.toNat⟩,
    ⟨bytesOf "addressInfo", bytesOf "maxevents",
      fun s => s.AddressInfo.maxEvents.toNat⟩,
    ⟨bytesOf "addressInfo", bytesOf "backlog", fun s => s.AddressInfo.backlog.toNat⟩,
    ⟨bytesOf "addressInfo", bytesOf "WorkerThreadTaskMax",
      fun s => s.AddressInfo.WorkerThreadTaskMax.toNat⟩,
    ⟨bytesOf "addressInfo", bytesOf "timeCheckAcceptClient",
      fun s => s.AddressInfo.timeCheckAcceptClient.toNat⟩,
    ⟨bytesOf "redisInfo", bytesOf "redisPort", fun s => s.RedisInfo.redisPort.toNat⟩]

/-- The fields of type `uint8_t`. -/
def narrowFields : List NumericField :=
  [⟨bytesOf "loggerinfo", bytesOf "hour", fun s => s.LoggerInfo.hour.toNat⟩,
    ⟨bytesOf "loggerinfo", bytesOf "minutes", fun s => s.LoggerInfo.minutes.toNat⟩,
    ⟨bytesOf "loggerinfo", bytesOf "flushCache",
      fun s => s.LoggerInfo.flushCache.toNat⟩]

def numericFields : List NumericField := wideFields ++ narrowFields

namespace NumericField

/-- The field's entries in the file. -/
def entries (f : NumericField) (file : File) : List (Bytes × Bytes) :=
  loadedEntries file f.sectionName

/-- The number written in the last entry of the field's type. -/
def written (f : NumericField) (file : File) : Option Nat :=
  (lastOf f.type (f.entries file)).map (digitsValue 0)

end NumericField

/-- The numeric entries are decimal texts of integers that fit an `int`. -/
def NumbersDecimal (file : File) : Prop :=
  ∀ f ∈ numericFields, ∀ entry ∈ f.entries file, entry.1 = f.type →
    Decimal entry.2 ∧ digitsValue 0 entry.2 ≤ 2 ^ 31 - 1

instance (file : File) : Decidable (NumbersDecimal file) :=
  inferInstanceAs (Decidable (∀ f ∈ numericFields, ∀ entry ∈ f.entries file,
    entry.1 = f.type → Decimal entry.2 ∧ digitsValue 0 entry.2 ≤ 2 ^ 31 - 1))

/-- Each numeric field with an entry holds the number written in the last
one. -/
def StoredAsWritten (file : File) (s : Conf) : Prop :=
  ∀ f ∈ numericFields, ∀ n, f.written file = some n → f.get s = n

/-- The last `hour`, `minutes` and `flushCache` entries fit a byte. -/
def NarrowNumbersFit (file : File) : Prop :=
  ∀ f ∈ narrowFields, ∀ n, f.written file = some n → n ≤ 255

/-! ## What is stored -/

theorem toUInt32_toNat {value : Bytes} (hDecimal : Decimal value)
    (hFits : digitsValue 0 value < 2 ^ 31) :
    (toUInt32 value).toNat = digitsValue 0 value := by
  rw [toUInt32, atoi_decimal hDecimal hFits, UInt32.ofInt, UInt32.toNat_ofNat']
  omega

theorem toUInt8_toNat {value : Bytes} (hDecimal : Decimal value)
    (hFits : digitsValue 0 value < 2 ^ 31) :
    (toUInt8 value).toNat = digitsValue 0 value % 256 := by
  rw [toUInt8, atoi_decimal hDecimal hFits, UInt8.ofInt, UInt8.toNat_ofNat']
  omega

section Stored

variable {file : File} {s s' : Conf}

theorem wide_setting (hReload : Reloaded file s s') :
    ∀ f ∈ wideFields, f.get s' =
      setting (f.entries file) f.type (UInt32.toNat ∘ toUInt32) (f.get s) := by
  simp only [wideFields, List.forall_mem_cons, List.not_mem_nil, false_imp_iff,
    implies_true, and_true, NumericField.entries, hReload.address, hReload.redis,
    addressMeaning, redisMeaning]
  exact ⟨map_setting .., map_setting .., map_setting .., map_setting .., map_setting ..,
    map_setting ..⟩

theorem narrow_setting (hReload : Reloaded file s s') :
    ∀ f ∈ narrowFields, f.get s' =
      setting (f.entries file) f.type (UInt8.toNat ∘ toUInt8) (f.get s) := by
  simp only [narrowFields, List.forall_mem_cons, List.not_mem_nil, false_imp_iff,
    implies_true, and_true, NumericField.entries, hReload.logger, loggerMeaning]
  exact ⟨map_setting .., map_setting .., map_setting ..⟩

/-- The text the last entry of a field's type writes. -/
theorem written_eq_some {f : NumericField} (hNumbers : NumbersDecimal file)
    (hf : f ∈ numericFields) {n : Nat} (hWritten : f.written file = some n) :
    ∃ value, lastOf f.type (f.entries file) = some value ∧ Decimal value ∧
      digitsValue 0 value = n ∧ n ≤ 2 ^ 31 - 1 := by
  obtain ⟨value, hLast, rfl⟩ := Option.map_eq_some_iff.1 hWritten
  obtain ⟨hDecimal, hBound⟩ := hNumbers f hf _ (mem_of_lastOf hLast) rfl
  exact ⟨value, hLast, hDecimal, rfl, hBound⟩

theorem wide_stored (hNumbers : NumbersDecimal file) (hReload : Reloaded file s s')
    {f : NumericField} (hf : f ∈ wideFields) {n : Nat}
    (hWritten : f.written file = some n) :
    f.get s' = n := by
  obtain ⟨value, hLast, hDecimal, hValue, hBound⟩ :=
    written_eq_some hNumbers (List.mem_append_left _ hf) hWritten
  rw [wide_setting hReload f hf, setting, hLast]
  show (toUInt32 value).toNat = n
  rw [toUInt32_toNat hDecimal (by omega), hValue]

/-- A byte field keeps the low byte of what is written. -/
theorem narrow_stored (hNumbers : NumbersDecimal file) (hReload : Reloaded file s s')
    {f : NumericField} (hf : f ∈ narrowFields) {n : Nat}
    (hWritten : f.written file = some n) : f.get s' = n % 256 := by
  obtain ⟨value, hLast, hDecimal, hValue, hBound⟩ :=
    written_eq_some hNumbers (List.mem_append_right _ hf) hWritten
  rw [narrow_setting hReload f hf, setting, hLast]
  show (toUInt8 value).toNat = n % 256
  rw [toUInt8_toNat hDecimal (by omega), hValue]

theorem storedAsWritten_iff (hNumbers : NumbersDecimal file)
    (hReload : Reloaded file s s') :
    StoredAsWritten file s' ↔ NarrowNumbersFit file := by
  constructor
  · intro hStored f hf n hWritten
    have hSame := hStored f (List.mem_append_right _ hf) n hWritten
    rw [narrow_stored hNumbers hReload hf hWritten] at hSame
    omega
  · intro hFit f hf n hWritten
    rcases List.mem_append.1 hf with hWide | hNarrow
    · exact wide_stored hNumbers hReload hWide hWritten
    · have hByte := hFit f hNarrow n hWritten
      rw [narrow_stored hNumbers hReload hNarrow hWritten]
      omega

end Stored

/-- **Numbers as written.** For a file whose numeric entries are decimal texts
of integers that fit an `int`, and any prior configuration: a load that
returns true has stored every number as written exactly when the last `hour`,
`minutes` and `flushCache` entries fit a byte.  Where they do not, the file is
not refused. -/
theorem numbers_stored_iff {file : File} (hNumbers : NumbersDecimal file) (s : Conf) :
    (∀ s', loadServerConf s (Files.same file) = .loaded s' → StoredAsWritten file s') ↔
      ((Files.same file).Loadable → NarrowNumbersFit file) := by
  constructor
  · intro hAll hLoadable
    obtain ⟨s', hLoad⟩ := (loadServerConf_loaded_iff s _).2 hLoadable
    exact (storedAsWritten_iff hNumbers (reloaded_of_loaded hLoad)).1 (hAll s' hLoad)
  · intro hFit s' hLoad
    have hLoadable := (loadServerConf_loaded_iff s _).1 ⟨s', hLoad⟩
    exact (storedAsWritten_iff hNumbers (reloaded_of_loaded hLoad)).2 (hFit hLoadable)

/-- A log file that is to be changed at a given hour. -/
def hourDoc (hour : String) : List Node :=
  [tag "server" []
    [tag "addressInfo" [] [valueTag "port" "2019", valueTag "backlog" "2147483647"],
      tag "loggerinfo" [] [valueTag "hour" "1", valueTag "hour" hour],
      tag "redisInfo" [] [valueTag "redisPort" "6379"],
      tag "uniqueInfo" [] []]]

theorem numbers_stored_iff_hourDoc :
    NumbersDecimal (some (hourDoc "23")) ∧
      (∀ s', loadServerConf {} (Files.same (some (hourDoc "23"))) = .loaded s' →
        StoredAsWritten (some (hourDoc "23")) s') := by
  have hNumbers : NumbersDecimal (some (hourDoc "23")) := by decide +kernel
  have hFit : NarrowNumbersFit (some (hourDoc "23")) := by
    have hCheck :
        ∀ f ∈ narrowFields, ∀ n ∈ f.written (some (hourDoc "23")), n ≤ 255 := by
      decide +kernel
    exact hCheck
  exact ⟨hNumbers, (numbers_stored_iff hNumbers {}).2 fun _ => hFit⟩

/-- Hour 258 is accepted and stored as 2. -/
theorem numbers_wrapped_hourDoc :
    ¬ ∀ (file : File) (s s' : Conf), NumbersDecimal file →
      loadServerConf s (Files.same file) = .loaded s' → StoredAsWritten file s' := by
  intro hAll
  have hNumbers : NumbersDecimal (some (hourDoc "258")) := by decide +kernel
  have hLoad : loadServerConf {} (Files.same (some (hourDoc "258"))) =
      .loaded
        { AddressInfo := { port := 2019, backlog := 2147483647 }
          LoggerInfo := { hour := 2 }
          RedisInfo := { redisPort := 6379 } } := by decide +kernel
  have hStored := hAll _ _ _ hNumbers hLoad
    ⟨bytesOf "loggerinfo", bytesOf "hour", fun s => s.LoggerInfo.hour.toNat⟩
    (by simp [numericFields, narrowFields]) 258 (by decide +kernel)
  revert hStored
  decide

end MGServer.Ports.ServerConf
