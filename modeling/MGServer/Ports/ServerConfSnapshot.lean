import MGServer.Ports.ServerConfReload

/-!
# A file that changes during the load

`LoadServerConf` opens and parses the file once for each section.  Here
another process may replace the file at any point: before or after a
`LoadFile`, or while a loader walks the document it has parsed, which is in
memory by then.  Each section is read from one version of the file, but the
four versions need not be the same.
-/

namespace MGServer.Ports.ServerConf

open MGServer.Verified.ByteString
open MGServer.Verified.Transition
open MGServer.Ports.TinyXml

/-! ## The load, step by step -/

/-- The four loaders, in the order `LoadServerConf` calls them. -/
inductive Loader where
  | address
  | logger
  | redis
  | unique
  deriving Repr, DecidableEq

def Loader.load : Loader → Conf → File → Load Conf
  | .address => loadServerInfo
  | .logger => loadLogInfo
  | .redis => loadRedisInfo
  | .unique => loadUniqueInfo

/-- Where `LoadServerConf` is. -/
inductive Pc where
  | opening (loader : Loader)
  /-- The loader has parsed `file` and works on the tree. -/
  | walking (loader : Loader) (file : File)
  | returned (ok : Bool)

/-- What `LoadServerConf` does when the loader has returned true. -/
def Loader.after : Loader → Pc
  | .address => .opening .logger
  | .logger => .opening .redis
  | .redis => .opening .unique
  | .unique => .returned true

/-- A load in progress beside version number `version` of the file, whose
contents are `current`; `taken` is the number and the contents of the version
each `LoadFile` so far has got. -/
structure Progress where
  version : Nat
  current : File
  pc : Pc
  conf : Conf
  taken : List (Nat × File)

def Progress.start (file : File) (prior : Conf) : Progress :=
  ⟨0, file, .opening .address, prior, []⟩

inductive Tick where
  /-- Another process puts a new file in place of the old one. -/
  | replaced (file : File)
  /-- `doc.LoadFile` of the next loader. -/
  | loadFile
  /-- The rest of that loader. -/
  | walk

/-- A loader that uses a null pointer has no successor. -/
def Progress.step (s : Progress) : Tick → Option Progress
  | .replaced file => some { s with version := s.version + 1, current := file }
  | .loadFile =>
      match s.pc with
      | .opening loader =>
          some
            { s with
              pc := .walking loader s.current
              taken := s.taken ++ [(s.version, s.current)] }
      | _ => none
  | .walk =>
      match s.pc with
      | .walking loader file =>
          match loader.load s.conf file with
          | .loaded conf => some { s with pc := loader.after, conf := conf }
          | .failed conf => some { s with pc := .returned false, conf := conf }
          | .crashed => none
      | _ => none

/-! ## What the events say -/

/-- What the file is replaced by, in order. -/
def contents (es : List Tick) : List File :=
  es.filterMap fun
    | .replaced file => some file
    | _ => none

/-- Every version the file has had, by number. -/
def versions (file : File) (es : List Tick) : List File := file :: contents es

/-- For each `LoadFile`, the number of replacements before it; `n` have
happened already. -/
def openings (n : Nat) : List Tick → List Nat
  | [] => []
  | .replaced _ :: es => openings (n + 1) es
  | .loadFile :: es => n :: openings n es
  | .walk :: es => openings n es

theorem versions_snoc (file : File) (es : List Tick) (e : Tick) :
    versions file (es ++ [e]) = versions file es ++ contents [e] := by
  simp [versions, contents]

theorem openings_append (n : Nat) (es es' : List Tick) :
    openings n (es ++ es') =
      openings n es ++ openings (n + (contents es).length) es' := by
  induction es generalizing n with
  | nil => rfl
  | cons e es ih =>
      cases e with
      | replaced file =>
          have hLength : (contents (.replaced file :: es)).length =
              (contents es).length + 1 := rfl
          simp only [List.cons_append, openings, ih, hLength]
          rw [show n + 1 + (contents es).length =
            n + ((contents es).length + 1) by omega]
      | loadFile =>
          have hSame : contents (.loadFile :: es) = contents es := rfl
          simp only [List.cons_append, openings, ih, hSame]
      | walk =>
          have hSame : contents (.walk :: es) = contents es := rfl
          simp only [List.cons_append, openings, ih, hSame]

/-- Later opens see later versions. -/
theorem openings_sorted (n : Nat) (es : List Tick) :
    (∀ v ∈ openings n es, n ≤ v) ∧ (openings n es).Pairwise (· ≤ ·) := by
  induction es generalizing n with
  | nil => simp [openings]
  | cons e es ih =>
      cases e with
      | replaced file =>
          obtain ⟨hLe, hSorted⟩ := ih (n + 1)
          refine ⟨?_, hSorted⟩
          intro v hv
          have := hLe v hv
          omega
      | loadFile =>
          obtain ⟨hLe, hSorted⟩ := ih n
          refine ⟨?_, List.pairwise_cons.2 ⟨hLe, hSorted⟩⟩
          intro v hv
          rcases List.mem_cons.1 hv with rfl | hv
          · exact Nat.le_refl _
          · exact hLe v hv
      | walk => exact ih n

theorem openings_eq_nil {n : Nat} {es : List Tick} (hNone : .loadFile ∉ es) :
    openings n es = [] := by
  induction es generalizing n with
  | nil => rfl
  | cons e es ih =>
      have hTail : .loadFile ∉ es := fun h => hNone (List.mem_cons_of_mem e h)
      cases e with
      | replaced file => exact ih hTail
      | loadFile => exact absurd (List.mem_cons_self ..) hNone
      | walk => exact ih hTail

theorem openings_const {n : Nat} {es : List Tick}
    (hNone : ∀ file, .replaced file ∉ es) : ∀ v ∈ openings n es, v = n := by
  induction es with
  | nil => simp [openings]
  | cons e es ih =>
      have hTail : ∀ file, .replaced file ∉ es :=
        fun file h => hNone file (List.mem_cons_of_mem e h)
      cases e with
      | replaced file => exact absurd (List.mem_cons_self ..) (hNone file)
      | loadFile =>
          intro v hv
          rcases List.mem_cons.1 hv with rfl | hv
          · rfl
          · exact ih hTail v hv
      | walk => exact ih hTail

/-! ## The steps add up to a load -/

/-- Some of the four loads in a row. -/
def loadAll (loads : List (Loader × File)) (conf : Conf) : Load Conf :=
  loads.foldl (fun l p => l.andThen fun conf => p.1.load conf p.2) (.loaded conf)

theorem loadAll_snoc (loads : List (Loader × File)) (loader : Loader) (file : File)
    (conf : Conf) :
    loadAll (loads ++ [(loader, file)]) conf =
      (loadAll loads conf).andThen fun conf => loader.load conf file := by
  simp only [loadAll, List.foldl_append, List.foldl_cons, List.foldl_nil]

theorem Load.andThen_assoc {α : Type} (l : Load α) (k k' : α → Load α) :
    (l.andThen k).andThen k' = l.andThen fun st => (k st).andThen k' := by
  cases l with
  | loaded st => rfl
  | failed st => rfl
  | crashed => rfl

theorem loadAll_four (prior : Conf) (f₁ f₂ f₃ f₄ : File) :
    loadAll [(.address, f₁), (.logger, f₂), (.redis, f₃), (.unique, f₄)] prior =
      loadServerConf prior ⟨f₁, f₂, f₃, f₄⟩ := by
  simp only [loadAll, loadServerConf, List.foldl_cons,
    List.foldl_nil, Load.andThen_assoc]
  rfl

/-- The loaders that have returned true when this one is called. -/
def Loader.before : Loader → List Loader
  | .address => []
  | .logger => [.address]
  | .redis => [.address, .logger]
  | .unique => [.address, .logger, .redis]

/-- The loads done so far, on the files taken for them, give the present
configuration. -/
def Progress.Done (prior : Conf) (s : Progress) (loaders : List Loader)
    (files : List File) : Prop :=
  files.length = loaders.length ∧ loadAll (loaders.zip files) prior = .loaded s.conf

def Progress.Along (prior : Conf) (s : Progress) : Pc → Prop
  | .opening loader => s.Done prior loader.before (s.taken.map Prod.snd)
  | .walking loader file => ∃ files, s.taken.map Prod.snd = files ++ [file] ∧
      s.Done prior loader.before files
  | .returned true =>
      s.Done prior [.address, .logger, .redis, .unique] (s.taken.map Prod.snd)
  | .returned false => True

structure Progress.Inv (file : File) (prior : Conf) (hist : List Tick) (s : Progress) :
    Prop where
  number : s.version = (contents hist).length
  current : (versions file hist)[s.version]? = some s.current
  opened : s.taken.map Prod.fst = openings 0 hist
  read : ∀ p ∈ s.taken, (versions file hist)[p.1]? = some p.2
  along : s.Along prior s.pc

theorem start_inv (file : File) (prior : Conf) :
    (Progress.start file prior).Inv file prior [] where
  number := rfl
  current := rfl
  opened := rfl
  read := by intro p hp; cases hp
  along := ⟨rfl, rfl⟩

/-- A load that ends well is one more load done. -/
theorem Progress.Done.snoc {prior conf : Conf} {s : Progress} {loaders : List Loader}
    {files : List File} {loader : Loader} {file : File}
    (hDone : s.Done prior loaders files)
    (hLoad : loader.load s.conf file = .loaded conf) :
    Progress.Done prior { s with conf := conf } (loaders ++ [loader])
      (files ++ [file]) := by
  obtain ⟨hLength, hLoads⟩ := hDone
  refine ⟨by simp [hLength], ?_⟩
  rw [List.zip_append hLength.symm, List.zip_cons_cons,
    List.zip_nil_right, loadAll_snoc, hLoads]
  exact hLoad

theorem progress_inv {file : File} {prior : Conf} {hist : List Tick} {s s' : Progress}
    {e : Tick} (hInv : s.Inv file prior hist) (hStep : s.step e = some s') :
    s'.Inv file prior (hist ++ [e]) := by
  obtain ⟨hNumber, hCurrent, hOpened, hRead, hAlong⟩ := hInv
  cases e with
  | replaced new =>
      cases hStep
      have hVersions : versions file (hist ++ [.replaced new]) =
          versions file hist ++ [new] := versions_snoc ..
      have hLength : (versions file hist).length = s.version + 1 := by
        rw [hNumber]
        rfl
      refine ⟨?_, ?_, ?_, ?_, hAlong⟩
      · simp [contents, hNumber]
      · rw [hVersions, ← hLength]
        simp
      · simp [openings_append, openings, hOpened]
      · intro p hp
        have hOld := hRead p hp
        rw [hVersions, List.getElem?_append_left (List.getElem?_eq_some_iff.1 hOld).1]
        exact hOld
  | loadFile =>
      have hVersions : versions file (hist ++ [.loadFile]) = versions file hist := by
        simp [versions, contents]
      simp only [Progress.step] at hStep
      split at hStep
      · rename_i loader hPc
        cases hStep
        rw [hPc] at hAlong
        refine ⟨?_, ?_, ?_, ?_, ⟨s.taken.map Prod.snd, by simp, hAlong⟩⟩
        · simp [contents, hNumber]
        · rw [hVersions]
          exact hCurrent
        · simp [openings_append, openings, hOpened, hNumber]
        · intro p hp
          rw [hVersions]
          rcases List.mem_append.1 hp with hp | hp
          · exact hRead p hp
          · rw [List.mem_singleton.1 hp]
            exact hCurrent
      · cases hStep
  | walk =>
      have hVersions : versions file (hist ++ [.walk]) = versions file hist := by
        simp [versions, contents]
      simp only [Progress.step] at hStep
      split at hStep
      · rename_i loader parsed hPc
        rw [hPc] at hAlong
        obtain ⟨files, hFiles, hDone⟩ := hAlong
        have hNumber' : s.version = (contents (hist ++ [.walk])).length := by
          simp [contents, hNumber]
        have hOpened' : s.taken.map Prod.fst = openings 0 (hist ++ [.walk]) := by
          simp [openings_append, openings, hOpened]
        rw [← hVersions] at hCurrent hRead
        split at hStep
        · rename_i conf hLoad
          cases hStep
          refine ⟨hNumber', hCurrent, hOpened', hRead, ?_⟩
          have hNext := hDone.snoc hLoad
          rw [← hFiles] at hNext
          cases loader with
          | address => exact hNext
          | logger => exact hNext
          | redis => exact hNext
          | unique => exact hNext
        · cases hStep
          exact ⟨hNumber', hCurrent, hOpened', hRead, trivial⟩
        · cases hStep
      · cases hStep

theorem progress_run_inv {file : File} {prior : Conf} {evs : List Tick} {s : Progress}
    (hRun : run Progress.step (Progress.start file prior) evs = some s) :
    s.Inv file prior evs :=
  run_invariant_from Progress.step (P := fun hist s => s.Inv file prior hist)
    (start_inv file prior) (fun _ _ _ _ hInv hStep => progress_inv hInv hStep) hRun

/-! ## Which versions a load has seen -/

/-- All four sections were read from one version of the file. -/
def OneVersion (file : File) (prior : Conf) (evs : List Tick) (conf : Conf) : Prop :=
  ∃ one ∈ versions file evs, loadServerConf prior (Files.same one) = .loaded conf

/-- **One version for each section.** Whenever the file is replaced, a load
that returns true has read each section from the version in place when its
loader opened the file, and later sections from no earlier version; when
nothing is replaced between the first and the last open, all four come from
the same version. -/
theorem version_per_section {file : File} {prior : Conf} {evs : List Tick}
    {s : Progress} (hRun : run Progress.step (Progress.start file prior) evs = some s)
    (hTrue : s.pc = .returned true) :
    (∃ v₁ v₂ v₃ v₄ f₁ f₂ f₃ f₄, openings 0 evs = [v₁, v₂, v₃, v₄] ∧
      (v₁ ≤ v₂ ∧ v₂ ≤ v₃ ∧ v₃ ≤ v₄) ∧
      ((versions file evs)[v₁]? = some f₁ ∧ (versions file evs)[v₂]? = some f₂ ∧
        (versions file evs)[v₃]? = some f₃ ∧ (versions file evs)[v₄]? = some f₄) ∧
      loadServerConf prior ⟨f₁, f₂, f₃, f₄⟩ = .loaded s.conf) ∧
    ∀ pre mid post, evs = pre ++ (mid ++ post) → .loadFile ∉ pre → .loadFile ∉ post →
      (∀ new, .replaced new ∉ mid) → OneVersion file prior evs s.conf := by
  obtain ⟨-, -, hOpened, hRead, hAlong⟩ := progress_run_inv hRun
  rw [hTrue] at hAlong
  obtain ⟨hLength, hLoads⟩ := hAlong
  obtain ⟨p₁, p₂, p₃, p₄, hTaken⟩ : ∃ p₁ p₂ p₃ p₄, s.taken = [p₁, p₂, p₃, p₄] := by
    rw [List.length_map] at hLength
    match s.taken, hLength with
    | [p₁, p₂, p₃, p₄], _ => exact ⟨p₁, p₂, p₃, p₄, rfl⟩
  rw [hTaken] at hOpened hRead hLoads
  simp only [List.map_cons, List.map_nil, List.zip_cons_cons, List.zip_nil_right,
    loadAll_four] at hOpened hLoads
  have hV₁ := hRead p₁ (by simp)
  have hV₂ := hRead p₂ (by simp)
  have hV₃ := hRead p₃ (by simp)
  have hV₄ := hRead p₄ (by simp)
  have hSorted := (openings_sorted 0 evs).2
  rw [← hOpened] at hSorted
  simp only [List.pairwise_cons, List.mem_cons, List.not_mem_nil, or_false,
    forall_eq_or_imp, forall_eq] at hSorted
  refine ⟨⟨p₁.1, p₂.1, p₃.1, p₄.1, p₁.2, p₂.2, p₃.2, p₄.2, hOpened.symm,
    ⟨hSorted.1.1, hSorted.2.1.1, hSorted.2.2.1⟩, ⟨hV₁, hV₂, hV₃, hV₄⟩, hLoads⟩, ?_⟩
  intro pre mid post hSplit hPre hPost hMid
  -- every open happens in the stretch without replacements
  have hAll : ∀ v ∈ openings 0 evs, v = (contents pre).length := by
    rw [hSplit, openings_append, openings_append, openings_eq_nil hPre,
      openings_eq_nil hPost, List.nil_append, List.append_nil, Nat.zero_add]
    exact openings_const hMid
  rw [← hOpened] at hAll
  rw [hAll p₁.1 (by simp)] at hV₁
  rw [hAll p₂.1 (by simp), hV₁] at hV₂
  rw [hAll p₃.1 (by simp), hV₁] at hV₃
  rw [hAll p₄.1 (by simp), hV₁] at hV₄
  rw [← Option.some.inj hV₂, ← Option.some.inj hV₃, ← Option.some.inj hV₄] at hLoads
  exact ⟨_, List.mem_of_getElem? hV₁, hLoads⟩

/-- A version of the file, told apart by both of its ports. -/
def portsDoc (port : String) : List Node :=
  [tag "server" []
    [tag "addressInfo" [] [valueTag "port" port], tag "loggerinfo" [] [],
      tag "redisInfo" [] [valueTag "redisPort" port], tag "uniqueInfo" [] []]]

/-- The file is replaced while the loader of the first section walks its
tree. -/
def mixedLoad : List Tick :=
  [.loadFile, .replaced (some (portsDoc "2")), .walk, .loadFile,
    .walk, .loadFile, .walk,
    .loadFile, .walk]

def Pc.isTrue : Pc → Bool
  | .returned ok => ok
  | _ => false

theorem Pc.eq_returned_true {pc : Pc} (hTrue : pc.isTrue = true) :
    pc = .returned true := by
  cases pc with
  | opening loader => cases hTrue
  | walking loader file => cases hTrue
  | returned ok =>
      cases ok with
      | false => cases hTrue
      | true => rfl

/-- `mixedLoad` returns true, with one port of each version. -/
private theorem mixedLoad_run :
    ∃ s, run Progress.step (Progress.start (some (portsDoc "1")) {}) mixedLoad =
        some s ∧
      s.pc = .returned true ∧
      s.conf = { AddressInfo := { port := 1 }, RedisInfo := { redisPort := 2 } } := by
  have hRun :
      (run Progress.step (Progress.start (some (portsDoc "1")) {}) mixedLoad).map
        (fun s => (s.pc.isTrue, s.conf)) =
      some (true,
        { AddressInfo := { port := 1 }, RedisInfo := { redisPort := 2 } }) := by
    decide +kernel
  obtain ⟨s, hRun, hs⟩ := Option.map_eq_some_iff.1 hRun
  obtain ⟨hPc, hConf⟩ := Prod.mk.inj hs
  exact ⟨s, hRun, Pc.eq_returned_true hPc, hConf⟩

theorem version_per_section_mixedLoad :
    ∃ s, run Progress.step (Progress.start (some (portsDoc "1")) {}) mixedLoad =
        some s ∧
      s.pc = .returned true ∧ openings 0 mixedLoad = [0, 1, 1, 1] ∧
      ∃ v₁ v₂ v₃ v₄ f₁ f₂ f₃ f₄, openings 0 mixedLoad = [v₁, v₂, v₃, v₄] ∧
        (v₁ ≤ v₂ ∧ v₂ ≤ v₃ ∧ v₃ ≤ v₄) ∧
        ((versions (some (portsDoc "1")) mixedLoad)[v₁]? = some f₁ ∧
          (versions (some (portsDoc "1")) mixedLoad)[v₂]? = some f₂ ∧
          (versions (some (portsDoc "1")) mixedLoad)[v₃]? = some f₃ ∧
          (versions (some (portsDoc "1")) mixedLoad)[v₄]? = some f₄) ∧
        loadServerConf {} ⟨f₁, f₂, f₃, f₄⟩ = .loaded s.conf := by
  obtain ⟨s, hRun, hTrue, -⟩ := mixedLoad_run
  exact ⟨s, hRun, hTrue, rfl, (version_per_section hRun hTrue).1⟩

/-- Neither of the two versions gives what `mixedLoad` leaves. -/
theorem versions_mixed :
    ¬ ∀ (file : File) (prior : Conf) (evs : List Tick) (s : Progress),
      run Progress.step (Progress.start file prior) evs = some s →
      s.pc = .returned true → OneVersion file prior evs s.conf := by
  intro hAll
  obtain ⟨s, hRun, hTrue, hConf⟩ := mixedLoad_run
  obtain ⟨one, hOne, hLoad⟩ := hAll _ _ _ s hRun hTrue
  rw [hConf] at hLoad
  have hCases : one = some (portsDoc "1") ∨ one = some (portsDoc "2") := by
    simpa [versions, contents, mixedLoad] using hOne
  rcases hCases with rfl | rfl
  · revert hLoad
    decide +kernel
  · revert hLoad
    decide +kernel

end MGServer.Ports.ServerConf
