import MGServer.Ports.ServerConfTotal

/-!
# Elements of another name

A loop starts at the section's first `value` element but goes on with
`NextSiblingElement()`, which takes elements of every name.  So an element
that is not called `value` is skipped before the first `value` element and
read like an entry behind it.  `load_unaffected_iff` says at which places of a
section such elements can stand without any effect.
-/

namespace MGServer.Ports.ServerConf

open MGServer.Verified.ByteString
open MGServer.Verified.Assignments
open MGServer.Ports.TinyXml

/-! ## Putting elements into a section -/

/-- The element as a node of its parent. -/
def Element.toNode (e : Element) : Node := .element e.value e.attributes e.children

/-- The nodes with `extra i` put in front of the `i`-th one, and the last of
them behind all. -/
def weave : List Node → (Nat → List Element) → List Node
  | [], extra => (extra 0).map Element.toNode
  | node :: nodes, extra =>
      (extra 0).map Element.toNode ++ node :: weave nodes fun i => extra (i + 1)

/-- Change the children of the first child element so named. -/
def mapChild (name : Bytes) (f : List Node → List Node) : List Node → List Node
  | [] => []
  | .element value attributes children :: rest =>
      if cstr value = name then .element value attributes (f children) :: rest
      else .element value attributes children :: mapChild name f rest
  | node :: rest => node :: mapChild name f rest

/-- Change the children of the section's element, in place. -/
def mapSection (name : Bytes) (f : List Node → List Node) : List Node → List Node
  | [] => []
  | .element value attributes children :: rest =>
      .element value attributes (mapChild name f children) :: rest
  | node :: rest => node :: mapSection name f rest

/-- The document with elements put into the section. -/
def insertInto (name : Bytes) (extra : Nat → List Element) (doc : List Node) :
    List Node :=
  mapSection name (fun children => weave children extra) doc

theorem firstChildElementNamed_mapChild (name : Bytes) (f : List Node → List Node)
    (nodes : List Node) :
    (firstChildElementNamed name (mapChild name f nodes)).map ElementPtr.element =
      ((firstChildElementNamed name nodes).map ElementPtr.element).map
        fun info => { info with children := f info.children } := by
  induction nodes with
  | nil => rfl
  | cons node rest ih =>
      cases node with
      | element value attributes children =>
          by_cases hName : cstr value = name
          · simp [mapChild, firstChildElementNamed, Node.toElement, hName]
          · simpa [mapChild, firstChildElementNamed, Node.toElement, hName] using ih
      | comment text => exact ih
      | text text => exact ih
      | declaration => exact ih
      | unknown text => exact ih

/-- The section of the changed document is the changed section. -/
theorem sectionIn_mapSection (name : Bytes)
    (f : List Node → List Node) (doc : List Node) :
    sectionIn (mapSection name f doc) name =
      (sectionIn doc name).map fun info =>
        { info with children := f info.children } := by
  induction doc with
  | nil => rfl
  | cons node rest ih =>
      cases node with
      | element value attributes children =>
          exact firstChildElementNamed_mapChild name f children
      | comment text => exact ih
      | text text => exact ih
      | declaration => exact ih
      | unknown text => exact ih

theorem elements_append (nodes nodes' : List Node) :
    elements (nodes ++ nodes') = elements nodes ++ elements nodes' := by
  simp [elements]

theorem elements_toNode (es : List Element) :
    elements (es.map Element.toNode) = es := by
  induction es with
  | nil => rfl
  | cons e es ih =>
      rw [List.map_cons, elements_cons_some rfl, ih]

theorem weave_nil (nodes : List Node) : weave nodes (fun _ => []) = nodes := by
  induction nodes with
  | nil => rfl
  | cons node nodes ih => simp [weave, ih]

/-- Elements at one place only. -/
theorem weave_at (es : List Element) : ∀ (nodes : List Node)
    {i : Nat}, i ≤ nodes.length →
    weave nodes (fun j => if j = i then es else []) =
      nodes.take i ++ (es.map Element.toNode ++ nodes.drop i) := by
  intro nodes
  induction nodes with
  | nil =>
      intro i hi
      have hZero : i = 0 := Nat.le_zero.1 hi
      simp [weave, hZero]
  | cons node nodes ih =>
      intro i hi
      cases i with
      | zero => simp [weave, weave_nil]
      | succ i =>
          have hRest := ih (Nat.le_of_succ_le_succ hi)
          simp only [weave, Nat.add_right_cancel_iff, hRest]
          simp

/-! ## The elements from the first `value` element on -/

section From

variable {name : Bytes} {node : Node} {e : Element}

theorem elementsFrom_cons_none (hNode : node.toElement = none) (rest : List Node) :
    elementsFrom name (node :: rest) = elementsFrom name rest := by
  rw [elementsFrom, elements_cons_none hNode, elementsFrom]

theorem elementsFrom_cons_named (hNode : node.toElement = some e)
    (hName : cstr e.value = name) (rest : List Node) :
    elementsFrom name (node :: rest) = e :: elements rest := by
  rw [elementsFrom, elements_cons_some hNode,
    List.dropWhile_cons_of_neg (by simp [hName])]

theorem elementsFrom_cons_other (hNode : node.toElement = some e)
    (hName : cstr e.value ≠ name) (rest : List Node) :
    elementsFrom name (node :: rest) = elementsFrom name rest := by
  rw [elementsFrom, elements_cons_some hNode,
    List.dropWhile_cons_of_pos (by simp [hName]), elementsFrom]

theorem elementsFrom_foreign {es : List Element} (hes : ∀ e ∈ es, cstr e.value ≠ name)
    (rest : List Node) :
    elementsFrom name (es.map Element.toNode ++ rest) = elementsFrom name rest := by
  rw [elementsFrom, elements_append, elements_toNode,
    List.dropWhile_append_of_pos (by simpa using hes), elementsFrom]

/-- Once the first one has come, every further element counts. -/
theorem elementsFrom_append {nodes : List Node} (hFrom : elementsFrom name nodes ≠ [])
    (nodes' : List Node) :
    elementsFrom name (nodes ++ nodes') =
      elementsFrom name nodes ++ elements nodes' := by
  unfold elementsFrom at hFrom ⊢
  rw [elements_append, List.dropWhile_append]
  simp only [List.isEmpty_iff, hFrom, if_false]

end From

/-! ## Where elements of another name have no effect -/

/-- A loop that knows these types does not get past this element. -/
def stopsAt (types : List Bytes) (e : Element) : Prop :=
  ¬ ∃ entry, entryOf e = some entry ∧ entry.1 ∈ types

/-- The loop is not running behind these nodes: it has not started, or it has
ended. -/
def idleAfter (types : List Bytes) (nodes : List Node) : Prop :=
  elementsFrom (bytesOf "value") nodes = [] ∨
    ∃ e ∈ elementsFrom (bytesOf "value") nodes, stopsAt types e

section Loop

variable {α : Type} {sec : Section α}

theorem loadEntry_stops {e : Element} (hStop : stopsAt (sec.rules.map Rule.key) e)
    (st : α) (k k' : α → Load α) :
    (loadEntry sec e st).andThen k = (loadEntry sec e st).andThen k' := by
  cases hEntry : entryOf e with
  | none => simp only [loadEntry_bare hEntry, Load.andThen]
  | some entry =>
      have hUnknown : ¬ sec.knows entry := fun hKnown => hStop ⟨entry, hEntry, hKnown⟩
      simp only [loadEntry_unknown hEntry hUnknown, Load.andThen]

/-- Behind an element the loop reads: it ends there, or it goes on with the
rest. -/
theorem runEntries_cons_weave {e : Element} {nodes : List Node}
    {extra : Nat → List Element} (hTail : (∀ i ≤ nodes.length, extra i ≠ [] →
        ∃ x ∈ elements (nodes.take i), stopsAt (sec.rules.map Rule.key) x) →
      ∀ st : α, runEntries sec (elements (weave nodes extra)) st =
        runEntries sec (elements nodes) st)
    (hStop : ∀ i ≤ nodes.length, extra i ≠ [] →
      ∃ x ∈ e :: elements (nodes.take i), stopsAt (sec.rules.map Rule.key) x) (st : α) :
    runEntries sec (e :: elements (weave nodes extra)) st =
      runEntries sec (e :: elements nodes) st := by
  rw [runEntries, runEntries]
  by_cases hHead : stopsAt (sec.rules.map Rule.key) e
  · exact loadEntry_stops hHead st _ _
  · have hRest := hTail (by
      intro i hi hSome
      obtain ⟨x, hx, hx'⟩ := hStop i hi hSome
      rcases List.mem_cons.1 hx with rfl | hx
      · exact absurd hx' hHead
      · exact ⟨x, hx, hx'⟩)
    rw [funext hRest]

/-- What is put in behind the end of the loop is not read. -/
theorem runEntries_weave (nodes : List Node) : ∀ (extra : Nat → List Element),
    (∀ i ≤ nodes.length, extra i ≠ [] →
      ∃ e ∈ elements (nodes.take i), stopsAt (sec.rules.map Rule.key) e) →
    ∀ st : α, runEntries sec (elements (weave nodes extra)) st =
      runEntries sec (elements nodes) st := by
  induction nodes with
  | nil =>
      intro extra hExtra st
      have hNone : extra 0 = [] := by
        by_contra hSome
        obtain ⟨e, he, -⟩ := hExtra 0 (Nat.le_refl 0) hSome
        cases he
      rw [weave, hNone, List.map_nil]
  | cons node nodes ih =>
      intro extra hExtra st
      have hNone : extra 0 = [] := by
        by_contra hSome
        obtain ⟨e, he, -⟩ := hExtra 0 (Nat.zero_le _) hSome
        cases he
      rw [weave, hNone, List.map_nil, List.nil_append]
      cases hNode : node.toElement with
      | none =>
          rw [elements_cons_none hNode, elements_cons_none hNode]
          apply ih
          intro i hi hSome
          have hStop := hExtra (i + 1) (Nat.succ_le_succ hi) hSome
          rwa [List.take_succ_cons, elements_cons_none hNode] at hStop
      | some e =>
          rw [elements_cons_some hNode, elements_cons_some hNode]
          apply runEntries_cons_weave (ih _)
          intro i hi hSome
          have hStop := hExtra (i + 1) (Nat.succ_le_succ hi) hSome
          rwa [List.take_succ_cons, elements_cons_some hNode] at hStop

/-- What is put in before the loop starts is skipped. -/
theorem runEntries_weave_from (nodes : List Node) : ∀ (extra : Nat → List Element),
    (∀ i, ∀ e ∈ extra i, cstr e.value ≠ bytesOf "value") →
    (∀ i ≤ nodes.length, extra i ≠ [] →
      idleAfter (sec.rules.map Rule.key) (nodes.take i)) →
    ∀ st : α, runEntries sec (elementsFrom (bytesOf "value") (weave nodes extra)) st =
      runEntries sec (elementsFrom (bytesOf "value") nodes) st := by
  induction nodes with
  | nil =>
      intro extra hForeign _ st
      have hSkip := elementsFrom_foreign (hForeign 0) []
      rw [List.append_nil] at hSkip
      rw [weave, hSkip]
  | cons node nodes ih =>
      intro extra hForeign hExtra st
      rw [weave, elementsFrom_foreign (hForeign 0)]
      cases hNode : node.toElement with
      | none =>
          rw [elementsFrom_cons_none hNode, elementsFrom_cons_none hNode]
          apply ih _ fun i => hForeign (i + 1)
          intro i hi hSome
          have hIdle := hExtra (i + 1) (Nat.succ_le_succ hi) hSome
          rwa [idleAfter, List.take_succ_cons, elementsFrom_cons_none hNode] at hIdle
      | some e =>
          by_cases hName : cstr e.value = bytesOf "value"
          · -- the loop starts here, so what comes after has to be behind its end
            rw [elementsFrom_cons_named hNode hName,
              elementsFrom_cons_named hNode hName]
            apply runEntries_cons_weave (runEntries_weave nodes _)
            intro i hi hSome
            have hIdle := hExtra (i + 1) (Nat.succ_le_succ hi) hSome
            rw [idleAfter, List.take_succ_cons,
              elementsFrom_cons_named hNode hName] at hIdle
            rcases hIdle with hNil | hStop
            · cases hNil
            · exact hStop
          · rw [elementsFrom_cons_other hNode hName,
              elementsFrom_cons_other hNode hName]
            apply ih _ fun i => hForeign (i + 1)
            intro i hi hSome
            have hIdle := hExtra (i + 1) (Nat.succ_le_succ hi) hSome
            rwa [idleAfter, List.take_succ_cons, elementsFrom_cons_other hNode hName]
              at hIdle

theorem loadSection_insertInto (extra : Nat → List Element) (doc : List Node) (st : α) :
    loadSection sec (some (insertInto sec.name extra doc)) st =
      match sectionIn doc sec.name with
      | none => .failed st
      | some info =>
          runEntries sec (elementsFrom (bytesOf "value") (weave info.children extra))
            st := by
  rw [loadSection_some, insertInto, sectionIn_mapSection]
  cases sectionIn doc sec.name with
  | none => rfl
  | some info => rfl

variable (sec) in
theorem loadSection_unaffected {doc : List Node} {extra : Nat → List Element}
    (hForeign : ∀ i, ∀ e ∈ extra i, cstr e.value ≠ bytesOf "value")
    (hIdle : ∀ info, sectionIn doc sec.name = some info → ∀ i ≤ info.children.length,
      extra i ≠ [] → idleAfter (sec.rules.map Rule.key) (info.children.take i))
    (st : α) :
    loadSection sec (some (insertInto sec.name extra doc)) st =
      loadSection sec (some doc) st := by
  rw [loadSection_insertInto, loadSection_some]
  cases hInfo : sectionIn doc sec.name with
  | none => rfl
  | some info =>
      exact runEntries_weave_from info.children extra hForeign (hIdle info hInfo) st

/-! ### Elsewhere they have one -/

/-- `<note />`. -/
def bareNote : Element := ⟨bytesOf "note", [], []⟩

/-- `<note type="" value="" />`. -/
def oddNote : Element :=
  ⟨bytesOf "note", [(bytesOf "type", []), (bytesOf "value", [])], []⟩

/-- An element put in while the loop runs is the next one it comes to. -/
theorem loadSection_insertAt {doc : List Node} {info : Element}
    (hInfo : sectionIn doc sec.name = some info) {i : Nat}
    (hi : i ≤ info.children.length)
    (hRunning : ¬ idleAfter (sec.rules.map Rule.key) (info.children.take i)) (st : α) :
    ∃ st', ∀ e, loadSection sec
        (some (insertInto sec.name (fun j => if j = i then [e] else []) doc)) st =
      (loadEntry sec e st').andThen
        (runEntries sec (elements (info.children.drop i))) := by
  have hStarted : elementsFrom (bytesOf "value") (info.children.take i) ≠ [] :=
    fun hNil => hRunning (Or.inl hNil)
  have hGood :
      AllKnown sec (elementsFrom (bytesOf "value") (info.children.take i)) := by
    intro e he
    by_contra hStop
    exact hRunning (Or.inr ⟨e, he, hStop⟩)
  refine ⟨assignAll sec.rules
    (entriesOf (elementsFrom (bytesOf "value") (info.children.take i))) st, ?_⟩
  intro e
  rw [loadSection_insertInto, hInfo]
  simp only [weave_at [e] info.children hi]
  rw [elementsFrom_append hStarted, runEntries_append hGood, elements_append,
    elements_toNode, List.singleton_append, runEntries]

variable (sec) in
/-- No result is the one for both notes. -/
theorem idle_of_unaffected (hKeys : [] ∉ sec.rules.map Rule.key) {doc : List Node}
    {info : Element} (hInfo : sectionIn doc sec.name = some info) {i : Nat}
    (hi : i ≤ info.children.length) (st : α)
    (hSame : ∀ e, cstr e.value ≠ bytesOf "value" →
      loadSection sec
        (some (insertInto sec.name (fun j => if j = i then [e] else []) doc))
        st = loadSection sec (some doc) st) :
    idleAfter (sec.rules.map Rule.key) (info.children.take i) := by
  by_contra hRunning
  obtain ⟨st', hInsert⟩ := loadSection_insertAt hInfo hi hRunning st
  have hBare : loadSection sec (some doc) st = .crashed := by
    rw [← hSame bareNote (by decide), hInsert, loadEntry_bare rfl, Load.andThen]
    exact fun _ h => by cases h
  have hOdd : loadSection sec (some doc) st = .failed st' := by
    rw [← hSame oddNote (by decide), hInsert,
      loadEntry_unknown (show entryOf oddNote = some ([], []) from rfl) hKeys,
        Load.andThen]
    exact fun _ h => by cases h
  rw [hBare] at hOdd
  cases hOdd

end Loop

/-! ## The four loaders -/

theorem map_injective {α γ : Type} {f : α → γ} (hf : ∀ a b, f a = f b → a = b)
    {l l' : Load α} (h : l.map f = l'.map f) : l = l' := by
  cases l <;> cases l' <;> simp only [Load.map, Load.loaded.injEq, Load.failed.injEq,
    reduceCtorEq] at h
  · rw [hf _ _ h]
  · rw [hf _ _ h]
  · rfl

/-- Whatever elements of another name are put into the loader's section at the
given places, the loader returns the same and leaves the same configuration. -/
def Loader.Unaffected (loader : Loader) (doc : List Node) (places : Nat → Prop) :
    Prop :=
  ∀ extra : Nat → List Element,
    (∀ i, ∀ e ∈ extra i, cstr e.value ≠ bytesOf "value") →
    (∀ i, extra i ≠ [] → places i) →
    ∀ s : Conf, loader.load s (some (insertInto loader.sectionName extra doc)) =
      loader.load s (some doc)

/-- The place before the `i`-th child of the section comes before its first
`value` element, or behind the element that ends the loop. -/
def Loader.IdleAt (loader : Loader) (doc : List Node) (i : Nat) : Prop :=
  ∀ info, sectionIn doc loader.sectionName = some info → i ≤ info.children.length →
    idleAfter loader.types (info.children.take i)

/-- **Where other elements have no effect.** Elements of another name than
`value` can be put at the given places of a section, with any attributes and
without any effect, exactly when the loop is not running at any of them. -/
theorem load_unaffected_iff (loader : Loader) (doc : List Node) (places : Nat → Prop) :
    loader.Unaffected doc places ↔ ∀ i, places i → loader.IdleAt doc i := by
  constructor
  · intro hSame i hi info hInfo hLength
    have hOne : ∀ e : Element, cstr e.value ≠ bytesOf "value" → ∀ s : Conf,
        loader.load s (some (insertInto loader.sectionName
          (fun j => if j = i then [e] else []) doc)) = loader.load s (some doc) := by
      intro e he
      apply hSame
      · intro j x hx
        split at hx
        · rw [List.mem_singleton.1 hx]
          exact he
        · cases hx
      · intro j hSome
        split at hSome
        · rename_i hj
          rw [hj]
          exact hi
        · exact absurd rfl hSome
    cases loader with
    | address =>
        apply idle_of_unaffected addressSection (by decide) hInfo hLength {}
        intro e he
        exact map_injective (fun _ _ h => congrArg Conf.AddressInfo h) (hOne e he {})
    | logger =>
        apply idle_of_unaffected loggerSection (by decide) hInfo hLength {}
        intro e he
        exact map_injective (fun _ _ h => congrArg Conf.LoggerInfo h) (hOne e he {})
    | redis =>
        apply idle_of_unaffected redisSection (by decide) hInfo hLength {}
        intro e he
        exact map_injective (fun _ _ h => congrArg Conf.RedisInfo h) (hOne e he {})
    | unique =>
        apply idle_of_unaffected uniqueSection (by decide) hInfo hLength {}
        intro e he
        exact map_injective (fun _ _ h => congrArg Conf.UniqueInfo h) (hOne e he {})
  · intro hIdle extra hForeign hPlaces s
    have hAt : ∀ info, sectionIn doc loader.sectionName = some info →
        ∀ i ≤ info.children.length, extra i ≠ [] →
          idleAfter loader.types (info.children.take i) :=
      fun info hInfo i hi hSome => hIdle i (hPlaces i hSome) info hInfo hi
    cases loader with
    | address =>
        exact congrArg (Load.map _)
          (loadSection_unaffected addressSection hForeign hAt _)
    | logger =>
        exact congrArg (Load.map _)
          (loadSection_unaffected loggerSection hForeign hAt _)
    | redis =>
        exact congrArg (Load.map _) (loadSection_unaffected redisSection hForeign hAt _)
    | unique =>
        exact congrArg (Load.map _)
          (loadSection_unaffected uniqueSection hForeign hAt _)

/-- `<old type="port" value="80" />`. -/
def oldPort : Element :=
  ⟨bytesOf "old", [(bytesOf "type", bytesOf "port"), (bytesOf "value", bytesOf "80")],
    []⟩

/-- Behind the entry of the port, an element called `old` sets the port. -/
theorem load_affected_oldPort :
    Loader.address.load {} (some addressOnly) =
      .loaded { AddressInfo := { port := 2019 } } ∧
    Loader.address.load {} (some (insertInto (bytesOf "addressInfo")
      (fun i => if i = 1 then [oldPort] else []) addressOnly)) =
        .loaded { AddressInfo := { port := 80 } } ∧
    ¬ ∀ (loader : Loader) (doc : List Node), loader.Unaffected doc fun _ => True := by
  have hPlain : Loader.address.load {} (some addressOnly) =
      .loaded { AddressInfo := { port := 2019 } } := by decide +kernel
  have hOld : Loader.address.load {} (some (insertInto (bytesOf "addressInfo")
      (fun i => if i = 1 then [oldPort] else []) addressOnly)) =
        .loaded { AddressInfo := { port := 80 } } := by decide +kernel
  refine ⟨hPlain, hOld, ?_⟩
  intro hAll
  have hSame := hAll .address addressOnly (fun i => if i = 1 then [oldPort] else [])
    (by
      intro i e he
      split at he
      · rw [List.mem_singleton.1 he]
        decide
      · cases he)
    (fun _ _ => trivial) {}
  rw [hPlain] at hSame
  have hEq := hOld.symm.trans hSame
  revert hEq
  decide

end MGServer.Ports.ServerConf
