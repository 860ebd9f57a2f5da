import MGServer.Ports.RedisProtocol

/-!
# The task stack against the parser

Between two items the reader's stack and its half-built reply are a row of
open arrays, innermost first: the elements each has and the number it will
have.  What such a place means for the bytes to come is the parser, followed
by the elements that are still missing.  Every round of the code's loop moves
the place forward without changing that meaning, ends the reply, finds the
parser's fault, or waits because the parser wants more.
-/

namespace MGServer.Ports.RedisReaderStack

open MGServer.Verified.ByteString
open MGServer.Verified.Incremental
open MGServer.Ports.RedisReader
open MGServer.Ports.RedisProtocol

/-! ## Line ends -/

theorem seekFrom_eq (s : Bytes) (pos : Nat) :
    seekFrom s pos (s.length - 1) =
      (splitLine s).map fun split => pos + split.1.length := by
  induction s generalizing pos with
  | nil => rfl
  | cons b s ih =>
      cases s with
      | nil => simp [seekFrom, splitLine]
      | cons c s =>
          have hTail := ih (pos + 1)
          rw [show (b :: c :: s).length - 1 =
            ((c :: s).length - 1) + 1 by simp, seekFrom, hTail, splitLine_cons b]
          by_cases hEnd : b = 13 ∧ (c :: s).head? = some 10
          · rw [if_pos hEnd, if_pos hEnd.1, if_pos hEnd.2]
            rfl
          · rw [if_neg hEnd, Option.map_map]
            have hSame : (if b = 13 then
                if (c :: s).head? = some 10 then some pos
                else (splitLine (c :: s)).map fun split => pos + 1 + split.1.length
              else (splitLine (c :: s)).map fun split => pos + 1 + split.1.length) =
                (splitLine (c :: s)).map fun split => pos + 1 + split.1.length := by
              split
              · rename_i hb
                rw [if_neg fun hHead => hEnd ⟨hb, hHead⟩]
              · rfl
            rw [hSame]
            congr 1
            funext split
            show pos + 1 + split.1.length = pos + (split.1.length + 1)
            omega

/-- As long as the length fits an `int`, the search finds the first CRLF. -/
theorem seekNewline_eq {s : Bytes} (hSize : s.length ≤ 2 ^ 31) :
    seekNewline s = (splitLine s).map fun split => split.1.length := by
  have hLen : (Int.bmod ((s.length : Int) - 1) (2 ^ 32)).toNat = s.length - 1 := by
    rw [Int.bmod_eq_of_le (by omega) (by omega)]
    omega
  rw [seekNewline, hLen, seekFrom_eq]
  simp

theorem seekNewline_eq_none {s : Bytes} (hSize : s.length ≤ 2 ^ 31) :
    seekNewline s = none ↔ splitLine s = none := by
  rw [seekNewline_eq hSize, Option.map_eq_none_iff]

theorem seekNewline_eq_some {s : Bytes} (hSize : s.length ≤ 2 ^ 31) {len : Nat}
    (hSeek : seekNewline s = some len) :
    splitLine s = some (s.take len, s.drop (len + 2)) ∧ len + 2 ≤ s.length := by
  rw [seekNewline_eq hSize] at hSeek
  obtain ⟨⟨line, rest⟩, hSplit, rfl⟩ := Option.map_eq_some_iff.1 hSeek
  obtain ⟨-, rfl⟩ := splitLine_eq_some.1 hSplit
  have hLine : (line ++ crlf ++ rest).take line.length = line := by simp
  have hRest : (line ++ crlf ++ rest).drop (line.length + 2) = rest := by
    rw [show line.length + 2 = (line ++ crlf).length by simp [crlf], List.drop_left]
  refine ⟨?_, ?_⟩
  · simp only
    rw [hLine, hRest]
    exact hSplit
  · simp [crlf]

/-! ## Half-built replies -/

/-- An array being filled: the elements it has and how many it will have. -/
structure Frame where
  done : List RedisReply
  total : Nat

/-- The array with something in the place of its next element. -/
def Frame.filled (f : Frame) (inner : RedisReply) : RedisReply :=
  .array (f.done ++ inner :: List.replicate (f.total - f.done.length - 1) .null)

/-- The whole reply, from the innermost array out. -/
def assemble (inner : RedisReply) : List Frame → RedisReply
  | [] => inner
  | f :: fs => assemble (f.filled inner) fs

/-- Where the next element of the innermost array is. -/
def address : List Frame → List Nat
  | [] => []
  | f :: fs => address fs ++ [f.done.length]

theorem filled_getElem (f : Frame) (inner : RedisReply) :
    (f.done ++ inner :: List.replicate (f.total - f.done.length - 1)
      .null)[f.done.length]? =
      some inner := by
  simp

theorem filled_set (f : Frame) (inner obj : RedisReply) :
    (f.done ++ inner :: List.replicate (f.total - f.done.length - 1) .null).set
        f.done.length obj =
      f.done ++ obj :: List.replicate (f.total - f.done.length - 1) .null := by
  simp

/-- A store below the open arrays is a store into what they hold. -/
theorem assemble_store (inner : RedisReply) (fs : List Frame)
    (addr : List Nat) (idx : Nat) (obj : RedisReply) :
    (assemble inner fs).store (address fs ++ addr) idx obj =
      (inner.store addr idx obj).map fun inner => assemble inner fs := by
  induction fs generalizing inner addr with
  | nil => simp [assemble, address]
  | cons f fs ih =>
      rw [assemble, address, List.append_assoc, ih, List.singleton_append, Frame.filled,
        RedisReply.store]
      simp only [filled_getElem, Option.map_map]
      congr 1
      funext child
      show assemble (.array (List.set _ _ _)) fs = assemble _ (f :: fs)
      rw [filled_set]
      rfl

/-- The object just read takes the place of the next element. -/
theorem assemble_store_next (inner : RedisReply) (f : Frame) (fs : List Frame)
    (obj : RedisReply) :
    (assemble inner (f :: fs)).store (address fs) f.done.length obj =
      some (assemble obj (f :: fs)) := by
  have hStore := assemble_store (f.filled inner) fs [] f.done.length obj
  rw [List.append_nil] at hStore
  rw [assemble, hStore, Frame.filled, RedisReply.store, if_pos (by simp), filled_set]
  rfl

/-- What becomes of the open arrays when their next element is complete: the
reply is, or there are arrays left to fill. -/
def settle : List Frame → RedisReply → RedisReply ⊕ List Frame
  | [], v => .inl v
  | f :: fs, v =>
      if f.done.length + 1 = f.total then settle fs (.array (f.done ++ [v]))
      else .inr (⟨f.done ++ [v], f.total⟩ :: fs)

/-- Every open array lacks an element, and has no more than an `int` counts. -/
def Open (fs : List Frame) : Prop :=
  ∀ f ∈ fs, f.done.length < f.total

theorem Open.tail {f : Frame} {fs : List Frame} (hOpen : Open (f :: fs)) : Open fs :=
  fun g hg => hOpen g (List.mem_cons_of_mem _ hg)

theorem settle_open {fs fs' : List Frame} {v : RedisReply} (hOpen : Open fs)
    (hSettle : settle fs v = .inr fs') : Open fs' ∧ fs'.length ≤ fs.length := by
  induction fs generalizing v with
  | nil => cases hSettle
  | cons f fs ih =>
      rw [settle] at hSettle
      split at hSettle
      · obtain ⟨hOpen', hLen⟩ := ih hOpen.tail hSettle
        exact ⟨hOpen', Nat.le_succ_of_le hLen⟩
      · rename_i hFull
        cases hSettle
        refine ⟨?_, Nat.le_refl _⟩
        intro g hg
        rcases List.mem_cons.1 hg with rfl | hg
        · have hLess := hOpen f (List.mem_cons_self ..)
          simp only [List.length_append, List.length_singleton]
          omega
        · exact hOpen.tail g hg

/-- The tree with the complete element in it is the tree of what is left. -/
theorem assemble_settle {fs : List Frame} (hOpen : Open fs) (v : RedisReply) :
    assemble v fs =
      match settle fs v with
      | .inl whole => whole
      | .inr fs' => assemble .null fs' := by
  induction fs generalizing v with
  | nil => rfl
  | cons f fs ih =>
      have hLess := hOpen f (List.mem_cons_self ..)
      rw [settle, assemble]
      by_cases hFull : f.done.length + 1 = f.total
      · rw [if_pos hFull, ← ih hOpen.tail, Frame.filled,
          show f.total - f.done.length - 1 = 0 by omega, List.replicate_zero]
      · rw [if_neg hFull]
        show assemble (f.filled v) fs = assemble (Frame.filled _ .null) fs
        congr 1
        simp only [Frame.filled, List.length_append,
          List.length_singleton, List.append_assoc, List.singleton_append]
        rw [show f.total - f.done.length - 1 =
          (f.total - (f.done.length + 1) - 1) + 1 by omega, List.replicate_succ]

/-! ## Tasks -/

/-- The index of the current task. -/
def idxOf : List Frame → Int
  | [] => -1
  | f :: _ => f.done.length

/-- The tasks of the open arrays. -/
def frameTasks : List Frame → List Task
  | [] => []
  | f :: fs => ⟨some .array, f.total, idxOf fs, some (address fs)⟩ :: frameTasks fs

theorem length_frameTasks (fs : List Frame) : (frameTasks fs).length = fs.length := by
  induction fs with
  | nil => rfl
  | cons f fs ih => rw [frameTasks, List.length_cons, ih, List.length_cons]

/-- `moveToNextTask` settles the open arrays and breaks none of its
assertions. -/
theorem moveToNextTask_frameTasks {fs : List Frame} (hOpen : Open fs) (v : RedisReply)
    (cur : Task) (hIdx : cur.idx = idxOf fs) :
    match settle fs v with
    | .inl _ => moveToNextTask (cur :: frameTasks fs) = some []
    | .inr fs' => ∃ obj, moveToNextTask (cur :: frameTasks fs) =
        some (⟨none, -1, idxOf fs', obj⟩ :: frameTasks fs') := by
  induction fs generalizing v cur with
  | nil => rfl
  | cons f fs ih =>
      have hLess := hOpen f (List.mem_cons_self ..)
      have hCur : cur.idx = (f.done.length : Int) := hIdx
      have hType : ¬ some Kind.array ≠ some Kind.array := by simp
      rw [settle, frameTasks, moveToNextTask, if_neg hType]
      by_cases hFull : f.done.length + 1 = f.total
      · have hLast : cur.idx = (f.total : Int) - 1 := by omega
        rw [if_pos hFull, if_pos hLast]
        exact ih hOpen.tail _ _ rfl
      · have hLast : ¬ cur.idx = (f.total : Int) - 1 := by omega
        have hMore : cur.idx < (f.total : Int) := by omega
        rw [if_neg hFull, if_neg hLast, if_pos hMore]
        refine ⟨cur.obj, ?_⟩
        rw [hCur]
        simp [frameTasks, idxOf]

/-! ## Places -/

/-- The open arrays, and the type of the current item once it has been read. -/
structure Place where
  frames : List Frame
  kind : Option Kind

/-- Arrays that may still be opened inside the current ones. -/
def depthLeft (fs : List Frame) : Nat := 8 - fs.length

/-- The elements the open arrays lack, behind a value for the innermost. -/
def resume : List Frame → RedisReply → Parse
  | [], v => fun input => .ok v input
  | f :: fs, v => fun input =>
      (collect (parseReply (8 - (fs.length + 1)))
        (f.total - f.done.length - 1) input).bind
        fun vs rest => resume fs (.array (f.done ++ v :: vs)) rest

theorem resume_cons (f : Frame) (fs : List Frame) (v : RedisReply) (input : Bytes) :
    resume (f :: fs) v input =
      (collect (parseReply (8 - (fs.length + 1)))
        (f.total - f.done.length - 1) input).bind
        fun vs rest => resume fs (.array (f.done ++ v :: vs)) rest := rfl

/-- What a place means for the bytes to come. -/
def Place.meaning (p : Place) : Parse := fun input =>
  (match p.kind with
    | none => parseReply (depthLeft p.frames) input
    | some kind => parseTyped (innerParse (depthLeft p.frames)) kind input).bind
      (resume p.frames)

theorem meaning_start : Place.meaning ⟨[], none⟩ = parseReply 8 := by
  funext input
  show (parseReply 8 input).bind (fun v rest => .ok v rest) = parseReply 8 input
  cases parseReply 8 input <;> rfl

/-- A complete element settles the place. -/
theorem resume_settle {fs : List Frame} (hOpen : Open fs)
    (v : RedisReply) (input : Bytes) :
    resume fs v input =
      match settle fs v with
      | .inl whole => .ok whole input
      | .inr fs' => Place.meaning ⟨fs', none⟩ input := by
  induction fs generalizing v with
  | nil => rfl
  | cons f fs ih =>
      have hLess := hOpen f (List.mem_cons_self ..)
      rw [settle, resume_cons]
      by_cases hFull : f.done.length + 1 = f.total
      · rw [if_pos hFull, show f.total - f.done.length - 1 = 0 by omega, collect_zero,
          Verdict.ok_bind,
          ih hOpen.tail]
      · rw [if_neg hFull,
          show f.total - f.done.length - 1 =
            (f.total - (f.done.length + 1) - 1) + 1 by omega,
          collect_succ, Verdict.bind_assoc]
        show _ = (parseReply (8 - (fs.length + 1)) input).bind _
        congr 1
        funext value rest
        rw [Verdict.bind_assoc]
        simp only [Verdict.ok_bind, resume_cons,
          List.length_append, List.length_singleton,
            List.append_assoc, List.singleton_append]

/-! ## The reader at a place -/

/-- The reader between two items. -/
structure Reads (r : Reader) (p : Place) : Prop where
  err : r.err = none
  stack : ∃ obj, r.rstack = ⟨p.kind, -1, idxOf p.frames, obj⟩ :: frameTasks p.frames
  reply : r.reply = assemble .null p.frames
  isOpen : Open p.frames
  deep : p.frames.length ≤ 8

/-- The cursor is inside the buffer, and the length of the buffer fits an `int`. -/
structure Bounded (r : Reader) : Prop where
  pos : r.pos ≤ r.buf.length
  size : r.buf.length < 2 ^ 31

theorem Reads.move {r : Reader} {p : Place} (hReads : Reads r p) (pos : Nat) :
    Reads { r with pos := pos } p :=
  ⟨hReads.err, hReads.stack, hReads.reply, hReads.isOpen, hReads.deep⟩

theorem unread_move (r : Reader) (len : Nat) :
    ({ r with pos := r.pos + len } : Reader).unread = r.unread.drop len := by
  simp [Reader.unread]

theorem length_unread (r : Reader) : r.unread.length = r.buf.length - r.pos := by
  simp [Reader.unread]

theorem Bounded.move {r : Reader} (hBounded : Bounded r) (len : Nat)
    (hLen : len ≤ r.unread.length) : Bounded { r with pos := r.pos + len } := by
  have hPos := hBounded.pos
  rw [length_unread] at hLen
  exact ⟨by simp only; omega, hBounded.size⟩

/-- What one round of the loop can do at a place. -/
inductive Round (p : Place) (r : Reader) : Bool → Reader → Prop where
  | waits {p' : Place} {r' : Reader} (hReads : Reads r' p') (hBounded : Bounded r')
      (hMeaning : ∀ future,
        p.meaning (r.unread ++ future) = p'.meaning (r'.unread ++ future))
      (hMore : p'.meaning r'.unread = .more) (hSuffix : r'.unread <:+ r.unread) :
      Round p r false r'
  | faults {f : Fault} {r' : Reader} (hErr : r'.err = some f)
      (hMeaning : ∀ future, p.meaning (r.unread ++ future) = .bad f) :
      Round p r false r'
  | moves {p' : Place} {r' : Reader} (hReads : Reads r' p') (hBounded : Bounded r')
      (hMeaning : ∀ future,
        p.meaning (r.unread ++ future) = p'.meaning (r'.unread ++ future))
      (hSuffix : r'.unread <:+ r.unread) (hLess : r'.unread.length < r.unread.length) :
      Round p r true r'
  | ends {v : RedisReply} {r' : Reader} (hErr : r'.err = none) (hStack : r'.rstack = [])
      (hReply : r'.reply = v) (hBounded : Bounded r')
      (hMeaning : ∀ future,
        p.meaning (r.unread ++ future) = .ok v (r'.unread ++ future))
      (hLess : r'.unread.length < r.unread.length) : Round p r true r'

/-- The reply with a new object in the next place. -/
def placed (r : Reader) (fs : List Frame) (obj : RedisReply) : RedisReply :=
  match fs with
  | [] => r.reply
  | f :: fs => assemble obj (f :: fs)

/-- With the root object set, the reply holds the new object in any case. -/
theorem setRoot_placed {r : Reader} {p : Place} (hReads : Reads r p) (obj : RedisReply)
    (made : Nat) :
    setRoot { r with reply := placed r p.frames obj, made := made } obj =
      { r with reply := assemble obj p.frames, made := made } := by
  obtain ⟨cur, hStack⟩ := hReads.stack
  unfold setRoot
  cases hFrames : p.frames with
  | nil =>
      rw [hFrames] at hStack
      rw [if_pos (by rw [hStack]; rfl)]
      rfl
  | cons f fs =>
      rw [hFrames] at hStack
      rw [if_neg (by rw [hStack]; simp [frameTasks])]
      rfl

section Items

variable {mem : Nat → Bool} (hMem : ∀ n, mem n = true)

include hMem

theorem createObject_reads {r : Reader} {p : Place}
    (hReads : Reads r p) (obj : RedisReply) :
    createObject mem r obj =
      some (true, { r with reply := placed r p.frames obj, made := r.made + 1 }) := by
  obtain ⟨cur, hStack⟩ := hReads.stack
  unfold createObject
  rw [if_pos (hMem _), hStack]
  cases hFrames : p.frames with
  | nil => rfl
  | cons f fs =>
      have hIdx : ¬ (f.done.length : Int) < 0 := by omega
      have hReply := hReads.reply
      rw [hFrames] at hReply
      simp only [frameTasks, idxOf, Option.bind_eq_bind, Option.bind_some, if_neg hIdx,
        Int.toNat_natCast, hReply, assemble_store_next]
      rfl

/-- A complete item settles the place of the reader. -/
theorem finishItem_reads {r : Reader} {p : Place}
    (hReads : Reads r p) (obj : RedisReply) :
    ∃ r', finishItem mem r obj = some (true, r') ∧ r'.err = none ∧ r'.buf = r.buf ∧
      r'.pos = r.pos ∧
      match settle p.frames obj with
      | .inl whole => r'.rstack = [] ∧ r'.reply = whole
      | .inr fs' => Reads r' ⟨fs', none⟩ := by
  obtain ⟨cur, hStack⟩ := hReads.stack
  have hMove := moveToNextTask_frameTasks hReads.isOpen obj
    ⟨p.kind, -1, idxOf p.frames, cur⟩ rfl
  have hTree := assemble_settle hReads.isOpen obj
  rw [← hStack] at hMove
  unfold finishItem
  rw [createObject_reads hMem hReads]
  simp only [Option.bind_eq_bind, Option.bind_some, if_true,
    setRoot_placed hReads obj (r.made + 1)]
  cases hSettle : settle p.frames obj with
  | inl whole =>
      rw [hSettle] at hMove hTree
      simp only at hMove hTree
      rw [hMove]
      exact ⟨_, rfl, hReads.err, rfl, rfl, rfl, hTree⟩
  | inr fs' =>
      rw [hSettle] at hMove hTree
      simp only at hMove hTree
      obtain ⟨obj', hMove⟩ := hMove
      obtain ⟨hOpen, hLen⟩ := settle_open hReads.isOpen hSettle
      rw [hMove]
      exact ⟨_, rfl, hReads.err, rfl, rfl, hReads.err, ⟨obj', rfl⟩, hTree, hOpen,
        Nat.le_trans hLen hReads.deep⟩

/-- The round in which the current item is complete. -/
theorem round_of_finish {r : Reader} {fs : List Frame} {kind : Kind}
    (hReads : Reads r ⟨fs, some kind⟩) (hBounded : Bounded r)
    {len : Nat} (hPos : 0 < len) (hLen : len ≤ r.unread.length) {v : RedisReply}
    (hItem : ∀ future,
      parseTyped (innerParse (depthLeft fs)) kind (r.unread ++ future) =
        .ok v (r.unread.drop len ++ future)) :
    ∃ ok r', finishItem mem { r with pos := r.pos + len } v = some (ok, r') ∧
      Round ⟨fs, some kind⟩ r ok r' := by
  obtain ⟨r', hRun, hErr, hBuf, hAt, hAfter⟩ :=
    finishItem_reads hMem (hReads.move (r.pos + len)) v
  have hUnread : r'.unread = r.unread.drop len := by
    rw [← unread_move]
    unfold Reader.unread
    rw [hBuf, hAt]
  have hBounded' : Bounded r' := by
    have hMoved := hBounded.move _ hLen
    exact ⟨by rw [hBuf, hAt]; exact hMoved.pos, by rw [hBuf]; exact hMoved.size⟩
  have hLess : r'.unread.length < r.unread.length := by
    rw [hUnread, List.length_drop]
    omega
  have hMeaning : ∀ future, Place.meaning ⟨fs, some kind⟩ (r.unread ++ future) =
      match settle fs v with
      | .inl whole => .ok whole (r'.unread ++ future)
      | .inr fs' => Place.meaning ⟨fs', none⟩ (r'.unread ++ future) := by
    intro future
    show (parseTyped _ kind _).bind (resume fs) = _
    rw [hItem future, Verdict.ok_bind, resume_settle hReads.isOpen, hUnread]
  refine ⟨true, r', hRun, ?_⟩
  have hSuffix : r'.unread <:+ r.unread := by
    rw [hUnread]
    exact List.drop_suffix len _
  simp only at hAfter
  cases hSettle : settle fs v with
  | inl whole =>
      rw [hSettle] at hAfter
      simp only [hSettle] at hMeaning
      exact .ends hErr hAfter.1 hAfter.2 hBounded' hMeaning hLess
  | inr fs' =>
      rw [hSettle] at hAfter
      simp only [hSettle] at hMeaning
      exact .moves hAfter hBounded' hMeaning hSuffix hLess

omit hMem in
/-- The round that changes nothing, because the line is not there. -/
theorem round_waits {r : Reader} {p : Place} (hReads : Reads r p) (hBounded : Bounded r)
    (hMore : p.meaning r.unread = .more) : Round p r false r :=
  .waits hReads hBounded (fun _ => rfl) hMore (List.suffix_refl _)

theorem processLineItem_round {r : Reader} {fs : List Frame} {kind : Kind}
    (hReads : Reads r ⟨fs, some kind⟩) (hBounded : Bounded r)
    (hSize : r.unread.length ≤ 2 ^ 31)
    (hKind : parseTyped (innerParse (depthLeft fs)) kind = parseLine kind) :
    ∃ ok r', processLineItem mem kind r = some (ok, r') ∧
      Round ⟨fs, some kind⟩ r ok r' := by
  have hMeaning : ∀ input, Place.meaning ⟨fs, some kind⟩ input =
      (parseLine kind input).bind (resume fs) := by
    intro input
    rw [← hKind]
    rfl
  unfold processLineItem readLine
  cases hSeek : seekNewline r.unread with
  | none =>
      have hSplit := (seekNewline_eq_none hSize).1 hSeek
      refine ⟨false, r, rfl, round_waits hReads hBounded ?_⟩
      rw [hMeaning, parseLine, withLine_of_none hSplit]
      rfl
  | some len =>
      obtain ⟨hSplit, hLen⟩ := seekNewline_eq_some hSize hSeek
      simp only [Option.map_some]
      cases hObj : lineObject kind (r.unread.take len) with
      | none =>
          refine ⟨false, _, rfl, .faults rfl ?_⟩
          intro future
          rw [hMeaning, parseLine, withLine_of_some hSplit]
          simp only [hObj]
          rfl
      | some obj =>
          apply round_of_finish hMem hReads hBounded (by omega) hLen
          intro future
          rw [hKind, parseLine, withLine_of_some hSplit]
          simp only [hObj]

theorem processBulkItem_round {r : Reader} {fs : List Frame}
    (hReads : Reads r ⟨fs, some .string⟩) (hBounded : Bounded r)
    (hSize : r.unread.length ≤ 2 ^ 31) :
    ∃ ok r', processBulkItem mem r = some (ok, r') ∧
      Round ⟨fs, some .string⟩ r ok r' := by
  have hMeaning : ∀ input, Place.meaning ⟨fs, some .string⟩ input =
      (parseBulk input).bind (resume fs) := fun _ => rfl
  unfold processBulkItem
  cases hSeek : seekNewline r.unread with
  | none =>
      have hSplit := (seekNewline_eq_none hSize).1 hSeek
      refine ⟨false, r, rfl, round_waits hReads hBounded ?_⟩
      rw [hMeaning, parseBulk, withLine_of_none hSplit]
      rfl
  | some s =>
      obtain ⟨hSplit, hLen⟩ := seekNewline_eq_some hSize hSeek
      simp only
      cases hNum : string2ll (r.unread.take s) with
      | none =>
          refine ⟨false, _, rfl, .faults rfl ?_⟩
          intro future
          rw [hMeaning, parseBulk, withLine_of_some hSplit]
          simp only [hNum]
          rfl
      | some len =>
          obtain ⟨-, hLow, hHigh⟩ := string2ll_eq_some.1 hNum
          simp only
          by_cases hNeg : len < -1
          · rw [if_pos hNeg]
            refine ⟨false, _, rfl, .faults rfl ?_⟩
            intro future
            rw [hMeaning, parseBulk, withLine_of_some hSplit]
            simp only [hNum]
            rw [if_pos hNeg]
            rfl
          · rw [if_neg hNeg]
            by_cases hNil : len = -1
            · rw [if_pos hNil]
              apply round_of_finish hMem hReads hBounded (by omega) hLen
              intro future
              show parseBulk _ = _
              rw [parseBulk, withLine_of_some hSplit]
              simp only [hNum]
              rw [if_neg hNeg, if_pos hNil]
            · rw [if_neg hNil]
              obtain ⟨n, rfl⟩ : ∃ n : Nat, len = n := ⟨len.toNat, by omega⟩
              have hPos := hBounded.pos
              have hBuf := hBounded.size
              have hUnread := length_unread r
              have hBytes : (s + 2 + (n + 2)) % 2 ^ 64 = s + 2 + (n + 2) :=
                Nat.mod_eq_of_lt (by omega)
              have hSum :
                  (r.pos + (s + 2 + (n + 2))) % 2 ^ 64 = r.pos + (s + 2 + (n + 2)) :=
                Nat.mod_eq_of_lt (by omega)
              simp only [Int.toNat_natCast, hBytes, hSum]
              by_cases hThere : r.pos + (s + 2 + (n + 2)) ≤ r.buf.length
              · rw [if_pos hThere]
                apply round_of_finish hMem hReads hBounded (by omega) (by omega)
                intro future
                show parseBulk _ = _
                have hBody : n + 2 ≤ (r.unread.drop (s + 2)).length := by
                  rw [List.length_drop]
                  omega
                rw [parseBulk, withLine_of_some hSplit]
                simp only [hNum]
                rw [if_neg hNeg, if_neg hNil, Int.toNat_natCast,
                  if_pos (by rw [List.length_append]; omega),
                  List.take_append_of_le_length (by omega),
                  List.drop_append_of_le_length hBody, List.drop_drop]
              · rw [if_neg hThere]
                refine ⟨false, r, rfl, round_waits hReads hBounded ?_⟩
                have hLine := withLine_of_some hSplit
                rw [hMeaning, parseBulk, ← List.append_nil r.unread,
                  hLine, List.append_nil]
                simp only [hNum]
                rw [if_neg hNeg, if_neg hNil, Int.toNat_natCast,
                  if_neg (by rw [List.length_drop]; omega)]
                rfl

omit hMem in
/-- The elements of a new array are those of a new innermost frame. -/
theorem elements_meaning {fs : List Frame} (n : Nat) (input : Bytes) :
    ((collect (parseReply (8 - (fs.length + 1))) (n + 1) input).bind fun element rest =>
        (.ok (.array element) rest : Verdict Fault RedisReply UInt8)).bind (resume fs) =
      Place.meaning ⟨⟨[], n + 1⟩ :: fs, none⟩ input := by
  show _ = (parseReply (8 - (fs.length + 1)) input).bind (resume (⟨[], n + 1⟩ :: fs))
  rw [collect_succ, Verdict.bind_assoc, Verdict.bind_assoc]
  congr 1
  funext value rest
  rw [Verdict.bind_assoc, resume_cons]
  rfl

omit hMem in
/-- The new task and the new array make a new innermost frame. -/
theorem pushTask_reads {r : Reader} {fs : List Frame}
    (hReads : Reads r ⟨fs, some .array⟩) (hDeep : fs.length < 8) (n made : Nat) :
    ∃ r', pushTask
        { r with
          reply := assemble (.array (List.replicate (n + 1) .null)) fs
          made := made } ((n + 1 : Nat) : Int) = some r' ∧
      r'.buf = r.buf ∧ r'.pos = r.pos ∧ Reads r' ⟨⟨[], n + 1⟩ :: fs, none⟩ := by
  obtain ⟨obj, hStack⟩ := hReads.stack
  simp only at hStack
  have hRoom : r.rstack.length < stackSize := by
    rw [hStack, List.length_cons, length_frameTasks, stackSize]
    omega
  have hAddr : ∀ cur : Task, cur.idx = idxOf fs →
      objAddress cur (frameTasks fs) = some (address fs) := by
    intro cur hIdx
    cases fs with
    | nil => rfl
    | cons f fs =>
        show some (address fs ++ [cur.idx.toNat]) = some (address fs ++ [f.done.length])
        rw [hIdx]
        rfl
  have hReply : assemble (.array (List.replicate (n + 1) .null)) fs =
      assemble .null (⟨[], n + 1⟩ :: fs) := by
    rw [assemble, Frame.filled]
    rfl
  unfold pushTask
  simp only [hStack] at hRoom ⊢
  rw [if_pos hRoom]
  refine ⟨_, rfl, rfl, rfl, hReads.err, ⟨none, ?_⟩, hReply, ?_, hDeep⟩
  · rw [hAddr _ rfl]
    rfl
  · intro f hf
    rcases List.mem_cons.1 hf with rfl | hf
    · exact Nat.succ_pos n
    · exact hReads.isOpen f hf

theorem processMultiBulkItem_round {r : Reader} {fs : List Frame}
    (hReads : Reads r ⟨fs, some .array⟩) (hBounded : Bounded r)
    (hSize : r.unread.length ≤ 2 ^ 31) :
    ∃ ok r', processMultiBulkItem mem r = some (ok, r') ∧
      Round ⟨fs, some .array⟩ r ok r' := by
  obtain ⟨obj, hStack⟩ := hReads.stack
  have hLength : r.rstack.length = fs.length + 1 := by
    rw [hStack, List.length_cons, length_frameTasks]
  have hDeep : fs.length ≤ 8 := hReads.deep
  unfold processMultiBulkItem
  by_cases hFull : fs.length = 8
  · -- the stack is full and the parser has no array left to open
    rw [if_pos (by omega)]
    refine ⟨false, _, rfl, .faults rfl ?_⟩
    intro future
    show (parseMultiBulk (innerParse (8 - fs.length)) _).bind _ = _
    rw [hFull]
    rfl
  · rw [if_neg (by omega)]
    have hInner : ∀ input, parseTyped (innerParse (depthLeft fs)) .array input =
        parseElements (parseReply (8 - (fs.length + 1))) input := by
      intro input
      show parseMultiBulk (innerParse (8 - fs.length)) input = _
      rw [show 8 - fs.length = (8 - (fs.length + 1)) + 1 by omega]
      rfl
    have hMeaning : ∀ input, Place.meaning ⟨fs, some .array⟩ input =
        (parseElements (parseReply (8 - (fs.length + 1))) input).bind (resume fs) := by
      intro input
      rw [← hInner]
      rfl
    unfold readLine
    cases hSeek : seekNewline r.unread with
    | none =>
        have hSplit := (seekNewline_eq_none hSize).1 hSeek
        refine ⟨false, r, rfl, round_waits hReads hBounded ?_⟩
        rw [hMeaning, parseElements, withLine_of_none hSplit]
        rfl
    | some len =>
        obtain ⟨hSplit, hLen⟩ := seekNewline_eq_some hSize hSeek
        simp only [Option.map_some]
        cases hNum : string2ll (r.unread.take len) with
        | none =>
            refine ⟨false, _, rfl, .faults rfl ?_⟩
            intro future
            rw [hMeaning, parseElements, withLine_of_some hSplit]
            simp only [hNum]
            rfl
        | some elements =>
            simp only
            by_cases hRange : elements < -1 ∨ elements > INT_MAX
            · rw [if_pos hRange]
              refine ⟨false, _, rfl, .faults rfl ?_⟩
              intro future
              rw [hMeaning, parseElements, withLine_of_some hSplit]
              simp only [hNum]
              rw [if_pos hRange]
              rfl
            · rw [if_neg hRange]
              by_cases hNil : elements = -1
              · rw [if_pos hNil]
                apply round_of_finish hMem hReads hBounded (by omega) hLen
                intro future
                rw [hInner, parseElements, withLine_of_some hSplit]
                simp only [hNum]
                rw [if_neg hRange, if_pos hNil]
              · rw [if_neg hNil]
                by_cases hZero : elements = 0
                · rw [if_pos hZero]
                  apply round_of_finish hMem hReads hBounded (by omega) hLen
                  intro future
                  rw [hInner, parseElements, withLine_of_some hSplit]
                  simp only [hNum]
                  rw [if_neg hRange, if_neg hNil, hZero]
                  rfl
                · rw [if_neg hZero]
                  obtain ⟨n, rfl⟩ : ∃ n : Nat, elements = ((n + 1 : Nat) : Int) :=
                    ⟨elements.toNat - 1, by omega⟩
                  have hMoved := hReads.move (r.pos + (len + 2))
                  obtain ⟨r', hPush, hBuf, hPos, hReads'⟩ :=
                    pushTask_reads hMoved (by omega) n (r.made + 1)
                  have hUnread : r'.unread = r.unread.drop (len + 2) := by
                    rw [← unread_move]
                    unfold Reader.unread
                    rw [hBuf, hPos]
                  have hBounded' := hBounded.move _ hLen
                  rw [createObject_reads hMem hMoved]
                  simp only [Option.bind_eq_bind, Option.bind_some,
                    if_true, Int.toNat_natCast]
                  have hRoot := setRoot_placed hMoved
                    (.array (List.replicate (n + 1) .null)) (r.made + 1)
                  rw [hRoot, hPush]
                  refine ⟨true, r', rfl, .moves hReads' ?_ ?_ ?_ ?_⟩
                  · exact ⟨by rw [hBuf, hPos]; exact hBounded'.pos,
                      by rw [hBuf]; exact hBounded'.size⟩
                  · intro future
                    rw [hMeaning, parseElements, withLine_of_some hSplit]
                    simp only [hNum]
                    rw [if_neg hRange, if_neg hNil, Int.toNat_natCast,
                      elements_meaning, hUnread]
                  · rw [hUnread]
                    exact List.drop_suffix _ _
                  · rw [hUnread, List.length_drop]
                    omega

theorem processTyped_round {r : Reader} {fs : List Frame} {kind : Kind}
    (hReads : Reads r ⟨fs, some kind⟩) (hBounded : Bounded r)
    (hSize : r.unread.length ≤ 2 ^ 31) :
    ∃ ok r', processTyped mem kind r = some (ok, r') ∧
      Round ⟨fs, some kind⟩ r ok r' := by
  cases kind with
  | string => exact processBulkItem_round hMem hReads hBounded hSize
  | array => exact processMultiBulkItem_round hMem hReads hBounded hSize
  | integer => exact processLineItem_round hMem hReads hBounded hSize rfl
  | status => exact processLineItem_round hMem hReads hBounded hSize rfl
  | error => exact processLineItem_round hMem hReads hBounded hSize rfl

omit hMem in
/-- A round behind a step that keeps the meaning. -/
theorem Round.after {p p' : Place} {r r₁ r' : Reader} {ok : Bool}
    (hRound : Round p' r₁ ok r')
    (hStep : ∀ future, p.meaning (r.unread ++ future) =
    p'.meaning (r₁.unread ++ future))
      (hBack : r₁.unread <:+ r.unread) : Round p r ok r' := by
  have hLess := hBack.length_le
  cases hRound with
  | waits hReads hBounded hMeaning hMore hSuffix =>
      exact .waits hReads hBounded
        (fun future => (hStep future).trans (hMeaning future)) hMore
        (hSuffix.trans hBack)
  | faults hErr hMeaning =>
      exact .faults hErr fun future => (hStep future).trans (hMeaning future)
  | moves hReads hBounded hMeaning hSuffix hShorter =>
      exact .moves hReads hBounded
        (fun future => (hStep future).trans (hMeaning future))
        (hSuffix.trans hBack) (Nat.lt_of_lt_of_le hShorter hLess)
  | ends hErr hStack hReply hBounded hMeaning hShorter =>
      exact .ends hErr hStack hReply hBounded
        (fun future => (hStep future).trans (hMeaning future))
        (Nat.lt_of_lt_of_le hShorter hLess)

/-- **One round.** `processItem` comes back, and does one of the four things. -/
theorem processItem_round {r : Reader} {p : Place}
    (hReads : Reads r p) (hBounded : Bounded r) (hSize : r.unread.length ≤ 2 ^ 31) :
    ∃ ok r', processItem mem r = some (ok, r') ∧ Round p r ok r' := by
  obtain ⟨fs, kind⟩ := p
  obtain ⟨obj, hStack⟩ := hReads.stack
  unfold processItem
  rw [hStack]
  cases kind with
  | some kind => exact processTyped_round hMem hReads hBounded hSize
  | none =>
      have hMeaning : ∀ input, Place.meaning ⟨fs, none⟩ input =
          (parseItem (innerParse (depthLeft fs)) input).bind (resume fs) := by
        intro input
        rw [← parseReply_eq]
        rfl
      cases hUnread : r.unread with
      | nil =>
          refine ⟨false, r, rfl, round_waits hReads hBounded ?_⟩
          rw [hUnread, hMeaning]
          rfl
      | cons byte rest =>
          simp only
          cases hKind : Kind.ofByte byte with
          | none =>
              refine ⟨false, _, rfl, .faults rfl ?_⟩
              intro future
              rw [hUnread, hMeaning, List.cons_append, parseItem, hKind]
              rfl
          | some kind =>
              have hTyped : Reads
                  { r with
                    pos := r.pos + 1
                    rstack := ⟨some kind, -1, idxOf fs, obj⟩ :: frameTasks fs }
                  ⟨fs, some kind⟩ :=
                ⟨hReads.err, ⟨obj, rfl⟩, hReads.reply, hReads.isOpen, hReads.deep⟩
              have hRest :
                  ({ r with
                    pos := r.pos + 1
                    rstack := ⟨some kind, -1, idxOf fs, obj⟩ :: frameTasks fs } :
                      Reader).unread = rest := by
                have hDrop := unread_move r 1
                rw [hUnread] at hDrop
                exact hDrop
              have hMoved := hBounded.move 1 (by rw [hUnread]; simp)
              obtain ⟨ok, r', hRun, hRound⟩ :=
                processTyped_round hMem hTyped ⟨hMoved.pos, hMoved.size⟩
                  (by rw [hRest]; rw [hUnread] at hSize; simp at hSize; omega)
              refine ⟨ok, r', hRun, hRound.after ?_ ?_⟩
              · intro future
                rw [hUnread, hMeaning, List.cons_append, parseItem, hKind, hRest]
                rfl
              · rw [hRest, hUnread]
                exact List.suffix_cons byte rest

end Items

end MGServer.Ports.RedisReaderStack
