import MGServer.Ports.EchoServerEffect
import MGServer.Verified.Ownership

/-!
# Who owns a block of the echo server

Each client owns the buffer of its ongoing read and, for each of its requests
whose callback has not run, the request and the buffer the request's own `buf`
points at.  `blocks` lists them.  The invariant is that these lists split the
live blocks other than the handles: no block is listed twice, none is missed.
Every effect of an event is a trade in the sense of `Verified.Ownership`, so
the table survives any interleaving over any number of clients, and with it
the facts a client relies on when its next callback runs.
-/

namespace MGServer.Ports.EchoServer

open MGServer.Verified.BlockHeap
open MGServer.Verified.Ownership
open MGServer.Verified.Transition

variable {β : Type}

def Block.isTcp : Block β → Bool
  | .tcp => true
  | _ => false

/-- A live block that `alloc_buff` or `read_cb` allocated. -/
def Live (h : Heap (Block β)) (x : Nat) : Prop :=
  ∃ c, h.cell x = some c ∧ c.content.isTcp = false

/-- The blocks that go when the request's callback runs. -/
def reqBlocks (h : Heap (Block β)) (r : Nat) : List Nat :=
  r :: (((requestAt h r).bind fun w => w.buf.base).map Ptr.block).toList

/-- The blocks a client owns. -/
def blocks (h : Heap (Block β)) (c : Client β) : List Nat :=
  c.held.toList ++ c.pending.flatMap (reqBlocks h)

section Blocks

variable {h h' : Heap (Block β)} {c c' : Client β} {r b x : Nat}
  {w : WriteReq} {bytes : List β} {off : Nat}

/-! ## Live blocks -/

theorem live_of_dataAt (hData : dataAt h b = some bytes) : Live h b := by
  obtain ⟨n, hCell⟩ := dataAt_eq_some.1 hData
  exact ⟨_, hCell, rfl⟩

theorem live_of_requestAt (hReq : requestAt h r = some w) : Live h r := by
  obtain ⟨n, hCell⟩ := requestAt_eq_some.1 hReq
  exact ⟨_, hCell, rfl⟩

theorem not_live_of_free (hFree : h.cell x = none) : ¬ Live h x := by
  rintro ⟨d, hCell, -⟩
  rw [hFree] at hCell
  cases hCell

theorem live_malloc {blk : Block β} (hFree : h.cell x = none)
    (hKind : blk.isTcp = false) (y : Nat) :
    Live (h.malloc x blk) y ↔ y = x ∨ Live h y := by
  unfold Live
  rw [malloc_cell]
  by_cases hy : y = x
  · subst hy
    simp [hKind]
  · simp [hy]

theorem live_malloc_tcp (hFree : h.cell x = none) (y : Nat) :
    Live (h.malloc x .tcp) y ↔ Live h y := by
  unfold Live
  rw [malloc_cell]
  by_cases hy : y = x
  · subst hy
    simp [hFree, Block.isTcp]
  · simp [hy]

theorem live_store {blk : Block β} (hx : Live h x) (hKind : blk.isTcp = false)
    (y : Nat) : Live (h.store x blk) y ↔ Live h y := by
  obtain ⟨d, hCell, hd⟩ := hx
  unfold Live
  rw [store_cell _ hCell]
  by_cases hy : y = x
  · subst hy
    simp [hCell, hd, hKind]
  · simp [hy]

theorem live_freeAt (hx : Live h x) (y : Nat) :
    Live (h.freeAt x) y ↔ Live h y ∧ y ≠ x := by
  obtain ⟨d, hCell, -⟩ := hx
  unfold Live
  rw [freeAt_cell hCell]
  by_cases hy : y = x
  · subst hy
    simp
  · simp [hy]

/-! ## Frames -/

theorem dataAt_congr (hCell : h'.cell x = h.cell x) : dataAt h' x = dataAt h x := by
  unfold dataAt
  rw [hCell]

theorem requestAt_congr (hCell : h'.cell x = h.cell x) :
    requestAt h' x = requestAt h x := by
  unfold requestAt
  rw [hCell]

theorem reqBlocks_congr (hCell : h'.cell r = h.cell r) :
    reqBlocks h' r = reqBlocks h r := by
  unfold reqBlocks
  rw [requestAt_congr hCell]

theorem Request.reqBlocks_eq (hReq : Request h r w b bytes) :
    reqBlocks h r = [r, b] := by
  simp [reqBlocks, hReq.req, hReq.base]

/-- Nothing of the request has changed from `h` to `h'`. -/
def Kept (h h' : Heap (Block β)) (r : Nat) : Prop :=
  ∀ x ∈ reqBlocks h r, h'.cell x = h.cell x

theorem Kept.req (hKept : Kept h h' r) : h'.cell r = h.cell r :=
  hKept r (by simp [reqBlocks])

theorem Kept.request (hKept : Kept h h' r) (hReq : Request h r w b bytes) :
    Request h' r w b bytes where
  req := by rw [requestAt_congr hKept.req, hReq.req]
  base := hReq.base
  block := by
    have hCell : h'.cell b = h.cell b := hKept b (by simp [hReq.reqBlocks_eq])
    rw [dataAt_congr hCell, hReq.block]
  len := hReq.len

theorem Kept.queued (hKept : Kept h h' r) (hReq : Queued h r w b bytes off) :
    Queued h' r w b bytes off where
  toRequest := hKept.request hReq.toRequest
  copy := hReq.copy
  left := hReq.left
  total := hReq.total

theorem flatMap_reqBlocks_congr (rs : List Nat) (hKept : ∀ r ∈ rs, Kept h h' r) :
    rs.flatMap (reqBlocks h') = rs.flatMap (reqBlocks h) := by
  apply List.flatMap_congr
  intro r hr
  exact reqBlocks_congr (hKept r hr).req

theorem live_of_mem_reqBlocks (hOk : ClientOk h c) (hr : r ∈ c.pending)
    (hx : x ∈ reqBlocks h r) : Live h x := by
  obtain ⟨w, b, bytes, hReq⟩ := hOk.request hr
  rw [hReq.reqBlocks_eq] at hx
  simp only [List.mem_cons, List.not_mem_nil, or_false] at hx
  rcases hx with rfl | rfl
  · exact live_of_requestAt hReq.req
  · exact live_of_dataAt hReq.block

theorem live_of_mem_blocks (hOk : ClientOk h c) (hx : x ∈ blocks h c) :
    Live h x := by
  rcases List.mem_append.1 hx with hHeld | hReq
  · rw [Option.mem_toList] at hHeld
    obtain ⟨-, bytes, hData⟩ := hOk.held x hHeld
    exact live_of_dataAt hData
  · obtain ⟨r, hr, hx⟩ := List.mem_flatMap.1 hReq
    exact live_of_mem_reqBlocks hOk hr hx

/-- A client's facts survive when each request it has now is an old one left
alone or a good one. -/
theorem ClientOk.of_kept (hOk : ClientOk h c)
    (hHeld : ∀ b, c'.held = some b →
      c'.phase = .opened ∧ ∃ bytes, dataAt h' b = some bytes)
    (hQueued : ∀ r ∈ c'.writeQueue, (r ∈ c.writeQueue ∧ Kept h h' r) ∨
      ∃ w b bytes off, Queued h' r w b bytes off)
    (hDone : ∀ r ∈ c'.completed.map Prod.fst, r ∈ c.pending ∧ Kept h h' r)
    (hClosed : c'.phase = .closed → c'.writeQueue = []) : ClientOk h' c' where
  held := hHeld
  queued := by
    intro r hr
    rcases hQueued r hr with ⟨hOld, hKept⟩ | hNew
    · obtain ⟨w, b, bytes, off, hReq⟩ := hOk.queued r hOld
      exact ⟨w, b, bytes, off, hKept.queued hReq⟩
    · exact hNew
  completed := by
    intro r hr
    obtain ⟨hOld, hKept⟩ := hDone r hr
    obtain ⟨w, b, bytes, hReq⟩ := hOk.request hOld
    exact ⟨w, b, bytes, hKept.request hReq⟩
  closed := hClosed

theorem ClientOk.frame (hOk : ClientOk h c)
    (hSame : ∀ x ∈ blocks h c, h'.cell x = h.cell x) :
    ClientOk h' c ∧ blocks h' c = blocks h c := by
  have hKept : ∀ r ∈ c.pending, Kept h h' r := by
    intro r hr x hx
    exact hSame x (List.mem_append_right _ (List.mem_flatMap.2 ⟨r, hr, hx⟩))
  constructor
  · refine hOk.of_kept ?_ ?_ ?_ hOk.closed
    · intro b hb
      obtain ⟨hPhase, bytes, hData⟩ := hOk.held b hb
      have hCell : h'.cell b = h.cell b := hSame b (by simp [blocks, hb])
      exact ⟨hPhase, bytes, by rw [dataAt_congr hCell, hData]⟩
    · intro r hr
      exact Or.inl ⟨hr, hKept r (List.mem_append_left _ hr)⟩
    · intro r hr
      have hMem : r ∈ c.pending := List.mem_append_right _ hr
      exact ⟨hMem, hKept r hMem⟩
  · unfold blocks
    rw [flatMap_reqBlocks_congr _ hKept]

/-! ## Splitting off what an event touches -/

theorem blocks_of_held (hHeld : c.held = some b) :
    blocks h c = b :: c.pending.flatMap (reqBlocks h) := by
  simp [blocks, hHeld]

theorem blocks_perm_of_pending (hHeld : c'.held = c.held)
    (hPerm : c'.pending.Perm c.pending) : (blocks h c').Perm (blocks h c) := by
  unfold blocks
  rw [hHeld]
  exact (hPerm.flatMap_right _).append_left _

theorem blocks_perm_of_request {rs : List Nat} (hPerm : c.pending.Perm (r :: rs))
    (hReq : Request h r w b bytes) :
    (blocks h c).Perm (b :: r :: (c.held.toList ++ rs.flatMap (reqBlocks h))) := by
  have hSplit : (blocks h c).Perm
      (c.held.toList ++ (r :: b :: rs.flatMap (reqBlocks h))) := by
    have hFlat := hPerm.flatMap_right (reqBlocks h)
    rw [List.flatMap_cons, hReq.reqBlocks_eq] at hFlat
    exact hFlat.append_left _
  refine hSplit.trans (List.perm_middle.trans ?_)
  refine (List.Perm.cons r List.perm_middle).trans ?_
  exact List.Perm.swap b r _

/-- With the buffer of the ongoing read set apart, every request is kept by a
heap that agrees elsewhere on what is live. -/
theorem kept_of_held (hOk : ClientOk h c) (hNodup : (blocks h c).Nodup)
    (hHeld : c.held = some b)
    (hSame : ∀ x, Live h x → x ≠ b → h'.cell x = h.cell x) :
    ∀ r ∈ c.pending, Kept h h' r := by
  intro r hr x hx
  rw [blocks_of_held hHeld, List.nodup_cons] at hNodup
  refine hSame x (live_of_mem_reqBlocks hOk hr hx) ?_
  rintro rfl
  exact hNodup.1 (List.mem_flatMap.2 ⟨r, hr, hx⟩)

/-- With one request set apart, every other is kept by a heap that agrees off
that request and its buffer. -/
theorem kept_of_request {rs : List Nat} (hNodup : (blocks h c).Nodup)
    (hPerm : c.pending.Perm (r :: rs)) (hReq : Request h r w b bytes)
    (hSame : ∀ x, x ≠ r → x ≠ b → h'.cell x = h.cell x) :
    ∀ q ∈ rs, Kept h h' q := by
  intro q hq x hx
  rw [(blocks_perm_of_request hPerm hReq).nodup_iff, List.nodup_cons,
    List.nodup_cons] at hNodup
  have hMem : x ∈ c.held.toList ++ rs.flatMap (reqBlocks h) :=
    List.mem_append_right _ (List.mem_flatMap.2 ⟨q, hq, hx⟩)
  apply hSame x
  · rintro rfl
    exact hNodup.2.1 hMem
  · rintro rfl
    exact hNodup.1 (List.mem_cons_of_mem r hMem)

end Blocks

/-! ## What each effect preserves -/

section Effects

variable {h h' : Heap (Block β)} {c c' : Client β} {e : Event β}

/-- Every effect works within the client's own blocks and free addresses. -/
theorem Effect.within (hEffect : Effect h c e h' c') :
    Within (fun x => h.cell x = none ∨ x ∈ blocks h c)
      (fun blk => blk.isTcp = false) h h' := by
  cases hEffect with
  | allocated hPhase hHeld hFree =>
      exact Within.refl.malloc (Or.inl hFree) rfl hFree
  | echoed hPhase hHeld hData hPos hLen hFree =>
      obtain ⟨n, hCell⟩ := dataAt_eq_some.1 hData
      refine Within.malloc (Within.store Within.refl ?_ rfl hCell) ?_ rfl ?_
      · exact Or.inr (by simp [blocks, hHeld])
      · exact Or.inl hFree
      · rw [store_cell _ hCell, Function.update_of_ne ?_, hFree]
        rintro rfl
        rw [hFree] at hCell
        cases hCell
  | readNothing hPhase hHeld hData =>
      obtain ⟨n, hCell⟩ := dataAt_eq_some.1 hData
      exact Within.refl.freeAt (Or.inr (by simp [blocks, hHeld])) hCell
  | stoppedHeld hPhase hHeld hData =>
      obtain ⟨n, hCell⟩ := dataAt_eq_some.1 hData
      exact Within.refl.freeAt (Or.inr (by simp [blocks, hHeld])) hCell
  | stoppedBare hPhase hHeld => exact Within.refl
  | wrotePart hPhase hQueue hReq hLt =>
      obtain ⟨n, hCell⟩ := requestAt_eq_some.1 hReq.req
      refine Within.refl.store (Or.inr ?_) rfl hCell
      simp [blocks, Client.pending, hQueue, hReq.reqBlocks_eq]
  | wroteAll hPhase hQueue hReq => exact Within.refl
  | writeFailed hPhase hQueue => exact Within.refl
  | calledBack hDone hReq =>
      obtain ⟨n, hBuf⟩ := dataAt_eq_some.1 hReq.block
      obtain ⟨m, hCell⟩ := requestAt_eq_some.1 hReq.after_free
      refine Within.freeAt (Within.freeAt Within.refl ?_ hBuf) ?_ hCell
      · exact Or.inr (by simp [blocks, Client.pending, hDone, hReq.reqBlocks_eq])
      · exact Or.inr (by simp [blocks, Client.pending, hDone, hReq.reqBlocks_eq])
  | finished hPhase => exact Within.refl

/-- What the heap lemmas say of the two addresses a positive read touches. -/
private theorem echoed_cell {b addr n : Nat} {bytes : List β} (filled : List β)
    (w : WriteReq) (hCell : h.cell b = some ⟨n, .data bytes⟩)
    (hFree : h.cell addr = none) :
    ((h.store b (.data filled)).malloc addr (.writeReq w)).cell =
      Function.update (Function.update h.cell b (some ⟨n, .data filled⟩)) addr
        (some ⟨h.mallocs, .writeReq w⟩) ∧ b ≠ addr := by
  constructor
  · rw [malloc_cell, store_cell _ hCell, store_mallocs _ hCell]
  · rintro rfl
    rw [hFree] at hCell
    cases hCell

/-- Filling the buffer and giving it to a new request makes a good request and
leaves the others alone. -/
theorem echoed_requests (hOk : ClientOk h c) (hNodup : (blocks h c).Nodup)
    {b addr : Nat} {data bytes : List β} (hHeld : c.held = some b)
    (hData : dataAt h b = some bytes) (hPos : 0 < data.length)
    (hFree : h.cell addr = none) :
    let h' := (h.store b (.data (data ++ bytes.drop data.length))).malloc addr
      (.writeReq ⟨⟨some ⟨b, 0⟩, data.length⟩, ⟨some ⟨b, 0⟩, data.length⟩⟩)
    Queued h' addr ⟨⟨some ⟨b, 0⟩, data.length⟩, ⟨some ⟨b, 0⟩, data.length⟩⟩ b
        (data ++ bytes.drop data.length) 0 ∧
      ∀ r ∈ c.pending, Kept h h' r := by
  obtain ⟨n, hCell⟩ := dataAt_eq_some.1 hData
  obtain ⟨hNew, hNe⟩ := echoed_cell (data ++ bytes.drop data.length)
    ⟨⟨some ⟨b, 0⟩, data.length⟩, ⟨some ⟨b, 0⟩, data.length⟩⟩ hCell hFree
  refine ⟨?_, ?_⟩
  · refine
      { req := requestAt_eq_some.2 ⟨_, by rw [hNew, Function.update_self]⟩
        base := rfl
        block := dataAt_eq_some.2 ⟨n, ?_⟩
        len := by simp
        copy := rfl
        left := hPos
        total := by simp }
    rw [hNew, Function.update_of_ne hNe, Function.update_self]
  · apply kept_of_held hOk hNodup hHeld
    intro x hLive hxb
    have hxa : x ≠ addr := by
      rintro rfl
      exact not_live_of_free hFree hLive
    rw [hNew, Function.update_of_ne hxa, Function.update_of_ne hxb]

theorem kept_malloc (hOk : ClientOk h c) {addr : Nat} (hFree : h.cell addr = none)
    (blk : Block β) : ∀ r ∈ c.pending, Kept h (h.malloc addr blk) r := by
  intro r hr x hx
  have hxa : x ≠ addr := by
    rintro rfl
    exact not_live_of_free hFree (live_of_mem_reqBlocks hOk hr hx)
  rw [malloc_cell, Function.update_of_ne hxa]

theorem kept_dropped (hOk : ClientOk h c) (hNodup : (blocks h c).Nodup) {b : Nat}
    {bytes : List β} (hHeld : c.held = some b) (hData : dataAt h b = some bytes) :
    ∀ r ∈ c.pending, Kept h (h.freeAt b) r := by
  obtain ⟨n, hCell⟩ := dataAt_eq_some.1 hData
  apply kept_of_held hOk hNodup hHeld
  intro x _ hxb
  rw [freeAt_cell hCell, Function.update_of_ne hxb]

/-- Advancing libuv's copy of the buffer leaves a good request and the others
alone. -/
theorem advanced_requests (hNodup : (blocks h c).Nodup) {r b off n : Nat}
    {queue : List Nat} {w w' : WriteReq} {bytes : List β}
    (hQueue : c.writeQueue = r :: queue) (hReq : Queued h r w b bytes off)
    (hLt : n < w.bufsml.len)
    (hw' : w' = { w with bufsml := ⟨some ⟨b, off + n⟩, w.bufsml.len - n⟩ }) :
    Queued (h.store r (.writeReq w')) r w' b bytes (off + n) ∧
      ∀ q ∈ queue ++ c.completed.map Prod.fst, Kept h (h.store r (.writeReq w')) q := by
  obtain ⟨m, hCell⟩ := requestAt_eq_some.1 hReq.req
  have hPending : c.pending = r :: (queue ++ c.completed.map Prod.fst) := by
    simp [Client.pending, hQueue]
  have hElse : ∀ x, x ≠ r → (h.store r (.writeReq w')).cell x = h.cell x := by
    intro x hxr
    rw [store_cell _ hCell, Function.update_of_ne hxr]
  have hKept := kept_of_request hNodup (by rw [hPending]) hReq.toRequest
    (fun x hxr _ => hElse x hxr)
  refine ⟨?_, hKept⟩
  · have hTotal := hReq.total
    refine
      { req := requestAt_eq_some.2 ⟨m, by rw [store_cell _ hCell, Function.update_self]⟩
        base := by rw [hw', ← hReq.base]
        block := by rw [dataAt_congr (hElse b hReq.ne.symm), hReq.block]
        len := by rw [hw']; exact hReq.len
        copy := by rw [hw']
        left := by rw [hw']; exact Nat.sub_pos_of_lt hLt
        total := ?_ }
    rw [hw']
    show off + n + (w.bufsml.len - n) = w.buf.len
    omega

theorem Request.freed_cell {r b x : Nat} {w : WriteReq} {bytes : List β}
    (hReq : Request h r w b bytes) (hxr : x ≠ r) (hxb : x ≠ b) :
    ((h.freeAt b).freeAt r).cell x = h.cell x := by
  obtain ⟨n, hBuf⟩ := dataAt_eq_some.1 hReq.block
  obtain ⟨m, hCell⟩ := requestAt_eq_some.1 hReq.after_free
  rw [freeAt_cell hCell, Function.update_of_ne hxr, freeAt_cell hBuf,
    Function.update_of_ne hxb]

theorem pending_perm_of_completed {r : Nat} {status : Int} {rest : List (Nat × Int)}
    (hDone : c.completed = (r, status) :: rest) :
    c.pending.Perm (r :: (c.writeQueue ++ rest.map Prod.fst)) := by
  simp only [Client.pending, hDone, List.map_cons]
  exact List.perm_middle

theorem kept_calledBack (hNodup : (blocks h c).Nodup) {r b : Nat} {status : Int}
    {rest : List (Nat × Int)} {w : WriteReq} {bytes : List β}
    (hDone : c.completed = (r, status) :: rest) (hReq : Request h r w b bytes) :
    ∀ q ∈ c.writeQueue ++ rest.map Prod.fst, Kept h ((h.freeAt b).freeAt r) q :=
  kept_of_request hNodup (pending_perm_of_completed hDone) hReq
    fun _ hxr hxb => hReq.freed_cell hxr hxb

/-- What an effect does for the ownership table: the client's facts hold in
the new heap and its list of blocks has changed by a trade. -/
structure Moves (h : Heap (Block β)) (c : Client β) (h' : Heap (Block β))
    (c' : Client β) : Prop where
  ok : ClientOk h' c'
  trade : Trade (Live h) (Live h') (blocks h c) (blocks h' c')

private theorem allocated_moves (hOk : ClientOk h c) (hNodup : (blocks h c).Nodup)
    {addr : Nat} {garbage : List β} (hPhase : c.phase = .opened)
    (hHeld : c.held = none) (hFree : h.cell addr = none) :
    Moves h c (h.malloc addr (.data garbage)) { c with held := some addr } := by
  have hKept := kept_malloc hOk hFree (.data garbage)
  constructor
  · refine hOk.of_kept ?_ ?_ ?_ ?_
    · intro b hb
      cases hb
      exact ⟨hPhase, garbage, dataAt_eq_some.2 ⟨h.mallocs, by simp⟩⟩
    · intro r hr
      exact Or.inl ⟨hr, hKept r (List.mem_append_left _ hr)⟩
    · intro r hr
      exact ⟨List.mem_append_right _ hr, hKept r (List.mem_append_right _ hr)⟩
    · exact hOk.closed
  · refine Trade.acquire hNodup (fun x hx => live_of_mem_blocks hOk hx)
      (not_live_of_free hFree) ?_ (live_malloc hFree rfl)
    show (blocks _ { c with held := some addr }).Perm _
    rw [blocks_of_held rfl]
    show (addr :: c.pending.flatMap _).Perm (addr :: blocks h c)
    rw [flatMap_reqBlocks_congr _ hKept]
    simp [blocks, hHeld]

private theorem echoed_moves (hOk : ClientOk h c) (hNodup : (blocks h c).Nodup)
    {b addr : Nat} {data bytes : List β} (hPhase : c.phase = .opened)
    (hHeld : c.held = some b) (hData : dataAt h b = some bytes)
    (hPos : 0 < data.length) (hFree : h.cell addr = none)
    (hHeld' : c'.held = none) (hPhase' : c'.phase = c.phase)
    (hQueue' : c'.writeQueue = c.writeQueue ++ [addr])
    (hDone' : c'.completed = c.completed) :
    Moves h c
      ((h.store b (.data (data ++ bytes.drop data.length))).malloc addr
        (.writeReq ⟨⟨some ⟨b, 0⟩, data.length⟩, ⟨some ⟨b, 0⟩, data.length⟩⟩)) c' := by
  obtain ⟨hNew, hKept⟩ := echoed_requests hOk hNodup hHeld hData hPos hFree
  have hLive := live_of_dataAt hData
  have hFree' : (h.store b (.data (data ++ bytes.drop data.length))).cell addr =
      none := by
    obtain ⟨n, hCell⟩ := dataAt_eq_some.1 hData
    have hNe : addr ≠ b := by
      rintro rfl
      exact not_live_of_free hFree hLive
    rw [store_cell _ hCell, Function.update_of_ne hNe, hFree]
  constructor
  · refine hOk.of_kept ?_ ?_ ?_ ?_
    · intro x hx
      rw [hHeld'] at hx
      cases hx
    · intro r hr
      rw [hQueue', List.mem_append, List.mem_singleton] at hr
      rcases hr with hOld | rfl
      · exact Or.inl ⟨hOld, hKept r (List.mem_append_left _ hOld)⟩
      · exact Or.inr ⟨_, _, _, _, hNew⟩
    · intro r hr
      rw [hDone'] at hr
      exact ⟨List.mem_append_right _ hr, hKept r (List.mem_append_right _ hr)⟩
    · intro hClosed
      rw [hPhase', hPhase] at hClosed
      cases hClosed
  · refine Trade.acquire hNodup (fun x hx => live_of_mem_blocks hOk hx)
      (not_live_of_free hFree) ?_ ?_
    · have hQueue := flatMap_reqBlocks_congr c.writeQueue
        fun r hr => hKept r (List.mem_append_left _ hr)
      have hDone := flatMap_reqBlocks_congr (c.completed.map Prod.fst)
        fun r hr => hKept r (List.mem_append_right _ hr)
      rw [blocks_of_held hHeld]
      simp only [blocks, Client.pending, hHeld', hQueue', hDone', Option.toList_none,
        List.nil_append, List.flatMap_append, List.flatMap_cons, hNew.reqBlocks_eq,
        hQueue, hDone, List.append_assoc, List.cons_append]
      exact List.perm_middle.trans (List.Perm.cons addr List.perm_middle)
    · intro y
      rw [live_malloc hFree' rfl, live_store hLive rfl]

/-- The buffer of the ongoing read is freed. -/
private theorem dropped_moves (hOk : ClientOk h c) (hNodup : (blocks h c).Nodup)
    {b : Nat} {bytes : List β} (hHeld : c.held = some b)
    (hData : dataAt h b = some bytes) (hHeld' : c'.held = none)
    (hPhase' : c'.phase ≠ .closed) (hQueue' : c'.writeQueue = c.writeQueue)
    (hDone' : c'.completed = c.completed) : Moves h c (h.freeAt b) c' := by
  have hKept := kept_dropped hOk hNodup hHeld hData
  constructor
  · refine hOk.of_kept ?_ ?_ ?_ (fun hClosed => absurd hClosed hPhase')
    · intro x hx
      rw [hHeld'] at hx
      cases hx
    · intro r hr
      rw [hQueue'] at hr
      exact Or.inl ⟨hr, hKept r (List.mem_append_left _ hr)⟩
    · intro r hr
      rw [hDone'] at hr
      exact ⟨List.mem_append_right _ hr, hKept r (List.mem_append_right _ hr)⟩
  · refine Trade.release hNodup (fun x hx => live_of_mem_blocks hOk hx) ?_
      (live_freeAt (live_of_dataAt hData))
    rw [blocks_of_held hHeld]
    simp only [blocks, Client.pending, hHeld', hQueue', hDone', Option.toList_none,
      List.nil_append]
    rw [← Client.pending, flatMap_reqBlocks_congr _ hKept]

/-- Requests move from one queue to the other; no block changes. -/
private theorem requeued_moves (hOk : ClientOk h c) (hNodup : (blocks h c).Nodup)
    (hHeld' : c'.held = c.held) (hPhase' : c.held ≠ none → c'.phase = c.phase)
    (hPerm : c'.pending.Perm c.pending)
    (hQueue' : ∀ r ∈ c'.writeQueue, r ∈ c.writeQueue)
    (hClosed : c'.phase = .closed → c'.writeQueue = []) : Moves h c h c' := by
  constructor
  · refine hOk.of_kept ?_ ?_ ?_ hClosed
    · intro b hb
      rw [hHeld'] at hb
      rw [hPhase' (by rw [hb]; simp)]
      exact hOk.held b hb
    · intro r hr
      exact Or.inl ⟨hQueue' r hr, fun _ _ => rfl⟩
    · intro r hr
      exact ⟨hPerm.mem_iff.1 (List.mem_append_right _ hr), fun _ _ => rfl⟩
  · exact Trade.permute hNodup (fun x hx => live_of_mem_blocks hOk hx)
      (blocks_perm_of_pending hHeld' hPerm) (fun _ => Iff.rfl)

/-- The head of the write queue is finished, with either status. -/
private theorem headDone_moves (hOk : ClientOk h c) (hNodup : (blocks h c).Nodup)
    {r : Nat} {queue : List Nat} {status : Int} (hPhase : c.phase = .opened)
    (hQueue : c.writeQueue = r :: queue) (hHeld' : c'.held = c.held)
    (hPhase' : c'.phase = c.phase) (hQueue' : c'.writeQueue = queue)
    (hDone' : c'.completed = c.completed ++ [(r, status)]) : Moves h c h c' := by
  refine requeued_moves hOk hNodup hHeld' (fun _ => hPhase') ?_ ?_ ?_
  · simp only [Client.pending, hQueue, hQueue', hDone', List.map_append, List.map_cons,
      List.map_nil, List.cons_append]
    rw [← List.append_assoc]
    exact List.perm_append_comm
  · intro q hq
    rw [hQueue' ] at hq
    rw [hQueue]
    exact List.mem_cons_of_mem r hq
  · intro hClosed
    rw [hPhase', hPhase] at hClosed
    cases hClosed

private theorem wrotePart_moves (hOk : ClientOk h c) (hNodup : (blocks h c).Nodup)
    {r b off n : Nat} {queue : List Nat} {w w' : WriteReq} {bytes wire : List β}
    (hQueue : c.writeQueue = r :: queue) (hReq : Queued h r w b bytes off)
    (hLt : n < w.bufsml.len)
    (hw' : w' = { w with bufsml := ⟨some ⟨b, off + n⟩, w.bufsml.len - n⟩ }) :
    Moves h c (h.store r (.writeReq w')) { c with wire := wire } := by
  obtain ⟨m, hCell⟩ := requestAt_eq_some.1 hReq.req
  have hPending : c.pending = r :: (queue ++ c.completed.map Prod.fst) := by
    simp [Client.pending, hQueue]
  obtain ⟨hAdvanced, hKept⟩ := advanced_requests hNodup hQueue hReq hLt hw'
  constructor
  · refine hOk.of_kept ?_ ?_ ?_ hOk.closed
    · intro x hx
      obtain ⟨hPhase, held, hHeld⟩ := hOk.held x hx
      have hxr : x ≠ r := by
        rintro rfl
        obtain ⟨k, hk⟩ := dataAt_eq_some.1 hHeld
        rw [hCell] at hk
        cases hk
      refine ⟨hPhase, held, ?_⟩
      rw [dataAt_congr, hHeld]
      rw [store_cell _ hCell, Function.update_of_ne hxr]
    · intro q hq
      rw [hQueue, List.mem_cons] at hq
      rcases hq with rfl | hq
      · exact Or.inr ⟨_, _, _, _, hAdvanced⟩
      · refine Or.inl ⟨?_, hKept q (List.mem_append_left _ hq)⟩
        rw [hQueue]
        exact List.mem_cons_of_mem _ hq
    · intro q hq
      exact ⟨List.mem_append_right _ hq, hKept q (List.mem_append_right _ hq)⟩
  · refine Trade.permute hNodup (fun x hx => live_of_mem_blocks hOk hx) ?_
      (live_store (live_of_requestAt hReq.req) rfl)
    show (c.held.toList ++ c.pending.flatMap _).Perm (blocks h c)
    rw [hPending, List.flatMap_cons, hAdvanced.reqBlocks_eq,
      flatMap_reqBlocks_congr _ hKept, blocks, hPending, List.flatMap_cons,
      hReq.reqBlocks_eq]

private theorem calledBack_moves (hOk : ClientOk h c) (hNodup : (blocks h c).Nodup)
    {r b : Nat} {status : Int} {rest : List (Nat × Int)} {w : WriteReq}
    {bytes : List β} (hDone : c.completed = (r, status) :: rest)
    (hReq : Request h r w b bytes) :
    Moves h c ((h.freeAt b).freeAt r) { c with completed := rest } := by
  have hPerm := pending_perm_of_completed hDone
  have hBlocks := blocks_perm_of_request hPerm hReq
  have hKept := kept_calledBack hNodup hDone hReq
  constructor
  · refine hOk.of_kept ?_ ?_ ?_ hOk.closed
    · intro x hx
      obtain ⟨hPhase, held, hHeld⟩ := hOk.held x hx
      rw [hBlocks.nodup_iff, List.nodup_cons, List.nodup_cons] at hNodup
      have hMem : x ∈ c.held.toList ++
          (c.writeQueue ++ rest.map Prod.fst).flatMap (reqBlocks h) := by
        rw [show c.held = some x from hx]
        simp
      refine ⟨hPhase, held, ?_⟩
      rw [dataAt_congr (hReq.freed_cell ?_ ?_), hHeld]
      · rintro rfl
        exact hNodup.2.1 hMem
      · rintro rfl
        exact hNodup.1 (List.mem_cons_of_mem _ hMem)
    · intro q hq
      exact Or.inl ⟨hq, hKept q (List.mem_append_left _ hq)⟩
    · intro q hq
      have hMem : q ∈ c.writeQueue ++ rest.map Prod.fst := List.mem_append_right _ hq
      exact ⟨hPerm.mem_iff.2 (List.mem_cons_of_mem r hMem), hKept q hMem⟩
  · have hMine : ∀ x ∈ blocks h c, Live h x := fun x hx => live_of_mem_blocks hOk hx
    have hFirst := Trade.release hNodup hMine hBlocks
      (live_freeAt (live_of_dataAt hReq.block))
    have hRest : blocks ((h.freeAt b).freeAt r) { c with completed := rest } =
        c.held.toList ++ (c.writeQueue ++ rest.map Prod.fst).flatMap (reqBlocks h) := by
      show c.held.toList ++ (c.writeQueue ++ rest.map Prod.fst).flatMap _ = _
      rw [flatMap_reqBlocks_congr _ hKept]
    rw [hRest]
    refine hFirst.trans (Trade.release hFirst.nodup ?_ (List.Perm.refl _)
      (live_freeAt (live_of_requestAt hReq.after_free)))
    intro y hy
    exact (hFirst.live_iff y).2 (Or.inl hy)

/-- **Every effect is a trade.** -/
theorem Effect.moves (hEffect : Effect h c e h' c') (hOk : ClientOk h c)
    (hNodup : (blocks h c).Nodup) : Moves h c h' c' := by
  cases hEffect with
  | allocated hPhase hHeld hFree => exact allocated_moves hOk hNodup hPhase hHeld hFree
  | echoed hPhase hHeld hData hPos hLen hFree =>
      exact echoed_moves hOk hNodup hPhase hHeld hData hPos hFree rfl rfl rfl rfl
  | readNothing hPhase hHeld hData =>
      exact dropped_moves hOk hNodup hHeld hData rfl (by simp [hPhase]) rfl rfl
  | stoppedHeld hPhase hHeld hData =>
      exact dropped_moves hOk hNodup hHeld hData rfl (by simp) rfl rfl
  | stoppedBare hPhase hHeld =>
      refine requeued_moves hOk hNodup rfl (fun hSome => absurd hHeld hSome)
        (List.Perm.refl _) (fun r hr => hr) ?_
      intro hClosed
      cases hClosed
  | wrotePart hPhase hQueue hReq hLt =>
      exact wrotePart_moves hOk hNodup hQueue hReq hLt rfl
  | wroteAll hPhase hQueue hReq =>
      exact headDone_moves hOk hNodup hPhase hQueue rfl rfl rfl rfl
  | writeFailed hPhase hQueue =>
      exact headDone_moves hOk hNodup hPhase hQueue rfl rfl rfl rfl
  | calledBack hDone hReq => exact calledBack_moves hOk hNodup hDone hReq
  | finished hPhase =>
      refine requeued_moves hOk hNodup rfl ?_ ?_ ?_ (fun _ => rfl)
      · intro hSome
        obtain ⟨b, hb⟩ := Option.ne_none_iff_exists'.1 hSome
        rw [(hOk.held b hb).1] at hPhase
        cases hPhase
      · simp only [Client.pending, List.nil_append, List.map_append, List.map_map]
        exact List.perm_append_comm.trans (by simp [Function.comp_def])
      · intro r hr
        cases hr

end Effects

end MGServer.Ports.EchoServer
