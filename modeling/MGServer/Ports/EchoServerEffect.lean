import MGServer.Ports.EchoServer

/-!
# What one event of the echo server does

`step` is written in the source's order: callbacks that call libuv, libuv
calls that look blocks up and fault when they are not there.  Under the local
well-formedness of the client concerned none of the faults happens, and each
event has a short effect on the heap and on that client alone.  `Effect` lists
these effects; `step_cases` says that there are no others.  The results on
ownership and on the bytes sent argue from `Effect`, never from `step`.
-/

namespace MGServer.Ports.EchoServer

open MGServer.Verified.BlockHeap

variable {β : Type}

/-! ## What a client relies on -/

/-- The bytes of the buffer at `b`, if a buffer is there. -/
def dataAt (h : Heap (Block β)) (b : Nat) : Option (List β) :=
  match h.cell b with
  | some ⟨_, .data bytes⟩ => some bytes
  | _ => none

theorem dataAt_eq_some {h : Heap (Block β)} {b : Nat} {bytes : List β} :
    dataAt h b = some bytes ↔ ∃ n, h.cell b = some ⟨n, .data bytes⟩ := by
  unfold dataAt
  split
  · rename_i n bytes' hCell
    simp [hCell]
  · rename_i hNot
    simp only [reduceCtorEq, false_iff, not_exists]
    intro n hCell
    exact hNot n bytes hCell

theorem requestAt_eq_some {h : Heap (Block β)} {r : Nat} {w : WriteReq} :
    requestAt h r = some w ↔ ∃ n, h.cell r = some ⟨n, .writeReq w⟩ := by
  unfold requestAt
  split
  · rename_i n w' hCell
    simp [hCell]
  · rename_i hNot
    simp only [reduceCtorEq, false_iff, not_exists]
    intro n hCell
    exact hNot n w hCell

theorem readAt_eq (h : Heap (Block β)) (b off len : Nat) :
    readAt h (some ⟨b, off⟩) len =
      (dataAt h b).bind fun bytes =>
        if off + len ≤ bytes.length then some ((bytes.drop off).take len)
        else none := by
  unfold dataAt
  show (match h.cell b with
    | some ⟨_, .data bytes⟩ =>
        if off + len ≤ bytes.length then some ((bytes.drop off).take len) else none
    | _ => none) = _
  split
  · simp
  · rfl

/-- A request whose callback has not run: its own `buf` still points at the
start of a live buffer long enough for it. -/
structure Request (h : Heap (Block β)) (r : Nat) (w : WriteReq) (b : Nat)
    (bytes : List β) : Prop where
  req : requestAt h r = some w
  base : w.buf.base = some ⟨b, 0⟩
  block : dataAt h b = some bytes
  len : w.buf.len ≤ bytes.length

theorem Request.ne {h : Heap (Block β)} {r b : Nat} {w : WriteReq}
    {bytes : List β} (hReq : Request h r w b bytes) : r ≠ b := by
  rintro rfl
  obtain ⟨m, hReqCell⟩ := requestAt_eq_some.1 hReq.req
  obtain ⟨n, hBufCell⟩ := dataAt_eq_some.1 hReq.block
  rw [hReqCell] at hBufCell
  cases hBufCell

/-- The buffer is freed first; the request is still live then. -/
theorem Request.after_free {h : Heap (Block β)} {r b : Nat} {w : WriteReq}
    {bytes : List β} (hReq : Request h r w b bytes) :
    requestAt (h.freeAt b) r = some w := by
  obtain ⟨m, hReqCell⟩ := requestAt_eq_some.1 hReq.req
  obtain ⟨n, hBufCell⟩ := dataAt_eq_some.1 hReq.block
  rw [requestAt_eq_some]
  exact ⟨m, by rw [freeAt_cell hBufCell, Function.update_of_ne hReq.ne, hReqCell]⟩

/-- A request in the write queue: libuv's copy of the buffer has been advanced
by `off` bytes and something is left of it. -/
structure Queued (h : Heap (Block β)) (r : Nat) (w : WriteReq) (b : Nat)
    (bytes : List β) (off : Nat) : Prop extends Request h r w b bytes where
  copy : w.bufsml.base = some ⟨b, off⟩
  left : 0 < w.bufsml.len
  total : off + w.bufsml.len = w.buf.len

/-- The requests libuv holds for a client. -/
def Client.pending (c : Client β) : List Nat :=
  c.writeQueue ++ c.completed.map Prod.fst

structure ClientOk (h : Heap (Block β)) (c : Client β) : Prop where
  held : ∀ b, c.held = some b →
    c.phase = .opened ∧ ∃ bytes, dataAt h b = some bytes
  queued : ∀ r ∈ c.writeQueue, ∃ w b bytes off, Queued h r w b bytes off
  completed : ∀ r ∈ c.completed.map Prod.fst, ∃ w b bytes, Request h r w b bytes
  closed : c.phase = .closed → c.writeQueue = []

theorem ClientOk.request {h : Heap (Block β)} {c : Client β} (hOk : ClientOk h c)
    {r : Nat} (hr : r ∈ c.pending) : ∃ w b bytes, Request h r w b bytes := by
  rcases List.mem_append.1 hr with hQueue | hDone
  · obtain ⟨w, b, bytes, off, hReq⟩ := hOk.queued r hQueue
    exact ⟨w, b, bytes, hReq.toRequest⟩
  · exact hOk.completed r hDone

/-! ## Effects -/

/-- What an event about a client does to the heap and to that client. -/
inductive Effect (h : Heap (Block β)) (c : Client β) :
    Event β → Heap (Block β) → Client β → Prop where
  /-- `alloc_buff` gives out a fresh buffer. -/
  | allocated {a addr : Nat} {garbage : List β} (hPhase : c.phase = .opened)
      (hHeld : c.held = none) (hFree : h.cell addr = none) :
      Effect h c (.allocCb a addr garbage) (h.malloc addr (.data garbage))
        { c with held := some addr }
  /-- The buffer is filled and handed to a new request, which joins the write
  queue. -/
  | echoed {a addr b : Nat} {data bytes : List β} (hPhase : c.phase = .opened)
      (hHeld : c.held = some b) (hData : dataAt h b = some bytes)
      (hPos : 0 < data.length) (hLen : data.length ≤ bytes.length)
      (hFree : h.cell addr = none) :
      Effect h c (.readData a data addr)
        ((h.store b (.data (data ++ bytes.drop data.length))).malloc addr
          (.writeReq ⟨⟨some ⟨b, 0⟩, data.length⟩, ⟨some ⟨b, 0⟩, data.length⟩⟩))
        { c with
          held := none
          delivered := c.delivered ++ data
          submitted := c.submitted ++ data
          writeQueue := c.writeQueue ++ [addr] }
  | readNothing {a b : Nat} {bytes : List β} (hPhase : c.phase = .opened)
      (hHeld : c.held = some b) (hData : dataAt h b = some bytes) :
      Effect h c (.readAgain a) (h.freeAt b) { c with held := none }
  | stoppedHeld {a b : Nat} {bytes : List β} {status : Int} {withBuf : Bool}
      (hPhase : c.phase = .opened) (hHeld : c.held = some b)
      (hData : dataAt h b = some bytes) :
      Effect h c (.readStop a status withBuf) (h.freeAt b)
        { c with held := none, phase := .closing }
  | stoppedBare {a : Nat} {status : Int} {withBuf : Bool}
      (hPhase : c.phase = .opened) (hHeld : c.held = none) :
      Effect h c (.readStop a status withBuf) h { c with phase := .closing }
  | wrotePart {a n r b off : Nat} {queue : List Nat} {w : WriteReq}
      {bytes : List β} (hPhase : c.phase = .opened)
      (hQueue : c.writeQueue = r :: queue) (hReq : Queued h r w b bytes off)
      (hLt : n < w.bufsml.len) :
      Effect h c (.written a n)
        (h.store r (.writeReq
          { w with bufsml := ⟨some ⟨b, off + n⟩, w.bufsml.len - n⟩ }))
        { c with wire := c.wire ++ (bytes.drop off).take n }
  | wroteAll {a r b off : Nat} {queue : List Nat} {w : WriteReq}
      {bytes : List β} (hPhase : c.phase = .opened)
      (hQueue : c.writeQueue = r :: queue) (hReq : Queued h r w b bytes off) :
      Effect h c (.written a w.bufsml.len) h
        { c with
          wire := c.wire ++ (bytes.drop off).take w.bufsml.len
          writeQueue := queue
          completed := c.completed ++ [(r, 0)] }
  | writeFailed {a r : Nat} {queue : List Nat} {status : Int}
      (hPhase : c.phase = .opened) (hQueue : c.writeQueue = r :: queue) :
      Effect h c (.writeError a status) h
        { c with
          writeQueue := queue
          completed := c.completed ++ [(r, status)]
          failedAt := c.failedAt.or (some c.wire.length) }
  /-- `write_cb` frees the buffer and the request. -/
  | calledBack {a r b : Nat} {status : Int} {rest : List (Nat × Int)}
      {w : WriteReq} {bytes : List β} (hDone : c.completed = (r, status) :: rest)
      (hReq : Request h r w b bytes) :
      Effect h c (.writeCb a) ((h.freeAt b).freeAt r) { c with completed := rest }
  | finished {a : Nat} (hPhase : c.phase = .closing) :
      Effect h c (.finishClose a) h
        { c with
          phase := .closed
          writeQueue := []
          completed := c.completed ++ c.writeQueue.map fun r => (r, uvEcanceled) }

/-! ## Every event has its effect -/

/-- The state in which the heap is `h'` and client `a` is `c'`. -/
def State.put (s : State β) (h' : Heap (Block β)) (a : Nat) (c' : Client β) :
    State β := ⟨h', Function.update s.clients a (some c')⟩

theorem put_clients_self (s : State β) (h' : Heap (Block β)) (a : Nat) (c' : Client β) :
    (s.put h' a c').clients a = some c' := Function.update_self ..

theorem put_clients_of_ne (s : State β) (h' : Heap (Block β))
    {a j : Nat} (c' : Client β) (hj : j ≠ a) :
    (s.put h' a c').clients j = s.clients j := Function.update_of_ne hj ..

section StepClient

variable {s s' : State β} {a : Nat} {c : Client β}

private theorem uvClose_put {h' : Heap (Block β)} :
    uvClose (s.put h' a c) a = s.put h' a { c with phase := .closing } := by
  simp [uvClose, State.put, State.setClient]

private theorem readData_effect (hOk : ClientOk s.heap c) {data : List β}
    {addr : Nat} (hStep : stepClient s a c (.readData a data addr) = some s') :
    ∃ h' c', Effect s.heap c (.readData a data addr) h' c' ∧ s' = s.put h' a c' := by
  simp only [stepClient] at hStep
  split at hStep
  · cases hStep
  · rename_i b hHeld
    obtain ⟨hPhase, bytes, hData⟩ := hOk.held b hHeld
    obtain ⟨n, hCell⟩ := dataAt_eq_some.1 hData
    rw [hCell] at hStep
    simp only at hStep
    split at hStep
    · rename_i hEnabled
      obtain ⟨-, hPos, hLen, hFree⟩ := hEnabled
      rw [Option.isNone_iff_eq_none] at hFree
      refine ⟨_, _, Effect.echoed hPhase hHeld hData hPos hLen hFree, ?_⟩
      have hNe : b ≠ addr := by
        rintro rfl
        rw [hFree] at hCell
        cases hCell
      have hRead : readAt
          ((s.heap.store b (.data (data ++ bytes.drop data.length))).malloc addr
            (.writeReq ⟨⟨none, 0⟩, ⟨some ⟨b, 0⟩, data.length⟩⟩))
          (some ⟨b, 0⟩) data.length = some data := by
        simp [readAt, store_cell _ hCell, hNe]
      injection hStep with hStep
      rw [← hStep]
      simp only [readCb, Int.natCast_pos, hPos, if_true, Int.toNat_natCast, uvWrite]
      simp [State.setClient, State.put, hRead, malloc_store]
    · cases hStep

private theorem allocCb_effect {addr : Nat} {garbage : List β}
    (hClient : s.clients a = some c)
    (hStep : stepClient s a c (.allocCb a addr garbage) = some s') :
    ∃ h' c', Effect s.heap c (.allocCb a addr garbage) h' c' ∧
      s' = s.put h' a c' := by
  simp only [stepClient] at hStep
  split at hStep
  · rename_i hEnabled
    obtain ⟨hPhase, hHeld, hFree⟩ := hEnabled
    rw [Option.isNone_iff_eq_none] at hFree
    refine ⟨_, _, Effect.allocated hPhase hHeld hFree, ?_⟩
    injection hStep with hStep
    rw [← hStep]
    simp [allocBuff, hClient, State.setClient, State.put]
  · cases hStep

private theorem readAgain_effect (hOk : ClientOk s.heap c)
    (hStep : stepClient s a c (.readAgain a) = some s') :
    ∃ h' c', Effect s.heap c (.readAgain a) h' c' ∧ s' = s.put h' a c' := by
  simp only [stepClient] at hStep
  split at hStep
  · cases hStep
  · rename_i b hHeld
    obtain ⟨hPhase, bytes, hData⟩ := hOk.held b hHeld
    refine ⟨_, _, Effect.readNothing hPhase hHeld hData, ?_⟩
    rw [if_pos hPhase] at hStep
    injection hStep with hStep
    rw [← hStep]
    simp [readCb, free_start, State.setClient, State.put]

private theorem readStop_effect (hOk : ClientOk s.heap c) {status : Int}
    {withBuf : Bool}
    (hStep : stepClient s a c (.readStop a status withBuf) = some s') :
    ∃ h' c', Effect s.heap c (.readStop a status withBuf) h' c' ∧
      s' = s.put h' a c' := by
  simp only [stepClient] at hStep
  split at hStep
  · rename_i hEnabled
    obtain ⟨hPhase, hStatus, -⟩ := hEnabled
    injection hStep with hStep
    have hNotPos : ¬ 0 < status := by omega
    simp only [readCb, hNotPos, if_false, hStatus, if_true] at hStep
    rw [← hStep]
    show ∃ h' c', _ ∧ State.mk ((uvClose (s.put s.heap a _) a).heap.free _)
      (uvClose (s.put s.heap a _) a).clients = _
    rw [uvClose_put]
    cases hHeld : c.held with
    | none =>
        refine ⟨_, _, Effect.stoppedBare hPhase hHeld, ?_⟩
        simp only [State.put, Heap.free, hHeld, Option.map_none]
    | some b =>
        obtain ⟨-, bytes, hData⟩ := hOk.held b hHeld
        refine ⟨_, _, Effect.stoppedHeld hPhase hHeld hData, ?_⟩
        simp [State.put, free_start]
  · cases hStep

private theorem written_effect (hOk : ClientOk s.heap c) {n : Nat}
    (hStep : stepClient s a c (.written a n) = some s') :
    ∃ h' c', Effect s.heap c (.written a n) h' c' ∧ s' = s.put h' a c' := by
  simp only [stepClient] at hStep
  split at hStep
  · cases hStep
  · rename_i r queue hQueue
    obtain ⟨w, b, bytes, off, hReq⟩ := hOk.queued r (by simp [hQueue])
    rw [hReq.req] at hStep
    simp only at hStep
    split at hStep
    · rename_i hEnabled
      obtain ⟨hPhase, hn⟩ := hEnabled
      injection hStep with hStep
      have hFits : off + n ≤ bytes.length := by
        have hTotal := hReq.total
        have hLen := hReq.len
        omega
      have hRead : readAt s.heap w.bufsml.base n = some ((bytes.drop off).take n) := by
        rw [hReq.copy, readAt_eq, hReq.block]
        simp [hFits]
      rw [← hStep]
      simp only [uvStreamWrite, hRead]
      by_cases hLt : n < w.bufsml.len
      · refine ⟨_, _, Effect.wrotePart hPhase hQueue hReq hLt, ?_⟩
        simp [hLt, hReq.copy, State.setClient, State.put]
      · have hAll : n = w.bufsml.len := by omega
        subst hAll
        refine ⟨_, _, Effect.wroteAll hPhase hQueue hReq, ?_⟩
        simp [State.setClient, State.put]
    · cases hStep

private theorem writeError_effect (hOk : ClientOk s.heap c) {status : Int}
    (hStep : stepClient s a c (.writeError a status) = some s') :
    ∃ h' c', Effect s.heap c (.writeError a status) h' c' ∧
      s' = s.put h' a c' := by
  simp only [stepClient] at hStep
  split at hStep
  · cases hStep
  · rename_i r queue hQueue
    obtain ⟨w, b, bytes, off, hReq⟩ := hOk.queued r (by simp [hQueue])
    rw [hReq.req] at hStep
    simp only at hStep
    split at hStep
    · rename_i hEnabled
      refine ⟨_, _, Effect.writeFailed hEnabled.1 hQueue, ?_⟩
      injection hStep with hStep
      rw [← hStep]
      rfl
    · cases hStep

private theorem writeCb_effect (hOk : ClientOk s.heap c)
    (hStep : stepClient s a c (.writeCb a) = some s') :
    ∃ h' c', Effect s.heap c (.writeCb a) h' c' ∧ s' = s.put h' a c' := by
  simp only [stepClient] at hStep
  split at hStep
  · cases hStep
  · rename_i r status rest hDone
    obtain ⟨w, b, bytes, hReq⟩ := hOk.completed r (by simp [hDone])
    refine ⟨_, _, Effect.calledBack hDone hReq, ?_⟩
    obtain ⟨m, hReqCell⟩ := requestAt_eq_some.1 hReq.req
    obtain ⟨n, hAfter⟩ := requestAt_eq_some.1 hReq.after_free
    injection hStep with hStep
    rw [← hStep]
    simp [writeCb, freeWriteReq, hReqCell, hReq.base, free_start,
      store_freeAt _ hAfter, State.setClient, State.put]

private theorem finishClose_effect
    (hStep : stepClient s a c (.finishClose a) = some s') :
    ∃ h' c', Effect s.heap c (.finishClose a) h' c' ∧ s' = s.put h' a c' := by
  simp only [stepClient] at hStep
  split at hStep
  · rename_i hPhase
    refine ⟨_, _, Effect.finished hPhase, ?_⟩
    injection hStep with hStep
    rw [← hStep]
    rfl
  · cases hStep

theorem stepClient_effect (hOk : ClientOk s.heap c)
    (hClient : s.clients a = some c) {e : Event β} (hE : e.client? = some a)
    (hStep : stepClient s a c e = some s') :
    ∃ h' c', Effect s.heap c e h' c' ∧ s' = s.put h' a c' := by
  cases e with
  | newConnection status handle accepted => cases hE
  | allocCb a' addr garbage => cases hE; exact allocCb_effect hClient hStep
  | readData a' data addr => cases hE; exact readData_effect hOk hStep
  | readAgain a' => cases hE; exact readAgain_effect hOk hStep
  | readStop a' status withBuf => cases hE; exact readStop_effect hOk hStep
  | written a' n => cases hE; exact written_effect hOk hStep
  | writeError a' status => cases hE; exact writeError_effect hOk hStep
  | writeCb a' => cases hE; exact writeCb_effect hOk hStep
  | finishClose a' => cases hE; exact finishClose_effect hStep

end StepClient

theorem step_of_client {s : State β} {e : Event β} {a : Nat}
    (hE : e.client? = some a) :
    step s e = (s.clients a).bind fun c => stepClient s a c e := by
  cases e with
  | newConnection status handle accepted => cases hE
  | _ =>
      cases hE
      simp only [step, Event.client?]
      cases s.clients a <;> rfl

/-- **Inversion of a step.** A step is a refused connection, a new connection,
or an effect on the client the event is about. -/
theorem step_cases {s s' : State β} {e : Event β}
    (hOk : ∀ a c, s.clients a = some c → ClientOk s.heap c)
    (hStep : step s e = some s') :
    (∃ status handle accepted, e = .newConnection status handle accepted ∧
      status < 0 ∧ s' = s) ∨
    (∃ status handle accepted phase,
      e = .newConnection status handle accepted ∧ 0 ≤ status ∧
      s.heap.cell handle = none ∧ phase = (if accepted then .opened else .closing) ∧
      s' = s.put (s.heap.malloc handle .tcp) handle (Client.fresh phase)) ∨
    (∃ a c h' c', e.client? = some a ∧ s.clients a = some c ∧
      Effect s.heap c e h' c' ∧ s' = s.put h' a c') := by
  cases hE : e.client? with
  | none =>
      cases e with
      | newConnection status handle accepted =>
          simp only [step] at hStep
          split at hStep
          · rename_i hFree
            rw [Option.isNone_iff_eq_none] at hFree
            injection hStep with hStep
            by_cases hStatus : status < 0
            · refine Or.inl ⟨status, handle, accepted, rfl, hStatus, ?_⟩
              rw [← hStep]
              simp [onNewConnection, hStatus]
            · refine Or.inr (Or.inl ⟨status, handle, accepted,
                if accepted then .opened else .closing, rfl, by omega, hFree, rfl, ?_⟩)
              rw [← hStep]
              cases accepted <;>
                simp [onNewConnection, hStatus, uvClose, State.setClient,
                  State.put, Client.fresh]
          · cases hStep
      | _ => cases hE
  | some a =>
      rw [step_of_client hE] at hStep
      obtain ⟨c, hClient, hStep⟩ := Option.bind_eq_some_iff.1 hStep
      obtain ⟨h', c', hEffect, hState⟩ :=
        stepClient_effect (hOk a c hClient) hClient hE hStep
      exact Or.inr (Or.inr ⟨a, c, h', c', rfl, hClient, hEffect, hState⟩)

end MGServer.Ports.EchoServer
