import MGServer.Verified.BlockHeap
import MGServer.Verified.Transition

/-!
# The echo server

Port of the callbacks of `server/main.cpp` and of what libuv does between
them (`libuv/src/unix/stream.c`, `core.c`).  A client is known by the address
of its `uv_tcp_t`.  Every buffer and every `write_req_t` is a block of one
`malloc` heap, and `malloc` may answer with any address that is not live.

One event is one thing libuv or the kernel does: a connection arrives, a
buffer is asked for, a read returns, the socket takes some bytes of the first
queued request or refuses them, a finished request's callback runs, a closing
handle is finished off.  An event is enabled when libuv could do it in that
state; the bytes and addresses it carries are the environment's choice, so a
list of events is one interleaving over any number of clients.

A byte is a value of an arbitrary type, so bytes can carry a mark of where
they came from.
-/

namespace MGServer.Ports.EchoServer

open MGServer.Verified.BlockHeap
open MGServer.Verified.Transition

def uvEof : Int := -4095
def uvEcanceled : Int := -125

/-- `uv_buf_t`. -/
structure UvBuf where
  base : Option Ptr
  len : Nat
  deriving Repr, DecidableEq

/-- `write_req_t`: the `uv_write_t`, of which only libuv's own copy of the
buffer matters, and the program's member `buf`. -/
structure WriteReq where
  bufsml : UvBuf
  buf : UvBuf
  deriving Repr, DecidableEq

/-- What a heap block holds. -/
inductive Block (β : Type) where
  | tcp
  | data (bytes : List β)
  | writeReq (req : WriteReq)
  deriving Repr, DecidableEq

inductive Phase where
  | opened
  | closing
  | closed
  deriving Repr, DecidableEq

/-- One stream.  `held` is the buffer `alloc_cb` gave out and no `read_cb` has
returned yet; the two queues are libuv's, by request address.  The last four
fields record what happened: bytes delivered by positive reads, bytes handed
to `uv_write`, bytes the socket took, and how many it had taken when a write
first failed. -/
structure Client (β : Type) where
  phase : Phase
  held : Option Nat
  writeQueue : List Nat
  completed : List (Nat × Int)
  delivered : List β
  submitted : List β
  wire : List β
  failedAt : Option Nat
  deriving Repr, DecidableEq

structure State (β : Type) where
  heap : Heap (Block β)
  clients : Nat → Option (Client β)

variable {β : Type}

def State.init : State β := ⟨Heap.empty, fun _ => none⟩

def State.setClient (s : State β) (a : Nat) (c : Client β) : State β :=
  { s with clients := Function.update s.clients a (some c) }

/-- An access that the heap does not back. -/
def State.faulted (s : State β) : State β :=
  { s with heap := { s.heap with fault := true } }

/-- The bytes a write would send: `len` bytes from `base`. -/
def readAt (h : Heap (Block β)) (base : Option Ptr) (len : Nat) :
    Option (List β) :=
  match base with
  | none => none
  | some p =>
      match h.cell p.block with
      | some ⟨_, .data bytes⟩ =>
          if p.offset + len ≤ bytes.length then
            some ((bytes.drop p.offset).take len)
          else none
      | _ => none

/-! ## Calls into libuv -/

/-- `uv_write` on an open handle: copy the `uv_buf_t` array into the request
and append the request to the stream's queue.  The write attempt that libuv
makes at once on an empty queue is a `written` event of its own. -/
def uvWrite (s : State β) (client req : Nat) : State β :=
  match s.heap.cell req, s.clients client with
  | some ⟨_, .writeReq w⟩, some c =>
      State.setClient
        { s with heap := s.heap.store req (.writeReq { w with bufsml := w.buf }) }
        client
        { c with
          writeQueue := c.writeQueue ++ [req]
          submitted := c.submitted ++ (readAt s.heap w.buf.base w.buf.len).getD [] }
  | _, _ => s.faulted

/-- `uv_close(client, NULL)`: the descriptor is gone at once, reading stops,
and the handle waits to be finished off. -/
def uvClose (s : State β) (client : Nat) : State β :=
  match s.clients client with
  | some c => s.setClient client { c with phase := .closing }
  | none => s.faulted

/-! ## The callbacks of `main.cpp` -/

/-- `alloc_buff`: the buffer libuv will read into.  `garbage` is what the
fresh block happens to hold, `suggested_size` bytes of it. -/
def allocBuff (s : State β) (client addr : Nat) (garbage : List β) : State β :=
  match s.clients client with
  | some c =>
      State.setClient { s with heap := s.heap.malloc addr (.data garbage) } client
        { c with held := some addr }
  | none => s.faulted

/-- `free_write_req`. -/
def freeWriteReq (s : State β) (req : Nat) : State β :=
  match s.heap.cell req with
  | some ⟨_, .writeReq w⟩ =>
      let h := s.heap.free w.buf.base
      let h := h.store req (.writeReq { w with buf := { w.buf with len := 0 } })
      { s with heap := h.free (some ⟨req, 0⟩) }
  | _ => s.faulted

/-- `write_cb`; the status is only logged. -/
def writeCb (s : State β) (req : Nat) (_status : Int) : State β :=
  freeWriteReq s req

/-- `read_cb`.  `addr` is the address `malloc` answers with if a request is
allocated. -/
def readCb (s : State β) (client : Nat) (nread : Int) (base : Option Ptr)
    (addr : Nat) : State β :=
  if 0 < nread then
    let req : WriteReq := ⟨⟨none, 0⟩, ⟨base, nread.toNat⟩⟩
    uvWrite { s with heap := s.heap.malloc addr (.writeReq req) } client addr
  else
    let s := if nread < 0 then uvClose s client else s
    { s with heap := s.heap.free base }

/-- A new stream, with nothing read or written. -/
def Client.fresh (phase : Phase) : Client β :=
  ⟨phase, none, [], [], [], [], [], none⟩

/-- `on_new_connection`.  `handle` is the address `malloc` answers with for
the `uv_tcp_t`; `accepted` says whether `uv_accept` returned 0. -/
def onNewConnection (s : State β) (status : Int) (handle : Nat)
    (accepted : Bool) : State β :=
  if status < 0 then s
  else
    let s := State.setClient { s with heap := s.heap.malloc handle .tcp } handle
      (Client.fresh .opened)
    if accepted then s else uvClose s handle

/-! ## Events -/

inductive Event (β : Type) where
  | newConnection (status : Int) (handle : Nat) (accepted : Bool)
  /-- libuv asks for a buffer. -/
  | allocCb (client addr : Nat) (garbage : List β)
  /-- `read` put `data` into the buffer; `addr` is `malloc`'s next answer. -/
  | readData (client : Nat) (data : List β) (addr : Nat)
  /-- `read` would block: `read_cb` with `nread == 0`. -/
  | readAgain (client : Nat)
  /-- End of stream or an error, with the buffer or with a null one. -/
  | readStop (client : Nat) (status : Int) (withBuf : Bool)
  /-- `write` took `n` bytes of the first queued request. -/
  | written (client n : Nat)
  /-- `write` failed on the first queued request. -/
  | writeError (client : Nat) (status : Int)
  /-- The callback of the first finished request runs. -/
  | writeCb (client : Nat)
  /-- A closing handle is finished off. -/
  | finishClose (client : Nat)
  deriving Repr, DecidableEq

/-- `uv__write` after `write` returned `n`: advance libuv's copy of the
buffer, or finish the request. -/
def uvStreamWrite (s : State β) (client : Nat) (c : Client β) (req : Nat)
    (queue : List Nat) (w : WriteReq) (n : Nat) : State β :=
  match readAt s.heap w.bufsml.base n with
  | none => s.faulted
  | some bytes =>
      if n < w.bufsml.len then
        let base := w.bufsml.base.map fun p => { p with offset := p.offset + n }
        State.setClient
          { s with
            heap := s.heap.store req
              (.writeReq { w with bufsml := ⟨base, w.bufsml.len - n⟩ }) }
          client { c with wire := c.wire ++ bytes }
      else
        s.setClient client
          { c with
            wire := c.wire ++ bytes
            writeQueue := queue
            completed := c.completed ++ [(req, 0)] }

/-- `uv__stream_flush_write_queue`. -/
def uvStreamFlushWriteQueue (c : Client β) (error : Int) : Client β :=
  { c with
    writeQueue := []
    completed := c.completed ++ c.writeQueue.map fun req => (req, error) }

/-- The request at the head of a queue, if it is a live `write_req_t`. -/
def requestAt (h : Heap (Block β)) (req : Nat) : Option WriteReq :=
  match h.cell req with
  | some ⟨_, .writeReq w⟩ => some w
  | _ => none

/-- One event on an existing client. -/
def stepClient (s : State β) (a : Nat) (c : Client β) :
    Event β → Option (State β)
  | .newConnection _ _ _ => none
  | .allocCb _ addr garbage =>
      if c.phase = .opened ∧ c.held = none ∧ (s.heap.cell addr).isNone then
        some (allocBuff s a addr garbage)
      else none
  | .readData _ data addr =>
      match c.held with
      | none => none
      | some b =>
          match s.heap.cell b with
          | some ⟨_, .data bytes⟩ =>
              if c.phase = .opened ∧ 0 < data.length ∧
                  data.length ≤ bytes.length ∧ (s.heap.cell addr).isNone then
                let filled := data ++ bytes.drop data.length
                let s := State.setClient
                  { s with heap := s.heap.store b (.data filled) } a
                  { c with held := none, delivered := c.delivered ++ data }
                some (readCb s a data.length (some ⟨b, 0⟩) addr)
              else none
          | _ => some s.faulted
  | .readAgain _ =>
      match c.held with
      | none => none
      | some b =>
          if c.phase = .opened then
            some (readCb (s.setClient a { c with held := none }) a 0
              (some ⟨b, 0⟩) 0)
          else none
  | .readStop _ status withBuf =>
      if c.phase = .opened ∧ status < 0 ∧ withBuf = c.held.isSome then
        some (readCb (s.setClient a { c with held := none }) a status
          (c.held.map fun b => ⟨b, 0⟩) 0)
      else none
  | .written _ n =>
      match c.writeQueue with
      | [] => none
      | req :: queue =>
          match requestAt s.heap req with
          | none => some s.faulted
          | some w =>
              if c.phase = .opened ∧ n ≤ w.bufsml.len then
                some (uvStreamWrite s a c req queue w n)
              else none
  | .writeError _ status =>
      match c.writeQueue with
      | [] => none
      | req :: queue =>
          match requestAt s.heap req with
          | none => some s.faulted
          | some _ =>
              if c.phase = .opened ∧ status < 0 then
                some (s.setClient a
                  { c with
                    writeQueue := queue
                    completed := c.completed ++ [(req, status)]
                    failedAt := c.failedAt.or (some c.wire.length) })
              else none
  | .writeCb _ =>
      match c.completed with
      | [] => none
      | (req, status) :: rest =>
          some (writeCb (s.setClient a { c with completed := rest }) req status)
  | .finishClose _ =>
      if c.phase = .closing then
        some (s.setClient a
          { uvStreamFlushWriteQueue c uvEcanceled with phase := .closed })
      else none

/-- The client an event is about; none for a new connection. -/
def Event.client? : Event β → Option Nat
  | .newConnection _ _ _ => none
  | .allocCb a _ _ => some a
  | .readData a _ _ => some a
  | .readAgain a => some a
  | .readStop a _ _ => some a
  | .written a _ => some a
  | .writeError a _ => some a
  | .writeCb a => some a
  | .finishClose a => some a

def step (s : State β) (e : Event β) : Option (State β) :=
  match e with
  | .newConnection status handle accepted =>
      if (s.heap.cell handle).isNone then
        some (onNewConnection s status handle accepted)
      else none
  | e =>
      match e.client? with
      | none => none
      | some a =>
          match s.clients a with
          | none => none
          | some c => stepClient s a c e

end MGServer.Ports.EchoServer
