import MGServer.Ports.EchoServerLedger
import MGServer.Verified.Lifetimes

/-!
# The handles of the echo server

`on_new_connection` allocates a `uv_tcp_t` for each connection, and both
places that give one up call `uv_close` with a null callback, so nobody is
told when libuv is done with it.  Each handle is closed at most once and is
quiet after that; none is ever freed.

A handle is known by the serial number of its `malloc` call.  The record of a
run, which handle is at which address and what is done with each, is read off
the events alone.
-/

namespace MGServer.Ports.EchoServer

open MGServer.Verified.BlockHeap
open MGServer.Verified.Lifetimes
open MGServer.Verified.Transition

variable {β : Type}

/-! ## The record of a run -/

/-- What happens to a handle; a pointer is `none` when no handle was ever at
that address. -/
inductive HandleCall where
  | uvTcpInit (handle : Nat)
  | allocBuff (handle : Option Nat)
  | readCb (handle : Option Nat)
  | uvWrite (handle : Option Nat)
  | uvClose (handle : Option Nat)
  | writeCb (handle : Option Nat)
  | finishClose (handle : Option Nat)
  deriving Repr, DecidableEq

/-- What an event about the client of `handle` does with it. -/
def handleCallsOf (handle : Option Nat) : Event β → List HandleCall
  | .allocCb _ _ _ => [.allocBuff handle]
  | .readData _ _ _ => [.readCb handle, .uvWrite handle]
  | .readAgain _ => [.readCb handle]
  | .readStop _ _ _ => [.readCb handle, .uvClose handle]
  | .writeCb _ => [.writeCb handle]
  | .finishClose _ => [.finishClose handle]
  | _ => []

/-- `handles` holds address and serial number of each `uv_tcp_t`, the latest
first; `mallocs` counts all `malloc` calls. -/
structure Record where
  mallocs : Nat
  handles : List (Nat × Nat)
  calls : List HandleCall
  deriving Repr, DecidableEq

def Record.step (r : Record) (e : Event β) : Record :=
  match e with
  | .newConnection status addr accepted =>
      if status < 0 then r
      else
        { mallocs := r.mallocs + 1
          handles := (addr, r.mallocs) :: r.handles
          calls := r.calls ++ .uvTcpInit r.mallocs ::
            if accepted then [] else [.uvClose (some r.mallocs)] }
  | e =>
      { r with
        mallocs := r.mallocs + e.malloc?.toList.length
        calls := r.calls ++
          handleCallsOf (e.client?.bind fun a => r.handles.lookup a) e }

def record (evs : List (Event β)) : Record := evs.foldl Record.step ⟨0, [], []⟩

theorem record_snoc (evs : List (Event β)) (e : Event β) :
    record (evs ++ [e]) = (record evs).step e := by
  simp [record]

theorem record_client {r : Record} {e : Event β} {a : Nat} (hE : e.client? = some a) :
    r.step e =
      { r with
        mallocs := r.mallocs + e.malloc?.toList.length
        calls := r.calls ++ handleCallsOf (r.handles.lookup a) e } := by
  cases e with
  | newConnection status handle accepted => cases hE
  | _ =>
      cases hE
      rfl

/-! ## The property -/

/-- A handle is obtained by `uv_tcp_init` and given up by `uv_close`; between
the two it may be read from and written to. -/
def tcpProtocol : Protocol HandleCall Nat where
  obtains
    | .uvTcpInit handle => some handle
    | _ => none
  passes
    | .allocBuff handle => [handle]
    | .readCb handle => [handle]
    | .uvWrite handle => [handle]
    | .uvClose handle => [handle]
    | _ => []
  releases
    | .uvClose handle => handle
    | _ => none
  releases_passes := by
    intro e k hReleases
    cases e with
    | uvClose handle =>
        have hHandle : handle = some k := hReleases
        simp [hHandle]
    | _ => cases hReleases

/-- libuv is done with the client: closed, and every callback has run. -/
def Client.finished (c : Client β) : Bool :=
  decide (c.phase = .closed) && c.completed.isEmpty

/-- The connection of a handle is open or closing. -/
def State.unfinished (s : State β) (r : Record) (handle : Nat × Nat) : Bool :=
  decide (r.handles.lookup handle.1 = some handle.2) &&
    match s.clients handle.1 with
    | some c => !c.finished
    | none => false

/-- What is to hold of the handles after the events `evs`. -/
structure HandlesReleased (evs : List (Event β)) (s : State β) : Prop where
  /-- Nothing is read, written or closed on a handle after its `uv_close`. -/
  sound : tcpProtocol.Sound (record evs).calls
  closedOnce : ∀ n, tcpProtocol.releaseCount (record evs).calls n ≤ 1
  /-- When libuv is done with a handle, it has been freed, once. -/
  released : s.heap.freed.Nodup ∧ ∀ a n c, (a, n) ∈ (record evs).handles →
    (record evs).handles.lookup a = some n → s.clients a = some c →
    c.finished = true → n ∈ s.heap.freed
  bounded : ((record evs).handles.filter fun h => decide (h.2 ∉ s.heap.freed)).length ≤
    ((record evs).handles.filter (s.unfinished (record evs))).length

/-- No handle has been finished off with all its writes called back. -/
def NoneFinished (evs : List (Event β)) : Prop :=
  ∀ a n, (a, n) ∈ (record evs).handles → .finishClose (some n) ∈ (record evs).calls →
    (record evs).calls.count (.writeCb (some n)) <
      (record evs).calls.count (.uvWrite (some n))

/-! ## What the record says about a client -/

/-- The client of handle `n`, as the calls tell. -/
structure HandleLog (calls : List HandleCall) (n : Nat) (c : Client β) : Prop where
  done : .finishClose (some n) ∈ calls ↔ c.phase = .closed
  requests : calls.count (.uvWrite (some n)) =
    calls.count (.writeCb (some n)) + (c.writeQueue.length + c.completed.length)

theorem HandleLog.finished_iff {calls : List HandleCall} {n : Nat} {c : Client β}
    (hLog : HandleLog calls n c) (hClosed : c.phase = .closed → c.writeQueue = []) :
    c.finished = true ↔ .finishClose (some n) ∈ calls ∧
      ¬ calls.count (.writeCb (some n)) < calls.count (.uvWrite (some n)) := by
  have hRequests := hLog.requests
  rw [hLog.done]
  simp only [Client.finished, Bool.and_eq_true, decide_eq_true_eq, List.isEmpty_iff]
  apply and_congr_right
  intro hPhase
  have hQueue : c.writeQueue.length = 0 := by rw [hClosed hPhase]; rfl
  rw [← List.length_eq_zero_iff]
  omega

def HandleCall.handle? : HandleCall → Option Nat
  | .uvTcpInit handle => some handle
  | .allocBuff handle => handle
  | .readCb handle => handle
  | .uvWrite handle => handle
  | .uvClose handle => handle
  | .writeCb handle => handle
  | .finishClose handle => handle

theorem HandleLog.append {calls es : List HandleCall} {n : Nat} {c : Client β}
    (hLog : HandleLog calls n c) (hDone : .finishClose (some n) ∉ es)
    (hWrite : .uvWrite (some n) ∉ es) (hBack : .writeCb (some n) ∉ es) :
    HandleLog (calls ++ es) n c := by
  constructor
  · rw [List.mem_append, ← hLog.done]
    exact or_iff_left hDone
  · rw [List.count_append, List.count_append, List.count_eq_zero.2 hWrite,
      List.count_eq_zero.2 hBack]
    exact hLog.requests

/-- Calls that are all about another handle do not matter. -/
theorem HandleLog.elsewhere {calls es : List HandleCall} {m n : Nat} {c : Client β}
    (hLog : HandleLog calls m c) (hEs : ∀ call ∈ es, call.handle? = some n)
    (hNe : n ≠ m) :
    HandleLog (calls ++ es) m c := by
  have hOther : ∀ call, HandleCall.handle? call = some m → call ∉ es := by
    intro call hHandle hMem
    rw [hEs call hMem] at hHandle
    exact hNe (Option.some.inj hHandle)
  apply hLog.append
  · exact hOther _ rfl
  · exact hOther _ rfl
  · exact hOther _ rfl

theorem handleCallsOf_handle {e : Event β} {n : Nat} {call : HandleCall}
    (hMem : call ∈ handleCallsOf (some n) e) : call.handle? = some n := by
  cases e <;>
    simp only [handleCallsOf, List.mem_cons, List.not_mem_nil, or_false] at hMem <;>
    rcases hMem with rfl | rfl <;> rfl

theorem Effect.handleLog {h h' : Heap (Block β)} {c c' : Client β} {e : Event β}
    (hEffect : Effect h c e h' c') {calls : List HandleCall} {n : Nat}
    (hLog : HandleLog calls n c) :
    HandleLog (calls ++ handleCallsOf (some n) e) n c' := by
  have hDone := hLog.done
  have hRequests := hLog.requests
  cases hEffect with
  | allocated hPhase hHeld hFree =>
      constructor
      · simpa [handleCallsOf] using hDone
      · simpa [handleCallsOf] using hRequests
  | echoed hPhase hHeld hData hPos hLen hFree =>
      constructor
      · simpa [handleCallsOf] using hDone
      · simp [handleCallsOf]
        omega
  | readNothing hPhase hHeld hData =>
      constructor
      · simpa [handleCallsOf] using hDone
      · simpa [handleCallsOf] using hRequests
  | stoppedHeld hPhase hHeld hData =>
      constructor
      · simpa [handleCallsOf, hPhase] using hDone
      · simpa [handleCallsOf] using hRequests
  | stoppedBare hPhase hHeld =>
      constructor
      · simpa [handleCallsOf, hPhase] using hDone
      · simpa [handleCallsOf] using hRequests
  | wrotePart hPhase hQueue hReq hLt =>
      constructor
      · simpa [handleCallsOf] using hDone
      · simpa [handleCallsOf] using hRequests
  | wroteAll hPhase hQueue hReq =>
      constructor
      · simpa [handleCallsOf] using hDone
      · simp [handleCallsOf, hQueue] at hRequests ⊢
        omega
  | writeFailed hPhase hQueue =>
      constructor
      · simpa [handleCallsOf] using hDone
      · simp [handleCallsOf, hQueue] at hRequests ⊢
        omega
  | calledBack hDone' hReq =>
      constructor
      · simpa [handleCallsOf] using hDone
      · simp [handleCallsOf, hDone'] at hRequests ⊢
        omega
  | finished hPhase =>
      constructor
      · simp [handleCallsOf]
      · simp [handleCallsOf] at hRequests ⊢
        omega

/-- What may be done with a handle that is open. -/
theorem borrows_open {live : List Nat} {n : Nat} (hMem : n ∈ live) {call : HandleCall}
    (hCall : call = .allocBuff (some n) ∨ call = .readCb (some n) ∨
      call = .uvWrite (some n)) : tcpProtocol.Borrows live call := by
  rcases hCall with rfl | rfl | rfl
  · exact ⟨rfl, rfl, by simpa [tcpProtocol] using hMem⟩
  · exact ⟨rfl, rfl, by simpa [tcpProtocol] using hMem⟩
  · exact ⟨rfl, rfl, by simpa [tcpProtocol] using hMem⟩

/-- An error or the end of the stream closes the handle. -/
theorem run_readStop {live : List Nat} {n : Nat} (hMem : n ∈ live) :
    run tcpProtocol.audit live [.readCb (some n), .uvClose (some n)] =
      some (live.erase n) := by
  simp [run, Protocol.audit, Protocol.remaining, tcpProtocol, hMem]

theorem Effect.audited {h h' : Heap (Block β)} {c c' : Client β} {e : Event β}
    (hEffect : Effect h c e h' c') {live : List Nat} {n : Nat} (hNodup : live.Nodup)
    (hOpen : n ∈ live ↔ c.phase = .opened) :
    ∃ live', run tcpProtocol.audit live (handleCallsOf (some n) e) = some live' ∧
      (n ∈ live' ↔ c'.phase = .opened) ∧ ∀ m, m ≠ n → (m ∈ live' ↔ m ∈ live) := by
  -- what only borrows the handle keeps its phase
  have hBorrowed :
      ∀ es : List HandleCall, (∀ call ∈ es, tcpProtocol.Borrows live call) →
      c'.phase = c.phase → ∃ live', run tcpProtocol.audit live es = some live' ∧
        (n ∈ live' ↔ c'.phase = .opened) ∧ ∀ m, m ≠ n → (m ∈ live' ↔ m ∈ live) := by
    intro es hEs hPhase
    exact ⟨live, Protocol.run_borrowed hEs, by rw [hPhase, hOpen], fun _ _ => Iff.rfl⟩
  have hStopped : c.phase = .opened → c'.phase = .closing →
      ∃ live', run tcpProtocol.audit live [.readCb (some n), .uvClose (some n)] =
        some live' ∧
        (n ∈ live' ↔ c'.phase = .opened) ∧ ∀ m, m ≠ n → (m ∈ live' ↔ m ∈ live) := by
    intro hPhase hPhase'
    refine ⟨live.erase n, run_readStop (hOpen.2 hPhase), ?_, ?_⟩
    · simp [hPhase', hNodup.mem_erase_iff]
    · intro m hm
      exact List.mem_erase_of_ne hm
  cases hEffect with
  | allocated hPhase hHeld hFree =>
      apply hBorrowed _ _ rfl
      intro call hCall
      exact borrows_open (hOpen.2 hPhase) (Or.inl (List.mem_singleton.1 hCall))
  | echoed hPhase hHeld hData hPos hLen hFree =>
      apply hBorrowed _ _ rfl
      intro call hCall
      simp only [handleCallsOf, List.mem_cons, List.not_mem_nil, or_false] at hCall
      exact borrows_open (hOpen.2 hPhase) (Or.inr hCall)
  | readNothing hPhase hHeld hData =>
      apply hBorrowed _ _ rfl
      intro call hCall
      exact borrows_open (hOpen.2 hPhase) (Or.inr (Or.inl (List.mem_singleton.1 hCall)))
  | stoppedHeld hPhase hHeld hData => exact hStopped hPhase rfl
  | stoppedBare hPhase hHeld => exact hStopped hPhase rfl
  | wrotePart hPhase hQueue hReq hLt => exact hBorrowed [] (by simp) rfl
  | wroteAll hPhase hQueue hReq => exact hBorrowed [] (by simp) rfl
  | writeFailed hPhase hQueue => exact hBorrowed [] (by simp) rfl
  | calledBack hDone hReq =>
      apply hBorrowed _ _ rfl
      intro call hCall
      rw [List.mem_singleton.1 hCall]
      exact ⟨rfl, rfl, by simp [tcpProtocol]⟩
  | finished hPhase =>
      have hClosing : n ∉ live := by simp [hOpen, hPhase]
      refine ⟨live, rfl, ?_, fun _ _ => Iff.rfl⟩
      simp [hClosing]

/-- A new handle is open unless `uv_accept` failed. -/
theorem run_connected {live : List Nat} {n : Nat} (hNew : n ∉ live) (accepted : Bool) :
    ∃ live', run tcpProtocol.audit live
        (.uvTcpInit n :: if accepted then [] else [.uvClose (some n)]) = some live' ∧
      (n ∈ live' ↔ accepted = true) ∧ ∀ m, m ≠ n → (m ∈ live' ↔ m ∈ live) := by
  cases accepted with
  | true =>
      refine ⟨n :: live, ?_, by simp, ?_⟩
      · simp [run, Protocol.audit, Protocol.remaining, tcpProtocol]
      · intro m hm
        simp [hm]
  | false =>
      refine ⟨live, ?_, by simp [hNew], fun _ _ => Iff.rfl⟩
      simp [run, Protocol.audit, Protocol.remaining, tcpProtocol]

/-! ## The record of a run, and its states -/

/-- The handles of the record are where it says, and the calls tell the state
of each of their clients. -/
structure Tracks (r : Record) (s : State β) : Prop where
  mallocs : r.mallocs = s.heap.mallocs
  cells : ∀ a n, (a, n) ∈ r.handles →
    s.heap.cell a = some ⟨n, .tcp⟩ ∧ ∃ c, s.clients a = some c
  known : ∀ a c, s.clients a = some c → ∃ n, (a, n) ∈ r.handles
  distinct : r.handles.Nodup
  mentioned : ∀ call ∈ r.calls, ∀ n, call.handle? = some n → n < r.mallocs
  obtained : r.calls.filterMap tcpProtocol.obtains = (r.handles.map Prod.snd).reverse
  opened : ∃ live, run tcpProtocol.audit [] r.calls = some live ∧
    ∀ a n c, (a, n) ∈ r.handles → s.clients a = some c →
      (n ∈ live ↔ c.phase = .opened)
  log : ∀ a n c, (a, n) ∈ r.handles → s.clients a = some c → HandleLog r.calls n c

theorem init_tracks : Tracks ⟨0, [], []⟩ (State.init : State β) where
  mallocs := rfl
  cells := by intro a n hMem; cases hMem
  known := by intro a c hClient; cases hClient
  distinct := List.nodup_nil
  mentioned := by intro call hMem; cases hMem
  obtained := rfl
  opened := ⟨[], rfl, by intro a n c hMem; cases hMem⟩
  log := by intro a n c hMem; cases hMem

section Tracking

variable {r : Record} {s : State β}

/-- One handle at an address, one address for a handle. -/
theorem Tracks.address_unique (hTracks : Tracks r s) (hInv : Inv s) {a a' n : Nat}
    (hMem : (a, n) ∈ r.handles) (hMem' : (a', n) ∈ r.handles) : a = a' :=
  hInv.wf.liveInj a a' _ _ (hTracks.cells a n hMem).1 (hTracks.cells a' n hMem').1 rfl

theorem Tracks.serial_unique (hTracks : Tracks r s) {a n n' : Nat}
    (hMem : (a, n) ∈ r.handles) (hMem' : (a, n') ∈ r.handles) : n = n' := by
  have hCell := (hTracks.cells a n hMem).1
  rw [(hTracks.cells a n' hMem').1] at hCell
  cases hCell
  rfl

theorem Tracks.lookup (hTracks : Tracks r s) {a n : Nat} (hMem : (a, n) ∈ r.handles) :
    r.handles.lookup a = some n := by
  cases hFound : r.handles.lookup a with
  | none =>
      have hNot := List.lookup_eq_none_iff.1 hFound _ hMem
      simp at hNot
  | some n' =>
      obtain ⟨l₁, l₂, hSplit, -⟩ := List.lookup_eq_some_iff.1 hFound
      have hMem' : (a, n') ∈ r.handles := by
        rw [hSplit]
        simp
      rw [hTracks.serial_unique hMem hMem']

theorem Tracks.fresh (hTracks : Tracks r s) (hInv : Inv s) :
    tcpProtocol.Fresh r.calls := by
  unfold Protocol.Fresh
  rw [hTracks.obtained, List.nodup_reverse]
  apply List.Nodup.map_on _ hTracks.distinct
  rintro ⟨a, n⟩ hMem ⟨a', n'⟩ hMem' rfl
  rw [hTracks.address_unique hInv hMem hMem']

theorem Tracks.lt_mallocs (hTracks : Tracks r s) (hInv : Inv s) {a n : Nat}
    (hMem : (a, n) ∈ r.handles) : n < r.mallocs := by
  rw [hTracks.mallocs]
  exact hInv.wf.liveLt a _ (hTracks.cells a n hMem).1

/-- What is open has a place in the record. -/
theorem Tracks.live_lt (hTracks : Tracks r s) (hInv : Inv s) {live : List Nat}
    (hRun : run tcpProtocol.audit [] r.calls = some live) {n : Nat} (hLive : n ∈ live) :
    n < r.mallocs := by
  have hAudited := Protocol.audited_of_run (hTracks.fresh hInv) hRun
  have hObtained : n ∈ r.calls.filterMap tcpProtocol.obtains :=
    ((hAudited.mem n).1 hLive).1
  rw [hTracks.obtained, List.mem_reverse, List.mem_map] at hObtained
  obtain ⟨⟨a, m⟩, hMem, rfl⟩ := hObtained
  exact hTracks.lt_mallocs hInv hMem

/-- What is appended is about one handle below the bound. -/
theorem Tracks.mentioned_append (hTracks : Tracks r s) {calls : List HandleCall}
    {n bound : Nat} (hCalls : ∀ call ∈ calls, call.handle? = some n)
    (hBound : n < bound) (hOld : r.mallocs ≤ bound) :
    ∀ call ∈ r.calls ++ calls, ∀ m, call.handle? = some m → m < bound := by
  intro call hMem m hHandle
  rcases List.mem_append.1 hMem with hBefore | hNew
  · have hLt := hTracks.mentioned call hBefore m hHandle
    omega
  · rw [hCalls call hNew] at hHandle
    cases hHandle
    exact hBound

/-- The calls of a new connection are about its own handle only. -/
theorem connectCalls_handle {n : Nat} {accepted : Bool} {call : HandleCall}
    (hMem : call ∈ HandleCall.uvTcpInit n ::
      if accepted then [] else [HandleCall.uvClose (some n)]) :
    call.handle? = some n := by
  cases accepted with
  | false =>
      simp only [Bool.false_eq_true, if_false, List.mem_cons, List.not_mem_nil,
        or_false] at hMem
      rcases hMem with rfl | rfl <;> rfl
  | true =>
      simp only [if_true, List.mem_cons, List.not_mem_nil, or_false] at hMem
      rw [hMem]
      rfl

/-- The next serial number has not been mentioned yet, so the log of a new
connection starts empty. -/
theorem Tracks.connected_log (hTracks : Tracks r s) (accepted : Bool) :
    HandleLog
      (r.calls ++ .uvTcpInit r.mallocs ::
        if accepted then [] else [.uvClose (some r.mallocs)])
      r.mallocs (Client.fresh (if accepted then .opened else .closing) : Client β) := by
  have hNone : ∀ call, HandleCall.handle? call = some r.mallocs → call ∉ r.calls := by
    intro call hHandle hSeen
    have hLt := hTracks.mentioned call hSeen _ hHandle
    omega
  have hUnseen : HandleLog r.calls r.mallocs
      (Client.fresh (if accepted then .opened else .closing) : Client β) := by
    constructor
    · simp only [hNone (.finishClose (some r.mallocs)) rfl, false_iff]
      cases accepted <;> simp [Client.fresh]
    · rw [List.count_eq_zero.2 (hNone (.uvWrite (some r.mallocs)) rfl),
        List.count_eq_zero.2 (hNone (.writeCb (some r.mallocs)) rfl)]
      rfl
  apply hUnseen.append
  · cases accepted <;> simp
  · cases accepted <;> simp
  · cases accepted <;> simp

/-- A new connection: its handle gets the next serial number, and is closed at
once if `uv_accept` failed. -/
theorem connected_tracks (hTracks : Tracks r s) (hInv : Inv s) {addr : Nat}
    {accepted : Bool} (hFree : s.heap.cell addr = none) :
    Tracks
      { mallocs := r.mallocs + 1
        handles := (addr, r.mallocs) :: r.handles
        calls := r.calls ++ .uvTcpInit r.mallocs ::
          if accepted then [] else [.uvClose (some r.mallocs)] }
      (s.put (s.heap.malloc addr .tcp) addr
        (Client.fresh (if accepted then .opened else .closing))) := by
  obtain ⟨live, hRun, hOpened⟩ := hTracks.opened
  have hNew : r.mallocs ∉ live := fun hLive => by
    have hLt := hTracks.live_lt hInv hRun hLive
    omega
  have hOther : ∀ a n, (a, n) ∈ r.handles → a ≠ addr := by
    rintro a n hMem rfl
    rw [(hTracks.cells a n hMem).1] at hFree
    cases hFree
  have hCell : ∀ a, a ≠ addr → (s.heap.malloc addr .tcp).cell a = s.heap.cell a ∧
      (s.put (s.heap.malloc addr .tcp) addr
        (Client.fresh (if accepted then .opened else .closing))).clients a =
          s.clients a := by
    intro a ha
    simp [State.put, Function.update_of_ne ha]
  have hNewClient : (s.put (s.heap.malloc addr .tcp) addr
      (Client.fresh (if accepted then .opened else .closing))).clients addr =
        some (Client.fresh (if accepted then .opened else .closing)) :=
    put_clients_self ..
  refine
    { mallocs := ?_
      cells := ?_
      known := ?_
      distinct := ?_
      mentioned := ?_
      obtained := ?_
      opened := ?_
      log := ?_ }
  · show r.mallocs + 1 = s.heap.mallocs + 1
    rw [hTracks.mallocs]
  · intro a n hMem
    rcases List.mem_cons.1 hMem with hHead | hOld
    · cases hHead
      refine ⟨?_, _, hNewClient⟩
      show (s.heap.malloc addr .tcp).cell addr = _
      rw [malloc_cell, Function.update_self, hTracks.mallocs]
    · have hSame := hCell a (hOther a n hOld)
      obtain ⟨hTcp, c, hClient⟩ := hTracks.cells a n hOld
      exact ⟨hSame.1.trans hTcp, c, hSame.2.trans hClient⟩
  · intro a c hClient
    by_cases ha : a = addr
    · subst ha
      exact ⟨r.mallocs, List.mem_cons_self⟩
    · rw [(hCell a ha).2] at hClient
      obtain ⟨n, hMem⟩ := hTracks.known a c hClient
      exact ⟨n, List.mem_cons_of_mem _ hMem⟩
  · apply List.nodup_cons.2
    refine ⟨?_, hTracks.distinct⟩
    intro hMem
    exact hOther addr r.mallocs hMem rfl
  · exact hTracks.mentioned_append (fun _ hNew => connectCalls_handle hNew)
      (Nat.lt_succ_self _) (Nat.le_succ _)
  · show (r.calls ++ _).filterMap tcpProtocol.obtains = _
    rw [List.filterMap_append, hTracks.obtained, List.map_cons, List.reverse_cons]
    cases accepted <;> rfl
  · obtain ⟨live', hRun', hOpen', hRest⟩ := run_connected hNew accepted
    refine ⟨live', ?_, ?_⟩
    · show run _ [] (r.calls ++ _) = _
      rw [run_append, hRun]
      exact hRun'
    · intro a n c hMem hClient
      rcases List.mem_cons.1 hMem with hHead | hOld
      · cases hHead
        cases hNewClient ▸ hClient
        rw [hOpen']
        cases accepted <;> simp [Client.fresh]
      · rw [(hCell a (hOther a n hOld)).2] at hClient
        have hLt := hTracks.lt_mallocs hInv hOld
        rw [hRest n (by omega)]
        exact hOpened a n c hOld hClient
  · intro a n c hMem hClient
    rcases List.mem_cons.1 hMem with hHead | hOld
    · cases hHead
      cases hNewClient ▸ hClient
      exact hTracks.connected_log accepted
    · rw [(hCell a (hOther a n hOld)).2] at hClient
      have hLt := hTracks.lt_mallocs hInv hOld
      exact (hTracks.log a n c hOld hClient).elsewhere
        (fun _ hNew => connectCalls_handle hNew) (by omega)

/-- An event about a client. -/
theorem effect_tracks (hTracks : Tracks r s) (hInv : Inv s) {a : Nat} {c c' : Client β}
    {e : Event β} {h' : Heap (Block β)} (hE : e.client? = some a)
    (hClient : s.clients a = some c) (hEffect : Effect s.heap c e h' c') :
    Tracks (r.step e) (s.put h' a c') := by
  obtain ⟨n, hMem⟩ := hTracks.known a c hClient
  rw [record_client hE, hTracks.lookup hMem]
  obtain ⟨live, hRun, hOpened⟩ := hTracks.opened
  have hNodup := (Protocol.audited_of_run (hTracks.fresh hInv) hRun).nodup
  have hMine : ∀ m d, (a, m) ∈ r.handles → (s.put h' a c').clients a = some d →
      m = n ∧ d = c' := by
    intro m d hMem' hd
    rw [put_clients_self] at hd
    cases hd
    exact ⟨hTracks.serial_unique hMem' hMem, rfl⟩
  have hElse : ∀ j, j ≠ a → (s.put h' a c').clients j = s.clients j :=
    fun j hj => put_clients_of_ne s h' c' hj
  obtain ⟨live', hRun', hOpen', hRest⟩ :=
    hEffect.audited hNodup (hOpened a n c hMem hClient)
  refine
    { mallocs := ?_
      cells := ?_
      known := ?_
      distinct := hTracks.distinct
      mentioned := ?_
      obtained := ?_
      opened := ?_
      log := ?_ }
  · show r.mallocs + _ = h'.mallocs
    rw [hEffect.mallocs, hTracks.mallocs]
  · intro j m hHandle
    obtain ⟨hTcp, d, hd⟩ := hTracks.cells j m hHandle
    refine ⟨(hInv.effect_handle hClient hEffect hd).trans hTcp, ?_⟩
    by_cases hj : j = a
    · subst hj
      exact ⟨c', put_clients_self ..⟩
    · exact ⟨d, (hElse j hj).trans hd⟩
  · intro j d hd
    by_cases hj : j = a
    · subst hj
      exact ⟨n, hMem⟩
    · rw [hElse j hj] at hd
      exact hTracks.known j d hd
  · have hLt := hTracks.lt_mallocs hInv hMem
    exact hTracks.mentioned_append (fun _ hNew => handleCallsOf_handle hNew)
      (Nat.lt_add_right _ hLt) (Nat.le_add_right _ _)
  · show (r.calls ++ _).filterMap tcpProtocol.obtains = _
    have hNone : (handleCallsOf (some n) e).filterMap tcpProtocol.obtains = [] := by
      cases e <;> rfl
    rw [List.filterMap_append, hTracks.obtained, hNone, List.append_nil]
  · refine ⟨live', ?_, ?_⟩
    · show run _ [] (r.calls ++ _) = _
      rw [run_append, hRun]
      exact hRun'
    · intro j m d hHandle hd
      by_cases hj : j = a
      · subst hj
        obtain ⟨rfl, rfl⟩ := hMine m d hHandle hd
        exact hOpen'
      · rw [hElse j hj] at hd
        rw [hRest m ?_, hOpened j m d hHandle hd]
        rintro rfl
        exact hj (hTracks.address_unique hInv hHandle hMem)
  · intro j m d hHandle hd
    by_cases hj : j = a
    · subst hj
      obtain ⟨rfl, rfl⟩ := hMine m d hHandle hd
      exact hEffect.handleLog (hTracks.log j m c hHandle hClient)
    · rw [hElse j hj] at hd
      apply (hTracks.log j m d hHandle hd).elsewhere fun _ hNew =>
        handleCallsOf_handle hNew
      rintro rfl
      exact hj (hTracks.address_unique hInv hHandle hMem)

end Tracking

theorem step_tracks {evs : List (Event β)} {s s' : State β} {e : Event β}
    (hRec : Recorded evs s) (hTracks : Tracks (record evs) s)
    (hStep : step s e = some s') :
    Tracks (record (evs ++ [e])) s' := by
  rw [record_snoc]
  rcases step_cases hRec.inv.clients hStep with
    ⟨status, addr, accepted, rfl, hStatus, rfl⟩ |
    ⟨status, addr, accepted, phase, rfl, hStatus, hFree, rfl, rfl⟩ |
    ⟨a, c, h', c', hE, hClient, hEffect, rfl⟩
  · simpa [Record.step, hStatus] using hTracks
  · have hNot : ¬ status < 0 := by omega
    simpa [Record.step, hNot] using connected_tracks hTracks hRec.inv hFree
  · exact effect_tracks hTracks hRec.inv hE hClient hEffect

theorem run_tracks {evs : List (Event β)} {s : State β}
    (hRun : run step State.init evs = some s) :
    Recorded evs s ∧ Tracks (record evs) s := by
  refine run_invariant_from step
    (P := fun evs s => Recorded evs s ∧ Tracks (record evs) s)
    ⟨?_, init_tracks⟩ ?_ hRun
  · exact run_recorded (by rfl)
  · rintro hist s e s' ⟨hRec, hTracks⟩ hStep
    exact ⟨step_recorded hRec hStep, step_tracks hRec hTracks hStep⟩

/-! ## Handles and their connections -/

section Released

variable {evs : List (Event β)} {s : State β}

/-- No handle is ever freed. -/
theorem Tracks.not_freed {r : Record} (hTracks : Tracks r s) (hInv : Inv s) {a n : Nat}
    (hMem : (a, n) ∈ r.handles) : n ∉ s.heap.freed :=
  hInv.wf.liveNotFreed a _ (hTracks.cells a n hMem).1

/-- A handle is unfinished as long as a finishing off or a callback is
missing. -/
theorem Tracks.unfinished_iff {r : Record} (hTracks : Tracks r s)
    (hInv : Inv s) {a n : Nat} (hMem : (a, n) ∈ r.handles) :
    s.unfinished r (a, n) = true ↔
      (.finishClose (some n) ∈ r.calls →
        r.calls.count (.writeCb (some n)) < r.calls.count (.uvWrite (some n))) := by
  obtain ⟨-, c, hClient⟩ := hTracks.cells a n hMem
  have hFinished :=
    (hTracks.log a n c hMem hClient).finished_iff (hInv.clients a c hClient).closed
  have hUnfinished : s.unfinished r (a, n) = !c.finished := by
    simp [State.unfinished, hTracks.lookup hMem, hClient]
  rw [hUnfinished, Bool.not_eq_true', ← Bool.not_eq_true, hFinished]
  simp only [not_and, not_not]

/-- **Handle lifecycle.** After any run each handle has been closed at most
once and left alone after that; but the handles libuv is done with are freed,
and so no more handles are live than connections are open or closing, only as
long as libuv is done with none. -/
theorem handles_released_iff (hRun : run step State.init evs = some s) :
    (tcpProtocol.Sound (record evs).calls ∧
      ∀ n, tcpProtocol.releaseCount (record evs).calls n ≤ 1) ∧
    (HandlesReleased evs s ↔ NoneFinished evs) := by
  obtain ⟨hRec, hTracks⟩ := run_tracks hRun
  have hInv := hRec.inv
  obtain ⟨live, hAudit, -⟩ := hTracks.opened
  have hAudited := Protocol.audited_of_run (hTracks.fresh hInv) hAudit
  refine ⟨⟨hAudited.sound, hAudited.once⟩, ?_⟩
  have hAll : ((record evs).handles.filter fun h => decide (h.2 ∉ s.heap.freed)) =
      (record evs).handles := by
    apply List.filter_eq_self.2
    rintro ⟨a, n⟩ hMem
    exact decide_eq_true (hTracks.not_freed hInv hMem)
  constructor
  · intro hReleased a n hMem
    have hLength := hReleased.bounded
    rw [hAll] at hLength
    have hEvery := List.filter_eq_self.1
      (List.Sublist.eq_of_length_le List.filter_sublist hLength)
    exact (hTracks.unfinished_iff hInv hMem).1 (hEvery _ hMem)
  · intro hNone
    have hUnfinished :
        ∀ h ∈ (record evs).handles, s.unfinished (record evs) h = true := by
      rintro ⟨a, n⟩ hMem
      exact (hTracks.unfinished_iff hInv hMem).2 (hNone a n hMem)
    refine
      { sound := hAudited.sound
        closedOnce := hAudited.once
        released := ⟨hInv.wf.freedNodup, ?_⟩
        bounded := ?_ }
    · intro a n c hMem hLookup hClient hFinished
      have hOpen := hUnfinished _ hMem
      simp [State.unfinished, hLookup, hClient, hFinished] at hOpen
    · apply Nat.le_of_eq
      rw [hAll, List.filter_eq_self.2 hUnfinished]

end Released

/-- A connection that `uv_accept` refused, and one that has ended with a write
not called back. -/
def pendingRun : List (Event Nat) :=
  [.newConnection 0 1 true, .newConnection 0 2 false, .allocCb 1 10 [0],
    .readData 1 [7] 11, .readStop 1 uvEof false, .finishClose 1]

theorem handles_released_iff_pendingRun :
    ∃ s, run step State.init pendingRun = some s ∧ HandlesReleased pendingRun s := by
  have hSome : (run step State.init pendingRun).isSome = true := by decide +kernel
  obtain ⟨s, hRun⟩ := Option.isSome_iff_exists.1 hSome
  refine ⟨s, hRun, (handles_released_iff hRun).2.2 ?_⟩
  intro a n hMem
  have hHandles : (record pendingRun).handles = [(2, 1), (1, 0)] := by decide +kernel
  rw [hHandles] at hMem
  simp only [List.mem_cons, Prod.mk.injEq, List.not_mem_nil, or_false] at hMem
  rcases hMem with ⟨rfl, rfl⟩ | ⟨rfl, rfl⟩
  · decide +kernel
  · decide +kernel

/-- A connection that ends at once: libuv is done with the handle, and its
block is still there. -/
theorem handle_kept_after_close :
    ∃ s : State Nat,
      run step State.init
          [.newConnection 0 1 true, .readStop 1 uvEof false, .finishClose 1] = some s ∧
        ¬ HandlesReleased
          [.newConnection 0 1 true, .readStop 1 uvEof false, .finishClose 1] s := by
  have hEval : (run step State.init
      [.newConnection 0 1 true, .readStop 1 uvEof false, .finishClose 1]).map
        (fun s : State Nat => (s.heap.freed, (s.clients 1).map Client.finished)) =
      some ([], some true) := by decide +kernel
  obtain ⟨s, hRun, hState⟩ := Option.map_eq_some_iff.1 hEval
  simp only [Prod.mk.injEq, Option.map_eq_some_iff] at hState
  obtain ⟨hFreed, c, hClient, hFinished⟩ := hState
  refine ⟨s, hRun, ?_⟩
  intro hReleased
  have hMem := hReleased.released.2 1 0 c (by decide) (by decide) hClient hFinished
  rw [hFreed] at hMem
  cases hMem

end MGServer.Ports.EchoServer
