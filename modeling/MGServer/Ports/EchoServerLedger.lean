import MGServer.Ports.EchoServerOwnership
import Mathlib.Data.List.Pairwise

/-!
# The ledger of the echo server

The invariant of all reachable states, and what it says about every single
block that `alloc_buff` and `read_cb` ever allocated.  Blocks are named by the
serial number of their `malloc` call, so the account stays exact when an
address is handed out again; which call site a serial number belongs to is
read off the events.
-/

namespace MGServer.Ports.EchoServer

open MGServer.Verified.BlockHeap
open MGServer.Verified.Ownership
open MGServer.Verified.Transition

variable {β : Type}

/-- The blocks owned by the client whose handle is at `a`. -/
def State.owns (s : State β) (a : Nat) : List Nat :=
  match s.clients a with
  | some c => blocks s.heap c
  | none => []

structure Inv (s : State β) : Prop where
  wf : s.heap.WF
  fault : s.heap.fault = false
  handles : ∀ a c, s.clients a = some c → ∃ n, s.heap.cell a = some ⟨n, .tcp⟩
  clients : ∀ a c, s.clients a = some c → ClientOk s.heap c
  table : Partition s.owns (Live s.heap)

section Owns

variable {s : State β} {a : Nat} {c : Client β}

theorem owns_of_client (hClient : s.clients a = some c) :
    s.owns a = blocks s.heap c := by
  simp [State.owns, hClient]

theorem put_owns_self {h' : Heap (Block β)} {c' : Client β} :
    (s.put h' a c').owns a = blocks h' c' := by
  simp [State.owns, State.put]

theorem Inv.nodup (hInv : Inv s) (hClient : s.clients a = some c) :
    (blocks s.heap c).Nodup := by
  rw [← owns_of_client hClient]
  exact hInv.table.nodup a

end Owns

/-! ## What an event leaves alone -/

theorem Inv.absent_of_free {s : State β} (hInv : Inv s) {a : Nat}
    (hFree : s.heap.cell a = none) : s.clients a = none := by
  cases hClient : s.clients a with
  | none => rfl
  | some c =>
      obtain ⟨n, hCell⟩ := hInv.handles a c hClient
      rw [hFree] at hCell
      cases hCell

theorem Inv.malloc_elsewhere {s : State β} (hInv : Inv s) {addr : Nat}
    (hFree : s.heap.cell addr = none) (blk : Block β) (j : Nat) :
    ∀ x ∈ s.owns j, (s.heap.malloc addr blk).cell x = s.heap.cell x := by
  intro x hx
  have hxa : x ≠ addr := by
    rintro rfl
    exact not_live_of_free hFree (hInv.table.live_of_mem hx)
  rw [malloc_cell, Function.update_of_ne hxa]

/-- An effect on one client does not reach the blocks of another. -/
theorem Inv.effect_elsewhere {s : State β} (hInv : Inv s) {a : Nat}
    {c c' : Client β} {e : Event β} {h' : Heap (Block β)}
    (hClient : s.clients a = some c) (hEffect : Effect s.heap c e h' c') (j : Nat)
    (hj : j ≠ a) : ∀ x ∈ s.owns j, h'.cell x = s.heap.cell x := by
  intro x hx
  apply hEffect.within.cell_eq
  rintro (hFree | hMine)
  · exact not_live_of_free hFree (hInv.table.live_of_mem hx)
  · rw [← owns_of_client hClient] at hMine
    exact hj (hInv.table.disjoint j a x hx hMine)

/-- An effect leaves every handle where it is. -/
theorem Inv.effect_handle {s : State β} (hInv : Inv s) {a : Nat} {c c' : Client β}
    {e : Event β} {h' : Heap (Block β)} (hClient : s.clients a = some c)
    (hEffect : Effect s.heap c e h' c') {j : Nat} {d : Client β}
    (hd : s.clients j = some d) : h'.cell j = s.heap.cell j := by
  obtain ⟨n, hCell⟩ := hInv.handles j d hd
  apply hEffect.within.cell_eq
  -- a handle is neither free nor one of the client's blocks
  rintro (hFree | hMine)
  · rw [hFree] at hCell
    cases hCell
  · obtain ⟨blk, hBlock, hKind⟩ := live_of_mem_blocks (hInv.clients a c hClient) hMine
    rw [hCell] at hBlock
    cases hBlock
    cases hKind

/-- What a client owns does not move when the heap changes elsewhere. -/
private theorem put_others {s : State β} {a : Nat} {h' : Heap (Block β)}
    (c' : Client β) (hInv : Inv s)
    (hElse : ∀ j, j ≠ a → ∀ x ∈ s.owns j, h'.cell x = s.heap.cell x) :
    ∀ j, j ≠ a → (s.put h' a c').owns j = s.owns j ∧
      ∀ d, (s.put h' a c').clients j = some d → ClientOk h' d := by
  intro j hj
  have hSame := put_clients_of_ne s h' c' hj
  simp only [State.owns, hSame]
  cases hClient : s.clients j with
  | none => simp
  | some d =>
      have hBlocks := hElse j hj
      rw [owns_of_client hClient] at hBlocks
      obtain ⟨hOk, hEq⟩ := (hInv.clients j d hClient).frame hBlocks
      refine ⟨hEq, ?_⟩
      intro d' hd'
      cases hd'
      exact hOk

theorem init_inv : Inv (State.init : State β) where
  wf := empty_wf
  fault := rfl
  handles := by intro a c hClient; cases hClient
  clients := by intro a c hClient; cases hClient
  table :=
    { nodup := fun _ => List.nodup_nil
      disjoint := by intro i j x hx; cases hx
      covers := by
        intro x
        constructor
        · rintro ⟨d, hd, -⟩
          cases hd
        · rintro ⟨i, hx⟩
          cases hx }

private theorem connected_inv {s : State β} (hInv : Inv s) {handle : Nat}
    {phase : Phase} (hFree : s.heap.cell handle = none) :
    Inv (s.put (s.heap.malloc handle .tcp) handle (Client.fresh phase)) := by
  have hOthers := put_others (Client.fresh phase) hInv
    fun j (_ : j ≠ handle) => hInv.malloc_elsewhere hFree .tcp j
  have hNone : s.owns handle = [] := by
    simp [State.owns, hInv.absent_of_free hFree]
  have hFresh : blocks (s.heap.malloc handle .tcp)
      (Client.fresh phase : Client β) = [] := rfl
  refine
    { wf := hInv.wf.malloc hFree _
      fault := hInv.fault
      handles := ?_
      clients := ?_
      table := ?_ }
  · intro a c hClient
    by_cases ha : a = handle
    · subst ha
      exact ⟨s.heap.mallocs, by simp [State.put]⟩
    · rw [put_clients_of_ne _ _ _ ha] at hClient
      obtain ⟨n, hCell⟩ := hInv.handles a c hClient
      exact ⟨n, by simp [State.put, Function.update_of_ne ha, hCell]⟩
  · intro a c hClient
    by_cases ha : a = handle
    · subst ha
      rw [put_clients_self] at hClient
      cases hClient
      exact
        { held := by intro b hb; cases hb
          queued := by intro r hr; cases hr
          completed := by intro r hr; cases hr
          closed := fun _ => rfl }
    · exact (hOthers a ha).2 c hClient
  · refine hInv.table.trade (i := handle) ?_ (fun j hj => (hOthers j hj).1)
    rw [put_owns_self, hFresh, hNone]
    exact Trade.permute List.nodup_nil (by simp) (List.Perm.refl _)
      (live_malloc_tcp hFree)

private theorem effect_inv {s : State β} (hInv : Inv s) {a : Nat}
    {c c' : Client β} {e : Event β} {h' : Heap (Block β)}
    (hClient : s.clients a = some c) (hEffect : Effect s.heap c e h' c') :
    Inv (s.put h' a c') := by
  have hMoves := hEffect.moves (hInv.clients a c hClient) (hInv.nodup hClient)
  have hWithin := hEffect.within
  have hOthers := put_others c' hInv (hInv.effect_elsewhere hClient hEffect)
  refine
    { wf := hWithin.wf hInv.wf
      fault := by rw [← hInv.fault]; exact hWithin.fault
      handles := ?_
      clients := ?_
      table := ?_ }
  · intro j d hd
    have hOld : ∃ d', s.clients j = some d' := by
      by_cases hj : j = a
      · subst hj
        exact ⟨c, hClient⟩
      · rw [put_clients_of_ne _ _ _ hj] at hd
        exact ⟨d, hd⟩
    obtain ⟨d', hOld⟩ := hOld
    obtain ⟨n, hCell⟩ := hInv.handles j d' hOld
    exact ⟨n, (hInv.effect_handle hClient hEffect hOld).trans hCell⟩
  · intro j d hd
    by_cases hj : j = a
    · subst hj
      rw [put_clients_self] at hd
      cases hd
      exact hMoves.ok
    · exact (hOthers j hj).2 d hd
  · refine hInv.table.trade (i := a) ?_ (fun j hj => (hOthers j hj).1)
    rw [put_owns_self, owns_of_client hClient]
    exact hMoves.trade

/-- **Every enabled event keeps the invariant.** -/
theorem step_inv {s s' : State β} {e : Event β} (hInv : Inv s)
    (hStep : step s e = some s') : Inv s' := by
  rcases step_cases hInv.clients hStep with
    ⟨status, handle, accepted, -, -, rfl⟩ |
    ⟨status, handle, accepted, phase, -, -, hFree, -, rfl⟩ |
    ⟨a, c, h', c', -, hClient, hEffect, rfl⟩
  · exact hInv
  · exact connected_inv hInv hFree
  · exact effect_inv hInv hClient hEffect

/-! ## Which call allocated a block -/

/-- The three places that call `malloc`. -/
inductive Site where
  | handle
  | buffer
  | request
  deriving Repr, DecidableEq

def Event.malloc? : Event β → Option Site
  | .newConnection status _ _ => if status < 0 then none else some .handle
  | .allocCb _ _ _ => some .buffer
  | .readData _ _ _ => some .request
  | _ => none

/-- The call sites of a run's allocations, by serial number. -/
def sites (evs : List (Event β)) : List Site := evs.filterMap Event.malloc?

theorem sites_snoc (evs : List (Event β)) (e : Event β) :
    sites (evs ++ [e]) = sites evs ++ e.malloc?.toList := by
  simp only [sites, List.filterMap_append]
  cases hSite : e.malloc? <;> simp [hSite]

/-- What the events say about the heap's serial numbers. -/
structure Recorded (evs : List (Event β)) (s : State β) : Prop where
  inv : Inv s
  mallocs : s.heap.mallocs = (sites evs).length
  tcp : ∀ a n, s.heap.cell a = some ⟨n, .tcp⟩ → (sites evs)[n]? = some .handle

theorem Effect.mallocs {h h' : Heap (Block β)} {c c' : Client β} {e : Event β}
    (hEffect : Effect h c e h' c') :
    h'.mallocs = h.mallocs + e.malloc?.toList.length := by
  cases hEffect with
  | allocated hPhase hHeld hFree => rfl
  | echoed hPhase hHeld hData hPos hLen hFree =>
      obtain ⟨n, hCell⟩ := dataAt_eq_some.1 hData
      rw [malloc_mallocs, store_mallocs _ hCell]
      rfl
  | readNothing hPhase hHeld hData =>
      obtain ⟨n, hCell⟩ := dataAt_eq_some.1 hData
      exact freeAt_mallocs hCell
  | stoppedHeld hPhase hHeld hData =>
      obtain ⟨n, hCell⟩ := dataAt_eq_some.1 hData
      exact freeAt_mallocs hCell
  | stoppedBare hPhase hHeld => rfl
  | wrotePart hPhase hQueue hReq hLt =>
      obtain ⟨n, hCell⟩ := requestAt_eq_some.1 hReq.req
      exact store_mallocs _ hCell
  | wroteAll hPhase hQueue hReq => rfl
  | writeFailed hPhase hQueue => rfl
  | calledBack hDone hReq =>
      obtain ⟨n, hBuf⟩ := dataAt_eq_some.1 hReq.block
      obtain ⟨m, hCell⟩ := requestAt_eq_some.1 hReq.after_free
      rw [freeAt_mallocs hCell]
      exact freeAt_mallocs hBuf
  | finished hPhase => rfl

theorem step_recorded {evs : List (Event β)} {s s' : State β} {e : Event β}
    (hRec : Recorded evs s) (hStep : step s e = some s') :
    Recorded (evs ++ [e]) s' := by
  have hInv := hRec.inv
  -- serial numbers already given out keep their call site
  have hOld : ∀ a n, s.heap.cell a = some ⟨n, .tcp⟩ →
      (sites (evs ++ [e]))[n]? = some .handle := by
    intro a n hCell
    have hLt : n < (sites evs).length := by
      rw [← hRec.mallocs]
      exact hInv.wf.liveLt a _ hCell
    rw [sites_snoc, List.getElem?_append_left hLt]
    exact hRec.tcp a n hCell
  refine { inv := step_inv hInv hStep, mallocs := ?_, tcp := ?_ }
  · rw [sites_snoc, List.length_append, ← hRec.mallocs]
    rcases step_cases hInv.clients hStep with
      ⟨status, handle, accepted, rfl, hStatus, rfl⟩ |
      ⟨status, handle, accepted, phase, rfl, hStatus, -, -, rfl⟩ |
      ⟨a, c, h', c', -, -, hEffect, rfl⟩
    · simp [Event.malloc?, hStatus]
    · have hNot : ¬ status < 0 := by omega
      simp [Event.malloc?, hNot, State.put]
    · exact hEffect.mallocs
  · rcases step_cases hInv.clients hStep with
      ⟨status, handle, accepted, rfl, hStatus, rfl⟩ |
      ⟨status, handle, accepted, phase, rfl, hStatus, -, -, rfl⟩ |
      ⟨a, c, h', c', -, -, hEffect, rfl⟩
    · exact hOld
    · intro x n hCell
      by_cases hx : x = handle
      · subst hx
        have hNot : ¬ status < 0 := by omega
        simp only [State.put, malloc_cell, Function.update_self, Option.some.injEq,
          Cell.mk.injEq, and_true] at hCell
        rw [sites_snoc, ← hCell, hRec.mallocs]
        simp [Event.malloc?, hNot]
      · simp only [State.put, malloc_cell, Function.update_of_ne hx] at hCell
        exact hOld x n hCell
    · intro x n hCell
      rcases hEffect.within.content hCell with hSame | hKind
      · exact hOld x n hSame
      · cases hKind

theorem run_recorded {evs : List (Event β)} {s : State β}
    (hRun : run step State.init evs = some s) : Recorded evs s := by
  refine run_invariant_from step (P := Recorded) ?_ ?_ hRun
  · exact
      { inv := init_inv
        mallocs := rfl
        tcp := by intro a n hCell; cases hCell }
  · intro hist s e s' hRec hStep
    exact step_recorded hRec hStep

/-! ## Where a block can be -/

inductive Fate where
  /-- Held by the ongoing read of a client. -/
  | reading (client : Nat)
  /-- Owned by a request of a client whose callback has not run. -/
  | writing (client req : Nat)
  | freed
  deriving Repr, DecidableEq

/-- Serial number `n` is the number of the block at `x`. -/
def serialAt (h : Heap (Block β)) (x n : Nat) : Prop :=
  ∃ d, h.cell x = some d ∧ d.serial = n

def State.HasFate (s : State β) (n : Nat) : Fate → Prop
  | .reading a => ∃ c b, s.clients a = some c ∧ c.held = some b ∧ serialAt s.heap b n
  | .writing a r => ∃ c x, s.clients a = some c ∧ r ∈ c.pending ∧
      x ∈ reqBlocks s.heap r ∧ serialAt s.heap x n
  | .freed => n ∈ s.heap.freed

section Fates

variable {s : State β} {n : Nat}

/-- Two requests of one client share no block. -/
private theorem request_unique {h : Heap (Block β)} {c : Client β}
    (hNodup : (blocks h c).Nodup) {r r' x : Nat} (hr : r ∈ c.pending)
    (hr' : r' ∈ c.pending) (hx : x ∈ reqBlocks h r) (hx' : x ∈ reqBlocks h r') :
    r = r' := by
  have hFlat := (List.nodup_append.1 hNodup).2.1
  rw [List.nodup_flatMap] at hFlat
  have : Std.Symm (Function.onFun List.Disjoint (reqBlocks h)) :=
    ⟨fun _ _ hDisjoint _ hx hx' => hDisjoint hx' hx⟩
  by_contra hNe
  exact hFlat.2.forall hr hr' hNe hx hx'

/-- The buffer of the ongoing read belongs to no request. -/
private theorem held_not_request {h : Heap (Block β)} {c : Client β}
    (hNodup : (blocks h c).Nodup) {r b : Nat} (hHeld : c.held = some b)
    (hr : r ∈ c.pending) : b ∉ reqBlocks h r := by
  rw [blocks_of_held hHeld, List.nodup_cons] at hNodup
  intro hx
  exact hNodup.1 (List.mem_flatMap.2 ⟨r, hr, hx⟩)

/-- A fate other than `freed` is a place in one client's list. -/
inductive Place (h : Heap (Block β)) (a : Nat) (c : Client β) (x : Nat) :
    Fate → Prop where
  | reading (hHeld : c.held = some x) : Place h a c x (.reading a)
  | writing {r : Nat} (hr : r ∈ c.pending) (hx : x ∈ reqBlocks h r) :
      Place h a c x (.writing a r)

private theorem fate_cases {f : Fate} (hFate : s.HasFate n f) :
    (f = .freed ∧ n ∈ s.heap.freed) ∨
      ∃ a c x, s.clients a = some c ∧ serialAt s.heap x n ∧ Place s.heap a c x f := by
  cases f with
  | freed => exact Or.inl ⟨rfl, hFate⟩
  | reading a =>
      obtain ⟨c, b, hClient, hHeld, hSerial⟩ := hFate
      exact Or.inr ⟨a, c, b, hClient, hSerial, Place.reading hHeld⟩
  | writing a r =>
      obtain ⟨c, x, hClient, hr, hx, hSerial⟩ := hFate
      exact Or.inr ⟨a, c, x, hClient, hSerial, Place.writing hr hx⟩

private theorem Place.mem {a x : Nat} {c : Client β} {f : Fate}
    (hPlace : Place s.heap a c x f) : x ∈ blocks s.heap c := by
  cases hPlace with
  | reading hHeld => simp [blocks, hHeld]
  | writing hr hx =>
      exact List.mem_append_right _ (List.mem_flatMap.2 ⟨_, hr, hx⟩)

private theorem Place.unique {a x : Nat} {c : Client β} {f f' : Fate}
    (hNodup : (blocks s.heap c).Nodup) (hPlace : Place s.heap a c x f)
    (hPlace' : Place s.heap a c x f') : f = f' := by
  cases hPlace with
  | reading hHeld =>
      cases hPlace' with
      | reading hHeld' => rfl
      | writing hr' hx' => exact absurd hx' (held_not_request hNodup hHeld hr')
  | writing hr hx =>
      cases hPlace' with
      | reading hHeld' => exact absurd hx (held_not_request hNodup hHeld' hr)
      | writing hr' hx' => rw [request_unique hNodup hr hr' hx hx']

private theorem fate_unique (hInv : Inv s) {f f' : Fate} (hFate : s.HasFate n f)
    (hFate' : s.HasFate n f') : f = f' := by
  have hNotBoth : ∀ {x}, n ∈ s.heap.freed → ¬ serialAt s.heap x n := by
    rintro x hFreed ⟨d, hCell, rfl⟩
    exact hInv.wf.liveNotFreed x d hCell hFreed
  rcases fate_cases hFate with ⟨rfl, hFreed⟩ | ⟨a, c, x, hClient, hSerial, hPlace⟩
  · rcases fate_cases hFate' with ⟨rfl, -⟩ | ⟨a', c', x', -, hSerial', -⟩
    · rfl
    · exact absurd hSerial' (hNotBoth hFreed)
  · rcases fate_cases hFate' with
      ⟨rfl, hFreed⟩ | ⟨a', c', x', hClient', hSerial', hPlace'⟩
    · exact absurd hSerial (hNotBoth hFreed)
    · -- one serial number is one block, one block has one owner
      obtain ⟨d, hCell, hd⟩ := hSerial
      obtain ⟨d', hCell', hd'⟩ := hSerial'
      have hxx : x = x' := hInv.wf.liveInj x x' d d' hCell hCell' (hd.trans hd'.symm)
      subst hxx
      have haa : a = a' := by
        apply hInv.table.disjoint a a' x
        · rw [owns_of_client hClient]
          exact hPlace.mem
        · rw [owns_of_client hClient']
          exact hPlace'.mem
      subst haa
      rw [hClient] at hClient'
      cases hClient'
      exact hPlace.unique (hInv.nodup hClient) hPlace'

private theorem fate_exists {evs : List (Event β)} (hRec : Recorded evs s)
    {site : Site} (hSite : (sites evs)[n]? = some site) (hNot : site ≠ .handle) :
    ∃ f, s.HasFate n f := by
  have hInv := hRec.inv
  have hLt : n < s.heap.mallocs := by
    rw [hRec.mallocs]
    exact (List.getElem?_eq_some_iff.1 hSite).1
  rcases hInv.wf.accounted n hLt with hFreed | ⟨x, ⟨m, blk⟩, hCell, rfl⟩
  · exact ⟨.freed, hFreed⟩
  · have hLive : Live s.heap x := by
      refine ⟨_, hCell, ?_⟩
      cases blk with
      | tcp =>
          rw [hRec.tcp x m hCell] at hSite
          cases hSite
          exact absurd rfl hNot
      | data bytes => rfl
      | writeReq w => rfl
    obtain ⟨a, hx⟩ := (hInv.table.covers x).1 hLive
    cases hClient : s.clients a with
    | none =>
        rw [State.owns, hClient] at hx
        cases hx
    | some c =>
        rw [owns_of_client hClient] at hx
        rcases List.mem_append.1 hx with hHeld | hReq
        · rw [Option.mem_toList] at hHeld
          exact ⟨.reading a, c, x, hClient, hHeld, _, hCell, rfl⟩
        · obtain ⟨r, hr, hxr⟩ := List.mem_flatMap.1 hReq
          exact ⟨.writing a r, c, x, hClient, hr, hxr, _, hCell, rfl⟩

end Fates

/-! ## The account of a run -/

/-- What holds of the blocks of `alloc_buff` and `read_cb` after the events
`evs`. -/
structure Accounted (evs : List (Event β)) (s : State β) : Prop where
  /-- No pointer was freed that `malloc` had not returned or that was freed
  already, and no callback touched a block that was not live. -/
  noFault : s.heap.fault = false
  freedOnce : s.heap.freed.Nodup
  /-- Each block is held by one read, owned by one request, or freed. -/
  oneFate : ∀ n site, (sites evs)[n]? = some site → site ≠ .handle →
    ∃! f, s.HasFate n f
  /-- A request waits for one callback. -/
  requestsOnce : ∀ a c, s.clients a = some c → c.pending.Nodup
  /-- A request and the buffer it refers to stay live until the callback; what
  the callback will free is the start of the buffer, wherever libuv's copy
  points by then. -/
  referred : ∀ a c r, s.clients a = some c → r ∈ c.pending →
    ∃ w b bytes, requestAt s.heap r = some w ∧ w.buf.base = some ⟨b, 0⟩ ∧
      dataAt s.heap b = some bytes ∧ w.buf.len ≤ bytes.length ∧
      (r ∈ c.writeQueue → ∃ off, w.bufsml.base = some ⟨b, off⟩ ∧
        off + w.bufsml.len = w.buf.len)
  /-- Nothing is left once all clients are closed and called back. -/
  drained : (∀ a c, s.clients a = some c → c.phase = .closed ∧ c.completed = []) →
    ∀ n site, (sites evs)[n]? = some site → site ≠ .handle → n ∈ s.heap.freed

private theorem Inv.requestsOnce {s : State β} (hInv : Inv s) {a : Nat} {c : Client β}
    (hClient : s.clients a = some c) : c.pending.Nodup := by
  have hFlat := (List.nodup_append.1 (hInv.nodup hClient)).2.1
  rw [List.nodup_flatMap] at hFlat
  refine hFlat.2.imp ?_
  intro r r' hDisjoint hEq
  subst hEq
  exact hDisjoint (List.mem_cons_self ..) (List.mem_cons_self ..)

private theorem Inv.referred {s : State β} (hInv : Inv s) {a r : Nat} {c : Client β}
    (hClient : s.clients a = some c) (hr : r ∈ c.pending) :
    ∃ w b bytes, requestAt s.heap r = some w ∧ w.buf.base = some ⟨b, 0⟩ ∧
      dataAt s.heap b = some bytes ∧ w.buf.len ≤ bytes.length ∧
      (r ∈ c.writeQueue → ∃ off, w.bufsml.base = some ⟨b, off⟩ ∧
        off + w.bufsml.len = w.buf.len) := by
  have hOk := hInv.clients a c hClient
  obtain ⟨w, b, bytes, hReq⟩ := hOk.request hr
  refine ⟨w, b, bytes, hReq.req, hReq.base, hReq.block, hReq.len, ?_⟩
  intro hQueue
  obtain ⟨w', b', bytes', off, hQueued⟩ := hOk.queued r hQueue
  have hww : w' = w := Option.some.inj (hQueued.req.symm.trans hReq.req)
  subst hww
  have hbb : b' = b := by
    have hBase := hQueued.base.symm.trans hReq.base
    simpa using hBase
  subst hbb
  exact ⟨off, hQueued.copy, hQueued.total⟩

/-- **Buffer and request ownership.** After any run, over any number of
clients, every block that `alloc_buff` or `read_cb` allocated is accounted for
exactly once. -/
theorem blocks_accounted {evs : List (Event β)} {s : State β}
    (hRun : run step State.init evs = some s) : Accounted evs s := by
  have hRec := run_recorded hRun
  have hInv := hRec.inv
  refine
    { noFault := hInv.fault
      freedOnce := hInv.wf.freedNodup
      oneFate := ?_
      requestsOnce := fun a c hClient => hInv.requestsOnce hClient
      referred := fun a c r hClient hr => hInv.referred hClient hr
      drained := ?_ }
  · intro n site hSite hNot
    obtain ⟨f, hFate⟩ := fate_exists hRec hSite hNot
    exact ⟨f, hFate, fun f' hFate' => fate_unique hInv hFate' hFate⟩
  · intro hClosed n site hSite hNot
    obtain ⟨f, hFate⟩ := fate_exists hRec hSite hNot
    rcases fate_cases hFate with ⟨-, hFreed⟩ | ⟨a, c, x, hClient, -, hPlace⟩
    · exact hFreed
    · -- a closed client that has been called back owns nothing
      obtain ⟨hPhase, hDone⟩ := hClosed a c hClient
      have hOk := hInv.clients a c hClient
      cases hPlace with
      | reading hHeld =>
          rw [(hOk.held x hHeld).1] at hPhase
          cases hPhase
      | writing hr hx =>
          rw [Client.pending, hOk.closed hPhase, hDone] at hr
          cases hr

/-- Two clients, a partial write, a read that gives nothing, an end of stream
with a request still queued, and an address that is used again. -/
def busyRun : List (Event Nat) :=
  [.newConnection 0 1 true, .newConnection 0 2 true,
    .allocCb 1 10 [0, 0, 0, 0], .readData 1 [7, 8, 9] 11,
    .allocCb 2 20 [0, 0], .readAgain 2, .written 1 2,
    .allocCb 2 20 [5, 5], .readData 2 [6] 21, .written 2 1, .writeCb 2,
    .allocCb 1 20 [4], .readStop 1 uvEof true, .finishClose 1, .writeCb 1,
    .readStop 2 (-104) false, .finishClose 2]

theorem blocks_accounted_busyRun :
    ∃ s, run step State.init busyRun = some s ∧ Accounted busyRun s ∧
      s.heap.mallocs = 8 ∧ s.heap.freed.length = 6 := by
  have hSome : (run step State.init busyRun).isSome = true := by decide +kernel
  obtain ⟨s, hs⟩ := Option.isSome_iff_exists.1 hSome
  have hCount : (run step State.init busyRun).map
      (fun s => (s.heap.mallocs, s.heap.freed.length)) = some (8, 6) := by
    decide +kernel
  rw [hs] at hCount
  simp only [Option.map_some, Option.some.injEq, Prod.mk.injEq] at hCount
  exact ⟨s, hs, blocks_accounted hs, hCount⟩

end MGServer.Ports.EchoServer
