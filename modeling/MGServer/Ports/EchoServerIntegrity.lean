import MGServer.Ports.EchoServerLedger
import Mathlib.Algebra.Ring.Nat

/-!
# The bytes the echo server sends

A read hands its buffer to a write request without copying, and the bytes
leave the buffer only when the socket takes them, in pieces.  What a request
still has to send is therefore what the heap holds at that moment.  The
ownership invariant says that no other event can have changed it, and so what
a client was sent plus what its write queue still holds is what it sent us,
for as long as no write has failed.
-/

namespace MGServer.Ports.EchoServer

open MGServer.Verified.BlockHeap
open MGServer.Verified.Transition

variable {β : Type}

/-- What a queued request would still send, read from the heap as it is. -/
def unsent (h : Heap (Block β)) (r : Nat) : List β :=
  match requestAt h r with
  | some w => (readAt h w.bufsml.base w.bufsml.len).getD []
  | none => []

def backlog (h : Heap (Block β)) (c : Client β) : List β :=
  c.writeQueue.flatMap (unsent h)

section Backlog

variable {h h' : Heap (Block β)} {c c' : Client β} {r b off : Nat} {w : WriteReq}
  {bytes : List β}

theorem Queued.unsent_eq (hReq : Queued h r w b bytes off) :
    unsent h r = (bytes.drop off).take w.bufsml.len := by
  have hFits : off + w.bufsml.len ≤ bytes.length := by
    rw [hReq.total]
    exact hReq.len
  simp only [unsent, hReq.req]
  rw [hReq.copy, readAt_eq, hReq.block]
  simp [hFits]

theorem Queued.unsent_length (hReq : Queued h r w b bytes off) :
    (unsent h r).length = w.bufsml.len := by
  have hTotal := hReq.total
  have hLen := hReq.len
  rw [hReq.unsent_eq, List.length_take, List.length_drop]
  omega

theorem unsent_kept (hOk : ClientOk h c) (hr : r ∈ c.writeQueue)
    (hKept : Kept h h' r) : unsent h' r = unsent h r := by
  obtain ⟨w, b, bytes, off, hReq⟩ := hOk.queued r hr
  rw [hReq.unsent_eq, (hKept.queued hReq).unsent_eq]

/-- Requests of the queue that are left alone still hold the same bytes. -/
theorem unsent_flatMap_kept (hOk : ClientOk h c) (rs : List Nat)
    (hSub : ∀ r ∈ rs, r ∈ c.writeQueue) (hKept : ∀ r ∈ rs, Kept h h' r) :
    rs.flatMap (unsent h') = rs.flatMap (unsent h) := by
  apply List.flatMap_congr
  intro r hr
  exact unsent_kept hOk (hSub r hr) (hKept r hr)

theorem backlog_kept (hOk : ClientOk h c) (hQueue : c'.writeQueue = c.writeQueue)
    (hKept : ∀ r ∈ c.pending, Kept h h' r) : backlog h' c' = backlog h c := by
  unfold backlog
  rw [hQueue]
  exact unsent_flatMap_kept hOk _ (fun _ hr => hr)
    fun r hr => hKept r (List.mem_append_left _ hr)

theorem backlog_cons {queue : List Nat} (hQueue : c.writeQueue = r :: queue) :
    backlog h c = unsent h r ++ queue.flatMap (unsent h) := by
  simp [backlog, hQueue]

end Backlog

/-- What a client has been sent, against what it sent us. -/
structure Faithful (h : Heap (Block β)) (c : Client β) : Prop where
  submitted : c.submitted = c.delivered
  /-- Sent and still queued: all of it, in order, until a write fails. -/
  intact : c.failedAt = none → c.phase ≠ .closed →
    c.wire ++ backlog h c = c.delivered
  /-- After a failed write something is missing for good. -/
  lost : ∀ k, c.failedAt = some k → k ≤ c.wire.length ∧
    (c.wire ++ backlog h c).length < c.delivered.length
  sent : c.wire.take (c.failedAt.getD c.wire.length) <+: c.delivered
  /-- No byte of anybody else, before or after a failure. -/
  own : (c.wire ++ backlog h c).Sublist c.delivered

section Effects

variable {h h' : Heap (Block β)} {c c' : Client β} {e : Event β}

/-- Effects that send nothing and leave the queue as it is. -/
private theorem Faithful.still (hFaith : Faithful h c)
    (hBacklog : backlog h' c' = backlog h c) (hWire : c'.wire = c.wire)
    (hDel : c'.delivered = c.delivered) (hSub : c'.submitted = c.submitted)
    (hFail : c'.failedAt = c.failedAt)
    (hPhase : c'.phase ≠ .closed → c.phase ≠ .closed) : Faithful h' c' where
  submitted := by rw [hSub, hDel, hFaith.submitted]
  intact := by
    intro hNone hOpen
    rw [hFail] at hNone
    rw [hWire, hBacklog, hDel]
    exact hFaith.intact hNone (hPhase hOpen)
  lost := by
    intro k hk
    rw [hFail] at hk
    rw [hWire, hBacklog, hDel]
    exact hFaith.lost k hk
  sent := by
    rw [hWire, hFail, hDel]
    exact hFaith.sent
  own := by
    rw [hWire, hBacklog, hDel]
    exact hFaith.own

/-- The socket takes the front of the backlog. -/
private theorem Faithful.took (hFaith : Faithful h c) {front : List β}
    (hBacklog : backlog h c = front ++ backlog h' c')
    (hOpen : c.phase ≠ .closed) (hWire : c'.wire = c.wire ++ front)
    (hDel : c'.delivered = c.delivered) (hSub : c'.submitted = c.submitted)
    (hFail : c'.failedAt = c.failedAt) : Faithful h' c' := by
  have hAll : c'.wire ++ backlog h' c' = c.wire ++ backlog h c := by
    rw [hWire, hBacklog, List.append_assoc]
  refine
    { submitted := by rw [hSub, hDel, hFaith.submitted]
      intact := ?_
      lost := ?_
      sent := ?_
      own := ?_ }
  · intro hNone _
    rw [hFail] at hNone
    rw [hAll, hDel]
    exact hFaith.intact hNone hOpen
  · intro k hk
    rw [hFail] at hk
    obtain ⟨hLe, hLt⟩ := hFaith.lost k hk
    rw [hAll, hDel]
    refine ⟨?_, hLt⟩
    rw [hWire, List.length_append]
    omega
  · rw [hFail, hDel]
    cases hNone : c.failedAt with
    | none =>
        -- nothing failed yet: the wire is the front of what was delivered
        have hIntact := hFaith.intact hNone hOpen
        rw [Option.getD_none, List.take_length, ← hIntact, ← hAll]
        exact List.prefix_append _ _
    | some k =>
        have hSent := hFaith.sent
        rw [hNone, Option.getD_some] at hSent
        rw [Option.getD_some, hWire,
          List.take_append_of_le_length (hFaith.lost k hNone).1]
        exact hSent
  · rw [hAll, hDel]
    exact hFaith.own

/-- The front request fails: what it had left is never sent. -/
private theorem Faithful.failed (hFaith : Faithful h c) {front : List β}
    (hBacklog : backlog h c = front ++ backlog h' c') (hFront : 0 < front.length)
    (hOpen : c.phase ≠ .closed) (hWire : c'.wire = c.wire)
    (hDel : c'.delivered = c.delivered) (hSub : c'.submitted = c.submitted)
    (hFail : c'.failedAt = c.failedAt.or (some c.wire.length)) : Faithful h' c' := by
  have hShort : (c.wire ++ backlog h' c').length < (c.wire ++ backlog h c).length := by
    rw [hBacklog]
    simp only [List.length_append]
    omega
  refine
    { submitted := by rw [hSub, hDel, hFaith.submitted]
      intact := ?_
      lost := ?_
      sent := ?_
      own := ?_ }
  · intro hNone
    rw [hFail] at hNone
    cases hOld : c.failedAt <;> simp [hOld] at hNone
  · intro k hk
    rw [hFail] at hk
    rw [hWire, hDel]
    cases hOld : c.failedAt with
    | none =>
        rw [hOld, Option.none_or, Option.some.injEq] at hk
        subst hk
        rw [← hFaith.intact hOld hOpen]
        exact ⟨Nat.le_refl _, hShort⟩
    | some k' =>
        rw [hOld, Option.some_or, Option.some.injEq] at hk
        subst hk
        obtain ⟨hLe, hLt⟩ := hFaith.lost k' hOld
        exact ⟨hLe, Nat.lt_trans hShort hLt⟩
  · rw [hFail, hWire, hDel]
    have hSent := hFaith.sent
    cases hOld : c.failedAt with
    | none =>
        rw [hOld] at hSent
        simpa using hSent
    | some k =>
        rw [hOld] at hSent
        simpa using hSent
  · rw [hWire, hDel]
    refine List.Sublist.trans ?_ hFaith.own
    rw [hBacklog]
    exact (List.sublist_append_right front _).append_left _

/-- A read arrives: its bytes are the new end of the backlog. -/
private theorem Faithful.arrived (hFaith : Faithful h c) {data : List β}
    (hBacklog : backlog h' c' = backlog h c ++ data) (hOpen : c.phase ≠ .closed)
    (hWire : c'.wire = c.wire) (hDel : c'.delivered = c.delivered ++ data)
    (hSub : c'.submitted = c.submitted ++ data)
    (hFail : c'.failedAt = c.failedAt) : Faithful h' c' where
  submitted := by rw [hSub, hDel, hFaith.submitted]
  intact := by
    intro hNone _
    rw [hFail] at hNone
    rw [hWire, hBacklog, hDel, ← hFaith.intact hNone hOpen, List.append_assoc]
  lost := by
    intro k hk
    rw [hFail] at hk
    obtain ⟨hLe, hLt⟩ := hFaith.lost k hk
    rw [hWire, hBacklog, hDel]
    refine ⟨hLe, ?_⟩
    simp only [List.length_append] at hLt ⊢
    omega
  sent := by
    rw [hWire, hFail, hDel]
    exact hFaith.sent.trans (List.prefix_append _ _)
  own := by
    rw [hWire, hBacklog, hDel, ← List.append_assoc]
    exact hFaith.own.append_right data

/-- The handle is finished off: what was queued is not sent. -/
private theorem Faithful.cancelled (hFaith : Faithful h c)
    (hQueue : c'.writeQueue = []) (hPhase : c'.phase = .closed)
    (hWire : c'.wire = c.wire) (hDel : c'.delivered = c.delivered)
    (hSub : c'.submitted = c.submitted) (hFail : c'.failedAt = c.failedAt) :
    Faithful h c' := by
  have hBacklog : backlog h c' = [] := by simp [backlog, hQueue]
  refine
    { submitted := by rw [hSub, hDel, hFaith.submitted]
      intact := fun _ hOpen => absurd hPhase hOpen
      lost := ?_
      sent := by rw [hWire, hFail, hDel]; exact hFaith.sent
      own := ?_ }
  · intro k hk
    rw [hFail] at hk
    obtain ⟨hLe, hLt⟩ := hFaith.lost k hk
    rw [hWire, hBacklog, hDel]
    refine ⟨hLe, ?_⟩
    simp only [List.length_append, List.length_nil] at hLt ⊢
    omega
  · rw [hWire, hBacklog, hDel, List.append_nil]
    exact (List.sublist_append_left _ _).trans hFaith.own

/-- **Every effect keeps the account of bytes.** -/
theorem Effect.faithful (hEffect : Effect h c e h' c') (hOk : ClientOk h c)
    (hNodup : (blocks h c).Nodup) (hFaith : Faithful h c) : Faithful h' c' := by
  have hOpen : c.phase = .opened → c.phase ≠ .closed := by
    intro hPhase hClosed
    rw [hPhase] at hClosed
    cases hClosed
  cases hEffect with
  | allocated hPhase hHeld hFree =>
      exact hFaith.still (backlog_kept hOk rfl (kept_malloc hOk hFree _)) rfl rfl
        rfl rfl (fun h => h)
  | echoed hPhase hHeld hData hPos hLen hFree =>
      obtain ⟨hNew, hKept⟩ := echoed_requests hOk hNodup hHeld hData hPos hFree
      refine hFaith.arrived ?_ (hOpen hPhase) rfl rfl rfl rfl
      have hOld := unsent_flatMap_kept hOk _ (fun _ hr => hr)
        fun r hr => hKept r (List.mem_append_left _ hr)
      simp only [backlog, List.flatMap_append, List.flatMap_cons, List.flatMap_nil,
        List.append_nil, hOld, hNew.unsent_eq]
      simp
  | readNothing hPhase hHeld hData =>
      exact hFaith.still (backlog_kept hOk rfl (kept_dropped hOk hNodup hHeld hData))
        rfl rfl rfl rfl (fun h => h)
  | stoppedHeld hPhase hHeld hData =>
      exact hFaith.still (backlog_kept hOk rfl (kept_dropped hOk hNodup hHeld hData))
        rfl rfl rfl rfl (fun _ => hOpen hPhase)
  | stoppedBare hPhase hHeld =>
      exact hFaith.still rfl rfl rfl rfl rfl (fun _ => hOpen hPhase)
  | @wrotePart a n r b off queue w bytes hPhase hQueue hReq hLt =>
      obtain ⟨hAdvanced, hKept⟩ := advanced_requests hNodup hQueue hReq hLt rfl
      refine hFaith.took ?_ (hOpen hPhase) rfl rfl rfl rfl
      have hRest := unsent_flatMap_kept hOk queue
        (fun q hq => by rw [hQueue]; exact List.mem_cons_of_mem _ hq)
        fun q hq => hKept q (List.mem_append_left _ hq)
      rw [backlog_cons hQueue, hReq.unsent_eq]
      show _ = _ ++ c.writeQueue.flatMap _
      rw [hQueue, List.flatMap_cons, hRest, hAdvanced.unsent_eq, ← List.append_assoc]
      congr 1
      show _ = (bytes.drop off).take n ++ (bytes.drop (off + n)).take (w.bufsml.len - n)
      rw [← List.drop_drop, ← List.take_add]
      congr 1
      omega
  | wroteAll hPhase hQueue hReq =>
      refine hFaith.took ?_ (hOpen hPhase) rfl rfl rfl rfl
      rw [backlog_cons hQueue, hReq.unsent_eq]
      rfl
  | @writeFailed a r queue status hPhase hQueue =>
      obtain ⟨w, b, bytes, off, hReq⟩ := hOk.queued r (by rw [hQueue]; simp)
      have hFront : 0 < (unsent h r).length := by
        rw [hReq.unsent_length]
        exact hReq.left
      refine hFaith.failed ?_ hFront (hOpen hPhase) rfl rfl rfl rfl
      rw [backlog_cons hQueue]
      rfl
  | calledBack hDone hReq =>
      refine hFaith.still ?_ rfl rfl rfl rfl (fun h => h)
      have hKept := kept_calledBack hNodup hDone hReq
      exact unsent_flatMap_kept hOk _ (fun _ hr => hr)
        fun q hq => hKept q (List.mem_append_left _ hq)
  | finished hPhase => exact hFaith.cancelled rfl rfl rfl rfl rfl rfl

end Effects

/-! ## What the events say -/

/-- The bytes a positive read delivers. -/
def Event.data : Event β → List β
  | .readData _ data _ => data
  | _ => []

/-- The number of bytes the socket takes. -/
def Event.accepted : Event β → Nat
  | .written _ n => n
  | _ => 0

def ofClient (a : Nat) (evs : List (Event β)) : List (Event β) :=
  evs.filter fun e => e.client? = some a

/-- The bytes a client's positive `read_cb` calls delivered, in order. -/
def deliveredBy (a : Nat) (evs : List (Event β)) : List β :=
  (ofClient a evs).flatMap Event.data

/-- How many bytes the client's socket has taken. -/
def acceptedBy (a : Nat) (evs : List (Event β)) : Nat :=
  ((ofClient a evs).map Event.accepted).sum

section Logs

variable {a : Nat} {evs : List (Event β)} {e : Event β}

theorem deliveredBy_snoc (hE : e.client? = some a) :
    deliveredBy a (evs ++ [e]) = deliveredBy a evs ++ e.data := by
  simp [deliveredBy, ofClient, hE]

theorem acceptedBy_snoc (hE : e.client? = some a) :
    acceptedBy a (evs ++ [e]) = acceptedBy a evs + e.accepted := by
  simp [acceptedBy, ofClient, hE]

theorem ofClient_snoc_other (hE : e.client? ≠ some a) :
    ofClient a (evs ++ [e]) = ofClient a evs := by
  simp [ofClient, hE]

variable {h h' : Heap (Block β)} {c c' : Client β}

theorem Effect.delivered (hEffect : Effect h c e h' c') :
    c'.delivered = c.delivered ++ e.data := by
  cases hEffect <;> simp [Event.data]

theorem Effect.wire_length (hEffect : Effect h c e h' c') :
    c'.wire.length = c.wire.length + e.accepted := by
  cases hEffect with
  | @wrotePart a n r b off queue w bytes hPhase hQueue hReq hLt =>
      have hTotal := hReq.total
      have hLen := hReq.len
      simp only [Event.accepted, List.length_append, List.length_take, List.length_drop]
      omega
  | @wroteAll a r b off queue w bytes hPhase hQueue hReq =>
      have hTotal := hReq.total
      have hLen := hReq.len
      simp only [Event.accepted, List.length_append, List.length_take, List.length_drop]
      omega
  | _ => simp [Event.accepted]

end Logs

/-- The account of a client that the events give: its bytes are faithful and
its logs are what happened. -/
structure ClientLog (evs : List (Event β)) (a : Nat) (h : Heap (Block β))
    (c : Client β) : Prop where
  faithful : Faithful h c
  delivered : c.delivered = deliveredBy a evs
  wire : c.wire.length = acceptedBy a evs

structure Logged (evs : List (Event β)) (s : State β) : Prop where
  inv : Inv s
  clients : ∀ a c, s.clients a = some c → ClientLog evs a s.heap c
  /-- Nothing happens to a client before it exists. -/
  absent : ∀ a, s.clients a = none → ofClient a evs = []

theorem Faithful.frame {h h' : Heap (Block β)} {c : Client β} (hOk : ClientOk h c)
    (hFaith : Faithful h c) (hSame : ∀ x ∈ blocks h c, h'.cell x = h.cell x) :
    Faithful h' c := by
  refine hFaith.still (backlog_kept hOk rfl ?_) rfl rfl rfl rfl (fun h => h)
  intro r hr x hx
  exact hSame x (List.mem_append_right _ (List.mem_flatMap.2 ⟨r, hr, hx⟩))

/-- The log of a client the event is not about. -/
private theorem ClientLog.other {evs : List (Event β)} {e : Event β} {a : Nat}
    {h h' : Heap (Block β)} {c : Client β} (hLog : ClientLog evs a h c)
    (hOk : ClientOk h c) (hSame : ∀ x ∈ blocks h c, h'.cell x = h.cell x)
    (hE : e.client? ≠ some a) : ClientLog (evs ++ [e]) a h' c where
  faithful := hLog.faithful.frame hOk hSame
  delivered := by rw [deliveredBy, ofClient_snoc_other hE, hLog.delivered, deliveredBy]
  wire := by rw [acceptedBy, ofClient_snoc_other hE, hLog.wire, acceptedBy]

private theorem fresh_log {evs : List (Event β)} {a : Nat} {h : Heap (Block β)}
    {phase : Phase} (hNone : ofClient a evs = []) :
    ClientLog evs a h (Client.fresh phase) where
  faithful :=
    { submitted := rfl
      intact := fun _ _ => rfl
      lost := by intro k hk; cases hk
      sent := List.nil_prefix
      own := List.Sublist.refl _ }
  delivered := by rw [deliveredBy, hNone]; rfl
  wire := by rw [acceptedBy, hNone]; rfl

/-- No event is about a client that does not exist, and none removes one. -/
theorem absent_before {s s' : State β} {e : Event β} {j : Nat}
    (hOk : ∀ a c, s.clients a = some c → ClientOk s.heap c)
    (hStep : step s e = some s') (hNone : s'.clients j = none) :
    s.clients j = none ∧ e.client? ≠ some j := by
  rcases step_cases hOk hStep with
    ⟨status, handle, accepted, rfl, -, rfl⟩ |
    ⟨status, handle, accepted, phase, rfl, -, hFree, -, rfl⟩ |
    ⟨a, c, h', c', hE, hClient, hEffect, rfl⟩
  · exact ⟨hNone, by simp [Event.client?]⟩
  · have hj : j ≠ handle := by
      rintro rfl
      rw [put_clients_self] at hNone
      cases hNone
    rw [put_clients_of_ne _ _ _ hj] at hNone
    exact ⟨hNone, by simp [Event.client?]⟩
  · have hj : j ≠ a := by
      rintro rfl
      rw [put_clients_self] at hNone
      cases hNone
    rw [put_clients_of_ne _ _ _ hj] at hNone
    refine ⟨hNone, ?_⟩
    rw [hE]
    intro hEq
    exact hj (Option.some.inj hEq).symm

theorem step_logged {evs : List (Event β)} {s s' : State β} {e : Event β}
    (hLogged : Logged evs s) (hStep : step s e = some s') :
    Logged (evs ++ [e]) s' := by
  have hInv := hLogged.inv
  have hOther : ∀ j d h', s.clients j = some d →
      (∀ x ∈ s.owns j, h'.cell x = s.heap.cell x) → e.client? ≠ some j →
      ClientLog (evs ++ [e]) j h' d := by
    intro j d h' hd hSame hE
    rw [owns_of_client hd] at hSame
    exact (hLogged.clients j d hd).other (hInv.clients j d hd) hSame hE
  refine { inv := step_inv hInv hStep, clients := ?_, absent := ?_ }
  · rcases step_cases hInv.clients hStep with
      ⟨status, handle, accepted, rfl, -, rfl⟩ |
      ⟨status, handle, accepted, phase, rfl, -, hFree, -, rfl⟩ |
      ⟨a, c, h', c', hE, hClient, hEffect, rfl⟩
    · intro j d hd
      exact hOther j d s'.heap hd (fun _ _ => rfl) (by simp [Event.client?])
    · intro j d hd
      by_cases hj : j = handle
      · subst hj
        rw [put_clients_self] at hd
        cases hd
        apply fresh_log
        rw [ofClient_snoc_other (by simp [Event.client?])]
        exact hLogged.absent j (hInv.absent_of_free hFree)
      · rw [put_clients_of_ne _ _ _ hj] at hd
        exact hOther j d _ hd (hInv.malloc_elsewhere hFree .tcp j)
          (by simp [Event.client?])
    · intro j d hd
      by_cases hj : j = a
      · subst hj
        rw [put_clients_self] at hd
        cases hd
        have hLog := hLogged.clients j c hClient
        exact
          { faithful := hEffect.faithful (hInv.clients j c hClient)
              (hInv.nodup hClient) hLog.faithful
            delivered := by rw [hEffect.delivered, deliveredBy_snoc hE, hLog.delivered]
            wire := by rw [hEffect.wire_length, acceptedBy_snoc hE, hLog.wire] }
      · rw [put_clients_of_ne _ _ _ hj] at hd
        refine hOther j d _ hd (hInv.effect_elsewhere hClient hEffect j hj) ?_
        rw [hE]
        intro hEq
        exact hj (Option.some.inj hEq).symm
  · intro j hNone
    obtain ⟨hBefore, hE⟩ := absent_before hInv.clients hStep hNone
    rw [ofClient_snoc_other hE]
    exact hLogged.absent j hBefore

theorem run_logged {evs : List (Event β)} {s : State β}
    (hRun : run step State.init evs = some s) : Logged evs s := by
  refine run_invariant_from step (P := Logged) ?_ ?_ hRun
  · exact
      { inv := init_inv
        clients := by intro a c hClient; cases hClient
        absent := fun _ _ => rfl }
  · intro hist s e s' hLogged hStep
    exact step_logged hLogged hStep

/-- **Echo integrity.** After any run, what was submitted for a client is what
its reads delivered, what its socket took before the first failed write is a
prefix of that, and no byte of another client is in either: `origin` may mark
each byte with the client it was read from. -/
theorem echo_integrity {evs : List (Event β)} {s : State β}
    (hRun : run step State.init evs = some s) {a : Nat} {c : Client β}
    (hClient : s.clients a = some c) :
    c.submitted = deliveredBy a evs ∧
    c.wire.take (c.failedAt.getD c.wire.length) <+: deliveredBy a evs ∧
    ∀ origin : β → Nat,
      (∀ a' data addr, Event.readData a' data addr ∈ evs → ∀ x ∈ data, origin x = a') →
      (∀ x ∈ c.submitted, origin x = a) ∧ ∀ x ∈ c.wire, origin x = a := by
  have hLog := (run_logged hRun).clients a c hClient
  have hFaith := hLog.faithful
  have hSub : c.submitted = deliveredBy a evs := by
    rw [hFaith.submitted, hLog.delivered]
  refine ⟨hSub, ?_, ?_⟩
  · rw [← hLog.delivered]
    exact hFaith.sent
  · intro origin hOrigin
    have hAll : ∀ x ∈ deliveredBy a evs, origin x = a := by
      intro x hx
      obtain ⟨e, he, hxe⟩ := List.mem_flatMap.1 hx
      obtain ⟨hMem, hE⟩ := List.mem_filter.1 he
      cases e with
      | readData a' data addr =>
          simp only [Event.client?, Option.some.injEq, decide_eq_true_eq] at hE
          subst hE
          exact hOrigin a' data addr hMem x hxe
      | _ => cases hxe
    refine ⟨?_, ?_⟩
    · rw [hSub]
      exact hAll
    · intro x hx
      apply hAll
      rw [← hLog.delivered]
      exact hFaith.own.subset (List.mem_append_left _ hx)

/-- Two clients whose bytes carry their handle; the second reads into the
address the first one's buffer had. -/
def reuseRun : List (Event (Nat × Nat)) :=
  [.newConnection 0 1 true, .newConnection 0 2 true,
    .allocCb 1 10 [(0, 0), (0, 0)], .readData 1 [(1, 7), (1, 8)] 11,
    .written 1 1, .written 1 1, .writeCb 1,
    .allocCb 2 10 [(0, 0), (0, 0)], .readData 2 [(2, 9)] 12,
    .allocCb 1 13 [(0, 0)], .readData 1 [(1, 9)] 14, .writeError 1 (-32)]

theorem echo_integrity_reuseRun :
    ∃ s c, run step State.init reuseRun = some s ∧ s.clients 1 = some c ∧
      c.wire = [(1, 7), (1, 8)] ∧ c.failedAt = some 2 ∧
      c.submitted = deliveredBy 1 reuseRun ∧
      c.wire.take (c.failedAt.getD c.wire.length) <+: deliveredBy 1 reuseRun ∧
      (∀ x ∈ c.submitted, x.1 = 1) ∧ ∀ x ∈ c.wire, x.1 = 1 := by
  have hSome : ((run step State.init reuseRun).bind fun s => s.clients 1).isSome =
      true := by decide +kernel
  obtain ⟨c, hc⟩ := Option.isSome_iff_exists.1 hSome
  obtain ⟨s, hRun, hClient⟩ := Option.bind_eq_some_iff.1 hc
  have hLog : ((run step State.init reuseRun).bind fun s => s.clients 1).map
      (fun c => (c.wire, c.failedAt)) = some ([(1, 7), (1, 8)], some 2) := by
    decide +kernel
  rw [hc] at hLog
  simp only [Option.map_some, Option.some.injEq, Prod.mk.injEq] at hLog
  have hMarked : ∀ a data addr, .readData a data addr ∈ reuseRun →
    ∀ x ∈ data, x.1 = a := by
    intro a data addr hMem x hx
    simp only [reuseRun, List.mem_cons, List.not_mem_nil, or_false,
      reduceCtorEq, false_or, Event.readData.injEq] at hMem
    rcases hMem with ⟨rfl, rfl, -⟩ | ⟨rfl, rfl, -⟩ | ⟨rfl, rfl, -⟩ <;>
      revert x <;> decide
  obtain ⟨hSubmitted, hSent, hOwn⟩ := echo_integrity hRun hClient
  exact ⟨s, c, hRun, hClient, hLog.1, hLog.2, hSubmitted, hSent, hOwn Prod.fst hMarked⟩

end MGServer.Ports.EchoServer
