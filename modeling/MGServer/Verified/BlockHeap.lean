import Mathlib.Data.List.Nodup
import Mathlib.Logic.Function.Basic

/-!
# A `malloc`/`free` heap

Blocks live at addresses that the allocator chooses, and an address that was
freed may be handed out again.  Each allocation also gets a serial number that
is never used again, so that "this block" keeps its meaning when its address
is reused, and the heap remembers which serial numbers have been freed.

`free` of anything but the start address of a live block, and an access
outside a live block, raise `fault`: the model's stand-in for undefined
behaviour, never cleared.
-/

namespace MGServer.Verified.BlockHeap

/-- A pointer into a block. -/
structure Ptr where
  block : Nat
  offset : Nat
  deriving Repr, DecidableEq

structure Cell (B : Type) where
  serial : Nat
  content : B
  deriving Repr, DecidableEq

structure Heap (B : Type) where
  cell : Nat → Option (Cell B)
  mallocs : Nat
  freed : List Nat
  fault : Bool

variable {B : Type}

def Heap.empty : Heap B := ⟨fun _ => none, 0, [], false⟩

/-- `malloc` answered with address `a`, the new block holding `b`. -/
def Heap.malloc (h : Heap B) (a : Nat) (b : B) : Heap B :=
  { h with
    cell := Function.update h.cell a (some ⟨h.mallocs, b⟩)
    mallocs := h.mallocs + 1 }

/-- Overwrite the contents of the block at `a`. -/
def Heap.store (h : Heap B) (a : Nat) (b : B) : Heap B :=
  match h.cell a with
  | none => { h with fault := true }
  | some c => { h with cell := Function.update h.cell a (some { c with content := b }) }

/-- `free` of the start address of a block. -/
def Heap.freeAt (h : Heap B) (a : Nat) : Heap B :=
  match h.cell a with
  | none => { h with fault := true }
  | some c =>
      { h with
        cell := Function.update h.cell a none
        freed := h.freed ++ [c.serial] }

/-- `free(p)`: nothing for null, a fault for a pointer that `malloc` did not
return. -/
def Heap.free (h : Heap B) : Option Ptr → Heap B
  | none => h
  | some p => if p.offset = 0 then h.freeAt p.block else { h with fault := true }

/-! ## Field lemmas -/

section Fields

variable (h : Heap B) (a : Nat) (b : B)

@[simp] theorem malloc_cell : (h.malloc a b).cell =
    Function.update h.cell a (some ⟨h.mallocs, b⟩) := rfl

@[simp] theorem malloc_mallocs : (h.malloc a b).mallocs = h.mallocs + 1 := rfl

variable {h a} {c : Cell B} (hc : h.cell a = some c)
include hc

theorem store_eq : h.store a b =
    { h with cell := Function.update h.cell a (some { c with content := b }) } := by
  simp [Heap.store, hc]

theorem freeAt_eq : h.freeAt a =
    { h with
      cell := Function.update h.cell a none
      freed := h.freed ++ [c.serial] } := by
  simp [Heap.freeAt, hc]

theorem store_cell : (h.store a b).cell =
    Function.update h.cell a (some { c with content := b }) := by
  rw [store_eq b hc]

theorem store_fault : (h.store a b).fault = h.fault := by
  rw [store_eq b hc]

theorem store_mallocs : (h.store a b).mallocs = h.mallocs := by
  rw [store_eq b hc]

theorem freeAt_cell : (h.freeAt a).cell = Function.update h.cell a none := by
  rw [freeAt_eq hc]

theorem freeAt_fault : (h.freeAt a).fault = h.fault := by
  rw [freeAt_eq hc]

theorem freeAt_mallocs : (h.freeAt a).mallocs = h.mallocs := by
  rw [freeAt_eq hc]

/-- What was stored in a block is lost when the block is freed. -/
theorem store_freeAt : (h.store a b).freeAt a = h.freeAt a := by
  rw [store_eq b hc, freeAt_eq hc]
  simp [Heap.freeAt]

omit hc in
theorem free_start : h.free (some ⟨a, 0⟩) = h.freeAt a := rfl

omit hc in
/-- Storing into the block just allocated is allocating it so filled. -/
theorem malloc_store (b' : B) : (h.malloc a b).store a b' = h.malloc a b' := by
  simp [Heap.store, Heap.malloc]

end Fields

/-! ## Serial numbers -/

/-- Serial numbers are handed out once: below `mallocs`, each one is either
freed, once, or the number of exactly one live block. -/
structure Heap.WF (h : Heap B) : Prop where
  liveLt : ∀ a c, h.cell a = some c → c.serial < h.mallocs
  liveInj : ∀ a a' c c', h.cell a = some c → h.cell a' = some c' →
    c.serial = c'.serial → a = a'
  liveNotFreed : ∀ a c, h.cell a = some c → c.serial ∉ h.freed
  freedNodup : h.freed.Nodup
  freedLt : ∀ n ∈ h.freed, n < h.mallocs
  accounted : ∀ n, n < h.mallocs →
    n ∈ h.freed ∨ ∃ a c, h.cell a = some c ∧ c.serial = n

theorem empty_wf : (Heap.empty : Heap B).WF where
  liveLt := by intro a c h; cases h
  liveInj := by intro a a' c c' h; cases h
  liveNotFreed := by intro a c h; cases h
  freedNodup := List.nodup_nil
  freedLt := by intro n h; cases h
  accounted := by intro n h; exact absurd h (Nat.not_lt_zero n)

theorem Heap.WF.malloc {h : Heap B} (hw : h.WF) {a : Nat}
    (ha : h.cell a = none) (b : B) : (h.malloc a b).WF := by
  have hCell : ∀ x c, (h.malloc a b).cell x = some c →
      (x = a ∧ c = ⟨h.mallocs, b⟩) ∨ (x ≠ a ∧ h.cell x = some c) := by
    intro x c hx
    rw [malloc_cell] at hx
    by_cases hxa : x = a
    · subst hxa
      rw [Function.update_self] at hx
      exact Or.inl ⟨rfl, (Option.some.inj hx).symm⟩
    · rw [Function.update_of_ne hxa] at hx
      exact Or.inr ⟨hxa, hx⟩
  refine
    { liveLt := ?_
      liveInj := ?_
      liveNotFreed := ?_
      freedNodup := hw.freedNodup
      freedLt := ?_
      accounted := ?_ }
  · intro x c hx
    rcases hCell x c hx with ⟨-, rfl⟩ | ⟨-, hOld⟩
    · exact Nat.lt_succ_self _
    · exact Nat.lt_succ_of_lt (hw.liveLt x c hOld)
  · intro x x' c c' hx hx' hSerial
    rcases hCell x c hx with ⟨hxa, rfl⟩ | ⟨-, hOld⟩
    · rcases hCell x' c' hx' with ⟨hxa', -⟩ | ⟨-, hOld'⟩
      · exact hxa.trans hxa'.symm
      · have hLt := hw.liveLt x' c' hOld'
        simp only at hSerial
        omega
    · rcases hCell x' c' hx' with ⟨-, rfl⟩ | ⟨-, hOld'⟩
      · have hLt := hw.liveLt x c hOld
        simp only at hSerial
        omega
      · exact hw.liveInj x x' c c' hOld hOld' hSerial
  · intro x c hx
    rcases hCell x c hx with ⟨-, rfl⟩ | ⟨-, hOld⟩
    · intro hMem
      exact Nat.lt_irrefl _ (hw.freedLt _ hMem)
    · exact hw.liveNotFreed x c hOld
  · intro n hn
    exact Nat.lt_succ_of_lt (hw.freedLt n hn)
  · intro n hn
    by_cases hLast : n = h.mallocs
    · exact Or.inr ⟨a, ⟨h.mallocs, b⟩, by simp, hLast.symm⟩
    · have hLt : n < h.mallocs := by
        simp only [malloc_mallocs] at hn
        omega
      rcases hw.accounted n hLt with hFreed | ⟨x, c, hx, hSerial⟩
      · exact Or.inl hFreed
      · have hxa : x ≠ a := by
          rintro rfl
          rw [ha] at hx
          cases hx
        exact Or.inr ⟨x, c, by rw [malloc_cell, Function.update_of_ne hxa, hx],
          hSerial⟩

theorem Heap.WF.store {h : Heap B} (hw : h.WF) {a : Nat} {c₀ : Cell B}
    (ha : h.cell a = some c₀) (b : B) : (h.store a b).WF := by
  rw [store_eq b ha]
  have hCell : ∀ x c,
      Function.update h.cell a (some { c₀ with content := b }) x = some c →
      ∃ c', h.cell x = some c' ∧ c'.serial = c.serial := by
    intro x c hx
    by_cases hxa : x = a
    · subst hxa
      rw [Function.update_self] at hx
      cases hx
      exact ⟨c₀, ha, rfl⟩
    · rw [Function.update_of_ne hxa] at hx
      exact ⟨c, hx, rfl⟩
  refine
    { liveLt := ?_
      liveInj := ?_
      liveNotFreed := ?_
      freedNodup := hw.freedNodup
      freedLt := hw.freedLt
      accounted := ?_ }
  · intro x c hx
    obtain ⟨c', hOld, hSerial⟩ := hCell x c hx
    rw [← hSerial]
    exact hw.liveLt x c' hOld
  · intro x x' c c' hx hx' hEq
    obtain ⟨d, hOld, hSerial⟩ := hCell x c hx
    obtain ⟨d', hOld', hSerial'⟩ := hCell x' c' hx'
    exact hw.liveInj x x' d d' hOld hOld' (by rw [hSerial, hSerial', hEq])
  · intro x c hx
    obtain ⟨c', hOld, hSerial⟩ := hCell x c hx
    rw [← hSerial]
    exact hw.liveNotFreed x c' hOld
  · intro n hn
    rcases hw.accounted n hn with hFreed | ⟨x, c, hx, hSerial⟩
    · exact Or.inl hFreed
    · by_cases hxa : x = a
      · subst hxa
        rw [ha] at hx
        cases hx
        exact Or.inr ⟨x, { c₀ with content := b }, by simp, hSerial⟩
      · exact Or.inr ⟨x, c, by simpa [hxa] using hx, hSerial⟩

theorem Heap.WF.freeAt {h : Heap B} (hw : h.WF) {a : Nat} {c₀ : Cell B}
    (ha : h.cell a = some c₀) : (h.freeAt a).WF := by
  rw [freeAt_eq ha]
  have hCell : ∀ x c, Function.update h.cell a none x = some c →
      x ≠ a ∧ h.cell x = some c := by
    intro x c hx
    by_cases hxa : x = a
    · subst hxa
      rw [Function.update_self] at hx
      cases hx
    · rw [Function.update_of_ne hxa] at hx
      exact ⟨hxa, hx⟩
  refine
    { liveLt := ?_
      liveInj := ?_
      liveNotFreed := ?_
      freedNodup := ?_
      freedLt := ?_
      accounted := ?_ }
  · intro x c hx
    exact hw.liveLt x c (hCell x c hx).2
  · intro x x' c c' hx hx' hEq
    exact hw.liveInj x x' c c' (hCell x c hx).2 (hCell x' c' hx').2 hEq
  · intro x c hx
    obtain ⟨hxa, hOld⟩ := hCell x c hx
    simp only [List.mem_append, List.mem_singleton, not_or]
    refine ⟨hw.liveNotFreed x c hOld, ?_⟩
    intro hEq
    exact hxa (hw.liveInj x a c c₀ hOld ha hEq)
  · simp only [List.nodup_append, List.nodup_cons, List.not_mem_nil,
      not_false_eq_true, List.nodup_nil, and_self, List.mem_singleton, true_and]
    refine ⟨hw.freedNodup, ?_⟩
    intro n hn m hm hEq
    subst hm
    exact hw.liveNotFreed a c₀ ha (hEq ▸ hn)
  · intro n hn
    simp only [List.mem_append, List.mem_singleton] at hn
    rcases hn with hn | rfl
    · exact hw.freedLt n hn
    · exact hw.liveLt a c₀ ha
  · intro n hn
    simp only [List.mem_append, List.mem_singleton]
    rcases hw.accounted n hn with hFreed | ⟨x, c, hx, hSerial⟩
    · exact Or.inl (Or.inl hFreed)
    · by_cases hxa : x = a
      · subst hxa
        rw [ha] at hx
        cases hx
        exact Or.inl (Or.inr hSerial.symm)
      · exact Or.inr ⟨x, c, by simpa [hxa] using hx, hSerial⟩

/-! ## Lawful work -/

/-- `h'` comes from `h` by allocating at free addresses, overwriting live
blocks and freeing live blocks, all at addresses in `T`, and every content put
there satisfies `Q`. -/
inductive Within (T : Nat → Prop) (Q : B → Prop) (h : Heap B) : Heap B → Prop where
  | refl : Within T Q h h
  | malloc {h' : Heap B} {a : Nat} {b : B} (hRest : Within T Q h h') (hT : T a)
      (hQ : Q b) (hFree : h'.cell a = none) : Within T Q h (h'.malloc a b)
  | store {h' : Heap B} {a : Nat} {b : B} {c : Cell B} (hRest : Within T Q h h')
      (hT : T a) (hQ : Q b) (hCell : h'.cell a = some c) :
      Within T Q h (h'.store a b)
  | freeAt {h' : Heap B} {a : Nat} {c : Cell B} (hRest : Within T Q h h')
      (hT : T a) (hCell : h'.cell a = some c) : Within T Q h (h'.freeAt a)

namespace Within

variable {T : Nat → Prop} {Q : B → Prop} {h h' : Heap B}

theorem wf (hWithin : Within T Q h h') (hw : h.WF) : h'.WF := by
  induction hWithin with
  | refl => exact hw
  | malloc hRest hT hQ hFree ih => exact ih.malloc hFree _
  | store hRest hT hQ hCell ih => exact ih.store hCell _
  | freeAt hRest hT hCell ih => exact ih.freeAt hCell

theorem fault (hWithin : Within T Q h h') : h'.fault = h.fault := by
  induction hWithin with
  | refl => rfl
  | malloc hRest hT hQ hFree ih => exact ih
  | store hRest hT hQ hCell ih => rw [store_fault _ hCell, ih]
  | freeAt hRest hT hCell ih => rw [freeAt_fault hCell, ih]

/-- Addresses outside `T` are left alone. -/
theorem cell_eq (hWithin : Within T Q h h') {x : Nat} (hx : ¬ T x) :
    h'.cell x = h.cell x := by
  have hNe : ∀ {a}, T a → x ≠ a := fun hT hEq => hx (hEq ▸ hT)
  induction hWithin with
  | refl => rfl
  | malloc hRest hT hQ hFree ih =>
      rw [malloc_cell, Function.update_of_ne (hNe hT), ih]
  | store hRest hT hQ hCell ih =>
      rw [store_cell _ hCell, Function.update_of_ne (hNe hT), ih]
  | freeAt hRest hT hCell ih =>
      rw [freeAt_cell hCell, Function.update_of_ne (hNe hT), ih]

/-- A live block is an old one or holds something put there. -/
theorem content (hWithin : Within T Q h h') {x : Nat} {d : Cell B}
    (hx : h'.cell x = some d) : h.cell x = some d ∨ Q d.content := by
  induction hWithin generalizing d with
  | refl => exact Or.inl hx
  | @malloc h' a b hRest hT hQ hFree ih =>
      rw [malloc_cell] at hx
      by_cases hxa : x = a
      · subst hxa
        rw [Function.update_self] at hx
        cases hx
        exact Or.inr hQ
      · rw [Function.update_of_ne hxa] at hx
        exact ih hx
  | @store h' a b c hRest hT hQ hCell ih =>
      rw [store_cell _ hCell] at hx
      by_cases hxa : x = a
      · subst hxa
        rw [Function.update_self] at hx
        cases hx
        exact Or.inr hQ
      · rw [Function.update_of_ne hxa] at hx
        exact ih hx
  | @freeAt h' a c hRest hT hCell ih =>
      rw [freeAt_cell hCell] at hx
      by_cases hxa : x = a
      · subst hxa
        rw [Function.update_self] at hx
        cases hx
      · rw [Function.update_of_ne hxa] at hx
        exact ih hx

end Within

end MGServer.Verified.BlockHeap
