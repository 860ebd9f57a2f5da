import Mathlib.Data.List.Perm.Basic
import Mathlib.Logic.Function.Basic

/-!
# Ownership tables

A resource discipline in its barest form: each owner has a list of the things
it owns, no thing is listed twice, and the things listed are exactly the live
ones.  What one owner does to such a table is a `Trade`: its list goes from
`l` to `l'` while the live things go from `live` to `live'`.  Rearranging,
acquiring something that was not live and giving something up for good are
trades, trades compose, and a table in which one owner trades is a table
again.
-/

namespace MGServer.Verified.Ownership

variable {ι α : Type}

/-- One owner's holdings change from `l` to `l'`: nothing is listed twice,
what is new was not live before, and nobody else's things are touched. -/
structure Trade (live live' : α → Prop) (l l' : List α) : Prop where
  nodup : l'.Nodup
  source : ∀ x ∈ l', x ∈ l ∨ ¬ live x
  live_iff : ∀ x, live' x ↔ x ∈ l' ∨ (live x ∧ x ∉ l)

namespace Trade

variable {live live' live'' : α → Prop} {l l' l'' : List α} {x : α}

theorem permute (hNodup : l.Nodup) (hMine : ∀ y ∈ l, live y)
    (hPerm : l'.Perm l) (hLive : ∀ y, live' y ↔ live y) :
    Trade live live' l l' where
  nodup := hPerm.nodup_iff.2 hNodup
  source := fun y hy => Or.inl (hPerm.mem_iff.1 hy)
  live_iff := by
    intro y
    rw [hLive y, hPerm.mem_iff]
    by_cases hy : y ∈ l
    · simp [hy, hMine y hy]
    · simp [hy]

/-- A thing that was not live becomes live in the owner's hands. -/
theorem acquire (hNodup : l.Nodup) (hMine : ∀ y ∈ l, live y)
    (hx : ¬ live x) (hPerm : l'.Perm (x :: l))
    (hLive : ∀ y, live' y ↔ y = x ∨ live y) : Trade live live' l l' where
  nodup := by
    rw [hPerm.nodup_iff, List.nodup_cons]
    exact ⟨fun hMem => hx (hMine x hMem), hNodup⟩
  source := by
    intro y hy
    rcases List.mem_cons.1 (hPerm.mem_iff.1 hy) with rfl | hOld
    · exact Or.inr hx
    · exact Or.inl hOld
  live_iff := by
    intro y
    rw [hLive y, hPerm.mem_iff, List.mem_cons]
    by_cases hy : y ∈ l
    · simp [hy, hMine y hy]
    · simp [hy]

/-- The owner gives up one of its things, which is live no more. -/
theorem release (hNodup : l.Nodup) (hMine : ∀ y ∈ l, live y)
    (hPerm : l.Perm (x :: l')) (hLive : ∀ y, live' y ↔ live y ∧ y ≠ x) :
    Trade live live' l l' := by
  have hCons : (x :: l').Nodup := hPerm.nodup_iff.1 hNodup
  have hNotMem : x ∉ l' := (List.nodup_cons.1 hCons).1
  refine
    { nodup := (List.nodup_cons.1 hCons).2
      source := fun y hy => Or.inl (hPerm.mem_iff.2 (List.mem_cons_of_mem x hy))
      live_iff := ?_ }
  intro y
  rw [hLive y, hPerm.mem_iff, List.mem_cons]
  by_cases hy : y ∈ l'
  · have hLiveY : live y := hMine y (hPerm.mem_iff.2 (List.mem_cons_of_mem x hy))
    have hNe : y ≠ x := fun hEq => hNotMem (hEq ▸ hy)
    simp [hy, hLiveY, hNe]
  · simp [hy]

theorem trans (h : Trade live live' l l') (h' : Trade live' live'' l' l'') :
    Trade live live'' l l'' where
  nodup := h'.nodup
  source := by
    intro x hx
    rcases h'.source x hx with hMid | hNot
    · exact h.source x hMid
    · rw [h.live_iff x, not_or, not_and, not_not] at hNot
      by_cases hLive : live x
      · exact Or.inl (hNot.2 hLive)
      · exact Or.inr hLive
  live_iff := by
    intro x
    rw [h'.live_iff x, h.live_iff x]
    have hSource := h.source x
    tauto

end Trade

/-- `owns` splits the `live` things among the owners, each to exactly one. -/
structure Partition (owns : ι → List α) (live : α → Prop) : Prop where
  nodup : ∀ i, (owns i).Nodup
  disjoint : ∀ i j x, x ∈ owns i → x ∈ owns j → i = j
  covers : ∀ x, live x ↔ ∃ i, x ∈ owns i

namespace Partition

variable {owns owns' : ι → List α} {live live' : α → Prop}

theorem live_of_mem (h : Partition owns live) {i : ι} {x : α}
    (hx : x ∈ owns i) : live x := (h.covers x).2 ⟨i, hx⟩

/-- One owner trades, the others keep what they have. -/
theorem trade (h : Partition owns live) {i : ι}
    (hTrade : Trade live live' (owns i) (owns' i))
    (hOthers : ∀ j, j ≠ i → owns' j = owns j) : Partition owns' live' := by
  have hApart : ∀ j x, x ∈ owns' i → x ∈ owns j → j = i := by
    intro j x hi hj
    rcases hTrade.source x hi with hOld | hNot
    · exact h.disjoint j i x hj hOld
    · exact absurd (h.live_of_mem hj) hNot
  refine
    { nodup := ?_
      disjoint := ?_
      covers := ?_ }
  · intro j
    by_cases hj : j = i
    · subst hj
      exact hTrade.nodup
    · rw [hOthers j hj]
      exact h.nodup j
  · intro j k x hj hk
    by_cases hji : j = i
    · subst hji
      by_cases hkj : k = j
      · exact hkj.symm
      · rw [hOthers k hkj] at hk
        exact (hApart k x hj hk).symm
    · rw [hOthers j hji] at hj
      by_cases hki : k = i
      · subst hki
        exact hApart j x hk hj
      · rw [hOthers k hki] at hk
        exact h.disjoint j k x hj hk
  · intro x
    rw [hTrade.live_iff x]
    constructor
    · rintro (hNew | ⟨hLive, hNotMine⟩)
      · exact ⟨i, hNew⟩
      · obtain ⟨j, hj⟩ := (h.covers x).1 hLive
        have hji : j ≠ i := fun hEq => hNotMine (hEq ▸ hj)
        exact ⟨j, by rw [hOthers j hji]; exact hj⟩
    · rintro ⟨j, hj⟩
      by_cases hji : j = i
      · subst hji
        exact Or.inl hj
      · rw [hOthers j hji] at hj
        refine Or.inr ⟨h.live_of_mem hj, ?_⟩
        intro hMine
        exact hji (h.disjoint j i x hj hMine)

end Partition

end MGServer.Verified.Ownership
