import MGServer.Verified.Transition
import Mathlib.Data.List.Nodup
import Mathlib.Data.List.Count
import Mathlib.Data.List.Induction

/-!
# Resources over a trace of calls

A trace is a list of calls into some library.  A call may obtain a resource,
is given pointers, and may release the resource one of them points to.  What
it means to handle the resources well is said twice: over whole traces, by
counting (`Disciplined`), and step by step, by the list of resources that are
live (`audit`).  The two agree when every resource is obtained under a name of
its own.
-/

namespace MGServer.Verified.Lifetimes

open MGServer.Verified.Transition

/-- What a call does to resources named by `κ`.  A pointer that is `none` is
null or was never obtained. -/
structure Protocol (ε κ : Type) where
  obtains : ε → Option κ
  passes : ε → List (Option κ)
  releases : ε → Option κ
  releases_passes : ∀ e k, releases e = some k → some k ∈ passes e

namespace Protocol

variable {ε κ : Type} (p : Protocol ε κ)

/-! ## By counting -/

def Obtained (trace : List ε) (k : κ) : Prop := k ∈ trace.filterMap p.obtains

/-- No name is given to two resources. -/
def Fresh (trace : List ε) : Prop := (trace.filterMap p.obtains).Nodup

theorem obtained_snoc {trace : List ε} {e : ε} {k : κ} :
    p.Obtained (trace ++ [e]) k ↔ p.Obtained trace k ∨ p.obtains e = some k := by
  simp only [Obtained, List.filterMap_append, List.mem_append]
  cases hObtains : p.obtains e with
  | none => simp [hObtains]
  | some k' => simp [hObtains, eq_comm]

theorem fresh_snoc {trace : List ε} {e : ε} :
    p.Fresh (trace ++ [e]) ↔
      p.Fresh trace ∧ ∀ k, p.obtains e = some k → ¬ p.Obtained trace k := by
  simp only [Fresh, Obtained, List.filterMap_append, List.nodup_append]
  cases hObtains : p.obtains e with
  | none => simp [hObtains]
  | some k =>
      simp only [List.filterMap_cons, hObtains, List.filterMap_nil, List.mem_cons,
        List.not_mem_nil, or_false, Option.some.injEq, forall_eq']
      constructor
      · rintro ⟨hNodup, -, hNe⟩
        exact ⟨hNodup, fun hMem => hNe k hMem k rfl rfl⟩
      · rintro ⟨hNodup, hNot⟩
        refine ⟨hNodup, by simp, ?_⟩
        rintro a ha b rfl rfl
        exact hNot ha

theorem fresh_append_left {pre post : List ε} (hFresh : p.Fresh (pre ++ post)) :
    p.Fresh pre := by
  unfold Fresh at hFresh ⊢
  rw [List.filterMap_append] at hFresh
  exact hFresh.of_append_left

variable [DecidableEq κ]

instance (trace : List ε) (k : κ) : Decidable (p.Obtained trace k) :=
  inferInstanceAs (Decidable (k ∈ trace.filterMap p.obtains))

def releaseCount (trace : List ε) (k : κ) : Nat := (trace.filterMap p.releases).count k

/-- Obtained and not yet released. -/
def Live (trace : List ε) (k : κ) : Prop :=
  p.Obtained trace k ∧ p.releaseCount trace k = 0

/-- Only live resources are passed. -/
def Sound (trace : List ε) : Prop :=
  ∀ pre e post, trace = pre ++ e :: post →
    ∀ ptr ∈ p.passes e, ∃ k, ptr = some k ∧ p.Live pre k

structure Disciplined (trace : List ε) : Prop where
  sound : p.Sound trace
  once : ∀ k, p.releaseCount trace k ≤ 1
  returned : ∀ k, p.Obtained trace k → p.releaseCount trace k = 1

theorem releaseCount_snoc (trace : List ε) (e : ε) (k : κ) :
    p.releaseCount (trace ++ [e]) k =
      p.releaseCount trace k + if p.releases e = some k then 1 else 0 := by
  simp only [releaseCount, List.filterMap_append, List.count_append]
  cases hReleases : p.releases e with
  | none => simp [hReleases]
  | some k' =>
      by_cases hk : k' = k
      · simp [hReleases, hk]
      · simp [hReleases, hk]

theorem sound_snoc {trace : List ε} {e : ε} :
    p.Sound (trace ++ [e]) ↔
      p.Sound trace ∧ ∀ ptr ∈ p.passes e, ∃ k, ptr = some k ∧ p.Live trace k := by
  constructor
  · intro hSound
    refine ⟨?_, hSound trace e [] rfl⟩
    intro pre e' post hSplit
    exact hSound pre e' (post ++ [e]) (by rw [hSplit]; simp)
  · rintro ⟨hSound, hLast⟩ pre e' post hSplit
    rcases List.eq_nil_or_concat post with rfl | ⟨post', e'', rfl⟩
    · obtain ⟨rfl, hEq⟩ := List.append_inj' hSplit rfl
      cases hEq
      exact hLast
    · have hSplit' : trace ++ [e] = (pre ++ e' :: post') ++ [e''] := by
        rw [hSplit]
        simp
      exact hSound pre e' post' (List.append_inj' hSplit' rfl).1

/-! ## Step by step -/

/-- The live resources without the one a call releases. -/
def remaining (live : List κ) (e : ε) : List κ :=
  match p.releases e with
  | some k => live.erase k
  | none => live

/-- The live resources after a call, if it is only given live ones. -/
def audit (live : List κ) (e : ε) : Option (List κ) :=
  if ∀ ptr ∈ p.passes e, ∃ k ∈ live, ptr = some k then
    some ((p.obtains e).toList ++ p.remaining live e)
  else none

theorem audit_eq_some {live live' : List κ} {e : ε} :
    p.audit live e = some live' ↔
      (∀ ptr ∈ p.passes e, ∃ k ∈ live, ptr = some k) ∧
      live' = (p.obtains e).toList ++ p.remaining live e := by
  simp only [audit, Option.ite_none_right_eq_some,
    Option.some.injEq, eq_comm (a := live')]

theorem remaining_nodup {live : List κ} (hNodup : live.Nodup) (e : ε) :
    (p.remaining live e).Nodup := by
  unfold remaining
  split
  · exact hNodup.erase _
  · exact hNodup

theorem mem_remaining {live : List κ} (hNodup : live.Nodup) (e : ε) (k : κ) :
    k ∈ p.remaining live e ↔ k ∈ live ∧ p.releases e ≠ some k := by
  unfold remaining
  split
  · rename_i k' hReleases
    rw [hNodup.mem_erase_iff, hReleases]
    simp only [ne_eq, Option.some.injEq, eq_comm (a := k'), and_comm]
  · rename_i hReleases
    simp [hReleases]

/-- The list of live resources says what has been obtained and not released. -/
structure Audited (trace : List ε) (live : List κ) : Prop where
  sound : p.Sound trace
  nodup : live.Nodup
  mem : ∀ k, k ∈ live ↔ p.Live trace k
  once : ∀ k, p.releaseCount trace k ≤ 1
  /-- Nothing is released that was not obtained. -/
  known : ∀ k, p.releaseCount trace k ≠ 0 → p.Obtained trace k

theorem audited_nil : p.Audited [] [] where
  sound := by
    intro pre e post hSplit
    simp at hSplit
  nodup := List.nodup_nil
  mem := by simp [Live, Obtained]
  once := by simp [releaseCount]
  known := by simp [releaseCount]

variable {p}

/-- What an audited event releases was live before it. -/
theorem Audited.live_of_releases {trace : List ε} {live : List κ} {e : ε}
    (hAudited : p.Audited trace live)
    (hPasses : ∀ ptr ∈ p.passes e, ∃ k ∈ live, ptr = some k) {k : κ}
    (hk : p.releases e = some k) : p.Live trace k := by
  obtain ⟨k', hLive, hEq⟩ := hPasses _ (p.releases_passes e k hk)
  cases hEq
  exact (hAudited.mem k).1 hLive

/-- What an event obtains has never been released. -/
theorem Audited.unreleased_of_obtains {trace : List ε} {live : List κ} {e : ε}
    (hAudited : p.Audited trace live) (hFresh : p.Fresh (trace ++ [e])) {k : κ}
    (hk : p.obtains e = some k) : p.releaseCount trace k = 0 := by
  by_contra hNe
  exact (p.fresh_snoc.1 hFresh).2 k hk (hAudited.known k hNe)

theorem Audited.step {trace : List ε} {live live' : List κ} {e : ε}
    (hAudited : p.Audited trace live) (hFresh : p.Fresh (trace ++ [e]))
    (hStep : p.audit live e = some live') : p.Audited (trace ++ [e]) live' := by
  obtain ⟨hPasses, rfl⟩ := p.audit_eq_some.1 hStep
  have hNew := (p.fresh_snoc.1 hFresh).2
  have hReleased : ∀ k, p.releases e = some k → p.Live trace k :=
    fun k hk => hAudited.live_of_releases hPasses hk
  refine
    { sound := ?_
      nodup := ?_
      mem := ?_
      once := ?_
      known := ?_ }
  · refine p.sound_snoc.2 ⟨hAudited.sound, ?_⟩
    intro ptr hPtr
    obtain ⟨k, hk, rfl⟩ := hPasses ptr hPtr
    exact ⟨k, rfl, (hAudited.mem k).1 hk⟩
  · have hRemaining := p.remaining_nodup hAudited.nodup e
    cases hObtains : p.obtains e with
    | none => exact hRemaining
    | some k =>
        apply List.nodup_cons.2
        refine ⟨?_, hRemaining⟩
        intro hMem
        have hLive := ((p.mem_remaining hAudited.nodup e k).1 hMem).1
        exact hNew k hObtains ((hAudited.mem k).1 hLive).1
  · intro k
    rw [List.mem_append, Option.mem_toList,
      p.mem_remaining hAudited.nodup, hAudited.mem]
    simp only [Live, p.obtained_snoc, p.releaseCount_snoc]
    by_cases hReleases : p.releases e = some k
    · simp only [hReleases, ne_eq, not_true_eq_false, and_false, or_false, if_true]
      constructor
      · intro hObtains
        exact absurd (hReleased k hReleases).1 (hNew k hObtains)
      · intro hBoth
        omega
    · simp only [hReleases, ne_eq, not_false_eq_true, and_true, if_false, Nat.add_zero]
      constructor
      · rintro (hObtains | hLive)
        · exact ⟨Or.inr hObtains, hAudited.unreleased_of_obtains hFresh hObtains⟩
        · exact ⟨Or.inl hLive.1, hLive.2⟩
      · rintro ⟨hOld | hObtains, hCount⟩
        · exact Or.inr ⟨hOld, hCount⟩
        · exact Or.inl hObtains
  · intro k
    rw [p.releaseCount_snoc]
    by_cases hk : p.releases e = some k
    · have hCount := (hReleased k hk).2
      rw [if_pos hk]
      omega
    · rw [if_neg hk]
      exact hAudited.once k
  · intro k hNe
    rw [p.obtained_snoc]
    left
    by_cases hk : p.releases e = some k
    · exact (hReleased k hk).1
    · apply hAudited.known k
      rw [p.releaseCount_snoc, if_neg hk] at hNe
      exact hNe

/-- A run of the audit keeps its list right. -/
theorem audited_of_run {trace : List ε} {live : List κ} (hFresh : p.Fresh trace)
    (hRun : run p.audit [] trace = some live) : p.Audited trace live := by
  refine run_invariant_from p.audit
    (P := fun hist live => p.Fresh hist → p.Audited hist live)
    (fun _ => p.audited_nil) ?_ hRun hFresh
  intro hist live e live' hAudited hStep hFresh
  exact (hAudited (p.fresh_append_left hFresh)).step hFresh hStep

/-- The audit goes through on every sound trace. -/
theorem run_of_sound {trace : List ε} (hFresh : p.Fresh trace)
    (hSound : p.Sound trace) :
    ∃ live, run p.audit [] trace = some live := by
  induction trace using List.reverseRecOn with
  | nil => exact ⟨[], rfl⟩
  | append_singleton trace e ih =>
      have hBefore := p.fresh_append_left hFresh
      obtain ⟨hSound, hPasses⟩ := p.sound_snoc.1 hSound
      obtain ⟨live, hRun⟩ := ih hBefore hSound
      have hAudited := audited_of_run hBefore hRun
      have hStep :
          p.audit live e = some ((p.obtains e).toList ++ p.remaining live e) := by
        apply p.audit_eq_some.2
        refine ⟨?_, rfl⟩
        intro ptr hPtr
        obtain ⟨k, rfl, hLive⟩ := hPasses ptr hPtr
        exact ⟨k, (hAudited.mem k).2 hLive, rfl⟩
      refine ⟨(p.obtains e).toList ++ p.remaining live e, ?_⟩
      rw [run_append, hRun]
      exact (run_cons_eq_some p.audit).2 ⟨_, hStep, rfl⟩

/-- **Discipline is an audit that ends with nothing live.** -/
theorem disciplined_iff {trace : List ε} (hFresh : p.Fresh trace) :
    p.Disciplined trace ↔ run p.audit [] trace = some [] := by
  constructor
  · intro hDisciplined
    obtain ⟨live, hRun⟩ := run_of_sound hFresh hDisciplined.sound
    have hAudited := audited_of_run hFresh hRun
    have hEmpty : live = [] := by
      apply List.eq_nil_iff_forall_not_mem.2
      intro k hk
      have hLive := (hAudited.mem k).1 hk
      have hOne := hDisciplined.returned k hLive.1
      rw [hLive.2] at hOne
      omega
    rw [hRun, hEmpty]
  · intro hRun
    have hAudited := audited_of_run hFresh hRun
    refine ⟨hAudited.sound, hAudited.once, ?_⟩
    intro k hObtained
    have hOnce := hAudited.once k
    have hNe : p.releaseCount trace k ≠ 0 := by
      intro hZero
      have hMem := (hAudited.mem k).2 ⟨hObtained, hZero⟩
      cases hMem
    omega

/-- A call that is given live resources, and neither obtains nor releases
one. -/
structure Borrows (p : Protocol ε κ) (live : List κ) (e : ε) : Prop where
  obtains : p.obtains e = none
  releases : p.releases e = none
  passes : ∀ ptr ∈ p.passes e, ∃ k ∈ live, ptr = some k

theorem run_borrowed {trace : List ε} {live : List κ}
    (hTrace : ∀ e ∈ trace, p.Borrows live e) : run p.audit live trace = some live := by
  induction trace with
  | nil => rfl
  | cons e trace ih =>
      have hHead := hTrace e List.mem_cons_self
      have hTail := ih fun e' he' => hTrace e' (List.mem_cons_of_mem _ he')
      refine (run_cons_eq_some _).2 ⟨live, p.audit_eq_some.2 ⟨hHead.passes, ?_⟩, hTail⟩
      simp [hHead.obtains, remaining, hHead.releases]

/-- **A leak.** What is live and not released by any later call is live to
the end. -/
theorem mem_of_run {trace : List ε} {live final : List κ} {k : κ} (hLive : k ∈ live)
    (hKept : ∀ e ∈ trace, p.releases e ≠ some k)
    (hRun : run p.audit live trace = some final) : k ∈ final := by
  induction trace generalizing live with
  | nil =>
      cases hRun
      exact hLive
  | cons e trace ih =>
      obtain ⟨live', hStep, hRest⟩ := (run_cons_eq_some p.audit).1 hRun
      obtain ⟨-, rfl⟩ := p.audit_eq_some.1 hStep
      apply ih ?_ (fun e' he' => hKept e' (List.mem_cons_of_mem _ he')) hRest
      apply List.mem_append_right
      have hNot := hKept e List.mem_cons_self
      unfold remaining
      split
      · rename_i k' hReleases
        apply (List.mem_erase_of_ne ?_).2 hLive
        rintro rfl
        exact hNot hReleases
      · exact hLive

/-! ## At most so many at a time -/

/-- After no prefix of the trace are more than `cap` resources live. -/
def Capped (p : Protocol ε κ) (cap : Nat) (trace : List ε) : Prop :=
  ∀ pre post, trace = pre ++ post →
    ∀ ks : List κ, ks.Nodup → (∀ k ∈ ks, p.Live pre k) → ks.length ≤ cap

/-- The audit that also counts. -/
def cappedAudit (p : Protocol ε κ) (cap : Nat) : List κ → ε → Option (List κ) :=
  guarded p.audit fun live => live.length ≤ cap

theorem capped_of_run {cap : Nat} {trace : List ε} {live : List κ}
    (hFresh : p.Fresh trace) (hRun : run (p.cappedAudit cap) [] trace = some live) :
    p.Capped cap trace := by
  rintro pre post rfl ks hNodup hLive
  obtain ⟨mid, hMid, hCap⟩ := guarded_prefix (by simp) hRun
  have hAudited := audited_of_run (p.fresh_append_left hFresh) (run_of_guarded hMid)
  have hSub : ks ⊆ mid := fun k hk => (hAudited.mem k).2 (hLive k hk)
  have hLength := (List.subperm_of_subset hNodup hSub).length_le
  simp only [decide_eq_true_eq] at hCap
  omega

end Protocol

end MGServer.Verified.Lifetimes
