/-!
# Runs of a partial step function

A system is a step function `σ → ε → Option σ`: an event that is not enabled
in a state has no successor.  A run is a list of events that are enabled one
after another.  An invariant may mention the events seen so far, so that what
a state remembers can be compared with what really happened.
-/

namespace MGServer.Verified.Transition

variable {σ ε : Type} (step : σ → ε → Option σ)

/-- The state after a list of events, if each of them is enabled in turn. -/
def run : σ → List ε → Option σ
  | s, [] => some s
  | s, e :: es => (step s e).bind fun s' => run s' es

theorem run_cons_eq_some {s t : σ} {e : ε} {es : List ε} :
    run step s (e :: es) = some t ↔
      ∃ s', step s e = some s' ∧ run step s' es = some t := by
  simp only [run]
  exact Option.bind_eq_some_iff

theorem run_append (s : σ) (es es' : List ε) :
    run step s (es ++ es') = (run step s es).bind fun t => run step t es' := by
  induction es generalizing s with
  | nil => rfl
  | cons e es ih =>
      simp only [List.cons_append, run, Option.bind_assoc, ih]

/-- **The invariant rule.** What holds before the first event, and is kept by
every enabled event in view of the history, holds after every run. -/
theorem run_invariant {P : List ε → σ → Prop}
    (hStep : ∀ hist s e s', P hist s → step s e = some s' → P (hist ++ [e]) s') :
    ∀ (es : List ε) {hist : List ε} {s t : σ}, P hist s →
      run step s es = some t → P (hist ++ es) t := by
  intro es
  induction es with
  | nil =>
      intro hist s t hP hRun
      cases hRun
      simpa using hP
  | cons e es ih =>
      intro hist s t hP hRun
      obtain ⟨s', hOne, hRest⟩ := (run_cons_eq_some step).1 hRun
      have hNext := hStep hist s e s' hP hOne
      simpa using ih hNext hRest

/-- The rule for runs from an initial state. -/
theorem run_invariant_from {P : List ε → σ → Prop} {init : σ}
    (hInit : P [] init)
    (hStep : ∀ hist s e s', P hist s → step s e = some s' → P (hist ++ [e]) s')
    {es : List ε} {t : σ} (hRun : run step init es = some t) : P es t := by
  simpa using run_invariant step hStep es hInit hRun

/-- The rule for what some of the events keep, in a run of such events. -/
theorem run_preserves_on {P : σ → Prop} {Q : ε → Prop}
    (hStep : ∀ s e s', Q e → P s → step s e = some s' → P s') {es : List ε} {s t : σ}
    (hEvents : ∀ e ∈ es, Q e) (hP : P s) (hRun : run step s es = some t) : P t := by
  induction es generalizing s with
  | nil =>
      cases hRun
      exact hP
  | cons e es ih =>
      obtain ⟨s', hOne, hRest⟩ := (run_cons_eq_some step).1 hRun
      have hNext := hStep s e s' (hEvents e (List.mem_cons_self ..)) hP hOne
      exact ih (fun e' he' => hEvents e' (List.mem_cons_of_mem _ he')) hNext hRest

/-- The rule for an invariant of the state alone. -/
theorem run_preserves {P : σ → Prop}
    (hStep : ∀ s e s', P s → step s e = some s' → P s') {es : List ε} {s t : σ}
    (hP : P s) (hRun : run step s es = some t) : P t :=
  run_preserves_on step (Q := fun _ => True) (fun s e s' _ => hStep s e s')
    (fun _ _ => trivial) hP hRun

/-! ## Steps that end in a good state only -/

section Guarded

variable {step} {P : σ → Bool}

/-- The step, kept only when its result satisfies `P`. -/
def guarded (step : σ → ε → Option σ) (P : σ → Bool) (s : σ) (e : ε) : Option σ :=
  (step s e).filter P

theorem guarded_eq_some {s s' : σ} {e : ε} :
    guarded step P s e = some s' ↔ step s e = some s' ∧ P s' = true := by
  simp [guarded, Option.filter_eq_some_iff]

theorem run_of_guarded {es : List ε} {s t : σ}
    (hRun : run (guarded step P) s es = some t) : run step s es = some t := by
  induction es generalizing s with
  | nil => exact hRun
  | cons e es ih =>
      obtain ⟨s', hOne, hRest⟩ := (run_cons_eq_some _).1 hRun
      exact (run_cons_eq_some step).2 ⟨s', (guarded_eq_some.1 hOne).1, ih hRest⟩

/-- **Every state on the way.** A guarded run passes through good states only,
the ones after its prefixes included. -/
theorem guarded_prefix {pre post : List ε} {s t : σ} (hStart : P s = true)
    (hRun : run (guarded step P) s (pre ++ post) = some t) :
    ∃ mid, run (guarded step P) s pre = some mid ∧ P mid = true := by
  rw [run_append] at hRun
  obtain ⟨mid, hPre, -⟩ := Option.bind_eq_some_iff.1 hRun
  refine ⟨mid, hPre, ?_⟩
  exact run_preserves (P := fun s => P s = true) (guarded step P)
    (fun _ _ _ _ hOne => (guarded_eq_some.1 hOne).2) hStart hPre

end Guarded

/-! ## Steps that return something -/

section Outputs

variable {τ ε' ρ κ : Type}

/-- A run with what its steps return. -/
def runOut (act : σ → ε → Option (ρ × σ)) : σ → List ε → Option (List ρ × σ)
  | s, [] => some ([], s)
  | s, e :: es =>
      (act s e).bind fun (r, s') => (runOut act s' es).map fun (rs, t) => (r :: rs, t)

theorem runOut_cons_eq_some {act : σ → ε → Option (ρ × σ)}
    {s t : σ} {e : ε} {es : List ε} {out : List ρ} :
    runOut act s (e :: es) = some (out, t) ↔
      ∃ r s' rs, act s e = some (r, s') ∧ runOut act s' es =
        some (rs, t) ∧ out = r :: rs := by
  constructor
  · intro hRun
    obtain ⟨⟨r, s'⟩, hOne, hTail⟩ := Option.bind_eq_some_iff.1 hRun
    obtain ⟨⟨rs, t'⟩, hRest, hEq⟩ := Option.map_eq_some_iff.1 hTail
    cases hEq
    exact ⟨r, s', rs, hOne, hRest, rfl⟩
  · rintro ⟨r, s', rs, hOne, hRest, rfl⟩
    simp only [runOut, hOne, hRest, Option.bind_some, Option.map_some]

/-- **The simulation rule.** If each step of one system is answered by a step
of the other that returns the same, with the states related, each run of the
first is answered by a run of the second; `f` and `g` are what the two steps
have in common. -/
theorem runOut_simulates {act : σ → ε → Option (ρ × σ)} {act' : τ → ε' → Option (ρ × τ)}
    {R : σ → τ → Prop} {Q : ε → Prop} {f : ε → κ} {g : ε' → κ}
    (hStep : ∀ s t e r s', Q e → R s t → act s e = some (r, s') →
      ∃ e' t', act' t e' = some (r, t') ∧ g e' = f e ∧ R s' t')
    {es : List ε} (hEvents : ∀ e ∈ es, Q e) {s s' : σ} {t : τ}
    {out : List ρ} (hR : R s t) (hRun : runOut act s es = some (out, s')) :
    ∃ es' t', runOut act' t es' = some (out, t') ∧ es'.map g = es.map f ∧ R s' t' := by
  induction es generalizing s t out with
  | nil =>
      cases hRun
      exact ⟨[], t, rfl, rfl, hR⟩
  | cons e es ih =>
      obtain ⟨r, mid, rs, hOne, hRest, rfl⟩ := runOut_cons_eq_some.1 hRun
      obtain ⟨e', t₁, hOne', hSame, hR₁⟩ :=
        hStep s t e r mid (hEvents e (List.mem_cons_self ..))
        hR hOne
      obtain ⟨es', t', hRest', hSames, hR'⟩ :=
        ih (fun other hMem => hEvents other (List.mem_cons_of_mem _ hMem)) hR₁ hRest
      refine ⟨e' :: es', t', runOut_cons_eq_some.2 ⟨r, t₁, rs, hOne', hRest', rfl⟩, ?_,
        hR'⟩
      rw [List.map_cons, List.map_cons, hSame, hSames]

end Outputs

end MGServer.Verified.Transition
