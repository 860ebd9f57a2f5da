import Mathlib.Data.Option.Basic

/-!
# Keyed assignments

A list of entries `(key, value)` is worked through in order; a table of rules
says what an entry's key assigns.  The state it leaves is described field by
field: the last entry with a field's key decides, and a field without an entry
keeps what it had.
-/

namespace MGServer.Verified.Assignments

variable {κ ν α φ : Type} [DecidableEq κ]

structure Rule (κ ν α : Type) where
  key : κ
  assign : ν → α → α

/-- The rule an `if`/`else if` chain over the keys would take. -/
def ruleFor (rules : List (Rule κ ν α)) (k : κ) : Option (Rule κ ν α) :=
  rules.find? fun r => decide (r.key = k)

theorem ruleFor_mem {rules : List (Rule κ ν α)} {k : κ} {r : Rule κ ν α}
    (h : ruleFor rules k = some r) : r ∈ rules ∧ r.key = k := by
  have hKey := List.find?_some h
  exact ⟨List.mem_of_find?_eq_some h, of_decide_eq_true hKey⟩

theorem ruleFor_isSome_iff (rules : List (Rule κ ν α)) (k : κ) :
    (ruleFor rules k).isSome ↔ k ∈ rules.map Rule.key := by
  rw [ruleFor, List.find?_isSome, List.mem_map]
  constructor
  · rintro ⟨r, hr, hKey⟩
    exact ⟨r, hr, of_decide_eq_true hKey⟩
  · rintro ⟨r, hr, hKey⟩
    exact ⟨r, hr, decide_eq_true hKey⟩

/-- All entries, in order; an entry without a rule assigns nothing. -/
def assignAll (rules : List (Rule κ ν α)) : List (κ × ν) → α → α
  | [], st => st
  | (k, v) :: es, st =>
      match ruleFor rules k with
      | some r => assignAll rules es (r.assign v st)
      | none => assignAll rules es st

/-- The value of the last entry with key `k`. -/
def lastOf (k : κ) : List (κ × ν) → Option ν
  | [] => none
  | (k', v) :: es => (lastOf k es).or (if k' = k then some v else none)

theorem lastOf_eq_none_iff (k : κ) (es : List (κ × ν)) :
    lastOf k es = none ↔ k ∉ es.map Prod.fst := by
  induction es with
  | nil => simp [lastOf]
  | cons e es ih =>
      obtain ⟨k', v⟩ := e
      simp only [lastOf, Option.or_eq_none_iff, ih,
        List.map_cons, List.mem_cons, not_or]
      by_cases hk : k' = k
      · simp [hk]
      · simp [hk, Ne.symm hk]

theorem mem_of_lastOf {k : κ} {v : ν} {es : List (κ × ν)}
    (hLast : lastOf k es = some v) :
    (k, v) ∈ es := by
  induction es with
  | nil => cases hLast
  | cons e es ih =>
      obtain ⟨k', v'⟩ := e
      simp only [lastOf] at hLast
      cases hRest : lastOf k es with
      | some w =>
          rw [hRest] at hLast
          cases hLast
          exact List.mem_cons_of_mem _ (ih hRest)
      | none =>
          rw [hRest, Option.none_or] at hLast
          split at hLast
          · rename_i hKey
            cases hKey
            cases hLast
            exact List.mem_cons_self ..
          · cases hLast

/-- The last entry of a key depends on the entries of that key only. -/
theorem lastOf_filter (k : κ) (es : List (κ × ν)) :
    lastOf k (es.filter fun e => decide (e.1 = k)) = lastOf k es := by
  induction es with
  | nil => rfl
  | cons e es ih =>
      obtain ⟨k', v⟩ := e
      by_cases hk : k' = k
      · simp [lastOf, hk, ih]
      · simp [lastOf, hk, ih]

/-- What a field holds after the entries: the last one with its key decides. -/
def setting (es : List (κ × ν)) (k : κ) (conv : ν → φ) (prior : φ) : φ :=
  (lastOf k es).elim prior conv

theorem map_setting {ψ : Type} (g : φ → ψ) (es : List (κ × ν)) (k : κ) (conv : ν → φ)
    (prior : φ) : g (setting es k conv prior) = setting es k (g ∘ conv) (g prior) := by
  unfold setting
  cases lastOf k es with
  | none => rfl
  | some v => rfl

/-- Where there is an entry, what the field held before does not show. -/
theorem setting_eq_iff {es : List (κ × ν)} {k : κ} {conv : ν → φ} {a b : φ} :
    setting es k conv a = setting es k conv b ↔ (k ∉ es.map Prod.fst → a = b) := by
  rw [← lastOf_eq_none_iff]
  unfold setting
  cases lastOf k es with
  | none => simp
  | some v => simp

/-- The field `get` is set by the entries with key `k`, to `conv` of their
value, and by no others. -/
structure Field (rules : List (Rule κ ν α)) (get : α → φ) (k : κ) (conv : ν → φ) :
    Prop where
  known : k ∈ rules.map Rule.key
  sets : ∀ r ∈ rules, ∀ v st,
    get (r.assign v st) = if r.key = k then conv v else get st

/-- **The last entry decides.** -/
theorem Field.get_assignAll {rules : List (Rule κ ν α)} {get : α → φ} {k : κ}
    {conv : ν → φ} (hField : Field rules get k conv) (es : List (κ × ν)) (st : α) :
    get (assignAll rules es st) = setting es k conv (get st) := by
  unfold setting
  induction es generalizing st with
  | nil => rfl
  | cons e es ih =>
      obtain ⟨k', v⟩ := e
      simp only [assignAll, lastOf]
      cases hRule : ruleFor rules k' with
      | some r =>
          obtain ⟨hMem, hKey⟩ := ruleFor_mem hRule
          simp only
          rw [ih, hField.sets r hMem, hKey]
          by_cases hk : k' = k
          · cases lastOf k es <;> simp [hk]
          · cases lastOf k es <;> simp [hk]
      | none =>
          have hk : k' ≠ k := by
            rintro rfl
            have hSome := (ruleFor_isSome_iff rules k').2 hField.known
            rw [hRule] at hSome
            cases hSome
          simp only
          rw [ih]
          cases lastOf k es <;> simp [hk]

end MGServer.Verified.Assignments
