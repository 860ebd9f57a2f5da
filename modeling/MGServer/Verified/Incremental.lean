import Mathlib.Data.List.Basic
import Mathlib.Data.List.Forall2

/-!
# Reading values from a stream that arrives in pieces

A parser looks at the front of what has arrived and finds a value and the
rest, a fault, or that it needs more.  A reader that keeps a state between
pieces is right when two things hold whatever arrives later: the stream starts
with the values handed out (`Behind`), and the state and its unread input have
the verdict that the parser has on what follows them (`Tracks`).  Both are
kept when input arrives, when the reader moves forward, and when it hands out
a value, so the answers of a reader depend on the bytes that came and not on
how they were cut.
-/

namespace MGServer.Verified.Incremental

variable {ε β γ ι σ : Type}

/-- What the front of an input is found to be. -/
inductive Verdict (ε β ι : Type) where
  | more
  | bad (e : ε)
  | ok (value : β) (rest : List ι)
  deriving Repr, DecidableEq

namespace Verdict

/-- Go on behind a value. -/
def bind (v : Verdict ε β ι) (next : β → List ι → Verdict ε γ ι) : Verdict ε γ ι :=
  match v with
  | more => more
  | bad e => bad e
  | ok value rest => next value rest

@[simp] theorem more_bind (next : β → List ι → Verdict ε γ ι) :
    (more : Verdict ε β ι).bind next = more := rfl

@[simp] theorem bad_bind (e : ε) (next : β → List ι → Verdict ε γ ι) :
    (bad e : Verdict ε β ι).bind next = bad e := rfl

@[simp] theorem ok_bind (value : β) (rest : List ι)
    (next : β → List ι → Verdict ε γ ι) :
    (ok value rest : Verdict ε β ι).bind next = next value rest := rfl

theorem bind_assoc {δ : Type} (v : Verdict ε β ι) (next : β → List ι → Verdict ε γ ι)
    (last : γ → List ι → Verdict ε δ ι) :
    (v.bind next).bind last = v.bind fun value rest => (next value rest).bind last := by
  cases v <;> rfl

theorem bind_eq_ok {v : Verdict ε β ι} {next : β → List ι → Verdict ε γ ι} {value : γ}
    {rest : List ι} :
    v.bind next = ok value rest ↔
      ∃ first mid, v = ok first mid ∧ next first mid = ok value rest := by
  cases v with
  | more => simp
  | bad e => simp
  | ok first mid => simp

end Verdict

open Verdict

/-- `count` values one after another. -/
def collect (parse : List ι → Verdict ε β ι) : Nat → List ι → Verdict ε (List β) ι
  | 0, input => ok [] input
  | count + 1, input =>
      (parse input).bind fun value rest =>
        (collect parse count rest).bind fun values rest => ok (value :: values) rest

theorem collect_zero (parse : List ι → Verdict ε β ι) (input : List ι) :
    collect parse 0 input = ok [] input := rfl

theorem collect_succ (parse : List ι → Verdict ε β ι) (count : Nat) (input : List ι) :
    collect parse (count + 1) input =
      (parse input).bind fun value rest =>
        (collect parse count rest).bind fun values rest => ok
          (value :: values) rest := rfl

theorem collect_add (parse : List ι → Verdict ε β ι) (m n : Nat) (input : List ι) :
    collect parse (m + n) input =
      (collect parse m input).bind fun first rest =>
        (collect parse n rest).bind fun second rest => ok (first ++ second) rest := by
  induction m generalizing input with
  | zero =>
      rw [Nat.zero_add, collect_zero, ok_bind]
      cases collect parse n input <;> rfl
  | succ m ih =>
      rw [Nat.succ_add, collect_succ, collect_succ, bind_assoc]
      congr 1
      funext value rest
      rw [ih, bind_assoc, bind_assoc]
      congr 1
      funext first rest
      rw [bind_assoc, ok_bind]
      rfl

/-- The verdict on value number `n` of a stream. -/
def nth (parse : List ι → Verdict ε β ι) (n : Nat) (input : List ι) : Verdict ε β ι :=
  (collect parse n input).bind fun _ rest => parse rest

/-! ## Parsers that accept exactly a language -/

/-- The parser finds a value exactly where one of its texts stands. -/
def Exact (parse : List ι → Verdict ε β ι) (Writes : β → List ι → Prop) : Prop :=
  ∀ input value rest,
    parse input = ok value rest ↔ ∃ text, Writes value text ∧ input = text ++ rest

theorem collect_exact {parse : List ι → Verdict ε β ι} {Writes : β → List ι → Prop}
    (hExact : Exact parse Writes) (count : Nat) (input : List ι) (values : List β)
    (rest : List ι) :
    collect parse count input = ok values rest ↔
      ∃ texts, List.Forall₂ Writes values texts ∧ values.length = count ∧
        input = texts.flatten ++ rest := by
  induction count generalizing input values with
  | zero =>
      simp only [collect_zero, Verdict.ok.injEq]
      constructor
      · rintro ⟨rfl, rfl⟩
        exact ⟨[], .nil, rfl, rfl⟩
      · rintro ⟨texts, hTexts, hCount, rfl⟩
        cases List.length_eq_zero_iff.1 hCount
        cases hTexts
        exact ⟨rfl, rfl⟩
  | succ count ih =>
      simp only [collect_succ, bind_eq_ok]
      constructor
      · rintro ⟨value, mid, hFirst, tail, last, hTail, hDone⟩
        cases hDone
        obtain ⟨text, hWrites, rfl⟩ := (hExact _ _ _).1 hFirst
        obtain ⟨texts, hTexts, hCount, rfl⟩ := (ih _ _).1 hTail
        refine ⟨text :: texts, .cons hWrites hTexts, ?_, ?_⟩
        · rw [List.length_cons, hCount]
        · rw [List.flatten_cons, List.append_assoc]
      · rintro ⟨texts, hTexts, hCount, rfl⟩
        cases hTexts with
        | nil => cases hCount
        | cons hWrites hTexts =>
            rename_i value text tail texts
            refine ⟨value, texts.flatten ++ rest, (hExact _ _ _).2 ⟨text, hWrites, ?_⟩,
              tail, rest, (ih _ _).2 ⟨texts, hTexts, Nat.succ.inj hCount, rfl⟩, rfl⟩
            rw [List.flatten_cons, List.append_assoc]

/-- What the front of an input is found to be does not change behind it. -/
structure Settled (parse : List ι → Verdict ε β ι) : Prop where
  ok : ∀ {input value rest}, parse input = ok value rest →
    ∀ future, parse (input ++ future) = ok value (rest ++ future)
  bad : ∀ {input e}, parse input = bad e → ∀ future, parse (input ++ future) = bad e

theorem Settled.collect {parse : List ι → Verdict ε β ι} (hSettled : Settled parse)
    (count : Nat) : Settled (Incremental.collect parse count) := by
  induction count with
  | zero =>
      constructor
      · intro input values rest hOk future
        rw [collect_zero, Verdict.ok.injEq] at hOk
        obtain ⟨rfl, rfl⟩ := hOk
        rfl
      · intro input e hBad
        rw [collect_zero] at hBad
        cases hBad
  | succ count ih =>
      constructor
      · intro input values rest hOk future
        rw [collect_succ] at hOk
        obtain ⟨value, mid, hFirst, hTail⟩ := bind_eq_ok.1 hOk
        obtain ⟨tail, last, hRest, hDone⟩ := bind_eq_ok.1 hTail
        cases hDone
        rw [collect_succ, hSettled.ok hFirst future, ok_bind, ih.ok hRest future]
        rfl
      · intro input e hBad future
        rw [collect_succ] at hBad ⊢
        cases hFirst : parse input with
        | more =>
            rw [hFirst] at hBad
            cases hBad
        | bad e' =>
            rw [hFirst] at hBad
            cases hBad
            rw [hSettled.bad hFirst future]
            rfl
        | ok value mid =>
            rw [hFirst, ok_bind] at hBad
            rw [hSettled.ok hFirst future, ok_bind]
            cases hRest : Incremental.collect parse count mid with
            | more =>
                rw [hRest] at hBad
                cases hBad
            | bad e' =>
                rw [hRest] at hBad
                cases hBad
                rw [ih.bad hRest future]
                rfl
            | ok values last =>
                rw [hRest] at hBad
                cases hBad

/-! ## Values that are written and read back -/

section RoundTrip

variable {parse : List ι → Verdict ε β ι} {write : β → List ι} {Good : β → Prop}
  (hRead : ∀ value, Good value → ∀ rest, parse (write value ++ rest) = ok value rest)

include hRead

/-- Values written one after another are collected. -/
theorem collect_write {values : List β} (hGood : ∀ value ∈ values, Good value)
    (rest : List ι) :
    collect parse values.length (values.flatMap write ++ rest) = ok values rest := by
  induction values with
  | nil => rfl
  | cons value values ih =>
      have hTail : ∀ other ∈ values, Good other :=
        fun other hMem => hGood other (List.mem_cons_of_mem _ hMem)
      rw [List.flatMap_cons, List.append_assoc, List.length_cons, collect_succ,
        hRead value (hGood value (List.mem_cons_self ..)), ok_bind, ih hTail, ok_bind]

end RoundTrip

/-! ## A party that answers what it reads -/

section Answers

/-- The answers to a list of values, in order. -/
def answers (serve : σ → β → σ × γ) : σ → List β → List γ
  | _, [] => []
  | s, value :: values => (serve s value).2 :: answers serve (serve s value).1 values

/-- The state after a list of values. -/
def served (serve : σ → β → σ × γ) (s : σ) (values : List β) : σ :=
  values.foldl (fun s value => (serve s value).1) s

/-- The values of which the whole has come in. -/
def readAll (parse : List ι → Verdict ε β ι) : Nat → List ι → List β
  | 0, _ => []
  | fuel + 1, input =>
      match parse input with
      | .ok value rest => value :: readAll parse fuel rest
      | _ => []

theorem length_answers (serve : σ → β → σ × γ) (s : σ) (values : List β) :
    (answers serve s values).length = values.length := by
  induction values generalizing s with
  | nil => rfl
  | cons value values ih => rw [answers, List.length_cons, List.length_cons, ih]

theorem answers_append (serve : σ → β → σ × γ) (s : σ) (values others : List β) :
    answers serve s (values ++ others) =
      answers serve s values ++ answers serve (served serve s values) others := by
  induction values generalizing s with
  | nil => rfl
  | cons value values ih =>
      rw [List.cons_append, answers, answers, ih]
      rfl

/-- Each answer is one that is given in some state. -/
theorem mem_answers {serve : σ → β → σ × γ} {s : σ} {values : List β} {answer : γ}
    (hMem : answer ∈ answers serve s values) :
    ∃ s' value, answer = (serve s' value).2 := by
  induction values generalizing s with
  | nil => cases hMem
  | cons value values ih =>
      rw [answers, List.mem_cons] at hMem
      rcases hMem with hHead | hTail
      · exact ⟨s, value, hHead⟩
      · exact ih hTail

variable {parse : List ι → Verdict ε β ι} {write : β → List ι} {Good : β → Prop}
  (hSettled : Settled parse)
  (hRead : ∀ value, Good value → ∀ rest, parse (write value ++ rest) = ok value rest)

include hSettled hRead

/-- A part of a written value asks for more. -/
theorem parse_part {value : β} (hGood : Good value) {front back : List ι}
    (hPart : front ++ back = write value) (hBack : back ≠ []) : parse front = more := by
  have hWhole := hRead value hGood []
  rw [List.append_nil, ← hPart] at hWhole
  cases hVerdict : parse front with
  | more => rfl
  | bad e =>
      rw [hSettled.bad hVerdict back] at hWhole
      cases hWhole
  | ok other rest =>
      rw [hSettled.ok hVerdict back, Verdict.ok.injEq] at hWhole
      exact absurd (List.append_eq_nil_iff.1 hWhole.2).2 hBack

variable (hEmpty : parse [] = more)

include hEmpty

/-- While values come in, those that have been read are the first of them. -/
theorem readAll_front (fuel : Nat) {values : List β}
    (hGood : ∀ value ∈ values, Good value) {input future : List ι}
    (hStream : input ++ future = values.flatMap write) :
    readAll parse fuel input <+: values := by
  induction fuel generalizing values input with
  | zero => exact List.nil_prefix
  | succ fuel ih =>
      rw [readAll]
      cases hVerdict : parse input with
      | more => exact List.nil_prefix
      | bad e => exact List.nil_prefix
      | ok value rest =>
          have hAll := hSettled.ok hVerdict future
          rw [hStream] at hAll
          cases values with
          | nil =>
              rw [List.flatMap_nil, hEmpty] at hAll
              cases hAll
          | cons first values =>
              rw [List.flatMap_cons, hRead first (hGood first (List.mem_cons_self ..)),
                Verdict.ok.injEq] at hAll
              obtain ⟨rfl, hRest⟩ := hAll
              rw [List.prefix_cons_inj]
              exact ih (fun other hMem => hGood other (List.mem_cons_of_mem _ hMem))
                hRest.symm

omit hSettled hEmpty in
/-- Values that have come in are read, up to a part of another. -/
theorem readAll_part {fuel : Nat} {values : List β}
    (hGood : ∀ value ∈ values, Good value) (hFuel : values.length ≤ fuel)
    {front : List ι} (hFront : parse front = more) :
    readAll parse fuel (values.flatMap write ++ front) = values := by
  induction values generalizing fuel with
  | nil =>
      cases fuel with
      | zero => rfl
      | succ fuel => rw [readAll, List.flatMap_nil, List.nil_append, hFront]
  | cons value values ih =>
      obtain ⟨fuel, rfl⟩ : ∃ n, fuel = n + 1 :=
        ⟨fuel - 1, by rw [List.length_cons] at hFuel; omega⟩
      rw [readAll, List.flatMap_cons, List.append_assoc,
        hRead value (hGood value (List.mem_cons_self ..))]
      simp only
      rw [ih (fun other hMem => hGood other (List.mem_cons_of_mem _ hMem))
        (by rw [List.length_cons] at hFuel; omega)]

end Answers

/-! ## A reader with a state -/

/-- The stream starts with the values `got`; `rest` is what follows them. -/
def Behind (parse : List ι → Verdict ε β ι) (stream : List ι) (got : List β)
    (rest : List ι) : Prop :=
  ∀ future, collect parse got.length (stream ++ future) = ok got (rest ++ future)

/-- Whatever comes next, a state and its unread input have the verdict of the
parser on the rest of the stream. -/
def Tracks (parse : List ι → Verdict ε β ι) (meaning : σ → List ι → Verdict ε β ι)
    (rest : List ι) (s : σ) (unread : List ι) : Prop :=
  ∀ future, parse (rest ++ future) = meaning s (unread ++ future)

section Reader

variable {parse : List ι → Verdict ε β ι} {meaning : σ → List ι → Verdict ε β ι}
  {stream rest unread : List ι} {got : List β} {s : σ}

theorem behind_nil : Behind parse [] [] [] := fun _ => rfl

theorem Behind.feed (hBehind : Behind parse stream got rest) (chunk : List ι) :
    Behind parse (stream ++ chunk) got (rest ++ chunk) := by
  intro future
  rw [List.append_assoc, List.append_assoc]
  exact hBehind (chunk ++ future)

/-- One more value is read from the rest. -/
theorem Behind.next (hBehind : Behind parse stream got rest)
    {value : β} {rest' : List ι}
    (hValue : ∀ future, parse (rest ++ future) = ok value (rest' ++ future)) :
    Behind parse stream (got ++ [value]) rest' := by
  intro future
  rw [List.length_append, List.length_singleton, collect_add, hBehind future, ok_bind,
    collect_succ, hValue future]
  rfl

theorem Behind.collect (hBehind : Behind parse stream got rest) :
    Incremental.collect parse got.length stream = ok got rest := by
  simpa using hBehind []

theorem Behind.nth (hBehind : Behind parse stream got rest) (future : List ι) :
    Incremental.nth parse got.length (stream ++ future) = parse (rest ++ future) := by
  rw [Incremental.nth, hBehind future, ok_bind]

theorem tracks_start (hStart : meaning s = parse) (rest : List ι) :
    Tracks parse meaning rest s rest := by
  intro future
  rw [hStart]

theorem Tracks.feed (hTracks : Tracks parse meaning rest s unread) (chunk : List ι) :
    Tracks parse meaning (rest ++ chunk) s (unread ++ chunk) := by
  intro future
  rw [List.append_assoc, List.append_assoc]
  exact hTracks (chunk ++ future)

theorem Tracks.advance (hTracks : Tracks parse meaning rest s unread) {s' : σ}
    {unread' : List ι}
    (hStep : ∀ future, meaning s (unread ++ future) = meaning s' (unread' ++ future)) :
    Tracks parse meaning rest s' unread' := by
  intro future
  rw [hTracks future, hStep future]

theorem Tracks.verdict (hTracks : Tracks parse meaning rest s unread) :
    parse rest = meaning s unread := by
  simpa using hTracks []

end Reader

end MGServer.Verified.Incremental
