/-!
# What a computation with a state and failures can come to

Rules for postconditions of `StateT σ (Except ε)`: what holds of a result, and
which failures there may be.  A sequence is taken apart at its binds, so that a
proof follows the program and each part is used by its own statement.
-/

namespace MGServer.Verified.Outcomes

variable {ε σ α β : Type} {risk : ε → Prop}

/-- A result meets `post`, a failure is one of `risk`. -/
def Ends (risk : ε → Prop) (x : Except ε α) (post : α → Prop) : Prop :=
  match x with
  | .ok a => post a
  | .error e => risk e

/-- The same from a state, with the state behind. -/
def Meets (risk : ε → Prop) (m : StateT σ (Except ε) α) (s : σ) (post : α → σ → Prop) :
    Prop :=
  Ends risk (m s) fun r => post r.1 r.2

@[simp] theorem ok_bind (a : α) (f : α → Except ε β) : (Except.ok a >>= f) = f a := rfl

theorem Ends.mono {x : Except ε α} {post post' : α → Prop} (hEnds : Ends risk x post)
    (hPost : ∀ a, post a → post' a) : Ends risk x post' := by
  cases x with
  | ok a => exact hPost a hEnds
  | error e => exact hEnds

theorem Ends.bind {x : Except ε α} {f : α → Except ε β}
    {post : α → Prop} {post' : β → Prop} (hEnds : Ends risk x post)
    (hNext : ∀ a, post a → Ends risk (f a) post') :
    Ends risk (x >>= f) post' := by
  cases x with
  | ok a => exact hNext a hEnds
  | error e => exact hEnds

theorem Meets.mono {m : StateT σ (Except ε) α} {s : σ} {post post' : α → σ → Prop}
    (hMeets : Meets risk m s post) (hPost : ∀ a s', post a s' → post' a s') :
    Meets risk m s post' :=
  Ends.mono hMeets fun r => hPost r.1 r.2

theorem Meets.bind {m : StateT σ (Except ε) α} {f : α → StateT σ (Except ε) β} {s : σ}
    {post : α → σ → Prop} {post' : β → σ → Prop} (hMeets : Meets risk m s post)
    (hNext : ∀ a s', post a s' → Meets risk (f a) s' post') :
    Meets risk (m >>= f) s post' :=
  Ends.bind hMeets fun r => hNext r.1 r.2

theorem meets_pure {a : α} {s : σ} {post : α → σ → Prop} (hPost : post a s) :
    Meets risk (pure a) s post :=
  hPost

theorem meets_throw {e : ε} {s : σ} {post : α → σ → Prop} (hRisk : risk e) :
    Meets risk (throw e) s post :=
  hRisk

theorem lift_bind_meets {x : Except ε α} {f : α → StateT σ (Except ε) β} {s : σ}
    {post : α → Prop} {post' : β → σ → Prop} (hEnds : Ends risk x post)
    (hNext : ∀ a, post a → Meets risk (f a) s post') :
    Meets risk (liftM x >>= f) s post' := by
  cases x with
  | ok a => exact hNext a hEnds
  | error e => exact hEnds

theorem meets_ite {c : Prop} [Decidable c] {m m' : StateT σ (Except ε) α} {s : σ}
    {post : α → σ → Prop} (hThen : c → Meets risk m s post)
    (hElse : ¬ c → Meets risk m' s post) : Meets risk (if c then m else m') s post := by
  by_cases hc : c
  · rw [if_pos hc]
    exact hThen hc
  · rw [if_neg hc]
    exact hElse hc

end MGServer.Verified.Outcomes
