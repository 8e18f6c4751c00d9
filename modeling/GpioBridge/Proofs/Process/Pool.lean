import GpioBridge.Process

namespace GpioBridge

-- One move of a process: an undivided step on the state, a word to the log, or an answer to a
-- demand, which may change what is around the state.
inductive Process.Moves {σ τ D α : Type} {A : D → Type}
    (answers : (demand : D) → τ → A demand → τ → Prop) :
    Process σ D A α → σ → τ → Process σ D A α → σ → τ → Prop where
  | step {change next s t} : Moves answers (.step change next) s t (next s) (change s) t
  | note {event next s t} : Moves answers (.note event next) s t next s t
  | ask {demand next s t a t'} (h : answers demand t a t') :
      Moves answers (.ask demand next) s t (next a) s t'

-- A call that has nothing left to do.
def Process.Returned {σ D α : Type} {A : D → Type} (p : Process σ D A α) : Prop :=
  ∃ result, p = .done result

-- A call that does nothing by itself: it has returned, or it waits for an answer.
def Process.Paused {σ D α : Type} {A : D → Type} (p : Process σ D A α) : Prop :=
  p.Returned ∨ ∃ demand next, p = .ask demand next

-- The result a process is bound to give, where it has nothing left to do but to tell the log.
def Process.result? {σ D α : Type} {A : D → Type} : Process σ D A α → Option α
  | .done result => some result
  | .note _ next => next.result?
  | _ => none

-- The calls made on a state so far, each as what it was and what it has left to do.
structure Pool (σ τ D : Type) (A : D → Type) (ι ρ : Type) where
  state : σ
  around : τ
  calls : List (ι × Process σ D A ρ) := []

namespace Pool

variable {σ τ D ι ρ : Type} {A : D → Type}

-- What calls do, how they are answered, and which call has to wait for which.
structure Rules (σ τ D : Type) (A : D → Type) (ι ρ : Type) where
  start : ι → Process σ D A ρ
  answers : (demand : D) → τ → A demand → τ → Prop
  waits : Process σ D A ρ → Process σ D A ρ → Prop := fun _ _ => False

inductive Step (rules : Rules σ τ D A ι ρ) : Pool σ τ D A ι ρ → Pool σ τ D A ι ρ → Prop where
  -- Somebody makes a call.
  | call (i : ι) {s t calls} : Step rules ⟨s, t, calls⟩ ⟨s, t, calls ++ [(i, rules.start i)]⟩
  -- A call that need not wait for any other goes on.
  | move {i p p' s s' t t' before after} (h : Process.Moves rules.answers p s t p' s' t')
      (free : ∀ other ∈ before ++ after, ¬rules.waits p other.2) :
      Step rules ⟨s, t, before ++ (i, p) :: after⟩ ⟨s', t', before ++ (i, p') :: after⟩

-- A step changes one call, or none and a call is made.
theorem places_of_step {rules : Rules σ τ D A ι ρ} {pool next : Pool σ τ D A ι ρ}
    (h : Step rules pool next) :
    (next.state = pool.state ∧ ∃ i, next.calls = pool.calls ++ [(i, rules.start i)]) ∨
      ∃ c i p p', pool.calls[c]? = some (i, p) ∧
        p.Moves rules.answers pool.state pool.around p' next.state next.around ∧
        next.calls = pool.calls.set c (i, p') := by
  cases h with
  | call i => exact .inl ⟨rfl, i, rfl⟩
  | @move i p p' _ _ _ _ before _ h _ =>
    exact .inr ⟨before.length, i, p, p', by simp, h, by simp⟩

-- A run of a pool, step after step; one that ends stays where it is.
structure Run (rules : Rules σ τ D A ι ρ) (first : Pool σ τ D A ι ρ)
    (run : Nat → Pool σ τ D A ι ρ) : Prop where
  first : run 0 = first
  step : ∀ k, run (k + 1) = run k ∨ Step rules (run k) (run (k + 1))

-- What a call was, and what it is bound to return.
def report? (pool : Pool σ τ D A ι ρ) (c : Nat) : Option (ι × Option ρ) :=
  (pool.calls[c]?).map fun call => (call.1, call.2.result?)

-- Every call has returned.
def AtRest (pool : Pool σ τ D A ι ρ) : Prop := ∀ call ∈ pool.calls, call.2.Returned

end Pool

end GpioBridge
