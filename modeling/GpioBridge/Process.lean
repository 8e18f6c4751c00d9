import GpioBridge.Event

namespace GpioBridge

-- An operation on a state `σ` that makes demands `D` with answers `A` and ends in an `α`.
inductive Process (σ D : Type) (A : D → Type) (α : Type) where
  | done (result : α)
  -- Changes the state in one step and goes on with the state as it was before.
  | step (change : σ → σ) (next : σ → Process σ D A α)
  | note (event : Event) (next : Process σ D A α)
  | ask (demand : D) (next : A demand → Process σ D A α)

namespace Process

variable {σ ρ τ D E : Type} {A : D → Type} {B : E → Type} {α β γ : Type}

def bind : Process σ D A α → (α → Process σ D A β) → Process σ D A β
  | done result, f => f result
  | step change next, f => step change fun s => (next s).bind f
  | note event next, f => note event (next.bind f)
  | ask demand next, f => ask demand fun a => (next a).bind f

instance : Monad (Process σ D A) where
  pure := done
  bind := bind

-- The state as it is.
def get : Process σ D A σ := step id done

def modify (f : σ → σ) : Process σ D A Unit := step f fun _ => done ()

def update (f : σ → α × σ) : Process σ D A α := step (fun s => (f s).2) fun s => done (f s).1

def log (event : Event) : Process σ D A Unit := note event (done ())

-- What a process runs in: it answers demands, where it may change the state, and hears events.
structure Surroundings (σ τ D : Type) (A : D → Type) where
  answer : (demand : D) → σ → τ → A demand × σ × τ
  hear : Event → τ → τ

def run (around : Surroundings σ τ D A) : Process σ D A α → σ → τ → α × σ × τ
  | done result, s, t => (result, s, t)
  | step change next, s, t => (next s).run around (change s) t
  | note event next, s, t => next.run around s (around.hear event t)
  | ask demand next, s, t =>
    let (a, s, t) := around.answer demand s t
    (next a).run around s t

-- Runs a process in a monad that keeps the state, hears events and answers demands. Changing the
-- state gives the state as it was before.
def interpret {m : Type → Type} [Monad m] (change : (σ → σ) → m σ) (hear : Event → m Unit)
    (answer : (demand : D) → m (A demand)) : Process σ D A α → m α
  | done result => return result
  | step f next => do (next (← change f)).interpret change hear answer
  | note event next => do
    hear event
    next.interpret change hear answer
  | ask demand next => do (next (← answer demand)).interpret change hear answer

-- Lets a process on a part of a state work on the whole, its demands made in the whole's terms.
def lift (view : ρ → σ) (put : σ → ρ → ρ) (demand : D → E) (answer : (d : D) → B (demand d) → A d) :
    Process σ D A α → Process ρ E B α
  | done result => done result
  | step change next =>
    step (fun r => put (change (view r)) r) fun r => (next (view r)).lift view put demand answer
  | note event next => note event (next.lift view put demand answer)
  | ask d next => ask (demand d) fun b => (next (answer d b)).lift view put demand answer

-- Lets a process on a part of a state work on the whole, where every demand it makes is served by
-- another process.
def serve (view : ρ → σ) (put : σ → ρ → ρ) (server : (demand : D) → Process ρ E B (A demand)) :
    Process σ D A α → Process ρ E B α
  | done result => done result
  | step change next =>
    step (fun r => put (change (view r)) r) fun r => (next (view r)).serve view put server
  | note event next => note event (next.serve view put server)
  | ask demand next => (server demand).bind fun answer => (next answer).serve view put server

section Lemmas

@[simp]
theorem bind_eq (p : Process σ D A α) (f : α → Process σ D A β) : p >>= f = p.bind f := rfl

@[simp]
theorem pure_eq (a : α) : (pure a : Process σ D A α) = done a := rfl

@[simp]
theorem done_bind (a : α) (f : α → Process σ D A β) : (done a).bind f = f a := rfl

@[simp]
theorem get_bind (f : σ → Process σ D A β) : get.bind f = step id f := rfl

@[simp]
theorem modify_bind (change : σ → σ) (f : Unit → Process σ D A β) :
    (modify change).bind f = step change fun _ => f () := rfl

@[simp]
theorem update_bind (change : σ → α × σ) (f : α → Process σ D A β) :
    (update change).bind f = step (fun s => (change s).2) fun s => f (change s).1 := rfl

@[simp]
theorem log_bind (event : Event) (f : Unit → Process σ D A β) :
    (log event).bind f = note event (f ()) := rfl

@[simp]
theorem ask_bind (demand : D) (next : A demand → Process σ D A α) (f : α → Process σ D A β) :
    (ask demand next).bind f = ask demand fun a => (next a).bind f := rfl

theorem bind_done (p : Process σ D A α) : p.bind done = p := by
  induction p with
  | done => rfl
  | step change next ih => simp [bind, ih]
  | note event next ih => simp [bind, ih]
  | ask demand next ih => simp [bind, ih]

theorem bind_assoc (p : Process σ D A α) (f : α → Process σ D A β) (g : β → Process σ D A γ) :
    (p.bind f).bind g = p.bind fun a => (f a).bind g := by
  induction p with
  | done => rfl
  | step change next ih => simp [bind, ih]
  | note event next ih => simp [bind, ih]
  | ask demand next ih => simp [bind, ih]

instance : LawfulMonad (Process σ D A) :=
  LawfulMonad.mk' _ bind_done (fun _ _ => rfl) bind_assoc

variable (around : Surroundings σ τ D A) (s : σ) (t : τ)

@[simp]
theorem run_done (a : α) : (done a : Process σ D A α).run around s t = (a, s, t) := rfl

-- Running one process after another is running the first and then the second where it ended.
@[simp]
theorem run_bind (p : Process σ D A α) (f : α → Process σ D A β) :
    (p.bind f).run around s t =
      (f (p.run around s t).1).run around (p.run around s t).2.1 (p.run around s t).2.2 := by
  induction p generalizing s t with
  | done => rfl
  | step change next ih => simp [bind, run, ih]
  | note event next ih => simp [bind, run, ih]
  | ask demand next ih => simp [bind, run, ih]

@[simp]
theorem run_get : (get : Process σ D A σ).run around s t = (s, s, t) := rfl

@[simp]
theorem run_modify (f : σ → σ) :
    (modify f : Process σ D A Unit).run around s t = ((), f s, t) := rfl

@[simp]
theorem run_update (f : σ → α × σ) :
    (update f : Process σ D A α).run around s t = ((f s).1, (f s).2, t) := rfl

@[simp]
theorem run_log (event : Event) :
    (log event : Process σ D A Unit).run around s t = ((), s, around.hear event t) := rfl

@[simp]
theorem run_ask (demand : D) :
    (ask demand done : Process σ D A (A demand)).run around s t = around.answer demand s t := rfl

end Lemmas

end Process

end GpioBridge
