import GpioBridge.Process
import GpioBridge.Proofs.Process.Serve

namespace GpioBridge.Process

variable {σ ρ τ τ' D E α β γ δ : Type} {A : D → Type} {B : E → Type}

-- On states that are alike the two processes change them alike and make the same demands, of those
-- they may make, and answered alike they end alike.
inductive Twins (may : D → Prop) (R : σ → σ → Prop) (Q : α → β → Prop) :
    Process σ D A α → Process σ D A β → Prop where
  | done {a b} (h : Q a b) : Twins may R Q (.done a) (.done b)
  | note {event event' p q} (h : Twins may R Q p q) : Twins may R Q (.note event p) (.note event' q)
  | step {change change' next next'} (hchange : ∀ s s', R s s' → R (change s) (change' s'))
      (hnext : ∀ s s', R s s' → Twins may R Q (next s) (next' s')) :
      Twins may R Q (.step change next) (.step change' next')
  | ask {demand next next'} (hmay : may demand)
      (hnext : ∀ answer, Twins may R Q (next answer) (next' answer)) :
      Twins may R Q (.ask demand next) (.ask demand next')

variable {may : D → Prop} {R : σ → σ → Prop} {Q : α → β → Prop}

theorem Twins.bind {Q' : γ → δ → Prop} {p : Process σ D A α} {q : Process σ D A β}
    {f : α → Process σ D A γ} {g : β → Process σ D A δ} (h : Twins may R Q p q)
    (hnext : ∀ a b, Q a b → Twins may R Q' (f a) (g b)) : Twins may R Q' (p.bind f) (q.bind g) := by
  induction h with
  | done h => exact hnext _ _ h
  | note _ ih => exact .note ih
  | step hchange _ ih => exact .step hchange ih
  | ask hmay _ ih => exact .ask hmay ih

-- Where twins look at the state.
theorem Twins.look {next : σ → Process σ D A α} {next' : σ → Process σ D A β}
    (hnext : ∀ s s', R s s' → Twins may R Q (next s) (next' s')) :
    Twins may R Q (.step id next) (.step id next') :=
  .step (fun _ _ h => h) hnext

-- Twins on a part of a state are twins on the whole, if what serves them is.
theorem Twins.serve {view : ρ → σ} {put : σ → ρ → ρ}
    {server : (demand : D) → Process ρ E B (A demand)} {S : ρ → ρ → Prop} {may' : E → Prop}
    (hview : ∀ r r', S r r' → R (view r) (view r'))
    (hput : ∀ s s' r r', R s s' → S r r' → S (put s r) (put s' r'))
    (hserver : ∀ demand, may demand → Twins may' S Eq (server demand) (server demand))
    {p : Process σ D A α} {q : Process σ D A β} (h : Twins may R Q p q) :
    Twins may' S Q (p.serve view put server) (q.serve view put server) := by
  induction h with
  | done h => exact .done h
  | note _ ih => exact .note ih
  | step hchange _ ih =>
    refine .step (fun r r' hr => hput _ _ _ _ (hchange _ _ (hview _ _ hr)) hr) fun r r' hr => ?_
    exact ih _ _ (hview _ _ hr)
  | ask hmay _ ih =>
    refine (hserver _ hmay).bind ?_
    rintro answer _ rfl
    exact ih answer

-- Run where they are answered alike, twins end alike.
theorem Twins.run {around : Surroundings σ τ D A} {around' : Surroundings σ τ' D A}
    {T : τ → τ' → Prop}
    (hanswer : ∀ demand s s' t t', may demand → R s s' → T t t' →
      (around.answer demand s t).1 = (around'.answer demand s' t').1 ∧
        R (around.answer demand s t).2.1 (around'.answer demand s' t').2.1 ∧
        T (around.answer demand s t).2.2 (around'.answer demand s' t').2.2)
    (hhear : ∀ event event' t t', T t t' → T (around.hear event t) (around'.hear event' t'))
    {p : Process σ D A α} {q : Process σ D A β} (h : Twins may R Q p q) {s s' : σ} {t : τ} {t' : τ'}
    (hs : R s s') (ht : T t t') :
    Q (p.run around s t).1 (q.run around' s' t').1 ∧
      R (p.run around s t).2.1 (q.run around' s' t').2.1 ∧
      T (p.run around s t).2.2 (q.run around' s' t').2.2 := by
  induction h generalizing s s' t t' with
  | done h => exact ⟨h, hs, ht⟩
  | note _ ih => exact ih hs (hhear _ _ _ _ ht)
  | step hchange _ ih => exact ih _ _ hs (hchange _ _ hs) ht
  | @ask demand next next' hmay _ ih =>
    obtain ⟨hsame, hs', ht'⟩ := hanswer demand s s' t t' hmay hs ht
    simp only [Process.run]
    rw [← hsame]
    exact ih _ hs' ht'

-- The process makes no demands.
abbrev Alone (p : Process σ D A α) : Prop := Twins (fun _ => False) Eq Eq p p

theorem alone_step {change : σ → σ} {next : σ → Process σ D A α} (h : ∀ s, (next s).Alone) :
    (step change next).Alone := by
  refine .step (fun _ _ => congrArg change) ?_
  rintro s _ rfl
  exact h s

-- What a process comes to that makes no demands is the same whatever it runs in.
theorem Alone.run {p : Process σ D A α} (h : p.Alone) {around : Surroundings σ τ D A}
    (hhear : ∀ event t, around.hear event t = t) (around' : Surroundings σ τ' D A) (s : σ) (t : τ)
    (t' : τ') : p.run around s t = ((p.run around' s t').1, (p.run around' s t').2.1, t) := by
  have hrun : (p.run around s t).1 = (p.run around' s t').1 ∧
      (p.run around s t).2.1 = (p.run around' s t').2.1 ∧ (p.run around s t).2.2 = t :=
    Twins.run (T := fun last _ => last = t) (fun _ _ _ _ _ => False.elim)
      (fun event _ last _ hlast => (hhear event last).trans hlast) h rfl rfl
  exact Prod.ext hrun.1 (Prod.ext hrun.2.1 hrun.2.2)

end GpioBridge.Process
