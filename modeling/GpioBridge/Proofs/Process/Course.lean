import GpioBridge.Proofs.Process.Plan

namespace GpioBridge

namespace Process

variable {σ ρ τ D E φ α β : Type} {A : D → Type} {B : E → Type}

-- A process moves as its first part does, as long as that has something left to do.
theorem Moves.bind {answers : (demand : D) → τ → A demand → τ → Prop} {p p' : Process σ D A α}
    {s s' : σ} {t t' : τ} (h : p.Moves answers s t p' s' t') (f : α → Process σ D A β) :
    (p.bind f).Moves answers s t (p'.bind f) s' t' := by
  cases h with
  | step => exact .step
  | note => exact .note
  | ask ha => exact .ask ha

theorem Follows.run {plan : Plan σ D A φ} {last : α → φ → Prop} {around : Surroundings σ τ D A}
    {P : φ → σ → τ → Prop}
    (hstep : ∀ {g change g' s t}, plan.step g change s g' → P g s t → P g' (change s) t)
    (hhear : ∀ {g event s t}, P g s t → P g s (around.hear event t))
    (hask : ∀ {g demand g' s t}, plan.ask g demand (around.answer demand s t).1 g' → P g s t →
      P g' (around.answer demand s t).2.1 (around.answer demand s t).2.2)
    {g : φ} {p : Process σ D A α} (h : p.Follows plan last g) {s : σ} {t : τ} (hP : P g s t) :
    ∃ g', last (p.run around s t).1 g' ∧
      P g' (p.run around s t).2.1 (p.run around s t).2.2 := by
  induction h generalizing s t with
  | done hlast => exact ⟨_, hlast, hP⟩
  | note _ ih => exact ih (hhear hP)
  | step onward ht _ ih => exact ih s (hstep (ht s) hP)
  | ask onward ht _ ih => exact ih _ (hask (ht _) hP)

-- What surroundings of a whole are for a part of it, the rest being as it is.
def Surroundings.within (around : Surroundings ρ τ E B) (view : ρ → σ) (put : σ → ρ → ρ)
    (demand : D → E) (answer : (d : D) → B (demand d) → A d) (r : ρ) : Surroundings σ τ D A where
  answer d s t :=
    let (b, r', t') := around.answer (demand d) (put s r) t
    (answer d b, view r', t')
  hear := around.hear

-- A process on a part of a state runs on the whole as it does on the part, if what happens while it
-- is answered happens to that part.
theorem run_lift {view : ρ → σ} {put : σ → ρ → ρ} {demand : D → E}
    {answer : (d : D) → B (demand d) → A d} {around : Surroundings ρ τ E B} {r : ρ}
    (hview : ∀ s, view (put s r) = s) (hput : ∀ s s', put s (put s' r) = put s r)
    (haround : ∀ d s t, ∃ s', (around.answer (demand d) (put s r) t).2.1 = put s' r)
    (p : Process σ D A α) (s : σ) (t : τ) :
    (p.lift view put demand answer).run around (put s r) t =
      ((p.run (around.within view put demand answer r) s t).1,
        put (p.run (around.within view put demand answer r) s t).2.1 r,
        (p.run (around.within view put demand answer r) s t).2.2) := by
  induction p generalizing s t with
  | done => rfl
  | step change next ih =>
    simp only [lift, run, hview, hput]
    exact ih s (change s) t
  | note event next ih => exact ih s _
  | ask d next ih =>
    obtain ⟨s', hs'⟩ := haround d s t
    have hwithin : (around.within view put demand answer r).answer d s t =
        (answer d (around.answer (demand d) (put s r) t).1, s',
          (around.answer (demand d) (put s r) t).2.2) := by
      simp only [Surroundings.within, hs', hview]
    simp only [lift, run, hwithin, hs']
    exact ih _ s' _

end Process

end GpioBridge
