import GpioBridge.Proofs.Process.Plan

namespace GpioBridge

namespace Process

variable {σ ρ D E : Type} {A : D → Type} {B : E → Type} {α : Type}

theorem serve_bind {β : Type} {view : ρ → σ} {put : σ → ρ → ρ}
    {server : (demand : D) → Process ρ E B (A demand)} (p : Process σ D A α)
    (f : α → Process σ D A β) :
    (p.bind f).serve view put server = (p.serve view put server).bind fun a =>
      (f a).serve view put server := by
  induction p with
  | done => rfl
  | step change next ih => simp [bind, serve, ih]
  | note event next ih => simp [bind, serve, ih]
  | ask demand next ih => simp [bind, serve, ih, bind_assoc]

variable {φ : Type} {plan : Plan σ D A φ} {whole : Plan ρ E B φ} {last : α → φ → Prop}
  {view : ρ → σ} {put : σ → ρ → ρ} {server : (demand : D) → Process ρ E B (A demand)}

-- A served process goes through the stages it goes through alone, if every server takes its
-- client to where its answer would.
theorem Follows.serve
    (hstep : ∀ {g change r g'}, plan.step g change (view r) g' →
      whole.step g (fun r => put (change (view r)) r) r g')
    (hserver : ∀ {g demand} (onward : A demand → φ), (∀ a, plan.ask g demand a (onward a)) →
      (server demand).Follows whole (fun a g' => g' = onward a) g)
    {g : φ} {p : Process σ D A α} (h : p.Follows plan last g) :
    (p.serve view put server).Follows whole last g := by
  induction h with
  | done h => exact .done h
  | note _ ih => exact .note ih
  | step onward ht _ ih => exact .step (fun r => onward (view r)) (fun r => hstep (ht _)) fun r => ih _
  | ask onward ht _ ih =>
    refine (hserver onward ht).bind ?_
    rintro a _ rfl
    exact ih a

end Process

end GpioBridge
