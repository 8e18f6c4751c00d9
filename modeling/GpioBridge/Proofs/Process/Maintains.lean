import GpioBridge.Proofs.Process.Pool
import GpioBridge.Proofs.Process.Serve

namespace GpioBridge

namespace Process

variable {σ ρ τ D E : Type} {A : D → Type} {B : E → Type} {α β : Type}

-- No step of the process takes this from the state, whatever the process is answered.
def Maintains (P : σ → Prop) : Process σ D A α → Prop
  | done _ => True
  | step change next => (∀ s, P s → P (change s)) ∧ ∀ s, (next s).Maintains P
  | note _ next => next.Maintains P
  | ask _ next => ∀ a, (next a).Maintains P

theorem maintains_step {P : σ → Prop} {change : σ → σ} {next : σ → Process σ D A α}
    (hchange : ∀ s, P s → P (change s)) (hnext : ∀ s, (next s).Maintains P) :
    (step change next).Maintains P :=
  ⟨hchange, hnext⟩

theorem maintains_get {P : σ → Prop} {next : σ → Process σ D A α}
    (hnext : ∀ s, (next s).Maintains P) : (step id next).Maintains P :=
  ⟨fun _ h => h, hnext⟩

theorem maintains_ask {P : σ → Prop} {demand : D} {next : A demand → Process σ D A α}
    (hnext : ∀ a, (next a).Maintains P) : (ask demand next).Maintains P := hnext

theorem Maintains.bind {P : σ → Prop} {p : Process σ D A α} {f : α → Process σ D A β}
    (hp : p.Maintains P) (hf : ∀ a, (f a).Maintains P) : (p.bind f).Maintains P := by
  induction p with
  | done a => exact hf a
  | step change next ih => exact ⟨hp.1, fun s => ih s (hp.2 s)⟩
  | note event next ih => exact ih hp
  | ask demand next ih => exact fun a => ih a (hp a)

-- A served process maintains of its part what it maintains alone, if the servers do too.
theorem Maintains.serve {view : ρ → σ} {put : σ → ρ → ρ}
    {server : (demand : D) → Process ρ E B (A demand)} {P : σ → Prop}
    (hview : ∀ s r, view (put s r) = s)
    (hserver : ∀ demand, (server demand).Maintains fun r => P (view r)) {p : Process σ D A α}
    (hp : p.Maintains P) : (p.serve view put server).Maintains fun r => P (view r) := by
  induction p with
  | done => trivial
  | step change next ih =>
    refine ⟨fun r hr => ?_, fun r => ih _ (hp.2 _)⟩
    have hchanged := hp.1 _ hr
    rwa [← hview (change (view r)) r] at hchanged
  | note event next ih => exact ih hp
  | ask demand next ih => exact (hserver demand).bind fun a => ih a (hp a)

theorem Maintains.moves {answers : (demand : D) → τ → A demand → τ → Prop} {P : σ → Prop}
    {p p' : Process σ D A α} {s s' : σ} {t t' : τ} (hp : p.Maintains P) (hs : P s)
    (h : p.Moves answers s t p' s' t') : p'.Maintains P ∧ P s' := by
  cases h with
  | step => exact ⟨hp.2 s, hp.1 s hs⟩
  | note => exact ⟨hp, hs⟩
  | ask => exact ⟨hp _, hs⟩

-- What no step of a process takes from the state, and no answer either, a whole run leaves it.
theorem Maintains.run {around : Surroundings σ τ D A} {P : σ → Prop}
    (haround : ∀ demand s t, P s → P (around.answer demand s t).2.1) {p : Process σ D A α}
    (hp : p.Maintains P) {s : σ} (hs : P s) (t : τ) : P (p.run around s t).2.1 := by
  induction p generalizing s t with
  | done => exact hs
  | step change next ih => exact ih s (hp.2 s) (hp.1 s hs) t
  | note event next ih => exact ih hp hs _
  | ask demand next ih => exact ih _ (hp _) (haround demand s t hs) _

end Process

end GpioBridge
