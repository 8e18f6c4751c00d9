import GpioBridge.Proofs.Process.Serve
import Mathlib.Data.Nat.Init

namespace GpioBridge

namespace Process

variable {σ ρ τ D E : Type} {A : D → Type} {B : E → Type} {α β : Type} {P Q : σ → Prop}
  {R : α → Prop} {S : β → Prop}

-- While every state the process finds is like `P`, one of its steps leaves a state like `Q`, or
-- else it ends in a result like `R`.
def Leads (P Q : σ → Prop) (R : α → Prop) : Process σ D A α → Prop
  | done result => R result
  | step change next => ∀ s, P s → Q (change s) ∨ (next s).Leads P Q R
  | note _ next => next.Leads P Q R
  | ask _ next => ∀ a, (next a).Leads P Q R

theorem leads_step {change : σ → σ} {next : σ → Process σ D A α}
    (h : ∀ s, P s → (next s).Leads P Q R) : (step change next).Leads P Q R :=
  fun s hs => .inr (h s hs)

theorem Leads.logged {event : Event} {next : Process σ D A α} (h : next.Leads P Q R)
    (logged : Bool) : (if logged = true then note event next else next).Leads P Q R := by
  split <;> exact h

theorem Leads.bind {p : Process σ D A α} {f : α → Process σ D A β} (hp : p.Leads P Q R)
    (hf : ∀ a, R a → (f a).Leads P Q S) : (p.bind f).Leads P Q S := by
  induction p with
  | done a => exact hf a hp
  | step change next ih => exact fun s hs => (hp s hs).imp_right (ih s)
  | note event next ih => exact ih hp
  | ask demand next ih => exact fun a => ih a (hp a)

theorem Leads.imp {p : Process σ D A α} {R' : α → Prop} (hp : p.Leads P Q R)
    (h : ∀ a, R a → R' a) : p.Leads P Q R' := by
  rw [← p.bind_done]
  exact hp.bind h

theorem leads_of_forall (h : ∀ a, R a) (p : Process σ D A α) : p.Leads P Q R := by
  induction p with
  | done a => exact h a
  | step change next ih => exact fun s _ => .inr (ih s)
  | note event next ih => exact ih
  | ask demand next ih => exact fun a => ih a

-- A served process leads where it does alone, whatever its servers do.
theorem Leads.serve {view : ρ → σ} {put : σ → ρ → ρ}
    {server : (demand : D) → Process ρ E B (A demand)} (hview : ∀ s r, view (put s r) = s)
    {p : Process σ D A α} (hp : p.Leads P Q R) :
    (p.serve view put server).Leads (fun r => P (view r)) (fun r => Q (view r)) R := by
  induction p with
  | done => exact hp
  | step change next ih =>
    intro r hr
    rcases hp (view r) hr with hq | hnext
    · exact .inl (by simpa only [hview] using hq)
    · exact .inr (ih _ hnext)
  | note event next ih => exact ih hp
  | ask demand next ih =>
    exact (leads_of_forall (fun _ => trivial) (server demand)).bind fun a _ => ih a (hp a)

theorem Leads.moves {answers : (demand : D) → τ → A demand → τ → Prop} {p p' : Process σ D A α}
    {s s' : σ} {t t' : τ} (hp : p.Leads P Q R) (hs : P s) (h : p.Moves answers s t p' s' t') :
    Q s' ∨ p'.Leads P Q R := by
  cases h with
  | step => exact hp s hs
  | note => exact .inr hp
  | ask => exact .inr (hp _)

end Process

namespace Pool

variable {σ τ D ι ρ : Type} {A : D → Type} {rules : Rules σ τ D A ι ρ}
  {origin : Pool σ τ D A ι ρ} {run : Nat → Pool σ τ D A ι ρ} {P Q : σ → Prop} {first k c : Nat}
  {i : ι} {p : Process σ D A ρ}

-- At this time it is the call at this place that goes on.
def Turns (rules : Rules σ τ D A ι ρ) (run : Nat → Pool σ τ D A ι ρ) (c j : Nat) : Prop :=
  ∃ i p p', (run j).calls[c]? = some (i, p) ∧
    p.Moves rules.answers (run j).state (run j).around p' (run (j + 1)).state (run (j + 1)).around ∧
    (run (j + 1)).calls = (run j).calls.set c (i, p')

-- What a call is like when it is made and what no move of it takes away, it is like all along,
-- unless it has left a state like `Q` meanwhile.
theorem Run.call_of_moves (hrun : Run rules origin run) {K : Process σ D A ρ → Prop}
    (hP : ∀ j, first ≤ j → P (run j).state) (hstart : K (rules.start i))
    (hmoves : ∀ {p p' s s' t t'}, K p → P s → p.Moves rules.answers s t p' s' t' → Q s' ∨ K p')
    (hmade : (run first).calls.length ≤ c) (hk : first ≤ k) (hcall : (run k).calls[c]? = some (i, p)) :
    (∃ j, first ≤ j ∧ j < k ∧ Turns rules run c j ∧ Q (run (j + 1)).state) ∨ K p := by
  induction k, hk using Nat.le_induction generalizing p with
  | base =>
    rw [List.getElem?_eq_none hmade] at hcall
    cases hcall
  | succ k hk ih =>
    have hbefore : ∀ {p}, (run k).calls[c]? = some (i, p) →
        (∃ j, first ≤ j ∧ j < k + 1 ∧ Turns rules run c j ∧ Q (run (j + 1)).state) ∨ K p :=
      fun hcall => (ih hcall).imp_left fun ⟨j, hj, hlt, hleft⟩ =>
        ⟨j, hj, Nat.lt_succ_of_lt hlt, hleft⟩
    rcases hrun.step k with hsame | hstep
    · rw [hsame] at hcall
      exact hbefore hcall
    rcases places_of_step hstep with ⟨-, other, hcalls⟩ | ⟨d, other, q, q', hd, hmove, hcalls⟩
    · rw [hcalls, List.getElem?_append] at hcall
      split at hcall
      · exact hbefore hcall
      · obtain ⟨rfl, rfl⟩ := Prod.mk.inj (List.mem_singleton.mp (List.mem_of_getElem? hcall))
        exact .inr hstart
    · rw [hcalls] at hcall
      by_cases hplace : d = c
      · subst hplace
        obtain ⟨hlt, -⟩ := List.getElem?_eq_some_iff.mp hd
        rw [List.getElem?_set_self hlt] at hcall
        obtain ⟨rfl, rfl⟩ := Prod.mk.inj (Option.some.inj hcall)
        rcases hbefore hd with hleft | hkept
        · exact .inl hleft
        · refine (hmoves hkept (hP k hk) hmove).imp_left fun hq => ?_
          exact ⟨k, hk, k.lt_succ_self, ⟨_, _, _, hd, hmove, hcalls⟩, hq⟩
      · rw [List.getElem?_set_ne hplace] at hcall
        exact hbefore hcall

-- A call leads where its process does, if what that relies on holds from when the call was made.
theorem Run.leads (hrun : Run rules origin run) {R : ρ → Prop}
    (hP : ∀ j, first ≤ j → P (run j).state) (hstart : (rules.start i).Leads P Q R)
    (hmade : (run first).calls.length ≤ c) (hk : first ≤ k) (hcall : (run k).calls[c]? = some (i, p)) :
    (∃ j, first ≤ j ∧ j < k ∧ Turns rules run c j ∧ Q (run (j + 1)).state) ∨ p.Leads P Q R :=
  hrun.call_of_moves hP hstart (fun hp hs h => hp.moves hs h) hmade hk hcall

end Pool

end GpioBridge
