import GpioBridge.Proofs.Process.Pool
import Mathlib.Data.List.Forall2

namespace GpioBridge

structure Plan (σ D : Type) (A : D → Type) (φ : Type) where
  -- At a stage, which changes of which states may come next, and what stage comes then.
  step : φ → (σ → σ) → σ → φ → Prop
  -- At a stage, which demands may come next, and what stage comes after which answer.
  ask : φ → (demand : D) → A demand → φ → Prop

variable {σ τ D ι ρ φ α β : Type} {A : D → Type}

-- The process is at a stage of the plan and follows it until it ends.
inductive Process.Follows (plan : Plan σ D A φ) (last : α → φ → Prop) :
    φ → Process σ D A α → Prop where
  | done {g result} (h : last result g) : Follows plan last g (.done result)
  | note {g event next} (h : Follows plan last g next) : Follows plan last g (.note event next)
  | step {g change next} (onward : σ → φ) (ht : ∀ s, plan.step g change s (onward s))
      (h : ∀ s, Follows plan last (onward s) (next s)) : Follows plan last g (.step change next)
  | ask {g demand next} (onward : A demand → φ) (ht : ∀ a, plan.ask g demand a (onward a))
      (h : ∀ a, Follows plan last (onward a) (next a)) : Follows plan last g (.ask demand next)

theorem Process.Follows.bind {plan : Plan σ D A φ} {mid : α → φ → Prop} {last : β → φ → Prop}
    {g : φ} {p : Process σ D A α} {f : α → Process σ D A β} (hp : p.Follows plan mid g)
    (hf : ∀ a g, mid a g → (f a).Follows plan last g) : (p.bind f).Follows plan last g := by
  induction hp with
  | done h => exact hf _ _ h
  | note _ ih => exact .note ih
  | step onward ht _ ih => exact .step onward ht ih
  | ask onward ht _ ih => exact .ask onward ht ih

namespace Plan

variable (plan : Plan σ D A φ) (answers : (demand : D) → τ → A demand → τ → Prop)

-- What one move of a process does, as the plan has it.
inductive Goes : φ → σ → τ → φ → σ → τ → Prop where
  | step {g g' change s t} (h : plan.step g change s g') : Goes g s t g' (change s) t
  | ask {g g' demand a s t t'} (h : plan.ask g demand a g') (ha : answers demand t a t') :
      Goes g s t g' s t'

-- What one step of a pool does, as the plan has it. A call at stage `g` waits for one at `g'` if
-- `waits g g'`; what it only says to the log need not wait.
inductive Advances (start : ι → φ) (waits : φ → φ → Prop) :
    List (ι × φ) → σ → τ → List (ι × φ) → σ → τ → Prop where
  | call (i : ι) {calls s t} : Advances start waits calls s t (calls ++ [(i, start i)]) s t
  | note {calls s t} : Advances start waits calls s t calls s t
  | move {before after i g g' s t s' t'} (h : plan.Goes answers g s t g' s' t')
      (free : ∀ other ∈ before ++ after, ¬waits g other.2) :
      Advances start waits (before ++ (i, g) :: after) s t (before ++ (i, g') :: after) s' t'

variable {plan answers}

theorem goes_of_moves {last : α → φ → Prop} {g : φ} {p p' : Process σ D A α} {s s' : σ} {t t' : τ}
    (hp : p.Follows plan last g) (h : p.Moves answers s t p' s' t') :
    (p'.Follows plan last g ∧ s' = s ∧ t' = t) ∨
      ((∀ event next, p ≠ .note event next) ∧
        ∃ g', p'.Follows plan last g' ∧ plan.Goes answers g s t g' s' t') := by
  cases h with
  | step =>
    cases hp with
    | step onward ht h => exact .inr ⟨by simp, onward s, h s, .step (ht s)⟩
  | note =>
    cases hp with
    | note h => exact .inl ⟨h, rfl, rfl⟩
  | ask ha =>
    cases hp with
    | ask onward ht h => exact .inr ⟨by simp, onward _, h _, .ask (ht _) ha⟩

private theorem forall₂_append_left {R : α → β → Prop} {l₁ l₂ : List α} {m : List β}
    (h : List.Forall₂ R (l₁ ++ l₂) m) :
    ∃ m₁ m₂, List.Forall₂ R l₁ m₁ ∧ List.Forall₂ R l₂ m₂ ∧ m = m₁ ++ m₂ := by
  induction l₁ generalizing m with
  | nil => exact ⟨[], m, .nil, h, rfl⟩
  | cons a l₁ ih =>
    cases h with
    | cons hab hrest =>
      obtain ⟨m₁, m₂, h₁, h₂, rfl⟩ := ih hrest
      exact ⟨_ :: m₁, m₂, .cons hab h₁, h₂, rfl⟩

private theorem exists_of_forall₂ {R : α → β → Prop} {l : List α} {m : List β} {b : β}
    (h : List.Forall₂ R l m) (hb : b ∈ m) : ∃ a ∈ l, R a b := by
  induction h with
  | nil => simp at hb
  | cons hab _ ih =>
    rcases List.mem_cons.mp hb with rfl | hb
    · exact ⟨_, List.mem_cons_self, hab⟩
    · obtain ⟨a, ha, hR⟩ := ih hb
      exact ⟨a, List.mem_cons_of_mem _ ha, hR⟩

-- The call that moves, and then the others.
theorem perm_middle (before after : List (ι × φ)) (i : ι) (g : φ) :
    ((before ++ (i, g) :: after).map (·.2)).Perm (g :: (before ++ after).map (·.2)) :=
  List.perm_middle.map _

-- The calls of a pool are at these stages.
def Stands (plan : Plan σ D A φ) (last : ρ → φ → Prop) (calls : List (ι × Process σ D A ρ))
    (stages : List (ι × φ)) : Prop :=
  List.Forall₂ (fun call stage => call.1 = stage.1 ∧ call.2.Follows plan last stage.2) calls stages

theorem Stands.map_fst {last : ρ → φ → Prop} {calls : List (ι × Process σ D A ρ)}
    {stages : List (ι × φ)} (h : Stands plan last calls stages) :
    calls.map (·.1) = stages.map (·.1) := by
  induction h with
  | nil => rfl
  | cons hc _ ih => rw [List.map_cons, List.map_cons, hc.1, ih]

theorem Stands.exists_call {last : ρ → φ → Prop} {calls : List (ι × Process σ D A ρ)}
    {stages : List (ι × φ)} (h : Stands plan last calls stages) {stage : ι × φ}
    (hs : stage ∈ stages) :
    ∃ call ∈ calls, call.1 = stage.1 ∧ call.2.Follows plan last stage.2 :=
  exists_of_forall₂ h hs

theorem Stands.exists_stage {last : ρ → φ → Prop} {calls : List (ι × Process σ D A ρ)}
    {stages : List (ι × φ)} (h : Stands plan last calls stages) {call : ι × Process σ D A ρ}
    (hc : call ∈ calls) :
    ∃ stage ∈ stages, call.1 = stage.1 ∧ call.2.Follows plan last stage.2 :=
  exists_of_forall₂ h.flip hc

-- What holds of any two calls holds of their stages.
theorem Stands.pairwise {last : ρ → φ → Prop} {calls : List (ι × Process σ D A ρ)}
    {stages : List (ι × φ)} (h : Stands plan last calls stages)
    {P : ι × Process σ D A ρ → ι × Process σ D A ρ → Prop} {Q : ι × φ → ι × φ → Prop}
    (hP : calls.Pairwise P)
    (hQ : ∀ {call other stage stage'}, stage ∈ stages → stage' ∈ stages →
      call.1 = stage.1 ∧ call.2.Follows plan last stage.2 →
      other.1 = stage'.1 ∧ other.2.Follows plan last stage'.2 → P call other → Q stage stage') :
    stages.Pairwise Q := by
  induction h with
  | nil => exact .nil
  | @cons call stage calls stages hc hrest ih =>
    obtain ⟨hhead, htail⟩ := List.pairwise_cons.mp hP
    refine List.pairwise_cons.mpr ⟨fun other hother => ?_, ih htail fun hs hs' =>
      hQ (List.mem_cons_of_mem _ hs) (List.mem_cons_of_mem _ hs')⟩
    obtain ⟨otherCall, hmem, hsame, hfollows⟩ := Stands.exists_call hrest hother
    exact hQ List.mem_cons_self (List.mem_cons_of_mem _ hother) hc ⟨hsame, hfollows⟩
      (hhead otherCall hmem)

-- A step of a pool whose calls follow the plan is a step of the plan.
theorem advances_of_step {last : ρ → φ → Prop} {rules : Pool.Rules σ τ D A ι ρ} {start : ι → φ}
    {w : φ → φ → Prop} (hstart : ∀ i, (rules.start i).Follows plan last (start i))
    (hwaits : ∀ {p q g g'}, p.Follows plan last g → q.Follows plan last g' → w g g' →
      (∀ event next, p ≠ .note event next) → ¬p.Returned → rules.waits p q)
    {pool next : Pool σ τ D A ι ρ} (h : Pool.Step rules pool next) {stages : List (ι × φ)}
    (hs : Stands plan last pool.calls stages) :
    ∃ stages', Stands plan last next.calls stages' ∧
      plan.Advances rules.answers start w stages pool.state pool.around stages' next.state
        next.around := by
  cases h with
  | call i =>
    exact ⟨stages ++ [(i, start i)], List.rel_append hs (.cons ⟨rfl, hstart i⟩ .nil), .call i⟩
  | @move i p p' s s' t t' before after h free =>
    obtain ⟨before', rest, hb, hr, rfl⟩ := forall₂_append_left hs
    obtain ⟨⟨j, g⟩, after', ⟨hi, hp⟩, ha, rfl⟩ := List.forall₂_cons_left_iff.mp hr
    obtain rfl : i = j := hi
    rcases goes_of_moves hp h with ⟨hp', rfl, rfl⟩ | ⟨hnote, g', hp', hg⟩
    · exact ⟨before' ++ (i, g) :: after', List.rel_append hb (.cons ⟨rfl, hp'⟩ ha), .note⟩
    refine ⟨before' ++ (i, g') :: after', List.rel_append hb (.cons ⟨rfl, hp'⟩ ha), .move hg ?_⟩
    intro other hmem hw
    have hothers := List.rel_append hb ha
    obtain ⟨call, hcall, -, hq⟩ := Stands.exists_call hothers hmem
    have hunreturned : ¬p.Returned := by
      rintro ⟨result, rfl⟩
      cases h
    exact free call hcall (hwaits hp hq hw hnote hunreturned)

end Plan

end GpioBridge
