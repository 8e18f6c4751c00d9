import GpioBridge.Proofs.Process.Pool
import Mathlib.Data.List.Chain
import Mathlib.Logic.Relation
import Mathlib.Tactic.NthRewrite

namespace GpioBridge

variable {σ τ D ι ρ : Type} {A : D → Type}

-- The next move of a process, where there is one, its demands being answered by a function.
def Process.move? (reply : (demand : D) → τ → A demand × τ) :
    Process σ D A ρ → σ → τ → Option (Process σ D A ρ × σ × τ)
  | .done _, _, _ => none
  | .step change next, s, t => some (next s, change s, t)
  | .note _ next, s, t => some (next, s, t)
  | .ask demand next, s, t => some (next (reply demand t).1, s, (reply demand t).2)

def Process.isDone : Process σ D A ρ → Bool
  | .done _ => true
  | _ => false

theorem Process.returned_of_isDone {p : Process σ D A ρ} (h : p.isDone = true) : p.Returned := by
  cases p with
  | done result => exact ⟨result, rfl⟩
  | _ => cases h

theorem Process.isDone_of_returned {p : Process σ D A ρ} (h : p.Returned) : p.isDone = true := by
  obtain ⟨result, rfl⟩ := h
  rfl

instance (p : Process σ D A ρ) : Decidable p.Returned :=
  decidable_of_iff (p.isDone = true) ⟨Process.returned_of_isDone, Process.isDone_of_returned⟩

def Process.isPaused : Process σ D A ρ → Bool
  | .done _ | .ask _ _ => true
  | _ => false

theorem Process.isPaused_iff {p : Process σ D A ρ} : p.isPaused = true ↔ p.Paused := by
  constructor
  · intro h
    cases p with
    | done result => exact .inl ⟨result, rfl⟩
    | ask demand next => exact .inr ⟨demand, next, rfl⟩
    | _ => cases h
  · rintro (⟨result, rfl⟩ | ⟨demand, next, rfl⟩) <;> rfl

instance (p : Process σ D A ρ) : Decidable p.Paused := decidable_of_iff _ Process.isPaused_iff

theorem Process.moves_of_move? {answers : (demand : D) → τ → A demand → τ → Prop}
    {reply : (demand : D) → τ → A demand × τ}
    (hreply : ∀ demand t, answers demand t (reply demand t).1 (reply demand t).2)
    {p p' : Process σ D A ρ} {s s' : σ} {t t' : τ} (h : p.move? reply s t = some (p', s', t')) :
    p.Moves answers s t p' s' t' := by
  cases p with
  | done result => cases h
  | step change next =>
    cases h
    exact .step
  | note event next =>
    cases h
    exact .note
  | ask demand next =>
    cases h
    exact .ask (hreply demand t)

namespace Pool

-- Whose turn it is: somebody makes a call, or the call at a place goes on.
inductive Turn (ι : Type) where
  | call (i : ι)
  | move (place : Nat)

-- How runs are computed: what calls do, how they are answered, and which call may have to wait for
-- which.
structure Table (σ τ D : Type) (A : D → Type) (ι ρ : Type) where
  start : ι → Process σ D A ρ
  reply : (demand : D) → τ → A demand × τ
  blocks : Process σ D A ρ → Process σ D A ρ → Bool := fun _ _ => false

variable (table : Table σ τ D A ι ρ)

def turn? : Turn ι → Pool σ τ D A ι ρ → Option (Pool σ τ D A ι ρ)
  | .call i, pool => some { pool with calls := pool.calls ++ [(i, table.start i)] }
  | .move place, pool => do
    let (i, p) ← pool.calls[place]?
    if (pool.calls.eraseIdx place).any fun other => table.blocks p other.2 then none
    else
      let (p', s', t') ← p.move? table.reply pool.state pool.around
      return ⟨s', t', pool.calls.set place (i, p')⟩

-- What becomes of a pool by these turns, each of which has to pass a check. A turn that cannot be
-- taken is passed over.
def play (check : Pool σ τ D A ι ρ → Pool σ τ D A ι ρ → Bool) :
    List (Turn ι) → Pool σ τ D A ι ρ → Option (List (Pool σ τ D A ι ρ))
  | [], pool => some [pool]
  | turn :: rest, pool =>
    match pool.turn? table turn with
    | none => pool.play check rest
    | some next => if check pool next then (next.play check rest).map (pool :: ·) else none

variable {table}

theorem step_of_turn? {rules : Rules σ τ D A ι ρ} (hstart : rules.start = table.start)
    (hreply : ∀ demand t, rules.answers demand t (table.reply demand t).1 (table.reply demand t).2)
    (hblocks : ∀ p q, table.blocks p q = false → ¬rules.waits p q) {turn : Turn ι}
    {pool next : Pool σ τ D A ι ρ} (h : pool.turn? table turn = some next) :
    Step rules pool next := by
  obtain ⟨s, t, calls⟩ := pool
  cases turn with
  | call i =>
    cases h
    rw [← hstart]
    exact .call i
  | move place =>
    cases hc : calls[place]? with
    | none => simp [turn?, hc] at h
    | some call =>
      obtain ⟨i, p⟩ := call
      obtain ⟨hlt, hget⟩ := List.getElem?_eq_some_iff.mp hc
      cases hb : (calls.eraseIdx place).any fun other => table.blocks p other.2 with
      | true => simp [turn?, hc, hb] at h
      | false =>
        cases hm : p.move? table.reply s t with
        | none => simp [turn?, hc, hb, hm] at h
        | some moved =>
          obtain ⟨p', s', t'⟩ := moved
          obtain rfl : ⟨s', t', calls.set place (i, p')⟩ = next := by
            simpa [turn?, hc, hb, hm] using h
          have hsplit : calls = calls.take place ++ (i, p) :: calls.drop (place + 1) := by
            rw [← hget, ← List.drop_eq_getElem_cons hlt, List.take_append_drop]
          rw [List.set_eq_take_append_cons_drop, if_pos hlt]
          nth_rewrite 1 [hsplit]
          refine .move (Process.moves_of_move? hreply hm) fun other hother => hblocks p other.2 ?_
          rw [← List.eraseIdx_eq_take_drop_succ] at hother
          simpa using List.any_eq_false.mp hb other hother

variable {R : Pool σ τ D A ι ρ → Pool σ τ D A ι ρ → Prop}
  {check : Pool σ τ D A ι ρ → Pool σ τ D A ι ρ → Bool}

theorem isChain_of_play
    (hR : ∀ turn pool next, pool.turn? table turn = some next → check pool next = true →
      R pool next)
    {turns : List (Turn ι)} {pool : Pool σ τ D A ι ρ} {run : List (Pool σ τ D A ι ρ)}
    (h : pool.play table check turns = some run) :
    run.IsChain R ∧ run.head? = some pool := by
  induction turns generalizing pool run with
  | nil =>
    cases h
    exact ⟨.singleton pool, rfl⟩
  | cons turn rest ih =>
    cases ht : pool.turn? table turn with
    | none => exact ih (by simpa [play, ht] using h)
    | some next =>
      cases hc : check pool next with
      | false => simp [play, ht, hc] at h
      | true =>
        obtain ⟨later, hlater, rfl⟩ : ∃ later, next.play table check rest = some later ∧
            pool :: later = run := by simpa [play, ht, hc] using h
        obtain ⟨hchain, hhead⟩ := ih hlater
        obtain ⟨tail, rfl⟩ := List.head?_eq_some_iff.mp hhead
        exact ⟨.cons_cons (hR turn pool next ht hc) hchain, rfl⟩

theorem reaches_of_play
    (hR : ∀ turn pool next, pool.turn? table turn = some next → check pool next = true →
      R pool next)
    {turns : List (Turn ι)} {pool last : Pool σ τ D A ι ρ} {run : List (Pool σ τ D A ι ρ)}
    (h : pool.play table check turns = some run) (hlast : run.getLast? = some last) :
    Relation.ReflTransGen R pool last := by
  obtain ⟨hchain, hhead⟩ := isChain_of_play hR h
  obtain ⟨tail, rfl⟩ := List.head?_eq_some_iff.mp hhead
  refine List.relationReflTransGen_of_exists_isChain_cons tail hchain ?_
  rw [List.getLast?_eq_some_getLast (List.cons_ne_nil pool tail)] at hlast
  exact Option.some.inj hlast

-- Every place of a run is reached by steps.
theorem Run.reaches {rules : Rules σ τ D A ι ρ} {first : Pool σ τ D A ι ρ}
    {run : Nat → Pool σ τ D A ι ρ} (h : Run rules first run) (k : Nat) :
    Relation.ReflTransGen (Step rules) first (run k) := by
  induction k with
  | zero => rw [h.first]
  | succ k ih =>
    rcases h.step k with heq | hstep
    · rwa [heq]
    · exact ih.tail hstep

theorem run_of_isChain {rules : Rules σ τ D A ι ρ} {first last : Pool σ τ D A ι ρ}
    {pools : List (Pool σ τ D A ι ρ)} (hchain : pools.IsChain (Step rules))
    (hfirst : pools.head? = some first) (hlast : pools.getLast? = some last) :
    Run rules first fun k => pools.getD k last where
  first := by
    rw [List.getD_eq_getElem?_getD, ← List.head?_eq_getElem?, hfirst]
    rfl
  step k := by
    rw [List.getD_eq_getElem?_getD, List.getD_eq_getElem?_getD]
    rcases lt_trichotomy (k + 1) pools.length with hlt | hend | hgt
    · rw [List.getElem?_eq_getElem hlt, List.getElem?_eq_getElem (by omega)]
      exact .inr (List.isChain_iff_getElem.mp hchain k hlt)
    · have hk : pools[k]? = some last := by
        rw [← hlast, List.getLast?_eq_getElem?, ← hend, Nat.add_sub_cancel]
      rw [List.getElem?_eq_none hend.ge, hk]
      exact .inl rfl
    · rw [List.getElem?_eq_none (by omega), List.getElem?_eq_none (by omega)]
      exact .inl rfl

end Pool

end GpioBridge
