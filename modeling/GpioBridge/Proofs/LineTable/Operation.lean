import GpioBridge.Proofs.LineTable.Holder
import GpioBridge.Proofs.Process.Pool

namespace GpioBridge.LineTable

inductive Operation (ω : Type) where
  | expose (descriptor : Descriptor) (ops : ω)
  | conceal (handle : Handle)
  | request (uid : UInt64) (pin : UInt32) (consumer : String)
  | release (uid : UInt64) (pin : UInt32)
  deriving DecidableEq

inductive Outcome (ω : Type) where
  | exposed (result : Except Fault Handle)
  | concealed
  | requested (result : Except Fault ω)
  | released (result : Except Fault Unit)
  deriving DecidableEq

variable {ω : Type}

def Operation.process : Operation ω → TableProcess ω (Outcome ω)
  | .expose descriptor ops =>
    (LineTable.expose descriptor ops).bind fun result => .done (.exposed result)
  | .conceal handle => (LineTable.conceal handle).bind fun _ => .done .concealed
  | .request uid pin consumer =>
    (LineTable.request uid pin consumer).bind fun result => .done (.requested result)
  | .release uid pin => (LineTable.release uid pin).bind fun result => .done (.released result)

abbrev Calls (ω τ : Type) :=
  Pool (LineTable ω) τ (FreeDemand ω) (fun _ => Except Fault Unit) (Operation ω) (Outcome ω)

-- The calls on a table, whatever becomes of freeing a line and however they wait for each other.
def rules {τ : Type} (answers : FreeDemand ω → τ → Except Fault Unit → τ → Prop)
    (waits : TableProcess ω (Outcome ω) → TableProcess ω (Outcome ω) → Prop) :
    Pool.Rules (LineTable ω) τ (FreeDemand ω) (fun _ => Except Fault Unit) (Operation ω)
      (Outcome ω) :=
  { start := Operation.process, answers, waits }

-- What a request reports.
def Grant.result : Grant ω → Except Fault ω
  | .granted ops => .ok ops
  | .heldBy _ => .error .busy
  | .refused fault => .error fault

-- What a release has left to do between finding the line held and giving it up.
inductive Freeing (uid : UInt64) (pin : UInt32) : TableProcess ω (Outcome ω) → Prop where
  | ask {demand next} (h : ∀ answer, Freeing uid pin (next answer)) :
      Freeing uid pin (.ask demand next)
  | note {event next} (h : Freeing uid pin next) : Freeing uid pin (.note event next)
  | giveUp {next} (h : ∀ table, (next table).result?.isSome = true) :
      Freeing uid pin (.step (setHolder uid pin none) next)

theorem Freeing.result? {uid : UInt64} {pin : UInt32} {p : TableProcess ω (Outcome ω)}
    (h : Freeing uid pin p) : p.result? = none := by
  induction h with
  | ask | giveUp => rfl
  | note _ ih => exact ih

-- How far a call can have come.
inductive Progress : Operation ω → TableProcess ω (Outcome ω) → Prop where
  | fresh (operation : Operation ω) : Progress operation operation.process
  | freeing {uid pin p} (h : Freeing uid pin p) : Progress (.release uid pin) p
  | settled {operation p} (h : p.result?.isSome = true) : Progress operation p

-- What one move of a call does to the table.
inductive Does : Operation ω → TableProcess ω (Outcome ω) → LineTable ω →
    TableProcess ω (Outcome ω) → LineTable ω → Prop where
  | expose {descriptor ops p p' table} :
      Does (.expose descriptor ops) p table p' (table.add descriptor ops).2
  | conceal {handle p p' table} : Does (.conceal handle) p table p' (table.remove handle).2
  | request {uid pin consumer p p' table} {result : Grant ω} {table' : LineTable ω}
      (hp : p.result? = none) (h : Grants uid pin consumer table result table')
      (hp' : p'.result? = some (.requested result.result)) :
      Does (.request uid pin consumer) p table p' table'
  | look {uid pin p p' table} : Does (.release uid pin) p table p' table
  | giveUp {uid pin p p' table} (hp : Freeing uid pin p) (hp' : p'.result?.isSome = true) :
      Does (.release uid pin) p table p' (table.setHolder uid pin none)
  | settled {operation p p' table} (hp : p.result?.isSome = true) (hp' : p'.result? = p.result?) :
      Does operation p table p' table

variable {τ : Type} {answers : FreeDemand ω → τ → Except Fault Unit → τ → Prop}
  {p p' : TableProcess ω (Outcome ω)} {table table' : LineTable ω} {t t' : τ} {uid : UInt64}
  {pin : UInt32}

theorem moves_of_settled (h : p.Moves answers table t p' table' t')
    (hp : p.result?.isSome = true) : p'.result? = p.result? ∧ table' = table := by
  cases h with
  | note => exact ⟨rfl, rfl⟩
  | step | ask => cases hp

theorem moves_of_freeing (h : p.Moves answers table t p' table' t') (hp : Freeing uid pin p) :
    (Freeing uid pin p' ∧ table' = table) ∨
      (p'.result?.isSome = true ∧ table' = table.setHolder uid pin none) := by
  cases hp with
  | ask hnext =>
    cases h with
    | ask => exact .inl ⟨hnext _, rfl⟩
  | note hnext =>
    cases h with
    | note => exact .inl ⟨hnext, rfl⟩
  | giveUp hnext =>
    cases h with
    | step => exact .inr ⟨hnext _, rfl⟩

-- A release that has looked at the table has ended or is to free the line.
theorem moves_of_release
    (h : (Operation.release uid pin).process.Moves answers table t p' table' t') :
    (Freeing uid pin p' ∨ p'.result?.isSome = true) ∧ table' = table := by
  simp only [Operation.process, LineTable.release, Process.bind_eq, Process.pure_eq,
    Process.get_bind, Process.bind] at h
  cases h with
  | step =>
    refine ⟨?_, rfl⟩
    dsimp only
    cases table.releasable uid pin with
    | error fault => exact .inr rfl
    | ok ops =>
      refine .inl (.ask fun answer => ?_)
      cases answer with
      | error fault => exact .note (.giveUp fun _ => rfl)
      | ok => exact .giveUp fun _ => rfl

theorem does_of_moves {operation : Operation ω} (hp : Progress operation p)
    (h : p.Moves answers table t p' table' t') :
    Progress operation p' ∧ Does operation p table p' table' := by
  cases hp with
  | settled hp =>
    obtain ⟨hp', rfl⟩ := moves_of_settled h hp
    exact ⟨.settled (by rwa [hp']), .settled hp hp'⟩
  | freeing hp =>
    rcases moves_of_freeing h hp with ⟨hp', rfl⟩ | ⟨hp', rfl⟩
    · exact ⟨.freeing hp', .look⟩
    · exact ⟨.settled hp', .giveUp hp hp'⟩
  | fresh =>
    cases operation with
    | release uid pin =>
      obtain ⟨hp' | hp', rfl⟩ := moves_of_release h
      · exact ⟨.freeing hp', .look⟩
      · exact ⟨.settled hp', .look⟩
    | expose descriptor ops =>
      simp only [Operation.process, LineTable.expose, Process.bind_eq, Process.pure_eq,
        Process.update_bind, Process.bind] at h ⊢
      cases h with
      | step =>
        refine ⟨.settled ?_, .expose⟩
        dsimp only
        cases (table.add descriptor ops).1 <;> rfl
    | conceal handle =>
      simp only [Operation.process, LineTable.conceal, Process.bind_eq, Process.pure_eq,
        Process.update_bind, Process.bind] at h ⊢
      cases h with
      | step =>
        refine ⟨.settled ?_, .conceal⟩
        dsimp only
        cases (table.remove handle).1 <;> rfl
    | request uid pin consumer =>
      simp only [Operation.process, LineTable.request, Process.bind_eq, Process.pure_eq,
        Process.update_bind, Process.bind] at h ⊢
      cases h with
      | step =>
        have hgrants := grants_grant uid pin consumer table
        dsimp only
        generalize (table.grant uid pin consumer).1 = grant at hgrants ⊢
        cases grant <;> exact ⟨.settled rfl, .request rfl hgrants rfl⟩

section Does

variable {operation : Operation ω} {consumer : String}

theorem distinct_of_does (h : table.Distinct) (hdoes : Does operation p table p' table') :
    table'.Distinct := by
  cases hdoes with
  | expose => exact distinct_add h
  | conceal => exact distinct_remove h
  | request _ hgrants _ =>
    cases hgrants with
    | refused | heldBy => exact h
    | granted => exact distinct_setHolder h
  | giveUp => exact distinct_setHolder h
  | look | settled => exact h

theorem holder?_of_granted {ops : ω} (hdoes : Does (.request uid pin consumer) p table p' table')
    (hp : p.result? = none) (hp' : p'.result? = some (.requested (.ok ops))) :
    table.holder? uid pin = none ∧ table'.holder? uid pin = some consumer := by
  cases hdoes with
  | settled hsettled _ =>
    rw [hp] at hsettled
    cases hsettled
  | request _ hgrants hresult =>
    rw [hp'] at hresult
    cases hgrants with
    | refused | heldBy =>
      injection hresult with hresult
      injection hresult with hresult
      cases hresult
    | granted hfound hfree =>
      obtain ⟨hslot, -⟩ := List.getElem?_eq_some_iff.mp hfree
      exact ⟨holder?_of_free hfound hfree, holder?_setHolder_of_slot hfound hslot⟩

-- While its chip stays exposed, a consumer loses a line only to a release that gives it up.
theorem holder?_of_does (h : table.Distinct) (hdoes : Does operation p table p' table')
    (hheld : table.holder? uid pin = some consumer) (hstays : table'.find? uid ≠ none) :
    table'.holder? uid pin = some consumer ∨
      operation = .release uid pin ∧ Freeing uid pin p ∧ p'.result?.isSome = true := by
  cases hdoes with
  | expose =>
    left
    rw [holder?_add h (find?_ne_none_of_holder? hheld) hstays, hheld]
  | conceal =>
    left
    rw [holder?_remove h hstays, hheld]
  | look | settled => exact .inl hheld
  | request _ hgrants _ =>
    left
    cases hgrants with
    | refused | heldBy => exact hheld
    | granted hfound hfree => exact holder?_setHolder_of_held hheld hfound hfree
  | @giveUp other line _ _ _ hp hp' =>
    by_cases hsame : (other, line) = (uid, pin)
    · obtain ⟨rfl, rfl⟩ := Prod.mk.inj hsame
      exact .inr ⟨rfl, hp, hp'⟩
    · left
      rw [holder?_setHolder_of_ne hsame, hheld]

end Does

end GpioBridge.LineTable
