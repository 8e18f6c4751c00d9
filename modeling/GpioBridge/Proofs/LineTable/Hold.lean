import GpioBridge.Proofs.LineTable.Operation
import GpioBridge.Proofs.Process.Play

namespace GpioBridge.LineTable

variable {ω τ : Type} {answers : FreeDemand ω → τ → Except Fault Unit → τ → Prop}
  {waits : TableProcess ω (Outcome ω) → TableProcess ω (Outcome ω) → Prop}

-- A release of the line has found it held and has not given it up yet.
def UnderWay (uid : UInt64) (pin : UInt32) (c : Nat) (pool : Calls ω τ) : Prop :=
  ∃ p, pool.calls[c]? = some (.release uid pin, p) ∧ Freeing uid pin p

-- A release gives the line up.
def Finishes (uid : UInt64) (pin : UInt32) (c : Nat) (pool next : Calls ω τ) : Prop :=
  UnderWay uid pin c pool ∧ ¬UnderWay uid pin c next

-- A request gets the line for the consumer.
def Granted (uid : UInt64) (pin : UInt32) (consumer : String) (pool next : Calls ω τ) : Prop :=
  ∃ c ops, pool.report? c = some (.request uid pin consumer, none) ∧
    next.report? c = some (.request uid pin consumer, some (.requested (.ok ops)))

-- The uid is not exposed at some time between. A chip is withdrawn before another gets its uid.
def Withdrawn (run : Nat → Calls ω τ) (uid : UInt64) (first last : Nat) : Prop :=
  ∃ k, first < k ∧ k ≤ last ∧ (run k).state.find? uid = none

-- Between the two times a release of the line finishes that was not under way at the first.
def ReleasedSince (run : Nat → Calls ω τ) (uid : UInt64) (pin : UInt32) (first last : Nat) : Prop :=
  ∃ c k, first < k ∧ k < last ∧ ¬UnderWay uid pin c (run first) ∧
    Finishes uid pin c (run k) (run (k + 1))

-- From one time on the line is recorded as the consumer's until it is released or withdrawn.
def Lasts (run : Nat → Calls ω τ) (uid : UInt64) (pin : UInt32) (consumer : String)
    (first : Nat) : Prop :=
  ∀ n, first < n → (run n).state.holder? uid pin = some consumer ∨ Withdrawn run uid first n ∨
    ReleasedSince run uid pin first n

-- No uid is exposed twice, and every call is at a place it can come to.
structure Coherent (pool : Calls ω τ) : Prop where
  distinct : pool.state.Distinct
  progress : ∀ call ∈ pool.calls, Progress call.1 call.2

section Step

variable {pool next : Calls ω τ} {uid : UInt64} {pin : UInt32} {consumer : String} {c : Nat}

-- A step is a call that is made, or what a call does next.
theorem does_of_step (h : Coherent pool) (hs : Pool.Step (rules answers waits) pool next) :
    (next.state = pool.state ∧
        ∃ operation, next.calls = pool.calls ++ [(operation, operation.process)]) ∨
      ∃ c operation p p', pool.calls[c]? = some (operation, p) ∧ Progress operation p' ∧
        Does operation p pool.state p' next.state ∧
          next.calls = pool.calls.set c (operation, p') := by
  rcases Pool.places_of_step hs with
    ⟨hstate, operation, hcalls⟩ | ⟨c, operation, p, p', hc, hm, hcalls⟩
  · exact .inl ⟨hstate, operation, hcalls⟩
  · obtain ⟨hp', hdoes⟩ := does_of_moves (h.progress _ (List.mem_of_getElem? hc)) hm
    exact .inr ⟨c, operation, p, p', hc, hp', hdoes, hcalls⟩

theorem coherent_of_step (h : Coherent pool) (hs : Pool.Step (rules answers waits) pool next) :
    Coherent next := by
  rcases does_of_step h hs with ⟨hstate, operation, hcalls⟩ |
    ⟨c, operation, p, p', -, hp', hdoes, hcalls⟩
  · refine ⟨hstate ▸ h.distinct, fun call hcall => ?_⟩
    rw [hcalls, List.mem_append, List.mem_singleton] at hcall
    rcases hcall with hcall | rfl
    · exact h.progress call hcall
    · exact .fresh operation
  · refine ⟨distinct_of_does h.distinct hdoes, fun call hcall => ?_⟩
    rw [hcalls] at hcall
    rcases List.mem_or_eq_of_mem_set hcall with hcall | rfl
    · exact h.progress call hcall
    · exact hp'

-- Where a call is at another place afterwards, it is the one that moved.
theorem moves_of_ne (hs : Pool.Step (rules answers waits) pool next)
    {operation : Operation ω} {p : TableProcess ω (Outcome ω)}
    (hc : pool.calls[c]? = some (operation, p)) (hne : next.calls[c]? ≠ some (operation, p)) :
    ∃ p', p.Moves answers pool.state pool.around p' next.state next.around ∧
      next.calls = pool.calls.set c (operation, p') := by
  obtain ⟨hlt, -⟩ := List.getElem?_eq_some_iff.mp hc
  rcases Pool.places_of_step hs with ⟨-, _, hcalls⟩ | ⟨d, operation', q, q', hd, hm, hcalls⟩
  · rw [hcalls, List.getElem?_append_left hlt] at hne
    exact absurd hc hne
  · by_cases heq : d = c
    · subst heq
      obtain ⟨rfl, rfl⟩ := Prod.mk.inj (Option.some.inj (hd.symm.trans hc))
      exact ⟨q', hm, hcalls⟩
    · rw [hcalls, List.getElem?_set_ne heq] at hne
      exact absurd hc hne

-- Giving a line up leaves it to nobody, whoever had it, and no other release moves meanwhile.
theorem giveUp_of_finishes (hs : Pool.Step (rules answers waits) pool next)
    (h : Finishes uid pin c pool next) :
    next.state = pool.state.setHolder uid pin none ∧
      ∀ d, Finishes uid pin d pool next → d = c := by
  obtain ⟨⟨p, hc, hp⟩, hended⟩ := h
  obtain ⟨p', hm, hcalls⟩ := moves_of_ne hs hc fun hsame => hended ⟨p, hsame, hp⟩
  obtain ⟨hlt, -⟩ := List.getElem?_eq_some_iff.mp hc
  constructor
  · rcases moves_of_freeing hm hp with ⟨hp', -⟩ | ⟨-, hstate⟩
    · refine absurd ⟨p', ?_, hp'⟩ hended
      rw [hcalls, List.getElem?_set_self hlt]
    · exact hstate
  · rintro d ⟨⟨q, hd, hq⟩, hended'⟩
    by_contra hne
    refine hended' ⟨q, ?_, hq⟩
    rw [hcalls, List.getElem?_set_ne (Ne.symm hne), hd]

theorem holder?_of_finishes (hs : Pool.Step (rules answers waits) pool next)
    (h : Finishes uid pin c pool next) : next.state.holder? uid pin = none := by
  rw [(giveUp_of_finishes hs h).1, holder?_setHolder_none]

theorem holder?_of_granted_step (h : Coherent pool) (hs : Pool.Step (rules answers waits) pool next)
    (hg : Granted uid pin consumer pool next) :
    pool.state.holder? uid pin = none ∧ next.state.holder? uid pin = some consumer := by
  obtain ⟨c, ops, hreport, hreport'⟩ := hg
  obtain ⟨⟨operation, p⟩, hc, heq⟩ := Option.map_eq_some_iff.mp hreport
  obtain ⟨rfl, hp⟩ := Prod.mk.inj heq
  have hne : next.calls[c]? ≠ some (.request uid pin consumer, p) := by
    intro hsame
    rw [Pool.report?, hsame, Option.map_some, hp] at hreport'
    cases hreport'
  obtain ⟨p', hm, hcalls⟩ := moves_of_ne hs hc hne
  obtain ⟨hlt, -⟩ := List.getElem?_eq_some_iff.mp hc
  rw [Pool.report?, hcalls, List.getElem?_set_self hlt, Option.map_some] at hreport'
  obtain ⟨-, hp'⟩ := Prod.mk.inj (Option.some.inj hreport')
  obtain ⟨-, hdoes⟩ := does_of_moves (h.progress _ (List.mem_of_getElem? hc)) hm
  exact holder?_of_granted hdoes hp hp'

-- While the chip stays exposed and no release of the line finishes, the line stays with who has it.
theorem holder?_of_step (h : Coherent pool) (hs : Pool.Step (rules answers waits) pool next)
    (hheld : pool.state.holder? uid pin = some consumer) (hstays : next.state.find? uid ≠ none)
    (hquiet : ∀ c, ¬Finishes uid pin c pool next) :
    next.state.holder? uid pin = some consumer := by
  rcases does_of_step h hs with ⟨hstate, -⟩ | ⟨c, operation, p, p', hc, -, hdoes, hcalls⟩
  · rw [hstate, hheld]
  rcases holder?_of_does h.distinct hdoes hheld hstays with hkept | ⟨rfl, hp, hp'⟩
  · exact hkept
  obtain ⟨hlt, -⟩ := List.getElem?_eq_some_iff.mp hc
  refine absurd ⟨⟨p, hc, hp⟩, ?_⟩ (hquiet c)
  rintro ⟨q, hq, hfreeing⟩
  rw [hcalls, List.getElem?_set_self hlt] at hq
  obtain ⟨-, rfl⟩ := Prod.mk.inj (Option.some.inj hq)
  rw [hfreeing.result?] at hp'
  cases hp'

end Step

section Run

variable {run : Nat → Calls ω τ} {around : τ} {uid : UInt64} {pin : UInt32} {consumer : String}
  {first last : Nat}

theorem coherent_of_run (hrun : Pool.Run (rules answers waits) ⟨{}, around, []⟩ run) (k : Nat) :
    Coherent (run k) := by
  induction k with
  | zero =>
    rw [hrun.first]
    exact ⟨List.nodup_nil, fun _ hcall => absurd hcall List.not_mem_nil⟩
  | succ k ih =>
    rcases hrun.step k with hsame | hs
    · rwa [hsame]
    · exact coherent_of_step ih hs

-- A run in which a release finishes or a line is granted does not stay where it is.
theorem step_of_finishes (hrun : Pool.Run (rules answers waits) ⟨{}, around, []⟩ run) {c k : Nat}
    (h : Finishes uid pin c (run k) (run (k + 1))) :
    Pool.Step (rules answers waits) (run k) (run (k + 1)) := by
  refine (hrun.step k).resolve_left fun hsame => h.2 ?_
  rw [hsame]
  exact h.1

theorem step_of_granted (hrun : Pool.Run (rules answers waits) ⟨{}, around, []⟩ run) {k : Nat}
    (h : Granted uid pin consumer (run k) (run (k + 1))) :
    Pool.Step (rules answers waits) (run k) (run (k + 1)) := by
  refine (hrun.step k).resolve_left fun hsame => ?_
  obtain ⟨c, ops, hreport, hreport'⟩ := h
  rw [hsame, hreport] at hreport'
  cases hreport'

theorem Withdrawn.mono {mid : Nat} (h : Withdrawn run uid first mid) (hle : mid ≤ last) :
    Withdrawn run uid first last := by
  obtain ⟨k, hfirst, hmid, hnone⟩ := h
  exact ⟨k, hfirst, hmid.trans hle, hnone⟩

theorem ReleasedSince.mono {mid : Nat} (h : ReleasedSince run uid pin first mid)
    (hle : mid ≤ last) : ReleasedSince run uid pin first last := by
  obtain ⟨c, k, hfirst, hmid, hafter, hends⟩ := h
  exact ⟨c, k, hfirst, hmid.trans_le hle, hafter, hends⟩

-- A hold lasts as long as the chip stays exposed and no release of the line finishes.
theorem holder?_of_quiet (hrun : Pool.Run (rules answers waits) ⟨{}, around, []⟩ run)
    (hgranted : Granted uid pin consumer (run first) (run (first + 1))) (hlater : first < last)
    (hexposed : ¬Withdrawn run uid first last)
    (hquiet : ∀ c k, first < k → k < last → ¬Finishes uid pin c (run k) (run (k + 1))) :
    (run last).state.holder? uid pin = some consumer := by
  induction last, hlater using Nat.le_induction with
  | base => exact (holder?_of_granted_step (coherent_of_run hrun first)
      (step_of_granted hrun hgranted) hgranted).2
  | succ last hlater ih =>
    have hheld := ih (fun hwithdrawn => hexposed (hwithdrawn.mono last.le_succ))
      fun c k hfirst hlast => hquiet c k hfirst (hlast.trans last.lt_succ_self)
    rcases hrun.step last with hsame | hs
    · rw [hsame, hheld]
    · refine holder?_of_step (coherent_of_run hrun last) hs hheld (fun hnone => ?_) fun c =>
        hquiet c last hlater last.lt_succ_self
      exact hexposed ⟨last + 1, Nat.lt_succ_of_lt hlater, le_rfl, hnone⟩

-- A hold lasts until it is released or its chip is withdrawn exactly if every release of the line
-- that was under way when it was granted finishes too late to matter. Two consumers who get the
-- line one after the other are separated by some release of it, or by a withdrawal.
theorem hold_lasts_iff (hrun : Pool.Run (rules answers waits) ⟨{}, around, []⟩ run)
    (hgranted : Granted uid pin consumer (run first) (run (first + 1))) :
    (Lasts run uid pin consumer first ↔
      ∀ c k, first < k → UnderWay uid pin c (run first) →
        Finishes uid pin c (run k) (run (k + 1)) →
          Withdrawn run uid first k ∨ ReleasedSince run uid pin first k) ∧
    ∀ other later, first < later → Granted uid pin other (run later) (run (later + 1)) →
      Withdrawn run uid first later ∨
        ∃ c k, first < k ∧ k < later ∧ Finishes uid pin c (run k) (run (k + 1)) := by
  refine ⟨⟨fun hlasts c k hafter hunderway hends => ?_, fun hlate n hn => ?_⟩, ?_⟩
  · have hs := step_of_finishes hrun hends
    rcases hlasts (k + 1) (hafter.trans k.lt_succ_self) with hheld | hwithdrawn | hreleased
    · rw [holder?_of_finishes hs hends] at hheld
      cases hheld
    · left
      obtain ⟨m, hfirst, hm, hnone⟩ := hwithdrawn
      rcases Nat.le_succ_iff.mp hm with hm | rfl
      · exact ⟨m, hfirst, hm, hnone⟩
      · rw [(giveUp_of_finishes hs hends).1, find?_setHolder_eq_none] at hnone
        exact ⟨k, hafter, le_rfl, hnone⟩
    · right
      obtain ⟨d, m, hfirst, hm, hnew, hends'⟩ := hreleased
      rcases Nat.lt_succ_iff_lt_or_eq.mp hm with hm | rfl
      · exact ⟨d, m, hfirst, hm, hnew, hends'⟩
      · obtain rfl := (giveUp_of_finishes hs hends).2 d hends'
        exact absurd hunderway hnew
  · by_contra hlost
    obtain ⟨hfree, hexposed, hunreleased⟩ : _ ∧ _ ∧ _ := by simpa only [not_or] using hlost
    refine hfree (holder?_of_quiet hrun hgranted hn hexposed fun c k hfirst hk hends => ?_)
    by_cases hunderway : UnderWay uid pin c (run first)
    · rcases hlate c k hfirst hunderway hends with hwithdrawn | hreleased
      · exact hexposed (hwithdrawn.mono hk.le)
      · exact hunreleased (hreleased.mono hk.le)
    · exact hunreleased ⟨c, k, hfirst, hk, hunderway, hends⟩
  · intro other later hlater hagain
    by_contra hnever
    obtain ⟨hexposed, hquiet⟩ := not_or.mp hnever
    have hheld := holder?_of_quiet hrun hgranted hlater hexposed
      fun c k hfirst hk hends => hquiet ⟨c, k, hfirst, hk, hends⟩
    rw [(holder?_of_granted_step (coherent_of_run hrun later) (step_of_granted hrun hagain)
      hagain).1] at hheld
    cases hheld

-- Whether a call goes on to give up line 0 of chip 5, or to have it freed first.
def leadsOn (p : TableProcess Unit (Outcome Unit)) : Bool :=
  match p with
  | .ask _ _ => true
  | .step change _ =>
    (change { chips := [⟨⟨0⟩, ⟨5, "relay", ["coil"]⟩, (), [some "pump"]⟩] }).holder? 5 0 = none
  | _ => false

theorem underWay_of_leadsOn {pool : Calls Unit τ} (h : Coherent pool) {c : Nat}
    (hc : (pool.calls[c]?.any fun call => call.1 = .release 5 0 ∧ leadsOn call.2) = true) :
    UnderWay 5 0 c pool := by
  obtain ⟨⟨operation, p⟩, hcall, hleads⟩ := (Option.any_eq_true ..).mp hc
  obtain ⟨rfl, hleads⟩ : operation = .release 5 0 ∧ leadsOn p = true := of_decide_eq_true hleads
  refine ⟨p, hcall, ?_⟩
  cases h.progress _ (List.mem_of_getElem? hcall) with
  | freeing hp => exact hp
  | fresh => exact absurd hleads (by decide)
  | settled hp =>
    cases p with
    | done | note => cases hleads
    | step | ask => cases hp

-- Line 0 of chip 5 is released twice at a time and granted to somebody else in between.
def grantedMeanwhile : List (Pool.Turn (Operation Unit)) :=
  List.flatten [
    .call (.expose ⟨5, "relay", ["coil"]⟩ ()) :: List.replicate 2 (.move 0),
    .call (.request 5 0 "pump") :: List.replicate 2 (.move 1),
    [.call (.release 5 0), .move 2],
    .call (.release 5 0) :: List.replicate 4 (.move 3),
    [.call (.request 5 0 "valve"), .move 4, .move 2, .move 2]]

theorem hold_lasts_iff_grantedMeanwhile :
    ∃ run : Nat → Calls Unit Unit,
      Pool.Run (rules (fun _ _ _ _ => True) fun _ _ => False) ⟨{}, (), []⟩ run ∧
      Granted 5 0 "valve" (run 14) (run 15) ∧ ¬Lasts run 5 0 "valve" 14 := by
  have hplay : (Pool.play ⟨Operation.process, fun _ _ => (.ok (), ()), fun _ _ => false⟩
      (fun _ _ => true) grantedMeanwhile ⟨({} : LineTable Unit), (), []⟩).any fun pools =>
        pools.getLast?.any fun last =>
          (pools.getD 14 last).report? 4 = some (.request 5 0 "valve", none) ∧
          (pools.getD 15 last).report? 4 =
            some (.request 5 0 "valve", some (.requested (.ok ()))) ∧
          ((pools.getD 14 last).calls[2]?.any fun call =>
            call.1 = .release 5 0 ∧ leadsOn call.2) = true ∧
          ((pools.getD 16 last).calls[2]?.any fun call =>
            call.1 = .release 5 0 ∧ leadsOn call.2) = true ∧
          (pools.getD 17 last).report? 2 = some (.release 5 0, some (.released (.ok ()))) ∧
          (pools.getD 15 last).state.holder? 5 0 = some "valve" ∧
          (pools.getD 16 last).state.holder? 5 0 = some "valve" := by
    decide +kernel
  obtain ⟨pools, hturns, hends⟩ := (Option.any_eq_true ..).mp hplay
  obtain ⟨last, hlast, hends⟩ := (Option.any_eq_true ..).mp hends
  obtain ⟨hasked, hgot, hbegun, hleft, hended, hheld, hheld'⟩ := of_decide_eq_true hends
  obtain ⟨hchain, hfirst⟩ := Pool.isChain_of_play
    (R := Pool.Step (rules (fun _ _ _ _ => True) fun _ _ => False))
    (fun turn pool next hturn _ => Pool.step_of_turn? rfl (fun _ _ => trivial)
      (fun _ _ _ h => h) hturn) hturns
  have hrun := Pool.run_of_isChain hchain hfirst hlast
  have hgranted : Granted 5 0 "valve" (pools.getD 14 last) (pools.getD 15 last) :=
    ⟨4, (), hasked, hgot⟩
  refine ⟨_, hrun, hgranted, fun hlasts => ?_⟩
  have hends : Finishes 5 0 2 (pools.getD 16 last) (pools.getD 17 last) := by
    refine ⟨underWay_of_leadsOn (coherent_of_run hrun 16) hleft, ?_⟩
    rintro ⟨p, hp, hfreeing⟩
    rw [Pool.report?, hp, Option.map_some, hfreeing.result?] at hended
    cases hended
  rcases (hold_lasts_iff hrun hgranted).1.mp hlasts 2 16 (by omega)
    (underWay_of_leadsOn (coherent_of_run hrun 14) hbegun) hends with
    ⟨k, hafter, hle, hnone⟩ | ⟨c, k, hafter, hlt, -, hends'⟩
  · obtain rfl | rfl : k = 15 ∨ k = 16 := by omega
    · exact find?_ne_none_of_holder? hheld hnone
    · exact find?_ne_none_of_holder? hheld' hnone
  · obtain rfl : k = 15 := by omega
    have hlost := holder?_of_finishes (step_of_finishes hrun hends') hends'
    rw [hheld'] at hlost
    cases hlost

end Run

end GpioBridge.LineTable
