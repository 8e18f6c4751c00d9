import GpioBridge.Proofs.Hub.Lines
import GpioBridge.Proofs.Hub.Unclaimed
import GpioBridge.Proofs.Hub.View
import GpioBridge.Proofs.Process.Twins

namespace GpioBridge.Hub

open Process

structure Twin (uid : UInt64) (hub hub' : Hub) : Prop where
  view : hub.view uid = hub'.view uid
  seated : hub.Seated
  seated' : hub'.Seated

-- Besides, each of two chips is what its hub calls so.
structure Tied (uid : UInt64) (name id id' : ChipId) (hub hub' : Hub) : Prop
    extends Twin uid hub hub' where
  named : hub.named? uid name = some id
  named' : hub'.named? uid name = some id'

section Twin

variable {uid : UInt64} {name id id' : ChipId} {hub hub' : Hub} {f : Chip → Chip}

theorem named?_of_uids {hub hub' : Hub} (h : hub'.uids = hub.uids) :
    hub'.named? uid name = hub.named? uid name := by
  rw [named?, named?, idsOf_of_uids h]

theorem seated_of_uids {hub hub' : Hub} (h : hub'.uids = hub.uids)
    (hf : ∀ uid, hub'.find? uid = hub.find? uid) (hseated : hub.Seated) : hub'.Seated := by
  intro uid id hid
  rw [idsOf_of_uids h]
  exact hseated ((hf uid).symm.trans hid)

theorem Tied.chip (h : Tied uid name id id' hub hub') :
    (hub.chip id).unnumbered = (hub'.chip id').unnumbered := by
  have hchips := congrArg (fun view => view.chips[name.index]?) h.view
  have hhere : (hub.idsOf uid)[name.index]? = some id := h.named
  have hthere : (hub'.idsOf uid)[name.index]? = some id' := h.named'
  simpa [Hub.view, List.getElem?_map, hhere, hthere] using hchips

-- What does not depend on the number of a handle is the same of both chips.
theorem Tied.same {β : Type} (h : Tied uid name id id' hub hub') {g : Chip → β}
    (hg : ∀ chip, g chip.unnumbered = g chip) : g (hub.chip id) = g (hub'.chip id') := by
  rw [← hg, h.chip, hg]

theorem Tied.modify (h : Tied uid name id id' hub hub') (huid : ∀ chip, (f chip).uid = chip.uid)
    (hf : ∀ chip, (f chip).unnumbered = f chip.unnumbered) :
    Tied uid name id id' (hub.modifyChip id f) (hub'.modifyChip id' f) where
  view := by rw [view_modifyChip h.named huid hf, view_modifyChip h.named' huid hf, h.view]
  seated := seated_of_uids (uids_modifyChip huid id hub) (fun _ => rfl) h.seated
  seated' := seated_of_uids (uids_modifyChip huid id' hub') (fun _ => rfl) h.seated'
  named := (named?_of_uids (uids_modifyChip huid id hub)).trans h.named
  named' := (named?_of_uids (uids_modifyChip huid id' hub')).trans h.named'

theorem Tied.modifyCell (h : Tied uid name id id' hub hub') (pin : UInt32)
    (f : ReplyCell → ReplyCell) :
    Tied uid name id id' (hub.modifyChip id fun chip => chip.modifyCell pin f)
      (hub'.modifyChip id' fun chip => chip.modifyCell pin f) :=
  h.modify (fun _ => rfl) fun _ => rfl

theorem Tied.modifyMemory (h : Tied uid name id id' hub hub') (pin : UInt32)
    (f : Line.Memory → Line.Memory) :
    Tied uid name id id' (hub.modifyChip id fun chip => chip.modifyMemory pin f)
      (hub'.modifyChip id' fun chip => chip.modifyMemory pin f) :=
  h.modify (fun _ => rfl) fun _ => rfl

theorem Tied.count (h : Tied uid name id id' hub hub') (counters counters' : Counters) :
    Tied uid name id id' { hub with counters } { hub' with counters := counters' } :=
  ⟨⟨h.view, h.seated, h.seated'⟩, h.named, h.named'⟩

-- A uid names a chip in one if it does in the other, and these are called the same.
theorem Twin.mapped (h : Twin uid hub hub') :
    (hub.find? uid = none ∧ hub'.find? uid = none) ∨
      ∃ name id id', hub.find? uid = some id ∧ hub'.find? uid = some id' ∧
        Tied uid name id id' hub hub' := by
  have hmapped : (hub.find? uid).map (hub.rank uid) = (hub'.find? uid).map (hub'.rank uid) :=
    congrArg View.mapped h.view
  cases hf : hub.find? uid with
  | none =>
    rw [hf, Option.map_none] at hmapped
    exact .inl ⟨rfl, Option.map_eq_none_iff.mp hmapped.symm⟩
  | some id =>
    rw [hf, Option.map_some] at hmapped
    obtain ⟨id', hf', hrank⟩ := Option.map_eq_some_iff.mp hmapped.symm
    have hthere := named?_rank (h.seated' hf')
    rw [hrank] at hthere
    exact .inr ⟨hub.rank uid id, id, id', rfl, hf', h, named?_rank (h.seated hf), hthere⟩

-- Either there are chips called so in both or in none.
theorem Twin.named (h : Twin uid hub hub') (name : ChipId) :
    (hub.named? uid name = none ∧ hub'.named? uid name = none) ∨
      ∃ id id', Tied uid name id id' hub hub' := by
  have hlength : (hub.idsOf uid).length = (hub'.idsOf uid).length := by
    simpa [Hub.view] using congrArg (fun view => view.chips.length) h.view
  cases hname : hub.named? uid name with
  | none =>
    have hlt := List.getElem?_eq_none_iff.mp hname
    exact .inl ⟨rfl, List.getElem?_eq_none_iff.mpr (hlength ▸ hlt)⟩
  | some id =>
    obtain ⟨hlt, -⟩ := List.getElem?_eq_some_iff.mp hname
    exact .inr ⟨id, _, h, hname, List.getElem?_eq_getElem (hlength ▸ hlt)⟩

end Twin

section Deliver

variable {uid : UInt64} {name id id' : ChipId} {hub hub' : Hub} {m : Message} {pin : UInt32}

theorem uid_of_reading {reply : LineReply} (h : m.reading = .reply reply) : reply.uid = m.uid := by
  cases m with
  | getValueReply uid pin status value =>
    dsimp only [Message.reading] at h
    generalize Status.ofCode status = code at h
    cases code <;> cases value <;> cases h <;> rfl
  | setValueReply | setConfigReply | setDirectionReply => rw [← Message.Reading.reply.inj h]; rfl
  | _ => cases h

-- What delivering a message can do.
theorem deliver_cases (m : Message) (hub : Hub) :
    (∃ id reply, hub.recipient m = .ok (id, reply) ∧ hub.find? m.uid = some id ∧
      deliver m hub = (.ok reply, (hub.modifyChip id fun chip =>
        chip.post reply.pin reply.status reply.level).countDispatched)) ∨
      ∃ reason, hub.recipient m = .error reason ∧ deliver m hub = (.error reason, hub.countDropped) := by
  cases hr : hub.recipient m with
  | error reason => exact .inr ⟨reason, rfl, by simp [deliver, hr]⟩
  | ok recipient =>
    obtain ⟨id, reply⟩ := recipient
    obtain ⟨hreading, hf, -⟩ := of_recipient hr
    exact .inl ⟨id, reply, rfl, uid_of_reading hreading ▸ hf, by simp [deliver, hr]⟩

theorem uids_deliver (m : Message) (hub : Hub) : (deliver m hub).2.uids = hub.uids := by
  rcases deliver_cases m hub with ⟨id, reply, -, -, hd⟩ | ⟨reason, -, hd⟩
  · rw [hd]
    have hkeeps : ∀ chip : Chip, (chip.post reply.pin reply.status reply.level).uid = chip.uid :=
      fun _ => rfl
    exact uids_modifyChip hkeeps id hub
  · rw [hd]
    rfl

theorem find?_deliver (m : Message) (hub : Hub) (uid : UInt64) :
    (deliver m hub).2.find? uid = hub.find? uid := by
  rcases deliver_cases m hub with ⟨id, reply, -, -, hd⟩ | ⟨reason, -, hd⟩
  all_goals
    rw [hd]
    rfl

theorem view_deliver_of_ne (hseated : hub.Seated) (hne : m.uid ≠ uid) :
    (deliver m hub).2.view uid = hub.view uid := by
  rcases deliver_cases m hub with ⟨id, reply, -, hf, hd⟩ | ⟨reason, -, hd⟩
  · rw [hd]
    refine view_modifyChip_of_not_mem (fun hmem => hne ?_) fun _ => rfl
    rw [← (mem_idsOf.mp (hseated hf)).2, (mem_idsOf.mp hmem).2]
  · rw [hd]
    rfl

-- A message for another uid does not show.
theorem Twin.deliver_of_ne (h : Twin uid hub hub') (hne : m.uid ≠ uid) :
    Twin uid (deliver m hub).2 hub' where
  view := (view_deliver_of_ne h.seated hne).trans h.view
  seated := seated_of_uids (uids_deliver m hub) (find?_deliver m hub) h.seated
  seated' := h.seated'

theorem recipient_of_find? {reply : LineReply} (hreading : m.reading = .reply reply)
    (hf : hub.find? reply.uid = some id) :
    hub.recipient m =
      if (hub.chip id).retired then .error .retiredChip
      else if ((hub.chip id).cell? reply.pin).isNone then .error .noSuchLine
      else .ok (id, reply) := by
  simp [recipient, hreading, hf]

-- A message for the uid comes to the same.
theorem Twin.deliver (h : Twin uid hub hub') (hm : m.uid = uid) :
    (deliver m hub).1 = (deliver m hub').1 ∧ Twin uid (deliver m hub).2 (deliver m hub').2 := by
  have hdropped : ∀ reason, hub.recipient m = .error reason → hub'.recipient m = .error reason →
      (Hub.deliver m hub).1 = (Hub.deliver m hub').1 ∧
        Twin uid (Hub.deliver m hub).2 (Hub.deliver m hub').2 := by
    intro reason hr hr'
    have hd : Hub.deliver m hub = (.error reason, hub.countDropped) := by simp [Hub.deliver, hr]
    have hd' : Hub.deliver m hub' = (.error reason, hub'.countDropped) := by simp [Hub.deliver, hr']
    rw [hd, hd']
    exact ⟨rfl, h.view, h.seated, h.seated'⟩
  cases hreading : m.reading with
  | notReply => exact hdropped .notReply (by simp [recipient, hreading]) (by simp [recipient, hreading])
  | missingLevel other pin =>
    exact hdropped (.missingLevel other pin) (by simp [recipient, hreading])
      (by simp [recipient, hreading])
  | reply reply =>
    obtain rfl : reply.uid = uid := (uid_of_reading hreading).trans hm
    rcases h.mapped with ⟨hf, hf'⟩ | ⟨name, id, id', hf, hf', htied⟩
    · exact hdropped .unknownChip (by simp [recipient, hreading, hf])
        (by simp [recipient, hreading, hf'])
    have hr := recipient_of_find? hreading hf
    have hr' := recipient_of_find? hreading hf'
    have hretired : (hub.chip id).retired = (hub'.chip id').retired := htied.same fun _ => rfl
    have hcell : (hub.chip id).cell? reply.pin = (hub'.chip id').cell? reply.pin :=
      htied.same (g := fun chip => chip.cell? reply.pin) fun _ => rfl
    rw [hretired, hcell] at hr
    by_cases hgone : (hub'.chip id').retired = true
    · rw [if_pos hgone] at hr hr'
      exact hdropped .retiredChip hr hr'
    rw [if_neg hgone] at hr hr'
    by_cases hnone : ((hub'.chip id').cell? reply.pin).isNone = true
    · rw [if_pos hnone] at hr hr'
      exact hdropped .noSuchLine hr hr'
    rw [if_neg hnone] at hr hr'
    have hposted := htied.modifyCell reply.pin fun cell => cell.post reply.status reply.level
    simp only [Hub.deliver, hr, hr']
    exact ⟨trivial, hposted.view, hposted.seated, hposted.seated'⟩

end Deliver

section Lines

variable {uid : UInt64} {name id id' : ChipId} {hub hub' : Hub} {pin : UInt32}

theorem Tied.cell? (h : Tied uid name id id' hub hub') (pin : UInt32) :
    (hub.chip id).cell? pin = (hub'.chip id').cell? pin :=
  h.same (g := fun chip => chip.cell? pin) fun _ => rfl

theorem Tied.collect (h : Tied uid name id id' hub hub') (pin : UInt32) :
    (collect id pin hub).1 = (collect id' pin hub').1 ∧
      Tied uid name id id' (collect id pin hub).2 (collect id' pin hub').2 := by
  unfold Hub.collect
  rw [h.cell? pin]
  cases (hub'.chip id').cell? pin with
  | none => exact ⟨rfl, h.count _ _⟩
  | some cell =>
    dsimp only
    cases cell.take? with
    | none => exact ⟨rfl, h.count _ _⟩
    | some taken => exact ⟨rfl, h.modifyCell pin _⟩

theorem Tied.ready (h : Tied uid name id id' hub hub') (pin : UInt32) :
    hub.ready id pin = hub'.ready id' pin :=
  h.same (g := fun chip => if chip.initialized then chip.checkPin pin else .error .notReady)
    fun _ => rfl

-- A process does on one of two tied chips what another does on the other, and they come to the
-- same.
abbrev Parallel {α : Type} (uid : UInt64) (name id id' : ChipId) (p q : HubProcess α) : Prop :=
  Twins (fun demand => demand.isSend = true) (Tied uid name id id') Eq p q

theorem twins_call (uid : UInt64) (name id id' : ChipId) (pin : UInt32) (request : Request) :
    Parallel uid name id id' (call id pin request) (call id' pin request) := by
  simp only [call, bind_eq, pure_eq, get_bind, HubProcess.send_bind, modify_bind, update_bind,
    log_bind]
  refine .look fun hub hub' h => ?_
  have huid : (hub.chip id).uid = (hub'.chip id').uid := h.same fun _ => rfl
  have hnone : (hub.chip id).noSuchLine pin = (hub'.chip id').noSuchLine pin :=
    h.same (g := fun chip => chip.noSuchLine pin) fun _ => rfl
  rw [h.cell? pin, huid, hnone]
  have hwait {next next' : Hub → HubProcess (Except Fault Reply)}
      (hnext : ∀ hub hub' : Hub, (collect id pin hub).1 = (collect id' pin hub').1 →
        Parallel uid name id id' (next hub) (next' hub')) :
      Parallel uid name id id'
        (.step countSent fun _ => .step (fun hub => (collect id pin hub).2) next)
        (.step countSent fun _ => .step (fun hub => (collect id' pin hub).2) next') :=
    .step (fun _ _ h => h.count _ _) fun _ _ _ =>
      .step (fun _ _ h => (h.collect pin).2) fun hub hub' h => hnext hub hub' (h.collect pin).1
  split
  · exact .done rfl
  refine .ask rfl fun (answer : Except TransportFault Unit) => ?_
  split
  · refine hwait fun hub hub' hsame => ?_
    rw [hsame]
    split
    · exact .look fun _ _ _ => .note (.done rfl)
    · exact .done rfl
  · refine .note (hwait fun hub hub' hsame => ?_)
    rw [hsame]
    split
    · exact .look fun _ _ _ => .note (.done rfl)
    · exact .done rfl
  · exact .done rfl

theorem twins_writeLevel (pin : UInt32) (level : Bool) :
    Parallel uid name id id' (writeLevel id pin level) (writeLevel id' pin level) := by
  refine (twins_call uid name id id' pin (.setValue level)).bind ?_
  rintro result _ rfl
  cases result with
  | error fault => exact .done rfl
  | ok reply => exact .step (fun _ _ h => h.modifyMemory pin _) fun _ _ _ => .done rfl

theorem twins_writeDirection (pin : UInt32) (direction : Direction) :
    Parallel uid name id id' (writeDirection id pin direction) (writeDirection id' pin direction) := by
  refine (twins_call uid name id id' pin (.setDirection direction)).bind ?_
  rintro result _ rfl
  cases result with
  | error fault => exact .done rfl
  | ok reply => exact .step (fun _ _ h => h.modifyMemory pin _) fun _ _ _ => .done rfl

theorem twins_ready {α : Type} {go go' : HubProcess (Except Fault α)}
    (h : Parallel uid name id id' go go') :
    Parallel uid name id id'
      (.step (fun hub => hub) (fun hub => match hub.ready id pin with
        | .error fault => .done (.error fault)
        | .ok () => go))
      (.step (fun hub => hub) (fun hub => match hub.ready id' pin with
        | .error fault => .done (.error fault)
        | .ok () => go')) := by
  refine .look fun hub hub' hubs => ?_
  rw [hubs.ready pin]
  split
  · exact .done rfl
  · exact h

theorem twins_getValue (uid : UInt64) (name id id' : ChipId) (pin : UInt32) :
    Parallel uid name id id' (getValue id pin) (getValue id' pin) := by
  refine twins_ready ((twins_call uid name id id' pin .getValue).bind ?_)
  rintro result _ rfl
  rcases result with fault | (_ | level)
  · exact .done rfl
  · exact .done rfl
  · exact .step (fun _ _ h => h.modifyMemory pin _) fun _ _ _ => .done rfl

theorem twins_setConfig (uid : UInt64) (name id id' : ChipId) (pin : UInt32) (setting : PinSetting) :
    Parallel uid name id id' (setConfig id pin setting) (setConfig id' pin setting) := by
  refine twins_ready ?_
  cases setting.wiring? with
  | error fault => exact .done rfl
  | ok wiring? =>
    cases wiring? with
    | none => exact .look fun _ _ _ => .note (.done rfl)
    | some wiring =>
      refine (twins_call uid name id id' pin (.setConfig wiring)).bind ?_
      rintro result _ rfl
      cases result <;> exact .done rfl

theorem twins_setDirection (uid : UInt64) (name id id' : ChipId) (pin : UInt32) (mode : LineMode) :
    Parallel uid name id id' (setDirection id pin mode) (setDirection id' pin mode) := by
  refine twins_ready ?_
  cases mode with
  | input => exact twins_writeDirection pin .input
  | disabled => exact twins_writeDirection pin .disabled
  | output level =>
    refine (twins_writeDirection pin .output).bind ?_
    rintro result _ rfl
    cases result with
    | error fault => exact .done rfl
    | ok => exact twins_writeLevel pin level

theorem twins_getDirection (uid : UInt64) (name id id' : ChipId) (pin : UInt32) :
    Parallel uid name id id' (getDirection id pin) (getDirection id' pin) := by
  simp only [getDirection, bind_eq, pure_eq, get_bind]
  refine .look fun hub hub' h => ?_
  have hnone : (hub.chip id).noSuchLine pin = (hub'.chip id').noSuchLine pin :=
    h.same (g := fun chip => chip.noSuchLine pin) fun _ => rfl
  have hmemory : (hub.chip id).memory? pin = (hub'.chip id').memory? pin :=
    h.same (g := fun chip => chip.memory? pin) fun _ => rfl
  rw [hmemory, hnone]
  split <;> exact .done rfl

end Lines

end GpioBridge.Hub
