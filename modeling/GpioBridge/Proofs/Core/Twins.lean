import GpioBridge.Proofs.Core.Episode
import GpioBridge.Proofs.Core.View
import GpioBridge.Proofs.Hub.Duplex
import GpioBridge.Proofs.Hub.Twins

namespace GpioBridge

namespace Hub

variable {uid : UInt64} {name id id' : ChipId} {P : Hub → Prop}

theorem uids_of_outline {hub hub' : Hub} (h : hub'.outline = hub.outline) : hub'.uids = hub.uids := by
  have huids : ∀ hub : Hub, hub.outline.uids = hub.uids := fun hub => by
    simp [uids, outline, Chip.outline, Chip.create, Function.comp_def]
  rw [← huids, h, huids]

theorem KeptByTurns.action (h : KeptByTurns id P) (pin : UInt32) (action : Action) :
    Messaging P (action.operation id pin).process := by
  cases action with
  | getValue => exact h.getValue.bind fun _ => trivial
  | setValue level => exact (messaging_ready (h.writeLevel level)).bind fun _ => trivial
  | setConfig setting => exact (h.setConfig setting).bind fun _ => trivial
  | setDirection mode => exact (h.setDirection mode).bind fun _ => trivial
  | getDirection => exact (messaging_getDirection id pin).bind fun _ => trivial
  | free => exact (h.setDirection .disabled).bind fun _ => trivial

end Hub

namespace Core

open Process

structure Twin (uid : UInt64) (core core' : Core) : Prop where
  hub : Hub.Twin uid core.hub core'.hub
  exposed : (core.view uid).exposed = (core'.view uid).exposed

variable {uid : UInt64} {core core' : Core} {hub hub' : Hub}

theorem view_eq (hhub : core.hub.view uid = core'.hub.view uid)
    (hexposed : (core.view uid).exposed = (core'.view uid).exposed) :
    core.view uid = core'.view uid := by
  change View.mk (core.hub.view uid) _ = View.mk (core'.hub.view uid) _
  rw [hhub]
  exact congrArg (View.mk _) hexposed

theorem twin_of_view (h : core.view uid = core'.view uid) (hseated : core.hub.Seated)
    (hseated' : core'.hub.Seated) : Twin uid core core' :=
  ⟨⟨congrArg View.hub h, hseated, hseated'⟩, congrArg View.exposed h⟩

theorem Twin.view (h : Twin uid core core') : core.view uid = core'.view uid :=
  view_eq h.hub.view h.exposed

-- As long as no chip is made for the uid, what is exposed is called the same.
theorem exposed_of_table {last : Core} (htable : last.table = core.table)
    (hids : last.hub.idsOf uid = core.hub.idsOf uid) :
    (last.view uid).exposed = (core.view uid).exposed := by
  unfold Core.view
  rw [htable, rank_of_idsOf hids]

theorem exposed_of_idsOf (h : hub.idsOf uid = core.hub.idsOf uid) :
    (({ core with hub } : Core).view uid).exposed = (core.view uid).exposed :=
  exposed_of_table rfl h

theorem exposed_of_outline {last : Core} (htable : last.table = core.table)
    (h : last.hub.outline = core.hub.outline) :
    (last.view uid).exposed = (core.view uid).exposed :=
  exposed_of_table htable (Hub.idsOf_of_uids (Hub.uids_of_outline h))

section Hear

theorem uids_hearAll (messages : List Message) (hub : Hub) :
    (hearAll messages hub).2.uids = hub.uids := by
  induction messages generalizing hub with
  | nil => rfl
  | cons m rest ih => exact (ih _).trans (Hub.uids_deliver m hub)

theorem idsOf_hearAll (messages : List Message) (hub : Hub) :
    (hearAll messages hub).2.idsOf uid = hub.idsOf uid :=
  Hub.idsOf_of_uids (uids_hearAll messages hub)

-- Of all the replies only those for the uid count.
theorem twin_hearAll (h : Hub.Twin uid hub hub') (messages : List Message) :
    toldOf uid (hearAll messages hub).1 = (hearAll (messagesFor uid messages) hub').1 ∧
      Hub.Twin uid (hearAll messages hub).2 (hearAll (messagesFor uid messages) hub').2 := by
  induction messages generalizing hub hub' with
  | nil => exact ⟨rfl, h⟩
  | cons m rest ih =>
    by_cases hm : m.uid = uid
    · have hkept : messagesFor uid (m :: rest) = m :: messagesFor uid rest :=
        List.filter_cons_of_pos (by simpa using hm)
      obtain ⟨hsame, hnext⟩ := h.deliver hm
      obtain ⟨htold, hlast⟩ := ih hnext
      rw [hkept, hearAll, hearAll, hsame, toldOf, List.filter_cons_of_pos (by simpa using hm)]
      exact ⟨congrArg _ htold, hlast⟩
    · have hleft : messagesFor uid (m :: rest) = messagesFor uid rest :=
        List.filter_cons_of_neg (by simpa using hm)
      obtain ⟨htold, hlast⟩ := ih (h.deliver_of_ne hm)
      rw [hleft, hearAll, toldOf, List.filter_cons_of_neg (by simpa using hm)]
      exact ⟨htold, hlast⟩

theorem Twin.hearAll (h : Twin uid core core') (messages : List Message) :
    toldOf uid (hearAll messages core.hub).1 = (hearAll (messagesFor uid messages) core'.hub).1 ∧
      Twin uid { core with hub := (hearAll messages core.hub).2 }
        { core' with hub := (hearAll (messagesFor uid messages) core'.hub).2 } := by
  obtain ⟨htold, hhub⟩ := twin_hearAll h.hub messages
  refine ⟨htold, hhub, ?_⟩
  rw [exposed_of_idsOf (idsOf_hearAll messages core.hub),
    exposed_of_idsOf (idsOf_hearAll _ core'.hub), h.exposed]

end Hear

section Shown

theorem Twin.shown (h : Twin uid core core') :
    (core.table.find? uid = none ∧ core'.table.find? uid = none) ∨
      ∃ exposed exposed', core.table.find? uid = some exposed ∧
        core'.table.find? uid = some exposed' ∧
        exposed.called (core.hub.rank uid) = exposed'.called (core'.hub.rank uid) := by
  have hexposed : (core.table.find? uid).map _ = (core'.table.find? uid).map _ := h.exposed
  cases hf : core.table.find? uid with
  | none =>
    rw [hf, Option.map_none] at hexposed
    exact .inl ⟨rfl, Option.map_eq_none_iff.mp hexposed.symm⟩
  | some exposed =>
    rw [hf, Option.map_some] at hexposed
    obtain ⟨exposed', hf', hcalled⟩ := Option.map_eq_some_iff.mp hexposed.symm
    exact .inr ⟨exposed, exposed', rfl, hf', hcalled.symm⟩

-- A line of the uid is granted in one if it is in the other, and by the same chip.
theorem Twin.grant (h : Twin uid core core') (pin : UInt32) (consumer : String) :
    (core.table.grant uid pin consumer).1.result.map (core.hub.rank uid) =
        (core'.table.grant uid pin consumer).1.result.map (core'.hub.rank uid) ∧
      (({ core with table := (core.table.grant uid pin consumer).2 } : Core).view uid).exposed =
        (({ core' with table := (core'.table.grant uid pin consumer).2 } : Core).view uid).exposed := by
  have hheld := fun holder => (exposed_setHolder core uid uid pin holder).trans
    ((congrArg _ h.exposed).trans (exposed_setHolder core' uid uid pin holder).symm)
  unfold LineTable.grant
  rcases h.shown with ⟨hf, hf'⟩ | ⟨exposed, exposed', hf, hf', hcalled⟩
  · rw [hf, hf']
    exact ⟨rfl, h.exposed⟩
  obtain ⟨-, hdescriptor, hops, hlines⟩ := Exposed.mk.inj hcalled
  rw [hf, hf']
  simp only [hdescriptor, hlines]
  rcases exposed'.held[pin.toNat]? with _ | _ | owner
  · exact ⟨rfl, h.exposed⟩
  · exact ⟨congrArg Except.ok hops, hheld (some consumer)⟩
  · exact ⟨rfl, h.exposed⟩

-- A line of the uid can be released in one if it can in the other.
theorem Twin.releasable (h : Twin uid core core') (pin : UInt32) :
    (∃ fault, core.table.releasable uid pin = .error fault ∧
      core'.table.releasable uid pin = .error fault) ∨
    ∃ exposed exposed', core.table.find? uid = some exposed ∧ core'.table.find? uid = some exposed' ∧
      core.table.releasable uid pin = .ok exposed.ops ∧
      core'.table.releasable uid pin = .ok exposed'.ops := by
  unfold LineTable.releasable
  rcases h.shown with ⟨hf, hf'⟩ | ⟨exposed, exposed', hf, hf', hcalled⟩
  · rw [hf, hf']
    exact .inl ⟨_, rfl, rfl⟩
  obtain ⟨-, -, -, hlines⟩ := Exposed.mk.inj hcalled
  rw [hf, hf']
  simp only [hlines]
  rcases exposed'.held[pin.toNat]? with _ | _ | owner
  · exact .inl ⟨_, rfl, rfl⟩
  · exact .inl ⟨_, rfl, rfl⟩
  · exact .inr ⟨exposed, exposed', rfl, rfl, rfl, rfl⟩

-- What is exposed for the uid is the chip it names.
theorem Twin.tied_of_exposed {exposed exposed' : Exposed ChipId}
    (h : Twin uid core core') (ha : Aligned .plain core) (ha' : Aligned .plain core')
    (hf : core.table.find? uid = some exposed) (hf' : core'.table.find? uid = some exposed') :
    ∃ name, Hub.Tied uid name exposed.ops exposed'.ops core.hub core'.hub := by
  have hnames := (consistent_of_aligned ha).find?_of_exposed hf
  have hnames' := (consistent_of_aligned ha').find?_of_exposed hf'
  rcases h.hub.mapped with ⟨hnone, -⟩ | ⟨name, id, id', hid, hid', htied⟩
  · cases hnone.symm.trans hnames
  obtain rfl : id = exposed.ops := Option.some.inj (hid.symm.trans hnames)
  obtain rfl : id' = exposed'.ops := Option.some.inj (hid'.symm.trans hnames')
  exact ⟨name, htied⟩

end Shown

section Aside

variable {ids : List ChipId} {id : ChipId} {α : Type}

-- Besides, these are the chips that were made for the uid.
structure Aside (uid : UInt64) (ids : List ChipId) (core' core : Core) : Prop where
  twin : Twin uid core core'
  made : core.hub.idsOf uid = ids

-- A change to another chip does not show.
theorem Aside.modifyChip {f : Chip → Chip} (h : Aside uid ids core' core) (hother : id ∉ ids)
    (huid : ∀ chip, (f chip).uid = chip.uid) :
    Aside uid ids core' { core with hub := core.hub.modifyChip id f } := by
  have huids := Hub.uids_modifyChip huid id core.hub
  have hmade : (core.hub.modifyChip id f).idsOf uid = core.hub.idsOf uid := Hub.idsOf_of_uids huids
  refine ⟨⟨⟨?_, ?_, h.twin.hub.seated'⟩, (exposed_of_idsOf hmade).trans h.twin.exposed⟩,
    hmade.trans h.made⟩
  · rw [← h.made] at hother
    exact (Hub.view_modifyChip_of_not_mem hother huid).trans h.twin.hub.view
  · exact Hub.seated_of_uids huids (fun _ => rfl) h.twin.hub.seated

theorem keptByTurns_aside (hother : id ∉ ids) (table : LineTable ChipId) :
    Hub.KeptByTurns id fun hub => Aside uid ids core' ⟨hub, table⟩ where
  count hub counters h :=
    ⟨⟨⟨h.twin.hub.view, h.twin.hub.seated, h.twin.hub.seated'⟩, h.twin.exposed⟩, h.made⟩
  collect hub pin h := by
    have hcounted (counters : Counters) : Aside uid ids core' ⟨{ hub with counters }, table⟩ :=
      ⟨⟨⟨h.twin.hub.view, h.twin.hub.seated, h.twin.hub.seated'⟩, h.twin.exposed⟩, h.made⟩
    unfold Hub.collect
    split
    · exact hcounted _
    split
    · exact hcounted _
    · exact h.modifyChip hother fun _ => rfl
  setLevel hub pin level h := h.modifyChip hother fun _ => rfl
  setLineDirection hub pin direction h := h.modifyChip hother fun _ => rfl

-- What all steps of a process on the hub keep is kept on the core, whatever is exposed.
theorem maintains_onHub {P : Core → Prop} {p : HubProcess α}
    (h : ∀ table, Hub.Messaging (fun hub => P ⟨hub, table⟩) p) : (onHub p).Maintains P := by
  induction p with
  | done a => trivial
  | step change next ih =>
    exact maintains_step (fun core hP => (h core.table).1 core.hub hP)
      fun core => ih core.hub fun table => (h table).2 core.hub
  | note event next ih => exact ih h
  | ask demand next ih =>
    cases demand with
    | send m => exact maintains_ask fun answer => ih answer fun table => (h table).2 answer
    | _ => cases (h {}).1

-- While a process goes on that does nothing to the uid, all that becomes of the uid is that replies
-- for it come in.
theorem run_aside {p : CoreProcess α} (hp : ∀ core', p.Maintains (Aside uid ids core'))
    (h : Aside uid ids core' core) (script : Script) :
    ∃ messages,
      Transfer.messages script.left =
        messages ++ Transfer.messages (p.run scripted core script).2.2.left ∧
      toldOf uid (p.run scripted core script).2.2.heard =
        toldOf uid script.heard ++ (hearAll (messagesFor uid messages) core'.hub).1 ∧
      Aside uid ids { core' with hub := (hearAll (messagesFor uid messages) core'.hub).2 }
        (p.run scripted core script).2.1 := by
  induction p generalizing core core' script with
  | done a => exact ⟨[], rfl, (List.append_nil _).symm, h⟩
  | step change next ih => exact ih core (fun core' => (hp core').2 core) ((hp core').1 core h) script
  | note event next ih => exact ih hp h script
  | ask m next ih =>
    obtain ⟨_ | ⟨transfer, left⟩, heard⟩ := script
    · exact ih _ (fun core' => hp core' _) h ⟨[], heard⟩
    obtain ⟨htold, htwin⟩ := h.twin.hearAll transfer.meanwhile
    obtain ⟨messages, hleft, hheard, hlast⟩ := ih transfer.sent (fun core' => hp core' _)
      ⟨htwin, (idsOf_hearAll transfer.meanwhile core.hub).trans h.made⟩
      ⟨left, heard ++ (hearAll transfer.meanwhile core.hub).1⟩
    refine ⟨transfer.meanwhile ++ messages, ?_, ?_, ?_⟩
    · rw [List.append_assoc]
      exact congrArg (transfer.meanwhile ++ ·) hleft
    · rw [messagesFor, List.filter_append, hearAll_append]
      refine hheard.trans ?_
      rw [toldOf, List.filter_append, List.append_assoc]
      exact congrArg (fun told => _ ++ (told ++ _)) htold
    · rw [messagesFor, List.filter_append, hearAll_append]
      exact hlast

end Aside

section Together

variable {name id id' : ChipId} {α β : Type} {Q : α → β → Prop}

-- What becomes of the outcome does not depend on what chips are called.
theorem twins_action (uid : UInt64) (name id id' : ChipId) (pin : UInt32) (action : Action) :
    Twins (fun demand => demand.isSend = true) (Hub.Tied uid name id id')
      (fun outcome outcome' => ∀ call call',
        (Outcome.hub outcome).called call = (Outcome.hub outcome').called call')
      (action.operation id pin).process (action.operation id' pin).process := by
  have hsame {α : Type} {p q : HubProcess α} (wrap : α → Hub.Outcome)
      (hwrap : ∀ a call, (Outcome.hub (wrap a)).called call = .hub (wrap a))
      (h : Hub.Parallel uid name id id' p q) :
      Twins (fun demand => demand.isSend = true) (Hub.Tied uid name id id')
        (fun outcome outcome' => ∀ call call',
          (Outcome.hub outcome).called call = (Outcome.hub outcome').called call')
        (p.bind fun result => .done (wrap result)) (q.bind fun result => .done (wrap result)) := by
    refine h.bind ?_
    rintro a _ rfl
    exact .done fun call call' => (hwrap a call).trans (hwrap a call').symm
  cases action with
  | getValue => exact hsame .level (fun _ _ => rfl) (Hub.twins_getValue uid name id id' pin)
  | setValue level =>
    exact hsame .unit (fun _ _ => rfl) (Hub.twins_ready (Hub.twins_writeLevel pin level))
  | setConfig setting =>
    exact hsame .unit (fun _ _ => rfl) (Hub.twins_setConfig uid name id id' pin setting)
  | setDirection mode =>
    exact hsame .unit (fun _ _ => rfl) (Hub.twins_setDirection uid name id id' pin mode)
  | getDirection => exact hsame .direction (fun _ _ => rfl) (Hub.twins_getDirection uid name id id' pin)
  | free => exact hsame .unit (fun _ _ => rfl) (Hub.twins_setDirection uid name id id' pin .disabled)

-- Of a script only what is about the uid.
structure Script.Only (uid : UInt64) (script script' : Script) : Prop where
  left : script'.left = script.left.map (·.only uid)
  heard : script'.heard = toldOf uid script.heard

theorem tied_hearAll (h : Hub.Tied uid name id id' hub hub') (messages : List Message) :
    Hub.Tied uid name id id' (hearAll messages hub).2
      (hearAll (messagesFor uid messages) hub').2 where
  toTwin := (twin_hearAll h.toTwin messages).2
  named := (Hub.named?_of_uids (uids_hearAll messages hub)).trans h.named
  named' := (Hub.named?_of_uids (uids_hearAll _ hub')).trans h.named'

-- What is done with two chips that are alike comes to the same on both sides.
theorem run_together {p : HubProcess α} {q : HubProcess β}
    (hpq : Twins (fun demand => demand.isSend = true) (Hub.Tied uid name id id') Q p q)
    (h : Hub.Tied uid name id id' core.hub core'.hub) (transfers : List Transfer) :
    let ran := (onHub p).run scripted core ⟨transfers, []⟩
    let ran' := (onHub q).run scripted core' ⟨transfers.map (·.only uid), []⟩
    Q ran.1 ran'.1 ∧
      (Hub.Tied uid name id id' ran.2.1.hub ran'.2.1.hub ∧ ran.2.1.table = core.table ∧
        ran'.2.1.table = core'.table) ∧
      ran.2.2.Only uid ran'.2.2 := by
  let S (last last' : Core) : Prop :=
    Hub.Tied uid name id id' last.hub last'.hub ∧ last.table = core.table ∧ last'.table = core'.table
  have hserved : Twins (fun _ => True) S Q (onHub p) (onHub q) := by
    refine Twins.serve (fun _ _ hs => hs.1) (fun _ _ _ _ hr hs => ⟨hr, hs.2⟩) ?_ hpq
    intro demand hsend
    cases demand with
    | send m => exact .ask trivial fun _ => .done rfl
    | _ => cases hsend
  refine hserved.run (T := Script.Only uid) ?_ ?_ ⟨h, rfl, rfl⟩ ⟨rfl, rfl⟩
  · rintro m last last' ⟨left, heard⟩ ⟨left', heard'⟩ - ⟨htied, htable, htable'⟩ ⟨rfl, rfl⟩
    cases left with
    | nil => exact ⟨rfl, ⟨htied, htable, htable'⟩, rfl, rfl⟩
    | cons transfer left =>
      refine ⟨rfl, ⟨tied_hearAll htied transfer.meanwhile, htable, htable'⟩, rfl, ?_⟩
      obtain ⟨htold, -⟩ := twin_hearAll htied.toTwin transfer.meanwhile
      change toldOf uid heard ++ _ = toldOf uid (heard ++ _)
      rw [toldOf, toldOf, List.filter_append]
      exact congrArg (_ ++ ·) htold.symm
  · exact fun _ _ _ _ hs => hs

end Together

end Core

end GpioBridge
