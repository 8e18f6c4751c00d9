import GpioBridge.Proofs.Wire.Codec
import GpioBridge.Transport.Loopback

namespace GpioBridge.LoopbackBus

inductive Action where
  | attach
  | detach (id : Nat)
  | send (id : Nat) (m : Message)
  | receive (id : Nat)

-- Something that was done at a bus, and what came of it.
inductive Incident where
  | attached (id : Nat)
  | detached (id : Nat)
  | sent (id : Nat) (m : Message) (result : Except TransportFault Unit)
  | received (id : Nat) (result : Except TransportFault (Option Message))

def act (bus : LoopbackBus) : Action → Incident × LoopbackBus
  | .attach => (.attached bus.attach.1, bus.attach.2)
  | .detach id => (.detached id, bus.detach id)
  | .send id m => (.sent id m (bus.send id m).1, (bus.send id m).2)
  | .receive id => (.received id (bus.receive id).1, (bus.receive id).2)

-- Does things at a new bus, one after the other, and keeps a record.
def record (actions : List Action) : List Incident × LoopbackBus :=
  actions.foldl (fun (past, bus) action => (past ++ [(bus.act action).1], (bus.act action).2))
    ([], {})

-- The port was attached, and it was not detached afterwards.
def Attached (id : Nat) (past : List Incident) : Prop :=
  ∃ before after, past = before ++ .attached id :: after ∧ .detached id ∉ after

-- The messages a port received.
def heard (id : Nat) (past : List Incident) : List Message :=
  past.filterMap fun
    | .received other (.ok (some m)) => if other = id then some m else none
    | _ => none

-- The messages that can be written and that others than the port sent.
def due (id : Nat) (past : List Incident) : List Message :=
  past.filterMap fun
    | .sent other m _ => if other ≠ id ∧ (Frame.encode m).isOk then some m else none
    | _ => none

section Bus

variable {bus : LoopbackBus} {port : Port} {id other : Nat} {m : Message} {frame : List UInt8}

-- No two ports share an id, and an id that is still to be given out is no port's.
structure Sound (bus : LoopbackBus) : Prop where
  distinct : (bus.ports.map (·.id)).Nodup
  used : ∀ port ∈ bus.ports, port.id < bus.nextId

theorem Sound.port?_eq (h : bus.Sound) (hport : port ∈ bus.ports) :
    bus.port? port.id = some port := by
  unfold port?
  cases hfound : bus.ports.find? (·.id == port.id) with
  | none => exact absurd (List.find?_eq_none.mp hfound port hport) (by simp)
  | some found =>
    have hsame : found.id = port.id := by simpa using List.find?_some hfound
    rw [List.inj_on_of_nodup_map h.distinct (List.mem_of_find?_eq_some hfound) hport hsame]

theorem mem_of_port? (h : bus.port? id = some port) : port ∈ bus.ports ∧ port.id = id :=
  ⟨List.mem_of_find?_eq_some h, by simpa using List.find?_some h⟩

-- Changing what waits at ports leaves the ports as they are.
theorem Sound.requeue {change : Port → Port} (h : bus.Sound) (hid : ∀ port, (change port).id = port.id) :
    Sound { bus with ports := bus.ports.map change } where
  distinct := by
    have hids : (bus.ports.map change).map (·.id) = bus.ports.map (·.id) := by
      simp only [List.map_map, Function.comp_def, hid]
    rw [hids]
    exact h.distinct
  used := by
    intro port hport
    obtain ⟨old, hold, rfl⟩ := List.mem_map.mp hport
    rw [hid]
    exact h.used old hold

theorem sound_attach (h : bus.Sound) : bus.attach.2.Sound where
  distinct := by
    have hfresh : ∀ port ∈ bus.ports, port.id ≠ bus.nextId :=
      fun port hport => Nat.ne_of_lt (h.used port hport)
    simpa [attach, List.nodup_append] using ⟨h.distinct, hfresh⟩
  used := by
    intro port hport
    rcases List.mem_append.mp hport with hport | hport
    · exact Nat.lt_succ_of_lt (h.used port hport)
    · obtain rfl := List.mem_singleton.mp hport
      exact Nat.lt_succ_self _

theorem sound_detach (h : bus.Sound) : (bus.detach id).Sound where
  distinct := h.distinct.sublist (List.filter_sublist.map _)
  used port hport := h.used port (List.mem_of_mem_filter hport)

theorem send_of_encode (h : Frame.encode m = .ok frame) :
    bus.send id m =
      (if bus.listeners id = 0 then .error .noSubscribers else .ok (), bus.deliver id frame) := by
  simp [send, h]

theorem send_of_not_encode {fault : FrameFault} (h : Frame.encode m = .error fault) :
    bus.send id m = (.error (.frame fault), bus) := by
  simp [send, h]

theorem listeners_eq_zero_iff :
    bus.listeners id = 0 ↔ ¬∃ port ∈ bus.ports, port.id ≠ id := by
  simp [listeners, List.countP_eq_zero]

theorem decode_of_encode (h : Frame.encode m = .ok frame) : Frame.decode frame = .ok m := by
  obtain ⟨hsize, rfl⟩ := Frame.encode_eq_ok.mp h
  exact Frame.decode_eq_ok.mpr ⟨Frame.fits_of_size_le hsize, rfl⟩

-- Frames that carry these messages.
def Carry (frames : List (List UInt8)) (messages : List Message) : Prop :=
  List.Forall₂ (fun frame m => Frame.encode m = .ok frame) frames messages

theorem Carry.unique {frames : List (List UInt8)} {messages messages' : List Message}
    (h : Carry frames messages) (h' : Carry frames messages') : messages = messages' := by
  refine List.right_unique_forall₂' (fun frame m m' hm hm' => ?_) h h'
  exact Except.ok.inj ((decode_of_encode hm).symm.trans (decode_of_encode hm'))

theorem Carry.decode {frames : List (List UInt8)} {messages : List Message}
    (h : Carry frames messages) : frames.map Frame.decode = messages.map .ok := by
  induction h with
  | nil => rfl
  | cons hfirst _ ih => rw [List.map_cons, List.map_cons, decode_of_encode hfirst, ih]

theorem Carry.tail {frames : List (List UInt8)} {messages : List Message} (h : Carry frames messages) :
    Carry frames.tail messages.tail := by
  cases h with
  | nil => exact .nil
  | cons _ hrest => exact hrest

-- Puts other frames in the place of what waits at a port.
def requeue (id : Nat) (frames : List (List UInt8)) (bus : LoopbackBus) : LoopbackBus :=
  { bus with
    ports := bus.ports.map fun port => if port.id = id then { port with queue := frames } else port }

-- What a port receives is the oldest message that waits there.
theorem receive_of_carry {messages : List Message} (hport : bus.port? id = some port)
    (h : Carry port.queue messages) :
    bus.receive id = (.ok messages.head?,
      if messages = [] then bus else bus.requeue id port.queue.tail) := by
  unfold receive
  simp only [hport]
  generalize port.queue = frames at h
  cases h with
  | nil => simp
  | cons hfirst => simp [decode_of_encode hfirst, requeue]

end Bus

-- The port is there, and what it received and what waits at it was due to it after it was attached.
def Served (id : Nat) (past after : List Incident) (bus : LoopbackBus) : Prop :=
  ∃ port ∈ bus.ports, port.id = id ∧
    ∃ waiting, Carry port.queue waiting ∧ heard id past ++ waiting = due id after

-- What a record says about a bus.
structure Kept (past : List Incident) (bus : LoopbackBus) : Prop extends Sound bus where
  issued : ∀ {id}, .attached id ∈ past → id < bus.nextId
  -- Nobody receives anything before its port is attached.
  silent : ∀ {id}, bus.nextId ≤ id → heard id past = []
  attached : ∀ {port}, port ∈ bus.ports → Attached port.id past
  delivered : ∀ {id before after}, past = before ++ .attached id :: after → .detached id ∉ after →
    Served id past after bus

theorem kept_empty : Kept [] {} where
  distinct := List.nodup_nil
  used := nofun
  issued := nofun
  silent _ := rfl
  attached := nofun
  delivered h := by simp at h

section Step

variable {past before after : List Incident} {bus bus' : LoopbackBus} {incident : Incident}
  {port : Port} {id other : Nat} {m : Message} {frame : List UInt8}

theorem Attached.concat (h : Attached id past) (hne : incident ≠ .detached id) :
    Attached id (past ++ [incident]) := by
  obtain ⟨before, after, rfl, hafter⟩ := h
  refine ⟨before, after ++ [incident], by simp, ?_⟩
  simpa [hafter] using Ne.symm hne

-- What happened since a port was attached, one thing more being recorded.
theorem split_concat (h : past ++ [incident] = before ++ .attached id :: after) :
    (∃ later, after = later ++ [incident] ∧ past = before ++ .attached id :: later) ∨
      (after = [] ∧ before = past ∧ incident = .attached id) := by
  rcases List.eq_nil_or_concat' after with rfl | ⟨later, last, rfl⟩
  · obtain ⟨rfl, hlast⟩ := List.append_inj' h rfl
    exact .inr ⟨rfl, rfl, by simpa using hlast⟩
  · rw [← List.cons_append, ← List.append_assoc] at h
    obtain ⟨rfl, hlast⟩ := List.append_inj' h rfl
    obtain rfl : incident = last := by simpa using hlast
    exact .inl ⟨later, rfl, rfl⟩

theorem heard_concat : heard id (past ++ [incident]) = heard id past ++ heard id [incident] :=
  List.filterMap_append

theorem due_concat : due id (past ++ [incident]) = due id past ++ due id [incident] :=
  List.filterMap_append

-- Recording what attaches no port only prolongs what happened since one was attached.
theorem Kept.prolong (h : Kept past bus) (hnew : ∀ id, incident ≠ .attached id)
    (hserved : ∀ id later, incident ≠ .detached id → Served id past later bus →
      Served id (past ++ [incident]) (later ++ [incident]) bus')
    (hsplit : past ++ [incident] = before ++ .attached id :: after)
    (hstays : .detached id ∉ after) : Served id (past ++ [incident]) after bus' := by
  rcases split_concat hsplit with ⟨later, rfl, hpast⟩ | ⟨-, -, hattached⟩
  · simp only [List.mem_append, List.mem_singleton, not_or] at hstays
    exact hserved id later (Ne.symm hstays.2) (h.delivered hpast hstays.1)
  · exact absurd hattached (hnew id)

theorem Kept.attach (h : Kept past bus) :
    Kept (past ++ [(bus.act .attach).1]) (bus.act .attach).2 where
  toSound := sound_attach h.toSound
  issued hmem := by
    rcases List.mem_append.mp hmem with hmem | hmem
    · exact Nat.lt_succ_of_lt (h.issued hmem)
    · obtain rfl := Incident.attached.inj (List.mem_singleton.mp hmem)
      exact Nat.lt_succ_self _
  silent hid := by
    rw [heard_concat, h.silent (Nat.le_of_succ_le hid)]
    rfl
  attached hport := by
    rcases List.mem_append.mp hport with hport | hport
    · exact (h.attached hport).concat nofun
    · obtain rfl := List.mem_singleton.mp hport
      exact ⟨past, [], rfl, List.not_mem_nil⟩
  delivered hsplit hstays := by
    rcases split_concat hsplit with ⟨later, rfl, hpast⟩ | ⟨rfl, rfl, hattached⟩
    · obtain ⟨port, hport, hid, waiting, hcarry, hdue⟩ :=
        h.delivered hpast fun hmem => hstays (List.mem_append_left _ hmem)
      refine ⟨port, List.mem_append_left _ hport, hid, waiting, hcarry, ?_⟩
      rw [heard_concat, due_concat]
      simpa [heard, due, act] using hdue
    · obtain rfl := Incident.attached.inj hattached
      refine ⟨{ id := bus.nextId }, by simp [act, LoopbackBus.attach], rfl, [], .nil, ?_⟩
      have hsilent := h.silent (Nat.le_refl bus.nextId)
      rw [heard_concat, LoopbackBus.attach, hsilent]
      rfl

theorem Kept.detach (h : Kept past bus) (id : Nat) :
    Kept (past ++ [(bus.act (.detach id)).1]) (bus.act (.detach id)).2 where
  toSound := sound_detach h.toSound
  issued hmem := h.issued (by simpa [act] using hmem)
  silent hid := by
    rw [heard_concat, h.silent hid]
    rfl
  attached hport := by
    obtain ⟨hport, hne⟩ := List.mem_filter.mp hport
    exact (h.attached hport).concat fun heq => bne_iff_ne.mp hne (Incident.detached.inj heq).symm
  delivered := h.prolong nofun fun other later hne => by
    rintro ⟨port, hport, rfl, waiting, hcarry, hdue⟩
    have hstays : port.id ≠ id := fun heq => hne (congrArg Incident.detached heq.symm)
    refine ⟨port, List.mem_filter.mpr ⟨hport, bne_iff_ne.mpr hstays⟩, rfl, waiting, hcarry, ?_⟩
    rw [heard_concat, due_concat]
    simpa [heard, due, act] using hdue

-- What changes no port but in what waits at it.
theorem Kept.requeue (h : Kept past bus) {change : Port → Port}
    (hid : ∀ port, (change port).id = port.id) (hnew : ∀ id, incident ≠ .attached id)
    (hkeep : ∀ id, incident ≠ .detached id)
    (hsilent : ∀ id, bus.nextId ≤ id → heard id [incident] = [])
    (hserved : ∀ port ∈ bus.ports, ∀ waiting, Carry port.queue waiting →
      ∃ waiting', Carry (change port).queue waiting' ∧
        heard port.id [incident] ++ waiting' = waiting ++ due port.id [incident]) :
    Kept (past ++ [incident]) { bus with ports := bus.ports.map change } where
  toSound := h.toSound.requeue hid
  issued {id} hmem := by
    rcases List.mem_append.mp hmem with hmem | hmem
    · exact h.issued hmem
    · exact absurd (List.mem_singleton.mp hmem).symm (hnew id)
  silent {id} hfresh := by
    rw [heard_concat, h.silent hfresh, hsilent id hfresh]
    rfl
  attached hport := by
    obtain ⟨port, hold, rfl⟩ := List.mem_map.mp hport
    rw [hid]
    exact (h.attached hold).concat (hkeep port.id)
  delivered := h.prolong hnew fun other later _ => by
    rintro ⟨port, hport, rfl, waiting, hcarry, hdue⟩
    obtain ⟨waiting', hcarry', hmore⟩ := hserved port hport waiting hcarry
    refine ⟨change port, List.mem_map_of_mem hport, hid port, waiting', hcarry', ?_⟩
    rw [heard_concat, due_concat, List.append_assoc, hmore, ← List.append_assoc, hdue]

theorem Kept.stay (h : Kept past bus) (hnew : ∀ id, incident ≠ .attached id)
    (hkeep : ∀ id, incident ≠ .detached id) (hheard : ∀ id, heard id [incident] = [])
    (hdue : ∀ id, due id [incident] = []) : Kept (past ++ [incident]) bus := by
  have hsame : Kept (past ++ [incident]) { bus with ports := bus.ports.map fun port => port } :=
    h.requeue (fun _ => rfl) hnew hkeep (fun id _ => hheard id) fun port _ waiting hcarry =>
      ⟨waiting, hcarry, by rw [hheard, hdue, List.append_nil]; rfl⟩
  rwa [List.map_id'] at hsame

theorem Kept.send (h : Kept past bus) (id : Nat) (m : Message) :
    Kept (past ++ [(bus.act (.send id m)).1]) (bus.act (.send id m)).2 := by
  cases hframe : Frame.encode m with
  | error fault =>
    simp only [act, send_of_not_encode hframe]
    exact h.stay nofun nofun (fun _ => rfl) fun _ => by simp [due, hframe, Except.isOk, Except.toBool]
  | ok frame =>
    simp only [act, send_of_encode hframe]
    refine h.requeue (fun port => by split <;> rfl) nofun nofun (fun _ _ => rfl)
      fun port _ waiting hcarry => ?_
    have hok : (Frame.encode m).isOk = true := by rw [hframe]; rfl
    by_cases hown : port.id = id
    · exact ⟨waiting, by simpa [hown] using hcarry, by simp [heard, due, hown]⟩
    · refine ⟨waiting ++ [m], ?_, by simp [heard, due, Ne.symm hown, hok]⟩
      rw [if_neg hown]
      exact List.rel_append hcarry (.cons hframe .nil)

theorem Kept.receive (h : Kept past bus) (id : Nat) :
    Kept (past ++ [(bus.act (.receive id)).1]) (bus.act (.receive id)).2 := by
  cases hfound : bus.port? id with
  | none =>
    have hclosed : bus.receive id = (.error .closed, bus) := by simp [LoopbackBus.receive, hfound]
    simp only [act, hclosed]
    exact h.stay nofun nofun (fun _ => rfl) fun _ => rfl
  | some port =>
    obtain ⟨hport, hid⟩ := mem_of_port? hfound
    obtain ⟨before, after, hsplit, hstays⟩ := h.attached hport
    obtain ⟨same, hsame, hsameId, messages, hcarry, -⟩ := h.delivered hsplit hstays
    obtain rfl : same = port := List.inj_on_of_nodup_map h.distinct hsame hport hsameId
    simp only [act, receive_of_carry hfound hcarry]
    cases messages with
    | nil => exact h.stay nofun nofun (fun _ => rfl) fun _ => rfl
    | cons first rest =>
      rw [if_neg (List.cons_ne_nil first rest), LoopbackBus.requeue]
      refine h.requeue (fun port => by split <;> rfl) nofun nofun (fun other hfresh => ?_)
        fun other hother waiting hwaiting => ?_
      · have hne : id ≠ other := by
          rintro rfl
          have := h.used _ hport
          omega
        simp [heard, hne]
      · by_cases hown : other.id = id
        · obtain rfl : other = same := List.inj_on_of_nodup_map h.distinct hother hport (hown.trans hid.symm)
          obtain rfl := hwaiting.unique hcarry
          refine ⟨rest, ?_, by simp [heard, due, hown]⟩
          rw [if_pos hown]
          exact hcarry.tail
        · refine ⟨waiting, by rwa [if_neg hown], by simp [heard, due, Ne.symm hown]⟩

theorem Kept.act (h : Kept past bus) (action : Action) :
    Kept (past ++ [(bus.act action).1]) (bus.act action).2 := by
  cases action with
  | attach => exact h.attach
  | detach id => exact h.detach id
  | send id m => exact h.send id m
  | receive id => exact h.receive id

theorem Kept.attached_iff (h : Kept past bus) :
    Attached id past ↔ ∃ port ∈ bus.ports, port.id = id := by
  constructor
  · rintro ⟨before, after, hsplit, hstays⟩
    obtain ⟨port, hport, hid, -⟩ := h.delivered hsplit hstays
    exact ⟨port, hport, hid⟩
  · rintro ⟨port, hport, rfl⟩
    exact h.attached hport

theorem Kept.listeners_eq_zero_iff (h : Kept past bus) :
    bus.listeners id = 0 ↔ ¬∃ other, other ≠ id ∧ Attached other past := by
  rw [LoopbackBus.listeners_eq_zero_iff, not_iff_not]
  constructor
  · rintro ⟨port, hport, hne⟩
    exact ⟨port.id, hne, h.attached hport⟩
  · rintro ⟨other, hne, hattached⟩
    obtain ⟨port, hport, rfl⟩ := h.attached_iff.mp hattached
    exact ⟨port, hport, hne⟩

end Step

theorem kept_record (actions : List Action) : Kept (record actions).1 (record actions).2 := by
  induction actions using List.reverseRecOn with
  | nil => exact kept_empty
  | append_singleton actions action ih =>
    rw [record, List.foldl_concat]
    exact ih.act action

variable {actions : List Action} {past : List Incident} {bus : LoopbackBus}

-- Whatever is done at a bus, a port that is attached has received, and has waiting, the messages it
-- was due, in the order they were sent in. It receives the oldest one that waits, and nothing else
-- but that none does. Sending reports whether anybody else is attached.
theorem delivers_record (h : record actions = (past, bus)) :
    (∀ id before after, past = before ++ .attached id :: after → .detached id ∉ after →
      ∃ port waiting, bus.port? id = some port ∧ port.queue.map Frame.decode = waiting.map .ok ∧
        heard id past ++ waiting = due id after ∧ (bus.receive id).1 = .ok waiting.head?) ∧
    (∀ id m frame, Frame.encode m = .ok frame →
      ((bus.send id m).1 = .ok () ↔ ∃ other, other ≠ id ∧ Attached other past) ∧
      ((bus.send id m).1 = .error .noSubscribers ↔
        ¬∃ other, other ≠ id ∧ Attached other past)) ∧
    ∀ id m fault, Frame.encode m = .error fault → bus.send id m = (.error (.frame fault), bus) := by
  have hkept := kept_record actions
  rw [h] at hkept
  refine ⟨fun id before after hsplit hstays => ?_, fun id m frame hframe => ?_,
    fun id m fault hfault => send_of_not_encode hfault⟩
  · obtain ⟨port, hport, rfl, waiting, hcarry, hdue⟩ := hkept.delivered hsplit hstays
    have hfound := hkept.toSound.port?_eq hport
    exact ⟨port, waiting, hfound, hcarry.decode, hdue, by rw [receive_of_carry hfound hcarry]⟩
  · rw [send_of_encode hframe, ← hkept.listeners_eq_zero_iff]
    by_cases hnone : bus.listeners id = 0
    · simpa [hnone] using hkept.listeners_eq_zero_iff.mp hnone
    · have hsome := not_not.mp fun hne => hnone (hkept.listeners_eq_zero_iff.mpr hne)
      simpa [hnone] using hsome

-- One port sees the end of what another sends, and a third is gone by then.
def latecomer : List Action :=
  [.attach, .attach, .send 0 (.deinit 4), .attach, .send 1 (.getValue 5 0), .detach 1,
    .send 0 (.exit 0 "adé"), .receive 0, .send 2 (.deinit 6), .receive 2]

theorem delivers_record_latecomer :
    ∃ before after bus, record latecomer = (before ++ .attached 2 :: after, bus) ∧
      .detached 2 ∉ after ∧ .attached 0 ∈ before ∧ .detached 1 ∈ after ∧
      due 2 after = [.getValue 5 0, .exit 0 "adé"] ∧
      (∃ port waiting, bus.port? 2 = some port ∧ port.queue.map Frame.decode = waiting.map .ok ∧
        heard 2 (before ++ .attached 2 :: after) ++ waiting = due 2 after ∧
        (bus.receive 2).1 = .ok waiting.head?) ∧
      ((bus.send 2 (.deinit 7)).1 = .ok () ↔
        ∃ other, other ≠ 2 ∧ Attached other (before ++ .attached 2 :: after)) := by
  have h : record latecomer =
      ([.attached 0, .attached 1, .sent 0 (.deinit 4) (.ok ())] ++ .attached 2 ::
        [.sent 1 (.getValue 5 0) (.ok ()), .detached 1, .sent 0 (.exit 0 "adé") (.ok ()),
          .received 0 (.ok (some (.getValue 5 0))), .sent 2 (.deinit 6) (.ok ()),
          .received 2 (.ok (some (.getValue 5 0)))],
        (record latecomer).2) := rfl
  have hstays : Incident.detached 2 ∉
      [.sent 1 (.getValue 5 0) (.ok ()), .detached 1, .sent 0 (.exit 0 "adé") (.ok ()),
        .received 0 (.ok (some (.getValue 5 0))), .sent 2 (.deinit 6) (.ok ()),
        .received 2 (.ok (some (.getValue 5 0)))] := by simp
  obtain ⟨hports, hsends, -⟩ := delivers_record h
  exact ⟨_, _, _, h, hstays, by simp, by simp, rfl, hports 2 _ _ rfl hstays,
    (hsends 2 (.deinit 7) _ rfl).1⟩

end GpioBridge.LoopbackBus
