import GpioBridge.Proofs.Core.Basic
import GpioBridge.Proofs.Hub.Cells
import GpioBridge.Proofs.Hub.Unclaimed

namespace GpioBridge

-- What a reply says, in the words it travels in.
structure Message.Report where
  uid : UInt64
  pin : UInt32
  word : UInt32
  value : Option UInt32 := none

-- Only the replies to reads have room for a value.
def Message.report? : Message → Option Report
  | getValueReply uid pin word value => some { uid, pin, word, value }
  | setValueReply uid pin word | setConfigReply uid pin word | setDirectionReply uid pin word =>
    some { uid, pin, word }
  | _ => none

-- A word is read as the status it is written as; one that no status is written as, as unknown.
def Status.IsRead (status : Status) (word : UInt32) : Prop :=
  status.code = word ∨ status = .unknown ∧ ∀ other : Status, other.code ≠ word

theorem Status.isRead_ofCode (word : UInt32) : (ofCode word).IsRead word := by
  by_cases hlisted : ∃ status : Status, status.code = word
  · obtain ⟨status, rfl⟩ := hlisted
    exact .inl (congrArg code (ofCode_code status))
  · have hne : ∀ status : Status, word ≠ status.code := fun status h => hlisted ⟨status, h.symm⟩
    have hunknown : ofCode word = .unknown := by
      rw [ofCode, if_neg (show word ≠ 0 from hne .ok), if_neg (show word ≠ 1 from hne .notSupported),
        if_neg (show word ≠ 2 from hne .brokenPipe), if_neg (show word ≠ 3 from hne .protocolError)]
    exact .inr ⟨hunknown, fun status => (hne status).symm⟩

theorem Status.ofCode_eq_ok_iff {word : UInt32} : ofCode word = .ok ↔ word = 0 := by
  unfold ofCode
  repeat' split
  all_goals simp_all

namespace Message

-- What is read of a reply: the line, the status, and the level where that counts.
structure Reads (report : Report) (reply : LineReply) : Prop where
  uid : reply.uid = report.uid
  pin : reply.pin = report.pin
  status : reply.status = Status.ofCode report.word
  level : report.word = 0 → reply.level = report.value.map (· != 0)

-- Of every reply something is read, unless it says that a read succeeded and does not say the
-- level.
theorem reading_of_report? {m : Message} {report : Report} (h : m.report? = some report) :
    (m = .getValueReply report.uid report.pin 0 none ∧
      m.reading = .missingLevel report.uid report.pin) ∨
    (m ≠ .getValueReply report.uid report.pin 0 none ∧
      ∃ reply, m.reading = .reply reply ∧ Reads report reply) := by
  cases m with
  | getValueReply uid pin word value =>
    cases h
    by_cases hok : word = 0
    · subst hok
      cases value with
      | none => exact .inl ⟨rfl, rfl⟩
      | some level =>
        exact .inr ⟨nofun, ⟨uid, pin, .ok, some (level != 0)⟩, rfl, rfl, rfl, rfl, fun _ => rfl⟩
    · have hfailed := mt Status.ofCode_eq_ok_iff.mp hok
      have hreading : (getValueReply uid pin word value).reading =
          .reply ⟨uid, pin, Status.ofCode word, none⟩ := by
        dsimp only [reading]
        generalize Status.ofCode word = status at hfailed ⊢
        cases status with
        | ok => exact absurd rfl hfailed
        | _ => rfl
      refine .inr ⟨fun heq => hok ?_, _, hreading, rfl, rfl, rfl, (absurd · hok)⟩
      injection heq
  | setValueReply | setConfigReply | setDirectionReply =>
    cases h
    exact .inr ⟨nofun, _, rfl, rfl, rfl, rfl, fun _ => rfl⟩
  | _ => cases h

theorem report?_of_reading {m : Message} {reply : LineReply} (h : m.reading = .reply reply) :
    ∃ report, m.report? = some report := by
  cases m with
  | getValueReply | setValueReply | setConfigReply | setDirectionReply => exact ⟨_, rfl⟩
  | _ => cases h

end Message

namespace Hub

-- A message is for a line: it is a reply that can be read, and names the line of a chip that is
-- there.
structure Reaches (hub : Hub) (m : Message) (id : ChipId) (report : Message.Report) : Prop where
  said : m.report? = some report
  readable : m ≠ .getValueReply report.uid report.pin 0 none
  mapped : hub.find? report.uid = some id
  present : (hub.chip id).retired = false
  onChip : report.pin.toNat < (hub.chip id).names.length

-- What a reply changes: the cell of its line, and how many replies were dispatched.
structure Signals (hub hub' : Hub) (id : ChipId) (report : Message.Report) : Prop where
  cell : ∃ old new, hub.cell? id report.pin = some old ∧ hub'.cell? id report.pin = some new ∧
    new.pending.toNat = min (old.pending.toNat + 1) 0xFFFFFFFF ∧
    new.status.IsRead report.word ∧
    new.level = if report.word = 0 then report.value.map (· != 0) else old.level
  others : ∀ other place, ¬(other = id ∧ place = report.pin) →
    hub'.cell? other place = hub.cell? other place
  counters : hub'.counters = { hub.counters with dispatched := hub.counters.dispatched + 1 }

variable {hub : Hub} {m : Message} {id : ChipId} {report : Message.Report} {reply : LineReply}

theorem recipient_of_reaches (h : hub.Reaches m id report) :
    ∃ reply, hub.recipient m = .ok (id, reply) ∧ Message.Reads report reply := by
  obtain ⟨hsaid, hreadable, hmapped, hpresent, hpin⟩ := h
  rcases Message.reading_of_report? hsaid with ⟨hmissing, -⟩ | ⟨-, reply, hreading, hreads⟩
  · exact absurd hmissing hreadable
  · rw [← hreads.uid] at hmapped
    rw [← hreads.pin] at hpin
    obtain ⟨cell, hcell⟩ := Chip.exists_cell_iff.mpr hpin
    exact ⟨reply, by simp [recipient, hreading, hmapped, hpresent, hcell], hreads⟩

theorem reaches_of_recipient (h : hub.recipient m = .ok (id, reply)) :
    ∃ report, hub.Reaches m id report := by
  obtain ⟨hreading, hmapped, hpresent, hcell⟩ := of_recipient h
  obtain ⟨report, hsaid⟩ := Message.report?_of_reading hreading
  rcases Message.reading_of_report? hsaid with
    ⟨-, hmissing⟩ | ⟨hreadable, reply', hreading', hreads⟩
  · rw [hreading] at hmissing
    cases hmissing
  · obtain rfl : reply = reply' := Message.Reading.reply.inj (hreading.symm.trans hreading')
    rw [hreads.uid] at hmapped
    rw [hreads.pin] at hcell
    exact ⟨report, hsaid, hreadable, hmapped, hpresent, Chip.exists_cell_iff.mp hcell⟩

theorem signals_deliver (h : hub.recipient m = .ok (id, reply)) (hreads : Message.Reads report reply) :
    Signals hub (deliver m hub).2 id report := by
  obtain ⟨-, -, -, cell, hcell⟩ := of_recipient h
  have hcells : ∀ other place, (deliver m hub).2.cell? other place =
      if other = id ∧ place = report.pin then
        (hub.cell? other place).map (·.post reply.status reply.level)
      else hub.cell? other place := by
    rw [← hreads.pin, deliver, h]
    exact cell?_modifyCell hub id reply.pin _
  rw [hreads.pin] at hcell
  refine ⟨⟨cell, cell.post reply.status reply.level, hcell, ?_, ?_, ?_, ?_⟩, ?_, ?_⟩
  · rw [hcells, if_pos ⟨rfl, rfl⟩, cell?, hcell, Option.map_some]
  · exact cell.pending_post reply.status reply.level
  · exact hreads.status ▸ Status.isRead_ofCode report.word
  · have hok : reply.status.isOk = true ↔ report.word = 0 := by
      rw [hreads.status, Status.isOk, beq_iff_eq, Status.ofCode_eq_ok_iff]
    by_cases hword : report.word = 0
    · rw [if_pos hword, ReplyCell.post, if_pos (hok.mpr hword), hreads.level hword]
    · rw [if_neg hword, ReplyCell.post, if_neg (mt hok.mp hword)]
  · intro other place hne
    rw [hcells, if_neg hne]
  · rw [deliver, h]
    rfl

end Hub

namespace Core

variable {τ : Type}

-- A message adds a signal to the cell of the one line it is for, or only counts as dropped. Nothing
-- is sent and nothing else changes, whatever the message and whatever the core has come to.
theorem dispatch_signals_or_drops
    (around : Process.Surroundings Core τ Message fun _ => Except TransportFault Unit) (m : Message)
    (core : Core) (t : τ) :
    ∃ yes hub' event, (Operation.hub (.dispatch m)).process.run around core t =
        (.hub (.delivered yes), { core with hub := hub' }, around.hear event t) ∧
      (yes = true ↔ ∃ id report, core.hub.Reaches m id report) ∧
      (∀ id report, core.hub.Reaches m id report → core.hub.Signals hub' id report) ∧
      (yes = false →
        hub' = { core.hub with counters.dropped := core.hub.counters.dropped + 1 }) ∧
      core.hub.Resembles hub' := by
  obtain ⟨event, hrun⟩ := run_delivered around m core t
  refine ⟨_, _, event, hrun, ?_, fun id report hreaches => ?_, fun hno => ?_,
    Hub.resembles_deliver m core.hub⟩
  · constructor
    · intro hyes
      cases hrecipient : core.hub.recipient m with
      | ok found => exact ⟨found.1, Hub.reaches_of_recipient hrecipient⟩
      | error reason =>
        rw [Hub.deliver, hrecipient] at hyes
        cases hyes
    · rintro ⟨id, report, hreaches⟩
      obtain ⟨reply, hrecipient, -⟩ := Hub.recipient_of_reaches hreaches
      rw [Hub.deliver, hrecipient]
      rfl
  · obtain ⟨reply, hrecipient, hreads⟩ := Hub.recipient_of_reaches hreaches
    exact Hub.signals_deliver hrecipient hreads
  · cases hrecipient : core.hub.recipient m with
    | ok found =>
      rw [Hub.deliver, hrecipient] at hno
      cases hno
    | error reason =>
      rw [Hub.deliver, hrecipient]
      rfl

-- A line whose cell cannot count any further.
def brimful : Hub where
  chips := [(Chip.create 5 "relay" ["coil"]).modifyCell 0 fun _ => ⟨0xFFFFFFFF, .ok, some true⟩]
  registry := (∅ : UidMap ChipId).insert 5 ⟨0⟩

-- The reply is counted as dispatched, though the cell has the same count as before and a level that
-- is not of this reply.
example : (Hub.deliver (.setValueReply 5 0 7) brimful).2.cell? ⟨0⟩ 0 =
      some ⟨0xFFFFFFFF, .unknown, some true⟩ ∧
    (Hub.deliver (.setValueReply 5 0 7) brimful).2.counters.dispatched = 1 := by
  decide

end Core

end GpioBridge
