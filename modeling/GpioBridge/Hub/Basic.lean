import GpioBridge.Chip.Basic
import GpioBridge.Process
import GpioBridge.Text.Duration
import GpioBridge.UidMap

namespace GpioBridge

structure Counters where
  sent : UInt64 := 0
  timedOut : UInt64 := 0
  dispatched : UInt64 := 0
  dropped : UInt64 := 0
  deriving DecidableEq, Repr, Inhabited

-- A chip is named by its place among all chips ever made, so one that lost its uid can still be
-- spoken of.
structure Hub where
  -- Every chip ever made, in the order they were made.
  chips : List Chip := []
  registry : UidMap ChipId := ∅
  counters : Counters := {}
  limit : Option Nat := none
  -- How many milliseconds a caller waits for a reply.
  patience : UInt64 := 2000
  deriving Repr, Inhabited

inductive Demand where
  | send (m : Message)
  | expose (descriptor : Descriptor) (chip : ChipId)
  | conceal (handle : Handle)
  | isHeld (handle : Handle) (pin : UInt32)

def Demand.Answer : Demand → Type
  | send _ => Except TransportFault Unit
  | expose _ _ => Except Fault Handle
  | conceal _ => Unit
  | isHeld _ _ => Bool

abbrev HubProcess := Process Hub Demand Demand.Answer

namespace HubProcess

def send (m : Message) : HubProcess (Except TransportFault Unit) :=
  .ask (.send m) .done

def expose (descriptor : Descriptor) (chip : ChipId) : HubProcess (Except Fault Handle) :=
  .ask (.expose descriptor chip) .done

def conceal (handle : Handle) : HubProcess Unit := .ask (.conceal handle) .done

def isHeld (handle : Handle) (pin : UInt32) : HubProcess Bool := .ask (.isHeld handle pin) .done

section Lemmas

variable {α : Type}

@[simp]
theorem send_bind (m : Message) (f : Except TransportFault Unit → HubProcess α) :
    (send m).bind f = .ask (.send m) f := rfl

@[simp]
theorem expose_bind (descriptor : Descriptor) (chip : ChipId)
    (f : Except Fault Handle → HubProcess α) :
    (expose descriptor chip).bind f = .ask (.expose descriptor chip) f := rfl

@[simp]
theorem conceal_bind (handle : Handle) (f : Unit → HubProcess α) :
    (conceal handle).bind f = .ask (.conceal handle) f := rfl

@[simp]
theorem isHeld_bind (handle : Handle) (pin : UInt32) (f : Bool → HubProcess α) :
    (isHeld handle pin).bind f = .ask (.isHeld handle pin) f := rfl

end Lemmas

end HubProcess

namespace Hub

-- The chip of an id; every id the hub gives out names one of its chips.
def chip (hub : Hub) (id : ChipId) : Chip := hub.chips[id.index]?.getD default

def modifyChip (id : ChipId) (f : Chip → Chip) (hub : Hub) : Hub :=
  { hub with chips := hub.chips.modify id.index f }

def find? (hub : Hub) (uid : UInt64) : Option ChipId := hub.registry.get? uid

-- Makes a chip that no uid names yet.
def addChip (chip : Chip) (hub : Hub) : ChipId × Hub :=
  (⟨hub.chips.length⟩, { hub with chips := hub.chips ++ [chip] })

-- Maps the uid of a chip to it, unless the uid is mapped already.
def insert (id : ChipId) (hub : Hub) : Except Fault Unit × Hub :=
  let uid := (hub.chip id).uid
  if hub.registry.contains uid then (.error (.uidInUse uid), hub)
  else (.ok (), { hub with registry := hub.registry.insert uid id })

def remove (uid : UInt64) (hub : Hub) : Option ChipId × Hub :=
  (hub.find? uid, { hub with registry := hub.registry.erase uid })

-- Unmaps every uid and gives the chips in the order of their uids.
def drain (hub : Hub) : List ChipId × Hub := (hub.registry.values, { hub with registry := ∅ })

def mapped (hub : Hub) : List Chip := hub.registry.values.map hub.chip

def summaries (hub : Hub) : List Chip.Summary := hub.mapped.map Chip.summary

-- How many mapped chips count against the limit.
def liveCount (hub : Hub) : Nat := hub.mapped.countP Chip.isLive

def setMark (guard : Guard) (id : ChipId) (mark : Chip.Mark) (value : Bool) (hub : Hub) :
    Option Hub :=
  if guard.owns id then some (hub.modifyChip id fun chip => chip.setMark mark value) else none

end Hub

end GpioBridge
