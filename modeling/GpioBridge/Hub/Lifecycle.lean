import GpioBridge.Hub.Basic

namespace GpioBridge

structure Registration where
  uid : UInt64
  label : String
  lineCount : UInt32
  names : List String
  deriving DecidableEq, Repr

namespace Registration

-- Refuses the broadcast uid, a chip without lines, and names that are not one for each line, in
-- this order.
def check (r : Registration) : Except Fault Unit :=
  if r.uid = broadcastUid then .error (.violation s!"uid {broadcastUid} is reserved")
  else if r.lineCount = 0 then .error (.violation "chip must have at least one line")
  else if r.names.length ≠ r.lineCount.toNat then
    .error (.violation s!"{r.names.length} line names for {r.lineCount} lines")
  else .ok ()

-- A chip without a label is called after its uid.
def chipLabel (r : Registration) : String :=
  if r.label = "" then s!"vgpio-{r.uid}" else r.label

def chip (r : Registration) : Chip := .create r.uid r.chipLabel r.names

end Registration

namespace Hub

def evict (uid : UInt64) (id : ChipId) (hub : Hub) : Hub :=
  { hub with registry := hub.registry.erase uid }.modifyChip id fun chip =>
    { chip with retired := true }

-- Makes the chip and maps its uid to it, unless the limit is reached.
def enlistFresh (r : Registration) (hub : Hub) : Except Fault ChipId × Hub :=
  match hub.limit with
  | some limit =>
    if limit ≤ hub.liveCount then (.error (.chipLimit limit), hub)
    else
      let (id, hub) := hub.addChip r.chip
      (.ok id, { hub with registry := hub.registry.insert r.uid id })
  | none =>
    let (id, hub) := hub.addChip r.chip
    (.ok id, { hub with registry := hub.registry.insert r.uid id })

-- The outcome of an enlistment, and whether a stale chip had to go for it.
structure Enlistment where
  evicted : Bool
  outcome : Except Fault ChipId

-- Enlists a chip in one step. A uid whose chip is ready or exposed is refused; a stale chip is
-- evicted, also when the limit then stands in the way.
def enlist (r : Registration) (hub : Hub) : Enlistment × Hub :=
  match hub.find? r.uid with
  | none =>
    let (outcome, hub) := hub.enlistFresh r
    (⟨false, outcome⟩, hub)
  | some id =>
    let chip := hub.chip id
    if chip.initialized then (⟨false, .error (.uidInUse r.uid)⟩, hub)
    else if chip.registered then (⟨false, .error .busy⟩, hub)
    else
      let (outcome, hub) := (hub.evict r.uid id).enlistFresh r
      (⟨true, outcome⟩, hub)

def confirm (id : ChipId) (handle : Handle) : Hub → Hub :=
  modifyChip id fun chip => { chip with handle := some handle, registered := true }

-- Unmaps a uid if it still names this chip.
def unmap (uid : UInt64) (id : ChipId) (hub : Hub) : Hub :=
  if hub.find? uid = some id then { hub with registry := hub.registry.erase uid } else hub

def abandon (id : ChipId) : Hub → Hub :=
  modifyChip id fun chip => { chip with initialized := false, retired := true }

-- Enlists a chip first, so that replies can reach it, and then exposes it; one that cannot be
-- exposed is taken back.
def register (r : Registration) : HubProcess (Except Fault ChipId) := do
  match r.check with
  | .error fault => return .error fault
  | .ok () =>
    let enlistment ← .update (enlist r)
    if enlistment.evicted then
      .log ⟨.debug, .lifecycle, s!"evicted stale chip uid {r.uid}", []⟩
    match enlistment.outcome with
    | .error fault => return .error fault
    | .ok id =>
      let chip := (← .get).chip id
      match ← HubProcess.expose chip.descriptor id with
      | .ok handle =>
        .modify (confirm id handle)
        .log ⟨.info, .lifecycle,
          s!"registered chip '{chip.label}' (uid {r.uid}, {chip.lineCount} lines)", []⟩
        return .ok id
      | .error fault =>
        .log ⟨.warn, .lifecycle, s!"framework refused chip uid {r.uid}: {fault.message}", []⟩
        .modify (unmap r.uid id)
        .modify (abandon id)
        return .error fault

inductive Suspension where
  | settled
  -- It was marked as exposed but no framework had it.
  | unexposed
  | exposed (handle : Handle) (lineCount : UInt32)
  deriving DecidableEq, Repr

-- Stops a chip from taking line operations while it is being withdrawn.
def suspend (id : ChipId) (hub : Hub) : Suspension × Hub :=
  let chip := hub.chip id
  if chip.registered then
    match chip.handle with
    | none =>
      (.unexposed,
        hub.modifyChip id fun chip => { chip with initialized := false, registered := false })
    | some handle =>
      (.exposed handle chip.lineCount,
        hub.modifyChip id fun chip => { chip with initialized := false })
  else (.settled, hub)

-- Lets a chip that could not be withdrawn take line operations again.
def resume (id : ChipId) : Hub → Hub :=
  modifyChip id fun chip => { chip with initialized := true }

def release (id : ChipId) : Hub → Hub :=
  modifyChip id fun chip => { chip with handle := none, registered := false }

def firstHeld (handle : Handle) : List UInt32 → HubProcess (Option UInt32)
  | [] => return none
  | pin :: rest => do
    if ← HubProcess.isHeld handle pin then return some pin
    firstHeld handle rest

def pins (lineCount : UInt32) : List UInt32 := (List.range lineCount.toNat).map UInt32.ofNat

-- Withdraws the chip of a uid, which is refused while one of its lines is held. A uid that names no
-- exposed chip needs nothing done.
def withdraw (uid : UInt64) : HubProcess (Except Fault Unit) := do
  match (← .get).find? uid with
  | none =>
    .log ⟨.debug, .lifecycle, s!"deinitialize of unknown uid {uid}", []⟩
    return .ok ()
  | some id =>
    if !((← .get).chip id).registered then
      .log ⟨.debug, .lifecycle, s!"deinitialize of unregistered uid {uid}", []⟩
      return .ok ()
    match ← .update (suspend id) with
    | .settled | .unexposed => return .ok ()
    | .exposed handle lineCount =>
      match ← firstHeld handle (pins lineCount) with
      | some pin =>
        .modify (resume id)
        .log ⟨.info, .lifecycle, s!"chip uid {uid} busy: line {pin} is held", []⟩
        return .error .busy
      | none =>
        HubProcess.conceal handle
        .modify (release id)
        .log ⟨.info, .lifecycle, s!"deinitialized chip uid {uid}", []⟩
        return .ok ()

def disable (id : ChipId) (hub : Hub) : Option Handle × Hub :=
  ((hub.chip id).handle, hub.modifyChip id fun chip => { chip with initialized := false })

def retire (id : ChipId) : Hub → Hub :=
  modifyChip id fun chip => { chip with handle := none, registered := false, retired := true }

def retireAll : List ChipId → HubProcess Unit
  | [] => return ()
  | id :: rest => do
    match ← .update (disable id) with
    | some handle => HubProcess.conceal handle
    | none => pure ()
    .modify (retire id)
    retireAll rest

-- Withdraws and retires every mapped chip, held or not, and says how many there were.
def teardown : HubProcess Nat := do
  let ids ← .update drain
  retireAll ids
  if !ids.isEmpty then
    .log ⟨.info, .lifecycle, s!"tore down {ids.length} chip(s)", []⟩
  return ids.length

end Hub

end GpioBridge
