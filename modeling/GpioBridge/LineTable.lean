import GpioBridge.Chip.Basic
import GpioBridge.Process

namespace GpioBridge

structure Exposed (ω : Type) where
  handle : Handle
  descriptor : Descriptor
  ops : ω
  held : List (Option String)
  deriving Repr

structure LineTable (ω : Type) where
  nextHandle : UInt64 := 0
  chips : List (Exposed ω) := []
  deriving Repr, Inhabited

-- Asks for a line to be freed by what serves it.
structure FreeDemand (ω : Type) where
  ops : ω
  pin : UInt32

abbrev TableProcess (ω : Type) :=
  Process (LineTable ω) (FreeDemand ω) fun _ => Except Fault Unit

namespace LineTable

variable {ω : Type}

def find? (table : LineTable ω) (uid : UInt64) : Option (Exposed ω) :=
  table.chips.find? (·.descriptor.uid == uid)

def exposure? (table : LineTable ω) (handle : Handle) : Option (Exposed ω) :=
  table.chips.find? (·.handle == handle)

def setHolder (uid : UInt64) (pin : UInt32) (holder : Option String) (table : LineTable ω) :
    LineTable ω :=
  { table with
    chips := table.chips.map fun chip =>
      if chip.descriptor.uid = uid then { chip with held := chip.held.set pin.toNat holder }
      else chip }

-- Exposes a chip under a new handle, unless its uid is exposed already.
def add (descriptor : Descriptor) (ops : ω) (table : LineTable ω) :
    Except Fault Handle × LineTable ω :=
  if (table.find? descriptor.uid).isSome then
    (.error (.framework s!"chip uid {descriptor.uid} already exposed"), table)
  else
    let handle := Handle.mk table.nextHandle
    (.ok handle,
      { nextHandle := table.nextHandle + 1
        chips := table.chips.filter (·.handle != handle) ++
          [⟨handle, descriptor, ops, descriptor.names.map fun _ => none⟩] })

def remove (handle : Handle) (table : LineTable ω) : Option Descriptor × LineTable ω :=
  ((table.exposure? handle).map (·.descriptor),
    { table with chips := table.chips.filter (·.handle != handle) })

def isHeld (table : LineTable ω) (handle : Handle) (pin : UInt32) : Bool :=
  match table.exposure? handle with
  | none => false
  | some chip =>
    match chip.held[pin.toNat]? with
    | some (some _) => true
    | _ => false

def holder? (table : LineTable ω) (uid : UInt64) (pin : UInt32) : Option String :=
  match table.find? uid with
  | none => none
  | some chip => (chip.held[pin.toNat]?).join

def ops? (table : LineTable ω) (uid : UInt64) : Option ω := (table.find? uid).map (·.ops)

def sorted (table : LineTable ω) : List (Exposed ω) :=
  table.chips.mergeSort fun a b => a.descriptor.uid ≤ b.descriptor.uid

def descriptors (table : LineTable ω) : List Descriptor := table.sorted.map (·.descriptor)

inductive Grant (ω : Type) where
  | granted (ops : ω)
  | heldBy (owner : String)
  | refused (fault : Fault)

def grant (uid : UInt64) (pin : UInt32) (consumer : String) (table : LineTable ω) :
    Grant ω × LineTable ω :=
  match table.find? uid with
  | none => (.refused (.framework s!"no chip with uid {uid}"), table)
  | some chip =>
    match chip.held[pin.toNat]? with
    | none => (.refused (.noSuchLine pin chip.descriptor.lineCount), table)
    | some (some owner) => (.heldBy owner, table)
    | some none => (.granted chip.ops, table.setHolder uid pin (some consumer))

-- What frees a held line.
def releasable (table : LineTable ω) (uid : UInt64) (pin : UInt32) : Except Fault ω :=
  match table.find? uid with
  | none => .error (.framework s!"no chip with uid {uid}")
  | some chip =>
    match chip.held[pin.toNat]? with
    | some (some _) => .ok chip.ops
    | _ => .error (.framework s!"line {uid}:{pin} is not held")

def expose (descriptor : Descriptor) (ops : ω) : TableProcess ω (Except Fault Handle) := do
  match ← .update (add descriptor ops) with
  | .error fault => return .error fault
  | .ok handle =>
    let { uid, label, .. } := descriptor
    .log ⟨.info, .lineTable,
      s!"exposing chip '{label}' (uid {uid}, {descriptor.lineCount} lines)", []⟩
    return .ok handle

-- Ends an exposure; a handle that is not in use does nothing.
def conceal (handle : Handle) : TableProcess ω Unit := do
  match ← .update (remove handle) with
  | none => return ()
  | some { uid, label, .. } =>
    .log ⟨.info, .lineTable, s!"withdrew chip '{label}' (uid {uid})", []⟩

def request (uid : UInt64) (pin : UInt32) (consumer : String) :
    TableProcess ω (Except Fault ω) := do
  match ← .update (grant uid pin consumer) with
  | .refused fault => return .error fault
  | .heldBy owner =>
    .log ⟨.debug, .lineTable, s!"line {uid}:{pin} already held by {owner}", []⟩
    return .error .busy
  | .granted ops =>
    .log ⟨.debug, .lineTable, s!"line {uid}:{pin} requested by {consumer}", []⟩
    return .ok ops

-- Releases a held line: it is freed, and then nobody holds it, even if freeing failed. The table is
-- not locked while the line is being freed, and the line is looked up again afterwards.
def release (uid : UInt64) (pin : UInt32) : TableProcess ω (Except Fault Unit) := do
  match (← .get).releasable uid pin with
  | .error fault => return .error fault
  | .ok ops =>
    match ← .ask ⟨ops, pin⟩ .done with
    | .ok () => pure ()
    | .error fault =>
      .log ⟨.warn, .lineTable, s!"freeing line {uid}:{pin} failed: {fault.message}", []⟩
    .modify (setHolder uid pin none)
    .log ⟨.debug, .lineTable, s!"line {uid}:{pin} released", []⟩
    return .ok ()

end LineTable

end GpioBridge
