import GpioBridge.Chip.ReplyCell
import GpioBridge.Fault

namespace GpioBridge

-- Names one chip among all the chips a hub ever made.
structure ChipId where
  index : Nat
  deriving DecidableEq, Repr, Inhabited

-- Names one exposure of a chip.
structure Handle where
  number : UInt64
  deriving DecidableEq, Repr, Inhabited

-- What is remembered of a line: what the bridge last confirmed about it.
structure Line.Memory where
  level : Bool := false
  direction : Direction := .input
  deriving DecidableEq, Repr, Inhabited

structure Descriptor where
  uid : UInt64
  label : String
  names : List String
  deriving DecidableEq, Repr, Inhabited

def Descriptor.lineCount (d : Descriptor) : UInt32 := UInt32.ofNat d.names.length

-- The names of the lines, the cells their callers wait on and what is remembered of each stand in
-- lists of their own, since different locks guard them. A chip has as many of one as of the others.
structure Chip where
  uid : UInt64
  label : String
  names : List String
  cells : List ReplyCell
  memories : List Line.Memory
  cells_length : cells.length = names.length
  memories_length : memories.length = names.length
  handle : Option Handle := none
  initialized : Bool := true
  registered : Bool := false
  -- Whether the chip was evicted or torn down; it is never sent a reply again.
  retired : Bool := false
  deriving DecidableEq, Repr

instance : Inhabited Chip :=
  ⟨{ uid := 0, label := "", names := [], cells := [], memories := [], cells_length := rfl,
     memories_length := rfl, initialized := false }⟩

-- A line as a whole, put together from what stands at its place in the lists of its chip.
structure Line extends memory : Line.Memory where
  name : String
  cell : ReplyCell
  deriving DecidableEq, Repr

namespace Chip

def create (uid : UInt64) (label : String) (names : List String) : Chip where
  uid := uid
  label := label
  names := names
  cells := names.map fun _ => {}
  memories := List.replicate names.length {}
  cells_length := List.length_map _
  memories_length := List.length_replicate

-- As a bridge and a consumer are told it, a number of lines has 32 bits.
def lineCount (chip : Chip) : UInt32 := UInt32.ofNat chip.names.length

def descriptor (chip : Chip) : Descriptor := ⟨chip.uid, chip.label, chip.names⟩

def cell? (chip : Chip) (pin : UInt32) : Option ReplyCell := chip.cells[pin.toNat]?

def memory? (chip : Chip) (pin : UInt32) : Option Line.Memory := chip.memories[pin.toNat]?

-- Changes the cell of one line; a pin without a cell changes nothing.
def modifyCell (chip : Chip) (pin : UInt32) (f : ReplyCell → ReplyCell) : Chip :=
  { chip with
    cells := chip.cells.modify pin.toNat f
    cells_length := by rw [List.length_modify, chip.cells_length] }

-- Changes what is remembered of one line; a pin of which nothing is remembered changes nothing.
def modifyMemory (chip : Chip) (pin : UInt32) (f : Line.Memory → Line.Memory) : Chip :=
  { chip with
    memories := chip.memories.modify pin.toNat f
    memories_length := by rw [List.length_modify, chip.memories_length] }

def lines (chip : Chip) : List Line :=
  chip.names.zipWith (fun name (cell, memory) => { name, cell, memory })
    (chip.cells.zip chip.memories)

def line? (chip : Chip) (pin : UInt32) : Option Line := chip.lines[pin.toNat]?

def noSuchLine (chip : Chip) (pin : UInt32) : Fault := .noSuchLine pin chip.lineCount

def checkPin (chip : Chip) (pin : UInt32) : Except Fault Unit :=
  if pin < chip.lineCount then .ok () else .error (chip.noSuchLine pin)

def post (chip : Chip) (pin : UInt32) (status : Status) (level : Option Bool) : Chip :=
  chip.modifyCell pin fun cell => cell.post status level

def pending (chip : Chip) : List UInt32 := chip.cells.map (·.pending)

-- A chip that is ready or exposed counts against the limit.
def isLive (chip : Chip) : Bool := chip.initialized || chip.registered

structure Summary where
  uid : UInt64
  label : String
  lineCount : UInt32
  initialized : Bool
  registered : Bool
  deriving DecidableEq, Repr

def summary (chip : Chip) : Summary where
  uid := chip.uid
  label := chip.label
  lineCount := chip.lineCount
  initialized := chip.initialized
  registered := chip.registered

inductive Mark where
  | initialized
  | registered
  | retired
  deriving DecidableEq, Repr

-- Sets a mark; retirement cannot be undone.
def setMark (chip : Chip) (mark : Mark) (value : Bool) : Chip :=
  match mark with
  | .initialized => { chip with initialized := value }
  | .registered => { chip with registered := value }
  | .retired => { chip with retired := true }

end Chip

-- Evidence that the lock of one chip is held.
structure Guard where
  chip : ChipId
  deriving DecidableEq, Repr

def Guard.owns (guard : Guard) (id : ChipId) : Bool := guard.chip == id

end GpioBridge
