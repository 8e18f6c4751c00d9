import GpioBridge.Wire.Code

namespace GpioBridge

structure Outcome where
  status : Status
  level : Option Bool
  deriving DecidableEq, Repr

-- The cell a caller waits on. A reply that comes after its caller gave up stays counted, and the
-- next caller on the line takes it.
structure ReplyCell where
  pending : UInt32 := 0
  status : Status := .unknown
  level : Option Bool := none
  deriving DecidableEq, Repr, Inhabited

namespace ReplyCell

-- Stores a reply and adds a signal, up to the largest count there is. A level is stored only with a
-- successful reply.
def post (cell : ReplyCell) (status : Status) (level : Option Bool) : ReplyCell where
  pending := if cell.pending = 0xFFFFFFFF then cell.pending else cell.pending + 1
  status := status
  level := if status.isOk then level else cell.level

def take? (cell : ReplyCell) : Option (Outcome × ReplyCell) :=
  if cell.pending = 0 then none
  else some (⟨cell.status, cell.level⟩, { cell with pending := cell.pending - 1 })

end ReplyCell

end GpioBridge
