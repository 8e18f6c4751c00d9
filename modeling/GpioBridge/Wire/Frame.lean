import GpioBridge.Fault
import GpioBridge.Wire.Utf8

namespace GpioBridge.Frame

def version : UInt8 := 1

def maxLength : Nat := 64 * 1024

def littleEndian : (width : Nat) → Nat → List UInt8
  | 0, _ => []
  | width + 1, n => UInt8.ofNat n :: littleEndian width (n / 256)

def ofLittleEndian : List UInt8 → Nat
  | [] => 0
  | byte :: rest => byte.toNat + 256 * ofLittleEndian rest

def word32 (word : UInt32) : List UInt8 := littleEndian 4 word.toNat

def word64 (word : UInt64) : List UInt8 := littleEndian 8 word.toNat

def text (s : String) : List UInt8 := littleEndian 8 s.utf8ByteSize ++ Utf8.bytes s

def texts (list : List String) : List UInt8 :=
  littleEndian 8 list.length ++ list.flatMap text

def optional : Option UInt32 → List UInt8
  | none => [0]
  | some word => 1 :: word32 word

def apiVersion (v : ApiVersion) : List UInt8 := [v.major, v.minor, v.patch]

def variant : Message → UInt32
  | .init .. => 0
  | .initAck .. => 1
  | .deinit .. => 2
  | .deinitAck .. => 3
  | .getValue .. => 4
  | .getValueReply .. => 5
  | .setValue .. => 6
  | .setValueReply .. => 7
  | .setConfig .. => 8
  | .setConfigReply .. => 9
  | .setDirection .. => 10
  | .setDirectionReply .. => 11
  | .exit .. => 12

def variantCount : Nat := 13

def fields : Message → List UInt8
  | .init uid lineCount label names => word64 uid ++ word32 lineCount ++ text label ++ texts names
  | .initAck uid status => word64 uid ++ word32 status
  | .deinit uid => word64 uid
  | .deinitAck uid status version => word64 uid ++ word32 status ++ apiVersion version
  | .getValue uid pin => word64 uid ++ word32 pin
  | .getValueReply uid pin status value =>
    word64 uid ++ word32 pin ++ word32 status ++ optional value
  | .setValue uid pin word
  | .setValueReply uid pin word
  | .setConfig uid pin word
  | .setConfigReply uid pin word
  | .setDirection uid pin word
  | .setDirectionReply uid pin word => word64 uid ++ word32 pin ++ word32 word
  | .exit uid message => word64 uid ++ text message

def textSize (s : String) : Nat := 8 + s.utf8ByteSize

-- How many bytes the frame of a message takes: the version and the kind, eight bytes for a uid,
-- four for a word, and the contents of texts and lists after their length words.
def size : Message → Nat
  | .init _ _ label names => 5 + 8 + 4 + textSize label + 8 + names.foldr (textSize · + ·) 0
  | .initAck _ _ => 5 + 8 + 4
  | .deinit _ => 5 + 8
  | .deinitAck _ _ _ => 5 + 8 + 4 + 3
  | .getValue _ _ => 5 + 8 + 4
  | .getValueReply _ _ _ none => 5 + 8 + 4 + 4 + 1
  | .getValueReply _ _ _ (some _) => 5 + 8 + 4 + 4 + 1 + 4
  | .setValue _ _ _
  | .setValueReply _ _ _
  | .setConfig _ _ _
  | .setConfigReply _ _ _
  | .setDirection _ _ _
  | .setDirectionReply _ _ _ => 5 + 8 + 4 + 4
  | .exit _ message => 5 + 8 + textSize message

-- A frame but for its version: the number of the kind and then the fields in order, words in
-- little-endian and texts and lists after their lengths.
def body (m : Message) : List UInt8 := word32 (variant m) ++ fields m

-- Writes a frame; a message whose frame would be too long is refused.
def encode (m : Message) : Except FrameFault (List UInt8) :=
  if size m ≤ maxLength then .ok (version :: body m)
  else .error (.unwritable "the size limit has been reached")

inductive Flaw where
  | shortWord
  | shortText
  | notText (flaw : Utf8.Flaw)
  | unknownVariant (number : UInt32)
  | unknownTag (tag : UInt8)
  | trailing
  deriving DecidableEq, Repr

def Flaw.message : Flaw → String
  | shortWord => "io error: unexpected end of file"
  | shortText => "io error: "
  | notText flaw => s!"string is not valid utf8: {flaw.message}"
  | unknownVariant number =>
    s!"invalid value: integer `{number}`, expected variant index 0 <= i < {variantCount}"
  | unknownTag tag => s!"tag for enum is not valid, found {tag}"
  | trailing => "Slice had bytes remaining after deserialization"

abbrev Reader := StateT (List UInt8) (Except Flaw)

namespace Reader

def take (n : Nat) (flaw : Flaw) : Reader (List UInt8) := fun bytes =>
  let front := bytes.take n
  if front.length = n then .ok (front, bytes.drop n) else .error flaw

def number (width : Nat) : Reader Nat := do
  return ofLittleEndian (← take width .shortWord)

def byte : Reader UInt8 := do return UInt8.ofNat (← number 1)

def word32 : Reader UInt32 := do return UInt32.ofNat (← number 4)

def word64 : Reader UInt64 := do return UInt64.ofNat (← number 8)

def text : Reader String := do
  let length ← number 8
  let contents ← take length .shortText
  match Utf8.text contents with
  | .ok s => return s
  | .error flaw => throw (.notText flaw)

def textList : Nat → Reader (List String)
  | 0 => return []
  | count + 1 => do
    let first ← text
    return first :: (← textList count)

def texts : Reader (List String) := do textList (← number 8)

def optional : Reader (Option UInt32) := do
  let tag ← byte
  if tag = 0 then return none
  else if tag = 1 then return some (← word32)
  else throw (.unknownTag tag)

def apiVersion : Reader ApiVersion := do return ⟨← byte, ← byte, ← byte⟩

def fields (number : UInt32) : Reader Message :=
  match number.toNat with
  | 0 => do return .init (← word64) (← word32) (← text) (← texts)
  | 1 => do return .initAck (← word64) (← word32)
  | 2 => do return .deinit (← word64)
  | 3 => do return .deinitAck (← word64) (← word32) (← apiVersion)
  | 4 => do return .getValue (← word64) (← word32)
  | 5 => do return .getValueReply (← word64) (← word32) (← word32) (← optional)
  | 6 => do return .setValue (← word64) (← word32) (← word32)
  | 7 => do return .setValueReply (← word64) (← word32) (← word32)
  | 8 => do return .setConfig (← word64) (← word32) (← word32)
  | 9 => do return .setConfigReply (← word64) (← word32) (← word32)
  | 10 => do return .setDirection (← word64) (← word32) (← word32)
  | 11 => do return .setDirectionReply (← word64) (← word32) (← word32)
  | 12 => do return .exit (← word64) (← text)
  | _ => throw (.unknownVariant number)

def message : Reader Message := do fields (← word32)

def frame : Reader (UInt8 × Message) := do return (← byte, ← message)

end Reader

-- Reads a frame that is all of the bytes. The version is looked at last, so a frame of another
-- version that makes no sense here is reported as unreadable.
def decode (bytes : List UInt8) : Except FrameFault Message :=
  match Reader.frame.run bytes with
  | .error flaw => .error (.unreadable flaw.message)
  | .ok (_, _ :: _) => .error (.unreadable Flaw.trailing.message)
  | .ok ((found, m), []) => if found = version then .ok m else .error (.version version found)

end GpioBridge.Frame
