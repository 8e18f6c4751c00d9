import GpioBridge.Proofs.LineTable.Operation
import GpioBridge.UidMap
import Mathlib.Logic.Function.Basic

namespace GpioBridge

structure Offer (ω : Type) where
  descriptor : Descriptor
  ops : ω
  holder : UInt32 → Option String

namespace Offer

variable {ω : Type}

def vacant (descriptor : Descriptor) (ops : ω) : Offer ω := ⟨descriptor, ops, fun _ => none⟩

def setHolder (pin : UInt32) (holder : Option String) (offer : Offer ω) : Offer ω :=
  { offer with holder := Function.update offer.holder pin holder }

end Offer

structure Board (ω : Type) where
  offers : UidMap (Offer ω) := ∅
  uidOf : Handle → Option UInt64 := fun _ => none
  issued : Nat := 0

namespace LineTable

-- What a table is used for: its operations, and the questions it answers at once.
inductive Use (ω : Type) where
  | call (operation : Operation ω)
  | isHeld (handle : Handle) (pin : UInt32)
  | holder (uid : UInt64) (pin : UInt32)
  | ops (uid : UInt64)
  | descriptors

inductive Response (ω : Type) where
  | outcome (outcome : Outcome ω)
  | isHeld (held : Bool)
  | holder (holder : Option String)
  | ops (ops : Option ω)
  | descriptors (descriptors : List Descriptor)

def Use.isExposure {ω : Type} : Use ω → Bool
  | .call (.expose _ _) => true
  | _ => false

section Perform

variable {ω τ : Type} (free : FreeDemand ω → τ → Except Fault Unit × τ)

-- Surroundings in which freeing a line ends somehow and leaves the table alone.
def freeing : Process.Surroundings (LineTable ω) τ (FreeDemand ω) fun _ => Except Fault Unit where
  answer demand table t := ((free demand t).1, table, (free demand t).2)
  hear _ t := t

def Use.perform : Use ω → LineTable ω → τ → Response ω × LineTable ω × τ
  | .call operation, table, t =>
    let (outcome, table, t) := operation.process.run (freeing free) table t
    (.outcome outcome, table, t)
  | .isHeld handle pin, table, t => (.isHeld (table.isHeld handle pin), table, t)
  | .holder uid pin, table, t => (.holder (table.holder? uid pin), table, t)
  | .ops uid, table, t => (.ops (table.ops? uid), table, t)
  | .descriptors, table, t => (.descriptors table.descriptors, table, t)

end Perform

end LineTable

namespace Board

variable {ω τ : Type}

def holder? (board : Board ω) (uid : UInt64) (pin : UInt32) : Option String :=
  (board.offers.get? uid).bind fun offer => offer.holder pin

def isHeld (board : Board ω) (handle : Handle) (pin : UInt32) : Bool :=
  match board.uidOf handle with
  | none => false
  | some uid => (board.holder? uid pin).isSome

def post (uid : UInt64) (offer : Offer ω) (board : Board ω) : Board ω :=
  { board with offers := board.offers.insert uid offer }

def add (descriptor : Descriptor) (ops : ω) (board : Board ω) : Except Fault Handle × Board ω :=
  match board.offers.get? descriptor.uid with
  | some _ => (.error (.framework s!"chip uid {descriptor.uid} already exposed"), board)
  | none =>
    let handle := Handle.mk (UInt64.ofNat board.issued)
    (.ok handle,
      { offers := board.offers.insert descriptor.uid (.vacant descriptor ops)
        uidOf := Function.update board.uidOf handle (some descriptor.uid)
        issued := board.issued + 1 })

def remove (handle : Handle) (board : Board ω) : Board ω :=
  match board.uidOf handle with
  | none => board
  | some uid =>
    { board with
      offers := board.offers.erase uid
      uidOf := Function.update board.uidOf handle none }

def request (uid : UInt64) (pin : UInt32) (consumer : String) (board : Board ω) :
    Except Fault ω × Board ω :=
  match board.offers.get? uid with
  | none => (.error (.framework s!"no chip with uid {uid}"), board)
  | some offer =>
    if offer.descriptor.names.length ≤ pin.toNat then
      (.error (.noSuchLine pin offer.descriptor.lineCount), board)
    else
      match offer.holder pin with
      | some _ => (.error .busy, board)
      | none => (.ok offer.ops, board.post uid (offer.setHolder pin (some consumer)))

-- Releasing a held line frees it once; nobody holds it afterwards, however freeing ends.
def release (free : FreeDemand ω → τ → Except Fault Unit × τ) (uid : UInt64) (pin : UInt32)
    (board : Board ω) (t : τ) : Except Fault Unit × Board ω × τ :=
  match board.offers.get? uid with
  | none => (.error (.framework s!"no chip with uid {uid}"), board, t)
  | some offer =>
    match offer.holder pin with
    | none => (.error (.framework s!"line {uid}:{pin} is not held"), board, t)
    | some _ => (.ok (), board.post uid (offer.setHolder pin none), (free ⟨offer.ops, pin⟩ t).2)

def descriptors (board : Board ω) : List Descriptor := board.offers.values.map (·.descriptor)

open LineTable

variable (free : FreeDemand ω → τ → Except Fault Unit × τ)

def perform : Use ω → Board ω → τ → Response ω × Board ω × τ
  | .call (.expose descriptor ops), board, t =>
    (.outcome (.exposed (board.add descriptor ops).1), (board.add descriptor ops).2, t)
  | .call (.conceal handle), board, t => (.outcome .concealed, board.remove handle, t)
  | .call (.request uid pin consumer), board, t =>
    (.outcome (.requested (board.request uid pin consumer).1),
      (board.request uid pin consumer).2, t)
  | .call (.release uid pin), board, t =>
    let (result, board, t) := board.release free uid pin t
    (.outcome (.released result), board, t)
  | .isHeld handle pin, board, t => (.isHeld (board.isHeld handle pin), board, t)
  | .holder uid pin, board, t => (.holder (board.holder? uid pin), board, t)
  | .ops uid, board, t => (.ops ((board.offers.get? uid).map (·.ops)), board, t)
  | .descriptors, board, t => (.descriptors board.descriptors, board, t)

def performAll : List (Use ω) → Board ω → τ → List (Response ω) × Board ω × τ
  | [], board, t => ([], board, t)
  | use :: uses, board, t =>
    let (response, board, t) := perform free use board t
    let (responses, board, t) := performAll uses board t
    (response :: responses, board, t)

theorem performAll_append (first second : List (Use ω)) (board : Board ω) (t : τ) :
    performAll free (first ++ second) board t =
      ((performAll free first board t).1 ++
          (performAll free second (performAll free first board t).2.1
            (performAll free first board t).2.2).1,
        (performAll free second (performAll free first board t).2.1
            (performAll free first board t).2.2).2) := by
  induction first generalizing board t with
  | nil => rfl
  | cons use uses ih => simp only [List.cons_append, performAll, ih]

end Board

end GpioBridge
