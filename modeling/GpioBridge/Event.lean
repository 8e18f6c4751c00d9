namespace GpioBridge

inductive Severity where
  | trace
  | debug
  | info
  | warn
  | error
  deriving DecidableEq, Repr

namespace Severity

def text : Severity → String
  | trace => "TRACE"
  | debug => "DEBUG"
  | info => "INFO"
  | warn => "WARN"
  | error => "ERROR"

-- The rank of a severity, the gravest last.
def rank : Severity → Nat
  | trace => 0
  | debug => 1
  | info => 2
  | warn => 3
  | error => 4

end Severity

inductive Area where
  | program
  | requests
  | operations
  | lifecycle
  | lineTable
  | service
  | report
  | simulation
  | loopback
  | datagram
  deriving DecidableEq, Repr

def Area.target : Area → String
  | program => "vgpio_core"
  | requests => "vgpio_core::engine"
  | operations => "vgpio_core::ops"
  | lifecycle => "vgpio_core::lifecycle"
  | lineTable => "vgpio_core::framework"
  | service => "vgpio_core::service"
  | report => "vgpio_core::status"
  | simulation => "vgpio_core::sim"
  | loopback => "vgpio_core::transport::loopback"
  | datagram => "vgpio_core::transport::udp"

structure Event where
  severity : Severity
  area : Area
  text : String
  fields : List (String × String) := []
  deriving DecidableEq, Repr

def Event.line (event : Event) : String :=
  event.fields.foldl (fun line (name, value) => line ++ s!" {name}={value}") event.text

-- A character as it may be sent to a terminal: one that can be part of a control sequence is
-- spelled out.
def terminalForm (c : Char) : String :=
  let digits := String.ofList (Nat.toDigits 16 c.toNat)
  if c = '\x1b' ∨ c = '\x7f' then "\\x" ++ digits
  else if c = '\x07' ∨ c = '\x08' ∨ c = '\x0c' then "\\x0" ++ digits
  else if 0x80 ≤ c.toNat ∧ c.toNat ≤ 0x9f then "\\u\x7b" ++ digits ++ "\x7d"
  else c.toString

def Event.terminalLine (event : Event) : String :=
  { event with text := String.join (event.text.toList.map terminalForm) }.line

end GpioBridge
