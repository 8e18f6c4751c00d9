namespace GpioBridge.Toml

-- An integer is known by its outline before anyone asks for its number, so a document may hold one
-- that spells no number where nobody looks.
inductive Value where
  | text (s : String)
  | integer (n : Int)
  -- What has the outline of an integer and spells none.
  | misspelt
  -- A floating-point number, and whether it is one that can be held.
  | float (holds : Bool)
  | boolean (b : Bool)
  | time
  | array (items : List Value)
  | table (entries : List (String × Value))
  deriving Repr, Inhabited

namespace Value

mutual

-- Whether a value can be passed over: what spells no number cannot, nor can a number that no
-- machine word can hold.
def passable : Value → Bool
  | text _ | boolean _ | time => true
  | misspelt => false
  | integer n => -(2 ^ 127) ≤ n && n < 2 ^ 128
  | float holds => holds
  | array items => allPassable items
  | table entries => entriesPassable entries

def allPassable : List Value → Bool
  | [] => true
  | item :: rest => passable item && allPassable rest

def entriesPassable : List (String × Value) → Bool
  | [] => true
  | (_, value) :: rest => passable value && entriesPassable rest

end

end Value

end GpioBridge.Toml
