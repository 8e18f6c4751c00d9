namespace GpioBridge

inductive JsonValue where
  | text (s : String)
  | number (n : Nat)
  | truth (b : Bool)
  | list (items : List JsonValue)
  | record (fields : List (String × JsonValue))

namespace JsonValue

def controlEscape (c : Char) : String :=
  "\\u00" ++ String.ofList [Nat.digitChar (c.toNat / 16), Nat.digitChar (c.toNat % 16)]

-- A character as it stands in a quoted text: the quote, the backslash and what is below the blank
-- are escaped, by a letter where there is one.
def escape (c : Char) : String :=
  if c = '"' then "\\\""
  else if c = '\\' then "\\\\"
  else if c = '\n' then "\\n"
  else if c = '\r' then "\\r"
  else if c = '\t' then "\\t"
  else if c = '\x08' then "\\b"
  else if c = '\x0c' then "\\f"
  else if c.toNat < 0x20 then controlEscape c
  else c.toString

def quoted (s : String) : String := "\"" ++ String.join (s.toList.map escape) ++ "\""

def indentation (level : Nat) : String := String.ofList (List.replicate (2 * level) ' ')

mutual

def render (level : Nat) : JsonValue → String
  | text s => quoted s
  | number n => toString n
  | truth b => if b then "true" else "false"
  | list [] => "[]"
  | list (item :: rest) =>
    "[\n" ++ renderItems (level + 1) (item :: rest) ++ "\n" ++ indentation level ++ "]"
  | record [] => "\x7b\x7d"
  | record (field :: rest) =>
    "\x7b\n" ++ renderFields (level + 1) (field :: rest) ++ "\n" ++ indentation level ++ "\x7d"

def renderItems (level : Nat) : List JsonValue → String
  | [] => ""
  | [item] => indentation level ++ render level item
  | item :: rest => indentation level ++ render level item ++ ",\n" ++ renderItems level rest

def renderFields (level : Nat) : List (String × JsonValue) → String
  | [] => ""
  | [(name, value)] => indentation level ++ quoted name ++ ": " ++ render level value
  | (name, value) :: rest =>
    indentation level ++ quoted name ++ ": " ++ render level value ++ ",\n" ++
      renderFields level rest

end

-- One value to a line, indented by two blanks for each level.
def document (value : JsonValue) : String := render 0 value

end JsonValue

end GpioBridge
