import GpioBridge.Toml.Value

namespace GpioBridge.Toml

-- Every reader takes the characters from where it stands and gives what it read with the rest.
abbrev Chars := List Char

def isBlank (c : Char) : Bool := c == ' ' || c == '\t'

def skipBlanks (cs : Chars) : Chars := cs.dropWhile isBlank

def newline? : Chars → Option Chars
  | '\n' :: rest => some rest
  | '\r' :: '\n' :: rest => some rest
  | _ => none

def isPlain (c : Char) : Bool := c == '\t' || (0x20 ≤ c.toNat && c != '\x7f')

def lineEnd (cs : Chars) : Option Chars :=
  let rest := match skipBlanks cs with
    | '#' :: comment => comment.dropWhile isPlain
    | other => other
  if rest.isEmpty then some [] else newline? rest

-- Skips blanks, comments and ends of lines, from inside a comment or outside. It stops at a
-- character that no comment may have, where nothing else can begin.
def skipFrom : (inComment : Bool) → Chars → Chars
  | _, [] => []
  | _, '\n' :: rest => skipFrom false rest
  | _, '\r' :: '\n' :: rest => skipFrom false rest
  | true, c :: rest => if isPlain c then skipFrom true rest else c :: rest
  | false, c :: rest =>
    if isBlank c then skipFrom false rest
    else if c = '#' then skipFrom true rest
    else c :: rest

def skipSpace (cs : Chars) : Chars := skipFrom false cs

def hexValue? (c : Char) : Option Nat :=
  if '0' ≤ c ∧ c ≤ '9' then some (c.toNat - '0'.toNat)
  else if 'a' ≤ c ∧ c ≤ 'f' then some (c.toNat - 'a'.toNat + 10)
  else if 'A' ≤ c ∧ c ≤ 'F' then some (c.toNat - 'A'.toNat + 10)
  else none

-- The character with this number, unless no character has it.
def character? (n : Nat) : Option Char :=
  if h : n.isValidChar then some (Char.ofNatAux n h) else none

def coded (count : Nat) (cs : Chars) : Option (Char × Chars) := do
  let digits := cs.take count
  if digits.length ≠ count then none
  let values ← digits.mapM hexValue?
  let c ← character? (values.foldl (fun n v => 16 * n + v) 0)
  return (c, cs.drop count)

def escaped : Chars → Option (Char × Chars)
  | 'b' :: rest => some ('\x08', rest)
  | 't' :: rest => some ('\t', rest)
  | 'n' :: rest => some ('\n', rest)
  | 'f' :: rest => some ('\x0c', rest)
  | 'r' :: rest => some ('\r', rest)
  | 'e' :: rest => some ('\x1b', rest)
  | '"' :: rest => some ('"', rest)
  | '\\' :: rest => some ('\\', rest)
  | 'x' :: rest => coded 2 rest
  | 'u' :: rest => coded 4 rest
  | 'U' :: rest => coded 8 rest
  | _ => none

-- The inside of a text in double quotes on one line. `most` bounds the number of characters.
def basicText : (most : Nat) → Chars → (read : Chars) → Option (String × Chars)
  | _, '"' :: rest, read => some (String.ofList read.reverse, rest)
  | most + 1, '\\' :: rest, read => do
    let (c, rest) ← escaped rest
    basicText most rest (c :: read)
  | most + 1, c :: rest, read => if isPlain c then basicText most rest (c :: read) else none
  | _, _, _ => none

def literalText (cs : Chars) : Option (String × Chars) :=
  match cs.dropWhile fun c => isPlain c && c != '\'' with
  | '\'' :: rest => some (String.ofList (cs.takeWhile fun c => isPlain c && c != '\''), rest)
  | _ => none

-- Drops the end of the line that directly follows the opening of a text of many lines.
def dropFirstNewline (cs : Chars) : Chars := (newline? cs).getD cs

-- The close of a text of many lines: three quotes, and up to two more that belong to the text.
def manyLineClose (quote : Char) (cs : Chars) : Option (Chars × Chars) :=
  let run := (cs.takeWhile (· == quote)).length
  if run < 3 then none
  else
    let inside := min (run - 3) 2
    some (List.replicate inside quote, cs.drop (inside + 3))

def skipEmptyLines : (most : Nat) → Chars → Chars
  | 0, cs => skipBlanks cs
  | most + 1, cs =>
    match newline? (skipBlanks cs) with
    | some rest => skipEmptyLines most rest
    | none => skipBlanks cs

def joined (cs : Chars) : Option Chars :=
  (newline? (skipBlanks cs)).map fun rest => skipEmptyLines rest.length rest

-- The inside of a text of many lines, in double quotes if `escapes`, else in single ones.
def manyLineText (quote : Char) (escapes : Bool) :
    (most : Nat) → Chars → (read : Chars) → Option (String × Chars)
  | 0, _, _ => none
  | most + 1, cs, read =>
    match manyLineClose quote cs with
    | some (inside, rest) => some (String.ofList (read.reverse ++ inside), rest)
    | none =>
      match cs with
      | [] => none
      | '\r' :: '\n' :: rest => manyLineText quote escapes most rest ('\n' :: '\r' :: read)
      | c :: rest =>
        if c = '\\' && escapes then
          match joined rest with
          | some rest => manyLineText quote escapes most rest read
          | none => do
            let (c, rest) ← escaped rest
            manyLineText quote escapes most rest (c :: read)
        else if c = '\n' || isPlain c then manyLineText quote escapes most rest (c :: read)
        else none

def quotedText (many : Bool) : Chars → Option (String × Chars)
  | '"' :: '"' :: '"' :: rest =>
    if many then manyLineText '"' true (rest.length + 1) (dropFirstNewline rest) []
    else none
  | '\'' :: '\'' :: '\'' :: rest =>
    if many then manyLineText '\'' false (rest.length + 1) (dropFirstNewline rest) []
    else none
  | '"' :: rest => basicText (rest.length + 1) rest []
  | '\'' :: rest => literalText rest
  | _ => none

def isBareKey (c : Char) : Bool := c.isAlphanum || c == '_' || c == '-'

def simpleKey (cs : Chars) : Option (String × Chars) :=
  match cs.takeWhile isBareKey with
  | [] => quotedText false cs
  | bare => some (String.ofList bare, cs.drop bare.length)

-- A key as its parts; points separate them. `most` bounds their number.
def dottedKey : (most : Nat) → Chars → Option (List String × Chars)
  | 0, _ => none
  | most + 1, cs => do
    let (first, rest) ← simpleKey (skipBlanks cs)
    match skipBlanks rest with
    | '.' :: rest =>
      let (more, rest) ← dottedKey most rest
      return (first :: more, rest)
    | rest => return ([first], rest)

-- How deep a document goes: the most parts of a key, and the most levels of values in values.
def maxDepth : Nat := 80

def key (cs : Chars) : Option (List String × Chars) := dottedKey maxDepth cs

-- Digits without the underscores between them, if these have a digit on both sides.
def digits (isDigit : Char → Bool) : Chars → Option Chars
  | [] => none
  | [c] => if isDigit c then some [c] else none
  | c :: '_' :: rest => if isDigit c then (digits isDigit rest).map (c :: ·) else none
  | c :: rest => if isDigit c then (digits isDigit rest).map (c :: ·) else none

def digitsBelow (base : Nat) (cs : Chars) : Option Chars :=
  digits (fun c => match hexValue? c with
    | some value => value < base
    | none => false) cs

def numeralOf (base : Nat) (cs : Chars) : Nat :=
  cs.foldl (fun n c => base * n + (hexValue? c).getD 0) 0

def decimalDigits (cs : Chars) : Option Chars := do
  let ds ← digitsBelow 10 cs
  if ds.length > 1 && ds.head? == some '0' then none else some ds

def signed : Chars → Bool × Chars
  | '+' :: rest => (false, rest)
  | '-' :: rest => (true, rest)
  | cs => (false, cs)

-- Whether every underscore stands between two digits of whatever base, where so much is known of
-- the character in front.
def areSpaced : (digitInFront : Bool) → Chars → Bool
  | _, [] => true
  | digitInFront, '_' :: rest =>
    digitInFront && (rest.head?.any fun c => (hexValue? c).isSome) && areSpaced false rest
  | _, c :: rest => areSpaced (hexValue? c).isSome rest

-- A character that makes what begins with digits a floating-point number or a time.
def isForeign (c : Char) : Bool := c == '.' || c == 'e' || c == 'E' || c == ' '

-- A decimal integer. Its outline is digits, and then nothing or anything that begins with an
-- underscore and has digits around underscores.
def decimal? (cs : Chars) : Option Value :=
  let (negative, rest) := signed cs
  let first := rest.takeWhile Char.isDigit
  let more := rest.drop first.length
  let isOutline := more.isEmpty ||
    more.head? == some '_' && !more.any isForeign && areSpaced true more
  if first.isEmpty || !isOutline || (1 < rest.length && rest.head? == some '0') then none
  else
    let ds := rest.filter (· != '_')
    let n : Int := numeralOf 10 ds
    if ds.all Char.isDigit then some (.integer (if negative then -n else n)) else some .misspelt

-- An integer after the mark of its base; the mark alone has the outline of one.
def basedInteger? (base : Nat) (cs : Chars) : Option Value :=
  if cs.isEmpty then some .misspelt
  else (digitsBelow base cs).map fun ds => .integer (numeralOf base ds)

def integer? : Chars → Option Value
  | '0' :: 'x' :: rest => basedInteger? 16 rest
  | '0' :: 'o' :: rest => basedInteger? 8 rest
  | '0' :: 'b' :: rest => basedInteger? 2 rest
  | cs => decimal? cs

-- Whether digits with a power of ten stay below the numbers that round to infinity in double
-- precision.
def isFinite (digits : Chars) (exponent : Int) : Bool :=
  let digits := digits.dropWhile (· == '0')
  let magnitude := digits.length + exponent
  if digits.isEmpty || magnitude < 300 then true
  else if 320 < magnitude then false
  else
    let n := numeralOf 10 digits
    let bound := Nat.pow 2 1024 - Nat.pow 2 970
    if 0 ≤ exponent then n * Nat.pow 10 exponent.toNat < bound
    else n < bound * Nat.pow 10 (-exponent).toNat

def exponent? (cs : Chars) : Option Int := do
  let (negative, rest) := signed cs
  let n : Int := numeralOf 10 (← digitsBelow 10 rest)
  return if negative then -n else n

def float? (cs : Chars) : Option Bool := do
  let (_, cs) := signed cs
  if cs = ['i', 'n', 'f'] || cs = ['n', 'a', 'n'] then return true
  let isMark := fun c => c == 'e' || c == 'E'
  let mantissa := cs.takeWhile fun c => !isMark c
  let power := cs.drop mantissa.length
  let whole := mantissa.takeWhile (· != '.')
  let point := mantissa.drop whole.length
  if power.isEmpty && point.isEmpty then none
  let whole ← decimalDigits whole
  let fraction ← if point.isEmpty then some [] else digitsBelow 10 (point.drop 1)
  let exponent ← if power.isEmpty then some 0 else exponent? (power.drop 1)
  return isFinite (whole ++ fraction) (exponent - fraction.length)

def fixedDigits (count : Nat) (cs : Chars) : Option (Nat × Chars) :=
  let ds := cs.take count
  if ds.length = count ∧ ds.all Char.isDigit then some (numeralOf 10 ds, cs.drop count) else none

def isLeapYear (year : Nat) : Bool :=
  year % 4 == 0 && (year % 100 != 0 || year % 400 == 0)

def daysIn (year month : Nat) : Nat :=
  if month = 2 then if isLeapYear year then 29 else 28
  else if month = 4 ∨ month = 6 ∨ month = 9 ∨ month = 11 then 30
  else 31

def date? (cs : Chars) : Option Chars := do
  let (year, cs) ← fixedDigits 4 cs
  let '-' :: cs := cs | none
  let (month, cs) ← fixedDigits 2 cs
  let '-' :: cs := cs | none
  let (day, cs) ← fixedDigits 2 cs
  if 1 ≤ month ∧ month ≤ 12 ∧ 1 ≤ day ∧ day ≤ daysIn year month then some cs else none

def fraction? : Chars → Option Chars
  | '.' :: rest =>
    match rest.takeWhile Char.isDigit with
    | [] => none
    | ds => some (rest.drop ds.length)
  | cs => some cs

def timeOfDay? (cs : Chars) : Option Chars := do
  let (hour, cs) ← fixedDigits 2 cs
  let ':' :: cs := cs | none
  let (minute, cs) ← fixedDigits 2 cs
  if 23 < hour ∨ 59 < minute then none
  match cs with
  | ':' :: cs =>
    let (second, cs) ← fixedDigits 2 cs
    if 60 < second then none
    fraction? cs
  | _ => return cs

def offset? : Chars → Option Chars
  | 'Z' :: cs | 'z' :: cs => some cs
  | sign :: cs =>
    if sign = '+' ∨ sign = '-' then do
      let (hour, cs) ← fixedDigits 2 cs
      let ':' :: cs := cs | none
      let (minute, cs) ← fixedDigits 2 cs
      if 23 < hour ∨ 59 < minute then none else some cs
    else some (sign :: cs)
  | [] => some []

def isTime (cs : Chars) : Bool :=
  match date? cs with
  | some [] => true
  | some (separator :: rest) =>
    (separator == 'T' || separator == 't' || separator == ' ') &&
      ((timeOfDay? rest).bind offset?) == some []
  | none => timeOfDay? cs == some []

def isScalarChar (c : Char) : Bool :=
  let marks := ['=', ',', '[', ']', '\x7b', '\x7d', ' ', '\t', '#', '\r', '\n']
  !marks.contains c

def goesOn (cs : Chars) : Bool :=
  (skipBlanks cs).head?.any fun c => isScalarChar c && c != '"' && c != '\''

-- The characters of a value without quotes. Blanks belong to it where it goes on after them; so a
-- time of day belongs to the date before it.
def scalarChars : Chars → Chars
  | [] => []
  | c :: rest =>
    if isScalarChar c || (isBlank c && goesOn rest) then c :: scalarChars rest else []

def scalar (cs : Chars) : Option (Value × Chars) :=
  let word := scalarChars cs
  let value :=
    if word = ['t', 'r', 'u', 'e'] then some (.boolean true)
    else if word = ['f', 'a', 'l', 's', 'e'] then some (.boolean false)
    else (integer? word).or <|
      ((float? word).map Value.float).or <|
        if isTime word then some .time else none
  value.map fun value => (value, cs.drop word.length)

end GpioBridge.Toml
