namespace GpioBridge.Utf8

inductive Flaw where
  -- The sequence at `index` is broken after `length` bytes.
  | invalid (length index : Nat)
  | incomplete (index : Nat)
  deriving DecidableEq, Repr

def Flaw.message : Flaw → String
  | invalid length index => s!"invalid utf-8 sequence of {length} bytes from index {index}"
  | incomplete index => s!"incomplete utf-8 byte sequence from index {index}"

-- How many bytes a sequence has, from its first byte; zero for a byte that starts none.
def width (first : UInt8) : Nat :=
  if first < 0x80 then 1
  else if first < 0xC2 then 0
  else if first < 0xE0 then 2
  else if first < 0xF0 then 3
  else if first < 0xF5 then 4
  else 0

def isContinuation (byte : UInt8) : Bool := 0x80 ≤ byte && byte < 0xC0

-- The second byte of a longer sequence may not spell a short form, a surrogate, or a number above
-- the last code point.
def isSecond (first second : UInt8) : Bool :=
  isContinuation second &&
    (first != 0xE0 || 0xA0 ≤ second) && (first != 0xED || second < 0xA0) &&
    (first != 0xF0 || 0x90 ≤ second) && (first != 0xF4 || second < 0x90)

def flawFrom (index : Nat) : List UInt8 → Flaw
  | [] => .incomplete index
  | first :: rest =>
    match width first with
    | 1 => flawFrom (index + 1) rest
    | 2 =>
      match rest with
      | [] => .incomplete index
      | b :: rest => if isSecond first b then flawFrom (index + 2) rest else .invalid 1 index
    | 3 =>
      match rest with
      | [] => .incomplete index
      | b :: rest =>
        if isSecond first b then
          match rest with
          | [] => .incomplete index
          | c :: rest => if isContinuation c then flawFrom (index + 3) rest else .invalid 2 index
        else .invalid 1 index
    | 4 =>
      match rest with
      | [] => .incomplete index
      | b :: rest =>
        if isSecond first b then
          match rest with
          | [] => .incomplete index
          | c :: rest =>
            if isContinuation c then
              match rest with
              | [] => .incomplete index
              | d :: rest =>
                if isContinuation d then flawFrom (index + 4) rest else .invalid 3 index
            else .invalid 2 index
        else .invalid 1 index
    | _ => .invalid 1 index

def bytes (text : String) : List UInt8 := text.toUTF8.data.toList

-- The text that the bytes spell, or the first flaw in them.
def text (bytes : List UInt8) : Except Flaw String :=
  match String.fromUTF8? ⟨bytes.toArray⟩ with
  | some text => .ok text
  | none => .error (flawFrom 0 bytes)

theorem text_bytes (s : String) : text (bytes s) = .ok s := by
  simp [text, bytes, String.fromUTF8?, String.toUTF8, s.isValidUTF8, String.fromUTF8]

theorem bytes_of_text {b : List UInt8} {s : String} (h : text b = .ok s) : bytes s = b := by
  unfold text String.fromUTF8? at h
  split at h
  · rename_i t ht
    split at ht
    · cases ht
      cases h
      simp [bytes, String.toUTF8, String.fromUTF8]
    · cases ht
  · cases h

end GpioBridge.Utf8
