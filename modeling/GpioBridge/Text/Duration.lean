namespace GpioBridge.Duration

def trimZeros (digits : List Char) : List Char :=
  (digits.reverse.dropWhile (· == '0')).reverse

def thousandths (n : Nat) : List Char :=
  [Nat.digitChar (n / 100 % 10), Nat.digitChar (n / 10 % 10), Nat.digitChar (n % 10)]

-- A second or more is told in seconds with the shortest fraction, less than a second in
-- milliseconds, and no time at all in the smallest unit.
def text (milliseconds : UInt64) : String :=
  let n := milliseconds.toNat
  if n = 0 then "0ns"
  else if n < 1000 then s!"{n}ms"
  else
    match trimZeros (thousandths (n % 1000)) with
    | [] => s!"{n / 1000}s"
    | fraction => s!"{n / 1000}." ++ String.ofList fraction ++ "s"

end GpioBridge.Duration
