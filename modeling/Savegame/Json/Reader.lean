import Savegame.Json.Printer

/-!
# Reading JSON

A reader for one value with blanks around it and nothing else. It works on bytes: outside of
strings only ASCII may stand, and inside of them bytes are taken over as they are. An escape for
half of a surrogate pair gives bytes that are no text.
-/

namespace Savegame.Json.Reader

def isBlank (b : UInt8) : Bool :=
  b = 0x20 || b = 0x09 || b = 0x0A || b = 0x0D

def skipBlanks (bytes : Bytes) : Bytes :=
  bytes.dropWhile isBlank

def isDigit (b : UInt8) : Bool :=
  0x30 ≤ b && b ≤ 0x39

def hexDigit? (b : UInt8) : Option Nat :=
  (Numeral.digitValue (Char.ofNat b.toNat))

def codeUnit? (a b c d : UInt8) : Option Nat := do
  return ((← hexDigit? a) * 16 + (← hexDigit? b)) * 256 + (← hexDigit? c) * 16 + (← hexDigit? d)

/-- The bytes of a code unit: of the character it is, or of the half of a pair that it stays. -/
def ofCodeUnit (n : Nat) : Bytes :=
  if 0xD800 ≤ n ∧ n ≤ 0xDFFF then
    [UInt8.ofNat (0xE0 + n / 4096), UInt8.ofNat (0x80 + n / 64 % 64), UInt8.ofNat (0x80 + n % 64)]
  else String.utf8EncodeChar (Char.ofNat n)

/-- The character that a surrogate pair denotes, if the two code units are one. -/
def pair? (high low : Nat) : Option Char :=
  if 0xD800 ≤ high ∧ high ≤ 0xDBFF ∧ 0xDC00 ≤ low ∧ low ≤ 0xDFFF then
    some (Char.ofNat (0x10000 + (high - 0xD800) * 1024 + (low - 0xDC00)))
  else none

/-- The byte that a short escape stands for, by the letter after the backslash. -/
def unescape? (letter : UInt8) : Option UInt8 :=
  if letter = 0x2F then some 0x2F
  else (shortEscapes.find? (·.2 = letter)).map (·.1)

def unit? : Bytes → Option Nat
  | a :: b :: c :: d :: _ => codeUnit? a b c d
  | _ => none

def escapedUnit? : Bytes → Option Nat
  | slash :: letter :: rest => if slash = 0x5C ∧ letter = 0x75 then unit? rest else none
  | _ => none

/-- What a code unit denotes in front of a byte string: with the unit escaped there, where the two
are a pair, or alone. -/
def afterUnit (high : Nat) (rest : Bytes) : Bytes × Bytes :=
  match (escapedUnit? rest).bind (pair? high) with
  | some c => (String.utf8EncodeChar c, rest.drop 6)
  | none => (ofCodeUnit high, rest)

/-- What the escape after a backslash denotes, with the bytes after it. -/
def escaped : Bytes → Option (Bytes × Bytes)
  | [] => none
  | letter :: rest =>
    if letter = 0x75 then (unit? rest).map fun high => afterUnit high (rest.drop 4)
    else (unescape? letter).map fun c => ([c], rest)

theorem length_afterUnit_le (high : Nat) (rest : Bytes) :
    (afterUnit high rest).2.length ≤ rest.length := by
  unfold afterUnit
  split <;> simp

theorem length_lt_of_escaped {bytes denoted rest : Bytes}
    (h : escaped bytes = some (denoted, rest)) : rest.length < bytes.length := by
  cases bytes with
  | nil => simp [escaped] at h
  | cons letter bytes =>
    simp only [escaped] at h
    split at h <;> obtain ⟨unit, -, h⟩ := Option.map_eq_some_iff.1 h
    · have hrest := length_afterUnit_le unit (bytes.drop 4)
      simp only [h, List.length_drop] at hrest
      simp only [List.length_cons]
      omega
    · injection h with _ h
      simp [← h]

/-- Reads a string after its opening quote; `done` holds what it denotes so far, reversed. -/
def string (done : Bytes) : Bytes → Option (Bytes × Bytes)
  | [] => none
  | b :: rest =>
    if b = 0x22 then some (done.reverse, rest)
    else if b < 0x20 then none
    else if b ≠ 0x5C then string (b :: done) rest
    else
      match _h : escaped rest with
      | some (denoted, after) => string (denoted.reverse ++ done) after
      | none => none
termination_by bytes => bytes.length
decreasing_by
  · simp
  · have := length_lt_of_escaped _h
    simp only [List.length_cons]
    omega

def digits (bytes : Bytes) : Option (Bytes × Bytes) :=
  match bytes.takeWhile isDigit with
  | [] => none
  | run => some (run, bytes.dropWhile isDigit)

/-- The digits before the point: a zero stands alone. -/
def whole (bytes : Bytes) : Option (Bytes × Bytes) := do
  let (run, rest) ← digits bytes
  if run.head? = some 0x30 ∧ run.length ≠ 1 then none else some (run, rest)

def fraction : Bytes → Option (Bytes × Bytes)
  | 0x2E :: rest => (digits rest).map fun r => (0x2E :: r.1, r.2)
  | bytes => some ([], bytes)

def exponent : Bytes → Option (Bytes × Bytes)
  | b :: rest =>
    if b = 0x65 ∨ b = 0x45 then
      match rest with
      | s :: after =>
        if s = 0x2B ∨ s = 0x2D then (digits after).map fun r => (b :: s :: r.1, r.2)
        else (digits rest).map fun r => (b :: r.1, r.2)
      | [] => none
    else some ([], b :: rest)
  | [] => some ([], [])

def ofDigits (run : Bytes) : Nat :=
  run.foldl (fun n b => n * 10 + (b.toNat - 0x30)) 0

/-- Reads a number. What has a fraction, an exponent or is written as minus zero is no integer. -/
def number (bytes : Bytes) : Option (Json × Bytes) := do
  let (sign, rest) : Bytes × Bytes := match bytes with
    | 0x2D :: rest => ([0x2D], rest)
    | _ => ([], bytes)
  let (run, rest) ← whole rest
  let (places, rest) ← fraction rest
  let (power, rest) ← exponent rest
  let n := ofDigits run
  if places = [] ∧ power = [] ∧ ¬(sign ≠ [] ∧ n = 0) then
    return (.integer (if sign = [] then n else -n), rest)
  else
    let text := (sign ++ run ++ places ++ power).map fun b => Char.ofNat b.toNat
    return (.decimal (String.ofList text), rest)

/-- The bytes after a word, where they start with it. -/
def word (text : String) (bytes : Bytes) : Option Bytes :=
  let expected := Utf8.encode text
  if bytes.take expected.length = expected then some (bytes.drop expected.length) else none

mutual

/-- Reads a value; `fuel` bounds the number of values and marks still to come. -/
def value : (fuel : Nat) → Bytes → Option (Json × Bytes)
  | 0, _ => none
  | fuel + 1, bytes =>
    match skipBlanks bytes with
    | [] => none
    | b :: rest =>
      if b = 0x7B then
        match skipBlanks rest with
        | 0x7D :: rest => some (.object [], rest)
        | rest => (members fuel rest).map fun r => (.object r.1, r.2)
      else if b = 0x5B then
        match skipBlanks rest with
        | 0x5D :: rest => some (.array [], rest)
        | rest => (items fuel rest).map fun r => (.array r.1, r.2)
      else if b = 0x22 then (string [] rest).map fun r => (.string r.1, r.2)
      else if b = 0x74 then (word "true" (b :: rest)).map fun r => (.bool true, r)
      else if b = 0x66 then (word "false" (b :: rest)).map fun r => (.bool false, r)
      else if b = 0x6E then (word "null" (b :: rest)).map fun r => (.null, r)
      else number (b :: rest)

def items : (fuel : Nat) → Bytes → Option (List Json × Bytes)
  | 0, _ => none
  | fuel + 1, bytes => do
    let (item, rest) ← value fuel bytes
    match skipBlanks rest with
    | 0x2C :: rest => (items fuel rest).map fun r => (item :: r.1, r.2)
    | 0x5D :: rest => some ([item], rest)
    | _ => none

def members : (fuel : Nat) → Bytes → Option (List (Bytes × Json) × Bytes)
  | 0, _ => none
  | fuel + 1, bytes =>
    match skipBlanks bytes with
    | 0x22 :: rest => do
      let (name, rest) ← string [] rest
      match skipBlanks rest with
      | 0x3A :: rest =>
        let (item, rest) ← value fuel rest
        match skipBlanks rest with
        | 0x2C :: rest => (members fuel rest).map fun r => ((name, item) :: r.1, r.2)
        | 0x7D :: rest => some ([(name, item)], rest)
        | _ => none
      | _ => none
    | _ => none

end

end Reader

/-- The value that a byte string denotes. Each step of the reader uses up a byte or goes one level
down, so twice the length is fuel enough. -/
def ofBytes? (bytes : Bytes) : Option Json := do
  let (value, rest) ← Reader.value (2 * bytes.length + 2) bytes
  if Reader.skipBlanks rest = [] then some value else none

end Savegame.Json
