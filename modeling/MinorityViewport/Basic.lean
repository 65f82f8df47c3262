import Mathlib.Algebra.Order.Floor.Defs
import Mathlib.Algebra.Field.Defs

/-!
# Strings and faults

The vocabulary that every other module shares: the strings of the source
with the few functions of the C++ library that the server applies to them,
and the ways in which a call ends without returning.

A `Fault` is how a call of the server ends when it does not return.  The
first group are exceptions that the source lets through, the second group
are runs that C++ gives no meaning to, and `endlessLoop` is a loop that is
never left, whatever else it uses up.  The loop over the joints of a skeleton
does nothing but append, so that it ends when the memory is full, with
`badAlloc`.  An exception keeps the writes made before it, so the
state-passing functions of the model are computations in `EStateM Fault`.
-/

namespace MinorityViewport

/-- A `std::string`.  A byte is the character of its code. -/
abbrev Str := List Char

inductive Fault where
  /-- `std::runtime_error`, which the JSON library throws. -/
  | runtimeError (what : String)
  /-- `std::out_of_range`, thrown by `at` and by `std::stoi`. -/
  | outOfRange
  /-- `std::invalid_argument`, thrown by `std::stoi`. -/
  | invalidArgument
  /-- `cv::Exception`, thrown on empty matrices and on a size mismatch. -/
  | cvException
  /-- `std::bad_alloc`, which ends a loop that appends and is never left. -/
  | badAlloc
  /-- A failed `assert` of the JSON library. -/
  | assertion
  /-- A member function called through `NULL`. -/
  | nullPointer
  /-- A pointer that no assignment has reached is read. -/
  | unassignedPointer
  /-- A pointer to a deleted object is followed. -/
  | danglingPointer
  /-- An iterator is moved out of its container. -/
  | invalidIterator
  /-- A write behind the end of a buffer. -/
  | bufferOverrun
  /-- More nested calls than the stack has room for. -/
  | stackOverflow
  | endlessLoop
  deriving DecidableEq, Repr

/-- The faults that are C++ exceptions. -/
def Fault.isException : Fault → Bool
  | .runtimeError _ | .outOfRange | .invalidArgument | .cvException | .badAlloc => true
  | _ => false

/-- The outcome of an OpenCV call that throws where the matrix operation has
no result. -/
def cvCall {α : Type} : Option α → Except Fault α
  | some a => .ok a
  | none => .error .cvException

/-- The text up to the first NUL, which is what `c_str()` shows. -/
def cStr (s : Str) : Str := s.takeWhile (· ≠ '\x00')

theorem cStr_append {s : Str} (h : '\x00' ∉ s) (rest : Str) :
    cStr (s ++ rest) = s ++ cStr rest := by
  apply List.takeWhile_append_of_pos
  intro c hc
  have : c ≠ '\x00' := fun hnul => h (hnul ▸ hc)
  simpa using this

theorem cStr_eq_self {s : Str} (h : '\x00' ∉ s) : cStr s = s := by
  have hself := cStr_append h []
  rwa [List.append_nil, show cStr [] = [] from rfl, List.append_nil] at hself

/-- Drop what `std::isspace` accepts. -/
def isSpace (c : Char) : Bool :=
  c = ' ' || c = '\t' || c = '\n' || c = '\x0b' || c = '\x0c' || c = '\r'

/-- The value of a run of decimal digits. -/
def digitsValue (ds : Str) : Nat :=
  ds.foldl (fun n c => n * 10 + (c.toNat - '0'.toNat)) 0

/-- `std::stoi` with base ten. -/
def stoi (s : Str) : Except Fault Int :=
  let s := s.dropWhile isSpace
  let (negative, body) := match s with
    | '-' :: rest => (true, rest)
    | '+' :: rest => (false, rest)
    | _ => (false, s)
  let digits := body.takeWhile Char.isDigit
  if digits = [] then .error .invalidArgument
  else
    let value : Int := if negative then -digitsValue digits else digitsValue digits
    if value < -2147483648 ∨ 2147483647 < value then .error .outOfRange
    else .ok value

/-- The `unsigned int` with the bits of an `int`. -/
def toUnsigned (i : Int) : Nat := (i % 4294967296).toNat

/-- `std::to_string` of an unsigned number. -/
def toStringNat (n : Nat) : Str := Nat.toDigits 10 n

/-- `std::to_string` of a signed number. -/
def toStringInt (i : Int) : Str :=
  if i < 0 then '-' :: toStringNat i.natAbs else toStringNat i.natAbs

/-- `std::to_string` of a `double`: six decimals, a half rounded away from
zero. -/
def toStringDouble {K : Type} [Field K] [LinearOrder K] [FloorRing K] (x : K) : Str :=
  let magnitude := if x < 0 then -x else x
  let millionths := ⌊magnitude * 1000000 + 1 / 2⌋.toNat
  let decimals := toStringNat (millionths % 1000000)
  (if x < 0 then ['-'] else []) ++ toStringNat (millionths / 1000000) ++
    '.' :: (List.replicate (6 - decimals.length) '0' ++ decimals)

/-- A `double`.  The finite ones are elements of a field. -/
inductive Double (K : Type) where
  | finite (x : K)
  | infinite (negative : Bool)
  | nan (negative : Bool)
  deriving DecidableEq

/-- What a coordinate is printed as. -/
class Coordinate (C : Type) where
  text : C → Str

instance {K : Type} [Field K] [LinearOrder K] [FloorRing K] : Coordinate K := ⟨toStringDouble⟩

/-- `std::to_string` of a `double` that may have no digits. -/
def Double.text {K : Type} [Coordinate K] : Double K → Str
  | .finite x => Coordinate.text x
  | .infinite negative => (if negative then ['-'] else []) ++ "inf".toList
  | .nan negative => (if negative then ['-'] else []) ++ "nan".toList

instance {K : Type} [Coordinate K] : Coordinate (Double K) := ⟨Double.text⟩

/-- The number that `toStringDouble` prints. -/
def printedDouble {K : Type} [Field K] [LinearOrder K] [FloorRing K] (x : K) : ℚ :=
  (if x < 0 then -1 else 1) *
    (⌊(if x < 0 then -x else x) * 1000000 + 1 / 2⌋.toNat / 1000000)

/-- `std::string::find` of a character from a position on. -/
def findFrom (s : Str) (c : Char) (pos : Nat) : Option Nat :=
  ((s.drop pos).findIdx? (· = c)).map (· + pos)

/-- The loop that the emitters run over a sensor id: the backslash at the
position is doubled, and the search goes on four characters further. -/
def escapeLoop : Nat → Str → Nat → Str
  | 0, sensorId, _ => sensorId
  | fuel + 1, sensorId, pos =>
    match findFrom sensorId '\\' pos with
    | none => sensorId
    | some i =>
      let part1 := sensorId.take i
      let part2 := sensorId.drop (i + 1)
      escapeLoop fuel (part1 ++ '\\' :: '\\' :: part2) (i + 4)

/-- The text of a sensor id in the emitted JSON.  A round of the loop
lengthens the text by one and moves the position by four, so a round for
each character is enough. -/
def escapeSensorId (sensorId : Str) : Str :=
  escapeLoop (sensorId.length + 1) sensorId 0

end MinorityViewport
