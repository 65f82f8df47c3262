import MinorityViewport.Basic
import MinorityViewport.Lib.Exec
import Mathlib.Data.Rat.Floor

/-!
# JSON values and their conversions

The value type of `Data/JSON/value.h` with the accessors that the server
calls.  A real number is the rational that its text denotes, an array is
the list of its elements, and an object is a list of members with distinct
names.

`get`, `member` and `atIndex` are `Value::get`, `Value::operator[](const char*)`
and `Value::operator[](UInt)`.  On a value of the wrong kind they run into
the `JSON_ASSERT` of the source.  The `as*` conversions throw the
`std::runtime_error` of the source.  Each conversion has a Boolean twin
(`convertsToString` and so on) that says which values it accepts.
-/

namespace MinorityViewport.Json

open Exec

inductive Value where
  | null
  | int (value : Int)
  | uint (value : Nat)
  | real (value : ℚ)
  | string (value : Str)
  | boolean (value : Bool)
  | array (elements : List Value)
  | object (members : List (Str × Value))

instance : Inhabited Value := ⟨.null⟩

namespace Value

/-- The default `NULL` of a lookup is the integer `0`. -/
def zero : Value := .int 0

/-- `maxUInt` of the library. -/
def maxUInt : Nat := 4294967295

/-! ## Members and elements -/

def findMember (key : Str) : List (Str × Value) → Option Value
  | [] => none
  | (name, value) :: rest => if name = key then some value else findMember key rest

/-- Write a member, in place when its name is present. -/
def setMember (key : Str) (value : Value) : List (Str × Value) → List (Str × Value)
  | [] => [(key, value)]
  | (name, old) :: rest =>
    if name = key then (name, value) :: rest
    else (name, old) :: setMember key value rest

/-- `Value::size`. -/
def size : Value → Nat
  | .array elements => elements.length
  | .object members => members.length
  | _ => 0

/-- `Value::get` on a member name. -/
def get (v : Value) (key : String) (default : Value) : Except Fault Value :=
  match v with
  | .null => .ok default
  | .object members => .ok ((findMember key.toList members).getD default)
  | _ => .error .assertion

/-- `Value::operator[]` on a member name.  A name that is absent gives the
null value. -/
def member (v : Value) (key : String) : Except Fault Value := v.get key .null

/-- `Value::operator[]` on an index. -/
def atIndex (v : Value) (index : Nat) : Except Fault Value :=
  match v with
  | .null => .ok .null
  | .array elements => .ok (elements.getD index .null)
  | _ => .error .assertion

/-- `value != NULL`: another kind than `int`, or another number than `0`. -/
def notNull : Value → Bool
  | .int value => value ≠ 0
  | _ => true

/-! ## Conversions -/

def asString : Value → Except Fault Str
  | .null => .ok []
  | .string value => .ok (cStr value)
  | .boolean value => .ok (if value then "true".toList else "false".toList)
  | _ => .error (.runtimeError "Type is not convertible to string")

def asUInt : Value → Except Fault Nat
  | .null => .ok 0
  | .int value =>
    if 0 ≤ value then .ok value.toNat
    else .error (.runtimeError
      "Negative integer can not be converted to unsigned integer")
  | .uint value => .ok value
  | .real value =>
    if 0 ≤ value ∧ value ≤ maxUInt then .ok ⌊value⌋.toNat
    else .error (.runtimeError "Real out of unsigned integer range")
  | .boolean value => .ok (if value then 1 else 0)
  | _ => .error (.runtimeError "Type is not convertible to uint")

def asDouble : Value → Except Fault ℚ
  | .null => .ok 0
  | .int value => .ok value
  | .uint value => .ok value
  | .real value => .ok value
  | .boolean value => .ok (if value then 1 else 0)
  | _ => .error (.runtimeError "Type is not convertible to double")

/-- A `double` stored in a `long`: the fraction is cut off. -/
def truncate (q : ℚ) : Int := if 0 ≤ q then ⌊q⌋ else ⌈q⌉

/-! ## Which values convert -/

def convertsToString : Value → Bool
  | .null | .string _ | .boolean _ => true
  | _ => false

def convertsToUInt : Value → Bool
  | .null | .uint _ | .boolean _ => true
  | .int value => 0 ≤ value
  | .real value => 0 ≤ value ∧ value ≤ maxUInt
  | _ => false

def convertsToDouble : Value → Bool
  | .null | .int _ | .uint _ | .real _ | .boolean _ => true
  | _ => false

/-- The values on which `get` finds its member or its default. -/
def isObject : Value → Bool
  | .null | .object _ => true
  | _ => false

/-- The values that can be indexed. -/
def isArray : Value → Bool
  | .null | .array _ => true
  | _ => false

/-- The member that `get` answers on a value it accepts. -/
def memberD (v : Value) (key : String) (default : Value) : Value :=
  match v with
  | .object members => (findMember key.toList members).getD default
  | _ => default

theorem get_eq_ok_iff {v w default : Value} {key : String} :
    v.get key default = .ok w ↔ v.isObject ∧ w = v.memberD key default := by
  cases v <;> simp [get, isObject, memberD, eq_comm]

theorem get_of_isObject {v : Value} (h : v.isObject) (key : String) (default : Value) :
    v.get key default = .ok (v.memberD key default) :=
  get_eq_ok_iff.mpr ⟨h, rfl⟩

theorem isOk_get_bind_iff {v default : Value} {key : String} {α : Type}
    {f : Value → Except Fault α} :
    IsOk (v.get key default >>= f) ↔ v.isObject ∧ IsOk (f (v.memberD key default)) := by
  simp [isOk_bind_iff, get_eq_ok_iff, and_assoc]

theorem asString_isOk_iff (v : Value) :
    IsOk v.asString ↔ v.convertsToString := by
  cases v <;> simp [asString, convertsToString]

theorem asUInt_isOk_iff (v : Value) :
    IsOk v.asUInt ↔ v.convertsToUInt := by
  cases v with
  | int value =>
    by_cases h : 0 ≤ value <;> simp [asUInt, convertsToUInt, h]
  | real value =>
    by_cases h : 0 ≤ value ∧ value ≤ maxUInt <;> simp [asUInt, convertsToUInt, h]
  | _ => simp [asUInt, convertsToUInt]

theorem asDouble_isOk_iff (v : Value) :
    IsOk v.asDouble ↔ v.convertsToDouble := by
  cases v <;> simp [asDouble, convertsToDouble]

end Value

end MinorityViewport.Json
