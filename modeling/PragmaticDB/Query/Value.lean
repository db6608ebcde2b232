import PragmaticDB.Catalog.Catalog

/-!
Values, their texts, and tuples. Work on them can be undefined where a copy leaves its buffer,
and it can throw.
-/
namespace PragmaticDB
open ByteBlock

/-- What the code and the standard library throw here. -/
inductive Exn where
  | runtimeError (what : List UInt8)
  | filesystemError (what : List UInt8)
  | invalidArgument
  | outOfRange
  | badAnyCast
  deriving DecidableEq

/-- `e.what()` where `catch (const std::runtime_error& e)` takes the exception. The errors of
`std::stoi` are logic errors, and `std::bad_any_cast` is neither. -/
def Exn.caught : Exn → Option (List UInt8)
  | .runtimeError what => some what
  | .filesystemError what => some what
  | .invalidArgument => none
  | .outOfRange => none
  | .badAnyCast => none

/-- Undefined, thrown or returned. -/
abbrev Outcome := ExceptT Exn Option

def defined {α : Type} (x : Option α) : Outcome α := x.map .ok

def raised {α : Type} (x : Except Exn α) : Outcome α := some x

/-! Characters in the C locale. -/

def isSpace (c : UInt8) : Bool := c == 32 || (9 ≤ c && c ≤ 13)

def isDigit (c : UInt8) : Bool := 48 ≤ c && c ≤ 57

def toUpper (c : UInt8) : UInt8 := if 97 ≤ c ∧ c ≤ 122 then c - 32 else c

def upper (s : List UInt8) : List UInt8 := s.map toUpper

/-- The number a list of digits writes. -/
def digitsValue (ds : List UInt8) : ℕ := ds.foldl (fun n c => 10 * n + (c.toNat - 48)) 0

def signedValue (negative : Bool) (ds : List UInt8) : ℤ :=
  if negative then -(digitsValue ds : ℤ) else digitsValue ds

/-- The number behind an optional sign, up to the first character that is no digit. -/
def stoiFrom (s : List UInt8) : Except Exn ℤ :=
  let negative := s.head? = some 45
  let ds := (if s.head? = some 43 ∨ s.head? = some 45 then s.tail else s).takeWhile isDigit
  if ds = [] then .error .invalidArgument
  else
    let v := signedValue negative ds
    if -2147483648 ≤ v ∧ v < 2147483648 then .ok v else .error .outOfRange

/-- `std::stoi`. -/
def stoi (raw : List UInt8) : Except Exn ℤ := stoiFrom (raw.dropWhile isSpace)

/-- The `std::any` of a value. -/
inductive Any where
  | empty
  | int32 (v : ℤ)
  | int8 (v : ℤ)
  deriving DecidableEq

structure Value where
  typeId : TypeId
  data : Any
  deriving DecidableEq

namespace Value

/-- `DsFactory::get_structure`. -/
def getStructure : TypeId → Any
  | .integer => .int32 0
  | .boolean => .int8 0
  | _ => .empty

def new (t : TypeId) : Value := ⟨t, getStructure t⟩

def getInt32 (v : Value) : Except Exn ℤ :=
  match v.data with
  | .int32 i => .ok i
  | _ => .error .badAnyCast

def getInt8 (v : Value) : Except Exn ℤ :=
  match v.data with
  | .int8 i => .ok i
  | _ => .error .badAnyCast

/-- The bytes `SerializeToChar` copies. -/
def serialize (v : Value) : Except Exn (List UInt8) :=
  match v.typeId with
  | .integer => v.getInt32.map fun i => leBytes 4 (i % 4294967296).toNat
  | .boolean => v.getInt8.map fun i => leBytes 1 (i % 256).toNat
  | _ => .ok []

/-- `DeserializeFromChar`, from a buffer at offset `off`. -/
def deserialize (v : Value) (data : List UInt8) (off : ℕ) (t : TypeId) : Option Value :=
  match t with
  | .integer =>
    if off + 4 ≤ data.length then
      some ⟨t, .int32 (Int.bmod (leNat ((data.drop off).take 4)) 4294967296)⟩
    else none
  | .boolean =>
    if off + 1 ≤ data.length then
      some ⟨t, .int8 (Int.bmod (leNat ((data.drop off).take 1)) 256)⟩
    else none
  | _ => some ⟨t, v.data⟩

end Value

namespace ValueFactory

def fromString (raw : List UInt8) (t : TypeId) : Except Exn Value :=
  match t with
  | .integer => (stoi raw).map fun v => ⟨t, .int32 v⟩
  | .boolean =>
    if upper raw ≠ str "TRUE" ∧ upper raw ≠ str "FALSE" then
      .error (.runtimeError (str "ValueFactory::FromString: expected 'true' or 'false', got '" ++
        raw ++ str "'"))
    else .ok ⟨t, .int8 (if upper raw = str "TRUE" then 1 else 0)⟩
  | _ => .error (.runtimeError
      (str "ValueFactory::FromString: unsupported TypeId for raw value '" ++ raw ++ str "'"))

/-- `std::to_string` of an `int32_t`. -/
def decimalInt (v : ℤ) : List UInt8 :=
  if v < 0 then str "-" ++ decimal v.natAbs else decimal v.natAbs

def toString (v : Value) (t : TypeId) : Except Exn (List UInt8) :=
  match t with
  | .integer => v.getInt32.map decimalInt
  | .boolean => v.getInt8.map fun i => if i = 0 then str "false" else str "true"
  | _ => .error (.runtimeError (str "ValueFactory::ToString: unsupported TypeId"))

end ValueFactory

/-! A tuple is its bytes. -/

/-- A copy over the bytes at `off`, undefined outside the buffer. -/
def writeAt (data : List UInt8) (off : ℕ) (bytes : List UInt8) : Option (List UInt8) :=
  if off + bytes.length ≤ data.length then
    some (data.take off ++ bytes ++ data.drop (off + bytes.length))
  else none

namespace Tuple

/-- The loop of the constructor from column `i` on. -/
def serializeFrom (s : Schema) : ℕ → List Value → List UInt8 → Outcome (List UInt8)
  | _, [], data => return data
  | i, v :: vs, data => do
    let off ← defined s.offsets[i]?
    let bytes ← raised v.serialize
    let data ← defined (writeAt data off bytes)
    serializeFrom s (i + 1) vs data

def new (values : List Value) (s : Schema) : Outcome (List UInt8) :=
  serializeFrom s 0 values (List.replicate s.length 0)

/-- The constructor from raw bytes; it must not read past them. -/
def ofRaw (rawData : List UInt8) (size : ℕ) : Option (List UInt8) :=
  if size ≤ rawData.length then some (rawData.take size) else none

/-- `GetLength`, a `uint32_t`. -/
def getLength (data : List UInt8) : ℕ := data.length % 4294967296

def getValue (data : List UInt8) (s : Schema) (i : ℕ) : Option Value := do
  let col ← s.columns[i]?
  let off ← s.offsets[i]?
  (Value.new .invalid).deserialize data off col.typeId

end Tuple
end PragmaticDB
