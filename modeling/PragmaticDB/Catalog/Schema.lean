import PragmaticDB.Lib.Block

/-!
Columns and schemas. A `std::string` is its list of bytes, and `uint32_t` sums wrap.
-/
namespace PragmaticDB

/-- An ASCII literal of the source. -/
def str (s : String) : List UInt8 := s.toList.map fun c => c.toNat.toUInt8

/-- `enum class TypeId` can hold any value of its underlying type. -/
inductive TypeId where
  | invalid
  | boolean
  | integer
  | unnamed (raw : ℕ)
  deriving DecidableEq

namespace TypeId

/-- `static_cast<uint32_t>`. -/
def toRaw : TypeId → ℕ
  | .invalid => 0
  | .boolean => 1
  | .integer => 2
  | .unnamed raw => raw

/-- `static_cast<TypeId>`. -/
def ofRaw : ℕ → TypeId
  | 0 => .invalid
  | 1 => .boolean
  | 2 => .integer
  | raw => .unnamed raw

/-- The enumerators. -/
def Named (t : TypeId) : Prop := t = .invalid ∨ t = .boolean ∨ t = .integer

instance : DecidablePred Named := fun t =>
  inferInstanceAs (Decidable (t = .invalid ∨ t = .boolean ∨ t = .integer))

theorem Named.ofRaw_toRaw {t : TypeId} (h : t.Named) : ofRaw t.toRaw = t := by
  rcases h with rfl | rfl | rfl <;> rfl

theorem Named.toRaw_lt {t : TypeId} (h : t.Named) : t.toRaw < 3 := by
  rcases h with rfl | rfl | rfl <;> decide

end TypeId

structure Column where
  name : List UInt8
  typeId : TypeId
  deriving DecidableEq

def Column.getLength (c : Column) : ℕ :=
  match c.typeId with
  | .integer => 4
  | .boolean => 1
  | _ => 0

/-- The loop of `Schema::Schema`: the offset of each column, and the length of a row. -/
def layoutFrom : ℕ → List Column → List ℕ × ℕ
  | length, [] => ([], length)
  | length, c :: cs =>
    let (offsets, total) := layoutFrom ((length + c.getLength) % 4294967296) cs
    (length :: offsets, total)

/-- Offsets and length are those the constructor computes. -/
structure Schema where
  columns : List Column
  offsets : List ℕ
  length : ℕ
  built : (offsets, length) = layoutFrom 0 columns

namespace Schema

def new (columns : List Column) : Schema :=
  ⟨columns, (layoutFrom 0 columns).1, (layoutFrom 0 columns).2, rfl⟩

/-- A schema is determined by its columns. -/
theorem eq_new (s : Schema) : s = new s.columns := by
  obtain ⟨columns, offsets, length, built⟩ := s
  have h1 := congrArg Prod.fst built
  have h2 := congrArg Prod.snd built
  simp only at h1 h2
  subst h1 h2
  rfl

instance : DecidableEq Schema := fun s t =>
  decidable_of_iff (s.columns = t.columns)
    ⟨fun h => by rw [s.eq_new, t.eq_new, h], fun h => h ▸ rfl⟩

end Schema
end PragmaticDB
