import PragmaticDB.Lib.Block

/-!
Input streams of bytes with a state flag, as the standard library reads them: a read that
comes to the end takes what is left, sets the flag, and from then on no read has any effect.
-/
namespace ByteStream
open ByteBlock

structure InStream where
  rest : List UInt8
  good : Bool
  deriving DecidableEq

def InStream.ofBytes (bytes : List UInt8) : InStream := ⟨bytes, true⟩

abbrev Reader (α : Type) := StateM InStream α

/-- `in.read(buf, n)` over a buffer of `n` bytes that holds `old`. -/
def readBytes (old : List UInt8) : Reader (List UInt8) := fun s =>
  if s.good then
    if old.length ≤ s.rest.length then
      (s.rest.take old.length, ⟨s.rest.drop old.length, true⟩)
    else (s.rest ++ old.drop s.rest.length, ⟨[], false⟩)
  else (old, s)

/-- A number of `k` bytes read over one with value `old`. -/
def readNat (k old : ℕ) : Reader ℕ := do
  let bytes ← readBytes (leBytes k old)
  return leNat bytes

/-- `n` items one after the other. -/
def readMany {α : Type} (item : Reader α) : ℕ → Reader (List α)
  | 0 => return []
  | n + 1 => do
    let x ← item
    let xs ← readMany item n
    return x :: xs

/-- From a stream that starts with `bytes`, `r` takes just these and gives `x`. -/
def Reads {α : Type} (r : Reader α) (bytes : List UInt8) (x : α) : Prop :=
  ∀ rest, r.run ⟨bytes ++ rest, true⟩ = (x, ⟨rest, true⟩)

variable {α β : Type}

theorem Reads.pure (x : α) : Reads (pure x : Reader α) [] x := fun _ => rfl

theorem Reads.bind {r : Reader α} {f : α → Reader β} {bs bs' : List UInt8} {x : α} {y : β}
    (hr : Reads r bs x) (hf : Reads (f x) bs' y) : Reads (r >>= f) (bs ++ bs') y := by
  intro rest
  rw [StateT.run_bind, List.append_assoc, hr]
  exact hf rest

/-- A last step that reads nothing. -/
theorem Reads.map {r : Reader α} {bs : List UInt8} {x : α} (g : α → β) (hr : Reads r bs x) :
    Reads (r >>= fun a => Pure.pure (g a)) bs (g x) := by
  have hb := Reads.bind (f := fun a => Pure.pure (g a)) hr (Reads.pure (g x))
  rwa [List.append_nil] at hb

theorem reads_bytes (bs old : List UInt8) (h : old.length = bs.length) :
    Reads (readBytes old) bs bs := by
  intro rest
  change readBytes old ⟨bs ++ rest, true⟩ = _
  have hle : old.length ≤ (bs ++ rest).length := by
    rw [h, List.length_append]
    exact Nat.le_add_right _ _
  simp only [readBytes, if_true, if_pos hle]
  rw [h, List.take_left, List.drop_left]

theorem reads_nat {k v : ℕ} (old : ℕ) (hv : v < 256 ^ k) :
    Reads (readNat k old) (leBytes k v) v := by
  have hb := reads_bytes (leBytes k v) (leBytes k old) (by rw [leBytes_length, leBytes_length])
  have hm := hb.map leNat
  rwa [leNat_leBytes, Nat.mod_eq_of_lt hv] at hm

theorem reads_many {item : Reader α} {encode : α → List UInt8} {xs : List α}
    (h : ∀ x ∈ xs, Reads item (encode x) x) :
    Reads (readMany item xs.length) (xs.flatMap encode) xs := by
  induction xs with
  | nil => exact Reads.pure []
  | cons x xs ih =>
    rw [List.flatMap_cons]
    exact (h x (by simp)).bind ((ih fun y hy => h y (by simp [hy])).map (x :: ·))

end ByteStream
