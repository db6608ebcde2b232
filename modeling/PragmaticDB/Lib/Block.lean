import Mathlib

/-!
Little-endian numerals and blocks of a fixed number of bytes, read and written by ranges.
A range that leaves the block is caught by the checked operations `load?` and `store?`.
-/
namespace ByteBlock

/-- The `k` low bytes of a number, least significant first. -/
def leBytes : ℕ → ℕ → List UInt8
  | 0, _ => []
  | k + 1, v => UInt8.ofNat v :: leBytes k (v / 256)

def leNat : List UInt8 → ℕ
  | [] => 0
  | b :: bs => b.toNat + 256 * leNat bs

@[simp] theorem leBytes_length (k v : ℕ) : (leBytes k v).length = k := by
  induction k generalizing v with
  | zero => rfl
  | succ k ih => simp [leBytes, ih]

theorem leNat_lt (bs : List UInt8) : leNat bs < 256 ^ bs.length := by
  induction bs with
  | nil => simp [leNat]
  | cons b bs ih =>
    have hb := b.toNat_lt
    simp only [leNat, List.length_cons, pow_succ]
    omega

theorem leNat_leBytes (k v : ℕ) : leNat (leBytes k v) = v % 256 ^ k := by
  induction k generalizing v with
  | zero => simp [leBytes, leNat, Nat.mod_one]
  | succ k ih =>
    have hp : 256 ^ (k + 1) = 256 * 256 ^ k := pow_succ' 256 k
    rw [leBytes, leNat, ih, UInt8.toNat_ofNat', hp, Nat.mod_mul]

theorem leNat_zeros (n : ℕ) : leNat (List.replicate n 0) = 0 := by
  induction n with
  | zero => rfl
  | succ n ih => rw [List.replicate_succ, leNat, ih]; rfl

theorem leNat_append_zeros (bs : List UInt8) (n : ℕ) :
    leNat (bs ++ List.replicate n 0) = leNat bs := by
  induction bs with
  | nil => exact leNat_zeros n
  | cons b bs ih => rw [List.cons_append, leNat, leNat, ih]

theorem leNat_take_le (k : ℕ) (bs : List UInt8) : leNat (bs.take k) ≤ leNat bs := by
  induction bs generalizing k with
  | nil => rw [List.take_nil]
  | cons b bs ih =>
    cases k with
    | zero => exact Nat.zero_le _
    | succ k =>
      rw [List.take_succ_cons, leNat, leNat]
      have hle := ih k
      omega

theorem leBytes_zero (k : ℕ) : leBytes k 0 = List.replicate k 0 := by
  induction k with
  | zero => rfl
  | succ k ih => rw [leBytes, ih, List.replicate_succ]; rfl

/-- A numeral of which only the first bytes are there. -/
theorem leBytes_leNat {bs : List UInt8} {k : ℕ} (h : bs.length ≤ k) :
    leBytes k (leNat bs) = bs ++ List.replicate (k - bs.length) 0 := by
  induction bs generalizing k with
  | nil => exact leBytes_zero k
  | cons b bs ih =>
    obtain ⟨k, rfl⟩ := Nat.exists_eq_succ_of_ne_zero (Nat.ne_zero_of_lt h)
    have hb := b.toNat_lt
    have hdiv : (b.toNat + 256 * leNat bs) / 256 = leNat bs := by omega
    have hlow : UInt8.ofNat (b.toNat + 256 * leNat bs) = b := by
      apply UInt8.toNat_inj.mp
      rw [UInt8.toNat_ofNat']
      omega
    rw [leNat, leBytes, hdiv, ih (Nat.le_of_succ_le_succ h), hlow, List.length_cons,
      Nat.succ_sub_succ, List.cons_append]

/-- A block of `n` bytes. -/
@[ext] structure Block (n : ℕ) where
  cell : Fin n → UInt8

namespace Block
variable {n : ℕ}

def fill (n : ℕ) (b : UInt8) : Block n := ⟨fun _ => b⟩

def byte (m : Block n) (a : ℕ) : UInt8 := if h : a < n then m.cell ⟨a, h⟩ else 0

def load (m : Block n) (a k : ℕ) : List UInt8 := (List.range k).map fun i => m.byte (a + i)

/-- The bytes from address `a` on replaced by `bs`. -/
def store (m : Block n) (a : ℕ) (bs : List UInt8) : Block n :=
  ⟨fun i => if a ≤ i.val ∧ i.val < a + bs.length then bs.getD (i.val - a) 0 else m.cell i⟩

/-- A read of `k` bytes, undefined where it leaves the block. -/
def load? (m : Block n) (a k : ℕ) : Option (List UInt8) :=
  if a + k ≤ n then some (m.load a k) else none

/-- A copy into the block, undefined where it leaves the block. -/
def store? (m : Block n) (a : ℕ) (bs : List UInt8) : Option (Block n) :=
  if a + bs.length ≤ n then some (m.store a bs) else none

@[simp] theorem load_length (m : Block n) (a k : ℕ) : (m.load a k).length = k := by
  simp [load]

theorem byte_of_lt (m : Block n) {a : ℕ} (h : a < n) : m.byte a = m.cell ⟨a, h⟩ := by
  simp [byte, h]

theorem eq_of_byte {m m' : Block n} (h : ∀ a < n, m.byte a = m'.byte a) : m = m' := by
  refine Block.ext (funext fun i => ?_)
  have hi := h i.val i.isLt
  rwa [byte_of_lt m i.isLt, byte_of_lt m' i.isLt] at hi

theorem byte_store_of_mem (m : Block n) {a i : ℕ} {bs : List UInt8} (ha : a ≤ i)
    (hi : i < a + bs.length) (hn : i < n) : (m.store a bs).byte i = bs.getD (i - a) 0 := by
  simp [byte, store, hn, ha, hi]

theorem byte_store_of_outside (m : Block n) {a i : ℕ} {bs : List UInt8}
    (h : i < a ∨ a + bs.length ≤ i) : (m.store a bs).byte i = m.byte i := by
  by_cases hn : i < n
  · have hc : ¬ (a ≤ i ∧ i < a + bs.length) := by omega
    simp [byte, store, hn, hc]
  · simp [byte, hn]

theorem getElem?_load (m : Block n) (a k i : ℕ) :
    (m.load a k)[i]? = if i < k then some (m.byte (a + i)) else none := by
  by_cases h : i < k <;> simp [load, h]

theorem load_congr {m m' : Block n} {a k : ℕ}
    (h : ∀ i, a ≤ i → i < a + k → m.byte i = m'.byte i) : m.load a k = m'.load a k := by
  simp only [load, List.map_inj_left, List.mem_range]
  intro i hi
  exact h (a + i) (by omega) (by omega)

/-- A store leaves every range apart from it as it was. -/
theorem load_store_of_disjoint (m : Block n) {a b k : ℕ} {bs : List UInt8}
    (h : b + k ≤ a ∨ a + bs.length ≤ b) : (m.store a bs).load b k = m.load b k :=
  load_congr fun _ hb hk => byte_store_of_outside m (by omega)

/-- What was stored is read back, in whole or in part. -/
theorem load_store_part (m : Block n) {a j k : ℕ} {bs : List UInt8}
    (hk : j + k ≤ bs.length) (hn : a + bs.length ≤ n) :
    (m.store a bs).load (a + j) k = (bs.drop j).take k := by
  apply List.ext_getElem?
  intro i
  rw [getElem?_load]
  by_cases hi : i < k
  · rw [if_pos hi, byte_store_of_mem m (by omega) (by omega) (by omega),
      List.getElem?_take_of_lt hi, List.getElem?_drop, show a + j + i - a = j + i by omega,
      List.getD_eq_getElem _ _ (by omega), List.getElem?_eq_getElem (by omega)]
  · rw [if_neg hi, List.getElem?_eq_none]
    simp only [List.length_take, List.length_drop]
    omega

theorem load_store (m : Block n) {a : ℕ} {bs : List UInt8} (hn : a + bs.length ≤ n) :
    (m.store a bs).load a bs.length = bs := by
  have h0 : 0 + bs.length ≤ bs.length := by omega
  simpa using load_store_part m h0 hn

/-- Bytes that are stored where they were read change nothing. -/
theorem store_load (m : Block n) (a k : ℕ) : m.store a (m.load a k) = m := by
  apply eq_of_byte
  intro i hi
  by_cases hin : a ≤ i ∧ i < a + k
  · obtain ⟨ha, hk⟩ := hin
    have hget : (m.load a k)[i - a]? = some (m.byte i) := by
      rw [getElem?_load, if_pos (by omega), show a + (i - a) = i by omega]
    rw [byte_store_of_mem m ha (by rwa [load_length]) hi, List.getD_eq_getElem?_getD, hget]
    rfl
  · exact byte_store_of_outside m (by rw [load_length]; omega)

theorem load?_eq_some {m : Block n} {a k : ℕ} {bs : List UInt8} :
    m.load? a k = some bs ↔ a + k ≤ n ∧ bs = m.load a k := by
  by_cases h : a + k ≤ n <;> simp [load?, h, eq_comm]

theorem store?_eq_some {m m' : Block n} {a : ℕ} {bs : List UInt8} :
    m.store? a bs = some m' ↔ a + bs.length ≤ n ∧ m' = m.store a bs := by
  by_cases h : a + bs.length ≤ n <;> simp [store?, h, eq_comm]

/-! Fields of two bytes. -/

def get16 (m : Block n) (a : ℕ) : ℕ := leNat (m.load a 2)

def set16 (m : Block n) (a v : ℕ) : Block n := m.store a (leBytes 2 v)

theorem get16_lt (m : Block n) (a : ℕ) : m.get16 a < 65536 := by
  have h := leNat_lt (m.load a 2)
  simpa [get16] using h

theorem get16_congr {m m' : Block n} {a : ℕ} (h : m.load a 2 = m'.load a 2) :
    m.get16 a = m'.get16 a := by rw [get16, h, ← get16]

theorem get16_store_of_disjoint (m : Block n) {a b : ℕ} {bs : List UInt8}
    (h : b + 2 ≤ a ∨ a + bs.length ≤ b) : (m.store a bs).get16 b = m.get16 b :=
  get16_congr (load_store_of_disjoint m h)

theorem get16_set16_of_disjoint (m : Block n) {a b v : ℕ} (h : b + 2 ≤ a ∨ a + 2 ≤ b) :
    (m.set16 a v).get16 b = m.get16 b :=
  get16_store_of_disjoint m (by simpa using h)

theorem get16_set16 (m : Block n) {a v : ℕ} (hn : a + 2 ≤ n) (hv : v < 65536) :
    (m.set16 a v).get16 a = v := by
  have hs : a + (leBytes 2 v).length ≤ n := by simpa using hn
  have h := load_store m hs
  rw [leBytes_length] at h
  rw [get16, set16, h, leNat_leBytes]
  omega

theorem set16_get16 (m : Block n) (a : ℕ) : m.set16 a (m.get16 a) = m := by
  have hlen : (m.load a 2).length ≤ 2 := (load_length m a 2).le
  have hbytes : leBytes 2 (m.get16 a) = m.load a 2 := by
    rw [get16, leBytes_leNat hlen, load_length]
    exact List.append_nil _
  rw [set16, hbytes, store_load]

theorem load_set16_of_disjoint (m : Block n) {a b k v : ℕ} (h : b + k ≤ a ∨ a + 2 ≤ b) :
    (m.set16 a v).load b k = m.load b k :=
  load_store_of_disjoint m (by simpa using h)

end Block
end ByteBlock
