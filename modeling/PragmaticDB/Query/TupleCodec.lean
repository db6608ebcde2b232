import PragmaticDB.Query.DeletedRows
import PragmaticDB.Query.Literals

/-!
Rows as bytes and as texts. A tuple is the bytes of its values one after the other, so each of
them is found again at the offset of its column.
-/
namespace PragmaticDB
open ByteBlock Executor Throwing

/-- A value of type `t`, in the range of the type that holds it. -/
inductive Value.OfType : TypeId → Value → Prop where
  | integer {n : ℤ} (hlo : -2147483648 ≤ n) (hhi : n < 2147483648) :
      OfType .integer ⟨.integer, .int32 n⟩
  | boolean {n : ℤ} (hlo : -128 ≤ n) (hhi : n < 128) : OfType .boolean ⟨.boolean, .int8 n⟩

/-- What `SerializeToChar` copies of a value. -/
def Value.bytes (v : Value) : List UInt8 :=
  match v.serialize with
  | .ok bytes => bytes
  | .error _ => []

/-- The text of a value in a column of type `t`. -/
def Value.text (t : TypeId) (v : Value) : List UInt8 :=
  match ValueFactory.toString v t with
  | .ok text => text
  | .error _ => []

namespace Value.OfType
variable {c : Column} {t : TypeId} {v : Value}

theorem serialize (h : OfType c.typeId v) :
    v.serialize = .ok v.bytes ∧ v.bytes.length = c.getLength := by
  obtain ⟨name, t⟩ := c
  cases h with
  | integer => exact ⟨rfl, leBytes_length 4 _⟩
  | boolean => exact ⟨rfl, leBytes_length 1 _⟩

theorem toString (h : OfType t v) : ValueFactory.toString v t = .ok (v.text t) := by
  cases h <;> rfl

/-- A value is read back from between other bytes. -/
theorem deserialize (h : OfType t v) (v₀ : Value) (before after : List UInt8) :
    v₀.deserialize (before ++ (v.bytes ++ after)) before.length t = some v := by
  cases h with
  | @integer n hlo hhi =>
    have hbytes : Value.bytes ⟨.integer, .int32 n⟩ = leBytes 4 (n % 4294967296).toNat := rfl
    have hin : before.length + 4 ≤
        (before ++ (leBytes 4 (n % 4294967296).toNat ++ after)).length := by
      rw [List.length_append, List.length_append, leBytes_length]
      omega
    have hmod : (n % 4294967296).toNat < 256 ^ 4 := by
      norm_num
      omega
    have hback : Int.bmod ((n % 4294967296).toNat : ℤ) 4294967296 = n := by
      rw [Int.bmod_def]
      omega
    rw [hbytes, Value.deserialize, if_pos hin, List.drop_left,
      List.take_left' (leBytes_length 4 _), leNat_leBytes, Nat.mod_eq_of_lt hmod, hback]
  | @boolean n hlo hhi =>
    have hbytes : Value.bytes ⟨.boolean, .int8 n⟩ = leBytes 1 (n % 256).toNat := rfl
    have hin : before.length + 1 ≤ (before ++ (leBytes 1 (n % 256).toNat ++ after)).length := by
      rw [List.length_append, List.length_append, leBytes_length]
      omega
    have hmod : (n % 256).toNat < 256 ^ 1 := by
      norm_num
      omega
    have hback : Int.bmod ((n % 256).toNat : ℤ) 256 = n := by
      rw [Int.bmod_def]
      omega
    rw [hbytes, Value.deserialize, if_pos hin, List.drop_left,
      List.take_left' (leBytes_length 1 _), leNat_leBytes, Nat.mod_eq_of_lt hmod, hback]

end Value.OfType

/-- The values `vs` have the types of the columns. -/
abbrev Typed (columns : List Column) (vs : List Value) : Prop :=
  List.Forall₂ (fun c v => Value.OfType c.typeId v) columns vs

theorem Typed.length_bytes {columns : List Column} {vs : List Value} (h : Typed columns vs) :
    (vs.flatMap Value.bytes).length = (columns.map Column.getLength).sum := by
  induction h with
  | nil => rfl
  | cons hv _ ih =>
    rw [List.flatMap_cons, List.length_append, hv.serialize.2, ih, List.map_cons, List.sum_cons]

theorem Typed.length_le {columns : List Column} {vs : List Value} (h : Typed columns vs) :
    columns.length ≤ (columns.map Column.getLength).sum := by
  induction h with
  | nil => exact Nat.zero_le _
  | @cons c v columns vs hv _ ih =>
    have hpos : 1 ≤ c.getLength := by
      obtain ⟨name, t⟩ := c
      cases hv
      · exact (by decide : 1 ≤ 4)
      · exact le_rfl
    rw [List.length_cons, List.map_cons, List.sum_cons]
    omega

/-- The bytes of one value among those of the others. -/
theorem bytes_split {vs : List Value} {i : ℕ} (hi : i < vs.length) :
    vs.flatMap Value.bytes = (vs.take i).flatMap Value.bytes ++
      (vs[i].bytes ++ (vs.drop (i + 1)).flatMap Value.bytes) := by
  rw [← List.flatMap_cons, ← List.drop_eq_getElem_cons hi, ← List.flatMap_append,
    List.take_append_drop]

/-- Columns stand one behind the other. -/
theorem layoutFrom_offset {n : ℕ} {cs : List Column} {i : ℕ} (hi : i < cs.length)
    (hsum : n + ((cs.take i).map Column.getLength).sum < 4294967296) :
    (layoutFrom n cs).1[i]? = some (n + ((cs.take i).map Column.getLength).sum) := by
  induction cs generalizing n i with
  | nil => exact absurd hi (Nat.not_lt_zero i)
  | cons c cs ih =>
    unfold layoutFrom
    cases i with
    | zero => rfl
    | succ i =>
      rw [List.take_succ_cons, List.map_cons, List.sum_cons] at hsum ⊢
      have hmod : (n + c.getLength) % 4294967296 = n + c.getLength := Nat.mod_eq_of_lt (by omega)
      simp only [hmod]
      rw [List.getElem?_cons_succ, ih (Nat.lt_of_succ_lt_succ hi) (by omega), Nat.add_assoc]

/-- The first columns are not longer than more of them. -/
theorem sum_take_le (cs : List Column) {i k : ℕ} (hik : i ≤ k) :
    ((cs.take i).map Column.getLength).sum ≤ ((cs.take k).map Column.getLength).sum := by
  have hsplit := List.take_append_drop i (cs.take k)
  rw [List.take_take, Nat.min_eq_left hik] at hsplit
  rw [← hsplit, List.map_append, List.sum_append]
  exact Nat.le_add_right _ _

theorem sum_take_le_sum (cs : List Column) (i : ℕ) :
    ((cs.take i).map Column.getLength).sum ≤ (cs.map Column.getLength).sum := by
  rcases Nat.le_total i cs.length with hi | hi
  · have hle := sum_take_le cs hi
    rwa [List.take_length] at hle
  · rw [List.take_of_length_le hi]

namespace Tuple
variable {s : Schema} {vs : List Value}

theorem offset_eq {i : ℕ} (hs : ((s.columns.take i).map Column.getLength).sum < 4294967296)
    (hi : i < s.columns.length) :
    s.offsets[i]? = some ((s.columns.take i).map Column.getLength).sum := by
  have hbuilt := congrArg Prod.fst s.built
  rw [show s.offsets = (layoutFrom 0 s.columns).1 from hbuilt,
    layoutFrom_offset hi (by omega), Nat.zero_add]

theorem length_eq (hs : (s.columns.map Column.getLength).sum < 4294967296) :
    s.length = (s.columns.map Column.getLength).sum := by
  have hbuilt := congrArg Prod.snd s.built
  rw [show s.length = (layoutFrom 0 s.columns).2 from hbuilt,
    (layoutFrom_inside (by omega)).1, Nat.zero_add]

/-- The loop of the constructor puts each value behind those before it, and leaves what is
behind the last one. -/
theorem serializeFrom_eq {i : ℕ}
    (hs : ((s.columns.take (i + vs.length)).map Column.getLength).sum < 4294967296)
    (hv : Typed ((s.columns.drop i).take vs.length) vs) (done rest : List UInt8)
    (hdone : done.length = ((s.columns.take i).map Column.getLength).sum)
    (hrest : (vs.flatMap Value.bytes).length ≤ rest.length) :
    (serializeFrom s i vs (done ++ rest)).run = some (.ok (done ++ (vs.flatMap Value.bytes ++
      rest.drop (vs.flatMap Value.bytes).length))) := by
  induction vs generalizing i done rest with
  | nil => rfl
  | cons v vs ih =>
    have hi : i < s.columns.length := by
      by_contra hge
      rw [List.drop_eq_nil_of_le (Nat.le_of_not_lt hge)] at hv
      cases hv
    rw [List.drop_eq_getElem_cons hi, List.length_cons, List.take_succ_cons] at hv
    obtain ⟨hc, hcs⟩ := List.forall₂_cons.mp hv
    obtain ⟨hser, hlen⟩ := hc.serialize
    rw [List.flatMap_cons, List.length_append] at hrest
    have hin : done.length + v.bytes.length ≤ (done ++ rest).length := by
      rw [List.length_append]
      omega
    have hwrite : writeAt (done ++ rest) done.length v.bytes =
        some ((done ++ v.bytes) ++ rest.drop v.bytes.length) := by
      rw [writeAt, if_pos hin, List.take_left, List.drop_append, List.drop_of_length_le (by omega),
        Nat.add_sub_cancel_left, List.nil_append]
    have hdone' : (done ++ v.bytes).length =
        ((s.columns.take (i + 1)).map Column.getLength).sum := by
      rw [List.length_append, hlen, hdone, List.take_succ_eq_append_getElem hi, List.map_append,
        List.sum_append]
      rfl
    have hrest' : (vs.flatMap Value.bytes).length ≤ (rest.drop v.bytes.length).length := by
      rw [List.length_drop]
      omega
    have hs' : ((s.columns.take (i + 1 + vs.length)).map Column.getLength).sum < 4294967296 := by
      rwa [Nat.add_assoc, Nat.add_comm 1]
    have hle := sum_take_le s.columns (Nat.le_add_right i (vs.length + 1))
    have hnext := ih hs' hcs _ _ hdone' hrest'
    simp only [List.drop_drop, List.append_assoc] at hnext
    rw [List.flatMap_cons, List.length_append, List.append_assoc]
    unfold serializeFrom
    apply run_bind_ok.mpr
    refine ⟨done.length, ?_, run_bind_ok.mpr ⟨v.bytes, ?_, run_bind_ok.mpr ⟨_, ?_, hnext⟩⟩⟩
    · rw [offset_eq (hle.trans_lt hs) hi, hdone]
      rfl
    · rw [hser]
      rfl
    · rw [hwrite, List.append_assoc]
      rfl

/-- The tuple of values for the first columns, as far as they fit: behind them it is zero. -/
theorem new_within (hv : Typed (s.columns.take vs.length) vs)
    (hle : (vs.flatMap Value.bytes).length ≤ s.length) (hlt : s.length < 4294967296) :
    (new vs s).run = some (.ok (vs.flatMap Value.bytes ++
      List.replicate (s.length - (vs.flatMap Value.bytes).length) 0)) := by
  have hs : ((s.columns.take (0 + vs.length)).map Column.getLength).sum < 4294967296 := by
    rw [Nat.zero_add, ← hv.length_bytes]
    omega
  have hrest : (vs.flatMap Value.bytes).length ≤ (List.replicate s.length (0 : UInt8)).length := by
    rwa [List.length_replicate]
  have hrun := serializeFrom_eq hs hv [] _ rfl hrest
  rwa [List.nil_append, List.drop_replicate] at hrun

/-- The tuple of values for the first columns: the others have zero bytes. -/
theorem new_front (hs : (s.columns.map Column.getLength).sum < 4294967296)
    (hv : Typed (s.columns.take vs.length) vs) : (new vs s).run = some (.ok
      (vs.flatMap Value.bytes ++ List.replicate
        ((s.columns.drop vs.length).map Column.getLength).sum 0)) := by
  have htotal := congrArg (fun cs => (cs.map Column.getLength).sum)
    (List.take_append_drop vs.length s.columns)
  simp only [List.map_append, List.sum_append] at htotal
  have hzero : s.length - (vs.flatMap Value.bytes).length =
      ((s.columns.drop vs.length).map Column.getLength).sum := by
    rw [hv.length_bytes, length_eq hs]
    omega
  have hlen := hv.length_bytes
  have hs' := length_eq hs
  have hrun := new_within hv (by omega) (by omega)
  rwa [hzero] at hrun

/-- A tuple of as many values as columns. -/
theorem new_eq (hs : (s.columns.map Column.getLength).sum < 4294967296)
    (hv : Typed s.columns vs) : (new vs s).run = some (.ok (vs.flatMap Value.bytes)) := by
  have hlen := hv.length_eq
  have htake : Typed (s.columns.take vs.length) vs := by
    rwa [← hlen, List.take_length]
  rw [new_front hs htake, ← hlen, List.drop_length]
  exact congrArg (fun bytes => some (Except.ok bytes)) (List.append_nil _)

/-- A value is read back from the offset of its column, if the bytes before it fill the columns
before it. -/
theorem getValue_at {i : ℕ}
    (hs : ((s.columns.take i).map Column.getLength).sum < 4294967296)
    {v : Value} {c : Column} (hc : s.columns[i]? = some c) (hv : Value.OfType c.typeId v)
    {before : List UInt8} (hbefore : before.length = ((s.columns.take i).map Column.getLength).sum)
    (after : List UInt8) : getValue (before ++ (v.bytes ++ after)) s i = some v := by
  obtain ⟨hlt, -⟩ := List.getElem?_eq_some_iff.mp hc
  have hread := Value.OfType.deserialize hv (Value.new .invalid) before after
  unfold getValue
  rw [offset_eq hs hlt, hc, ← hbefore]
  exact hread

/-- Each of the values for the first columns is at the offset of its column. -/
theorem getValue_front (hs : ((s.columns.take vs.length).map Column.getLength).sum < 4294967296)
    (hv : Typed (s.columns.take vs.length) vs) {i : ℕ} {v : Value} (hi : vs[i]? = some v)
    (rest : List UInt8) : getValue (vs.flatMap Value.bytes ++ rest) s i = some v := by
  obtain ⟨hlt, rfl⟩ := List.getElem?_eq_some_iff.mp hi
  have hlt' : i < (s.columns.take vs.length).length := hlt.trans_eq hv.length_eq.symm
  have hcol : i < s.columns.length := by
    rw [List.length_take] at hlt'
    omega
  have htype := hv.get (i := i) hlt' hlt
  rw [List.get_eq_getElem, List.get_eq_getElem, List.getElem_take] at htype
  have hbefore : ((vs.take i).flatMap Value.bytes).length =
      ((s.columns.take i).map Column.getLength).sum := by
    have hpre := Typed.length_bytes (List.forall₂_take i hv)
    rwa [List.take_take, Nat.min_eq_left hlt.le] at hpre
  rw [bytes_split hlt, List.append_assoc, List.append_assoc]
  exact getValue_at ((sum_take_le s.columns hlt.le).trans_lt hs) (List.getElem?_eq_getElem hcol)
    htype hbefore _

/-- Each value is at the offset of its column. -/
theorem getValue_eq (hs : (s.columns.map Column.getLength).sum < 4294967296)
    (hv : Typed s.columns vs) {i : ℕ} {v : Value} (hi : vs[i]? = some v) :
    getValue (vs.flatMap Value.bytes) s i = some v := by
  have hlen := hv.length_eq
  have hget := getValue_front (by rwa [← hlen, List.take_length])
    (by rwa [← hlen, List.take_length]) hi []
  rwa [List.append_nil] at hget

/-- Values with the same bytes are the same. -/
theorem bytes_injective {vs' : List Value}
    (hs : (s.columns.map Column.getLength).sum < 4294967296) (hv : Typed s.columns vs)
    (hv' : Typed s.columns vs') (h : vs'.flatMap Value.bytes = vs.flatMap Value.bytes) :
    vs' = vs := by
  apply List.ext_getElem
  · rw [← hv.length_eq, ← hv'.length_eq]
  · intro i hi hi'
    have hget := getValue_eq hs hv' (List.getElem?_eq_getElem hi)
    rw [h, getValue_eq hs hv (List.getElem?_eq_getElem hi')] at hget
    exact (Option.some.inj hget).symm

/-- A tuple gives back the values it was built from, and its bytes give back the tuple. -/
theorem codec_round_trip (hs : (s.columns.map Column.getLength).sum < 4294967296)
    (hv : Typed s.columns vs) : ∃ tuple, (new vs s).run = some (.ok tuple) ∧
      getLength tuple = (s.columns.map Column.getLength).sum ∧
      ofRaw tuple (getLength tuple) = some tuple ∧
      (∀ i v, vs[i]? = some v → getValue tuple s i = some v) ∧
      ∀ vs', Typed s.columns vs' → (new vs' s).run = some (.ok tuple) → vs' = vs := by
  have hlen := hv.length_bytes
  have hsize : getLength (vs.flatMap Value.bytes) = (vs.flatMap Value.bytes).length :=
    Nat.mod_eq_of_lt (by omega)
  refine ⟨_, new_eq hs hv, hsize.trans hlen, ?_, fun i v => getValue_eq hs hv, ?_⟩
  · rw [hsize, ofRaw, if_pos le_rfl, List.take_length]
  · intro vs' hv' hnew
    rw [new_eq hs hv'] at hnew
    exact bytes_injective hs hv hv' (Except.ok.inj (Option.some.inj hnew))

theorem two_columns_round_trip : ∃ tuple,
    (new [⟨.integer, .int32 42069⟩, ⟨.boolean, .int8 1⟩]
      (Schema.new [⟨str "id", .integer⟩, ⟨str "is_active", .boolean⟩])).run = some (.ok tuple) ∧
    getLength tuple = 5 := by
  have hv : Typed [⟨str "id", .integer⟩, ⟨str "is_active", .boolean⟩]
      [⟨.integer, .int32 42069⟩, ⟨.boolean, .int8 1⟩] :=
    .cons (.integer (by decide) (by decide)) (.cons (.boolean (by decide) (by decide)) .nil)
  obtain ⟨tuple, hnew, hlen, -⟩ := codec_round_trip
    (s := Schema.new [⟨str "id", .integer⟩, ⟨str "is_active", .boolean⟩]) (by decide) hv
  exact ⟨tuple, hnew, hlen⟩

end Tuple

/-! From texts to values, and back. -/

/-- The value a text stands for in a column. -/
def valueOf (c : Column) (raw : List UInt8) : Value :=
  match ValueFactory.fromString raw c.typeId with
  | .ok v => v
  | .error _ => Value.new c.typeId

/-- A row of texts as a `SELECT` shows it: each value in its canonical text. -/
def canonicalRow (columns : List Column) (raws : List (List UInt8)) : List (List UInt8) :=
  List.zipWith (fun c raw => (valueOf c raw).text c.typeId) columns raws

theorem valueOf_spec {c : Column} {raw : List UInt8} (ha : Accepts c.typeId raw) :
    ValueFactory.fromString raw c.typeId = .ok (valueOf c raw) ∧
      Value.OfType c.typeId (valueOf c raw) := by
  obtain ⟨v, hv⟩ := ValueFactory.fromString_accepted ha
  have heq : valueOf c raw = v := by
    unfold valueOf
    rw [hv]
  rw [heq]
  refine ⟨hv, ?_⟩
  obtain ⟨name, t⟩ := c
  cases t with
  | integer =>
    obtain ⟨n, hn⟩ := ha
    have hmap : ValueFactory.fromString raw .integer = .ok ⟨.integer, .int32 n⟩ :=
      congrArg (Except.map _) hn
    obtain rfl := Except.ok.inj (hv.symm.trans hmap)
    exact .integer (stoi_fits hn).1 (stoi_fits hn).2
  | boolean =>
    have hword : ValueFactory.fromString raw .boolean = _ := if_neg fun hn => ha.elim hn.1 hn.2
    obtain rfl := Except.ok.inj (hv.symm.trans hword)
    by_cases htrue : upper raw = str "TRUE"
    · rw [if_pos htrue]
      exact .boolean (by decide) (by decide)
    · rw [if_neg htrue]
      exact .boolean (by decide) (by decide)
  | invalid => exact ha.elim
  | unnamed n => exact ha.elim

/-- One accepted text for each column. -/
abbrev Accepted (columns : List Column) (raws : List (List UInt8)) : Prop :=
  List.Forall₂ (fun c raw => Accepts c.typeId raw) columns raws

theorem Accepted.typed {columns : List Column} {raws : List (List UInt8)}
    (ha : Accepted columns raws) : Typed columns (List.zipWith valueOf columns raws) := by
  induction ha with
  | nil => exact .nil
  | cons h _ ih => exact .cons (valueOf_spec h).2 ih

namespace Executor
variable {s : Schema} {raws : List (List UInt8)}

theorem fromStrings_eq {i : ℕ} (ha : Accepted ((s.columns.drop i).take raws.length) raws) :
    (fromStrings s i raws).run =
      some (.ok (List.zipWith valueOf ((s.columns.drop i).take raws.length) raws)) := by
  induction raws generalizing i with
  | nil =>
    rw [List.zipWith_nil_right]
    rfl
  | cons raw raws ih =>
    cases hi : s.columns[i]? with
    | none =>
      rw [List.drop_eq_nil_of_le (List.getElem?_eq_none_iff.mp hi)] at ha
      cases ha
    | some c =>
      rw [drop_columns hi, List.length_cons, List.take_succ_cons] at ha ⊢
      obtain ⟨hc, hcs⟩ := List.forall₂_cons.mp ha
      rw [run_fromStrings_cons hi, (valueOf_spec hc).1, ih hcs]
      rfl

theorem loopBound_eq {size : ℕ} (h : size < 2147483648) : loopBound size = size := by
  unfold loopBound
  rw [Int.bmod_def]
  omega

theorem rowTuple_eq (hf : HeapDatabase.RowFits s.columns raws) : (rowTuple s raws).run =
    some (.ok ((List.zipWith valueOf s.columns raws).flatMap Value.bytes)) := by
  have hlen : raws.length < 65532 := hf.typed.length_eq ▸ hf.plain.length_le
  have hsum := hf.short
  have hall : (s.columns.drop 0).take raws.length = s.columns := by
    rw [List.drop_zero, ← hf.typed.length_eq, List.take_length]
  have htyped : Accepted ((s.columns.drop 0).take raws.length) raws := by
    rw [hall]
    exact hf.typed
  apply run_bind_ok.mpr
  refine ⟨_, ?_, Tuple.new_eq (by omega) (Accepted.typed hf.typed)⟩
  rw [loopBound_eq (by omega), List.take_length, fromStrings_eq htyped, hall]

theorem cellOf_eq (hs : (s.columns.map Column.getLength).sum < 4294967296) {vs : List Value}
    (hv : Typed s.columns vs) {i : ℕ} (hi : i < s.columns.length) (hi' : i < vs.length) :
    cellOf s (vs.flatMap Value.bytes) i = vs[i].text s.columns[i].typeId := by
  have hget := Tuple.getValue_eq hs hv (List.getElem?_eq_getElem hi')
  have hrun : (cellText s (vs.flatMap Value.bytes) i).run =
      some (.ok (vs[i].text s.columns[i].typeId)) := by
    apply run_bind_ok.mpr
    refine ⟨vs[i], ?_, run_bind_ok.mpr ⟨s.columns[i], ?_, ?_⟩⟩
    · rw [hget]
      rfl
    · rw [List.getElem?_eq_getElem hi]
      rfl
    · exact congrArg some (hv.get (i := i) hi hi').toString
  unfold cellOf
  rw [hrun]

/-- The row of accepted values is shown in their canonical texts. -/
theorem textsOf_eq (hf : HeapDatabase.RowFits s.columns raws) :
    textsOf s ((List.zipWith valueOf s.columns raws).flatMap Value.bytes) =
      canonicalRow s.columns raws := by
  have htyped := Accepted.typed hf.typed
  have hlen := hf.typed.length_eq
  have hsum := hf.short
  apply List.ext_getElem
  · rw [textsOf, canonicalRow, List.length_map, List.length_range, List.length_zipWith, ← hlen,
      Nat.min_self]
  · intro i hi hi'
    have hi : i < s.columns.length := by
      rwa [textsOf, List.length_map, List.length_range] at hi
    have hv : i < (List.zipWith valueOf s.columns raws).length := by
      rw [List.length_zipWith, ← hlen, Nat.min_self]
      exact hi
    have hcell := cellOf_eq (by omega) htyped hi hv
    rw [List.getElem_zipWith] at hcell
    simp only [textsOf, canonicalRow, List.getElem_map, List.getElem_range, List.getElem_zipWith]
    exact hcell

end Executor
end PragmaticDB
