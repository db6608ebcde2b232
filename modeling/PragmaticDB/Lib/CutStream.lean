import PragmaticDB.Lib.ByteStream
import Mathlib.Data.Stream.Init

/-!
Streams that end too early. A program that reads into zeroed memory and never looks at the flag
cannot tell a file that was cut from one with zeros in place of what is missing.
-/
namespace ByteStream
open ByteBlock

variable {α β : Type}

/-- What is left of the stream, and zeros from there on. -/
def InStream.seen (s : InStream) : Stream' UInt8 :=
  if s.good then s.rest ++ₛ Stream'.const 0 else Stream'.const 0

theorem InStream.seen_good (bytes : List UInt8) :
    InStream.seen ⟨bytes, true⟩ = bytes ++ₛ Stream'.const 0 := rfl

theorem InStream.seen_bad {s : InStream} (h : s.good = false) : s.seen = Stream'.const 0 := by
  simp [seen, h]

theorem take_zeros (n : ℕ) : (Stream'.const (0 : UInt8)).take n = List.replicate n 0 := by
  induction n with
  | zero => rfl
  | succ n ih => rw [Stream'.take_succ, Stream'.tail_const, ih, List.replicate_succ]; rfl

theorem take_past (bytes : List UInt8) (n : ℕ) :
    (bytes ++ₛ Stream'.const 0).take (bytes.length + n) = bytes ++ List.replicate n 0 := by
  rw [← Stream'.append_take, take_zeros]

theorem drop_past (bytes : List UInt8) (n : ℕ) :
    (bytes ++ₛ Stream'.const 0).drop (bytes.length + n) = Stream'.const 0 := by
  rw [← Stream'.drop_drop, Stream'.drop_append_stream, Stream'.drop_const]

theorem append_zeros {bytes : List UInt8} (h : ∀ b ∈ bytes, b = 0) :
    bytes ++ₛ Stream'.const 0 = Stream'.const 0 := by
  have heq := Stream'.append_take_drop bytes.length (Stream'.const (0 : UInt8))
  rwa [Stream'.drop_const, take_zeros, ← List.eq_replicate_of_mem h] at heq

theorem zeros_of_append {bytes : List UInt8} {s : Stream' UInt8}
    (h : bytes ++ₛ s = Stream'.const 0) : ∀ b ∈ bytes, b = 0 := by
  have hlen := congrArg (Stream'.take bytes.length) h
  rw [Stream'.take_append_of_le_length _ _ _ le_rfl, List.take_length, take_zeros] at hlen
  intro b hb
  rw [hlen] at hb
  exact List.eq_of_mem_replicate hb

/-- Its value comes from the stream, with zeros for what is missing: a read that keeps the
stream good is a read of the bytes it took, one that does not has no effect afterwards, and what
it gives depends on nothing but the bytes and the zeros after them. -/
structure ZeroFilled (r : Reader α) : Prop where
  stuck : ∀ s, s.good = false → (r.run s).2 = s
  exact : ∀ bytes, (r.run ⟨bytes, true⟩).2.good = true → ∃ taken,
    bytes = taken ++ (r.run ⟨bytes, true⟩).2.rest ∧ Reads r taken (r.run ⟨bytes, true⟩).1
  seen : ∀ s s', s.seen = s'.seen →
    (r.run s).1 = (r.run s').1 ∧ (r.run s).2.seen = (r.run s').2.seen

/-- The bytes a read takes and its value stand in the relation `P`, missing bytes being zeros. -/
def Takes (r : Reader α) (P : List UInt8 → α → Prop) : Prop :=
  ∀ s, ∃ taken, s.seen = taken ++ₛ (r.run s).2.seen ∧ P taken (r.run s).1

/-! Steps that read nothing, and one read after another. -/

theorem ZeroFilled.pure (x : α) : ZeroFilled (pure x : Reader α) where
  stuck _ _ := rfl
  exact _ _ := ⟨[], rfl, Reads.pure x⟩
  seen _ _ h := ⟨rfl, h⟩

theorem ZeroFilled.bind {r : Reader α} {f : α → Reader β} (hr : ZeroFilled r)
    (hf : ∀ x, ZeroFilled (f x)) : ZeroFilled (r >>= f) where
  stuck := by
    intro s hs
    have hmid := hr.stuck s hs
    change ((f (r.run s).1).run (r.run s).2).2 = s
    rw [hmid]
    exact (hf _).stuck s hs
  exact := by
    intro bytes hgood
    change ((f (r.run ⟨bytes, true⟩).1).run (r.run ⟨bytes, true⟩).2).2.good = true at hgood
    change ∃ taken, bytes = taken ++
        ((f (r.run ⟨bytes, true⟩).1).run (r.run ⟨bytes, true⟩).2).2.rest ∧
      Reads (r >>= f) taken ((f (r.run ⟨bytes, true⟩).1).run (r.run ⟨bytes, true⟩).2).1
    have hmid : (r.run ⟨bytes, true⟩).2.good = true := by
      by_contra hbad
      rw [Bool.not_eq_true] at hbad
      rw [(hf _).stuck _ hbad, hbad] at hgood
      exact absurd hgood (by decide)
    obtain ⟨taken, htaken, hreads⟩ := hr.exact bytes hmid
    have hstate : (r.run ⟨bytes, true⟩).2 = ⟨(r.run ⟨bytes, true⟩).2.rest, true⟩ :=
      congrArg (InStream.mk _) hmid
    rw [hstate] at hgood ⊢
    obtain ⟨taken', htaken', hreads'⟩ := (hf _).exact _ hgood
    refine ⟨taken ++ taken', ?_, hreads.bind hreads'⟩
    rw [List.append_assoc, ← htaken']
    exact htaken
  seen := by
    intro s s' h
    obtain ⟨hval, hrest⟩ := hr.seen s s' h
    have hnext := (hf (r.run s).1).seen _ _ hrest
    rw [hval] at hnext
    change ((f (r.run s).1).run (r.run s).2).1 = ((f (r.run s').1).run (r.run s').2).1 ∧
      ((f (r.run s).1).run (r.run s).2).2.seen = ((f (r.run s').1).run (r.run s').2).2.seen
    rw [hval]
    exact hnext

theorem ZeroFilled.map {r : Reader α} (hr : ZeroFilled r) (g : α → β) :
    ZeroFilled (r >>= fun x => Pure.pure (g x)) := hr.bind fun x => ZeroFilled.pure (g x)

theorem Takes.pure {P : List UInt8 → α → Prop} {x : α} (h : P [] x) :
    Takes (pure x : Reader α) P := fun _ => ⟨[], rfl, h⟩

theorem Takes.bind {r : Reader α} {f : α → Reader β} {P : List UInt8 → α → Prop}
    {Q : List UInt8 → β → Prop} (hr : Takes r P)
    (hf : ∀ bs x, P bs x → Takes (f x) fun bs' y => Q (bs ++ bs') y) : Takes (r >>= f) Q := by
  intro s
  obtain ⟨taken, htaken, hP⟩ := hr s
  obtain ⟨taken', htaken', hQ⟩ := hf taken _ hP (r.run s).2
  refine ⟨taken ++ taken', ?_, hQ⟩
  rw [htaken, htaken', Stream'.append_append_stream]
  rfl

/-! Reads into zeroed memory. -/

theorem readBytes_seen (n : ℕ) (s : InStream) :
    ((readBytes (List.replicate n 0)).run s).1 = s.seen.take n ∧
      ((readBytes (List.replicate n 0)).run s).2.seen = s.seen.drop n := by
  obtain ⟨bytes, good⟩ := s
  change (readBytes (List.replicate n 0) ⟨bytes, good⟩).1 = _ ∧
    (readBytes (List.replicate n 0) ⟨bytes, good⟩).2.seen = _
  simp only [readBytes, List.length_replicate, List.drop_replicate]
  cases good with
  | false =>
    rw [InStream.seen_bad rfl, take_zeros, Stream'.drop_const]
    exact ⟨rfl, InStream.seen_bad rfl⟩
  | true =>
    rw [if_pos rfl, InStream.seen_good]
    split_ifs with hle
    · rw [Stream'.take_append_of_le_length _ _ _ hle, Stream'.drop_append_of_le_length _ _ _ hle]
      exact ⟨rfl, rfl⟩
    · obtain ⟨m, rfl⟩ := Nat.exists_eq_add_of_le (Nat.le_of_not_le hle)
      rw [take_past, drop_past, Nat.add_sub_cancel_left]
      exact ⟨rfl, rfl⟩

theorem readBytes_zeroFilled (n : ℕ) : ZeroFilled (readBytes (List.replicate n 0)) where
  stuck s hs := by
    change (readBytes (List.replicate n 0) s).2 = s
    simp [readBytes, hs]
  exact bytes hgood := by
    change (readBytes (List.replicate n 0) ⟨bytes, true⟩).2.good = true at hgood
    change ∃ taken, bytes = taken ++ (readBytes (List.replicate n 0) ⟨bytes, true⟩).2.rest ∧
      Reads _ taken (readBytes (List.replicate n 0) ⟨bytes, true⟩).1
    simp only [readBytes, if_true, List.length_replicate] at hgood ⊢
    split_ifs at hgood ⊢ with hle
    exact ⟨bytes.take n, (List.take_append_drop n bytes).symm,
      reads_bytes _ _ (by rw [List.length_replicate, List.length_take_of_le hle])⟩
  seen s s' h := by
    obtain ⟨hval, hrest⟩ := readBytes_seen n s
    obtain ⟨hval', hrest'⟩ := readBytes_seen n s'
    rw [hval, hval', hrest, hrest', h]
    exact ⟨rfl, rfl⟩

theorem readBytes_takes (n : ℕ) :
    Takes (readBytes (List.replicate n 0)) fun bs x => bs = x ∧ x.length = n := by
  intro s
  obtain ⟨hval, hrest⟩ := readBytes_seen n s
  refine ⟨s.seen.take n, ?_, ?_⟩
  · rw [hrest, Stream'.append_take_drop]
  · rw [hval]
    exact ⟨rfl, Stream'.length_take n s.seen⟩

theorem readNat_zeroFilled (k : ℕ) : ZeroFilled (readNat k 0) := by
  unfold readNat
  rw [leBytes_zero]
  exact (readBytes_zeroFilled k).map leNat

theorem readNat_takes (k : ℕ) :
    Takes (readNat k 0) fun bs v => bs = leBytes k v ∧ v < 256 ^ k := by
  unfold readNat
  rw [leBytes_zero]
  refine (readBytes_takes k).bind fun bs x hx => Takes.pure ?_
  obtain ⟨rfl, rfl⟩ := hx
  rw [leBytes_leNat le_rfl, Nat.sub_self, List.replicate_zero]
  exact ⟨rfl, leNat_lt bs⟩

theorem readNat_seen (k : ℕ) (s : InStream) :
    ((readNat k 0).run s).1 = leNat (s.seen.take k) ∧
      ((readNat k 0).run s).2.seen = s.seen.drop k := by
  obtain ⟨hval, hrest⟩ := readBytes_seen k s
  rw [← hval, ← hrest]
  unfold readNat
  rw [leBytes_zero]
  exact ⟨rfl, rfl⟩

theorem readMany_zeroFilled {item : Reader α} (h : ZeroFilled item) (n : ℕ) :
    ZeroFilled (readMany item n) := by
  induction n with
  | zero => exact ZeroFilled.pure []
  | succ n ih => exact h.bind fun x => ih.map (x :: ·)

theorem readMany_takes {item : Reader α} {encode : α → List UInt8}
    (h : Takes item fun bs x => bs = encode x) (n : ℕ) :
    Takes (readMany item n) fun bs xs => bs = xs.flatMap encode ∧ xs.length = n := by
  induction n with
  | zero => exact Takes.pure ⟨rfl, rfl⟩
  | succ n ih =>
    refine h.bind fun bs x hx => ih.bind fun bs' xs hxs => Takes.pure ?_
    obtain ⟨rfl, rfl⟩ := hxs
    rw [hx, List.append_nil, List.flatMap_cons]
    exact ⟨rfl, rfl⟩

/-! A file that was cut. -/

variable {r : Reader α} {bytes : List UInt8} {x : α} {k : ℕ}

/-- A read that does not find all its bytes ends where the stream ends. -/
theorem ZeroFilled.ends (hz : ZeroFilled r) (hr : Reads r bytes x) (hk : k < bytes.length) :
    (r.run ⟨bytes.take k, true⟩).2.seen = Stream'.const 0 := by
  apply InStream.seen_bad
  by_contra hgood
  rw [Bool.not_eq_false] at hgood
  obtain ⟨taken, htaken, hreads⟩ := hz.exact _ hgood
  -- the whole would leave what was cut off
  have hwhole := hreads ((r.run ⟨bytes.take k, true⟩).2.rest ++ bytes.drop k)
  rw [← List.append_assoc, ← htaken, List.take_append_drop] at hwhole
  have hall := hr []
  rw [List.append_nil, hwhole] at hall
  have hnil := (List.append_eq_nil_iff.mp (congrArg InStream.rest (Prod.ext_iff.mp hall).2)).2
  exact absurd (List.drop_eq_nil_iff.mp hnil) (Nat.not_le.mpr hk)

/-- A numeral that was cut, or the whole of it, and the rest. -/
theorem readNat_cut {s : InStream} {j v k : ℕ} {bs : List UInt8}
    (h : s.seen = (leBytes j v ++ bs).take k ++ₛ Stream'.const 0) :
    ((readNat j 0).run s).1 = leNat ((leBytes j v).take k) ∧
      ((readNat j 0).run s).2.seen = bs.take (k - j) ++ₛ Stream'.const 0 := by
  obtain ⟨hval, hrest⟩ := readNat_seen j s
  rw [hval, hrest, h, List.take_append, leBytes_length]
  rcases Nat.lt_or_ge k j with hk | hk
  · have hlen : ((leBytes j v).take k).length = k := by
      rw [List.length_take, leBytes_length, Nat.min_eq_left hk.le]
    have htake := take_past ((leBytes j v).take k) (j - k)
    have hdrop := drop_past ((leBytes j v).take k) (j - k)
    rw [hlen, Nat.add_sub_cancel' hk.le] at htake hdrop
    rw [Nat.sub_eq_zero_of_le hk.le, List.take_zero, List.append_nil, htake, hdrop,
      leNat_append_zeros]
    exact ⟨rfl, rfl⟩
  · have hlen := leBytes_length j v
    have hdrop := Stream'.drop_append_stream (leBytes j v)
      (bs.take (k - j) ++ₛ Stream'.const 0)
    rw [hlen] at hdrop
    rw [List.take_of_length_le (hlen.trans_le hk), Stream'.append_append_stream, hdrop,
      Stream'.take_append_of_le_length _ _ _ hlen.ge, List.take_of_length_le hlen.le]
    exact ⟨rfl, rfl⟩

/-- Zeros at the end need not be there. -/
theorem ZeroFilled.without_zeros (hz : ZeroFilled r) (hr : Reads r bytes x)
    (hzero : ∀ b ∈ bytes.drop k, b = 0) : (r.run ⟨bytes.take k, true⟩).1 = x := by
  have hall := hr []
  rw [List.append_nil] at hall
  have hseen : InStream.seen ⟨bytes.take k, true⟩ = InStream.seen ⟨bytes, true⟩ := by
    rw [InStream.seen_good, InStream.seen_good, ← append_zeros hzero,
      ← Stream'.append_append_stream, List.take_append_drop]
    rw [append_zeros hzero]
  rw [(hz.seen _ _ hseen).1, hall]

end ByteStream
