import PragmaticDB.Query.Value

/-!
Integers as texts. `std::stoi` reads the longest prefix that is a number and looks at nothing
behind it; `std::to_string` writes the digits of a number.
-/
namespace PragmaticDB

theorem isDigit_ne {c : UInt8} (h : isDigit c) : isSpace c = false ∧ c ≠ 43 ∧ c ≠ 45 := by
  have hc : 48 ≤ c.toNat := by
    simp only [isDigit, Bool.and_eq_true, decide_eq_true_eq, UInt8.le_iff_toNat_le] at h
    exact h.1
  refine ⟨?_, ?_, ?_⟩
  · simp only [isSpace, Bool.or_eq_false_iff, Bool.and_eq_false_iff, beq_eq_false_iff_ne,
      decide_eq_false_iff_not, UInt8.le_iff_toNat_le]
    refine ⟨?_, .inr ?_⟩
    · rintro rfl
      revert hc
      decide
    · change ¬ c.toNat ≤ 13
      omega
  · rintro rfl
    revert hc
    decide
  · rintro rfl
    revert hc
    decide

/-- An optional sign. -/
def IsSign (sign : List UInt8) : Prop := sign = [] ∨ sign = [43] ∨ sign = [45]

/-- At least one digit and nothing else. -/
def IsDigits (ds : List UInt8) : Prop := ds ≠ [] ∧ ∀ c ∈ ds, isDigit c

/-- What comes after the digits of a number. -/
def EndsDigits (rest : List UInt8) : Prop := ∀ c ∈ rest.head?, isDigit c = false

/-- `raw` is a numeral, an optional sign and digits, and `n` is its number. -/
def Denotes (raw : List UInt8) (n : ℤ) : Prop :=
  ∃ sign ds, raw = sign ++ ds ∧ IsSign sign ∧ IsDigits ds ∧ n = signedValue (sign = [45]) ds

/-- The numbers an `int` holds. -/
def FitsInt (n : ℤ) : Prop := -2147483648 ≤ n ∧ n < 2147483648

theorem stoi_fits {raw : List UInt8} {n : ℤ} (h : stoi raw = .ok n) : FitsInt n := by
  unfold stoi stoiFrom at h
  generalize List.takeWhile isDigit _ = ds at h
  simp only at h
  split_ifs at h with _ hrange
  rw [← Except.ok.inj h]
  exact hrange

theorem takeWhile_digits {ds rest : List UInt8} (hd : IsDigits ds) (hr : EndsDigits rest) :
    (ds ++ rest).takeWhile isDigit = ds := by
  rw [List.takeWhile_append_of_pos hd.2]
  cases rest with
  | nil => exact List.append_nil ds
  | cons c rest =>
    have hc : isDigit c = false := hr c rfl
    rw [List.takeWhile_cons_of_neg (by simp [hc]), List.append_nil]

/-- `std::stoi` of an optional sign, digits, and whatever is behind them. -/
theorem stoi_front {sign ds rest : List UInt8} (hsign : IsSign sign) (hd : IsDigits ds)
    (hr : EndsDigits rest) (hn : FitsInt (signedValue (sign = [45]) ds)) :
    stoi (sign ++ (ds ++ rest)) = .ok (signedValue (sign = [45]) ds) := by
  have htake := takeWhile_digits hd hr
  obtain ⟨d, ds, rfl⟩ := List.exists_cons_of_ne_nil hd.1
  obtain ⟨hspace, hplus, hminus⟩ := isDigit_ne (hd.2 d List.mem_cons_self)
  have hstart : (sign ++ (d :: ds ++ rest)).dropWhile isSpace = sign ++ (d :: ds ++ rest) := by
    rcases hsign with rfl | rfl | rfl
    · rw [List.nil_append, List.cons_append, List.dropWhile_cons, hspace]
      rfl
    · rfl
    · rfl
  have hdigits : (if (sign ++ (d :: ds ++ rest)).head? = some 43 ∨
      (sign ++ (d :: ds ++ rest)).head? = some 45 then (sign ++ (d :: ds ++ rest)).tail
      else sign ++ (d :: ds ++ rest)).takeWhile isDigit = d :: ds := by
    rcases hsign with rfl | rfl | rfl
    · rw [if_neg (by simp [hplus, hminus])]
      exact htake
    · rw [if_pos (by simp)]
      exact htake
    · rw [if_pos (by simp)]
      exact htake
  have hneg : decide ((sign ++ (d :: ds ++ rest)).head? = some 45) = decide (sign = [45]) := by
    rcases hsign with rfl | rfl | rfl <;> simp [hminus]
  unfold stoi stoiFrom
  rw [hstart]
  simp only [hdigits, hneg, if_neg hd.1, if_pos (show _ ∧ _ from hn)]

theorem Denotes.stoi {raw : List UInt8} {n : ℤ} (h : Denotes raw n) (hn : FitsInt n) :
    stoi raw = .ok n := by
  obtain ⟨sign, ds, rfl, hsign, hd, rfl⟩ := h
  have hend : EndsDigits [] := nofun
  have hprefix := stoi_front hsign hd hend hn
  rwa [List.append_nil] at hprefix

/-- What `std::stoi` takes starts with a numeral. -/
theorem stoi_ok {raw : List UInt8} {n : ℤ} (hraw : ∀ c ∈ raw, isSpace c = false)
    (h : stoi raw = .ok n) : FitsInt n ∧ ∃ num rest, raw = num ++ rest ∧ Denotes num n ∧
      EndsDigits rest := by
  have hstart : raw.dropWhile isSpace = raw := by
    cases raw with
    | nil => rfl
    | cons c raw => rw [List.dropWhile_cons, hraw c List.mem_cons_self]; rfl
  obtain ⟨sign, body, rfl, hsign, hbody, hneg⟩ : ∃ sign body, raw = sign ++ body ∧ IsSign sign ∧
      (if raw.head? = some 43 ∨ raw.head? = some 45 then raw.tail else raw) = body ∧
      decide (raw.head? = some 45) = decide (sign = [45]) := by
    by_cases hplus : raw.head? = some 43
    · obtain ⟨rest, rfl⟩ := List.head?_eq_some_iff.mp hplus
      exact ⟨[43], rest, rfl, .inr (.inl rfl), rfl, rfl⟩
    by_cases hminus : raw.head? = some 45
    · obtain ⟨rest, rfl⟩ := List.head?_eq_some_iff.mp hminus
      exact ⟨[45], rest, rfl, .inr (.inr rfl), rfl, rfl⟩
    · exact ⟨[], raw, rfl, .inl rfl, if_neg (by tauto), by simp [hminus]⟩
  unfold stoi stoiFrom at h
  rw [hstart] at h
  simp only [hbody, hneg] at h
  split_ifs at h with hne hrange
  obtain rfl := Except.ok.inj h
  refine ⟨hrange, sign ++ body.takeWhile isDigit, body.dropWhile isDigit, ?_, ?_, ?_⟩
  · rw [List.append_assoc, List.takeWhile_append_dropWhile]
  · exact ⟨sign, _, rfl, hsign, ⟨hne, fun c hc => List.mem_takeWhile_imp hc⟩, rfl⟩
  · intro c hc
    have hhead := List.head?_dropWhile_not isDigit body
    rw [hc] at hhead
    simpa using hhead

/-- Behind its first character a numeral has digits only. -/
theorem Denotes.tail {raw : List UInt8} {n : ℤ} (h : Denotes raw n) :
    raw ≠ [] ∧ ∀ c ∈ raw.tail, isDigit c := by
  obtain ⟨sign, ds, rfl, hsign, hd, -⟩ := h
  have hne : sign ++ ds ≠ [] := fun he => hd.1 (List.append_eq_nil_iff.mp he).2
  rcases hsign with rfl | rfl | rfl
  · exact ⟨hne, fun c hc => hd.2 c (List.mem_of_mem_tail hc)⟩
  · exact ⟨hne, hd.2⟩
  · exact ⟨hne, hd.2⟩

namespace ValueFactory
variable {raw : List UInt8}

theorem fromString_integer {v : Value} :
    fromString raw .integer = .ok v ↔ ∃ n, stoi raw = .ok n ∧ v = ⟨.integer, .int32 n⟩ := by
  change (stoi raw).map _ = .ok v ↔ _
  cases stoi raw with
  | error e => exact iff_of_false nofun nofun
  | ok n =>
    constructor
    · rintro h
      exact ⟨n, rfl, (Except.ok.inj h).symm⟩
    · rintro ⟨m, hm, rfl⟩
      obtain rfl := Except.ok.inj hm
      rfl

/-- Just the numerals of 32-bit numbers are taken, each for its number. -/
def TakesNumerals (raw : List UInt8) : Prop :=
  ∀ v, fromString raw .integer = .ok v ↔ ∃ n, Denotes raw n ∧ FitsInt n ∧ v = ⟨.integer, .int32 n⟩

/-- A numeral of a 32-bit number has something else right behind it. -/
def TrailingText (raw : List UInt8) : Prop :=
  ∃ num rest n, raw = num ++ rest ∧ Denotes num n ∧ FitsInt n ∧ rest ≠ [] ∧ EndsDigits rest

theorem not_trailing {n : ℤ} (h : Denotes raw n) : ¬ TrailingText raw := by
  rintro ⟨num, rest, m, rfl, hnum, -, hne, hr⟩
  obtain ⟨c, rest, rfl⟩ := List.exists_cons_of_ne_nil hne
  have hc : isDigit c = false := hr c rfl
  have hmem : c ∈ (num ++ c :: rest).tail := by
    rw [List.tail_append_of_ne_nil hnum.tail.1]
    simp
  rw [h.tail.2 c hmem] at hc
  cases hc

/-- The conversion takes just the numerals, unless there is something behind one. -/
theorem takesNumerals_iff (hraw : ∀ c ∈ raw, isSpace c = false) :
    TakesNumerals raw ↔ ¬ TrailingText raw := by
  constructor
  · intro h ht
    obtain ⟨num, rest, n, rfl, ⟨sign, ds, rfl, hsign, hd, rfl⟩, hn, -, hr⟩ := id ht
    have hstoi := stoi_front hsign hd hr hn
    rw [← List.append_assoc] at hstoi
    obtain ⟨m, hm, -, -⟩ := (h _).mp (fromString_integer.mpr ⟨_, hstoi, rfl⟩)
    exact not_trailing hm ht
  · intro h v
    rw [fromString_integer]
    constructor
    · rintro ⟨n, hn, rfl⟩
      obtain ⟨hrange, num, rest, rfl, hnum, hr⟩ := stoi_ok hraw hn
      cases rest with
      | nil =>
        rw [List.append_nil]
        exact ⟨n, hnum, hrange, rfl⟩
      | cons c rest => exact absurd ⟨num, _, n, rfl, hnum, hrange, List.cons_ne_nil _ _, hr⟩ h
    · rintro ⟨n, hnum, hrange, rfl⟩
      exact ⟨n, hnum.stoi hrange, rfl⟩

theorem plus_seven_taken : TakesNumerals (str "+7") := by
  have hseven : Denotes (str "+7") 7 :=
    ⟨[43], [55], by decide +kernel, .inr (.inl rfl), ⟨by decide, by decide +kernel⟩,
      by decide +kernel⟩
  exact (takesNumerals_iff (by decide +kernel)).mpr (not_trailing hseven)

/-- The letters are ignored. -/
theorem letters_ignored : str "12abc" ≠ [] ∧ (∀ c ∈ str "12abc", isSpace c = false) ∧
    fromString (str "12abc") .integer = .ok ⟨.integer, .int32 12⟩ ∧
    ¬ TakesNumerals (str "12abc") := by
  have htaken : stoi (str "12abc") = .ok 12 := by decide +kernel
  have hletter : (97 : UInt8) ∈ (str "12abc").tail := by decide +kernel
  have hval := fromString_integer.mpr ⟨12, htaken, rfl⟩
  refine ⟨by decide +kernel, by decide +kernel, hval, fun h => ?_⟩
  obtain ⟨n, hn, -, -⟩ := (h _).mp hval
  exact absurd (hn.tail.2 97 hletter) (by decide)

end ValueFactory

/-! The texts that numbers are printed as. -/

theorem digit_toNat {n : ℕ} {c : Char} (hc : c ∈ Nat.toDigits 10 n) :
    48 ≤ c.toNat ∧ c.toNat ≤ 57 ∧ c.toNat.toUInt8.toNat = c.toNat := by
  have hd : c.isDigit := Nat.isDigit_of_mem_toDigits (by decide) (by decide) hc
  simp only [Char.isDigit, Bool.and_eq_true, decide_eq_true_eq] at hd
  have hlo : 48 ≤ c.toNat := hd.1
  have hhi : c.toNat ≤ 57 := hd.2
  have hmod : c.toNat % 256 = c.toNat := Nat.mod_eq_of_lt (by omega)
  exact ⟨hlo, hhi, by simp [hmod]⟩

theorem decimal_digits (n : ℕ) : IsDigits (decimal n) := by
  constructor
  · exact fun he => Nat.toDigits_ne_nil (List.map_eq_nil_iff.mp he)
  · intro c hc
    obtain ⟨d, hd, rfl⟩ := List.mem_map.mp hc
    obtain ⟨hlo, hhi, hsame⟩ := digit_toNat hd
    simp only [isDigit, Bool.and_eq_true, decide_eq_true_eq, UInt8.le_iff_toNat_le, hsame]
    exact ⟨hlo, hhi⟩

theorem digitsValue_decimal (n : ℕ) : digitsValue (decimal n) = n := by
  have hfold : digitsValue (decimal n) = Nat.ofDigitChars 10 (Nat.toDigits 10 n) 0 := by
    unfold digitsValue decimal
    rw [Nat.ofDigitChars_eq_foldl, List.foldl_map]
    apply List.foldl_ext
    intro m c hc
    rw [(digit_toNat hc).2.2]
    rfl
  rw [hfold, Nat.ofDigitChars_ten_toDigits]

namespace ValueFactory

/-- `std::to_string` writes a numeral of its number. -/
theorem decimalInt_denotes (n : ℤ) : Denotes (decimalInt n) n := by
  unfold decimalInt
  split_ifs with hneg
  · refine ⟨[45], decimal n.natAbs, rfl, .inr (.inr rfl), decimal_digits _, ?_⟩
    simp only [signedValue, decide_true, if_true, digitsValue_decimal]
    omega
  · refine ⟨[], decimal n.natAbs, rfl, .inl rfl, decimal_digits _, ?_⟩
    have hne : ([] : List UInt8) ≠ [45] := nofun
    simp only [signedValue, hne, decide_false, Bool.false_eq_true, if_false, digitsValue_decimal]
    omega

end ValueFactory

/-! The values that have texts. -/

/-- A 32-bit number, or one of the two truth values. -/
inductive Value.Sql : TypeId → Value → Prop where
  | integer {n : ℤ} (hn : FitsInt n) : Sql .integer ⟨.integer, .int32 n⟩
  | boolean {n : ℤ} (hn : n = 0 ∨ n = 1) : Sql .boolean ⟨.boolean, .int8 n⟩

theorem ValueFactory.fromString_sql {raw : List UInt8} {t : TypeId} {v : Value}
    (h : fromString raw t = .ok v) : v.Sql t := by
  cases t with
  | integer =>
    obtain ⟨n, hn, rfl⟩ := fromString_integer.mp h
    exact .integer (stoi_fits hn)
  | boolean =>
    unfold fromString at h
    simp only at h
    split_ifs at h
    · cases h
      exact .boolean (.inr rfl)
    · cases h
      exact .boolean (.inl rfl)
  | invalid => cases h
  | unnamed raw => cases h

/-- A value is read back from its text. -/
theorem Value.Sql.read_back {t : TypeId} {v : Value} (h : v.Sql t) :
    ∃ text, ValueFactory.toString v t = .ok text ∧ ValueFactory.fromString text t = .ok v := by
  cases h with
  | @integer n hn =>
    have hread := (ValueFactory.decimalInt_denotes n).stoi hn
    exact ⟨_, rfl, ValueFactory.fromString_integer.mpr ⟨n, hread, rfl⟩⟩
  | boolean hn =>
    rcases hn with rfl | rfl
    · exact ⟨_, rfl, by decide +kernel⟩
    · exact ⟨_, rfl, by decide +kernel⟩
end PragmaticDB
