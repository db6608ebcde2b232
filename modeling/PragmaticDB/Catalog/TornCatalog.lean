import PragmaticDB.Catalog.CatalogCodec
import PragmaticDB.Lib.CutStream

/-!
Loading a catalog file of which only the first bytes were written. No read of `LoadCatalog` is
tested: what is missing is read as zeros, and the loop goes on for as many tables as the header
announces.
-/
namespace PragmaticDB
open ByteBlock ByteStream
namespace Catalog

/-! What `LoadCatalog` makes of missing bytes. -/

theorem readString_zeroFilled : ZeroFilled readString :=
  (readNat_zeroFilled 4).bind fun len => readBytes_zeroFilled len

theorem readInt32_zeroFilled : ZeroFilled readInt32 := (readNat_zeroFilled 4).map _

theorem readColumn_zeroFilled : ZeroFilled readColumn :=
  readString_zeroFilled.bind fun _ => (readNat_zeroFilled 4).map _

theorem readTable_zeroFilled (files : TableFiles) : ZeroFilled (readTable files) :=
  (readNat_zeroFilled 4).bind fun _ => readString_zeroFilled.bind fun _ =>
    (readNat_zeroFilled 4).bind fun numCols =>
      (readMany_zeroFilled readColumn_zeroFilled numCols).bind fun _ =>
        (readNat_zeroFilled 4).bind fun numPages =>
          (readMany_zeroFilled readInt32_zeroFilled numPages).bind fun _ =>
            readInt32_zeroFilled.map _

theorem loadTables_zeroFilled (files : TableFiles) (n : ℕ) (c : Catalog) :
    ZeroFilled (loadTables files n c) := by
  induction n generalizing c with
  | zero => exact ZeroFilled.pure c
  | succ n ih => exact (readTable_zeroFilled files).bind fun info => ih (c.register info)

/-! A field that was read is written back with the bytes it was read from. -/

theorem readString_takes : Takes readString fun bs s => bs = writeString s := by
  refine (readNat_takes 4).bind fun bs len hlen => ?_
  intro st
  obtain ⟨taken, htaken, rfl, hs⟩ := readBytes_takes len st
  refine ⟨_, htaken, ?_⟩
  obtain ⟨rfl, hlt⟩ := hlen
  have hlt : len < 4294967296 := hlt
  rw [writeString, hs, Nat.mod_eq_of_lt hlt, List.take_of_length_le hs.le]

theorem readInt32_takes : Takes readInt32 fun bs p => bs = writeInt32 p := by
  refine (readNat_takes 4).bind fun bs raw hraw => Takes.pure ?_
  obtain ⟨rfl, hlt⟩ := hraw
  have hlt : raw < 4294967296 := hlt
  have hback : (Int.bmod raw 4294967296 % 4294967296).toNat = raw := by
    rw [Int.bmod_def]
    omega
  rw [List.append_nil, writeInt32, hback]

theorem TypeId.toRaw_ofRaw (raw : ℕ) : (TypeId.ofRaw raw).toRaw = raw := by
  unfold TypeId.ofRaw
  split <;> rfl

theorem readColumn_takes : Takes readColumn fun bs c => bs = writeColumn c := by
  refine readString_takes.bind fun bs name hname => (readNat_takes 4).bind fun bs' raw hraw =>
    Takes.pure ?_
  obtain ⟨rfl, -⟩ := hraw
  rw [hname, List.append_nil, writeColumn, TypeId.toRaw_ofRaw]

/-- The bytes of a table in the file. -/
def row (info : TableInfo) : List UInt8 := writeTable ⟨info.oid, info⟩

theorem readTable_takes (files : TableFiles) :
    Takes (readTable files) fun bs info => bs = row info := by
  refine (readNat_takes 4).bind fun b₁ oid h₁ => readString_takes.bind fun b₂ name h₂ =>
    (readNat_takes 4).bind fun b₃ numCols h₃ =>
    (readMany_takes readColumn_takes numCols).bind fun b₄ columns h₄ =>
    (readNat_takes 4).bind fun b₅ numPages h₅ =>
    (readMany_takes readInt32_takes numPages).bind fun b₆ pageIds h₆ =>
    readInt32_takes.bind fun b₇ next h₇ => Takes.pure ?_
  obtain ⟨rfl, -⟩ := h₁
  obtain ⟨rfl, -⟩ := h₃
  obtain ⟨rfl, rfl⟩ := h₄
  obtain ⟨rfl, -⟩ := h₅
  obtain ⟨rfl, rfl⟩ := h₆
  rw [h₂, h₇, List.append_nil]
  rfl

theorem row_congr {info info' : TableInfo} (h : listing info = listing info') :
    row info = row info' := by
  unfold listing at h
  injection h with hoid hname hschema hpages hnext
  simp only [row, writeTable, hoid, hname, hschema, hpages, hnext]

/-! What the loaded catalog should be. -/

/-- `c` has a table with just this listing. -/
def Knows (c : Catalog) (l : Listing) : Prop :=
  ∃ info, c.tables.lookup l.oid = some info ∧ listing info = l

theorem Knows.eq {c : Catalog} {l : Listing} {info : TableInfo} (hk : c.Knows l)
    (hl : c.tables.lookup l.oid = some info) : listing info = l := by
  obtain ⟨info', hl', he⟩ := hk
  rw [Option.some.inj (hl.symm.trans hl'), he]

theorem Knows.oid_lt {c : Catalog} {l : Listing} (hf : c.Fits) (hk : c.Knows l) :
    l.oid < 4294967296 := by
  obtain ⟨info, hl, rfl⟩ := hk
  exact (hf.tables _ _ hl).oid

/-- Every table of `c'` is the table `c` has under the same id, names lead to tables of that
name, and every table is reached by its name. -/
structure OnlyFrom (c' c : Catalog) : Prop where
  tables : ∀ oid info, c'.tables.lookup oid = some info →
    ∃ info', c.tables.lookup oid = some info' ∧ listing info = listing info'
  names : ∀ name oid, c'.tableNames.lookup name = some oid →
    ∃ info, c'.tables.lookup oid = some info ∧ info.name = name
  named : ∀ oid info, c'.tables.lookup oid = some info →
    ∃ oid', c'.tableNames.lookup info.name = some oid'

theorem onlyFrom_start (c : Catalog) (next : ℕ) : OnlyFrom { empty with nextTableOid := next } c :=
  ⟨nofun, nofun, nofun⟩

variable {c c' : Catalog}

theorem OnlyFrom.register (h : OnlyFrom c' c) {info : TableInfo} (hk : c.Knows (listing info)) :
    OnlyFrom (c'.register info) c := by
  obtain ⟨info₀, hl₀, he₀⟩ := hk
  constructor
  · intro oid i hl
    rw [lookup_register_tables] at hl
    split_ifs at hl with hoid
    · obtain rfl := Option.some.inj hl
      rw [hoid]
      exact ⟨info₀, hl₀, he₀.symm⟩
    · exact h.tables oid i hl
  · intro name oid hl
    rw [lookup_register_names] at hl
    rw [lookup_register_tables]
    split_ifs at hl with hname
    · obtain rfl := Option.some.inj hl
      exact ⟨info, if_pos rfl, hname.symm⟩
    · obtain ⟨i, hi, hin⟩ := h.names name oid hl
      have hne : oid ≠ info.oid := by
        rintro rfl
        obtain ⟨i', hi', he'⟩ := h.tables _ i hi
        obtain rfl := Option.some.inj (hl₀.symm.trans hi')
        exact hname (hin.symm.trans (congrArg Listing.name (he'.trans he₀)))
      exact ⟨i, by rw [if_neg hne, hi], hin⟩
  · intro oid i hl
    rw [lookup_register_tables] at hl
    rw [lookup_register_names]
    by_cases hname : i.name = info.name
    · exact ⟨info.oid, if_pos hname⟩
    · rw [if_neg hname]
      split_ifs at hl with hoid
      · exact absurd (congrArg TableInfo.name (Option.some.inj hl).symm) hname
      · exact h.named oid i hl

theorem OnlyFrom.knows (h : OnlyFrom c' c) (info : TableInfo)
    (hl : c'.tables.lookup info.oid = some info) : c.Knows (listing info) := by
  obtain ⟨info', hl', he⟩ := h.tables _ _ hl
  exact ⟨info', hl', he.symm⟩

/-- What is read where nothing is left: a table with no name, no columns and no pages. -/
def blank (oid : ℕ) : Listing := ⟨oid, [], Schema.new [], [], 0⟩

/-- With `left` bytes there of a list of tables, all the load registers are tables of `c`: in
the table that is cut nothing but zeros is missing, or the cut is inside its id and `c` has a
blank table with the id that is read; and `c` has a blank table 0 if another table follows. -/
def TornOk (c : Catalog) : List TableInfo → ℕ → Prop
  | [], _ => True
  | info :: infos, left =>
    if (row info).length ≤ left then TornOk c infos (left - (row info).length)
    else ((∀ b ∈ (row info).drop left, b = 0) ∨
        left < 4 ∧ c.Knows (blank (leNat ((leBytes 4 info.oid).take left)))) ∧
      (infos ≠ [] → c.Knows (blank 0))

/-- The number of tables in the header, of which the first `k` bytes were written. -/
def announced (c : Catalog) (k : ℕ) : ℕ := leNat ((leBytes 4 c.tables.entries.length).take (k - 4))

/-! The table in which the file ends. -/

variable (files : TableFiles) {info : TableInfo} {left : ℕ}

theorem blank_fits {oid : ℕ} (h : oid < 4294967296) : TableFits (reopen files (blank oid)) := by
  have hnone : 0 < 4294967296 := by decide
  have hnext : Int32 0 := ⟨by decide, by decide⟩
  exact ⟨hnone, h, hnone, nofun, hnone, nofun, hnext⟩

theorem row_blank (oid : ℕ) :
    row (reopen files (blank oid)) = leBytes 4 oid ++ List.replicate 16 0 := by
  have htail : writeString [] ++ (leBytes 4 0 ++ (leBytes 4 0 ++ writeInt32 0)) =
      List.replicate 16 0 := by decide
  exact congrArg (leBytes 4 oid ++ ·) htail

/-- After an id there is nothing. -/
theorem readTable_blank {s : InStream} {oid : ℕ} (hoid : oid < 4294967296)
    (hs : s.seen = leBytes 4 oid ++ₛ Stream'.const 0) :
    ((readTable files).run s).1 = reopen files (blank oid) ∧
      ((readTable files).run s).2.seen = Stream'.const 0 := by
  have hread := reads_table files (blank_fits files hoid) []
  have hseen : s.seen = InStream.seen ⟨row (reopen files (blank oid)), true⟩ := by
    rw [hs, InStream.seen_good, row_blank, Stream'.append_append_stream,
      append_zeros fun b hb => List.eq_of_mem_replicate hb]
  obtain ⟨hval, hrest⟩ := (readTable_zeroFilled files).seen _ _ hseen
  rw [List.append_nil] at hread
  change (readTable files).run ⟨row (reopen files (blank oid)), true⟩ = _ at hread
  rw [hval, hrest, hread]
  exact ⟨rfl, rfl⟩

theorem loadTables_blank (c' : Catalog) {s : InStream} (hs : s.seen = Stream'.const 0) (n : ℕ) :
    ((loadTables files n c').run s).1 =
      (fun c => c.register (reopen files (blank 0)))^[n] c' := by
  induction n generalizing c' s with
  | zero => rfl
  | succ n ih =>
    have hzero : s.seen = leBytes 4 0 ++ₛ Stream'.const 0 := by
      rw [hs, leBytes_zero, append_zeros fun b hb => List.eq_of_mem_replicate hb]
    obtain ⟨hval, hrest⟩ := readTable_blank files (by decide) hzero
    have hnext := ih (c'.register ((readTable files).run s).1) hrest
    rw [hval] at hnext
    rw [Function.iterate_succ_apply]
    refine Eq.trans ?_ hnext
    rw [← hval]
    rfl

theorem OnlyFrom.blanks (h : OnlyFrom c' c) (n : ℕ) (hk : n ≠ 0 → c.Knows (blank 0)) :
    OnlyFrom ((fun c => c.register (reopen files (blank 0)))^[n] c') c := by
  induction n with
  | zero => exact h
  | succ n ih =>
    rw [Function.iterate_succ_apply']
    have hblank : c.Knows (blank 0) := hk (Nat.succ_ne_zero n)
    exact (ih fun _ => hblank).register hblank

theorem lookup_blanks {oid : ℕ} (ho : oid ≠ 0) (n : ℕ) :
    ((fun c => c.register (reopen files (blank 0)))^[n] c').tables.lookup oid =
      c'.tables.lookup oid := by
  induction n with
  | zero => rfl
  | succ n ih =>
    rw [Function.iterate_succ_apply', lookup_register_tables]
    exact (if_neg ho).trans ih

/-- A table and then blank ones: the last of each id stays. -/
theorem onlyFrom_blanks (h : OnlyFrom c' c) (n : ℕ)
    (hzero : info.oid = 0 → c.Knows (blank 0) → c.Knows (listing info)) :
    OnlyFrom ((fun c => c.register (reopen files (blank 0)))^[n] (c'.register info)) c ↔
      c.Knows (listing info) ∧ (n ≠ 0 → c.Knows (blank 0)) := by
  constructor
  · intro hall
    have hblank : n ≠ 0 → c.Knows (blank 0) := by
      intro hn
      obtain ⟨m, rfl⟩ := Nat.exists_eq_succ_of_ne_zero hn
      rw [Function.iterate_succ_apply'] at hall
      apply hall.knows (reopen files (blank 0))
      rw [lookup_register_tables, if_pos rfl]
    refine ⟨?_, hblank⟩
    by_cases ho : info.oid = 0
    · by_cases hn : n = 0
      · subst hn
        apply hall.knows
        rw [Function.iterate_zero, id, lookup_register_tables, if_pos rfl]
      · exact hzero ho (hblank hn)
    · apply hall.knows
      rw [lookup_blanks files ho, lookup_register_tables, if_pos rfl]
  · rintro ⟨hk, hblank⟩
    exact (h.register hk).blanks files n hblank

theorem le_length_row (info : TableInfo) : 4 ≤ (row info).length := by
  rw [row, writeTable, List.length_append, leBytes_length]
  exact Nat.le_add_right _ _

theorem take_row (info : TableInfo) : (row info).take 4 = leBytes 4 info.oid :=
  List.take_left' (leBytes_length 4 info.oid)

theorem eq_of_leBytes {a b : ℕ} (ha : a < 4294967296) (hb : b < 4294967296)
    (h : leBytes 4 a = leBytes 4 b) : a = b := by
  have hnat := congrArg leNat h
  have ha : a < 256 ^ 4 := ha
  have hb : b < 256 ^ 4 := hb
  rwa [leNat_leBytes, leNat_leBytes, Nat.mod_eq_of_lt ha, Nat.mod_eq_of_lt hb] at hnat

/-- From four bytes on the id is known. -/
theorem torn_oid (info : TableInfo) (hleft : 4 ≤ left) :
    leBytes 4 ((readTable files).run ⟨(row info).take left, true⟩).1.oid = leBytes 4 info.oid := by
  obtain ⟨taken, htaken, rfl⟩ := readTable_takes files ⟨(row info).take left, true⟩
  have hlong : 4 ≤ ((row info).take left).length := by
    rw [List.length_take]
    exact le_min hleft (le_length_row info)
  have hfirst := congrArg (Stream'.take 4) htaken
  rw [InStream.seen_good, Stream'.take_append_of_le_length _ _ _ hlong,
    Stream'.take_append_of_le_length _ _ _ (le_length_row _), take_row, List.take_take,
    Nat.min_eq_left hleft, take_row] at hfirst
  exact hfirst.symm

/-- Inside the id, its first bytes are the whole id. -/
theorem torn_blank (hleft : left < 4) :
    ((readTable files).run ⟨(row info).take left, true⟩).1 =
      reopen files (blank (leNat ((leBytes 4 info.oid).take left))) := by
  have hcut : (row info).take left = (leBytes 4 info.oid).take left := by
    rw [← take_row, List.take_take, Nat.min_eq_left hleft.le]
  have hlen : ((leBytes 4 info.oid).take left).length = left := by
    rw [List.length_take, leBytes_length, Nat.min_eq_left hleft.le]
  have hlt : leNat ((leBytes 4 info.oid).take left) < 4294967296 := by
    refine (leNat_lt _).trans_le ?_
    rw [hlen]
    exact Nat.pow_le_pow_right (by decide) hleft.le
  apply (readTable_blank files hlt ?_).1
  rw [InStream.seen_good, hcut, leBytes_leNat (hlen.trans_le hleft.le),
    Stream'.append_append_stream,
    append_zeros fun b hb => List.eq_of_mem_replicate hb]

/-- The table that is cut is a table of `c`. -/
theorem knows_torn (hf : c.Fits) (hl : c.tables.lookup info.oid = some info) :
    c.Knows (listing ((readTable files).run ⟨(row info).take left, true⟩).1) ↔
      (∀ b ∈ (row info).drop left, b = 0) ∨
        left < 4 ∧ c.Knows (blank (leNat ((leBytes 4 info.oid).take left))) := by
  have hread := reads_table files (hf.tables _ _ hl)
  have hz := readTable_zeroFilled files
  by_cases hzero : ∀ b ∈ (row info).drop left, b = 0
  · have hval := hz.without_zeros hread hzero
    change ((readTable files).run ⟨(row info).take left, true⟩).1 = _ at hval
    rw [hval, listing_reopen]
    exact ⟨fun _ => .inl hzero, fun _ => ⟨info, hl, rfl⟩⟩
  · rw [or_iff_right hzero]
    by_cases hshort : left < 4
    · rw [torn_blank files hshort, listing_reopen, and_iff_right hshort]
    · have hid := torn_oid files info (Nat.le_of_not_lt hshort)
      rw [iff_false_right fun h => hshort h.1]
      intro hk
      -- its id is that of the table that was written, so all its bytes are
      have hsame := eq_of_leBytes (Knows.oid_lt hf hk) (hf.tables _ _ hl).oid hid
      have he := hk.eq (hsame ▸ hl)
      obtain ⟨taken, htaken, rfl⟩ := readTable_takes files ⟨(row info).take left, true⟩
      rw [InStream.seen_good, ← row_congr he] at htaken
      nth_rewrite 2 [← List.take_append_drop left (row info)] at htaken
      rw [Stream'.append_append_stream, Stream'.append_right_inj] at htaken
      exact hzero (zeros_of_append htaken.symm)

/-- With id 0 it is the blank table 0 if `c` has one. -/
theorem torn_zero (hf : c.Fits) (hl : c.tables.lookup info.oid = some info)
    (hoid : ((readTable files).run ⟨(row info).take left, true⟩).1.oid = 0)
    (hk : c.Knows (blank 0)) :
    c.Knows (listing ((readTable files).run ⟨(row info).take left, true⟩).1) := by
  by_cases hshort : left < 4
  · rw [torn_blank files hshort] at hoid ⊢
    have hzero : leNat ((leBytes 4 info.oid).take left) = 0 := hoid
    rwa [hzero, listing_reopen]
  · have hid := torn_oid files info (Nat.le_of_not_lt hshort)
    rw [hoid] at hid
    have hsame := eq_of_leBytes (by decide) (hf.tables _ _ hl).oid hid
    have he := hk.eq (hsame ▸ hl)
    apply (knows_torn files hf hl).mpr
    refine .inl fun b hb => ?_
    have hrow : row info = leBytes 4 0 ++ List.replicate 16 0 := by
      rw [← row_blank files 0, ← row_congr]
      rw [he, listing_reopen]
    have hmem := List.mem_of_mem_drop hb
    rw [hrow, leBytes_zero, List.replicate_append_replicate] at hmem
    exact List.eq_of_mem_replicate hmem

/-! The whole load. -/

/-- The loop over the tables, which are written one after the other and cut after `left` bytes. -/
theorem onlyFrom_loadTables (left : ℕ) (hf : c.Fits) {infos : List TableInfo}
    (hl : ∀ info ∈ infos, c.tables.lookup info.oid = some info) (h : OnlyFrom c' c) :
    OnlyFrom ((loadTables files infos.length c').run ⟨(infos.flatMap row).take left, true⟩).1 c ↔
      TornOk c infos left := by
  induction infos generalizing c' left with
  | nil => exact ⟨fun _ => trivial, fun _ => h⟩
  | cons info infos ih =>
    have hinfo := hl info (List.mem_cons_self ..)
    have hread := reads_table files (hf.tables _ _ hinfo)
    rw [TornOk, List.flatMap_cons, List.take_append]
    split_ifs with hleft
    · rw [List.take_of_length_le hleft]
      have hrun : (loadTables files (info :: infos).length c').run
          ⟨row info ++ (infos.flatMap row).take (left - (row info).length), true⟩ =
          (loadTables files infos.length (c'.register (reopen files (listing info)))).run
            ⟨(infos.flatMap row).take (left - (row info).length), true⟩ := by
        change (readTable files >>= fun info =>
          loadTables files infos.length (c'.register info)).run
          _ = _
        rw [StateT.run_bind, row, hread]
        rfl
      rw [hrun]
      exact ih _ (fun i hi => hl i (List.mem_cons_of_mem _ hi)) (h.register ⟨info, hinfo, rfl⟩)
    · have hlt := Nat.lt_of_not_le hleft
      rw [Nat.sub_eq_zero_of_le hlt.le, List.take_zero, List.append_nil]
      have hend := (readTable_zeroFilled files).ends hread hlt
      have hloop := loadTables_blank files
        (c'.register ((readTable files).run ⟨(row info).take left, true⟩).1) hend infos.length
      have hrun : ((loadTables files (info :: infos).length c').run
          ⟨(row info).take left, true⟩).1 = _ := hloop
      rw [hrun, onlyFrom_blanks files h _ (torn_zero files hf hinfo),
        knows_torn files hf hinfo,
        List.length_eq_zero_iff.ne]

theorem announced_le (c : Catalog) (k : ℕ) : announced c k ≤ c.infos.length := by
  have hn : c.infos.length = c.tables.entries.length := List.length_map _
  rw [announced, hn]
  refine (leNat_take_le _ _).trans ?_
  rw [leNat_leBytes]
  exact Nat.mod_le _ _

/-- Where the header is whole all tables are announced. -/
theorem announced_eq (hf : c.Fits) {k : ℕ} (hk : 8 ≤ k) : announced c k = c.infos.length := by
  have hn : c.infos.length = c.tables.entries.length := List.length_map _
  have hlt : c.tables.entries.length < 256 ^ 4 := hf.numTables
  rw [announced, List.take_of_length_le (by rw [leBytes_length]; omega), leNat_leBytes,
    Nat.mod_eq_of_lt hlt, hn]

/-- A cut file is read as if its header announced the tables it seems to announce, and their
bytes were cut. -/
theorem loadCatalog_cut (hf : c.Fits)
    (hown : ∀ oid info, c.tables.lookup oid = some info → info.oid = oid) (k : ℕ) :
    ∃ next, ((loadCatalog files empty).run (InStream.ofBytes (c.saveCatalog.take k))).1 =
      ((loadTables files (announced c k) { empty with nextTableOid := next }).run
        ⟨((c.infos.take (announced c k)).flatMap row).take (k - 8), true⟩).1 := by
  have hsave : c.saveCatalog = leBytes 4 c.nextTableOid ++
      (leBytes 4 c.tables.entries.length ++ c.infos.flatMap row) := by
    rw [saveCatalog, entries_of_own hown, List.flatMap_map]
    rfl
  have hstart : (InStream.ofBytes (c.saveCatalog.take k)).seen = (leBytes 4 c.nextTableOid ++
      (leBytes 4 c.tables.entries.length ++ c.infos.flatMap row)).take k ++ₛ
        Stream'.const 0 := by
    rw [← hsave]
    exact InStream.seen_good _
  obtain ⟨-, hnext⟩ := readNat_cut hstart
  obtain ⟨hcount, hrest⟩ := readNat_cut hnext
  have hcut : (c.infos.flatMap row).take (k - 4 - 4) =
      ((c.infos.take (announced c k)).flatMap row).take (k - 8) := by
    rw [Nat.sub_sub]
    by_cases hk : 8 ≤ k
    · rw [announced_eq hf hk, List.take_length]
    · have hnone : k - 8 = 0 := by omega
      rw [hnone, List.take_zero, List.take_zero]
  rw [hcut] at hrest
  refine ⟨((readNat 4 0).run (InStream.ofBytes (c.saveCatalog.take k))).1, ?_⟩
  have hseen := (loadTables_zeroFilled files (announced c k) { empty with
    nextTableOid := ((readNat 4 0).run (InStream.ofBytes (c.saveCatalog.take k))).1 }).seen _ _
      (hrest.trans (InStream.seen_good _).symm)
  rw [← hseen.1, announced, ← hcount]
  rfl

/-- Loading the first `k` bytes of a saved catalog registers nothing but tables of the catalog
exactly if what is missing is zeros, or the ids read for it are those of blank tables. -/
theorem onlyFrom_iff (hf : c.Fits)
    (hown : ∀ oid info, c.tables.lookup oid = some info → info.oid = oid) (k : ℕ) :
    OnlyFrom ((loadCatalog files empty).run (InStream.ofBytes (c.saveCatalog.take k))).1 c ↔
      TornOk c (c.infos.take (announced c k)) (k - 8) := by
  obtain ⟨next, hload⟩ := loadCatalog_cut files hf hown k
  have hl : ∀ info ∈ c.infos.take (announced c k), c.tables.lookup info.oid = some info := by
    intro info hinfo
    obtain ⟨oid, ho⟩ := mem_infos.mp (List.mem_of_mem_take hinfo)
    rwa [hown oid info ho]
  have hloop := onlyFrom_loadTables files (k - 8) hf hl (onlyFrom_start c next)
  rw [List.length_take_of_le (announced_le c k)] at hloop
  rw [hload]
  exact hloop

/-- A table of one page. -/
def onePageTable : TableInfo :=
  ⟨Schema.new [⟨str "id", .integer⟩], str "t", (openTable (fun _ => none) 0).restore [0] 1, 0⟩

def oneTable : Catalog := empty.register onePageTable

/-- The last byte that is not zero may be the last one written. -/
theorem zeros_may_be_missing : OnlyFrom ((loadCatalog (fun _ => none) empty).run
    (InStream.ofBytes (oneTable.saveCatalog.take 40))).1 oneTable := by
  have hf : oneTable.Fits := by
    refine ⟨by decide, by decide, fun oid info hl => ?_⟩
    unfold oneTable at hl
    rw [lookup_register_tables] at hl
    split_ifs at hl
    · obtain rfl := Option.some.inj hl
      refine ⟨by decide, by decide, by decide, fun c hmem => ?_, by decide, fun p hp => ?_,
        by decide, by decide⟩
      · rw [List.mem_singleton.mp hmem]
        exact ⟨by decide, .inr (.inr rfl)⟩
      · rw [List.mem_singleton.mp hp]
        exact ⟨by decide, by decide⟩
    · cases hl
  have hown : ∀ oid info, oneTable.tables.lookup oid = some info → info.oid = oid := by
    intro oid info hl
    unfold oneTable at hl
    rw [lookup_register_tables] at hl
    split_ifs at hl with hoid
    · rw [← Option.some.inj hl, hoid]
    · cases hl
  apply (onlyFrom_iff (fun _ => none) hf hown 40).mpr
  have hinfos : oneTable.infos.take (announced oneTable 40) = [onePageTable] := rfl
  have hrow : (row onePageTable).drop 32 = [0, 0, 0] := by decide
  rw [hinfos, TornOk, if_neg (by decide), hrow]
  exact ⟨.inl (by simp), fun h => absurd rfl h⟩

/-- Without its last four bytes the table is back with a next page id of 0. -/
theorem next_page_lost : ¬ OnlyFrom ((loadCatalog (fun _ => none) empty).run
    (InStream.ofBytes (oneTable.saveCatalog.take 39))).1 oneTable := by
  intro h
  obtain ⟨info, hl, he⟩ := h.tables 0 _ rfl
  have hnext := congrArg Listing.nextPageId he
  rw [← Option.some.inj hl] at hnext
  exact absurd hnext (by decide)

end Catalog
end PragmaticDB
