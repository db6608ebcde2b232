import PragmaticDB.Query.Executor
import PragmaticDB.Query.Literals
import PragmaticDB.Catalog.CatalogCodec

/-!
Catalogs over their whole history: tables are created, and a catalog that was saved is loaded by
a later process. No two tables of one history share a data file.
-/
namespace PragmaticDB
open ByteBlock ByteStream

theorem digit_toUInt8 {n : ℕ} {c : Char} (hc : c ∈ Nat.toDigits 10 n) :
    Char.ofNat c.toNat.toUInt8.toNat = c := by
  rw [(digit_toNat hc).2.2, Char.ofNat_toNat]

theorem decimal_injective : Function.Injective decimal := by
  have hback : ∀ n, (decimal n).map (fun b => Char.ofNat b.toNat) = Nat.toDigits 10 n := by
    intro n
    unfold decimal
    rw [List.map_map]
    exact (List.map_congr_left fun c hc => digit_toUInt8 hc).trans (List.map_id _)
  intro m n h
  have hd : Nat.toDigits 10 m = Nat.toDigits 10 n := by rw [← hback m, h, hback n]
  have hm := Nat.ofDigitChars_toDigits (b := 10) (n := m) (by decide) (by decide)
  rw [hd] at hm
  exact hm.symm.trans (Nat.ofDigitChars_toDigits (by decide) (by decide))

/-- The data file of table `oid`. -/
def tableFile (oid : ℕ) : List UInt8 := str "data/table_" ++ decimal oid ++ str ".db"

theorem tableFile_injective : Function.Injective tableFile := by
  intro m n h
  unfold tableFile at h
  exact decimal_injective (List.append_cancel_left (List.append_cancel_right h))

/-- The data file of an open table. -/
def TableManager.fileName (t : TableManager) : List UInt8 :=
  t.recordManager.pool.diskManager.filename

namespace Catalog

/-- The two maps are inverse to each other, and object ids are below the counter. -/
structure Linked (c : Catalog) : Prop where
  named : ∀ name oid, c.tableNames.lookup name = some oid →
    ∃ info, c.tables.lookup oid = some info ∧ info.name = name
  once : ∀ oid info, c.tables.lookup oid = some info →
    ∀ name, c.tableNames.lookup name = some oid ↔ name = info.name
  own : ∀ oid info, c.tables.lookup oid = some info → info.oid = oid
  below : ∀ oid info, c.tables.lookup oid = some info → oid < c.nextTableOid

/-- Catalogs with the data files of all the tables ever created on the way to them. Names and
schemas of new tables obey `P`. -/
inductive Reached (P : List UInt8 → Schema → Prop) : Catalog → List (List UInt8) → Prop where
  | empty : Reached P Catalog.empty []
  | create {db db' : Database} {files : List (List UInt8)} {name : List UInt8} {schema : Schema}
      {oid : ℕ} {info : TableInfo} : Reached P db.catalog files → files.length + 1 < 4294967296 →
      (∀ col ∈ schema.columns, col.typeId.Named) → P name schema →
      db.createTable name schema = (.ok (), db') → db'.catalog.getTable name = .ok (oid, info) →
      Reached P db'.catalog (info.table.fileName :: files)
  | duplicate {db db' : Database} {files : List (List UInt8)} {name : List UInt8}
      {schema : Schema} {oid : ℕ} {r : Except Exn Unit} : Reached P db.catalog files →
      db.catalog.tableNames.lookup name = some oid → db.createTable name schema = (r, db') →
      Reached P db'.catalog files
  | reload {c : Catalog} {files : List (List UInt8)} (tableFiles : TableFiles) :
      Reached P c files →
      Reached P ((loadCatalog tableFiles Catalog.empty).run (.ofBytes c.saveCatalog)).1 files

/-- Lengths that the 32 bits of the catalog file hold. -/
def Short (name : List UInt8) (schema : Schema) : Prop :=
  name.length < 4294967296 ∧ schema.columns.length < 4294967296 ∧
    ∀ col ∈ schema.columns, col.name.length < 4294967296

instance (name : List UInt8) (schema : Schema) : Decidable (Short name schema) :=
  inferInstanceAs (Decidable (name.length < 4294967296 ∧ schema.columns.length < 4294967296 ∧
    ∀ col ∈ schema.columns, col.name.length < 4294967296))

/-- What holds of every catalog reached. -/
structure Historic (c : Catalog) (files : List (List UInt8)) : Prop where
  consistent : c.Consistent
  fits : c.Fits
  below : ∀ oid info, c.tables.lookup oid = some info → oid < c.nextTableOid
  fresh : ∀ oid info, c.tables.lookup oid = some info → info.table.getPageIds = [] ∧
    info.table.getNextPageId = 0
  numTables : c.tables.entries.length ≤ c.nextTableOid
  counted : c.nextTableOid = files.length
  nodup : files.Nodup
  older : ∀ f ∈ files, ∃ oid < c.nextTableOid, f = tableFile oid

variable {c : Catalog} {files : List (List UInt8)}

theorem empty_historic : Historic Catalog.empty [] where
  consistent := empty_consistent
  fits := ⟨by decide, by decide, nofun⟩
  below := nofun
  fresh := nofun
  numTables := le_rfl
  counted := rfl
  nodup := .nil
  older := nofun

theorem Historic.linked (h : Historic c files) : c.Linked where
  named name oid hl := (h.consistent.named name oid).mp hl
  once oid info hl name := by
    constructor
    · intro hn
      obtain ⟨info', hl', rfl⟩ := (h.consistent.named name oid).mp hn
      rw [Option.some.inj (hl'.symm.trans hl)]
    · rintro rfl
      exact (h.consistent.named _ _).mpr ⟨info, hl, rfl⟩
  own := h.consistent.own
  below := h.below

theorem Consistent.reloaded (hc : c.Consistent) (tableFiles : TableFiles) :
    (c.reloaded tableFiles).Consistent := by
  constructor
  · intro oid info hl
    rw [hc.lookup_reloaded] at hl
    obtain ⟨info₀, hl₀, rfl⟩ := Option.map_eq_some_iff.mp hl
    exact hc.own oid info₀ hl₀
  · intro name oid
    rw [hc.names_reloaded, hc.named, hc.lookup_reloaded]
    constructor
    · rintro ⟨info, hl, rfl⟩
      exact ⟨_, congrArg (Option.map _) hl, rfl⟩
    · rintro ⟨info, hl, rfl⟩
      obtain ⟨info₀, hl₀, rfl⟩ := Option.map_eq_some_iff.mp hl
      exact ⟨info₀, hl₀, rfl⟩

theorem Fits.reloaded (hf : c.Fits) (hc : c.Consistent) (tableFiles : TableFiles) :
    (c.reloaded tableFiles).Fits := by
  refine ⟨hc.length_reloaded tableFiles ▸ hf.numTables,
    (nextTableOid_reloaded c tableFiles) ▸ hf.nextOid, fun oid info hl => ?_⟩
  rw [hc.lookup_reloaded] at hl
  obtain ⟨info₀, hl₀, rfl⟩ := Option.map_eq_some_iff.mp hl
  have h := hf.tables oid info₀ hl₀
  exact ⟨h.name, h.oid, h.numColumns, h.columns, h.numPages, h.pages, h.next⟩

theorem Historic.reload (h : Historic c files) (tableFiles : TableFiles) :
    Historic ((loadCatalog tableFiles Catalog.empty).run (.ofBytes c.saveCatalog)).1 files := by
  have hnext := nextTableOid_reloaded c tableFiles
  have hback : ∀ {oid info}, (c.reloaded tableFiles).tables.lookup oid = some info →
      ∃ info₀, c.tables.lookup oid = some info₀ ∧ reopen tableFiles (listing info₀) = info := by
    intro oid info hl
    rw [h.consistent.lookup_reloaded] at hl
    exact Option.map_eq_some_iff.mp hl
  rw [load_eq tableFiles h.consistent h.fits]
  constructor
  · exact h.consistent.reloaded tableFiles
  · exact h.fits.reloaded h.consistent tableFiles
  · intro oid info hl
    obtain ⟨info₀, hl₀, -⟩ := hback hl
    exact (h.below oid info₀ hl₀).trans_eq hnext.symm
  · intro oid info hl
    obtain ⟨info₀, hl₀, rfl⟩ := hback hl
    exact h.fresh oid info₀ hl₀
  · rw [h.consistent.length_reloaded, hnext]
    exact h.numTables
  · exact hnext.trans h.counted
  · exact h.nodup
  · intro f hf
    obtain ⟨oid, hlt, he⟩ := h.older f hf
    exact ⟨oid, hlt.trans_eq hnext.symm, he⟩

/-- What a new table adds to the maps. -/
theorem createTable_ok {db db' : Database} {name : List UInt8} {schema : Schema}
    (h : db.createTable name schema = (.ok (), db')) :
    db.catalog.tableNames.lookup name = none ∧ db'.catalog =
      { db.catalog with nextTableOid := (db.catalog.nextTableOid + 1) % 4294967296 }.register
        ⟨schema, name, openTable db.fileOf db.catalog.nextTableOid, db.catalog.nextTableOid⟩ := by
  unfold Database.createTable at h
  cases hn : db.catalog.tableNames.lookup name with
  | some oid =>
    rw [hn] at h
    cases h
  | none =>
    rw [hn] at h
    exact ⟨rfl, (congrArg (fun x => x.2.catalog) h).symm.trans (Database.saveCatalog_catalog _)⟩

theorem getTable_createTable {db db' : Database} {name : List UInt8} {schema : Schema}
    (h : db.createTable name schema = (.ok (), db')) :
    db'.catalog.getTable name = .ok (db.catalog.nextTableOid, ⟨schema, name,
      openTable db.fileOf db.catalog.nextTableOid, db.catalog.nextTableOid⟩) := by
  rw [(createTable_ok h).2]
  unfold getTable getTableByOid
  rw [lookup_register_names, if_pos rfl]
  simp only [lookup_register_tables, if_true]

/-- With nothing in the way of the save a new name is accepted. -/
theorem createTable_fresh {db : Database} {name : List UInt8} (schema : Schema)
    (hsaves : db.saves = []) (hn : db.catalog.tableNames.lookup name = none) :
    ∃ db', db.createTable name schema = (.ok (), db') ∧ db'.saves = [] := by
  unfold Database.createTable Database.saveCatalog
  rw [hn]
  simp only [hsaves]
  exact ⟨_, rfl, rfl⟩

theorem createTable_duplicate {db db' : Database} {name : List UInt8} {schema : Schema} {oid : ℕ}
    {r : Except Exn Unit} (hn : db.catalog.tableNames.lookup name = some oid)
    (h : db.createTable name schema = (r, db')) : db' = db := by
  unfold Database.createTable at h
  rw [hn] at h
  exact (congrArg Prod.snd h).symm

theorem Historic.create (h : Historic c files) {name : List UInt8} {schema : Schema}
    (hcount : files.length + 1 < 4294967296) (htypes : ∀ col ∈ schema.columns, col.typeId.Named)
    (hshort : Short name schema) (hn : c.tableNames.lookup name = none) {t : TableManager}
    (hids : t.getPageIds = []) (hnext : t.getNextPageId = 0) :
    Historic ({ c with nextTableOid := (c.nextTableOid + 1) % 4294967296 }.register
      ⟨schema, name, t, c.nextTableOid⟩) (tableFile c.nextTableOid :: files) := by
  have hlt : c.nextTableOid + 1 < 4294967296 := h.counted ▸ hcount
  have hmod : (c.nextTableOid + 1) % 4294967296 = c.nextTableOid + 1 := Nat.mod_eq_of_lt hlt
  have hfree : c.tables.lookup c.nextTableOid = none := by
    cases hl : c.tables.lookup c.nextTableOid with
    | none => rfl
    | some info => exact absurd (h.below _ info hl) (lt_irrefl _)
  have hold : ∀ {oid info}, ({ c with nextTableOid := (c.nextTableOid + 1) % 4294967296 }.register
      ⟨schema, name, t, c.nextTableOid⟩).tables.lookup oid = some info →
      oid = c.nextTableOid ∧ info = ⟨schema, name, t, c.nextTableOid⟩ ∨
        c.tables.lookup oid = some info := by
    intro oid info hl
    rw [lookup_register_tables] at hl
    split_ifs at hl with hoid
    · exact .inl ⟨hoid, (Option.some.inj hl).symm⟩
    · exact .inr hl
  have hc : Consistent { c with nextTableOid := (c.nextTableOid + 1) % 4294967296 } :=
    ⟨h.consistent.own, h.consistent.named⟩
  have hlen : ({ c with nextTableOid := (c.nextTableOid + 1) % 4294967296 }.register
      ⟨schema, name, t, c.nextTableOid⟩).tables.entries.length = c.tables.entries.length + 1 := by
    refine (AssocList.length_insert ..).trans ?_
    rw [hfree]
    rfl
  have hnum := h.numTables
  constructor
  · exact hc.register hfree hn
  · refine ⟨by rw [hlen]; omega, hmod.trans_lt hlt, fun oid info hl => ?_⟩
    rcases hold hl with ⟨-, rfl⟩ | hl
    · refine ⟨hshort.1, Nat.lt_of_succ_lt hlt, hshort.2.1, fun col hcol => ⟨hshort.2.2 col hcol,
        htypes col hcol⟩, ?_, ?_, ?_⟩
      · rw [hids]
        decide
      · rw [hids]
        nofun
      · rw [hnext]
        exact ⟨by decide, by decide⟩
    · exact h.fits.tables oid info hl
  · intro oid info hl
    refine lt_of_lt_of_eq ?_ hmod.symm
    rcases hold hl with ⟨rfl, -⟩ | hl
    · exact Nat.lt_succ_self _
    · exact (h.below oid info hl).trans (Nat.lt_succ_self _)
  · intro oid info hl
    rcases hold hl with ⟨-, rfl⟩ | hl
    · exact ⟨hids, hnext⟩
    · exact h.fresh oid info hl
  · rw [hlen]
    exact (Nat.succ_le_succ hnum).trans_eq hmod.symm
  · exact hmod.trans (congrArg Nat.succ h.counted)
  · refine List.nodup_cons.mpr ⟨fun hmem => ?_, h.nodup⟩
    obtain ⟨oid, hoid, he⟩ := h.older _ hmem
    exact absurd (tableFile_injective he) hoid.ne'
  · intro f hf
    rcases List.mem_cons.mp hf with rfl | hf
    · exact ⟨_, lt_of_lt_of_eq (Nat.lt_succ_self _) hmod.symm, rfl⟩
    · obtain ⟨oid, hoid, he⟩ := h.older f hf
      exact ⟨oid, lt_of_lt_of_eq (hoid.trans (Nat.lt_succ_self _)) hmod.symm, he⟩

theorem Reached.historic (h : Reached Short c files) : Historic c files := by
  induction h with
  | empty => exact empty_historic
  | @create db db' files name schema oid info _ hcount htypes hshort hcreate hget ih =>
    obtain ⟨hn, hcat⟩ := createTable_ok hcreate
    have hinfo := hget.symm.trans (getTable_createTable hcreate)
    cases hinfo
    rw [hcat]
    exact ih.create hcount htypes hshort hn rfl rfl
  | duplicate _ hn hcreate ih =>
    rw [createTable_duplicate hn hcreate]
    exact ih
  | reload tableFiles _ ih => exact ih.reload tableFiles

/-- In every catalog reached the maps are linked, and no data file was given out twice. -/
theorem reached_linked (h : Reached Short c files) : c.Linked ∧ files.Nodup :=
  ⟨h.historic.linked, h.historic.nodup⟩

/-- A table, one more after the catalog was saved and loaded, and the first one again. -/
theorem two_tables_linked : ∃ c, Reached Short c [str "data/table_1.db", str "data/table_0.db"] ∧
    c.tableNames.lookup (str "t") = some 0 ∧ c.tableNames.lookup (str "u") = some 1 ∧
    c.Linked := by
  have hsaves : Database.empty.saves = [] := rfl
  have hfresh : Database.empty.catalog.tableNames.lookup (str "t") = none := rfl
  obtain ⟨db₁, h₁, hsaves₁⟩ := createTable_fresh (Schema.new [⟨str "x", .integer⟩]) hsaves hfresh
  have heq₁ : db₁ = (Database.empty.createTable (str "t")
      (Schema.new [⟨str "x", .integer⟩])).2 := (congrArg Prod.snd h₁).symm
  have hone : Reached Short db₁.catalog [str "data/table_0.db"] :=
    .create .empty (by decide) (by decide +kernel) (by decide +kernel) h₁
      (getTable_createTable h₁)
  have hload := hone.reload db₁.fileOf
  obtain ⟨c, hc⟩ : ∃ c, c = ((loadCatalog db₁.fileOf Catalog.empty).run
    (.ofBytes db₁.catalog.saveCatalog)).1 := ⟨_, rfl⟩
  rw [← hc] at hload
  have hfree : c.nextTableOid = 1 ∧ c.tableNames.lookup (str "u") = none := by
    rw [hc, heq₁]
    decide +kernel
  obtain ⟨db₂, h₂, -⟩ := createTable_fresh (Schema.new [⟨str "y", .boolean⟩])
    (show { db₁ with catalog := c }.saves = [] from hsaves₁) hfree.2
  have heq₂ : db₂ = ({ db₁ with catalog := c }.createTable (str "u")
      (Schema.new [⟨str "y", .boolean⟩])).2 := (congrArg Prod.snd h₂).symm
  have htwo := Reached.create hload (by decide) (by decide +kernel) (by decide +kernel) h₂
    (getTable_createTable h₂)
  rw [hfree.1] at htwo
  have hnames : db₂.catalog.tableNames.lookup (str "t") = some 0 ∧
      db₂.catalog.tableNames.lookup (str "u") = some 1 := by
    rw [heq₂, hc, heq₁]
    decide +kernel
  obtain ⟨⟨r, db₃⟩, h₃⟩ : ∃ x, db₂.createTable (str "t") (Schema.new []) = x := ⟨_, rfl⟩
  have hagain := Reached.duplicate htwo hnames.1 h₃
  rw [createTable_duplicate hnames.1 h₃] at hagain
  exact ⟨db₂.catalog, hagain, hnames.1, hnames.2, (reached_linked hagain).1⟩

/-! Names that the catalog file cannot hold. -/

theorem writeString_long {name : List UInt8} (h : name.length = 4294967296) :
    writeString name = [0, 0, 0, 0] := by
  unfold writeString
  rw [h]
  rfl

theorem writeTable_long {name : List UInt8} (h : name.length = 4294967296) (files : TableFiles)
    (oid : ℕ) : writeTable ⟨oid, ⟨Schema.new [], name, openTable files oid, oid⟩⟩ =
      leBytes 4 oid ++ List.replicate 16 0 := by
  have hfields : writeTable ⟨oid, ⟨Schema.new [], name, openTable files oid, oid⟩⟩ =
      leBytes 4 oid ++ (writeString name ++ (leBytes 4 0 ++ ([] ++ (leBytes 4 0 ++
        ([] ++ writeInt32 0))))) := rfl
  rw [hfields, writeString_long h]
  rfl

/-- Two tables whose names have `2 ^ 32` bytes come back as two tables without a name. -/
theorem long_names_merged {n m : List UInt8} (hn : n.length = 4294967296)
    (hm : m.length = 4294967296) (hne : m ≠ n) :
    ∃ c files, Reached (fun _ _ => True) c files ∧ files.length = 2 ∧ ¬ c.Linked := by
  have hfree₁ : Database.empty.catalog.tableNames.lookup n = none := rfl
  obtain ⟨db₁, hcreate₁, hsaves⟩ := createTable_fresh (Schema.new []) rfl hfree₁
  obtain ⟨-, hcat₁⟩ := createTable_ok hcreate₁
  have hfree : db₁.catalog.tableNames.lookup m = none := by
    rw [hcat₁, lookup_register_names, if_neg hne]
    rfl
  obtain ⟨db₂, hcreate₂, -⟩ := createTable_fresh (Schema.new []) hsaves hfree
  obtain ⟨-, hcat₂⟩ := createTable_ok hcreate₂
  have hempty : Reached (fun _ _ => True) Database.empty.catalog [] := .empty
  have hone : Reached (fun _ _ => True) db₁.catalog _ := .create hempty (by decide)
    (by simp [Schema.new]) trivial hcreate₁ (getTable_createTable hcreate₁)
  have htwo : Reached (fun _ _ => True) db₂.catalog _ := .create hone (by simp)
    (by simp [Schema.new]) trivial hcreate₂ (getTable_createTable hcreate₂)
  have hnext : db₁.catalog.nextTableOid = 1 := by
    rw [hcat₁]
    rfl
  have hentries : db₂.catalog.tables.entries =
      [⟨1, ⟨Schema.new [], m, openTable db₁.fileOf 1, 1⟩⟩,
        ⟨0, ⟨Schema.new [], n, openTable Database.empty.fileOf 0, 0⟩⟩] := by
    rw [hcat₂, hnext, hcat₁]
    rfl
  have hnext₂ : db₂.catalog.nextTableOid = 2 := by
    rw [hcat₂, hnext]
    rfl
  have hbytes : db₂.catalog.saveCatalog = leBytes 4 2 ++ (leBytes 4 2 ++ ((leBytes 4 1 ++
      List.replicate 16 0) ++ ((leBytes 4 0 ++ List.replicate 16 0) ++ []))) := by
    rw [← writeTable_long hm db₁.fileOf 1, ← writeTable_long hn Database.empty.fileOf 0]
    unfold saveCatalog
    rw [hentries, hnext₂]
    rfl
  have hload := Reached.reload (fun _ => none) htwo
  rw [hbytes] at hload
  refine ⟨_, _, hload, rfl, fun hl => ?_⟩
  -- both tables are there without a name, and the empty name leads to only one of them
  have htables : ∃ info, ((loadCatalog (fun _ => none) Catalog.empty).run (.ofBytes
      (leBytes 4 2 ++ (leBytes 4 2 ++ ((leBytes 4 1 ++ List.replicate 16 0) ++
        ((leBytes 4 0 ++ List.replicate 16 0) ++ [])))))).1.tables.lookup 1 = some info ∧
      info.name = [] := ⟨_, rfl, rfl⟩
  obtain ⟨info, hinfo, hname⟩ := htables
  have hlookup := (hl.once 1 info hinfo []).mpr hname.symm
  revert hlookup
  decide +kernel

/-- The lengths of names are stored in 32 bits, so the maps of a reloaded catalog need not be
inverse to each other. -/
theorem reloaded_names_merged : ∃ c files, Reached (fun _ _ => True) c files ∧
    files.length = 2 ∧ ¬ c.Linked :=
  long_names_merged (n := List.replicate 4294967296 97) (m := List.replicate 4294967296 98)
    List.length_replicate List.length_replicate fun h => by
      have hmem : (98 : UInt8) ∈ List.replicate 4294967296 97 :=
        h ▸ List.mem_replicate.mpr ⟨by decide, rfl⟩
      exact absurd (List.mem_replicate.mp hmem).2 (by decide)

end Catalog
end PragmaticDB
