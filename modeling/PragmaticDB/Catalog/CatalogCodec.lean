import PragmaticDB.Catalog.Catalog
import PragmaticDB.Lib.AssocList

/-!
What `SaveCatalog` writes, `LoadCatalog` reads back: field by field, list by list, and then as
the two maps of the catalog.
-/
namespace PragmaticDB
open ByteBlock ByteStream
namespace Catalog

/-! Sizes that fit the file format. -/

def ColumnFits (c : Column) : Prop := c.name.length < 4294967296 ∧ c.typeId.Named

/-- Ids of pages are `int32_t`. -/
def Int32 (p : ℤ) : Prop := -2147483648 ≤ p ∧ p < 2147483648

structure TableFits (info : TableInfo) : Prop where
  name : info.name.length < 4294967296
  oid : info.oid < 4294967296
  numColumns : info.schema.columns.length < 4294967296
  columns : ∀ c ∈ info.schema.columns, ColumnFits c
  numPages : info.table.getPageIds.length < 4294967296
  pages : ∀ p ∈ info.table.getPageIds, Int32 p
  next : Int32 info.table.getNextPageId

structure Fits (c : Catalog) : Prop where
  numTables : c.tables.entries.length < 4294967296
  nextOid : c.nextTableOid < 4294967296
  tables : ∀ oid info, c.tables.lookup oid = some info → TableFits info

/-- Every table is filed under its own id, and its name, which no other table has, leads to
this id. -/
structure Consistent (c : Catalog) : Prop where
  own : ∀ oid info, c.tables.lookup oid = some info → info.oid = oid
  named : ∀ name oid, c.tableNames.lookup name = some oid ↔
    ∃ info, c.tables.lookup oid = some info ∧ info.name = name

/-- What the catalog file keeps of a table. -/
structure Listing where
  oid : ℕ
  name : List UInt8
  schema : Schema
  pageIds : List ℤ
  nextPageId : ℤ

def listing (info : TableInfo) : Listing :=
  ⟨info.oid, info.name, info.schema, info.table.getPageIds, info.table.getNextPageId⟩

/-- The table a load makes of a listing. -/
def reopen (files : TableFiles) (l : Listing) : TableInfo :=
  ⟨l.schema, l.name, (openTable files l.oid).restore l.pageIds l.nextPageId, l.oid⟩

@[simp] theorem listing_reopen (files : TableFiles) (l : Listing) :
    listing (reopen files l) = l := rfl

/-! Round trips of the fields. -/

theorem reads_u32 {v : ℕ} (hv : v < 4294967296) : Reads (readNat 4 0) (leBytes 4 v) v :=
  reads_nat 0 hv

theorem reads_string {s : List UInt8} (hs : s.length < 4294967296) :
    Reads readString (writeString s) s := by
  have hbytes : Reads (readBytes (List.replicate s.length 0)) s s :=
    reads_bytes s _ List.length_replicate
  have hboth := Reads.bind (f := fun len => readBytes (List.replicate len 0)) (reads_u32 hs) hbytes
  unfold writeString
  rw [Nat.mod_eq_of_lt hs, List.take_length]
  exact hboth

theorem reads_int32 {p : ℤ} (hp : Int32 p) : Reads readInt32 (writeInt32 p) p := by
  obtain ⟨hlo, hhi⟩ := hp
  have hv : (p % 4294967296).toNat < 4294967296 := by omega
  have hr := (reads_u32 hv).map fun raw : ℕ => Int.bmod raw 4294967296
  have heq : Int.bmod ((p % 4294967296).toNat : ℤ) 4294967296 = p := by
    rw [Int.bmod_def]
    omega
  rw [heq] at hr
  exact hr

theorem reads_column {c : Column} (hc : ColumnFits c) : Reads readColumn (writeColumn c) c := by
  obtain ⟨hname, htype⟩ := hc
  have hlt : c.typeId.toRaw < 4294967296 := htype.toRaw_lt.trans (by norm_num)
  have hr := (reads_u32 hlt).map fun raw => (⟨c.name, TypeId.ofRaw raw⟩ : Column)
  rw [htype.ofRaw_toRaw] at hr
  exact (reads_string hname).bind hr

theorem reads_table (files : TableFiles) {info : TableInfo} (hf : TableFits info) :
    Reads (readTable files) (writeTable ⟨info.oid, info⟩) (reopen files (listing info)) := by
  have hcols : Reads (readMany readColumn info.schema.columns.length)
      (info.schema.columns.flatMap writeColumn) info.schema.columns :=
    reads_many fun c hc => reads_column (hf.columns c hc)
  have hpages : Reads (readMany readInt32 info.table.getPageIds.length)
      (info.table.getPageIds.flatMap writeInt32) info.table.getPageIds :=
    reads_many fun p hp => reads_int32 (hf.pages p hp)
  have hlast := (reads_int32 hf.next).map fun next => (⟨Schema.new info.schema.columns, info.name,
    (openTable files info.oid).restore info.table.getPageIds next, info.oid⟩ : TableInfo)
  have heq : reopen files (listing info) = ⟨Schema.new info.schema.columns, info.name,
      (openTable files info.oid).restore info.table.getPageIds info.table.getNextPageId,
      info.oid⟩ := by
    rw [← Schema.eq_new]
    rfl
  rw [heq]
  exact (reads_u32 hf.oid).bind ((reads_string hf.name).bind ((reads_u32 hf.numColumns).bind
    (hcols.bind ((reads_u32 hf.numPages).bind (hpages.bind hlast)))))

/-- The loop over the tables registers them one after the other. -/
theorem reads_tables (files : TableFiles) (infos : List TableInfo)
    (hf : ∀ info ∈ infos, TableFits info) (c : Catalog) :
    Reads (loadTables files infos.length c) (infos.flatMap fun info => writeTable ⟨info.oid, info⟩)
      ((infos.map fun info => reopen files (listing info)).foldl register c) := by
  induction infos generalizing c with
  | nil => exact Reads.pure c
  | cons info infos ih =>
    exact (reads_table files (hf info (by simp))).bind
      (ih (fun i hi => hf i (by simp [hi])) _)

/-! The two maps after the loop. -/

theorem lookup_register_tables (c : Catalog) (info : TableInfo) (oid : ℕ) :
    (c.register info).tables.lookup oid =
      if oid = info.oid then some info else c.tables.lookup oid :=
  AList.lookup_insert_ite ..

theorem lookup_register_names (c : Catalog) (info : TableInfo) (name : List UInt8) :
    (c.register info).tableNames.lookup name =
      if name = info.name then some info.oid else c.tableNames.lookup name :=
  AList.lookup_insert_ite ..

/-- Registering tables with different ids and names: each is found under both. -/
theorem foldl_register {infos : List TableInfo} (hoids : (infos.map TableInfo.oid).Nodup)
    (hnames : (infos.map TableInfo.name).Nodup) (c : Catalog) :
    (infos.foldl register c).nextTableOid = c.nextTableOid ∧
      (∀ info ∈ infos, (infos.foldl register c).tables.lookup info.oid = some info ∧
        (infos.foldl register c).tableNames.lookup info.name = some info.oid) ∧
      (∀ oid ∉ infos.map TableInfo.oid,
        (infos.foldl register c).tables.lookup oid = c.tables.lookup oid) ∧
      ∀ name ∉ infos.map TableInfo.name,
        (infos.foldl register c).tableNames.lookup name = c.tableNames.lookup name := by
  induction infos generalizing c with
  | nil => exact ⟨rfl, nofun, fun _ _ => rfl, fun _ _ => rfl⟩
  | cons info infos ih =>
    obtain ⟨ho, hoids⟩ := List.nodup_cons.mp hoids
    obtain ⟨hn, hnames⟩ := List.nodup_cons.mp hnames
    obtain ⟨hnext, hin, hout, hout'⟩ := ih hoids hnames (c.register info)
    refine ⟨hnext, fun i hi => ?_, fun oid hoid => ?_, fun name hname => ?_⟩
    · rcases List.mem_cons.mp hi with rfl | hi
      · refine ⟨(hout _ ho).trans ?_, (hout' _ hn).trans ?_⟩
        · rw [lookup_register_tables, if_pos rfl]
        · rw [lookup_register_names, if_pos rfl]
      · exact hin i hi
    · simp only [List.map_cons, List.mem_cons, not_or] at hoid
      refine (hout oid hoid.2).trans ?_
      rw [lookup_register_tables, if_neg hoid.1]
    · simp only [List.map_cons, List.mem_cons, not_or] at hname
      refine (hout' name hname.2).trans ?_
      rw [lookup_register_names, if_neg hname.1]

theorem empty_consistent : empty.Consistent := ⟨nofun, by simp [empty]⟩

/-- A table with a new id and a new name. -/
theorem Consistent.register {c : Catalog} (hc : c.Consistent) {info : TableInfo}
    (ho : c.tables.lookup info.oid = none) (hn : c.tableNames.lookup info.name = none) :
    (c.register info).Consistent := by
  constructor
  · intro oid i hl
    rw [lookup_register_tables] at hl
    split_ifs at hl with hoid
    · rw [hoid, ← Option.some.inj hl]
    · exact hc.own oid i hl
  · intro name oid
    rw [lookup_register_names, lookup_register_tables]
    constructor
    · intro hl
      split_ifs at hl with hname
      · obtain rfl := Option.some.inj hl
        exact ⟨info, if_pos rfl, hname.symm⟩
      · obtain ⟨i, hi, hin⟩ := (hc.named name oid).mp hl
        have hne : oid ≠ info.oid := by
          rintro rfl
          rw [ho] at hi
          cases hi
        exact ⟨i, by rw [if_neg hne, hi], hin⟩
    · rintro ⟨i, hi, rfl⟩
      split_ifs at hi with hoid
      · obtain rfl := Option.some.inj hi
        rw [if_pos rfl, hoid]
      · have hl := (hc.named i.name oid).mpr ⟨i, hi, rfl⟩
        have hne : i.name ≠ info.name := by
          intro he
          rw [he, hn] at hl
          cases hl
        rw [if_neg hne, hl]

/-- The tables of a catalog in the order they are written. -/
def infos (c : Catalog) : List TableInfo := c.tables.entries.map Sigma.snd

variable {c : Catalog}

theorem mem_infos {info : TableInfo} :
    info ∈ c.infos ↔ ∃ oid, c.tables.lookup oid = some info := by
  unfold infos
  simp only [List.mem_map, Sigma.exists, exists_eq_right, AList.mem_lookup_iff.symm,
    Option.mem_def]

theorem entries_of_own (hown : ∀ oid info, c.tables.lookup oid = some info → info.oid = oid) :
    c.tables.entries = c.infos.map fun info => ⟨info.oid, info⟩ := by
  unfold infos
  rw [List.map_map]
  refine (List.map_id _).symm.trans (List.map_congr_left fun x hx => ?_)
  have hl : c.tables.lookup x.1 = some x.2 := AList.mem_lookup_iff.mpr hx
  simp [hown _ _ hl]

theorem Consistent.entries (hc : c.Consistent) :
    c.tables.entries = c.infos.map fun info => ⟨info.oid, info⟩ := entries_of_own hc.own

theorem Consistent.oids_nodup (hc : c.Consistent) : (c.infos.map TableInfo.oid).Nodup := by
  have hkeys : c.infos.map TableInfo.oid = c.tables.entries.keys := by
    rw [hc.entries, List.keys, List.map_map]
    rfl
  rw [hkeys]
  exact c.tables.nodupKeys

theorem Consistent.names_nodup (hc : c.Consistent) : (c.infos.map TableInfo.name).Nodup := by
  have hoids := hc.oids_nodup
  refine (List.nodup_map_iff_inj_on (List.Nodup.of_map _ hoids)).mpr fun x hx y hy hxy => ?_
  obtain ⟨ox, hlx⟩ := mem_infos.mp hx
  obtain ⟨oy, hly⟩ := mem_infos.mp hy
  have hnx := (hc.named x.name ox).mpr ⟨x, hlx, rfl⟩
  have hny := (hc.named x.name oy).mpr ⟨y, hly, hxy.symm⟩
  have hoo : ox = oy := Option.some.inj (hnx.symm.trans hny)
  exact Option.some.inj ((hoo ▸ hlx).symm.trans hly)

theorem Fits.infos (hf : c.Fits) : ∀ info ∈ c.infos, TableFits info := by
  intro info hi
  obtain ⟨oid, hl⟩ := mem_infos.mp hi
  exact hf.tables oid info hl

/-- The catalog a load of the saved file makes. -/
def reloaded (c : Catalog) (files : TableFiles) : Catalog :=
  (c.infos.map fun info => reopen files (listing info)).foldl register
    { empty with nextTableOid := c.nextTableOid }

theorem load_eq (files : TableFiles) (hc : c.Consistent) (hf : c.Fits) :
    (loadCatalog files empty).run (InStream.ofBytes c.saveCatalog) =
      (c.reloaded files, ⟨[], true⟩) := by
  have hlen : c.tables.entries.length = c.infos.length := (List.length_map _).symm
  have htables := reads_tables files c.infos hf.infos { empty with nextTableOid := c.nextTableOid }
  have hread : Reads (loadCatalog files empty) c.saveCatalog (c.reloaded files) := by
    unfold saveCatalog
    rw [hlen, hc.entries, List.flatMap_map]
    exact (reads_nat 0 hf.nextOid).bind ((reads_u32 (hlen ▸ hf.numTables)).bind htables)
  have hrest := hread []
  rwa [List.append_nil] at hrest

theorem Consistent.lookup_reloaded (hc : c.Consistent) (files : TableFiles) (oid : ℕ) :
    (c.reloaded files).tables.lookup oid =
      (c.tables.lookup oid).map fun info => reopen files (listing info) := by
  have hoids : ((c.infos.map fun info => reopen files (listing info)).map TableInfo.oid) =
      c.infos.map TableInfo.oid := by rw [List.map_map]; rfl
  have hnames : ((c.infos.map fun info => reopen files (listing info)).map TableInfo.name) =
      c.infos.map TableInfo.name := by rw [List.map_map]; rfl
  obtain ⟨-, hin, hout, -⟩ := foldl_register (hoids ▸ hc.oids_nodup) (hnames ▸ hc.names_nodup)
    { empty with nextTableOid := c.nextTableOid }
  cases hl : c.tables.lookup oid with
  | some info =>
    obtain rfl := hc.own oid info hl
    exact (hin _ (List.mem_map_of_mem (mem_infos.mpr ⟨_, hl⟩))).1
  | none =>
    refine (hout oid fun hmem => ?_).trans rfl
    rw [hoids] at hmem
    obtain ⟨info, hi, rfl⟩ := List.mem_map.mp hmem
    obtain ⟨o, ho⟩ := mem_infos.mp hi
    rw [hc.own o info ho, ho] at hl
    cases hl

theorem Consistent.names_reloaded (hc : c.Consistent) (files : TableFiles) (name : List UInt8) :
    (c.reloaded files).tableNames.lookup name = c.tableNames.lookup name := by
  have hoids : ((c.infos.map fun info => reopen files (listing info)).map TableInfo.oid) =
      c.infos.map TableInfo.oid := by rw [List.map_map]; rfl
  have hnames : ((c.infos.map fun info => reopen files (listing info)).map TableInfo.name) =
      c.infos.map TableInfo.name := by rw [List.map_map]; rfl
  obtain ⟨-, hin, -, hout⟩ := foldl_register (hoids ▸ hc.oids_nodup) (hnames ▸ hc.names_nodup)
    { empty with nextTableOid := c.nextTableOid }
  cases hl : c.tableNames.lookup name with
  | some oid =>
    obtain ⟨info, hi, rfl⟩ := (hc.named name oid).mp hl
    have hr := (hin _ (List.mem_map_of_mem (mem_infos.mpr ⟨oid, hi⟩))).2
    simp only [reopen, listing, hc.own oid info hi] at hr
    exact hr
  | none =>
    refine (hout name fun hmem => ?_).trans rfl
    rw [hnames] at hmem
    obtain ⟨info, hi, rfl⟩ := List.mem_map.mp hmem
    obtain ⟨o, ho⟩ := mem_infos.mp hi
    rw [(hc.named info.name o).mpr ⟨info, ho, rfl⟩] at hl
    cases hl

theorem foldl_register_length {infos : List TableInfo} (hoids : (infos.map TableInfo.oid).Nodup)
    (c : Catalog) (hfresh : ∀ info ∈ infos, c.tables.lookup info.oid = none) :
    (infos.foldl register c).tables.entries.length = c.tables.entries.length + infos.length := by
  induction infos generalizing c with
  | nil => rfl
  | cons info infos ih =>
    obtain ⟨ho, hoids⟩ := List.nodup_cons.mp hoids
    have hlen : (c.register info).tables.entries.length = c.tables.entries.length + 1 := by
      refine (AssocList.length_insert ..).trans ?_
      rw [hfresh info (by simp)]
      rfl
    refine (ih hoids (c.register info) fun i hi => ?_).trans ?_
    · rw [lookup_register_tables, if_neg fun he => ho (List.mem_map.mpr ⟨i, hi, he⟩)]
      exact hfresh i (by simp [hi])
    · rw [hlen, List.length_cons]
      omega

theorem Consistent.length_reloaded (hc : c.Consistent) (files : TableFiles) :
    (c.reloaded files).tables.entries.length = c.tables.entries.length := by
  have hoids : ((c.infos.map fun info => reopen files (listing info)).map TableInfo.oid) =
      c.infos.map TableInfo.oid := by rw [List.map_map]; rfl
  refine (foldl_register_length (hoids ▸ hc.oids_nodup) _ fun _ _ => rfl).trans ?_
  simp only [List.length_map, infos]
  exact Nat.zero_add _

theorem nextTableOid_reloaded (c : Catalog) (files : TableFiles) :
    (c.reloaded files).nextTableOid = c.nextTableOid := by
  have hkeep : ∀ (l : List TableInfo) (c₀ : Catalog),
      (l.foldl register c₀).nextTableOid = c₀.nextTableOid := by
    intro l
    induction l with
    | nil => exact fun _ => rfl
    | cons info l ih => exact fun c₀ => ih (c₀.register info)
  exact hkeep _ _

/-- `LoadCatalog` on a fresh catalog gives back what `SaveCatalog` wrote, and takes all of it. -/
theorem load_save {files : TableFiles} (hc : c.Consistent) (hf : c.Fits) :
    ∃ c', (loadCatalog files empty).run (InStream.ofBytes c.saveCatalog) = (c', ⟨[], true⟩) ∧
      c'.nextTableOid = c.nextTableOid ∧
      (∀ oid, (c'.tables.lookup oid).map listing = (c.tables.lookup oid).map listing) ∧
      ∀ name, c'.tableNames.lookup name = c.tableNames.lookup name := by
  refine ⟨c.reloaded files, load_eq files hc hf, c.nextTableOid_reloaded files, fun oid => ?_,
    hc.names_reloaded files⟩
  rw [hc.lookup_reloaded]
  cases c.tables.lookup oid <;> rfl

/-- A catalog of one table with one column. -/
theorem one_table_reloaded : ∃ c', (loadCatalog (fun _ => none) empty).run (InStream.ofBytes
    (empty.register ⟨Schema.new [⟨str "id", .integer⟩], str "t",
      TableManager.new ⟨[], none, []⟩, 0⟩).saveCatalog) = (c', ⟨[], true⟩) ∧
    c'.tableNames.lookup (str "t") = some 0 := by
  have hc : (empty.register ⟨Schema.new [⟨str "id", .integer⟩], str "t",
      TableManager.new ⟨[], none, []⟩, 0⟩).Consistent := empty_consistent.register rfl rfl
  have hf : (empty.register ⟨Schema.new [⟨str "id", .integer⟩], str "t",
      TableManager.new ⟨[], none, []⟩, 0⟩).Fits := by
    refine ⟨by decide, by decide, fun oid info hl => ?_⟩
    rw [lookup_register_tables] at hl
    split_ifs at hl
    · obtain rfl := Option.some.inj hl
      refine ⟨by decide, by decide, by decide, fun c hmem => ?_, by decide, nofun,
        by decide, by decide⟩
      rw [List.mem_singleton.mp hmem]
      exact ⟨by decide, .inr (.inr rfl)⟩
    · cases hl
  obtain ⟨c', he, -, -, hnames⟩ := load_save hc hf
  exact ⟨c', he, by rw [hnames]; decide⟩

end Catalog
end PragmaticDB
