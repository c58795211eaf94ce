import AsioGameServer.Lib.Rank
import AsioGameServer.Mysql.Execute
import Mathlib.Data.List.GetD
import Mathlib.Data.String.Basic

open Rank

namespace AsioGameServer.mysql

variable {res : MYSQL_RES} {name : String} {results : QMap}

section Columns

/-- A map in the order of its keys. -/
def QMap.Sorted (results : QMap) : Prop := (results.map Prod.fst).Pairwise (· < ·)

theorem QMap.fst_insert (name key : String) (results : QMap) :
    key ∈ (results.insert name).map Prod.fst ↔ key = name ∨ key ∈ results.map Prod.fst := by
  induction results with
  | nil => simp [QMap.insert]
  | cons entry rest ih =>
    obtain ⟨first, column⟩ := entry
    unfold QMap.insert
    split
    · simp
    · split
      · rename_i heq
        simp [heq]
      · rw [List.map_cons, List.mem_cons, ih, List.map_cons, List.mem_cons]
        tauto

theorem QMap.Sorted.insert (hsorted : results.Sorted) (name : String) : (results.insert name).Sorted := by
  unfold QMap.Sorted at hsorted ⊢
  induction results with
  | nil => simp [QMap.insert]
  | cons entry rest ih =>
    obtain ⟨first, column⟩ := entry
    obtain ⟨hbelow, hrest⟩ := List.pairwise_cons.mp hsorted
    unfold QMap.insert
    split
    · rename_i hless
      refine List.pairwise_cons.mpr ⟨fun key hkey => ?_, hsorted⟩
      obtain rfl | hkey := List.mem_cons.mp hkey
      · exact hless
      · exact hless.trans (hbelow key hkey)
    · rename_i hnot
      split
      · exact hsorted
      · rename_i hne
        refine List.pairwise_cons.mpr ⟨fun key hkey => ?_, ih hrest⟩
        obtain rfl | hkey := (QMap.fst_insert name key rest).mp hkey
        · exact lt_of_le_of_ne (le_of_not_gt hnot) (Ne.symm hne)
        · exact hbelow key hkey

theorem QMap.mem_insert {entry : String × List (Option String)} (h : entry ∈ results.insert name) :
    entry = (name, []) ∨ entry ∈ results := by
  induction results with
  | nil => exact .inl (List.mem_singleton.mp h)
  | cons first rest ih =>
    unfold QMap.insert at h
    split at h
    · exact List.mem_cons.mp h
    · split at h
      · exact .inr h
      · obtain rfl | h := List.mem_cons.mp h
        · exact .inr List.mem_cons_self
        · exact (ih h).imp_right (List.mem_cons_of_mem _)

/-- The map before the rows are read. -/
def MYSQL_RES.columns (res : MYSQL_RES) : QMap := res.fields.foldl (fun results name => QMap.insert name results) []

theorem foldl_insert_spec (names : List String) (hsorted : results.Sorted) (hempty : ∀ entry ∈ results, entry.2 = []) :
    (names.foldl (fun results name => QMap.insert name results) results).Sorted ∧
      (∀ entry ∈ names.foldl (fun results name => QMap.insert name results) results, entry.2 = []) ∧
      ∀ key, key ∈ (names.foldl (fun results name => QMap.insert name results) results).map Prod.fst ↔
        key ∈ names ∨ key ∈ results.map Prod.fst := by
  induction names generalizing results with
  | nil => exact ⟨hsorted, hempty, by simp⟩
  | cons name names ih =>
    have hempty' : ∀ entry ∈ results.insert name, entry.2 = [] := by
      intro entry hentry
      obtain rfl | hold := QMap.mem_insert hentry
      · rfl
      · exact hempty entry hold
    obtain ⟨hsorted', hcolumns, hkeys⟩ := ih (hsorted.insert name) hempty'
    refine ⟨hsorted', hcolumns, fun key => ?_⟩
    rw [List.foldl_cons, hkeys, QMap.fst_insert, List.mem_cons]
    tauto

/-- Before the rows are read the map has the names in ascending order, without cells. -/
theorem columns_spec (hnames : res.fields.Nodup) :
    res.columns.Sorted ∧ (∀ entry ∈ res.columns, entry.2 = []) ∧ (res.columns.map Prod.fst).Perm res.fields := by
  have hstart : QMap.Sorted [] := List.Pairwise.nil
  obtain ⟨hsorted, hempty, hkeys⟩ := foldl_insert_spec res.fields hstart (by simp)
  refine ⟨hsorted, hempty, ?_⟩
  have hnodup : (res.columns.map Prod.fst).Nodup := hsorted.imp fun hless => ne_of_lt hless
  refine (List.perm_ext_iff_of_nodup hnodup hnames).mpr fun key => (hkeys key).trans ?_
  simp

/-- The cells at one place of the rows. -/
def cellsAt (rows : List (List (Option String))) (i : Nat) : List (Option String) := rows.map (·.getD i none)

theorem length_push_row {row : List (Option String)} (h : row.length = results.length) :
    (results.push_row row).length = results.length := by
  simp [QMap.push_row, h]

/-- The rows fill the columns by place. -/
theorem getElem?_foldl_push_row {rows : List (List (Option String))}
    (hcells : ∀ row ∈ rows, row.length = results.length)
    (i : Nat) :
    (rows.foldl QMap.push_row results)[i]? = results[i]?.map fun entry => (entry.1, entry.2 ++ cellsAt rows i) := by
  induction rows generalizing results with
  | nil => simp [cellsAt]
  | cons row rows ih =>
    have hrow : row.length = results.length := hcells row List.mem_cons_self
    have hlength := length_push_row hrow
    rw [List.foldl_cons, ih fun other hother => (hcells other (List.mem_cons_of_mem _ hother)).trans hlength.symm]
    have hentry : (results.push_row row)[i]? =
        results[i]?.map fun entry => (entry.1, entry.2 ++ [row.getD i none]) := by
      unfold QMap.push_row
      rw [List.getElem?_zipWith]
      obtain hin | hout := Nat.lt_or_ge i results.length
      · have hin' : i < row.length := by omega
        simp [List.getElem?_eq_getElem hin, List.getElem?_eq_getElem hin']
      · simp [List.getElem?_eq_none hout]
    rw [hentry, Option.map_map]
    cases results[i]? with
    | none => rfl
    | some entry => simp [cellsAt]

/-- In the map a column has the cells at the place of its name in ascending order. -/
theorem mem_map_iff (hnames : res.fields.Nodup) {column : List (Option String)} :
    (name, column) ∈ res.map ↔ name ∈ res.fields ∧ column = cellsAt res.rows (rank res.fields name) := by
  obtain ⟨hsorted, hempty, hperm⟩ := columns_spec hnames
  have hlength : res.columns.length = res.fields.length := by simpa using hperm.length_eq
  have hcells : ∀ row ∈ res.rows, row.length = res.columns.length :=
    fun row hrow => (res.cells row hrow).trans hlength.symm
  have hmap : ∀ i, res.map[i]? = res.columns[i]?.map fun entry => (entry.1, entry.2 ++ cellsAt res.rows i) :=
    getElem?_foldl_push_row hcells
  have hplace : ∀ key ∈ res.fields, (res.columns.map Prod.fst)[rank res.fields key]? = some key := by
    intro key hkey
    rw [← rank_perm hperm]
    exact getElem?_rank hsorted (hperm.mem_iff.mpr hkey)
  have hentry : ∀ key ∈ res.fields,
      res.map[rank res.fields key]? = some (key, cellsAt res.rows (rank res.fields key)) := by
    intro key hkey
    have hkey' := hplace key hkey
    rw [List.getElem?_map] at hkey'
    obtain ⟨entry, hget, hfst⟩ := Option.map_eq_some_iff.mp hkey'
    rw [hmap, hget, Option.map_some, hempty entry (List.mem_of_getElem? hget), List.nil_append, hfst]
  constructor
  · intro hmem
    obtain ⟨i, hi⟩ := List.mem_iff_getElem?.mp hmem
    rw [hmap] at hi
    obtain ⟨entry, hget, heq⟩ := Option.map_eq_some_iff.mp hi
    have hkeyAt : (res.columns.map Prod.fst)[i]? = some name := by
      rw [List.getElem?_map, hget]
      exact congrArg some (congrArg Prod.fst heq)
    have hkey : name ∈ res.fields := hperm.mem_iff.mp (List.mem_of_getElem? hkeyAt)
    have hnodup : (res.columns.map Prod.fst).Nodup := hsorted.imp fun hless => ne_of_lt hless
    have hsame : i = rank res.fields name := by
      obtain ⟨hin, _⟩ := List.getElem?_eq_some_iff.mp hkeyAt
      exact (List.getElem?_inj hin hnodup).mp (hkeyAt.trans (hplace name hkey).symm)
    have hcolumn := congrArg Prod.snd heq
    dsimp only at hcolumn
    rw [hempty entry (List.mem_of_getElem? hget), List.nil_append] at hcolumn
    exact ⟨hkey, by rw [← hcolumn, hsame]⟩
  · rintro ⟨hkey, rfl⟩
    exact List.mem_of_getElem? (hentry name hkey)

theorem map_keys (hnames : res.fields.Nodup) : (res.map.map Prod.fst).Perm res.fields := by
  obtain ⟨_, _, hperm⟩ := columns_spec hnames
  have hlength : res.columns.length = res.fields.length := by simpa using hperm.length_eq
  have hcells : ∀ row ∈ res.rows, row.length = res.columns.length :=
    fun row hrow => (res.cells row hrow).trans hlength.symm
  have hkeys : res.map.map Prod.fst = res.columns.map Prod.fst := by
    apply List.ext_getElem?
    intro i
    rw [List.getElem?_map, List.getElem?_map, MYSQL_RES.map, ← MYSQL_RES.columns, getElem?_foldl_push_row hcells,
      Option.map_map]
    rfl
  rw [hkeys]
  exact hperm

end Columns

section Rows

/-- A row without a null cell is paired with the names by place. -/
theorem clone_row_spec {fields : List String} {row : List (Option String)} (hcells : row.length = fields.length)
    (hnull : none ∉ row) :
    ∃ pairs, clone_row fields row = some pairs ∧
      ∀ name ∈ fields, pairs.lookup name = row.getD (fields.idxOf name) none := by
  induction fields generalizing row with
  | nil => exact ⟨[], by simp [clone_row], by simp⟩
  | cons first fields ih =>
    obtain _ | ⟨cell, row⟩ := row
    · simp at hcells
    · obtain ⟨hcell, hrow⟩ := not_or.mp (mt List.mem_cons.mpr hnull)
      obtain ⟨text, rfl⟩ := Option.ne_none_iff_exists'.mp (Ne.symm hcell)
      obtain ⟨pairs, hclone, hlookup⟩ := ih (by simpa using hcells) hrow
      refine ⟨(first, text) :: pairs, ?_, fun name hname => ?_⟩
      · unfold clone_row at hclone ⊢
        simp [hclone]
      · by_cases heq : name = first
        · subst heq
          simp
        · obtain rfl | hname := List.mem_cons.mp hname
          · exact absurd rfl heq
          · rw [List.lookup_cons, beq_false_of_ne heq, List.idxOf_cons_ne _ (Ne.symm heq), List.getD_cons_succ]
            exact hlookup name hname

/-- The values that are paired with a name are the cells at its place in the query. -/
theorem vector_spec (hnull : ∀ row ∈ res.rows, none ∉ row) :
    ∃ result, res.vector = some result ∧
      ∀ name ∈ res.fields, result.map (·.lookup name) = cellsAt res.rows (res.fields.idxOf name) := by
  have hcells := res.cells
  unfold MYSQL_RES.vector
  generalize res.rows = rows at hnull hcells
  induction rows with
  | nil => exact ⟨[], rfl, fun _ _ => rfl⟩
  | cons row rows ih =>
    obtain ⟨pairs, hclone, hlookup⟩ :=
      clone_row_spec (hcells row List.mem_cons_self) (hnull row List.mem_cons_self)
    obtain ⟨result, hresult, hcolumns⟩ := ih (fun other hother => hnull other (List.mem_cons_of_mem _ hother))
      fun other hother => hcells other (List.mem_cons_of_mem _ hother)
    refine ⟨pairs :: result, by simp [hclone, hresult], fun name hname => ?_⟩
    rw [List.map_cons, hlookup name hname, hcolumns name hname]
    rfl

end Rows

section Agreement

/-- A cell read through a pointer of a map. It is there as long as the result set is stored,
which `mysql_free_result` ends before `executeSql_Map` returns. -/
def readCell (stored : Bool) (cell : Option String) : Option String := if stored then cell else none

/-- The map has each name once, with the values that the other reader pairs with it. -/
def Agree (p : MysqlPool) (conn : MYSQL) (res : MYSQL_RES) (stored : Bool) : Prop :=
  ∃ result p', p.executeSql_Vector (some conn) ⟨true, some res⟩ = some (result, p') ∧
    ((p.executeSql_Map (some conn) ⟨true, some res⟩).1.map Prod.fst).Perm res.fields ∧
    ∀ entry ∈ (p.executeSql_Map (some conn) ⟨true, some res⟩).1,
      entry.2.map (readCell stored) = result.map (·.lookup entry.1)

/-- In every row the cell of a column is also that at the place of its name in ascending
order. -/
def InRank (res : MYSQL_RES) : Prop :=
  ∀ row ∈ res.rows, ∀ name ∈ res.fields,
    row.getD (rank res.fields name) none = row.getD (res.fields.idxOf name) none

/-- The readers agree where each column of the map has the cells of its own place. -/
theorem agree_iff_cellsAt (p : MysqlPool) (conn : MYSQL) (hnames : res.fields.Nodup)
    (hnull : ∀ row ∈ res.rows, none ∉ row) (stored : Bool) :
    Agree p conn res stored ↔ ∀ name ∈ res.fields,
      (cellsAt res.rows (rank res.fields name)).map (readCell stored) = cellsAt res.rows (res.fields.idxOf name) := by
  obtain ⟨result, hresult, hcolumns⟩ := vector_spec hnull
  have hvector : p.executeSql_Vector (some conn) ⟨true, some res⟩ = some (result, p.close (some conn)) := by
    simp [MysqlPool.executeSql_Vector, hresult]
  have hmap : (p.executeSql_Map (some conn) ⟨true, some res⟩).1 = res.map := rfl
  unfold Agree
  rw [hmap, hvector]
  constructor
  · rintro ⟨_, _, ⟨⟩, _, hentries⟩ name hname
    rw [← hcolumns name hname]
    exact hentries (name, _) ((mem_map_iff hnames).mpr ⟨hname, rfl⟩)
  · intro hall
    refine ⟨result, _, rfl, map_keys hnames, ?_⟩
    rintro ⟨name, column⟩ hentry
    obtain ⟨hname, rfl⟩ := (mem_map_iff hnames).mp hentry
    exact (hall name hname).trans (hcolumns name hname).symm

/-- The two readers agree on the cells that the map is filled with exactly where these are in
ascending order of the names. What is left of them when the map is returned agrees only where
there is no cell. -/
theorem readers_agree_iff (p : MysqlPool) (conn : MYSQL) (hnames : res.fields.Nodup)
    (hnull : ∀ row ∈ res.rows, none ∉ row) (stored : Bool) :
    Agree p conn res stored ↔ if stored then InRank res else res.rows = [] ∨ res.fields = [] := by
  rw [agree_iff_cellsAt p conn hnames hnull]
  cases stored with
  | true =>
    have hid : readCell true = id := rfl
    simp only [hid, List.map_id, if_true]
    unfold InRank cellsAt
    simp only [List.map_inj_left]
    exact ⟨fun h row hrow name hname => h name hname row hrow, fun h name hname row hrow => h row hrow name hname⟩
  | false =>
    simp only [Bool.false_eq_true, if_false]
    constructor
    · intro hall
      by_contra hsome
      obtain ⟨hrows, hfields⟩ := not_or.mp hsome
      obtain ⟨row, hrow⟩ := List.exists_mem_of_ne_nil _ hrows
      obtain ⟨name, hname⟩ := List.exists_mem_of_ne_nil _ hfields
      have hin : res.fields.idxOf name < row.length := (res.cells row hrow).symm ▸ List.idxOf_lt_length_of_mem hname
      have hlost : none = row.getD (res.fields.idxOf name) none := by
        have hsame := hall name hname
        unfold cellsAt at hsame
        rw [List.map_map] at hsame
        exact List.map_inj_left.mp hsame row hrow
      rw [List.getD_eq_getElem _ _ hin] at hlost
      exact hnull row hrow (hlost ▸ List.getElem_mem hin)
    · rintro (hrows | hfields) name hname
      · simp [cellsAt, hrows]
      · simp [hfields] at hname

/-- Names in ascending order are enough, and no others are, whatever the cells. -/
theorem inRank_iff_sorted {fields : List String} (hnames : fields.Nodup) :
    (∀ res : MYSQL_RES, res.fields = fields → (∀ row ∈ res.rows, none ∉ row) → InRank res) ↔
      fields.Pairwise (· < ·) := by
  constructor
  · intro hall
    have hrank : ∀ name ∈ fields, fields[rank fields name]? = some name := by
      intro name hname
      have hplace := hall ⟨fields, [fields.map some], by simp⟩ rfl (by simp) (fields.map some) (by simp) name hname
      have hin : rank fields name < fields.length := rank_lt hname
      have hin' : fields.idxOf name < fields.length := List.idxOf_lt_length_of_mem hname
      rw [List.getD_eq_getElem _ _ (by simpa using hin), List.getD_eq_getElem _ _ (by simpa using hin')] at hplace
      simpa [List.getElem?_eq_getElem hin] using hplace
    rw [List.pairwise_iff_getElem]
    intro i j hi hj hlt
    have hrankAt : ∀ k (hk : k < fields.length), rank fields fields[k] = k := by
      intro k hk
      have hget := hrank _ (List.getElem_mem hk)
      rw [← List.getElem?_eq_getElem hk] at hget
      exact (List.getElem?_inj hk hnames).mp hget.symm |>.symm
    by_contra hnot
    have hle : fields[j] ≤ fields[i] := le_of_not_gt hnot
    have hmono : rank fields fields[j] ≤ rank fields fields[i] := by
      unfold rank
      apply List.countP_mono_left
      intro name _ hless
      exact decide_eq_true (lt_of_lt_of_le (of_decide_eq_true hless) hle)
    rw [hrankAt j hj, hrankAt i hi] at hmono
    omega
  · rintro hsorted res rfl _ row _ name hname
    have hin : res.fields.idxOf name < res.fields.length := List.idxOf_lt_length_of_mem hname
    have hplace : res.fields[res.fields.idxOf name]? = some name := by
      rw [List.getElem?_eq_getElem hin, List.getElem_idxOf hin]
    have hsame : res.fields.idxOf name = rank res.fields name :=
      (List.getElem?_inj hin hnames).mp (hplace.trans (getElem?_rank hsorted hname).symm)
    rw [hsame]

section Example

def noPool : MysqlPool := ⟨[], 0, 0, [], 0⟩

/-- A query for a code and a level. -/
def codes : MYSQL_RES where
  fields := ["code", "level"]
  rows := [[some "1", some "7"], [some "2", some "9"]]
  cells := by decide

theorem readers_agree_codes : Agree noPool 0 codes true ∧ ¬ Agree noPool 0 codes false := by
  have hnames : codes.fields.Nodup := by decide
  have hnull : ∀ row ∈ codes.rows, none ∉ row := by decide
  have hsorted : codes.fields.Pairwise (· < ·) := by decide
  constructor
  · exact (readers_agree_iff noPool 0 hnames hnull true).mpr ((inRank_iff_sorted hnames).mpr hsorted codes rfl hnull)
  · rw [readers_agree_iff noPool 0 hnames hnull false]
    rintro (hrows | hfields)
    · cases hrows
    · cases hfields

/-- The same query, for the level first. -/
def levels : MYSQL_RES where
  fields := ["level", "code"]
  rows := [[some "7", some "1"], [some "9", some "2"]]
  cells := by decide

/-- The map has the levels under the name of the codes. -/
theorem not_readers_agree_levels :
    levels.fields.Nodup ∧ (∀ row ∈ levels.rows, none ∉ row) ∧
      (noPool.executeSql_Map (some 0) ⟨true, some levels⟩).1 =
        [("code", [some "7", some "9"]), ("level", [some "1", some "2"])] ∧
      levels.vector = some [[("level", "7"), ("code", "1")], [("level", "9"), ("code", "2")]] ∧
      ∀ stored, ¬ Agree noPool 0 levels stored := by
  have hmap : (noPool.executeSql_Map (some 0) ⟨true, some levels⟩).1 =
      [("code", [some "7", some "9"]), ("level", [some "1", some "2"])] := by decide
  have hvector : levels.vector = some [[("level", "7"), ("code", "1")], [("level", "9"), ("code", "2")]] := by decide
  refine ⟨by decide, by decide, hmap, hvector, ?_⟩
  rintro stored ⟨result, p', hresult, _, hentries⟩
  rw [hmap] at hentries
  have hsame : (result, p') =
      ([[("level", "7"), ("code", "1")], [("level", "9"), ("code", "2")]], noPool.close (some 0)) := by
    simp only [MysqlPool.executeSql_Vector, hvector] at hresult
    exact (Option.some.inj hresult).symm
  obtain ⟨rfl, _⟩ := Prod.mk.inj hsame
  have hcode := hentries ("code", [some "7", some "9"]) List.mem_cons_self
  revert hcode
  cases stored <;> decide

end Example

end Agreement

end AsioGameServer.mysql
