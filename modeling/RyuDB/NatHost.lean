/-
# A host for tables of numbers

A concrete `Host` whose cells are natural numbers: a `set` is listed in the order of its last
occurrences, every number is a value of every column type, and a frame is written as its columns
and the cells of its rows.  `Frame.ofCells` rebuilds the frame, so writing and reading is the
identity.  Below it, a data directory with the smallest table with a declared key, and
statements on it.
-/
import RyuDB.Lib.Wire
import RyuDB.Dml

namespace RyuDB

/-! ## 1. Frames as cells -/

/-- A frame from its columns and the cells of its rows. -/
def Frame.ofCells (x : List String × List (List (Cell Nat))) : Frame Nat where
  columns := x.1
  rows := x.2.map (cellOf x.1)
  supported := by
    intro r hr c hc
    obtain ⟨cells, -, rfl⟩ := List.mem_map.mp hr
    exact cellOf_notMem c x.1 cells hc

/-- The columns of a frame and the cells of its rows. -/
def Frame.cells (f : Frame Nat) : List String × List (List (Cell Nat)) :=
  (f.columns, f.rows.map fun r => f.columns.map r)

theorem Frame.ofCells_cells (f : Frame Nat) : Frame.ofCells f.cells = f := by
  refine Frame.ext rfl ?_
  simp only [Frame.ofCells, Frame.cells, List.map_map]
  refine (List.map_congr_left fun r hr => ?_).trans (List.map_id _)
  funext c
  by_cases hc : c ∈ f.columns
  · exact cellOf_map r c f.columns hc
  · rw [Function.comp_apply, cellOf_notMem c _ _ hc, id_eq, f.supported r hr c hc]

/-! ## 2. The host -/

/-- Strings as lists of code points. -/
def stringWire : Wire String :=
  (Wire.list Wire.nat).map (fun l => String.ofList (l.map Char.ofNat))
    (fun s => s.toList.map Char.toNat) (by
      intro s
      rw [List.map_map]
      have h : s.toList.map (Char.ofNat ∘ Char.toNat) = s.toList :=
        (List.map_congr_left fun c _ => Char.ofNat_toNat c).trans (List.map_id _)
      rw [h, String.ofList_toList])

/-- A cell, NULL first. -/
def cellWire : Wire (Cell Nat) :=
  Wire.nat.map (fun n => if n = 0 then none else some (n - 1))
    (fun c => match c with
      | none => 0
      | some n => n + 1) (by
      intro c
      cases c <;> simp)

/-- Frames. -/
def frameWire : Wire (Frame Nat) :=
  (stringWire.list.pair cellWire.list.list).map Frame.ofCells Frame.cells Frame.ofCells_cells

/-- The host of tables of numbers. -/
def natHost : Host Nat where
  setOrder := List.dedup
  setOrder_perm l := List.Perm.refl _
  coerce _ _ v := .ok (some v)
  serialize := frameWire.put
  deserialize bs :=
    match frameWire.get bs with
    | none => none
    | some (f, _) => some f
  roundtrip f := by
    have h := frameWire.get_put f []
    rw [List.append_nil] at h
    rw [h]

/-! ## 3. A table with one key column -/

/-- Rows of the one column `k`. -/
def keyFrame (ks : List Nat) : Frame Nat := Frame.ofCells (["k"], ks.map fun k => [some k])

/-- The entry of a table with the one column `k`, its primary key, kept in one file. -/
def keyTable (t : String) (p : Path) : TableInfo Nat where
  name := t
  paths := [p]
  rowCount := 0
  schema := [⟨"k", .integer, true⟩]
  constraints := { primaryKey := some ["k"] }

/-- A file with the one column `k`. -/
def keyParquet (ks : List Nat) : Parquet Nat where
  schema := [⟨"k", .integer, true⟩]
  frame := keyFrame ks
  names := rfl
  required := by
    intro r _ c hc
    cases hc

/-- A data directory with one table, `t`, kept in `d/t.parquet`. -/
def oneTable : Disk Nat where
  parquet := (∅ : Dict _ _).set ⟨"d", "t.parquet"⟩ (keyParquet [])
  catalog := some [⟨"t", [⟨"d", "t.parquet"⟩], ⟨["k"], some ["k"], [], ∅⟩⟩]
  wal := none

/-- `INSERT INTO t VALUES (k)`. -/
def insertKey (t : String) (k : Nat) : Stmt Nat := .insert ⟨t, none, [[some k]]⟩

/-- `DELETE FROM t`. -/
def deleteAll (t : String) : Stmt Nat := .delete ⟨t, none⟩

/-- `DELETE FROM t WHERE k = n`. -/
def deleteKey (t : String) (n : Nat) : Stmt Nat :=
  .delete ⟨t, some ⟨fun _ => .ok (), fun r => decide (r "k" = some n)⟩⟩

end RyuDB
