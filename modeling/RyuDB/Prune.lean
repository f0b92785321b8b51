/-
# Projection pruning

`prune_projections` collects the names a plan refers to into one set and gives it to every scan:
a scan then reads the referenced columns of its table, in sorted order, or the whole table when no
column of it is referenced.  The pruned plan is the plan itself over smaller tables:

    exec D (rewrite plan)  =  exec (D cut to the referenced columns) plan

so the question is what a plan returns when its tables lose columns nobody names.  Expressions,
keys and renamings must mean the same in the smaller scope, and the places that read a scope as a
whole (DISTINCT, the arms of a set operation and the top of the query) must not lose a column.
`pruneSafe` says so for the inside of a plan, and the columns of the top decide the rest.

`pruneSafe` is decided by the schema and the plan, so it can be checked before anything is executed.
It is also more than the code checks: the code looks for a star at the top of a SELECT and trusts
that every other name is written somewhere.

The proof has two halves.  First the rewritten plan is the plan over cut tables (`exec_rewriteScans`);
this is where the scans are looked at, and it holds of every plan.  Then `exec_cut` goes up the plan:
over the cut tables each operator returns the frame it returned, with fewer columns (`Cut`).  What an
operator needs for that is one hypothesis about the references it makes, the same column in both
scopes, and there is one lemma for each operator, named after it.
-/
import RyuDB.BuiltExec
import RyuDB.JoinSides

namespace RyuDB.Sql

variable {V : Type}

/-! ## 1. Tables cut to the referenced columns -/

/-- The columns a pruned scan reads of a table with the columns `cols`. -/
def keptColumns (referenced cols : List String) : List String :=
  scanColumns cols (some (referenced.filter (· ∈ cols)))

theorem mem_keptColumns {referenced cols : List String} {c : String}
    (h : c ∈ keptColumns referenced cols) : c ∈ cols := by
  unfold keptColumns at h
  cases hf : referenced.filter (· ∈ cols) with
  | nil =>
    rw [hf] at h
    exact h
  | cons d ds =>
    rw [hf, scanColumns, mem_sortedSet, ← hf, List.mem_filter] at h
    exact of_decide_eq_true h.2

theorem nodup_keptColumns {referenced cols : List String} (h : cols.Nodup) :
    (keptColumns referenced cols).Nodup := by
  unfold keptColumns
  cases referenced.filter (· ∈ cols) with
  | nil => exact h
  | cons d ds => exact nodup_sortedSet _

/-- What `prune_projections` gives a scan of a table with these columns reads `keptColumns`. -/
theorem scanColumns_pruned (sch : Dict String (List String)) (referenced : List String)
    (t : String) : scanColumns ((sch.get? t).getD []) (prunedColumns sch referenced t) =
      keptColumns referenced ((sch.get? t).getD []) := by
  unfold prunedColumns keptColumns
  cases (sch.get? t).getD [] with
  | nil => simp [scanColumns]
  | cons c cs => rfl

/-- The schema of the cut tables. -/
def cutSchema (referenced : List String) (sch : Dict String (List String)) :
    Dict String (List String) := sch.mapVal (keptColumns referenced)

/-- The tables, each cut to its referenced columns. -/
def Database.cut (referenced : List String) (D : Database V) : Database V where
  tables := D.tables.mapVal fun f => .ofRows (keptColumns referenced f.columns) f.rows
  nodup t f h := by
    rw [Dict.get?_mapVal, Option.map_eq_some_iff] at h
    obtain ⟨g, hg, rfl⟩ := h
    exact nodup_keptColumns (D.nodup t g hg)

theorem schema_cut (referenced : List String) (D : Database V) :
    (D.cut referenced).schema = cutSchema referenced D.schema := by
  simp [Database.schema, Database.cut, cutSchema, Dict.mapVal, Function.comp_def]

/-- A plan as the parser builds it: no scan has a column set yet. -/
def unscoped : PlanNode V → Bool
  | .scan _ c _ => c.isNone
  | .derived input _ => unscoped input
  | .filter input _ => unscoped input
  | .project input _ => unscoped input
  | .join l r _ => unscoped l && unscoped r
  | .aggregate input _ _ => unscoped input
  | .window input _ => unscoped input
  | .sort input _ => unscoped input
  | .limit input _ _ => unscoped input
  | .distinct input => unscoped input
  | .setOp l r _ _ => unscoped l && unscoped r

section Rewrite
variable {referenced : List String}

theorem sideAlias_rewriteScans (sch : Dict String (List String)) (p : PlanNode V) :
    (rewriteScans sch referenced p).sideAlias = p.sideAlias := by
  induction p with
  | filter input e ih => exact ih
  | _ => rfl

theorem scan_cut (D : Database V) (t : String) :
    D.scan t (prunedColumns D.schema referenced t) = (D.cut referenced).scan t none := by
  unfold Database.scan
  have hget : (D.cut referenced).tables.get? t = (D.tables.get? t).map fun f =>
      .ofRows (keptColumns referenced f.columns) f.rows := Dict.get?_mapVal _ _ _
  rw [hget]
  cases hg : D.tables.get? t with
  | none =>
    have hkeys : (D.cut referenced).tables.keys = D.tables.keys := Dict.keys_mapVal _ _
    simp only [Option.map_none, hkeys]
  | some f =>
    have hcols : (D.schema.get? t).getD [] = f.columns := by simp [Database.schema, hg]
    have hkept := scanColumns_pruned D.schema referenced t
    rw [hcols] at hkept
    simp only [Option.map_some, hkept]
    rw [Frame.select_of_subset fun c => mem_keptColumns]
    exact (Frame.select_self _).symm

variable [DecidableEq V]

/-- **The pruned plan is the plan over the cut tables**, and a sort above finds the same source. -/
theorem exec_rewriteScans (S : Scalars V) (D : Database V) {p : PlanNode V}
    (h : unscoped p = true) :
    exec S D (rewriteScans D.schema referenced p) = exec S (D.cut referenced) p ∧
      ∀ df, sortSource S D (rewriteScans D.schema referenced p) df =
        sortSource S (D.cut referenced) p df := by
  induction p with
  | scan t c a =>
    cases c with
    | none => exact ⟨scan_cut D t, fun _ => rfl⟩
    | some c => cases h
  | derived input a ih => exact ⟨(ih h).1, fun _ => rfl⟩
  | filter input e ih => exact ⟨by rw [rewriteScans, exec, exec, (ih h).1], fun _ => rfl⟩
  | project input items ih =>
    exact ⟨by rw [rewriteScans, exec, exec, (ih h).1], fun _ => (ih h).1⟩
  | join l r on ihl ihr =>
    rw [unscoped, Bool.and_eq_true] at h
    refine ⟨?_, fun _ => rfl⟩
    rw [rewriteScans, exec, exec, (ihl h.1).1, (ihr h.2).1, sideAlias_rewriteScans,
      sideAlias_rewriteScans]
  | aggregate input keys aggs ih =>
    exact ⟨by rw [rewriteScans, exec, exec, (ih h).1], fun _ => rfl⟩
  | window input funcs ih => exact ⟨by rw [rewriteScans, exec, exec, (ih h).1], fun _ => rfl⟩
  | sort input keys ih =>
    refine ⟨?_, fun _ => rfl⟩
    rw [rewriteScans, exec_sort, exec_sort, (ih h).1, funext (ih h).2]
  | limit input n o ih => exact ⟨by rw [rewriteScans, exec, exec, (ih h).1], fun _ => rfl⟩
  | distinct input ih => exact ⟨by rw [rewriteScans, exec, exec, (ih h).1], fun _ => rfl⟩
  | setOp l r op d ihl ihr =>
    rw [unscoped, Bool.and_eq_true] at h
    exact ⟨by rw [rewriteScans, exec, exec, (ihl h.1).1, (ihr h.2).1], fun _ => rfl⟩

end Rewrite

/-! ## 2. The same references in a smaller scope -/

/-- A frame with some of its columns. -/
structure Cut (f g : Frame V) : Prop where
  columns : ∀ c ∈ g.columns, c ∈ f.columns
  rows : g.rows = f.rows.map (restrict g.columns)

theorem Cut.eq {f g : Frame V} (h : Cut f g) (hc : f.columns = g.columns) : f = g := by
  refine Frame.ext hc ?_
  rw [h.rows, ← hc]
  exact ((List.map_congr_left fun r hr => Frame.restrict_self hr).trans (List.map_id _)).symm

theorem Cut.refl (f : Frame V) : Cut f f where
  columns _ hc := hc
  rows := ((List.map_congr_left fun _ hr => Frame.restrict_self hr).trans (List.map_id _)).symm

/-- Every reference of the expression reads the column it read in the larger scope. -/
def sameRefs (L L' : List String) (e : Expr V) : Bool :=
  e.refs.all fun x => resolve L x.1 x.2 = resolve L' x.1 x.2

theorem mem_of_resolve {L : List String} {n m : String} {t : Option String}
    (h : resolve L n t = some m) : m ∈ L := by
  cases t with
  | none =>
    rw [resolve] at h
    split at h <;> cases h
    assumption
  | some t =>
    rw [resolve] at h
    split at h
    · cases h
      assumption
    · split at h <;> cases h
      assumption

section Scope
variable {L L' : List String} {S : Scalars V}

theorem value_cut {e : Expr V} (h : sameRefs L L' e = true) (r : Row V) :
    e.value S L' (restrict L' r) = e.value S L r := by
  refine Expr.value_congr fun x hx => ?_
  have hres := of_decide_eq_true (List.all_eq_true.mp h x hx)
  rw [hres]
  cases hm : resolve L' x.1 x.2 with
  | none => rfl
  | some m => exact restrict_mem (mem_of_resolve hm)

theorem check_cut {e : Expr V} (h : sameRefs L L' e = true) (hc : e.check L = .ok ()) :
    e.check L' = .ok () := by
  rw [Expr.check_ok] at hc ⊢
  refine ⟨fun x hx => ?_, hc.2⟩
  have hres := of_decide_eq_true (List.all_eq_true.mp h x hx)
  rw [← hres]
  exact hc.1 x hx

theorem itemCell_cut {items : List (Expr V × String)}
    (h : (items.all fun i => sameRefs L L' i.1) = true) (r : Row V) :
    itemCell S L' items (restrict L' r) = itemCell S L items r := by
  funext n
  unfold itemCell
  cases hi : items.reverse.find? fun i => i.2 = n with
  | none => rfl
  | some i =>
    have hmem := List.mem_reverse.mp (List.mem_of_find?_eq_some hi)
    exact value_cut (List.all_eq_true.mp h i hmem) r

end Scope

/-! ## 3. The operators over a frame that lost columns -/

section Operators
variable {f g f' : Frame V} {S : Scalars V}

theorem Cut.filter {q q' : Row V → Bool} (h : Cut f g)
    (hq : ∀ r, q' (restrict g.columns r) = q r) : Cut (f.filter q) (g.filter q') where
  columns := h.columns
  rows := by
    rw [Frame.filter_rows, Frame.filter_rows, h.rows, List.filter_map]
    exact congrArg _ (List.filter_congr fun r _ => hq r)

theorem Cut.filterFrame {e : Expr V} (h : Cut f g) (he : sameRefs f.columns g.columns e = true)
    (hf : filterFrame S f e = .ok f') : ∃ g', filterFrame S g e = .ok g' ∧ Cut f' g' := by
  obtain ⟨hc, rfl⟩ := filterFrame_ok.mp hf
  refine ⟨_, filterFrame_ok.mpr ⟨check_cut he hc, rfl⟩, h.filter fun r => ?_⟩
  rw [value_cut he]

/-- A projection whose items read what they read returns the very frame. -/
theorem Cut.projectFrame {items : List (Expr V × String)} (h : Cut f g)
    (hi : (items.all fun i => sameRefs f.columns g.columns i.1) = true)
    (hf : projectFrame S f items = .ok f') : projectFrame S g items = .ok f' := by
  obtain ⟨hc, rfl⟩ := projectFrame_ok.mp hf
  refine projectFrame_ok.mpr
    ⟨fun i hmem => check_cut (List.all_eq_true.mp hi i hmem) (hc i hmem), ?_⟩
  rw [h.rows, List.map_map]
  exact congrArg _ (List.map_congr_left fun r _ => (itemCell_cut hi r).symm)

theorem Cut.limitFrame (h : Cut f g) (n o : Nat) : Cut (limitFrame f n o) (limitFrame g n o) where
  columns := h.columns
  rows := by
    have hf : (Sql.limitFrame f n o).rows = (f.rows.drop o).take n := by
      refine ofRows_rows_of_supported fun r hr => f.supported r ?_
      exact List.mem_of_mem_drop (List.mem_of_mem_take hr)
    have hg : (Sql.limitFrame g n o).rows = (g.rows.drop o).take n := by
      refine ofRows_rows_of_supported fun r hr => g.supported r ?_
      exact List.mem_of_mem_drop (List.mem_of_mem_take hr)
    rw [hf, hg, h.rows, ← List.map_drop, ← List.map_take]
    rfl

/-- The group keys of an aggregate in a smaller scope: a name is a column of both scopes or of
neither, and what is evaluated for a new name reads the same columns. -/
def sameKeyRefs : List String → List String → List (Expr V × String) → Bool
  | _, _, [] => true
  | L, L', (e, n) :: keys =>
    decide (n ∈ L ↔ n ∈ L') && (decide (n ∈ L) || sameRefs L L' e) &&
      sameKeyRefs (addColumn L n) (addColumn L' n) keys

/-- The columns an aggregate evaluates its arguments on. -/
def workColumns (L : List String) (keys : List (Expr V × String)) : List String :=
  (keys.map Prod.snd).foldl addColumn L

theorem addColumn_mem {L : List String} {n : String} (h : n ∈ L) : addColumn L n = L := if_pos h

theorem withKeys_columns : ∀ {keys : List (Expr V × String)} {f f' : Frame V},
    withKeys S f keys = .ok f' → f'.columns = workColumns f.columns keys
  | [], _, _, h => by
    cases h
    rfl
  | (e, n) :: keys, f, f', h => by
    unfold withKeys at h
    rw [workColumns, List.map_cons, List.foldl_cons]
    split at h
    · rename_i hn
      rw [addColumn_mem hn]
      exact withKeys_columns h
    · obtain ⟨_, -, h⟩ := bind_eq_ok.mp h
      exact withKeys_columns h

theorem mem_addColumn {L : List String} {n c : String} :
    c ∈ addColumn L n ↔ c ∈ L ∨ c = n := by
  unfold addColumn
  split
  · rename_i hn
    exact ⟨.inl, fun h => h.elim id fun he => he ▸ hn⟩
  · rw [List.mem_append, List.mem_singleton]

theorem addColumn_subset {L L' : List String} (h : ∀ c ∈ L', c ∈ L) (n : String) :
    ∀ c ∈ addColumn L' n, c ∈ addColumn L n := fun c hc =>
  mem_addColumn.mpr ((mem_addColumn.mp hc).imp_left (h c))

theorem Cut.withColumn {v v' : Row V → Cell V} (h : Cut f g) (n : String)
    (hv : ∀ r, v' (restrict g.columns r) = v r) :
    Cut (withColumn f n v) (withColumn g n v') where
  columns := addColumn_subset h.columns n
  rows := by
    simp only [Sql.withColumn, Frame.ofRows_rows, Frame.ofRows_columns, h.rows, List.map_map]
    refine List.map_congr_left fun r _ => funext fun c => ?_
    simp only [Function.comp_apply]
    by_cases hc : c ∈ addColumn g.columns n
    · rw [restrict_mem hc, restrict_mem hc, restrict_mem (addColumn_subset h.columns n c hc)]
      by_cases hn : c = n
      · rw [if_pos hn, if_pos hn, hv]
      · rw [if_neg hn, if_neg hn, restrict_mem ((mem_addColumn.mp hc).resolve_right hn)]
    · rw [restrict_notMem hc, restrict_notMem hc]

theorem Cut.withKeys : ∀ {keys : List (Expr V × String)} {f f' g : Frame V}, Cut f g →
    sameKeyRefs f.columns g.columns keys = true → withKeys S f keys = .ok f' →
    ∃ g', withKeys S g keys = .ok g' ∧ Cut f' g'
  | [], _, _, _, h, _, hf => by
    cases hf
    exact ⟨_, rfl, h⟩
  | (e, n) :: keys, f, f', g, h, hs, hf => by
    rw [sameKeyRefs, Bool.and_eq_true, Bool.and_eq_true, Bool.or_eq_true] at hs
    obtain ⟨⟨hn, he⟩, hs⟩ := hs
    have hiff : n ∈ f.columns ↔ n ∈ g.columns := of_decide_eq_true hn
    unfold Sql.withKeys at hf ⊢
    by_cases hnf : n ∈ f.columns
    · rw [addColumn_mem hnf, addColumn_mem (hiff.mp hnf)] at hs
      rw [if_pos hnf] at hf
      rw [if_pos (hiff.mp hnf)]
      exact h.withKeys hs hf
    · rw [if_neg hnf] at hf
      rw [if_neg fun hng => hnf (hiff.mpr hng)]
      obtain ⟨_, hc, hf⟩ := bind_eq_ok.mp hf
      have hrefs := he.resolve_left (by rw [decide_eq_true_eq]; exact hnf)
      have hcol : Cut (Sql.withColumn f n (e.value S f.columns))
          (Sql.withColumn g n (e.value S g.columns)) := h.withColumn n (value_cut hrefs)
      obtain ⟨g', hg', hcut⟩ := hcol.withKeys hs hf
      exact ⟨g', bind_eq_ok.mpr ⟨(), check_cut hrefs hc, hg'⟩, hcut⟩

theorem passes_cut {L L' : List String} {p : Option (Expr V)}
    (h : ∀ e ∈ p, sameRefs L L' e = true) (r : Row V) :
    passes S L' p (restrict L' r) = passes S L p r := by
  cases p with
  | none => rfl
  | some e =>
    rw [passes, passes, value_cut (h e rfl)]

variable [DecidableEq V]

theorem aggCell_cut {L L' : List String} {a : AggFunc V × String}
    (h : ∀ e ∈ a.1.exprs, sameRefs L L' e = true) (rows : List (Row V)) :
    aggCell S L' (rows.map (restrict L')) a = aggCell S L rows a := by
  have hfilter : ∀ e ∈ a.1.filter, sameRefs L L' e = true := fun e he =>
    h e (List.mem_append_right _ (Option.mem_toList.mpr he))
  have harg : ∀ r : Row V, a.1.arg.map (Expr.value S L' (restrict L' r)) =
      a.1.arg.map (Expr.value S L r) := by
    intro r
    cases ha : a.1.arg with
    | none => rfl
    | some e =>
      have he : e ∈ a.1.exprs := List.mem_append_left _ (Option.mem_toList.mpr ha)
      rw [Option.map_some, Option.map_some, value_cut (h e he)]
  simp only [aggCell, aggCells, List.map_map, Function.comp_def, harg, passes_cut hfilter]

/-- An aggregate in a smaller scope: its group keys and its arguments mean the same. -/
def sameAggRefs (L L' : List String) (keys : List (Expr V × String))
    (aggs : List (AggFunc V × String)) : Bool :=
  sameKeyRefs L L' keys && aggs.all fun a =>
    a.1.exprs.all (sameRefs (workColumns L keys) (workColumns L' keys))

/-- An aggregate whose keys and arguments read what they read returns the very frame. -/
theorem Cut.aggregateFrame {keys : List (Expr V × String)} {aggs : List (AggFunc V × String)}
    (h : Cut f g) (hs : sameAggRefs f.columns g.columns keys aggs = true)
    (hf : aggregateFrame S f keys aggs = .ok f') : aggregateFrame S g keys aggs = .ok f' := by
  rw [sameAggRefs, Bool.and_eq_true] at hs
  obtain ⟨work, hw, hc, rfl⟩ := aggregateFrame_ok.mp hf
  obtain ⟨work', hw', hcut⟩ := h.withKeys hs.1 hw
  have hcols := withKeys_columns hw
  have hcols' := withKeys_columns hw'
  have hrefs : ∀ a ∈ aggs, ∀ e ∈ a.1.exprs, sameRefs work.columns work'.columns e = true := by
    intro a ha e he
    rw [hcols, hcols']
    exact List.all_eq_true.mp (List.all_eq_true.mp hs.2 a ha) e he
  refine aggregateFrame_ok.mpr
    ⟨work', hw', fun a ha e he => check_cut (hrefs a ha e he) (hc a ha e he), ?_⟩
  cases keys with
  | nil =>
    -- without group keys the frame itself is aggregated
    cases hw
    cases hw'
    have hcells : aggs.map (aggCell S g.columns g.rows) = aggs.map (aggCell S f.columns f.rows) :=
      List.map_congr_left fun a ha => by rw [h.rows, aggCell_cut (hrefs a ha)]
    simp only [List.isEmpty_nil, if_true, scalarGlobalAgg, hcells]
  | cons k ks =>
    -- the names of the group keys are columns of the smaller frame, so it has the same groups
    have hby : ∀ c ∈ (k :: ks).map Prod.snd, c ∈ work'.columns := fun c hmem => by
      rw [hcols']
      exact mem_foldl_addColumn.mpr (.inr hmem)
    have hkeys : work'.rows.map (keyOf ((k :: ks).map Prod.snd)) =
        work.rows.map (keyOf ((k :: ks).map Prod.snd)) := by
      rw [hcut.rows, List.map_map]
      exact List.map_congr_left fun r _ => keyOf_restrict hby r
    have hgroup : ∀ key : Key V,
        (work'.rows.filter fun r => keyOf ((k :: ks).map Prod.snd) r = key) =
          (work.rows.filter fun r => keyOf ((k :: ks).map Prod.snd) r = key).map
            (restrict work'.columns) := fun key => by
      rw [hcut.rows, List.filter_map]
      exact congrArg _ (List.filter_congr fun r _ => by
        rw [Function.comp_apply, keyOf_restrict hby])
    have hcells : ∀ key : Key V, aggs.map (aggCell S work'.columns
          (work'.rows.filter fun r => keyOf ((k :: ks).map Prod.snd) r = key)) =
        aggs.map (aggCell S work.columns
          (work.rows.filter fun r => keyOf ((k :: ks).map Prod.snd) r = key)) := fun key =>
      List.map_congr_left fun a ha => by rw [hgroup, aggCell_cut (hrefs a ha)]
    simp only [List.isEmpty_cons, Bool.false_eq_true, if_false, fusedAgg, hkeys, hcells]

omit [DecidableEq V] in
theorem keepFirst_map {α β κ : Type} [DecidableEq κ] (key : β → κ) (m : α → β) : ∀ l : List α,
    keepFirst key (l.map m) = (keepFirst (key ∘ m) l).map m
  | [] => rfl
  | a :: l => by
    rw [List.map_cons, keepFirst, keepFirst, keepFirst_map key m l, List.map_cons, List.filter_map]
    rfl

/-- DISTINCT compares all cells, so the smaller scope must have all columns. -/
theorem Cut.dropDuplicates (h : Cut f g) (hall : ∀ c ∈ f.columns, c ∈ g.columns) :
    Cut (dropDuplicates f) (dropDuplicates g) where
  columns := h.columns
  rows := by
    have hiff : ∀ c, c ∈ g.columns ↔ c ∈ f.columns := fun c => ⟨h.columns c, hall c⟩
    have hkey : (keyOf g.columns ∘ restrict g.columns : Row V → Key V) = keyOf g.columns :=
      funext fun r => keyOf_restrict (fun _ hc => hc) r
    have hkeep : keepFirst (keyOf g.columns) g.rows =
        (keepFirst (keyOf f.columns) f.rows).map (restrict g.columns) := by
      rw [h.rows, keepFirst_map, hkey, keepFirst_columns hiff]
    simp only [Sql.dropDuplicates, Frame.ofRows_rows, Frame.ofRows_columns, hkeep, List.map_map]
    refine List.map_congr_left fun r _ => funext fun c => ?_
    by_cases hc : c ∈ g.columns
    · simp only [Function.comp_apply, restrict_mem hc, restrict_mem (h.columns c hc)]
    · simp only [Function.comp_apply, restrict_notMem hc]

omit [DecidableEq V] in
/-- The functions of a window in a smaller scope: each is added to the columns of the ones
before. -/
def sameWindowRefs : List String → List String → List (WindowFunc V × String) → Bool
  | _, _, [] => true
  | L, L', w :: ws => w.1.args.all (sameRefs L L') &&
      sameWindowRefs (addColumn L w.2) (addColumn L' w.2) ws

omit [DecidableEq V] in
theorem Cut.windowColumn {w : WindowFunc V × String} (h : Cut f g)
    (hs : w.1.args.all (sameRefs f.columns g.columns) = true) (hf : windowColumn S f w = .ok f') :
    ∃ g', windowColumn S g w = .ok g' ∧ Cut f' g' := by
  obtain ⟨hc, rfl⟩ := windowColumn_ok.mp hf
  have hrefs : ∀ e ∈ w.1.args, sameRefs f.columns g.columns e = true := List.all_eq_true.mp hs
  refine ⟨_, windowColumn_ok.mpr ⟨fun e he => check_cut (hrefs e he) (hc e he), rfl⟩,
    addColumn_subset h.columns w.2, ?_⟩
  have hargs : (g.rows.map fun r => w.1.args.map (Expr.value S g.columns r)) =
      f.rows.map fun r => w.1.args.map (Expr.value S f.columns r) := by
    rw [h.rows, List.map_map]
    exact List.map_congr_left fun r _ => List.map_congr_left fun e he => value_cut (hrefs e he) r
  simp only [hargs, Frame.ofRows_rows, Frame.ofRows_columns]
  rw [h.rows, List.zipWith_map_left, List.map_map, List.map_zipWith, List.map_zipWith]
  congr 1
  funext r x c
  simp only [Function.comp_apply]
  by_cases hc : c ∈ addColumn g.columns w.2
  · rw [restrict_mem hc, restrict_mem hc, restrict_mem (addColumn_subset h.columns _ c hc)]
    by_cases hn : c = w.2
    · rw [if_pos hn, if_pos hn]
    · rw [if_neg hn, if_neg hn, restrict_mem ((mem_addColumn.mp hc).resolve_right hn)]
  · rw [restrict_notMem hc, restrict_notMem hc]

omit [DecidableEq V] in
theorem Cut.windowFrame : ∀ {ws : List (WindowFunc V × String)} {f f' g : Frame V}, Cut f g →
    sameWindowRefs f.columns g.columns ws = true → windowFrame S f ws = .ok f' →
    ∃ g', windowFrame S g ws = .ok g' ∧ Cut f' g'
  | [], _, _, _, h, _, hf => by
    cases hf
    exact ⟨_, rfl, h⟩
  | w :: ws, f, f', g, h, hs, hf => by
    rw [sameWindowRefs, Bool.and_eq_true] at hs
    obtain ⟨f₁, hf₁, hf⟩ := windowFrame_cons.mp hf
    obtain ⟨g₁, hg₁, h₁⟩ := h.windowColumn hs.1 hf₁
    have hc : f₁.columns = addColumn f.columns w.2 := by rw [(windowColumn_ok.mp hf₁).2]; rfl
    have hc' : g₁.columns = addColumn g.columns w.2 := by rw [(windowColumn_ok.mp hg₁).2]; rfl
    obtain ⟨g', hg', hcut⟩ := h₁.windowFrame (by rw [hc, hc']; exact hs.2) hf
    exact ⟨g', windowFrame_cons.mpr ⟨g₁, hg₁, hg'⟩, hcut⟩

omit [DecidableEq V] in
/-- The keys of a sort in a smaller scope: a key is a bare column of both frames or of neither, and
the others mean the same in the frames they are evaluated on. -/
def sameSortRefs (L L' M M' : List String) (keys : List (Expr V × Bool)) : Bool :=
  keys.all fun k => decide (bareSafe L k.1 = bareSafe L' k.1) &&
    (bareSafe L k.1 || sameRefs M M' k.1)

omit [DecidableEq V] in
theorem bare_cut {L : List String} {e : Expr V} (h : bareSafe L e = true) (r : Row V) :
    (e.columns.head?).bind (restrict L r) = (e.columns.head?).bind r := by
  cases e with
  | col n t =>
    have hn : n ∈ L := by
      cases t with
      | none => exact of_decide_eq_true h
      | some t => exact of_decide_eq_true (Bool.and_eq_true_iff.mp h).1
    exact restrict_mem hn
  | _ => cases h

omit [DecidableEq V] in
theorem sortCell_cut {L L' M M' : List String} {keys : List (Expr V × Bool)}
    (h : sameSortRefs L L' M M' keys = true) (r s : Row V) {k : Expr V × Bool} (hk : k ∈ keys) :
    sortCell S L' M' (restrict L' r) (restrict M' s) k.1 = sortCell S L M r s k.1 := by
  have hkey := List.all_eq_true.mp h k hk
  rw [Bool.and_eq_true, decide_eq_true_eq, Bool.or_eq_true] at hkey
  unfold sortCell
  rw [hkey.1]
  split
  · rename_i hb
    exact bare_cut hb r
  · rename_i hb
    exact value_cut (hkey.2.resolve_left fun hf => hb (hkey.1 ▸ hf)) s

omit [DecidableEq V] in
theorem Cut.sortPairs {keys : List (Expr V × Bool)} {src src' : Except DbError (Frame V)}
    {M M' : List String} {pairs : List (Key V × Row V)} (h : Cut f g)
    (hs : sameSortRefs f.columns g.columns M M' keys = true)
    (hsrc : ∀ s, src = .ok s → s.columns = M ∧ ∃ s', src' = .ok s' ∧ s'.columns = M' ∧ Cut s s')
    (hf : sortPairs S f keys src = .ok pairs) :
    sortPairs S g keys src' = .ok (pairs.map fun x => (x.1, restrict g.columns x.2)) := by
  have hbare : ∀ k ∈ keys, bareSafe f.columns k.1 = bareSafe g.columns k.1 := by
    intro k hk
    have hkey := List.all_eq_true.mp hs k hk
    rw [Bool.and_eq_true, decide_eq_true_eq] at hkey
    exact hkey.1
  have hall : (keys.all fun k => bareSafe f.columns k.1) =
      keys.all fun k => bareSafe g.columns k.1 := by
    rw [Bool.eq_iff_iff, List.all_eq_true, List.all_eq_true]
    exact forall₂_congr fun k hk => by rw [hbare k hk]
  unfold Sql.sortPairs at hf ⊢
  rw [← hall]
  split at hf
  · rename_i hb
    cases hf
    rw [if_pos hb, h.rows, List.map_map, List.map_map]
    refine congrArg _ (List.map_congr_left fun r _ => ?_)
    simp only [Function.comp_apply, Prod.mk.injEq, and_true]
    refine List.map_congr_left fun k hk => ?_
    have hbf := List.all_eq_true.mp hb k hk
    have hbg : bareSafe g.columns k.1 = true := by rw [← hbare k hk]; exact hbf
    rw [sortCell, sortCell, if_pos hbf, if_pos hbg, bare_cut hbg]
  · rename_i hb
    obtain ⟨s, hok, hf⟩ := bind_eq_ok.mp hf
    obtain ⟨_, hc, hf⟩ := bind_eq_ok.mp hf
    obtain ⟨rfl, s', rfl, rfl, hcut⟩ := hsrc s hok
    cases hf
    rw [if_neg hb]
    refine bind_eq_ok.mpr ⟨s', rfl, bind_eq_ok.mpr ⟨(), Expr.forM_ok.mpr fun k hk => ?_, ?_⟩⟩
    · rw [List.mem_filter, Bool.not_eq_true'] at hk
      have hkey := List.all_eq_true.mp hs k hk.1
      rw [Bool.and_eq_true, Bool.or_eq_true, hbare k hk.1, hk.2] at hkey
      refine check_cut (hkey.2.resolve_left (by decide)) (Expr.forM_ok.mp hc k ?_)
      rw [List.mem_filter, hbare k hk.1, hk.2]
      exact ⟨hk.1, rfl⟩
    · rw [h.rows, hcut.rows, List.zipWith_map, List.map_zipWith]
      refine congrArg _ (congrArg (fun m => List.zipWith m f.rows s.rows) (funext₂ fun r t => ?_))
      rw [List.map_congr_left fun k hk => sortCell_cut hs r t hk]

omit [DecidableEq V] in
theorem sortRows_map (asc : List Bool) (m : Row V → Row V) (pairs : List (Key V × Row V)) :
    sortRows S asc (pairs.map fun x => (x.1, m x.2)) = (sortRows S asc pairs).map m := by
  unfold sortRows
  rw [← List.map_insertionSort (fun a b : Key V × Row V => S.keyLe asc a.1 b.1 = true)
    (fun a b : Key V × Row V => S.keyLe asc a.1 b.1 = true) (fun x => (x.1, m x.2)) pairs
    fun _ _ _ _ => Iff.rfl, List.map_map, List.map_map]
  rfl

omit [DecidableEq V] in
theorem Cut.sortFrame {keys : List (Expr V × Bool)} {src src' : Except DbError (Frame V)}
    {M M' : List String} (h : Cut f g)
    (hs : sameSortRefs f.columns g.columns M M' keys = true)
    (hsrc : ∀ s, src = .ok s → s.columns = M ∧ ∃ s', src' = .ok s' ∧ s'.columns = M' ∧ Cut s s')
    (hf : sortFrame S f keys src = .ok f') :
    ∃ g', sortFrame S g keys src' = .ok g' ∧ Cut f' g' := by
  unfold Sql.sortFrame at hf ⊢
  split at hf
  · rename_i hk
    cases hf
    rw [if_pos hk]
    exact ⟨g, rfl, h⟩
  · rename_i hk
    obtain ⟨pairs, hp, hf⟩ := bind_eq_ok.mp hf
    cases hf
    rw [if_neg hk]
    refine ⟨_, bind_eq_ok.mpr ⟨_, h.sortPairs hs hsrc hp, rfl⟩, h.columns, ?_⟩
    rw [sortRows_map]
    simp only [Frame.ofRows_rows, Frame.ofRows_columns, List.map_map]
    refine List.map_congr_left fun r _ => funext fun c => ?_
    by_cases hc : c ∈ g.columns
    · simp only [Function.comp_apply, restrict_mem hc, restrict_mem (h.columns c hc)]
    · simp only [Function.comp_apply, restrict_notMem hc]

end Operators

/-! ## 4. Joins of frames that lost columns

A join names the columns of its sides when it looks for a name that is on both and needs a suffix.  A
column that is cut on one side frees the other one of its suffix, and then a reference with the suffix
finds nothing; so a join asks that the columns that are left come from where they came from. -/

/-- Every column of the smaller layout comes from the source it has in the larger one. -/
def sameSources (lay lay' : Layout) : Bool :=
  lay'.columns.all fun n => lay'.source n = lay.source n

/-- A join in a smaller scope: its keys are there, its columns have different names and come from
the sources they had, and its residual means the same. -/
def sameJoin (on : JoinOn V) (la ra : Option String) (L R L' R' : List String) : Bool :=
  on.onLeft.all (· ∈ L') && on.onRight.all (· ∈ R') &&
    ((on.how.isSemi && on.onPredicate.isNone) ||
      (decide (joinLayout on la ra L' R').columns.Nodup &&
        sameSources (joinLayout on la ra L R) (joinLayout on la ra L' R'))) &&
    on.onPredicate.all fun p =>
      sameSources (predLayout on la ra L R) (predLayout on la ra L' R') &&
        sameRefs (predLayout on la ra L R).columns (predLayout on la ra L' R').columns p

/-- A source reads columns of the two sides. -/
def Source.Reads (L R : List String) : Source → Prop
  | .left c => c ∈ L
  | .right d => d ∈ R
  | .both c d => c ∈ L ∧ d ∈ R

section Joins
variable {on : JoinOn V} {la ra : Option String} {L R L' R' : List String}

theorem Source.cell_cut {s : Source} (h : s.Reads L' R') (l r : Row V) :
    s.cell (restrict L' l) (restrict R' r) = s.cell l r := by
  cases s with
  | left c => exact restrict_mem h
  | right d => exact restrict_mem h
  | both c d => rw [Source.cell, Source.cell, restrict_mem h.1, restrict_mem h.2]

theorem layout_reads {nl nr : String → String} {keys : List (String × String)}
    {overlap : List String} (hkeys : ∀ k ∈ keys, k.2 ∈ R') {e : String × Source}
    (he : e ∈ layout nl nr keys overlap L' R') : e.2.Reads L' R' := by
  rw [layout, List.mem_append] at he
  rcases he with he | he
  · obtain ⟨c, hc, rfl⟩ := List.mem_map.mp he
    unfold leftEntry
    split
    · rename_i d hd
      obtain ⟨k, hk, rfl⟩ := Option.map_eq_some_iff.mp hd
      exact ⟨hc, hkeys k (List.mem_of_find?_eq_some hk)⟩
    · exact hc
  · obtain ⟨d, hd, rfl⟩ := List.mem_map.mp he
    exact (List.mem_filter.mp hd).1

theorem joinLayout_reads (hkeys : ∀ k ∈ keyPairs on, k.2 ∈ R') {e : String × Source}
    (he : e ∈ joinLayout on la ra L' R') : e.2.Reads L' R' := by
  unfold joinLayout at he
  split at he
  · exact layout_reads hkeys he
  · exact layout_reads hkeys he

theorem predLayout_reads (hkeys : ∀ k ∈ keyPairs on, k.2 ∈ R') {e : String × Source}
    (he : e ∈ predLayout on la ra L' R') : e.2.Reads L' R' := by
  unfold predLayout at he
  split at he
  · have hr : e.2.Reads (nonKeys (keyPairs on) Prod.fst L') (nonKeys (keyPairs on) Prod.snd R') :=
      layout_reads (by simp) he
    cases hs : e.2 with
    | left c =>
      rw [hs] at hr
      exact (mem_nonKeys.mp hr).1
    | right d =>
      rw [hs] at hr
      exact (mem_nonKeys.mp hr).1
    | both c d =>
      rw [hs] at hr
      exact ⟨(mem_nonKeys.mp hr.1).1, (mem_nonKeys.mp hr.2).1⟩
  · exact joinLayout_reads hkeys he

/-- A pair of rows that lost columns is joined to the row that lost columns. -/
theorem row_cut {lay lay' : Layout} (h : sameSources lay lay' = true)
    (hreads : ∀ e ∈ lay', e.2.Reads L' R') (l r : Row V) :
    lay'.row (restrict L' l) (restrict R' r) = restrict lay'.columns (lay.row l r) := by
  funext n
  by_cases hn : n ∈ lay'.columns
  · rw [restrict_mem hn]
    have hsrc := of_decide_eq_true (List.all_eq_true.mp h n hn)
    cases hs : lay'.source n with
    | none => rw [Layout.row, Layout.row, ← hsrc, hs]
    | some s =>
      rw [Layout.row_source hs, Layout.row_source (hsrc ▸ hs)]
      exact Source.cell_cut (hreads _ (mem_of_source hs)) l r
  · rw [restrict_notMem hn, Layout.row_notMem hn]

theorem sameSources_columns {lay lay' : Layout} (h : sameSources lay lay' = true) :
    ∀ n ∈ lay'.columns, n ∈ lay.columns := by
  intro n hn
  have hsrc := of_decide_eq_true (List.all_eq_true.mp h n hn)
  by_contra hnot
  have hlay : lay.source n = none := by
    rw [Layout.source, List.lookup_eq_none_iff]
    intro p hp
    rw [bne_iff_ne]
    rintro rfl
    exact hnot (List.mem_map_of_mem hp)
  rw [hlay, Layout.source, List.lookup_eq_none_iff] at hsrc
  obtain ⟨p, hp, rfl⟩ := List.mem_map.mp hn
  exact absurd (hsrc p hp) (by simp)

theorem restrict_nullRow (L : List String) : restrict L (nullRow : Row V) = nullRow := by
  funext c
  unfold restrict nullRow
  split <;> rfl

theorem mem_keyPairs {k : String × String} (h : k ∈ keyPairs on) :
    k.1 ∈ on.onLeft ∧ k.2 ∈ on.onRight := by
  unfold keyPairs at h
  split at h
  · cases h
  · exact ⟨(List.of_mem_zip h).1, (List.of_mem_zip h).2⟩

theorem mem_testKeys {k : String × String} (h : k ∈ testKeys on) :
    k.1 ∈ on.onLeft ∧ k.2 ∈ on.onRight := by
  unfold testKeys at h
  split at h
  · obtain ⟨h1, h2⟩ := List.of_mem_zip h
    obtain ⟨k₁, hk₁, he₁⟩ := List.mem_map.mp (mem_keepFirst h1)
    obtain ⟨k₂, hk₂, he₂⟩ := List.mem_map.mp (mem_keepFirst h2)
    exact ⟨he₁ ▸ (mem_keyPairs hk₁).1, he₂ ▸ (mem_keyPairs hk₂).2⟩
  · exact mem_keyPairs h

theorem checkKeys_cut (hl : ∀ c ∈ on.onLeft, c ∈ L') (hr : ∀ c ∈ on.onRight, c ∈ R')
    (h : checkKeys on L R = .ok ()) : checkKeys on L' R' = .ok () := by
  have hl' : on.onLeft.filter (· ∉ L') = [] :=
    List.filter_eq_nil_iff.mpr fun c hc => by simp [hl c hc]
  have hr' : on.onRight.filter (· ∉ R') = [] :=
    List.filter_eq_nil_iff.mpr fun c hc => by simp [hr c hc]
  unfold checkKeys at h ⊢
  rw [hl', hr']
  split
  · rfl
  · rename_i hc
    rw [if_neg hc] at h
    split
    · rename_i hlen
      rw [if_pos hlen] at h
      cases h
    · rename_i hlen
      rw [if_neg hlen] at h
      split
      · rename_i hnil
        rw [if_pos hnil] at h
        cases h
      · rfl

variable [DecidableEq V]

theorem sameKeys_cut {keys : List (String × String)} (h : ∀ k ∈ keys, k.1 ∈ L' ∧ k.2 ∈ R')
    (l r : Row V) : sameKeys keys (restrict L' l) (restrict R' r) = sameKeys keys l r := by
  rw [sameKeys, sameKeys, Bool.eq_iff_iff, List.all_eq_true, List.all_eq_true]
  exact forall₂_congr fun k hk => by rw [restrict_mem (h k hk).1, restrict_mem (h k hk).2]

omit [DecidableEq V] in
theorem nonNullKeys_cut {keys : List (String × String)} (h : ∀ k ∈ keys, k.2 ∈ R') (r : Row V) :
    nonNullKeys keys (restrict R' r) = nonNullKeys keys r := by
  rw [nonNullKeys, nonNullKeys, Bool.eq_iff_iff, List.all_eq_true, List.all_eq_true]
  exact forall₂_congr fun k hk => by rw [restrict_mem (h k hk)]

omit [DecidableEq V] in
/-- What `sameJoin` says, part by part. -/
theorem sameJoin_spec (h : sameJoin on la ra L R L' R' = true) :
    ((∀ c ∈ on.onLeft, c ∈ L') ∧ ∀ c ∈ on.onRight, c ∈ R') ∧
      (on.how.isSemi = false ∨ on.onPredicate.isSome = true →
        (joinLayout on la ra L' R').columns.Nodup ∧
          sameSources (joinLayout on la ra L R) (joinLayout on la ra L' R') = true) ∧
      ∀ p ∈ on.onPredicate,
        sameSources (predLayout on la ra L R) (predLayout on la ra L' R') = true ∧
          sameRefs (predLayout on la ra L R).columns (predLayout on la ra L' R').columns p =
            true := by
  simp only [sameJoin, Bool.and_eq_true, Bool.or_eq_true, List.all_eq_true, decide_eq_true_eq] at h
  obtain ⟨⟨⟨hl, hr⟩, hlay⟩, hp⟩ := h
  refine ⟨⟨hl, hr⟩, fun hs => hlay.resolve_left fun hsemi => ?_, fun p hmem => ?_⟩
  · rcases hs with hs | hs
    · rw [hs] at hsemi
      exact absurd hsemi.1 (by decide)
    · rw [Option.isSome_iff_ne_none] at hs
      exact hs (Option.isNone_iff_eq_none.mp hsemi.2)
  · rw [Option.mem_def] at hmem
    rw [hmem] at hp
    simpa only [Option.all_some, Bool.and_eq_true] using hp

omit [DecidableEq V] in
theorem checkOption_cut {lay lay' : Layout} {p : Option (Expr V)}
    (h : ∀ e ∈ p, sameRefs lay.columns lay'.columns e = true)
    (hc : checkOption lay.columns p = .ok ()) : checkOption lay'.columns p = .ok () := by
  cases p with
  | none => rfl
  | some e => exact check_cut (h e rfl) hc

theorem joinTest_cut {S : Scalars V} (h : sameJoin on la ra L R L' R' = true) (l r : Row V) :
    joinTest S on la ra L' R' (restrict L' l) (restrict R' r) = joinTest S on la ra L R l r := by
  obtain ⟨⟨hl, hr⟩, -, hp⟩ := sameJoin_spec h
  have hkr : ∀ k ∈ keyPairs on, k.2 ∈ R' := fun k hk => hr _ (mem_keyPairs hk).2
  have hkeys : ∀ k ∈ testKeys on, k.1 ∈ L' ∧ k.2 ∈ R' := fun k hk =>
    ⟨hl _ (mem_testKeys hk).1, hr _ (mem_testKeys hk).2⟩
  have hpass : passes S (predLayout on la ra L' R').columns on.onPredicate
      ((predLayout on la ra L' R').row (restrict L' l) (restrict R' r)) =
      passes S (predLayout on la ra L R).columns on.onPredicate
        ((predLayout on la ra L R).row l r) := by
    cases hpred : on.onPredicate with
    | none => rfl
    | some p =>
      obtain ⟨hsrc, hrefs⟩ := hp p hpred
      rw [row_cut hsrc (fun e he => predLayout_reads hkr he), passes, passes, value_cut hrefs]
  rw [joinTest, joinTest, sameKeys_cut hkeys, nonNullKeys_cut hkr, hpass]

theorem Joinable.cut {l r l' r' : Frame V} (h : Joinable on la ra l r) (hl : Cut l l')
    (hr : Cut r r') (hs : sameJoin on la ra l.columns r.columns l'.columns r'.columns = true) :
    Joinable on la ra l' r' := by
  obtain ⟨⟨hkl, hkr⟩, hlay, hp⟩ := sameJoin_spec hs
  have hkeys : ∀ k ∈ testKeys on, k.1 ∈ l'.columns ∧ k.2 ∈ r'.columns := fun k hk =>
    ⟨hkl _ (mem_testKeys hk).1, hkr _ (mem_testKeys hk).2⟩
  have hrefs : ∀ p ∈ on.onPredicate, sameRefs
      (predLayout on la ra l.columns r.columns).columns
      (predLayout on la ra l'.columns r'.columns).columns p = true := fun p hm => (hp p hm).2
  refine ⟨⟨?_, checkKeys_cut hkl hkr h.fits.keys, h.fits.restore, fun hsem => (hlay hsem).1,
    fun hpad => ?_⟩, fun hpad hex => ?_⟩
  · rcases h.fits.names with hn | hn
    · refine .inl (hn.imp_left fun hnil => ?_)
      rw [List.eq_nil_iff_forall_not_mem] at hnil ⊢
      intro c hc
      rw [mem_collisions] at hc
      exact hnil c (mem_collisions.mpr ⟨hl.columns c hc.1, hr.columns c hc.2⟩)
    · exact .inr hn
  · have heq : ∀ A B, predLayout on la ra A B = joinLayout on la ra A B := fun A B =>
      if_neg (by rw [hpad]; decide)
    rw [← heq]
    refine checkOption_cut hrefs ?_
    rw [heq]
    exact h.fits.pred hpad
  · refine checkOption_cut hrefs (h.residual hpad ?_)
    obtain ⟨a, ha, b, hb, hk⟩ := hex
    rw [hl.rows] at ha
    rw [hr.rows] at hb
    obtain ⟨a, hal, rfl⟩ := List.mem_map.mp ha
    obtain ⟨b, hbr, rfl⟩ := List.mem_map.mp hb
    exact ⟨a, hal, b, hbr, by rwa [sameKeys_cut hkeys] at hk⟩

/-- **A join of frames that lost columns is the join that lost columns.** -/
theorem Cut.joined {S : Scalars V} {l r l' r' : Frame V} (hl : Cut l l') (hr : Cut r r')
    (hs : sameJoin on la ra l.columns r.columns l'.columns r'.columns = true) :
    Cut (joined S on la ra l r) (joined S on la ra l' r') := by
  have htest := joinTest_cut (S := S) hs
  obtain ⟨⟨-, hkr⟩, hlay, -⟩ := sameJoin_spec hs
  cases hsemi : on.how.isSemi with
  | true =>
    rw [Sql.joined, Sql.joined, if_pos hsemi, if_pos hsemi]
    refine hl.filter fun a => ?_
    have hany : r'.rows.any (joinTest S on la ra l'.columns r'.columns (restrict l'.columns a)) =
        r.rows.any (joinTest S on la ra l.columns r.columns a) := by
      rw [hr.rows, List.any_map]
      exact congrArg _ (funext fun b => htest a b)
    rw [semiHit, semiHit, hany]
  | false =>
    obtain ⟨-, hsrc⟩ := hlay (.inl hsemi)
    have hrow : ∀ a b : Row V, (joinLayout on la ra l'.columns r'.columns).row
        (restrict l'.columns a) (restrict r'.columns b) = restrict
          (joinLayout on la ra l'.columns r'.columns).columns
          ((joinLayout on la ra l.columns r.columns).row a b) :=
      row_cut hsrc fun e he => joinLayout_reads (fun k hk => hkr _ (mem_keyPairs hk).2) he
    have hnull := restrict_nullRow (V := V)
    refine ⟨?_, ?_⟩
    · rw [joined_columns, joined_columns, if_neg (by rw [hsemi]; decide),
        if_neg (by rw [hsemi]; decide)]
      exact sameSources_columns hsrc
    · rw [joined_rows hsemi, joined_rows hsemi, joined_columns, if_neg (by rw [hsemi]; decide),
        hl.rows, hr.rows]
      refine JoinSpec.run_map _ htest hrow (fun a => ?_) (fun b => ?_) _ _ _ _
      · have := hrow a nullRow
        rw [hnull] at this
        exact this
      · have := hrow nullRow b
        rw [hnull] at this
        exact this

end Joins

/-! ## 5. The plans whose result is kept -/

/-- The columns a sort evaluates its other keys on. -/
def sortScope (sch : Dict String (List String)) : PlanNode V → List String
  | .project below _ => outColumns sch below
  | p => outColumns sch p

/-- **The plans that mean the same over the schema `sch` and over the smaller `sch'`**: every
expression reads the columns it read, every join renames as it did, and DISTINCT and the set
operations find all columns of their inputs, the latter in their order. -/
def pruneSafe (sch sch' : Dict String (List String)) : PlanNode V → Bool
  | .scan _ _ _ => true
  | .derived input _ => pruneSafe sch sch' input
  | .filter input e =>
    pruneSafe sch sch' input && sameRefs (outColumns sch input) (outColumns sch' input) e
  | .project input items => pruneSafe sch sch' input &&
      items.all fun i => sameRefs (outColumns sch input) (outColumns sch' input) i.1
  | .join l r on => pruneSafe sch sch' l && pruneSafe sch sch' r &&
      sameJoin on l.sideAlias r.sideAlias (outColumns sch l) (outColumns sch r)
        (outColumns sch' l) (outColumns sch' r)
  | .aggregate input keys aggs => pruneSafe sch sch' input &&
      sameAggRefs (outColumns sch input) (outColumns sch' input) keys aggs
  | .window input funcs => pruneSafe sch sch' input &&
      sameWindowRefs (outColumns sch input) (outColumns sch' input) funcs
  | .sort input keys => pruneSafe sch sch' input &&
      sameSortRefs (outColumns sch input) (outColumns sch' input) (sortScope sch input)
        (sortScope sch' input) keys
  | .limit input _ _ => pruneSafe sch sch' input
  | .distinct input =>
    pruneSafe sch sch' input && (outColumns sch input).all (· ∈ outColumns sch' input)
  | .setOp l r _ _ => pruneSafe sch sch' l && pruneSafe sch sch' r &&
      decide (outColumns sch l = outColumns sch' l) && decide (outColumns sch r = outColumns sch' r)

variable [DecidableEq V]

/-- What the induction over a plan carries: over the cut tables the plan returns its frame with
fewer columns, and so does the plan below a projection, where a sort above looks. -/
structure Pruned (S : Scalars V) (D D' : Database V) (p : PlanNode V) (f g : Frame V) : Prop where
  returns : exec S D' p = .ok g
  cut : Cut f g
  source : ∀ s, sortSource S D p f = .ok s → ∃ s', sortSource S D' p g = .ok s' ∧ Cut s s'

theorem Pruned.plain {S : Scalars V} {D D' : Database V} {p : PlanNode V} {f g : Frame V}
    (hp : p.isProject = false) (hg : exec S D' p = .ok g) (h : Cut f g) : Pruned S D D' p f g where
  returns := hg
  cut := h
  source s hs := by
    rw [sortSource_of_not_project hp] at hs
    cases hs
    exact ⟨g, sortSource_of_not_project hp g, h⟩

theorem sortSource_columns {S : Scalars V} {D : Database V} {p : PlanNode V} {f s : Frame V}
    (h : exec S D p = .ok f) (hs : sortSource S D p f = .ok s) :
    s.columns = sortScope D.schema p := by
  cases p with
  | project below items => exact exec_columns hs
  | _ =>
    cases hs
    exact exec_columns h

omit [DecidableEq V] in
theorem scan_cut_ok {D : Database V} {referenced : List String} {t : String} {f : Frame V}
    (h : D.scan t none = .ok f) :
    ∃ g, (D.cut referenced).scan t none = .ok g ∧ Cut f g := by
  obtain ⟨tab, htab, -, rfl⟩ := Database.scan_ok.mp h
  have hget : (D.cut referenced).tables.get? t =
      some (.ofRows (keptColumns referenced tab.columns) tab.rows) := by
    rw [Database.cut, Dict.get?_mapVal, htab]
    rfl
  refine ⟨_, Database.scan_ok.mpr ⟨_, hget, fun n hn => hn, rfl⟩, fun c => mem_keptColumns, ?_⟩
  simp only [scanColumns, Frame.ofRows_columns, Frame.ofRows_rows, List.map_map]
  refine List.map_congr_left fun r _ => funext fun c => ?_
  by_cases hc : c ∈ keptColumns referenced tab.columns
  · simp only [Function.comp_apply, restrict_mem hc, restrict_mem (mem_keptColumns hc)]
  · simp only [Function.comp_apply, restrict_notMem hc]

/-- Over the cut tables the plan returns its frame with fewer columns, if it is safe.  It is what the
induction over plans proves; the conditions speak about the schema, so that they can be checked before
anything is executed. -/
def Cuts (S : Scalars V) (D : Database V) (referenced : List String) (p : PlanNode V) : Prop :=
  ∀ {f : Frame V}, unscoped p = true →
    pruneSafe D.schema (cutSchema referenced D.schema) p = true → exec S D p = .ok f →
    ∃ g, Pruned S D (D.cut referenced) p f g

section Cuts

variable {S : Scalars V} {D : Database V} {referenced : List String} {input l r : PlanNode V}

/-- The columns of an input and of its cut version, as the conditions name them. -/
theorem Pruned.columns {df dg : Frame V} (h : exec S D input = .ok df)
    (hp : Pruned S D (D.cut referenced) input df dg) : df.columns = outColumns D.schema input ∧
      dg.columns = outColumns (cutSchema referenced D.schema) input := by
  have hg := exec_columns hp.returns
  rw [schema_cut] at hg
  exact ⟨exec_columns h, hg⟩

theorem cuts_scan (t : String) (c : Option (List String)) (a : Option String) :
    Cuts S D referenced (.scan t c a) := by
  intro f hu _ h
  cases c with
  | some c => cases hu
  | none =>
    obtain ⟨g, hg, hcut⟩ := scan_cut_ok h
    exact ⟨g, .plain rfl hg hcut⟩

theorem Cuts.derived (ih : Cuts S D referenced input) (a : String) :
    Cuts S D referenced (.derived input a) := by
  intro f hu hs h
  obtain ⟨g, hg⟩ := ih hu hs h
  exact ⟨g, .plain rfl hg.returns hg.cut⟩

/-- A predicate keeps the same rows where its columns are kept. -/
theorem Cuts.filter (ih : Cuts S D referenced input) (e : Expr V) :
    Cuts S D referenced (.filter input e) := by
  intro f hu hs h
  replace hs := Bool.and_eq_true_iff.mp hs
  obtain ⟨df, hd, h⟩ := bind_eq_ok.mp h
  obtain ⟨dg, hg⟩ := ih hu hs.1 hd
  obtain ⟨h1, h2⟩ := hg.columns hd
  obtain ⟨g, hgf, hcut⟩ := hg.cut.filterFrame (by rw [h1, h2]; exact hs.2) h
  exact ⟨g, .plain rfl (bind_eq_ok.mpr ⟨dg, hg.returns, hgf⟩) hcut⟩

/-- A projection computes the same frame: what is cut is below it. -/
theorem Cuts.project (ih : Cuts S D referenced input) (items : List (Expr V × String)) :
    Cuts S D referenced (.project input items) := by
  intro f hu hs h
  replace hs := Bool.and_eq_true_iff.mp hs
  obtain ⟨df, hd, h⟩ := bind_eq_ok.mp h
  obtain ⟨dg, hg⟩ := ih hu hs.1 hd
  obtain ⟨h1, h2⟩ := hg.columns hd
  have hgf := hg.cut.projectFrame (by rw [h1, h2]; exact hs.2) h
  refine ⟨f, bind_eq_ok.mpr ⟨dg, hg.returns, hgf⟩, .refl f, fun s hsrc => ?_⟩
  have hsd : s = df := Except.ok.inj (hsrc.symm.trans hd)
  exact ⟨dg, hg.returns, hsd ▸ hg.cut⟩

/-- A join finds the same pairs where it names the columns of its sides as before. -/
theorem Cuts.join (ihl : Cuts S D referenced l) (ihr : Cuts S D referenced r) (on : JoinOn V) :
    Cuts S D referenced (.join l r on) := by
  intro f hu hs h
  replace hu := Bool.and_eq_true_iff.mp hu
  obtain ⟨hsides, hs⟩ := Bool.and_eq_true_iff.mp hs
  replace hsides := Bool.and_eq_true_iff.mp hsides
  obtain ⟨left, hl, h⟩ := bind_eq_ok.mp h
  obtain ⟨right, hr, h⟩ := bind_eq_ok.mp h
  obtain ⟨left', hl'⟩ := ihl hu.1 hsides.1 hl
  obtain ⟨right', hr'⟩ := ihr hu.2 hsides.2 hr
  obtain ⟨h1, h2⟩ := hl'.columns hl
  obtain ⟨h3, h4⟩ := hr'.columns hr
  have hsame : sameJoin on l.sideAlias r.sideAlias left.columns right.columns left'.columns
      right'.columns = true := by rw [h1, h2, h3, h4]; exact hs
  obtain ⟨hj, rfl⟩ := joinFrames_ok.mp h
  refine ⟨_, .plain rfl (bind_eq_ok.mpr ⟨left', hl'.returns, bind_eq_ok.mpr ⟨right', hr'.returns,
    joinFrames_ok.mpr ⟨hj.cut hl'.cut hr'.cut hsame, rfl⟩⟩⟩) (hl'.cut.joined hr'.cut hsame)⟩

theorem Cuts.aggregate (ih : Cuts S D referenced input) (keys : List (Expr V × String))
    (aggs : List (AggFunc V × String)) : Cuts S D referenced (.aggregate input keys aggs) := by
  intro f hu hs h
  replace hs := Bool.and_eq_true_iff.mp hs
  obtain ⟨df, hd, h⟩ := bind_eq_ok.mp h
  obtain ⟨dg, hg⟩ := ih hu hs.1 hd
  obtain ⟨h1, h2⟩ := hg.columns hd
  have hgf := hg.cut.aggregateFrame (by rw [h1, h2]; exact hs.2) h
  exact ⟨f, .plain rfl (bind_eq_ok.mpr ⟨dg, hg.returns, hgf⟩) (.refl f)⟩

theorem Cuts.window (ih : Cuts S D referenced input) (funcs : List (WindowFunc V × String)) :
    Cuts S D referenced (.window input funcs) := by
  intro f hu hs h
  replace hs := Bool.and_eq_true_iff.mp hs
  obtain ⟨df, hd, h⟩ := bind_eq_ok.mp h
  obtain ⟨dg, hg⟩ := ih hu hs.1 hd
  obtain ⟨h1, h2⟩ := hg.columns hd
  obtain ⟨g, hgf, hcut⟩ := hg.cut.windowFrame (by rw [h1, h2]; exact hs.2) h
  exact ⟨g, .plain rfl (bind_eq_ok.mpr ⟨dg, hg.returns, hgf⟩) hcut⟩

/-- ORDER BY may read the source of a projection below it, so that source is cut too. -/
theorem Cuts.sort (ih : Cuts S D referenced input) (keys : List (Expr V × Bool)) :
    Cuts S D referenced (.sort input keys) := by
  intro f hu hs h
  replace hs := Bool.and_eq_true_iff.mp hs
  rw [exec_sort] at h
  obtain ⟨df, hd, h⟩ := bind_eq_ok.mp h
  obtain ⟨dg, hg⟩ := ih hu hs.1 hd
  obtain ⟨h1, h2⟩ := hg.columns hd
  have hsrc : ∀ s, sortSource S D input df = .ok s → s.columns = sortScope D.schema input ∧
      ∃ s', sortSource S (D.cut referenced) input dg = .ok s' ∧
        s'.columns = sortScope (cutSchema referenced D.schema) input ∧ Cut s s' := by
    intro s hs
    obtain ⟨s', hs', hc⟩ := hg.source s hs
    have hsc := sortSource_columns hg.returns hs'
    rw [schema_cut] at hsc
    exact ⟨sortSource_columns hd hs, s', hs', hsc, hc⟩
  rw [← h1, ← h2] at hs
  obtain ⟨g, hgf, hcut⟩ := hg.cut.sortFrame hs.2 hsrc h
  refine ⟨g, .plain rfl ?_ hcut⟩
  rw [exec_sort]
  exact bind_eq_ok.mpr ⟨dg, hg.returns, hgf⟩

theorem Cuts.limit (ih : Cuts S D referenced input) (n o : Nat) :
    Cuts S D referenced (.limit input n o) := by
  intro f hu hs h
  obtain ⟨df, hd, h⟩ := bind_eq_ok.mp h
  cases h
  obtain ⟨dg, hg⟩ := ih hu hs hd
  exact ⟨_, .plain rfl (bind_eq_ok.mpr ⟨dg, hg.returns, rfl⟩) (hg.cut.limitFrame n o)⟩

/-- DISTINCT compares whole rows, so nothing may be cut below it. -/
theorem Cuts.distinct (ih : Cuts S D referenced input) : Cuts S D referenced (.distinct input) := by
  intro f hu hs h
  obtain ⟨hs, hall⟩ := Bool.and_eq_true_iff.mp hs
  obtain ⟨df, hd, h⟩ := bind_eq_ok.mp h
  cases h
  obtain ⟨dg, hg⟩ := ih hu hs hd
  obtain ⟨h1, h2⟩ := hg.columns hd
  refine ⟨_, .plain rfl (bind_eq_ok.mpr ⟨dg, hg.returns, rfl⟩) (hg.cut.dropDuplicates ?_)⟩
  intro c hc
  rw [h1] at hc
  rw [h2]
  exact of_decide_eq_true (List.all_eq_true.mp hall c hc)

/-- A set operation pairs columns by position, so nothing may be cut below it either. -/
theorem Cuts.setOp (ihl : Cuts S D referenced l) (ihr : Cuts S D referenced r) (op : SetKind) (d : Bool) :
    Cuts S D referenced (.setOp l r op d) := by
  intro f hu hs h
  replace hu := Bool.and_eq_true_iff.mp hu
  obtain ⟨hs, hright⟩ := Bool.and_eq_true_iff.mp hs
  obtain ⟨hs, hleft⟩ := Bool.and_eq_true_iff.mp hs
  replace hs := Bool.and_eq_true_iff.mp hs
  obtain ⟨left, hl, h⟩ := bind_eq_ok.mp h
  obtain ⟨right, hr, h⟩ := bind_eq_ok.mp h
  obtain ⟨left', hl'⟩ := ihl hu.1 hs.1 hl
  obtain ⟨right', hr'⟩ := ihr hu.2 hs.2 hr
  obtain ⟨h1, h2⟩ := hl'.columns hl
  obtain ⟨h3, h4⟩ := hr'.columns hr
  have hel : left = left' := hl'.cut.eq (by rw [h1, h2]; exact of_decide_eq_true hleft)
  have her : right = right' := hr'.cut.eq (by rw [h3, h4]; exact of_decide_eq_true hright)
  subst hel her
  exact ⟨f, .plain rfl (bind_eq_ok.mpr ⟨left, hl'.returns, bind_eq_ok.mpr ⟨right, hr'.returns,
    h⟩⟩) (.refl f)⟩

end Cuts

/-- **A plan over the cut tables returns its frame with fewer columns.** -/
theorem exec_cut {S : Scalars V} {D : Database V} {referenced : List String} (p : PlanNode V) :
    Cuts S D referenced p := by
  induction p with
  | scan t c a => exact cuts_scan t c a
  | derived input a ih => exact ih.derived a
  | filter input e ih => exact ih.filter e
  | project input items ih => exact ih.project items
  | join l r on ihl ihr => exact ihl.join ihr on
  | aggregate input keys aggs ih => exact ih.aggregate keys aggs
  | window input funcs ih => exact ih.window funcs
  | sort input keys ih => exact ih.sort keys
  | limit input n o ih => exact ih.limit n o
  | distinct input ih => exact ih.distinct
  | setOp l r op d ihl ihr => exact ihl.setOp ihr op d

/-! ## 6. The pass -/

omit [DecidableEq V] in
/-- `prune_projections` rewrites the scans of the plan. -/
def prunes (sch : Dict String (List String)) (p : PlanNode V) : Bool :=
  (p.walk.any PlanNode.isProject || p.walk.any PlanNode.isAggregate) && !sch.entries.isEmpty &&
    !(allReferencedColumns p).isEmpty

omit [DecidableEq V] in
theorem pruneProjections_eq (sch : Dict String (List String)) (p : PlanNode V) :
    pruneProjections sch p =
      if prunes sch p then rewriteScans sch (allReferencedColumns p) p else p := by
  unfold pruneProjections prunes
  cases p.walk.any PlanNode.isProject <;> cases p.walk.any PlanNode.isAggregate <;>
    cases sch.entries.isEmpty <;> cases allReferencedColumns p <;> rfl

/-- On the cuDF path: the pruned plan returns the very frame of the plan, or another list of columns. -/
theorem returns_pruneProjections {S : Scalars V} {D : Database V} {p : PlanNode V} {f : Frame V}
    (hu : unscoped p = true) (h : exec S D p = .ok f)
    (hsafe : prunes D.schema p = true →
      pruneSafe D.schema (cutSchema (allReferencedColumns p) D.schema) p = true) :
    (∃ g, exec S D (pruneProjections D.schema p) = .ok g ∧ g.columns = f.columns ∧
        g.rows.Perm f.rows) ↔
      (prunes D.schema p = true → outColumns D.schema p =
        outColumns (cutSchema (allReferencedColumns p) D.schema) p) := by
  rw [pruneProjections_eq]
  cases hp : prunes D.schema p with
  | false =>
    rw [if_neg (by decide)]
    exact ⟨fun _ he => absurd he (by decide), fun _ => ⟨f, h, rfl, .refl _⟩⟩
  | true =>
    rw [if_pos rfl, (exec_rewriteScans S D hu).1]
    obtain ⟨g, hg⟩ := exec_cut p hu (hsafe hp) h
    have hcols := exec_columns h
    have hcols' := exec_columns hg.returns
    rw [schema_cut] at hcols'
    constructor
    · rintro ⟨g', hg', hc, -⟩ -
      cases hg.returns.symm.trans hg'
      rw [← hcols, ← hcols', hc]
    · intro hwhole
      have heq := hg.cut.eq (by rw [hcols, hcols']; exact hwhole rfl)
      exact ⟨g, hg.returns, by rw [heq], by rw [heq]⟩

/-- `SELECT q FROM u WHERE p = 7`. -/
def filteredItem : PlanNode Nat :=
  .project (.filter (.scan "u" none (some "u")) (equals (.col "p" none) (.lit (some 7))))
    [(.col "q" none, "q")]

/-- `SELECT * FROM b WHERE k2 IN (SELECT k FROM a)`. -/
def starOverSubquery : PlanNode Nat :=
  .join (.scan "b" none (some "b")) (.project (.scan "a" none (some "a")) [(.col "k" none, "k")])
    (joinOn "k2" "k" .semi)

end RyuDB.Sql
