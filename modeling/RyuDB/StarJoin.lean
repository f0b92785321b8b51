/-
# The fused star join

`fused_join_agg` fills the table of every dimension, one kernel after the other, and then streams the fact rows:
a row that passes the predicates walks past the tables, and the key it ends with, alone or together with a code
of the fact row, is the number of its group.  With few groups it counts for a cell of an array
(`probe_agg_kernel`), with many it looks its number up in a table (`probe_hash_agg_kernel`).  The joined rows
are never built.

The specification builds them: `Star.joined` joins the passing fact rows with the dimensions, and `Star.groupOf`
is the group of a joined row.  `fused_join_agg_dense` and `fused_join_agg_hash` say that, in whatever order the
threads of each kernel took their steps, the outcome is that of grouping the joined rows.
-/
import RyuDB.DenseGroups
import RyuDB.JoinTables

namespace RyuDB.Kernels

/-! ## 1. The kernels of a star join -/

/-- A dimension: the launch that fills its table, what its payload array held before, the order in which the
threads took their steps, and whether the join preserves the fact side. -/
structure Dimension where
  build : BuildLaunch
  before : Nat → Int
  order : List (Fin build.threads)
  left : Bool

namespace Dimension

variable (d : Dimension)

/-- The table after the run. -/
def table : DimTable := (d.build.run d.before d.order).mem

/-- Every thread has come to its end. -/
abbrev Built : Prop := d.build.Finished (d.build.run d.before d.order)

/-- What the probing kernels are given. -/
def stage : Stage := ⟨d.build.capacity, d.table, d.left⟩

/-- What the dimension stands for. -/
def relation : Bool × List (Int × Int) := (d.left, d.build.dim)

/-- No key is there twice; the caller checks it. -/
def Unique : Prop := (d.build.dim.map Prod.fst).Nodup

end Dimension

/-- A star join: its dimensions, the first probe key of a fact row, and how the group is found: by the key at
the end of the chain (`group_key_col = -1`), or together with a code of the fact row. -/
structure Star where
  dims : List Dimension
  probeKey : Nat → Int
  groupCol : Option (Nat → Int)
  stride : Int

namespace Star

variable (S : Star)

/-- The group of a fact row that comes to the end of the chain with `key`. -/
def group (i : Nat) (key : Int) : Int :=
  let tail := if key = hashEmpty then 0 else key
  match S.groupCol with
  | some col =>
    let fcode := if key = hashEmpty then 0 else col i
    Fused.wrap64 (fcode * S.stride + tail)
  | none => tail

/-- The group of a fact row that is not dropped. -/
def code (i : Nat) : Option Int := (chain (S.dims.map Dimension.stage) (S.probeKey i)).map (S.group i)

/-- A table has overflowed. -/
def overflow : Bool := S.dims.any fun d => d.table.overflow

/-- The launch of `probe_agg_kernel`. -/
def dense (L : Launch) (blocks dim : Nat) (hthreads : L.threads = dim * blocks) (n : Nat)
    (pass : Nat → Bool) : DenseLaunch :=
  denseLaunch L blocks dim hthreads n fun i => if pass i then S.code i else none

/-- The launch of `probe_hash_agg_kernel`. -/
def hash (L : Launch) (capacity : Nat) (hcap : 0 < capacity) (pass : Nat → Bool) : HashLaunch :=
  { L with
    capacity := capacity
    capacity_pos := hcap
    prep := fun i =>
      match if pass i then S.code i else none with
      | none => .skip
      | some g => .key g }

/-- `fused_join_agg` with few groups: the flag, and the groups with their cells. -/
def fusedJoinAggDense (L : DenseLaunch) (sh : Fin L.blocks → Nat → Double) (l : List L.Thread) :
    Bool × List (Int × List Double) :=
  if S.overflow then (true, []) else (false, fusedAggDense L (fun g => g) sh l)

/-- `fused_join_agg` with many groups. -/
def fusedJoinAggHash (H : HashLaunch) (l : List (Fin H.threads)) (G : Grid H.capacity)
    (l' : List (Fin G.threads)) (keys : Nat → Int) (acc : Nat → Nat → Double) : HashOut :=
  if S.overflow then ⟨true, 0, []⟩ else fusedAggHash H l G l' keys acc

/-! ## 2. The join, materialised -/

/-- The joined rows: a fact row with the payload of the last dimension, which is NULL where an outer join found
nothing. -/
def joined (rows : List Nat) : List (Nat × Option Int) :=
  rows.flatMap fun i =>
    (joinDims (S.dims.map Dimension.relation) (nullable (S.probeKey i))).map (Prod.mk i)

/-- The group of a joined row: 0 without a payload, else the payload, or the code of the fact row in strides
with the payload. -/
def groupOf (r : Nat × Option Int) : Int :=
  match r.2, S.groupCol with
  | none, _ => 0
  | some v, none => v
  | some v, some col => Fused.wrap64 (col r.1 * S.stride + v)

/-- The fact rows of the joined rows of a group. -/
def members (rows : List Nat) (g : Int) : List Nat :=
  ((S.joined rows).filter fun r => S.groupOf r = g).map Prod.fst

/-! ## 3. The chain and the join -/

variable {S}

theorem group_eq (i : Nat) (key : Int) : S.group i key = S.groupOf (i, nullable key) := by
  unfold group groupOf nullable
  by_cases hk : key = hashEmpty
  · cases S.groupCol with
    | none => simp [hk]
    | some col => simp [hk, Fused.wrap64]
  · cases S.groupCol <;> simp [hk]

/-- The tables hold the dimensions. -/
theorem tables (hbuilt : ∀ d ∈ S.dims, d.Built) (hunique : ∀ d ∈ S.dims, d.Unique)
    (hdown : S.overflow = false) :
    Tables (S.dims.map Dimension.stage) (S.dims.map Dimension.relation) := by
  have hd : ∀ d ∈ S.dims, d.table.overflow = false := by
    simpa [overflow] using hdown
  unfold Tables
  rw [List.forall₂_map_left_iff, List.forall₂_map_right_iff, List.forall₂_same]
  intro d hmem
  have hinv := BuildLaunch.inv_run (L := d.build) d.before d.order
  exact ⟨rfl, hinv.holds (hbuilt d hmem) (hd d hmem), hunique d hmem⟩

theorem overflow_iff (hbuilt : ∀ d ∈ S.dims, d.Built) :
    S.overflow = true ↔ ∃ d ∈ S.dims, ∃ r < d.build.n, d.build.Refused d.table r := by
  rw [overflow, List.any_eq_true]
  refine exists_congr fun d => and_congr_right fun hd => ?_
  exact (BuildLaunch.inv_run (L := d.build) d.before d.order).overflow_iff (hbuilt d hd)

/-- A fact row has at most one joined row, in the group that the kernels find. -/
theorem joined_groups (ht : Tables (S.dims.map Dimension.stage) (S.dims.map Dimension.relation))
    (rows : List Nat) : (S.joined rows).map S.groupOf = rows.filterMap S.code := by
  unfold joined
  induction rows with
  | nil => rfl
  | cons i rows ih =>
    rw [List.flatMap_cons, List.map_append, ih, List.filterMap_cons, chain_joinDims ht, code]
    cases chain (S.dims.map Dimension.stage) (S.probeKey i) with
    | none => rfl
    | some key => simp [group_eq]

/-- **The joined rows of a group** are the fact rows with its number. -/
theorem members_eq (ht : Tables (S.dims.map Dimension.stage) (S.dims.map Dimension.relation))
    (rows : List Nat) (g : Int) :
    S.members rows g = rows.filter fun i => S.code i = some g := by
  unfold members joined
  induction rows with
  | nil => rfl
  | cons i rows ih =>
    rw [List.flatMap_cons, List.filter_append, List.map_append, ih, List.filter_cons, chain_joinDims ht]
    cases hchain : chain (S.dims.map Dimension.stage) (S.probeKey i) with
    | none => simp [code, hchain]
    | some key =>
      have hcode : S.code i = some (S.groupOf (i, nullable key)) := by
        rw [code, hchain, ← group_eq]
        rfl
      by_cases hg : S.groupOf (i, nullable key) = g <;> simp [hcode, hg]

/-- A number is that of a group if some fact row has it. -/
theorem mem_groups (ht : Tables (S.dims.map Dimension.stage) (S.dims.map Dimension.relation))
    {rows : List Nat} {g : Int} :
    g ∈ (S.joined rows).map S.groupOf ↔ ∃ i ∈ rows, S.code i = some g := by
  rw [joined_groups ht, List.mem_filterMap]

/-- The rows of a group in `probe_agg_kernel`. -/
theorem dense_rows (ht : Tables (S.dims.map Dimension.stage) (S.dims.map Dimension.relation))
    (rows : List Nat) (pass : Nat → Bool) (g : Int) :
    ((rows.filter fun i => (if pass i then S.code i else none).isSome).filter fun i =>
      (if pass i then S.code i else none) = some g) = S.members (rows.filter pass) g := by
  rw [members_eq ht, List.filter_filter, List.filter_filter]
  refine List.filter_congr fun i _ => ?_
  cases hp : pass i with
  | false => simp
  | true =>
    cases hc : S.code i <;> simp

theorem dense_groups (ht : Tables (S.dims.map Dimension.stage) (S.dims.map Dimension.relation))
    (rows : List Nat) (pass : Nat → Bool) (g : Int) :
    ((rows.filter fun i => (if pass i then S.code i else none).isSome).any fun i =>
      (if pass i then S.code i else none) = some g) =
        decide (g ∈ (S.joined (rows.filter pass)).map S.groupOf) := by
  rw [Bool.eq_iff_iff, List.any_eq_true, decide_eq_true_eq, mem_groups ht]
  refine exists_congr fun i => ?_
  have hrows := congrArg (i ∈ ·) (dense_rows ht rows pass g)
  simpa only [members_eq ht, List.mem_filter, decide_eq_true_eq, eq_iff_iff] using hrows

/-- What `probe_hash_agg_kernel` looks up. -/
theorem hash_prep {L : Launch} {capacity : Nat} {hcap : 0 < capacity} {pass : Nat → Bool} {i : Nat}
    {g : Int} : (S.hash L capacity hcap pass).prep i = .key g ↔ pass i = true ∧ S.code i = some g := by
  change (match if pass i then S.code i else none with
    | none => Prep.skip
    | some g => .key g) = .key g ↔ _
  cases pass i with
  | false => simp
  | true => cases S.code i <;> simp

theorem hash_rowsOf (ht : Tables (S.dims.map Dimension.stage) (S.dims.map Dimension.relation))
    {L : Launch} {capacity : Nat} {hcap : 0 < capacity} {pass : Nat → Bool} (g : Int) :
    (S.hash L capacity hcap pass).rowsOf g =
      (S.members ((List.range L.n).filter pass) g).toFinset := by
  ext i
  rw [HashLaunch.mem_rowsOf, hash_prep, members_eq ht, List.mem_toFinset, List.mem_filter,
    List.mem_filter, List.mem_range, decide_eq_true_eq, and_assoc]
  rfl

theorem hash_keys (ht : Tables (S.dims.map Dimension.stage) (S.dims.map Dimension.relation))
    {L : Launch} {capacity : Nat} {hcap : 0 < capacity} {pass : Nat → Bool} :
    (S.hash L capacity hcap pass).keys =
      ((S.joined ((List.range L.n).filter pass)).map S.groupOf).dedup := by
  rw [joined_groups ht, List.filterMap_filter]
  refine congrArg List.dedup (List.filterMap_congr fun i _ => Option.ext fun g => ?_)
  rw [Prep.sought_eq_some, hash_prep]
  cases pass i with
  | false => simp
  | true => simp

/-- The rows of a group are fact rows. -/
theorem members_mem {rows : List Nat} {g : Int} {i : Nat} (h : i ∈ S.members rows g) : i ∈ rows := by
  obtain ⟨r, hr, rfl⟩ := List.mem_map.mp h
  obtain ⟨j, hj, hmem⟩ := List.mem_flatMap.mp (List.mem_filter.mp hr).1
  obtain ⟨v, -, rfl⟩ := List.mem_map.mp hmem
  exact hj

/-- The fact rows of a group are there once, and there is one. -/
theorem members_spec (ht : Tables (S.dims.map Dimension.stage) (S.dims.map Dimension.relation))
    {n : Nat} {pass : Nat → Bool} {g : Int}
    (hg : g ∈ (S.joined ((List.range n).filter pass)).map S.groupOf) :
    (S.members ((List.range n).filter pass) g).Nodup ∧ S.members ((List.range n).filter pass) g ≠ [] := by
  obtain ⟨i, hi, hc⟩ := (mem_groups ht).mp hg
  rw [members_eq ht]
  exact ⟨(List.nodup_range.filter _).filter _,
    List.ne_nil_of_mem (List.mem_filter.mpr ⟨hi, by simp [hc]⟩)⟩

end Star

/-! ## 4. `fused_join_agg` -/

section Query

variable (D : Fused.Device) (ch : Fused.Child) (preds : List (String × Fused.Cmp × ℚ))
  (aggs : List (Fused.Func × List Fused.Token)) (S : Star)

/-- **With few groups, the kernels group the joined rows.**  Dimensions with unique keys; every kernel has run
to its end, its threads in any order.  If no table overflowed, then the outcome is the groups `0 .. n` that a
joined row has, in order, each with the accumulators of its joined rows. -/
theorem fused_join_agg_dense (n : Nat) (G : Grid ch.length) {blocks dim : Nat}
    (hthreads : G.threads = dim * blocks) (sh : Fin blocks → Nat → Double)
    (l : List (Fin blocks × Fin dim)) :
    let pass := fun i => Fused.passPred (ch.bound D i) preds
    let L := S.dense (launchOf D ch aggs G) blocks dim hthreads n pass
    let rows := (List.range ch.length).filter pass
    Evaluates D ch aggs rows → (∀ d ∈ S.dims, d.Built) → (∀ d ∈ S.dims, d.Unique) → Threads.Stopped L.step (L.run sh l) →
    let out := S.fusedJoinAggDense L sh l
    (out.1 = true ↔ ∃ d ∈ S.dims, ∃ r < d.build.n, d.build.Refused d.table r) ∧
      (out.1 = false → out.2 =
        ((List.range n).filter fun g : Nat => (g : Int) ∈ (S.joined rows).map S.groupOf).map
          fun g : Nat => ((g : Int), (Fused.slots D ch aggs (S.members rows g)).map ofRat)) := by
  intro pass L rows heval hbuilt hunique hstop out
  refine ⟨?_, fun hdown => ?_⟩
  · rw [← Star.overflow_iff hbuilt]
    change (Star.fusedJoinAggDense S L sh l).1 = true ↔ _
    unfold Star.fusedJoinAggDense
    cases S.overflow <;> simp
  · have hno : S.overflow = false := by
      change (Star.fusedJoinAggDense S L sh l).1 = false at hdown
      unfold Star.fusedJoinAggDense at hdown
      cases h : S.overflow with
      | false => rfl
      | true => simp [h] at hdown
    have ht := Star.tables hbuilt hunique hno
    change (Star.fusedJoinAggDense S L sh l).2 = _
    unfold Star.fusedJoinAggDense
    rw [hno]
    refine (fusedAggDense_rows rfl (fun g => g) hstop).trans ?_
    have hgroups : ∀ g ∈ List.range n, _ = _ := fun g _ =>
      Star.dense_groups ht (List.range (launchOf D ch aggs G).n) pass (g : Int)
    rw [List.filter_congr hgroups]
    refine List.map_congr_left fun g hg => congrArg (Prod.mk _) ?_
    rw [Star.dense_rows ht]
    obtain ⟨hnd, hne⟩ := Star.members_spec ht (of_decide_eq_true (List.mem_filter.mp hg).2)
    exact cells_slots D ch aggs G hnd hne (heval.mono fun i hi => Star.members_mem hi)

/-- **With many groups as well**, in some order, unless a table overflowed, if no joined row has the number
that marks a free slot. -/
theorem fused_join_agg_hash {capacity : Nat} (hcap : 0 < capacity) (G : Grid ch.length)
    (l : List (Fin G.threads)) (G' : Grid capacity) (l' : List (Fin G'.threads))
    (keys : Nat → Int) (acc : Nat → Nat → Double) :
    let pass := fun i => Fused.passPred (ch.bound D i) preds
    let H := S.hash (launchOf D ch aggs G) capacity hcap pass
    let rows := (List.range ch.length).filter pass
    Evaluates D ch aggs rows →
    (∀ d ∈ S.dims, d.Built) → (∀ d ∈ S.dims, d.Unique) →
    (∀ g ∈ (S.joined rows).map S.groupOf, g ≠ hashEmpty) →
    H.Finished (H.run l) →
    (compactLaunch H (H.run l).mem G').Finished
      ((compactLaunch H (H.run l).mem G').run keys acc l') →
    let out := S.fusedJoinAggHash H l G' l' keys acc
    out.overflow = false → out.rows.Perm
      (((S.joined rows).map S.groupOf).dedup.map fun g =>
        (g, (Fused.slots D ch aggs (S.members rows g)).map ofRat)) := by
  intro pass H rows heval hbuilt hunique hcodes hstop hstop' out hdown
  have hno : S.overflow = false := by
    change (Star.fusedJoinAggHash S H l G' l' keys acc).overflow = false at hdown
    unfold Star.fusedJoinAggHash at hdown
    cases h : S.overflow with
    | false => rfl
    | true => simp [h] at hdown
  have ht := Star.tables hbuilt hunique hno
  have hk : H.Keyed := by
    intro i hi k hkey
    obtain ⟨hp, hc⟩ := Star.hash_prep.mp hkey
    exact hcodes k ((Star.mem_groups ht).mpr
      ⟨i, List.mem_filter.mpr ⟨List.mem_range.mpr hi, hp⟩, hc⟩)
  change (Star.fusedJoinAggHash S H l G' l' keys acc).rows.Perm _
  change (Star.fusedJoinAggHash S H l G' l' keys acc).overflow = false at hdown
  unfold Star.fusedJoinAggHash at hdown ⊢
  rw [hno] at hdown ⊢
  refine (fusedAggHash_rows hk hstop hstop' hdown).trans (List.Perm.of_eq ?_)
  unfold HashLaunch.groups
  change List.map _ (Star.hash S _ capacity hcap pass).keys = _
  rw [Star.hash_keys ht]
  refine List.map_congr_left fun g hg => congrArg (Prod.mk g) ?_
  obtain ⟨hnd, hne⟩ := Star.members_spec ht (List.mem_dedup.mp hg)
  change List.map (fun a => AggKind.folded _ _ ((Star.hash S _ capacity hcap pass).rowsOf g)) _ = _
  rw [Star.hash_rowsOf ht]
  exact cells_slots D ch aggs G hnd hne (heval.mono fun i hi => Star.members_mem hi)

end Query

/-- A dimension of two rows, whose join preserves the fact side, and the group is its payload. -/
def smallStar : Star where
  dims := [{
    build := {
      threads := 2
      pos := Nat.two_pos
      n := 2
      key := fun r => [5, 9].getD r 0
      payload := fun r => [1, 2].getD r 0
      capacity := 4
      capacity_pos := pos_four }
    before := fun _ => 77
    order := inTurns 5
    left := true }]
  probeKey i := [5, 7, 5].getD i 0
  groupCol := none
  stride := 1

theorem smallStar_built : ∀ d ∈ smallStar.dims, d.Built := by
  intro d hd
  obtain rfl := List.mem_singleton.mp hd
  decide +kernel

theorem smallStar_unique : ∀ d ∈ smallStar.dims, d.Unique := by
  intro d hd
  obtain rfl := List.mem_singleton.mp hd
  unfold Dimension.Unique
  decide +kernel

/-- Its launch with two blocks of one thread, for three groups. -/
def smallDense : DenseLaunch :=
  smallStar.dense (launchOf roomyDevice threeRowFrame twoAggs twoOverThree) 2 1 two_blocks 3
    fun _ => true

/-- Its launch with a table of four slots. -/
def smallHash : HashLaunch :=
  smallStar.hash (launchOf roomyDevice threeRowFrame twoAggs twoOverThree) 4 pos_four fun _ => true

/-- **A fact row without a partner** is counted for the group 0. -/
theorem fused_join_agg_dense_small :
    (smallStar.fusedJoinAggDense smallDense (fun _ _ => ofRat 7)
      (List.replicate 40 [((0 : Fin 2), (0 : Fin 1)), (1, 0)]).flatten).2 =
        [(0, [ofRat 1, ofRat 6]), (1, [ofRat 2, ofRat 12])] := by
  have h := fused_join_agg_dense roomyDevice threeRowFrame [] twoAggs smallStar 3
    twoOverThree (show 2 = 1 * 2 from rfl) (fun _ _ => ofRat 7)
    (List.replicate 40 [(0, 0), (1, 0)]).flatten (by decide +kernel)
    smallStar_built smallStar_unique (by decide +kernel)
  exact (h.2 (by decide +kernel)).trans (by decide +kernel)

/-- In a table as well. -/
theorem fused_join_agg_hash_small :
    (smallStar.fusedJoinAggHash smallHash (inTurns 24) twoOverFour (inTurns 12) (fun _ => 0)
      (fun _ _ => 0)).rows.Perm [(0, [ofRat 1, ofRat 6]), (1, [ofRat 2, ofRat 12])] := by
  have h := fused_join_agg_hash roomyDevice threeRowFrame [] twoAggs smallStar
    pos_four twoOverThree (inTurns 24) twoOverFour (inTurns 12)
    (fun _ => 0) (fun _ _ => 0) (by decide +kernel) smallStar_built smallStar_unique
    (by decide +kernel) (by decide +kernel) (by decide +kernel) (by decide +kernel)
  exact h.trans (by decide +kernel)

end RyuDB.Kernels
