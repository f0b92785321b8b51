/-
# The dense strategy as a whole

After `dense_kernel` the host goes through the groups in order, skips those that are not marked, takes the
group's number apart into the codes of the keys, stride by stride, and reads the cells of the group
(`fusedAggDense`).

The code of a row is a number that may lie outside the groups; then the row counts for none.  `fused_agg_dense`
says that, in whatever order the threads of all blocks took their steps, the outcome is the list of groups
which the lowering of a query expects, in its order, with their accumulators.
-/
import RyuDB.CompactKernel
import RyuDB.DenseKernel

namespace RyuDB.Kernels

/-! ## 1. The read-out -/

/-- A launch over the groups `0 .. n`: a row with a code counts for the group of that number, if there is
one. -/
def denseLaunch (L : Launch) (blocks dim : Nat) (hthreads : L.threads = dim * blocks) (n : Nat)
    (code : Nat → Option Int) : DenseLaunch where
  toLaunch := L
  blocks := blocks
  dim := dim
  threads_eq := hthreads
  groups := n
  group i := ((code i).filter fun g : Int => 0 ≤ g ∧ g < n).map Int.toNat
  group_lt i g h := by
    obtain ⟨k, hk, rfl⟩ := Option.map_eq_some_iff.mp h
    have hb : 0 ≤ k ∧ k < n := by simpa using (Option.mem_filter_iff.mp hk).2
    omega

/-- What the host reads back from a finished run: the marked groups, each taken apart by `keys`, with
their cells. -/
def fusedAggDense {α : Type} (L : DenseLaunch) (keys : Int → α) (sh : Fin L.blocks → Nat → Double)
    (l : List L.Thread) : List (α × List Double) :=
  let m := (L.run sh l).mem
  ((List.range L.groups).filter m.seen).map fun g : Nat =>
    (keys g, (List.range L.nagg).map fun a => m.acc (L.cell g a))

/-- The row counts for a group if that is its code. -/
theorem denseLaunch_group {L : Launch} {blocks dim : Nat} {hthreads : L.threads = dim * blocks}
    {n : Nat} {code : Nat → Option Int} {g : Nat} (hg : g < n) (i : Nat) :
    (denseLaunch L blocks dim hthreads n code).group i = some g ↔ code i = some (g : Int) := by
  change ((code i).filter fun g : Int => 0 ≤ g ∧ g < n).map Int.toNat = some g ↔ _
  cases hc : code i with
  | none => simp
  | some k =>
    simp only [Option.filter_some, decide_eq_true_eq, Option.some.injEq]
    constructor
    · intro h
      split at h
      · have hk := Option.some.inj h
        omega
      · cases h
    · rintro rfl
      rw [if_pos ⟨by omega, by omega⟩]
      rfl

/-- **Any interleaving of all blocks**, read back. -/
theorem fusedAggDense_rows {α : Type} {L : Launch} {blocks dim : Nat}
    {hthreads : L.threads = dim * blocks} {n : Nat} {code : Nat → Option Int} {rows : List Nat}
    (hcodes : ((List.range L.n).filter fun i => (code i).isSome) = rows) (keys : Int → α)
    {sh : Fin blocks → Nat → Double} {l : List (Fin blocks × Fin dim)}
    (hstop : Threads.Stopped (denseLaunch L blocks dim hthreads n code).step
      ((denseLaunch L blocks dim hthreads n code).run sh l)) :
    fusedAggDense (denseLaunch L blocks dim hthreads n code) keys sh l =
      ((List.range n).filter fun g : Nat => rows.any fun i => code i = some (g : Int)).map
        fun g : Nat => (keys g, (List.range L.nagg).map fun a => (L.kind a).folded (L.val a)
          (rows.filter fun i => code i = some (g : Int)).toFinset) := by
  subst hcodes
  have hinv := DenseLaunch.inv_run (L := denseLaunch L blocks dim hthreads n code) sh l
  have hrows : ∀ g < n, (denseLaunch L blocks dim hthreads n code).rowsOf g =
      (((List.range L.n).filter fun i => (code i).isSome).filter fun i =>
        code i = some (g : Int)).toFinset := by
    intro g hg
    ext i
    rw [DenseLaunch.mem_rowsOf, denseLaunch_group hg, List.mem_toFinset, List.mem_filter,
      List.mem_filter, List.mem_range, decide_eq_true_eq]
    constructor
    · rintro ⟨hi, hc⟩
      exact ⟨⟨hi, by rw [hc]; rfl⟩, hc⟩
    · rintro ⟨⟨hi, -⟩, hc⟩
      exact ⟨hi, hc⟩
  have hseen : ∀ g ∈ List.range n,
      ((denseLaunch L blocks dim hthreads n code).run sh l).mem.seen g =
        ((List.range L.n).filter fun i => (code i).isSome).any fun i =>
          code i = some (g : Int) := by
    intro g hg
    rw [Bool.eq_iff_iff, hinv.seen_iff hstop, hrows g (List.mem_range.mp hg), List.any_eq_true]
    refine exists_congr fun i => ?_
    rw [List.mem_toFinset, List.mem_filter]
  unfold fusedAggDense
  change List.map _ ((List.range n).filter _) = _
  rw [List.filter_congr hseen]
  refine List.map_congr_left fun g hg => congrArg (Prod.mk (keys g)) ?_
  have hg' : g < n := List.mem_range.mp (List.mem_filter.mp hg).1
  refine List.map_congr_left fun a ha => ?_
  rw [hinv.acc_eq hstop hg' (List.mem_range.mp ha), hrows g hg']
  rfl

/-! ## 2. The groups of a query -/

/-- **The dense strategy of the lowering is what the kernel computes.**  Whatever the order in which the
threads of all blocks took their steps, and whatever was in their arrays before, `fused_agg` returns the
groups the lowering expects, in its order, with their accumulators. -/
theorem fused_agg_dense (D : Fused.Device) (ch : Fused.Child)
    (preds : List (String × Fused.Cmp × ℚ)) (aggs : List (Fused.Func × List Fused.Token))
    (n : Nat) (code : Nat → Int) (strides : List Int) (G : Grid ch.length) {blocks dim : Nat}
    (hthreads : G.threads = dim * blocks) (sh : Fin blocks → Nat → Double)
    (l : List (Fin blocks × Fin dim)) :
    let pass := fun i => Fused.passPred (ch.bound D i) preds
    let L := denseLaunch (launchOf D ch aggs G) blocks dim hthreads n fun i =>
      if pass i then some (code i) else none
    Evaluates D ch aggs ((List.range ch.length).filter pass) →
    Threads.Stopped L.step (L.run sh l) →
    fusedAggDense L (Fused.unravel strides) sh l =
      (Fused.denseGroups n code ((List.range ch.length).filter pass)).map fun g =>
        (Fused.unravel strides g.1, (Fused.slots D ch aggs g.2).map ofRat) := by
  intro pass L heval hstop
  have hpass : ((List.range ch.length).filter fun i =>
      (if pass i then some (code i) else none).isSome) = (List.range ch.length).filter pass :=
    List.filter_congr fun i _ => by cases pass i <;> rfl
  rw [fusedAggDense_rows hpass (Fused.unravel strides) hstop]
  unfold Fused.denseGroups
  rw [Int.toNat_natCast, List.filter_map, List.map_map, List.map_map]
  -- a row that passes has the code it is given
  have hcode : ∀ g : Nat, ∀ i ∈ (List.range ch.length).filter pass,
      decide ((if pass i then some (code i) else none) = some (g : Int)) = decide (code i = g) := by
    intro g i hi
    simp [(List.mem_filter.mp hi).2]
  have hany : ∀ g ∈ List.range n, (((List.range ch.length).filter pass).any fun i =>
      (if pass i then some (code i) else none) = some (g : Int)) =
        ((List.range ch.length).filter pass).any fun i => code i = g := by
    intro g _
    rw [Bool.eq_iff_iff, List.any_eq_true, List.any_eq_true]
    exact exists_congr fun i => and_congr_right fun hi => by rw [hcode g i hi]
  rw [List.filter_congr hany]
  refine List.map_congr_left fun g hg => congrArg (Prod.mk _) ?_
  rw [List.filter_congr (hcode g)]
  obtain ⟨i, hi, hc⟩ := List.any_eq_true.mp (List.mem_filter.mp hg).2
  have hne : (((List.range ch.length).filter pass).filter fun i => code i = (g : Int)) ≠ [] :=
    List.ne_nil_of_mem (List.mem_filter.mpr ⟨hi, hc⟩)
  exact cells_slots D ch aggs G ((List.nodup_range.filter _).filter _) hne
    (heval.mono fun i hi => (List.mem_filter.mp hi).1)

theorem two_blocks : twoOverThree.threads = 1 * 2 := rfl

/-- Two blocks of one thread, four groups, and a row that is in none of them. -/
def threeRowsDense : DenseLaunch :=
  denseLaunch (launchOf roomyDevice threeRowFrame twoAggs twoOverThree) 2 1 two_blocks 4 fun i =>
    some ([3, 7, 3].getD i 0)

/-- **A row outside the groups is not counted.** -/
theorem fused_agg_dense_three : fusedAggDense threeRowsDense (Fused.unravel [2, 1]) (fun _ _ => ofRat 7)
    (List.replicate 40 [((0 : Fin 2), (0 : Fin 1)), (1, 0)]).flatten =
      [([1, 1], [ofRat 2, ofRat 12])] :=
  (fused_agg_dense roomyDevice threeRowFrame [] twoAggs 4 (fun i => [3, 7, 3].getD i 0)
    [2, 1] twoOverThree (show 2 = 1 * 2 from rfl) (fun _ _ => ofRat 7)
    (List.replicate 40 [(0, 0), (1, 0)]).flatten (by decide +kernel) (by decide +kernel)).trans
      (by decide +kernel)

end RyuDB.Kernels
