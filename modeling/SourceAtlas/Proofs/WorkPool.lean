import SourceAtlas.WorkPool
import SourceAtlas.Proofs.Traversal
import Mathlib.Data.List.Flatten

/-!
# The worker pool: what a divided run brings

A divided run is compared with working through the items one after another. The items are shared out
in chunks; a chunk comes through (`comesThrough`) if its worker starts and the job gives a result
for each of its items.

* **`chunks_flatten`**, **`ne_nil_of_mem_chunks`**, **`length_division_le`**: the division loses no
  item, makes no empty chunk, and makes no more chunks than there are workers;
* **`chunkResults?_eq`**: a chunk that comes through gives what its items give, any other gives
  nothing, so adding a chunk to a batch is one equation for each part (`addChunk_eq`);
* **`foldl_addChunk_eq`**: the same for a run of chunks, by induction on them.

A run divides the items only if room can be reserved for a chunk of every worker. Which runs break
down for this is told by the number of items alone (`refuses`, `run_eq`), and more items never make
a pool less likely to break down (`refuses_mono`). Any other run refines the plain one
(`run_refines_runAlone`), and a job that never breaks down is not affected by the pool (`map_eq`).
-/

namespace SourceAtlas.WorkPool

variable {α β : Type}

/-! ## The division -/

theorem chunks_flatten (size : Nat) (items : List α) : (chunks size items).flatten = items := by
  -- by the recursion of `chunks`, which takes one chunk at a time
  induction items using chunks.induct size with
  | case1 => rw [chunks, List.flatten_nil]
  | case2 x xs ih =>
    rw [chunks, List.flatten_cons, ih, List.cons_append, List.take_append_drop]

theorem ne_nil_of_mem_chunks {size : Nat} {items chunk : List α} (h : chunk ∈ chunks size items) :
    chunk ≠ [] := by
  induction items using chunks.induct size with
  | case1 =>
    rw [chunks] at h
    cases h
  | case2 x xs ih =>
    rw [chunks, List.mem_cons] at h
    rcases h with rfl | h
    · exact List.cons_ne_nil _ _
    · exact ih h

/-- Chunks of a size that `count` of them can hold all items are at most `count` many. -/
theorem length_chunks_le {size count : Nat} {items : List α}
    (h : items.length ≤ (size + 1) * count) : (chunks size items).length ≤ count := by
  induction items using chunks.induct size generalizing count with
  | case1 =>
    rw [chunks]
    exact Nat.zero_le count
  | case2 x xs ih =>
    cases count with
    | zero => simp at h
    | succ count =>
      -- the first chunk takes `size + 1` items, so one chunk less can hold the others
      have hrest : (xs.drop size).length ≤ (size + 1) * count := by
        rw [List.length_cons, Nat.mul_succ] at h
        rw [List.length_drop]
        omega
      rw [chunks, List.length_cons]
      exact Nat.succ_le_succ (ih hrest)

/-- Chunks of the size chosen can hold all items. -/
theorem le_chunkSize_mul (items : Nat) {workers : Nat} (h : 0 < workers) :
    items ≤ chunkSize items workers * workers := by
  -- rounding up the quotient leaves no remainder out
  have hlt := Nat.lt_mul_div_succ (items + workers - 1) h
  rw [Nat.mul_add, Nat.mul_one, Nat.mul_comm workers] at hlt
  unfold chunkSize
  omega

/-- There are at most as many chunks as workers. -/
theorem length_division_le {workers : Nat} (h : 0 < workers) (items : List α) :
    (division workers items).length ≤ workers := by
  have hle := le_chunkSize_mul items.length h
  -- a chunk of size zero is taken for one of size one
  refine length_chunks_le (Nat.le_trans hle (Nat.mul_le_mul_right workers ?_))
  omega

theorem division_flatten (workers : Nat) (items : List α) :
    (division workers items).flatten = items :=
  chunks_flatten _ items

/-- The numbered chunks hold the items in their order. -/
theorem flatMap_zipIdx_division (workers : Nat) (items : List α) :
    (division workers items).zipIdx.flatMap Prod.fst = items := by
  rw [List.flatMap_def, List.zipIdx_map_fst, division_flatten]

/-! ## One chunk -/

/-- Whether the worker of a chunk starts and the job gives a result for each of its items. -/
def comesThrough (starts : Nat → Bool) (job : α → Option β) (chunk : List α × Nat) : Bool :=
  starts chunk.2 && chunk.1.all fun x => (job x).isSome

section Chunk

variable (starts : Nat → Bool) (job : α → Option β)

theorem chunkResults?_eq (chunk : List α × Nat) :
    chunkResults? starts job chunk =
      if comesThrough starts job chunk then some (chunk.1.filterMap job) else none := by
  unfold chunkResults? comesThrough
  rw [Traversal.mapM_option_eq]
  cases starts chunk.2 <;> simp

/-- A chunk that comes through adds its results; any other adds to what is lost. -/
theorem addChunk_eq (b : Batch β) (chunk : List α × Nat) :
    addChunk starts job b chunk =
      if comesThrough starts job chunk then { b with results := b.results ++ chunk.1.filterMap job }
      else
        { b with
          dropped := b.dropped + chunk.1.length
          droppedChunks := b.droppedChunks ++ [chunk.2] } := by
  unfold addChunk
  rw [chunkResults?_eq]
  -- a chunk is judged as a whole
  cases comesThrough starts job chunk <;> rfl

/-- The items of a chunk that comes through all have a result. -/
theorem map_some_filterMap_of_comesThrough {starts : Nat → Bool} {job : α → Option β}
    {chunk : List α × Nat} (h : comesThrough starts job chunk = true) :
    (chunk.1.filterMap job).map some = chunk.1.map job := by
  have hall := (Bool.and_eq_true_iff.mp h).2
  rw [List.all_eq_true] at hall
  rw [List.map_filterMap]
  refine List.filterMap_eq_map_iff_forall_eq_some.mpr fun x hx => ?_
  obtain ⟨y, hy⟩ := Option.isSome_iff_exists.mp (hall x hx)
  rw [hy, Option.map_some]

end Chunk

/-! ## One chunk after another -/

section Run

variable (starts : Nat → Bool) (job : α → Option β)

/-- Adding chunks one after another: each goes either to the results or to what is lost. -/
theorem foldl_addChunk_eq (cs : List (List α × Nat)) (b : Batch β) :
    cs.foldl (addChunk starts job) b =
      { results := b.results
          ++ (cs.filter (comesThrough starts job)).flatMap fun c => c.1.filterMap job
        dropped := b.dropped
          + ((cs.filter (!comesThrough starts job ·)).flatMap Prod.fst).length
        droppedChunks := b.droppedChunks
          ++ (cs.filter (!comesThrough starts job ·)).map Prod.snd } := by
  induction cs generalizing b with
  | nil => simp
  | cons c cs ih =>
    rw [List.foldl_cons, ih, addChunk_eq]
    cases hc : comesThrough starts job c with
    | true => simp [hc]
    | false => simp [hc, Nat.add_assoc]

theorem runChunks_eq (workers : Nat) (items : List α) :
    runChunks workers job items starts =
      { results := ((division workers items).zipIdx.filter (comesThrough starts job)).flatMap
          fun c => c.1.filterMap job
        dropped := (((division workers items).zipIdx.filter
          (!comesThrough starts job ·)).flatMap Prod.fst).length
        droppedChunks := ((division workers items).zipIdx.filter
          (!comesThrough starts job ·)).map Prod.snd } := by
  unfold runChunks Batch.empty
  rw [foldl_addChunk_eq]
  simp only [List.nil_append, Nat.zero_add]

end Run

/-! ## A divided run and a plain one -/

section Refinement

variable (starts : Nat → Bool) (job : α → Option β) (workers : Nat) (items : List α)

/-- The results are those of exactly the items of the chunks that come through. -/
theorem map_some_runChunks_results :
    (runChunks workers job items starts).results.map some =
      (((division workers items).zipIdx.filter (comesThrough starts job)).flatMap
        Prod.fst).map job := by
  rw [runChunks_eq, List.map_flatMap, List.map_flatMap]
  -- chunk by chunk, each of which came through
  exact List.flatMap_congr fun c hc =>
    map_some_filterMap_of_comesThrough (List.mem_filter.mp hc).2

/-- Every item has a result or is counted as lost. -/
theorem runChunks_total :
    (runChunks workers job items starts).results.length
      + (runChunks workers job items starts).dropped = items.length := by
  have hresults := congrArg List.length (map_some_runChunks_results starts job workers items)
  rw [List.length_map, List.length_map] at hresults
  -- the chunks that come through and the others are all chunks
  have hsplit := ((List.filter_append_perm (comesThrough starts job)
    (division workers items).zipIdx).flatMap_right Prod.fst).length_eq
  rw [List.flatMap_append, List.length_append, flatMap_zipIdx_division] at hsplit
  rw [hresults, ← hsplit, runChunks_eq]

/-- No result of a divided run is one that working through the items would not bring, and they come
in the same order. -/
theorem runChunks_results_sublist :
    (runChunks workers job items starts).results.Sublist (runAlone job items).results := by
  -- the plain run is cut into the same chunks; some of them are left out
  have hall : (runAlone job items).results =
      (division workers items).zipIdx.flatMap fun c => c.1.filterMap job := by
    unfold runAlone
    dsimp only
    conv_lhs => rw [← flatMap_zipIdx_division workers items, List.filterMap_flatMap]
  rw [hall, runChunks_eq]
  exact List.filter_sublist.flatMap _

/-- If every worker starts and no item breaks down, dividing the items changes nothing. -/
theorem runChunks_eq_runAlone (hstarts : ∀ n, n < (division workers items).length → starts n = true)
    (hjob : ∀ x ∈ items, (job x).isSome = true) :
    runChunks workers job items starts = runAlone job items := by
  -- an item of a chunk is an item of the list, and chunks are numbered below their count
  have hthrough : ∀ c ∈ (division workers items).zipIdx, comesThrough starts job c = true := by
    rintro ⟨chunk, n⟩ hc
    have hn := List.snd_lt_of_mem_zipIdx hc
    have hchunk : chunk ∈ division workers items := List.fst_mem_of_mem_zipIdx hc
    unfold comesThrough
    rw [hstarts n (by simpa using hn), Bool.true_and, List.all_eq_true]
    intro x hx
    refine hjob x ?_
    rw [← division_flatten workers items]
    exact List.mem_flatten.mpr ⟨chunk, hchunk, hx⟩
  have hnone : (division workers items).zipIdx.filter (!comesThrough starts job ·) = [] := by
    rw [List.filter_eq_nil_iff]
    intro c hc
    simp [hthrough c hc]
  have hlength : (items.filterMap job).length = items.length := by
    rw [List.length_filterMap_eq_countP, List.countP_eq_length]
    exact hjob
  rw [runChunks_eq, hnone, List.filter_eq_self.mpr hthrough]
  unfold runAlone
  dsimp only
  rw [hlength, Nat.sub_self, ← List.filterMap_flatMap, flatMap_zipIdx_division]
  rfl

end Refinement

/-- How a divided run compares with working through the items one after another. -/
structure RefinesAlone (workers : Nat) (starts : Nat → Bool) (job : α → Option β) (items : List α)
    (b : Batch β) : Prop where
  atMost : (division workers items).length ≤ workers
  nonempty : ∀ chunk ∈ division workers items, chunk ≠ []
  contiguous : (division workers items).flatten = items
  /-- The results are, in order, those of exactly the items of the chunks that come through. -/
  results : b.results.map some =
    (((division workers items).zipIdx.filter (comesThrough starts job)).flatMap Prod.fst).map job
  /-- The chunks lost are, by number, exactly those that do not come through. -/
  droppedChunks : b.droppedChunks =
    ((division workers items).zipIdx.filter (!comesThrough starts job ·)).map Prod.snd
  total : b.results.length + b.dropped = items.length
  sublist : b.results.Sublist (runAlone job items).results
  same : (∀ n, n < (division workers items).length → starts n = true) →
    (∀ x ∈ items, (job x).isSome = true) → b = runAlone job items

/-! ## Room for the chunks -/

/--
Whether a run over a number of items breaks down: they would be divided, but among so many workers
that no room can be reserved for the chunks.
-/
def refuses (p : WorkPool) (items : Nat) : Bool :=
  items != 0 && p.isParallelFor items && !canReserve p.workers

theorem refuses_eq_true_iff {p : WorkPool} {items : Nat} :
    p.refuses items = true ↔ Text.maxSigned < chunkHeader * p.workers ∧ p.enabled = true
      ∧ 0 < items ∧ p.threshold ≤ items := by
  unfold refuses isParallelFor canReserve
  simp only [Bool.and_eq_true, bne_iff_ne, Bool.not_eq_true', decide_eq_true_eq,
    decide_eq_false_iff_not, Nat.not_le]
  constructor
  · rintro ⟨⟨hitems, ⟨henabled, -⟩, hthreshold⟩, hbytes⟩
    exact ⟨hbytes, henabled, Nat.pos_of_ne_zero hitems, hthreshold⟩
  · rintro ⟨hbytes, henabled, hitems, hthreshold⟩
    -- room for a single worker can always be reserved
    have hworkers : 1 < p.workers := by
      unfold chunkHeader Text.maxSigned at hbytes
      omega
    exact ⟨⟨Nat.ne_of_gt hitems, ⟨henabled, hworkers⟩, hthreshold⟩, hbytes⟩

/-- A pool that breaks down over some items does so over more of them. -/
theorem refuses_mono {p : WorkPool} {few many : Nat} (h : few ≤ many)
    (hrefuses : p.refuses few = true) : p.refuses many = true := by
  rw [refuses_eq_true_iff] at hrefuses ⊢
  obtain ⟨hbytes, henabled, hitems, hthreshold⟩ := hrefuses
  exact ⟨hbytes, henabled, Nat.lt_of_lt_of_le hitems h, Nat.le_trans hthreshold h⟩

/-- Where a run does not break down it is a divided run or a plain one. -/
theorem run_eq (p : WorkPool) (job : α → Option β) (items : List α) (starts : Nat → Bool) :
    p.run job items starts =
      if p.refuses items.length then .error .capacityOverflow
      else .ok (if p.isParallelFor items.length then runChunks p.workers job items starts
        else runAlone job items) := by
  unfold run runParallel refuses
  cases items with
  | nil =>
    -- a division of nothing has no chunks, and the plain run has no results
    have hchunks : runChunks p.workers job [] starts = .empty := by
      unfold runChunks division
      rw [chunks]
      rfl
    rw [hchunks]
    simp [Batch.empty, runAlone]
  | cons x xs =>
    cases p.isParallelFor (x :: xs).length with
    | false => simp
    | true => cases canReserve p.workers <;> simp

/--
**A divided run refines a plain one wherever there is room for the chunks.** Take a pool with at
least one worker and any threshold, any job, wherever it breaks down, and whichever workers fail to
start. In parallel mode, if there is nothing to do or the chunks of all workers take no more bytes
than can be addressed, the run gives a batch. The items are shared out in at most as many chunks as
there are workers, none of them empty, which together are the items; the results are those of the
chunks that come through, the other chunks are lost as a whole and told by number, and no item is
lost otherwise. These are results of the plain run in the same order, and all of them if nothing
breaks down. With more workers than that the run gives no batch at all. Outside of parallel mode the
run is the plain one.
-/
theorem run_refines_runAlone (p : WorkPool) (hworkers : 0 < p.workers) (starts : Nat → Bool)
    (job : α → Option β) (items : List α) :
    (p.isParallelFor items.length = true →
        (items = [] ∨ chunkHeader * p.workers ≤ Text.maxSigned →
          ∃ b, p.run job items starts = .ok b ∧ RefinesAlone p.workers starts job items b)
        ∧ (items ≠ [] → Text.maxSigned < chunkHeader * p.workers →
          p.run job items starts = .error .capacityOverflow))
      ∧ (p.isParallelFor items.length = false →
        p.run job items starts = .ok (runAlone job items)) := by
  have hrefines : RefinesAlone p.workers starts job items (runChunks p.workers job items starts) :=
    { atMost := length_division_le hworkers items
      nonempty := fun chunk => ne_nil_of_mem_chunks
      contiguous := division_flatten p.workers items
      results := map_some_runChunks_results starts job p.workers items
      droppedChunks := by rw [runChunks_eq]
      total := runChunks_total starts job p.workers items
      sublist := runChunks_results_sublist starts job p.workers items
      same := runChunks_eq_runAlone starts job p.workers items }
  rw [run_eq]
  refine ⟨fun hparallel => ⟨fun hroom => ⟨_, ?_, hrefines⟩, fun hitems hroom => if_pos ?_⟩,
    fun halone => ?_⟩
  -- with nothing to do no room is asked for
  · have hrefuses : ¬p.refuses items.length = true := by
      rw [refuses_eq_true_iff]
      rintro ⟨hbytes, -, hpos, -⟩
      rcases hroom with rfl | hroom
      · exact Nat.lt_irrefl 0 hpos
      · exact Nat.not_lt.mpr hroom hbytes
    rw [if_neg hrefuses, if_pos hparallel]
  · unfold isParallelFor at hparallel
    simp only [Bool.and_eq_true, decide_eq_true_eq] at hparallel
    exact refuses_eq_true_iff.mpr
      ⟨hroom, hparallel.1.1, List.length_pos_iff.mpr hitems, hparallel.2⟩
  · unfold refuses
    simp [halone]

/-- Chunks of two: the worker of the first does not start, and the job breaks down on `5`. -/
theorem run_refines_runAlone_twoLost :
    let p : WorkPool := ⟨4, 1, true⟩
    let starts : Nat → Bool := fun n => n != 0
    let job : Nat → Option Nat := fun n => if n = 5 then none else some n
    0 < p.workers ∧ p.isParallelFor (List.range 8).length = true
      ∧ chunkHeader * p.workers ≤ Text.maxSigned
      ∧ p.run job (List.range 8) starts = .ok ⟨[2, 3, 6, 7], 4, [0, 2]⟩
      ∧ RefinesAlone p.workers starts job (List.range 8) ⟨[2, 3, 6, 7], 4, [0, 2]⟩ := by
  intro p starts job
  have hrun : p.run job (List.range 8) starts = .ok ⟨[2, 3, 6, 7], 4, [0, 2]⟩ := by decide +kernel
  obtain ⟨hparallel, -⟩ := run_refines_runAlone p (by decide) starts job (List.range 8)
  obtain ⟨b, hb, hrefines⟩ := (hparallel (by decide)).1 (Or.inr (by decide))
  rw [hrun] at hb
  cases hb
  exact ⟨by decide, by decide, by decide, hrun, hrefines⟩

/--
Three items on which the job does not break down, and the greatest number of workers there is: the
plain run gives all results, the divided one breaks down before it starts.
-/
theorem run_breaksDown_mostWorkers :
    let p : WorkPool := ⟨Text.maxUnsigned, 1, true⟩
    0 < p.workers ∧ p.isParallelFor [1, 2, 3].length = true
      ∧ (division p.workers [1, 2, 3]).length = 3
      ∧ runAlone some [1, 2, 3] = ⟨[1, 2, 3], 0, []⟩
      ∧ p.run some [1, 2, 3] = .error .capacityOverflow := by
  decide +kernel

/-! ## Jobs that always give a result -/

/-- Where it does not break down, the pool works through a list as if it did so alone. -/
theorem map_eq (p : WorkPool) (job : α → β) (items : List α) :
    p.map job items = if p.refuses items.length then .error .capacityOverflow
      else .ok (items.map job) := by
  have halone : (runAlone (fun x => some (job x)) items).results = items.map job := by
    unfold runAlone
    rw [List.filterMap_eq_map']
  unfold map
  rw [run_eq, runChunks_eq_runAlone _ _ _ _ (fun _ _ => rfl) (fun _ _ => rfl), ite_self]
  split
  · rfl
  · exact congrArg Except.ok halone

end SourceAtlas.WorkPool
