import SourceAtlas.Text.Digits

/-!
# The worker pool

Items are given to a fixed number of workers in contiguous chunks. A worker whose job breaks down
on an item loses its whole chunk, and so does one that cannot be started; without workers only the
item itself is lost. The results keep the order of the items.

Before the items are divided, room is reserved for as many chunks as there are workers, however few
items there are. For a number of workers that is out of all proportion this fails, and the run with
it.
-/

namespace SourceAtlas

/-- What a run over a list of items brought. -/
structure Batch (β : Type) where
  results : List β
  /-- The number of items without a result. -/
  dropped : Nat
  /-- The chunks lost, by number. -/
  droppedChunks : List Nat
  deriving DecidableEq, Repr

/-- The batch of a run over nothing. -/
def Batch.empty {β : Type} : Batch β :=
  ⟨[], 0, []⟩

/-- What stops a run before any worker has started. -/
inductive PoolFault where
  /-- The room for the chunks would take more bytes than can be addressed. -/
  | capacityOverflow
  deriving DecidableEq, Repr

/-- The settings of a pool: without `enabled`, or below the threshold, it works alone. -/
structure WorkPool where
  workers : Nat
  threshold : Nat
  enabled : Bool
  deriving DecidableEq, Repr

namespace WorkPool

/-- A pool that always works alone. -/
def sequential : WorkPool :=
  ⟨1, Text.maxUnsigned, false⟩

/-- Whether a number of items is divided among the workers. -/
def isParallelFor (p : WorkPool) (items : Nat) : Bool :=
  p.enabled && 1 < p.workers && p.threshold ≤ items

/-- Divides a list into chunks of `size + 1` items; the last one may be shorter. -/
def chunks {α : Type} (size : Nat) : List α → List (List α)
  | [] => []
  | x :: xs => (x :: xs.take size) :: chunks size (xs.drop size)
  termination_by xs => xs.length
  decreasing_by simp only [List.length_cons, List.length_drop]; omega

/-- The number of items of a chunk, so that there are at most as many chunks as workers. -/
def chunkSize (items workers : Nat) : Nat :=
  (items + workers - 1) / workers

/-- The chunks that a number of items is divided into for some workers. -/
def division {α : Type} (workers : Nat) (items : List α) : List (List α) :=
  chunks (chunkSize items.length workers - 1) items

/--
The results of the chunk with a number, if its worker starts and the job gives one for every item of
the chunk.
-/
def chunkResults? {α β : Type} (starts : Nat → Bool) (job : α → Option β)
    (chunk : List α × Nat) : Option (List β) :=
  if starts chunk.2 then chunk.1.mapM job else none

/-- Adds the outcome of the chunk with a number. -/
def addChunk {α β : Type} (starts : Nat → Bool) (job : α → Option β) (b : Batch β)
    (chunk : List α × Nat) : Batch β :=
  match chunkResults? starts job chunk with
  | some results => { b with results := b.results ++ results }
  | none =>
    { b with
      dropped := b.dropped + chunk.1.length
      droppedChunks := b.droppedChunks ++ [chunk.2] }

/--
Runs a job over the chunks that items are divided into, of whose workers some may fail to start.
-/
def runChunks {α β : Type} (workers : Nat) (job : α → Option β) (items : List α)
    (starts : Nat → Bool) : Batch β :=
  (division workers items).zipIdx.foldl (addChunk starts job) .empty

/--
The bytes that a chunk takes beside its items: a pointer to them, their number, and how many fit.
-/
def chunkHeader : Nat := 24

/--
Whether room can be reserved for the chunks of a number of workers: its bytes are counted by a
signed integer of 64 bits. Room that can be asked for is taken to be granted.
-/
def canReserve (workers : Nat) : Bool :=
  chunkHeader * workers ≤ Text.maxSigned

/--
Runs a job over items that are divided among workers, after reserving a chunk for each worker.
-/
def runParallel {α β : Type} (workers : Nat) (job : α → Option β) (items : List α)
    (starts : Nat → Bool) : Except PoolFault (Batch β) :=
  if canReserve workers then .ok (runChunks workers job items starts)
  else .error .capacityOverflow

/-- Runs a job over items one after another. -/
def runAlone {α β : Type} (job : α → Option β) (items : List α) : Batch β :=
  let results := items.filterMap job
  ⟨results, items.length - results.length, []⟩

/--
Runs a job, which gives no result where it breaks down, over items. Whether the worker of a chunk
starts is up to the machine. Where there is nothing to do the pool is not asked.
-/
def run {α β : Type} (p : WorkPool) (job : α → Option β) (items : List α)
    (starts : Nat → Bool := fun _ => true) : Except PoolFault (Batch β) :=
  if items.isEmpty then .ok .empty
  else if p.isParallelFor items.length then runParallel p.workers job items starts
  else .ok (runAlone job items)

/-- Runs a job that never breaks down over items. -/
def map {α β : Type} (p : WorkPool) (job : α → β) (items : List α) : Except PoolFault (List β) :=
  (p.run (fun x => some (job x)) items).map (·.results)

end WorkPool

end SourceAtlas
