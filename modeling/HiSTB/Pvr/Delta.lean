import HiSTB.Pvr.Save

/-!
# `Pvr.Delta` — what a pause takes out of a recording (`hi_pvr_rec_ctrl.c`)

While a recording is paused, its thread goes on acquiring and discards what it gets. An index entry names its frame by
the offset in the stream of the demultiplexer. So the thread counts what it discards in `u64DeltaGlobalOffset`, and the
offset less this count is to be the place of the frame in the recording.

Four threads have an index and count: `PVRRecSaveIndexAndStreamRoutine` and `PVRRecSaveToCache`, each with
`PVR_ACQUIREDATAINDX` and without. A discarded batch is counted by its blocks; the first thread without
`PVR_ACQUIREDATAINDX` counts it only if `HI_UNF_DMX_AcquireRecIndex` has an entry for it.

Left out: the index, whose code takes the count off and is not in the repository, and what a restart of the channel does
to the offsets of the demultiplexer.
-/

namespace HiSTB.Pvr.Delta

open Save
open TsQueue (Area Block)

/-- The bytes of some blocks. -/
def bytes (blocks : List Block) : Nat := (blocks.map fun blk => blk.bytes.length).sum

/-- `u64DeltaGlobalOffset += u32Len`, for each block of a batch. -/
def countBlocks (delta : BitVec 64) (blocks : List Block) : BitVec 64 :=
  blocks.foldl (fun delta blk => delta + blk.len.setWidth 64) delta

/-- What becomes of data in a step. -/
inductive Fate
  | keeps
  /-- The batch is given back in a pause. -/
  | discards (b : Batch)
  | records (blk : Block)
  /-- The block is given up for an error, and the thread goes on. -/
  | drops (blk : Block)

def Fate.discarded : Fate → List Block
  | .discards b => b.blocks
  | .keeps | .records _ | .drops _ => []

def Fate.recorded : Fate → List Block
  | .records blk => [blk]
  | .keeps | .discards _ | .drops _ => []

def Fate.dropped : Fate → List Block
  | .drops blk => [blk]
  | .keeps | .discards _ | .records _ => []

def acquiredBy : Event → Nat
  | .acquired b => bytes b.blocks
  | .released _ | .pushed _ => 0

/-- The bytes that the events acquire. -/
def acquiredBytes (es : List Event) : Nat := (es.map acquiredBy).sum

/-- A thread, with what its steps do to the data and to the count. -/
structure Routine (σ ι : Type) where
  step : σ → ι → Option (σ × List Event)
  fate : σ → ι → Fate
  /-- Whether a batch that is discarded in this step is counted. -/
  counts : ι → Bool
  /-- The bytes that were acquired and are still to be saved. -/
  hand : σ → Nat
  ended : σ → Bool

/-! ## The threads without the cache -/

def handOf : Pc → Nat
  | .loop | .done => 0
  | .got b => bytes b.blocks
  | .data _ rest => bytes rest

def endedOf : Pc → Bool
  | .done => true
  | .loop | .got _ | .data .. => false

def fateIndexAndStream (cfg : Config) (pc : Pc) (env : Env) : Fate :=
  match pc with
  | .got b =>
    match b.blocks with
    | [blk] =>
      if env.paused then .discards b
      else if misaligned cfg.tsLen blk then .keeps
      else if (procCipherEncrypt cfg env.cipher (Cur.of blk)).2 = false then .drops blk
      else if env.write = false then .keeps
      else .records blk
    | _ => .keeps
  | .loop | .data .. | .done => .keeps

/-- `PVRRecSaveIndexAndStreamRoutine` with data and index apart. Of the index, the step in which a batch is discarded
    only asks for the next entry. -/
def indexAndStream (cfg : Config) : Routine Pc Env where
  step pc env := saveIndexAndStream cfg env pc
  fate := fateIndexAndStream cfg
  counts env := env.index
  hand := handOf
  ended := endedOf

def fateDataIndex (cfg : Config) (pc : Pc) (env : Env) : Fate :=
  match pc with
  | .got b => if env.paused then .discards b else .keeps
  | .data _ (blk :: _) =>
    if blk.bytes = [] ∨ misaligned 188 blk then .keeps
    else if (procCipherEncrypt cfg env.cipher (Cur.of blk)).2 = false then .drops blk
    else if env.write = false then .keeps
    else .records blk
  | .data _ [] | .loop | .done => .keeps

/-- `PVRRecSaveIndexAndStreamRoutine` with `PVR_ACQUIREDATAINDX`. -/
def dataIndex (cfg : Config) : Routine Pc Env where
  step pc env := saveDataIndex cfg env pc
  fate := fateDataIndex cfg
  counts _ := true
  hand := handOf
  ended := endedOf

/-! ## The threads with the cache -/

def cacheEndedOf : CachePc → Bool
  | .done => true
  | .loop | .acquire | .got _ | .index .. | .data .. | .encrypt .. | .push .. => false

/-- Without `PVR_ACQUIREDATAINDX` no block is behind the one that is pushed. -/
def cacheHandOf (dataIdx : Bool) : CachePc → Nat
  | .loop | .acquire | .done => 0
  | .got b | .index b _ => bytes b.blocks
  | .data _ rest => bytes rest
  | .encrypt _ c _ => c.now.bytes.length
  | .push _ c rest => c.now.bytes.length + if dataIdx then bytes rest else 0

def fateToCache (cfg : Config) (a : Area) (s : CacheSys) (env : Env) : Fate :=
  match s.pc with
  | .got b =>
    match b.blocks with
    | [blk] =>
      if env.paused then .discards b
      else if misaligned cfg.tsLen blk then .drops blk
      else .keeps
    | _ => .keeps
  | .encrypt _ c _ => if (procCipherEncrypt cfg env.cipher c).2 = false then .drops c.now else .keeps
  | .push _ c _ => if (s.tsQueue.queue.push a c.now).2 then .records c.now else .keeps
  | .loop | .acquire | .index .. | .data .. | .done => .keeps

def fateDataIndexToCache (cfg : Config) (a : Area) (s : CacheSys) (env : Env) : Fate :=
  match s.pc with
  | .got b => if env.paused then .discards b else .keeps
  | .data _ (blk :: _) =>
    if blk.bytes = [] ∨ misaligned 188 blk then .keeps
    else if (procCipherEncrypt cfg env.cipher (Cur.of blk)).2 = false then .drops blk
    else .keeps
  | .push _ c _ => if (s.tsQueue.queue.push a c.now).2 then .records c.now else .keeps
  | .data _ [] | .loop | .acquire | .index .. | .encrypt .. | .done => .keeps

/-- `PVRRecSaveToCache`, with the thread that empties the queue. A block is recorded once it is pushed. -/
def toCache (cfg : Config) (a : Area) (queueBlock : BitVec 32) (dataIdx : Bool) : Routine CacheSys CacheInput where
  step := cacheStep cfg a queueBlock dataIdx
  fate s i :=
    match i with
    | .save env => if dataIdx then fateDataIndexToCache cfg a s env else fateToCache cfg a s env
    | .pollBuff | .pollHead _ => .keeps
  counts _ := true
  hand s := cacheHandOf dataIdx s.pc
  ended s := cacheEndedOf s.pc

/-! ## The count -/

/-- A thread with `u64DeltaGlobalOffset`. The numbers are not in the source: the bytes acquired so far, and what became
    of them. -/
structure Books (σ : Type) where
  thread : σ
  delta : BitVec 64
  acquired : Nat
  discarded : Nat
  recorded : Nat
  dropped : Nat

variable {σ ι : Type}

def Books.start (s : σ) : Books σ := ⟨s, 0, 0, 0, 0, 0⟩

def Books.after (s : Books σ) (f : Fate) (counts : Bool) (t : σ) (es : List Event) : Books σ where
  thread := t
  delta := if counts then countBlocks s.delta f.discarded else s.delta
  acquired := s.acquired + acquiredBytes es
  discarded := s.discarded + bytes f.discarded
  recorded := s.recorded + bytes f.recorded
  dropped := s.dropped + bytes f.dropped

/-- A step of the thread, booked. -/
def Routine.bookedStep (r : Routine σ ι) (s : Books σ) (i : ι) : Option (Books σ × List Event) :=
  (r.step s.thread i).map fun q => (s.after (r.fate s.thread i) (r.counts i) q.1 q.2, q.2)

/-- The thread of a build. -/
inductive Kind
  | indexAndStream
  | dataIndex
  | toCache
  | dataIndexToCache

abbrev Kind.Thread : Kind → Type
  | .indexAndStream | .dataIndex => Pc
  | .toCache | .dataIndexToCache => CacheSys

abbrev Kind.Input : Kind → Type
  | .indexAndStream | .dataIndex => Env
  | .toCache | .dataIndexToCache => CacheInput

def Kind.routine (cfg : Config) (a : Area) (queueBlock : BitVec 32) : (k : Kind) → Routine k.Thread k.Input
  | .indexAndStream => Delta.indexAndStream cfg
  | .dataIndex => Delta.dataIndex cfg
  | .toCache => Delta.toCache cfg a queueBlock false
  | .dataIndexToCache => Delta.toCache cfg a queueBlock true

def Kind.init (a : Area) : (k : Kind) → k.Thread
  | .indexAndStream | .dataIndex => Pc.loop
  | .toCache | .dataIndexToCache => cacheInit a

end HiSTB.Pvr.Delta
