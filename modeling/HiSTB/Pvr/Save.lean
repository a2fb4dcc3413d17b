import HiSTB.Pvr.TsQueue

/-!
# `Pvr.Save` — the threads that save a recording (`hi_pvr_rec_ctrl.c`)

A recording has a thread that acquires data from the demultiplexer, encrypts it, offers it to the write callback, and
writes it. There are five of them, by build and by stream type:

* `PVRRecSaveStream` — all of the TS;
* `PVRRecSaveIndexAndStreamRoutine` — twice: with data and index in one batch (`PVR_ACQUIREDATAINDX`), or without;
* `PVRRecSaveToCache` — with `HI_PVR_L2_CACHE_SUPPORT`, also twice. It pushes the data to the record TS queue, which
  another thread empties.

A thread takes a step at a time. What the environment answers is an input: the state that the user sets
(`enState`), and whether the demultiplexer, the cipher, the index and the file succeed. A batch is what one acquire
returned; the demultiplexer gets it back as a whole.

Left out: the log messages and events, the dump files, the index of the build without `PVR_ACQUIREDATAINDX`, which is
not given back to the demultiplexer, and the arguments of the write callback other than the data.
-/

namespace HiSTB.Pvr.Save

open TsQueue

/-- What one acquire returned: the pieces of data, and how many index entries. -/
structure Batch where
  blocks : List Block
  idxNum : Nat
  deriving DecidableEq

/-- The result of an acquire. `noData` is `HI_ERR_DMX_NOAVAILABLE_DATA` or `HI_ERR_DMX_TIMEOUT`. -/
inductive Acq
  | success (b : Batch)
  | noData
  | overflowBuffer
  | error

/-- What the environment answers in a step. -/
structure Env where
  /-- `HI_UNF_PVR_REC_STATE_STOP`, at the head of the loop. -/
  stopped : Bool
  /-- `HI_UNF_PVR_REC_STATE_PAUSE`, behind an acquire. -/
  paused : Bool
  acquire : Acq
  /-- The calls of `HI_UNF_CIPHER_Encrypt` for one block. -/
  cipher : Nat → Bool
  /-- Where `PVRFileGetRealOffset` ends a file in the middle of the block. -/
  split : Option Nat
  /-- `PVRRecCycWriteStream`. -/
  write : Bool
  /-- `PVR_Index_SaveToCache`, or `PVRRecSaveIndexToCache`. -/
  index : Bool
  /-- `HI_UNF_DMX_StopRecChn` and `HI_UNF_DMX_StartRecChn`. -/
  restart : Bool
  /-- `bRecReachFix`. -/
  reachFix : Bool

/-- The settings of a recording; `enc` is what the cipher does to a piece of data. -/
structure Config where
  doCipher : Bool
  writeCallBack : Bool
  enc : List Byte → List Byte
  enc_length : ∀ bs, (enc bs).length = bs.length
  /-- `PVR_TS_LEN`. -/
  tsLen : Nat
  cipherMaxLen : Nat

/-- A block on its way: as it was acquired and as it is now. `encs` and `passed` are not in the source: how often
    it was encrypted, and what the write callback has got. -/
structure Cur where
  orig : Block
  now : Block
  encs : Nat
  passed : List (List Byte)

def Cur.of (b : Block) : Cur := ⟨b, b, 0, []⟩

inductive Event
  | acquired (b : Batch)
  | released (b : Batch)
  | pushed (c : Cur)

/-- The check for the length of a block. `PVRRecSaveStream` and the routines with `PVR_ACQUIREDATAINDX` have 188 for
    `unit`, and also refuse an empty block; the others have `PVR_TS_LEN`. -/
def misaligned (unit : Nat) (b : Block) : Bool := b.bytes.length % unit != 0 || b.bytes.length % 16 != 0

/-! ## Cipher and callback -/

/-- The loop of `PVRRecProcCipherEncrypt`, from its `i`-th piece on; `left` more pieces are allowed behind it. -/
def encryptLoop (enc : List Byte → List Byte) (maxLen : Nat) (ok : Nat → Bool) :
    Nat → Nat → List Byte → List Byte × Bool
  | left, i, bs =>
    if bs = [] then ([], true)
    else if ok i = false then (bs, false)
    else
      match left with
      | 0 => (enc (bs.take maxLen) ++ bs.drop maxLen, false)
      | left + 1 =>
        let (rest, done) := encryptLoop enc maxLen ok left (i + 1) (bs.drop maxLen)
        (enc (bs.take maxLen) ++ rest, done)

theorem length_encryptLoop {enc : List Byte → List Byte} (henc : ∀ bs, (enc bs).length = bs.length) (maxLen : Nat)
    (ok : Nat → Bool) (left i : Nat) (bs : List Byte) :
    (encryptLoop enc maxLen ok left i bs).1.length = bs.length := by
  induction left generalizing i bs with
  | zero =>
    unfold encryptLoop
    split
    · simp [*]
    · split
      · rfl
      · simp [henc]
        omega
  | succ left ih =>
    unfold encryptLoop
    split
    · simp [*]
    · split
      · rfl
      · simp [henc, ih]
        omega

/-- `PVRRecProcCipherEncrypt`, in place. -/
def procCipherEncrypt (cfg : Config) (ok : Nat → Bool) (c : Cur) : Cur × Bool :=
  if cfg.doCipher = false then (c, true)
  else
    let r := encryptLoop cfg.enc cfg.cipherMaxLen ok 20 0 c.now.bytes
    ({ c with
        now := ⟨r.1, by rw [length_encryptLoop cfg.enc_length]; exact c.now.lt⟩
        encs := c.encs + 1 }, r.2)

/-- `PVRRecProcExtCallBack`, where a callback is registered: the block in one piece, or in two where a file ends
    within it. -/
def procExtCallBack (cfg : Config) (split : Option Nat) (c : Cur) : Cur :=
  if cfg.writeCallBack = false then c
  else
    match split with
    | some k =>
      if k < c.now.bytes.length then
        { c with passed := c.passed ++ [c.now.bytes.take k, c.now.bytes.drop k] }
      else { c with passed := c.passed ++ [c.now.bytes] }
    | none => { c with passed := c.passed ++ [c.now.bytes] }

/-! ## The threads without the cache -/

/-- Where a thread is: at the head of its loop, behind an acquire, in the loop over the blocks, or at its end. -/
inductive Pc
  | loop
  | got (b : Batch)
  | data (b : Batch) (rest : List Block)
  | done

/-- `PVRRecSaveStream`. -/
def saveStream (cfg : Config) (env : Env) : Pc → Option (Pc × List Event)
  | .loop =>
    if env.stopped then some (.done, [])
    else
      match env.acquire with
      | .success b => some (.got b, [.acquired b])
      | .noData => some (.loop, [])
      | .overflowBuffer | .error => some (.done, [])
  | .got b =>
    match b.blocks with
    | [blk] =>
      if env.paused then some (.loop, [.released b])
      else if blk.bytes = [] ∨ misaligned 188 blk then some (.done, [.released b])
      else if (procCipherEncrypt cfg env.cipher (Cur.of blk)).2 = false then some (.loop, [.released b])
      else if env.write = false then some (.done, [.released b])
      else some (.loop, [.released b])
    | _ => none
  | .data .. | .done => none

/-- `PVRRecSaveIndexAndStreamRoutine` with data and index apart. -/
def saveIndexAndStream (cfg : Config) (env : Env) : Pc → Option (Pc × List Event)
  | .loop =>
    if env.stopped then some (.done, [])
    else
      match env.acquire with
      | .success b =>
        -- an empty block goes to the last branch of the source
        if b.blocks.all (fun blk => blk.bytes.isEmpty) then some (.done, [.acquired b])
        else some (.got b, [.acquired b])
      | .noData => some (.loop, [])
      | .overflowBuffer | .error => some (.done, [])
  | .got b =>
    match b.blocks with
    | [blk] =>
      if env.paused then some (.loop, [.released b])
      else if misaligned cfg.tsLen blk then some (.done, [])
      else if (procCipherEncrypt cfg env.cipher (Cur.of blk)).2 = false then some (.loop, [.released b])
      else if env.write = false then some (.done, [.released b])
      else some (.loop, [.released b])
    | _ => none
  | .data .. | .done => none

/-- `PVRRecSaveIndexAndStreamRoutine` with `PVR_ACQUIREDATAINDX`. -/
def saveDataIndex (cfg : Config) (env : Env) : Pc → Option (Pc × List Event)
  | .loop =>
    if env.stopped then some (.done, [])
    else
      match env.acquire with
      | .success b => some (.got b, [.acquired b])
      | .noData => some (.loop, [])
      | .overflowBuffer => if env.restart then some (.loop, []) else some (.done, [])
      | .error => some (.done, [])
  | .got b => if env.paused then some (.loop, [.released b]) else some (.data b b.blocks, [])
  | .data b [] => some (.loop, [.released b])
  | .data b (blk :: rest) =>
    if blk.bytes = [] ∨ misaligned 188 blk then some (.done, [.released b])
    else if (procCipherEncrypt cfg env.cipher (Cur.of blk)).2 = false then
      -- `continue` goes on with the loop over the blocks
      some (.data b rest, [.released b])
    else if env.write = false then some (.done, [.released b])
    else some (.data b rest, [])
  | .done => none

/-! ## The threads with the cache -/

/-- Where `PVRRecSaveToCache` is. -/
inductive CachePc
  | loop
  /-- Before `HI_UNF_DMX_AcquireRecData`. -/
  | acquire
  | got (b : Batch)
  /-- Before `PVR_Index_SaveToCache`, with `n` entries to go. -/
  | index (b : Batch) (n : Nat)
  | data (b : Batch) (rest : List Block)
  /-- Before `PVRRecProcCipherEncrypt`; `refused`: a push of this block failed. -/
  | encrypt (b : Batch) (c : Cur) (refused : Bool)
  /-- Before `PVRRecTsQueuePush`; `rest` are the blocks behind this one. -/
  | push (b : Batch) (c : Cur) (rest : List Block)
  | done

/-- The thread, and the queue it shares with the thread that writes the file. -/
structure CacheSys where
  pc : CachePc
  tsQueue : TsQueue.Sys

/-- `PVRRecSaveToCache` with data and index apart. -/
def saveToCache (cfg : Config) (a : Area) (env : Env) (s : CacheSys) : Option (CacheSys × List Event) :=
  match s.pc with
  | .loop =>
    if env.stopped then some ({ s with pc := .done }, [])
    else if env.index = false then some ({ s with pc := .done }, [])
    else some ({ s with pc := .acquire }, [])
  | .acquire =>
    match env.acquire with
    | .success b =>
      if b.blocks.all (fun blk => blk.bytes.isEmpty) then some ({ s with pc := .loop }, [.acquired b])
      else some ({ s with pc := .got b }, [.acquired b])
    | .noData | .overflowBuffer | .error => some ({ s with pc := .loop }, [])
  | .got b =>
    match b.blocks with
    | [blk] =>
      if env.paused then some ({ s with pc := .loop }, [.released b])
      else if misaligned cfg.tsLen blk then some ({ s with pc := .loop }, [.released b])
      else some ({ s with pc := .encrypt b (Cur.of blk) false }, [])
    | _ => none
  | .encrypt b c refused =>
    let (c, ok) := procCipherEncrypt cfg env.cipher c
    if ok = false then
      -- `ret` is still that of the last push
      some ({ s with pc := if refused then .loop else .acquire }, [.released b])
    else some ({ s with pc := .push b (procExtCallBack cfg env.split c) [] }, [])
  | .push b c _ =>
    let (q, ok) := s.tsQueue.queue.push a c.now
    if ok then some (⟨.acquire, { s.tsQueue with queue := q }⟩, [.pushed c, .released b])
    else some ({ s with pc := .encrypt b c true }, [])
  | .index .. | .data .. | .done => none

/-- `PVRRecSaveToCache` with `PVR_ACQUIREDATAINDX`. -/
def saveDataIndexToCache (cfg : Config) (a : Area) (env : Env) (s : CacheSys) : Option (CacheSys × List Event) :=
  match s.pc with
  | .loop =>
    if env.stopped then some ({ s with pc := .done }, [])
    else
      match env.acquire with
      | .success b => some ({ s with pc := .got b }, [.acquired b])
      | .noData => some (s, [])
      | .overflowBuffer => some ({ s with pc := if env.restart then .loop else .done }, [])
      | .error => some ({ s with pc := .done }, [])
  | .got b =>
    if env.paused then some ({ s with pc := .loop }, [.released b])
    else some ({ s with pc := .index b b.idxNum }, [])
  | .index b 0 => some ({ s with pc := .data b b.blocks }, [])
  | .index b (n + 1) => some (if env.index then { s with pc := .index b n } else s, [])
  | .data b [] => some ({ s with pc := if env.reachFix then .done else .loop }, [.released b])
  | .data b (blk :: rest) =>
    if blk.bytes = [] ∨ misaligned 188 blk then some ({ s with pc := .done }, [.released b])
    else
      let (c, ok) := procCipherEncrypt cfg env.cipher (Cur.of blk)
      if ok = false then some ({ s with pc := .data b rest }, [])
      else some ({ s with pc := .push b (procExtCallBack cfg env.split c) rest }, [])
  | .push b c rest =>
    let (q, ok) := s.tsQueue.queue.push a c.now
    if ok then some (⟨.data b rest, { s.tsQueue with queue := q }⟩, [.pushed c])
    else some (s, [])
  | .acquire | .encrypt .. | .done => none

/-- A step of the thread, or of the one that empties the queue. -/
inductive CacheInput
  | save (env : Env)
  | pollBuff
  | pollHead (dataLen : BitVec 32)

/-- The two threads; `dataIdx` is `PVR_ACQUIREDATAINDX`. -/
def cacheStep (cfg : Config) (a : Area) (queueBlock : BitVec 32) (dataIdx : Bool) (s : CacheSys) :
    CacheInput → Option (CacheSys × List Event)
  | .save env => if dataIdx then saveDataIndexToCache cfg a env s else saveToCache cfg a env s
  | .pollBuff => (TsQueue.step a queueBlock s.tsQueue .pollBuff).map fun r => ({ s with tsQueue := r.1 }, [])
  | .pollHead n => (TsQueue.step a queueBlock s.tsQueue (.pollHead n)).map fun r => ({ s with tsQueue := r.1 }, [])

def cacheInit (a : Area) : CacheSys := ⟨.loop, TsQueue.init a⟩

end HiSTB.Pvr.Save
