import HiSTB.Demux.RecIndex

/-!
# `Demux.RecIndexV1` — recorded data with its index (`drv_demux_func.c`, with `DMX_DATAINDEX_V1_SUPPORT`)

Here a call of `DMX_DRV_REC_AcquireRecDataIndex` takes as many entries as there are and hands out the data up to the
end of the last frame, in one or two ranges of the record buffer, and rounds the length up to the alignment. The next
call goes on from there, so that the next frame starts a little before the data of the call does.

As in `Demux.RecIndex` a call waits for what the index says. A round of the loop asks while the record queue is not
empty, the number of rounds is below the limit and there is room for an entry; else the loop is left.

Left out: `u32ProcsBlk`, the timeout with which the index is asked, and recordings without an index.
-/

namespace HiSTB.Demux.RecIndexV1

open Lib
open RecIndex (Index)

/-- The record buffer and the constants; `allignLen` is 752, or 768 with time stamps, and `maxIdx` is
    `DMX_MAX_IDX_ACQUIRED_EACH_TIME`. -/
structure Fq where
  bufPhyAddr : Nat
  bufVirAddr : Nat
  bufSize : Nat
  allignLen : Nat
  maxIdx : Nat
  bufSize_pos : 0 < bufSize
  allignLen_pos : 0 < allignLen
  /-- The blocks of a recording are a multiple of the alignment. -/
  alligned : allignLen ∣ bufSize
  /-- Where the memory is: no sum of an address of the buffer, the size of a frame and the alignment is too long for
      a `HI_U32`. -/
  placed : bufPhyAddr + 2 * bufSize + allignLen ≤ 0x100000000

def Fq.bufEnd (q : Fq) : Nat := q.bufPhyAddr + q.bufSize

/-- `HI_UNF_DMX_REC_DATA_S`; `dataAddr` is the virtual address. -/
structure RecData where
  dataPhyAddr : Nat
  dataAddr : Nat
  len : Nat
  deriving DecidableEq

/-- What a call has so far. `index` is `stIndex`, and `pos` the place in it that `RecIndex` points to; `second` where
    `RecData` points to the second range. -/
structure Call where
  index : List Index
  pos : Nat
  idxNum : Nat
  recDataCnt : Nat
  data0 : RecData
  data1 : RecData
  second : Bool
  idxPointAddr : Nat
  count : Nat
  deriving DecidableEq

/-- `HI_UNF_DMX_REC_DATA_INDEX_S`. -/
structure DataIndex where
  recData : List RecData
  index : List Index
  deriving DecidableEq

inductive Ret
  | data (d : DataIndex)
  | noAvailableData
  | recBufNotMatch
  deriving DecidableEq

namespace Call

variable (q : Fq)

/-- The range `RecData` points to. -/
def cur (c : Call) : RecData := if c.second then c.data1 else c.data0

def setCur (c : Call) (d : RecData) : Call := if c.second then { c with data1 := d } else { c with data0 := d }

/-- The beginning of a call. -/
def begin (q : Fq) (readAddr : Nat) : Call :=
  ⟨List.replicate q.maxIdx ⟨0, 0⟩, 0, 0, 0, ⟨readAddr, q.bufVirAddr + (readAddr - q.bufPhyAddr), 0⟩, ⟨0, 0, 0⟩, false,
    readAddr, 0⟩

/-- Behind `DATA_OVER_BUFFER`; `none` where the call returns `HI_ERR_DMX_REC_BUFNOTMATCH`. -/
def dataOverBuffer (c : Call) : Option Call :=
  if c.recDataCnt < 2 then
    let c := { c.setCur { c.cur with len := q.bufEnd - c.cur.dataPhyAddr } with recDataCnt := 2 }
    some { c with
      second := true, data1 := ⟨q.bufPhyAddr, q.bufVirAddr, 0⟩,
      idxPointAddr := if c.idxPointAddr > q.bufEnd then c.idxPointAddr - q.bufSize else c.idxPointAddr }
  else none

/-- A round with an entry of the index; `none` where the call returns. -/
def entry (c : Call) (x : Index) : Option Call :=
  let c := { c with index := c.index.set c.pos x, count := c.count + 1 }
  if x.frameSize ≥ q.bufSize then some c
  else
    let c := { c with
      idxNum := c.idxNum + 1, recDataCnt := if c.recDataCnt = 0 then 1 else c.recDataCnt,
      idxPointAddr := q.bufPhyAddr + (x.globalOffset % q.bufSize + x.frameSize) }
    if c.idxPointAddr < c.cur.dataPhyAddr then
      if c.idxPointAddr + q.allignLen < c.cur.dataPhyAddr then
        (c.dataOverBuffer q).map (fun c => { c with pos := c.pos + 1 })
      -- the next entry takes the same place
      else some c
    else if c.idxPointAddr > q.bufEnd then
      if c.cur.dataPhyAddr = q.bufEnd then
        -- the virtual address stays
        some { c.setCur { c.cur with dataPhyAddr := q.bufPhyAddr } with
          idxPointAddr := c.idxPointAddr - q.bufSize, pos := c.pos + 1 }
      else (c.dataOverBuffer q).map (fun c => { c with pos := c.pos + 1 })
    else some { c with pos := c.pos + 1 }

/-- Behind the loop: where the next call goes on, if this one hands out data, and what it returns. -/
def finish (c : Call) : Option Nat × Ret :=
  if c.idxNum > 0 then
    let len := (c.idxPointAddr + 0x100000000 - c.cur.dataPhyAddr) % 0x100000000
    let endToAdd := q.allignLen - len % q.allignLen
    let c := c.setCur { c.cur with len := (len + endToAdd) % 0x100000000 }
    let idxPointAddr := c.idxPointAddr + endToAdd
    if idxPointAddr > q.bufEnd then (none, .noAvailableData)
    else (some idxPointAddr, .data ⟨[c.data0, c.data1].take c.recDataCnt, c.index.take c.idxNum⟩)
  else (none, .noAvailableData)

/-- The loop asks for an entry. -/
def Asks (c : Call) : Prop := c.count + 1 < 1000 ∧ c.idxNum < q.maxIdx
deriving Decidable

end Call

/-- The recording, and the call in progress. -/
structure Sys where
  recBufReadPhyAddr : Nat
  call : Option Call
  deriving DecidableEq

inductive Input
  | acquire
  | index (x : Index)
  /-- The record queue is empty, or the index is. -/
  | noIndex
  /-- The loop is left without a question. -/
  | leave
  deriving DecidableEq

/-- The call returns. -/
def return' (q : Fq) (s : Sys) (c : Call) : Sys × List Ret :=
  (⟨(c.finish q).1.getD s.recBufReadPhyAddr, none⟩, [(c.finish q).2])

/-- The beginning of a call, a round of its loop, or its end. -/
def step (q : Fq) (s : Sys) (i : Input) : Option (Sys × List Ret) :=
  match s.call, i with
  | none, .acquire => some ({ s with call := some (Call.begin q s.recBufReadPhyAddr) }, [])
  | some c, .index x =>
    if c.Asks q then
      match c.entry q x with
      | some c' => some ({ s with call := some c' }, [])
      | none => some ({ s with call := none }, [.recBufNotMatch])
    else none
  | some c, .noIndex => if c.Asks q then some (return' q s c) else none
  | some c, .leave => if c.Asks q then none else some (return' q s c)
  | _, _ => none

/-- A recording that was started. -/
def opened (q : Fq) : Sys := ⟨q.bufPhyAddr, none⟩

end HiSTB.Demux.RecIndexV1
