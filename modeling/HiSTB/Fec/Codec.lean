import HiSTB.Fec.Matrix

/-!
# `Fec.Codec` — the `RS_fec` erasure codec and its `fec_*_adp` adapters

`fec_init` builds the generator matrix `en_GM = V_left · V_right⁻¹` from two Vandermonde matrices,
`fec_encode` multiplies the data packets by it, and `fec_decode` collects the generator rows of the first
`data_pkt_num` packets received, inverts them, and rebuilds the lost data packets.

Blocks that the source fills completely before reading them are given by their contents. `recv_data` is
filled only as far as packets were received, so its uninitialised contents are an argument (`heap`).
-/

namespace HiSTB.Fec

open Lib

/-- `RS_fec`. -/
structure RSFec where
  dataPktNum : Nat
  fecPktNum : Nat
  dataLen : Nat
  enLeft : Rows
  enRight : Rows
  enGM : Rows

/-- `RS_fec::fec_init`; `none` when the inversion ends the process. -/
def fecInit (dataPktNum fecPktNum dataLen : Nat) : Option RSFec := do
  let enLeft : Rows := fun i j => table.mExp ((dataPktNum + i) * j % Q)
  let enRight ← matrixInvGF256 (fun i j => table.mExp (i * j % Q)) dataPktNum
  let enGM := matrixMulGF256 enLeft enRight (fun _ _ => 0) fecPktNum dataPktNum dataPktNum
  some { dataPktNum, fecPktNum, dataLen, enLeft, enRight, enGM }

/-- `RS_fec::fec_encode`: the new contents of `fec_data`. -/
def fecEncode (p : RSFec) (data fecData : Rows) : Rows :=
  matrixMulGF256 p.enGM data fecData p.fecPktNum p.dataPktNum p.dataLen

/-! ## `fec_decode` -/

/-- `memcpy(dst, src, n)`. -/
def memcpy (dst src : Nat → BYTE) (n : Nat) : Nat → BYTE := fun r => if r < n then src r else dst r

/-- `memset(dst, 0, n)`. -/
def memzero (dst : Nat → BYTE) (n : Nat) : Nat → BYTE := fun r => if r < n then 0 else dst r

/-- Variables of the two loops that collect the generator rows. -/
structure SubGM where
  deSubGM : Rows
  recvCount : Nat
  lostPktId : Nat → Nat
  lostPktCnt : Nat

/-- A data packet contributes a unit row, or is noted as lost. -/
def dataPktRow (lostMap : Nat → Int) (t : SubGM) (i : Nat) : SubGM :=
  if lostMap i = 1 then
    { t with deSubGM := setCell t.deSubGM t.recvCount i 1, recvCount := t.recvCount + 1 }
  else
    { t with lostPktId := Function.update t.lostPktId t.lostPktCnt i, lostPktCnt := t.lostPktCnt + 1 }

/-- A parity packet contributes its row of `en_GM` until `K` rows are there. -/
def fecPktRow (p : RSFec) (lostMap : Nat → Int) (t : SubGM) (i : Nat) : ForInStep SubGM :=
  if lostMap i = 1 then
    if t.recvCount < p.dataPktNum then
      .yield
        { t with
          deSubGM := forRange p.dataPktNum
            (fun m j => setCell m t.recvCount j (p.enGM (i - p.dataPktNum) j)) t.deSubGM
          recvCount := t.recvCount + 1 }
    else .done t
  else .yield t

/-- The loop over the data packets. -/
def dataPktRows (p : RSFec) (lostMap : Nat → Int) : SubGM :=
  forRange p.dataPktNum (dataPktRow lostMap)
    { deSubGM := fun _ _ => 0, recvCount := 0, lostPktId := fun _ => 0, lostPktCnt := 0 }

/-- Both row loops. -/
def subGM (p : RSFec) (lostMap : Nat → Int) : SubGM :=
  forBreak p.dataPktNum p.fecPktNum (fecPktRow p lostMap) (dataPktRows p lostMap)

/-- Variables of the loop that gathers the received packets. -/
structure RecvData where
  recvData : Rows
  tmpCount : Nat

/-- Copy packet `i` if it was received. -/
def copyPkt (p : RSFec) (data fecData : Rows) (lostMap : Nat → Int) (t : RecvData) (i : Nat) :
    RecvData :=
  if lostMap i ≠ 0 then
    let src := if i < p.dataPktNum then data i else fecData (i - p.dataPktNum)
    { recvData := Function.update t.recvData t.tmpCount (memcpy (t.recvData t.tmpCount) src p.dataLen)
      tmpCount := t.tmpCount + 1 }
  else t

/-- Body of the gathering loop: stop after `K` packets. -/
def recvPkt (p : RSFec) (data fecData : Rows) (lostMap : Nat → Int) (t : RecvData) (i : Nat) :
    ForInStep RecvData :=
  let t := copyPkt p data fecData lostMap t i
  if t.tmpCount = p.dataPktNum then .done t else .yield t

/-- The gathering loop. -/
def recvPkts (p : RSFec) (heap data fecData : Rows) (lostMap : Nat → Int) : RecvData :=
  forBreak 0 (p.dataPktNum + p.fecPktNum) (recvPkt p data fecData lostMap)
    { recvData := heap, tmpCount := 0 }

/-- Rebuild one lost packet: clear it, then accumulate its row of the inverse times the packets. -/
def rebuildPkt (p : RSFec) (inv recvData : Rows) (data : Rows) (cur : Nat) : Rows :=
  mulRow inv recvData p.dataPktNum p.dataLen
    (Function.update data cur (memzero (data cur) p.dataLen)) cur

/-- `RS_fec::fec_decode`: the new contents of `data`; `none` when the inversion ends the process. -/
def fecDecode (p : RSFec) (heap data fecData : Rows) (lostMap : Nat → Int) : Option Rows := do
  let t := subGM p lostMap
  let inv ← matrixInvGF256 t.deSubGM p.dataPktNum
  let recv := (recvPkts p heap data fecData lostMap).recvData
  some (forRange t.lostPktCnt (fun data i => rebuildPkt p inv recv data (t.lostPktId i)) data)

end HiSTB.Fec
