import HiSTB.Lib.Loop
import HiSTB.Lib.Run
import Mathlib.Logic.Function.Basic

/-!
# `Demux.Filters` — filters and the channels they are attached to (`drv_demux_func.c`)

A filter is attached to at most one channel. Its `ChanId` says to which, and the channel counts its filters in
`FilterCount`. The calls are sequential here; every lock is obtained.

With `DMX_REGION_SUPPORT` the filters and the channels are divided into regions, and a channel takes filters of its
own region only.

Left out: the hardware registers, the match bytes and the other attributes of a filter, the buffers of a channel
(whether they could be allocated is an input), and what `DMX_OsiSuspend` and `DMX_OsiResume` do to ports, keys and
recordings.
-/

namespace HiSTB.Demux.Filters

open Lib

inductive ChanType
  | sec
  | ecmEmm
  | pes
  | aud
  | vid
  | post
  deriving DecidableEq

/-- `DMX_GET_REGION_ID`; `none` is `DMX_INVALID_DEMUX_ID`, which is neither 0 nor 4. -/
def regionId : Option Nat → Nat
  | some 0 => 0
  | some 4 => 2
  | _ => 1

/-- The constants. -/
structure Config where
  channelCnt : Nat
  filterCnt : Nat
  maxFilterNumPerChannel : BitVec 32
  regionSupport : Bool
  regionFilterCount : Nat
  regionChannelCount : Nat
  /-- The loops over the filters count with a `HI_U32`. -/
  filterCnt_lt : filterCnt < 0x100000000

/-- `DMX_FilterInfo_S`: `used` where `FilterId` is valid; `none` is `DMX_INVALID_CHAN_ID`. Only the build with
    regions reads `dmxId`. -/
structure FilterInfo where
  used : Bool
  chanId : Option Nat
  dmxId : Nat
  deriving DecidableEq

/-- `DMX_ChanInfo_S`: `none` is `DMX_INVALID_DEMUX_ID`, `named` where `ChanId` is valid. -/
structure ChanInfo where
  dmxId : Option Nat
  named : Bool
  chanType : ChanType
  filterCount : BitVec 32
  deriving DecidableEq

/-- `DMX_DEV_OSI_S`; `dmxFilterCount` is a field of `SubDevInfo`. -/
structure Dev where
  filter : Nat → FilterInfo
  chan : Nat → ChanInfo
  dmxFilterCount : Nat → BitVec 32

inductive Ret
  | success
  | failure
  | invalidPara
  | noFreeFilter
  | noFreeChan
  | allocMemFailed
  | attachedFilter
  | noAttachFilter
  | unmatchFilter
  | notSupport
  | notInit
  deriving DecidableEq

/-- How the creation of a channel goes on once a channel is found. -/
inductive Creation
  | ok
  /-- No AV channel or no free queue is left. -/
  | noFree
  | noMem
  deriving DecidableEq

/-- How far `DMX_OsiResume` comes. -/
inductive Resume
  /-- The device is not active. -/
  | inactive
  | resetFails
  /-- `DMX_OsiOpenChannel` fails for some channel. -/
  | openFails
  | ok
  deriving DecidableEq

namespace Dev

variable (cfg : Config)

def setFilter (s : Dev) (f : Nat) (i : FilterInfo) : Dev := { s with filter := Function.update s.filter f i }

def setChan (s : Dev) (c : Nat) (i : ChanInfo) : Dev := { s with chan := Function.update s.chan c i }

def addFilterCount (s : Dev) (d : Nat) (k : BitVec 32) : Dev :=
  if cfg.regionSupport then { s with dmxFilterCount := Function.update s.dmxFilterCount d (s.dmxFilterCount d + k) }
  else s

/-- `RegionBegin` and the number of filters from there on. -/
def filterRegion (d : Option Nat) : Nat × Nat :=
  if cfg.regionSupport then (regionId d * cfg.regionFilterCount, cfg.regionFilterCount) else (0, cfg.filterCnt)

def channelRegion (d : Option Nat) : Nat × Nat :=
  if cfg.regionSupport then (regionId d * cfg.regionChannelCount, cfg.regionChannelCount)
  else (0, cfg.channelCnt)

/-- `DMX_OsiNewFilter`. -/
def newFilter (s : Dev) (d : Nat) : Dev × Ret :=
  if cfg.regionSupport ∧ (s.dmxFilterCount d).toNat ≥ cfg.regionFilterCount then (s, .noFreeFilter)
  else
    let r := filterRegion cfg (some d)
    match (List.range' r.1 r.2).find? (fun i => !(s.filter i).used) with
    | none => (s, .noFreeFilter)
    | some i => ((s.setFilter i ⟨true, none, d⟩).addFilterCount cfg d 1, .success)

/-- `DMX_OsiDeleteFilter`. -/
def deleteFilter (s : Dev) (f : Nat) : Dev × Ret :=
  let i := s.filter f
  if i.used then
    let t := (s.addFilterCount cfg i.dmxId (-1)).setFilter f { i with used := false, chanId := none }
    match i.chanId with
    | some c => (t.setChan c { t.chan c with filterCount := (t.chan c).filterCount - 1 }, .success)
    | none => (t, .success)
  else (s, .invalidPara)

/-- `DMX_OsiAttachFilter`. -/
def attachFilter (s : Dev) (f c : Nat) : Dev × Ret :=
  let chan := s.chan c
  let filter := s.filter f
  if chan.named = false ∨ filter.used = false then (s, .invalidPara)
  else if filter.chanId ≠ none then (s, .attachedFilter)
  else if chan.chanType ≠ .sec ∧ chan.chanType ≠ .ecmEmm ∧ chan.chanType ≠ .pes then (s, .notSupport)
  else if chan.filterCount ≥ cfg.maxFilterNumPerChannel then (s, .notSupport)
  else if cfg.regionSupport ∧ regionId chan.dmxId ≠ regionId (some filter.dmxId) then (s, .invalidPara)
  else
    ((s.setChan c { chan with filterCount := chan.filterCount + 1 }).setFilter f { filter with chanId := some c },
      .success)

/-- `DMX_OsiDetachFilter`. -/
def detachFilter (s : Dev) (f c : Nat) : Dev × Ret :=
  let filter := s.filter f
  if filter.used = false then (s, .invalidPara)
  else
    match filter.chanId with
    | none => (s, .noAttachFilter)
    | some c' =>
      if c = c' then
        let chan := s.chan c
        ((s.setFilter f { filter with chanId := none }).setChan c { chan with filterCount := chan.filterCount - 1 },
          .success)
      else (s, .unmatchFilter)

/-- `DMX_OsiCreateChannel`, once its arguments are checked. A channel whose creation fails keeps its `ChanId`. -/
def createChannel (s : Dev) (d : Nat) (chanType : ChanType) (how : Creation) : Dev × Ret :=
  let r := channelRegion cfg (some d)
  match (List.range' r.1 r.2).find? (fun i => (s.chan i).dmxId = none) with
  | none => (s, .noFreeChan)
  | some i =>
    match how with
    | .ok => (s.setChan i ⟨some d, true, chanType, 0⟩, .success)
    | .noFree => (s.setChan i ⟨none, true, chanType, 0⟩, .noFreeChan)
    | .noMem => (s.setChan i ⟨none, true, chanType, 0⟩, .allocMemFailed)

/-- The loop of `DMX_OsiDestroyChannel` over the filters of its region. -/
def detachAll (s : Dev) (d : Option Nat) (c : Nat) : Dev :=
  let r := filterRegion cfg d
  forRange r.2 (fun s i =>
    let f := r.1 + i
    if (s.filter f).chanId = some c then s.setFilter f { s.filter f with chanId := none } else s) s

/-- `DMX_OsiDestroyChannel`; `closes` where the channel is closed or can be. -/
def destroyChannel (s : Dev) (c : Nat) (closes : Bool) : Dev × Ret :=
  let d := (s.chan c).dmxId
  if d = none then (s, .invalidPara)
  else if closes = false then (s, .failure)
  else
    let s :=
      if (s.chan c).filterCount ≠ 0 then
        let t := s.detachAll cfg d c
        t.setChan c { t.chan c with filterCount := 0 }
      else s
    (s.setChan c { s.chan c with dmxId := none, named := false }, .success)

/-- One round of the loop of `DMX_OsiResume` over the filters. -/
def resumeFilter (s : Dev) (i : Nat) : Dev :=
  if (s.filter i).used then
    match (s.filter i).chanId with
    | some c => ((s.setFilter i { s.filter i with chanId := none }).attachFilter cfg i c).1
    | none => s
  else s

/-- `DMX_OsiResume`. -/
def resume (s : Dev) : Resume → Dev × Ret
  | .inactive => (s, .success)
  | .resetFails | .openFails => (s, .failure)
  | .ok => (forRange cfg.filterCnt (resumeFilter cfg) s, .success)

end Dev

inductive Input
  | newFilter (dmxId : Nat)
  | deleteFilter (filterId : Nat)
  | attachFilter (filterId chanId : Nat)
  | detachFilter (filterId chanId : Nat)
  | createChannel (dmxId : Nat) (chanType : ChanType) (how : Creation)
  | destroyChannel (chanId : Nat) (closes : Bool)
  | suspend
  | resume (how : Resume)
  deriving DecidableEq

/-- One call. An id is an index of its array; `DMX_OsiSuspend` does nothing to filters and channels that counts
    here. -/
def step (cfg : Config) (s : Dev) : Input → Option (Dev × List Ret)
  | .newFilter d => some ((s.newFilter cfg d).1, [(s.newFilter cfg d).2])
  | .deleteFilter f => if f < cfg.filterCnt then some ((s.deleteFilter cfg f).1, [(s.deleteFilter cfg f).2]) else none
  | .attachFilter f c =>
    if f < cfg.filterCnt ∧ c < cfg.channelCnt then some ((s.attachFilter cfg f c).1, [(s.attachFilter cfg f c).2])
    else none
  | .detachFilter f c =>
    if f < cfg.filterCnt ∧ c < cfg.channelCnt then some ((s.detachFilter f c).1, [(s.detachFilter f c).2]) else none
  | .createChannel d ty how => some ((s.createChannel cfg d ty how).1, [(s.createChannel cfg d ty how).2])
  | .destroyChannel c closes =>
    if c < cfg.channelCnt then some ((s.destroyChannel cfg c closes).1, [(s.destroyChannel cfg c closes).2]) else none
  | .suspend => some (s, [.success])
  | .resume how => some ((s.resume cfg how).1, [(s.resume cfg how).2])

/-- `DMX_OsiInit`: no filter is used and no channel is there. -/
def init : Dev := ⟨fun _ => ⟨false, none, 0⟩, fun _ => ⟨none, false, .sec, 0⟩, fun _ => 0⟩

end HiSTB.Demux.Filters
