import HiSTB.Lib.Run
import Mathlib.Logic.Function.Basic

/-!
# `Frc.Instance` — the frame rate conversion (`libfrc/frc.cpp`)

A converter takes a frame and says how often it is to be played, so that frames that come at `InRate` leave at
`OutRate`. There are `FRC_MAX_NUM` of them, each found by its handle. `g_Frc[Id].Frc` is the slot `Id` of the table: it
is `HI_NULL` or points to `g_FrcCtx[Id]`. The calls for a handle hold the mutex of its slot; `FrcCreate` lets go of it
once, between taking the slot and filling it in, when nobody has its handle yet. A call is one step here.

`FRC_INST_LOCK_CHECK` lets the identifier `FRC_MAX_NUM` pass, which is behind the table; such a call has no step.
-/

namespace HiSTB.Frc

/-- `HI_U32` and `HI_HANDLE`. -/
abbrev U32 := BitVec 32

/-- `FRC_S`. -/
structure FrcS where
  hFrc : U32
  /-- The current insert or drop position in a cycle. -/
  curID : U32
  /-- The input counter. -/
  inputCount : U32

/-- `FRC_MAX_NUM`. -/
def frcMaxNum : Nat := 16

/-- `GET_FRC_HANDLE`, with `HI_ID_FRC`. -/
def getFrcHandle (id : U32) : U32 := 0xC0 <<< 16 ||| id

/-- `GET_FRC_ID`. -/
def getFrcId (handle : U32) : U32 := handle &&& 0xff

/-- `g_Frc`. -/
abbrev Table := Nat → Option FrcS

inductive Call
  /-- `FrcCreate`; whether it has a place for the handle. -/
  | create (phFrc : Bool)
  | destroy (hFrc : U32)
  | reset (hFrc : U32)
  | calculate (hFrc inRate outRate : U32)
  deriving DecidableEq

/-- What a call returns. -/
inductive Event
  | created (hFrc : U32)
  | destroyed (hFrc : U32)
  | reset (hFrc : U32)
  /-- `FrcCalculate`, with `NeedPlayCnt`. -/
  | played (hFrc needPlayCnt : U32)
  /-- `HI_FAILURE`. -/
  | failed
  deriving DecidableEq

/-! ## A converter -/

/-- The number that follows in a cycle of `remder` ones. -/
def nextID (curID remder : U32) : U32 :=
  let curID := curID + 1
  if curID % remder = 0 then remder else curID % remder

/-- This frame is the one to insert or to drop: `tmp == remder_cyc`, in 64 bits. -/
def FrcS.isTurn (f : FrcS) (inRate remder : U32) : Bool :=
  let remderCyc : BitVec 64 := (f.inputCount % inRate + 1).setWidth 64
  let tmp : BitVec 64 := (inRate.setWidth 64 * f.curID.setWidth 64 + (remder / 2).setWidth 64) / remder.setWidth 64
  tmp = remderCyc

/-- `flag`, and the converter behind it. -/
def FrcS.turn (f : FrcS) (inRate remder : U32) : Bool × FrcS :=
  if remder = 0 then (false, f)
  else if f.isTurn inRate remder then (true, { f with curID := nextID f.curID remder })
  else (false, f)

/-- `FrcCalculate`, with the converter at hand. -/
def FrcS.calculate (f : FrcS) (inRate outRate : U32) : FrcS × U32 :=
  let (f, frmState) : FrcS × U32 :=
    if inRate < outRate then
      let quot := outRate / inRate
      let r := f.turn inRate (outRate % inRate)
      (r.2, if r.1 then quot else quot - 1)
    else if inRate > outRate then
      let r := f.turn inRate (inRate - outRate)
      (r.2, if r.1 then -1 else 0)
    else (f, 0)
  ({ f with inputCount := f.inputCount + 1 }, frmState + 1)

/-! ## The calls -/

/-- `FRC_INST_LOCK_CHECK`: `some none` where the call fails. -/
def instLockCheck (t : Table) (handle : U32) : Option (Option FrcS) :=
  let id := (getFrcId handle).toNat
  if id > frcMaxNum then some none
  else if id = frcMaxNum then none
  else
    match t id with
    | none => some none
    | some f => if handle ≠ f.hFrc then some none else some (some f)

/-- `FrcCreate`. -/
def create (t : Table) (phFrc : Bool) : Table × List Event :=
  if phFrc then
    match (List.range frcMaxNum).find? (fun id => (t id).isNone) with
    | none => (t, [.failed])
    | some id =>
      let hFrc := getFrcHandle (BitVec.ofNat 32 id)
      (Function.update t id (some ⟨hFrc, 1, 0⟩), [.created hFrc])
  else (t, [.failed])

/-- What a call does with its converter, where it has one. -/
def withInst (t : Table) (handle : U32) (body : FrcS → Table × List Event) : Option (Table × List Event) :=
  (instLockCheck t handle).map (fun f =>
    match f with
    | none => (t, [.failed])
    | some f => body f)

/-- One call. -/
def step (t : Table) : Call → Option (Table × List Event)
  | .create phFrc => some (create t phFrc)
  | .destroy h => withInst t h (fun _ => (Function.update t (getFrcId h).toNat none, [.destroyed h]))
  | .reset h => withInst t h (fun f =>
      (Function.update t (getFrcId h).toNat (some { f with curID := 1, inputCount := 0 }), [.reset h]))
  | .calculate h inRate outRate =>
    if inRate = 0 ∨ outRate = 0 then some (t, [.failed])
    else withInst t h (fun f =>
      let r := f.calculate inRate outRate
      (Function.update t (getFrcId h).toNat (some r.1), [.played h r.2]))

end HiSTB.Frc
