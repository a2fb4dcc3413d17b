import Mathlib.Logic.Basic
import Mathlib.Data.Nat.Notation

/-!
# `Pvr.RecTable` — which channel records a file (`hi_pvr_rec_ctrl.c`)

Playback asks by the name of a file whether it is being recorded, and by which channel. Both questions scan the table of
the record channels, and so does the check of a new recording, which rejects a name that another one has.

* `strncmp` — the comparison of C strings, equal or not;
* `checkFileRecording`, `getChnAttrByName` — the two questions;
* `checkUserCfg` — the part about the names.

A name is the memory from its start on; the string ends at the first 0, or with the memory.
-/

namespace HiSTB.Pvr.RecTable

abbrev Byte := BitVec 8

/-- `HI_UNF_PVR_REC_STATE_E`. -/
inductive State
  | invalid
  | init
  | running
  | pause
  | stopping
  | stop
  deriving DecidableEq

/-- The fields of `PVR_REC_CHN_S` that are looked at. -/
structure Chn where
  chnId : Nat
  enState : State
  szFileName : List Byte
  deriving DecidableEq

/-- `strncmp` is 0. -/
def strncmp : Nat → List Byte → List Byte → Bool
  | 0, _, _ => true
  | n + 1, s, t => decide (s.headD 0 = t.headD 0) && (decide (t.headD 0 = 0) || strncmp n s.tail t.tail)

/-- `strlen`. -/
def strlen : List Byte → Nat
  | [] => 0
  | c :: cs => if c = 0 then 0 else strlen cs + 1

/-- A channel records. -/
def Chn.live (c : Chn) : Bool := decide (c.enState = .running ∨ c.enState = .pause)

/-- `PVRRecGetChnAttrByName`; `none` for NULL. -/
def getChnAttrByName (pFileName : Option (List Byte)) : List Chn → Option Chn
  | [] => none
  | c :: cs =>
    match pFileName with
    | none => none
    | some name =>
      if strncmp (strlen name) c.szFileName name then
        if c.live then some c
        else none
      else getChnAttrByName pFileName cs

/-- `PVRRecCheckFileRecording`. -/
def checkFileRecording (pFileName : Option (List Byte)) : List Chn → Bool
  | [] => false
  | c :: cs =>
    match pFileName with
    | none => false
    | some name =>
      if strncmp (strlen name) c.szFileName name then c.live
      else checkFileRecording pFileName cs

end HiSTB.Pvr.RecTable
