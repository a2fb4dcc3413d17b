import HiSTB.Lib.Reading

/-!
# `Demux.SecLength` — the reads of `GetSectionLength` (`drv_demux_func.c`)

`GetSectionLength` is given a block that the hardware wrote, and an offset in it. `DMXCheckBuffer` goes from section to
section to the end of the block; then the length of the first one is read once more. Both read the two bytes of the
length through addresses, so the program is one that reads the memory, and what it reads can be told.

All numbers are `HI_U32`. `DMX_MAX_SEC_LEN` is not in the repository and is a parameter.
-/

namespace HiSTB.Demux.SecLength

open Lib

abbrev U32 := BitVec 32
abbrev Byte := BitVec 8

/-- A program that reads bytes of the memory. -/
abbrev Mem := Reading U32 Byte

/-- The length of a section from the two bytes that hold it, with the 3 bytes up to there. -/
def secLenOf (hi lo : Byte) : U32 :=
  (3#32) + ((hi.setWidth 32 &&& 0xF) <<< (8 : Nat)) + lo.setWidth 32

theorem toNat_secLenOf (hi lo : Byte) : (secLenOf hi lo).toNat = 3 + hi.toNat % 16 * 256 + lo.toNat := by
  have hand : hi.toNat &&& 15 = hi.toNat % 16 := Nat.and_two_pow_sub_one_eq_mod hi.toNat 4
  have hhi : hi.toNat < 256 := hi.isLt
  have hlo : lo.toNat < 256 := lo.isLt
  have hset : hi.toNat % 2 ^ 32 = hi.toNat := Nat.mod_eq_of_lt (by omega)
  simp only [secLenOf, BitVec.toNat_add, BitVec.toNat_shiftLeft, BitVec.toNat_and, BitVec.toNat_setWidth,
    BitVec.reduceToNat, Nat.shiftLeft_eq, hset]
  rw [hand]
  omega

/-- The loop of `DMXCheckBuffer`; `remain` is `u32BufLenTmp`. -/
def checkLoop (maxSecLen start len remain offset : U32) : Mem Bool :=
  if remain > 3 then
    if len < offset then pure false
    else do
      let hi ← Reading.get (start + offset + 1)
      let lo ← Reading.get (start + offset + 2)
      if _hfit : secLenOf hi lo > remain ∨ secLenOf hi lo > maxSecLen then pure false
      else checkLoop maxSecLen start len (remain - secLenOf hi lo) (offset + secLenOf hi lo)
  else pure true
termination_by remain.toNat
decreasing_by
  have hle : (secLenOf hi lo).toNat ≤ remain.toNat := Nat.le_of_not_lt (not_or.mp _hfit).1
  have hlen := toNat_secLenOf hi lo
  rw [BitVec.toNat_sub_of_le hle]
  omega

/-- `DMXCheckBuffer`. -/
def dmxCheckBuffer (maxSecLen start len offset : U32) : Mem Bool :=
  checkLoop maxSecLen start len (len - offset) offset

/-- `GetSectionLength`; 0 is its error. -/
def getSectionLength (maxSecLen start len offset : U32) : Mem U32 :=
  if start = 0 then pure 0
  else if len = 0 then pure 0
  else if offset ≥ len then pure 0
  else do
    let ok ← dmxCheckBuffer maxSecLen start len offset
    if !ok then pure 0
    else if len ≥ 3 then
      if start + offset ≥ start + len then pure 0
      else do
        let hi ← Reading.get (start + offset + 1)
        let lo ← Reading.get (start + offset + 2)
        if len - offset < secLenOf hi lo then pure 0 else pure (secLenOf hi lo)
    else pure 0

end HiSTB.Demux.SecLength
