import HiSTB.Pvr.Play
import HiSTB.Pvr.Correctness.TsQueue
import HiSTB.Lib.Piece

/-!
# `Pvr.Correctness.PlayRead` — what playback reads in timeshift

The stream is a function of the global offset. The record queue holds it between the global offsets of its head and its
tail (`Queued`), the file holds what lies before (`Holds`). A read begins at `r`; it lies in the file, in the queue, or
in both, and in the queue it can go over the end.

`PVRPlayReadData` finds the place in the queue by an address modulo the address of the end. That is the right one when
the memory lies at an address that is not below its size (`Low`), so that what is left of an address behind the end is
below the start.
-/

namespace HiSTB.Pvr.Play

open Lib
open TsQueue (Area Queue Byte bytesAt)

variable {c : Consts} {a : Area} {q : Queue} {call : Call} {stream : Nat → Byte} {r k upTo : Nat}
  {offset globalOffset : BitVec 64} {bytesSend cipherHead headToAdd addr len : BitVec 32}

/-- The queue holds the stream between its global offsets. -/
structure Queued (a : Area) (q : Queue) (stream : Nat → Byte) : Prop where
  le : q.headGolbalOffset.toNat ≤ q.tailGolbalOffset.toNat
  used : q.tailGolbalOffset.toNat - q.headGolbalOffset.toNat ≤ a.size.toNat
  head : q.head.toNat = a.recData.toNat + q.headGolbalOffset.toNat % a.size.toNat
  cells : Cells q.mem a.size.toNat stream q.headGolbalOffset.toNat q.tailGolbalOffset.toNat

/-- The memory of the queue lies where an address modulo the address of its end is understood. -/
structure Low (a : Area) : Prop where
  size_le : a.size.toNat ≤ a.recData.toNat
  room : a.recData.toNat + 2 * a.size.toNat < 0x100000000

/-- A read of the file at `offset` gets the stream from `r` on, as far as `upTo`. Behind that it may be short, and its
    bytes are others. -/
def Holds (pread : BitVec 32 → BitVec 64 → Option (List Byte)) (offset : BitVec 64) (stream : Nat → Byte)
    (r upTo : Nat) : Prop :=
  ∀ len, ∃ rest, pread len offset = some (piece stream r (min len.toNat (upTo - r)) ++ rest) ∧
    min len.toNat (upTo - r) + rest.length ≤ len.toNat

theorem Holds.inside (h : Holds call.pread offset stream r upTo) (hle : r + len.toNat ≤ upTo) :
    preadResult (call.pread len offset) = (len, piece stream r len.toNat) := by
  obtain ⟨rest, hread, hlen⟩ := h len
  have hmin : min len.toNat (upTo - r) = len.toNat := by omega
  rw [hmin] at hread hlen
  have hrest : rest = [] := List.eq_nil_of_length_eq_zero (by omega)
  rw [hread, hrest]
  simp [preadResult]

/-! ## The queue -/

theorem bytesAt_eq_piece (a : Area) (mem : Nat → Byte) (addr : BitVec 32) (n : Nat) :
    bytesAt a mem addr n = piece mem (addr - a.recData).toNat n := by
  rfl

/-- **A copy out of the queue** from the place of `r` on. -/
theorem Queued.copyQueue_eq (h : Queued a q stream) (hlow : Low a)
    (haddr : addr.toNat = a.recData.toNat + r % a.size.toNat) (hr : q.headGolbalOffset.toNat ≤ r)
    (hlen : r + len.toNat ≤ q.tailGolbalOffset.toNat) :
    copyQueue a q.mem addr len = piece stream r len.toNat := by
  have hpos := a.size_pos
  have hlt := Nat.mod_lt r hpos
  have hused := h.used
  have hroom := hlow.room
  have hend := TsQueue.Area.end_toNat a
  have hoff : (addr - a.recData).toNat = r % a.size.toNat := by bv_omega
  have hfront : (a.recData + a.size - addr).toNat = a.size.toNat - r % a.size.toNat := by bv_omega
  unfold copyQueue
  simp only [bytesAt_eq_piece, hoff, hfront]
  split
  · next hover =>
    have hnat : a.recData.toNat + a.size.toNat < addr.toNat + len.toNat := by bv_omega
    have hrest : (len - (a.recData + a.size - addr)).toNat =
        len.toNat - (a.size.toNat - r % a.size.toNat) := by bv_omega
    rw [hrest, show (a.recData - a.recData).toNat = 0 by simp]
    exact h.cells.around hr hlen hpos (by omega) (by omega)
  · next hover =>
    have hnat : addr.toNat + len.toNat ≤ a.recData.toNat + a.size.toNat := by bv_omega
    exact h.cells.straight hr hlen (by omega)

/-- **The address in the queue.** -/
theorem Queued.read_toNat (h : Queued a q stream) (hlow : Low a) {x : BitVec 64}
    (hr : q.headGolbalOffset.toNat ≤ x.toNat) (hlt : x.toNat < q.tailGolbalOffset.toNat) :
    let read := (q.head.setWidth 64 + (x - q.headGolbalOffset)).setWidth 32 % (a.recData + a.size)
    (if read < a.recData then a.recData + read else read).toNat = a.recData.toNat + x.toNat % a.size.toNat := by
  intro read
  have hpos := a.size_pos
  have hheadlt := Nat.mod_lt q.headGolbalOffset.toNat hpos
  have hhead := h.head
  have hused := h.used
  have hroom := hlow.room
  have hsize := hlow.size_le
  have hplace := TsQueue.tail_eq hr (by omega) hpos
  have hsum : ((q.head.setWidth 64 + (x - q.headGolbalOffset)).setWidth 32).toNat
      = a.recData.toNat + q.headGolbalOffset.toNat % a.size.toNat + (x.toNat - q.headGolbalOffset.toNat) := by
    bv_omega
  have hread : read.toNat = (a.recData.toNat + q.headGolbalOffset.toNat % a.size.toNat
      + (x.toNat - q.headGolbalOffset.toNat)) % (a.recData.toNat + a.size.toNat) := by
    rw [BitVec.toNat_umod, hsum, TsQueue.Area.end_toNat]
  rw [hplace]
  by_cases hover : q.headGolbalOffset.toNat % a.size.toNat + (x.toNat - q.headGolbalOffset.toNat) < a.size.toNat
  · rw [Nat.mod_eq_of_lt (by omega)] at hread
    have hge : ¬ read < a.recData := by
      rw [BitVec.lt_def]
      omega
    rw [if_pos hover, if_neg hge]
    omega
  · -- behind the end: what is left is below the start
    rw [Nat.mod_eq_sub_mod (by omega), Nat.mod_eq_of_lt (by omega)] at hread
    have hbelow : read < a.recData := by
      rw [BitVec.lt_def]
      omega
    rw [if_neg hover, if_pos hbelow, BitVec.toNat_add]
    omega

/-! ## A read -/

section Timeshift

variable {x : Nat} (h : Queued a q stream) (hlow : Low a) (hstop : call.playMainThreadStop = false)
  (hqueue : call.recDataQueue = some (a, q)) (hx : x + headToAdd.toNat + cipherHead.toNat = globalOffset.toNat)
  (hglobal : globalOffset.toNat < q.tailGolbalOffset.toNat) (hle : x + bytesSend.toNat ≤ q.tailGolbalOffset.toNat)

include hx

theorem readGlobalOffset_toNat : (globalOffset - headToAdd.setWidth 64 - cipherHead.setWidth 64).toNat = x := by
  bv_omega

theorem readEnd_toNat (hsum : x + bytesSend.toNat < 0x10000000000000000) :
    (globalOffset - headToAdd.setWidth 64 - cipherHead.setWidth 64 + bytesSend.setWidth 64).toNat
      = x + bytesSend.toNat := by
  bv_omega

include hstop hqueue hglobal hle

/-- In front of the tail: from the queue, from both, or from the file. -/
theorem readData_cases :
    readData c call bytesSend offset globalOffset cipherHead headToAdd = if q.headGolbalOffset.toNat ≤ x then
        (bytesSend,
          let read := (q.head.setWidth 64 + (BitVec.ofNat 64 x - q.headGolbalOffset)).setWidth 32 % (a.recData + a.size)
          copyQueue a q.mem (if read < a.recData then a.recData + read else read) bytesSend)
      else if q.headGolbalOffset.toNat < x + bytesSend.toNat then
        let fileReadSize := BitVec.ofNat 32 (q.headGolbalOffset.toNat - x)
        let readed := preadResult (call.pread fileReadSize offset)
        if readed.1 ≠ fileReadSize then readed
        else (bytesSend, readed.2 ++ copyQueue a q.mem q.head (bytesSend - fileReadSize))
      else preadResult (call.pread bytesSend offset) := by
  have hoff := readGlobalOffset_toNat hx
  have hend : (_ + bytesSend.setWidth 64).toNat = x + bytesSend.toNat := readEnd_toNat hx (by omega)
  have hoff' : globalOffset - headToAdd.setWidth 64 - cipherHead.setWidth 64 = BitVec.ofNat 64 x := by
    apply BitVec.eq_of_toNat_eq
    rw [hoff, BitVec.toNat_ofNat, Nat.mod_eq_of_lt (by omega)]
  unfold readData
  rw [hstop, hqueue]
  simp only [Bool.false_eq_true, if_false]
  rw [if_neg (by rw [ge_iff_le, gt_iff_lt, BitVec.le_def, BitVec.lt_def, BitVec.lt_def, hend]; omega)]
  by_cases hin : q.headGolbalOffset.toNat ≤ x
  · rw [if_pos hin, if_pos (by rw [ge_iff_le, BitVec.le_def]; omega), hoff']
  · rw [if_neg hin, if_neg (by rw [ge_iff_le, BitVec.le_def]; omega)]
    by_cases hover : q.headGolbalOffset.toNat < x + bytesSend.toNat
    · rw [if_pos hover, if_pos (by rw [gt_iff_lt, BitVec.lt_def, hend]; exact hover)]
      have hpart : bytesSend - (globalOffset - headToAdd.setWidth 64 - cipherHead.setWidth 64 + bytesSend.setWidth 64
          - q.headGolbalOffset).setWidth 32 = BitVec.ofNat 32 (q.headGolbalOffset.toNat - x) := by
        bv_omega
      rw [hpart]
      split
      · rfl
      · next heq => rw [not_not.mp heq]
    · rw [if_neg hover, if_neg (by rw [gt_iff_lt, BitVec.lt_def, hend]; exact hover)]

include h hlow

/-- All in the queue. -/
theorem Queued.readData_queue (hin : q.headGolbalOffset.toNat ≤ x) :
    readData c call bytesSend offset globalOffset cipherHead headToAdd =
      (bytesSend, piece stream x bytesSend.toNat) := by
  have hx64 : (BitVec.ofNat 64 x).toNat = x := by
    rw [BitVec.toNat_ofNat, Nat.mod_eq_of_lt (by omega)]
  have haddr := h.read_toNat hlow (x := BitVec.ofNat 64 x) (by omega) (by omega)
  rw [hx64] at haddr
  rw [readData_cases hstop hqueue hx hglobal hle, if_pos hin]
  rw [h.copyQueue_eq hlow haddr hin hle]

/-- The file up to the head, and the queue from the head on. -/
theorem Queued.readData_both (hout : ¬ q.headGolbalOffset.toNat ≤ x)
    (hover : q.headGolbalOffset.toNat < x + bytesSend.toNat) :
    let fileReadSize := BitVec.ofNat 32 (q.headGolbalOffset.toNat - x)
    let readed := preadResult (call.pread fileReadSize offset)
    readData c call bytesSend offset globalOffset cipherHead headToAdd = if readed.1 ≠ fileReadSize then readed
      else
        (bytesSend,
          readed.2 ++ piece stream q.headGolbalOffset.toNat (x + bytesSend.toNat - q.headGolbalOffset.toNat)) := by
  intro fileReadSize readed
  have hfile : fileReadSize.toNat = q.headGolbalOffset.toNat - x := by
    rw [BitVec.toNat_ofNat, Nat.mod_eq_of_lt (by omega)]
  have hsize : (bytesSend - fileReadSize).toNat = x + bytesSend.toNat - q.headGolbalOffset.toNat := by
    bv_omega
  have hcopy : copyQueue a q.mem q.head (bytesSend - fileReadSize) = _ :=
    h.copyQueue_eq hlow h.head (Nat.le_refl _) (by omega)
  rw [hsize] at hcopy
  rw [readData_cases hstop hqueue hx hglobal hle, if_neg hout, if_pos hover]
  dsimp only
  rw [hcopy]

/-- What a read in timeshift returns, when the bytes are there. -/
theorem Queued.readData_of_le (hfile : Holds call.pread offset stream x q.headGolbalOffset.toNat) :
    readData c call bytesSend offset globalOffset cipherHead headToAdd =
      (bytesSend, piece stream x bytesSend.toNat) := by
  by_cases hin : q.headGolbalOffset.toNat ≤ x
  · exact h.readData_queue hlow hstop hqueue hx hglobal hle hin
  · by_cases hover : q.headGolbalOffset.toNat < x + bytesSend.toNat
    · have hsize : (BitVec.ofNat 32 (q.headGolbalOffset.toNat - x)).toNat = q.headGolbalOffset.toNat - x := by
        bv_omega
      have hjoin := piece_append (f := stream) (g := x) (n := q.headGolbalOffset.toNat - x)
        (k := x + bytesSend.toNat - q.headGolbalOffset.toNat)
      rw [show x + (q.headGolbalOffset.toNat - x) = q.headGolbalOffset.toNat by omega,
        show q.headGolbalOffset.toNat - x + (x + bytesSend.toNat - q.headGolbalOffset.toNat) = bytesSend.toNat by omega]
        at hjoin
      rw [h.readData_both hlow hstop hqueue hx hglobal hle hin hover, hfile.inside (by omega), hsize]
      simp only [ne_eq, not_true_eq_false, if_false]
      rw [hjoin]
    · rw [readData_cases hstop hqueue hx hglobal hle, if_neg hin, if_neg hover]
      exact hfile.inside (by omega)

end Timeshift

/-- **What a read in timeshift returns.** The bytes that are asked for, wherever they lie; or the error, where the frame
    or the end of the read is not in front of the tail. -/
theorem readData_timeshift (h : Queued a q stream) (hlow : Low a) (hstop : call.playMainThreadStop = false)
    (hqueue : call.recDataQueue = some (a, q)) (hr : r + headToAdd.toNat + cipherHead.toNat = globalOffset.toNat)
    (hfile : Holds call.pread offset stream r q.headGolbalOffset.toNat)
    (hsum : r + bytesSend.toNat < 0x10000000000000000) :
    readData c call bytesSend offset globalOffset cipherHead headToAdd =
      if globalOffset.toNat < q.tailGolbalOffset.toNat ∧ r + bytesSend.toNat ≤ q.tailGolbalOffset.toNat then
        (bytesSend, piece stream r bytesSend.toNat)
      else (c.indexBeyondTs, []) := by
  split
  · next hin => exact h.readData_of_le hlow hstop hqueue hr hin.1 hin.2 hfile
  · next hout =>
    have hend := readEnd_toNat hr hsum
    unfold readData
    rw [hstop, hqueue]
    simp only [Bool.false_eq_true, if_false]
    rw [if_pos]
    rw [ge_iff_le, gt_iff_lt, BitVec.le_def, BitVec.lt_def, BitVec.lt_def, hend]
    omega

/-- A file of `n` bytes. -/
def fileOf (content : Nat → Byte) (n : Nat) : BitVec 32 → BitVec 64 → Option (List Byte) :=
  fun len offset => some (((piece content 0 n).drop offset.toNat).take len.toNat)

/-- A file that has some bytes of the stream at `offset`. -/
theorem holds_fileOf {content : Nat → Byte} {n : Nat} (hn : offset.toNat + (upTo - r) ≤ n)
    (h : ∀ i, i < upTo - r → content (offset.toNat + i) = stream (r + i)) :
    Holds (fileOf content n) offset stream r upTo := by
  intro len
  have hpiece : piece content offset.toNat (min len.toNat (upTo - r)) = piece stream r (min len.toNat (upTo - r)) :=
    piece_congr (fun i hi => h i (by omega))
  refine ⟨piece content (offset.toNat + min len.toNat (upTo - r))
    (min len.toNat (n - offset.toNat) - min len.toNat (upTo - r)), ?_, ?_⟩
  · rw [← hpiece, piece_append, Nat.add_sub_cancel' (by omega)]
    simp [fileOf, drop_piece]
  · rw [length_piece]
    omega

/-- A stream of different bytes, the file with twelve of them, and a queue of 16 bytes with the next eight. -/
def counting : Nat → Byte := fun g => BitVec.ofNat 8 g

def sixteenBytes : Area := ⟨0x2000, 16, by decide, by decide, by decide⟩

def aroundQueue : Queue where
  flag := .empty
  head := 0x200c
  tail := 0x2004
  headGolbalOffset := 12
  tailGolbalOffset := 20
  mem := fun p => if p < 4 then counting (16 + p) else counting p

theorem queued_aroundQueue : Queued sixteenBytes aroundQueue counting where
  le := by decide
  used := by decide
  head := by decide
  cells := by
    intro g hlo hhi
    have hcells : ∀ g < 20, 12 ≤ g → aroundQueue.mem (g % 16) = counting g := by decide
    exact hcells g hhi hlo

theorem low_sixteenBytes : Low sixteenBytes := ⟨by decide, by decide⟩

def someConsts : Consts where
  tsLen := 188
  cipherPkgLen := 0x200
  cipherMaxLen := 0x100000
  playMaxFrameSize := 0x200000
  indexBeyondTs := 0x80310040
  tsLen_pos := by decide
  cipherPkgLen_pos := by decide
  cipherMaxLen_pos := by decide
  room := by decide
  indexBeyondTs_ge := by decide

/-- A call in timeshift that meets no error. -/
def timeshift (a : Area) (q : Queue) (pread : BitVec 32 → BitVec 64 → Option (List Byte)) : Call where
  playMainThreadStop := false
  recDataQueue := some (a, q)
  pread := pread
  getTsBuffer := true
  phyAddr := 0x80000000
  readCallBack := true
  doCipher := false
  cipherDecrypt := fun _ _ => true
  putTsBuffer := true

/-- Four bytes of the file, four up to the end of the queue, and four from its start. -/
theorem readData_timeshift_around :
    readData someConsts (timeshift sixteenBytes aroundQueue (fileOf counting 12)) 12 8 11 1 2
      = (12, piece counting 8 12) :=
  (readData_timeshift queued_aroundQueue low_sixteenBytes rfl rfl (r := 8) rfl
    (holds_fileOf (by decide) (fun _ _ => rfl))
    (by decide)).trans (if_pos (by decide))

/-- A queue whose tail is the last global offset there is. -/
def lastQueue : Queue where
  flag := .empty
  head := 0x2008
  tail := 0x200f
  headGolbalOffset := 0xfffffffffffffff8
  tailGolbalOffset := 0xffffffffffffffff
  mem := fun _ => 0

/-- A read of bytes that are there can fail: the thread is to stop, or the frame begins at the tail. And a read behind
    the last global offset gets bytes. -/
theorem readData_refuses :
    (Queued sixteenBytes aroundQueue counting ∧ Low sixteenBytes ∧ Holds (fileOf counting 12) 8 counting 8 12) ∧
    (8 + 12 ≤ aroundQueue.tailGolbalOffset.toNat ∧
      readData someConsts { timeshift sixteenBytes aroundQueue (fileOf counting 12) with playMainThreadStop := true }
        12 8 11 1 2 = (0, [])) ∧
    (8 + 12 ≤ aroundQueue.tailGolbalOffset.toNat ∧
      readData someConsts (timeshift sixteenBytes aroundQueue (fileOf counting 12)) 12 8 20 12 0
        = (someConsts.indexBeyondTs, [])) ∧
    (Queued sixteenBytes lastQueue (fun _ => 0) ∧
      Holds (fileOf (fun _ => 0) 0) 0 (fun _ => 0) 0xfffffffffffffffc 0xfffffffffffffff8) ∧
    (lastQueue.tailGolbalOffset.toNat < 0xfffffffffffffffc + 8 ∧
      (readData someConsts (timeshift sixteenBytes lastQueue (fileOf (fun _ => 0) 0)) 8 0 0xfffffffffffffffc 0 0).1 =
        8) := by
  refine ⟨⟨queued_aroundQueue, low_sixteenBytes, holds_fileOf (by decide) (fun _ _ => rfl)⟩, ⟨by decide, rfl⟩,
    ⟨by decide, rfl⟩, ⟨?_, ?_⟩, by decide, by decide⟩
  · exact ⟨by decide, by decide, by decide, fun _ _ _ => rfl⟩
  · intro len
    exact ⟨[], by simp [fileOf], by simp⟩

end HiSTB.Pvr.Play
