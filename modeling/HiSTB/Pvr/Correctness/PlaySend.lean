import HiSTB.Pvr.Correctness.PlayRead

/-!
# `Pvr.Correctness.PlaySend` — when playback sends every packet once

A frame lies at some place of the stream. What is handed over for it begins with the packet that holds its first byte
and ends at the last packet boundary in it (`tsFloor`); the packet that is cut there is the first one of the next frame.
So the packets of frames that follow each other follow each other, too, wherever the frames end.

A frame that goes over the end of a cyclic file ends its first part at a packet boundary. Its second part begins at the
start of the file, but it is read with the global offset of the first part. From the file that makes no difference; in
timeshift the record queue gives the bytes of the first part again. So the packets are the right ones when the ones of
the second part are in the file already (`Safe`).
-/

namespace HiSTB.Pvr.Play

open Lib
open TsQueue (Area Queue Byte)

variable {c : Consts} {patch : Patch} {stream : Nat → Byte} {call : Call} {state : State}
variable {y : Nat} {content : Nat → Byte}

  {offset globalOffset : BitVec 64} {size : BitVec 32} {g d p : Nat} {i : Input} {is : List Input} {chn : Chn}

/-! ## The distances -/

/-- The last packet boundary that is not behind `x`. -/
def tsFloor (c : Consts) (x : Nat) : Nat := x - x % c.tsLen.toNat

theorem tsFloor_eq_mul (c : Consts) (x : Nat) : tsFloor c x = c.tsLen.toNat * (x / c.tsLen.toNat) := by
  have hdiv := Nat.mod_add_div x c.tsLen.toNat
  unfold tsFloor
  omega

theorem tsFloor_mono (c : Consts) {x : Nat} (h : x ≤ y) : tsFloor c x ≤ tsFloor c y := by
  rw [tsFloor_eq_mul, tsFloor_eq_mul]
  exact Nat.mul_le_mul_left _ (Nat.div_le_div_right h)

/-- The length of what is handed over. -/
def packetsLen (c : Consts) (x len : Nat) : Nat := tsFloor c (x + len) - tsFloor c x

/-- What `PVRPlaySendData` computes. -/
structure Aligned (c : Consts) (x len : Nat) (al : Align) : Prop where
  headToAdd : al.headToAdd.toNat = x % c.tsLen.toNat
  endToAdd : al.endToAdd.toNat = c.tsLen.toNat - (x + len) % c.tsLen.toNat
  cipherHead : al.cipherHead.toNat = tsFloor c x % c.cipherPkgLen.toNat
  cipherEnd : al.cipherEnd.toNat = c.cipherPkgLen.toNat - (x + len + al.endToAdd.toNat) % c.cipherPkgLen.toNat
  alignSize : al.alignSize.toNat =
    len + al.headToAdd.toNat + al.endToAdd.toNat + al.cipherHead.toNat + al.cipherEnd.toNat
  readOffset : al.readOffset.toNat = x - al.headToAdd.toNat - al.cipherHead.toNat

theorem setWidth_mod (x : BitVec 64) (m : BitVec 32) (hm : 0 < m.toNat) :
    ((x % m.setWidth 64).setWidth 32).toNat = x.toNat % m.toNat := by
  have hlt := Nat.mod_lt x.toNat hm
  have hm32 := m.isLt
  rw [BitVec.toNat_setWidth, BitVec.toNat_umod, BitVec.toNat_setWidth, Nat.mod_eq_of_lt (by omega : m.toNat < 2 ^ 64)]
  exact Nat.mod_eq_of_lt (by omega)

theorem toNat_wide (x : BitVec 32) : (x.setWidth 64).toNat = x.toNat := by
  have hlt := x.isLt
  rw [BitVec.toNat_setWidth, Nat.mod_eq_of_lt (by omega)]

/-- The sum of the distances, where it fits. -/
theorem toNat_sum {size head tail cipherHead cipherEnd : BitVec 32}
    (h : size.toNat + head.toNat + tail.toNat + cipherHead.toNat + cipherEnd.toNat < 0x80000000) :
    (size + head + tail + cipherHead + cipherEnd).toNat =
      size.toNat + head.toNat + tail.toNat + cipherHead.toNat + cipherEnd.toNat := by
  rw [BitVec.toNat_add, BitVec.toNat_add, BitVec.toNat_add, BitVec.toNat_add]
  omega

/-- What is missing to the next multiple, which is a whole round if nothing is. -/
theorem toNat_missing (x : BitVec 64) (m : BitVec 32) (hm : 0 < m.toNat) :
    (m - (x % m.setWidth 64).setWidth 32).toNat = m.toNat - x.toNat % m.toNat := by
  have hmod := setWidth_mod x m hm
  rw [BitVec.toNat_sub_of_le, hmod]
  rw [BitVec.le_def, hmod]
  exact Nat.le_of_lt (Nat.mod_lt _ hm)

theorem missing_le (x : BitVec 64) (m : BitVec 32) (hm : 0 < m.toNat) :
    0 < (m - (x % m.setWidth 64).setWidth 32).toNat ∧ (m - (x % m.setWidth 64).setWidth 32).toNat ≤ m.toNat := by
  rw [toNat_missing x m hm]
  exact ⟨Nat.sub_pos_of_lt (Nat.mod_lt _ hm), Nat.sub_le _ _⟩

theorem align_aligned (hsize : size.toNat ≤ c.playMaxFrameSize.toNat)
    (hroom : offset.toNat + size.toNat < 0x8000000000000000) :
    Aligned c offset.toNat size.toNat (align c offset size) := by
  have hT := c.tsLen_pos
  have hC := c.cipherPkgLen_pos
  have hmax := c.room
  have hend : (offset + size.setWidth 64).toNat = offset.toNat + size.toNat := by
    rw [BitVec.toNat_add_of_lt (by rw [toNat_wide]; omega), toNat_wide]
  have hhead : (align c offset size).headToAdd.toNat = offset.toNat % c.tsLen.toNat := setWidth_mod offset c.tsLen hT
  have hadd : (align c offset size).endToAdd.toNat = c.tsLen.toNat - (offset.toNat + size.toNat) % c.tsLen.toNat := by
    rw [← hend]
    exact toNat_missing (offset + size.setWidth 64) c.tsLen hT
  have haddle : (align c offset size).endToAdd.toNat ≤ c.tsLen.toNat := (missing_le _ c.tsLen hT).2
  have hfloor : (offset - (align c offset size).headToAdd.setWidth 64).toNat = tsFloor c offset.toNat := by
    rw [BitVec.toNat_sub_of_le (by rw [BitVec.le_def, toNat_wide, hhead]; exact Nat.mod_le _ _), toNat_wide, hhead]
    rfl
  have hcipher : (align c offset size).cipherHead.toNat = tsFloor c offset.toNat % c.cipherPkgLen.toNat := by
    rw [← hfloor]
    exact setWidth_mod (offset - (align c offset size).headToAdd.setWidth 64) c.cipherPkgLen hC
  have hpast : (offset + size.setWidth 64 + (align c offset size).endToAdd.setWidth 64).toNat =
      offset.toNat + size.toNat + (align c offset size).endToAdd.toNat := by
    rw [BitVec.toNat_add_of_lt (by rw [toNat_wide, hend]; omega), toNat_wide, hend]
  have hcend : (align c offset size).cipherEnd.toNat = c.cipherPkgLen.toNat -
      (offset.toNat + size.toNat + (align c offset size).endToAdd.toNat) % c.cipherPkgLen.toNat := by
    rw [← hpast]
    exact toNat_missing (offset + size.setWidth 64 + (align c offset size).endToAdd.setWidth 64) c.cipherPkgLen hC
  have hcendle : (align c offset size).cipherEnd.toNat ≤ c.cipherPkgLen.toNat := (missing_le _ c.cipherPkgLen hC).2
  have hheadlt := Nat.mod_lt offset.toNat hT
  have hcipherlt := Nat.mod_lt (tsFloor c offset.toNat) hC
  have hsum : size.toNat + (align c offset size).headToAdd.toNat + (align c offset size).endToAdd.toNat +
      (align c offset size).cipherHead.toNat + (align c offset size).cipherEnd.toNat < 0x80000000 := by
    rw [hhead, hcipher]
    omega
  refine ⟨hhead, hadd, hcipher, hcend, toNat_sum hsum, ?_⟩
  have hle : (align c offset size).cipherHead.toNat ≤ tsFloor c offset.toNat := hcipher ▸ Nat.mod_le _ _
  show (offset - (align c offset size).headToAdd.setWidth 64 - (align c offset size).cipherHead.setWidth 64).toNat = _
  rw [BitVec.toNat_sub_of_le (by rw [BitVec.le_def, toNat_wide, hfloor]; exact hle), toNat_wide, hfloor, hhead]
  rfl

namespace Aligned

variable {x len : Nat} {al : Align}

theorem head_le (h : Aligned c x len al) : al.headToAdd.toNat + al.cipherHead.toNat ≤ x := by
  have hcipher := Nat.mod_le (tsFloor c x) c.cipherPkgLen.toNat
  have hmod := Nat.mod_le x c.tsLen.toNat
  rw [h.headToAdd, h.cipherHead]
  unfold tsFloor at hcipher ⊢
  omega

/-- The place of the read, and its cipher head, end at the first packet. -/
theorem readOffset_add (h : Aligned c x len al) : al.readOffset.toNat + al.cipherHead.toNat = tsFloor c x := by
  have hle := h.head_le
  rw [h.readOffset]
  unfold tsFloor
  rw [← h.headToAdd]
  omega

/-- **A read starts at a cipher package.** -/
theorem read_start (h : Aligned c x len al) : al.readOffset.toNat % c.cipherPkgLen.toNat = 0 := by
  have hadd := h.readOffset_add
  rw [h.cipherHead] at hadd
  rw [show al.readOffset.toNat = tsFloor c x - tsFloor c x % c.cipherPkgLen.toNat by omega]
  exact Nat.sub_mod_eq_zero_of_mod_eq (Nat.mod_mod _ _).symm

/-- **A read ends at a cipher package.** -/
theorem read_end (h : Aligned c x len al) : (al.readOffset.toNat + al.alignSize.toNat) % c.cipherPkgLen.toNat = 0 := by
  have hle := h.head_le
  have hend := h.cipherEnd
  have hlt := Nat.mod_lt (x + len + al.endToAdd.toNat) c.cipherPkgLen_pos
  have hdiv := Nat.mod_add_div (x + len + al.endToAdd.toNat) c.cipherPkgLen.toNat
  rw [h.readOffset, h.alignSize]
  rw [show x - al.headToAdd.toNat - al.cipherHead.toNat
      + (len + al.headToAdd.toNat + al.endToAdd.toNat + al.cipherHead.toNat + al.cipherEnd.toNat)
      = c.cipherPkgLen.toNat * ((x + len + al.endToAdd.toNat) / c.cipherPkgLen.toNat + 1) by
    rw [Nat.mul_add]
    omega]
  exact Nat.mul_mod_right _ _

/-- The end that is added and the packet that is cut: up to the last boundary. -/
theorem len_eq (h : Aligned c x len al) :
    packetsLen c x len + c.tsLen.toNat = len + al.headToAdd.toNat + al.endToAdd.toNat := by
  have hmono := tsFloor_mono c (Nat.le_add_right x len)
  have hlt := Nat.mod_lt (x + len) c.tsLen_pos
  have hle := Nat.mod_le (x + len) c.tsLen.toNat
  have hle' := Nat.mod_le x c.tsLen.toNat
  rw [h.headToAdd, h.endToAdd]
  unfold packetsLen
  unfold tsFloor at hmono ⊢
  omega

/-- **What is handed over** in a read of `alignSize` bytes. -/
theorem inside (h : Aligned c x len al) : al.cipherHead.toNat + packetsLen c x len ≤ al.alignSize.toNat := by
  have hlen := h.len_eq
  rw [h.alignSize]
  omega

theorem in_data (h : Aligned c x len al) :
    packetsLen c x len ≤ len + al.headToAdd.toNat := by
  have hlen := h.len_eq
  have hend := h.endToAdd
  omega

theorem alignSize_lt (h : Aligned c x len al) (hlen : len ≤ c.playMaxFrameSize.toNat) :
    0 < al.alignSize.toNat ∧ al.alignSize.toNat < 0x80000000 := by
  have hmax := c.room
  have hT := Nat.mod_lt x c.tsLen_pos
  have hC := Nat.mod_lt (tsFloor c x) c.cipherPkgLen_pos
  have hTe := Nat.mod_lt (x + len) c.tsLen_pos
  have hhead := h.headToAdd
  have hend := h.endToAdd
  have hcipher := h.cipherHead
  have hcend := h.cipherEnd
  rw [h.alignSize]
  omega

theorem realSend (h : Aligned c x len al) (hlen : len ≤ c.playMaxFrameSize.toNat) (hstate : state.sendsAll = true) :
    Play.realSend c state al.alignSize al.cipherHead al.cipherEnd al.endToAdd
      = (BitVec.ofNat 32 (packetsLen c x len), al.cipherHead) := by
  have hend := h.endToAdd
  have hmodlt := Nat.mod_lt (x + len) c.tsLen_pos
  have hne : al.endToAdd ≠ 0 := by
    intro hzero
    rw [hzero, show (0 : BitVec 32).toNat = 0 from rfl] at hend
    omega
  have hsum := h.alignSize
  have hlen' := h.len_eq
  have hmax := h.alignSize_lt hlen
  unfold Play.realSend
  rw [if_pos hstate]
  dsimp only
  rw [if_pos hne]
  have hval : al.alignSize - al.cipherHead - (al.cipherEnd + c.tsLen) = BitVec.ofNat 32 (packetsLen c x len) := by
    bv_omega
  rw [hval]

end Aligned

/-! ## One part of a frame -/

/-- What is read in front of the data. -/
def Align.ahead (al : Align) : Nat := al.headToAdd.toNat + al.cipherHead.toNat

/-- Everything that a call meets is there, and its reads are complete: `size` bytes of data that are at `g` in the
    stream. What a read gets behind the data is not asked for. -/
structure Served (stream : Nat → Byte) (call : Call) (al : Align) (size g : Nat) : Prop where
  stop : call.playMainThreadStop = false
  getTsBuffer : call.getTsBuffer = true
  readCallBack : call.readCallBack = true
  putTsBuffer : call.putTsBuffer = true
  notEnd : ∀ len, 0 < len.toNat → call.pread len al.readOffset ≠ some []
  fromFile : call.recDataQueue = none → Holds call.pread al.readOffset stream (g - al.ahead) (g + size)
  fromQueue : ∀ a q, call.recDataQueue = some (a, q) → Queued a q stream ∧ Low a ∧
    g - al.ahead + al.alignSize.toNat ≤ q.tailGolbalOffset.toNat ∧
    Holds call.pread al.readOffset stream (g - al.ahead) (min (g + size) q.headGolbalOffset.toNat)

/-- A read that returned its length, with the stream from `r` on in the first `k` bytes. -/
structure Reads (stream : Nat → Byte) (n : BitVec 32) (r k : Nat) (res : BitVec 32 × List Byte) : Prop where
  count : res.1.toNat = res.2.length
  pos : 0 < res.2.length
  le : res.2.length ≤ n.toNat
  bytes : ∃ rest, res.2 = piece stream r k ++ rest

variable {n m : BitVec 32} {r k x upTo len : Nat} {al : Align}

theorem Reads.of_piece (hn : 0 < n.toNat) (hk : k ≤ n.toNat) : Reads stream n r k (n, piece stream r n.toNat) := by
  refine ⟨by simp, by simpa using hn, by simp, piece stream (r + k) (n.toNat - k), ?_⟩
  rw [piece_append, Nat.add_sub_cancel' hk]

/-- A read of the file. -/
theorem Holds.reads (h : Holds call.pread offset stream r upTo) (hsome : call.pread m offset ≠ some [])
    (hm : m.toNat ≤ n.toNat) (hk : k ≤ m.toNat) (hupTo : r + k ≤ upTo ∨ k = 0) :
    Reads stream n r k (preadResult (call.pread m offset)) := by
  obtain ⟨rest, hread, hlen⟩ := h m
  rw [hread] at hsome ⊢
  have hlen' : (piece stream r (min m.toNat (upTo - r)) ++ rest).length ≤ m.toNat := by simpa using hlen
  have hlt := m.isLt
  refine ⟨?_, ?_, Nat.le_trans hlen' hm, ?_⟩
  · exact Nat.mod_eq_of_lt (by omega)
  · apply List.length_pos_of_ne_nil
    intro hnil
    exact hsome (congrArg some hnil)
  · refine ⟨piece stream (r + k) (min m.toNat (upTo - r) - k) ++ rest, ?_⟩
    show piece stream r _ ++ rest = _
    rw [← List.append_assoc, piece_append, Nat.add_sub_cancel' (by omega)]

/-- Where the first part of a read has the bytes, the second one does not matter. -/
theorem Reads.more {res : BitVec 32 × List Byte} {more : List Byte} (h : Reads stream m r k res)
    (hmore : m.toNat + more.length = n.toNat) : Reads stream n r k (if res.1 ≠ m then res else (n, res.2 ++ more)) := by
  have hcount := h.count
  have hpos := h.pos
  obtain ⟨rest, hbytes⟩ := h.bytes
  split
  · exact ⟨h.count, h.pos, Nat.le_trans h.le (by omega), h.bytes⟩
  · next heq =>
    rw [not_not.mp heq] at hcount
    refine ⟨?_, ?_, ?_, rest ++ more, ?_⟩
    · rw [List.length_append, ← hcount, hmore]
    · rw [List.length_append]
      omega
    · rw [List.length_append]
      omega
    · rw [hbytes, List.append_assoc]

/-- The file up to the head of the queue, and the queue. -/
theorem Reads.both {hd : Nat} (hm : m.toNat = hd - r) (hlt : r < hd) (hn : hd < r + n.toNat) (hk : k ≤ n.toNat)
    (h : Holds call.pread offset stream r (min upTo hd)) (hupTo : r + k ≤ upTo)
    (hsome : call.pread m offset ≠ some []) :
    Reads stream n r k
      (if (preadResult (call.pread m offset)).1 ≠ m then preadResult (call.pread m offset)
      else (n, (preadResult (call.pread m offset)).2 ++ piece stream hd (r + n.toNat - hd))) := by
  by_cases hin : k ≤ m.toNat
  · apply Reads.more (h.reads hsome (Nat.le_refl _) hin (by omega))
    rw [length_piece]
    omega
  · -- the data goes on behind the head, so the file has all up to the head
    rw [h.inside (by omega), if_neg (not_not.mpr rfl)]
    show Reads stream n r k (n, piece stream r m.toNat ++ _)
    rw [show hd = r + m.toNat by omega, piece_append, show m.toNat + (r + n.toNat - (r + m.toNat)) = n.toNat by omega]
    exact Reads.of_piece (by omega) hk

/-- **What is read** with a global offset that lets the read begin at `x`: that is the right place, or the file has the
    bytes. -/
theorem Served.reads (h : Served stream call al len g) (hx : x + al.ahead = globalOffset.toNat) (hxr : x ≤ g - al.ahead)
    (hn : al.ahead < al.alignSize.toNat) (hk : k ≤ al.alignSize.toNat) (hdata : g - al.ahead + k ≤ g + len)
    (hqueue : ∀ a q, call.recDataQueue = some (a, q) →
      x = g - al.ahead ∨ k = 0 ∨ g - al.ahead + k ≤ q.headGolbalOffset.toNat) :
    Reads stream al.alignSize (g - al.ahead) k
      (readData c call al.alignSize al.readOffset globalOffset al.cipherHead al.headToAdd) := by
  have hpos : 0 < al.alignSize.toNat := by omega
  have hbegin : x + al.headToAdd.toNat + al.cipherHead.toNat = globalOffset.toNat := by
    rw [← hx, Nat.add_assoc]
    rfl
  cases hq : call.recDataQueue with
  | none =>
    have hfile := (h.fromFile hq).reads (h.notEnd _ hpos) (Nat.le_refl _) hk (Or.inl hdata)
    unfold readData
    rw [h.stop, hq]
    exact hfile
  | some aq =>
    obtain ⟨a, q⟩ := aq
    obtain ⟨hqueued, hlow, htail, hfile⟩ := h.fromQueue a q hq
    have hglobal : globalOffset.toNat < q.tailGolbalOffset.toNat := by omega
    have hle : x + al.alignSize.toNat ≤ q.tailGolbalOffset.toNat := by omega
    by_cases heq : x = g - al.ahead
    · rw [← heq] at hdata hfile ⊢
      by_cases hin : q.headGolbalOffset.toNat ≤ x
      · rw [hqueued.readData_queue hlow h.stop hq hbegin hglobal hle hin]
        exact Reads.of_piece hpos hk
      · by_cases hover : q.headGolbalOffset.toNat < x + al.alignSize.toNat
        · have hsize : (BitVec.ofNat 32 (q.headGolbalOffset.toNat - x)).toNat = q.headGolbalOffset.toNat - x := by
            rw [BitVec.toNat_ofNat, Nat.mod_eq_of_lt (by omega)]
          rw [hqueued.readData_both hlow h.stop hq hbegin hglobal hle hin hover]
          exact Reads.both hsize (by omega) hover hk hfile hdata (h.notEnd _ (by omega))
        · rw [readData_cases h.stop hq hbegin hglobal hle, if_neg hin, if_neg hover]
          exact hfile.reads (h.notEnd _ hpos) (Nat.le_refl _) hk (by omega)
    · -- the wrong place: all that counts has to come from the file
      have hsaved := (hqueue a q hq).resolve_left heq
      by_cases hin : q.headGolbalOffset.toNat ≤ x
      · have hzero : k = 0 := by omega
        rw [hqueued.readData_queue hlow h.stop hq hbegin hglobal hle hin, hzero]
        exact ⟨by simp, by simpa using hpos, by simp, piece stream x al.alignSize.toNat, by simp⟩
      · by_cases hover : q.headGolbalOffset.toNat < x + al.alignSize.toNat
        · have hsize : (BitVec.ofNat 32 (q.headGolbalOffset.toNat - x)).toNat = q.headGolbalOffset.toNat - x := by
            rw [BitVec.toNat_ofNat, Nat.mod_eq_of_lt (by omega)]
          rw [hqueued.readData_both hlow h.stop hq hbegin hglobal hle hin hover]
          apply Reads.more (hfile.reads (h.notEnd _ (by omega)) (Nat.le_refl _) (by omega) (by omega))
          rw [length_piece]
          omega
        · rw [readData_cases h.stop hq hbegin hglobal hle, if_neg hin, if_neg hover]
          exact hfile.reads (h.notEnd _ hpos) (Nat.le_refl _) hk (by omega)

/-! ## Decrypting -/

/-- The `k`th block of `n` bytes is decrypted. -/
def Call.block (c : Consts) (call : Call) (i : BitVec 32) (n k : Nat) : Bool :=
  call.cipherDecrypt (call.phyAddr + (i + BitVec.ofNat 32 k) * c.cipherMaxLen)
    (BitVec.ofNat 32 (min c.cipherMaxLen.toNat (n - k * c.cipherMaxLen.toNat)))

/-- **When `n` bytes are decrypted**: nothing is to be, or they are at most 20 blocks, and each one is. -/
def Call.Decrypts (c : Consts) (call : Call) (n : Nat) : Prop :=
  call.doCipher = true → n ≤ 20 * c.cipherMaxLen.toNat ∧ ∀ k, k * c.cipherMaxLen.toNat < n → call.block c 0 n k = true

theorem blockLen_toNat (c : Consts) (totalLen : BitVec 32) :
    (blockLen c totalLen).toNat = min c.cipherMaxLen.toNat totalLen.toNat := by
  unfold blockLen
  split
  · rename_i h
    exact (Nat.min_eq_left (BitVec.le_def.mp h)).symm
  · rename_i h
    exact (Nat.min_eq_right (Nat.le_of_lt (Nat.not_le.mp (fun hle => h (BitVec.le_def.mpr hle))))).symm

theorem decryptLoop_succ (c : Consts) (call : Call) (left : Nat) (i totalLen : BitVec 32) (hpos : totalLen > 0) :
    decryptLoop c call (left + 1) i totalLen =
      if call.cipherDecrypt (call.phyAddr + i * c.cipherMaxLen) (blockLen c totalLen) then
        ((decryptLoop c call left (i + 1) (totalLen - blockLen c totalLen)).1,
          .decrypt (call.phyAddr + i * c.cipherMaxLen) (blockLen c totalLen) ::
            (decryptLoop c call left (i + 1) (totalLen - blockLen c totalLen)).2)
      else (false, []) :=
  if_pos hpos

/-- The first block. -/
theorem block_zero (c : Consts) (call : Call) (i totalLen : BitVec 32) :
    call.block c i totalLen.toNat 0 = call.cipherDecrypt (call.phyAddr + i * c.cipherMaxLen) (blockLen c totalLen) := by
  have hlen : BitVec.ofNat 32 (min c.cipherMaxLen.toNat (totalLen.toNat - 0 * c.cipherMaxLen.toNat)) =
      blockLen c totalLen := by
    rw [Nat.zero_mul, Nat.sub_zero, ← blockLen_toNat, BitVec.ofNat_toNat, BitVec.setWidth_eq]
  unfold Call.block
  rw [hlen, show i + BitVec.ofNat 32 0 = i from BitVec.add_zero i]

/-- Behind the first block, block `k` is block `k + 1`. -/
theorem block_succ (call : Call) (i : BitVec 32) {n k : Nat} (hover : c.cipherMaxLen.toNat < n) :
    call.block c (i + 1) (n - min c.cipherMaxLen.toNat n) k = call.block c i n (k + 1) := by
  have hsub : n - min c.cipherMaxLen.toNat n - k * c.cipherMaxLen.toNat = n - (k + 1) * c.cipherMaxLen.toNat := by
    rw [Nat.succ_mul]
    omega
  unfold Call.block
  rw [hsub, show i + 1 + BitVec.ofNat 32 k = i + BitVec.ofNat 32 (k + 1) by
    rw [BitVec.ofNat_add, BitVec.add_assoc, BitVec.add_comm 1]
    rfl]

/-- **The loop**, from block `i` on. -/
theorem decryptLoop_iff (left : Nat) (i totalLen : BitVec 32) :
    (decryptLoop c call (left + 1) i totalLen).1 = true ↔ totalLen.toNat ≤ left * c.cipherMaxLen.toNat ∧
      ∀ k, k * c.cipherMaxLen.toNat < totalLen.toNat → call.block c i totalLen.toNat k = true := by
  have hmax := c.cipherMaxLen_pos
  induction left generalizing i totalLen with
  | zero =>
    by_cases hpos : totalLen > 0
    · have hnat : 0 < totalLen.toNat := BitVec.lt_def.mp hpos
      refine iff_of_false ?_ (fun h => by omega)
      rw [decryptLoop_succ c call 0 i totalLen hpos]
      split <;> exact Bool.false_ne_true
    · have hnat : totalLen.toNat = 0 := Nat.eq_zero_of_not_pos (fun h => hpos (BitVec.lt_def.mpr h))
      exact iff_of_true (congrArg Prod.fst (if_neg hpos)) ⟨by omega, fun k hk => by omega⟩
  | succ left ih =>
    by_cases hpos : totalLen > 0
    · have hnat : 0 < totalLen.toNat := BitVec.lt_def.mp hpos
      have hrest : (totalLen - blockLen c totalLen).toNat =
          totalLen.toNat - min c.cipherMaxLen.toNat totalLen.toNat := by
        have hle : blockLen c totalLen ≤ totalLen := by
          rw [BitVec.le_def, blockLen_toNat]
          exact Nat.min_le_right ..
        rw [BitVec.toNat_sub_of_le hle, blockLen_toNat]
      have hih := ih (i + 1) (totalLen - blockLen c totalLen)
      rw [hrest] at hih
      rw [decryptLoop_succ c call (left + 1) i totalLen hpos]
      by_cases hdone : call.cipherDecrypt (call.phyAddr + i * c.cipherMaxLen) (blockLen c totalLen) = true
      · rw [if_pos hdone]
        refine hih.trans ?_
        constructor
        · rintro ⟨hle, hall⟩
          refine ⟨by rw [Nat.succ_mul]; omega, fun k hk => ?_⟩
          cases k with
          | zero => rw [block_zero, hdone]
          | succ k =>
            rw [Nat.succ_mul] at hk
            rw [← block_succ call i (by omega)]
            exact hall k (by omega)
        · rintro ⟨hle, hall⟩
          rw [Nat.succ_mul] at hle
          refine ⟨by omega, fun k hk => ?_⟩
          have hover : c.cipherMaxLen.toNat < totalLen.toNat := by
            by_contra hover
            omega
          rw [block_succ call i hover]
          exact hall (k + 1) (by rw [Nat.succ_mul]; omega)
      · rw [if_neg hdone]
        refine iff_of_false Bool.false_ne_true (fun h => hdone ?_)
        rw [← block_zero]
        exact h.2 0 (by omega)
    · have hnat : totalLen.toNat = 0 := Nat.eq_zero_of_not_pos (fun h => hpos (BitVec.lt_def.mpr h))
      exact iff_of_true (congrArg Prod.fst (if_neg hpos)) ⟨by omega, fun k hk => by omega⟩

/-- **`PVRPlayProcCipherDecrypt`** succeeds if and only if all blocks are decrypted. -/
theorem procCipherDecrypt_iff (c : Consts) (call : Call) (n : BitVec 32) :
    (procCipherDecrypt c call n).1 = true ↔ call.Decrypts c n.toNat := by
  unfold procCipherDecrypt Call.Decrypts
  cases call.doCipher with
  | false => exact iff_of_true rfl (fun h => absurd h Bool.false_ne_true)
  | true => exact (decryptLoop_iff 20 0 n).trans ⟨fun h _ => h, fun h => h rfl⟩

/-- **What is decrypted**: the whole buffer, block after block. -/
theorem decryptLoop_covers (left : Nat) (i totalLen : BitVec 32) (h : (decryptLoop c call left i totalLen).1 = true) :
    ∀ x < totalLen.toNat, ∃ addr len, .decrypt addr len ∈ (decryptLoop c call left i totalLen).2 ∧
      (call.phyAddr + i * c.cipherMaxLen + BitVec.ofNat 32 x - addr).toNat < len.toNat := by
  have hmax := c.cipherMaxLen.isLt
  induction left generalizing i totalLen with
  | zero => exact absurd h Bool.false_ne_true
  | succ left ih =>
    intro x hx
    have hlt := totalLen.isLt
    have hpos : totalLen > 0 := BitVec.lt_def.mpr (Nat.lt_of_le_of_lt (Nat.zero_le x) hx)
    have hlen := blockLen_toNat c totalLen
    rw [decryptLoop_succ c call left i totalLen hpos] at h ⊢
    split at h
    · rename_i hdone
      rw [if_pos hdone]
      by_cases hin : x < (blockLen c totalLen).toNat
      · refine ⟨_, _, List.mem_cons_self .., ?_⟩
        rw [BitVec.add_comm, BitVec.add_sub_cancel, BitVec.toNat_ofNat, Nat.mod_eq_of_lt (by omega)]
        exact hin
      · have hrest : (totalLen - blockLen c totalLen).toNat = totalLen.toNat - (blockLen c totalLen).toNat :=
          BitVec.toNat_sub_of_le (BitVec.le_def.mpr (by omega))
        obtain ⟨addr, len, hmem, hcover⟩ :=
          ih (i + 1) (totalLen - blockLen c totalLen) h (x - c.cipherMaxLen.toNat) (by omega)
        refine ⟨addr, len, List.mem_cons_of_mem _ hmem, ?_⟩
        -- the next block begins where this one ends
        have hnext : (i + 1) * c.cipherMaxLen = i * c.cipherMaxLen + c.cipherMaxLen := by
          rw [BitVec.add_mul, show (1 : BitVec 32) * c.cipherMaxLen = c.cipherMaxLen from BitVec.one_mul _]
        have hplace : c.cipherMaxLen + BitVec.ofNat 32 (x - c.cipherMaxLen.toNat) = BitVec.ofNat 32 x := by
          bv_omega
        rwa [hnext, ← BitVec.add_assoc, BitVec.add_assoc _ c.cipherMaxLen, hplace] at hcover
    · exact absurd h Bool.false_ne_true

theorem procCipherDecrypt_events : ∀ e ∈ (procCipherDecrypt c call n).2, ∃ addr len, e = .decrypt addr len := by
  have hloop (left : Nat) : ∀ i totalLen, ∀ e ∈ (decryptLoop c call left i totalLen).2, ∃ addr len,
      e = .decrypt addr len := by
    induction left with
    | zero => exact fun _ _ e he => absurd he List.not_mem_nil
    | succ left ih =>
      intro i totalLen e he
      by_cases hpos : totalLen > 0
      · rw [decryptLoop_succ c call left i totalLen hpos] at he
        split at he
        · rcases List.mem_cons.mp he with rfl | he
          · exact ⟨_, _, rfl⟩
          · exact ih _ _ e he
        · exact absurd he List.not_mem_nil
      · rw [show decryptLoop c call (left + 1) i totalLen = (true, []) from if_neg hpos] at he
        exact absurd he List.not_mem_nil
  unfold procCipherDecrypt
  split
  · exact fun e he => absurd he List.not_mem_nil
  · exact hloop 21 0 n

/-! ## Handing over -/

/-- The packets that are handed over for data at place `x` of the file, `g` in the stream. -/
def packets (c : Consts) (stream : Nat → Byte) (x len g : Nat) : List Byte :=
  piece stream (g - x % c.tsLen.toNat) (packetsLen c x len)

/-- The bytes that the demultiplexer gets. -/
def Event.bytes : Event → List Byte
  | .put _ _ _ bytes => bytes
  | .read _ _ | .decrypt _ _ | .privatePacket _ _ => []

/-- Reads go from cipher package to cipher package, and what is handed over is inside the buffer. -/
def Event.Ok (c : Consts) : Event → Prop
  | .read offset len =>
    offset.toNat % c.cipherPkgLen.toNat = 0 ∧ (offset.toNat + len.toNat) % c.cipherPkgLen.toNat = 0
  | .put granted startPos len bytes => startPos.toNat + len.toNat ≤ granted.toNat ∧ bytes.length = len.toNat
  | .decrypt _ _ | .privatePacket _ _ => True

/-- A call that succeeds, hands over these bytes and does all in its bounds. -/
structure Sends (c : Consts) (bytes : List Byte) (out : Ret × List Event) : Prop where
  success : out.1 = .success
  bytes : out.2.flatMap Event.bytes = bytes
  ok : ∀ e ∈ out.2, e.Ok c

/-- What is handed over after a read that has it. -/
theorem Reads.sendToTsBuffer {x : Nat} (hal : Aligned c x len al) (hlen : len ≤ c.playMaxFrameSize.toNat)
    (h : Reads stream al.alignSize r (al.cipherHead.toNat + packetsLen c x len)
      (readData c call al.alignSize al.readOffset globalOffset al.cipherHead al.headToAdd))
    (hget : call.getTsBuffer = true) (hback : call.readCallBack = true) (hdecrypt : call.Decrypts c al.alignSize.toNat)
    (hput : call.putTsBuffer = true) (hstate : state.sendsAll = true) :
    sendToTsBuffer c patch state call al.readOffset globalOffset al.alignSize al.cipherHead al.cipherEnd al.headToAdd
      al.endToAdd
      = (.success, [.read al.readOffset al.alignSize] ++ (procCipherDecrypt c call al.alignSize).2 ++
          [.put al.alignSize al.cipherHead (BitVec.ofNat 32 (packetsLen c x len))
            (piece stream (r + al.cipherHead.toNat) (packetsLen c x len))]) := by
  obtain ⟨hcount, hpos, hle, rest, hbytes⟩ := h
  have hlt := hal.alignSize_lt hlen
  have hbeyond := c.indexBeyondTs_ge
  have hinside := hal.inside
  have hplen : (BitVec.ofNat 32 (packetsLen c x len)).toNat = packetsLen c x len := by
    rw [BitVec.toNat_ofNat, Nat.mod_eq_of_lt (by omega)]
  unfold Play.sendToTsBuffer
  have hdone := (procCipherDecrypt_iff c call al.alignSize).mpr hdecrypt
  rw [hget, hal.realSend hlen hstate, hback, hput, hstate]
  generalize procCipherDecrypt c call al.alignSize = decrypts at *
  obtain ⟨decrypted, decrypts⟩ := decrypts
  obtain rfl : decrypted = true := hdone
  generalize readData c call al.alignSize al.readOffset globalOffset al.cipherHead al.headToAdd = res at *
  obtain ⟨readedBytes, bytes⟩ := res
  dsimp only at hcount hpos hle hbytes ⊢
  have hfail : readedBytes ≠ -1 := by
    intro heq
    rw [heq, show (-1 : BitVec 32).toNat = 0xffffffff from rfl] at hcount
    omega
  have hzero : readedBytes ≠ 0 := by
    intro heq
    rw [heq, show (0 : BitVec 32).toNat = 0 from rfl] at hcount
    omega
  have hts : readedBytes ≠ c.indexBeyondTs := by
    intro heq
    rw [heq] at hcount
    omega
  have hsent : (bytes.drop al.cipherHead.toNat).take (packetsLen c x len)
      = piece stream (r + al.cipherHead.toNat) (packetsLen c x len) := by
    rw [hbytes, ← piece_append, List.append_assoc, List.drop_left' length_piece, List.take_left' length_piece]
  rw [if_neg (by simp), if_neg (fun hc => hfail hc.2), if_neg (fun hc => hzero hc.2), if_neg (fun hc => hts hc.2)]
  simp [hplen, hsent]

/-- **One part of a frame.** It is read with a global offset that lets the read begin at `x`. -/
theorem Served.sendData (h : Served stream call (align c offset size) size.toNat g) (hstate : state.sendsAll = true)
    (hdecrypt : call.Decrypts c (align c offset size).alignSize.toNat) (hsize : size.toNat ≤ c.playMaxFrameSize.toNat)
    (hroom : offset.toNat + size.toNat < 0x8000000000000000) (hg : offset.toNat ≤ g)
    (hx : x + (align c offset size).ahead = globalOffset.toNat) (hxr : x ≤ g - (align c offset size).ahead)
    (hqueue : ∀ a q, call.recDataQueue = some (a, q) → x = g - (align c offset size).ahead ∨
      (align c offset size).cipherHead.toNat + packetsLen c offset.toNat size.toNat = 0 ∨
      g - (align c offset size).headToAdd.toNat + packetsLen c offset.toNat size.toNat ≤ q.headGolbalOffset.toNat) :
    Sends c (packets c stream offset.toNat size.toNat g)
      (Play.sendData c patch state call offset size globalOffset) := by
  have hal := align_aligned hsize hroom
  have hlt := hal.alignSize_lt hsize
  have hhead := hal.head_le
  have hlen := hal.inside
  have hdata := hal.in_data
  have hsum := hal.alignSize
  have hend := hal.endToAdd
  have hmodlt := Nat.mod_lt (offset.toNat + size.toNat) c.tsLen_pos
  have hahead : (align c offset size).ahead
      = (align c offset size).headToAdd.toNat + (align c offset size).cipherHead.toNat := rfl
  have hreads := h.reads (c := c) (k := (align c offset size).cipherHead.toNat + packetsLen c offset.toNat size.toNat)
    hx hxr (by omega) hlen (by omega) (fun a q hq => (hqueue a q hq).imp id (Or.imp id (by omega)))
  have hsend : Play.sendData c patch state call offset size globalOffset = _ :=
    hreads.sendToTsBuffer hal hsize h.getTsBuffer h.readCallBack hdecrypt h.putTsBuffer hstate
  have hplace : g - (align c offset size).ahead + (align c offset size).cipherHead.toNat
      = g - offset.toNat % c.tsLen.toNat := by
    rw [← hal.headToAdd]
    omega
  have hplen : (BitVec.ofNat 32 (packetsLen c offset.toNat size.toNat)).toNat =
      packetsLen c offset.toNat size.toNat := by
    rw [BitVec.toNat_ofNat, Nat.mod_eq_of_lt (by omega)]
  rw [hplace] at hsend
  refine ⟨?_, ?_, ?_⟩
  · rw [hsend]
  · have hnone : (procCipherDecrypt c call (align c offset size).alignSize).2.flatMap Event.bytes = [] := by
      refine List.flatMap_eq_nil_iff.mpr (fun e he => ?_)
      obtain ⟨_, _, rfl⟩ := procCipherDecrypt_events e he
      rfl
    rw [hsend]
    simp [Event.bytes, packets, hnone]
  · rw [hsend]
    intro e he
    rcases List.mem_append.mp he with he | he
    · rcases List.mem_cons.mp he with rfl | he
      · exact ⟨hal.read_start, hal.read_end⟩
      · obtain ⟨_, _, rfl⟩ := procCipherDecrypt_events e he
        trivial
    · obtain rfl := List.mem_singleton.mp he
      refine ⟨?_, ?_⟩
      · rw [hplen]
        exact hlen
      · rw [hplen]
        exact length_piece

/-! ## A frame -/

/-- The sizes of the two parts of a frame. -/
def Input.size1 (i : Input) : BitVec 32 := i.parts.2.1

def Input.size2 (i : Input) : BitVec 32 := i.parts.2.2

/-- A frame at `p` of the file, counted on from its first cycle, that meets everything it needs; `d` is the global
    offset of the start. -/
structure Placed (c : Consts) (stream : Nat → Byte) (d p : Nat) (i : Input) : Prop where
  size_pos : 0 < i.frame.frameSize.toNat
  size_le : i.frame.frameSize.toNat ≤ c.playMaxFrameSize.toNat
  global : i.frame.globalOffset.toNat = d + p
  straight : i.cyclic = false → i.frame.offset.toNat = p ∧ p + i.frame.frameSize.toNat < 0x8000000000000000
  cyclic : i.cyclic = true → 0 < i.maxFileSize.toNat ∧ i.maxFileSize.toNat < 0x8000000000000000 ∧
    i.maxFileSize.toNat % c.tsLen.toNat = 0 ∧ i.frame.offset.toNat % i.maxFileSize.toNat = p % i.maxFileSize.toNat
  status : ∃ bufSize usedSize, i.tsBufferStatus = some (bufSize, usedSize) ∧
    2 * (c.cipherPkgLen.toNat + c.tsLen.toNat) + i.frame.frameSize.toNat + c.tsLen.toNat ≤ (bufSize - usedSize).toNat
  privatePacket : i.privatePacket = true
  call1 : Served stream i.call1 (align c i.parts.1 i.size1) i.size1.toNat (d + p)
  call2 : i.size2 ≠ 0 → Served stream i.call2 (align c 0 i.size2) i.size2.toNat (d + p + i.size1.toNat)

/-- **When a frame is sent as it is.** All that is read is decrypted; and where it goes over the end of the file in
    timeshift, the packets of its second part are in the file already. -/
structure Safe (c : Consts) (i : Input) : Prop where
  decrypt1 : i.call1.Decrypts c (align c i.parts.1 i.size1).alignSize.toNat
  decrypt2 : i.size2 ≠ 0 → i.call2.Decrypts c (align c 0 i.size2).alignSize.toNat
  saved : i.size2 ≠ 0 → ∀ a q, i.call2.recDataQueue = some (a, q) →
    tsFloor c i.size2.toNat = 0 ∨
    i.frame.globalOffset.toNat + i.size1.toNat + tsFloor c i.size2.toNat ≤ q.headGolbalOffset.toNat

/-- The parts of a frame. -/
structure Parts (c : Consts) (p len : Nat) (beforePos : BitVec 64) (size1 size2 : BitVec 32) : Prop where
  le : beforePos.toNat ≤ p
  mod : beforePos.toNat % c.tsLen.toNat = p % c.tsLen.toNat
  room : beforePos.toNat + size1.toNat < 0x8000000000000000
  sum : size1.toNat + size2.toNat = len
  boundary : size2 ≠ 0 → (p + size1.toNat) % c.tsLen.toNat = 0

theorem Placed.parts (h : Placed c stream d p i) : Parts c p i.frame.frameSize.toNat i.parts.1 i.size1 i.size2 := by
  have hlt := i.frame.frameSize.isLt
  unfold Input.size1 Input.size2 Input.parts
  cases hc : i.cyclic with
  | false =>
    obtain ⟨hplace, hroom⟩ := h.straight hc
    simp only [Bool.false_eq_true, if_false]
    exact ⟨Nat.le_of_eq hplace, by rw [hplace], by omega, by simp, fun hne => absurd rfl hne⟩
  | true =>
    obtain ⟨hpos, hmax, hmul, hplace⟩ := h.cyclic hc
    have hbefore : (i.frame.offset % i.maxFileSize).toNat = p % i.maxFileSize.toNat := by
      rw [BitVec.toNat_umod, hplace]
    have hbeforelt := Nat.mod_lt p hpos
    have hle := Nat.mod_le p i.maxFileSize.toNat
    have hdvd : c.tsLen.toNat ∣ i.maxFileSize.toNat := Nat.dvd_of_mod_eq_zero hmul
    have hmod : p % i.maxFileSize.toNat % c.tsLen.toNat = p % c.tsLen.toNat := Nat.mod_mod_of_dvd p hdvd
    simp only [if_true]
    split
    · next hover =>
      have hnat : i.maxFileSize.toNat < p % i.maxFileSize.toNat + i.frame.frameSize.toNat := by bv_omega
      have hsize1 : ((i.maxFileSize - i.frame.offset % i.maxFileSize).setWidth 32).toNat
          = i.maxFileSize.toNat - p % i.maxFileSize.toNat := by
        bv_omega
      refine ⟨by rw [hbefore]; exact hle, by rw [hbefore, hmod], by rw [hbefore, hsize1]; omega, by bv_omega, ?_⟩
      intro _
      -- the first part ends at the end of the file
      show (p + ((i.maxFileSize - i.frame.offset % i.maxFileSize).setWidth 32).toNat) % c.tsLen.toNat = 0
      rw [hsize1, Nat.add_mod, ← hmod, ← Nat.add_mod, show p % i.maxFileSize.toNat + (i.maxFileSize.toNat
        - p % i.maxFileSize.toNat) = i.maxFileSize.toNat by omega]
      exact hmul
    · next hover =>
      have hnat : p % i.maxFileSize.toNat + i.frame.frameSize.toNat ≤ i.maxFileSize.toNat := by bv_omega
      exact ⟨by rw [hbefore]; exact hle, by rw [hbefore, hmod], by dsimp only; omega, by simp,
        fun hne => absurd rfl hne⟩

theorem packetsLen_congr {x : Nat} (len : Nat) (h : x % c.tsLen.toNat = y % c.tsLen.toNat) :
    packetsLen c x len = packetsLen c y len := by
  have hsum : (x + len) % c.tsLen.toNat = (y + len) % c.tsLen.toNat := by
    rw [Nat.add_mod, h, ← Nat.add_mod]
  have hx := Nat.mod_le x c.tsLen.toNat
  have hy := Nat.mod_le y c.tsLen.toNat
  have hxl := Nat.mod_le (x + len) c.tsLen.toNat
  have hyl := Nat.mod_le (y + len) c.tsLen.toNat
  unfold packetsLen tsFloor
  omega

/-- The packets from the one that holds the byte at `p` up to the last boundary in the next `len` bytes. -/
def streamPackets (c : Consts) (stream : Nat → Byte) (d p len : Nat) : List Byte :=
  piece stream (d + tsFloor c p) (packetsLen c p len)

/-- **The packets of data and of the data behind it.** -/
theorem streamPackets_append (c : Consts) (stream : Nat → Byte) (d p m n : Nat) :
    streamPackets c stream d p m ++ streamPackets c stream d (p + m) n = streamPackets c stream d p (m + n) := by
  have hm := tsFloor_mono c (Nat.le_add_right p m)
  have hn := tsFloor_mono c (Nat.le_add_right (p + m) n)
  unfold streamPackets packetsLen
  rw [show d + tsFloor c (p + m) = d + tsFloor c p + (tsFloor c (p + m) - tsFloor c p) by omega, piece_append,
    ← Nat.add_assoc p m n]
  congr 1
  omega

theorem packets_eq {x : Nat} (c : Consts) (stream : Nat → Byte) (d p len : Nat)
    (h : x % c.tsLen.toNat = p % c.tsLen.toNat) : packets c stream x len (d + p) = streamPackets c stream d p len := by
  have hle := Nat.mod_le p c.tsLen.toNat
  unfold packets streamPackets
  rw [packetsLen_congr len h, h]
  unfold tsFloor
  congr 1
  omega

theorem Sends.append {bs bs' : List Byte} {out out' : Ret × List Event} (h : Sends c bs out) (h' : Sends c bs' out') :
    Sends c (bs ++ bs') (out'.1, out.2 ++ out'.2) := by
  refine ⟨h'.success, ?_, ?_⟩
  · rw [List.flatMap_append, h.bytes, h'.bytes]
  · intro e he
    exact (List.mem_append.mp he).elim (h.ok e) (h'.ok e)

/-- The first part of a frame is read with the right global offset. -/
theorem Placed.sendFirst (h : Placed c stream d p i) (hsafe : Safe c i) (hstate : state.sendsAll = true) :
    Sends c (streamPackets c stream d p i.size1.toNat)
      (Play.sendData c patch state i.call1 i.parts.1 i.size1 i.frame.globalOffset) := by
  have hparts := h.parts
  have hsum := hparts.sum
  have hle := hparts.le
  have hglobal := h.global
  have hmax := h.size_le
  have hal := align_aligned (c := c) (Nat.le_trans (Nat.le.intro hsum) hmax) hparts.room
  have hahead := hal.head_le
  rw [← packets_eq c stream d p i.size1.toNat hparts.mod]
  refine h.call1.sendData hstate hsafe.decrypt1 (by omega) hparts.room (by omega)
    (x := d + p - (align c i.parts.1 i.size1).ahead) ?_ (Nat.le_refl _) (fun _ _ _ => Or.inl rfl)
  unfold Align.ahead
  omega

/-- The second part is read with the global offset of the first one; its packets are in the file. -/
theorem Placed.sendSecond (h : Placed c stream d p i) (hsafe : Safe c i) (hstate : state.sendsAll = true)
    (hne : i.size2 ≠ 0) :
    Sends c (streamPackets c stream d (p + i.size1.toNat) i.size2.toNat)
      (Play.sendData c patch state i.call2 0 i.size2 i.frame.globalOffset) := by
  have hparts := h.parts
  have hsum := hparts.sum
  have hglobal := h.global
  have hmax := h.size_le
  have hlt := i.size2.isLt
  have hzero : (0 : BitVec 64).toNat = 0 := rfl
  have hal := align_aligned (c := c) (show i.size2.toNat ≤ c.playMaxFrameSize.toNat by omega)
    (show (0 : BitVec 64).toNat + i.size2.toNat < 0x8000000000000000 by omega)
  have hahead := hal.head_le
  have hmod : (0 : BitVec 64).toNat % c.tsLen.toNat = (p + i.size1.toNat) % c.tsLen.toNat := by
    rw [hparts.boundary hne, hzero, Nat.zero_mod]
  have hplen : packetsLen c 0 i.size2.toNat = tsFloor c i.size2.toNat := by
    unfold packetsLen
    rw [Nat.zero_add]
    simp [tsFloor]
  rw [← packets_eq c stream d (p + i.size1.toNat) i.size2.toNat hmod, ← Nat.add_assoc]
  refine (h.call2 hne).sendData hstate (hsafe.decrypt2 hne) (by omega) (by omega) (by omega) (x := d + p) ?_ ?_ ?_
  · unfold Align.ahead
    omega
  · unfold Align.ahead
    omega
  · intro a q hq
    have hsaved := hsafe.saved hne a q hq
    rw [hzero, hplen]
    omega

theorem sendParts_eq (c : Consts) (patch : Patch) (state : State) (i : Input) :
    sendParts c patch state i =
      if i.size2 ≠ 0 ∧ (sendData c patch state i.call1 i.parts.1 i.size1 i.frame.globalOffset).1 = .success then
        ((sendData c patch state i.call2 0 i.size2 i.frame.globalOffset).1,
          (sendData c patch state i.call1 i.parts.1 i.size1 i.frame.globalOffset).2
            ++ (sendData c patch state i.call2 0 i.size2 i.frame.globalOffset).2)
      else sendData c patch state i.call1 i.parts.1 i.size1 i.frame.globalOffset := by
  rfl

/-- **The data of a frame.** -/
theorem Placed.sendParts (h : Placed c stream d p i) (hsafe : Safe c i) (hstate : state.sendsAll = true) :
    Sends c (streamPackets c stream d p i.frame.frameSize.toNat) (Play.sendParts c patch state i) := by
  have hfirst : Sends c _ (Play.sendData c patch state i.call1 i.parts.1 i.size1 i.frame.globalOffset) :=
    h.sendFirst hsafe hstate
  have hsum := h.parts.sum
  rw [sendParts_eq]
  by_cases hne : i.size2 = 0
  · rw [if_neg (fun hc => hc.1 hne), ← hsum, hne]
    exact hfirst
  · rw [if_pos ⟨hne, hfirst.success⟩, ← hsum, ← streamPackets_append]
    exact hfirst.append (h.sendSecond hsafe hstate hne)

/-- A frame leaves the state. -/
theorem sendAframe_state (c : Consts) (patch : Patch) (chn : Chn) (i : Input) :
    (sendAframe c patch chn i).1.state = chn.state := by
  unfold sendAframe
  dsimp only
  split
  · rfl
  · split
    · rfl
    · split
      · rfl
      · split
        · rfl
        · split <;> rfl

theorem sendTime_sends (h : i.privatePacket = true) : Sends c [] (sendTime chn i) := by
  have hnone : Sends c [] (.success, []) := ⟨rfl, rfl, fun _ he => absurd he List.not_mem_nil⟩
  unfold sendTime
  rw [h]
  split
  · split
    · split
      · refine ⟨rfl, rfl, ?_⟩
        intro e he
        rw [List.mem_singleton.mp he]
        trivial
      · exact hnone
    · exact hnone
  · exact hnone

/-- **A frame.** -/
theorem Placed.sendAframe (h : Placed c stream d p i) (hsafe : Safe c i) (hstate : chn.state.sendsAll = true) :
    Sends c (streamPackets c stream d p i.frame.frameSize.toNat) (Play.sendAframe c patch chn i).2 := by
  have hpos := h.size_pos
  have hle := h.size_le
  have hroom := c.room
  obtain ⟨bufSize, usedSize, hstatus, hfree⟩ := h.status
  have hnonzero : i.frame.frameSize ≠ 0 := by
    intro hzero
    rw [hzero] at hpos
    exact absurd hpos (by decide)
  have htime : Sends c [] (sendTime (chn.setFrame i.frame) i) := sendTime_sends h.privatePacket
  have hdata : Sends c _ (Play.sendParts c patch (chn.setFrame i.frame).state i) := h.sendParts hsafe hstate
  unfold Play.sendAframe
  rw [if_neg hnonzero, if_neg (by bv_omega), hstatus]
  dsimp only
  rw [if_neg (by bv_omega), if_neg (not_not.mpr htime.success)]
  exact htime.append hdata

/-! ## A run -/

/-- Frames that follow each other, from `p` on. -/
def Contiguous (c : Consts) (stream : Nat → Byte) (d : Nat) : Nat → List Input → Prop
  | _, [] => True
  | p, i :: is => Placed c stream d p i ∧ Contiguous c stream d (p + i.frame.frameSize.toNat) is

/-- The size of all frames. -/
def totalSize (is : List Input) : Nat := (is.map (fun i => i.frame.frameSize.toNat)).sum

/-- **Every packet once.** Frames that follow each other are sent in the state PLAY, each one safely: all calls succeed;
    what is handed over is every packet from the one that holds the first byte up to the last boundary; and all reads
    and all that is handed over are in their bounds. -/
theorem sendFrames_packets (hstate : chn.state = .play) (h : Contiguous c stream d p is) (hsafe : ∀ i ∈ is, Safe c i) :
    (∀ out ∈ (sendFrames c patch chn is).2, out.1 = .success ∧ ∀ e ∈ out.2, e.Ok c) ∧
    (sendFrames c patch chn is).2.flatMap (fun out => out.2.flatMap Event.bytes)
      = piece stream (d + tsFloor c p) (tsFloor c (p + totalSize is) - tsFloor c p) := by
  induction is generalizing chn p with
  | nil =>
    refine ⟨fun out hout => absurd hout List.not_mem_nil, ?_⟩
    simp [sendFrames, totalSize]
  | cons i is ih =>
    obtain ⟨hplaced, hrest⟩ := h
    have hframe : Sends c _ (sendAframe c patch chn i).2 :=
      hplaced.sendAframe (hsafe i (List.mem_cons_self ..)) (by rw [hstate]; rfl)
    obtain ⟨hoks, hbytes⟩ := ih ((sendAframe_state c patch chn i).trans hstate) hrest
      (fun j hj => hsafe j (List.mem_cons_of_mem i hj))
    refine ⟨?_, ?_⟩
    · intro out hout
      rcases List.mem_cons.mp hout with rfl | hout
      · exact ⟨hframe.success, hframe.ok⟩
      · exact hoks out hout
    · have happend := streamPackets_append c stream d p i.frame.frameSize.toNat (totalSize is)
      show (sendAframe c patch chn i).2.2.flatMap Event.bytes ++ _ = _
      rw [hframe.bytes]
      exact (congrArg _ hbytes).trans happend

/-- A call that reads the file only. -/
def fileCall (pread : BitVec 32 → BitVec 64 → Option (List Byte)) : Call where
  playMainThreadStop := false
  recDataQueue := none
  pread := pread
  getTsBuffer := true
  phyAddr := 0x80000000
  readCallBack := true
  doCipher := true
  cipherDecrypt := fun _ _ => true
  putTsBuffer := true

theorem fileOf_ne_nil {size : Nat} {offset : BitVec 64} (h : offset.toNat < size) (len : BitVec 32)
    (hlen : 0 < len.toNat) : fileOf content size len offset ≠ some [] := by
  intro hnil
  have hlength := congrArg (fun o => o.map List.length) hnil
  simp only [fileOf, drop_piece, take_piece, Option.map_some, length_piece, Option.some.injEq] at hlength
  simp at hlength
  omega

theorem served_fileCall {size : Nat}
    (hsize : al.readOffset.toNat + (g + len - (g - al.ahead)) ≤ size) (hpos : al.readOffset.toNat < size)
    (h : ∀ i, i < g + len - (g - al.ahead) → content (al.readOffset.toNat + i) = stream (g - al.ahead + i)) :
    Served stream (fileCall (fileOf content size)) al len g where
  stop := rfl
  getTsBuffer := rfl
  readCallBack := rfl
  putTsBuffer := rfl
  notEnd := fileOf_ne_nil hpos
  fromFile := fun _ => holds_fileOf hsize h
  fromQueue := by
    intro a q hq
    cases hq

/-- A file of four packets, in its third cycle: the first packets are the new ones. -/
def rewound : Nat → Byte := fun x => if x < 400 then counting (1504 + x) else counting (752 + x)

def inFile (offset : BitVec 64) (size : BitVec 32) : Input where
  frame := { offset := offset, globalOffset := offset, frameSize := size, displayTimeMs := 40 }
  maxCycSize := 752
  maxFileSize := 752
  isRewind := true
  tsBufferStatus := some (0x10000, 0)
  vidPid := some 0x100
  privatePacket := true
  call1 := fileCall (fileOf rewound 752)
  call2 := fileCall (fileOf rewound 752)

def playing : Chn where
  state := .play
  speedForward := true
  recordedVideoExist := true
  notAvailableTsBuff := false
  curPlayFrame := none
  curPlayTimeMs := 0
  indexBeyondTs := false

/-- A frame over the end of the file, and the one behind it. -/
def overEnd : List Input := [inFile 1400 200, inFile 1600 300]

theorem rewound_old (k : Nat) (h : k < 240) : rewound (512 + k) = counting (1264 + k) := by
  unfold rewound
  rw [if_neg (by omega), ← Nat.add_assoc]

theorem contiguous_overEnd : Contiguous someConsts counting 0 1400 overEnd := by
  have hnew : ∀ i, i < 400 → rewound (0 + i) = counting (1504 + i) := by
    intro i hi
    rw [Nat.zero_add]
    exact if_pos hi
  refine ⟨?_, ?_, trivial⟩
  · exact {
      size_pos := by decide
      size_le := by decide
      global := rfl
      straight := fun hc => absurd hc (by decide)
      cyclic := fun _ => by decide
      status := ⟨_, _, rfl, by decide⟩
      privatePacket := rfl
      call1 := served_fileCall (by decide) (by decide) rewound_old
      call2 := fun _ => served_fileCall (by decide) (by decide)
        (fun i hi => hnew i (Nat.lt_of_lt_of_le hi (by decide))) }
  · exact {
      size_pos := by decide
      size_le := by decide
      global := rfl
      straight := fun hc => absurd hc (by decide)
      cyclic := fun _ => by decide
      status := ⟨_, _, rfl, by decide⟩
      privatePacket := rfl
      call1 := served_fileCall (by decide) (by decide) (fun i hi => hnew i (Nat.lt_of_lt_of_le hi (by decide)))
      call2 := fun hne => absurd rfl hne }

theorem safe_inFile {offset : BitVec 64} {size : BitVec 32}
    (h1 : (align someConsts (inFile offset size).parts.1 (inFile offset size).size1).alignSize.toNat ≤
      20 * someConsts.cipherMaxLen.toNat)
    (h2 : (align someConsts 0 (inFile offset size).size2).alignSize.toNat ≤ 20 * someConsts.cipherMaxLen.toNat) :
    Safe someConsts (inFile offset size) where
  decrypt1 := fun _ => ⟨h1, fun _ _ => rfl⟩
  decrypt2 := fun _ _ => ⟨h2, fun _ _ => rfl⟩
  saved := by
    intro _ a q hq
    cases hq

/-- Three packets, from the one that holds byte 1400 on. -/
theorem sendFrames_packets_overEnd :
    (sendFrames someConsts id playing overEnd).2.flatMap (fun out => out.2.flatMap Event.bytes) =
      piece counting 1316 564 :=
  (sendFrames_packets rfl contiguous_overEnd
    (fun i hi => by
      rcases List.mem_cons.mp hi with rfl | hi
      · exact safe_inFile (by decide) (by decide)
      · obtain rfl := List.mem_singleton.mp hi
        exact safe_inFile (by decide) (by decide))).2

/-- A stream whose bytes are the numbers of their packets, and a queue with all packets from the fourth on. -/
def packetNumbers : Nat → Byte := fun g => BitVec.ofNat 8 (g / 188)

def largeArea : Area := ⟨0x10000, 0x1400, by decide, by decide, by decide⟩

def fullQueue : Queue where
  flag := .empty
  head := 0x102f0
  tail := 0x10834
  headGolbalOffset := 752
  tailGolbalOffset := 2100
  mem := packetNumbers

/-- The packets 7 and 8, over the end of the file. -/
def nearLive : Input where
  frame := { offset := 1316, globalOffset := 1316, frameSize := 376, displayTimeMs := 40 }
  maxCycSize := 752
  maxFileSize := 752
  isRewind := true
  tsBufferStatus := some (0x10000, 0)
  vidPid := some 0x100
  privatePacket := true
  call1 := timeshift largeArea fullQueue (fileOf packetNumbers 752)
  call2 := timeshift largeArea fullQueue (fileOf packetNumbers 752)

/-- Packet 7 in the file, when it cannot be decrypted. -/
def notDecrypted : Input :=
  { inFile 1316 188 with call1 := { fileCall (fileOf rewound 752) with cipherDecrypt := fun _ _ => false } }

theorem queued_fullQueue : Queued largeArea fullQueue packetNumbers where
  le := by decide
  used := by decide
  head := by decide
  cells := by
    intro g _ hhi
    have hlt : g < 2100 := hhi
    show packetNumbers (g % 0x1400) = packetNumbers g
    rw [Nat.mod_eq_of_lt (by omega)]

/-- Nothing has to come from the file. -/
theorem served_fullQueue (hpos : al.readOffset.toNat < 752) (hlate : 752 ≤ g - al.ahead)
    (htail : g - al.ahead + al.alignSize.toNat ≤ 2100) :
    Served packetNumbers (timeshift largeArea fullQueue (fileOf packetNumbers 752)) al len g where
  stop := rfl
  getTsBuffer := rfl
  readCallBack := rfl
  putTsBuffer := rfl
  notEnd := fileOf_ne_nil hpos
  fromFile := by
    intro hq
    cases hq
  fromQueue := by
    intro a q hq
    cases hq
    have hhead : fullQueue.headGolbalOffset.toNat = 752 := rfl
    refine ⟨queued_fullQueue, ⟨by decide, by decide⟩, htail, holds_fileOf ?_ ?_⟩
    · omega
    · intro i hi
      omega

theorem contiguous_nearLive : Contiguous someConsts packetNumbers 0 1316 [nearLive] := by
  refine ⟨?_, trivial⟩
  exact {
    size_pos := by decide
    size_le := by decide
    global := rfl
    straight := fun hc => absurd hc (by decide)
    cyclic := fun _ => by decide
    status := ⟨_, _, rfl, by decide⟩
    privatePacket := rfl
    call1 := served_fullQueue (by decide) (by decide) (by decide)
    call2 := fun _ => served_fullQueue (by decide) (by decide) (by decide) }

theorem contiguous_notDecrypted : Contiguous someConsts counting 0 1316 [notDecrypted] := by
  refine ⟨?_, trivial⟩
  exact {
    size_pos := by decide
    size_le := by decide
    global := rfl
    straight := fun hc => absurd hc (by decide)
    cyclic := fun _ => by decide
    status := ⟨_, _, rfl, by decide⟩
    privatePacket := rfl
    call1 := by
      have hserved : Served counting (fileCall (fileOf rewound 752)) (align someConsts 564 188) 188 1316 :=
        served_fileCall (by decide) (by decide) rewound_old
      exact ⟨hserved.stop, hserved.getTsBuffer, hserved.readCallBack, hserved.putTsBuffer, hserved.notEnd,
        hserved.fromFile, hserved.fromQueue⟩
    call2 := fun hne => absurd rfl hne }

/-- In timeshift, packet 7 is sent twice and packet 8 never. And what is not decrypted is not sent. -/
theorem packet_sent_twice :
    (playing.state = .play ∧ Contiguous someConsts packetNumbers 0 1316 [nearLive] ∧
      (sendFrames someConsts id playing [nearLive]).2.flatMap (fun out => out.2.flatMap Event.bytes)
        = List.replicate 376 7 ∧
      piece packetNumbers (0 + tsFloor someConsts 1316)
        (tsFloor someConsts (1316 + totalSize [nearLive]) - tsFloor someConsts 1316)
        = List.replicate 188 7 ++ List.replicate 188 8) ∧
    (Contiguous someConsts counting 0 1316 [notDecrypted] ∧
      (sendFrames someConsts id playing [notDecrypted]).2.map (fun out => (out.1, out.2.flatMap Event.bytes))
        = [(.success, [])]) := by
  refine ⟨⟨rfl, contiguous_nearLive, ?_, ?_⟩, contiguous_notDecrypted, ?_⟩
  · decide +kernel
  · decide +kernel
  · decide +kernel

end HiSTB.Pvr.Play
