import HiSTB.Pvr.Correctness.TsHead
import Mathlib.Data.BitVec
import Mathlib.Tactic.Ring

/-!
# `Pvr.Correctness.TsEnd` — the last packet of a frame

`PVRPlayAddTsEnd` moves the data of the last packet to its end. The adaptation field before it becomes longer, or is
made. The bytes to add are bounded by the room of the packet, while the places are taken from where the data ends.

* `addTsEnd_field`, `addTsEnd_plain`, `addTsEnd_clamped` — the packet, cell by cell, in each of the branches;
* `EndRight` — nothing else is written, the packet keeps its sync byte and PID, and has the data as its payload;
* `addTsEnd_right_iff` — the exact condition (`EndKept`), for every packet and every number of bytes.
-/

namespace HiSTB.Pvr.TsPatch

open Lib Lib.TsPacket
open TsQueue (Byte)

variable {m m' : Mem} {dataEnd endToAdd : U32}

variable {head : Nat}

/-- The offset of the last packet. -/
def lastTsHead (dataEnd endToAdd : U32) : U32 := dataEnd + endToAdd - tsLen

/-- The data ends in the last packet of the buffer, and before its end. -/
structure InLast (dataEnd endToAdd : U32) : Prop where
  pos : 1 ≤ endToAdd.toNat
  le : endToAdd.toNat ≤ 188
  ge : 188 ≤ dataEnd.toNat + endToAdd.toNat
  lt : dataEnd.toNat + endToAdd.toNat < 0x100000000

section Last

variable (h : InLast dataEnd endToAdd)
include h

theorem InLast.toNat_head : (lastTsHead dataEnd endToAdd).toNat = dataEnd.toNat + endToAdd.toNat - 188 := by
  have hsum : (dataEnd + endToAdd).toNat = dataEnd.toNat + endToAdd.toNat := BitVec.toNat_add_of_lt h.lt
  have hle : tsLen ≤ dataEnd + endToAdd := by
    rw [BitVec.le_def, hsum]
    exact h.ge
  rw [lastTsHead, BitVec.toNat_sub_of_le hle, hsum]
  rfl

theorem InLast.room : (lastTsHead dataEnd endToAdd).toNat + 188 < 0x100000000 := by
  have hge := h.ge
  have hlt := h.lt
  rw [h.toNat_head]
  omega

theorem InLast.ne_zero : endToAdd ≠ 0 := by
  rintro rfl
  exact absurd h.pos (by decide)

end Last

/-! ## Places -/

section Places

variable (dataEnd endToAdd : U32)

theorem dst_eq : dataEnd + endToAdd - (tsLen - (endToAdd + tsHeadSize + tsMinPdSize)) =
    lastTsHead dataEnd endToAdd + (endToAdd + 6) := by
  rw [lastTsHead, tsLen, tsHeadSize, tsMinPdSize]
  ring

theorem src_eq : dataEnd - (tsLen - (endToAdd + tsHeadSize + tsMinPdSize)) = lastTsHead dataEnd endToAdd + 6 := by
  rw [lastTsHead, tsLen, tsHeadSize, tsMinPdSize]
  ring

theorem sizePos_eq : dataEnd - (tsLen - (endToAdd + tsHeadSize + tsMinPdSize) + tsMinPdSize) =
    lastTsHead dataEnd endToAdd + tsPdSizePos := by
  rw [lastTsHead, tsLen, tsHeadSize, tsMinPdSize, tsPdSizePos]
  ring

theorem dataEnd_eq : dataEnd = lastTsHead dataEnd endToAdd + (188 - endToAdd) := by
  rw [lastTsHead, tsLen]
  ring

theorem clampedPos_eq : dataEnd - (0 + tsMinPdSize) = lastTsHead dataEnd endToAdd + (186 - endToAdd) := by
  rw [lastTsHead, tsLen, tsMinPdSize]
  ring

end Places

/-! ## Writes -/

/-- Nothing outside the packet is changed. -/
def Inside (head : Nat) (m m' : Mem) : Prop := ∀ x, x < head ∨ head + 188 ≤ x → m' x = m x

theorem Inside.trans {m'' : Mem} (h : Inside head m m') (h' : Inside head m' m'') :
    Inside head m m'' := fun x hx => (h' x hx).trans (h x hx)

theorem inside_writeAt {k : Nat} {bs : List Byte} (h : k + bs.length ≤ 188) :
    Inside head m (writeAt m (head + k) bs) := by
  intro x hx
  rcases hx with hlt | hge
  · exact writeAt_of_lt (by omega)
  · exact writeAt_of_ge (by omega)

variable {tsHead : U32}

theorem inside_store (hroom : tsHead.toNat + 188 ≤ 0x100000000) {k : U32} (hk : k.toNat < 188) (v : Byte) :
    Inside tsHead.toNat m (store m (tsHead + k) v) := by
  rw [store, toNat_cell hroom hk]
  exact inside_writeAt hk

theorem inside_memset (hroom : tsHead.toNat + 188 ≤ 0x100000000) {k n : U32} (hk : k.toNat < 188)
    (hn : k.toNat + n.toNat ≤ 188) (v : Byte) : Inside tsHead.toNat m (memset m (tsHead + k) v n) := by
  rw [memset, toNat_cell hroom hk]
  exact inside_writeAt (by rw [List.length_replicate]; exact hn)

theorem inside_setAdptFiled (hroom : tsHead.toNat + 188 ≤ 0x100000000) (flag : U32) :
    Inside tsHead.toNat m (setAdptFiled m tsHead flag) := inside_store hroom (k := 3) (by decide) _

theorem inside_disOrderCntBy (hroom : tsHead.toNat + 188 ≤ 0x100000000) (k : Byte) :
    Inside tsHead.toNat m (disOrderCntBy k m tsHead) := inside_store hroom (k := 3) (by decide) _

theorem toNat_end (hroom : tsHead.toNat + 188 < 0x100000000) {k : U32} (hk : k.toNat ≤ 188) :
    (tsHead + k).toNat = tsHead.toNat + k.toNat := by
  rw [BitVec.toNat_add, Nat.mod_eq_of_lt (by omega)]

theorem packet_memmove (hroom : tsHead.toNat + 188 < 0x100000000) {k j : U32} (hk : k.toNat ≤ 188) (hj : j.toNat ≤ 188)
    (n : U32) : packet (memmove m (tsHead + k) (tsHead + j) n) tsHead.toNat =
      writeAt (packet m tsHead.toNat) k.toNat (readAt (packet m tsHead.toNat) j.toNat n.toNat) := by
  rw [memmove, toNat_end hroom hk, toNat_end hroom hj, packet_writeAt]
  refine congrArg (writeAt _ _) (readAt_eq_iff.mpr (fun i _ => ?_))
  rw [packet, Nat.add_assoc]

theorem inside_memmove (hroom : tsHead.toNat + 188 < 0x100000000) {k n : U32} (src : U32) (hk : k.toNat ≤ 188)
    (hn : k.toNat + n.toNat ≤ 188) : Inside tsHead.toNat m (memmove m (tsHead + k) src n) := by
  rw [memmove, toNat_end hroom hk]
  exact inside_writeAt (by rw [length_readAt]; exact hn)

/-! ## The branches -/

/-- The adaptation field control that is set. -/
def endFlag (endToAdd : U32) : U32 := if endToAdd + tsHeadSize = tsLen then tsAdaptAdaptOnly else tsAdaptBoth

/-- The last packet with its fourth byte set. -/
def marked (m : Mem) (dataEnd endToAdd : U32) : Mem :=
  disOrderCntEnd (setAdptFiled m (lastTsHead dataEnd endToAdd) (endFlag endToAdd)) (lastTsHead dataEnd endToAdd)

/-- The bytes to add are not bounded. -/
theorem not_clamped_field (hle : endToAdd.toNat ≤ 182) : ¬ endToAdd + tsHeadSize + tsMinPdSize > tsLen := by
  have hsum : endToAdd + tsHeadSize + tsMinPdSize = endToAdd + 6 := BitVec.add_assoc _ _ _
  have hsix : (6 : U32).toNat = 6 := rfl
  rw [hsum]
  refine Nat.not_lt.mpr ?_
  rw [BitVec.toNat_add_of_lt (by rw [hsix]; omega), hsix]
  exact Nat.add_le_add_right hle 6

section Branches

variable (h : InLast dataEnd endToAdd)
include h

theorem packet_marked (i : Nat) :
    packet (marked m dataEnd endToAdd) (lastTsHead dataEnd endToAdd).toNat i =
      if i = 3 then cntByte 3 (adptByte (endFlag endToAdd) (packet m (lastTsHead dataEnd endToAdd).toNat 3))
      else packet m (lastTsHead dataEnd endToAdd).toNat i := by
  have hroom := Nat.le_of_lt h.room
  rw [marked, disOrderCntEnd, packet_disOrderCntBy hroom, packet_setAdptFiled hroom]
  simp only [writeAt_single]
  by_cases h3 : i = 3
  · simp [h3]
  · simp [h3]

theorem inside_marked : Inside (lastTsHead dataEnd endToAdd).toNat m (marked m dataEnd endToAdd) :=
  (inside_setAdptFiled (Nat.le_of_lt h.room) _).trans (inside_disOrderCntBy (Nat.le_of_lt h.room) _)

theorem load_marked : load (marked m dataEnd endToAdd) (lastTsHead dataEnd endToAdd + tsPdSizePos) =
    packet m (lastTsHead dataEnd endToAdd).toNat 4 := by
  rw [load_cell (Nat.le_of_lt h.room) (k := tsPdSizePos) (by decide), packet_marked h]
  rfl

/-- The bytes that a field without items gets: at most the whole room behind the header. -/
theorem toNat_bounded : (if endToAdd + tsHeadSize > tsLen then tsLen - tsHeadSize else endToAdd).toNat =
    min endToAdd.toNat 184 := by
  have hfour : tsHeadSize.toNat = 4 := rfl
  have hle := h.le
  have hsum : (endToAdd + tsHeadSize).toNat = endToAdd.toNat + 4 := by
    rw [BitVec.toNat_add_of_lt (by rw [hfour]; omega), hfour]
  have hiff : endToAdd + tsHeadSize > tsLen ↔ 184 < endToAdd.toNat := by
    show tsLen.toNat < _ ↔ _
    rw [hsum]
    show 188 < endToAdd.toNat + 4 ↔ _
    omega
  by_cases hmore : 184 < endToAdd.toNat
  · rw [if_pos (hiff.mpr hmore), Nat.min_eq_right (Nat.le_of_lt hmore)]
    rfl
  · rw [if_neg (mt hiff.mp hmore), Nat.min_eq_left (Nat.not_lt.mp hmore)]

variable (hunit : unitStart (packet m (lastTsHead dataEnd endToAdd).toNat) = false)
include hunit

/-- The way through the function up to the branches. -/
theorem addTsEnd_eq :
    addTsEnd m dataEnd endToAdd = if hasAdaptation (packet m (lastTsHead dataEnd endToAdd).toNat) = true ∧
          packet m (lastTsHead dataEnd endToAdd).toNat 4 ≠ 0 then
        let endToAdd' :=
          if endToAdd + tsHeadSize + tsMinPdSize > tsLen then tsLen - (tsHeadSize + tsMinPdSize) else endToAdd
        let dataInLastTs := tsLen - (endToAdd' + tsHeadSize + tsMinPdSize)
        let m := memmove (marked m dataEnd endToAdd) (dataEnd + endToAdd' - dataInLastTs) (dataEnd - dataInLastTs)
          dataInLastTs
        let m := memset m (dataEnd - dataInLastTs) 0xff endToAdd'
        let sizePos := dataEnd - (dataInLastTs + tsMinPdSize)
        store m sizePos (load m sizePos + endToAdd'.setWidth 8)
      else
        let lastTsHead := lastTsHead dataEnd endToAdd
        let endToAdd' := if endToAdd + tsHeadSize > tsLen then tsLen - tsHeadSize else endToAdd
        let dataInLastTs := tsLen - (endToAdd' + tsHeadSize)
        let m := memmove (marked m dataEnd endToAdd) (lastTsHead + tsHeadSize + endToAdd') (lastTsHead + tsHeadSize)
          dataInLastTs
        let m := memset m (lastTsHead + tsHeadSize) 0xff endToAdd'
        let m := store m (lastTsHead + tsPdSizePos) ((endToAdd' - 1).setWidth 8)
        store m (lastTsHead + tsPdFlagPos) 0 := by
  have hroom := Nat.le_of_lt h.room
  have hno : ¬ load m (lastTsHead dataEnd endToAdd + 1) &&& 0x40 ≠ 0 := by
    rw [unitStart_iff hroom, hunit]
    exact Bool.false_ne_true
  rw [← load_marked h, ← haveAdapt_getAdptFiled hroom, addTsEnd, if_neg h.ne_zero]
  exact if_neg hno

/-- A field that is there becomes longer, where its items and the data behind have room. -/
theorem addTsEnd_field (hfield : hasAdaptation (packet m (lastTsHead dataEnd endToAdd).toNat) = true ∧
      packet m (lastTsHead dataEnd endToAdd).toNat 4 ≠ 0) (hle : endToAdd.toNat ≤ 182) :
    Inside (lastTsHead dataEnd endToAdd).toNat m (addTsEnd m dataEnd endToAdd) ∧
    ∀ i, packet (addTsEnd m dataEnd endToAdd) (lastTsHead dataEnd endToAdd).toNat i =
      if i = 3 then cntByte 3 (adptByte (endFlag endToAdd) (packet m (lastTsHead dataEnd endToAdd).toNat 3))
      else if i = 4 then packet m (lastTsHead dataEnd endToAdd).toNat 4 + endToAdd.setWidth 8
      else if 6 ≤ i ∧ i < 6 + endToAdd.toNat then 0xff
      else if 6 + endToAdd.toNat ≤ i ∧ i < 188 then packet m (lastTsHead dataEnd endToAdd).toNat (i - endToAdd.toNat)
      else packet m (lastTsHead dataEnd endToAdd).toNat i := by
  have hstrict := h.room
  have hroom := Nat.le_of_lt h.room
  have hdst : (endToAdd + 6).toNat = endToAdd.toNat + 6 :=
    BitVec.toNat_add_of_lt (Nat.lt_of_le_of_lt (Nat.add_le_add_right hle 6) (by decide))
  have hcount : (tsLen - (endToAdd + tsHeadSize + tsMinPdSize)).toNat = 182 - endToAdd.toNat := by
    have hsum : endToAdd + tsHeadSize + tsMinPdSize = endToAdd + 6 := BitVec.add_assoc _ _ _
    rw [BitVec.toNat_sub_of_le (Nat.not_lt.mp (not_clamped_field hle)), hsum, hdst]
    exact Nat.sub_add_eq 188 _ 6 ▸ (by omega)
  rw [addTsEnd_eq h hunit, if_pos hfield, if_neg (not_clamped_field hle)]
  dsimp only
  rw [dst_eq, src_eq, sizePos_eq]
  constructor
  · refine (inside_marked h).trans ((inside_memmove hstrict _ (by omega) (by omega)).trans
      ((inside_memset hroom (by decide) ?_ _).trans (inside_store hroom (by decide) _)))
    show 6 + endToAdd.toNat ≤ 188
    omega
  · intro i
    rw [packet_store hroom (k := tsPdSizePos) (by decide), load_cell hroom (k := tsPdSizePos) (by decide),
      packet_memset hroom (k := 6) (by decide), packet_memmove hstrict (by omega) (j := 6) (by decide),
      toNat_tsPdSizePos, hdst, hcount]
    show writeAt (writeAt (writeAt _ _ (readAt _ 6 _)) 6 _) 4 _ i = _
    simp only [writeAt_single, writeAt_replicate, writeAt_readAt, packet_marked h]
    grind

/-- A field without items is made, or made anew. -/
theorem addTsEnd_plain (hplain : ¬ (hasAdaptation (packet m (lastTsHead dataEnd endToAdd).toNat) = true ∧
      packet m (lastTsHead dataEnd endToAdd).toNat 4 ≠ 0)) :
    Inside (lastTsHead dataEnd endToAdd).toNat m (addTsEnd m dataEnd endToAdd) ∧
    ∀ i, packet (addTsEnd m dataEnd endToAdd) (lastTsHead dataEnd endToAdd).toNat i =
      if i = 3 then cntByte 3 (adptByte (endFlag endToAdd) (packet m (lastTsHead dataEnd endToAdd).toNat 3))
      else if i = 4 then BitVec.ofNat 8 (min endToAdd.toNat 184 - 1)
      else if i = 5 then 0
      else if 6 ≤ i ∧ i < 4 + min endToAdd.toNat 184 then 0xff
      else if 4 + min endToAdd.toNat 184 ≤ i ∧ i < 188 then
        packet m (lastTsHead dataEnd endToAdd).toNat (i - min endToAdd.toNat 184)
      else packet m (lastTsHead dataEnd endToAdd).toNat i := by
  have hstrict := h.room
  have hroom := Nat.le_of_lt h.room
  have hbounded := toNat_bounded h
  have hpos := h.pos
  rw [addTsEnd_eq h hunit, if_neg hplain]
  dsimp only
  generalize (if endToAdd + tsHeadSize > tsLen then tsLen - tsHeadSize else endToAdd) = added at hbounded ⊢
  have hfour : tsHeadSize.toNat = 4 := rfl
  have hdst : (tsHeadSize + added).toNat = 4 + added.toNat := BitVec.toNat_add_of_lt (by rw [hfour]; omega)
  have hcount : (tsLen - (added + tsHeadSize)).toNat = 184 - added.toNat := by
    have hle : added + tsHeadSize ≤ tsLen := by
      rw [BitVec.add_comm, BitVec.le_def, hdst]
      show 4 + added.toNat ≤ 188
      omega
    rw [BitVec.toNat_sub_of_le hle, BitVec.add_comm, hdst]
    exact Nat.add_sub_add_left 4 184 _
  have hlen : (added - 1).setWidth 8 = BitVec.ofNat 8 (added.toNat - 1) := by
    have hone : (1 : U32) ≤ added := by
      rw [BitVec.le_def]
      show 1 ≤ added.toNat
      omega
    apply BitVec.eq_of_toNat_eq
    rw [BitVec.toNat_setWidth, BitVec.toNat_sub_of_le hone, BitVec.toNat_ofNat]
    rfl
  rw [BitVec.add_assoc, hlen, ← hbounded]
  constructor
  · refine (inside_marked h).trans ((inside_memmove hstrict _ (by omega) (by omega)).trans
      ((inside_memset hroom (by decide) ?_ _).trans
        ((inside_store hroom (by decide) _).trans (inside_store hroom (by decide) _))))
    rw [hfour]
    omega
  · intro i
    rw [packet_store hroom (k := tsPdFlagPos) (by decide), packet_store hroom (k := tsPdSizePos) (by decide),
      packet_memset hroom (k := tsHeadSize) (by decide), packet_memmove hstrict (by omega) (by decide),
      toNat_tsPdSizePos, toNat_tsPdFlagPos, hdst, hcount, hfour]
    simp only [writeAt_single, writeAt_replicate, writeAt_readAt, packet_marked h]
    grind

/-- A field that is there, of which the bytes to add do not leave room for two bytes: no data is moved, and the bytes
    are taken from where the data ends. -/
theorem addTsEnd_clamped (hfield : hasAdaptation (packet m (lastTsHead dataEnd endToAdd).toNat) = true ∧
      packet m (lastTsHead dataEnd endToAdd).toNat 4 ≠ 0) (hge : 183 ≤ endToAdd.toNat) :
    addTsEnd m dataEnd endToAdd =
      let m' := memset (marked m dataEnd endToAdd) (lastTsHead dataEnd endToAdd + (188 - endToAdd)) 0xff 182
      store m' (lastTsHead dataEnd endToAdd + (186 - endToAdd))
        (load m' (lastTsHead dataEnd endToAdd + (186 - endToAdd)) + 182) := by
  have hle := h.le
  have hmore : endToAdd + tsHeadSize + tsMinPdSize > tsLen := by
    have hsum : endToAdd + tsHeadSize + tsMinPdSize = endToAdd + 6 := BitVec.add_assoc _ _ _
    have hsix : (6 : U32).toNat = 6 := rfl
    rw [hsum]
    show 188 < (endToAdd + 6).toNat
    rw [BitVec.toNat_add_of_lt (by rw [hsix]; omega), hsix]
    omega
  have hadded : tsLen - (tsHeadSize + tsMinPdSize) = 182 := rfl
  have hnone : tsLen - (182 + tsHeadSize + tsMinPdSize) = 0 := rfl
  have hmove : ∀ (m : Mem) (dst src : U32), memmove m dst src 0 = m := fun m dst src => writeAt_nil
  have hfrom : dataEnd - 0 = lastTsHead dataEnd endToAdd + (188 - endToAdd) :=
    (BitVec.sub_zero dataEnd).trans (dataEnd_eq dataEnd endToAdd)
  rw [addTsEnd_eq h hunit, if_pos hfield, if_pos hmore]
  dsimp only
  rw [hadded, hnone, hmove, hfrom, clampedPos_eq dataEnd endToAdd]
  rfl

end Branches

/-! ## What a parser finds -/

/-- Nothing outside the packet is written, its sync byte and PID stay, the adaptation field fits, and the payload is the
    part of the one before that is before the end of the data. -/
structure EndRight (head : Nat) (m m' : Mem) (added : Nat) : Prop where
  inside : Inside head m m'
  sync : packet m' head 0 = packet m head 0
  pid : pid (packet m' head) = pid (packet m head)
  fits : FieldFits (packet m' head)
  payload : payload (packet m' head) =
    readAt (packet m head) (payloadStart (packet m head)) (188 - added - payloadStart (packet m head))

/-- The packets whose end can be changed in this way.

    * With an adaptation field that is not empty, the field ends at the end of the data or before; without a payload, at
      the end of the data. Of five bytes of data, the counter decides whether the control bits become those of a packet
      without a payload; of fewer, the header is overwritten.
    * With a payload alone, a single byte moves the payload on by one, and the byte behind the length becomes 0.
    * Any other packet has no payload behind the header, and is right only if no data is left. -/
def EndKept (p : Packet) (added : Nat) : Prop :=
  if hasAdaptation p = true ∧ p 4 ≠ 0 then
    if added ≤ 182 then
      if hasPayload p = true then (p 4).toNat + added ≤ 183 else (p 4).toNat + added = 183
    else added = 183 ∧ (p 4).toNat ≤ 183 ∧ (((p 3).toNat + 3) % 16 < 10 ∨ (p 4).toNat = 183)
  else if hasPayload p = true ∧ hasAdaptation p = false then added = 1 → p 4 = 0
  else 184 ≤ added

/-- Of a packet whose header is kept, only the field and the payload are to be seen. -/
theorem endRight_iff {added : Nat} (hinside : Inside head m m')
    (hhead : ∀ i, i ≤ 2 → packet m' head i = packet m head i) :
    EndRight head m m' added ↔ FieldFits (packet m' head) ∧ payload (packet m' head) =
      readAt (packet m head) (payloadStart (packet m head)) (188 - added - payloadStart (packet m head)) :=
  ⟨fun hright => ⟨hright.fits, hright.payload⟩, fun hboth => ⟨hinside, hhead 0 (by decide),
    pid_congr (hhead 1 (by decide)) (hhead 2 (by decide)), hboth.1, hboth.2⟩⟩

theorem endFlag_eq (h : InLast dataEnd endToAdd) :
    endFlag endToAdd = if endToAdd.toNat = 184 then tsAdaptAdaptOnly else tsAdaptBoth := by
  have hle := h.le
  have hfour : tsHeadSize.toNat = 4 := rfl
  have hiff : endToAdd + tsHeadSize = tsLen ↔ endToAdd.toNat = 184 := by
    rw [← BitVec.toNat_inj, BitVec.toNat_add_of_lt (by rw [hfour]; omega), hfour]
    exact Nat.add_right_cancel_iff (n := 4) (m := endToAdd.toNat) (k := 184)
  rw [endFlag]
  simp only [hiff]

variable {p q : Packet} {n : Nat} {k b : Byte}

theorem hasAdaptation_of_flag {flag : U32} (h : q 3 = cntByte k (adptByte flag b)) :
    hasAdaptation q = flag.getLsbD 1 ∧ hasPayload q = flag.getLsbD 0 := by
  rw [hasAdaptation, hasPayload, h]
  exact getLsbD_both k b flag

/-- A field that becomes longer: it is to end at the end of the data at most. -/
theorem field_iff (hle : n ≤ 182) (hsome : p 4 ≠ 0) (ha : hasAdaptation p = true) (h : ∀ i, q i =
      if i = 3 then cntByte k (adptByte tsAdaptBoth b)
      else if i = 4 then p 4 + BitVec.ofNat 8 n
      else if 6 ≤ i ∧ i < 6 + n then 0xff
      else if 6 + n ≤ i ∧ i < 188 then p (i - n)
      else p i) :
    FieldFits q ∧ payload q = readAt p (payloadStart p) (188 - n - payloadStart p) ↔
      if hasPayload p = true then (p 4).toNat + n ≤ 183 else (p 4).toNat + n = 183 := by
  obtain ⟨haq, hpq⟩ := both_of_adptByte (h 3)
  have h4 : (q 4).toNat = ((p 4).toNat + n) % 256 := by
    rw [h 4]
    show (p 4 + BitVec.ofNat 8 n).toNat = _
    rw [BitVec.toNat_add, BitVec.toNat_ofNat, Nat.mod_eq_of_lt (a := n) (by omega)]
  have hlt := (p 4).isLt
  have hne : (p 4).toNat ≠ 0 := fun hzero => hsome (BitVec.eq_of_toNat_eq hzero)
  have hstart : payloadStart q = 5 + ((p 4).toNat + n) % 256 := by
    rw [payloadStart_both hpq haq, h4]
  have hfits : FieldFits q ↔ 5 + ((p 4).toNat + n) % 256 ≤ 188 := by
    rw [FieldFits, imp_iff_right haq, h4]
  rw [hfits, payload_of_payloadStart hstart]
  cases hp : hasPayload p with
  | true =>
    rw [payloadStart_both hp ha, if_pos rfl]
    constructor
    · rintro ⟨hfit, heq⟩
      have hlen := congrArg List.length heq
      rw [length_readAt, length_readAt] at hlen
      omega
    · intro hroom
      have hmod : ((p 4).toNat + n) % 256 = (p 4).toNat + n := Nat.mod_eq_of_lt (by omega)
      have hcount : 188 - n - (5 + (p 4).toNat) = 188 - (5 + ((p 4).toNat + n)) := by omega
      rw [hmod, hcount]
      refine ⟨by omega, readAt_eq_iff.mpr (fun i hi => ?_)⟩
      -- a cell of the data, moved on
      rw [h, if_neg (by omega), if_neg (by omega), if_neg (by omega), if_pos (by omega)]
      exact congrArg p (by omega)
  | false =>
    rw [payloadStart_none hp, if_neg Bool.false_ne_true]
    constructor
    · rintro ⟨hfit, heq⟩
      have hlen := congrArg List.length heq
      rw [length_readAt, length_readAt] at hlen
      omega
    · intro heq
      have hmod : ((p 4).toNat + n) % 256 = 183 := by rw [heq]
      rw [hmod]
      exact ⟨Nat.le_refl _, by rw [show 188 - n - 188 = 0 by omega]; rfl⟩

/-- A field that is made: its payload is what was behind the header. -/
theorem plain_iff (hpos : 1 ≤ n) (hle : n ≤ 188) (hplain : ¬ (hasAdaptation p = true ∧ p 4 ≠ 0)) (h : ∀ i, q i =
      if i = 3 then cntByte k (adptByte (if n = 184 then tsAdaptAdaptOnly else tsAdaptBoth) b)
      else if i = 4 then BitVec.ofNat 8 (min n 184 - 1)
      else if i = 5 then 0
      else if 6 ≤ i ∧ i < 4 + min n 184 then 0xff
      else if 4 + min n 184 ≤ i ∧ i < 188 then p (i - min n 184)
      else p i) :
    FieldFits q ∧ payload q = readAt p (payloadStart p) (188 - n - payloadStart p) ↔
      if hasPayload p = true ∧ hasAdaptation p = false then n = 1 → p 4 = 0 else 184 ≤ n := by
  have h4 : (q 4).toNat = min n 184 - 1 := by
    rw [h 4]
    show (BitVec.ofNat 8 (min n 184 - 1)).toNat = _
    rw [BitVec.toNat_ofNat, Nat.mod_eq_of_lt (by omega)]
  have hfits : FieldFits q := by
    intro _
    rw [h4]
    omega
  rw [and_iff_right hfits]
  obtain ⟨haq, hpq⟩ := hasAdaptation_of_flag (h 3)
  rcases Nat.lt_or_ge n 184 with hless | hmore
  · -- data is left: the payload of the packet is what was behind the header
    rw [if_neg (by omega)] at haq hpq
    rw [Nat.min_eq_left (Nat.le_of_lt hless)] at h h4
    have hstart : payloadStart q = 4 + n := by
      rw [payloadStart_both hpq haq, h4]
      omega
    rw [payload_of_payloadStart hstart]
    cases hp : hasPayload p with
    | false =>
      rw [payloadStart_none hp, if_neg fun hc => Bool.false_ne_true hc.1]
      refine iff_of_false (fun heq => ?_) (by omega)
      have hlen := congrArg List.length heq
      rw [length_readAt, length_readAt] at hlen
      omega
    | true =>
      cases ha : hasAdaptation p with
      | true =>
        have hzero : p 4 = 0 := by
          by_contra hne
          exact hplain ⟨ha, hne⟩
        have hfive : payloadStart p = 5 := by
          rw [payloadStart_both hp ha, hzero]
          rfl
        rw [hfive, if_neg fun hc => Bool.false_ne_true hc.2.symm]
        refine iff_of_false (fun heq => ?_) (by omega)
        have hlen := congrArg List.length heq
        rw [length_readAt, length_readAt] at hlen
        omega
      | false =>
        have hcount : 188 - n - 4 = 188 - (4 + n) := by omega
        rw [payloadStart_only hp ha, if_pos ⟨rfl, rfl⟩, hcount, readAt_eq_iff]
        constructor
        · rintro hcells rfl
          have hcell := hcells 0 (by decide)
          rw [h] at hcell
          exact hcell.symm
        · intro hone i hi
          by_cases hfirst : 4 + n + i = 5
          · -- the byte behind the length, which is set to 0
            obtain ⟨rfl, rfl⟩ : n = 1 ∧ i = 0 := by omega
            rw [h, hone rfl]
            rfl
          · rw [h, if_neg (by omega), if_neg (by omega), if_neg hfirst, if_neg (by omega), if_pos (by omega)]
            exact congrArg p (by omega)
  · -- no data is left, and no payload is found
    have hnone : 188 - n - payloadStart p = 0 := by
      have := payloadStart_ge (p := p)
      omega
    have hnil : payload q = [] := by
      rw [payload_eq_nil_iff]
      by_cases hall : n = 184
      · rw [if_pos hall] at hpq
        exact Nat.le_of_eq (payloadStart_none hpq).symm
      · rw [if_neg hall] at haq hpq
        rw [payloadStart_both hpq haq, h4, Nat.min_eq_right hmore]
    rw [hnone, hnil]
    refine iff_of_true rfl ?_
    split
    · exact fun hone => absurd hmore (by omega)
    · exact hmore

/-! ## Fewer than six bytes of data behind a field -/

theorem add_ne (v : Byte) : v + 182 ≠ v := by
  intro heq
  exact absurd (BitVec.add_right_eq_self.mp heq) (by decide)

theorem getLsbD_sum (b : Byte) : (cntByte 3 (adptByte tsAdaptBoth b) + 182).getLsbD 5 = true ∧
    (cntByte 3 (adptByte tsAdaptBoth b) + 182).getLsbD 4 = decide (10 ≤ (b.toNat + 3) % 16) := by
  revert b
  decide

theorem five_iff (h3 : q 3 = cntByte 3 (adptByte tsAdaptBoth b) + 182) (h4 : q 4 = p 4) :
    FieldFits q ∧ payload q = [] ↔ (p 4).toNat ≤ 183 ∧ ((b.toNat + 3) % 16 < 10 ∨ (p 4).toNat = 183) := by
  obtain ⟨hbit5, hbit4⟩ := getLsbD_sum b
  have haq : hasAdaptation q = true := by rw [hasAdaptation, h3, hbit5]
  have hpq : hasPayload q = decide (10 ≤ (b.toNat + 3) % 16) := by rw [hasPayload, h3, hbit4]
  have hfits : FieldFits q ↔ (p 4).toNat ≤ 183 := by
    rw [FieldFits, imp_iff_right haq, h4]
    omega
  rw [hfits, payload_eq_nil_iff]
  refine and_congr_right fun hle => ?_
  by_cases hcarry : 10 ≤ (b.toNat + 3) % 16
  · rw [payloadStart_both (by rw [hpq, decide_eq_true hcarry]) haq, h4]
    omega
  · rw [payloadStart_none (by rw [hpq, decide_eq_false hcarry])]
    exact iff_of_true (Nat.le_refl _) (.inl (Nat.not_le.mp hcarry))

section Clamped

variable (h : InLast dataEnd endToAdd) (hunit : unitStart (packet m (lastTsHead dataEnd endToAdd).toNat) = false)
  (hfield : hasAdaptation (packet m (lastTsHead dataEnd endToAdd).toNat) = true ∧
    packet m (lastTsHead dataEnd endToAdd).toNat 4 ≠ 0)
include h hunit hfield

/-- The length is added within the packet, while there are two bytes of data. -/
theorem packet_clamped (hge : 183 ≤ endToAdd.toNat) (hle : endToAdd.toNat ≤ 186) :
    Inside (lastTsHead dataEnd endToAdd).toNat m (addTsEnd m dataEnd endToAdd) ∧
    ∀ i, i ≤ 4 → packet (addTsEnd m dataEnd endToAdd) (lastTsHead dataEnd endToAdd).toNat i =
      if i = 186 - endToAdd.toNat then
        packet (marked m dataEnd endToAdd) (lastTsHead dataEnd endToAdd).toNat i + 182
      else if i < 188 - endToAdd.toNat then packet (marked m dataEnd endToAdd) (lastTsHead dataEnd endToAdd).toNat i
      else 0xff := by
  have hroom := Nat.le_of_lt h.room
  have hfrom : (188 - endToAdd).toNat = 188 - endToAdd.toNat := BitVec.toNat_sub_of_le (Nat.le_trans hle (by decide))
  have hsize : (186 - endToAdd).toNat = 186 - endToAdd.toNat := BitVec.toNat_sub_of_le hle
  rw [addTsEnd_clamped h hunit hfield hge]
  constructor
  · refine (inside_marked h).trans ((inside_memset hroom (by omega) ?_ _).trans (inside_store hroom (by omega) _))
    show _ + 182 ≤ 188
    omega
  · intro i hi
    rw [packet_store hroom (by omega), load_cell hroom (by omega), packet_memset hroom (by omega), hfrom, hsize]
    show writeAt (writeAt _ _ (List.replicate 182 _)) _ _ i = _
    simp only [writeAt_single, writeAt_replicate]
    grind

/-- The place of the length is before the packet. -/
theorem clamped_outside (hge : 187 ≤ endToAdd.toNat) :
    ¬ Inside (lastTsHead dataEnd endToAdd).toNat m (addTsEnd m dataEnd endToAdd) := by
  have hroom := h.room
  have hle := h.le
  have hfrom : (188 - endToAdd).toNat = 188 - endToAdd.toNat := BitVec.toNat_sub_of_le hle
  have hplace : (lastTsHead dataEnd endToAdd + (186 - endToAdd)).toNat < (lastTsHead dataEnd endToAdd).toNat ∨
      (lastTsHead dataEnd endToAdd).toNat + 188 ≤ (lastTsHead dataEnd endToAdd + (186 - endToAdd)).toNat := by
    have hsix : (186 : U32).toNat = 186 := rfl
    rw [BitVec.toNat_add, BitVec.toNat_sub, hsix]
    omega
  have hbefore : Inside (lastTsHead dataEnd endToAdd).toNat m
      (memset (marked m dataEnd endToAdd) (lastTsHead dataEnd endToAdd + (188 - endToAdd)) 0xff 182) := by
    refine (inside_marked h).trans (inside_memset (Nat.le_of_lt hroom) (by omega) ?_ _)
    show _ + 182 ≤ 188
    omega
  intro hinside
  have hcell := hinside _ hplace
  rw [addTsEnd_clamped h hunit hfield (Nat.le_trans (by decide) hge)] at hcell
  rw [store, writeAt_single, if_pos rfl, load, hbefore _ hplace] at hcell
  exact add_ne _ hcell

/-- Of two to four bytes, the sync byte or the PID is not the one before. -/
theorem clamped_header (hge : 184 ≤ endToAdd.toNat) (hle : endToAdd.toNat ≤ 186) :
    ¬ EndRight (lastTsHead dataEnd endToAdd).toNat m (addTsEnd m dataEnd endToAdd) endToAdd.toNat := by
  obtain ⟨-, hcells⟩ := packet_clamped h hunit hfield (Nat.le_of_succ_le hge) hle
  have hmarked := packet_marked (m := m) h
  intro hright
  obtain h184 | h185 | h186 : endToAdd.toNat = 184 ∨ endToAdd.toNat = 185 ∨ endToAdd.toNat = 186 := by omega
  · have hpid := hright.pid
    rw [pid, pid, hcells 1 (by decide), hcells 2 (by decide), hmarked, hmarked, h184] at hpid
    exact add_ne _ ((BitVec.append_right_inj _).mp hpid)
  · have hpid := hright.pid
    rw [pid, pid, hcells 1 (by decide), hcells 2 (by decide), hmarked, hmarked, h185] at hpid
    have hhigh := congrArg BitVec.toNat ((BitVec.append_left_inj _).mp hpid)
    change ((packet m (lastTsHead dataEnd endToAdd).toNat 1 + 182).setWidth 5).toNat = _ at hhigh
    rw [BitVec.toNat_setWidth, BitVec.toNat_setWidth, BitVec.toNat_add] at hhigh
    change (_ + 182) % 256 % 32 = _ at hhigh
    omega
  · have hsync := hright.sync
    rw [hcells 0 (by decide), hmarked, h186] at hsync
    exact add_ne _ hsync

/-- Of five bytes, the length is added to the fourth byte. -/
theorem clamped_five (h183 : endToAdd.toNat = 183) :
    EndRight (lastTsHead dataEnd endToAdd).toNat m (addTsEnd m dataEnd endToAdd) endToAdd.toNat ↔
      (packet m (lastTsHead dataEnd endToAdd).toNat 4).toNat ≤ 183 ∧
        (((packet m (lastTsHead dataEnd endToAdd).toNat 3).toNat + 3) % 16 < 10 ∨
          (packet m (lastTsHead dataEnd endToAdd).toNat 4).toNat = 183) := by
  obtain ⟨hinside, hcells⟩ := packet_clamped h hunit hfield (Nat.le_of_eq h183.symm) (h183 ▸ by decide)
  rw [h183] at hcells
  have hmarked := packet_marked (m := m) h
  have hhead : ∀ i, i ≤ 2 → packet (addTsEnd m dataEnd endToAdd) (lastTsHead dataEnd endToAdd).toNat i =
      packet m (lastTsHead dataEnd endToAdd).toNat i := by
    intro i hi
    rw [hcells i (by omega), if_neg (by omega), if_pos (by omega), hmarked, if_neg (by omega)]
  have h3 := hcells 3 (by decide)
  have h4 := hcells 4 (by decide)
  rw [hmarked, if_pos rfl, if_pos rfl, endFlag_eq h, h183, if_neg (by decide)] at h3
  rw [hmarked] at h4
  -- no data is before the end of the field
  have hstart : 5 ≤ payloadStart (packet m (lastTsHead dataEnd endToAdd).toNat) := by
    cases hp : hasPayload (packet m (lastTsHead dataEnd endToAdd).toNat) with
    | true =>
      rw [payloadStart_both hp hfield.1]
      exact Nat.le_add_right 5 _
    | false =>
      rw [payloadStart_none hp]
      decide
  have hnone : 188 - endToAdd.toNat - payloadStart (packet m (lastTsHead dataEnd endToAdd).toNat) = 0 := by omega
  rw [endRight_iff hinside hhead, hnone]
  exact five_iff h3 h4

/-- Of five bytes the result is right by chance, of fewer never. -/
theorem clamped_iff (hge : 183 ≤ endToAdd.toNat) :
    EndRight (lastTsHead dataEnd endToAdd).toNat m (addTsEnd m dataEnd endToAdd) endToAdd.toNat ↔
      endToAdd.toNat = 183 ∧ (packet m (lastTsHead dataEnd endToAdd).toNat 4).toNat ≤ 183 ∧
        (((packet m (lastTsHead dataEnd endToAdd).toNat 3).toNat + 3) % 16 < 10 ∨
          (packet m (lastTsHead dataEnd endToAdd).toNat 4).toNat = 183) := by
  by_cases h183 : endToAdd.toNat = 183
  · rw [clamped_five h hunit hfield h183, and_iff_right h183]
  · refine iff_of_false (fun hright => ?_) (fun hc => h183 hc.1)
    rcases Nat.lt_or_ge endToAdd.toNat 187 with hmost | hleast
    · exact clamped_header h hunit hfield (by omega) (Nat.le_of_lt_succ hmost) hright
    · exact clamped_outside h hunit hfield hleast hright.inside

end Clamped

/-! ## The end of a frame -/

/-- **The end of a frame**: the last packet is right exactly if it is one of those. -/
theorem addTsEnd_right_iff (m : Mem) (h : InLast dataEnd endToAdd)
    (hunit : unitStart (packet m (lastTsHead dataEnd endToAdd).toNat) = false) :
    EndRight (lastTsHead dataEnd endToAdd).toNat m (addTsEnd m dataEnd endToAdd) endToAdd.toNat ↔
      EndKept (packet m (lastTsHead dataEnd endToAdd).toNat) endToAdd.toNat := by
  have hflag := endFlag_eq h
  rw [EndKept]
  by_cases hfield : hasAdaptation (packet m (lastTsHead dataEnd endToAdd).toNat) = true ∧
      packet m (lastTsHead dataEnd endToAdd).toNat 4 ≠ 0
  · rw [if_pos hfield]
    by_cases hle : endToAdd.toNat ≤ 182
    · obtain ⟨hinside, hcells⟩ := addTsEnd_field h hunit hfield hle
      rw [hflag, if_neg (by omega), ← BitVec.ofNat_toNat] at hcells
      have hhead : ∀ i, i ≤ 2 → packet (addTsEnd m dataEnd endToAdd) (lastTsHead dataEnd endToAdd).toNat i =
          packet m (lastTsHead dataEnd endToAdd).toNat i := by
        intro i hi
        rw [hcells, if_neg (by omega), if_neg (by omega), if_neg (by omega), if_neg (by omega)]
      rw [if_pos hle, endRight_iff hinside hhead]
      exact field_iff hle hfield.2 hfield.1 hcells
    · rw [if_neg hle]
      exact clamped_iff h hunit hfield (Nat.not_le.mp hle)
  · obtain ⟨hinside, hcells⟩ := addTsEnd_plain h hunit hfield
    rw [hflag] at hcells
    have hhead : ∀ i, i ≤ 2 → packet (addTsEnd m dataEnd endToAdd) (lastTsHead dataEnd endToAdd).toNat i =
        packet m (lastTsHead dataEnd endToAdd).toNat i := by
      intro i hi
      rw [hcells, if_neg (by omega), if_neg (by omega), if_neg (by omega), if_neg (by omega), if_neg (by omega)]
    rw [if_neg hfield, endRight_iff hinside hhead]
    exact plain_iff h.pos h.le hfield hcells

/-- A packet of payload, with 88 bytes of data. -/
theorem addTsEnd_right_payload :
    InLast 88 100 ∧ unitStart (packet payloadPacket 0) = false ∧
      EndRight 0 payloadPacket (addTsEnd payloadPacket 88 100) 100 := by
  have hlast : InLast 88 100 := ⟨by decide, by decide, by decide, by decide⟩
  refine ⟨hlast, by decide, ?_⟩
  refine (addTsEnd_right_iff payloadPacket hlast (by decide)).mpr ?_
  rw [EndKept, if_neg (by decide), if_pos (by decide)]
  exact fun hone => absurd hone (by decide)

/-- A buffer of packets with a field. -/
def fieldPackets : Mem := fun x => samplePacket 0x30 7 0 (x % 188)

/-- **Ends that are wrong.** All but one byte of a packet of payload: the first byte becomes 0. Data that ends in the
    adaptation field: the length goes over the packet. An empty field: its length byte becomes payload. A frame that
    ends at the end of a packet, where the next one has a field: a byte of the packet before is changed. -/
theorem addTsEnd_wrong :
    (∀ control len flags, unitStart (packet (samplePacket control len flags) 0) = false) ∧
    (InLast 187 1 ∧ ¬ EndRight 0 payloadPacket (addTsEnd payloadPacket 187 1) 1) ∧
    (InLast 68 120 ∧ ¬ EndRight 0 (samplePacket 0x30 100 0) (addTsEnd (samplePacket 0x30 100 0) 68 120) 120) ∧
    (InLast 88 100 ∧ ¬ EndRight 0 (samplePacket 0x30 0 0) (addTsEnd (samplePacket 0x30 0 0) 88 100) 100) ∧
    (InLast 188 188 ∧ unitStart (packet fieldPackets 188) = false ∧
      ¬ EndRight 188 fieldPackets (addTsEnd fieldPackets 188 188) 188) := by
  refine ⟨unitStart_samplePacket, ⟨⟨by decide, by decide, by decide, by decide⟩, fun hright => ?_⟩,
    ⟨⟨by decide, by decide, by decide, by decide⟩, fun hright => ?_⟩,
    ⟨⟨by decide, by decide, by decide, by decide⟩, fun hright => ?_⟩,
    ⟨⟨by decide, by decide, by decide, by decide⟩, by decide, fun hright => ?_⟩⟩
  · exact absurd hright.payload (by decide)
  · exact absurd (hright.fits (by decide)) (by decide)
  · exact absurd hright.payload (by decide)
  · exact absurd (hright.inside 186 (.inl (by decide))) (by decide)

end HiSTB.Pvr.TsPatch
