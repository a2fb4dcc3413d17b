import HiSTB.Pvr.TsPatch
import HiSTB.Lib.TsPacket

/-!
# `Pvr.Correctness.TsHead` — the first packet of a frame

`PVRPlaySetTsHead` makes the bytes before the data an adaptation field. A field that is there keeps its flags, while its
items are overwritten; a position before the end of the header is taken for the one behind the field's length.

* `packet_setTsHead_field`, `packet_setTsHead_length` — the packet, cell by cell;
* `HeadRight` — the payload from the position on, the PID, and the items that the flags announce;
* `setTsHead_right_iff` — the exact condition (`HeadKept`), for every packet and every position.
-/

namespace HiSTB.Pvr.TsPatch

open Lib Lib.TsPacket
open TsQueue (Byte)

variable {m : Mem} {tsHead pos : U32}

variable {k : U32} {i : Nat} {b : Byte}

/-! ## A packet in the buffer -/

/-- The packet at an offset. -/
def packet (m : Mem) (head : Nat) : Packet := fun i => m (head + i)

theorem packet_writeAt (m : Mem) (head k : Nat) (bs : List Byte) :
    packet (writeAt m (head + k) bs) head = writeAt (packet m head) k bs := by
  funext i
  rw [packet, writeAt, writeAt, packet, Nat.add_sub_add_left]
  simp only [Nat.add_le_add_iff_left]

theorem toNat_cell (hroom : tsHead.toNat + 188 ≤ 0x100000000) (hk : k.toNat < 188) :
    (tsHead + k).toNat = tsHead.toNat + k.toNat := by
  rw [BitVec.toNat_add, Nat.mod_eq_of_lt (by omega)]

theorem load_cell (hroom : tsHead.toNat + 188 ≤ 0x100000000) (hk : k.toNat < 188) :
    load m (tsHead + k) = packet m tsHead.toNat k.toNat := by
  rw [load, toNat_cell hroom hk, packet]

theorem packet_store (hroom : tsHead.toNat + 188 ≤ 0x100000000) (hk : k.toNat < 188) (v : Byte) :
    packet (store m (tsHead + k) v) tsHead.toNat = writeAt (packet m tsHead.toNat) k.toNat [v] := by
  rw [store, toNat_cell hroom hk, packet_writeAt]

theorem packet_memset (hroom : tsHead.toNat + 188 ≤ 0x100000000) (hk : k.toNat < 188) (v : Byte) (n : U32) :
    packet (memset m (tsHead + k) v n) tsHead.toNat =
      writeAt (packet m tsHead.toNat) k.toNat (List.replicate n.toNat v) := by
  rw [memset, toNat_cell hroom hk, packet_writeAt]

/-! ## The fourth byte -/

/-- The byte with these bits of the adaptation field control. -/
def adptByte (flag : U32) (b : Byte) : Byte := (b &&& (0xcf : Byte)) ||| ((flag &&& 3) <<< 4).setWidth 8

/-- The byte with its counter moved on. -/
def cntByte (k : Byte) (b : Byte) : Byte := (b &&& 0xf0) ||| (((b &&& 0xf) + k) &&& 0xf)

theorem packet_setAdptFiled (hroom : tsHead.toNat + 188 ≤ 0x100000000) (m : Mem) (flag : U32) :
    packet (setAdptFiled m tsHead flag) tsHead.toNat =
      writeAt (packet m tsHead.toNat) 3 [adptByte flag (packet m tsHead.toNat 3)] := by
  have hload : load m (tsHead + 3) = packet m tsHead.toNat 3 := load_cell hroom (k := 3) (by decide)
  rw [setAdptFiled, hload]
  exact packet_store hroom (k := 3) (by decide) _

theorem packet_disOrderCntBy (hroom : tsHead.toNat + 188 ≤ 0x100000000) (k : Byte) (m : Mem) :
    packet (disOrderCntBy k m tsHead) tsHead.toNat =
      writeAt (packet m tsHead.toNat) 3 [cntByte k (packet m tsHead.toNat 3)] := by
  have hload : load m (tsHead + 3) = packet m tsHead.toNat 3 := load_cell hroom (k := 3) (by decide)
  rw [disOrderCntBy, hload]
  exact packet_store hroom (k := 3) (by decide) _

theorem haveAdapt_getAdptFiled (hroom : tsHead.toNat + 188 ≤ 0x100000000) :
    tsAdaptHaveAdapt (getAdptFiled m tsHead) = hasAdaptation (packet m tsHead.toNat) := by
  have hbit : ∀ b : Byte, tsAdaptHaveAdapt ((b >>> 4) &&& 3) = b.getLsbD 5 := by decide
  have hload : load m (tsHead + 3) = packet m tsHead.toNat 3 := load_cell hroom (k := 3) (by decide)
  rw [getAdptFiled, hload, hbit, hasAdaptation]

theorem unitStart_iff (hroom : tsHead.toNat + 188 ≤ 0x100000000) :
    load m (tsHead + 1) &&& 0x40 ≠ 0 ↔ unitStart (packet m tsHead.toNat) = true := by
  have hbit : ∀ b : Byte, b &&& 0x40 ≠ 0 ↔ b.getLsbD 6 = true := by decide
  have hload : load m (tsHead + 1) = packet m tsHead.toNat 1 := load_cell hroom (k := 1) (by decide)
  rw [hload, hbit, unitStart]

theorem getLsbD_cntByte (k b : Byte) (hlow : (0xf : Byte).getLsbD i = false)
    (hhigh : (0xf0 : Byte).getLsbD i = true) : (cntByte k b).getLsbD i = b.getLsbD i := by
  rw [cntByte, BitVec.getLsbD_or, BitVec.getLsbD_and, BitVec.getLsbD_and, hlow, hhigh, Bool.and_true, Bool.and_false,
    Bool.or_false]

/-- The control bits are the flag. -/
theorem getLsbD_adptByte (flag : U32) (b : Byte) (hclear : (0xcf : Byte).getLsbD (4 + i) = false)
    (hflag : (3 : U32).getLsbD i = true) (hi : 4 + i < 8) : (adptByte flag b).getLsbD (4 + i) = flag.getLsbD i := by
  rw [adptByte, BitVec.getLsbD_or, BitVec.getLsbD_and, hclear, Bool.and_false, Bool.false_or, BitVec.getLsbD_setWidth,
    BitVec.getLsbD_shiftLeft, BitVec.getLsbD_and, Nat.add_sub_cancel_left, hflag, Bool.and_true, decide_eq_true hi,
    decide_eq_true (Nat.lt_of_lt_of_le hi (by decide)), decide_eq_false (Nat.not_lt.mpr (Nat.le_add_right 4 i))]
  rfl

theorem getLsbD_both (k b : Byte) (flag : U32) :
    (cntByte k (adptByte flag b)).getLsbD 5 = flag.getLsbD 1 ∧
      (cntByte k (adptByte flag b)).getLsbD 4 = flag.getLsbD 0 := by
  constructor
  · rw [getLsbD_cntByte _ _ (by decide) (by decide)]
    exact getLsbD_adptByte flag b (i := 1) (by decide) (by decide) (by decide)
  · rw [getLsbD_cntByte _ _ (by decide) (by decide)]
    exact getLsbD_adptByte flag b (i := 0) (by decide) (by decide) (by decide)

/-! ## The patched packet -/

theorem toNat_tsPdSizePos : tsPdSizePos.toNat = 4 := rfl

theorem toNat_tsPdFlagPos : tsPdFlagPos.toNat = 5 := rfl

theorem tsHeadSize_ne (hne : pos.toNat ≠ 4) : tsHeadSize ≠ pos := fun heq => hne (heq ▸ rfl)

section Head

variable (hroom : tsHead.toNat + 188 ≤ 0x100000000) (hunit : unitStart (packet m tsHead.toNat) = false)
include hroom hunit

/-- At most one byte is before the data: the field is empty. -/
theorem packet_setTsHead_length (hne : pos.toNat ≠ 4) (hlt : pos.toNat < 6) (i : Nat) :
    packet (setTsHead m tsHead pos) tsHead.toNat i =
      if i = 3 then cntByte 5 (adptByte tsAdaptBoth (packet m tsHead.toNat 3))
      else if i = 4 then 0
      else packet m tsHead.toNat i := by
  have hless : ¬ pos ≥ tsHeadSize + tsMinPdSize := Nat.not_le.mpr hlt
  have hno : ¬ load m (tsHead + 1) &&& 0x40 ≠ 0 := by
    rw [unitStart_iff hroom, hunit]
    exact Bool.false_ne_true
  rw [setTsHead, if_neg (tsHeadSize_ne hne), if_neg hno, if_neg hless]
  rw [disOrderCnt, packet_disOrderCntBy hroom, packet_store hroom (k := tsPdSizePos) (by decide),
    packet_setAdptFiled hroom, toNat_tsPdSizePos]
  simp only [writeAt_single]
  by_cases h3 : i = 3
  · simp [h3]
  · simp [h3]

/-- More bytes are before the data: the field has them, and keeps the flags of one that was there. -/
theorem packet_setTsHead_field (hge : 6 ≤ pos.toNat) (i : Nat) :
    packet (setTsHead m tsHead pos) tsHead.toNat i =
      if i = 3 then cntByte 5 (adptByte tsAdaptBoth (packet m tsHead.toNat 3))
      else if i = 4 then (pos - 5).setWidth 8
      else if i = 5 then (if hasAdaptation (packet m tsHead.toNat) = true then packet m tsHead.toNat 5 else 0)
      else if 6 ≤ i ∧ i < pos.toNat then 0xff
      else packet m tsHead.toNat i := by
  have hmore : pos ≥ tsHeadSize + tsMinPdSize := hge
  have hno : ¬ load m (tsHead + 1) &&& 0x40 ≠ 0 := by
    rw [unitStart_iff hroom, hunit]
    exact Bool.false_ne_true
  have hsix : tsHead + tsHeadSize + tsMinPdSize = tsHead + 6 := BitVec.add_assoc _ _ _
  have hcount : (pos - (tsHeadSize + tsMinPdSize)).toNat = pos.toNat - 6 := BitVec.toNat_sub_of_le hmore
  have hend : 6 + (pos.toNat - 6) = pos.toNat := Nat.add_sub_cancel' hge
  rw [setTsHead, if_neg (tsHeadSize_ne (by omega)), if_neg hno, if_pos hmore]
  rw [disOrderCnt, packet_disOrderCntBy hroom, hsix, packet_memset hroom (k := 6) (by decide), hcount,
    haveAdapt_getAdptFiled hroom]
  cases hasAdaptation (packet m tsHead.toNat) with
  | true =>
    rw [if_pos rfl, if_pos rfl, packet_store hroom (k := tsPdSizePos) (by decide), packet_setAdptFiled hroom,
      toNat_tsPdSizePos]
    show writeAt (writeAt (writeAt _ 4 [(pos - 5).setWidth 8]) 6 _) 3 _ i = _
    simp only [writeAt_single, writeAt_replicate, hend]
    grind
  | false =>
    rw [if_neg Bool.false_ne_true, if_neg Bool.false_ne_true, packet_store hroom (k := tsPdFlagPos) (by decide),
      packet_store hroom (k := tsPdSizePos) (by decide), packet_setAdptFiled hroom, toNat_tsPdSizePos,
        toNat_tsPdFlagPos]
    show writeAt (writeAt (writeAt (writeAt _ 4 [(pos - 5).setWidth 8]) 5 _) 6 _) 3 _ i = _
    simp only [writeAt_single, writeAt_replicate, hend]
    grind

end Head

/-! ## What a parser finds -/

/-- A parser finds the data from the position on, the same PID, and no item that was not there. -/
structure HeadRight (p q : Packet) (pos : Nat) : Prop where
  payload : payload q = if pos ≤ 4 then payload p else readAt p pos (188 - pos)
  pid : pid q = pid p
  items : ∀ x ∈ items q, x ∈ items p

/-- The packets whose head can be changed in this way. Before the end of the header, the adaptation field is there and
    is empty. Behind it, the items of a field are all ones up to the data; an empty one has no flags, and the first byte
    of the data announces no item. -/
def HeadKept (p : Packet) (pos : Nat) : Prop :=
  if pos < 4 then hasPayload p = true ∧ hasAdaptation p = true ∧ p 4 = 0
  else
    6 ≤ pos → hasAdaptation p = true →
      if p 4 = 0 then announced p = []
      else ∀ i, 6 ≤ i → i < itemsEnd p (announced p) 6 → i < pos → p i = 0xff

variable {p q : Packet} {n : Nat}

theorem pid_congr (h1 : q 1 = p 1) (h2 : q 2 = p 2) : pid q = pid p := by
  rw [pid, pid, h1, h2]

theorem both_of_adptByte {k : Byte} (h : q 3 = cntByte k (adptByte tsAdaptBoth b)) :
    hasAdaptation q = true ∧ hasPayload q = true := by
  obtain ⟨h5, h4⟩ := getLsbD_both k b tsAdaptBoth
  rw [hasAdaptation, hasPayload, h, h5, h4]
  exact ⟨rfl, rfl⟩

/-- With an empty field: the payload is that behind the length byte. -/
theorem headRight_length_iff {k : Byte} (h : ∀ i, q i =
      if i = 3 then cntByte k (adptByte tsAdaptBoth b) else if i = 4 then 0 else p i) :
    HeadRight p q n ↔ readAt p 5 183 = if n ≤ 4 then payload p else readAt p n (188 - n) := by
  obtain ⟨ha, hp⟩ := both_of_adptByte (h 3)
  have h4 : q 4 = 0 := h 4
  have hstart : payloadStart q = 5 := by
    rw [payloadStart_both hp ha, h4]
    rfl
  have hpayload : payload q = readAt p 5 183 := by
    rw [payload_of_payloadStart hstart]
    refine readAt_congr (fun i hge _ => ?_)
    rw [h, if_neg (by omega), if_neg (by omega)]
  constructor
  · intro hright
    rw [← hpayload, hright.payload]
  · intro heq
    refine ⟨?_, pid_congr (h 1) (h 2), ?_⟩
    · rw [hpayload, heq]
    · rw [items_of_empty h4]
      exact fun x hx => absurd hx List.not_mem_nil

/-- The payload begins at 5 exactly if there is a field and it is empty. -/
theorem payload_eq_iff : readAt p 5 183 = payload p ↔ hasPayload p = true ∧ hasAdaptation p = true ∧ p 4 = 0 := by
  constructor
  · intro heq
    have hlen := congrArg List.length heq
    rw [length_readAt, length_payload] at hlen
    cases hp : hasPayload p with
    | false =>
      rw [payloadStart_none hp] at hlen
      exact absurd hlen (by decide)
    | true =>
      cases ha : hasAdaptation p with
      | false =>
        rw [payloadStart_only hp ha] at hlen
        exact absurd hlen (by decide)
      | true =>
        rw [payloadStart_both hp ha] at hlen
        refine ⟨rfl, rfl, BitVec.eq_of_toNat_eq ?_⟩
        show (p 4).toNat = 0
        omega
  · rintro ⟨hp, ha, h4⟩
    have hstart : payloadStart p = 5 := by
      rw [payloadStart_both hp ha, h4]
      rfl
    rw [payload_of_payloadStart hstart]

/-- With a field up to the data: the payload is right, and it is about the items. -/
theorem headRight_field_iff {k len : Byte} (hn : 6 ≤ n) (hlen : len.toNat = n - 5)
    (h : ∀ i, q i = if i = 3 then cntByte k (adptByte tsAdaptBoth b) else if i = 4 then len
      else if i = 5 then (if hasAdaptation p = true then p 5 else 0)
      else if 6 ≤ i ∧ i < n then 0xff
      else p i) :
    HeadRight p q n ↔ HeadKept p n := by
  obtain ⟨ha, hp⟩ := both_of_adptByte (h 3)
  have h4 : q 4 = len := h 4
  have h5 : q 5 = if hasAdaptation p = true then p 5 else 0 := h 5
  have hne : q 4 ≠ 0 := by
    intro hzero
    rw [← h4, hzero] at hlen
    change 0 = n - 5 at hlen
    omega
  have hpayload : payload q = readAt p n (188 - n) := by
    have hstart : payloadStart q = n := by
      rw [payloadStart_both hp ha, h4, hlen]
      omega
    rw [payload_of_payloadStart hstart]
    refine readAt_congr (fun i hge _ => ?_)
    rw [h, if_neg (by omega), if_neg (by omega), if_neg (by omega), if_neg (by omega)]
  have hright : HeadRight p q n ↔ ∀ x ∈ itemsFrom q (announced q) 6, x ∈ items p := by
    rw [← items_of_field ha hne]
    refine ⟨fun hright => hright.items, fun hitems => ⟨?_, pid_congr (h 1) (h 2), hitems⟩⟩
    rw [hpayload, if_neg (by omega)]
  rw [hright, HeadKept, if_neg (by omega)]
  cases hfield : hasAdaptation p with
  | false =>
    rw [hfield] at h5
    rw [announced_of_zero h5]
    exact iff_of_true (fun x hx => absurd hx List.not_mem_nil) (fun _ hf => absurd hf Bool.false_ne_true)
  | true =>
    rw [hfield, if_pos rfl] at h5
    rw [announced_congr h5, imp_iff_right hn, imp_iff_right rfl]
    split
    · next hzero =>
      have hnil : itemsFrom q (announced p) 6 = [] ↔ announced p = [] := itemsFrom_eq_nil_iff
      rw [items_of_empty hzero, ← hnil, List.eq_nil_iff_forall_not_mem]
      exact forall_congr' fun x => imp_congr_right fun _ => iff_of_eq (eq_false List.not_mem_nil)
    · next hsome =>
      rw [items_of_field hfield hsome, subset_itemsFrom_iff announced_nodup]
      refine forall_congr' fun i => imp_congr_right fun hge => imp_congr_right fun _ => ?_
      rw [h, if_neg (by omega), if_neg (by omega), if_neg (by omega)]
      by_cases hin : i < n
      · rw [if_pos ⟨hge, hin⟩, imp_iff_right hin, eq_comm]
      · rw [if_neg fun hc => hin hc.2]
        exact iff_of_true rfl (fun hc => absurd hc hin)

/-- **The head of a frame**: what a parser finds is right exactly if the packet is one of those. -/
theorem setTsHead_right_iff (m : Mem) {tsHead dataStartPos : U32} (hroom : tsHead.toNat + 188 ≤ 0x100000000)
    (hunit : unitStart (packet m tsHead.toNat) = false) (hlt : dataStartPos.toNat < 188) :
    HeadRight (packet m tsHead.toNat) (packet (setTsHead m tsHead dataStartPos) tsHead.toNat) dataStartPos.toNat ↔
      HeadKept (packet m tsHead.toNat) dataStartPos.toNat := by
  by_cases hfour : dataStartPos.toNat = 4
  · obtain rfl : tsHeadSize = dataStartPos := BitVec.eq_of_toNat_eq hfour.symm
    rw [setTsHead, if_pos rfl]
    exact iff_of_true ⟨rfl, rfl, fun _ hx => hx⟩ (fun hge => absurd hge (by decide))
  · rcases Nat.lt_or_ge dataStartPos.toNat 6 with hless | hmore
    · rw [headRight_length_iff (packet_setTsHead_length hroom hunit hfour hless), HeadKept]
      by_cases hbefore : dataStartPos.toNat < 4
      · rw [if_pos (Nat.le_of_lt hbefore), if_pos hbefore, payload_eq_iff]
      · obtain hfive : dataStartPos.toNat = 5 := by omega
        rw [hfive]
        exact iff_of_true rfl (fun hge => absurd hge (by decide))
    · refine headRight_field_iff hmore ?_ (packet_setTsHead_field hroom hunit hmore)
      have hle : (5 : U32) ≤ dataStartPos := Nat.le_of_succ_le hmore
      rw [BitVec.toNat_setWidth, BitVec.toNat_sub_of_le hle]
      exact Nat.mod_eq_of_lt (Nat.lt_of_le_of_lt (Nat.sub_le _ _) (by omega))

/-- A packet with these bytes for the control, the length and the flags of the adaptation field; no unit starts in
    it. -/
def samplePacket (control len flags : Byte) : Mem := fun i =>
  if i = 0 then 0x47 else if i = 3 then control else if i = 4 then len else if i = 5 then flags else 0x15

theorem unitStart_samplePacket (control len flags : Byte) :
    unitStart (packet (samplePacket control len flags) 0) = false := by
  show BitVec.getLsbD (0x15 : Byte) 6 = false
  decide

/-- A packet with a payload alone. -/
def payloadPacket : Mem := samplePacket 0x10 0x15 0x15

/-- A new head before a payload alone. -/
theorem setTsHead_right_payload :
    unitStart (packet payloadPacket 0) = false ∧ payloadStart (packet payloadPacket 0) = 4 ∧
      HeadRight (packet payloadPacket 0) (packet (setTsHead payloadPacket 0 20) 0) 20 := by
  refine ⟨rfl, rfl, ?_⟩
  exact (@setTsHead_right_iff payloadPacket 0 20 (by decide) rfl (by decide)).mpr
    (fun _ hfield => absurd hfield (by decide))

/-- **Heads that are wrong.** A field with a PCR keeps the flag, and the PCR becomes ones; so does an empty field whose
    payload begins with the byte 0x10; a frame at the start of a packet without a field loses the first byte of the
    payload. -/
theorem setTsHead_wrong :
    (∀ control len flags, unitStart (packet (samplePacket control len flags) 0) = false) ∧
    (payloadStart (packet (samplePacket 0x30 7 0x10) 0) = 12 ∧
      ¬ HeadRight (packet (samplePacket 0x30 7 0x10) 0) (packet (setTsHead (samplePacket 0x30 7 0x10) 0 20) 0) 20) ∧
    (payloadStart (packet (samplePacket 0x30 0 0x10) 0) = 5 ∧
      ¬ HeadRight (packet (samplePacket 0x30 0 0x10) 0) (packet (setTsHead (samplePacket 0x30 0 0x10) 0 20) 0) 20) ∧
    (payloadStart (packet payloadPacket 0) = 4 ∧
      ¬ HeadRight (packet payloadPacket 0) (packet (setTsHead payloadPacket 0 0) 0) 0) := by
  refine ⟨unitStart_samplePacket, ⟨rfl, fun hright => ?_⟩, ⟨rfl, fun hright => ?_⟩, ⟨rfl, fun hright => ?_⟩⟩
  · have hpcr := hright.items (.pcr, List.replicate 6 0xff) (by decide)
    exact absurd hpcr (by decide)
  · have hpcr := hright.items (.pcr, List.replicate 6 0xff) (by decide)
    exact absurd hpcr (by decide)
  · have hlen := congrArg List.length hright.payload
    exact absurd hlen (by decide +kernel)

end HiSTB.Pvr.TsPatch
