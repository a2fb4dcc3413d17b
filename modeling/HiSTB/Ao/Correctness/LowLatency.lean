import HiSTB.Ao.LowLatency
import Mathlib.Algebra.Group.Nat.Defs
import Mathlib.Data.List.Forall2

/-!
# `Ao.Correctness.LowLatency` — a frame goes into the ring whole, or not at all

The latency keeps the ring from running over: what is in the ring and the frame are together less than its size. The sum
is one of 32 bits, so this is shown for frames that do not make it wrap.

* `Appends` — bytes are put behind those in the ring, `write_appends`;
* `lowlatencySendData_whole` — a frame for the ring of a track;
* `sndDmaSendData_whole` — a frame for the rings of all ports.
-/

namespace HiSTB.Ao

open Lib

variable {r t : Ring} {src : Option (Nat → Byte)} {len : U32} {bytes : Nat → Byte} {f : FrameInfo} {n : Nat}

variable {p pos g k : Nat} {l₀ l₁ : U32} {m : Nat → Byte}

/-- Both positions are inside the ring. -/
structure Ok (r : Ring) : Prop where
  rptr : r.rptr.toNat < r.size.toNat
  wptr : r.wptr.toNat < r.size.toNat

/-- How much is in the ring. -/
def Ring.busy (r : Ring) : Nat :=
  if r.rptr.toNat ≤ r.wptr.toNat then r.wptr.toNat - r.rptr.toNat else r.size.toNat + r.wptr.toNat - r.rptr.toNat

/-- The bytes that are written: those of the buffer, or silence. -/
def bytesOf (src : Option (Nat → Byte)) : Nat → Byte := src.getD (fun _ => 0)

/-- **The bytes are put behind those in the ring**, and the unread ones stay. -/
structure Appends (r t : Ring) (bytes : Nat → Byte) (n : Nat) : Prop where
  stored : ∀ i, i < n → t.buf ((r.wptr.toNat + i) % r.size.toNat) = bytes i
  kept : ∀ i, i < r.busy → t.buf ((r.rptr.toNat + i) % r.size.toNat) = r.buf ((r.rptr.toNat + i) % r.size.toNat)
  wptr : t.wptr.toNat = (r.wptr.toNat + n) % r.size.toNat
  busy : t.busy = r.busy + n
  rptr : t.rptr = r.rptr
  size : t.size = r.size

theorem mod_around {s : Nat} (h : p < 2 * s) : p % s = if p < s then p else p - s := by
  split
  · rename_i hlt
    exact Nat.mod_eq_of_lt hlt
  · rename_i hge
    rw [Nat.mod_eq_sub_mod (Nat.not_lt.mp hge), Nat.mod_eq_of_lt (by omega)]

theorem trackMmapBufQueryBusy_toNat (h : Ok r) : r.trackMmapBufQueryBusy.toNat = r.busy := by
  have hr := h.rptr
  have hw := h.wptr
  have hs := r.size.isLt
  unfold Ring.trackMmapBufQueryBusy Ring.busy
  by_cases hle : r.rptr.toNat ≤ r.wptr.toNat
  · rw [if_pos (BitVec.le_def.mpr hle), if_pos hle, BitVec.toNat_sub]
    omega
  · rw [if_neg (mt BitVec.le_def.mp hle), if_neg hle, BitVec.toNat_sub, BitVec.toNat_sub]
    omega

theorem dmaPortQueryBusy_toNat (h : Ok r) : r.dmaPortQueryBusy.toNat = r.busy := by
  have hr := h.rptr
  have hw := h.wptr
  have hs := r.size.isLt
  unfold Ring.dmaPortQueryBusy Ring.busy
  by_cases hle : r.rptr.toNat ≤ r.wptr.toNat
  · rw [if_pos (BitVec.le_def.mpr hle), if_pos hle, BitVec.toNat_sub]
    omega
  · rw [if_neg (mt BitVec.le_def.mp hle), if_neg hle, BitVec.toNat_sub, BitVec.toNat_add]
    omega

/-! ## One write -/

theorem turn_buf {off : Nat} {pos k : U32} :
    (r.turn src off pos k).buf = writeAt r.buf pos.toNat (piece (bytesOf src) off k.toNat) := by
  cases src with
  | none =>
    have hzero : List.replicate k.toNat (0 : Byte) = piece (bytesOf none) off k.toNat := by
      simp [piece, bytesOf]
    exact congrArg (writeAt r.buf pos.toNat) hzero
  | some f => rfl

theorem write_snd : (r.write src len).2 = len := by
  show (r.wtLen len).1 + (r.wtLen len).2 = len
  unfold Ring.wtLen
  split
  · split
    · exact BitVec.add_zero len
    · rw [BitVec.add_comm, BitVec.sub_add_cancel]
  · exact BitVec.add_zero len

/-- A write in one piece, which may be empty. -/
theorem write_straight (hlen : r.wtLen len = (len, 0)) : (r.write src len).1 = { r with
      buf := writeAt r.buf r.wptr.toNat (piece (bytesOf src) 0 len.toNat)
      wptr := if r.wptr + len = r.size then 0 else r.wptr + len } := by
  have hturns : r.turns src len =
      { r with buf := writeAt r.buf r.wptr.toNat (piece (bytesOf src) 0 len.toNat), wptr := r.wptr + len } := by
    unfold Ring.turns
    rw [hlen]
    by_cases h0 : len = 0
    · rw [if_pos h0, h0, show (0 : U32).toNat = 0 from rfl, piece_zero, writeAt_nil]
      exact congrArg (fun w => ({ r with wptr := w } : Ring)) (BitVec.add_zero r.wptr).symm
    · rw [if_neg h0, if_pos rfl, ← turn_buf]
      rfl
  unfold Ring.write
  rw [hturns]

/-- A write in two pieces. -/
theorem write_around (hlen : r.wtLen len = (l₀, l₁)) (h₀ : l₀ ≠ 0) (h₁ : l₁ ≠ 0) : (r.write src len).1 =
    { r with
      buf := writeAt (writeAt r.buf r.wptr.toNat (piece (bytesOf src) 0 l₀.toNat)) 0
        (piece (bytesOf src) l₀.toNat l₁.toNat)
      wptr := if l₁ = r.size then 0 else l₁ } := by
  have hturns : r.turns src len = { r with
        buf := writeAt (writeAt r.buf r.wptr.toNat (piece (bytesOf src) 0 l₀.toNat)) 0
          (piece (bytesOf src) l₀.toNat l₁.toNat)
        wptr := l₁ } := by
    have hbuf : ((r.turn src 0 r.wptr l₀).turn src l₀.toNat 0 l₁).buf =
        writeAt (writeAt r.buf r.wptr.toNat (piece (bytesOf src) 0 l₀.toNat)) 0
          (piece (bytesOf src) l₀.toNat l₁.toNat) := by
      rw [turn_buf, turn_buf]
      rfl
    unfold Ring.turns
    rw [hlen, if_neg h₀, if_neg h₁, ← hbuf]
    exact congrArg (fun w => ({ r with buf := _, wptr := w } : Ring)) (BitVec.zero_add l₁)
  unfold Ring.write
  rw [hturns]

theorem length_piece (g k : Nat) : (piece bytes g k).length = k := by
  unfold piece
  rw [List.length_map, List.length_range]

theorem writeAt_piece {i : Nat} (hi : i < k) : writeAt m pos (piece bytes g k) (pos + i) = bytes (g + i) := by
  rw [writeAt_add (by rwa [length_piece])]
  simp [piece]

theorem writeAt_piece_other (h : p < pos ∨ pos + k ≤ p) :
    writeAt m pos (piece bytes g k) p = m p := by
  rcases h with h | h
  · exact writeAt_of_lt h
  · exact writeAt_of_ge (by rwa [length_piece])

/-- **Bytes in one piece**, up to the end of the ring or to the unread ones. -/
theorem straight_appends (h : Ok r) (hfree : r.busy + len.toNat < r.size.toNat)
    (hend : r.wptr.toNat + len.toNat ≤ r.size.toNat) :
    Appends r { r with
      buf := writeAt r.buf r.wptr.toNat (piece bytes 0 len.toNat)
      wptr := if r.wptr + len = r.size then 0 else r.wptr + len } bytes len.toNat := by
  have hr := h.rptr
  have hw := h.wptr
  have hs := r.size.isLt
  have hwptr : (if r.wptr + len = r.size then 0 else r.wptr + len).toNat =
      (r.wptr.toNat + len.toNat) % r.size.toNat := by
    rw [mod_around (by omega)]
    split
    · rename_i heq
      have := congrArg BitVec.toNat heq
      rw [BitVec.toNat_add] at this
      rw [if_neg (by omega), show (0 : U32).toNat = 0 from rfl]
      omega
    · rename_i hne
      have hlt : r.wptr.toNat + len.toNat ≠ r.size.toNat := by
        intro heq
        refine hne (BitVec.eq_of_toNat_eq ?_)
        rw [BitVec.toNat_add]
        omega
      rw [if_pos (by omega), BitVec.toNat_add]
      omega
  have hstored : ∀ i, i < len.toNat → writeAt r.buf r.wptr.toNat (piece bytes 0 len.toNat)
      ((r.wptr.toNat + i) % r.size.toNat) = bytes i := by
    intro i hi
    rw [Nat.mod_eq_of_lt (by omega), writeAt_piece hi, Nat.zero_add]
  by_cases hle : r.rptr.toNat ≤ r.wptr.toNat
  · have hbusy : r.busy = r.wptr.toNat - r.rptr.toNat := if_pos hle
    refine ⟨hstored, fun i hi => writeAt_piece_other ?_, hwptr, ?_, rfl, rfl⟩
    · rw [Nat.mod_eq_of_lt (by omega)]
      omega
    · rw [hbusy]
      unfold Ring.busy
      dsimp only
      rw [hwptr, mod_around (by omega)]
      split <;> split <;> omega
  · have hbusy : r.busy = r.size.toNat + r.wptr.toNat - r.rptr.toNat := if_neg hle
    refine ⟨hstored, fun i hi => writeAt_piece_other ?_, hwptr, ?_, rfl, rfl⟩
    · rw [mod_around (by omega)]
      split <;> omega
    · rw [hbusy]
      unfold Ring.busy
      dsimp only
      rw [hwptr, Nat.mod_eq_of_lt (by omega), if_neg (by omega)]
      omega

/-- **Bytes in two pieces**, around the end of the ring. -/
theorem around_appends (h : Ok r) (hfree : r.busy + n < r.size.toNat) (hle : r.rptr.toNat ≤ r.wptr.toNat)
    (h₀ : l₀.toNat = r.size.toNat - r.wptr.toNat) (h₁ : l₁.toNat + l₀.toNat = n) :
    Appends r { r with
      buf := writeAt (writeAt r.buf r.wptr.toNat (piece bytes 0 l₀.toNat)) 0 (piece bytes l₀.toNat l₁.toNat)
      wptr := if l₁ = r.size then 0 else l₁ } bytes n := by
  have hr := h.rptr
  have hw := h.wptr
  have hbusy : r.busy = r.wptr.toNat - r.rptr.toNat := if_pos hle
  have hne : l₁ ≠ r.size := by
    intro heq
    have := congrArg BitVec.toNat heq
    omega
  rw [if_neg hne]
  refine ⟨fun i hi => ?_, fun i hi => ?_, ?_, ?_, rfl, rfl⟩
  · rw [mod_around (by omega)]
    split
    · -- in the first piece, which the second one does not reach
      have hfirst : i < l₀.toNat := by omega
      dsimp only
      rw [writeAt_piece_other (by omega), writeAt_piece hfirst, Nat.zero_add]
    · obtain ⟨j, rfl⟩ := Nat.exists_eq_add_of_le (show l₀.toNat ≤ i by omega)
      have hsecond : j < l₁.toNat := by omega
      have hpos : r.wptr.toNat + (l₀.toNat + j) - r.size.toNat = 0 + j := by omega
      dsimp only
      rw [hpos, writeAt_piece hsecond]
  · dsimp only
    rw [Nat.mod_eq_of_lt (by omega), writeAt_piece_other (by omega), writeAt_piece_other (by omega)]
  · rw [mod_around (by omega), if_neg (by omega)]
    dsimp only
    omega
  · rw [hbusy]
    unfold Ring.busy
    dsimp only
    split <;> omega

/-- **A write appends its bytes**, if there is room for them and the sum of position and length does not wrap. -/
theorem write_appends (h : Ok r) (hfree : r.busy + len.toNat < r.size.toNat)
    (hsum : r.wptr.toNat + len.toNat < 2 ^ 32) :
    Appends r (r.write src len).1 (bytesOf src) len.toNat := by
  have hr := h.rptr
  have hw := h.wptr
  have hadd : (r.wptr + len).toNat = r.wptr.toNat + len.toNat := by
    rw [BitVec.toNat_add]
    omega
  by_cases hle : r.rptr.toNat ≤ r.wptr.toNat
  · have hbusy : r.busy = r.wptr.toNat - r.rptr.toNat := if_pos hle
    by_cases hend : r.wptr.toNat + len.toNat ≤ r.size.toNat
    · have hlen : r.wtLen len = (len, 0) := by
        unfold Ring.wtLen
        rw [if_pos (BitVec.le_def.mpr hle), if_pos (BitVec.le_def.mpr (by omega))]
      rw [write_straight hlen]
      exact straight_appends h hfree hend
    · have hlen : r.wtLen len = (r.size - r.wptr, len - (r.size - r.wptr)) := by
        unfold Ring.wtLen
        rw [if_pos (BitVec.le_def.mpr hle), if_neg (mt BitVec.le_def.mp (by omega))]
      have h₀ : (r.size - r.wptr).toNat = r.size.toNat - r.wptr.toNat := by
        rw [BitVec.toNat_sub]
        omega
      have h₁ : (len - (r.size - r.wptr)).toNat + (r.size - r.wptr).toNat = len.toNat := by
        rw [BitVec.toNat_sub, h₀]
        omega
      have hpos {l : U32} (hl : l.toNat ≠ 0) : l ≠ 0 := fun heq => hl (congrArg BitVec.toNat heq)
      rw [write_around hlen (hpos (by omega)) (hpos (by omega))]
      exact around_appends h hfree hle h₀ h₁
  · have hbusy : r.busy = r.size.toNat + r.wptr.toNat - r.rptr.toNat := if_neg hle
    have hlen : r.wtLen len = (len, 0) := if_neg (mt BitVec.le_def.mp hle)
    rw [write_straight hlen]
    exact straight_appends h hfree (by omega)

/-! ## A frame for one ring -/

/-- The size of a frame, in bytes. -/
def frameBytes (f : FrameInfo) : Nat := f.pcmSamplesPerFrame.toNat * f.channels.toNat * 2

/-- The sums that are made with the size of a frame do not wrap: the one that decides whether it fits, and, if it does,
    the one for its place. -/
structure NoWrap (r : Ring) (n : Nat) : Prop where
  busy : r.busy + n < 2 ^ 32
  wptr : r.busy + n < r.size.toNat → r.wptr.toNat + n < 2 ^ 32

theorem frameSize_toNat (h : frameBytes f < 2 ^ 32) : (frameSize f).toNat = frameBytes f := by
  unfold frameSize frameBytes at *
  rw [BitVec.toNat_mul, BitVec.toNat_mul, show SIZEOF_U16.toNat = 2 from rfl]
  generalize f.pcmSamplesPerFrame.toNat * f.channels.toNat = k at h ⊢
  omega

/-- The ring stays as it is, and an error is returned, or the frame is appended. -/
def Whole (r : Ring) (res : Ring × Ret) (bytes : Nat → Byte) (n : Nat) : Prop :=
  res.1 = r ∧ res.2 ≠ .success ∨ Appends r res.1 bytes n ∧ res.2 = .success

theorem size_add (h : NoWrap r (frameBytes f)) {b : U32} (hb : b.toNat = r.busy) :
    (b + frameSize f).toNat = r.busy + frameBytes f := by
  have hbusy := h.busy
  rw [BitVec.toNat_add, frameSize_toNat (by omega), hb]
  omega

/-- **A frame for the ring of a track.** -/
theorem lowlatencySendData_whole (h : Ok r) (hlimit : (latency 400 f).toNat < r.size.toNat)
    (hwrap : NoWrap r (frameBytes f)) :
    Whole r (lowlatencySendData r f) (bytesOf f.pcmBuffer) (frameBytes f) := by
  have hsum := size_add hwrap (trackMmapBufQueryBusy_toNat h)
  have hsize : (frameSize f).toNat = frameBytes f := frameSize_toNat (by have := hwrap.busy; omega)
  unfold lowlatencySendData
  split
  · exact Or.inl ⟨rfl, Ret.noConfusion⟩
  · unfold trackMmapWriteFrame
    split
    · rename_i hlat
      have hlt := BitVec.lt_def.mp hlat
      right
      refine ⟨?_, if_pos write_snd⟩
      have happ : Appends r (r.write f.pcmBuffer (frameSize f)).1 (bytesOf f.pcmBuffer) (frameSize f).toNat :=
        write_appends h (by omega) (by rw [hsize]; exact hwrap.wptr (by omega))
      rw [hsize] at happ
      exact happ
    · exact Or.inl ⟨rfl, Ret.noConfusion⟩

/-! ## A frame for all ports -/

variable {s : Source} {ms : U32}

/-- What a port gets for a frame: its bytes, or silence for the first frames. -/
def Source.heard (s : Source) (f : FrameInfo) : Nat → Byte :=
  if s.frmCnt > SND_MUTES_FRAMES then bytesOf f.pcmBuffer else bytesOf none

/-- Every ring gets the same bytes. -/
def AppendsAll (rs ts : List Ring) (bytes : Nat → Byte) (n : Nat) : Prop :=
  List.Forall₂ (fun r t => Appends r t bytes n) rs ts

theorem portWriteFrame_fst {r : Ring} : (s.portWriteFrame r f).1 =
    (r.write (if s.frmCnt > SND_MUTES_FRAMES then f.pcmBuffer else none) (frameSize f)).1 := by
  unfold Source.portWriteFrame
  split <;> rfl

theorem portWriteFrame_snd {r : Ring} : (s.portWriteFrame r f).2 = .success := by
  unfold Source.portWriteFrame
  split
  · exact if_pos write_snd
  · exact if_pos write_snd

theorem heard_eq : bytesOf (if s.frmCnt > SND_MUTES_FRAMES then f.pcmBuffer else none) = s.heard f := by
  unfold Source.heard
  split <;> rfl

theorem writeFrames_snd : (s.writeFrames f).2 = .success := by
  unfold Source.writeFrames
  dsimp only
  cases hlast : (s.ports.map (fun r => s.portWriteFrame r f)).getLast? with
  | none => rfl
  | some w =>
    obtain ⟨r, -, rfl⟩ := List.mem_map.mp (List.mem_of_getLast? hlast)
    exact portWriteFrame_snd

theorem forall₂_map {R : Ring → Ring → Prop} {g : Ring → Ring} {rs : List Ring} (h : ∀ r ∈ rs, R r (g r)) :
    List.Forall₂ R rs (rs.map g) := List.forall₂_map_right_iff.mpr (List.forall₂_same.mpr h)

theorem writeFrames_ports : (s.writeFrames f).1.ports = s.ports.map (fun r => (s.portWriteFrame r f).1) :=
  List.map_map

/-- The frame is written, when all ports are free. -/
theorem writeFrames_appends (hok : ∀ r ∈ s.ports, Ok r ∧ (latency ms f).toNat < r.size.toNat ∧ NoWrap r (frameBytes f))
    (hfree : s.portCheckAllFree f ms = true) :
    AppendsAll s.ports (s.writeFrames f).1.ports (s.heard f) (frameBytes f) := by
  rw [writeFrames_ports]
  refine forall₂_map (fun r hr => ?_)
  obtain ⟨h, hlimit, hwrap⟩ := hok r hr
  have hsum := size_add hwrap (dmaPortQueryBusy_toNat h)
  have hsize : (frameSize f).toNat = frameBytes f := frameSize_toNat (by have := hwrap.busy; omega)
  have hle : r.busy + frameBytes f ≤ (latency ms f).toNat := by
    have hport := List.all_eq_true.mp hfree r hr
    rw [Bool.not_eq_true', decide_eq_false_iff_not] at hport
    have hnot := mt BitVec.lt_def.mpr hport
    omega
  rw [portWriteFrame_fst, ← heard_eq, ← hsize]
  exact write_appends h (by omega) (by rw [hsize]; exact hwrap.wptr (by omega))

/-- The rings behind `DMAEnable`: the call that enables the DMA mode prepares them. -/
def Source.prepared (s : Source) : List Ring := if s.enable then s.ports else s.dmaPrepare.ports

/-- There is room for a frame, and for the silence that is put in front of it when the DMA mode is enabled. -/
structure Room (s : Source) (r : Ring) (n : Nat) : Prop where
  enabled : s.enable = true → NoWrap r n
  enables : s.enable = false → r.busy + 0x100 < r.size.toNat ∧ NoWrap r 0x100 ∧ NoWrap r (0x100 + n)

theorem Appends.ok {t : Ring} (ha : Appends r t bytes n) (h : Ok r) : Ok t := by
  refine ⟨?_, ?_⟩
  · rw [ha.rptr, ha.size]
    exact h.rptr
  · rw [ha.wptr, ha.size]
    exact Nat.mod_lt _ (Nat.zero_lt_of_lt h.wptr)

theorem Appends.noWrap {t : Ring} (ha : Appends r t bytes n) (h : NoWrap r (n + k)) : NoWrap t k := by
  have hmod := Nat.mod_le (r.wptr.toNat + n) r.size.toNat
  have hbusy := h.busy
  have hwptr := h.wptr
  refine ⟨?_, ?_⟩
  · rw [ha.busy]
    omega
  · rw [ha.busy, ha.size, ha.wptr]
    omega

theorem prepare_appends {r : Ring} (h : Ok r) (hfree : r.busy + 0x100 < r.size.toNat)
    (hwrap : r.wptr.toNat + 0x100 < 2 ^ 32) :
    Appends r (r.dmaPortWrite none 0x100).1 (bytesOf none) 0x100 :=
  write_appends h hfree hwrap

theorem prepared_ok (hok : ∀ r ∈ s.ports, Ok r ∧ (latency ms f).toNat < r.size.toNat ∧ Room s r (frameBytes f)) :
    (∀ r ∈ s.prepared, Ok r ∧ (latency ms f).toNat < r.size.toNat ∧ NoWrap r (frameBytes f)) ∧
      List.Forall₂ (fun r t => if s.enable then t = r else Appends r t (bytesOf none) 0x100) s.ports s.prepared := by
  cases hen : s.enable with
  | true =>
    have hsame : s.prepared = s.ports := if_pos hen
    rw [hsame]
    refine ⟨fun r hr => ?_, List.forall₂_same.mpr (fun r _ => rfl)⟩
    obtain ⟨h, hlimit, hroom⟩ := hok r hr
    exact ⟨h, hlimit, hroom.enabled hen⟩
  | false =>
    have hmap : s.prepared = s.ports.map (fun r => (r.dmaPortWrite none 0x100).1) :=
      if_neg (Bool.eq_false_iff.mp hen)
    have happ : ∀ r ∈ s.ports, Appends r (r.dmaPortWrite none 0x100).1 (bytesOf none) 0x100 := by
      intro r hr
      obtain ⟨h, -, hroom⟩ := hok r hr
      obtain ⟨hfree, hwrap, -⟩ := hroom.enables hen
      exact prepare_appends h hfree (hwrap.wptr hfree)
    rw [hmap]
    refine ⟨fun t ht => ?_, forall₂_map happ⟩
    obtain ⟨r, hr, rfl⟩ := List.mem_map.mp ht
    obtain ⟨h, hlimit, hroom⟩ := hok r hr
    have hput := happ r hr
    refine ⟨hput.ok h, ?_, hput.noWrap (hroom.enables hen).2.2⟩
    rw [hput.size]
    exact hlimit

/-- `DMAEnable` returns with the rings prepared, or fails. -/
theorem dmaEnable_spec (s : Source) (rate : U32) (ioctl : Ret) :
    (s.dmaEnable rate ioctl).2 = .success ∧ (s.dmaEnable rate ioctl).1.ports = s.prepared ∧
        (s.dmaEnable rate ioctl).1.frmCnt = s.frmCnt ∨
      (s.dmaEnable rate ioctl).2 ≠ .success ∧ (s.dmaEnable rate ioctl).1.ports = s.ports := by
  unfold Source.dmaEnable
  cases hen : s.enable with
  | true =>
    rw [if_pos rfl]
    exact Or.inl ⟨rfl, (if_pos hen).symm, rfl⟩
  | false =>
    rw [if_neg Bool.false_ne_true]
    split
    · exact Or.inl ⟨rfl, (if_neg (Bool.eq_false_iff.mp hen)).symm, rfl⟩
    · rename_i hfail
      exact Or.inr ⟨hfail, rfl⟩

/-- An error, and the rings as they were before or behind `DMAEnable`, or the frame is appended to all of them. -/
def WholeAll (s : Source) (res : Source × Ret) (bytes : Nat → Byte) (n : Nat) : Prop :=
  (res.1.ports = s.ports ∨ res.1.ports = s.prepared) ∧ res.2 ≠ .success ∨
    AppendsAll s.prepared res.1.ports bytes n ∧ res.2 = .success

/-- **A frame for the rings of all ports.** -/
theorem sndDmaSendData_whole (hok : ∀ r ∈ s.ports, Ok r ∧ (latency ms f).toNat < r.size.toNat ∧ Room s r (frameBytes f))
    (ioctl : Ret) : WholeAll s (s.sndDmaSendData f ms ioctl) (s.heard f) (frameBytes f) := by
  have hinvalid : WholeAll s (s, .invalidPara) (s.heard f) (frameBytes f) := Or.inl ⟨Or.inl rfl, Ret.noConfusion⟩
  obtain ⟨hprepared, -⟩ := prepared_ok hok
  unfold Source.sndDmaSendData
  split
  · exact hinvalid
  · split
    · exact hinvalid
    · split
      · exact hinvalid
      · dsimp only
        rcases dmaEnable_spec s f.sampleRate ioctl with ⟨hret, hports, hcnt⟩ | ⟨hret, hports⟩
        · rw [if_neg (not_not.mpr hret)]
          split
          · exact Or.inl ⟨Or.inr hports, Ret.noConfusion⟩
          · rename_i hfree
            rw [← hports] at hprepared
            have happ := writeFrames_appends hprepared (Bool.not_eq_false _ ▸ hfree)
            have hheard : (s.dmaEnable f.sampleRate ioctl).1.heard f = s.heard f := by
              unfold Source.heard
              rw [hcnt]
            rw [hheard, hports] at happ
            exact Or.inr ⟨happ, writeFrames_snd⟩
        · rw [if_pos hret]
          exact Or.inl ⟨Or.inl hports, hret⟩

/-- **A frame goes into a ring whole, or not at all**: into the ring of a track, and into the rings of all ports, which
    the call that enables the DMA mode prepares with silence. -/
theorem sendData_whole :
    (∀ r f, Ok r → (latency 400 f).toNat < r.size.toNat → NoWrap r (frameBytes f) →
      Whole r (lowlatencySendData r f) (bytesOf f.pcmBuffer) (frameBytes f)) ∧
    ∀ s f ms ioctl, (∀ r ∈ s.ports, Ok r ∧ (latency ms f).toNat < r.size.toNat ∧ Room s r (frameBytes f)) →
      List.Forall₂ (fun r t => if s.enable then t = r else Appends r t (bytesOf none) 0x100) s.ports s.prepared ∧
        WholeAll s (s.sndDmaSendData f ms ioctl) (s.heard f) (frameBytes f) :=
  ⟨fun _ _ h hlimit hwrap => lowlatencySendData_whole h hlimit hwrap,
    fun _ _ _ ioctl hok => ⟨(prepared_ok hok).2, sndDmaSendData_whole hok ioctl⟩⟩

/-- A ring with 16 bytes before its end. -/
def nearEnd : Ring := ⟨fun _ => 0, 99960, 99984, 100000⟩

def frame (samples : U32) : FrameInfo := ⟨16, 48000, 2, samples, some (fun i => BitVec.ofNat 8 (i + 1))⟩

def onePort (enable : Bool) (frmCnt : U32) : Source := ⟨enable, 48000, frmCnt, [nearEnd]⟩

/-- A frame of 8 samples that goes around the end, of the ring of a track and of that of a port. -/
theorem sendData_whole_around :
    ((lowlatencySendData nearEnd (frame 8)).1.wptr = 16 ∧
      Whole nearEnd (lowlatencySendData nearEnd (frame 8)) (bytesOf (frame 8).pcmBuffer) 32) ∧
    ((onePort true 11).sndDmaSendData (frame 8) 20 .success).2 = .success ∧
      WholeAll (onePort true 11) ((onePort true 11).sndDmaSendData (frame 8) 20 .success)
        (bytesOf (frame 8).pcmBuffer) 32 := by
  refine ⟨⟨by decide, sendData_whole.1 nearEnd (frame 8) ⟨by decide, by decide⟩ (by decide)
    ⟨by decide, by decide⟩⟩, by decide,
    (sendData_whole.2 (onePort true 11) (frame 8) 20 .success (fun r hr => ?_)).2⟩
  obtain rfl := List.mem_singleton.mp hr
  exact ⟨⟨by decide, by decide⟩, by decide, ⟨fun _ => ⟨by decide, by decide⟩, fun h => by cases h⟩⟩

/-- **Frames that are not written as they are**: a port gets silence for one of the first frames; the call that enables
    the DMA mode returns that the ring is full, and has put silence into it; and a track returns success for a frame of
    2^32 - 4 bytes, since that and the 24 bytes in the ring are together 20 in 32 bits. -/
theorem frame_not_whole :
    (((onePort true 0).sndDmaSendData (frame 8) 20 .success).2 = .success ∧
      ¬ AppendsAll [nearEnd] ((onePort true 0).sndDmaSendData (frame 8) 20 .success).1.ports
        (bytesOf (frame 8).pcmBuffer) 32) ∧
    (((onePort false 0).sndDmaSendData (frame 4000) 20 .success).2 = .outBufFull ∧
      ((onePort false 0).sndDmaSendData (frame 4000) 20 .success).1.ports.map Ring.wptr = [240]) ∧
    (lowlatencySendData nearEnd (frame 0x3FFFFFFF)).2 = .success ∧
      ¬ Whole nearEnd (lowlatencySendData nearEnd (frame 0x3FFFFFFF)) (bytesOf (frame 8).pcmBuffer)
        (frameBytes (frame 0x3FFFFFFF)) := by
  have hsent : (lowlatencySendData nearEnd (frame 0x3FFFFFFF)).2 = .success := by decide
  refine ⟨⟨by decide, fun h => ?_⟩, ⟨by decide, by decide⟩, hsent, fun h => ?_⟩
  · cases h with
    | cons happ _ => exact absurd (happ.stored 0 (by decide)) (by decide)
  · rcases h with ⟨-, hret⟩ | ⟨happ, -⟩
    · exact hret hsent
    · exact absurd happ.wptr (by decide)

end HiSTB.Ao
