import HiSTB.Pvr.ExtCallBack
import Mathlib.Data.List.Range

/-!
# `Pvr.Correctness.ExtCallBack` — the bytes that the calls are about

A byte of a block has a virtual and a physical address, and `bytesOf` lists those of the calls. For a block that is not
split there is one call, and all is well. For the second call of a block that is split, both functions move the virtual
address only, so that the user's function gets the physical address of the start of the block; and the player leaves
`pu8Data` where it is.

* `bytesOf_two` — two calls cover a block exactly if the second physical address is right;
* `Covers` — what is asked of the calls;
* `covers_iff` — the exact condition.
-/

namespace HiSTB.Pvr.ExtCallBack

variable {ν : Type*} {env : Env ν}

variable {n m : Nat} {attr : DataAttr ν} {offset : U32}

/-- The virtual and the physical addresses of so many bytes. -/
def bytes (addr phyAddr : U32) (len : Nat) : List (U32 × U32) :=
  (List.range len).map (fun i => (addr + BitVec.ofNat 32 i, phyAddr + BitVec.ofNat 32 i))

/-- The bytes that the calls are about, in order. -/
def bytesOf (calls : List (Call ν)) : List (U32 × U32) := calls.flatMap (fun c => bytes c.addr c.phyAddr c.len.toNat)

@[simp] theorem length_bytes (addr phyAddr : U32) (len : Nat) : (bytes addr phyAddr len).length = len := by
  rw [bytes, List.length_map, List.length_range]

theorem bytes_add (addr phyAddr : U32) (m n : Nat) :
    bytes addr phyAddr (m + n) =
      bytes addr phyAddr m ++ bytes (addr + BitVec.ofNat 32 m) (phyAddr + BitVec.ofNat 32 m) n := by
  simp only [bytes, List.range_add, List.map_append, List.map_map]
  congr 1
  refine List.map_congr_left (fun i _ => ?_)
  simp only [Function.comp_apply, BitVec.ofNat_add, BitVec.add_assoc]

/-- Blocks of some bytes are the same only at the same place. -/
theorem bytes_inj {addr phyAddr addr' phyAddr' : U32} (hpos : 0 < n) :
    bytes addr phyAddr n = bytes addr' phyAddr' n ↔ addr = addr' ∧ phyAddr = phyAddr' := by
  constructor
  · intro h
    have hzero := List.map_inj_left.mp h 0 (List.mem_range.mpr hpos)
    simpa using hzero
  · rintro ⟨rfl, rfl⟩
    rfl

/-- A block in two parts, the physical address of the second as that of the first: only an empty first part is right. -/
theorem bytes_two (addr phyAddr : U32) (hmn : m < n) (hn : n < 0x100000000) :
    bytes addr phyAddr m ++ bytes (addr + BitVec.ofNat 32 m) phyAddr (n - m) = bytes addr phyAddr n ↔ m = 0 := by
  obtain ⟨k, rfl⟩ := Nat.exists_eq_add_of_lt hmn
  have hsub : m + k + 1 - m = k + 1 := by omega
  have hwhole := bytes_add addr phyAddr m (k + 1)
  rw [← Nat.add_assoc] at hwhole
  have hzero : (0#32).toNat = 0 := rfl
  rw [hsub, hwhole, List.append_cancel_left_eq, bytes_inj (Nat.succ_pos k), and_iff_right rfl,
    BitVec.self_eq_add_right, ← BitVec.toNat_inj, BitVec.toNat_ofNat, hzero]
  omega

theorem bytes_one {addr phyAddr : U32} : bytes addr phyAddr m = bytes addr phyAddr n ↔ m = n := by
  refine ⟨fun h => ?_, fun h => h ▸ rfl⟩
  have hlen := congrArg List.length h
  rwa [length_bytes, length_bytes] at hlen

/-- The calls cover the block once and in order, each byte with both its addresses, and the pointer is where it was. -/
structure Covers (addr phyAddr length : U32) (calls : List (Call ν)) (addr' : U32) : Prop where
  bytes : bytesOf calls = bytes addr phyAddr length.toNat
  pointer : addr' = addr

/-! ## One block -/

variable {addr phyAddr length : U32} {lenAdp : U64}

/-- A part that is shorter than the block. -/
theorem toNat_part (h : lenAdp < length.setWidth 64) :
    (lenAdp.setWidth 32).toNat = lenAdp.toNat ∧ lenAdp.toNat < length.toNat := by
  have hlt : lenAdp.toNat < length.toNat := by
    have h := BitVec.lt_def.mp h
    rwa [BitVec.toNat_setWidth_of_le (by decide)] at h
  refine ⟨?_, hlt⟩
  rw [BitVec.toNat_setWidth]
  exact Nat.mod_eq_of_lt (Nat.lt_trans hlt length.isLt)

/-- The length of the second part, in either of the two ways that it is computed. -/
theorem toNat_rest (h : lenAdp < length.setWidth 64) :
    ((length.setWidth 64 - lenAdp).setWidth 32).toNat = length.toNat - lenAdp.toNat ∧
    (length - lenAdp.setWidth 32).toNat = length.toNat - lenAdp.toNat := by
  obtain ⟨hpart, hlt⟩ := toNat_part h
  have hlen := length.isLt
  constructor
  · rw [BitVec.toNat_setWidth, BitVec.toNat_sub, BitVec.toNat_setWidth_of_le (by decide)]
    omega
  · rw [BitVec.toNat_sub, hpart]
    omega

theorem part_ne (h : lenAdp < length.setWidth 64) : lenAdp.setWidth 32 ≠ length := by
  intro heq
  obtain ⟨hpart, hlt⟩ := toNat_part h
  rw [← heq, hpart] at hlt
  exact Nat.lt_irrefl _ hlt

theorem cut_iff (h : lenAdp < length.setWidth 64) : lenAdp.setWidth 32 = length ∨ lenAdp = 0 ↔ lenAdp.toNat = 0 := by
  rw [or_iff_right (part_ne h), ← BitVec.toNat_inj]
  rfl

theorem add_part_eq_iff (h : lenAdp < length.setWidth 64) : addr + lenAdp.setWidth 32 = addr ↔ lenAdp.toNat = 0 := by
  obtain ⟨hpart, hlt⟩ := toNat_part h
  rw [BitVec.add_right_eq_self, ← BitVec.toNat_inj, hpart]
  rfl

/-- Two calls with one physical address. -/
theorem bytesOf_two (h : lenAdp < length.setWidth 64) {attr' : DataAttr ν} {offset' rest : U32}
    (hrest : rest.toNat = length.toNat - lenAdp.toNat) :
    bytesOf [⟨attr, addr, phyAddr, offset, lenAdp.setWidth 32⟩,
      ⟨attr', addr + lenAdp.setWidth 32, phyAddr, offset', rest⟩] = bytes addr phyAddr length.toNat ↔
    lenAdp.toNat = 0 := by
  obtain ⟨hpart, hlt⟩ := toNat_part h
  have hofNat : lenAdp.setWidth 32 = BitVec.ofNat 32 lenAdp.toNat := by
    rw [← hpart, BitVec.ofNat_toNat, BitVec.setWidth_eq]
  rw [← bytes_two addr phyAddr hlt length.isLt, bytesOf, List.flatMap_cons, List.flatMap_cons,
    List.flatMap_nil, List.append_nil]
  rw [hrest, hpart, hofNat]

theorem bytesOf_one :
    bytesOf [⟨attr, addr, phyAddr, offset, lenAdp.setWidth 32⟩] = bytes addr phyAddr length.toNat ↔
      lenAdp.setWidth 32 = length := by
  rw [bytesOf, List.flatMap_cons, List.flatMap_nil, List.append_nil]
  rw [bytes_one, BitVec.toNat_inj]

theorem whole_of_zero (h : ¬ lenAdp < length.setWidth 64) (hzero : lenAdp = 0) : lenAdp.setWidth 32 = length := by
  subst hzero
  have hnat := Nat.not_lt.mp (fun hlt => h (BitVec.lt_def.mpr hlt))
  rw [BitVec.toNat_setWidth_of_le (by decide)] at hnat
  exact (BitVec.eq_of_toNat_eq (Nat.le_zero.mp hnat)).symm

/-! ## Both functions -/

/-- The recorder's calls are right exactly if the block is not split inside. -/
theorem rec_covers_iff (env : Env ν) (addr phyAddr length : U32) (offset globalOffset : U64) :
    Covers addr phyAddr length (recProcExtCallBack env addr phyAddr length offset globalOffset).1
        (recProcExtCallBack env addr phyAddr length offset globalOffset).2 ↔
      (env.realLen offset (length.setWidth 64)).setWidth 32 = length ∨ env.realLen offset (length.setWidth 64) = 0 := by
  rw [recProcExtCallBack]
  generalize env.realLen offset (length.setWidth 64) = lenAdp
  split
  next h =>
    rw [cut_iff h]
    refine Iff.trans ⟨fun hc => hc.bytes, fun hb => ⟨hb, ?_⟩⟩ (bytesOf_two h (toNat_rest h).1)
    exact BitVec.add_sub_cancel _ _
  next h =>
    rw [or_iff_left_of_imp (whole_of_zero h)]
    exact Iff.trans ⟨fun hc => hc.bytes, fun hb => ⟨hb, rfl⟩⟩ bytesOf_one

/-- The player's calls, too; where the first part is empty, the user's function is to accept it. -/
theorem play_covers_iff (env : Env ν) (readCallBack : Call ν → Bool) (addr phyAddr length : U32)
    (offset globalOffset : U64) :
    Covers addr phyAddr length (playProcExtCallBack env readCallBack addr phyAddr length offset globalOffset).2.1
        (playProcExtCallBack env readCallBack addr phyAddr length offset globalOffset).2.2 ↔
      (env.realLen offset (length.setWidth 64)).setWidth 32 = length ∨ env.realLen offset (length.setWidth 64) = 0 ∧
          readCallBack ⟨env.dataAttr env.playEndFrm offset globalOffset, addr, phyAddr,
            (env.realOffset offset).setWidth 32, 0⟩ = true := by
  rw [playProcExtCallBack]
  dsimp only
  generalize env.realLen offset (length.setWidth 64) = lenAdp
  split
  next h =>
    rw [or_iff_right (part_ne h)]
    split
    next haccept =>
      constructor
      · intro hc
        obtain rfl : lenAdp = 0 := BitVec.eq_of_toNat_eq ((bytesOf_two h (toNat_rest h).2).mp hc.bytes)
        exact ⟨rfl, haccept⟩
      · rintro ⟨rfl, -⟩
        exact ⟨(bytesOf_two h (toNat_rest h).2).mpr rfl, (add_part_eq_iff h).mpr rfl⟩
    next hrefuse =>
      -- the function fails behind the first call
      refine iff_of_false (fun hc => part_ne h (bytesOf_one.mp hc.bytes)) ?_
      rintro ⟨rfl, haccept⟩
      exact hrefuse haccept
  next h =>
    rw [or_iff_left_of_imp (fun hzero => whole_of_zero h hzero.1)]
    exact Iff.trans ⟨fun hc => hc.bytes, fun hb => ⟨hb, rfl⟩⟩ bytesOf_one

/-- **When the calls are right**, for every block and every length that is reported for it. -/
theorem covers_iff (env : Env ν) (readCallBack : Call ν → Bool) (addr phyAddr length : U32)
    (offset globalOffset : U64) :
    (Covers addr phyAddr length (recProcExtCallBack env addr phyAddr length offset globalOffset).1
        (recProcExtCallBack env addr phyAddr length offset globalOffset).2 ↔
      (env.realLen offset (length.setWidth 64)).setWidth 32 = length ∨ env.realLen offset (length.setWidth 64) = 0) ∧
    (Covers addr phyAddr length (playProcExtCallBack env readCallBack addr phyAddr length offset globalOffset).2.1
        (playProcExtCallBack env readCallBack addr phyAddr length offset globalOffset).2.2 ↔
      (env.realLen offset (length.setWidth 64)).setWidth 32 = length ∨
        env.realLen offset (length.setWidth 64) = 0 ∧
          readCallBack ⟨env.dataAttr env.playEndFrm offset globalOffset, addr, phyAddr,
            (env.realOffset offset).setWidth 32, 0⟩ = true) :=
  ⟨rec_covers_iff env addr phyAddr length offset globalOffset,
    play_covers_iff env readCallBack addr phyAddr length offset globalOffset⟩

/-- A recording in files of 1 GiB, without an index. -/
def gigabytes : Env Unit where
  chnId := 0
  startFrame := 0
  endFrame := 0
  lastFrame := 1
  getFrameByNum := fun _ => none
  getOffsetFName := fun _ => ()
  idxFileName := ()
  realOffset := fun offset => offset % 0x40000000
  realLen := fun offset len => if 0x40000000 - offset % 0x40000000 < len then 0x40000000 - offset % 0x40000000 else len

/-- Where two packets are cut apart, the second call has the physical address of the first packet, and the player's
    buffer is moved. -/
theorem covers_fails :
    ¬ Covers 0x1000 0x80001000 376 (recProcExtCallBack gigabytes 0x1000 0x80001000 376 0x3fffff44 0).1
        (recProcExtCallBack gigabytes 0x1000 0x80001000 376 0x3fffff44 0).2 ∧
    ((recProcExtCallBack gigabytes 0x1000 0x80001000 376 0x3fffff44 0).1.map (fun c => (c.addr, c.phyAddr, c.len)) =
      [(0x1000, 0x80001000, 188), (0x10bc, 0x80001000, 188)]) ∧
    ¬ Covers 0x1000 0x80001000 376
        (playProcExtCallBack gigabytes (fun _ => true) 0x1000 0x80001000 376 0x3fffff44 0).2.1
        (playProcExtCallBack gigabytes (fun _ => true) 0x1000 0x80001000 376 0x3fffff44 0).2.2 ∧
    (playProcExtCallBack gigabytes (fun _ => true) 0x1000 0x80001000 376 0x3fffff44 0).2.2 = 0x10bc := by
  refine ⟨?_, by decide, ?_, by decide⟩
  · rw [rec_covers_iff]
    decide
  · rw [play_covers_iff]
    decide

end HiSTB.Pvr.ExtCallBack
