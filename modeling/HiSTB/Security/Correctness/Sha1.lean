import HiSTB.Security.Sha1
import HiSTB.Security.Correctness.Verify

/-!
# `Security.Correctness.Sha1` — the bytes that are fed

The blocks and the last buffer are the file and the padding, whatever was in the buffer before (`hashCalls_eq`), and the
last buffer fits (`length_final_le`). The padding is the one of SHA-1 exactly if the number of bits is an `int`: from
256 MiB on, the product is negative or too long, and the upper half of the length is its sign (`sha1Padding_eq_iff`).

* `sha1File_hashCalls` — `sha1File` is about the same bytes;
* `hashCalls_iff` — the exact condition;
* `verifyFiles_sound` — what `verify_files` accepts has the digests that were read from its lines.
-/

namespace HiSTB.Security

open Lib

variable {buf : Nat → Byte} {data : List Byte} {c : Cipher}

variable {n : Nat} {env : Env} {filename hash : List Byte}

/-! ## The padding -/

theorem length_sha1Padding_le (n : BitVec 32) : (sha1Padding n).length ≤ 72 := by
  unfold sha1Padding
  simp only [List.length_append, List.length_cons, List.length_replicate, List.length_map, List.length_range]
  split <;> omega

/-- The byte above the lower half of the length: the sign of the `int`, and what it is to be. -/
theorem lengthByte_ne (hge : 2 ^ 28 ≤ n) (hlt : n < 2 ^ 31) :
    ((BitVec.ofNat 32 n * 8).sshiftRight 32).setWidth 8 ≠ (BitVec.ofNat 64 (n * 8) >>> 32).setWidth 8 := by
  intro heq
  have hbits : (BitVec.ofNat 32 n * 8).toNat = n * 8 % 2 ^ 32 := by
    rw [BitVec.toNat_mul, BitVec.toNat_ofNat, Nat.mod_mul_mod]
    rfl
  -- the byte is at most 3, so that the sign is not set
  have hmsb : (BitVec.ofNat 32 n * 8).msb = false := by
    have hseven := congrArg (fun b : Byte => b.getLsbD 7) heq
    have hsmall : (BitVec.ofNat 64 (n * 8))[39] = false := by
      rw [← BitVec.getLsbD_eq_getElem, BitVec.getLsbD_ofNat, Nat.testBit_lt_two_pow (by omega), Bool.and_false]
    simpa [BitVec.getElem_sshiftRight, hsmall] using hseven
  have hlow := BitVec.msb_eq_false_iff_two_mul_lt.mp hmsb
  have hnat := congrArg BitVec.toNat heq
  rw [BitVec.sshiftRight_eq_of_msb_false hmsb] at hnat
  simp only [BitVec.toNat_setWidth, BitVec.toNat_ushiftRight, hbits, BitVec.toNat_ofNat, Nat.shiftRight_eq_div_pow]
    at hnat hlow
  omega

/-- **The padding is right exactly if the number of bits is an `int`.** -/
theorem sha1Padding_eq_iff (hlt : n < 2 ^ 31) : sha1Padding (BitVec.ofNat 32 n) = sha1Pad n ↔ n < 2 ^ 28 := by
  refine ⟨fun heq => ?_, sha1Padding_eq⟩
  by_contra hge
  unfold sha1Padding sha1Pad at heq
  have hlast := (List.append_inj' heq (by simp)).2
  have hthree := List.map_inj_left.mp hlast 3 (by decide)
  exact lengthByte_ne (Nat.not_lt.mp hge) hlt hthree

/-! ## The calls -/

theorem Cipher.fullBlock_input (c : Cipher) {block : List Byte} (hlen : block.length = signBlockSize) :
    (c.fullBlock block).input = block := by
  have h : (BitVec.ofNat 32 signBlockSize).toNat = block.length := by
    rw [hlen]
    rfl
  rw [Cipher.input]
  show readAt (writeAt c.buf 0 block) 0 (BitVec.ofNat 32 signBlockSize).toNat = block
  rw [h, readAt_writeAt]

theorem updateCalls_succ (n : Nat) (data : List Byte) (c : Cipher) :
    updateCalls (n + 1) data c = ((c.fullBlock (data.take signBlockSize)).input ::
        (updateCalls n (data.drop signBlockSize) (c.fullBlock (data.take signBlockSize))).1,
        (updateCalls n (data.drop signBlockSize) (c.fullBlock (data.take signBlockSize))).2) := rfl

/-- What the loop gives away, and what it leaves: the offset is 0, and the length so far is right. -/
theorem updateCalls_eq (data : List Byte) (c : Cipher) (hlen : n * signBlockSize ≤ data.length) (hoff : c.offset = 0) :
    (updateCalls n data c).1.flatten = (updateBlocks n data).1 ∧
    (∀ block ∈ (updateCalls n data c).1, block.length = signBlockSize) ∧
    (updateCalls n data c).2.1 = data.drop (n * signBlockSize) ∧
    (updateCalls n data c).2.1 = (updateBlocks n data).2 ∧
    (updateCalls n data c).2.2.offset = 0 ∧
    (updateCalls n data c).2.2.totalDataLen = c.totalDataLen + BitVec.ofNat 32 (n * signBlockSize) := by
  induction n generalizing data c with
  | zero =>
    rw [Nat.zero_mul]
    exact ⟨rfl, fun _ hmem => absurd hmem List.not_mem_nil, rfl, rfl, hoff, (BitVec.add_zero _).symm⟩
  | succ n ih =>
    rw [Nat.succ_mul] at hlen
    have hblock : (data.take signBlockSize).length = signBlockSize := by
      rw [List.length_take]
      exact Nat.min_eq_left (Nat.le_of_add_left_le hlen)
    have hrest : n * signBlockSize ≤ (data.drop signBlockSize).length := by
      rw [List.length_drop]
      exact Nat.le_sub_of_add_le hlen
    obtain ⟨hflat, hall, hdrop, hleft, hoff, htotal⟩ := ih _ (c.fullBlock (data.take signBlockSize)) hrest rfl
    rw [updateCalls_succ, updateBlocks]
    refine ⟨?_, ?_, ?_, hleft, hoff, ?_⟩
    · rw [List.flatten_cons, hflat, Cipher.fullBlock_input _ hblock]
    · intro block hmem
      rcases List.mem_cons.mp hmem with rfl | hmem
      · rw [Cipher.fullBlock_input _ hblock, hblock]
      · exact hall block hmem
    · rw [hdrop, List.drop_drop, Nat.succ_mul, Nat.add_comm]
    · rw [htotal, Cipher.fullBlock, BitVec.add_assoc, ← BitVec.ofNat_add, Nat.succ_mul, Nat.add_comm]

/-- The last buffer: what is before the offset, and the padding. -/
theorem Cipher.pad_input {k : Nat} (hoff : c.offset.toNat = k) (hlt : k < 0x80000000) :
    c.pad.input = readAt c.buf 0 k ++ sha1Padding c.totalDataLen := by
  have hpad := length_sha1Padding_le c.totalDataLen
  have hlen : (c.offset + BitVec.ofNat 32 (sha1Padding c.totalDataLen).length).toNat =
      k + (sha1Padding c.totalDataLen).length := by
    rw [BitVec.toNat_add, BitVec.toNat_ofNat, hoff]
    omega
  show readAt (writeAt c.buf c.offset.toNat (sha1Padding c.totalDataLen)) 0
    (c.offset + BitVec.ofNat 32 (sha1Padding c.totalDataLen).length).toNat = _
  rw [hlen, hoff, readAt_add, readAt_writeAt_apart (.inl (Nat.le_of_eq (Nat.zero_add k))), Nat.zero_add, readAt_writeAt]

/-- What is known when the loop is over and the rest is read. -/
theorem rest_eq {rest : List Byte} (hlt : rest.length < signBlockSize) (hoff : c.offset = 0) :
    (if rest.length % signBlockSize ≠ 0 then c.rest rest else c).pad.input =
      rest ++ sha1Padding (c.totalDataLen + BitVec.ofNat 32 rest.length) := by
  have hsmall : rest.length < 0x80000000 := Nat.lt_trans hlt (by decide)
  rw [Nat.mod_eq_of_lt hlt]
  split
  next =>
    have hoffset : (c.rest rest).offset.toNat = rest.length := by
      show (BitVec.ofNat 32 rest.length).toNat = rest.length
      rw [BitVec.toNat_ofNat]
      omega
    rw [Cipher.pad_input hoffset hsmall]
    show readAt (writeAt c.buf 0 rest) 0 rest.length ++ _ = _
    rw [readAt_writeAt]
    rfl
  next hnone =>
    obtain rfl : rest = [] := List.length_eq_zero_iff.mp (not_not.mp hnone)
    have hoffset : c.offset.toNat = 0 := by rw [hoff]; rfl
    rw [Cipher.pad_input hoffset (by decide)]
    show [] ++ _ = [] ++ sha1Padding (c.totalDataLen + BitVec.ofNat 32 0)
    rw [BitVec.add_zero]

/-- **The bytes that are fed**, whatever was in the buffer: the file in blocks, its rest, and the padding behind. -/
theorem hashCalls_eq (buf : Nat → Byte) (data : List Byte) :
    (hashCalls buf data).1.flatten = (updateBlocks (data.length / signBlockSize) data).1 ∧
    (∀ block ∈ (hashCalls buf data).1, block.length = signBlockSize) ∧
    (hashCalls buf data).2 = (updateBlocks (data.length / signBlockSize) data).2 ++
      sha1Padding (BitVec.ofNat 32 data.length) ∧
    (updateBlocks (data.length / signBlockSize) data).2.length < signBlockSize := by
  obtain ⟨hflat, hall, hdrop, hleft, hoff, htotal⟩ :=
    updateCalls_eq data ⟨writeAt buf 0 (List.replicate (signBlockSize + 128) 0), 0, 0, 0⟩
      (Nat.div_mul_le_self data.length signBlockSize) rfl
  have hlen : (updateBlocks (data.length / signBlockSize) data).2.length = data.length % signBlockSize := by
    rw [← hleft, hdrop, List.length_drop, Nat.mod_eq_sub_div_mul]
  have hlt : (updateBlocks (data.length / signBlockSize) data).2.length < signBlockSize := by
    rw [hlen]
    exact Nat.mod_lt _ (by decide)
  refine ⟨hflat, hall, ?_, hlt⟩
  rw [hashCalls]
  rw [hleft, rest_eq hlt hoff, htotal, hlen, BitVec.add_assoc, ← BitVec.ofNat_add, Nat.div_add_mod']
  show _ ++ sha1Padding (0#32 + _) = _
  rw [BitVec.zero_add]

theorem hashCalls_bytes (buf : Nat → Byte) (data : List Byte) :
    (hashCalls buf data).1.flatten ++ (hashCalls buf data).2 = data ++ sha1Padding (BitVec.ofNat 32 data.length) := by
  obtain ⟨hflat, -, hfinal, -⟩ := hashCalls_eq buf data
  rw [hflat, hfinal, ← List.append_assoc, updateBlocks_append]

/-- `sha1File` is about the same bytes. -/
theorem sha1File_hashCalls (hfile : env.files filename = some data)
    (hinit : env.calcHashInit = true) (hlt : data.length < 0x80000000) (buf : Nat → Byte) :
    sha1File env filename hash =
      some (decide (env.calcHash ((hashCalls buf data).1.flatten ++ (hashCalls buf data).2) = hash)) := by
  obtain ⟨hflat, -, hfinal, -⟩ := hashCalls_eq buf data
  rw [sha1File, hfile, hflat, hfinal]
  dsimp only
  rw [if_neg (Nat.not_le.mpr hlt), if_pos hinit]

theorem length_final_le (buf : Nat → Byte) (data : List Byte) :
    (hashCalls buf data).2.length ≤ signBlockSize + 128 := by
  obtain ⟨-, -, hfinal, hlt⟩ := hashCalls_eq buf data
  have hpad := length_sha1Padding_le (BitVec.ofNat 32 data.length)
  rw [hfinal, List.length_append]
  omega

/-- **The hash unit is fed the padded file**, in full blocks and a last buffer that fits, exactly if the file is shorter
    than 2^28 bytes. -/
theorem hashCalls_iff (buf : Nat → Byte) (data : List Byte) (hlt : data.length < 0x80000000) :
    ((∀ block ∈ (hashCalls buf data).1, block.length = signBlockSize) ∧
      (hashCalls buf data).1.flatten ++ (hashCalls buf data).2 = data ++ sha1Pad data.length ∧
      (hashCalls buf data).2.length ≤ signBlockSize + 128) ↔ data.length < 0x10000000 := by
  obtain ⟨-, hall, -, -⟩ := hashCalls_eq buf data
  rw [hashCalls_bytes, List.append_cancel_left_eq, sha1Padding_eq_iff hlt]
  exact ⟨fun h => h.2.1, fun h => ⟨hall, h, length_final_le buf data⟩⟩

/-- A full block and three bytes behind it. -/
def blockAndRest : List Byte := List.replicate (signBlockSize + 3) 0x5a

/-- One full block is given away, and the rest with the padding overwrites its start. -/
theorem hashCalls_blockAndRest :
    (∀ block ∈ (hashCalls (fun _ => 0xff) blockAndRest).1, block.length = signBlockSize) ∧
    (hashCalls (fun _ => 0xff) blockAndRest).1.flatten ++ (hashCalls (fun _ => 0xff) blockAndRest).2 =
      blockAndRest ++ sha1Pad blockAndRest.length ∧
    (hashCalls (fun _ => 0xff) blockAndRest).2.length ≤ signBlockSize + 128 := by
  have hlen : blockAndRest.length = signBlockSize + 3 := List.length_replicate
  exact (hashCalls_iff (fun _ => 0xff) blockAndRest (by rw [hlen]; decide)).mpr (by rw [hlen]; decide)

/-- A file of 256 MiB gets a wrong length, whatever is in it. -/
theorem hashCalls_wrong : ∃ data : List Byte, data.length = 0x10000000 ∧ ∀ buf,
    (hashCalls buf data).1.flatten ++ (hashCalls buf data).2 ≠ data ++ sha1Pad data.length := by
  refine ⟨List.replicate 0x10000000 0, List.length_replicate, fun buf heq => ?_⟩
  rw [hashCalls_bytes, List.append_cancel_left_eq, List.length_replicate] at heq
  exact absurd ((sha1Padding_eq_iff (by decide)).mp heq) (by decide)

/-! ## What is accepted -/

/-- The file is there, and `hash` is its digest, unless it is too large for `sha1_padding`. -/
def HasDigest (env : Env) (filename hash : List Byte) : Prop :=
  ∃ data, env.files filename = some data ∧ (data.length < 0x10000000 →
    env.calcHash (data ++ sha1Pad data.length) = hash)

theorem sha1File_sound (h : sha1File env filename hash = some true) :
    HasDigest env filename hash := by
  cases hfile : env.files filename with
  | none => simp [sha1File, hfile] at h
  | some data =>
    refine ⟨data, hfile, fun hsmall => ?_⟩
    cases hinit : env.calcHashInit with
    | false => simp [sha1File, hfile, hinit] at h
    | true =>
      rw [sha1File_hashCalls hfile hinit (by omega) (fun _ => 0), hashCalls_bytes, sha1Padding_eq hsmall] at h
      exact of_decide_eq_true (Option.some.inj h)

theorem verifyLoop_sound {file mem : List Byte} {fileLen : Int} {fuel pos : Nat} {r : Result}
    (h : verifyLoop env file fileLen fuel pos mem = some r) (hret : r.ret = 0) :
    r.checkSystemNum = r.checked.length ∧ ∀ x ∈ r.checked, sha1File env x.1 x.2 = some true := by
  induction fuel generalizing pos mem r with
  | zero => cases h
  | succ fuel ih =>
    have hnone : ∀ x ∈ ([] : List (List Byte × List Byte)), sha1File env x.1 x.2 = some true := fun x hx => by cases hx
    unfold verifyLoop at h
    split at h
    · split at h
      · cases h
        exact ⟨rfl, hnone⟩
      · split at h
        · cases h
        · cases h
          cases hret
        · obtain ⟨val, -, h⟩ := Option.bind_eq_some_iff.mp h
          obtain ⟨ok, hok, h⟩ := Option.bind_eq_some_iff.mp h
          split at h
          next htrue =>
            obtain ⟨r', hr', rfl⟩ := Option.map_eq_some_iff.mp h
            obtain ⟨hnum, hall⟩ := ih hr' hret
            exact ⟨congrArg Nat.succ hnum, List.forall_mem_cons.mpr ⟨htrue ▸ hok, hall⟩⟩
          next =>
            cases h
            cases hret
    · cases h
      exact ⟨rfl, hnone⟩

/-- **What is accepted was checked**, whatever list it is: each file that was counted is there, and its digest is what
    was read from its line by strides of three characters. -/
theorem verifyFiles_sound {env : Env} {file mem : List Byte} {fileLen : Int} {r : Result}
    (h : verifyFiles env file fileLen mem = some r) (hret : r.ret = 0) :
    r.checkSystemNum = r.checked.length ∧ ∀ x ∈ r.checked, HasDigest env x.1 x.2 := by
  unfold verifyFiles at h
  split at h
  · obtain ⟨hnum, hall⟩ := verifyLoop_sound h hret
    exact ⟨hnum, fun x hx => sha1File_sound (hall x hx)⟩
  · cases h
    cases hret

/-- An empty file, with its digest in the list. -/
theorem verifyFiles_sound_one :
    ∃ r, verifyFiles emptyA lineA.text 61 [] = some r ∧ r.checked = [([97], emptySha1)] ∧ r.checkSystemNum = 1 ∧
      ∀ x ∈ r.checked, HasDigest emptyA x.1 x.2 := by
  have hrun : verifyFiles emptyA lineA.text 61 [] = some ⟨0, [([97], emptySha1)], 1⟩ := by decide
  exact ⟨_, hrun, rfl, rfl, (verifyFiles_sound hrun rfl).2⟩

end HiSTB.Security
