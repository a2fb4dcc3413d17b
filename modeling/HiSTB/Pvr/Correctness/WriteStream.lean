import HiSTB.Pvr.WriteStream

/-!
# `Pvr.Correctness.WriteStream` — what is in the file of a recording

Where `PVR_PWRITE64` writes some bytes or is interrupted, `PVRRecWriteStreamDirect` writes its whole buffer
(`writeLoop_writes`), and returns when enough of the calls write (`writeLoop_returns`). In a rewinding recording the
file holds the end of the stream (`Latest`), the write position rests at the maximum size behind an exact fill. In a
recording of fixed size the file is the start of the stream, and size and write position are one.
-/

namespace HiSTB.Pvr.WriteStream

open Lib

variable {l2Cache : Bool} {c t : RecChn} {d : RecData} {as : List Answer} {buf : List Byte} {off : BitVec 64}
variable {k : Nat} {len1 : BitVec 32} {u c₀ : RecChn} {r : RecChn × Ret} {m : BitVec 64}
    {xs : List Byte} {is : List Input} {es : List Ret}

  {file : File} {max : Nat}

/-! ## One buffer -/

/-- `PVR_PWRITE64` writes something, or is interrupted. -/
def Answer.Fine : Answer → Prop
  | .wrote _ | .eintr => True
  | .enospc | .other => False

def Answer.writes : Answer → Bool
  | .wrote _ => true
  | _ => false

theorem toNat_add_ofNat (h : off.toNat + k < 0x10000000000000000) :
    (off + BitVec.ofNat 64 k).toNat = off.toNat + k := by
  rw [BitVec.toNat_add, BitVec.toNat_ofNat]
  omega

/-- What is left of the buffer is written, whatever the pieces are. -/
theorem writeLoop_writes (hfine : ∀ a ∈ as, a.Fine) (hoff : off.toNat + buf.length < 0x10000000000000000)
    (hk : k ≤ buf.length) {r : File × Ret × List Answer} (h : writeLoop buf off as file k = some r) :
    r.1 = writeAt file (off.toNat + k) ((buf.drop k).map some) ∧ r.2.1 = .success ∧ ∀ a ∈ r.2.2, a.Fine := by
  induction as generalizing file k with
  | nil => cases h
  | cons a as ih =>
    have hrest : ∀ a ∈ as, a.Fine := fun a ha => hfine a (List.mem_cons_of_mem _ ha)
    cases a with
    | wrote n =>
      have hpos := toNat_add_ofNat (show off.toNat + k < 0x10000000000000000 by omega)
      have hlen : ((buf.drop k).take (n + 1)).length = min (n + 1) (buf.length - k) := by
        rw [List.length_take, List.length_drop]
      simp only [writeLoop, hpos] at h
      split at h
      · obtain ⟨hf, hs, ha⟩ := ih hrest (by omega) h
        refine ⟨?_, hs, ha⟩
        -- the piece and what is behind it
        have hn : ((buf.drop k).take (n + 1)).length = n + 1 := by omega
        have hsplit : (buf.drop k).map some
            = ((buf.drop k).take (n + 1)).map some ++ (buf.drop (k + ((buf.drop k).take (n + 1)).length)).map some := by
          rw [← List.map_append, ← List.drop_drop, hn, List.take_append_drop]
        rw [hf, hsplit, ← writeAt_append, List.length_map, Nat.add_assoc]
      · cases h
        refine ⟨?_, rfl, hrest⟩
        rw [List.take_of_length_le (by rw [List.length_drop]; omega)]
    | eintr =>
      simp only [writeLoop] at h
      split at h
      · exact ih hrest hk h
      · cases h
        refine ⟨?_, rfl, hrest⟩
        rw [List.drop_of_length_le (by omega), List.map_nil, writeAt_nil]
    | enospc => exact absurd (hfine _ (List.mem_cons_self ..)) id
    | other => exact absurd (hfine _ (List.mem_cons_self ..)) id

/-- The loop returns when as many calls write as there are bytes, and at least one; each uses up one of them. -/
theorem writeLoop_returns (hfine : ∀ a ∈ as, a.Fine) {k : Nat}
    (hcount : Nat.max 1 (buf.length - k) ≤ as.countP Answer.writes) :
    ∃ r, writeLoop buf off as file k = some r ∧
      as.countP Answer.writes ≤ r.2.2.countP Answer.writes + Nat.max 1 (buf.length - k) := by
  induction as generalizing file k with
  | nil =>
    have hle := Nat.le_max_left 1 (buf.length - k)
    exact absurd (Nat.le_trans hle hcount) (by simp)
  | cons a as ih =>
    have hrest : ∀ a ∈ as, a.Fine := fun a ha => hfine a (List.mem_cons_of_mem _ ha)
    cases a with
    | wrote n =>
      have hlen : ((buf.drop k).take (n + 1)).length = min (n + 1) (buf.length - k) := by
        rw [List.length_take, List.length_drop]
      rw [List.countP_cons_of_pos rfl] at hcount ⊢
      simp only [writeLoop]
      split
      · have hleft : Nat.max 1 (buf.length - (k + ((buf.drop k).take (n + 1)).length))
            ≤ as.countP Answer.writes := by
          simp only [Nat.max_def] at hcount ⊢
          split <;> split at hcount <;> omega
        obtain ⟨r, hr, hle⟩ := @ih (writeAt file (off + BitVec.ofNat 64 k).toNat
          (((buf.drop k).take (n + 1)).map some)) hrest _ hleft
        refine ⟨r, hr, ?_⟩
        simp only [Nat.max_def] at hle ⊢
        split at hle <;> split <;> omega
      · refine ⟨_, rfl, ?_⟩
        exact Nat.add_le_add_left (Nat.le_max_left 1 (buf.length - k)) _
    | eintr =>
      rw [List.countP_cons_of_neg (by simp [Answer.writes])] at hcount ⊢
      simp only [writeLoop]
      split
      · exact ih hrest hcount
      · exact ⟨_, rfl, Nat.le_add_right _ _⟩
    | enospc => exact absurd (hfine _ (List.mem_cons_self ..)) id
    | other => exact absurd (hfine _ (List.mem_cons_self ..)) id

/-! ## One block -/

/-- The block can be written: it has an address, and `PVR_PWRITE64` does not fail. -/
structure Input.Fine (i : Input) : Prop where
  addr : i.data.dataAddr ≠ 0
  answers : ∀ a ∈ i.answers, a.Fine

theorem RecData.len_toNat (d : RecData) : d.len.toNat = d.bytes.length := by
  have hlt := d.lt
  unfold RecData.len
  rw [BitVec.toNat_ofNat]
  omega

theorem toNat_add_setWidth {x : BitVec 32} (h : off.toNat + x.toNat < 0x10000000000000000) :
    (off + x.setWidth 64).toNat = off.toNat + x.toNat := by
  have hx := x.isLt
  rw [BitVec.toNat_add, BitVec.toNat_setWidth]
  omega

/-- Same settings; what the index is told about the size of the file is no setting. -/
structure SameMode (c t : RecChn) : Prop where
  allTs : t.allTs = c.allTs
  maxFileSize : t.maxFileSize = c.maxFileSize
  maxTimeInMs : t.maxTimeInMs = c.maxTimeInMs
  rewind : t.rewind = c.rewind
  maxCycSize : t.indexHandle.map Index.maxCycSize = c.indexHandle.map Index.maxCycSize
  rewindType : t.indexHandle.map Index.rewindType = c.indexHandle.map Index.rewindType

theorem SameMode.refl (c : RecChn) : SameMode c c := ⟨rfl, rfl, rfl, rfl, rfl, rfl⟩

theorem SameMode.trans {u : RecChn} (h : SameMode c t) (h' : SameMode t u) : SameMode c u :=
  ⟨h'.allTs.trans h.allTs, h'.maxFileSize.trans h.maxFileSize, h'.maxTimeInMs.trans h.maxTimeInMs,
    h'.rewind.trans h.rewind, h'.maxCycSize.trans h.maxCycSize, h'.rewindType.trans h.rewindType⟩

theorem SameMode.maxSize (h : SameMode c t) : t.maxSize = c.maxSize := by
  unfold RecChn.maxSize
  rw [h.allTs, h.maxFileSize, h.maxCycSize]

/-- What a call leaves behind that wrote `len1` bytes at the write position and `len2` from the start of the file. -/
structure Wrote (c : RecChn) (d : RecData) (len1 len2 : Nat) (t : RecChn) : Prop where
  mode : SameMode c t
  dataFile : t.dataFile = writeAt (writeAt c.dataFile c.curWritePos.toNat ((d.bytes.take len1).map some)) 0
    (((d.bytes.drop len1).take len2).map some)
  curFileSize : t.curFileSize = c.curFileSize + BitVec.ofNat 64 (len1 + len2)
  curWritePos : t.curWritePos.toNat = if len2 = 0 then c.curWritePos.toNat + len1 else len2

theorem writeEnd_mode (l2Cache reachFix : Bool) (c : RecChn) :
    SameMode c (c.writeEnd l2Cache reachFix).1 ∧ (c.writeEnd l2Cache reachFix).1.dataFile = c.dataFile ∧
    (c.writeEnd l2Cache reachFix).1.curFileSize = c.curFileSize ∧
    (c.writeEnd l2Cache reachFix).1.curWritePos = c.curWritePos := by
  unfold RecChn.writeEnd
  split
  · refine ⟨⟨rfl, rfl, rfl, rfl, ?_, ?_⟩, rfl, rfl, rfl⟩
    · simp [Function.comp_def]
    · simp [Function.comp_def]
  · exact ⟨SameMode.refl c, rfl, rfl, rfl⟩

/-- The first write. -/
theorem writeFirst_wrote (haddr : d.dataAddr ≠ 0) (hfine : ∀ a ∈ as, a.Fine)
    (hle : len1.toNat ≤ d.bytes.length) (hpos : c.curWritePos.toNat + len1.toNat < 0x10000000000000000)
    {r : RecChn × Ret × List Answer} (h : c.writeFirst d len1 as = some r) :
    Wrote c d len1.toNat 0 r.1 ∧ r.2.1 = .success ∧ ∀ a ∈ r.2.2, a.Fine := by
  unfold RecChn.writeFirst at h
  rw [if_pos haddr, Option.map_eq_some_iff] at h
  obtain ⟨⟨f, ret, bs⟩, hloop, hr⟩ := h
  have hlen : (d.bytes.take len1.toNat).length = len1.toNat := by
    rw [List.length_take]
    exact Nat.min_eq_left hle
  obtain ⟨hfile, hret, hbs⟩ := writeLoop_writes hfine (by rw [hlen]; exact hpos) (Nat.zero_le _) hloop
  simp only at hfile hret hbs
  subst hret
  simp only [if_true] at hr
  subst hr
  refine ⟨⟨⟨rfl, rfl, rfl, rfl, rfl, rfl⟩, ?_, ?_, ?_⟩, rfl, hbs⟩
  · simpa using hfile
  · simp only [Nat.add_zero]
    congr 1
    apply BitVec.eq_of_toNat_eq
    simp
  · rw [if_pos rfl]
    exact toNat_add_setWidth hpos

/-- The second write, behind the first one. -/
theorem writeSecond_wrote {len2 : BitVec 32} (hfirst : Wrote c d len1.toNat 0 u)
    (hfine : ∀ a ∈ as, a.Fine) (hle : len1.toNat + len2.toNat ≤ d.bytes.length)
    {r : RecChn × Ret × List Answer} (h : u.writeSecond d len1 len2 as = some r) :
    Wrote c d len1.toNat len2.toNat r.1 ∧ r.2.1 = .success := by
  have hfile := hfirst.dataFile
  simp only [List.take_zero, List.map_nil, writeAt_nil] at hfile
  unfold RecChn.writeSecond at h
  split at h
  · next hpos =>
    have hpos' : 0 < len2.toNat := hpos
    have hlt := len2.isLt
    rw [Option.map_eq_some_iff] at h
    obtain ⟨⟨f, ret, bs⟩, hloop, hr⟩ := h
    have hlen : ((d.bytes.drop len1.toNat).take len2.toNat).length = len2.toNat := by
      rw [List.length_take, List.length_drop]
      omega
    obtain ⟨hf, hret, -⟩ := writeLoop_writes hfine (by rw [hlen]; simp; omega) (Nat.zero_le _) hloop
    simp only at hf hret
    subst hret
    simp only [if_true] at hr
    subst hr
    refine ⟨⟨hfirst.mode.trans ⟨rfl, rfl, rfl, rfl, rfl, rfl⟩, ?_, ?_, ?_⟩, rfl⟩
    · simpa [hfile] using hf
    · simp only [hfirst.curFileSize, Nat.add_zero]
      rw [BitVec.add_assoc]
      congr 1
      apply BitVec.eq_of_toNat_eq
      simp [BitVec.toNat_add]
    · rw [if_neg (Nat.ne_of_gt hpos'), BitVec.toNat_setWidth]
      omega
  · next hpos =>
    have hzero : len2.toNat = 0 := Nat.eq_zero_of_not_pos hpos
    cases h
    rw [hzero]
    exact ⟨hfirst, rfl⟩

/-- **One call**, given how the block is cut. -/
theorem cycWriteStream_wrote {k : RecChn.Cut} (haddr : d.dataAddr ≠ 0)
    (hfine : ∀ a ∈ as, a.Fine) (hmax : c.maxSize = some m) (hcut : c.cut m d.len = some (u, k))
    (hmode : SameMode c u) (hsame : u.dataFile = c.dataFile ∧ u.curFileSize = c.curFileSize ∧
      u.curWritePos = c.curWritePos)
    (hle : k.len1.toNat + k.len2.toNat ≤ d.bytes.length)
    (hpos : c.curWritePos.toNat + k.len1.toNat < 0x10000000000000000) (h : c.cycWriteStream l2Cache d as = some r) :
    Wrote c d k.len1.toNat k.len2.toNat r.1 ∧ r.2 = if k.reachFix then .fileTillEnd else .success := by
  obtain ⟨hfile, hsize, hwp⟩ := hsame
  have hlen := d.len_toNat
  unfold RecChn.cycWriteStream at h
  rw [hmax] at h
  simp only [hcut] at h
  rw [if_neg (by bv_omega), Option.bind_eq_some_iff] at h
  obtain ⟨⟨v, ret, bs⟩, hfirst, h⟩ := h
  obtain ⟨hw1, hret, hbs⟩ := writeFirst_wrote haddr hfine (by omega) (by rw [hwp]; exact hpos) hfirst
  simp only at hw1 hret hbs
  subst hret
  simp only [ne_eq, not_true_eq_false, if_false, Option.map_eq_some_iff] at h
  obtain ⟨⟨w, ret, cs⟩, hsecond, h⟩ := h
  obtain ⟨hw2, hret⟩ := writeSecond_wrote hw1 hbs hle hsecond
  simp only at hw2 hret
  subst hret
  simp only [not_true_eq_false, if_false] at h
  subst h
  obtain ⟨hm, hf, hs, hp⟩ := writeEnd_mode l2Cache k.reachFix w
  refine ⟨⟨(hmode.trans hw2.mode).trans hm, ?_, ?_, ?_⟩, rfl⟩
  · rw [hf, hw2.dataFile, hfile, hwp]
  · rw [hs, hw2.curFileSize, hsize]
  · rw [hp, hw2.curWritePos, hwp]

/-- A call returns when one more of the `PVR_PWRITE64`s writes than the block has bytes. -/
theorem cycWriteStream_returns {k : RecChn.Cut} (haddr : d.dataAddr ≠ 0)
    (hfine : ∀ a ∈ as, a.Fine) (hcount : d.bytes.length < as.countP Answer.writes) (hmax : c.maxSize = some m)
    (hcut : c.cut m d.len = some (u, k)) (hle : k.len1.toNat + k.len2.toNat ≤ d.bytes.length)
    (hpos : u.curWritePos.toNat + k.len1.toNat < 0x10000000000000000) :
    (c.cycWriteStream l2Cache d as).isSome := by
  have hlen := d.len_toNat
  have hlen1 : (d.bytes.take k.len1.toNat).length = k.len1.toNat := by
    rw [List.length_take]
    omega
  have hlen2 : ((d.bytes.drop k.len1.toNat).take k.len2.toNat).length = k.len2.toNat := by
    rw [List.length_take, List.length_drop]
    omega
  unfold RecChn.cycWriteStream
  rw [hmax]
  simp only [hcut]
  rw [if_neg (by bv_omega)]
  obtain ⟨⟨f, ret, bs⟩, hloop, hbs⟩ := @writeLoop_returns as (d.bytes.take k.len1.toNat) u.curWritePos u.dataFile
    hfine 0 (by simp only [hlen1, Nat.max_def]; split <;> omega)
  have hwrites := writeLoop_writes hfine (by rw [hlen1]; exact hpos) (Nat.zero_le _) hloop
  simp only at hbs hwrites
  obtain ⟨-, rfl, hbsFine⟩ := hwrites
  have hfirst : u.writeFirst d k.len1 as = some ({ u with
      dataFile := f
      curFileSize := u.curFileSize + k.len1.setWidth 64
      curWritePos := u.curWritePos + k.len1.setWidth 64 }, .success, bs) := by
    unfold RecChn.writeFirst writeStreamDirect
    rw [if_pos haddr, hloop]
    rfl
  rw [hfirst]
  simp only [Option.bind_some, ne_eq, not_true_eq_false, if_false, Option.isSome_map]
  unfold RecChn.writeSecond
  split
  · next hgt =>
    have hgt' : 0 < k.len2.toNat := hgt
    rw [Option.isSome_map]
    obtain ⟨r, hr, -⟩ := @writeLoop_returns bs ((d.bytes.drop k.len1.toNat).take k.len2.toNat) 0 f hbsFine 0
      (by simp only [hlen1, hlen2, Nat.max_def] at hbs ⊢; split at hbs <;> split <;> omega)
    exact Option.isSome_iff_exists.mpr ⟨r, hr⟩
  · rfl

/-! ## Rewind by size -/

/-- A recording that rewinds when its file has `max` bytes. File offsets are `off64_t`. -/
structure SizeMode (c : RecChn) (max : Nat) : Prop where
  rewind : c.rewind = true
  index : ∃ w, c.indexHandle.map Index.rewindType = some w ∧ w ≠ .byTime
  maxSize : c.maxSize = some (BitVec.ofNat 64 max)
  pos : 0 < max
  lt : max < 0x8000000000000000

theorem SizeMode.same (h : SizeMode c max) (hs : SameMode c t) : SizeMode t max :=
  ⟨hs.rewind.trans h.rewind, by rw [hs.rewindType]; exact h.index, hs.maxSize.trans h.maxSize, h.pos, h.lt⟩

theorem SizeMode.cut (h : SizeMode c max) (len : BitVec 32) :
    c.cut (BitVec.ofNat 64 max) len = some (c.cutBySize (BitVec.ofNat 64 max) len) := by
  obtain ⟨w, hw, hne⟩ := h.index
  rw [Option.map_eq_some_iff] at hw
  obtain ⟨ix, hix, rfl⟩ := hw
  unfold RecChn.cut
  rw [if_neg (by simp [RecChn.isFixSize, h.rewind]),
    if_pos (show c.isRewind = true from h.rewind), hix]
  exact if_neg hne

/-- The lengths of the two parts. -/
theorem SizeMode.cutBySize (h : SizeMode c max) (hpos : c.curWritePos.toNat ≤ max) (hlen : d.bytes.length ≤ max) :
    (c.cutBySize (BitVec.ofNat 64 max) d.len).2.reachFix = false ∧
    (c.cutBySize (BitVec.ofNat 64 max) d.len).2.len1.toNat
      = min d.bytes.length (max - c.curWritePos.toNat) ∧
    (c.cutBySize (BitVec.ofNat 64 max) d.len).2.len2.toNat
      = d.bytes.length - (max - c.curWritePos.toNat) := by
  have hl := d.len_toNat
  have hdlt := d.lt
  have hlt := h.lt
  have hmax : (BitVec.ofNat 64 max).toNat = max := by
    rw [BitVec.toNat_ofNat]
    omega
  have hsum : (c.curWritePos + d.len.setWidth 64).toNat = c.curWritePos.toNat + d.bytes.length := by
    rw [toNat_add_setWidth (by omega), hl]
  unfold RecChn.cutBySize
  split
  · next hgt =>
    have hgt' : max < c.curWritePos.toNat + d.bytes.length := by
      rw [← hsum, ← hmax]
      exact hgt
    have hlen1 : ((BitVec.ofNat 64 max - c.curWritePos).setWidth 32).toNat = max - c.curWritePos.toNat := by
      rw [BitVec.toNat_setWidth, BitVec.toNat_sub_of_le (BitVec.le_def.mpr (by omega)), hmax]
      omega
    refine ⟨rfl, ?_, ?_⟩
    · simp only [hlen1]
      omega
    · simp only
      rw [BitVec.toNat_sub_of_le (BitVec.le_def.mpr (by omega)), hl, hlen1]
  · next hgt =>
    have hgt' : ¬ max < c.curWritePos.toNat + d.bytes.length := by
      rw [← hsum, ← hmax]
      exact hgt
    refine ⟨rfl, ?_, ?_⟩
    · simp only [RecChn.whole, hl]
      omega
    · simp only [RecChn.whole]
      simp
      omega

theorem cutBySize_same (c : RecChn) (m : BitVec 64) (len : BitVec 32) :
    SameMode c (c.cutBySize m len).1 ∧ (c.cutBySize m len).1.dataFile = c.dataFile ∧
    (c.cutBySize m len).1.curFileSize = c.curFileSize ∧ (c.cutBySize m len).1.curWritePos = c.curWritePos := by
  unfold RecChn.cutBySize
  split
  · exact ⟨⟨rfl, rfl, rfl, rfl, rfl, rfl⟩, rfl, rfl, rfl⟩
  · exact ⟨SameMode.refl c, rfl, rfl, rfl⟩

/-- The file holds the end of the stream `xs`. -/
structure Rewound (max : Nat) (c : RecChn) (xs : List Byte) : Prop where
  mode : SizeMode c max
  curFileSize : c.curFileSize = BitVec.ofNat 64 xs.length
  curWritePos : c.curWritePos.toNat = xs.length % max ∨ c.curWritePos.toNat = max ∧ xs.length % max = 0
  latest : Latest c.dataFile max (xs.map some)
  outside : ∀ p, max ≤ p → c.dataFile p = none

theorem Rewound.pos_le (h : Rewound max c xs) : c.curWritePos.toNat ≤ max := by
  have hlt := Nat.mod_lt xs.length h.mode.pos
  rcases h.curWritePos with hp | ⟨hp, -⟩
  · omega
  · omega

theorem Rewound.pos_mod (h : Rewound max c xs) : c.curWritePos.toNat % max = xs.length % max := by
  rcases h.curWritePos with hp | ⟨hp, hz⟩
  · rw [hp, Nat.mod_mod]
  · rw [hp, Nat.mod_self, hz]

theorem Rewound.step (h : Rewound max c xs) (haddr : d.dataAddr ≠ 0) (hfine : ∀ a ∈ as, a.Fine)
    (hlen : d.bytes.length ≤ max) (hcall : c.cycWriteStream l2Cache d as = some r) :
    Rewound max r.1 (xs ++ d.bytes) := by
  have hle := h.pos_le
  have hlt := h.mode.lt
  have hdlt := d.lt
  obtain ⟨u, k, hk⟩ : ∃ u k, c.cutBySize (BitVec.ofNat 64 max) d.len = (u, k) := ⟨_, _, rfl⟩
  have hcut := h.mode.cut d.len
  obtain ⟨-, hlen1, hlen2⟩ := h.mode.cutBySize hle hlen
  obtain ⟨hsame, hfields⟩ := cutBySize_same c (BitVec.ofNat 64 max) d.len
  rw [hk] at hcut hlen1 hlen2 hsame hfields
  dsimp only at hlen1 hlen2 hsame hfields
  obtain ⟨hw, -⟩ := cycWriteStream_wrote haddr hfine h.mode.maxSize hcut hsame hfields (by omega) (by omega) hcall
  generalize k.len1.toNat = n at hw hlen1
  generalize k.len2.toNat = n2 at hw hlen2
  -- the second part is what the first one leaves
  have htake : (d.bytes.drop n).take n2 = d.bytes.drop n := by
    apply List.take_of_length_le
    rw [List.length_drop]
    omega
  have hfile := hw.dataFile
  rw [htake] at hfile
  have hl1 : ((d.bytes.take n).map some).length = n := by
    rw [List.length_map, List.length_take]
    omega
  have hl2 : ((d.bytes.drop n).map some).length = n2 := by
    rw [List.length_map, List.length_drop]
    omega
  have hmod := h.pos_mod
  have hnew : (xs.length + d.bytes.length) % max = (c.curWritePos.toNat + d.bytes.length) % max := by
    rw [Nat.add_mod, ← hmod, ← Nat.add_mod]
  refine ⟨h.mode.same hw.mode, ?_, ?_, ?_, ?_⟩
  · rw [hw.curFileSize, h.curFileSize, List.length_append, ← BitVec.ofNat_add]
    congr 1
    omega
  · rw [hw.curWritePos, List.length_append, hnew]
    split
    · -- the block ends before the end of the file, or right there
      rcases Nat.lt_or_eq_of_le (show c.curWritePos.toNat + d.bytes.length ≤ max by omega) with hl | he
      · rw [Nat.mod_eq_of_lt hl]
        omega
      · rw [he, Nat.mod_self]
        omega
    · rw [Nat.mod_eq_sub_mod (by omega)]
      rcases Nat.lt_or_eq_of_le (show n2 ≤ max by omega) with hl | he
      · rw [Nat.mod_eq_of_lt (by omega)]
        omega
      · rw [show c.curWritePos.toNat + d.bytes.length - max = max by omega, Nat.mod_self]
        omega
  · have hfirst : Latest (writeAt c.dataFile c.curWritePos.toNat ((d.bytes.take n).map some)) max
        (xs.map some ++ (d.bytes.take n).map some) :=
      h.latest.writeAt (by rw [List.length_map]; exact hmod) (by rw [hl1]; omega)
    have hbytes : (xs ++ d.bytes).map some
        = (xs.map some ++ (d.bytes.take n).map some) ++ (d.bytes.drop n).map some := by
      rw [List.append_assoc, ← List.map_append, List.take_append_drop, List.map_append]
    rw [hfile, hbytes]
    by_cases hz : n2 = 0
    · rw [List.length_eq_zero_iff.mp (hl2.trans hz), writeAt_nil, List.append_nil]
      exact hfirst
    · refine hfirst.writeAt ?_ (by rw [hl2]; omega)
      rw [List.length_append, hl1, List.length_map, Nat.add_mod, ← hmod, ← Nat.add_mod,
        show c.curWritePos.toNat + n = max by omega, Nat.mod_self, Nat.zero_mod]
  · intro p hp
    rw [hfile, writeAt_of_ge (by rw [hl2]; omega), writeAt_of_ge (by rw [hl1]; omega)]
    exact h.outside p hp

/-! ## Fixed size -/

/-- A recording that ends when its file has `max` bytes. -/
structure FixMode (c : RecChn) (max : Nat) : Prop where
  rewind : c.rewind = false
  limit : c.maxFileSize > 0 ∨ c.maxTimeInMs > 0
  maxSize : c.maxSize = some (BitVec.ofNat 64 max)
  pos : 0 < max
  lt : max < 0x8000000000000000

theorem FixMode.same (h : FixMode c max) (hs : SameMode c t) : FixMode t max :=
  ⟨hs.rewind.trans h.rewind, by rw [hs.maxFileSize, hs.maxTimeInMs]; exact h.limit, hs.maxSize.trans h.maxSize,
    h.pos, h.lt⟩

theorem FixMode.cut (h : FixMode c max) (len : BitVec 32) :
    c.cut (BitVec.ofNat 64 max) len = some (c, c.cutFix (BitVec.ofNat 64 max) len) := by
  unfold RecChn.cut
  apply if_pos
  simpa [RecChn.isFixSize, h.rewind] using h.limit

/-- How much of the block is written, and when the end is reached. -/
theorem FixMode.cutFix (h : FixMode c max) (hsize : c.curFileSize.toNat ≤ max) :
    (c.cutFix (BitVec.ofNat 64 max) d.len).len1.toNat = min d.bytes.length (max - c.curFileSize.toNat) ∧
    (c.cutFix (BitVec.ofNat 64 max) d.len).len2 = 0 ∧
    ((c.cutFix (BitVec.ofNat 64 max) d.len).reachFix = true ↔ max ≤ c.curFileSize.toNat + d.bytes.length) := by
  have hl := d.len_toNat
  have hdlt := d.lt
  have hlt := h.lt
  have hpos := h.pos
  have hmax : (BitVec.ofNat 64 max).toNat = max := by
    rw [BitVec.toNat_ofNat]
    omega
  have hsum : (c.curFileSize + d.len.setWidth 64).toNat = c.curFileSize.toNat + d.bytes.length := by
    rw [toNat_add_setWidth (by omega), hl]
  have hgt : BitVec.ofNat 64 max > 0 := by
    show (0 : BitVec 64).toNat < (BitVec.ofNat 64 max).toNat
    rw [hmax]
    exact hpos
  have hreach : c.curFileSize + d.len.setWidth 64 ≥ BitVec.ofNat 64 max
      ↔ max ≤ c.curFileSize.toNat + d.bytes.length := by
    show (BitVec.ofNat 64 max).toNat ≤ (c.curFileSize + d.len.setWidth 64).toNat ↔ _
    rw [hsum, hmax]
  unfold RecChn.cutFix
  split
  · next hc =>
    have hle := hreach.mp hc.2
    refine ⟨?_, rfl, iff_of_true rfl hle⟩
    simp only
    split
    · rw [BitVec.toNat_setWidth, BitVec.toNat_sub_of_le (BitVec.le_def.mpr (by omega)), hmax]
      omega
    · next hno =>
      have hno' : ¬ c.curFileSize.toNat < max := by
        rw [← hmax]
        exact hno
      simp
      omega
  · next hc =>
    have hnle : ¬ max ≤ c.curFileSize.toNat + d.bytes.length := fun hle => hc ⟨hgt, hreach.mpr hle⟩
    refine ⟨?_, rfl, iff_of_false Bool.noConfusion hnle⟩
    simp only [RecChn.whole, hl]
    omega

/-- The file is the start of the stream `xs`. -/
structure Fixed (max : Nat) (c : RecChn) (xs : List Byte) : Prop where
  mode : FixMode c max
  curFileSize : c.curFileSize.toNat = min xs.length max
  curWritePos : c.curWritePos.toNat = min xs.length max
  dataFile : c.dataFile = fun p => (xs.take max)[p]?

theorem Fixed.step (h : Fixed max c xs) (haddr : d.dataAddr ≠ 0) (hfine : ∀ a ∈ as, a.Fine)
    (hcall : c.cycWriteStream l2Cache d as = some r) :
    Fixed max r.1 (xs ++ d.bytes) ∧
      r.2 = if max ≤ (xs ++ d.bytes).length then .fileTillEnd else .success := by
  have hlt := h.mode.lt
  have hdlt := d.lt
  have hsize := h.curFileSize
  have hwp := h.curWritePos
  have hcut := h.mode.cut d.len
  obtain ⟨hlen1, hlen2, hreach⟩ := h.mode.cutFix (show c.curFileSize.toNat ≤ max by omega)
  generalize c.cutFix (BitVec.ofNat 64 max) d.len = k at hcut hlen1 hlen2 hreach
  have hzero : k.len2.toNat = 0 := by
    rw [hlen2]
    rfl
  obtain ⟨hw, hret⟩ := cycWriteStream_wrote haddr hfine h.mode.maxSize hcut (SameMode.refl c) ⟨rfl, rfl, rfl⟩
    (by omega) (by omega) hcall
  rw [hzero] at hw
  have hlen : (xs ++ d.bytes).length = xs.length + d.bytes.length := List.length_append
  refine ⟨⟨h.mode.same hw.mode, ?_, ?_, ?_⟩, ?_⟩
  · rw [hw.curFileSize, toNat_add_ofNat (by omega), hlen]
    omega
  · rw [hw.curWritePos, if_pos rfl, hlen]
    omega
  · -- the file ends where the block goes
    have htake : (xs ++ d.bytes).take max = xs.take max ++ d.bytes.take k.len1.toNat := by
      rw [List.take_append, hlen1]
      congr 1
      rw [List.take_eq_take_iff]
      omega
    have hend : c.curWritePos.toNat = (xs.take max).length := by
      rw [hwp, List.length_take, Nat.min_comm]
    rw [htake, hw.dataFile, h.dataFile, List.take_zero, List.map_nil, writeAt_nil, hend, writeAt_concat]
  · rw [hret, hlen]
    by_cases hr : k.reachFix = true
    · rw [if_pos hr, if_pos]
      have := hreach.mp hr
      omega
    · rw [if_neg hr, if_neg]
      intro hle
      exact hr (hreach.mpr (by omega))

/-! ## Runs -/

/-- The bytes offered by the calls. -/
def stream (is : List Input) : List Byte := is.flatMap (fun i => i.data.bytes)

theorem stream_snoc (is : List Input) (i : Input) : stream (is ++ [i]) = stream is ++ i.data.bytes := by
  simp [stream]

/-- The blocks of a recording with the maximum size `max`. -/
def BlockOk (max : Nat) (_ : RecChn) (i : Input) : Prop := i.Fine ∧ i.data.bytes.length ≤ max

theorem step_eq {i : Input} {fs : List Ret} (h : step l2Cache c i = some (t, fs)) :
    ∃ ret, c.cycWriteStream l2Cache i.data i.answers = some (t, ret) ∧ fs = [ret] := by
  unfold step at h
  rw [Option.map_eq_some_iff] at h
  obtain ⟨⟨u, ret⟩, hcall, heq⟩ := h
  obtain ⟨rfl, rfl⟩ := Prod.mk.inj heq
  exact ⟨ret, hcall, rfl⟩

theorem run_rewound (h0 : Rewound max c₀ [])
    (hrun : Run (step l2Cache) (BlockOk max) c₀ is c es) : Rewound max c (stream is) := by
  refine hrun.inv_effects (fun is c _ => Rewound max c (stream is)) h0 ?_
  intro is c es i t fs hinv hok hstep
  obtain ⟨ret, hcall, -⟩ := step_eq hstep
  rw [stream_snoc]
  exact hinv.step hok.1.addr hok.1.answers hok.2 hcall

/-- What the calls of a recording of fixed size return. -/
def fixRets (max : Nat) (is : List Input) : List Ret :=
  (List.range is.length).map fun k =>
    if max ≤ (stream (is.take (k + 1))).length then .fileTillEnd else .success

theorem fixRets_snoc (is : List Input) (i : Input) :
    fixRets max (is ++ [i])
      = fixRets max is ++ [if max ≤ (stream (is ++ [i])).length then .fileTillEnd else .success] := by
  unfold fixRets
  rw [List.length_append, List.length_singleton, List.range_succ, List.map_append, List.map_singleton]
  congr 1
  · apply List.map_congr_left
    intro k hk
    rw [List.take_append_of_le_length (List.mem_range.mp hk)]
  · rw [List.take_of_length_le (by simp)]

theorem run_fixed (h0 : Fixed max c₀ [])
    (hrun : Run (step l2Cache) (BlockOk max) c₀ is c es) : Fixed max c (stream is) ∧ es = fixRets max is := by
  refine hrun.inv_effects (fun is c es => Fixed max c (stream is) ∧ es = fixRets max is) ⟨h0, rfl⟩ ?_
  rintro is c es i t fs ⟨hinv, rfl⟩ hok hstep
  obtain ⟨ret, hcall, rfl⟩ := step_eq hstep
  obtain ⟨hnext, hret⟩ := hinv.step hok.1.addr hok.1.answers hcall
  rw [fixRets_snoc, stream_snoc]
  exact ⟨hnext, congrArg (fixRets max is ++ [·]) hret⟩

/-- A call returns as soon as enough of the `PVR_PWRITE64`s write. -/
def Returns (l2Cache : Bool) (max : Nat) (c : RecChn) : Prop :=
  ∀ i, BlockOk max c i → i.data.bytes.length < i.answers.countP Answer.writes → (step l2Cache c i).isSome

theorem Rewound.returns (h : Rewound max c xs) : Returns l2Cache max c := by
  intro i hok hcount
  have hle := h.pos_le
  have hlt := h.mode.lt
  have hdlt := i.data.lt
  obtain ⟨u, k, hk⟩ : ∃ u k, c.cutBySize (BitVec.ofNat 64 max) i.data.len = (u, k) := ⟨_, _, rfl⟩
  have hcut := h.mode.cut i.data.len
  obtain ⟨-, hlen1, hlen2⟩ := h.mode.cutBySize hle hok.2
  obtain ⟨-, -, -, hwp⟩ := cutBySize_same c (BitVec.ofNat 64 max) i.data.len
  rw [hk] at hcut hlen1 hlen2 hwp
  dsimp only at hlen1 hlen2 hwp
  unfold WriteStream.step
  rw [Option.isSome_map]
  exact cycWriteStream_returns hok.1.addr hok.1.answers hcount h.mode.maxSize hcut (by omega) (by rw [hwp]; omega)

theorem Fixed.returns (h : Fixed max c xs) : Returns l2Cache max c := by
  intro i hok hcount
  have hlt := h.mode.lt
  have hsize := h.curFileSize
  have hwp := h.curWritePos
  obtain ⟨hlen1, hlen2, -⟩ : _ ∧ _ ∧ (_ ↔ max ≤ c.curFileSize.toNat + i.data.bytes.length) :=
    h.mode.cutFix (show c.curFileSize.toNat ≤ max by omega)
  unfold WriteStream.step
  rw [Option.isSome_map]
  exact cycWriteStream_returns hok.1.addr hok.1.answers hcount h.mode.maxSize (h.mode.cut i.data.len)
    (by rw [hlen1, hlen2]; simp) (by rw [hlen1]; omega)

/-- **The file of a recording.** A recording that rewinds by size has written all bytes that were offered, none of
    them at or behind the maximum size, and each position holds the last byte that belongs there. A recording of fixed
    size holds the first bytes, and the calls that reach the maximum size say so. Every call returns. -/
theorem run_file {allTs rewind : Bool} {maxFileSize maxTimeInMs : BitVec 64} {indexHandle : Option Index}
    {is : List Input} {es : List Ret}
    (hrun : Run (step l2Cache) (BlockOk max) (start allTs rewind maxFileSize maxTimeInMs indexHandle) is c es) :
    (SizeMode (start allTs rewind maxFileSize maxTimeInMs indexHandle) max →
      c.curFileSize = BitVec.ofNat 64 (stream is).length ∧
      (c.curWritePos.toNat = (stream is).length % max ∨ c.curWritePos.toNat = max) ∧
      (∀ p, max ≤ p → c.dataFile p = none) ∧
      (∀ p, p < min (stream is).length max → ∃ g, ∃ hg : g < (stream is).length, g % max = p ∧
        (∀ k, k < (stream is).length → k % max = p → k ≤ g) ∧ c.dataFile p = some (stream is)[g]) ∧
      Returns l2Cache max c) ∧
    (FixMode (start allTs rewind maxFileSize maxTimeInMs indexHandle) max →
      (c.dataFile = fun p => ((stream is).take max)[p]?) ∧ es = fixRets max is ∧ Returns l2Cache max c) := by
  refine ⟨fun hmode => ?_, fun hmode => ?_⟩
  · have h0 : Rewound max (start allTs rewind maxFileSize maxTimeInMs indexHandle) [] :=
      ⟨hmode, rfl, Or.inl (by simp [start]), Latest.nil _ _, fun _ _ => rfl⟩
    have hinv := run_rewound h0 hrun
    refine ⟨hinv.curFileSize, hinv.curWritePos.imp_right And.left, hinv.outside, ?_, hinv.returns⟩
    intro p hp
    have hlen : ((stream is).map some).length = (stream is).length := List.length_map _
    obtain ⟨g, hg, hgp, hlast, hcell⟩ := hinv.latest.cell (show p < max by omega) (by rw [hlen]; omega)
    rw [hlen] at hg hlast
    exact ⟨g, hg, hgp, hlast, by rw [hcell, List.getElem_map]⟩
  · have h0 : Fixed max (start allTs rewind maxFileSize maxTimeInMs indexHandle) [] := by
      refine ⟨hmode, by simp [start], by simp [start], ?_⟩
      funext p
      simp [start]
    obtain ⟨hinv, hes⟩ := run_fixed h0 hrun
    exact ⟨hinv.dataFile, hes, hinv.returns⟩

instance (a : Answer) : Decidable a.Fine := by
  cases a <;> unfold Answer.Fine <;> infer_instance

instance (max : Nat) (c : RecChn) (i : Input) : Decidable (BlockOk max c i) :=
  decidable_of_iff ((i.data.dataAddr ≠ 0 ∧ ∀ a ∈ i.answers, a.Fine) ∧ i.data.bytes.length ≤ max)
    ⟨fun h => ⟨⟨h.1.1, h.1.2⟩, h.2⟩, fun h => ⟨⟨h.1.addr, h.1.answers⟩, h.2⟩⟩

/-- A recording in a file of four bytes; `rewind` by size, or of fixed size. -/
def fourByteFile (rewind : Bool) : RecChn := start false rewind 4 0 (some ⟨4, .bySize, false, 0, 0⟩)

/-- Two blocks of three bytes, written in pieces. -/
def threeAndThree : List Input :=
  [⟨⟨0x1000, [1, 2, 3], by decide⟩, [.wrote 1, .eintr, .wrote 0]⟩,
    ⟨⟨0x2000, [4, 5, 6], by decide⟩, [.wrote 4, .eintr, .wrote 0, .wrote 0]⟩]

/-- The six bytes go around a file of four, or it ends full where it may not be rewound. -/
theorem run_file_threeAndThree :
    (∃ c es, Run (step false) (BlockOk 4) (fourByteFile true) threeAndThree c es ∧
      c.curFileSize = 6 ∧ c.curWritePos.toNat = 2 ∧ ∀ p, 4 ≤ p → c.dataFile p = none) ∧
    ∃ c es, Run (step false) (BlockOk 4) (fourByteFile false) threeAndThree c es ∧
      es = [.success, .fileTillEnd] ∧ c.dataFile = fun p => ([1, 2, 3, 4] : List Byte)[p]? := by
  constructor
  · refine exists_run_imp (fun c _ => c.curWritePos.toNat = 2) (by decide) fun _ _ hrun htest => ?_
    have hmode : SizeMode (fourByteFile true) 4 := ⟨rfl, ⟨_, rfl, by decide⟩, rfl, by decide, by decide⟩
    obtain ⟨hsize, -, hout, -⟩ := (run_file hrun).1 hmode
    exact ⟨hsize, htest, hout⟩
  · obtain ⟨c, es, hrun, -⟩ := exists_run_of_exec (step false) (BlockOk 4) (fourByteFile false) threeAndThree
      (fun _ => true) (by decide)
    have hmode : FixMode (fourByteFile false) 4 := ⟨rfl, Or.inl (by decide), rfl, by decide, by decide⟩
    obtain ⟨hfile, hes, -⟩ := (run_file hrun).2 hmode
    exact ⟨c, es, hrun, hes, hfile⟩

end HiSTB.Pvr.WriteStream
