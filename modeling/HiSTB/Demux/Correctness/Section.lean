import HiSTB.Demux.Section
import Mathlib.Data.List.TakeDrop

/-!
# `Demux.Correctness.Section` — a section channel hands out every section once

* `Good` — a section that the channel wants; `parseLoop_good` — a row of them is parsed one by one;
* `Cursor` — how far the blocks are handed out; `secLoop_cursor`, `readSec_cursor` — the calls move it;
* `run_sections` — in every run, the messages are the sections in order, and a call returns nothing only where all
  that had come when it began is handed out.
-/

namespace HiSTB.Demux.Section

open Lib

variable {i bufLen n : Nat} {b b' : Block} {p : Parse} {between : List (List HwEvent)}

/-! ## Sections that the channel wants -/

/-- A section: its bytes say its length, and it passes the channel's rules. -/
structure Good (cfg : Config) (sec : List Byte) : Prop where
  length : lengthAt sec 0 = sec.length
  max : sec.length ≤ cfg.maxSecLen
  crc : discards cfg sec 0 sec.length = false
  filter : ¬ (sec.length < cfg.filterMaxDepth + cfg.sectionLengthFieldSize ∧ passes cfg sec 0 sec.length = false)

variable {cfg : Config} {sec pre extra : List Byte} {secs : List (List Byte)} {addr bufAddr : BitVec 32}

theorem Good.three_le (h : Good cfg sec) : 3 ≤ sec.length := by
  have hlen := h.length
  unfold lengthAt at hlen
  omega

theorem at_append (pre sec post : List Byte) (hi : i < sec.length) :
    at_ (pre ++ (sec ++ post)) (pre.length + i) = at_ sec i := by
  unfold at_
  rw [List.getD_eq_getElem?_getD, List.getD_eq_getElem?_getD, List.getElem?_append_right (Nat.le_add_right _ _),
    Nat.add_sub_cancel_left, List.getElem?_append_left hi]

theorem lengthAt_append (h : Good cfg sec) (pre post : List Byte) :
    lengthAt (pre ++ (sec ++ post)) pre.length = sec.length := by
  have hthree := h.three_le
  rw [← h.length]
  unfold lengthAt
  rw [at_append pre sec post (by omega), at_append pre sec post (by omega), Nat.zero_add, Nat.zero_add]

theorem loop_append (f : Filter) (pre post : List Byte) (n j len : Nat) (hthree : 3 ≤ sec.length)
    (hlen : len ≤ sec.length) :
    f.loop (pre ++ (sec ++ post)) pre.length sec.length n j len = f.loop sec 0 sec.length n j len := by
  induction n generalizing j len with
  | zero => rfl
  | succ n ih =>
    unfold Filter.loop
    by_cases hend : len = sec.length
    · rw [if_pos hend, if_pos hend]
    · rw [if_neg hend, if_neg hend, at_append pre sec post (by omega), Nat.zero_add,
        ih (j + 1) (if j = 0 then 3 else len + 1) (by split_ifs <;> omega)]

theorem passes_append (h : Good cfg sec) (pre post : List Byte) :
    passes cfg (pre ++ (sec ++ post)) pre.length sec.length = passes cfg sec 0 sec.length := by
  unfold passes
  simp only [loop_append _ pre post _ _ _ h.three_le (Nat.zero_le _)]

theorem discards_append (h : Good cfg sec) (pre post : List Byte) :
    discards cfg (pre ++ (sec ++ post)) pre.length sec.length = discards cfg sec 0 sec.length := by
  have hthree := h.three_le
  unfold discards
  rw [at_append pre sec post (by omega), Nat.zero_add]

/-- The rest of the buffer is a row of sections. -/
theorem checkLoop_good (hsecs : ∀ s ∈ secs, Good cfg s) (pre extra : List Byte) (fuel : Nat)
    (hle : pre.length + secs.flatten.length ≤ bufLen) :
    checkLoop cfg.maxSecLen (pre ++ (secs.flatten ++ extra)) bufLen fuel secs.flatten.length pre.length = true := by
  induction secs generalizing pre fuel with
  | nil =>
    cases fuel with
    | zero => rfl
    | succ fuel => rfl
  | cons sec secs ih =>
    have hgood := hsecs sec List.mem_cons_self
    cases fuel with
    | zero => rfl
    | succ fuel =>
      rw [List.flatten_cons, List.length_append] at hle
      unfold checkLoop
      rw [List.flatten_cons, List.append_assoc, lengthAt_append hgood]
      dsimp only
      split_ifs with hrem hoff hbad
      · omega
      · have hmax := hgood.max
        rw [List.length_append] at hbad
        omega
      · have hrest := ih (fun s hs => hsecs s (List.mem_cons_of_mem _ hs)) (pre ++ sec) fuel
          (by rw [List.length_append]; omega)
        rw [List.append_assoc, List.length_append] at hrest
        rw [List.length_append, Nat.add_sub_cancel_left]
        exact hrest
      · rfl

/-- The block's memory is mapped, at an address the driver can compute with. -/
structure Mapped (cfg : Config) (addr : BitVec 32) : Prop where
  ne_zero : cfg.virAddr addr ≠ 0
  room : (cfg.virAddr addr).toNat + 0xffff < 0x100000000

theorem verdict_good (hsec : cfg.chanType = .sec) (hmap : Mapped cfg addr)
    (hsecs : ∀ s ∈ sec :: secs, Good cfg s) (hlen : bufLen = pre.length + (sec :: secs).flatten.length)
    (hlt : bufLen < 0x10000) :
    verdict cfg (cfg.virAddr addr) (pre ++ ((sec :: secs).flatten ++ extra)) bufLen pre.length =
      .keep sec.length := by
  have hgood := hsecs sec List.mem_cons_self
  have hthree := hgood.three_le
  have hcheck := checkLoop_good hsecs pre extra bufLen (Nat.le_of_eq hlen.symm)
  have hlong : (sec :: secs).flatten.length = sec.length + secs.flatten.length := by
    rw [List.flatten_cons, List.length_append]
  have hroom := hmap.room
  have hunit : unitLength cfg (cfg.virAddr addr) (pre ++ ((sec :: secs).flatten ++ extra)) bufLen
      pre.length = sec.length := by
    unfold unitLength getSectionLength checkBuffer
    rw [hsec]
    rw [if_neg hmap.ne_zero, if_neg (by omega), if_neg (by omega), hlen, Nat.add_sub_cancel_left, ← hlen, hcheck,
      if_neg (by decide), if_pos (by omega), if_neg]
    · rw [List.flatten_cons, List.append_assoc, lengthAt_append hgood, ← List.flatten_cons, if_neg (by omega)]
    · rw [ge_iff_le, BitVec.le_def, BitVec.toNat_add, BitVec.toNat_add, BitVec.toNat_ofNat, BitVec.toNat_ofNat]
      omega
  unfold verdict
  rw [if_neg (by rw [hsec]; simp)]
  rw [hunit, if_neg, List.flatten_cons, List.append_assoc, discards_append hgood, hgood.crc, if_neg (by decide),
    passes_append hgood, if_neg hgood.filter]
  have hmax := hgood.max
  omega

/-! ## Parsing a row of sections -/

/-- The messages for a row of sections from `offset` on. -/
def msgsFrom (addr : BitVec 32) : Nat → List (List Byte) → List Msg
  | _, [] => []
  | offset, sec :: secs => ⟨addr + BitVec.ofNat 32 offset, sec.length⟩ :: msgsFrom addr (offset + sec.length) secs

@[simp] theorem length_msgsFrom (addr : BitVec 32) (offset : Nat) (secs : List (List Byte)) :
    (msgsFrom addr offset secs).length = secs.length := by
  induction secs generalizing offset with
  | nil => rfl
  | cons sec secs ih => rw [msgsFrom, List.length_cons, ih, List.length_cons]

theorem msgsFrom_append (addr : BitVec 32) (offset : Nat) (as bs : List (List Byte)) :
    msgsFrom addr offset (as ++ bs) = msgsFrom addr offset as ++ msgsFrom addr (offset + as.flatten.length) bs := by
  induction as generalizing offset with
  | nil => rfl
  | cons a as ih =>
    rw [List.cons_append, msgsFrom, ih, msgsFrom, List.cons_append, List.flatten_cons, List.length_append,
      Nat.add_assoc]

theorem take_msgsFrom (addr : BitVec 32) (offset n : Nat) (secs : List (List Byte)) :
    (msgsFrom addr offset secs).take n = msgsFrom addr offset (secs.take n) := by
  induction secs generalizing offset n with
  | nil => rw [List.take_nil, msgsFrom, List.take_nil]
  | cons sec secs ih =>
    cases n with
    | zero => rfl
    | succ n => rw [msgsFrom, List.take_succ_cons, ih, List.take_succ_cons, msgsFrom]

theorem length_le_flatten (h : ∀ s ∈ secs, Good cfg s) : secs.length ≤ secs.flatten.length := by
  induction secs with
  | nil => exact Nat.le_refl _
  | cons sec secs ih =>
    have hthree := (h sec List.mem_cons_self).three_le
    have hrest := ih (fun s hs => h s (List.mem_cons_of_mem _ hs))
    rw [List.flatten_cons, List.length_append, List.length_cons]
    omega

theorem parseLoop_good {bufLen acqNum fuel : Nat} {p : Parse} (hsec : cfg.chanType = .sec) (hmap : Mapped cfg addr)
    (hsecs : ∀ s ∈ secs, Good cfg s) (hne : secs ≠ []) (hoff : p.offset = pre.length)
    (hlen : bufLen = pre.length + secs.flatten.length) (hlt : bufLen < 0x10000) (hfuel : secs.length ≤ fuel) :
    let q := parseLoop cfg addr (cfg.virAddr addr) (pre ++ (secs.flatten ++ extra)) bufLen acqNum fuel p
    q.msgs = p.msgs ++ msgsFrom addr p.offset (secs.take (acqNum - p.msgs.length)) ∧
      q.offset = p.offset + (secs.take (acqNum - p.msgs.length)).flatten.length := by
  induction secs generalizing pre fuel p with
  | nil => exact absurd rfl hne
  | cons sec secs ih =>
    have hgood := hsecs sec List.mem_cons_self
    have hrest : ∀ s ∈ secs, Good cfg s := fun s hs => hsecs s (List.mem_cons_of_mem _ hs)
    obtain ⟨fuel, rfl⟩ : ∃ f, fuel = f + 1 := ⟨fuel - 1, by rw [List.length_cons] at hfuel; omega⟩
    unfold parseLoop
    by_cases hfull : p.msgs.length ≥ acqNum
    · rw [if_pos hfull, Nat.sub_eq_zero_of_le hfull, List.take_zero]
      exact ⟨(List.append_nil _).symm, rfl⟩
    · obtain ⟨n, hn⟩ : ∃ n, acqNum - p.msgs.length = n + 1 := ⟨acqNum - p.msgs.length - 1, by omega⟩
      rw [if_neg hfull, hoff, verdict_good hsec hmap hsecs hlen hlt, hn, List.take_succ_cons]
      dsimp only
      have hflat : (sec :: secs).flatten.length = sec.length + secs.flatten.length := by
        rw [List.flatten_cons, List.length_append]
      cases secs with
      | nil =>
        rw [if_pos (by rw [hlen, hflat]; simp)]
        simp [msgsFrom]
      | cons sec' secs =>
        have hpos := length_le_flatten hrest
        rw [List.length_cons] at hpos
        rw [if_neg (by omega)]
        have hnext := @ih (pre ++ sec) fuel
          ⟨p.msgs ++ [⟨addr + BitVec.ofNat 32 pre.length, sec.length⟩], pre.length + sec.length,
            p.errs.erase addr⟩ hrest (by simp) (by simp) (by rw [List.length_append]; omega)
          (by rw [List.length_cons] at hfuel; omega)
        have hn' : acqNum - (p.msgs ++ [(⟨addr + BitVec.ofNat 32 pre.length, sec.length⟩ : Msg)]).length = n := by
          rw [List.length_append, List.length_singleton]
          omega
        rw [hn', List.append_assoc pre] at hnext
        rw [List.flatten_cons, List.append_assoc sec]
        refine ⟨hnext.1.trans ?_, hnext.2.trans ?_⟩
        · rw [msgsFrom, List.append_assoc, List.singleton_append]
        · rw [List.flatten_cons, List.length_append, Nat.add_assoc]

/-- **A row of sections is parsed one by one**, as many as are asked for. -/
theorem parseSection_good {bufLen acqNum : Nat} {p : Parse} (hsec : cfg.chanType = .sec) (hmap : Mapped cfg addr)
    (hsecs : ∀ s ∈ secs, Good cfg s) (hoff : p.offset = pre.length)
    (hlen : bufLen = pre.length + secs.flatten.length) (hlt : bufLen < 0x10000) :
    let q := parseSection cfg acqNum addr (pre ++ (secs.flatten ++ extra)) bufLen p
    q.msgs = p.msgs ++ msgsFrom addr p.offset (secs.take (acqNum - p.msgs.length)) ∧
      q.offset = p.offset + (secs.take (acqNum - p.msgs.length)).flatten.length := by
  have hpos := length_le_flatten hsecs
  unfold parseSection
  by_cases hne : secs = []
  · subst hne
    rw [if_pos (by rw [hlen, hoff]; simp), List.take_nil]
    exact ⟨(List.append_nil _).symm, rfl⟩
  · have hlong := List.length_pos_iff.mpr hne
    rw [if_neg (by omega)]
    exact parseLoop_good hsec hmap hsecs hne hoff hlen hlt (by omega)

/-! ## How far the blocks are handed out -/

/-- A block that the hardware may fill. -/
structure Block.Ok (cfg : Config) (b : Block) : Prop where
  mapped : Mapped cfg b.startAddr
  good : ∀ s ∈ b.secs, Good cfg s
  short : b.data.length < 0x10000

/-- The messages of a block. -/
def Block.msgs (b : Block) : List Msg := msgsFrom b.startAddr 0 b.secs

/-- The blocks with data, the current one last. -/
def Hw.blocks (h : Hw) : List Block := h.closed ++ if h.valid then [h.cur] else []

/-- The sections that have come. -/
def received (h : Hw) : List Msg := h.blocks.flatMap Block.msgs

/-- No block. -/
def noBlock : Block := ⟨0, []⟩

/-- Of the blocks `bs`, those before `procsBlk` are handed out, and `j` sections of that one. -/
structure Cursor (bs : List Block) (procsBlk j offset : Nat) (out : List Msg) : Prop where
  blk : procsBlk ≤ bs.length
  le : j ≤ (bs.getD procsBlk noBlock).secs.length
  offset : offset = ((bs.getD procsBlk noBlock).secs.take j).flatten.length
  out : out = (bs.take procsBlk).flatMap Block.msgs ++ (bs.getD procsBlk noBlock).msgs.take j

variable {bs : List Block} {procsBlk j offset acqNum : Nat} {out : List Msg}

/-- The block is over. -/
theorem Cursor.next (h : Cursor bs procsBlk j offset out) (hb : bs[procsBlk]? = some b)
    (hj : j = b.secs.length) : Cursor bs (procsBlk + 1) 0 0 out := by
  have hlt := (List.getElem?_eq_some_iff.mp hb).1
  have hget : bs.getD procsBlk noBlock = b := by rw [List.getD_eq_getElem?_getD, hb, Option.getD_some]
  have hout := h.out
  rw [hget, hj, Block.msgs, take_msgsFrom, List.take_length] at hout
  refine ⟨hlt, Nat.zero_le _, by rw [List.take_zero]; rfl, ?_⟩
  rw [hout, List.take_zero, List.append_nil, List.take_add_one, hb, List.flatMap_append]
  simp [Block.msgs]

/-- Some sections more. -/
theorem Cursor.more (h : Cursor bs procsBlk j offset out) (hb : bs[procsBlk]? = some b) :
    Cursor bs procsBlk (min (j + n) b.secs.length) (offset + ((b.secs.drop j).take n).flatten.length)
      (out ++ msgsFrom b.startAddr offset ((b.secs.drop j).take n)) := by
  have hget : bs.getD procsBlk noBlock = b := by rw [List.getD_eq_getElem?_getD, hb, Option.getD_some]
  have hsplit : b.secs.take (j + n) = b.secs.take j ++ (b.secs.drop j).take n := List.take_add
  have htake : b.secs.take (min (j + n) b.secs.length) = b.secs.take (j + n) := by
    rw [← List.take_take, List.take_length]
  have hoff := h.offset
  have hout := h.out
  rw [hget] at hoff hout
  refine ⟨h.blk, ?_, ?_, ?_⟩
  · rw [hget]
    exact Nat.min_le_right _ _
  · rw [hget, htake, hsplit, List.flatten_append, List.length_append, ← hoff]
  · rw [hget, hout, Block.msgs, take_msgsFrom, take_msgsFrom, htake, hsplit, msgsFrom_append, Nat.zero_add, ← hoff,
      List.append_assoc]

/-- Parsing the block at the cursor. -/
theorem parseSection_cursor (hsec : cfg.chanType = .sec) (hb : bs[procsBlk]? = some b)
    (hok : b.Ok cfg) (h : Cursor bs procsBlk j p.offset out) (hn : n = acqNum - p.msgs.length) :
    (parseSection cfg acqNum b.startAddr b.data b.data.length p).msgs =
        p.msgs ++ msgsFrom b.startAddr p.offset ((b.secs.drop j).take n) ∧
      (parseSection cfg acqNum b.startAddr b.data b.data.length p).offset =
        p.offset + ((b.secs.drop j).take n).flatten.length := by
  have hget : bs.getD procsBlk noBlock = b := by rw [List.getD_eq_getElem?_getD, hb, Option.getD_some]
  have hoff := h.offset
  rw [hget] at hoff
  have hdata : b.data = (b.secs.take j).flatten ++ ((b.secs.drop j).flatten ++ []) := by
    rw [List.append_nil, ← List.flatten_append, List.take_append_drop]
    rfl
  have hlen : b.data.length = (b.secs.take j).flatten.length + (b.secs.drop j).flatten.length := by
    rw [hdata, List.append_nil, List.length_append]
  have hparse := @parseSection_good cfg _ [] _ _ _ acqNum _ hsec hok.mapped
    (fun s hs => hok.good s (List.mem_of_mem_drop hs)) hoff hlen hok.short
  rw [← hdata] at hparse
  rw [hn]
  exact hparse

/-- **The blocks before the write pointer `w` are handed out in order**, until there are enough messages or no block
    is left. -/
theorem secLoop_cursor {c : Chan} {rest : List Block} {w : Nat} (hsec : cfg.chanType = .sec)
    (hok : ∀ b ∈ bs, b.Ok cfg) (hw : w ≤ bs.length) (hblk : procsBlk ≤ w) (hrest : rest = (bs.take w).drop procsBlk)
    (hacq : p.msgs.length < acqNum) (h : Cursor bs procsBlk j p.offset (out ++ p.msgs))
    (hstored : p.msgs = [] → c.procsBlk = procsBlk ∧ c.procsOffset = p.offset) :
    let r := secLoop cfg acqNum rest c procsBlk p
    (∃ i, Cursor bs r.2.1 i r.2.2.offset (out ++ r.2.2.msgs)) ∧ r.2.1 ≤ w ∧
      (r.2.2.msgs = [] → r.1.procsBlk = r.2.1 ∧ r.1.procsOffset = r.2.2.offset) ∧
      (r.2.2.msgs.length < acqNum → r.2.1 = w) := by
  induction rest generalizing procsBlk j c p with
  | nil =>
    refine ⟨⟨j, h⟩, hblk, hstored, fun _ => ?_⟩
    have hge := List.drop_eq_nil_iff.mp hrest.symm
    rw [List.length_take, Nat.min_eq_left hw] at hge
    exact Nat.le_antisymm hblk hge
  | cons b rest ih =>
    have hlt : procsBlk < (bs.take w).length := by
      by_contra hge
      rw [List.drop_eq_nil_of_le (Nat.le_of_not_lt hge)] at hrest
      cases hrest
    rw [List.drop_eq_getElem_cons hlt] at hrest
    obtain ⟨hbeq, hrest⟩ := List.cons.inj hrest
    rw [List.length_take, Nat.min_eq_left hw] at hlt
    have hb : bs[procsBlk]? = some b := by
      rw [hbeq, List.getElem_take, List.getElem?_eq_getElem (Nat.lt_of_lt_of_le hlt hw)]
    have hbok := hok b (List.mem_of_getElem? hb)
    have hget : bs.getD procsBlk noBlock = b := by rw [List.getD_eq_getElem?_getD, hb, Option.getD_some]
    have hle := h.le
    rw [hget] at hle
    obtain ⟨hmsgs, hoffset⟩ := parseSection_cursor hsec hb hbok h rfl
    have hmore := h.more (n := acqNum - p.msgs.length) hb
    rw [List.append_assoc, ← hmsgs, ← hoffset] at hmore
    unfold secLoop
    dsimp only
    generalize parseSection cfg acqNum b.startAddr b.data b.data.length p = q at hmsgs hoffset hmore ⊢
    have hlength : q.msgs.length = p.msgs.length + min (acqNum - p.msgs.length) (b.secs.length - j) := by
      rw [hmsgs, List.length_append, length_msgsFrom, List.length_take, List.length_drop]
    rcases Nat.eq_or_lt_of_le hle with hj | hj
    · -- the block is over
      rw [if_pos (by omega)]
      have hsame : q.msgs = p.msgs := by
        rw [hmsgs, hj, List.drop_length, List.take_nil, msgsFrom, List.append_nil]
      refine ih (j := 0) hlt hrest (by rw [hsame]; exact hacq) ?_ (fun _ => ⟨rfl, rfl⟩)
      rw [hsame]
      exact h.next hb hj
    · rw [if_neg (by omega)]
      have hne : q.msgs ≠ [] := by
        intro hnil
        rw [hnil, List.length_nil] at hlength
        omega
      by_cases hdone : b.secs.length ≤ j + (acqNum - p.msgs.length)
      · -- its last section is among the messages
        rw [Nat.min_eq_right hdone] at hmore
        have hend : q.offset ≥ b.data.length := by
          rw [hmore.offset, hget, List.take_length]
          exact Nat.le_refl _
        rw [if_pos hend, if_pos hend]
        have hnext := hmore.next hb rfl
        by_cases hfull : q.msgs.length ≥ acqNum
        · rw [if_pos hfull]
          exact ⟨⟨0, hnext⟩, hlt, fun hnil => absurd hnil hne, fun hless => absurd hfull (Nat.not_le.mpr hless)⟩
        · rw [if_neg hfull]
          exact ih hlt hrest (Nat.lt_of_not_le hfull) hnext (fun hnil => absurd hnil hne)
      · -- the messages are enough, in the middle of the block
        have hopen : ¬ q.offset ≥ b.data.length := by
          have hrestlen := length_le_flatten (fun s hs => hbok.good s
            (List.mem_of_mem_drop (i := j + (acqNum - p.msgs.length)) hs))
          have hdata : b.data.length = (b.secs.take (j + (acqNum - p.msgs.length))).flatten.length +
              (b.secs.drop (j + (acqNum - p.msgs.length))).flatten.length := by
            rw [← List.length_append, ← List.flatten_append, List.take_append_drop]
            rfl
          rw [List.length_drop] at hrestlen
          rw [hmore.offset, hget, Nat.min_eq_left (by omega)]
          omega
        have hfull : q.msgs.length ≥ acqNum := by omega
        rw [if_neg hopen, if_neg hopen, if_pos hfull]
        exact ⟨⟨_, hmore⟩, hblk, fun hnil => absurd hnil hne, fun hless => absurd hfull (Nat.not_le.mpr hless)⟩

theorem closed_eq_take (h : Hw) : h.closed = h.blocks.take h.closed.length := by
  rw [Hw.blocks, List.take_left]

theorem closed_le_blocks (h : Hw) : h.closed.length ≤ h.blocks.length := by
  rw [Hw.blocks, List.length_append]
  exact Nat.le_add_right _ _

/-- How far the channel has handed out the blocks of the hardware. -/
structure At (h : Hw) (c : Chan) (j : Nat) (out : List Msg) : Prop where
  blk : c.procsBlk ≤ h.closed.length
  cursor : Cursor h.blocks c.procsBlk j c.procsOffset out

/-- **What a look at the queue finds.** Where there is no message, all blocks of the queue are handed out. -/
theorem readToMsgBuffer_at {h : Hw} {c : Chan} (hsec : cfg.chanType = .sec) (hok : ∀ b ∈ h.blocks, b.Ok cfg)
    (hacq : 0 < acqNum) (hat : At h c j out) :
    (∃ i, At h (readToMsgBuffer cfg acqNum h c).1 i (out ++ (readToMsgBuffer cfg acqNum h c).2)) ∧
      ((readToMsgBuffer cfg acqNum h c).2 = [] → (readToMsgBuffer cfg acqNum h c).1.procsBlk = h.closed.length) := by
  have hstart : Cursor h.blocks c.procsBlk j (⟨[], c.procsOffset, c.errs⟩ : Parse).offset (out ++ []) := by
    rw [List.append_nil]
    exact hat.cursor
  have hloop := secLoop_cursor (c := c) hsec hok (closed_le_blocks h) hat.blk rfl hacq hstart (fun _ => ⟨rfl, rfl⟩)
  rw [← closed_eq_take] at hloop
  obtain ⟨⟨i, hcursor⟩, hle, hstored, hall⟩ := hloop
  unfold readToMsgBuffer
  generalize secLoop cfg acqNum (h.closed.drop c.procsBlk) c c.procsBlk ⟨[], c.procsOffset, c.errs⟩ = r
    at hcursor hle hstored hall ⊢
  by_cases hnil : r.2.2.msgs = []
  · rw [if_neg (not_not.mpr hnil)]
    obtain ⟨hblk, hoff⟩ := hstored hnil
    rw [hnil, ← hblk, ← hoff] at hcursor
    exact ⟨⟨i, hblk ▸ hle, hcursor⟩, fun _ => hblk.trans (hall (by rw [hnil]; exact hacq))⟩
  · rw [if_pos hnil]
    exact ⟨⟨i, hle, hcursor⟩, fun hnil' => absurd hnil' hnil⟩

/-! ## The hardware goes on -/

/-- What the hardware may do: its blocks are mapped, and it writes sections that the channel wants. -/
def HwEvent.Ok (cfg : Config) : HwEvent → Prop
  | .take a => Mapped cfg a
  | .append sec => Good cfg sec
  | .close => True

variable {h h' : Hw} {c : Chan} {e : HwEvent} {es : List HwEvent}

/-- The cursor stands while blocks are added behind it, and sections to the block it is in. -/
theorem Cursor.grow {bs' : List Block} (hc : Cursor bs procsBlk j offset out) (hle : procsBlk ≤ bs'.length)
    (htake : bs'.take procsBlk = bs.take procsBlk)
    (hsecs : (bs.getD procsBlk noBlock).secs <+: (bs'.getD procsBlk noBlock).secs)
    (haddr : (bs.getD procsBlk noBlock).secs ≠ [] →
      (bs'.getD procsBlk noBlock).startAddr = (bs.getD procsBlk noBlock).startAddr) :
    Cursor bs' procsBlk j offset out := by
  obtain ⟨more, hmore⟩ := hsecs
  have hj := hc.le
  have hsame : (bs'.getD procsBlk noBlock).secs.take j = (bs.getD procsBlk noBlock).secs.take j := by
    rw [← hmore, List.take_append_of_le_length hj]
  refine ⟨hle, ?_, ?_, ?_⟩
  · rw [← hmore, List.length_append]
    omega
  · rw [hsame]
    exact hc.offset
  · rw [htake, hc.out, Block.msgs, Block.msgs, take_msgsFrom, take_msgsFrom, hsame]
    by_cases hnil : (bs.getD procsBlk noBlock).secs = []
    · rw [hnil, List.take_nil, msgsFrom, msgsFrom]
    · rw [haddr hnil]

theorem getD_closed (hi : i < h.closed.length) (tail : List Block) :
    (h.closed ++ tail).getD i noBlock = h.closed.getD i noBlock := by
  rw [List.getD_eq_getElem?_getD, List.getD_eq_getElem?_getD, List.getElem?_append_left hi]

theorem getD_tail (h : Hw) (tail : List Block) :
    (h.closed ++ tail).getD h.closed.length noBlock = tail.getD 0 noBlock := by
  rw [List.getD_eq_getElem?_getD, List.getD_eq_getElem?_getD, List.getElem?_append_right (Nat.le_refl _), Nat.sub_self]

/-- The blocks behind the queue's are other ones now. -/
theorem Cursor.swap {as bs : List Block} (hc : Cursor (h.closed ++ as) procsBlk j offset out)
    (hle : procsBlk ≤ h.closed.length) (hsecs : (as.getD 0 noBlock).secs <+: (bs.getD 0 noBlock).secs)
    (haddr : (as.getD 0 noBlock).secs ≠ [] → (bs.getD 0 noBlock).startAddr = (as.getD 0 noBlock).startAddr) :
    Cursor (h.closed ++ bs) procsBlk j offset out := by
  have hlen : procsBlk ≤ (h.closed ++ bs).length := by
    rw [List.length_append]
    omega
  have htake : (h.closed ++ bs).take procsBlk = (h.closed ++ as).take procsBlk := by
    rw [List.take_append_of_le_length hle, List.take_append_of_le_length hle]
  rcases Nat.lt_or_eq_of_le hle with hlt | rfl
  · refine hc.grow hlen htake ?_ ?_
    · have hsame : (h.closed ++ bs).getD procsBlk noBlock = (h.closed ++ as).getD procsBlk noBlock := by
        rw [getD_closed hlt, getD_closed hlt]
      exact hsame ▸ List.prefix_rfl
    · rw [getD_closed hlt, getD_closed hlt]
      exact fun _ => rfl
  · refine hc.grow hlen htake ?_ ?_
    · rw [getD_tail, getD_tail]
      exact hsecs
    · rw [getD_tail, getD_tail]
      exact haddr

/-- **What the hardware can do.** -/
theorem next_cases (h : Hw) (e : HwEvent) :
    h.next e = h ∨
    (∃ a, e = .take a ∧ h.valid = false ∧ h.next e = ⟨h.closed, true, ⟨a, []⟩⟩) ∨
    (∃ sec, e = .append sec ∧ h.valid = true ∧ h.cur.data.length + sec.length < 0x10000 ∧
      h.next e = ⟨h.closed, true, h.cur.append sec⟩) ∨
    (e = .close ∧ h.valid = true ∧ h.next e = ⟨h.closed ++ [h.cur], false, h.cur⟩) := by
  cases e with
  | take a =>
    by_cases hv : h.valid = true
    · exact Or.inl (if_pos hv)
    · exact Or.inr (Or.inl ⟨a, rfl, Bool.not_eq_true _ ▸ hv, if_neg hv⟩)
  | append sec =>
    by_cases hv : h.valid = true ∧ h.cur.data.length + sec.length < 0x10000
    · refine Or.inr (Or.inr (Or.inl ⟨sec, rfl, hv.1, hv.2, ?_⟩))
      rw [Hw.next, if_pos hv, hv.1]
    · exact Or.inl (if_neg hv)
  | close =>
    by_cases hv : h.valid = true
    · exact Or.inr (Or.inr (Or.inr ⟨rfl, hv, if_pos hv⟩))
    · exact Or.inl (if_neg hv)

theorem blocks_valid (hv : h.valid = true) : h.blocks = h.closed ++ [h.cur] := by
  rw [Hw.blocks, if_pos hv]

theorem blocks_invalid (hv : h.valid = false) : h.blocks = h.closed := by
  rw [Hw.blocks, if_neg (by rw [hv]; decide), List.append_nil]

theorem At.next (hat : At h c j out) (e : HwEvent) : At (h.next e) c j out := by
  obtain ⟨hblk, hcur⟩ := hat
  rcases next_cases h e with heq | ⟨a, -, hv, heq⟩ | ⟨sec, -, hv, -, heq⟩ | ⟨-, hv, heq⟩
  · rw [heq]
    exact ⟨hblk, hcur⟩
  · rw [heq]
    rw [blocks_invalid hv, ← List.append_nil h.closed] at hcur
    exact ⟨hblk, hcur.swap hblk List.nil_prefix (fun hne => absurd rfl hne)⟩
  · rw [heq]
    rw [blocks_valid hv] at hcur
    refine ⟨hblk, ?_⟩
    rw [blocks_valid rfl]
    exact hcur.swap hblk (List.prefix_append _ _) (fun _ => rfl)
  · rw [heq]
    rw [blocks_valid hv] at hcur
    refine ⟨?_, ?_⟩
    · rw [List.length_append]
      omega
    · rw [blocks_invalid rfl]
      exact hcur

theorem At.run (hat : At h c j out) (es : List HwEvent) : At (h.run es) c j out := by
  induction es generalizing h with
  | nil => exact hat
  | cons e es ih => exact ih (hat.next e)

theorem ok_next (hok : ∀ b ∈ h.blocks, b.Ok cfg) (he : e.Ok cfg) : ∀ b ∈ (h.next e).blocks, b.Ok cfg := by
  rcases next_cases h e with heq | ⟨a, rfl, hv, heq⟩ | ⟨sec, rfl, hv, hlt, heq⟩ | ⟨-, hv, heq⟩
  · rw [heq]
    exact hok
  · rw [heq, blocks_valid rfl]
    rw [blocks_invalid hv] at hok
    intro b hb
    rcases List.mem_append.mp hb with hb | hb
    · exact hok b hb
    · rw [List.mem_singleton.mp hb]
      exact ⟨he, fun s hs => absurd hs List.not_mem_nil, Nat.zero_lt_succ _⟩
  · rw [heq, blocks_valid rfl]
    rw [blocks_valid hv] at hok
    have hcur := hok h.cur (List.mem_append_right _ List.mem_cons_self)
    intro b hb
    rcases List.mem_append.mp hb with hb | hb
    · exact hok b (List.mem_append_left _ hb)
    · rw [List.mem_singleton.mp hb]
      refine ⟨hcur.mapped, fun s hs => ?_, ?_⟩
      · rcases List.mem_append.mp hs with hs | hs
        · exact hcur.good s hs
        · rw [List.mem_singleton.mp hs]
          exact he
      · rw [Block.data, Block.append, List.flatten_append, List.length_append, List.flatten_singleton]
        exact hlt
  · rw [heq, blocks_invalid rfl]
    rw [blocks_valid hv] at hok
    exact hok

theorem ok_run (hok : ∀ b ∈ h.blocks, b.Ok cfg) (hes : ∀ e ∈ es, e.Ok cfg) :
    ∀ b ∈ (h.run es).blocks, b.Ok cfg := by
  induction es generalizing h with
  | nil => exact hok
  | cons e es ih =>
    exact ih (ok_next hok (hes e List.mem_cons_self)) (fun f hf => hes f (List.mem_cons_of_mem _ hf))

/-- `h'` is after `h`: the current block of `h` is still the current one, with sections added, or it is in the queue
    with all that `h` has. -/
def Later (h h' : Hw) : Prop :=
  (h'.closed = h.closed ∧ (h.valid = true → h'.valid = true ∧ h'.cur.startAddr = h.cur.startAddr ∧
    h.cur.secs <+: h'.cur.secs)) ∨
  (h.closed.length < h'.closed.length ∧ received h <+: h'.closed.flatMap Block.msgs)

theorem later_refl (h : Hw) : Later h h := Or.inl ⟨rfl, fun hv => ⟨hv, rfl, List.prefix_rfl⟩⟩

theorem Later.length_le (hl : Later h h') : h.closed.length ≤ h'.closed.length := by
  rcases hl with ⟨heq, -⟩ | ⟨hlt, -⟩
  · exact Nat.le_of_eq (by rw [heq])
  · exact Nat.le_of_lt hlt

theorem msgs_grow (haddr : b'.startAddr = b.startAddr) (hsecs : b.secs <+: b'.secs) :
    b.msgs <+: b'.msgs := by
  obtain ⟨more, hmore⟩ := hsecs
  unfold Block.msgs
  rw [haddr, ← hmore, msgsFrom_append]
  exact List.prefix_append _ _

theorem data_length_le (hsecs : b.secs <+: b'.secs) : b.data.length ≤ b'.data.length := by
  obtain ⟨more, hmore⟩ := hsecs
  unfold Block.data
  rw [← hmore, List.flatten_append, List.length_append]
  exact Nat.le_add_right _ _

theorem Later.next (hl : Later h h') (e : HwEvent) : Later h (h'.next e) := by
  rcases next_cases h' e with heq | ⟨a, -, hv, heq⟩ | ⟨sec, -, hv, -, heq⟩ | ⟨-, hv, heq⟩
  · rw [heq]
    exact hl
  · rw [heq]
    rcases hl with ⟨hcl, hcur⟩ | hover
    · refine Or.inl ⟨hcl, fun hv' => ?_⟩
      rw [(hcur hv').1] at hv
      cases hv
    · exact Or.inr hover
  · rw [heq]
    rcases hl with ⟨hcl, hcur⟩ | hover
    · refine Or.inl ⟨hcl, fun hv' => ⟨rfl, (hcur hv').2.1, (hcur hv').2.2.trans (List.prefix_append _ _)⟩⟩
    · exact Or.inr hover
  · rw [heq]
    right
    rcases hl with ⟨hcl, hcur⟩ | ⟨hlt, hpre⟩
    · -- the current block goes to the queue
      refine ⟨by rw [List.length_append, hcl]; exact Nat.lt_succ_self _, ?_⟩
      rw [List.flatMap_append, hcl, received]
      by_cases hv' : h.valid = true
      · rw [blocks_valid hv', List.flatMap_append]
        refine (List.prefix_append_right_inj _).mpr ?_
        rw [List.flatMap_singleton, List.flatMap_singleton]
        exact msgs_grow (hcur hv').2.1 (hcur hv').2.2
      · rw [blocks_invalid (Bool.not_eq_true _ ▸ hv')]
        exact List.prefix_append _ _
    · refine ⟨by rw [List.length_append]; omega, ?_⟩
      rw [List.flatMap_append]
      exact hpre.trans (List.prefix_append _ _)

theorem later_run (h : Hw) (es : List HwEvent) : Later h (h.run es) := by
  induction es using List.reverseRecOn with
  | nil => exact later_refl h
  | append_singleton es e ih =>
    unfold Hw.run at ih ⊢
    rw [List.foldl_append]
    exact ih.next e

/-! ## What is handed out, and what has come -/

theorem Cursor.out_le (hc : Cursor bs procsBlk j offset out) : out <+: bs.flatMap Block.msgs := by
  rw [hc.out]
  conv_rhs => rw [← List.take_append_drop procsBlk bs, List.flatMap_append]
  refine (List.prefix_append_right_inj _).mpr ?_
  rcases Nat.lt_or_eq_of_le hc.blk with hlt | heq
  · rw [List.drop_eq_getElem_cons hlt, List.flatMap_cons, List.getD_eq_getElem?_getD, List.getElem?_eq_getElem hlt]
    exact List.IsPrefix.trans ( List.take_prefix _ _) (List.prefix_append _ _)
  · rw [List.getD_eq_getElem?_getD, List.getElem?_eq_none (Nat.le_of_eq heq.symm)]
    exact List.take_nil ▸ List.nil_prefix

theorem At.out_eq (hat : At h c j out) (hblk : c.procsBlk = h.closed.length) :
    out = h.closed.flatMap Block.msgs ++ (h.blocks.getD h.closed.length noBlock).msgs.take j := by
  have hout := hat.cursor.out
  rwa [hblk, ← closed_eq_take] at hout

/-- A part of a row of sections has fewer bytes. -/
theorem length_le_of_flatten {as bs : List (List Byte)} (hpre : as <+: bs) (hgood : ∀ s ∈ as, Good cfg s)
    (hle : as.flatten.length ≤ (bs.take j).flatten.length) : as.length ≤ j := by
  by_contra hlt
  obtain ⟨more, rfl⟩ := hpre
  have hrest := length_le_flatten (fun s hs => hgood s (List.mem_of_mem_drop (i := j) hs))
  have hsplit : as.flatten.length = (as.take j).flatten.length + (as.drop j).flatten.length := by
    rw [← List.length_append, ← List.flatten_append, List.take_append_drop]
  rw [List.take_append_of_le_length (by omega)] at hle
  rw [List.length_drop] at hrest
  omega

/-- **Nothing of `h` is left** where the channel is behind the blocks of the queue and, in the current block, behind
    what `h` has of it. -/
theorem received_prefix_out (hok : ∀ b ∈ h.blocks, b.Ok cfg) (hl : Later h h') (hat : At h' c j out)
    (hblk : c.procsBlk = h'.closed.length)
    (hoff : h'.closed = h.closed → h.valid = true → h.cur.data.length ≤ c.procsOffset) : received h <+: out := by
  rw [hat.out_eq hblk]
  rcases hl with ⟨hcl, hcur⟩ | ⟨-, hpre⟩
  · rw [received, hcl]
    by_cases hv : h.valid = true
    · obtain ⟨hv', haddr, hsecs⟩ := hcur hv
      have hget : h'.blocks.getD h'.closed.length noBlock = h'.cur := by
        rw [blocks_valid hv', getD_tail]
        rfl
      have hcursor := hat.cursor.offset
      rw [hblk, hget] at hcursor
      rw [blocks_valid hv] at hok
      have hj : h.cur.secs.length ≤ j := by
        refine length_le_of_flatten hsecs
          (hok h.cur (List.mem_append_right _ List.mem_cons_self)).good ?_
        rw [← hcursor]
        exact hoff hcl hv
      rw [blocks_valid hv, List.flatMap_append, ← hcl, hget, List.flatMap_singleton]
      refine (List.prefix_append_right_inj _).mpr ?_
      have hmsgs := msgs_grow haddr hsecs
      have htake : h.cur.msgs = h'.cur.msgs.take h.cur.secs.length := by
        obtain ⟨more, hmore⟩ := hmsgs
        have hlen : h.cur.msgs.length = h.cur.secs.length := length_msgsFrom _ _ _
        rw [← hmore, ← hlen, List.take_left]
      rw [htake]
      exact List.take_prefix_take_left hj
    · rw [blocks_invalid (Bool.not_eq_true _ ▸ hv)]
      exact List.prefix_append _ _
  · exact hpre.trans (List.prefix_append _ _)

theorem eq_received (hat : At h c j out) (hpre : received h <+: out) : out = received h := by
  have hout := hat.cursor.out_le
  exact hout.eq_of_length_le hpre.length_le

/-! ## One call -/

/-- The hardware gets from `h` to `h'`. -/
def Reach (cfg : Config) (h h' : Hw) : Prop := ∃ es : List HwEvent, (∀ e ∈ es, e.Ok cfg) ∧ h' = h.run es

theorem Reach.trans {h'' : Hw} (hr : Reach cfg h h') (hr' : Reach cfg h' h'') : Reach cfg h h'' := by
  obtain ⟨es, hes, rfl⟩ := hr
  obtain ⟨fs, hfs, rfl⟩ := hr'
  refine ⟨es ++ fs, fun e he => ?_, ?_⟩
  · rcases List.mem_append.mp he with he | he
    · exact hes e he
    · exact hfs e he
  · unfold Hw.run
    rw [List.foldl_append]

theorem Reach.at (hr : Reach cfg h h') (hat : At h c j out) : At h' c j out := by
  obtain ⟨es, -, rfl⟩ := hr
  exact hat.run es

theorem Reach.ok (hr : Reach cfg h h') (hok : ∀ b ∈ h.blocks, b.Ok cfg) : ∀ b ∈ h'.blocks, b.Ok cfg := by
  obtain ⟨es, hes, rfl⟩ := hr
  exact ok_run hok hes

theorem Reach.later (hr : Reach cfg h h') : Later h h' := by
  obtain ⟨es, -, rfl⟩ := hr
  exact later_run h es

/-- Between two times with the same queue, the current block stays the current one. -/
theorem Reach.same (hr : Reach cfg h h') (hcl : h'.closed.length = h.closed.length) :
    h'.closed = h.closed ∧ (h.valid = true → h'.valid = true ∧ h'.cur.startAddr = h.cur.startAddr ∧
      h.cur.secs <+: h'.cur.secs) := by
  rcases hr.later with hsame | ⟨hlt, -⟩
  · exact hsame
  · omega

/-- Parsing the current block up to the end of its last section at an earlier time `h`. -/
theorem parseSection_at (hsec : cfg.chanType = .sec) (hok : ∀ b ∈ h'.blocks, b.Ok cfg) (hr : Reach cfg h h')
    (hcl : h'.closed.length = h.closed.length) (hv : h.valid = true) (hat : At h c j out)
    (hblk : c.procsBlk = h.closed.length) (hacq : 0 < acqNum) :
    let p := parseSection cfg acqNum h'.cur.startAddr h'.cur.data h.cur.data.length ⟨[], c.procsOffset, c.errs⟩
    (∃ i, At h' { c with procsOffset := p.offset, errs := p.errs } i (out ++ p.msgs)) ∧
      (p.msgs = [] → h.cur.data.length ≤ p.offset) := by
  have hat' := hr.at hat
  obtain ⟨-, hcur⟩ := hr.same hcl
  obtain ⟨hv', -, more, hmore⟩ := hcur hv
  have hcurOk : h'.cur.Ok cfg := by
    rw [blocks_valid hv'] at hok
    exact hok _ (List.mem_append_right _ List.mem_cons_self)
  have hget : h.blocks.getD c.procsBlk noBlock = h.cur := by
    rw [hblk, blocks_valid hv, getD_tail]
    rfl
  have hb : h'.blocks[c.procsBlk]? = some h'.cur := by
    rw [hblk, ← hcl, blocks_valid hv', List.getElem?_append_right (Nat.le_refl _), Nat.sub_self]
    rfl
  have hle := hat.cursor.le
  have hoff := hat.cursor.offset
  rw [hget] at hle hoff
  have hdata : h'.cur.data = (h.cur.secs.take j).flatten ++ ((h.cur.secs.drop j).flatten ++ more.flatten) := by
    rw [← List.append_assoc, ← List.flatten_append, List.take_append_drop, ← List.flatten_append, hmore]
    rfl
  have hlen : h.cur.data.length = (h.cur.secs.take j).flatten.length + (h.cur.secs.drop j).flatten.length := by
    rw [← List.length_append, ← List.flatten_append, List.take_append_drop]
    rfl
  have hshort : h.cur.data.length < 0x10000 := by
    have hlt := hcurOk.short
    rw [hdata, List.length_append, List.length_append] at hlt
    omega
  have hgood : ∀ s ∈ h.cur.secs.drop j, Good cfg s := by
    intro s hs
    refine hcurOk.good s ?_
    rw [← hmore]
    exact List.mem_append_left _ (List.mem_of_mem_drop hs)
  have hparse := @parseSection_good cfg _ more.flatten _ _ _ acqNum ⟨[], c.procsOffset, c.errs⟩ hsec hcurOk.mapped hgood
    hoff hlen hshort
  rw [← hdata] at hparse
  rw [List.nil_append, List.length_nil, Nat.sub_zero] at hparse
  obtain ⟨hmsgs, hoffset⟩ := hparse
  generalize parseSection cfg acqNum h'.cur.startAddr h'.cur.data h.cur.data.length ⟨[], c.procsOffset, c.errs⟩ = p
    at hmsgs hoffset ⊢
  -- the sections asked for are all before the end at the earlier time
  have hmoved := hat'.cursor.more (n := min acqNum (h.cur.secs.length - j)) hb
  have htake : (h'.cur.secs.drop j).take (min acqNum (h.cur.secs.length - j)) = (h.cur.secs.drop j).take acqNum := by
    rw [← hmore, List.drop_append_of_le_length hle, List.take_append_of_le_length, ← List.length_drop,
      ← List.take_take, List.take_length]
    rw [List.length_drop]
    exact Nat.min_le_right _ _
  rw [htake, ← hoffset, ← hmsgs] at hmoved
  refine ⟨⟨_, hat'.blk, hmoved⟩, fun hnil => ?_⟩
  have hzero : (h.cur.secs.drop j).take acqNum = [] := by
    rw [hnil] at hmsgs
    have hl := congrArg List.length hmsgs
    rw [length_msgsFrom, List.length_nil] at hl
    exact List.length_eq_zero_iff.mp hl.symm
  rcases List.take_eq_nil_iff.mp hzero with h0 | hdrop
  · omega
  · apply Nat.le_of_eq
    rw [hoffset, hzero, hlen, hdrop, hoff]

/-- **One call.** It hands out what comes next; and where it hands out nothing, all that had come when it began was
    handed out before. -/
theorem readSec_at {r : Nat → Hw} (hsec : cfg.chanType = .sec) (hacq : 0 < acqNum) (hok : ∀ b ∈ h.blocks, b.Ok cfg)
    (h0 : Reach cfg h (r 0)) (hr : ∀ i k, i ≤ k → Reach cfg (r i) (r k)) (hat : At h c j out) :
    (∃ i, At (r 7) (readSec cfg acqNum r c).1 i (out ++ (readSec cfg acqNum r c).2)) ∧
      ((readSec cfg acqNum r c).2 = [] → out = received h) := by
  have hfrom : ∀ k, Reach cfg h (r k) := fun k => h0.trans (hr 0 k (Nat.zero_le k))
  -- the first look at the queue
  obtain ⟨⟨i, hat2⟩, hblk2⟩ := readToMsgBuffer_at hsec ((hfrom 2).ok hok) hacq ((hfrom 2).at hat)
  unfold readSec
  generalize readToMsgBuffer cfg acqNum (r 2) c = q at hat2 hblk2 ⊢
  obtain ⟨c2, msgs⟩ := q
  dsimp only at hat2 hblk2 ⊢
  by_cases hmsgs : msgs = []
  · subst hmsgs
    rw [List.append_nil] at hat2
    have hblk := hblk2 rfl
    rw [if_neg (not_not.mpr rfl)]
    by_cases heop : c2.procsOffset = getCurEopaddr (r 0) (r 1)
    · -- the current block is where it was
      rw [if_pos heop, List.append_nil]
      refine ⟨⟨i, (hr 2 7 (by omega)).at hat2⟩, fun _ => eq_received hat ?_⟩
      refine received_prefix_out hok (hfrom 2).later hat2 hblk (fun hcl hv => ?_)
      have hle01 := (hr 0 1 (by omega)).later.length_le
      have hle12 := (hr 1 2 (by omega)).later.length_le
      have hle0 := h0.later.length_le
      have hlen := congrArg List.length hcl
      obtain ⟨hv0, -, -⟩ := (h0.same (by omega)).2 hv
      obtain ⟨-, -, hsecs⟩ := ((hfrom 1).same (by omega)).2 hv
      rw [heop, getCurEopaddr, if_pos hv0]
      exact (data_length_le hsecs)
    · rw [if_neg heop]
      unfold getCurSAddr
      by_cases hcl : (r 6).closed.length = c2.procsBlk
      · -- the current block is the next one to read
        rw [if_pos hcl]
        dsimp only
        have hle23 := (hr 2 3 (by omega)).later.length_le
        have hle34 := (hr 3 4 (by omega)).later.length_le
        have hle45 := (hr 4 5 (by omega)).later.length_le
        have hle56 := (hr 5 6 (by omega)).later.length_le
        by_cases hv3 : (r 3).valid = true
        · obtain ⟨hv4, -, -⟩ := ((hr 3 4 (by omega)).same (by omega)).2 hv3
          obtain ⟨hv5, -, -⟩ := ((hr 4 5 (by omega)).same (by omega)).2 hv4
          obtain ⟨-, haddr, -⟩ := ((hr 5 6 (by omega)).same (by omega)).2 hv5
          have hparse := parseSection_at hsec ((hfrom 6).ok hok) (hr 4 6 (by omega)) (by omega) hv4
            ((hr 2 4 (by omega)).at hat2) (by omega) hacq
          rw [getCurEopaddr, if_pos hv3, ← haddr]
          obtain ⟨⟨i', hat6⟩, hnone⟩ := hparse
          refine ⟨⟨i', (hr 6 7 (by omega)).at hat6⟩, fun hnil => eq_received hat ?_⟩
          rw [hnil, List.append_nil] at hat6
          refine received_prefix_out hok (hfrom 6).later hat6 hcl.symm (fun hsame hv => ?_)
          have hlen := congrArg List.length hsame
          have hle4 := (hfrom 4).later.length_le
          obtain ⟨-, -, hsecs⟩ := ((hfrom 4).same (by omega)).2 hv
          exact Nat.le_trans (data_length_le hsecs) (hnone hnil)
        · -- there is none
          have hparse : parseSection cfg acqNum (r 5).cur.startAddr (r 6).cur.data 0 ⟨[], c2.procsOffset, c2.errs⟩ =
              ⟨[], c2.procsOffset, c2.errs⟩ := by
            unfold parseSection
            exact if_pos (Nat.zero_le _)
          rw [getCurEopaddr, if_neg hv3, hparse]
          rw [List.append_nil]
          have hat6 := (hr 2 6 (by omega)).at hat2
          refine ⟨⟨i, (hr 2 7 (by omega)).at hat2⟩, fun _ => eq_received hat ?_⟩
          refine received_prefix_out hok (hfrom 6).later hat6 hcl.symm (fun hsame hv => ?_)
          have hlen := congrArg List.length hsame
          have hle3 := (hfrom 3).later.length_le
          exact absurd (((hfrom 3).same (by omega)).2 hv).1 hv3
      · -- it went to the queue in the meantime
        rw [if_neg hcl]
        obtain ⟨hat7, hblk7⟩ := readToMsgBuffer_at hsec ((hfrom 7).ok hok) hacq ((hr 2 7 (by omega)).at hat2)
        refine ⟨hat7, fun hnil => eq_received hat ?_⟩
        obtain ⟨i', hat7⟩ := hat7
        rw [hnil, List.append_nil] at hat7
        refine received_prefix_out hok (hfrom 7).later hat7 (hblk7 hnil) (fun hsame _ => ?_)
        have hlen := congrArg List.length hsame
        have hle26 := (hr 2 6 (by omega)).later.length_le
        have hle67 := (hr 6 7 (by omega)).later.length_le
        have hle2 := (hfrom 2).later.length_le
        omega
  · rw [if_pos hmsgs]
    exact ⟨⟨i, (hr 2 7 (by omega)).at hat2⟩, fun hnil => absurd hnil hmsgs⟩

/-! ## Runs -/

/-- The hardware of a section channel, also between the reads of a call. -/
def Input.Ok (cfg : Config) : Input → Prop
  | .hw e => e.Ok cfg
  | .read _ between => ∀ e ∈ between.flatten, e.Ok cfg

theorem run_append (h : Hw) (es fs : List HwEvent) : h.run (es ++ fs) = (h.run es).run fs := List.foldl_append

theorem readAt_reach (hes : ∀ e ∈ between.flatten, e.Ok cfg) {k : Nat}
    (hik : i ≤ k) : Reach cfg (readAt h between i) (readAt h between k) := by
  refine ⟨((between.take (k + 1)).drop (i + 1)).flatten, fun e he => hes e ?_, ?_⟩
  · obtain ⟨l, hl, he⟩ := List.mem_flatten.mp he
    exact List.mem_flatten.mpr ⟨l, List.mem_of_mem_take (List.mem_of_mem_drop hl), he⟩
  · unfold readAt
    rw [← run_append, ← List.flatten_append]
    conv_lhs => rw [← List.take_append_drop (i + 1) (between.take (k + 1)), List.take_take,
      Nat.min_eq_left (Nat.succ_le_succ hik)]

theorem readAt_end (hes : ∀ e ∈ between.flatten, e.Ok cfg) (i : Nat) :
    Reach cfg h (readAt h between i) ∧ Reach cfg (readAt h between i) (h.run between.flatten) := by
  have hmem : ∀ {as : List (List HwEvent)}, (∀ l ∈ as, l ∈ between) → ∀ e ∈ as.flatten, e.Ok cfg := by
    intro as has e he
    obtain ⟨l, hl, he⟩ := List.mem_flatten.mp he
    exact hes e (List.mem_flatten.mpr ⟨l, has l hl, he⟩)
  refine ⟨⟨_, hmem (fun _ => List.mem_of_mem_take), rfl⟩,
    ⟨(between.drop (i + 1)).flatten, hmem (fun _ => List.mem_of_mem_drop), ?_⟩⟩
  unfold readAt
  rw [← run_append, ← List.flatten_append, List.take_append_drop]

/-- **The invariant of the runs**, after the calls returned `out`. -/
structure Inv (cfg : Config) (s : Sys) (out : List Msg) : Prop where
  ok : ∀ b ∈ s.hw.blocks, b.Ok cfg
  at_ : ∃ j, At s.hw s.chan j out

/-- A call, in a state of a run. -/
theorem Inv.read {s : Sys} {between : List (List HwEvent)} (hinv : Inv cfg s out) (hsec : cfg.chanType = .sec)
    (hacq : 0 < acqNum) (hes : ∀ e ∈ between.flatten, e.Ok cfg) :
    ∃ c msgs, step cfg s (.read acqNum between) = some (⟨s.hw.run between.flatten, c⟩, [msgs]) ∧
      Inv cfg ⟨s.hw.run between.flatten, c⟩ (out ++ msgs) ∧ (msgs = [] → out = received s.hw) := by
  obtain ⟨j, hat⟩ := hinv.at_
  obtain ⟨⟨i, hat7⟩, hnone⟩ := readSec_at hsec hacq hinv.ok (readAt_end hes 0).1
    (fun _ _ hik => readAt_reach hes hik) hat
  have hstep : step cfg s (.read acqNum between) =
      some (⟨s.hw.run between.flatten, (readSec cfg acqNum (readAt s.hw between) s.chan).1⟩,
        [(readSec cfg acqNum (readAt s.hw between) s.chan).2]) := if_neg (by omega)
  exact ⟨_, _, hstep, ⟨ok_run hinv.ok hes, i, (readAt_end hes 7).2.at hat7⟩, hnone⟩

theorem run_inv {is : List Input} {s : Sys} {es : List Event} (hsec : cfg.chanType = .sec)
    (hrun : Run (step cfg) (fun _ i => i.Ok cfg) init is s es) : Inv cfg s es.flatten := by
  refine Run.inv_effects (fun _ s es => Inv cfg s es.flatten) ?_ ?_ hrun
  · refine ⟨fun b hb => absurd hb List.not_mem_nil, 0, Nat.le_refl _, ?_⟩
    exact ⟨Nat.le_refl _, Nat.le_refl _, rfl, rfl⟩
  · intro _ s es i t fs hinv hi hnext
    rw [List.flatten_append]
    cases i with
    | hw e =>
      obtain ⟨rfl, rfl⟩ := hnext
      obtain ⟨j, hat⟩ := hinv.at_
      rw [List.flatten_nil, List.append_nil]
      exact ⟨ok_next hinv.ok hi, j, hat.next e⟩
    | read acqNum between =>
      rcases Nat.eq_zero_or_pos acqNum with rfl | hacq
      · obtain ⟨rfl, rfl⟩ := hnext
        rw [List.flatten_nil, List.append_nil]
        exact hinv
      · obtain ⟨c, msgs, hstep, hinv', -⟩ := hinv.read hsec hacq hi
        obtain ⟨rfl, rfl⟩ := Prod.mk.inj (Option.some.inj (hstep.symm.trans hnext))
        rw [List.flatten_singleton]
        exact hinv'

/-- **Every section is handed out once and in order**; and a call hands out nothing only where all sections that had
    come when it began were handed out before. -/
theorem run_sections (cfg : Config) (hsec : cfg.chanType = .sec) {is : List Input} {s : Sys} {es : List Event}
    (hrun : Run (step cfg) (fun _ i => i.Ok cfg) init is s es) :
    es.flatten <+: received s.hw ∧
      ∀ acqNum between t, 0 < acqNum → (∀ e ∈ between.flatten, HwEvent.Ok cfg e) →
        step cfg s (.read acqNum between) = some (t, [[]]) → es.flatten = received s.hw := by
  have hinv := run_inv hsec hrun
  refine ⟨?_, fun acqNum between t hacq hes hnext => ?_⟩
  · obtain ⟨j, hat⟩ := hinv.at_
    exact hat.cursor.out_le
  · obtain ⟨c, msgs, hstep, -, hnone⟩ := hinv.read hsec hacq hes
    have hmsgs := (Prod.mk.inj (Option.some.inj (hstep.symm.trans hnext))).2
    exact hnone (List.singleton_inj.mp hmsgs)

instance (cfg : Config) (sec : List Byte) : Decidable (Good cfg sec) :=
  decidable_of_iff (lengthAt sec 0 = sec.length ∧ sec.length ≤ cfg.maxSecLen ∧
      discards cfg sec 0 sec.length = false ∧
      ¬ (sec.length < cfg.filterMaxDepth + cfg.sectionLengthFieldSize ∧ passes cfg sec 0 sec.length = false))
    ⟨fun h => ⟨h.1, h.2.1, h.2.2.1, h.2.2.2⟩, fun h => ⟨h.1, h.2, h.3, h.4⟩⟩

instance (cfg : Config) (a : BitVec 32) : Decidable (Mapped cfg a) :=
  decidable_of_iff (cfg.virAddr a ≠ 0 ∧ (cfg.virAddr a).toNat + 0xffff < 0x100000000)
    ⟨fun h => ⟨h.1, h.2⟩, fun h => ⟨h.1, h.2⟩⟩

instance (cfg : Config) : (e : HwEvent) → Decidable (e.Ok cfg)
  | .take a => inferInstanceAs (Decidable (Mapped cfg a))
  | .append sec => inferInstanceAs (Decidable (Good cfg sec))
  | .close => isTrue trivial

instance (cfg : Config) : (i : Input) → Decidable (i.Ok cfg)
  | .hw e => inferInstanceAs (Decidable (e.Ok cfg))
  | .read _ between => inferInstanceAs (Decidable (∀ e ∈ between.flatten, HwEvent.Ok cfg e))

/-- A section channel with a filter of depth 0. -/
def secCfg : Config where
  chanType := .sec
  crcMode := .forceAndDiscard
  filters := [⟨0, fun _ => 0, fun _ => 0, fun _ => false⟩]
  fqPhyAddr := 0x1000
  fqVirAddr := 0x8000
  maxSecLen := 4096
  filterMaxDepth := 16
  sectionLengthFieldSize := 3
  tsPacketLen := 188
  maxErrListNum := 4
  tsPacketLen_pos := by decide

/-- A section of eight bytes. -/
def eight : List Byte := [0x40, 0x30, 5, 1, 2, 3, 4, 5]

/-- Three sections in two blocks; the first block goes to the queue in the middle of the second call. -/
def handOver : List Input :=
  [.hw (.take 0x1000), .hw (.append eight), .hw (.append eight), .read 1 [],
    .read 4 [[], [], [.close, .take 0x3000, .append eight]], .read 4 [], .read 4 []]

/-- The three sections are handed out by the first three calls. -/
theorem run_sections_handOver :
    ∃ s es, Run (step secCfg) (fun _ i => i.Ok secCfg) init handOver s es ∧
      es = [[⟨0x1000, 8⟩], [⟨0x1008, 8⟩], [⟨0x3000, 8⟩], []] ∧ es.flatten <+: received s.hw := by
  exact exists_run_imp (fun _ es => es = [[⟨0x1000, 8⟩], [⟨0x1008, 8⟩], [⟨0x3000, 8⟩], []])
    (by decide +kernel) fun _ _ hrun htest => ⟨htest, (run_sections secCfg rfl hrun).1⟩

end HiSTB.Demux.Section
