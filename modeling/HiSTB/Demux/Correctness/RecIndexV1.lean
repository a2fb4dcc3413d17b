import HiSTB.Demux.Correctness.RecStream
import HiSTB.Demux.RecIndexV1

/-!
# `Demux.Correctness.RecIndexV1` — the ranges of a recording and the frames they cover

The data of a call is rounded up past the end of its last frame, always by at least one byte. Four cases go wrong.
The rounded end is behind the buffer where the last frame of a call ends with the buffer: the call returns no data,
and its entries are lost. A frame that ends before the rounded end of the call before it is kept in the place of the
next one, and the length of the range is below zero. A frame that starts at the start of the buffer is not seen to be
on the next round where it ends behind the start of the range. And the frames of a call must not go around twice.

* `Tiles` — ranges of the buffer, one behind the other;
* `Held`, `Held.entry`, `Held.finish` — what a call has, one round of its loop, and its end;
* `run_ranges` — in every calm run over a stream without gaps each entry is returned once and in order, and the
  ranges cover the frames;
* `lost_entries` — frames that are lost.
-/

namespace HiSTB.Demux.RecIndexV1

open Lib
open RecIndex (Index Contiguous streamEnd streamEnd_concat)

variable {q : Fq} {c : Call} {x : Index}

variable {a e lap k n addr p : Nat} {us ts hs : List Index} {s : Sys} {rs : List Ret}

/-! ## Ranges -/

/-- The virtual address is that of the physical one; or it is the end of the buffer, for a range that begins again at
    the start. -/
def Mapped (q : Fq) (d : RecData) : Prop :=
  d.dataAddr = q.bufVirAddr + (d.dataPhyAddr - q.bufPhyAddr) ∨
    d.dataPhyAddr = q.bufPhyAddr ∧ d.dataAddr = q.bufVirAddr + q.bufSize

/-- The ranges go from position `a` of the stream to position `b`: each one starts where the one before it ends, is
    not empty, lies in the buffer, and has a length that is a multiple of the alignment. -/
def Tiles (q : Fq) : Nat → List RecData → Nat → Prop
  | a, [], b => a = b
  | a, d :: ds, b =>
    d.dataPhyAddr = q.bufPhyAddr + a % q.bufSize ∧ Mapped q d ∧ 0 < d.len ∧ q.allignLen ∣ d.len ∧
      a % q.bufSize + d.len ≤ q.bufSize ∧ Tiles q (a + d.len) ds b

theorem Tiles.append {b : Nat} {ds gs : List RecData} (h : Tiles q a ds b) (h' : Tiles q b gs e) :
    Tiles q a (ds ++ gs) e := by
  induction ds generalizing a with
  | nil =>
    obtain rfl : a = b := h
    exact h'
  | cons d ds ih =>
    obtain ⟨haddr, hmap, hpos, hdvd, hin, hrest⟩ := h
    exact ⟨haddr, hmap, hpos, hdvd, hin, ih hrest⟩

theorem mod_lap (q : Fq) (hk : k < q.bufSize) : (lap * q.bufSize + k) % q.bufSize = k := by
  rw [Nat.add_comm, Nat.add_mul_mod_self_right, Nat.mod_eq_of_lt hk]

/-- Rounded up past `n`, but not past a multiple behind `n`. -/
theorem round_le {m : Nat} (ha : 0 < a) (hm : a ∣ m) (hlt : n < m) : n + (a - n % a) ≤ m := by
  obtain ⟨k, rfl⟩ := hm
  have hdm := Nat.div_add_mod n a
  have hmod := Nat.mod_lt n ha
  have hdiv : n / a < k := Nat.div_lt_of_lt_mul hlt
  have hmul : a * (n / a + 1) ≤ a * k := Nat.mul_le_mul_left a hdiv
  rw [Nat.mul_add] at hmul
  omega

theorem dvd_round (ha : 0 < a) : a ∣ n + (a - n % a) := by
  have hdm := Nat.div_add_mod n a
  have hmod := Nat.mod_lt n ha
  refine ⟨n / a + 1, ?_⟩
  rw [Nat.mul_add]
  omega

/-! ## What is calm -/

/-- Where the frame ends, as the call computes it. -/
def pointAddr (q : Fq) (x : Index) : Nat := q.bufPhyAddr + (x.globalOffset % q.bufSize + x.frameSize)

/-- The first frame of a call ends where the data goes on or later, and not with the buffer where the data already
    did. A further frame does not go around a second time; and one that starts at the start of the buffer ends
    before the range, by more than the alignment. -/
def CalmEntry (q : Fq) (c : Call) (x : Index) : Prop :=
  if c.idxNum = 0 then
    c.cur.dataPhyAddr ≤ pointAddr q x ∧ ¬ (c.cur.dataPhyAddr = q.bufEnd ∧ pointAddr q x = q.bufEnd)
  else if c.idxPointAddr < q.bufEnd then c.second = true → pointAddr q x ≤ q.bufEnd
  else c.second = false ∧ pointAddr q x + q.allignLen < c.cur.dataPhyAddr
deriving Decidable

/-- The last frame of a call does not end with the buffer. -/
def CalmEnd (q : Fq) (c : Call) : Prop := c.idxNum = 0 ∨ c.idxPointAddr ≠ q.bufEnd
deriving Decidable

def calm (q : Fq) (s : Sys) (i : Input) : Prop :=
  match s.call, i with
  | some c, .index x => CalmEntry q c x
  | some c, .noIndex | some c, .leave => CalmEnd q c
  | _, _ => True

/-! ## A call -/

/-- Between the calls: the data up to position `p` is handed out, and the frames end at `e`, on the same round. -/
structure ReadAt (q : Fq) (addr p e : Nat) : Prop where
  place : ∃ lap, p = lap * q.bufSize + (addr - q.bufPhyAddr) ∧ lap * q.bufSize ≤ e ∧ e < lap * q.bufSize + q.bufSize
  low : q.bufPhyAddr ≤ addr
  high : addr ≤ q.bufEnd
  dvd : q.allignLen ∣ p
  covers : e ≤ p
  near : p ≤ e + q.allignLen

/-- The frames of a call end at `e`, in the range that started at `p`. -/
structure InFirst (q : Fq) (c : Call) (p e : Nat) : Prop where
  second : c.second = false
  cnt : c.recDataCnt = 1
  low : q.bufPhyAddr ≤ c.data0.dataPhyAddr
  high : c.data0.dataPhyAddr < q.bufEnd
  mapped : Mapped q c.data0
  place : ∃ lap, p = lap * q.bufSize + (c.data0.dataPhyAddr - q.bufPhyAddr) ∧ p ≤ e ∧
    e ≤ lap * q.bufSize + q.bufSize ∧ c.idxPointAddr = q.bufPhyAddr + (e - lap * q.bufSize)

/-- They end in the second range, on the next round. -/
structure InSecond (q : Fq) (c : Call) (p e : Nat) : Prop where
  second : c.second = true
  cnt : c.recDataCnt = 2
  low : q.bufPhyAddr ≤ c.data0.dataPhyAddr
  high : c.data0.dataPhyAddr < q.bufEnd
  mapped : Mapped q c.data0
  len : c.data0.len = q.bufEnd - c.data0.dataPhyAddr
  start : c.data1.dataPhyAddr = q.bufPhyAddr
  mapped1 : Mapped q c.data1
  place : ∃ lap, p = lap * q.bufSize + (c.data0.dataPhyAddr - q.bufPhyAddr) ∧ (lap + 1) * q.bufSize ≤ e ∧
    e ≤ (lap + 2) * q.bufSize ∧ c.idxPointAddr = q.bufPhyAddr + (e - (lap + 1) * q.bufSize)

/-- What a call has: the entries `us`, and the data from `p` on. -/
structure Held (q : Fq) (c : Call) (us : List Index) (p e : Nat) : Prop where
  entries : c.index.take c.idxNum = us
  pos : c.pos = c.idxNum
  room : c.index.length = q.maxIdx
  count : c.idxNum = us.length
  dvd : q.allignLen ∣ p
  data : us = [] ∧ c.second = false ∧ c.recDataCnt = 0 ∧ Mapped q c.data0 ∧ ReadAt q c.data0.dataPhyAddr p e ∨
    us ≠ [] ∧ (InFirst q c p e ∨ InSecond q c p e)

theorem held_begin (h : ReadAt q addr p e) : Held q (Call.begin q addr) [] p e where
  entries := by simp [Call.begin]
  pos := rfl
  room := by simp [Call.begin]
  count := rfl
  dvd := h.dvd
  data := .inl ⟨rfl, rfl, rfl, .inl rfl, h⟩

/-! ## One round -/

/-- The entry is taken, and the frame looked at. -/
def took (q : Fq) (c : Call) (x : Index) : Call :=
  { c with
    index := c.index.set c.pos x, count := c.count + 1, idxNum := c.idxNum + 1, pos := c.pos + 1,
    recDataCnt := if c.recDataCnt = 0 then 1 else c.recDataCnt, idxPointAddr := pointAddr q x }

theorem take_set_succ {α : Type*} {l : List α} (h : n < l.length) (a : α) :
    (l.set n a).take (n + 1) = l.take n ++ [a] := by
  rw [List.set_eq_take_append_cons_drop, if_pos h, List.take_append, List.length_take,
    Nat.min_eq_left (Nat.le_of_lt h), List.take_take, Nat.min_eq_right (Nat.le_succ n)]
  simp

/-- The frame ends in the range. -/
theorem entry_same (hsize : x.frameSize < q.bufSize) (hlow : c.cur.dataPhyAddr ≤ pointAddr q x)
    (hhigh : pointAddr q x ≤ q.bufEnd) : c.entry q x = some (took q c x) := by
  unfold Call.entry
  simp only
  rw [if_neg (by omega), if_neg (by exact Nat.not_lt.mpr hlow), if_neg (by exact Nat.not_lt.mpr hhigh)]
  rfl

/-- The range begins again at the start of the buffer. -/
theorem entry_anew (hsize : x.frameSize < q.bufSize) (hcur : c.cur.dataPhyAddr = q.bufEnd)
    (hhigh : q.bufEnd < pointAddr q x) (hsecond : c.second = false) :
    c.entry q x = some { took q c x with
      data0 := { c.data0 with dataPhyAddr := q.bufPhyAddr }, idxPointAddr := pointAddr q x - q.bufSize } := by
  have hcur' : c.data0.dataPhyAddr = q.bufEnd := by simpa [Call.cur, hsecond] using hcur
  unfold Call.entry
  simp only [Call.cur, Call.setCur, hsecond, Bool.false_eq_true, if_false]
  unfold pointAddr at hhigh ⊢
  rw [if_neg (by omega), if_neg (by omega), if_pos hhigh, if_pos hcur']
  simp [took, hsecond]

/-- The frame goes on in the second range. -/
theorem entry_over (hsize : x.frameSize < q.bufSize) (hsecond : c.second = false) (hcnt : c.recDataCnt < 2)
    (h : pointAddr q x + q.allignLen < c.data0.dataPhyAddr ∨
      c.data0.dataPhyAddr ≤ pointAddr q x ∧ q.bufEnd < pointAddr q x ∧ c.data0.dataPhyAddr ≠ q.bufEnd) :
    c.entry q x = some { took q c x with
      second := true, recDataCnt := 2, data0 := { c.data0 with len := q.bufEnd - c.data0.dataPhyAddr },
      data1 := ⟨q.bufPhyAddr, q.bufVirAddr, 0⟩,
      idxPointAddr := if pointAddr q x > q.bufEnd then pointAddr q x - q.bufSize else pointAddr q x } := by
  have hcnt' : (if c.recDataCnt = 0 then 1 else c.recDataCnt) < 2 := by
    split <;> omega
  unfold Call.entry
  simp only [Call.cur, Call.setCur, Call.dataOverBuffer, hsecond, Bool.false_eq_true, if_false, if_pos hcnt']
  rw [if_neg (by omega)]
  rcases h with hfar | ⟨hlow, hhigh, hne⟩
  · unfold pointAddr at hfar ⊢
    rw [if_pos (by omega), if_pos hfar]
    rfl
  · unfold pointAddr at hlow hhigh ⊢
    rw [if_neg (by omega), if_pos hhigh, if_neg hne]
    rfl

/-- A frame on the round of the range, or around the end. -/
theorem pointAddr_lap (q : Fq) (lap : Nat) (hx : x.globalOffset = e) (hlow : lap * q.bufSize ≤ e)
    (hhigh : e < lap * q.bufSize + q.bufSize) : pointAddr q x = q.bufPhyAddr + (e + x.frameSize - lap * q.bufSize) := by
  have hmod : e % q.bufSize = e - lap * q.bufSize := by
    have heq : e = lap * q.bufSize + (e - lap * q.bufSize) := by omega
    rw [heq, mod_lap q (by omega)]
    omega
  unfold pointAddr
  rw [hx, hmod]
  omega

/-- The second range begins: the frame ends at `e`, on the next round. -/
theorem inSecond_over (hcur : c.data0.dataPhyAddr = addr) (hlow : q.bufPhyAddr ≤ addr)
    (hhigh : addr < q.bufEnd) (hmap : Mapped q c.data0) (hp : p = lap * q.bufSize + (addr - q.bufPhyAddr))
    (hle : (lap + 1) * q.bufSize ≤ e) (hge : e ≤ (lap + 2) * q.bufSize) {point : Nat}
    (hpoint : point = q.bufPhyAddr + (e - (lap + 1) * q.bufSize)) :
    InSecond q { took q c x with
      second := true, recDataCnt := 2, data0 := { c.data0 with len := q.bufEnd - c.data0.dataPhyAddr },
      data1 := ⟨q.bufPhyAddr, q.bufVirAddr, 0⟩, idxPointAddr := point } p e := by
  subst hcur
  refine ⟨rfl, rfl, hlow, hhigh, hmap, rfl, rfl, .inl ?_, lap, hp, hle, hge, hpoint⟩
  simp

/-- **The first frame of a call.** -/
theorem entry_first (hsecond : c.second = false) (hcnt : c.recDataCnt = 0) (hmap : Mapped q c.data0)
    (hread : ReadAt q c.data0.dataPhyAddr p e) (hx : x.globalOffset = e) (hsize : x.frameSize < q.bufSize)
    (hidx : c.idxNum = 0) (hcalm : CalmEntry q c x) :
    ∃ c', c.entry q x = some c' ∧ (c'.index = c.index.set c.pos x ∧ c'.pos = c.pos + 1 ∧ c'.idxNum = c.idxNum + 1) ∧
      (InFirst q c' p (e + x.frameSize) ∨ InSecond q c' p (e + x.frameSize)) := by
  obtain ⟨lap, hp, hlap, hlap'⟩ := hread.place
  have hpoint := pointAddr_lap q lap hx hlap hlap'
  have hcur : c.cur = c.data0 := by simp [Call.cur, hsecond]
  unfold CalmEntry at hcalm
  rw [if_pos hidx, hcur] at hcalm
  obtain ⟨hcalm, hends⟩ := hcalm
  have hlow := hread.low
  have hhigh := hread.high
  have hbufEnd : q.bufEnd = q.bufPhyAddr + q.bufSize := rfl
  by_cases hin : pointAddr q x ≤ q.bufEnd
  · refine ⟨_, entry_same hsize (by rw [hcur]; exact hcalm) hin, ⟨rfl, rfl, rfl⟩, .inl ?_⟩
    refine ⟨hsecond, by simp [took, hcnt], hlow, ?_, hmap, lap, hp, by omega, by omega, hpoint⟩
    show c.data0.dataPhyAddr < q.bufEnd
    omega
  · by_cases hend : c.data0.dataPhyAddr = q.bufEnd
    · -- the data went up to the end of the buffer
      refine ⟨_, entry_anew hsize (by rw [hcur]; exact hend) (by omega) hsecond, ⟨rfl, rfl, rfl⟩, .inl ?_⟩
      have hpos := q.bufSize_pos
      refine ⟨hsecond, by simp [took, hcnt], Nat.le_refl _, ?_, ?_, lap + 1, ?_, by omega, ?_, ?_⟩
      · show q.bufPhyAddr < q.bufEnd
        omega
      · rcases hmap with hmap | ⟨hstart, -⟩
        · refine .inr ⟨rfl, ?_⟩
          show c.data0.dataAddr = _
          rw [hmap, hend, hbufEnd, Nat.add_sub_cancel_left]
        · omega
      · simp only [Nat.add_mul]
        omega
      · rw [Nat.add_mul]
        omega
      · show pointAddr q x - q.bufSize = _
        rw [hpoint, Nat.add_mul]
        omega
    · refine ⟨_, entry_over hsize hsecond (by omega) (.inr ⟨hcalm, by omega, hend⟩), ⟨rfl, rfl, rfl⟩, .inr ?_⟩
      rw [if_pos (by omega)]
      refine inSecond_over rfl hlow (by omega) hmap hp ?_ ?_ ?_
      · rw [Nat.add_mul]
        omega
      · rw [Nat.add_mul]
        omega
      · rw [Nat.add_mul]
        omega

/-- **A further frame, in the first range.** -/
theorem entry_inFirst (h : InFirst q c p e) (hx : x.globalOffset = e) (hsize : x.frameSize < q.bufSize)
    (hidx : c.idxNum ≠ 0) (hcalm : CalmEntry q c x) :
    ∃ c', c.entry q x = some c' ∧ (c'.index = c.index.set c.pos x ∧ c'.pos = c.pos + 1 ∧ c'.idxNum = c.idxNum + 1) ∧
      (InFirst q c' p (e + x.frameSize) ∨ InSecond q c' p (e + x.frameSize)) := by
  obtain ⟨lap, hp, hple, hele, hpoint⟩ := h.place
  have hcur : c.cur = c.data0 := by simp [Call.cur, h.second]
  have hlow := h.low
  have hhigh := h.high
  have hcnt : c.recDataCnt < 2 := by
    rw [h.cnt]
    exact Nat.lt_succ_self 1
  have hbufEnd : q.bufEnd = q.bufPhyAddr + q.bufSize := rfl
  unfold CalmEntry at hcalm
  rw [if_neg hidx, hcur] at hcalm
  by_cases hbefore : c.idxPointAddr < q.bufEnd
  · have hpoint' := pointAddr_lap q lap hx (by omega) (by omega)
    by_cases hin : pointAddr q x ≤ q.bufEnd
    · refine ⟨_, entry_same hsize (by rw [hcur]; omega) hin, ⟨rfl, rfl, rfl⟩, .inl ?_⟩
      exact ⟨h.second, by simp [took, h.cnt], hlow, hhigh, h.mapped, lap, hp, by omega, by omega, hpoint'⟩
    · refine ⟨_, entry_over hsize h.second hcnt (.inr ⟨by omega, by omega, by omega⟩), ⟨rfl, rfl, rfl⟩, .inr ?_⟩
      rw [if_pos (by omega)]
      refine inSecond_over rfl hlow hhigh h.mapped hp ?_ ?_ ?_
      · rw [Nat.add_mul]
        omega
      · rw [Nat.add_mul]
        omega
      · rw [Nat.add_mul]
        omega
  · -- the frame before ended with the buffer
    rw [if_neg hbefore] at hcalm
    have he : e = (lap + 1) * q.bufSize := by
      rw [Nat.add_mul]
      omega
    have hpos := q.bufSize_pos
    have hpoint' := pointAddr_lap q (lap + 1) hx (by omega) (by omega)
    refine ⟨_, entry_over hsize h.second hcnt (.inl hcalm.2), ⟨rfl, rfl, rfl⟩, .inr ?_⟩
    rw [if_neg (by omega)]
    refine inSecond_over rfl hlow hhigh h.mapped hp (by omega) ?_ hpoint'
    rw [Nat.add_mul] at he ⊢
    omega

/-- **A further frame, in the second range.** -/
theorem entry_inSecond (h : InSecond q c p e) (hx : x.globalOffset = e) (hsize : x.frameSize < q.bufSize)
    (hidx : c.idxNum ≠ 0) (hcalm : CalmEntry q c x) :
    ∃ c', c.entry q x = some c' ∧ (c'.index = c.index.set c.pos x ∧ c'.pos = c.pos + 1 ∧ c'.idxNum = c.idxNum + 1) ∧
      (InFirst q c' p (e + x.frameSize) ∨ InSecond q c' p (e + x.frameSize)) := by
  obtain ⟨lap, hp, hlow, hhigh, hpoint⟩ := h.place
  have hcur : c.cur = c.data1 := by simp [Call.cur, h.second]
  have hbufEnd : q.bufEnd = q.bufPhyAddr + q.bufSize := rfl
  unfold CalmEntry at hcalm
  rw [if_neg hidx, h.second] at hcalm
  have hbefore : c.idxPointAddr < q.bufEnd := by
    by_contra hnot
    rw [if_neg hnot] at hcalm
    cases hcalm.1
  rw [if_pos hbefore] at hcalm
  have hin := hcalm rfl
  have hpoint' := pointAddr_lap q (lap + 1) hx hlow (by omega)
  refine ⟨_, entry_same hsize ?_ hin, ⟨rfl, rfl, rfl⟩, .inr ?_⟩
  · rw [hcur, h.start]
    omega
  · refine ⟨h.second, by simp [took, h.cnt], h.low, h.high, h.mapped, h.len, h.start, h.mapped1, lap, hp, by omega, ?_,
      hpoint'⟩
    rw [Nat.add_mul] at hlow hpoint' ⊢
    omega

/-- **One round.** -/
theorem Held.entry (h : Held q c us p e) (hasks : c.Asks q) (hx : x.globalOffset = e)
    (hsize : x.frameSize < q.bufSize) (hcalm : CalmEntry q c x) :
    ∃ c', c.entry q x = some c' ∧ Held q c' (us ++ [x]) p (e + x.frameSize) := by
  have hnext : ∃ c', c.entry q x = some c' ∧
      (c'.index = c.index.set c.pos x ∧ c'.pos = c.pos + 1 ∧ c'.idxNum = c.idxNum + 1) ∧
      (InFirst q c' p (e + x.frameSize) ∨ InSecond q c' p (e + x.frameSize)) := by
    rcases h.data with ⟨hnil, hsecond, hcnt, hmap, hread⟩ | ⟨hne, hfirst | hsecond⟩
    · exact entry_first hsecond hcnt hmap hread hx hsize (by rw [h.count, hnil, List.length_nil]) hcalm
    · refine entry_inFirst hfirst hx hsize ?_ hcalm
      rw [h.count, Ne, List.length_eq_zero_iff]
      exact hne
    · refine entry_inSecond hsecond hx hsize ?_ hcalm
      rw [h.count, Ne, List.length_eq_zero_iff]
      exact hne
  obtain ⟨c', hc', ⟨hindex, hpos, hnum⟩, hdata⟩ := hnext
  refine ⟨c', hc', ?_, ?_, ?_, ?_, h.dvd, .inr ⟨by simp, hdata⟩⟩
  · have hlt : c.idxNum < c.index.length := by
      rw [h.room]
      exact hasks.2
    rw [hindex, hnum, h.pos, take_set_succ hlt, h.entries]
  · rw [hpos, hnum, h.pos]
  · rw [hindex, List.length_set, h.room]
  · rw [hnum, h.count, List.length_append, List.length_singleton]

/-! ## The end of a call -/

/-- The rounded length of the last range. -/
def rounded (q : Fq) (n : Nat) : Nat := n + (q.allignLen - n % q.allignLen)

theorem rounded_pos (q : Fq) (n : Nat) : n < rounded q n ∧ rounded q n ≤ n + q.allignLen := by
  have hmod := Nat.mod_lt n q.allignLen_pos
  unfold rounded
  omega

/-- Behind the loop, where the frames end in the range and the data does not go past the buffer. -/
theorem finish_eq (hnum : 0 < c.idxNum) (hlow : c.cur.dataPhyAddr ≤ c.idxPointAddr)
    (hin : c.cur.dataPhyAddr + rounded q (c.idxPointAddr - c.cur.dataPhyAddr) ≤ q.bufEnd) :
    c.finish q = (some (c.cur.dataPhyAddr + rounded q (c.idxPointAddr - c.cur.dataPhyAddr)),
      .data ⟨[(c.setCur { c.cur with len := rounded q (c.idxPointAddr - c.cur.dataPhyAddr) }).data0,
        (c.setCur { c.cur with len := rounded q (c.idxPointAddr - c.cur.dataPhyAddr) }).data1].take c.recDataCnt,
        c.index.take c.idxNum⟩) := by
  have hplaced := q.placed
  have hround := rounded_pos q (c.idxPointAddr - c.cur.dataPhyAddr)
  have hbufEnd : q.bufEnd = q.bufPhyAddr + q.bufSize := rfl
  have hlen : (c.idxPointAddr + 0x100000000 - c.cur.dataPhyAddr) % 0x100000000
      = c.idxPointAddr - c.cur.dataPhyAddr := by omega
  have hsum : (c.idxPointAddr - c.cur.dataPhyAddr + (q.allignLen - (c.idxPointAddr - c.cur.dataPhyAddr) % q.allignLen))
      % 0x100000000 = rounded q (c.idxPointAddr - c.cur.dataPhyAddr) := by
    apply Nat.mod_eq_of_lt
    change rounded q (c.idxPointAddr - c.cur.dataPhyAddr) < _
    have hpos := q.bufSize_pos
    omega
  have hset : ∀ d, (c.setCur d).idxPointAddr = c.idxPointAddr ∧ (c.setCur d).recDataCnt = c.recDataCnt ∧
      (c.setCur d).index = c.index ∧ (c.setCur d).idxNum = c.idxNum := by
    intro d
    unfold Call.setCur
    split <;> exact ⟨rfl, rfl, rfl, rfl⟩
  have haddr : c.idxPointAddr + (q.allignLen - (c.idxPointAddr - c.cur.dataPhyAddr) % q.allignLen)
      = c.cur.dataPhyAddr + rounded q (c.idxPointAddr - c.cur.dataPhyAddr) := by
    unfold rounded
    omega
  unfold Call.finish
  simp only [hlen, hsum, (hset _).1, (hset _).2.1, (hset _).2.2.1, (hset _).2.2.2, haddr]
  rw [if_pos hnum, if_neg (Nat.not_lt.mpr hin)]

/-- The last range of a call starts at position `a`, and the frames end at `e` on the same round. -/
theorem last_range (hk : k < q.bufSize) (ha : a = lap * q.bufSize + k) (hdvd : q.allignLen ∣ a)
    (hle : a ≤ e) (hlt : e < lap * q.bufSize + q.bufSize) :
    k + rounded q (e - a) ≤ q.bufSize ∧ q.allignLen ∣ rounded q (e - a) ∧
      ReadAt q (q.bufPhyAddr + k + rounded q (e - a)) (a + rounded q (e - a)) e := by
  have hround := rounded_pos q (e - a)
  have hdvd' : q.allignLen ∣ rounded q (e - a) := dvd_round q.allignLen_pos
  -- the range starts at a multiple of the alignment, and so does the next round
  have hkdvd : q.allignLen ∣ k := by
    rw [ha] at hdvd
    exact (Nat.dvd_add_right (Nat.dvd_trans q.alligned (Nat.dvd_mul_left _ _))).mp hdvd
  have hin : rounded q (e - a) ≤ q.bufSize - k :=
    round_le q.allignLen_pos (Nat.dvd_sub q.alligned hkdvd) (by omega)
  have hbufEnd : q.bufEnd = q.bufPhyAddr + q.bufSize := rfl
  refine ⟨by omega, hdvd', ⟨⟨lap, by omega, by omega, hlt⟩, by omega, by omega, Nat.dvd_add hdvd hdvd', by
    omega, by omega⟩⟩

/-- **The end of a call with entries.** -/
theorem Held.finish (h : Held q c us p e) (hne : us ≠ []) (hcalm : CalmEnd q c) :
    ∃ addr p' ds, c.finish q = (some addr, .data ⟨ds, us⟩) ∧ Tiles q p ds p' ∧ ReadAt q addr p' e := by
  have hnum : 0 < c.idxNum := by
    rw [h.count, List.length_pos_iff]
    exact hne
  have hend : c.idxPointAddr ≠ q.bufEnd := hcalm.resolve_left (by omega)
  have hbufEnd : q.bufEnd = q.bufPhyAddr + q.bufSize := rfl
  have hpos := q.bufSize_pos
  rcases h.data with ⟨hnil, -⟩ | ⟨-, hfirst | hsecond⟩
  · exact absurd hnil hne
  · obtain ⟨lap, hp, hple, hele, hpoint⟩ := hfirst.place
    have hlow := hfirst.low
    have hhigh := hfirst.high
    have hcur : c.cur = c.data0 := by simp [Call.cur, hfirst.second]
    obtain ⟨hin, hdvd, hread⟩ := last_range (q := q) (k := c.data0.dataPhyAddr - q.bufPhyAddr) (e := e) (by omega) hp
      h.dvd hple (by omega)
    have hlen : c.idxPointAddr - c.data0.dataPhyAddr = e - p := by omega
    have hfin := finish_eq (q := q) hnum (by rw [hcur]; omega) (by rw [hcur, hlen]; omega)
    rw [hcur, hlen, hfirst.cnt, h.entries] at hfin
    simp only [Call.setCur, hfirst.second, Bool.false_eq_true, if_false, List.take_succ_cons, List.take_zero] at hfin
    refine ⟨_, p + rounded q (e - p), _, hfin, ⟨?_, hfirst.mapped, ?_, hdvd, ?_, rfl⟩, ?_⟩
    · rw [hp, mod_lap q (by omega)]
      show c.data0.dataPhyAddr = _
      omega
    · exact Nat.lt_of_le_of_lt (Nat.zero_le _) (rounded_pos q (e - p)).1
    · rw [hp, mod_lap q (by omega), ← hp]
      exact hin
    · have haddr : q.bufPhyAddr + (c.data0.dataPhyAddr - q.bufPhyAddr) = c.data0.dataPhyAddr := by omega
      rwa [haddr] at hread
  · obtain ⟨lap, hp, hlow', hhigh', hpoint⟩ := hsecond.place
    have hlow := hsecond.low
    have hhigh := hsecond.high
    have hcur : c.cur = c.data1 := by simp [Call.cur, hsecond.second]
    have hlap : p + c.data0.len = (lap + 1) * q.bufSize := by
      rw [hsecond.len, hp, Nat.add_mul]
      omega
    have hround : (lap + 2) * q.bufSize = (lap + 1) * q.bufSize + q.bufSize := Nat.succ_mul (lap + 1) q.bufSize
    have hdvd0 : q.allignLen ∣ c.data0.len := by
      have hall : q.allignLen ∣ p + c.data0.len := by
        rw [hlap]
        exact Nat.dvd_trans q.alligned (Nat.dvd_mul_left _ _)
      exact (Nat.dvd_add_right h.dvd).mp hall
    obtain ⟨hin, hdvd, hread⟩ := last_range (q := q) (a := p + c.data0.len) (k := 0) (e := e) hpos hlap
      (Nat.dvd_add h.dvd hdvd0) (by omega) (by omega)
    have hlen : c.idxPointAddr - c.data1.dataPhyAddr = e - (p + c.data0.len) := by
      rw [hsecond.start, hlap]
      omega
    have hfin := finish_eq (q := q) hnum (by rw [hcur, hsecond.start]; omega)
      (by rw [hcur, hlen, hsecond.start]; omega)
    rw [hcur, hlen, hsecond.cnt, h.entries, hsecond.start] at hfin
    simp only [Call.setCur, hsecond.second, if_true, List.take_succ_cons, List.take_zero] at hfin
    refine ⟨_, _, _, hfin, ⟨?_, hsecond.mapped, ?_, hdvd0, ?_, ?_, ?_, ?_, hdvd, ?_, rfl⟩, hread⟩
    · rw [hp, mod_lap q (by omega)]
      omega
    · rw [hsecond.len]
      omega
    · rw [hp, mod_lap q (by omega), hsecond.len]
      omega
    · rw [hlap, Nat.mul_mod_left]
      exact hsecond.start
    · exact hsecond.mapped1
    · exact Nat.lt_of_le_of_lt (Nat.zero_le _) (rounded_pos q _).1
    · rw [hlap, Nat.mul_mod_left, ← hlap]
      exact hin

/-! ## Runs -/

/-- The entries taken from the index. -/
def taken (is : List Input) : List Index :=
  is.filterMap (fun i => match i with
    | .index x => some x
    | _ => none)

/-- What the successful calls return. -/
def handed (rs : List Ret) : List DataIndex :=
  rs.filterMap (fun r => match r with
    | .data d => some d
    | _ => none)

/-- The entries of the call in progress. -/
def inCall (s : Sys) : List Index :=
  match s.call with
  | none => []
  | some c => c.index.take c.idxNum

/-- Every entry taken is returned once and in order, or is in the call in progress; and the ranges follow each other
    from the start of the stream and cover the frames of the entries returned. -/
structure Right (q : Fq) (ts : List Index) (s : Sys) (rs : List Ret) : Prop where
  entries : (handed rs).flatMap (·.index) ++ inCall s = ts
  ranges : ∃ p, Tiles q 0 ((handed rs).flatMap (·.recData)) p ∧ streamEnd ((handed rs).flatMap (·.index)) ≤ p

/-- The entries `hs` are returned with the data up to `p`, and the call in progress has the others. -/
structure SysInv (q : Fq) (ts : List Index) (s : Sys) (rs : List Ret) (hs us : List Index) (p : Nat) : Prop where
  contiguous : Contiguous (· < q.bufSize) ts
  split : hs ++ us = ts
  returned : (handed rs).flatMap (·.index) = hs
  tiles : Tiles q 0 ((handed rs).flatMap (·.recData)) p
  read : ReadAt q s.recBufReadPhyAddr p (streamEnd hs)
  call : match s.call with
    | none => us = []
    | some c => Held q c us p (streamEnd ts)

theorem sysInv_opened : SysInv q [] (opened q) [] [] [] 0 where
  contiguous := .nil
  split := rfl
  returned := rfl
  tiles := rfl
  read := by
    have hpos := q.bufSize_pos
    refine ⟨⟨0, ?_, ?_, ?_⟩, Nat.le_refl _, ?_, Nat.dvd_zero _, Nat.le_refl _, Nat.zero_le _⟩
    · simp [opened]
    · simp
    · simpa using hpos
    · exact Nat.le_add_right _ _
  call := rfl

theorem SysInv.right (h : SysInv q ts s rs hs us p) :
    Right q ts s rs := by
  have hcall := h.call
  refine ⟨?_, p, h.tiles, ?_⟩
  · rw [h.returned, ← h.split]
    unfold inCall
    cases hc : s.call with
    | none =>
      rw [hc] at hcall
      rw [show us = [] from hcall]
    | some c =>
      rw [hc] at hcall
      have hheld : Held q c us p (streamEnd ts) := hcall
      exact congrArg (hs ++ ·) hheld.entries
  · rw [h.returned]
    exact h.read.covers

theorem handed_append (rs gs : List Ret) : handed (rs ++ gs) = handed rs ++ handed gs := List.filterMap_append

/-- **A call returns.** -/
theorem SysInv.return' (h : SysInv q ts s rs hs us p)
    {c : Call} (hc : s.call = some c) (hcalm : CalmEnd q c) :
    ∃ hs' p', SysInv q ts (return' q s c).1 (rs ++ (return' q s c).2) hs' [] p' := by
  have hcall := h.call
  rw [hc] at hcall
  have hheld : Held q c us p (streamEnd ts) := hcall
  by_cases hnil : us = []
  · -- there is nothing to return
    have hnum : ¬ c.idxNum > 0 := by simp [hheld.count, hnil]
    have hfin : c.finish q = (none, .noAvailableData) := by
      unfold Call.finish
      rw [if_neg hnum]
    have hts : hs = ts := by simpa [hnil] using h.split
    refine ⟨hs, p, h.contiguous, by simpa using hts, ?_, ?_, ?_, rfl⟩
    · simpa [RecIndexV1.return', hfin, handed] using h.returned
    · simpa [RecIndexV1.return', hfin, handed] using h.tiles
    · simpa [RecIndexV1.return', hfin] using h.read
  · obtain ⟨addr, p', ds, hfin, htiles, hread⟩ := hheld.finish hnil hcalm
    have hhanded : handed (rs ++ (RecIndexV1.return' q s c).2) = handed rs ++ [⟨ds, us⟩] := by
      rw [handed_append]
      simp [RecIndexV1.return', hfin, handed]
    refine ⟨ts, p', h.contiguous, List.append_nil _, ?_, ?_, ?_, rfl⟩
    · rw [hhanded, List.flatMap_append, h.returned, ← h.split]
      simp
    · rw [hhanded, List.flatMap_append]
      exact h.tiles.append (by simpa using htiles)
    · simpa [RecIndexV1.return', hfin] using hread

/-- **One step.** -/
theorem SysInv.step (h : SysInv q ts s rs hs us p)
    {i : Input} {r : Sys × List Ret} (hcalm : calm q s i) (hts : Contiguous (· < q.bufSize) (ts ++ taken [i]))
    (hstep : step q s i = some r) : ∃ hs' us' p', SysInv q (ts ++ taken [i]) r.1 (rs ++ r.2) hs' us' p' := by
  have hcall := h.call
  unfold RecIndexV1.step at hstep
  unfold calm at hcalm
  cases hc : s.call with
  | none =>
    rw [hc] at hcall hstep
    have hnil : us = [] := hcall
    have hsplit : hs = ts := by simpa [hnil] using h.split
    cases i with
    | acquire =>
      obtain rfl := Option.some.inj hstep
      refine ⟨hs, [], p, by simpa [taken] using h.contiguous, by simpa [taken] using hsplit, by simpa using h.returned,
        by simpa using h.tiles, h.read, ?_⟩
      have hread := h.read
      rw [hsplit] at hread
      simpa [taken] using held_begin hread
    | index x => cases hstep
    | noIndex => cases hstep
    | leave => cases hstep
  | some c =>
    rw [hc] at hcall hstep hcalm
    have hheld : Held q c us p (streamEnd ts) := hcall
    cases i with
    | acquire => cases hstep
    | index x =>
      simp only at hstep
      split at hstep
      · next hasks =>
        obtain ⟨-, hstart, hsize⟩ := hts.concat
        obtain ⟨c', hentry, hheld'⟩ := hheld.entry hasks hstart hsize hcalm
        rw [hentry] at hstep
        obtain rfl := Option.some.inj hstep
        refine ⟨hs, us ++ [x], p, hts, ?_, by simpa using h.returned, by simpa using h.tiles, h.read, ?_⟩
        · rw [← List.append_assoc, h.split]
          rfl
        · show Held q c' (us ++ [x]) p (streamEnd (ts ++ [x]))
          rw [streamEnd_concat, hstart]
          exact hheld'
      · cases hstep
    | noIndex =>
      simp only at hstep
      split at hstep
      · obtain rfl := Option.some.inj hstep
        obtain ⟨hs', p', hinv⟩ := h.return' hc hcalm
        exact ⟨hs', [], p', by simpa [taken] using hinv⟩
      · cases hstep
    | leave =>
      simp only at hstep
      split at hstep
      · cases hstep
      · obtain rfl := Option.some.inj hstep
        obtain ⟨hs', p', hinv⟩ := h.return' hc hcalm
        exact ⟨hs', [], p', by simpa [taken] using hinv⟩

/-- **Ranges and frames.** In every calm run over a stream without gaps the entries come back once and in order, and
    the ranges follow each other through the buffer, aligned and not empty, and cover the frames. -/
theorem run_ranges {is : List Input} {s : Sys} {rs : List Ret} (hrun : Run (step q) (calm q) (opened q) is s rs)
    (hts : Contiguous (· < q.bufSize) (taken is)) : Right q (taken is) s rs := by
  obtain ⟨hs, us, p, hinv⟩ : ∃ hs us p, SysInv q (taken is) s rs hs us p := by
    revert hts
    refine hrun.inv_effects (fun is s rs => Contiguous (· < q.bufSize) (taken is) →
      ∃ hs us p, SysInv q (taken is) s rs hs us p) (fun _ => ⟨[], [], 0, sysInv_opened⟩) ?_
    intro is s rs i t gs ih hcalm hstep hts
    have happend : taken (is ++ [i]) = taken is ++ taken [i] := List.filterMap_append
    rw [happend] at hts ⊢
    obtain ⟨hs, us, p, hinv⟩ := ih (hts.init (List.prefix_append _ _))
    exact hinv.step hcalm hts hstep
  exact hinv.right

instance decidableCalm (q : Fq) (s : Sys) (i : Input) : Decidable (calm q s i) := by
  unfold calm
  split <;> infer_instance

/-- Three units of 752 bytes, and four entries for a call. -/
def threeUnits : Fq := ⟨0x1000, 0x5000, 2256, 752, 4, by decide, by decide, by decide, by decide⟩

/-- Four frames in three calls; the last call goes around the end of the buffer, in two ranges. -/
theorem run_ranges_around : ∃ is s rs, Run (step threeUnits) (calm threeUnits) (opened threeUnits) is s rs ∧
    taken is = [⟨0, 188⟩, ⟨188, 940⟩, ⟨1128, 940⟩, ⟨2068, 564⟩] ∧ Right threeUnits (taken is) s rs ∧
    (handed rs).flatMap (·.recData) =
      [⟨0x1000, 0x5000, 752⟩, ⟨0x12f0, 0x52f0, 752⟩, ⟨0x15e0, 0x55e0, 752⟩, ⟨0x1000, 0x5000, 752⟩] := by
  obtain ⟨s, rs, hrun, htest⟩ := exists_run_of_exec (step threeUnits) (calm threeUnits) (opened threeUnits)
    [.acquire, .index ⟨0, 188⟩, .noIndex, .acquire, .index ⟨188, 940⟩, .noIndex, .acquire, .index ⟨1128, 940⟩,
      .index ⟨2068, 564⟩, .noIndex]
    (fun r => (handed r.2).flatMap (·.recData) =
      [⟨0x1000, 0x5000, 752⟩, ⟨0x12f0, 0x52f0, 752⟩, ⟨0x15e0, 0x55e0, 752⟩, ⟨0x1000, 0x5000, 752⟩]) (by decide)
  rw [decide_eq_true_eq] at htest
  have hts : Contiguous (· < threeUnits.bufSize) [⟨0, 188⟩, ⟨188, 940⟩, ⟨1128, 940⟩, ⟨2068, 564⟩] := by
    have h1 : Contiguous (· < threeUnits.bufSize) [⟨0, 188⟩] := .snoc .nil rfl (by decide)
    have h2 : Contiguous (· < threeUnits.bufSize) [⟨0, 188⟩, ⟨188, 940⟩] := .snoc h1 rfl (by decide)
    have h3 : Contiguous (· < threeUnits.bufSize) [⟨0, 188⟩, ⟨188, 940⟩, ⟨1128, 940⟩] := .snoc h2 rfl (by decide)
    exact .snoc h3 rfl (by decide)
  exact ⟨_, s, rs, hrun, rfl, run_ranges hrun hts, htest⟩

/-- The sizes the index may have: whole packets, less than the buffer. -/
def Packets (q : Fq) (n : Nat) : Prop := n < q.bufSize ∧ 188 ∣ n
deriving Decidable

/-- **Frames that are lost.** The second frame ends with the buffer, and the call returns no data; and two frames end
    inside the data that was handed out already, and one takes the place of the other. -/
theorem lost_entries :
    (Contiguous (Packets threeUnits) [⟨0, 752⟩, ⟨752, 1504⟩] ∧
      ∃ is s rs, Run (step threeUnits) always (opened threeUnits) is s rs ∧
        taken is = [⟨0, 752⟩, ⟨752, 1504⟩] ∧ s.call = none ∧ (handed rs).flatMap (·.index) = [⟨0, 752⟩]) ∧
    Contiguous (Packets threeUnits) [⟨0, 188⟩, ⟨188, 188⟩, ⟨376, 188⟩] ∧
      ∃ is s rs, Run (step threeUnits) always (opened threeUnits) is s rs ∧
        taken is = [⟨0, 188⟩, ⟨188, 188⟩, ⟨376, 188⟩] ∧ s.call = none ∧
        (handed rs).flatMap (·.index) = [⟨0, 188⟩, ⟨376, 188⟩, ⟨0, 0⟩] := by
  refine ⟨⟨?_, ?_⟩, ?_, ?_⟩
  · have h1 : Contiguous (Packets threeUnits) [⟨0, 752⟩] := .snoc .nil rfl (by decide)
    exact .snoc h1 rfl (by decide)
  · exact ⟨[.acquire, .index ⟨0, 752⟩, .noIndex, .acquire, .index ⟨752, 1504⟩, .noIndex],
      exists_run_imp (fun s rs => s.call = none ∧ (handed rs).flatMap (·.index) = [⟨0, 752⟩])
      (by decide) fun _ _ _ htest => ⟨rfl, htest⟩⟩
  · have h1 : Contiguous (Packets threeUnits) [⟨0, 188⟩] := .snoc .nil rfl (by decide)
    have h2 : Contiguous (Packets threeUnits) [⟨0, 188⟩, ⟨188, 188⟩] := .snoc h1 rfl (by decide)
    exact .snoc h2 rfl (by decide)
  · exact ⟨[.acquire, .index ⟨0, 188⟩, .noIndex, .acquire, .index ⟨188, 188⟩, .index ⟨376, 188⟩, .noIndex],
      exists_run_imp (fun s rs => s.call = none ∧ (handed rs).flatMap (·.index) = [⟨0, 188⟩, ⟨376, 188⟩, ⟨0, 0⟩])
      (by decide) fun _ _ _ htest => ⟨rfl, htest⟩⟩

end HiSTB.Demux.RecIndexV1
