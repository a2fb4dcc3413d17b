import HiSTB.Omxvdec.Correctness.Buffers
import HiSTB.Omxvdec.Stream

/-!
# `Omxvdec.Correctness.Streams` — every input buffer is answered once, and flushes end

The sections under `raw_lock` keep the books whole. Two writes come outside of it. `channel_empty_this_stream`
writes the offset of a buffer before it finds that the buffer is on the list already; where the decoder holds the
buffer, the address by which the decoder gives it back is lost. And `eos_in_list` is read before the lock is
taken and set after it is given up, so that two calls may add `last_frame`. `Quiet` excludes the two.

* `Books` — the invariant of the queue, `Flushing` — of a pending flush;
* `Ledger.next` — one part of a call keeps both;
* `run_streams` — so does every run;
* `lost_stream_and_two_ends` — the two cases.
-/

namespace HiSTB.Omxvdec.Stream

open Lib
open Channel (BufState Buf usedAt inUse withStatus withStatus_addr withStatus_self withStatus_other
  used_withStatus used_erase inUse_withStatus inUse_erase used_congr giveBack_eq_some)

variable {new : List Pc} {pc : Pc} {fs : List Event} {o : BitVec 32} {i : Nat} {d : StreamDesc}

/-! ## The buffers -/

/-- The entry exists. -/
def Chan.Valid (s : Chan) : Raw → Prop
  | .input i => i < s.num
  | .last => True

/-- The buffers are disjoint. -/
structure Table (s : Chan) : Prop where
  fits : ∀ r, s.Valid r → (s.buf r).phyAddr.toNat + (s.buf r).bufLen.toNat ≤ 0x100000000
  apart : ∀ r q, s.Valid r → s.Valid q → r ≠ q →
    (s.buf r).phyAddr.toNat + (s.buf r).bufLen.toNat ≤ (s.buf q).phyAddr.toNat ∨
      (s.buf q).phyAddr.toNat + (s.buf q).bufLen.toNat ≤ (s.buf r).phyAddr.toNat
  last : 0 < (s.buf .last).bufLen

/-- The entry's data begins inside its buffer. -/
structure Chan.Inside (s : Chan) (r : Raw) : Prop where
  valid : s.Valid r
  lt : (s.buf r).offset < (s.buf r).bufLen

variable {s t : Chan} {r q : Raw} {k : BitVec 32}

theorem addr_toNat (h : Table s) (hr : s.Inside r) :
    (s.buf r).addr.toNat = (s.buf r).phyAddr.toNat + (s.buf r).offset.toNat := by
  have hfits := h.fits r hr.valid
  have hlt : (s.buf r).offset.toNat < (s.buf r).bufLen.toNat := hr.lt
  unfold Buf.addr
  rw [BitVec.toNat_add, Nat.mod_eq_of_lt (by omega)]

/-- Addresses inside tell the entries apart. -/
theorem addr_inj (h : Table s) (hr : s.Inside r) (hq : s.Inside q) (heq : (s.buf r).addr = (s.buf q).addr) :
    r = q := by
  by_contra hne
  have hr' := addr_toNat h hr
  have hq' := addr_toNat h hq
  have hlr : (s.buf r).offset.toNat < (s.buf r).bufLen.toNat := hr.lt
  have hlq : (s.buf q).offset.toNat < (s.buf q).bufLen.toNat := hq.lt
  rw [heq] at hr'
  rcases h.apart r q hr.valid hq.valid hne with hle | hle <;> omega

/-- The table is the same, whatever else was written. -/
structure SameTable (s t : Chan) : Prop where
  num : t.num = s.num
  phyAddr : ∀ r, (t.buf r).phyAddr = (s.buf r).phyAddr
  bufLen : ∀ r, (t.buf r).bufLen = (s.buf r).bufLen

theorem SameTable.trans {u : Chan} (h : SameTable s t) (h' : SameTable t u) : SameTable s u :=
  ⟨h'.num.trans h.num, fun r => (h'.phyAddr r).trans (h.phyAddr r), fun r => (h'.bufLen r).trans (h.bufLen r)⟩

theorem SameTable.valid (h : SameTable s t) (hr : s.Valid r) : t.Valid r := by
  cases r with
  | input i =>
    unfold Chan.Valid at hr ⊢
    rwa [h.num]
  | last => exact trivial

theorem SameTable.symm (h : SameTable s t) : SameTable t s :=
  ⟨h.num.symm, fun r => (h.phyAddr r).symm, fun r => (h.bufLen r).symm⟩

theorem Table.same (h : Table s) (hst : SameTable s t) : Table t := by
  refine ⟨fun r hr => ?_, fun r q hr hq hne => ?_, ?_⟩
  · rw [hst.phyAddr, hst.bufLen]
    exact h.fits r (hst.symm.valid hr)
  · rw [hst.phyAddr, hst.bufLen, hst.phyAddr, hst.bufLen]
    exact h.apart r q (hst.symm.valid hr) (hst.symm.valid hq) hne
  · rw [hst.bufLen]
    exact h.last

theorem Chan.Inside.same (h : s.Inside r) (hst : SameTable s t) (ho : (t.buf r).offset = (s.buf r).offset) :
    t.Inside r := by
  refine ⟨hst.valid h.valid, ?_⟩
  rw [ho, hst.bufLen]
  exact h.lt

theorem setStatus_same (s : Chan) (r : Raw) (st : BufState) : SameTable s (s.setStatus r st) := by
  refine ⟨rfl, fun q => ?_, fun q => ?_⟩
  · by_cases hq : q = r
    · subst hq
      simp [Chan.setStatus]
    · simp [Chan.setStatus, hq]
  · by_cases hq : q = r
    · subst hq
      simp [Chan.setStatus]
    · simp [Chan.setStatus, hq]

theorem setStatus_offset (s : Chan) (r : Raw) (st : BufState) (q : Raw) :
    ((s.setStatus r st).buf q).offset = (s.buf q).offset := by
  by_cases hq : q = r
  · subst hq
    simp [Chan.setStatus]
  · simp [Chan.setStatus, hq]

theorem setOffset_same (s : Chan) (r : Raw) (o : BitVec 32) : SameTable s (s.setOffset r o) := by
  refine ⟨rfl, fun q => ?_, fun q => ?_⟩
  · by_cases hq : q = r
    · subst hq
      simp [Chan.setOffset]
    · simp [Chan.setOffset, hq]
  · by_cases hq : q = r
    · subst hq
      simp [Chan.setOffset]
    · simp [Chan.setOffset, hq]

/-! ## The invariant -/

/-- The call was made for the stream at address `k`. -/
def Pc.seeks (k : BitVec 32) : Pc → Bool
  | .release j => j = k
  | _ => false

/-- How often input buffer `i` was accepted. -/
def accepted (i : Nat) (ev : List Event) : Nat := ev.count (.accept (.input i))

/-- How often input buffer `i` was answered. -/
def answered (i : Nat) (ev : List Event) : Nat := ev.count (.inputDone .success (some i))

/-- The entries that came since the last flush. -/
def sinceFlush (ev : List Event) : List Raw :=
  ev.foldl (fun rs e => match e with
    | .flush => []
    | .accept r => r :: rs
    | _ => rs) []

/-- The books of the queue. -/
structure Books (s : Chan) (pcs : List Pc) (ev : List Event) : Prop where
  table : Table s
  nodup : s.rawQueue.Nodup
  inside : ∀ r ∈ s.rawQueue, s.Inside r
  looked : ∀ i d, .emptyInsert i d ∈ pcs → s.Inside (.input i)
  last : (s.buf .last).offset = 0
  off : ∀ r, r ∉ s.rawQueue → (s.buf r).status ≠ .inUse
  used : ∀ k, s.held.count k + pcs.countP (Pc.seeks k) = s.rawQueue.countP (usedAt s.buf k)
  count : s.rawUseCnt = s.rawQueue.countP (inUse s.buf)
  answers : ∀ i, accepted i ev = answered i ev + s.rawQueue.count (.input i)

/-- A pending flush waits for entries in use; what else is on the list came later. -/
structure Flushing (s : Chan) (ev : List Event) : Prop where
  waits : s.inputFlushPending = true → 0 < s.rawUseCnt
  since : s.inputFlushPending = true → ∀ r ∈ s.rawQueue, (s.buf r).status ≠ .inUse → r ∈ sinceFlush ev

structure Ledger (s : Chan) (pcs : List Pc) (ev : List Event) : Prop where
  books : Books s pcs ev
  flushing : Flushing s ev

/-- The condition on a part of a call that the callers give: the data begins inside the buffer. -/
def Within (s : Chan) : Pc → Prop
  | .emptyLookup d => ∀ i ∈ s.lookupAddrTable d.phyaddr, d.dataLen ≠ 0 →
      d.dataOffset < (s.buf (.input i)).bufLen
  | _ => True

/-- The condition on a part of a call that excludes the two defects. -/
def Quiet (s : Chan) : Pc → Prop
  | .emptyLookup d => ∀ i ∈ s.lookupAddrTable d.phyaddr, d.dataLen ≠ 0 → .input i ∈ s.rawQueue →
      (s.buf (.input i)).status = .inUse → d.dataOffset = (s.buf (.input i)).offset
  | .emptyEos d => d.eos = true → s.eosInList = false → .last ∉ s.rawQueue
  | .emptyLast _ => .last ∉ s.rawQueue
  | _ => True

/-- Every call is allowed. -/
def anyCall (_ : Chan) (_ : Call) : Prop := True

variable {pcs : List Pc} {ev : List Event} {st : BufState}

theorem Ledger.perm {pcs' : List Pc} (hp : pcs.Perm pcs') (h : Ledger s pcs ev) : Ledger s pcs' ev := by
  obtain ⟨⟨h₁, h₂, h₃, h₄, h₅, h₆, h₇, h₈, h₉⟩, hf⟩ := h
  refine ⟨⟨h₁, h₂, h₃, fun i d hmem => h₄ i d (hp.mem_iff.mpr hmem), h₅, h₆, fun k => ?_, h₈, h₉⟩, hf⟩
  rw [← hp.countP_eq]
  exact h₇ k

theorem sinceFlush_append (ev : List Event) (e : Event) :
    sinceFlush (ev ++ [e]) = match e with
      | .flush => []
      | .accept r => r :: sinceFlush ev
      | _ => sinceFlush ev := by
  unfold sinceFlush
  rw [List.foldl_append, List.foldl_cons, List.foldl_nil]

theorem accepted_append (i : Nat) (ev fs : List Event) : accepted i (ev ++ fs) = accepted i ev + accepted i fs :=
  List.count_append

theorem answered_append (i : Nat) (ev fs : List Event) : answered i (ev ++ fs) = answered i ev + answered i fs :=
  List.count_append

/-- Fields that the books do not read. -/
theorem Books.congr (h : Books s pcs ev) (hn : t.num = s.num) (hb : t.buf = s.buf) (hq : t.rawQueue = s.rawQueue)
    (hc : t.rawUseCnt = s.rawUseCnt) (hh : t.held = s.held) : Books t pcs ev := by
  have hst : SameTable s t := ⟨hn, fun r => by rw [hb], fun r => by rw [hb]⟩
  refine ⟨h.table.same hst, hq ▸ h.nodup, ?_, ?_, hb ▸ h.last, ?_, ?_, ?_, hq ▸ h.answers⟩
  · rw [hq]
    exact fun r hr => (h.inside r hr).same hst (by rw [hb])
  · exact fun i d hmem => (h.looked i d hmem).same hst (by rw [hb])
  · rw [hq, hb]
    exact h.off
  · rw [hq, hb, hh]
    exact h.used
  · rw [hq, hb, hc]
    exact h.count

/-- A call that looks for nothing begins, goes on or ends. -/
theorem Books.swap (h : Books s (pc :: pcs) ev) (hpc : ∀ k, pc.seeks k = false)
    (hnew : ∀ k, new.countP (Pc.seeks k) = 0)
    (hlook : ∀ i d, .emptyInsert i d ∈ new → s.Inside (.input i)) : Books s (new ++ pcs) ev := by
  refine ⟨h.table, h.nodup, h.inside, fun i d hmem => ?_, h.last, h.off, fun k => ?_, h.count, h.answers⟩
  · rcases List.mem_append.mp hmem with hmem | hmem
    · exact hlook i d hmem
    · exact h.looked i d (List.mem_cons_of_mem _ hmem)
  · have hold := h.used k
    rw [countP_cons_toNat, hpc, Bool.toNat_false, Nat.add_zero] at hold
    rw [List.countP_append, hnew, Nat.zero_add]
    exact hold

theorem Books.silent (h : Books s pcs ev) (hacc : ∀ i, accepted i fs = 0)
    (hans : ∀ i, answered i fs = 0) : Books s pcs (ev ++ fs) := by
  refine ⟨h.table, h.nodup, h.inside, h.looked, h.last, h.off, h.used, h.count, fun i => ?_⟩
  rw [accepted_append, answered_append, hacc, hans]
  exact h.answers i

/-! ## Removal of an entry -/

/-- An entry goes. -/
def Chan.drop (s : Chan) (r : Raw) : Chan := (s.setStatus r .idle).listDel r

theorem drop_used (hnd : s.rawQueue.Nodup) (hr : r ∈ s.rawQueue) (k : BitVec 32) :
    (s.drop r).rawQueue.countP (usedAt (s.drop r).buf k) +
      (decide ((s.buf r).addr = k ∧ (s.buf r).status = .inUse)).toNat = s.rawQueue.countP (usedAt s.buf k) := by
  have hset := used_withStatus s.buf hnd hr .idle k
  have herase := used_erase (withStatus s.buf r .idle) hr k
  rw [withStatus_self] at herase
  simp only [reduceCtorEq, and_false, decide_false, Bool.toNat_false, Nat.add_zero] at hset herase
  change (s.rawQueue.erase r).countP (usedAt (withStatus s.buf r .idle) k) + _ = _
  omega

theorem drop_inUse (hnd : s.rawQueue.Nodup) (hr : r ∈ s.rawQueue) :
    (s.drop r).rawQueue.countP (inUse (s.drop r).buf) + (decide ((s.buf r).status = .inUse)).toNat =
      s.rawQueue.countP (inUse s.buf) := by
  have hset := inUse_withStatus s.buf hnd hr .idle
  have herase := inUse_erase (withStatus s.buf r .idle) hr
  rw [withStatus_self] at herase
  simp only [reduceCtorEq, decide_false, Bool.toNat_false, Nat.add_zero] at hset herase
  change (s.rawQueue.erase r).countP (inUse (withStatus s.buf r .idle)) + _ = _
  omega

theorem drop_other (hq : q ≠ r) : (s.drop r).buf q = s.buf q := withStatus_other .idle hq

theorem answer_answers (s : Chan) (r : Raw) (i : Nat) :
    accepted i (s.answer r).2 = 0 ∧ answered i (s.answer r).2 = (decide (r = .input i)).toNat := by
  cases r with
  | input j => by_cases hj : j = i <;> simp [Chan.answer, accepted, answered, hj]
  | last => simp [Chan.answer, accepted, answered]

/-- An entry is removed and answered. `n` is what the counter loses; for an entry in use a call has to go with
    it. -/
theorem Books.remove (h : Books s pcs ev) (pcs' : List Pc) (hr : r ∈ s.rawQueue)
    (hlook : ∀ i d, .emptyInsert i d ∈ pcs' → .emptyInsert i d ∈ pcs)
    (hseeks : ∀ k, pcs.countP (Pc.seeks k) = pcs'.countP (Pc.seeks k) +
      (decide ((s.buf r).addr = k ∧ (s.buf r).status = .inUse)).toNat) :
    Books { ((s.drop r).answer r).1 with
        rawUseCnt := s.rawUseCnt - (decide ((s.buf r).status = .inUse)).toNat } pcs'
      (ev ++ ((s.drop r).answer r).2) := by
  have hanswer : ((s.drop r).answer r).1 = { s.drop r with eosInList := ((s.drop r).answer r).1.eosInList } := by
    cases r <;> rfl
  have hset := setStatus_same s r .idle
  have hst : SameTable s (s.drop r) := ⟨hset.num, hset.phyAddr, hset.bufLen⟩
  rw [hanswer]
  refine ⟨(h.table.same hst).same ⟨rfl, fun _ => rfl, fun _ => rfl⟩, h.nodup.erase r, fun q hq => ?_,
    fun i d hmem => ?_, ?_, fun q hq => ?_, fun k => ?_, ?_, fun i => ?_⟩
  · have hin := (h.inside q (List.mem_of_mem_erase hq)).same hst (setStatus_offset s r .idle q)
    exact ⟨hin.valid, hin.lt⟩
  · have hin := (h.looked i d (hlook i d hmem)).same hst (setStatus_offset s r .idle (.input i))
    exact ⟨hin.valid, hin.lt⟩
  · exact (setStatus_offset s r .idle .last).trans h.last
  · change ((s.drop r).buf q).status ≠ .inUse
    by_cases hqr : q = r
    · subst hqr
      have hself : ((s.drop q).buf q).status = .idle := withStatus_self s.buf q .idle
      rw [hself]
      exact BufState.noConfusion
    · rw [drop_other hqr]
      refine h.off q (fun hmem => hq ?_)
      exact (List.mem_erase_of_ne hqr).mpr hmem
  · have hold := h.used k
    have hdrop := drop_used h.nodup hr k
    have hpcs := hseeks k
    change s.held.count k + _ = (s.drop r).rawQueue.countP (usedAt (s.drop r).buf k)
    omega
  · have hold := h.count
    have hdrop := drop_inUse h.nodup hr
    change s.rawUseCnt - _ = (s.drop r).rawQueue.countP (inUse (s.drop r).buf)
    omega
  · have hold := h.answers i
    have herase := count_erase_add hr (.input i)
    obtain ⟨hacc, hans⟩ := answer_answers (s.drop r) r i
    rw [accepted_append, answered_append, hacc, hans]
    change _ = _ + (s.rawQueue.erase r).count (.input i)
    omega

/-! ## Writes outside the lock -/

theorem setOffset_other (hq : q ≠ r) : (s.setOffset r o).buf q = s.buf q := by
  simp [Chan.setOffset, hq]

theorem setOffset_status (s : Chan) (r : Raw) (o : BitVec 32) (q : Raw) :
    ((s.setOffset r o).buf q).status = (s.buf q).status := by
  by_cases hq : q = r
  · subst hq
    simp [Chan.setOffset]
  · simp [Chan.setOffset, hq]

theorem setOffset_self (s : Chan) (r : Raw) (o : BitVec 32) : ((s.setOffset r o).buf r).offset = o := by
  simp [Chan.setOffset]

theorem setOffset_eq (s : Chan) (r : Raw) : s.setOffset r (s.buf r).offset = s := by
  unfold Chan.setOffset
  rw [Function.update_eq_self]

theorem setOffset_inside (hi : s.Valid (.input i)) (ho : o < (s.buf (.input i)).bufLen)
    (hq : s.Inside q ∨ q = .input i) : (s.setOffset (.input i) o).Inside q := by
  have hst := setOffset_same s (.input i) o
  by_cases hqi : q = .input i
  · subst hqi
    refine ⟨hst.valid hi, ?_⟩
    rw [setOffset_self, hst.bufLen]
    exact ho
  · refine (hq.resolve_right hqi).same hst ?_
    rw [setOffset_other hqi]

/-- `channel_empty_this_stream` writes the offset of input buffer `i`, which the decoder does not hold. -/
theorem Books.setOffset {o : BitVec 32} {i : Nat} (h : Books s pcs ev) (hi : s.Valid (.input i))
    (ho : o < (s.buf (.input i)).bufLen)
    (huse : .input i ∈ s.rawQueue → (s.buf (.input i)).status = .inUse → o = (s.buf (.input i)).offset) :
    Books (s.setOffset (.input i) o) pcs ev := by
  have hst := setOffset_same s (.input i) o
  refine ⟨h.table.same hst, h.nodup, fun q hq => setOffset_inside hi ho (.inl (h.inside q hq)),
    fun j d hmem => setOffset_inside hi ho (.inl (h.looked j d hmem)), ?_, fun q hq => ?_, fun k => ?_, ?_, h.answers⟩
  · rw [setOffset_other (by simp)]
    exact h.last
  · rw [setOffset_status]
    exact h.off q hq
  · rw [show (s.setOffset (.input i) o).rawQueue = s.rawQueue from rfl,
      countP_same (q := usedAt s.buf k) (fun q hq => ?_)]
    · exact h.used k
    · by_cases hqi : q = .input i
      · subst hqi
        by_cases hst : (s.buf (.input i)).status = .inUse
        · rw [huse hq hst, setOffset_eq]
        · simp [usedAt, setOffset_status, hst]
      · unfold usedAt
        rw [setOffset_other hqi]
  · rw [show (s.setOffset (.input i) o).rawQueue = s.rawQueue from rfl,
      countP_same (q := inUse s.buf) (fun q _ => by unfold inUse; rw [setOffset_status])]
    exact h.count

/-- `channel_empty_this_stream` fills in `last_frame`, which is not on the list. -/
theorem Books.addLastFrame (h : Books s pcs ev) (hlast : .last ∉ s.rawQueue) : Books s.addLastFrame pcs ev := by
  have hst : SameTable s s.addLastFrame :=
    (setOffset_same s .last 0).trans (setStatus_same (s.setOffset .last 0) .last .queued)
  have hother : ∀ q, q ≠ .last → s.addLastFrame.buf q = s.buf q := by
    intro q hq
    change withStatus (s.setOffset .last 0).buf .last .queued q = s.buf q
    rw [withStatus_other .queued hq, setOffset_other hq]
  have hne : ∀ q ∈ s.rawQueue, q ≠ .last := fun q hq heq => hlast (heq ▸ hq)
  obtain ⟨hused, hcount⟩ := used_congr (fun q hq => hother q (hne q hq))
  refine ⟨h.table.same hst, h.nodup, fun q hq => ?_, fun i d hmem => ?_, ?_, fun q hq => ?_, fun k => ?_, ?_,
    h.answers⟩
  · exact (h.inside q hq).same hst (by rw [hother q (hne q hq)])
  · exact (h.looked i d hmem).same hst (by rw [hother _ (by simp)])
  · change ((((s.setOffset .last 0).setStatus .last .queued).buf .last).offset) = 0
    rw [setStatus_offset, setOffset_self]
  · by_cases hql : q = .last
    · subst hql
      have hself : (s.addLastFrame.buf .last).status = .queued := withStatus_self _ _ _
      rw [hself]
      exact BufState.noConfusion
    · rw [hother q hql]
      exact h.off q hq
  · change s.held.count k + _ = s.rawQueue.countP (usedAt s.addLastFrame.buf k)
    rw [hused k]
    exact h.used k
  · change s.rawUseCnt = s.rawQueue.countP (inUse s.addLastFrame.buf)
    rw [hcount]
    exact h.count

/-! ## Sections under the lock -/

/-- An entry comes, which nobody holds. -/
theorem Books.addTail (h : Books s pcs ev) (hr : r ∉ s.rawQueue) (hin : s.Inside r) :
    Books (s.listAddTail r) pcs (ev ++ [.accept r]) := by
  have hst : SameTable s (s.listAddTail r) := ⟨rfl, fun _ => rfl, fun _ => rfl⟩
  have hun := h.off r hr
  refine ⟨h.table.same hst, ?_, fun q hq => ?_, fun i d hmem => (h.looked i d hmem).same hst rfl, h.last,
    fun q hq => ?_, fun k => ?_, ?_, fun i => ?_⟩
  · exact List.nodup_append.mpr ⟨h.nodup, List.nodup_singleton r,
      fun q hq p hp heq => hr (List.mem_singleton.mp hp ▸ heq ▸ hq)⟩
  · rcases List.mem_append.mp hq with hq | hq
    · exact (h.inside q hq).same hst rfl
    · rw [List.mem_singleton.mp hq]
      exact hin.same hst rfl
  · exact h.off q (fun hmem => hq (List.mem_append_left _ hmem))
  · have hlast : usedAt s.buf k r = false := by simp [usedAt, hun]
    change _ = (s.rawQueue ++ [r]).countP (usedAt s.buf k)
    rw [List.countP_append, List.countP_singleton, hlast]
    exact h.used k
  · have hlast : inUse s.buf r = false := by simp [inUse, hun]
    change _ = (s.rawQueue ++ [r]).countP (inUse s.buf)
    rw [List.countP_append, List.countP_singleton, hlast]
    exact h.count
  · have hold := h.answers i
    have hans : answered i [.accept r] = 0 := by simp [answered]
    have hacc : accepted i [.accept r] = [r].count (.input i) := by
      by_cases hri : r = .input i <;> simp [accepted, hri]
    change _ = _ + (s.rawQueue ++ [r]).count (.input i)
    rw [accepted_append, answered_append, hacc, hans, List.count_append]
    omega

/-- The status of an entry that is not on the list. -/
theorem Books.setQueued (h : Books s pcs ev) (hr : r ∉ s.rawQueue) : Books (s.setStatus r .queued) pcs ev := by
  have hst := setStatus_same s r .queued
  have hne : ∀ q ∈ s.rawQueue, q ≠ r := fun q hq heq => hr (heq ▸ hq)
  have hother : ∀ q ∈ s.rawQueue, (s.setStatus r .queued).buf q = s.buf q :=
    fun q hq => withStatus_other .queued (hne q hq)
  obtain ⟨hused, hcount⟩ := used_congr hother
  refine ⟨h.table.same hst, h.nodup, fun q hq => (h.inside q hq).same hst (setStatus_offset s r .queued q),
    fun i d hmem => (h.looked i d hmem).same hst (setStatus_offset s r .queued _),
    (setStatus_offset s r .queued .last).trans h.last, fun q hq => ?_, fun k => ?_, ?_, h.answers⟩
  · by_cases hqr : q = r
    · subst hqr
      have hself : ((s.setStatus q .queued).buf q).status = .queued := withStatus_self _ _ _
      rw [hself]
      exact BufState.noConfusion
    · have hoth : (s.setStatus r .queued).buf q = s.buf q := withStatus_other .queued hqr
      rw [hoth]
      exact h.off q hq
  · change s.held.count k + _ = s.rawQueue.countP (usedAt (s.setStatus r .queued).buf k)
    rw [hused k]
    exact h.used k
  · change s.rawUseCnt = s.rawQueue.countP (inUse (s.setStatus r .queued).buf)
    rw [hcount]
    exact h.count

/-- `decoder_get_stream` takes an entry. -/
theorem Books.take (h : Books s pcs ev) (hr : r ∈ s.rawQueue) (huse : (s.buf r).status ≠ .inUse) :
    Books { s.setStatus r .inUse with
      rawUseCnt := s.rawUseCnt + 1
      held := (s.buf r).addr :: s.held } pcs ev := by
  have hst := setStatus_same s r .inUse
  have hused := used_withStatus s.buf h.nodup hr .inUse
  have hcount := inUse_withStatus s.buf h.nodup hr .inUse
  simp only [huse, and_false, and_true, decide_false, decide_true, Bool.toNat_false, Bool.toNat_true, Nat.add_zero]
    at hused hcount
  refine ⟨(h.table.same hst).same ⟨rfl, fun _ => rfl, fun _ => rfl⟩, h.nodup, fun q hq => ?_, fun i d hmem => ?_,
    (setStatus_offset s r .inUse .last).trans h.last, fun q hq => ?_, fun k => ?_, ?_, h.answers⟩
  · have hin := (h.inside q hq).same hst (setStatus_offset s r .inUse q)
    exact ⟨hin.valid, hin.lt⟩
  · have hin := (h.looked i d hmem).same hst (setStatus_offset s r .inUse _)
    exact ⟨hin.valid, hin.lt⟩
  · have hqr : q ≠ r := fun heq => hq (heq ▸ hr)
    have hoth : (s.setStatus r .inUse).buf q = s.buf q := withStatus_other .inUse hqr
    change ((s.setStatus r .inUse).buf q).status ≠ .inUse
    rw [hoth]
    exact h.off q hq
  · have hold := h.used k
    change ((s.buf r).addr :: s.held).count k + _ = s.rawQueue.countP (usedAt (withStatus s.buf r .inUse) k)
    rw [hused k, List.count_cons]
    by_cases heq : (s.buf r).addr = k
    · simp [heq]
      omega
    · simp [heq]
      omega
  · have hold := h.count
    change s.rawUseCnt + 1 = s.rawQueue.countP (inUse (withStatus s.buf r .inUse))
    omega

/-! ## Release and flush -/

/-- The entry at an address that the decoder gives back. -/
theorem Books.find (h : Books s (.release k :: pcs) ev) :
    ∃ r ∈ s.rawQueue, s.rawQueue.find? (fun r => k = (s.buf r).addr) = some r ∧ (s.buf r).addr = k ∧
      (s.buf r).status = .inUse := by
  have hk := h.used k
  rw [countP_cons_toNat] at hk
  simp only [Pc.seeks, decide_true, Bool.toNat_true] at hk
  have hpos : 0 < s.rawQueue.countP (usedAt s.buf k) := by omega
  obtain ⟨r, hr, hused⟩ := List.countP_pos_iff.mp hpos
  obtain ⟨haddr, hst⟩ := of_decide_eq_true hused
  refine ⟨r, hr, ?_, haddr, hst⟩
  have hsome : (s.rawQueue.find? (fun r => k = (s.buf r).addr)).isSome := by
    rw [List.find?_isSome]
    exact ⟨r, hr, by simp [haddr]⟩
  obtain ⟨q, hq⟩ := Option.isSome_iff_exists.mp hsome
  have hmem := List.mem_of_find?_eq_some hq
  have hkey : k = (s.buf q).addr := by simpa using List.find?_some hq
  rw [hq, addr_inj h.table (h.inside q hmem) (h.inside r hr) (hkey.symm.trans haddr.symm)]

/-- No entry came, and no flush. -/
theorem sinceFlush_quiet (hflush : .flush ∉ fs) (hacc : ∀ r, .accept r ∉ fs) :
    sinceFlush (ev ++ fs) = sinceFlush ev := by
  induction fs generalizing ev with
  | nil => rw [List.append_nil]
  | cons e fs ih =>
    rw [List.append_cons, ih (fun hmem => hflush (List.mem_cons_of_mem _ hmem))
      (fun r hmem => hacc r (List.mem_cons_of_mem _ hmem)), sinceFlush_append]
    cases e with
    | accept r => exact absurd List.mem_cons_self (hacc r)
    | inputDone st i => rfl
    | flush => exact absurd List.mem_cons_self hflush
    | flushInputDone => rfl

theorem answer_quiet (s : Chan) (r : Raw) :
    .flush ∉ (s.answer r).2 ∧ (∀ q, .accept q ∉ (s.answer r).2) ∧ .flushInputDone ∉ (s.answer r).2 ∧
      (s.answer r).1.rawQueue = s.rawQueue ∧ (s.answer r).1.buf = s.buf ∧
      (s.answer r).1.rawUseCnt = s.rawUseCnt ∧ (s.answer r).1.inputFlushPending = s.inputFlushPending := by
  cases r <;> simp [Chan.answer]

/-- Where `VDEC_MSG_RESP_FLUSH_INPUT_DONE` is posted, what is on the list came since the flush. -/
def Clean (t : Chan) (ev fs : List Event) : Prop :=
  .flushInputDone ∈ fs → ∀ r ∈ t.rawQueue, r ∈ sinceFlush (ev ++ fs)

theorem Ledger.release (h : Ledger s (.release k :: pcs) ev) :
    Ledger (s.releaseStream k).1 pcs (ev ++ (s.releaseStream k).2) ∧
      Clean (s.releaseStream k).1 ev (s.releaseStream k).2 := by
  obtain ⟨r, hr, hfind, haddr, hst⟩ := h.books.find
  have hbooks := h.books.remove pcs hr (fun i d hmem => List.mem_cons_of_mem _ hmem)
    (fun j => by rw [countP_cons_toNat, haddr, hst]; simp [Pc.seeks])
  rw [hst] at hbooks
  simp only [decide_true, Bool.toNat_true] at hbooks
  obtain ⟨hflush, hacc, hdone, hqueue, hbuf, hcnt, hpend⟩ := answer_quiet (s.drop r) r
  -- what is left on the list
  have hrest : ∀ q ∈ ((s.drop r).answer r).1.rawQueue,
      q ∈ s.rawQueue ∧ ((s.drop r).answer r).1.buf q = s.buf q := by
    intro q hq
    rw [hqueue] at hq
    obtain ⟨hne, hmem⟩ := h.books.nodup.mem_erase_iff.mp hq
    rw [hbuf]
    exact ⟨hmem, drop_other hne⟩
  have hsince : s.inputFlushPending = true → ∀ q ∈ ((s.drop r).answer r).1.rawQueue,
      (((s.drop r).answer r).1.buf q).status ≠ .inUse → q ∈ sinceFlush (ev ++ ((s.drop r).answer r).2) := by
    intro hp q hq hun
    obtain ⟨hmem, hbq⟩ := hrest q hq
    rw [hbq] at hun
    rw [sinceFlush_quiet hflush hacc]
    exact h.flushing.since hp q hmem hun
  unfold Chan.releaseStream
  rw [hfind]
  change Ledger ((s.drop r).answer r).1.endRelease.1 pcs
      (ev ++ (((s.drop r).answer r).2 ++ ((s.drop r).answer r).1.endRelease.2)) ∧
    Clean ((s.drop r).answer r).1.endRelease.1 ev
      (((s.drop r).answer r).2 ++ ((s.drop r).answer r).1.endRelease.2)
  unfold Chan.endRelease
  rw [hcnt, hpend, show (s.drop r).rawUseCnt = s.rawUseCnt from rfl,
    show (s.drop r).inputFlushPending = s.inputFlushPending from rfl]
  by_cases hlast : s.inputFlushPending = true ∧ s.rawUseCnt - 1 = 0
  · rw [if_pos hlast, ← List.append_assoc]
    refine ⟨⟨(hbooks.silent (fun _ => rfl) (fun _ => rfl)).congr rfl rfl rfl rfl rfl, ?_, ?_⟩, ?_⟩
    · exact fun hp => by cases hp
    · exact fun hp => by cases hp
    · -- nothing is in use any more
      intro _ q hq
      have hzero := hbooks.count
      rw [hlast.2, eq_comm, List.countP_eq_zero] at hzero
      have hun : (((s.drop r).answer r).1.buf q).status ≠ .inUse := by simpa [inUse] using hzero q hq
      have hmem := hsince hlast.1 q hq hun
      rw [← List.append_assoc, sinceFlush_quiet (by simp) (by simp)]
      exact hmem
  · rw [if_neg hlast, List.append_nil]
    refine ⟨⟨hbooks.congr rfl rfl rfl rfl rfl, ?_, ?_⟩, fun hmem => absurd hmem hdone⟩
    · intro hp
      change 0 < s.rawUseCnt - 1
      have hp' : s.inputFlushPending = true := hpend ▸ hp
      exact Nat.pos_of_ne_zero (fun heq => hlast ⟨hp', heq⟩)
    · intro hp
      exact hsince (hpend ▸ hp)

/-- What the loop of a flush leaves. -/
structure Flushed (s t : Chan) (rs : List Raw) (fs : List Event) : Prop where
  count : t.rawUseCnt = s.rawUseCnt
  pending : t.inputFlushPending = s.inputFlushPending
  done : .flushInputDone ∉ fs
  rest : ∀ q ∈ t.rawQueue, q ∈ s.rawQueue ∧ t.buf q = s.buf q ∧ (q ∈ rs → (s.buf q).status = .inUse)

theorem Books.flushLoop {rs : List Raw} (h : Books s pcs ev) (hsub : ∀ r ∈ rs, r ∈ s.rawQueue) (hnd : rs.Nodup) :
    Books (s.flushLoop rs).1 pcs (ev ++ (s.flushLoop rs).2) ∧
      Flushed s (s.flushLoop rs).1 rs (s.flushLoop rs).2 := by
  induction rs generalizing s ev with
  | nil =>
    refine ⟨by simpa [Chan.flushLoop] using h, rfl, rfl, List.not_mem_nil, fun q hq => ⟨hq, rfl, fun hmem => ?_⟩⟩
    exact absurd hmem List.not_mem_nil
  | cons r rs ih =>
    obtain ⟨hr, hnd⟩ := List.nodup_cons.mp hnd
    have hrq := hsub r List.mem_cons_self
    have hsub' : ∀ q ∈ rs, q ∈ s.rawQueue := fun q hq => hsub q (List.mem_cons_of_mem _ hq)
    unfold Chan.flushLoop
    by_cases huse : (s.buf r).status = .inUse
    · rw [if_pos huse]
      obtain ⟨hbooks, hflushed⟩ := ih h hsub' hnd
      refine ⟨hbooks, hflushed.count, hflushed.pending, hflushed.done, fun q hq => ?_⟩
      obtain ⟨hmem, hbq, hin⟩ := hflushed.rest q hq
      refine ⟨hmem, hbq, fun hqr => ?_⟩
      rcases List.mem_cons.mp hqr with rfl | hqr
      · exact huse
      · exact hin hqr
    · rw [if_neg huse]
      obtain ⟨hflush, hacc, hdone, hqueue, hbuf, hcnt, hpend⟩ := answer_quiet (s.drop r) r
      have hremove := h.remove pcs hrq (fun i d hmem => hmem) (fun j => by simp [huse])
      simp only [huse, decide_false, Bool.toNat_false, Nat.sub_zero] at hremove
      have hbooks₁ : Books ((s.drop r).answer r).1 pcs (ev ++ ((s.drop r).answer r).2) :=
        hremove.congr rfl rfl rfl hcnt rfl
      have hmem_iff : ∀ q, q ∈ ((s.drop r).answer r).1.rawQueue ↔ q ≠ r ∧ q ∈ s.rawQueue := by
        intro q
        rw [hqueue]
        exact h.nodup.mem_erase_iff
      obtain ⟨hbooks, hflushed⟩ := ih hbooks₁
        (fun q hq => (hmem_iff q).mpr ⟨fun heq => hr (heq ▸ hq), hsub' q hq⟩) hnd
      refine ⟨?_, hflushed.count.trans hcnt, hflushed.pending.trans hpend, ?_, fun q hq => ?_⟩
      · rw [List.append_assoc] at hbooks
        exact hbooks
      · intro hmem
        rcases List.mem_append.mp hmem with hmem | hmem
        · exact hdone hmem
        · exact hflushed.done hmem
      · obtain ⟨hmem, hbq, hin⟩ := hflushed.rest q hq
        obtain ⟨hne, hmem'⟩ := (hmem_iff q).mp hmem
        have hsame : ((s.drop r).answer r).1.buf q = s.buf q := by
          rw [hbuf]
          exact drop_other hne
        refine ⟨hmem', hbq.trans hsame, fun hqr => ?_⟩
        rw [← hsame]
        exact hin ((List.mem_cons.mp hqr).resolve_left hne)

theorem Ledger.flush (h : Ledger s pcs ev) :
    Ledger s.flushInPort.1 pcs (ev ++ s.flushInPort.2) ∧ Clean s.flushInPort.1 ev s.flushInPort.2 := by
  have hstart : Books s pcs (ev ++ [.flush]) := h.books.silent (fun _ => rfl) (fun _ => rfl)
  obtain ⟨hbooks, hflushed⟩ := hstart.flushLoop (fun r hr => hr) h.books.nodup
  rw [List.append_assoc, List.singleton_append] at hbooks
  -- what is left is in use
  have hleft : ∀ q ∈ (s.flushLoop s.rawQueue).1.rawQueue,
      ((s.flushLoop s.rawQueue).1.buf q).status = .inUse := by
    intro q hq
    obtain ⟨hmem, hbq, hin⟩ := hflushed.rest q hq
    rw [hbq]
    exact hin hmem
  unfold Chan.flushInPort
  dsimp only
  split
  · rename_i hpos
    refine ⟨⟨hbooks.congr rfl rfl rfl rfl rfl, fun _ => hpos, fun _ q hq hun => absurd (hleft q hq) hun⟩,
      fun hmem => ?_⟩
    rcases List.mem_cons.mp hmem with hmem | hmem
    · cases hmem
    · exact absurd hmem hflushed.done
  · rename_i hzero
    have hnone : ∀ q, q ∉ (s.flushLoop s.rawQueue).1.rawQueue := by
      intro q hq
      have hcount := hbooks.count
      have hpos : 0 < (s.flushLoop s.rawQueue).1.rawQueue.countP (inUse (s.flushLoop s.rawQueue).1.buf) :=
        List.countP_pos_iff.mpr ⟨q, hq, by simp [inUse, hleft q hq]⟩
      omega
    rw [← List.append_assoc]
    refine ⟨⟨hbooks.silent (fun _ => rfl) (fun _ => rfl), ?_, fun _ q hq => absurd hq (hnone q)⟩,
      fun _ q hq => absurd hq (hnone q)⟩
    intro hp
    have hwait := h.flushing.waits (hflushed.pending ▸ hp)
    rw [hflushed.count] at hzero
    exact absurd hwait hzero

/-! ## Parts, calls, runs -/

/-- The list and the flush are as before. -/
theorem Flushing.same (h : Flushing s ev) (hp : t.inputFlushPending = s.inputFlushPending)
    (hc : t.rawUseCnt = s.rawUseCnt) (hq : t.rawQueue = s.rawQueue)
    (hst : ∀ r ∈ s.rawQueue, (t.buf r).status = (s.buf r).status) (hflush : .flush ∉ fs)
    (hacc : ∀ r, .accept r ∉ fs) : Flushing t (ev ++ fs) := by
  refine ⟨fun hpt => ?_, fun hpt r hr hun => ?_⟩
  · rw [hc]
    exact h.waits (hp ▸ hpt)
  · rw [hq] at hr
    rw [hst r hr] at hun
    rw [sinceFlush_quiet hflush hacc]
    exact h.since (hp ▸ hpt) r hr hun

/-- An entry comes. -/
theorem Flushing.addTail (h : Flushing s ev) : Flushing (s.listAddTail r) (ev ++ [.accept r]) := by
  refine ⟨h.waits, fun hp q hq hun => ?_⟩
  rw [sinceFlush_append]
  rcases List.mem_append.mp hq with hq | hq
  · exact List.mem_cons_of_mem _ (h.since hp q hq hun)
  · exact List.mem_singleton.mp hq ▸ List.mem_cons_self

/-- What a part of a call leaves behind. -/
def Keeps (pcs : List Pc) (ev : List Event) (r : Option (Chan × List Pc × List Event)) : Prop :=
  ∃ t new fs, r = some (t, new, fs) ∧ Ledger t (new ++ pcs) (ev ++ fs) ∧ Clean t ev fs

/-- A part that leaves the list as it is. -/
theorem Ledger.quiet (h : Ledger s (pc :: pcs) ev)
    (hbooks : Books t (pc :: pcs) ev) (hp : t.inputFlushPending = s.inputFlushPending)
    (hc : t.rawUseCnt = s.rawUseCnt) (hq : t.rawQueue = s.rawQueue)
    (hst : ∀ r ∈ s.rawQueue, (t.buf r).status = (s.buf r).status) (hpc : ∀ k, pc.seeks k = false)
    (hnew : ∀ k, new.countP (Pc.seeks k) = 0) (hlook : ∀ i d, .emptyInsert i d ∈ new → t.Inside (.input i))
    (hfs : fs = [] ∨ ∃ status, fs = [.inputDone status none]) : Keeps pcs ev (some (t, new, fs)) := by
  have hall : (∀ i, accepted i fs = 0) ∧ (∀ i, answered i fs = 0) ∧ .flush ∉ fs ∧ (∀ r, .accept r ∉ fs) ∧
      .flushInputDone ∉ fs := by
    rcases hfs with rfl | ⟨status, rfl⟩
    · exact ⟨fun _ => rfl, fun _ => rfl, List.not_mem_nil, fun _ => List.not_mem_nil, List.not_mem_nil⟩
    · simp [accepted, answered]
  obtain ⟨hacc, hans, hflush, haccept, hdone⟩ := hall
  exact ⟨t, new, fs, rfl, ⟨(hbooks.swap hpc hnew hlook).silent hacc hans,
    h.flushing.same hp hc hq hst hflush haccept⟩, fun hmem => absurd hmem hdone⟩

theorem emptyAnswer_cases (d : StreamDesc) : emptyAnswer d = [] ∨
    ∃ status, emptyAnswer d = [.inputDone status none] := by
  unfold emptyAnswer
  split
  · exact .inr ⟨_, rfl⟩
  · exact .inl rfl

theorem notMem_of_inRawList (h : s.inRawList i = false) : .input i ∉ s.rawQueue := by
  intro hmem
  have hany : s.inRawList i = true := List.any_eq_true.mpr ⟨_, hmem, by simp⟩
  rw [hany] at h
  cases h

theorem lookup_valid {phyaddr : BitVec 32} (h : s.lookupAddrTable phyaddr = some i) : s.Valid (.input i) :=
  List.mem_range.mp (List.mem_of_find?_eq_some h)

theorem Ledger.emptyLookup (h : Ledger s (.emptyLookup d :: pcs) ev)
    (hw : Within s (.emptyLookup d)) (hq : Quiet s (.emptyLookup d)) :
    Keeps pcs ev (nextPart s (.emptyLookup d)) := by
  rw [nextPart]
  split
  · rename_i hlen
    cases hlookup : s.lookupAddrTable d.phyaddr with
    | none =>
      exact h.quiet h.books rfl rfl rfl (fun _ _ => rfl) (fun _ => rfl) (fun _ => rfl) (by simp)
        (.inr ⟨_, rfl⟩)
    | some i =>
      have hvalid := lookup_valid hlookup
      have ho := hw i hlookup hlen
      have hbooks := h.books.setOffset hvalid ho (hq i hlookup hlen)
      refine h.quiet hbooks rfl rfl rfl (fun r _ => setOffset_status s _ _ r) (fun _ => rfl) (fun _ => rfl)
        (fun j e hmem => ?_) (.inl rfl)
      cases List.mem_singleton.mp hmem
      exact setOffset_inside hvalid ho (.inr rfl)
  · exact h.quiet h.books rfl rfl rfl (fun _ _ => rfl) (fun _ => rfl) (fun _ => rfl) (by simp) (.inl rfl)

theorem Ledger.emptyInsert (h : Ledger s (.emptyInsert i d :: pcs) ev) :
    Keeps pcs ev (nextPart s (.emptyInsert i d)) := by
  rw [nextPart]
  split
  · exact h.quiet h.books rfl rfl rfl (fun _ _ => rfl) (fun _ => rfl) (fun _ => rfl) (by simp) (.inl rfl)
  · rename_i hin
    have hnot := notMem_of_inRawList (Bool.eq_false_iff.mpr hin)
    have hne : ∀ q ∈ s.rawQueue, q ≠ .input i := fun q hq heq => hnot (heq ▸ hq)
    have hbooks := h.books.setQueued hnot
    have hin' := hbooks.looked i d List.mem_cons_self
    have hflushing : Flushing (s.setStatus (.input i) .queued) (ev ++ []) := by
      refine h.flushing.same rfl rfl rfl (fun r hr => ?_) List.not_mem_nil (fun _ => List.not_mem_nil)
      have hoth : (s.setStatus (.input i) .queued).buf r = s.buf r := withStatus_other .queued (hne r hr)
      rw [hoth]
    rw [List.append_nil] at hflushing
    refine ⟨_, _, _, rfl, ⟨(hbooks.addTail hnot hin').swap (fun _ => rfl) (fun _ => rfl) (by simp),
      hflushing.addTail⟩, fun hmem => ?_⟩
    cases List.mem_singleton.mp hmem

theorem Ledger.emptyEos (h : Ledger s (.emptyEos d :: pcs) ev) (hq : Quiet s (.emptyEos d)) :
    Keeps pcs ev (nextPart s (.emptyEos d)) := by
  rw [nextPart]
  split
  · rename_i heos
    have hlast := hq heos.1 heos.2
    refine h.quiet (h.books.addLastFrame hlast) rfl rfl rfl (fun r hr => ?_) (fun _ => rfl) (fun _ => rfl)
      (by simp) (.inl rfl)
    have hne : r ≠ .last := fun heq => hlast (heq ▸ hr)
    have hoth : s.addLastFrame.buf r = (s.setOffset .last 0).buf r := withStatus_other .queued hne
    rw [hoth, setOffset_status]
  · exact h.quiet h.books rfl rfl rfl (fun _ _ => rfl) (fun _ => rfl) (fun _ => rfl) (by simp)
      (emptyAnswer_cases d)

theorem Ledger.emptyLast (h : Ledger s (.emptyLast d :: pcs) ev) (hlast : .last ∉ s.rawQueue) :
    Keeps pcs ev (nextPart s (.emptyLast d)) := by
  have hin : s.Inside .last := by
    refine ⟨trivial, ?_⟩
    rw [h.books.last]
    exact h.books.table.last
  rw [nextPart, if_neg hlast]
  refine ⟨_, _, _, rfl, ⟨(h.books.addTail hlast hin).swap (fun _ => rfl) (fun _ => rfl) (by simp),
    h.flushing.addTail⟩, fun hmem => ?_⟩
  cases List.mem_singleton.mp hmem

theorem Ledger.getList (h : Ledger s (.getList :: pcs) ev) : Keeps pcs ev (nextPart s .getList) := by
  have hbooks : Books s ([] ++ pcs) ev := h.books.swap (fun _ => rfl) (fun _ => rfl) (by simp)
  refine ⟨s.getStream, [], [], rfl, ?_, fun hmem => absurd hmem List.not_mem_nil⟩
  rw [List.append_nil]
  unfold Chan.getStream
  split
  · exact ⟨hbooks, h.flushing⟩
  · rename_i hp
    cases hfree : s.freeStream with
    | none => exact ⟨hbooks, h.flushing⟩
    | some r =>
      have hr := List.mem_of_find?_eq_some hfree
      have huse : (s.buf r).status ≠ .inUse := by simpa using List.find?_some hfree
      exact ⟨hbooks.take hr huse, fun hpt => absurd hpt hp, fun hpt => absurd hpt hp⟩

/-- **One part** of a call runs, and keeps the invariant. -/
theorem Ledger.next (h : Ledger s (pc :: pcs) ev) (hw : Within s pc) (hq : Quiet s pc) :
    Keeps pcs ev (nextPart s pc) := by
  cases pc with
  | emptyLookup d => exact h.emptyLookup hw hq
  | emptyInsert i d => exact h.emptyInsert
  | emptyReject =>
    exact h.quiet h.books rfl rfl rfl (fun _ _ => rfl) (fun _ => rfl) (fun _ => rfl) (by simp) (.inr ⟨_, rfl⟩)
  | emptyEos d => exact h.emptyEos hq
  | emptyLast d => exact h.emptyLast hq
  | emptySetEos d =>
    exact h.quiet (h.books.congr rfl rfl rfl rfl rfl) rfl rfl rfl (fun _ _ => rfl) (fun _ => rfl)
      (fun _ => rfl) (by simp) (emptyAnswer_cases d)
  | getState =>
    rw [nextPart]
    split
    · exact h.quiet h.books rfl rfl rfl (fun _ _ => rfl) (fun _ => rfl) (fun _ => rfl) (by simp) (.inl rfl)
    · exact h.quiet h.books rfl rfl rfl (fun _ _ => rfl) (fun _ => rfl) (fun _ => rfl) (by simp) (.inl rfl)
  | getList => exact h.getList
  | release k => exact ⟨_, [], _, rfl, h.release⟩
  | flush =>
    have hbooks : Books s ([] ++ pcs) ev := h.books.swap (fun _ => rfl) (fun _ => rfl) (by simp)
    exact ⟨_, [], _, rfl, Ledger.flush ⟨hbooks, h.flushing⟩⟩

/-- **A call** that begins keeps the invariant. -/
theorem Ledger.start {c : Call} (h : Ledger s pcs ev)
    (hstart : startCall s c = some (t, new, fs)) : Ledger t (new ++ pcs) (ev ++ fs) ∧ fs = [] := by
  -- a call that only begins is like a part of a call that looks for nothing
  have hbooks : Books s (.emptyReject :: pcs) ev :=
    ⟨h.books.table, h.books.nodup, h.books.inside, fun i d hmem => h.books.looked i d (by simpa using hmem),
      h.books.last, h.books.off, h.books.used, h.books.count, h.books.answers⟩
  cases c with
  | emptyThisStream d =>
    cases hstart
    rw [List.append_nil]
    exact ⟨⟨hbooks.swap (fun _ => rfl) (fun _ => rfl) (by simp), h.flushing⟩, rfl⟩
  | getStream =>
    cases hstart
    rw [List.append_nil]
    exact ⟨⟨hbooks.swap (fun _ => rfl) (fun _ => rfl) (by simp), h.flushing⟩, rfl⟩
  | releaseStream k =>
    obtain ⟨held, hgive, heq⟩ := Option.map_eq_some_iff.mp hstart
    obtain ⟨hk, rfl⟩ := giveBack_eq_some hgive
    cases heq
    rw [List.append_nil]
    refine ⟨⟨⟨h.books.table.same ⟨rfl, fun _ => rfl, fun _ => rfl⟩, h.books.nodup, fun r hr => ?_,
      fun i d hmem => ?_, h.books.last, h.books.off, fun j => ?_, h.books.count, h.books.answers⟩,
      h.flushing.waits, h.flushing.since⟩, rfl⟩
    · exact ⟨(h.books.inside r hr).valid, (h.books.inside r hr).lt⟩
    · have hin := h.books.looked i d (by simpa using hmem)
      exact ⟨hin.valid, hin.lt⟩
    · have hold := h.books.used j
      have herase := count_erase_add hk j
      rw [List.singleton_append, countP_cons_toNat]
      simp only [Pc.seeks]
      omega
  | flushInPort =>
    cases hstart
    rw [List.append_nil]
    exact ⟨⟨hbooks.swap (fun _ => rfl) (fun _ => rfl) (by simp), h.flushing⟩, rfl⟩
  | setState state =>
    cases hstart
    rw [List.append_nil]
    exact ⟨⟨h.books.congr rfl rfl rfl rfl rfl, h.flushing.waits, h.flushing.since⟩, rfl⟩

variable {state : Channel.ChanState} {num : Nat} {phyAddr bufLen : Raw → BitVec 32} {acts : List (Act Call)}
  {σ : Threads Chan Pc}

theorem init_ledger (h : Table (Chan.init state num phyAddr bufLen)) :
    Ledger (Chan.init state num phyAddr bufLen) [] [] := by
  refine ⟨⟨h, List.nodup_nil, ?_, ?_, rfl, ?_, fun _ => rfl, rfl, fun _ => rfl⟩, ?_, ?_⟩
  · exact fun r hr => absurd hr List.not_mem_nil
  · exact fun i d hmem => absurd hmem List.not_mem_nil
  · exact fun r _ => BufState.noConfusion
  · exact fun hp => by cases hp
  · exact fun hp => by cases hp

/-- The condition on the parts of a run. -/
def Steady (s : Chan) (pc : Pc) : Prop := Within s pc ∧ Quiet s pc

theorem run_ledger (htable : Table (Chan.init state num phyAddr bufLen))
    (hrun : Run stream.step (Machine.cond anyCall Steady) ⟨Chan.init state num phyAddr bufLen, []⟩ acts σ ev) :
    Ledger σ.shared σ.pcs ev := by
  refine Machine.run_inv Ledger (fun hp h => h.perm hp) (init_ledger htable) ?_ ?_ hrun
  · exact fun s pcs ev c t new fs h _ hstart => (h.start hstart).1
  · intro s pc pcs ev t new fs h hq hnext
    obtain ⟨t', new', fs', heq, hkeep, -⟩ := h.next hq.1 hq.2
    change nextPart s pc = some (t, new, fs) at hnext
    rw [hnext] at heq
    cases heq
    exact hkeep

/-- One more step: it runs, and posts the end of a flush only over a clean list. -/
theorem Ledger.step {a : Act Call} {τ : Threads Chan Pc} (h : Ledger σ.shared σ.pcs ev)
    (hcond : Machine.cond anyCall Steady σ a) (hstep : stream.step σ a = some (τ, fs)) :
    Clean τ.shared ev fs := by
  cases a with
  | call c =>
    obtain ⟨⟨t, new, gs⟩, ht, heq⟩ := Option.map_eq_some_iff.mp hstep
    obtain ⟨-, hnil⟩ := h.start ht
    cases heq
    rw [hnil]
    exact fun hmem => absurd hmem List.not_mem_nil
  | sched n =>
    obtain ⟨pc, hpc, hrest⟩ := Option.bind_eq_some_iff.mp hstep
    obtain ⟨⟨t, new, gs⟩, ht, heq⟩ := Option.map_eq_some_iff.mp hrest
    have hpcs := h.perm (Machine.perm_of_getElem? hpc).symm
    obtain ⟨t', new', gs', heq', -, hclean⟩ := hpcs.next (hcond pc hpc).1 (hcond pc hpc).2
    change nextPart σ.shared pc = some (t, new, gs) at ht
    rw [ht] at heq'
    cases heq'
    cases heq
    exact hclean

/-- **Every accepted input buffer is answered once, and flushes end clean.** In every run of interleaved calls
    over disjoint buffers, with data that begins inside them, that meets `Quiet`:
    the counter is the number of entries in use;
    an input buffer was accepted as often as it was answered, and once more while it is on the list;
    a stream that the decoder holds is on the list at its address, in use;
    whenever the end of a flush is posted, what is on the list came after that flush;
    and no call gets stuck. -/
theorem run_streams (htable : Table (Chan.init state num phyAddr bufLen))
    (hrun : Run stream.step (Machine.cond anyCall Steady) ⟨Chan.init state num phyAddr bufLen, []⟩ acts σ ev) :
    σ.shared.rawUseCnt = σ.shared.rawQueue.countP (inUse σ.shared.buf) ∧
    (∀ i, accepted i ev = answered i ev + if .input i ∈ σ.shared.rawQueue then 1 else 0) ∧
    (∀ k ∈ σ.shared.held, ∃ r ∈ σ.shared.rawQueue,
      (σ.shared.buf r).addr = k ∧ (σ.shared.buf r).status = .inUse) ∧
    (∀ a τ fs, Machine.cond anyCall Steady σ a → stream.step σ a = some (τ, fs) → .flushInputDone ∈ fs →
      ∀ r ∈ τ.shared.rawQueue, r ∈ sinceFlush (ev ++ fs)) ∧
    ∀ n < σ.pcs.length, Machine.cond anyCall Steady σ (.sched n) →
      ∃ τ fs, stream.step σ (.sched n) = some (τ, fs) := by
  have h := run_ledger htable hrun
  refine ⟨h.books.count, fun i => ?_, fun k hk => ?_, fun a τ fs hcond hstep => h.step hcond hstep,
    fun n hn hcond => ?_⟩
  · rw [← h.books.nodup.count]
    exact h.books.answers i
  · have hpos : 0 < σ.shared.rawQueue.countP (usedAt σ.shared.buf k) := by
      have hused := h.books.used k
      have hcount := List.count_pos_iff.mpr hk
      omega
    obtain ⟨r, hr, hused⟩ := List.countP_pos_iff.mp hpos
    exact ⟨r, hr, of_decide_eq_true hused⟩
  · have hpc : σ.pcs[n]? = some σ.pcs[n] := List.getElem?_eq_getElem hn
    have hpcs := h.perm (Machine.perm_of_getElem? hpc).symm
    obtain ⟨t, new, fs, heq, -⟩ := hpcs.next (hcond _ hpc).1 (hcond _ hpc).2
    refine ⟨⟨t, new ++ σ.pcs.eraseIdx n⟩, fs, ?_⟩
    rw [Machine.step, hpc, Option.bind_some, show stream.next = nextPart from rfl, heq, Option.map_some]

instance (s : Chan) : (pc : Pc) → Decidable (Within s pc)
  | .emptyLookup d => inferInstanceAs (Decidable (∀ i ∈ s.lookupAddrTable d.phyaddr, d.dataLen ≠ 0 → _))
  | .emptyInsert .. => isTrue trivial
  | .emptyReject => isTrue trivial
  | .emptyEos _ => isTrue trivial
  | .emptyLast _ => isTrue trivial
  | .emptySetEos _ => isTrue trivial
  | .getState => isTrue trivial
  | .getList => isTrue trivial
  | .release _ => isTrue trivial
  | .flush => isTrue trivial

instance (s : Chan) : (pc : Pc) → Decidable (Quiet s pc)
  | .emptyLookup d => inferInstanceAs (Decidable (∀ i ∈ s.lookupAddrTable d.phyaddr, d.dataLen ≠ 0 →
      .input i ∈ s.rawQueue → (s.buf (.input i)).status = .inUse →
      d.dataOffset = (s.buf (.input i)).offset))
  | .emptyEos d => inferInstanceAs (Decidable (d.eos = true → s.eosInList = false → .last ∉ s.rawQueue))
  | .emptyLast _ => inferInstanceAs (Decidable (.last ∉ s.rawQueue))
  | .emptyInsert .. => isTrue trivial
  | .emptyReject => isTrue trivial
  | .emptySetEos _ => isTrue trivial
  | .getState => isTrue trivial
  | .getList => isTrue trivial
  | .release _ => isTrue trivial
  | .flush => isTrue trivial

instance (s : Chan) (pc : Pc) : Decidable (Steady s pc) := inferInstanceAs (Decidable (_ ∧ _))

instance (s : Chan) (c : Call) : Decidable (anyCall s c) := isTrue trivial

/-- A working channel with one input buffer. -/
def oneBuf : Chan :=
  Chan.init .work 1 (fun r => if r = .last then 0x3000 else 0x1000) (fun r => if r = .last then 0x100 else 0x1000)

theorem oneBuf_table : Table oneBuf := by
  have hvalid : ∀ {r}, oneBuf.Valid r → r = .input 0 ∨ r = .last := by
    intro r hr
    cases r with
    | input i =>
      have hi : i = 0 := Nat.lt_one_iff.mp hr
      exact .inl (by rw [hi])
    | last => exact .inr rfl
  refine ⟨fun r hr => ?_, fun r q hr hq hne => ?_, by decide⟩
  · rcases hvalid hr with rfl | rfl <;> decide
  · rcases hvalid hr with rfl | rfl <;> rcases hvalid hq with rfl | rfl
    · exact absurd rfl hne
    · exact .inl (by decide)
    · exact .inr (by decide)
    · exact absurd rfl hne

/-- The user hands in the buffer and the decoder takes it. -/
def emptyAndGet : List (Act Call) :=
  [.call (.emptyThisStream ⟨0x1000, 8, 0, false⟩), .sched 0, .sched 0, .sched 0, .call .getStream, .sched 0,
    .sched 0]

/-- A flush while the decoder holds the buffer ends when the decoder gives it back. -/
theorem run_streams_flush :
    ∃ σ ev, Run stream.step (Machine.cond anyCall Steady) ⟨oneBuf, []⟩
        (emptyAndGet ++ [.call .flushInPort, .sched 0, .call (.releaseStream 0x1000), .sched 0]) σ ev ∧
      .flushInputDone ∈ ev ∧ accepted 0 ev = 1 ∧ answered 0 ev = 1 ∧ σ.shared.rawUseCnt = 0 := by
  refine exists_run_imp (fun σ ev => .flushInputDone ∈ ev ∧ accepted 0 ev = 1 ∧ σ.shared.rawQueue = [])
    (by decide) fun _ _ hrun htest => ?_
  obtain ⟨hdone, hacc, hqueue⟩ := htest
  obtain ⟨hcount, hanswers, -⟩ := run_streams oneBuf_table hrun
  have hans := hanswers 0
  rw [hqueue, if_neg List.not_mem_nil, hacc] at hans
  rw [hqueue] at hcount
  exact ⟨hdone, hacc, hans.symm, hcount⟩

/-- The buffer is handed in once more, with another offset, while the decoder holds it: the decoder's release
    does not find it, and it is never answered. Two calls with the end of the stream read `eos_in_list` before
    one of them sets it: the second is about to add `last_frame` to the list that has it. -/
theorem lost_stream_and_two_ends :
    (∃ σ ev, Run stream.step (Machine.cond anyCall Within) ⟨oneBuf, []⟩
        (emptyAndGet ++ [.call (.emptyThisStream ⟨0x1000, 8, 4, false⟩), .sched 0, .sched 0, .sched 0,
          .call (.releaseStream 0x1000), .sched 0]) σ ev ∧
      σ.pcs = [] ∧ σ.shared.held = [] ∧ accepted 0 ev = 1 ∧ answered 0 ev = 0 ∧ σ.shared.rawUseCnt = 1) ∧
    ∃ σ ev, Run stream.step (Machine.cond anyCall Within) ⟨oneBuf, []⟩
        [.call (.emptyThisStream ⟨0, 0, 0, true⟩), .sched 0, .call (.emptyThisStream ⟨0, 0, 0, true⟩), .sched 0,
          .sched 0, .sched 1, .sched 1] σ ev ∧
      σ.shared.rawQueue = [.last] ∧ (stream.step σ (.sched 1)).isNone := by
  constructor
  · exact exists_run_of_decide (by decide)
  · exact exists_run_of_decide (by decide)

end HiSTB.Omxvdec.Stream
