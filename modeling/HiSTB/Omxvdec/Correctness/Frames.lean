import HiSTB.Omxvdec.Correctness.Buffers

/-!
# `Omxvdec.Correctness.Frames` — every output buffer is answered once

`processor_release_frame` marks a buffer idle, leaves the lock, and decides then whether the buffer goes back to
the user or stays. Between the two the buffer is on the list and looks free: a flush answers it, and
`processor_get_frame` hands it out again. `Quiet` is the condition that neither meets such a buffer, and that the
address by which VPSS knows a buffer stays the buffer's own.

* `Ledger` — the invariant: who holds which buffer, and what the counter counts;
* `Ledger.next` — one part of a call keeps it;
* `run_answers_once` — so does every run;
* `flush_and_get_meet_release` — the two ways it goes wrong.
-/

namespace HiSTB.Omxvdec.Channel

open Lib

variable {pc pc' : Pc} {new : List Pc} {fs : List Event} {queue : List Nat} {t : Chan}
    {o : BitVec 32}

/-- The addresses of the entries of the list stay different, and none is `0`, when `b` has the offset `o`. -/
def Chan.keyFree (s : Chan) (b : Nat) (o : BitVec 32) : Prop :=
  (s.buf b).phyAddr + o ≠ 0 ∧ ∀ q ∈ s.yuvQueue, q ≠ b → (s.buf q).addr ≠ (s.buf b).phyAddr + o
deriving Decidable

/-- The condition on a part of a call. -/
def Quiet (s : Chan) : Pc → Prop
  | .getList n => ∀ b ∈ s.freeFrame n, (s.buf b).status ≠ .idle
  | .flush => ∀ b ∈ s.yuvQueue, (s.buf b).status ≠ .idle
  | .fillLookup d => ∀ b ∈ s.lookupAddrTable d.phyaddr, b ∈ s.yuvQueue →
      ((s.buf b).status = .inUse → d.dataOffset = (s.buf b).offset) ∧ s.keyFree b d.dataOffset
  | .fillInsert b => s.inYuvList b = false → s.keyFree b (s.buf b).offset
  | _ => True

/-- Every call is allowed. -/
def anyCall (_ : Chan) (_ : Call) : Prop := True

/-! ## Who holds what -/

/-- The call was made for the frame at address `k` and has not looked it up yet. -/
def Pc.seeks (k : BitVec 32) : Pc → Bool
  | .releaseFind j => j = k
  | .reportFind j => j = k
  | _ => false

/-- The call has marked buffer `b` idle and goes on with it. -/
def Pc.marks (b : Nat) : Pc → Bool
  | .releaseCount c => c = b
  | .releaseFlags c => c = b
  | .releaseDel c => c = b
  | _ => false

/-- The call gives a frame back and has not counted it yet. -/
def Pc.counts : Pc → Bool
  | .releaseFind _ => true
  | .releaseCount _ => true
  | .reportFind _ => true
  | .reportPost _ => true
  | .reportCount => true
  | _ => false

/-- The call has removed buffer `b` and has not answered it yet. -/
def Pc.answers (b : Nat) : Pc → Bool
  | .releasePost c => c = b
  | .reportPost c => c = b
  | _ => false

/-- Buffer `c` is `b`, and idle. -/
def idleAt (buf : Nat → Buf) (b c : Nat) : Bool := c = b ∧ (buf c).status = .idle

/-- How often buffer `b` was accepted. -/
def accepted (b : Nat) (ev : List Event) : Nat := ev.count (.accept b)

/-- How often buffer `b` was taken from the list. -/
def removed (b : Nat) (ev : List Event) : Nat := ev.count (.remove b)

/-- How often buffer `b` was answered. -/
def answered (b : Nat) (ev : List Event) : Nat := ev.count (.post .outputDone .success (some b))

/-- The list has every buffer once, and the addresses tell its entries apart. -/
structure Keyed (s : Chan) : Prop where
  nodup : s.yuvQueue.Nodup
  inj : ∀ b ∈ s.yuvQueue, ∀ c ∈ s.yuvQueue, (s.buf b).addr = (s.buf c).addr → b = c
  nonzero : ∀ b ∈ s.yuvQueue, (s.buf b).addr ≠ 0

/-- Who holds the entries of the list, and the counter. -/
structure Owners (s : Chan) (pcs : List Pc) : Prop where
  inUse : ∀ k, s.held.count k + pcs.countP (Pc.seeks k) = s.yuvQueue.countP (usedAt s.buf k)
  idle : ∀ b, pcs.countP (Pc.marks b) = s.yuvQueue.countP (idleAt s.buf b)
  count : s.yuvUseCnt = s.held.length + pcs.countP Pc.counts

/-- What was accepted, removed and answered. -/
structure Answers (queue : List Nat) (pcs : List Pc) (ev : List Event) : Prop where
  remove : ∀ b, accepted b ev = removed b ev + queue.count b
  answer : ∀ b, removed b ev = answered b ev + pcs.countP (Pc.answers b)

/-- The invariant. -/
structure Ledger (s : Chan) (pcs : List Pc) (ev : List Event) : Prop where
  keyed : Keyed s
  owners : Owners s pcs
  answers : Answers s.yuvQueue pcs ev

variable {s : Chan} {pcs : List Pc} {ev : List Event} {b c : Nat} {k : BitVec 32} {st : BufState}

theorem Ledger.perm {pcs' : List Pc} (hp : pcs.Perm pcs') (h : Ledger s pcs ev) : Ledger s pcs' ev := by
  refine ⟨h.keyed, ⟨fun k => ?_, fun b => ?_, ?_⟩, ⟨h.answers.remove, fun b => ?_⟩⟩
  · rw [← hp.countP_eq]
    exact h.owners.inUse k
  · rw [← hp.countP_eq]
    exact h.owners.idle b
  · rw [← hp.countP_eq]
    exact h.owners.count
  · rw [← hp.countP_eq]
    exact h.answers.answer b

theorem init_ledger (num : Nat) (phyAddr bufLen : Nat → BitVec 32) :
    Ledger (Chan.init num phyAddr bufLen) [] [] := by
  refine ⟨⟨List.nodup_nil, ?_, ?_⟩, ⟨fun k => rfl, fun b => rfl, rfl⟩, ⟨fun b => rfl, fun b => rfl⟩⟩
  · exact fun b hb => absurd hb List.not_mem_nil
  · exact fun b hb => absurd hb List.not_mem_nil

/-! ## Writes of a buffer -/

theorem setStatus_addr (s : Chan) (b : Nat) (st : BufState) (c : Nat) :
    ((s.setStatus b st).buf c).addr = (s.buf c).addr := withStatus_addr s.buf b st c

theorem setStatus_self (s : Chan) (b : Nat) (st : BufState) : ((s.setStatus b st).buf b).status = st :=
  withStatus_self s.buf b st

theorem setStatus_other (st : BufState) (hc : c ≠ b) : (s.setStatus b st).buf c = s.buf c :=
  withStatus_other st hc

theorem setStatus_queue (s : Chan) (b : Nat) (st : BufState) : (s.setStatus b st).yuvQueue = s.yuvQueue := rfl

theorem Keyed.setStatus (h : Keyed s) (b : Nat) (st : BufState) : Keyed (s.setStatus b st) := by
  refine ⟨h.nodup, fun c hc d hd heq => ?_, fun c hc => ?_⟩
  · rw [setStatus_addr, setStatus_addr] at heq
    exact h.inj c hc d hd heq
  · rw [setStatus_addr]
    exact h.nonzero c hc

theorem Keyed.listDel (h : Keyed s) (b : Nat) : Keyed (s.listDel b) :=
  ⟨h.nodup.erase b, fun c hc d hd => h.inj c (List.mem_of_mem_erase hc) d (List.mem_of_mem_erase hd),
    fun c hc => h.nonzero c (List.mem_of_mem_erase hc)⟩

theorem used_setStatus (hnd : s.yuvQueue.Nodup) (hb : b ∈ s.yuvQueue) (st : BufState) (k : BitVec 32) :
    (s.setStatus b st).yuvQueue.countP (usedAt (s.setStatus b st).buf k) +
        (decide ((s.buf b).addr = k ∧ (s.buf b).status = .inUse)).toNat =
      s.yuvQueue.countP (usedAt s.buf k) + (decide ((s.buf b).addr = k ∧ st = .inUse)).toNat :=
  used_withStatus s.buf hnd hb st k

/-- How the number of idle entries changes with the status of `b`. -/
theorem idle_setStatus (hnd : s.yuvQueue.Nodup) (hb : b ∈ s.yuvQueue) (st : BufState) (c : Nat) :
    (s.setStatus b st).yuvQueue.countP (idleAt (s.setStatus b st).buf c) +
        (decide (b = c ∧ (s.buf b).status = .idle)).toNat =
      s.yuvQueue.countP (idleAt s.buf c) + (decide (b = c ∧ st = .idle)).toNat := by
  have hnew : idleAt (s.setStatus b st).buf c b = decide (b = c ∧ st = .idle) := by
    unfold idleAt
    rw [setStatus_self]
  have hold : decide (b = c ∧ (s.buf b).status = .idle) = idleAt s.buf c b := rfl
  rw [← hnew, hold, setStatus_queue]
  refine countP_change hnd hb (fun d _ hne => ?_)
  unfold idleAt
  rw [setStatus_other st hne]

theorem used_listDel (hb : b ∈ s.yuvQueue) (k : BitVec 32) :
    (s.listDel b).yuvQueue.countP (usedAt (s.listDel b).buf k) +
        (decide ((s.buf b).addr = k ∧ (s.buf b).status = .inUse)).toNat =
      s.yuvQueue.countP (usedAt s.buf k) := used_erase s.buf hb k

theorem idle_listDel (hb : b ∈ s.yuvQueue) (c : Nat) :
    (s.listDel b).yuvQueue.countP (idleAt (s.listDel b).buf c) +
        (decide (b = c ∧ (s.buf b).status = .idle)).toNat = s.yuvQueue.countP (idleAt s.buf c) :=
  countP_erase_add hb

/-- The entry at an address that somebody holds. -/
theorem Ledger.find (h : Ledger s pcs ev) (hk : 0 < s.held.count k + pcs.countP (Pc.seeks k)) :
    k ≠ 0 ∧ ∃ b ∈ s.yuvQueue, s.findAddr k = some b ∧ (s.buf b).addr = k ∧ (s.buf b).status = .inUse := by
  rw [h.owners.inUse k, List.countP_pos_iff] at hk
  obtain ⟨b, hb, hused⟩ := hk
  obtain ⟨haddr, hst⟩ := of_decide_eq_true hused
  refine ⟨haddr ▸ h.keyed.nonzero b hb, b, hb, ?_, haddr, hst⟩
  have hsome : (s.findAddr k).isSome := by
    unfold Chan.findAddr
    rw [List.find?_isSome]
    exact ⟨b, hb, by simp [haddr]⟩
  obtain ⟨c, hc⟩ := Option.isSome_iff_exists.mp hsome
  have hmem := List.mem_of_find?_eq_some hc
  have hkey : k = (s.buf c).addr := by simpa using List.find?_some hc
  rw [hc, h.keyed.inj c hmem b hb (hkey.symm.trans haddr.symm)]

/-- A buffer that a call marked is idle on the list. -/
theorem Ledger.marked (h : Ledger s pcs ev) (hb : 0 < pcs.countP (Pc.marks b)) :
    b ∈ s.yuvQueue ∧ (s.buf b).status = .idle := by
  rw [h.owners.idle b, List.countP_pos_iff] at hb
  obtain ⟨c, hc, hidle⟩ := hb
  obtain ⟨rfl, hst⟩ := of_decide_eq_true hidle
  exact ⟨hc, hst⟩

/-! ## Calls and events that hold nothing -/

/-- The call holds no frame. -/
structure Pc.Free (pc : Pc) : Prop where
  seeks : ∀ k, pc.seeks k = false
  marks : ∀ b, pc.marks b = false
  counts : pc.counts = false
  answers : ∀ b, pc.answers b = false

/-- The call holds a frame, or owes the answer for one. -/
def Pc.holds : Pc → Bool
  | .releaseFind _ => true
  | .releaseCount _ => true
  | .releaseFlags _ => true
  | .releaseDel _ => true
  | .releasePost _ => true
  | .reportFind _ => true
  | .reportPost _ => true
  | .reportCount => true
  | _ => false

theorem Pc.Free.of (hpc : pc.holds = false) : pc.Free := by
  cases pc <;> first
    | exact ⟨fun _ => rfl, fun _ => rfl, rfl, fun _ => rfl⟩
    | cases hpc

theorem Ledger.free (hpc : pc.Free) : Ledger s (pc :: pcs) ev ↔ Ledger s pcs ev := by
  have hseeks : ∀ k, (pc :: pcs).countP (Pc.seeks k) = pcs.countP (Pc.seeks k) := fun k => by
    rw [List.countP_cons, hpc.seeks, if_neg Bool.false_ne_true, Nat.add_zero]
  have hmarks : ∀ b, (pc :: pcs).countP (Pc.marks b) = pcs.countP (Pc.marks b) := fun b => by
    rw [List.countP_cons, hpc.marks, if_neg Bool.false_ne_true, Nat.add_zero]
  have hcounts : (pc :: pcs).countP Pc.counts = pcs.countP Pc.counts := by
    rw [List.countP_cons, hpc.counts, if_neg Bool.false_ne_true, Nat.add_zero]
  have hanswers : ∀ b, (pc :: pcs).countP (Pc.answers b) = pcs.countP (Pc.answers b) := fun b => by
    rw [List.countP_cons, hpc.answers, if_neg Bool.false_ne_true, Nat.add_zero]
  constructor
  · rintro ⟨hk, ⟨h₁, h₂, h₃⟩, ⟨h₄, h₅⟩⟩
    exact ⟨hk, ⟨fun k => hseeks k ▸ h₁ k, fun b => hmarks b ▸ h₂ b, hcounts ▸ h₃⟩,
      ⟨h₄, fun b => hanswers b ▸ h₅ b⟩⟩
  · rintro ⟨hk, ⟨h₁, h₂, h₃⟩, ⟨h₄, h₅⟩⟩
    exact ⟨hk, ⟨fun k => (hseeks k).symm ▸ h₁ k, fun b => (hmarks b).symm ▸ h₂ b, hcounts.symm ▸ h₃⟩,
      ⟨h₄, fun b => (hanswers b).symm ▸ h₅ b⟩⟩

/-- A call without a frame begins, or goes on. -/
theorem Ledger.joins (h : Ledger s pcs ev) (hpc : pc.holds = false) : Ledger s (pc :: pcs) ev :=
  (Ledger.free (.of hpc)).mpr h

theorem Ledger.frees (hnew : ∀ pc ∈ new, pc.Free) (h : Ledger s pcs ev) : Ledger s (new ++ pcs) ev := by
  induction new with
  | nil => exact h
  | cons pc new ih =>
    exact (Ledger.free (hnew pc List.mem_cons_self)).mpr (ih (fun q hq => hnew q (List.mem_cons_of_mem _ hq)))

/-- The events say nothing about accepted buffers. -/
structure Silent (fs : List Event) : Prop where
  accepted : ∀ b, accepted b fs = 0
  removed : ∀ b, removed b fs = 0
  answered : ∀ b, answered b fs = 0

theorem silent_nil : Silent [] := ⟨fun _ => rfl, fun _ => rfl, fun _ => rfl⟩

theorem accepted_append (b : Nat) (ev fs : List Event) : accepted b (ev ++ fs) = accepted b ev + accepted b fs :=
  List.count_append

theorem removed_append (b : Nat) (ev fs : List Event) : removed b (ev ++ fs) = removed b ev + removed b fs :=
  List.count_append

theorem answered_append (b : Nat) (ev fs : List Event) : answered b (ev ++ fs) = answered b ev + answered b fs :=
  List.count_append

theorem Silent.append {gs : List Event} (h : Silent fs) (h' : Silent gs) : Silent (fs ++ gs) := by
  refine ⟨fun b => ?_, fun b => ?_, fun b => ?_⟩
  · rw [accepted_append, h.accepted, h'.accepted]
  · rw [removed_append, h.removed, h'.removed]
  · rw [answered_append, h.answered, h'.answered]

/-- One event about something else. -/
theorem silent_single {e : Event} (hacc : ∀ b, e ≠ .accept b) (hrem : ∀ b, e ≠ .remove b)
    (hans : ∀ b, e ≠ .post .outputDone .success (some b)) : Silent [e] := by
  refine ⟨fun b => ?_, fun b => ?_, fun b => ?_⟩
  · exact List.count_eq_zero.mpr (fun hmem => hacc b (List.mem_singleton.mp hmem).symm)
  · exact List.count_eq_zero.mpr (fun hmem => hrem b (List.mem_singleton.mp hmem).symm)
  · exact List.count_eq_zero.mpr (fun hmem => hans b (List.mem_singleton.mp hmem).symm)

theorem silent_post (code : Resp) (status : Status) : Silent [.post code status none] :=
  silent_single (by simp) (by simp) (by simp)

theorem Answers.silent (h : Answers queue pcs ev) (hfs : Silent fs) :
    Answers queue pcs (ev ++ fs) := by
  refine ⟨fun b => ?_, fun b => ?_⟩
  · rw [accepted_append, removed_append, hfs.accepted, hfs.removed]
    exact h.remove b
  · rw [removed_append, answered_append, hfs.removed, hfs.answered]
    exact h.answer b

/-- Fields that no part of the invariant reads. -/
theorem Ledger.congr (h : Ledger s pcs ev) (hq : t.yuvQueue = s.yuvQueue) (hb : t.buf = s.buf)
    (hh : t.held = s.held) (hc : t.yuvUseCnt = s.yuvUseCnt) : Ledger t pcs ev := by
  obtain ⟨hk, ho, ha⟩ := h
  refine ⟨⟨hq ▸ hk.nodup, ?_, ?_⟩, ⟨?_, ?_, ?_⟩, hq ▸ ha⟩
  · rw [hq, hb]
    exact hk.inj
  · rw [hq, hb]
    exact hk.nonzero
  · rw [hq, hb, hh]
    exact ho.inUse
  · rw [hq, hb]
    exact ho.idle
  · rw [hc, hh]
    exact ho.count

/-! ## What a part does to the buffers -/

/-- `processor_get_frame` takes buffer `b`, which nobody has. -/
theorem Ledger.take (h : Ledger s pcs ev) (hb : b ∈ s.yuvQueue) (huse : (s.buf b).status ≠ .inUse)
    (hidle : (s.buf b).status ≠ .idle) :
    Ledger { s.setStatus b .inUse with
      yuvUseCnt := s.yuvUseCnt + 1
      held := (s.buf b).addr :: s.held } pcs ev := by
  have hkeyed := h.keyed.setStatus b .inUse
  refine ⟨⟨hkeyed.nodup, hkeyed.inj, hkeyed.nonzero⟩, ⟨fun k => ?_, fun c => ?_, ?_⟩, h.answers⟩
  · have hused := used_setStatus h.keyed.nodup hb .inUse k
    have hold := h.owners.inUse k
    simp only [huse, and_false, and_true, decide_false, Bool.toNat_false, Nat.add_zero] at hused
    rw [hused, ← hold, List.count_cons]
    by_cases heq : (s.buf b).addr = k
    · simp [heq]
      omega
    · simp [heq]
  · have hidles := idle_setStatus h.keyed.nodup hb .inUse c
    simp only [hidle, and_false, reduceCtorEq, decide_false, Bool.toNat_false, Nat.add_zero] at hidles
    rw [hidles]
    exact h.owners.idle c
  · have hcount := h.owners.count
    dsimp only
    rw [List.length_cons]
    omega

/-- `processor_release_frame` marks the buffer it was called for. -/
theorem Ledger.mark (h : Ledger s (.releaseFind k :: pcs) ev) (hb : b ∈ s.yuvQueue)
    (haddr : (s.buf b).addr = k) (hst : (s.buf b).status = .inUse) :
    Ledger (s.setStatus b .idle) (.releaseCount b :: pcs) ev := by
  refine ⟨h.keyed.setStatus b .idle, ⟨fun j => ?_, fun c => ?_, h.owners.count⟩, h.answers.remove,
    h.answers.answer⟩
  · have hused := used_setStatus h.keyed.nodup hb .idle j
    have hold := h.owners.inUse j
    rw [countP_cons_toNat] at hold ⊢
    simp only [haddr, hst, and_true, reduceCtorEq, and_false, decide_false, Bool.toNat_false, Nat.add_zero,
      Pc.seeks] at hused hold ⊢
    change s.held.count j + _ = _
    omega
  · have hidles := idle_setStatus h.keyed.nodup hb .idle c
    have hold := h.owners.idle c
    rw [countP_cons_toNat] at hold ⊢
    simp only [hst, and_true, reduceCtorEq, and_false, decide_false, Bool.toNat_false, Nat.add_zero,
      Pc.marks] at hidles hold ⊢
    omega

/-- A call goes on with what it holds, but for what it has counted. -/
theorem Ledger.goesOn (h : Ledger s (pc :: pcs) ev) (hq : t.yuvQueue = s.yuvQueue)
    (hb : t.buf = s.buf) (hh : t.held = s.held)
    (hc : t.yuvUseCnt + pc.counts.toNat = s.yuvUseCnt + pc'.counts.toNat) (hseeks : ∀ k, pc'.seeks k = pc.seeks k)
    (hmarks : ∀ c, pc'.marks c = pc.marks c) (hanswers : ∀ c, pc'.answers c = pc.answers c) :
    Ledger t (pc' :: pcs) ev := by
  refine ⟨⟨hq ▸ h.keyed.nodup, ?_, ?_⟩, ⟨fun k => ?_, fun c => ?_, ?_⟩, hq ▸ h.answers.remove, fun c => ?_⟩
  · rw [hq, hb]
    exact h.keyed.inj
  · rw [hq, hb]
    exact h.keyed.nonzero
  · rw [hq, hb, hh, countP_cons_toNat, hseeks, ← countP_cons_toNat]
    exact h.owners.inUse k
  · rw [hq, hb, countP_cons_toNat, hmarks, ← countP_cons_toNat]
    exact h.owners.idle c
  · have hold := h.owners.count
    rw [countP_cons_toNat] at hold ⊢
    rw [hh]
    omega
  · rw [countP_cons_toNat, hanswers, ← countP_cons_toNat]
    exact h.answers.answer c

/-- The frame is counted. -/
theorem Ledger.uncount (h : Ledger s (pc :: pcs) ev) (hpc : pc.counts = true) :
    s.decUseCnt.yuvUseCnt + 1 = s.yuvUseCnt := by
  have hcount := h.owners.count
  rw [countP_cons_toNat, hpc, Bool.toNat_true] at hcount
  change s.yuvUseCnt - 1 + 1 = s.yuvUseCnt
  omega

/-- It puts the frame back. -/
theorem Ledger.requeue (h : Ledger s (.releaseFlags b :: pcs) ev) : Ledger (s.setStatus b .queued) pcs ev := by
  have hmarks : 0 < (Pc.releaseFlags b :: pcs).countP (Pc.marks b) := by
    rw [List.countP_cons_of_pos (by simp [Pc.marks])]
    exact Nat.succ_pos _
  obtain ⟨hb, hst⟩ := h.marked hmarks
  refine ⟨h.keyed.setStatus b .queued, ⟨fun j => ?_, fun c => ?_, h.owners.count⟩, h.answers.remove,
    h.answers.answer⟩
  · have hused := used_setStatus h.keyed.nodup hb .queued j
    simp only [hst, reduceCtorEq, and_false, decide_false, Bool.toNat_false, Nat.add_zero] at hused
    rw [hused]
    exact h.owners.inUse j
  · have hidles := idle_setStatus h.keyed.nodup hb .queued c
    have hold := h.owners.idle c
    rw [countP_cons_toNat] at hold
    simp only [hst, and_true, reduceCtorEq, and_false, decide_false, Bool.toNat_false, Nat.add_zero,
      Pc.marks] at hidles hold
    omega

theorem removed_singleton (b c : Nat) : removed c [.remove b] = (decide (b = c)).toNat := by
  by_cases hbc : b = c <;> simp [removed, hbc]

theorem answered_singleton (b c : Nat) :
    answered c [.post .outputDone .success (some b)] = (decide (b = c)).toNat := by
  by_cases hbc : b = c <;> simp [answered, hbc]

/-- A removal, which is to be answered. -/
theorem Answers.removal (h : Answers queue (pc :: pcs) ev) (hb : b ∈ queue)
    (hpc : ∀ c, pc.answers c = false) (hpc' : ∀ c, pc'.answers c = decide (b = c)) :
    Answers (queue.erase b) (pc' :: pcs) (ev ++ [.remove b]) := by
  refine ⟨fun c => ?_, fun c => ?_⟩
  · have hold := h.remove c
    have herase := count_erase_add hb c
    have hacc : accepted c [.remove b] = 0 := by simp [accepted]
    rw [accepted_append, removed_append, hacc, removed_singleton]
    omega
  · have hold := h.answer c
    have hans : answered c [.remove b] = 0 := by simp [answered]
    rw [countP_cons_toNat, hpc, Bool.toNat_false] at hold
    rw [removed_append, answered_append, hans, removed_singleton, countP_cons_toNat, hpc']
    omega

/-- The answer to a removal. -/
theorem Answers.answered (h : Answers queue (pc :: pcs) ev)
    (hpc : ∀ c, pc.answers c = decide (b = c)) :
    Answers queue pcs (ev ++ [.post .outputDone .success (some b)]) := by
  refine ⟨fun c => ?_, fun c => ?_⟩
  · have hold := h.remove c
    have hacc : accepted c [.post .outputDone .success (some b)] = 0 := by simp [accepted]
    have hrem : removed c [.post .outputDone .success (some b)] = 0 := by simp [removed]
    rw [accepted_append, removed_append, hacc, hrem]
    exact hold
  · have hold := h.answer c
    have hrem : removed c [.post .outputDone .success (some b)] = 0 := by simp [removed]
    rw [countP_cons_toNat, hpc] at hold
    rw [removed_append, answered_append, hrem, answered_singleton]
    omega

/-- `processor_release_frame` removes the buffer it marked. -/
theorem Ledger.del (h : Ledger s (.releaseDel b :: pcs) ev) :
    b ∈ s.yuvQueue ∧ Ledger (s.listDel b) (.releasePost b :: pcs) (ev ++ [.remove b]) := by
  have hmarks : 0 < (Pc.releaseDel b :: pcs).countP (Pc.marks b) := by
    rw [List.countP_cons_of_pos (by simp [Pc.marks])]
    exact Nat.succ_pos _
  obtain ⟨hb, hst⟩ := h.marked hmarks
  refine ⟨hb, h.keyed.listDel b, ⟨fun j => ?_, fun c => ?_, h.owners.count⟩,
    h.answers.removal hb (fun _ => rfl) (fun _ => rfl)⟩
  · have hused := used_listDel hb j
    simp only [hst, reduceCtorEq, and_false, decide_false, Bool.toNat_false, Nat.add_zero] at hused
    rw [hused]
    exact h.owners.inUse j
  · have hidles := idle_listDel hb c
    have hold := h.owners.idle c
    rw [countP_cons_toNat] at hold ⊢
    simp only [hst, and_true, Bool.toNat_false, Nat.add_zero, Pc.marks] at hidles hold ⊢
    omega

/-- `processor_report_frame` takes the buffer it was called for off the list. -/
theorem Ledger.report (h : Ledger s (.reportFind k :: pcs) ev) (hb : b ∈ s.yuvQueue)
    (haddr : (s.buf b).addr = k) (hst : (s.buf b).status = .inUse) :
    Ledger ((s.setStatus b .idle).listDel b) (.reportPost b :: pcs) (ev ++ [.remove b]) := by
  have hb' : b ∈ (s.setStatus b .idle).yuvQueue := hb
  have hself := setStatus_self s b .idle
  refine ⟨(h.keyed.setStatus b .idle).listDel b, ⟨fun j => ?_, fun c => ?_, h.owners.count⟩,
    h.answers.removal hb (fun _ => rfl) (fun _ => rfl)⟩
  · have hused := used_setStatus h.keyed.nodup hb .idle j
    have hgone := used_listDel hb' j
    have hold := h.owners.inUse j
    rw [countP_cons_toNat] at hold ⊢
    simp only [hself, haddr, hst, and_true, reduceCtorEq, and_false, decide_false, Bool.toNat_false,
      Nat.add_zero, Pc.seeks] at hused hgone hold ⊢
    change s.held.count j + _ = _
    omega
  · have hidles := idle_setStatus h.keyed.nodup hb .idle c
    have hgone := idle_listDel hb' c
    have hold := h.owners.idle c
    rw [countP_cons_toNat] at hold ⊢
    simp only [hself, hst, and_true, reduceCtorEq, and_false, decide_false, Bool.toNat_false, Nat.add_zero,
      Pc.marks] at hidles hgone hold ⊢
    omega

/-- `channel_flush_out_port` answers buffer `b`, which nobody has. -/
theorem Ledger.flush (h : Ledger s pcs ev) (hb : b ∈ s.yuvQueue) (huse : (s.buf b).status ≠ .inUse)
    (hidle : (s.buf b).status ≠ .idle) :
    Ledger ((s.setStatus b .idle).listDel b) pcs
      (ev ++ [.remove b, .post .outputDone .success (some b)]) := by
  have hb' : b ∈ (s.setStatus b .idle).yuvQueue := hb
  have hself := setStatus_self s b .idle
  have hanswers : Answers (s.yuvQueue.erase b) pcs
      (ev ++ [.remove b] ++ [.post .outputDone .success (some b)]) := by
    -- as if a call did it in two parts
    have hfirst : Answers s.yuvQueue (.releaseDel b :: pcs) ev := ⟨h.answers.remove, h.answers.answer⟩
    have hsecond : Answers (s.yuvQueue.erase b) (.releasePost b :: pcs) (ev ++ [.remove b]) :=
      hfirst.removal hb (fun _ => rfl) (fun _ => rfl)
    exact hsecond.answered (fun _ => rfl)
  rw [List.append_assoc] at hanswers
  refine ⟨(h.keyed.setStatus b .idle).listDel b, ⟨fun j => ?_, fun c => ?_, h.owners.count⟩, hanswers⟩
  · have hused := used_setStatus h.keyed.nodup hb .idle j
    have hgone := used_listDel hb' j
    have hold := h.owners.inUse j
    simp only [hself, huse, reduceCtorEq, and_false, decide_false, Bool.toNat_false, Nat.add_zero]
      at hused hgone
    rw [hgone, hused]
    exact hold
  · have hidles := idle_setStatus h.keyed.nodup hb .idle c
    have hgone := idle_listDel hb' c
    have hold := h.owners.idle c
    simp only [hself, hidle, and_true, and_false, decide_false, Bool.toNat_false, Nat.add_zero]
      at hidles hgone
    omega

theorem setOffset_other (hc : c ≠ b) : (s.setOffset b o).buf c = s.buf c := by
  simp [Chan.setOffset, hc]

theorem setOffset_status (s : Chan) (b : Nat) (o : BitVec 32) (c : Nat) :
    ((s.setOffset b o).buf c).status = (s.buf c).status := by
  unfold Chan.setOffset
  by_cases hc : c = b
  · subst hc
    simp
  · simp [hc]

theorem setOffset_addr (s : Chan) (b : Nat) (o : BitVec 32) :
    ((s.setOffset b o).buf b).addr = (s.buf b).phyAddr + o := by
  simp [Chan.setOffset, Buf.addr]

theorem setOffset_same (s : Chan) (b : Nat) : s.setOffset b (s.buf b).offset = s := by
  unfold Chan.setOffset
  rw [Function.update_eq_self]

theorem Keyed.setOffset (h : Keyed s) (hfree : b ∈ s.yuvQueue → s.keyFree b o) :
    Keyed (s.setOffset b o) := by
  -- the address of an entry that is not `b`, and of `b`
  have hother : ∀ c ∈ s.yuvQueue, c ≠ b → ((s.setOffset b o).buf c).addr = (s.buf c).addr :=
    fun c _ hne => by rw [setOffset_other hne]
  refine ⟨h.nodup, fun c hc d hd heq => ?_, fun c hc => ?_⟩
  · by_cases hcb : c = b
    · by_cases hdb : d = b
      · rw [hcb, hdb]
      · subst hcb
        rw [setOffset_addr, hother d hd hdb] at heq
        exact absurd heq.symm ((hfree hc).2 d hd hdb)
    · by_cases hdb : d = b
      · subst hdb
        rw [setOffset_addr, hother c hc hcb] at heq
        exact absurd heq ((hfree hd).2 c hc hcb)
      · rw [hother c hc hcb, hother d hd hdb] at heq
        exact h.inj c hc d hd heq
  · by_cases hcb : c = b
    · subst hcb
      rw [setOffset_addr]
      exact (hfree hc).1
    · rw [hother c hc hcb]
      exact h.nonzero c hc

/-- `channel_fill_this_frame` writes the offset of buffer `b`. -/
theorem Ledger.setOffset (h : Ledger s pcs ev)
    (hfree : b ∈ s.yuvQueue → ((s.buf b).status = .inUse → o = (s.buf b).offset) ∧ s.keyFree b o) :
    Ledger (s.setOffset b o) pcs ev := by
  by_cases hsame : o = (s.buf b).offset
  · rw [hsame, setOffset_same]
    exact h
  · have hunused : ∀ c ∈ s.yuvQueue, ∀ k, usedAt (s.setOffset b o).buf k c = usedAt s.buf k c := by
      intro c hc k
      by_cases hcb : c = b
      · subst hcb
        have hnot : (s.buf c).status ≠ .inUse := fun hst => hsame ((hfree hc).1 hst)
        simp [usedAt, setOffset_status, hnot]
      · unfold usedAt
        rw [setOffset_other hcb]
    refine ⟨h.keyed.setOffset (fun hb => (hfree hb).2), ⟨fun k => ?_, fun c => ?_, h.owners.count⟩, h.answers⟩
    · rw [show (s.setOffset b o).yuvQueue = s.yuvQueue from rfl, countP_same (fun c hc => hunused c hc k)]
      exact h.owners.inUse k
    · rw [show (s.setOffset b o).yuvQueue = s.yuvQueue from rfl,
        countP_same (q := idleAt s.buf c) (fun d _ => by unfold idleAt; rw [setOffset_status])]
      exact h.owners.idle c

theorem notMem_of_inYuvList (h : s.inYuvList b = false) : b ∉ s.yuvQueue := by
  intro hb
  have hany : s.inYuvList b = true := List.any_eq_true.mpr ⟨b, hb, by simp⟩
  rw [hany] at h
  cases h

/-- `channel_insert_in_yuv_list` accepts buffer `b`. -/
theorem Ledger.insert (h : Ledger s pcs ev) (hin : s.inYuvList b = false)
    (hfree : s.keyFree b (s.buf b).offset) :
    Ledger (s.insertInYuvList b) pcs (ev ++ [.accept b]) := by
  have hb := notMem_of_inYuvList hin
  have hne : ∀ c ∈ s.yuvQueue, c ≠ b := fun c hc heq => hb (heq ▸ hc)
  have hother : ∀ c ∈ s.yuvQueue, (s.setStatus b .queued).buf c = s.buf c :=
    fun c hc => setStatus_other .queued (hne c hc)
  have hself := setStatus_self s b .queued
  have haddr := setStatus_addr s b .queued
  refine ⟨⟨?_, ?_, ?_⟩, ⟨fun k => ?_, fun c => ?_, h.owners.count⟩, ⟨fun c => ?_, fun c => ?_⟩⟩
  · exact List.nodup_append.mpr ⟨h.keyed.nodup, List.nodup_singleton b,
      fun c hc d hd => List.mem_singleton.mp hd ▸ hne c hc⟩
  · intro c hc d hd heq
    change ((s.setStatus b .queued).buf c).addr = ((s.setStatus b .queued).buf d).addr at heq
    rw [haddr, haddr] at heq
    rcases List.mem_append.mp hc with hc | hc <;> rcases List.mem_append.mp hd with hd | hd
    · exact h.keyed.inj c hc d hd heq
    · rw [List.mem_singleton.mp hd] at heq
      exact absurd heq (hfree.2 c hc (hne c hc))
    · rw [List.mem_singleton.mp hc] at heq
      exact absurd heq.symm (hfree.2 d hd (hne d hd))
    · rw [List.mem_singleton.mp hc, List.mem_singleton.mp hd]
  · intro c hc
    change ((s.setStatus b .queued).buf c).addr ≠ 0
    rw [haddr]
    rcases List.mem_append.mp hc with hc | hc
    · exact h.keyed.nonzero c hc
    · rw [List.mem_singleton.mp hc]
      exact hfree.1
  · change s.held.count k + _ = (s.yuvQueue ++ [b]).countP (usedAt (s.setStatus b .queued).buf k)
    have hlast : usedAt (s.setStatus b .queued).buf k b = false := by simp [usedAt, hself]
    rw [List.countP_append, countP_same (q := usedAt s.buf k) (fun c hc => by unfold usedAt; rw [hother c hc]),
      List.countP_singleton, hlast]
    exact h.owners.inUse k
  · change _ = (s.yuvQueue ++ [b]).countP (idleAt (s.setStatus b .queued).buf c)
    have hlast : idleAt (s.setStatus b .queued).buf c b = false := by simp [idleAt, hself]
    rw [List.countP_append, countP_same (q := idleAt s.buf c) (fun d hd => by unfold idleAt; rw [hother d hd]),
      List.countP_singleton, hlast]
    exact h.owners.idle c
  · have hold := h.answers.remove c
    have hrem : removed c [.accept b] = 0 := by simp [removed]
    have hacc : accepted c [.accept b] = [b].count c := by
      by_cases hbc : b = c <;> simp [accepted, hbc]
    change _ = _ + (s.yuvQueue ++ [b]).count c
    rw [accepted_append, removed_append, hrem, hacc, List.count_append]
    omega
  · have hold := h.answers.answer c
    have hrem : removed c [.accept b] = 0 := by simp [removed]
    have hans : answered c [.accept b] = 0 := by simp [answered]
    rw [removed_append, answered_append, hrem, hans]
    exact hold

/-- The loop of `channel_flush_out_port`. -/
theorem Ledger.flushLoop {bs : List Nat} (h : Ledger s pcs ev) (hsub : ∀ b ∈ bs, b ∈ s.yuvQueue)
    (hnd : bs.Nodup) (hidle : ∀ b ∈ bs, (s.buf b).status ≠ .idle) :
    Ledger (s.flushLoop bs).1 pcs (ev ++ (s.flushLoop bs).2) := by
  induction bs generalizing s ev with
  | nil => simpa [Chan.flushLoop] using h
  | cons b bs ih =>
    obtain ⟨hb, hnd⟩ := List.nodup_cons.mp hnd
    have hne : ∀ c ∈ bs, c ≠ b := fun c hc heq => hb (heq ▸ hc)
    unfold Chan.flushLoop
    by_cases huse : (s.buf b).status = .inUse
    · rw [if_pos huse]
      exact ih h (fun c hc => hsub c (List.mem_cons_of_mem _ hc)) hnd
        (fun c hc => hidle c (List.mem_cons_of_mem _ hc))
    · rw [if_neg huse]
      have hflush := h.flush (hsub b List.mem_cons_self) huse (hidle b List.mem_cons_self)
      have hrest := ih hflush ?_ hnd ?_
      · rwa [List.append_assoc] at hrest
      · intro c hc
        exact (List.mem_erase_of_ne (hne c hc)).mpr (hsub c (List.mem_cons_of_mem _ hc))
      · intro c hc
        change ((s.setStatus b .idle).buf c).status ≠ .idle
        rw [setStatus_other .idle (hne c hc)]
        exact hidle c (List.mem_cons_of_mem _ hc)

theorem Ledger.silent (h : Ledger s pcs ev) (hfs : Silent fs) : Ledger s pcs (ev ++ fs) :=
  ⟨h.keyed, h.owners, h.answers.silent hfs⟩

theorem Ledger.flushOutPort (h : Ledger s pcs ev) (hidle : ∀ b ∈ s.yuvQueue, (s.buf b).status ≠ .idle) :
    Ledger s.flushOutPort.1 pcs (ev ++ s.flushOutPort.2) := by
  have hloop := h.flushLoop (fun b hb => hb) h.keyed.nodup hidle
  unfold Chan.flushOutPort
  dsimp only
  split
  · exact hloop.congr rfl rfl rfl rfl
  · rw [← List.append_assoc]
    exact hloop.silent (silent_post _ _)

/-! ## Parts, calls, runs -/

/-- What a part of a call leaves behind. -/
def Keeps (pcs : List Pc) (ev : List Event) (r : Option (Chan × List Pc × List Event)) : Prop :=
  ∃ t new fs, r = some (t, new, fs) ∧ Ledger t (new ++ pcs) (ev ++ fs)

theorem keeps_quiet (h : Ledger t (new ++ pcs) ev) :
    Keeps pcs ev (some (t, new, [])) := ⟨t, new, [], rfl, by rwa [List.append_nil]⟩

/-- A call goes on with one part. -/
theorem keeps_part {pc : Pc} (h : Ledger t (pc :: pcs) ev) : Keeps pcs ev (some (t, [pc], [])) := keeps_quiet h

/-- A call is over. -/
theorem keeps_end (h : Ledger t pcs ev) : Keeps pcs ev (some (t, [], [])) := keeps_quiet h

theorem keeps_silent (l : List Pc) (h : Ledger t (l ++ pcs) ev) (hfs : Silent fs) :
    Keeps pcs ev (some (t, l, fs)) := ⟨t, l, fs, rfl, h.silent hfs⟩

theorem Ledger.getList {n : BitVec 32} (h : Ledger s pcs ev)
    (hidle : ∀ b ∈ s.freeFrame n, (s.buf b).status ≠ .idle) : Ledger (s.getFrame n) pcs ev := by
  unfold Chan.getFrame
  cases hfree : s.freeFrame n with
  | none => exact h
  | some b =>
    have hb := List.mem_of_find?_eq_some hfree
    have huse : (s.buf b).status ≠ .inUse := by
      have hpass := List.find?_some hfree
      exact (of_decide_eq_true hpass).1
    exact h.take hb huse (hidle b hfree)

theorem Ledger.releaseFind (h : Ledger s (.releaseFind k :: pcs) ev) :
    Keeps pcs ev (nextPart s (.releaseFind k)) := by
  have hk : 0 < s.held.count k + (Pc.releaseFind k :: pcs).countP (Pc.seeks k) := by
    rw [List.countP_cons_of_pos (by simp [Pc.seeks])]
    omega
  obtain ⟨hne, b, hb, hfind, haddr, hst⟩ := h.find hk
  rw [nextPart, if_neg hne, hfind]
  exact keeps_quiet (h.mark hb haddr hst)

theorem Ledger.releaseCount (h : Ledger s (.releaseCount b :: pcs) ev) :
    Keeps pcs ev (nextPart s (.releaseCount b)) :=
  keeps_part
    (h.goesOn rfl rfl rfl (h.uncount rfl) (fun _ => rfl) (fun _ => rfl) (fun _ => rfl))

theorem Ledger.releaseFlags (h : Ledger s (.releaseFlags b :: pcs) ev) :
    Keeps pcs ev (nextPart s (.releaseFlags b)) := by
  rw [nextPart]
  split
  · exact keeps_part
      (h.goesOn rfl rfl rfl rfl (fun _ => rfl) (fun _ => rfl) (fun _ => rfl))
  · exact keeps_end h.requeue

/-- The answer to a removal goes out. -/
theorem Ledger.post (h : Ledger s (pc :: pcs) ev) (hpc : ∀ c, pc.answers c = decide (b = c))
    (hpc' : ∀ c, pc'.answers c = false) (hseeks : ∀ k, pc.seeks k = pc'.seeks k)
    (hmarks : ∀ c, pc.marks c = pc'.marks c)
    (hcounts : pc.counts = pc'.counts) :
    Ledger s (pc' :: pcs) (ev ++ [.post .outputDone .success (some b)]) := by
  have hanswers := h.answers.answered hpc
  refine ⟨h.keyed, ⟨fun k => ?_, fun c => ?_, ?_⟩, hanswers.remove, fun c => ?_⟩
  · rw [countP_cons_toNat, ← hseeks, ← countP_cons_toNat]
    exact h.owners.inUse k
  · rw [countP_cons_toNat, ← hmarks, ← countP_cons_toNat]
    exact h.owners.idle c
  · rw [countP_cons_toNat, ← hcounts, ← countP_cons_toNat]
    exact h.owners.count
  · rw [countP_cons_toNat, hpc']
    exact hanswers.answer c

theorem Ledger.reportFind (h : Ledger s (.reportFind k :: pcs) ev) :
    Keeps pcs ev (nextPart s (.reportFind k)) := by
  have hk : 0 < s.held.count k + (Pc.reportFind k :: pcs).countP (Pc.seeks k) := by
    rw [List.countP_cons_of_pos (by simp [Pc.seeks])]
    omega
  obtain ⟨hne, b, hb, hfind, haddr, hst⟩ := h.find hk
  rw [nextPart, if_neg hne, hfind]
  exact ⟨_, _, _, rfl, h.report hb haddr hst⟩

theorem Ledger.reportCount (h : Ledger s (.reportCount :: pcs) ev) : Keeps pcs ev (nextPart s .reportCount) :=
  keeps_part
    (h.goesOn rfl rfl rfl (h.uncount rfl) (fun _ => rfl) (fun _ => rfl) (fun _ => rfl))

/-! ### Commands -/

/-- Commands leave the frames alone. -/
theorem command_frames (s : Chan) (c : Command) :
    (s.command c).1.yuvQueue = s.yuvQueue ∧ (s.command c).1.buf = s.buf ∧ (s.command c).1.held = s.held ∧
      (s.command c).1.yuvUseCnt = s.yuvUseCnt := by
  unfold Chan.command
  split
  · exact ⟨rfl, rfl, rfl, rfl⟩
  · cases c with
    | start d p r =>
      dsimp only [Chan.startInst]
      split_ifs <;> exact ⟨rfl, rfl, rfl, rfl⟩
    | stop d p =>
      dsimp only [Chan.stopInst]
      split_ifs <;> exact ⟨rfl, rfl, rfl, rfl⟩
    | pause =>
      dsimp only [Chan.pauseInst]
      split_ifs <;> exact ⟨rfl, rfl, rfl, rfl⟩
    | resume =>
      dsimp only [Chan.resumeInst]
      split_ifs <;> exact ⟨rfl, rfl, rfl, rfl⟩

theorem silent_done (code : Resp) (status : Status) (c : Command) (ret : BitVec 32) :
    Silent [.post code status none, .ret c ret] :=
  (silent_post code status).append (silent_single (by simp) (by simp) (by simp))

theorem command_silent (s : Chan) (c : Command) : Silent (s.command c).2.2 := by
  unfold Chan.command
  split
  · exact silent_nil
  · cases c with
    | start d p r =>
      dsimp only [Chan.startInst]
      split_ifs
      · exact silent_done _ _ _ _
      · exact silent_done _ _ _ _
      · exact silent_done _ _ _ _
      · exact silent_nil
    | stop d p =>
      dsimp only [Chan.stopInst]
      split_ifs <;> exact silent_done _ _ _ _
    | pause =>
      dsimp only [Chan.pauseInst]
      split_ifs
      · exact silent_done _ _ _ _
      · exact silent_done _ _ _ _
      · exact silent_nil
    | resume =>
      dsimp only [Chan.resumeInst]
      split_ifs
      · exact silent_done _ _ _ _
      · exact (silent_single (by simp) (by simp) (by simp)).append (silent_done _ _ _ _)
      · exact silent_done _ _ _ _

/-- A command goes on without a frame. -/
theorem command_free (s : Chan) (c : Command) : ∀ pc ∈ (s.command c).2.1, pc.Free := by
  have hone : ∀ {pc : Pc}, pc.Free → ∀ q ∈ [pc], q.Free := fun hpc q hq => by rwa [List.mem_singleton.mp hq]
  have hnil : ∀ q ∈ ([] : List Pc), q.Free := fun q hq => by cases hq
  unfold Chan.command
  split
  · exact hone (.of rfl)
  · cases c with
    | start d p r =>
      dsimp only [Chan.startInst]
      split_ifs
      · exact hnil
      · exact hnil
      · exact hnil
      · exact hone (.of rfl)
    | stop d p =>
      dsimp only [Chan.stopInst]
      split_ifs <;> exact hnil
    | pause =>
      dsimp only [Chan.pauseInst]
      split_ifs
      · exact hnil
      · exact hnil
      · exact hone (.of rfl)
    | resume =>
      dsimp only [Chan.resumeInst]
      split_ifs <;> exact hnil

theorem Ledger.command (h : Ledger s pcs ev) (c : Command) :
    Ledger (s.command c).1 ((s.command c).2.1 ++ pcs) (ev ++ (s.command c).2.2) := by
  obtain ⟨hq, hb, hh, hc⟩ := command_frames s c
  exact ((h.congr hq hb hh hc).frees (command_free s c)).silent (command_silent s c)

/-- A part of a call that holds no frame. -/
theorem Ledger.next_free (h : Ledger s pcs ev) (hpc : pc.holds = false) (hq : Quiet s pc) :
    Keeps pcs ev (nextPart s pc) := by
  cases pc with
  | getState n =>
    rw [nextPart]
    split
    · exact keeps_part (h.joins rfl)
    · split
      · exact keeps_end h
      · exact keeps_part (h.joins rfl)
  | getFlag n =>
    rw [nextPart]
    split
    · exact keeps_end h
    · exact keeps_part (h.joins rfl)
  | getList n => exact keeps_end (h.getList hq)
  | answer =>
    rw [nextPart]
    split
    · exact keeps_part (h.joins rfl)
    · exact keeps_end h
  | answerFlush =>
    rw [nextPart]
    split
    · exact keeps_silent [_] (h.joins rfl) (silent_post _ _)
    · exact keeps_part (h.joins rfl)
  | flushAnswered =>
    have hset : Ledger { s with outputFlushPending := false } pcs ev := h.congr rfl rfl rfl rfl
    exact keeps_part (hset.joins rfl)
  | answerPause =>
    rw [nextPart]
    split
    · exact keeps_silent [_] (h.joins rfl) (silent_post _ _)
    · exact keeps_end h
  | pauseAnswered => exact keeps_end (h.congr rfl rfl rfl rfl)
  | fillLookup d =>
    rw [nextPart]
    cases hlookup : s.lookupAddrTable d.phyaddr with
    | none => exact keeps_silent [] h (silent_post _ _)
    | some b => exact keeps_part ((h.setOffset (hq b hlookup)).joins rfl)
  | fillInsert b =>
    rw [nextPart]
    split
    · exact keeps_part (h.joins rfl)
    · rename_i hin
      have hin' : s.inYuvList b = false := by simpa using hin
      exact ⟨_, _, _, rfl, h.insert hin' (hq hin')⟩
  | fillReject => exact keeps_silent [] h (silent_post _ _)
  | flush => exact ⟨_, _, _, rfl, h.flushOutPort hq⟩
  | command c => exact ⟨_, _, _, rfl, h.command c⟩
  | startSet d p r =>
    rw [nextPart]
    split
    · exact keeps_part (h.joins rfl)
    · have hset : Ledger { s with state := .work } pcs ev := h.congr rfl rfl rfl rfl
      exact keeps_silent [] hset (silent_done _ _ _ _)
  | pauseSet =>
    have hset : Ledger { s with pausePending := true, chanLock := false } pcs ev := h.congr rfl rfl rfl rfl
    exact keeps_silent [] hset (silent_single (by simp) (by simp) (by simp))
  | _ => cases hpc

/-- **One part** of a call runs, and keeps the invariant. -/
theorem Ledger.next (h : Ledger s (pc :: pcs) ev) (hq : Quiet s pc) :
    Keeps pcs ev (nextPart s pc) := by
  cases pc with
  | releaseFind k => exact h.releaseFind
  | releaseCount b => exact h.releaseCount
  | releaseFlags b => exact h.releaseFlags
  | releaseDel b =>
    obtain ⟨hb, hdel⟩ := h.del
    rw [nextPart, if_pos hb]
    exact ⟨_, _, _, rfl, hdel⟩
  | releasePost b =>
    exact ⟨_, _, _, rfl, h.post (fun _ => rfl) (fun _ => rfl) (fun _ => rfl) (fun _ => rfl) rfl⟩
  | reportFind k => exact h.reportFind
  | reportPost b =>
    exact ⟨_, _, _, rfl, h.post (fun _ => rfl) (fun _ => rfl) (fun _ => rfl) (fun _ => rfl) rfl⟩
  | reportCount => exact h.reportCount
  | _ => exact ((Ledger.free (.of rfl)).mp h).next_free rfl hq

/-- The only part that may get stuck is the removal of a buffer that is not there. -/
theorem nextPart_isSome (hdel : ∀ b, pc = .releaseDel b → b ∈ s.yuvQueue) :
    ∃ r, nextPart s pc = some r := by
  cases pc with
  | releaseDel b => exact ⟨_, if_pos (hdel b rfl)⟩
  | releaseFind k =>
    rw [nextPart]
    split
    · exact ⟨_, rfl⟩
    · cases s.findAddr k <;> exact ⟨_, rfl⟩
  | releaseFlags b =>
    rw [nextPart]
    split <;> exact ⟨_, rfl⟩
  | reportFind k =>
    rw [nextPart]
    split
    · exact ⟨_, rfl⟩
    · cases s.findAddr k <;> exact ⟨_, rfl⟩
  | getState n =>
    rw [nextPart]
    split <;> exact ⟨_, rfl⟩
  | answerFlush =>
    rw [nextPart]
    split <;> exact ⟨_, rfl⟩
  | answerPause =>
    rw [nextPart]
    split <;> exact ⟨_, rfl⟩
  | startSet d p r =>
    rw [nextPart]
    split <;> exact ⟨_, rfl⟩
  | fillLookup d =>
    rw [nextPart]
    cases s.lookupAddrTable d.phyaddr <;> exact ⟨_, rfl⟩
  | fillInsert b =>
    rw [nextPart]
    split <;> exact ⟨_, rfl⟩
  | _ => exact ⟨_, rfl⟩

/-- VPSS gives the frame at address `k` back. -/
theorem Ledger.handBack (h : Ledger s pcs ev) (hk : k ∈ s.held)
    (hseeks : ∀ j, pc.seeks j = decide (k = j)) (hmarks : ∀ b, pc.marks b = false) (hcounts : pc.counts = true)
    (hanswers : ∀ b, pc.answers b = false) : Ledger { s with held := s.held.erase k } (pc :: pcs) ev := by
  have hlen := List.length_erase_of_mem hk
  have hpos := List.length_pos_of_mem hk
  refine ⟨⟨h.keyed.nodup, h.keyed.inj, h.keyed.nonzero⟩, ⟨fun j => ?_, fun b => ?_, ?_⟩, h.answers.remove,
    fun b => ?_⟩
  · have hold := h.owners.inUse j
    have herase := count_erase_add hk j
    rw [countP_cons_toNat, hseeks]
    dsimp only
    omega
  · rw [countP_cons_toNat, hmarks, Bool.toNat_false, Nat.add_zero]
    exact h.owners.idle b
  · have hold := h.owners.count
    rw [countP_cons_toNat, hcounts, Bool.toNat_true]
    dsimp only
    omega
  · rw [countP_cons_toNat, hanswers, Bool.toNat_false, Nat.add_zero]
    exact h.answers.answer b

/-- **A call** that begins keeps the invariant. -/
theorem Ledger.start {c : Call} (h : Ledger s pcs ev)
    (hstart : startCall s c = some (t, new, fs)) : Ledger t (new ++ pcs) (ev ++ fs) := by
  cases c with
  | getFrame n =>
    cases hstart
    rw [List.append_nil]
    exact h.joins rfl
  | releaseFrame k =>
    obtain ⟨held, hgive, heq⟩ := Option.map_eq_some_iff.mp hstart
    obtain ⟨hk, rfl⟩ := giveBack_eq_some hgive
    cases heq
    rw [List.append_nil]
    exact h.handBack hk (fun _ => rfl) (fun _ => rfl) rfl (fun _ => rfl)
  | reportFrame k =>
    obtain ⟨held, hgive, heq⟩ := Option.map_eq_some_iff.mp hstart
    obtain ⟨hk, rfl⟩ := giveBack_eq_some hgive
    cases heq
    rw [List.append_nil]
    exact h.handBack hk (fun _ => rfl) (fun _ => rfl) rfl (fun _ => rfl)
  | fillThisFrame d =>
    cases hstart
    rw [List.append_nil]
    exact h.joins rfl
  | flushOutPort =>
    cases hstart
    rw [List.append_nil]
    exact h.joins rfl
  | command c =>
    have heq : s.command c = (t, new, fs) := Option.some.inj hstart
    have hcommand := h.command c
    rwa [heq] at hcommand

variable {num : Nat} {phyAddr bufLen : Nat → BitVec 32} {acts : List (Act Call)} {σ : Threads Chan Pc}

theorem run_ledger
    (hrun : Run channel.step (Machine.cond anyCall Quiet) ⟨Chan.init num phyAddr bufLen, []⟩ acts σ ev) :
    Ledger σ.shared σ.pcs ev := by
  refine Machine.run_inv Ledger (fun hp h => h.perm hp) (init_ledger num phyAddr bufLen) ?_ ?_ hrun
  · exact fun s pcs ev c t new fs h _ hstart => h.start hstart
  · intro s pc pcs ev t new fs h hq hnext
    obtain ⟨t', new', fs', heq, hkeep⟩ := h.next hq
    change nextPart s pc = some (t, new, fs) at hnext
    rw [hnext] at heq
    cases heq
    exact hkeep

/-- **Every accepted buffer is answered once.** In every run of interleaved calls that meets `Quiet`, a buffer
    was accepted as often as it was taken off the list, and once more while it is on it; it was taken off as
    often as it was answered, and once more while a call is about to answer it. The counter has the frames that
    VPSS holds and those it is about to give back, and no call gets stuck. -/
theorem run_answers_once
    (hrun : Run channel.step (Machine.cond anyCall Quiet) ⟨Chan.init num phyAddr bufLen, []⟩ acts σ ev) :
    σ.shared.yuvQueue.Nodup ∧
    (∀ b, accepted b ev = removed b ev + if b ∈ σ.shared.yuvQueue then 1 else 0) ∧
    (∀ b, removed b ev = answered b ev + σ.pcs.countP (Pc.answers b)) ∧
    σ.shared.yuvUseCnt = σ.shared.held.length + σ.pcs.countP Pc.counts ∧
    ∀ n < σ.pcs.length, ∃ τ fs, channel.step σ (.sched n) = some (τ, fs) := by
  have h := run_ledger hrun
  refine ⟨h.keyed.nodup, fun b => ?_, h.answers.answer, h.owners.count, fun n hn => ?_⟩
  · rw [← h.keyed.nodup.count]
    exact h.answers.remove b
  · refine Machine.enabled (fun pc hpc => nextPart_isSome (fun b hb => ?_)) hn
    subst hb
    exact (h.marked (List.countP_pos_iff.mpr ⟨_, hpc, by simp [Pc.marks]⟩)).1

instance (s : Chan) : (pc : Pc) → Decidable (Quiet s pc)
  | .getList n => inferInstanceAs (Decidable (∀ b ∈ s.freeFrame n, _))
  | .flush => inferInstanceAs (Decidable (∀ b ∈ s.yuvQueue, _))
  | .fillLookup d => inferInstanceAs (Decidable (∀ b ∈ s.lookupAddrTable d.phyaddr, b ∈ s.yuvQueue → _ ∧ _))
  | .fillInsert b => inferInstanceAs (Decidable (s.inYuvList b = false → _))
  | .getState _ => isTrue trivial
  | .getFlag _ => isTrue trivial
  | .releaseFind _ => isTrue trivial
  | .releaseCount _ => isTrue trivial
  | .releaseFlags _ => isTrue trivial
  | .releaseDel _ => isTrue trivial
  | .releasePost _ => isTrue trivial
  | .reportFind _ => isTrue trivial
  | .reportPost _ => isTrue trivial
  | .reportCount => isTrue trivial
  | .answer => isTrue trivial
  | .answerFlush => isTrue trivial
  | .flushAnswered => isTrue trivial
  | .answerPause => isTrue trivial
  | .pauseAnswered => isTrue trivial
  | .fillReject => isTrue trivial
  | .command _ => isTrue trivial
  | .startSet .. => isTrue trivial
  | .pauseSet => isTrue trivial

instance (s : Chan) (c : Call) : Decidable (anyCall s c) := isTrue trivial

/-- Buffer `0` is released and queued again, taken again, and reported: it is answered once. -/
theorem run_answers_once_report :
    ∃ σ ev, Run channel.step (Machine.cond anyCall Quiet) twoBufs
        (fillAndGet ++ [.call (.releaseFrame 0x1000), .sched 0, .sched 0, .sched 0, .call (.getFrame 0x1000), .sched 0,
          .sched 0, .sched 0, .call (.reportFrame 0x1000), .sched 0, .sched 0, .sched 0, .sched 0, .sched 0, .sched 0])
        σ ev ∧
      accepted 0 ev = 1 ∧ answered 0 ev = 1 ∧ σ.shared.yuvUseCnt = 0 := by
  refine exists_run_imp (fun σ ev => σ.pcs = [] ∧ σ.shared.held = [] ∧ σ.shared.yuvQueue = [] ∧ accepted 0 ev = 1)
    (by decide) fun _ _ hrun htest => ?_
  obtain ⟨hpcs, hheld, hqueue, hacc⟩ := htest
  obtain ⟨-, hremove, hanswer, hcount, -⟩ := run_answers_once hrun
  have hrem := hremove 0
  have hans := hanswer 0
  rw [hqueue, if_neg List.not_mem_nil, hacc] at hrem
  rw [hpcs, List.countP_nil] at hans
  rw [hpcs, hheld] at hcount
  exact ⟨hacc, by omega, hcount⟩

/-- A flush meets a release: buffer `0` is removed and answered, and then the release is about to remove it once
    more. A get meets a release: VPSS gets the buffer that is being released, which is queued then, answered by a
    flush, and no more on the list when VPSS reports it; the counter stays. -/
theorem flush_and_get_meet_release :
    (∃ σ ev, Run channel.step always twoBufs
        (fillAndGet ++ [.call (.releaseFrame 0x1000), .sched 0, .call .flushOutPort, .sched 0, .sched 0,
          .sched 0]) σ ev ∧
      accepted 0 ev = 1 ∧ removed 0 ev = 1 ∧ answered 0 ev = 1 ∧ σ.pcs = [.releaseDel 0] ∧
      (channel.step σ (.sched 0)).isNone) ∧
    ∃ σ ev, Run channel.step always twoBufs
        (fillAndGet ++ [.call (.releaseFrame 0x1000), .sched 0, .call (.getFrame 0x1000), .sched 0, .sched 0,
          .sched 0, .sched 0, .sched 0, .call .flushOutPort, .sched 0, .call (.reportFrame 0x1000), .sched 0]) σ ev ∧
      σ.pcs = [] ∧ σ.shared.held = [] ∧ σ.shared.yuvUseCnt = 1 := by
  constructor
  · exact exists_run_of_decide (by decide)
  · exact exists_run_of_decide (by decide)

end HiSTB.Omxvdec.Channel
