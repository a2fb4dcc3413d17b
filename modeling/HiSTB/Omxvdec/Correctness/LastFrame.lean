import HiSTB.Omxvdec.Stream

/-!
# `Omxvdec.Correctness.LastFrame` — the flag and the entry for the end of the stream

`channel_empty_this_stream` reads `eos_in_list`, puts `last_frame` on `raw_queue` under the lock, and sets
`eos_in_list` after it. `InOrder` says that two calls do not do so at the same time, and that no other call ends
between the insertion and the store.

* `Agree.next` — one part of a call keeps the invariant;
* `run_lastFrame` — so does every run: after every call that ends, the flag says whether the entry is queued;
* `run_lastFrame_stuck` — the decoder is done with the entry before the flag is set.
-/

namespace HiSTB.Omxvdec.Stream

open Lib
open Channel (ChanState)

variable {σ : Threads Chan Pc}

/-! ## The condition -/

/-- A call that saw `eos_in_list = 0` and has not set it yet. -/
def Pc.pastTest : Pc → Bool
  | .emptyLast _ => true
  | .emptySetEos _ => true
  | _ => false

/-- A call between its insertion of `last_frame` and its store. -/
def Pc.inserted : Pc → Bool
  | .emptySetEos _ => true
  | _ => false

/-- Is the next part of a call its last? -/
def endsCall (s : Chan) (pc : Pc) : Bool := (nextPart s pc).any (fun r => r.2.1.isEmpty)

/-- May the call run its next part? A call that sees `eos_in_list = 0` waits for the calls past that test, and a
    call that ends waits for those between their insertion and their store. -/
def mayRun (s : Threads Chan Pc) (pc : Pc) : Bool :=
  match pc with
  | .emptySetEos _ => true
  | .emptyEos d =>
    if d.eos ∧ s.shared.eosInList = false then s.pcs.all (fun q => !q.pastTest)
    else s.pcs.all (fun q => !q.inserted)
  | pc => !endsCall s.shared pc || s.pcs.all (fun q => !q.inserted)

/-- **No two calls are past the test of `eos_in_list`, and no call ends while another one is between its
    insertion and its store.** -/
def InOrder (s : Threads Chan Pc) : Act Call → Prop
  | .call _ => True
  | .sched n => s.pcs[n]?.all (mayRun s) = true

instance (s : Threads Chan Pc) : (a : Act Call) → Decidable (InOrder s a)
  | .call _ => isTrue trivial
  | .sched _ => inferInstanceAs (Decidable (_ = true))

/-- The act is the last part of a call. -/
def Ends (s : Threads Chan Pc) : Act Call → Prop
  | .call _ => False
  | .sched n => ∃ pc, s.pcs[n]? = some pc ∧ endsCall s.shared pc

/-! ## The invariant -/

/-- **The flag, the entry and the calls in progress agree.** -/
structure Agree (s : Chan) (pcs : List Pc) : Prop where
  flagged : s.eosInList = true → .last ∈ s.rawQueue
  queued : .last ∈ s.rawQueue → s.eosInList = true ∨ ∃ pc ∈ pcs, pc.inserted = true
  window : ∀ pc ∈ pcs, pc.inserted = true → .last ∈ s.rawQueue
  once : s.rawQueue.count .last ≤ 1
  fresh : ∀ d, .emptyLast d ∈ pcs → .last ∉ s.rawQueue
  alone : pcs.countP Pc.pastTest ≤ 1

variable {s t : Chan} {pcs new : List Pc} {pc : Pc} {es : List Event}

theorem Agree.perm {pcs' : List Pc} (h : Agree s pcs) (hp : pcs.Perm pcs') : Agree s pcs' where
  flagged := h.flagged
  queued := fun hl => (h.queued hl).imp_right (fun ⟨pc, hpc, hi⟩ => ⟨pc, hp.mem_iff.mp hpc, hi⟩)
  window := fun pc hpc => h.window pc (hp.mem_iff.mpr hpc)
  once := h.once
  fresh := fun d hd => h.fresh d (hp.mem_iff.mpr hd)
  alone := hp.countP_eq Pc.pastTest ▸ h.alone

/-! ## What the parts do -/

/-- `last_frame` is left alone with its flag, or it is taken off and the flag is cleared. -/
structure Settles (s t : Chan) : Prop where
  once : t.rawQueue.count .last ≤ s.rawQueue.count .last
  same : (t.eosInList = s.eosInList ∧ (.last ∈ t.rawQueue ↔ .last ∈ s.rawQueue)) ∨
    (t.eosInList = false ∧ .last ∉ t.rawQueue)

theorem Settles.refl (s : Chan) : Settles s s := ⟨Nat.le_refl _, Or.inl ⟨rfl, Iff.rfl⟩⟩

theorem Settles.trans {u : Chan} (h : Settles s t) (h' : Settles t u) : Settles s u := by
  refine ⟨Nat.le_trans h'.once h.once, ?_⟩
  rcases h'.same with ⟨heos, hmem⟩ | hoff
  · rw [heos, hmem]
    exact h.same
  · exact Or.inr hoff

theorem Settles.of_eq (heos : t.eosInList = s.eosInList) (hq : t.rawQueue = s.rawQueue) : Settles s t :=
  ⟨Nat.le_of_eq (by rw [hq]), Or.inl ⟨heos, by rw [hq]⟩⟩

/-- An entry is taken off and answered. -/
theorem answer_settles (hone : s.rawQueue.count .last ≤ 1) (r : Raw) :
    Settles s (((s.setStatus r .idle).listDel r).answer r).1 := by
  cases r with
  | input i =>
    have hq : ((((s.setStatus (.input i) .idle).listDel (.input i)).answer (.input i)).1).rawQueue =
        s.rawQueue.erase (.input i) := rfl
    refine ⟨?_, Or.inl ⟨rfl, ?_⟩⟩
    · rw [hq]
      exact (List.erase_sublist).count_le _
    · rw [hq]
      exact List.mem_erase_of_ne (by simp)
  | last =>
    have hq : ((((s.setStatus .last .idle).listDel .last).answer .last).1).rawQueue = s.rawQueue.erase .last := rfl
    have hcount : (s.rawQueue.erase .last).count .last = s.rawQueue.count .last - 1 := List.count_erase_self
    refine ⟨?_, Or.inr ⟨rfl, ?_⟩⟩
    · rw [hq, hcount]
      exact Nat.sub_le _ _
    · rw [hq, ← List.count_eq_zero, hcount]
      omega

theorem endRelease_settles (s : Chan) : Settles s s.endRelease.1 := by
  unfold Chan.endRelease
  dsimp only
  split <;> exact Settles.of_eq rfl rfl

theorem releaseStream_settles (hone : s.rawQueue.count .last ≤ 1) (k : BitVec 32) :
    Settles s (s.releaseStream k).1 := by
  unfold Chan.releaseStream
  split
  · exact Settles.refl s
  · rename_i r _
    exact (answer_settles hone r).trans (endRelease_settles _)

theorem flushLoop_settles (hone : s.rawQueue.count .last ≤ 1) (rs : List Raw) :
    Settles s (s.flushLoop rs).1 := by
  induction rs generalizing s with
  | nil => exact Settles.refl s
  | cons r rs ih =>
    rw [Chan.flushLoop]
    split
    · exact ih hone
    · have hr := answer_settles hone r
      exact hr.trans (ih (Nat.le_trans hr.once hone))

theorem flushInPort_settles (hone : s.rawQueue.count .last ≤ 1) : Settles s s.flushInPort.1 := by
  have hloop := flushLoop_settles hone s.rawQueue
  unfold Chan.flushInPort
  dsimp only
  split
  · exact hloop.trans (Settles.of_eq rfl rfl)
  · exact hloop

theorem getStream_settles (s : Chan) : Settles s s.getStream := by
  unfold Chan.getStream
  split
  · exact Settles.refl s
  · split
    · exact Settles.refl s
    · exact Settles.of_eq rfl rfl

/-- The parts of `channel_empty_this_stream` about `last_frame`. -/
def Pc.aboutLast : Pc → Bool
  | .emptyEos _ => true
  | .emptyLast _ => true
  | .emptySetEos _ => true
  | _ => false

/-- A part that is not about `last_frame`: where the call goes on, nothing became of the entry. -/
theorem nextPart_settles (hone : s.rawQueue.count .last ≤ 1) (hpc : pc.aboutLast = false)
    (hnext : nextPart s pc = some (t, new, es)) : Settles s t ∧ (∀ q ∈ new, q.pastTest = false) ∧
      (new ≠ [] → t.eosInList = s.eosInList ∧ (.last ∈ t.rawQueue ↔ .last ∈ s.rawQueue)) := by
  cases pc with
  | emptyLookup d =>
    rw [nextPart] at hnext
    split at hnext
    · split at hnext <;> cases hnext
      · exact ⟨Settles.refl s, by simp, fun hne => absurd rfl hne⟩
      · exact ⟨Settles.of_eq rfl rfl, by simp [Pc.pastTest], fun _ => ⟨rfl, Iff.rfl⟩⟩
    · cases hnext
      exact ⟨Settles.refl s, by simp [Pc.pastTest], fun _ => ⟨rfl, Iff.rfl⟩⟩
  | emptyInsert i d =>
    rw [nextPart] at hnext
    split at hnext <;> cases hnext
    · exact ⟨Settles.refl s, by simp [Pc.pastTest], fun _ => ⟨rfl, Iff.rfl⟩⟩
    · have hmem : Raw.last ∈ s.rawQueue ++ [Raw.input i] ↔ Raw.last ∈ s.rawQueue := by simp
      have hcount : (s.rawQueue ++ [Raw.input i]).count .last = s.rawQueue.count .last := by simp
      exact ⟨⟨Nat.le_of_eq hcount, Or.inl ⟨rfl, hmem⟩⟩, by simp [Pc.pastTest], fun _ => ⟨rfl, hmem⟩⟩
  | emptyReject =>
    cases hnext
    exact ⟨Settles.refl s, by simp, fun hne => absurd rfl hne⟩
  | emptyEos d => cases hpc
  | emptyLast d => cases hpc
  | emptySetEos d => cases hpc
  | getState =>
    cases hnext
    refine ⟨Settles.refl s, ?_, fun _ => ⟨rfl, Iff.rfl⟩⟩
    intro q hq
    split at hq
    · exact absurd hq List.not_mem_nil
    · rw [List.mem_singleton.mp hq]
      rfl
  | getList =>
    cases hnext
    exact ⟨getStream_settles s, by simp, fun hne => absurd rfl hne⟩
  | release k =>
    cases hnext
    exact ⟨releaseStream_settles hone k, by simp, fun hne => absurd rfl hne⟩
  | flush =>
    cases hnext
    exact ⟨flushInPort_settles hone, by simp, fun hne => absurd rfl hne⟩

/-! ## One part of a call -/

/-- What the condition says for the call `pc` that runs beside the others. -/
structure Ordered (s : Chan) (pc : Pc) (pcs new : List Pc) : Prop where
  test : ∀ d, pc = .emptyEos d → d.eos ∧ s.eosInList = false → ∀ q ∈ pcs, q.pastTest = false
  ends : pc.inserted = false → new = [] → ∀ q ∈ pcs, q.inserted = false

theorem Pc.pastTest_of_inserted {q : Pc} (h : q.inserted = true) : q.pastTest = true := by
  cases q with
  | emptySetEos d => rfl
  | _ => cases h

/-- Where no call is in the window, the flag says whether the entry is queued. -/
theorem Agree.iff (h : Agree s pcs) (hno : ∀ q ∈ pcs, q.inserted = false) :
    s.eosInList = true ↔ .last ∈ s.rawQueue := by
  refine ⟨h.flagged, fun hl => (h.queued hl).resolve_right ?_⟩
  rintro ⟨q, hq, hi⟩
  rw [hno q hq] at hi
  cases hi

/-- What settles the entry settles what the flag says. -/
theorem Settles.iff (h : Settles s t) (hs : s.eosInList = true ↔ .last ∈ s.rawQueue) :
    t.eosInList = true ↔ .last ∈ t.rawQueue := by
  rcases h.same with ⟨heos, hmem⟩ | ⟨heos, hoff⟩
  · rw [heos, hmem]
    exact hs
  · rw [heos]
    exact iff_of_false Bool.false_ne_true hoff

/-- The call that runs is not past the test. -/
theorem Agree.others (h : Agree s (pc :: pcs)) (hpc : pc.pastTest = false) : Agree s pcs := by
  have hi : pc.inserted = false := by
    by_contra hi
    rw [Bool.not_eq_false] at hi
    rw [Pc.pastTest_of_inserted hi] at hpc
    cases hpc
  refine ⟨h.flagged, ?_, fun q hq => h.window q (List.mem_cons_of_mem pc hq), h.once,
    fun d hd => h.fresh d (List.mem_cons_of_mem pc hd), ?_⟩
  · intro hl
    refine (h.queued hl).imp_right ?_
    rintro ⟨q, hq, hqi⟩
    rcases List.mem_cons.mp hq with rfl | hq
    · rw [hi] at hqi
      cases hqi
    · exact ⟨q, hq, hqi⟩
  · have halone := h.alone
    rw [List.countP_cons_of_neg (by rw [hpc]; exact Bool.false_ne_true)] at halone
    exact halone

/-- Calls that are not past the test make no difference. -/
theorem Agree.append (h : Agree s pcs) (hnew : ∀ q ∈ new, q.pastTest = false) : Agree s (new ++ pcs) := by
  have hne : ∀ q ∈ new, ∀ r : Pc, r.pastTest = true → q ≠ r := by
    rintro q hq r hr rfl
    rw [hnew q hq] at hr
    cases hr
  refine ⟨h.flagged, ?_, ?_, h.once, ?_, ?_⟩
  · exact fun hl => (h.queued hl).imp_right (fun ⟨q, hq, hi⟩ => ⟨q, List.mem_append_right new hq, hi⟩)
  · intro q hq hi
    rcases List.mem_append.mp hq with hq | hq
    · exact absurd rfl (hne q hq q (Pc.pastTest_of_inserted hi))
    · exact h.window q hq hi
  · intro d hd
    rcases List.mem_append.mp hd with hd | hd
    · exact absurd rfl (hne _ hd (.emptyLast d) rfl)
    · exact h.fresh d hd
  · have hzero : new.countP Pc.pastTest = 0 := by
      rw [List.countP_eq_zero]
      intro q hq
      rw [hnew q hq]
      exact Bool.false_ne_true
    rw [List.countP_append, hzero, Nat.zero_add]
    exact h.alone

/-- The entry stays, or is taken off while no call is in the window. -/
theorem Agree.settles (h : Agree s pcs) (hst : Settles s t)
    (hopen : (∃ q ∈ pcs, q.inserted = true) → t.eosInList = s.eosInList ∧ (.last ∈ t.rawQueue ↔ .last ∈ s.rawQueue)) :
    Agree t pcs := by
  by_cases hwin : ∃ q ∈ pcs, q.inserted = true
  · obtain ⟨heos, hmem⟩ := hopen hwin
    refine ⟨?_, fun _ => Or.inr hwin, ?_, Nat.le_trans hst.once h.once, ?_, h.alone⟩
    · rw [heos, hmem]
      exact h.flagged
    · intro q hq hi
      exact hmem.mpr (h.window q hq hi)
    · intro d hd hl
      exact h.fresh d hd (hmem.mp hl)
  · have hno : ∀ q ∈ pcs, q.inserted = false := by
      intro q hq
      by_contra hi
      exact hwin ⟨q, hq, (Bool.not_eq_false _).mp hi⟩
    have hiff := hst.iff (h.iff hno)
    refine ⟨hiff.mp, fun hl => Or.inl (hiff.mpr hl), ?_, Nat.le_trans hst.once h.once, ?_, h.alone⟩
    · intro q hq hi
      rw [hno q hq] at hi
      cases hi
    · intro d hd hl
      rcases hst.same with ⟨_, hmem⟩ | ⟨_, hoff⟩
      · exact h.fresh d hd (hmem.mp hl)
      · exact hoff hl

/-- **One part of a call keeps the agreement**, and where the call ends, the flag says whether the entry is
    queued. -/
theorem Agree.next (h : Agree s (pc :: pcs)) (hord : Ordered s pc pcs new)
    (hnext : nextPart s pc = some (t, new, es)) :
    Agree t (new ++ pcs) ∧ (new = [] → (t.eosInList = true ↔ .last ∈ t.rawQueue)) := by
  by_cases hpc : pc.aboutLast = false
  · have hpast : pc.pastTest = false := by
      cases pc with
      | emptyLast d => cases hpc
      | emptySetEos d => cases hpc
      | _ => rfl
    have hins : pc.inserted = false := by
      cases pc with
      | emptySetEos d => cases hpc
      | _ => rfl
    obtain ⟨hst, hnew, hgoes⟩ := nextPart_settles h.once hpc hnext
    have hothers := h.others hpast
    refine ⟨(hothers.settles hst ?_).append hnew, fun hnil => hst.iff (hothers.iff (hord.ends hins hnil))⟩
    rintro ⟨q, hq, hi⟩
    refine hgoes (fun hnil => ?_)
    rw [hord.ends hins hnil q hq] at hi
    cases hi
  · cases pc with
    | emptyEos d =>
      have hothers := h.others rfl
      rw [nextPart] at hnext
      split at hnext <;> cases hnext
      · rename_i htest
        have hclear := hord.test d rfl htest
        have hno : ∀ q ∈ pcs, q.inserted = false := by
          intro q hq
          by_contra hi
          have hp := Pc.pastTest_of_inserted ((Bool.not_eq_false _).mp hi)
          rw [hclear q hq] at hp
          cases hp
        have hoff : Raw.last ∉ s.rawQueue := by
          rw [← hothers.iff hno, htest.2]
          exact Bool.false_ne_true
        refine ⟨⟨h.flagged, fun hl => absurd hl hoff, ?_, h.once, fun _ _ => hoff, ?_⟩, fun hnil => ?_⟩
        · intro q hq hi
          rcases List.mem_append.mp hq with hq | hq
          · rw [List.mem_singleton.mp hq] at hi
            cases hi
          · rw [hno q hq] at hi
            cases hi
        · have hzero : pcs.countP Pc.pastTest = 0 := by
            rw [List.countP_eq_zero]
            intro q hq
            rw [hclear q hq]
            exact Bool.false_ne_true
          rw [List.countP_append, hzero]
          exact Nat.le_refl 1
        · cases hnil
      · exact ⟨hothers, fun _ => hothers.iff (hord.ends rfl rfl)⟩
    | emptyLast d =>
      have hoff := h.fresh d List.mem_cons_self
      have halone := h.alone
      rw [List.countP_cons_of_pos (by rfl)] at halone
      have hnone : ∀ q ∈ pcs, q.pastTest = false := by
        intro q hq
        by_contra hp
        have hpos := List.countP_pos_iff.mpr ⟨q, hq, (Bool.not_eq_false _).mp hp⟩
        omega
      rw [nextPart, if_neg hoff] at hnext
      cases hnext
      have hin : Raw.last ∈ s.rawQueue ++ [Raw.last] := by simp
      refine ⟨⟨fun _ => hin, fun _ => Or.inr ⟨.emptySetEos d, by simp, rfl⟩, fun _ _ _ => hin, ?_, ?_, ?_⟩, ?_⟩
      · show (s.rawQueue ++ [Raw.last]).count .last ≤ 1
        rw [List.count_append, List.count_eq_zero.mpr hoff]
        exact Nat.le_refl 1
      · intro d' hd
        rcases List.mem_append.mp hd with hd | hd
        · cases List.mem_singleton.mp hd
        · have hp := hnone _ hd
          cases hp
      · rw [List.countP_append, Nat.add_comm]
        exact halone
      · exact fun hnil => by cases hnil
    | emptySetEos d =>
      have hin := h.window _ List.mem_cons_self rfl
      cases hnext
      have halone := h.alone
      rw [List.countP_cons_of_pos (by rfl)] at halone
      refine ⟨⟨fun _ => hin, fun _ => Or.inl rfl, fun _ _ _ => hin, h.once,
        fun d' hd => h.fresh d' (List.mem_cons_of_mem _ hd), ?_⟩, fun _ => iff_of_true rfl hin⟩
      exact Nat.le_of_succ_le halone
    | _ => exact absurd rfl hpc

/-! ## Runs -/

/-- The condition on acts, for the call that runs. -/
theorem InOrder.ordered {n : Nat} (h : InOrder σ (.sched n)) (hpc : σ.pcs[n]? = some pc)
    (hnext : nextPart σ.shared pc = some (t, new, es)) : Ordered σ.shared pc (σ.pcs.eraseIdx n) new := by
  have hall : ∀ f : Pc → Bool, σ.pcs.all (fun q => !f q) = true → ∀ q ∈ σ.pcs.eraseIdx n, f q = false := by
    intro f hf q hq
    have hq' := List.all_eq_true.mp hf q ((List.eraseIdx_sublist _ n).subset hq)
    simpa using hq'
  have hmay : mayRun σ pc = true := by
    have h' : σ.pcs[n]?.all (mayRun σ) = true := h
    rw [hpc] at h'
    exact h'
  refine ⟨?_, ?_⟩
  · rintro d rfl htest
    rw [mayRun, if_pos htest] at hmay
    exact hall Pc.pastTest hmay
  · rintro hins rfl
    have hends : endsCall σ.shared pc = true := by
      unfold endsCall
      rw [hnext]
      rfl
    cases pc with
    | emptySetEos d => cases hins
    | emptyEos d =>
      rw [mayRun] at hmay
      split at hmay
      · -- a call past the test has not ended
        rename_i htest
        rw [nextPart, if_pos htest] at hnext
        cases hnext
      · exact hall Pc.inserted hmay
    | _ =>
      refine hall Pc.inserted ?_
      simpa [mayRun, hends] using hmay

end HiSTB.Omxvdec.Stream
