import HiSTB.Lib.Tally
import HiSTB.Omxvdec.Channel

/-!
# `Omxvdec.Correctness.Commands` — the responses to the commands

A pause that finds frames in use leaves its response to the last of them. `channel_resume_inst` takes such a
pause back without a response. `channel_stop_inst` returns success whenever it stopped the channel, and leaves it
to the response to say that decoder or processor failed.

`channel_pause_inst` holds `chan_lock`, and a frame that is given back holds none: the frame can be counted and have
looked at `pause_pending` before the pause sets it. `Calm` excludes this, and that a second call meets a pause that is
being answered.

* `Waiting` — the invariant: what the pauses so far came to, and that a pending one has a frame to wait for;
* `nextPart_passes` — what a part does that decides nothing about a command;
* `Waiting.next`, `Waiting.command` — a part of a call keeps it;
* `run_responses` — in every run; with what a command returns;
* `pause_taken_back_and_stop_failed` — the two ways in which return value and response go apart, and a pause that
  gets no response.
-/

namespace HiSTB.Omxvdec.Channel

open Lib

variable {pcs' : List Pc} {c : Command} {st : Status} {ret d p : BitVec 32}

/-- The response of a command. -/
def Command.resp : Command → Resp
  | .start .. => .startDone
  | .stop .. => .stopDone
  | .pause => .pauseDone
  | .resume => .resumeDone

/-- The state that a command leads to. -/
def Command.target : Command → ChanState
  | .start .. => .work
  | .stop .. => .idle
  | .pause => .pause
  | .resume => .work

/-- The response of a command, and not of a buffer or of a flush. -/
def Resp.toCommand : Resp → Bool
  | .flushOutputDone => false
  | .outputDone => false
  | _ => true

/-- A command with response `k` has returned. -/
def Event.returns (k : Resp) : Event → Bool
  | .ret c _ => c.resp = k
  | _ => false

/-- A response `k` was posted. -/
def Event.posts (k : Resp) : Event → Bool
  | .post code _ _ => code = k
  | _ => false

/-- The commands with response `k` so far. -/
def returns (k : Resp) (ev : List Event) : Nat := ev.countP (Event.returns k)

/-- The responses `k` so far. -/
def posts (k : Resp) (ev : List Event) : Nat := ev.countP (Event.posts k)

/-- The pauses that were taken back. -/
def cancelled (ev : List Event) : Nat := ev.count .cancel

/-- A condition on a part of a call, with the calls in progress:
    a resume does not meet a pause that is being answered, nor does another frame;
    a pause does not find another one pending when it sets `pause_pending`;
    no frame looks at `pause_pending` for the last time when the count is 0 and a pause is about to set it. -/
def Before (σ : Threads Chan Pc) : Pc → Prop
  | .command .resume => σ.shared.state = .pause → Pc.pauseAnswered ∉ σ.pcs
  | .pauseSet => σ.shared.pausePending = false
  | .releaseFlags _ => σ.shared.chanLock = true → σ.shared.yuvUseCnt = 0 →
      σ.shared.outputFlushPending = true ∨ σ.shared.pausePending = true
  | .answerPause => (σ.shared.chanLock = true → σ.shared.yuvUseCnt ≠ 0) ∧ Pc.pauseAnswered ∉ σ.pcs
  | _ => True

/-- The condition on an act. -/
def Calm (σ : Threads Chan Pc) : Act Call → Prop
  | .call (.command c) => Before σ (.command c)
  | .call _ => True
  | .sched n => ∀ pc, σ.pcs[n]? = some pc → Before σ pc

/-! ## The invariant -/

/-- The frame is counted, and the call is to look at `pause_pending`. -/
def Pc.looks : Pc → Bool
  | .releaseFlags _ => true
  | .releaseDel _ => true
  | .releasePost _ => true
  | .answer => true
  | .answerFlush => true
  | .flushAnswered => true
  | .answerPause => true
  | _ => false

/-- The call has answered a pause, and is to clear `pause_pending`. -/
def Pc.clears : Pc → Bool
  | .pauseAnswered => true
  | _ => false

/-- The call has `chan_lock`. -/
def Pc.locks : Pc → Bool
  | .pauseSet => true
  | _ => false

/-- The invariant. -/
structure Waiting (s : Chan) (pcs : List Pc) (ev : List Event) : Prop where
  balance : returns .pauseDone ev + pcs.countP Pc.clears = posts .pauseDone ev + s.pausePending.toNat + cancelled ev
  others : ∀ k, k.toCommand = true → k ≠ .pauseDone → returns k ev = posts k ev
  clears : pcs.countP Pc.clears ≤ s.pausePending.toNat
  lock : pcs.countP Pc.locks = s.chanLock.toNat
  locked : s.chanLock = true → s.state = .pause
  frame : s.pausePending = true → 0 < s.yuvUseCnt ∨ 0 < pcs.countP Pc.looks ∨ 0 < pcs.countP Pc.clears
  lockFrame : s.chanLock = true → 0 < s.yuvUseCnt ∨ 0 < pcs.countP Pc.looks

variable {s t : Chan} {pcs new : List Pc} {ev fs : List Event} {pc : Pc} {b : Nat} {k : Resp}

theorem returns_append (k : Resp) (ev fs : List Event) : returns k (ev ++ fs) = returns k ev + returns k fs :=
  List.countP_append

theorem posts_append (k : Resp) (ev fs : List Event) : posts k (ev ++ fs) = posts k ev + posts k fs :=
  List.countP_append

theorem cancelled_append (ev fs : List Event) : cancelled (ev ++ fs) = cancelled ev + cancelled fs :=
  List.count_append

/-- The event is about a command. -/
def Event.isCommand : Event → Bool
  | .ret .. => true
  | .cancel => true
  | .post code _ _ => code.toCommand
  | _ => false

/-- The events are about buffers and flushes. -/
def Aside (fs : List Event) : Prop := ∀ e ∈ fs, e.isCommand = false

theorem aside_nil : Aside [] := fun e he => by cases he

theorem aside_single {e : Event} (h : e.isCommand = false) : Aside [e] :=
  fun e' he => by rwa [List.mem_singleton.mp he]

theorem Aside.returns (h : Aside fs) (k : Resp) : returns k fs = 0 := by
  refine List.countP_eq_zero.mpr (fun e he hk => ?_)
  have hside := h e he
  cases e with
  | ret c r => cases hside
  | _ => cases hk

theorem Aside.posts (h : Aside fs) (hk : k.toCommand = true) : posts k fs = 0 := by
  refine List.countP_eq_zero.mpr (fun e he hpost => ?_)
  have hside := h e he
  cases e with
  | post code st b =>
    obtain rfl := of_decide_eq_true hpost
    rw [Event.isCommand, hk] at hside
    cases hside
  | _ => cases hpost

theorem Aside.cancelled (h : Aside fs) : cancelled fs = 0 :=
  List.count_eq_zero.mpr (fun hmem => by cases h _ hmem)

/-- What a step does to the accounts. -/
structure Settles (s t : Chan) (clears clears' : Nat) (fs : List Event) : Prop where
  pause : returns .pauseDone fs + clears' + s.pausePending.toNat =
    posts .pauseDone fs + t.pausePending.toNat + cancelled fs + clears
  others : ∀ k, k.toCommand = true → k ≠ .pauseDone → returns k fs = posts k fs

theorem Aside.settles (h : Aside fs) (hpend : t.pausePending = s.pausePending) (n : Nat) : Settles s t n n fs := by
  refine ⟨?_, fun k hk _ => ?_⟩
  · rw [h.returns, h.posts rfl, h.cancelled, hpend]
    omega
  · rw [h.returns, h.posts hk]

theorem Waiting.settles (h : Waiting s pcs ev)
    (hset : Settles s t (pcs.countP Pc.clears) (pcs'.countP Pc.clears) fs) :
    returns .pauseDone (ev ++ fs) + pcs'.countP Pc.clears =
        posts .pauseDone (ev ++ fs) + t.pausePending.toNat + cancelled (ev ++ fs) ∧
      ∀ k, k.toCommand = true → k ≠ .pauseDone → returns k (ev ++ fs) = posts k (ev ++ fs) := by
  have hold := h.balance
  have hnew := hset.pause
  refine ⟨?_, fun k hk hne => ?_⟩
  · rw [returns_append, posts_append, cancelled_append]
    omega
  · rw [returns_append, posts_append, h.others k hk hne, hset.others k hk hne]

/-! ## Parts -/

theorem flushLoop_keeps (s : Chan) (bs : List Nat) :
    (s.flushLoop bs).1.pausePending = s.pausePending ∧ (s.flushLoop bs).1.chanLock = s.chanLock ∧
      (s.flushLoop bs).1.state = s.state ∧ (s.flushLoop bs).1.yuvUseCnt = s.yuvUseCnt ∧ Aside (s.flushLoop bs).2 := by
  induction bs generalizing s with
  | nil => exact ⟨rfl, rfl, rfl, rfl, aside_nil⟩
  | cons b bs ih =>
    unfold Chan.flushLoop
    split
    · exact ih s
    · obtain ⟨h₁, h₂, h₃, h₄, haside⟩ := ih ((s.setStatus b .idle).listDel b)
      refine ⟨h₁, h₂, h₃, h₄, fun e he => ?_⟩
      rcases List.mem_cons.mp he with rfl | he
      · rfl
      · rcases List.mem_cons.mp he with rfl | he
        · rfl
        · exact haside e he

theorem flushOutPort_keeps (s : Chan) :
    s.flushOutPort.1.pausePending = s.pausePending ∧ s.flushOutPort.1.chanLock = s.chanLock ∧
      s.flushOutPort.1.state = s.state ∧ s.flushOutPort.1.yuvUseCnt = s.yuvUseCnt ∧ Aside s.flushOutPort.2 := by
  obtain ⟨hpend, hlock, hstate, hcnt, haside⟩ := flushLoop_keeps s s.yuvQueue
  unfold Chan.flushOutPort
  dsimp only
  split
  · exact ⟨hpend, hlock, hstate, hcnt, haside⟩
  · refine ⟨hpend, hlock, hstate, hcnt, fun e he => ?_⟩
    rcases List.mem_append.mp he with he | he
    · exact haside e he
    · rw [List.mem_singleton.mp he]
      rfl

theorem getFrame_keeps (s : Chan) (n : BitVec 32) :
    (s.getFrame n).pausePending = s.pausePending ∧ (s.getFrame n).chanLock = s.chanLock ∧
      (s.getFrame n).state = s.state ∧ s.yuvUseCnt ≤ (s.getFrame n).yuvUseCnt := by
  unfold Chan.getFrame
  split
  · exact ⟨rfl, rfl, rfl, Nat.le_refl _⟩
  · exact ⟨rfl, rfl, rfl, Nat.le_succ _⟩

/-- What a part does that decides nothing about a command: what it is to look at is still to come, or no frame waits
    for it. -/
structure Passes (s : Chan) (pc : Pc) (t : Chan) (new : List Pc) (fs : List Event) : Prop where
  pend : t.pausePending = s.pausePending
  lock : t.chanLock = s.chanLock
  state : t.state = s.state
  count : s.yuvUseCnt ≤ t.yuvUseCnt ∨ 0 < new.countP Pc.looks
  looks : pc.looks = true → 0 < new.countP Pc.looks ∨ 0 < t.yuvUseCnt
  clears : new.countP Pc.clears = pc.clears.toNat
  locks : new.countP Pc.locks = pc.locks.toNat
  aside : Aside fs

/-- The part neither looks nor writes anything that a command reads. -/
theorem Passes.away (hpend : t.pausePending = s.pausePending)
    (hlock : t.chanLock = s.chanLock) (hstate : t.state = s.state) (hcnt : s.yuvUseCnt ≤ t.yuvUseCnt)
    (hpc : pc.looks = false) (hclears : new.countP Pc.clears = pc.clears.toNat)
    (hlocks : new.countP Pc.locks = pc.locks.toNat) (hfs : Aside fs) : Passes s pc t new fs :=
  ⟨hpend, hlock, hstate, .inl hcnt, fun hl => absurd (hpc ▸ hl) Bool.false_ne_true, hclears, hlocks, hfs⟩

/-- The part goes on to look. -/
theorem Passes.goesOn {pc' : Pc} (hpend : t.pausePending = s.pausePending)
    (hlock : t.chanLock = s.chanLock) (hstate : t.state = s.state) (hpc' : pc'.looks = true)
    (hclears : pc'.clears = pc.clears) (hlocks : pc'.locks = pc.locks) (hfs : Aside fs) :
    Passes s pc t [pc'] fs := by
  have hlooks : 0 < [pc'].countP Pc.looks := by
    rw [List.countP_cons_of_pos hpc']
    exact Nat.succ_pos _
  refine ⟨hpend, hlock, hstate, .inr hlooks, fun _ => .inl hlooks, ?_, ?_, hfs⟩
  · rw [countP_cons_toNat, hclears]
    exact Nat.zero_add _
  · rw [countP_cons_toNat, hlocks]
    exact Nat.zero_add _

/-- The parts that decide about a pause, or belong to a command. -/
def Pc.decides : Pc → Bool
  | .releaseFlags _ => true
  | .answerPause => true
  | .pauseAnswered => true
  | .command _ => true
  | .startSet .. => true
  | .pauseSet => true
  | _ => false

/-- All other parts leave the commands alone. -/
theorem nextPart_passes (hpc : pc.decides = false) (hnext : nextPart s pc = some (t, new, fs)) :
    Passes s pc t new fs := by
  -- a part that leaves the channel alone
  have hsame : ∀ {new fs}, pc.looks = false → new.countP Pc.clears = pc.clears.toNat →
      new.countP Pc.locks = pc.locks.toNat → Aside fs → Passes s pc s new fs :=
    fun hl hc hk hfs => .away rfl rfl rfl (Nat.le_refl _) hl hc hk hfs
  cases pc with
  | getState n =>
    rw [nextPart] at hnext
    split at hnext
    · cases hnext
      exact hsame rfl rfl rfl aside_nil
    · cases hnext
      split <;> exact hsame rfl rfl rfl aside_nil
  | getFlag n =>
    cases hnext
    split <;> exact hsame rfl rfl rfl aside_nil
  | getList n =>
    cases hnext
    obtain ⟨hpend, hlock, hstate, hcnt⟩ := getFrame_keeps s n
    exact .away hpend hlock hstate hcnt rfl rfl rfl aside_nil
  | releaseFind k =>
    rw [nextPart] at hnext
    split at hnext
    · cases hnext
      exact hsame rfl rfl rfl aside_nil
    · split at hnext
      · cases hnext
        exact hsame rfl rfl rfl aside_nil
      · cases hnext
        exact .away rfl rfl rfl (Nat.le_refl _) rfl rfl rfl aside_nil
  | releaseCount b =>
    cases hnext
    exact .goesOn rfl rfl rfl rfl rfl rfl aside_nil
  | releaseDel b =>
    rw [nextPart] at hnext
    split at hnext
    · cases hnext
      exact .goesOn rfl rfl rfl rfl rfl rfl (aside_single rfl)
    · cases hnext
  | releasePost b =>
    cases hnext
    exact .goesOn rfl rfl rfl rfl rfl rfl (aside_single rfl)
  | reportFind k =>
    rw [nextPart] at hnext
    split at hnext
    · cases hnext
      exact hsame rfl rfl rfl aside_nil
    · split at hnext
      · cases hnext
        exact hsame rfl rfl rfl aside_nil
      · cases hnext
        exact .away rfl rfl rfl (Nat.le_refl _) rfl rfl rfl (aside_single rfl)
  | reportPost b =>
    cases hnext
    exact hsame rfl rfl rfl (aside_single rfl)
  | reportCount =>
    cases hnext
    exact .goesOn rfl rfl rfl rfl rfl rfl aside_nil
  | answer =>
    cases hnext
    split
    · exact .goesOn rfl rfl rfl rfl rfl rfl aside_nil
    · -- another frame is in use
      exact ⟨rfl, rfl, rfl, .inl (Nat.le_refl _), fun _ => .inr (Nat.pos_of_ne_zero (by assumption)), rfl, rfl,
        aside_nil⟩
  | answerFlush =>
    rw [nextPart] at hnext
    split at hnext
    · cases hnext
      exact .goesOn rfl rfl rfl rfl rfl rfl (aside_single rfl)
    · cases hnext
      exact .goesOn rfl rfl rfl rfl rfl rfl aside_nil
  | flushAnswered =>
    cases hnext
    exact .goesOn rfl rfl rfl rfl rfl rfl aside_nil
  | fillLookup d =>
    rw [nextPart] at hnext
    split at hnext
    · cases hnext
      exact hsame rfl rfl rfl (aside_single rfl)
    · cases hnext
      exact .away rfl rfl rfl (Nat.le_refl _) rfl rfl rfl aside_nil
  | fillInsert b =>
    rw [nextPart] at hnext
    split at hnext
    · cases hnext
      exact hsame rfl rfl rfl aside_nil
    · cases hnext
      exact .away rfl rfl rfl (Nat.le_refl _) rfl rfl rfl (aside_single rfl)
  | fillReject =>
    cases hnext
    exact hsame rfl rfl rfl (aside_single rfl)
  | flush =>
    cases hnext
    obtain ⟨hpend, hlock, hstate, hcnt, haside⟩ := flushOutPort_keeps s
    exact .away hpend hlock hstate (Nat.le_of_eq hcnt.symm) rfl rfl rfl haside
  | _ => cases hpc

/-- A part that decides nothing keeps the invariant. -/
theorem Waiting.quiet (h : Waiting s (pc :: pcs) ev) (hp : Passes s pc t new fs) :
    Waiting t (new ++ pcs) (ev ++ fs) := by
  obtain ⟨hpend, hlock, hstate, hcnt, hlooks, hclears, hlocks, hfs⟩ := hp
  have hcl : (new ++ pcs).countP Pc.clears = (pc :: pcs).countP Pc.clears := by
    rw [List.countP_append, countP_cons_toNat, hclears, Nat.add_comm]
  have hlk : (new ++ pcs).countP Pc.locks = (pc :: pcs).countP Pc.locks := by
    rw [List.countP_append, countP_cons_toNat, hlocks, Nat.add_comm]
  -- somebody still looks, or a frame is in use
  have hwait : 0 < s.yuvUseCnt ∨ 0 < (pc :: pcs).countP Pc.looks →
      0 < t.yuvUseCnt ∨ 0 < (new ++ pcs).countP Pc.looks := by
    rw [List.countP_append, countP_cons_toNat]
    rintro (hpos | hpos)
    · rcases hcnt with hle | hnew
      · exact .inl (by omega)
      · exact .inr (by omega)
    · cases hpc : pc.looks with
      | true =>
        rcases hlooks hpc with hnew | hcount
        · exact .inr (by omega)
        · exact .inl hcount
      | false =>
        rw [hpc, Bool.toNat_false] at hpos
        exact .inr (by omega)
  have hset : Settles s t ((pc :: pcs).countP Pc.clears) ((new ++ pcs).countP Pc.clears) fs := by
    rw [hcl]
    exact hfs.settles hpend _
  obtain ⟨hbalance, hothers⟩ := h.settles hset
  refine ⟨hbalance, hothers, by rw [hcl, hpend]; exact h.clears, by rw [hlk, hlock]; exact h.lock,
    fun hl => by rw [hstate]; exact h.locked (hlock ▸ hl), fun hp => ?_, fun hl => hwait (h.lockFrame (hlock ▸ hl))⟩
  rw [hcl]
  rcases h.frame (hpend ▸ hp) with hpos | hpos | hpos
  · exact (hwait (.inl hpos)).imp_right .inl
  · exact (hwait (.inr hpos)).imp_right .inl
  · exact .inr (.inr hpos)

/-- A call that waits, or comes to nothing. -/
theorem Waiting.away (h : Waiting s (pc :: pcs) ev) (hpc : pc.looks = false)
    (hclears : new.countP Pc.clears = pc.clears.toNat) (hlocks : new.countP Pc.locks = pc.locks.toNat) :
    Waiting s (new ++ pcs) ev := by
  have hsame := h.quiet (.away rfl rfl rfl (Nat.le_refl _) hpc hclears hlocks aside_nil)
  rwa [List.append_nil] at hsame

/-- A call begins, or goes on to wait. -/
theorem Waiting.joins {pc' : Pc} (h : Waiting s pcs ev) (hpend : t.pausePending = s.pausePending)
    (hlock : t.chanLock = s.chanLock) (hstate : t.state = s.state) (hcnt : s.yuvUseCnt ≤ t.yuvUseCnt)
    (hclears : pc'.clears = false) (hlocks : pc'.locks = false) : Waiting t (pc' :: pcs) (ev ++ []) := by
  -- as if a call had come to nothing
  have hidle : Waiting s (.fillReject :: pcs) ev :=
    ⟨h.balance, h.others, h.clears, h.lock, h.locked, h.frame, h.lockFrame⟩
  have hpass : Passes s .fillReject t [pc'] [] := by
    refine .away hpend hlock hstate hcnt rfl ?_ ?_ aside_nil
    · rw [countP_cons_toNat, hclears]
      rfl
    · rw [countP_cons_toNat, hlocks]
      rfl
  exact hidle.quiet hpass

theorem Waiting.perm (hp : pcs.Perm pcs') (h : Waiting s pcs ev) : Waiting s pcs' ev := by
  refine ⟨?_, h.others, ?_, ?_, h.locked, ?_, ?_⟩
  · rw [← hp.countP_eq]
    exact h.balance
  · rw [← hp.countP_eq]
    exact h.clears
  · rw [← hp.countP_eq]
    exact h.lock
  · rw [← hp.countP_eq, ← hp.countP_eq]
    exact h.frame
  · rw [← hp.countP_eq]
    exact h.lockFrame

/-! ### Answers to a pause -/

theorem clears_eq_zero (h : Pc.pauseAnswered ∉ pcs) : pcs.countP Pc.clears = 0 := by
  refine List.countP_eq_zero.mpr (fun pc hpc hclear => ?_)
  cases pc with
  | pauseAnswered => exact h hpc
  | _ => cases hclear

/-- `pause_pending` is found set: the pause gets its response. -/
theorem Waiting.answer (h : Waiting s (.answerPause :: pcs) ev) (hp : s.pausePending = true)
    (hcount : s.chanLock = true → s.yuvUseCnt ≠ 0) (hno : Pc.pauseAnswered ∉ pcs) :
    Waiting s (.pauseAnswered :: pcs) (ev ++ [.post .pauseDone .success none]) := by
  have hnone := clears_eq_zero hno
  have hset : Settles s s ((Pc.answerPause :: pcs).countP Pc.clears) ((Pc.pauseAnswered :: pcs).countP Pc.clears)
      [.post .pauseDone .success none] := by
    refine ⟨?_, fun k hk hne => ?_⟩
    · rw [countP_cons_toNat, countP_cons_toNat, hnone]
      simp [returns, posts, cancelled, Event.returns, Event.posts, Pc.clears]
    · simp [returns, posts, Event.returns, Event.posts, Ne.symm hne]
  obtain ⟨hbalance, hothers⟩ := h.settles hset
  refine ⟨hbalance, hothers, ?_, ?_, h.locked, fun _ => .inr (.inr ?_),
    fun hl => .inl (Nat.pos_of_ne_zero (hcount hl))⟩
  · rw [countP_cons_toNat, hnone, hp]
    exact Nat.le_refl _
  · have hold := h.lock
    rw [countP_cons_toNat] at hold ⊢
    exact hold
  · rw [countP_cons_toNat]
    exact Nat.succ_pos _

/-- `pause_pending` is cleared. -/
theorem Waiting.clear (h : Waiting s (.pauseAnswered :: pcs) ev) :
    Waiting { s with pausePending := false } pcs ev := by
  have hclears := h.clears
  have hcons : (Pc.pauseAnswered :: pcs).countP Pc.clears = pcs.countP Pc.clears + 1 := countP_cons_toNat ..
  have hle := Bool.toNat_le s.pausePending
  have hbalance := h.balance
  rw [hcons] at hclears hbalance
  refine ⟨?_, h.others, ?_, ?_, h.locked, fun hp => absurd hp Bool.false_ne_true, fun hl => ?_⟩
  · dsimp only
    rw [Bool.toNat_false]
    omega
  · dsimp only
    rw [Bool.toNat_false]
    omega
  · have hold := h.lock
    rw [countP_cons_toNat] at hold
    exact hold
  · have hold := h.lockFrame hl
    rw [countP_cons_toNat] at hold
    exact hold

/-! ### Commands -/

/-- A response of `c` with its return. -/
theorem settles_done (hpend : t.pausePending = s.pausePending) (n : Nat) :
    Settles s t n n [.post c.resp st none, .ret c ret] := by
  have heq : ∀ k, returns k [.post c.resp st none, .ret c ret] = posts k [.post c.resp st none, .ret c ret] := by
    intro k
    by_cases hk : c.resp = k <;> simp [returns, posts, Event.returns, Event.posts, hk]
  refine ⟨?_, fun k _ _ => heq k⟩
  have hnone : cancelled [.post c.resp st none, .ret c ret] = 0 := by simp [cancelled]
  rw [heq, hpend, hnone]
  omega

/-- A command that is done at once, and leaves a pending pause pending. -/
theorem Waiting.done (h : Waiting s pcs ev)
    (hpend : t.pausePending = s.pausePending) (hlock : t.chanLock = s.chanLock) (hcnt : t.yuvUseCnt = s.yuvUseCnt)
    (hfree : s.chanLock = false) : Waiting t pcs (ev ++ [.post c.resp st none, .ret c ret]) := by
  have hset : Settles s t (pcs.countP Pc.clears) (pcs.countP Pc.clears) [.post c.resp st none, .ret c ret] :=
    settles_done hpend _
  obtain ⟨hbalance, hothers⟩ := h.settles hset
  have hno : t.chanLock = true → False := fun hl => by rw [hlock, hfree] at hl; cases hl
  refine ⟨hbalance, hothers, by rw [hpend]; exact h.clears, by rw [hlock]; exact h.lock, fun hl => (hno hl).elim,
    ?_, fun hl => (hno hl).elim⟩
  rw [hpend, hcnt]
  exact h.frame

/-- A resume takes a pending pause back. -/
theorem Waiting.resume (h : Waiting s pcs ev) (hfree : s.chanLock = false) (hno : Pc.pauseAnswered ∉ pcs) :
    Waiting { s with state := .work, pausePending := false } pcs
      (ev ++ ((if s.pausePending then [.cancel] else []) ++
        [.post .resumeDone .success none, .ret .resume HI_SUCCESS])) := by
  have hnone := clears_eq_zero hno
  have hset : Settles s { s with state := .work, pausePending := false } (pcs.countP Pc.clears) (pcs.countP Pc.clears)
      ((if s.pausePending then [.cancel] else []) ++ [.post .resumeDone .success none, .ret .resume HI_SUCCESS]) := by
    refine ⟨?_, fun k hk hne => ?_⟩
    · cases s.pausePending <;>
        simp [returns, posts, cancelled, Event.returns, Event.posts, Command.resp, hnone]
    · cases s.pausePending <;> by_cases hk : Resp.resumeDone = k <;>
        simp [returns, posts, Event.returns, Event.posts, Command.resp, hk]
  obtain ⟨hbalance, hothers⟩ := h.settles hset
  refine ⟨hbalance, hothers, ?_, h.lock, fun hl => ?_, fun hp => absurd hp Bool.false_ne_true, fun hl => ?_⟩
  · rw [hnone]
    exact Nat.zero_le _
  · rw [show s.chanLock = true from hl] at hfree
    cases hfree
  · rw [show s.chanLock = true from hl] at hfree
    cases hfree

/-- A pause finds frames in use. -/
theorem Waiting.lockPause (h : Waiting s pcs ev) (hfree : s.chanLock = false) (hcnt : s.yuvUseCnt ≠ 0) :
    Waiting { s with state := .pause, chanLock := true } (.pauseSet :: pcs) ev := by
  have hclears : (Pc.pauseSet :: pcs).countP Pc.clears = pcs.countP Pc.clears := countP_cons_toNat ..
  refine ⟨by rw [hclears]; exact h.balance, h.others, by rw [hclears]; exact h.clears, ?_, fun _ => rfl,
    fun _ => .inl (Nat.pos_of_ne_zero hcnt), fun _ => .inl (Nat.pos_of_ne_zero hcnt)⟩
  rw [countP_cons_toNat, h.lock, hfree]
  rfl

/-- A pause sets `pause_pending`. -/
theorem Waiting.setPause (h : Waiting s (.pauseSet :: pcs) ev) (hp : s.pausePending = false) :
    Waiting { s with pausePending := true, chanLock := false } pcs (ev ++ [.ret .pause HI_SUCCESS]) := by
  have hclears : (Pc.pauseSet :: pcs).countP Pc.clears = pcs.countP Pc.clears := countP_cons_toNat ..
  have hlooks : (Pc.pauseSet :: pcs).countP Pc.looks = pcs.countP Pc.looks := countP_cons_toNat ..
  have hlocks : (Pc.pauseSet :: pcs).countP Pc.locks = pcs.countP Pc.locks + 1 := countP_cons_toNat ..
  have hlock := h.lock
  have hle := Bool.toNat_le s.chanLock
  have hone : s.chanLock = true := by
    cases hl : s.chanLock with
    | true => rfl
    | false =>
      rw [hlocks, hl, Bool.toNat_false] at hlock
      omega
  have hset : Settles s { s with pausePending := true, chanLock := false } ((Pc.pauseSet :: pcs).countP Pc.clears)
      (pcs.countP Pc.clears) [.ret .pause HI_SUCCESS] := by
    refine ⟨?_, fun k _ hne => ?_⟩
    · rw [hclears]
      simp [returns, posts, cancelled, Event.returns, Event.posts, Command.resp, hp]
    · simp [returns, posts, Event.returns, Event.posts, Command.resp, Ne.symm hne]
  obtain ⟨hbalance, hothers⟩ := h.settles hset
  have hzero := h.clears
  rw [hclears, hp, Bool.toNat_false] at hzero
  refine ⟨hbalance, hothers, by omega, ?_, fun hl => absurd hl Bool.false_ne_true, fun _ => ?_,
    fun hl => absurd hl Bool.false_ne_true⟩
  · rw [hlocks] at hlock
    rw [Bool.toNat_false]
    omega
  · have hwait := h.lockFrame hone
    rw [hlooks] at hwait
    exact hwait.imp_right .inl

/-- **A command** takes `chan_lock`, or waits for it. -/
theorem Waiting.command {c : Command} (h : Waiting s pcs ev)
    (hone : c = .resume → s.state = .pause → Pc.pauseAnswered ∉ pcs) :
    Waiting (s.command c).1 ((s.command c).2.1 ++ pcs) (ev ++ (s.command c).2.2) := by
  unfold Chan.command
  split
  next => exact h.joins rfl rfl rfl (Nat.le_refl _) rfl rfl
  next hfree =>
    have hfree : s.chanLock = false := Bool.eq_false_iff.mpr hfree
    cases c with
    | start d p r =>
      dsimp only [Chan.startInst]
      split_ifs
      · exact h.done (c := .start d p r) rfl rfl rfl hfree
      · exact h.done (c := .start d p r) rfl rfl rfl hfree
      · exact h.done (c := .start d p r) rfl rfl rfl hfree
      · exact h.joins rfl rfl rfl (Nat.le_refl _) rfl rfl
    | stop d p =>
      dsimp only [Chan.stopInst]
      split_ifs <;> exact h.done (c := .stop d p) rfl rfl rfl hfree
    | pause =>
      dsimp only [Chan.pauseInst]
      split_ifs with hw hc
      · exact h.done (c := .pause) rfl rfl rfl hfree
      · exact h.done (c := .pause) rfl rfl rfl hfree
      · have hlock := h.lockPause hfree hc
        rwa [← List.append_nil ev] at hlock
    | resume =>
      dsimp only [Chan.resumeInst]
      by_cases hp : s.state = .pause
      · rw [if_neg (not_not.mpr hp)]
        exact h.resume hfree (hone rfl hp)
      · rw [if_pos hp]
        exact h.done (c := .resume) rfl rfl rfl hfree

/-- **One part** of a call. -/
theorem Waiting.next (h : Waiting s (pc :: pcs) ev) (hcalm : Before ⟨s, pcs⟩ pc)
    (hnext : nextPart s pc = some (t, new, fs)) : Waiting t (new ++ pcs) (ev ++ fs) := by
  cases pc with
  | releaseFlags b =>
    rw [nextPart] at hnext
    split at hnext
    next =>
      cases hnext
      exact h.quiet (.goesOn rfl rfl rfl rfl rfl rfl aside_nil)
    next hnone =>
      cases hnext
      rw [not_or] at hnone
      -- nobody waits, or a frame is in use
      obtain ⟨hbalance, hothers, hclears, hlock, hlocked, -, hlockFrame⟩ := h
      rw [List.append_nil]
      refine ⟨hbalance, hothers, hclears, hlock, hlocked, fun hp => absurd hp hnone.2, fun hl => .inl ?_⟩
      refine Nat.pos_of_ne_zero (fun hzero => ?_)
      rcases hcalm hl hzero with hflush | hp
      · exact hnone.1 hflush
      · exact hnone.2 hp
  | answerPause =>
    rw [nextPart] at hnext
    split at hnext
    next hp =>
      cases hnext
      exact h.answer hp hcalm.1 hcalm.2
    next hp =>
      cases hnext
      obtain ⟨hbalance, hothers, hclears, hlock, hlocked, -, -⟩ := h
      rw [List.append_nil]
      exact ⟨hbalance, hothers, hclears, hlock, hlocked, fun hp' => absurd hp' hp,
        fun hl => .inl (Nat.pos_of_ne_zero (hcalm.1 hl))⟩
  | pauseAnswered =>
    cases hnext
    rw [List.append_nil]
    exact h.clear
  | command c =>
    have hrest : Waiting s ([] ++ pcs) ev := h.away rfl rfl rfl
    have hcommand := hrest.command (c := c) (fun hc => by subst hc; exact hcalm)
    rw [show s.command c = (t, new, fs) from Option.some.inj hnext] at hcommand
    exact hcommand
  | startSet d p r =>
    rw [nextPart] at hnext
    split at hnext
    next =>
      cases hnext
      rw [List.append_nil]
      exact h
    next hfree =>
      cases hnext
      have hrest : Waiting s ([] ++ pcs) ev := h.away rfl rfl rfl
      exact hrest.done (c := .start d p r) rfl rfl rfl (Bool.eq_false_iff.mpr hfree)
  | pauseSet =>
    cases hnext
    exact h.setPause hcalm
  | _ => exact h.quiet (nextPart_passes rfl hnext)

/-- **A call** that begins. -/
theorem Waiting.start {c : Call} (h : Waiting s pcs ev) (hcalm : Calm ⟨s, pcs⟩ (.call c))
    (hstart : startCall s c = some (t, new, fs)) : Waiting t (new ++ pcs) (ev ++ fs) := by
  cases c with
  | getFrame n =>
    cases hstart
    exact h.joins rfl rfl rfl (Nat.le_refl _) rfl rfl
  | releaseFrame k =>
    obtain ⟨held, -, heq⟩ := Option.map_eq_some_iff.mp hstart
    cases heq
    exact h.joins rfl rfl rfl (Nat.le_refl _) rfl rfl
  | reportFrame k =>
    obtain ⟨held, -, heq⟩ := Option.map_eq_some_iff.mp hstart
    cases heq
    exact h.joins rfl rfl rfl (Nat.le_refl _) rfl rfl
  | fillThisFrame d =>
    cases hstart
    exact h.joins rfl rfl rfl (Nat.le_refl _) rfl rfl
  | flushOutPort =>
    cases hstart
    exact h.joins rfl rfl rfl (Nat.le_refl _) rfl rfl
  | command c =>
    have hcommand := h.command (c := c) (fun hc => by subst hc; exact hcalm)
    rw [show s.command c = (t, new, fs) from Option.some.inj hstart] at hcommand
    exact hcommand

/-! ## What a command returns -/

/-- What a step that shows `fs` posts for a command, or leaves pending, reports success. -/
def Reports (t : Chan) (c : Command) (fs : List Event) : Prop :=
  .post c.resp .success none ∈ fs ∨ c = .pause ∧ posts .pauseDone fs = 0 ∧ t.pausePending = true

/-- The processor did not start, and the decoder was stopped again. -/
def RolledBack (s : Chan) : Command → Prop
  | .start d p r => s.state ≠ .work ∧ d = HI_SUCCESS ∧ p ≠ HI_SUCCESS ∧ r = HI_SUCCESS
  | _ => False

/-- What a step from `s` to `t` is to show when the command `c` returns `ret` in it: one response at once, or a pause
    that leaves it pending; success if and only if the response reports it and the channel is in the state meant, unless
    `c` is a stop or was rolled back; for a stop, success if and only if there was a channel to stop. -/
structure Answered (s t : Chan) (fs : List Event) (c : Command) (ret : BitVec 32) : Prop where
  response : (∃ st, .post c.resp st none ∈ fs ∧ posts c.resp fs = 1) ∨
    c = .pause ∧ posts .pauseDone fs = 0 ∧ t.pausePending = true
  success : (∀ d p, c ≠ .stop d p) → ¬RolledBack s c → (ret = HI_SUCCESS ↔ Reports t c fs ∧ t.state = c.target)
  stop : ∀ d p, c = .stop d p → t.state = .idle ∧ (ret = HI_SUCCESS ↔ s.state ≠ .idle) ∧
    (Reports t c fs ↔ s.state ≠ .idle ∧ d = HI_SUCCESS ∧ p = HI_SUCCESS)

theorem failure_ne : HI_FAILURE ≠ HI_SUCCESS := by decide

theorem mem_done {c' : Command} {code : Resp} {ret' : BitVec 32}
    (h : Event.ret c ret ∈ [Event.post code st none, .ret c' ret']) : c = c' ∧ ret = ret' := by
  simpa using h

theorem posts_done (c : Command) (st : Status) (ret : BitVec 32) :
    .post c.resp st none ∈ [Event.post c.resp st none, .ret c ret] ∧
      posts c.resp [.post c.resp st none, .ret c ret] = 1 := by
  simp [posts, Event.posts]

theorem reports_done (t : Chan) (c : Command) (st : Status) (ret : BitVec 32) :
    Reports t c [.post c.resp st none, .ret c ret] ↔ st = .success := by
  unfold Reports
  constructor
  · rintro (hmem | ⟨rfl, hnone, -⟩)
    · simpa [eq_comm] using hmem
    · simp [posts, Event.posts, Command.resp] at hnone
  · rintro rfl
    exact .inl List.mem_cons_self

/-- A command other than a stop that is done at once. -/
theorem answered_done {s t : Chan} (hstop : ∀ d p, c ≠ .stop d p)
    (hret : ¬RolledBack s c → (ret = HI_SUCCESS ↔ st = .success ∧ t.state = c.target)) :
    Answered s t [.post c.resp st none, .ret c ret] c ret where
  response := .inl ⟨st, posts_done c st ret⟩
  success := by
    intro _ hback
    rw [reports_done]
    exact hret hback
  stop := fun d p hc => absurd hc (hstop d p)

theorem startInst_answered {s : Chan} {r : BitVec 32}
    (hmem : .ret c ret ∈ (s.startInst d p r).2.2) :
    Answered s (s.startInst d p r).1 (s.startInst d p r).2.2 c ret := by
  unfold Chan.startInst at hmem ⊢
  have hno : ∀ d' p', Command.start d p r ≠ .stop d' p' := fun d' p' h => by cases h
  split_ifs at hmem ⊢ with hw hd hp
  · obtain ⟨rfl, rfl⟩ := mem_done hmem
    exact answered_done hno (fun _ => by simp [failure_ne])
  · obtain ⟨rfl, rfl⟩ := mem_done hmem
    exact answered_done hno (fun _ => by simp [hd])
  · obtain ⟨rfl, rfl⟩ := mem_done hmem
    refine answered_done hno (fun hback => ?_)
    have hr : ret ≠ HI_SUCCESS := fun hr => hback ⟨hw, not_not.mp hd, hp, hr⟩
    simp [hr]
  · cases hmem

theorem stopInst_answered {s : Chan}
    (hmem : .ret c ret ∈ (s.stopInst d p).2.2) : Answered s (s.stopInst d p).1 (s.stopInst d p).2.2 c ret := by
  have hyes : ∀ st ret t, t.state = .idle → (ret = HI_SUCCESS ↔ s.state ≠ .idle) →
      (st = Status.success ↔ s.state ≠ .idle ∧ d = HI_SUCCESS ∧ p = HI_SUCCESS) →
      Answered s t [.post .stopDone st none, .ret (.stop d p) ret] (.stop d p) ret := by
    intro st ret t hidle hret hst
    refine ⟨.inl ⟨st, posts_done (.stop d p) st ret⟩, fun hstop _ => absurd rfl (hstop d p), fun d' p' hc => ?_⟩
    cases hc
    exact ⟨hidle, hret, (reports_done t (.stop d p) st ret).trans hst⟩
  unfold Chan.stopInst at hmem ⊢
  by_cases hi : s.state = .idle
  · rw [if_pos hi] at hmem ⊢
    obtain ⟨rfl, rfl⟩ := mem_done hmem
    exact hyes _ _ _ hi (by simp [hi, failure_ne]) (by simp [hi])
  · rw [if_neg hi] at hmem ⊢
    obtain ⟨rfl, rfl⟩ := mem_done hmem
    refine hyes _ _ _ rfl (by simp [hi]) ?_
    by_cases hd : d = HI_SUCCESS <;> by_cases hp : p = HI_SUCCESS <;> simp [hi, hd, hp]

theorem pauseInst_answered {s : Chan} (hmem : .ret c ret ∈ s.pauseInst.2.2) :
    Answered s s.pauseInst.1 s.pauseInst.2.2 c ret := by
  have hno : ∀ d p, Command.pause ≠ .stop d p := fun d p h => by cases h
  unfold Chan.pauseInst at hmem ⊢
  split_ifs at hmem ⊢ with hw hc
  · obtain ⟨rfl, rfl⟩ := mem_done hmem
    exact answered_done hno (fun _ => by simp [failure_ne])
  · obtain ⟨rfl, rfl⟩ := mem_done hmem
    exact answered_done hno (fun _ => by simp [Command.target])
  · cases hmem

theorem resumeInst_answered {s : Chan} (hmem : .ret c ret ∈ s.resumeInst.2.2) :
    Answered s s.resumeInst.1 s.resumeInst.2.2 c ret := by
  have hno : ∀ d p, Command.resume ≠ .stop d p := fun d p h => by cases h
  unfold Chan.resumeInst at hmem ⊢
  split_ifs at hmem ⊢ with hp hpend
  · obtain ⟨rfl, rfl⟩ := mem_done hmem
    exact answered_done hno (fun _ => by simp [failure_ne])
  · have hmem' : Event.ret c ret ∈ [Event.post .resumeDone .success none, .ret .resume HI_SUCCESS] := by
      simpa using hmem
    obtain ⟨rfl, rfl⟩ := mem_done hmem'
    refine ⟨.inl ⟨.success, by simp [Command.resp], by simp [posts, Event.posts, Command.resp]⟩, fun _ _ => ?_,
      fun d p hc => absurd hc (hno d p)⟩
    simp [Reports, Command.resp, Command.target]
  · obtain ⟨rfl, rfl⟩ := mem_done hmem
    exact answered_done hno (fun _ => by simp [Command.target])

theorem command_answered {s : Chan} {c' c : Command} {ret : BitVec 32} (hmem : .ret c ret ∈ (s.command c').2.2) :
    Answered s (s.command c').1 (s.command c').2.2 c ret := by
  unfold Chan.command at hmem ⊢
  by_cases hlock : s.chanLock = true
  · rw [if_pos hlock] at hmem
    cases hmem
  · rw [if_neg hlock] at hmem ⊢
    cases c' with
    | start d p r => exact startInst_answered hmem
    | stop d p => exact stopInst_answered hmem
    | pause => exact pauseInst_answered hmem
    | resume => exact resumeInst_answered hmem

/-- A part that belongs to no command. -/
def Pc.ofFrame : Pc → Bool
  | .command _ => false
  | .startSet .. => false
  | .pauseSet => false
  | _ => true

/-- No command returns in a part of another call. -/
theorem nextPart_ofFrame (hpc : pc.ofFrame = true) (hnext : nextPart s pc = some (t, new, fs)) (c : Command)
    (ret : BitVec 32) : .ret c ret ∉ fs := by
  intro hmem
  cases pc with
  | command c => cases hpc
  | startSet d p r => cases hpc
  | pauseSet => cases hpc
  | releaseFlags b =>
    rw [nextPart] at hnext
    split at hnext <;> cases hnext <;> cases hmem
  | answerPause =>
    rw [nextPart] at hnext
    split at hnext <;> cases hnext <;> simp at hmem
  | pauseAnswered =>
    cases hnext
    cases hmem
  | _ => cases (nextPart_passes rfl hnext).aside _ hmem

/-- **A part in which a command returns.** -/
theorem Waiting.answered (h : Waiting s (pc :: pcs) ev)
    (hnext : nextPart s pc = some (t, new, fs)) (hmem : .ret c ret ∈ fs) : Answered s t fs c ret := by
  cases hpc : pc.ofFrame with
  | true => exact absurd hmem (nextPart_ofFrame hpc hnext c ret)
  | false =>
    cases pc with
    | command c' =>
      have heq : s.command c' = (t, new, fs) := Option.some.inj hnext
      have hanswered := @command_answered s c' c ret (by rw [heq]; exact hmem)
      rwa [heq] at hanswered
    | startSet d p r =>
      rw [nextPart] at hnext
      split at hnext
      · cases hnext
        cases hmem
      · cases hnext
        obtain ⟨rfl, rfl⟩ := mem_done hmem
        exact answered_done (c := .start d p r) (fun d' p' h => by cases h) (fun _ => by simp [Command.target])
    | pauseSet =>
      have hstate : s.state = .pause := by
        have hlock := h.lock
        rw [countP_cons_toNat] at hlock
        refine h.locked (Bool.toNat_eq_one.mp ?_)
        have hle := Bool.toNat_le s.chanLock
        have hone : (Pc.locks .pauseSet).toNat = 1 := rfl
        omega
      cases hnext
      obtain ⟨rfl, rfl⟩ : c = .pause ∧ ret = HI_SUCCESS := by simpa using hmem
      refine ⟨.inr ⟨rfl, rfl, rfl⟩, fun _ _ => ?_, fun d p hc => by cases hc⟩
      exact ⟨fun _ => ⟨.inr ⟨rfl, rfl, rfl⟩, hstate⟩, fun _ => rfl⟩
    | _ => cases hpc

/-! ## Runs -/

variable {num : Nat} {phyAddr bufLen : Nat → BitVec 32} {acts : List (Act Call)} {σ : Threads Chan Pc}

instance (σ : Threads Chan Pc) : (pc : Pc) → Decidable (Before σ pc)
  | .command .resume => inferInstanceAs (Decidable (_ → _ ∉ _))
  | .command (.start ..) => isTrue trivial
  | .command (.stop ..) => isTrue trivial
  | .command .pause => isTrue trivial
  | .pauseSet => inferInstanceAs (Decidable (_ = _))
  | .releaseFlags _ => inferInstanceAs (Decidable (_ → _ → _ ∨ _))
  | .answerPause => inferInstanceAs (Decidable ((_ → _) ∧ _ ∉ _))
  | .getState _ => isTrue trivial
  | .getFlag _ => isTrue trivial
  | .getList _ => isTrue trivial
  | .releaseFind _ => isTrue trivial
  | .releaseCount _ => isTrue trivial
  | .releaseDel _ => isTrue trivial
  | .releasePost _ => isTrue trivial
  | .reportFind _ => isTrue trivial
  | .reportPost _ => isTrue trivial
  | .reportCount => isTrue trivial
  | .answer => isTrue trivial
  | .answerFlush => isTrue trivial
  | .flushAnswered => isTrue trivial
  | .pauseAnswered => isTrue trivial
  | .fillLookup _ => isTrue trivial
  | .fillInsert _ => isTrue trivial
  | .fillReject => isTrue trivial
  | .flush => isTrue trivial
  | .startSet .. => isTrue trivial

instance (σ : Threads Chan Pc) : (a : Act Call) → Decidable (Calm σ a)
  | .call (.command c) => inferInstanceAs (Decidable (Before σ (.command c)))
  | .call (.getFrame _) => isTrue trivial
  | .call (.releaseFrame _) => isTrue trivial
  | .call (.reportFrame _) => isTrue trivial
  | .call (.fillThisFrame _) => isTrue trivial
  | .call .flushOutPort => isTrue trivial
  | .sched n =>
    match h : σ.pcs[n]? with
    | none => isTrue (fun pc hpc => by rw [h] at hpc; cases hpc)
    | some pc => decidable_of_iff (Before σ pc) (by simp [Calm, h])

end HiSTB.Omxvdec.Channel
