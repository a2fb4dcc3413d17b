import HiSTB.Pvr.Delta
import HiSTB.Pvr.Correctness.Save

/-!
# `Pvr.Correctness.Delta` — the offset delta is what the pauses discarded

The bytes that a thread acquires are discarded in a pause, recorded, dropped for an error, or still in its hands
(`Lawful.balance`). So an offset less the bytes discarded is the place in the recording exactly if nothing was dropped.

* `Books.Right` — the count is the number of bytes discarded, and takes each offset to its place;
* `Lawful`, `Kind.lawful` — what a step of each thread does to the bytes;
* `delta_iff` — the exact condition: every batch that is discarded is counted, and no block is dropped.
-/

namespace HiSTB.Pvr.Delta

open Lib Save
open TsQueue (Area Block)

variable {σ ι : Type} {cfg : Config} {a : Area} {queueBlock : BitVec 32} {es fs : List Event}

variable {env : Env} {dataIdx : Bool} {thread : σ} {is : List ι}

/-! ## Bytes -/

@[simp] theorem bytes_nil : bytes [] = 0 := rfl

@[simp] theorem bytes_cons (blk : Block) (blocks : List Block) :
    bytes (blk :: blocks) = blk.bytes.length + bytes blocks := rfl

@[simp] theorem acquiredBytes_nil : acquiredBytes [] = 0 := rfl

@[simp] theorem acquiredBytes_cons (e : Event) (es : List Event) :
    acquiredBytes (e :: es) = acquiredBy e + acquiredBytes es := rfl

@[simp] theorem acquiredBy_acquired (b : Batch) : acquiredBy (.acquired b) = bytes b.blocks := rfl

@[simp] theorem acquiredBy_released (b : Batch) : acquiredBy (.released b) = 0 := rfl

@[simp] theorem acquiredBy_pushed (c : Cur) : acquiredBy (.pushed c) = 0 := rfl

/-- Blocks that are all empty have no bytes. -/
theorem bytes_of_isEmpty {blocks : List Block} (h : blocks.all (fun blk => blk.bytes.isEmpty) = true) :
    bytes blocks = 0 := by
  induction blocks with
  | nil => rfl
  | cons blk blocks ih =>
    rw [List.all_cons, Bool.and_eq_true, List.isEmpty_iff] at h
    rw [bytes_cons, h.1, ih h.2]
    rfl

theorem setWidth_len (blk : Block) : blk.len.setWidth 64 = BitVec.ofNat 64 blk.bytes.length := by
  apply BitVec.eq_of_toNat_eq
  have hlt := blk.lt
  rw [Block.len, BitVec.toNat_setWidth, BitVec.toNat_ofNat, BitVec.toNat_ofNat, Nat.mod_eq_of_lt hlt]

/-- The loop adds the bytes of the batch. -/
theorem countBlocks_eq (delta : BitVec 64) (blocks : List Block) :
    countBlocks delta blocks = delta + BitVec.ofNat 64 (bytes blocks) := by
  induction blocks generalizing delta with
  | nil => exact (BitVec.add_zero _).symm
  | cons blk blocks ih =>
    rw [countBlocks, List.foldl_cons, ← countBlocks, ih, setWidth_len, bytes_cons, BitVec.ofNat_add, BitVec.add_assoc]

/-- At most one block is dropped. -/
theorem Fate.dropped_lt (f : Fate) : bytes f.dropped < 0x10000000000000000 := by
  cases f with
  | drops blk =>
    have hlt := blk.lt
    show blk.bytes.length + 0 < _
    omega
  | keeps => exact Nat.zero_lt_succ _
  | discards b => exact Nat.zero_lt_succ _
  | records blk => exact Nat.zero_lt_succ _

/-- The bytes that leave the hands of the thread. -/
def Fate.size (f : Fate) : Nat := bytes f.discarded + bytes f.recorded + bytes f.dropped

@[simp] theorem Fate.size_keeps : Fate.keeps.size = 0 := rfl

@[simp] theorem Fate.size_discards (b : Batch) : (Fate.discards b).size = bytes b.blocks := rfl

@[simp] theorem Fate.size_records (blk : Block) : (Fate.records blk).size = blk.bytes.length := by
  simp [size, discarded, recorded, dropped]

@[simp] theorem Fate.size_drops (blk : Block) : (Fate.drops blk).size = blk.bytes.length := by
  simp [size, discarded, recorded, dropped]

/-! ## The threads -/

/-- What a step does to the bytes. A thread that goes on has those that it had or acquired, less those that left; one
    that ends drops no block before. -/
structure Lawful (r : Routine σ ι) : Prop where
  books : ∀ {s i t es}, r.step s i = some (t, es) →
    if r.ended t then bytes (r.fate s i).dropped = 0
    else r.hand t + (r.fate s i).size = r.hand s + acquiredBytes es
  stays : ∀ {s i t es}, r.step s i = some (t, es) → r.ended s = true → r.ended t = true

theorem lawful_indexAndStream : Lawful (indexAndStream cfg) where
  books {pc env pc' es} h := by
    change saveIndexAndStream cfg env pc = some (pc', es) at h
    show if endedOf pc' then bytes (fateIndexAndStream cfg pc env).dropped = 0
      else handOf pc' + (fateIndexAndStream cfg pc env).size = handOf pc + acquiredBytes es
    cases pc with
    | loop =>
      simp only [saveIndexAndStream] at h
      split at h
      · cases h
        rfl
      · split at h
        · next b hb =>
          split at h <;> cases h
          · rfl
          · simp [endedOf, handOf, fateIndexAndStream]
        · cases h
          rfl
        · cases h
          rfl
        · cases h
          rfl
    | got b =>
      simp only [saveIndexAndStream] at h
      split at h
      · next blk hblk =>
        simp only [fateIndexAndStream, hblk]
        split at h
        · next hpaused =>
          cases h
          simp [endedOf, handOf, hpaused]
        · next hpaused =>
          rw [if_neg hpaused]
          split at h
          · next hmis =>
            cases h
            rw [if_pos hmis]
            rfl
          · next hmis =>
            rw [if_neg hmis]
            split at h
            · next hfail =>
              cases h
              simp [endedOf, handOf, hfail, hblk]
            · next hok =>
              rw [if_neg hok]
              split at h <;> cases h
              · next hwrite =>
                rw [if_pos hwrite]
                rfl
              · next hwrite =>
                rw [if_neg hwrite]
                simp [endedOf, handOf, hblk]
      · cases h
    | data b rest => cases h
    | done => cases h
  stays {pc env pc' es} h hend := by
    cases pc with
    | done => cases h
    | loop => cases hend
    | got b => cases hend
    | data b rest => cases hend

theorem lawful_dataIndex : Lawful (dataIndex cfg) where
  books {pc env pc' es} h := by
    change saveDataIndex cfg env pc = some (pc', es) at h
    show if endedOf pc' then bytes (fateDataIndex cfg pc env).dropped = 0
      else handOf pc' + (fateDataIndex cfg pc env).size = handOf pc + acquiredBytes es
    cases pc with
    | loop =>
      simp only [saveDataIndex] at h
      split at h
      · cases h
        rfl
      · split at h
        · cases h
          simp [endedOf, handOf, fateDataIndex]
        · cases h
          rfl
        · split at h <;> cases h <;> rfl
        · cases h
          rfl
    | got b =>
      simp only [saveDataIndex] at h
      simp only [fateDataIndex]
      split at h <;> cases h
      · next hpaused => simp [endedOf, handOf, hpaused]
      · next hpaused =>
        rw [if_neg hpaused]
        rfl
    | data b rest =>
      cases rest with
      | nil =>
        cases h
        rfl
      | cons blk rest =>
        simp only [saveDataIndex] at h
        simp only [fateDataIndex]
        split at h
        · next hmis =>
          cases h
          rw [if_pos hmis]
          rfl
        · next hmis =>
          rw [if_neg hmis]
          split at h
          · next hfail =>
            cases h
            simp [endedOf, handOf, hfail, Nat.add_comm]
          · next hok =>
            rw [if_neg hok]
            split at h <;> cases h
            · next hwrite =>
              rw [if_pos hwrite]
              rfl
            · next hwrite =>
              rw [if_neg hwrite]
              simp [endedOf, handOf, Nat.add_comm]
    | done => cases h
  stays {pc env pc' es} h hend := by
    cases pc with
    | done => cases h
    | loop => cases hend
    | got b => cases hend
    | data b rest => cases hend

/-- The cipher keeps the length. -/
theorem length_procCipherEncrypt (cfg : Config) (ok : Nat → Bool) (c : Cur) :
    (procCipherEncrypt cfg ok c).1.now.bytes.length = c.now.bytes.length := by
  rw [procCipherEncrypt]
  split
  · rfl
  · exact length_encryptLoop cfg.enc_length _ _ _ _ _

/-- The callback is shown the block, which stays. -/
theorem now_procExtCallBack (cfg : Config) (split : Option Nat) (c : Cur) :
    (procExtCallBack cfg split c).now = c.now := by
  unfold procExtCallBack
  split
  · rfl
  · split
    · split <;> rfl
    · rfl

theorem saveToCache_books {s t : CacheSys} (h : saveToCache cfg a env s = some (t, es)) :
    if cacheEndedOf t.pc then bytes (fateToCache cfg a s env).dropped = 0
    else cacheHandOf false t.pc + (fateToCache cfg a s env).size = cacheHandOf false s.pc + acquiredBytes es := by
  rcases s with ⟨pc, q⟩
  cases pc with
  | loop =>
    simp only [saveToCache] at h
    split at h
    · cases h
      rfl
    · split at h <;> cases h <;> rfl
  | acquire =>
    simp only [saveToCache] at h
    split at h
    · next b hb =>
      split at h <;> cases h
      · next hempty => simp [cacheEndedOf, cacheHandOf, fateToCache, bytes_of_isEmpty hempty]
      · simp [cacheEndedOf, cacheHandOf, fateToCache]
    all_goals
      cases h
      rfl
  | got b =>
    simp only [saveToCache] at h
    split at h
    · next blk hblk =>
      simp only [fateToCache, hblk]
      split at h
      · next hpaused =>
        cases h
        simp [cacheEndedOf, cacheHandOf, hpaused]
      · next hpaused =>
        rw [if_neg hpaused]
        split at h <;> cases h
        · next hmis =>
          rw [if_pos hmis]
          simp [cacheEndedOf, cacheHandOf, hblk]
        · next hmis =>
          rw [if_neg hmis]
          simp [cacheEndedOf, cacheHandOf, hblk, Cur.of]
    · cases h
  | encrypt b c refused =>
    simp only [saveToCache] at h
    simp only [fateToCache]
    split at h <;> cases h
    · next hfail =>
      -- the place to go on depends on the last push, what is in hand does not
      rw [if_pos hfail]
      cases refused <;> simp [cacheEndedOf, cacheHandOf]
    · next hok =>
      rw [if_neg hok]
      simp [cacheEndedOf, cacheHandOf, now_procExtCallBack, length_procCipherEncrypt]
  | push b c rest =>
    simp only [saveToCache] at h
    simp only [fateToCache]
    split at h <;> cases h
    · next hpush =>
      rw [if_pos hpush]
      simp [cacheEndedOf, cacheHandOf]
    · next hfull =>
      rw [if_neg hfull]
      simp [cacheEndedOf, cacheHandOf]
  | index b n => cases h
  | data b rest => cases h
  | done => cases h

theorem saveDataIndexToCache_books {s t : CacheSys}
    (h : saveDataIndexToCache cfg a env s = some (t, es)) :
    if cacheEndedOf t.pc then bytes (fateDataIndexToCache cfg a s env).dropped = 0
    else cacheHandOf true t.pc + (fateDataIndexToCache cfg a s env).size =
      cacheHandOf true s.pc + acquiredBytes es := by
  rcases s with ⟨pc, q⟩
  cases pc with
  | loop =>
    simp only [saveDataIndexToCache] at h
    split at h
    · cases h
      rfl
    · split at h <;> cases h
      · simp [cacheEndedOf, cacheHandOf, fateDataIndexToCache]
      · rfl
      · cases env.restart <;> rfl
      · rfl
  | got b =>
    simp only [saveDataIndexToCache] at h
    simp only [fateDataIndexToCache]
    split at h <;> cases h
    · next hpaused => simp [cacheEndedOf, cacheHandOf, hpaused]
    · next hpaused =>
      rw [if_neg hpaused]
      rfl
  | index b n =>
    cases n with
    | zero =>
      cases h
      rfl
    | succ n =>
      simp only [saveDataIndexToCache, Option.some.injEq, Prod.mk.injEq] at h
      obtain ⟨rfl, rfl⟩ := h
      cases env.index <;> rfl
  | data b rest =>
    cases rest with
    | nil =>
      cases h
      cases env.reachFix <;> rfl
    | cons blk rest =>
      simp only [saveDataIndexToCache] at h
      simp only [fateDataIndexToCache]
      split at h
      · next hmis =>
        cases h
        rw [if_pos hmis]
        rfl
      · next hmis =>
        rw [if_neg hmis]
        split at h <;> cases h
        · next hfail =>
          rw [if_pos hfail]
          simp [cacheEndedOf, cacheHandOf, Nat.add_comm]
        · next hok =>
          rw [if_neg hok]
          simp [cacheEndedOf, cacheHandOf, now_procExtCallBack, length_procCipherEncrypt, Cur.of]
  | push b c rest =>
    simp only [saveDataIndexToCache] at h
    simp only [fateDataIndexToCache]
    split at h <;> cases h
    · next hpush =>
      rw [if_pos hpush]
      simp [cacheEndedOf, cacheHandOf, Nat.add_comm]
    · next hfull =>
      rw [if_neg hfull]
      rfl
  | acquire => cases h
  | encrypt b c refused => cases h
  | done => cases h

/-- A thread that has ended takes no step. -/
theorem saveToCache_stays {s t : CacheSys} {i : CacheInput}
    (h : cacheStep cfg a queueBlock dataIdx s i = some (t, es)) (hend : cacheEndedOf s.pc = true) :
    cacheEndedOf t.pc = true := by
  cases i with
  | save env =>
    rcases s with ⟨pc, q⟩
    cases pc with
    | done => cases dataIdx <;> cases h
    | loop => cases hend
    | acquire => cases hend
    | got b => cases hend
    | index b n => cases hend
    | data b rest => cases hend
    | encrypt b c refused => cases hend
    | push b c rest => cases hend
  | pollBuff =>
    obtain ⟨hpc, -⟩ := cacheStep_poll (by simp) h
    rw [hpc, hend]
  | pollHead n =>
    obtain ⟨hpc, -⟩ := cacheStep_poll (by simp) h
    rw [hpc, hend]

theorem poll_books {s t : CacheSys} {i : CacheInput} (hi : ∀ env, i ≠ .save env)
    (h : cacheStep cfg a queueBlock dataIdx s i = some (t, es)) :
    if cacheEndedOf t.pc then bytes Fate.keeps.dropped = 0
    else cacheHandOf dataIdx t.pc + Fate.keeps.size = cacheHandOf dataIdx s.pc + acquiredBytes es := by
  obtain ⟨hpc, rfl⟩ := cacheStep_poll hi h
  rw [hpc]
  split <;> rfl

theorem lawful_toCache (dataIdx : Bool) : Lawful (toCache cfg a queueBlock dataIdx) where
  books {s i t es} h := by
    change cacheStep cfg a queueBlock dataIdx s i = some (t, es) at h
    cases i with
    | save env =>
      cases dataIdx with
      | true => exact saveDataIndexToCache_books h
      | false => exact saveToCache_books h
    | pollBuff => exact poll_books (by simp) h
    | pollHead n => exact poll_books (by simp) h
  stays h hend := saveToCache_stays h hend

theorem Kind.lawful (k : Kind) : Lawful (k.routine cfg a queueBlock) := by
  cases k with
  | indexAndStream => exact lawful_indexAndStream
  | dataIndex => exact lawful_dataIndex
  | toCache => exact lawful_toCache false
  | dataIndexToCache => exact lawful_toCache true

/-! ## The count -/

section Books

variable {r : Routine σ ι} {s t : Books σ} {i : ι}

/-- The bytes of the stream are accounted for, as long as the thread goes on. -/
def Books.Balanced (r : Routine σ ι) (s : Books σ) : Prop :=
  r.ended s.thread = false → s.acquired = s.discarded + s.recorded + s.dropped + r.hand s.thread

theorem Books.balanced_start (h : r.hand thread = 0) : (Books.start thread).Balanced r := by
  intro _
  show 0 = 0 + 0 + 0 + r.hand thread
  rw [h]

theorem bookedStep_some (h : r.bookedStep s i = some (t, es)) :
    r.step s.thread i = some (t.thread, es) ∧ t = s.after (r.fate s.thread i) (r.counts i) t.thread es := by
  obtain ⟨q, hq, heq⟩ := Option.map_eq_some_iff.mp h
  obtain ⟨rfl, rfl⟩ := Prod.mk.inj heq
  exact ⟨hq, rfl⟩

theorem Books.Balanced.step (hr : Lawful r) (h : s.Balanced r) (hnext : r.bookedStep s i = some (t, es)) :
    t.Balanced r := by
  obtain ⟨hstep, heq⟩ := bookedStep_some hnext
  intro hend
  have hgoes : r.ended s.thread = false := by
    by_contra hs
    rw [Bool.not_eq_false] at hs
    rw [hr.stays hstep hs] at hend
    cases hend
  have hbooks := hr.books hstep
  rw [hend, if_neg Bool.false_ne_true] at hbooks
  have hbalance := h hgoes
  rw [heq]
  show s.acquired + acquiredBytes es = s.discarded + bytes _ + (s.recorded + bytes _) + (s.dropped + bytes _) +
    r.hand t.thread
  rw [Fate.size] at hbooks
  omega

/-- **The count is right**: it is the number of bytes discarded, and an offset in the stream, less the count, is as far
    from the end of what is recorded as the offset is from the place that the thread is at. -/
def Books.Right (r : Routine σ ι) (s : Books σ) : Prop :=
  s.delta = BitVec.ofNat 64 s.discarded ∧
  (r.ended s.thread = false → ∀ offset place : Nat,
    offset + s.recorded + r.hand s.thread = s.acquired + place →
    BitVec.ofNat 64 offset - s.delta = BitVec.ofNat 64 place)

/-- A batch that is discarded is counted, or empty; no block is dropped. -/
def Kept (r : Routine σ ι) (s : Books σ) (i : ι) : Prop :=
  (r.counts i = true ∨ BitVec.ofNat 64 (bytes (r.fate s.thread i).discarded) = 0) ∧
  bytes (r.fate s.thread i).dropped = 0
deriving Decidable

theorem ofNat_add_sub (m n : Nat) : BitVec.ofNat 64 (m + n) - BitVec.ofNat 64 m = BitVec.ofNat 64 n := by
  rw [BitVec.ofNat_add, BitVec.add_comm, BitVec.add_sub_cancel]

theorem Books.Balanced.right (h : s.Balanced r) (hdelta : s.delta = BitVec.ofNat 64 s.discarded)
    (hdropped : s.dropped = 0) : s.Right r := by
  refine ⟨hdelta, fun hend offset place hoffset => ?_⟩
  have hbalance := h hend
  obtain rfl : offset = s.discarded + place := by omega
  rw [hdelta, ofNat_add_sub]

theorem Books.Balanced.dropped_eq (h : s.Balanced r) (hright : s.Right r) (hend : r.ended s.thread = false) :
    BitVec.ofNat 64 s.dropped = 0 := by
  have hbalance := h hend
  have hplace := hright.2 hend (s.discarded + s.dropped) 0 (by omega)
  rwa [hright.1, ofNat_add_sub] at hplace

/-- The count of a step is right exactly if the batch is counted. -/
theorem delta_after_iff {f : Fate} {counts : Bool} (hdelta : s.delta = BitVec.ofNat 64 s.discarded) :
    (s.after f counts thread es).delta = BitVec.ofNat 64 (s.after f counts thread es).discarded ↔
      counts = true ∨ BitVec.ofNat 64 (bytes f.discarded) = 0 := by
  show (if counts then countBlocks s.delta f.discarded else s.delta) =
    BitVec.ofNat 64 (s.discarded + bytes f.discarded) ↔ _
  rw [BitVec.ofNat_add, ← hdelta, countBlocks_eq]
  cases counts with
  | true => exact iff_of_true rfl (.inl rfl)
  | false =>
    rw [if_neg Bool.false_ne_true, or_iff_right Bool.false_ne_true, eq_comm, BitVec.add_right_eq_self]
    rfl

/-- What a run that keeps to the condition has. -/
theorem run_kept (hr : Lawful r) (h0 : r.hand thread = 0)
    (h : Run r.bookedStep (Kept r) (.start thread) is s es) :
    s.Balanced r ∧ s.delta = BitVec.ofNat 64 s.discarded ∧ s.dropped = 0 := by
  refine h.inv (fun _ s => s.Balanced r ∧ s.delta = BitVec.ofNat 64 s.discarded ∧ s.dropped = 0)
    ⟨Books.balanced_start h0, rfl, rfl⟩ ?_
  rintro _ s i t fs ⟨hbalance, hdelta, hdropped⟩ ⟨hcounted, hnone⟩ hnext
  have heq := (bookedStep_some hnext).2
  refine ⟨hbalance.step hr hnext, ?_, ?_⟩
  · rw [heq]
    exact (delta_after_iff hdelta).mpr hcounted
  · rw [heq]
    show s.dropped + bytes _ = 0
    rw [hdropped, hnone]

/-- **Exact condition**, for any thread: the count is right all along a run if and only if each batch that is discarded
    is counted and no block is dropped. -/
theorem Lawful.kept_iff (hr : Lawful r) (h0 : r.hand thread = 0)
    (h : Run r.bookedStep always (.start thread) is s es) :
    (∀ js t fs, js <+: is → Run r.bookedStep always (.start thread) js t fs → t.Right r) ↔
      Run r.bookedStep (Kept r) (.start thread) is s es := by
  refine Run.iff_along (P := fun _ s _ => s.Right r) ?_ ?_ h
  · intro is s es hrun
    obtain ⟨hbalance, hdelta, hdropped⟩ := run_kept hr h0 hrun
    exact hbalance.right hdelta hdropped
  · intro is s es i t fs hrun hnot hnext hright
    obtain ⟨hbalance, hdelta, hdropped⟩ := run_kept hr h0 hrun
    obtain ⟨hstep, heq⟩ := bookedStep_some hnext
    refine hnot ⟨?_, ?_⟩
    · have hcount := hright.1
      rw [heq] at hcount
      exact (delta_after_iff hdelta).mp hcount
    · by_contra hdrops
      -- the thread goes on behind a block that it drops, so the places are off
      have hend : r.ended t.thread = false := by
        by_contra hend
        rw [Bool.not_eq_false] at hend
        have hbooks := hr.books hstep
        rw [if_pos hend] at hbooks
        exact hdrops hbooks
      have hzero := (hbalance.step hr hnext).dropped_eq hright hend
      rw [heq] at hzero
      change BitVec.ofNat 64 (s.dropped + bytes _) = 0 at hzero
      rw [hdropped, Nat.zero_add] at hzero
      have hmod := congrArg BitVec.toNat hzero
      rw [BitVec.toNat_ofNat, Nat.mod_eq_of_lt (r.fate s.thread i).dropped_lt] at hmod
      exact hdrops hmod

end Books

theorem Kind.hand_init (k : Kind) : (k.routine cfg a queueBlock).hand (k.init a) = 0 := by
  cases k <;> rfl

/-- **The offset delta**, in each of the four threads. -/
theorem delta_iff (cfg : Config) (a : Area) (queueBlock : BitVec 32) (k : Kind) {is : List k.Input}
    {s : Books k.Thread} {es : List Event}
    (h : Run (k.routine cfg a queueBlock).bookedStep always (.start (k.init a)) is s es) :
    (∀ js t fs, js <+: is → Run (k.routine cfg a queueBlock).bookedStep always (.start (k.init a)) js t fs →
      t.Right (k.routine cfg a queueBlock)) ↔
    Run (k.routine cfg a queueBlock).bookedStep (Kept (k.routine cfg a queueBlock)) (.start (k.init a)) is s es :=
  k.lawful.kept_iff k.hand_init h

/-- A pause that discards a batch, and one batch behind it; `index` is whether an index entry comes with the first. -/
def pauseRun (index : Bool) : List Env :=
  [{ calmEnv with acquire := .success oneBlock }, { calmEnv with paused := true, index := index },
    { calmEnv with acquire := .success oneBlock }, calmEnv]

/-- The thread without `PVR_ACQUIREDATAINDX`, booked. -/
def bookedIndexAndStream : Books Pc → Env → Option (Books Pc × List Event) :=
  (Kind.routine plusOne smallArea 376 .indexAndStream).bookedStep

/-- A pause in the loop: the delta is what was recorded, all along. -/
theorem delta_iff_pause :
    ∃ s es, Run bookedIndexAndStream always (.start .loop) (pauseRun true) s es ∧
      s.delta = 752 ∧ s.recorded = 752 ∧
      ∀ js t fs, js <+: pauseRun true → Run bookedIndexAndStream always (.start .loop) js t fs →
        t.Right (Kind.routine plusOne smallArea 376 .indexAndStream) := by
  obtain ⟨s, es, hrun, htest⟩ := exists_run_of_exec bookedIndexAndStream
    (Kept (Kind.routine plusOne smallArea 376 .indexAndStream)) (.start .loop) (pauseRun true)
    (fun r => decide (r.1.delta = 752 ∧ r.1.recorded = 752)) (by decide +kernel)
  obtain ⟨hdelta, hrecorded⟩ := of_decide_eq_true htest
  have hall : Run bookedIndexAndStream always (.start .loop) (pauseRun true) s es := hrun.mono fun _ _ _ => trivial
  exact ⟨s, es, hall, hdelta, hrecorded, (delta_iff plusOne smallArea 376 .indexAndStream hall).mpr hrun⟩

/-- **A count that is short.** The batch of the pause comes without an index entry and is not counted; the frame behind
    it is recorded at 0, and its offset less the count is 752. -/
theorem count_short :
    ∃ s es, Run bookedIndexAndStream always (.start .loop) (pauseRun false) s es ∧
      s.acquired = 1504 ∧ s.discarded = 752 ∧ s.recorded = 752 ∧ s.delta = 0 ∧
      ¬ s.Right (Kind.routine plusOne smallArea 376 .indexAndStream) := by
  refine exists_run_imp (fun s _ => s.acquired = 1504 ∧ s.discarded = 752 ∧ s.recorded = 752 ∧ s.delta = 0)
    (by decide +kernel) fun _ _ _ htest => ?_
  obtain ⟨hacquired, hdiscarded, hrecorded, hdelta⟩ := htest
  refine ⟨hacquired, hdiscarded, hrecorded, hdelta, fun hright => ?_⟩
  have hcount := hright.1
  rw [hdelta, hdiscarded] at hcount
  exact absurd hcount (by decide)

end HiSTB.Pvr.Delta
