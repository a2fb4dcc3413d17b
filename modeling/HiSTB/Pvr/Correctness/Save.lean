import HiSTB.Pvr.Save
import Mathlib.Data.List.Basic

/-!
# `Pvr.Correctness.Save` — batches are given back, blocks are encrypted once

The first half is about the batches of all five threads. `ledger` walks over the events and keeps the batch that is
with the thread; it fails where a batch is acquired while there is another one, or given back while there is none.
Each thread's position says what it has (`Pc.holding`), and one lemma for each thread says that a step keeps the two
together.

The second half is about the blocks that reach the record TS queue. A block is encrypted before each attempt to push
it, or before the first one only, as the build has it.
-/

namespace HiSTB.Pvr.Save

open Lib TsQueue

variable {cfg : Config} {a : Area} {queueBlock : BitVec 32} {env : Env} {es fs : List Event} {pc pc' : Pc}
variable {dataIdx : Bool} {i : CacheInput} {f : List Byte → List Byte} {maxLen left : Nat}
    {bs : List Byte} {c : Cur}

  {s t : CacheSys}

/-! ## The ledger of batches -/

/-- The batch that is with the thread after an event. -/
def track (h : Option Batch) : Event → Option (Option Batch)
  | .acquired b => if h = none then some (some b) else none
  | .released b => if h = some b then some none else none
  | .pushed _ => some h

/-- The batch that is with the thread; `none` where an event does not fit. -/
def ledger (es : List Event) : Option (Option Batch) := es.foldlM track none

theorem ledger_append {h : Option Batch} (hes : ledger es = some h) : ledger (es ++ fs) = fs.foldlM track h := by
  unfold ledger at hes ⊢
  rw [List.foldlM_append, hes]
  rfl

@[simp] theorem track_acquired (b : Batch) : track none (.acquired b) = some (some b) := rfl

@[simp] theorem track_released (b : Batch) : track (some b) (.released b) = some none := if_pos rfl

@[simp] theorem track_pushed (h : Option Batch) (c : Cur) : track h (.pushed c) = some h := rfl

/-- What a thread has at each place. -/
def Pc.holding : Pc → Option Batch
  | .loop | .done => none
  | .got b | .data b _ => some b

def CachePc.holding : CachePc → Option Batch
  | .loop | .acquire | .done => none
  | .got b | .index b _ | .data b _ | .encrypt b _ _ | .push b _ _ => some b

theorem saveStream_ledger (h : saveStream cfg env pc = some (pc', fs)) :
    fs.foldlM track pc.holding = some pc'.holding := by
  cases pc with
  | loop =>
    simp only [saveStream] at h
    split at h
    · cases h
      rfl
    · split at h <;> cases h <;> rfl
  | got b =>
    -- every way out of the body gives the batch back
    simp only [saveStream] at h
    split at h
    · split at h
      · cases h
        simp [Pc.holding]
      · split at h
        · cases h
          simp [Pc.holding]
        · split at h
          · cases h
            simp [Pc.holding]
          · split at h <;> cases h <;> simp [Pc.holding]
    · cases h
  | data b rest => cases h
  | done => cases h

/-- The data is not empty, and a block that is not skipped in a pause has a good length. -/
def Aligned (cfg : Config) (pc : Pc) (env : Env) : Prop :=
  match pc with
  | .loop => ∀ b, env.acquire = .success b → b.blocks.all (fun blk => blk.bytes.isEmpty) = false
  | .got b => env.paused = true ∨ ∀ blk ∈ b.blocks, misaligned cfg.tsLen blk = false
  | .data .. | .done => True

theorem saveIndexAndStream_ledger (hok : Aligned cfg pc env) (h : saveIndexAndStream cfg env pc = some (pc', fs)) :
    fs.foldlM track pc.holding = some pc'.holding := by
  cases pc with
  | loop =>
    simp only [saveIndexAndStream] at h
    split at h
    · cases h
      rfl
    · split at h
      · next b hb =>
        rw [hok b hb] at h
        cases h
        rfl
      · cases h
        rfl
      · cases h
        rfl
      · cases h
        rfl
  | got b =>
    simp only [saveIndexAndStream] at h
    split at h
    · next blk hblk =>
      split at h
      · cases h
        simp [Pc.holding]
      · next hpaused =>
        have hal : misaligned cfg.tsLen blk = false := by
          rcases hok with hp | hal
          · exact absurd hp hpaused
          · exact hal blk (by rw [hblk]; exact List.mem_singleton_self blk)
        rw [hal] at h
        simp only [Bool.false_eq_true, if_false] at h
        split at h
        · cases h
          simp [Pc.holding]
        · split at h <;> cases h <;> simp [Pc.holding]
    · cases h
  | data b rest => cases h
  | done => cases h

/-- The cipher does not fail on a block of good length. -/
def Ciphers (cfg : Config) (pc : Pc) (env : Env) : Prop :=
  match pc with
  | .data _ (blk :: _) =>
    blk.bytes ≠ [] → misaligned 188 blk = false → (procCipherEncrypt cfg env.cipher (Cur.of blk)).2 = true
  | _ => True

theorem saveDataIndex_ledger (hok : Ciphers cfg pc env) (h : saveDataIndex cfg env pc = some (pc', fs)) :
    fs.foldlM track pc.holding = some pc'.holding := by
  cases pc with
  | loop =>
    simp only [saveDataIndex] at h
    split at h
    · cases h
      rfl
    · split at h
      · cases h
        rfl
      · cases h
        rfl
      · split at h <;> cases h <;> rfl
      · cases h
        rfl
  | got b =>
    simp only [saveDataIndex] at h
    split at h
    · cases h
      simp [Pc.holding]
    · cases h
      rfl
  | data b rest =>
    cases rest with
    | nil =>
      cases h
      simp [Pc.holding]
    | cons blk rest =>
      simp only [saveDataIndex] at h
      split at h
      · cases h
        simp [Pc.holding]
      · next hlen =>
        rw [not_or] at hlen
        rw [hok hlen.1 (Bool.not_eq_true _ ▸ hlen.2)] at h
        simp only [Bool.true_eq_false, if_false] at h
        split at h
        · cases h
          simp [Pc.holding]
        · cases h
          rfl
  | done => cases h

/-- The data is not empty. -/
def NonEmpty (pc : CachePc) (env : Env) : Prop :=
  match pc with
  | .acquire => ∀ b, env.acquire = .success b → b.blocks.all (fun blk => blk.bytes.isEmpty) = false
  | _ => True

theorem saveToCache_ledger (hok : NonEmpty s.pc env) (h : saveToCache cfg a env s = some (t, fs)) :
    fs.foldlM track s.pc.holding = some t.pc.holding := by
  obtain ⟨pc, q⟩ := s
  cases pc with
  | loop =>
    simp only [saveToCache] at h
    split at h
    · cases h
      rfl
    · split at h <;> cases h <;> rfl
  | acquire =>
    simp only [saveToCache] at h
    split at h
    · next b hb =>
      rw [hok b hb] at h
      cases h
      rfl
    · cases h
      rfl
    · cases h
      rfl
    · cases h
      rfl
  | got b =>
    simp only [saveToCache] at h
    split at h
    · split at h
      · cases h
        simp [CachePc.holding]
      · split at h
        · cases h
          simp [CachePc.holding]
        · cases h
          rfl
    · cases h
  | encrypt b c refused =>
    simp only [saveToCache] at h
    split at h
    · cases h
      cases refused <;> simp [CachePc.holding]
    · cases h
      rfl
  | push b c rest =>
    simp only [saveToCache] at h
    split at h
    · cases h
      simp [CachePc.holding]
    · cases h
      rfl
  | index b n => cases h
  | data b rest => cases h
  | done => cases h

theorem saveDataIndexToCache_ledger (h : saveDataIndexToCache cfg a env s = some (t, fs)) :
    fs.foldlM track s.pc.holding = some t.pc.holding := by
  obtain ⟨pc, q⟩ := s
  cases pc with
  | loop =>
    simp only [saveDataIndexToCache] at h
    split at h
    · cases h
      rfl
    · split at h
      · cases h
        rfl
      · cases h
        rfl
      · cases h
        cases env.restart <;> rfl
      · cases h
        rfl
  | got b =>
    simp only [saveDataIndexToCache] at h
    split at h
    · cases h
      simp [CachePc.holding]
    · cases h
      rfl
  | index b n =>
    cases n with
    | zero =>
      cases h
      rfl
    | succ n =>
      cases h
      cases env.index <;> rfl
  | data b rest =>
    cases rest with
    | nil =>
      cases h
      cases env.reachFix <;> simp [CachePc.holding]
    | cons blk rest =>
      simp only [saveDataIndexToCache] at h
      split at h
      · cases h
        simp [CachePc.holding]
      · split at h <;> cases h <;> rfl
  | push b c rest =>
    simp only [saveDataIndexToCache] at h
    split at h <;> cases h <;> rfl
  | acquire => cases h
  | encrypt b c refused => cases h
  | done => cases h

/-- The condition of `PVRRecSaveToCache`, in the build without `PVR_ACQUIREDATAINDX`. -/
def CacheNonEmpty (dataIdx : Bool) (s : CacheSys) : CacheInput → Prop
  | .save env => dataIdx = false → NonEmpty s.pc env
  | .pollBuff | .pollHead _ => True

/-- The thread that empties the queue has no batch. -/
theorem cacheStep_poll (hi : ∀ env, i ≠ .save env)
    (h : cacheStep cfg a queueBlock dataIdx s i = some (t, fs)) : t.pc = s.pc ∧ fs = [] := by
  cases i with
  | save env => exact absurd rfl (hi env)
  | pollBuff =>
    simp only [cacheStep, Option.map_eq_some_iff] at h
    obtain ⟨r, -, heq⟩ := h
    obtain ⟨rfl, rfl⟩ := Prod.mk.inj heq
    exact ⟨rfl, rfl⟩
  | pollHead n =>
    simp only [cacheStep, Option.map_eq_some_iff] at h
    obtain ⟨r, -, heq⟩ := h
    obtain ⟨rfl, rfl⟩ := Prod.mk.inj heq
    exact ⟨rfl, rfl⟩

theorem cacheStep_ledger (hok : CacheNonEmpty dataIdx s i)
    (h : cacheStep cfg a queueBlock dataIdx s i = some (t, fs)) :
    fs.foldlM track s.pc.holding = some t.pc.holding := by
  cases i with
  | save env =>
    cases dataIdx with
    | true => exact saveDataIndexToCache_ledger h
    | false => exact saveToCache_ledger (hok rfl) h
  | pollBuff =>
    obtain ⟨hpc, rfl⟩ := cacheStep_poll (by simp) h
    rw [hpc]
    rfl
  | pollHead n =>
    obtain ⟨hpc, rfl⟩ := cacheStep_poll (by simp) h
    rw [hpc]
    rfl

/-- A thread whose steps keep the ledger, keeps it all along. -/
theorem run_ledger {σ ι : Type} {step : σ → ι → Option (σ × List Event)} {C : σ → ι → Prop}
    {f : σ → Option Batch} {s₀ s : σ} (h0 : f s₀ = none)
    (hstep : ∀ s i t fs, C s i → step s i = some (t, fs) → fs.foldlM track (f s) = some (f t))
    {is : List ι} (hrun : Run step C s₀ is s es) : ledger es = some (f s) := by
  refine hrun.inv_effects (fun _ s es => ledger es = some (f s)) ?_ ?_
  · rw [h0]
    rfl
  · intro is s es i t fs hes hc hnext
    rw [ledger_append hes]
    exact hstep s i t fs hc hnext

/-- **Batches are given back.** In each of the threads, on every way through it that meets its condition, the events
    leave the batch that the thread has at its place, and none where it ends or acquires the next one: each batch was
    given back exactly once. -/
theorem run_batches (cfg : Config) (a : Area) (queueBlock : BitVec 32) :
    (∀ {is pc es}, Run (fun pc env => saveStream cfg env pc) always .loop is pc es →
      ledger es = some pc.holding) ∧
    (∀ {is pc es}, Run (fun pc env => saveIndexAndStream cfg env pc) (Aligned cfg) .loop is pc es →
      ledger es = some pc.holding) ∧
    (∀ {is pc es}, Run (fun pc env => saveDataIndex cfg env pc) (Ciphers cfg) .loop is pc es →
      ledger es = some pc.holding) ∧
    ∀ {dataIdx is s es}, Run (cacheStep cfg a queueBlock dataIdx) (CacheNonEmpty dataIdx) (cacheInit a) is s es →
      ledger es = some s.pc.holding := by
  refine ⟨fun hrun => ?_, fun hrun => ?_, fun hrun => ?_, fun hrun => ?_⟩
  · exact run_ledger rfl (fun _ _ _ _ _ hnext => saveStream_ledger hnext) hrun
  · exact run_ledger rfl (fun _ _ _ _ hok hnext => saveIndexAndStream_ledger hok hnext) hrun
  · exact run_ledger rfl (fun _ _ _ _ hok hnext => saveDataIndex_ledger hok hnext) hrun
  · exact run_ledger (f := fun s => s.pc.holding) rfl (fun _ _ _ _ hok hnext => cacheStep_ledger hok hnext) hrun

/-- An environment in which nothing happens and nothing fails. -/
def calmEnv : Env :=
  { stopped := false, paused := false, acquire := .noData, cipher := fun _ => true, split := none, write := true,
    index := true, restart := true, reachFix := false }

/-- The cipher adds 1 to each byte. -/
def plusOne : Config :=
  { doCipher := true, writeCallBack := true, enc := List.map (· + 1), enc_length := fun _ => List.length_map _,
    tsLen := 188, cipherMaxLen := 512 }

/-- A queue that has room for one block of 752 bytes. -/
def smallArea : Area := ⟨0x2400, 1000, by decide, by decide, by decide⟩

/-- A block of `n` bytes. -/
def zeros (n : Nat) (h : n < 0x100000000) : Block := ⟨List.replicate n 0, by rw [List.length_replicate]; exact h⟩

/-- One block of good length. -/
def oneBlock : Batch := ⟨[zeros 752 (by decide)], 1⟩

instance (pc : Pc) (env : Env) : Decidable (Ciphers plusOne pc env) := by
  unfold Ciphers
  split <;> infer_instance

/-- A batch of one block, a pause, and a stop. -/
def batchRun : List Env :=
  [{ calmEnv with acquire := .success oneBlock }, calmEnv, calmEnv, calmEnv,
    { calmEnv with acquire := .success oneBlock }, { calmEnv with paused := true }, { calmEnv with stopped := true }]

/-- In the end nothing is held: each block that was acquired was given back. -/
theorem run_batches_stop :
    ∃ pc es, Run (fun pc env => saveDataIndex plusOne env pc) (Ciphers plusOne) .loop batchRun pc es ∧
      pc.holding = none ∧ es.length = 4 ∧ ledger es = some none := by
  refine exists_run_imp (fun pc es => pc.holding = none ∧ es.length = 4) (by decide +kernel) fun _ _ hrun htest => ?_
  obtain ⟨hnone, hlen⟩ := htest
  have hled := (run_batches plusOne smallArea 376).2.2.1 hrun
  rw [hnone] at hled
  exact ⟨hnone, hlen, hled⟩

/-- A block whose length is not a multiple of the packet length. -/
def oddBlock : Batch := ⟨[zeros 16 (by decide)], 1⟩

/-- **A batch that stays, and a batch that goes back twice.** The routine without `PVR_ACQUIREDATAINDX` ends on a
    block of odd length with the batch in its hands; the routine with it goes on with the loop over the blocks after a
    cipher failure, and gives the batch back again. -/
theorem batch_kept_and_batch_twice :
    (∃ pc es, Run (fun pc env => saveIndexAndStream plusOne env pc) always .loop
        [{ calmEnv with acquire := .success oddBlock }, calmEnv] pc es ∧
      pc.holding = none ∧ ledger es = some (some oddBlock)) ∧
    ∃ pc es, Run (fun pc env => saveDataIndex plusOne env pc) always .loop
        [{ calmEnv with acquire := .success oneBlock }, calmEnv, { calmEnv with cipher := fun _ => false }, calmEnv]
        pc es ∧
      ledger es = none := by
  constructor
  · exact exists_run_of_decide (by decide)
  · exact exists_run_of_decide (by decide +kernel)

/-! ## Encrypted once -/

/-- One pass of the cipher over a block in which no call fails. -/
def cipherText (f : List Byte → List Byte) (maxLen : Nat) (bs : List Byte) : List Byte :=
  (encryptLoop f maxLen (fun _ => true) 20 0 bs).1

/-- A pass that succeeds is one in which no call fails. -/
theorem encryptLoop_all {i : Nat} {ok : Nat → Bool}
    (h : (encryptLoop f maxLen ok left i bs).2 = true) :
    encryptLoop f maxLen (fun _ => true) left i bs = encryptLoop f maxLen ok left i bs := by
  induction left generalizing i bs with
  | zero =>
    unfold encryptLoop at h ⊢
    split
    · rfl
    · next hne =>
      rw [if_neg hne] at h
      split at h
      · cases h
      · cases h
  | succ left ih =>
    unfold encryptLoop at h ⊢
    split
    · rfl
    · next hne =>
      rw [if_neg hne] at h
      split at h
      · cases h
      · next hok =>
        rw [if_neg hok, if_neg (by simp)]
        simp only [ih h]

/-- What was encrypted in one pass is decrypted in one pass. -/
theorem encryptLoop_decrypt {g : List Byte → List Byte} (hlen : ∀ bs, (f bs).length = bs.length)
    (hinv : ∀ bs, g (f bs) = bs) {i : Nat}
    (h : (encryptLoop f maxLen (fun _ => true) left i bs).2 = true) :
    encryptLoop g maxLen (fun _ => true) left i (encryptLoop f maxLen (fun _ => true) left i bs).1 = (bs, true) := by
  induction left generalizing i bs with
  | zero =>
    by_cases hnil : bs = []
    · subst hnil
      rfl
    · unfold encryptLoop at h
      rw [if_neg hnil, if_neg (by simp)] at h
      cases h
  | succ left ih =>
    by_cases hnil : bs = []
    · subst hnil
      simp [encryptLoop]
    · have hrest : (encryptLoop f maxLen (fun _ => true) left (i + 1) (bs.drop maxLen)).2 = true := by
        unfold encryptLoop at h
        rw [if_neg hnil, if_neg (by simp)] at h
        exact h
      have hnext := ih hrest
      have hl := length_encryptLoop hlen maxLen (fun _ => true) left (i + 1) (bs.drop maxLen)
      have hval : (encryptLoop f maxLen (fun _ => true) (left + 1) i bs).1 = f (bs.take maxLen) ++
          (encryptLoop f maxLen (fun _ => true) left (i + 1) (bs.drop maxLen)).1 := by
        conv_lhs => unfold encryptLoop
        rw [if_neg hnil, if_neg (by simp)]
      rw [hval]
      generalize (encryptLoop f maxLen (fun _ => true) left (i + 1) (bs.drop maxLen)).1 = rest at hnext hl ⊢
      have hne : f (bs.take maxLen) ++ rest ≠ [] := by
        intro hz
        have hz' := congrArg List.length hz
        rw [List.length_append, hlen, List.length_take, hl, List.length_drop, List.length_nil] at hz'
        exact hnil (List.length_eq_zero_iff.mp (by omega))
      -- the pieces are where they were: only the last one can be short, and then nothing comes behind it
      have hcut : (f (bs.take maxLen) ++ rest).take maxLen = f (bs.take maxLen) ∧
          (f (bs.take maxLen) ++ rest).drop maxLen = rest := by
        by_cases hm : maxLen ≤ bs.length
        · have hfl : (f (bs.take maxLen)).length = maxLen := by
            rw [hlen, List.length_take]
            omega
          exact ⟨List.take_left' hfl, List.drop_left' hfl⟩
        · have hz : rest = [] := by
            rw [List.length_drop] at hl
            exact List.length_eq_zero_iff.mp (by omega)
          subst hz
          rw [List.append_nil]
          have hfl : (f (bs.take maxLen)).length ≤ maxLen := by
            rw [hlen, List.length_take]
            omega
          exact ⟨List.take_of_length_le hfl, List.drop_of_length_le hfl⟩
      unfold encryptLoop
      rw [if_neg hne, if_neg (by simp)]
      simp only [hcut.1, hcut.2, hnext, hinv, List.take_append_drop]

/-- The block was encrypted once, if at all, and the callback has got each byte of it once. -/
structure Once (cfg : Config) (c : Cur) : Prop where
  encs : c.encs = cfg.doCipher.toNat
  now : c.now.bytes = if cfg.doCipher then cipherText cfg.enc cfg.cipherMaxLen c.orig.bytes else c.orig.bytes
  decrypts : cfg.doCipher = true → ∀ dec : List Byte → List Byte, (∀ bs, dec (cfg.enc bs) = bs) →
    cipherText dec cfg.cipherMaxLen c.now.bytes = c.orig.bytes
  passed : c.passed.flatten = if cfg.writeCallBack then c.now.bytes else []
  silent : cfg.writeCallBack = false → c.passed = []

/-- A block that nothing has happened to. -/
def Cur.Fresh (c : Cur) : Prop := c = Cur.of c.orig

theorem procExtCallBack_passed (cfg : Config) (split : Option Nat) (c : Cur) :
    (procExtCallBack cfg split c).orig = c.orig ∧ (procExtCallBack cfg split c).now = c.now ∧
    (procExtCallBack cfg split c).encs = c.encs ∧
    ((procExtCallBack cfg split c).passed.flatten = c.passed.flatten ++ if cfg.writeCallBack then c.now.bytes else []) ∧
    (cfg.writeCallBack = false → (procExtCallBack cfg split c).passed = c.passed) := by
  unfold procExtCallBack
  split
  · next hno => simp [hno]
  · next hyes =>
    rw [Bool.not_eq_false] at hyes
    split
    · split
      · simp [hyes]
      · simp [hyes]
    · simp [hyes]

/-- A fresh block, encrypted and offered to the callback. -/
theorem Cur.Fresh.once (hfresh : c.Fresh) (cfg : Config) (env : Env)
    (hok : (procCipherEncrypt cfg env.cipher c).2 = true) :
    Once cfg (procExtCallBack cfg env.split (procCipherEncrypt cfg env.cipher c).1) ∧
      (procExtCallBack cfg env.split (procCipherEncrypt cfg env.cipher c).1).orig = c.orig := by
  obtain ⟨horig, hnow, hencs, hpassed, hsilent⟩ :=
    procExtCallBack_passed cfg env.split (procCipherEncrypt cfg env.cipher c).1
  rw [Cur.Fresh] at hfresh
  cases hcipher : cfg.doCipher with
  | false =>
    have hsame : procCipherEncrypt cfg env.cipher c = (c, true) := by
      unfold procCipherEncrypt
      exact if_pos hcipher
    rw [hsame] at horig hnow hencs hpassed hsilent ⊢
    refine ⟨⟨?_, ?_, ?_, ?_, ?_⟩, horig⟩
    · rw [hencs, hfresh, hcipher]
      rfl
    · rw [hnow, horig, hfresh, hcipher]
      rfl
    · intro h
      rw [hcipher] at h
      cases h
    · rw [hpassed, hnow, hfresh]
      rfl
    · intro hno
      rw [hsilent hno, hfresh]
      rfl
  | true =>
    have hdone : (encryptLoop cfg.enc cfg.cipherMaxLen env.cipher 20 0 c.now.bytes).2 = true := by
      unfold procCipherEncrypt at hok
      rw [if_neg (by simp [hcipher])] at hok
      exact hok
    have hr : (procCipherEncrypt cfg env.cipher c).1.orig = c.orig ∧
        (procCipherEncrypt cfg env.cipher c).1.encs = c.encs + 1 ∧
        (procCipherEncrypt cfg env.cipher c).1.passed = c.passed ∧
        (procCipherEncrypt cfg env.cipher c).1.now.bytes
          = (encryptLoop cfg.enc cfg.cipherMaxLen env.cipher 20 0 c.now.bytes).1 := by
      unfold procCipherEncrypt
      rw [if_neg (by simp [hcipher])]
      exact ⟨rfl, rfl, rfl, rfl⟩
    obtain ⟨ho, he, hp, hn⟩ := hr
    have hall := encryptLoop_all hdone
    have hbytes : c.now.bytes = c.orig.bytes := by rw [hfresh]; rfl
    have htext : (procCipherEncrypt cfg env.cipher c).1.now.bytes
        = cipherText cfg.enc cfg.cipherMaxLen c.orig.bytes := by
      rw [hn, ← hall, hbytes]
      rfl
    refine ⟨⟨?_, ?_, ?_, ?_, ?_⟩, horig.trans ho⟩
    · rw [hencs, he, hfresh, hcipher]
      rfl
    · rw [hnow, htext, horig, ho, hcipher, if_pos rfl]
    · intro _ dec hdec
      rw [hnow, htext, horig, ho]
      unfold cipherText
      rw [encryptLoop_decrypt cfg.enc_length hdec (by rw [← hbytes, hall]; exact hdone)]
    · rw [hpassed, hp, hnow, hfresh]
      rfl
    · intro hno
      rw [hsilent hno, hp, hfresh]
      rfl

/-- What is known of the block at each place. -/
def PcOk (cfg : Config) : CachePc → Prop
  | .encrypt b c _ => c.Fresh ∧ c.orig ∈ b.blocks
  | .push b c rest => Once cfg c ∧ c.orig ∈ b.blocks ∧ ∀ blk ∈ rest, blk ∈ b.blocks
  | .data b rest => ∀ blk ∈ rest, blk ∈ b.blocks
  | .loop | .acquire | .got _ | .index .. | .done => True

/-- In the build without `PVR_ACQUIREDATAINDX` the queue has room for each block at once, unless there is neither a
    cipher nor a callback. -/
def HasRoom (cfg : Config) (a : Area) (dataIdx : Bool) (s : CacheSys) : CacheInput → Prop
  | .save _ =>
    match s.pc with
    | .push _ c _ =>
      dataIdx = false → (cfg.doCipher = true ∨ cfg.writeCallBack = true) → (s.tsQueue.queue.push a c.now).2 = true
    | _ => True
  | .pollBuff | .pollHead _ => True

/-- Without a cipher and without a callback, a block on its way is as it was acquired. -/
theorem Once.fresh (h : Once cfg c) (hcipher : cfg.doCipher = false)
    (hcall : cfg.writeCallBack = false) : c.Fresh := by
  obtain ⟨orig, now, encs, passed⟩ := c
  have he := h.encs
  have hn := h.now
  have hp := h.silent hcall
  rw [hcipher] at he hn
  obtain ⟨bs, hbs⟩ := orig
  obtain ⟨cs, hcs⟩ := now
  simp only [Bool.toNat_false, Bool.false_eq_true, if_false] at he hn hp
  subst he hn hp
  rfl

/-- What is known of the blocks pushed so far. -/
structure Saved (cfg : Config) (s : CacheSys) (es : List Event) : Prop where
  pc : PcOk cfg s.pc
  batch : ∀ b, s.pc.holding = some b → .acquired b ∈ es
  pushed : ∀ c, .pushed c ∈ es → Once cfg c ∧ ∃ b, .acquired b ∈ es ∧ c.orig ∈ b.blocks

/-- A step that pushes nothing. -/
theorem Saved.quiet (h : Saved cfg s es) (hpc : PcOk cfg t.pc)
    (hbatch : ∀ b, t.pc.holding = some b → .acquired b ∈ es ∨ .acquired b ∈ fs) (hquiet : ∀ c, .pushed c ∉ fs) :
    Saved cfg t (es ++ fs) := by
  refine ⟨hpc, ?_, ?_⟩
  · intro b hb
    exact List.mem_append.mpr (hbatch b hb)
  · intro c hc
    rcases List.mem_append.mp hc with hc | hc
    · obtain ⟨honce, b, hb, hmem⟩ := h.pushed c hc
      exact ⟨honce, b, List.mem_append_left _ hb, hmem⟩
    · exact absurd hc (hquiet c)

/-- A step that pushes nothing, and after which no batch is held. -/
theorem Saved.empty (h : Saved cfg s es) (hpc : PcOk cfg t.pc) (hnone : t.pc.holding = none)
    (hquiet : ∀ c, .pushed c ∉ fs) :
    Saved cfg t (es ++ fs) := by
  apply h.quiet hpc _ hquiet
  intro b hb
  rw [hnone] at hb
  cases hb

/-- A step that pushes the block it has. -/
theorem Saved.push {b : Batch} {rest : List Block} (h : Saved cfg s es) (hs : s.pc = .push b c rest)
    (hpc : PcOk cfg t.pc) (hbatch : ∀ b', t.pc.holding = some b' → b' = b)
    (hfs : ∀ c', .pushed c' ∈ fs → c' = c) : Saved cfg t (es ++ fs) := by
  have hok := h.pc
  rw [hs] at hok
  obtain ⟨honce, hmem, -⟩ := hok
  have hb : .acquired b ∈ es := h.batch b (by rw [hs]; rfl)
  refine ⟨hpc, ?_, ?_⟩
  · intro b' hb'
    rw [hbatch b' hb']
    exact List.mem_append_left _ hb
  · intro c' hc'
    rcases List.mem_append.mp hc' with hc' | hc'
    · obtain ⟨honce', b', hb', hmem'⟩ := h.pushed c' hc'
      exact ⟨honce', b', List.mem_append_left _ hb', hmem'⟩
    · rw [hfs c' hc']
      exact ⟨honce, b, List.mem_append_left _ hb, hmem⟩

theorem Saved.saveToCache (h : Saved cfg s es) (hroom : HasRoom cfg a false s (.save env))
    (hstep : saveToCache cfg a env s = some (t, fs)) : Saved cfg t (es ++ fs) := by
  obtain ⟨pc, q⟩ := s
  have hpc := h.pc
  have hbatch := h.batch
  cases pc with
  | loop =>
    simp only [Save.saveToCache] at hstep
    split at hstep
    · cases hstep
      exact h.empty trivial rfl (by simp)
    · split at hstep <;> cases hstep <;> exact h.empty trivial rfl (by simp)
  | acquire =>
    simp only [Save.saveToCache] at hstep
    split at hstep
    · split at hstep <;> cases hstep <;> exact h.quiet trivial (by simp [CachePc.holding]) (by simp)
    · cases hstep
      exact h.empty trivial rfl (by simp)
    · cases hstep
      exact h.empty trivial rfl (by simp)
    · cases hstep
      exact h.empty trivial rfl (by simp)
  | got b =>
    simp only [Save.saveToCache] at hstep
    split at hstep
    · next blk hblk =>
      split at hstep
      · cases hstep
        exact h.empty trivial rfl (by simp)
      · split at hstep
        · cases hstep
          exact h.empty trivial rfl (by simp)
        · cases hstep
          refine h.quiet ⟨rfl, ?_⟩ (fun b' hb' => Or.inl (hbatch b' hb')) (by simp)
          rw [hblk]
          exact List.mem_singleton_self blk
    · cases hstep
  | encrypt b c refused =>
    simp only [Save.saveToCache] at hstep
    split at hstep
    · cases hstep
      cases refused <;> exact h.empty trivial rfl (by simp)
    · next hok =>
      cases hstep
      obtain ⟨honce, horig⟩ := hpc.1.once cfg env (by simpa using hok)
      refine h.quiet ⟨honce, ?_, by simp⟩ (fun b' hb' => Or.inl (hbatch b' hb')) (by simp)
      rw [horig]
      exact hpc.2
  | push b c rest =>
    simp only [Save.saveToCache] at hstep
    split at hstep
    · cases hstep
      exact h.push rfl trivial (by simp [CachePc.holding]) (by simp)
    · next hrefused =>
      -- refused: only a block that is still as it was acquired goes around again
      cases hstep
      have hno : ¬ (cfg.doCipher = true ∨ cfg.writeCallBack = true) := fun hor => hrefused (hroom rfl hor)
      rw [not_or, Bool.not_eq_true, Bool.not_eq_true] at hno
      exact h.quiet ⟨hpc.1.fresh hno.1 hno.2, hpc.2.1⟩ (fun b' hb' => Or.inl (hbatch b' hb')) (by simp)
  | index b n => cases hstep
  | data b rest => cases hstep
  | done => cases hstep

theorem Saved.saveDataIndexToCache (h : Saved cfg s es)
    (hstep : saveDataIndexToCache cfg a env s = some (t, fs)) : Saved cfg t (es ++ fs) := by
  obtain ⟨pc, q⟩ := s
  have hpc := h.pc
  have hbatch := h.batch
  cases pc with
  | loop =>
    simp only [Save.saveDataIndexToCache] at hstep
    split at hstep
    · cases hstep
      exact h.empty trivial rfl (by simp)
    · split at hstep
      · cases hstep
        exact h.quiet trivial (by simp [CachePc.holding]) (by simp)
      · cases hstep
        exact h.empty trivial rfl (by simp)
      · cases hstep
        cases env.restart <;> exact h.empty trivial rfl (by simp)
      · cases hstep
        exact h.empty trivial rfl (by simp)
  | got b =>
    simp only [Save.saveDataIndexToCache] at hstep
    split at hstep
    · cases hstep
      exact h.empty trivial rfl (by simp)
    · cases hstep
      exact h.quiet trivial (fun b' hb' => Or.inl (hbatch b' hb')) (by simp)
  | index b n =>
    cases n with
    | zero =>
      cases hstep
      exact h.quiet (fun _ hb => hb) (fun b' hb' => Or.inl (hbatch b' hb')) (by simp)
    | succ n =>
      cases hstep
      cases env.index <;> exact h.quiet trivial (fun b' hb' => Or.inl (hbatch b' hb')) (by simp)
  | data b rest =>
    cases rest with
    | nil =>
      cases hstep
      cases env.reachFix <;> exact h.empty trivial rfl (by simp)
    | cons blk rest =>
      have hrest : ∀ x ∈ rest, x ∈ b.blocks := fun x hx => hpc x (List.mem_cons_of_mem _ hx)
      simp only [Save.saveDataIndexToCache] at hstep
      split at hstep
      · cases hstep
        exact h.empty trivial rfl (by simp)
      · split at hstep
        · cases hstep
          exact h.quiet hrest (fun b' hb' => Or.inl (hbatch b' hb')) (by simp)
        · next hok =>
          cases hstep
          have hfresh : (Cur.of blk).Fresh := rfl
          obtain ⟨honce, horig⟩ := hfresh.once cfg env (by simpa using hok)
          refine h.quiet ⟨honce, ?_, hrest⟩ (fun b' hb' => Or.inl (hbatch b' hb')) (by simp)
          rw [horig]
          exact hpc blk (List.mem_cons_self ..)
  | push b c rest =>
    simp only [Save.saveDataIndexToCache] at hstep
    split at hstep
    · cases hstep
      refine h.push rfl hpc.2.2 ?_ (by simp)
      intro b' hb'
      exact (Option.some.inj hb').symm
    · cases hstep
      exact h.quiet hpc (fun b' hb' => Or.inl (hbatch b' hb')) (by simp)
  | acquire => cases hstep
  | encrypt b c refused => cases hstep
  | done => cases hstep

theorem Saved.step (h : Saved cfg s es) (hroom : HasRoom cfg a dataIdx s i)
    (hstep : cacheStep cfg a queueBlock dataIdx s i = some (t, fs)) : Saved cfg t (es ++ fs) := by
  have hpoll : (∀ env, i ≠ .save env) → Saved cfg t (es ++ fs) := by
    intro hi
    obtain ⟨hpc, rfl⟩ := cacheStep_poll hi hstep
    refine h.quiet (hpc ▸ h.pc) ?_ (by simp)
    intro b hb
    rw [hpc] at hb
    exact Or.inl (h.batch b hb)
  cases i with
  | save env =>
    cases dataIdx with
    | true => exact h.saveDataIndexToCache hstep
    | false => exact h.saveToCache hroom hstep
  | pollBuff => exact hpoll (by simp)
  | pollHead n => exact hpoll (by simp)

/-- **Blocks in the cache.** Where no push of a block is refused, in the build without `PVR_ACQUIREDATAINDX`, every
    block in the record TS queue was acquired, encrypted exactly once where the cipher is on, and given to the callback
    exactly once where there is one; one pass of decryption gives it back. -/
theorem run_encrypted_once {dataIdx : Bool} {is : List CacheInput}
    (hrun : Run (cacheStep cfg a queueBlock dataIdx) (HasRoom cfg a dataIdx) (cacheInit a) is s es) :
    ∀ c, .pushed c ∈ es → Once cfg c ∧ ∃ b, .acquired b ∈ es ∧ c.orig ∈ b.blocks := by
  have h0 : Saved cfg (cacheInit a) [] := by
    refine ⟨trivial, ?_, ?_⟩
    · intro b hb
      cases hb
    · intro c hc
      cases hc
  have hinv : Saved cfg s es := by
    refine hrun.inv_effects (fun _ s es => Saved cfg s es) h0 ?_
    intro is s es i t fs hinv hroom hstep
    exact hinv.step hroom hstep
  exact hinv.pushed

instance (a : Area) (s : CacheSys) (i : CacheInput) : Decidable (HasRoom plusOne a false s i) := by
  unfold HasRoom
  split
  · split <;> infer_instance
  · infer_instance
  · infer_instance

/-- Up to the first push. -/
def untilPush : List CacheInput :=
  [.save calmEnv, .save { calmEnv with acquire := .success oneBlock }, .save calmEnv, .save calmEnv]

/-- What came to the queue. -/
def Event.inQueue : Event → Option Cur
  | .pushed c => some c
  | _ => none

/-- The second block finds the queue empty again. -/
def roomRun : List CacheInput :=
  untilPush ++ [.save calmEnv, .pollBuff, .pollHead 376, .pollBuff, .pollHead 376] ++
    untilPush.drop 1 ++ [.save calmEnv]

/-- Both blocks were encrypted once. -/
theorem run_encrypted_once_room :
    ∃ s es, Run (cacheStep plusOne smallArea 376 false) (HasRoom plusOne smallArea false) (cacheInit smallArea)
        roomRun s es ∧
      (es.filterMap Event.inQueue).length = 2 ∧ ∀ c, .pushed c ∈ es → Once plusOne c := by
  exact exists_run_imp (fun _ es => (es.filterMap Event.inQueue).length = 2)
    (by decide +kernel) fun _ _ hrun htest => ⟨htest, fun c hc => (run_encrypted_once hrun c hc).1⟩

/-- The first push of the second block finds the first block in the queue. -/
def refusedRun : List CacheInput :=
  untilPush ++ [.save calmEnv] ++ untilPush.drop 1 ++
    [.save calmEnv, .pollBuff, .pollHead 376, .pollBuff, .pollHead 376, .save calmEnv, .save calmEnv]

/-- **A refused push.** The block is encrypted again in place, and given to the callback again. -/
theorem encrypted_twice :
    ∃ s es, Run (cacheStep plusOne smallArea 376 false) always (cacheInit smallArea) refusedRun s es ∧
      ∃ c, .pushed c ∈ es ∧ c.encs = 2 ∧ c.passed.length = 2 ∧
        c.now.bytes ≠ cipherText plusOne.enc plusOne.cipherMaxLen c.orig.bytes := by
  refine exists_run_imp (fun _ es => (es.filterMap Event.inQueue).any (fun c =>
    decide (c.encs = 2 ∧ c.passed.length = 2 ∧
    c.now.bytes ≠ cipherText plusOne.enc plusOne.cipherMaxLen c.orig.bytes)))
    (by decide +kernel) fun _ _ _ htest => ?_
  rw [List.any_eq_true] at htest
  obtain ⟨c, hc, hbad⟩ := htest
  obtain ⟨e, he, heq⟩ := List.mem_filterMap.mp hc
  refine ⟨c, ?_, of_decide_eq_true hbad⟩
  cases e with
  | pushed c' =>
    cases heq
    exact he
  | acquired b => cases heq
  | released b => cases heq

end HiSTB.Pvr.Save
