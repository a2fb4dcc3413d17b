import HiSTB.Alsa.Dma
import Mathlib.Data.Nat.ModEq
import Mathlib.Tactic.NormNum

/-!
# `Alsa.Correctness.Periods` — the periods of the buffer in turn

The buffer is a ring of periods. From one prepare to the next the period that is sent, or passed over, is to be the next
one of the ring, and `hi_dma_pointer` is to point behind it.

* `Change` — what a step does to the counters and the pointer;
* `Calm` — the work item sends the first period of the buffer only when the pointer is at it, and `u32HadSent` does not
  wrap unless the number of periods divides 2^32;
* `run_inOrder_iff` — the periods come in turn all along a run exactly when it is calm.
-/

namespace HiSTB.Alsa

open Lib

variable {i : Input}

namespace Periods

/-- The periods done with since the last prepare, after one more event. -/
def after (done : List (BitVec 32)) : Event → List (BitVec 32)
  | .prepared => []
  | .sent offset | .discarded offset => done ++ [offset]
  | .command _ | .started | .stopped => done

/-- The periods done with since the last prepare. -/
def done (es : List Event) : List (BitVec 32) := es.foldl after []

/-- The `k`-th period done with is period `k` of the ring, and `hi_dma_pointer` points behind the last. -/
structure InOrder (d : Device) (es : List Event) (s : HiaudioData) : Prop where
  periods : ∀ k offset, (done es)[k]? = some offset →
    offset.toNat = k % d.periods.toNat * d.periodBytes.toNat
  pointer : hiDmaPointer d s = (done es).length % d.periods.toNat * d.periodSize

/-- Counting one more period leaves `u32HadSent` right modulo the number of periods. -/
def NoWrap (d : Device) (s : HiaudioData) : Prop := s.u32HadSent ≠ 0xffffffff ∨ d.periods.toNat ∣ 2 ^ 32
deriving Decidable

/-- The period that the work item sends is the one at the pointer, and the count is not spoilt by a wrap. -/
def Calm (d : Device) (s : HiaudioData) : Input → Prop
  | .call ret => s.task = .sendData → ret ≠ .failed → NoWrap d s ∧ s.u32HwPointer = 0
  | .timer _ ret => s.atmTrackState = true → s.bTriggerStartOK = false ∨ ret = .success → NoWrap d s
  | _ => True

/-- What a step does to the counters: they are reset, or stay, or one more period is counted, namely period `p`. -/
inductive Change (d : Device) (s : HiaudioData) (i : Input) (t : HiaudioData) (fs : List Event) : Prop
  | reset (hsent : t.u32HadSent = 0) (hpointer : t.u32HwPointer = 0) (hdone : ∀ es, done (es ++ fs) = [])
      (hcalm : Calm d s i)
  | keep (hsent : t.u32HadSent = s.u32HadSent) (hpointer : t.u32HwPointer = s.u32HwPointer)
      (hdone : ∀ es, done (es ++ fs) = done es) (hcalm : Calm d s i)
  | count (p : BitVec 32) (hp : p = s.u32HwPointer ∨ p = 0) (hsent : t.u32HadSent = s.u32HadSent + 1)
      (hpointer : t.u32HwPointer = (s.u32HadSent + 1) % d.periods)
      (hdone : ∀ es, done (es ++ fs) = done es ++ [d.offset p])
      (hcalm : Calm d s i ↔ NoWrap d s ∧ s.u32HwPointer = p)

variable {d : Device} {s t : HiaudioData} {es fs : List Event}

/-! ## Offsets -/

/-- A period of the buffer begins at its number times the size of a period. -/
theorem offset_toNat {p : BitVec 32} (hp : p.toNat < d.periods.toNat) :
    (d.offset p).toNat = p.toNat * d.periodBytes.toNat := by
  have hmax := d.periods_max
  have hbytes := d.periodBytes_max
  have hle : p.toNat * d.periodBytes.toNat ≤ 16 * 0x2000 := Nat.mul_le_mul (by omega) hbytes
  rw [AoHwParam.offset, BitVec.toNat_mul]
  exact Nat.mod_eq_of_lt (by omega)

/-- The position of the stream is a multiple of the period. -/
theorem hiDmaPointer_eq (hp : s.u32HwPointer.toNat < d.periods.toNat) :
    hiDmaPointer d s = s.u32HwPointer.toNat * d.periodSize := by
  rw [hiDmaPointer, offset_toNat hp, Nat.mul_assoc, d.periodBytes_eq, ← Nat.mul_assoc]
  exact Nat.mul_div_cancel _ d.frameBits_pos

theorem periodSize_pos (d : Device) : 0 < d.periodSize := by
  have hbytes := d.periodBytes_min
  have heq := d.periodBytes_eq
  rcases Nat.eq_zero_or_pos d.periodSize with hzero | hpos
  · rw [hzero, Nat.zero_mul] at heq
    omega
  · exact hpos

theorem periods_pos (d : Device) : 0 < d.periods.toNat := by
  have hmin := d.periods_min
  omega

/-! ## Steps -/

theorem done_append (es fs : List Event) : done (es ++ fs) = fs.foldl after (done es) := List.foldl_append

/-- A period that is sent is the one at the pointer, which goes on by one; otherwise nothing is counted. -/
theorem sendPeroid_change (d : Device) (s : HiaudioData) (ret : Ret) :
    ((sendPeroid d s ret).1.u32HadSent = s.u32HadSent + 1 ∧
      (sendPeroid d s ret).1.u32HwPointer = (s.u32HadSent + 1) % d.periods ∧
      (∀ es, done (es ++ (sendPeroid d s ret).2) = done es ++ [d.offset s.u32HwPointer]) ∧
      (s.bTriggerStartOK = false ∨ ret = .success)) ∨
    ((sendPeroid d s ret).1.u32HadSent = s.u32HadSent ∧ (sendPeroid d s ret).1.u32HwPointer = s.u32HwPointer ∧
      (∀ es, done (es ++ (sendPeroid d s ret).2) = done es) ∧ ¬ (s.bTriggerStartOK = false ∨ ret = .success)) := by
  unfold sendPeroid
  dsimp only
  split
  · rename_i hdiscard
    exact Or.inl ⟨rfl, rfl, fun es => done_append _ _, Or.inl hdiscard⟩
  · rename_i hsend
    split
    · rename_i hret
      exact Or.inl ⟨rfl, rfl, fun es => done_append _ _, Or.inr hret⟩
    · rename_i hret
      exact Or.inr ⟨rfl, rfl, fun es => done_append _ _, not_or.mpr ⟨hsend, hret⟩⟩

/-- A stop found in the callback leaves the counters alone. -/
theorem sndPeroidCallback_change (d : Device) (s : HiaudioData) (xrun : Bool) (ret : Ret) :
    Change d s (.timer xrun ret) (sndPeroidCallback d s xrun ret).1 (sndPeroidCallback d s xrun ret).2 := by
  unfold sndPeroidCallback
  split
  · rename_i hdown
    refine .keep rfl rfl (fun es => done_append _ _) ?_
    intro hup
    cases hdown.symm.trans hup
  · rename_i hup
    have hup : s.atmTrackState = true := by simpa using hup
    set elapsed : HiaudioData × List Event := if xrun = true then hiDmaTrigger s .stop else (s, []) with helapsed
    have hkeep : elapsed.1.u32HadSent = s.u32HadSent ∧ elapsed.1.u32HwPointer = s.u32HwPointer ∧
        elapsed.1.bTriggerStartOK = s.bTriggerStartOK ∧ ∀ es, done (es ++ elapsed.2) = done es := by
      rw [helapsed]
      cases xrun with
      | true => exact ⟨rfl, rfl, rfl, fun es => done_append _ _⟩
      | false => exact ⟨rfl, rfl, rfl, fun es => done_append _ _⟩
    obtain ⟨hsent, hpointer, hok, hdone⟩ := hkeep
    have hchange := sendPeroid_change d elapsed.1 ret
    rw [hsent, hpointer, hok] at hchange
    rcases hchange with ⟨hsent', hpointer', hdone', hcount⟩ | ⟨hsent', hpointer', hdone', hretry⟩
    · refine .count s.u32HwPointer (Or.inl rfl) hsent' hpointer' ?_ ?_
      · intro es
        rw [← List.append_assoc, hdone', hdone]
      · constructor
        · intro hcalm
          exact ⟨hcalm hup hcount, rfl⟩
        · intro h _ _
          exact h.1
    · refine .keep hsent' hpointer' ?_ (fun _ hcount => absurd hcount hretry)
      intro es
      rw [← List.append_assoc, hdone', hdone]

theorem sendData_change (htask : s.task = .sendData) (ret : Ret) :
    Change d s (.call ret) (sendData d s ret).1 (sendData d s ret).2 := by
  cases ret with
  | success | outBufFull =>
    refine .count 0 (Or.inr rfl) rfl rfl (fun es => done_append _ _) ?_
    constructor
    · intro hcalm
      exact hcalm htask (by simp)
    · intro h _ _
      exact h
  | failed => exact .keep rfl rfl (fun es => done_append _ _) (fun _ hret => absurd rfl hret)

theorem trackStart_change (htask : s.task = .trackStart) (ret : Ret) :
    Change d s (.call ret) (trackStart s ret).1 (trackStart s ret).2 := by
  have hcalm : Calm d s (.call ret) := fun hsend => absurd (htask.symm.trans hsend) (by simp)
  unfold trackStart
  split
  · exact .keep rfl rfl (fun es => done_append _ _) hcalm
  · exact .keep rfl rfl (fun es => done_append _ _) hcalm

theorem cmdIoTaskNext_change {ret : Ret} (hnext : cmdIoTaskNext d s ret = some (t, fs)) :
    Change d s (.call ret) t fs := by
  unfold cmdIoTaskNext at hnext
  cases htask : s.task with
  | idle =>
    rw [htask] at hnext
    cases hnext
  | sendData =>
    rw [htask] at hnext
    obtain ⟨rfl, rfl⟩ := Prod.mk.inj (Option.some.inj hnext)
    exact sendData_change htask ret
  | trackStart =>
    rw [htask] at hnext
    obtain ⟨rfl, rfl⟩ := Prod.mk.inj (Option.some.inj hnext)
    exact trackStart_change htask ret
  | trackFlush | timerDestory | trackStop =>
    rw [htask] at hnext
    cases hnext
    exact .keep rfl rfl (fun es => done_append _ _) (fun hsend => absurd (htask.symm.trans hsend) (by simp))

/-- What a step does to the periods. -/
theorem step_change (hnext : step d s i = some (t, fs)) : Change d s i t fs := by
  cases i with
  | prepare =>
    cases hnext
    exact .reset rfl rfl (fun es => done_append _ _) trivial
  | trigger cmd =>
    obtain ⟨rfl, rfl⟩ := Prod.mk.inj (Option.some.inj hnext)
    cases cmd with
    | start | stop | pausePush | pauseRelease | suspend | resume | other =>
      exact .keep rfl rfl (fun es => done_append _ _) trivial
  | timer xrun ret =>
    unfold step at hnext
    dsimp only at hnext
    split at hnext
    · obtain ⟨rfl, rfl⟩ := Prod.mk.inj (Option.some.inj hnext)
      exact sndPeroidCallback_change d s xrun ret
    · cases hnext
  | work =>
    unfold step cmdIoTask at hnext
    dsimp only at hnext
    rw [if_neg d.opened] at hnext
    split at hnext
    · cases hcmd : s.u32Cmd with
      | none | start | stop =>
        rw [hcmd] at hnext
        cases hnext
        exact .keep rfl rfl (fun es => done_append _ _) trivial
    · cases hnext
  | call ret => exact cmdIoTaskNext_change hnext

/-! ## Runs -/

/-- The pointer is the count modulo the number of periods. -/
def Tracks (d : Device) (s : HiaudioData) : Prop := s.u32HwPointer = s.u32HadSent % d.periods

theorem Tracks.toNat (h : Tracks d s) : s.u32HwPointer.toNat = s.u32HadSent.toNat % d.periods.toNat := by
  rw [show s.u32HwPointer = _ from h, BitVec.toNat_umod]

theorem Tracks.lt (h : Tracks d s) : s.u32HwPointer.toNat < d.periods.toNat := by
  rw [h.toNat]
  exact Nat.mod_lt _ (periods_pos d)

/-- The pointer is the number of sent periods, modulo their number. -/
theorem Tracks.step (h : Tracks d s) (hnext : Alsa.step d s i = some (t, fs)) : Tracks d t := by
  cases step_change hnext with
  | reset hsent hpointer =>
    rw [Tracks, hsent, hpointer]
    exact BitVec.zero_umod.symm
  | keep hsent hpointer =>
    rw [Tracks, hsent, hpointer]
    exact h
  | count p hp hsent hpointer =>
    rw [Tracks, hsent, hpointer]

theorem Tracks.hiDmaOpen : Tracks d hiDmaOpen := BitVec.zero_umod.symm

theorem InOrder.pointer_toNat (h : InOrder d es s) (ht : Tracks d s) :
    s.u32HwPointer.toNat = (done es).length % d.periods.toNat :=
  Nat.eq_of_mul_eq_mul_right (periodSize_pos d) ((hiDmaPointer_eq ht.lt).symm.trans h.pointer)

/-- Where the count does not wrap, or wraps to a multiple of the size of the ring, one more period is one further. -/
theorem NoWrap.succ_mod (h : NoWrap d s) :
    (s.u32HadSent + 1).toNat % d.periods.toNat = (s.u32HadSent.toNat + 1) % d.periods.toNat := by
  rw [BitVec.toNat_add]
  rcases h with hlt | hdvd
  · have hne : s.u32HadSent.toNat ≠ 0xffffffff := fun heq => hlt (BitVec.eq_of_toNat_eq heq)
    have hone : s.u32HadSent.toNat + (1 : BitVec 32).toNat < 2 ^ 32 := by
      show s.u32HadSent.toNat + 1 < 2 ^ 32
      omega
    rw [Nat.mod_eq_of_lt hone]
    rfl
  · exact Nat.mod_mod_of_dvd _ hdvd

theorem InOrder.nil : InOrder d [] hiDmaOpen := by
  constructor
  · intro k offset hk
    cases hk
  · rw [hiDmaPointer_eq (Tracks.lt Tracks.hiDmaOpen)]
    simp [done, Alsa.hiDmaOpen]

/-- A calm step keeps the order. -/
theorem InOrder.step (h : InOrder d es s) (ht : Tracks d s) (hC : Calm d s i)
    (hnext : Alsa.step d s i = some (t, fs)) : InOrder d (es ++ fs) t := by
  have ht' := ht.step hnext
  cases step_change hnext with
  | reset _ hpointer hdone =>
    constructor
    · rw [hdone]
      intro k offset hk
      cases hk
    · rw [hdone, hiDmaPointer_eq ht'.lt, hpointer]
      simp
  | keep _ hpointer hdone =>
    constructor
    · rw [hdone]
      exact h.periods
    · rw [hdone, hiDmaPointer, hpointer]
      exact h.pointer
  | count p hp hsent hpointer hdone hcalm =>
    obtain ⟨hwrap, rfl⟩ := hcalm.mp hC
    have hn := h.pointer_toNat ht
    constructor
    · rw [hdone]
      intro k offset hk
      rcases Nat.lt_trichotomy k (done es).length with hlt | rfl | hgt
      · rw [List.getElem?_append_left hlt] at hk
        exact h.periods k offset hk
      · rw [List.getElem?_concat_length] at hk
        obtain rfl := Option.some.inj hk
        rw [offset_toNat ht.lt, hn]
      · have hlen : (done es ++ [d.offset s.u32HwPointer]).length ≤ k := by
          rw [List.length_append]
          exact hgt
        rw [List.getElem?_eq_none hlen] at hk
        cases hk
    · have hmod : (s.u32HadSent.toNat + 1) % d.periods.toNat = ((done es).length + 1) % d.periods.toNat :=
        Nat.ModEq.add_right 1 (ht.toNat.symm.trans hn)
      rw [hdone, List.length_append, List.length_singleton, hiDmaPointer_eq ht'.lt, ht'.toNat, hsent, hwrap.succ_mod,
        hmod]

/-- A step that is not calm takes a period out of turn, or spoils the pointer. -/
theorem InOrder.of_step (h : InOrder d es s) (ht : Tracks d s) (hnext : Alsa.step d s i = some (t, fs))
    (h' : InOrder d (es ++ fs) t) : Calm d s i := by
  have ht' := ht.step hnext
  cases step_change hnext with
  | reset _ _ _ hcalm => exact hcalm
  | keep _ _ _ hcalm => exact hcalm
  | count p hp hsent hpointer hdone hcalm =>
    have hn := h.pointer_toNat ht
    refine hcalm.mpr ⟨?_, ?_⟩
    · by_contra hwrap
      obtain ⟨hmax, hdvd⟩ := not_or.mp hwrap
      have hmax : s.u32HadSent = 0xffffffff := not_not.mp hmax
      -- the count wraps to 0, so the ring ends exactly here
      have hzero : ((done es).length + 1) % d.periods.toNat = 0 := by
        have hpointer' := h'.pointer_toNat ht'
        rw [hdone, List.length_append, List.length_singleton, ht'.toNat, hsent, hmax] at hpointer'
        rw [← hpointer']
        exact Nat.zero_mod _
      have hmod : (0xffffffff + 1) % d.periods.toNat = ((done es).length + 1) % d.periods.toNat := by
        rw [ht.toNat, hmax] at hn
        exact Nat.ModEq.add_right 1 hn
      exact hdvd (Nat.dvd_of_mod_eq_zero (hmod.trans hzero))
    · -- the period just counted is number `n` of the ring, where the pointer was
      have hlast : (done (es ++ fs))[(done es).length]? = some (d.offset p) := by
        rw [hdone, List.getElem?_concat_length]
      have hlt : p.toNat < d.periods.toNat := by
        rcases hp with rfl | rfl
        · exact ht.lt
        · exact periods_pos d
      have hnumber := h'.periods _ _ hlast
      rw [offset_toNat hlt] at hnumber
      have hbytes : 0 < d.periodBytes.toNat := Nat.lt_of_lt_of_le (by omega) d.periodBytes_min
      exact BitVec.eq_of_toNat_eq (hn.trans (Nat.eq_of_mul_eq_mul_right hbytes hnumber).symm)

/-- **The periods of the buffer in turn**, counted from the last prepare: in any order of triggers, work item, timer and
    prepares, and with any answers of the track, they come in turn and the pointer follows all along exactly in calm
    runs. -/
theorem run_inOrder_iff {is : List Input} (h : Run (step d) always hiDmaOpen is s es) :
    (∀ js t fs, js <+: is → Run (step d) always hiDmaOpen js t fs → InOrder d fs t) ↔
      Run (step d) (Calm d) hiDmaOpen is s es := by
  have htracks {C : HiaudioData → Input → Prop} {is : List Input} {s : HiaudioData} {es : List Event}
      (hrun : Run (step d) C hiDmaOpen is s es) : Tracks d s :=
    hrun.inv (fun _ s => Tracks d s) Tracks.hiDmaOpen (fun _ _ _ _ _ ht _ hnext => ht.step hnext)
  have hgood {is : List Input} {s : HiaudioData} {es : List Event} (hrun : Run (step d) (Calm d) hiDmaOpen is s es) :
      InOrder d es s ∧ Tracks d s :=
    hrun.inv_effects (fun _ s es => InOrder d es s ∧ Tracks d s) ⟨InOrder.nil, Tracks.hiDmaOpen⟩
      (fun _ _ _ _ _ _ hs hC hnext => ⟨hs.1.step hs.2 hC hnext, hs.2.step hnext⟩)
  refine Run.iff_along (P := fun _ s es => InOrder d es s) (fun hrun => (hgood hrun).1) ?_ h
  intro js s es i t fs hrun hC hnext horder
  exact hC ((hgood hrun).1.of_step (htracks hrun) hnext horder)

instance (d : Device) (s : HiaudioData) : (i : Input) → Decidable (Calm d s i)
  | .call _ => inferInstanceAs (Decidable (_ → _ → NoWrap d s ∧ _))
  | .timer _ _ => inferInstanceAs (Decidable (_ → _ ∨ _ → NoWrap d s))
  | .prepare | .trigger _ | .work => isTrue trivial

/-- A start that the track takes with its first period. -/
def startPlaying (cmd : Trigger) : List Input := [.trigger cmd, .work, .call .success, .call .success, .call .success]

/-- Two periods, a stop, and a prepare before the next start. -/
def playAgain : List Input :=
  .prepare :: startPlaying .start ++
    [.timer false .outBufFull, .timer false .success, .trigger .stop, .work, .call .success, .call .success] ++
    .prepare :: startPlaying .start

/-- The periods of both starts are in order. -/
theorem run_inOrder_play_again :
    ∃ s es, Run (step s16Stereo) always hiDmaOpen playAgain s es ∧
      ∀ js t fs, js <+: playAgain → Run (step s16Stereo) always hiDmaOpen js t fs → InOrder s16Stereo fs t := by
  obtain ⟨s, es, hrun, -⟩ := exists_run_of_exec (step s16Stereo) (Calm s16Stereo) hiDmaOpen playAgain
    (fun _ => true) (by decide)
  have hany := hrun.mono (fun _ _ _ => trivial)
  exact ⟨s, es, hany, (run_inOrder_iff hany).mpr hrun⟩

/-- Suspended after one period and resumed without a prepare, the stream starts with the first period of the buffer
    again, and counts it as the second. -/
def playResume : List Input :=
  .prepare :: startPlaying .start ++ [.trigger .suspend, .work, .call .success, .call .success] ++ startPlaying .resume

/-- **A period twice**: the offset 0 is sent again, where 2048 would be next. -/
theorem resume_repeats :
    ∃ s es, Run (step s16Stereo) always hiDmaOpen playResume s es ∧ done es = [0, 0] ∧
      hiDmaPointer s16Stereo s = 2048 ∧ ¬ InOrder s16Stereo es s := by
  refine exists_run_imp (fun s es => done es = [0, 0] ∧ hiDmaPointer s16Stereo s = 2048)
    (by decide) fun _ _ _ htest => ?_
  obtain ⟨hdone, hpointer⟩ := htest
  refine ⟨hdone, hpointer, ?_⟩
  intro horder
  have hsecond := horder.periods 1 0 (by rw [hdone]; rfl)
  exact absurd hsecond (by decide)

end Periods
end HiSTB.Alsa
