import HiSTB.Demux.Correctness.Release

/-!
# `Demux.Correctness.Rewind` — when a release leaves the reading position alone

At its end `DMX_OsiReleaseReadData` looks whether `u32ProcsBlk` is still between the new read pointer and the write
pointer of the queue. By then `u32WriteBlk` is the write pointer of the free queue, so the answer depends on how full
the pool is.

* `Between` — a position of a ring comes before another one, from a third one on;
* `release_procs_iff` — when a reading position that is valid is kept;
* `release_rewinds` — sections are delivered twice.
-/

namespace HiSTB.Demux.Release

open Section

variable {cfg : Config} {s t : Sys} {relNum fqWrite : Nat} {between : List (List HwEvent)} {w : Walk} {es : List Event}

/-- From the position `r` of a ring on, `p` comes not behind `w`; all positions do when `w` is `r`. -/
def Between (r p w : Nat) : Prop := if r < w then r ≤ p ∧ p ≤ w else p ≤ w ∨ r ≤ p
deriving Decidable

theorem procsInvalid_iff {r p w : Nat} : procsInvalid r w p = true ↔ ¬ Between r p w := by
  unfold procsInvalid Between
  split
  · rw [Bool.or_eq_true, decide_eq_true_eq, decide_eq_true_eq]
    omega
  · rw [Bool.and_eq_true, decide_eq_true_eq, decide_eq_true_eq]
    omega

theorem between_self (r w : Nat) : Between r r w := by
  unfold Between
  split <;> omega

/-- What the release of the first `relNum` messages comes to, over the blocks. -/
def released (cfg : Config) (s : Sys) (relNum : Nat) (between : List (List HwEvent)) : Except Walk Walk :=
  let h := readAt cfg s.read s.hw between
  walk cfg s.read (hwRun cfg s.read s.hw between.flatten).closed.length (fun i => h (i + 1)) (h 0).closed.length
    (s.held.take relNum) ⟨s.read, s.chan.errs, []⟩

/-- A release that finds its blocks, and has room for them. -/
theorem step_release (fqWrite : Nat) (hw : released cfg s relNum between = .ok w) (hfits : w.Fits cfg) : ∃ t es,
    step cfg s (.release relNum fqWrite between) = some (t, es) ∧ Event.overrun ∉ es ∧
      t.chan = checkProcs cfg w.releaseBlk w.pAddr.length fqWrite { s.chan with errs := w.errs } := by
  refine ⟨⟨hwRun cfg s.read s.hw between.flatten,
    checkProcs cfg w.releaseBlk w.pAddr.length fqWrite { s.chan with errs := w.errs }, w.releaseBlk,
    s.held.drop relNum⟩, [.released w.pAddr (s.held.drop relNum)], ?_, ?_, rfl⟩
  · unfold released at hw
    unfold step
    dsimp only
    rw [hw]
    dsimp only
    rw [if_pos hfits]
  · rw [List.mem_singleton]
    exact Event.noConfusion

/-- A release of more blocks than `pAddr` has room for. -/
theorem step_overrun (hw : released cfg s relNum between = .ok w) (hfits : ¬ w.Fits cfg)
    (hstep : step cfg s (.release relNum fqWrite between) = some (t, es)) : Event.overrun ∈ es := by
  unfold released at hw
  unfold step at hstep
  dsimp only at hstep
  rw [hw] at hstep
  dsimp only at hstep
  rw [if_neg hfits] at hstep
  cases hstep
  exact List.mem_singleton.mpr rfl

/-- **The reading position is kept by a release**, which writes nothing behind `pAddr`, if and only if the blocks have
    room there, and nothing is given back or, in the ring of the queue, the position comes not behind the write pointer
    of the free queue. -/
theorem release_procs_iff (hw : released cfg s relNum between = .ok w)
    (hstep : step cfg s (.release relNum fqWrite between) = some (t, es)) :
    t.chan.procsBlk % cfg.oqDepth = s.chan.procsBlk % cfg.oqDepth ∧ t.chan.procsOffset = s.chan.procsOffset ∧
        Event.overrun ∉ es ↔
      w.pAddr.length ≤ cfg.maxErrListNum ∧ (w.pAddr = [] ∨
        Between (w.releaseBlk % cfg.oqDepth) (s.chan.procsBlk % cfg.oqDepth)
          ((fqWrite + w.pAddr.length) % cfg.depth)) := by
  by_cases hfits : w.Fits cfg
  · obtain ⟨u, fs, hrel, hnone, hchan⟩ := step_release fqWrite hw hfits
    obtain ⟨rfl, rfl⟩ := Prod.mk.inj (Option.some.inj (hstep.symm.trans hrel))
    rw [and_iff_right (show w.pAddr.length ≤ cfg.maxErrListNum from hfits), hchan]
    unfold checkProcs
    split
    · rename_i hinvalid
      obtain ⟨hback, hprocs⟩ := hinvalid
      have hbehind := procsInvalid_iff.mp hprocs
      refine iff_of_false (fun hkept => ?_) (fun hc => hc.elim (fun hnil => hback (by rw [hnil]; rfl)) hbehind)
      -- a position that is the read pointer would have been valid
      rw [← hkept.1] at hbehind
      exact hbehind (between_self _ _)
    · rename_i hvalid
      refine iff_of_true ⟨rfl, rfl, hnone⟩ ?_
      by_contra hc
      rw [not_or] at hc
      exact hvalid ⟨fun hlen => hc.1 (List.eq_nil_of_length_eq_zero hlen), procsInvalid_iff.mpr hc.2⟩
  · exact iff_of_false (fun hkept => hkept.2.2 (step_overrun hw hfits hstep)) (fun hc => hfits hc.1)

/-- Three blocks with a section each, all of them read. -/
def threeRead : Sys :=
  ⟨⟨[wanted 0x1000, wanted 0x1100, wanted 0x1200], false, wanted 0x1200⟩, ⟨3, 0, []⟩, 0,
    [⟨0x1000, 8⟩, ⟨0x1100, 8⟩, ⟨0x1200, 8⟩]⟩

/-- With the write pointer of the free queue far ahead the position is kept. -/
theorem release_procs_kept : ∃ t es, step (poolCfg 4) threeRead (.release 1 4 []) = some (t, es) ∧ t.read = 1 ∧
    t.chan.procsBlk % 8 = 3 ∧ t.chan.procsOffset = 0 ∧ Event.overrun ∉ es := by
  have hstep : ∃ r, step (poolCfg 4) threeRead (.release 1 4 []) = some r ∧ r.1.read = 1 := ⟨_, rfl, by decide⟩
  obtain ⟨⟨t, es⟩, hstep, hread⟩ := hstep
  have hw : released (poolCfg 4) threeRead 1 [] = .ok ⟨1, [], [0x1000]⟩ := by rfl
  exact ⟨t, es, hstep, hread, (release_procs_iff hw hstep).mpr ⟨by decide, Or.inr (by decide)⟩⟩

/-- One message is given back, and the position is that of the block behind it. -/
def setBack : Sys := { threeRead with chan := ⟨1, 0, []⟩, read := 1, held := [⟨0x1100, 8⟩, ⟨0x1200, 8⟩] }

/-- **A release sets the position back**: it gives back the first block, where the pool has one other block, and the
    messages of the other two blocks are delivered again. -/
theorem release_rewinds :
    (∃ is es, Lib.Run (step (poolCfg 4)) Lib.always init is threeRead es) ∧
      step (poolCfg 4) threeRead (.release 1 1 []) =
        some (setBack, [.released [0x1000] [⟨0x1100, 8⟩, ⟨0x1200, 8⟩]]) ∧
      ∃ t, step (poolCfg 4) setBack (.read 8 []) = some (t, [.acquired [⟨0x1100, 8⟩, ⟨0x1200, 8⟩]]) := by
  refine ⟨?_, by decide,
    { setBack with chan := ⟨3, 0, []⟩, held := [⟨0x1100, 8⟩, ⟨0x1200, 8⟩, ⟨0x1100, 8⟩, ⟨0x1200, 8⟩] },
    by decide +kernel⟩
  obtain ⟨s, es, hrun, htest⟩ := Lib.exists_run_of_exec (step (poolCfg 4)) Lib.always init
    (block (wanted 0x1000) ++ block (wanted 0x1100) ++ block (wanted 0x1200) ++ [.read 8 []])
    (fun r => decide (r.1 = threeRead)) (by decide +kernel)
  obtain rfl := of_decide_eq_true htest
  exact ⟨_, es, hrun⟩

end HiSTB.Demux.Release
