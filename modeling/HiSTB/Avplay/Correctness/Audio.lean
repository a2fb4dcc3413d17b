import HiSTB.Avplay.Audio

/-!
# `Avplay.Correctness.Audio` — one frame at a time, to every track once

* `AudInv` — every frame before the next one has been released once, and no track is ahead of it or out of order;
* `Calm` — without a sync track, a pass whose last track cannot take the frame now has no track that takes it;
* `run_delivers` — the frames reach each track at most once and in order, in calm runs.
-/

namespace HiSTB.Avplay

open Lib

variable {ret : AoRet} {n : Nat} {us : List Handle} {v : Handle}

/-- What track `t` takes in an event. -/
def acceptedAt (t : Handle) : AudEvent → Option Nat
  | .sent u n .success => if u = t then some n else none
  | _ => none

/-- The frames that track `t` has taken, in the order it took them. -/
def acceptedBy (t : Handle) (es : List AudEvent) : List Nat := es.filterMap (acceptedAt t)

/-- Frame `n` may go back without the sync track `t` having taken it: trick play, a discard decision, or an error. -/
def GivenUp (t : Handle) (n : Nat) (es : List AudEvent) : Prop :=
  .trick n ∈ es ∨ .judged n .procDiscard ∈ es ∨ .sent t n .failed ∈ es

/-- The frame that is held, or else the next to be fetched. -/
def AudState.next (s : AudState) : Nat := if s.procData then s.avplayAudFrm else s.decoded

/-- Every frame fetched is released once, unless it is still held; each track takes each frame at most once and in the
    decoder's order; and the sync track misses a frame only for a reason. -/
structure Delivers (T : Tracks) (es : List AudEvent) (s : AudState) : Prop where
  released : ∀ n, es.count (.released n) = if n < s.next then 1 else 0
  ordered : ∀ t ∈ T.hTrack, (acceptedBy t es).Pairwise (· < ·)
  givenUp : ∀ t n, T.hSyncTrack = some t → .released n ∈ es → .sent t n .success ∈ es ∨ GivenUp t n es

/-- The pass sends the frame: it is neither judged nor passed over. -/
def Sends (s : AudState) (p : AudPass) : Prop :=
  p.audEnable = true ∧ p.curStatus ≠ .pause ∧ p.curStatus ≠ .tplay ∧ (s.procData = true ∨ p.received = true)
deriving Decidable

/-- Without a sync track the frame stays for the next pass only if no track has taken it. -/
def Calm (T : Tracks) (s : AudState) (p : AudPass) : Prop :=
  Sends s p → T.hSyncTrack = none → (sendRet T p).Again → ∀ u ∈ T.hTrack, p.send u ≠ .success

variable {T : Tracks} {s t : AudState} {p : AudPass} {es fs : List AudEvent}

/-! ## What is taken -/

theorem acceptedBy_append (t : Handle) (es fs : List AudEvent) :
    acceptedBy t (es ++ fs) = acceptedBy t es ++ acceptedBy t fs :=
  List.filterMap_append

/-- The sends of frame `n` to a list of tracks. -/
def sends (send : Handle → AoRet) (n : Nat) (us : List Handle) : List AudEvent := us.map (fun u => .sent u n (send u))

theorem acceptedAt_of_ne (t u : Handle) (n : Nat) (h : ret ≠ .success) :
    acceptedAt t (.sent u n ret) = none := by
  cases ret with
  | success => exact absurd rfl h
  | outBufFull | sendMute | pauseState | failed => rfl

theorem acceptedBy_sends_none {send : Handle → AoRet} {t : Handle}
    (h : t ∉ us ∨ ∀ u ∈ us, send u ≠ .success) : acceptedBy t (sends send n us) = [] := by
  rw [acceptedBy, List.filterMap_eq_nil_iff]
  intro e he
  obtain ⟨u, hu, rfl⟩ := List.mem_map.mp he
  by_cases hret : send u = .success
  · rcases h with hnot | hall
    · have hne : u ≠ t := fun heq => hnot (heq ▸ hu)
      rw [hret]
      exact if_neg hne
    · exact absurd hret (hall u hu)
  · exact acceptedAt_of_ne t u n hret

/-- A frame sent to distinct tracks is taken by each at most once. -/
theorem acceptedBy_sends (send : Handle → AoRet) (n : Nat) (t : Handle) (h : us.Nodup) :
    acceptedBy t (sends send n us) = [] ∨ acceptedBy t (sends send n us) = [n] := by
  induction us with
  | nil => exact Or.inl rfl
  | cons u us ih =>
    obtain ⟨hnot, hnodup⟩ := List.nodup_cons.mp h
    have hcons : acceptedBy t (sends send n (u :: us)) =
        (acceptedAt t (.sent u n (send u))).toList ++ acceptedBy t (sends send n us) := by
      simp only [acceptedBy, sends, List.map_cons, List.filterMap_cons]
      cases acceptedAt t (.sent u n (send u)) with
      | none => rfl
      | some m => rfl
    rw [hcons]
    by_cases hret : send u = .success
    · by_cases ht : u = t
      · subst ht
        right
        rw [acceptedBy_sends_none (Or.inl hnot), hret]
        simp [acceptedAt]
      · rw [hret]
        simpa [acceptedAt, ht] using ih hnodup
    · rw [acceptedAt_of_ne t u n hret]
      exact ih hnodup

/-- The tracks that are sent the frame. -/
def targets (T : Tracks) (p : AudPass) : List Handle :=
  match T.hSyncTrack with
  | some t => t :: if p.send t = .success then T.hTrack.filter (fun u => u ≠ t) else []
  | none => T.hTrack

theorem targets_sync (h : T.hSyncTrack = some v) :
    targets T p = v :: if p.send v = .success then T.hTrack.filter (fun u => u ≠ v) else [] := by
  rw [targets, h]

theorem sendRet_sync (h : T.hSyncTrack = some v) : sendRet T p = p.send v := by
  rw [sendRet, h]

theorem sendAll_eq (T : Tracks) (s : AudState) (p : AudPass) :
    sendAll T s p = sends p.send s.avplayAudFrm (targets T p) := by
  unfold sendAll targets sends
  cases T.hSyncTrack with
  | none => rfl
  | some t =>
    dsimp only
    split
    · rfl
    · rfl

theorem nodup_targets (T : Tracks) (p : AudPass) : (targets T p).Nodup := by
  unfold targets
  cases T.hSyncTrack with
  | none => exact T.nodup
  | some t =>
    rw [List.nodup_cons]
    split
    · constructor
      · simp
      · exact T.nodup.filter _
    · simp

theorem released_notMem_sends (send : Handle → AoRet) (n m : Nat) (us : List Handle) :
    AudEvent.released m ∉ sends send n us := by
  intro h
  obtain ⟨u, _, hu⟩ := List.mem_map.mp h
  cases hu

/-! ## One pass -/

/-- How a pass with frame `n` in hand ends: it is kept and no track has it, or it is released and every track has it at
    most once. -/
inductive Outcome (T : Tracks) (s t : AudState) (fs : List AudEvent) : Prop
  | kept (hstate : t = s) (hreleased : ∀ n, AudEvent.released n ∉ fs) (htaken : ∀ u, acceptedBy u fs = [])
  | released (gs : List AudEvent) (hstate : t = { s with procData := false })
      (hevents : fs = gs ++ [.released s.avplayAudFrm]) (hreleased : ∀ n, AudEvent.released n ∉ gs)
      (htaken : ∀ u, acceptedBy u gs = [] ∨ acceptedBy u gs = [s.avplayAudFrm])
      (hreason : ∀ u, T.hSyncTrack = some u →
        .sent u s.avplayAudFrm .success ∈ gs ∨ GivenUp u s.avplayAudFrm gs)

theorem Outcome.cons (h : Outcome T s t fs) {e : AudEvent} (he : ∀ n, e ≠ .released n)
    (hquiet : ∀ u, acceptedAt u e = none) :
    Outcome T s t (e :: fs) := by
  have hskip (u : Handle) (gs : List AudEvent) : acceptedBy u (e :: gs) = acceptedBy u gs := by
    rw [acceptedBy, List.filterMap_cons_none (hquiet u)]
    rfl
  have hnot {gs : List AudEvent} (hgs : ∀ n, AudEvent.released n ∉ gs) (n : Nat) : AudEvent.released n ∉ e :: gs := by
    rw [List.mem_cons]
    exact not_or.mpr ⟨fun heq => he n heq.symm, hgs n⟩
  cases h with
  | kept hstate hreleased htaken =>
    refine .kept hstate (hnot hreleased) ?_
    intro u
    rw [hskip]
    exact htaken u
  | released gs hstate hevents hreleased htaken hreason =>
    refine .released (e :: gs) hstate (by rw [hevents]; rfl) (hnot hreleased) ?_ ?_
    · intro u
      rw [hskip]
      exact htaken u
    · intro u hu
      refine (hreason u hu).imp (List.mem_cons_of_mem _) ?_
      rintro (htrick | hdiscard | hfailed)
      · exact Or.inl (List.mem_cons_of_mem _ htrick)
      · exact Or.inr (Or.inl (List.mem_cons_of_mem _ hdiscard))
      · exact Or.inr (Or.inr (List.mem_cons_of_mem _ hfailed))

theorem AoRet.cases_of_not_again (h : ¬ ret.Again) : ret = .success ∨ ret = .failed := by
  cases ret with
  | success => exact Or.inl rfl
  | failed => exact Or.inr rfl
  | outBufFull | sendMute | pauseState => exact absurd (by simp [AoRet.Again]) h

theorem sendAud_outcome (hC : T.hSyncTrack = none → (sendRet T p).Again → ∀ u ∈ T.hTrack, p.send u ≠ .success) :
    Outcome T s (sendAud T s p).1 (sendAud T s p).2 := by
  unfold sendAud
  split
  · rename_i hagain
    rw [sendAll_eq]
    refine .kept rfl (fun n => released_notMem_sends _ _ n _) ?_
    intro u
    apply acceptedBy_sends_none
    right
    cases hsync : T.hSyncTrack with
    | none =>
      rw [targets, hsync]
      exact hC hsync hagain
    | some v =>
      have hv : p.send v ≠ .success := by
        intro hok
        rw [sendRet_sync hsync, hok] at hagain
        simp [AoRet.Again] at hagain
      rw [targets_sync hsync, if_neg hv]
      intro w hw
      rw [List.mem_singleton] at hw
      rw [hw]
      exact hv
  · rename_i hdone
    rw [sendAll_eq]
    refine .released _ rfl rfl (fun n => released_notMem_sends _ _ n _) (fun u =>
      acceptedBy_sends _ _ u (nodup_targets T p)) ?_
    intro u hsync
    have hsent : AudEvent.sent u s.avplayAudFrm (p.send u) ∈ sends p.send s.avplayAudFrm (targets T p) := by
      refine List.mem_map.mpr ⟨u, ?_, rfl⟩
      rw [targets_sync hsync]
      exact List.mem_cons_self
    rw [sendRet_sync hsync] at hdone
    rcases AoRet.cases_of_not_again hdone with hok | hfail
    · rw [hok] at hsent
      exact Or.inl hsent
    · rw [hfail] at hsent
      exact Or.inr (Or.inr (Or.inr hsent))

theorem judgeAud_outcome (hC : T.hSyncTrack = none → (sendRet T p).Again → ∀ u ∈ T.hTrack, p.send u ≠ .success) :
    Outcome T s (judgeAud T s p).1 (judgeAud T s p).2 := by
  have hsend := sendAud_outcome (s := s) hC
  unfold judgeAud
  cases T.hSyncTrack with
  | none => exact hsend
  | some v =>
    cases p.judge with
    | none => exact hsend
    | some proc =>
      cases proc with
      | procDiscard =>
        refine .released [.judged s.avplayAudFrm .procDiscard] rfl rfl (by simp) (fun u => Or.inl rfl) ?_
        exact fun u _ => Or.inr (Or.inr (Or.inl List.mem_cons_self))
      | procRepeat => exact .kept rfl (by simp) (fun u => rfl)
      | procPlay | procQuickoutput => exact hsend.cons (by simp) (fun u => rfl)

theorem playAud_outcome (hC : p.curStatus ≠ .tplay → T.hSyncTrack = none → (sendRet T p).Again →
      ∀ u ∈ T.hTrack, p.send u ≠ .success) :
    Outcome T s (playAud T s p).1 (playAud T s p).2 := by
  unfold playAud
  split
  · refine .released [.trick s.avplayAudFrm] rfl rfl (by simp) (fun u => Or.inl rfl) ?_
    exact fun u _ => Or.inr (Or.inl List.mem_cons_self)
  · rename_i hplay
    exact judgeAud_outcome (hC hplay)

/-! ## Runs -/

/-- What holds between two passes; a frame in hand is the last that was fetched. -/
structure AudInv (T : Tracks) (es : List AudEvent) (s : AudState) : Prop extends Delivers T es s where
  held : s.procData = true → s.decoded = s.avplayAudFrm + 1
  behind : ∀ t ∈ T.hTrack, ∀ n ∈ acceptedBy t es, n < s.next

theorem AudInv.init (T : Tracks) : AudInv T [] audInit := by
  constructor
  · constructor
    · intro n
      simp [AudState.next, audInit]
    · exact fun _ _ => List.Pairwise.nil
    · intro t n _ h
      cases h
  · intro h
    cases h
  · intro t _ n h
    cases h

theorem count_released_eq_zero (h : ∀ m, AudEvent.released m ∉ fs) : fs.count (.released n) = 0 :=
  List.count_eq_zero.mpr (h n)

theorem GivenUp.append (h : GivenUp v n es) (fs : List AudEvent) : GivenUp v n (es ++ fs) := by
  rcases h with htrick | hdiscard | hfailed
  · exact Or.inl (List.mem_append_left _ htrick)
  · exact Or.inr (Or.inl (List.mem_append_left _ hdiscard))
  · exact Or.inr (Or.inr (List.mem_append_left _ hfailed))

theorem GivenUp.append_right (h : GivenUp v n fs) (es : List AudEvent) : GivenUp v n (es ++ fs) := by
  rcases h with htrick | hdiscard | hfailed
  · exact Or.inl (List.mem_append_right _ htrick)
  · exact Or.inr (Or.inl (List.mem_append_right _ hdiscard))
  · exact Or.inr (Or.inr (List.mem_append_right _ hfailed))

/-- What neither releases a frame nor reaches a track changes nothing while the next frame stays the same. -/
theorem AudInv.quiet (h : AudInv T es s) (hnext : t.next = s.next)
    (hheld : t.procData = true → t.decoded = t.avplayAudFrm + 1) (hreleased : ∀ n, AudEvent.released n ∉ fs)
    (htaken : ∀ u, acceptedBy u fs = []) : AudInv T (es ++ fs) t := by
  constructor
  · constructor
    · intro n
      rw [List.count_append, count_released_eq_zero hreleased, hnext]
      exact h.released n
    · intro u hu
      rw [acceptedBy_append, htaken, List.append_nil]
      exact h.ordered u hu
    · intro u n hsync hmem
      rcases List.mem_append.mp hmem with hmem | hmem
      · exact (h.givenUp u n hsync hmem).imp (List.mem_append_left _) (fun hup => hup.append fs)
      · exact absurd hmem (hreleased n)
  · exact hheld
  · intro u hu n hn
    rw [acceptedBy_append, htaken, List.append_nil] at hn
    rw [hnext]
    exact h.behind u hu n hn

theorem AudInv.receiveAud (h : AudInv T es s) (p : AudPass) :
    AudInv T (es ++ (receiveAud s p).2) (receiveAud s p).1 := by
  unfold Avplay.receiveAud
  split
  · rename_i hidle
    refine h.quiet ?_ (fun _ => rfl) (by simp) (fun u => rfl)
    simp [AudState.next, hidle.1]
  · exact h.quiet rfl h.held (by simp) (fun u => rfl)

/-- A frame that goes back was the last fetched, so the next to be fetched comes right behind it. -/
theorem AudInv.outcome (h : AudInv T es s) (hheld : s.procData = true) (hout : Outcome T s t fs) :
    AudInv T (es ++ fs) t := by
  cases hout with
  | kept hstate hreleased htaken =>
    subst hstate
    exact h.quiet rfl h.held hreleased htaken
  | released gs hstate hevents hreleased htaken hreason =>
    subst hstate hevents
    have hnext : s.next = s.avplayAudFrm := if_pos hheld
    have hdone : AudState.next { s with procData := false } = s.avplayAudFrm + 1 := h.held hheld
    have htakenBy (u : Handle) : acceptedBy u (gs ++ [.released s.avplayAudFrm]) = acceptedBy u gs := by
      rw [acceptedBy_append]
      exact List.append_nil _
    constructor
    · constructor
      · intro n
        rw [hdone, ← List.append_assoc, List.count_append, List.count_append,
          count_released_eq_zero hreleased, h.released n,
          hnext, List.count_singleton]
        rcases Nat.lt_trichotomy n s.avplayAudFrm with hlt | rfl | hgt
        · simp [hlt, Nat.lt_succ_of_lt hlt, Nat.ne_of_gt hlt]
        · simp
        · simp [Nat.not_lt_of_gt hgt, Nat.not_lt.mpr (Nat.succ_le_of_lt hgt), Nat.ne_of_lt hgt]
      · intro u hu
        rw [acceptedBy_append, htakenBy]
        rcases htaken u with hnone | hone
        · rw [hnone, List.append_nil]
          exact h.ordered u hu
        · rw [hone, List.pairwise_append]
          refine ⟨h.ordered u hu, List.pairwise_singleton _ _, ?_⟩
          intro n hn m hm
          rw [List.mem_singleton.mp hm, ← hnext]
          exact h.behind u hu n hn
      · intro u n hsync hmem
        rcases List.mem_append.mp hmem with hmem | hmem
        · exact (h.givenUp u n hsync hmem).imp (List.mem_append_left _) (fun hup => hup.append _)
        · rcases List.mem_append.mp hmem with hmem | hmem
          · exact absurd hmem (hreleased n)
          · obtain rfl : n = s.avplayAudFrm := by simpa using hmem
            exact (hreason u hsync).imp (fun hsent => List.mem_append_right _ (List.mem_append_left _ hsent))
              (fun hup => (hup.append _).append_right es)
    · intro hno
      cases hno
    · intro u hu n hn
      rw [hdone]
      rw [acceptedBy_append, htakenBy] at hn
      rcases List.mem_append.mp hn with hn | hn
      · have hlt := h.behind u hu n hn
        rw [hnext] at hlt
        exact Nat.lt_succ_of_lt hlt
      · rcases htaken u with hnone | hone
        · rw [hnone] at hn
          cases hn
        · rw [hone, List.mem_singleton] at hn
          rw [hn]
          exact Nat.lt_succ_self _

theorem AudInv.step (h : AudInv T es s) (hC : Calm T s p) :
    AudInv T (es ++ (procAdecToAo T s p).2) (procAdecToAo T s p).1 := by
  unfold procAdecToAo
  split
  · exact h.quiet rfl h.held (by simp) (fun u => rfl)
  · rename_i hon
    obtain ⟨hena, hpause⟩ := not_or.mp hon
    have hreceive := h.receiveAud p
    dsimp only
    split
    · rename_i hheld
      rw [← List.append_assoc]
      refine hreceive.outcome hheld (playAud_outcome ?_)
      intro hplay hsync hagain
      refine hC ⟨by simpa using hena, hpause, hplay, ?_⟩ hsync hagain
      by_contra hnone
      obtain ⟨hidle, hempty⟩ := not_or.mp hnone
      rw [Avplay.receiveAud, if_neg (fun hr => hempty hr.2)] at hheld
      exact hidle hheld
    · exact hreceive

/-- **Decoded audio frames on their way to the tracks**, over any passes with any answers of tracks and judge: in calm
    runs every frame goes back to the decoder once, reaches each track at most once and in order, and passes the sync
    track by only for a reason. -/
theorem run_delivers {is : List AudPass} (h : Run (audStep T) (Calm T) audInit is s es) : Delivers T es s := by
  have hinv : AudInv T es s := by
    refine h.inv_effects (fun _ s es => AudInv T es s) (AudInv.init T) ?_
    intro _ s es p t fs hs hC hnext
    obtain ⟨rfl, rfl⟩ := Prod.mk.inj (Option.some.inj hnext)
    exact hs.step hC
  exact hinv.toDelivers

instance (T : Tracks) (s : AudState) (p : AudPass) : Decidable (Calm T s p) :=
  -- over the list, and not over all handles
  haveI : Decidable (∀ u ∈ T.hTrack, p.send u ≠ .success) := List.decidableBAll _ _
  inferInstanceAs (Decidable (_ → _ → _ → _))

/-- Two virtual tracks, so that there is no sync track. -/
def twoVirtual : Tracks where
  hTrack := [0x71, 0x72]
  hSyncTrack := none
  nodup := by decide
  sync_mem := by simp

/-- A pass in normal play with a frame to fetch. -/
def passOf (send : Handle → AoRet) : AudPass := ⟨true, .play, true, none, send⟩

/-- Both tracks full, then both ready. -/
theorem run_delivers_two :
    ∃ s es, Run (audStep twoVirtual) (Calm twoVirtual) audInit
        [passOf (fun _ => .outBufFull), passOf (fun _ => .success)] s es ∧ Delivers twoVirtual es s := by
  obtain ⟨s, es, hrun, -⟩ := exists_run_of_exec (audStep twoVirtual) (Calm twoVirtual) audInit
    [passOf (fun _ => .outBufFull), passOf (fun _ => .success)] (fun _ => true) (by decide)
  exact ⟨s, es, hrun, run_delivers hrun⟩

/-- The first track takes the frame, the last one is full: on the next pass the first track is sent the frame again. -/
theorem taken_twice :
    ∃ s es, Run (audStep twoVirtual) always audInit
        [passOf (fun t => if t = 0x71 then .success else .outBufFull), passOf (fun _ => .success)] s es ∧
      acceptedBy 0x71 es = [0, 0] ∧ ¬ Delivers twoVirtual es s := by
  refine exists_run_imp (fun _ es => acceptedBy 0x71 es = [0, 0]) (by decide) fun _ es _ htest => ?_
  have htwice : acceptedBy 0x71 es = [0, 0] := htest
  refine ⟨htwice, ?_⟩
  intro hdelivers
  have hordered := hdelivers.ordered 0x71 List.mem_cons_self
  rw [htwice] at hordered
  exact absurd hordered (by decide)

end HiSTB.Avplay
