import HiSTB.Avplay.DmxAud

/-!
# `Avplay.Correctness.DmxAud` — the table holds the channels that exist

While a TS player has its audio channel open, the entries of `hDmxAud` are to be the audio channels at the demux, one of
them is heard, and the codec table has an entry for each.

* `Sound` — that, and that no channel was destroyed twice or left behind;
* `Calm` — the calls whose error exits leave the table as the demux has it;
* `run_sound` — runs of calm calls.
-/

namespace HiSTB.Avplay.DmxAud

open Lib Holdings

variable {i j lo hi : Nat} {destroy : Nat → Bool} {S : Finset Handle} {c : OpenCall}
    {hs : List Handle} {attr : MultiAudAttr}

/-- The handles of the channels in use. -/
def AudChn.chns (a : AudChn) : List Handle := (List.range a.dmxAudChnNum).map a.hDmxAud

/-- TS mode, and the audio channel is open. -/
def AudChn.opened (a : AudChn) : Bool := a.ts && a.adec

/-- The channels that the player should have at the demux. -/
def AudChn.channels (a : AudChn) : Finset Handle := if a.opened then a.chns.toFinset else ∅

/-- After the events `es` the channels at the demux are those of the player, each created channel that is not among them
    was destroyed once, one is heard, and the codec table has an entry for each. -/
structure Sound (es : List DmxEvent) (a : AudChn) : Prop where
  exist : Moves ∅ es a.channels
  distinct : a.opened = true → a.chns.Nodup
  current : a.opened = true → a.curDmxAudChn < a.dmxAudChnNum
  codec : a.opened = true → ∀ t ∈ a.pstAcodecAttr, t.length = a.dmxAudChnNum

/-! ## Calm calls -/

section Calm

variable (a : AudChn)

/-- The first channel is heard, and there is no codec table or one with one entry. -/
def OpensWell : Prop := a.curDmxAudChn = 0 ∧ ∀ t ∈ a.pstAcodecAttr, t.length = 1
deriving Decidable

/-- The first channel is not destroyed, or all are and what follows succeeds. -/
def FreesWell (destroy : Nat → Bool) (after : Prop) : Prop :=
  destroy 0 = false ∨ (∀ i < a.dmxAudChnNum, destroy i = true) ∧ after

/-- An open audio channel is freed as it should; one that is opened finds the selection and the codec table of a first
    open. -/
def OpenCalm (c : OpenCall) : Prop :=
  if a.adec then a.ts = true → c.pcr = false → FreesWell a c.destroy (c.adecClose = true)
  else c.adecOpen = true → a.ts = true →
    if c.create = none then c.adecClose = true
    else if c.pcr then OpensWell a
    else if c.destroy 0 then c.adecClose = true
    else OpensWell a

/-- Nothing fails between freeing the channels of the old mode and creating the one of the new mode. -/
def ModeCalm (c : ModeCall) : Prop :=
  (a.ts = true → FreesWell a c.destroy (c.pcrDestroy = true)) ∧
    ((a.ts = true → c.destroy 0 = true) → c.pcrDestroy = true → c.ts = true →
      c.vidMalloc = true ∧ c.create ≠ none ∧ OpensWell a)

/-- All channels but the first are created. -/
def AllCreated (c : MultiCall) (num : Nat) : Prop := 1 ≤ num ∧ ∀ j, 1 ≤ j → j < num → c.create j ≠ none
deriving Decidable

/-- In TS mode the old channels are destroyed, there are none if a new one cannot be created, and their number stays if
    a PID cannot be set; the channel that is heard is among the new ones. In ES mode there is at most one PID. -/
def MultiCalm (c : MultiCall) (num : Nat) : Prop :=
  if a.ts then
    (∀ j, 1 ≤ j → j < a.dmxAudChnNum → c.destroyOld j = true) ∧
      (AllCreated c num → (∀ j < num, c.setChannelPid j = true) → a.curDmxAudChn < num) ∧
      (AllCreated c num → ¬ (∀ j < num, c.setChannelPid j = true) → a.dmxAudChnNum = num) ∧
      (¬ AllCreated c num → a.dmxAudChnNum = 1 ∧
        ∀ j, 1 ≤ j → j < num → (∀ k, 1 ≤ k → k ≤ j → c.create k ≠ none) → c.destroyNew j = true)
  else num ≤ 1

/-- No channel is destroyed because a later one could not be opened. -/
def StartCalm (c : StartCall) : Prop :=
  c.ready = true → a.ts = true → ∀ i < a.dmxAudChnNum, c.openChannel i = false → ∀ j < i, c.destroy j = false

/-- The call leaves the table as the demux has it. -/
def Calm : AudCall → Prop
  | .chnOpen c => c.vid = true → OpenCalm a c
  | .chnClose c => c.free = true → a.audEnable = false → a.opened = true → FreesWell a c.destroy (c.adecClose = true)
  | .setStreamMode c => c.valid = true → a.audEnable = false → c.vidFree = true → a.adec = true → ModeCalm a c
  | .setMultiAud c => ∀ attr ∈ c.attr, attr.u32PidNum ≤ maxDmxAudChanNum → a.audEnable = false → a.adec = true →
      MultiCalm a c attr.u32PidNum
  | .setPid _ => True
  | .start track c => a.audEnable = false → a.adec = true → track = true → StartCalm a c
  | .stop _ => True
  | .resetAudChn c d => a.audEnable = true → stopAudChn c a = true → StartCalm a d

end Calm

/-! ## What a call keeps -/

/-- The table while the audio channel is open, and at most one entry otherwise. -/
structure Good (a : AudChn) : Prop where
  distinct : a.opened = true → a.chns.Nodup
  valid : a.opened = true → invalidHandle ∉ a.chns
  current : a.opened = true → a.curDmxAudChn < a.dmxAudChnNum
  codec : a.opened = true → ∀ t ∈ a.pstAcodecAttr, t.length = a.dmxAudChnNum
  single : a.opened = false → a.dmxAudChnNum ≤ 1

/-- A call goes from one good table to another. -/
def Keeps (a : AudChn) (r : AudChn × List DmxEvent) : Prop :=
  Answers a.channels r.2 → Good r.1 ∧ Moves a.channels r.2 r.1.channels

variable {a b : AudChn} {es fs : List DmxEvent} {h : Handle}

theorem Good.ofClosed (hclosed : a.opened = false) (hnum : a.dmxAudChnNum ≤ 1) : Good a := by
  have hno : a.opened ≠ true := by rw [hclosed]; exact Bool.false_ne_true
  constructor
  · exact fun hyes => absurd hyes hno
  · exact fun hyes => absurd hyes hno
  · exact fun hyes => absurd hyes hno
  · exact fun hyes => absurd hyes hno
  · exact fun _ => hnum

theorem channels_closed (hclosed : a.opened = false) : a.channels = ∅ := by
  rw [AudChn.channels, hclosed]
  rfl

theorem channels_open (hopen : a.opened = true) : a.channels = a.chns.toFinset := if_pos hopen

theorem Good.keeps (ha : Good a) : Keeps a (a, []) := fun _ => ⟨ha, Moves.nil _⟩

theorem keeps_closed (ha : a.opened = false) (hb : b.opened = false) (hnum : b.dmxAudChnNum ≤ 1) : Keeps a (b, []) := by
  intro _
  refine ⟨Good.ofClosed hb hnum, ?_⟩
  rw [channels_closed ha, channels_closed hb]
  exact Moves.nil ∅

/-- Only what the other fields say changes. -/
theorem Good.keeps_of (ha : Good a) (hts : b.ts = a.ts) (hadec : b.adec = a.adec) (htable : b.hDmxAud = a.hDmxAud)
    (hnum : b.dmxAudChnNum = a.dmxAudChnNum) (hcur : a.opened = true → b.curDmxAudChn < a.dmxAudChnNum)
    (hcodec : b.pstAcodecAttr = a.pstAcodecAttr) : Keeps a (b, []) := by
  have hopened : b.opened = a.opened := by rw [AudChn.opened, AudChn.opened, hts, hadec]
  have hchns : b.chns = a.chns := by rw [AudChn.chns, AudChn.chns, htable, hnum]
  intro _
  refine ⟨?_, ?_⟩
  · constructor
    · rw [hopened, hchns]
      exact ha.distinct
    · rw [hopened, hchns]
      exact ha.valid
    · rw [hopened, hnum]
      exact hcur
    · rw [hopened, hnum, hcodec]
      exact ha.codec
    · rw [hopened, hnum]
      exact ha.single
  · rw [AudChn.channels, AudChn.channels, hopened, hchns]
    exact Moves.nil _

/-! ## The loops -/

@[simp] theorem setHandle_self (a : AudChn) (i : Nat) (h : Handle) : (a.setHandle i h).hDmxAud i = h := if_pos rfl

theorem setHandle_ne (hne : j ≠ i) : (a.setHandle i h).hDmxAud j = a.hDmxAud j := if_neg hne

theorem map_setHandle (a : AudChn) (h : Handle) (hij : i < j) (n : Nat) :
    (List.range' j n).map (a.setHandle i h).hDmxAud = (List.range' j n).map a.hDmxAud := by
  refine List.map_congr_left (fun k hk => setHandle_ne ?_)
  have hle := (List.mem_range'_1.mp hk).1
  omega

theorem chns_eq (a : AudChn) : a.chns = (List.range' 0 a.dmxAudChnNum).map a.hDmxAud := by
  rw [AudChn.chns, List.range_eq_range']

theorem chns_cons (hnum : 1 ≤ a.dmxAudChnNum) :
    a.chns = a.hDmxAud 0 :: (List.range' 1 (a.dmxAudChnNum - 1)).map a.hDmxAud := by
  obtain ⟨n, hn⟩ := Nat.exists_eq_add_of_le' hnum
  rw [chns_eq, hn, List.range'_succ, Nat.add_sub_cancel]
  rfl

theorem mem_chns (hi : i < a.dmxAudChnNum) : a.hDmxAud i ∈ a.chns :=
  List.mem_map_of_mem (List.mem_range.mpr hi)

theorem freeLoop_all {n : Nat} (hvalid : ∀ j, i ≤ j → j < i + n → a.hDmxAud j ≠ invalidHandle)
    (hall : ∀ j, i ≤ j → j < i + n → destroy j = true) : ∃ table, freeLoop destroy a i n =
      (true, { a with hDmxAud := table }, ((List.range' i n).map a.hDmxAud).map .destroy) := by
  induction n generalizing a i with
  | zero => exact ⟨a.hDmxAud, rfl⟩
  | succ n ih =>
    have hv : ∀ j, i + 1 ≤ j → j < i + 1 + n → (a.setHandle i invalidHandle).hDmxAud j ≠ invalidHandle := by
      intro j hj hlt
      rw [setHandle_ne (by omega)]
      exact hvalid j (by omega) (by omega)
    obtain ⟨table, hrest⟩ := ih hv (fun j hj hlt => hall j (by omega) (by omega))
    rw [map_setHandle a invalidHandle (Nat.lt_succ_self i)] at hrest
    refine ⟨table, ?_⟩
    rw [freeLoop, if_neg (hvalid i le_rfl (by omega)), if_pos (hall i le_rfl (by omega)), hrest]
    rfl

theorem destroyRange_all (hall : ∀ j, lo ≤ j → j < hi → destroy j = true) :
    destroyRange destroy a lo hi = ((List.range' lo (hi - lo)).map a.hDmxAud).map .destroy := by
  unfold destroyRange
  rw [List.map_map, List.map_eq_flatMap]
  refine List.flatMap_congr (fun j hj => ?_)
  obtain ⟨hle, hlt⟩ := List.mem_range'_1.mp hj
  rw [if_pos (hall j hle (by omega))]
  rfl

theorem destroyRange_none (hnone : ∀ j, lo ≤ j → j < hi → destroy j = false) :
    destroyRange destroy a lo hi = [] := by
  unfold destroyRange
  rw [List.flatMap_eq_nil_iff]
  intro j hj
  obtain ⟨hle, hlt⟩ := List.mem_range'_1.mp hj
  rw [if_neg (by rw [hnone j hle (by omega)]; simp)]

/-- The channels `hs` are created from `i` on, and the next one, if it was asked for, cannot be. -/
theorem createLoop_spec (create : Nat → Option Handle) (a : AudChn) (i n : Nat) : ∃ hs table,
    createLoop create a i n = (i + hs.length, { a with hDmxAud := table }, hs.map .create) ∧ hs.length ≤ n ∧
      (∀ j < i, table j = a.hDmxAud j) ∧ (List.range' i hs.length).map table = hs ∧
      (∀ j, i ≤ j → j < i + hs.length → create j ≠ none) ∧ (hs.length < n → create (i + hs.length) = none) := by
  induction n generalizing a i with
  | zero =>
    refine ⟨[], a.hDmxAud, rfl, le_rfl, fun _ _ => rfl, rfl, fun j hj hlt => ?_, fun hlt => ?_⟩
    · rw [List.length_nil] at hlt
      omega
    · exact absurd hlt (Nat.not_lt_zero _)
  | succ n ih =>
    rw [createLoop]
    cases hc : create i with
    | none =>
      refine ⟨[], a.hDmxAud, rfl, Nat.zero_le _, fun _ _ => rfl, rfl, fun j hj hlt => ?_, fun _ => hc⟩
      simp at hlt
      omega
    | some h =>
      obtain ⟨hs, table, hloop, hlen, hbefore, hmap, hcreated, hnext⟩ := ih (a.setHandle i h) (i + 1)
      refine ⟨h :: hs, table, ?_, ?_, ?_, ?_, ?_, ?_⟩
      · dsimp only
        rw [hloop, List.length_cons, Nat.add_assoc, Nat.add_comm 1]
        rfl
      · exact Nat.succ_le_succ hlen
      · intro j hj
        rw [hbefore j (by omega), setHandle_ne (by omega)]
      · rw [List.length_cons, List.range'_succ, List.map_cons, hmap, hbefore i (Nat.lt_succ_self i), setHandle_self]
      · intro j hj hlt
        rw [List.length_cons] at hlt
        rcases Nat.eq_or_lt_of_le hj with rfl | hj
        · rw [hc]
          exact Option.some_ne_none h
        · exact hcreated j hj (by omega)
      · intro hlt
        rw [List.length_cons] at hlt ⊢
        rw [← hnext (by omega)]
        congr 1
        omega

/-- The loop over the PIDs ends well if each can be set, and changes `DmxAudPid` only. -/
theorem pidLoop_spec (setChannelPid : Nat → Bool) (pids : Nat → BitVec 32) (a : AudChn) (i n : Nat) :
    (∃ table, (pidLoop setChannelPid pids a i n).2 = { a with dmxAudPid := table }) ∧
      ((pidLoop setChannelPid pids a i n).1 = true ↔ ∀ j, i ≤ j → j < i + n → setChannelPid j = true) := by
  induction n generalizing a i with
  | zero =>
    refine ⟨⟨a.dmxAudPid, rfl⟩, iff_of_true rfl (fun j hj hlt => ?_)⟩
    omega
  | succ n ih =>
    rw [pidLoop]
    cases hset : setChannelPid i with
    | false =>
      refine ⟨⟨a.dmxAudPid, rfl⟩, iff_of_false (by simp) (fun hall => ?_)⟩
      cases hset.symm.trans (hall i le_rfl (by omega))
    | true =>
      obtain ⟨⟨table, hsame⟩, hall⟩ := ih (a.setDmxPid i (pids i)) (i + 1)
      rw [if_pos rfl]
      refine ⟨⟨table, hsame⟩, hall.trans ⟨fun hrest j hj hlt => ?_, fun hrest j hj hlt => ?_⟩⟩
      · rcases Nat.eq_or_lt_of_le hj with rfl | hj
        · exact hset
        · exact hrest j hj (by omega)
      · exact hrest j (by omega) (by omega)

/-! ## Opening and closing -/

theorem opened_iff : a.opened = true ↔ a.ts = true ∧ a.adec = true := Bool.and_eq_true_iff

theorem Good.entry_valid (ha : Good a) (hopen : a.opened = true) (hi : i < a.dmxAudChnNum) :
    a.hDmxAud i ≠ invalidHandle := fun heq => ha.valid hopen (heq ▸ mem_chns hi)

theorem destroyed_moves (hopen : a.opened = true)
    (hdistinct : a.chns.Nodup) : Moves a.channels (a.chns.map .destroy) ∅ := by
  rw [channels_open hopen]
  have hmoves := Moves.destroys hdistinct (fun b hb => List.mem_toFinset.mpr hb)
  rwa [Finset.sdiff_self] at hmoves

theorem freeDmxChn_all (hvalid : ∀ i < a.dmxAudChnNum, a.hDmxAud i ≠ invalidHandle)
    (hall : ∀ i < a.dmxAudChnNum, destroy i = true) : ∃ table, freeDmxChn destroy a =
      (true, { a with hDmxAud := table, dmxAudChnNum := 0 }, a.chns.map .destroy) := by
  obtain ⟨table, hloop⟩ := freeLoop_all (i := 0) (n := a.dmxAudChnNum) (fun j _ hlt => hvalid j (by omega))
    (fun j _ hlt => hall j (by omega))
  refine ⟨table, ?_⟩
  rw [freeDmxChn, hloop, chns_eq]
  rfl

theorem freeDmxChn_first (hnum : 1 ≤ a.dmxAudChnNum) (hvalid : a.hDmxAud 0 ≠ invalidHandle)
    (hfirst : destroy 0 = false) : freeDmxChn destroy a = (false, a, []) := by
  obtain ⟨n, hn⟩ := Nat.exists_eq_add_of_le' hnum
  have hloop : freeLoop destroy a 0 a.dmxAudChnNum = (false, a, []) := by
    rw [hn, freeLoop, if_neg hvalid, if_neg (by rw [hfirst]; simp)]
  rw [freeDmxChn, hloop]
  rfl

/-- All channels are destroyed and the decoder is closed. -/
theorem freeAudChn_all (hopen : a.opened = true)
    (hvalid : ∀ i < a.dmxAudChnNum, a.hDmxAud i ≠ invalidHandle) (hall : ∀ i < a.dmxAudChnNum, destroy i = true) :
    ∃ table, freeAudChn destroy true a =
      ({ a with hDmxAud := table, dmxAudChnNum := 0, adec := false }, a.chns.map .destroy) := by
  obtain ⟨table, hfree⟩ := freeDmxChn_all hvalid hall
  refine ⟨table, ?_⟩
  rw [freeAudChn, if_pos (opened_iff.mp hopen).1, hfree]
  rfl

theorem freeAudChn_first (adecClose : Bool) (hnum : 1 ≤ a.dmxAudChnNum)
    (hvalid : a.hDmxAud 0 ≠ invalidHandle) (hts : a.ts = true) (hfirst : destroy 0 = false) :
    freeAudChn destroy adecClose a = (a, []) := by
  rw [freeAudChn, if_pos hts, freeDmxChn_first hnum hvalid hfirst]
  rfl

theorem closed_of_adec (hadec : a.adec = false) : a.opened = false := by
  rw [AudChn.opened, hadec, Bool.and_false]

theorem closed_of_ts (hts : a.ts = false) : a.opened = false := by
  rw [AudChn.opened, hts, Bool.false_and]

theorem Good.num_pos (ha : Good a) (hopen : a.opened = true) : 1 ≤ a.dmxAudChnNum := Nat.one_le_of_lt (ha.current hopen)

theorem Good.freeAudChn (ha : Good a) (hopen : a.opened = true) {adecClose : Bool}
    (hC : FreesWell a destroy (adecClose = true)) : Keeps a (DmxAud.freeAudChn destroy adecClose a) := by
  have hnum := ha.num_pos hopen
  rcases hC with hfirst | ⟨hall, rfl⟩
  · rw [freeAudChn_first adecClose hnum (ha.entry_valid hopen (by omega)) (opened_iff.mp hopen).1 hfirst]
    exact ha.keeps
  · obtain ⟨table, hfree⟩ := freeAudChn_all hopen (fun i hi => ha.entry_valid hopen hi) hall
    rw [hfree]
    have hclosed : AudChn.opened { a with hDmxAud := table, dmxAudChnNum := 0, adec := false } = false :=
      closed_of_adec rfl
    intro _
    refine ⟨Good.ofClosed hclosed (Nat.zero_le 1), ?_⟩
    rw [channels_closed hclosed]
    exact destroyed_moves hopen (ha.distinct hopen)

/-- The table with the one channel that is created first. -/
def AudChn.first (a : AudChn) (h : Handle) : AudChn := { a.setHandle 0 h with dmxAudChnNum := 1 }

theorem first_channels (hopen : a.opened = true) : (a.first h).channels = {h} := by
  have hfirst : (a.first h).opened = true := hopen
  have hchns : (a.first h).chns = [h] := rfl
  rw [channels_open hfirst, hchns]
  rfl

theorem first_good (hwell : OpensWell a) (hvalid : h ≠ invalidHandle) : Good (a.first h) := by
  have hchns : (a.first h).chns = [h] := rfl
  have hnum : (a.first h).dmxAudChnNum = 1 := rfl
  constructor
  · rw [hchns]
    exact fun _ => List.nodup_singleton h
  · rw [hchns]
    exact fun _ hmem => hvalid (List.mem_singleton.mp hmem).symm
  · rw [hnum]
    exact fun _ => Nat.lt_one_iff.mpr hwell.1
  · exact fun _ => hwell.2
  · rw [hnum]
    exact fun _ => le_rfl

theorem Answers.create (hA : Answers S [.create h]) : h ∉ S ∧ h ≠ invalidHandle := by
  refine ⟨hA.1.1, fun heq => hA.2 ?_⟩
  rw [heq]
  exact List.mem_singleton.mpr rfl

theorem moves_create (hnot : h ∉ S) : Moves S [.create h] (insert h S) := ⟨hnot, rfl⟩

theorem mallocAudChn_es (hadecOpen : c.adecOpen = true) (hts : a.ts = false) :
    mallocAudChn c a = (true, { a with adec := true }, []) := by
  rw [mallocAudChn, if_pos hadecOpen, if_neg (by rw [hts]; simp)]

theorem mallocAudChn_none (hadecOpen : c.adecOpen = true) (hts : a.ts = true) (hcreate : c.create = none)
    (hadecClose : c.adecClose = true) : mallocAudChn c a = (false, { a with adec := false }, []) := by
  rw [mallocAudChn, if_pos hadecOpen, if_pos hts, hcreate, hadecClose]
  rfl

theorem mallocAudChn_some (hadecOpen : c.adecOpen = true) (hts : a.ts = true) (hcreate : c.create = some h) :
    mallocAudChn c a = (true, AudChn.first { a with adec := true } h, [.create h]) := by
  rw [mallocAudChn, if_pos hadecOpen, if_pos hts, hcreate]
  rfl

/-- The audio channel was closed. -/
theorem Good.openClosed (ha : Good a) (hadec : a.adec = false) (hvid : c.vid = true) (hC : OpenCalm a c) :
    Keeps a (DmxAud.chnOpen c a) := by
  have hclosed : a.opened = false := closed_of_adec hadec
  have hno : ¬ a.adec = true := by rw [hadec]; exact Bool.false_ne_true
  rw [OpenCalm, if_neg hno] at hC
  rw [DmxAud.chnOpen, if_pos hvid, if_neg hno]
  by_cases hadecOpen : c.adecOpen = true
  · by_cases hts : a.ts = true
    · have hcalm := hC hadecOpen hts
      cases hcreate : c.create with
      | none =>
        rw [hcreate, if_pos rfl] at hcalm
        rw [mallocAudChn_none hadecOpen hts hcreate hcalm, if_neg (by simp)]
        exact keeps_closed hclosed (closed_of_adec rfl) (ha.single hclosed)
      | some h =>
        rw [hcreate, if_neg (Option.some_ne_none h)] at hcalm
        rw [mallocAudChn_some hadecOpen hts hcreate]
        have hopen : AudChn.opened { a with adec := true } = true := opened_iff.mpr ⟨hts, rfl⟩
        have hmoves (hnot : h ∉ a.channels) :
            Moves a.channels [.create h] (AudChn.first { a with adec := true } h).channels := by
          rw [first_channels hopen]
          have hcreated := moves_create hnot
          rw [channels_closed hclosed] at hcreated ⊢
          exact hcreated
        have hfirst (hwell : OpensWell a) : Keeps a (AudChn.first { a with adec := true } h, [.create h]) := by
          intro hA
          obtain ⟨hnot, hvalid⟩ := hA.create
          exact ⟨first_good (a := { a with adec := true }) hwell hvalid, hmoves hnot⟩
        by_cases hpcr : c.pcr = true
        · rw [if_pos hpcr] at hcalm
          rw [if_neg (by rw [hpcr]; simp)]
          exact hfirst hcalm
        · have hpcr : c.pcr = false := by simpa using hpcr
          rw [if_neg (by rw [hpcr]; simp)] at hcalm
          rw [if_pos ⟨rfl, hts, hpcr⟩]
          cases hdestroy : c.destroy 0 with
          | true =>
            rw [hdestroy, if_pos rfl] at hcalm
            intro hA
            have hA' : Answers a.channels [.create h] :=
              ⟨(fresh_append.mp hA.1).1, fun hmem => hA.2 (List.mem_append_left _ hmem)⟩
            obtain ⟨hnot, hvalid⟩ := hA'.create
            obtain ⟨table, hfree⟩ := freeAudChn_all (a := AudChn.first { a with adec := true } h) hopen
              (fun i hi => by rwa [Nat.lt_one_iff.mp hi]) (fun i hi => by rwa [Nat.lt_one_iff.mp hi])
            have hdown : AudChn.opened { AudChn.first { a with adec := true } h with
                hDmxAud := table, dmxAudChnNum := 0, adec := false } = false := closed_of_adec rfl
            rw [hcalm, hfree]
            refine ⟨Good.ofClosed hdown (Nat.zero_le 1), (hmoves hnot).trans ?_⟩
            rw [channels_closed hdown]
            exact destroyed_moves hopen (List.nodup_singleton h)
          | false =>
            rw [hdestroy, if_neg Bool.false_ne_true] at hcalm
            intro hA
            have hA' : Answers a.channels [.create h] :=
              ⟨(fresh_append.mp hA.1).1, fun hmem => hA.2 (List.mem_append_left _ hmem)⟩
            have hsame : DmxAud.freeAudChn c.destroy c.adecClose (AudChn.first { a with adec := true } h) =
                (AudChn.first { a with adec := true } h, []) :=
                  freeAudChn_first c.adecClose le_rfl hA'.create.2 hts hdestroy
            rw [hsame]
            exact hfirst hcalm hA'
    · have hts : a.ts = false := by simpa using hts
      rw [mallocAudChn_es hadecOpen hts, if_neg (by rw [hts]; simp)]
      exact keeps_closed hclosed (closed_of_ts hts) (ha.single hclosed)
  · rw [mallocAudChn, if_neg hadecOpen, if_neg (by simp)]
    exact ha.keeps

theorem Good.chnOpen (ha : Good a) (hC : c.vid = true → OpenCalm a c) : Keeps a (DmxAud.chnOpen c a) := by
  by_cases hvid : c.vid = true
  · by_cases hadec : a.adec = true
    · have hcalm := hC hvid
      rw [OpenCalm, if_pos hadec] at hcalm
      rw [DmxAud.chnOpen, if_pos hvid, if_pos hadec]
      dsimp only
      split
      · rename_i hpcr
        rw [List.nil_append]
        exact ha.freeAudChn (opened_iff.mpr ⟨hpcr.2.1, hadec⟩) (hcalm hpcr.2.1 hpcr.2.2)
      · exact ha.keeps
    · exact ha.openClosed (by simpa using hadec) hvid (hC hvid)
  · rw [DmxAud.chnOpen, if_neg hvid]
    exact ha.keeps

/-- Outside TS mode only the decoder is closed. -/
theorem freeAudChn_es (adecClose : Bool) (hts : a.ts = false) :
    freeAudChn destroy adecClose a = (if adecClose then { a with adec := false } else a, []) := by
  have hno : ¬ a.ts = true := by rw [hts]; exact Bool.false_ne_true
  rw [freeAudChn, if_neg hno]
  cases adecClose with
  | true => rfl
  | false => rfl

theorem Good.chnClose (ha : Good a) {c : CloseCall}
    (hC : c.free = true → a.audEnable = false → a.opened = true → FreesWell a c.destroy (c.adecClose = true)) :
    Keeps a (DmxAud.chnClose c a) := by
  unfold DmxAud.chnClose
  split
  · rename_i hgo
    by_cases hts : a.ts = true
    · have hopen : a.opened = true := opened_iff.mpr ⟨hts, hgo.2.2⟩
      exact ha.freeAudChn hopen (hC hgo.1 hgo.2.1 hopen)
    · have hts : a.ts = false := by simpa using hts
      have hclosed : a.opened = false := closed_of_ts hts
      rw [freeAudChn_es c.adecClose hts]
      split
      · exact keeps_closed hclosed (closed_of_adec rfl) (ha.single hclosed)
      · exact ha.keeps
  · exact ha.keeps

/-- The new mode is entered with no channel left from the old one. -/
theorem enterMode_keeps (hnum : a.dmxAudChnNum ≤ 1) {c : ModeCall} (hpcr : c.pcrDestroy = true)
    (hC : c.ts = true → a.adec = true → c.vidMalloc = true ∧ c.create ≠ none ∧ OpensWell a)
    (hA : Answers ∅ (enterMode c a).2) : Good (enterMode c a).1 ∧
      Moves ∅ (enterMode c a).2 (enterMode c a).1.channels := by
  unfold enterMode at hA ⊢
  rw [if_pos hpcr] at hA ⊢
  by_cases hts : c.ts = true
  · by_cases hadec : a.adec = true
    · obtain ⟨hvid, hcreate, hwell⟩ := hC hts hadec
      obtain ⟨h, hh⟩ := Option.ne_none_iff_exists'.mp hcreate
      have hgo : c.vidMalloc = true ∧ a.adec = true ∧ c.ts = true := ⟨hvid, hadec, hts⟩
      have hopen : AudChn.opened { a with ts := c.ts } = true := opened_iff.mpr ⟨hts, hadec⟩
      rw [if_pos hgo, hh] at hA ⊢
      obtain ⟨hnot, hvalid⟩ := hA.create
      refine ⟨first_good (a := { a with ts := c.ts }) hwell hvalid, ?_⟩
      have hchannels : (mallocDmxChn { a with ts := c.ts } (some h)).2.1.channels = {h} := first_channels hopen
      rw [hchannels]
      exact moves_create hnot
    · have hclosed : AudChn.opened { a with ts := c.ts } = false := closed_of_adec (by simpa using hadec)
      have hno : ¬ (c.vidMalloc = true ∧ a.adec = true ∧ c.ts = true) := fun hgo => hadec hgo.2.1
      rw [if_neg hno, channels_closed hclosed]
      exact ⟨Good.ofClosed hclosed hnum, Moves.nil ∅⟩
  · have hclosed : AudChn.opened { a with ts := c.ts } = false := closed_of_ts (by simpa using hts)
    have hno : ¬ (c.vidMalloc = true ∧ a.adec = true ∧ c.ts = true) := fun hgo => hts hgo.2.2
    rw [if_neg hno, channels_closed hclosed]
    exact ⟨Good.ofClosed hclosed hnum, Moves.nil ∅⟩

theorem Good.setStreamMode (ha : Good a) {c : ModeCall}
    (hC : c.valid = true → a.audEnable = false → c.vidFree = true → a.adec = true → ModeCalm a c) :
    Keeps a (DmxAud.setStreamMode c a) := by
  unfold DmxAud.setStreamMode
  split
  · rename_i hgo
    have hcalm := hC hgo.1 hgo.2.1 hgo.2.2
    by_cases hopen : a.adec = true ∧ a.ts = true
    · have hopened : a.opened = true := opened_iff.mpr hopen.symm
      obtain ⟨hfree, hnext⟩ := hcalm hopen.1
      rw [if_pos hopen]
      cases hdestroy : c.destroy 0 with
      | false =>
        rw [freeDmxChn_first (ha.num_pos hopened) (ha.entry_valid hopened (ha.num_pos hopened)) hdestroy]
        exact ha.keeps
      | true =>
        have hkept : ¬ c.destroy 0 = false := by rw [hdestroy]; simp
        obtain ⟨hall, hpcr⟩ := (hfree hopen.2).resolve_left hkept
        obtain ⟨table, hfreed⟩ := freeDmxChn_all (fun i hi => ha.entry_valid hopened hi) hall
        rw [hfreed]
        intro hA
        have hmoves := destroyed_moves hopened (ha.distinct hopened)
        have hentered := enterMode_keeps (a := { a with hDmxAud := table, dmxAudChnNum := 0 }) (Nat.zero_le 1) hpcr
          (fun hts _ => hnext (fun _ => hdestroy) hpcr hts)
          ⟨hmoves.remain_eq ▸ (fresh_append.mp hA.1).2, fun hmem => hA.2 (List.mem_append_right _ hmem)⟩
        exact ⟨hentered.1, hmoves.trans hentered.2⟩
    · have hclosed : a.opened = false := by
        rw [Bool.eq_false_iff]
        exact fun hopened => hopen (opened_iff.mp hopened).symm
      rw [if_neg hopen]
      dsimp only
      rw [List.nil_append]
      by_cases hpcr : c.pcrDestroy = true
      · intro hA
        rw [channels_closed hclosed] at hA ⊢
        refine enterMode_keeps (ha.single hclosed) hpcr (fun hts hadec => ?_) hA
        obtain ⟨-, hnext⟩ := hcalm hadec
        exact hnext (fun hold => absurd ⟨hadec, hold⟩ hopen) hpcr hts
      · unfold enterMode
        rw [if_neg hpcr]
        exact ha.keeps
  · exact ha.keeps

/-! ## Several PIDs -/

/-- The channels but the first. -/
def AudChn.others (a : AudChn) : List Handle := (List.range' 1 (a.dmxAudChnNum - 1)).map a.hDmxAud

theorem Good.chns_others (ha : Good a) (hopen : a.opened = true) : a.chns = a.hDmxAud 0 :: a.others :=
  chns_cons (ha.num_pos hopen)

theorem Good.others_moves (ha : Good a) (hopen : a.opened = true) :
    Moves a.channels (a.others.map .destroy) {a.hDmxAud 0} := by
  have hdistinct := ha.distinct hopen
  rw [channels_open hopen, ha.chns_others hopen] at *
  exact Moves.destroys_beside hdistinct

theorem notMem_creates (hA : .create invalidHandle ∉ es) (hes : ∀ h ∈ hs, .create h ∈ es) :
    invalidHandle ∉ hs := fun hmem => hA (hes _ hmem)

/-- The other channels are replaced by `hs`. -/
theorem Good.replaced (ha : Good a) (hopen : a.opened = true) (hb : b.opened = true)
    (hchns : b.chns = a.hDmxAud 0 :: hs) (hcur : b.curDmxAudChn < b.dmxAudChnNum)
    (hcodec : ∀ t ∈ b.pstAcodecAttr, t.length = b.dmxAudChnNum) :
    Keeps a (b, a.others.map .destroy ++ hs.map .create) := by
  intro hA
  have hleft := ha.others_moves hopen
  have hfresh : Fresh {a.hDmxAud 0} (hs.map .create) := hleft.remain_eq ▸ (fresh_append.mp hA.1).2
  obtain ⟨hnd, hmoves⟩ := hfresh.creates_beside
  have hnew : invalidHandle ∉ hs :=
    notMem_creates hA.2 (fun h hh => List.mem_append_right _ (List.mem_map_of_mem hh))
  have hzero : a.hDmxAud 0 ≠ invalidHandle := ha.entry_valid hopen (ha.num_pos hopen)
  refine ⟨?_, ?_⟩
  · constructor
    · rw [hchns]
      exact fun _ => hnd
    · rw [hchns]
      intro _ hmem
      rcases List.mem_cons.mp hmem with heq | hmem
      · exact hzero heq.symm
      · exact hnew hmem
    · exact fun _ => hcur
    · exact fun _ => hcodec
    · intro hclosed
      cases hb.symm.trans hclosed
  · rw [channels_open hb, hchns]
    exact hleft.trans hmoves

/-- The first channel stays and the new ones `hs` are destroyed again. -/
theorem Good.undone (ha : Good a) (hopen : a.opened = true) (hnum : a.dmxAudChnNum = 1)
    (hb : b.opened = true) (hbnum : b.dmxAudChnNum = 1) (hzero : b.hDmxAud 0 = a.hDmxAud 0)
    (hcur : b.curDmxAudChn = a.curDmxAudChn)
    (hcodec : b.pstAcodecAttr = none) : Keeps a (b, hs.map .create ++ hs.map .destroy) := by
  have hchns : a.chns = [a.hDmxAud 0] := by rw [chns_eq, hnum]; rfl
  have hchns' : b.chns = a.chns := by rw [chns_eq, hbnum, hchns, ← hzero]; rfl
  intro hA
  have hchannels : a.channels = {a.hDmxAud 0} := by rw [channels_open hopen, hchns]; rfl
  have hfresh : Fresh {a.hDmxAud 0} (hs.map .create) := hchannels ▸ (fresh_append.mp hA.1).1
  obtain ⟨hnd, hmoves⟩ := hfresh.creates_beside
  refine ⟨?_, ?_⟩
  · constructor
    · rw [hchns']
      exact fun _ => ha.distinct hopen
    · rw [hchns']
      exact fun _ => ha.valid hopen
    · rw [hcur, hbnum, ← hnum]
      exact fun _ => ha.current hopen
    · rw [hcodec]
      exact fun _ t ht => nomatch ht
    · intro hclosed
      cases hb.symm.trans hclosed
  · rw [channels_open hb, hchns', ← channels_open hopen, hchannels]
    exact hmoves.trans (Moves.destroys_beside hnd)

/-- The loop that creates channels ends at the last one when all are created. -/
theorem allCreated_iff {c : MultiCall} {num : Nat} (hlen : hs.length ≤ num - 1)
    (hcreated : ∀ j, 1 ≤ j → j < 1 + hs.length → c.create j ≠ none)
    (hnext : hs.length < num - 1 → c.create (1 + hs.length) = none) : 1 + hs.length = num ↔ AllCreated c num := by
  constructor
  · rintro rfl
    exact ⟨by omega, hcreated⟩
  · rintro ⟨hnum, hall⟩
    by_contra hne
    exact hall (1 + hs.length) (by omega) (by omega) (hnext (by omega))

/-- In TS mode, with the audio channel open. -/
theorem Good.multiOpen (ha : Good a) (hopen : a.opened = true) {c : MultiCall}
    (hC : MultiCalm a c attr.u32PidNum) : Keeps a (multiAud c attr a) := by
  unfold MultiCalm at hC
  rw [if_pos (opened_iff.mp hopen).1] at hC
  obtain ⟨hold, hset, hunset, hfail⟩ := hC
  obtain ⟨hs, table, hloop, hlen, hbefore, hmap, hcreated, hnext⟩ :=
    createLoop_spec c.create { a with pstAcodecAttr := none } 1 (attr.u32PidNum - 1)
  have hall := allCreated_iff hlen hcreated hnext
  have hzero : table 0 = a.hDmxAud 0 := hbefore 0 Nat.zero_lt_one
  unfold multiAud
  rw [hloop, destroyRange_all hold]
  by_cases hnum : 1 + hs.length = attr.u32PidNum
  · rw [if_pos hnum]
    obtain ⟨⟨pids, hsame⟩, hpids⟩ :=
      pidLoop_spec c.setChannelPid attr.pu32AudPid { a with pstAcodecAttr := none, hDmxAud := table } 0 attr.u32PidNum
    have hpids : (pidLoop c.setChannelPid attr.pu32AudPid { a with pstAcodecAttr := none, hDmxAud := table } 0
        attr.u32PidNum).1 = true ↔ ∀ j < attr.u32PidNum, c.setChannelPid j = true :=
      hpids.trans ⟨fun hyes j hj => hyes j (Nat.zero_le j) (by omega), fun hyes j _ hj => hyes j (by omega)⟩
    have hlist : table 0 :: (List.range' 1 (attr.u32PidNum - 1)).map table = a.hDmxAud 0 :: hs := by
      rw [← hnum, Nat.add_sub_cancel_left, hmap, hzero]
    unfold choosePids
    by_cases hyes : ∀ j < attr.u32PidNum, c.setChannelPid j = true
    · rw [if_pos (hpids.mpr hyes), hsame]
      refine ha.replaced hopen hopen ?_ (hset (hall.mp hnum) hyes) ?_
      · have hpos : 1 ≤ attr.u32PidNum := by omega
        exact (chns_cons hpos).trans hlist
      · intro t ht
        split at ht
        · obtain rfl := Option.some.inj ht
          rw [List.length_map, List.length_range]
        · cases ht
    · rw [if_neg (fun htrue => hyes (hpids.mp htrue)), hsame]
      have hstay := hunset (hall.mp hnum) hyes
      refine ha.replaced hopen hopen ?_ (ha.current hopen) (fun t ht => nomatch ht)
      refine Eq.trans (chns_cons ?_) ?_
      · exact ha.num_pos hopen
      · show table 0 :: (List.range' 1 (a.dmxAudChnNum - 1)).map table = a.hDmxAud 0 :: hs
        rw [hstay]
        exact hlist
  · rw [if_neg hnum]
    obtain ⟨hone, hundo⟩ := hfail (fun hyes => hnum (hall.mpr hyes))
    have hnone : List.range' 1 (a.dmxAudChnNum - 1) = [] := by rw [hone]; rfl
    rw [hnone, List.map_nil, List.map_nil, List.nil_append, destroyRange_all (fun j hj hlt => hundo j hj (by omega)
      (fun k hk hkj => hcreated k hk (by omega))), Nat.add_sub_cancel_left]
    rw [hmap]
    exact ha.undone hopen hone hopen hone hzero rfl rfl

theorem Good.multiAud (ha : Good a) {c : MultiCall} (hadec : a.adec = true)
    (hC : MultiCalm a c attr.u32PidNum) : Keeps a (DmxAud.multiAud c attr a) := by
  by_cases hts : a.ts = true
  · exact ha.multiOpen (opened_iff.mpr ⟨hts, hadec⟩) hC
  · have hclosed : a.opened = false := closed_of_ts (by simpa using hts)
    have hsingle := ha.single hclosed
    rw [MultiCalm, if_neg hts] at hC
    have hold : destroyRange c.destroyOld a 1 a.dmxAudChnNum = [] := destroyRange_none (fun j hj hlt => by omega)
    have hloop : createLoop c.create { a with pstAcodecAttr := none } 1 (attr.u32PidNum - 1) =
        (1, { a with pstAcodecAttr := none }, []) := by
      rw [Nat.sub_eq_zero_of_le hC]
      rfl
    unfold DmxAud.multiAud
    dsimp only
    rw [hold, hloop]
    split
    · unfold choosePids
      obtain ⟨⟨pids, hsame⟩, -⟩ :=
        pidLoop_spec c.setChannelPid attr.pu32AudPid { a with pstAcodecAttr := none } 0 attr.u32PidNum
      dsimp only
      rw [hsame]
      split
      · exact keeps_closed hclosed hclosed hC
      · exact keeps_closed hclosed hclosed hsingle
    · have hnew : destroyRange c.destroyNew { a with pstAcodecAttr := none } 1 1 = [] := rfl
      rw [hnew]
      exact keeps_closed hclosed hclosed hsingle

theorem Good.setMultiAud (ha : Good a) {c : MultiCall}
    (hC : ∀ attr ∈ c.attr, attr.u32PidNum ≤ maxDmxAudChanNum → a.audEnable = false → a.adec = true →
      MultiCalm a c attr.u32PidNum) : Keeps a (DmxAud.setMultiAud c a) := by
  unfold DmxAud.setMultiAud
  cases hattr : c.attr with
  | none => exact ha.keeps
  | some attr =>
    dsimp only
    split
    · rename_i hgo
      exact ha.multiAud hgo.2.2 (hC attr (Option.mem_def.mpr hattr) hgo.1 hgo.2.1 hgo.2.2)
    · exact ha.keeps

/-- Another channel is heard, if the table has it. -/
theorem Good.setPid (ha : Good a) (pid : BitVec 32) : Keeps a (DmxAud.setPid pid a, []) := by
  unfold DmxAud.setPid
  split
  · exact ha.keeps
  · split
    · rename_i hone
      split
      · exact ha.keeps
      · refine ha.keeps_of rfl rfl rfl rfl (fun _ => ?_) rfl
        rw [hone]
        exact Nat.zero_lt_one
    · cases hfind : (List.range a.dmxAudChnNum).find? (fun i => a.dmxAudPid i = pid) with
      | none => exact ha.keeps
      | some i => exact ha.keeps_of rfl rfl rfl rfl (fun _ => List.mem_range.mp (List.mem_of_find?_eq_some hfind)) rfl

/-! ## Starting and stopping -/

theorem startAudChn_quiet {c : StartCall} (hC : StartCalm a c) : (startAudChn c a).2 = [] := by
  unfold startAudChn
  split
  · rename_i hready
    split
    · rename_i hts
      cases hfind : (List.range a.dmxAudChnNum).find? (fun i => !c.openChannel i) with
      | none => rfl
      | some i =>
        have hclosed : c.openChannel i = false := by simpa using List.find?_some hfind
        have hlt : i < a.dmxAudChnNum := List.mem_range.mp (List.mem_of_find?_eq_some hfind)
        exact destroyRange_none (fun j _ hj => hC hready hts i hlt hclosed j hj)
    · rfl
  · rfl

theorem Good.keeps_enable (ha : Good a) (enable : Bool) : Keeps a ({ a with audEnable := enable }, []) :=
  ha.keeps_of rfl rfl rfl rfl ha.current rfl

theorem Good.start (ha : Good a) {track : Bool} {c : StartCall}
    (hC : a.audEnable = false → a.adec = true → track = true → StartCalm a c) : Keeps a (DmxAud.start track c a) := by
  unfold DmxAud.start
  split
  · exact ha.keeps
  · rename_i hgo
    obtain ⟨hena, hrest⟩ := not_or.mp hgo
    obtain ⟨hadec, htrack⟩ := not_or.mp hrest
    dsimp only
    rw [startAudChn_quiet (hC (by simpa using hena) (by simpa using hadec) (by simpa using htrack))]
    split
    · exact ha.keeps_enable true
    · exact ha.keeps

theorem Good.stop (ha : Good a) (c : StopCall) : Keeps a (DmxAud.stop c a, []) := by
  unfold DmxAud.stop
  split
  · exact ha.keeps_enable false
  · exact ha.keeps

theorem Good.resetAudChn (ha : Good a) {c : StopCall} {d : StartCall}
    (hC : a.audEnable = true → stopAudChn c a = true → StartCalm a d) : Keeps a (DmxAud.resetAudChn c d a) := by
  unfold DmxAud.resetAudChn
  split
  · rename_i hgo
    rw [startAudChn_quiet (hC hgo.1 hgo.2)]
    exact ha.keeps
  · exact ha.keeps

/-! ## Runs -/

/-- What a calm call keeps. -/
theorem Good.call (ha : Good a) {i : AudCall} (hC : Calm a i) : Keeps a (DmxAud.call a i) := by
  cases i with
  | chnOpen c => exact ha.chnOpen hC
  | chnClose c => exact ha.chnClose hC
  | setStreamMode c => exact ha.setStreamMode hC
  | setMultiAud c => exact ha.setMultiAud hC
  | setPid pid => exact ha.setPid pid
  | start track c => exact ha.start hC
  | stop c => exact ha.stop c
  | resetAudChn c d => exact ha.resetAudChn hC

/-- The table is good, and the channels at the demux are those of the player. -/
structure Inv (es : List DmxEvent) (y : AudSys) : Prop where
  good : Good y.chn
  moves : Moves ∅ es y.chn.channels
  exist : y.exist = y.chn.channels

theorem Inv.init (ts : Bool) : Inv [] ⟨create ts, ∅⟩ := by
  have hclosed : (create ts).opened = false := closed_of_adec rfl
  have hnone : (create ts).channels = ∅ := channels_closed hclosed
  constructor
  · exact Good.ofClosed hclosed (Nat.zero_le 1)
  · exact hnone.symm
  · exact hnone.symm

theorem Inv.step {y z : AudSys} {i : AudCall} (hy : Inv es y) (hC : Calm y.chn i) (hnext : audStep y i = some (z, fs)) :
    Inv (es ++ fs) z := by
  unfold audStep at hnext
  dsimp only at hnext
  split at hnext
  · rename_i hA
    cases hnext
    rw [hy.exist] at hA ⊢
    obtain ⟨hgood, hmoves⟩ := hy.good.call hC hA
    constructor
    · exact hgood
    · exact hy.moves.trans hmoves
    · exact hmoves.remain_eq
  · cases hnext

/-- **The audio channels at the demux.** In runs of calm calls, with any answers of the demux and any PIDs: the channels
    that exist are those of the table, each other one that was created was destroyed once, one of the table is heard,
    and the codec table has an entry for each. -/
theorem run_sound {ts : Bool} {is : List AudCall} {y : AudSys}
    (h : Run audStep (fun y i => Calm y.chn i) ⟨create ts, ∅⟩ is y es) : Sound es y.chn := by
  have hinv : Inv es y := by
    refine h.inv_effects (fun _ y es => Inv es y) (Inv.init ts) ?_
    exact fun _ y es i z fs hy hC hnext => hy.step hC hnext
  constructor
  · exact hinv.moves
  · exact hinv.good.distinct
  · exact hinv.good.current
  · exact hinv.good.codec

section Decidable

variable (a : AudChn)

instance (destroy : Nat → Bool) (after : Prop) [Decidable after] : Decidable (FreesWell a destroy after) :=
  inferInstanceAs (Decidable (_ ∨ _ ∧ _))

instance (c : OpenCall) : Decidable (OpenCalm a c) :=
  inferInstanceAs (Decidable
    (if a.adec then a.ts = true → c.pcr = false → FreesWell a c.destroy (c.adecClose = true)
    else c.adecOpen = true → a.ts = true →
      if c.create = none then c.adecClose = true
      else if c.pcr then OpensWell a
      else if c.destroy 0 then c.adecClose = true
      else OpensWell a))

instance (c : ModeCall) : Decidable (ModeCalm a c) :=
  inferInstanceAs (Decidable ((_ → _) ∧ ((_ → _) → _ → _ → _ ∧ _ ∧ _)))

instance (c : MultiCall) (num : Nat) : Decidable (MultiCalm a c num) :=
  inferInstanceAs (Decidable
    (if a.ts then
      (∀ j, 1 ≤ j → j < a.dmxAudChnNum → c.destroyOld j = true) ∧
        (AllCreated c num → (∀ j < num, c.setChannelPid j = true) → a.curDmxAudChn < num) ∧
        (AllCreated c num → ¬ (∀ j < num, c.setChannelPid j = true) → a.dmxAudChnNum = num) ∧
        (¬ AllCreated c num → a.dmxAudChnNum = 1 ∧
          ∀ j, 1 ≤ j → j < num → (∀ k, 1 ≤ k → k ≤ j → c.create k ≠ none) → c.destroyNew j = true)
    else num ≤ 1))

instance (c : StartCall) : Decidable (StartCalm a c) := inferInstanceAs (Decidable (_ → _ → _))

instance : (i : AudCall) → Decidable (Calm a i)
  | .chnOpen _ => inferInstanceAs (Decidable (_ → _))
  | .chnClose _ => inferInstanceAs (Decidable (_ → _ → _ → _))
  | .setStreamMode _ => inferInstanceAs (Decidable (_ → _ → _ → _ → _))
  | .setMultiAud c => inferInstanceAs (Decidable (∀ attr ∈ c.attr, _ → _ → _ → _))
  | .setPid _ => isTrue trivial
  | .start _ _ => inferInstanceAs (Decidable (_ → _ → _ → _))
  | .stop _ => isTrue trivial
  | .resetAudChn _ _ => inferInstanceAs (Decidable (_ → _ → _))

end Decidable

/-- Two PIDs, whose channels are created with the handles 0x52 and so on. -/
def twoPids : MultiCall where
  attr := some ⟨2, fun i => if i = 0 then 0x101 else 0x102, fun _ => ⟨4⟩⟩
  destroyOld := fun _ => true
  create := fun i => some (0x51 + BitVec.ofNat 32 i)
  destroyNew := fun _ => true
  setChannelPid := fun _ => true
  malloc := true

/-- The audio channel is opened, its demux channel is created with the handle 0x51. -/
def openFirst : AudCall := .chnOpen ⟨true, true, some 0x51, true, fun _ => true, true⟩

/-- Both channels are created, the second PID is heard, and everything is started, stopped and closed. -/
theorem run_sound_two :
    ∃ y es, Run audStep (fun y i => Calm y.chn i) ⟨create true, ∅⟩
        [openFirst, .setMultiAud twoPids, .setPid 0x102, .start true ⟨true, fun _ => true, fun _ => true⟩,
          .stop ⟨true, fun _ => true, true⟩, .chnClose ⟨true, fun _ => true, true⟩] y es ∧
      Sound es y.chn := by
  obtain ⟨y, es, hrun, -⟩ := exists_run_of_exec audStep (fun y i => Calm y.chn i) ⟨create true, ∅⟩
    [openFirst, .setMultiAud twoPids, .setPid 0x102, .start true ⟨true, fun _ => true, fun _ => true⟩,
      .stop ⟨true, fun _ => true, true⟩, .chnClose ⟨true, fun _ => true, true⟩] (fun _ => true) (by decide)
  exact ⟨y, es, hrun, run_sound hrun⟩

/-- The second channel cannot be opened when the audio channel is started: the first one is destroyed, stays in the
    table, and is destroyed again when the audio channel is closed. -/
theorem start_destroys :
    ∃ y es, Run audStep always ⟨create true, ∅⟩
        [openFirst, .setMultiAud twoPids, .start true ⟨true, fun i => i = 0, fun _ => true⟩] y es ∧
      .destroy 0x51 ∈ es ∧ 0x51 ∈ y.chn.chns ∧ ¬ Sound es y.chn ∧
      .destroy 0x51 ∈ (call y.chn (.chnClose ⟨true, fun _ => true, true⟩)).2 := by
  refine exists_run_imp (fun y es => .destroy 0x51 ∈ es ∧ 0x51 ∈ y.chn.chns ∧ remain ∅ es ≠ y.chn.channels ∧
    .destroy 0x51 ∈ (call y.chn (.chnClose ⟨true, fun _ => true, true⟩)).2)
    (by decide) fun _ _ _ htest => ?_
  obtain ⟨hdestroyed, hstale, hwrong, hagain⟩ := htest
  exact ⟨hdestroyed, hstale, fun hsound => hwrong hsound.exist.remain_eq, hagain⟩

end HiSTB.Avplay.DmxAud
