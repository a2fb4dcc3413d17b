import HiSTB.Rtpfec.Correctness.CheckMiss
import HiSTB.Rtpfec.Correctness.Groups

/-!
# `Rtpfec.Correctness.Invariant` — what holds in every state of the reader

`Inv H` is the joint invariant of the three group owners, with `H` what received slots may hold. `Quiet` says that a
part of a round keeps it, shows only allowed effects, and does not move the place where `GroupDone` is read out next
(`front`); `round_cases` then sorts the rounds into quiet ones, releases of `GroupDone`, and visits of one slot.
`readRun_inv` carries the invariant to every reachable state, where it says nothing about the payloads; `fitRun_inv`
carries it, with the packets delivered so far, along the runs in which nothing is written past a slot.
-/

namespace HiSTB.Rtpfec

open Fec Lib

variable {es : List Event} {e : Event} {dl : RTPFECPktGroup} {pkt : Packet} {hdr : FecHeader}
    {K slot : Nat} {lostMap : Nat → Int} {a : Around} {p : RSFec} {st st' : State} {i : Input}
    {H' : Holds} {is : List Input}

/-- The group takes packets. -/
def Open (s : RTPFECContext) (g : RTPFECPktGroup) : Prop := s.groupCheckMiss = some g ∨ s.groupDownLoading = some g

/-- The group has memory for the context's RTP packets, `fec_dec_len` bytes for each. -/
def Slotted (s : RTPFECContext) (g : RTPFECPktGroup) : Prop :=
  (∀ i < s.rtpPktNum, (g.paPktRtp i).isSome = true) ∧ g.slotLen = s.fecDecLen

/-- **The invariant of the reader's context.** -/
structure Inv (H : Holds) (s : RTPFECContext) : Prop where
  haveFec : s.haveFec = true ↔ s.groupDownLoading.isSome = true
  pktNum : s.rtpPktNum ≤ 255
  groups : GroupsOk H s.rtpPktNum s.groups
  slots : ∀ g, Open s g → Slotted s g

/-- What every effect satisfies: packets are inserted with `GroupDone` empty, into the slot of their
    sequence number; a parity packet is stored with `GroupDone` empty; no leftover group is freed; a slot
    marked as received hands over what it may hold. -/
def EventOk (H : Holds) : Event → Prop
  | .insertCall done => done = false
  | .putRtp start index pktseq _ => (index : Int) = (pktseq - start) % 0x10000
  | .putFec _ _ _ done => done = false
  | .groupFree => False
  | .fecDecodeAdp _ _ => True
  | .visit start slot received payload => received = true → ∀ pl, payload = some pl → H ((start + slot) % 0x10000) pl

/-- The slots passed by `pkt_read_pos`: group start and slot. -/
def visits (es : List Event) : List (Int × Nat) :=
  es.filterMap fun e => match e with
    | .visit start slot _ _ => some (start, slot)
    | _ => none

@[simp] theorem visits_append (es fs : List Event) : visits (es ++ fs) = visits es ++ visits fs :=
  List.filterMap_append

/-- The place where the oldest group is read next: group start and slot. -/
def front (gs : List RTPFECPktGroup) : Option (Int × Nat) :=
  gs.head?.map (fun g => (g.rtpSeqStart, g.pktReadPos))

theorem front_replace {l₁ l₂ : List RTPFECPktGroup} {g g' : RTPFECPktGroup}
    (hstart : g'.rtpSeqStart = g.rtpSeqStart) (hpos : g'.pktReadPos = g.pktReadPos) :
    front (l₁ ++ g' :: l₂) = front (l₁ ++ g :: l₂) := by
  cases l₁ with
  | nil => simp [front, hstart, hpos]
  | cons x l₁ => rfl

theorem front_snoc (l : List RTPFECPktGroup) (g g' : RTPFECPktGroup) :
    front (l ++ [g, g']) = front (l ++ [g]) := by
  cases l <;> rfl

/-- Part of a round that reads nothing out. -/
structure Quiet (H : Holds) (s : RTPFECContext) (es : List Event) (t : RTPFECContext) : Prop where
  inv : Inv H t
  events : ∀ e ∈ es, EventOk H e
  visits : visits es = []
  front : s.haveFec = true → front t.groups = front s.groups
  geometry : s.haveFec = true → t.geometry = s.geometry

variable {H : Holds} {s t : RTPFECContext} {g g' : RTPFECPktGroup}

theorem Quiet.refl (h : Inv H s) : Quiet H s [] s :=
  ⟨h, fun _ he => absurd he List.not_mem_nil, rfl, fun _ => rfl, fun _ => rfl⟩

theorem Quiet.trans {fs : List Event} {u : RTPFECContext} (h : Quiet H s es t)
    (hfec : s.haveFec = true → t.haveFec = true) (h' : Quiet H t fs u) : Quiet H s (es ++ fs) u := by
  refine ⟨h'.inv, ?_, ?_, ?_, ?_⟩
  · intro e he
    rcases List.mem_append.mp he with he | he
    · exact h.events e he
    · exact h'.events e he
  · rw [visits_append, h.visits, h'.visits, List.append_nil]
  · intro hs
    rw [h'.front (hfec hs), h.front hs]
  · intro hs
    rw [h'.geometry (hfec hs), h.geometry hs]

/-- An effect that is allowed and no visit may be put in front. -/
theorem Quiet.cons (h : Quiet H s es t) (he : EventOk H e)
    (hv : Rtpfec.visits [e] = []) : Quiet H s (e :: es) t := by
  refine ⟨h.inv, ?_, ?_, h.front, h.geometry⟩
  · intro x hx
    rcases List.mem_cons.mp hx with rfl | hx
    · exact he
    · exact h.events x hx
  · rw [← List.singleton_append, visits_append, hv, h.visits, List.append_nil]

/-- The groups and lengths stay, and no other group is opened. -/
theorem Quiet.of_same (h : Inv H s) (hg : t.groups = s.groups) (hgeo : t.geometry = s.geometry)
    (hfec : t.haveFec = true ↔ t.groupDownLoading.isSome = true) (hopen : ∀ g, Open t g → Open s g) :
    Quiet H s [] t := by
  obtain ⟨hK, _, hlen⟩ := Geometry.mk.inj hgeo
  refine ⟨⟨hfec, by rw [hK]; exact h.pktNum, by rw [hg, hK]; exact h.groups, ?_⟩,
    fun _ he => absurd he List.not_mem_nil, rfl, fun _ => by rw [hg], fun _ => hgeo⟩
  intro g hopen'
  obtain ⟨hrows, hlen'⟩ := h.slots g (hopen g hopen')
  exact ⟨fun i hi => hrows i (hK ▸ hi), hlen'.trans hlen.symm⟩

theorem Inv.downLoading (h : Inv H s) (hfec : s.haveFec = true) : ∃ dl, s.groupDownLoading = some dl :=
  Option.isSome_iff_exists.mp (h.haveFec.mp hfec)

theorem Inv.downLoading_none (h : Inv H s) (hfec : s.haveFec = false) : s.groupDownLoading = none := by
  have hno := h.haveFec.not.mp (by rw [hfec]; decide)
  rwa [Bool.not_eq_true, Option.isSome_eq_false_iff, Option.isNone_iff_eq_none] at hno

/-! ## Inserting packets -/

theorem Slotted.congr (h : Slotted s g) (hrows : ∀ i, (g'.paPktRtp i).isSome = (g.paPktRtp i).isSome)
    (hlen : g'.slotLen = g.slotLen) : Slotted s g' :=
  ⟨fun i hi => by rw [hrows]; exact h.1 i hi, hlen.trans h.2⟩

theorem Slotted.new (s : RTPFECContext) (start : Int) : Slotted s (newGroup s start) :=
  ⟨fun i hi => by simp [newGroup, hi], rfl⟩

theorem isSome_writeSlot (g : RTPFECPktGroup) (i : Nat) (src : Nat → BYTE) (n j : Nat) :
    ((g.writeSlot i src n).paPktRtp j).isSome = (g.paPktRtp j).isSome := by
  unfold RTPFECPktGroup.writeSlot
  by_cases hj : j = i
  · subst hj
    simp
  · simp [Function.update_of_ne hj]

theorem isSome_spill (g : RTPFECPktGroup) (o : Owner) (past : Nat → Option Cell) (src : Nat → BYTE) (len n i : Nat) :
    ((g.spill o past src len n).paPktRtp i).isSome = (g.paPktRtp i).isSome :=
  forRange_inv (fun _ (a : Nat → Option (Nat → BYTE)) => (a i).isSome = (g.paPktRtp i).isSome) rfl fun k a _ ha => by
    rw [isSome_pokeSlots, ha]

/-- `g'` is at the place of `g`, with the same slots. -/
structure SamePlace (g g' : RTPFECPktGroup) : Prop where
  start : g'.rtpSeqStart = g.rtpSeqStart
  seqEnd : g'.rtpSeqEnd = g.rtpSeqEnd
  readPos : g'.pktReadPos = g.pktReadPos
  rows : ∀ i, (g'.paPktRtp i).isSome = (g.paPktRtp i).isSome
  slotLen : g'.slotLen = g.slotLen

theorem SamePlace.spill (g : RTPFECPktGroup) (o : Owner) (past : Nat → Option Cell) (src : Nat → BYTE)
    (len n : Nat) : SamePlace g (g.spill o past src len n) :=
  ⟨rfl, rfl, rfl, isSome_spill g o past src len n, rfl⟩

theorem SamePlace.putRtp (g : RTPFECPktGroup) (index : Nat) (pkt : Packet) : SamePlace g (g.putRtp index pkt) :=
  ⟨rfl, rfl, rfl, isSome_writeSlot g index pkt.data pkt.dataSize, rfl⟩

theorem SamePlace.putFec (g : RTPFECPktGroup) (s : RTPFECContext) (fecSeq : Nat) (pkt : Packet) :
    SamePlace g (g.putFec s fecSeq pkt) := ⟨rfl, rfl, rfl, fun _ => rfl, rfl⟩

/-- Replacing `GroupDone` by a well-formed group at the same place. -/
theorem Quiet.replaceDone (h : Inv H s) (hd : s.groupDone = some g) (hok : GroupOk H s.rtpPktNum g')
    (hsame : SamePlace g g') : Quiet H s [] { s with groupDone := some g' } := by
  have hgs : ∀ {u : RTPFECContext} {x}, u.groupDone = some x →
      u.groups = [] ++ x :: (u.groupCheckMiss.toList ++ u.groupDownLoading.toList) := by
    intro u x hx
    simp [RTPFECContext.groups, hx]
  refine ⟨⟨h.haveFec, h.pktNum, ?_, h.slots⟩, fun _ he => absurd he List.not_mem_nil, rfl, ?_, fun _ => rfl⟩
  · rw [hgs rfl]
    exact (hgs hd ▸ h.groups).replace hok hsame.start hsame.seqEnd hsame.readPos
  · intro _
    rw [hgs hd, hgs (u := { s with groupDone := some g' }) rfl, front_replace hsame.start hsame.readPos]

/-- Replacing `GroupCheckMiss` by a well-formed group at the same place. -/
theorem Quiet.replaceCheckMiss (h : Inv H s) (hcm : s.groupCheckMiss = some g) (hok : GroupOk H s.rtpPktNum g')
    (hsame : SamePlace g g') : Quiet H s [] { s with groupCheckMiss := some g' } := by
  have hgs : RTPFECContext.groups { s with groupCheckMiss := some g' }
      = s.groupDone.toList ++ g' :: s.groupDownLoading.toList := groups_checkMiss rfl
  refine ⟨⟨h.haveFec, h.pktNum, ?_, ?_⟩, fun _ he => absurd he List.not_mem_nil, rfl, ?_, fun _ => rfl⟩
  · rw [hgs]
    exact (groups_checkMiss hcm ▸ h.groups).replace hok hsame.start hsame.seqEnd hsame.readPos
  · rintro x (hx | hx)
    · obtain rfl : g' = x := Option.some.inj hx
      exact (h.slots g (Or.inl hcm)).congr hsame.rows hsame.slotLen
    · exact h.slots x (Or.inr hx)
  · intro _
    rw [hgs, groups_checkMiss hcm, front_replace hsame.start hsame.readPos]

/-- Replacing `GroupDownLoading` by a well-formed group at the same place. -/
theorem Quiet.replaceDownLoading (h : Inv H s) (hdl : s.groupDownLoading = some g) (hok : GroupOk H s.rtpPktNum g')
    (hsame : SamePlace g g') : Quiet H s [] { s with groupDownLoading := some g' } := by
  have hgs : RTPFECContext.groups { s with groupDownLoading := some g' }
      = (s.groupDone.toList ++ s.groupCheckMiss.toList) ++ [g'] := groups_downLoading rfl
  refine ⟨⟨?_, h.pktNum, ?_, ?_⟩, fun _ he => absurd he List.not_mem_nil, rfl, ?_, fun _ => rfl⟩
  · have hfec := h.haveFec
    rw [hdl] at hfec
    exact hfec
  · rw [hgs]
    exact (groups_downLoading hdl ▸ h.groups).replace hok hsame.start hsame.seqEnd hsame.readPos
  · rintro x (hx | hx)
    · exact h.slots x (Or.inl hx)
    · obtain rfl : g' = x := Option.some.inj hx
      exact (h.slots g (Or.inr hdl)).congr hsame.rows hsame.slotLen
  · intro _
    rw [hgs, groups_downLoading hdl, front_replace hsame.start hsame.readPos]

/-- **What runs past a slot** keeps the invariant, except for the payloads; a copy that ends in its slot keeps all of
    it. -/
theorem Quiet.spill (hq : Quiet H s es t) (hfec : s.haveFec = true → t.haveFec = true) (past : Nat → Option Cell)
    (src : Nat → BYTE)
    (len n : Nat) (hfits : Loose H ∨ n ≤ len) : Quiet H s es (t.spill past src len n) := by
  rcases hfits with hloose | hle
  · -- the three groups one after the other
    have hdone : Quiet H t [] { t with groupDone := t.groupDone.map (fun g => g.spill .done past src len n) } := by
      cases hd : t.groupDone with
      | none =>
        rw [Option.map_none, ← hd]
        exact Quiet.refl hq.inv
      | some g =>
        have hok := hq.inv.groups.ok g (by simp [RTPFECContext.groups, hd])
        exact Quiet.replaceDone hq.inv hd (hok.spill hloose .done past src len n) (SamePlace.spill ..)
    have hcheck : ∀ {u : RTPFECContext}, Inv H u → Quiet H u []
        { u with groupCheckMiss := u.groupCheckMiss.map (fun g => g.spill .checkMiss past src len n) } := by
      intro u hu
      cases hcm : u.groupCheckMiss with
      | none =>
        rw [Option.map_none, ← hcm]
        exact Quiet.refl hu
      | some g =>
        have hok := hu.groups.ok g (by rw [groups_checkMiss hcm]; simp)
        exact Quiet.replaceCheckMiss hu hcm (hok.spill hloose .checkMiss past src len n) (SamePlace.spill ..)
    have hload : ∀ {u : RTPFECContext}, Inv H u → Quiet H u []
        { u with groupDownLoading := u.groupDownLoading.map (fun g => g.spill .downLoading past src len n) } := by
      intro u hu
      cases hdl : u.groupDownLoading with
      | none =>
        rw [Option.map_none, ← hdl]
        exact Quiet.refl hu
      | some g =>
        have hok := hu.groups.ok g (by rw [groups_downLoading hdl]; simp)
        exact Quiet.replaceDownLoading hu hdl (hok.spill hloose .downLoading past src len n) (SamePlace.spill ..)
    have hall := (hdone.trans id (hcheck hdone.inv)).trans id (hload (hcheck hdone.inv).inv)
    exact ⟨hall.inv, hq.events, hq.visits, fun hs => (hall.front (hfec hs)).trans (hq.front hs), hq.geometry⟩
  · rwa [spill_of_le hle]

/-- Opening the group after `dl` and putting `new` there; the older groups are only handed on. -/
theorem Quiet.openNext {new : RTPFECPktGroup} (h : Inv H s) (hdl : s.groupDownLoading = some dl)
    (hok : GroupOk H s.rtpPktNum new) (hf : Follows dl new)
    (hgs : t.groups = (s.groupDone.toList ++ s.groupCheckMiss.toList) ++ [dl, new])
    (hgeo : t.geometry = s.geometry) (hfec : t.haveFec = s.haveFec) (hcm : t.groupCheckMiss = some dl)
    (hnew : t.groupDownLoading = some new) (hslots : Slotted s new) : Quiet H s [] t := by
  obtain ⟨hK, _, hlen⟩ := Geometry.mk.inj hgeo
  have hslotted : ∀ g, Slotted s g → Slotted t g := fun g hg => ⟨fun i hi => hg.1 i (hK ▸ hi), hg.2.trans hlen.symm⟩
  refine ⟨⟨?_, by rw [hK]; exact h.pktNum, ?_, ?_⟩, fun _ he => absurd he List.not_mem_nil, rfl, ?_,
    fun _ => hgeo⟩
  · rw [hfec, h.haveFec, hdl, hnew]
    simp
  · rw [hgs, hK]
    exact (groups_downLoading hdl ▸ h.groups).snoc hok hf
  · rintro g (hg | hg)
    · obtain rfl : dl = g := Option.some.inj (hcm.symm.trans hg)
      exact hslotted dl (h.slots dl (Or.inr hdl))
    · obtain rfl : new = g := Option.some.inj (hnew.symm.trans hg)
      exact hslotted new hslots
  · intro _
    rw [hgs, front_snoc, groups_downLoading hdl]

theorem rtpSeq_slotOf {start : Int} (pkt : Packet) : rtpSeq pkt = (start + slotOf start (rtpSeq pkt)) % 0x10000 := by
  have hrange := rtpSeq_range pkt
  rw [slotOf_eq]
  omega

/-- **`_rtpfec_group_rtppkt_in` keeps the invariant**, with the payloads if the packet fits where it is awaited. -/
theorem groupRtppktIn_quiet (h : Inv H s) (hd : s.groupDone = none) (hfec : s.haveFec = true) (a : Around)
    (htakes : Awaited s (rtpSeq pkt) → Takes H s.fecDecLen pkt) :
    Quiet H s (groupRtppktIn a s pkt (rtpSeq pkt)).events (groupRtppktIn a s pkt (rtpSeq pkt)).ctx := by
  obtain ⟨dl, hdl⟩ := h.downLoading hfec
  have hdlok : GroupOk H s.rtpPktNum dl := h.groups.ok dl (by rw [groups_downLoading hdl]; simp)
  have hfits : ∀ {len}, len = s.fecDecLen → Awaited s (rtpSeq pkt) →
      Takes H len pkt ∧ (Loose H ∨ pkt.dataSize ≤ len) := by
    rintro len rfl hawaited
    exact ⟨htakes hawaited, (htakes hawaited).imp_right And.left⟩
  rcases groupRtppktIn_cases h.pktNum h.groups hd hdl a pkt with
    ⟨g, hcm, hcov, heq⟩ | ⟨hcov, heq⟩ | ⟨hcov, heq⟩ | ⟨_, heq⟩
  all_goals rw [heq]
  · have hgok : GroupOk H s.rtpPktNum g := h.groups.ok g (by rw [groups_checkMiss hcm]; simp)
    obtain ⟨htake, hfit⟩ := hfits (h.slots g (Or.inl hcm)).2 (Or.inl ⟨g, hcm, hcov⟩)
    have hput := hgok.putRtp (slotOf g.rtpSeqStart (rtpSeq pkt)) htake (rtpSeq_slotOf pkt)
    have hq := Quiet.replaceCheckMiss h hcm hput (SamePlace.putRtp ..)
    exact (hq.cons (e := .putRtp _ _ _ _) (slotOf_eq _ _) rfl).spill id _ _ _ _ hfit
  · obtain ⟨htake, hfit⟩ := hfits rfl (Or.inr ⟨dl, hdl, Or.inr hcov⟩)
    have hnew : GroupOk H s.rtpPktNum (newGroup s dl.nextStart) :=
      GroupOk.new H s (nextStart_range dl).1 (nextStart_range dl).2
    have hput := hnew.putRtp (slotOf dl.nextStart (rtpSeq pkt)) htake (rtpSeq_slotOf pkt)
    have hgs : (Rtpfec.openNext s dl (slotOf dl.nextStart (rtpSeq pkt)) pkt).groups
        = (s.groupDone.toList ++ s.groupCheckMiss.toList)
          ++ [dl, (newGroup s dl.nextStart).putRtp (slotOf dl.nextStart (rtpSeq pkt)) pkt] := by
      simp [RTPFECContext.groups, Rtpfec.openNext, hd, RTPFECPktGroup.nextStart]
    have hslots := (Slotted.new s dl.nextStart).congr
      (isSome_writeSlot _ (slotOf dl.nextStart (rtpSeq pkt)) pkt.data pkt.dataSize) rfl
    have hq : Quiet H s [] (Rtpfec.openNext s dl (slotOf dl.nextStart (rtpSeq pkt)) pkt) :=
      Quiet.openNext h hdl hput ⟨rfl, rfl⟩ hgs rfl rfl rfl rfl hslots
    exact (hq.cons (e := .putRtp _ _ _ _) (slotOf_eq _ _) rfl).spill id _ _ _ _ hfit
  · obtain ⟨htake, hfit⟩ := hfits (h.slots dl (Or.inr hdl)).2 (Or.inr ⟨dl, hdl, Or.inl hcov⟩)
    have hput := hdlok.putRtp (slotOf dl.rtpSeqStart (rtpSeq pkt)) htake (rtpSeq_slotOf pkt)
    have hq := Quiet.replaceDownLoading h hdl hput (SamePlace.putRtp ..)
    exact (hq.cons (e := .putRtp _ _ _ _) (slotOf_eq _ _) rfl).spill id _ _ _ _ hfit
  · refine Quiet.of_same h ?_ rfl (by simp [discontinue]) ?_
    · simp [RTPFECContext.groups, discontinue, hd, hdl]
    · rintro g (hg | hg)
      · exact Or.inr (hdl.trans hg)
      · cases hg

/-- **`_rtpfec_group_fecpkt_in` keeps the invariant**, wherever it stores the packet. -/
theorem groupFecpktIn_quiet (h : Inv H s) (hd : s.groupDone = none) (hfec : s.haveFec = true)
    (pkt : Packet) (pktseq : Int) (fecSeq : Nat) :
    Quiet H s (groupFecpktIn s pkt pktseq fecSeq).events (groupFecpktIn s pkt pktseq fecSeq).ctx := by
  obtain ⟨dl, hdl⟩ := h.downLoading hfec
  have hdlok : GroupOk H s.rtpPktNum dl := h.groups.ok dl (by rw [groups_downLoading hdl]; simp)
  have hdone : s.groupDone.isSome = false := by rw [hd]; rfl
  rcases groupFecpktIn_cases pkt hdl pktseq fecSeq with
    ⟨g, hcm, _, heq⟩ | ⟨_, _, heq⟩ | ⟨hcm, _, heq⟩ | ⟨_, heq⟩
  all_goals rw [heq]
  · have hgok : GroupOk H s.rtpPktNum g := h.groups.ok g (by rw [groups_checkMiss hcm]; simp)
    exact (Quiet.replaceCheckMiss h hcm (hgok.putFec fecSeq pkt) (SamePlace.putFec ..)).cons hdone rfl
  · exact (Quiet.replaceDownLoading h hdl (hdlok.putFec fecSeq pkt) (SamePlace.putFec ..)).cons hdone rfl
  · have hnew : GroupOk H s.rtpPktNum (newGroup s dl.nextStart) :=
      GroupOk.new H s (nextStart_range dl).1 (nextStart_range dl).2
    have hgs : (openNextFec s dl fecSeq pkt).groups = (s.groupDone.toList ++ s.groupCheckMiss.toList)
        ++ [dl, (newGroup s dl.nextStart).putFec s fecSeq pkt] := by
      simp [RTPFECContext.groups, openNextFec, hd, hcm, RTPFECPktGroup.nextStart]
    have hq : Quiet H s [] (openNextFec s dl fecSeq pkt) := Quiet.openNext h hdl (hnew.putFec fecSeq pkt) ⟨rfl, rfl⟩ hgs
      rfl rfl rfl rfl ((Slotted.new s dl.nextStart).congr (fun _ => rfl) rfl)
    exact hq.cons hdone rfl
  · exact Quiet.refl h

/-- A parity packet changes neither `GroupDone` nor `have_fec`. -/
theorem groupFecpktIn_same (hdl : s.groupDownLoading = some dl) (pkt : Packet)
    (pktseq : Int) (fecSeq : Nat) :
    (groupFecpktIn s pkt pktseq fecSeq).ctx.groupDone = s.groupDone ∧
      (groupFecpktIn s pkt pktseq fecSeq).ctx.haveFec = s.haveFec ∧
      (groupFecpktIn s pkt pktseq fecSeq).ctx.fecInit = s.fecInit ∧
      (groupFecpktIn s pkt pktseq fecSeq).ctx.geometry = s.geometry := by
  rcases groupFecpktIn_cases pkt hdl pktseq fecSeq with
    ⟨g, _, _, heq⟩ | ⟨_, _, heq⟩ | ⟨_, _, heq⟩ | ⟨_, heq⟩
  all_goals
    rw [heq]
    exact ⟨rfl, rfl, rfl, rfl⟩

/-! ## `_rtpfec_get_fecpkt` -/

/-- An accepted header is within the reader's limits, and repeats the context's geometry if there is one. -/
theorem fecHeader_some (h : fecHeader s pkt = some hdr) :
    hdr = readFecHeader pkt ∧ hdr.rtpNum ≤ 255 ∧ hdr.fecNum ≤ 20 ∧ hdr.fecSeq < hdr.fecNum ∧
      (s.haveFec = true → hdr.rtpNum = s.rtpPktNum ∧ hdr.fecNum = s.fecPktNum) := by
  unfold fecHeader at h
  dsimp only at h
  split at h
  · cases h
  · split at h
    · cases h
    · split at h
      · cases h
      · split at h
        · cases h
        · rename_i _ hrtp hfec hseq
          obtain rfl := Option.some.inj h
          push Not at hrtp hfec hseq
          exact ⟨rfl, hrtp.1, hfec.1, hseq, fun hh => ⟨hrtp.2 hh, hfec.2 hh⟩⟩

/-- The context in which the first parity packet is inserted: a fresh group after the packet's own. -/
def firstGroup (s : RTPFECContext) (h : FecHeader) : RTPFECContext :=
  { adoptGeometry s h with
    groupDownLoading := some (newGroup (adoptGeometry s h) ((h.rtpSeqEnd + 1) % 0x10000)) }

/-- The first parity packet, when no group is left. -/
theorem acceptFecpkt_first (pkt : Packet) (hfec : s.haveFec = false)
    (hdl : s.groupDownLoading = none) (hd : s.groupDone = none) :
    acceptFecpkt s pkt hdr
      = { groupFecpktIn (firstGroup s hdr) pkt hdr.rtpSeqStart hdr.fecSeq with
          events := .insertCall false ::
            (groupFecpktIn (firstGroup s hdr) pkt hdr.rtpSeqStart hdr.fecSeq).events } := by
  simp [acceptFecpkt, hfec, adoptGeometry, hdl, createGroupDownloading, firstGroup, hd]

/-- The fresh context after the first parity packet satisfies the invariant. -/
theorem firstGroup_inv (hnum : hdr.rtpNum ≤ 255) (hd : s.groupDone = none)
    (hcm : s.groupCheckMiss = none) : Inv H (firstGroup s hdr) := by
  have hgs : (firstGroup s hdr).groups
      = [newGroup (adoptGeometry s hdr) ((hdr.rtpSeqEnd + 1) % 0x10000)] := by
    simp [RTPFECContext.groups, firstGroup, adoptGeometry, hd, hcm]
  refine ⟨by simp [firstGroup, adoptGeometry], hnum, ?_, ?_⟩
  · rw [hgs]
    refine ⟨?_, List.isChain_singleton _⟩
    intro g hg
    obtain rfl := List.mem_singleton.mp hg
    exact GroupOk.new H (adoptGeometry s hdr) (by omega) (by omega)
  · rintro g (hg | hg)
    · rw [show s.groupCheckMiss = some g from hg] at hcm
      cases hcm
    · obtain rfl := Option.some.inj hg
      exact Slotted.new (adoptGeometry s hdr) _

/-- **Accepting a parity packet keeps the invariant**; `GroupDone` stays empty and FEC stays on. -/
theorem acceptFecpkt_quiet (h : Inv H s) (hd : s.groupDone = none)
    (hcm : s.haveFec = false → s.groupCheckMiss = none) (hhdr : fecHeader s pkt = some hdr) :
    Quiet H s (acceptFecpkt s pkt hdr).events (acceptFecpkt s pkt hdr).ctx ∧
      (acceptFecpkt s pkt hdr).ctx.groupDone = none ∧
      (acceptFecpkt s pkt hdr).ctx.haveFec = true := by
  have hdone : s.groupDone.isSome = false := by rw [hd]; rfl
  cases hfec : s.haveFec with
  | true =>
    obtain ⟨dl, hdl⟩ := h.downLoading hfec
    have hsame := groupFecpktIn_same hdl pkt hdr.rtpSeqStart hdr.fecSeq
    unfold acceptFecpkt
    rw [if_pos hfec]
    refine ⟨(groupFecpktIn_quiet h hd hfec pkt _ _).cons hdone rfl, ?_, ?_⟩
    · rw [hsame.1, hd]
    · rw [hsame.2.1, hfec]
  | false =>
    have hdl := h.downLoading_none hfec
    have hinv : Inv H (firstGroup s hdr) := firstGroup_inv (fecHeader_some hhdr).2.1 hd (hcm hfec)
    have hq := groupFecpktIn_quiet hinv (by simpa [firstGroup, adoptGeometry] using hd) rfl pkt
      hdr.rtpSeqStart hdr.fecSeq
    have hsame := groupFecpktIn_same (s := firstGroup s hdr) rfl pkt hdr.rtpSeqStart hdr.fecSeq
    rw [acceptFecpkt_first pkt hfec hdl hd]
    have hcons := hq.cons (e := .insertCall false) rfl rfl
    refine ⟨⟨hcons.inv, hcons.events, hcons.visits, ?_, ?_⟩, ?_, ?_⟩
    · intro hc
      rw [hfec] at hc
      cases hc
    · intro hc
      rw [hfec] at hc
      cases hc
    · rw [hsame.1]
      exact hd
    · rw [hsame.2.1]
      rfl

/-- `_rtpfec_get_fecpkt` keeps the invariant, `GroupDone` stays empty, and FEC does not go off. -/
theorem getFecpkt_quiet (h : Inv H s) (hd : s.groupDone = none)
    (hcm : s.haveFec = false → s.groupCheckMiss = none) (fecpkt : Option Packet) :
    Quiet H s (getFecpkt s fecpkt).events (getFecpkt s fecpkt).ctx ∧ (getFecpkt s fecpkt).ctx.groupDone = none ∧
      (s.haveFec = true → (getFecpkt s fecpkt).ctx.haveFec = true) := by
  unfold getFecpkt
  cases fecpkt with
  | none => exact ⟨Quiet.refl h, hd, id⟩
  | some pkt =>
    dsimp only
    split
    · exact ⟨Quiet.refl h, hd, id⟩
    · cases hhdr : fecHeader s pkt with
      | none => exact ⟨Quiet.refl h, hd, id⟩
      | some hdr =>
        obtain ⟨hq, hd', hfec⟩ := acceptFecpkt_quiet h hd hcm hhdr
        exact ⟨hq, hd', fun _ => hfec⟩

/-! ## Checking and decoding `GroupCheckMiss` -/

/-- A group stays well formed when only slots not received change. -/
theorem GroupOk.of_received {g g' : RTPFECPktGroup} (h : GroupOk H K g) (hsame : SamePlace g g')
    (hslot : ∀ slot, g'.lostMap slot = 1 →
      g.lostMap slot = 1 ∧ ∀ behind, g'.payload behind slot = g.payload behind slot) : GroupOk H K g' := by
  refine ⟨by rw [hsame.start]; exact h.nonneg, by rw [hsame.start]; exact h.lt,
    by rw [hsame.seqEnd, hsame.start]; exact h.seqEnd, by rw [hsame.readPos]; exact h.readPos, ?_⟩
  intro slot hlt hgot behind pl hpl
  obtain ⟨hg, hpay⟩ := hslot slot hgot
  rw [hsame.start]
  exact h.payload slot hlt hg behind pl (by rw [← hpay]; exact hpl)

/-- `_rtpfec_check_miss` sets lengths of missing packets only. -/
theorem setLostLen_of_received {g : RTPFECPktGroup} {m : Miss}
    (hidx : ∀ j < m.lostPktCount, lostMap (m.lostPktIdx j) = 0) (hgot : lostMap slot = 1) :
    (setLostLen s g m).aPktRtpLen slot = g.aPktRtpLen slot := by
  have hinv := forRange_inv (n := m.lostPktCount) (s := g.aPktRtpLen)
    (f := fun len i => Function.update len (m.lostPktIdx i) s.fecDecLen)
    (fun _ len => len slot = g.aPktRtpLen slot) rfl ?_
  · exact hinv
  · intro j len hj hlen
    have hne : slot ≠ m.lostPktIdx j := by
      rintro rfl
      have h0 := hidx j hj
      omega
    rw [Function.update_of_ne hne, hlen]

theorem checkMiss_quiet (h : Inv H s) : Quiet H s [] (checkMiss s).1 := by
  rcases hc : checkMiss s with ⟨s', need⟩
  cases need with
  | false =>
    rw [checkMiss_false hc]
    exact Quiet.refl h
  | true =>
    obtain ⟨g, m, hcm, hm, _, rfl⟩ := checkMiss_true hc
    have hgok : GroupOk H s.rtpPktNum g := h.groups.ok g (by rw [groups_checkMiss hcm]; simp)
    have hsame : SamePlace g (setLostLen s g m) := ⟨rfl, rfl, rfl, fun _ => rfl, rfl⟩
    refine Quiet.replaceCheckMiss h hcm (hgok.of_received hsame ?_) hsame
    intro slot hgot
    have hlen := setLostLen_of_received (s := s) (g := g) (fun j hj => ((missLoops_some hm).idx j hj).2)
      hgot
    refine ⟨hgot, fun behind => ?_⟩
    unfold RTPFECPktGroup.payload
    rw [hlen]
    rfl

/-- **Rebuilding a lost packet leaves the received slots alone**, whatever geometry the codec has, if it ends in its
    slot. -/
theorem GroupOk.writeSlot (h : GroupOk H K g) {i : Nat} (hi : g.lostMap i ≠ 1) (src : Nat → BYTE) (n : Nat) :
    GroupOk H K (g.writeSlot i src n) := by
  refine h.of_received ⟨rfl, rfl, rfl, isSome_writeSlot g i src n, rfl⟩ ?_
  intro slot hgot
  have hne : slot ≠ i := fun heq => hi (heq ▸ hgot)
  exact ⟨hgot, fun behind => by
    simp [RTPFECPktGroup.payload, RTPFECPktGroup.writeSlot, Function.update_of_ne hne]⟩

/-- Handing `GroupCheckMiss` on. -/
theorem checkmissToDone_quiet (h : Inv H s) : Quiet H s [] (groupCheckmissToDone s).1 := by
  refine Quiet.of_same h (groups_checkmissToDone s) ?_ ?_ ?_
  · unfold groupCheckmissToDone
    split <;> rfl
  · unfold groupCheckmissToDone
    split <;> exact h.haveFec
  · unfold groupCheckmissToDone
    split
    · exact fun _ hg => hg
    · rintro g (hg | hg)
      · cases hg
      · exact Or.inr hg

/-- Rebuilding goes on with the groups' lengths, owners and maps as they were. -/
structure Rebuilds (H : Holds) (lostMap : Nat → Int) (s t : RTPFECContext) : Prop where
  quiet : Quiet H s [] t
  haveFec : t.haveFec = s.haveFec
  fecInit : t.fecInit = s.fecInit
  geometry : t.geometry = s.geometry
  lostMap : ∀ g, t.groupCheckMiss = some g → g.lostMap = lostMap

theorem rebuildSlot_rebuilds (out : Rows) (i : Nat)
    (h : Rebuilds H lostMap s t) (hfits : Loose H ∨ p.dataLen ≤ s.fecDecLen) :
    Rebuilds H lostMap s (rebuildSlot a p lostMap out t i) := by
  unfold rebuildSlot
  cases hcm : t.groupCheckMiss with
  | none => exact h
  | some g =>
    dsimp only
    split
    · exact h
    · rename_i hlost
      have hmap := h.lostMap g hcm
      have hgok : GroupOk H t.rtpPktNum g := h.quiet.inv.groups.ok g (by rw [groups_checkMiss hcm]; simp)
      have hlen : g.slotLen = s.fecDecLen :=
        (h.quiet.inv.slots g (Or.inl hcm)).2.trans (Geometry.mk.inj h.geometry).2.2
      have hwrite := Quiet.replaceCheckMiss h.quiet.inv hcm (hgok.writeSlot (i := i) (by rwa [hmap]) (out i) p.dataLen)
        ⟨rfl, rfl, rfl, isSome_writeSlot g i (out i) p.dataLen, rfl⟩
      have hspill := hwrite.spill id (a.past i) (out i) g.slotLen p.dataLen (by rwa [hlen])
      refine ⟨h.quiet.trans (fun hs => h.haveFec.trans hs) hspill, h.haveFec, h.fecInit, h.geometry, ?_⟩
      intro g' hg'
      obtain rfl := Option.some.inj hg'
      exact hmap

/-- Decoding keeps the invariant, with the payloads if the codec's packets fit. -/
theorem decodeCheckMiss_rebuilds (h : Inv H st.ctx) (hcm : st.ctx.groupCheckMiss = some g)
    (out : Rows) (hfits : Loose H ∨ p.dataLen ≤ st.ctx.fecDecLen) :
    Rebuilds H g.lostMap st.ctx (forRange p.dataPktNum (rebuildSlot a p g.lostMap out) st.ctx) := by
  refine forRange_inv (fun _ t => Rebuilds H g.lostMap st.ctx t) ⟨Quiet.refl h, rfl, rfl, rfl, ?_⟩
    fun i t _ ht => rebuildSlot_rebuilds out i ht hfits
  intro g' hg'
  obtain rfl : g = g' := Option.some.inj (hcm.symm.trans hg')
  rfl

/-- The codec, once it is initialised, writes no more than a slot has. -/
def CodecFits (st : State) : Prop := st.ctx.fecInit = true → ∀ p ∈ st.p, p.dataLen ≤ st.ctx.fecDecLen
deriving Decidable

theorem decodeCheckMiss_quiet (h : Inv H st.ctx) (a : Around) (heap : Rows)
    (hfits : Loose H ∨ ∀ p, st.p = some p → p.dataLen ≤ st.ctx.fecDecLen) :
    Quiet H st.ctx [] (decodeCheckMiss a st heap).ctx := by
  unfold decodeCheckMiss
  split
  · rename_i p g hp hcm
    split
    · exact Quiet.refl h
    · rename_i out _
      have hre := decodeCheckMiss_rebuilds (a := a) h hcm out (hfits.imp_right (fun hall => hall p hp))
      exact hre.quiet.trans (fun hs => hre.haveFec.trans hs) (checkmissToDone_quiet hre.quiet.inv)
  · exact Quiet.refl h

theorem initCodec_quiet (st : State) (h : Inv H st.ctx) : Quiet H st.ctx [] (initCodec st).ctx := by
  unfold initCodec
  split
  · exact Quiet.refl h
  · split
    · exact Quiet.refl h
    · exact Quiet.of_same h rfl rfl h.haveFec (fun _ hg => hg)

theorem initCodec_haveFec (st : State) : (initCodec st).ctx.haveFec = st.ctx.haveFec := by
  unfold initCodec
  split
  · rfl
  · split <;> rfl

/-- `fec_init` keeps the geometry it is given. -/
theorem fecInit_geometry {M S : Nat} (h : Fec.fecInit K M S = some p) :
    codecGeometry p = ⟨K, M, S⟩ := by
  unfold Fec.fecInit at h
  simp only [Option.bind_eq_bind, Option.bind_eq_some_iff, Option.some.injEq] at h
  obtain ⟨_, _, rfl⟩ := h
  rfl

/-- A codec that is initialised here has the context's length. -/
theorem initCodec_fits (h : CodecFits st) (hx : (initCodec st).exited = false) :
    ∀ p, (initCodec st).p = some p → p.dataLen ≤ (initCodec st).ctx.fecDecLen := by
  unfold initCodec at hx ⊢
  split
  · rename_i hinit
    exact h hinit
  · rename_i hinit
    rw [if_neg hinit] at hx
    split at hx
    · cases hx
    · rename_i q hq
      rintro p hp
      obtain rfl : q = p := Option.some.inj hp
      exact le_of_eq (congrArg Geometry.dataLen (fecInit_geometry hq))

theorem checkMiss_same (s : RTPFECContext) : (checkMiss s).1.haveFec = s.haveFec ∧
    (checkMiss s).1.fecInit = s.fecInit ∧ (checkMiss s).1.geometry = s.geometry := by
  rcases hc : checkMiss s with ⟨s', need⟩
  cases need with
  | false =>
    rw [checkMiss_false hc]
    exact ⟨rfl, rfl, rfl⟩
  | true =>
    obtain ⟨_, _, _, _, _, rfl⟩ := checkMiss_true hc
    exact ⟨rfl, rfl, rfl⟩

theorem checkMissRound_quiet (st : State) (h : Inv H st.ctx) (a : Around) (heap : Rows)
    (hfits : Loose H ∨ ((checkMiss st.ctx).2 = true → CodecFits st)) :
    Quiet H st.ctx (checkMissRound a st heap).2 (checkMissRound a st heap).1.ctx := by
  have hcheck := checkMiss_quiet h
  obtain ⟨hfec, hinit', hgeo⟩ := checkMiss_same st.ctx
  unfold checkMissRound
  dsimp only
  split
  · rename_i hneed
    have hinit := initCodec_quiet { st with ctx := (checkMiss st.ctx).1 } hcheck.inv
    have hboth := hcheck.trans (fun hf => by rw [hfec]; exact hf) hinit
    split
    · exact hboth
    · rename_i hx
      have hdec : Loose H ∨ ∀ p, (initCodec { st with ctx := (checkMiss st.ctx).1 }).p = some p →
          p.dataLen ≤ (initCodec { st with ctx := (checkMiss st.ctx).1 }).ctx.fecDecLen := by
        refine hfits.imp_right (fun hall => initCodec_fits ?_ (by simpa using hx))
        intro hi p hp
        rw [show (checkMiss st.ctx).1.fecDecLen = st.ctx.fecDecLen from (Geometry.mk.inj hgeo).2.2]
        exact hall hneed (hinit' ▸ hi) p hp
      refine (hboth.trans ?_ (decodeCheckMiss_quiet hinit.inv a heap hdec)).cons trivial rfl
      intro hf
      rw [initCodec_haveFec]
      exact hfec.trans hf
  · exact hcheck.trans (fun hf => by rw [hfec]; exact hf) (checkmissToDone_quiet hcheck.inv)

/-! ## One round -/

/-- The loop comes to `_rtpfec_get_fecpkt`. -/
def Fetches (s : RTPFECContext) : Prop :=
  s.groupDone = none ∧ ¬ (s.haveFec = false ∧ s.groupCheckMiss.isSome = true)
deriving Decidable

theorem Fetches.checkMiss_none (h : Fetches s) (hfec : s.haveFec = false) : s.groupCheckMiss = none := by
  cases hcm : s.groupCheckMiss with
  | none => rfl
  | some g => exact absurd ⟨hfec, by rw [hcm]; rfl⟩ h.2

/-- The loop goes on behind `_rtpfec_get_fecpkt`, in the branch for a context with FEC. -/
def Proceeds (s : RTPFECContext) (fecpkt : Option Packet) : Prop :=
  Fetches s ∧ (getFecpkt s fecpkt).ret = 0 ∧ (getFecpkt s fecpkt).ctx.haveFec = true
deriving Decidable

/-- The group that is checked there has waited long enough. -/
def Due (s : RTPFECContext) : Prop := s.groupCheckMiss.isSome = true ∧ 10 < s.checkCount
deriving Decidable

/-- The loop goes on to put an RTP packet into a group. -/
def Inserts (s : RTPFECContext) (fecpkt : Option Packet) : Prop :=
  Proceeds s fecpkt ∧ ¬ Due (getFecpkt s fecpkt).ctx
deriving Decidable

/-- What a round writes is in its slot: an RTP packet that is put into a group, and the packets of a codec that
    decodes. -/
structure Admits (H : Holds) (st : State) (i : Input) : Prop where
  rtp : Inserts st.ctx i.fecpkt → ∀ pkt, i.rtppkt = some pkt → Awaited (getFecpkt st.ctx i.fecpkt).ctx (rtpSeq pkt) →
    Takes H (getFecpkt st.ctx i.fecpkt).ctx.fecDecLen pkt
  codec : Loose H ∨ (Proceeds st.ctx i.fecpkt → Due (getFecpkt st.ctx i.fecpkt).ctx →
    (checkMiss (getFecpkt st.ctx i.fecpkt).ctx).2 = true → CodecFits { st with ctx := (getFecpkt st.ctx i.fecpkt).ctx })

theorem Loose.admits (h : Loose H) (st : State) (i : Input) : Admits H st i := ⟨fun _ _ _ _ => Or.inl h, Or.inl h⟩

/-- `s->check_count++`. -/
def counted (s : RTPFECContext) : RTPFECContext := { s with checkCount := s.checkCount + 1 }

theorem counted_quiet (h : Inv H s) : Quiet H s [] (counted s) :=
  Quiet.of_same h rfl rfl h.haveFec (fun _ hg => hg)

theorem rtpRound_quiet {rtppkt : Option Packet} (h : Inv H s) (hd : s.groupDone = none) (hfec : s.haveFec = true)
    (a : Around) (htakes : ∀ pkt, rtppkt = some pkt → Awaited s (rtpSeq pkt) → Takes H s.fecDecLen pkt) :
    Quiet H s (rtpRound a s rtppkt).2 (rtpRound a s rtppkt).1 := by
  unfold rtpRound
  cases rtppkt with
  | none => exact Quiet.refl h
  | some pkt =>
    have hcount := counted_quiet h
    have hin := groupRtppktIn_quiet hcount.inv hd hfec a (htakes pkt rfl)
    exact (hcount.trans id hin).cons (by rw [hd]; rfl) rfl

theorem noFecRound_quiet (h : Inv H s) (rtppkt : Option Packet) : Quiet H s [] (noFecRound s rtppkt) := by
  unfold noFecRound
  cases rtppkt with
  | none => exact Quiet.refl h
  | some pkt =>
    dsimp only
    split
    · exact Quiet.of_same h rfl rfl h.haveFec (fun _ hg => hg)
    · exact Quiet.refl h

/-- The rounds with `GroupDone` empty. -/
theorem fecpktRound_quiet (h : Inv H st.ctx) (hf : Fetches st.ctx) (ha : Admits H st i) :
    Quiet H st.ctx (fecpktRound st i).2 (fecpktRound st i).1.ctx := by
  obtain ⟨hq, hd', hfec⟩ := getFecpkt_quiet h hf.1 hf.checkMiss_none i.fecpkt
  unfold fecpktRound
  dsimp only
  split
  · exact hq
  · rename_i hret
    refine hq.trans hfec ?_
    unfold packetRound
    split
    · rename_i hon
      have hproceeds : Proceeds st.ctx i.fecpkt := ⟨hf, not_not.mp hret, hon⟩
      split
      · rename_i hdue
        exact checkMissRound_quiet { st with ctx := (getFecpkt st.ctx i.fecpkt).ctx } hq.inv i.around i.heap
          (ha.codec.imp_right (fun hall => hall hproceeds hdue))
      · rename_i hdue
        exact rtpRound_quiet hq.inv hd' hon i.around (ha.rtp ⟨hproceeds, hdue⟩)
    · exact noFecRound_quiet hq.inv i.rtppkt

/-- The group after the parser was done with a slot. -/
def passSlot (g : RTPFECPktGroup) (behind : Rows) (parseKeeps : Bool) : RTPFECPktGroup :=
  let g' := if (g.payload behind g.pktReadPos).isSome ∧ parseKeeps then g.forget g.pktReadPos else g
  { g' with pktReadPos := g'.pktReadPos + 1 }

theorem passSlot_fields (g : RTPFECPktGroup) (behind : Rows) (parseKeeps : Bool) :
    (passSlot g behind parseKeeps).rtpSeqStart = g.rtpSeqStart ∧
      (passSlot g behind parseKeeps).rtpSeqEnd = g.rtpSeqEnd ∧
      (passSlot g behind parseKeeps).pktReadPos = g.pktReadPos + 1 ∧
      (passSlot g behind parseKeeps).lostMap = g.lostMap := by
  unfold passSlot
  split <;> exact ⟨rfl, rfl, rfl, rfl⟩

theorem passSlot_payload (g : RTPFECPktGroup) (rows : Rows) (parseKeeps : Bool) {behind : Rows} {pl : Packet}
    (h : (passSlot g rows parseKeeps).payload behind slot = some pl) : g.payload behind slot = some pl := by
  unfold passSlot at h
  split at h
  · by_cases hs : slot = g.pktReadPos
    · subst hs
      simp [RTPFECPktGroup.payload, RTPFECPktGroup.forget] at h
    · simpa [RTPFECPktGroup.payload, RTPFECPktGroup.forget, Function.update_of_ne hs] using h
  · exact h

theorem GroupOk.passSlot {g : RTPFECPktGroup} (h : GroupOk H K g) (hpos : g.pktReadPos < K) (rows : Rows)
    (parseKeeps : Bool) : GroupOk H K (passSlot g rows parseKeeps) := by
  obtain ⟨hstart, hend, hread, hmap⟩ := passSlot_fields g rows parseKeeps
  refine ⟨by rw [hstart]; exact h.nonneg, by rw [hstart]; exact h.lt, by rw [hend, hstart]; exact h.seqEnd,
    by rw [hread]; exact hpos, ?_⟩
  intro slot hslot hgot behind pl hpl
  rw [hstart]
  rw [hmap] at hgot
  exact h.payload slot hslot hgot behind pl (passSlot_payload g rows parseKeeps hpl)

/-- **What a round can do**: be quiet, release `GroupDone`, or pass one slot of it. -/
theorem round_cases (h : Inv H st.ctx) (ha : Admits H st i) :
    Quiet H st.ctx (round st i).2 (round st i).1.ctx ∨
    (∃ g, st.ctx.groupDone = some g ∧ g.pktReadPos = st.ctx.rtpPktNum ∧
      round st i = ({ st with ctx := { st.ctx with groupDone := none } }, [])) ∨
    (∃ g, st.ctx.groupDone = some g ∧ g.pktReadPos < st.ctx.rtpPktNum ∧
      round st i = ({ st with ctx := { st.ctx with groupDone := some (passSlot g i.around.rtp i.parseKeeps) } },
        [.visit g.rtpSeqStart g.pktReadPos (decide (g.lostMap g.pktReadPos = 1))
          (g.payload i.around.rtp g.pktReadPos)])) := by
  unfold round
  cases hd : st.ctx.groupDone with
  | none =>
    left
    dsimp only
    split
    · exact checkmissToDone_quiet h
    · rename_i hno
      exact fecpktRound_quiet h ⟨hd, hno⟩ ha
  | some g =>
    right
    have hgok : GroupOk H st.ctx.rtpPktNum g := by
      apply h.groups.ok g
      unfold RTPFECContext.groups
      rw [hd]
      simp
    have hle := hgok.readPos
    dsimp only
    unfold doneRound
    by_cases hpos : g.pktReadPos ≥ st.ctx.rtpPktNum
    · left
      rw [if_pos hpos]
      exact ⟨g, rfl, by omega, rfl⟩
    · right
      rw [if_neg hpos]
      refine ⟨g, rfl, by omega, ?_⟩
      unfold passSlot
      dsimp only
      split <;> rfl

theorem groups_done {g : RTPFECPktGroup} (h : s.groupDone = some g) :
    s.groups = g :: (s.groupCheckMiss.toList ++ s.groupDownLoading.toList) := by
  unfold RTPFECContext.groups
  rw [h]
  rfl

/-- **A round keeps the invariant and shows only allowed effects.** -/
theorem round_ok (h : Inv H st.ctx) (ha : Admits H st i) :
    Inv H (round st i).1.ctx ∧ ∀ e ∈ (round st i).2, EventOk H e := by
  rcases round_cases h ha with hq | ⟨g, hd, _, heq⟩ | ⟨g, hd, hpos, heq⟩
  · exact ⟨hq.inv, hq.events⟩
  · rw [heq]
    refine ⟨⟨h.haveFec, h.pktNum, ?_, h.slots⟩, fun e he => absurd he List.not_mem_nil⟩
    have hgs := h.groups
    rw [groups_done hd] at hgs
    exact ⟨fun x hx => hgs.ok x (List.mem_cons_of_mem _ hx), hgs.chain.tail⟩
  · rw [heq]
    have hgs := h.groups
    rw [groups_done hd] at hgs
    have hgok := hgs.ok g List.mem_cons_self
    obtain ⟨hstart, hend, _, _⟩ := passSlot_fields g i.around.rtp i.parseKeeps
    refine ⟨⟨h.haveFec, h.pktNum, ?_, h.slots⟩, ?_⟩
    · rw [groups_done (s := { st.ctx with groupDone := some (passSlot g i.around.rtp i.parseKeeps) }) rfl]
      constructor
      · intro x hx
        rcases List.mem_cons.mp hx with rfl | hx
        · exact hgok.passSlot hpos i.around.rtp i.parseKeeps
        · exact hgs.ok x (List.mem_cons_of_mem _ hx)
      · have hchain := hgs.chain
        rw [List.isChain_cons] at hchain ⊢
        refine ⟨fun y hy => ?_, hchain.2⟩
        obtain ⟨h1, h2⟩ := hchain.1 y hy
        exact ⟨by rw [h1, hend], h2⟩
    · intro e he
      obtain rfl := List.mem_singleton.mp he
      intro hgot pl hpl
      exact hgok.payload _ hpos (of_decide_eq_true hgot) i.around.rtp pl hpl

/-! ## Runs -/

theorem Inv.mono (hH : ∀ q pl, H q pl → H' q pl) (h : Inv H s) : Inv H' s :=
  ⟨h.haveFec, h.pktNum, h.groups.mono hH, h.slots⟩

theorem EventOk.mono (hH : ∀ q pl, H q pl → H' q pl) (h : EventOk H e) : EventOk H' e := by
  cases e with
  | visit start slot received payload => exact fun hgot pl hpl => hH _ _ (h hgot pl hpl)
  | _ => exact h

theorem init_inv (H : Holds) : Inv H init.ctx := by
  refine ⟨by decide, by decide, ⟨fun g hg => absurd hg List.not_mem_nil, List.isChain_nil⟩, ?_⟩
  rintro g (hg | hg) <;> cases hg

/-- A step is a round. -/
theorem step_eq (h : step st i = some (st', es)) :
    round st i = (st', es) := by
  unfold step at h
  split at h
  · cases h
  · exact Option.some.inj h

/-- One step. -/
theorem step_ok (h : Inv H st.ctx) (ha : Admits H st i)
    (hstep : step st i = some (st', es)) : Inv H st'.ctx ∧ ∀ e ∈ es, EventOk H e := by
  have hok := round_ok h ha
  rwa [step_eq hstep] at hok

/-- **The invariant along a run**, and its effects: what may be held grows with the inputs, and every step takes in what
    may be held behind it. -/
theorem run_inv {C : State → Input → Prop} {F : List Input → Holds}
    (hmono : ∀ is i q pl, F is q pl → F (is ++ [i]) q pl)
    (hadmits : ∀ is st i, C st i → Admits (F (is ++ [i])) st i)
    (h : Run step C init is st es) : Inv (F is) st.ctx ∧ ∀ e ∈ es, EventOk (F is) e := by
  refine h.inv_effects (fun is st es => Inv (F is) st.ctx ∧ ∀ e ∈ es, EventOk (F is) e)
    ⟨init_inv _, fun e he => absurd he List.not_mem_nil⟩ ?_
  intro is st es i t fs hinv hC hnext
  obtain ⟨hinv', hev⟩ := step_ok (hinv.1.mono (hmono is i)) (hadmits is st i hC) hnext
  refine ⟨hinv', fun e he => ?_⟩
  rcases List.mem_append.mp he with he | he
  · exact (hinv.2 e he).mono (hmono is i)
  · exact hev e he

/-- Nothing is said about what a slot holds. -/
def anything : Holds := fun _ _ => True

theorem loose_anything : Loose anything := fun _ _ => trivial

/-- **The invariant holds in every state a run reaches.** -/
theorem readRun_inv (h : ReadRun is st es) : Inv anything st.ctx :=
  (run_inv (F := fun _ => anything) (fun _ _ _ _ hq => hq) (fun _ st i _ => loose_anything.admits st i) h).1

/-- **Every effect of a run is allowed.** -/
theorem readRun_events (h : ReadRun is st es) :
    ∀ e ∈ es, EventOk anything e :=
  (run_inv (F := fun _ => anything) (fun _ _ _ _ hq => hq) (fun _ st i _ => loose_anything.admits st i) h).2

/-- What a round writes fits in its slots: the RTP packet, if it is awaited, has at most `fec_dec_len` bytes, and a
    codec that decodes was initialised with at most that length. -/
structure Fitting (st : State) (i : Input) : Prop where
  rtp : Inserts st.ctx i.fecpkt → ∀ pkt ∈ i.rtppkt, Awaited (getFecpkt st.ctx i.fecpkt).ctx (rtpSeq pkt) →
    pkt.dataSize ≤ (getFecpkt st.ctx i.fecpkt).ctx.fecDecLen
  codec : Proceeds st.ctx i.fecpkt → Due (getFecpkt st.ctx i.fecpkt).ctx →
    (checkMiss (getFecpkt st.ctx i.fecpkt).ctx).2 = true → CodecFits { st with ctx := (getFecpkt st.ctx i.fecpkt).ctx }

instance (st : State) (i : Input) : Decidable (Fitting st i) :=
  decidable_of_iff (_ ∧ _) ⟨fun h => ⟨h.1, h.2⟩, fun h => ⟨h.rtp, h.codec⟩⟩

/-- The payload is that of an RTP packet delivered so far with this sequence number. -/
def Delivered (is : List Input) : Holds :=
  fun q pl => ∃ i ∈ is, ∃ pkt, i.rtppkt = some pkt ∧ rtpSeq pkt = q ∧ Carries pkt pl

/-- **Received slots hold what was delivered**, along every run in which nothing is written past a slot. -/
theorem fitRun_inv (h : Run step Fitting init is st es) :
    Inv (Delivered is) st.ctx ∧ ∀ e ∈ es, EventOk (Delivered is) e := by
  refine run_inv (F := Delivered) ?_ ?_ h
  · rintro is i q pl ⟨j, hj, hpkt⟩
    exact ⟨j, List.mem_append_left _ hj, hpkt⟩
  · intro is st i hfit
    refine ⟨fun hins pkt hpkt hawaited => Or.inr ⟨hfit.rtp hins pkt hpkt hawaited, ?_⟩, Or.inr hfit.codec⟩
    exact fun pl hcarries => ⟨i, by simp, pkt, hpkt, rfl, hcarries⟩

end HiSTB.Rtpfec
