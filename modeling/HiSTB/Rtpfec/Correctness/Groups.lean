import Mathlib.Data.List.Chain
import HiSTB.Rtpfec.Read

/-!
# `Rtpfec.Correctness.Groups` — the groups of a context as one list

The three owners hold consecutive groups: read in the order `GroupDone`, `GroupCheckMiss`,
`GroupDownLoading` they form a list (`groups`) in which every group starts where the one before ends. Handing
a group on leaves the list as it is, so the two insertion functions can only replace one group of it or
append a fresh one:

* `getIndex_iff` — an index is inside the group exactly for the sequence numbers it covers;
* `groupRtppktIn_ends`, `groupRtppktIn_cases` / `groupFecpktIn_cases` — everything an insertion can do;
* `GroupsOk` — the list invariant, with `GroupsOk.replace` and `GroupsOk.snoc`.
-/

namespace HiSTB.Rtpfec

open Fec Lib

variable {start seq : Int} {K : Nat} {g' : RTPFECPktGroup}

/-- All groups, the oldest first. -/
def RTPFECContext.groups (s : RTPFECContext) : List RTPFECPktGroup :=
  s.groupDone.toList ++ (s.groupCheckMiss.toList ++ s.groupDownLoading.toList)

theorem groups_checkMiss {s : RTPFECContext} {g : RTPFECPktGroup} (h : s.groupCheckMiss = some g) :
    s.groups = s.groupDone.toList ++ g :: s.groupDownLoading.toList := by
  unfold RTPFECContext.groups
  rw [h, Option.toList_some, List.singleton_append]

theorem groups_downLoading {s : RTPFECContext} {g : RTPFECPktGroup} (h : s.groupDownLoading = some g) :
    s.groups = (s.groupDone.toList ++ s.groupCheckMiss.toList) ++ [g] := by
  unfold RTPFECContext.groups
  rw [h, Option.toList_some, List.append_assoc]

/-- Handing `GroupCheckMiss` on does not change the list. -/
theorem groups_checkmissToDone (s : RTPFECContext) : (groupCheckmissToDone s).1.groups = s.groups := by
  unfold groupCheckmissToDone
  by_cases hd : s.groupDone.isSome
  · rw [if_pos hd]
  · rw [if_neg hd]
    rw [Bool.not_eq_true, Option.isSome_eq_false_iff, Option.isNone_iff_eq_none] at hd
    simp only [RTPFECContext.groups, hd, Option.toList_none, List.nil_append]

/-! ## Sequence numbers -/

/-- `seq` is one of the `K` sequence numbers from `start` on. -/
def Covers (start : Int) (K : Nat) (seq : Int) : Prop := (seq - start) % 0x10000 < K
deriving Decidable

/-- The slot of `seq` in a group at `start`. -/
def slotOf (start seq : Int) : Nat := ((seq - start) % 0x10000).toNat

theorem slotOf_lt (h : Covers start K seq) : slotOf start seq < K := by
  unfold Covers at h
  unfold slotOf
  omega

theorem slotOf_eq (start seq : Int) : (slotOf start seq : Int) = (seq - start) % 0x10000 := by
  unfold slotOf
  omega

/-- The start of the group behind `g`. -/
def RTPFECPktGroup.nextStart (g : RTPFECPktGroup) : Int := (g.rtpSeqEnd + 1) % 0x10000

/-- `GroupCheckMiss` covers `seq`. -/
def CheckedFor (s : RTPFECContext) (seq : Int) : Prop :=
  ∃ g ∈ s.groupCheckMiss, Covers g.rtpSeqStart s.rtpPktNum seq
deriving Decidable

/-- `GroupDownLoading` or the group behind it covers `seq`. -/
def LoadedFor (s : RTPFECContext) (seq : Int) : Prop :=
  ∃ g ∈ s.groupDownLoading, Covers g.rtpSeqStart s.rtpPktNum seq ∨ Covers g.nextStart s.rtpPktNum seq
deriving Decidable

/-- A packet with this sequence number is put into a group. -/
def Awaited (s : RTPFECContext) (seq : Int) : Prop := CheckedFor s seq ∨ LoadedFor s seq
deriving Decidable

theorem avRb16_lt (data : Nat → BYTE) (off : Nat) : avRb16 data off < 0x10000 := by
  unfold avRb16
  have h1 := (data off).isLt
  have h2 := (data (off + 1)).isLt
  omega

theorem rtpSeq_range (pkt : Packet) : 0 ≤ rtpSeq pkt ∧ rtpSeq pkt < 0x10000 := by
  refine ⟨?_, avRb16_lt _ _⟩
  unfold rtpSeq avRb16
  omega

theorem nextStart_range (g : RTPFECPktGroup) : 0 ≤ g.nextStart ∧ g.nextStart < 0x10000 := by
  unfold RTPFECPktGroup.nextStart
  omega

/-- **The index is inside the group exactly for the sequence numbers it covers**, and then is their slot. -/
theorem getIndex_iff (hK : K ≤ 255) (hs : 0 ≤ start ∧ start < 0x10000)
    (hq : 0 ≤ seq ∧ seq < 0x10000) :
    (0 ≤ getIndex start ((start + K - 1) % 0x10000) seq 0xFFFF ∧
        getIndex start ((start + K - 1) % 0x10000) seq 0xFFFF < K ↔ Covers start K seq) ∧
      (Covers start K seq → (getIndex start ((start + K - 1) % 0x10000) seq 0xFFFF).toNat = slotOf start seq) := by
  unfold getIndex Covers slotOf
  split
  · split
    · omega
    · split <;> omega
  · split <;> omega

/-! ## The list invariant -/

/-- The payload `pl` is what packet `pkt` carried. -/
def Carries (pkt pl : Packet) : Prop :=
  pl.dataSize = pkt.dataSize ∧ ∀ r < pkt.dataSize, pl.data r = pkt.data r

/-- What a slot marked as received may hand over, by its sequence number. -/
abbrev Holds := Int → Packet → Prop

/-- Nothing is said about the payloads, as is needed once a copy has run past its slot. -/
def Loose (H : Holds) : Prop := ∀ q pl, H q pl

/-- A well-formed group of `K` RTP packets: its sequence numbers are `K` consecutive ones, and the slots marked as
    received hold what they may, whatever lies behind them. -/
structure GroupOk (H : Holds) (K : Nat) (g : RTPFECPktGroup) : Prop where
  nonneg : 0 ≤ g.rtpSeqStart
  lt : g.rtpSeqStart < 0x10000
  seqEnd : g.rtpSeqEnd = (g.rtpSeqStart + K - 1) % 0x10000
  readPos : g.pktReadPos ≤ K
  payload : ∀ slot < K, g.lostMap slot = 1 → ∀ behind pl, g.payload behind slot = some pl →
    H ((g.rtpSeqStart + slot) % 0x10000) pl

/-- `b` is the group after `a`, and not yet read from. -/
def Follows (a b : RTPFECPktGroup) : Prop :=
  b.rtpSeqStart = (a.rtpSeqEnd + 1) % 0x10000 ∧ b.pktReadPos = 0

/-- Well-formed groups, one after the other. -/
structure GroupsOk (H : Holds) (K : Nat) (gs : List RTPFECPktGroup) : Prop where
  ok : ∀ g ∈ gs, GroupOk H K g
  chain : gs.IsChain Follows

theorem GroupOk.mono {H H' : Holds} (hH : ∀ q pl, H q pl → H' q pl) {g : RTPFECPktGroup}
    (h : GroupOk H K g) : GroupOk H' K g :=
  ⟨h.nonneg, h.lt, h.seqEnd, h.readPos, fun slot hslot hgot behind pl hpl =>
    hH _ _ (h.payload slot hslot hgot behind pl hpl)⟩

theorem GroupsOk.mono {H H' : Holds} (hH : ∀ q pl, H q pl → H' q pl) {gs : List RTPFECPktGroup}
    (h : GroupsOk H K gs) : GroupsOk H' K gs :=
  ⟨fun g hg => (h.ok g hg).mono hH, h.chain⟩

/-- A group may be replaced by one at the same place. -/
theorem GroupsOk.replace {H : Holds} {l₁ l₂ : List RTPFECPktGroup}
    {g : RTPFECPktGroup} (h : GroupsOk H K (l₁ ++ g :: l₂)) (hg : GroupOk H K g')
    (hstart : g'.rtpSeqStart = g.rtpSeqStart) (hend : g'.rtpSeqEnd = g.rtpSeqEnd)
    (hpos : g'.pktReadPos = g.pktReadPos) : GroupsOk H K (l₁ ++ g' :: l₂) := by
  constructor
  · intro x hx
    rw [List.mem_append, List.mem_cons] at hx
    rcases hx with hx | rfl | hx
    · exact h.ok x (List.mem_append_left _ hx)
    · exact hg
    · exact h.ok x (List.mem_append_right _ (List.mem_cons_of_mem _ hx))
  · have hchain := h.chain
    rw [List.isChain_append, List.isChain_cons] at hchain ⊢
    obtain ⟨hl, ⟨hnext, hr⟩, hprev⟩ := hchain
    refine ⟨hl, ⟨?_, hr⟩, ?_⟩
    · intro y hy
      obtain ⟨h1, h2⟩ := hnext y hy
      exact ⟨by rw [h1, hend], h2⟩
    · intro x hx y hy
      obtain rfl : g' = y := by simpa using hy
      obtain ⟨h1, h2⟩ := hprev x hx g (by simp)
      exact ⟨by rw [hstart, h1], by rw [hpos, h2]⟩

/-- A group that follows the last one may be appended. -/
theorem GroupsOk.snoc {H : Holds} {l : List RTPFECPktGroup} {g : RTPFECPktGroup}
    (h : GroupsOk H K (l ++ [g])) (hg : GroupOk H K g') (hf : Follows g g') :
    GroupsOk H K (l ++ [g, g']) := by
  constructor
  · intro x hx
    rw [List.mem_append, List.mem_cons, List.mem_singleton] at hx
    rcases hx with hx | rfl | rfl
    · exact h.ok x (List.mem_append_left _ hx)
    · exact h.ok x (List.mem_append_right _ (List.mem_singleton_self _))
    · exact hg
  · have hchain := h.chain
    rw [List.isChain_append] at hchain ⊢
    obtain ⟨hl, _, hprev⟩ := hchain
    exact ⟨hl, List.isChain_pair.mpr hf, hprev⟩

/-! ## Changes to one group -/

/-- The packet may be taken into a slot of `len` bytes: it fits, and the slot may hold what it carries. -/
def Takes (H : Holds) (len : Nat) (pkt : Packet) : Prop :=
  Loose H ∨ (pkt.dataSize ≤ len ∧ ∀ pl, Carries pkt pl → H (rtpSeq pkt) pl)

/-- A group stays well formed when a slot receives the packet of its sequence number. -/
theorem GroupOk.putRtp {H : Holds} {g : RTPFECPktGroup} (h : GroupOk H K g) (index : Nat) {pkt : Packet}
    (htakes : Takes H g.slotLen pkt) (hseq : rtpSeq pkt = (g.rtpSeqStart + index) % 0x10000) :
    GroupOk H K (g.putRtp index pkt) := by
  refine ⟨h.nonneg, h.lt, h.seqEnd, h.readPos, ?_⟩
  intro slot hslot hgot behind pl hpl
  rcases htakes with hloose | ⟨hfits, hcarries⟩
  · exact hloose _ _
  by_cases hi : slot = index
  · -- the slot just written holds the new packet
    subst hi
    unfold RTPFECPktGroup.payload at hpl
    simp only [RTPFECPktGroup.putRtp, Function.update_self] at hpl
    split at hpl
    · rw [Option.map_map, Option.map_eq_some_iff] at hpl
      obtain ⟨row, _, rfl⟩ := hpl
      show H ((g.rtpSeqStart + slot) % 0x10000) _
      rw [← hseq]
      refine hcarries _ ⟨rfl, fun r hr => ?_⟩
      simp [memcpy, hr, hr.trans_le hfits]
    · cases hpl
  · refine h.payload slot hslot ?_ behind pl ?_
    · simpa only [RTPFECPktGroup.putRtp, Function.update_of_ne hi] using hgot
    · simpa only [RTPFECPktGroup.payload, RTPFECPktGroup.putRtp, Function.update_of_ne hi] using hpl

/-- A parity packet does not touch the RTP slots. -/
theorem GroupOk.putFec {H : Holds} {s : RTPFECContext} {g : RTPFECPktGroup} (h : GroupOk H s.rtpPktNum g)
    (fecSeq : Nat) (pkt : Packet) : GroupOk H s.rtpPktNum (g.putFec s fecSeq pkt) := by
  refine ⟨h.nonneg, h.lt, h.seqEnd, h.readPos, ?_⟩
  intro slot hslot hgot behind pl hpl
  have hne : slot ≠ s.rtpPktNum + fecSeq := by omega
  refine h.payload slot hslot ?_ behind pl hpl
  simpa only [RTPFECPktGroup.putFec, Function.update_of_ne hne] using hgot

theorem GroupOk.new (H : Holds) (s : RTPFECContext) (h0 : 0 ≤ start) (h1 : start < 0x10000) :
    GroupOk H s.rtpPktNum (newGroup s start) := by
  refine ⟨h0, h1, rfl, Nat.zero_le _, ?_⟩
  intro slot _ hgot
  simp [newGroup] at hgot

/-- What runs past a slot changes bytes of slots only. -/
theorem GroupOk.spill {H : Holds} (hloose : Loose H) {g : RTPFECPktGroup} (h : GroupOk H K g) (o : Owner)
    (past : Nat → Option Cell) (src : Nat → BYTE) (len n : Nat) : GroupOk H K (g.spill o past src len n) :=
  ⟨h.nonneg, h.lt, h.seqEnd, h.readPos, fun _ _ _ _ _ _ => hloose _ _⟩

/-- A copy that ends in its slot changes nothing else. -/
theorem spill_of_le {s : RTPFECContext} {past : Nat → Option Cell} {src : Nat → BYTE} {len n : Nat} (h : n ≤ len) :
    s.spill past src len n = s := by
  have hg : ∀ o : Owner, (fun g : RTPFECPktGroup => g.spill o past src len n) = id := by
    intro o
    funext g
    simp [RTPFECPktGroup.spill, Nat.sub_eq_zero_of_le h]
  simp [RTPFECContext.spill, hg]

/-- The memory of the slots stays. -/
theorem isSome_pokeSlots (o : Owner) (fec : Bool) (c : Option Cell) (b : BYTE) (a : Nat → Option (Nat → BYTE))
    (i : Nat) : (pokeSlots o fec c b a i).isSome = (a i).isSome := by
  unfold pokeSlots
  split
  · rfl
  · rename_i c
    split
    · by_cases hi : i = c.slot
      · subst hi
        simp
      · rw [Function.update_of_ne hi]
    · rfl

/-! ## Everything an insertion can do -/

/-- `GroupCheckMiss` becomes `GroupDone` and `GroupDownLoading` becomes `GroupCheckMiss`. -/
theorem flush_downloadingToCheckmiss {s : RTPFECContext} (hd : s.groupDone = none) :
    groupDownloadingToCheckmiss (flushCheckMiss s)
      = ({ s with groupDone := s.groupCheckMiss, groupCheckMiss := s.groupDownLoading
                  groupDownLoading := none, checkCount := 0 }, 0) := by
  unfold flushCheckMiss groupCheckmissToDone groupDownloadingToCheckmiss
  cases hc : s.groupCheckMiss with
  | none => simp [hc, hd]
  | some g => simp [hd]

/-- The context after an RTP packet opened the next group. -/
def openNext (s : RTPFECContext) (dl : RTPFECPktGroup) (index : Nat) (pkt : Packet) : RTPFECContext :=
  { s with
    groupDone := s.groupCheckMiss
    groupCheckMiss := some dl
    groupDownLoading := some ((newGroup s ((dl.rtpSeqEnd + 1) % 0x10000)).putRtp index pkt)
    checkCount := 0 }

/-- The context after a discontinuity. -/
def discontinue (s : RTPFECContext) (dl : RTPFECPktGroup) : RTPFECContext :=
  { s with
    groupDone := s.groupCheckMiss, groupCheckMiss := some dl, groupDownLoading := none
    checkCount := 0, haveFec := false }

theorem rtppktInNext_eq {s : RTPFECContext} {dl : RTPFECPktGroup} (hd : s.groupDone = none)
    (hdl : s.groupDownLoading = some dl) (a : Around) (index : Nat) (pkt : Packet) (pktseq : Int) :
    rtppktInNext a s index pkt pktseq
      = ⟨(openNext s dl index pkt).spill (a.past index) pkt.data s.fecDecLen pkt.dataSize, 0,
          [.putRtp dl.nextStart index pktseq s.groupCheckMiss.isSome]⟩ := by
  unfold rtppktInNext
  rw [flush_downloadingToCheckmiss hd]
  simp only [createGroupDownloading, afterCheckMiss, hdl, putRtpDownLoading, openNext, newGroup, ne_eq,
    not_true_eq_false, if_false, Option.isSome_none, Bool.false_eq_true, RTPFECPktGroup.nextStart]

variable {H : Holds} {s : RTPFECContext} {g dl : RTPFECPktGroup}

/-- A well-formed group takes the packets it covers. -/
theorem GroupOk.index (h : GroupOk H s.rtpPktNum g) (hK : s.rtpPktNum ≤ 255) (pkt : Packet) :
    (0 ≤ getIndex g.rtpSeqStart g.rtpSeqEnd (rtpSeq pkt) 0xFFFF ∧
        getIndex g.rtpSeqStart g.rtpSeqEnd (rtpSeq pkt) 0xFFFF < s.rtpPktNum ↔
          Covers g.rtpSeqStart s.rtpPktNum (rtpSeq pkt)) ∧
      (Covers g.rtpSeqStart s.rtpPktNum (rtpSeq pkt) →
        (getIndex g.rtpSeqStart g.rtpSeqEnd (rtpSeq pkt) 0xFFFF).toNat = slotOf g.rtpSeqStart (rtpSeq pkt)) := by
  rw [h.seqEnd]
  exact getIndex_iff hK ⟨h.nonneg, h.lt⟩ (rtpSeq_range pkt)

/-- And so does the group behind it. -/
theorem GroupOk.nextIndex (g : RTPFECPktGroup) (hK : s.rtpPktNum ≤ 255) (pkt : Packet) :
    (0 ≤ getIndex g.nextStart ((g.rtpSeqEnd + s.rtpPktNum) % 0x10000) (rtpSeq pkt) 0xFFFF ∧
        getIndex g.nextStart ((g.rtpSeqEnd + s.rtpPktNum) % 0x10000) (rtpSeq pkt) 0xFFFF < s.rtpPktNum ↔
          Covers g.nextStart s.rtpPktNum (rtpSeq pkt)) ∧
      (Covers g.nextStart s.rtpPktNum (rtpSeq pkt) →
        (getIndex g.nextStart ((g.rtpSeqEnd + s.rtpPktNum) % 0x10000) (rtpSeq pkt) 0xFFFF).toNat
          = slotOf g.nextStart (rtpSeq pkt)) := by
  have hend : (g.rtpSeqEnd + s.rtpPktNum) % 0x10000 = (g.nextStart + s.rtpPktNum - 1) % 0x10000 := by
    unfold RTPFECPktGroup.nextStart
    omega
  rw [hend]
  exact getIndex_iff hK (nextStart_range g) (rtpSeq_range pkt)

/-- The context after a discontinuity. -/
def givenUp (s : RTPFECContext) : RTPFECContext :=
  { (groupDownloadingToCheckmiss (flushCheckMiss s)).1 with haveFec := false }

/-- **How an RTP packet goes**: into `GroupCheckMiss`, into the group behind `GroupDownLoading`, into
    `GroupDownLoading`, or nowhere, by the first of the ranges its sequence number is in. -/
theorem groupRtppktIn_ends (hK : s.rtpPktNum ≤ 255) (hok : GroupsOk H s.rtpPktNum s.groups)
    (hdl : s.groupDownLoading = some dl) (a : Around) (pkt : Packet) :
    (∃ g, s.groupCheckMiss = some g ∧ Covers g.rtpSeqStart s.rtpPktNum (rtpSeq pkt) ∧ groupRtppktIn a s pkt (rtpSeq pkt)
        = putRtpCheckMiss a s g (slotOf g.rtpSeqStart (rtpSeq pkt)) pkt (rtpSeq pkt)) ∨
    (Covers dl.nextStart s.rtpPktNum (rtpSeq pkt) ∧ groupRtppktIn a s pkt (rtpSeq pkt)
        = rtppktInNext a s (slotOf dl.nextStart (rtpSeq pkt)) pkt (rtpSeq pkt)) ∨
    (Covers dl.rtpSeqStart s.rtpPktNum (rtpSeq pkt) ∧ groupRtppktIn a s pkt (rtpSeq pkt)
        = putRtpDownLoading a s (slotOf dl.rtpSeqStart (rtpSeq pkt)) pkt (rtpSeq pkt)) ∨
    (¬ Awaited s (rtpSeq pkt) ∧ groupRtppktIn a s pkt (rtpSeq pkt) = ⟨givenUp s, 0, []⟩) := by
  have hdlok : GroupOk H s.rtpPktNum dl := hok.ok dl (by rw [groups_downLoading hdl]; simp)
  obtain ⟨hin, hslot⟩ := hdlok.index hK pkt
  obtain ⟨hnext, hslot'⟩ := GroupOk.nextIndex (s := s) dl hK pkt
  -- the part after `GroupCheckMiss` did not take the packet
  have hrest : (Covers dl.nextStart s.rtpPktNum (rtpSeq pkt) ∧ rtppktInRest a s pkt (rtpSeq pkt)
        = rtppktInNext a s (slotOf dl.nextStart (rtpSeq pkt)) pkt (rtpSeq pkt)) ∨
      (Covers dl.rtpSeqStart s.rtpPktNum (rtpSeq pkt) ∧ rtppktInRest a s pkt (rtpSeq pkt)
          = putRtpDownLoading a s (slotOf dl.rtpSeqStart (rtpSeq pkt)) pkt (rtpSeq pkt)) ∨
      (¬ LoadedFor s (rtpSeq pkt) ∧ rtppktInRest a s pkt (rtpSeq pkt) = ⟨givenUp s, 0, []⟩) := by
    unfold rtppktInRest
    rw [hdl]
    dsimp only
    rw [← RTPFECPktGroup.nextStart]
    by_cases hn : Covers dl.nextStart s.rtpPktNum (rtpSeq pkt)
    · left
      rw [if_pos (hnext.mpr hn), hslot' hn]
      exact ⟨hn, rfl⟩
    · right
      rw [if_neg (hnext.not.mpr hn)]
      by_cases hi : Covers dl.rtpSeqStart s.rtpPktNum (rtpSeq pkt)
      · left
        rw [if_pos (hin.mpr hi), hslot hi]
        exact ⟨hi, rfl⟩
      · right
        rw [if_neg (hin.not.mpr hi)]
        refine ⟨?_, rfl⟩
        rintro ⟨g, hg, hcov⟩
        obtain rfl : dl = g := Option.some.inj (hdl.symm.trans hg)
        exact hcov.elim hi hn
  unfold groupRtppktIn Awaited
  cases hcm : s.groupCheckMiss with
  | none =>
    right
    refine hrest.imp_right (Or.imp_right ?_)
    rintro ⟨hno, heq⟩
    refine ⟨?_, heq⟩
    rintro (⟨g, hg, _⟩ | hload)
    · rw [hcm] at hg
      cases hg
    · exact hno hload
  | some g =>
    have hgok : GroupOk H s.rtpPktNum g := hok.ok g (by rw [groups_checkMiss hcm]; simp)
    obtain ⟨hin', hslot''⟩ := hgok.index hK pkt
    dsimp only
    by_cases hc : Covers g.rtpSeqStart s.rtpPktNum (rtpSeq pkt)
    · left
      rw [if_pos (hin'.mpr hc), hslot'' hc]
      exact ⟨g, rfl, hc, rfl⟩
    · right
      rw [if_neg (hin'.not.mpr hc)]
      refine hrest.imp_right (Or.imp_right ?_)
      rintro ⟨hno, heq⟩
      refine ⟨?_, heq⟩
      rintro (⟨g', hg', hcov⟩ | hload)
      · obtain rfl : g = g' := Option.some.inj (hcm.symm.trans hg')
        exact hc hcov
      · exact hno hload

/-- **What `_rtpfec_group_rtppkt_in` does** while `GroupDone` is empty: fill a slot of one of the two open groups, open
    the next group and fill a slot of it, or give up the groups at a discontinuity. -/
theorem groupRtppktIn_cases (hK : s.rtpPktNum ≤ 255) (hok : GroupsOk H s.rtpPktNum s.groups) (hd : s.groupDone = none)
    (hdl : s.groupDownLoading = some dl) (a : Around) (pkt : Packet) :
    (∃ g, s.groupCheckMiss = some g ∧ Covers g.rtpSeqStart s.rtpPktNum (rtpSeq pkt) ∧
      groupRtppktIn a s pkt (rtpSeq pkt)
        = ⟨RTPFECContext.spill { s with groupCheckMiss := some (g.putRtp (slotOf g.rtpSeqStart (rtpSeq pkt)) pkt) }
            (a.past (slotOf g.rtpSeqStart (rtpSeq pkt))) pkt.data g.slotLen pkt.dataSize, 0,
            [.putRtp g.rtpSeqStart (slotOf g.rtpSeqStart (rtpSeq pkt)) (rtpSeq pkt) false]⟩) ∨
    (Covers dl.nextStart s.rtpPktNum (rtpSeq pkt) ∧ groupRtppktIn a s pkt (rtpSeq pkt)
        = ⟨(openNext s dl (slotOf dl.nextStart (rtpSeq pkt)) pkt).spill (a.past (slotOf dl.nextStart (rtpSeq pkt)))
            pkt.data s.fecDecLen pkt.dataSize, 0,
            [.putRtp dl.nextStart (slotOf dl.nextStart (rtpSeq pkt)) (rtpSeq pkt) s.groupCheckMiss.isSome]⟩) ∨
    (Covers dl.rtpSeqStart s.rtpPktNum (rtpSeq pkt) ∧ groupRtppktIn a s pkt (rtpSeq pkt)
        = ⟨RTPFECContext.spill { s with groupDownLoading := some (dl.putRtp (slotOf dl.rtpSeqStart (rtpSeq pkt)) pkt) }
            (a.past (slotOf dl.rtpSeqStart (rtpSeq pkt))) pkt.data dl.slotLen pkt.dataSize, 0,
            [.putRtp dl.rtpSeqStart (slotOf dl.rtpSeqStart (rtpSeq pkt)) (rtpSeq pkt) false]⟩) ∨
    (¬ Awaited s (rtpSeq pkt) ∧ groupRtppktIn a s pkt (rtpSeq pkt) = ⟨discontinue s dl, 0, []⟩) := by
  have hdone : s.groupDone.isSome = false := by rw [hd]; rfl
  rcases groupRtppktIn_ends hK hok hdl a pkt with ⟨g, hg, hcov, heq⟩ | ⟨hcov, heq⟩ | ⟨hcov, heq⟩ | ⟨hno, heq⟩
  · refine Or.inl ⟨g, hg, hcov, ?_⟩
    rw [heq, putRtpCheckMiss, hdone]
  · refine Or.inr (Or.inl ⟨hcov, ?_⟩)
    rw [heq, rtppktInNext_eq hd hdl]
  · refine Or.inr (Or.inr (Or.inl ⟨hcov, ?_⟩))
    rw [heq]
    unfold putRtpDownLoading
    rw [hdl, hdone]
  · refine Or.inr (Or.inr (Or.inr ⟨hno, ?_⟩))
    rw [heq, givenUp, flush_downloadingToCheckmiss hd, hdl]
    rfl

/-- The context after a parity packet opened the next group. -/
def openNextFec (s : RTPFECContext) (dl : RTPFECPktGroup) (fecSeq : Nat) (pkt : Packet) : RTPFECContext :=
  { s with
    groupCheckMiss := some dl
    groupDownLoading := some ((newGroup s ((dl.rtpSeqEnd + 1) % 0x10000)).putFec s fecSeq pkt)
    checkCount := 0 }

/-- **What `_rtpfec_group_fecpkt_in` does**: fill a parity slot of one of the two open groups, open the next
    group and fill a parity slot of it, or nothing. The second case covers both the group it belongs to and,
    with `GroupCheckMiss` occupied, a packet of the next group. -/
theorem groupFecpktIn_cases (pkt : Packet) (hdl : s.groupDownLoading = some dl) (pktseq : Int) (fecSeq : Nat) :
    (∃ g, s.groupCheckMiss = some g ∧ pktseq = g.rtpSeqStart ∧ groupFecpktIn s pkt pktseq fecSeq
        = ⟨{ s with groupCheckMiss := some (g.putFec s fecSeq pkt) }, 0,
            [.putFec g.rtpSeqStart pktseq fecSeq s.groupDone.isSome]⟩) ∨
    ((∀ g, s.groupCheckMiss = some g → pktseq ≠ g.rtpSeqStart) ∧ (pktseq = dl.rtpSeqStart ∨
        (s.groupCheckMiss.isSome ∧ pktseq = (dl.rtpSeqStart + s.rtpPktNum) % 0x10000)) ∧
      groupFecpktIn s pkt pktseq fecSeq
        = ⟨{ s with groupDownLoading := some (dl.putFec s fecSeq pkt) }, 0,
            [.putFec dl.rtpSeqStart pktseq fecSeq s.groupDone.isSome]⟩) ∨
    (s.groupCheckMiss = none ∧ pktseq = (dl.rtpSeqStart + s.rtpPktNum) % 0x10000 ∧ groupFecpktIn s pkt pktseq fecSeq
        = ⟨openNextFec s dl fecSeq pkt, 0, [.putFec ((dl.rtpSeqEnd + 1) % 0x10000) pktseq fecSeq s.groupDone.isSome]⟩) ∨
    (pktseq ≠ (dl.rtpSeqStart + s.rtpPktNum) % 0x10000 ∧ groupFecpktIn s pkt pktseq fecSeq = ⟨s, 0, []⟩) := by
  unfold groupFecpktIn
  cases hcm : s.groupCheckMiss with
  | none =>
    right
    unfold fecpktInRest
    rw [hdl]
    dsimp only
    by_cases hin : pktseq = dl.rtpSeqStart
    · left
      rw [if_pos hin]
      refine ⟨fun g hg => absurd hg (by simp), Or.inl hin, ?_⟩
      simp [putFecDownLoading, hdl, hcm]
    · rw [if_neg hin]
      right
      by_cases hnext : pktseq = (dl.rtpSeqStart + s.rtpPktNum) % 0x10000
      · left
        rw [if_pos hnext]
        refine ⟨rfl, hnext, ?_⟩
        simp [groupDownloadingToCheckmiss, createGroupDownloading, afterCheckMiss, hdl, hcm,
          putFecDownLoading, openNextFec, newGroup, RTPFECPktGroup.putFec]
      · right
        rw [if_neg hnext]
        exact ⟨hnext, rfl⟩
  | some g =>
    dsimp only
    by_cases hg : pktseq = g.rtpSeqStart
    · left
      rw [if_pos hg]
      exact ⟨g, rfl, hg, rfl⟩
    · right
      rw [if_neg hg]
      have hne : ∀ g', some g = some g' → pktseq ≠ g'.rtpSeqStart := by
        intro g' hg'
        rw [← Option.some.inj hg']
        exact hg
      unfold fecpktInRest
      rw [hdl]
      dsimp only
      by_cases hin : pktseq = dl.rtpSeqStart
      · left
        rw [if_pos hin]
        refine ⟨hne, Or.inl hin, ?_⟩
        simp [putFecDownLoading, hdl, hcm]
      · rw [if_neg hin]
        by_cases hnext : pktseq = (dl.rtpSeqStart + s.rtpPktNum) % 0x10000
        · left
          rw [if_pos hnext]
          refine ⟨hne, Or.inr ⟨rfl, hnext⟩, ?_⟩
          simp [groupDownloadingToCheckmiss, createGroupDownloading, hdl, hcm, putFecDownLoading]
        · right; right
          rw [if_neg hnext]
          exact ⟨hnext, rfl⟩

end HiSTB.Rtpfec
