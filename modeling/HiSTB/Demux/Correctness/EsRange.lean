import HiSTB.Demux.Es
import Mathlib.Data.Set.Basic

/-!
# `EsRange` — what a request hands out lies in the block

* `parsePesHeader_within` — how long a block has to be for the parser to stay inside it;
* `Outcome`, `readEsRequest_outcome` — all that a request can come to;
* `readEsRequest_inside_iff` — the range that is handed out lies in the block, and only bytes of the block are read,
  exactly if the block is long enough for the header that it begins with.

At the end of the stream the code checks that the header is complete, in the normal path it does not: the length of
the header is taken off the length of the data, which goes below zero.
-/

namespace HiSTB.Demux.Es

open Lib

variable {i : Nat}

/-! ## The parser -/

section Parser

variable {mac : Macros} {m : Nat → Byte} {n : U32} {k : Nat}

/-- The first `k` places. -/
def below (k : Nat) : Set Nat := {i | i < k}

theorem mem_below : i ∈ below k ↔ i < k := Iff.rfl

/-- There is a start code. -/
def HasStart (m : Nat → Byte) : Prop := m 0 = 0 ∧ m 1 = 0 ∧ m 2 = 1
deriving Decidable

/-- `PTSFlag`, and there is something behind the header. -/
def Stamped (m : Nat → Byte) (n : Nat) : Prop := (m 7 &&& 0x80) >>> 7 ≠ 0 ∧ pesHeaderLength + (m 8).toNat < n
deriving Decidable

/-- The packet carries display control. -/
def Controls (m : Nat → Byte) (n : Nat) : Prop := m 3 = 0xee ∧ 24 < n ∧ ∀ c ∈ controlMark, m c.1 = c.2
deriving Decidable

theorem within_word : Reading.Within m (word i) (below k) ↔ i + 3 < k := by
  unfold word byte
  simp only [Reading.within_bind, Reading.within_get, Reading.within_pure, mem_below, and_true]
  omega

theorem within_noStartCode : Reading.Within m noStartCode (below k) ↔
    0 < k ∧ (m 0 = 0 → 1 < k ∧ (m 1 = 0 → 2 < k)) := by
  unfold noStartCode startCode byte
  simp only [Reading.within_anyM_cons, Reading.within_bind, Reading.within_get, Reading.within_pure,
    Reading.result_bind, Reading.result_get, Reading.result_pure, bne_eq_false_iff_eq, mem_below, and_true]
  simp only [List.anyM, Reading.within_pure, implies_true, and_true]

theorem result_noStartCode : noStartCode.result m = true ↔ ¬ HasStart m := by
  unfold noStartCode startCode byte HasStart
  simp only [Reading.result_anyM, Reading.result_bind, Reading.result_get, Reading.result_pure, List.any_cons,
    List.any_nil, Bool.or_false, Bool.or_eq_true, bne_iff_ne]
  tauto

theorem within_warning : Reading.Within m (warning mac) (below k) ↔ (mac.warns = true → 2 < k) := by
  unfold warning byte
  rw [Reading.within_ite]
  simp only [Reading.within_bind, Reading.within_get, Reading.within_pure, mem_below, implies_true, and_true]
  exact imp_congr_right fun _ => ⟨fun h => h.1, fun h => ⟨h, by omega, by omega⟩⟩

theorem within_ptsMs : Reading.Within m ptsMs (below k) ↔ 13 < k := by
  unfold ptsMs byte
  simp only [Reading.within_bind, Reading.within_get, Reading.within_pure, mem_below, and_true]
  omega

/-- The mark is looked for where the packet is long enough. -/
theorem within_isControl (streamId : Byte) : Reading.Within m (isControl streamId n) (below n.toNat) := by
  unfold isControl
  rw [Reading.within_ite]
  refine ⟨fun h => Reading.within_allM (fun c hc => ?_), fun _ => Reading.within_pure false⟩
  have hlong : 24 < n.toNat := h.2
  have hmark : c.1 ≤ 20 := by
    have hall : ∀ c ∈ controlMark, c.1 ≤ 20 := by decide
    exact hall c hc
  unfold byte
  rw [Reading.within_bind, Reading.within_get]
  exact ⟨mem_below.mpr (by omega), Reading.within_pure _⟩

theorem result_isControl : (isControl (m 3) n).result m = true ↔ Controls m n.toNat := by
  unfold isControl Controls byte
  split
  · rename_i h
    simp only [Reading.result_allM, Reading.result_bind, Reading.result_get, Reading.result_pure, List.all_eq_true,
      beq_iff_eq]
    exact ⟨fun hmark => ⟨h.1, h.2, hmark⟩, fun hc => hc.2.2⟩
  · rename_i h
    exact iff_of_false Bool.noConfusion (fun hc => h ⟨hc.1, hc.2.1⟩)

theorem within_dispControl : Reading.Within m dispControl (below k) ↔ 40 < k := by
  unfold dispControl
  simp only [Reading.within_bind, within_word, Reading.within_pure, and_true]
  omega

theorem headLen_toNat (b8 : Byte) : (BitVec.ofNat 32 pesHeaderLength + b8.setWidth 32).toNat =
    pesHeaderLength + b8.toNat := by
  have hb := b8.isLt
  rw [BitVec.toNat_add, BitVec.toNat_ofNat, BitVec.toNat_setWidth]
  unfold pesHeaderLength
  omega

theorem within_stamp : Reading.Within m
    (stamp mac ((m 7 &&& 0x80) >>> 7) (BitVec.ofNat 32 pesHeaderLength + (m 8).setWidth 32) n) (below k) ↔
      (Stamped m n.toNat → 13 < k) := by
  unfold stamp Stamped
  rw [Reading.within_ite, within_ptsMs, BitVec.lt_def, headLen_toNat]
  exact and_iff_left (fun _ => Reading.within_pure _)

theorem within_parseHeader : Reading.Within m (parseHeader mac n) (below n.toNat) ↔ 3 < n.toNat ∧ (m 3 ∉ headless →
      8 < n.toNat ∧ (Stamped m n.toNat → 13 < n.toNat) ∧ (Controls m n.toNat → 40 < n.toNat)) := by
  unfold parseHeader byte
  simp only [Reading.within_get_bind, Reading.within_ite, Reading.within_pure, mem_below, implies_true, true_and]
  refine and_congr_right fun _ => imp_congr_right fun _ => ?_
  rw [Reading.within_bind, within_stamp, Reading.within_bind, Reading.within_ite, Reading.within_bind,
    within_dispControl, result_isControl]
  have hcontrol : Reading.Within m (isControl (m 3) n) (below n.toNat) := within_isControl (m 3)
  simp only [Reading.within_pure, hcontrol, implies_true, and_true, true_and]
  exact ⟨fun h => h.2, fun h => ⟨by omega, h⟩⟩

theorem within_parsePesHeader : Reading.Within m (parsePesHeader mac n) (below n.toNat) ↔
    (0 < n.toNat ∧ (m 0 = 0 → 1 < n.toNat ∧ (m 1 = 0 → 2 < n.toNat))) ∧
      (¬ HasStart m → mac.warns = true → 2 < n.toNat) ∧
      (HasStart m → 3 < n.toNat ∧ (m 3 ∉ headless →
        8 < n.toNat ∧ (Stamped m n.toNat → 13 < n.toNat) ∧ (Controls m n.toNat → 40 < n.toNat))) := by
  unfold parsePesHeader
  rw [Reading.within_bind, within_noStartCode, Reading.within_ite, Reading.within_bind, within_warning,
    within_parseHeader, result_noStartCode, not_not]
  simp only [Reading.within_pure, and_true]

/-- The header is taken off. -/
def Stripped (m : Nat → Byte) (n : Nat) : Prop := HasStart m ∧ m 3 ∉ headless ∧ ¬ Controls m n

theorem result_parsePesHeader : (parsePesHeader mac n).result m = if HasStart m ∧ m 3 ∉ headless then
      let pts := (stamp mac ((m 7 &&& 0x80) >>> 7) (BitVec.ofNat 32 pesHeaderLength + (m 8).setWidth 32) n).result m
      if Controls m n.toNat then .control (dispControl.result m) pts
      else .success (BitVec.ofNat 32 pesHeaderLength + (m 8).setWidth 32) pts
    else .failure := by
  unfold parsePesHeader
  rw [Reading.result_bind]
  by_cases hstart : HasStart m
  · rw [if_neg (fun h => result_noStartCode.mp h hstart)]
    unfold parseHeader byte
    rw [Reading.result_bind, Reading.result_get]
    by_cases hheadless : m 3 ∈ headless
    · rw [if_pos hheadless, if_neg (fun h => h.2 hheadless)]
      rfl
    · rw [if_neg hheadless, if_pos ⟨hstart, hheadless⟩]
      simp only [Reading.result_bind, Reading.result_get]
      by_cases hcontrol : Controls m n.toNat
      · rw [if_pos (result_isControl.mpr hcontrol), if_pos hcontrol]
        rfl
      · rw [if_neg (fun h => hcontrol (result_isControl.mp h)), if_neg hcontrol]
        rfl
  · rw [if_pos (result_noStartCode.mpr hstart), if_neg (fun h => hstart h.1), Reading.result_bind]
    rfl

local instance lawfulBEqByte : LawfulBEq Byte := inferInstance

/-- How long a block with these bytes has to be, so that a header at its beginning is inside it; `n` is how long it
    is. -/
def needs (mac : Macros) (m : Nat → Byte) (n : Nat) : Nat :=
  if m 0 ≠ 0 then if mac.warns then 3 else 1
  else if m 1 ≠ 0 then if mac.warns then 3 else 2
  else if m 2 ≠ 1 then 3
  else if m 3 ∈ headless then 4
  else if Controls m n then 41
  else if Stamped m n then 14
  else pesHeaderLength + (m 8).toNat

/-- **Parser and header stay inside the block** exactly if it is long enough. -/
theorem fits_iff : (Reading.Within m (parsePesHeader mac n) (below n.toNat) ∧
    (Stripped m n.toNat → pesHeaderLength + (m 8).toNat ≤ n.toNat)) ↔ needs mac m n.toNat ≤ n.toNat := by
  rw [within_parsePesHeader]
  unfold Stripped needs HasStart
  generalize n.toNat = k
  by_cases h0 : m 0 = 0
  · rw [if_neg (not_not.mpr h0)]
    by_cases h1 : m 1 = 0
    · rw [if_neg (not_not.mpr h1)]
      by_cases h2 : m 2 = 1
      · rw [if_neg (not_not.mpr h2)]
        simp only [h0, h1, h2, and_self, not_true, false_implies, true_implies, true_and]
        by_cases h3 : m 3 ∈ headless
        · rw [if_pos h3]
          simp only [h3, not_true, false_implies, false_and, and_true]
          omega
        · rw [if_neg h3]
          simp only [h3, not_false_iff, true_implies, true_and]
          by_cases hc : Controls m k
          · have hk : 24 < k := hc.2.1
            rw [if_pos hc]
            simp only [hc, not_true, false_implies, true_implies, and_true]
            exact ⟨fun h => h.2.2.2.2, fun h => ⟨by omega, by omega, by omega, fun _ => by omega, h⟩⟩
          · rw [if_neg hc]
            simp only [hc, not_false_iff, false_implies, true_implies, and_true]
            by_cases hs : Stamped m k
            · have hk : pesHeaderLength + (m 8).toNat < k := hs.2
              rw [if_pos hs]
              simp only [hs, true_implies]
              omega
            · have hnine : pesHeaderLength = 9 := rfl
              rw [if_neg hs]
              simp only [hs, false_implies, and_true]
              omega
      · rw [if_pos h2]
        simp only [h0, h1, h2, and_false, not_false_iff, true_implies, false_implies, false_and, and_true]
        omega
    · rw [if_pos h1]
      simp only [h0, h1, false_and, and_false, not_false_iff, true_implies, false_implies, and_true]
      cases mac.warns with
      | true => exact ⟨fun h => h.2 rfl, fun (h : 3 ≤ k) => ⟨⟨by omega, by omega⟩, fun _ => h⟩⟩
      | false => exact ⟨fun h => h.1.2, fun (h : 2 ≤ k) => ⟨⟨by omega, h⟩, Bool.noConfusion⟩⟩
  · rw [if_pos h0]
    simp only [h0, false_and, not_false_iff, true_implies, false_implies, and_true]
    cases mac.warns with
    | true => exact ⟨fun h => h.2 rfl, fun (h : 3 ≤ k) => ⟨by omega, fun _ => h⟩⟩
    | false => exact ⟨fun h => h.1, fun h => ⟨h, Bool.noConfusion⟩⟩

end Parser

/-! ## The range -/

variable {cfg : Config} {c : Chan} {b : Block} {es : Stream}

/-- The range that is handed out lies in the data of the block. -/
def Stream.Inside (es : Stream) (b : Block) : Prop :=
  b.startAddr.toNat ≤ es.bufPhyAddr.toNat ∧
    es.bufPhyAddr.toNat + es.bufLen.toNat ≤ b.startAddr.toNat + b.data.length
deriving Decidable

/-- The rest of the block from `offset` on, and its header if it begins with one, are inside the block. -/
def Fits (mac : Macros) (b : Block) (offset : U32) : Prop :=
  offset.toNat ≤ b.data.length ∧
    (b.sop = true ∧ offset = 0 → needs mac b.mem b.data.length ≤ b.data.length)

theorem Block.dataLen_toNat : b.dataLen.toNat = b.data.length := by
  have hlen := b.len_lt
  unfold Block.dataLen
  rw [BitVec.toNat_ofNat]
  omega

/-- What is left from an offset on lies in the block exactly if the offset does: behind its end the length wraps. -/
theorem inside_iff {off len : U32} (hlen : len.toNat ≤ (b.dataLen - off).toNat) :
    (b.startAddr.toNat ≤ (b.startAddr + off).toNat ∧
      (b.startAddr + off).toNat + len.toNat ≤ b.startAddr.toNat + b.data.length) ↔ off.toNat ≤ b.data.length := by
  have hplaced := b.placed
  have hstart := b.startAddr.isLt
  have hoff := off.isLt
  rw [BitVec.toNat_sub, b.dataLen_toNat] at hlen
  rw [BitVec.toNat_add]
  constructor
  · intro ⟨hbase, hend⟩
    omega
  · intro hle
    omega

/-- The trim only shortens. -/
theorem trim_le (c : Chan) (dataLen : U32) : (c.trim dataLen).2.toNat ≤ dataLen.toNat := by
  unfold Chan.trim
  split
  · split
    · rename_i hlt
      exact Nat.le_of_lt hlt
    · exact Nat.le_refl _
  · exact Nat.le_refl _

theorem stripHeader_head : (c.stripHeader cfg b b.dataLen).len.toNat ≤ b.data.length ↔
    (Stripped b.mem b.data.length → pesHeaderLength + (b.mem 8).toNat ≤ b.data.length) := by
  unfold Chan.stripHeader Stripped
  dsimp only
  rw [result_parsePesHeader, b.dataLen_toNat]
  by_cases hhead : HasStart b.mem ∧ b.mem 3 ∉ headless
  · rw [if_pos hhead]
    by_cases hcontrol : Controls b.mem b.data.length
    · rw [if_pos hcontrol]
      refine iff_of_true ?_ (fun h => absurd hcontrol h.2.2)
      dsimp only
      split
      · rename_i hle
        rw [BitVec.le_def, b.dataLen_toNat] at hle
        exact hle
      · exact Nat.zero_le _
    · rw [if_neg hcontrol]
      rw [headLen_toNat]
      exact ⟨fun h _ => h, fun h => h ⟨hhead.1, hhead.2, hcontrol⟩⟩
  · rw [if_neg hhead]
    exact iff_of_true (Nat.zero_le _) (fun h => absurd ⟨h.1, h.2.1⟩ hhead)

/-- The two bytes of the packet's length are in front of bytes that the parser reads. -/
theorem stripHeader_reads : (∀ i ∈ (c.stripHeader cfg b b.dataLen).reads, i < b.data.length) ↔
    Reading.Within b.mem (parsePesHeader cfg.toMacros b.dataLen) (below b.data.length) := by
  unfold Chan.stripHeader
  dsimp only
  rw [result_parsePesHeader, b.dataLen_toNat]
  by_cases hhead : HasStart b.mem ∧ b.mem 3 ∉ headless
  · rw [if_pos hhead]
    by_cases hcontrol : Controls b.mem b.data.length
    · rw [if_pos hcontrol]
      dsimp only
      split <;> exact Iff.rfl
    · rw [if_neg hcontrol]
      constructor
      · intro h i hi
        exact h i (List.mem_append_left _ hi)
      · intro h i hi
        rcases List.mem_append.mp hi with hi | hi
        · exact h i hi
        · rw [← b.dataLen_toNat] at h ⊢
          obtain ⟨-, -, hstart⟩ := within_parsePesHeader.mp h
          have hnine : 8 < b.dataLen.toNat := ((hstart hhead.1).2 hhead.2).1
          have hfive : i ≤ 5 := by
            have hall : ∀ i ∈ [4, 5], i ≤ 5 := by decide
            exact hall i hi
          omega
  · rw [if_neg hhead]
    exact Iff.rfl


/-- **What is delivered of a block** lies in it, and so does what is read for that, exactly if the block fits. -/
theorem deliver_inside_iff {offset : U32} {eos : Bool}
    (h : (c.deliver cfg b offset (b.dataLen - offset) eos).ret = .success es b) :
    (es.Inside b ∧ ∀ i ∈ (c.deliver cfg b offset (b.dataLen - offset) eos).reads, i < b.data.length) ↔
      Fits cfg.toMacros b offset := by
  have hes := (Ret.success.inj h).1
  generalize hhead : c.head cfg b offset (b.dataLen - offset) = head at hes
  have haddr : es.bufPhyAddr = b.startAddr + (offset + head.len) := by
    rw [← hes]
    exact BitVec.add_assoc _ _ _
  have hlen : es.bufLen.toNat ≤ (b.dataLen - (offset + head.len)).toNat := by
    rw [← hes, ← BitVec.sub_sub]
    exact trim_le _ _
  have hreads : (c.deliver cfg b offset (b.dataLen - offset) eos).reads = head.reads := congrArg Head.reads hhead
  unfold Stream.Inside Fits
  rw [hreads, haddr, inside_iff hlen, ← hhead]
  unfold Chan.head
  by_cases hsop : b.sop = true ∧ offset = 0
  · obtain ⟨hb, rfl⟩ := hsop
    have hsub : b.dataLen - (0 : U32) = b.dataLen := BitVec.sub_zero _
    have hadd (x : U32) : 0 + x = x := BitVec.zero_add x
    rw [if_pos ⟨hb, rfl⟩, hsub, hadd, stripHeader_reads, stripHeader_head, ← b.dataLen_toNat, and_comm, fits_iff]
    exact ⟨fun hfits => ⟨Nat.zero_le _, fun _ => hfits⟩, fun hfits => hfits.2 ⟨hb, rfl⟩⟩
  · have hadd : offset + (0 : U32) = offset := BitVec.add_zero _
    rw [if_neg hsop]
    rw [hadd]
    exact and_congr_right fun _ => iff_of_true (fun _ hi => nomatch hi) (fun h => absurd h hsop)

/-! ## The request -/

variable {v : Nat → View}

/-- All that a request can come to: it fails, where at most the end of the stream is noted; it passes over a block that
    has no more data; or it delivers the next block of the queue, or what the current one has so far. -/
inductive Outcome (cfg : Config) (v : Nat → View) (c : Chan) : Answer → Prop
  | fails {ret : Ret} {eos : Bool} (hret : ∀ es b, ret ≠ .success es b) :
      Outcome cfg v c ⟨{ c with chanEosFlag := eos }, ret, []⟩
  | passes (hlen : ((v 4).oqDesc c.procsBlk).dataLen = c.procsOffset)
      (hnext : c.procsBlk ≠ (v 0).oqWrite ∨ c.procsBlk ≠ (v 3).oqWrite) :
      Outcome cfg v c
        ⟨{ c with procsBlk := dmxInc cfg.oqDepth c.procsBlk, procsOffset := 0 }, .noAvailableData, []⟩
  | next {b : Block} (hb : b = (v 4).oqDesc c.procsBlk) (hlen : b.dataLen ≠ c.procsOffset)
      (hnext : c.procsBlk ≠ (v 0).oqWrite ∨ c.procsBlk ≠ (v 3).oqWrite) :
      Outcome cfg v c (Chan.deliver cfg
        { c with procsBlk := dmxInc cfg.oqDepth c.procsBlk, procsOffset := 0 } b c.procsOffset
        (b.dataLen - c.procsOffset) false)
  | current {b : Block} (hcur : getBbsAddrSize (v 1) (v 0).oqWrite = some b) (hlen : b.dataLen ≠ c.procsOffset)
      (hheader : b.sop = true ∧ c.procsOffset = 0 →
        (headerIncomplete (b.dataLen - c.procsOffset)).result b.mem = false)
      (hfirst : c.procsBlk = (v 0).oqWrite) (hagain : c.procsBlk = (v 3).oqWrite) :
      Outcome cfg v c (c.deliver cfg b c.procsOffset (b.dataLen - c.procsOffset) true)

theorem atEnd_outcome {port : PortMode} {w : View} : Outcome cfg v c (c.atEnd cfg port w) := by
  unfold Chan.atEnd
  split
  · exact .fails (fun _ _ => Ret.noConfusion)
  · exact .fails (fun _ _ => Ret.noConfusion)

theorem takeNext_outcome (hnext : c.procsBlk ≠ (v 0).oqWrite ∨ c.procsBlk ≠ (v 3).oqWrite) :
    Outcome cfg v c (c.takeNext cfg ((v 4).oqDesc c.procsBlk)) := by
  unfold Chan.takeNext
  split
  · rename_i hlen
    exact .passes hlen hnext
  · rename_i hlen
    exact .next rfl hlen hnext

theorem readEsRequest_outcome : Outcome cfg v c (readEsRequest cfg v c) := by
  have hfails {ret : Ret} (hret : ∀ es b, ret ≠ .success es b) : Outcome cfg v c ⟨c, ret, []⟩ := .fails hret
  unfold readEsRequest
  split
  · exact hfails (fun _ _ => Ret.noConfusion)
  · split
    · exact hfails (fun _ _ => Ret.noConfusion)
    · split
      · exact hfails (fun _ _ => Ret.noConfusion)
      · split
        · exact hfails (fun _ _ => Ret.noConfusion)
        · split
          · rename_i hfirst
            split
            · exact hfails (fun _ _ => Ret.noConfusion)
            · split
              · rename_i b hcur
                unfold Chan.takeCurrent
                dsimp only
                split
                · exact atEnd_outcome
                · rename_i hlen
                  split
                  · exact atEnd_outcome
                  · rename_i hheader
                    split
                    · rename_i hagain
                      refine .current hcur (fun h => hlen ?_) (fun hsop => ?_) hfirst hagain
                      · rw [h]
                        exact BitVec.sub_self _
                      · exact Bool.eq_false_iff.mpr (fun h => hheader ⟨hsop, h⟩)
                    · rename_i hagain
                      exact takeNext_outcome (.inr hagain)
              · split
                · exact .fails (fun _ _ => Ret.noConfusion)
                · rename_i hagain
                  exact takeNext_outcome (.inr hagain)
          · rename_i hfirst
            exact takeNext_outcome (.inl hfirst)

/-- **A range that a request hands out lies in its block**, and only bytes of the block are read for it, exactly if
    the block is as long as the header that it begins with says. -/
theorem readEsRequest_inside_iff (h : (readEsRequest cfg v c).ret = .success es b) :
    (es.Inside b ∧ ∀ i ∈ (readEsRequest cfg v c).reads, i < b.data.length) ↔ Fits cfg.toMacros b c.procsOffset := by
  have hout : Outcome cfg v c (readEsRequest cfg v c) := readEsRequest_outcome
  generalize readEsRequest cfg v c = a at h hout
  cases hout with
  | fails hret => exact absurd h (hret es b)
  | passes _ _ => cases h
  | next _ _ _ =>
      obtain rfl := (Ret.success.inj h).2
      exact deliver_inside_iff h
  | current _ _ _ _ _ =>
      obtain rfl := (Ret.success.inj h).2
      exact deliver_inside_iff h

/-- A video channel that is open; its queue has blocks. -/
def openChan : Chan := ⟨0, .vid, true, false, 0, ⟨0, 0, 0, 0, 0⟩, 0, 0, 0⟩

def plain : Config := ⟨⟨0xffffffff, true⟩, 5, some .ram, 0x1000, 0x80001000, 8, 0x8000⟩

/-- A PES packet with a header of 9 + 1 bytes, and two bytes of data. -/
def wholeBlock : Block :=
  ⟨0, 0x1000, true, [0, 0, 1, 0xe0, 0, 8, 0x80, 0, 1, 0xff, 0xaa, 0xbb], fun _ => 0, by decide, by decide⟩

/-- The first ten bytes of a PES packet with a header of 9 + 200 bytes. -/
def shortBlock : Block :=
  ⟨0, 0x1000, true, [0, 0, 1, 0xe0, 0, 0, 0x80, 0, 200, 0xff], fun _ => 0, by decide, by decide⟩

/-- The queue has this block. -/
def queued (b : Block) : Nat → View := fun _ => ⟨1, fun _ => b, none, 0, 0⟩

/-- A whole block: the range handed out is in it, and so is all that is read. -/
theorem readEsRequest_inside_whole :
    (⟨⟨0, 0, 0, 0, 0⟩, 0x100a, 0x8000100a, 2, 0xffffffff⟩ : Stream).Inside wholeBlock ∧
      ∀ i ∈ (readEsRequest plain (queued wholeBlock) openChan).reads, i < wholeBlock.data.length :=
  (readEsRequest_inside_iff rfl).mpr ⟨by decide, fun _ => by decide⟩

/-- Of the short block nearly four gigabytes are handed out. -/
theorem readEsRequest_leaves : ¬ ∀ (cfg : Config) (v : Nat → View) (c : Chan) (es : Stream) (b : Block),
    (readEsRequest cfg v c).ret = .success es b →
      es.Inside b ∧ ∀ i ∈ (readEsRequest cfg v c).reads, i < b.data.length := by
  intro hall
  have hinside := (hall plain (queued shortBlock) openChan
    ⟨⟨0, 0, 0, 0, 0⟩, 0x10d1, 0x800010d1, 0xffffff39, 0xffffffff⟩ shortBlock rfl).1
  have hend : 0x10d1 + 0xffffff39 ≤ 0x1000 + 10 := hinside.2
  omega

end HiSTB.Demux.Es
