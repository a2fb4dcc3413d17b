import HiSTB.Demux.RamHw
import HiSTB.Demux.Correctness.RamPort
import HiSTB.Lib.SplitBuffer
import HiSTB.Lib.Ring

/-!
# `Demux.Correctness.RamHw` — a get grants what the hardware does not read

`Read` is the start of the descriptor that the hardware finished last, as the handler saw it, so that it trails the
hardware. It goes back to 0 with `Write` when everything is read, and then the descriptor before the one that is being
read says nothing about it until another one is finished.

* `Table` — the descriptors in memory; `noFreeDesc_few`, `isr_slot` — what the registers say of them;
* `Bytes` — the bytes that are published, as pieces of a split buffer; `getIPBufLen_room` — what a get finds;
* `Inv`, `Calm` — what holds at every point, and when; `Inv.isrRead` — the handler's `Read`;
* `run_grants` — in every calm run the grants are inside the buffer and apart from what is not read;
* `four_overruns` — what happens without.
-/

namespace HiSTB.Demux.RamHw

open Lib Lib.SplitBuffer RamPort

variable {x j f : Nat} {r a n w len st : BitVec 32} {d : Desc} {prod : Prod} {wakeUp pending : Bool}
    {isr : Isr}

/-! ## Positions and the registers -/

/-- What the registers say of two positions that are less than a round apart. -/
theorem mod_add_lt {x e n : Nat} (he : e < n) :
    (x + e) % n = if x % n + e < n then x % n + e else x % n + e - n := by
  have hx : x % n < n := Nat.mod_lt _ (by omega)
  rw [Nat.add_mod, Nat.mod_eq_of_lt he]
  split_ifs with hlt
  · exact Nat.mod_eq_of_lt hlt
  · rw [Nat.mod_eq_sub_mod (by omega), Nat.mod_eq_of_lt (by omega)]

/-- **`GetQueueLenth` counts what is between.** -/
theorem getQueueLenth_toNat {read write size : BitVec 32} {y : Nat} (hread : read.toNat = x % size.toNat)
    (hwrite : write.toNat = y % size.toNat) (hle : x ≤ y) (hlt : y < x + size.toNat) :
    (getQueueLenth read write size).toNat = y - x := by
  have hmod := @mod_add_lt x (y - x) size.toNat (by omega)
  have hx : x % size.toNat < size.toNat := Nat.mod_lt _ (by omega)
  have hsize := size.isLt
  rw [Nat.add_sub_cancel' hle] at hmod
  unfold getQueueLenth
  split_ifs with hgt
  · rw [gt_iff_lt, BitVec.lt_def] at hgt
    rw [BitVec.toNat_sub, BitVec.toNat_add]
    split_ifs at hmod <;> omega
  · rw [gt_iff_lt, BitVec.lt_def] at hgt
    rw [BitVec.toNat_sub]
    split_ifs at hmod <;> omega

/-- The slot before the one that is being read. -/
theorem pred_mod {n : Nat} (hn : 0 < n) (hx : 0 < x) : (if x % n = 0 then n - 1 else x % n - 1) = (x - 1) % n := by
  have hmod := @mod_add_lt (x - 1) (if n = 1 then 0 else 1) n (by split_ifs <;> omega)
  have hlt : (x - 1) % n < n := Nat.mod_lt _ hn
  by_cases hone : n = 1
  · subst hone
    simp [Nat.mod_one]
  · rw [if_neg hone, Nat.sub_add_cancel hx] at hmod
    split_ifs at hmod ⊢ <;> omega

/-- The descriptors in memory: the last `depth` of those that were published. -/
structure Table (depth : Nat) (ds : List Desc) (finished : Nat) (descWrite : BitVec 32) (curr : Nat)
    (desc : Nat → Desc) :
    Prop where
  finished_le : finished ≤ ds.length
  few : ds.length < finished + depth
  write : descWrite.toNat = ds.length % depth
  curr : curr = ds.length % depth
  slot : ∀ i d, ds[i]? = some d → ds.length ≤ i + depth → desc (i % depth) = d

section Table

variable {cfg : RamPort.Config} {p : Port} {ds : List Desc} {finished : Nat} {depth : Nat}

theorem Table.finish (h : Table depth ds finished p.descWrite p.descCurr p.desc) (hlt : finished < ds.length) :
    Table depth ds (finished + 1) p.descWrite p.descCurr p.desc :=
  ⟨hlt, by have := h.few; omega, h.write, h.curr, h.slot⟩

/-- **A get that passes its check has descriptors for its bytes.** -/
theorem noFreeDesc_few (h : Table p.descDepth.toNat ds finished p.descWrite p.descCurr p.desc)
    (hr : r.toNat + 2 < 0x100000000)
    (hfree : p.noFreeDesc cfg r (BitVec.ofNat 32 (finished % p.descDepth.toNat)) = false) :
    r.toNat / cfg.maxIpBlockSize.toNat + 2 + (ds.length - finished) < p.descDepth.toNat := by
  have hfew := h.few
  have hle := h.finished_le
  have hdepth := p.descDepth.isLt
  have hmod : finished % p.descDepth.toNat < p.descDepth.toNat := Nat.mod_lt _ (by omega)
  have hread : (BitVec.ofNat 32 (finished % p.descDepth.toNat)).toNat = finished % p.descDepth.toNat := by
    rw [BitVec.toNat_ofNat]
    exact Nat.mod_eq_of_lt (by omega)
  have hqueue := getQueueLenth_toNat hread h.write hle hfew
  have hdiv := Nat.div_le_self r.toNat cfg.maxIpBlockSize.toNat
  have htwo : (2 : BitVec 32).toNat = 2 := rfl
  unfold Port.noFreeDesc at hfree
  simp only [ge_iff_le, decide_eq_false_iff_not, BitVec.le_def, BitVec.toNat_sub, BitVec.toNat_add, BitVec.toNat_udiv,
    hqueue, htwo] at hfree
  omega

/-- A descriptor goes to the table. -/
theorem Table.add (h : Table p.descDepth.toNat ds finished p.descWrite p.descCurr p.desc) (a l : BitVec 32)
    (hroom : ds.length + 1 < finished + p.descDepth.toNat) :
    Table p.descDepth.toNat (ds ++ [(a, l)]) finished (p.descAdd a l).descWrite (p.descAdd a l).descCurr
      (p.descAdd a l).desc := by
  have hle := h.finished_le
  have hdepth := p.descDepth.isLt
  have hpos : 0 < p.descDepth.toNat := by omega
  have hmod : ds.length % p.descDepth.toNat < p.descDepth.toNat := Nat.mod_lt _ hpos
  have hnext := @Nat.add_mod ds.length 1 p.descDepth.toNat
  have hsucc : (p.descWrite + 1).toNat = ds.length % p.descDepth.toNat + 1 := by
    rw [BitVec.toNat_add, h.write]
    exact Nat.mod_eq_of_lt (by show _ + 1 < _; omega)
  -- the two counters go on, or back to 0
  have hcount : (p.descAdd a l).descWrite.toNat = (ds.length + 1) % p.descDepth.toNat ∧
      (p.descAdd a l).descCurr = (ds.length + 1) % p.descDepth.toNat := by
    unfold Port.descAdd
    dsimp only
    split_ifs with hend
    · rw [ge_iff_le, BitVec.le_def, hsucc] at hend
      have heq : ds.length % p.descDepth.toNat + 1 = p.descDepth.toNat := by omega
      have hzero : (ds.length + 1) % p.descDepth.toNat = 0 := by
        rw [← Nat.mod_add_mod, heq, Nat.mod_self]
      exact ⟨hzero.symm, hzero.symm⟩
    · rw [ge_iff_le, BitVec.le_def, hsucc] at hend
      have hkeep : (ds.length + 1) % p.descDepth.toNat = ds.length % p.descDepth.toNat + 1 := by
        rw [← Nat.mod_add_mod, Nat.mod_eq_of_lt (by omega)]
      rw [hkeep]
      exact ⟨hsucc, congrArg (· + 1) h.curr⟩
  have hdesc : (p.descAdd a l).desc = Function.update p.desc (ds.length % p.descDepth.toNat) (a, l) := by
    rw [← h.curr]
    unfold Port.descAdd
    dsimp only
    split_ifs <;> rfl
  refine ⟨?_, ?_, ?_, ?_, ?_⟩
  · rw [List.length_append]
    omega
  · rw [List.length_append, List.length_singleton]
    exact hroom
  · rw [List.length_append, List.length_singleton]
    exact hcount.1
  · rw [List.length_append, List.length_singleton]
    exact hcount.2
  · intro i d hd hi
    rw [List.length_append, List.length_singleton] at hi
    rw [hdesc]
    by_cases hlast : i = ds.length
    · subst hlast
      rw [List.getElem?_append_right (Nat.le_refl _), Nat.sub_self] at hd
      rw [Function.update_self]
      exact Option.some.inj hd
    · -- less than a round before, it is in another slot
      have hlt : i < ds.length := by
        have hsome := (List.getElem?_eq_some_iff.mp hd).1
        rw [List.length_append, List.length_singleton] at hsome
        omega
      have hne : i % p.descDepth.toNat ≠ ds.length % p.descDepth.toNat := Lib.cell_ne hlt (by omega)
      rw [Function.update_of_ne hne]
      rw [List.getElem?_append_left hlt] at hd
      exact h.slot i d hd (by omega)

/-- **What the handler reads** is the descriptor that was finished last. -/
theorem isr_slot (h : Table p.descDepth.toNat ds finished p.descWrite p.descCurr p.desc)
    (hd : ds[finished - 1]? = some d) (hpos : 0 < finished) :
    p.desc (if BitVec.ofNat 32 (finished % p.descDepth.toNat) = 0 then p.descDepth - 1
      else BitVec.ofNat 32 (finished % p.descDepth.toNat) - 1).toNat = d := by
  have hfew := h.few
  have hle := h.finished_le
  have hdepth := p.descDepth.isLt
  have hdpos : 0 < p.descDepth.toNat := by omega
  have hmod : finished % p.descDepth.toNat < p.descDepth.toNat := Nat.mod_lt _ hdpos
  have hpred := pred_mod hdpos hpos
  have hread : (BitVec.ofNat 32 (finished % p.descDepth.toNat)).toNat = finished % p.descDepth.toNat := by
    rw [BitVec.toNat_ofNat]
    exact Nat.mod_eq_of_lt (by omega)
  have hslot : (if BitVec.ofNat 32 (finished % p.descDepth.toNat) = 0 then p.descDepth - 1
      else BitVec.ofNat 32 (finished % p.descDepth.toNat) - 1).toNat = (finished - 1) % p.descDepth.toNat := by
    rw [← hpred]
    have hiff : BitVec.ofNat 32 (finished % p.descDepth.toNat) = 0 ↔ finished % p.descDepth.toNat = 0 := by
      rw [← BitVec.toNat_inj, hread]
      rfl
    by_cases hzero : finished % p.descDepth.toNat = 0
    · rw [if_pos (hiff.mpr hzero), if_pos hzero, BitVec.toNat_sub]
      show (2 ^ 32 - 1 + _) % _ = _
      omega
    · rw [if_neg (fun hz => hzero (hiff.mp hz)), if_neg hzero, BitVec.toNat_sub, hread]
      show (2 ^ 32 - 1 + _) % _ = _
      omega
  rw [hslot]
  exact h.slot (finished - 1) d hd (by omega)

end Table

/-! ## The bytes of the buffer -/

/-- The place of an address in the buffer. -/
def Plan.off (plan : Plan) (a : BitVec 32) : Nat := (a - plan.phyAddr).toNat

/-- The bytes of a descriptor. -/
def Plan.piece (plan : Plan) (d : Desc) : Nat × Nat := (plan.off d.1, d.2.toNat)

/-- The port is the one that was created. -/
structure Const (plan : Plan) (p : Port) : Prop where
  phyAddr : p.phyAddr = plan.phyAddr
  bufSize : p.bufSize = plan.bufSize
  descDepth : p.descDepth = plan.descDepth

variable {plan : Plan}

theorem toNat_off {a : BitVec 32} (h : plan.off a ≤ plan.bufSize.toNat) :
    a.toNat = plan.phyAddr.toNat + plan.off a := by
  have hblock := plan.block
  unfold Plan.off at *
  have ha := a.isLt
  rw [BitVec.toNat_sub] at *
  omega

theorem off_add (h : plan.off a + n.toNat ≤ plan.bufSize.toNat) :
    plan.off (a + n) = plan.off a + n.toNat := by
  have hblock := plan.block
  have ha := @toNat_off plan a (by omega)
  unfold Plan.off at *
  rw [BitVec.toNat_sub, BitVec.toNat_add]
  omega

/-- **What a get finds** is a place for its bytes. -/
theorem getIPBufLen_room {p : Port} (hc : Const plan p) (hread : p.read.toNat ≤ plan.bufSize.toNat)
    (hwrite : p.write.toNat ≤ plan.bufSize.toNat) (hpos : r ≠ 0) (hr : r.toNat ≤ plan.bufSize.toNat)
    (h : (p.getIPBufLen plan.cfg r).reqAddr ≠ 0) :
    ∃ o, (p.getIPBufLen plan.cfg r).reqAddr.toNat = plan.phyAddr.toNat + o ∧
      Room plan.bufSize.toNat p.read.toNat p.write.toNat o r.toNat := by
  have hblock := plan.block
  have hgap := plan.gap_pos
  rw [BitVec.lt_def] at hgap
  have hzero : (0 : BitVec 32).toNat = 0 := rfl
  have haddr : (p.phyAddr + p.write).toNat = plan.phyAddr.toNat + p.write.toNat := by
    rw [hc.phyAddr, BitVec.toNat_add]
    omega
  have hsize := congrArg BitVec.toNat hc.bufSize
  have hphy := congrArg BitVec.toNat hc.phyAddr
  have hrpos : 0 < r.toNat := by
    rw [Nat.pos_iff_ne_zero]
    exact fun hz => hpos (BitVec.eq_of_toNat_eq hz)
  have hempty : p.read = 0 → p.read.toNat = 0 := fun hz => by rw [hz]; rfl
  unfold Port.getIPBufLen at h ⊢
  dsimp only at h ⊢
  -- behind the data, in front of it, or anywhere where there is none
  split_ifs at h ⊢ with h1 h2 h3 h4 h5 h6 h7 h8 h9 h10 h11
  all_goals
    simp only [BitVec.lt_def, BitVec.le_def, ge_iff_le, gt_iff_lt, BitVec.toNat_sub, hzero] at *
    first
    | exact absurd rfl h
    | (refine ⟨p.write.toNat, haddr, ?_⟩; unfold Room; omega)
    | (refine ⟨0, hphy, ?_⟩; unfold Room; omega)
    | (have hread0 := hempty (by assumption); refine ⟨0, hphy, ?_⟩; unfold Room; omega)

/-- No two descriptors in a row are empty. -/
def Alternates (plan : Plan) (ds : List Desc) : Prop := (ds.map plan.piece).IsChain (fun x y => x.2 = 0 → 0 < y.2)

/-- The last of the descriptors is not the empty one. -/
def LastPos (ds : List Desc) : Prop := ∀ d, ds.getLast? = some d → 0 < d.2.toNat

/-- **The bytes that are published.** `Read` is the place of the descriptor before `k`. -/
structure Bytes (plan : Plan) (ds : List Desc) (base k read write front : Nat) : Prop where
  base_le : base ≤ k
  held : Held plan.bufSize.toNat read write front ((ds.drop k).map plan.piece)
  last : k = base ∨ base < k ∧ ∃ d, ds[k - 1]? = some d ∧ read = plan.off d.1
  alternates : Alternates plan (ds.drop base)
  apart : read = write → write = 0

section Bytes

variable {ds : List Desc} {base k read write front : Nat}

theorem Bytes.start (plan : Plan) (ds : List Desc) : Bytes plan ds ds.length ds.length 0 0 0 := by
  refine ⟨Nat.le_refl _, ?_, Or.inl rfl, ?_, fun _ => rfl⟩
  · rw [List.drop_length]
    exact Held.empty _
  · rw [List.drop_length]
    exact .nil

theorem Bytes.begin {o n a d : Nat} (h : Bytes plan ds base k read write write)
    (hr : Room plan.bufSize.toNat read write o n) (ha : o ≤ a) (hd : a + d ≤ o + n) (hpos : 0 < d) :
    Bytes plan ds base k read (a + d) a := by
  refine ⟨h.base_le, h.held.begin hr ha hd, h.last, h.alternates, ?_⟩
  rcases hr with ⟨hle, hwo, -⟩ | ⟨hlt, -, -⟩ <;> omega

/-- It publishes a descriptor. -/
theorem Bytes.publish {l : BitVec 32} (h : Bytes plan ds base k read write (plan.off a)) (hk : k ≤ ds.length)
    (hl : plan.off a + l.toNat ≤ write) (hpos : 0 < l.toNat ∨ LastPos (ds.drop base)) :
    Bytes plan (ds ++ [(a, l)]) base k read write (plan.off a + l.toNat) := by
  have hbase := h.base_le
  refine ⟨hbase, ?_, ?_, ?_, h.apart⟩
  · rw [List.drop_append_of_le_length hk, List.map_append]
    exact h.held.push hl
  · refine h.last.imp_right (fun ⟨hlt, d, hd, hread⟩ => ⟨hlt, d, ?_, hread⟩)
    rw [List.getElem?_append_left (by omega)]
    exact hd
  · unfold Alternates
    rw [List.drop_append_of_le_length (by omega), List.map_append]
    refine List.isChain_append.mpr ⟨h.alternates, .singleton _, ?_⟩
    intro x hx y hy hzero
    obtain rfl := Option.some.inj hy
    rcases hpos with hpos | hlast
    · exact hpos
    · rw [List.getLast?_map] at hx
      obtain ⟨d, hd, rfl⟩ := Option.map_eq_some_iff.mp hx
      exact absurd hzero (Nat.pos_iff_ne_zero.mp (hlast d hd))

/-- The descriptors behind `k`, up to the one that was finished last and behind it. -/
theorem drop_split (hd : ds[j]? = some d) (hk : k ≤ j) :
    ∃ qs, ds.drop k = qs ++ d :: ds.drop (j + 1) := by
  obtain ⟨hlt, rfl⟩ := List.getElem?_eq_some_iff.mp hd
  refine ⟨(ds.drop k).take (j - k), ?_⟩
  have hget : ds.drop j = ds[j] :: ds.drop (j + 1) := List.drop_eq_getElem_cons hlt
  rw [← hget]
  have hsplit := (List.take_append_drop (j - k) (ds.drop k)).symm
  rwa [List.drop_drop, Nat.add_sub_cancel' hk] at hsplit

/-- **The handler moves `Read`** to the descriptor that was finished last. -/
theorem Bytes.move {d : Desc} {j : Nat} (h : Bytes plan ds base k read write front) (hd : ds[j]? = some d)
    (hk : k ≤ j) (hne : plan.off d.1 ≠ write) :
    Bytes plan ds base (j + 1) (plan.off d.1) write front ∧ Moves plan.bufSize.toNat read write (plan.off d.1) := by
  obtain ⟨qs, hqs⟩ := drop_split hd hk
  have hheld := h.held
  have hbase := h.base_le
  rw [hqs, List.map_append, List.map_cons] at hheld
  obtain ⟨hmoved, hmoves⟩ := hheld.move
  refine ⟨⟨by omega, hmoved, Or.inr ⟨by omega, d, ?_, rfl⟩, h.alternates, fun heq => absurd heq hne⟩, hmoves⟩
  rw [Nat.add_sub_cancel]
  exact hd

/-- **The handler resets.** Then nothing is in use, and the last descriptor is an empty one. -/
theorem Bytes.done (h : Bytes plan ds base k read write front) (hd : ds[j]? = some d)
    (hk : k ≤ j) (heq : plan.off d.1 = write) : ds.drop (j + 1) = [] ∧ d.2.toNat = 0 ∧ front = write := by
  obtain ⟨qs, hqs⟩ := drop_split hd hk
  have hheld := h.held
  rw [hqs, List.map_append, List.map_cons] at hheld
  have halt : ((ds.drop k).map plan.piece).IsChain (fun x y => x.2 = 0 → 0 < y.2) := by
    have hdrop := List.IsChain.drop h.alternates (k - base)
    rwa [← List.map_drop, List.drop_drop, Nat.add_sub_cancel' h.base_le] at hdrop
  rw [hqs, List.map_append, List.map_cons] at halt
  obtain ⟨hnil, hzero, hfront⟩ := hheld.eq_nil_of_end halt heq
  exact ⟨List.map_eq_nil_iff.mp hnil, hzero, hfront⟩

end Bytes

/-! ## The invariant -/

/-- How many descriptors the rest of a put takes. -/
def need (max len : Nat) : Nat := (len + max - 1) / max + 1

/-- The bytes at an address are a place for `n` bytes. -/
def Free (plan : Plan) (p : Port) (a n : BitVec 32) : Prop :=
  ∃ o, a.toNat = plan.phyAddr.toNat + o ∧ Room plan.bufSize.toNat p.read.toNat p.write.toNat o n.toNat

/-- There are descriptors for `n` bytes. -/
def Few (plan : Plan) (ds : List Desc) (finished : Nat) (n : BitVec 32) : Prop :=
  n.toNat / plan.cfg.maxIpBlockSize.toNat + 2 + (ds.length - finished) < plan.descDepth.toNat

/-- How far the put in progress has come. -/
def front (plan : Plan) (prod : Prod) (write : BitVec 32) : Nat :=
  match prod with
  | .putDesc addr .. => plan.off addr
  | _ => write.toNat

/-- What the handler asks for. -/
def IsrFit (plan : Plan) (isr : Isr) (waitLen : BitVec 32) : Prop :=
  waitLen.toNat ≤ plan.bufSize.toNat ∧
  match isr with
  | .arg => waitLen ≠ 0
  | .lock len => len ≠ 0 ∧ len.toNat ≤ plan.bufSize.toNat
  | _ => True

/-- What the producer asks for and publishes. -/
def ProdFit (plan : Plan) (prod : Prod) (p : Port) (grant : Option Grant) (ds : List Desc)
    (base finished : Nat) : Prop :=
  match prod with
  | .ready => True
  | .getDesc r _ | .getTest r _ | .getBusy r | .getArm r | .getWait r | .getWoken r => r.toNat ≤ plan.bufSize.toNat
  | .getLock r _ => r.toNat ≤ plan.bufSize.toNat ∧ Few plan ds finished r
  | .getRead _ => p.reqAddr ≠ 0
  | .putZero .. => grant ≠ none
  | .putBound d _ | .putLock d _ => d ≠ 0 ∧ grant ≠ none
  | .putDesc addr len .. =>
    p.reqAddr = 0 ∧ plan.off addr + len.toNat = p.write.toNat ∧ (0 < len.toNat ∨ LastPos (ds.drop base)) ∧
      need plan.cfg.maxIpBlockSize.toNat len.toNat + (ds.length - finished) < plan.descDepth.toNat

/-- The put is in its loop. -/
def Puts : Prod → Prop
  | .putDesc .. => True
  | _ => False

/-- The port, and what the hardware has still to read. -/
structure Core (plan : Plan) (p : Port) (ds : List Desc) (base finished front : Nat) : Prop where
  const : Const plan p
  table : Table plan.descDepth.toNat ds finished p.descWrite p.descCurr p.desc
  bytes : ∃ k, k ≤ finished ∧ Bytes plan ds base k p.read.toNat p.write.toNat front
  pair : p.reqAddr ≠ 0 → Free plan p p.reqAddr p.reqLen ∧ Few plan ds finished p.reqLen

structure Inv (plan : Plan) (s : Sys) : Prop where
  ram : RamPort.Inv plan.cfg s.drv
  core : Core plan s.drv.port s.published s.base s.finished (front plan s.drv.prod s.drv.port.write)
  grant : ∀ g, s.drv.grant = some g → ¬ Puts s.drv.prod → Free plan s.drv.port g.1 g.2
  prod : ProdFit plan s.drv.prod s.drv.port s.drv.grant s.published s.base s.finished
  isr : IsrFit plan s.drv.isr s.drv.port.waitLen

/-- The steps under which the handler's `Read` is right: those of `RamPort.Calm`, where a put has a grant, the handler
    does not look at the descriptors before one is finished that was published since it set `Read` to 0, and it computes
    a grant only while no put is in progress and there are descriptors for it. -/
def Calm (cfg : RamPort.Config) (s : Sys) : Input → Prop
  | .get r t => RamPort.Calm cfg s.drv (.get r t)
  | .put d st => RamPort.Calm cfg s.drv (.put d st) ∧ s.drv.grant ≠ none
  | .prod timedOut => RamPort.Calm cfg s.drv (.prod s.descRead timedOut)
  | .irq =>
    RamPort.Calm cfg s.drv (.irq s.descRead) ∧
    match s.drv.isr with
    | .idle => s.drv.port.write ≠ 0 → s.base < s.finished
    | .lock len => ¬ Puts s.drv.prod ∧ s.drv.port.noFreeDesc cfg len s.descRead = false
    | _ => True
  | .finish | .raise => True

section Steps

variable {s t : Sys} {fs : List Event} {u : RamPort.Sys}

theorem front_of_not_puts (h : ¬ Puts prod) : front plan prod w = w.toNat := by
  cases prod <;> first | rfl | exact absurd trivial h

theorem Free.ne_zero {p : Port} (h : Free plan p a n) : a ≠ 0 := by
  obtain ⟨o, ha, -⟩ := h
  have hpos := plan.phyAddr_pos
  rw [BitVec.lt_def] at hpos
  rintro rfl
  have hzero : (0 : BitVec 32).toNat = 0 := rfl
  omega

theorem two_add_lt (h : r.toNat ≤ plan.bufSize.toNat) : r.toNat + 2 < 0x100000000 := by
  have hblock := plan.block
  omega

theorem Core.few (h : Core plan s.drv.port s.published s.base s.finished f)
    (hr : r.toNat ≤ plan.bufSize.toNat) (hfree : s.drv.port.noFreeDesc plan.cfg r s.descRead = false) :
    Few plan s.published s.finished r := by
  have htable := h.table
  unfold Few
  unfold Sys.descRead at hfree
  rw [← h.const.descDepth] at htable ⊢
  exact noFreeDesc_few htable (two_add_lt hr) hfree

/-- A check of the buffer gives a grant that fits. -/
theorem Core.check {p : Port} {ds : List Desc} {base finished : Nat}
    (h : Core plan p ds base finished f) (hpos : r ≠ 0) (hr : r.toNat ≤ plan.bufSize.toNat)
    (hfew : Few plan ds finished r) : Core plan (p.getIPBufLen plan.cfg r) ds base finished f := by
  obtain ⟨k, hk, hbytes⟩ := h.bytes
  refine ⟨⟨h.const.phyAddr, h.const.bufSize, h.const.descDepth⟩, h.table, ⟨k, hk, hbytes⟩, fun ha => ?_⟩
  have hroom := getIPBufLen_room h.const hbytes.held.read_le hbytes.held.write_le hpos hr ha
  rw [getIPBufLen_reqLen plan.cfg p r ha]
  exact ⟨hroom, hfew⟩

/-- The producer goes on, and only `WaitLen` and `WakeUp` change. -/
theorem Inv.goOn (h : Inv plan s) (hs : ¬ Puts s.drv.prod) (hu : ¬ Puts u.prod)
    (hram : RamPort.Inv plan.cfg u) (hport : u.port = { s.drv.port with waitLen := w, wakeUp := wakeUp })
    (hisr : IsrFit plan u.isr w) (hgrant : u.grant = s.drv.grant)
    (hfit : ProdFit plan u.prod u.port u.grant s.published s.base s.finished) : Inv plan { s with drv := u } := by
  have hcore := h.core
  rw [front_of_not_puts hs] at hcore
  have hconst : Const plan u.port := by
    rw [hport]
    exact ⟨hcore.const.phyAddr, hcore.const.bufSize, hcore.const.descDepth⟩
  refine ⟨hram, ⟨hconst, ?_, ?_, ?_⟩, ?_, hfit, ?_⟩
  · rw [hport]
    exact hcore.table
  · rw [front_of_not_puts hu, hport]
    exact hcore.bytes
  · rw [hport]
    exact hcore.pair
  · intro g hg _
    rw [hport]
    exact h.grant g (hgrant ▸ hg) hs
  · rw [hport]
    exact hisr

theorem Few.finish {ds : List Desc} {finished : Nat} (h : Few plan ds finished n) :
    Few plan ds (finished + 1) n := by
  unfold Few at *
  omega

theorem Inv.finish (h : Inv plan s) (hlt : s.finished < s.published.length) :
    Inv plan { s with finished := s.finished + 1 } := by
  have hfit := h.prod
  obtain ⟨k, hk, hbytes⟩ := h.core.bytes
  refine ⟨h.ram, ⟨h.core.const, h.core.table.finish hlt, ⟨k, Nat.le_succ_of_le hk, hbytes⟩, ?_⟩, h.grant, ?_, h.isr⟩
  · intro ha
    exact ⟨(h.core.pair ha).1, (h.core.pair ha).2.finish⟩
  · unfold ProdFit at hfit ⊢
    cases hs : s.drv.prod <;> simp only [hs] at hfit ⊢ <;> try exact hfit
    case getLock => exact ⟨hfit.1, hfit.2.finish⟩
    case putDesc =>
      obtain ⟨ha, hw, hpos, hneed⟩ := hfit
      exact ⟨ha, hw, hpos, by omega⟩

/-! ### The handler -/

/-- What the handler's section does. -/
theorem isrRead_cases {p : Port} {descRead : BitVec 32} (hw : p.write ≠ 0)
    (ha : a = (p.desc (if descRead = 0 then p.descDepth - 1 else descRead - 1).toNat).1 - p.phyAddr) :
    a = p.write ∧ p.isrRead descRead = { p with read := 0, write := 0 } ∨
      a ≠ p.write ∧ p.isrRead descRead = { p with read := a } := by
  unfold Port.isrRead
  dsimp only
  rw [if_pos hw, ← ha]
  by_cases heq : a = p.write
  · rw [if_pos heq]
    exact Or.inl ⟨heq, rfl⟩
  · rw [if_neg heq]
    exact Or.inr ⟨heq, rfl⟩

/-- **The handler's `Read` is right**: nothing changes, `Read` moves to the descriptor that was finished last, or
    everything was read and no put is in progress. -/
theorem Inv.isrRead (h : Inv plan s) (hnew : s.drv.port.write ≠ 0 → s.base < s.finished) :
    s.drv.port.isrRead s.descRead = s.drv.port ∧ s.drv.port.write = 0 ∨
    (∃ a k, s.drv.port.isrRead s.descRead = { s.drv.port with read := a } ∧ s.drv.port.write ≠ 0 ∧
      a ≠ s.drv.port.write ∧
      k ≤ s.finished ∧ Bytes plan s.published s.base k a.toNat s.drv.port.write.toNat
        (front plan s.drv.prod s.drv.port.write) ∧
      Moves plan.bufSize.toNat s.drv.port.read.toNat s.drv.port.write.toNat a.toNat) ∨
    s.drv.port.isrRead s.descRead = { s.drv.port with read := 0, write := 0 } ∧ s.drv.port.write ≠ 0 ∧
      s.finished = s.published.length ∧ ¬ Puts s.drv.prod := by
  have hconst := h.core.const
  have htable := h.core.table
  obtain ⟨k, hk, hbytes⟩ := h.core.bytes
  by_cases hw : s.drv.port.write = 0
  · refine Or.inl ⟨?_, hw⟩
    unfold Port.isrRead
    rw [if_neg (not_not.mpr hw)]
  · have hbase := hnew hw
    have hle := htable.finished_le
    obtain ⟨d, hd⟩ : ∃ d, s.published[s.finished - 1]? = some d := ⟨_, List.getElem?_eq_getElem (by omega)⟩
    rw [← hconst.descDepth] at htable
    have hslot := isr_slot htable hd (by omega)
    have hplace : d.1 - plan.phyAddr = (s.drv.port.desc (if s.descRead = 0 then s.drv.port.descDepth - 1
        else s.descRead - 1).toNat).1 - s.drv.port.phyAddr := by
      unfold Sys.descRead
      rw [hslot, hconst.phyAddr]
    -- it was there before, or it is behind
    rcases Nat.lt_or_ge k s.finished with hlt | hge
    · rcases isrRead_cases hw hplace with ⟨heq, hread⟩ | ⟨hne, hread⟩
      · right; right
        obtain ⟨hnil, hzero, hfront⟩ := hbytes.done hd (by omega) (congrArg BitVec.toNat heq)
        rw [Nat.sub_add_cancel (by omega), List.drop_eq_nil_iff] at hnil
        refine ⟨hread, hw, by omega, fun hputs => ?_⟩
        -- a put in progress has still something to publish behind the last descriptor, which is not empty
        have hfit := h.prod
        unfold ProdFit at hfit
        cases hs : s.drv.prod <;> simp only [hs, Puts] at hputs
        simp only [hs] at hfit
        simp only [hs, front] at hfront
        obtain ⟨-, hend, hpos, -⟩ := hfit
        have hlast := hpos.resolve_left (by omega) d
        rw [List.getLast?_eq_getElem?, List.getElem?_drop, List.length_drop] at hlast
        have hindex : s.base + (s.published.length - s.base - 1) = s.finished - 1 := by omega
        rw [hindex] at hlast
        have := hlast hd
        omega
      · right; left
        have hne' : plan.off d.1 ≠ s.drv.port.write.toNat := fun heq => hne (BitVec.eq_of_toNat_eq heq)
        obtain ⟨hmoved, hmoves⟩ := hbytes.move hd (by omega) hne'
        rw [Nat.sub_add_cancel (by omega)] at hmoved
        exact ⟨_, _, hread, hw, hne, Nat.le_refl _, hmoved, hmoves⟩
    · obtain rfl : k = s.finished := by omega
      obtain ⟨-, e, he, heread⟩ := hbytes.last.resolve_left (by omega)
      obtain rfl := Option.some.inj (hd.symm.trans he)
      have hsame : d.1 - plan.phyAddr = s.drv.port.read := BitVec.eq_of_toNat_eq heread.symm
      rcases isrRead_cases hw hplace with ⟨heq, hread⟩ | ⟨hne, hread⟩
      · have hzero := hbytes.apart (congrArg BitVec.toNat (hsame.symm.trans heq))
        exact absurd (BitVec.eq_of_toNat_eq hzero) hw
      · right; left
        refine ⟨_, _, hread, hw, hne, Nat.le_refl _, ?_, ?_⟩
        · rw [hsame]
          exact hbytes
        · rw [hsame]
          exact Or.inl ⟨Nat.le_refl _, hbytes.held.read_le, fun hle => hle⟩

theorem Free.moved {p q : Port} {a n : BitVec 32} (h : Free plan p a n)
    (hm : Moves plan.bufSize.toNat p.read.toNat p.write.toNat q.read.toNat) (hw : q.write = p.write) :
    Free plan q a n := by
  obtain ⟨o, ha, hroom⟩ := h
  refine ⟨o, ha, ?_⟩
  rw [hw]
  exact hroom.moved hm

theorem Free.reset {p q : Port} {a n : BitVec 32} (h : Free plan p a n) (hr : q.read = 0) (hw : q.write = 0) :
    Free plan q a n := by
  obtain ⟨o, ha, hroom⟩ := h
  refine ⟨o, ha, ?_⟩
  rw [hr, hw]
  exact hroom.reset

theorem IsrFit.change {isr' : Isr} (h : IsrFit plan isr w) (ha : isr' ≠ .arg)
    (hl : ∀ len, isr' ≠ .lock len) : IsrFit plan isr' w := by
  refine ⟨h.1, ?_⟩
  cases isr' <;> first | trivial | exact absurd rfl ha | exact absurd rfl (hl _)

/-- The handler's section under `LockRamPort`. -/
theorem Inv.irqIdle {p : Bool} (h : Inv plan s) (hi : s.drv.isr = .idle)
    (hram : RamPort.Inv plan.cfg { s.drv with port := s.drv.port.isrRead s.descRead, isr := .check })
    (hnew : s.drv.port.write ≠ 0 → s.base < s.finished) :
    Inv plan { s with
      drv := { s.drv with port := s.drv.port.isrRead s.descRead, isr := .check }
      pending := p
      base := if s.resets then s.published.length else s.base } := by
  have hisr : ∀ w, IsrFit plan s.drv.isr w → IsrFit plan .check w :=
    fun w hw => hw.change Isr.noConfusion (fun _ => Isr.noConfusion)
  have hconst := h.core.const
  have hfit := h.prod
  rcases h.isrRead hnew with ⟨hread, hw⟩ | ⟨a, k, hread, hw, -, hk, hbytes, hmoves⟩ | ⟨hread, hw, hend, hputs⟩
  · have hresets : s.resets = false := by simp [Sys.resets, hw]
    simp only [hread, hresets] at hram ⊢
    exact ⟨hram, h.core, h.grant, hfit, hisr _ h.isr⟩
  · have hresets : s.resets = false := by simp [Sys.resets, hread]
    simp only [hread, hresets] at hram ⊢
    refine ⟨hram, ⟨⟨hconst.phyAddr, hconst.bufSize, hconst.descDepth⟩, h.core.table, ⟨k, hk, hbytes⟩, ?_⟩, ?_, hfit,
      hisr _ h.isr⟩
    · intro ha
      exact ⟨(h.core.pair ha).1.moved hmoves rfl, (h.core.pair ha).2⟩
    · intro g hg hp
      exact (h.grant g hg hp).moved hmoves rfl
  · have hresets : s.resets = true := by
      simp [Sys.resets, hread, hi]
      exact hw
    simp only [hread, hresets, if_true] at hram ⊢
    refine ⟨hram, ⟨⟨hconst.phyAddr, hconst.bufSize, hconst.descDepth⟩, h.core.table, ?_, ?_⟩, ?_, ?_, hisr _ h.isr⟩
    · rw [front_of_not_puts hputs]
      exact ⟨s.published.length, Nat.le_of_eq hend.symm, Bytes.start plan s.published⟩
    · intro ha
      exact ⟨(h.core.pair ha).1.reset rfl rfl, (h.core.pair ha).2⟩
    · intro g hg hp
      exact (h.grant g hg hp).reset rfl rfl
    · unfold ProdFit at hfit ⊢
      cases hs : s.drv.prod <;> simp only [hs] at hfit ⊢ <;> try exact hfit
      rw [hs] at hputs
      exact absurd trivial hputs

/-- The handler goes on, and only `WaitLen` and `WakeUp` change. -/
theorem Inv.irqOn (h : Inv plan s)
    (hram : RamPort.Inv plan.cfg { s.drv with port := { s.drv.port with waitLen := w, wakeUp := wakeUp }, isr := isr })
    (hisr : IsrFit plan isr w) :
    Inv plan { s with
      drv := { s.drv with port := { s.drv.port with waitLen := w, wakeUp := wakeUp }, isr := isr }
      pending := pending } := by
  have hconst := h.core.const
  refine ⟨hram, ⟨⟨hconst.phyAddr, hconst.bufSize, hconst.descDepth⟩, h.core.table, h.core.bytes,
    h.core.pair⟩, h.grant, ?_,
    hisr⟩
  have hfit := h.prod
  unfold ProdFit at hfit ⊢
  cases hs : s.drv.prod <;> simp only [hs] at hfit ⊢ <;> exact hfit

/-- The handler computes a grant. -/
theorem Inv.irqLock (h : Inv plan s) (hi : s.drv.isr = .lock len)
    (hram : RamPort.Inv plan.cfg { s.drv with port := s.drv.port.getIPBufLen plan.cfg len, isr := .test len })
    (hgranted : ¬ s.drv.Granted) (hputs : ¬ Puts s.drv.prod)
    (hfree : s.drv.port.noFreeDesc plan.cfg len s.descRead = false) :
    Inv plan { s with
      drv := { s.drv with port := s.drv.port.getIPBufLen plan.cfg len, isr := .test len }
      pending := pending } := by
  have hisr := h.isr
  unfold IsrFit at hisr
  simp only [hi] at hisr
  have hfew := h.core.few hisr.2.2 hfree
  refine ⟨hram, h.core.check hisr.2.1 hisr.2.2 hfew, h.grant, ?_, hisr.1, trivial⟩
  have hfit := h.prod
  unfold ProdFit at hfit ⊢
  unfold Sys.Granted at hgranted
  cases hs : s.drv.prod <;> simp only [hs] at hfit hgranted ⊢ <;> try exact hfit
  case getRead => exact absurd trivial hgranted
  case putDesc =>
    rw [hs] at hputs
    exact absurd trivial hputs

theorem Inv.irq (h : Inv plan s) (hc : Calm plan.cfg s .irq) : Inv plan (irqNext plan.cfg s) := by
  have hram := h.ram.irq hc.1
  have hcalm := hc.1
  have hmore := hc.2
  have hisr := h.isr
  have hkeep : s.drv.isr ≠ .idle → s.resets = false := fun hi => by simp [Sys.resets, hi]
  unfold irqNext
  generalize (if s.drv.isr = .check then false else s.pending) = pending
  unfold RamPort.irqNext at hram ⊢
  cases hi : s.drv.isr <;> simp only [hi] at hram hmore ⊢
  case idle => exact h.irqIdle hi hram hmore
  all_goals
    rw [hkeep (by rw [hi]; exact Isr.noConfusion)]
    simp only [Bool.false_eq_true, if_false]
  case check =>
    split_ifs at hram ⊢ with hw
    · exact h.irqOn hram (hisr.change Isr.noConfusion (fun _ => Isr.noConfusion))
    · exact h.irqOn hram ⟨hisr.1, hw⟩
  case arg =>
    rw [hi] at hisr
    split_ifs at hram ⊢ with hw
    · exact h.irqOn hram (hisr.change Isr.noConfusion (fun _ => Isr.noConfusion))
    · exact h.irqOn hram ⟨hisr.1, hisr.2, hisr.1⟩
  case lock len =>
    simp only [RamPort.Calm, hi] at hcalm
    exact h.irqLock hi hram hcalm.1 hmore.1 hmore.2
  case test len =>
    split_ifs at hram ⊢
    · exact h.irqOn hram (hisr.change Isr.noConfusion (fun _ => Isr.noConfusion))
    · exact h.irqOn hram (hisr.change Isr.noConfusion (fun _ => Isr.noConfusion))
  case wake len =>
    exact h.irqOn hram (hisr.change Isr.noConfusion (fun _ => Isr.noConfusion))
  case clear =>
    exact h.irqOn hram ⟨Nat.zero_le _, trivial⟩

/-! ### The producer -/

theorem Inv.busy {r timeout : BitVec 32} (h : Inv plan s) (hs : ¬ Puts s.drv.prod) (hr : r.toNat ≤ plan.bufSize.toNat)
    (hram : RamPort.Inv plan.cfg u) (hn : some (busy s.drv r timeout) = some (u, fs)) :
    Inv plan { s with drv := u } := by
  unfold RamPort.busy at hn
  split_ifs at hn <;> cases hn
  · exact h.goOn hs not_false hram rfl h.isr rfl trivial
  · exact h.goOn hs not_false hram rfl h.isr rfl hr

/-- The get computes its grant. -/
theorem Inv.getLock {timeout : BitVec 32} (h : Inv plan s) (hs : s.drv.prod = .getLock r timeout)
    (hram : RamPort.Inv plan.cfg { s.drv with port := s.drv.port.getIPBufLen plan.cfg r, prod := .getTest r timeout })
    (hpos : r ≠ 0) :
    Inv plan
      { s with drv := { s.drv with port := s.drv.port.getIPBufLen plan.cfg r, prod := .getTest r timeout } } := by
  have hfit := h.prod
  have hcore := h.core
  have hputs : ¬ Puts s.drv.prod := by rw [hs]; exact not_false
  rw [hs] at hfit
  rw [front_of_not_puts hputs] at hcore
  exact ⟨hram, hcore.check hpos hfit.1 hfit.2, fun g hg _ => h.grant g hg hputs, hfit.1, h.isr⟩

/-- The get returns its grant. -/
theorem Inv.getRead (h : Inv plan s) (hs : s.drv.prod = .getRead r)
    (hram : RamPort.Inv plan.cfg { s.drv with prod := .ready, grant := some (s.drv.port.reqAddr, r) })
    (hlen : s.drv.port.reqLen = r) :
    Inv plan { s with drv := { s.drv with prod := .ready, grant := some (s.drv.port.reqAddr, r) } } := by
  have hfit := h.prod
  have hcore := h.core
  rw [hs] at hfit
  rw [front_of_not_puts (by rw [hs]; exact not_false)] at hcore
  refine ⟨hram, hcore, fun g hg _ => ?_, trivial, h.isr⟩
  obtain rfl := Option.some.inj hg
  rw [← hlen]
  exact (hcore.pair hfit).1

theorem need_le {max d n : Nat} (hmax : 0 < max) (hd : d ≤ n) : need max d ≤ n / max + 2 := by
  unfold need
  have hle : (d + max - 1) / max ≤ (n + max) / max := Nat.div_le_div_right (by omega)
  rw [Nat.add_div_right n hmax] at hle
  omega

/-- **The put takes its grant.** -/
theorem Inv.putLock {d : BitVec 32} (h : Inv plan s) (hs : s.drv.prod = .putLock d st)
    (hram : RamPort.Inv plan.cfg { s.drv with
      port := { s.drv.port with write := s.drv.port.reqAddr - s.drv.port.phyAddr + d + st, reqLen := 0, reqAddr := 0 }
      prod := .putDesc (s.drv.port.reqAddr + st) d d st [] }) :
    Inv plan { s with
      drv := { s.drv with
        port := { s.drv.port with write := s.drv.port.reqAddr - s.drv.port.phyAddr + d + st, reqLen := 0, reqAddr := 0 }
        prod := .putDesc (s.drv.port.reqAddr + st) d d st [] } } := by
  have hfit := h.prod
  have hcore := h.core
  have hok := h.ram.prod
  have hputs : ¬ Puts s.drv.prod := by rw [hs]; exact not_false
  rw [hs] at hfit
  rw [front_of_not_puts hputs] at hcore
  simp only [ProdOk, hs] at hok
  obtain ⟨g, hg⟩ := Option.ne_none_iff_exists'.mp hfit.2
  obtain ⟨haddr, hlen, -⟩ := hok.1 g hg
  have hbound := hok.2 g hg
  have hfree := h.grant g hg hputs
  obtain ⟨o, ho, hroom⟩ := hfree
  have hne : s.drv.port.reqAddr ≠ 0 := by
    rw [haddr]
    exact Free.ne_zero ⟨o, ho, hroom⟩
  have hfew := (hcore.pair hne).2
  have hin := hroom.inside
  have hblock := plan.block
  have hdpos : 0 < d.toNat := Nat.pos_iff_ne_zero.mpr (fun hz => hfit.1 (BitVec.eq_of_toNat_eq hz))
  have hphy := hcore.const.phyAddr
  -- where the bytes begin, and where they end
  have hoff : plan.off (s.drv.port.reqAddr + st) = o + st.toNat := by
    unfold Plan.off
    rw [haddr, BitVec.toNat_sub, BitVec.toNat_add]
    omega
  have hwrite : (s.drv.port.reqAddr - s.drv.port.phyAddr + d + st).toNat = o + st.toNat + d.toNat := by
    rw [haddr, hphy, BitVec.toNat_add, BitVec.toNat_add, BitVec.toNat_sub]
    omega
  obtain ⟨k, hk, hbytes⟩ := hcore.bytes
  have hbegin := hbytes.begin hroom (Nat.le_add_right o st.toNat) (by omega) hdpos
  refine ⟨hram, ⟨⟨hphy, hcore.const.bufSize, hcore.const.descDepth⟩, hcore.table, ⟨k, hk, ?_⟩, fun ha => absurd rfl ha⟩,
    fun _ _ hp => absurd trivial hp, ⟨rfl, ?_, Or.inl hdpos, ?_⟩, h.isr⟩
  · dsimp only [front]
    rw [hwrite, hoff]
    exact hbegin
  · dsimp only
    rw [hwrite, hoff]
  · have hmax := plan.cfg.pos
    rw [BitVec.lt_def] at hmax
    have hneed : need plan.cfg.maxIpBlockSize.toNat d.toNat ≤ _ := @need_le _ d.toNat g.2.toNat hmax (by omega)
    unfold Few at hfew
    rw [hlen] at hfew
    dsimp only
    omega

theorem descAdd_rest (p : Port) (a l : BitVec 32) :
    ∃ w c d, p.descAdd a l = { p with descWrite := w, descCurr := c, desc := d } := by
  unfold Port.descAdd
  dsimp only
  split_ifs <;> exact ⟨_, _, _, rfl⟩

/-- The rest of a put takes one descriptor less. -/
theorem need_sub {max len : Nat} (hpos : 0 < max) (hlen : 0 < len) :
    need max len = need max (len - Nat.min max len) + 1 := by
  unfold need
  rcases Nat.le_total max len with hle | hle
  · have heq : len + max - 1 = len - max + max - 1 + max := by omega
    show _ = (len - min max len + max - 1) / max + 1 + 1
    rw [Nat.min_eq_left hle, heq, Nat.add_div_right _ hpos]
  · have hone : (len + max - 1) / max = 1 := Nat.div_eq_of_lt_le (by omega) (by omega)
    have hzero : (0 + max - 1) / max = 0 := Nat.div_eq_of_lt (by omega)
    show _ = (len - min max len + max - 1) / max + 1 + 1
    rw [Nat.min_eq_right hle, Nat.sub_self, hone, hzero]

theorem pieceLen_toNat (cfg : RamPort.Config) (len : BitVec 32) :
    (pieceLen cfg len).toNat = Nat.min cfg.maxIpBlockSize.toNat len.toNat := by
  unfold pieceLen
  show _ = min _ _
  split_ifs with hle
  · rw [ge_iff_le, BitVec.le_def] at hle
    rw [Nat.min_eq_left hle]
  · rw [ge_iff_le, BitVec.le_def] at hle
    rw [Nat.min_eq_right (by omega)]

/-- **The put publishes a descriptor.** -/
theorem Inv.putDesc {addr d : BitVec 32} {descs : List (BitVec 32 × BitVec 32)} (h : Inv plan s)
    (hs : s.drv.prod = .putDesc addr len d st descs) (hram : RamPort.Inv plan.cfg u)
    (hn : some (putRound plan.cfg s.drv addr len d st descs) = some (u, fs)) :
    Inv plan { s with drv := u, published := s.published ++ [(addr, pieceLen plan.cfg len)] } := by
  have hfit := h.prod
  have hcore := h.core
  rw [hs] at hfit hcore
  obtain ⟨hreq, hend, hpos, hneed⟩ := hfit
  obtain ⟨k, hk, hbytes⟩ := hcore.bytes
  have hconst := hcore.const
  have hle := hcore.table.finished_le
  have hmax := plan.cfg.pos
  rw [BitVec.lt_def] at hmax
  have hpiece := pieceLen_toNat plan.cfg len
  have hsmall : (pieceLen plan.cfg len).toNat ≤ len.toNat := by
    rw [hpiece]
    exact Nat.min_le_right _ _
  have hwrite := hbytes.held.write_le
  have hzero : pieceLen plan.cfg len = 0 → len.toNat = 0 := by
    intro hz
    rw [eq_zero_of_pieceLen hz]
    rfl
  have hnext : 0 < (pieceLen plan.cfg len).toNat ∨ LastPos (s.published.drop s.base) := by
    rcases hpos with hpos | hlast
    · refine Or.inl ?_
      rw [hpiece]
      exact Nat.lt_min.mpr ⟨hmax, hpos⟩
    · exact Or.inr hlast
  have htable := hcore.table
  rw [← hconst.descDepth] at htable hneed
  have hone : 1 ≤ need plan.cfg.maxIpBlockSize.toNat len.toNat := Nat.le_add_left _ _
  have hadd := htable.add addr (pieceLen plan.cfg len) (by omega)
  have hpublish := hbytes.publish (l := pieceLen plan.cfg len) (by omega) (by omega) hnext
  obtain ⟨w, c, m, hport⟩ := descAdd_rest s.drv.port addr (pieceLen plan.cfg len)
  rw [hport, hconst.descDepth] at hadd
  unfold putRound at hn
  dsimp only at hn
  rw [hport] at hn
  split_ifs at hn with hz <;> cases hn
  · -- the empty descriptor is the last one
    have hlen := hzero hz
    refine ⟨hram, ⟨⟨hconst.phyAddr, hconst.bufSize, hconst.descDepth⟩, hadd, ⟨k, hk, ?_⟩, fun ha =>
      absurd hreq ha⟩, ?_, trivial,
      h.isr⟩
    · have hfront : plan.off addr + (pieceLen plan.cfg len).toNat = s.drv.port.write.toNat := by omega
      rw [hfront] at hpublish
      exact hpublish
    · intro g hg
      cases hg
  · have hlenpos : 0 < (pieceLen plan.cfg len).toNat :=
      Nat.pos_iff_ne_zero.mpr (fun hzero => hz (BitVec.eq_of_toNat_eq hzero))
    have hoff : plan.off (addr + pieceLen plan.cfg len) = plan.off addr + (pieceLen plan.cfg len).toNat :=
      off_add (by omega)
    have hsub : (len - pieceLen plan.cfg len).toNat = len.toNat - (pieceLen plan.cfg len).toNat :=
      BitVec.toNat_sub_of_le (pieceLen_le plan.cfg len).2
    refine ⟨hram, ⟨⟨hconst.phyAddr, hconst.bufSize, hconst.descDepth⟩, hadd, ⟨k, hk, ?_⟩, fun ha => absurd hreq ha⟩,
      fun _ _ hp => absurd trivial hp, ⟨hreq, ?_, Or.inr ?_, ?_⟩, h.isr⟩
    · dsimp only [front]
      rw [hoff]
      exact hpublish
    · dsimp only
      rw [hoff, hsub]
      omega
    · intro e he
      have hbase := hbytes.base_le
      dsimp only at he
      rw [List.drop_append_of_le_length (by omega), List.getLast?_concat] at he
      obtain rfl := Option.some.inj he
      exact hlenpos
    · have hless := @need_sub plan.cfg.maxIpBlockSize.toNat len.toNat hmax (by omega)
      dsimp only
      rw [hsub, hpiece, List.length_append, List.length_singleton]
      rw [hconst.descDepth] at hneed
      omega

theorem publishes_of_not_puts {cfg : RamPort.Config} (h : ¬ Puts prod) : publishes cfg prod = [] := by
  cases prod <;> first | rfl | exact absurd trivial h

theorem Inv.prodNext {timedOut : Bool} (h : Inv plan s) (hram : RamPort.Inv plan.cfg u)
    (hn : prodNext plan.cfg s.drv s.descRead timedOut = some (u, fs)) :
    Inv plan { s with drv := u, published := s.published ++ publishes plan.cfg s.drv.prod } := by
  have hfit := h.prod
  have hok := h.ram.prod
  have hisr := h.isr
  have hcore := h.core
  unfold RamPort.prodNext at hn
  by_cases hputs : Puts s.drv.prod
  · cases hs : s.drv.prod <;> simp only [hs, Puts] at hputs
    simp only [hs] at hn
    exact h.putDesc hs hram hn
  rw [publishes_of_not_puts hputs, List.append_nil]
  cases hs : s.drv.prod <;> simp only [hs, ProdFit, ProdOk] at hfit hok hn
  case ready => cases hn
  case getDesc r timeout =>
    split_ifs at hn with hfree
    · exact h.busy hputs hfit hram hn
    · cases hn
      exact h.goOn hputs not_false hram rfl hisr rfl ⟨hfit, hcore.few hfit (Bool.eq_false_iff.mpr hfree)⟩
  case getLock r timeout =>
    cases hn
    exact h.getLock hs hram hok.1
  case getTest r timeout =>
    split_ifs at hn with ha
    · exact h.busy hputs hfit hram hn
    · cases hn
      exact h.goOn hputs not_false hram rfl hisr rfl ha
  case getBusy r =>
    cases hn
    exact h.goOn hputs not_false hram rfl hisr rfl hfit
  case getArm r =>
    cases hn
    refine h.goOn hputs not_false hram rfl ⟨hfit, ?_⟩ rfl hfit
    have hasks := hisr.2
    cases hi : s.drv.isr <;> simp only [hi] at hasks ⊢
    case arg => exact hok.1
    case lock len => exact hasks
  case getWait r =>
    split_ifs at hn <;> cases hn
    · exact h.goOn hputs not_false hram rfl hisr rfl hfit
    · exact h.goOn hputs not_false hram rfl hisr rfl trivial
  case getWoken r =>
    split_ifs at hn with ha <;> cases hn
    · exact h.goOn hputs not_false hram rfl hisr rfl trivial
    · exact h.goOn hputs not_false hram rfl hisr rfl ha
  case getRead r =>
    cases hn
    exact h.getRead hs hram hok.2
  case putZero d st =>
    split_ifs at hn with hz <;> cases hn
    · exact h.goOn hputs not_false hram rfl hisr rfl trivial
    · exact h.goOn hputs not_false hram rfl hisr rfl ⟨fun hd => hz (Or.inr hd), hfit⟩
  case putBound d st =>
    split_ifs at hn <;> cases hn
    · exact h.goOn hputs not_false hram rfl hisr rfl trivial
    · exact h.goOn hputs not_false hram rfl hisr rfl hfit
  case putLock d st =>
    cases hn
    exact h.putLock hs hram
  case putDesc =>
    rw [hs] at hputs
    exact absurd trivial hputs

theorem Inv.step {i : Input} (h : Inv plan s) (hc : Calm plan.cfg s i) (hn : step plan.cfg s i = some (t, fs)) :
    Inv plan t := by
  cases i with
  | get r timeout =>
    obtain ⟨⟨u, gs⟩, hu, heq⟩ := Option.map_eq_some_iff.mp hn
    obtain ⟨rfl, -⟩ := Prod.mk.inj heq
    have hram := (step_calm (i := .get r timeout) h.ram hc hu).inv
    simp only [RamPort.step] at hu
    split_ifs at hu with hs
    have hputs : ¬ Puts s.drv.prod := by rw [hs]; exact not_false
    unfold getBegin at hu
    split_ifs at hu with hbad <;> cases hu
    · exact h
    · rw [not_or, not_or, gt_iff_lt, BitVec.lt_def, h.core.const.bufSize] at hbad
      exact h.goOn hputs not_false hram rfl h.isr rfl (Nat.le_of_not_lt hbad.2.2)
  | put d st =>
    obtain ⟨⟨u, gs⟩, hu, heq⟩ := Option.map_eq_some_iff.mp hn
    obtain ⟨rfl, -⟩ := Prod.mk.inj heq
    have hram := (step_calm h.ram hc.1 hu).inv
    simp only [RamPort.step] at hu
    split_ifs at hu with hs
    have hputs : ¬ Puts s.drv.prod := by rw [hs]; exact not_false
    unfold putBegin at hu
    split_ifs at hu <;> cases hu
    · exact h
    · exact h.goOn hputs not_false hram rfl h.isr rfl hc.2
  | prod timedOut =>
    obtain ⟨⟨u, gs⟩, hu, heq⟩ := Option.map_eq_some_iff.mp hn
    obtain ⟨rfl, -⟩ := Prod.mk.inj heq
    exact h.prodNext (step_calm (i := .prod s.descRead timedOut) h.ram hc hu).inv hu
  | irq =>
    simp only [RamHw.step] at hn
    split_ifs at hn
    cases hn
    exact h.irq hc
  | finish =>
    simp only [RamHw.step] at hn
    split_ifs at hn with hlt
    cases hn
    exact h.finish hlt
  | raise =>
    simp only [RamHw.step] at hn
    split_ifs at hn
    cases hn
    exact ⟨h.ram, h.core, h.grant, h.prod, h.isr⟩

theorem init_inv (plan : Plan) : Inv plan (init plan) := by
  have hdepth := plan.descDepth_pos
  rw [BitVec.lt_def] at hdepth
  refine ⟨RamPort.init_inv _ _ _ _, ⟨⟨rfl, rfl, rfl⟩, ⟨Nat.le_refl _, ?_, ?_, ?_, ?_⟩, ⟨0, Nat.le_refl _, ?_⟩, ?_⟩, ?_,
    trivial, Nat.zero_le _, trivial⟩
  · exact Nat.lt_of_le_of_lt (Nat.zero_le _) (Nat.lt_of_lt_of_le hdepth (Nat.le_add_left _ _))
  · exact (Nat.zero_mod _).symm
  · exact (Nat.zero_mod _).symm
  · intro i d hd
    cases hd
  · exact Bytes.start plan []
  · intro ha
    exact absurd rfl ha
  · intro g hg
    cases hg

end Steps

/-! ## Runs -/

/-- **What is granted can be written.** A grant is inside the buffer, and apart from the bytes that the hardware has not
    read, until its put publishes it; the ring of descriptors is not full, and the two positions are in the buffer. -/
structure Safe (plan : Plan) (s : Sys) : Prop where
  inside : ∀ g, s.drv.grant = some g → ¬ Puts s.drv.prod →
    plan.phyAddr.toNat ≤ g.1.toNat ∧ g.1.toNat + g.2.toNat ≤ plan.phyAddr.toNat + plan.bufSize.toNat
  apart : ∀ g, s.drv.grant = some g → ¬ Puts s.drv.prod → ∀ d ∈ s.published.drop s.finished,
    d.1.toNat + d.2.toNat ≤ g.1.toNat ∨ g.1.toNat + g.2.toNat ≤ d.1.toNat
  ring : s.finished ≤ s.published.length ∧ s.published.length < s.finished + plan.descDepth.toNat
  read_le : s.drv.port.read ≤ plan.bufSize
  write_le : s.drv.port.write ≤ plan.bufSize

theorem Inv.safe {s : Sys} (h : Inv plan s) : Safe plan s := by
  obtain ⟨k, hk, hbytes⟩ := h.core.bytes
  have hheld := hbytes.held
  refine ⟨?_, ?_, ⟨h.core.table.finished_le, h.core.table.few⟩, hheld.read_le, hheld.write_le⟩
  · intro g hg hp
    obtain ⟨o, ho, hroom⟩ := h.grant g hg hp
    have hin := hroom.inside
    omega
  · intro g hg hp d hd
    obtain ⟨o, ho, hroom⟩ := h.grant g hg hp
    have hmem : plan.piece d ∈ (s.published.drop k).map plan.piece := by
      refine List.mem_map_of_mem ?_
      rw [← Nat.add_sub_cancel' hk, ← List.drop_drop] at hd
      exact List.mem_of_mem_drop hd
    have hend : plan.off d.1 ≤ plan.bufSize.toNat := by
      have hfront := hheld.front_le
      have hwrite := hheld.write_le
      rcases hheld.parts with ⟨-, hord⟩ | ⟨-, as, bs, heq, has, hbs⟩
      · have hle : plan.off d.1 + d.2.toNat ≤ _ := (hord.mem hmem).2
        omega
      · rw [heq] at hmem
        rcases List.mem_append.mp hmem with hmem | hmem
        · have hle : plan.off d.1 + d.2.toNat ≤ _ := (has.mem hmem).2
          omega
        · have hle : plan.off d.1 + d.2.toNat ≤ _ := (hbs.mem hmem).2
          omega
    have haddr := toNat_off hend
    have hsep : plan.off d.1 + d.2.toNat ≤ o ∨ o + g.2.toNat ≤ plan.off d.1 := hheld.apart hroom hmem
    omega

/-- **The grants of a calm run** are inside the buffer and apart from what the hardware has still to read, the ring of
    descriptors is not overrun, and `Read` and `Write` stay in the buffer. -/
theorem run_grants (plan : Plan) {is : List Input} {s : Sys} {es : List Event}
    (h : Run (step plan.cfg) (Calm plan.cfg) (init plan) is s es) : Safe plan s := by
  have hinv : Inv plan s := Run.inv (fun _ s => Inv plan s) (init_inv plan)
    (fun _ _ _ _ _ hpre hc hn => hpre.step hc hn) h
  exact hinv.safe

instance decidablePuts : (p : Prod) → Decidable (Puts p)
  | .putDesc .. => isTrue trivial
  | .ready | .getDesc .. | .getLock .. | .getTest .. | .getBusy _ | .getArm _ | .getWait _ => isFalse not_false
  | .getWoken _ | .getRead _ | .putZero .. | .putBound .. | .putLock .. => isFalse not_false

instance decidableCalm (cfg : RamPort.Config) (s : Sys) : (i : Input) → Decidable (Calm cfg s i)
  | .get r t => inferInstanceAs (Decidable (RamPort.Calm cfg s.drv (.get r t)))
  | .put d st => inferInstanceAs (Decidable (RamPort.Calm cfg s.drv (.put d st) ∧ s.drv.grant ≠ none))
  | .prod timedOut => inferInstanceAs (Decidable (RamPort.Calm cfg s.drv (.prod s.descRead timedOut)))
  | .irq => by
    unfold Calm
    dsimp only
    split <;> infer_instance
  | .finish | .raise => isTrue trivial

/-- A buffer of 4096 bytes at 0x1000, with 16 descriptors. -/
def smallPlan : Plan := ⟨smallCfg, 0x1000, 0x1000, 16, by decide, by decide, by decide, by decide⟩

/-- The same with 8 descriptors. -/
def tightPlan : Plan := ⟨smallCfg, 0x1000, 0x1000, 8, by decide, by decide, by decide, by decide⟩

/-- The producer goes on `n` times. -/
def prods (n : Nat) : List Input := List.replicate n (.prod false)

/-- A get and a put of `n` bytes; the put takes `k` descriptors. -/
def getPut (n : BitVec 32) (k : Nat) : List Input := [.get n 0] ++ prods 4 ++ [.put n 0] ++ prods (3 + k)

/-- Two puts, the second one after the hardware finished a part of the first, and a get that waits until the handler
    finds room in front of what is read. -/
def aheadRun : List Input :=
  getPut 0x800 5 ++ List.replicate 4 .finish ++ [.raise] ++ List.replicate 2 .irq ++ getPut 0x600 4 ++
    [.get 0x700 10] ++
    prods 5 ++ [.finish, .finish, .raise] ++ List.replicate 7 .irq ++ prods 3

/-- A grant at the start of the buffer, while the descriptors at its end are being read. -/
theorem run_grants_ahead :
    ∃ s es, Run (step smallPlan.cfg) (Calm smallPlan.cfg) (init smallPlan) aheadRun s es ∧
      .getRet .success (some (0x1000, 0x700)) ∈ es ∧ s.finished < s.published.length ∧ Safe smallPlan s := by
  refine exists_run_imp (fun s es => .getRet .success (some (0x1000, 0x700)) ∈ es ∧ s.finished < s.published.length)
    (by decide) fun _ _ hrun htest => ?_
  obtain ⟨hmem, hlt⟩ := htest
  exact ⟨hmem, hlt, run_grants smallPlan hrun⟩

/-- An interrupt that is handled after the reset of `Read`, for descriptors from before. -/
def lateRun : List Input :=
  getPut 0x800 5 ++ List.replicate 4 .finish ++ [.raise, .finish, .irq, .irq, .raise] ++
    getPut 0xc00 7 ++ [.irq, .irq] ++
    [.get 0x700 0] ++ prods 4

/-- The handler computes the address for the `WaitLen` of a get that timed out, and a longer get returns it. -/
def splitRun : List Input :=
  getPut 0xb00 7 ++ [.get 0x100 10] ++ prods 3 ++ [.prod true] ++ List.replicate 5 .finish ++ [.raise] ++
    List.replicate 3 .irq ++ [.get 0x700 0] ++ prods 3 ++ [.irq] ++ prods 1

/-- A put from behind the end of the address space. -/
def wrapRun : List Input := [.get 0x100 0] ++ prods 4 ++ [.put 2 0xFFFFFFFF] ++ prods 5 ++ [.finish, .raise, .irq]

/-- The handler counts the descriptors before some puts, and wakes up a get after them. -/
def fullRun : List Input :=
  getPut 0x800 5 ++ [.get 0x800 10] ++ prods 5 ++ [.prod true] ++ List.replicate 5 .finish ++ [.raise] ++
    List.replicate 3 .irq ++ (List.replicate 6 (getPut 1 2)).flatten ++ [.get 0x800 10] ++ prods 3 ++
    List.replicate 4 .irq ++ prods 3 ++ [.put 0x800 0] ++ prods 7

/-- **Four overruns.** The handler takes the descriptor before the one that is being read for one of the new data, and
    then a get is granted bytes that are still to be read; a get returns the address that the handler computed for a
    shorter one, and its grant is over the end of the buffer; a put whose end has a carry leaves `Read` outside; and a
    get that the handler wakes up has too few descriptors. -/
theorem four_overruns :
    (∃ s es, Run (step smallPlan.cfg) always (init smallPlan) lateRun s es ∧ s.drv.prod = .ready ∧
      s.drv.grant = some (0x1000, 0x700) ∧ (0x1200, 0x200) ∈ s.published.drop s.finished ∧ ¬ Safe smallPlan s) ∧
    (∃ s es, Run (step tightPlan.cfg) always (init tightPlan) splitRun s es ∧ s.drv.prod = .ready ∧
      s.drv.grant = some (0x1b00, 0x700) ∧ ¬ Safe tightPlan s) ∧
    (∃ s es, Run (step smallPlan.cfg) always (init smallPlan) wrapRun s es ∧ s.drv.port.read = 0xFFFFFFFF ∧
      ¬ Safe smallPlan s) ∧
    (∃ s es, Run (step smallPlan.cfg) always (init smallPlan) fullRun s es ∧
      s.published.length = s.finished + smallPlan.descDepth.toNat ∧ ¬ Safe smallPlan s) := by
  have hready : ∀ {p : Prod}, p = .ready → ¬ Puts p := by
    rintro p rfl
    exact not_false
  refine ⟨?_, ?_, ?_, ?_⟩
  · refine exists_run_imp (fun s _ => s.drv.prod = .ready ∧ s.drv.grant = some (0x1000, 0x700) ∧
      (0x1200, 0x200) ∈ s.published.drop s.finished)
      (by decide) fun _ _ _ htest => ?_
    obtain ⟨hp, hg, hmem⟩ := htest
    refine ⟨hp, hg, hmem, fun hsafe => ?_⟩
    exact absurd (hsafe.apart _ hg (hready hp) _ hmem) (by decide)
  · refine exists_run_imp (fun s _ => s.drv.prod = .ready ∧ s.drv.grant = some (0x1b00, 0x700))
      (by decide) fun _ _ _ htest => ?_
    obtain ⟨hp, hg⟩ := htest
    refine ⟨hp, hg, fun hsafe => ?_⟩
    exact absurd (hsafe.inside _ hg (hready hp)).2 (by decide)
  · refine exists_run_imp (fun s _ => s.drv.port.read = 0xFFFFFFFF) (by decide) fun _ _ _ htest => ?_
    have hread := htest
    refine ⟨hread, fun hsafe => ?_⟩
    have hle := hsafe.read_le
    rw [hread] at hle
    exact absurd hle (by decide)
  · refine exists_run_imp (fun s _ => s.published.length = s.finished + smallPlan.descDepth.toNat)
      (by decide +kernel) fun _ _ _ htest => ?_
    have hfull := htest
    refine ⟨hfull, fun hsafe => ?_⟩
    exact absurd hsafe.ring.2 (Nat.not_lt_of_le (Nat.le_of_eq hfull.symm))

end HiSTB.Demux.RamHw
