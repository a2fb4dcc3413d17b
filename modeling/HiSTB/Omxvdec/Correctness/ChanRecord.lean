import HiSTB.Omxvdec.ChanRecord
import HiSTB.Lib.FirstFree
import Mathlib.Algebra.Group.Int.Defs
import Mathlib.Data.List.Pairwise

/-!
# `Omxvdec.Correctness.ChanRecord` — every channel has a number of its own

The numbers are far below 2^31, since so many contexts do not fit into the address space; so `channel_id++` does not
wrap, and the search is the one for the first free number.

* `Inv` — what holds of the list in every run, `run_inv`;
* `Registry` — how numbers are given and found, `run_registry`.
-/

namespace HiSTB.Omxvdec.ChanRecord

open Lib

variable {s t : Entry} {p q : Nat} {rets : List (BitVec 32)} {calls : List Call}

variable {id : BitVec 32}

/-! ## Memory -/

/-- The nodes of two contexts do not overlap. -/
def Apart (p q : Nat) : Prop := p + 8 ≤ q ∨ q + 8 ≤ p

theorem length_le_of_apart {l : List Nat} (hin : ∀ p ∈ l, p + 8 ≤ 2 ^ 32) (h : l.Pairwise Apart) :
    l.length ≤ 2 ^ 29 := by
  have hnodup : (l.map (· / 8)).Nodup := by
    refine List.pairwise_map.mpr (h.imp (fun {p q} hpq => ?_))
    unfold Apart at hpq
    omega
  have hsub : l.map (· / 8) ⊆ List.range (2 ^ 29) := by
    intro k hk
    obtain ⟨p, hp, rfl⟩ := List.mem_map.mp hk
    have := hin p hp
    exact List.mem_range.mpr (by omega)
  have hle := (List.subperm_of_subset hnodup hsub).length_le
  rwa [List.length_map, List.length_range] at hle

/-! ## The search -/

/-- The numbers that are taken. -/
def ids (s : Entry) : List Nat := s.chanList.map (fun c => (s.channelId c).toNat)

theorem length_ids : (ids s).length = s.chanList.length := List.length_map _

/-- One scan looks for the number among those that are taken. -/
theorem scan_eq (id : BitVec 32) : s.scan id = if id.toNat ∈ ids s then id + 1 else id := by
  have hany : s.chanList.any (fun c => s.channelId c == id) = true ↔ id.toNat ∈ ids s := by
    rw [List.any_eq_true]
    unfold ids
    rw [List.mem_map]
    refine exists_congr (fun c => and_congr_right (fun _ => ?_))
    rw [beq_iff_eq]
    exact BitVec.toNat_inj.symm
  unfold Entry.scan
  by_cases h : id.toNat ∈ ids s
  · rw [if_pos h, if_pos (hany.mpr h)]
  · rw [if_neg h, if_neg (fun hc => h (hany.mp hc))]

/-- **The search is the one for the first free number**, as long as the number does not wrap. -/
theorem search_eq {fuel : Nat} (h : id.toNat + fuel < 2 ^ 32) :
    s.search fuel id = (firstFree (ids s) fuel id.toNat).map (BitVec.ofNat 32) := by
  induction fuel generalizing id with
  | zero => rfl
  | succ fuel ih =>
    have hnext : (id + 1).toNat = id.toNat + 1 := by
      rw [BitVec.toNat_add, show (1 : BitVec 32).toNat = 1 from rfl]
      omega
    unfold Entry.search firstFree
    rw [scan_eq]
    by_cases hmem : id.toNat ∈ ids s
    · have hne : id ≠ id + 1 := by
        intro heq
        have := congrArg BitVec.toNat heq
        omega
      rw [if_pos hmem, if_pos hmem, if_pos hne, ih (by omega), hnext]
    · rw [if_neg hmem, if_neg hmem, if_neg (not_not.mpr rfl), Option.map_some]
      rw [BitVec.ofNat_toNat, BitVec.setWidth_eq]

/-! ## The invariant -/

/-- The contexts are apart from each other, and their numbers are different and small. -/
structure Inv (s : Entry) : Prop where
  inside : ∀ p ∈ s.chanList, p + 8 ≤ 2 ^ 32
  apart : s.chanList.Pairwise Apart
  distinct : (ids s).Nodup
  small : ∀ p ∈ s.chanList, (s.channelId p).toNat < 2 ^ 29

theorem fresh_not_mem (h : s.Fresh p) : p ∉ s.chanList := by
  intro hp
  have := h.2 p hp
  omega

theorem Inv.length_lt (h : Inv s) (hp : s.Fresh p) : s.chanList.length < 2 ^ 29 := by
  have hapart : (s.chanList ++ [p]).Pairwise Apart := by
    rw [List.pairwise_append]
    refine ⟨h.apart, List.pairwise_singleton _ p, fun q hq r hr => ?_⟩
    obtain rfl := List.mem_singleton.mp hr
    exact (hp.2 q hq).symm
  have hin : ∀ q ∈ s.chanList ++ [p], q + 8 ≤ 2 ^ 32 := by
    intro q hq
    rcases List.mem_append.mp hq with hq | hq
    · exact h.inside q hq
    · obtain rfl := List.mem_singleton.mp hq
      exact hp.1
  have hle := length_le_of_apart hin hapart
  rw [List.length_append, List.length_singleton] at hle
  exact hle

/-- **A channel is added**: the search ends, with the least number that is free. -/
theorem add_spec (h : Inv s) (h0 : p ≠ 0) (hp : s.Fresh p) : ∃ id : BitVec 32,
    s.channelAddChanRecord p = some (s.record p id, HI_SUCCESS) ∧ id.toNat < 2 ^ 29 ∧
      IsLeast {k | k ∉ ids s} id.toNat := by
  have hlt := h.length_lt hp
  have hfuel : (ids s).length < s.chanList.length + 1 + 0 := by rw [length_ids]; omega
  obtain ⟨m, hm, hleast⟩ := firstFree_isLeast (fun k hk => absurd hk (Nat.not_lt_zero k)) hfuel
  have hle : m ≤ s.chanList.length := by
    rw [← length_ids]
    exact Lib.IsLeast.le_length hleast
  have hnat : (BitVec.ofNat 32 m).toNat = m := by
    rw [BitVec.toNat_ofNat]
    omega
  refine ⟨BitVec.ofNat 32 m, ?_, by omega, by rwa [hnat]⟩
  have hsearch : s.search (s.chanList.length + 1) 0 = some (BitVec.ofNat 32 m) := by
    rw [search_eq (by rw [show (0 : BitVec 32).toNat = 0 from rfl]; omega)]
    exact congrArg (Option.map (BitVec.ofNat 32)) hm
  unfold Entry.channelAddChanRecord
  rw [if_neg h0]
  by_cases hnil : s.chanList = []
  · -- the loop is skipped for the empty list, and would end with 0
    rw [hnil, List.length_nil] at hle
    obtain rfl : m = 0 := Nat.le_zero.mp hle
    rw [if_pos hnil]
    rfl
  · rw [if_neg hnil, hsearch]
    rfl

theorem record_channelId (hp : p ∉ s.chanList) (hq : q ∈ s.chanList) :
    (s.record p id).channelId q = s.channelId q :=
  Function.update_of_ne (fun heq : q = p => hp (heq ▸ hq)) _ _

theorem ids_record (hp : p ∉ s.chanList) : ids (s.record p id) = ids s ++ [id.toNat] := by
  unfold ids
  show (s.chanList ++ [p]).map _ = _
  rw [List.map_append, List.map_singleton]
  congr 1
  · exact List.map_congr_left (fun q hq => congrArg BitVec.toNat (record_channelId hp hq))
  · show [(Function.update s.channelId p id p).toNat] = _
    rw [Function.update_self]

theorem Inv.record (h : Inv s) (hp : s.Fresh p) (hid : id.toNat < 2 ^ 29) (hfree : id.toNat ∉ ids s) :
    Inv (s.record p id) := by
  have hmem := fresh_not_mem hp
  refine ⟨fun q hq => ?_, ?_, ?_, fun q hq => ?_⟩
  · rcases List.mem_append.mp hq with hq | hq
    · exact h.inside q hq
    · obtain rfl := List.mem_singleton.mp hq
      exact hp.1
  · show (s.chanList ++ [p]).Pairwise Apart
    rw [List.pairwise_append]
    refine ⟨h.apart, List.pairwise_singleton _ p, fun q hq r hr => ?_⟩
    obtain rfl := List.mem_singleton.mp hr
    exact (hp.2 q hq).symm
  · rw [ids_record hmem]
    exact List.nodup_append.mpr ⟨h.distinct, List.nodup_singleton _, fun k hk l hl heq =>
      hfree (List.mem_singleton.mp hl ▸ heq ▸ hk)⟩
  · rcases List.mem_append.mp hq with hq | hq
    · rw [record_channelId hmem hq]
      exact h.small q hq
    · obtain rfl := List.mem_singleton.mp hq
      show (Function.update s.channelId q id q).toNat < 2 ^ 29
      rw [Function.update_self]
      exact hid

theorem Inv.delete (h : Inv s)
    (p : Nat) : Inv { s with chanList := s.chanList.erase p, totalChanNum := s.totalChanNum - 1 } := by
  have hsub : (s.chanList.erase p).Sublist s.chanList := List.erase_sublist
  exact ⟨fun q hq => h.inside q (hsub.mem hq), h.apart.sublist hsub, h.distinct.sublist (hsub.map _),
    fun q hq => h.small q (hsub.mem hq)⟩

theorem step_inv {c : Call} (h : Inv s) (hvalid : Valid s c) (hstep : step s c = some (t, rets)) : Inv t := by
  cases c with
  | add p =>
    obtain ⟨r, hr, heq⟩ := Option.map_eq_some_iff.mp hstep
    obtain ⟨rfl, -⟩ := Prod.mk.inj heq
    by_cases h0 : p = 0
    · unfold Entry.channelAddChanRecord at hr
      rw [if_pos h0] at hr
      obtain rfl := Option.some.inj hr
      exact h
    · have hp := hvalid h0
      obtain ⟨id, hadd, hlt, hleast⟩ := add_spec h h0 hp
      rw [hadd] at hr
      obtain rfl := Option.some.inj hr
      exact h.record hp hlt hleast.1
  | delete p =>
    cases hstep
    unfold Entry.channelDeleteChanRecord
    split
    · exact h
    · exact h.delete p

theorem run_inv {channelId : Nat → BitVec 32} (h : Run step Valid (start channelId) calls s rets) : Inv s := by
  refine h.inv (fun _ s => Inv s) ?_ (fun _ _ _ _ _ hinv hvalid hstep => step_inv hinv hvalid hstep)
  exact ⟨fun p hp => absurd hp List.not_mem_nil, .nil, .nil, fun p hp => absurd hp List.not_mem_nil⟩

/-! ## Numbers -/

/-- **How numbers are given and found**: no two channels have one number; a new channel is recorded at the end, with the
    least number that is free; and a number finds the channel that has it. -/
structure Registry (s : Entry) : Prop where
  distinct : ∀ p ∈ s.chanList, ∀ q ∈ s.chanList, s.channelId p = s.channelId q → p = q
  add : ∀ p, p ≠ 0 → s.Fresh p → ∃ t, s.channelAddChanRecord p = some (t, HI_SUCCESS) ∧ t.chanList = s.chanList ++ [p] ∧
    (∀ q, q ≠ p → t.channelId q = s.channelId q) ∧
      IsLeast {k : Int | 0 ≤ k ∧ ∀ q ∈ s.chanList, (s.channelId q).toInt ≠ k} (t.channelId p).toInt
  find : ∀ handle p, s.channelFindInstByChannelId handle = some p ↔ p ∈ s.chanList ∧ s.channelId p = handle
  findNone : ∀ handle, s.channelFindInstByChannelId handle = none ↔ ∀ p ∈ s.chanList, s.channelId p ≠ handle

theorem Inv.unique (h : Inv s) (hp : p ∈ s.chanList) (hq : q ∈ s.chanList)
    (heq : s.channelId p = s.channelId q) : p = q :=
  List.inj_on_of_nodup_map h.distinct hp hq (congrArg BitVec.toNat heq)

theorem toInt_of_small (h : id.toNat < 2 ^ 29) : id.toInt = id.toNat := by
  rw [BitVec.toInt_eq_toNat_cond]
  omega

theorem Inv.isLeast (h : Inv s) (hlt : id.toNat < 2 ^ 29) (hleast : IsLeast {k | k ∉ ids s} id.toNat) :
    IsLeast {k : Int | 0 ≤ k ∧ ∀ q ∈ s.chanList, (s.channelId q).toInt ≠ k} id.toInt := by
  rw [toInt_of_small hlt]
  refine ⟨⟨Int.natCast_nonneg _, fun q hq heq => hleast.1 ?_⟩, fun k hk => ?_⟩
  · rw [toInt_of_small (h.small q hq)] at heq
    exact List.mem_map.mpr ⟨q, hq, Int.ofNat_inj.mp heq⟩
  · obtain ⟨n, rfl⟩ := Int.eq_ofNat_of_zero_le hk.1
    refine Int.ofNat_le.mpr (hleast.2 (fun hmem => ?_))
    obtain ⟨q, hq, heq⟩ := List.mem_map.mp hmem
    refine hk.2 q hq ?_
    rw [toInt_of_small (h.small q hq), heq]

theorem Inv.find (h : Inv s) (handle : BitVec 32) (p : Nat) :
    s.channelFindInstByChannelId handle = some p ↔ p ∈ s.chanList ∧ s.channelId p = handle := by
  unfold Entry.channelFindInstByChannelId
  constructor
  · intro hfind
    split at hfind
    · cases hfind
    · exact ⟨List.mem_of_find?_eq_some hfind, beq_iff_eq.mp (List.find?_some hfind :)⟩
  · rintro ⟨hp, rfl⟩
    have hnonneg : ¬ (s.channelId p).toInt < 0 := by
      rw [toInt_of_small (h.small p hp)]
      omega
    rw [if_neg hnonneg]
    cases hfind : s.chanList.find? (fun c => s.channelId c == s.channelId p) with
    | none => exact absurd (beq_self_eq_true _) (List.find?_eq_none.mp hfind p hp)
    | some q =>
      have hid : s.channelId q = s.channelId p := beq_iff_eq.mp (List.find?_some hfind :)
      rw [h.unique (List.mem_of_find?_eq_some hfind) hp hid]

/-- **The numbers of the channels**, in every run. -/
theorem run_registry {channelId : Nat → BitVec 32} (h : Run step Valid (start channelId) calls s rets) :
    Registry s := by
  have hinv := run_inv h
  refine ⟨fun p hp q hq heq => hinv.unique hp hq heq, fun p h0 hp => ?_, hinv.find, fun handle => ?_⟩
  · obtain ⟨id, hadd, hlt, hleast⟩ := add_spec hinv h0 hp
    refine ⟨s.record p id, hadd, rfl, fun q hq => Function.update_of_ne hq _ _, ?_⟩
    show IsLeast _ (Function.update s.channelId p id p).toInt
    rw [Function.update_self]
    exact hinv.isLeast hlt hleast
  · rw [Option.eq_none_iff_forall_not_mem]
    exact forall_congr' (fun p => (not_congr (hinv.find handle p)).trans not_and)

/-- Two channels are made, the first one goes, and another one gets its number. -/
theorem run_registry_again : ∃ calls s rets, Run step Valid (start (fun _ => 0)) calls s rets ∧
    s.chanList = [2000, 3000] ∧ s.channelId 2000 = 1 ∧ s.channelId 3000 = 0 ∧ Registry s := by
  refine ⟨[.add 1000, .add 2000, .delete 1000, .add 3000],
    exists_run_imp (fun s _ => s.chanList = [2000, 3000] ∧ s.channelId 2000 = 1 ∧ s.channelId 3000 = 0)
    (by decide) fun _ _ hrun htest => ?_⟩
  obtain ⟨hlist, hold, hnew⟩ := htest
  exact ⟨hlist, hold, hnew, run_registry hrun⟩

end HiSTB.Omxvdec.ChanRecord
