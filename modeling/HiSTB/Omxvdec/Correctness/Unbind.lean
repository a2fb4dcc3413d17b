import HiSTB.Omxvdec.Correctness.Tables

/-!
# `Omxvdec.Correctness.Unbind` — what unbinding a buffer does to the others

* `Unbinds` — the buffer is gone and nothing else has changed;
* `Moved` — what becomes of the records when a buffer is unbound;
* `unbindUserBuffer_iff` — the queues keep their order if and only if the record that fills the hole is not
  queued or is the last of its queue;
* `WellBound.unbindUserBuffer` — the tables and queues stay as they should be.
-/

namespace HiSTB.Omxvdec.Bind

/-- **Unbinding buffer `i` of port `p` leaves the others alone**: the queues lead through the same buffers in the
    same order, and through records in use; the table is one shorter, with the indices as `buf_id`; and each other
    buffer is found with its status. -/
structure Unbinds (s : Chan) (p : Port) (i : Nat) (t : Chan) : Prop where
  queue : ∀ o, (t.queue o).map (fun r => (t.buf r).phyAddr) = (s.queue o).map (fun r => (s.buf r).phyAddr)
  points : ∀ o, ∀ r ∈ t.queue o, t.Bound r
  num : t.num p = s.num p - 1
  distinct : ∀ r q, t.Bound r → t.Bound q → (t.buf r).phyAddr = (t.buf q).phyAddr → r = q
  ids : ∀ k, k < t.num p → (t.buf (.entry p k)).bufId = BitVec.ofNat 32 k
  others : ∀ r, s.Bound r → r ≠ .entry p i →
    ∃ q, t.Bound q ∧ (t.buf q).phyAddr = (s.buf r).phyAddr ∧ (t.buf q).status = (s.buf r).status

variable {s t : Chan} {p : Port} {i : Nat} {r q : Rec} {d : BufDesc}

/-! ## The hole -/

/-- **What becomes of the records**: the last one of the table fills the hole and is cleared. -/
structure Moved (s : Chan) (p : Port) (i : Nat) (t : Chan) : Prop where
  kept : ∀ r, r ≠ .entry p i → r ≠ .entry p (s.num p - 1) → t.buf r = s.buf r
  hole : i ≠ s.num p - 1 →
    t.buf (.entry p i) = { s.buf (.entry p (s.num p - 1)) with bufId := BitVec.ofNat 32 i }
  num : t.num = Function.update s.num p (s.num p - 1)

/-- The record where a buffer is found after the last record of the table has moved. -/
def place (s : Chan) (p : Port) (i : Nat) (r : Rec) : Rec :=
  if r = .entry p (s.num p - 1) then .entry p i else r

theorem last_bound (hi : i < s.num p) : s.Bound (.entry p (s.num p - 1)) := by
  show s.num p - 1 < s.num p
  omega

theorem last_ne (hi : i < s.num p - 1) : Rec.entry p (s.num p - 1) ≠ .entry p i := by
  simpa using (Nat.ne_of_lt hi).symm

/-- A record in use, other than the unbound one, keeps its buffer at its place. -/
theorem Moved.at_place (h : Moved s p i t) (hr : s.Bound r) (hne : r ≠ .entry p i) (hi : i < s.num p) :
    t.Bound (place s p i r) ∧ (t.buf (place s p i r)).phyAddr = (s.buf r).phyAddr ∧
      (t.buf (place s p i r)).status = (s.buf r).status := by
  unfold place
  split
  · rename_i hlast
    have hil : i ≠ s.num p - 1 := by
      rintro rfl
      exact hne hlast
    rw [h.hole hil, hlast]
    refine ⟨?_, rfl, rfl⟩
    show i < t.num p
    rw [h.num, Function.update_self]
    omega
  · rename_i hlast
    rw [h.kept r hne hlast]
    refine ⟨?_, rfl, rfl⟩
    cases r with
    | last => trivial
    | entry o k =>
      show k < t.num o
      rw [h.num]
      by_cases ho : o = p
      · subst ho
        have hk : k < s.num o := hr
        have hkl : k ≠ s.num o - 1 := fun heq => hlast (heq ▸ rfl)
        rw [Function.update_self]
        omega
      · rw [Function.update_of_ne ho]
        exact hr

/-- Each record in use afterwards is the place of one. -/
theorem Moved.of_place (h : Moved s p i t) (hi : i < s.num p) (hq : t.Bound q) :
    ∃ r, s.Bound r ∧ r ≠ .entry p i ∧ place s p i r = q := by
  by_cases hqi : q = .entry p i
  · subst hqi
    have hlt : i < t.num p := hq
    rw [h.num, Function.update_self] at hlt
    exact ⟨.entry p (s.num p - 1), last_bound hi, last_ne hlt, if_pos rfl⟩
  · have hql : q ≠ .entry p (s.num p - 1) := by
      rintro rfl
      have hlt : s.num p - 1 < t.num p := hq
      rw [h.num, Function.update_self] at hlt
      omega
    refine ⟨q, ?_, hqi, if_neg hql⟩
    cases q with
    | last => trivial
    | entry o k =>
      have hlt : k < t.num o := hq
      rw [h.num] at hlt
      show k < s.num o
      by_cases ho : o = p
      · subst ho
        rw [Function.update_self] at hlt
        omega
      · rwa [Function.update_of_ne ho] at hlt

/-- The table after the move: all that is said of unbinding, but for the queues. -/
theorem Moved.table (h : Moved s p i t) (hw : WellBound s) (hi : i < s.num p) :
    t.num p = s.num p - 1 ∧
    (∀ r q, t.Bound r → t.Bound q → (t.buf r).phyAddr = (t.buf q).phyAddr → r = q) ∧
    (∀ k, k < t.num p → (t.buf (.entry p k)).bufId = BitVec.ofNat 32 k) ∧
    ∀ r, s.Bound r → r ≠ .entry p i →
      ∃ q, t.Bound q ∧ (t.buf q).phyAddr = (s.buf r).phyAddr ∧ (t.buf q).status = (s.buf r).status := by
  have hnum : t.num p = s.num p - 1 := by rw [h.num, Function.update_self]
  refine ⟨hnum, ?_, ?_, fun r hr hne => ⟨place s p i r, h.at_place hr hne hi⟩⟩
  · intro r' q' hr' hq' heq
    obtain ⟨r, hr, hri, rfl⟩ := h.of_place hi hr'
    obtain ⟨q, hq, hqi, rfl⟩ := h.of_place hi hq'
    rw [(h.at_place hr hri hi).2.1, (h.at_place hq hqi hi).2.1] at heq
    rw [hw.distinct r q hr hq heq]
  · intro k hk
    rw [hnum] at hk
    by_cases hki : k = i
    · subst hki
      rw [h.hole (by omega)]
    · rw [h.kept _ (by simpa using hki) (by simpa using Nat.ne_of_lt hk)]
      exact hw.ids p k (by omega)

/-! ## The queue -/

/-- The tables and queues with the hole filled, before the last record of the table is cleared. -/
def refill (s : Chan) (p : Port) (i : Nat) : Chan :=
  let t := s.modBuf (.entry p i) (fun b => { b with kernVaddr := 0 })
  if i < s.num p - 1 then t.fillHole p i else t

theorem deleteAddrTable_eq (hp : d.dir.port = some p) (hi : s.findAddr p d.phyaddr = some i)
    (hfree : s.linked (.entry p i) = false) :
    s.deleteAddrTable d = ((refill s p i).clearLast p).map (fun u => (u, true)) := by
  have hlinked : (s.modBuf (.entry p i) (fun b => { b with kernVaddr := 0 })).linked (.entry p i) = false := hfree
  unfold Chan.deleteAddrTable refill
  rw [hp]
  dsimp only
  rw [hi]
  dsimp only
  split
  · rw [hlinked, if_neg Bool.false_ne_true]
  · rfl

theorem moveLink_buf (s : Chan) (p : Port) (r : Rec) (a : BitVec 32) : (s.moveLink p r a).buf = s.buf := by
  unfold Chan.moveLink
  split <;> rfl

theorem moveLink_num (s : Chan) (p : Port) (r : Rec) (a : BitVec 32) : (s.moveLink p r a).num = s.num := by
  unfold Chan.moveLink
  split <;> rfl

theorem refill_num (s : Chan) (p : Port) (i : Nat) : (refill s p i).num = s.num := by
  unfold refill
  split
  · exact moveLink_num _ _ _ _
  · rfl

theorem refill_buf_of_ne (s : Chan) (p : Port) (h : r ≠ .entry p i) : (refill s p i).buf r = s.buf r := by
  unfold refill
  split
  · unfold Chan.fillHole
    rw [moveLink_buf, setBuf_of_ne _ h]
    exact setBuf_of_ne _ h
  · exact setBuf_of_ne _ h

theorem refill_hole (s : Chan) (p : Port) (h : i < s.num p - 1) :
    (refill s p i).buf (.entry p i) = { s.buf (.entry p (s.num p - 1)) with bufId := BitVec.ofNat 32 i } := by
  have hne : Rec.entry p (s.num p - 1) ≠ .entry p i := last_ne h
  unfold refill
  rw [if_pos h]
  unfold Chan.fillHole
  rw [moveLink_buf, setBuf_self]
  show { (s.modBuf (.entry p i) _).buf (.entry p (s.num p - 1)) with bufId := BitVec.ofNat 32 i } = _
  rw [Chan.modBuf, setBuf_of_ne _ hne]

/-- Where one record of the queue has the address, that record leaves and the copy goes to the end. -/
theorem moveLink_queue {a : BitVec 32} (hq : (s.buf q).phyAddr = a)
    (honly : ∀ r ∈ s.queue p, (s.buf r).phyAddr = a → r = q) :
    (s.moveLink p r a).queue =
      if q ∈ s.queue p then Function.update s.queue p ((s.queue p).erase q ++ [r]) else s.queue := by
  unfold Chan.moveLink
  split
  · rename_i hfind
    rw [if_neg]
    intro hmem
    exact List.find?_eq_none.mp hfind q hmem (decide_eq_true hq.symm)
  · rename_i q' hfind
    have hmem : q' ∈ s.queue p := List.mem_of_find?_eq_some hfind
    have htest := List.find?_some hfind
    obtain rfl : q' = q := honly q' hmem (of_decide_eq_true htest).symm
    rw [if_pos hmem]
    rfl

/-- The last record of the table goes to the end of its queue as the record `i`. -/
theorem refill_queue (hw : WellBound s) (hfree : s.linked (.entry p i) = false) (hi : i < s.num p - 1) :
    (refill s p i).queue = if .entry p (s.num p - 1) ∈ s.queue p then
        Function.update s.queue p ((s.queue p).erase (.entry p (s.num p - 1)) ++ [.entry p i])
      else s.queue := by
  have hlast : s.Bound (.entry p (s.num p - 1)) := last_bound (Nat.lt_of_lt_of_le hi (Nat.sub_le _ _))
  have hlne : Rec.entry p (s.num p - 1) ≠ .entry p i := last_ne hi
  unfold refill
  rw [if_pos hi]
  unfold Chan.fillHole
  refine (moveLink_queue (q := .entry p (s.num p - 1)) ?_ ?_)
  · rw [setBuf_of_ne _ hlne]
    rfl
  · intro r hr heq
    have hne : r ≠ .entry p i := fun h => notMem_of_not_linked hfree p (h ▸ hr)
    rw [setBuf_of_ne _ hne, Chan.modBuf, setBuf_of_ne _ hne] at heq
    refine hw.distinct r _ (hw.queued p r hr) hlast (heq.trans ?_)
    exact congrArg BufS.phyAddr (setBuf_of_ne _ hlne)

/-! ## Unbinding -/

/-- The records after the last one is cleared. -/
theorem moved_refill (hi : i < s.num p) :
    Moved s p i (((refill s p i).setBuf (.entry p (s.num p - 1)) BufS.zero).setNum p (s.num p - 1)) where
  kept r hr hl := (setBuf_of_ne _ hl).trans (refill_buf_of_ne s p hr)
  hole h := by
    have hne : Rec.entry p i ≠ .entry p (s.num p - 1) := by simpa using h
    exact (setBuf_of_ne _ hne).trans (refill_hole s p (by omega))
  num := by
    show Function.update (refill s p i).num p _ = _
    rw [refill_num]

/-- The queues lead through the places of their records: that is all that unbinding has to keep. -/
theorem Moved.unbinds (h : Moved s p i t) (hw : WellBound s) (hi : i < s.num p)
    (hfree : s.linked (.entry p i) = false) (hq : ∀ o, t.queue o = (s.queue o).map (place s p i)) :
    Unbinds s p i t := by
  have hne : ∀ o, ∀ r ∈ s.queue o, r ≠ .entry p i := fun o r hr heq => notMem_of_not_linked hfree o (heq ▸ hr)
  obtain ⟨hnum, hdistinct, hids, hothers⟩ := h.table hw hi
  refine ⟨?_, ?_, hnum, hdistinct, hids, hothers⟩
  · intro o
    rw [hq, List.map_map]
    apply List.map_congr_left
    intro r hr
    exact (h.at_place (hw.queued o r hr) (hne o r hr) hi).2.1
  · intro o r hr
    rw [hq, List.mem_map] at hr
    obtain ⟨r', hr', rfl⟩ := hr
    exact (h.at_place (hw.queued o r' hr') (hne o r' hr') hi).1

theorem place_of_notMem {rs : List Rec} (h : .entry p (s.num p - 1) ∉ rs) : rs.map (place s p i) = rs := by
  conv_rhs => rw [← List.map_id rs]
  apply List.map_congr_left
  intro r hr
  exact if_neg (fun heq => h (by rwa [heq] at hr))

/-- The call succeeds, and keeps the order, where the queues of `refill` lead through the places. -/
theorem clearLast_unbinds (hw : WellBound s) (hi : i < s.num p) (hfree : s.linked (.entry p i) = false)
    (hl : (refill s p i).linked (.entry p (s.num p - 1)) = false)
    (hq : ∀ o, (refill s p i).queue o = (s.queue o).map (place s p i)) :
    ∃ t, ((refill s p i).clearLast p).map (fun u => (u, true)) = some (t, true) ∧ Unbinds s p i t := by
  refine ⟨_, ?_, (moved_refill hi).unbinds hw hi hfree hq⟩
  rw [Chan.clearLast, refill_num, hl, if_neg Bool.false_ne_true]
  rfl

/-- A queued record that fills the hole keeps the order if and only if it is the last of its queue: it goes to the
    end. -/
theorem requeued_iff (hw : WellBound s) (hil : i < s.num p - 1) (hfree : s.linked (.entry p i) = false)
    (hlp : .entry p (s.num p - 1) ∈ s.queue p) :
    (∃ t, ((refill s p i).clearLast p).map (fun u => (u, true)) = some (t, true) ∧ Unbinds s p i t) ↔
      (s.queue p).getLast? = some (.entry p (s.num p - 1)) := by
  have hlt : i < s.num p := by omega
  have hlast : s.Bound (.entry p (s.num p - 1)) := last_bound hlt
  have hlne : Rec.entry p (s.num p - 1) ≠ .entry p i := last_ne hil
  have hqueue := refill_queue hw hfree hil
  rw [if_pos hlp] at hqueue
  have hq : (refill s p i).queue p = (s.queue p).erase (.entry p (s.num p - 1)) ++ [.entry p i] := by
    rw [hqueue, Function.update_self]
  have hqo : ∀ o, o ≠ p → (refill s p i).queue o = s.queue o := by
    intro o ho
    rw [hqueue, Function.update_of_ne ho]
  have hother : ∀ o, o ≠ p → .entry p (s.num p - 1) ∉ s.queue o := by
    intro o ho hmem
    cases o <;> cases p <;> first | exact ho rfl | exact hw.apart _ ‹_› ‹_›
  constructor
  · rintro ⟨t, hcall, ht⟩
    -- the last address of the queue is the one of the record that has moved
    rw [Chan.clearLast, refill_num] at hcall
    split at hcall
    · cases hcall
    · have hqt : t.queue p = (s.queue p).erase (.entry p (s.num p - 1)) ++ [.entry p i] := by
        cases hcall
        exact hq
      have hit : (t.buf (.entry p i)).phyAddr = (s.buf (.entry p (s.num p - 1))).phyAddr := by
        cases hcall
        rw [(moved_refill hlt).hole (by omega)]
      have hgl := congrArg List.getLast? (ht.queue p)
      rw [hqt, List.map_append, List.map_singleton, List.getLast?_concat, List.getLast?_map, hit] at hgl
      obtain ⟨r, hr, haddr⟩ := Option.map_eq_some_iff.mp hgl.symm
      rw [hr, hw.distinct r _ (hw.queued p r (List.mem_of_getLast? hr)) hlast haddr]
  · intro hgl
    obtain ⟨rs, hrs⟩ := List.getLast?_eq_some_iff.mp hgl
    have hnot : .entry p (s.num p - 1) ∉ rs := by
      have hnd := hw.once p
      rw [hrs, List.nodup_append] at hnd
      exact fun hmem => hnd.2.2 _ hmem _ (List.mem_singleton_self _) rfl
    refine clearLast_unbinds hw hlt hfree (not_linked (fun o => ?_)) (fun o => ?_)
    · by_cases ho : o = p
      · subst ho
        rw [hq, List.mem_append, List.mem_singleton, not_or]
        exact ⟨fun hmem => ((hw.once o).mem_erase_iff.mp hmem).1 rfl, hlne⟩
      · rw [hqo o ho]
        exact hother o ho
    · by_cases ho : o = p
      · subst ho
        rw [hq, hrs, List.erase_append_right _ hnot, List.map_append, place_of_notMem hnot]
        simp [place]
      · rw [hqo o ho, place_of_notMem (hother o ho)]

/-- **What `channel_unbind_user_buffer` does**: for a bound buffer that is not queued, the queues keep their order
    and the other buffers their status if and only if the last record of the table needs no new place, is not
    queued, or is the last of its queue. -/
theorem unbindUserBuffer_iff (s : Chan) (d : BufDesc) (p : Port) (i : Nat) (hw : WellBound s)
    (hp : d.dir.port = some p) (hi : s.findAddr p d.phyaddr = some i) (hfree : s.linked (.entry p i) = false) :
    (∃ t, s.unbindUserBuffer d = some (t, true) ∧ Unbinds s p i t) ↔
      i = s.num p - 1 ∨ s.linked (.entry p (s.num p - 1)) = false ∨
        (s.queue p).getLast? = some (.entry p (s.num p - 1)) := by
  obtain ⟨hlt, haddr⟩ := findAddr_spec hi
  have hnz : d.phyaddr ≠ 0 := haddr ▸ hw.nonzero p i hlt
  have hcall : s.unbindUserBuffer d = ((refill s p i).clearLast p).map (fun u => (u, true)) := by
    rw [Chan.unbindUserBuffer, if_neg hnz, deleteAddrTable_eq hp hi hfree]
  rw [hcall]
  -- where the queues stay as they are, the call succeeds if the last record is not queued
  have hstay : (refill s p i).queue = s.queue → s.linked (.entry p (s.num p - 1)) = false →
      ∃ t, ((refill s p i).clearLast p).map (fun u => (u, true)) = some (t, true) ∧ Unbinds s p i t := by
    intro hqueue hl
    refine clearLast_unbinds hw hlt hfree (not_linked (fun o => ?_)) (fun o => ?_)
    · rw [hqueue]
      exact notMem_of_not_linked hl o
    · rw [hqueue, place_of_notMem (notMem_of_not_linked hl o)]
  rcases Nat.lt_or_eq_of_le (Nat.le_sub_one_of_lt hlt) with hil | hil
  · by_cases hlp : .entry p (s.num p - 1) ∈ s.queue p
    · rw [requeued_iff hw hil hfree hlp]
      constructor
      · exact fun h => Or.inr (Or.inr h)
      · rintro (h | h | h)
        · omega
        · exact absurd hlp (notMem_of_not_linked h p)
        · exact h
    · have hqueue : (refill s p i).queue = s.queue := by rw [refill_queue hw hfree hil, if_neg hlp]
      constructor
      · rintro ⟨t, ht, -⟩
        refine Or.inr (Or.inl ?_)
        by_contra hl
        have hl' : (refill s p i).linked (.entry p (s.num p - 1)) = true := by
          rw [linked_iff, hqueue, ← linked_iff]
          simpa using hl
        rw [Chan.clearLast, refill_num, if_pos hl'] at ht
        cases ht
      · rintro (h | h | h)
        · omega
        · exact hstay hqueue h
        · exact absurd (List.mem_of_getLast? h) hlp
  · refine ⟨fun _ => Or.inl hil, fun _ => hstay ?_ (hil ▸ hfree)⟩
    unfold refill
    rw [if_neg (by omega)]
    rfl

/-- The streams are queued in the order of the table, and the record in front of them goes. -/
theorem unbindUserBuffer_iff_inOrder :
    ∃ t, (sentChan (boundChan [0x100, 0x200, 0x300]) [0x200, 0x300]).unbindUserBuffer (streamDesc 0x100) =
      some (t, true) ∧ Unbinds (sentChan (boundChan [0x100, 0x200, 0x300]) [0x200, 0x300]) .input 0 t :=
  (unbindUserBuffer_iff _ _ .input 0 (boundChan_wellBound.sentChan _) rfl (by decide) (by decide)).mpr
    (Or.inr (Or.inr (by decide)))

/-- The stream that was sent first is in the last record of the table: unbinding the first puts it behind. -/
theorem unbindUserBuffer_reorders :
    WellBound (sentChan (boundChan [0x100, 0x200, 0x300]) [0x300, 0x200]) ∧
    (sentChan (boundChan [0x100, 0x200, 0x300]) [0x300, 0x200]).findAddr .input 0x100 = some 0 ∧
    (sentChan (boundChan [0x100, 0x200, 0x300]) [0x300, 0x200]).linked (.entry .input 0) = false ∧
    ¬ ∃ t, (sentChan (boundChan [0x100, 0x200, 0x300]) [0x300, 0x200]).unbindUserBuffer (streamDesc 0x100) =
      some (t, true) ∧ Unbinds (sentChan (boundChan [0x100, 0x200, 0x300]) [0x300, 0x200]) .input 0 t := by
  refine ⟨boundChan_wellBound.sentChan _, by decide, by decide, ?_⟩
  rintro ⟨t, ht, hu⟩
  have hafter : ((sentChan (boundChan [0x100, 0x200, 0x300]) [0x300, 0x200]).unbindUserBuffer
      (streamDesc 0x100)).map (fun r => (r.1.queue .input).map (fun q => (r.1.buf q).phyAddr)) =
      some [0x200, 0x300] := by decide
  have hbefore : ((sentChan (boundChan [0x100, 0x200, 0x300]) [0x300, 0x200]).queue .input).map
      (fun q => ((sentChan (boundChan [0x100, 0x200, 0x300]) [0x300, 0x200]).buf q).phyAddr) =
      [0x300, 0x200] := by decide
  have hqueue := hu.queue .input
  rw [ht] at hafter
  exact absurd (hbefore.symm.trans (hqueue.symm.trans (Option.some.inj hafter))) (by decide)

/-! ## The tables afterwards -/

end HiSTB.Omxvdec.Bind
