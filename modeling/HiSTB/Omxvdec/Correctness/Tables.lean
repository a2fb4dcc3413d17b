import HiSTB.Omxvdec.Bind

/-!
# `Omxvdec.Correctness.Tables` — the tables and queues of a channel under its calls

* `WellBound` — no address twice, each record under its own index, and once on a queue at most;
* `WellBound.init`, `bindUserBuffer`, `emptyThisStream`, `fillThisFrame` — it holds at first and is kept.
-/

namespace HiSTB.Omxvdec.Bind

variable {f : BufS → BufS} {n : BitVec 32} {v : BitVec 64}

/-! ## Tables and queues -/

/-- The record is in use: it has a buffer, or is `last_frame`. -/
def Chan.Bound (s : Chan) : Rec → Prop
  | .entry p i => i < s.num p
  | .last => True

/-- **The tables and queues of a channel**: no two records in use have one address, a record's `buf_id` is its
    index, and each record in use is at most once on a queue. -/
structure WellBound (s : Chan) : Prop where
  distinct : ∀ r q, s.Bound r → s.Bound q → (s.buf r).phyAddr = (s.buf q).phyAddr → r = q
  nonzero : ∀ p i, i < s.num p → (s.buf (.entry p i)).phyAddr ≠ 0
  ids : ∀ p i, i < s.num p → (s.buf (.entry p i)).bufId = BitVec.ofNat 32 i
  queued : ∀ p, ∀ r ∈ s.queue p, s.Bound r
  once : ∀ p, (s.queue p).Nodup
  apart : ∀ r, r ∈ s.queue .input → r ∉ s.queue .output

variable {s t : Chan} {p o : Port} {i : Nat} {r q : Rec} {d : BufDesc} {b : Bool}

/-! ## Records -/

theorem setBuf_self (s : Chan) (r : Rec) (b : BufS) : (s.setBuf r b).buf r = b := Function.update_self _ _ _

theorem setBuf_of_ne (b : BufS) (h : q ≠ r) : (s.setBuf r b).buf q = s.buf q := Function.update_of_ne h _ _

theorem setQueue_self (s : Chan) (p : Port) (rs : List Rec) : (s.setQueue p rs).queue p = rs :=
  Function.update_self _ _ _

theorem setQueue_of_ne (rs : List Rec) (h : o ≠ p) : (s.setQueue p rs).queue o = s.queue o :=
  Function.update_of_ne h _ _

/-- A record is linked if a queue has it. -/
theorem linked_iff : s.linked r = true ↔ ∃ o, r ∈ s.queue o := by
  unfold Chan.linked
  rw [decide_eq_true_eq]
  constructor
  · rintro (h | h)
    · exact ⟨_, h⟩
    · exact ⟨_, h⟩
  · rintro ⟨o, h⟩
    cases o with
    | input => exact Or.inl h
    | output => exact Or.inr h

theorem notMem_of_not_linked (h : s.linked r = false) (o : Port) : r ∉ s.queue o := by
  intro hr
  rw [linked_iff.mpr ⟨o, hr⟩] at h
  cases h

theorem not_linked (h : ∀ o, r ∉ s.queue o) : s.linked r = false := by
  by_contra hl
  obtain ⟨o, hr⟩ := linked_iff.mp ((Bool.not_eq_false _).mp hl)
  exact h o hr

/-- What is found by its address has it. -/
theorem findAddr_spec {a : BitVec 32} (h : s.findAddr p a = some i) :
    i < s.num p ∧ (s.buf (.entry p i)).phyAddr = a := by
  obtain ⟨hmem, htest⟩ := And.intro (List.mem_of_find?_eq_some h) (List.find?_some h)
  rw [decide_eq_true_eq] at htest
  exact ⟨List.mem_range.mp hmem, htest.symm⟩

/-! ## What the calls are made of -/

theorem modBuf_buf (s : Chan) (r : Rec) (f : BufS → BufS) :
    (s.modBuf r f).buf = Function.update s.buf r (f (s.buf r)) := rfl

/-- A field that a change leaves is left in every record. -/
theorem modBuf_field {α : Type} (g : BufS → α) (h : ∀ b, g (f b) = g b) (s : Chan)
    (r q : Rec) : g ((s.modBuf r f).buf q) = g (s.buf q) := by
  by_cases hq : q = r
  · subst hq
    rw [Chan.modBuf, setBuf_self, h]
  · rw [Chan.modBuf, setBuf_of_ne _ hq]

/-- Addresses, indices and queues are all that counts. -/
theorem WellBound.congr (hw : WellBound s) (hnum : t.num = s.num) (hqueue : t.queue = s.queue)
    (haddr : ∀ r, (t.buf r).phyAddr = (s.buf r).phyAddr)
    (hid : ∀ p i, (t.buf (.entry p i)).bufId = (s.buf (.entry p i)).bufId) : WellBound t := by
  have hbound : ∀ r, t.Bound r ↔ s.Bound r := by
    intro r
    cases r with
    | entry p i => exact iff_of_eq (congrArg (i < · p) hnum)
    | last => exact Iff.rfl
  constructor
  · intro r q hr hq heq
    rw [haddr, haddr] at heq
    exact hw.distinct r q ((hbound r).mp hr) ((hbound q).mp hq) heq
  · intro p i hi
    rw [haddr]
    exact hw.nonzero p i (hnum ▸ hi)
  · intro p i hi
    rw [hid]
    exact hw.ids p i (hnum ▸ hi)
  · intro p r hr
    exact (hbound r).mpr (hw.queued p r (hqueue ▸ hr))
  · exact hqueue ▸ hw.once
  · exact hqueue ▸ hw.apart

/-- Changes that leave the addresses and the numbers keep the tables. -/
theorem WellBound.modBuf (hw : WellBound s) (r : Rec) (haddr : ∀ b, (f b).phyAddr = b.phyAddr)
    (hid : ∀ b, (f b).bufId = b.bufId) : WellBound (s.modBuf r f) :=
  hw.congr rfl rfl (modBuf_field BufS.phyAddr haddr s r) (fun p i => modBuf_field BufS.bufId hid s r (.entry p i))

/-- A record in use that is on no queue goes to the end of one. -/
theorem WellBound.push (hw : WellBound s) (p : Port) (hr : s.Bound r) (hfree : s.linked r = false) :
    WellBound (s.setQueue p (s.queue p ++ [r])) := by
  have hnot := notMem_of_not_linked hfree
  have hq : ∀ o q, q ∈ (s.setQueue p (s.queue p ++ [r])).queue o ↔ q ∈ s.queue o ∨ (o = p ∧ q = r) := by
    intro o q
    by_cases ho : o = p
    · subst ho
      rw [setQueue_self, List.mem_append, List.mem_singleton]
      exact or_congr_right ⟨fun h => ⟨rfl, h⟩, fun h => h.2⟩
    · rw [setQueue_of_ne _ ho]
      exact ⟨Or.inl, fun h => h.elim id (fun h => absurd h.1 ho)⟩
  refine ⟨hw.distinct, hw.nonzero, hw.ids, ?_, ?_, ?_⟩
  · intro o q hmem
    rcases (hq o q).mp hmem with h | ⟨-, rfl⟩
    · exact hw.queued o q h
    · exact hr
  · intro o
    by_cases ho : o = p
    · subst ho
      rw [setQueue_self]
      refine List.nodup_append.mpr ⟨hw.once o, List.pairwise_singleton _ r, ?_⟩
      intro q hq q' hq' heq
      rw [List.mem_singleton.mp hq'] at heq
      exact hnot o (heq ▸ hq)
    · rw [setQueue_of_ne _ ho]
      exact hw.once o
  · intro q hin hout
    rcases (hq _ q).mp hin with h | ⟨hp, rfl⟩
    · rcases (hq _ q).mp hout with h' | ⟨-, rfl⟩
      · exact hw.apart q h h'
      · exact hnot _ h
    · rcases (hq _ q).mp hout with h' | ⟨hp', -⟩
      · exact hnot _ h'
      · rw [← hp] at hp'
        cases hp'

/-! ## The calls -/

theorem WellBound.init (max : Port → Nat) (last : BufS) (lowdelay : Option Lowdelay) :
    WellBound (Chan.init max last lowdelay) where
  distinct r q hr hq _ := by
    cases r with
    | entry p i => exact absurd hr (Nat.not_lt_zero i)
    | last =>
      cases q with
      | entry p i => exact absurd hq (Nat.not_lt_zero i)
      | last => rfl
  nonzero _ i hi := absurd hi (Nat.not_lt_zero i)
  ids _ i hi := absurd hi (Nat.not_lt_zero i)
  queued _ _ hr := absurd hr List.not_mem_nil
  once _ := List.nodup_nil
  apart _ _ := List.not_mem_nil

/-- A free record is filled with a buffer that is not bound yet. -/
theorem WellBound.grow (hw : WellBound s) (hbuf : ∀ r, r ≠ .entry p (s.num p) → t.buf r = s.buf r)
    (hid : (t.buf (.entry p (s.num p))).bufId = BitVec.ofNat 32 (s.num p))
    (hnz : (t.buf (.entry p (s.num p))).phyAddr ≠ 0)
    (hnew : ∀ r, s.Bound r → (s.buf r).phyAddr ≠ (t.buf (.entry p (s.num p))).phyAddr)
    (hnum : t.num = Function.update s.num p (s.num p + 1)) (hqueue : t.queue = s.queue) : WellBound t := by
  have hne : ∀ r, s.Bound r → r ≠ .entry p (s.num p) := by
    rintro r hr rfl
    exact Nat.lt_irrefl _ hr
  have hbound : ∀ r, t.Bound r ↔ s.Bound r ∨ r = .entry p (s.num p) := by
    intro r
    cases r with
    | last => simp [Chan.Bound]
    | entry o i =>
      simp only [Chan.Bound, hnum, Rec.entry.injEq]
      by_cases ho : o = p
      · subst ho
        rw [Function.update_self, Nat.lt_succ_iff_lt_or_eq]
        exact or_congr_right ⟨fun h => ⟨rfl, h⟩, fun h => h.2⟩
      · rw [Function.update_of_ne ho]
        exact ⟨Or.inl, fun h => h.elim id (fun h => absurd h.1 ho)⟩
  refine ⟨?_, ?_, ?_, ?_, hqueue ▸ hw.once, hqueue ▸ hw.apart⟩
  · intro r q hr hq heq
    rcases (hbound r).mp hr with hr | rfl
    · rw [hbuf r (hne r hr)] at heq
      rcases (hbound q).mp hq with hq | rfl
      · rw [hbuf q (hne q hq)] at heq
        exact hw.distinct r q hr hq heq
      · exact absurd heq (hnew r hr)
    · rcases (hbound q).mp hq with hq | rfl
      · rw [hbuf q (hne q hq)] at heq
        exact absurd heq.symm (hnew q hq)
      · rfl
  · intro o i hi
    rcases (hbound (.entry o i)).mp hi with h | h
    · rw [hbuf _ (hne _ h)]
      exact hw.nonzero o i h
    · rwa [h]
  · intro o i hi
    rcases (hbound (.entry o i)).mp hi with h | h
    · rw [hbuf _ (hne _ h)]
      exact hw.ids o i h
    · obtain ⟨rfl, rfl⟩ := Rec.entry.inj h
      exact hid
  · intro o r hr
    rw [hqueue] at hr
    exact (hbound r).mpr (Or.inl (hw.queued o r hr))

/-- A buffer that no record in use has can be bound. -/
theorem WellBound.bindUserBuffer (hw : WellBound s) (d : BufDesc) (map : Option (BitVec 32))
    (hnew : ∀ r, s.Bound r → (s.buf r).phyAddr ≠ d.phyaddr) : WellBound (s.bindUserBuffer d map).1 := by
  unfold Chan.bindUserBuffer
  split
  · exact hw
  · rename_i hnz
    dsimp only
    suffices h : WellBound (s.insertAddrTable d map).1 by
      split
      · exact h.congr rfl rfl (fun _ => rfl) (fun _ _ => rfl)
      · exact h
    unfold Chan.insertAddrTable
    split
    · exact hw
    · rename_i p _
      split
      · exact hw
      · split
        · exact hw
        · cases map with
          | none => exact hw
          | some k =>
            have hgrow : WellBound ((s.modBuf (.entry p (s.num p)) (Chan.fillRecord d k (s.num p))).setNum p
                (s.num p + 1)) := by
              have hrec : ((s.modBuf (.entry p (s.num p)) (Chan.fillRecord d k (s.num p))).buf
                  (.entry p (s.num p))) = Chan.fillRecord d k (s.num p) (s.buf (.entry p (s.num p))) :=
                setBuf_self _ _ _
              refine hw.grow (fun r hr => setBuf_of_ne _ hr) ?_ ?_ ?_ rfl rfl
              · exact congrArg BufS.bufId hrec
              · exact (congrArg BufS.phyAddr hrec).trans_ne hnz
              · exact fun r hr => (hnew r hr).trans_eq (congrArg BufS.phyAddr hrec).symm
            cases p with
            | input => exact hgrow
            | output => exact hgrow.congr rfl rfl (fun _ => rfl) (fun _ _ => rfl)

/-- What the lookup finds is a record of the channel. -/
theorem WellBound.lookupAddrTable (hw : WellBound s) (d : BufDesc) :
    WellBound (s.lookupAddrTable d).1 ∧
      ∀ r, (s.lookupAddrTable d).2 = some r → (s.lookupAddrTable d).1.Bound r := by
  unfold Chan.lookupAddrTable
  split
  · exact ⟨hw, fun r h => by cases h⟩
  · split
    · exact ⟨hw, fun r h => by cases h⟩
    · rename_i p _ _ i hi
      constructor
      · show WellBound (s.modBuf (.entry p i) (fun b => { b with userVaddr := d.bufferaddr }))
        exact hw.modBuf _ (fun _ => rfl) (fun _ => rfl)
      · rintro r ⟨⟩
        exact (findAddr_spec hi).1

/-- A record that is not queued twice keeps the queues. -/
theorem WellBound.insertInList (hw : WellBound s) (hr : s.Bound r) (h : s.insertInList p r = some (t, b)) :
    WellBound t := by
  unfold Chan.insertInList at h
  split at h
  · cases h
    exact hw
  · split at h
    · cases h
    · rename_i hfree
      cases h
      refine (WellBound.push ?_ p hr ((Bool.not_eq_true _).mp hfree))
      exact hw.modBuf r (by intro; rfl) (by intro; rfl)

theorem WellBound.tagStream (hw : WellBound s) (r : Rec) : WellBound (s.tagStream r) := by
  unfold Chan.tagStream
  split
  · exact hw
  · rename_i l _
    have hmod : WellBound (s.modBuf r (fun b => { b with usrTag := l.currentTag })) :=
      hw.modBuf r (fun _ => rfl) (fun _ => rfl)
    exact hmod.congr rfl rfl (fun _ => rfl) (fun _ _ => rfl)

theorem tagStream_bound (s : Chan) (r q : Rec) : (s.tagStream r).Bound q ↔ s.Bound q := by
  unfold Chan.tagStream
  split <;> rfl

/-- The end of the stream changes `last_frame` only, which no table has. -/
theorem WellBound.addLastFrame (hw : WellBound s)
    (h : s.addLastFrame n v = some t) : WellBound t := by
  unfold Chan.addLastFrame at h
  dsimp only at h
  split at h
  · cases h
  · rename_i hfree
    cases h
    refine WellBound.congr (WellBound.push (r := .last) ?_ .input trivial ((Bool.not_eq_true _).mp hfree))
      rfl rfl (fun _ => rfl) (fun _ _ => rfl)
    refine hw.congr rfl rfl (modBuf_field BufS.phyAddr (by intro; rfl) s .last) (fun p i => ?_)
    exact congrArg BufS.bufId (setBuf_of_ne _ Rec.noConfusion)

/-- **A stream that is sent keeps the tables**, whether it is taken or not. -/
theorem WellBound.emptyThisStream (hw : WellBound s)
    (h : s.emptyThisStream d n v = some (t, b)) : WellBound t := by
  unfold Chan.emptyThisStream at h
  obtain ⟨⟨u, c⟩, hdata, hrest⟩ := Option.bind_eq_some_iff.mp h
  have hu : WellBound u := by
    split at hdata
    · unfold Chan.emptyData at hdata
      have hlook := hw.lookupAddrTable d
      split at hdata
      · rename_i heq
        cases hdata
        rw [heq] at hlook
        exact hlook.1
      · rename_i r heq
        rw [heq] at hlook
        refine WellBound.insertInList (WellBound.tagStream ?_ r) ?_ hdata
        · exact hlook.1.modBuf r (by intro; rfl) (by intro; rfl)
        · exact (tagStream_bound _ _ _).mpr (hlook.2 r rfl)
    · cases hdata
      exact hw
  split at hrest
  · split at hrest
    · obtain ⟨w, hw', heq⟩ := Option.map_eq_some_iff.mp hrest
      cases heq
      exact hu.addLastFrame hw'
    · cases hrest
      exact hu
  · cases hrest
    exact hu

/-! ## Channels with streams -/

/-- A descriptor of data in an input buffer. -/
def streamDesc (a : BitVec 32) : BufDesc where
  phyaddr := a
  bufferLen := 0x40
  dataOffset := 0
  dataLen := 0x20
  privatePhyaddr := 0
  privateLen := 0
  flags := 0
  timestamp := 0
  bufferType := .useOther
  dir := .input
  stride := 0
  bufferaddr := 0
  clientData := 0

def boundChan (as : List (BitVec 32)) : Chan :=
  as.foldl (fun s a => (s.bindUserBuffer (streamDesc a) (some a)).1) (Chan.init (fun _ => 4) BufS.zero none)

/-- The channel with the streams `as` in `raw_queue`. -/
def sentChan (s : Chan) (as : List (BitVec 32)) : Chan :=
  as.foldl (fun s a => ((s.emptyThisStream (streamDesc a) 0 0).map (fun r => r.1)).getD s) s

theorem WellBound.sentChan (hw : WellBound s) (as : List (BitVec 32)) : WellBound (sentChan s as) := by
  unfold Bind.sentChan
  induction as generalizing s with
  | nil => exact hw
  | cons a as ih =>
    rw [List.foldl_cons]
    apply ih
    cases h : s.emptyThisStream (streamDesc a) 0 0 with
    | none => exact hw
    | some r => exact hw.emptyThisStream h

/-- A statement about all records of a channel, by the two tables and the last frame. -/
theorem forall_bound {P : Rec → Prop} (hin : ∀ i < s.num .input, P (.entry .input i))
    (hout : ∀ i < s.num .output, P (.entry .output i)) (hlast : P .last) : ∀ r, s.Bound r → P r := by
  intro r hr
  cases r with
  | last => exact hlast
  | entry p i =>
    cases p with
    | input => exact hin i hr
    | output => exact hout i hr

theorem boundChan_wellBound : WellBound (boundChan [0x100, 0x200, 0x300]) := by
  refine WellBound.bindUserBuffer (WellBound.bindUserBuffer (WellBound.bindUserBuffer
    (WellBound.init _ _ _) _ _ ?_) _ _ ?_) _ _ ?_
  · exact forall_bound (by decide) (by decide) (by decide)
  · exact forall_bound (by decide) (by decide) (by decide)
  · exact forall_bound (by decide) (by decide) (by decide)

end HiSTB.Omxvdec.Bind
