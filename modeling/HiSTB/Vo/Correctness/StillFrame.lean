import HiSTB.Vo.StillFrame

/-!
# `Vo.Correctness.StillFrame` — when every still frame is released once

A request is the address of a record, so it is for what the record holds when the thread comes to it. As long as no
record is used again before that, each buffer is with one frame at a time: in the pool, in the ring, in the record of
the interrupt, or in a record with a request of its own (`Inv`).

* `put_queue`, `get_queue` — the ring is a queue;
* `Inv.step` — the steps of the calls, the interrupt and the thread keep the invariant under the condition `Keeps`;
* `Inv.served` — two passes of the thread empty the table;
* `run_releasedOnce` — so every buffer is released once.
-/

namespace HiSTB.Vo.StillFrame

open Lib Lib.Holdings

variable {p : Ptr} {b c : Buffer} {frame f : Frame} {n i : Nat} {is : List Input} {a : Addr}

/-! ## Where the buffers are -/

/-- The `i`-th request, if it was not served yet. -/
def asked (s : State) (i : Nat) : Option Ptr := if s.thread = .clear i then none else s.pstNeedRelFrmNode i

/-- The record that the interrupt is about to ask for. -/
def Handler.asks : Handler → List Ptr
  | .destroy _ p _ => [p]
  | _ => []

/-- It is its record. -/
theorem Handler.record_of_mem_asks {h : Handler} (hp : p ∈ h.asks) : h.record = some p := by
  cases h with
  | idle => cases hp
  | get q => cases hp
  | destroy usl q i =>
    obtain rfl := List.mem_singleton.mp hp
    rfl

/-- The records of the requests. -/
def requests (s : State) : List Ptr := s.handler.asks ++ (List.range maxReleaseNo).filterMap (asked s)

/-- The frames in the ring. -/
def Buffer.queue (b : Buffer) : List Frame :=
  (List.range ((b.u32ULSWtPtr + uselessFrameMaxNumber - b.u32ULSRdPtr) % uselessFrameMaxNumber)).map
    (fun i => b.stUselessFrame ((b.u32ULSRdPtr + i) % uselessFrameMaxNumber))

/-- The buffers of the still frames among some. -/
def stills (l : List Frame) : List Addr := (l.filter Frame.bStillFrame).map Frame.startPhyAddr

/-- The buffers that will be released, and from where. -/
def held (s : State) : List Addr :=
  stills s.pool ++ stills s.buffer.queue ++ (requests s).map (fun p => (s.mem p).startPhyAddr)

/-! ## What goes well -/

/-- A record for which there is a request that was not served yet. -/
def Asked (s : State) (p : Ptr) : Prop := ∃ i, i < maxReleaseNo ∧ asked s i = some p

/-- **The condition**: `WinQueueFrame` takes a still frame; the head of a compressed one is where its luminance is; a
    record is not used again before its request was served; and a request finds room. -/
def Keeps (s : State) : Input → Prop
  | .send frame (some _) true true queued => queued = true ∧
    (frame.u32CompressFlag = true → frame.phyAddrYHead = frame.phyAddrY)
  | .destroyStill _ p => ¬Asked s p
  | .handler =>
    match s.handler with
    | .get p => s.buffer.u32ULSWtPtr = s.buffer.u32ULSRdPtr ∨ ¬Asked s p
    | .destroy _ _ i => i < maxReleaseNo
    | .idle => True
  | .other p frame => frame = s.mem p ∨ ¬Asked s p
  | _ => True

/-! ## The ring -/

/-- The pointers are in range. -/
def Buffer.InRange (b : Buffer) : Prop := b.u32ULSRdPtr < uselessFrameMaxNumber ∧ b.u32ULSWtPtr < uselessFrameMaxNumber

theorem put_queue (hb : b.InRange) (h : winBufferPutULSFrame b frame = some c) :
    c.InRange ∧ c.queue = b.queue ++ [frame] := by
  obtain ⟨hrd, hwt⟩ := hb
  unfold winBufferPutULSFrame at h
  dsimp only at h
  split at h
  next => cases h
  next hroom =>
    obtain rfl := Option.some.inj h
    unfold Buffer.InRange Buffer.queue
    unfold uselessFrameMaxNumber at *
    have hlen : ((b.u32ULSWtPtr + 1) % 16 + 16 - b.u32ULSRdPtr) % 16 =
        (b.u32ULSWtPtr + 16 - b.u32ULSRdPtr) % 16 + 1 := by
      omega
    have hwt' : (b.u32ULSRdPtr + (b.u32ULSWtPtr + 16 - b.u32ULSRdPtr) % 16) % 16 = b.u32ULSWtPtr := by
      omega
    refine ⟨⟨hrd, Nat.mod_lt _ (by decide)⟩, ?_⟩
    dsimp only
    rw [hlen, List.range_succ, List.map_append, List.map_singleton, hwt', Function.update_self]
    congr 1
    refine List.map_congr_left (fun i hi => Function.update_of_ne ?_ _ _)
    have hlt := List.mem_range.mp hi
    omega

theorem get_queue (hb : b.InRange) (h : winBufferGetULSFrame b = some (frame, c)) :
    c.InRange ∧ b.queue = frame :: c.queue := by
  obtain ⟨hrd, hwt⟩ := hb
  unfold winBufferGetULSFrame at h
  split at h
  next => cases h
  next hsome =>
    cases h
    unfold Buffer.InRange Buffer.queue
    unfold uselessFrameMaxNumber at *
    have hlen : (b.u32ULSWtPtr + 16 - b.u32ULSRdPtr) % 16 =
        (b.u32ULSWtPtr + 16 - (b.u32ULSRdPtr + 1) % 16) % 16 + 1 := by
      omega
    refine ⟨⟨Nat.mod_lt _ (by decide), hwt⟩, ?_⟩
    rw [hlen, List.range_succ_eq_map, List.map_cons, List.map_map]
    congr 1
    · rw [Nat.add_zero, Nat.mod_eq_of_lt hrd]
    · refine List.map_congr_left (fun i _ => ?_)
      have hcell : (b.u32ULSRdPtr + (i + 1)) % 16 = ((b.u32ULSRdPtr + 1) % 16 + i) % 16 := by
        omega
      exact congrArg b.stUselessFrame hcell

theorem get_eq_none : winBufferGetULSFrame b = none ↔ b.u32ULSWtPtr = b.u32ULSRdPtr := by
  unfold winBufferGetULSFrame
  split <;> simp_all

/-! ## The table -/

/-- One more entry of a table. -/
theorem filterMap_update {α : Type*} {g : Nat → Option α} (hi : i < n) (hg : g i = none) (x : α) :
    ((List.range n).filterMap (Function.update g i (some x))).Perm (x :: (List.range n).filterMap g) := by
  induction n with
  | zero => exact absurd hi (Nat.not_lt_zero i)
  | succ n ih =>
    rw [List.range_succ, List.filterMap_append, List.filterMap_append]
    rcases Nat.lt_succ_iff_lt_or_eq.mp hi with hlt | rfl
    · have hlast : [n].filterMap (Function.update g i (some x)) = [n].filterMap g := by
        rw [List.filterMap_cons, List.filterMap_cons, Function.update_of_ne (Nat.ne_of_gt hlt)]
        rfl
      rw [hlast]
      exact (ih hlt).append_right _
    · have hfront : (List.range i).filterMap (Function.update g i (some x)) = (List.range i).filterMap g := by
        refine List.filterMap_congr (fun j hj => Function.update_of_ne ?_ _ _)
        exact Nat.ne_of_lt (List.mem_range.mp hj)
      have hlast : [i].filterMap (Function.update g i (some x)) = [x] := by
        rw [List.filterMap_cons, Function.update_self]
        rfl
      have hnone : [i].filterMap g = [] := by
        rw [List.filterMap_cons, hg]
        rfl
      rw [hfront, hlast, hnone, List.append_nil]
      exact List.perm_append_singleton x _

/-- The records in the table. -/
def table (s : State) : List Ptr := (List.range maxReleaseNo).filterMap (asked s)

theorem mem_table {s : State} : p ∈ table s ↔ Asked s p := by
  unfold table Asked
  simp only [List.mem_filterMap, List.mem_range]

/-! ## The invariant -/

/-- **The invariant**: each buffer that was not released yet is with one frame, in the pool, in the ring, or in a record
    of its own for which there is a request. -/
structure Inv (es : List (Event Addr)) (s : State) : Prop where
  held : Held es (held s)
  pool : ∀ f ∈ s.pool, f.bStillFrame = true
  ring : s.buffer.InRange
  nodup : (requests s).Nodup
  still : ∀ p ∈ requests s, (s.mem p).bStillFrame = true
  clear : ∀ i, s.thread = .clear i → i < maxReleaseNo ∧ s.pstNeedRelFrmNode i ≠ none

variable {s t : State} {es fs : List (Event Addr)}

theorem stills_append (l m : List Frame) : stills (l ++ m) = stills l ++ stills m := by
  simp [stills]

theorem stills_cons_of_still (h : f.bStillFrame = true) (l : List Frame) :
    stills (f :: l) = f.startPhyAddr :: stills l := by
  simp [stills, h]

theorem stills_cons_of_not (h : f.bStillFrame = false) (l : List Frame) : stills (f :: l) = stills l := by
  simp [stills, h]

theorem stills_erase {l : List Frame} (hf : f ∈ l) (h : f.bStillFrame = true) :
    (stills l).Perm (f.startPhyAddr :: stills (l.erase f)) := by
  rw [← stills_cons_of_still h]
  exact ((List.perm_cons_erase hf).filter _).map _

theorem map_update_of_notMem {l : List Ptr} (h : p ∉ l) (m : Ptr → Frame) :
    l.map (fun q => (Function.update m p f q).startPhyAddr) = l.map (fun q => (m q).startPhyAddr) := by
  refine List.map_congr_left (fun q hq => ?_)
  rw [Function.update_of_ne (fun heq : q = p => h (heq ▸ hq))]

/-- The buffer of a new still frame begins where it was allocated. -/
theorem startPhyAddr_creatStillFrame (h : f.u32CompressFlag = true → f.phyAddrYHead = f.phyAddrY) (start : Addr) :
    (f.creatStillFrame start).startPhyAddr = start := by
  unfold Frame.startPhyAddr Frame.creatStillFrame
  split
  next hc => rw [h hc, BitVec.sub_self, BitVec.add_zero]
  next => rw [BitVec.sub_self, BitVec.add_zero]

/-! ## The steps -/

theorem Inv.send {frame : Frame} {alloc : Option Addr} {mapStill mapFrame queued : Bool} (h : Inv es s)
    (hk : Keeps s (.send frame alloc mapStill mapFrame queued))
    (hnext : s.send frame alloc mapStill mapFrame queued = (t, fs))
    (hfresh : Fresh ∅ (es ++ fs)) : Inv (es ++ fs) t := by
  unfold State.send at hnext
  split at hnext
  next =>
    cases hnext
    rwa [List.append_nil]
  next start =>
    split at hnext
    next hmap =>
      obtain ⟨rfl, rfl⟩ := hmap
      obtain ⟨rfl, hhead⟩ : queued = true ∧ (frame.u32CompressFlag = true → frame.phyAddrYHead = frame.phyAddrY) := hk
      cases hnext
      refine ⟨(h.held.create hfresh).perm ?_, ?_, h.ring, h.nodup, h.still, h.clear⟩
      · unfold StillFrame.held
        rw [stills_cons_of_still rfl, startPhyAddr_creatStillFrame hhead]
        exact List.Perm.refl _
      · intro f hf
        rcases List.mem_cons.mp hf with rfl | hf
        · rfl
        · exact h.pool f hf
    next =>
      cases hnext
      -- the buffer is released at once
      rw [show es ++ [Event.create start, .destroy start] = (es ++ [.create start]) ++ [.destroy start] by
        simp] at hfresh ⊢
      exact ⟨(h.held.create (fresh_append.mp hfresh).1).destroy, h.pool, h.ring, h.nodup, h.still, h.clear⟩

theorem Inv.useless {frame : Frame} (h : Inv es s) (hin : frame.bStillFrame = true → frame ∈ s.pool) :
    Inv es (s.useless frame) := by
  unfold State.useless
  split
  next => exact h
  next b hput =>
    obtain ⟨hring, hqueue⟩ := put_queue h.ring hput
    refine ⟨h.held.perm ?_, fun f hf => ?_, hring, h.nodup, h.still, h.clear⟩
    · unfold StillFrame.held
      rw [hqueue, stills_append]
      refine List.Perm.append_right _ ?_
      cases hstill : frame.bStillFrame with
      | true =>
        rw [if_pos rfl, stills_cons_of_still hstill]
        refine ((stills_erase (hin hstill) hstill).append_right _).trans ?_
        rw [← List.append_assoc]
        exact (List.perm_append_singleton _ _).symm
      | false =>
        rw [if_neg (by simp), stills_cons_of_not hstill]
        exact List.Perm.of_eq (by simp [stills])
    · dsimp only at hf
      split at hf
      · exact h.pool f (List.mem_of_mem_erase hf)
      · exact h.pool f hf

/-- A frame is written to a record for which there is no request, and a request for it begins: it was in no other
    place. -/
theorem Inv.take {pool : List Frame} {buffer : Buffer} (usl : Bool) (h : Inv es s)
    (hidle : s.handler.asks = []) (hp : ¬Asked s p) (hstill : frame.bStillFrame = true) (hpool : ∀ f ∈ pool, f ∈ s.pool)
    (hring : buffer.InRange)
    (hperm : (stills s.pool ++ stills s.buffer.queue).Perm
      (frame.startPhyAddr :: (stills pool ++ stills buffer.queue))) :
    Inv es { s with
      pool := pool
      buffer := buffer
      mem := Function.update s.mem p frame
      handler := .destroy usl p 0 } := by
  have hreq : requests s = table s := by
    unfold requests table
    rw [hidle, List.nil_append]
  have hnot : p ∉ table s := fun hmem => hp (mem_table.mp hmem)
  have hnd := h.nodup
  rw [hreq] at hnd
  refine ⟨h.held.perm ?_, fun f hf => h.pool f (hpool f hf), hring,
    List.nodup_cons.mpr ⟨hnot, hnd⟩, fun q hq => ?_, h.clear⟩
  · unfold StillFrame.held
    rw [hreq]
    show (stills s.pool ++ stills s.buffer.queue ++ (table s).map (fun q => (s.mem q).startPhyAddr)).Perm
      (stills pool ++ stills buffer.queue ++ (p :: table s).map (fun q =>
        (Function.update s.mem p frame q).startPhyAddr))
    rw [List.map_cons, Function.update_self, map_update_of_notMem hnot]
    refine (hperm.append_right _).trans ?_
    exact List.perm_middle.symm
  · rcases List.mem_cons.mp hq with rfl | hq
    · show (Function.update s.mem q frame q).bStillFrame = true
      rwa [Function.update_self]
    · have hne : q ≠ p := fun heq => hnot (heq ▸ hq)
      show (Function.update s.mem p frame q).bStillFrame = true
      rw [Function.update_of_ne hne]
      exact h.still q (hreq ▸ hq)

/-- Something is written to a record for which there is no request. -/
theorem Inv.write (frame : Frame) (h : Inv es s) (hp : p ∉ requests s) :
    Inv es { s with mem := Function.update s.mem p frame } := by
  refine ⟨h.held.perm ?_, h.pool, h.ring, h.nodup, fun q hq => ?_, h.clear⟩
  · refine List.Perm.append_left _ (List.Perm.of_eq ?_)
    exact (map_update_of_notMem hp s.mem).symm
  · have hne : q ≠ p := fun heq => hp (heq ▸ hq)
    show (Function.update s.mem p frame q).bStillFrame = true
    rw [Function.update_of_ne hne]
    exact h.still q hq

/-- The requests move on. -/
theorem Inv.move {handler : Handler} {node : Nat → Option Ptr} {thread : Pc} (h : Inv es s)
    (hperm : (requests s).Perm (requests { s with handler := handler, pstNeedRelFrmNode := node, thread := thread }))
    (hclear : ∀ i, thread = .clear i → i < maxReleaseNo ∧ node i ≠ none) :
    Inv es { s with handler := handler, pstNeedRelFrmNode := node, thread := thread } := by
  refine ⟨h.held.perm ?_, h.pool, h.ring, hperm.nodup_iff.mp h.nodup, fun q hq => ?_, hclear⟩
  · exact List.Perm.append_left _ (hperm.map _)
  · exact h.still q (hperm.mem_iff.mpr hq)

/-- A frame is read from the ring. -/
theorem Inv.got (h : Inv es s) (hpc : s.handler = .get p) (hp : ¬Asked s p)
    (hget : winBufferGetULSFrame s.buffer = some (frame, b)) :
    Inv es { s with
      buffer := b
      mem := Function.update s.mem p frame
      handler := if frame.bStillFrame then .destroy true p 0 else .get p } := by
  have hidle : s.handler.asks = [] := by rw [hpc]; rfl
  obtain ⟨hring, hqueue⟩ := get_queue h.ring hget
  cases hstill : frame.bStillFrame with
  | true =>
    simp only [if_true]
    refine h.take true hidle hp hstill (fun f hf => hf) hring ?_
    rw [hqueue, stills_cons_of_still hstill]
    exact List.perm_middle
  | false =>
    simp only [Bool.false_eq_true, if_false]
    have hbuf : Inv es { s with buffer := b } := by
      refine ⟨h.held.perm (List.Perm.of_eq ?_), h.pool, hring, h.nodup, h.still, h.clear⟩
      unfold StillFrame.held
      rw [hqueue, stills_cons_of_not hstill]
      rfl
    have hnot : p ∉ requests s := by
      unfold requests
      rw [hidle, List.nil_append]
      exact fun hmem => hp (mem_table.mp hmem)
    have hwrite := hbuf.write frame hnot
    rw [← hpc]
    exact hwrite

/-- A request is stored in a free node. -/
theorem Inv.store {usl : Bool} (h : Inv es s) (hpc : s.handler = .destroy usl p i) (hlt : i < maxReleaseNo)
    (hfree : s.pstNeedRelFrmNode i = none) :
    Inv es { s with
      pstNeedRelFrmNode := Function.update s.pstNeedRelFrmNode i (some p)
      handler := if usl then .get p else .idle } := by
  -- the thread does not clear a free node
  have hclear : s.thread ≠ .clear i := fun heq => (h.clear i heq).2 hfree
  have hasked : asked { s with pstNeedRelFrmNode := Function.update s.pstNeedRelFrmNode i (some p) } =
      Function.update (asked s) i (some p) := by
    funext j
    by_cases hj : j = i
    · subst hj
      rw [Function.update_self, asked, if_neg hclear]
      exact Function.update_self ..
    · rw [Function.update_of_ne hj, asked, asked]
      dsimp only
      rw [Function.update_of_ne hj]
  refine h.move ?_ (fun j hj => ⟨(h.clear j hj).1, ?_⟩)
  · have hperm := filterMap_update hlt (show asked s i = none by rw [asked, if_neg hclear, hfree]) p
    rw [← hasked] at hperm
    unfold requests
    rw [hpc]
    cases usl <;> exact hperm.symm
  · have hne : j ≠ i := fun heq => hclear (heq ▸ hj)
    rw [Function.update_of_ne hne]
    exact (h.clear j hj).2

/-- **The interrupt.** -/
theorem Inv.handler (h : Inv es s) (hk : Keeps s .handler) (hnext : s.handle = some t) : Inv es t := by
  unfold State.handle at hnext
  split at hnext
  next => cases hnext
  next p hpc =>
    split at hnext
    next =>
      cases hnext
      exact h.move (List.Perm.of_eq (by simp [requests, hpc, Handler.asks]; rfl)) h.clear
    next frame b hget =>
      cases hnext
      have hcase : s.buffer.u32ULSWtPtr = s.buffer.u32ULSRdPtr ∨ ¬Asked s p := by
        simpa only [Keeps, hpc] using hk
      rcases hcase with hempty | hp
      · cases (get_eq_none.mpr hempty).symm.trans hget
      · exact h.got hpc hp hget
  next usl p i hpc =>
    have hlt : i < maxReleaseNo := by simpa only [Keeps, hpc] using hk
    rw [if_pos hlt] at hnext
    split at hnext
    next hfree =>
      cases hnext
      exact h.store hpc hlt hfree
    next =>
      cases hnext
      exact h.move (List.Perm.of_eq (by simp [requests, hpc, Handler.asks]; rfl)) h.clear

theorem asked_scan (h : s.thread = .scan i) : asked s = s.pstNeedRelFrmNode := by
  funext j
  rw [asked, if_neg (by simp [h])]

theorem asked_wait (h : s.thread = .wait) : asked s = s.pstNeedRelFrmNode := by
  funext j
  rw [asked, if_neg (by simp [h])]

/-- The thread goes on without a release. -/
theorem Inv.pass {thread : Pc} (h : Inv es s) (hasked : asked s = s.pstNeedRelFrmNode)
    (hclear : ∀ i, thread ≠ .clear i) : Inv es { s with thread := thread } := by
  refine h.move (List.Perm.of_eq ?_) (fun i hi => absurd hi (hclear i))
  have hnew : asked { s with thread := thread } = asked s := by
    funext j
    rw [hasked, asked, if_neg (hclear j)]
  exact congrArg (fun a => s.handler.asks ++ (List.range maxReleaseNo).filterMap a) hnew.symm

/-- **The thread.** -/
theorem Inv.thread (h : Inv es s) (hnext : s.release = (t, fs)) : Inv (es ++ fs) t := by
  unfold State.release at hnext
  split at hnext
  next i hpc =>
    have hasked := asked_scan hpc
    split at hnext
    next hlt =>
      split at hnext
      next =>
        cases hnext
        rw [List.append_nil]
        exact h.pass hasked (by simp)
      next p hsome =>
        -- the records in the table, and the one of this request
        have hperm : (table s).Perm (p :: table { s with thread := .clear i }) := by
          have hnone : asked { s with thread := .clear i } i = none := if_pos rfl
          have heq : Function.update (asked { s with thread := .clear i }) i (some p) = asked s := by
            funext j
            by_cases hj : j = i
            · subst hj
              rw [Function.update_self, hasked, hsome]
            · rw [Function.update_of_ne hj, hasked, asked, if_neg (by simpa using Ne.symm hj)]
          have hupd := filterMap_update hlt hnone p
          rw [heq] at hupd
          exact hupd
        have hmem : p ∈ requests s := List.mem_append_right _ (hperm.symm.subset List.mem_cons_self)
        have hreq : (requests s).Perm (p :: requests { s with thread := .clear i }) :=
          (hperm.append_left _).trans List.perm_middle
        split at hnext
        next hstill =>
          cases hnext
          obtain ⟨hnot, hnd⟩ := List.nodup_cons.mp (hreq.nodup_iff.mp h.nodup)
          refine ⟨Held.destroy (h.held.perm ?_), h.pool, h.ring, hnd, fun q hq => ?_, fun j hj => ?_⟩
          · refine ((hreq.map _).append_left _).trans ?_
            exact List.perm_middle
          · exact h.still q (hreq.symm.subset (List.mem_cons_of_mem _ hq))
          · obtain rfl := Pc.clear.inj hj
            exact ⟨hlt, by rw [hsome]; exact Option.some_ne_none p⟩
        next hnot => exact absurd (h.still p hmem) hnot
    next =>
      cases hnext
      rw [List.append_nil]
      exact h.pass hasked (by simp)
  next i hpc =>
    cases hnext
    rw [List.append_nil]
    refine h.move (List.Perm.of_eq ?_) (by simp)
    have hnew :
        asked { s with pstNeedRelFrmNode := Function.update s.pstNeedRelFrmNode i none, thread := .scan (i + 1) } =
        asked s := by
      funext j
      rw [asked_scan rfl]
      by_cases hj : j = i
      · subst hj
        rw [asked, if_pos hpc]
        exact Function.update_self ..
      · rw [asked, if_neg (by rw [hpc]; simpa using Ne.symm hj)]
        exact Function.update_of_ne hj _ _
    exact congrArg (fun a => s.handler.asks ++ (List.range maxReleaseNo).filterMap a) hnew.symm
  next hpc =>
    cases hnext
    rw [List.append_nil]
    exact h.pass (asked_wait hpc) (by simp)

/-- **One step** in any order. -/
theorem Inv.step {i : Input} (h : Inv es s) (hk : Keeps s i) (hnext : step s i = some (t, fs))
    (hfresh : Fresh ∅ (es ++ fs)) :
    Inv (es ++ fs) t := by
  cases i with
  | send frame alloc mapStill mapFrame queued => exact h.send hk (Option.some.inj hnext) hfresh
  | useless frame =>
    simp only [StillFrame.step] at hnext
    split at hnext
    next hin =>
      cases hnext
      rw [List.append_nil]
      exact h.useless hin
    next => cases hnext
  | interrupt p =>
    simp only [StillFrame.step] at hnext
    split at hnext
    next hidle =>
      cases hnext
      rw [List.append_nil]
      exact h.move (List.Perm.of_eq (by simp [requests, hidle, Handler.asks]; rfl)) h.clear
    next => cases hnext
  | destroyStill frame p =>
    simp only [StillFrame.step] at hnext
    split at hnext
    next hin =>
      obtain ⟨hidle, hmem⟩ := hin
      cases hnext
      rw [List.append_nil]
      refine h.take false (by rw [hidle]; rfl) hk (h.pool frame hmem) (fun f hf => List.mem_of_mem_erase hf) h.ring ?_
      exact (stills_erase hmem (h.pool frame hmem)).append_right _
    next => cases hnext
  | handler =>
    obtain ⟨u, hu, heq⟩ := Option.map_eq_some_iff.mp hnext
    cases heq
    rw [List.append_nil]
    exact h.handler hk hu
  | other p frame =>
    simp only [StillFrame.step] at hnext
    split at hnext
    next => cases hnext
    next hrecord =>
      cases hnext
      rw [List.append_nil]
      have hcase : frame = s.mem p ∨ ¬Asked s p := hk
      rcases hcase with rfl | hp
      · rwa [Function.update_eq_self]
      · refine h.write frame (fun hmem => ?_)
        rcases List.mem_append.mp hmem with hasks | htable
        · exact hrecord (Handler.record_of_mem_asks hasks)
        · exact hp (mem_table.mp htable)
  | thread => exact h.thread (Option.some.inj hnext)

/-! ## The thread by itself -/

/-- Parts of the thread. -/
abbrev parts (n : Nat) : List Input := List.replicate n .thread

/-- The thread does nothing but clear requests. -/
structure Swept (i : Nat) (s t : State) : Prop where
  same : t = { s with pstNeedRelFrmNode := t.pstNeedRelFrmNode, thread := .wait }
  swept : ∀ j, i ≤ j → j < maxReleaseNo → t.pstNeedRelFrmNode j = none
  front : ∀ j, j < i → t.pstNeedRelFrmNode j = s.pstNeedRelFrmNode j

theorem run_cons {u : State} {gs : List (Event Addr)} (hnext : s.release = (t, fs))
    (h : Run step Keeps t (parts n) u gs) : Run step Keeps s (parts (n + 1)) u (fs ++ gs) :=
  (Run.nil.snoc (trivial : Keeps s .thread) (congrArg some hnext)).append h

/-- **A pass**: the thread serves the requests from the `i`-th on. -/
theorem exists_sweep (hpc : s.thread = .scan i)
    (hstill : ∀ j p, s.pstNeedRelFrmNode j = some p → j < maxReleaseNo → (s.mem p).bStillFrame = true) :
    ∃ n t fs, Run step Keeps s (parts n) t fs ∧ Swept i s t := by
  induction hk : maxReleaseNo - i generalizing s i with
  | zero =>
    have hge : ¬i < maxReleaseNo := by omega
    have hnext : s.release = ({ s with thread := .wait }, []) := by
      unfold State.release
      rw [hpc]
      exact if_neg hge
    exact ⟨1, _, _, run_cons hnext .nil, rfl, fun j hlo hhi => absurd hhi (by omega), fun j hj => rfl⟩
  | succ k ih =>
    have hlt : i < maxReleaseNo := by omega
    cases hnode : s.pstNeedRelFrmNode i with
    | none =>
      have hnext : s.release = ({ s with thread := .scan (i + 1) }, []) := by
        simp only [State.release, hpc, if_pos hlt, hnode]
      obtain ⟨n, t, fs, hrun, hsame, hswept, hfront⟩ :=
        ih (s := { s with thread := .scan (i + 1) }) rfl hstill (by omega)
      refine ⟨n + 1, t, _, run_cons hnext hrun, hsame, fun j hlo hhi => ?_, fun j hj => hfront j (by omega)⟩
      rcases Nat.eq_or_lt_of_le hlo with rfl | hlt
      · exact (hfront i (Nat.lt_succ_self i)).trans hnode
      · exact hswept j hlt hhi
    | some p =>
      have hserve : s.release = ({ s with thread := .clear i }, [.destroy (s.mem p).startPhyAddr]) := by
        simp only [State.release, hpc, if_pos hlt, hnode, if_pos (hstill i p hnode hlt)]
      have hclear : ({ s with thread := .clear i } : State).release =
          ({ s with pstNeedRelFrmNode := Function.update s.pstNeedRelFrmNode i none, thread := .scan (i + 1) }, []) :=
            rfl
      have hrest : ∀ j q, Function.update s.pstNeedRelFrmNode i none j = some q → j < maxReleaseNo →
          (s.mem q).bStillFrame = true := by
        intro j q hq hj
        by_cases hij : j = i
        · subst hij
          rw [Function.update_self] at hq
          cases hq
        · rw [Function.update_of_ne hij] at hq
          exact hstill j q hq hj
      obtain ⟨n, t, fs, hrun, hsame, hswept, hfront⟩ := ih
        (s := { s with pstNeedRelFrmNode := Function.update s.pstNeedRelFrmNode i none, thread := .scan (i + 1) }) rfl
          hrest
        (by omega)
      refine ⟨n + 1 + 1, t, _, run_cons hserve (run_cons hclear hrun), hsame, fun j hlo hhi => ?_, fun j hj => ?_⟩
      · rcases Nat.eq_or_lt_of_le hlo with rfl | hlt
        · exact (hfront i (Nat.lt_succ_self i)).trans (Function.update_self ..)
        · exact hswept j hlt hhi
      · exact (hfront j (by omega)).trans (Function.update_of_ne (Nat.ne_of_lt hj) _ _)

/-- Two passes empty the table. -/
theorem exists_sweep_all (hpc : s.thread = .scan i)
    (hstill : ∀ j p, s.pstNeedRelFrmNode j = some p → j < maxReleaseNo → (s.mem p).bStillFrame = true) :
    ∃ n t fs, Run step Keeps s (parts n) t fs ∧ Swept 0 s t := by
  obtain ⟨n, t, fs, hrun, hsweep⟩ := exists_sweep hpc hstill
  have hwait : t.release = ({ t with thread := .scan 0 }, []) := by
    rw [hsweep.same]
    rfl
  have hmem : t.mem = s.mem := by rw [hsweep.same]
  have hrest : ∀ j p, t.pstNeedRelFrmNode j = some p → j < maxReleaseNo → (t.mem p).bStillFrame = true := by
    intro j p hp hj
    rcases Nat.lt_or_ge j i with hlt | hge
    · rw [hmem]
      exact hstill j p ((hsweep.front j hlt).symm.trans hp) hj
    · cases (hsweep.swept j hge hj).symm.trans hp
  obtain ⟨m, u, gs, hrun', hsame, hswept, -⟩ := exists_sweep (s := { t with thread := .scan 0 }) rfl hrest
  have hall := hrun.append (run_cons hwait hrun')
  rw [List.replicate_append_replicate] at hall
  refine ⟨_, u, _, hall, hsame.trans ?_, hswept, fun j hj => absurd hj (Nat.not_lt_zero j)⟩
  rw [hsweep.same]

/-- **What was asked for is released**, if only the thread goes on. -/
theorem Inv.served (h : Inv es s) : ∃ n t fs, Run Vo.StillFrame.step Keeps s (parts n) t fs ∧ Swept 0 s t := by
  have hstill : ∀ j p, asked s j = some p → j < maxReleaseNo → (s.mem p).bStillFrame = true := by
    intro j p hp hj
    exact h.still p (List.mem_append_right _ (mem_table.mpr ⟨j, hj, hp⟩))
  cases hpc : s.thread with
  | scan i =>
    rw [asked_scan hpc] at hstill
    exact exists_sweep_all hpc hstill
  | wait =>
    rw [asked_wait hpc] at hstill
    have hnext : s.release = ({ s with thread := .scan 0 }, []) := by
      unfold State.release
      rw [hpc]
    obtain ⟨n, t, fs, hrun, hsame, hswept, hfront⟩ := exists_sweep_all (s := { s with thread := .scan 0 }) rfl hstill
    exact ⟨n + 1, t, _, run_cons hnext hrun, hsame, hswept, hfront⟩
  | clear i =>
    have hnext : s.release =
        ({ s with pstNeedRelFrmNode := Function.update s.pstNeedRelFrmNode i none, thread := .scan (i + 1) }, []) := by
      unfold State.release
      rw [hpc]
    have hrest : ∀ j p, Function.update s.pstNeedRelFrmNode i none j = some p → j < maxReleaseNo →
        (s.mem p).bStillFrame = true := by
      intro j p hp hj
      by_cases hij : j = i
      · subst hij
        rw [Function.update_self] at hp
        cases hp
      · rw [Function.update_of_ne hij] at hp
        refine hstill j p ?_ hj
        rw [asked, if_neg (by rw [hpc]; simpa using Ne.symm hij)]
        exact hp
    obtain ⟨n, t, fs, hrun, hsame, hswept, -⟩ := exists_sweep_all
      (s := { s with pstNeedRelFrmNode := Function.update s.pstNeedRelFrmNode i none, thread := .scan (i + 1) }) rfl
        hrest
    exact ⟨n + 1, t, _, run_cons hnext hrun, hsame, hswept, fun j hj => absurd hj (Nat.not_lt_zero j)⟩

/-! ## A run -/

theorem inv_start : Inv [] start := by
  refine ⟨?_, by simp [start], ⟨by decide, by decide⟩, ?_, ?_, by simp [start]⟩
  · have hheld : held start = [] := by decide
    rw [hheld]
    exact Held.nil
  · have hreq : requests start = [] := by decide
    rw [hreq]
    exact List.nodup_nil
  · have hreq : requests start = [] := by decide
    rw [hreq]
    exact fun p hp => absurd hp List.not_mem_nil

theorem run_inv (h : Run step Keeps start is s es) (hfresh : Fresh ∅ es) : Inv es s := by
  induction h with
  | nil => exact inv_start
  | snoc _ hk hnext ih => exact (ih (fresh_append.mp hfresh).1).step hk hnext hfresh

/-- The thread releases, and allocates nothing. -/
theorem release_events (hnext : s.release = (t, fs)) : .create a ∉ fs := by
  unfold State.release at hnext
  split at hnext
  · split_ifs at hnext
    · split at hnext
      · cases hnext
        exact List.not_mem_nil
      · split_ifs at hnext
        · cases hnext
          simp
        · cases hnext
          exact List.not_mem_nil
    · cases hnext
      exact List.not_mem_nil
  · cases hnext
    exact List.not_mem_nil
  · cases hnext
    exact List.not_mem_nil

theorem run_parts_events (h : Run step Keeps s is t fs) (his : ∀ i ∈ is, i = .thread) :
    .create a ∉ fs := by
  induction h with
  | nil => exact List.not_mem_nil
  | snoc _ _ hnext ih =>
    obtain rfl := his _ (List.mem_append_right _ List.mem_cons_self)
    intro hmem
    rcases List.mem_append.mp hmem with hmem | hmem
    · exact ih (fun i hi => his i (List.mem_append_left _ hi)) hmem
    · exact release_events (Option.some.inj hnext) hmem

theorem fresh_of_no_create {S : Finset Addr} {es : List (Event Addr)} (h : ∀ a, .create a ∉ es) : Fresh S es := by
  induction es generalizing S with
  | nil => trivial
  | cons e es ih =>
    have hrest : ∀ a, .create a ∉ es := fun a hmem => h a (List.mem_cons_of_mem _ hmem)
    cases e with
    | create a => exact absurd List.mem_cons_self (h a)
    | destroy a => exact ih hrest

/-- **What is claimed**: every buffer was released once for each time that it was allocated, but for those that are
still to be released, each of which is with one frame; and those that were asked for the thread releases, if only it
goes on. -/
structure ReleasedOnce (es : List (Event Addr)) (s : State) : Prop where
  held : Held es (held s)
  served : ∃ n t fs, Run step always s (parts n) t fs ∧ Swept 0 s t ∧ Held (es ++ fs) (StillFrame.held t)

/-- **When still frames are released once**: in every order of the calls, the interrupt and the thread, if each step
meets the condition. -/
theorem run_releasedOnce {is : List Input} (h : Run step Keeps start is s es)
    (hfresh : Fresh ∅ es) : ReleasedOnce es s := by
  have hinv := run_inv h hfresh
  obtain ⟨n, t, fs, hrun, hswept⟩ := hinv.served
  have hnone : ∀ a, .create a ∉ fs := fun a => run_parts_events hrun (fun i hi => List.eq_of_mem_replicate hi)
  have hall := run_inv (h.append hrun) (fresh_append.mpr ⟨hfresh, fresh_of_no_create hnone⟩)
  exact ⟨hinv.held, n, t, fs, hrun.mono (fun _ _ _ => trivial), hswept, hall.held⟩

instance (s : State) (p : Ptr) : Decidable (Asked s p) := inferInstanceAs (Decidable (∃ i, i < maxReleaseNo ∧ _))

instance (s : State) : (i : Input) → Decidable (Keeps s i)
  | .send frame (some _) true true queued =>
    inferInstanceAs (Decidable (queued = true ∧ (frame.u32CompressFlag = true → frame.phyAddrYHead = frame.phyAddrY)))
  | .send _ none _ _ _ => isTrue trivial
  | .send _ (some _) false _ _ => isTrue trivial
  | .send _ (some _) true false _ => isTrue trivial
  | .useless _ => isTrue trivial
  | .interrupt _ => isTrue trivial
  | .destroyStill _ p => inferInstanceAs (Decidable (¬Asked s p))
  | .handler =>
    match h : s.handler with
    | .get p => decidable_of_iff (s.buffer.u32ULSWtPtr = s.buffer.u32ULSRdPtr ∨ ¬Asked s p) (by simp [Keeps, h])
    | .destroy _ _ i => decidable_of_iff (i < maxReleaseNo) (by simp [Keeps, h])
    | .idle => isTrue (by simp [Keeps, h])
  | .other p frame => inferInstanceAs (Decidable (frame = s.mem p ∨ ¬Asked s p))
  | .thread => isTrue trivial

/-- A frame of the decoder, and the still frame that is made of it. -/
def decoded : Frame := ⟨false, false, 0x100, 0x100⟩

/-- A still frame that goes through an interrupt of its own, and `n` parts of the thread. -/
def oneInterrupt (a : Addr) (n : Nat) : List Input :=
  [.send decoded (some a) true true true, .useless (decoded.creatStillFrame a), .interrupt 7, .handler, .handler] ++
    List.replicate n .thread ++ [.handler]

/-- Two still frames, each of which the thread releases before its interrupt goes on. -/
theorem run_releasedOnce_two :
    ∃ s es, Run step Keeps start (oneInterrupt 0x1000 2 ++ oneInterrupt 0x2000 18) s es ∧
      es = [.create 0x1000, .destroy 0x1000, .create 0x2000, .destroy 0x2000] ∧ ReleasedOnce es s := by
  refine exists_run_imp (fun _ es => es = [.create 0x1000, .destroy 0x1000, .create 0x2000, .destroy 0x2000])
    (by decide) fun _ _ hrun htest => ?_
  obtain rfl := htest
  exact ⟨rfl, run_releasedOnce hrun ⟨Finset.notMem_empty _, by decide, trivial⟩⟩

/-- **Two still frames in one interrupt.** Both requests name the record of the interrupt, where the second frame is:
its buffer is released twice, and that of the first frame never. -/
theorem two_in_one_interrupt :
    ∃ is s es, Run step always start is s es ∧ Fresh ∅ es ∧ ¬ReleasedOnce es s ∧
      es = [.create 0x1000, .create 0x2000, .destroy 0x2000, .destroy 0x2000] := by
  refine ⟨[.send decoded (some 0x1000) true true true, .send decoded (some 0x2000) true true true,
      .useless (decoded.creatStillFrame 0x1000), .useless (decoded.creatStillFrame 0x2000), .interrupt 7,
        .handler, .handler,
      .handler, .handler, .handler, .handler, .thread, .thread, .thread, .thread],
    exists_run_imp (fun _ es => es = [.create 0x1000, .create 0x2000, .destroy 0x2000, .destroy 0x2000])
    (by decide) fun _ _ _ htest => ?_⟩
  obtain rfl := htest
  refine ⟨?_, fun h => ?_, rfl⟩
  · exact ⟨Finset.notMem_empty _, by decide, trivial⟩
  · have hmoves := h.held.2
    obtain ⟨-, -, -, hmem, -⟩ := hmoves
    exact absurd hmem (by decide)

end HiSTB.Vo.StillFrame
