import HiSTB.Avplay.AudEs

/-!
# `Avplay.Correctness.AudEs` — a buffer goes back to the channel it came from

`Inv` says of every buffer that it is released where it was acquired, or held by a pass that will release it there.
Acquiring, offering and switching keep it; the rest of a pass after the notification does so when the selected channel
is still the one that was selected before.

* `Released` — what is right;
* `Kept` — the selection has survived the notification;
* `run_released_iff` — buffers are released as they should be all along a run exactly when every step meets `Kept`.
-/

namespace HiSTB.Avplay.AudEs

open Lib DmxAud

variable {s t : EsState} {es fs : List EsEvent} {h : Handle} {m n : Nat} {p : EsPass}

variable {i : Nat}

/-- The queues on which buffer `n` was acquired for playing. -/
def acquiredOn (n : Nat) (es : List EsEvent) : List Handle :=
  es.filterMap fun
    | .acquired h m => if m = n then some h else none
    | _ => none

/-- The queues on which buffer `n` was released. -/
def releasedOn (n : Nat) (es : List EsEvent) : List Handle :=
  es.filterMap fun
    | .released h m => if m = n then some h else none
    | _ => none

/-- The queue to which the buffer in hand belongs: that of the selected channel or, in the notification, of the channel
    that was selected before. -/
def EsState.holder (s : EsState) : Option Handle :=
  match s.window with
  | some c => some (s.chn.hDmxAud c)
  | none => if s.procData then some (s.chn.hDmxAud s.chn.curDmxAudChn) else none

/-- Buffer `n` is in hand. -/
def EsState.Holds (s : EsState) (n : Nat) : Prop := n = s.avplayDmxEsBuf ∧ s.holder ≠ none
deriving Decidable

/-- A buffer that was acquired from a channel for playing and is no longer in hand was released once, on the queue of
    that channel; one in hand was not released. -/
def Released (es : List EsEvent) (s : EsState) : Prop :=
  ∀ h n, .acquired h n ∈ es → releasedOn n es = if s.Holds n then [] else [h]

/-- When a pass comes back from the notification, the selected channel is still the one that was selected. -/
def Kept (s : EsState) : EsCall → Prop
  | .afterNotify => ∀ c ∈ s.window, s.chn.hDmxAud s.chn.curDmxAudChn = s.chn.hDmxAud c
  | _ => True

instance (s : EsState) (i : EsCall) : Decidable (Kept s i) := by
  cases i with
  | procDmxToAdec p => exact isTrue trivial
  | setPid pid => exact isTrue trivial
  | afterNotify => exact inferInstanceAs (Decidable (∀ c ∈ s.window, _))

/-- No buffer is in hand. -/
def Idle (s : EsState) : Prop := s.procData = false ∧ s.window = none

/-! ## Acquired and released -/

theorem acquiredOn_append : acquiredOn n (es ++ fs) = acquiredOn n es ++ acquiredOn n fs := List.filterMap_append

theorem releasedOn_append : releasedOn n (es ++ fs) = releasedOn n es ++ releasedOn n fs := List.filterMap_append

theorem mem_acquiredOn : h ∈ acquiredOn n es ↔ .acquired h n ∈ es := by
  unfold acquiredOn
  rw [List.mem_filterMap]
  constructor
  · rintro ⟨e, he, hsome⟩
    cases e with
    | acquired g m =>
      dsimp only at hsome
      split at hsome
      · rename_i hm
        obtain rfl := Option.some.inj hsome
        exact hm ▸ he
      · cases hsome
    | skipped g => cases hsome
    | released g m => cases hsome
  · intro hmem
    exact ⟨_, hmem, if_pos rfl⟩

@[simp] theorem acquiredOn_acquired : acquiredOn n [.acquired h m] = if m = n then [h] else [] := by
  by_cases hm : m = n <;> simp [acquiredOn, hm]

@[simp] theorem releasedOn_acquired : releasedOn n [.acquired h m] = [] := rfl

@[simp] theorem acquiredOn_skipped : acquiredOn n [.skipped h] = [] := rfl

@[simp] theorem releasedOn_skipped : releasedOn n [.skipped h] = [] := rfl

@[simp] theorem acquiredOn_releaseEs : acquiredOn n (releaseEs s) = [] := rfl

@[simp] theorem releasedOn_releaseEs :
    releasedOn n (releaseEs s) = if s.avplayDmxEsBuf = n then [s.chn.hDmxAud s.chn.curDmxAudChn] else [] := by
  by_cases hm : s.avplayDmxEsBuf = n <;> simp [releaseEs, releasedOn, hm]

/-! ## The invariant -/

/-- The queue of buffer `n`, while it is in hand. -/
def EsState.heldOn (s : EsState) (n : Nat) : List Handle := if n = s.avplayDmxEsBuf then s.holder.toList else []

/-- Every buffer is acquired once, and what it was acquired on is what it was released on or is in hand for. -/
structure Inv (es : List EsEvent) (s : EsState) : Prop where
  new : ∀ n, s.acquired ≤ n → acquiredOn n es = []
  once : ∀ n, (acquiredOn n es).length ≤ 1
  balance : ∀ n, acquiredOn n es = releasedOn n es ++ s.heldOn n
  shut : s.window = none ∨ s.procData = false
  range : s.procData = true → s.chn.curDmxAudChn < s.chn.dmxAudChnNum

theorem Inv.idle (h0 : Idle s) : Inv [] s := by
  have hholder : s.holder = none := by
    unfold EsState.holder
    rw [h0.2, h0.1]
    rfl
  refine ⟨fun _ _ => rfl, fun _ => Nat.zero_le _, fun n => ?_, Or.inl h0.2, fun hheld => ?_⟩
  · unfold EsState.heldOn
    rw [hholder]
    exact (ite_self _).symm
  · rw [h0.1] at hheld
    cases hheld

theorem Inv.released (h : Inv es s) : Released es s := by
  intro g n hmem
  have hin : g ∈ acquiredOn n es := mem_acquiredOn.mpr hmem
  have hone : acquiredOn n es = [g] := by
    obtain ⟨x, hx⟩ := List.length_eq_one_iff.mp (Nat.le_antisymm (h.once n) (List.length_pos_of_mem hin))
    rw [hx, List.mem_singleton] at hin
    rw [hx, hin]
  have hbal := h.balance n
  rw [hone] at hbal
  unfold EsState.heldOn at hbal
  by_cases hheld : s.Holds n
  · rw [if_pos hheld]
    obtain ⟨k, hk⟩ := Option.ne_none_iff_exists'.mp hheld.2
    rw [if_pos hheld.1, hk] at hbal
    cases hrel : releasedOn n es with
    | nil => rfl
    | cons x xs =>
      rw [hrel] at hbal
      have hlen := congrArg List.length hbal
      simp at hlen
  · rw [if_neg hheld]
    by_cases hn : n = s.avplayDmxEsBuf
    · have hnone : s.holder = none := not_not.mp fun hsome => hheld ⟨hn, hsome⟩
      rw [if_pos hn, hnone] at hbal
      simpa using hbal.symm
    · rw [if_neg hn] at hbal
      simpa using hbal.symm

theorem Inv.holder_eq_none (hdata : s.procData = false) (hwin : s.window = none) : s.holder = none := by
  unfold EsState.holder
  rw [hwin, hdata]
  rfl

theorem holder_of_held (hdata : s.procData = true) (hwin : s.window = none) :
    s.holder = some (s.chn.hDmxAud s.chn.curDmxAudChn) := by
  unfold EsState.holder
  rw [hwin, hdata]
  rfl

theorem heldOn_of_holder (hnone : s.holder = none) : s.heldOn n = [] := by
  unfold EsState.heldOn
  rw [hnone]
  exact ite_self _

/-- What is held is all that the invariant reads of the state. -/
theorem Inv.same (hinv : Inv es s) (hacq : t.acquired = s.acquired) (hheld : ∀ n, t.heldOn n = s.heldOn n)
    (hshut : t.window = none ∨ t.procData = false)
    (hrange : t.procData = true → t.chn.curDmxAudChn < t.chn.dmxAudChnNum) : Inv es t := by
  refine ⟨fun n hn => hinv.new n (hacq ▸ hn), hinv.once, fun n => ?_, hshut, hrange⟩
  rw [hheld]
  exact hinv.balance n

/-- The buffer in hand goes back to its queue. -/
theorem Inv.release (hinv : Inv es s) (hholder : s.holder = some (s.chn.hDmxAud s.chn.curDmxAudChn))
    (hacq : t.acquired = s.acquired) (hdata : t.procData = false) (hwin : t.window = none) :
    Inv (es ++ releaseEs s) t := by
  have hacquired : ∀ n, acquiredOn n (es ++ releaseEs s) = acquiredOn n es := by
    intro n
    rw [acquiredOn_append, acquiredOn_releaseEs, List.append_nil]
  refine ⟨fun n hn => ?_, fun n => ?_, fun n => ?_, Or.inl hwin, fun hheld => ?_⟩
  · rw [hacquired]
    exact hinv.new n (hacq ▸ hn)
  · rw [hacquired]
    exact hinv.once n
  · rw [hacquired, hinv.balance n, releasedOn_append, releasedOn_releaseEs,
      heldOn_of_holder (Inv.holder_eq_none hdata hwin),
      List.append_nil]
    unfold EsState.heldOn
    rw [hholder]
    by_cases hn : n = s.avplayDmxEsBuf
    · rw [if_pos hn, if_pos hn.symm]
      rfl
    · rw [if_neg hn, if_neg (Ne.symm hn)]
  · rw [hdata] at hheld
    cases hheld

/-! ## A pass -/

/-- A buffer of another channel comes and goes. -/
theorem Inv.skip (hinv : Inv es s) : Inv (es ++ [.skipped h]) s := by
  have hacquired : ∀ n, acquiredOn n (es ++ [.skipped h]) = acquiredOn n es := by
    intro n
    rw [acquiredOn_append, acquiredOn_skipped, List.append_nil]
  refine ⟨fun n hn => ?_, fun n => ?_, fun n => ?_, hinv.shut, hinv.range⟩
  · rw [hacquired]
    exact hinv.new n hn
  · rw [hacquired]
    exact hinv.once n
  · rw [hacquired, releasedOn_append, releasedOn_skipped, List.append_nil]
    exact hinv.balance n

/-- A buffer of the selected channel is acquired for playing. -/
theorem Inv.acquire (hinv : Inv es s) (hdata : s.procData = false) (hwin : s.window = none)
    (hrange : s.chn.curDmxAudChn < s.chn.dmxAudChnNum) :
    Inv (es ++ [.acquired (s.chn.hDmxAud s.chn.curDmxAudChn) s.acquired])
      { s with procData := true, avplayDmxEsBuf := s.acquired, acquired := s.acquired + 1 } := by
  have hnone : ∀ n, s.heldOn n = [] := fun n => heldOn_of_holder (Inv.holder_eq_none hdata hwin)
  have hholder : EsState.holder { s with procData := true, avplayDmxEsBuf := s.acquired, acquired := s.acquired + 1 } =
      some (s.chn.hDmxAud s.chn.curDmxAudChn) := holder_of_held rfl hwin
  refine ⟨fun n hn => ?_, fun n => ?_, fun n => ?_, Or.inl hwin, fun _ => hrange⟩
  · have hlt : s.acquired < n := hn
    rw [acquiredOn_append, acquiredOn_acquired, if_neg (Nat.ne_of_lt hlt), hinv.new n (Nat.le_of_lt hlt)]
    rfl
  · rw [acquiredOn_append, acquiredOn_acquired]
    by_cases hn : s.acquired = n
    · rw [if_pos hn, hinv.new n (Nat.le_of_eq hn)]
      exact Nat.le_refl 1
    · rw [if_neg hn, List.append_nil]
      exact hinv.once n
  · rw [acquiredOn_append, acquiredOn_acquired, releasedOn_append, releasedOn_acquired, List.append_nil, hinv.balance n,
      hnone, List.append_nil]
    unfold EsState.heldOn
    rw [hholder]
    by_cases hn : s.acquired = n
    · rw [if_pos hn, if_pos hn.symm]
      rfl
    · rw [if_neg hn, if_neg (Ne.symm hn)]

/-- What holds in the loop before channel `i`: the buffer in hand, if there is one, is of an earlier channel. -/
structure LoopInv (es : List EsEvent) (s : EsState) (i : Nat) : Prop where
  inv : Inv es s
  window : s.window = none
  held : s.procData = true → s.chn.curDmxAudChn < i

theorem setAudEos_eq (s : EsState) (p : EsPass) : ∃ eos, (setAudEos s p).2 = { s with bSetAudEos := eos } := by
  unfold setAudEos
  split
  · split
    · exact ⟨_, rfl⟩
    · exact ⟨true, rfl⟩
  · exact ⟨_, rfl⟩

theorem LoopInv.mono {j : Nat} (hloop : LoopInv es s i) (hij : i ≤ j) : LoopInv es s j :=
  ⟨hloop.inv, hloop.window, fun hdata => Nat.lt_of_lt_of_le (hloop.held hdata) hij⟩

/-- One channel of the loop. -/
theorem LoopInv.acquireOne (hloop : LoopInv es s i) (hi : i < s.chn.dmxAudChnNum) :
    LoopInv (es ++ (acquireOne s p i).2.2) (acquireOne s p i).2.1 (i + 1) ∧
      (AudEs.acquireOne s p i).2.1.chn = s.chn := by
  have hnext : LoopInv es s (i + 1) := hloop.mono (Nat.le_succ i)
  unfold AudEs.acquireOne
  by_cases hcur : i = s.chn.curDmxAudChn
  · rw [if_pos hcur]
    have hdata : s.procData = false :=
      Bool.of_not_eq_true fun hheld => Nat.lt_irrefl i (by simpa [← hcur] using hloop.held hheld)
    cases p.acquireEs i with
    | success =>
      refine ⟨⟨?_, hloop.window, fun _ => ?_⟩, rfl⟩
      · rw [hcur]
        exact hloop.inv.acquire hdata hloop.window (hcur ▸ hi)
      · exact hcur ▸ Nat.lt_succ_self i
    | emptyBuffer =>
      obtain ⟨eos, heos⟩ := setAudEos_eq s p
      rw [heos, List.append_nil]
      exact ⟨⟨hloop.inv.same rfl (fun _ => rfl) hloop.inv.shut hloop.inv.range, hloop.window, hnext.held⟩, rfl⟩
    | failed =>
      rw [List.append_nil]
      exact ⟨hnext, rfl⟩
  · rw [if_neg hcur]
    cases p.acquireEs i with
    | success => exact ⟨⟨hloop.inv.skip, hloop.window, hnext.held⟩, rfl⟩
    | emptyBuffer =>
      rw [List.append_nil]
      exact ⟨hnext, rfl⟩
    | failed =>
      rw [List.append_nil]
      exact ⟨hnext, rfl⟩

/-- The loop, by induction over the channels that are left. -/
theorem LoopInv.acquireLoop (hloop : LoopInv es s i) (hn : i + n ≤ s.chn.dmxAudChnNum) :
    LoopInv (es ++ (acquireLoop p s i n).2.2) (acquireLoop p s i n).2.1 (i + n) := by
  induction n generalizing s es i with
  | zero =>
    unfold AudEs.acquireLoop
    rw [List.append_nil]
    exact hloop
  | succ n ih =>
    obtain ⟨hone, hchn⟩ := hloop.acquireOne (p := p) (Nat.lt_of_lt_of_le (Nat.lt_add_of_pos_right (Nat.succ_pos n)) hn)
    unfold AudEs.acquireLoop
    dsimp only
    split
    · have hrest := ih hone (by rw [hchn]; omega)
      rw [← List.append_assoc, Nat.add_comm n 1, ← Nat.add_assoc]
      exact hrest
    · exact hone.mono (by omega)

/-- The buffer is offered to the decoder. -/
theorem Inv.playEs (hinv : Inv es s) (hwin : s.window = none) : Inv (es ++ (playEs s p).2) (playEs s p).1 := by
  unfold AudEs.playEs
  cases hdata : s.procData with
  | false =>
    rw [if_neg Bool.noConfusion, List.append_nil]
    exact hinv
  | true =>
    rw [if_pos rfl]
    have hholder := holder_of_held hdata hwin
    unfold sendStream
    cases p.sendStream with
    | success =>
      rw [List.append_nil]
      refine hinv.same rfl (fun n => ?_) (Or.inr rfl) (fun hheld => Bool.noConfusion hheld)
      unfold EsState.heldOn
      rw [hholder]
      rfl
    | inBufFull =>
      rw [List.append_nil]
      exact hinv
    | inPtsBufFull =>
      rw [List.append_nil]
      exact hinv
    | failed => exact hinv.release hholder rfl rfl hwin

/-- A pass up to the notification. -/
theorem Inv.procDmxToAdec (hinv : Inv es s) (hwin : s.window = none) :
    Inv (es ++ (procDmxToAdec s p).2) (procDmxToAdec s p).1 := by
  have hloop : LoopInv (es ++ (if s.procData then (true, s, []) else acquireLoop p s 0 s.chn.dmxAudChnNum).2.2)
      (if s.procData then (true, s, []) else acquireLoop p s 0 s.chn.dmxAudChnNum).2.1 s.chn.dmxAudChnNum := by
    cases hdata : s.procData with
    | true =>
      rw [if_pos rfl, List.append_nil]
      exact ⟨hinv, hwin, fun _ => hinv.range hdata⟩
    | false =>
      rw [if_neg Bool.noConfusion]
      have hstart : LoopInv es s 0 := ⟨hinv, hwin, fun hheld => by rw [hdata] at hheld; cases hheld⟩
      have hall := hstart.acquireLoop (p := p) (n := s.chn.dmxAudChnNum) (by rw [Nat.zero_add])
      rw [Nat.zero_add] at hall
      exact hall
  unfold AudEs.procDmxToAdec
  split
  · rw [List.append_nil]
    exact hinv
  · revert hloop
    generalize (if s.procData then (true, s, []) else acquireLoop p s 0 s.chn.dmxAudChnNum) = r
    intro hloop
    dsimp only
    split
    · rw [← List.append_assoc]
      exact hloop.inv.playEs hloop.window
    · exact hloop.inv

/-! ## Another channel is selected -/

theorem setPid_hDmxAud (pid : BitVec 32) (a : AudChn) : (DmxAud.setPid pid a).hDmxAud = a.hDmxAud := by
  unfold DmxAud.setPid
  split
  · rfl
  · split
    · split
      · rfl
      · rfl
    · split
      · rfl
      · rfl

/-- Unless another channel is selected, the selection stays where a buffer in hand needs it. -/
theorem setPid_of_not_switches {pid : BitVec 32} (hno : ¬ switches s pid = true)
    (hrange : s.chn.curDmxAudChn < s.chn.dmxAudChnNum) :
    (DmxAud.setPid pid s.chn).curDmxAudChn = s.chn.curDmxAudChn ∧
      (DmxAud.setPid pid s.chn).dmxAudChnNum = s.chn.dmxAudChnNum := by
  unfold DmxAud.setPid
  split
  · exact ⟨rfl, rfl⟩
  · rename_i hopen
    split
    · rename_i hnum
      split
      · exact ⟨rfl, rfl⟩
      · exact ⟨by show 0 = _; omega, rfl⟩
    · rename_i hnum
      split
      · rename_i i hfind
        refine absurd ?_ hno
        unfold switches
        simp only [not_or, Bool.not_eq_false] at hopen
        simp only [hopen.1, hopen.2, Bool.and_eq_true, bne_iff_ne, List.any_eq_true]
        exact ⟨⟨⟨trivial, trivial⟩, hnum⟩, i, List.mem_of_find?_eq_some hfind, by simpa using List.find?_some hfind⟩
      · exact ⟨rfl, rfl⟩

/-- The buffer in hand goes back before another channel is selected. -/
theorem Inv.setPid (hinv : Inv es s) (pid : BitVec 32) : Inv (es ++ (setPid s pid).2) (setPid s pid).1 := by
  unfold AudEs.setPid
  by_cases hback : switches s pid = true ∧ s.procData = true
  · rw [if_pos hback]
    have hwin : s.window = none := hinv.shut.resolve_right fun hdata => by
      rw [hback.2] at hdata
      cases hdata
    exact hinv.release (holder_of_held hback.2 hwin) rfl rfl hwin
  · rw [if_neg hback, List.append_nil]
    have hkeep : s.procData = true → (DmxAud.setPid pid s.chn).curDmxAudChn = s.chn.curDmxAudChn ∧
        (DmxAud.setPid pid s.chn).dmxAudChnNum = s.chn.dmxAudChnNum :=
      fun hdata => setPid_of_not_switches (fun hsw => hback ⟨hsw, hdata⟩) (hinv.range hdata)
    refine hinv.same rfl (fun n => ?_) hinv.shut (fun hdata => ?_)
    · unfold EsState.heldOn EsState.holder
      rw [setPid_hDmxAud]
      cases hdata : s.procData with
      | false => rfl
      | true => rw [(hkeep hdata).1]
    · show (DmxAud.setPid pid s.chn).curDmxAudChn < _
      rw [(hkeep hdata).1, (hkeep hdata).2]
      exact hinv.range hdata

/-! ## Runs -/

theorem Inv.holder_window {c : Nat} (hwin : s.window = some c) : s.holder = some (s.chn.hDmxAud c) := by
  unfold EsState.holder
  rw [hwin]

/-- **A step that keeps the selection keeps the invariant.** -/
theorem Inv.step {i : EsCall} (hinv : Inv es s) (hC : Kept s i) (hnext : esStep s i = some (t, fs)) :
    Inv (es ++ fs) t := by
  cases i with
  | procDmxToAdec p =>
    rw [esStep] at hnext
    split at hnext
    · rename_i hwin
      obtain ⟨rfl, rfl⟩ := Prod.mk.inj (Option.some.inj hnext)
      exact hinv.procDmxToAdec hwin
    · cases hnext
  | setPid pid =>
    rw [esStep] at hnext
    obtain ⟨rfl, rfl⟩ := Prod.mk.inj (Option.some.inj hnext)
    exact hinv.setPid pid
  | afterNotify =>
    rw [esStep] at hnext
    split at hnext
    · cases hnext
    · rename_i hwin
      cases hnext
      obtain ⟨c, hc⟩ := Option.ne_none_iff_exists'.mp hwin
      have hholder : s.holder = some (s.chn.hDmxAud s.chn.curDmxAudChn) :=
        (Inv.holder_window hc).trans (congrArg some (hC c hc).symm)
      have hdata : s.procData = false := hinv.shut.resolve_left hwin
      exact hinv.release hholder rfl hdata rfl

/-- **With another channel selected, the buffer goes back to a queue it did not come from.** -/
theorem not_released_of_not_kept {i : EsCall} (hinv : Inv es s) (hC : ¬ Kept s i) (hnext : esStep s i = some (t, fs)) :
    ¬ Released (es ++ fs) t := by
  cases i with
  | procDmxToAdec p => exact absurd trivial hC
  | setPid pid => exact absurd trivial hC
  | afterNotify =>
    rw [esStep] at hnext
    split at hnext
    · cases hnext
    · obtain rfl : (afterNotify s).1 = t := congrArg Prod.fst (Option.some.inj hnext)
      obtain rfl : (afterNotify s).2 = fs := congrArg Prod.snd (Option.some.inj hnext)
      have hex : ∃ c ∈ s.window, s.chn.hDmxAud s.chn.curDmxAudChn ≠ s.chn.hDmxAud c := by
        simpa only [Kept, not_forall, exists_prop] using hC
      obtain ⟨c, hc, hne⟩ := hex
      have hbal := hinv.balance s.avplayDmxEsBuf
      have hheld : s.heldOn s.avplayDmxEsBuf = [s.chn.hDmxAud c] := by
        unfold EsState.heldOn
        rw [if_pos rfl, Inv.holder_window hc]
        rfl
      rw [hheld] at hbal
      have hrel : releasedOn s.avplayDmxEsBuf es = [] := by
        have hlen := hinv.once s.avplayDmxEsBuf
        rw [hbal, List.length_append, List.length_singleton] at hlen
        exact List.length_eq_zero_iff.mp (by omega)
      rw [hrel, List.nil_append] at hbal
      have hmem : EsEvent.acquired (s.chn.hDmxAud c) s.avplayDmxEsBuf ∈ es := by
        apply mem_acquiredOn.mp
        rw [hbal]
        exact List.mem_singleton_self _
      intro hright
      have hrelease := hright _ _ (List.mem_append_left _ hmem)
      have hdata : s.procData = false := hinv.shut.resolve_left (by rw [hc]; exact Option.some_ne_none c)
      have hout : ¬ (afterNotify s).1.Holds s.avplayDmxEsBuf :=
        fun hholds => hholds.2 (Inv.holder_eq_none hdata rfl)
      rw [if_neg hout] at hrelease
      have heq : [s.chn.hDmxAud s.chn.curDmxAudChn] = [s.chn.hDmxAud c] := by
        calc [s.chn.hDmxAud s.chn.curDmxAudChn]
            = releasedOn s.avplayDmxEsBuf es ++ releasedOn s.avplayDmxEsBuf (releaseEs s) := by
              rw [hrel, releasedOn_releaseEs, if_pos rfl, List.nil_append]
          _ = releasedOn s.avplayDmxEsBuf (es ++ (afterNotify s).2) := releasedOn_append.symm
          _ = [s.chn.hDmxAud c] := hrelease
      exact hne (List.head_eq_of_cons_eq heq)

/-- **When every buffer goes back once to the channel it came from, all along a run.** -/
theorem run_released_iff {s₀ : EsState} (h0 : Idle s₀) {is : List EsCall} (h : Run esStep always s₀ is s es) :
    (∀ js t fs, js <+: is → Run esStep always s₀ js t fs → Released fs t) ↔ Run esStep Kept s₀ is s es := by
  have hinv : ∀ {is s es}, Run esStep Kept s₀ is s es → Inv es s :=
    fun hrun => hrun.inv_effects (fun _ s es => Inv es s) (.idle h0) (fun _ _ _ _ _ _ hs hC hnext => hs.step hC hnext)
  exact h.iff_along (P := fun _ t fs => Released fs t) (fun hrun => (hinv hrun).released)
    (fun _ _ _ hrun hC hnext => not_released_of_not_kept (hinv hrun) hC hnext)

/-- Two channels; the first one is heard. -/
def twoChannels : EsState :=
  ⟨⟨true, true, true, fun i => BitVec.ofNat 32 (0x40000 + i), fun i => BitVec.ofNat 32 (0x100 + i), 2, 0, none⟩,
    false, 0, false, 0, none⟩

/-- Both channels have data, and the decoder answers `ret`. -/
def passWith (ret : AdecRet) : EsPass := ⟨false, fun _ => .success, false, true, none, ret⟩

/-- The decoder is full, the other channel is selected, and its buffer is played. -/
theorem run_released_switch : ∃ s es,
    Run esStep always twoChannels [.procDmxToAdec (passWith .inBufFull), .setPid 0x101,
      .procDmxToAdec (passWith .success),
      .afterNotify] s es ∧ .acquired 0x40001 1 ∈ es ∧
    ∀ js t fs, js <+: [.procDmxToAdec (passWith .inBufFull), .setPid 0x101,
      .procDmxToAdec (passWith .success), .afterNotify] →
      Run esStep always twoChannels js t fs → Released fs t := by
  obtain ⟨s, es, hrun, hmem⟩ := exists_run_of_exec esStep Kept twoChannels
    [.procDmxToAdec (passWith .inBufFull), .setPid 0x101, .procDmxToAdec (passWith .success), .afterNotify]
    (fun r => decide (.acquired 0x40001 1 ∈ r.2)) (by decide)
  have hall := hrun.mono (fun _ _ _ => trivial)
  exact ⟨s, es, hall, of_decide_eq_true hmem, (run_released_iff ⟨rfl, rfl⟩ hall).mpr hrun⟩

/-- The other channel is selected in the notification: the buffer of channel `0x40000` goes back to `0x40001`. -/
theorem not_released_in_notification : ∃ s es,
    Run esStep always twoChannels [.procDmxToAdec (passWith .success), .setPid 0x101, .afterNotify] s es ∧
      .acquired 0x40000 0 ∈ es ∧ releasedOn 0 es = [0x40001] ∧ ¬ Released es s := by
  refine exists_run_imp (fun s es => .acquired 0x40000 0 ∈ es ∧ releasedOn 0 es = [0x40001] ∧ ¬ s.Holds 0)
    (by decide) fun _ _ _ htest => ?_
  obtain ⟨hmem, hrel, hout⟩ := htest
  refine ⟨hmem, hrel, fun hright => ?_⟩
  have hrelease := hright _ _ hmem
  rw [if_neg hout, hrel] at hrelease
  exact absurd hrelease (by decide)

end HiSTB.Avplay.AudEs
