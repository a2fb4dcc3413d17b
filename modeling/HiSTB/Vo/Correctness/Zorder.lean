import HiSTB.Vo.Correctness.Tables
import HiSTB.Lib.Ranks

/-!
# `Vo.Correctness.Zorder` — the stack of a display

The z-orders of the windows of a display are a ranking, and each of the moves is a renumbering of it. Where the layout
is refused, the z-orders are written back for as many slots as there are windows; a window in a slot behind these keeps
what the move gave it.

* `zorders` — the z-orders of a display; `zorders_update` — a slot changes;
* `move_map` — a move is a renumbering, `moveOf`;
* `Behind` — a move that is refused changes no window behind the slots that are written back;
* `run_zorder` — in every run whose refused moves meet it, the z-orders are a ranking; what a move keeps;
* `two_at_the_bottom` — what happens without.
-/

namespace HiSTB.Vo

open Lib Lib.Ranks

variable {cfg : Config} {a : Slots} {c i j : Fin windowMaxNumber} {w : Window}

variable {f : Fin windowMaxNumber → Nat → Nat} {u v : Window} {flag : Zorder} {n z : Nat}
    {b : Fin windowMaxNumber} {layout : Bool}

/-! ## The z-orders of a display -/

/-- The z-orders of the windows, by slot. -/
def zorders (a : Slots) : List Nat := (List.finRange windowMaxNumber).filterMap (fun i => (a i).map Window.u32Zorder)

theorem length_zorders (a : Slots) : (zorders a).length = a.count := by
  unfold zorders Slots.count
  rw [List.length_filterMap_eq_countP]
  exact countP_same (fun i _ => by cases a i <;> rfl)

theorem mem_zorders (h : a i = some w) : w.u32Zorder ∈ zorders a :=
  List.mem_filterMap.mpr ⟨i, List.mem_finRange i, by rw [h]; rfl⟩

/-- A renumbering that looks at the z-orders only. -/
theorem zorders_renumber (a : Slots) (f : Nat → Nat) : zorders (a.renumber (fun _ => f)) = (zorders a).map f := by
  unfold zorders Slots.renumber
  rw [List.map_filterMap]
  congr 1
  funext i
  cases a i <;> rfl

theorem renumber_congr {g : Fin windowMaxNumber → Nat → Nat}
    (h : ∀ i w, a i = some w → f i w.u32Zorder = g i w.u32Zorder) :
    a.renumber f = a.renumber g := by
  funext i
  unfold Slots.renumber
  cases hi : a i with
  | none => rfl
  | some w => rw [Option.map_some, Option.map_some, h i w hi]

/-- **A slot changes.** -/
theorem zorders_update (a : Slots) (i : Fin windowMaxNumber) (w : Window) :
    (zorders (Function.update a i (some w))).Perm (w.u32Zorder :: zorders (Function.update a i none)) := by
  obtain ⟨as, bs, hsplit⟩ := List.append_of_mem (List.mem_finRange i)
  have hnodup := List.nodup_finRange windowMaxNumber
  rw [hsplit] at hnodup
  have hnot : ∀ k ∈ as ++ bs, k ≠ i := by
    rintro k hk rfl
    have hperm : (as ++ k :: bs).Nodup ↔ (k :: (as ++ bs)).Nodup := List.perm_middle.nodup_iff
    exact (List.nodup_cons.mp (hperm.mp hnodup)).1 hk
  -- the other slots are the same
  have hsame : ∀ (x y : Option Window) (l : List (Fin windowMaxNumber)), (∀ k ∈ l, k ≠ i) →
      l.filterMap (fun k => (Function.update a i x k).map Window.u32Zorder) =
        l.filterMap (fun k => (Function.update a i y k).map Window.u32Zorder) := by
    intro x y l hl
    apply List.filterMap_congr
    intro k hk
    rw [Function.update_of_ne (hl k hk), Function.update_of_ne (hl k hk)]
  unfold zorders
  rw [hsplit, List.filterMap_append, List.filterMap_append, List.filterMap_cons_some (b := w.u32Zorder),
    List.filterMap_cons_none, hsame (some w) none as (fun k hk => hnot k (List.mem_append_left _ hk)),
    hsame (some w) none bs (fun k hk => hnot k (List.mem_append_right _ hk))]
  · exact List.perm_middle
  · rw [Function.update_self]
    rfl
  · rw [Function.update_self]
    rfl

theorem zorders_add (hfree : a i = none) :
    (zorders (Function.update a i (some w))).Perm (w.u32Zorder :: zorders a) := by
  have hupd := zorders_update a i w
  have hself : Function.update a i none = a := by
    rw [← hfree]
    exact Function.update_eq_self i a
  rwa [hself] at hupd

theorem zorders_remove (hw : a i = some w) : (zorders a).Perm (w.u32Zorder :: zorders (Function.update a i none)) := by
  have hupd := zorders_update a i w
  have hself : Function.update a i (some w) = a := by
    rw [← hw]
    exact Function.update_eq_self i a
  rwa [hself] at hupd

/-- The windows of a display are stacked. -/
def Stacked (a : Slots) : Prop := Ranking (zorders a)

theorem Stacked.lt (h : Stacked a) (hw : a i = some w) : w.u32Zorder < a.count := by
  have hlt := Ranking.lt h (mem_zorders hw)
  rwa [length_zorders] at hlt

/-- No two windows are at one place. -/
theorem Stacked.inj (h : Stacked a) (hu : a i = some u) (hv : a j = some v)
    (heq : u.u32Zorder = v.u32Zorder) : i = j := by
  by_contra hne
  have hnodup := (zorders_remove hu).nodup_iff.mp h.nodup
  apply (List.nodup_cons.mp hnodup).1
  rw [heq]
  apply mem_zorders (i := j)
  rw [Function.update_of_ne (fun hji => hne hji.symm)]
  exact hv

/-! ## The moves -/

/-- The renumbering of a move, of the window with the z-order `z` among `n`. -/
def moveOf (flag : Zorder) (n z v : Nat) : Nat :=
  match flag with
  | .moveTop => toTop n z v
  | .moveUp => if z + 1 < n then swap z (z + 1) v else v
  | .moveBottom => toBottom z v
  | .moveDown => if z = 0 then v else swap z (z - 1) v

/-- The z-orders that a move changes. -/
def Touches (flag : Zorder) (n z v : Nat) : Prop :=
  match flag with
  | .moveTop => z ≤ v ∧ z + 1 < n
  | .moveUp => (v = z ∨ v = z + 1) ∧ z + 1 < n
  | .moveBottom => v ≤ z ∧ 0 < z
  | .moveDown => (v = z ∨ v + 1 = z) ∧ 0 < z

theorem moveOf_of_not_touches {v : Nat} (hz : z < n) (hv : v < n) (h : ¬ Touches flag n z v) :
    moveOf flag n z v = v := by
  cases flag <;> simp only [Touches, moveOf, toTop, closeGap, swap, toBottom] at h ⊢ <;> split_ifs <;> omega

/-- **A move keeps a ranking.** -/
theorem ranking_moveOf {rs : List Nat} (flag : Zorder) (h : Ranking rs) (hz : z < rs.length) :
    Ranking (rs.map (moveOf flag rs.length z)) := by
  cases flag with
  | moveTop => exact h.top hz
  | moveUp =>
    show Ranking (rs.map (fun v => if z + 1 < rs.length then swap z (z + 1) v else v))
    split_ifs with hlt
    · exact h.exchange hz hlt
    · rw [List.map_id']
      exact h
  | moveBottom => exact h.bottom hz
  | moveDown =>
    show Ranking (rs.map (fun v => if z = 0 then v else swap z (z - 1) v))
    split_ifs with hzero
    · rw [List.map_id']
      exact h
    · exact h.exchange hz (by omega)

/-- **And the order of the others.** -/
theorem moveOf_lt_iff {u v : Nat} (hu : u ≠ z) (hv : v ≠ z) :
    moveOf flag n z u < moveOf flag n z v ↔ u < v := by
  cases flag with
  | moveTop => exact toTop_lt_iff hu hv
  | moveUp =>
    simp only [moveOf]
    split_ifs
    · exact swap_lt_iff (Or.inl rfl) hu hv
    · rfl
  | moveBottom => exact toBottom_lt_iff hu hv
  | moveDown =>
    simp only [moveOf]
    split_ifs
    · rfl
    · exact swap_lt_iff (Or.inr (by omega)) hu hv

theorem find_some (h : a.find z = some b) : ∃ v, a b = some v ∧ v.u32Zorder = z := by
  have htest := List.find?_some h
  rw [Option.any_eq_true] at htest
  obtain ⟨v, hv, hz⟩ := htest
  exact ⟨v, hv, of_decide_eq_true hz⟩

theorem find_none (h : a.find z = none) (hw : a i = some w) : w.u32Zorder ≠ z := by
  have htest := List.find?_eq_none.mp h i (List.mem_finRange i)
  rw [hw] at htest
  simpa using htest

theorem renumber_renumber (a : Slots) (f g : Fin windowMaxNumber → Nat → Nat) :
    (a.renumber f).renumber g = a.renumber (fun i v => g i (f i v)) := by
  funext i
  unfold Slots.renumber
  cases a i <;> rfl

theorem renumber_eq_self (h : ∀ i w, a i = some w → f i w.u32Zorder = w.u32Zorder) :
    a.renumber f = a := by
  funext i
  unfold Slots.renumber
  cases hi : a i with
  | none => rfl
  | some w => rw [Option.map_some, h i w hi]

theorem Stacked.eq_iff (h : Stacked a) (hu : a i = some u) (hv : a j = some v) :
    u.u32Zorder = v.u32Zorder ↔ i = j := by
  constructor
  · exact h.inj hu hv
  · rintro rfl
    rw [Option.some.inj (hu.symm.trans hv)]

/-- A ranking has no gap: where there are more windows than `z`, one is at `z`. -/
theorem Stacked.find_ne_none (h : Stacked a) (hz : z < a.count) : a.find z ≠ none := by
  intro hfind
  rw [← length_zorders] at hz
  obtain ⟨i, -, hi⟩ := List.mem_filterMap.mp (Ranking.mem h hz)
  obtain ⟨u, hu, huz⟩ := Option.map_eq_some_iff.mp hi
  exact find_none hfind hu huz

/-- **Two windows change places**, where each one's z-order becomes the one of the other. -/
theorem Stacked.renumber_swap {f g : Nat → Nat} (h : Stacked a) (hw : a c = some w)
    (hv : a b = some v) (hf : f w.u32Zorder = v.u32Zorder) (hg : g v.u32Zorder = w.u32Zorder) :
    a.renumber (fun i z => if i = c then f z else if i = b then g z else z) =
      a.renumber (fun _ => swap w.u32Zorder v.u32Zorder) := by
  apply renumber_congr
  intro i u hu
  dsimp only [swap]
  simp only [h.eq_iff hu hw, h.eq_iff hu hv]
  split_ifs with hic hib
  · rw [(h.eq_iff hu hw).mpr hic, hf]
  · rw [(h.eq_iff hu hv).mpr hib, hg]
  · rfl

/-- **A move is its renumbering**, and then the layout is taken or refused. -/
theorem move_map (flag : Zorder) (h : Stacked a) (hw : a c = some w) (layout : Bool) :
    winZorderMove flag a c w layout =
        settle (winZorderSave a) (a.renumber (fun _ => moveOf flag a.count w.u32Zorder)) layout ∨
      winZorderMove flag a c w layout = (a, .success) ∧ a.renumber (fun _ => moveOf flag a.count w.u32Zorder) = a := by
  cases flag with
  | moveTop =>
    left
    unfold winZorderMove winZorderMoveTop
    dsimp only
    rw [renumber_renumber]
    congr 1
    apply renumber_congr
    intro i u hu
    have hiff := h.eq_iff hu hw
    dsimp only [moveOf, toTop, closeGap]
    split_ifs <;> simp_all
  | moveBottom =>
    left
    unfold winZorderMove winZorderMoveBottom
    dsimp only
    rw [renumber_renumber]
    congr 1
    apply renumber_congr
    intro i u hu
    have hiff := h.eq_iff hu hw
    dsimp only [moveOf, toBottom]
    split_ifs <;> simp_all
  | moveUp =>
    left
    unfold winZorderMove winZorderMoveUp
    dsimp only
    cases hfind : a.find (w.u32Zorder + 1) with
    | some b =>
      obtain ⟨v, hv, hvz⟩ := find_some hfind
      have hroom : w.u32Zorder + 1 < a.count := hvz ▸ h.lt hv
      have hmove : moveOf .moveUp a.count w.u32Zorder = swap w.u32Zorder v.u32Zorder := by
        funext z
        rw [hvz]
        exact if_pos hroom
      dsimp only
      rw [hmove, h.renumber_swap hw hv hvz.symm (by rw [hvz, Nat.add_sub_cancel])]
    | none =>
      -- the window is the top one
      have htop : ¬ w.u32Zorder + 1 < a.count := fun hlt => h.find_ne_none hlt hfind
      have hid : a.renumber (fun _ => moveOf .moveUp a.count w.u32Zorder) = a := by
        apply renumber_eq_self
        intro i u _
        exact if_neg htop
      rw [hid]
  | moveDown =>
    have hmove : winZorderMove .moveDown a c w layout = winZorderMoveDown a c w layout := rfl
    rw [hmove]
    unfold winZorderMoveDown
    by_cases hzero : w.u32Zorder = 0
    · right
      rw [if_pos hzero]
      refine ⟨rfl, ?_⟩
      apply renumber_eq_self
      intro i u _
      exact if_pos hzero
    · left
      rw [if_neg hzero]
      cases hfind : a.find (w.u32Zorder - 1) with
      | some b =>
        obtain ⟨v, hv, hvz⟩ := find_some hfind
        have hmove : moveOf .moveDown a.count w.u32Zorder = swap w.u32Zorder v.u32Zorder := by
          funext z
          rw [hvz]
          exact if_neg hzero
        dsimp only
        rw [hmove, h.renumber_swap hw hv hvz.symm (by omega)]
      | none =>
        have hlt := h.lt hw
        exact absurd hfind (h.find_ne_none (by omega))

/-- What is written back, where the windows behind it did not change. -/
theorem restore_renumber {f : Nat → Nat}
    (hf : ∀ i w, a i = some w → a.count ≤ i.val → f w.u32Zorder = w.u32Zorder) :
    winZorderRestore (winZorderSave a) (a.renumber (fun _ => f)) = a := by
  unfold winZorderRestore
  rw [count_renumber, renumber_renumber]
  apply renumber_eq_self
  intro i w hw
  split_ifs with hlt
  · unfold winZorderSave
    rw [if_pos hlt, hw]
  · exact hf i w hw (Nat.le_of_not_lt hlt)

/-- A move is taken, or it changes no window in the slots behind those that are written back. -/
def BehindSlots (a : Slots) (flag : Zorder) (w : Window) (layout : Bool) : Prop :=
  layout = true ∨
    ∀ i : Fin windowMaxNumber, a.count ≤ i.val → ∀ u ∈ a i, ¬ Touches flag a.count w.u32Zorder u.u32Zorder

/-- **What a move does.** -/
theorem move_spec (h : Stacked a) (hw : a c = some w)
    (hb : BehindSlots a flag w layout) :
    Stacked (winZorderMove flag a c w layout).1 ∧
    ((winZorderMove flag a c w layout).2 = .failure → (winZorderMove flag a c w layout).1 = a) ∧
    ((winZorderMove flag a c w layout).2 = .success →
      (winZorderMove flag a c w layout).1 = a.renumber (fun _ => moveOf flag a.count w.u32Zorder)) := by
  have hwlt := h.lt hw
  have hranked : Stacked (a.renumber (fun _ => moveOf flag a.count w.u32Zorder)) := by
    unfold Stacked
    rw [zorders_renumber, ← length_zorders]
    exact ranking_moveOf flag h (by rw [length_zorders]; exact hwlt)
  rcases move_map flag h hw layout with heq | ⟨heq, hsame⟩
  · rw [heq]
    unfold settle
    cases layout with
    | true =>
      simp only [if_true]
      exact ⟨hranked, fun hf => Ret.noConfusion hf, fun _ => trivial⟩
    | false =>
      have hback : winZorderRestore (winZorderSave a) (a.renumber (fun _ => moveOf flag a.count w.u32Zorder)) = a := by
        apply restore_renumber
        intro i u hu hi
        exact moveOf_of_not_touches hwlt (h.lt hu) (hb.resolve_left Bool.false_ne_true i hi u hu)
      simp only [Bool.false_eq_true, if_false, hback]
      exact ⟨h, fun _ => trivial, fun hf => Ret.noConfusion hf⟩
  · rw [heq]
    exact ⟨h, fun hf => Ret.noConfusion hf, fun _ => hsame.symm⟩

/-! ## Runs -/

variable {s t : Sys} {es : List Event}

/-- An operation keeps the stacks. -/
theorem Op.stacked (h : Op cfg s es t) (hs : ∀ d, Stacked (s.disp d).pstWinArray) : ∀ d,
    Stacked (t.disp d).pstWinArray := by
  -- one display changes
  have hone : ∀ {u : Sys} {d : Nat} {x : Display}, u.disp = s.disp → Stacked x.pstWinArray →
      ∀ e, Stacked ((u.setDisp d x).disp e).pstWinArray := by
    intro u d x hu hx e
    by_cases hed : e = d
    · subst hed
      rw [setDisp_self]
      exact hx
    · rw [setDisp_ne _ _ hed, hu]
      exact hs e
  cases h with
  | fail => exact hs
  | @undo d _ _ =>
    apply hone rfl
    have hsame : winZorderDelete (s.disp d).pstWinArray.count (s.disp d).pstWinArray = (s.disp d).pstWinArray := by
      apply renumber_eq_self
      intro i w hw
      have hlt := (hs d).lt hw
      exact if_neg (by omega)
    show Stacked (winZorderDelete _ _)
    rw [hsame]
    exact hs d
  | @add d i hd hfree =>
    apply hone rfl
    apply Ranking.perm _ (zorders_add hfree)
    show Ranking ((s.disp d).pstWinArray.count :: zorders (s.disp d).pstWinArray)
    rw [← length_zorders]
    exact (hs d).cons
  | @link d d' i i' w slv hw hslv hid =>
    apply hone rfl
    have hnew := zorders_update (s.disp d).pstWinArray i { w with hSlvWin := indexOf cfg d' i' }
    exact Ranking.perm (hs d) (hnew.trans (zorders_remove hw).symm)
  | @remove d i w hw =>
    apply hone rfl
    show Ranking (zorders (winZorderDelete _ _))
    unfold winZorderDelete
    rw [zorders_renumber]
    exact Ranking.leave (Ranking.perm (hs d) (zorders_remove hw).symm)
  | virAdd => exact hs
  | virRemove => exact hs

/-- The refused moves change no window behind the slots that are written back. -/
def Behind (cfg : Config) (s : Sys) : Input → Prop
  | .setZorder h z layout =>
    ∀ w ∈ s.winGetWindow cfg h, BehindSlots (s.disp w.enDisp).pstWinArray z w layout
  | _ => True

/-- What a move keeps: where it fails, every z-order; where it succeeds, the order of the others. -/
structure MoveKeeps (cfg : Config) (s t : Sys) (h : U32) (ret : Ret) : Prop where
  failure : ret = .failure → ∀ d, (t.disp d).pstWinArray = (s.disp d).pstWinArray
  success : ret = .success → ∀ w, s.winGetWindow cfg h = some w → ∀ d i j u v, (s.disp d).pstWinArray i = some u →
    (s.disp d).pstWinArray j = some v → u.u32Index ≠ w.u32Index → v.u32Index ≠ w.u32Index →
    ∃ u' v', (t.disp d).pstWinArray i = some u' ∧ (t.disp d).pstWinArray j = some v' ∧ u'.id = u.id ∧ v'.id = v.id ∧
      (u'.u32Zorder < v'.u32Zorder ↔ u.u32Zorder < v.u32Zorder)

/-- The tables and the stacks. -/
structure Stacks (cfg : Config) (s : Sys) : Prop where
  tables : Tables cfg s
  stacked : ∀ d, Stacked (s.disp d).pstWinArray

theorem Ops.stacks (h : Ops cfg s es t) (hs : Stacks cfg s) : Stacks cfg t :=
  h.inv (P := fun s _ => Stacks cfg s) [] (fun hs hop => ⟨hop.tables hs.tables, hop.stacked hs.stacked⟩) hs

theorem stacks_noWindows (hdisp : s.disp = fun _ => noWindows) : Stacks cfg s := by
  refine ⟨⟨?_, ?_⟩, ?_⟩
  · intro d i w hw
    rw [hdisp] at hw
    cases hw
  · intro d
    rw [hdisp]
    rfl
  · intro d
    rw [hdisp]
    exact Ranking.nil

/-- **One move.** -/
theorem Stacks.setZorder {h : U32} {z : Zorder} (hs : Stacks cfg s)
    (hb : Behind cfg s (.setZorder h z layout)) :
    ∃ ret, (winSetZorder cfg s h z layout).2 = [.moved ret] ∧ Stacks cfg (winSetZorder cfg s h z layout).1 ∧
      MoveKeeps cfg s (winSetZorder cfg s h z layout).1 h ret := by
  have hnone : ∃ ret, ([.moved .failure] : List Event) = [.moved ret] ∧ Stacks cfg s ∧ MoveKeeps cfg s s h ret :=
    ⟨.failure, rfl, hs, fun _ _ => rfl, fun hf => Ret.noConfusion hf⟩
  unfold winSetZorder
  by_cases hopen : s.flag = .opened
  swap
  · rw [if_neg hopen]
    exact hnone
  rw [if_pos hopen]
  by_cases hvir : cfg.checkVirtual h = true
  · rw [if_pos hvir]
    exact hnone
  · rw [if_neg hvir]
    cases hw : s.winGetWindow cfg h with
    | none => exact hnone
    | some w =>
      obtain ⟨hid, hslot⟩ := winGetWindow_slot hw
      have hplaced := hs.tables.placed hslot
      have hdisp := hplaced.enDisp
      dsimp only
      rw [dif_pos hid]
      rw [← hdisp] at hslot
      obtain ⟨hstack, hfail, hok⟩ := move_spec (hs.stacked w.enDisp) hslot (hb w hw)
      refine ⟨_, rfl, ⟨?_, ?_⟩, ?_, ?_⟩
      · -- only z-orders change
        cases hret : (winZorderMove z (s.disp w.enDisp).pstWinArray ⟨(winGetId h).toNat, hid⟩ w layout).2 with
        | failure =>
          rw [hfail hret, setSlots_self]
          exact hs.tables
        | success =>
          rw [hok hret]
          exact hs.tables.renumber _
      · intro d
        by_cases hd : d = w.enDisp
        · subst hd
          rw [setSlots_slots]
          exact hstack
        · rw [setSlots_ne _ _ hd]
          exact hs.stacked d
      · intro hret d
        rw [hfail hret, setSlots_self]
      · intro hret w' hw' d i j u v hu hv hune hvne
        obtain rfl := Option.some.inj (hw.symm.trans hw')
        rw [hok hret]
        by_cases hd : d = w.enDisp
        · subst hd
          have hslots : ∀ {k x}, (s.disp w.enDisp).pstWinArray k = some x →
              ((s.setSlots w.enDisp ((s.disp w.enDisp).pstWinArray.renumber
                (fun _ => moveOf z (s.disp w.enDisp).pstWinArray.count w.u32Zorder))).disp w.enDisp).pstWinArray k =
                  some { x with u32Zorder := moveOf z (s.disp
                    w.enDisp).pstWinArray.count w.u32Zorder x.u32Zorder } := by
            intro k x hx
            rw [setSlots_slots]
            unfold Slots.renumber
            rw [hx]
            rfl
          -- another window has another z-order
          have hother : ∀ {k x}, (s.disp w.enDisp).pstWinArray k = some x → x.u32Index ≠ w.u32Index →
              x.u32Zorder ≠ w.u32Zorder := by
            intro k x hx hne heq
            obtain rfl := (hs.stacked w.enDisp).inj hx hslot heq
            rw [hx] at hslot
            exact hne (congrArg Window.u32Index (Option.some.inj hslot))
          exact ⟨_, _, hslots hu, hslots hv, rfl, rfl, moveOf_lt_iff (hother hu hune) (hother hv hvne)⟩
        · refine ⟨u, v, ?_, ?_, rfl, rfl, Iff.rfl⟩
          · rw [setSlots_ne _ _ hd]
            exact hu
          · rw [setSlots_ne _ _ hd]
            exact hv

theorem Stacks.step {i : Input} {fs : List Event} (hs : Stacks cfg s) (hb : Behind cfg s i)
    (hn : step cfg s i = some (t, fs)) : Stacks cfg t := by
  cases i with
  | init flag thread =>
    cases hn
    unfold winInit
    split_ifs
    · exact hs
    · exact stacks_noWindows rfl
    · exact stacks_noWindows rfl
    · exact hs
  | create env =>
    obtain ⟨rfl, -⟩ := Prod.mk.inj (Option.some.inj hn)
    exact (winCreate_ops hs.tables env).stacks hs
  | destroy h => exact (winDestroy_ops hs.tables hn).stacks hs
  | setZorder h z layout =>
    obtain ⟨rfl, -⟩ := Prod.mk.inj (Option.some.inj hn)
    obtain ⟨-, -, hnext, -⟩ := hs.setZorder hb
    exact hnext
  | deInit =>
    by_cases hopen : s.flag = .close
    · simp only [Vo.step, winDeInit, if_pos hopen] at hn
      cases hn
      exact hs
    · simp only [Vo.step] at hn
      rw [winDeInit_eq hs.tables hopen] at hn
      cases hn
      exact stacks_noWindows rfl

/-- **The stacks of a run.** Where every refused move meets `Behind`, the z-orders of each display are the numbers below
    the number of its windows, a move that succeeds keeps the order of the other windows, and one that fails keeps every
    z-order. -/
theorem run_zorder (cfg : Config) {is : List Input} (h : Run (step cfg) (Behind cfg) start is s es) :
    (∀ d, (zorders (s.disp d).pstWinArray).Perm (List.range (s.disp d).pstWinArray.count)) ∧
    ∀ hWin z layout t ret, Behind cfg s (.setZorder hWin z layout) →
      step cfg s (.setZorder hWin z layout) = some (t, [.moved ret]) → MoveKeeps cfg s t hWin ret := by
  have hs : Stacks cfg s := Run.inv (fun _ s => Stacks cfg s) (stacks_noWindows rfl)
    (fun _ _ _ _ _ hpre hb hn => hpre.step hb hn) h
  refine ⟨fun d => ?_, fun hWin z layout t ret hb hn => ?_⟩
  · rw [← length_zorders]
    exact hs.stacked d
  · obtain ⟨ret', hret, -, hkeeps⟩ := hs.setZorder hb
    have heq : winSetZorder cfg s hWin z layout = (t, [.moved ret]) := Option.some.inj hn
    rw [heq] at hret hkeeps
    obtain rfl : ret = ret' := by simpa using hret
    exact hkeeps

instance decidableTouches (n z v : Nat) : (flag : Zorder) → Decidable (Touches flag n z v)
  | .moveTop => inferInstanceAs (Decidable (z ≤ v ∧ z + 1 < n))
  | .moveUp => inferInstanceAs (Decidable ((v = z ∨ v = z + 1) ∧ z + 1 < n))
  | .moveBottom => inferInstanceAs (Decidable (v ≤ z ∧ 0 < z))
  | .moveDown => inferInstanceAs (Decidable ((v = z ∨ v + 1 = z) ∧ 0 < z))

instance decidableBehindSlots (a : Slots) (flag : Zorder) (w : Window) (layout : Bool) :
    Decidable (BehindSlots a flag w layout) :=
  inferInstanceAs (Decidable (layout = true ∨ ∀ i : Fin windowMaxNumber, a.count ≤ i.val →
    ∀ u ∈ a i, ¬ Touches flag a.count w.u32Zorder u.u32Zorder))

instance decidableBehind (cfg : Config) (s : Sys) : (i : Input) → Decidable (Behind cfg s i)
  | .setZorder h z layout => inferInstanceAs (Decidable (∀ w ∈ s.winGetWindow cfg h,
      BehindSlots (s.disp w.enDisp).pstWinArray z w layout))
  | .init .. | .create _ | .destroy _ | .deInit => isTrue trivial

/-- Five displays. -/
def fiveDisplays : Config := ⟨0x22, 5, fun h => winGetDispId h = virtualChannel, by decide, by decide⟩

/-- A creation that meets no failure. -/
def fineEnv : SepEnv := ⟨true, true, true, true, true, true, true⟩

/-- A window without a slave window on display 0. -/
def plainWindow : CreateEnv := ⟨0, false, true, fineEnv, false, none, fineEnv, true⟩

/-- Four windows, of which the third one goes; a refused move of the first one past the second, and the last one goes to
    the bottom. -/
def stackRun : List Input :=
  [.init true true] ++ List.replicate 4 (.create plainWindow) ++
    [.destroy 0x220002, .setZorder 0x220000 .moveUp false, .setZorder 0x220003 .moveBottom true]

/-- The refused move leaves no trace, though a slot is empty. -/
theorem run_zorder_hole :
    ∃ s es, Run (step fiveDisplays) (Behind fiveDisplays) start stackRun s es ∧
      zorders (s.disp 0).pstWinArray = [1, 2, 0] ∧
      (zorders (s.disp 0).pstWinArray).Perm (List.range (s.disp 0).pstWinArray.count) := by
  exact exists_run_imp (fun s _ => zorders (s.disp 0).pstWinArray = [1, 2, 0])
    (by decide) fun _ _ hrun htest => ⟨htest, (run_zorder fiveDisplays hrun).1 0⟩

/-- Three windows, of which the first one goes. -/
def holeRun : List Input := [.init true true] ++ List.replicate 3 (.create plainWindow) ++ [.destroy 0x220000]

/-- **Two windows at the bottom.** The two windows that are left are in the second and the third slot. A refused move of
    the lower one to the top is undone for the first two slots, and the z-order of the window in the third one stays
    changed. -/
theorem two_at_the_bottom :
    (∃ s es, Run (step fiveDisplays) always start holeRun s es ∧ zorders (s.disp 0).pstWinArray = [0, 1]) ∧
    ∃ s es, Run (step fiveDisplays) always start (holeRun ++ [.setZorder 0x220001 .moveTop false]) s es ∧
      es.getLast? = some (.moved .failure) ∧ zorders (s.disp 0).pstWinArray = [0, 0] ∧
      ¬ (zorders (s.disp 0).pstWinArray).Perm (List.range (s.disp 0).pstWinArray.count) := by
  refine ⟨?_, ?_⟩
  · exact exists_run_of_decide (by decide)
  · refine exists_run_imp (fun s es => es.getLast? = some (.moved .failure) ∧ zorders (s.disp 0).pstWinArray = [0, 0])
      (by decide) fun _ _ _ htest => ?_
    obtain ⟨hlast, hz⟩ := htest
    refine ⟨hlast, hz, fun hperm => ?_⟩
    rw [hz] at hperm
    exact absurd (hperm.nodup_iff.mpr List.nodup_range) (by decide)

end HiSTB.Vo
