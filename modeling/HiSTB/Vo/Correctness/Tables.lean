import HiSTB.Vo.Window
import HiSTB.Lib.Tally

/-!
# `Vo.Correctness.Tables` — what the calls do with the tables

A creation or a destruction of windows is a sequence of few operations on the tables, and what holds of the tables is
shown for each of these once.

* `winGetPrefix_make`, `indexOf_disp`, `indexOf_id` — the parts of a handle;
* `Tables` — a window in a slot has the handle of the slot, and the number of windows is counted;
* `Op`, `Ops` — the operations; `Ops.tables` — they keep the tables;
* `winCreate_ops`, `winDestroy_ops` — the calls are made of them;
* `winDeInit_eq` — what `WIN_DeInit` does.
-/

namespace HiSTB.Vo

open Lib

variable {cfg : Config}

variable {d e fuel : Nat} {h : U32} {f : Fin windowMaxNumber → Nat → Nat}

/-! ## Handles -/

theorem mask_high {k : Nat} (hk : k < 32) : (0xFFFF0000 : BitVec 32).getLsbD k = decide (16 ≤ k) := by
  have hall : ∀ k, k < 32 → (0xFFFF0000 : BitVec 32).getLsbD k = decide (16 ≤ k) := by decide
  exact hall k hk

theorem mask_id (k : Nat) : (0xFF : BitVec 32).getLsbD k = decide (k < 8) := by
  have hall : ∀ k, k < 32 → (0xFF : BitVec 32).getLsbD k = decide (k < 8) := by decide
  by_cases hk : k < 32
  · exact hall k hk
  · rw [BitVec.getLsbD_of_ge _ _ (by omega)]
    simp
    omega

theorem mask_disp (k : Nat) : (0xF : BitVec 32).getLsbD k = decide (k < 4) := by
  have hall : ∀ k, k < 32 → (0xF : BitVec 32).getLsbD k = decide (k < 4) := by decide
  by_cases hk : k < 32
  · exact hall k hk
  · rw [BitVec.getLsbD_of_ge _ _ (by omega)]
    simp
    omega

theorem winGetPrefix_make (d i : U32) : winGetPrefix (winMakeIndex cfg d i) = cfg.prefixOf := by
  apply BitVec.eq_of_getLsbD_eq
  intro k hk
  simp only [winGetPrefix, winMakeIndex, Config.prefixOf, BitVec.getLsbD_and, BitVec.getLsbD_or,
    BitVec.getLsbD_shiftLeft, mask_id, mask_disp, mask_high hk, hk]
  by_cases hhigh : 16 ≤ k
  · have hid : ¬ k < 8 := by omega
    have hdisp : ¬ k - 8 < 4 := by omega
    simp [hhigh, hid, hdisp]
  · simp [hhigh]

theorem winGetDispId_make (d i : U32) : winGetDispId (winMakeIndex cfg d i) = d &&& 0xF := by
  apply BitVec.eq_of_getLsbD_eq
  intro k _
  simp only [winGetDispId, winMakeIndex, Config.prefixOf, BitVec.getLsbD_and, BitVec.getLsbD_or,
    BitVec.getLsbD_shiftLeft, BitVec.getLsbD_ushiftRight, mask_id, mask_disp]
  by_cases hdisp : k < 4
  · have hlow : 8 + k < 16 := by omega
    have hid : ¬ 8 + k < 8 := by omega
    simp [hdisp, hlow, hid]
    omega
  · simp [hdisp]

theorem winGetId_make (d i : U32) : winGetId (winMakeIndex cfg d i) = i &&& 0xFF := by
  apply BitVec.eq_of_getLsbD_eq
  intro k hk
  simp only [winGetId, winMakeIndex, Config.prefixOf, BitVec.getLsbD_and, BitVec.getLsbD_or,
    BitVec.getLsbD_shiftLeft, mask_id, mask_disp, hk]
  by_cases hid : k < 8
  · have hlow : k < 16 := by omega
    simp [hid, hlow]
  · simp [hid]

/-- The handle of a slot. -/
def indexOf (cfg : Config) (d : Nat) (i : Fin windowMaxNumber) : U32 :=
  winMakeIndex cfg (BitVec.ofNat 32 d) (BitVec.ofNat 32 i)

/-- The handle of a slot of the virtual windows. -/
def virIndexOf (cfg : Config) (i : Fin virtaulMaxNumber) : U32 := winMakeVirIndex cfg (BitVec.ofNat 32 i)

theorem indexOf_prefixOf (d : Nat) (i : Fin windowMaxNumber) : winGetPrefix (indexOf cfg d i) = cfg.prefixOf :=
  winGetPrefix_make _ _

theorem virIndexOf_prefixOf (i : Fin virtaulMaxNumber) : winGetPrefix (virIndexOf cfg i) = cfg.prefixOf :=
  winGetPrefix_make _ _

theorem indexOf_disp (hd : d < cfg.displayButt) (i : Fin windowMaxNumber) :
    (winGetDispId (indexOf cfg d i)).toNat = d := by
  have hall : ∀ d, d < 16 → (BitVec.ofNat 32 d &&& 0xF).toNat = d := by decide
  have hle := cfg.displayButt_le
  rw [indexOf, winGetDispId_make]
  exact hall d (by omega)

theorem indexOf_id (d : Nat) (i : Fin windowMaxNumber) : (winGetId (indexOf cfg d i)).toNat = i := by
  have hall : ∀ i : Fin windowMaxNumber, (BitVec.ofNat 32 i &&& 0xFF).toNat = i := by decide
  rw [indexOf, winGetId_make]
  exact hall i

theorem virIndexOf_disp (i : Fin virtaulMaxNumber) : winGetDispId (virIndexOf cfg i) = virtualChannel := by
  rw [virIndexOf, winMakeVirIndex, winGetDispId_make]
  rfl

theorem virIndexOf_id (i : Fin virtaulMaxNumber) : (winGetId (virIndexOf cfg i)).toNat = i := by
  have hall : ∀ i : Fin virtaulMaxNumber, (BitVec.ofNat 32 i &&& 0xFF).toNat = i := by decide
  rw [virIndexOf, winMakeVirIndex, winGetId_make]
  exact hall i

/-- No display has the channel of the virtual windows. -/
theorem indexOf_ne_virtual (hd : d < cfg.displayButt) (i : Fin windowMaxNumber) :
    winGetDispId (indexOf cfg d i) ≠ virtualChannel := by
  have hle := cfg.displayButt_le
  intro heq
  have hdisp := indexOf_disp hd i
  rw [heq] at hdisp
  have hval : virtualChannel.toNat = 15 := rfl
  omega

/-! ## Slots -/

section Slots

variable {a b : Slots} {i : Fin windowMaxNumber} {w : Window}

theorem renumber_isSome (a : Slots) (f : Fin windowMaxNumber → Nat → Nat) (i : Fin windowMaxNumber) :
    (a.renumber f i).isSome = (a i).isSome := by
  unfold Slots.renumber
  cases a i <;> rfl

@[simp] theorem count_renumber (a : Slots) (f : Fin windowMaxNumber → Nat → Nat) : (a.renumber f).count = a.count :=
  countP_same (fun i _ => renumber_isSome a f i)

/-- A slot changes. -/
theorem count_update (a : Slots) (i : Fin windowMaxNumber) (x : Option Window) :
    Slots.count (Function.update a i x) + (a i).isSome.toNat = a.count + x.isSome.toNat := by
  have hchange := @countP_change _ (List.finRange windowMaxNumber) (fun j => (Function.update a i x j).isSome)
    (fun j => (a j).isSome) i (List.nodup_finRange _) (List.mem_finRange i)
    (fun j _ hj => by rw [Function.update_of_ne hj])
  rw [Function.update_self] at hchange
  exact hchange

theorem count_add (hfree : a i = none) : Slots.count (Function.update a i (some w)) = a.count + 1 := by
  have hupd := count_update a i (some w)
  rw [hfree] at hupd
  exact hupd

theorem count_remove (hw : a i = some w) : Slots.count (Function.update a i none) = a.count - 1 := by
  have hupd := count_update a i none
  rw [hw] at hupd
  simp only [Option.isSome_some, Option.isSome_none, Bool.toNat_true, Bool.toNat_false] at hupd
  omega

theorem count_pos (hw : a i = some w) : 0 < a.count := by
  unfold Slots.count
  rw [List.countP_pos_iff]
  exact ⟨i, List.mem_finRange i, by rw [hw]; rfl⟩

/-- What is written back where nothing changed. -/
theorem restore_save (a : Slots) : winZorderRestore (winZorderSave a) a = a := by
  funext i
  unfold winZorderRestore winZorderSave Slots.renumber
  cases hi : a i with
  | none => rfl
  | some w =>
    simp only [Option.map_some, hi]
    split_ifs <;> rfl

theorem moveTopNew_eq (a : Slots) (layout : Bool) : winZorderMoveTopNew a layout = (a, a.count) := by
  unfold winZorderMoveTopNew settle
  cases layout
  · simp [restore_save]
  · rfl

end Slots

/-! ## The tables -/

/-- A window is in the slot of its handle. -/
structure Placed (cfg : Config) (d : Nat) (i : Fin windowMaxNumber) (w : Window) : Prop where
  disp_lt : d < cfg.displayButt
  index : w.u32Index = indexOf cfg d i
  enDisp : w.enDisp = d

/-- What holds of the tables of the displays. -/
structure Tables (cfg : Config) (s : Sys) : Prop where
  placed : ∀ {d i w}, (s.disp d).pstWinArray i = some w → Placed cfg d i w
  number : ∀ d, (s.disp d).u32WinNumber = (s.disp d).pstWinArray.count

/-- The window that a handle leads to, and where it is. -/
theorem winGetWindow_slot {s : Sys} {w : Window} (hw : s.winGetWindow cfg h = some w) :
    ∃ hid : (winGetId h).toNat < windowMaxNumber,
      (s.disp (winGetDispId h).toNat).pstWinArray ⟨(winGetId h).toNat, hid⟩ = some w := by
  unfold Sys.winGetWindow at hw
  split_ifs at hw with h1 h2 h3 h4
  exact ⟨h4, hw⟩

/-- A window is found by the handle of its slot. -/
theorem Tables.get {s : Sys} {i : Fin windowMaxNumber} {w : Window} (ht : Tables cfg s)
    (hw : (s.disp d).pstWinArray i = some w) : s.winGetWindow cfg (indexOf cfg d i) = some w := by
  have hlt := (ht.placed hw).disp_lt
  have hdisp := indexOf_disp hlt i
  have hid := @indexOf_id cfg d i
  have hnumber := ht.number d
  have hpos := count_pos hw
  unfold Sys.winGetWindow
  rw [hdisp, if_neg (not_not.mpr (indexOf_prefixOf d i)), if_neg (by omega), if_neg (by omega)]
  simp only [hid, i.isLt, dif_pos]
  exact hw

/-- A handle that leads to a window in one state leads to the window in its slot in another. -/
theorem Tables.get_of {s t : Sys} {v w : Window} (ht : Tables cfg t) (hv : s.winGetWindow cfg h = some v)
    (hid : (winGetId h).toNat < windowMaxNumber)
    (hw : (t.disp (winGetDispId h).toNat).pstWinArray ⟨(winGetId h).toNat, hid⟩ = some w) :
    t.winGetWindow cfg h = some w := by
  have hnumber := ht.number (winGetDispId h).toNat
  have hpos := count_pos hw
  unfold Sys.winGetWindow at hv ⊢
  split_ifs at hv with h1 h2 h3
  rw [if_neg h1, if_neg h2, if_neg (by omega), dif_pos hid]
  exact hw

/-- A new window is in a slot. -/
def Sys.withWindow (cfg : Config) (s : Sys) (d : Nat) (i : Fin windowMaxNumber) : Sys :=
  ({ s with next := s.next + 1 } : Sys).setDisp d
    ⟨Function.update (s.disp d).pstWinArray i (some ⟨s.next, indexOf cfg d i, d, (s.disp d).pstWinArray.count, 0⟩),
      (s.disp d).u32WinNumber + 1⟩

/-- **The operations** that a creation or a destruction is made of. -/
inductive Op (cfg : Config) : Sys → List Event → Sys → Prop
  /-- The creation of a window fails before it is in its table. -/
  | fail {s : Sys} {es : List Event} (hes : ∀ e ∈ es, ∃ r, e = .take r s.next ∨ e = .give r s.next) :
      Op cfg s es { s with next := s.next + 1 }
  /-- It fails behind `WinCreateDisplayWindow`, and the z-orders are adjusted. -/
  | undo {s : Sys} {d : Nat} {es : List Event} (hes : ∀ e ∈ es, ∃ r, e = .take r s.next ∨ e = .give r s.next) :
      Op cfg s es (({ s with next := s.next + 1 } : Sys).setSlots d
        (winZorderDelete (s.disp d).pstWinArray.count (s.disp d).pstWinArray))
  /-- A window comes. -/
  | add {s : Sys} {d : Nat} {i : Fin windowMaxNumber} (hd : d < cfg.displayButt)
      (hfree : (s.disp d).pstWinArray i = none) :
      Op cfg s [.take .memory s.next, .take .buffer s.next, .take .callback s.next, .added (indexOf cfg d i) s.next]
        (s.withWindow cfg d i)
  /-- A window gets its slave window, which came after it. -/
  | link {s : Sys} {d d' : Nat} {i i' : Fin windowMaxNumber} {w slv : Window}
      (hw : (s.disp d).pstWinArray i = some w) (hslv : (s.disp d').pstWinArray i' = some slv) (hid : w.id < slv.id) :
      Op cfg s []
        (s.setSlots d (Function.update (s.disp d).pstWinArray i (some { w with hSlvWin := indexOf cfg d' i' })))
  /-- A window goes. -/
  | remove {s : Sys} {d : Nat} {i : Fin windowMaxNumber} {w : Window} (hw : (s.disp d).pstWinArray i = some w) :
      Op cfg s [.give .callback w.id, .give .buffer w.id, .give .memory w.id]
        (s.setDisp d ⟨winZorderDelete w.u32Zorder (Function.update (s.disp d).pstWinArray i none),
          (s.disp d).u32WinNumber - 1⟩)
  /-- A virtual window comes. -/
  | virAdd {s : Sys} {i : Fin virtaulMaxNumber} (hfree : s.virArray i = none) :
      Op cfg s [.take .virtual s.next, .addedVir (virIndexOf cfg i) s.next]
        { s with
          virArray := Function.update s.virArray i (some ⟨s.next, virIndexOf cfg i⟩)
          virNumber := s.virNumber + 1
          next := s.next + 1 }
  /-- A virtual window goes. -/
  | virRemove {s : Sys} {i : Fin virtaulMaxNumber} {v : Virtual} (hv : s.virArray i = some v) (hn : s.virNumber ≠ 0) :
      Op cfg s [.give .virtual v.id]
        { s with virArray := Function.update s.virArray i none, virNumber := s.virNumber - 1 }

/-- Some of them in a row. -/
inductive Ops (cfg : Config) : Sys → List Event → Sys → Prop
  | nil {s : Sys} : Ops cfg s [] s
  | snoc {s t u : Sys} {es fs : List Event} (ops : Ops cfg s es t) (op : Op cfg t fs u) : Ops cfg s (es ++ fs) u

variable {s t u : Sys} {es fs : List Event}

theorem Op.ops (h : Op cfg s es t) : Ops cfg s es t := Ops.nil.snoc h

theorem Ops.trans (h : Ops cfg s es t) (h' : Ops cfg t fs u) : Ops cfg s (es ++ fs) u := by
  induction h' with
  | nil =>
    rw [List.append_nil]
    exact h
  | snoc _ op ih =>
    rw [← List.append_assoc]
    exact ih.snoc op

/-- **Invariant rule** for operations in a row. -/
theorem Ops.inv {P : Sys → List Event → Prop} (h : Ops cfg s fs t) (es : List Event)
    (hop : ∀ {s es t fs}, P s es → Op cfg s fs t → P t (es ++ fs)) (hs : P s es) : P t (es ++ fs) := by
  induction h with
  | nil =>
    rw [List.append_nil]
    exact hs
  | snoc _ op ih =>
    rw [← List.append_assoc]
    exact hop ih op

/-! ### The operations keep the tables -/

@[simp] theorem setDisp_self (s : Sys) (d : Nat) (x : Display) : (s.setDisp d x).disp d = x :=
  Function.update_self _ _ _

theorem setDisp_ne (s : Sys) (x : Display) (h : e ≠ d) : (s.setDisp d x).disp e = s.disp e :=
  Function.update_of_ne h _ _

theorem setSlots_slots (s : Sys) (d : Nat) (a : Slots) : ((s.setSlots d a).disp d).pstWinArray = a := by
  unfold Sys.setSlots
  rw [setDisp_self]

theorem setSlots_ne (s : Sys) (a : Slots) (h : e ≠ d) : (s.setSlots d a).disp e = s.disp e :=
  Function.update_of_ne h _ _

/-- One display changes: its windows are where they belong, and they are counted. -/
theorem Tables.setDisp {n : Nat} {a : Slots} (ht : Tables cfg s) (ha : ∀ {i w}, a i = some w → Placed cfg d i w)
    (hn : n = a.count) : Tables cfg (s.setDisp d ⟨a, n⟩) := by
  refine ⟨?_, ?_⟩
  · intro e i w hw
    by_cases hed : e = d
    · subst hed
      rw [setDisp_self] at hw
      exact ha hw
    · rw [setDisp_ne s _ hed] at hw
      exact ht.placed hw
  · intro e
    by_cases hed : e = d
    · subst hed
      rw [setDisp_self]
      exact hn
    · rw [setDisp_ne s _ hed]
      exact ht.number e

theorem renumber_some {a : Slots} {i : Fin windowMaxNumber} {w : Window}
    (h : a.renumber f i = some w) : ∃ v, a i = some v ∧ w = { v with u32Zorder := f i v.u32Zorder } := by
  obtain ⟨v, hv, heq⟩ := Option.map_eq_some_iff.mp h
  exact ⟨v, hv, heq.symm⟩

theorem Placed.renumber {a : Slots} {i : Fin windowMaxNumber} {w : Window}
    (ha : ∀ {i w}, a i = some w → Placed cfg d i w) (h : a.renumber f i = some w) : Placed cfg d i w := by
  obtain ⟨v, hv, rfl⟩ := renumber_some h
  exact ⟨(ha hv).disp_lt, (ha hv).index, (ha hv).enDisp⟩

/-- A slot is written. -/
theorem Placed.update {a : Slots} {i j : Fin windowMaxNumber} {x : Option Window} {w : Window}
    (ha : ∀ {i w}, a i = some w → Placed cfg d i w) (hx : ∀ {w}, x = some w → Placed cfg d i w)
    (h : Function.update a i x j = some w) : Placed cfg d j w := by
  by_cases hji : j = i
  · subst hji
    rw [Function.update_self] at h
    exact hx h
  · rw [Function.update_of_ne hji] at h
    exact ha h

/-- Only z-orders change. -/
theorem Tables.renumber {d : Nat} (ht : Tables cfg s) (f : Fin windowMaxNumber → Nat → Nat) :
    Tables cfg (s.setSlots d ((s.disp d).pstWinArray.renumber f)) := by
  apply ht.setDisp
  · intro i w hw
    exact Placed.renumber ht.placed hw
  · rw [count_renumber]
    exact ht.number d

theorem Tables.same (ht : Tables cfg s) (hdisp : t.disp = s.disp) : Tables cfg t := by
  refine ⟨?_, ?_⟩
  · intro d i w hw
    rw [hdisp] at hw
    exact ht.placed hw
  · intro d
    rw [hdisp]
    exact ht.number d

theorem Op.tables (h : Op cfg s es t) (ht : Tables cfg s) : Tables cfg t := by
  have hnext : Tables cfg ({ s with next := s.next + 1 } : Sys) := ht.same rfl
  cases h with
  | fail => exact hnext
  | undo => exact hnext.renumber _
  | @add d i hd hfree =>
    apply hnext.setDisp
    · intro j w hw
      refine Placed.update ht.placed (fun heq => ?_) hw
      obtain rfl := Option.some.inj heq
      exact ⟨hd, rfl, rfl⟩
    · rw [count_add hfree, ht.number d]
  | @link d d' i i' w slv hw hslv hid =>
    apply ht.setDisp
    · intro j v hv
      refine Placed.update ht.placed (fun heq => ?_) hv
      obtain rfl := Option.some.inj heq
      exact ⟨(ht.placed hw).disp_lt, (ht.placed hw).index, (ht.placed hw).enDisp⟩
    · have hupd := count_update (s.disp d).pstWinArray i (some { w with hSlvWin := indexOf cfg d' i' })
      rw [hw] at hupd
      rw [ht.number d]
      simp only [Option.isSome_some] at hupd
      omega
  | @remove d i w hw =>
    apply ht.setDisp
    · intro j v hv
      refine Placed.renumber ?_ hv
      intro j' v' hv'
      exact Placed.update ht.placed (fun heq => by cases heq) hv'
    · unfold winZorderDelete
      rw [count_renumber, count_remove hw, ht.number d]
  | virAdd => exact ht.same rfl
  | virRemove => exact ht.same rfl

theorem Ops.tables (h : Ops cfg s es t) (ht : Tables cfg s) : Tables cfg t :=
  h.inv (P := fun s _ => Tables cfg s) [] (fun hs hop => hop.tables hs) ht

/-! ## The calls -/

/-- **A window goes**, from the slot it is in. -/
theorem winDestroySeperate_eq {i : Fin windowMaxNumber} {w : Window} (ht : Tables cfg s)
    (hw : (s.disp d).pstWinArray i = some w) :
    winDestroySeperate cfg s w =
      (s.setDisp d ⟨winZorderDelete w.u32Zorder (Function.update (s.disp d).pstWinArray i none),
        (s.disp d).u32WinNumber - 1⟩, [.give .callback w.id, .give .buffer w.id, .give .memory w.id]) := by
  have hlt := (ht.placed hw).disp_lt
  have hdisp := indexOf_disp hlt i
  have hid := @indexOf_id cfg d i
  have hpos := count_pos hw
  have hnumber := ht.number d
  -- the handle of the window leads to its slot
  have hdel : s.winDelWindow cfg w.u32Index =
      s.setDisp d ⟨Function.update (s.disp d).pstWinArray i none, (s.disp d).u32WinNumber - 1⟩ := by
    unfold Sys.winDelWindow
    rw [(ht.placed hw).index, if_neg (not_not.mpr (indexOf_prefixOf d i))]
    simp only [hdisp, hid, i.isLt, dif_pos, Fin.eta, hw]
    rw [if_neg (by omega), if_neg (by omega)]
  unfold winDestroySeperate winDestroyDisplayWindow
  rw [hdel, (ht.placed hw).enDisp]
  simp only [Sys.setSlots, Sys.setDisp, Function.update_self, Function.update_idem]

theorem winDestroySeperate_op {i : Fin windowMaxNumber} {w : Window} (ht : Tables cfg s)
    (hw : (s.disp d).pstWinArray i = some w) :
    Op cfg s (winDestroySeperate cfg s w).2 (winDestroySeperate cfg s w).1 := by
  rw [winDestroySeperate_eq ht hw]
  exact .remove hw

theorem winDelVirWindow_op {v : Virtual} (hv : s.winGetVirWindow cfg h = some v) :
    Op cfg s [.give .virtual v.id] (s.winDelVirWindow cfg h) := by
  unfold Sys.winGetVirWindow at hv
  split_ifs at hv with h1 h2 h3 h4
  have heq : s.winDelVirWindow cfg h = { s with
      virArray := Function.update s.virArray ⟨(winGetId h).toNat, h4⟩ none
      virNumber := s.virNumber - 1 } := by
    unfold Sys.winDelVirWindow
    rw [if_neg h2, if_neg h3, dif_pos h4, if_neg h1, hv]
  rw [heq]
  exact .virRemove hv h1

/-- **`WIN_Destroy`** is made of them. -/
theorem winDestroy_ops (ht : Tables cfg s) (hn : winDestroy cfg fuel s h = some (t, es)) :
    Ops cfg s es t := by
  induction fuel generalizing s t es h with
  | zero => cases hn
  | succ fuel ih =>
    unfold winDestroy at hn
    split_ifs at hn
    · -- a virtual window
      split at hn
      · cases hn
        exact .nil
      · rename_i v hv
        cases hn
        exact (winDelVirWindow_op hv).ops
    · split at hn
      · cases hn
        exact .nil
      · rename_i w hw
        obtain ⟨⟨s₁, es₁⟩, hslave, hrest⟩ := Option.bind_eq_some_iff.mp hn
        have hfirst : Ops cfg s es₁ s₁ := by
          split_ifs at hslave
          · exact ih ht hslave
          · cases hslave
            exact .nil
        split at hrest
        · rename_i w' hw'
          split_ifs at hrest
          cases hrest
          obtain ⟨hid, hslot⟩ := winGetWindow_slot hw'
          exact hfirst.snoc (winDestroySeperate_op (hfirst.tables ht) hslot)
        · cases hrest
    · cases hn
      exact .nil

theorem setSlots_self (s : Sys) (d : Nat) : s.setSlots d (s.disp d).pstWinArray = s := by
  unfold Sys.setSlots Sys.setDisp
  rw [Function.update_eq_self]

/-- **A creation**: the window comes, or it fails. -/
theorem winCreateSeperate_cases (s : Sys) (d : Nat) (env : SepEnv) :
    (∃ i, d < cfg.displayButt ∧ (s.disp d).pstWinArray i = none ∧ winCreateSeperate cfg s d env = (s.withWindow cfg d i,
        [.take .memory s.next, .take .buffer s.next, .take .callback s.next, .added (indexOf cfg d i) s.next],
        some (i, indexOf cfg d i))) ∨
    ∃ t es, winCreateSeperate cfg s d env = (t, es, none) ∧ Ops cfg s es t := by
  have hnext : ({ s with next := s.next + 1 } : Sys).setSlots d (s.disp d).pstWinArray =
      { s with next := s.next + 1 } :=
    setSlots_self { s with next := s.next + 1 } d
  -- what a creation that fails has taken and given back is all its own
  have hown : ∀ e : Event, e ∈ ([.take .memory s.next, .give .memory s.next] : List Event) →
      ∃ r, e = .take r s.next ∨ e = .give r s.next := by
    intro e he
    simp only [List.mem_cons, List.not_mem_nil, or_false] at he
    rcases he with rfl | rfl
    · exact ⟨_, Or.inl rfl⟩
    · exact ⟨_, Or.inr rfl⟩
  unfold winCreateSeperate
  simp only [moveTopNew_eq, hnext]
  split_ifs with hopen htest hmem hfun hbuf hcb
  · cases hadd : ({ s with next := s.next + 1 } : Sys).winAddWindow cfg d
        ⟨s.next, 0, d, (s.disp d).pstWinArray.count, 0⟩ with
    | some r =>
      left
      obtain ⟨u, i, h⟩ := r
      unfold Sys.winAddWindow at hadd
      split_ifs at hadd with hd
      obtain ⟨j, hj, heq⟩ := Option.map_eq_some_iff.mp hadd
      obtain ⟨rfl, hslot⟩ := Prod.mk.inj heq
      obtain ⟨rfl, rfl⟩ := Prod.mk.inj hslot
      have hfree := List.find?_some hj
      exact ⟨j, Nat.lt_of_not_le hd, Option.isNone_iff_eq_none.mp hfree, rfl⟩
    | none =>
      right
      refine ⟨_, _, rfl, Op.ops (.undo ?_)⟩
      intro e he
      simp only [winDestroyDisplayWindow, List.cons_append, List.nil_append, List.mem_cons, List.not_mem_nil,
        or_false] at he
      rcases he with rfl | rfl | rfl | rfl | rfl | rfl <;> first | exact ⟨_, Or.inl rfl⟩ | exact ⟨_, Or.inr rfl⟩
  · right
    refine ⟨_, _, rfl, Op.ops (.undo ?_)⟩
    intro e he
    simp only [winDestroyDisplayWindow, List.cons_append, List.nil_append, List.mem_cons, List.not_mem_nil,
      or_false] at he
    rcases he with rfl | rfl | rfl | rfl <;> first | exact ⟨_, Or.inl rfl⟩ | exact ⟨_, Or.inr rfl⟩
  · exact Or.inr ⟨_, _, rfl, Op.ops (.fail hown)⟩
  · exact Or.inr ⟨_, _, rfl, Op.ops (.fail hown)⟩
  · exact Or.inr ⟨_, _, rfl, .nil⟩
  · exact Or.inr ⟨_, _, rfl, .nil⟩
  · exact Or.inr ⟨_, _, rfl, .nil⟩

theorem winDestroySlot_ops (ht : Tables cfg s) (d : Nat) (i : Fin windowMaxNumber) :
    Ops cfg s (winDestroySlot cfg s d i).2 (winDestroySlot cfg s d i).1 := by
  unfold winDestroySlot
  cases hw : (s.disp d).pstWinArray i with
  | none => exact .nil
  | some w => exact (winDestroySeperate_op ht hw).ops

/-- A window stays where it is when another one comes. -/
theorem withWindow_keep {d d' : Nat} {i i' : Fin windowMaxNumber} {w : Window} (hw : (s.disp d).pstWinArray i = some w)
    (hfree : (s.disp d').pstWinArray i' = none) : ((s.withWindow cfg d' i').disp d).pstWinArray i = some w := by
  unfold Sys.withWindow
  by_cases hd : d = d'
  · subst hd
    rw [setDisp_self]
    have hne : i ≠ i' := by
      rintro rfl
      rw [hw] at hfree
      cases hfree
    show Function.update _ _ _ i = _
    rw [Function.update_of_ne hne]
    exact hw
  · rw [setDisp_ne _ _ hd]
    exact hw

theorem withWindow_self (s : Sys) (d : Nat) (i : Fin windowMaxNumber) :
    ((s.withWindow cfg d i).disp d).pstWinArray i =
      some ⟨s.next, indexOf cfg d i, d, (s.disp d).pstWinArray.count, 0⟩ := by
  unfold Sys.withWindow
  rw [setDisp_self]
  exact Function.update_self _ _ _

/-- **`WIN_Create`** is made of them. -/
theorem winCreate_ops (ht : Tables cfg s) (env : CreateEnv) : Ops cfg s (winCreate cfg s env).2
    (winCreate cfg s env).1 := by
  unfold winCreate
  split_ifs with hopen hvir hcreate hfollowed
  · -- a virtual window
    dsimp only
    split
    · rename_i u h hadd
      unfold Sys.winAddVirWindow at hadd
      obtain ⟨i, hi, heq⟩ := Option.map_eq_some_iff.mp hadd
      obtain ⟨rfl, rfl⟩ := Prod.mk.inj heq
      have hfree := List.find?_some hi
      exact Op.ops (.virAdd (Option.isNone_iff_eq_none.mp hfree))
    · refine Op.ops (.fail ?_)
      intro e he
      simp only [List.mem_cons, List.not_mem_nil, or_false] at he
      rcases he with rfl | rfl
      · exact ⟨_, Or.inl rfl⟩
      · exact ⟨_, Or.inr rfl⟩
  · exact .nil
  · -- a window with a slave window
    rcases @winCreateSeperate_cases cfg s env.enDisp env.main with ⟨i, hd, hfree, heq⟩ | ⟨t, es, heq, hops⟩
    · rw [heq]
      have hadd : Op cfg s _ (s.withWindow cfg env.enDisp i) := .add hd hfree
      have ht' := hadd.tables ht
      cases env.slaveDisp with
      | none => exact hadd.ops.trans (winDestroySlot_ops ht' _ _)
      | some d =>
        dsimp only
        rcases @winCreateSeperate_cases cfg (s.withWindow cfg env.enDisp i) d env.slave with
          ⟨j, hd', hfree', heq'⟩ | ⟨t', es', heq', hops'⟩
        · -- it came after its master
          rw [heq']
          have hadd' : Op cfg (s.withWindow cfg env.enDisp i) _ _ := .add hd' hfree'
          have hw := @withWindow_keep cfg _ _ _ _ _ _ (withWindow_self s env.enDisp i) hfree'
          have hslv := @withWindow_self cfg (s.withWindow cfg env.enDisp i) d j
          have hlink := @Op.link cfg _ _ _ _ _ _ _ hw hslv (Nat.lt_succ_self s.next)
          have hops' := (hadd.ops.snoc hadd').snoc hlink
          rw [List.append_nil] at hops'
          unfold linkSlave
          dsimp only
          rw [hw]
          exact hops'
        · rw [heq']
          have hops := hadd.ops.trans hops'
          exact hops.trans (winDestroySlot_ops (hops.tables ht) _ _)
    · rw [heq]
      exact hops
  · rcases @winCreateSeperate_cases cfg s env.enDisp env.main with ⟨i, hd, hfree, heq⟩ | ⟨t, es, heq, hops⟩
    · rw [heq]
      exact Op.ops (.add hd hfree)
    · rw [heq]
      exact hops
  · exact .nil

/-! ## The end of the device -/

/-- A display without windows. -/
def noWindows : Display := ⟨fun _ => none, 0⟩

/-- **Where the number is 0, no window is found**, and `WIN_Destroy` does nothing. -/
theorem winDestroy_none (hd : d < cfg.displayButt) (hn : (s.disp d).u32WinNumber = 0)
    (i : Fin windowMaxNumber) : winDestroy cfg (fuel + 1) s (indexOf cfg d i) = some (s, []) := by
  have hget : s.winGetWindow cfg (indexOf cfg d i) = none := by
    unfold Sys.winGetWindow
    rw [indexOf_disp hd i, if_neg (not_not.mpr (indexOf_prefixOf d i)), if_neg (by omega), if_pos hn]
  have hvir : s.winGetVirWindow cfg (indexOf cfg d i) = none := by
    unfold Sys.winGetVirWindow
    rw [if_neg (not_not.mpr (indexOf_prefixOf d i)), if_pos (indexOf_ne_virtual hd i)]
    split_ifs <;> rfl
  unfold winDestroy
  rw [hget, hvir]
  split_ifs <;> rfl

theorem deInitSlots_eq {d : Nat} (js : List (Fin windowMaxNumber)) (hd : d < cfg.displayButt)
    (hn : (s.disp d).u32WinNumber = 0) (hp : ∀ {i w}, (s.disp d).pstWinArray i = some w → Placed cfg d i w) :
    deInitSlots cfg d js s = some (s.setSlots d (fun i => if i ∈ js then none else (s.disp d).pstWinArray i), []) := by
  induction js generalizing s with
  | nil =>
    simp only [deInitSlots, List.not_mem_nil, if_false]
    rw [setSlots_self]
  | cons j js ih =>
    unfold deInitSlots
    cases hj : (s.disp d).pstWinArray j with
    | none =>
      rw [ih hn hp]
      have heq : (fun i => if i ∈ js then none else (s.disp d).pstWinArray i) =
          (fun i => if i ∈ j :: js then none else (s.disp d).pstWinArray i) := by
        funext i
        by_cases hij : i = j
        · subst hij
          simp [hj]
        · simp [hij]
      rw [heq]
    | some w =>
      dsimp only
      rw [(hp hj).index, Sys.fuel, winDestroy_none hd hn j]
      have hupd : ((s.setSlots d (Function.update (s.disp d).pstWinArray j none)).disp d) =
          ⟨Function.update (s.disp d).pstWinArray j none, (s.disp d).u32WinNumber⟩ := setDisp_self _ _ _
      have hrest := @ih (s.setSlots d (Function.update (s.disp d).pstWinArray j none))
        (by rw [hupd]; exact hn) (by
          intro i w hw
          rw [hupd] at hw
          exact Placed.update hp (fun heq => by cases heq) hw)
      rw [Option.bind_some, hrest, hupd]
      simp only [Option.map_some, List.append_nil, Sys.setSlots, Sys.setDisp, Function.update_self,
        Function.update_idem]
      congr 5
      funext i
      by_cases hij : i = j
      · subst hij
        simp
      · simp [hij]

theorem deInitDisps_eq (ds : List Nat) (hds : ∀ d ∈ ds, d < cfg.displayButt)
    (hp : ∀ {d i w}, (s.disp d).pstWinArray i = some w → Placed cfg d i w) :
    deInitDisps cfg ds s = some ({ s with disp := fun d => if d ∈ ds then noWindows else s.disp d }, []) := by
  induction ds generalizing s with
  | nil => simp [deInitDisps]
  | cons d ds ih =>
    have hzero : ((s.setDisp d { s.disp d with u32WinNumber := 0 }).disp d) = ⟨(s.disp d).pstWinArray, 0⟩ :=
      setDisp_self _ _ _
    have hslots := @deInitSlots_eq cfg (s.setDisp d { s.disp d with u32WinNumber := 0 }) d
      (List.finRange windowMaxNumber) (hds d List.mem_cons_self) (by rw [hzero]) (by
        intro i w hw
        rw [hzero] at hw
        exact hp hw)
    have hnone : (s.setDisp d { s.disp d with u32WinNumber := 0 }).setSlots d
        (fun i => if i ∈ List.finRange windowMaxNumber then none else
          ((s.setDisp d { s.disp d with u32WinNumber := 0 }).disp d).pstWinArray i) = s.setDisp d noWindows := by
      simp only [List.mem_finRange, if_true, Sys.setSlots, Sys.setDisp, Function.update_self, Function.update_idem]
      rfl
    rw [hnone] at hslots
    have hrest := @ih (s.setDisp d noWindows) (fun e he => hds e (List.mem_cons_of_mem _ he)) (by
      intro e i w hw
      by_cases hed : e = d
      · subst hed
        rw [setDisp_self] at hw
        cases hw
      · rw [setDisp_ne _ _ hed] at hw
        exact hp hw)
    unfold deInitDisps
    dsimp only
    rw [hslots, Option.bind_some, hrest]
    simp only [Option.map_some, List.append_nil]
    congr 3
    funext e
    by_cases hed : e = d
    · subst hed
      simp
    · simp [hed, setDisp_ne s noWindows hed]

theorem Tables.noWindows_of_ge (ht : Tables cfg s) (hd : cfg.displayButt ≤ d) : s.disp d = noWindows := by
  have hslots : (s.disp d).pstWinArray = fun _ => none := by
    funext i
    cases hi : (s.disp d).pstWinArray i with
    | none => rfl
    | some w => exact absurd (ht.placed hi).disp_lt (by omega)
  have hnumber : (s.disp d).u32WinNumber = 0 := by
    rw [ht.number d, hslots]
    rfl
  show (⟨(s.disp d).pstWinArray, (s.disp d).u32WinNumber⟩ : Display) = _
  rw [hslots, hnumber]
  rfl

/-- **`WIN_DeInit` forgets the windows of the displays.** Only virtual windows are destroyed. -/
theorem winDeInit_eq (ht : Tables cfg s) (hopen : s.flag ≠ .close) :
    winDeInit cfg s = some (⟨.close, fun _ => noWindows,
      fun i => if i.val < cfg.displayButt then none else s.virArray i, 0, s.next⟩, (deInitVirs cfg s).2) := by
  have hdisps := @deInitDisps_eq cfg s (List.range cfg.displayButt) (fun d hd => List.mem_range.mp hd) ht.placed
  have hall : (fun d => if d ∈ List.range cfg.displayButt then noWindows else s.disp d) = fun _ => noWindows := by
    funext d
    by_cases hd : d < cfg.displayButt
    · simp [hd]
    · rw [if_neg (fun hmem => hd (List.mem_range.mp hmem)), ht.noWindows_of_ge (Nat.le_of_not_lt hd)]
  rw [hall] at hdisps
  unfold winDeInit
  rw [if_neg hopen, hdisps]
  rfl

end HiSTB.Vo
