import HiSTB.Vo.Correctness.Zorder

/-!
# `Vo.Correctness.Lifetime` — every window is destroyed once

Each window is in one slot of its table, from its creation until it is destroyed, and there its handle leads to it. What
it holds is given back then, once. `WIN_DeInit` sets the numbers of windows to 0 before it asks for the windows by their
handles, so that it finds none of them, and its loop over the virtual windows has the bound of the displays.

* `idAt`, `virIdAt` — the windows in the slots;
* `Ledger` — what was created and what was given back; `Op.ledger` — an operation keeps it;
* `Chained` — slave windows came after their masters; `winDestroy_returns` — so that a destruction returns;
* `Emptied` — nothing is left to be lost at the end of the device;
* `run_windows` — in every run that meets it, the windows are counted, found, and destroyed once;
* `window_is_lost` — what happens without.
-/

namespace HiSTB.Vo

open Lib

variable {cfg : Config} {s t : Sys} {es fs : List Event}

variable {d id e n x fuel : Nat} {i j : Fin windowMaxNumber} {w : Window} {h : U32} {v : Virtual}

/-! ## The windows in the slots -/

/-- The window in a slot of a display. -/
def idAt (s : Sys) (d : Nat) (i : Fin windowMaxNumber) : Option Nat := ((s.disp d).pstWinArray i).map Window.id

/-- The window in a slot of the virtual windows. -/
def virIdAt (s : Sys) (i : Fin virtaulMaxNumber) : Option Nat := (s.virArray i).map Virtual.id

theorem idAt_some (h : idAt s d i = some id) :
    ∃ w, (s.disp d).pstWinArray i = some w ∧ w.id = id := Option.map_eq_some_iff.mp h

theorem idAt_of (h : (s.disp d).pstWinArray i = some w) :
    idAt s d i = some w.id := by
  unfold idAt
  rw [h]
  rfl

theorem idAt_renumber (a : Slots) (f : Fin windowMaxNumber → Nat → Nat) (i : Fin windowMaxNumber) :
    ((a.renumber f) i).map Window.id = (a i).map Window.id := by
  unfold Slots.renumber
  cases a i <;> rfl

/-- Only z-orders change. -/
theorem idAt_setSlots_renumber (s : Sys) (d : Nat) (f : Fin windowMaxNumber → Nat → Nat) (e : Nat)
    (i : Fin windowMaxNumber) : idAt (s.setSlots d ((s.disp d).pstWinArray.renumber f)) e i = idAt s e i := by
  unfold idAt
  by_cases hed : e = d
  · subst hed
    rw [setSlots_slots]
    exact idAt_renumber _ f i
  · rw [setSlots_ne _ _ hed]

/-- A slot is written. -/
theorem idAt_update {x : Option Window} :
    idAt (s.setDisp d ⟨Function.update (s.disp d).pstWinArray i x, n⟩) e j =
      if e = d ∧ j = i then x.map Window.id else idAt s e j := by
  unfold idAt
  by_cases hed : e = d
  · subst hed
    rw [setDisp_self]
    by_cases hji : j = i
    · subst hji
      simp
    · simp [hji]
  · rw [setDisp_ne _ _ hed, if_neg (fun h => hed h.1)]

/-! ## The ledger -/

/-- Whose event it is. -/
def Event.owner : Event → Option Nat
  | .take _ id | .give _ id | .added _ id | .addedVir _ id => some id
  | .moved _ => none

/-- **What was created and what was given back**, of one window. While it is in a slot, it was created there and has
    given nothing back; when it is in none, it has given back everything, once. -/
structure Entry (cfg : Config) (s : Sys) (es : List Event) (id : Nat) : Prop where
  unique : ∀ {d d' i i'}, idAt s d i = some id → idAt s d' i' = some id → d = d' ∧ i = i'
  live : ∀ {d i}, idAt s d i = some id → .added (indexOf cfg d i) id ∈ es ∧ ∀ r, r ≠ .virtual → .give r id ∉ es
  gone : ∀ {h}, .added h id ∈ es →
    (∃ d i, idAt s d i = some id ∧ h = indexOf cfg d i) ∨ ∀ r, r ≠ .virtual → es.count (.give r id) = 1
  virUnique : ∀ {i i'}, virIdAt s i = some id → virIdAt s i' = some id → i = i'
  virLive : ∀ {i}, virIdAt s i = some id → .addedVir (virIndexOf cfg i) id ∈ es ∧ .give .virtual id ∉ es
  virGone : ∀ {h}, .addedVir h id ∈ es →
    (∃ i, virIdAt s i = some id ∧ h = virIndexOf cfg i) ∨ es.count (.give .virtual id) = 1

structure Ledger (cfg : Config) (s : Sys) (es : List Event) : Prop where
  owner_lt : ∀ e ∈ es, ∀ id, e.owner = some id → id < s.next
  entry : ∀ id, Entry cfg s es id

theorem Ledger.id_lt (h : Ledger cfg s es) (hid : idAt s d i = some id) :
    id < s.next := h.owner_lt _ ((h.entry id).live hid).1 id rfl

theorem Ledger.virId_lt {i : Fin virtaulMaxNumber} (h : Ledger cfg s es) (hid : virIdAt s i = some id) :
    id < s.next := h.owner_lt _ ((h.entry id).virLive hid).1 id rfl

theorem Ledger.not_mem {e : Event} (h : Ledger cfg s es) (he : e.owner = some s.next) : e ∉ es :=
  fun hmem => absurd (h.owner_lt e hmem s.next he) (Nat.lt_irrefl _)

/-- Some events of one window. -/
def OwnedBy (x : Nat) (fs : List Event) : Prop := ∀ e ∈ fs, e.owner = some x

/-- Some events of other windows, or of none. -/
def Apart (id : Nat) (fs : List Event) : Prop := ∀ e ∈ fs, e.owner ≠ some id

theorem OwnedBy.apart (h : OwnedBy x fs) (hne : id ≠ x) : Apart id fs := by
  intro e he howner
  rw [h e he] at howner
  exact hne (Option.some.inj howner).symm

theorem Apart.mem_append_iff {e : Event} (h : Apart id fs) (he : e.owner = some id) :
    e ∈ es ++ fs ↔ e ∈ es := by
  rw [List.mem_append, or_iff_left]
  intro hmem
  exact h e hmem he

theorem Apart.count_append {r : Resource} (h : Apart id fs) :
    (es ++ fs).count (.give r id) = es.count (.give r id) := by
  rw [List.count_append, List.count_eq_zero_of_not_mem (l := fs)]
  · exact Nat.add_zero _
  · intro hmem
    exact h _ hmem rfl

/-- The entry of a window to which nothing happened. -/
theorem Entry.other (h : Entry cfg s es id) (hfs : Apart id fs)
    (hid : ∀ d i, idAt t d i = some id ↔ idAt s d i = some id)
    (hvir : ∀ i, virIdAt t i = some id ↔ virIdAt s i = some id) :
    Entry cfg t (es ++ fs) id := by
  refine ⟨?_, ?_, ?_, ?_, ?_, ?_⟩
  · intro d d' i i' hd hd'
    exact h.unique ((hid d i).mp hd) ((hid d' i').mp hd')
  · intro d i hd
    obtain ⟨hadded, hnot⟩ := h.live ((hid d i).mp hd)
    refine ⟨List.mem_append_left _ hadded, fun r hr => ?_⟩
    rw [hfs.mem_append_iff rfl]
    exact hnot r hr
  · intro k hk
    rw [hfs.mem_append_iff rfl] at hk
    refine (h.gone hk).imp ?_ ?_
    · rintro ⟨d, i, hd, rfl⟩
      exact ⟨d, i, (hid d i).mpr hd, rfl⟩
    · intro hcount r hr
      rw [hfs.count_append]
      exact hcount r hr
  · intro i i' hi hi'
    exact h.virUnique ((hvir i).mp hi) ((hvir i').mp hi')
  · intro i hi
    obtain ⟨hadded, hnot⟩ := h.virLive ((hvir i).mp hi)
    refine ⟨List.mem_append_left _ hadded, ?_⟩
    rw [hfs.mem_append_iff rfl]
    exact hnot
  · intro k hk
    rw [hfs.mem_append_iff rfl] at hk
    refine (h.virGone hk).imp ?_ ?_
    · rintro ⟨i, hi, rfl⟩
      exact ⟨i, (hvir i).mpr hi, rfl⟩
    · intro hcount
      rw [hfs.count_append]
      exact hcount

/-- **What happens to one window.** -/
theorem Ledger.change (h : Ledger cfg s es) (hfs : OwnedBy x fs) (hx : x < t.next) (hnext : s.next ≤ t.next)
    (hid : ∀ id, id ≠ x → ∀ d i, idAt t d i = some id ↔ idAt s d i = some id)
    (hvir : ∀ id, id ≠ x → ∀ i, virIdAt t i = some id ↔ virIdAt s i = some id) (hentry : Entry cfg t (es ++ fs) x) :
    Ledger cfg t (es ++ fs) := by
  refine ⟨?_, fun id => ?_⟩
  · intro e he id howner
    rcases List.mem_append.mp he with he | he
    · exact Nat.lt_of_lt_of_le (h.owner_lt e he id howner) hnext
    · rw [hfs e he] at howner
      rwa [← Option.some.inj howner]
  · by_cases hne : id = x
    · subst hne
      exact hentry
    · exact (h.entry id).other (hfs.apart hne) (hid id hne) (hvir id hne)

/-- Nothing happens to any window. -/
theorem Ledger.same (h : Ledger cfg s es) (hfs : ∀ e ∈ fs, e.owner = none) (hnext : t.next = s.next)
    (hid : ∀ d i, idAt t d i = idAt s d i) (hvir : ∀ i, virIdAt t i = virIdAt s i) : Ledger cfg t (es ++ fs) := by
  refine ⟨?_, fun id => ?_⟩
  · intro e he id howner
    rw [hnext]
    rcases List.mem_append.mp he with he | he
    · exact h.owner_lt e he id howner
    · rw [hfs e he] at howner
      cases howner
  · apply (h.entry id).other
    · intro e he howner
      rw [hfs e he] at howner
      cases howner
    · intro d i
      rw [hid]
    · intro i
      rw [hvir]

/-! ## The operations -/

theorem virIdAt_update {i j : Fin virtaulMaxNumber} {x : Option Virtual} {k : Nat} :
    virIdAt { s with virArray := Function.update s.virArray i x, virNumber := n, next := k } j =
      if j = i then x.map Virtual.id else virIdAt s j := by
  unfold virIdAt
  by_cases hji : j = i
  · subst hji
    simp
  · simp [hji]

/-- A window gets its slave window. -/
theorem idAt_link (hw : (s.disp d).pstWinArray i = some w) :
    idAt (s.setSlots d (Function.update (s.disp d).pstWinArray i (some { w with hSlvWin := h }))) e j = idAt s e j := by
  refine idAt_update.trans ?_
  split_ifs with hself
  · obtain ⟨rfl, rfl⟩ := hself
    rw [idAt_of hw]
    rfl
  · rfl

/-- A window goes from its slot, and the z-orders are adjusted. -/
theorem idAt_remove {z : Nat} :
    idAt (s.setDisp d ⟨winZorderDelete z (Function.update (s.disp d).pstWinArray i none), n⟩) e j =
      if e = d ∧ j = i then none else idAt s e j := by
  unfold idAt
  by_cases hed : e = d
  · subst hed
    rw [setDisp_self]
    unfold winZorderDelete
    rw [idAt_renumber]
    by_cases hji : j = i
    · subst hji
      simp
    · simp [hji]
  · rw [setDisp_ne _ _ hed, if_neg (fun h => hed h.1)]

/-- A window that is in no slot, and was in none. -/
theorem Entry.never (hid : ∀ d i, idAt s d i ≠ some id) (hvir : ∀ i, virIdAt s i ≠ some id)
    (hadded : ∀ h, .added h id ∉ es) (haddedVir : ∀ h, .addedVir h id ∉ es) : Entry cfg s es id := by
  refine ⟨?_, ?_, ?_, ?_, ?_, ?_⟩
  · intro d d' i i' hd
    exact absurd hd (hid d i)
  · intro d i hd
    exact absurd hd (hid d i)
  · intro h hh
    exact absurd hh (hadded h)
  · intro i i' hi
    exact absurd hi (hvir i)
  · intro i hi
    exact absurd hi (hvir i)
  · intro h hh
    exact absurd hh (haddedVir h)

/-- A creation that fails. -/
theorem Ledger.fail (h : Ledger cfg s es) (hfs : ∀ e ∈ fs, ∃ r, e = .take r s.next ∨ e = .give r s.next)
    (hnext : t.next = s.next + 1) (hid : ∀ d i, idAt t d i = idAt s d i) (hvir : ∀ i, virIdAt t i = virIdAt s i) :
    Ledger cfg t (es ++ fs) := by
  have howned : OwnedBy s.next fs := by
    intro e he
    obtain ⟨r, rfl | rfl⟩ := hfs e he <;> rfl
  apply h.change howned (by omega) (by omega)
  · intro id _ d i
    rw [hid]
  · intro id _ i
    rw [hvir]
  · apply Entry.never
    · intro d i heq
      rw [hid] at heq
      exact absurd (h.id_lt heq) (Nat.lt_irrefl _)
    · intro i heq
      rw [hvir] at heq
      exact absurd (h.virId_lt heq) (Nat.lt_irrefl _)
    · intro k hk
      rcases List.mem_append.mp hk with hk | hk
      · exact h.not_mem rfl hk
      · obtain ⟨r, hr | hr⟩ := hfs _ hk <;> cases hr
    · intro k hk
      rcases List.mem_append.mp hk with hk | hk
      · exact h.not_mem rfl hk
      · obtain ⟨r, hr | hr⟩ := hfs _ hk <;> cases hr

/-- A window comes. -/
theorem Ledger.add (h : Ledger cfg s es)
    (hfree : (s.disp d).pstWinArray i = none) :
    Ledger cfg (s.withWindow cfg d i) (es ++
      [.take .memory s.next, .take .buffer s.next, .take .callback s.next, .added (indexOf cfg d i) s.next]) := by
  have hat : ∀ e j, idAt (s.withWindow cfg d i) e j = if e = d ∧ j = i then some s.next else idAt s e j :=
    fun e j => idAt_update
  have hnever : ∀ e j, idAt s e j ≠ some s.next := fun e j heq => absurd (h.id_lt heq) (Nat.lt_irrefl _)
  have hempty : idAt s d i = none := by
    unfold idAt
    rw [hfree]
    rfl
  apply h.change (x := s.next)
  · intro e he
    simp only [List.mem_cons, List.not_mem_nil, or_false] at he
    rcases he with rfl | rfl | rfl | rfl <;> rfl
  · exact Nat.lt_succ_self _
  · exact Nat.le_succ _
  · intro id hne e j
    rw [hat]
    split_ifs with hself
    · obtain ⟨rfl, rfl⟩ := hself
      rw [hempty]
      simp [Ne.symm hne]
    · rfl
  · intro id _ j
    rfl
  · have hhere : ∀ {e j}, idAt (s.withWindow cfg d i) e j = some s.next → e = d ∧ j = i := by
      intro e j heq
      rw [hat] at heq
      split_ifs at heq with hself
      · exact hself
      · exact absurd heq (hnever e j)
    refine ⟨?_, ?_, ?_, ?_, ?_, ?_⟩
    · intro e e' j j' hj hj'
      obtain ⟨rfl, rfl⟩ := hhere hj
      obtain ⟨rfl, rfl⟩ := hhere hj'
      exact ⟨rfl, rfl⟩
    · intro e j hj
      obtain ⟨rfl, rfl⟩ := hhere hj
      refine ⟨by simp, fun r _ hmem => ?_⟩
      rcases List.mem_append.mp hmem with hmem | hmem
      · exact h.not_mem rfl hmem
      · simp at hmem
    · intro k hk
      left
      refine ⟨d, i, ?_, ?_⟩
      · rw [hat, if_pos ⟨rfl, rfl⟩]
      · rcases List.mem_append.mp hk with hk | hk
        · exact absurd hk (h.not_mem rfl)
        · simpa using hk
    · intro j j' hj
      exact absurd (h.virId_lt hj) (Nat.lt_irrefl _)
    · intro j hj
      exact absurd (h.virId_lt hj) (Nat.lt_irrefl _)
    · intro k hk
      rcases List.mem_append.mp hk with hk | hk
      · exact absurd hk (h.not_mem rfl)
      · simp at hk

/-- A window goes. -/
theorem Ledger.remove (h : Ledger cfg s es) (hslot : idAt s d i = some id)
    (hat : ∀ e j, idAt t e j = if e = d ∧ j = i then none else idAt s e j) (hvir : ∀ j, virIdAt t j = virIdAt s j)
    (hnext : t.next = s.next) :
    Ledger cfg t (es ++ [.give .callback id, .give .buffer id, .give .memory id]) := by
  have hentry := h.entry id
  have hgone : ∀ e j, idAt t e j ≠ some id := by
    intro e j heq
    rw [hat] at heq
    split_ifs at heq with hself
    exact hself (hentry.unique heq hslot)
  apply h.change (x := id)
  · intro e he
    simp only [List.mem_cons, List.not_mem_nil, or_false] at he
    rcases he with rfl | rfl | rfl <;> rfl
  · rw [hnext]
    exact h.id_lt hslot
  · exact Nat.le_of_eq hnext.symm
  · intro id' hne e j
    rw [hat]
    split_ifs with hself
    · obtain ⟨rfl, rfl⟩ := hself
      rw [hslot]
      simp [Ne.symm hne]
    · rfl
  · intro id' _ j
    rw [hvir]
  · refine ⟨?_, ?_, ?_, ?_, ?_, ?_⟩
    · intro e e' j j' hj
      exact absurd hj (hgone e j)
    · intro e j hj
      exact absurd hj (hgone e j)
    · -- what it held goes now, and had not gone before
      intro k _
      right
      intro r hr
      have hnone := List.count_eq_zero_of_not_mem ((hentry.live hslot).2 r hr)
      rw [List.count_append, hnone]
      cases r <;> simp at hr ⊢
    · intro j j' hj hj'
      rw [hvir] at hj hj'
      exact hentry.virUnique hj hj'
    · intro j hj
      rw [hvir] at hj
      obtain ⟨hadded, hnot⟩ := hentry.virLive hj
      exact ⟨List.mem_append_left _ hadded, by simpa using hnot⟩
    · intro k hk
      have hk : Event.addedVir k id ∈ es := by simpa using hk
      refine (hentry.virGone hk).imp ?_ ?_
      · rintro ⟨j, hj, rfl⟩
        exact ⟨j, by rw [hvir]; exact hj, rfl⟩
      · intro hcount
        rw [List.count_append, hcount]
        simp

/-- A virtual window comes. -/
theorem Ledger.virAdd {i : Fin virtaulMaxNumber} (h : Ledger cfg s es) (hfree : s.virArray i = none)
    (hid : ∀ d j, idAt t d j = idAt s d j) (hat : ∀ j, virIdAt t j = if j = i then some s.next else virIdAt s j)
    (hnext : t.next = s.next + 1) :
    Ledger cfg t (es ++ [.take .virtual s.next, .addedVir (virIndexOf cfg i) s.next]) := by
  have hnever : ∀ j, virIdAt s j ≠ some s.next := fun j heq => absurd (h.virId_lt heq) (Nat.lt_irrefl _)
  have hempty : virIdAt s i = none := by
    unfold virIdAt
    rw [hfree]
    rfl
  have hhere : ∀ {j}, virIdAt t j = some s.next → j = i := by
    intro j heq
    rw [hat] at heq
    split_ifs at heq with hself
    · exact hself
    · exact absurd heq (hnever j)
  have hno : ∀ d j, idAt t d j ≠ some s.next := by
    intro d j heq
    rw [hid] at heq
    exact absurd (h.id_lt heq) (Nat.lt_irrefl _)
  apply h.change (x := s.next)
  · intro e he
    simp only [List.mem_cons, List.not_mem_nil, or_false] at he
    rcases he with rfl | rfl <;> rfl
  · omega
  · omega
  · intro id _ d j
    rw [hid]
  · intro id hne j
    rw [hat]
    split_ifs with hself
    · subst hself
      rw [hempty]
      simp [Ne.symm hne]
    · rfl
  · refine ⟨?_, ?_, ?_, ?_, ?_, ?_⟩
    · intro d d' j j' hj
      exact absurd hj (hno d j)
    · intro d j hj
      exact absurd hj (hno d j)
    · intro k hk
      rcases List.mem_append.mp hk with hk | hk
      · exact absurd hk (h.not_mem rfl)
      · simp at hk
    · intro j j' hj hj'
      rw [hhere hj, hhere hj']
    · intro j hj
      obtain rfl := hhere hj
      refine ⟨by simp, fun hmem => ?_⟩
      rcases List.mem_append.mp hmem with hmem | hmem
      · exact h.not_mem rfl hmem
      · simp at hmem
    · intro k hk
      left
      refine ⟨i, ?_, ?_⟩
      · rw [hat, if_pos rfl]
      · rcases List.mem_append.mp hk with hk | hk
        · exact absurd hk (h.not_mem rfl)
        · simpa using hk

/-- A virtual window goes. -/
theorem Ledger.virRemove {i : Fin virtaulMaxNumber} (h : Ledger cfg s es) (hslot : virIdAt s i = some id)
    (hid : ∀ d j, idAt t d j = idAt s d j) (hat : ∀ j, virIdAt t j = if j = i then none else virIdAt s j)
    (hnext : t.next = s.next) : Ledger cfg t (es ++ [.give .virtual id]) := by
  have hentry := h.entry id
  have hgone : ∀ j, virIdAt t j ≠ some id := by
    intro j heq
    rw [hat] at heq
    split_ifs at heq with hself
    exact hself (hentry.virUnique heq hslot)
  apply h.change (x := id)
  · intro e he
    rw [List.mem_singleton] at he
    rw [he]
    rfl
  · rw [hnext]
    exact h.virId_lt hslot
  · exact Nat.le_of_eq hnext.symm
  · intro id' _ d j
    rw [hid]
  · intro id' hne j
    rw [hat]
    split_ifs with hself
    · subst hself
      rw [hslot]
      simp [Ne.symm hne]
    · rfl
  · refine ⟨?_, ?_, ?_, ?_, ?_, ?_⟩
    · intro d d' j j' hj hj'
      rw [hid] at hj hj'
      exact hentry.unique hj hj'
    · intro d j hj
      rw [hid] at hj
      obtain ⟨hadded, hnot⟩ := hentry.live hj
      refine ⟨List.mem_append_left _ hadded, fun r hr => ?_⟩
      have hnot := hnot r hr
      simp [hr, hnot]
    · intro k hk
      have hk : Event.added k id ∈ es := by simpa using hk
      refine (hentry.gone hk).imp ?_ ?_
      · rintro ⟨d, j, hj, rfl⟩
        exact ⟨d, j, by rw [hid]; exact hj, rfl⟩
      · intro hcount r hr
        rw [List.count_append, hcount r hr, List.count_singleton]
        simp [Ne.symm hr]
    · intro j j' hj
      exact absurd hj (hgone j)
    · intro j hj
      exact absurd hj (hgone j)
    · intro k _
      right
      rw [List.count_append, List.count_eq_zero_of_not_mem (hentry.virLive hslot).2]
      simp

/-- **An operation keeps the ledger.** -/
theorem Op.ledger (hop : Op cfg s fs t) (h : Ledger cfg s es) : Ledger cfg t (es ++ fs) := by
  cases hop with
  | fail hes => exact h.fail hes rfl (fun _ _ => rfl) (fun _ => rfl)
  | @undo d _ hes =>
    apply h.fail hes rfl
    · intro e j
      exact idAt_setSlots_renumber { s with next := s.next + 1 } d _ e j
    · intro j
      rfl
  | add hd hfree => exact h.add hfree
  | @link d d' i i' w slv hw hslv hid =>
    exact h.same (fun e he => absurd he List.not_mem_nil) rfl (fun e j => idAt_link hw) (fun _ => rfl)
  | @remove d i w hw => exact h.remove (idAt_of hw) (fun e j => idAt_remove) (fun _ => rfl) rfl
  | virAdd hfree => exact h.virAdd hfree (fun _ _ => rfl) (fun j => virIdAt_update) rfl
  | @virRemove i v hv hn =>
    have hslot : virIdAt s i = some v.id := by
      unfold virIdAt
      rw [hv]
      rfl
    exact h.virRemove hslot (fun _ _ => rfl) (fun j => virIdAt_update) rfl

/-! ## Slave windows -/

/-- **A slave window came after its master**, also where it is another window by now. -/
def Chained (s : Sys) : Prop :=
  ∀ d i w, (s.disp d).pstWinArray i = some w → w.hSlvWin ≠ 0 → ∀ j : Fin windowMaxNumber,
    (winGetId w.hSlvWin).toNat = j.val → ∀ id, idAt s (winGetDispId w.hSlvWin).toNat j = some id → w.id < id

/-- What is in a slot behind an operation: what was there before, or the next window. -/
theorem Op.idAt_or (hop : Op cfg s fs t) (hid : idAt t d i = some id) :
    idAt s d i = some id ∨ id = s.next := by
  cases hop with
  | fail => exact Or.inl hid
  | @undo d' _ _ =>
    exact Or.inl ((idAt_setSlots_renumber { s with next := s.next + 1 } d' _ d i).symm.trans hid)
  | @add d' i' hd hfree =>
    have hat := @idAt_update { s with next := s.next + 1 } d' d ((s.disp d').u32WinNumber + 1) i' i
      (some ⟨s.next, indexOf cfg d' i', d', (s.disp d').pstWinArray.count, 0⟩)
    have hid := hat.symm.trans hid
    split_ifs at hid
    · exact Or.inr (Option.some.inj hid).symm
    · exact Or.inl hid
  | @link d' e i' j w slv hw hslv hlt =>
    rw [idAt_link hw] at hid
    exact Or.inl hid
  | @remove d' i' w hw =>
    left
    rw [idAt_remove] at hid
    split_ifs at hid
    exact hid
  | virAdd => exact Or.inl hid
  | virRemove => exact Or.inl hid

/-- The slave window of what is in a slot behind an operation. -/
theorem Op.slave_or (hop : Op cfg s fs t)
    (hw : (t.disp d).pstWinArray i = some w) (hslv : w.hSlvWin ≠ 0) :
    (∃ v, (s.disp d).pstWinArray i = some v ∧ v.id = w.id ∧ v.hSlvWin = w.hSlvWin) ∨
    ∃ e j slv, (s.disp e).pstWinArray j = some slv ∧ w.hSlvWin = indexOf cfg e j ∧ w.id < slv.id := by
  cases hop with
  | fail => exact Or.inl ⟨w, hw, rfl, rfl⟩
  | @undo d' _ _ =>
    left
    by_cases hd : d = d'
    · subst hd
      rw [setSlots_slots] at hw
      obtain ⟨v, hv, rfl⟩ := renumber_some hw
      exact ⟨v, hv, rfl, rfl⟩
    · rw [setSlots_ne _ _ hd] at hw
      exact ⟨w, hw, rfl, rfl⟩
  | @add d' i' hd hfree =>
    left
    unfold Sys.withWindow at hw
    by_cases hdd : d = d'
    · subst hdd
      rw [setDisp_self] at hw
      by_cases hii : i = i'
      · subst hii
        simp only [Function.update_self, Option.some.injEq] at hw
        rw [← hw] at hslv
        exact absurd rfl hslv
      · simp only [Function.update_of_ne hii] at hw
        exact ⟨w, hw, rfl, rfl⟩
    · rw [setDisp_ne _ _ hdd] at hw
      exact ⟨w, hw, rfl, rfl⟩
  | @link d' e i' j v slv hv hslv' hlt =>
    by_cases hdd : d = d'
    · subst hdd
      rw [setSlots_slots] at hw
      by_cases hii : i = i'
      · subst hii
        rw [Function.update_self, Option.some.injEq] at hw
        subst hw
        exact Or.inr ⟨e, j, slv, hslv', rfl, hlt⟩
      · rw [Function.update_of_ne hii] at hw
        exact Or.inl ⟨w, hw, rfl, rfl⟩
    · rw [setSlots_ne _ _ hdd] at hw
      exact Or.inl ⟨w, hw, rfl, rfl⟩
  | @remove d' i' v hv =>
    left
    by_cases hdd : d = d'
    · subst hdd
      rw [setDisp_self] at hw
      simp only [winZorderDelete] at hw
      obtain ⟨u, hu, rfl⟩ := renumber_some hw
      by_cases hii : i = i'
      · subst hii
        rw [Function.update_self] at hu
        cases hu
      · rw [Function.update_of_ne hii] at hu
        exact ⟨u, hu, rfl, rfl⟩
    · rw [setDisp_ne _ _ hdd] at hw
      exact ⟨w, hw, rfl, rfl⟩
  | virAdd => exact Or.inl ⟨w, hw, rfl, rfl⟩
  | virRemove => exact Or.inl ⟨w, hw, rfl, rfl⟩

/-- What holds of the windows: their tables, the ledger and the slave windows. -/
structure Held (cfg : Config) (s : Sys) (es : List Event) : Prop where
  tables : Tables cfg s
  ledger : Ledger cfg s es
  chained : Chained s
  virNumber : s.virNumber = (List.finRange virtaulMaxNumber).countP (fun i => (s.virArray i).isSome)

theorem Op.chained (hop : Op cfg s fs t) (h : Held cfg s es) : Chained t := by
  intro d i w hw hslv j hj id hid
  rcases hop.slave_or hw hslv with ⟨v, hv, hvid, hvslv⟩ | ⟨e, k, slv, hslot, heq, hlt⟩
  · rw [← hvid]
    rw [← hvslv] at hslv hj hid
    rcases hop.idAt_or hid with hid | rfl
    · exact h.chained d i v hv hslv j hj id hid
    · exact h.ledger.id_lt (idAt_of hv)
  · -- the handle of the slave window leads to it
    have hdisp := indexOf_disp (h.tables.placed hslot).disp_lt k
    have hkj : k = j := by
      apply Fin.ext
      rw [← hj, heq, indexOf_id]
    subst hkj
    rw [heq, hdisp] at hid
    rcases hop.idAt_or hid with hid | rfl
    · rw [idAt_of hslot] at hid
      rwa [← Option.some.inj hid]
    · exact Nat.lt_trans hlt (h.ledger.id_lt (idAt_of hslot))

/-- A slot of the virtual windows changes. -/
theorem virCount_update (a : Fin virtaulMaxNumber → Option Virtual) (i : Fin virtaulMaxNumber) (x : Option Virtual) :
    (List.finRange virtaulMaxNumber).countP (fun j => (Function.update a i x j).isSome) + (a i).isSome.toNat =
      (List.finRange virtaulMaxNumber).countP (fun j => (a j).isSome) + x.isSome.toNat := by
  have hchange := @countP_change _ (List.finRange virtaulMaxNumber) (fun j => (Function.update a i x j).isSome)
    (fun j => (a j).isSome) i (List.nodup_finRange _) (List.mem_finRange i)
    (fun j _ hj => by rw [Function.update_of_ne hj])
  rw [Function.update_self] at hchange
  exact hchange

theorem Op.virNumber (hop : Op cfg s fs t)
    (h : s.virNumber = (List.finRange virtaulMaxNumber).countP (fun i => (s.virArray i).isSome)) :
    t.virNumber = (List.finRange virtaulMaxNumber).countP (fun i => (t.virArray i).isSome) := by
  cases hop with
  | fail => exact h
  | undo => exact h
  | add => exact h
  | link => exact h
  | remove => exact h
  | @virAdd i hfree =>
    have hupd := virCount_update s.virArray i (some ⟨s.next, virIndexOf cfg i⟩)
    simp only [hfree, Option.isSome_none, Option.isSome_some, Bool.toNat_false, Bool.toNat_true] at hupd
    dsimp only
    omega
  | @virRemove i v hv hn =>
    have hupd := virCount_update s.virArray i none
    simp only [hv, Option.isSome_none, Option.isSome_some, Bool.toNat_false, Bool.toNat_true] at hupd
    dsimp only
    omega

theorem Held.op (h : Held cfg s es) (hop : Op cfg s fs t) : Held cfg t (es ++ fs) :=
  ⟨hop.tables h.tables, hop.ledger h.ledger, hop.chained h, hop.virNumber h.virNumber⟩

theorem Held.ops (h : Held cfg s es) (hops : Ops cfg s fs t) : Held cfg t (es ++ fs) := hops.inv es Held.op h

/-- Windows that are older than the one a handle leads to stay, and where it leads to none, all do. -/
def KeepsOlder (cfg : Config) (s t : Sys) (h : U32) : Prop :=
  ∀ d i id, idAt s d i = some id → (∀ w, s.winGetWindow cfg h = some w → id < w.id) → idAt t d i = some id

/-- Where a handle leads to no window of a display, these stay. -/
theorem winDestroy_quick
    (hq : s.flag ≠ .opened ∨ cfg.checkVirtual h = true ∨ s.winGetWindow cfg h = none) :
    ∃ t fs, winDestroy cfg (fuel + 1) s h = some (t, fs) ∧ KeepsOlder cfg s t h := by
  unfold winDestroy
  split_ifs with hopen hvir
  · cases hv : s.winGetVirWindow cfg h with
    | none => exact ⟨s, [], rfl, fun d i id hid _ => hid⟩
    | some v =>
      refine ⟨_, _, rfl, fun d i id hid _ => ?_⟩
      unfold Sys.winDelVirWindow
      split_ifs <;> try exact hid
      split <;> exact hid
  · have hnone := (hq.resolve_left (not_not.mpr hopen)).resolve_left hvir
    rw [hnone]
    exact ⟨s, [], rfl, fun d i id hid _ => hid⟩
  · exact ⟨s, [], rfl, fun d i id hid _ => hid⟩

/-- **A destruction returns.** The fuel is enough, since every slave window came after its master; and the master is
    still there when its slave window is gone. -/
theorem winDestroy_returns (hs : Held cfg s es)
    (hfuel : ∀ w, s.winGetWindow cfg h = some w → s.next ≤ w.id + fuel) :
    ∃ t fs, winDestroy cfg (fuel + 1) s h = some (t, fs) ∧ KeepsOlder cfg s t h := by
  induction fuel generalizing h with
  | zero =>
    -- no window has a number as large as the next one
    apply winDestroy_quick
    right
    right
    cases hw : s.winGetWindow cfg h with
    | none => rfl
    | some w =>
      obtain ⟨hid, hslot⟩ := winGetWindow_slot hw
      have hlt := hs.ledger.id_lt (idAt_of hslot)
      have hle := hfuel w hw
      omega
  | succ fuel ih =>
    by_cases hopen : s.flag = .opened
    swap
    · exact winDestroy_quick (Or.inl hopen)
    by_cases hvir : cfg.checkVirtual h = true
    · exact winDestroy_quick (Or.inr (Or.inl hvir))
    cases hw : s.winGetWindow cfg h with
    | none => exact winDestroy_quick (Or.inr (Or.inr hw))
    | some w =>
      obtain ⟨hid, hslot⟩ := winGetWindow_slot hw
      -- the slave window, and the windows that stay
      obtain ⟨t, fs, hslave, hkeep⟩ : ∃ t fs,
          (if w.hSlvWin ≠ 0 then winDestroy cfg (fuel + 1) s w.hSlvWin else some (s, [])) = some (t, fs) ∧
            ∀ d i id, idAt s d i = some id → id ≤ w.id → idAt t d i = some id := by
        split_ifs with hslv
        · have hafter : ∀ v, s.winGetWindow cfg w.hSlvWin = some v → w.id < v.id := by
            intro v hv
            obtain ⟨hj, hvslot⟩ := winGetWindow_slot hv
            exact hs.chained _ _ w hslot hslv ⟨_, hj⟩ rfl v.id (idAt_of hvslot)
          obtain ⟨t, fs, hn, hkeep⟩ := ih (h := w.hSlvWin) (fun v hv => by
            have hlt := hafter v hv
            have hle := hfuel w hw
            omega)
          exact ⟨t, fs, hn, fun d i id hat hle => hkeep d i id hat (fun v hv => Nat.lt_of_le_of_lt hle (hafter v hv))⟩
        · exact ⟨s, [], rfl, fun d i id hat _ => hat⟩
      have htables : Tables cfg t := by
        split_ifs at hslave
        · exact (winDestroy_ops hs.tables hslave).tables hs.tables
        · cases hslave
          exact hs.tables
      obtain ⟨w', hw', hsame⟩ := idAt_some (hkeep _ _ w.id (idAt_of hslot) (Nat.le_refl _))
      have hget := htables.get_of hw hid hw'
      unfold winDestroy
      rw [if_pos hopen, if_neg hvir, hw]
      dsimp only
      rw [hslave, Option.bind_some, hget]
      dsimp only
      rw [if_pos hsame, winDestroySeperate_eq htables hw']
      refine ⟨_, _, rfl, fun d i id hat hold => ?_⟩
      have hlt := hold w hw
      rw [idAt_remove, if_neg]
      · exact hkeep d i id hat (Nat.le_of_lt hlt)
      · rintro ⟨rfl, rfl⟩
        rw [idAt_of hslot] at hat
        have heq := Option.some.inj hat
        omega

/-! ## Runs -/

/-- **Nothing is left to be lost** at the end of the device: no window of a display, and no virtual window in the slots
    behind those that the loop of `WIN_DeInit` looks at. -/
def Emptied (cfg : Config) (s : Sys) : Input → Prop
  | .deInit => (∀ d, d < cfg.displayButt → ∀ i, (s.disp d).pstWinArray i = none) ∧
      ∀ i : Fin virtaulMaxNumber, cfg.displayButt ≤ i.val → s.virArray i = none
  | _ => True

/-- What holds in every state: the windows, and that there are none while the device is closed. -/
structure Whole (cfg : Config) (s : Sys) (es : List Event) : Prop where
  held : Held cfg s es
  closed : s.flag = .close → (∀ d i, (s.disp d).pstWinArray i = none) ∧ ∀ i, s.virArray i = none

theorem Held.same (h : Held cfg s es) (ht : Tables cfg t) (hfs : ∀ e ∈ fs, e.owner = none) (hnext : t.next = s.next)
    (hid : ∀ d i, idAt t d i = idAt s d i) (hvir : t.virArray = s.virArray) (hnum : t.virNumber = s.virNumber)
    (hslv : ∀ d i w, (t.disp d).pstWinArray i = some w →
      ∃ v, (s.disp d).pstWinArray i = some v ∧ v.id = w.id ∧ v.hSlvWin = w.hSlvWin) : Held cfg t (es ++ fs) := by
  refine ⟨ht, h.ledger.same hfs hnext hid ?_, ?_, ?_⟩
  · intro i
    unfold virIdAt
    rw [hvir]
  · intro d i w hw hne j hj id hat
    obtain ⟨v, hv, hvid, hvslv⟩ := hslv d i w hw
    rw [← hvslv] at hne hj hat
    rw [hid] at hat
    rw [← hvid]
    exact h.chained d i v hv hne j hj id hat
  · rw [hvir, hnum]
    exact h.virNumber

/-- A move writes z-orders only. -/
theorem move_renumber (flag : Zorder) (a : Slots) (c : Fin windowMaxNumber) (w : Window) (layout : Bool) :
    ∃ f, (winZorderMove flag a c w layout).1 = a.renumber f := by
  have hself : ∃ f, a = a.renumber f := ⟨fun _ v => v, (renumber_eq_self (fun _ _ _ => rfl)).symm⟩
  have hsettle : ∀ {b : Slots}, (∃ f, b = a.renumber f) →
      ∃ f, (settle (winZorderSave a) b layout).1 = a.renumber f := by
    rintro b ⟨f, rfl⟩
    unfold settle
    cases layout with
    | true => exact ⟨f, rfl⟩
    | false => exact ⟨_, renumber_renumber a f _⟩
  cases flag with
  | moveTop =>
    apply hsettle
    exact ⟨_, renumber_renumber a _ _⟩
  | moveBottom =>
    apply hsettle
    exact ⟨_, renumber_renumber a _ _⟩
  | moveUp =>
    show ∃ f, (winZorderMoveUp a c w layout).1 = _
    unfold winZorderMoveUp
    split
    · exact hsettle ⟨_, rfl⟩
    · exact hsettle hself
  | moveDown =>
    show ∃ f, (winZorderMoveDown a c w layout).1 = _
    unfold winZorderMoveDown
    split_ifs
    · exact hself
    · dsimp only
      split
      · exact hsettle ⟨_, rfl⟩
      · exact hsettle hself

/-- **A z-order move** leaves the windows where they are. -/
theorem Whole.setZorder {z : Zorder} {layout : Bool} (hs : Whole cfg s es) :
    Whole cfg (winSetZorder cfg s h z layout).1 (es ++ (winSetZorder cfg s h z layout).2) := by
  -- what is returned is no event of a window
  have hmoved : ∀ ret, ∀ e ∈ [Event.moved ret], e.owner = none := by
    intro ret e he
    rw [List.mem_singleton] at he
    rw [he]
    rfl
  have hnone : ∀ ret, Whole cfg s (es ++ [.moved ret]) := fun ret =>
    ⟨hs.held.same hs.held.tables (hmoved ret) rfl (fun _ _ => rfl) rfl rfl (fun d i w hw =>
      ⟨w, hw, rfl, rfl⟩), hs.closed⟩
  unfold winSetZorder
  by_cases hopen : s.flag = .opened
  swap
  · rw [if_neg hopen]
    exact hnone _
  rw [if_pos hopen]
  by_cases hvir : cfg.checkVirtual h = true
  · rw [if_pos hvir]
    exact hnone _
  · rw [if_neg hvir]
    cases s.winGetWindow cfg h with
    | none => exact hnone _
    | some w =>
      dsimp only
      split_ifs with hid
      · obtain ⟨f, hf⟩ := move_renumber z (s.disp w.enDisp).pstWinArray ⟨(winGetId h).toNat, hid⟩ w layout
        rw [hf]
        refine ⟨hs.held.same (hs.held.tables.renumber f) (hmoved _) rfl ?_ rfl rfl ?_, ?_⟩
        · intro d i
          exact idAt_setSlots_renumber s w.enDisp f d i
        · intro d i v hv
          by_cases hd : d = w.enDisp
          · subst hd
            rw [setSlots_slots] at hv
            obtain ⟨u, hu, rfl⟩ := renumber_some hv
            exact ⟨u, hu, rfl, rfl⟩
          · rw [setSlots_ne _ _ hd] at hv
            exact ⟨v, hv, rfl, rfl⟩
        · intro hclose
          rw [show (s.setSlots w.enDisp _).flag = s.flag from rfl, hopen] at hclose
          cases hclose
      · exact hnone _

/-- How often a window is given back by the loop over the virtual windows. -/
theorem deInitVirs_count (hs : Held cfg s es)
    (hbelow : ∀ i : Fin virtaulMaxNumber, cfg.displayButt ≤ i.val → s.virArray i = none) (id : Nat) :
    ((∃ i, virIdAt s i = some id) → (deInitVirs cfg s).2.count (.give .virtual id) = 1) ∧
    ((∀ i, virIdAt s i ≠ some id) → (deInitVirs cfg s).2.count (.give .virtual id) = 0) := by
  have htest : ∀ i, (decide (i.val < cfg.displayButt) && ((s.virArray i).map (fun v => Event.give .virtual v.id) ==
      some (.give .virtual id))) = decide (virIdAt s i = some id) := by
    intro i
    unfold virIdAt
    cases hv : s.virArray i with
    | none => simp
    | some v =>
      have hlt : i.val < cfg.displayButt := by
        by_contra hge
        rw [hbelow i (Nat.le_of_not_lt hge)] at hv
        cases hv
      simp [hlt, beq_eq_decide]
  have hcount : (deInitVirs cfg s).2.count (.give .virtual id) =
      (List.finRange virtaulMaxNumber).countP (fun i => decide (virIdAt s i = some id)) := by
    unfold deInitVirs
    rw [List.count_filterMap, List.countP_filter]
    apply countP_same
    intro i _
    rw [← htest i, Bool.and_comm]
  rw [hcount]
  constructor
  · rintro ⟨i, hi⟩
    have hone := @countP_change _ (List.finRange virtaulMaxNumber) (fun i => decide (virIdAt s i = some id))
      (fun _ => false) i (List.nodup_finRange _) (List.mem_finRange i) (by
        intro j _ hne
        have hj : virIdAt s j ≠ some id := fun hj => hne ((hs.ledger.entry id).virUnique hj hi)
        simp [hj])
    simpa [hi] using hone
  · intro hno
    simp [hno]

/-- **The end of the device**, where nothing is lost. -/
theorem Whole.deInit (hs : Whole cfg s es) (hc : Emptied cfg s .deInit) :
    Whole cfg ⟨.close, fun _ => noWindows, fun i => if i.val < cfg.displayButt then none else s.virArray i, 0, s.next⟩
      (es ++ (deInitVirs cfg s).2) := by
  obtain ⟨hwin, hbelow⟩ := hc
  have hvirNone : ∀ i : Fin virtaulMaxNumber, (if i.val < cfg.displayButt then none else s.virArray i) = none := by
    intro i
    split_ifs with hlt
    · rfl
    · exact hbelow i (Nat.le_of_not_lt hlt)
  have hidNone : ∀ d i, idAt s d i = none := by
    intro d i
    unfold idAt
    by_cases hd : d < cfg.displayButt
    · rw [hwin d hd i]
      rfl
    · rw [hs.held.tables.noWindows_of_ge (Nat.le_of_not_lt hd)]
      rfl
  -- only virtual windows are given back
  have hgives : ∀ e ∈ (deInitVirs cfg s).2, ∃ i v, s.virArray i = some v ∧ e = .give .virtual v.id := by
    intro e he
    obtain ⟨i, -, hi⟩ := List.mem_filterMap.mp he
    obtain ⟨v, hv, rfl⟩ := Option.map_eq_some_iff.mp hi
    exact ⟨i, v, hv, rfl⟩
  have hcounts := fun id => deInitVirs_count hs.held hbelow id
  refine ⟨⟨⟨?_, ?_⟩, ⟨?_, fun id => ⟨?_, ?_, ?_, ?_, ?_, ?_⟩⟩, ?_, ?_⟩, ?_⟩
  · intro d i w hw
    cases hw
  · intro d
    rfl
  · intro e he id howner
    rcases List.mem_append.mp he with he | he
    · exact hs.held.ledger.owner_lt e he id howner
    · obtain ⟨i, v, hv, rfl⟩ := hgives e he
      obtain rfl := Option.some.inj howner
      apply hs.held.ledger.virId_lt (i := i)
      unfold virIdAt
      rw [hv]
      rfl
  · intro d d' i i' hd
    cases hd
  · intro d i hd
    cases hd
  · intro k hk
    right
    intro r hr
    have hk : .added k id ∈ es := by
      rcases List.mem_append.mp hk with hk | hk
      · exact hk
      · obtain ⟨i, v, -, heq⟩ := hgives _ hk
        cases heq
    have hzero : (deInitVirs cfg s).2.count (.give r id) = 0 := by
      apply List.count_eq_zero_of_not_mem
      intro hmem
      obtain ⟨i, v, -, heq⟩ := hgives _ hmem
      cases heq
      exact hr rfl
    rcases (hs.held.ledger.entry id).gone hk with ⟨d, i, hd, -⟩ | hcount
    · rw [hidNone] at hd
      cases hd
    · rw [List.count_append, hcount r hr, hzero]
  · intro i i' hi
    simp [virIdAt, hvirNone] at hi
  · intro i hi
    simp [virIdAt, hvirNone] at hi
  · intro k hk
    right
    have hk : .addedVir k id ∈ es := by
      rcases List.mem_append.mp hk with hk | hk
      · exact hk
      · obtain ⟨i, v, -, heq⟩ := hgives _ hk
        cases heq
    rw [List.count_append]
    rcases (hs.held.ledger.entry id).virGone hk with ⟨i, hi, -⟩ | hcount
    · rw [(hcounts id).1 ⟨i, hi⟩, List.count_eq_zero_of_not_mem ((hs.held.ledger.entry id).virLive hi).2]
    · -- it went before
      rw [hcount, (hcounts id).2]
      intro i hi
      have hnot := List.count_eq_zero_of_not_mem ((hs.held.ledger.entry id).virLive hi).2
      omega
  · intro d i w hw
    cases hw
  · simp [hvirNone]
  · intro _
    exact ⟨fun _ _ => rfl, hvirNone⟩

theorem Op.flag (hop : Op cfg s fs t) : t.flag = s.flag := by
  cases hop <;> rfl

theorem Ops.flag (hops : Ops cfg s fs t) : t.flag = s.flag := by
  induction hops with
  | nil => rfl
  | snoc _ op ih => rw [op.flag, ih]

theorem Whole.ops (hs : Whole cfg s es) (hopen : s.flag = .opened) (hops : Ops cfg s fs t) :
    Whole cfg t (es ++ fs) := by
  refine ⟨hs.held.ops hops, fun hclose => ?_⟩
  rw [hops.flag, hopen] at hclose
  cases hclose

theorem Whole.step {i : Input} (hs : Whole cfg s es) (hc : Emptied cfg s i) (hn : step cfg s i = some (t, fs)) :
    Whole cfg t (es ++ fs) := by
  have hnil : Whole cfg s (es ++ []) := by
    rw [List.append_nil]
    exact hs
  cases i with
  | init flag thread =>
    cases hn
    -- the tables are cleared while they are empty
    have hclear : ∀ flag', s.flag = .close →
        Whole cfg { s with flag := flag', disp := fun _ => noWindows, virArray := fun _ => none, virNumber := 0 }
          (es ++ []) := by
      intro flag' hclose
      obtain ⟨hwin, hvir⟩ := hs.closed hclose
      refine ⟨hs.held.same ?_ ?_ rfl ?_ ?_ ?_ ?_, fun _ => ⟨fun _ _ => rfl, fun _ => rfl⟩⟩
      · exact (stacks_noWindows rfl).tables
      · intro e he
        cases he
      · intro d i
        unfold idAt
        rw [hwin d i]
        rfl
      · funext i
        exact (hvir i).symm
      · rw [hs.held.virNumber]
        simp [hvir]
      · intro d i w hw
        cases hw
    unfold winInit
    by_cases hclose : s.flag = .close
    · rw [if_neg (not_not.mpr hclose)]
      split_ifs
      · exact hclear .opened hclose
      · have hkeep := hclear s.flag hclose
        exact hkeep
      · exact hnil
    · rw [if_pos hclose]
      exact hnil
  | create env =>
    have heq : winCreate cfg s env = (t, fs) := Option.some.inj hn
    by_cases hopen : s.flag = .opened
    · have hops := winCreate_ops hs.held.tables env
      rw [heq] at hops
      exact hs.ops hopen hops
    · rw [winCreate, if_neg (fun h => hopen h.1)] at heq
      obtain ⟨rfl, rfl⟩ := Prod.mk.inj heq
      exact hnil
  | destroy h =>
    by_cases hopen : s.flag = .opened
    · exact hs.ops hopen (winDestroy_ops hs.held.tables hn)
    · simp only [Vo.step, Sys.fuel, winDestroy, if_neg hopen] at hn
      cases hn
      exact hnil
  | setZorder h z layout =>
    obtain ⟨rfl, rfl⟩ := Prod.mk.inj (Option.some.inj hn)
    exact hs.setZorder
  | deInit =>
    simp only [Vo.step] at hn
    by_cases hclose : s.flag = .close
    · rw [winDeInit, if_pos hclose] at hn
      cases hn
      exact hnil
    · rw [winDeInit_eq hs.held.tables hclose] at hn
      cases hn
      exact hs.deInit hc

/-- Every call returns. -/
theorem Whole.returns (hs : Whole cfg s es) (i : Input) : ∃ t fs, Vo.step cfg s i = some (t, fs) := by
  cases i with
  | init => exact ⟨_, _, rfl⟩
  | create => exact ⟨_, _, rfl⟩
  | destroy h =>
    obtain ⟨t, fs, hn, -⟩ := winDestroy_returns (h := h) hs.held (fun w _ => Nat.le_add_left s.next w.id)
    exact ⟨t, fs, hn⟩
  | setZorder => exact ⟨_, _, rfl⟩
  | deInit =>
    by_cases hclose : s.flag = .close
    · exact ⟨s, [], if_pos hclose⟩
    · exact ⟨_, _, winDeInit_eq hs.held.tables hclose⟩

theorem whole_start : Whole cfg start [] := by
  refine ⟨⟨(stacks_noWindows rfl).tables, ⟨?_, fun id => ?_⟩, ?_, ?_⟩, fun _ => ⟨fun _ _ => rfl, fun _ => rfl⟩⟩
  · intro e he
    cases he
  · apply Entry.never
    · intro d i heq
      cases heq
    · intro i heq
      cases heq
    · intro k hk
      cases hk
    · intro k hk
      cases hk
  · intro d i w hw
    cases hw
  · rfl

/-- What a state says about the windows that were created. -/
structure Accounted (cfg : Config) (s : Sys) (es : List Event) : Prop where
  number : ∀ d, (s.disp d).u32WinNumber = (s.disp d).pstWinArray.count
  virNumber : s.virNumber = (List.finRange virtaulMaxNumber).countP (fun i => (s.virArray i).isSome)
  /-- A handle leads to the window that was created under it while that was not destroyed. -/
  found : ∀ h id, .added h id ∈ es → ((∃ w, s.winGetWindow cfg h = some w ∧ w.id = id) ↔ .give .memory id ∉ es)
  virFound : ∀ h id, .addedVir h id ∈ es →
    ((∃ v, s.winGetVirWindow cfg h = some v ∧ v.id = id) ↔ .give .virtual id ∉ es)
  /-- Behind the end of the device, every window was destroyed once. -/
  destroyed : s.flag = .close → ∀ h id, .added h id ∈ es → ∀ r, r ≠ .virtual → es.count (.give r id) = 1
  virDestroyed : s.flag = .close → ∀ h id, .addedVir h id ∈ es → es.count (.give .virtual id) = 1

theorem mem_of_count_eq_one {e : Event} (h : es.count e = 1) : e ∈ es := by
  apply List.count_pos_iff.mp
  omega

theorem Ledger.found (hl : Ledger cfg s es) (ht : Tables cfg s) (hadded : .added h id ∈ es) :
    (∃ w, s.winGetWindow cfg h = some w ∧ w.id = id) ↔ .give .memory id ∉ es := by
  rcases (hl.entry id).gone hadded with ⟨d, i, hat, rfl⟩ | hcount
  · obtain ⟨w, hw, hid⟩ := idAt_some hat
    refine ⟨fun _ => ((hl.entry id).live hat).2 .memory (by decide), fun _ => ⟨w, ht.get hw, hid⟩⟩
  · have hmem := mem_of_count_eq_one (hcount .memory (by decide))
    refine ⟨?_, fun hnot => absurd hmem hnot⟩
    rintro ⟨w, hw, rfl⟩
    obtain ⟨hid, hslot⟩ := winGetWindow_slot hw
    exact ((hl.entry w.id).live (idAt_of hslot)).2 .memory (by decide)

/-- The virtual window that a handle leads to, and where it is. -/
theorem winGetVirWindow_slot (hv : s.winGetVirWindow cfg h = some v) :
    ∃ i, virIdAt s i = some v.id := by
  unfold Sys.winGetVirWindow at hv
  split_ifs at hv with h1 h2 h3 h4
  refine ⟨⟨_, h4⟩, ?_⟩
  unfold virIdAt
  rw [hv]
  rfl

/-- A virtual window is found by the handle of its slot. -/
theorem Held.getVir {i : Fin virtaulMaxNumber} (hs : Held cfg s es) (hv : s.virArray i = some v) :
    s.winGetVirWindow cfg (virIndexOf cfg i) = some v := by
  have hpos : s.virNumber ≠ 0 := by
    rw [hs.virNumber]
    apply Nat.ne_of_gt
    rw [List.countP_pos_iff]
    exact ⟨i, List.mem_finRange i, by rw [hv]; rfl⟩
  have hid := @virIndexOf_id cfg i
  unfold Sys.winGetVirWindow
  rw [if_neg hpos, if_neg (not_not.mpr (virIndexOf_prefixOf i)), if_neg (not_not.mpr (virIndexOf_disp i))]
  simp only [hid, i.isLt, dif_pos]
  exact hv

theorem Held.virFound (hs : Held cfg s es) (hadded : .addedVir h id ∈ es) :
    (∃ v, s.winGetVirWindow cfg h = some v ∧ v.id = id) ↔ .give .virtual id ∉ es := by
  rcases (hs.ledger.entry id).virGone hadded with ⟨i, hat, rfl⟩ | hcount
  · obtain ⟨v, hv, hid⟩ := Option.map_eq_some_iff.mp hat
    exact ⟨fun _ => ((hs.ledger.entry id).virLive hat).2, fun _ => ⟨v, hs.getVir hv, hid⟩⟩
  · refine ⟨?_, fun hnot => absurd (mem_of_count_eq_one hcount) hnot⟩
    rintro ⟨v, hv, rfl⟩
    obtain ⟨i, hat⟩ := winGetVirWindow_slot hv
    exact ((hs.ledger.entry v.id).virLive hat).2

theorem Whole.accounted (hs : Whole cfg s es) : Accounted cfg s es := by
  have hl := hs.held.ledger
  refine ⟨hs.held.tables.number, hs.held.virNumber, ?_, ?_, ?_, ?_⟩
  · intro h id hadded
    exact hl.found hs.held.tables hadded
  · intro h id hadded
    exact hs.held.virFound hadded
  · intro hclose h id hadded
    rcases (hl.entry id).gone hadded with ⟨d, i, hat, -⟩ | hcount
    · obtain ⟨w, hw, -⟩ := idAt_some hat
      rw [(hs.closed hclose).1 d i] at hw
      cases hw
    · exact hcount
  · intro hclose h id hadded
    rcases (hl.entry id).virGone hadded with ⟨i, hat, -⟩ | hcount
    · obtain ⟨v, hv, -⟩ := Option.map_eq_some_iff.mp hat
      rw [(hs.closed hclose).2 i] at hv
      cases hv
    · exact hcount

/-- **The windows of a run.** Where nothing is left to be lost at the end of the device, the windows are counted, each
    is found by its handle while it exists, and behind the end of the device every window was destroyed once. Every call
    returns. -/
theorem run_windows (cfg : Config) {is : List Input} (h : Run (step cfg) (Emptied cfg) start is s es) :
    Accounted cfg s es ∧ ∀ i, ∃ t fs, step cfg s i = some (t, fs) := by
  have hs : Whole cfg s es := Run.inv_effects (fun _ s es => Whole cfg s es) whole_start
    (fun _ _ _ _ _ _ hpre hc hn => hpre.step hc hn) h
  exact ⟨hs.accounted, hs.returns⟩

instance decidableEmptied (cfg : Config) (s : Sys) : (i : Input) → Decidable (Emptied cfg s i)
  | .deInit => inferInstanceAs (Decidable ((∀ d, d < cfg.displayButt → ∀ i, (s.disp d).pstWinArray i = none) ∧
      ∀ i : Fin virtaulMaxNumber, cfg.displayButt ≤ i.val → s.virArray i = none))
  | .init .. | .create _ | .destroy _ | .setZorder .. => isTrue trivial

/-- A window with a slave window on display 1. -/
def followedWindow : CreateEnv := ⟨0, false, true, fineEnv, true, some 1, fineEnv, true⟩

def virtualWindow : CreateEnv := ⟨0, true, true, fineEnv, false, none, fineEnv, true⟩

/-- A window with its slave window, whose master is destroyed, and a virtual window. -/
def closeRun : List Input :=
  [.init true true, .create followedWindow, .create virtualWindow, .destroy 0x220000, .deInit]

/-- All three windows are destroyed once. -/
theorem run_windows_close :
    ∃ s es, Run (step fiveDisplays) (Emptied fiveDisplays) start closeRun s es ∧ s.flag = .close ∧
      .added 0x220100 1 ∈ es ∧ .addedVir 0x220F00 2 ∈ es ∧ es.count (.give .callback 1) = 1 ∧
      es.count (.give .virtual 2) = 1 := by
  refine exists_run_imp (fun s es => s.flag = .close ∧ .added 0x220100 1 ∈ es ∧ .addedVir 0x220F00 2 ∈ es)
    (by decide) fun _ _ hrun htest => ?_
  obtain ⟨hclose, hadded, haddedVir⟩ := htest
  have hacc := (run_windows fiveDisplays hrun).1
  exact ⟨hclose, hadded, haddedVir, hacc.destroyed hclose _ _ hadded _ (by decide),
    hacc.virDestroyed hclose _ _ haddedVir⟩

/-- **Windows are lost.** `WIN_DeInit` finds no window of a display, since their number is 0 by then: the window is not
    destroyed, and its callback stays. And it does not come to the sixth virtual window: this one stays in its slot,
    while the number of virtual windows is 0. -/
theorem window_is_lost :
    (∃ s es, Run (step fiveDisplays) always start [.init true true, .create plainWindow, .deInit] s es ∧
      s.flag = .close ∧ .added 0x220000 0 ∈ es ∧ .give .callback 0 ∉ es ∧ .give .buffer 0 ∉ es ∧ .give .memory 0 ∉ es) ∧
    ∃ s es, Run (step fiveDisplays) always start
        ([.init true true] ++ List.replicate 6 (.create virtualWindow) ++ [.deInit]) s es ∧
      s.flag = .close ∧ .addedVir 0x220F05 5 ∈ es ∧ .give .virtual 5 ∉ es ∧ (s.virArray 5).isSome ∧
        s.virNumber = 0 := by
  refine ⟨?_, ?_⟩
  · exact exists_run_of_decide (by decide)
  · exact exists_run_of_decide (by decide)

end HiSTB.Vo
