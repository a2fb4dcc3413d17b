import HiSTB.Vo.Redistribute
import HiSTB.Vo.Correctness.Zorder

/-!
# `Vo.Correctness.Redistribute` — when a call takes effect as a whole or not at all

`WindowRedistributeProcess` writes the mapping to the windows before the policy for the layers is asked, and does not
take it back. A call for a window with a slave is two calls, and the first one is not taken back either; `WIN_SetZorder`
does not look at what the second one returns.

* `redistributeRight_iff` — an error, and the windows;
* `setEnableSeperate`, `enableRight_iff` — one window is enabled or disabled, and both;
* `winZorderMove_zorder`, `setZorderOne`, `zorderRight_iff` — one window is moved, and both;
* `allOrNothing_iff` — all of it; `half_a_call` — what is left of calls that were refused.
-/

namespace HiSTB.Vo.Redistribute

variable {L : Layers} {cfg : Config} {d : Disp} {c : Fin windowMaxNumber} {w v : Win} {a : Answer}

variable {h : U32} {n : Nat}

/-! ## What is claimed -/

/-- Of a window, what `WindowRedistributeProcess` may change. -/
def Win.mapping (w : Win) : U32 × U32 × LayerOpt := (w.u32VideoLayerNew, w.u32VideoRegionNoNew, w.stWinLayerOpt)

/-- **What is claimed of `WindowRedistributeProcess`**: an error changes nothing and announces nothing. -/
def RedistributeRight (L : Layers) (d : Disp) (tmpWindow : Win) (a : Answer) : Prop :=
  (windowRedistributeProcess L d tmpWindow a).2 = .failure →
    (∀ i, ((windowRedistributeProcess L d tmpWindow a).1.pstWinArray i).map Win.mapping =
      (d.pstWinArray i).map Win.mapping) ∧
      (windowRedistributeProcess L d tmpWindow a).1.bWindowSytemUpdate = d.bWindowSytemUpdate

/-- A window with a slave, which is on another display. -/
structure Pair (cfg : Config) (s : Sys) (hWin : U32) where
  d : Nat
  c : Fin windowMaxNumber
  w : Win
  dSlv : Nat
  cSlv : Fin windowMaxNumber
  wSlv : Win
  found : winGetWindow cfg s hWin = some (d, c, w)
  mainAndSlave : w.mainAndSlave = true
  hSlvWin_ne : w.hSlvWin ≠ 0
  foundSlv : winGetWindow cfg s w.hSlvWin = some (dSlv, cSlv, wSlv)
  other : dSlv ≠ d

/-- Whether a window is enabled, and is to be. -/
def flags (s : Sys) (d : Nat) (c : Fin windowMaxNumber) : Option (Bool × Bool) :=
  ((s d).pstWinArray c).map (fun w => (w.bEnable, w.bEnableNew))

/-- **What is claimed of `WIN_SetEnable`**, about the enable flags of both windows: as asked, or as they were. -/
def EnableRight (L : Layers) {s : Sys} {hWin : U32} (p : Pair cfg s hWin) (bEnable : Bool) (env envSlv : Env) : Prop :=
  let r := winSetEnable L cfg s hWin bEnable env envSlv
  r.2 = .success ∧ flags r.1 p.d p.c = some (bEnable, bEnable) ∧ flags r.1 p.dSlv p.cSlv = some (bEnable, bEnable) ∨
    r.2 = .failure ∧ flags r.1 p.d p.c = flags s p.d p.c ∧ flags r.1 p.dSlv p.cSlv = flags s p.dSlv p.cSlv

/-- The z-order of a window. -/
def zorder (s : Sys) (d : Nat) (c : Fin windowMaxNumber) : Option Nat :=
  ((s d).pstWinArray c).map (fun w => w.u32Zorder)

/-- Where a move takes a window. -/
def aim (flag : Zorder) (a : Slots) (z : Nat) : Nat :=
  match flag with
  | .moveTop => a.count - 1
  | .moveUp => if (a.find (z + 1)).isSome then z + 1 else z
  | .moveBottom => 0
  | .moveDown => if z = 0 then 0 else if (a.find (z - 1)).isSome then z - 1 else z

/-- **What is claimed of `WIN_SetZorder`**, about the z-orders of both windows: as asked, or as they were. -/
def ZorderRight (L : Layers) {s : Sys} {hWin : U32} (p : Pair cfg s hWin) (flag : Zorder) (a aSlv : Answer) : Prop :=
  let r := winSetZorder L cfg s hWin flag a aSlv
  r.2 = .success ∧ zorder r.1 p.d p.c = some (aim flag (s p.d).slots p.w.u32Zorder) ∧
      zorder r.1 p.dSlv p.cSlv = some (aim flag (s p.dSlv).slots p.wSlv.u32Zorder) ∨
    r.2 = .failure ∧ zorder r.1 p.d p.c = zorder s p.d p.c ∧ zorder r.1 p.dSlv p.cSlv = zorder s p.dSlv p.cSlv

/-! ## When it holds -/

/-- The policies do not refuse these windows. -/
def Accepts (ws : List Win) (a : Answer) : Prop := ws = [] ∨ a.mapping.isSome = true ∧ a.zorders.isSome = true

/-- The last of the windows with a handle, which are numbered from `k` on. -/
def lastOf (u : U32) : Nat → List Win → Option Nat
  | _, [] => none
  | k, w :: ws => (lastOf u (k + 1) ws).or (if u = w.u32Index then some k else none)

/-- The policy for the mapping refuses, or none does, or the windows have the new mapping already. -/
def RedistributeOk (L : Layers) (d : Disp) (tmpWindow : Win) (a : Answer) : Prop :=
  Accepts (d.enabled tmpWindow) a ∨
    ∀ res ∈ a.mapping, ∀ i, ∀ v ∈ d.pstWinArray i, ∀ k ∈ lastOf v.u32Index 0 (d.enabled tmpWindow),
      v.mapped L tmpWindow.enDisp (res k) = v

/-- A window is enabled or disabled. -/
def Taken (d : Disp) (w : Win) (bEnable : Bool) (env : Env) : Prop :=
  env.malloc = true ∧ Accepts (d.enabled { w with bEnable := bEnable }) env.answer

/-- The first call fails, or both succeed, or the first one changes nothing. -/
def EnableOk {s : Sys} {hWin : U32} (p : Pair cfg s hWin) (bEnable : Bool) (env envSlv : Env) : Prop :=
  ¬Taken (s p.d) p.w bEnable env ∨ Taken (s p.dSlv) p.wSlv bEnable envSlv ∨ p.w.bEnable = bEnable ∧
    p.w.bEnableNew = bEnable

/-- A window is moved. -/
def Moved (d : Disp) (w : Win) (flag : Zorder) (a : Answer) : Prop :=
  flag = .moveDown ∧ w.u32Zorder = 0 ∨ Accepts (d.enabled w) a

/-- `WinZorderRestore` does not come to the window's slot. -/
def Behind (d : Disp) (c : Fin windowMaxNumber) : Prop := d.slots.count ≤ c.val

/-- The window is where the move takes it. -/
def Stays (d : Disp) (w : Win) (flag : Zorder) : Prop := aim flag d.slots w.u32Zorder = w.u32Zorder

/-- Both windows are moved, or none is; a window that has nowhere to go counts as either, and one behind the others as
    moved. -/
def ZorderOk {s : Sys} {hWin : U32} (p : Pair cfg s hWin) (flag : Zorder) (a aSlv : Answer) : Prop :=
  Moved (s p.d) p.w flag a ∧ (Moved (s p.dSlv) p.wSlv flag aSlv ∨ Behind (s p.dSlv) p.cSlv ∨
    Stays (s p.dSlv) p.wSlv flag) ∨
    ¬Moved (s p.d) p.w flag a ∧ (¬Behind (s p.d) p.c ∨ Stays (s p.d) p.w flag) ∧
      (¬Moved (s p.dSlv) p.wSlv flag aSlv ∧ ¬Behind (s p.dSlv) p.cSlv ∨ Stays (s p.dSlv) p.wSlv flag)

/-! ## The mapping -/

@[simp] theorem map_pstWinArray (f : Win → Win) (i : Fin windowMaxNumber) :
    (d.map f).pstWinArray i = (d.pstWinArray i).map f := rfl

theorem mapped_mapped (enDisp : Nat) (r r' : MappingResult) (w : Win) :
    (w.mapped L enDisp r).mapped L enDisp r' = w.mapped L enDisp r' := by
  unfold Win.mapped
  split_ifs <;> rfl

@[simp] theorem mapped_u32Index (enDisp : Nat) (r : MappingResult) (w : Win) :
    (w.mapped L enDisp r).u32Index = w.u32Index := rfl

theorem updateAll_update (res : Nat → MappingResult) (enDisp k : Nat) (ws : List Win) (d : Disp) :
    (updateAll L res enDisp k ws d).bWindowSytemUpdate = d.bWindowSytemUpdate := by
  induction ws generalizing k d with
  | nil => rfl
  | cons w ws ih => exact ih (k + 1) _

/-- What becomes of a window: the last result for its handle counts. -/
theorem updateAll_pstWinArray (res : Nat → MappingResult) (enDisp k : Nat) (ws : List Win) (d : Disp)
    (i : Fin windowMaxNumber) :
    (updateAll L res enDisp k ws d).pstWinArray i =
      (d.pstWinArray i).map (fun v => ((lastOf v.u32Index k ws).map (fun j => v.mapped L enDisp (res j))).getD v) := by
  induction ws generalizing k d with
  | nil => exact (Option.map_id' ..).symm
  | cons w ws ih =>
    rw [updateAll, ih, winUpdateMappingInfor, map_pstWinArray, Option.map_map]
    congr 1
    funext v
    simp only [Function.comp, lastOf]
    by_cases hv : v.u32Index = w.u32Index
    · rw [if_pos hv, if_pos hv, mapped_u32Index]
      cases lastOf v.u32Index (k + 1) ws with
      | none => rfl
      | some j => exact mapped_mapped ..
    · rw [if_neg hv, if_neg hv, Option.or_none]

/-- A window has the mapping already, or it is another window. -/
theorem mapped_mapping {enDisp : Nat} {r : MappingResult} :
    (v.mapped L enDisp r).mapping = v.mapping ↔ v.mapped L enDisp r = v := by
  constructor
  · intro h
    obtain ⟨hlayer, hrest⟩ := Prod.mk.inj h
    obtain ⟨hregion, -⟩ := Prod.mk.inj hrest
    unfold Win.mapped at hlayer hregion ⊢
    dsimp only at hlayer hregion
    rw [hlayer, hregion]
  · intro h
    rw [h]

/-- What `WindowRedistributeProcess` returns. -/
theorem redistribute_success : (windowRedistributeProcess L d w a).2 = .success ↔ Accepts (d.enabled w) a := by
  unfold windowRedistributeProcess Accepts
  by_cases hws : d.enabled w = []
  · rw [if_pos hws]
    exact iff_of_true rfl (.inl hws)
  · rw [if_neg hws, or_iff_right hws]
    cases a.mapping with
    | none => exact iff_of_false (fun h => Ret.noConfusion h) (fun h => Bool.noConfusion h.1)
    | some res =>
      cases a.zorders with
      | none => exact iff_of_false (fun h => Ret.noConfusion h) (fun h => Bool.noConfusion h.2)
      | some ops => exact iff_of_true rfl ⟨rfl, rfl⟩

theorem redistribute_failure : (windowRedistributeProcess L d w a).2 = .failure ↔ ¬Accepts (d.enabled w) a := by
  rw [← redistribute_success (L := L)]
  cases (windowRedistributeProcess L d w a).2 with
  | success => exact iff_of_false (fun h => Ret.noConfusion h) (fun h => h rfl)
  | failure => exact iff_of_true rfl (fun h => Ret.noConfusion h)

/-- The new mapping, and then the refusal. -/
theorem redistribute_refused {res : Nat → MappingResult} (hws : d.enabled w ≠ []) (hmapping : a.mapping = some res)
    (hzorders : a.zorders = none) :
    windowRedistributeProcess L d w a = (updateAll L res w.enDisp 0 (d.enabled w) d, .failure) := by
  unfold windowRedistributeProcess
  rw [if_neg hws, hmapping]
  rw [hzorders]

/-- Where the mapping was not refused, it is there, whatever is returned. -/
theorem redistributeRight_iff : RedistributeRight L d w a ↔ RedistributeOk L d w a := by
  unfold RedistributeRight RedistributeOk
  by_cases hacc : Accepts (d.enabled w) a
  · refine iff_of_true (fun hfail => ?_) (.inl hacc)
    exact absurd hacc (redistribute_failure.mp hfail)
  rw [or_iff_right hacc]
  have hfail : (windowRedistributeProcess L d w a).2 = .failure := redistribute_failure.mpr hacc
  rw [forall_prop_of_true hfail]
  have hws : d.enabled w ≠ [] := fun h => hacc (.inl h)
  cases hmapping : a.mapping with
  | none =>
    have hsame : windowRedistributeProcess L d w a = (d, .failure) := by
      unfold windowRedistributeProcess
      rw [if_neg hws, hmapping]
    rw [hsame]
    exact iff_of_true ⟨fun _ => rfl, rfl⟩ (fun _ h => by cases h)
  | some res =>
    have hzorders : a.zorders = none := by
      cases hz : a.zorders with
      | none => rfl
      | some ops => exact absurd (.inr ⟨by rw [hmapping]; rfl, by rw [hz]; rfl⟩) hacc
    rw [redistribute_refused hws hmapping hzorders]
    rw [and_iff_left (updateAll_update ..)]
    constructor
    · intro h res' hres i v hv k hk
      obtain rfl := Option.some.inj hres
      have hi := h i
      rw [updateAll_pstWinArray, Option.mem_def.mp hv] at hi
      have heq := Option.some.inj hi
      dsimp only at heq
      rw [Option.mem_def.mp hk] at heq
      exact mapped_mapping.mp heq
    · intro h i
      rw [updateAll_pstWinArray]
      cases hv : d.pstWinArray i with
      | none => rfl
      | some v =>
        refine congrArg some ?_
        dsimp only
        cases hk : lastOf v.u32Index 0 (d.enabled w) with
        | none => rfl
        | some k => exact mapped_mapping.mpr (h res rfl i v hv k hk)

/-- What is changed of a window is not what the calls are about. -/
def Keeps (f : Win → Win) : Prop :=
  ∀ v, (f v).toWindow = v.toWindow ∧ (f v).bEnable = v.bEnable ∧ (f v).bEnableNew = v.bEnableNew

theorem Keeps.comp {f g : Win → Win} (hf : Keeps f) (hg : Keeps g) : Keeps (g ∘ f) := by
  intro v
  obtain ⟨h, henable, hnew⟩ := hg (f v)
  exact ⟨h.trans (hf v).1, henable.trans (hf v).2.1, hnew.trans (hf v).2.2⟩

theorem setLayerOpt_keeps (L : Layers) (op : Nat) : Keeps (Win.setLayerOpt L op) := by
  intro v
  unfold Win.setLayerOpt
  split_ifs <;> exact ⟨rfl, rfl, rfl⟩

/-- `WindowRedistributeProcess` changes every window, and leaves it where it is. -/
theorem redistribute_keeps (L : Layers) (d : Disp) (w : Win) (a : Answer) :
    ∃ f, Keeps f ∧ ∀ i, (windowRedistributeProcess L d w a).1.pstWinArray i = (d.pstWinArray i).map f := by
  have hsame : ∃ f, Keeps f ∧ ∀ i, d.pstWinArray i = (d.pstWinArray i).map f :=
    ⟨id, fun _ => ⟨rfl, rfl, rfl⟩, fun _ => (Option.map_id' ..).symm⟩
  unfold windowRedistributeProcess
  dsimp only
  split_ifs
  · exact hsame
  cases a.mapping with
  | none => exact hsame
  | some res =>
    have hmapped :
        Keeps (fun v => ((lastOf v.u32Index 0 (d.enabled w)).map (fun j => v.mapped L w.enDisp (res j))).getD v) := by
      intro v
      dsimp only
      cases lastOf v.u32Index 0 (d.enabled w) <;> exact ⟨rfl, rfl, rfl⟩
    cases a.zorders with
    | none => exact ⟨_, hmapped, fun i => updateAll_pstWinArray ..⟩
    | some ops =>
      have hopt : ∀ op, ∃ f, Keeps f ∧
          ∀ i, ((updateAll L res w.enDisp 0 (d.enabled w) d).map (Win.setLayerOpt L op)).pstWinArray i =
            (d.pstWinArray i).map f := by
        intro op
        refine ⟨_, hmapped.comp (setLayerOpt_keeps L op), fun i => ?_⟩
        rw [map_pstWinArray, updateAll_pstWinArray, Option.map_map]
      exact hopt _

/-! ## The handles -/

theorem winGetWindow_some {s : Sys} (hw : winGetWindow cfg s h = some (n, c, w)) :
    n = (winGetDispId h).toNat ∧ (s n).pstWinArray c = some w := by
  unfold winGetWindow at hw
  dsimp only at hw
  split_ifs at hw
  obtain ⟨v, hv, heq⟩ := Option.map_eq_some_iff.mp hw
  obtain ⟨rfl, hrest⟩ := Prod.mk.inj heq
  obtain ⟨rfl, rfl⟩ := Prod.mk.inj hrest
  exact ⟨rfl, hv⟩

/-- A window of another display is found as before. -/
theorem winGetWindow_update {s : Sys} {m : Nat} (hw : winGetWindow cfg s h = some (n, c, w)) (hne : n ≠ m) (x : Disp) :
    winGetWindow cfg (Function.update s m x) h = some (n, c, w) := by
  obtain ⟨rfl, -⟩ := winGetWindow_some hw
  rw [← hw]
  unfold winGetWindow
  dsimp only
  rw [Function.update_of_ne hne]

namespace Pair

variable {s : Sys} {hWin : U32} (p : Pair cfg s hWin)

theorem slot : (s p.d).pstWinArray p.c = some p.w := (winGetWindow_some p.found).2

theorem slotSlv : (s p.dSlv).pstWinArray p.cSlv = some p.wSlv := (winGetWindow_some p.foundSlv).2

end Pair

/-! ## Enabling -/

/-- Whether the window in a slot is enabled, and is to be. -/
def Disp.flagsAt (d : Disp) (c : Fin windowMaxNumber) : Option (Bool × Bool) :=
  (d.pstWinArray c).map (fun w => (w.bEnable, w.bEnableNew))

theorem redistribute_flagsAt (L : Layers) (d : Disp) (w : Win) (a : Answer) (c : Fin windowMaxNumber) :
    (windowRedistributeProcess L d w a).1.flagsAt c = d.flagsAt c := by
  obtain ⟨f, hf, hmap⟩ := redistribute_keeps L d w a
  unfold Disp.flagsAt
  rw [hmap c]
  cases d.pstWinArray c with
  | none => rfl
  | some v =>
    obtain ⟨-, henable, hnew⟩ := hf v
    show some ((f v).bEnable, (f v).bEnableNew) = _
    rw [henable, hnew]
    rfl

/-- One call: it is taken or refused, and what is left of it. -/
theorem setEnableSeperate (b : Bool) (env : Env) (hw : d.pstWinArray c = some w) :
    (Taken d w b env ∧ (winSetEnableSeperate L d c w b env).2 = .success ∧
        (winSetEnableSeperate L d c w b env).1.flagsAt c = some (b, b)) ∨
      ¬Taken d w b env ∧ (winSetEnableSeperate L d c w b env).2 = .failure ∧
        (winSetEnableSeperate L d c w b env).1.flagsAt c = d.flagsAt c := by
  unfold winSetEnableSeperate Taken
  cases env.malloc with
  | false => exact .inr ⟨fun h => Bool.noConfusion h.1, rfl, rfl⟩
  | true =>
    rw [if_pos rfl, and_iff_right rfl, ← redistribute_success (L := L)]
    have hflags := redistribute_flagsAt L d { w with bEnable := b } env.answer c
    have hsome : ∃ v, (windowRedistributeProcess L d { w with bEnable := b } env.answer).1.pstWinArray c = some v := by
      obtain ⟨f, -, hmap⟩ := redistribute_keeps L d { w with bEnable := b } env.answer
      exact ⟨f w, by rw [hmap c, hw]; rfl⟩
    generalize windowRedistributeProcess L d { w with bEnable := b } env.answer = r at hflags hsome
    obtain ⟨x, ret⟩ := r
    cases ret with
    | failure => exact .inr ⟨fun h => Ret.noConfusion h, rfl, hflags⟩
    | success =>
      obtain ⟨v, hv⟩ := hsome
      dsimp only at hv ⊢
      refine .inl ⟨rfl, ?_⟩
      unfold Disp.flagsAt Disp.load Disp.set
      split_ifs <;> simp [hv]

/-- One window, then the other. -/
theorem winSetEnable_eq {s : Sys} {hWin : U32} (p : Pair cfg s hWin) (b : Bool) (env envSlv : Env) :
    winSetEnable L cfg s hWin b env envSlv = match winSetEnableSeperate L (s p.d) p.c p.w b env with
      | (x, .failure) => (Function.update s p.d x, .failure)
      | (x, .success) =>
        let r := winSetEnableSeperate L (s p.dSlv) p.cSlv p.wSlv b envSlv
        (Function.update (Function.update s p.d x) p.dSlv r.1, r.2) := by
  unfold winSetEnable
  rw [p.found]
  dsimp only
  obtain ⟨x, ret⟩ := winSetEnableSeperate L (s p.d) p.c p.w b env
  cases ret with
  | failure => rfl
  | success =>
    dsimp only
    rw [if_pos ⟨p.mainAndSlave, p.hSlvWin_ne⟩, winGetWindow_update p.foundSlv p.other]
    dsimp only
    rw [Function.update_of_ne p.other]

/-- The main window stays enabled or disabled where the slave's call fails. -/
theorem enableRight_iff {s : Sys} {hWin : U32} (p : Pair cfg s hWin) (b : Bool) (env envSlv : Env) :
    EnableRight L p b env envSlv ↔ EnableOk p b env envSlv := by
  have hflags : ∀ {t : Sys} {n : Nat} {e : Fin windowMaxNumber}, flags t n e = (t n).flagsAt e := rfl
  have hold : (s p.d).flagsAt p.c = some (p.w.bEnable, p.w.bEnableNew) := by
    unfold Disp.flagsAt
    rw [p.slot]
    rfl
  unfold EnableRight EnableOk
  simp only [hflags]
  rw [winSetEnable_eq]
  have hmain := setEnableSeperate (L := L) b env p.slot
  generalize winSetEnableSeperate L (s p.d) p.c p.w b env = r at hmain
  obtain ⟨x, ret⟩ := r
  obtain ⟨htaken, rfl, hx⟩ | ⟨hrefused, rfl, hx⟩ := hmain
  · dsimp only at hx ⊢
    rw [Function.update_self, Function.update_of_ne p.other.symm, Function.update_self, hx]
    obtain ⟨htakenSlv, hret, hflagsSlv⟩ | ⟨hrefusedSlv, hret, hflagsSlv⟩ :=
      setEnableSeperate (L := L) b envSlv p.slotSlv
    · rw [hret, hflagsSlv]
      exact iff_of_true (.inl ⟨rfl, rfl, rfl⟩) (.inr (.inl htakenSlv))
    · rw [hret, hflagsSlv, hold]
      simp [htaken, hrefusedSlv, eq_comm]
  · dsimp only at hx ⊢
    rw [Function.update_self, Function.update_of_ne p.other, hx]
    exact iff_of_true (.inr ⟨rfl, rfl, rfl⟩) (.inl hrefused)

/-! ## Z-orders -/

variable {a' b' : Slots} {x : Window} {flag : Zorder}

/-- Which of two z-orders is found. -/
def Lands (there : Prop) (n z : Nat) (found : Option Nat) : Prop := (there → found = some n) ∧ (¬there → found = some z)

theorem renumber_zorder {f : Fin windowMaxNumber → Nat → Nat} (h : (b' c).map Window.u32Zorder = some n) :
    (b'.renumber f c).map Window.u32Zorder = some (f c n) := by
  obtain ⟨y, hy, rfl⟩ := Option.map_eq_some_iff.mp h
  unfold Slots.renumber
  rw [hy]
  rfl

/-- The window's z-order after the layout was taken or refused. -/
theorem settle_zorder (layout : Bool) (hx : a' c = some x) (hcount : b'.count = a'.count)
    (hb : (b' c).map Window.u32Zorder = some n) :
    Lands (layout = true ∨ a'.count ≤ c.val) n x.u32Zorder
      (((settle (winZorderSave a') b' layout).1 c).map Window.u32Zorder) := by
  unfold settle
  cases layout with
  | true => exact ⟨fun _ => hb, fun hno => absurd (.inl rfl) hno⟩
  | false =>
    rw [if_neg Bool.false_ne_true, or_iff_right Bool.false_ne_true]
    unfold winZorderRestore
    rw [hcount]
    refine ⟨fun hc => ?_, fun hc => ?_⟩
    · rw [renumber_zorder hb, if_neg (Nat.not_lt.mpr hc)]
    · rw [renumber_zorder hb, if_pos (Nat.lt_of_not_le hc)]
      unfold winZorderSave
      rw [if_pos (Nat.lt_of_not_le hc), hx]

/-- **One move**: it aims at `aim`, and a refused one gets there only behind the others. -/
theorem winZorderMove_zorder (layout : Bool) (hx : a' c = some x) (hmove : ¬(flag = .moveDown ∧ x.u32Zorder = 0)) :
    Lands (layout = true ∨ a'.count ≤ c.val) (aim flag a' x.u32Zorder) x.u32Zorder
      (((winZorderMove flag a' c x layout).1 c).map Window.u32Zorder) := by
  have hself : (a' c).map Window.u32Zorder = some x.u32Zorder := by
    rw [hx]
    rfl
  cases flag with
  | moveTop =>
    apply settle_zorder layout hx
    · rw [count_renumber, count_renumber]
    · rw [renumber_zorder (renumber_zorder hself), if_pos rfl]
      rfl
  | moveBottom =>
    apply settle_zorder layout hx
    · rw [count_renumber, count_renumber]
    · rw [renumber_zorder (renumber_zorder hself), if_pos rfl]
      rfl
  | moveUp =>
    show Lands _ _ _ (((winZorderMoveUp a' c x layout).1 c).map _)
    unfold winZorderMoveUp aim
    cases a'.find (x.u32Zorder + 1) with
    | none => exact settle_zorder layout hx rfl hself
    | some e =>
      apply settle_zorder layout hx (count_renumber ..)
      rw [renumber_zorder hself, if_pos rfl]
      rfl
  | moveDown =>
    have hz : x.u32Zorder ≠ 0 := fun h => hmove ⟨rfl, h⟩
    show Lands _ _ _ (((winZorderMoveDown a' c x layout).1 c).map _)
    unfold winZorderMoveDown aim
    rw [if_neg hz, if_neg hz]
    cases a'.find (x.u32Zorder - 1) with
    | none => exact settle_zorder layout hx rfl hself
    | some e =>
      apply settle_zorder layout hx (count_renumber ..)
      rw [renumber_zorder hself, if_pos rfl]
      rfl

/-- The z-order of the window in a slot. -/
def Disp.zorderAt (d : Disp) (c : Fin windowMaxNumber) : Option Nat := (d.pstWinArray c).map (fun w => w.u32Zorder)

/-- One call: it moves the window or not. -/
theorem setZorderOne (flag : Zorder) (a : Answer) (hw : d.pstWinArray c = some w) :
    ((winSetZorderOne L d c w flag a).2 = .success ↔ Moved d w flag a) ∧
      Lands (Moved d w flag a ∨ Behind d c) (aim flag d.slots w.u32Zorder) w.u32Zorder
        ((winSetZorderOne L d c w flag a).1.zorderAt c) := by
  have hold : d.zorderAt c = some w.u32Zorder := by
    unfold Disp.zorderAt
    rw [hw]
    rfl
  unfold winSetZorderOne
  by_cases hmove : flag = .moveDown ∧ w.u32Zorder = 0
  · rw [if_pos hmove]
    have hmoved : Moved d w flag a := .inl hmove
    refine ⟨iff_of_true rfl hmoved, fun _ => ?_, fun hno => absurd (.inl hmoved) hno⟩
    obtain ⟨rfl, hz⟩ := hmove
    rw [hold, aim, if_pos hz, hz]
  · rw [if_neg hmove]
    have hret : (windowRedistributeProcess L d w a).2 = .success ↔ Moved d w flag a := by
      rw [redistribute_success, Moved, or_iff_right hmove]
    refine ⟨hret, ?_⟩
    have hslot : d.slots c = some w.toWindow := by
      unfold Disp.slots
      rw [hw]
      rfl
    have hlands := winZorderMove_zorder (decide ((windowRedistributeProcess L d w a).2 = .success)) hslot hmove
    have hiff : decide ((windowRedistributeProcess L d w a).2 = .success) = true ∨ d.slots.count ≤ c.val ↔
        Moved d w flag a ∨ Behind d c := by
      rw [decide_eq_true_iff, hret, Behind]
    obtain ⟨v, hv⟩ : ∃ v, (windowRedistributeProcess L d w a).1.pstWinArray c = some v := by
      obtain ⟨f, -, hmap⟩ := redistribute_keeps L d w a
      exact ⟨f w, by rw [hmap c, hw]; rfl⟩
    unfold Disp.zorderAt Disp.setZorders
    dsimp only
    rw [hv, Option.map_some, Option.map_some]
    refine ⟨fun h => ?_, fun h => ?_⟩
    · rw [hlands.1 (hiff.mpr h)]
      rfl
    · rw [hlands.2 (fun hno => h (hiff.mp hno))]
      rfl

/-- One window, then the other, with the answer for the first one. -/
theorem winSetZorder_eq {s : Sys} {hWin : U32} (p : Pair cfg s hWin) (flag : Zorder) (a aSlv : Answer) :
    winSetZorder L cfg s hWin flag a aSlv =
      (Function.update (Function.update s p.d (winSetZorderOne L (s p.d) p.c p.w flag a).1) p.dSlv
        (winSetZorderOne L (s p.dSlv) p.cSlv p.wSlv flag aSlv).1, (winSetZorderOne L (s p.d) p.c p.w flag a).2) := by
  unfold winSetZorder
  rw [p.found]
  dsimp only
  rw [if_pos ⟨p.mainAndSlave, p.hSlvWin_ne⟩, winGetWindow_update p.foundSlv p.other]
  dsimp only
  rw [Function.update_of_ne p.other]

/-- The slave window is not moved where its call fails, and nobody hears of it. -/
theorem zorderRight_iff {s : Sys} {hWin : U32} (p : Pair cfg s hWin) (flag : Zorder) (a aSlv : Answer) :
    ZorderRight L p flag a aSlv ↔ ZorderOk p flag a aSlv := by
  have hzorder : ∀ {t : Sys} {n : Nat} {e : Fin windowMaxNumber}, zorder t n e = (t n).zorderAt e := rfl
  have hold : (s p.d).zorderAt p.c = some p.w.u32Zorder := by
    unfold Disp.zorderAt
    rw [p.slot]
    rfl
  have holdSlv : (s p.dSlv).zorderAt p.cSlv = some p.wSlv.u32Zorder := by
    unfold Disp.zorderAt
    rw [p.slotSlv]
    rfl
  unfold ZorderRight ZorderOk
  simp only [hzorder]
  rw [winSetZorder_eq]
  dsimp only
  rw [Function.update_self, Function.update_of_ne p.other.symm, Function.update_self, hold, holdSlv]
  obtain ⟨hret, hthere, hback⟩ := setZorderOne (L := L) flag a p.slot
  obtain ⟨-, hthereSlv, hbackSlv⟩ := setZorderOne (L := L) flag aSlv p.slotSlv
  have hfail : (winSetZorderOne L (s p.d) p.c p.w flag a).2 = .failure ↔ ¬Moved (s p.d) p.w flag a := by
    rw [← hret]
    cases (winSetZorderOne L (s p.d) p.c p.w flag a).2 with
    | success => exact iff_of_false (fun h => Ret.noConfusion h) (fun h => h rfl)
    | failure => exact iff_of_true rfl (fun h => Ret.noConfusion h)
  rw [hret, hfail]
  unfold Stays
  by_cases hm : Moved (s p.d) p.w flag a
  · rw [hthere (.inl hm)]
    by_cases hs : Moved (s p.dSlv) p.wSlv flag aSlv ∨ Behind (s p.dSlv) p.cSlv
    · rw [hthereSlv hs, ← or_assoc]
      simp [hm, hs]
    · rw [hbackSlv hs, ← or_assoc]
      simp [hm, hs, eq_comm]
  · by_cases hs : Moved (s p.dSlv) p.wSlv flag aSlv ∨ Behind (s p.dSlv) p.cSlv
    · rw [hthereSlv hs]
      have hno : ¬(¬Moved (s p.dSlv) p.wSlv flag aSlv ∧ ¬Behind (s p.dSlv) p.cSlv) := by rwa [← not_or, not_not]
      by_cases hb : Behind (s p.d) p.c
      · rw [hthere (.inr hb)]
        simp [hm, hb, hno]
      · rw [hback (not_or.mpr ⟨hm, hb⟩)]
        simp [hm, hb, hno]
    · rw [hbackSlv hs]
      have hyes : ¬Moved (s p.dSlv) p.wSlv flag aSlv ∧ ¬Behind (s p.dSlv) p.cSlv := not_or.mp hs
      by_cases hb : Behind (s p.d) p.c
      · rw [hthere (.inr hb)]
        simp [hm, hb, hyes]
      · rw [hback (not_or.mpr ⟨hm, hb⟩)]
        simp [hm, hb, hyes]

/-! ## As a whole -/

/-- **As a whole or not at all.** An error of `WindowRedistributeProcess` leaves every window as it was just where the
    policy for the mapping gave it, or the windows have the new mapping already. `WIN_SetEnable` takes effect on both
    windows or on none just where the slave's call does not fail after the main window's did something. `WIN_SetZorder`
    does just where both calls are taken or both are refused, as far as the windows have where to go and what is refused
    is undone. -/
theorem allOrNothing_iff (L : Layers) (cfg : Config) :
    (∀ d w a, RedistributeRight L d w a ↔ RedistributeOk L d w a) ∧
      ∀ s hWin (p : Pair cfg s hWin),
        (∀ bEnable env envSlv, EnableRight L p bEnable env envSlv ↔ EnableOk p bEnable env envSlv) ∧
          ∀ flag a aSlv, ZorderRight L p flag a aSlv ↔ ZorderOk p flag a aSlv :=
  ⟨fun _ _ _ => redistributeRight_iff, fun _ _ p => ⟨enableRight_iff p, zorderRight_iff p⟩⟩

/-- Two displays and the numbers of two layers. -/
def twoLayers : Layers := ⟨0, 1, 0, 3, 4⟩

/-- A window in no layer. -/
def winOf (u32Index : U32) (enDisp u32Zorder : Nat) (hSlvWin : U32) (bEnable : Bool) : Win :=
  ⟨⟨0, u32Index, enDisp, u32Zorder, hSlvWin⟩, decide (hSlvWin ≠ 0), bEnable, bEnable, 0, 0, ⟨false, false, 0⟩⟩

/-- A window below one that is enabled, on a display. -/
def belowAnother (w v : Win) : Disp := ⟨fun i => if i = 0 then some w else if i = 1 then some v else none, 2, false⟩

/-- On either display a window that is disabled, below one that is enabled; the lower ones are main window and slave
    window. -/
def masterAndSlave : Sys := fun n =>
  if n = 1 then belowAnother (winOf 0x220100 1 0 0x220000 false) (winOf 0x220101 1 1 0 true)
  else belowAnother (winOf 0x220000 0 0 0 false) (winOf 0x220001 0 1 0 true)

/-- The two windows. -/
def masterAndSlavePair : Pair fiveDisplays masterAndSlave 0x220100 where
  d := 1
  c := 0
  w := winOf 0x220100 1 0 0x220000 false
  dSlv := 0
  cSlv := 0
  wSlv := winOf 0x220000 0 0 0 false
  found := by rfl
  mainAndSlave := rfl
  hSlvWin_ne := by decide
  foundSlv := by rfl
  other := by decide

/-- The policies agree; the windows are in layer 1. -/
def agreed : Answer := ⟨some (fun _ => ⟨1, 0, 0⟩), some (fun _ => 0)⟩

/-- The order of the layers is refused. -/
def disagreed : Answer := { agreed with zorders := none }

/-- **Half a call.** The upper window has its new layer though `WindowRedistributeProcess` fails. The main window is
    enabled though `WIN_SetEnable` fails, for the slave window. `WIN_SetZorder` succeeds, and the slave window is where
    it was. -/
theorem half_a_call :
    ¬RedistributeRight twoLayers (masterAndSlave 1) masterAndSlavePair.w disagreed ∧
      ¬EnableRight twoLayers masterAndSlavePair true ⟨true, agreed, true⟩ ⟨true, disagreed, true⟩ ∧
        ¬ZorderRight twoLayers masterAndSlavePair .moveTop agreed disagreed := by
  unfold RedistributeRight EnableRight ZorderRight
  decide

end HiSTB.Vo.Redistribute
