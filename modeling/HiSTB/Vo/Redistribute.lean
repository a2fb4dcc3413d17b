import HiSTB.Vo.Window

/-!
# `Vo.Redistribute` — windows get new layers, and calls for a window and its slave (`drv_window.c`)

Whenever the windows of a display change, `WindowRedistributeProcess` asks one policy for a new layer and region of
every window that is enabled, and another one whether the layers are in the order of the windows. The interrupt loads
what was found when `bWindowSytemUpdate` is set.

* `windowRedistributeProcess` — the new mapping, with `winUpdateMappingInfor`;
* `winSetEnableSeperate`, `winSetEnable`, `winSetZorderOne`, `winSetZorder` — the calls, which go on to the slave
  window.

The policies are answers: neither they nor the numbers of the layers and operations are in the repository. So is whether
the interrupt comes in time. The z-orders are moved as in `Vo.Window`, by the answer for the layout. A slave window has
no slave of its own. Left out: where the windows are, the layers themselves, and what the interrupt does to them.
-/

namespace HiSTB.Vo.Redistribute

/-- `stWinLayerOpt`; `pParam` is a z-order operation, as a number. -/
structure LayerOpt where
  zorderAdjust : Bool
  bEffective : Bool
  pParam : Nat
  deriving DecidableEq

/-- The rest of `WINDOW_S` that counts here; `mainAndSlave` is the type `HI_DRV_WIN_ACTIVE_MAIN_AND_SLAVE`. -/
structure Win extends Window where
  mainAndSlave : Bool
  bEnable : Bool
  bEnableNew : Bool
  u32VideoLayerNew : U32
  u32VideoRegionNoNew : U32
  stWinLayerOpt : LayerOpt
  deriving DecidableEq

/-- A display's part of `stDispWindow`. -/
structure Disp where
  pstWinArray : Fin windowMaxNumber → Option Win
  u32WinNumber : Nat
  bWindowSytemUpdate : Bool

/-- `stDispWindow`. -/
abbrev Sys := Nat → Disp

/-- What the headers define, which are not in the repository: two displays, two layers, and
    `HI_DRV_DISP_ZORDER_BUTT`. -/
structure Layers where
  display0 : Nat
  display1 : Nat
  vid0 : U32
  vid3 : U32
  zorderButt : Nat

/-- `WindowMappingResult_S`. -/
structure MappingResult where
  videoLayer : U32
  regionNo : U32
  u32OverlapCnt : Nat
  deriving DecidableEq

/-- What the policies answer: `WindowAndLayerMapping` with a result for every window, `layerZorderMatch` with an
    operation for every window that overlaps, or one of them refuses. -/
structure Answer where
  mapping : Option (Nat → MappingResult)
  zorders : Option (Nat → Nat)

variable (L : Layers)

/-! ## The mapping -/

/-- The windows of a display, in the order of the table. -/
def Disp.windows (d : Disp) : List Win := (List.finRange windowMaxNumber).filterMap d.pstWinArray

/-- Every window of the display changes. -/
def Disp.map (d : Disp) (f : Win → Win) : Disp := { d with pstWinArray := fun i => (d.pstWinArray i).map f }

/-- `Win_GetAllEnabledWindows` and `Win_InsertNodeIntoEnabledWindows`. -/
def Disp.enabled (d : Disp) (tmpWindow : Win) : List Win :=
  d.windows.filter (fun w => w.u32Index ≠ tmpWindow.u32Index ∧ w.bEnable) ++
    (d.windows.filter (fun w => w.u32Index = tmpWindow.u32Index ∧ tmpWindow.bEnable)).map (fun _ => tmpWindow)

/-- The new layer and region of a window. -/
def Win.mapped (enDisp : Nat) (r : MappingResult) (w : Win) : Win :=
  { w with
    u32VideoLayerNew :=
      if enDisp = L.display1 then r.videoLayer else if enDisp = L.display0 then r.videoLayer + 3 else w.u32VideoLayerNew
    u32VideoRegionNoNew := r.regionNo }

/-- `WinUpdateMappingInfor`. -/
def winUpdateMappingInfor (d : Disp) (w : Win) (r : MappingResult) (enDisp : Nat) : Disp :=
  d.map (fun v => if v.u32Index = w.u32Index then v.mapped L enDisp r else v)

/-- The loop over the enabled windows, from the `k`-th result on. -/
def updateAll (res : Nat → MappingResult) (enDisp : Nat) : Nat → List Win → Disp → Disp
  | _, [], d => d
  | k, w :: ws, d => updateAll res enDisp (k + 1) ws (winUpdateMappingInfor L d w (res k) enDisp)

/-- `layerNumber` of the windows that overlap. -/
def overlapping (res : Nat → MappingResult) (enDisp : Nat) (ws : List Win) : List U32 :=
  ws.zipIdx.filterMap (fun p => if (res p.2).u32OverlapCnt ≠ 0 then
    some (p.1.mapped L enDisp (res p.2)).u32VideoLayerNew else none)

/-- The operation for a window in one of the two layers. -/
def Win.setLayerOpt (op : Nat) (w : Win) : Win :=
  if w.u32VideoLayerNew = L.vid3 ∨ w.u32VideoLayerNew = L.vid0 then
    { w with stWinLayerOpt := ⟨true, decide (op ≠ L.zorderButt), op⟩ }
  else w

/-- `WindowRedistributeProcess`. -/
def windowRedistributeProcess (d : Disp) (tmpWindow : Win) (a : Answer) : Disp × Ret :=
  let ws := d.enabled tmpWindow
  if ws = [] then ({ d with bWindowSytemUpdate := true }, .success)
  else
    match a.mapping with
    | none => (d, .failure)
    | some res =>
      let d := updateAll L res tmpWindow.enDisp 0 ws d
      match a.zorders with
      | none => (d, .failure)
      | some ops =>
        let layers := overlapping L res tmpWindow.enDisp ws
        let k := (layers.findIdx? (fun l => l = L.vid0 ∨ l = L.vid3)).getD 0
        -- an entry that was not filled in is 0
        let op := if k < layers.length then ops k else 0
        ({ d.map (Win.setLayerOpt L op) with bWindowSytemUpdate := true }, .success)

/-! ## The handles -/

/-- `WinGetWindow`: where the window is. -/
def winGetWindow (cfg : Config) (s : Sys) (h : U32) : Option (Nat × Fin windowMaxNumber × Win) :=
  let d := (winGetDispId h).toNat
  if winGetPrefix h ≠ cfg.prefixOf then none
  else if d ≥ cfg.displayButt then none
  else if (s d).u32WinNumber = 0 then none
  else if hid : (winGetId h).toNat < windowMaxNumber then
    ((s d).pstWinArray ⟨(winGetId h).toNat, hid⟩).map (fun w => (d, ⟨(winGetId h).toNat, hid⟩, w))
  else none

/-! ## Enabling -/

/-- What `WIN_SetEnable_Seperate` meets: memory, the policies, and whether the interrupt comes in time. -/
structure Env where
  malloc : Bool
  answer : Answer
  inTime : Bool

/-- A window of the display changes. -/
def Disp.set (d : Disp) (c : Fin windowMaxNumber) (f : Win → Win) : Disp :=
  { d with pstWinArray := Function.update d.pstWinArray c ((d.pstWinArray c).map f) }

/-- The interrupt takes the update: `WinLoadNewMapping`, as far as the windows are enabled. -/
def Disp.load (d : Disp) : Disp :=
  { d.map (fun w => { w with bEnable := w.bEnableNew }) with bWindowSytemUpdate := false }

/-- `WIN_SetEnable_Seperate`, for the window `w` in the slot `c`. -/
def winSetEnableSeperate (d : Disp) (c : Fin windowMaxNumber) (w : Win) (bEnable : Bool) (env : Env) : Disp × Ret :=
  if env.malloc then
    match windowRedistributeProcess L d { w with bEnable := bEnable } env.answer with
    | (d, .failure) => (d, .failure)
    | (d, .success) =>
      let d := d.set c (fun v => { v with bEnableNew := bEnable })
      if env.inTime then (d.load, .success) else (d.set c (fun v => { v with bEnable := bEnable }), .success)
  else (d, .failure)

/-- `WIN_SetEnable`, for a window that is not virtual. -/
def winSetEnable (cfg : Config) (s : Sys) (hWin : U32) (bEnable : Bool) (env envSlv : Env) : Sys × Ret :=
  match winGetWindow cfg s hWin with
  | none => (s, .failure)
  | some (d, c, w) =>
    match winSetEnableSeperate L (s d) c w bEnable env with
    | (x, .failure) => (Function.update s d x, .failure)
    | (x, .success) =>
      let s := Function.update s d x
      if w.mainAndSlave = true ∧ w.hSlvWin ≠ 0 then
        match winGetWindow cfg s w.hSlvWin with
        | none => (s, .failure)
        | some (d, c, w) =>
          let r := winSetEnableSeperate L (s d) c w bEnable envSlv
          (Function.update s d r.1, r.2)
      else (s, .success)

/-! ## Z-orders -/

/-- The table as in `Vo.Window`. -/
def Disp.slots (d : Disp) : Slots := fun i => (d.pstWinArray i).map Win.toWindow

/-- The z-orders are written. -/
def Disp.setZorders (d : Disp) (a : Slots) : Disp :=
  { d with
    pstWinArray := fun i => (d.pstWinArray i).map (fun w =>
      { w with u32Zorder := ((a i).map Window.u32Zorder).getD w.u32Zorder }) }

/-- `WinZorderMoveTop`, `WinZorderMoveUp`, `WinZorderMoveBottom` and `WinZorderMoveDown`. -/
def winSetZorderOne (d : Disp) (c : Fin windowMaxNumber) (w : Win) (flag : Zorder) (a : Answer) : Disp × Ret :=
  if flag = .moveDown ∧ w.u32Zorder = 0 then (d, .success)
  else
    let r := windowRedistributeProcess L d w a
    (r.1.setZorders (winZorderMove flag d.slots c w.toWindow (r.2 = .success)).1, r.2)

/-- `WIN_SetZorder`, for a window that is not virtual. -/
def winSetZorder (cfg : Config) (s : Sys) (hWin : U32) (flag : Zorder) (a aSlv : Answer) : Sys × Ret :=
  match winGetWindow cfg s hWin with
  | none => (s, .failure)
  | some (d, c, w) =>
    let r := winSetZorderOne L (s d) c w flag a
    let s := Function.update s d r.1
    if w.mainAndSlave = true ∧ w.hSlvWin ≠ 0 then
      -- what the call for the slave window returns is not looked at
      match winGetWindow cfg s w.hSlvWin with
      | none => (s, r.2)
      | some (d, c, w) => (Function.update s d (winSetZorderOne L (s d) c w flag aSlv).1, r.2)
    else (s, r.2)

end HiSTB.Vo.Redistribute
