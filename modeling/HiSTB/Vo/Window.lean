import HiSTB.Lib.Run
import Mathlib.Data.List.FinRange
import Mathlib.Logic.Function.Basic

/-!
# `Vo.Window` — the windows of the displays (`drv_window.c`)

A window is found by its handle: a prefix, the display, and its slot in the table of the display. The windows of a
display are stacked, and `u32Zorder` is the place of a window in the stack. A window of a display that another one
follows has a slave window there. Virtual windows have a table of their own.

* `winZorderMoveTop` … `winZorderMoveDown` — the four moves, with the copy of the z-orders that is taken before and
  written back where the layout is refused;
* `winCreateSeperate`, `winDestroyDisplayWindow` — a window comes and goes;
* `step` — the calls `WIN_Init`, `WIN_Create`, `WIN_Destroy`, `WIN_SetZorder` and `WIN_DeInit`.

`WIN_SetZorder` goes on to the slave window with another call of its own, which is another step here. Everything that a
call asks of other modules (the display, the memory, the layers, the buffers, the policy of `WindowRedistributeProcess`)
is an input. `WinCheckVirtual`, `HI_ID_VO` and `HI_DRV_DISPLAY_BUTT`, which the repository does not define, are
parameters. Counters and z-orders are `Nat`: they stay below the length of the table.

Left out: what a window shows, the suspended state, and the callbacks of the window manager.
-/

namespace HiSTB.Vo

/-- `HI_U32` and `HI_HANDLE`. -/
abbrev U32 := BitVec 32

/-- `WINDOW_MAX_NUMBER`. -/
abbrev windowMaxNumber : Nat := 17

/-- `WIN_VIRTAUL_MAX_NUMBER`. -/
abbrev virtaulMaxNumber : Nat := 17

/-- `WIN_INDEX_VIRTUAL_CHANNEL`. -/
def virtualChannel : U32 := 0xF

/-- What the repository does not define. The channel of the virtual windows is no display. -/
structure Config where
  idVo : BitVec 16
  displayButt : Nat
  checkVirtual : U32 → Bool
  idVo_ne : idVo ≠ 0
  displayButt_le : displayButt ≤ 15

/-! ## Handles -/

/-- `WIN_INDEX_PREFIX`. -/
def Config.prefixOf (cfg : Config) : U32 := cfg.idVo.setWidth 32 <<< 16

/-- `WinGetPrefix`. -/
def winGetPrefix (u32WinIndex : U32) : U32 := u32WinIndex &&& 0xFFFF0000

/-- `WinGetDispId`. -/
def winGetDispId (u32WinIndex : U32) : U32 := u32WinIndex >>> 8 &&& 0xF

/-- `WinGetId`. -/
def winGetId (u32WinIndex : U32) : U32 := u32WinIndex &&& 0xFF

/-- `WinMakeIndex`. -/
def winMakeIndex (cfg : Config) (enDisp u32WinIndex : U32) : U32 :=
  cfg.prefixOf ||| (enDisp &&& 0xF) <<< 8 ||| (u32WinIndex &&& 0xFF)

/-- `WinMakeVirIndex`. -/
def winMakeVirIndex (cfg : Config) (u32WinIndex : U32) : U32 := winMakeIndex cfg virtualChannel u32WinIndex

/-! ## Windows -/

/-- `WINDOW_S`. `id` is not in the source: it says which window it is, in the order of creation. -/
structure Window where
  id : Nat
  u32Index : U32
  enDisp : Nat
  u32Zorder : Nat
  hSlvWin : U32
  deriving DecidableEq

/-- `VIRTUAL_S`. -/
structure Virtual where
  id : Nat
  u32Index : U32
  deriving DecidableEq

/-- `pstWinArray[enDisp]`. -/
abbrev Slots := Fin windowMaxNumber → Option Window

/-- A display's part of `stDispWindow`. -/
structure Display where
  pstWinArray : Slots
  u32WinNumber : Nat

inductive DeviceState
  | close
  | opened
  deriving DecidableEq

/-- `stDispWindow`, `stVirWindow` and `s_s32WindowGlobalFlag`. -/
structure Sys where
  flag : DeviceState
  disp : Nat → Display
  virArray : Fin virtaulMaxNumber → Option Virtual
  virNumber : Nat
  /-- The `id` of the next window. -/
  next : Nat

/-- What a window holds. -/
inductive Resource
  | memory
  | buffer
  | callback
  | virtual
  deriving DecidableEq

inductive Ret
  | success
  | failure
  deriving DecidableEq

inductive Event
  | take (r : Resource) (id : Nat)
  | give (r : Resource) (id : Nat)
  /-- The window is in its table. -/
  | added (hWin : U32) (id : Nat)
  /-- The window is in the table of the virtual windows. -/
  | addedVir (hWin : U32) (id : Nat)
  /-- A move returned. -/
  | moved (ret : Ret)
  deriving DecidableEq

/-! ## The stack of a display -/

/-- How many windows there are, as every one of the functions counts it. -/
def Slots.count (a : Slots) : Nat := (List.finRange windowMaxNumber).countP (fun i => (a i).isSome)

/-- Every window's z-order is written. -/
def Slots.renumber (a : Slots) (f : Fin windowMaxNumber → Nat → Nat) : Slots :=
  fun i => (a i).map (fun w => { w with u32Zorder := f i w.u32Zorder })

/-- `WinZorderSave`. -/
def winZorderSave (a : Slots) : Fin windowMaxNumber → Nat := fun i =>
  if i.val < a.count then
    match a i with
    | some w => w.u32Zorder
    | none => 0
  else 0

/-- `WinZorderRestore`. -/
def winZorderRestore (bak : Fin windowMaxNumber → Nat) (a : Slots) : Slots :=
  a.renumber (fun i z => if i.val < a.count then bak i else z)

/-- `WinZorderDelete`. -/
def winZorderDelete (z : Nat) (a : Slots) : Slots := a.renumber (fun _ v => if v > z then v - 1 else v)

/-- The layout is taken or refused. -/
def settle (bak : Fin windowMaxNumber → Nat) (a : Slots) (layout : Bool) : Slots × Ret :=
  if layout then (a, .success) else (winZorderRestore bak a, .failure)

/-- `WinZorderMoveTop`, for the window `w` in the slot `c`. -/
def winZorderMoveTop (a : Slots) (c : Fin windowMaxNumber) (w : Window) (layout : Bool) : Slots × Ret :=
  let bak := winZorderSave a
  let i := a.count
  let a := a.renumber (fun _ v => if v > w.u32Zorder then v - 1 else v)
  settle bak (a.renumber (fun u v => if u = c then i - 1 else v)) layout

/-- `WinZorderMoveTop`, for a window that is in no slot yet (`u32Index` is 0): its z-order is the number of windows. -/
def winZorderMoveTopNew (a : Slots) (layout : Bool) : Slots × Nat := ((settle (winZorderSave a) a layout).1, a.count)

/-- `WinZorderMoveBottom`. -/
def winZorderMoveBottom (a : Slots) (c : Fin windowMaxNumber) (w : Window) (layout : Bool) : Slots × Ret :=
  let bak := winZorderSave a
  let a := a.renumber (fun _ v => if v < w.u32Zorder then v + 1 else v)
  settle bak (a.renumber (fun u v => if u = c then 0 else v)) layout

/-- The first window with a z-order. -/
def Slots.find (a : Slots) (z : Nat) : Option (Fin windowMaxNumber) :=
  (List.finRange windowMaxNumber).find? (fun i => (a i).any (fun w => w.u32Zorder = z))

/-- `WinZorderMoveUp`. -/
def winZorderMoveUp (a : Slots) (c : Fin windowMaxNumber) (w : Window) (layout : Bool) : Slots × Ret :=
  let bak := winZorderSave a
  match a.find (w.u32Zorder + 1) with
  | some b => settle bak (a.renumber (fun u v => if u = c then v + 1 else if u = b then v - 1 else v)) layout
  | none => settle bak a layout

/-- `WinZorderMoveDown`. -/
def winZorderMoveDown (a : Slots) (c : Fin windowMaxNumber) (w : Window) (layout : Bool) : Slots × Ret :=
  if w.u32Zorder = 0 then (a, .success)
  else
    let bak := winZorderSave a
    match a.find (w.u32Zorder - 1) with
    | some b => settle bak (a.renumber (fun u v => if u = c then v - 1 else if u = b then v + 1 else v)) layout
    | none => settle bak a layout

/-- `HI_DRV_DISP_ZORDER_E`. -/
inductive Zorder
  | moveTop
  | moveUp
  | moveBottom
  | moveDown
  deriving DecidableEq

/-- The moves of `WIN_SetZorder`. -/
def winZorderMove : Zorder → Slots → Fin windowMaxNumber → Window → Bool → Slots × Ret
  | .moveTop => winZorderMoveTop
  | .moveUp => winZorderMoveUp
  | .moveBottom => winZorderMoveBottom
  | .moveDown => winZorderMoveDown

/-! ## The tables -/

variable (cfg : Config)

namespace Sys

def setDisp (s : Sys) (d : Nat) (x : Display) : Sys := { s with disp := Function.update s.disp d x }

/-- `pstWinArray[enDisp]` changes. -/
def setSlots (s : Sys) (d : Nat) (a : Slots) : Sys := s.setDisp d { s.disp d with pstWinArray := a }

/-- `WinGetWindow`. -/
def winGetWindow (s : Sys) (h : U32) : Option Window :=
  if winGetPrefix h ≠ cfg.prefixOf then none
  else if (winGetDispId h).toNat ≥ cfg.displayButt then none
  else if (s.disp (winGetDispId h).toNat).u32WinNumber = 0 then none
  else if hid : (winGetId h).toNat < windowMaxNumber then
    (s.disp (winGetDispId h).toNat).pstWinArray ⟨(winGetId h).toNat, hid⟩
  else none

/-- `WinGetVirWindow`. -/
def winGetVirWindow (s : Sys) (h : U32) : Option Virtual :=
  if s.virNumber = 0 then none
  else if winGetPrefix h ≠ cfg.prefixOf then none
  else if winGetDispId h ≠ virtualChannel then none
  else if hid : (winGetId h).toNat < virtaulMaxNumber then s.virArray ⟨(winGetId h).toNat, hid⟩
  else none

/-- `WinAddWindow`, with the slot that it takes; `none` where the table is full. -/
def winAddWindow (s : Sys) (d : Nat) (w : Window) : Option (Sys × Fin windowMaxNumber × U32) :=
  if d ≥ cfg.displayButt then none
  else
    ((List.finRange windowMaxNumber).find? (fun i => ((s.disp d).pstWinArray i).isNone)).map
      (fun (i : Fin windowMaxNumber) =>
      let h := winMakeIndex cfg (BitVec.ofNat 32 d) (BitVec.ofNat 32 i.val)
      let a := Function.update (s.disp d).pstWinArray i (some { w with u32Index := h })
      (s.setDisp d ⟨a, (s.disp d).u32WinNumber + 1⟩, i, h))

/-- `WinDelWindow`. -/
def winDelWindow (s : Sys) (h : U32) : Sys :=
  if winGetPrefix h ≠ cfg.prefixOf then s
  else
    let d := (winGetDispId h).toNat
    if d ≥ cfg.displayButt then s
    else if hid : (winGetId h).toNat < windowMaxNumber then
      if (s.disp d).u32WinNumber = 0 then s
      else
        match (s.disp d).pstWinArray ⟨(winGetId h).toNat, hid⟩ with
        | some _ =>
          s.setDisp d ⟨Function.update (s.disp d).pstWinArray ⟨(winGetId h).toNat, hid⟩ none,
            (s.disp d).u32WinNumber - 1⟩
        | none => s
    else s

/-- `WinAddVirWindow`; `none` where the table is full. -/
def winAddVirWindow (s : Sys) (v : Virtual) : Option (Sys × U32) :=
  ((List.finRange virtaulMaxNumber).find? (fun i => (s.virArray i).isNone)).map (fun (i : Fin virtaulMaxNumber) =>
    let h := winMakeVirIndex cfg (BitVec.ofNat 32 i.val)
    let a := Function.update s.virArray i (some { v with u32Index := h })
    ({ s with virArray := a, virNumber := s.virNumber + 1 }, h))

/-- `WinDelVirWindow`. -/
def winDelVirWindow (s : Sys) (h : U32) : Sys :=
  if winGetPrefix h ≠ cfg.prefixOf then s
  else if winGetDispId h ≠ virtualChannel then s
  else if hid : (winGetId h).toNat < virtaulMaxNumber then
    if s.virNumber = 0 then s
    else
      match s.virArray ⟨(winGetId h).toNat, hid⟩ with
      | some _ =>
        { s with virArray := Function.update s.virArray ⟨(winGetId h).toNat, hid⟩ none, virNumber := s.virNumber - 1 }
      | none => s
  else s

end Sys

/-! ## A window comes -/

/-- What the creation of a window meets. -/
structure SepEnv where
  /-- `DISP_IsOpened`. -/
  isOpened : Bool
  /-- `WinTestAddWindow`, the chips where a layer is shared. -/
  supported : Bool
  malloc : Bool
  /-- `VideoLayer_GetFunction`. -/
  getFunction : Bool
  layout : Bool
  /-- `WinBuf_Create`. -/
  bufCreate : Bool
  regCallback : Bool
  deriving DecidableEq

/-- `WinDestroyDisplayWindow`. -/
def winDestroyDisplayWindow (s : Sys) (w : Window) : Sys × List Event :=
  (s.setSlots w.enDisp (winZorderDelete w.u32Zorder (s.disp w.enDisp).pstWinArray),
    [.give .buffer w.id, .give .memory w.id])

/-- `WinTestAddWindow`. -/
def winTestAddWindow (s : Sys) (d : Nat) (supported : Bool) : Bool :=
  decide (d < cfg.displayButt) && supported && decide ((s.disp d).u32WinNumber < windowMaxNumber)

/-- `WIN_Create_Seperate`, with `WinCreateDisplayWindow`; the slot and the handle of the new window. -/
def winCreateSeperate (s : Sys) (d : Nat) (env : SepEnv) : Sys × List Event × Option (Fin windowMaxNumber × U32) :=
  if env.isOpened then
    if winTestAddWindow cfg s d env.supported then
      if env.malloc then
        let id := s.next
        let s := { s with next := s.next + 1 }
        if env.getFunction then
          let r := winZorderMoveTopNew (s.disp d).pstWinArray env.layout
          let s := s.setSlots d r.1
          let w : Window := ⟨id, 0, d, r.2, 0⟩
          if env.bufCreate then
            if env.regCallback then
              match s.winAddWindow cfg d w with
              | some (s, i, h) =>
                (s, [.take .memory id, .take .buffer id, .take .callback id, .added h id], some (i, h))
              | none =>
                let r := winDestroyDisplayWindow s w
                (r.1, [.take .memory id, .take .buffer id, .take .callback id, .give .callback id] ++ r.2, none)
            else
              let r := winDestroyDisplayWindow s w
              (r.1, [.take .memory id, .take .buffer id] ++ r.2, none)
          else (s, [.take .memory id, .give .memory id], none)
        else (s, [.take .memory id, .give .memory id], none)
      else (s, [], none)
    else (s, [], none)
  else (s, [], none)

/-- `WIN_Destroy_Seperate`, and the end of `WIN_Destroy`. -/
def winDestroySeperate (s : Sys) (w : Window) : Sys × List Event :=
  let r := winDestroyDisplayWindow (s.winDelWindow cfg w.u32Index) w
  (r.1, .give .callback w.id :: r.2)

/-- What a `WIN_Create` meets. -/
structure CreateEnv where
  enDisp : Nat
  bVirtual : Bool
  /-- The checks of the arguments. -/
  attr : Bool
  main : SepEnv
  /-- `DISP_IsFollowed`. -/
  followed : Bool
  /-- `WinGetSlaveWinAttr`: the display of the slave window. -/
  slaveDisp : Option Nat
  slave : SepEnv
  /-- `WIN_VIR_Create`. -/
  virCreate : Bool
  deriving DecidableEq

/-- The slave window is known to its master, the window in a slot. -/
def linkSlave (s : Sys) (d : Nat) (i : Fin windowMaxNumber) (h : U32) : Sys :=
  let a := (s.disp d).pstWinArray
  s.setSlots d (Function.update a i ((a i).map (fun w => { w with hSlvWin := h })))

/-- `WIN_Destroy_Seperate`, for the window in a slot. -/
def winDestroySlot (s : Sys) (d : Nat) (i : Fin windowMaxNumber) : Sys × List Event :=
  match (s.disp d).pstWinArray i with
  | some w => winDestroySeperate cfg s w
  | none => (s, [])

/-- `WIN_Create`. -/
def winCreate (s : Sys) (env : CreateEnv) : Sys × List Event :=
  if s.flag = .opened ∧ env.attr then
    if env.bVirtual then
      if env.virCreate then
        let id := s.next
        let s := { s with next := s.next + 1 }
        match s.winAddVirWindow cfg ⟨id, 0⟩ with
        | some (s, h) => (s, [.take .virtual id, .addedVir h id])
        | none => (s, [.take .virtual id, .give .virtual id])
      else (s, [])
    else
      match winCreateSeperate cfg s env.enDisp env.main with
      | (s, es, none) => (s, es)
      | (s, es, some (i, _)) =>
        if env.followed then
          match env.slaveDisp with
          | none =>
            let r := winDestroySlot cfg s env.enDisp i
            (r.1, es ++ r.2)
          | some d =>
            match winCreateSeperate cfg s d env.slave with
            | (s, fs, some (_, h)) => (linkSlave s env.enDisp i h, es ++ fs)
            | (s, fs, none) =>
              let r := winDestroySlot cfg s env.enDisp i
              (r.1, es ++ fs ++ r.2)
        else (s, es)
  else (s, [])

/-! ## A window goes -/

/-- `WIN_Destroy`. `none` where it does not return, or goes on with a window that is not there any more. -/
def winDestroy : Nat → Sys → U32 → Option (Sys × List Event)
  | 0, _, _ => none
  | fuel + 1, s, h =>
    if s.flag = .opened then
      if cfg.checkVirtual h then
        match s.winGetVirWindow cfg h with
        | none => some (s, [])
        | some v => some (s.winDelVirWindow cfg h, [.give .virtual v.id])
      else
        match s.winGetWindow cfg h with
        | none => some (s, [])
        | some w =>
          let slave := if w.hSlvWin ≠ 0 then winDestroy fuel s w.hSlvWin else some (s, [])
          slave.bind (fun r =>
            -- the window behind the pointer, which may have another z-order now
            match r.1.winGetWindow cfg h with
            | some w' =>
              if w'.id = w.id then
                let q := winDestroySeperate cfg r.1 w'
                some (q.1, r.2 ++ q.2)
              else none
            | none => none)
    else some (s, [])

/-! ## The device -/

/-- Enough for every chain of slave windows. -/
def Sys.fuel (s : Sys) : Nat := s.next + 1

/-- `WIN_Init`; whether the display is ready, and whether the thread is there. -/
def winInit (s : Sys) (bDispInitFlag thread : Bool) : Sys :=
  if s.flag ≠ .close then s
  else if bDispInitFlag then
    let s := { s with
      disp := fun _ => ⟨fun _ => none, 0⟩
      virArray := fun _ => none
      virNumber := 0 }
    if thread then { s with flag := .opened } else s
  else s

/-- The inner loop of `WIN_DeInit`: the slots of a display, from those in the list. -/
def deInitSlots (d : Nat) : List (Fin windowMaxNumber) → Sys → Option (Sys × List Event)
  | [], s => some (s, [])
  | j :: js, s =>
    match (s.disp d).pstWinArray j with
    | none => deInitSlots d js s
    | some w =>
      (winDestroy cfg s.fuel s w.u32Index).bind (fun r =>
        let s := r.1.setSlots d (Function.update (r.1.disp d).pstWinArray j none)
        (deInitSlots d js s).map (fun q => (q.1, r.2 ++ q.2)))

/-- The loop of `WIN_DeInit` over the displays. -/
def deInitDisps : List Nat → Sys → Option (Sys × List Event)
  | [], s => some (s, [])
  | d :: ds, s =>
    let s := s.setDisp d { s.disp d with u32WinNumber := 0 }
    (deInitSlots cfg d (List.finRange windowMaxNumber) s).bind (fun r =>
      (deInitDisps ds r.1).map (fun q => (q.1, r.2 ++ q.2)))

/-- The loop of `WIN_DeInit` over the virtual windows, which stops at `HI_DRV_DISPLAY_BUTT`. -/
def deInitVirs (s : Sys) : Sys × List Event :=
  ({ s with virArray := fun i => if i.val < cfg.displayButt then none else s.virArray i, virNumber := 0 },
    ((List.finRange virtaulMaxNumber).filter (fun i => i.val < cfg.displayButt)).filterMap (fun i =>
      (s.virArray i).map (fun v => .give .virtual v.id)))

/-- `WIN_DeInit`. -/
def winDeInit (s : Sys) : Option (Sys × List Event) :=
  if s.flag = .close then some (s, [])
  else
    (deInitDisps cfg (List.range cfg.displayButt) s).map (fun r =>
      let q := deInitVirs cfg r.1
      ({ q.1 with flag := .close }, r.2 ++ q.2))

/-- The calls. -/
inductive Input
  | init (bDispInitFlag thread : Bool)
  | create (env : CreateEnv)
  | destroy (hWin : U32)
  /-- `WIN_SetZorder`, for one window; whether the layout is taken. -/
  | setZorder (hWin : U32) (enZFlag : Zorder) (layout : Bool)
  | deInit
  deriving DecidableEq

/-- `WIN_SetZorder`. -/
def winSetZorder (s : Sys) (h : U32) (z : Zorder) (layout : Bool) : Sys × List Event :=
  if s.flag = .opened then
    if cfg.checkVirtual h then (s, [.moved .failure])
    else
      match s.winGetWindow cfg h with
      | none => (s, [.moved .failure])
      | some w =>
        if hid : (winGetId h).toNat < windowMaxNumber then
          let r := winZorderMove z (s.disp w.enDisp).pstWinArray ⟨(winGetId h).toNat, hid⟩ w layout
          (s.setSlots w.enDisp r.1, [.moved r.2])
        else (s, [.moved .failure])
  else (s, [.moved .failure])

/-- One call. -/
def step (s : Sys) : Input → Option (Sys × List Event)
  | .init flag thread => some (winInit s flag thread, [])
  | .create env => some (winCreate cfg s env)
  | .destroy h => winDestroy cfg s.fuel s h
  | .setZorder h z layout => some (winSetZorder cfg s h z layout)
  | .deInit => winDeInit cfg s

/-- The driver is loaded. -/
def start : Sys := ⟨.close, fun _ => ⟨fun _ => none, 0⟩, fun _ => none, 0, 0⟩

end HiSTB.Vo
