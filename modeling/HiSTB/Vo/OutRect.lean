import Mathlib.Data.Nat.Notation

/-!
# `Vo.OutRect` — the rectangle of a window on the screen (`drv_window.c`)

A window has a rectangle on a canvas (the virtual screen, or the format of its creation). `WinOutRectSizeConversion`
scales it to the screen, whose borders are the offsets. The arithmetic is that of 32-bit words; positions are signed,
and are rounded as unsigned words.

* `winCheckAttr` — the check of the attributes, which also clears the low bits of the rectangles;
* `winOutRectSizeConversion` — the conversion.

`HI_DRV_DISPLAY_1` and the masks are not defined in the repository and are parameters: a mask clears the low bits of a
word, for the size of a rectangle at most six. Left out: the resolution, which the check asks for and does not use.
-/

namespace HiSTB.Vo.OutRect

/-- `HI_S32`. -/
abbrev S32 := BitVec 32

/-- `HI_U32`. -/
abbrev U32 := BitVec 32

/-- `HI_RECT_S`. -/
structure Rect where
  s32X : S32
  s32Y : S32
  s32Width : S32
  s32Height : S32
  deriving DecidableEq

/-- `HI_DRV_DISP_OFFSET_S`. -/
structure Offset where
  u32Left : U32
  u32Top : U32
  u32Right : U32
  u32Bottom : U32

/-! ## The check -/

/-- The crop offsets of a window. -/
structure Crop where
  u32LeftOffset : U32
  u32TopOffset : U32
  u32RightOffset : U32
  u32BottomOffset : U32

/-- The fields of `HI_DRV_WIN_ATTR_S` that are checked. -/
structure Attr where
  enDisp : Nat
  u32ARw : U32
  u32ARh : U32
  bUseCropRect : Bool
  stCropRect : Crop
  stInRect : Rect
  stOutRect : Rect

/-- What is not in the repository: how many low bits the masks clear. -/
structure AttrConfig where
  display1 : Nat
  inX : Nat
  inY : Nat
  inWidth : Nat
  inHeight : Nat
  outX : Nat
  outY : Nat
  outWidth : Nat
  outHeight : Nat
  outWidth_le : outWidth ≤ 6
  outHeight_le : outHeight ≤ 6

/-- A mask, such as `HI_WIN_OUT_RECT_X_ALIGN`. -/
def mask (bits : Nat) : U32 := BitVec.allOnes 32 <<< bits

/-- `WIN_OUTRECT_MIN_WIDTH`, `WIN_OUTRECT_MIN_HEIGHT`, and the same of a frame. -/
abbrev minSize : S32 := 64

/-- `WIN_FRAME_MAX_WIDTH`. -/
abbrev frameMaxWidth : S32 := 7680

/-- `WIN_FRAME_MAX_HEIGHT`. -/
abbrev frameMaxHeight : S32 := 4320

/-- `WIN_MAX_ASPECT_RATIO`. -/
abbrev maxAspectRatio : U32 := 16

/-- `WIN_CROPRECT_MAX_OFFSET_TOP`, and the same of the other sides. -/
abbrev cropMaxOffset : U32 := 128

/-- The out rectangle is as it is to be. -/
def outRectOk (r : Rect) : Bool :=
  if (r.s32Height = 0 ∧ r.s32Width ≠ 0) ∨ (r.s32Height ≠ 0 ∧ r.s32Width = 0) then false
  else if r.s32Height ||| r.s32Width = 0 ∧ r.s32X ||| r.s32Y ≠ 0 then false
  else if r.s32Height ||| r.s32Width ≠ 0 ∧ (r.s32Width.slt minSize ∨ r.s32Height.slt minSize) then false
  else true

/-- What is left of the in rectangle; `none` where it is rejected. -/
def checkInRect (a : Attr) : Option Rect :=
  let r := a.stInRect
  let c := a.stCropRect
  if a.bUseCropRect then
    if c.u32TopOffset > cropMaxOffset ∨ c.u32LeftOffset > cropMaxOffset ∨ c.u32BottomOffset > cropMaxOffset ∨
        c.u32RightOffset > cropMaxOffset then none
    else some r
  else if r.s32Height = 0 ∨ r.s32Width = 0 then some ⟨0, 0, 0, 0⟩
  else if r.s32Width.slt minSize ∨ r.s32Height.slt minSize ∨ frameMaxWidth.slt r.s32Width ∨
      frameMaxHeight.slt r.s32Height then none
  else some r

/-- `WinCheckAttr`; `none` for `HI_ERR_VO_INVALID_PARA`. `found` says whether the resolution was found. -/
def winCheckAttr (cfg : AttrConfig) (found : Bool) (a : Attr) : Option Attr :=
  if a.enDisp > cfg.display1 then none
  else if ¬ found then none
  else if ¬ outRectOk a.stOutRect then none
  else if a.u32ARw > a.u32ARh * maxAspectRatio ∨ a.u32ARw * maxAspectRatio < a.u32ARh then none
  else
    (checkInRect a).map (fun r =>
      { a with
        stInRect := ⟨r.s32X &&& mask cfg.inX, r.s32Y &&& mask cfg.inY, r.s32Width &&& mask cfg.inWidth,
          r.s32Height &&& mask cfg.inHeight⟩
        stCropRect := ⟨a.stCropRect.u32LeftOffset &&& mask cfg.inX, a.stCropRect.u32TopOffset &&& mask cfg.inY,
          a.stCropRect.u32RightOffset &&& mask cfg.inX, a.stCropRect.u32BottomOffset &&& mask cfg.inY⟩
        stOutRect := ⟨a.stOutRect.s32X &&& mask cfg.outX, a.stOutRect.s32Y &&& mask cfg.outY,
          a.stOutRect.s32Width &&& mask cfg.outWidth, a.stOutRect.s32Height &&& mask cfg.outHeight⟩ })

/-! ## The conversion -/

/-- `WinParamAlignUp`. -/
def winParamAlignUp (x a : U32) : U32 := if a = 0 then x else (x + (a - 1)) / a * a

/-- `window_revise`. -/
def windowRevise (r : Rect) : Rect :=
  { r with
    s32Width := if r.s32Width.slt minSize then minSize else r.s32Width
    s32Height := if r.s32Height.slt minSize then minSize else r.s32Height }

/-- `Win_Caculate`. -/
def winCaculate (ratioA ratioB virtualValue : S32) : S32 := (virtualValue * ratioA * 100).sdiv ratioB

/-- `WinOutRectSizeConversion`. -/
def winOutRectSizeConversion (canvas : Rect) (offset : Offset) (fmtResolution toBeRevised : Rect) : Rect :=
  let tmp := windowRevise toBeRevised
  let zmeDestWidth := fmtResolution.s32Width - offset.u32Left - offset.u32Right
  let zmeDestHeight := fmtResolution.s32Height - offset.u32Top - offset.u32Bottom
  let s32Width :=
    if canvas.s32Width ≠ tmp.s32Width then (winCaculate zmeDestWidth canvas.s32Width tmp.s32Width).sdiv 100
    else zmeDestWidth
  let s32Height :=
    if canvas.s32Height ≠ tmp.s32Height then (winCaculate zmeDestHeight canvas.s32Height tmp.s32Height).sdiv 100
    else zmeDestHeight
  let s32X := (winCaculate zmeDestWidth canvas.s32Width tmp.s32X).sdiv 100 + offset.u32Left
  let s32Y := (winCaculate zmeDestHeight canvas.s32Height tmp.s32Y).sdiv 100 + offset.u32Top
  windowRevise
    ⟨winParamAlignUp s32X 2, winParamAlignUp s32Y 2, winParamAlignUp s32Width 4, winParamAlignUp s32Height 4⟩

end HiSTB.Vo.OutRect
