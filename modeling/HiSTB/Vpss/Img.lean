import HiSTB.Lib.ListHead
import HiSTB.Lib.Loop
import HiSTB.Lib.Run

/-!
# `Vpss.Img` — the source image lists of the VPSS driver (`vpss_img.c`)

The nodes of an instance stand on one of two lists: the empty list, or the full list of images that wait for
the hardware or serve as its reference. `pstTarget_1` is the reference: the image after it is the next one to
process. An interlaced frame takes two nodes, one a field.

The number of nodes (`VPSS_SOURCE_MAX_NUMB`) is a parameter, and `VPSS_IMG_Init` is modelled where `vmalloc`
answers. An image is what these functions read and write of `HI_DRV_VIDEO_FRAME_S`; `pfnRlsImage` is the event
`rls`. A pointer that `list_entry` would take for a node although it is none gives `none`, and so does a loop
that does not end after a round for every node.

Left out: the locks (each call runs alone), the traces, `VPSS_IMG_Regist` and the field addresses
(`VPSS_IMG_GetFieldAddr`).
-/

namespace HiSTB.Vpss

open Lib ListHead

/-- A `LIST *`: a head, or the link field of a node. -/
inductive Ptr
  | emptyHead
  | fulHead
  | node (i : Nat)
  deriving DecidableEq

/-- `HI_DRV_FIELD_MODE_E`. -/
inductive FieldMode
  | top
  | bottom
  | all
  | butt
  deriving DecidableEq

/-- `u32LastFlag` of the private data. -/
inductive LastFlag
  | zero
  | lastFrame
  | lastError
  deriving DecidableEq

/-- `HI_DRV_VIDEO_FRAME_S`. -/
structure Frame where
  progressive : Bool
  fieldMode : FieldMode
  topFieldFirst : Bool
  frameIndex : BitVec 32
  lastFlag : LastFlag
  pts : BitVec 32
  omxPts : BitVec 64
  interPtsDelta : BitVec 32
  frameRate : BitVec 32
  isFirstIFrame : Bool
  deriving DecidableEq

/-- A frame of zeros. -/
def Frame.zero : Frame := ⟨false, .top, false, 0, .zero, 0, 0, 0, 0, false⟩

/-- `VPSS_IMAGELIST_INFO_S`, with the memory of its `numb` nodes. -/
structure ImgInfo where
  numb : Nat
  links : Links Ptr
  img : Nat → Frame
  target_1 : Ptr
  relUsrTotal : BitVec 32
  relUsrSuccess : BitVec 32

/-- What happens to nodes and images. -/
inductive Event
  /-- Node `i` goes to the full list with image `f`. -/
  | ful (i : Nat) (f : Frame)
  /-- `VPSS_IMG_Complete` took the image of node `i` as processed. -/
  | done (i : Nat)
  /-- `VPSS_IMG_CheckImageList` made node `i` the reference without its having been processed. -/
  | passed (i : Nat)
  /-- `pfnRlsImage`. -/
  | rls (f : Frame)
  /-- `VPSS_IMG_Reset` dropped all images. -/
  | reset
  deriving DecidableEq

namespace ImgInfo

/-- Write `bProgressive` of a node's image. -/
def setProgressive (s : ImgInfo) (i : Nat) (b : Bool) : ImgInfo :=
  { s with img := Function.update s.img i { s.img i with progressive := b } }

/-- Mark the node at `p` as progressive, unless `p` is the head. -/
def markAt (s : ImgInfo) (p : Ptr) : ImgInfo :=
  match p with
  | .node i => s.setProgressive i true
  | _ => s

/-! ## Moving nodes -/

/-- `for (pos = ...; pos != &stFulImageList; pos = pos->next)` of `VPSS_IMG_AddFulImage`. -/
def markLoop (s : ImgInfo) : Nat → Ptr → Option ImgInfo
  | 0, _ => none
  | fuel + 1, pos =>
    match pos with
    | .fulHead => some s
    | .emptyHead => none
    | .node i => markLoop (s.setProgressive i true) fuel (s.links.next pos)

/-- The first part of `VPSS_IMG_AddFulImage`: what the new image means for `bProgressive`. -/
def changeMode (s : ImgInfo) (i : Nat) : Option ImgInfo :=
  if (s.img i).progressive = false then
    -- the first field is read as a frame
    if s.links.next .fulHead = .fulHead then some (s.setProgressive i true) else some s
  else if s.links.next .fulHead ≠ .fulHead then
    s.markLoop (s.numb + 1) (s.links.next s.target_1)
  else some s

/-- `VPSS_IMG_AddFulImage`. -/
def addFulImage (s : ImgInfo) (i : Nat) : Option (ImgInfo × List Event) :=
  (s.changeMode i).map (fun s =>
    ({ s with links := s.links.addTail (.node i) .fulHead }, [.ful i (s.img i)]))

/-- `VPSS_IMG_AddEmptyImage`. -/
def addEmptyImage (s : ImgInfo) (i : Nat) : ImgInfo :=
  { s with links := s.links.addTail (.node i) .emptyHead }

/-- `VPSS_IMG_GetEmptyImage`. -/
def getEmptyImage (s : ImgInfo) : ImgInfo × Option Nat :=
  match s.links.next .emptyHead with
  | .node i =>
    ({ s with
       links := s.links.delInit (.node i)
       img := Function.update s.img i Frame.zero }, some i)
  | _ => (s, none)

/-- `VPSS_IMG_CheckEmptyNode`. -/
def checkEmptyNode (s : ImgInfo) : ImgInfo × Bool :=
  match s.getEmptyImage with
  | (s, none) => (s, false)
  | (s, some i) =>
    match s.getEmptyImage with
    | (s, none) => (s.addEmptyImage i, false)
    | (s, some j) => ((s.addEmptyImage i).addEmptyImage j, true)

/-- `VPSS_IMG_CheckImageList`. An interlaced image needs three more behind it. -/
def checkImageList (s : ImgInfo) : ImgInfo × Bool × List Event :=
  match s.links.next s.target_1 with
  | .node i =>
    if (s.img i).progressive then (s, true, [])
    else if s.target_1 = .fulHead then ({ s with target_1 := .node i }, false, [.passed i])
    else
      let next1 := s.links.next (.node i)
      let next2 := s.links.next next1
      let next3 := s.links.next next2
      (s, next1 ≠ .fulHead ∧ next2 ≠ .fulHead ∧ next3 ≠ .fulHead, [])
  | _ => (s, false, [])

/-- `VPSS_IMG_CheckNeedRelease`: the second field of a frame, or a progressive image. -/
def checkNeedRelease (s : ImgInfo) (i : Nat) : Bool :=
  let f := s.img i
  if f.progressive = false then
    (f.fieldMode = .top ∧ f.topFieldFirst = false) ∨ (f.fieldMode = .bottom ∧ f.topFieldFirst = true)
  else true

/-! ## `VPSS_IMG_AddNewImg` -/

/-- `DEF_HI_DRV_VPSS_LAST_FRAME_FLAG`: the field before the new frame becomes progressive. -/
def markLastFrame (s : ImgInfo) : ImgInfo := s.markAt (s.links.prev .fulHead)

/-- `DEF_HI_DRV_VPSS_LAST_ERROR_FLAG`: the last three fields become progressive. -/
def markLastError (s : ImgInfo) : ImgInfo :=
  let pre := s.links.prev .fulHead
  match pre with
  | .node i =>
    if (s.img i).progressive then s
    else
      let s := s.markAt pre
      let pre := s.links.prev pre
      let s := s.markAt pre
      let pre := s.links.prev pre
      s.markAt pre
  | _ => s

/-- The first and the second field of an interlaced frame. -/
def splitFrame (f : Frame) : Frame × Frame :=
  let first : Frame :=
    { f with
      fieldMode := if f.topFieldFirst then .top else .bottom
      frameRate := f.frameRate * 2 }
  let second : Frame :=
    { f with
      fieldMode := if f.topFieldFirst then .bottom else .top
      pts := f.pts + f.interPtsDelta
      omxPts := f.omxPts + (f.interPtsDelta * 1000).signExtend 64
      frameRate := f.frameRate * 2
      isFirstIFrame := if f.isFirstIFrame then false else f.isFirstIFrame }
  (first, second)

/-- Fill the images of the two nodes. -/
def setFields (s : ImgInfo) (i j : Nat) (f g : Frame) : ImgInfo :=
  { s with img := Function.update (Function.update s.img i f) j g }

/-- `VPSS_IMG_AddFulImage` for two nodes in a row. -/
def addFields (s : ImgInfo) (i j : Nat) : Option (ImgInfo × List Event) :=
  (s.addFulImage i).bind (fun r => (r.1.addFulImage j).map (fun q => (q.1, r.2 ++ q.2)))

/-- The part of `VPSS_IMG_AddNewImg` after the nodes `i` and `j` have been taken from the empty list. -/
def addImg (s : ImgInfo) (i j : Nat) (f : Frame) : Option (ImgInfo × List Event) :=
  if f.progressive = false ∧ f.fieldMode = .all then
    let first := (splitFrame f).1
    let second := (splitFrame f).2
    let s := s.setFields i j first second
    match f.lastFlag with
    | .lastFrame =>
      let s := s.markLastFrame
      let s := s.setFields i j { first with progressive := true, lastFlag := .zero }
        { second with progressive := true, lastFlag := .lastFrame }
      s.addFields i j
    | .lastError => some ((s.markLastError.addEmptyImage i).addEmptyImage j, [])
    | .zero => s.addFields i j
  else
    let s := { s with img := Function.update s.img i f }
    (s.addFulImage i).map (fun r => (r.1.addEmptyImage j, r.2))

/-- `VPSS_IMG_AddNewImg`. -/
def addNewImg (s : ImgInfo) (f : Frame) : Option (ImgInfo × Bool × List Event) :=
  match s.getEmptyImage with
  | (s, none) => some (s, false, [])
  | (s, some i) =>
    match s.getEmptyImage with
    | (s, none) => some (s.addEmptyImage i, false, [])
    | (s, some j) => (s.addImg i j f).map (fun r => (r.1, true, r.2))

/-! ## `VPSS_IMG_Complete` -/

/-- Node `i` leaves the full list for the empty one, and its frame is given back if the node says so. These
    lines stand in every branch of `VPSS_IMG_Complete`. -/
def recycle (s : ImgInfo) (i : Nat) : ImgInfo × List Event :=
  let s := { s with links := s.links.delInit (.node i) }
  if s.checkNeedRelease i then
    ({ s with relUsrTotal := s.relUsrTotal + 1, relUsrSuccess := s.relUsrSuccess + 1 }.addEmptyImage i,
      [.rls (s.img i)])
  else (s.addEmptyImage i, [])

/-- `for (pos = head->next, n = pos->next; pos != pstTarget_1->next; pos = n, n = pos->next)`. -/
def releaseLoop (s : ImgInfo) : Nat → Ptr → Option (ImgInfo × List Event)
  | 0, _ => none
  | fuel + 1, pos =>
    if pos = s.links.next s.target_1 then some (s, [])
    else
      match pos with
      | .node i =>
        let n := s.links.next pos
        let s := if pos = s.target_1 then { s with target_1 := s.links.prev s.target_1 } else s
        let (s, es) := s.recycle i
        (s.releaseLoop fuel n).map (fun r => (r.1, es ++ r.2))
      | _ => none

/-- The progressive part of `VPSS_IMG_Complete`, after the loop: the image after the reference is done. When
    its second field follows, it stays as the reference. -/
def completeProgressive (s : ImgInfo) : Option (ImgInfo × List Event) :=
  match s.links.next s.target_1 with
  | .fulHead => some (s, [])
  | .emptyHead => none
  | .node i =>
    match s.links.next (.node i) with
    | .emptyHead => none
    | .fulHead =>
      let (s, es) := s.recycle i
      some (s, .done i :: es)
    | .node j =>
      if (s.img j).frameIndex = (s.img i).frameIndex then
        some ({ s.setProgressive i false with target_1 := s.links.next s.target_1 }, [.done i])
      else
        let s := if (s.img i).progressive = false then s.setProgressive i true else s
        let (s, es) := s.recycle i
        some (s, .done i :: es)

/-- The interlaced part of `VPSS_IMG_Complete`: the reference is given up for the image after it, `i`. -/
def completeInterlaced (s : ImgInfo) (i : Nat) : Option (ImgInfo × List Event) :=
  match s.target_1 with
  | .node t =>
    let s := { s with target_1 := s.links.prev s.target_1 }
    let (s, es) := s.recycle t
    some ({ s with target_1 := s.links.next s.target_1 }, .done i :: es)
  | .fulHead => some (s, [])
  | .emptyHead => none

/-- `VPSS_IMG_Complete`. -/
def complete (s : ImgInfo) : Option (ImgInfo × Bool × List Event) :=
  match s.links.next s.target_1 with
  | .fulHead => some (s, false, [])
  | .emptyHead => none
  | .node i =>
    if (s.img i).progressive then
      (s.releaseLoop (s.numb + 1) (s.links.next .fulHead)).bind (fun r =>
        r.1.completeProgressive.map (fun q => (q.1, true, r.2 ++ q.2)))
    else (s.completeInterlaced i).map (fun q => (q.1, true, q.2))

/-! ## `VPSS_IMG_Init`, `VPSS_IMG_Reset`, `VPSS_IMG_DeInit` -/

/-- `VPSS_IMG_Init`, where the allocator answers with the nodes `0`, `1`, … . -/
def init (numb : Nat) : ImgInfo where
  numb := numb
  links := forRange numb (fun l i => l.addTail (.node i) .emptyHead)
    (((⟨id, id⟩ : Links Ptr).initHead .emptyHead).initHead .fulHead)
  img := fun _ => Frame.zero
  target_1 := .fulHead
  relUsrTotal := 0
  relUsrSuccess := 0

/-- `list_for_each_safe` over the full list in `VPSS_IMG_Reset`. -/
def resetLoop (s : ImgInfo) : Nat → Ptr → Option ImgInfo
  | 0, _ => none
  | fuel + 1, pos =>
    match pos with
    | .fulHead => some s
    | .emptyHead => none
    | .node i =>
      resetLoop ({ s with links := s.links.delInit pos }.addEmptyImage i) fuel (s.links.next pos)

/-- `VPSS_IMG_Reset`. -/
def reset (s : ImgInfo) : Option (ImgInfo × List Event) :=
  (s.resetLoop (s.numb + 1) (s.links.next .fulHead)).map (fun s => ({ s with target_1 := .fulHead }, [.reset]))

/-- One `list_for_each_safe` of `VPSS_IMG_DeInit`: the links left, and the nodes freed. -/
def freeLoop (l : Links Ptr) (head : Ptr) : Nat → Ptr → Option (Links Ptr × List Nat)
  | 0, _ => none
  | fuel + 1, pos =>
    if pos = head then some (l, [])
    else
      match pos with
      | .node i => (freeLoop (l.delInit pos) head fuel (l.next pos)).map (fun r => (r.1, i :: r.2))
      | _ => none

/-- `VPSS_IMG_DeInit`: the nodes freed, and whether it returns `HI_SUCCESS`. -/
def deInit (s : ImgInfo) : Option (List Nat × Bool) :=
  (freeLoop s.links .emptyHead (s.numb + 1) (s.links.next .emptyHead)).bind (fun r =>
    (freeLoop r.1 .fulHead (s.numb + 1) (r.1.next .fulHead)).map (fun q =>
      (r.2 ++ q.2, (r.2 ++ q.2).length = s.numb)))

/-! ## `VPSS_IMG_CorrectListOrder` -/

/-- The six assignments that put `n` and `pos`, in this order, between `pPre` and `pNext`. -/
def relink (l : Links Ptr) (pos n pPre pNext : Ptr) : Links Ptr where
  next := Function.update (Function.update (Function.update l.next n pos) pos pNext) pPre n
  prev := Function.update (Function.update (Function.update l.prev n pPre) pos n) pNext pos

/-- The fields `i` and `j` exchange `u32Pts`. -/
def exchangePts (s : ImgInfo) (i j : Nat) : ImgInfo :=
  s.setFields i j { s.img i with pts := (s.img j).pts } { s.img j with pts := (s.img i).pts }

/-- One round of the loop: the field `i` and the field `j` after it. A frame index that changes between them
    and a reference at the second field only give a trace. -/
def orderRound (s : ImgInfo) (i j : Nat) : ImgInfo :=
  let pPre := s.links.prev (.node i)
  let pNext := s.links.next (.node j)
  let s := if s.target_1 ≠ .node i then s.exchangePts i j else s
  let s := if s.target_1 = .node i then { s with target_1 := s.links.next (.node i) } else s
  { s with links := relink ((s.links.delInit (.node i)).delInit (.node j)) (.node i) (.node j) pPre pNext }

/-- `for (pos = head->next, n = pos->next; pos != head; pos = pos->next, n = pos->next)`. -/
def orderLoop (s : ImgInfo) : Nat → Ptr → Option ImgInfo
  | 0, _ => none
  | fuel + 1, pos =>
    match pos, s.links.next pos with
    | .fulHead, _ => some s
    | .node i, .node j => orderLoop (s.orderRound i j) fuel ((s.orderRound i j).links.next pos)
    | _, _ => none

/-- `VPSS_IMG_CorrectListOrder`, with what it returns. The field after the reference must not be of the mode
    that is to come second. -/
def correctListOrder (s : ImgInfo) (topFirst : Bool) : Option (ImgInfo × Bool) :=
  match s.links.next s.target_1 with
  | .node i =>
    if (s.img i).fieldMode = (if topFirst then .bottom else .top) then some (s, false)
    else (s.orderLoop (s.numb + 1) (s.links.next .fulHead)).map (fun t => (t, true))
  | _ => none

end ImgInfo

/-- A call on the lists. -/
inductive Op
  | addNewImg (f : Frame)
  | checkEmptyNode
  | checkImageList
  | getProcessImg
  | complete
  | reset
  deriving DecidableEq

/-- One call. -/
def step (s : ImgInfo) : Op → Option (ImgInfo × List Event)
  | .addNewImg f => (s.addNewImg f).map (fun r => (r.1, r.2.2))
  | .checkEmptyNode => some (s.checkEmptyNode.1, [])
  | .checkImageList => some (s.checkImageList.1, s.checkImageList.2.2)
  | .getProcessImg => some (s, [])
  | .complete => s.complete.map (fun r => (r.1, r.2.2))
  | .reset => s.reset

end HiSTB.Vpss
