import HiSTB.Hls.Seek

/-!
# `Hls.M3u8` — the parser of the playlists (`hls.c`)

`hlsParseM3U8` reads the list of a variant, and also the I-frame list that goes with it: then the variant's segments are
there, and I-frames are added to them. It is one loop over the lines, and only few of the tags look which kind of list
it is.

* `hlsReadLine`, `absoluteUrl`, `classify` — lines, URLs and tags;
* `step`, `run` — one line, and the lines up to the end or to what breaks the parser off;
* `hlsParseM3U8` — for a variant that is given; `iframeCall` — the variant that `load_next` gives it for an I-frame
  list.

What the library converts is in `Library`; there is no number so long that it overflows. Sums of the durations are
`int`s. Text is without a zero byte. Left out: master playlists, which are read without a variant (their tags add
variants to the session, not segments to a list), the interrupt, and memory.
-/

namespace HiSTB.Hls.M3u8

open ReadData (KeyType)
open Seek (Iframe)
open Lib (int32)

/-- A string. -/
abbrev Str := List Char

/-- `INITIAL_URL_SIZE`. -/
abbrev initialUrlSize : Nat := 1024

/-- `hls_key_info_t`. -/
structure KeyInfo where
  method : Str
  iv : Str
  uri : Str

/-- What the parser calls: `atoi`, `atof` times 1000, `mktime` behind `sscanf`, `ff_hex_to_data`, which writes over the
    start of an array, `hlsParseKeyValue` for `#EXT-X-KEY`, and `av_strlcmp`, which compares the first bytes as
    `strncmp` does. -/
structure Library where
  atoi : Str → Int
  millis : Str → Int
  time : Str → Int
  hexToData : List Nat → Str → List Nat
  keyInfo : Str → KeyInfo
  strlcmp : Str → Str → Nat → Bool
  strlcmp_iff : ∀ a b n, strlcmp a b n = true ↔ a.take n = b.take n

/-- `hls_segment_t`, with its URL and its key. -/
structure Segment extends Seek.Segment where
  url : Str
  key : Str
  iv : List Nat
  deriving DecidableEq

/-- `seg_list` and `iframe_only` of a variant. -/
structure Variant where
  segStart : Int
  finished : Bool
  targetDuration : Int
  lastLoadTime : Int
  iframeOnly : Bool
  segments : List Segment

/-! ## Lines and URLs -/

/-- `isspace`. -/
def isspace (c : Char) : Bool := c.toNat = 32 ∨ 9 ≤ c.toNat ∧ c.toNat ≤ 13

/-- `hlsReadLine`: what fits, without the space at its end. -/
def hlsReadLine (line : Str) : Str := ((line.take 1023).reverse.dropWhile isspace).reverse

/-- The lines of a text; as a `char`, `URL_EOF` is a byte too. -/
def lines (text : Str) : List Str :=
  (text.splitOnP (fun c => c.toNat = 13 ∨ c.toNat = 10 ∨ c.toNat = 255)).map hlsReadLine

/-- `av_strstart`. -/
def strstart (line : Str) (s : String) : Option Str :=
  if s.toList.isPrefixOf line then some (line.drop s.toList.length) else none

/-- What is behind the first `://`. -/
def behindScheme : Str → Option Str
  | [] => none
  | c :: cs => (strstart (c :: cs) "://").or (behindScheme cs)

/-- What fits into an URL. -/
def cut (s : Str) : Str := s.take (initialUrlSize - 1)

/-- Up to the last slash. -/
def directory (s : Str) : Str := (s.reverse.dropWhile (fun c => c ≠ '/')).reverse

/-- The loop over `../`, for a directory; `fuel` is the length of `rel`. -/
def parents : Nat → Str → Str → Str × Str
  | 0, buf, rel => (buf, rel)
  | fuel + 1, buf, rel =>
    match strstart rel "../" with
    | none => (buf, rel)
    | some rest =>
      let dir := directory buf.dropLast
      if buf = [] then (buf, rel)
      else if buf.dropLast.drop dir.length = "..".toList then (buf, rel)
      else parents fuel dir rest

/-- `hlsMakeAbsoluteUrl`. -/
def absoluteUrl (base rel : Str) : Str :=
  if (behindScheme base).isSome ∧ rel.head? = some '/' then
    let buf := cut base
    match behindScheme buf with
    | some rest => cut (buf.take (buf.length - rest.length) ++ rest.takeWhile (fun c => c ≠ '/') ++ rel)
    | none => cut (buf ++ rel)
  else if (behindScheme rel).isSome ∨ rel.head? = some '/' then cut rel
  else
    let r := parents rel.length (directory ((cut base).takeWhile (fun c => c ≠ '?'))) rel
    cut (r.1 ++ r.2)

/-- An URL without its parameters. -/
def path (url : Str) : Str := url.takeWhile (fun c => c ≠ '?')

/-! ## Tags -/

/-- A line. `other` is one that changes nothing of the list. -/
inductive Line
  | extm3u
  | byterange (size : Int) (offset : Option Int)
  | iframesOnly
  | key (info : KeyInfo)
  | targetDuration (n : Int)
  | mediaSequence (n : Int)
  | endlist
  | extinf (duration : Int)
  | programDateTime (t : Int)
  | other
  | uri (line : Str)

variable (lib : Library)

/-- The number behind the first `@`. -/
def offsetOf (ptr : Str) : Option Int :=
  match ptr.dropWhile (fun c => c ≠ '@') with
  | [] => none
  | _ :: rest => some (lib.atoi rest)

/-- The tags, in the order in which they are looked for. -/
def tags : List (String × (Str → Line)) :=
  [("#EXTM3U", fun _ => .extm3u), ("#EXT-X-STREAM-INF:", fun _ => .other),
    ("#EXT-X-BYTERANGE:", fun ptr => .byterange (lib.atoi ptr) (offsetOf lib ptr)),
    ("#EXT-X-I-FRAMES-ONLY", fun _ => .iframesOnly),
    ("#EXT-X-I-FRAME-STREAM-INF:", fun _ => .other), ("#EXT-X-KEY:", fun ptr => .key (lib.keyInfo ptr)),
    ("#EXT-X-TARGETDURATION:", fun ptr => .targetDuration (lib.atoi ptr)),
    ("#EXT-X-MEDIA-SEQUENCE:", fun ptr => .mediaSequence (lib.atoi ptr)), ("#EXT-X-ENDLIST", fun _ => .endlist),
    ("#EXTINF:", fun ptr => .extinf (lib.millis ptr)),
    ("#EXT-X-PROGRAM-DATE-TIME:", fun ptr => .programDateTime (lib.time ptr)),
    ("#", fun _ => .other)]

/-- What a line is. -/
def classify (line : Str) : Line :=
  ((tags lib).findSome? (fun tag => (strstart line tag.1).map tag.2)).getD (if line = [] then .other else .uri line)

/-! ## The loop -/

/-- What the tags before an URL have said: `is_segment`, `is_iframe`, `duration`, `size` and `offset`. -/
structure Pending where
  isSegment : Bool
  isIframe : Bool
  duration : Int
  size : Int
  offset : Int

/-- Before the first line. -/
def Pending.start : Pending := ⟨false, false, 0, 0, 0⟩

/-- What they have said after a line. -/
def Pending.next (p : Pending) : Line → Pending
  | .byterange size offset =>
    if p.isSegment then
      { p with isSegment := false, isIframe := true, size := size, offset := offset.getD p.offset }
    else p
  | .extinf duration => { p with isSegment := true, duration := duration }
  | .uri _ => { p with isSegment := false, isIframe := false }
  | _ => p

/-- The key of the segments that follow. -/
structure Key where
  keyType : KeyType
  key : Str
  hasIv : Bool
  iv : List Nat

/-- The variant and the local variables. `attached` is not in the source: the I-frames that were added, with their
    segments. -/
structure State where
  variant : Variant
  pending : Pending
  startTime : Int
  segIndex : Nat
  key : Key
  timeSec : Int
  attached : List (Nat × Iframe)

/-- The loop goes on, or it ends, or the parser is broken off. -/
inductive Flow
  | next
  | done
  | fail

/-- `AV_WB32` behind twelve zeros. -/
def ivOf (seq : Int) : List Nat :=
  List.replicate 12 0 ++ [24, 16, 8, 0].map (fun (k : Nat) => ((seq / 2 ^ k) % 256).toNat)

/-- A segment is added to the list. -/
def State.addSegment (s : State) (url line : Str) : State :=
  let seg : Segment := {
    keyType := s.key.keyType
    totalTime := s.pending.duration
    startTime := s.startTime
    programTime := s.timeSec
    iframes := []
    iframeCurIndex := none
    url := absoluteUrl url line
    key := absoluteUrl url s.key.key
    iv := if s.key.hasIv then s.key.iv else ivOf (s.variant.segStart + s.variant.segments.length) }
  { s with
    variant := { s.variant with segments := s.variant.segments ++ [seg] }
    startTime := int32 (s.startTime + s.pending.duration) }

/-- The loop over the segments, from `seg_index` on: the first one whose URL, without its parameters, the line starts
    with. -/
def seekSegment (urls : List Str) (line : Str) (segIndex : Nat) : Option Nat :=
  ((urls.drop segIndex).findIdx? (fun url => lib.strlcmp url (absoluteUrl url line) (path url).length)).map
    (fun k => segIndex + k)

/-- An I-frame is added to a segment. -/
def State.addIframe (s : State) (line : Str) : State × Flow :=
  match seekSegment lib (s.variant.segments.map Segment.url) line s.segIndex with
  | none => (s, .fail)
  | some j =>
    let time := if j = s.segIndex then s.startTime else 0
    let iframe : Iframe := ⟨s.pending.size, s.pending.offset, time, s.pending.duration⟩
    ({ s with
      variant := { s.variant with
        segments := s.variant.segments.modify j (fun seg => { seg with iframes := seg.iframes ++ [iframe] }) }
      segIndex := j, startTime := int32 (time + s.pending.duration), attached := s.attached ++ [(j, iframe)] }, .next)

/-- What a line does, before `is_segment` and `is_iframe` change. -/
def State.handle (s : State) (url : Str) (iframeList : Bool) : Line → State × Flow
  | .extm3u => (s, .done)
  | .byterange _ offset => (s, if s.pending.isSegment = true ∧ offset = none then .fail else .next)
  | .iframesOnly => ({ s with variant := { s.variant with iframeOnly := true } }, .next)
  | .key info =>
    let hasIv := (strstart info.iv "0x").isSome || (strstart info.iv "0X").isSome
    ({ s with
      key := {
        keyType := if info.method = "AES-128".toList then .aes128 else .none
        key := cut info.uri
        hasIv := hasIv
        iv := if hasIv then lib.hexToData s.key.iv (info.iv.drop 2) else s.key.iv } }, .next)
  | .targetDuration n => ({ s with variant := { s.variant with targetDuration := n } }, .next)
  | .mediaSequence n => ({ s with variant := { s.variant with segStart := n } }, .next)
  | .endlist => ({ s with variant := { s.variant with finished := true } }, .done)
  | .extinf duration =>
    if iframeList = false ∧ 0 < duration ∧ duration < s.variant.targetDuration then
      ({ s with variant := { s.variant with targetDuration := duration } }, .next)
    else (s, .next)
  | .programDateTime t => ({ s with timeSec := t }, .next)
  | .other => (s, .next)
  | .uri line =>
    let t := if s.pending.isSegment then s.addSegment url line else s
    if s.pending.isIframe then t.addIframe lib line else (t, .next)

/-- One line. -/
def step (url : Str) (iframeList : Bool) (s : State) (line : Line) : State × Flow :=
  let r := s.handle lib url iframeList line
  ({ r.1 with pending := s.pending.next line }, r.2)

/-- The lines, and whether the parser was not broken off. -/
def run (url : Str) (iframeList : Bool) : State → List Line → State × Bool
  | s, [] => (s, true)
  | s, line :: ls =>
    match step lib url iframeList s line with
    | (s, .next) => run url iframeList s ls
    | (s, .done) => (s, true)
    | (s, .fail) => (s, false)

/-- Before the first line. -/
def start (v : Variant) : State := ⟨v, .start, 0, 0, ⟨.none, [], false, List.replicate 16 0⟩, 0, []⟩

/-- The lines behind the first one, which is `#EXTM3U`. -/
def body (text : Str) : Option (List Line) :=
  match lines text with
  | [] => none
  | first :: ls => if first = "#EXTM3U".toList then some (ls.map (classify lib)) else none

/-- `hlsParseM3U8`, for the variant and its list, or its I-frame list; with the I-frames that were added and whether it
    returns 0. -/
def hlsParseM3U8 (url : Str) (v : Variant) (iframeList : Bool) (text : Str) (now : Int) :
    Variant × List (Nat × Iframe) × Bool :=
  match body lib text with
  | none => (v, [], false)
  | some ls =>
    let r := run lib url iframeList (start (if iframeList then v else { v with segments := [], finished := false })) ls
    (if r.2 then { r.1.variant with lastLoadTime := now } else r.1.variant, r.1.attached, true)

/-! ## The caller -/

/-- In `load_next`, the variant that is given to `hlsParseM3U8` for an I-frame list, and the variant of the list. -/
def iframeCall (s : ReadData.State) (a : ReadData.Answer) (iframeNb : Nat) : Option (Nat × Nat) :=
  (s.nextNumber.hlsGetIndex a).bind (fun n =>
    if s.nextNumber.nb n = 0 ∧ (s.nextNumber.stream n).isParsed = false ∧
      (s.nextNumber.hlsParseM3U8 n a.parse).2 = true ∧
      n < iframeNb then some (0, n) else none)

end HiSTB.Hls.M3u8
