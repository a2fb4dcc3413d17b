import HiSTB.Security.Verify
import HiSTB.Lib.Holdings

/-!
# `Security.SystemVerify` — what the verification thread opens and allocates (`verify.c`)

`system_verify` opens the list, `verify_files` allocates a buffer for the hash unit and goes through the lines,
`sha1_file` opens the file of a line, and at the end the thread opens a file with the number of files. Each function
cleans up by hand before each of its `return`s.

* `Pc` — where the thread is; `Input` — what the outside answers there, or a call of `kthread_stop`;
* `step` — from one answer to the next, and what is created and destroyed on the way.

The bytes of the list and of the hashes come with the answers; lines are taken apart as in `Security.Verify`. `opened`
counts the files that were opened for a line, and numbers them. `filp_fread` and `read_line` set the address limit and
set it back in one step. A line that is read past the memory is `none`. Left out: the messages, the sleeps, the
signature (its result is an answer), and `chk_fail_flag`.
-/

namespace HiSTB.Security.SystemVerify

open Lib.Holdings

/-- `MAX_RETRY_TIMES`. -/
abbrev maxRetryTimes : Nat := 20

/-- What the thread opens and allocates. -/
inductive Res
  | list
  | number
  | file (k : Nat)
  | mmz
  | dataBuf
  deriving DecidableEq

/-- The address limit. -/
inductive Seg
  | kernelDs
  | userDs
  deriving DecidableEq

/-- Where the thread is. The loop of `sha1_file` has `left` blocks to read, and `fileSize` bytes. -/
inductive Pc
  | start
  | pollList (i : Nat)
  | openList (i : Nat)
  | size
  | filelist
  | mmz
  | line
  | pollLine
  | openFile
  | hashInit
  | pollBlock (left : Nat) (fileSize : Int)
  | block (left : Nat) (fileSize : Int)
  | tail (fileSize : Int)
  | final
  | pollNum (i : Nat)
  | openNum (i : Nat)
  | number
  | done
  deriving DecidableEq

/-- The thread. -/
structure State where
  pc : Pc
  /-- `kthread_should_stop`. -/
  stopped : Bool
  addrLimit : Seg
  /-- The memory from `line_buf` on. -/
  lineBuf : List Byte
  fileLen : Int
  fPos : Int
  val : List Byte
  checkSystemNum : BitVec 32
  opened : Nat
  deriving DecidableEq

/-- What the outside does. -/
inductive Input
  /-- `kthread_stop`. -/
  | stop
  /-- The thread goes on. -/
  | go
  | kmalloc (ok : Bool)
  /-- `filp_open`. -/
  | open (ok : Bool)
  /-- `i_size` of the list. -/
  | size (fileSize : Int)
  /-- `verify_filelist`. -/
  | filelist (ret : Int) (actualLen : Int)
  /-- `HI_DRV_MMZ_AllocAndMap`. -/
  | allocAndMap (ok : Bool)
  /-- What is read of the list. -/
  | read (data : List Byte)
  /-- `i_size` of a file, and `HI_DRV_CIPHER_CalcHashInit`. -/
  | hashInit (fileSize : Int) (ok : Bool)
  /-- What `filp_fread` returns. -/
  | fread (ret : Int)
  /-- What `HI_DRV_CIPHER_CalcHashFinal` puts into `sha1_result`. -/
  | hashFinal (sha1Result : List Byte)
  /-- The number in the file. -/
  | number (fileNum : BitVec 32)
  deriving DecidableEq

/-- The file that was opened last. -/
def State.file (s : State) : Res := .file (s.opened - 1)

/-- Behind the loop of `sha1_file`. -/
def sha1Rest (fileSize : Int) : Pc := if fileSize.tmod signBlockSize ≠ 0 then .tail fileSize else .final

/-- The head of the loop. -/
def sha1Loop (left : Nat) (fileSize : Int) : Pc := if left = 0 then sha1Rest fileSize else .pollBlock left fileSize

/-- The thread ends. -/
def State.ends (s : State) (es : List (Event Res)) : Option (State × List (Event Res)) :=
  some ({ s with pc := .done }, es)

/-- The thread goes on at `pc`. -/
def State.goes (s : State) (pc : Pc) (es : List (Event Res)) : Option (State × List (Event Res)) :=
  some ({ s with pc := pc }, es)

/-- `verify_files` returns -1, with `es` before. -/
def State.verifyFilesFails (s : State) (es : List (Event Res)) : Option (State × List (Event Res)) :=
  s.ends (es ++ [.destroy .list, .destroy .dataBuf])

/-- `sha1_file` returns 0, with `es` before. -/
def State.sha1Succeeds (s : State) (es : List (Event Res)) : Option (State × List (Event Res)) :=
  some ({ s with pc := .line, checkSystemNum := s.checkSystemNum + 1 }, es)

/-- `system_verify`. -/
def step (s : State) (i : Input) : Option (State × List (Event Res)) :=
  match i, s.pc with
  | .stop, _ => some ({ s with stopped := true }, [])
  | .kmalloc ok, .start => if ok then s.goes (.pollList 0) [.create .dataBuf] else s.ends []
  | .go, .pollList i => if s.stopped then s.ends [.destroy .dataBuf] else s.goes (.openList i) []
  | .open ok, .openList i =>
    if ok then s.goes .size [.create .list]
    else if i > maxRetryTimes then s.ends [.destroy .dataBuf]
    else s.goes (.pollList (i + 1)) []
  | .size fileSize, .size =>
    if fileSize.tmod 0x2000 ≠ 0 then s.ends [.destroy .list, .destroy .dataBuf] else s.goes .filelist []
  | .filelist ret actualLen, .filelist =>
    if ret ≠ 0 then s.ends [.destroy .list, .destroy .dataBuf]
    else some ({ s with pc := .mmz, fileLen := actualLen, checkSystemNum := 0 }, [])
  -- `verify_files`
  | .allocAndMap ok, .mmz =>
    if ok then some ({ s with pc := .line, fPos := 0 }, [.create .mmz]) else s.verifyFilesFails []
  | .go, .line => if s.fPos < s.fileLen then none else s.goes (.pollNum 0) [.destroy .mmz]
  | .read data, .line =>
    if s.fPos < s.fileLen then
      match readLine data 0 s.lineBuf with
      | none => s.goes (.pollNum 0) [.destroy .mmz]
      | some (i, mem) => some ({ s with pc := .pollLine, fPos := s.fPos + i, lineBuf := mem }, [])
    else none
  | .go, .pollLine =>
    if s.stopped then s.goes (.pollNum 0) [.destroy .mmz]
    else
      match getFilenameAndHash s.lineBuf with
      | none => none
      | some none => s.verifyFilesFails []
      | some (some (filename, hash)) =>
        (readVal sha1Len hash).map (fun val =>
          ({ s with pc := .openFile, val := val, lineBuf := s.lineBuf.set filename.length 0 }, []))
  -- `sha1_file`
  | .open ok, .openFile =>
    if ok then some ({ s with pc := .hashInit, opened := s.opened + 1 }, [.create (.file s.opened)])
    else s.verifyFilesFails []
  | .hashInit fileSize ok, .hashInit =>
    if ok then s.goes (sha1Loop (fileSize.tdiv signBlockSize).toNat fileSize) []
    else s.verifyFilesFails [.destroy s.file]
  | .go, .pollBlock left fileSize => if s.stopped then s.sha1Succeeds [] else s.goes (.block left fileSize) []
  | .fread ret, .block left fileSize =>
    if ret ≠ signBlockSize then s.verifyFilesFails [.destroy s.file]
    else s.goes (sha1Loop (left - 1) (fileSize - signBlockSize)) []
  | .fread ret, .tail fileSize =>
    if ret ≠ fileSize then s.verifyFilesFails [.destroy s.file] else s.goes .final []
  | .hashFinal sha1Result, .final => if sha1Result ≠ s.val then s.verifyFilesFails [] else s.sha1Succeeds []
  -- behind `verify_files`
  | .go, .pollNum i => if s.stopped then s.ends [.destroy .dataBuf] else s.goes (.openNum i) []
  | .open ok, .openNum i =>
    if ok then s.goes .number [.create .number]
    else if i > maxRetryTimes then s.ends [.destroy .dataBuf]
    else s.goes (.pollNum (i + 1)) []
  | .number fileNum, .number =>
    if fileNum - 1 ≠ s.checkSystemNum then some ({ s with pc := .done, addrLimit := .kernelDs }, [.destroy .dataBuf])
    else s.ends [.destroy .number, .destroy .list, .destroy .dataBuf]
  | _, _ => none

end HiSTB.Security.SystemVerify
