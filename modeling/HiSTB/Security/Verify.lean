import Mathlib.Logic.Basic
import Mathlib.Data.Nat.Notation

/-!
# `Security.Verify` — the check of the system files (`verify.c`)

The system list is a signed text with a line for each file: its path, a tab, and its SHA-1 in hexadecimal digits.
`verify_files` reads a window of the list into `line_buf`, cuts it off behind the first newline, and moves the position
of the file back behind the line.

* `readLine`, `getFilenameAndHash`, `simpleStrtoul`, `readVal` — a line is cut out and taken apart;
* `sha1Padding`, `sha1File` — the SHA-1 of a file, by the hash unit;
* `verifyFiles` — all the lines.

`line_buf` is the memory from there on: what is behind the line in the window, what is left of earlier lines, and what
is behind the buffer. A read behind all of the memory is `none`. Reads of files give what is asked for, or what is left;
there is no stop request. The hash unit is a parameter, which makes a digest of what it is fed, padding included.
`simple_strtoul` is the kernel's. Left out: the open files, the messages, and files of 2 GiB and more (`none`), whose
size is no `int`.
-/

namespace HiSTB.Security

/-- `char` and `unsigned char`. -/
abbrev Byte := BitVec 8

abbrev newline : Byte := 10

abbrev tab : Byte := 9

/-- `BUF_SIZE`. -/
abbrev bufSize : Nat := 1024

/-- `SHA1_LEN`. -/
abbrev sha1Len : Nat := 20

/-- `SIGN_BLOCK_SIZE`. -/
abbrev signBlockSize : Nat := 0x200000

/-- What `verify_files` meets. -/
structure Env where
  /-- `HI_DRV_MMZ_AllocAndMap`. -/
  allocAndMap : Bool
  /-- `HI_DRV_CIPHER_CalcHashInit`. -/
  calcHashInit : Bool
  /-- The files that can be opened. -/
  files : List Byte → Option (List Byte)
  /-- The digest that the hash unit makes. -/
  calcHash : List Byte → List Byte

/-! ## A line -/

/-- Up to the first newline, and with it. -/
def lineLen : List Byte → Nat
  | [] => 0
  | c :: cs => if c = newline then 1 else lineLen cs + 1

/-- `read_line`: the next position, and the memory from `line_buf` on. -/
def readLine (file : List Byte) (pos : Nat) (mem : List Byte) : Option (Nat × List Byte) :=
  let data := (file.drop pos).take bufSize
  if data = [] then none
  else
    let i := lineLen data
    let mem := data ++ mem.drop data.length
    some (pos + i, if i < bufSize then mem.set i 0 else mem)

/-- `get_filename_and_hash`: the name of the file, and the memory from the hash on; inside, `none` where there is no
    tab. -/
def getFilenameAndHash : List Byte → Option (Option (List Byte × List Byte))
  | [] => none
  | c :: cs =>
    if c = 0 then some none
    else if c = tab then some (some ([], cs))
    else (getFilenameAndHash cs).map (fun r => r.map (fun q => (c :: q.1, q.2)))

/-- The value of a hexadecimal digit. -/
def hexVal (c : Byte) : Option Nat :=
  if 48 ≤ c.toNat ∧ c.toNat ≤ 57 then some (c.toNat - 48)
  else if 97 ≤ c.toNat ||| 0x20 ∧ c.toNat ||| 0x20 ≤ 102 then some ((c.toNat ||| 0x20) - 87)
  else none

/-- `_parse_integer`, in base 16. -/
def parseInteger (res : Nat) : List Byte → Option Nat
  | [] => none
  | c :: cs =>
    match hexVal c with
    | some val => parseInteger (res * 16 + val) cs
    | none => some res

/-- `simple_strtoul`, in base 16. -/
def simpleStrtoul : List Byte → Option Nat
  | c :: d :: cs => if c = 48 ∧ d.toNat ||| 0x20 = 120 then parseInteger 0 cs else parseInteger 0 (c :: d :: cs)
  | cs => parseInteger 0 cs

/-- `val`, by strides of three characters. -/
def readVal : Nat → List Byte → Option (List Byte)
  | 0, _ => some []
  | n + 1, hash =>
    (simpleStrtoul hash).bind (fun v => (readVal n (hash.drop 3)).map (fun val => BitVec.ofNat 8 v :: val))

/-! ## A file -/

/-- `sha1_padding`. A shift of an `int` by 32 bits or more leaves its sign. -/
def sha1Padding (u32TotalDataLen : BitVec 32) : List Byte :=
  let tmp := u32TotalDataLen.toNat % 64
  let len := (if tmp < 56 then 56 - tmp else 120 - tmp) + 8
  0x80 :: List.replicate (len - 1 - 8) 0 ++
    (List.range 8).map (fun i => ((u32TotalDataLen * 8).sshiftRight ((7 - i) * 8)).setWidth 8)

/-- The blocks that are given to `HI_DRV_CIPHER_CalcHashUpdate`, and what is left of the file. -/
def updateBlocks : Nat → List Byte → List Byte × List Byte
  | 0, data => ([], data)
  | n + 1, data =>
    let r := updateBlocks n (data.drop signBlockSize)
    (data.take signBlockSize ++ r.1, r.2)

/-- `sha1_file`; whether the file has the hash. -/
def sha1File (env : Env) (filename hash : List Byte) : Option Bool :=
  match env.files filename with
  | none => some false
  | some data =>
    if data.length ≥ 0x80000000 then none
    else if env.calcHashInit then
      let r := updateBlocks (data.length / signBlockSize) data
      some (env.calcHash (r.1 ++ (r.2 ++ sha1Padding (BitVec.ofNat 32 data.length))) = hash)
    else some false

/-! ## The list -/

/-- What `verify_files` returns, the files that were checked with the hashes they were compared with, and
    `check_system_num`. -/
structure Result where
  ret : Int
  checked : List (List Byte × List Byte)
  checkSystemNum : Nat
  deriving DecidableEq

/-- A file was checked. -/
def Result.after (filename val : List Byte) (r : Result) : Result :=
  ⟨r.ret, (filename, val) :: r.checked, r.checkSystemNum + 1⟩

/-- The loop of `verify_files`. -/
def verifyLoop (env : Env) (file : List Byte) (fileLen : Int) : Nat → Nat → List Byte → Option Result
  | 0, _, _ => none
  | fuel + 1, pos, mem =>
    if (pos : Int) < fileLen then
      match readLine file pos mem with
      | none => some ⟨0, [], 0⟩
      | some (pos, mem) =>
        match getFilenameAndHash mem with
        | none => none
        | some none => some ⟨-1, [], 0⟩
        | some (some (filename, hash)) =>
          (readVal sha1Len hash).bind (fun val =>
            (sha1File env filename val).bind (fun ok =>
              if ok then
                -- the tab is overwritten
                (verifyLoop env file fileLen fuel pos (mem.set filename.length 0)).map (Result.after filename val)
              else some ⟨-1, [(filename, val)], 0⟩))
    else some ⟨0, [], 0⟩

/-- `verify_files`. -/
def verifyFiles (env : Env) (file : List Byte) (fileLen : Int) (mem : List Byte) : Option Result :=
  if env.allocAndMap then verifyLoop env file fileLen (file.length + 1) 0 mem else some ⟨-1, [], 0⟩

end HiSTB.Security
