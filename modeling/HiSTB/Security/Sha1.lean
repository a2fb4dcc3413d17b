import HiSTB.Lib.Ring
import HiSTB.Security.Verify

/-!
# `Security.Sha1` — what the hash unit is fed (`verify.c`)

`sha1_file` reads the file block by block into one buffer, which it gives to `HI_DRV_CIPHER_CalcHashUpdate` each time it
is full. The rest goes to the same buffer, the padding behind it, and both to `HI_DRV_CIPHER_CalcHashFinal`. The hash
unit reads `u32InputDataLen` bytes from the start of the buffer.

`sha1File` says what comes out; here are the buffer and the calls.
-/

namespace HiSTB.Security

open Lib

/-- `CIPHER_HASH_DATA_S`; `buf` is the memory from `stMMZBuffer` on. -/
structure Cipher where
  buf : Nat → Byte
  totalDataLen : BitVec 32
  inputDataLen : BitVec 32
  offset : BitVec 32

/-- What the hash unit reads. -/
def Cipher.input (c : Cipher) : List Byte := readAt c.buf 0 c.inputDataLen.toNat

/-- A full block was read. -/
def Cipher.fullBlock (c : Cipher) (block : List Byte) : Cipher where
  buf := writeAt c.buf 0 block
  inputDataLen := BitVec.ofNat 32 signBlockSize
  totalDataLen := c.totalDataLen + BitVec.ofNat 32 signBlockSize
  offset := 0

/-- The rest of the file was read. -/
def Cipher.rest (c : Cipher) (rest : List Byte) : Cipher where
  buf := writeAt c.buf 0 rest
  inputDataLen := BitVec.ofNat 32 rest.length
  totalDataLen := c.totalDataLen + BitVec.ofNat 32 rest.length
  offset := BitVec.ofNat 32 rest.length

/-- The padding is copied behind the rest. -/
def Cipher.pad (c : Cipher) : Cipher :=
  let padding := sha1Padding c.totalDataLen
  { c with
    buf := writeAt c.buf c.offset.toNat padding
    inputDataLen := c.offset + BitVec.ofNat 32 padding.length }

/-- The loop: what `HI_DRV_CIPHER_CalcHashUpdate` is given, and what is left of the file. -/
def updateCalls : Nat → List Byte → Cipher → List (List Byte) × List Byte × Cipher
  | 0, data, c => ([], data, c)
  | n + 1, data, c =>
    let c := c.fullBlock (data.take signBlockSize)
    let r := updateCalls n (data.drop signBlockSize) c
    (c.input :: r.1, r.2)

/-- What `HI_DRV_CIPHER_CalcHashUpdate` and `HI_DRV_CIPHER_CalcHashFinal` are given for a file. -/
def hashCalls (buf : Nat → Byte) (data : List Byte) : List (List Byte) × List Byte :=
  let c : Cipher := ⟨writeAt buf 0 (List.replicate (signBlockSize + 128) 0), 0, 0, 0⟩
  let r := updateCalls (data.length / signBlockSize) data c
  let c := if r.2.1.length % signBlockSize ≠ 0 then r.2.2.rest r.2.1 else r.2.2
  (r.1, c.pad.input)

end HiSTB.Security
