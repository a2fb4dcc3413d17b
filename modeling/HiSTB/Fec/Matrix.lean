import HiSTB.Fec.Gf256

/-!
# `Fec.Matrix` — `matrix_invGF256` and `matrix_mulGF256`

The matrix routines of `RS_fec.cpp` on `PBYTE*` storage, loop by loop.

`matrix_invGF256` is the in-place full-pivot Gauss–Jordan inversion of `Lib.GaussJordan`, written with the
table arithmetic: the pivot search takes the last largest entry among the rows and columns not yet pivoted,
the row operations multiply through `m_exp`/`m_log`, and the column swaps are undone in reverse order at the
end. The two `exit(0)` calls of the source are the result `none`.
-/

namespace HiSTB.Fec

open Lib

/-- A `PBYTE*`: entry `j` of the block that `matrix[i]` points to. -/
abbrev Rows := Nat → Nat → BYTE

/-- `matrix[i][j] = v`. -/
def setCell (matrix : Rows) (i j : Nat) (v : BYTE) : Rows :=
  Function.update matrix i (Function.update (matrix i) j v)

/-- `SWAP(matrix[i][j], matrix[k][l])`. -/
def swapCell (matrix : Rows) (i j k l : Nat) : Rows :=
  let temp := matrix i j
  setCell (setCell matrix i j (matrix k l)) k l temp

/-- `c[i][j] ^= m_exp[(m_log[a] + m_log[b]) % Q]` under `if (a && b)`. -/
def mulAcc (c a b : BYTE) : BYTE := if a ≠ 0 ∧ b ≠ 0 then c ^^^ gfMul a b else c

/-! ## `matrix_invGF256` -/

/-- The running maximum of the pivot search and where it stands. -/
structure PivotSearch where
  big : BYTE
  irow : Nat
  icol : Nat

/-- Body of the innermost search loop, with its `ipiv[k] > 1` exit. -/
def pivotProbe (matrix : Rows) (ipiv : Nat → Nat) (j : Nat) (p : PivotSearch) (k : Nat) :
    Option PivotSearch :=
  if ipiv k = 0 then
    if p.big ≤ matrix j k then some { big := matrix j k, irow := j, icol := k } else some p
  else if 1 < ipiv k then none
  else some p

/-- The search loop over the columns, for a row not yet pivoted. -/
def pivotRow (matrix : Rows) (ipiv : Nat → Nat) (n : Nat) (p : PivotSearch) (j : Nat) :
    Option PivotSearch :=
  if ipiv j ≠ 1 then forRangeM n (pivotProbe matrix ipiv j) p else some p

/-- Divide row `icol` by the pivot, `1` standing in the pivot's place. -/
def scaleRow (matrix : Rows) (n icol : Nat) : Rows :=
  let pivinv := Q - table.mLog (matrix icol icol)
  forRange n
    (fun m l =>
      if m icol l ≠ 0 then setCell m icol l (table.mExp ((table.mLog (m icol l) + pivinv) % Q)) else m)
    (setCell matrix icol icol 0x1)

/-- Clear column `icol` in row `ll`. -/
def eliminateRow (n icol : Nat) (matrix : Rows) (ll : Nat) : Rows :=
  if ll ≠ icol then
    let dum := matrix ll icol
    forRange n (fun m l => setCell m ll l (mulAcc (m ll l) (m icol l) dum)) (setCell matrix ll icol 0)
  else matrix

/-- Variables that live across the rounds of the main loop. -/
structure InvLoop where
  matrix : Rows
  ipiv : Nat → Nat
  indxr : Nat → Nat
  indxc : Nat → Nat
  irow : Nat
  icol : Nat

/-- One round of the main loop: search, swap the pivot into place, divide, eliminate. -/
def invRound (n : Nat) (t : InvLoop) (i : Nat) : Option InvLoop := do
  let p ← forRangeM n (pivotRow t.matrix t.ipiv n) { big := 0, irow := t.irow, icol := t.icol }
  let ipiv := Function.update t.ipiv p.icol (t.ipiv p.icol + 1)
  let matrix :=
    if p.irow ≠ p.icol then forRange n (fun m l => swapCell m p.irow l p.icol l) t.matrix else t.matrix
  let indxr := Function.update t.indxr i p.irow
  let indxc := Function.update t.indxc i p.icol
  if matrix p.icol p.icol = 0 then none
  else
    let matrix := forRange n (eliminateRow n p.icol) (scaleRow matrix n p.icol)
    some { matrix, ipiv, indxr, indxc, irow := p.irow, icol := p.icol }

/-- Undo the column swap of round `l`. -/
def unswapColumn (n : Nat) (indxr indxc : Nat → Nat) (matrix : Rows) (l : Nat) : Rows :=
  if indxr l ≠ indxc l then forRange n (fun m k => swapCell m k (indxr l) k (indxc l)) matrix
  else matrix

/-- The variables before the first round. -/
def invInit (matrix : Rows) : InvLoop where
  matrix := matrix
  ipiv _ := 0
  indxr _ := 0
  indxc _ := 0
  irow := 0
  icol := 0

/-- `matrix_invGF256`; `none` when one of its two `exit(0)` is reached. -/
def matrixInvGF256 (matrix : Rows) (n : Nat) : Option Rows := do
  let t ← forRangeM n (invRound n) (invInit matrix)
  some (forRange n (fun m k => unswapColumn n t.indxr t.indxc m (n - 1 - k)) t.matrix)

/-- The two inner loops of a product, for row `i`: `c[i][j] ^= a[i][k] * b[k][j]` for `j < right` and
    `k < mid`. -/
def mulRow (a b : Rows) (mid right : Nat) (c : Rows) (i : Nat) : Rows :=
  forRange right
    (fun c j => forRange mid (fun c k => setCell c i j (mulAcc (c i j) (a i k) (b k j))) c) c

/-- `matrix_mulGF256`. -/
def matrixMulGF256 (a b c : Rows) (left mid right : Nat) : Rows :=
  forRange left (mulRow a b mid right) c

end HiSTB.Fec
