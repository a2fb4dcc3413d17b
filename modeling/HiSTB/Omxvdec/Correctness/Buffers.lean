import HiSTB.Lib.Tally
import HiSTB.Omxvdec.Channel

/-!
# `Omxvdec.Correctness.Buffers` — the entries of a queue that somebody holds

Both queues of a channel have entries in `BUF_STATE_USING`, which the hardware holds and knows by an address.
How their number changes when the status of an entry is written, or an entry goes.
-/

namespace HiSTB.Omxvdec.Channel

open Lib

variable {α : Type} {buf : α → Buf} {l : List α} {b c : α}

/-- Buffer `b` is in use at address `k`. -/
def usedAt (buf : α → Buf) (k : BitVec 32) (b : α) : Bool := (buf b).addr = k ∧ (buf b).status = .inUse

/-- Buffer `b` is in use. -/
def inUse (buf : α → Buf) (b : α) : Bool := (buf b).status = .inUse

/-- Writes of other buffers change nothing. -/
theorem used_congr {buf' : α → Buf} (h : ∀ c ∈ l, buf' c = buf c) :
    (∀ k, l.countP (usedAt buf' k) = l.countP (usedAt buf k)) ∧ l.countP (inUse buf') = l.countP (inUse buf) := by
  refine ⟨fun k => countP_same (fun c hc => ?_), countP_same (fun c hc => ?_)⟩
  · unfold usedAt
    rw [h c hc]
  · unfold inUse
    rw [h c hc]

variable [DecidableEq α]

/-- Write the status of a buffer. -/
def withStatus (buf : α → Buf) (b : α) (st : BufState) : α → Buf :=
  Function.update buf b { buf b with status := st }

theorem withStatus_addr (buf : α → Buf) (b : α) (st : BufState) (c : α) :
    (withStatus buf b st c).addr = (buf c).addr := by
  unfold withStatus Buf.addr
  by_cases hc : c = b
  · subst hc
    simp
  · simp [hc]

theorem withStatus_self (buf : α → Buf) (b : α) (st : BufState) : (withStatus buf b st b).status = st := by
  simp [withStatus]

theorem withStatus_other (st : BufState) (hc : c ≠ b) : withStatus buf b st c = buf c := by
  simp [withStatus, hc]

/-- How the number of entries in use changes with the status of `b`. -/
theorem used_withStatus (buf : α → Buf) (hnd : l.Nodup) (hb : b ∈ l) (st : BufState) (k : BitVec 32) :
    l.countP (usedAt (withStatus buf b st) k) + (decide ((buf b).addr = k ∧ (buf b).status = .inUse)).toNat =
      l.countP (usedAt buf k) + (decide ((buf b).addr = k ∧ st = .inUse)).toNat := by
  have hnew : usedAt (withStatus buf b st) k b = decide ((buf b).addr = k ∧ st = .inUse) := by
    unfold usedAt
    rw [withStatus_addr, withStatus_self]
  have hold : decide ((buf b).addr = k ∧ (buf b).status = .inUse) = usedAt buf k b := rfl
  rw [← hnew, hold]
  refine countP_change hnd hb (fun c _ hne => ?_)
  unfold usedAt
  rw [withStatus_other st hne]

theorem used_erase (buf : α → Buf) (hb : b ∈ l) (k : BitVec 32) :
    (l.erase b).countP (usedAt buf k) + (decide ((buf b).addr = k ∧ (buf b).status = .inUse)).toNat =
      l.countP (usedAt buf k) := countP_erase_add hb

theorem inUse_withStatus (buf : α → Buf) (hnd : l.Nodup) (hb : b ∈ l) (st : BufState) :
    l.countP (inUse (withStatus buf b st)) + (decide ((buf b).status = .inUse)).toNat =
      l.countP (inUse buf) + (decide (st = .inUse)).toNat := by
  have hnew : inUse (withStatus buf b st) b = decide (st = .inUse) := by
    unfold inUse
    rw [withStatus_self]
  have hold : decide ((buf b).status = .inUse) = inUse buf b := rfl
  rw [← hnew, hold]
  refine countP_change hnd hb (fun c _ hne => ?_)
  unfold inUse
  rw [withStatus_other st hne]

theorem inUse_erase (buf : α → Buf) (hb : b ∈ l) :
    (l.erase b).countP (inUse buf) + (decide ((buf b).status = .inUse)).toNat = l.countP (inUse buf) :=
  countP_erase_add hb

end HiSTB.Omxvdec.Channel
