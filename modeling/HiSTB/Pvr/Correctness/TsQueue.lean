import HiSTB.Pvr.TsQueue

/-!
# `Pvr.Correctness.TsQueue` — when the record TS queue is a queue

The stream that was pushed is `xs`, and its first `n` bytes were taken out. The head stands at `n` and the tail at
`xs.length`, modulo the size; the memory holds the end of the stream (`Latest`). Where head and tail meet, the queue
is empty or full, and only `u32Flag` knows. It is set by a comparison of an address with an offset, so it does not
follow; the invariant is kept by the calls that do not make the pointers meet with the wrong flag (`Calm`).
-/

namespace HiSTB.Pvr.TsQueue

open Lib

variable {a : Area} {s t : Sys} {q : Queue} {b : Block} {xs : List Byte} {n : Nat} {queueBlock : BitVec 32}

variable {polled : BitVec 32 × BitVec 32} {es : List Event}

/-- The queue holds the bytes of `xs` behind the first `n`. -/
structure Inv (a : Area) (q : Queue) (xs : List Byte) (n : Nat) : Prop where
  le : n ≤ xs.length
  used : xs.length - n ≤ a.size.toNat
  head : q.head.toNat = a.recData.toNat + n % a.size.toNat
  tail : q.tail.toNat = a.recData.toNat + xs.length % a.size.toNat
  headGolbal : q.headGolbalOffset = BitVec.ofNat 64 n
  tailGolbal : q.tailGolbalOffset = BitVec.ofNat 64 xs.length
  latest : Latest q.mem a.size.toNat xs
  empty : xs.length = n → q.flag = .empty
  full : xs.length - n = a.size.toNat → q.flag = .full

theorem inv_init (a : Area) : Inv a (queueInit a) [] 0 where
  le := Nat.le_refl 0
  used := Nat.zero_le _
  head := by simp [queueInit]
  tail := by simp [queueInit]
  headGolbal := rfl
  tailGolbal := rfl
  latest := Latest.nil _ _
  empty := fun _ => rfl
  full := fun h => absurd h.symm (Nat.ne_of_gt a.size_pos)

/-! ## Head and tail -/

theorem Area.end_toNat (a : Area) : (a.recData + a.size).toNat = a.recData.toNat + a.size.toNat := by
  rw [BitVec.toNat_add]
  exact Nat.mod_eq_of_lt a.room

/-- The tail is `used` bytes behind the head, around the end of the memory. -/
theorem tail_eq {size n len : Nat} (hle : n ≤ len) (hused : len - n ≤ size) (hpos : 0 < size) :
    len % size = if n % size + (len - n) < size then n % size + (len - n) else n % size + (len - n) - size := by
  have hlt := Nat.mod_lt n hpos
  have hsum : len % size = (n % size + (len - n)) % size := by
    rw [Nat.mod_add_mod]
    congr 1
    omega
  rw [hsum]
  split
  · exact Nat.mod_eq_of_lt (by assumption)
  · rw [Nat.mod_eq_sub_mod (by omega), Nat.mod_eq_of_lt (by omega)]

/-- Where the pointers meet, the queue is empty or full. -/
theorem Inv.meet (h : Inv a q xs n) : q.head = q.tail ↔ xs.length = n ∨ xs.length - n = a.size.toNat := by
  have htail := tail_eq h.le h.used a.size_pos
  have hlt := Nat.mod_lt n a.size_pos
  have hle := h.le
  have hused := h.used
  have hpos := a.size_pos
  constructor
  · intro heq
    have hnat : q.head.toNat = q.tail.toNat := congrArg BitVec.toNat heq
    rw [h.head, h.tail, htail] at hnat
    split at hnat <;> omega
  · intro hor
    apply BitVec.eq_of_toNat_eq
    rw [h.head, h.tail, htail]
    split <;> omega

theorem Inv.isEmpty (h : Inv a q xs n) : (q.flag = .empty ∧ q.head = q.tail) ↔ xs.length = n := by
  constructor
  · rintro ⟨hflag, hmeet⟩
    rcases h.meet.mp hmeet with hnil | hall
    · exact hnil
    · rw [h.full hall] at hflag
      cases hflag
  · intro hnil
    exact ⟨h.empty hnil, h.meet.mpr (Or.inl hnil)⟩

theorem Inv.isFull (h : Inv a q xs n) : (q.flag = .full ∧ q.head = q.tail) ↔ xs.length - n = a.size.toNat := by
  constructor
  · rintro ⟨hflag, hmeet⟩
    rcases h.meet.mp hmeet with hnil | hall
    · rw [h.empty hnil] at hflag
      cases hflag
    · exact hall
  · intro hall
    exact ⟨h.full hall, h.meet.mpr (Or.inr hall)⟩

theorem Inv.headOff (h : Inv a q xs n) : (q.head - a.recData).toNat = n % a.size.toNat := by
  have hhead := h.head
  have hlt := Nat.mod_lt n a.size_pos
  bv_omega

theorem Inv.tailOff (h : Inv a q xs n) : (q.tail - a.recData).toNat = xs.length % a.size.toNat := by
  have htail := h.tail
  have hlt := Nat.mod_lt xs.length a.size_pos
  bv_omega

/-- **The free size.** -/
theorem Inv.getValidSize (h : Inv a q xs n) : (q.getValidSize a).toNat = a.size.toNat - (xs.length - n) := by
  have htail := tail_eq h.le h.used a.size_pos
  have hlt := Nat.mod_lt n a.size_pos
  have hq := h.head
  have hqt := h.tail
  have hroom := a.room
  have hle := h.le
  have hused := h.used
  unfold Queue.getValidSize
  by_cases hnil : xs.length = n
  · rw [if_pos (h.isEmpty.mpr hnil)]
    omega
  · rw [if_neg (fun hc => hnil (h.isEmpty.mp hc))]
    by_cases hall : xs.length - n = a.size.toNat
    · rw [if_pos (h.isFull.mpr hall), hall]
      simp
    · rw [if_neg (fun hc => hall (h.isFull.mp hc))]
      split
      · next hgt =>
        have hnat : q.tail.toNat < q.head.toNat := hgt
        rw [BitVec.toNat_sub_of_le (Nat.le_of_lt hnat)]
        split at htail <;> omega
      · next hgt =>
        have hnat : ¬ q.tail.toNat < q.head.toNat := hgt
        split at htail <;> bv_omega

/-! ## A push -/

theorem Block.len_toNat (b : Block) : b.len.toNat = b.bytes.length := by
  unfold Block.len
  rw [BitVec.toNat_ofNat]
  exact Nat.mod_eq_of_lt b.lt

/-- The memory after a push. -/
theorem Inv.latest_push (h : Inv a q xs n) (hfit : b.bytes.length ≤ a.size.toNat)
    (hsum : xs.length % a.size.toNat + b.bytes.length < 0x100000000) :
    Latest (q.pushData a b).mem a.size.toNat (xs ++ b.bytes) := by
  have hoff := h.tailOff
  have hlt := Nat.mod_lt xs.length a.size_pos
  have hadd : (q.tail - a.recData + b.len).toNat = xs.length % a.size.toNat + b.bytes.length := by
    rw [BitVec.toNat_add, hoff, b.len_toNat]
    exact Nat.mod_eq_of_lt hsum
  unfold Queue.pushData
  dsimp only
  split
  · next hgt =>
    have hnat : a.size.toNat < xs.length % a.size.toNat + b.bytes.length := hadd ▸ hgt
    have hcpy : (a.size - (q.tail - a.recData)).toNat = a.size.toNat - xs.length % a.size.toNat := by
      rw [BitVec.toNat_sub_of_le (BitVec.le_def.mpr (by rw [hoff]; omega)), hoff]
    rw [hcpy, hoff]
    have hlen : (b.bytes.take (a.size.toNat - xs.length % a.size.toNat)).length
        = a.size.toNat - xs.length % a.size.toNat := by
      rw [List.length_take]
      omega
    -- up to the end of the memory, and from its start on
    have hfirst := h.latest.writeAt (Nat.mod_mod _ _) (Nat.le_of_eq (by rw [hlen]; omega) :
      xs.length % a.size.toNat + (b.bytes.take (a.size.toNat - xs.length % a.size.toNat)).length ≤ a.size.toNat)
    rw [← List.take_append_drop (a.size.toNat - xs.length % a.size.toNat) b.bytes, ← List.append_assoc,
      List.take_append_drop]
    refine hfirst.writeAt ?_ ?_
    · rw [List.length_append, hlen, ← Nat.mod_add_mod, Nat.add_sub_cancel' (Nat.le_of_lt hlt)]
      simp
    · rw [List.length_drop]
      omega
  · next hgt =>
    have hnat : ¬ a.size.toNat < xs.length % a.size.toNat + b.bytes.length := hadd ▸ hgt
    rw [hoff]
    exact h.latest.writeAt (Nat.mod_mod _ _) (by omega)

/-- What a push must not do: fill the queue while the flag says empty, or be empty itself where the queue is full;
    nor may the sum of its tail offset and its length leave 32 bits. -/
def CalmPush (a : Area) (q : Queue) (b : Block) : Prop :=
  b.len.toNat ≤ (q.getValidSize a).toNat →
    (b.len = q.getValidSize a → q.flag = .full ∧ b.len ≠ 0) ∧
    (q.tail - a.recData).toNat + b.len.toNat < 0x100000000

theorem Inv.pushData (h : Inv a q xs n) (hcalm : CalmPush a q b)
    (hfit : b.bytes.length ≤ a.size.toNat - (xs.length - n)) :
    Inv a (q.pushData a b) (xs ++ b.bytes) n := by
  have hvalid := h.getValidSize
  have hlen := b.len_toNat
  have hoff := h.tailOff
  have hheadOff := h.headOff
  have hle := h.le
  have hused := h.used
  obtain ⟨hfill, hsum⟩ := hcalm (by omega)
  rw [hoff, hlen] at hsum
  have hlt := Nat.mod_lt xs.length a.size_pos
  have hltn := Nat.mod_lt n a.size_pos
  have hltm := Nat.mod_lt (xs.length + b.bytes.length) a.size_pos
  have hroom := a.room
  have hmod : ((q.tail - a.recData + b.len) % a.size).toNat = (xs.length + b.bytes.length) % a.size.toNat := by
    rw [BitVec.toNat_umod, BitVec.toNat_add, hoff, hlen, Nat.mod_eq_of_lt hsum, Nat.mod_add_mod]
  have htail : (a.recData + (q.tail - a.recData + b.len) % a.size).toNat
      = a.recData.toNat + (xs.length + b.bytes.length) % a.size.toNat := by
    rw [BitVec.toNat_add, hmod]
    exact Nat.mod_eq_of_lt (by omega)
  -- the remainder is below the size, so the tail never stands at the end
  have hend : a.recData + (q.tail - a.recData + b.len) % a.size ≠ a.recData + a.size := by
    intro heq
    have hnat := congrArg BitVec.toNat heq
    rw [htail, a.end_toNat] at hnat
    omega
  have hnew : (q.pushData a b).tail = a.recData + (q.tail - a.recData + b.len) % a.size := if_neg hend
  have hflag : (q.pushData a b).flag = if (q.pushData a b).tail = q.head - a.recData then .full else q.flag := rfl
  refine ⟨?_, ?_, h.head, ?_, h.headGolbal, ?_, h.latest_push (by omega) hsum, ?_, ?_⟩
  · rw [List.length_append]
    omega
  · rw [List.length_append]
    omega
  · rw [hnew, htail, List.length_append]
  · show q.tailGolbalOffset + b.len.setWidth 64 = _
    rw [h.tailGolbal, List.length_append]
    apply BitVec.eq_of_toNat_eq
    simp [hlen, BitVec.toNat_add]
  · intro hnil
    rw [List.length_append] at hnil
    -- the queue was empty and nothing came; the tail's address is above every offset it could be confused with
    rw [hflag, if_neg, h.empty (by omega)]
    intro heq
    have hnat := congrArg BitVec.toNat heq
    rw [hnew, htail, hheadOff, show xs.length + b.bytes.length = n by omega] at hnat
    have := a.recData_pos
    omega
  · intro hall
    rw [List.length_append] at hall
    have heq : b.len = q.getValidSize a := BitVec.eq_of_toNat_eq (by omega)
    rw [hflag, (hfill heq).1]
    exact ite_self _

/-- **A push.** It is refused exactly when it does not fit. -/
theorem Inv.push (h : Inv a q xs n) (hcalm : CalmPush a q b) :
    q.push a b = if b.len > q.getValidSize a then (q, false) else (q.pushData a b, true) := by
  have hvalid := h.getValidSize
  unfold Queue.push
  split
  · next hfull =>
    have hall := h.isFull.mp hfull
    have hzero : q.getValidSize a = 0 := BitVec.eq_of_toNat_eq (by rw [hvalid, hall]; simp)
    rw [if_pos]
    rw [hzero]
    -- an empty block into a full queue is what `CalmPush` excludes
    by_contra hle
    have hb : b.len = 0 := by bv_omega
    have hc := (hcalm (by rw [hb]; simp)).1
    exact (hc (hb.trans hzero.symm)).2 hb
  · rfl

theorem Inv.push_cases (h : Inv a q xs n) (hcalm : CalmPush a q b) :
    (q.push a b = (q, false) ∧ b.len > q.getValidSize a) ∨
    (q.push a b = (q.pushData a b, true) ∧ Inv a (q.pushData a b) (xs ++ b.bytes) n) := by
  rw [h.push hcalm]
  split
  · next hgt => exact Or.inl ⟨rfl, hgt⟩
  · next hgt =>
    have hnat : ¬ (q.getValidSize a).toNat < b.len.toNat := hgt
    rw [h.getValidSize, b.len_toNat] at hnat
    exact Or.inr ⟨rfl, h.pushData hcalm (by omega)⟩

/-! ## A poll -/

/-- A piece that can be polled: from the head on, in the used part, and not across the end of the memory. -/
structure Piece (a : Area) (xs : List Byte) (n : Nat) (q : Queue) (polled : BitVec 32 × BitVec 32) : Prop where
  addr : polled.2 ≠ 0 → polled.1 = q.head
  used : polled.2.toNat ≤ xs.length - n
  inside : n % a.size.toNat + polled.2.toNat ≤ a.size.toNat

/-- The sum that `PVRRecTsQueuePollBuff` compares with the end of the memory stays in 32 bits. -/
def CalmPoll (a : Area) (queueBlock : BitVec 32) (q : Queue) : Prop :=
  queueBlock ≤ a.size - q.getValidSize a → q.head.toNat + queueBlock.toNat < 0x100000000

theorem Inv.pollSize (h : Inv a q xs n) (hcalm : CalmPoll a queueBlock q) :
    (q.pollSize a queueBlock).toNat ≤ xs.length - n ∧
      n % a.size.toNat + (q.pollSize a queueBlock).toNat ≤ a.size.toNat := by
  have hvalid := h.getValidSize
  have htail := tail_eq h.le h.used a.size_pos
  have hlt := Nat.mod_lt n a.size_pos
  have hltx := Nat.mod_lt xs.length a.size_pos
  have hroom := a.room
  have hle := h.le
  have hused := h.used
  have hhead := h.head
  have hheadOff := h.headOff
  have htailOff := h.tailOff
  have husedSize : (a.size - q.getValidSize a).toNat = xs.length - n := by
    rw [BitVec.toNat_sub_of_le (BitVec.le_def.mpr (by omega)), hvalid]
    omega
  have hend := a.end_toNat
  -- before it is cut at the end of the memory
  have hcut : ∀ p : BitVec 32, p.toNat ≤ xs.length - n → q.head.toNat + p.toNat < 0x100000000 →
      (if q.head + p > a.recData + a.size then a.recData + a.size - q.head else p).toNat ≤ xs.length - n ∧
        n % a.size.toNat
          + (if q.head + p > a.recData + a.size then a.recData + a.size - q.head else p).toNat ≤ a.size.toNat := by
    intro p hp hsum
    split <;> bv_omega
  unfold Queue.pollSize
  dsimp only
  split
  · next hgt =>
    have hnat : xs.length - n < queueBlock.toNat := husedSize ▸ hgt
    apply hcut
    · split
      · next hlong =>
        have hlong' : xs.length % a.size.toNat < n % a.size.toNat := by
          rw [← hheadOff, ← htailOff]
          exact hlong
        split at htail <;> bv_omega
      · next hshort =>
        have hshort' : ¬ xs.length % a.size.toNat < n % a.size.toNat := by
          rw [← hheadOff, ← htailOff]
          exact hshort
        split at htail <;> bv_omega
    · split <;> bv_omega
  · next hgt =>
    have hblock : queueBlock ≤ a.size - q.getValidSize a := BitVec.not_lt.mp hgt
    exact hcut queueBlock (husedSize ▸ hblock) (hcalm hblock)

/-- **`PVRRecTsQueuePollBuff`.** It succeeds exactly when the queue is not empty. -/
theorem Inv.pollBuff (h : Inv a q xs n) (hcalm : CalmPoll a queueBlock q) (old : BitVec 32 × BitVec 32) :
    ((q.pollBuff a queueBlock old).2 = true ↔ xs.length ≠ n) ∧
      Piece a xs n q (q.pollBuff a queueBlock old).1 := by
  have hhead := h.head
  have hlt := Nat.mod_lt n a.size_pos
  have hroom := a.room
  unfold Queue.pollBuff
  split
  · next hempty =>
    refine ⟨by simp [h.isEmpty.mp hempty], fun hne => absurd rfl hne, ?_, ?_⟩
    · simp
    · simp
      omega
  · next hempty =>
    have hne : xs.length ≠ n := fun heq => hempty (h.isEmpty.mpr heq)
    rw [if_neg (by bv_omega)]
    obtain ⟨hu, hi⟩ := h.pollSize hcalm
    exact ⟨by simp [hne], fun _ => rfl, hu, hi⟩

/-- The bytes of a piece are the next ones of the stream. -/
theorem Inv.bytesAt (h : Inv a q xs n) (hp : Piece a xs n q polled) {k : Nat}
    (hk : k ≤ polled.2.toNat) : bytesAt a q.mem polled.1 k = (xs.drop n).take k := by
  have hle := h.le
  have hused := h.used
  have hpu := hp.used
  have hpi := hp.inside
  apply List.ext_getElem
  · simp [TsQueue.bytesAt]
    omega
  · intro i hi hi'
    have hik : i < k := by simpa [TsQueue.bytesAt] using hi
    have haddr : polled.1 = q.head := hp.addr (by bv_omega)
    have hcell : (n + i) % a.size.toNat = n % a.size.toNat + i := by
      rw [← Nat.mod_add_mod]
      exact Nat.mod_eq_of_lt (by omega)
    have hbyte := h.latest (n + i) (by omega) (by omega)
    rw [hcell] at hbyte
    simp only [TsQueue.bytesAt, haddr, h.headOff, List.getElem_map, List.getElem_range, List.getElem_take,
      List.getElem_drop]
    exact hbyte

/-- A poll must not drain the queue while the flag says full. -/
def CalmHead (a : Area) (q : Queue) (dataLen : BitVec 32) : Prop :=
  dataLen = a.size - q.getValidSize a → q.flag = .empty

theorem Inv.pollHead (h : Inv a q xs n) (hp : Piece a xs n q polled)
    {dataLen : BitVec 32} (hk : dataLen ≤ polled.2) (hcalm : CalmHead a q dataLen) :
    Inv a (q.pollHead a dataLen) xs (n + dataLen.toNat) := by
  have hk' : dataLen.toNat ≤ polled.2.toNat := hk
  have hvalid := h.getValidSize
  have hheadOff := h.headOff
  have htailOff := h.tailOff
  have hle := h.le
  have hused := h.used
  have hpu := hp.used
  have hpi := hp.inside
  have hroom := a.room
  have hlt := Nat.mod_lt (n + dataLen.toNat) a.size_pos
  have hsum : (q.head - a.recData + dataLen).toNat = n % a.size.toNat + dataLen.toNat := by
    rw [BitVec.toNat_add, hheadOff]
    exact Nat.mod_eq_of_lt (by omega)
  have hmod : ((q.head - a.recData + dataLen) % a.size).toNat = (n + dataLen.toNat) % a.size.toNat := by
    rw [BitVec.toNat_umod, hsum, Nat.mod_add_mod]
  have hhead : (a.recData + (q.head - a.recData + dataLen) % a.size).toNat
      = a.recData.toNat + (n + dataLen.toNat) % a.size.toNat := by
    rw [BitVec.toNat_add, hmod]
    exact Nat.mod_eq_of_lt (by omega)
  have hend : a.recData + (q.head - a.recData + dataLen) % a.size ≠ a.recData + a.size := by
    intro heq
    have hnat := congrArg BitVec.toNat heq
    rw [hhead, a.end_toNat] at hnat
    omega
  have hnew : (q.pollHead a dataLen).head = a.recData + (q.head - a.recData + dataLen) % a.size := if_neg hend
  have hflag : (q.pollHead a dataLen).flag
      = if (q.pollHead a dataLen).head = q.tail - a.recData then .empty else q.flag := rfl
  refine ⟨by omega, by omega, ?_, h.tail, ?_, h.tailGolbal, h.latest, ?_, ?_⟩
  · rw [hnew, hhead]
  · show q.headGolbalOffset + dataLen.setWidth 64 = _
    rw [h.headGolbal]
    apply BitVec.eq_of_toNat_eq
    simp [BitVec.toNat_add]
  · intro hnil
    have heq : dataLen = a.size - q.getValidSize a := by
      apply BitVec.eq_of_toNat_eq
      rw [BitVec.toNat_sub_of_le (BitVec.le_def.mpr (by omega)), hvalid]
      omega
    rw [hflag, hcalm heq]
    exact ite_self _
  · intro hall
    -- nothing was taken from a full queue
    rw [hflag, if_neg, h.full (by omega)]
    intro heq
    have hnat := congrArg BitVec.toNat heq
    have htail := tail_eq h.le h.used a.size_pos
    rw [hnew, hhead, htailOff, show n + dataLen.toNat = n by omega] at hnat
    have := a.recData_pos
    have := Nat.mod_lt n a.size_pos
    split at htail <;> omega

/-! ## Runs -/

/-- The bytes of the pushes that succeeded. -/
def Event.pushedBytes : Event → List Byte
  | .pushed b => b.bytes
  | _ => []

/-- The bytes that left the queue. -/
def Event.takenBytes : Event → List Byte
  | .taken bytes => bytes
  | _ => []

/-- The calls that keep the flag right, and 32-bit sums that do not wrap around. -/
def Calm (a : Area) (queueBlock : BitVec 32) (s : Sys) : Input → Prop
  | .push b => CalmPush a s.queue b
  | .pollBuff => CalmPoll a queueBlock s.queue
  | .pollHead dataLen => CalmHead a s.queue dataLen

/-- The queue, and the piece that was polled. -/
structure SysInv (a : Area) (s : Sys) (es : List Event) : Prop where
  inv : Inv a s.queue (es.flatMap Event.pushedBytes) (es.flatMap Event.takenBytes).length
  piece : Piece a (es.flatMap Event.pushedBytes) (es.flatMap Event.takenBytes).length s.queue s.polled
  taken : es.flatMap Event.takenBytes
    = (es.flatMap Event.pushedBytes).take (es.flatMap Event.takenBytes).length

theorem Piece.none (q : Queue) (xs : List Byte) (n : Nat) : Piece a xs n q (0, 0) := by
  refine ⟨fun hne => absurd rfl hne, ?_, ?_⟩
  · simp
  · simpa using Nat.le_of_lt (Nat.mod_lt n a.size_pos)

theorem sysInv_init (a : Area) : SysInv a (init a) [] := ⟨inv_init a, Piece.none _ _ _, rfl⟩

theorem SysInv.step {fs : List Event} {i : Input} (h : SysInv a s es) (hcalm : Calm a queueBlock s i)
    (hstep : step a queueBlock s i = some (t, fs)) : SysInv a t (es ++ fs) := by
  cases i with
  | push b =>
    rcases h.inv.push_cases hcalm with ⟨hpush, -⟩ | ⟨hpush, hinv⟩
    · simp only [TsQueue.step, hpush, Option.some.injEq, Prod.mk.injEq] at hstep
      obtain ⟨rfl, rfl⟩ := hstep
      refine ⟨?_, ?_, ?_⟩
      · simpa [Event.pushedBytes, Event.takenBytes] using h.inv
      · simpa [Event.pushedBytes, Event.takenBytes] using h.piece
      · simpa [Event.pushedBytes, Event.takenBytes] using h.taken
    · simp only [TsQueue.step, hpush, Option.some.injEq, Prod.mk.injEq] at hstep
      obtain ⟨rfl, rfl⟩ := hstep
      have hle := h.inv.le
      refine ⟨?_, ?_, ?_⟩
      · simpa [Event.pushedBytes, Event.takenBytes] using hinv
      · -- the head stays, and there is more behind it
        have hp := h.piece
        refine ⟨hp.addr, ?_, ?_⟩
        · have hu := hp.used
          simp [Event.pushedBytes, Event.takenBytes] at hu ⊢
          omega
        · simpa [Event.takenBytes] using hp.inside
      · have ht := h.taken
        simp only [List.flatMap_append, List.flatMap_singleton, Event.pushedBytes, Event.takenBytes, List.append_nil,
          if_true] at ht ⊢
        rw [List.take_append_of_le_length hle]
        exact ht
  | pollBuff =>
    have hpoll := h.inv.pollBuff hcalm s.polled
    simp only [TsQueue.step, Option.some.injEq, Prod.mk.injEq] at hstep
    obtain ⟨rfl, rfl⟩ := hstep
    refine ⟨?_, ?_, ?_⟩
    · simpa [Event.pushedBytes, Event.takenBytes] using h.inv
    · simpa [Event.pushedBytes, Event.takenBytes] using hpoll.2
    · simpa [Event.pushedBytes, Event.takenBytes] using h.taken
  | pollHead dataLen =>
    simp only [TsQueue.step] at hstep
    split at hstep
    · next hk =>
      simp only [Option.some.injEq, Prod.mk.injEq] at hstep
      obtain ⟨rfl, rfl⟩ := hstep
      have hinv := h.inv.pollHead h.piece hk hcalm
      have hbytes := h.inv.bytesAt h.piece hk
      have hlen : ((es ++ [Event.taken (TsQueue.bytesAt a s.queue.mem s.polled.1 dataLen.toNat)]).flatMap
          Event.takenBytes).length = (es.flatMap Event.takenBytes).length + dataLen.toNat := by
        simp [Event.takenBytes, TsQueue.bytesAt]
      refine ⟨?_, Piece.none _ _ _, ?_⟩
      · rw [hlen]
        simpa [Event.pushedBytes] using hinv
      · rw [hlen]
        simp only [List.flatMap_append, List.flatMap_singleton, Event.pushedBytes, Event.takenBytes, List.append_nil]
        rw [hbytes, List.take_add]
        exact congrArg (· ++ _) h.taken
    · cases hstep

theorem run_inv {is : List Input}
    (hrun : Run (step a queueBlock) (Calm a queueBlock) (init a) is s es) : SysInv a s es := by
  refine hrun.inv_effects (fun _ s es => SysInv a s es) (sysInv_init a) ?_
  intro is s es i t fs hinv hcalm hstep
  exact hinv.step hcalm hstep

/-- The bytes in use. -/
def used (a : Area) (q : Queue) : BitVec 32 := a.size - q.getValidSize a

theorem Inv.used_toNat (h : Inv a q xs n) : (TsQueue.used a q).toNat = xs.length - n := by
  have hvalid := h.getValidSize
  have hu := h.used
  unfold TsQueue.used
  rw [BitVec.toNat_sub_of_le (BitVec.le_def.mpr (by omega)), hvalid]
  omega

/-- **The record TS queue.** In a run of calm calls the used size is the difference of the two global offsets; the
    bytes taken out are the bytes pushed, in their order, less those in use; a push that does not fit, and only that,
    is refused and changes nothing; and a poll finds the next bytes of a queue that is not empty. -/
theorem run_queue {is : List Input} {es : List Event}
    (hrun : Run (step a queueBlock) (Calm a queueBlock) (init a) is s es) :
    (used a s.queue).setWidth 64 = s.queue.tailGolbalOffset - s.queue.headGolbalOffset ∧
    (∃ rest, es.flatMap Event.pushedBytes = es.flatMap Event.takenBytes ++ rest ∧
      rest.length = (used a s.queue).toNat ∧
      (CalmPoll a queueBlock s.queue →
        ((s.queue.pollBuff a queueBlock s.polled).2 = true ↔ rest ≠ []) ∧
        (s.queue.pollBuff a queueBlock s.polled).1.2 ≤ used a s.queue ∧
        ∀ k ≤ (s.queue.pollBuff a queueBlock s.polled).1.2.toNat,
          bytesAt a s.queue.mem (s.queue.pollBuff a queueBlock s.polled).1.1 k = rest.take k)) ∧
    ∀ b, CalmPush a s.queue b →
      ((s.queue.push a b).2 = false ↔ b.len > s.queue.getValidSize a) ∧
      ((s.queue.push a b).2 = false → (s.queue.push a b).1 = s.queue) := by
  have hinv := run_inv hrun
  have hused := hinv.inv.used_toNat
  have hle := hinv.inv.le
  refine ⟨?_, ⟨(es.flatMap Event.pushedBytes).drop (es.flatMap Event.takenBytes).length, ?_, ?_, ?_⟩, ?_⟩
  · rw [hinv.inv.tailGolbal, hinv.inv.headGolbal]
    apply BitVec.eq_of_toNat_eq
    have hlt := (used a s.queue).isLt
    rw [BitVec.toNat_setWidth, hused, BitVec.toNat_sub, BitVec.toNat_ofNat, BitVec.toNat_ofNat]
    omega
  · conv_lhs => rw [← List.take_append_drop (es.flatMap Event.takenBytes).length (es.flatMap Event.pushedBytes)]
    rw [← hinv.taken]
  · rw [List.length_drop, hused]
  · intro hcalm
    obtain ⟨hok, hpiece⟩ := hinv.inv.pollBuff hcalm s.polled
    refine ⟨?_, ?_, ?_⟩
    · rw [hok, Ne, Ne, List.drop_eq_nil_iff]
      omega
    · show (s.queue.pollBuff a queueBlock s.polled).1.2.toNat ≤ (used a s.queue).toNat
      rw [hused]
      exact hpiece.used
    · intro k hk
      exact hinv.inv.bytesAt hpiece hk
  · intro b hcalm
    rw [hinv.inv.push hcalm]
    split
    · next hgt => exact ⟨iff_of_true rfl hgt, fun _ => rfl⟩
    · next hgt => exact ⟨iff_of_false Bool.noConfusion hgt, fun h => Bool.noConfusion h⟩

instance (a : Area) (queueBlock : BitVec 32) (s : Sys) : (i : Input) → Decidable (Calm a queueBlock s i)
  | .push _ | .pollBuff | .pollHead _ => by
    unfold Calm
    dsimp only [CalmPush, CalmPoll, CalmHead]
    infer_instance

/-- A queue of four bytes. -/
def fourBytes : Area := ⟨0x1000, 4, by decide, by decide, by decide⟩

/-- Two of three bytes leave the queue, and two more go around its end. -/
def aroundRun : List Input := [.push ⟨[1, 2, 3], by decide⟩, .pollBuff, .pollHead 2, .push ⟨[4, 5], by decide⟩]

/-- What was pushed leaves in order, also around the end of the area. -/
theorem run_queue_around :
    ∃ s es, Run (step fourBytes 2) (Calm fourBytes 2) (init fourBytes) aroundRun s es ∧
      es.flatMap Event.takenBytes = [1, 2] ∧
      (∃ rest, es.flatMap Event.pushedBytes = [1, 2] ++ rest ∧ rest.length = (used fourBytes s.queue).toNat) ∧
      (used fourBytes s.queue).setWidth 64 = s.queue.tailGolbalOffset - s.queue.headGolbalOffset := by
  refine exists_run_imp (fun _ es => es.flatMap Event.takenBytes = [1, 2]) (by decide) fun _ es hrun htest => ?_
  have htaken : es.flatMap Event.takenBytes = [1, 2] := htest
  obtain ⟨hused, ⟨rest, hall, hrest, -⟩, -⟩ := run_queue hrun
  rw [htaken] at hall
  exact ⟨htaken, ⟨rest, hall, hrest⟩, hused⟩

/-- **A push that fills the queue.** The queue looks empty: its used size is 0 with four bytes in it, a poll fails, and
    the next push is taken over the bytes that nobody has read. -/
theorem full_queue_reads_empty :
    ∃ s es, Run (step fourBytes 2) always (init fourBytes) [.push ⟨[1, 2, 3, 4], by decide⟩] s es ∧
      es.flatMap Event.pushedBytes = [1, 2, 3, 4] ∧ es.flatMap Event.takenBytes = [] ∧
      (used fourBytes s.queue).setWidth 64 ≠ s.queue.tailGolbalOffset - s.queue.headGolbalOffset ∧
      (s.queue.pollBuff fourBytes 2 s.polled).2 = false ∧
      (s.queue.push fourBytes ⟨[5, 6, 7, 8], by decide⟩).2 = true := by
  exact exists_run_of_decide (by decide)

end HiSTB.Pvr.TsQueue
