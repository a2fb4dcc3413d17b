import HiSTB.Lib.Ring

/-!
# `Lib.TsPacket` — packets of a transport stream

A packet of ISO 13818-1 as a parser reads it: a header of four bytes, an adaptation field if the header announces one,
and the payload to the end of the 188 bytes. The field begins with its length; if it is not empty, its first byte is the
flags, and the items that the flags announce follow in their order.

* `payload`, `items` — what the parser finds;
* `payload_of_payloadStart` and its like — a payload by the place it starts at;
* `itemsFrom_eq_iff` — the items are the same exactly if their bytes are;
* `subset_itemsFrom_iff` — of the same announcement, all items are there exactly if they are the same.
-/

namespace HiSTB.Lib.TsPacket

/-- The bytes from the head of the packet on. -/
abbrev Packet := Nat → BitVec 8

variable (p q : Packet)

/-- `payload_unit_start_indicator`. -/
def unitStart : Bool := (p 1).getLsbD 6

def pid : BitVec 13 := (p 1).setWidth 5 ++ p 2

/-- The upper bit of `adaptation_field_control`. -/
def hasAdaptation : Bool := (p 3).getLsbD 5

/-- The lower bit of `adaptation_field_control`. -/
def hasPayload : Bool := (p 3).getLsbD 4

/-- Where the payload starts; a packet without one has none of its 188 bytes. -/
def payloadStart : Nat :=
  if hasPayload p then (if hasAdaptation p then 5 + (p 4).toNat else 4) else 188

def payload : List (BitVec 8) := readAt p (payloadStart p) (188 - payloadStart p)

/-- An adaptation field ends in the packet. -/
def FieldFits : Prop := hasAdaptation p = true → 5 + (p 4).toNat ≤ 188

/-- The optional items of an adaptation field. -/
inductive Item
  | pcr
  | opcr
  | spliceCountdown
  | privateData
  | extension
  deriving DecidableEq

/-- In the order they stand in. -/
def Item.all : List Item := [.pcr, .opcr, .spliceCountdown, .privateData, .extension]

/-- The bit of the flags. -/
def Item.flag : Item → Nat
  | .pcr => 4
  | .opcr => 3
  | .spliceCountdown => 2
  | .privateData => 1
  | .extension => 0

/-- How many bytes an item has that starts at `pos`. -/
def Item.size (pos : Nat) : Item → Nat
  | .pcr | .opcr => 6
  | .spliceCountdown => 1
  | .privateData | .extension => 1 + (p pos).toNat

/-- The items that the flags announce. -/
def announced : List Item := Item.all.filter fun item => (p 5).getLsbD item.flag

/-- These items, one behind the other. -/
def itemsFrom : List Item → Nat → List (Item × List (BitVec 8))
  | [], _ => []
  | item :: rest, pos => (item, readAt p pos (item.size p pos)) :: itemsFrom rest (pos + item.size p pos)

/-- Where the last of them ends. -/
def itemsEnd : List Item → Nat → Nat
  | [], pos => pos
  | item :: rest, pos => itemsEnd rest (pos + item.size p pos)

/-- The items that a parser finds, with their bytes. -/
def items : List (Item × List (BitVec 8)) :=
  if hasAdaptation p = true ∧ p 4 ≠ 0 then itemsFrom p (announced p) 6 else []

variable {p q} {ks : List Item} {pos : Nat}

/-! ## Payload -/

theorem length_payload : (payload p).length = 188 - payloadStart p := length_readAt _ _ _

/-- The payload is behind the field. -/
theorem payloadStart_both (hp : hasPayload p = true) (ha : hasAdaptation p = true) :
    payloadStart p = 5 + (p 4).toNat := by
  rw [payloadStart, if_pos hp, if_pos ha]

/-- Without a field the payload is behind the header. -/
theorem payloadStart_only (hp : hasPayload p = true) (ha : hasAdaptation p = false) : payloadStart p = 4 := by
  rw [payloadStart, if_pos hp, ha]
  rfl

theorem payloadStart_none (hp : hasPayload p = false) : payloadStart p = 188 := by
  rw [payloadStart, hp]
  rfl

theorem payloadStart_ge : 4 ≤ payloadStart p := by
  unfold payloadStart
  split
  · split <;> omega
  · omega

theorem payload_of_payloadStart (h : payloadStart p = pos) : payload p = readAt p pos (188 - pos) := by
  rw [payload, h]

/-- A payload is empty if the field goes to the end of the packet. -/
theorem payload_eq_nil_iff : payload p = [] ↔ 188 ≤ payloadStart p := by
  rw [← List.length_eq_zero_iff, length_payload]
  omega

/-! ## Items -/

theorem announced_nodup : (announced p).Nodup := List.Pairwise.filter _ (by decide)

/-- The announcement is the byte of the flags. -/
theorem announced_congr (h : q 5 = p 5) : announced q = announced p := by
  rw [announced, announced, h]

theorem announced_of_zero (h : p 5 = 0) : announced p = [] := by
  rw [announced, h]
  rfl

/-- An empty field has no flags, and so no items. -/
theorem items_of_empty (h : p 4 = 0) : items p = [] := if_neg fun hne => hne.2 h

theorem items_of_field (ha : hasAdaptation p = true) (h : p 4 ≠ 0) : items p = itemsFrom p (announced p) 6 :=
  if_pos ⟨ha, h⟩

theorem Item.size_pos (item : Item) : 0 < item.size p pos := by
  cases item <;> simp only [size] <;> omega

theorem Item.size_congr (item : Item) (h : q pos = p pos) : item.size q pos = item.size p pos := by
  cases item <;> simp [size, h]

theorem le_itemsEnd : pos ≤ itemsEnd p ks pos := by
  induction ks generalizing pos with
  | nil => exact Nat.le_refl pos
  | cons item ks ih => exact Nat.le_trans (Nat.le_add_right _ _) ih

/-- The items found are those announced. -/
theorem map_fst_itemsFrom : (itemsFrom p ks pos).map Prod.fst = ks := by
  induction ks generalizing pos with
  | nil => rfl
  | cons item ks ih => rw [itemsFrom, List.map_cons, ih]

theorem itemsFrom_eq_nil_iff : itemsFrom p ks pos = [] ↔ ks = [] := by
  cases ks with
  | nil => exact iff_of_true rfl rfl
  | cons item ks => exact iff_of_false (List.cons_ne_nil _ _) (List.cons_ne_nil _ _)

/-- The items are the same exactly if all their bytes are. -/
theorem itemsFrom_eq_iff :
    itemsFrom q ks pos = itemsFrom p ks pos ↔ ∀ i, pos ≤ i → i < itemsEnd p ks pos → q i = p i := by
  induction ks generalizing pos with
  | nil => exact iff_of_true rfl (fun i hge hlt => absurd hlt (Nat.not_lt.mpr hge))
  | cons item ks ih =>
    have hpos : 0 < item.size p pos := item.size_pos
    rw [itemsFrom, itemsFrom, itemsEnd]
    constructor
    · intro h i hge hlt
      obtain ⟨hhead, htail⟩ := List.cons_eq_cons.mp h
      have hbytes := (Prod.mk.inj hhead).2
      have hsize : item.size q pos = item.size p pos := by
        have := congrArg List.length hbytes
        rwa [length_readAt, length_readAt] at this
      rw [hsize] at hbytes htail
      by_cases hin : i < pos + item.size p pos
      · have hcell := readAt_eq_iff.mp hbytes (i - pos) (by omega)
        rwa [Nat.add_sub_cancel' hge] at hcell
      · exact ih.mp htail i (Nat.not_lt.mp hin) hlt
    · intro h
      have hend : pos + item.size p pos ≤ itemsEnd p ks (pos + item.size p pos) := le_itemsEnd
      have hsize : item.size q pos = item.size p pos := item.size_congr (h pos (Nat.le_refl pos) (by omega))
      rw [hsize, readAt_eq_iff.mpr (fun i hi => h (pos + i) (Nat.le_add_right _ _) (by omega)),
        ih.mpr (fun i hge hlt => h i (by omega) hlt)]

/-- Two lists of pairs over the same different keys: one in the other is one the other. -/
theorem eq_of_subset_of_keys {κ α : Type*} {xs ys : List (κ × α)} (hkeys : xs.map Prod.fst = ys.map Prod.fst)
    (hnodup : (xs.map Prod.fst).Nodup) (h : ∀ x ∈ xs, x ∈ ys) : xs = ys := by
  induction xs generalizing ys with
  | nil =>
    rw [List.map_nil, eq_comm, List.map_eq_nil_iff] at hkeys
    exact hkeys.symm
  | cons x xs ih =>
    cases ys with
    | nil => exact absurd (h x List.mem_cons_self) List.not_mem_nil
    | cons y ys =>
      rw [List.map_cons, List.map_cons, List.cons_eq_cons] at hkeys
      obtain ⟨hkey, hkeys⟩ := hkeys
      rw [List.map_cons, List.nodup_cons] at hnodup
      obtain ⟨hfresh, hnodup⟩ := hnodup
      have hxy : x = y := by
        rcases List.mem_cons.mp (h x List.mem_cons_self) with heq | hmem
        · exact heq
        · exact absurd (hkeys ▸ List.mem_map_of_mem hmem) hfresh
      subst hxy
      have htail : xs = ys := by
        refine ih hkeys hnodup (fun z hz => ?_)
        rcases List.mem_cons.mp (h z (List.mem_cons_of_mem x hz)) with rfl | hmem
        · exact absurd (List.mem_map_of_mem hz) hfresh
        · exact hmem
      rw [htail]

/-- Of one announcement, each item is there exactly if all their bytes are the same. -/
theorem subset_itemsFrom_iff (hnodup : ks.Nodup) :
    (∀ x ∈ itemsFrom q ks pos, x ∈ itemsFrom p ks pos) ↔ ∀ i, pos ≤ i → i < itemsEnd p ks pos → q i = p i := by
  rw [← itemsFrom_eq_iff]
  constructor
  · intro h
    refine eq_of_subset_of_keys ?_ ?_ h
    · rw [map_fst_itemsFrom, map_fst_itemsFrom]
    · rw [map_fst_itemsFrom]
      exact hnodup
  · intro h
    rw [h]
    exact fun _ hx => hx

end HiSTB.Lib.TsPacket
