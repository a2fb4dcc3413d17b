import HiSTB.Demux.Release
import HiSTB.Demux.Correctness.Section

/-!
# `Demux.Correctness.Release` — when a release keeps track of the blocks

A message completes its block, or the one before it. A block that hands out nothing is known to a release only by the
error list, and so is a block whose messages were all taken for the end of the block before: there is at most one of
these, and all blocks before it are listed.

* `Parsed`, `parseSection_parsed` — what a block does to the error list, whatever it holds;
* `Fit`, `Grow` — the hardware goes on, and its blocks stay apart;
* `Track`, `Listed` — the messages that the caller has, and the error list; `readSec_track`, `walk_track` — the calls
  keep them;
* `run_release` — under `Calm`, each block is returned once, after its messages, and the pool is not wiped;
* `four_resets` — what happens without.
-/

namespace HiSTB.Demux
variable {errs : ErrList} {i x k pos write w0 relNum fqWrite : Nat} {g : Nat → Hw}
    {between : List (List HwEvent)} {is : List Input}

namespace Section

/-! ## Parsing a block, whatever it holds -/

/-- A part of a block that is handed out. -/
structure Piece where
  off : Nat
  len : Nat

def Piece.msg (a : BitVec 32) (u : Piece) : Msg := ⟨a + BitVec.ofNat 32 u.off, u.len⟩

/-- What parsing the block `a` up to `e` comes to: it hands out the pieces `us`, and it changes the error list for `a`
    only. The last two fields are about a block that is read from its start and hands out nothing. -/
structure Parsed (cfg : Config) (a : BitVec 32) (e : Nat) (p q : Parse) (us : List Piece) : Prop where
  msgs : q.msgs = p.msgs ++ us.map (Piece.msg a)
  le : p.offset ≤ q.offset
  sorted : us.Pairwise (fun u v => u.off + u.len ≤ v.off)
  inside : ∀ u ∈ us, p.offset ≤ u.off ∧ u.off < e ∧ u.off + u.len ≤ e + cfg.tsPacketLen ∧ u.off + u.len ≤ q.offset
  nodup : p.errs.Nodup → q.errs.Nodup
  others : ∀ x, x ≠ a → (x ∈ q.errs ↔ x ∈ p.errs)
  length : (q.errs.erase a).length ≤ (p.errs.erase a).length
  keeps : us = [] → a ∈ p.errs → a ∈ q.errs
  adds : us = [] → p.offset = 0 → p.errs.length < cfg.maxErrListNum → p.offset < q.offset → a ∈ q.errs

variable {cfg : Config} {a bufAddr : BitVec 32} {e acqNum : Nat} {p p' q : Parse} {us vs : List Piece} {buf : List Byte}

theorem Parsed.refl (cfg : Config) (a : BitVec 32) (e : Nat) (p : Parse) : Parsed cfg a e p p [] where
  msgs := (List.append_nil _).symm
  le := Nat.le_refl _
  sorted := List.Pairwise.nil
  inside := fun _ hu => absurd hu List.not_mem_nil
  nodup := id
  others := fun _ _ => Iff.rfl
  length := Nat.le_refl _
  keeps := fun _ h => h
  adds := fun _ _ _ h => absurd h (Nat.lt_irrefl _)

theorem Parsed.trans (h : Parsed cfg a e p p' us) (h' : Parsed cfg a e p' q vs) (hlt : p.offset < p'.offset) :
    Parsed cfg a e p q (us ++ vs) where
  msgs := by rw [h'.msgs, h.msgs, List.map_append, List.append_assoc]
  le := Nat.le_trans h.le h'.le
  sorted := by
    refine List.pairwise_append.mpr ⟨h.sorted, h'.sorted, fun u hu v hv => ?_⟩
    exact Nat.le_trans (h.inside u hu).2.2.2 (h'.inside v hv).1
  inside := fun u hu => by
    rcases List.mem_append.mp hu with hu | hu
    · obtain ⟨h1, h2, h3, h4⟩ := h.inside u hu
      exact ⟨h1, h2, h3, Nat.le_trans h4 h'.le⟩
    · obtain ⟨h1, h2, h3, h4⟩ := h'.inside u hu
      exact ⟨Nat.le_trans h.le h1, h2, h3, h4⟩
  nodup := fun hp => h'.nodup (h.nodup hp)
  others := fun x hx => (h'.others x hx).trans (h.others x hx)
  length := Nat.le_trans h'.length h.length
  keeps := fun hnil ha => by
    obtain ⟨hus, hvs⟩ := List.append_eq_nil_iff.mp hnil
    exact h'.keeps hvs (h.keeps hus ha)
  adds := fun hnil h0 hroom _ => by
    obtain ⟨hus, hvs⟩ := List.append_eq_nil_iff.mp hnil
    exact h'.keeps hvs (h.adds hus h0 hroom hlt)

theorem Parsed.length_le (hp : Parsed cfg a e p q us) : q.errs.length ≤ p.errs.length + 1 := by
  have h1 := hp.length
  have h2 : q.errs.length ≤ (q.errs.erase a).length + 1 := by
    by_cases hmem : a ∈ q.errs
    · rw [List.length_erase_of_mem hmem]
      omega
    · rw [List.erase_of_not_mem hmem]
      exact Nat.le_succ _
  have h3 : (p.errs.erase a).length ≤ p.errs.length := List.erase_sublist.length_le
  omega

/-! ### The error list -/

theorem mem_add_of_ne {x : BitVec 32} (hx : x ≠ a) : x ∈ errs.add cfg a ↔ x ∈ errs := by
  unfold ErrList.add
  split_ifs with hmem hroom
  · rfl
  · rw [List.mem_cons]
    exact ⟨fun h => h.resolve_left hx, Or.inr⟩
  · rfl

theorem mem_add_of_mem (h : a ∈ errs) : a ∈ errs.add cfg a := by
  rw [ErrList.add, if_pos h]
  exact h

theorem mem_add_of_room (h : errs.length < cfg.maxErrListNum) : a ∈ errs.add cfg a := by
  unfold ErrList.add
  split_ifs with hmem
  · exact hmem
  · exact List.mem_cons_self

theorem nodup_add (h : errs.Nodup) : (errs.add cfg a).Nodup := by
  unfold ErrList.add
  split_ifs with hmem hroom
  · exact h
  · exact List.nodup_cons.mpr ⟨hmem, h⟩
  · exact h

theorem length_erase_add (errs : ErrList) : ((errs.add cfg a).erase a).length = (errs.erase a).length := by
  unfold ErrList.add
  split_ifs with hmem hroom
  · rfl
  · rw [List.erase_cons_head, List.erase_of_not_mem hmem]
  · rfl

/-! ### One round -/

/-- A unit is passed over. -/
theorem Parsed.skip (errs : ErrList) (n : Nat) (herrs : errs = p.errs.add cfg a ∨ errs = p.errs ∧ p.offset ≠ 0) :
    Parsed cfg a e p { p with errs := errs, offset := p.offset + n } [] where
  msgs := (List.append_nil _).symm
  le := Nat.le_add_right _ _
  sorted := List.Pairwise.nil
  inside := fun _ hu => absurd hu List.not_mem_nil
  nodup := fun h => by
    rcases herrs with rfl | ⟨rfl, -⟩
    · exact nodup_add h
    · exact h
  others := fun x hx => by
    rcases herrs with rfl | ⟨rfl, -⟩
    · exact mem_add_of_ne hx
    · exact Iff.rfl
  length := by
    rcases herrs with rfl | ⟨rfl, -⟩
    · exact Nat.le_of_eq (length_erase_add _)
    · exact Nat.le_refl _
  keeps := fun _ ha => by
    rcases herrs with rfl | ⟨rfl, -⟩
    · exact mem_add_of_mem ha
    · exact ha
  adds := fun _ h0 hroom _ => by
    rcases herrs with rfl | ⟨-, hne⟩
    · exact mem_add_of_room hroom
    · exact absurd h0 hne

/-- A unit is handed out. -/
theorem Parsed.keep {len : Nat} (hlt : p.offset < e) (hlen : p.offset + len ≤ e + cfg.tsPacketLen) :
    Parsed cfg a e p
      { msgs := p.msgs ++ [⟨a + BitVec.ofNat 32 p.offset, len⟩], offset := p.offset + len, errs := p.errs.erase a }
      [⟨p.offset, len⟩] where
  msgs := rfl
  le := Nat.le_add_right _ _
  sorted := List.pairwise_singleton _ _
  inside := fun u hu => by
    rw [List.mem_singleton.mp hu]
    exact ⟨Nat.le_refl _, hlt, hlen, Nat.le_refl _⟩
  nodup := fun h => h.erase a
  others := fun x hx => List.mem_erase_of_ne hx
  length := List.erase_sublist.length_le
  keeps := fun h => absurd h (List.cons_ne_nil _ _)
  adds := fun h => absurd h (List.cons_ne_nil _ _)

/-- A unit is not empty, and it is no longer than what is left. -/
theorem unitLength_le {o : Nat} (ho : o < e) :
    o + unitLength cfg bufAddr buf e o ≤ e + cfg.tsPacketLen := by
  unfold unitLength
  cases cfg.chanType with
  | post =>
    dsimp only
    omega
  | sec =>
    unfold getSectionLength
    dsimp only
    split_ifs <;> omega

/-- What a round finds. -/
theorem verdict_cases (cfg : Config) (bufAddr : BitVec 32) (buf : List Byte) {o : Nat} (ho : o < e) :
    verdict cfg bufAddr buf e o = .noSync ∨ verdict cfg bufAddr buf e o = .bad ∨
      ∃ len, 0 < len ∧ o + len ≤ e + cfg.tsPacketLen ∧
        (verdict cfg bufAddr buf e o = .short len ∨ verdict cfg bufAddr buf e o = .filtered len ∨
          verdict cfg bufAddr buf e o = .keep len) := by
  have hle := @unitLength_le cfg bufAddr e buf o ho
  unfold verdict
  dsimp only
  generalize unitLength cfg bufAddr buf e o = len at hle ⊢
  split_ifs with hsync hbad hshort hfilter
  · exact Or.inl rfl
  · exact Or.inr (Or.inl rfl)
  · exact Or.inr (Or.inr ⟨len, by omega, hle, Or.inl rfl⟩)
  · exact Or.inr (Or.inr ⟨len, by omega, hle, Or.inr (Or.inl rfl)⟩)
  · exact Or.inr (Or.inr ⟨len, by omega, hle, Or.inr (Or.inr rfl)⟩)

/-- **One round moves on**, unless there are enough messages. -/
theorem parseLoop_succ (a bufAddr : BitVec 32) (buf : List Byte) (fuel : Nat) (hlt : p.offset < e)
    (hfew : p.msgs.length < acqNum) :
    ∃ p' us, Parsed cfg a e p p' us ∧ p.offset < p'.offset ∧ parseLoop cfg a bufAddr buf e acqNum (fuel + 1) p =
        if p'.offset ≥ e then p' else parseLoop cfg a bufAddr buf e acqNum fuel p' := by
  rw [parseLoop, if_neg (by omega)]
  rcases verdict_cases cfg bufAddr buf hlt with hv | hv | ⟨len, hpos, hlen, hv | hv | hv⟩
  · rw [hv]
    exact ⟨_, [], .skip _ _ (Or.inl rfl), Nat.lt_add_of_pos_right cfg.tsPacketLen_pos, rfl⟩
  · rw [hv]
    have hoff : p.offset + (e - p.offset) = e := by omega
    refine ⟨_, [], .skip _ (e - p.offset) (Or.inl rfl), ?_, ?_⟩
    · show p.offset < p.offset + (e - p.offset)
      omega
    · rw [hoff, if_pos (Nat.le_refl _)]
  · rw [hv]
    refine ⟨_, [], .skip (if p.offset = 0 then p.errs.add cfg a else p.errs) len ?_, ?_, rfl⟩
    · split_ifs with h0
      · exact Or.inl rfl
      · exact Or.inr ⟨rfl, h0⟩
    · exact Nat.lt_add_of_pos_right hpos
  · rw [hv]
    exact ⟨_, [], .skip _ _ (Or.inl rfl), Nat.lt_add_of_pos_right hpos, rfl⟩
  · rw [hv]
    exact ⟨_, _, .keep hlt hlen, Nat.lt_add_of_pos_right hpos, rfl⟩

theorem parseLoop_parsed (fuel : Nat) (hlt : p.offset < e) (hfuel : e ≤ p.offset + fuel) :
    ∃ us, Parsed cfg a e p (parseLoop cfg a bufAddr buf e acqNum fuel p) us ∧
      (e ≤ (parseLoop cfg a bufAddr buf e acqNum fuel p).offset ∨
        acqNum ≤ (parseLoop cfg a bufAddr buf e acqNum fuel p).msgs.length) := by
  induction fuel generalizing p with
  | zero => omega
  | succ fuel ih =>
    by_cases hfew : p.msgs.length < acqNum
    · obtain ⟨p', us, hp, hmove, heq⟩ := @parseLoop_succ cfg _ _ _ a bufAddr buf fuel hlt hfew
      rw [heq]
      by_cases hend : p'.offset ≥ e
      · rw [if_pos hend]
        exact ⟨us, hp, Or.inl hend⟩
      · rw [if_neg hend]
        obtain ⟨vs, hvs, hdone⟩ := ih (Nat.lt_of_not_ge hend) (by omega)
        exact ⟨us ++ vs, hp.trans hvs hmove, hdone⟩
    · have hstop : parseLoop cfg a bufAddr buf e acqNum (fuel + 1) p = p := by
        unfold parseLoop
        exact if_pos (Nat.le_of_not_lt hfew)
      rw [hstop]
      exact ⟨[], .refl cfg a e p, Or.inr (Nat.le_of_not_lt hfew)⟩

/-- **Parsing a block.** It goes on to the end, or until there are enough messages. -/
theorem parseSection_parsed (cfg : Config) (acqNum : Nat) (a : BitVec 32) (buf : List Byte) (e : Nat) (p : Parse) :
    ∃ us, Parsed cfg a e p (parseSection cfg acqNum a buf e p) us ∧
      (e ≤ (parseSection cfg acqNum a buf e p).offset ∨ acqNum ≤ (parseSection cfg acqNum a buf e p).msgs.length) := by
  unfold parseSection
  by_cases hend : p.offset ≥ e
  · rw [if_pos hend]
    exact ⟨[], .refl cfg a e p, Or.inl hend⟩
  · rw [if_neg hend]
    exact parseLoop_parsed e (Nat.lt_of_not_ge hend) (Nat.le_add_left _ _)

/-! ## The hardware goes on -/

/-- The block at a position. -/
def Hw.blk (h : Hw) (j : Nat) : Block := h.blocks.getD j noBlock

def Hw.addr (h : Hw) (j : Nat) : BitVec 32 := (h.blk j).startAddr

def Hw.len (h : Hw) (j : Nat) : Nat := (h.blk j).data.length

variable {h h' : Hw} {j : Nat}

theorem blk_closed (hj : j < h.closed.length) : h.blk j = h.closed.getD j noBlock := getD_closed hj _

theorem blk_cur (hv : h.valid = true) : h.blk h.closed.length = h.cur := by
  rw [Hw.blk, blocks_valid hv, getD_tail]
  rfl

theorem length_blocks (h : Hw) : h.blocks.length = h.closed.length + h.valid.toNat := by
  rw [Hw.blocks, List.length_append]
  cases h.valid <;> rfl

theorem lt_blocks_of_len (hj : 0 < h.len j) : j < h.blocks.length := by
  by_contra hge
  have hnone : h.blk j = noBlock := by
    rw [Hw.blk, List.getD_eq_getElem?_getD, List.getElem?_eq_none (Nat.le_of_not_lt hge), Option.getD_none]
  rw [Hw.len, hnone] at hj
  exact Nat.lt_irrefl _ hj

/-- The hardware goes on: the blocks of the queue stay, the current one grows, and others come behind. -/
structure Grow (h h' : Hw) : Prop where
  closed : h.closed.length ≤ h'.closed.length
  blocks : h.blocks.length ≤ h'.blocks.length
  addr : ∀ j, j < h.blocks.length → h'.addr j = h.addr j
  len : ∀ j, j < h.blocks.length → h.len j ≤ h'.len j
  stay : ∀ j, j < h.closed.length → h'.blk j = h.blk j

theorem Grow.refl (h : Hw) : Grow h h :=
  ⟨Nat.le_refl _, Nat.le_refl _, fun _ _ => rfl, fun _ _ => Nat.le_refl _, fun _ _ => rfl⟩

theorem Grow.trans {h'' : Hw} (hg : Grow h h') (hg' : Grow h' h'') : Grow h h'' where
  closed := Nat.le_trans hg.closed hg'.closed
  blocks := Nat.le_trans hg.blocks hg'.blocks
  addr := fun j hj => (hg'.addr j (Nat.lt_of_lt_of_le hj hg.blocks)).trans (hg.addr j hj)
  len := fun j hj => Nat.le_trans (hg.len j hj) (hg'.len j (Nat.lt_of_lt_of_le hj hg.blocks))
  stay := fun j hj => (hg'.stay j (Nat.lt_of_lt_of_le hj hg.closed)).trans (hg.stay j hj)

/-- The blocks there are stay as they are. -/
theorem Grow.of_blk (hcl : h.closed.length ≤ h'.closed.length) (hlen : h.blocks.length ≤ h'.blocks.length)
    (hblk : ∀ j, j < h.blocks.length → h'.blk j = h.blk j) : Grow h h' where
  closed := hcl
  blocks := hlen
  addr := fun j hj => by rw [Hw.addr, Hw.addr, hblk j hj]
  len := fun j hj => Nat.le_of_eq (by rw [Hw.len, Hw.len, hblk j hj])
  stay := fun j hj => hblk j (Nat.lt_of_lt_of_le hj (closed_le_blocks h))

theorem grow_next (h : Hw) (e : HwEvent) : Grow h (h.next e) := by
  rcases next_cases h e with heq | ⟨a, -, hv, heq⟩ | ⟨sec, -, hv, -, heq⟩ | ⟨-, hv, heq⟩
  · rw [heq]
    exact Grow.refl h
  · rw [heq]
    have hlen : h.blocks.length = h.closed.length := by rw [blocks_invalid hv]
    refine Grow.of_blk (Nat.le_refl _) ?_ (fun j hj => ?_)
    · rw [hlen]
      exact closed_le_blocks ⟨h.closed, true, ⟨a, []⟩⟩
    · rw [hlen] at hj
      rw [blk_closed hj]
      exact blk_closed (h := ⟨h.closed, true, ⟨a, []⟩⟩) hj
  · rw [heq]
    have hstay : ∀ j, j < h.closed.length → Hw.blk ⟨h.closed, true, h.cur.append sec⟩ j = h.blk j := fun j hj => by
      rw [blk_closed hj]
      exact blk_closed (h := ⟨h.closed, true, h.cur.append sec⟩) hj
    have hcur : Hw.blk ⟨h.closed, true, h.cur.append sec⟩ h.closed.length = h.cur.append sec := blk_cur rfl
    have hcases : ∀ j, j < h.blocks.length → j < h.closed.length ∨ j = h.closed.length := fun j hj => by
      rw [length_blocks, hv, Bool.toNat_true] at hj
      omega
    refine ⟨Nat.le_refl _, ?_, fun j hj => ?_, fun j hj => ?_, hstay⟩
    · apply Nat.le_of_eq
      rw [length_blocks, length_blocks, hv]
    · rcases hcases j hj with hj | rfl
      · rw [Hw.addr, Hw.addr, hstay j hj]
      · rw [Hw.addr, Hw.addr, hcur, blk_cur hv]
        rfl
    · rcases hcases j hj with hj | rfl
      · exact Nat.le_of_eq (by rw [Hw.len, Hw.len, hstay j hj])
      · rw [Hw.len, Hw.len, hcur, blk_cur hv]
        exact data_length_le (List.prefix_append _ _)
  · rw [heq]
    have hblocks : Hw.blocks ⟨h.closed ++ [h.cur], false, h.cur⟩ = h.blocks := by
      rw [blocks_invalid rfl, blocks_valid hv]
    refine Grow.of_blk ?_ (Nat.le_of_eq (by rw [hblocks])) (fun j _ => by rw [Hw.blk, Hw.blk, hblocks])
    rw [List.length_append]
    exact Nat.le_add_right _ _

/-- Where no block of the queue is added, the current one stays. -/
theorem Grow.valid (hg : Grow h h') (hv : h.valid = true) (hcl : h'.closed.length = h.closed.length) :
    h'.valid = true := by
  have hlen := hg.blocks
  rw [length_blocks, length_blocks, hv, hcl] at hlen
  cases hv' : h'.valid with
  | true => rfl
  | false =>
    rw [hv', Bool.toNat_true, Bool.toNat_false] at hlen
    omega

end Section

namespace Release

open Section

variable {cfg : Config} {h h' : Hw} {r : Nat} {c : Chan}

/-! ## The blocks of the hardware -/

/-- The blocks from the read pointer on are different blocks of the pool. -/
structure Fit (cfg : Config) (r : Nat) (h : Hw) : Prop where
  read : r ≤ h.closed.length
  pool : ∀ j, j < h.blocks.length → h.addr j ∈ cfg.pool
  short : ∀ j, j < h.blocks.length → h.len j ≤ cfg.blockSize
  full : ∀ j, j < h.closed.length → 0 < h.len j
  apart : ∀ i j, r ≤ i → i < j → j < h.blocks.length → h.addr i ≠ h.addr j

theorem mem_inUse (hr : r ≤ i) (hi : i < h.blocks.length) : h.blk i ∈ inUse r h := by
  have hget : h.blk i = h.blocks[i] := by
    rw [Hw.blk, List.getD_eq_getElem?_getD, List.getElem?_eq_getElem hi, Option.getD_some]
  have hdrop : (h.blocks.drop r)[i - r]? = some h.blocks[i] := by
    rw [List.getElem?_drop, Nat.add_sub_cancel' hr, List.getElem?_eq_getElem hi]
  rw [hget]
  exact List.mem_of_getElem? hdrop

/-- The block that comes last, where it is not there before. -/
theorem Fit.append (hf : Fit cfg r h) (hg : Grow h h') (hcl : h'.closed.length = h.closed.length)
    (hlen : h'.blocks.length = h.closed.length + 1) (hpool : h'.addr h.closed.length ∈ cfg.pool)
    (hshort : h'.len h.closed.length ≤ cfg.blockSize)
    (hnew : ∀ i, r ≤ i → i < h.closed.length → h.addr i ≠ h'.addr h.closed.length) : Fit cfg r h' := by
  have hcases : ∀ j, j < h'.blocks.length → j < h.closed.length ∨ j = h.closed.length := fun j hj => by omega
  have hold : ∀ j, j < h.closed.length → j < h.blocks.length := fun j hj => Nat.lt_of_lt_of_le hj (closed_le_blocks h)
  refine ⟨hcl ▸ hf.read, fun j hj => ?_, fun j hj => ?_, fun j hj => ?_, fun i j hi hij hj => ?_⟩
  · rcases hcases j hj with hj | rfl
    · rw [hg.addr j (hold j hj)]
      exact hf.pool j (hold j hj)
    · exact hpool
  · rcases hcases j hj with hj | rfl
    · rw [Hw.len, hg.stay j hj]
      exact hf.short j (hold j hj)
    · exact hshort
  · rw [hcl] at hj
    exact Nat.lt_of_lt_of_le (hf.full j hj) (hg.len j (hold j hj))
  · rcases hcases j hj with hj | rfl
    · rw [hg.addr i (hold i (Nat.lt_trans hij hj)), hg.addr j (hold j hj)]
      exact hf.apart i j hi hij (hold j hj)
    · rw [hg.addr i (hold i hij)]
      exact hnew i hi hij

/-- **What the hardware can do keeps its blocks apart.** -/
theorem fit_next {e : HwEvent} (hf : Fit cfg r h) (hcan : can cfg r h e) : Fit cfg r (h.next e) := by
  have hg := grow_next h e
  rcases next_cases h e with heq | ⟨a, rfl, hv, heq⟩ | ⟨sec, rfl, hv, -, heq⟩ | ⟨rfl, hv, heq⟩
  · rw [heq]
    exact hf
  · rw [heq] at hg ⊢
    have hcur : Hw.blk ⟨h.closed, true, ⟨a, []⟩⟩ h.closed.length = ⟨a, []⟩ := blk_cur rfl
    refine hf.append hg rfl (length_blocks _) ?_ ?_ (fun i hi hlt heqa => ?_)
    · rw [Hw.addr, hcur]
      exact hcan.1
    · rw [Hw.len, hcur]
      exact Nat.zero_le _
    · refine hcan.2 (List.mem_map.mpr ⟨h.blk i, mem_inUse hi ?_, ?_⟩)
      · exact Nat.lt_of_lt_of_le hlt (closed_le_blocks h)
      · exact heqa.trans (by rw [Hw.addr, hcur])
  · rw [heq] at hg ⊢
    have hcur : Hw.blk ⟨h.closed, true, h.cur.append sec⟩ h.closed.length = h.cur.append sec := blk_cur rfl
    have hlast : h.closed.length < h.blocks.length := by
      rw [length_blocks, hv, Bool.toNat_true]
      exact Nat.lt_succ_self _
    refine hf.append hg rfl (length_blocks _) ?_ ?_ (fun i hi hlt => ?_)
    · rw [hg.addr _ hlast]
      exact hf.pool _ hlast
    · rw [Hw.len, hcur, Block.data, Block.append, List.flatten_append, List.length_append, List.flatten_singleton]
      exact hcan
    · rw [hg.addr _ hlast]
      exact hf.apart i _ hi hlt hlast
  · rw [heq] at hg ⊢
    have hblocks : Hw.blocks ⟨h.closed ++ [h.cur], false, h.cur⟩ = h.blocks := by
      rw [blocks_invalid rfl, blocks_valid hv]
    have hblk : ∀ j, Hw.blk ⟨h.closed ++ [h.cur], false, h.cur⟩ j = h.blk j := fun j => by
      rw [Hw.blk, Hw.blk, hblocks]
    refine ⟨Nat.le_trans hf.read hg.closed, ?_, ?_, fun j hj => ?_, ?_⟩
    · simp only [hblocks, Hw.addr, hblk]
      exact hf.pool
    · simp only [hblocks, Hw.len, hblk]
      exact hf.short
    · rw [List.length_append, List.length_singleton] at hj
      rw [Hw.len, hblk]
      rcases Nat.lt_succ_iff_lt_or_eq.mp hj with hj | rfl
      · exact hf.full j hj
      · rw [blk_cur hv]
        exact List.length_pos_iff.mpr hcan.1
    · simp only [hblocks, Hw.addr, hblk]
      exact hf.apart

/-- What the events that can happen keep, a run of the hardware keeps. -/
theorem hwRun_inv {P : Hw → Prop} {es : List HwEvent} (h0 : P h)
    (hnext : ∀ g, ∀ e ∈ es, P g → can cfg r g e → P (g.next e)) : P (hwRun cfg r h es) := by
  induction es generalizing h with
  | nil => exact h0
  | cons e es ih =>
    have hrest := fun g f hf => hnext g f (List.mem_cons_of_mem _ hf)
    rw [hwRun, List.foldl_cons]
    split
    · rename_i hcan
      exact ih (hnext h e List.mem_cons_self h0 hcan) hrest
    · exact ih h0 hrest

theorem hwRun_fit (hf : Fit cfg r h) (es : List HwEvent) :
    Fit cfg r (hwRun cfg r h es) ∧ Grow h (hwRun cfg r h es) := by
  refine hwRun_inv (P := fun g => Fit cfg r g ∧ Grow h g) ⟨hf, Grow.refl h⟩ ?_
  intro g e _ hg hcan
  exact ⟨fit_next hg.1 hcan, hg.2.trans (grow_next g e)⟩

theorem hwRun_append (cfg : Config) (r : Nat) (h : Hw) (es fs : List HwEvent) :
    hwRun cfg r h (es ++ fs) = hwRun cfg r (hwRun cfg r h es) fs := List.foldl_append

/-- The hardware at the reads of a call, and at its end. -/
structure Reads (cfg : Config) (r : Nat) (h : Hw) (at_ : Nat → Hw) (last : Hw) : Prop where
  fit : ∀ i, Fit cfg r (at_ i)
  fitLast : Fit cfg r last
  first : ∀ i, Grow h (at_ i)
  mono : ∀ i k, i ≤ k → Grow (at_ i) (at_ k)
  last : ∀ i, Grow (at_ i) last

theorem reads_between (hf : Fit cfg r h) (between : List (List HwEvent)) :
    Reads cfg r h (readAt cfg r h between) (hwRun cfg r h between.flatten) where
  fit := fun _ => (hwRun_fit hf _).1
  fitLast := (hwRun_fit hf _).1
  first := fun _ => (hwRun_fit hf _).2
  mono := fun i k hik => by
    have hsplit : (between.take (k + 1)).flatten =
        (between.take (i + 1)).flatten ++ ((between.take (k + 1)).drop (i + 1)).flatten := by
      rw [← List.flatten_append]
      conv_lhs => rw [← List.take_append_drop (i + 1) (between.take (k + 1)), List.take_take,
        Nat.min_eq_left (Nat.succ_le_succ hik)]
    rw [readAt, readAt, hsplit, hwRun_append]
    exact (hwRun_fit (hwRun_fit hf _).1 _).2
  last := fun i => by
    have hsplit : between.flatten = (between.take (i + 1)).flatten ++ (between.drop (i + 1)).flatten := by
      rw [← List.flatten_append, List.take_append_drop]
    rw [readAt, hsplit, hwRun_append]
    exact (hwRun_fit (hwRun_fit hf _).1 _).2

/-! ## The messages that the caller has -/

/-- Where a message is: its block, its offset there, and its length. -/
structure Tag where
  blk : Nat
  off : Nat
  len : Nat

def Tag.msg (h : Hw) (t : Tag) : Msg := ⟨h.addr t.blk + BitVec.ofNat 32 t.off, t.len⟩

/-- The order in which messages are handed out. -/
def Tag.Before (t u : Tag) : Prop := t.blk < u.blk ∨ t.blk = u.blk ∧ t.off + t.len ≤ u.off

/-- The block was read, at least in part. -/
def Seen (c : Chan) (j : Nat) : Prop := j < c.procsBlk ∨ j = c.procsBlk ∧ 0 < c.procsOffset

/-- The error list, as the walk needs it. The blocks before `x` are listed. Behind `x` a block that was read is listed
    or the caller has a message of it; `x` itself may be a block whose messages are all given back. -/
structure Listed (h : Hw) (r : Nat) (c : Chan) (ts : List Tag) (x : Nat) : Prop where
  le : r ≤ x
  seen : x ≤ c.procsBlk ∨ x = r
  first : ∀ j, r ≤ j → j < x → h.addr j ∈ c.errs
  tags : ∀ t ∈ ts, x ≤ t.blk
  rest : ∀ j, x < j → Seen c j → h.addr j ∈ c.errs ∨ ∃ t ∈ ts, t.blk = j

/-- **What holds between the calls.** -/
structure Track (cfg : Config) (h : Hw) (r : Nat) (c : Chan) (ts : List Tag) : Prop where
  nodup : c.errs.Nodup
  blk : c.procsBlk ≤ h.closed.length
  zero : h.valid = false → c.procsBlk = h.closed.length → c.procsOffset = 0
  passed : r ≤ c.procsBlk ∨ c.procsBlk + 1 = r ∧ h.len c.procsBlk ≤ c.procsOffset
  sorted : ts.Pairwise Tag.Before
  behind : ∀ t ∈ ts, t.blk < c.procsBlk ∨ t.blk = c.procsBlk ∧ t.off + t.len ≤ c.procsOffset
  inside : ∀ t ∈ ts, r ≤ t.blk ∧ t.off < h.len t.blk ∧ t.off + t.len ≤ cfg.blockSize + cfg.tsPacketLen
  listed : ∃ x, Listed h r c ts x

/-- The position behind the blocks that a message completes: those before its block, and that one where it ends it. -/
def Tag.upTo (h : Hw) (t : Tag) : Nat := t.blk + if h.len t.blk ≤ t.off + t.len then 1 else 0

variable {ts us vs : List Tag}

theorem Track.lt_blocks {j : Nat} (ht : Track cfg h r c ts) (hj : Seen c j) : j < h.blocks.length := by
  have hblk := ht.blk
  have hle := closed_le_blocks h
  rcases hj with hj | ⟨rfl, hoff⟩
  · omega
  · by_contra hge
    rw [length_blocks] at hge
    cases hv : h.valid with
    | true =>
      rw [hv, Bool.toNat_true] at hge
      omega
    | false =>
      rw [hv, Bool.toNat_false] at hge
      have h0 := ht.zero hv (by omega)
      omega

theorem Listed.lt_closed {j : Nat} (hx : Listed h r c ts x) (ht : Track cfg h r c ts) (hr : r ≤ j) (hj : j < x) :
    j < h.closed.length := by
  have hblk := ht.blk
  rcases hx.seen with hs | rfl <;> omega

theorem Track.tag_lt {t : Tag} (ht : Track cfg h r c ts) (hm : t ∈ ts) : t.blk < h.blocks.length :=
  lt_blocks_of_len (Nat.lt_of_le_of_lt (Nat.zero_le _) (ht.inside t hm).2.1)

theorem msgs_grow (hg : Grow h h') (ht : ∀ t ∈ ts, t.blk < h.blocks.length) :
    ts.map (Tag.msg h') = ts.map (Tag.msg h) := by
  refine List.map_congr_left (fun t hm => ?_)
  rw [Tag.msg, Tag.msg, hg.addr _ (ht t hm)]

theorem Track.grow (ht : Track cfg h r c ts) (hg : Grow h h') (hr : r ≤ h.closed.length) : Track cfg h' r c ts where
  nodup := ht.nodup
  blk := Nat.le_trans ht.blk hg.closed
  zero := fun hv hcl => by
    have hle := hg.closed
    have hblk := ht.blk
    have heq : h'.closed.length = h.closed.length := by omega
    cases hv' : h.valid with
    | true =>
      rw [hg.valid hv' heq] at hv
      cases hv
    | false => exact ht.zero hv' (by omega)
  passed := by
    rcases ht.passed with hp | ⟨hp, hlen⟩
    · exact Or.inl hp
    · refine Or.inr ⟨hp, ?_⟩
      rw [Hw.len, hg.stay _ (by omega)]
      exact hlen
  sorted := ht.sorted
  behind := ht.behind
  inside := fun t hm => by
    obtain ⟨h1, h2, h3⟩ := ht.inside t hm
    exact ⟨h1, Nat.lt_of_lt_of_le h2 (hg.len _ (ht.tag_lt hm)), h3⟩
  listed := by
    obtain ⟨x, hx⟩ := ht.listed
    refine ⟨x, hx.le, hx.seen, fun j hj hjx => ?_, hx.tags, fun j hj hs => ?_⟩
    · have hlt := hx.lt_closed ht hj hjx
      rw [hg.addr j (Nat.lt_of_lt_of_le hlt (closed_le_blocks h))]
      exact hx.first j hj hjx
    · rw [hg.addr j (ht.lt_blocks hs)]
      exact hx.rest j hj hs

/-! ## Reading -/

/-- A piece of the block at the cursor. -/
def tagAt (j : Nat) (u : Piece) : Tag := ⟨j, u.off, u.len⟩

theorem Fit.addr_ne {j : Nat} (hf : Fit cfg r h) (hi : r ≤ i) (hj : r ≤ j) (hne : i ≠ j) (hib : i < h.blocks.length)
    (hjb : j < h.blocks.length) : h.addr i ≠ h.addr j := by
  rcases Nat.lt_or_gt_of_ne hne with hlt | hlt
  · exact hf.apart i j hi hlt hjb
  · exact fun heq => hf.apart j i hj hlt hib heq.symm

/-- **The block at the cursor is parsed**, up to `e`. -/
theorem Track.parse {e : Nat} {p q : Parse} {ps : List Piece} (ht : Track cfg h r c ts) (hf : Fit cfg r h)
    (hlt : c.procsBlk < h.blocks.length) (he : e ≤ h.len c.procsBlk) (hoff : p.offset = c.procsOffset)
    (herrs : p.errs = c.errs) (hp : Parsed cfg.toConfig (h.addr c.procsBlk) e p q ps)
    (hroom : c.errs.length < cfg.maxErrListNum) :
    Track cfg h r ⟨c.procsBlk, q.offset, q.errs⟩ (ts ++ ps.map (tagAt c.procsBlk)) := by
  have hle := hp.le
  have hread : ps ≠ [] → r ≤ c.procsBlk := by
    intro hne
    obtain ⟨u, hu⟩ := List.exists_mem_of_ne_nil ps hne
    obtain ⟨h1, h2, -, -⟩ := hp.inside u hu
    rcases ht.passed with hpass | ⟨-, hlen⟩
    · exact hpass
    · omega
  have hnew : ∀ t ∈ ps.map (tagAt c.procsBlk), ∃ u ∈ ps, t = tagAt c.procsBlk u := fun t hm => by
    obtain ⟨u, hu, rfl⟩ := List.mem_map.mp hm
    exact ⟨u, hu, rfl⟩
  refine
    { nodup := hp.nodup (herrs ▸ ht.nodup)
      blk := ht.blk
      zero := fun hv hcl => ?_
      passed := ?_
      sorted := ?_
      behind := fun t hm => ?_
      inside := fun t hm => ?_
      listed := ?_ }
  · rw [length_blocks, hv, Bool.toNat_false] at hlt
    exact absurd hcl (Nat.ne_of_lt hlt)
  · rcases ht.passed with hpass | ⟨hpass, hlen⟩
    · exact Or.inl hpass
    · exact Or.inr ⟨hpass, Nat.le_trans hlen (hoff ▸ hle)⟩
  · refine List.pairwise_append.mpr ⟨ht.sorted, ?_, fun t hm u hu => ?_⟩
    · refine List.pairwise_map.mpr (hp.sorted.imp (fun huv => ?_))
      exact Or.inr ⟨rfl, huv⟩
    · obtain ⟨v, hv, rfl⟩ := hnew u hu
      rcases ht.behind t hm with hb | ⟨hb, hend⟩
      · exact Or.inl hb
      · exact Or.inr ⟨hb, Nat.le_trans hend (hoff ▸ (hp.inside v hv).1)⟩
  · rcases List.mem_append.mp hm with hm | hm
    · rcases ht.behind t hm with hb | ⟨hb, hend⟩
      · exact Or.inl hb
      · exact Or.inr ⟨hb, Nat.le_trans hend (hoff ▸ hle)⟩
    · obtain ⟨v, hv, rfl⟩ := hnew t hm
      exact Or.inr ⟨rfl, (hp.inside v hv).2.2.2⟩
  · rcases List.mem_append.mp hm with hm | hm
    · exact ht.inside t hm
    · obtain ⟨v, hv, rfl⟩ := hnew t hm
      obtain ⟨-, h2, h3, -⟩ := hp.inside v hv
      refine ⟨hread (List.ne_nil_of_mem hv), Nat.lt_of_lt_of_le h2 he, Nat.le_trans h3 ?_⟩
      exact Nat.add_le_add_right (Nat.le_trans he (hf.short _ hlt)) _
  · obtain ⟨x, hx⟩ := ht.listed
    -- only the entry of the block at the cursor changes
    have hsame : ∀ j, r ≤ j → j ≠ c.procsBlk → r ≤ c.procsBlk → j < h.blocks.length → h.addr j ∈ c.errs →
        h.addr j ∈ q.errs := by
      intro j hj hne hrb hjb hmem
      exact (hp.others _ (hf.addr_ne hj hrb hne hjb hlt)).mpr (herrs ▸ hmem)
    have hxr := hx.le
    refine ⟨x, hx.le, hx.seen, fun j hj hjx => ?_, fun t hm => ?_, fun j hj hs => ?_⟩
    · rcases hx.seen with hseen | rfl
      · have hcl := hx.lt_closed ht hj hjx
        exact hsame j hj (by omega) (by omega) (Nat.lt_of_lt_of_le hcl (closed_le_blocks h)) (hx.first j hj hjx)
      · omega
    · rcases List.mem_append.mp hm with hm | hm
      · exact hx.tags t hm
      · obtain ⟨v, hv, rfl⟩ := hnew t hm
        show x ≤ c.procsBlk
        have hrb := hread (List.ne_nil_of_mem hv)
        rcases hx.seen with hseen | rfl
        · exact hseen
        · exact hrb
    · rcases hs with hs | ⟨rfl, hpos⟩
      · rcases hx.rest j hj (Or.inl hs) with hmem | ⟨t, hm, htj⟩
        · have hs' : j < c.procsBlk := hs
          exact Or.inl (hsame j (by omega) (by omega) (by omega) (ht.lt_blocks (Or.inl hs)) hmem)
        · exact Or.inr ⟨t, List.mem_append_left _ hm, htj⟩
      · by_cases hnil : ps = []
        · rcases Nat.eq_zero_or_pos c.procsOffset with h0 | hpos0
          · -- read from its start, and nothing was handed out
            left
            refine hp.adds hnil (hoff.trans h0) (herrs ▸ hroom) ?_
            rw [hoff, h0]
            exact hpos
          · rcases hx.rest _ hj (Or.inr ⟨rfl, hpos0⟩) with hmem | ⟨t, hm, htj⟩
            · exact Or.inl (hp.keeps hnil (herrs ▸ hmem))
            · exact Or.inr ⟨t, List.mem_append_left _ hm, htj⟩
        · obtain ⟨u, hu⟩ := List.exists_mem_of_ne_nil ps hnil
          exact Or.inr ⟨tagAt c.procsBlk u, List.mem_append_right _ (List.mem_map_of_mem hu), rfl⟩

/-- The cursor goes on to the next block. -/
theorem Track.next (ht : Track cfg h r c ts) (hf : Fit cfg r h) (hlt : c.procsBlk < h.closed.length)
    (hend : h.len c.procsBlk ≤ c.procsOffset) : Track cfg h r ⟨c.procsBlk + 1, 0, c.errs⟩ ts where
  nodup := ht.nodup
  blk := hlt
  zero := fun _ _ => rfl
  passed := by
    rcases ht.passed with hp | ⟨hp, -⟩
    · exact Or.inl (Nat.le_succ_of_le hp)
    · exact Or.inl (Nat.le_of_eq hp.symm)
  sorted := ht.sorted
  behind := fun t hm => by
    left
    rcases ht.behind t hm with hb | ⟨hb, -⟩
    · exact Nat.lt_succ_of_lt hb
    · exact Nat.lt_succ_of_le (Nat.le_of_eq hb)
  inside := ht.inside
  listed := by
    obtain ⟨x, hx⟩ := ht.listed
    have hpos := hf.full _ hlt
    refine ⟨x, hx.le, ?_, hx.first, hx.tags, fun j hj hs => hx.rest j hj ?_⟩
    · rcases hx.seen with hs | hs
      · exact Or.inl (Nat.le_succ_of_le hs)
      · exact Or.inr hs
    · rcases hs with hs | ⟨-, hs⟩
      · rcases Nat.lt_succ_iff_lt_or_eq.mp hs with hs | rfl
        · exact Or.inl hs
        · exact Or.inr ⟨rfl, by omega⟩
      · exact absurd hs (Nat.lt_irrefl _)

theorem msgs_tagAt (h : Hw) (j : Nat) (ps : List Piece) :
    (ps.map (tagAt j)).map (Tag.msg h) = ps.map (Piece.msg (h.addr j)) := by
  rw [List.map_map]
  rfl

/-- **The blocks of the queue are read in order.** `k` bounds the number of blocks. -/
theorem secLoop_track {rest : List Block} {procsBlk acqNum k : Nat} {p : Parse} (hf : Fit cfg r h)
    (hrest : rest = h.closed.drop procsBlk) (hacq : p.msgs.length < acqNum)
    (ht : Track cfg h r ⟨procsBlk, p.offset, p.errs⟩ (ts ++ us)) (hmsgs : p.msgs = us.map (Tag.msg h))
    (hk : h.closed.length ≤ k) (hroom : p.errs.length + (k - procsBlk) ≤ cfg.maxErrListNum)
    (hstored : p.msgs = [] → c.procsBlk = procsBlk ∧ c.procsOffset = p.offset) :
    let w := secLoop cfg.toConfig acqNum rest c procsBlk p
    ∃ vs, Track cfg h r ⟨w.2.1, w.2.2.offset, w.2.2.errs⟩ (ts ++ vs) ∧ w.2.2.msgs = vs.map (Tag.msg h) ∧
      (w.2.2.msgs = [] → w.1.procsBlk = w.2.1 ∧ w.1.procsOffset = w.2.2.offset ∧ w.2.1 = h.closed.length ∧
        w.2.2.errs.length + (k - w.2.1) ≤ cfg.maxErrListNum) := by
  induction rest generalizing procsBlk c p us with
  | nil =>
    have hge := List.drop_eq_nil_iff.mp hrest.symm
    have hle := ht.blk
    refine ⟨us, ht, hmsgs, fun hnil => ⟨(hstored hnil).1, (hstored hnil).2, ?_, hroom⟩⟩
    exact Nat.le_antisymm hle hge
  | cons b bs ih =>
    have hlt : procsBlk < h.closed.length := by
      by_contra hge
      rw [List.drop_eq_nil_of_le (Nat.le_of_not_lt hge)] at hrest
      cases hrest
    have hblk : h.blk procsBlk = b := by
      rw [blk_closed hlt, List.getD_eq_getElem?_getD, List.getElem?_eq_getElem hlt, Option.getD_some]
      rw [List.drop_eq_getElem_cons hlt] at hrest
      exact (List.cons.inj hrest).1.symm
    have hbs : bs = h.closed.drop (procsBlk + 1) := by
      rw [List.drop_eq_getElem_cons hlt] at hrest
      exact (List.cons.inj hrest).2
    obtain ⟨ps, hp, hdone⟩ := parseSection_parsed cfg.toConfig acqNum b.startAddr b.data b.data.length p
    have hp' : Parsed cfg.toConfig (h.addr procsBlk) (h.len procsBlk) p
        (parseSection cfg.toConfig acqNum b.startAddr b.data b.data.length p) ps := by
      rw [Hw.addr, Hw.len, hblk]
      exact hp
    have htrack := ht.parse hf (Nat.lt_of_lt_of_le hlt (closed_le_blocks h)) (Nat.le_refl _) rfl rfl hp' (by
      dsimp only
      omega)
    have herrs := hp'.length_le
    rw [List.append_assoc] at htrack
    unfold secLoop
    generalize parseSection cfg.toConfig acqNum b.startAddr b.data b.data.length p = q at hp hp' hdone htrack herrs ⊢
    have hqmsgs : q.msgs = (us ++ ps.map (tagAt procsBlk)).map (Tag.msg h) := by
      rw [hp'.msgs, hmsgs, List.map_append, msgs_tagAt]
    have hlen : h.len procsBlk = b.data.length := by rw [Hw.len, hblk]
    -- where there are too few messages, the block is read to its end
    have hend : q.msgs.length < acqNum → h.len procsBlk ≤ q.offset := fun hfew => by omega
    have hnext : h.len procsBlk ≤ q.offset → Track cfg h r ⟨procsBlk + 1, 0, q.errs⟩
        (ts ++ (us ++ ps.map (tagAt procsBlk))) := fun hover => htrack.next hf hlt hover
    by_cases hnone : q.msgs.length = p.msgs.length
    · rw [if_pos hnone]
      exact ih hbs (by dsimp only; omega) (hnext (hend (by omega))) hqmsgs (by dsimp only; omega)
        (fun _ => ⟨rfl, rfl⟩)
    · rw [if_neg hnone]
      have hsome : q.msgs ≠ [] := fun hnil => by
        have hlen0 := congrArg List.length hp'.msgs
        rw [List.length_append, hnil, List.length_nil] at hlen0
        rw [hnil, List.length_nil] at hnone
        omega
      by_cases hover : q.offset ≥ b.data.length
      · simp only [if_pos hover]
        by_cases hfull : q.msgs.length ≥ acqNum
        · rw [if_pos hfull]
          exact ⟨_, hnext (hlen ▸ hover), hqmsgs, fun hnil => absurd hnil hsome⟩
        · rw [if_neg hfull]
          exact ih hbs (Nat.lt_of_not_ge hfull) (hnext (hlen ▸ hover)) hqmsgs (by dsimp only; omega)
            (fun hnil => absurd hnil hsome)
      · simp only [if_neg hover]
        have hfull : q.msgs.length ≥ acqNum := by omega
        rw [if_pos hfull]
        exact ⟨_, htrack, hqmsgs, fun hnil => absurd hnil hsome⟩

/-- **A look at the queue.** -/
theorem readToMsgBuffer_track {acqNum : Nat} (hf : Fit cfg r h) (hacq : 0 < acqNum) (ht : Track cfg h r c ts)
    (hk : h.closed.length ≤ k) (hroom : c.errs.length + (k - c.procsBlk) ≤ cfg.maxErrListNum) :
    let w := readToMsgBuffer cfg.toConfig acqNum h c
    ∃ vs, Track cfg h r w.1 (ts ++ vs) ∧ w.2 = vs.map (Tag.msg h) ∧
      (w.2 = [] → w.1.procsBlk = h.closed.length ∧ w.1.errs.length + (k - w.1.procsBlk) ≤ cfg.maxErrListNum) := by
  have hloop := @secLoop_track cfg h r c ts [] _ _ acqNum k ⟨[], c.procsOffset, c.errs⟩ hf rfl hacq
    (by rw [List.append_nil]; exact ht) rfl hk hroom (fun _ => ⟨rfl, rfl⟩)
  unfold readToMsgBuffer
  generalize secLoop cfg.toConfig acqNum (h.closed.drop c.procsBlk) c c.procsBlk ⟨[], c.procsOffset, c.errs⟩ = w
    at hloop ⊢
  obtain ⟨vs, htrack, hmsgs, hnone⟩ := hloop
  by_cases hnil : w.2.2.msgs = []
  · rw [if_neg (not_not.mpr hnil)]
    obtain ⟨hblk, hoff, hall, hroom'⟩ := hnone hnil
    have hvs : vs = [] := by
      rw [hnil] at hmsgs
      exact List.map_eq_nil_iff.mp hmsgs.symm
    subst hvs
    rw [← hblk, ← hoff] at htrack
    rw [← hblk] at hroom'
    exact ⟨[], htrack, rfl, fun _ => ⟨hblk.trans hall, hroom'⟩⟩
  · rw [if_pos hnil]
    exact ⟨vs, htrack, hmsgs, fun h0 => absurd h0 hnil⟩

/-- A look at the current block, from the hardware at the reads for its end (`h₀`, `h₁`), for its address (`h₂`), and
    for the write pointer (`h'`). -/
theorem parse_current {h₀ h₁ h₂ : Hw} (acqNum : Nat) (hf : Fit cfg r h') (h01 : Grow h₀ h₁) (h12 : Grow h₁ h₂)
    (h23 : Grow h₂ h') (ht : Track cfg h' r c ts) (hblk : c.procsBlk = h₀.closed.length)
    (hcl : h'.closed.length = c.procsBlk) (hk : h'.blocks.length ≤ k)
    (hroom : c.errs.length + (k - c.procsBlk) ≤ cfg.maxErrListNum) :
    let q := parseSection cfg.toConfig acqNum h₂.cur.startAddr h'.cur.data (getCurEopaddr h₀ h₁)
      ⟨[], c.procsOffset, c.errs⟩
    ∃ vs, Track cfg h' r { c with procsOffset := q.offset, errs := q.errs } (ts ++ vs) ∧
      q.msgs = vs.map (Tag.msg h') := by
  unfold getCurEopaddr
  by_cases hv : h₀.valid = true
  · rw [if_pos hv]
    have hle01 := h01.closed
    have hle12 := h12.closed
    have hle23 := h23.closed
    have hv1 := h01.valid hv (by omega)
    have hv2 := h12.valid hv1 (by omega)
    have hv3 := h23.valid hv2 (by omega)
    have hat1 : h₁.closed.length = c.procsBlk := by omega
    have hat2 : h₂.closed.length = c.procsBlk := by omega
    have hlt : ∀ {g : Hw}, g.valid = true → g.closed.length = c.procsBlk → c.procsBlk < g.blocks.length := by
      intro g hg hat
      rw [length_blocks, hg, hat]
      exact Nat.lt_succ_self _
    -- the current block stays the current one
    have haddr : h₂.cur.startAddr = h'.addr c.procsBlk := by
      rw [h23.addr _ (hlt hv2 hat2), Hw.addr, ← hat2, blk_cur hv2]
    have hlen : h₁.cur.data.length ≤ h'.len c.procsBlk := by
      have hgrow := (h12.trans h23).len _ (hlt hv1 hat1)
      rw [Hw.len, ← hat1, blk_cur hv1, hat1] at hgrow
      exact hgrow
    obtain ⟨ps, hp, -⟩ := parseSection_parsed cfg.toConfig acqNum h₂.cur.startAddr h'.cur.data h₁.cur.data.length
      ⟨[], c.procsOffset, c.errs⟩
    have hblocks := hlt hv3 hcl
    rw [haddr] at hp ⊢
    have htrack := ht.parse hf hblocks hlen rfl rfl hp (by omega)
    refine ⟨_, htrack, ?_⟩
    rw [msgs_tagAt, hp.msgs, List.nil_append]
  · -- there is none
    have hnone : parseSection cfg.toConfig acqNum h₂.cur.startAddr h'.cur.data 0 ⟨[], c.procsOffset, c.errs⟩ =
        ⟨[], c.procsOffset, c.errs⟩ := if_pos (Nat.zero_le _)
    rw [if_neg hv, hnone]
    exact ⟨[], by rw [List.append_nil]; exact ht, rfl⟩

/-- **One call for data.** -/
theorem readSec_track {acqNum : Nat} (hacq : 0 < acqNum) (hfit : ∀ i, Fit cfg r (g i))
    (hmono : ∀ i j, i ≤ j → Grow (g i) (g j)) (ht : Track cfg (g 0) r c ts) (hk : ∀ i, (g i).blocks.length ≤ k)
    (hroom : c.errs.length + (k - c.procsBlk) ≤ cfg.maxErrListNum) :
    ∃ vs, Track cfg (g 7) r (readSec cfg.toConfig acqNum g c).1 (ts ++ vs) ∧
      (readSec cfg.toConfig acqNum g c).2 = vs.map (Tag.msg (g 7)) := by
  have hcl : ∀ i, (g i).closed.length ≤ k := fun i => Nat.le_trans (closed_le_blocks _) (hk i)
  -- what is found at one time is there at the end
  have hlast : ∀ {i : Nat} {c' : Chan} {vs : List Tag}, i ≤ 7 → Track cfg (g i) r c' (ts ++ vs) →
      Track cfg (g 7) r c' (ts ++ vs) ∧ vs.map (Tag.msg (g i)) = vs.map (Tag.msg (g 7)) := by
    intro i c' vs hi htrack
    refine ⟨htrack.grow (hmono i 7 hi) (hfit i).read, (msgs_grow (hmono i 7 hi) (fun t hm => ?_)).symm⟩
    exact htrack.tag_lt (List.mem_append_right _ hm)
  obtain ⟨vs, htrack, hmsgs, hnone⟩ := readToMsgBuffer_track (hfit 2) hacq
    (ht.grow (hmono 0 2 (by omega)) (hfit 0).read) (hcl 2) hroom
  unfold readSec
  generalize readToMsgBuffer cfg.toConfig acqNum (g 2) c = q at htrack hmsgs hnone ⊢
  obtain ⟨c2, msgs⟩ := q
  dsimp only at htrack hmsgs hnone ⊢
  by_cases hnil : msgs = []
  · subst hnil
    obtain ⟨hblk, hroom2⟩ := hnone rfl
    have hvs : vs = [] := List.map_eq_nil_iff.mp hmsgs.symm
    subst hvs
    rw [if_neg (not_not.mpr rfl)]
    by_cases heop : c2.procsOffset = getCurEopaddr (g 0) (g 1)
    · rw [if_pos heop]
      exact ⟨[], (hlast (by omega) htrack).1, rfl⟩
    · rw [if_neg heop]
      unfold getCurSAddr
      rw [List.append_nil] at htrack
      by_cases hsame : (g 6).closed.length = c2.procsBlk
      · rw [if_pos hsame]
        have hle23 := (hmono 2 3 (by omega)).closed
        have hle36 := (hmono 3 6 (by omega)).closed
        obtain ⟨us, hus, hmsgs'⟩ := parse_current acqNum (hfit 6) (hmono 3 4 (by omega))
          (hmono 4 5 (by omega)) (hmono 5 6 (by omega)) (htrack.grow (hmono 2 6 (by omega)) (hfit 2).read)
          (by omega) hsame (hk 6) hroom2
        exact ⟨us, (hlast (by omega) hus).1, hmsgs'.trans (hlast (by omega) hus).2⟩
      · rw [if_neg hsame]
        obtain ⟨us, hus, hmsgs', -⟩ := readToMsgBuffer_track (hfit 7) hacq
          (htrack.grow (hmono 2 7 (by omega)) (hfit 2).read) (hcl 7) hroom2
        exact ⟨us, hus, hmsgs'⟩
  · rw [if_pos hnil]
    exact ⟨vs, (hlast (by omega) htrack).1, hmsgs.trans (hlast (by omega) htrack).2⟩

/-! ## Addresses -/

/-- The blocks of the pool lie one behind the other. -/
theorem toNat_pool {a : BitVec 32} (ha : a ∈ cfg.pool) :
    ∃ i, i < cfg.depth - 1 ∧ a.toNat = cfg.fqPhyAddr.toNat + i * cfg.stride.toNat := by
  obtain ⟨i, hi, rfl⟩ := List.mem_map.mp ha
  rw [List.mem_range] at hi
  have hroom := cfg.room
  have hpos := Nat.lt_of_lt_of_le cfg.blockSize_pos cfg.blockSize_le
  have hmul : i * cfg.stride.toNat ≤ (cfg.depth - 1) * cfg.stride.toNat := Nat.mul_le_mul_right _ (Nat.le_of_lt hi)
  have hi' : i ≤ i * cfg.stride.toNat := Nat.le_mul_of_pos_right i hpos
  have hi32 : i % 2 ^ 32 = i := Nat.mod_eq_of_lt (by omega)
  refine ⟨i, hi, ?_⟩
  rw [BitVec.toNat_add, BitVec.toNat_mul, BitVec.toNat_ofNat, hi32, Nat.mod_eq_of_lt (a := i * _) (by omega)]
  omega

theorem pool_room {a : BitVec 32} (ha : a ∈ cfg.pool) :
    a.toNat + cfg.blockSize + cfg.tsPacketLen < 0x100000000 := by
  obtain ⟨i, hi, heq⟩ := toNat_pool ha
  have hroom := cfg.room
  have hle := cfg.blockSize_le
  have hmul : (i + 1) * cfg.stride.toNat ≤ (cfg.depth - 1) * cfg.stride.toNat := Nat.mul_le_mul_right _ hi
  rw [Nat.add_mul, Nat.one_mul] at hmul
  omega

theorem pool_apart {a b : BitVec 32} (ha : a ∈ cfg.pool) (hb : b ∈ cfg.pool) (hne : a ≠ b) :
    a.toNat + cfg.blockSize ≤ b.toNat ∨ b.toNat + cfg.blockSize ≤ a.toNat := by
  obtain ⟨i, -, hi⟩ := toNat_pool ha
  obtain ⟨j, -, hj⟩ := toNat_pool hb
  have hle := cfg.blockSize_le
  have hlt : ∀ {k l : Nat}, k < l → k * cfg.stride.toNat + cfg.stride.toNat ≤ l * cfg.stride.toNat := by
    intro k l hkl
    have hmul := Nat.mul_le_mul_right cfg.stride.toNat (Nat.succ_le_of_lt hkl)
    rwa [Nat.succ_mul] at hmul
  rcases Nat.lt_trichotomy i j with hij | rfl | hij
  · have hmul := hlt hij
    omega
  · exact absurd (BitVec.eq_of_toNat_eq (hi.trans hj.symm)) hne
  · have hmul := hlt hij
    omega

variable {a b : BitVec 32} {off len n : Nat}

theorem toNat_start (hb : b ∈ cfg.pool) (hoff : off < cfg.blockSize) :
    (b + BitVec.ofNat 32 off).toNat = b.toNat + off := by
  have hroom := pool_room hb
  rw [BitVec.toNat_add, BitVec.toNat_ofNat]
  omega

/-- Where a message of the block `b` is found. -/
theorem inBlock_iff (ha : a ∈ cfg.pool) (hb : b ∈ cfg.pool) (hoff : off < cfg.blockSize) (hpos : 0 < len)
    (hlen : len ≤ cfg.blockSize) :
    inBlock ⟨b + BitVec.ofNat 32 off, n⟩ a len = true ↔ a.toNat ≤ b.toNat + off ∧ b.toNat + off < a.toNat + len := by
  have hroom := pool_room ha
  have hend : (a + BitVec.ofNat 32 len - 1).toNat = a.toNat + len - 1 := by
    rw [BitVec.toNat_sub, BitVec.toNat_add, BitVec.toNat_ofNat]
    have h1 : (1 : BitVec 32).toNat = 1 := rfl
    rw [h1]
    omega
  unfold inBlock
  rw [Bool.and_eq_true, decide_eq_true_eq, decide_eq_true_eq, BitVec.le_def, BitVec.le_def, hend, toNat_start hb hoff]
  omega

theorem inBlock_self (ha : a ∈ cfg.pool) (hoff : off < len) (hlen : len ≤ cfg.blockSize) :
    inBlock ⟨a + BitVec.ofNat 32 off, n⟩ a len = true := by
  rw [inBlock_iff ha ha (by omega) (by omega) hlen]
  omega

theorem inBlock_other (ha : a ∈ cfg.pool) (hb : b ∈ cfg.pool) (hne : a ≠ b) (hoff : off < cfg.blockSize)
    (hpos : 0 < len) (hlen : len ≤ cfg.blockSize) : inBlock ⟨b + BitVec.ofNat 32 off, n⟩ a len = false := by
  rw [← Bool.not_eq_true, inBlock_iff ha hb hoff hpos hlen]
  have hapart := pool_apart ha hb hne
  omega

theorem endsBlock_iff (ha : a ∈ cfg.pool) (hoff : off + n ≤ cfg.blockSize + cfg.tsPacketLen)
    (hlen : len ≤ cfg.blockSize) : endsBlock ⟨a + BitVec.ofNat 32 off, n⟩ a len = true ↔ len ≤ off + n := by
  have hroom := pool_room ha
  unfold endsBlock
  dsimp only
  rw [decide_eq_true_eq, BitVec.le_def, BitVec.toNat_add, BitVec.toNat_add, BitVec.toNat_add, BitVec.toNat_ofNat,
    BitVec.toNat_ofNat, BitVec.toNat_ofNat]
  omega

/-! ## One round of the walk -/

/-- **The loop over the messages.** It passes over the messages of the current block up to one that ends it; for a
    message of another block it depends on the next block. -/
theorem scan_cases {pos : Nat} {errs : ErrList} (next : BitVec 32) (hf : Fit cfg r h) (hr : r ≤ pos)
    (hpos : pos < h.closed.length)
    (hin : ∀ t ∈ us, r ≤ t.blk ∧ t.off < h.len t.blk ∧ t.off + t.len ≤ cfg.blockSize + cfg.tsPacketLen) :
    (scan cfg errs (h.addr pos) (h.len pos) (some next) (us.map (Tag.msg h)) = .over ∧ ∀ t ∈ us, t.blk = pos) ∨
    ∃ pre t rest, us = pre ++ t :: rest ∧ (∀ u ∈ pre, u.blk = pos) ∧ ((t.blk = pos ∧ h.len pos ≤ t.off + t.len ∧
          scan cfg errs (h.addr pos) (h.len pos) (some next) (us.map (Tag.msg h)) = .full (rest.map (Tag.msg h))) ∨
        (t.blk ≠ pos ∧ scan cfg errs (h.addr pos) (h.len pos) (some next) (us.map (Tag.msg h)) =
          if inBlock (t.msg h) next cfg.blockSize then .full (rest.map (Tag.msg h))
          else if h.addr pos ∈ errs then .listed ((t :: rest).map (Tag.msg h)) else .reset)) := by
  have hposb := Nat.lt_of_lt_of_le hpos (closed_le_blocks h)
  have hpool := hf.pool pos hposb
  have hshort := hf.short pos hposb
  induction us with
  | nil => exact Or.inl ⟨rfl, fun t ht => absurd ht List.not_mem_nil⟩
  | cons t us ih =>
    obtain ⟨hrt, hoff, hend⟩ := hin t List.mem_cons_self
    have htb := lt_blocks_of_len (Nat.lt_of_le_of_lt (Nat.zero_le _) hoff)
    rw [List.map_cons, scan]
    by_cases hblk : t.blk = pos
    · have hself : inBlock (t.msg h) (h.addr pos) (h.len pos) = true := by
        rw [Tag.msg, hblk]
        exact inBlock_self hpool (hblk ▸ hoff) hshort
      have hends : endsBlock (t.msg h) (h.addr pos) (h.len pos) = true ↔ h.len pos ≤ t.off + t.len := by
        rw [Tag.msg, hblk]
        exact endsBlock_iff hpool hend hshort
      rw [if_pos hself]
      by_cases hlast : h.len pos ≤ t.off + t.len
      · rw [if_pos (hends.mpr hlast)]
        exact Or.inr ⟨[], t, us, rfl, fun u hu => absurd hu List.not_mem_nil, Or.inl ⟨hblk, hlast, rfl⟩⟩
      · rw [if_neg (fun h' => hlast (hends.mp h'))]
        rcases ih (fun u hu => hin u (List.mem_cons_of_mem _ hu)) with ⟨hover, hall⟩ | ⟨pre, v, rest, rfl, hpre, hres⟩
        · refine Or.inl ⟨hover, fun u hu => ?_⟩
          rcases List.mem_cons.mp hu with rfl | hu
          · exact hblk
          · exact hall u hu
        · refine Or.inr ⟨t :: pre, v, rest, rfl, fun u hu => ?_, hres⟩
          rcases List.mem_cons.mp hu with rfl | hu
          · exact hblk
          · exact hpre u hu
    · have hother : inBlock (t.msg h) (h.addr pos) (h.len pos) = false := by
        rw [Tag.msg]
        exact inBlock_other hpool (hf.pool _ htb) (hf.addr_ne hr hrt (fun heq => hblk heq.symm) hposb htb)
          (Nat.lt_of_lt_of_le hoff (hf.short _ htb)) (hf.full pos hpos) hshort
      rw [if_neg (by rw [hother]; exact Bool.false_ne_true)]
      exact Or.inr ⟨[], t, us, rfl, fun u hu => absurd hu List.not_mem_nil, Or.inr ⟨hblk, rfl⟩⟩

theorem mem_drop_closed {j n : Nat} (hn : n ≤ j) (hj : j < h.closed.length) : h.blk j ∈ h.closed.drop n := by
  have hget : (h.closed.drop n)[j - n]? = some (h.blk j) := by
    rw [List.getElem?_drop, Nat.add_sub_cancel' hn, blk_closed hj, List.getD_eq_getElem?_getD,
      List.getElem?_eq_getElem hj, Option.getD_some]
  exact List.mem_of_getElem? hget

theorem blk_of_drop {n : Nat} {as bs : List Block} {blk : Block} (hdrop : h.closed.drop n = as ++ blk :: bs) :
    n + as.length < h.closed.length ∧ h.blk (n + as.length) = blk ∧ ∀ j, n ≤ j → j < n + as.length → h.blk j ∈ as := by
  have hget : ∀ i, h.closed[n + i]? = (as ++ blk :: bs)[i]? := fun i => by rw [← hdrop, List.getElem?_drop]
  have hlast : h.closed[n + as.length]? = some blk := by
    rw [hget, List.getElem?_append_right (Nat.le_refl _), Nat.sub_self]
    rfl
  obtain ⟨hlt, heq⟩ := List.getElem?_eq_some_iff.mp hlast
  refine ⟨hlt, ?_, fun j hj hlt' => ?_⟩
  · rw [blk_closed hlt, List.getD_eq_getElem?_getD, hlast, Option.getD_some]
  · have hin : h.closed[j]? = as[j - n]? := by
      have hj' := hget (j - n)
      rwa [Nat.add_sub_cancel' hj, List.getElem?_append_left (by omega)] at hj'
    rw [blk_closed (by omega), List.getD_eq_getElem?_getD, hin, List.getElem?_eq_getElem (by omega), Option.getD_some]
    exact List.getElem_mem _

/-- **The next block**, for a message of a later block that is not listed: it is the block of the message, where all
    blocks before are listed; else it is one of those. `last` is the hardware at the end of the call. -/
theorem lookAhead_cases {last : Hw} {target : Nat} {s : BitVec 32}
    (hgrow : ∀ i, Grow (g i) last) (hs : ∀ i, (g i).cur.startAddr = s)
    (hwrite : write ≤ (g 1).closed.length) (hr : r ≤ pos) (hpos : pos < write) (hlt : pos < target)
    (hle : target ≤ write) (hcur : target = write → last.addr target = s) (hun : last.addr target ∉ errs) :
    ∃ a, lookAhead errs g r (pos + 1) write = (some a, (g 1).closed.length) ∧
      ((a = last.addr target ∧ ∀ j, pos < j → j < target → last.addr j ∈ errs) ∨
        ∃ j, pos < j ∧ j < target ∧ a = last.addr j ∧ last.addr j ∉ errs) := by
  have hvalid : isAddrValid r write (pos + 1) = true := by
    rw [isAddrValid, Bool.and_eq_true, decide_eq_true_eq, decide_eq_true_eq]
    omega
  have haddr : ∀ j, j < (g 1).closed.length → last.addr j = (g 1).addr j := fun j hj => by
    rw [Hw.addr, (hgrow 1).stay j hj]
    rfl
  unfold lookAhead
  rw [if_pos hvalid]
  by_cases hnext : pos + 1 = (g 1).closed.length
  · rw [if_pos hnext]
    refine ⟨_, rfl, Or.inl ⟨(hs 0).trans (hcur (by omega)).symm, fun j hj hj' => ?_⟩⟩
    omega
  · rw [if_neg hnext]
    cases hfind : ((g 1).closed.drop (pos + 1)).find? (fun b => b.startAddr ∉ errs) with
    | some blk =>
      obtain ⟨hp, as, bs, hdrop, has⟩ := List.find?_eq_some_iff_append.mp hfind
      rw [decide_eq_true_eq] at hp
      obtain ⟨hin, hblk, hbefore⟩ := blk_of_drop hdrop
      have hlisted : ∀ j, pos < j → j < pos + 1 + as.length → last.addr j ∈ errs := by
        intro j hj hj'
        have hmem := has _ (hbefore j hj hj')
        rw [haddr j (by omega), Hw.addr]
        simpa using hmem
      have hfound : last.addr (pos + 1 + as.length) = blk.startAddr := by
        rw [haddr _ hin, Hw.addr, hblk]
      refine ⟨_, rfl, ?_⟩
      rcases Nat.lt_trichotomy (pos + 1 + as.length) target with hj | rfl | hj
      · exact Or.inr ⟨_, by omega, hj, hfound.symm, hfound ▸ hp⟩
      · exact Or.inl ⟨hfound.symm, hlisted⟩
      · exact absurd (hlisted target hlt hj) hun
    | none =>
      have hall := List.find?_eq_none.mp hfind
      have hlisted : ∀ j, pos < j → j < (g 1).closed.length → last.addr j ∈ errs := by
        intro j hj hj'
        have hmem := hall _ (mem_drop_closed (n := pos + 1) hj hj')
        rw [haddr j hj', Hw.addr]
        simpa using hmem
      refine ⟨_, rfl, Or.inl ⟨?_, fun j hj hj' => hlisted j hj (by omega)⟩⟩
      have hend : target = write := by
        by_contra hne
        exact hun (hlisted target hlt (by omega))
      exact (hs 2).trans (hcur hend).symm

/-- Messages of the first block are given back. -/
theorem Track.giveBack (ht : Track cfg h r c (us ++ vs)) (hus : ∀ t ∈ us, t.blk = r) : Track cfg h r c vs where
  nodup := ht.nodup
  blk := ht.blk
  zero := ht.zero
  passed := ht.passed
  sorted := (List.pairwise_append.mp ht.sorted).2.1
  behind := fun t hm => ht.behind t (List.mem_append_right _ hm)
  inside := fun t hm => ht.inside t (List.mem_append_right _ hm)
  listed := by
    obtain ⟨x, hx⟩ := ht.listed
    refine ⟨x, hx.le, hx.seen, hx.first, fun t hm => hx.tags t (List.mem_append_right _ hm), fun j hj hs => ?_⟩
    rcases hx.rest j hj hs with hmem | ⟨t, hm, htj⟩
    · exact Or.inl hmem
    · rcases List.mem_append.mp hm with hm | hm
      · have hle := hx.le
        have hblk := hus t hm
        omega
      · exact Or.inr ⟨t, hm, htj⟩

/-- The first block is given back. -/
theorem Track.advance (ht : Track cfg h r c us) (hf : Fit cfg r h) (hr : r < h.blocks.length)
    (hsub : vs.Sublist us) (hpassed : r + 1 ≤ c.procsBlk ∨ c.procsBlk + 1 = r + 1 ∧ h.len c.procsBlk ≤ c.procsOffset)
    (hin : ∀ t ∈ vs, r < t.blk) (hx : Listed h (r + 1) c vs x) :
    Track cfg h (r + 1) { c with errs := c.errs.erase (h.addr r) } vs where
  nodup := ht.nodup.erase _
  blk := ht.blk
  zero := ht.zero
  passed := hpassed
  sorted := ht.sorted.sublist hsub
  behind := fun t hm => ht.behind t (hsub.mem hm)
  inside := fun t hm => ⟨hin t hm, (ht.inside t (hsub.mem hm)).2⟩
  listed := by
    -- the entry that is erased is that of the first block
    have hkeep : ∀ j, r < j → j < h.blocks.length → h.addr j ∈ c.errs → h.addr j ∈ c.errs.erase (h.addr r) := by
      intro j hj hjb hmem
      exact (List.mem_erase_of_ne (hf.addr_ne (by omega) (Nat.le_refl r) (by omega) hjb hr)).mpr hmem
    refine ⟨x, hx.le, hx.seen, fun j hj hjx => ?_, hx.tags, fun j hj hs => ?_⟩
    · have hlt : j < h.blocks.length := by
        have hblk := ht.blk
        have hle := closed_le_blocks h
        rcases hx.seen with hseen | rfl <;> omega
      exact hkeep j hj hlt (hx.first j hj hjx)
    · rcases hx.rest j hj hs with hmem | htag
      · have hle := hx.le
        exact Or.inl (hkeep j (by omega) (ht.lt_blocks hs) hmem)
      · exact Or.inr htag

/-- A message that ends the first block. -/
theorem Track.ends {t : Tag} (ht : Track cfg h r c (t :: us)) (hf : Fit cfg r h) (hr : r < h.blocks.length)
    (hblk : t.blk = r) (hend : h.len r ≤ t.off + t.len) :
    Track cfg h (r + 1) { c with errs := c.errs.erase (h.addr r) } us := by
  obtain ⟨x, hx⟩ := ht.listed
  have hxt := hx.tags t List.mem_cons_self
  have hxr := hx.le
  have hafter : ∀ u ∈ us, r < u.blk := by
    intro u hu
    have hin := (ht.inside u (List.mem_cons_of_mem _ hu)).2.1
    rcases List.rel_of_pairwise_cons ht.sorted hu with hlt | ⟨heq, hle⟩
    · omega
    · rw [← heq, hblk] at hin
      omega
  refine ht.advance (x := r + 1) hf hr (List.sublist_cons_self _ _) ?_ hafter ?_
  · rcases ht.behind t List.mem_cons_self with hb | ⟨hb, hoff⟩
    · exact Or.inl (by omega)
    · refine Or.inr ⟨by omega, ?_⟩
      rw [← hb, hblk]
      omega
  · refine ⟨Nat.le_refl _, Or.inr rfl, fun j hj hjx => by omega, hafter, fun j hj hs => ?_⟩
    rcases hx.rest j (by omega) hs with hmem | ⟨u, hu, huj⟩
    · exact Or.inl hmem
    · rcases List.mem_cons.mp hu with rfl | hu
      · omega
      · exact Or.inr ⟨u, hu, huj⟩

/-- A message of the next block that is not listed. -/
theorem Track.ahead {t : Tag} (ht : Track cfg h r c (t :: us)) (hf : Fit cfg r h) (hr : r < h.blocks.length)
    (hlt : r < t.blk) (hlisted : ∀ j, r < j → j < t.blk → h.addr j ∈ c.errs) :
    Track cfg h (r + 1) { c with errs := c.errs.erase (h.addr r) } us := by
  obtain ⟨x, hx⟩ := ht.listed
  have hxt := hx.tags t List.mem_cons_self
  have hafter : ∀ u ∈ us, t.blk ≤ u.blk := by
    intro u hu
    rcases List.rel_of_pairwise_cons ht.sorted hu with hlt' | ⟨heq, -⟩ <;> omega
  have hprocs : t.blk ≤ c.procsBlk := by
    rcases ht.behind t List.mem_cons_self with hb | ⟨hb, -⟩ <;> omega
  refine ht.advance (x := t.blk) hf hr (List.sublist_cons_self _ _) (Or.inl (by omega))
    (fun u hu => Nat.lt_of_lt_of_le hlt (hafter u hu)) ?_
  refine ⟨hlt, Or.inl hprocs, fun j hj hjx => hlisted j hj hjx, hafter, fun j hj hs => ?_⟩
  rcases hx.rest j (by omega) hs with hmem | ⟨u, hu, huj⟩
  · exact Or.inl hmem
  · rcases List.mem_cons.mp hu with rfl | hu
    · omega
    · exact Or.inr ⟨u, hu, huj⟩

/-- The first block is listed, and so is not the last one that the list knows of. -/
theorem Track.skipListed {j : Nat} (ht : Track cfg h r c us) (hf : Fit cfg r h) (hr : r < h.blocks.length)
    (hj : r < j) (hseen : Seen c j) (hun : h.addr j ∉ c.errs) (hnone : ∀ t ∈ us, t.blk ≠ j) :
    h.addr r ∈ c.errs ∧ Track cfg h (r + 1) { c with errs := c.errs.erase (h.addr r) } us := by
  obtain ⟨x, hx⟩ := ht.listed
  have hjx : j ≤ x := by
    by_contra hlt
    rcases hx.rest j (by omega) hseen with hmem | ⟨t, hm, htj⟩
    · exact hun hmem
    · exact hnone t hm htj
  have hxp : x ≤ c.procsBlk := by
    rcases hx.seen with hs | hs
    · exact hs
    · omega
  refine ⟨hx.first r (Nat.le_refl r) (by omega), ?_⟩
  refine ht.advance (x := x) hf hr (List.Sublist.refl us) (Or.inl (by omega)) (fun t hm => ?_) ?_
  · have hle := hx.tags t hm
    omega
  · exact ⟨by omega, Or.inl hxp, fun i hi hix => hx.first i (by omega) hix, hx.tags, hx.rest⟩

/-! ## The walk -/

theorem Fit.later {r' : Nat} (hf : Fit cfg r h) (hle : r ≤ r') (hcl : r' ≤ h.closed.length) : Fit cfg r' h :=
  ⟨hcl, hf.pool, hf.short, hf.full, fun i j hi => hf.apart i j (Nat.le_trans hle hi)⟩

/-- What a walk from `w` to `w'` comes to, with the messages `vs` left. -/
structure Walked (cfg : Config) (last : Hw) (procsBlk procsOffset : Nat) (vs : List Tag) (w w' : Walk) : Prop where
  le : w.releaseBlk ≤ w'.releaseBlk
  closed : w'.releaseBlk ≤ last.closed.length
  pAddr : w'.pAddr = w.pAddr ++ (List.range' w.releaseBlk (w'.releaseBlk - w.releaseBlk)).map last.addr
  track : Track cfg last w'.releaseBlk ⟨procsBlk, procsOffset, w'.errs⟩ vs

/-- The first block of the walk is given back. -/
def Walk.moved (w : Walk) (a : BitVec 32) : Walk := ⟨w.releaseBlk + 1, w.errs.erase a, w.pAddr ++ [a]⟩

variable {last : Hw} {procsBlk procsOffset : Nat} {w w' : Walk}

theorem Walked.refl (hcl : w.releaseBlk ≤ last.closed.length)
    (ht : Track cfg last w.releaseBlk ⟨procsBlk, procsOffset, w.errs⟩ vs) :
    Walked cfg last procsBlk procsOffset vs w w where
  le := Nat.le_refl _
  closed := hcl
  pAddr := by rw [Nat.sub_self, List.range'_zero, List.map_nil, List.append_nil]
  track := ht

theorem Walked.moved (hw : Walked cfg last procsBlk procsOffset vs (w.moved (last.addr w.releaseBlk)) w') :
    Walked cfg last procsBlk procsOffset vs w w' where
  le := Nat.le_of_succ_le hw.le
  closed := hw.closed
  pAddr := by
    have hle : w.releaseBlk + 1 ≤ w'.releaseBlk := hw.le
    have hsplit : w'.releaseBlk - w.releaseBlk = w'.releaseBlk - (w.releaseBlk + 1) + 1 := by omega
    rw [hsplit, List.range'_succ, List.map_cons, hw.pAddr, Walk.moved, List.append_assoc, List.singleton_append]
  track := hw.track

theorem lookAhead_some {g : Nat → Hw} {errs : ErrList} {pos write : Nat} (hr : r ≤ pos) (hpos : pos < write) :
    ∃ a, lookAhead errs g r (pos + 1) write = (some a, (g 1).closed.length) := by
  have hvalid : isAddrValid r write (pos + 1) = true := by
    rw [isAddrValid, Bool.and_eq_true, decide_eq_true_eq, decide_eq_true_eq]
    omega
  unfold lookAhead
  rw [if_pos hvalid]
  dsimp only
  split_ifs
  · exact ⟨_, rfl⟩
  · split
    · exact ⟨_, rfl⟩
    · exact ⟨_, rfl⟩

/-- **One round of the walk.** All messages are seen, or the first block is completed; the walk does not come to the
    end where it has lost track. -/
theorem scan_track {s : BitVec 32} {a : BitVec 32}
    (hf : Fit cfg pos last) (hcl : pos < last.closed.length) (hgrow : ∀ i, Grow (g i) last)
    (hs : ∀ i, (g i).cur.startAddr = s) (hw0 : w0 ≤ write) (hw1 : write ≤ (g 1).closed.length) (hr : r ≤ pos)
    (hlt : pos < write) (htags : ∀ t ∈ us, t.blk ≤ w0 ∧ (t.blk = w0 → last.addr t.blk = s))
    (hun : ∀ t ∈ us, last.addr t.blk ∉ errs) (ht : Track cfg last pos ⟨procsBlk, procsOffset, errs⟩ (us ++ vs))
    (ha : lookAhead errs g r (pos + 1) write = (some a, (g 1).closed.length)) :
    (scan cfg errs (last.addr pos) (last.len pos) (some a) (us.map (Tag.msg last)) = .over ∧
      Track cfg last pos ⟨procsBlk, procsOffset, errs⟩ vs) ∨
    ∃ us', us'.Sublist us ∧ (∃ t ∈ us, pos < t.upTo last) ∧
      (scan cfg errs (last.addr pos) (last.len pos) (some a) (us.map (Tag.msg last)) = .full (us'.map (Tag.msg last)) ∨
        scan cfg errs (last.addr pos) (last.len pos) (some a) (us.map (Tag.msg last)) =
          .listed (us'.map (Tag.msg last))) ∧
      Track cfg last (pos + 1) ⟨procsBlk, procsOffset, errs.erase (last.addr pos)⟩ (us' ++ vs) := by
  have hposb := Nat.lt_of_lt_of_le hcl (closed_le_blocks last)
  have hin := fun t (hm : t ∈ us) => ht.inside t (List.mem_append_left _ hm)
  rcases @scan_cases cfg last pos us pos errs a hf (Nat.le_refl _) hcl hin with
    ⟨hover, hall⟩ | ⟨pre, t, rest, rfl, hpre, ⟨hblk, hend, hres⟩ | ⟨hne, hres⟩⟩
  · exact Or.inl ⟨hover, ht.giveBack hall⟩
  · rw [List.append_assoc] at ht
    have htrack := (ht.giveBack hpre).ends hf hposb hblk hend
    have hup : pos < t.upTo last := by
      rw [Tag.upTo, hblk, if_pos hend]
      exact Nat.lt_succ_self pos
    exact Or.inr ⟨rest, (List.sublist_cons_self t rest).trans (List.sublist_append_right _ _),
      ⟨t, List.mem_append_right _ List.mem_cons_self, hup⟩, Or.inl hres, htrack⟩
  · have hmem : t ∈ pre ++ t :: rest := List.mem_append_right _ List.mem_cons_self
    obtain ⟨hpt, hoff, -⟩ := hin t hmem
    have htb := lt_blocks_of_len (Nat.lt_of_le_of_lt (Nat.zero_le _) hoff)
    have hofft := Nat.lt_of_lt_of_le hoff (hf.short _ htb)
    have hahead : pos < t.blk := by omega
    have hup : ∃ u ∈ pre ++ t :: rest, pos < u.upTo last := ⟨t, hmem, Nat.lt_of_lt_of_le hahead (Nat.le_add_right _ _)⟩
    rw [List.append_assoc] at ht
    have htrack := ht.giveBack hpre
    obtain ⟨a', ha', hnext⟩ := lookAhead_cases hgrow hs hw1 hr hlt hahead (by have := (htags t hmem).1; omega)
      (fun heq => (htags t hmem).2 (by have := (htags t hmem).1; omega)) (hun t hmem)
    obtain ⟨rfl⟩ := Option.some.inj (Prod.mk.inj (ha.symm.trans ha')).1
    right
    rcases hnext with ⟨rfl, hlisted⟩ | ⟨j, hj, hjt, rfl, hunj⟩
    · -- the next block is that of the message
      have hself : inBlock (t.msg last) (last.addr t.blk) cfg.blockSize = true :=
        inBlock_self (hf.pool _ htb) hofft (Nat.le_refl _)
      rw [if_pos hself] at hres
      exact ⟨rest, (List.sublist_cons_self t rest).trans (List.sublist_append_right _ _), hup, Or.inl hres,
        htrack.ahead hf hposb hahead hlisted⟩
    · -- the next block is one whose messages are all given back, and all blocks before it are listed
      have hjb : j < last.blocks.length := by omega
      have hother : inBlock (t.msg last) (last.addr j) cfg.blockSize = false :=
        inBlock_other (hf.pool _ hjb) (hf.pool _ htb) (hf.apart j _ (Nat.le_of_lt hj) hjt htb) hofft cfg.blockSize_pos
          (Nat.le_refl _)
      have hprocs : t.blk ≤ procsBlk := by
        rcases htrack.behind t List.mem_cons_self with hb | ⟨hb, -⟩
        · exact Nat.le_of_lt hb
        · exact Nat.le_of_eq hb
      have hafter : ∀ u ∈ t :: (rest ++ vs), u.blk ≠ j := by
        intro u hu
        rcases List.mem_cons.mp hu with rfl | hu
        · omega
        · rcases List.rel_of_pairwise_cons htrack.sorted hu with hb | ⟨hb, -⟩ <;> omega
      obtain ⟨hlist, hnew⟩ := htrack.skipListed hf hposb hj (Or.inl (Nat.lt_of_lt_of_le hjt hprocs)) hunj hafter
      rw [if_neg (by rw [hother]; exact Bool.false_ne_true), if_pos hlist] at hres
      exact ⟨t :: rest, List.sublist_append_right _ _, hup, Or.inr hres, hnew⟩

/-- At the write pointer, all messages that are left are in the current block. -/
theorem walked_stop (hw0 : w0 ≤ write) (hcl : write ≤ last.closed.length) (heq : w.releaseBlk = write)
    (htags : ∀ t ∈ us, t.blk ≤ w0) (ht : Track cfg last w.releaseBlk ⟨procsBlk, procsOffset, w.errs⟩ (us ++ vs)) :
    Walked cfg last procsBlk procsOffset vs w w := by
  refine Walked.refl (by omega) (ht.giveBack (fun t hm => ?_))
  have hle := (ht.inside t (List.mem_append_left _ hm)).1
  have hle' := htags t hm
  omega

/-- **The walk keeps track of the blocks**, where none of the messages it is given is in a block on the error list, and
    the hardware takes no other block. `w0` is the write pointer when the call began. -/
theorem walk_track {fuel : Nat} (w0 : Nat) (s : BitVec 32) (hf : Fit cfg r last)
    (hgrow : ∀ i, Grow (g i) last) (hmono : ∀ i, (g i).closed.length ≤ (g (i + 1)).closed.length)
    (hs : ∀ i, (g i).cur.startAddr = s) (hw0 : w0 ≤ write) (hwrite : write ≤ (g 0).closed.length)
    (hr : r ≤ w.releaseBlk) (hpos : w.releaseBlk ≤ write) (hfuel : last.closed.length ≤ w.releaseBlk + fuel)
    (htags : ∀ t ∈ us, t.blk ≤ w0 ∧ (t.blk = w0 → last.addr t.blk = s)) (hun : ∀ t ∈ us, last.addr t.blk ∉ w.errs)
    (ht : Track cfg last w.releaseBlk ⟨procsBlk, procsOffset, w.errs⟩ (us ++ vs)) :
    ∃ w', walk cfg r fuel g write (us.map (Tag.msg last)) w = .ok w' ∧
      Walked cfg last procsBlk procsOffset vs w w' ∧
      (w'.releaseBlk = w.releaseBlk ∨ ∃ t ∈ us, w'.releaseBlk ≤ t.upTo last) := by
  induction fuel generalizing w g write us with
  | zero =>
    have hcl := Nat.le_trans hwrite (hgrow 0).closed
    exact ⟨w, rfl, walked_stop hw0 hcl (by omega) (fun t hm => (htags t hm).1) ht, Or.inl rfl⟩
  | succ fuel ih =>
    have hclosed := Nat.le_trans hwrite (hgrow 0).closed
    rw [walk]
    by_cases heq : w.releaseBlk = write
    · rw [if_pos heq]
      exact ⟨w, rfl, walked_stop hw0 hclosed heq (fun t hm => (htags t hm).1) ht, Or.inl rfl⟩
    · rw [if_neg heq]
      have hlt : w.releaseBlk < write := by omega
      have hcl : w.releaseBlk < last.closed.length := by omega
      have hfit := hf.later hr (Nat.le_of_lt hcl)
      have hrb := Nat.lt_of_lt_of_le hcl (closed_le_blocks last)
      have hcur : (g 0).closed.getD w.releaseBlk ⟨0, []⟩ = last.blk w.releaseBlk := by
        have hlt0 : w.releaseBlk < (g 0).closed.length := by omega
        rw [(hgrow 0).stay _ hlt0, blk_closed hlt0]
        rfl
      have hw1 : write ≤ (g 1).closed.length := Nat.le_trans hwrite (hmono 0)
      -- the walk goes on behind the first block
      have hgo : ∀ {us' : List Tag}, us'.Sublist us → (∃ t ∈ us, w.releaseBlk < t.upTo last) →
          Track cfg last (w.releaseBlk + 1) ⟨procsBlk, procsOffset, w.errs.erase (last.addr w.releaseBlk)⟩
            (us' ++ vs) →
          ∃ w', walk cfg r fuel (fun i => g (i + 3)) (g 1).closed.length (us'.map (Tag.msg last))
              (w.moved (last.addr w.releaseBlk)) = .ok w' ∧ Walked cfg last procsBlk procsOffset vs w w' ∧
            (w'.releaseBlk = w.releaseBlk ∨ ∃ t ∈ us, w'.releaseBlk ≤ t.upTo last) := by
        intro us' hsub hup htrack
        have hw3 : (g 1).closed.length ≤ (g 3).closed.length := Nat.le_trans (hmono 1) (hmono 2)
        have hpos' : (w.moved (last.addr w.releaseBlk)).releaseBlk ≤ (g 1).closed.length :=
          Nat.le_trans hlt hw1
        have hfuel' : last.closed.length ≤ (w.moved (last.addr w.releaseBlk)).releaseBlk + fuel := by
          show last.closed.length ≤ w.releaseBlk + 1 + fuel
          omega
        obtain ⟨w', hrun, hw', hcount⟩ := ih (w := w.moved (last.addr w.releaseBlk)) (g := fun i => g (i + 3))
          (fun i => hgrow (i + 3)) (fun i => hmono (i + 3)) (fun i => hs (i + 3)) (by omega) hw3
          (Nat.le_succ_of_le hr) hpos' hfuel' (fun t hm => htags t (hsub.mem hm))
          (fun t hm hmem => hun t (hsub.mem hm) (List.mem_of_mem_erase hmem)) htrack
        refine ⟨w', hrun, hw'.moved, Or.inr ?_⟩
        rcases hcount with heq | ⟨t, hm, hle⟩
        · obtain ⟨t, hm, hlt⟩ := hup
          exact ⟨t, hm, Nat.le_trans (Nat.le_of_eq heq) hlt⟩
        · exact ⟨t, hsub.mem hm, hle⟩
      obtain ⟨a, ha⟩ := @lookAhead_some r g w.errs _ _ hr hlt
      have hround := scan_track hfit hcl hgrow hs hw0 hw1 hr hlt htags hun ht ha
      rw [hcur, ha]
      dsimp only
      rcases hround with ⟨hover, htrack⟩ | ⟨us', hsub, hup, hfull | hlisted, htrack⟩
      · rw [Hw.addr, Hw.len] at hover
        rw [hover]
        exact ⟨w, rfl, .refl (Nat.le_of_lt hcl) htrack, Or.inl rfl⟩
      · rw [Hw.addr, Hw.len] at hfull
        rw [hfull]
        cases us' with
        | nil => exact ⟨_, rfl, Walked.moved (.refl hcl htrack), Or.inr hup⟩
        | cons t us' => exact hgo hsub hup htrack
      · rw [Hw.addr, Hw.len] at hlisted
        rw [hlisted]
        exact hgo hsub hup htrack

/-! ## Calls -/

/-- The check for an invalid pointer, where it finds what it looks for. -/
theorem Track.checkProcs {releaseBlk n fqWrite : Nat} (ht : Track cfg h releaseBlk c vs)
    (hcl : releaseBlk ≤ h.closed.length)
    (hcheck : 0 < n → procsInvalid (releaseBlk % cfg.oqDepth) ((fqWrite + n) % cfg.depth)
      (c.procsBlk % cfg.oqDepth) = true →
      c.procsBlk < releaseBlk) :
    Track cfg h releaseBlk (checkProcs cfg releaseBlk n fqWrite c) vs := by
  unfold Release.checkProcs
  split_ifs with hfires
  · have hlt := hcheck (Nat.pos_of_ne_zero hfires.1) hfires.2
    have hnil : vs = [] := by
      refine List.eq_nil_iff_forall_not_mem.mpr (fun t hm => ?_)
      have hle := (ht.inside t hm).1
      rcases ht.behind t hm with hb | ⟨hb, -⟩ <;> omega
    subst hnil
    refine ⟨ht.nodup, hcl, fun _ _ => rfl, Or.inl (Nat.le_refl _), .nil, fun t hm => absurd hm List.not_mem_nil,
      fun t hm => absurd hm List.not_mem_nil, releaseBlk, Nat.le_refl _, Or.inr rfl, fun j hj hjx => by omega,
      fun t hm => absurd hm List.not_mem_nil, fun j hj hs => ?_⟩
    rcases hs with hs | ⟨-, hs⟩
    · have hs' : j < releaseBlk := hs
      omega
    · exact absurd hs (Nat.lt_irrefl _)
  · exact ht

/-- The hardware takes a block. -/
def takes : HwEvent → Bool
  | .take _ => true
  | _ => false

theorem cur_hwRun {es : List HwEvent} (hes : ∀ e ∈ es, takes e = false) :
    (hwRun cfg r h es).cur.startAddr = h.cur.startAddr := by
  refine hwRun_inv (P := fun g => g.cur.startAddr = h.cur.startAddr) rfl ?_
  intro g e he hg _
  rcases next_cases g e with heq | ⟨a, rfl, -, -⟩ | ⟨sec, -, -, -, heq⟩ | ⟨-, -, heq⟩
  · rw [heq]
    exact hg
  · cases hes _ he
  · rw [heq]
    exact hg
  · rw [heq]
    exact hg

/-! ## The condition -/

/-- The blocks that a message completes, of the blocks in use: those before its block, and that one where it ends it. -/
def completed (cfg : Config) (m : Msg) : List Block → Nat
  | [] => 0
  | b :: bs =>
    if inBlock m b.startAddr cfg.blockSize then (endsBlock m b.startAddr b.data.length).toNat
    else completed cfg m bs + 1

/-- A message completes the blocks from the read pointer on up to its position. -/
theorem completed_msg {t : Tag} (hf : Fit cfg r h) (hr : r ≤ t.blk) (hoff : t.off < h.len t.blk)
    (hend : t.off + t.len ≤ cfg.blockSize + cfg.tsPacketLen) {k : Nat} (hrk : r ≤ k) (hk : k ≤ t.blk) :
    k + completed cfg (t.msg h) (h.blocks.drop k) = t.upTo h := by
  have htb := lt_blocks_of_len (Nat.lt_of_le_of_lt (Nat.zero_le _) hoff)
  have hkb := Nat.lt_of_le_of_lt hk htb
  have hcons : h.blocks.drop k = h.blk k :: h.blocks.drop (k + 1) := by
    rw [List.drop_eq_getElem_cons hkb, Hw.blk, List.getD_eq_getElem?_getD, List.getElem?_eq_getElem hkb,
      Option.getD_some]
  rw [hcons, completed]
  by_cases heq : k = t.blk
  · have hself : inBlock (t.msg h) (h.blk k).startAddr cfg.blockSize = true := by
      rw [heq]
      exact inBlock_self (hf.pool _ htb) (Nat.lt_of_lt_of_le hoff (hf.short _ htb)) (Nat.le_refl _)
    have hends : endsBlock (t.msg h) (h.blk k).startAddr (h.blk k).data.length = true ↔
        h.len t.blk ≤ t.off + t.len := by
      rw [heq]
      exact endsBlock_iff (hf.pool _ htb) hend (hf.short _ htb)
    rw [if_pos hself, Tag.upTo, heq]
    by_cases hlast : h.len t.blk ≤ t.off + t.len
    · rw [if_pos hlast, ← heq, hends.mpr hlast, Bool.toNat_true]
    · rw [if_neg hlast, ← heq, Bool.eq_false_iff.mpr (fun hc => hlast (hends.mp hc)), Bool.toNat_false]
  · have hlt : k < t.blk := by omega
    have hother : inBlock (t.msg h) (h.blk k).startAddr cfg.blockSize = false :=
      inBlock_other (hf.pool _ hkb) (hf.pool _ htb) (hf.apart k _ hrk hlt htb)
        (Nat.lt_of_lt_of_le hoff (hf.short _ htb)) cfg.blockSize_pos (Nat.le_refl _)
    rw [if_neg (by rw [hother]; exact Bool.false_ne_true)]
    have hrest := completed_msg hf hr hoff hend (k := k + 1) (Nat.le_succ_of_le hrk) hlt
    omega
termination_by t.blk - k

/-- With more data in its block, a message completes no more. -/
theorem Tag.upTo_grow {t : Tag} (hg : Grow h h') (ht : t.blk < h.blocks.length) : t.upTo h' ≤ t.upTo h := by
  have hlen := hg.len t.blk ht
  unfold Tag.upTo
  split_ifs <;> omega

/-- **When the driver keeps track.** When data are asked for, the error list has room for the blocks that are not read
    yet. When messages are given back, none of their blocks is on the error list, they complete no more blocks than
    `pAddr` has room for, the hardware takes no block during the call, and the check at its end finds an invalid pointer
    only where the pointer is behind the blocks that are given back. -/
def Calm (cfg : Config) (s : Sys) : Input → Prop
  | .hw _ | .others _ => True
  | .read _ between =>
    s.chan.errs.length + ((hwRun cfg s.read s.hw between.flatten).blocks.length - s.chan.procsBlk) ≤ cfg.maxErrListNum
  | .release relNum fqWrite between =>
    (∀ e ∈ between.flatten, takes e = false) ∧
    (∀ m ∈ s.held.take relNum, (∀ a ∈ s.chan.errs, inBlock m a cfg.blockSize = false) ∧
      completed cfg m (inUse s.read s.hw) ≤ cfg.maxErrListNum) ∧
    ∀ n ∈ List.range' 1 ((hwRun cfg s.read s.hw between.flatten).closed.length - s.read),
      procsInvalid ((s.read + n) % cfg.oqDepth) ((fqWrite + n) % cfg.depth) (s.chan.procsBlk % cfg.oqDepth) = true →
        s.chan.procsBlk < s.read + n

/-- What a call may show. -/
def Event.Sound (cfg : Config) : Event → Prop
  | .acquired _ => True
  | .released pAddr held => ∀ a ∈ pAddr, ∀ m ∈ held, inBlock m a cfg.blockSize = false
  | .resetPool | .overrun => False

/-- The blocks that were given back. -/
def Event.returned : Event → List (BitVec 32)
  | .released pAddr _ => pAddr
  | _ => []

/-- **The invariant of the runs.** -/
structure Inv (cfg : Config) (s : Sys) (es : List Event) : Prop where
  fit : Fit cfg s.read s.hw
  track : ∃ ts, Track cfg s.hw s.read s.chan ts ∧ s.held = ts.map (Tag.msg s.hw)
  returned : es.flatMap Event.returned = (List.range s.read).map s.hw.addr
  sound : ∀ e ∈ es, e.Sound cfg

theorem range_grow (hg : Grow h h') (hr : r ≤ h.closed.length) :
    (List.range r).map h'.addr = (List.range r).map h.addr := by
  refine List.map_congr_left (fun j hj => hg.addr j ?_)
  rw [List.mem_range] at hj
  exact Nat.lt_of_lt_of_le (Nat.lt_of_lt_of_le hj hr) (closed_le_blocks h)

variable {s t : Sys} {es fs : List Event}

/-- The hardware goes on between the calls. -/
theorem Inv.hw (hi : Inv cfg s es) (evs : List HwEvent) :
    Inv cfg { s with hw := hwRun cfg s.read s.hw evs } es := by
  obtain ⟨hfit, hgrow⟩ := hwRun_fit hi.fit evs
  obtain ⟨ts, ht, hheld⟩ := hi.track
  refine ⟨hfit, ⟨ts, ht.grow hgrow hi.fit.read, ?_⟩, ?_, hi.sound⟩
  · rw [msgs_grow hgrow (fun t hm => ht.tag_lt hm)]
    exact hheld
  · rw [range_grow hgrow hi.fit.read]
    exact hi.returned

/-- Other channels change their part of the error list. -/
theorem Inv.others (hi : Inv cfg s es) (hnodup : errs.Nodup)
    (hsame : ∀ b ∈ inUse s.read s.hw, b.startAddr ∈ errs ↔ b.startAddr ∈ s.chan.errs) :
    Inv cfg { s with chan := { s.chan with errs := errs } } es := by
  obtain ⟨ts, ht, hheld⟩ := hi.track
  have hmem : ∀ j, s.read ≤ j → j < s.hw.blocks.length → s.hw.addr j ∈ s.chan.errs → s.hw.addr j ∈ errs :=
    fun j hj hjb h => (hsame _ (mem_inUse hj hjb)).mpr h
  refine ⟨hi.fit, ⟨ts, ⟨hnodup, ht.blk, ht.zero, ht.passed, ht.sorted, ht.behind, ht.inside, ?_⟩, hheld⟩, hi.returned,
    hi.sound⟩
  obtain ⟨x, hx⟩ := ht.listed
  refine ⟨x, hx.le, hx.seen, fun j hj hjx => ?_, hx.tags, fun j hj hs => ?_⟩
  · have hcl := hx.lt_closed ht hj hjx
    exact hmem j hj (Nat.lt_of_lt_of_le hcl (closed_le_blocks _)) (hx.first j hj hjx)
  · rcases hx.rest j hj hs with hlisted | htag
    · exact Or.inl (hmem j (Nat.le_trans hx.le (Nat.le_of_lt hj)) (ht.lt_blocks hs) hlisted)
    · exact Or.inr htag

/-- **A call for data keeps the invariant.** -/
theorem Inv.read {acqNum : Nat} {between : List (List HwEvent)} (hi : Inv cfg s es)
    (hcalm : Calm cfg s (.read acqNum between))
    (hstep : step cfg s (.read acqNum between) = some (t, fs)) : Inv cfg t (es ++ fs) := by
  have hsound : ∀ msgs, ∀ e ∈ es ++ [Event.acquired msgs], e.Sound cfg := by
    intro msgs e he
    rcases List.mem_append.mp he with he | he
    · exact hi.sound e he
    · rw [List.mem_singleton.mp he]
      exact trivial
  simp only [step] at hstep
  split_ifs at hstep with hacq
  · cases hstep
    refine ⟨hi.fit, hi.track, ?_, hsound []⟩
    rw [List.flatMap_append]
    exact (List.append_nil _).trans hi.returned
  · cases hstep
    obtain ⟨ts, ht, hheld⟩ := hi.track
    have hreads := reads_between hi.fit between
    obtain ⟨vs, htrack, hmsgs⟩ := readSec_track (Nat.pos_of_ne_zero hacq) hreads.fit hreads.mono
      (ht.grow (hreads.first 0) hi.fit.read) (fun i => (hreads.last i).blocks) hcalm
    have hgrow : Grow s.hw (hwRun cfg s.read s.hw between.flatten) := (hreads.first 7).trans (hreads.last 7)
    refine ⟨hreads.fitLast, ⟨ts ++ vs, htrack.grow (hreads.last 7) (hreads.fit 7).read, ?_⟩, ?_, hsound _⟩
    · rw [List.map_append, hheld, hmsgs, msgs_grow hgrow (fun t hm => ht.tag_lt hm),
        msgs_grow (hreads.last 7) (fun t hm => htrack.tag_lt (List.mem_append_right _ hm))]
    · rw [List.flatMap_append, range_grow hgrow hi.fit.read]
      exact (List.append_nil _).trans hi.returned

/-- The walk of a release. -/
theorem Inv.walk {ts : List Tag} (hfit : Fit cfg s.read s.hw)
    (ht : Track cfg s.hw s.read s.chan ts) (hheld : s.held = ts.map (Tag.msg s.hw))
    (hcalm : Calm cfg s (.release relNum fqWrite between)) :
    ∃ w', Release.walk cfg s.read (hwRun cfg s.read s.hw between.flatten).closed.length
        (fun i => readAt cfg s.read s.hw between (i + 1)) (readAt cfg s.read s.hw between 0).closed.length
        (s.held.take relNum) ⟨s.read, s.chan.errs, []⟩ = .ok w' ∧
      Walked cfg (hwRun cfg s.read s.hw between.flatten) s.chan.procsBlk s.chan.procsOffset (ts.drop relNum)
        ⟨s.read, s.chan.errs, []⟩ w' ∧ w'.Fits cfg := by
  obtain ⟨hnotake, hmsgsCalm, -⟩ := hcalm
  have hreads := reads_between hfit between
  have hgrow : Grow s.hw (hwRun cfg s.read s.hw between.flatten) := (hreads.first 0).trans (hreads.last 0)
  have htake : ∀ t ∈ ts.take relNum, t ∈ ts := fun t hm => List.mem_of_mem_take hm
  have hmsgs : s.held.take relNum = (ts.take relNum).map (Tag.msg (hwRun cfg s.read s.hw between.flatten)) := by
    rw [hheld, ← List.map_take, msgs_grow hgrow (fun t hm => ht.tag_lt (htake t hm))]
  have hheldMem : ∀ t ∈ ts.take relNum, t.msg s.hw ∈ s.held.take relNum := by
    intro t hm
    rw [hheld, ← List.map_take]
    exact List.mem_map_of_mem hm
  rw [hmsgs]
  suffices hwalk : ∃ w', _ = Except.ok w' ∧ Walked cfg _ _ _ (ts.drop relNum) _ w' ∧ (w'.releaseBlk = s.read ∨
      ∃ t ∈ ts.take relNum, w'.releaseBlk ≤ t.upTo (hwRun cfg s.read s.hw between.flatten)) by
    obtain ⟨w', hrun, hw', hcount⟩ := hwalk
    refine ⟨w', hrun, hw', ?_⟩
    -- no more blocks than the messages complete
    rw [Walk.Fits, hw'.pAddr, List.nil_append, List.length_map, List.length_range']
    rcases hcount with heq | ⟨t, hm, hle⟩
    · exact Nat.le_trans (Nat.le_of_eq (Nat.sub_eq_zero_of_le (Nat.le_of_eq heq))) (Nat.zero_le _)
    · have hin := ht.inside t (htake t hm)
      have hroom := (hmsgsCalm _ (hheldMem t hm)).2
      have hgoes := Tag.upTo_grow hgrow (ht.tag_lt (htake t hm))
      have hcompl := completed_msg hfit hin.1 hin.2.1 hin.2.2 (Nat.le_refl _) hin.1
      change s.read + completed cfg (t.msg s.hw) (inUse s.read s.hw) = _ at hcompl
      show w'.releaseBlk - s.read ≤ _
      omega
  refine walk_track s.hw.closed.length s.hw.cur.startAddr hreads.fitLast (fun i => hreads.last (i + 1))
    (fun i => (hreads.mono _ _ (Nat.le_succ _)).closed) (fun i => ?_) (hreads.first 0).closed
    (hreads.mono 0 1 (Nat.le_succ _)).closed (Nat.le_refl _) (Nat.le_trans hfit.read (hreads.first 0).closed)
    (Nat.le_add_left _ _) (fun t hm => ?_) (fun t hm hmem => ?_) ?_
  · refine cur_hwRun (fun e he => hnotake e ?_)
    obtain ⟨l, hl, he⟩ := List.mem_flatten.mp he
    exact List.mem_flatten.mpr ⟨l, List.mem_of_mem_take hl, he⟩
  · have hlt := ht.tag_lt (htake t hm)
    rw [hgrow.addr _ hlt]
    rw [length_blocks] at hlt
    cases hv : s.hw.valid with
    | true =>
      rw [hv, Bool.toNat_true] at hlt
      refine ⟨by omega, fun heq => ?_⟩
      rw [heq, Hw.addr, blk_cur hv]
    | false =>
      rw [hv, Bool.toNat_false] at hlt
      exact ⟨by omega, fun heq => by omega⟩
  · -- the block of a message that is given back is not listed
    have htb := ht.tag_lt (htake t hm)
    rw [hgrow.addr _ htb] at hmem
    have hin := ht.inside t (htake t hm)
    have hself : inBlock (t.msg s.hw) (s.hw.addr t.blk) cfg.blockSize = true :=
      inBlock_self (hfit.pool _ htb) (Nat.lt_of_lt_of_le hin.2.1 (hfit.short _ htb)) (Nat.le_refl _)
    rw [(hmsgsCalm _ (hheldMem t hm)).1 _ hmem] at hself
    cases hself
  · rw [List.take_append_drop]
    exact ht.grow hgrow hfit.read

/-- **A release keeps the invariant.** -/
theorem Inv.release (hi : Inv cfg s es)
    (hcalm : Calm cfg s (.release relNum fqWrite between))
    (hstep : step cfg s (.release relNum fqWrite between) = some (t, fs)) : Inv cfg t (es ++ fs) := by
  obtain ⟨ts, ht, hheld⟩ := hi.track
  obtain ⟨w', hwalk, hw', hfits⟩ := Inv.walk hi.fit ht hheld hcalm
  have hreads := reads_between hi.fit between
  have hgrow : Grow s.hw (hwRun cfg s.read s.hw between.flatten) := (hreads.first 0).trans (hreads.last 0)
  simp only [step] at hstep
  rw [hwalk] at hstep
  dsimp only at hstep
  rw [if_pos hfits] at hstep
  cases hstep
  have hle : s.read ≤ w'.releaseBlk := hw'.le
  have haddr : w'.pAddr = (List.range' s.read (w'.releaseBlk - s.read)).map
      (hwRun cfg s.read s.hw between.flatten).addr := hw'.pAddr
  have hcount : w'.pAddr.length = w'.releaseBlk - s.read := by
    rw [haddr, List.length_map, List.length_range']
  have hdrop : s.held.drop relNum = (ts.drop relNum).map (Tag.msg (hwRun cfg s.read s.hw between.flatten)) := by
    rw [hheld, ← List.map_drop, msgs_grow hgrow (fun t hm => ht.tag_lt (List.mem_of_mem_drop hm))]
  refine ⟨hreads.fitLast.later hle hw'.closed, ⟨ts.drop relNum, ?_, hdrop⟩, ?_, fun e he => ?_⟩
  · refine hw'.track.checkProcs hw'.closed (fun hpos hinv => ?_)
    have hmax : w'.pAddr.length ≤ (hwRun cfg s.read s.hw between.flatten).closed.length - s.read := by
      rw [hcount]
      exact Nat.sub_le_sub_right hw'.closed _
    have hcheck := hcalm.2.2 w'.pAddr.length (List.mem_range'_1.mpr (by omega))
    rw [hcount, Nat.add_sub_cancel' hle] at hcheck
    rw [hcount] at hinv
    exact hcheck hinv
  · rw [List.flatMap_append, hi.returned, ← range_grow hgrow hi.fit.read]
    show _ ++ (w'.pAddr ++ []) = _
    have hsplit : List.range w'.releaseBlk = List.range s.read ++ List.range' s.read (w'.releaseBlk - s.read) := by
      have happ := @List.range'_append_1 0 s.read (w'.releaseBlk - s.read)
      rw [Nat.zero_add, Nat.add_sub_cancel' hle] at happ
      rw [List.range_eq_range', List.range_eq_range']
      exact happ.symm
    rw [List.append_nil, haddr, hsplit, List.map_append]
  · rcases List.mem_append.mp he with he | he
    · exact hi.sound e he
    · rw [List.mem_singleton.mp he]
      intro a ha m hm
      rw [haddr] at ha
      rw [hdrop] at hm
      obtain ⟨j, hj, rfl⟩ := List.mem_map.mp ha
      obtain ⟨u, hu, rfl⟩ := List.mem_map.mp hm
      rw [List.mem_range'_1] at hj
      have hub := hw'.track.tag_lt hu
      have hin := hw'.track.inside u hu
      have hfit := hreads.fitLast
      have hlt : j < u.blk := by omega
      exact inBlock_other (hfit.pool _ (Nat.lt_trans hlt hub)) (hfit.pool _ hub) (hfit.apart j _ hj.1 hlt hub)
        (Nat.lt_of_lt_of_le hin.2.1 (hfit.short _ hub)) cfg.blockSize_pos (Nat.le_refl _)

/-! ## Runs -/

theorem inv_init (cfg : Config) : Inv cfg init [] where
  fit := ⟨Nat.le_refl _, fun _ hj => absurd hj (Nat.not_lt_zero _), fun _ hj => absurd hj (Nat.not_lt_zero _),
    fun _ hj => absurd hj (Nat.not_lt_zero _), fun _ _ _ _ hj => absurd hj (Nat.not_lt_zero _)⟩
  track := by
    refine ⟨[], ⟨List.nodup_nil, Nat.le_refl _, fun _ _ => rfl, Or.inl (Nat.le_refl _), .nil,
      fun _ hm => absurd hm List.not_mem_nil, fun _ hm => absurd hm List.not_mem_nil, 0, Nat.le_refl _, Or.inr rfl,
      fun j _ hj => absurd hj (Nat.not_lt_zero _), fun _ hm => absurd hm List.not_mem_nil, fun j _ hs => ?_⟩, rfl⟩
    rcases hs with hs | ⟨-, hs⟩
    · exact absurd hs (Nat.not_lt_zero _)
    · exact absurd hs (Nat.lt_irrefl _)
  returned := rfl
  sound := fun _ he => absurd he List.not_mem_nil

theorem run_inv (hrun : Lib.Run (step cfg) (Calm cfg) init is s es) : Inv cfg s es := by
  refine Lib.Run.inv_effects (fun _ s es => Inv cfg s es) (inv_init cfg) ?_ hrun
  intro _ s es i t fs hi hcalm hstep
  cases i with
  | hw e =>
    cases hstep
    rw [List.append_nil]
    exact hi.hw [e]
  | others errs =>
    simp only [step] at hstep
    split_ifs at hstep with hok
    cases hstep
    rw [List.append_nil]
    exact hi.others hok.1 hok.2
  | read acqNum between => exact hi.read hcalm hstep
  | release relNum fqWrite between => exact hi.release hcalm hstep

/-- **A release returns blocks that are read and given back, each once and in order, never wipes the pool, and never
    writes behind its array**, in every run that meets the condition. -/
theorem run_release (cfg : Config) {is : List Input} {s : Sys} {es : List Event}
    (hrun : Lib.Run (step cfg) (Calm cfg) init is s es) :
    (∀ e ∈ es, e ≠ .resetPool ∧ e ≠ .overrun) ∧
    (∀ pAddr held, .released pAddr held ∈ es → ∀ a ∈ pAddr, ∀ m ∈ held, inBlock m a cfg.blockSize = false) ∧
    es.flatMap Event.returned = (s.hw.closed.take s.read).map Block.startAddr ∧
    (s.read ≤ s.chan.procsBlk ∨ s.chan.procsBlk + 1 = s.read ∧ s.hw.len s.chan.procsBlk ≤ s.chan.procsOffset) := by
  have hi := run_inv hrun
  obtain ⟨ts, ht, -⟩ := hi.track
  refine ⟨fun e he => ⟨fun heq => ?_, fun heq => ?_⟩, fun pAddr held he => hi.sound _ he, ?_, ht.passed⟩
  · have hsound := hi.sound e he
    rw [heq] at hsound
    exact hsound
  · have hsound := hi.sound e he
    rw [heq] at hsound
    exact hsound
  · rw [hi.returned]
    refine List.ext_getElem ?_ (fun i h1 h2 => ?_)
    · rw [List.length_map, List.length_map, List.length_range, List.length_take, Nat.min_eq_left hi.fit.read]
    · rw [List.length_map, List.length_range] at h1
      have hcl := Nat.lt_of_lt_of_le h1 hi.fit.read
      rw [List.getElem_map, List.getElem_map, List.getElem_range, List.getElem_take, Hw.addr, blk_closed hcl,
        List.getD_eq_getElem?_getD, List.getElem?_eq_getElem hcl, Option.getD_some]

instance (cfg : Config) (s : Sys) : (i : Input) → Decidable (Calm cfg s i)
  | .hw _ | .others _ => isTrue trivial
  | .read _ _ => inferInstanceAs (Decidable (_ ≤ _))
  | .release _ _ _ =>
    -- over the list, and not over all addresses
    haveI (m : Msg) : Decidable ((∀ a ∈ s.chan.errs, inBlock m a cfg.blockSize = false) ∧
        completed cfg m (inUse s.read s.hw) ≤ cfg.maxErrListNum) :=
      haveI : Decidable (∀ a ∈ s.chan.errs, inBlock m a cfg.blockSize = false) := List.decidableBAll _ _
      instDecidableAnd
    inferInstanceAs (Decidable (_ ∧ _ ∧ _))

deriving instance DecidableEq for Block, Hw, Chan, Sys

/-- A section channel that wants the table 0x40; the error list has room for `n` blocks. -/
def poolCfg (n : Nat) : Config where
  chanType := .sec
  crcMode := .forceAndDiscard
  filters := [⟨1, fun _ => 0x40, fun _ => 0, fun _ => false⟩]
  fqPhyAddr := 0x1000
  fqVirAddr := 0x8000
  maxSecLen := 4096
  filterMaxDepth := 16
  sectionLengthFieldSize := 3
  tsPacketLen := 188
  maxErrListNum := n
  tsPacketLen_pos := Section.secCfg.tsPacketLen_pos
  blockSize := 0x100
  stride := 0x100
  depth := 9
  oqDepth := 8
  blockSize_pos := by decide
  blockSize_le := by decide
  room := by decide

/-- A section that the channel does not want. -/
def other : List Byte := [0x41, 0x30, 5, 1, 2, 3, 4, 5]

/-- A block goes to the queue. -/
def block (b : Block) : List Input :=
  .hw (.take b.startAddr) :: b.secs.map (fun sec => .hw (.append sec)) ++ [.hw .close]

def wanted (a : BitVec 32) : Block := ⟨a, [eight]⟩

def unwanted (a : BitVec 32) : Block := ⟨a, [other]⟩

def mixed (a : BitVec 32) : Block := ⟨a, [eight, other]⟩

/-- An unwanted block, and a section in the current block. -/
def calmRun : List Input :=
  block (unwanted 0x1000) ++ ([.hw (.take 0x1100), .hw (.append eight)] ++ ([.read 8 []] ++ [.release 1 8 []]))

/-- The release gives back the unwanted block alone. -/
theorem run_release_calm :
    ∃ s es, Lib.Run (step (poolCfg 4)) (Calm (poolCfg 4)) init calmRun s es ∧
      es.flatMap Event.returned = [0x1000] ∧ ∀ e ∈ es, e ≠ .resetPool ∧ e ≠ .overrun := by
  exact Lib.exists_run_imp (fun _ es => es.flatMap Event.returned = [0x1000])
    (by decide) fun _ _ hrun htest => ⟨htest, (run_release (poolCfg 4) hrun).1⟩

theorem event_of_exec {cfg : Config} {e : Event}
    (hexec : (Lib.exec (step cfg) Lib.always init is).any (fun r => decide (e ∈ r.2)) = true) :
    ∃ s es, Lib.Run (step cfg) Lib.always init is s es ∧ e ∈ es := by
  obtain ⟨s, es, hrun, htest⟩ := Lib.exists_run_of_exec (step cfg) Lib.always init is _ hexec
  exact ⟨s, es, hrun, of_decide_eq_true htest⟩

/-- Blocks with a section that the channel does not want behind one that it wants, and a block without. -/
def mixedRun : List Input :=
  (block (mixed 0x1000) ++ block (wanted 0x1100)) ++
    ((block (mixed 0x1200) ++ [.hw (.take 0x1300)]) ++ [.read 8 [], .release 3 8 []])

/-- More unwanted blocks than the error list holds. -/
def fullRun : List Input :=
  (block (unwanted 0x1000) ++ block (unwanted 0x1100)) ++
    ((block (unwanted 0x1200) ++ block (wanted 0x1300)) ++ [.read 8 [], .release 1 8 []])

/-- The write pointer of the free queue is behind the first block that is given back. -/
def rewindRun : List Input :=
  (block (wanted 0x1000) ++ block (wanted 0x1100)) ++
    ((block (wanted 0x1200) ++ ([.read 8 [], .release 1 1 []] ++ [.read 8 [], .release 2 2 []])) ++
      (block (wanted 0x1300) ++ [.release 1 4 []]))

/-- The hardware goes on to the next block in the middle of a release. -/
def raceRun : List Input :=
  (block (unwanted 0x1000) ++ block (wanted 0x1100)) ++
    ((block (unwanted 0x1200) ++ [.hw (.take 0x1300), .hw (.append eight)]) ++
      ([.read 8 [], .read 8 []] ++ [.release 2 8 [[], [], [], [], [], [], [.close, .take 0x1400]]]))

/-- Two blocks with a section each, given back in one call. -/
def twoRun : List Input :=
  (block (wanted 0x1000) ++ block (wanted 0x1100)) ++ [.hw (.take 0x1200), .read 8 [], .release 2 8 []]

/-- **Four ways to lose track, and a write behind the array.** The caller gives back the messages that it has, in
    order. -/
theorem four_resets_and_overrun :
    (∃ s es, Lib.Run (step (poolCfg 4)) Lib.always init mixedRun s es ∧ .resetPool ∈ es) ∧
    (∃ s es, Lib.Run (step (poolCfg 1)) Lib.always init fullRun s es ∧ .resetPool ∈ es) ∧
    (∃ s es, Lib.Run (step (poolCfg 4)) Lib.always init rewindRun s es ∧ .resetPool ∈ es) ∧
    (∃ s es, Lib.Run (step (poolCfg 4)) Lib.always init raceRun s es ∧ .resetPool ∈ es) ∧
    (∃ s es, Lib.Run (step (poolCfg 1)) Lib.always init twoRun s es ∧ .overrun ∈ es) := by
  refine ⟨?_, ?_, ?_, ?_, ?_⟩
  · exact event_of_exec (by decide)
  · exact event_of_exec (by decide)
  · exact event_of_exec (by decide)
  · exact event_of_exec (by decide)
  · exact event_of_exec (by decide)

end Release
end HiSTB.Demux
