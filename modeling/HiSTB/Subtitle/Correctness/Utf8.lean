import HiSTB.Subtitle.Utf8
import Mathlib.Algebra.Group.Nat.Defs

/-!
# `Subtitle.Correctness.Utf8` — what is left of a text

* `utf8ToUnicode_encode` — a character is read back from each of its six forms;
* `loop_spec` — the loop over the text leaves the characters that the text holds, and stays in the text and the array;
* `codes_encode` — a text holds the characters that were encoded in it.
-/

namespace HiSTB.Subtitle.Utf8

variable {c : Code} {mark mask : Byte} {k n index bytelen : Nat} {byte : Nat → Byte} {d : Decoded}
    {i : Int}

/-! ## The forms of a character -/

/-- A later byte of a form: the six bits with `k` groups of six behind them. -/
def tail (c : Code) (k : Nat) : Byte := 0x80 ||| ((c >>> (6 * k)).setWidth 8 &&& 0x3F)

/-- The last `k` bytes of a form. -/
def tails (c : Code) : Nat → List Byte
  | 0 => []
  | k + 1 => tail c k :: tails c k

/-- The first byte of a form of `k + 1` bytes, which has a mark. -/
def lead (mark : Byte) (c : Code) (k : Nat) : Byte := mark ||| (c >>> (6 * k)).setWidth 8

def formOf (mark : Byte) (k : Nat) (c : Code) : List Byte := lead mark c k :: tails c k

/-- The shortest form of a character. -/
def encodeChar (c : Code) : List Byte :=
  if c < 0x80 then formOf 0 0 c
  else if c < 0x800 then formOf 0xC0 1 c
  else if c < 0x10000 then formOf 0xE0 2 c
  else if c < 0x200000 then formOf 0xF0 3 c
  else if c < 0x4000000 then formOf 0xF8 4 c
  else formOf 0xFC 5 c

def encode (cs : List Code) : List Byte := cs.flatMap encodeChar

/-! ## One character -/

theorem getLsbD_mask (j : Nat) : (0x3F#8).getLsbD j = decide (j < 6) := by
  by_cases hj : j < 8
  · have hall : ∀ i : Fin 8, (0x3F#8).getLsbD i = decide ((i : Nat) < 6) := by decide
    exact hall ⟨j, hj⟩
  · rw [BitVec.getLsbD_of_ge _ _ (Nat.not_lt.mp hj)]
    exact (decide_eq_false (by omega)).symm

theorem getLsbD_mark (j : Nat) : (0x80#8).getLsbD j = decide (j = 7) := by
  by_cases hj : j < 8
  · have hall : ∀ i : Fin 8, (0x80#8).getLsbD i = decide ((i : Nat) = 7) := by decide
    exact hall ⟨j, hj⟩
  · rw [BitVec.getLsbD_of_ge _ _ (Nat.not_lt.mp hj)]
    exact (decide_eq_false (by omega)).symm

/-- The character without its last `k` groups of six bits. -/
def high (c : Code) (k : Nat) : Code := c >>> (6 * k) <<< (6 * k)

@[simp] theorem high_zero (c : Code) : high c 0 = c := by
  simp [high]

/-- A later byte gives the six bits that it was made of. -/
theorem getLsbD_part_tail (c : Code) (k i : Nat) :
    (part (tail c k) 0x3F (6 * k)).getLsbD i = (decide (6 * k ≤ i ∧ i < 6 * k + 6) && c.getLsbD i) := by
  unfold part tail
  simp only [BitVec.getLsbD_shiftLeft, BitVec.getLsbD_setWidth, BitVec.getLsbD_and, BitVec.getLsbD_or,
    BitVec.getLsbD_ushiftRight, BitVec.ofNat_eq_ofNat, getLsbD_mask, getLsbD_mark]
  by_cases h32 : i < 32
  · by_cases hin : 6 * k ≤ i ∧ i < 6 * k + 6
    · have hplace : 6 * k + (i - 6 * k) = i := by omega
      simp [h32, hin, hplace, show ¬ i < 6 * k by omega, show i - 6 * k < 32 by omega, show i - 6 * k < 8 by omega,
        show i - 6 * k < 6 by omega, show i - 6 * k ≠ 7 by omega]
    · by_cases hk : i < 6 * k
      · simp [hin, hk]
      · simp [hin, show ¬ i - 6 * k < 6 by omega]
  · rw [BitVec.getLsbD_of_ge c i (Nat.not_lt.mp h32)]
    simp [h32]

/-- One byte more. -/
theorem high_or_part_tail (c : Code) (k : Nat) : high c (k + 1) ||| part (tail c k) 0x3F (6 * k) = high c k := by
  apply BitVec.eq_of_getLsbD_eq
  intro i hi
  rw [BitVec.getLsbD_or, getLsbD_part_tail]
  simp only [high, BitVec.getLsbD_shiftLeft, BitVec.getLsbD_ushiftRight, hi, decide_true, Bool.true_and]
  by_cases hlow : i < 6 * k
  · simp [hlow, show i < 6 * (k + 1) by omega, show ¬ (6 * k ≤ i ∧ i < 6 * k + 6) by omega]
  · by_cases hin : i < 6 * k + 6
    · simp [hlow, show i < 6 * (k + 1) by omega, show 6 * k ≤ i ∧ i < 6 * k + 6 by omega,
        show 6 * k + (i - 6 * k) = i by omega]
    · simp [hlow, show ¬ i < 6 * (k + 1) by omega, show ¬ (6 * k ≤ i ∧ i < 6 * k + 6) by omega,
        show 6 * (k + 1) + (i - 6 * (k + 1)) = i by omega, show 6 * k + (i - 6 * k) = i by omega]

/-- The first byte gives the bits in front of the others, if its mask leaves them and nothing else. -/
theorem part_lead (hsmall : (c >>> (6 * k)).toNat < 256)
    (hmask : lead mark c k &&& mask = (c >>> (6 * k)).setWidth 8) : part (lead mark c k) mask (6 * k) = high c k := by
  rw [part, hmask, high]
  congr 1
  apply BitVec.eq_of_toNat_eq
  rw [BitVec.toNat_setWidth, BitVec.toNat_setWidth, Nat.mod_eq_of_lt (a := _ % _), Nat.mod_eq_of_lt hsmall]
  exact Nat.lt_of_lt_of_le (Nat.mod_lt _ (by decide)) (by decide)

/-- A fact about the first byte holds if it holds for each of the few numbers that the byte can carry. -/
theorem lead_of (P : Byte → Byte → Prop) (mark : Byte) (hc : c.toNat < n * 2 ^ (6 * k))
    (hall : ∀ y : Fin n, P (mark ||| BitVec.ofNat 8 y) (BitVec.ofNat 8 y)) :
    P (lead mark c k) ((c >>> (6 * k)).setWidth 8) := by
  have hlt : (c >>> (6 * k)).toNat < n := by
    rw [BitVec.toNat_ushiftRight, Nat.shiftRight_eq_div_pow]
    exact Nat.div_lt_of_lt_mul (by rwa [Nat.mul_comm])
  have heq : (c >>> (6 * k)).setWidth 8 = BitVec.ofNat 8 (c >>> (6 * k)).toNat := rfl
  rw [lead, heq]
  exact hall ⟨_, hlt⟩

theorem shift_lt (hc : c.toNat < n * 2 ^ (6 * k)) (hn : n ≤ 256) : (c >>> (6 * k)).toNat < 256 := by
  rw [BitVec.toNat_ushiftRight, Nat.shiftRight_eq_div_pow]
  exact Nat.lt_of_lt_of_le (Nat.div_lt_of_lt_mul (by rwa [Nat.mul_comm])) hn

@[simp] theorem length_tails (c : Code) (k : Nat) : (tails c k).length = k := by
  induction k with
  | zero => rfl
  | succ k ih => rw [tails, List.length_cons, ih]

@[simp] theorem length_formOf (mark : Byte) (k : Nat) (c : Code) : (formOf mark k c).length = k + 1 := by
  rw [formOf, List.length_cons, length_tails]

theorem getElem?_tails (c : Code) {j : Nat} (hj : j < k) : (tails c k)[j]? = some (tail c (k - 1 - j)) := by
  induction k generalizing j with
  | zero => exact absurd hj (Nat.not_lt_zero j)
  | succ k ih =>
    cases j with
    | zero => rfl
    | succ j =>
      rw [tails, List.getElem?_cons_succ, ih (Nat.lt_of_succ_lt_succ hj)]
      congr 2
      omega

/-- The bits of the first byte and of the `k` bytes behind it. -/
def join (b : Nat → Byte) (mask : Byte) (k : Nat) : Code :=
  (List.range k).foldl (fun u j => u ||| part (b (j + 1)) 0x3F (6 * (k - 1 - j))) (part (b 0) mask (6 * k))

/-- The bytes of a form are put together to its character. -/
theorem join_formOf {b : Nat → Byte}
    (hb : ∀ j y, (formOf mark k c)[j]? = some y → b j = y) (hsmall : (c >>> (6 * k)).toNat < 256)
    (hmask : lead mark c k &&& mask = (c >>> (6 * k)).setWidth 8) : join b mask k = c := by
  have hlead : part (b 0) mask (6 * k) = high c k := by
    rw [hb 0 (lead mark c k) rfl]
    exact part_lead hsmall hmask
  have hrun : ∀ n, n ≤ k →
      (List.range n).foldl (fun u j => u ||| part (b (j + 1)) 0x3F (6 * (k - 1 - j))) (part (b 0) mask (6 * k)) =
        high c (k - n) := by
    intro n hn
    induction n with
    | zero => exact hlead
    | succ n ih =>
      have htail : b (n + 1) = tail c (k - 1 - n) := by
        apply hb
        rw [formOf, List.getElem?_cons_succ, getElem?_tails c hn]
      rw [List.range_succ, List.foldl_append, ih (Nat.le_of_lt hn), List.foldl_cons, List.foldl_nil, htail,
        show k - n = (k - 1 - n) + 1 by omega, high_or_part_tail, show k - (n + 1) = k - 1 - n by omega]
  rw [join, hrun k (Nat.le_refl k), Nat.sub_self, high_zero]

/-- A form that is in the text is read to its end. -/
theorem form_join (hbyte : ∀ j b, (formOf mark k c)[j]? = some b → byte (index + j) = b)
    (hin : index + (formOf mark k c).length ≤ bytelen) (hsmall : (c >>> (6 * k)).toNat < 256)
    (hmask : lead mark c k &&& mask = (c >>> (6 * k)).setWidth 8) :
    form index bytelen (k + 1) (join (fun j => byte (index + j)) mask k) =
      ⟨1, index + (formOf mark k c).length, some c, (List.range (formOf mark k c).length).map (index + ·)⟩ := by
  rw [length_formOf] at hin ⊢
  rw [join_formOf hbyte hsmall hmask, form, if_neg (by omega)]

theorem length_encodeChar_pos (c : Code) : 0 < (encodeChar c).length := by
  unfold encodeChar formOf
  repeat' split
  all_goals exact Nat.succ_pos _

/-- **A character is read back from each of its six forms.** -/
theorem utf8ToUnicode_encode (hc : c.toNat < 2 ^ 31)
    (hbyte : ∀ k b, (encodeChar c)[k]? = some b → byte (index + k) = b)
    (hin : index + (encodeChar c).length ≤ bytelen) :
    utf8ToUnicode byte index bytelen = ⟨1, index + (encodeChar c).length, some c,
      (List.range (encodeChar c).length).map (index + ·)⟩ := by
  have hlt : ∀ n : Nat, n < 2 ^ 32 → (c < BitVec.ofNat 32 n ↔ c.toNat < n) := by
    intro n hn
    rw [BitVec.lt_def, BitVec.toNat_ofNat, Nat.mod_eq_of_lt hn]
  have hpos : ¬ index ≥ bytelen := by
    have hlen := length_encodeChar_pos c
    omega
  revert hbyte hin
  unfold encodeChar
  split
  · rename_i hlim
    intro hbyte hin
    have hsize : c.toNat < 128 * 2 ^ (6 * 0) := (hlt 0x80 (by decide)).mp hlim
    obtain ⟨h1, hmask⟩ := lead_of (fun b y => b &&& 0x80 = 0 ∧ b &&& 0xFF = y) 0 hsize (by decide)
    rw [← hbyte 0 _ rfl] at h1
    rw [utf8ToUnicode, if_neg hpos, if_pos h1]
    have hjoin : (byte (index + 0)).setWidth 32 = join (fun j => byte (index + j)) 0xFF 0 := by
      have hall : byte (index + 0) &&& 0xFF = byte (index + 0) := BitVec.and_allOnes
      rw [join, List.range_zero, List.foldl_nil, part, hall, Nat.mul_zero, BitVec.shiftLeft_zero]
    rw [hjoin]
    exact form_join hbyte hin (shift_lt hsize (by decide)) hmask
  · split
    · rename_i hlim
      intro hbyte hin
      have hsize : c.toNat < 32 * 2 ^ (6 * 1) := (hlt 0x800 (by decide)).mp hlim
      obtain ⟨h1, h2, hmask⟩ := lead_of
        (fun b y => b &&& 0x80 ≠ 0 ∧ b &&& 0xE0 = 0xC0 ∧ b &&& 0x1F = y)
        0xC0 hsize (by decide)
      rw [← hbyte 0 _ rfl] at h1 h2
      rw [utf8ToUnicode, if_neg hpos, if_neg h1, if_pos h2]
      exact form_join hbyte hin (shift_lt hsize (by decide)) hmask
    · split
      · rename_i hlim
        intro hbyte hin
        have hsize : c.toNat < 16 * 2 ^ (6 * 2) := (hlt 0x10000 (by decide)).mp hlim
        obtain ⟨h1, h2, h3, hmask⟩ := lead_of
          (fun b y => b &&& 0x80 ≠ 0 ∧ b &&& 0xE0 ≠ 0xC0 ∧ b &&& 0xF0 = 0xE0 ∧ b &&& 0x0F = y)
          0xE0 hsize (by decide)
        rw [← hbyte 0 _ rfl] at h1 h2 h3
        rw [utf8ToUnicode, if_neg hpos, if_neg h1, if_neg h2, if_pos h3]
        exact form_join hbyte hin (shift_lt hsize (by decide)) hmask
      · split
        · rename_i hlim
          intro hbyte hin
          have hsize : c.toNat < 8 * 2 ^ (6 * 3) := (hlt 0x200000 (by decide)).mp hlim
          obtain ⟨h1, h2, h3, h4, hmask⟩ := lead_of
            (fun b y => b &&& 0x80 ≠ 0 ∧ b &&& 0xE0 ≠ 0xC0 ∧ b &&& 0xF0 ≠ 0xE0 ∧ b &&& 0xF8 = 0xF0 ∧ b &&& 0x07 = y)
            0xF0 hsize (by decide)
          rw [← hbyte 0 _ rfl] at h1 h2 h3 h4
          rw [utf8ToUnicode, if_neg hpos, if_neg h1, if_neg h2, if_neg h3, if_pos h4]
          exact form_join hbyte hin (shift_lt hsize (by decide)) hmask
        · split
          · rename_i hlim
            intro hbyte hin
            have hsize : c.toNat < 4 * 2 ^ (6 * 4) := (hlt 0x4000000 (by decide)).mp hlim
            obtain ⟨h1, h2, h3, h4, h5, hmask⟩ := lead_of
              (fun b y => b &&& 0x80 ≠ 0 ∧ b &&& 0xE0 ≠ 0xC0 ∧ b &&& 0xF0 ≠ 0xE0 ∧
                b &&& 0xF8 ≠ 0xF0 ∧ b &&& 0xFC = 0xF8 ∧ b &&& 0x03 = y)
              0xF8 hsize (by decide)
            rw [← hbyte 0 _ rfl] at h1 h2 h3 h4 h5
            rw [utf8ToUnicode, if_neg hpos, if_neg h1, if_neg h2, if_neg h3, if_neg h4, if_pos h5]
            exact form_join hbyte hin (shift_lt hsize (by decide)) hmask
          · intro hbyte hin
            have hsize : c.toNat < 2 * 2 ^ (6 * 5) := hc
            obtain ⟨h1, h2, h3, h4, h5, h6, hmask⟩ := lead_of
              (fun b y => b &&& 0x80 ≠ 0 ∧ b &&& 0xE0 ≠ 0xC0 ∧ b &&& 0xF0 ≠ 0xE0 ∧
                b &&& 0xF8 ≠ 0xF0 ∧ b &&& 0xFC ≠ 0xF8 ∧ b &&& 0xFE = 0xFC ∧ b &&& 0x01 = y)
              0xFC hsize (by decide)
            rw [← hbyte 0 _ rfl] at h1 h2 h3 h4 h5 h6
            rw [utf8ToUnicode, if_neg hpos, if_neg h1, if_neg h2, if_neg h3, if_neg h4, if_neg h5, if_pos h6]
            exact form_join hbyte hin (shift_lt hsize (by decide)) hmask

/-! ## The loop over the text -/

/-- The characters that are counted for a call. -/
def Decoded.chars (d : Decoded) : List Code :=
  match d.unicode with
  | some c => if c = 0 then [] else [c]
  | none => []

/-- The characters that a text holds from an index on, up to one that is cut off. -/
def codes (byte : Nat → Byte) (textlen index : Nat) : List Code :=
  if _hgo : index < textlen ∧ (utf8ToUnicode byte index textlen).tag ≠ 0 then
    (utf8ToUnicode byte index textlen).chars ++ codes byte textlen (utf8ToUnicode byte index textlen).index
  else []
termination_by textlen - index
decreasing_by
  have hlt := index_lt_of_tag _hgo.1 _hgo.2
  omega

/-- The first `n` cells of the array, the last one in front. -/
def cells (unicode : Int → Code) : Nat → List Code
  | 0 => []
  | n + 1 => unicode n :: cells unicode n

theorem cells_congr {u v : Int → Code} (h : ∀ i : Nat, i < n → u i = v i) : cells u n = cells v n := by
  induction n with
  | zero => rfl
  | succ n ih => rw [cells, cells, h n (Nat.lt_succ_self n), ih (fun i hi => h i (Nat.lt_succ_of_lt hi))]

/-- From one store to a later one: these characters were added, from the text and within the array. -/
structure Added (maxLen textlen : Nat) (s t : Store) (cs : List Code) : Prop where
  count : t.strCount = s.strCount + cs.length
  held : cells t.unicode t.strCount = cs.reverse ++ cells s.unicode s.strCount
  before : t.unicode (-1) = s.unicode (-1)
  reads : ∀ i ∈ t.reads, i ∈ s.reads ∨ i < textlen
  places : ∀ i ∈ t.places, i ∈ s.places ∨ 0 ≤ i ∧ i ≤ maxLen

variable {maxLen textlen : Nat} {s t r : Store} {cs ds : List Code}

theorem Added.refl : Added maxLen textlen s s [] where
  count := rfl
  held := rfl
  before := rfl
  reads := fun _ h => .inl h
  places := fun _ h => .inl h

theorem Added.trans (h : Added maxLen textlen s t cs) (h' : Added maxLen textlen t r ds) :
    Added maxLen textlen s r (cs ++ ds) where
  count := by rw [h'.count, h.count, List.length_append, Nat.add_assoc]
  held := by rw [h'.held, h.held, List.reverse_append, List.append_assoc]
  before := by rw [h'.before, h.before]
  reads := fun i hi => (h'.reads i hi).elim (h.reads i) .inr
  places := fun i hi => (h'.places i hi).elim (h.places i) .inr

theorem Outcome.reads_lt {i : Nat} (h : Outcome index bytelen d) (hlt : index < bytelen)
    (hi : i ∈ d.reads) : i < bytelen := by
  cases h with
  | cut => rwa [List.mem_singleton.mp hi]
  | bad => rwa [List.mem_singleton.mp hi]
  | char c n hin =>
    obtain ⟨j, hj, rfl⟩ := List.mem_map.mp hi
    have hj' := List.mem_range.mp hj
    show index + j < bytelen
    omega

theorem Outcome.chars_of_cut (h : Outcome index bytelen d) (htag : d.tag = 0) :
    d.chars = [] := by
  cases h with
  | cut => rfl
  | bad => rfl
  | char c n hin => exact absurd htag Int.one_ne_zero

theorem decoded_unicode_of_ne (hi : i ≠ s.strCount) : (s.decoded d).unicode i = s.unicode i := by
  unfold Store.decoded
  cases d.unicode with
  | none => rfl
  | some c => exact if_neg hi

theorem mem_places_decoded (hi : i ∈ (s.decoded d).places) : i ∈ s.places ∨ i = s.strCount := by
  have hones : ∀ b : Bool, ∀ j ∈ (if b then [(s.strCount : Int)] else []), j = (s.strCount : Int) := by
    intro b j hj
    cases b with
    | false => exact absurd hj List.not_mem_nil
    | true => exact List.mem_singleton.mp hj
  rcases List.mem_append.mp hi with hi | hi
  · exact (List.mem_append.mp hi).imp_right (hones _ i)
  · refine .inr (hones (decide (d.tag > 0)) i ?_)
    simpa using hi

/-- **One round of the loop.** -/
theorem next_spec (byte : Nat → Byte) (hlt : s.index < textlen) (hle : s.strCount ≤ maxLen) :
    Added maxLen textlen s (s.next maxLen byte textlen).1 (utf8ToUnicode byte s.index textlen).chars ∧
      (s.next maxLen byte textlen).1.index = (utf8ToUnicode byte s.index textlen).index ∧
      ((s.next maxLen byte textlen).2 = true ↔
        (utf8ToUnicode byte s.index textlen).tag = 0 ∨ (s.next maxLen byte textlen).1.strCount > maxLen) := by
  have hout := utf8ToUnicode_outcome byte hlt
  unfold Store.next
  dsimp only
  generalize utf8ToUnicode byte s.index textlen = d at hout ⊢
  have hbefore : (s.decoded d).unicode (-1) = s.unicode (-1) := decoded_unicode_of_ne (by omega)
  have hheld : cells (s.decoded d).unicode s.strCount = cells s.unicode s.strCount :=
    cells_congr (fun i hi => decoded_unicode_of_ne (by omega))
  have hreads : ∀ i ∈ (s.decoded d).reads, i ∈ s.reads ∨ i < textlen :=
    fun i hi => (List.mem_append.mp hi).imp_right (hout.reads_lt hlt)
  have hplaces : ∀ i ∈ (s.decoded d).places, i ∈ s.places ∨ 0 ≤ i ∧ i ≤ maxLen :=
    fun i hi => (mem_places_decoded hi).imp_right (by omega)
  have hstore : d.chars = [] → Added maxLen textlen s (s.decoded d) d.chars :=
    fun h => h ▸ ⟨rfl, hheld, hbefore, hreads, hplaces⟩
  split
  · rename_i hcount
    cases hout with
    | cut => exact absurd hcount.1 (Int.lt_irrefl 0)
    | bad => exact absurd hcount.1 (Int.not_lt.mpr (Int.neg_nonpos_of_nonneg Int.one_nonneg))
    | char c n hin =>
      have hc : c ≠ 0 := fun h => hcount.2 ((if_pos rfl).trans h)
      have hchars : Decoded.chars ⟨1, s.index + (n + 1), some c, (List.range (n + 1)).map (s.index + ·)⟩ = [c] :=
        if_neg hc
      refine ⟨⟨?_, ?_, hbefore, hreads, hplaces⟩, rfl, ?_⟩
      · rw [hchars]
        rfl
      · rw [hchars]
        show _ :: cells _ s.strCount = _
        rw [hheld]
        exact congrArg (· :: _) (if_pos rfl)
      · simp
  · rename_i hcount
    have hchars : d.chars = [] := by
      cases hout with
      | cut => rfl
      | bad => rfl
      | char c n hin =>
        have hcell : (s.decoded ⟨1, s.index + (n + 1), some c, (List.range (n + 1)).map (s.index + ·)⟩).unicode
            s.strCount = c :=
          if_pos rfl
        exact if_pos (Classical.byContradiction fun hc => hcount ⟨Int.one_pos, fun h => hc (hcell.symm.trans h)⟩)
    have hcounted := hstore hchars
    by_cases hneg : d.tag < 0
    · rw [if_pos hneg]
      exact ⟨⟨hcounted.count, hcounted.held, hbefore, hreads, hplaces⟩, rfl, by simp [Int.ne_of_lt hneg]⟩
    · rw [if_neg hneg]
      by_cases hzero : d.tag = 0
      · rw [if_pos hzero]
        exact ⟨hcounted, rfl, by simp [hzero]⟩
      · rw [if_neg hzero]
        exact ⟨hcounted, rfl, by simp [hzero]⟩

theorem length_chars_le (d : Decoded) : d.chars.length ≤ 1 := by
  unfold Decoded.chars
  split
  · split
    · exact Nat.zero_le 1
    · exact Nat.le_refl 1
  · exact Nat.zero_le 1

/-- **The loop over the text** leaves the characters that the text holds, as many as there is room for. -/
theorem loop_spec (byte : Nat → Byte) (hle : s.strCount ≤ maxLen) :
    Added maxLen textlen s (s.loop maxLen byte textlen)
      ((codes byte textlen s.index).take (maxLen + 1 - s.strCount)) := by
  induction hn : textlen - s.index using Nat.strongRecOn generalizing s with
  | ind n ih =>
    subst hn
    rw [Store.loop, codes]
    by_cases hlt : s.index < textlen
    · obtain ⟨hadded, hindex, hlast⟩ := next_spec byte hlt hle
      have hcount := hadded.count
      have hshort := length_chars_le (utf8ToUnicode byte s.index textlen)
      rw [dif_pos hlt]
      split
      · rename_i t hnext
        rw [hnext] at hadded hlast hcount
        dsimp only at hadded hlast hcount
        by_cases htag : (utf8ToUnicode byte s.index textlen).tag = 0
        · rw [dif_neg (fun h => h.2 htag), List.take_nil, ← (utf8ToUnicode_outcome byte hlt).chars_of_cut htag]
          exact hadded
        · have hmany : t.strCount > maxLen := (hlast.mp rfl).resolve_left htag
          rw [dif_pos ⟨hlt, htag⟩, List.take_left' (by omega)]
          exact hadded
      · rename_i t hnext
        have hlt' := index_lt_of_next hlt (congrArg Prod.snd hnext)
        rw [hnext] at hadded hlast hcount hindex hlt'
        dsimp only at hadded hlast hcount hindex hlt'
        have hgo : (utf8ToUnicode byte s.index textlen).tag ≠ 0 := fun h => Bool.noConfusion (hlast.mpr (.inl h))
        have hroom : ¬ t.strCount > maxLen := fun h => Bool.noConfusion (hlast.mpr (.inr h))
        have hrest := ih (textlen - t.index) (by omega) (s := t) (by omega) rfl
        rw [hindex] at hrest
        rw [dif_pos ⟨hlt, hgo⟩, List.take_append, List.take_of_length_le (by omega),
          show maxLen + 1 - s.strCount - (utf8ToUnicode byte s.index textlen).chars.length = maxLen + 1 - t.strCount by
            omega]
        exact hadded.trans hrest
    · rw [dif_neg hlt, dif_neg (fun h => hlt h.1), List.take_nil]
      exact .refl

/-- A text holds the characters that were encoded in it. -/
theorem codes_encode (front : List Byte) (hcs : ∀ c ∈ cs, c ≠ 0 ∧ c.toNat < 2 ^ 31) :
    codes (fun i => (front ++ encode cs).getD i 0) (front ++ encode cs).length front.length = cs := by
  induction cs generalizing front with
  | nil =>
    rw [codes, dif_neg]
    rintro ⟨hlt, -⟩
    rw [encode, List.flatMap_nil, List.append_nil] at hlt
    exact Nat.lt_irrefl _ hlt
  | cons c cs ih =>
    obtain ⟨⟨hne, hc⟩, hrest⟩ := List.forall_mem_cons.mp hcs
    have hsplit : front ++ encode (c :: cs) = (front ++ encodeChar c) ++ encode cs := by
      rw [encode, List.flatMap_cons, ← encode, List.append_assoc]
    rw [hsplit]
    have hread : utf8ToUnicode (fun i => (front ++ encodeChar c ++ encode cs).getD i 0) front.length
        (front ++ encodeChar c ++ encode cs).length = ⟨1, front.length + (encodeChar c).length, some c,
          (List.range (encodeChar c).length).map (front.length + ·)⟩ := by
      apply utf8ToUnicode_encode hc
      · intro k b hk
        rw [List.getD_eq_getElem?_getD, List.append_assoc, List.getElem?_append_right (Nat.le_add_right _ _),
          Nat.add_sub_cancel_left, List.getElem?_append_left (List.getElem?_eq_some_iff.mp hk).1, hk]
        rfl
      · rw [List.length_append, List.length_append]
        omega
    have hlt : front.length < (front ++ encodeChar c ++ encode cs).length := by
      have hpos := length_encodeChar_pos c
      rw [List.length_append, List.length_append]
      omega
    rw [codes, hread, dif_pos ⟨hlt, Int.one_ne_zero⟩, ← List.length_append, ih (front ++ encodeChar c) hrest]
    exact congrArg (· ++ cs) (if_neg hne)

end HiSTB.Subtitle.Utf8
