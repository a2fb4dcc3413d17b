import HiSTB.Pvr.RecTable
import Mathlib.Data.List.Infix

/-!
# `Pvr.Correctness.RecTable` — a name that begins another

Both questions compare as many characters as the given name has, so that every longer name matches too, and the first
match ends the scan, whatever the state of its channel. The answer is right exactly if the first match records the file,
or no channel that records has such a name (`Decided`).

* `strncmp_strlen_iff` — what the comparison says;
* `checkUserCfg_iff` — the check of a new recording looks for the same name, and only in channels in use;
* `Right`, `right_iff` — the answers, and the exact condition.
-/

namespace HiSTB.Pvr.RecTable

variable {chns : List Chn} {name : List Byte} {c : Chn}

variable {b : Byte} {front : List Chn}

/-! ## C strings -/

/-- The string at the start of the memory. -/
def cString (mem : List Byte) : List Byte := mem.take (strlen mem)

theorem cString_cons_zero (mem : List Byte) : cString (0 :: mem) = [] := by
  rw [cString, strlen, if_pos rfl, List.take_zero]

theorem cString_cons (h : b ≠ 0) (mem : List Byte) : cString (b :: mem) = b :: cString mem := by
  rw [cString, strlen, if_neg h, List.take_succ_cons, cString]

@[simp] theorem cString_nil : cString [] = [] := rfl

theorem strncmp_nil (n : Nat) (t : List Byte) : strncmp n [] t = strncmp n [0] t := by
  cases n with
  | zero => rfl
  | succ n => rfl

theorem strncmp_cons_iff {n : Nat} {a : Byte} {s t : List Byte} :
    strncmp (n + 1) (a :: s) (b :: t) = true ↔ a = b ∧ (b = 0 ∨ strncmp n s t = true) := by
  rw [strncmp, Bool.and_eq_true, Bool.or_eq_true, decide_eq_true_eq, decide_eq_true_eq]
  exact Iff.rfl

/-- No more characters than the second string has are compared: it begins the first. -/
theorem strncmp_strlen_iff (s t : List Byte) : strncmp (strlen t) s t = true ↔ cString t <+: cString s := by
  induction t generalizing s with
  | nil => exact iff_of_true rfl List.nil_prefix
  | cons b t ih =>
    by_cases hb : b = 0
    · subst hb
      rw [cString_cons_zero, strlen, if_pos rfl]
      exact iff_of_true rfl List.nil_prefix
    · rw [cString_cons hb, strlen, if_neg hb]
      cases s with
      | nil =>
        rw [strncmp_nil, strncmp_cons_iff, cString_nil, List.prefix_nil]
        exact iff_of_false (fun h => hb h.1.symm) (List.cons_ne_nil _ _)
      | cons a s =>
        rw [strncmp_cons_iff, or_iff_right hb, ih]
        by_cases ha : a = 0
        · subst ha
          rw [cString_cons_zero, List.prefix_nil]
          exact iff_of_false (fun h => hb h.1.symm) (List.cons_ne_nil _ _)
        · rw [cString_cons ha, List.cons_prefix_cons, eq_comm]

/-! ## The scans -/

/-- The name of the channel begins with the given one. -/
def Chn.Begins (name : List Byte) (c : Chn) : Prop := cString name <+: cString c.szFileName

/-- The channel is running or paused, and has exactly this name. -/
def Chn.Records (name : List Byte) (c : Chn) : Prop := c.live = true ∧ cString c.szFileName = cString name

theorem Chn.Records.begins (h : c.Records name) : c.Begins name := by
  rw [Begins, h.2]

/-- The two questions are one scan. -/
theorem checkFileRecording_eq (p : Option (List Byte)) (chns : List Chn) :
    checkFileRecording p chns = (getChnAttrByName p chns).isSome := by
  induction chns with
  | nil => rfl
  | cons c cs ih =>
    cases p with
    | none => rfl
    | some name =>
      rw [checkFileRecording, getChnAttrByName]
      split
      · split
        next hlive => rw [hlive]; rfl
        next hdead => rw [Bool.not_eq_true] at hdead; rw [hdead]; rfl
      · exact ih

/-- The first channel whose name begins with the given one decides. -/
inductive Scan (name : List Byte) : List Chn → Option Chn → Prop
  | nothing {chns : List Chn} (h : ∀ c ∈ chns, ¬ c.Begins name) : Scan name chns none
  | first (front : List Chn) (c : Chn) (back : List Chn) (hfront : ∀ d ∈ front, ¬ d.Begins name) (h : c.Begins name) :
      Scan name (front ++ c :: back) (if c.live then some c else none)

theorem getChnAttrByName_scan (name : List Byte) (chns : List Chn) :
    Scan name chns (getChnAttrByName (some name) chns) := by
  induction chns with
  | nil => exact .nothing (fun c hc => absurd hc List.not_mem_nil)
  | cons c cs ih =>
    rw [getChnAttrByName]
    split
    next h => exact .first [] c cs (fun d hd => absurd hd List.not_mem_nil) ((strncmp_strlen_iff _ _).mp h)
    next h =>
      have hc : ¬ c.Begins name := fun hb => h ((strncmp_strlen_iff _ _).mpr hb)
      generalize getChnAttrByName (some name) cs = r at ih ⊢
      cases ih with
      | nothing hnone => exact .nothing (List.forall_mem_cons.mpr ⟨hc, hnone⟩)
      | first front d back hfront hd => exact .first (c :: front) d back (List.forall_mem_cons.mpr ⟨hc, hfront⟩) hd

/-! ## The answers -/

/-- The answers for a name: yes exactly if a channel records the file, a channel that records it, and only those
    count. -/
structure Right (name : List Byte) (chns : List Chn) : Prop where
  check : checkFileRecording (some name) chns = true ↔ ∃ c ∈ chns, c.Records name
  isSome : (getChnAttrByName (some name) chns).isSome = true ↔ ∃ c ∈ chns, c.Records name
  exact : ∀ c, getChnAttrByName (some name) chns = some c → c.Records name
  /-- Channels that do not record the file do not change the answer. -/
  others : ∀ keep : Chn → Bool, (∀ c, c.Records name → keep c = true) →
    getChnAttrByName (some name) (chns.filter keep) = getChnAttrByName (some name) chns

/-- No channel that records has a name that begins with the given one, or the first such name is of one that records the
    file. -/
def Decided (name : List Byte) (chns : List Chn) : Prop :=
  (∀ c ∈ chns, c.Begins name → c.live = false) ∨
  ∃ front c back, chns = front ++ c :: back ∧ (∀ d ∈ front, ¬ d.Begins name) ∧ c.Records name

/-- The scan passes over names that do not begin so. -/
theorem getChnAttrByName_append (hfront : ∀ d ∈ front, ¬ d.Begins name) (back : List Chn) :
    getChnAttrByName (some name) (front ++ back) = getChnAttrByName (some name) back := by
  induction front with
  | nil => rfl
  | cons d front ih =>
    have hd : ¬ strncmp (strlen name) d.szFileName name = true := fun h =>
      hfront d List.mem_cons_self ((strncmp_strlen_iff _ _).mp h)
    rw [List.cons_append, getChnAttrByName, if_neg hd]
    exact ih (fun e he => hfront e (List.mem_cons_of_mem d he))

theorem getChnAttrByName_cons (h : c.Begins name) (back : List Chn) :
    getChnAttrByName (some name) (c :: back) = if c.live then some c else none := by
  rw [getChnAttrByName, if_pos ((strncmp_strlen_iff _ _).mpr h)]

/-- Nothing is found where no channel that records has such a name. -/
theorem getChnAttrByName_none (h : ∀ c ∈ chns, c.Begins name → c.live = false) :
    getChnAttrByName (some name) chns = none := by
  have hscan := getChnAttrByName_scan name chns
  generalize getChnAttrByName (some name) chns = r at hscan ⊢
  cases hscan with
  | nothing => rfl
  | first front c back _ hc => rw [h c (List.mem_append_right _ List.mem_cons_self) hc]; rfl

/-- Something is found where all channels record and one has such a name. -/
theorem getChnAttrByName_isSome (hlive : ∀ c ∈ chns, c.live = true) (hc : c ∈ chns) (h : c.Begins name) :
    (getChnAttrByName (some name) chns).isSome = true := by
  have hscan := getChnAttrByName_scan name chns
  generalize getChnAttrByName (some name) chns = r at hscan ⊢
  cases hscan with
  | nothing hnone => exact absurd h (hnone c hc)
  | first front d back _ _ => rw [hlive d (List.mem_append_right _ List.mem_cons_self)]; rfl

theorem right_of_found {back : List Chn} (hfront : ∀ d ∈ front, ¬ d.Begins name) (hc : c.Records name) :
    Right name (front ++ c :: back) := by
  have hget : getChnAttrByName (some name) (front ++ c :: back) = some c := by
    rw [getChnAttrByName_append hfront, getChnAttrByName_cons hc.begins, hc.1]
    rfl
  have hex : ∃ d ∈ front ++ c :: back, d.Records name := ⟨c, List.mem_append_right _ List.mem_cons_self, hc⟩
  refine ⟨?_, ?_, ?_, fun keep hkeep => ?_⟩
  · rw [checkFileRecording_eq, hget]
    exact iff_of_true rfl hex
  · rw [hget]
    exact iff_of_true rfl hex
  · rw [hget]
    rintro d ⟨⟩
    exact hc
  · have hfront' : ∀ d ∈ front.filter keep, ¬ d.Begins name := fun d hd => hfront d (List.mem_of_mem_filter hd)
    rw [hget, List.filter_append, List.filter_cons_of_pos (hkeep c hc), getChnAttrByName_append hfront',
      getChnAttrByName_cons hc.begins, hc.1]
    rfl

theorem right_of_none (h : ∀ c ∈ chns, c.Begins name → c.live = false) : Right name chns := by
  have hget := getChnAttrByName_none h
  have hno : ¬ ∃ c ∈ chns, c.Records name := fun ⟨c, hmem, hc⟩ =>
    Bool.noConfusion ((h c hmem hc.begins).symm.trans hc.1)
  refine ⟨?_, ?_, ?_, fun keep _ => ?_⟩
  · rw [checkFileRecording_eq, hget]
    exact iff_of_false Bool.noConfusion hno
  · rw [hget]
    exact iff_of_false Bool.noConfusion hno
  · rw [hget]
    rintro c ⟨⟩
  · rw [hget, getChnAttrByName_none (fun c hc => h c (List.mem_of_mem_filter hc))]

/-- **The answers are right exactly for decided tables.** -/
theorem right_iff (name : List Byte) (chns : List Chn) : Right name chns ↔ Decided name chns := by
  constructor
  · intro h
    by_cases hnone : ∀ c ∈ chns, c.Begins name → c.live = false
    · exact .inl hnone
    -- a channel that records has such a name: without the others it is found, so that something is found with them
    have hsome : (getChnAttrByName (some name) chns).isSome = true := by
      push Not at hnone
      obtain ⟨c, hmem, hbegins, hlive⟩ := hnone
      have hlive : c.live = true := Bool.not_eq_false _ ▸ hlive
      rw [← h.others Chn.live (fun d hd => hd.1)]
      exact getChnAttrByName_isSome (fun d hd => (List.mem_filter.mp hd).2) (List.mem_filter.mpr ⟨hmem, hlive⟩) hbegins
    have hexact := h.exact
    have hscan := getChnAttrByName_scan name chns
    generalize getChnAttrByName (some name) chns = r at hscan hsome hexact
    cases hscan with
    | nothing => cases hsome
    | first front c back hfront _ =>
        split at hsome
        next hlive => exact .inr ⟨front, c, back, rfl, hfront, hexact c (if_pos hlive)⟩
        next => cases hsome
  · rintro (hnone | ⟨front, c, back, rfl, hfront, hc⟩)
    · exact right_of_none hnone
    · exact right_of_found hfront hc

/-- The names `/a` and `/ab`. -/
def nameA : List Byte := [47, 97, 0]

def nameAb : List Byte := [47, 97, 98, 0]

/-- While `/ab` is recorded, the driver takes `/a` for recorded, too; and while `/a` is, it does not if a channel before
    has `/ab` and is not started. -/
theorem right_fails :
    (checkFileRecording (some nameA) [⟨0, .running, nameAb⟩] = true ∧
      getChnAttrByName (some nameA) [⟨0, .running, nameAb⟩] = some ⟨0, .running, nameAb⟩ ∧
      ¬ Right nameA [⟨0, .running, nameAb⟩]) ∧
    checkFileRecording (some nameA) [⟨0, .init, nameAb⟩, ⟨1, .running, nameA⟩] = false ∧
      getChnAttrByName (some nameA) [⟨0, .init, nameAb⟩, ⟨1, .running, nameA⟩] = none ∧
      ¬ Right nameA [⟨0, .init, nameAb⟩, ⟨1, .running, nameA⟩] := by
  have hab : getChnAttrByName (some nameA) [⟨0, .running, nameAb⟩] = some ⟨0, .running, nameAb⟩ := by decide
  have hnone : getChnAttrByName (some nameA) [⟨0, .init, nameAb⟩, ⟨1, .running, nameA⟩] = none := by decide
  refine ⟨⟨by decide, hab, fun h => ?_⟩, by decide, hnone, fun h => ?_⟩
  · exact absurd (h.exact _ hab).2 (by decide)
  · have hsome := h.isSome.mpr ⟨⟨1, .running, nameA⟩, List.mem_cons_of_mem _ List.mem_cons_self, rfl, rfl⟩
    rw [hnone] at hsome
    cases hsome

end HiSTB.Pvr.RecTable
