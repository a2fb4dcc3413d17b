import HiSTB.Security.SystemVerify
import HiSTB.Lib.Balance

/-!
# `Security.Correctness.SystemVerify` — the thread closes what it opened, if it verified nothing

Of the exits of the four functions, eight forget something: every way out of `sha1_file` behind the hash but a short
read leaves the file open, every failure of `verify_files` behind the allocation leaves the buffer allocated, and every
failure behind `verify_files` leaves the list open.

* `held`, `unborn`, `forgets` — what is still to be closed at a place, what is still to be opened, and what an exit
  forgets;
* `books` — they account for every step;
* `clean_iff` — a run that ends cleans up if and only if it takes none of these exits.
-/

namespace HiSTB.Security.SystemVerify

open Lib Lib.Balance Lib.Holdings

variable {t : State}

/-- What is still to be closed, freed and released at a place, where `file` was opened last. -/
def Pc.held (file : Res) : Pc → List Res
  | .start | .done => []
  | .pollList _ | .openList _ => [.dataBuf]
  | .size | .filelist | .mmz | .pollNum _ | .openNum _ => [.list, .dataBuf]
  | .line | .pollLine | .openFile => [.mmz, .list, .dataBuf]
  | .hashInit | .pollBlock _ _ | .block _ _ | .tail _ | .final => [file, .mmz, .list, .dataBuf]
  | .number => [.number, .list, .dataBuf]

def held (s : State) : List Res := s.pc.held s.file

/-- How far the thread is. -/
def Pc.stage : Pc → Nat
  | .start => 0
  | .pollList _ | .openList _ => 1
  | .size | .filelist | .mmz => 2
  | .line | .pollLine | .openFile | .hashInit | .pollBlock _ _ | .block _ _ | .tail _ | .final => 3
  | .pollNum _ | .openNum _ => 4
  | .number | .done => 5

/-- What may still be opened. -/
def unborn (s : State) : Res → Bool
  | .dataBuf => s.pc.stage < 1
  | .list => s.pc.stage < 2
  | .mmz => s.pc.stage < 3
  | .number => s.pc.stage < 5
  | .file k => s.opened ≤ k

/-- The step takes none of the exits that forget something. -/
def Keeps (s : State) (i : Input) : Prop :=
  match i, s.pc with
  | .go, .pollLine => s.stopped = true ∨ getFilenameAndHash s.lineBuf ≠ some none
  | .open ok, .openFile => ok = true
  | .hashInit _ ok, .hashInit => ok = true
  | .go, .pollBlock _ _ => s.stopped = false
  | .fread ret, .block _ _ => ret = signBlockSize
  | .fread ret, .tail fileSize => ret = fileSize
  | .hashFinal _, .final => False
  | .go, .pollNum _ => s.stopped = false
  | .open ok, .openNum i => ok = true ∨ i ≤ maxRetryTimes
  | .number fileNum, .number => fileNum - 1 = s.checkSystemNum
  | _, _ => True

/-- What a step forgets. -/
def forgets (s : State) (i : Input) : List Res :=
  match i, s.pc with
  | .go, .pollLine => if s.stopped then [] else if getFilenameAndHash s.lineBuf = some none then [.mmz] else []
  | .open ok, .openFile => if ok then [] else [.mmz]
  | .hashInit _ ok, .hashInit => if ok then [] else [.mmz]
  | .go, .pollBlock _ _ => if s.stopped then [s.file] else []
  | .fread ret, .block _ _ => if ret ≠ signBlockSize then [.mmz] else []
  | .fread ret, .tail fileSize => if ret ≠ fileSize then [.mmz] else []
  | .hashFinal sha1Result, .final => if sha1Result ≠ s.val then [s.file, .mmz] else [s.file]
  | .go, .pollNum _ => if s.stopped then [.list] else []
  | .open ok, .openNum i => if ok then [] else if i > maxRetryTimes then [.list] else []
  | .number fileNum, .number => if fileNum - 1 ≠ s.checkSystemNum then [.number, .list] else []
  | _, _ => []

theorem keeps_iff (s : State) (i : Input) : Keeps s i ↔ forgets s i = [] := by
  unfold Keeps forgets
  split
  case h_11 => exact iff_of_true trivial rfl
  all_goals split_ifs <;> simp_all

/-! ## The loop of `sha1_file` -/

@[simp] theorem held_sha1Loop (file : Res) (left : Nat) (fileSize : Int) :
    (sha1Loop left fileSize).held file = [file, .mmz, .list, .dataBuf] := by
  unfold sha1Loop sha1Rest
  split_ifs <;> rfl

@[simp] theorem stage_sha1Loop (left : Nat) (fileSize : Int) : (sha1Loop left fileSize).stage = 3 := by
  unfold sha1Loop sha1Rest
  split_ifs <;> rfl

/-! ## One step -/

/-- The files are numbered. -/
theorem count_file_le (n k : Nat) :
    [Event.create (Res.file n)].count (.create (.file k)) + (decide (n + 1 ≤ k)).toNat ≤ (decide (n ≤ k)).toNat := by
  rcases Nat.lt_trichotomy n k with hlt | rfl | hgt
  · simp [hlt.ne, Nat.succ_le_of_lt hlt, hlt.le]
  · rw [decide_eq_false (Nat.not_succ_le_self n)]
    simp
  · simp [hgt.ne', show ¬ n + 1 ≤ k by omega]

/-- What a step does to the books, where it forgets `lost`. -/
structure Effect (s t : State) (es : List (Event Res)) (lost : List Res) : Prop where
  balance : ∀ r, (held s).count r + es.count (.create r) = (held t).count r + es.count (.destroy r) + lost.count r
  unborn : ∀ r, es.count (.create r) + (unborn t r).toNat ≤ (unborn s r).toNat
  addrLimit : lost = [] → t.addrLimit = s.addrLimit
  closes : ∀ k, .destroy (.file k) ∈ es → lost ≠ []

/-- A line is taken apart. -/
theorem pollLine_cases {s : State} {es : List (Event Res)} (hpc : s.pc = .pollLine) (h : step s .go = some (t, es)) :
    (s.stopped = true ∧ t = { s with pc := .pollNum 0 } ∧ es = [.destroy .mmz]) ∨
    (s.stopped = false ∧ getFilenameAndHash s.lineBuf = some none ∧ t = { s with pc := .done } ∧
      es = [.destroy .list, .destroy .dataBuf]) ∨
    (s.stopped = false ∧ getFilenameAndHash s.lineBuf ≠ some none ∧ es = [] ∧
      ∃ val mem, t = { s with pc := .openFile, val := val, lineBuf := mem }) := by
  simp only [step, hpc] at h
  split_ifs at h with hstop
  · cases h
    exact .inl ⟨hstop, rfl, rfl⟩
  · have hgo : s.stopped = false := eq_false_of_ne_true hstop
    split at h
    · cases h
    · next hline =>
        cases h
        exact .inr (.inl ⟨hgo, hline, rfl, rfl⟩)
    · next hline =>
        obtain ⟨val, -, h⟩ := Option.map_eq_some_iff.mp h
        cases h
        exact .inr (.inr ⟨hgo, by rw [hline]; simp, rfl, _, _, rfl⟩)

/-- **The step lemma.** -/
theorem step_effect {s : State} {i : Input} {es : List (Event Res)} (h : step s i = some (t, es)) :
    Effect s t es (forgets s i) := by
  have hall := h
  unfold step State.sha1Succeeds State.verifyFilesFails State.ends State.goes at h
  split at h
  case h_20 => cases h
  case h_1 =>
    cases h
    exact ⟨fun _ => rfl, fun r => by cases r <;> simp [unborn], fun _ => rfl, by simp⟩
  case h_10 =>
    rename_i hpc
    simp only [forgets, hpc]
    obtain ⟨hstop, rfl, rfl⟩ | ⟨hstop, hline, rfl, rfl⟩ | ⟨hstop, hline, rfl, val, mem, rfl⟩ := pollLine_cases hpc hall
    · refine ⟨fun r => ?_, fun r => ?_, fun _ => rfl, by simp⟩
      · simp [held, hpc, Pc.held, hstop, List.count_cons]
      · cases r <;> simp [unborn, hpc, Pc.stage]
    · refine ⟨fun r => ?_, fun r => ?_, fun _ => rfl, by simp⟩
      · simp [held, hpc, Pc.held, hstop, hline, List.count_cons]
      · cases r <;> simp [unborn, hpc, Pc.stage]
    · refine ⟨fun r => ?_, fun r => ?_, fun _ => rfl, by simp⟩
      · simp [held, hpc, Pc.held, hstop, hline]
      · cases r <;> simp [unborn, hpc, Pc.stage]
  all_goals
    rename_i hpc
    simp only [forgets, hpc]
    split_ifs at h ⊢
    all_goals try split at h
    all_goals try cases h
    all_goals
      refine ⟨fun r => ?_, fun r => ?_, by simp, by simp⟩
      · simp only [held, hpc, held_sha1Loop]
        simp [Pc.held, State.file, List.count_cons] <;> omega
      · cases r <;> simp only [unborn, hpc, stage_sha1Loop, count_file_le] <;> simp [Pc.stage]

theorem books : Books step held unborn forgets Keeps :=
  ⟨fun h => (step_effect h).balance, fun h => (step_effect h).unborn, fun _ => keeps_iff _ _⟩

/-! ## A run -/

variable {s₀ s : State} {is : List Input} {es : List (Event Res)}

/-- Every file was closed once, the buffers were freed and released once, and the address limit is what it was. -/
def Clean (s₀ s : State) (es : List (Event Res)) : Prop := Settled es ∧ s.addrLimit = s₀.addrLimit

theorem addrLimit_eq (h : Run step Keeps s₀ is s es) : s.addrLimit = s₀.addrLimit := by
  induction h with
  | nil => rfl
  | snoc _ hk hnext ih => exact ((step_effect hnext).addrLimit ((keeps_iff _ _).mp hk)).trans ih

/-- **The exact condition.** A thread that ends has cleaned up if and only if it took none of the exits that forget
    something. -/
theorem clean_iff (h : Run step always s₀ is s es) (hstart : s₀.pc = .start) (hdone : s.pc = .done) :
    Clean s₀ s es ↔ Run step Keeps s₀ is s es := by
  have hiff := books.settled_iff h (by simp [held, hstart, Pc.held]) (by simp [held, hdone, Pc.held])
  constructor
  · exact fun hclean => hiff.mp hclean.1
  · exact fun hkept => ⟨hiff.mpr hkept, addrLimit_eq hkept⟩

/-- A thread with an empty list, and one with a file that has its hash. -/
def start : State :=
  { pc := .start, stopped := false, addrLimit := .kernelDs, lineBuf := List.replicate bufSize 0,
    fileLen := 0, fPos := 0,
    val := [], checkSystemNum := 0, opened := 0 }

/-- Up to the lines, of which there are `len` bytes. -/
def upToLines (len : Int) : List Input :=
  [.kmalloc true, .go, .open true, .size 0x2000, .filelist 0 len, .allocAndMap true]

/-- A line, with a hash of zeros. -/
def zeroLine : List Byte := [97, tab] ++ (List.replicate 20 [48, 48, 32]).flatten ++ [newline]

/-- The thread finds the line, and the file with its hash. -/
def oneFile : List Input :=
  upToLines 63 ++ [.read (zeroLine ++ List.replicate (bufSize - 63) 0), .go, .open true, .hashInit 0 true,
    .hashFinal (List.replicate 20 0), .go, .go, .open true, .number 2]

instance (s : State) (i : Input) : Decidable (Keeps s i) := decidable_of_iff _ (keeps_iff s i).symm

/-- A list without lines. -/
theorem clean_iff_empty :
    ∃ s es, Run step Keeps start (upToLines 0 ++ [.go, .go, .open true, .number 1]) s es ∧ Clean start s es := by
  exact exists_run_imp (fun s _ => s.pc = .done) (by decide) fun _ _ hrun htest =>
    (clean_iff (hrun.mono (fun _ _ _ => trivial)) rfl htest).mpr hrun

/-- The file has its hash and the number is right, and the file stays open. -/
theorem good_file_stays_open :
    ∃ s es, Run step always start oneFile s es ∧ s.pc = .done ∧ ¬ Clean start s es := by
  obtain ⟨s, es, hrun, htest⟩ := exists_run_of_exec step always start oneFile
    (fun r => r.1.pc = .done ∧ r.2.count (.create (.file 0)) = 1 ∧ r.2.count (.destroy (.file 0)) = 0) (by decide)
  obtain ⟨hdone, hopen, hclose⟩ := of_decide_eq_true htest
  refine ⟨s, es, hrun, hdone, fun hclean => ?_⟩
  have hequal := (hclean.1 (.file 0)).2
  dsimp only at hopen hclose
  omega

end HiSTB.Security.SystemVerify
