import HiSTB.Demux.RecIndex

/-!
# `Demux.Correctness.RecStream` — a stream of frames without gaps

What the index of a recording says where nothing was lost: each frame starts where the one before it ends.
-/

namespace HiSTB.Demux.RecIndex

variable {ok : Nat → Prop} {ts fs : List Index} {f : Index}

/-- Where the last frame ends. -/
def streamEnd (fs : List Index) : Nat :=
  match fs.getLast? with
  | none => 0
  | some f => f.globalOffset + f.frameSize

@[simp] theorem streamEnd_nil : streamEnd [] = 0 := rfl

@[simp] theorem streamEnd_concat (fs : List Index) (f : Index) :
    streamEnd (fs ++ [f]) = f.globalOffset + f.frameSize := by
  simp [streamEnd]

/-- Each frame starts where the one before it ends, and its size is `ok`. -/
inductive Contiguous (ok : Nat → Prop) : List Index → Prop
  | nil : Contiguous ok []
  | snoc {fs : List Index} {f : Index} (before : Contiguous ok fs) (start : f.globalOffset = streamEnd fs)
      (size : ok f.frameSize) : Contiguous ok (fs ++ [f])

theorem Contiguous.concat (h : Contiguous ok (fs ++ [f])) :
    Contiguous ok fs ∧ f.globalOffset = streamEnd fs ∧ ok f.frameSize := by
  generalize hgs : fs ++ [f] = gs at h
  cases h with
  | nil => simp at hgs
  | snoc before start size =>
    obtain ⟨rfl, hf⟩ := List.append_inj' hgs rfl
    obtain rfl : f = _ := by simpa using hf
    exact ⟨before, start, size⟩

/-- A beginning of the stream. -/
theorem Contiguous.init (h : Contiguous ok fs) (hts : ts <+: fs) : Contiguous ok ts := by
  induction h with
  | nil =>
    obtain rfl := List.prefix_nil.mp hts
    exact .nil
  | snoc before start size ih =>
    rcases List.prefix_concat_iff.mp hts with rfl | hts
    · exact .snoc before start size
    · exact ih hts

/-- The frames end one after the other. -/
theorem Contiguous.end_le (h : Contiguous ok fs) :
    ∀ f ∈ fs, ok f.frameSize ∧ f.globalOffset + f.frameSize ≤ streamEnd fs := by
  induction h with
  | nil => simp
  | snoc before start size ih =>
    intro f hf
    rw [streamEnd_concat]
    rcases List.mem_append.mp hf with hf | hf
    · obtain ⟨hsize, hle⟩ := ih f hf
      exact ⟨hsize, by omega⟩
    · obtain rfl := List.mem_singleton.mp hf
      exact ⟨size, Nat.le_refl _⟩

end HiSTB.Demux.RecIndex
