import HiSTB.Demux.RamPort

/-!
# `Demux.Correctness.RamPort` — a put publishes what the get granted

`DMX_OsiTsBufferPut` trusts `ReqAddr` and `ReqLen`. They are the producer's as long as no one computes a grant
again, and two do: the handler, for the `WaitLen` that a timed-out get leaves behind, and a second get. The put
also adds `StartPos` and `DataLen` without a look at the carry. `Calm` excludes these.

* `Tiles` — descriptors that cover a range of bytes;
* `Inv` — what the port says of the grant, at every point of the two threads;
* `run_put_tiles` — every put of a calm run publishes its bytes of the grant;
* `put_wraps_and_put_drops` — the carry, and the `WaitLen` that is left behind.
-/

namespace HiSTB.Demux.RamPort

open Lib

variable {len descRead : BitVec 32} {i : Isr}

/-! ## What a put has to publish -/

/-- The descriptors cover the `n` bytes at `a` in order, in pieces of at most `max` bytes, and end with an empty
    one. -/
inductive Tiles (max : BitVec 32) : BitVec 32 → BitVec 32 → List (BitVec 32 × BitVec 32) → Prop
  | last {a : BitVec 32} : Tiles max a 0 [(a, 0)]
  | cons {a n len : BitVec 32} {ds : List (BitVec 32 × BitVec 32)} (pos : 0 < len) (small : len ≤ max)
      (fits : len ≤ n) (rest : Tiles max (a + len) (n - len) ds) : Tiles max a n ((a, len) :: ds)

/-- A put that returned success after the grant `g` stayed inside of it and published its bytes. -/
def Event.Good (cfg : Config) : Event → Prop
  | .putRet .success d st (some g) ds =>
    d ≠ 0 → st.toNat + d.toNat ≤ g.2.toNat ∧ Tiles cfg.maxIpBlockSize (g.1 + st) d ds
  | _ => True

/-! ## The condition -/

/-- The handler, where it is past its check of the buffer, made it for `r` bytes. -/
def Isr.For (i : Isr) (r : BitVec 32) : Prop :=
  match i with
  | .test len | .wake len => len = r
  | _ => True

/-- The get in progress, where it relies on the check of the buffer, asks for `len` bytes. -/
def Prod.Asks (p : Prod) (len : BitVec 32) : Prop :=
  match p with
  | .getTest r _ | .getArm r | .getWait r | .getWoken r => len = r
  | _ => True

/-- The get in progress, where it may be woken up, asks for `len` bytes. -/
def Prod.Sleeps (p : Prod) (len : BitVec 32) : Prop :=
  match p with
  | .getArm r | .getWait r => len = r
  | _ => True

/-- A grant stands. -/
def Sys.Granted (s : Sys) : Prop :=
  match s.prod with
  | .getRead _ => True
  | .putDesc .. => False
  | _ => s.grant ≠ none

/-- The steps that leave a grant alone: the end of the data has no carry; a get checks the buffer over a standing
    grant only where it finds room, and not in the middle of the handler's check for another length; the handler
    checks it only while no grant stands, and for the length of the get that waits. -/
def Calm (cfg : Config) (s : Sys) : Input → Prop
  | .get _ _ => True
  | .put d st => st.toNat + d.toNat < 0x100000000
  | .prod _ _ =>
    match s.prod with
    | .getLock r _ => s.isr.For r ∧ (s.grant = none ∨ (s.port.getIPBufLen cfg r).reqAddr ≠ 0)
    | _ => True
  | .irq _ =>
    match s.isr with
    | .lock len => ¬ s.Granted ∧ s.prod.Asks len
    | .wake len => s.prod.Sleeps len
    | _ => True

/-! ## The invariant -/

/-- `ReqAddr` and `ReqLen` are the grant's. -/
structure Port.Has (p : Port) (g : Grant) : Prop where
  addr : p.reqAddr = g.1
  len : p.reqLen = g.2
  pos : g.2 ≠ 0

/-- The port has the grant that stands. -/
def Sys.Kept (s : Sys) : Prop := ∀ g, s.grant = some g → s.port.Has g

/-- What the producer relies on, where it is. -/
def ProdOk (cfg : Config) (s : Sys) : Prop :=
  match s.prod with
  | .ready => s.Kept
  | .getDesc r _ | .getLock r _ | .getBusy r => r ≠ 0 ∧ s.Kept
  | .getTest r _ => r ≠ 0 ∧ (s.port.reqAddr ≠ 0 → s.port.reqLen = r) ∧ (s.grant ≠ none → s.port.reqAddr ≠ 0)
  | .getArm r | .getWait r =>
    r ≠ 0 ∧ (s.port.wakeUp = true → s.port.reqAddr ≠ 0 → s.port.reqLen = r) ∧ s.Kept
  | .getWoken r => r ≠ 0 ∧ (s.port.reqAddr ≠ 0 → s.port.reqLen = r) ∧ s.Kept
  | .getRead r => r ≠ 0 ∧ s.port.reqLen = r
  | .putZero d st => st.toNat + d.toNat < 0x100000000 ∧ s.Kept
  | .putBound d st => st.toNat + d.toNat < 0x100000000 ∧ s.Kept
  | .putLock d st => s.Kept ∧ ∀ g, s.grant = some g → st.toNat + d.toNat ≤ g.2.toNat
  | .putDesc addr len d st descs =>
    ∀ g, s.grant = some g → st.toNat + d.toNat ≤ g.2.toNat ∧
      ∀ rest, Tiles cfg.maxIpBlockSize addr len rest → Tiles cfg.maxIpBlockSize (g.1 + st) d (descs ++ rest)

structure Inv (cfg : Config) (s : Sys) : Prop where
  isr : s.port.reqAddr ≠ 0 → s.isr.For s.port.reqLen
  prod : ProdOk cfg s

variable {cfg : Config} {s t : Sys} {p : Port} {fs : List Event}

/-! ## The parts of the port -/

theorem getIPBufLen_reqLen (cfg : Config) (p : Port) (r : BitVec 32)
    (h : (p.getIPBufLen cfg r).reqAddr ≠ 0) : (p.getIPBufLen cfg r).reqLen = r := by
  unfold Port.getIPBufLen at h ⊢
  exact if_pos h

/-- The port's grant and `WakeUp` are the same, whatever else was written. -/
structure SameGrant (p q : Port) : Prop where
  addr : q.reqAddr = p.reqAddr
  len : q.reqLen = p.reqLen
  wakeUp : q.wakeUp = p.wakeUp

theorem isrRead_same (p : Port) (descRead : BitVec 32) : SameGrant p (p.isrRead descRead) := by
  unfold Port.isrRead
  dsimp only
  split_ifs <;> exact ⟨rfl, rfl, rfl⟩

theorem Port.Has.same {q : Port} {g : Grant} (h : p.Has g) (hpq : SameGrant p q) : q.Has g :=
  ⟨hpq.addr.trans h.addr, hpq.len.trans h.len, h.pos⟩

/-- What the producer relies on is about its place, the grant and the grant's fields. -/
theorem ProdOk.same (h : ProdOk cfg s) (hp : t.prod = s.prod) (hg : t.grant = s.grant)
    (hport : SameGrant s.port t.port) : ProdOk cfg t := by
  have hkept : s.Kept → t.Kept := fun hk g hgt => (hk g (hg ▸ hgt)).same hport
  unfold ProdOk at h ⊢
  rw [hp]
  cases hs : s.prod <;> simp only [hs, hport.addr, hport.len, hport.wakeUp, hg] at h ⊢
  case ready => exact hkept h
  case getDesc | getLock | getBusy => exact ⟨h.1, hkept h.2⟩
  case getTest | getRead => exact h
  case getArm | getWait | getWoken => exact ⟨h.1, h.2.1, hkept h.2.2⟩
  case putZero | putBound => exact ⟨h.1, hkept h.2⟩
  case putLock => exact ⟨hkept h.1, h.2⟩
  case putDesc => exact h

/-! ## The handler -/

/-- The handler's check of the buffer, while no grant stands. -/
theorem ProdOk.recompute (h : ProdOk cfg s) (hfree : ¬ s.Granted)
    (hasks : s.prod.Asks len) : ProdOk cfg { s with port := s.port.getIPBufLen cfg len, isr := i } := by
  have hlen := getIPBufLen_reqLen cfg s.port len
  have hkept : s.grant = none → Sys.Kept { s with port := s.port.getIPBufLen cfg len, isr := i } := by
    intro hn g hg
    rw [hn] at hg
    cases hg
  unfold ProdOk at h ⊢
  cases hs : s.prod <;> simp only [hs, Sys.Granted, Prod.Asks, not_not, not_true_eq_false] at h hfree hasks ⊢
  case ready => exact hkept hfree
  case getDesc | getLock | getBusy => exact ⟨h.1, hkept hfree⟩
  case getTest => exact ⟨h.1, fun ha => (hlen ha).trans hasks, fun hg => absurd hfree hg⟩
  case getArm | getWait => exact ⟨h.1, fun _ ha => (hlen ha).trans hasks, hkept hfree⟩
  case getWoken => exact ⟨h.1, fun ha => (hlen ha).trans hasks, hkept hfree⟩
  case putZero | putBound => exact ⟨h.1, hkept hfree⟩
  case putLock => exact ⟨hkept hfree, h.2⟩
  case putDesc => exact h

/-- The handler sets `WakeUp`. -/
theorem ProdOk.wakeUp (h : ProdOk cfg s) (hsleeps : s.prod.Sleeps len)
    (hlen : s.port.reqAddr ≠ 0 → s.port.reqLen = len) :
    ProdOk cfg { s with port := { s.port with wakeUp := true }, isr := i } := by
  have hkept : s.Kept → Sys.Kept { s with port := { s.port with wakeUp := true }, isr := i } :=
    fun hk g hg => ⟨(hk g hg).addr, (hk g hg).len, (hk g hg).pos⟩
  unfold ProdOk at h ⊢
  cases hs : s.prod <;> simp only [hs, Prod.Sleeps] at h hsleeps ⊢
  case ready => exact hkept h
  case getDesc | getLock | getBusy => exact ⟨h.1, hkept h.2⟩
  case getTest | getRead => exact h
  case getArm | getWait => exact ⟨h.1, fun _ ha => (hlen ha).trans hsleeps, hkept h.2.2⟩
  case getWoken => exact ⟨h.1, h.2.1, hkept h.2.2⟩
  case putZero | putBound => exact ⟨h.1, hkept h.2⟩
  case putLock => exact ⟨hkept h.1, h.2⟩
  case putDesc => exact h

theorem Inv.irq (h : Inv cfg s) (hc : Calm cfg s (.irq descRead)) :
    Inv cfg (irqNext cfg s descRead) := by
  have hisr := h.isr
  have hsame : ∀ i, ProdOk cfg { s with isr := i } := fun i => h.prod.same rfl rfl ⟨rfl, rfl, rfl⟩
  unfold irqNext
  cases hi : s.isr with
  | idle =>
    have hread := isrRead_same s.port descRead
    exact ⟨fun _ => trivial, h.prod.same rfl rfl hread⟩
  | check =>
    dsimp only
    split_ifs
    · exact ⟨fun _ => trivial, hsame _⟩
    · exact ⟨fun _ => trivial, hsame _⟩
  | arg =>
    dsimp only
    split_ifs
    · exact ⟨fun _ => trivial, hsame _⟩
    · exact ⟨fun _ => trivial, hsame _⟩
  | lock len =>
    simp only [Calm, hi] at hc
    exact ⟨fun ha => (getIPBufLen_reqLen cfg s.port len ha).symm, h.prod.recompute hc.1 hc.2⟩
  | test len =>
    rw [hi] at hisr
    dsimp only
    split_ifs
    · exact ⟨fun _ => trivial, hsame _⟩
    · exact ⟨hisr, hsame _⟩
  | wake len =>
    rw [hi] at hisr
    simp only [Calm, hi] at hc
    exact ⟨fun _ => trivial, h.prod.wakeUp hc (fun ha => (hisr ha).symm)⟩
  | clear => exact ⟨fun _ => trivial, h.prod.same rfl rfl ⟨rfl, rfl, rfl⟩⟩

/-! ## The producer -/

/-- What a step of the producer keeps. -/
structure Step (cfg : Config) (t : Sys) (fs : List Event) : Prop where
  inv : Inv cfg t
  good : ∀ e ∈ fs, e.Good cfg

theorem Step.quiet (h : Inv cfg t) : Step cfg t [] := ⟨h, fun _ he => absurd he List.not_mem_nil⟩

theorem Step.show {e : Event} (h : Inv cfg t) (he : e.Good cfg) : Step cfg t [e] := by
  refine ⟨h, fun f hf => ?_⟩
  rw [List.mem_singleton.mp hf]
  exact he

theorem descAdd_same (p : Port) (addr len : BitVec 32) : SameGrant p (p.descAdd addr len) := by
  unfold Port.descAdd
  dsimp only
  split_ifs <;> exact ⟨rfl, rfl, rfl⟩

theorem step_busy {r timeout : BitVec 32} (h : Inv cfg s) (hr : r ≠ 0) (hk : s.Kept)
    (hn : some (busy s r timeout) = some (t, fs)) : Step cfg t fs := by
  unfold busy at hn
  split_ifs at hn <;> obtain ⟨rfl, rfl⟩ := hn
  · exact Step.show ⟨h.isr, hk⟩ trivial
  · exact Step.quiet ⟨h.isr, hr, hk⟩

theorem pieceLen_le (cfg : Config) (n : BitVec 32) : pieceLen cfg n ≤ cfg.maxIpBlockSize ∧ pieceLen cfg n ≤ n := by
  unfold pieceLen
  split_ifs with hn
  · exact ⟨BitVec.le_refl _, hn⟩
  · exact ⟨BitVec.le_of_lt (BitVec.not_le.mp hn), BitVec.le_refl _⟩

/-- The piece is empty only where nothing is left. -/
theorem eq_zero_of_pieceLen {n : BitVec 32} (h : pieceLen cfg n = 0) : n = 0 := by
  unfold pieceLen at h
  split_ifs at h with hn
  · have hpos := cfg.pos
    rw [h] at hpos
    exact absurd hpos (BitVec.lt_irrefl _)
  · exact h

theorem step_putRound {addr d st : BitVec 32} {descs : List (BitVec 32 × BitVec 32)} (h : Inv cfg s)
    (hs : s.prod = .putDesc addr len d st descs) (hn : some (putRound cfg s addr len d st descs) = some (t, fs)) :
    Step cfg t fs := by
  have hprod := h.prod
  simp only [ProdOk, hs] at hprod
  have hsame := descAdd_same s.port
  obtain ⟨hmax, hle⟩ := pieceLen_le cfg len
  unfold putRound at hn
  dsimp only at hn
  split_ifs at hn with hz <;> obtain ⟨rfl, rfl⟩ := hn
  · -- the empty piece ends the range
    have hlen := eq_zero_of_pieceLen hz
    refine Step.show ⟨fun ha => ?_, fun g hg => by cases hg⟩ ?_
    · rw [(hsame _ _).len]
      rw [(hsame _ _).addr] at ha
      exact h.isr ha
    · cases hg : s.grant with
      | none => exact trivial
      | some g =>
        intro _
        obtain ⟨hbound, htiles⟩ := hprod g hg
        refine ⟨hbound, htiles _ ?_⟩
        rw [hz, hlen]
        exact .last
  · refine Step.quiet ⟨fun ha => ?_, fun g hg => ?_⟩
    · rw [(hsame _ _).len]
      rw [(hsame _ _).addr] at ha
      exact h.isr ha
    · obtain ⟨hbound, htiles⟩ := hprod g hg
      refine ⟨hbound, fun rest hrest => ?_⟩
      rw [List.append_assoc]
      exact htiles _ (.cons (((BitVec.pos_iff_ne_zero _).mpr hz)) hmax hle hrest)

theorem step_prodNext {timedOut : Bool} (h : Inv cfg s)
    (hc : Calm cfg s (.prod descRead timedOut)) (hn : prodNext cfg s descRead timedOut = some (t, fs)) :
    Step cfg t fs := by
  have hprod := h.prod
  unfold ProdOk at hprod
  unfold prodNext at hn
  cases hs : s.prod <;> simp only [hs] at hprod hn
  case ready => cases hn
  case getDesc r timeout =>
    split_ifs at hn
    · exact step_busy h hprod.1 hprod.2 hn
    · obtain ⟨rfl, rfl⟩ := hn
      exact Step.quiet ⟨h.isr, hprod⟩
  case getLock r timeout =>
    obtain ⟨rfl, rfl⟩ := hn
    simp only [Calm, hs] at hc
    have hlen := getIPBufLen_reqLen cfg s.port r
    refine Step.quiet ⟨fun ha => ?_, hprod.1, hlen, fun hg => hc.2.resolve_left hg⟩
    rw [hlen ha]
    exact hc.1
  case getTest r timeout =>
    split_ifs at hn with ha
    · -- no grant stands here, for it would have an address
      refine step_busy h hprod.1 (fun g hg => absurd ha (hprod.2.2 ?_)) hn
      rw [hg]
      exact Option.some_ne_none g
    · obtain ⟨rfl, rfl⟩ := hn
      exact Step.quiet ⟨h.isr, hprod.1, hprod.2.1 ha⟩
  case getBusy r =>
    obtain ⟨rfl, rfl⟩ := hn
    refine Step.quiet ⟨h.isr, hprod.1, fun hw => absurd hw Bool.false_ne_true, fun g hg => ?_⟩
    exact ⟨(hprod.2 g hg).addr, (hprod.2 g hg).len, (hprod.2 g hg).pos⟩
  case getArm r =>
    obtain ⟨rfl, rfl⟩ := hn
    refine Step.quiet ⟨h.isr, hprod.1, hprod.2.1, fun g hg => ?_⟩
    exact ⟨(hprod.2.2 g hg).addr, (hprod.2.2 g hg).len, (hprod.2.2 g hg).pos⟩
  case getWait r =>
    split_ifs at hn with hw <;> obtain ⟨rfl, rfl⟩ := hn
    · exact Step.quiet ⟨h.isr, hprod.1, hprod.2.1 hw, hprod.2.2⟩
    · exact Step.show ⟨h.isr, hprod.2.2⟩ trivial
  case getWoken r =>
    split_ifs at hn with ha <;> obtain ⟨rfl, rfl⟩ := hn
    · exact Step.show ⟨h.isr, hprod.2.2⟩ trivial
    · exact Step.quiet ⟨h.isr, hprod.1, hprod.2.1 ha⟩
  case getRead r =>
    obtain ⟨rfl, rfl⟩ := hn
    refine Step.show ⟨h.isr, fun g hg => ?_⟩ trivial
    obtain rfl := Option.some.inj hg
    exact ⟨rfl, hprod.2, hprod.1⟩
  case putZero d st =>
    split_ifs at hn with hz <;> obtain ⟨rfl, rfl⟩ := hn
    · refine Step.show ⟨h.isr, hprod.2⟩ ?_
      cases hg : s.grant with
      | none => exact trivial
      | some g =>
        -- a grant that stands is not empty
        intro hd
        have hhas := hprod.2 g hg
        rcases hz with hz | hz
        · exact absurd (hhas.len.symm.trans hz) hhas.pos
        · exact absurd hz hd
    · exact Step.quiet ⟨h.isr, hprod⟩
  case putBound d st =>
    split_ifs at hn with hlt <;> obtain ⟨rfl, rfl⟩ := hn
    · exact Step.show ⟨h.isr, hprod.2⟩ trivial
    · refine Step.quiet ⟨h.isr, hprod.2, fun g hg => ?_⟩
      rw [(hprod.2 g hg).len, BitVec.lt_def, BitVec.toNat_add, Nat.mod_eq_of_lt hprod.1] at hlt
      exact Nat.le_of_not_lt hlt
  case putLock d st =>
    obtain ⟨rfl, rfl⟩ := hn
    refine Step.quiet ⟨fun ha => absurd rfl ha, fun g hg => ⟨hprod.2 g hg, fun rest hrest => ?_⟩⟩
    rwa [(hprod.1 g hg).addr] at hrest
  case putDesc addr len d st descs =>
    exact step_putRound h hs hn

theorem step_calm {i : Input} (h : Inv cfg s) (hc : Calm cfg s i) (hn : step cfg s i = some (t, fs)) :
    Step cfg t fs := by
  cases i with
  | get r timeout =>
    simp only [step] at hn
    split_ifs at hn with hs
    have hprod := h.prod
    simp only [ProdOk, hs] at hprod
    unfold getBegin at hn
    split_ifs at hn with hbad <;> obtain ⟨rfl, rfl⟩ := hn
    · exact Step.show h trivial
    · rw [not_or, not_or] at hbad
      exact Step.quiet ⟨h.isr, hbad.2.1, hprod⟩
  | put d st =>
    simp only [step] at hn
    split_ifs at hn with hs
    have hprod := h.prod
    simp only [ProdOk, hs] at hprod
    unfold putBegin at hn
    split_ifs at hn <;> obtain ⟨rfl, rfl⟩ := hn
    · exact Step.show h trivial
    · exact Step.quiet ⟨h.isr, hc, hprod⟩
  | prod descRead timedOut => exact step_prodNext h hc hn
  | irq descRead =>
    obtain ⟨rfl, rfl⟩ := hn
    exact Step.quiet (h.irq hc)

theorem init_inv (cfg : Config) (phyAddr bufSize descDepth : BitVec 32) :
    Inv cfg (init phyAddr bufSize descDepth) :=
  ⟨fun _ => trivial, fun _ hg => by cases hg⟩

/-! ## Runs -/

theorem run_step {i₀ : Sys} {is : List Input} {es : List Event} (h0 : Inv cfg i₀)
    (h : Run (step cfg) (Calm cfg) i₀ is s es) : Step cfg s es := by
  refine Run.inv_effects (fun _ s es => Step cfg s es) (Step.quiet h0) ?_ h
  intro _ _ es _ _ fs hpre hc hn
  have hnext := step_calm hpre.inv hc hn
  refine ⟨hnext.inv, fun e he => ?_⟩
  rcases List.mem_append.mp he with he | he
  · exact hpre.good e he
  · exact hnext.good e he

/-- **A put publishes what the get granted.** -/
theorem run_put_tiles (cfg : Config) (phyAddr bufSize descDepth : BitVec 32) {is : List Input} {es : List Event}
    (h : Run (step cfg) (Calm cfg) (init phyAddr bufSize descDepth) is s es)
    {d st a len : BitVec 32} {descs : List (BitVec 32 × BitVec 32)} (hd : d ≠ 0)
    (he : .putRet .success d st (some (a, len)) descs ∈ es) :
    st.toNat + d.toNat ≤ len.toNat ∧ Tiles cfg.maxIpBlockSize (a + st) d descs :=
  (run_step (init_inv cfg phyAddr bufSize descDepth) h).good _ he hd

instance (r : BitVec 32) : (i : Isr) → Decidable (i.For r)
  | .test len => inferInstanceAs (Decidable (len = r))
  | .wake len => inferInstanceAs (Decidable (len = r))
  | .idle | .check | .arg | .lock _ | .clear => isTrue trivial

instance (len : BitVec 32) : (p : Prod) → Decidable (p.Sleeps len)
  | .getArm r => inferInstanceAs (Decidable (len = r))
  | .getWait r => inferInstanceAs (Decidable (len = r))
  | .ready | .getDesc .. | .getLock .. | .getTest .. | .getBusy _ | .getWoken _ | .getRead _ => isTrue trivial
  | .putZero .. | .putBound .. | .putLock .. | .putDesc .. => isTrue trivial

instance (len : BitVec 32) : (p : Prod) → Decidable (p.Asks len)
  | .getTest r _ => inferInstanceAs (Decidable (len = r))
  | .getArm r => inferInstanceAs (Decidable (len = r))
  | .getWait r => inferInstanceAs (Decidable (len = r))
  | .getWoken r => inferInstanceAs (Decidable (len = r))
  | .ready | .getDesc .. | .getLock .. | .getBusy _ | .getRead _ => isTrue trivial
  | .putZero .. | .putBound .. | .putLock .. | .putDesc .. => isTrue trivial

instance (s : Sys) : Decidable s.Granted := by
  unfold Sys.Granted
  split <;> infer_instance

instance (cfg : Config) (s : Sys) : (i : Input) → Decidable (Calm cfg s i)
  | .get _ _ => isTrue trivial
  | .put d st => inferInstanceAs (Decidable (st.toNat + d.toNat < 0x100000000))
  | .prod .. | .irq _ => by
    unfold Calm
    dsimp only
    split <;> infer_instance

/-- Pieces of 512 bytes and a gap of 16. -/
def smallCfg : Config := ⟨0x200, 0x10, by decide⟩

/-- The producer goes on `n` times. -/
def goOn (n : Nat) : List Input := List.replicate n (.prod 0 false)

/-- A get that waits until the handler wakes it up, and a put in two pieces. -/
def calmRun : List Input :=
  [.get 0x800 0] ++ goOn 4 ++ [.put 0x800 0] ++ goOn 8 ++ [.get 0x900 10] ++ goOn 5 ++
    List.replicate 7 (.irq 5) ++ goOn 3 ++ [.put 0x250 0x10] ++ goOn 6

/-- The descriptors of `calmRun`'s second put. -/
def calmDescs : List (BitVec 32 × BitVec 32) := [(0x1010, 0x200), (0x1210, 0x50), (0x1260, 0)]

/-- The handler finds room for a get that waits; its put is published. -/
theorem run_put_tiles_wait :
    ∃ s es, Run (step smallCfg) (Calm smallCfg) (init 0x1000 0x1000 16) calmRun s es ∧
      .putRet .success 0x250 0x10 (some (0x1000, 0x900)) calmDescs ∈ es ∧
      Tiles smallCfg.maxIpBlockSize (0x1000 + 0x10) 0x250 calmDescs := by
  refine exists_run_imp (fun _ es => .putRet .success 0x250 0x10 (some (0x1000, 0x900)) calmDescs ∈ es)
    (by decide) fun _ _ hrun htest => ?_
  have hmem := htest
  exact ⟨hmem, (run_put_tiles smallCfg 0x1000 0x1000 16 hrun (by decide) hmem).2⟩

/-- A put from behind the end of the address space. -/
def carryRun : List Input := [.get 0x100 0] ++ goOn 4 ++ [.put 2 0xFFFFFFFF] ++ goOn 5

/-- A get that times out, a smaller get that succeeds, and the interrupt. -/
def staleRun : List Input :=
  [.get 0x800 0] ++ goOn 4 ++ [.put 0x800 0] ++ goOn 8 ++ [.get 0x800 10] ++ goOn 5 ++ [.prod 0 true] ++
    [.get 0x100 0] ++ goOn 4 ++ List.replicate 5 (.irq 1) ++ [.put 0x100 0] ++ goOn 1

/-- **The two ways out.** A put whose end has a carry is taken, though it is outside the grant; and a put whose
    grant the handler recomputed for the `WaitLen` of a get that timed out returns success without a descriptor. -/
theorem put_wraps_and_put_drops :
    (∃ s es descs, Run (step smallCfg) always (init 0x1000 0x1000 16) carryRun s es ∧
      .putRet .success 2 0xFFFFFFFF (some (0x1000, 0x100)) descs ∈ es ∧
      ¬ (0xFFFFFFFF : BitVec 32).toNat + (2 : BitVec 32).toNat ≤ (0x100 : BitVec 32).toNat) ∧
    (∃ s es, Run (step smallCfg) always (init 0x1000 0x1000 16) staleRun s es ∧
      .putRet .success 0x100 0 (some (0x1800, 0x100)) [] ∈ es ∧
      ¬ Tiles smallCfg.maxIpBlockSize (0x1800 + 0) 0x100 []) := by
  refine ⟨?_, ?_⟩
  · obtain ⟨s, es, hrun, htest⟩ := exists_run_of_exec (step smallCfg) always (init 0x1000 0x1000 16) carryRun
      (fun r => decide (.putRet .success 2 0xFFFFFFFF (some (0x1000, 0x100)) [(0xFFF, 2), (0x1001, 0)] ∈ r.2))
      (by decide)
    exact ⟨s, es, _, hrun, of_decide_eq_true htest, by decide⟩
  · refine exists_run_imp (fun _ es => .putRet .success 0x100 0 (some (0x1800, 0x100)) [] ∈ es)
      (by decide) fun _ _ _ htest => ?_
    refine ⟨htest, fun htiles => ?_⟩
    cases htiles

end HiSTB.Demux.RamPort
