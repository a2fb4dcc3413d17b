import Mathlib.Data.List.Basic
import Mathlib.Logic.Function.Basic

/-!
# `Lib.LinkedQueue` — singly linked queues with a head and a tail pointer

Nodes are addresses, `next` is the link field of every node, and a queue is a pair of pointers into it.
`IsQueue next q l` says that following `next` from the head visits exactly the nodes `l` and ends in `NULL`,
and that the tail pointer is the last of them. The two operations keep it:

* `IsQueue.append` — a node from outside goes to the end;
* `IsQueue.delHead` — the first node is taken out;
* `IsQueue.append_other`, `IsQueue.set_other` — a queue over other nodes does not notice.

Chains without end pointers are linked by hand: `Chain.linkTail` joins two of them, and `Chain.follow_eq` says
what is met on the way.
-/

namespace HiSTB.Lib.LinkedQueue

/-- The pointers of a queue. -/
structure Ends where
  head : Option Nat
  tail : Option Nat

/-- Put node `a` at the end: the last node links to it, and it links to nothing. -/
def append (next : Nat → Option Nat) (q : Ends) (a : Nat) : (Nat → Option Nat) × Ends :=
  match q.tail with
  | none => (Function.update next a none, ⟨some a, some a⟩)
  | some t => (Function.update (Function.update next t (some a)) a none, ⟨q.head, some a⟩)

/-- Take the first node out, if there is one. -/
def delHead (next : Nat → Option Nat) (q : Ends) : Ends × Option Nat :=
  match q.head with
  | none => (q, none)
  | some a => (⟨next a, if (next a).isNone then none else q.tail⟩, some a)

/-- Following `next` from `p` visits `l` and ends in `NULL`. -/
def Chain (next : Nat → Option Nat) : Option Nat → List Nat → Prop
  | p, [] => p = none
  | p, a :: l => p = some a ∧ Chain next (next a) l

/-- The nodes met by following `next` from `p`, at most `fuel` of them. -/
def follow (next : Nat → Option Nat) : Nat → Option Nat → List Nat
  | 0, _ => []
  | _ + 1, none => []
  | fuel + 1, some a => a :: follow next fuel (next a)

/-- Link the last of the nodes `l` to `r`. -/
def linkTail (next : Nat → Option Nat) (l : List Nat) (r : Option Nat) : Nat → Option Nat :=
  match l.getLast? with
  | none => next
  | some t => Function.update next t r

/-- The queue `q` holds the nodes `l`, in this order. -/
structure IsQueue (next : Nat → Option Nat) (q : Ends) (l : List Nat) : Prop where
  chain : Chain next q.head l
  tail : q.tail = l.getLast?
  nodup : l.Nodup

variable {next : Nat → Option Nat} {q : Ends} {l : List Nat} {a : Nat}

theorem IsQueue.empty (next : Nat → Option Nat) : IsQueue next ⟨none, none⟩ [] :=
  ⟨rfl, rfl, List.nodup_nil⟩

/-- A link outside the chain does not matter. -/
theorem Chain.update {p : Option Nat} (h : Chain next p l) (ha : a ∉ l) (v : Option Nat) :
    Chain (Function.update next a v) p l := by
  induction l generalizing p with
  | nil => exact h
  | cons b l ih =>
    obtain ⟨hp, hrest⟩ := h
    rw [List.mem_cons, not_or] at ha
    refine ⟨hp, ?_⟩
    rw [Function.update_of_ne (Ne.symm ha.1)]
    exact ih hrest ha.2

/-- Linking the last node of a chain to another chain joins them. -/
theorem Chain.join {p r : Option Nat} {t : Nat} {m : List Nat} (h : Chain next p (l ++ [t]))
    (h' : Chain next r m) (hnd : (l ++ [t]).Nodup) (ht : t ∉ m) :
    Chain (Function.update next t r) p (l ++ [t] ++ m) := by
  induction l generalizing p with
  | nil =>
    refine ⟨h.1, ?_⟩
    rw [Function.update_self]
    exact h'.update ht r
  | cons b l ih =>
    obtain ⟨hp, hrest⟩ := h
    rw [List.cons_append, List.nodup_cons] at hnd
    have hbt : b ≠ t := by
      rintro rfl
      exact hnd.1 (by simp)
    refine ⟨hp, ?_⟩
    rw [Function.update_of_ne hbt]
    exact ih hrest hnd.2

theorem linkTail_concat (next : Nat → Option Nat) (l : List Nat) (t : Nat) (r : Option Nat) :
    linkTail next (l ++ [t]) r = Function.update next t r := by
  unfold linkTail
  rw [List.getLast?_concat]

theorem linkTail_append {m : List Nat} (r : Option Nat) (hm : m ≠ []) :
    linkTail next (l ++ m) r = linkTail next m r := by
  obtain ⟨m, t, rfl⟩ := List.eq_nil_or_concat m |>.resolve_left hm
  rw [List.concat_eq_append, ← List.append_assoc, linkTail_concat, linkTail_concat]

/-- A node outside `l` keeps its link. -/
theorem linkTail_of_notMem {r : Option Nat} (ha : a ∉ l) : linkTail next l r a = next a := by
  rcases List.eq_nil_or_concat l with rfl | ⟨l, t, rfl⟩
  · rfl
  · rw [List.concat_eq_append] at ha ⊢
    rw [linkTail_concat]
    refine Function.update_of_ne ?_ _ _
    rintro rfl
    exact ha (by simp)

/-- Chains over other nodes do not notice. -/
theorem Chain.linkTail_other {p r : Option Nat} {m : List Nat} (h : Chain next p m)
    (hdisj : ∀ x ∈ l, x ∉ m) : Chain (linkTail next l r) p m := by
  rcases List.eq_nil_or_concat l with rfl | ⟨l, t, rfl⟩
  · exact h
  · rw [List.concat_eq_append] at hdisj ⊢
    rw [linkTail_concat]
    exact h.update (hdisj t (by simp)) r

/-- **Linking one chain to another joins them.** -/
theorem Chain.linkTail {m : List Nat} (h : Chain next l.head? l) (h' : Chain next m.head? m)
    (hnd : l.Nodup) (hdisj : ∀ x ∈ l, x ∉ m) : Chain (linkTail next l m.head?) (l ++ m).head? (l ++ m) := by
  rcases List.eq_nil_or_concat l with rfl | ⟨l, t, rfl⟩
  · exact h'
  · rw [List.concat_eq_append] at h hnd hdisj ⊢
    have hhead : (l ++ [t] ++ m).head? = (l ++ [t]).head? := by simp
    rw [linkTail_concat, hhead]
    exact h.join h' hnd (hdisj t (by simp))

/-- Following a chain visits it, given enough fuel. -/
theorem Chain.follow_eq {p : Option Nat} {fuel : Nat} (h : Chain next p l) (hlen : l.length ≤ fuel) :
    follow next fuel p = l := by
  induction l generalizing p fuel with
  | nil =>
    rw [show p = none from h]
    cases fuel <;> rfl
  | cons a l ih =>
    obtain ⟨rfl, hrest⟩ := h
    cases fuel with
    | zero => exact absurd hlen (by simp)
    | succ fuel => rw [follow, ih hrest (Nat.le_of_succ_le_succ hlen)]

/-- The links determine the list. -/
theorem Chain.unique {p : Option Nat} {m : List Nat} (h : Chain next p l) (h' : Chain next p m) : l = m := by
  have hl := h.follow_eq (Nat.le_max_left l.length m.length)
  rw [← hl]
  exact h'.follow_eq (Nat.le_max_right l.length m.length)

/-- Linking the last node to a fresh one makes the chain longer. -/
theorem Chain.link {p : Option Nat} {t : Nat} (h : Chain next p (l ++ [t])) (hnd : (l ++ [t]).Nodup)
    (ha : a ∉ l ++ [t]) :
    Chain (Function.update (Function.update next t (some a)) a none) p (l ++ [t] ++ [a]) := by
  have hta : t ≠ a := by
    rintro rfl
    exact ha (by simp)
  have hnew : Chain (Function.update next a none) (some a) [a] := ⟨rfl, Function.update_self _ _ _⟩
  rw [Function.update_comm hta]
  exact (h.update ha none).join hnew hnd (by simpa using hta)

/-- **A node from outside goes to the end.** -/
theorem IsQueue.append (h : IsQueue next q l) (ha : a ∉ l) :
    IsQueue (append next q a).1 (append next q a).2 (l ++ [a]) := by
  have hnd : (l ++ [a]).Nodup := by
    rw [List.nodup_append]
    refine ⟨h.nodup, by simp, ?_⟩
    intro x hx y hy
    rw [List.mem_singleton.mp hy]
    rintro rfl
    exact ha hx
  unfold LinkedQueue.append
  rcases List.eq_nil_or_concat l with rfl | ⟨l', t, rfl⟩
  · rw [h.tail, List.getLast?_nil]
    exact ⟨⟨rfl, Function.update_self _ _ _⟩, rfl, hnd⟩
  · rw [List.concat_eq_append] at h ha hnd ⊢
    rw [h.tail, List.getLast?_concat]
    exact ⟨h.chain.link h.nodup ha, by rw [List.getLast?_concat], hnd⟩

/-- **The first node is taken out.** -/
theorem IsQueue.delHead (h : IsQueue next q (a :: l)) :
    (delHead next q).2 = some a ∧ IsQueue next (delHead next q).1 l := by
  obtain ⟨hhead, hrest⟩ := h.chain
  unfold LinkedQueue.delHead
  rw [hhead]
  refine ⟨rfl, hrest, ?_, (List.nodup_cons.mp h.nodup).2⟩
  dsimp only
  cases l with
  | nil =>
    rw [show next a = none from hrest]
    rfl
  | cons b l =>
    rw [hrest.1]
    exact h.tail.trans List.getLast?_cons_cons

/-- An empty queue has no first node. -/
theorem IsQueue.head_eq_none (h : IsQueue next q l) : q.head = none ↔ l = [] := by
  cases l with
  | nil => exact ⟨fun _ => rfl, fun _ => h.chain⟩
  | cons a l =>
    have hhead := h.chain.1
    rw [hhead]
    exact ⟨fun hc => (Option.some_ne_none a hc).elim, fun hc => (List.cons_ne_nil a l hc).elim⟩

theorem IsQueue.set_other (h : IsQueue next q l) (ha : a ∉ l) (v : Option Nat) :
    IsQueue (Function.update next a v) q l :=
  ⟨h.chain.update ha v, h.tail, h.nodup⟩

/-- Appending to a queue leaves the queues over other nodes alone. -/
theorem IsQueue.append_other {q' : Ends} {l' : List Nat} (h : IsQueue next q l) (h' : IsQueue next q' l')
    (ha : a ∉ l') (hdisj : ∀ x ∈ l, x ∉ l') : IsQueue (LinkedQueue.append next q a).1 q' l' := by
  unfold LinkedQueue.append
  rcases List.eq_nil_or_concat l with rfl | ⟨l₀, t, rfl⟩
  · rw [h.tail, List.getLast?_nil]
    exact h'.set_other ha none
  · rw [List.concat_eq_append] at h hdisj
    rw [h.tail, List.getLast?_concat]
    exact (h'.set_other (hdisj t (by simp)) (some a)).set_other ha none

end HiSTB.Lib.LinkedQueue
