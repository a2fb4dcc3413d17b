import Mathlib.Data.List.Chain
import Mathlib.Data.List.Nodup
import Mathlib.Logic.Function.Basic

/-!
# `Lib.ListHead` — circular doubly linked lists (`list.h` of the kernel)

Every node has a `next` and a `prev` link, and a list is a ring through a head that is a node itself.
`Ring l h xs` says that from the head `h` the links lead through exactly the nodes `xs` and back, in both
directions. The operations keep it:

* `Ring.add`, `Ring.addTail`, `Ring.delInit` — a node from outside goes anywhere or to the end, a node is taken
  out anywhere;
* `Ring.add_other`, `Ring.addTail_other`, `Ring.delInit_other` — a ring over other nodes does not notice;
* `Ring.links`, `Ring.next_head`, `Ring.prev_head` — what the links of a ring are.
-/

namespace HiSTB.Lib.ListHead

variable {α : Type*}

/-- The links of all nodes. -/
structure Links (α : Type*) where
  next : α → α
  prev : α → α

namespace Links

variable [DecidableEq α]

/-- `INIT_LIST_HEAD`. -/
def initHead (l : Links α) (h : α) : Links α where
  next := Function.update l.next h h
  prev := Function.update l.prev h h

/-- `__list_add`: put `a` between `p` and `n`. -/
def add (l : Links α) (a p n : α) : Links α where
  next := Function.update (Function.update l.next a n) p a
  prev := Function.update (Function.update l.prev n a) a p

/-- `list_add_tail`. -/
def addTail (l : Links α) (a h : α) : Links α := l.add a (l.prev h) h

/-- `__list_del`: link `p` and `n` to each other. -/
def del (l : Links α) (p n : α) : Links α where
  next := Function.update l.next p n
  prev := Function.update l.prev n p

/-- `list_del_init`. -/
def delInit (l : Links α) (a : α) : Links α := (l.del (l.prev a) (l.next a)).initHead a

end Links

/-- `a` and `b` are linked to each other. -/
def Linked (l : Links α) (a b : α) : Prop := l.next a = b ∧ l.prev b = a

/-- From the head `h` the links lead through the nodes `xs` and back to `h`. -/
structure Ring (l : Links α) (h : α) (xs : List α) : Prop where
  path : (h :: xs ++ [h]).IsChain (Linked l)
  nodup : (h :: xs).Nodup

variable {l m : Links α} {h g a b : α} {xs ys zs us : List α}

/-! ## Paths -/

/-- A path only reads the `next` links of all but its last node and the `prev` links of all but its first. -/
theorem path_congr (hp : us.IsChain (Linked l)) (hnext : ∀ x ∈ us.dropLast, m.next x = l.next x)
    (hprev : ∀ x ∈ us.tail, m.prev x = l.prev x) : us.IsChain (Linked m) := by
  induction us with
  | nil => exact .nil
  | cons x us ih =>
    cases us with
    | nil => exact .singleton x
    | cons y us =>
      rw [List.isChain_cons_cons] at hp ⊢
      refine ⟨⟨?_, ?_⟩, ih hp.2 ?_ ?_⟩
      · rw [hnext x List.mem_cons_self]
        exact hp.1.1
      · rw [hprev y List.mem_cons_self]
        exact hp.1.2
      · exact fun z hz => hnext z (List.mem_cons_of_mem _ hz)
      · exact fun z hz => hprev z (List.mem_cons_of_mem _ hz)

theorem Ring.links (hr : Ring l h xs) (us vs : List α) (hsplit : h :: xs ++ [h] = us ++ a :: b :: vs) :
    Linked l a b := by
  have hpath := hr.path
  rw [hsplit, List.isChain_append_cons_cons] at hpath
  exact hpath.2.1

theorem Ring.next_head (hr : Ring l h xs) : l.next h = xs.head?.getD h := by
  cases xs with
  | nil => exact (hr.links [] [] rfl).1
  | cons x xs => exact (hr.links [] (xs ++ [h]) rfl).1

theorem Ring.prev_head (hr : Ring l h xs) : l.prev h = xs.getLast?.getD h := by
  rcases List.eq_nil_or_concat xs with rfl | ⟨xs, x, rfl⟩
  · exact (hr.links [] [] rfl).2
  · rw [List.concat_eq_append] at hr ⊢
    rw [List.getLast?_concat, Option.getD_some]
    exact (hr.links (h :: xs) [] (by simp)).2

theorem Ring.next_node (hr : Ring l h (xs ++ a :: ys)) : l.next a = ys.head?.getD h := by
  cases ys with
  | nil => exact (hr.links (h :: xs) [] (by simp)).1
  | cons y ys => exact (hr.links (h :: xs) (ys ++ [h]) (by simp)).1

theorem Ring.prev_node (hr : Ring l h (xs ++ a :: ys)) : l.prev a = xs.getLast?.getD h := by
  rcases List.eq_nil_or_concat xs with rfl | ⟨xs, x, rfl⟩
  · exact (hr.links [] (ys ++ [h]) (by simp)).2
  · rw [List.concat_eq_append] at hr ⊢
    rw [List.getLast?_concat, Option.getD_some]
    exact (hr.links (h :: xs) (ys ++ [h]) (by simp)).2

/-- A ring over nodes whose links did not change. -/
theorem Ring.congr (hr : Ring l h xs) (hnext : ∀ x ∈ h :: xs, m.next x = l.next x)
    (hprev : ∀ x ∈ h :: xs, m.prev x = l.prev x) : Ring m h xs := by
  refine ⟨path_congr hr.path ?_ ?_, hr.nodup⟩
  · intro x hx
    rw [List.dropLast_concat] at hx
    exact hnext x hx
  · intro x hx
    refine hprev x ?_
    rw [List.cons_append, List.tail_cons, List.mem_append, List.mem_singleton] at hx
    rcases hx with hx | rfl
    · exact List.mem_cons_of_mem _ hx
    · exact List.mem_cons_self

/-- The neighbours of a place on a ring are on it. -/
theorem ends_mem (h : α) (xs ys : List α) :
    xs.getLast?.getD h ∈ h :: (xs ++ ys) ∧ ys.head?.getD h ∈ h :: (xs ++ ys) := by
  constructor
  · cases hx : xs.getLast? with
    | none => exact List.mem_cons_self
    | some x => exact List.mem_cons_of_mem h (List.mem_append_left ys (List.mem_of_getLast? hx))
  · cases ys with
    | nil => exact List.mem_cons_self
    | cons y ys => exact List.mem_cons_of_mem h (List.mem_append_right xs List.mem_cons_self)

/-- The neighbours `p` and `n` on a path, a node `a` that is between them or outside, and the rest: what has to
    differ when a link around `a` is written. -/
structure Apart (us : List α) (p a n : α) (vs : List α) : Prop where
  left : a ≠ p
  right : a ≠ n
  before : ∀ x ∈ us, x ≠ p ∧ x ≠ a
  tail : ∀ x ∈ (us ++ [p]).tail, x ≠ n ∧ x ≠ a
  init : ∀ x ∈ (n :: vs).dropLast, x ≠ p ∧ x ≠ a
  behind : ∀ x ∈ vs, x ≠ n ∧ x ≠ a

/-- A place on a ring, without and with a node there. -/
theorem ring_around (hnd : (h :: (xs ++ ys)).Nodup) (ha : a ∉ h :: (xs ++ ys)) : ∃ us p n vs,
    h :: (xs ++ ys) ++ [h] = us ++ p :: n :: vs ∧ h :: (xs ++ a :: ys) ++ [h] = us ++ p :: a :: n :: vs ∧
      p = xs.getLast?.getD h ∧ n = ys.head?.getD h ∧ Apart us p a n vs := by
  have hne : ∀ x ∈ h :: (xs ++ ys), x ≠ a := fun x hx heq => ha (heq ▸ hx)
  have hall := hnd
  rw [← List.cons_append, List.nodup_append] at hall
  obtain ⟨hleft, hright, hdisj⟩ := hall
  obtain ⟨us, p, hup⟩ : ∃ us p, h :: xs = us ++ [p] :=
    ⟨(h :: xs).dropLast, (h :: xs).getLast (List.cons_ne_nil _ _),
      (List.dropLast_append_getLast (List.cons_ne_nil _ _)).symm⟩
  obtain ⟨n, vs, hnv⟩ : ∃ n vs, ys ++ [h] = n :: vs := by
    cases ys with
    | nil => exact ⟨h, [], rfl⟩
    | cons y ys => exact ⟨y, ys ++ [h], rfl⟩
  have hp : p = xs.getLast?.getD h := by
    have hlast : (h :: xs).getLast? = some p := by rw [hup, List.getLast?_concat]
    rw [List.getLast?_cons] at hlast
    exact (Option.some.inj hlast).symm
  have hn : n = ys.head?.getD h := by
    cases ys with
    | nil => exact (List.cons.inj hnv).1.symm
    | cons y ys => exact (List.cons.inj hnv).1.symm
  have hua : ∀ x ∈ us ++ [p], x ≠ a := by
    intro x hx
    rw [← hup] at hx
    exact hne x (List.mem_append_left ys hx)
  have hva : ∀ x ∈ n :: vs, x ≠ a := by
    intro x hx
    rw [← hnv, List.mem_append, List.mem_singleton] at hx
    rcases hx with hx | rfl
    · exact hne x (List.mem_cons_of_mem h (List.mem_append_right xs hx))
    · exact hne x List.mem_cons_self
  have hpmem : p ∈ h :: xs := hup ▸ List.mem_append_right us (List.mem_singleton_self p)
  have hrest : (n :: vs).Nodup := by
    rw [← hnv, List.nodup_append]
    refine ⟨hright, List.nodup_singleton h, ?_⟩
    rintro y hy z hz rfl
    exact hdisj h List.mem_cons_self y hy (List.mem_singleton.mp hz).symm
  refine ⟨us, p, n, vs, ?_, ?_, hp, hn, ⟨?_, ?_, ?_, ?_, ?_, ?_⟩⟩
  · rw [← List.cons_append, hup, List.append_assoc, List.append_assoc, hnv]
    rfl
  · rw [← List.cons_append, hup, List.append_assoc, List.append_assoc,
      show a :: ys ++ [h] = a :: (ys ++ [h]) from rfl, hnv]
    rfl
  · exact (hua p (List.mem_append_right us (List.mem_singleton_self p))).symm
  · exact (hva n List.mem_cons_self).symm
  · intro x hx
    rw [hup] at hleft
    exact ⟨(List.nodup_append.mp hleft).2.2 x hx p (List.mem_singleton_self p), hua x (List.mem_append_left [p] hx)⟩
  · intro x hx
    refine ⟨?_, hua x (List.mem_of_mem_tail hx)⟩
    rintro rfl
    rw [← hup, List.tail_cons] at hx
    have hmem : x ∈ ys ++ [h] := hnv ▸ List.mem_cons_self
    rcases List.mem_append.mp hmem with hy | hy
    · exact hdisj x (List.mem_cons_of_mem h hx) x hy rfl
    · exact (List.nodup_cons.mp hleft).1 (List.mem_singleton.mp hy ▸ hx)
  · intro x hx
    refine ⟨?_, hva x (List.dropLast_subset _ hx)⟩
    rintro rfl
    rw [← hnv, List.dropLast_concat] at hx
    exact hdisj x hpmem x hx rfl
  · intro x hx
    refine ⟨?_, hva x (List.mem_cons_of_mem n hx)⟩
    rintro rfl
    exact (List.nodup_cons.mp hrest).1 hx

/-! ## The operations -/

variable [DecidableEq α]

theorem Ring.initHead (l : Links α) (h : α) : Ring (l.initHead h) h [] := by
  refine ⟨?_, List.nodup_singleton h⟩
  rw [List.singleton_append, List.isChain_cons_cons]
  exact ⟨⟨Function.update_self _ _ _, Function.update_self _ _ _⟩, .singleton h⟩

theorem Ring.initHead_other (hr : Ring l h xs) (hg : g ∉ h :: xs) : Ring (l.initHead g) h xs := by
  have hne : ∀ x ∈ h :: xs, x ≠ g := fun x hx heq => hg (heq ▸ hx)
  refine hr.congr ?_ ?_
  · exact fun x hx => Function.update_of_ne (hne x hx) _ _
  · exact fun x hx => Function.update_of_ne (hne x hx) _ _

/-- A path, and a node between two of its neighbours. -/
theorem path_add {p n : α} {vs : List α} (hp : (us ++ p :: n :: vs).IsChain (Linked l))
    (h : Apart us p a n vs) : (us ++ p :: a :: n :: vs).IsChain (Linked (l.add a p n)) := by
  rw [List.isChain_append_cons_cons] at hp
  obtain ⟨hleft, -, hright⟩ := hp
  unfold Links.add
  rw [List.isChain_append_cons_cons, List.isChain_cons_cons]
  refine ⟨path_congr hleft ?_ ?_, ⟨?_, ?_⟩, ⟨?_, ?_⟩, path_congr hright ?_ ?_⟩
  · intro x hx
    rw [List.dropLast_concat] at hx
    dsimp only
    rw [Function.update_of_ne (h.before x hx).1, Function.update_of_ne (h.before x hx).2]
  · intro x hx
    dsimp only
    rw [Function.update_of_ne (h.tail x hx).2, Function.update_of_ne (h.tail x hx).1]
  · exact Function.update_self _ _ _
  · exact Function.update_self _ _ _
  · dsimp only
    rw [Function.update_of_ne h.left, Function.update_self]
  · dsimp only
    rw [Function.update_of_ne h.right.symm, Function.update_self]
  · intro x hx
    dsimp only
    rw [Function.update_of_ne (h.init x hx).1, Function.update_of_ne (h.init x hx).2]
  · intro x hx
    dsimp only
    rw [Function.update_of_ne (h.behind x hx).2, Function.update_of_ne (h.behind x hx).1]

/-- **A node from outside goes between two neighbours.** -/
theorem Ring.add (hr : Ring l h (xs ++ ys)) (ha : a ∉ h :: (xs ++ ys)) :
    Ring (l.add a (xs.getLast?.getD h) (ys.head?.getD h)) h (xs ++ a :: ys) := by
  obtain ⟨us, p, n, vs, hwithout, hwith, hp, hn, hapart⟩ := ring_around hr.nodup ha
  have hpath := hr.path
  rw [hwithout] at hpath
  refine ⟨?_, ?_⟩
  · rw [hwith, ← hp, ← hn]
    exact path_add hpath hapart
  · rw [← List.cons_append, List.perm_middle.nodup_iff, List.nodup_cons]
    exact ⟨ha, hr.nodup⟩

/-- **A node from outside goes to the end.** -/
theorem Ring.addTail (hr : Ring l h xs) (ha : a ∉ h :: xs) : Ring (l.addTail a h) h (xs ++ [a]) := by
  have hring : Ring l h (xs ++ []) := by rwa [List.append_nil]
  have hout : a ∉ h :: (xs ++ []) := by rwa [List.append_nil]
  have hadd := hring.add hout
  unfold Links.addTail
  rw [hr.prev_head]
  exact hadd

theorem Ring.add_other (hg : Ring l g zs) (ha : a ∉ g :: zs) (hdisj : ∀ x ∈ h :: (xs ++ ys), x ∉ g :: zs) :
    Ring (l.add a (xs.getLast?.getD h) (ys.head?.getD h)) g zs := by
  obtain ⟨hp, hn⟩ := ends_mem h xs ys
  have hxa : ∀ x ∈ g :: zs, x ≠ a := fun x hx heq => ha (heq ▸ hx)
  have hne : ∀ x ∈ g :: zs, ∀ y ∈ h :: (xs ++ ys), x ≠ y := fun x hx y hy heq => hdisj y hy (heq ▸ hx)
  unfold Links.add
  refine hg.congr ?_ ?_
  · intro x hx
    dsimp only
    rw [Function.update_of_ne (hne x hx _ hp), Function.update_of_ne (hxa x hx)]
  · intro x hx
    dsimp only
    rw [Function.update_of_ne (hxa x hx), Function.update_of_ne (hne x hx _ hn)]

theorem Ring.addTail_other (hr : Ring l h xs) (hg : Ring l g ys) (ha : a ∉ g :: ys)
    (hdisj : ∀ x ∈ h :: xs, x ∉ g :: ys) : Ring (l.addTail a h) g ys := by
  have hapart : ∀ x ∈ h :: (xs ++ []), x ∉ g :: ys := by rwa [List.append_nil]
  have hadd := hg.add_other ha hapart
  unfold Links.addTail
  rw [hr.prev_head]
  exact hadd

/-- A path without a node. -/
theorem path_delInit {p n : α} {vs : List α} (hp : (us ++ p :: a :: n :: vs).IsChain (Linked l))
    (h : Apart us p a n vs) : (us ++ p :: n :: vs).IsChain (Linked (l.delInit a)) := by
  rw [List.isChain_append_cons_cons, List.isChain_cons_cons] at hp
  obtain ⟨hleft, hpa, han, hright⟩ := hp
  unfold Links.delInit Links.del Links.initHead
  rw [hpa.2, han.1, List.isChain_append_cons_cons]
  refine ⟨path_congr hleft ?_ ?_, ⟨?_, ?_⟩, path_congr hright ?_ ?_⟩
  · intro x hx
    rw [List.dropLast_concat] at hx
    dsimp only
    rw [Function.update_of_ne (h.before x hx).2, Function.update_of_ne (h.before x hx).1]
  · intro x hx
    dsimp only
    rw [Function.update_of_ne (h.tail x hx).2, Function.update_of_ne (h.tail x hx).1]
  · dsimp only
    rw [Function.update_of_ne h.left.symm, Function.update_self]
  · dsimp only
    rw [Function.update_of_ne h.right.symm, Function.update_self]
  · intro x hx
    dsimp only
    rw [Function.update_of_ne (h.init x hx).2, Function.update_of_ne (h.init x hx).1]
  · intro x hx
    dsimp only
    rw [Function.update_of_ne (h.behind x hx).2, Function.update_of_ne (h.behind x hx).1]

/-- **A node is taken out.** -/
theorem Ring.delInit (hr : Ring l h (xs ++ a :: ys)) : Ring (l.delInit a) h (xs ++ ys) := by
  have hall := hr.nodup
  rw [← List.cons_append, List.perm_middle.nodup_iff, List.nodup_cons] at hall
  obtain ⟨us, p, n, vs, hwithout, hwith, -, -, hapart⟩ := ring_around hall.2 hall.1
  have hpath := hr.path
  rw [hwith] at hpath
  refine ⟨?_, hall.2⟩
  rw [hwithout]
  exact path_delInit hpath hapart

theorem Ring.delInit_other (hr : Ring l h (xs ++ a :: ys)) (hg : Ring l g zs)
    (hdisj : ∀ x ∈ h :: (xs ++ a :: ys), x ∉ g :: zs) : Ring (l.delInit a) g zs := by
  have hsub : ∀ x ∈ h :: (xs ++ ys), x ∈ h :: (xs ++ a :: ys) := by
    intro x hx
    rw [← List.cons_append, List.perm_middle.mem_iff]
    exact List.mem_cons_of_mem a hx
  have hne : ∀ x ∈ g :: zs, ∀ y ∈ h :: (xs ++ a :: ys), x ≠ y := fun x hx y hy heq => hdisj y hy (heq ▸ hx)
  obtain ⟨hp, hn⟩ := ends_mem h xs ys
  have ha : a ∈ h :: (xs ++ a :: ys) := List.mem_cons_of_mem h (List.mem_append_right xs List.mem_cons_self)
  unfold Links.delInit Links.del Links.initHead
  rw [hr.prev_node, hr.next_node]
  refine hg.congr ?_ ?_
  · intro x hx
    dsimp only
    rw [Function.update_of_ne (hne x hx a ha), Function.update_of_ne (hne x hx _ (hsub _ hp))]
  · intro x hx
    dsimp only
    rw [Function.update_of_ne (hne x hx a ha), Function.update_of_ne (hne x hx _ (hsub _ hn))]

end HiSTB.Lib.ListHead
