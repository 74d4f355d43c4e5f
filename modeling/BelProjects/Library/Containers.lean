import Mathlib.Data.List.Sort
import Mathlib.Data.List.Pairwise

/-!
# Ordered sets and containers with unique keys

`OrderedSet` is a set kept as its increasing list of elements, `UniqueSet` a
collection no two members of which collide.
-/

/-! ### Ordered sets -/

structure OrderedSet (α : Type*) [LinearOrder α] where
  elems : List α
  increasing : elems.Pairwise (· < ·)

namespace OrderedSet

variable {α : Type*} [LinearOrder α]

instance : Membership α (OrderedSet α) := ⟨fun s x => x ∈ s.elems⟩

instance (x : α) (s : OrderedSet α) : Decidable (x ∈ s) :=
  inferInstanceAs (Decidable (x ∈ s.elems))

def empty : OrderedSet α := ⟨[], .nil⟩

@[simp] theorem notMem_empty (x : α) : x ∉ (empty : OrderedSet α) := List.not_mem_nil

def size (s : OrderedSet α) : Nat := s.elems.length

def begin? (s : OrderedSet α) : Option α := s.elems.head?

theorem begin?_mem {s : OrderedSet α} {x : α} (h : s.begin? = some x) : x ∈ s :=
  List.mem_of_mem_head? h

theorem begin?_eq_none {s : OrderedSet α} : s.begin? = none ↔ ∀ x, x ∉ s := by
  unfold begin?
  rw [List.head?_eq_none_iff, List.eq_nil_iff_forall_not_mem]
  rfl

theorem insert_increasing (s : OrderedSet α) (x : α) (hx : x ∉ s.elems) :
    (s.elems.orderedInsert (· ≤ ·) x).Pairwise (· < ·) := by
  have hle : (s.elems.orderedInsert (· ≤ ·) x).Pairwise (· ≤ ·) :=
    List.Pairwise.orderedInsert x s.elems (s.increasing.imp le_of_lt)
  have hnodup : (s.elems.orderedInsert (· ≤ ·) x).Nodup := by
    rw [(List.perm_orderedInsert (· ≤ ·) x s.elems).nodup_iff]
    exact List.nodup_cons.2 ⟨hx, s.increasing.imp ne_of_lt⟩
  exact (List.pairwise_and_iff.2 ⟨hle, hnodup⟩).imp fun h => lt_of_le_of_ne h.1 h.2

def insert (s : OrderedSet α) (x : α) : OrderedSet α :=
  if hx : x ∈ s.elems then s
  else ⟨s.elems.orderedInsert (· ≤ ·) x, s.insert_increasing x hx⟩

@[simp] theorem mem_insert {s : OrderedSet α} {x y : α} : y ∈ s.insert x ↔ y = x ∨ y ∈ s := by
  unfold insert
  split
  next hx =>
    constructor
    · exact Or.inr
    · rintro (rfl | h)
      · exact hx
      · exact h
  next hx => exact List.mem_orderedInsert (· ≤ ·)

def erase (s : OrderedSet α) (x : α) : OrderedSet α :=
  ⟨s.elems.erase x, s.increasing.sublist List.erase_sublist⟩

@[simp] theorem mem_erase {s : OrderedSet α} {x y : α} : y ∈ s.erase x ↔ y ≠ x ∧ y ∈ s :=
  List.Nodup.mem_erase_iff (s.increasing.imp ne_of_lt)

theorem size_erase {s : OrderedSet α} {x : α} (h : x ∈ s) : (s.erase x).size + 1 = s.size := by
  have hpos := List.length_pos_of_mem h
  change (s.elems.erase x).length + 1 = s.elems.length
  rw [List.length_erase_of_mem h]
  omega

theorem erase_of_notMem {s : OrderedSet α} {x : α} (h : x ∉ s) : s.erase x = s := by
  obtain ⟨elems, increasing⟩ := s
  have hsame : elems.erase x = elems := List.erase_of_not_mem h
  simp only [erase, hsame]

end OrderedSet

/-! ### Containers with unique keys -/

/-- `Collide x y` says that some key of `x` equals that key of `y`. -/
structure UniqueSet (α : Type*) (Collide : α → α → Prop) where
  entries : List α
  apart : entries.Pairwise fun x y => ¬ Collide x y

namespace UniqueSet

variable {α : Type*} {Collide : α → α → Prop}

instance : Membership α (UniqueSet α Collide) := ⟨fun s x => x ∈ s.entries⟩

theorem mem_entries {s : UniqueSet α Collide} {x : α} : x ∈ s.entries ↔ x ∈ s := Iff.rfl

def empty : UniqueSet α Collide := ⟨[], .nil⟩

@[simp] theorem notMem_empty (x : α) : x ∉ (empty : UniqueSet α Collide) := List.not_mem_nil

def Accepts (s : UniqueSet α Collide) (x : α) : Prop := ∀ y ∈ s.entries, ¬ Collide x y

instance [DecidableRel Collide] (s : UniqueSet α Collide) (x : α) : Decidable (s.Accepts x) :=
  inferInstanceAs (Decidable (∀ y ∈ s.entries, ¬ Collide x y))

/-- Inserts `x` unless a key of it is taken, and tells whether it did. -/
def insert [DecidableRel Collide] (s : UniqueSet α Collide) (x : α) :
    UniqueSet α Collide × Bool :=
  if hx : s.Accepts x then (⟨x :: s.entries, List.pairwise_cons.2 ⟨hx, s.apart⟩⟩, true)
  else (s, false)

def eraseIf (s : UniqueSet α Collide) (p : α → Bool) : UniqueSet α Collide :=
  ⟨s.entries.filter fun x => ! p x, s.apart.sublist List.filter_sublist⟩

@[simp] theorem mem_eraseIf {s : UniqueSet α Collide} {p : α → Bool} {x : α} :
    x ∈ s.eraseIf p ↔ x ∈ s ∧ p x = false := by
  unfold eraseIf
  rw [← mem_entries, List.mem_filter, Bool.not_eq_true', mem_entries]

/-- Changes every member by `f`, which makes no keys equal that were not. -/
def modify (s : UniqueSet α Collide) (f : α → α)
    (hf : ∀ x y, Collide (f x) (f y) → Collide x y) : UniqueSet α Collide :=
  ⟨s.entries.map f, List.pairwise_map.2 (s.apart.imp fun h hc => h (hf _ _ hc))⟩

theorem find?_modify {s : UniqueSet α Collide} {f : α → α}
    {hf : ∀ x y, Collide (f x) (f y) → Collide x y} {p : α → Bool} (hp : ∀ x, p (f x) = p x) :
    (s.modify f hf).entries.find? p = (s.entries.find? p).map f := by
  have hcomp : p ∘ f = p := funext hp
  rw [modify, List.find?_map, hcomp]

section Insert

variable [DecidableRel Collide] {s : UniqueSet α Collide} {x y : α}

theorem insert_of_accepts (h : s.Accepts x) :
    (s.insert x).2 = true ∧ (s.insert x).1.entries = x :: s.entries := by
  simp only [insert, dif_pos h, and_self]

theorem insert_of_not_accepts (h : ¬ s.Accepts x) : s.insert x = (s, false) :=
  dif_neg h

theorem mem_insert_of_accepts (h : s.Accepts x) : y ∈ (s.insert x).1 ↔ y = x ∨ y ∈ s := by
  rw [← mem_entries, (insert_of_accepts h).2, List.mem_cons, mem_entries]

end Insert

theorem eq_of_collide [Std.Symm Collide] {s : UniqueSet α Collide} {x y : α} (hx : x ∈ s)
    (hy : y ∈ s) (h : Collide x y) : x = y := by
  have hsymm : Std.Symm fun x y => ¬ Collide x y :=
    ⟨fun u v huv hvu => huv (Std.Symm.symm v u hvu)⟩
  by_contra hne
  exact s.apart.forall hx hy hne h

/-- At most one member has a given value of a key that members may not share. -/
theorem countP_key_le_one {κ : Type*} [DecidableEq κ] (s : UniqueSet α Collide) (key : α → κ)
    (hkey : ∀ x y, key x = key y → Collide x y) (k : κ) :
    s.entries.countP (fun x => key x = k) ≤ 1 := by
  obtain ⟨entries, apart⟩ := s
  induction entries with
  | nil => exact Nat.zero_le 1
  | cons e es ih =>
    rw [List.pairwise_cons] at apart
    obtain ⟨hhead, htail⟩ := apart
    rw [List.countP_cons]
    by_cases he : key e = k
    · have hnone : es.countP (fun x => key x = k) = 0 := by
        rw [List.countP_eq_zero]
        intro x hx hxk
        exact hhead x hx (hkey e x (he.trans (of_decide_eq_true hxk).symm))
      rw [hnone]
      split <;> decide
    · rw [decide_eq_false he]
      exact ih htail

end UniqueSet
