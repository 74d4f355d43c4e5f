import BelProjects.Library.SiftDown
import BelProjects.DataMaster.Firmware.Footprint

/-!
# The scheduler heap in memory

`heapReplace` works on pointers in memory and reads the deadlines through them.  On
a heap of thread records no store of the sort changes a deadline, so the sort is
the sift of the heap library with the deadlines as fixed keys.
-/

namespace DataMaster

open SiftDown

variable (P : Platform)

/-- The heap array in memory, extended beyond its end to all positions. -/
def heapView (m : Mem) (i : Nat) : Word := m (P.ctl (i * 4))

theorem hp_eq {m : Mem} {i : Nat} (hi : i < thrQty) : hp P m i = heapView P m i := by
  rw [hp, Platform.ld, adr_hp P hi, heapView]

/-- Every heap entry is one of the thread records. -/
def HoldsThreads (m : Mem) : Prop := ∀ i, i < thrQty → ∃ t, t < thrQty ∧ hp P m i = thrPtr t

/-- Deadlines as sorting keys. -/
def dlKey (m : Mem) (x : Word) : Nat := (dl P m x).toNat

/-- The order of the heap by deadlines from position `k` on. -/
def MinHeapFrom (m : Mem) (k : Nat) : Prop := HeapFrom (dlKey P m) thrQty (heapView P m) k

/-- The two memories agree on the deadlines of all threads. -/
def SameDeadlines (m m' : Mem) : Prop := ∀ t, t < thrQty → dl P m' (thrPtr t) = dl P m (thrPtr t)

theorem dl_congr {m m' : Mem} {t : Nat} (ht : t < thrQty)
    (hhi : m' (P.ctl (548 + t * 32)) = m (P.ctl (548 + t * 32)))
    (hlo : m' (P.ctl (552 + t * 32)) = m (P.ctl (552 + t * 32))) :
    dl P m' (thrPtr t) = dl P m (thrPtr t) := by
  apply P.ld64_congr
  · rw [adr_deadline P ht, hhi]
  · rw [adr_deadlineLo P ht, hlo]

theorem MinHeapFrom.congr {m m' : Mem} {k : Nat} (h : MinHeapFrom P m k)
    (hsame : ∀ i, k ≤ i → i < thrQty → hp P m' i = hp P m i ∧ dl P m' (hp P m i) = dl P m (hp P m i)) :
    MinHeapFrom P m' k := by
  have hkey : ∀ i, k ≤ i → i < thrQty →
      dlKey P m' (heapView P m' i) = dlKey P m (heapView P m i) := by
    intro i hki hi
    obtain ⟨hentry, hdl⟩ := hsame i hki hi
    rw [← hp_eq P hi, ← hp_eq P hi, hentry, dlKey, hdl, dlKey]
  intro p hp
  obtain ⟨hl, hr⟩ := h p hp
  constructor <;> intro hn <;> rw [hkey p hp (by omega), hkey _ (by omega) hn]
  · exact hl hn
  · exact hr hn

theorem heapView_st {m : Mem} {p : Nat} {v : Word} (hp : p < thrQty) :
    heapView P (P.st m (hpPtr p) v) = Function.update (heapView P m) p v := by
  funext i
  rw [heapView, P.st_apply, adr_hp P hp, Function.update_apply]
  by_cases h : i = p
  · rw [if_pos h, if_pos (by rw [h])]
  · rw [if_neg h, if_neg (P.ctl_ne (by omega) (by omega) (by omega)), heapView]

theorem dl_st_hp {m : Mem} {p t : Nat} {v : Word} (hp : p < thrQty) (ht : t < thrQty) :
    dl P (P.st m (hpPtr p) v) (thrPtr t) = dl P m (thrPtr t) := by
  have hq : thrQty = 8 := rfl
  apply dl_congr P ht <;> apply P.st_other <;> rw [adr_hp P hp] <;>
    exact P.ctl_ne (by omega) (by omega) (by omega)

/-! ### One round -/

/-- The child chosen in memory is the child the library chooses, for any keys that
agree with the deadlines on the thread records. -/
theorem heapChoice_eq {m : Mem} {key : Word → Nat} {moving : Word} {p : Nat}
    (hthr : HoldsThreads P m) (hmov : ∃ t, t < thrQty ∧ moving = thrPtr t)
    (hkey : ∀ t, t < thrQty → dlKey P m (thrPtr t) = key (thrPtr t)) :
    heapChoice P m moving p = choice key thrQty (heapView P m) moving p := by
  have hentry : ∀ i, i < thrQty → dlKey P m (hp P m i) = key (heapView P m i) := by
    intro i hi
    obtain ⟨t, ht, heq⟩ := hthr i hi
    rw [← hp_eq P hi, heq, hkey t ht]
  have hmoving : dlKey P m moving = key moving := by
    obtain ⟨t, ht, rfl⟩ := hmov
    exact hkey t ht
  have hlt : ∀ {x y : Word}, dl P m x < dl P m y ↔ dlKey P m x < dlKey P m y := Iff.rfl
  have hleft : (2 * p + 1 < thrQty ∧ dlKey P m (hp P m (2 * p + 1)) < dlKey P m moving) ↔
      2 * p + 1 < thrQty ∧ key (heapView P m (2 * p + 1)) < key moving :=
    and_congr_right fun hn => by rw [hentry _ hn, hmoving]
  have hright : (2 * p + 2 < thrQty ∧ dlKey P m (hp P m (2 * p + 2)) < dlKey P m moving ∧
      dlKey P m (hp P m (2 * p + 2)) < dlKey P m (hp P m (2 * p + 1))) ↔
      2 * p + 2 < thrQty ∧ key (heapView P m (2 * p + 2)) < key moving ∧
        key (heapView P m (2 * p + 2)) < key (heapView P m (2 * p + 1)) :=
    and_congr_right fun hn => by rw [hentry _ hn, hentry _ (by omega), hmoving]
  simp only [heapChoice, choice, hlt, hleft, hright]

/-- **The sorting loop is the library's sift**: it rearranges the heap array as
`siftHole` does and writes no other word. -/
theorem heapReplaceLoop_spec (key : Word → Nat) {moving : Word}
    (hmov : ∃ t, t < thrQty ∧ moving = thrPtr t) :
    ∀ (rounds : Nat) (m : Mem) (p : Nat), p < thrQty → HoldsThreads P m →
      (∀ t, t < thrQty → dlKey P m (thrPtr t) = key (thrPtr t)) →
      heapView P (heapReplaceLoop P moving rounds m p) =
          siftHole key thrQty moving rounds (heapView P m) p ∧
        ∀ a, (∀ i, i < thrQty → a ≠ P.ctl (i * 4)) →
          heapReplaceLoop P moving rounds m p a = m a := by
  have hstore : ∀ (m : Mem) (p : Nat) (v : Word) (a : Nat), p < thrQty →
      (∀ i, i < thrQty → a ≠ P.ctl (i * 4)) → P.st m (hpPtr p) v a = m a := by
    intro m p v a hpos ha
    apply P.st_other
    rw [adr_hp P hpos]
    exact ha p hpos
  intro rounds
  induction rounds with
  | zero =>
      intro m p hpos _ _
      exact ⟨heapView_st P hpos, fun a ha => hstore m p moving a hpos ha⟩
  | succ rounds ih =>
      intro m p hpos hthr hkey
      have hchoice := heapChoice_eq P (p := p) hthr hmov hkey
      rw [heapReplaceLoop, siftHole_succ, ← hchoice]
      by_cases hc : heapChoice P m moving p = p
      · simp only [hc, if_true]
        constructor
        · rw [heapView_st P hpos, heapView_st P hpos, Function.update_idem]
        · intro a ha
          rw [hstore _ _ _ _ hpos ha, hstore _ _ _ _ hpos ha]
      · simp only [if_neg hc]
        have hlt : heapChoice P m moving p < thrQty := by
          rw [hchoice] at hc ⊢
          exact (choice_child key thrQty hc).2.1
        generalize heapChoice P m moving p = c at hc hlt ⊢
        have hthr' : HoldsThreads P (P.st m (hpPtr p) (hp P m c)) := by
          intro i hi
          rw [hp_eq P hi, heapView_st P hpos, Function.update_apply]
          split
          · exact hthr c hlt
          · rw [← hp_eq P hi]; exact hthr i hi
        obtain ⟨hview, hframe⟩ := ih (P.st m (hpPtr p) (hp P m c)) c hlt hthr'
          (fun t ht => by rw [dlKey, dl_st_hp P hpos ht]; exact hkey t ht)
        constructor
        · rw [hview, heapView_st P hpos, hp_eq P hlt]
        · intro a ha
          rw [hframe a ha, hstore _ _ _ _ hpos ha]

/-! ### heapReplace and heapify -/

/-- What a sort of the heap array keeps. -/
structure Resorted (m m' : Mem) : Prop where
  perm : (List.ofFn fun i : Fin thrQty => hp P m' i).Perm (List.ofFn fun i : Fin thrQty => hp P m i)
  other : ∀ a, (∀ i, i < thrQty → a ≠ P.ctl (i * 4)) → m' a = m a

theorem Resorted.holdsThreads {m m' : Mem} (h : Resorted P m m') (hthr : HoldsThreads P m) :
    HoldsThreads P m' := by
  intro i hi
  have hmem : hp P m' i ∈ List.ofFn fun i : Fin thrQty => hp P m i :=
    h.perm.subset ((List.mem_ofFn' _ _).mpr ⟨⟨i, hi⟩, rfl⟩)
  obtain ⟨j, hj⟩ := (List.mem_ofFn' _ _).mp hmem
  obtain ⟨t, ht, heq⟩ := hthr j j.is_lt
  exact ⟨t, ht, hj ▸ heq⟩

section Replace

variable {P} {m : Mem} {src : Nat} (hsrc : src < thrQty) (hthr : HoldsThreads P m)
include hsrc hthr

theorem heapReplace_view :
    heapView P (heapReplace P m src) = sift (dlKey P m) thrQty (heapView P m) src := by
  obtain ⟨hview, -⟩ := heapReplaceLoop_spec P (dlKey P m) (hthr src hsrc) thrQty m src hsrc hthr
    (fun _ _ => rfl)
  rw [heapReplace, hview, sift, hp_eq P hsrc]

theorem heapReplace_other {a : Nat} (ha : ∀ i, i < thrQty → a ≠ P.ctl (i * 4)) :
    heapReplace P m src a = m a :=
  (heapReplaceLoop_spec P (dlKey P m) (hthr src hsrc) thrQty m src hsrc hthr
    (fun _ _ => rfl)).2 a ha

theorem heapReplace_sameDeadlines : SameDeadlines P m (heapReplace P m src) := by
  have hq : thrQty = 8 := rfl
  intro t ht
  apply dl_congr P ht <;> apply heapReplace_other hsrc hthr <;> intro i hi <;>
    exact P.ctl_ne (by omega) (by omega) (by omega)

theorem heapReplace_resorted : Resorted P m (heapReplace P m src) := by
  refine ⟨?_, fun a ha => heapReplace_other hsrc hthr ha⟩
  have hperm := (sift_rearranged (dlKey P m) thrQty (heapView P m) hsrc).perm
  rw [← heapReplace_view hsrc hthr] at hperm
  simpa only [hp_eq P (Fin.is_lt _)] using hperm

theorem heapReplace_minHeap (hh : MinHeapFrom P m (src + 1)) :
    MinHeapFrom P (heapReplace P m src) src := by
  have hview := sift_heapFrom (dlKey P m) thrQty hsrc hh
  rw [← heapReplace_view hsrc hthr] at hview
  have hkey : ∀ i, i < thrQty →
      dlKey P (heapReplace P m src) (heapView P (heapReplace P m src) i) =
        dlKey P m (heapView P (heapReplace P m src) i) := by
    intro i hi
    obtain ⟨t, ht, heq⟩ := (heapReplace_resorted hsrc hthr).holdsThreads P hthr i hi
    rw [← hp_eq P hi, heq]
    exact congrArg BitVec.toNat (heapReplace_sameDeadlines hsrc hthr t ht)
  intro q hq
  obtain ⟨hl, hr⟩ := hview q hq
  constructor <;> intro hn <;> rw [hkey _ (by omega), hkey _ hn]
  · exact hl hn
  · exact hr hn

/-- An entry in its place is not moved. -/
theorem heapReplace_fixed (hh : MinHeapFrom P m src) : heapReplace P m src = m := by
  have hview := heapReplace_view hsrc hthr
  rw [sift_fixed (dlKey P m) thrQty (by decide) (hh src le_rfl)] at hview
  funext a
  by_cases ha : ∃ i, i < thrQty ∧ a = P.ctl (i * 4)
  · obtain ⟨i, -, rfl⟩ := ha
    exact congrFun hview i
  · exact heapReplace_other hsrc hthr fun i hi heq => ha ⟨i, hi, heq⟩

end Replace

theorem heapifyBelow_spec : ∀ (k : Nat) (m : Mem), k ≤ thrQty → HoldsThreads P m →
    MinHeapFrom P m k →
    Resorted P m (heapifyBelow P m k) ∧ MinHeapFrom P (heapifyBelow P m k) 0 := by
  intro k
  induction k with
  | zero => intro m _ _ hh; exact ⟨⟨List.Perm.refl _, fun _ _ => rfl⟩, hh⟩
  | succ k ih =>
      intro m hk hthr hh
      have hsrc : k < thrQty := by omega
      obtain ⟨hres, hmin⟩ := ih (heapReplace P m k) (by omega)
        ((heapReplace_resorted hsrc hthr).holdsThreads P hthr) (heapReplace_minHeap hsrc hthr hh)
      refine ⟨⟨hres.perm.trans (heapReplace_resorted hsrc hthr).perm, fun a ha => ?_⟩, hmin⟩
      rw [heapifyBelow, hres.other a ha, heapReplace_other hsrc hthr ha]

/-- **heapify**: from any order of the thread records it produces a heap of the same
records, and it writes only the heap array. -/
theorem heapify_spec {m : Mem} (hthr : HoldsThreads P m) :
    Resorted P m (heapify P m) ∧ MinHeapFrom P (heapify P m) 0 :=
  heapifyBelow_spec P (thrQty / 2) m (by decide) hthr (heapFrom_half (dlKey P m) thrQty _)

theorem heapify_fixed {m : Mem} (hthr : HoldsThreads P m) (hh : MinHeapFrom P m 0) :
    heapify P m = m := by
  have hbelow : ∀ k, k ≤ thrQty → heapifyBelow P m k = m := by
    intro k
    induction k with
    | zero => intro _; rfl
    | succ k ih =>
        intro hk
        rw [heapifyBelow, heapReplace_fixed (by omega) hthr fun p _ => hh p (Nat.zero_le p)]
        exact ih (by omega)
  exact hbelow _ (by decide)

end DataMaster
