import BelProjects.WrUnipz.Exchange

/-!
# The words of a table

Each table has its own words in the shared memory, at the same offsets for host and firmware.
-/

namespace WrUnipz

/-! ## Layout -/

namespace Key

/-- The place of a table in the shared memory. -/
def number (k : Key) : Nat := (k.vacc * nPz + k.pz) * nChn + k.chn

theorem number_lt (k : Key) : k.number < nVacc * nPz * nChn := by
  obtain ⟨pz, vacc, chn⟩ := k
  simp only [number, nVacc, nPz, nChn]
  omega

theorem number_inj {k k' : Key} (h : k.number = k'.number) : k = k' := by
  obtain ⟨pz, vacc, chn⟩ := k
  obtain ⟨pz', vacc', chn'⟩ := k'
  simp only [number, nPz, nChn] at h
  rw [mk.injEq, Fin.ext_iff, Fin.ext_iff, Fin.ext_iff]
  omega

theorem flagOffset_eq (k : Key) : k.flagOffset = nFlag * k.number := by
  simp only [flagOffset, number, nFlag, nChn, nPz]
  omega

theorem dataOffset_eq (k : Key) : k.dataOffset = nEvt * k.number := by
  simp only [dataOffset, number, nEvt, nChn, nPz]
  omega

/-- Host and firmware agree on the layout. -/
@[simp] theorem uploadFlagOffset_eq (k : Key) : uploadFlagOffset k.pz k.vacc k.chn = k.flagOffset := rfl

@[simp] theorem uploadDataOffset_eq (k : Key) : uploadDataOffset k.pz k.vacc k.chn = k.dataOffset := rfl

theorem flag_inj {k k' : Key} {a b : Nat} (ha : a < nFlag) (hb : b < nFlag)
    (h : k.flagOffset + a = k'.flagOffset + b) : k = k' ∧ a = b := by
  rw [flagOffset_eq, flagOffset_eq] at h
  simp only [nFlag] at ha hb h
  exact ⟨number_inj (by omega), by omega⟩

theorem data_inj {k k' : Key} {a b : Nat} (ha : a < nEvt) (hb : b < nEvt)
    (h : k.dataOffset + a = k'.dataOffset + b) : k = k' ∧ a = b := by
  rw [dataOffset_eq, dataOffset_eq] at h
  simp only [nEvt] at ha hb h
  exact ⟨number_inj (by omega), by omega⟩

theorem flag_lt (k : Key) : k.flagOffset + 0 < nEvtFlag := by
  have hlt := k.number_lt
  rw [flagOffset_eq, nEvtFlag]
  simp only [nFlag, nVacc, nPz, nChn] at hlt ⊢
  omega

theorem idx_inj {k k' : Key} (hpz : k'.pz = k.pz) (h : k'.idx = k.idx) : k' = k := by
  obtain ⟨pz, vacc, chn⟩ := k
  obtain ⟨pz', vacc', chn'⟩ := k'
  simp only [idx, nVacc] at h hpz
  rw [mk.injEq, Fin.ext_iff, Fin.ext_iff, Fin.ext_iff]
  omega

theorem idx_lt (k : Key) : k.idx < nVacc * nChn := by
  obtain ⟨pz, vacc, chn⟩ := k
  simp only [idx, nVacc, nChn]
  omega

end Key

theorem BigData.get_set (b : BigData) (k k' : Key) (t : DataTable) :
    (b.set k t).get k' = if k' = k then t else b.get k' := by
  rw [get, set]
  by_cases h : k' = k
  · rw [if_pos h, h, if_pos ⟨rfl, rfl⟩]
  · rw [if_neg h, if_neg (fun heq => h (Key.idx_inj heq.1 heq.2))]
    rfl

theorem clearBigData_get (b : BigData) (k : Key) : BigData.get (clearBigData b) k = DataTable.cleared :=
  if_pos k.idx_lt

namespace Shared

variable {m : Shared} {k k' : Key} {a : Nat} {w : Word}

def new (m : Shared) (k : Key) : Word := m.evtFlag (k.flagOffset + 0)

theorem setFlag_new (ha : a < nFlag) :
    (m.setFlag (k.flagOffset + a) w).new k' = if k' = k ∧ a = 0 then w else m.new k' := by
  by_cases h : k' = k ∧ a = 0
  · rw [if_pos h, h.1, h.2]
    exact if_pos rfl
  · rw [if_neg h]
    refine if_neg (fun heq => h ?_)
    obtain ⟨hk, ha⟩ := Key.flag_inj (by decide) ha heq
    exact ⟨hk, ha.symm⟩

theorem setData_new (n : Nat) : (m.setData n w).new k = m.new k := rfl

theorem setFlag_table (h : a = 0 ∨ k' ≠ k) (ha : a < nFlag) :
    (m.setFlag (k.flagOffset + a) w).table k' = m.table k' := by
  have hne (b : Nat) (hb : b < nFlag) (hpos : 0 < b) : k'.flagOffset + b ≠ k.flagOffset + a := by
    intro heq
    obtain ⟨hk, rfl⟩ := Key.flag_inj hb ha heq
    rcases h with h | h
    · omega
    · exact h hk
  rw [table, table, setFlag]
  simp only [if_neg (hne 1 (by decide) (by decide)), if_neg (hne 2 (by decide) (by decide)),
    if_neg (hne 3 (by decide) (by decide))]

theorem setData_table (hk : k' ≠ k) (ha : a < nEvt) : (m.setData (k.dataOffset + a) w).table k' = m.table k' := by
  have hne (l : Fin nEvt) : k'.dataOffset + l.val ≠ k.dataOffset + a := by
    intro heq
    exact hk (Key.data_inj l.isLt ha heq).1
  rw [table, table, setData]
  simp only [if_neg (hne _)]

end Shared

/-! ## The words of an upload and of a copy -/

namespace Version

variable {v : Version} {m : Shared} {k k' : Key} {pos : Nat} {t : DataTable}

structure Written (v : Version) (pos : Nat) (t : DataTable) : Prop where
  data : ∀ (i : Fin nEvt) (h : i.val < v.data.length), i < pos → t.data i = v.data[i.val]
  validFlags : v.data.length < pos → t.validFlags = v.validFlag
  prepFlags : v.data.length + 1 < pos → t.prepFlags = v.prepFlag
  evtFlags : v.data.length + 2 < pos → t.evtFlags = v.evtFlag

theorem written_zero : v.Written 0 t :=
  ⟨fun _ _ h => absurd h (Nat.not_lt_zero _), fun h => absurd h (Nat.not_lt_zero _),
    fun h => absurd h (Nat.not_lt_zero _), fun h => absurd h (Nat.not_lt_zero _)⟩

theorem Written.shows (h : v.Written (v.data.length + 3) t) : v.Shows t :=
  ⟨h.validFlags (by omega), h.prepFlags (by omega), h.evtFlags (by omega), fun i hi => h.data i hi (by omega)⟩

theorem upload_new : (m.upload k v pos).new k' = if k' = k ∧ v.data.length + 3 ≤ pos then 1 else m.new k' := by
  simp only [Shared.upload, Key.uploadFlagOffset_eq, Key.uploadDataOffset_eq]
  split
  · next h => rw [Shared.setData_new, if_neg (by omega)]
  · split
    · next h => rw [Shared.setFlag_new (by decide), if_neg (by simp), if_neg (by omega)]
    · split
      · next h => rw [Shared.setFlag_new (by decide), if_neg (by simp), if_neg (by omega)]
      · split
        · next h => rw [Shared.setFlag_new (by decide), if_neg (by simp), if_neg (by omega)]
        · next h₀ h₁ h₂ h₃ =>
            rw [Shared.setFlag_new (by decide)]
            have hpos : v.data.length + 3 ≤ pos := by omega
            simp [hpos]

theorem upload_table (h : k' ≠ k ∨ v.data.length + 3 ≤ pos) : (m.upload k v pos).table k' = m.table k' := by
  simp only [Shared.upload, Key.uploadFlagOffset_eq, Key.uploadDataOffset_eq]
  split
  · next hlt =>
      have hlength := v.nData
      exact Shared.setData_table (h.resolve_right (by omega)) (by omega)
  · split
    · exact Shared.setFlag_table (Or.inr (h.resolve_right (by omega))) (by decide)
    · split
      · exact Shared.setFlag_table (Or.inr (h.resolve_right (by omega))) (by decide)
      · split
        · exact Shared.setFlag_table (Or.inr (h.resolve_right (by omega))) (by decide)
        · exact Shared.setFlag_table (Or.inl rfl) (by decide)

theorem Written.upload (h : v.Written pos (m.table k)) (hpos : pos < v.data.length + 3) :
    v.Written (pos + 1) ((m.upload k v pos).table k) := by
  simp only [Shared.upload, Key.uploadFlagOffset_eq, Key.uploadDataOffset_eq]
  split
  · next hlt =>
      refine ⟨fun i hi hle => ?_, fun _ => by omega, fun _ => by omega, fun _ => by omega⟩
      by_cases heq : i.val = pos
      · subst heq
        exact if_pos rfl
      · refine (if_neg ?_).trans (h.data i hi (by omega))
        intro hoffset
        exact heq (by omega)
  · split
    · next heq =>
        refine ⟨fun i hi _ => h.data i hi (by omega), fun _ => ?_, fun _ => by omega, fun _ => by omega⟩
        exact if_pos rfl
    · split
      · next heq =>
          refine ⟨fun i hi _ => h.data i hi (by omega), fun _ => ?_, fun _ => ?_, fun _ => by omega⟩
          · exact (if_neg (by omega)).trans (h.validFlags (by omega))
          · exact if_pos rfl
      · rw [if_pos (show pos = v.data.length + 2 by omega)]
        refine ⟨fun i hi _ => h.data i hi (by omega), fun _ => ?_, fun _ => ?_, fun _ => ?_⟩
        · exact (if_neg (by omega)).trans (h.validFlags (by omega))
        · exact (if_neg (by omega)).trans (h.prepFlags (by omega))
        · exact if_pos rfl

end Version

namespace DataTable

variable {t src : DataTable} {pos : Nat}

structure CopiedTo (t src : DataTable) (pos : Nat) : Prop where
  validFlags : 0 < pos → t.validFlags = src.validFlags
  prepFlags : 1 < pos → t.prepFlags = src.prepFlags
  evtFlags : 2 < pos → t.evtFlags = src.evtFlags
  data : ∀ i : Fin nEvt, i + 3 < pos → t.data i = src.data i

theorem copiedTo_zero : t.CopiedTo src 0 :=
  ⟨fun h => absurd h (Nat.not_lt_zero _), fun h => absurd h (Nat.not_lt_zero _),
    fun h => absurd h (Nat.not_lt_zero _), fun _ h => absurd h (Nat.not_lt_zero _)⟩

theorem CopiedTo.copyWord (h : t.CopiedTo src pos) : (t.copyWord src pos).CopiedTo src (pos + 1) := by
  match pos with
  | 0 => exact ⟨fun _ => rfl, fun h => by omega, fun h => by omega, fun _ h => by omega⟩
  | 1 => exact ⟨fun _ => h.validFlags (by decide), fun _ => rfl, fun h => by omega, fun _ h => by omega⟩
  | 2 =>
      exact ⟨fun _ => h.validFlags (by decide), fun _ => h.prepFlags (by decide), fun _ => rfl, fun _ h => by omega⟩
  | l + 3 =>
      refine ⟨fun _ => h.validFlags (by omega), fun _ => h.prepFlags (by omega), fun _ => h.evtFlags (by omega), ?_⟩
      intro i hi
      by_cases heq : i.val = l
      · exact if_pos heq
      · exact (if_neg heq).trans (h.data i (by omega))

theorem CopiedTo.eq (h : t.CopiedTo src (nEvt + 3)) : t = src := by
  obtain ⟨validFlags, prepFlags, evtFlags, data⟩ := t
  obtain ⟨validFlags', prepFlags', evtFlags', data'⟩ := src
  obtain rfl : validFlags = validFlags' := h.validFlags (by decide)
  obtain rfl : prepFlags = prepFlags' := h.prepFlags (by decide)
  obtain rfl : evtFlags = evtFlags' := h.evtFlags (by decide)
  have hdata : data = data' := funext fun i => h.data i (Nat.add_lt_add_right i.isLt 3)
  rw [hdata]

end DataTable

end WrUnipz
