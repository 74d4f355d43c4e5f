import BelProjects.WrUnipz.Words

/-!
# Orderly exchanges

Tables are exchanged as a whole as long as no table is copied while the host writes it, nothing
is uploaded before a clear has been carried out, and no command overwrites another.
-/

namespace WrUnipz

/-- Which table the firmware copies, and from which word on. -/
def Fw.copying : Fw → Option (Key × Nat)
  | .copy k pos _ => some (k, pos)
  | _ => none

def Fw.clearing : Fw → Option Nat
  | .clear pos => some pos
  | _ => none

def Host.Uploading (h : Host) (k : Key) : Prop := ∃ v pos, h = .uploading k v pos

instance (k : Key) : (h : Host) → Decidable (h.Uploading k)
  | .idle => isFalse (by rintro ⟨v, pos, heq⟩; cases heq)
  | .uploading k' v pos => decidable_of_iff (k' = k) (by
      constructor
      · rintro rfl
        exact ⟨v, pos, rfl⟩
      · rintro ⟨v', pos', heq⟩
        cases heq
        rfl)

namespace Exchange

def Copying (s : Exchange) (k : Key) : Prop := ∃ pos, s.fw.copying = some (k, pos)

def ClearOutstanding (s : Exchange) : Prop :=
  s.cmd = some .confClear ∨ s.fw = .handle .confClear ∨ s.flagClearAllPZ = true

/-- The host uploads nothing while a clear command is outstanding or the table is being
copied, it gives a command when there is none, and no copy begins during an upload of its table. -/
def Orderly (s : Exchange) : Action → Prop
  | .upload k _ => ¬ s.ClearOutstanding ∧ ¬ s.Copying k
  | .command _ => s.cmd = none
  | .work => ∀ k todo, s.fw = .submit (k :: todo) → s.shared.new k ≠ 0 → ¬ s.host.Uploading k
  | _ => True

instance (s : Exchange) (k : Key) : Decidable (s.Copying k) :=
  decidable_of_iff (s.fw.copying.map Prod.fst = some k) (by
    rw [Option.map_eq_some_iff]
    constructor
    · rintro ⟨⟨k', pos⟩, h, rfl⟩
      exact ⟨pos, h⟩
    · rintro ⟨pos, h⟩
      exact ⟨(k, pos), h, rfl⟩)

instance (s : Exchange) : Decidable s.ClearOutstanding :=
  inferInstanceAs (Decidable (_ ∨ _ ∨ _))

instance (s : Exchange) : (x : Action) → Decidable (s.Orderly x)
  | .upload k _ => inferInstanceAs (Decidable (¬ s.ClearOutstanding ∧ ¬ s.Copying k))
  | .command _ => inferInstanceAs (Decidable (s.cmd = none))
  | .work => match h : s.fw with
      | .submit (k :: todo) => decidable_of_iff (s.shared.new k ≠ 0 → ¬ s.host.Uploading k) (by
          constructor
          · intro hk k' todo' heq
            rw [h] at heq
            cases heq
            exact hk
          · exact fun hk => hk k todo h)
      | .submit [] => isTrue fun k todo heq => by rw [h] at heq; cases heq
      | .main => isTrue fun k todo heq => by rw [h] at heq; cases heq
      | .read _ => isTrue fun k todo heq => by rw [h] at heq; cases heq
      | .handle _ => isTrue fun k todo heq => by rw [h] at heq; cases heq
      | .copy _ _ _ => isTrue fun k todo heq => by rw [h] at heq; cases heq
      | .clear _ => isTrue fun k todo heq => by rw [h] at heq; cases heq
  | .write => isTrue trivial
  | .poll => isTrue trivial
  | .sync => isTrue trivial
  | .synchData => isTrue trivial

/-- The commands that the firmware has yet to act upon. -/
def waiting (s : Exchange) : List Command :=
  (match s.fw with
    | .handle cmd => [cmd]
    | _ => []) ++ s.cmd.toList

end Exchange

/-- What the host takes for the active version of a table is there. -/
def Matches : Option Version → DataTable → Prop
  | none, t => t = .cleared
  | some v, t => v.Shows t

/-! ## The tables -/

/-- The invariant of the tables, with what the firmware copies and clears and whether a clear is
outstanding. -/
structure TablesInv (m : Shared) (b : BigData) (h : Host) (copying : Option (Key × Nat)) (clearing : Option Nat)
    (out : Prop) (a : Ledger) : Prop where
  marked : clearing = none → ∀ k, m.new k ≠ 0 → ¬ h.Uploading k →
    ∃ v, (k, v) ∈ a.uploaded ∧ v.Shows (m.table k) ∧ (¬ out → a.pending k = some v)
  unmarked : ¬ out → ∀ k, m.new k = 0 → a.pending k = none
  upload : ∀ k v pos, h = .uploading k v pos →
    pos ≤ v.data.length + 3 ∧ ¬ out ∧ (∀ p, copying ≠ some (k, p)) ∧ v.Written pos (m.table k)
  copied : ∀ k pos, copying = some (k, pos) → m.new k ≠ 0 ∧ pos ≤ nEvt + 3 ∧ (b.get k).CopiedTo (m.table k) pos
  cleared : ∀ pos, clearing = some pos →
    out ∧ copying = none ∧ (∀ k, b.get k = .cleared) ∧ ∀ n, nEvtData + n < pos → m.evtFlag n = 0
  outstanding : out → ∀ k, a.pending k = none ∧ a.active k = none
  active : ¬ out → ∀ k, (∀ p, copying ≠ some (k, p)) → Matches (a.active k) (b.get k)
  known : ∀ k, (∀ p, copying ≠ some (k, p)) → b.get k = .cleared ∨ ∃ v, (k, v) ∈ a.uploaded ∧ v.Shows (b.get k)

namespace TablesInv

variable {m : Shared} {b : BigData} {h : Host} {copying : Option (Key × Nat)} {clearing : Option Nat} {out : Prop}
  {a : Ledger} {k : Key} {v : Version} {pos : Nat}

theorem start : TablesInv ⟨fun _ => 0, fun _ => 0⟩ (fun _ _ => .cleared) .idle none none False Ledger.empty where
  marked _ _ hnew := absurd rfl hnew
  unmarked _ _ _ := rfl
  upload _ _ _ heq := by cases heq
  copied _ _ heq := by cases heq
  cleared _ heq := by cases heq
  outstanding hout := hout.elim
  active _ _ _ := rfl
  known _ _ := Or.inl rfl

/-- While something is uploaded no clear is under way. -/
theorem clearing_none (inv : TablesInv m b h copying clearing out a) (hup : ¬ out) : clearing = none := by
  cases hc : clearing with
  | none => rfl
  | some pos => exact absurd (inv.cleared pos hc).1 hup

theorem startUpload (inv : TablesInv m b .idle copying clearing out a) (hout : ¬ out)
    (hcopy : ∀ p, copying ≠ some (k, p)) : TablesInv m b (.uploading k v 0) copying clearing out a where
  marked hc k' hnew _ := inv.marked hc k' hnew (by rintro ⟨v, pos, heq⟩; cases heq)
  unmarked := inv.unmarked
  upload k' v' pos heq := by
    cases heq
    exact ⟨Nat.zero_le _, hout, hcopy, Version.written_zero⟩
  copied := inv.copied
  cleared := inv.cleared
  outstanding := inv.outstanding
  active := inv.active
  known := inv.known

theorem write (inv : TablesInv m b (.uploading k v pos) copying clearing out a) (hpos : pos < v.data.length + 3) :
    TablesInv (m.upload k v pos) b (.uploading k v (pos + 1)) copying clearing out a := by
  obtain ⟨-, hout, hcopy, hwritten⟩ := inv.upload k v pos rfl
  have hnew (k' : Key) : (m.upload k v pos).new k' = m.new k' := by
    rw [Version.upload_new, if_neg (by omega)]
  have hne {k' : Key} (hk : ¬ (Host.uploading k v (pos + 1)).Uploading k') : k' ≠ k := by
    rintro rfl
    exact hk ⟨v, pos + 1, rfl⟩
  have hcopied {k' : Key} {p : Nat} (hc : copying = some (k', p)) : k' ≠ k := by
    rintro rfl
    exact hcopy p hc
  constructor
  case marked =>
    intro hc k' hk' hup
    rw [hnew] at hk'
    rw [Version.upload_table (Or.inl (hne hup))]
    refine inv.marked hc k' hk' ?_
    rintro ⟨v', pos', heq⟩
    cases heq
    exact hne hup rfl
  case unmarked =>
    intro _ k' hk'
    rw [hnew] at hk'
    exact inv.unmarked hout k' hk'
  case upload =>
    intro k' v' pos' heq
    cases heq
    exact ⟨hpos, hout, hcopy, hwritten.upload hpos⟩
  case copied =>
    intro k' p hc
    rw [hnew, Version.upload_table (Or.inl (hcopied hc))]
    exact inv.copied k' p hc
  case cleared =>
    intro p hc
    rw [inv.clearing_none hout] at hc
    cases hc
  case outstanding => exact inv.outstanding
  case active => exact inv.active
  case known => exact inv.known

theorem writeLast (inv : TablesInv m b (.uploading k v pos) copying clearing out a)
    (hpos : ¬ pos < v.data.length + 3) : TablesInv (m.upload k v pos) b .idle copying clearing out (a.upload k v) := by
  obtain ⟨hle, hout, hcopy, hwritten⟩ := inv.upload k v pos rfl
  obtain rfl : pos = v.data.length + 3 := by
    omega
  have hnew (k' : Key) : (m.upload k v (v.data.length + 3)).new k' = if k' = k then 1 else m.new k' := by
    rw [Version.upload_new]
    simp
  have hcopied {k' : Key} {p : Nat} (hc : copying = some (k', p)) : k' ≠ k := by
    rintro rfl
    exact hcopy p hc
  have htable (k' : Key) : (m.upload k v (v.data.length + 3)).table k' = m.table k' :=
    Version.upload_table (Or.inr le_rfl)
  constructor
  case marked =>
    intro hc k' hk' _
    rw [htable]
    by_cases hk : k' = k
    · subst hk
      exact ⟨v, List.mem_cons_self, hwritten.shows, fun _ => if_pos rfl⟩
    · rw [hnew, if_neg hk] at hk'
      obtain ⟨v', hmem, hshows, hpending⟩ := inv.marked hc k' hk' (by
        rintro ⟨v', pos', heq⟩
        cases heq
        exact hk rfl)
      exact ⟨v', List.mem_cons_of_mem _ hmem, hshows, fun hno => (if_neg hk).trans (hpending hno)⟩
  case unmarked =>
    intro _ k' hk'
    rw [hnew] at hk'
    split at hk'
    · cases hk'
    · next hk => exact (if_neg hk).trans (inv.unmarked hout k' hk')
  case upload =>
    intro k' v' pos' heq
    cases heq
  case copied =>
    intro k' p hc
    rw [hnew, if_neg (hcopied hc), htable]
    exact inv.copied k' p hc
  case cleared =>
    intro p hc
    rw [inv.clearing_none hout] at hc
    cases hc
  case outstanding => exact fun ho => absurd ho hout
  case active => exact inv.active
  case known =>
    intro k' hc
    rcases inv.known k' hc with hk | ⟨v', hmem, hshows⟩
    · exact Or.inl hk
    · exact Or.inr ⟨v', List.mem_cons_of_mem _ hmem, hshows⟩

theorem submit (inv : TablesInv m b h copying clearing out a) :
    TablesInv m b h copying clearing out (a.issue .confSubmit) :=
  ⟨inv.marked, inv.unmarked, inv.upload, inv.copied, inv.cleared, inv.outstanding, inv.active, inv.known⟩

theorem execute (inv : TablesInv m b h copying clearing out a) (cmd : Command) :
    TablesInv m b h copying clearing out (a.execute cmd) :=
  ⟨inv.marked, inv.unmarked, inv.upload, inv.copied, inv.cleared, inv.outstanding, inv.active, inv.known⟩

/-- A clear command leaves nothing for the host, and is outstanding from then on. -/
theorem clear (inv : TablesInv m b .idle copying clearing out a) :
    TablesInv m b .idle copying clearing True (a.issue .confClear) where
  marked hc k hnew hup := by
    obtain ⟨v, hmem, hshows, -⟩ := inv.marked hc k hnew hup
    exact ⟨v, hmem, hshows, fun hno => absurd trivial hno⟩
  unmarked hno := absurd trivial hno
  upload k v pos heq := by cases heq
  copied := inv.copied
  cleared pos hc := ⟨trivial, (inv.cleared pos hc).2⟩
  outstanding _ _ := ⟨rfl, rfl⟩
  active hno := absurd trivial hno
  known := inv.known

theorem startCopy (inv : TablesInv m b h none none out a) (hnew : m.new k ≠ 0) (hup : ¬ h.Uploading k) :
    TablesInv m b h (some (k, 0)) none out a where
  marked := inv.marked
  unmarked := inv.unmarked
  upload k' v pos heq := by
    obtain ⟨hle, hout, -, hwritten⟩ := inv.upload k' v pos heq
    refine ⟨hle, hout, ?_, hwritten⟩
    intro p hp
    cases hp
    exact hup ⟨v, pos, heq⟩
  copied k' p heq := by
    cases heq
    exact ⟨hnew, Nat.zero_le _, DataTable.copiedTo_zero⟩
  cleared pos hc := by cases hc
  outstanding := inv.outstanding
  active hno k' _ := inv.active hno k' (fun p hp => by cases hp)
  known k' _ := inv.known k' (fun p hp => by cases hp)

theorem ne_of_copying {p : Nat} {k' : Key} (hc : ∀ p', (some (k, p) : Option (Key × Nat)) ≠ some (k', p')) : k' ≠ k := by
  rintro rfl
  exact hc p rfl

theorem copyWord (inv : TablesInv m b h (some (k, pos)) clearing out a) (hpos : pos < nEvt + 3) :
    TablesInv m (b.set k ((b.get k).copyWord (m.table k) pos)) h (some (k, pos + 1)) clearing out a := by
  have hother {k' : Key} (hk : k' ≠ k) : (b.set k ((b.get k).copyWord (m.table k) pos)).get k' = b.get k' := by
    rw [BigData.get_set, if_neg hk]
  have hcopying {k' : Key} (hk : k' ≠ k) (p : Nat) : (some (k, pos) : Option (Key × Nat)) ≠ some (k', p) := by
    intro heq
    cases heq
    exact hk rfl
  constructor
  case marked => exact inv.marked
  case unmarked => exact inv.unmarked
  case upload =>
    intro k' v p heq
    obtain ⟨hle, hout, hc, hwritten⟩ := inv.upload k' v p heq
    have hk : k' ≠ k := ne_of_copying hc
    refine ⟨hle, hout, ?_, hwritten⟩
    intro p' hp
    cases hp
    exact hk rfl
  case copied =>
    intro k' p heq
    cases heq
    obtain ⟨hnew, -, hcopied⟩ := inv.copied k pos rfl
    rw [BigData.get_set, if_pos rfl]
    exact ⟨hnew, hpos, hcopied.copyWord⟩
  case cleared =>
    intro p hc
    cases (inv.cleared p hc).2.1
  case outstanding => exact inv.outstanding
  case active =>
    intro hno k' hc
    rw [hother (ne_of_copying hc)]
    exact inv.active hno k' (hcopying (ne_of_copying hc))
  case known =>
    intro k' hc
    rw [hother (ne_of_copying hc)]
    exact inv.known k' (hcopying (ne_of_copying hc))

/-- The new flag of a copied table is reset, and the table is the pending one. -/
theorem commit (inv : TablesInv m b h (some (k, pos)) clearing out a) (hpos : ¬ pos < nEvt + 3) :
    TablesInv (m.setFlag (k.flagOffset + 0) 0) b h none clearing out (a.commit k) := by
  obtain ⟨hnew, hle, hcopied⟩ := inv.copied k pos rfl
  obtain rfl : pos = nEvt + 3 := by
    omega
  have hclear : clearing = none := by
    cases hc : clearing with
    | none => rfl
    | some p => cases (inv.cleared p hc).2.1
  have hup : ¬ h.Uploading k := by
    rintro ⟨v, p, heq⟩
    exact (inv.upload k v p heq).2.2.1 _ rfl
  obtain ⟨v, hmem, hshows, hpending⟩ := inv.marked hclear k hnew hup
  have hbig : v.Shows (b.get k) := by
    rw [hcopied.eq]
    exact hshows
  have hflag (k' : Key) : (m.setFlag (k.flagOffset + 0) 0).new k' = if k' = k then 0 else m.new k' := by
    rw [Shared.setFlag_new (by decide)]
    simp
  have htable (k' : Key) : (m.setFlag (k.flagOffset + 0) 0).table k' = m.table k' :=
    Shared.setFlag_table (Or.inl rfl) (by decide)
  have hcopying {k' : Key} (hk : k' ≠ k) (p : Nat) : (some (k, nEvt + 3) : Option (Key × Nat)) ≠ some (k', p) := by
    intro heq
    cases heq
    exact hk rfl
  constructor
  case marked =>
    intro hc k' hk' hup'
    rw [hflag] at hk'
    split at hk'
    · exact absurd rfl hk'
    · next hk =>
        rw [htable]
        obtain ⟨v', hmem', hshows', hpending'⟩ := inv.marked hc k' hk' hup'
        exact ⟨v', hmem', hshows', fun hno => (if_neg hk).trans (hpending' hno)⟩
  case unmarked =>
    intro hno k' hk'
    rw [hflag] at hk'
    split at hk'
    · next hk => exact if_pos hk
    · next hk => exact (if_neg hk).trans (inv.unmarked hno k' hk')
  case upload =>
    intro k' v' p heq
    obtain ⟨hle', hout', -, hwritten⟩ := inv.upload k' v' p heq
    rw [htable]
    exact ⟨hle', hout', (fun p hp => by cases hp), hwritten⟩
  case copied =>
    intro k' p heq
    cases heq
  case cleared =>
    intro p hc
    rw [hclear] at hc
    cases hc
  case outstanding =>
    intro hout k'
    obtain ⟨hp, hactive⟩ := inv.outstanding hout k
    obtain ⟨hp', hactive'⟩ := inv.outstanding hout k'
    simp only [Ledger.commit, Ledger.setAt]
    split
    · rw [hp, hactive]
      exact ⟨rfl, rfl⟩
    · exact ⟨hp', hactive'⟩
  case active =>
    intro hno k' _
    simp only [Ledger.commit, Ledger.setAt]
    split
    · next hk =>
        rw [hk, hpending hno]
        exact hbig
    · next hk => exact inv.active hno k' (hcopying hk)
  case known =>
    intro k' _
    by_cases hk : k' = k
    · subst hk
      exact Or.inr ⟨v, hmem, hbig⟩
    · exact inv.known k' (hcopying hk)

theorem startClear (inv : TablesInv m b h none none out a) (hout : out) :
    TablesInv m (clearBigData b) h none (some 0) out a where
  marked hc := by cases hc
  unmarked := inv.unmarked
  upload := inv.upload
  copied k p heq := by cases heq
  cleared pos hc := by
    cases hc
    exact ⟨hout, rfl, clearBigData_get b, fun n hn => absurd hn (Nat.not_lt_zero _)⟩
  outstanding := inv.outstanding
  active hno := absurd hout hno
  known k _ := Or.inl (clearBigData_get b k)

theorem clearWord {m' : Shared} (inv : TablesInv m b h none (some pos) out a)
    (hflags : ∀ n, nEvtData + n < pos + 1 → m'.evtFlag n = 0) : TablesInv m' b h none (some (pos + 1)) out a where
  marked hc := by cases hc
  unmarked hno := absurd (inv.cleared pos rfl).1 hno
  upload k v p heq := absurd (inv.cleared pos rfl).1 (inv.upload k v p heq).2.1
  copied k p heq := by cases heq
  cleared p hc := by
    cases hc
    obtain ⟨hout, -, hbig, -⟩ := inv.cleared pos rfl
    exact ⟨hout, rfl, hbig, hflags⟩
  outstanding := inv.outstanding
  active := inv.active
  known := inv.known

/-- When the shared memory is cleared no table is marked. -/
theorem endClear {out' : Prop} (inv : TablesInv m b h none (some pos) out a) (hpos : nEvtData + nEvtFlag ≤ pos) :
    TablesInv m b h none none out' a := by
  obtain ⟨hout, -, hbig, hflags⟩ := inv.cleared pos rfl
  have hnew (k : Key) : m.new k = 0 := hflags _ (by have := k.flag_lt; omega)
  constructor
  case marked => exact fun _ k hk => absurd (hnew k) hk
  case unmarked => exact fun _ k _ => (inv.outstanding hout k).1
  case upload => exact fun k v p heq => absurd hout (inv.upload k v p heq).2.1
  case copied =>
    intro k p heq
    cases heq
  case cleared =>
    intro p hc
    cases hc
  case outstanding => exact fun _ => inv.outstanding hout
  case active =>
    intro _ k _
    rw [(inv.outstanding hout k).2]
    exact hbig k
  case known => exact inv.known

end TablesInv

/-! ## The whole exchange -/

theorem Exchange.step_bigData {s s' : Exchange} {x : Action} {k : Key} (hstep : s.step x = some s')
    (hclear : s'.fw.clearing = none) (hk : ¬ s.Copying k) : s'.bigData.get k = s.bigData.get k := by
  obtain ⟨m, reg, b, flag, host, fw⟩ := s
  cases x with
  | upload k' v => cases host <;> cases hstep; rfl
  | write => cases host <;> cases hstep; rfl
  | command cmd => cases host <;> cases hstep; rfl
  | poll => cases fw <;> cases reg <;> cases hstep <;> rfl
  | sync =>
      cases fw with
      | main =>
          cases flag with
          | false =>
              cases hstep
              rfl
          | true =>
              cases hstep
              cases hclear
      | _ => cases hstep
  | synchData => cases fw <;> cases hstep; rfl
  | work =>
      cases fw with
      | main => cases hstep
      | read cmd =>
          cases hstep
          rfl
      | handle cmd => cases cmd <;> cases hstep <;> rfl
      | submit todo => cases todo <;> cases hstep <;> rfl
      | copy k' pos todo =>
          simp only [step, fwWork] at hstep
          split at hstep
          · cases hstep
            refine (BigData.get_set _ _ _ _).trans (if_neg ?_)
            rintro rfl
            exact hk ⟨pos, rfl⟩
          · cases hstep
            rfl
      | clear pos =>
          simp only [step, fwWork] at hstep
          split at hstep
          · cases hstep
            rfl
          · split at hstep <;> cases hstep <;> rfl

structure ExchangeInv (s : Exchange) (a : Ledger) : Prop where
  reading : ∀ cmd, s.fw = .read cmd → s.cmd = some cmd
  commands : a.issued = a.executed ++ s.waiting
  tables : TablesInv s.shared s.bigData s.host s.fw.copying s.fw.clearing s.ClearOutstanding a

theorem TablesInv.congr {m : Shared} {b : BigData} {h : Host} {copying : Option (Key × Nat)} {clearing : Option Nat}
    {out out' : Prop} {a : Ledger} (inv : TablesInv m b h copying clearing out a) (hiff : out ↔ out') :
    TablesInv m b h copying clearing out' a := by
  rw [← propext hiff]
  exact inv

namespace ExchangeInv

variable {s s' : Exchange} {a : Ledger}

theorem start : ExchangeInv Exchange.start Ledger.empty where
  reading cmd h := by cases h
  commands := rfl
  tables := TablesInv.start.congr (by simp [Exchange.ClearOutstanding, Exchange.start])

theorem upload {k : Key} {v : Version} (inv : ExchangeInv s a) (hok : s.Orderly (.upload k v))
    (hstep : s.step (.upload k v) = some s') : ExchangeInv s' a := by
  obtain ⟨m, cmd, b, flag, host, fw⟩ := s
  cases host with
  | uploading _ _ _ => cases hstep
  | idle =>
      cases hstep
      exact ⟨inv.reading, inv.commands, inv.tables.startUpload hok.1 fun p hp => hok.2 ⟨p, hp⟩⟩

theorem write (inv : ExchangeInv s a) (hstep : s.step .write = some s') : ExchangeInv s' (a.next s .write) := by
  obtain ⟨m, cmd, b, flag, host, fw⟩ := s
  cases host with
  | idle => cases hstep
  | uploading k v pos =>
      cases hstep
      simp only [Ledger.next]
      by_cases hpos : pos < v.data.length + 3
      · rw [if_pos hpos, if_pos hpos]
        exact ⟨inv.reading, inv.commands, inv.tables.write hpos⟩
      · rw [if_neg hpos, if_neg hpos]
        exact ⟨inv.reading, inv.commands, inv.tables.writeLast hpos⟩

theorem command {cmd : Command} (inv : ExchangeInv s a) (hok : s.Orderly (.command cmd))
    (hstep : s.step (.command cmd) = some s') : ExchangeInv s' (a.issue cmd) := by
  obtain ⟨m, reg, b, flag, host, fw⟩ := s
  cases host with
  | uploading _ _ _ => cases hstep
  | idle =>
      cases hstep
      obtain rfl : reg = none := hok
      have hissued : (a.issue cmd).issued = a.issued ++ [cmd] := by
        cases cmd <;> rfl
      have hexecuted : (a.issue cmd).executed = a.executed := by
        cases cmd <;> rfl
      constructor
      · intro c hread
        cases inv.reading c hread
      · rw [hissued, hexecuted, inv.commands]
        simp [Exchange.waiting]
      · cases cmd with
        | confSubmit => exact inv.tables.submit.congr (by simp [Exchange.ClearOutstanding])
        | confClear => exact inv.tables.clear.congr (by simp [Exchange.ClearOutstanding])

theorem poll (inv : ExchangeInv s a) (hstep : s.step .poll = some s') : ExchangeInv s' a := by
  obtain ⟨m, reg, b, flag, host, fw⟩ := s
  cases fw with
  | main =>
      cases reg with
      | none =>
          cases hstep
          exact inv
      | some cmd =>
          cases hstep
          refine ⟨fun c hread => ?_, inv.commands, inv.tables.congr (by simp [Exchange.ClearOutstanding])⟩
          cases hread
          rfl
  | _ => cases hstep

theorem sync (inv : ExchangeInv s a) (hstep : s.step .sync = some s') : ExchangeInv s' a := by
  obtain ⟨m, reg, b, flag, host, fw⟩ := s
  cases fw with
  | main =>
      cases flag with
      | false =>
          cases hstep
          exact inv
      | true =>
          cases hstep
          have hout : Exchange.ClearOutstanding ⟨m, reg, b, true, host, .main⟩ := Or.inr (Or.inr rfl)
          refine ⟨(fun c hread => by cases hread), inv.commands, (inv.tables.startClear hout).congr ?_⟩
          simp [Exchange.ClearOutstanding]
  | _ => cases hstep

theorem synchData (inv : ExchangeInv s a) (hstep : s.step .synchData = some s') : ExchangeInv s' a := by
  obtain ⟨m, reg, b, flag, host, fw⟩ := s
  cases fw with
  | main =>
      cases hstep
      exact ⟨(fun c hread => by cases hread), inv.commands, inv.tables.congr (by simp [Exchange.ClearOutstanding])⟩
  | _ => cases hstep

theorem work (inv : ExchangeInv s a) (hok : s.Orderly .work) (hstep : s.step .work = some s') :
    ExchangeInv s' (a.next s .work) := by
  obtain ⟨m, reg, b, flag, host, fw⟩ := s
  cases fw with
  | main => cases hstep
  | read cmd =>
      cases hstep
      obtain rfl : reg = some cmd := inv.reading cmd rfl
      exact ⟨(fun c hread => by cases hread), inv.commands, inv.tables.congr (by simp [Exchange.ClearOutstanding])⟩
  | handle cmd =>
      have hcommands : (a.execute cmd).issued = (a.execute cmd).executed ++ reg.toList := by
        have h := inv.commands
        simp only [Exchange.waiting] at h
        simp only [Ledger.execute, List.append_assoc]
        exact h
      cases cmd with
      | confSubmit =>
          cases hstep
          refine ⟨(fun c hread => by cases hread), hcommands, (inv.tables.execute _).congr ?_⟩
          simp [Exchange.ClearOutstanding]
      | confClear =>
          cases hstep
          refine ⟨(fun c hread => by cases hread), hcommands, (inv.tables.execute _).congr ?_⟩
          simp [Exchange.ClearOutstanding]
  | submit todo =>
      cases todo with
      | nil =>
          cases hstep
          exact ⟨(fun c hread => by cases hread), inv.commands, inv.tables.congr (by simp [Exchange.ClearOutstanding])⟩
      | cons k todo =>
          cases hstep
          by_cases hnew : m.evtFlag (k.flagOffset + 0) ≠ 0
          · have hcopy := inv.tables.startCopy hnew (hok k todo rfl hnew)
            simp only [Ledger.next]
            rw [if_pos hnew]
            exact ⟨(fun c hread => by cases hread), inv.commands, hcopy.congr (by simp [Exchange.ClearOutstanding])⟩
          · rw [if_neg hnew]
            exact ⟨(fun c hread => by cases hread), inv.commands,
              inv.tables.congr (by simp [Exchange.ClearOutstanding])⟩
  | copy k pos todo =>
      simp only [Exchange.step, Exchange.fwWork] at hstep
      simp only [Ledger.next]
      split at hstep
      · next hpos =>
          cases hstep
          rw [if_pos hpos]
          refine ⟨(fun c hread => by cases hread), inv.commands, (inv.tables.copyWord hpos).congr ?_⟩
          simp [Exchange.ClearOutstanding]
      · next hpos =>
          cases hstep
          rw [if_neg hpos]
          refine ⟨(fun c hread => by cases hread), inv.commands, (inv.tables.commit hpos).congr ?_⟩
          simp [Exchange.ClearOutstanding]
  | clear pos =>
      obtain ⟨-, -, -, hflags⟩ := inv.tables.cleared pos rfl
      simp only [Exchange.step, Exchange.fwWork] at hstep
      split at hstep
      · next hpos =>
          cases hstep
          refine ⟨(fun c hread => by cases hread), inv.commands, (inv.tables.clearWord fun n hn => ?_).congr ?_⟩
          · omega
          · simp [Exchange.ClearOutstanding]
      · split at hstep
        · cases hstep
          refine ⟨(fun c hread => by cases hread), inv.commands, (inv.tables.clearWord fun n hn => ?_).congr ?_⟩
          · by_cases hn' : n = pos - nEvtData
            · exact if_pos hn'
            · exact (if_neg hn').trans (hflags n (by omega))
          · simp [Exchange.ClearOutstanding]
        · next hpos =>
            cases hstep
            exact ⟨(fun c hread => by cases hread), inv.commands, inv.tables.endClear (by omega)⟩

theorem step {x : Action} (inv : ExchangeInv s a) (hok : s.Orderly x) (hstep : s.step x = some s') :
    ExchangeInv s' (a.next s x) := by
  cases x with
  | upload k v => exact inv.upload hok hstep
  | write => exact inv.write hstep
  | command cmd => exact inv.command hok hstep
  | poll => exact inv.poll hstep
  | sync => exact inv.sync hstep
  | synchData => exact inv.synchData hstep
  | work => exact inv.work hok hstep

end ExchangeInv

/-- **The exchange of tables.** In every orderly run a table that is not being copied is empty or
a version uploaded for it, and unless a clear is outstanding it is the one that the uploads, commits
and clears of the host leave, in their order. The firmware acts upon the commands in their order,
and a commit changes no table but the one that it copies. -/
theorem orderly_exchange (p : Exchange × Ledger) (h : (exchange Exchange.Orderly).Reachable p) :
    (∀ k, ¬ p.1.Copying k →
      p.1.bigData.get k = .cleared ∨ ∃ v, (k, v) ∈ p.2.uploaded ∧ v.Shows (p.1.bigData.get k)) ∧
    (¬ p.1.ClearOutstanding → ∀ k, ¬ p.1.Copying k → Matches (p.2.active k) (p.1.bigData.get k)) ∧
    p.2.issued = p.2.executed ++ p.1.waiting ∧
    ∀ x s', p.1.step x = some s' → s'.fw.clearing = none → ∀ k, ¬ p.1.Copying k →
      s'.bigData.get k = p.1.bigData.get k := by
  have inv : ExchangeInv p.1 p.2 := by
    refine TransitionSystem.Reachable.invariant (T := exchange Exchange.Orderly)
      (I := fun p => ExchangeInv p.1 p.2) ?_ ?_ p h
    · rintro p rfl
      exact ExchangeInv.start
    · rintro p p' - inv ⟨x, hok, hstep, hledger⟩
      rw [hledger]
      exact inv.step hok hstep
  have hcopy {k : Key} (hk : ¬ p.1.Copying k) (pos : Nat) : p.1.fw.copying ≠ some (k, pos) :=
    fun heq => hk ⟨pos, heq⟩
  refine ⟨fun k hk => inv.tables.known k (hcopy hk), fun hout k hk => inv.tables.active hout k (hcopy hk),
    inv.commands, ?_⟩
  intro x s' hstep hclear k hk
  exact Exchange.step_bigData hstep hclear hk

/-! ### Two uploads -/

def firstKey : Key := ⟨0, 0, 0⟩

def firstVersion : Version := ⟨[0x00140005, 0x001e0006], by decide⟩

def secondVersion : Version := ⟨[0x00280007, 0x00320008], by decide⟩

def uploadActions : List Action :=
  [.upload firstKey firstVersion] ++ List.replicate 6 .write ++ [.synchData] ++ List.replicate 25 .work

theorem uploadActions_run : (exchangeRun Exchange.Orderly (Exchange.start, Ledger.empty) uploadActions).isSome := by
  decide +kernel

theorem orderly_exchange_upload :
    let p := (exchangeRun Exchange.Orderly (Exchange.start, Ledger.empty) uploadActions).get uploadActions_run
    p.2.active firstKey = some firstVersion ∧ firstVersion.Shows (p.1.bigData.get firstKey) := by
  intro p
  have hreach : (exchange Exchange.Orderly).Reachable p :=
    exchangeRun_reachable (.init rfl) (Option.some_get uploadActions_run).symm
  have hactive : p.2.active firstKey = some firstVersion := by
    decide +kernel
  have hmatches := (orderly_exchange p hreach).2.1 (by decide +kernel) firstKey (by decide +kernel)
  rw [hactive] at hmatches
  exact ⟨hactive, hmatches⟩

/-- The second upload of a table has begun when the first one is committed. -/
def tornActions : List Action :=
  [.upload firstKey firstVersion] ++ List.replicate 6 .write ++ [.upload firstKey secondVersion, .write, .synchData] ++
    List.replicate 25 .work

theorem tornActions_run :
    (exchangeRun (fun _ _ => True) (Exchange.start, Ledger.empty) tornActions).isSome := by
  decide +kernel

theorem table_torn : ¬ ∀ p, (exchange fun _ _ => True).Reachable p → ∀ k, ¬ p.1.Copying k →
    p.1.bigData.get k = .cleared ∨ ∃ v, (k, v) ∈ p.2.uploaded ∧ v.Shows (p.1.bigData.get k) := by
  intro h
  have hreach : (exchange fun _ _ => True).Reachable
      ((exchangeRun (fun _ _ => True) (Exchange.start, Ledger.empty) tornActions).get tornActions_run) :=
    exchangeRun_reachable (.init rfl) (Option.some_get tornActions_run).symm
  rcases h _ hreach firstKey (by decide +kernel) with hcleared | ⟨v, hmem, hshows⟩
  · have hflags := congrArg DataTable.validFlags hcleared
    revert hflags
    decide +kernel
  · have huploaded : ((exchangeRun (fun _ _ => True) (Exchange.start, Ledger.empty) tornActions).get
        tornActions_run).2.uploaded = [(firstKey, firstVersion)] := by
      decide +kernel
    rw [huploaded, List.mem_singleton] at hmem
    cases hmem
    have hdata := hshows.data 0 (by decide)
    revert hdata
    decide +kernel

end WrUnipz
