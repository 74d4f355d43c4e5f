import BelProjects.ScheduleCompare.Soundness

/-!
# Comparison as a relation

Equal vertices are compared equal unless a truth value or the type is unknown.  A vertex
without a type equals every other vertex, but only from the left.  Texts without `0x` that are
the same number as a hexadecimal one are not compared as numbers among themselves.
-/

namespace ScheduleCompare

/-! ### Values -/

section Values

variable {unset : Nat} {s1 s2 s3 : String} {t : ValueType}

/-- A text that is compared equal to itself. -/
def Readable (s : String) : ValueType → Prop
  | .BOOLEAN => isTrue s = true ∨ isFalse s = true
  | .STRING | .HEX => True

theorem SameValue.symm (h : SameValue unset s1 s2 t) : SameValue unset s2 s1 t := by
  cases t with
  | STRING => exact Eq.symm h
  | BOOLEAN => exact h.imp And.symm And.symm
  | HEX =>
    unfold SameValue SameHex at *
    by_cases hhex : isHex s1 = true ∨ isHex s2 = true
    · rw [if_pos hhex] at h
      rw [if_pos hhex.symm]
      exact h.symm
    · rw [if_neg hhex] at h
      rw [if_neg fun hswap => hhex hswap.symm]
      exact h.symm

theorem SameTruth.trans (h : SameTruth s1 s2) (h' : SameTruth s2 s3) : SameTruth s1 s3 := by
  rcases h with ⟨h1, h2⟩ | ⟨h1, h2⟩
  · rcases h' with ⟨-, h3⟩ | ⟨h2', -⟩
    · exact Or.inl ⟨h1, h3⟩
    · rw [not_isFalse h2] at h2'
      cases h2'
  · rcases h' with ⟨h2', -⟩ | ⟨-, h3⟩
    · rw [not_isFalse h2'] at h2
      cases h2
    · exact Or.inr ⟨h1, h3⟩

/-- A hexadecimal text between two decimal ones says nothing about their spelling. -/
def Bridged (s1 s2 s3 : String) : Prop :=
  isHex s1 = false ∧ isHex s2 = true ∧ isHex s3 = false ∧ s1 ≠ s3

theorem SameHex.trans (hbridge : ¬ Bridged s1 s2 s3) (h : SameHex unset s1 s2)
    (h' : SameHex unset s2 s3) : SameHex unset s1 s3 := by
  unfold Bridged at hbridge
  unfold SameHex at *
  cases h1 : isHex s1 <;> cases h2 : isHex s2 <;> cases h3 : isHex s3 <;> simp_all

theorem SameValue.trans (hbridge : t = .HEX → ¬ Bridged s1 s2 s3) (h : SameValue unset s1 s2 t)
    (h' : SameValue unset s2 s3 t) : SameValue unset s1 s3 t := by
  cases t with
  | STRING => exact Eq.trans h h'
  | BOOLEAN => exact SameTruth.trans h h'
  | HEX => exact SameHex.trans (hbridge rfl) h h'

end Values

/-! ### Vertices -/

/-- The type is known and the truth values can be read, or there is no type. -/
def ScheduleVertex.WellFormed (v : ScheduleVertex) : Prop :=
  v.member .type = "" ∨ ∃ fields, membersOf (v.member .type) = some fields ∧
    ∀ f ∈ fields, Readable (v.member f.1) f.2

section Vertices

variable {unset : Nat} {a b c : ScheduleVertex}

end Vertices

/-! ### Files -/

/-- Of two nodes with names that count as equal, both have a type or none has. -/
def NoWildcards (config : Configuration) (g₁ g₂ : DotGraph) : Prop :=
  ∀ v w, let a := readVertex config (g₁.graph.vertex v); let b := readVertex config (g₂.graph.vertex w)
    (config.compareNames = true → a.member .name = b.member .name) →
      (a.member .type = "" ↔ b.member .type = "")

section Files

variable {unset : Nat} {config : Configuration} {g₁ g₂ : DotGraph}

theorem NoWildcards.symm (h : NoWildcards config g₁ g₂) : NoWildcards config g₂ g₁ :=
  fun v w hname => (h w v fun hc => (hname hc).symm).symm

end Files

/-! ### The relation -/

end ScheduleCompare
