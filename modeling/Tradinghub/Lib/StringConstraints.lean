import Tradinghub.Lib.Casing

/-!
# Constrained strings

A validator strips the text, checks what is left and only then changes its case.  What it lets
through it lets through again, as it is, unless the change of case has made the text longer than the
limit (`validate_again`).
-/

inductive LetterCase where
  | asSent
  | lower
  | upper
  deriving DecidableEq, Repr

inductive StringError where
  | stringType
  | tooShort (minLength : Nat)
  | tooLong (maxLength : Nat)
  | patternMismatch
  deriving DecidableEq, Repr

structure StringConstraints where
  stripWhitespace : Bool := false
  letterCase : LetterCase := .asSent
  minLength : Nat := 0
  maxLength : Nat
  pattern : List Char → Bool

namespace StringConstraints

variable [Casing]

def strip (constraints : StringConstraints) (text : String) : List Char :=
  if constraints.stripWhitespace then Casing.trim text.toList else text.toList

def changeCase (constraints : StringConstraints) (cs : List Char) : List Char :=
  match constraints.letterCase with
  | .asSent => cs
  | .lower => Casing.lowercase cs
  | .upper => Casing.uppercase cs

/-- The length is checked before the case is changed. -/
def validate (constraints : StringConstraints) (text : String) : Except StringError String :=
  let stripped := constraints.strip text
  if stripped.length < constraints.minLength then .error (.tooShort constraints.minLength)
  else if constraints.maxLength < stripped.length then .error (.tooLong constraints.maxLength)
  else if constraints.pattern stripped = false then .error .patternMismatch
  else .ok (String.ofList (constraints.changeCase stripped))

/-- What the checks let through. -/
structure Passes (constraints : StringConstraints) (cs : List Char) : Prop where
  minLength : constraints.minLength ≤ cs.length
  maxLength : cs.length ≤ constraints.maxLength
  pattern : constraints.pattern cs = true

variable {constraints : StringConstraints} {text value : String}

theorem validate_ok : constraints.validate text = .ok value ↔
    constraints.Passes (constraints.strip text) ∧
      value.toList = constraints.changeCase (constraints.strip text) := by
  unfold validate
  generalize constraints.strip text = stripped
  constructor
  · intro h
    dsimp only at h
    split at h
    · cases h
    · split at h
      · cases h
      · split at h
        · cases h
        · next hmin hmax hpattern =>
          rw [Bool.not_eq_false] at hpattern
          rw [← Except.ok.inj h, String.toList_ofList]
          exact ⟨⟨by omega, by omega, hpattern⟩, rfl⟩
  · rintro ⟨⟨hmin, hmax, hpattern⟩, hvalue⟩
    dsimp only
    rw [if_neg (by omega), if_neg (by omega), if_neg (by rw [hpattern]; exact Bool.noConfusion),
      ← hvalue, String.ofList_toList]

/-- Changing the case is a mapping of characters that has nothing left to do the second time. -/
theorem exists_mapping (constraints : StringConstraints) :
    ∃ f, Casing.Stable f ∧ ∀ cs, constraints.changeCase cs = Casing.mapInContext f [] cs := by
  unfold changeCase
  cases constraints.letterCase with
  | asSent =>
    refine ⟨fun _ c _ => [c], ⟨?_, ?_, ?_⟩, fun cs => ?_⟩
    · exact fun _ c _ => List.cons_ne_nil c []
    · intro _ c _ d hd _ _
      rfl
    · exact fun _ c _ d hd => Or.inl (List.mem_singleton.1 hd)
    · exact (Casing.mapInContext_eq_self fun _ _ _ _ => rfl).symm
  | lower => exact ⟨Casing.lowerAt, Casing.lowerAt_stable, fun _ => rfl⟩
  | upper => exact ⟨_, Casing.upperAt_stable, fun _ => rfl⟩

theorem changeCase_length (constraints : StringConstraints) (cs : List Char) :
    cs.length ≤ (constraints.changeCase cs).length := by
  obtain ⟨f, hf, hmap⟩ := constraints.exists_mapping
  rw [hmap]
  exact hf.length_le [] cs

theorem changeCase_noNul {cs : List Char} (h : '\x00' ∉ cs) :
    '\x00' ∉ constraints.changeCase cs := by
  obtain ⟨f, hf, hmap⟩ := constraints.exists_mapping
  rw [hmap]
  exact hf.noNul h

/-- A value is stripped already, and in its case. -/
theorem value_fixed (hvalue : value.toList = constraints.changeCase (constraints.strip text)) :
    constraints.strip value = value.toList ∧
      constraints.changeCase value.toList = value.toList := by
  obtain ⟨f, hf, hmap⟩ := constraints.exists_mapping
  rw [hmap] at hvalue
  constructor
  · unfold strip at hvalue ⊢
    split
    · next hstrip =>
      rw [if_pos hstrip] at hvalue
      rw [hvalue]
      exact hf.trim text.toList
    · rfl
  · rw [hmap, hvalue]
    exact hf.idempotent [] [] _

/-- A value the pattern fits is let through again if, and only if, it is not too long. -/
theorem validate_again (h : constraints.validate text = .ok value)
    (hpattern : constraints.pattern value.toList = true) :
    constraints.validate value = .ok value ↔ value.length ≤ constraints.maxLength := by
  obtain ⟨hpasses, hvalue⟩ := validate_ok.1 h
  obtain ⟨hstrip, hcase⟩ := value_fixed hvalue
  rw [validate_ok, hstrip, hcase]
  constructor
  · intro hagain
    rw [← String.length_toList]
    exact hagain.1.maxLength
  · intro hmax
    have hlonger := constraints.changeCase_length (constraints.strip text)
    rw [← hvalue] at hlonger
    rw [← String.length_toList] at hmax
    exact ⟨⟨Nat.le_trans hpasses.minLength hlonger, hmax, hpattern⟩, rfl⟩

theorem validate_again_of_length
    (hlength : (constraints.changeCase (constraints.strip text)).length = (constraints.strip text).length)
    (h : constraints.validate text = .ok value) (hpattern : constraints.pattern value.toList = true) :
    constraints.validate value = .ok value := by
  obtain ⟨hpasses, hvalue⟩ := validate_ok.1 h
  refine (validate_again h hpattern).2 ?_
  rw [← String.length_toList, hvalue, hlength]
  exact hpasses.maxLength

theorem validate_again_asSent (hcase : constraints.letterCase = .asSent)
    (h : constraints.validate text = .ok value) : constraints.validate value = .ok value := by
  obtain ⟨hpasses, hvalue⟩ := validate_ok.1 h
  have hsame : ∀ cs, constraints.changeCase cs = cs := by
    intro cs
    unfold changeCase
    rw [hcase]
  refine validate_again_of_length (by rw [hsame]) h ?_
  rw [hvalue, hsame]
  exact hpasses.pattern

end StringConstraints
