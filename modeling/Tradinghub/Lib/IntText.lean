import Tradinghub.Lib.DecimalText

/-!
# Integers as text

`int(..)` of a text: white space around it, a sign, digits of any script with single underscores
between them.  What `str(..)` writes is read again (`int_repr`).
-/

namespace IntText

/-- Digits, and single underscores between them. -/
def takeUnderscores : List Char → Option (List Char)
  | [] => none
  | [c] => if c.isDigit then some [c] else none
  | c :: '_' :: cs => if c.isDigit then (takeUnderscores cs).map (c :: ·) else none
  | c :: cs => if c.isDigit then (takeUnderscores cs).map (c :: ·) else none

def isSpace (c : Char) : Bool := c ∈ [' ', '\t', '\n', '\x0b', '\x0c', '\r']

/-- `int(..)` -/
def int [Unicode] (cs : List Char) : Option Int := do
  let ascii ← cs.mapM Decimal.toAscii
  let (negative, digits) := Decimal.takeSign ((ascii.dropWhile isSpace).rdropWhile isSpace)
  let digits ← takeUnderscores digits
  let magnitude : Int := Nat.ofDigitChars 10 digits 0
  return if negative then -magnitude else magnitude

theorem takeUnderscores_digits {cs : List Char} (hne : cs ≠ [])
    (hdigits : ∀ c ∈ cs, c.isDigit = true) : takeUnderscores cs = some cs := by
  induction cs with
  | nil => exact absurd rfl hne
  | cons c cs ih =>
    obtain ⟨hc, hcs⟩ := List.forall_mem_cons.1 hdigits
    cases cs with
    | nil => simp [takeUnderscores, hc]
    | cons d ds =>
      have hd : d ≠ '_' := by
        rintro rfl
        cases hcs '_' List.mem_cons_self
      have hrest := ih (List.cons_ne_nil d ds) hcs
      unfold takeUnderscores
      split
      · next heq => cases heq
      · next heq => cases heq
      · next heq =>
        cases heq
        exact absurd rfl hd
      · next heq =>
        cases heq
        rw [if_pos hc, hrest]
        rfl

theorem isSpace_digit {c : Char} (h : c.isDigit = true) : isSpace c = false := by
  unfold isSpace
  rw [decide_eq_false_iff_not]
  intro hmem
  have hspaces : [' ', '\t', '\n', '\x0b', '\x0c', '\r'].all (fun c => !c.isDigit) = true := by
    decide
  have hnot := List.all_eq_true.1 hspaces c hmem
  rw [h] at hnot
  cases hnot

/-- Nothing to skip around a text that ends in a digit and does not begin with a space. -/
theorem strip_digits {c : Char} {cs : List Char} (hc : isSpace c = false) (hne : c :: cs ≠ [])
    (hlast : ((c :: cs).getLast hne).isDigit = true) :
    ((c :: cs).dropWhile isSpace).rdropWhile isSpace = c :: cs := by
  rw [List.dropWhile_cons_of_neg (by rw [hc]; exact Bool.false_ne_true),
    List.rdropWhile_eq_self_iff]
  intro _ hspace
  rw [isSpace_digit hlast] at hspace
  cases hspace

theorem toList_toString (n : Nat) : (toString n).toList = Nat.toDigits 10 n :=
  String.toList_ofList

theorem toList_negSucc (n : Nat) :
    (toString (Int.negSucc n)).toList = '-' :: Nat.toDigits 10 (n + 1) := by
  show ("-" ++ toString (n + 1)).toList = _
  rw [String.toList_append, toList_toString]
  rfl

/-- A sign and digits. -/
theorem mem_toString {i : Int} {c : Char} (hc : c ∈ (toString i).toList) :
    c = '-' ∨ c.isDigit = true := by
  cases i with
  | ofNat n =>
    have htext : (toString (Int.ofNat n)).toList = Nat.toDigits 10 n := toList_toString n
    rw [htext] at hc
    exact Or.inr (Decimal.isDigit_toDigits n c hc)
  | negSucc n =>
    rw [toList_negSucc] at hc
    exact (List.mem_cons.1 hc).imp_right (Decimal.isDigit_toDigits _ c)

section Written

variable [Unicode]

theorem int_digits {cs : List Char} (hne : cs ≠ []) (hdigits : ∀ c ∈ cs, c.isDigit = true) :
    int cs = some (Nat.ofDigitChars 10 cs 0 : Int) := by
  obtain ⟨c, cs, rfl⟩ := List.exists_cons_of_ne_nil hne
  have hc : c.isDigit = true := hdigits c List.mem_cons_self
  have hascii : (c :: cs).mapM Decimal.toAscii = some (c :: cs) :=
    Decimal.mapM_toAscii fun d hd => Decimal.isDigit_lt (hdigits d hd)
  unfold int
  rw [hascii]
  simp only [Option.bind_eq_bind, Option.bind_some]
  rw [strip_digits (isSpace_digit hc) hne (hdigits _ (List.getLast_mem hne)),
    Decimal.takeSign_digit hc, takeUnderscores_digits hne hdigits]
  rfl

theorem int_minus {cs : List Char} (hne : cs ≠ []) (hdigits : ∀ c ∈ cs, c.isDigit = true) :
    int ('-' :: cs) = some (-(Nat.ofDigitChars 10 cs 0 : Int)) := by
  have hlast : (('-' :: cs).getLast (List.cons_ne_nil _ _)).isDigit = true := by
    rw [List.getLast_cons hne]
    exact hdigits _ (List.getLast_mem hne)
  have hascii : ('-' :: cs).mapM Decimal.toAscii = some ('-' :: cs) := by
    refine Decimal.mapM_toAscii fun c hc => ?_
    rcases List.mem_cons.1 hc with rfl | hc
    · decide
    · exact Decimal.isDigit_lt (hdigits c hc)
  have hsign : Decimal.takeSign ('-' :: cs) = (true, cs) := rfl
  unfold int
  rw [hascii]
  simp only [Option.bind_eq_bind, Option.bind_some]
  rw [strip_digits (by decide) (List.cons_ne_nil _ _) hlast, hsign,
    takeUnderscores_digits hne hdigits]
  rfl

theorem int_nat (n : Nat) : int (toString n).toList = some (n : Int) := by
  rw [toList_toString, int_digits Nat.toDigits_ne_nil (Decimal.isDigit_toDigits n),
    Nat.ofDigitChars_ten_toDigits]

/-- **What is written is read again.** -/
theorem int_repr (i : Int) : int (toString i).toList = some i := by
  cases i with
  | ofNat n => exact int_nat n
  | negSucc n =>
    rw [toList_negSucc, int_minus Nat.toDigits_ne_nil (Decimal.isDigit_toDigits _),
      Nat.ofDigitChars_ten_toDigits]
    rfl

end Written

end IntText
