import Tradinghub.Lib.Decimal
import Mathlib.Data.List.DropRight

/-!
# Decimals as text

`Decimal(..)` reads more than digits with a point: an exponent, digits of any script, white space
around the number and underscores in it, and the names of what is not finite.  Scientific notation
without any of these can write every decimal (`read_text`).
-/

/-- What the character database says: the value of a decimal digit in any script, and white space. -/
class Unicode where
  digit : Char → Option (Fin 10)
  isSpace : Char → Bool
  isSpace_digit : ∀ c, c.isDigit = true → isSpace c = false

/-- ASCII has all of its own digits, and these spaces. -/
@[reducible] def Unicode.ascii : Unicode where
  digit _ := none
  isSpace c := c ∈ [' ', '\t', '\n', '\x0b', '\x0c', '\r', '\x1c', '\x1d', '\x1e', '\x1f']
  isSpace_digit c hc := by
    rw [decide_eq_false_iff_not]
    intro hmem
    have hspaces : [' ', '\t', '\n', '\x0b', '\x0c', '\r', '\x1c', '\x1d', '\x1e', '\x1f'].all
        (fun c => !c.isDigit) = true := by decide
    rw [List.all_eq_true] at hspaces
    have hnot := hspaces c hmem
    rw [hc] at hnot
    cases hnot

namespace Decimal

inductive Literal where
  | finite (d : Decimal)
  | infinity
  | nan
  deriving DecidableEq, Repr

/-- `[sign]` -/
def takeSign : List Char → Bool × List Char
  | '-' :: cs => (true, cs)
  | '+' :: cs => (false, cs)
  | cs => (false, cs)

def takeDigits (cs : List Char) : List Char × List Char :=
  (cs.takeWhile Char.isDigit, cs.dropWhile Char.isDigit)

/-- `['.' [digits]]` -/
def takeFraction : List Char → List Char × List Char
  | '.' :: cs => takeDigits cs
  | cs => ([], cs)

/-- `[('e' | 'E') [sign] digits]`, with nothing behind it -/
def readExponent : List Char → Option Int
  | [] => some 0
  | c :: cs =>
    if c.toLower = 'e' then
      let (negative, digits) := takeSign cs
      if digits ≠ [] ∧ digits.all Char.isDigit then
        let magnitude : Int := Nat.ofDigitChars 10 digits 0
        some (if negative then -magnitude else magnitude)
      else none
    else none

/-- `decimal-part [exponent-part]` -/
def readNumber (negative : Bool) (cs : List Char) : Option Decimal :=
  let (whole, cs) := takeDigits cs
  let (fraction, cs) := takeFraction cs
  if whole = [] ∧ fraction = [] then none
  else (readExponent cs).map fun exponent =>
    { negative := negative
      coefficient := Nat.ofDigitChars 10 (whole ++ fraction) 0
      exponent := exponent - fraction.length }

/-- `infinity`, `nan` or a number, in any case -/
def readUnsigned (negative : Bool) (cs : List Char) : Option Literal :=
  match cs.map Char.toLower with
  | ['i', 'n', 'f'] => some .infinity
  | ['i', 'n', 'f', 'i', 'n', 'i', 't', 'y'] => some .infinity
  | 'n' :: 'a' :: 'n' :: payload => if payload.all Char.isDigit then some .nan else none
  | 's' :: 'n' :: 'a' :: 'n' :: payload => if payload.all Char.isDigit then some .nan else none
  | _ => (readNumber negative cs).map .finite

section Reading

variable [Unicode]

/-- An ASCII character stays as it is, a digit of another script becomes an ASCII one. -/
def toAscii (c : Char) : Option Char :=
  if c.toNat < 128 then some c
  else if Unicode.isSpace c then some ' '
  else (Unicode.digit c).map fun k => Nat.digitChar k

def strip (cs : List Char) : List Char :=
  (cs.dropWhile Unicode.isSpace).rdropWhile Unicode.isSpace

/-- `Decimal(..)`: white space around the text and underscores anywhere are ignored. -/
def read (cs : List Char) : Option Literal := do
  let ascii ← ((strip cs).filter (· ≠ '_')).mapM toAscii
  let (negative, unsigned) := takeSign ascii
  readUnsigned negative unsigned

end Reading

/-! ## Written and read -/

/-- The coefficient, and the exponent in scientific notation. -/
def text (coefficient : Nat) (exponent : Int) : List Char :=
  Nat.toDigits 10 coefficient ++ 'E' :: (if exponent < 0 then '-' else '+') ::
    Nat.toDigits 10 exponent.natAbs

theorem isDigit_toDigits (n : Nat) : ∀ c ∈ Nat.toDigits 10 n, c.isDigit = true :=
  fun _ hc => Nat.isDigit_of_mem_toDigits (by norm_num) (by norm_num) hc

theorem isDigit_lt {c : Char} (h : c.isDigit = true) : c.toNat < 128 := by
  have hle : c.toNat ≤ '9'.toNat := (Char.isDigit_iff_toNat.1 h).2
  exact Nat.lt_of_le_of_lt hle (by decide)

theorem takeDigits_append {digits : List Char} (hdigits : ∀ c ∈ digits, c.isDigit = true)
    {rest : List Char} (hrest : ∀ c ∈ rest.head?, c.isDigit = false) :
    takeDigits (digits ++ rest) = (digits, rest) := by
  unfold takeDigits
  rw [List.takeWhile_append_of_pos hdigits, List.dropWhile_append_of_pos hdigits]
  cases rest with
  | nil => simp
  | cons c cs =>
    have hc : c.isDigit = false := hrest c rfl
    simp [hc]

theorem readExponent_text (exponent : Int) :
    readExponent ('E' :: (if exponent < 0 then '-' else '+') :: Nat.toDigits 10 exponent.natAbs) =
      some exponent := by
  have hdigits : Nat.toDigits 10 exponent.natAbs ≠ [] ∧
      (Nat.toDigits 10 exponent.natAbs).all Char.isDigit = true :=
    ⟨Nat.toDigits_ne_nil, List.all_eq_true.2 (isDigit_toDigits _)⟩
  by_cases hneg : exponent < 0
  · rw [if_pos hneg]
    show (if _ then some (-(Nat.ofDigitChars 10 _ 0 : Int)) else none) = _
    rw [if_pos hdigits, Nat.ofDigitChars_ten_toDigits]
    congr 1
    omega
  · rw [if_neg hneg]
    show (if _ then some (Nat.ofDigitChars 10 _ 0 : Int) else none) = _
    rw [if_pos hdigits, Nat.ofDigitChars_ten_toDigits]
    congr 1
    omega

theorem readNumber_text (coefficient : Nat) (exponent : Int) :
    readNumber false (text coefficient exponent) = some ⟨false, coefficient, exponent⟩ := by
  obtain ⟨tail, htail⟩ : ∃ tail, (if exponent < 0 then '-' else '+') ::
      Nat.toDigits 10 exponent.natAbs = tail := ⟨_, rfl⟩
  have hexponent : readExponent ('E' :: tail) = some exponent := htail ▸ readExponent_text exponent
  have hwhole : takeDigits (Nat.toDigits 10 coefficient ++ 'E' :: tail) =
      (Nat.toDigits 10 coefficient, 'E' :: tail) := by
    refine takeDigits_append (isDigit_toDigits coefficient) fun c hc => ?_
    obtain rfl : 'E' = c := Option.some.inj hc
    decide
  have hfraction : takeFraction ('E' :: tail) = ([], 'E' :: tail) := rfl
  unfold readNumber text
  rw [htail, hwhole]
  simp only [hfraction]
  rw [if_neg fun hnil => Nat.toDigits_ne_nil hnil.1, hexponent, List.append_nil,
    Nat.ofDigitChars_ten_toDigits]
  simp only [Option.map_some, List.length_nil, Nat.cast_zero, Int.sub_zero]

theorem toLower_digit {c : Char} (h : c.isDigit = true) : c.toLower = c := by
  have hle : c.toNat ≤ '9'.toNat := (Char.isDigit_iff_toNat.1 h).2
  unfold Char.toLower
  refine dif_neg fun hupper => ?_
  have hA : 'A'.toNat ≤ c.toNat := hupper.1
  exact absurd (Nat.le_trans hA hle) (by decide)

/-- A number does not begin like `infinity` or `nan`. -/
theorem readUnsigned_digit (negative : Bool) {c : Char} (hc : c.isDigit = true) (cs : List Char) :
    readUnsigned negative (c :: cs) = (readNumber negative (c :: cs)).map .finite := by
  unfold readUnsigned
  rw [List.map_cons, toLower_digit hc]
  split
  · next heq => rw [(List.cons.inj heq).1] at hc; cases hc
  · next heq => rw [(List.cons.inj heq).1] at hc; cases hc
  · next heq => rw [(List.cons.inj heq).1] at hc; cases hc
  · next heq => rw [(List.cons.inj heq).1] at hc; cases hc
  · rfl

theorem takeSign_digit {c : Char} (hc : c.isDigit = true) (cs : List Char) :
    takeSign (c :: cs) = (false, c :: cs) := by
  unfold takeSign
  split
  · next heq => rw [(List.cons.inj heq).1] at hc; cases hc
  · next heq => rw [(List.cons.inj heq).1] at hc; cases hc
  · rfl

theorem text_chars (coefficient : Nat) (exponent : Int) :
    ∀ c ∈ text coefficient exponent, c.toNat < 128 ∧ c ≠ '_' := by
  intro c hc
  have hdigit : c.isDigit = true → c.toNat < 128 ∧ c ≠ '_' := by
    refine fun h => ⟨isDigit_lt h, ?_⟩
    rintro rfl
    cases h
  unfold text at hc
  rcases List.mem_append.1 hc with hc | hc
  · exact hdigit (isDigit_toDigits _ c hc)
  · rcases List.mem_cons.1 hc with rfl | hc
    · decide
    · rcases List.mem_cons.1 hc with rfl | hc
      · split <;> decide
      · exact hdigit (isDigit_toDigits _ c hc)

theorem mapM_toAscii [Unicode] {cs : List Char} (h : ∀ c ∈ cs, c.toNat < 128) :
    cs.mapM toAscii = some cs := by
  induction cs with
  | nil => rfl
  | cons c cs ih =>
    have hc : toAscii c = some c := if_pos (h c List.mem_cons_self)
    rw [List.mapM_cons, hc, ih fun c hc => h c (List.mem_cons_of_mem _ hc)]
    rfl

/-- Nothing to strip where no space begins or ends the text. -/
theorem strip_eq [Unicode] {cs : List Char} (hhead : ∀ c ∈ cs.head?, Unicode.isSpace c = false)
    (hlast : ∀ c ∈ cs.getLast?, Unicode.isSpace c = false) : strip cs = cs := by
  have hdrop : cs.dropWhile Unicode.isSpace = cs := by
    cases cs with
    | nil => rfl
    | cons c cs =>
      rw [List.dropWhile_cons_of_neg]
      rw [hhead c rfl]
      exact Bool.false_ne_true
  unfold strip
  rw [hdrop, List.rdropWhile_eq_self_iff]
  intro hne hspace
  rw [hlast _ (List.getLast?_eq_getLast_of_ne_nil hne)] at hspace
  cases hspace

/-- What is written is read again. -/
theorem read_text [Unicode] (coefficient : Nat) (exponent : Int) :
    read (text coefficient exponent) = some (.finite ⟨false, coefficient, exponent⟩) := by
  have hchars := text_chars coefficient exponent
  have hnumber := readNumber_text coefficient exponent
  obtain ⟨c, cs, hcs, hc⟩ : ∃ c cs, text coefficient exponent = c :: cs ∧ c.isDigit = true := by
    obtain ⟨c, digits, hdigits⟩ :=
      List.exists_cons_of_ne_nil (Nat.toDigits_ne_nil (n := coefficient) (b := 10))
    have hc : c ∈ Nat.toDigits 10 coefficient := hdigits ▸ List.mem_cons_self
    refine ⟨c, digits ++ 'E' :: (if exponent < 0 then '-' else '+') ::
      Nat.toDigits 10 exponent.natAbs, ?_, isDigit_toDigits coefficient c hc⟩
    unfold text
    rw [hdigits, List.cons_append]
  have hlast : ∀ hne, ((text coefficient exponent).getLast hne).isDigit = true := by
    have hsplit : text coefficient exponent =
        (Nat.toDigits 10 coefficient ++ ['E', if exponent < 0 then '-' else '+']) ++
          Nat.toDigits 10 exponent.natAbs := by
      unfold text
      rw [List.append_assoc]
      rfl
    rw [hsplit]
    intro hne
    rw [List.getLast_append_of_ne_nil hne Nat.toDigits_ne_nil]
    exact isDigit_toDigits _ _ (List.getLast_mem _)
  rw [hcs] at hchars hnumber hlast ⊢
  have hunderscores : (c :: cs).filter (· ≠ '_') = c :: cs :=
    List.filter_eq_self.2 fun c' hc' => decide_eq_true (hchars c' hc').2
  have hascii : (c :: cs).mapM toAscii = some (c :: cs) :=
    mapM_toAscii fun c' hc' => (hchars c' hc').1
  have hstrip : strip (c :: cs) = c :: cs := by
    refine strip_eq (fun c' hc' => ?_) fun c' hc' => ?_
    · obtain rfl : c = c' := Option.some.inj hc'
      exact Unicode.isSpace_digit c hc
    · rw [Option.mem_def, List.getLast?_eq_getLast_of_ne_nil (List.cons_ne_nil c cs)] at hc'
      exact Option.some.inj hc' ▸ Unicode.isSpace_digit _ (hlast _)
  unfold read
  rw [hstrip, hunderscores, hascii]
  simp only [Option.bind_eq_bind, Option.bind_some, takeSign_digit hc]
  rw [readUnsigned_digit false hc, hnumber]
  rfl

end Decimal
