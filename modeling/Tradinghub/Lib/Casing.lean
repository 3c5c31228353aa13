import Mathlib.Data.List.DropRight

/-!
# The case of a text

Changing case goes character by character, but a character may become several, and a capital sigma
looks at the letters around it.  What comes out is in its case already, has no more white space than
went in and none at its ends, but may be longer.
-/

/-- What the character database says.  Only one character becomes several in lower case. -/
class Casing where
  isWhiteSpace : Char → Bool
  isCased : Char → Bool
  isCaseIgnorable : Char → Bool
  lower : Char → List Char
  upper : Char → List Char
  lower_dotted : lower 'İ' = ['i', '\u0307']
  lower_single : ∀ c, c ≠ 'İ' → (lower c).length = 1
  lower_sigma : lower 'Σ' = ['σ']
  lower_finalSigma : lower 'ς' = ['ς']
  lower_stable : ∀ c, ∀ d ∈ lower c, lower d = [d]
  lower_letter : ∀ c, ∀ d ∈ lower c, d = c ∨ isWhiteSpace d = false ∧ d ≠ '\x00'
  finalSigma_letter : isWhiteSpace 'ς' = false
  upper_ne_nil : ∀ c, upper c ≠ []
  upper_stable : ∀ c, ∀ d ∈ upper c, upper d = [d]
  upper_letter : ∀ c, ∀ d ∈ upper c, d = c ∨ isWhiteSpace d = false ∧ d ≠ '\x00'
  upper_ascii : ∀ c, c.toNat < 128 → upper c = [c.toUpper]

namespace Casing

/-- Each character with what is before it, the last first, and what is after it. -/
def mapInContext (f : List Char → Char → List Char → List Char) (before : List Char) :
    List Char → List Char
  | [] => []
  | c :: after => f before c after ++ mapInContext f (c :: before) after

section Mappings

variable [Casing]

/-! ## Mappings -/

def caseIgnorableThenCased (cs : List Char) : Bool :=
  (cs.dropWhile isCaseIgnorable).head?.any isCased

/-- At the end of a word it has a form of its own. -/
def mapUppercaseSigma (before after : List Char) : Char :=
  if caseIgnorableThenCased before && !caseIgnorableThenCased after then 'ς' else 'σ'

def lowerAt (before : List Char) (c : Char) (after : List Char) : List Char :=
  if c = 'Σ' then [mapUppercaseSigma before after] else lower c

def lowercase (cs : List Char) : List Char := mapInContext lowerAt [] cs

def uppercase (cs : List Char) : List Char := mapInContext (fun _ c _ => upper c) [] cs

def trim (cs : List Char) : List Char :=
  (cs.dropWhile isWhiteSpace).rdropWhile isWhiteSpace

/-! ## What every mapping keeps -/

/-- No character is lost, none is mapped again, and none is new white space or a null. -/
structure Stable (f : List Char → Char → List Char → List Char) : Prop where
  ne_nil : ∀ before c after, f before c after ≠ []
  fixed : ∀ before c after, ∀ d ∈ f before c after, ∀ before' after', f before' d after' = [d]
  letter : ∀ before c after, ∀ d ∈ f before c after, d = c ∨ isWhiteSpace d = false ∧ d ≠ '\x00'

section Stable

variable {f : List Char → Char → List Char → List Char}

omit [Casing] in
theorem mem_mapInContext {before cs : List Char} {d : Char} (h : d ∈ mapInContext f before cs) :
    ∃ before' c after', c ∈ cs ∧ d ∈ f before' c after' := by
  induction cs generalizing before with
  | nil => cases h
  | cons c cs ih =>
    rcases List.mem_append.1 h with h | h
    · exact ⟨before, c, cs, List.mem_cons_self, h⟩
    · obtain ⟨before', c', after', hc', hd⟩ := ih h
      exact ⟨before', c', after', List.mem_cons_of_mem _ hc', hd⟩

omit [Casing] in
theorem mapInContext_eq_self {before cs : List Char}
    (h : ∀ c ∈ cs, ∀ before after, f before c after = [c]) : mapInContext f before cs = cs := by
  induction cs generalizing before with
  | nil => rfl
  | cons c cs ih =>
    rw [mapInContext, h c List.mem_cons_self, ih fun c hc => h c (List.mem_cons_of_mem _ hc)]
    rfl

variable (hf : Stable f)

include hf

/-- A text that was mapped is mapped already. -/
theorem Stable.idempotent (before before' cs : List Char) :
    mapInContext f before' (mapInContext f before cs) = mapInContext f before cs := by
  refine mapInContext_eq_self fun d hd before'' after'' => ?_
  obtain ⟨_, c, _, -, hd⟩ := mem_mapInContext hd
  exact hf.fixed _ c _ d hd before'' after''

theorem Stable.length_le (before cs : List Char) :
    cs.length ≤ (mapInContext f before cs).length := by
  induction cs generalizing before with
  | nil => exact Nat.le_refl _
  | cons c cs ih =>
    have hpos := List.length_pos_of_ne_nil (hf.ne_nil before c cs)
    have htail := ih (c :: before)
    rw [mapInContext, List.length_append, List.length_cons]
    omega

theorem Stable.noNul {before cs : List Char} (h : '\x00' ∉ cs) :
    '\x00' ∉ mapInContext f before cs := by
  intro hmem
  obtain ⟨_, c, _, hc, hd⟩ := mem_mapInContext hmem
  rcases hf.letter _ c _ _ hd with rfl | ⟨-, hne⟩
  · exact h hc
  · exact hne rfl

theorem Stable.letters {before after : List Char} {c : Char} (hc : isWhiteSpace c = false) :
    ∀ d ∈ f before c after, isWhiteSpace d = false := by
  intro d hd
  rcases hf.letter _ c _ d hd with rfl | ⟨hspace, -⟩
  · exact hc
  · exact hspace

theorem Stable.head {before : List Char} {c : Char} {cs : List Char}
    (hc : isWhiteSpace c = false) :
    (mapInContext f before (c :: cs)).dropWhile isWhiteSpace = mapInContext f before (c :: cs) := by
  rw [mapInContext]
  obtain ⟨d, ds, hd⟩ := List.exists_cons_of_ne_nil (hf.ne_nil before c cs)
  have hspace : isWhiteSpace d = false := hf.letters hc d (hd ▸ List.mem_cons_self)
  rw [hd, List.cons_append, List.dropWhile_cons_of_neg (by rw [hspace]; exact Bool.false_ne_true)]

theorem Stable.last {before cs : List Char} {c : Char} (hc : isWhiteSpace c = false) :
    ∀ d ∈ (mapInContext f before (cs ++ [c])).getLast?, isWhiteSpace d = false := by
  induction cs generalizing before with
  | nil =>
    intro d hd
    rw [List.nil_append, mapInContext, mapInContext, List.append_nil] at hd
    exact hf.letters hc d (List.mem_of_getLast? hd)
  | cons b cs ih =>
    intro d hd
    have hrest : mapInContext f (b :: before) (cs ++ [c]) ≠ [] := by
      intro hnil
      have hle := hf.length_le (b :: before) (cs ++ [c])
      rw [hnil, List.length_append, List.length_singleton] at hle
      exact Nat.not_succ_le_zero _ hle
    rw [List.cons_append, mapInContext, List.getLast?_append_of_ne_nil _ hrest] at hd
    exact ih d hd

end Stable

/-! ## Trimming -/

theorem trim_head {cs : List Char} : ∀ c ∈ (trim cs).head?, isWhiteSpace c = false := by
  intro c hc
  obtain ⟨rest, hrest⟩ := List.head?_eq_some_iff.1 hc
  obtain ⟨dropped, hdropped⟩ := List.rdropWhile_prefix isWhiteSpace (l := cs.dropWhile isWhiteSpace)
  have hnot := List.head?_dropWhile_not isWhiteSpace cs
  unfold trim at hrest
  rw [← hdropped, hrest] at hnot
  simpa using hnot

theorem trim_last {cs : List Char} : ∀ c ∈ (trim cs).getLast?, isWhiteSpace c = false := by
  intro c hc
  obtain ⟨hne, rfl⟩ := List.mem_getLast?_eq_getLast hc
  rw [← Bool.not_eq_true]
  exact List.rdropWhile_last_not isWhiteSpace _ hne

/-- White space is stripped once and for all. -/
theorem Stable.trim {f : List Char → Char → List Char → List Char} (hf : Stable f)
    (cs : List Char) : trim (mapInContext f [] (trim cs)) = mapInContext f [] (trim cs) := by
  have hhead : ∀ c ∈ (Casing.trim cs).head?, isWhiteSpace c = false := trim_head
  have hlast : ∀ c ∈ (Casing.trim cs).getLast?, isWhiteSpace c = false := trim_last
  generalize Casing.trim cs = stripped at hhead hlast
  have hdrop : (mapInContext f [] stripped).dropWhile isWhiteSpace = mapInContext f [] stripped := by
    cases stripped with
    | nil => rfl
    | cons c rest => exact hf.head (hhead c rfl)
  unfold Casing.trim
  rw [hdrop]
  rcases List.eq_nil_or_concat stripped with rfl | ⟨init, c, rfl⟩
  · rfl
  · rw [List.concat_eq_append] at *
    refine List.rdropWhile_eq_self_iff.2 fun hne => ?_
    rw [hf.last (hlast c List.getLast?_concat) _ (List.getLast?_eq_getLast_of_ne_nil hne)]
    exact Bool.false_ne_true

/-! ## Lower and upper case -/

theorem lower_ne_nil (c : Char) : lower c ≠ [] := by
  by_cases hc : c = 'İ'
  · rw [hc, lower_dotted]
    exact List.cons_ne_nil _ _
  · intro hnil
    have hlength := lower_single c hc
    rw [hnil] at hlength
    cases hlength

theorem mapUppercaseSigma_eq (before after : List Char) :
    mapUppercaseSigma before after = 'ς' ∨ mapUppercaseSigma before after = 'σ' := by
  unfold mapUppercaseSigma
  split
  · exact Or.inl rfl
  · exact Or.inr rfl

theorem lowerAt_of_fixed {c : Char} (h : lower c = [c]) (before after : List Char) :
    lowerAt before c after = [c] := by
  have hne : c ≠ 'Σ' := by
    rintro rfl
    rw [lower_sigma] at h
    cases h
  rw [lowerAt, if_neg hne, h]

theorem lowerAt_stable : Stable lowerAt := by
  have hsmall : lower 'σ' = ['σ'] :=
    lower_stable 'Σ' 'σ' (by rw [lower_sigma]; exact List.mem_cons_self)
  constructor
  · intro before c after
    unfold lowerAt
    split
    · exact List.cons_ne_nil _ _
    · exact lower_ne_nil c
  · intro before c after d hd before' after'
    refine lowerAt_of_fixed ?_ before' after'
    unfold lowerAt at hd
    split at hd
    · rw [List.mem_singleton.1 hd]
      rcases mapUppercaseSigma_eq before after with h | h <;> rw [h]
      · exact lower_finalSigma
      · exact hsmall
    · exact lower_stable c d hd
  · intro before c after d hd
    unfold lowerAt at hd
    split at hd
    · refine Or.inr ?_
      rw [List.mem_singleton.1 hd]
      rcases mapUppercaseSigma_eq before after with h | h <;> rw [h]
      · exact ⟨finalSigma_letter, by decide⟩
      · have hletter := lower_letter 'Σ' 'σ' (by rw [lower_sigma]; exact List.mem_cons_self)
        exact hletter.resolve_left (by decide)
    · exact lower_letter c d hd

theorem upperAt_stable : Stable fun _ c _ => upper c where
  ne_nil _ c _ := upper_ne_nil c
  fixed _ c _ d hd _ _ := upper_stable c d hd
  letter _ c _ d hd := upper_letter c d hd

/-- A dotted capital I counts twice. -/
theorem length_lowercase (cs : List Char) :
    (lowercase cs).length = cs.length + cs.count 'İ' := by
  have hlength : ∀ before c after, (lowerAt before c after).length =
      1 + if c = 'İ' then 1 else 0 := by
    intro before c after
    unfold lowerAt
    by_cases hdotted : c = 'İ'
    · rw [hdotted, if_neg (by decide), lower_dotted]
      rfl
    · rw [if_neg hdotted]
      split
      · rfl
      · exact lower_single c hdotted
  unfold lowercase
  generalize ([] : List Char) = before
  induction cs generalizing before with
  | nil => rfl
  | cons c cs ih =>
    rw [mapInContext, List.length_append, hlength, ih, List.length_cons, List.count_cons]
    simp only [beq_iff_eq]
    omega

theorem uppercase_ascii {cs : List Char} (h : ∀ c ∈ cs, c.toNat < 128) :
    uppercase cs = cs.map Char.toUpper := by
  unfold uppercase
  generalize ([] : List Char) = before
  induction cs generalizing before with
  | nil => rfl
  | cons c cs ih =>
    rw [mapInContext, upper_ascii c (h c List.mem_cons_self),
      ih fun c hc => h c (List.mem_cons_of_mem _ hc)]
    rfl

end Mappings

/-! ## ASCII -/

theorem toLower_cases (c : Char) :
    c.toLower = c ∨ 97 ≤ c.toLower.toNat ∧ c.toLower.toNat ≤ 122 := by
  unfold Char.toLower
  split
  · right
    simp only [Char.toNat]
    grind [UInt32.toNat_add, UInt32.le_iff_toNat_le]
  · exact Or.inl rfl

theorem toLower_of_le {c : Char} (h : 97 ≤ c.toNat) : c.toLower = c := by
  unfold Char.toLower
  rw [dif_neg]
  simp only [Char.toNat] at h
  grind [UInt32.le_iff_toNat_le]

theorem toUpper_cases (c : Char) :
    c.toUpper = c ∨ 65 ≤ c.toUpper.toNat ∧ c.toUpper.toNat ≤ 90 := by
  unfold Char.toUpper
  split
  · right
    simp only [Char.toNat]
    grind [UInt32.toNat_add, UInt32.le_iff_toNat_le]
  · exact Or.inl rfl

theorem toUpper_of_le {c : Char} (h : c.toNat ≤ 90) : c.toUpper = c := by
  unfold Char.toUpper
  rw [dif_neg]
  simp only [Char.toNat] at h
  grind [UInt32.le_iff_toNat_le]

theorem asciiLetter {d : Char} (hmin : 65 ≤ d.toNat) :
    decide (d ∈ ['\t', '\n', '\x0b', '\x0c', '\x0d', ' ']) = false ∧ d ≠ '\x00' := by
  constructor
  · refine decide_eq_false fun hmem => ?_
    simp only [List.mem_cons, List.not_mem_nil, or_false] at hmem
    rcases hmem with rfl | rfl | rfl | rfl | rfl | rfl <;> exact absurd hmin (by decide)
  · rintro rfl
    exact absurd hmin (by decide)

/-- ASCII, and the two letters that are special in Unicode's lower case. -/
@[reducible] def ascii : Casing where
  isWhiteSpace c := c ∈ ['\t', '\n', '\x0b', '\x0c', '\x0d', ' ']
  isCased c := c.isAlpha
  isCaseIgnorable c := c ∈ ['\x27', '.', ':', '^', '\x60']
  lower c := if c = 'İ' then ['i', '\u0307'] else if c = 'Σ' then ['σ'] else [c.toLower]
  upper c := [c.toUpper]
  lower_dotted := rfl
  lower_single c hc := by
    rw [if_neg hc]
    split <;> rfl
  lower_sigma := rfl
  lower_finalSigma := rfl
  lower_stable c d hd := by
    have hfixed : ∀ d : Char, d ≠ 'İ' → d ≠ 'Σ' → d.toLower = d →
        (if d = 'İ' then ['i', '\u0307'] else if d = 'Σ' then ['σ'] else [d.toLower]) = [d] := by
      intro d hdotted hsigma hlower
      rw [if_neg hdotted, if_neg hsigma, hlower]
    split at hd
    · simp only [List.mem_cons, List.not_mem_nil, or_false] at hd
      rcases hd with rfl | rfl <;> decide
    · next hdotted =>
      split at hd
      · rw [List.mem_singleton.1 hd]
        decide
      · next hsigma =>
        rw [List.mem_singleton.1 hd]
        rcases toLower_cases c with h | ⟨hmin, hmax⟩
        · exact hfixed _ (h.symm ▸ hdotted) (h.symm ▸ hsigma) (by rw [h, h])
        · refine hfixed _ ?_ ?_ (toLower_of_le hmin)
          · intro h
            rw [h] at hmax
            exact absurd hmax (by decide)
          · intro h
            rw [h] at hmax
            exact absurd hmax (by decide)
  lower_letter c d hd := by
    split at hd
    · simp only [List.mem_cons, List.not_mem_nil, or_false] at hd
      rcases hd with rfl | rfl <;> exact Or.inr (asciiLetter (by decide))
    · split at hd
      · rw [List.mem_singleton.1 hd]
        exact Or.inr (asciiLetter (by decide))
      · rw [List.mem_singleton.1 hd]
        rcases toLower_cases c with h | ⟨hmin, -⟩
        · exact Or.inl h
        · exact Or.inr (asciiLetter (by omega))
  finalSigma_letter := by decide
  upper_ne_nil _ := List.cons_ne_nil _ _
  upper_stable c d hd := by
    rw [List.mem_singleton.1 hd]
    rcases toUpper_cases c with h | ⟨-, hmax⟩
    · rw [h, h]
    · rw [toUpper_of_le hmax]
  upper_letter c d hd := by
    rw [List.mem_singleton.1 hd]
    rcases toUpper_cases c with h | ⟨hmin, -⟩
    · exact Or.inl h
    · exact Or.inr (asciiLetter hmin)
  upper_ascii _ _ := rfl

end Casing
