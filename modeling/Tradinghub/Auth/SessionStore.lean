import Mathlib.Data.Set.Insert

/-!
# What a session store is for

The abstract store: each live family has a user, one current token with an expiry, and the tokens
it has spent.  A token belongs to one family and is not both current and spent; the structures
carry that, so no operation can break it.  `Step` is the meaning of the three requests, one rule
for each thing that can happen, and `Step.unique` and `Step.total` say that exactly one of them
does.
-/

namespace Tradinghub.Auth

variable {F U T : Type}

/-- A live family: whose it is, the token that may be rotated and until when, and the spent ones. -/
structure Family (U T : Type) where
  user : U
  current : T
  expiresAt : Int
  spent : Set T
  current_unspent : current ∉ spent

def Family.Holds (a : Family U T) (t : T) : Prop := t = a.current ∨ t ∈ a.spent

structure SessionStore (F U T : Type) where
  families : F → Option (Family U T)
  apart : ∀ f g a b t, families f = some a → families g = some b → a.Holds t → b.Holds t → f = g

namespace SessionStore

/-- The token belongs to a live family. -/
def Known (S : SessionStore F U T) (t : T) : Prop := ∃ f a, S.families f = some a ∧ a.Holds t

def empty : SessionStore F U T where
  families _ := none
  apart _ _ _ _ _ h := by cases h

variable [DecidableEq F]

/-- The family `f` becomes `a`, whose tokens were `f`'s already or nobody's. -/
def set (S : SessionStore F U T) (f : F) (a : Family U T)
    (h : ∀ t, a.Holds t → ¬ S.Known t ∨ ∃ b, S.families f = some b ∧ b.Holds t) :
    SessionStore F U T where
  families g := if g = f then some a else S.families g
  apart := by
    have key : ∀ g b t, g ≠ f → S.families g = some b → a.Holds t → ¬ b.Holds t := by
      intro g b t hg hb ha hbt
      rcases h t ha with hfresh | ⟨c, hc, hct⟩
      · exact hfresh ⟨g, b, hb, hbt⟩
      · exact hg (S.apart g f b c t hb hc hbt hct)
    intro g g' b b' t hb hb' ht ht'
    by_cases hg : g = f
    · by_cases hg' : g' = f
      · rw [hg, hg']
      · simp only [hg, if_true, hg', if_false, Option.some.injEq] at hb hb'
        subst hb
        exact absurd ht' (key g' b' t hg' hb' ht)
    · by_cases hg' : g' = f
      · simp only [hg, if_false, hg', if_true, Option.some.injEq] at hb hb'
        subst hb'
        exact absurd ht (key g b t hg hb ht')
      · simp only [hg, hg', if_false] at hb hb'
        exact S.apart g g' b b' t hb hb' ht ht'

/-- A new family of user `u`, with the token `t`. -/
def login (S : SessionStore F U T) (f : F) (u : U) (t : T) (expiresAt : Int)
    (ht : ¬ S.Known t) : SessionStore F U T :=
  S.set f
    { user := u, current := t, expiresAt := expiresAt, spent := ∅,
      current_unspent := Set.notMem_empty t }
    (by
      rintro t' (rfl | h)
      · exact Or.inl ht
      · exact absurd h (Set.notMem_empty t'))

/-- The current token of `f` is spent, and `t` is the current one. -/
def rotate (S : SessionStore F U T) (f : F) (a : Family U T) (t : T) (expiresAt : Int)
    (ha : S.families f = some a) (ht : ¬ S.Known t) : SessionStore F U T :=
  S.set f
    { user := a.user, current := t, expiresAt := expiresAt, spent := insert a.current a.spent,
      current_unspent := fun h => ht ⟨f, a, ha, Set.mem_insert_iff.1 h⟩ }
    (by
      rintro t' (rfl | h)
      · exact Or.inl ht
      · exact Or.inr ⟨a, ha, Set.mem_insert_iff.1 h⟩)

/-- The family `f` is gone. -/
def revoke (S : SessionStore F U T) (f : F) : SessionStore F U T where
  families g := if g = f then none else S.families g
  apart g g' b b' t hb hb' ht ht' := by
    by_cases hg : g = f
    · simp [hg] at hb
    · by_cases hg' : g' = f
      · simp [hg'] at hb'
      · simp only [hg, hg', if_false] at hb hb'
        exact S.apart g g' b b' t hb hb' ht ht'

end SessionStore

/-! ## The three requests -/

/-- A request, with what it draws: a fresh family `f`, a fresh token `new`. -/
inductive Op (F U T : Type) where
  | start (user : U) (f : F) (new : T)
  | refresh (t new : T)
  | logout (t : T)

inductive Outcome (U T : Type) where
  | pair (user : U) (t : T)
  | refused
  | done

/-- What a request does at time `now`; a new token lives for `lifetime`. -/
inductive Step [DecidableEq F] (now lifetime : Int) :
    SessionStore F U T → Op F U T → Outcome U T → SessionStore F U T → Prop
  | start {S : SessionStore F U T} {user : U} {f : F} {new : T} (hf : S.families f = none)
      (hnew : ¬ S.Known new) :
      Step now lifetime S (.start user f new) (.pair user new)
        (S.login f user new (now + lifetime) hnew)
  | rotate {S : SessionStore F U T} {f : F} {a : Family U T} {t new : T}
      (ha : S.families f = some a) (ht : t = a.current) (hlive : ¬ a.expiresAt < now)
      (hnew : ¬ S.Known new) :
      Step now lifetime S (.refresh t new) (.pair a.user new)
        (S.rotate f a new (now + lifetime) ha hnew)
  | reuse {S : SessionStore F U T} {f : F} {a : Family U T} {t new : T}
      (ha : S.families f = some a) (ht : t ∈ a.spent) :
      Step now lifetime S (.refresh t new) .refused (S.revoke f)
  | expired {S : SessionStore F U T} {f : F} {a : Family U T} {t new : T}
      (ha : S.families f = some a) (ht : t = a.current) (hexp : a.expiresAt < now) :
      Step now lifetime S (.refresh t new) .refused S
  | unknown {S : SessionStore F U T} {t new : T} (ht : ¬ S.Known t) :
      Step now lifetime S (.refresh t new) .refused S
  | logout {S : SessionStore F U T} {f : F} {a : Family U T} {t : T}
      (ha : S.families f = some a) (ht : a.Holds t) :
      Step now lifetime S (.logout t) .done (S.revoke f)
  | logoutUnknown {S : SessionStore F U T} {t : T} (ht : ¬ S.Known t) :
      Step now lifetime S (.logout t) .done S

section Laws

/-- A held token is held by one family. -/
theorem SessionStore.holder {S : SessionStore F U T} {f g : F} {a b : Family U T} {t : T}
    (ha : S.families f = some a) (hb : S.families g = some b) (hat : a.Holds t)
    (hbt : b.Holds t) : f = g ∧ a = b := by
  obtain rfl := S.apart f g a b t ha hb hat hbt
  exact ⟨rfl, Option.some.inj (ha.symm.trans hb)⟩

variable [DecidableEq F] {now lifetime : Int} {S S' S'' : SessionStore F U T} {op : Op F U T}
  {o o' : Outcome U T}

/-- **A request has one meaning.** -/
theorem Step.unique (h : Step now lifetime S op o S') (h' : Step now lifetime S op o' S'') :
    o = o' ∧ S' = S'' := by
  cases h with
  | start => cases h'; exact ⟨rfl, rfl⟩
  | rotate ha ht hlive hnew =>
    cases h' with
    | rotate hb ht' _ _ =>
      obtain ⟨rfl, rfl⟩ := S.holder ha hb (Or.inl ht) (Or.inl ht')
      exact ⟨rfl, rfl⟩
    | reuse hb hspent =>
      obtain ⟨-, rfl⟩ := S.holder ha hb (Or.inl ht) (Or.inr hspent)
      exact absurd (ht ▸ hspent) (Family.current_unspent _)
    | expired hb ht' hexp =>
      obtain ⟨-, rfl⟩ := S.holder ha hb (Or.inl ht) (Or.inl ht')
      exact absurd hexp hlive
    | unknown hunknown => exact absurd ⟨_, _, ha, Or.inl ht⟩ hunknown
  | reuse ha hspent =>
    cases h' with
    | rotate hb ht' _ _ =>
      obtain ⟨-, rfl⟩ := S.holder ha hb (Or.inr hspent) (Or.inl ht')
      exact absurd (ht' ▸ hspent) (Family.current_unspent _)
    | reuse hb hspent' =>
      obtain ⟨rfl, -⟩ := S.holder ha hb (Or.inr hspent) (Or.inr hspent')
      exact ⟨rfl, rfl⟩
    | expired hb ht' hexp =>
      obtain ⟨-, rfl⟩ := S.holder ha hb (Or.inr hspent) (Or.inl ht')
      exact absurd (ht' ▸ hspent) (Family.current_unspent _)
    | unknown hunknown => exact absurd ⟨_, _, ha, Or.inr hspent⟩ hunknown
  | expired ha ht hexp =>
    cases h' with
    | rotate hb ht' hlive _ =>
      obtain ⟨-, rfl⟩ := S.holder ha hb (Or.inl ht) (Or.inl ht')
      exact absurd hexp hlive
    | reuse hb hspent =>
      obtain ⟨-, rfl⟩ := S.holder ha hb (Or.inl ht) (Or.inr hspent)
      exact absurd (ht ▸ hspent) (Family.current_unspent _)
    | expired => exact ⟨rfl, rfl⟩
    | unknown => exact ⟨rfl, rfl⟩
  | unknown hunknown =>
    cases h' with
    | rotate hb ht' _ _ => exact absurd ⟨_, _, hb, Or.inl ht'⟩ hunknown
    | reuse hb hspent => exact absurd ⟨_, _, hb, Or.inr hspent⟩ hunknown
    | expired => exact ⟨rfl, rfl⟩
    | unknown => exact ⟨rfl, rfl⟩
  | logout ha ht =>
    cases h' with
    | logout hb ht' =>
      obtain ⟨rfl, -⟩ := S.holder ha hb ht ht'
      exact ⟨rfl, rfl⟩
    | logoutUnknown hunknown => exact absurd ⟨_, _, ha, ht⟩ hunknown
  | logoutUnknown hunknown =>
    cases h' with
    | logout hb ht' => exact absurd ⟨_, _, hb, ht'⟩ hunknown
    | logoutUnknown => exact ⟨rfl, rfl⟩

/-- What the request draws is new. -/
def Op.Fresh (S : SessionStore F U T) : Op F U T → Prop
  | .start _ f new => S.families f = none ∧ ¬ S.Known new
  | .refresh _ new => ¬ S.Known new
  | .logout _ => True

omit [DecidableEq F] in
theorem SessionStore.known_or {t : T} (S : SessionStore F U T) :
    (∃ f a, S.families f = some a ∧ t = a.current) ∨
    (∃ f a, S.families f = some a ∧ t ∈ a.spent) ∨ ¬ S.Known t := by
  by_cases h : S.Known t
  · obtain ⟨f, a, ha, ht | ht⟩ := h
    · exact Or.inl ⟨f, a, ha, ht⟩
    · exact Or.inr (Or.inl ⟨f, a, ha, ht⟩)
  · exact Or.inr (Or.inr h)

/-- **And it has one**, when what it draws is new. -/
theorem Step.total (h : op.Fresh S) : ∃ o S', Step now lifetime S op o S' := by
  cases op with
  | start user f new => exact ⟨_, _, .start h.1 h.2⟩
  | refresh t new =>
    rcases S.known_or with ⟨f, a, ha, ht⟩ | ⟨f, a, ha, ht⟩ | ht
    · by_cases hexp : a.expiresAt < now
      · exact ⟨_, _, .expired ha ht hexp⟩
      · exact ⟨_, _, .rotate ha ht hexp h⟩
    · exact ⟨_, _, .reuse ha ht⟩
    · exact ⟨_, _, .unknown ht⟩
  | logout t =>
    by_cases ht : S.Known t
    · obtain ⟨f, a, ha, ht⟩ := ht
      exact ⟨_, _, .logout ha ht⟩
    · exact ⟨_, _, .logoutUnknown ht⟩

end Laws

end Tradinghub.Auth
