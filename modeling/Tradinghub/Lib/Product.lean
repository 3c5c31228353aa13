import Tradinghub.Lib.Attempt
import Mathlib.Data.Sum.Basic

/-!
# Two stores in one transaction

`Engine.prod` keeps two stores side by side: a statement, a row or a write belongs to one of them.
`Prog.left` and `Prog.right` run a program of one store on the pair.  The steps it takes there are
its own steps (`Own.of_left`), so what they keep true of one store is kept on the pair, and the
other store is left alone (`Attempt.left`).
-/

namespace ReadCommitted

variable {σ₁ σ₂ κ₁ κ₂ ω₁ ω₂ ς₁ ς₂ δ ε α β ρ : Type}

def Engine.prod (E₁ : Engine σ₁ κ₁ ω₁ ς₁ δ) (E₂ : Engine σ₂ κ₂ ω₂ ς₂ δ) :
    Engine (σ₁ × σ₂) (κ₁ ⊕ κ₂) (ω₁ ⊕ ω₂) (ς₁ ⊕ ς₂) δ where
  apply
    | .inl w, db => (E₁.apply w db.1, db.2)
    | .inr w, db => (db.1, E₂.apply w db.2)
  plan
    | .inl q, db => (.inl (E₁.plan q db.1).1, (E₁.plan q db.1).2.map .inl)
    | .inr q, db => (.inr (E₂.plan q db.2).1, (E₂.plan q db.2).2.map .inr)
  act
    | .inl q, .inl key, db => (E₁.act q key db.1).map (List.map .inl)
    | .inr q, .inr key, db => (E₂.act q key db.2).map (List.map .inr)
    | _, _, _ => none
  finish
    | .inl q, hits, db => (E₁.finish q (hits.filterMap Sum.getLeft?) db.1).map (List.map .inl)
    | .inr q, hits, db => (E₂.finish q (hits.filterMap Sum.getRight?) db.2).map (List.map .inr)

/-- What a statement of the first store answers, to a program that knows no other. -/
def answerLeft (r : Except δ (List (κ₁ ⊕ κ₂) × (σ₁ × σ₂))) : Except δ (List κ₁ × σ₁) :=
  r.map fun p => (p.1.filterMap Sum.getLeft?, p.2.1)

def answerRight (r : Except δ (List (κ₁ ⊕ κ₂) × (σ₁ × σ₂))) : Except δ (List κ₂ × σ₂) :=
  r.map fun p => (p.1.filterMap Sum.getRight?, p.2.2)

namespace Prog

/-- A program of the first store, on the pair. -/
def left : Prog σ₁ κ₁ ς₁ δ ε α → Prog (σ₁ × σ₂) (κ₁ ⊕ κ₂) (ς₁ ⊕ ς₂) δ ε α
  | .ret a => .ret a
  | .raise e => .raise e
  | .query k => .query fun db => (k db.1).left
  | .clock k => .clock fun now => (k now).left
  | .exec q k => .exec (.inl q) fun r => (k (answerLeft r)).left
  | .scan q todo hits k =>
    .scan (.inl q) (todo.map .inl) (hits.map .inl) fun r => (k (answerLeft r)).left
  | .commit k => .commit k.left

/-- A program of the second store, on the pair. -/
def right : Prog σ₂ κ₂ ς₂ δ ε α → Prog (σ₁ × σ₂) (κ₁ ⊕ κ₂) (ς₁ ⊕ ς₂) δ ε α
  | .ret a => .ret a
  | .raise e => .raise e
  | .query k => .query fun db => (k db.2).right
  | .clock k => .clock fun now => (k now).right
  | .exec q k => .exec (.inr q) fun r => (k (answerRight r)).right
  | .scan q todo hits k =>
    .scan (.inr q) (todo.map .inr) (hits.map .inr) fun r => (k (answerRight r)).right
  | .commit k => .commit k.right

theorem left_bind (p : Prog σ₁ κ₁ ς₁ δ ε α) (f : α → Prog σ₁ κ₁ ς₁ δ ε β) :
    (p >>= f).left =
      (p.left >>= fun x => (f x).left : Prog (σ₁ × σ₂) (κ₁ ⊕ κ₂) (ς₁ ⊕ ς₂) δ ε β) := by
  induction p with
  | ret a => rfl
  | raise e => rfl
  | query k ih => exact congrArg Prog.query (funext fun db => ih _)
  | clock k ih => exact congrArg Prog.clock (funext fun now => ih _)
  | exec q k ih => exact congrArg (Prog.exec _) (funext fun r => ih _)
  | scan q todo hits k ih => exact congrArg (Prog.scan _ _ _) (funext fun r => ih _)
  | commit k ih => exact congrArg Prog.commit ih

theorem Quiet.left {p : Prog σ₁ κ₁ ς₁ δ ε α} (hp : p.Quiet) :
    (p.left : Prog (σ₁ × σ₂) (κ₁ ⊕ κ₂) (ς₁ ⊕ ς₂) δ ε α).Quiet := by
  induction p with
  | ret a => trivial
  | raise e => trivial
  | query k ih => exact fun db => ih _ (hp _)
  | clock k ih => exact fun now => ih _ (hp _)
  | exec q k ih => exact fun r => ih _ (hp _)
  | scan q todo hits k ih => exact fun r => ih _ (hp _)
  | commit k => exact hp.elim

theorem Quiet.right {p : Prog σ₂ κ₂ ς₂ δ ε α} (hp : p.Quiet) :
    (p.right : Prog (σ₁ × σ₂) (κ₁ ⊕ κ₂) (ς₁ ⊕ ς₂) δ ε α).Quiet := by
  induction p with
  | ret a => trivial
  | raise e => trivial
  | query k ih => exact fun db => ih _ (hp _)
  | clock k ih => exact fun now => ih _ (hp _)
  | exec q k ih => exact fun r => ih _ (hp _)
  | scan q todo hits k ih => exact fun r => ih _ (hp _)
  | commit k => exact hp.elim

end Prog

section Lists

theorem filterMap_getLeft (keys : List κ₁) :
    (keys.map (Sum.inl : κ₁ → κ₁ ⊕ κ₂)).filterMap Sum.getLeft? = keys := by
  induction keys with
  | nil => rfl
  | cons key keys ih => exact congrArg (key :: ·) ih

variable (E₁ : Engine σ₁ κ₁ ω₁ ς₁ δ) (E₂ : Engine σ₂ κ₂ ω₂ ς₂ δ)

@[simp] theorem applyAll_inl (ws : List ω₁) (db : σ₁ × σ₂) :
    (E₁.prod E₂).applyAll (ws.map .inl) db = (E₁.applyAll ws db.1, db.2) := by
  induction ws generalizing db with
  | nil => rfl
  | cons w ws ih =>
    rw [List.map_cons, Engine.applyAll_cons, ih]
    rfl

theorem finish_inl (q : ς₁) (hits : List κ₁) (db : σ₁ × σ₂) :
    (E₁.prod E₂).finish (.inl q) (hits.map .inl) db =
      (E₁.finish q hits db.1).map (List.map .inl) := by
  simp only [Engine.prod, filterMap_getLeft]

theorem view_left {tx : Tx (κ₁ ⊕ κ₂) (ω₁ ⊕ ω₂) (ς₁ ⊕ ς₂)} {tx₁ : Tx κ₁ ω₁ ς₁}
    (h : tx.writes = tx₁.writes.map .inl) (db : σ₁ × σ₂) :
    (E₁.prod E₂).view tx db = (E₁.view tx₁ db.1, db.2) := by
  rw [Engine.view, h, applyAll_inl]
  rfl

end Lists

/-! ## A request of the first store, step by step -/

section Steps

variable [DecidableEq κ₁] [DecidableEq κ₂] {E₁ : Engine σ₁ κ₁ ω₁ ς₁ δ}
  {E₂ : Engine σ₂ κ₂ ω₂ ς₂ δ}

/-- What such a request sees of the system. -/
def Sys.left (s : Sys (σ₁ × σ₂) (κ₁ ⊕ κ₂) (ω₁ ⊕ ω₂) (ς₁ ⊕ ς₂) δ ε β ρ) :
    Sys σ₁ κ₁ ω₁ ς₁ δ ε α ρ where
  world := { db := s.world.db.1, clock := s.world.clock }

/-- The request's own steps are those of the program it runs on the first store. -/
theorem Own.of_left {s : Sys (σ₁ × σ₂) (κ₁ ⊕ κ₂) (ω₁ ⊕ ω₂) (ς₁ ⊕ ς₂) δ ε β ρ} {n : Nat}
    {c c' : Conn (σ₁ × σ₂) (κ₁ ⊕ κ₂) (ω₁ ⊕ ω₂) (ς₁ ⊕ ς₂) δ ε β ρ} {a : Action (κ₁ ⊕ κ₂) ε ρ}
    (h : Own (E₁.prod E₂) s n c a c') {p : Prog σ₁ κ₁ ς₁ δ ε α} {tx : Tx κ₁ ω₁ ς₁} {g : α → β}
    (hp : c.prog = p.left >>= fun x => .ret (g x)) (htx : c.tx.writes = tx.writes.map .inl) :
    ∃ a₁ p' tx', Own E₁ s.left n ⟨c.req, p, tx⟩ a₁ ⟨c.req, p', tx'⟩ ∧
      c'.prog = (p'.left >>= fun x => .ret (g x)) ∧ c'.tx.writes = tx'.writes.map .inl := by
  obtain ⟨req, prog, tx₀⟩ := c
  obtain rfl : prog = _ := hp
  replace htx : tx₀.writes = tx.writes.map .inl := htx
  have hview : ∀ db, (E₁.prod E₂).view tx₀ db = (E₁.view tx db.1, db.2) := view_left E₁ E₂ htx
  cases p with
  | ret x =>
    cases h with
    | _ hprog => cases hprog
  | raise e =>
    cases h with
    | _ hprog => cases hprog
  | query k =>
    cases h with
    | query hprog =>
      cases hprog
      refine ⟨_, k (E₁.view tx s.world.db.1), tx, .query rfl, ?_, htx⟩
      simp only [hview]
      rfl
    | _ hprog => cases hprog
  | clock k =>
    cases h with
    | clock hprog =>
      cases hprog
      exact ⟨_, k s.world.clock, tx, .clock rfl, rfl, htx⟩
    | _ hprog => cases hprog
  | exec q k =>
    cases h with
    | exec hprog =>
      cases hprog
      refine ⟨_, _, _, .exec rfl, ?_, htx⟩
      simp only [hview]
      rfl
    | _ hprog => cases hprog
  | scan q todo hits k =>
    cases h with
    | refused hprog hfinish =>
      obtain ⟨rfl, htodo, rfl, rfl⟩ := Prog.scan.inj hprog
      obtain rfl := List.map_eq_nil_iff.1 htodo
      rw [hview, finish_inl] at hfinish
      cases hf : E₁.finish q hits (E₁.view tx s.world.db.1) with
      | error =>
        rw [hf] at hfinish
        cases hfinish
        exact ⟨_, k (.error _), tx, .refused rfl hf, rfl, htx⟩
      | ok ws =>
        rw [hf] at hfinish
        cases hfinish
    | done hprog hfinish =>
      obtain ⟨rfl, htodo, rfl, rfl⟩ := Prog.scan.inj hprog
      obtain rfl := List.map_eq_nil_iff.1 htodo
      rw [hview, finish_inl] at hfinish
      cases hf : E₁.finish q hits (E₁.view tx s.world.db.1) with
      | error d =>
        rw [hf] at hfinish
        cases hfinish
      | ok ws =>
        rw [hf] at hfinish
        cases hfinish
        have hwrites : (tx₀.write (ws.map .inl)).writes = (tx.write ws).writes.map .inl := by
          rw [Tx.write_writes, Tx.write_writes, List.map_append, htx]
        refine ⟨_, _, tx.write ws, .done rfl hf, ?_, hwrites⟩
        simp only [view_left E₁ E₂ hwrites, answerLeft, Except.map, filterMap_getLeft]
        rfl
    | skip hprog hkey hfree hact =>
      obtain ⟨rfl, rfl, rfl, rfl⟩ := Prog.scan.inj hprog
      obtain ⟨key, hmem, rfl⟩ := List.mem_map.1 hkey
      rw [hview] at hact
      have hact₁ : E₁.act q key (E₁.view tx s.world.db.1) = none := Option.map_eq_none_iff.1 hact
      refine ⟨_, .scan q (todo.erase key) hits k, tx, .skip rfl hmem rfl hact₁, ?_, htx⟩
      simp only [← List.map_erase Sum.inl_injective]
      rfl
    | take hprog hkey hfree hact =>
      obtain ⟨rfl, rfl, rfl, rfl⟩ := Prog.scan.inj hprog
      obtain ⟨key, hmem, rfl⟩ := List.mem_map.1 hkey
      rw [hview] at hact
      obtain ⟨ws, hact₁, rfl⟩ := Option.map_eq_some_iff.1 hact
      refine ⟨_, .scan q (todo.erase key) (hits ++ [key]) k, tx.hold key ws,
        .take rfl hmem rfl hact₁, ?_, ?_⟩
      · simp only [← List.map_erase Sum.inl_injective]
        rw [show hits.map Sum.inl ++ [Sum.inl key] = (hits ++ [key]).map (Sum.inl : κ₁ → κ₁ ⊕ κ₂) by
          rw [List.map_append, List.map_singleton]]
        rfl
      · simp only [Tx.hold_writes, List.map_append, htx]
    | _ hprog => cases hprog
  | commit k =>
    cases h with
    | commit hprog =>
      cases hprog
      exact ⟨_, k, {}, .commit rfl, rfl, rfl⟩
    | _ hprog => cases hprog

/-- What the steps of a program keep true of its store, they keep true on the pair, and the other
store they leave alone. -/
theorem Attempt.left {aborts : Prop} {n : Nat} {K : σ₁ → Prog σ₁ κ₁ ς₁ δ ε α → Tx κ₁ ω₁ ς₁ → Prop}
    {A : σ₁ → Except ε α → Prop} (hK : Attempt E₁ ρ aborts n K A) (E₂ : Engine σ₂ κ₂ ω₂ ς₂ δ)
    (g : α → β) (other : σ₂) :
    Attempt (E₁.prod E₂) ρ aborts n
      (fun db p tx => db.2 = other ∧ ∃ p₁ tx₁, p = (p₁.left >>= fun x => .ret (g x)) ∧
        tx.writes = tx₁.writes.map .inl ∧ K db.1 p₁ tx₁)
      (fun db r => db.2 = other ∧ ∃ r₁, r = r₁.map g ∧ A db.1 r₁) where
  own := by
    rintro s c c' a hown hcommit ⟨hother, p, tx, hp, htx, hc⟩
    obtain ⟨a₁, p', tx', hown₁, hp', htx'⟩ := hown.of_left hp htx
    refine ⟨hother, p', tx', hp', htx', hK.own hown₁ ?_ hc⟩
    rintro k rfl
    exact hcommit _ hp
  commit := by
    rintro db k tx ⟨hother, p, tx₁, hp, htx, hc⟩
    cases p with
    | commit k₁ =>
      cases hp
      rw [view_left E₁ E₂ htx]
      exact ⟨hother, k₁, {}, rfl, rfl, hK.commit hc⟩
    | _ => cases hp
  ret := by
    rintro db x tx ⟨hother, p, tx₁, hp, htx, hc⟩
    cases p with
    | ret x₁ =>
      cases hp
      rw [view_left E₁ E₂ htx]
      exact ⟨hother, .ok x₁, rfl, hK.ret hc⟩
    | _ => cases hp
  raise := by
    rintro db e tx ⟨hother, p, tx₁, hp, htx, hc⟩
    cases p with
    | raise e₁ =>
      cases hp
      exact ⟨hother, .error e, rfl, hK.raise hc⟩
    | _ => cases hp
  abort := by
    rintro db p tx e habort ⟨hother, p₁, tx₁, -, -, hc⟩
    exact ⟨hother, .error e, rfl, hK.abort habort hc⟩

end Steps

end ReadCommitted
