import Tradinghub.Lib.Connections
import Tradinghub.Lib.Alone

/-!
# One request, stopped anywhere

`opened` is the state in which one request has just begun over any committed rows.  From there the
request moves, time passes, and the request may be given up wherever it is (`Action.of`).
`Run.attempt` is the rule for such runs: what is known of the request while it is open (`K`), and
of its answer and the rows it leaves (`A`).

`Prog.Quiet`: no commit inside.  A quiet request that fails leaves the rows as they were, alone
(`Attempt.quiet`) and among any others (`Run.changes`).  `Prog.Within` bounds what is left of a
program: the statements it may still send, the answers it may still give.  `Prog.Sends` is what a
service's own code gives for both.
-/

namespace ReadCommitted

variable {σ κ ω ς δ ε α β ρ : Type}

/-- Request `n` moves or is given up, or time passes. -/
def Action.of (n : Nat) : Action κ ε ρ → Bool
  | .start _ => false
  | .advance m => m = n
  | .lock m _ => m = n
  | .abort m _ => m = n
  | .tick _ => true

def Action.isAbort : Action κ ε ρ → Bool
  | .abort _ _ => true
  | _ => false

/-- A request has just begun, and nobody else is there. -/
def opened (code : Nat → ρ → Prog σ κ ς δ ε α) (w : World σ ρ ε α) (req : ρ) :
    Sys σ κ ω ς δ ε α ρ where
  world := w.start
  conns := Function.update (fun _ => none) w.started (some ⟨req, code w.started req, {}⟩)

section Attempts

variable [DecidableEq κ] {E : Engine σ κ ω ς δ} {code : Nat → ρ → Prog σ κ ς δ ε α}
  {ok : Sys σ κ ω ς δ ε α ρ → Action κ ε ρ → Prop} {s s' : Sys σ κ ω ς δ ε α ρ}

/-- What the steps of request `n` keep true while it is open (`K`), and what follows of its answer
(`A`).  `aborts`: it may be given up. -/
structure Attempt (E : Engine σ κ ω ς δ) (ρ : Type) (aborts : Prop) (n : Nat)
    (K : σ → Prog σ κ ς δ ε α → Tx κ ω ς → Prop) (A : σ → Except ε α → Prop) : Prop where
  own : ∀ {s : Sys σ κ ω ς δ ε α ρ} {c c' a}, Own E s n c a c' → (∀ k, c.prog ≠ .commit k) →
    K s.world.db c.prog c.tx → K s.world.db c'.prog c'.tx
  commit : ∀ {db k tx}, K db (.commit k) tx → K (E.view tx db) k {}
  ret : ∀ {db a tx}, K db (.ret a) tx → A (E.view tx db) (.ok a)
  raise : ∀ {db e tx}, K db (.raise e) tx → A db (.error e)
  abort : ∀ {db p tx e}, aborts → K db p tx → A db (.error e)

/-- The request is open, or has been answered once. -/
def Attempted (w : World σ ρ ε α) (req : ρ) (K : σ → Prog σ κ ς δ ε α → Tx κ ω ς → Prop)
    (A : σ → Except ε α → Prop) (s : Sys σ κ ω ς δ ε α ρ) : Prop :=
  (∃ c, s.Only w.started c ∧ c.req = req ∧ s.world.log = w.log ∧ K s.world.db c.prog c.tx) ∨
  (s.conns = (fun _ => none) ∧ ∃ r, s.world.log = (w.started, req, r) :: w.log ∧ A s.world.db r)

omit [DecidableEq κ] in
theorem Sys.Only.close {n : Nat} {c : Conn σ κ ω ς δ ε α ρ} (h : s.Only n c) (req : ρ)
    (r : Except ε α) (db : σ) : (s.close n req r db).conns = fun _ => none := by
  unfold Sys.close
  rw [h, Function.update_idem, Function.update_eq_self_iff.2 rfl]

omit [DecidableEq κ] in
theorem Sys.Only.eq {n m : Nat} {c d : Conn σ κ ω ς δ ε α ρ} (h : s.Only n c)
    (hd : s.conns m = some d) : m = n ∧ d = c := by
  by_cases hmn : m = n
  · subst hmn
    exact ⟨rfl, Option.some.inj (hd.symm.trans h.conn)⟩
  · rw [h, Function.update_of_ne hmn] at hd
    cases hd

theorem Run.attempt {w : World σ ρ ε α} {req : ρ} {K : σ → Prog σ κ ς δ ε α → Tx κ ω ς → Prop}
    {A : σ → Except ε α → Prop} (h : Run E code ok (opened code w req) s)
    (hok : ∀ s a, ok s a → a.of w.started = true) {aborts : Prop}
    (haborts : ∀ s m e, ok s (.abort m e) → aborts) (hK : Attempt E ρ aborts w.started K A)
    (hstart : K w.db (code w.started req) {}) : Attempted w req K A s := by
  induction h with
  | refl => exact Or.inl ⟨_, rfl, rfl, rfl, hstart⟩
  | @tail t u a _ ha hs ih =>
    have hof := hok _ _ ha
    rcases ih with ⟨c, honly, hreq, hlog, hc⟩ | ⟨hnone, r, hlog, hr⟩
    · have hclose : ∀ r db, A db r → Attempted w req K A (t.close w.started c.req r db) := by
        intro r db hA
        refine Or.inr ⟨honly.close _ _ _, r, ?_, hA⟩
        rw [Sys.close, World.answer, hlog, hreq]
      cases step_move hs with
      | start req' => cases hof
      | own hd hown hcommit =>
        obtain ⟨rfl, rfl⟩ := honly.eq hd
        have hc' := hK.own hown hcommit hc
        exact Or.inl ⟨_, honly.put, hown.req.trans hreq, hlog, hc'⟩
      | @commit m d k hd hprog =>
        obtain ⟨rfl, rfl⟩ := honly.eq hd
        rw [hprog] at hc
        exact Or.inl ⟨_, honly.put, hreq, hlog, hK.commit hc⟩
      | ret hd hprog =>
        obtain ⟨rfl, rfl⟩ := honly.eq hd
        rw [hprog] at hc
        exact hclose _ _ (hK.ret hc)
      | raise hd hprog =>
        obtain ⟨rfl, rfl⟩ := honly.eq hd
        rw [hprog] at hc
        exact hclose _ _ (hK.raise hc)
      | abort hd e =>
        obtain ⟨rfl, rfl⟩ := honly.eq hd
        exact hclose _ _ (hK.abort (haborts _ _ _ ha) hc)
      | tick d => exact Or.inl ⟨c, honly, hreq, hlog, hc⟩
    -- once it is answered, only time passes
    · have hno : ∀ m, t.conns m = none := fun m => congrFun hnone m
      cases step_move hs with
      | start req' => cases hof
      | tick d => exact Or.inr ⟨hnone, r, hlog, hr⟩
      | own hd => exact absurd ((hno _).symm.trans hd) (by simp)
      | commit hd => exact absurd ((hno _).symm.trans hd) (by simp)
      | ret hd => exact absurd ((hno _).symm.trans hd) (by simp)
      | raise hd => exact absurd ((hno _).symm.trans hd) (by simp)
      | abort hd => exact absurd ((hno _).symm.trans hd) (by simp)

omit [DecidableEq κ] in
theorem Attempted.answer {w : World σ ρ ε α} {req : ρ} {K : σ → Prog σ κ ς δ ε α → Tx κ ω ς → Prop}
    {A : σ → Except ε α → Prop} {r : Except ε α} (h : Attempted w req K A s)
    (hlog : s.world.log = (w.started, req, r) :: w.log) : A s.world.db r := by
  rcases h with ⟨c, -, -, hopen, -⟩ | ⟨-, r', hclosed, hA⟩
  · exact absurd (hlog.symm.trans hopen) (List.cons_ne_self _ _)
  · cases (List.cons.inj (hclosed.symm.trans hlog)).1
    exact hA

end Attempts

/-! ## Requests with no commit inside -/

/-- The only commit is the one at the end. -/
def Prog.Quiet : Prog σ κ ς δ ε α → Prop
  | .ret _ => True
  | .raise _ => True
  | .query k => ∀ db, (k db).Quiet
  | .clock k => ∀ now, (k now).Quiet
  | .exec _ k => ∀ r, (k r).Quiet
  | .scan _ _ _ k => ∀ r, (k r).Quiet
  | .commit _ => False

theorem Prog.Quiet.bind {p : Prog σ κ ς δ ε α} {f : α → Prog σ κ ς δ ε β} (hp : p.Quiet)
    (hf : ∀ a, (f a).Quiet) : (p >>= f).Quiet := by
  induction p with
  | ret a => exact hf a
  | raise e => trivial
  | query k ih => exact fun db => ih db (hp db)
  | clock k ih => exact fun now => ih now (hp now)
  | exec q k ih => exact fun r => ih r (hp r)
  | scan q todo hits k ih => exact fun r => ih r (hp r)
  | commit k => exact hp.elim

theorem Prog.Quiet.map {p : Prog σ κ ς δ ε α} (hp : p.Quiet) (f : α → β) :
    (p >>= fun a => .ret (f a)).Quiet :=
  hp.bind fun _ => trivial

theorem Prog.Ends.quiet {P : α → Prop} {p : Prog σ κ ς δ ε α} (h : p.Ends P) : p.Quiet := by
  cases p with
  | ret a => trivial
  | raise e => trivial
  | _ => exact h.elim

theorem Prog.Meets.quiet {C : Contract ς α} {p : Prog σ κ ς δ ε α} (h : p.Meets C) : p.Quiet := by
  induction p with
  | ret a => trivial
  | raise e => trivial
  | query k ih => exact fun db => ih db (h db)
  | clock k ih => exact fun now => ih now (h now)
  | exec q k ih =>
    obtain ⟨-, hok, herror⟩ := h
    intro r
    cases r with
    | ok r => exact (hok r).quiet
    | error d =>
      obtain ⟨e, he⟩ := herror d
      rw [he]
      trivial
  | scan q todo hits k => exact h.elim
  | commit k => exact h.elim

section Quiet

variable [DecidableEq κ] {E : Engine σ κ ω ς δ} {code : Nat → ρ → Prog σ κ ς δ ε α}
  {ok : Sys σ κ ω ς δ ε α ρ → Action κ ε ρ → Prop} {s s' : Sys σ κ ω ς δ ε α ρ}

theorem Own.quiet {n : Nat} {c c' : Conn σ κ ω ς δ ε α ρ} {a : Action κ ε ρ} (h : Own E s n c a c')
    (hc : c.prog.Quiet) : c'.prog.Quiet := by
  obtain ⟨req, prog, tx⟩ := c
  cases h with
  | query hprog | clock hprog | refused hprog hfinish | done hprog hfinish =>
    obtain rfl : prog = _ := hprog
    exact hc _
  | commit hprog =>
    obtain rfl : prog = _ := hprog
    exact hc.elim
  | exec hprog | skip hprog | take hprog =>
    obtain rfl : prog = _ := hprog
    exact hc

/-- While a quiet request is open the committed rows are those it found. -/
theorem Attempt.quiet (E : Engine σ κ ω ς δ) (ρ : Type) (aborts : Prop) (n : Nat) (db₀ : σ) :
    Attempt E ρ aborts n (fun db (p : Prog σ κ ς δ ε α) _ => db = db₀ ∧ p.Quiet)
      fun db r => ∀ e, r = .error e → db = db₀ where
  own hown _ hc := ⟨hc.1, hown.quiet hc.2⟩
  commit hc := hc.2.elim
  ret _ _ hr := by cases hr
  raise hc _ _ := hc.1
  abort _ hc _ _ := hc.1

/-- Among any others too: the rows change when a request is answered without an error, or when one
that is not quiet moves. -/
theorem Run.changes {s₀ : Sys σ κ ω ς δ ε α ρ} {loud : ρ → Prop} {a : Action κ ε ρ}
    (h : Run E code ok s₀ s) (h₀ : ∀ n, s₀.conns n = none)
    (hquiet : ∀ n req, ¬ loud req → (code n req).Quiet) (hs : step E code s a = some s') :
    s'.world.db = s.world.db ∨
    (∃ n c x, s.conns n = some c ∧ s'.world.log = (n, c.req, .ok x) :: s.world.log) ∨
    ∃ n c, a = .advance n ∧ s.conns n = some c ∧ loud c.req := by
  have hfollows : Follows E code ok s₀ fun _ _ c => ¬ loud c.req → c.prog.Quiet :=
    ⟨fun _ _ _ hreq => hquiet _ _ hreq,
      fun _ _ _ _ hown hc hreq => hown.quiet (hc (hown.req ▸ hreq)), fun _ _ _ _ _ hc => hc⟩
  have hconns := h.conns hfollows fun n c hc => absurd ((h₀ n).symm.trans hc) (by simp)
  cases step_move hs with
  | @commit n c k hc hprog =>
    refine Or.inr (Or.inr ⟨n, c, rfl, hc, ?_⟩)
    by_contra hreq
    have hno := hconns n c hc hreq
    rw [hprog] at hno
    exact hno
  | ret hc hprog => exact Or.inr (Or.inl ⟨_, _, _, hc, rfl⟩)
  | _ => exact Or.inl rfl

end Quiet

/-! ## What a program may still do -/

/-- Every statement it may send satisfies `P`, every answer it may give `Q`. -/
def Prog.Within (P : ς → Prop) (Q : α → Prop) : Prog σ κ ς δ ε α → Prop
  | .ret a => Q a
  | .raise _ => True
  | .query k => ∀ db, (k db).Within P Q
  | .clock k => ∀ now, (k now).Within P Q
  | .exec q k => P q ∧ ∀ r, (k r).Within P Q
  | .scan q _ _ k => P q ∧ ∀ r, (k r).Within P Q
  | .commit k => k.Within P Q

section Within

variable {P : ς → Prop} {Q : α → Prop}

theorem Prog.Within.bind {R : β → Prop} {p : Prog σ κ ς δ ε α} {f : α → Prog σ κ ς δ ε β}
    (hp : p.Within P Q) (hf : ∀ a, Q a → (f a).Within P R) : (p >>= f).Within P R := by
  induction p with
  | ret a => exact hf a hp
  | raise e => trivial
  | query k ih => exact fun db => ih db (hp db)
  | clock k ih => exact fun now => ih now (hp now)
  | exec q k ih => exact ⟨hp.1, fun r => ih r (hp.2 r)⟩
  | scan q todo hits k ih => exact ⟨hp.1, fun r => ih r (hp.2 r)⟩
  | commit k ih => exact ih hp

/-- Sends only such statements; there is no commit inside, and no statement is under way. -/
def Prog.Sends (P : ς → Prop) : Prog σ κ ς δ ε α → Prop
  | .ret _ => True
  | .raise _ => True
  | .query k => ∀ db, (k db).Sends P
  | .clock k => ∀ now, (k now).Sends P
  | .exec q k => P q ∧ ∀ r, (k r).Sends P
  | .scan _ _ _ _ => False
  | .commit _ => False

theorem Prog.Sends.bind {p : Prog σ κ ς δ ε α} {f : α → Prog σ κ ς δ ε β} (hp : p.Sends P)
    (hf : ∀ a, (f a).Sends P) : (p >>= f).Sends P := by
  induction p with
  | ret a => exact hf a
  | raise e => trivial
  | query k ih => exact fun db => ih db (hp db)
  | clock k ih => exact fun now => ih now (hp now)
  | exec q k ih => exact ⟨hp.1, fun r => ih r (hp.2 r)⟩
  | scan q todo hits k => exact hp.elim
  | commit k => exact hp.elim

theorem Prog.Sends.quiet {p : Prog σ κ ς δ ε α} (hp : p.Sends P) : p.Quiet := by
  induction p with
  | ret a => trivial
  | raise e => trivial
  | query k ih => exact fun db => ih db (hp db)
  | clock k ih => exact fun now => ih now (hp now)
  | exec q k ih => exact fun r => ih r (hp.2 r)
  | scan q todo hits k => exact hp.elim
  | commit k => exact hp.elim

theorem Prog.Sends.within {p : Prog σ κ ς δ ε α} (hp : p.Sends P) : p.Within P fun _ => True := by
  induction p with
  | ret a => trivial
  | raise e => trivial
  | query k ih => exact fun db => ih db (hp db)
  | clock k ih => exact fun now => ih now (hp now)
  | exec q k ih => exact ⟨hp.1, fun r => ih r (hp.2 r)⟩
  | scan q todo hits k => exact hp.elim
  | commit k => exact hp.elim

variable [DecidableEq κ] {E : Engine σ κ ω ς δ} {s : Sys σ κ ω ς δ ε α ρ} {n : Nat}
  {c c' : Conn σ κ ω ς δ ε α ρ} {a : Action κ ε ρ}

theorem Own.within (h : Own E s n c a c') (hplan : ∀ q db, P q → P (E.plan q db).1)
    (hc : c.prog.Within P Q) : c'.prog.Within P Q := by
  obtain ⟨req, prog, tx⟩ := c
  cases h with
  | query hprog | clock hprog =>
    obtain rfl : prog = _ := hprog
    exact hc _
  | refused hprog hfinish | done hprog hfinish =>
    obtain rfl : prog = _ := hprog
    exact hc.2 _
  | exec hprog =>
    obtain rfl : prog = _ := hprog
    exact ⟨hplan _ _ hc.1, hc.2⟩
  | commit hprog | skip hprog | take hprog =>
    obtain rfl : prog = _ := hprog
    exact hc

/-- What it begins it was allowed to send. -/
theorem Own.begins (h : Own E s n c a c') (hc : c.prog.Within P Q) {x : ς × List κ}
    (hx : x ∈ c'.tx.begun) : x ∈ c.tx.begun ∨ P x.1 := by
  obtain ⟨req, prog, tx⟩ := c
  cases h with
  | exec hprog =>
    obtain rfl : prog = _ := hprog
    rcases List.mem_cons.1 hx with rfl | hx
    · exact Or.inr hc.1
    · exact Or.inl hx
  | commit hprog => cases hx
  | _ => exact Or.inl hx

/-- What it writes is what such statements write. -/
theorem Own.writes {W : ω → Prop} (h : Own E s n c a c') (hc : c.prog.Within P Q)
    (hact : ∀ q key db ws, P q → E.act q key db = some ws → ∀ w ∈ ws, W w)
    (hfinish : ∀ q hits db ws, P q → E.finish q hits db = .ok ws → ∀ w ∈ ws, W w)
    (hw : ∀ w ∈ c.tx.writes, W w) : ∀ w ∈ c'.tx.writes, W w := by
  obtain ⟨req, prog, tx⟩ := c
  intro w hmem
  cases h with
  | done hprog hfin =>
    obtain rfl : prog = _ := hprog
    rcases List.mem_append.1 hmem with hmem | hmem
    · exact hw w hmem
    · exact hfinish _ _ _ _ hc.1 hfin w hmem
  | take hprog hkey hfree htake =>
    obtain rfl : prog = _ := hprog
    rcases List.mem_append.1 hmem with hmem | hmem
    · exact hw w hmem
    · exact hact _ _ _ _ hc.1 htake w hmem
  | commit hprog => cases hmem
  | _ => exact hw w hmem

end Within

end ReadCommitted
