import Tradinghub.Lib.ReadCommitted

/-!
# One request followed through a run

What a step (`step_move`) does to one open request (`step_conn`: its own next statement, `Own`, or
nothing; `step_open`) and to the answers (`step_log`).  From these, two rules
over whole runs: `Run.conns` for a fact about every open request, which may speak of the states the
run has been in, and `Run.answers` for a fact about every answer given.  `Run.stored` is the rule
for what every write keeps true of the rows.

Most requests read, then send at most one writing statement.  A `Contract` says what such a request
sends and answers, `Prog.Meets` is checked on its program once, and `Stage` is what then holds of
it in every state of every run (`Own.stage`).
-/

namespace ReadCommitted

variable {σ κ ω ς δ ε α ρ : Type}

/-- The step that answers request `n`. -/
inductive Answers (n : Nat) (c : Conn σ κ ω ς δ ε α ρ) : Action κ ε ρ → Except ε α → Prop
  | ret {a} (hprog : c.prog = .ret a) : Answers n c (.advance n) (.ok a)
  | raise {e} (hprog : c.prog = .raise e) : Answers n c (.advance n) (.error e)
  | abort (e : ε) : Answers n c (.abort n e) (.error e)

/-- The open request that moves. -/
def Action.mover : Action κ ε ρ → Option Nat
  | .start _ => none
  | .advance n => some n
  | .lock n _ => some n
  | .abort n _ => some n
  | .tick _ => none

section Steps

variable [DecidableEq κ] {E : Engine σ κ ω ς δ} {code : Nat → ρ → Prog σ κ ς δ ε α}
  {s s' : Sys σ κ ω ς δ ε α ρ} {a : Action κ ε ρ} {n : Nat}

theorem Own.req {c c' : Conn σ κ ω ς δ ε α ρ} (h : Own E s n c a c') : c'.req = c.req := by
  cases h <;> rfl

theorem Own.mover {c c' : Conn σ κ ω ς δ ε α ρ} (h : Own E s n c a c') : a.mover = some n := by
  cases h <;> rfl

/-- Where an open request comes from. -/
theorem step_conn (hs : step E code s a = some s') {c' : Conn σ κ ω ς δ ε α ρ}
    (hc' : s'.conns n = some c') :
    (s.conns n = some c' ∧ a.mover ≠ some n) ∨
    (∃ req, a = .start req ∧ n = s.world.started ∧ c' = ⟨req, code n req, {}⟩) ∨
    ∃ c, s.conns n = some c ∧ Own E s n c a c' := by
  -- the step of request `m` leaves every other request alone
  have hput : ∀ {m : Nat} {c d : Conn σ κ ω ς δ ε α ρ}, s.conns m = some c → Own E s m c a d →
      Function.update s.conns m (some d) n = some c' →
      (s.conns n = some c' ∧ a.mover ≠ some n) ∨
      (∃ req, a = .start req ∧ n = s.world.started ∧ c' = ⟨req, code n req, {}⟩) ∨
      ∃ c, s.conns n = some c ∧ Own E s n c a c' := by
    intro m c d hc hown hn
    rcases of_update_some hn with ⟨rfl, rfl⟩ | ⟨hne, hold⟩
    · exact Or.inr (Or.inr ⟨c, hc, hown⟩)
    · refine Or.inl ⟨hold, ?_⟩
      rw [hown.mover]
      exact fun heq => hne (Option.some.inj heq).symm
  have hgone : ∀ {m : Nat}, a.mover = some m → Function.update s.conns m none n = some c' →
      s.conns n = some c' ∧ a.mover ≠ some n := by
    intro m hm hn
    obtain ⟨hne, hold⟩ := of_update_none hn
    rw [hm]
    exact ⟨hold, fun heq => hne (Option.some.inj heq).symm⟩
  cases step_move hs with
  | start req =>
    rcases of_update_some hc' with ⟨rfl, rfl⟩ | ⟨-, hold⟩
    · exact Or.inr (Or.inl ⟨req, rfl, rfl, rfl⟩)
    · exact Or.inl ⟨hold, fun heq => by cases heq⟩
  | own hc h _ => exact hput hc h hc'
  | commit hc hprog => exact hput hc (.commit hprog) hc'
  | ret => exact Or.inl (hgone rfl hc')
  | raise => exact Or.inl (hgone rfl hc')
  | abort => exact Or.inl (hgone rfl hc')
  | tick => exact Or.inl ⟨hc', fun heq => by cases heq⟩

/-- Where an answer comes from. -/
theorem step_log (hs : step E code s a = some s') {n : Nat} {req : ρ} {r : Except ε α}
    (he : (n, req, r) ∈ s'.world.log) :
    (n, req, r) ∈ s.world.log ∨ ∃ c, s.conns n = some c ∧ c.req = req ∧ Answers n c a r := by
  have hanswer : ∀ {m : Nat} {c : Conn σ κ ω ς δ ε α ρ} {r' : Except ε α}, s.conns m = some c →
      Answers m c a r' → (n, req, r) ∈ (m, c.req, r') :: s.world.log →
      (n, req, r) ∈ s.world.log ∨ ∃ c, s.conns n = some c ∧ c.req = req ∧ Answers n c a r := by
    intro m c r' hc ha he
    rcases List.mem_cons.1 he with heq | he
    · cases heq
      exact Or.inr ⟨c, hc, rfl, ha⟩
    · exact Or.inl he
  cases step_move hs with
  | ret hc hprog => exact hanswer hc (.ret hprog) he
  | raise hc hprog => exact hanswer hc (.raise hprog) he
  | abort hc e => exact hanswer hc (.abort e) he
  | _ => exact Or.inl he

theorem step_start_world {req : ρ} (hs : step E code s (.start req) = some s') :
    s'.world = s.world.start := by
  simp only [step, Option.some.injEq] at hs
  rw [← hs]

/-- Time does not go back. -/
theorem step_clock_le (hs : step E code s a = some s') : s.world.clock ≤ s'.world.clock := by
  cases step_move hs with
  | start req => exact Int.le_refl _
  | own hc h _ => exact Int.le_refl _
  | commit hc hprog => exact Int.le_refl _
  | ret hc hprog => exact Int.le_refl _
  | raise hc hprog => exact Int.le_refl _
  | abort hc e => exact Int.le_refl _
  | tick d => exact Int.le_add_of_nonneg_right (Int.natCast_nonneg d)

/-- A request that goes on without a commit leaves the world alone. -/
theorem Own.world {c c' : Conn σ κ ω ς δ ε α ρ} (h : Own E s n c a c')
    (hs : step E code s a = some s') (hc : s.conns n = some c) (hcommit : ∀ k, c.prog ≠ .commit k) :
    s'.world = s.world := by
  have same : ∀ {m : Nat} {d : Conn σ κ ω ς δ ε α ρ}, a = .advance m → s.conns m = some d →
      d = c := by
    rintro m d rfl hd
    have hmn : m = n := by cases h <;> rfl
    subst hmn
    exact Option.some.inj (hd.symm.trans hc)
  cases step_move hs with
  | start => cases h
  | own => rfl
  | commit hd hprog =>
    obtain rfl := same rfl hd
    exact absurd hprog (hcommit _)
  | ret hd hp | raise hd hp =>
    obtain rfl := same rfl hd
    cases h with
    | _ hprog => exact absurd (hp.symm.trans hprog) (by simp)
  | abort => cases h
  | tick => cases h

/-- An open request is open afterwards, or has been answered. -/
theorem step_open (hs : step E code s a = some s') (hlt : n < s.world.started)
    {c : Conn σ κ ω ς δ ε α ρ} (hc : s.conns n = some c) :
    (∃ c', s'.conns n = some c' ∧ c'.req = c.req) ∨
      ∃ r, (n, c.req, r) ∈ s'.world.log ∧ Answers n c a r := by
  have hput : ∀ {m : Nat} {d d' : Conn σ κ ω ς δ ε α ρ}, s.conns m = some d → d'.req = d.req →
      ∃ c', Function.update s.conns m (some d') n = some c' ∧ c'.req = c.req := by
    intro m d d' hd hreq
    by_cases hnm : n = m
    · subst hnm
      obtain rfl := Option.some.inj (hd.symm.trans hc)
      exact ⟨d', Function.update_self .., hreq⟩
    · exact ⟨c, (Function.update_of_ne hnm ..).trans hc, rfl⟩
  have hclose : ∀ {m : Nat} {d : Conn σ κ ω ς δ ε α ρ} {r : Except ε α}, s.conns m = some d →
      Answers m d a r → (∃ c', Function.update s.conns m none n = some c' ∧ c'.req = c.req) ∨
        ∃ r', (n, c.req, r') ∈ (m, d.req, r) :: s.world.log ∧ Answers n c a r' := by
    intro m d r hd ha
    by_cases hnm : n = m
    · subst hnm
      obtain rfl := Option.some.inj (hd.symm.trans hc)
      exact Or.inr ⟨r, List.mem_cons_self, ha⟩
    · exact Or.inl ⟨c, (Function.update_of_ne hnm ..).trans hc, rfl⟩
  cases step_move hs with
  | start req =>
    have hn : n ≠ s.world.started := by omega
    exact Or.inl ⟨c, (Function.update_of_ne hn ..).trans hc, rfl⟩
  | own hd h _ => exact Or.inl (hput hd h.req)
  | commit hd hprog => exact Or.inl (hput hd rfl)
  | ret hd hprog => exact hclose hd (.ret hprog)
  | raise hd hprog => exact hclose hd (.raise hprog)
  | abort hd e => exact hclose hd (.abort e)
  | tick => exact Or.inl ⟨c, hc, rfl⟩

theorem step_started_le (hs : step E code s a = some s') :
    s.world.started ≤ s'.world.started := by
  cases step_move hs with
  | start => exact Nat.le_succ _
  | _ => exact Nat.le_refl _

/-- Request `n` asks for `req`, or asked for it and was answered. -/
def Sys.Asked (s : Sys σ κ ω ς δ ε α ρ) (n : Nat) (req : ρ) : Prop :=
  (∃ c, s.conns n = some c ∧ c.req = req) ∨ ∃ r, (n, req, r) ∈ s.world.log

theorem step_asked (hs : step E code s a = some s') {req : ρ} (h : s'.Asked n req) :
    s.Asked n req ∨ (a = .start req ∧ n = s.world.started) := by
  rcases h with ⟨c', hc', rfl⟩ | ⟨r, he⟩
  · rcases step_conn hs hc' with ⟨hc, -⟩ | ⟨req, ha, hn, rfl⟩ | ⟨c, hc, hown⟩
    · exact Or.inl (Or.inl ⟨c', hc, rfl⟩)
    · exact Or.inr ⟨ha, hn⟩
    · exact Or.inl (Or.inl ⟨c, hc, hown.req.symm⟩)
  · rcases step_log hs he with he | ⟨c, hc, hreq, -⟩
    · exact Or.inl (Or.inr ⟨r, he⟩)
    · exact Or.inl (Or.inl ⟨c, hc, hreq⟩)

end Steps

section Rules

variable [DecidableEq κ] {E : Engine σ κ ω ς δ} {code : Nat → ρ → Prog σ κ ς δ ε α}
  {ok : Sys σ κ ω ς δ ε α ρ → Action κ ε ρ → Prop} {s₀ s : Sys σ κ ω ς δ ε α ρ}

/-- A fact about every open request, in the state the run has come to. -/
structure Follows (E : Engine σ κ ω ς δ) (code : Nat → ρ → Prog σ κ ς δ ε α)
    (ok : Sys σ κ ω ς δ ε α ρ → Action κ ε ρ → Prop) (s₀ : Sys σ κ ω ς δ ε α ρ)
    (K : Sys σ κ ω ς δ ε α ρ → Nat → Conn σ κ ω ς δ ε α ρ → Prop) : Prop where
  start : ∀ {s s' req}, Run E code ok s₀ s → ok s (.start req) →
    step E code s (.start req) = some s' →
    K s' s.world.started ⟨req, code s.world.started req, {}⟩
  own : ∀ {s s' a n c c'}, Run E code ok s₀ s → ok s a → step E code s a = some s' →
    s.conns n = some c → Own E s n c a c' → K s n c → K s' n c'
  others : ∀ {s s' a n c}, Run E code ok s₀ s → ok s a → step E code s a = some s' →
    s.conns n = some c → s'.conns n = some c → K s n c → K s' n c

theorem Run.conns {K : Sys σ κ ω ς δ ε α ρ → Nat → Conn σ κ ω ς δ ε α ρ → Prop}
    (h : Run E code ok s₀ s) (hK : Follows E code ok s₀ K)
    (h₀ : ∀ n c, s₀.conns n = some c → K s₀ n c) : ∀ n c, s.conns n = some c → K s n c := by
  induction h with
  | refl => exact h₀
  | tail hr hok hs ih =>
    intro n c' hc'
    rcases step_conn hs hc' with ⟨hc, -⟩ | ⟨req, rfl, rfl, rfl⟩ | ⟨c, hc, hown⟩
    · exact hK.others hr hok hs hc hc' (ih n c' hc)
    · exact hK.start hr hok hs
    · exact hK.own hr hok hs hc hown (ih n c hc)

/-- A fact about every answer, from what is known of the request that gives it. -/
theorem Run.answers {K : Sys σ κ ω ς δ ε α ρ → Nat → Conn σ κ ω ς δ ε α ρ → Prop}
    {A : Sys σ κ ω ς δ ε α ρ → Nat → ρ → Except ε α → Prop} (h : Run E code ok s₀ s)
    (hK : Follows E code ok s₀ K) (h₀ : ∀ n c, s₀.conns n = some c → K s₀ n c)
    (hlog : ∀ n req r, (n, req, r) ∈ s₀.world.log → A s₀ n req r)
    (hanswer : ∀ {s s' a n c r}, Run E code ok s₀ s → ok s a → step E code s a = some s' →
      s.conns n = some c → K s n c → Answers n c a r → A s' n c.req r)
    (hkeep : ∀ {s s' a n req r}, Run E code ok s₀ s → ok s a → step E code s a = some s' →
      A s n req r → A s' n req r) :
    ∀ n req r, (n, req, r) ∈ s.world.log → A s n req r := by
  induction h with
  | refl => exact hlog
  | tail hr hok hs ih =>
    intro n req r he
    rcases step_log hs he with he | ⟨c, hc, rfl, ha⟩
    · exact hkeep hr hok hs (ih n req r he)
    · exact hanswer hr hok hs hc (hr.conns hK h₀ n c hc) ha

/-- What every write of every statement keeps true of the rows is true of them in every state. -/
theorem Run.stored {P : ω → Prop} {J : σ → Prop} (h : Run E code ok s₀ s)
    (hwrite : ∀ w db, P w → J db → J (E.apply w db))
    (hact : ∀ q key db ws, E.act q key db = some ws → ∀ w ∈ ws, P w)
    (hfinish : ∀ q hits db ws, E.finish q hits db = .ok ws → ∀ w ∈ ws, P w)
    (hconns : ∀ n c, s₀.conns n = some c → ∀ w ∈ c.tx.writes, P w) (h₀ : J s₀.world.db) :
    J s.world.db := by
  have happly : ∀ ws db, (∀ w ∈ ws, P w) → J db → J (E.applyAll ws db) := by
    intro ws
    induction ws with
    | nil => exact fun db _ hdb => hdb
    | cons w ws ih =>
      intro db hws hdb
      exact ih _ (fun w' hw' => hws w' (List.mem_cons_of_mem _ hw'))
        (hwrite w db (hws w List.mem_cons_self) hdb)
  have hfollows : Follows E code ok s₀ fun _ _ c => ∀ w ∈ c.tx.writes, P w := by
    refine ⟨fun _ _ _ w hw => absurd hw List.not_mem_nil, fun _ _ _ _ hown hc w hw => ?_,
      fun _ _ _ _ _ hc => hc⟩
    cases hown with
    | done hprog hf =>
      rcases List.mem_append.1 hw with hw | hw
      · exact hc w hw
      · exact hfinish _ _ _ _ hf w hw
    | take hprog hkey hfree ha =>
      rcases List.mem_append.1 hw with hw | hw
      · exact hc w hw
      · exact hact _ _ _ _ ha w hw
    | commit => cases hw
    | _ => exact hc w hw
  induction h with
  | refl => exact h₀
  | tail hr _ hs ih =>
    rcases step_cases E code hs with ⟨hdb, -⟩ | ⟨_, _, _, _, hdb, -⟩ | ⟨n, c, -, hc, -, hdb, -⟩
    · rw [hdb]
      exact ih
    · rw [hdb]
      exact ih
    · rw [hdb]
      exact happly _ _ (hr.conns hfollows hconns n c hc) ih

end Rules

/-! ## Requests that read, then write at most once -/

/-- The statement that begins or is under way. -/
def Prog.statement : Prog σ κ ς δ ε α → Option ς
  | .exec q _ => some q
  | .scan q _ _ _ => some q
  | _ => none

/-- What a request sends, what it answers without a statement, and what after one. -/
structure Contract (ς α : Type) where
  sends : ς → Prop := fun _ => True
  answers : α → Prop := fun _ => True
  replies : ς → α → Prop := fun _ _ => True

/-- Ends with an error, or with an answer as asked for. -/
def Prog.Ends (P : α → Prop) : Prog σ κ ς δ ε α → Prop
  | .ret a => P a
  | .raise _ => True
  | _ => False

/-- Reads, then sends at most one statement, whose refusal it reports. -/
def Prog.Meets (C : Contract ς α) : Prog σ κ ς δ ε α → Prop
  | .ret a => C.answers a
  | .raise _ => True
  | .query k => ∀ db, (k db).Meets C
  | .clock k => ∀ now, (k now).Meets C
  | .exec q k => C.sends q ∧ (∀ r, (k (.ok r)).Ends (C.replies q)) ∧ ∀ d, ∃ e, k (.error d) = .raise e
  | .scan _ _ _ _ => False
  | .commit _ => False

/-- Where the request is, and what it has written. -/
inductive Stage (E : Engine σ κ ω ς δ) (C : Contract ς α) : Prog σ κ ς δ ε α → List ω → Prop
  | reading {p} (h : p.Meets C) : Stage E C p []
  | scanning {q todo hits k} (hq : C.sends q) (hok : ∀ r, (k (.ok r)).Ends (C.replies q))
      (herror : ∀ d, ∃ e, k (.error d) = .raise e) : Stage E C (.scan q todo hits k) []
  | written {p q hits db ws} (hq : C.sends q) (hfinish : E.finish q hits db = .ok ws)
      (h : p.Ends (C.replies q)) : Stage E C p ws

section Stages

variable {E : Engine σ κ ω ς δ} {C : Contract ς α} {p : Prog σ κ ς δ ε α} {ws : List ω}

theorem Prog.Ends.imp {P Q : α → Prop} (h : p.Ends P) (hPQ : ∀ a, P a → Q a) : p.Ends Q := by
  cases p with
  | ret a => exact hPQ a h
  | raise e => trivial
  | _ => exact h.elim

/-- A request that has written is at its end. -/
theorem Stage.cases_of_ne (h : Stage E C p ws) (hws : ws ≠ []) :
    ∃ q hits db, C.sends q ∧ E.finish q hits db = .ok ws ∧ p.Ends (C.replies q) := by
  cases h with
  | reading => exact absurd rfl hws
  | scanning => exact absurd rfl hws
  | written hq hfinish h => exact ⟨_, _, _, hq, hfinish, h⟩

theorem Stage.not_commit {k : Prog σ κ ς δ ε α} (h : Stage E C (.commit k) ws) : False := by
  cases h with
  | reading h => exact h
  | written hq hfinish h => exact h

theorem Stage.query {k : σ → Prog σ κ ς δ ε α} (h : Stage E C (.query k) ws) :
    ws = [] ∧ ∀ db, (k db).Meets C := by
  cases h with
  | reading h => exact ⟨rfl, h⟩
  | written _ _ h => exact h.elim

theorem Stage.clock {k : Int → Prog σ κ ς δ ε α} (h : Stage E C (.clock k) ws) :
    ws = [] ∧ ∀ now, (k now).Meets C := by
  cases h with
  | reading h => exact ⟨rfl, h⟩
  | written _ _ h => exact h.elim

theorem Stage.exec {q : ς} {k : Except δ (List κ × σ) → Prog σ κ ς δ ε α}
    (h : Stage E C (.exec q k) ws) : ws = [] ∧ (Prog.exec q k).Meets C := by
  cases h with
  | reading h => exact ⟨rfl, h⟩
  | written _ _ h => exact h.elim

theorem Stage.scan {q : ς} {todo hits : List κ} {k : Except δ (List κ × σ) → Prog σ κ ς δ ε α}
    (h : Stage E C (.scan q todo hits k) ws) : ws = [] ∧ (Prog.exec q k).Meets C := by
  cases h with
  | reading h => exact h.elim
  | scanning hq hok herror => exact ⟨rfl, hq, hok, herror⟩
  | written _ _ h => exact h.elim

/-- The rows a request sees until it has written are the committed rows. -/
theorem Stage.view {tx : Tx κ ω ς} (h : Stage E C p tx.writes) (hp : p.statement ≠ none)
    (db : σ) : E.view tx db = db := by
  have hnil : tx.writes = [] := by
    by_contra hne
    obtain ⟨_, _, _, _, _, hends⟩ := h.cases_of_ne hne
    cases p with
    | exec => exact hends
    | scan => exact hends
    | _ => exact hp rfl
  rw [Engine.view, hnil, Engine.applyAll_nil]

/-- One step of the request's own.  Taking a row must write nothing by itself. -/
theorem Own.stage [DecidableEq κ] {s : Sys σ κ ω ς δ ε α ρ} {n : Nat} {c c' : Conn σ κ ω ς δ ε α ρ}
    {a : Action κ ε ρ} (h : Own E s n c a c')
    (hplan : ∀ q db, C.sends q → C.sends (E.plan q db).1 ∧
      ∀ a, C.replies q a → C.replies (E.plan q db).1 a)
    (hact : ∀ q key db ws, E.act q key db = some ws → ws = [])
    (hc : Stage E C c.prog c.tx.writes) : Stage E C c'.prog c'.tx.writes := by
  obtain ⟨req, prog, tx⟩ := c
  cases h with
  | query hprog =>
    obtain rfl : prog = _ := hprog
    obtain ⟨hws, hmeets⟩ := hc.query
    exact hws ▸ .reading (hmeets _)
  | clock hprog =>
    obtain rfl : prog = _ := hprog
    obtain ⟨hws, hmeets⟩ := hc.clock
    exact hws ▸ .reading (hmeets _)
  | @exec q k hprog =>
    obtain rfl : prog = _ := hprog
    obtain ⟨hws, hq, hok, herror⟩ := hc.exec
    obtain ⟨hq', hreplies⟩ := hplan q (E.view tx s.world.db) hq
    exact hws ▸ .scanning hq' (fun r => (hok r).imp hreplies) herror
  | refused hprog hfinish =>
    obtain rfl : prog = _ := hprog
    obtain ⟨hws, -, -, herror⟩ := hc.scan
    obtain ⟨e, he⟩ := herror _
    exact hws ▸ .reading (he ▸ trivial)
  | done hprog hfinish =>
    obtain rfl : prog = _ := hprog
    obtain ⟨hws, hq, hok, -⟩ := hc.scan
    rw [Tx.write_writes, hws, List.nil_append]
    exact .written hq hfinish (hok _)
  | commit hprog =>
    obtain rfl : prog = _ := hprog
    exact hc.not_commit.elim
  | skip hprog =>
    obtain rfl : prog = _ := hprog
    obtain ⟨hws, hq, hok, herror⟩ := hc.scan
    exact hws ▸ .scanning hq hok herror
  | take hprog _ _ htake =>
    obtain rfl : prog = _ := hprog
    obtain ⟨hws, hq, hok, herror⟩ := hc.scan
    rw [Tx.hold_writes, hact _ _ _ _ htake, hws]
    exact .scanning hq hok herror

/-- A row that a statement has taken, it had taken before or takes now. -/
theorem Own.taken [DecidableEq κ] {s : Sys σ κ ω ς δ ε α ρ} {n : Nat} {c c' : Conn σ κ ω ς δ ε α ρ}
    {a : Action κ ε ρ} (h : Own E s n c a c') (hc : Stage E C c.prog c.tx.writes) {q : ς}
    {todo hits : List κ} {k : Except δ (List κ × σ) → Prog σ κ ς δ ε α} {key : κ}
    (hp : c'.prog = .scan q todo hits k) (hkey : key ∈ hits) :
    (∃ todo' hits', c.prog = .scan q todo' hits' k ∧ key ∈ hits') ∨
    (a = .lock n key ∧ c.prog.statement = some q ∧ key ∈ c'.tx.locks ∧
      (E.act q key (E.view c.tx s.world.db)).isSome = true) := by
  obtain ⟨req, prog, tx⟩ := c
  have hnot : ∀ {p : Prog σ κ ς δ ε α}, p.Meets C → p ≠ .scan q todo hits k := by
    rintro _ hmeets rfl
    exact hmeets
  cases h with
  | query hprog =>
    obtain rfl : prog = _ := hprog
    exact absurd hp (hnot (hc.query.2 _))
  | clock hprog =>
    obtain rfl : prog = _ := hprog
    exact absurd hp (hnot (hc.clock.2 _))
  | exec hprog =>
    cases hp
    cases hkey
  | refused hprog hfinish =>
    obtain rfl : prog = _ := hprog
    obtain ⟨-, -, -, herror⟩ := hc.scan
    obtain ⟨e, he⟩ := herror _
    exact absurd (he.symm.trans hp) (by simp)
  | @done q' hits' k' ws hprog hfinish =>
    obtain rfl : prog = _ := hprog
    obtain ⟨-, -, hok, -⟩ := hc.scan
    have hends : (k' (.ok (hits', E.view (tx.write ws) s.world.db))).Ends (C.replies q') := hok _
    have hp' : k' (.ok (hits', E.view (tx.write ws) s.world.db)) = .scan q todo hits k := hp
    rw [hp'] at hends
    exact hends.elim
  | commit hprog =>
    obtain rfl : prog = _ := hprog
    exact hc.not_commit.elim
  | skip hprog =>
    cases hp
    exact Or.inl ⟨_, hits, hprog, hkey⟩
  | @take q' todo' hits' k' key' ws hprog hmem hfree htake =>
    cases hp
    rcases List.mem_append.1 hkey with hkey | hkey
    · exact Or.inl ⟨todo', hits', hprog, hkey⟩
    · obtain rfl := List.mem_singleton.1 hkey
      refine Or.inr ⟨rfl, ?_, List.mem_cons_self, Option.isSome_iff_exists.2 ⟨ws, htake⟩⟩
      rw [hprog]
      rfl

/-- A write that is there was there before or comes from the statement that ends now. -/
theorem Own.wrote [DecidableEq κ] {s : Sys σ κ ω ς δ ε α ρ} {n : Nat} {c c' : Conn σ κ ω ς δ ε α ρ}
    {a : Action κ ε ρ} (h : Own E s n c a c')
    (hact : ∀ q key db ws, E.act q key db = some ws → ws = []) {w : ω} (hw : w ∈ c'.tx.writes) :
    w ∈ c.tx.writes ∨ ∃ q hits k db ws, c.prog = .scan q [] hits k ∧
      E.finish q hits db = .ok ws ∧ w ∈ ws := by
  cases h with
  | done hprog hfinish =>
    rcases List.mem_append.1 hw with hw | hw
    · exact Or.inl hw
    · exact Or.inr ⟨_, _, _, _, _, hprog, hfinish, hw⟩
  | take hprog _ _ htake =>
    rw [Tx.hold_writes, hact _ _ _ _ htake, List.append_nil] at hw
    exact Or.inl hw
  | commit => cases hw
  | _ => exact Or.inl hw

theorem Own.locks [DecidableEq κ] {s : Sys σ κ ω ς δ ε α ρ} {n : Nat} {c c' : Conn σ κ ω ς δ ε α ρ}
    {a : Action κ ε ρ} (h : Own E s n c a c') (hc : Stage E C c.prog c.tx.writes) {key : κ}
    (hkey : key ∈ c.tx.locks) : key ∈ c'.tx.locks := by
  cases h with
  | take => exact List.mem_cons_of_mem _ hkey
  | commit hprog => exact ((hprog ▸ hc).not_commit).elim
  | _ => exact hkey

/-- Only an answer changes the committed rows. -/
theorem step_stage [DecidableEq κ] {code : Nat → ρ → Prog σ κ ς δ ε α}
    {s s' : Sys σ κ ω ς δ ε α ρ} {a : Action κ ε ρ} (hs : step E code s a = some s')
    {C : Nat → ρ → Contract ς α}
    (hstage : ∀ n c, s.conns n = some c → Stage E (C n c.req) c.prog c.tx.writes) :
    s'.world.db = s.world.db ∨
    ∃ n c x, a = .advance n ∧ s.conns n = some c ∧ c.prog = .ret x ∧
      s'.world.db = E.view c.tx s.world.db ∧ s'.conns n = none := by
  rcases step_cases E code hs with ⟨hdb, -⟩ | ⟨_, _, _, _, hdb, -⟩ | ⟨n, c, rfl, hc, hp, hdb, -⟩
  · exact Or.inl hdb
  · exact Or.inl hdb
  · have hc' := hstage n c hc
    obtain ⟨req, prog, tx⟩ := c
    cases prog with
    | ret x =>
      refine Or.inr ⟨n, _, x, rfl, hc, rfl, hdb, ?_⟩
      simp only [step, hc, Option.bind_some, advance, Option.some.injEq] at hs
      subst hs
      exact Function.update_self ..
    | commit k => exact hc'.not_commit.elim
    | _ => cases hp

/-- A request that goes on has committed nothing. -/
theorem Own.keeps_db [DecidableEq κ] {code : Nat → ρ → Prog σ κ ς δ ε α}
    {s s' : Sys σ κ ω ς δ ε α ρ} {a : Action κ ε ρ} {n : Nat} {c c' : Conn σ κ ω ς δ ε α ρ}
    (h : Own E s n c a c') (hs : step E code s a = some s') (hc : s.conns n = some c)
    {C : Nat → ρ → Contract ς α}
    (hstage : ∀ n c, s.conns n = some c → Stage E (C n c.req) c.prog c.tx.writes) :
    s'.world.db = s.world.db := by
  rcases step_stage hs hstage with hdb | ⟨m, d, x, rfl, hd, hp, -⟩
  · exact hdb
  · have hnot : m = n → c.prog = .ret x := by
      rintro rfl
      obtain rfl := Option.some.inj (hc.symm.trans hd)
      exact hp
    cases h with
    | _ hprog => exact absurd ((hnot rfl).symm.trans hprog) (by simp)

end Stages

end ReadCommitted
