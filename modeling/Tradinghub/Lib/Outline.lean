import Tradinghub.Lib.RelyGuarantee

/-!
# Outlines of requests

`outline Q` of a program says that `Q` holds of the answer whenever the request ends by itself,
with the states of the run in hand: `Later c w s s'` takes the state `s` in which the request moved
last, the world `w` it left, and the state `s'` in which it moves next, as `c`.  Any number of
statements and every error path are covered, and what is known of the reachable states can be used
on the way (`Later.rely`).

`Run.ended` is the rule: of every answer on the log, an abort gave it or `Q` holds of it.
-/

namespace ReadCommitted

variable {σ κ ω ς δ ε α ρ : Type} [DecidableEq κ]

section Outlines

variable (E : Engine σ κ ω ς δ) (code : Nat → ρ → Prog σ κ ς δ ε α)
  (ok : Sys σ κ ω ς δ ε α ρ → Action κ ε ρ → Prop) (s₀ : Sys σ κ ω ς δ ε α ρ) (n : Nat)

/-- The run goes on, and request `n` stays as `c`. -/
inductive Waits (c : Conn σ κ ω ς δ ε α ρ) :
    Sys σ κ ω ς δ ε α ρ → Sys σ κ ω ς δ ε α ρ → Prop
  | here {s} (hr : Run E code ok s₀ s) (hc : s.conns n = some c) : Waits c s s
  | tail {s s' s'' a} (h : Waits c s s') (hok : ok s' a) (hs : step E code s' a = some s'')
      (hc : s''.conns n = some c) : Waits c s s''

/-- Request `n` moved last in `s`, which left the world `w`, and is still `c` in `s'`. -/
structure Later (c : Conn σ κ ω ς δ ε α ρ) (w : World σ ρ ε α) (s s' : Sys σ κ ω ς δ ε α ρ) :
    Prop where
  run : Run E code ok s s'
  waits : ∃ t, t.world = w ∧ Waits E code ok s₀ n c t s'

/-- The statement `q` may take its remaining rows in any order, and `post` holds at its end. -/
inductive Scanning (req : ρ)
    (post : Except δ (List κ × σ) → Tx κ ω ς → World σ ρ ε α → Sys σ κ ω ς δ ε α ρ → Prop) (q : ς)
    (k : Except δ (List κ × σ) → Prog σ κ ς δ ε α) :
    List κ → List κ → Tx κ ω ς → World σ ρ ε α → Sys σ κ ω ς δ ε α ρ → Prop
  | mk {todo hits : List κ} {tx : Tx κ ω ς} {w : World σ ρ ε α} {s : Sys σ κ ω ς δ ε α ρ}
      (refused : todo = [] → ∀ s', Later E code ok s₀ n ⟨req, .scan q todo hits k, tx⟩ w s s' →
        ∀ d, E.finish q hits (E.view tx s'.world.db) = .error d → post (.error d) tx s'.world s')
      (done : todo = [] → ∀ s', Later E code ok s₀ n ⟨req, .scan q todo hits k, tx⟩ w s s' →
        ∀ ws, E.finish q hits (E.view tx s'.world.db) = .ok ws →
        post (.ok (hits, E.view (tx.write ws) s'.world.db)) (tx.write ws) s'.world s')
      (skip : ∀ key ∈ todo, ∀ s',
        Later E code ok s₀ n ⟨req, .scan q todo hits k, tx⟩ w s s' → s'.free n key = true →
        E.act q key (E.view tx s'.world.db) = none →
        Scanning req post q k (todo.erase key) hits tx s'.world s')
      (take : ∀ key ∈ todo, ∀ s',
        Later E code ok s₀ n ⟨req, .scan q todo hits k, tx⟩ w s s' → s'.free n key = true →
        ∀ ws, E.act q key (E.view tx s'.world.db) = some ws →
        Scanning req post q k (todo.erase key) (hits ++ [key]) (tx.hold key ws) s'.world s') :
      Scanning req post q k todo hits tx w s

/-- `Q r tx s'`: the request ends in `s'` with `r`, its transaction being `tx`. -/
def outline (Q : Except ε α → Tx κ ω ς → Sys σ κ ω ς δ ε α ρ → Prop) (req : ρ) :
    Prog σ κ ς δ ε α → Tx κ ω ς → World σ ρ ε α → Sys σ κ ω ς δ ε α ρ → Prop
  | .ret a, tx, w, s => ∀ s', Later E code ok s₀ n ⟨req, .ret a, tx⟩ w s s' → Q (.ok a) tx s'
  | .raise e, tx, w, s => ∀ s', Later E code ok s₀ n ⟨req, .raise e, tx⟩ w s s' → Q (.error e) tx s'
  | .query k, tx, w, s => ∀ s', Later E code ok s₀ n ⟨req, .query k, tx⟩ w s s' →
      outline Q req (k (E.view tx s'.world.db)) tx s'.world s'
  | .clock k, tx, w, s => ∀ s', Later E code ok s₀ n ⟨req, .clock k, tx⟩ w s s' →
      outline Q req (k s'.world.clock) tx s'.world s'
  | .exec q k, tx, w, s => ∀ s', Later E code ok s₀ n ⟨req, .exec q k, tx⟩ w s s' →
      Scanning E code ok s₀ n req (fun r tx w s => outline Q req (k r) tx w s)
        (E.plan q (E.view tx s'.world.db)).1 k (E.plan q (E.view tx s'.world.db)).2 []
        (tx.begin q (E.plan q (E.view tx s'.world.db)).2) s'.world s'
  | .scan q todo hits k, tx, w, s =>
      Scanning E code ok s₀ n req (fun r tx w s => outline Q req (k r) tx w s) q k todo hits tx w s
  | .commit k, tx, w, s => ∀ s', Later E code ok s₀ n ⟨req, .commit k, tx⟩ w s s' →
      outline Q req k {} { s'.world with db := E.view tx s'.world.db } s'

end Outlines

variable {E : Engine σ κ ω ς δ} {code : Nat → ρ → Prog σ κ ς δ ε α}
  {ok : Sys σ κ ω ς δ ε α ρ → Action κ ε ρ → Prop} {s₀ : Sys σ κ ω ς δ ε α ρ} {n : Nat}

section Between

variable {c : Conn σ κ ω ς δ ε α ρ} {w : World σ ρ ε α} {s s' s'' : Sys σ κ ω ς δ ε α ρ}

theorem Waits.conn (h : Waits E code ok s₀ n c s s') : s'.conns n = some c := by
  cases h with
  | here hr hc => exact hc
  | tail h hok hs hc => exact hc

theorem Waits.reached (h : Waits E code ok s₀ n c s s') : Run E code ok s₀ s' := by
  induction h with
  | here hr hc => exact hr
  | tail h hok hs hc ih => exact ih.tail hok hs

theorem Later.conn (h : Later E code ok s₀ n c w s s') : s'.conns n = some c := by
  obtain ⟨t, -, hw⟩ := h.waits
  exact hw.conn

theorem Later.reached (h : Later E code ok s₀ n c w s s') : Run E code ok s₀ s' := by
  obtain ⟨t, -, hw⟩ := h.waits
  exact hw.reached

/-- Somebody else moves. -/
theorem Later.tail (h : Later E code ok s₀ n c w s s') {a : Action κ ε ρ} (hok : ok s' a)
    (hs : step E code s' a = some s'') (hc : s''.conns n = some c) :
    Later E code ok s₀ n c w s s'' := by
  obtain ⟨t, ht, hw⟩ := h.waits
  exact ⟨h.run.tail hok hs, t, ht, hw.tail hok hs hc⟩

/-- What a discipline promises about the others while a request waits. -/
theorem Later.rely {D : Discipline σ κ ω ς ε α ρ} (h : Later E code ok s₀ n c w s s')
    (hgood : ∀ t, Run E code ok s₀ t → Good D E t) : Rely D n c.tx w s'.world := by
  obtain ⟨-, t, rfl, hw⟩ := h
  induction hw with
  | here hr hc => exact Rely.refl _
  | @tail s' s'' a hw hok hs hc ih =>
    have hr : Run E code ok s₀ s' := hw.reached
    exact ih.trans ((hgood s' hr).step_rely hs hw.conn hc)

end Between

/-- The loop rule: `J` holds of the rows to take, the rows taken, the transaction and the state in
which the last was taken, is kept while the others move and by each row, and gives `post` at the
end. -/
theorem Scanning.of_loop {req : ρ}
    {post : Except δ (List κ × σ) → Tx κ ω ς → World σ ρ ε α → Sys σ κ ω ς δ ε α ρ → Prop} {q : ς}
    {k : Except δ (List κ × σ) → Prog σ κ ς δ ε α}
    (J : List κ → List κ → Tx κ ω ς → Sys σ κ ω ς δ ε α ρ → Prop)
    (hwait : ∀ todo hits tx s s',
      Later E code ok s₀ n ⟨req, .scan q todo hits k, tx⟩ s.world s s' →
      J todo hits tx s → J todo hits tx s')
    (hskip : ∀ todo hits tx s key, key ∈ todo → Run E code ok s₀ s → s.free n key = true →
      s.conns n = some ⟨req, .scan q todo hits k, tx⟩ →
      E.act q key (E.view tx s.world.db) = none → J todo hits tx s → J (todo.erase key) hits tx s)
    (htake : ∀ todo hits tx s key ws, key ∈ todo → Run E code ok s₀ s → s.free n key = true →
      s.conns n = some ⟨req, .scan q todo hits k, tx⟩ →
      E.act q key (E.view tx s.world.db) = some ws → J todo hits tx s →
      J (todo.erase key) (hits ++ [key]) (tx.hold key ws) s)
    (hrefused : ∀ hits tx s d, Run E code ok s₀ s → s.conns n = some ⟨req, .scan q [] hits k, tx⟩ →
      E.finish q hits (E.view tx s.world.db) = .error d → J [] hits tx s →
      post (.error d) tx s.world s)
    (hdone : ∀ hits tx s ws, Run E code ok s₀ s → s.conns n = some ⟨req, .scan q [] hits k, tx⟩ →
      E.finish q hits (E.view tx s.world.db) = .ok ws → J [] hits tx s →
      post (.ok (hits, E.view (tx.write ws) s.world.db)) (tx.write ws) s.world s) :
    ∀ (len : Nat) (todo hits : List κ) (tx : Tx κ ω ς) (s : Sys σ κ ω ς δ ε α ρ),
      todo.length = len → J todo hits tx s →
      Scanning E code ok s₀ n req post q k todo hits tx s.world s := by
  intro len
  induction len with
  | zero =>
    intro todo hits tx s hlen hJ
    obtain rfl := List.length_eq_zero_iff.1 hlen
    refine .mk (fun _ s' hs d hd => ?_) (fun _ s' hs ws hws => ?_) (by simp) (by simp)
    · exact hrefused hits tx s' d hs.reached hs.conn hd (hwait _ _ _ _ _ hs hJ)
    · exact hdone hits tx s' ws hs.reached hs.conn hws (hwait _ _ _ _ _ hs hJ)
  | succ len ih =>
    intro todo hits tx s hlen hJ
    have hlen' : ∀ key ∈ todo, (todo.erase key).length = len := by
      intro key hk
      rw [List.length_erase_of_mem hk, hlen]
      rfl
    refine .mk (fun ht => ?_) (fun ht => ?_) (fun key hk s' hs hfree hn => ?_)
      (fun key hk s' hs hfree ws hact => ?_)
    · simp [ht] at hlen
    · simp [ht] at hlen
    · exact ih _ _ _ _ (hlen' key hk)
        (hskip _ _ _ _ key hk hs.reached hfree hs.conn hn (hwait _ _ _ _ _ hs hJ))
    · exact ih _ _ _ _ (hlen' key hk)
        (htake _ _ _ _ key ws hk hs.reached hfree hs.conn hact (hwait _ _ _ _ _ hs hJ))

/-! ## The rules for whole runs -/

/-- The run has been in `m`, when request `n` was open. -/
structure During (E : Engine σ κ ω ς δ) (code : Nat → ρ → Prog σ κ ς δ ε α)
    (ok : Sys σ κ ω ς δ ε α ρ → Action κ ε ρ → Prop) (s₀ : Sys σ κ ω ς δ ε α ρ) (n : Nat) (req : ρ)
    (m s : Sys σ κ ω ς δ ε α ρ) : Prop where
  reached : Run E code ok s₀ m
  opened : ∃ c, m.conns n = some c ∧ c.req = req
  run : Run E code ok m s

theorem Later.during {c : Conn σ κ ω ς δ ε α ρ} {w : World σ ρ ε α} {s s' : Sys σ κ ω ς δ ε α ρ}
    (h : Later E code ok s₀ n c w s s') : During E code ok s₀ n c.req s' s' :=
  ⟨h.reached, ⟨c, h.conn, rfl⟩, .refl _⟩

theorem During.later {c : Conn σ κ ω ς δ ε α ρ} {w : World σ ρ ε α} {req : ρ}
    {m s s' : Sys σ κ ω ς δ ε α ρ} (hm : During E code ok s₀ n req m s)
    (h : Later E code ok s₀ n c w s s') : During E code ok s₀ n req m s' :=
  ⟨hm.reached, hm.opened, hm.run.trans h.run⟩

/-- Where request `n` is: what is left of it still satisfies its outline. -/
def Outlined (E : Engine σ κ ω ς δ) (code : Nat → ρ → Prog σ κ ς δ ε α)
    (ok : Sys σ κ ω ς δ ε α ρ → Action κ ε ρ → Prop) (s₀ : Sys σ κ ω ς δ ε α ρ)
    (Q : Nat → ρ → Except ε α → Tx κ ω ς → Sys σ κ ω ς δ ε α ρ → Prop)
    (s : Sys σ κ ω ς δ ε α ρ) (n : Nat) (c : Conn σ κ ω ς δ ε α ρ) : Prop :=
  ∃ w t, Later E code ok s₀ n c w t s ∧ outline E code ok s₀ n (Q n c.req) c.req c.prog c.tx w t

variable {Q : Nat → ρ → Except ε α → Tx κ ω ς → Sys σ κ ω ς δ ε α ρ → Prop}
  {s s' : Sys σ κ ω ς δ ε α ρ} {a : Action κ ε ρ}

/-- One step of the request's own. -/
theorem Outlined.own (hr : Run E code ok s₀ s) (hok : ok s a)
    (hs : step E code s a = some s') {c c' : Conn σ κ ω ς δ ε α ρ} (hc : s.conns n = some c)
    (hc' : s'.conns n = some c') (hown : Own E s n c a c') (h : Outlined E code ok s₀ Q s n c) :
    Outlined E code ok s₀ Q s' n c' := by
  obtain ⟨w, t, hl, ho⟩ := h
  obtain ⟨req, prog, tx⟩ := c
  have hrun : Run E code ok s s' := .single hok hs
  have next : Later E code ok s₀ n c' s'.world s s' :=
    ⟨hrun, s', rfl, .here (hr.trans hrun) hc'⟩
  have hworld := hown.world hs hc
  cases hown with
  | query hprog =>
    obtain rfl : prog = _ := hprog
    exact ⟨_, s, next, hworld (fun k => by simp) ▸ ho s hl⟩
  | clock hprog =>
    obtain rfl : prog = _ := hprog
    exact ⟨_, s, next, hworld (fun k => by simp) ▸ ho s hl⟩
  | exec hprog =>
    obtain rfl : prog = _ := hprog
    exact ⟨_, s, next, hworld (fun k => by simp) ▸ ho s hl⟩
  | refused hprog hfinish =>
    obtain rfl : prog = _ := hprog
    obtain ⟨refused, -, -, -⟩ := ho
    exact ⟨_, s, next, hworld (fun k => by simp) ▸ refused rfl s hl _ hfinish⟩
  | done hprog hfinish =>
    obtain rfl : prog = _ := hprog
    obtain ⟨-, done, -, -⟩ := ho
    exact ⟨_, s, next, hworld (fun k => by simp) ▸ done rfl s hl _ hfinish⟩
  | commit hprog =>
    obtain rfl : prog = _ := hprog
    have hw : s'.world = { s.world with db := E.view tx s.world.db } := by
      simp only [step, hc, Option.bind_some, advance, Option.some.injEq] at hs
      rw [← hs]
      rfl
    exact ⟨_, s, next, hw ▸ ho s hl⟩
  | skip hprog hkey hfree hact =>
    obtain rfl : prog = _ := hprog
    obtain ⟨-, -, skip, -⟩ := ho
    exact ⟨_, s, next, hworld (fun k => by simp) ▸ skip _ hkey s hl hfree hact⟩
  | take hprog hkey hfree hact =>
    obtain rfl : prog = _ := hprog
    obtain ⟨-, -, -, take⟩ := ho
    exact ⟨_, s, next, hworld (fun k => by simp) ▸ take _ hkey s hl hfree _ hact⟩

/-- Every open request satisfies its outline, if its program does when it starts. -/
theorem Run.outlined (h : Run E code ok s₀ s) (h₀ : ∀ n, s₀.conns n = none)
    (hcode : ∀ t req, Run E code ok s₀ t →
      outline E code ok s₀ t.world.started (Q t.world.started req) req (code t.world.started req) {}
        t.world.start t) :
    ∀ n c, s.conns n = some c → Outlined E code ok s₀ Q s n c := by
  induction h with
  | refl => exact fun n c hc => absurd hc (by simp [h₀ n])
  | @tail s s' a hr hok hs ih =>
    intro n c' hc'
    rcases step_conn hs hc' with ⟨hc, -⟩ | ⟨req, rfl, rfl, rfl⟩ | ⟨c, hc, hown⟩
    · obtain ⟨w, t, hl, ho⟩ := ih n c' hc
      exact ⟨w, t, hl.tail hok hs hc', ho⟩
    · have hrun : Run E code ok s s' := .single hok hs
      exact ⟨_, s, ⟨hrun, s', step_start_world hs, .here (hr.trans hrun) hc'⟩, hcode s req hr⟩
    · exact Outlined.own hr hok hs hc hc' hown (ih n c hc)

/-- Request `n` ended by itself with `r`, in the step from `t` to `u`. -/
structure Ended (E : Engine σ κ ω ς δ) (code : Nat → ρ → Prog σ κ ς δ ε α)
    (ok : Sys σ κ ω ς δ ε α ρ → Action κ ε ρ → Prop) (s₀ s : Sys σ κ ω ς δ ε α ρ) (n : Nat)
    (c : Conn σ κ ω ς δ ε α ρ) (r : Except ε α) (t u : Sys σ κ ω ς δ ε α ρ) : Prop where
  reached : Run E code ok s₀ t
  allowed : ok t (.advance n)
  conn : t.conns n = some c
  step : step E code t (.advance n) = some u
  prog : c.prog = match r with
    | .ok a => .ret a
    | .error e => .raise e
  rest : Run E code ok u s

/-- Request `n` was given up with `e` in `t`. -/
structure Aborted (E : Engine σ κ ω ς δ) (code : Nat → ρ → Prog σ κ ς δ ε α)
    (ok : Sys σ κ ω ς δ ε α ρ → Action κ ε ρ → Prop) (s₀ s : Sys σ κ ω ς δ ε α ρ) (n : Nat)
    (c : Conn σ κ ω ς δ ε α ρ) (e : ε) (t : Sys σ κ ω ς δ ε α ρ) : Prop where
  reached : Run E code ok s₀ t
  allowed : ok t (.abort n e)
  conn : t.conns n = some c
  rest : Run E code ok t s

/-- **The rule.**  Every answer was given by an abort, or the request ended by itself and `Q` holds. -/
theorem Run.ended (h : Run E code ok s₀ s) (h₀ : ∀ n, s₀.conns n = none) (hlog : s₀.world.log = [])
    (hcode : ∀ t req, Run E code ok s₀ t →
      outline E code ok s₀ t.world.started (Q t.world.started req) req (code t.world.started req) {}
        t.world.start t) :
    ∀ n req r, (n, req, r) ∈ s.world.log →
      (∃ e c t, r = .error e ∧ c.req = req ∧ Aborted E code ok s₀ s n c e t) ∨
      ∃ c t u, c.req = req ∧ Ended E code ok s₀ s n c r t u ∧ Q n req r c.tx t := by
  induction h with
  | refl => exact fun n req r he => absurd he (by simp [hlog])
  | @tail s s' a hr hok hs ih =>
    intro n req r he
    rcases step_log hs he with he | ⟨c, hc, rfl, ha⟩
    · rcases ih n req r he with ⟨e, c, t, hr, hreq, habort⟩ | ⟨c, t, u, hreq, hended, hQ⟩
      · exact Or.inl ⟨e, c, t, hr, hreq, { habort with rest := habort.rest.tail hok hs }⟩
      · exact Or.inr ⟨c, t, u, hreq, { hended with rest := hended.rest.tail hok hs }, hQ⟩
    · obtain ⟨w, t, hl, ho⟩ := hr.outlined h₀ hcode n c hc
      obtain ⟨req, prog, tx⟩ := c
      cases ha with
      | ret hprog =>
        obtain rfl : prog = _ := hprog
        exact Or.inr ⟨_, s, s', rfl, ⟨hr, hok, hc, hs, rfl, .refl _⟩, ho s hl⟩
      | raise hprog =>
        obtain rfl : prog = _ := hprog
        exact Or.inr ⟨_, s, s', rfl, ⟨hr, hok, hc, hs, rfl, .refl _⟩, ho s hl⟩
      | abort e => exact Or.inl ⟨e, _, s, rfl, rfl, hr, hok, hc, .single hok hs⟩

/-- The step that answers is the one that puts the answer on the log. -/
theorem Ended.log {c : Conn σ κ ω ς δ ε α ρ} {r : Except ε α} {t u : Sys σ κ ω ς δ ε α ρ}
    (h : Ended E code ok s₀ s n c r t u) : u.world.log = (n, c.req, r) :: t.world.log := by
  obtain ⟨-, -, hc, hs, hprog, -⟩ := h
  cases r with
  | ok a | error e =>
    simp only at hprog
    simp only [ReadCommitted.step, hc, Option.bind_some, advance, hprog, Option.some.injEq] at hs
    rw [← hs]
    rfl

/-- What an answer does to the rows. -/
theorem Ended.db {c : Conn σ κ ω ς δ ε α ρ} {r : Except ε α} {t u : Sys σ κ ω ς δ ε α ρ}
    (h : Ended E code ok s₀ s n c r t u) :
    (∀ a, r = .ok a → u.world.db = E.view c.tx t.world.db) ∧
      ∀ e, r = .error e → u.world.db = t.world.db := by
  obtain ⟨-, -, hc, hs, hprog, -⟩ := h
  constructor
  · rintro a rfl
    have hprog : c.prog = .ret a := hprog
    simp only [ReadCommitted.step, hc, Option.bind_some, advance, hprog, Option.some.injEq] at hs
    rw [← hs]
    rfl
  · rintro e rfl
    have hprog : c.prog = .raise e := hprog
    simp only [ReadCommitted.step, hc, Option.bind_some, advance, hprog, Option.some.injEq] at hs
    rw [← hs]
    rfl

/-- **What the answers say of the rows** changes only when one is given, if a request commits
nothing before its answer. -/
theorem step_told (hs : step E code s a = some s')
    (hcommit : ∀ n c k, s.conns n = some c → c.prog ≠ .commit k) :
    (s'.world.db = s.world.db ∧
      ∀ n req a, (n, req, .ok a) ∈ s'.world.log ↔ (n, req, .ok a) ∈ s.world.log) ∨
    ∃ n c x, s.conns n = some c ∧ c.prog = .ret x ∧ s'.world.db = E.view c.tx s.world.db ∧
      s'.world.log = (n, c.req, .ok x) :: s.world.log := by
  have refused : ∀ (m : Nat) (r : ρ) (e : ε) n req a,
      (n, req, .ok a) ∈ (m, r, .error e) :: s.world.log ↔ (n, req, .ok a) ∈ s.world.log := by
    intro m r e n req a
    rw [List.mem_cons]
    exact or_iff_right (by simp)
  cases step_move hs with
  | start => exact Or.inl ⟨rfl, fun _ _ _ => Iff.rfl⟩
  | own => exact Or.inl ⟨rfl, fun _ _ _ => Iff.rfl⟩
  | tick => exact Or.inl ⟨rfl, fun _ _ _ => Iff.rfl⟩
  | commit hc hprog => exact absurd hprog (hcommit _ _ _ hc)
  | ret hc hprog => exact Or.inr ⟨_, _, _, hc, hprog, rfl, rfl⟩
  | raise => exact Or.inl ⟨rfl, refused _ _ _⟩
  | abort hc e => exact Or.inl ⟨rfl, refused _ _ e⟩

end ReadCommitted
