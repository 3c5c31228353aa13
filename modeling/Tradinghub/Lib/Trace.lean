import Tradinghub.Lib.Connections

/-!
# Runs written out

`Run` says that a state can be reached.  What is said of one run, of the states it went through and
of the order in which a request sent its statements, is said of its `Trace`: every step, oldest
first, with the state it was taken in.  A trace is a run (`Trace.run`), every run has one
(`Run.exists_trace`), and whatever is reached by steps of a trace lies on it (`Trace.at_state`).

`Trace.conns` and `Trace.answers` are the rules for facts that speak of the steps so far.  The
states in which request `n` sent a SELECT are `selects n tr`; they are no more than its program has
(`Trace.selects_le`).
-/

namespace ReadCommitted

variable {σ κ ω ς δ ε α ρ : Type}

/-- The steps of a run, each with the state it is taken in. -/
abbrev Steps (σ κ ω ς δ ε α ρ : Type) := List (Sys σ κ ω ς δ ε α ρ × Action κ ε ρ)

/-- A run from `s₀`, written out. -/
inductive Trace [DecidableEq κ] (E : Engine σ κ ω ς δ) (code : Nat → ρ → Prog σ κ ς δ ε α)
    (s₀ : Sys σ κ ω ς δ ε α ρ) : Steps σ κ ω ς δ ε α ρ → Sys σ κ ω ς δ ε α ρ → Prop
  | nil : Trace E code s₀ [] s₀
  | snoc {tr s a s'} (h : Trace E code s₀ tr s) (hs : step E code s a = some s') :
      Trace E code s₀ (tr ++ [(s, a)]) s'

section Traces

variable [DecidableEq κ] {E : Engine σ κ ω ς δ} {code : Nat → ρ → Prog σ κ ς δ ε α}
  {ok : Sys σ κ ω ς δ ε α ρ → Action κ ε ρ → Prop} {s₀ s s' m : Sys σ κ ω ς δ ε α ρ}
  {tr tr' : Steps σ κ ω ς δ ε α ρ} {a : Action κ ε ρ}

/-- A trace is a run, by its own steps. -/
theorem Trace.run (h : Trace E code s₀ tr s) : Run E code (fun t a => (t, a) ∈ tr) s₀ s := by
  induction h with
  | nil => exact .refl _
  | snoc h hs ih =>
    refine .tail (ih.mono fun t b hb => List.mem_append_left _ hb) ?_ hs
    exact List.mem_append_right _ (List.mem_singleton.2 rfl)

theorem Trace.any (h : Trace E code s₀ tr s) : Run E code anyStep s₀ s :=
  h.run.mono fun _ _ _ => trivial

/-- Every run has a trace. -/
theorem Run.exists_trace (h : Run E code ok s₀ s) :
    ∃ tr, Trace E code s₀ tr s ∧ ∀ e ∈ tr, ok e.1 e.2 := by
  induction h with
  | refl => exact ⟨[], .nil, fun e he => by cases he⟩
  | @tail s s' a _ hok hs ih =>
    obtain ⟨tr, htr, hall⟩ := ih
    refine ⟨tr ++ [(s, a)], htr.snoc hs, fun e he => ?_⟩
    rcases List.mem_append.1 he with he | he
    · exact hall e he
    · rw [List.mem_singleton.1 he]
      exact hok

theorem Trace.append (h : Trace E code s₀ tr s) (h' : Trace E code s tr' s') :
    Trace E code s₀ (tr ++ tr') s' := by
  induction h' with
  | nil => exact (List.append_nil tr).symm ▸ h
  | snoc _ hs ih =>
    rw [← List.append_assoc]
    exact ih.snoc hs

theorem Trace.single (hs : step E code s a = some s') : Trace E code s [(s, a)] s' :=
  .snoc .nil hs

/-- A step of a trace, with what comes before it and after it. -/
theorem Trace.at_step (h : Trace E code s₀ tr s) (he : (m, a) ∈ tr) :
    ∃ before after u, tr = before ++ (m, a) :: after ∧ Trace E code s₀ before m ∧
      step E code m a = some u ∧ Trace E code u after s := by
  induction h with
  | nil => cases he
  | @snoc tr s b s' h hs ih =>
    rcases List.mem_append.1 he with he | he
    · obtain ⟨before, after, u, rfl, hbefore, hu, hafter⟩ := ih he
      refine ⟨before, after ++ [(s, b)], u, ?_, hbefore, hu, hafter.snoc hs⟩
      rw [List.append_assoc, List.cons_append]
    · cases List.mem_singleton.1 he
      exact ⟨tr, [], s', rfl, h, hs, .nil⟩

/-- What is reached by steps of a trace lies on it. -/
theorem Trace.at_state (h : Trace E code s₀ tr s)
    (hm : Run E code (fun t a => (t, a) ∈ tr) s₀ m) :
    ∃ before after, tr = before ++ after ∧ Trace E code s₀ before m ∧ Trace E code m after s := by
  cases hm with
  | refl => exact ⟨[], tr, rfl, .nil, h⟩
  | @tail t _ b hr hb hs =>
    obtain ⟨before, after, u, rfl, hbefore, hu, hafter⟩ := h.at_step hb
    obtain rfl : u = m := Option.some.inj (hu.symm.trans hs)
    refine ⟨before ++ [(t, b)], after, ?_, hbefore.snoc hs, hafter⟩
    rw [List.append_assoc, List.singleton_append]

/-- The steps taken by following a list of actions. -/
def stepsOf (E : Engine σ κ ω ς δ) (code : Nat → ρ → Prog σ κ ς δ ε α) :
    Sys σ κ ω ς δ ε α ρ → List (Action κ ε ρ) → Steps σ κ ω ς δ ε α ρ
  | _, [] => []
  | s, a :: as => (s, a) :: (step E code s a).elim [] fun s' => stepsOf E code s' as

theorem trace_of_runList (as : List (Action κ ε ρ)) :
    ∀ s s' : Sys σ κ ω ς δ ε α ρ, runList E code s as = some s' →
      Trace E code s (stepsOf E code s as) s' := by
  induction as with
  | nil => rintro s _ ⟨⟩; exact .nil
  | cons a as ih =>
    intro s s' h
    obtain ⟨t, ht, h⟩ := Option.bind_eq_some_iff.1 h
    have hsteps : stepsOf E code s (a :: as) = [(s, a)] ++ stepsOf E code t as := by
      show (s, a) :: (step E code s a).elim [] (fun s' => stepsOf E code s' as) = _
      rw [ht]
      rfl
    rw [hsteps]
    exact (Trace.single ht).append (ih t s' h)

theorem action_of_stepsOf {as : List (Action κ ε ρ)} {s : Sys σ κ ω ς δ ε α ρ} {e}
    (he : e ∈ stepsOf E code s as) : e.2 ∈ as := by
  induction as generalizing s with
  | nil => cases he
  | cons a as ih =>
    rcases List.mem_cons.1 he with rfl | he
    · exact List.mem_cons_self
    · cases ht : step E code s a with
      | none => rw [ht] at he; cases he
      | some t =>
        rw [ht] at he
        exact List.mem_cons_of_mem _ (ih he)

/-- A trace found by following a list of actions. -/
theorem exists_trace {as : List (Action κ ε ρ)} {p : Sys σ κ ω ς δ ε α ρ → Bool}
    (h : (runList E code s₀ as).any p = true) :
    ∃ s, Trace E code s₀ (stepsOf E code s₀ as) s ∧ p s = true := by
  obtain ⟨s, hs, hp⟩ := (Option.any_eq_true _ _).1 h
  exact ⟨s, trace_of_runList as s₀ s hs, hp⟩

/-! ## Rules -/

/-- A fact about every open request and the steps so far. -/
structure Tracks (E : Engine σ κ ω ς δ) (code : Nat → ρ → Prog σ κ ς δ ε α)
    (s₀ : Sys σ κ ω ς δ ε α ρ)
    (K : Steps σ κ ω ς δ ε α ρ → Sys σ κ ω ς δ ε α ρ → Nat → Conn σ κ ω ς δ ε α ρ → Prop) :
    Prop where
  start : ∀ {tr s s' req}, Trace E code s₀ tr s → step E code s (.start req) = some s' →
    K (tr ++ [(s, .start req)]) s' s.world.started ⟨req, code s.world.started req, {}⟩
  own : ∀ {tr s s' a n c c'}, Trace E code s₀ tr s → step E code s a = some s' →
    s.conns n = some c → Own E s n c a c' → K tr s n c → K (tr ++ [(s, a)]) s' n c'
  others : ∀ {tr s s' a n c}, Trace E code s₀ tr s → step E code s a = some s' →
    s.conns n = some c → a.mover ≠ some n → K tr s n c → K (tr ++ [(s, a)]) s' n c

section Rules

variable {K : Steps σ κ ω ς δ ε α ρ → Sys σ κ ω ς δ ε α ρ → Nat → Conn σ κ ω ς δ ε α ρ → Prop}

theorem Trace.conns (h : Trace E code s₀ tr s) (hK : Tracks E code s₀ K)
    (h₀ : ∀ n, s₀.conns n = none) : ∀ n c, s.conns n = some c → K tr s n c := by
  induction h with
  | nil => exact fun n c hc => absurd hc (by simp [h₀ n])
  | snoc h hs ih =>
    intro n c' hc'
    rcases step_conn hs hc' with ⟨hc, hmover⟩ | ⟨req, rfl, rfl, rfl⟩ | ⟨c, hc, hown⟩
    · exact hK.others h hs hc hmover (ih n c' hc)
    · exact hK.start h hs
    · exact hK.own h hs hc hown (ih n c hc)

/-- A fact about every answer, which later steps keep. -/
theorem Trace.answers {A : Steps σ κ ω ς δ ε α ρ → Nat → ρ → Except ε α → Prop}
    (h : Trace E code s₀ tr s) (hK : Tracks E code s₀ K) (h₀ : ∀ n, s₀.conns n = none)
    (hlog : s₀.world.log = [])
    (hanswer : ∀ {tr s s' a n c r}, Trace E code s₀ tr s → step E code s a = some s' →
      s.conns n = some c → K tr s n c → Answers n c a r → A (tr ++ [(s, a)]) n c.req r)
    (hkeep : ∀ {tr s s' a n req r}, Trace E code s₀ tr s → step E code s a = some s' →
      (n, req, r) ∈ s.world.log → A tr n req r → A (tr ++ [(s, a)]) n req r) :
    ∀ n req r, (n, req, r) ∈ s.world.log → A tr n req r := by
  induction h with
  | nil => exact fun n req r he => absurd he (by simp [hlog])
  | snoc h hs ih =>
    intro n req r he
    rcases step_log hs he with he | ⟨c, hc, rfl, ha⟩
    · exact hkeep h hs he (ih n req r he)
    · exact hanswer h hs hc (h.conns hK h₀ n c hc) ha

end Rules

end Traces

/-! ## The SELECTs of a request -/

/-- The program is at a query. -/
def Prog.asks : Prog σ κ ς δ ε α → Bool
  | .query _ => true
  | _ => false

/-- Request `n` sends a SELECT in this step. -/
def selecting (n : Nat) (e : Sys σ κ ω ς δ ε α ρ × Action κ ε ρ) : Bool :=
  match e.2 with
  | .advance m => m == n && (e.1.conns n).any fun c => c.prog.asks
  | _ => false

/-- The states in which request `n` sent its SELECTs, in their order. -/
def selects (n : Nat) (tr : Steps σ κ ω ς δ ε α ρ) : List (Sys σ κ ω ς δ ε α ρ) :=
  (tr.filter (selecting n)).map Prod.fst

/-- As many SELECTs as this, at most. -/
def Prog.AtMost : Prog σ κ ς δ ε α → Nat → Prop
  | .ret _, _ => True
  | .raise _, _ => True
  | .query _, 0 => False
  | .query k, left + 1 => ∀ db, (k db).AtMost left
  | .clock k, left => ∀ now, (k now).AtMost left
  | .exec _ k, left => ∀ r, (k r).AtMost left
  | .scan _ _ _ k, left => ∀ r, (k r).AtMost left
  | .commit k, left => k.AtMost left

section Programs

variable {β : Type} {p : Prog σ κ ς δ ε α} {left left' : Nat}

theorem Prog.AtMost.mono (h : p.AtMost left) (hle : left ≤ left') : p.AtMost left' := by
  induction p generalizing left left' with
  | ret a => trivial
  | raise e => trivial
  | query k ih =>
    cases left with
    | zero => exact h.elim
    | succ left =>
      cases left' with
      | zero => exact absurd hle (by omega)
      | succ left' => exact fun db => ih db (h db) (Nat.le_of_succ_le_succ hle)
  | clock k ih => exact fun now => ih now (h now) hle
  | exec q k ih => exact fun r => ih r (h r) hle
  | scan q todo hits k ih => exact fun r => ih r (h r) hle
  | commit k ih => exact ih h hle

theorem Prog.AtMost.bind {f : α → Prog σ κ ς δ ε β} (h : p.AtMost left)
    (hf : ∀ a, (f a).AtMost left') : (p >>= f).AtMost (left + left') := by
  induction p generalizing left with
  | ret a => exact (hf a).mono (Nat.le_add_left _ _)
  | raise e => trivial
  | query k ih =>
    cases left with
    | zero => exact h.elim
    | succ left =>
      rw [Nat.succ_add]
      exact fun db => ih db (h db)
  | clock k ih => exact fun now => ih now (h now)
  | exec q k ih => exact fun r => ih r (h r)
  | scan q todo hits k ih => exact fun r => ih r (h r)
  | commit k ih => exact ih h

end Programs

section Selects

variable {s m : Sys σ κ ω ς δ ε α ρ} {tr tr' : Steps σ κ ω ς δ ε α ρ} {a : Action κ ε ρ} {n : Nat}
  {c : Conn σ κ ω ς δ ε α ρ}

theorem selecting_iff {e : Sys σ κ ω ς δ ε α ρ × Action κ ε ρ} :
    selecting n e = true ↔
      e.2 = .advance n ∧ ∃ c k, e.1.conns n = some c ∧ c.prog = .query k := by
  obtain ⟨t, a⟩ := e
  have hasks : ∀ p : Prog σ κ ς δ ε α, p.asks = true ↔ ∃ k, p = .query k := by
    intro p
    cases p <;> simp [Prog.asks]
  unfold selecting
  cases a with
  | advance m =>
    simp only [Bool.and_eq_true, beq_iff_eq, Option.any_eq_true, hasks, Action.advance.injEq]
    exact and_congr_right fun _ => ⟨fun ⟨c, hc, k, hk⟩ => ⟨c, k, hc, hk⟩,
      fun ⟨c, k, hc, hk⟩ => ⟨c, hc, k, hk⟩⟩
  | _ => simp

theorem mem_selects : m ∈ selects n tr ↔
    (m, .advance n) ∈ tr ∧ ∃ c k, m.conns n = some c ∧ c.prog = .query k := by
  unfold selects
  rw [List.mem_map]
  constructor
  · rintro ⟨⟨t, a⟩, he, rfl⟩
    obtain ⟨he, hsel⟩ := List.mem_filter.1 he
    obtain ⟨ha, hq⟩ := selecting_iff.1 hsel
    obtain rfl : a = .advance n := ha
    exact ⟨he, hq⟩
  · rintro ⟨he, hq⟩
    exact ⟨(m, .advance n), List.mem_filter.2 ⟨he, selecting_iff.2 ⟨rfl, hq⟩⟩, rfl⟩

theorem selects_append : selects n (tr ++ tr') = selects n tr ++ selects n tr' := by
  unfold selects
  rw [List.filter_append, List.map_append]

/-- Two SELECTs, with the steps before, between and after them. -/
theorem selects_two {t : Sys σ κ ω ς δ ε α ρ} (h : selects n tr = [m, t]) :
    ∃ before mid after,
      tr = before ++ (m, .advance n) :: (mid ++ (t, .advance n) :: after) := by
  obtain ⟨⟨_, a⟩, rest, hfilter, rfl, hrest⟩ := List.map_eq_cons_iff.1 h
  obtain ⟨⟨_, b⟩, last, rfl, rfl, -⟩ := List.map_eq_cons_iff.1 hrest
  obtain ⟨before, tail, rfl, -, ha, hfilter⟩ := List.filter_eq_cons_iff.1 hfilter
  obtain ⟨mid, after, rfl, -, hb, -⟩ := List.filter_eq_cons_iff.1 hfilter
  obtain ⟨rfl : a = _, -⟩ := selecting_iff.1 ha
  obtain ⟨rfl : b = _, -⟩ := selecting_iff.1 hb
  exact ⟨before, mid, after, rfl⟩

theorem selects_query {k : σ → Prog σ κ ς δ ε α} (hc : s.conns n = some c)
    (hprog : c.prog = .query k) :
    selects n (tr ++ [(s, .advance n)]) = selects n tr ++ [s] := by
  have hone : selecting n (s, (.advance n : Action κ ε ρ)) = true :=
    selecting_iff.2 ⟨rfl, c, k, hc, hprog⟩
  rw [selects_append]
  refine congrArg (selects n tr ++ ·) ?_
  unfold selects
  rw [List.filter_cons_of_pos hone]
  rfl

theorem selects_of_not (h : selecting n (s, a) = false) :
    selects n (tr ++ [(s, a)]) = selects n tr := by
  have hnone : selects n [(s, a)] = [] := by
    unfold selects
    rw [List.filter_cons_of_neg (by simp [h])]
    rfl
  rw [selects_append, hnone, List.append_nil]

theorem selects_of_mover (h : a.mover ≠ some n) :
    selects n (tr ++ [(s, a)]) = selects n tr := by
  refine selects_of_not (Bool.eq_false_iff.2 fun hsel => h ?_)
  obtain ⟨rfl, -⟩ := selecting_iff.1 hsel
  rfl

/-- A request that is not at a query sends no SELECT. -/
theorem selects_of_prog (hc : s.conns n = some c) (hprog : ∀ k, c.prog ≠ .query k) :
    selects n (tr ++ [(s, a)]) = selects n tr := by
  refine selects_of_not (Bool.eq_false_iff.2 fun hsel => ?_)
  obtain ⟨-, d, k, hd, hk⟩ := selecting_iff.1 hsel
  obtain rfl := Option.some.inj (hc.symm.trans hd)
  exact hprog k hk

theorem Answers.selects {r : Except ε α} (h : Answers n c a r) (hc : s.conns n = some c) :
    selects n (tr ++ [(s, a)]) = selects n tr := by
  cases h with
  | ret hprog | raise hprog => exact selects_of_prog hc fun k hk => by simp [hprog] at hk
  | abort e => exact selects_of_not rfl

end Selects

section Begun

variable [DecidableEq κ] {E : Engine σ κ ω ς δ} {code : Nat → ρ → Prog σ κ ς δ ε α}
  {s₀ s m : Sys σ κ ω ς δ ε α ρ} {tr : Steps σ κ ω ς δ ε α ρ} {a : Action κ ε ρ} {n : Nat}
  {c c' : Conn σ κ ω ς δ ε α ρ}

/-- Every open request has begun. -/
theorem Trace.started (h : Trace E code s₀ tr s) (h₀ : ∀ n, s₀.conns n = none) :
    ∀ n c, s.conns n = some c → n < s.world.started := by
  refine h.conns (K := fun _ s n _ => n < s.world.started) ⟨?_, ?_, ?_⟩ h₀
  · intro tr s s' req _ hs
    rw [step_start_world hs]
    exact Nat.lt_succ_self _
  · exact fun _ hs _ _ hlt => Nat.lt_of_lt_of_le hlt (step_started_le hs)
  · exact fun _ hs _ _ hlt => Nat.lt_of_lt_of_le hlt (step_started_le hs)

/-- An answered request is not open. -/
theorem Trace.closed (h : Trace E code s₀ tr s) (h₀ : ∀ n, s₀.conns n = none)
    (hlog : s₀.world.log = []) :
    ∀ n req r, (n, req, r) ∈ s.world.log → n < s.world.started ∧ s.conns n = none := by
  induction h with
  | nil => exact fun n req r he => absurd he (by simp [hlog])
  | @snoc tr s a s' h hs ih =>
    intro n req r he
    have hlt : n < s.world.started := by
      rcases step_log hs he with he | ⟨c, hc, -, -⟩
      · exact (ih n req r he).1
      · exact h.started h₀ n c hc
    refine ⟨Nat.lt_of_lt_of_le hlt (step_started_le hs), Option.eq_none_iff_forall_ne_some.2 ?_⟩
    intro c' hc'
    rcases step_conn hs hc' with ⟨hc, hmover⟩ | ⟨req', -, rfl, -⟩ | ⟨c, hc, hown⟩
    · rcases step_log hs he with he | ⟨d, -, -, ha⟩
      · exact absurd (hc.symm.trans (ih n req r he).2) (by simp)
      · cases ha <;> exact hmover rfl
    · exact absurd hlt (Nat.lt_irrefl _)
    · rcases step_log hs he with he | ⟨d, hd, -, ha⟩
      · exact absurd (hc.symm.trans (ih n req r he).2) (by simp)
      · -- a step that answers is none that goes on
        obtain rfl := Option.some.inj (hc.symm.trans hd)
        cases ha with
        | ret hp | raise hp => cases hown with
          | _ hprog => exact absurd (hp.symm.trans hprog) (by simp)
        | abort e => cases hown

/-- A request that has not begun has sent nothing. -/
theorem Trace.selects_nil (h : Trace E code s₀ tr s) (h₀ : ∀ n, s₀.conns n = none)
    (hn : s.world.started ≤ n) : selects n tr = [] := by
  induction h with
  | nil => rfl
  | snoc h hs ih =>
    have hle := Nat.le_trans (step_started_le hs) hn
    refine (selects_of_not (Bool.eq_false_iff.2 fun hsel => ?_)).trans (ih hle)
    obtain ⟨-, c, k, hc, -⟩ := selecting_iff.1 hsel
    exact absurd (h.started h₀ n c hc) (Nat.not_lt.2 hle)

/-- A request that has been answered sends no more. -/
theorem Trace.selects_answered (h : Trace E code s₀ tr s) (h₀ : ∀ n, s₀.conns n = none)
    (hlog : s₀.world.log = []) {req : ρ} {r : Except ε α} (he : (n, req, r) ∈ s.world.log) :
    selects n (tr ++ [(s, a)]) = selects n tr := by
  refine selects_of_not (Bool.eq_false_iff.2 fun hsel => ?_)
  obtain ⟨-, c, k, hc, -⟩ := selecting_iff.1 hsel
  exact absurd (hc.symm.trans (h.closed h₀ hlog n req r he).2) (by simp)

/-- What was asked is open or answered ever after. -/
theorem Trace.asked (h : Trace E code s₀ tr s) (h₀ : ∀ n, s₀.conns n = none) (he : (m, a) ∈ tr)
    (hc : m.conns n = some c) : s.Asked n c.req := by
  induction h with
  | nil => cases he
  | @snoc tr s b s' h hs ih =>
    have hstep : ∀ {t : Sys σ κ ω ς δ ε α ρ} {d : Conn σ κ ω ς δ ε α ρ},
        t = s → t.conns n = some d → d.req = c.req → s'.Asked n c.req := by
      rintro t d rfl hd hreq
      rcases step_open hs (h.started h₀ n d hd) hd with ⟨d', hd', hreq'⟩ | ⟨r, hr, -⟩
      · exact Or.inl ⟨d', hd', hreq'.trans hreq⟩
      · exact Or.inr ⟨r, hreq ▸ hr⟩
    rcases List.mem_append.1 he with he | he
    · rcases ih he with ⟨d, hd, hreq⟩ | ⟨r, hr⟩
      · exact hstep rfl hd hreq
      · exact Or.inr ⟨r, step_log_mono hs _ hr⟩
    · cases List.mem_singleton.1 he
      exact hstep rfl hc rfl

/-- An own step sends a SELECT or leaves as many to send. -/
theorem Own.atMost (h : Own E s n c a c') (tr : Steps σ κ ω ς δ ε α ρ) (hc : s.conns n = some c)
    {left : Nat} (hprog : c.prog.AtMost left) :
    ∃ left', c'.prog.AtMost left' ∧
      (selects n (tr ++ [(s, a)])).length + left' ≤ (selects n tr).length + left := by
  obtain ⟨req, prog, tx⟩ := c
  cases h with
  | @query k hp =>
    obtain rfl : prog = _ := hp
    cases left with
    | zero => exact hprog.elim
    | succ left =>
      refine ⟨left, hprog _, ?_⟩
      rw [selects_query hc rfl, List.length_append, List.length_singleton]
      omega
  | clock hp | exec hp | refused hp | done hp | commit hp | skip hp | take hp =>
    obtain rfl : prog = _ := hp
    rw [selects_of_prog hc fun k hk => by cases hk]
    first
      | exact ⟨left, hprog _, Nat.le_refl _⟩
      | exact ⟨left, hprog, Nat.le_refl _⟩

/-- **A request sends no more SELECTs than its program has.** -/
theorem Trace.selects_le {req : ρ} {most : Nat} (h : Trace E code s₀ tr s)
    (h₀ : ∀ n, s₀.conns n = none) (hlog : s₀.world.log = [])
    (hcode : ∀ n, (code n req).AtMost most) (hasked : s.Asked n req) :
    (selects n tr).length ≤ most := by
  have htracks : Tracks E code s₀ fun tr _ n c => c.req = req → ∃ left, c.prog.AtMost left ∧
      (selects n tr).length + left ≤ most := by
    refine ⟨fun {tr s s' req'} h hs => ?_, fun {tr s s' a n c c'} h hs hc hown hK => ?_,
      fun {tr s s' a n c} h hs hc hmover => ?_⟩
    · rintro rfl
      refine ⟨most, hcode _, ?_⟩
      rw [selects_of_not rfl, h.selects_nil h₀ (Nat.le_refl _)]
      exact Nat.le_of_eq (Nat.zero_add _)
    · intro hreq
      obtain ⟨left, hprog, hle⟩ := hK (hown.req.symm.trans hreq)
      obtain ⟨left', hprog', hle'⟩ := hown.atMost tr hc hprog
      exact ⟨left', hprog', Nat.le_trans hle' hle⟩
    · rw [selects_of_mover hmover]
      exact id
  rcases hasked with ⟨c, hc, hreq⟩ | ⟨r, he⟩
  · obtain ⟨left, -, hle⟩ := h.conns htracks h₀ n c hc hreq
    exact Nat.le_trans (Nat.le_add_right _ _) hle
  · refine h.answers (A := fun tr n req' _ => req' = req → (selects n tr).length ≤ most) htracks
      h₀ hlog ?_ ?_ n req r he rfl
    · rintro tr s s' a n c r - - hc hK ha hreq
      obtain ⟨left, -, hle⟩ := hK hreq
      rw [ha.selects hc]
      exact Nat.le_trans (Nat.le_add_right _ _) hle
    · intro tr s s' a n req' r h hs hr hA hreq
      rw [h.selects_answered h₀ hlog hr]
      exact hA hreq

end Begun

end ReadCommitted
