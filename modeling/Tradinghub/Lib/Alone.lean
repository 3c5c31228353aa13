import Tradinghub.Lib.ReadCommitted

/-!
# One request at a time

`Prog.alone` runs a whole program with nobody else there: every statement takes its rows at once,
in the order its plan lists them.  `serial_run` is the link to the interleaved system: requests
served one after another are one of its runs, so what holds of every run holds here too.
-/

namespace ReadCommitted

variable {σ κ ω ς δ ε α ρ : Type} (E : Engine σ κ ω ς δ)

/-- Takes the rows `keys` in order, from what the transaction sees. -/
def Engine.take (q : ς) : List κ → List κ → σ → List κ × σ
  | [], hits, v => (hits, v)
  | key :: keys, hits, v =>
    match E.act q key v with
    | none => Engine.take q keys hits v
    | some ws => Engine.take q keys (hits ++ [key]) (E.applyAll ws v)

/-- A whole statement: its answer, and what the transaction sees after it. -/
def Engine.finishWith (q : ς) (r : List κ × σ) : Except δ (List κ × σ) × σ :=
  match E.finish q r.1 r.2 with
  | .error d => (.error d, r.2)
  | .ok ws => (.ok (r.1, E.applyAll ws r.2), E.applyAll ws r.2)

def Engine.exec (q : ς) (v : σ) : Except δ (List κ × σ) × σ :=
  E.finishWith (E.plan q v).1 (E.take (E.plan q v).1 (E.plan q v).2 [] v)

/-- The program's answer, and the committed rows after it.  `db` is committed, `v` is seen. -/
def Prog.alone (now : Int) : Prog σ κ ς δ ε α → σ → σ → Except ε α × σ
  | .ret a, _, v => (.ok a, v)
  | .raise e, db, _ => (.error e, db)
  | .query k, db, v => (k v).alone now db v
  | .clock k, db, v => (k now).alone now db v
  | .exec q k, db, v => (k (E.exec q v).1).alone now db (E.exec q v).2
  | .scan q todo hits k, db, v =>
    (k (E.finishWith q (E.take q todo hits v)).1).alone now db
      (E.finishWith q (E.take q todo hits v)).2
  | .commit k, _, v => k.alone now v v

section Equations

variable (now : Int) (db v : σ)

@[simp] theorem alone_ret (a : α) :
    (Prog.ret a : Prog σ κ ς δ ε α).alone E now db v = (.ok a, v) := rfl
@[simp] theorem alone_raise (e : ε) :
    (Prog.raise e : Prog σ κ ς δ ε α).alone E now db v = (.error e, db) := rfl
@[simp] theorem alone_query (k : σ → Prog σ κ ς δ ε α) :
    (Prog.query k).alone E now db v = (k v).alone E now db v := rfl
@[simp] theorem alone_clock (k : Int → Prog σ κ ς δ ε α) :
    (Prog.clock k).alone E now db v = (k now).alone E now db v := rfl
@[simp] theorem alone_exec (q : ς) (k : Except δ (List κ × σ) → Prog σ κ ς δ ε α) :
    (Prog.exec q k).alone E now db v = (k (E.exec q v).1).alone E now db (E.exec q v).2 := rfl
@[simp] theorem alone_commit (k : Prog σ κ ς δ ε α) :
    (Prog.commit k).alone E now db v = k.alone E now v v := rfl

end Equations

variable (code : Nat → ρ → Prog σ κ ς δ ε α)

/-- One request, from its start to its answer. -/
def World.serve (w : World σ ρ ε α) (req : ρ) : World σ ρ ε α :=
  w.start.answer w.started req ((code w.started req).alone E w.clock w.db w.db).1
    ((code w.started req).alone E w.clock w.db w.db).2

/-- Requests and the passing of time, one after another. -/
inductive Serial : World σ ρ ε α → World σ ρ ε α → Prop
  | refl (w : World σ ρ ε α) : Serial w w
  | serve {w w' : World σ ρ ε α} (req : ρ) : Serial w w' → Serial w (w'.serve E code req)
  | tick {w w' : World σ ρ ε α} (d : Nat) : Serial w w' → Serial w (w'.tick d)

/-! ## Served alone is a run of the interleaved system -/

variable {E code} [DecidableEq κ]

/-- The only open request is `n`. -/
def Sys.Only (s : Sys σ κ ω ς δ ε α ρ) (n : Nat) (c : Conn σ κ ω ς δ ε α ρ) : Prop :=
  s.conns = Function.update (fun _ => none) n (some c)

omit [DecidableEq κ] in
theorem Sys.Only.conn {s : Sys σ κ ω ς δ ε α ρ} {n : Nat} {c : Conn σ κ ω ς δ ε α ρ}
    (h : s.Only n c) : s.conns n = some c := by
  rw [h]
  exact Function.update_self ..

omit [DecidableEq κ] in
theorem Sys.Only.put {s : Sys σ κ ω ς δ ε α ρ} {n : Nat} {c c' : Conn σ κ ω ς δ ε α ρ}
    (h : s.Only n c) : (s.put n c').Only n c' := by
  unfold Sys.Only Sys.put
  rw [h, Function.update_idem]

theorem Sys.Only.free {s : Sys σ κ ω ς δ ε α ρ} {n : Nat} {c : Conn σ κ ω ς δ ε α ρ}
    (h : s.Only n c) (key : κ) : s.free n key = true := by
  simp only [Sys.free, List.all_eq_true, List.mem_range, Bool.or_eq_true, beq_iff_eq]
  intro m _
  by_cases hm : m = n
  · exact Or.inl hm
  · right
    rw [h, Function.update_of_ne hm]
    rfl

/-- Taking the rows of a statement in its own order. -/
theorem run_take {q : ς} {k : Except δ (List κ × σ) → Prog σ κ ς δ ε α} {n : Nat} {req : ρ}
    (todo : List κ) :
    ∀ (hits : List κ) (tx : Tx κ ω ς) (s : Sys σ κ ω ς δ ε α ρ),
      s.Only n ⟨req, .scan q todo hits k, tx⟩ →
      ∃ s' tx', Run E code anyStep s s' ∧ s'.world = s.world ∧
        s'.Only n ⟨req, .scan q [] (E.take q todo hits (E.view tx s.world.db)).1 k, tx'⟩ ∧
        E.view tx' s.world.db = (E.take q todo hits (E.view tx s.world.db)).2 := by
  induction todo with
  | nil => exact fun hits tx s h => ⟨s, tx, .refl s, rfl, h, rfl⟩
  | cons key todo ih =>
    intro hits tx s h
    have hstep : ∀ c', lockRow E s n ⟨req, .scan q (key :: todo) hits k, tx⟩ key =
        some (s.put n c') → Run E code anyStep s (s.put n c') := by
      intro c' hc'
      refine Run.single (a := .lock n key) trivial ?_
      simp only [step, h.conn, Option.bind_some, hc']
    cases ha : E.act q key (E.view tx s.world.db) with
    | none =>
      have hput : (s.put n ⟨req, .scan q todo hits k, tx⟩).Only n _ := h.put
      obtain ⟨s', tx', hr, hw, ho, hv⟩ := ih hits tx _ hput
      refine ⟨s', tx', (hstep _ ?_).trans hr, hw, ?_, ?_⟩
      · simp [lockRow, h.free, ha]
      · simpa [Engine.take, ha] using ho
      · simpa [Engine.take, ha] using hv
    | some ws =>
      have hput : (s.put n ⟨req, .scan q todo (hits ++ [key]) k, tx.hold key ws⟩).Only n _ := h.put
      obtain ⟨s', tx', hr, hw, ho, hv⟩ := ih (hits ++ [key]) (tx.hold key ws) _ hput
      refine ⟨s', tx', (hstep _ ?_).trans hr, hw, ?_, ?_⟩
      · simp [lockRow, h.free, ha]
      · simpa [Engine.take, ha] using ho
      · simpa [Engine.take, ha] using hv

/-- One `advance` of the only open request. -/
theorem Sys.Only.advance {s s' : Sys σ κ ω ς δ ε α ρ} {n : Nat} {c : Conn σ κ ω ς δ ε α ρ}
    (h : s.Only n c) (hs : ReadCommitted.advance E s n c = some s') : Run E code anyStep s s' := by
  refine Run.single (a := .advance n) trivial ?_
  simpa only [step, h.conn, Option.bind_some] using hs

theorem run_alone (p : Prog σ κ ς δ ε α) {n : Nat} {req : ρ} :
    ∀ (tx : Tx κ ω ς) (s : Sys σ κ ω ς δ ε α ρ), s.Only n ⟨req, p, tx⟩ →
      let r := p.alone E s.world.clock s.world.db (E.view tx s.world.db)
      Run E code anyStep s { world := s.world.answer n req r.1 r.2 } := by
  have closed : ∀ (s : Sys σ κ ω ς δ ε α ρ) c r db, s.Only n c →
      s.close n req r db = { world := s.world.answer n req r db } := by
    intro s c r db h
    unfold Sys.close
    rw [h, Function.update_idem, Function.update_eq_self_iff.2 rfl]
  -- the end of a statement, once its rows are taken
  have finish : ∀ (q : ς) (k : Except δ (List κ × σ) → Prog σ κ ς δ ε α),
      (∀ r (tx : Tx κ ω ς) (s : Sys σ κ ω ς δ ε α ρ), s.Only n ⟨req, k r, tx⟩ →
        let r := (k r).alone E s.world.clock s.world.db (E.view tx s.world.db)
        Run E code anyStep s { world := s.world.answer n req r.1 r.2 }) →
      ∀ (todo hits : List κ) (tx : Tx κ ω ς) (s : Sys σ κ ω ς δ ε α ρ),
        s.Only n ⟨req, .scan q todo hits k, tx⟩ →
        let r := (Prog.scan q todo hits k).alone E s.world.clock s.world.db (E.view tx s.world.db)
        Run E code anyStep s { world := s.world.answer n req r.1 r.2 } := by
    intro q k ih todo hits tx s h
    obtain ⟨s', tx', hr, hw, ho, hv⟩ := run_take todo hits tx s h
    refine Run.trans hr ?_
    simp only [Prog.alone, Engine.finishWith]
    generalize E.take q todo hits (E.view tx s.world.db) = r at ho hv ⊢
    rw [← hw] at hv ⊢
    cases hf : E.finish q r.1 r.2 with
    | error d =>
      have hs : Run E code anyStep s' (s'.put n ⟨req, k (.error d), tx'⟩) :=
        ho.advance (by simp [ReadCommitted.advance, hv, hf])
      simpa [hv] using hs.trans (ih (.error d) tx' _ ho.put)
    | ok ws =>
      have hs : Run E code anyStep s'
          (s'.put n ⟨req, k (.ok (r.1, E.applyAll ws r.2)), tx'.write ws⟩) :=
        ho.advance (by simp [ReadCommitted.advance, hv, hf])
      simpa [hv] using hs.trans (ih _ (tx'.write ws) _ ho.put)
  induction p with
  | ret a =>
    intro tx s h
    have hs : Run E code anyStep s _ := h.advance rfl
    rwa [closed s _ _ _ h] at hs
  | raise e =>
    intro tx s h
    have hs : Run E code anyStep s _ := h.advance rfl
    rwa [closed s _ _ _ h] at hs
  | query k ih =>
    intro tx s h
    have hs : Run E code anyStep s _ := h.advance rfl
    exact hs.trans (ih _ tx _ h.put)
  | clock k ih =>
    intro tx s h
    have hs : Run E code anyStep s _ := h.advance rfl
    exact hs.trans (ih _ tx _ h.put)
  | exec q k ih =>
    intro tx s h
    have hs : Run E code anyStep s _ := h.advance rfl
    exact hs.trans (finish _ k ih _ _ (tx.begin q _) _ h.put)
  | scan q todo hits k ih => exact finish q k ih todo hits
  | commit k ih =>
    intro tx s h
    have hs : Run E code anyStep s _ := h.advance rfl
    exact hs.trans (ih {} _ h.put)

theorem run_serve (w : World σ ρ ε α) (req : ρ) :
    Run E code anyStep ({ world := w } : Sys σ κ ω ς δ ε α ρ) { world := w.serve E code req } := by
  have hs : Run E code anyStep ({ world := w } : Sys σ κ ω ς δ ε α ρ)
      { world := w.start,
        conns := Function.update (fun _ => none) w.started (some ⟨req, code w.started req, {}⟩) } :=
    Run.single (a := .start req) trivial rfl
  exact hs.trans (run_alone (code w.started req) {} _ rfl)

/-- **Requests served one at a time are a run of the interleaved system.** -/
theorem serial_run {w w' : World σ ρ ε α} (h : Serial E code w w') :
    Run E code anyStep ({ world := w } : Sys σ κ ω ς δ ε α ρ) { world := w' } := by
  induction h with
  | refl => exact .refl _
  | serve req _ ih => exact ih.trans (run_serve _ req)
  | tick d _ ih => exact ih.trans (Run.single (a := .tick d) trivial rfl)

end ReadCommitted
