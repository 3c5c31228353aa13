import Tradinghub.Lib.Connections
import Mathlib.Logic.Hydra
import Mathlib.Algebra.BigOperators.Group.Finset.Piecewise

/-!
# Waiting for rows

A statement under way waits for the rows it still has to take.  A request waits for another that
holds such a row (`Sys.waits`), and is deadlocked when a chain of waits comes back to it
(`Sys.Deadlocked`).

Requests that can always move come to their ends.  Whatever the store answers, a program has
finitely many steps left (`Next.wf`), and so have the open requests together (`step_remaining`).
`Inevitable.of_progress` is the rule: where some open request can move in every state that is not
the end yet, the end comes whichever of them moves.
-/

namespace ReadCommitted

variable {σ κ ω ς δ ε α ρ : Type}

/-! ## Chains of waits -/

/-- The rows the statement under way has still to take. -/
def Prog.todo : Prog σ κ ς δ ε α → List κ
  | .scan _ todo _ _ => todo
  | _ => []

/-- Only a statement under way has rows to take. -/
theorem Prog.todo_of_statement {p : Prog σ κ ς δ ε α} (h : p.statement = none) : p.todo = [] := by
  cases p with
  | scan => cases h
  | _ => rfl

/-- Request `n` has to take a row that `m` holds until the end of its transaction. -/
def Sys.waits [DecidableEq κ] (s : Sys σ κ ω ς δ ε α ρ) (n m : Nat) : Bool :=
  decide (n ≠ m) && (s.conns n).any fun c => (s.conns m).any fun d =>
    c.prog.todo.any fun key => decide (key ∈ d.tx.locks)

/-- A cycle of open requests, each waiting for a row that the next one holds. -/
def Sys.Deadlocked [DecidableEq κ] (s : Sys σ κ ω ς δ ε α ρ) (n : Nat) : Prop :=
  Relation.TransGen (fun n m => s.waits n m = true) n n

section Waits

variable [DecidableEq κ] {s : Sys σ κ ω ς δ ε α ρ} {n m : Nat}

theorem Sys.waits_iff : s.waits n m = true ↔ n ≠ m ∧ ∃ c d, s.conns n = some c ∧
    s.conns m = some d ∧ ∃ key ∈ c.prog.todo, key ∈ d.tx.locks := by
  simp only [Sys.waits, Bool.and_eq_true, decide_eq_true_eq, Option.any_eq_true, List.any_eq_true]
  constructor
  · rintro ⟨hne, c, hc, d, hd, key, hkey, hheld⟩
    exact ⟨hne, c, d, hc, hd, key, hkey, hheld⟩
  · rintro ⟨hne, c, d, hc, hd, key, hkey, hheld⟩
    exact ⟨hne, c, hc, d, hd, key, hkey, hheld⟩

/-- The next one of the cycle. -/
theorem Sys.Deadlocked.next (h : s.Deadlocked n) : ∃ m, s.waits n m = true ∧ s.Deadlocked m := by
  obtain ⟨m, hnm, hmn⟩ := Relation.TransGen.head'_iff.1 h
  exact ⟨m, hnm, Relation.TransGen.tail' hmn hnm⟩

/-- A request that waits for one that waits for it. -/
theorem Sys.deadlocked_of_waits (hnm : s.waits n m = true) (hmn : s.waits m n = true) :
    s.Deadlocked n :=
  .tail (.single hnm) hmn

/-- A row that is not free is held by somebody else. -/
theorem Sys.free_or_held (hb : ∀ m c, s.conns m = some c → m < s.world.started) (n : Nat)
    (key : κ) : s.free n key = true ∨ ∃ m d, m ≠ n ∧ s.conns m = some d ∧ key ∈ d.tx.locks := by
  by_cases hheld : ∃ m d, m ≠ n ∧ s.conns m = some d ∧ key ∈ d.tx.locks
  · exact Or.inr hheld
  · exact Or.inl ((free_iff s hb n key).2 fun m d hm hd hkey => hheld ⟨m, d, hm, hd, hkey⟩)

/-- A request with no row to take can move. -/
theorem exists_advance {E : Engine σ κ ω ς δ} {code : Nat → ρ → Prog σ κ ς δ ε α}
    {c : Conn σ κ ω ς δ ε α ρ} (hc : s.conns n = some c) (htodo : c.prog.todo = []) :
    ∃ s', step E code s (.advance n) = some s' := by
  simp only [step, hc, Option.bind_some]
  unfold advance
  cases hp : c.prog with
  | scan q todo hits k =>
    rw [hp] at htodo
    obtain rfl : todo = [] := htodo
    dsimp only
    cases E.finish q hits (E.view c.tx s.world.db) with
    | error d => exact ⟨_, rfl⟩
    | ok ws => exact ⟨_, rfl⟩
  | _ => exact ⟨_, rfl⟩

/-- So can one with a row to take that is free. -/
theorem exists_lock {E : Engine σ κ ω ς δ} {code : Nat → ρ → Prog σ κ ς δ ε α}
    {c : Conn σ κ ω ς δ ε α ρ} (hc : s.conns n = some c) {key : κ} (hkey : key ∈ c.prog.todo)
    (hfree : s.free n key = true) : ∃ s', step E code s (.lock n key) = some s' := by
  simp only [step, hc, Option.bind_some]
  unfold lockRow
  cases hp : c.prog with
  | scan q todo hits k =>
    rw [hp] at hkey
    have hcan : key ∈ todo ∧ s.free n key = true := ⟨hkey, hfree⟩
    simp only [if_pos hcan]
    cases E.act q key (E.view c.tx s.world.db) with
    | none => exact ⟨_, rfl⟩
    | some ws => exact ⟨_, rfl⟩
  | _ =>
    rw [hp] at hkey
    cases hkey

end Waits

/-! ## The steps that are left -/

/-- One step of the program, whatever the store answers. -/
inductive Prog.Next : Prog σ κ ς δ ε α → Prog σ κ ς δ ε α → Prop
  | query (k : σ → Prog σ κ ς δ ε α) (db : σ) : Next (k db) (.query k)
  | clock (k : Int → Prog σ κ ς δ ε α) (now : Int) : Next (k now) (.clock k)
  | exec (q q' : ς) (k : Except δ (List κ × σ) → Prog σ κ ς δ ε α) (todo hits : List κ) :
      Next (.scan q' todo hits k) (.exec q k)
  | row (q : ς) (k : Except δ (List κ × σ) → Prog σ κ ς δ ε α) {todo todo' : List κ}
      (hits hits' : List κ) (h : todo'.length < todo.length) :
      Next (.scan q todo' hits' k) (.scan q todo hits k)
  | finish (q : ς) (k : Except δ (List κ × σ) → Prog σ κ ς δ ε α) (todo hits : List κ)
      (r : Except δ (List κ × σ)) : Next (k r) (.scan q todo hits k)
  | commit (k : Prog σ κ ς δ ε α) : Next k (.commit k)

/-- A statement under way ends, once it is known that whatever follows it does. -/
theorem Prog.acc_scan {k : Except δ (List κ × σ) → Prog σ κ ς δ ε α}
    (hk : ∀ r, Acc Prog.Next (k r)) (q : ς) :
    ∀ (len : Nat) (todo hits : List κ), todo.length = len → Acc Prog.Next (.scan q todo hits k) := by
  intro len
  induction len using Nat.strong_induction_on with
  | _ len ih =>
    rintro todo hits rfl
    constructor
    intro p hp
    cases hp with
    | row _ _ _ _ h => exact ih _ h _ _ rfl
    | finish _ _ _ _ r => exact hk r

/-- No program goes on forever. -/
theorem Prog.Next.wf :
    WellFounded (Prog.Next : Prog σ κ ς δ ε α → Prog σ κ ς δ ε α → Prop) := by
  constructor
  intro p
  induction p with
  | ret a => exact ⟨_, fun _ h => by cases h⟩
  | raise e => exact ⟨_, fun _ h => by cases h⟩
  | query k ih => exact ⟨_, fun _ h => by cases h with | query _ db => exact ih db⟩
  | clock k ih => exact ⟨_, fun _ h => by cases h with | clock _ now => exact ih now⟩
  | exec q k ih =>
    refine ⟨_, fun _ h => ?_⟩
    cases h with
    | exec _ q' _ todo hits => exact Prog.acc_scan ih q' _ todo hits rfl
  | scan q todo hits k ih => exact Prog.acc_scan ih q _ todo hits rfl
  | commit k ih => exact ⟨_, fun _ h => by cases h; exact ih⟩

/-- What is left to do for one who may be there. -/
def Conn.left : Option (Conn σ κ ω ς δ ε α ρ) → Multiset (Prog σ κ ς δ ε α)
  | none => 0
  | some c => {c.prog}

/-- What is left to do for all the open requests. -/
def Sys.remaining (s : Sys σ κ ω ς δ ε α ρ) : Multiset (Prog σ κ ς δ ε α) :=
  ∑ n ∈ Finset.range s.world.started, Conn.left (s.conns n)

/-- Only one request's part changes. -/
theorem remaining_update (conns : Nat → Option (Conn σ κ ω ς δ ε α ρ)) {n N : Nat} (hn : n < N)
    (x : Option (Conn σ κ ω ς δ ε α ρ)) :
    ∑ m ∈ Finset.range N, Conn.left (Function.update conns n x m) + Conn.left (conns n) =
      ∑ m ∈ Finset.range N, Conn.left (conns m) + Conn.left x := by
  have hmem : n ∈ Finset.range N := Finset.mem_range.2 hn
  have hrest : ∑ m ∈ Finset.range N \ {n}, Conn.left (Function.update conns n x m) =
      ∑ m ∈ Finset.range N \ {n}, Conn.left (conns m) := by
    refine Finset.sum_congr rfl fun m hm => ?_
    have hne : m ≠ n := fun he => (Finset.mem_sdiff.1 hm).2 (Finset.mem_singleton.2 he)
    rw [Function.update_of_ne hne]
  rw [Finset.sum_eq_add_sum_sdiff_singleton_of_mem hmem,
    Finset.sum_eq_add_sum_sdiff_singleton_of_mem hmem fun m => Conn.left (conns m), hrest,
    Function.update_self, add_right_comm, add_comm (Conn.left x), add_right_comm]

/-- The step is one of an open request: its next statement, or its next row. -/
def Action.moves : Action κ ε ρ → Bool
  | .advance _ => true
  | .lock _ _ => true
  | _ => false

section Left

variable [DecidableEq κ] {E : Engine σ κ ω ς δ} {code : Nat → ρ → Prog σ κ ς δ ε α}
  {s s' : Sys σ κ ω ς δ ε α ρ} {a : Action κ ε ρ} {n : Nat}

theorem Own.next {c c' : Conn σ κ ω ς δ ε α ρ} (h : Own E s n c a c') :
    Prog.Next c'.prog c.prog := by
  obtain ⟨req, prog, tx⟩ := c
  cases h with
  | query hprog =>
    obtain rfl : prog = _ := hprog
    exact .query _ _
  | clock hprog =>
    obtain rfl : prog = _ := hprog
    exact .clock _ _
  | exec hprog =>
    obtain rfl : prog = _ := hprog
    exact .exec _ _ _ _ _
  | refused hprog | done hprog =>
    obtain rfl : prog = _ := hprog
    exact .finish _ _ _ _ _
  | commit hprog =>
    obtain rfl : prog = _ := hprog
    exact .commit _
  | skip hprog hkey | take hprog hkey =>
    obtain rfl : prog = _ := hprog
    refine .row _ _ _ _ ?_
    have hpos := List.length_pos_of_mem hkey
    rw [List.length_erase_of_mem hkey]
    omega

/-- **One move.**  Less is left to do for the request that moves, and as much for the others. -/
theorem step_remaining (hb : ∀ n c, s.conns n = some c → n < s.world.started)
    (hs : step E code s a = some s') (ha : a.moves = true) :
    Relation.CutExpand Prog.Next s'.remaining s.remaining := by
  have hput : ∀ {n : Nat} {c c' : Conn σ κ ω ς δ ε α ρ}, s.conns n = some c →
      Prog.Next c'.prog c.prog →
      Relation.CutExpand Prog.Next
        (∑ m ∈ Finset.range s.world.started, Conn.left (Function.update s.conns n (some c') m))
        s.remaining := by
    intro n c c' hc hnext
    refine ⟨{c'.prog}, c.prog, fun p hp => ?_, ?_⟩
    · rw [Multiset.mem_singleton.1 hp]
      exact hnext
    · have h := remaining_update s.conns (hb n c hc) (some c')
      rw [hc] at h
      exact h
  have hclose : ∀ {n : Nat} {c : Conn σ κ ω ς δ ε α ρ}, s.conns n = some c →
      Relation.CutExpand Prog.Next
        (∑ m ∈ Finset.range s.world.started, Conn.left (Function.update s.conns n none m))
        s.remaining := by
    intro n c hc
    refine ⟨0, c.prog, fun p hp => absurd hp (Multiset.notMem_zero p), ?_⟩
    have h := remaining_update s.conns (hb n c hc) none
    rw [hc] at h
    exact h
  cases step_move hs with
  | start => cases ha
  | own hc h _ => exact hput hc h.next
  | @commit n c k hc hprog =>
    have hown : Own E s n c (.advance n) { c with prog := k, tx := {} } := .commit hprog
    exact hput hc hown.next
  | ret hc => exact hclose hc
  | raise hc => exact hclose hc
  | abort => cases ha
  | tick => cases ha

end Left

/-! ## Cycles -/

/-- The two are in one cycle. -/
def Sys.Cycle [DecidableEq κ] (s : Sys σ κ ω ς δ ε α ρ) (n m : Nat) : Prop :=
  Relation.TransGen (fun n m => s.waits n m = true) n m ∧
    Relation.TransGen (fun n m => s.waits n m = true) m n

section Cycles

variable [DecidableEq κ] {s : Sys σ κ ω ς δ ε α ρ} {n m : Nat}

/-- What holds of one in a cycle, and of the next if of the one before, holds of all of them. -/
theorem Sys.Cycle.rule {P : Nat → Prop} (h : s.Cycle n m) (hn : P n)
    (hnext : ∀ j k, s.Deadlocked j → s.Deadlocked k → s.waits j k = true → P j → P k) : P m := by
  obtain ⟨hnm, hmn⟩ := h
  have hback : s.Deadlocked n := hnm.trans hmn
  -- on the way from `n` to `m`, everyone has been come to from `n` and comes back to it
  have hway : ∀ k, Relation.TransGen (fun n m => s.waits n m = true) n k →
      Relation.TransGen (fun n m => s.waits n m = true) k n → P k := by
    intro k hnk
    induction hnk with
    | single hwaits =>
      intro hkn
      exact hnext _ _ hback (hkn.tail hwaits) hwaits hn
    | @tail j k hnj hwaits ih =>
      intro hkn
      have hjn : Relation.TransGen (fun n m => s.waits n m = true) j n := .head hwaits hkn
      exact hnext j k (hjn.trans hnj) (hkn.trans (hnj.tail hwaits)) hwaits (ih hjn)
  exact hway m hnm hmn

/-- A request in a cycle holds a row and waits for another one. -/
theorem Sys.Deadlocked.between (h : s.Deadlocked n)
    (hdisjoint : ∀ n m c d, n ≠ m → s.conns n = some c → s.conns m = some d →
      c.tx.locks.Disjoint d.tx.locks) :
    ∃ c, s.conns n = some c ∧ ∃ held ∈ c.tx.locks, ∃ key ∈ c.prog.todo, held ≠ key := by
  obtain ⟨m, hnm, -⟩ := Relation.TransGen.head'_iff.1 h
  obtain ⟨k, -, hkn⟩ := Relation.TransGen.tail'_iff.1 h
  obtain ⟨hne, c, d, hc, hd, key, hkey, hlocked⟩ := Sys.waits_iff.1 hnm
  obtain ⟨-, e, c', he, hc', held, hwanted, hheld⟩ := Sys.waits_iff.1 hkn
  obtain rfl := Option.some.inj (hc.symm.trans hc')
  refine ⟨c, hc, held, hheld, key, hkey, ?_⟩
  rintro rfl
  exact hdisjoint n m c d hne hc hd hheld hlocked

/-- On finitely many requests, waits without a cycle are well founded. -/
theorem Sys.waits_wf (hacyclic : ∀ n, ¬ s.Deadlocked n) :
    WellFounded fun n m : Fin s.world.started => s.waits m n = true := by
  have hwf : WellFounded (Relation.TransGen fun n m : Fin s.world.started => s.waits m n = true) := by
    have htrans : IsTrans (Fin s.world.started)
        (Relation.TransGen fun n m => s.waits m n = true) := ⟨fun _ _ _ => Relation.TransGen.trans⟩
    have hirrefl : Std.Irrefl
        (Relation.TransGen fun n m : Fin s.world.started => s.waits m n = true) := by
      refine ⟨fun n hn => hacyclic n ?_⟩
      have hswap := Relation.transGen_swap.1 hn
      exact hswap.lift (fun n : Fin s.world.started => n.val) fun _ _ h => h
    exact Finite.wellFounded_of_trans_of_irrefl _
  exact hwf.mono fun _ _ h => Relation.TransGen.single h

/-- **No cycle, no standstill**: where nobody is deadlocked, some open request can move. -/
theorem exists_move {E : Engine σ κ ω ς δ} {code : Nat → ρ → Prog σ κ ς δ ε α}
    (hb : ∀ m c, s.conns m = some c → m < s.world.started) (hacyclic : ∀ n, ¬ s.Deadlocked n)
    {c : Conn σ κ ω ς δ ε α ρ} (hc : s.conns n = some c) :
    ∃ a s', a.moves = true ∧ step E code s a = some s' := by
  have hmove : ∀ m : Fin s.world.started, ∀ d, s.conns m = some d →
      ∃ a s', a.moves = true ∧ step E code s a = some s' := by
    intro m
    induction m using (Sys.waits_wf hacyclic).induction with
    | _ m ih =>
      intro d hd
      cases htodo : d.prog.todo with
      | nil =>
        obtain ⟨s', hs⟩ : ∃ s', step E code s (.advance m) = some s' := exists_advance hd htodo
        exact ⟨_, s', rfl, hs⟩
      | cons key todo =>
        have hkey : key ∈ d.prog.todo := htodo ▸ List.mem_cons_self
        rcases s.free_or_held hb m key with hfree | ⟨k, e, hne, he, hheld⟩
        · obtain ⟨s', hs⟩ : ∃ s', step E code s (.lock m key) = some s' :=
            exists_lock hd hkey hfree
          exact ⟨_, s', rfl, hs⟩
        · have hwaits : s.waits m k = true :=
            Sys.waits_iff.2 ⟨Ne.symm hne, d, e, hd, he, key, hkey, hheld⟩
          exact ih ⟨k, hb k e he⟩ hwaits e he
  exact hmove ⟨n, hb n c hc⟩ c hc

end Cycles

/-! ## What a request can hold -/

section Footprints

variable [DecidableEq κ] {E : Engine σ κ ω ς δ} {code : Nat → ρ → Prog σ κ ς δ ε α}
  {ok : Sys σ κ ω ς δ ε α ρ → Action κ ε ρ → Prop} {s₀ s : Sys σ κ ω ς δ ε α ρ}
  {C : Nat → ρ → Contract ς α}

/-- Holds no row yet, is taking rows, or is at its end. -/
def Conn.Placed (c : Conn σ κ ω ς δ ε α ρ) : Prop :=
  c.tx.locks = [] ∨ (∃ q todo hits k, c.prog = .scan q todo hits k) ∨ c.prog.Ends fun _ => True

omit [DecidableEq κ] in
theorem Prog.Meets.todo {D : Contract ς α} {p : Prog σ κ ς δ ε α} (h : p.Meets D) :
    p.todo = [] := by
  cases p with
  | scan => exact h.elim
  | _ => rfl

omit [DecidableEq κ] in
theorem Prog.Ends.todo {P : α → Prop} {p : Prog σ κ ς δ ε α} (h : p.Ends P) : p.todo = [] := by
  cases p with
  | scan => exact h.elim
  | _ => rfl

omit [DecidableEq κ] in
/-- A program that goes on, and takes no rows, holds none. -/
theorem Conn.Placed.locks {c : Conn σ κ ω ς δ ε α ρ} (h : c.Placed)
    (hscan : ∀ q todo hits k, c.prog ≠ .scan q todo hits k) (hends : ¬ c.prog.Ends fun _ => True) :
    c.tx.locks = [] := by
  rcases h with h | ⟨q, todo, hits, k, hp⟩ | h
  · exact h
  · exact absurd hp (hscan q todo hits k)
  · exact absurd h hends

/-- What a request that sends one statement holds, and waits for, the statement has picked.  `F` is
known of the rows it picks, in whatever state, and stays known of fewer and in later states. -/
theorem Run.footprint {F : Sys σ κ ω ς δ ε α ρ → ρ → List κ → Prop} (h : Run E code ok s₀ s)
    (h₀ : ∀ n, s₀.conns n = none)
    (hstage : ∀ t, Run E code ok s₀ t → ∀ n c, t.conns n = some c →
      Stage E (C n c.req) c.prog c.tx.writes)
    (hmeets : ∀ n req, (code n req).Meets (C n req))
    (hnil : ∀ t req, F t req [])
    (hfewer : ∀ t req l l', l'.Subperm l → F t req l → F t req l')
    (hlater : ∀ t t' a req l, Run E code ok s₀ t → ok t a → step E code t a = some t' →
      F t req l → F t' req l)
    (hpick : ∀ t n c q k, Run E code ok s₀ t → t.conns n = some c → c.prog = .exec q k →
      (C n c.req).sends q → F t c.req (E.plan q t.world.db).2) :
    ∀ n c, s.conns n = some c → c.Placed ∧ F s c.req (c.tx.locks ++ c.prog.todo) := by
  have hfollows : Follows E code ok s₀ fun t _ c =>
      c.Placed ∧ F t c.req (c.tx.locks ++ c.prog.todo) := by
    refine ⟨fun {t t' req} _ _ _ => ?_, fun {t t' a n c c'} hr hok hs hc hown hfoot => ?_,
      fun hr hok hs _ _ hfoot => ⟨hfoot.1, hlater _ _ _ _ _ hr hok hs hfoot.2⟩⟩
    · refine ⟨Or.inl rfl, ?_⟩
      rw [(hmeets t.world.started req).todo]
      exact hnil _ _
    · obtain ⟨hplaced, hfoot⟩ := hfoot
      have hst := hstage t hr n c hc
      have hfoot' := hlater _ _ _ _ _ hr hok hs hfoot
      obtain ⟨req, prog, tx⟩ := c
      cases hown with
      | query hprog =>
        obtain rfl : prog = _ := hprog
        have hlocks := hplaced.locks (by simp) (by simp [Prog.Ends])
        refine ⟨Or.inl hlocks, ?_⟩
        rw [(hst.query.2 _).todo, hlocks]
        exact hnil _ _
      | clock hprog =>
        obtain rfl : prog = _ := hprog
        have hlocks := hplaced.locks (by simp) (by simp [Prog.Ends])
        refine ⟨Or.inl hlocks, ?_⟩
        rw [(hst.clock.2 _).todo, hlocks]
        exact hnil _ _
      | @exec q k hprog =>
        obtain rfl : prog = _ := hprog
        have hlocks := hplaced.locks (by simp) (by simp [Prog.Ends])
        obtain ⟨-, hq, -, -⟩ := hst.exec
        have hview : E.view tx t.world.db = t.world.db := hst.view (by simp [Prog.statement]) _
        refine ⟨Or.inr (Or.inl ⟨_, _, _, _, rfl⟩), ?_⟩
        show F t' req (tx.locks ++ (E.plan q (E.view tx t.world.db)).2)
        rw [show tx.locks = [] from hlocks, hview, List.nil_append]
        exact hlater _ _ _ _ _ hr hok hs (hpick t n _ q k hr hc rfl hq)
      | @refused q hits k d hprog =>
        obtain rfl : prog = _ := hprog
        obtain ⟨-, -, -, herror⟩ := hst.scan
        have hends : (k (.error d)).Ends fun _ => True := by
          obtain ⟨e, he⟩ := herror d
          rw [he]
          trivial
        refine ⟨Or.inr (Or.inr hends), ?_⟩
        rw [hends.todo]
        exact hfoot'
      | done hprog =>
        obtain rfl : prog = _ := hprog
        obtain ⟨-, -, hends, -⟩ := hst.scan
        refine ⟨Or.inr (Or.inr ((hends _).imp fun _ _ => trivial)), ?_⟩
        rw [(hends _).todo]
        exact hfoot'
      | commit hprog =>
        obtain rfl : prog = _ := hprog
        exact hst.not_commit.elim
      | skip hprog hkey =>
        obtain rfl : prog = _ := hprog
        refine ⟨Or.inr (Or.inl ⟨_, _, _, _, rfl⟩), hfewer _ _ _ _ ?_ hfoot'⟩
        exact ((List.erase_sublist).append_left tx.locks).subperm
      | take hprog hkey =>
        obtain rfl : prog = _ := hprog
        refine ⟨Or.inr (Or.inl ⟨_, _, _, _, rfl⟩), hfewer _ _ _ _ ?_ hfoot'⟩
        exact (List.perm_middle.symm.trans
          ((List.perm_cons_erase hkey).symm.append_left tx.locks)).subperm
  exact h.conns hfollows fun n c hc => absurd ((h₀ n).symm.trans hc) (by simp)

end Footprints

/-! ## Coming to an end -/

section Ends

variable [DecidableEq κ] {E : Engine σ κ ω ς δ} {code : Nat → ρ → Prog σ κ ς δ ε α}
  {ok : Sys σ κ ω ς δ ε α ρ → Action κ ε ρ → Prop} {P I : Sys σ κ ω ς δ ε α ρ → Prop}

/-- Whichever allowed steps are taken, the run comes to a state with `P`: as long as it is not
there it can go on, and it does not go on forever. -/
inductive Inevitable (E : Engine σ κ ω ς δ) (code : Nat → ρ → Prog σ κ ς δ ε α)
    (ok : Sys σ κ ω ς δ ε α ρ → Action κ ε ρ → Prop) (P : Sys σ κ ω ς δ ε α ρ → Prop) :
    Sys σ κ ω ς δ ε α ρ → Prop
  | here {s} (h : P s) : Inevitable E code ok P s
  | later {s} (hmove : ∃ a s', ok s a ∧ step E code s a = some s')
      (h : ∀ a s', ok s a → step E code s a = some s' → Inevitable E code ok P s') :
      Inevitable E code ok P s

/-- **The rule.**  `I` is kept by moves of the open requests, and where `I` holds one of them can
move or the end is there. -/
theorem Inevitable.of_progress (hmoves : ∀ s a, ok s a → a.moves = true)
    (hb : ∀ s, I s → ∀ n c, s.conns n = some c → n < s.world.started)
    (hkeep : ∀ s a s', I s → ok s a → step E code s a = some s' → I s')
    (hprogress : ∀ s, I s → P s ∨ ∃ a s', ok s a ∧ step E code s a = some s')
    (s : Sys σ κ ω ς δ ε α ρ) (hI : I s) : Inevitable E code ok P s := by
  have hwf : WellFounded fun t u : Sys σ κ ω ς δ ε α ρ =>
      Relation.CutExpand Prog.Next t.remaining u.remaining :=
    InvImage.wf Sys.remaining Prog.Next.wf.cutExpand
  induction s using hwf.induction with
  | _ s ih =>
    rcases hprogress s hI with hP | hmove
    · exact .here hP
    · refine .later hmove fun a s' hok hs => ?_
      exact ih s' (step_remaining (hb s hI) hs (hmoves s a hok)) (hkeep s a s' hI hok hs)

end Ends

end ReadCommitted
