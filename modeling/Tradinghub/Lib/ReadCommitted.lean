import Mathlib.Logic.Function.Basic
import Mathlib.Logic.Relation
import Mathlib.Data.List.Basic

/-!
# Statement programs over a READ COMMITTED store

A request is a program of statements (`Prog`), run in one transaction.  An `Engine` says what a
store does for a statement:

* a plain read sees the rows committed before it began, and the transaction's own writes;
* a locking statement (SELECT FOR UPDATE, UPDATE, DELETE) picks its rows from that same view
  (`plan`), takes them one at a time in any order, waits for a row another open transaction
  holds, and then treats the row's newest version (`act`);
* `finish` checks the constraints and adds the writes that wait for no row (INSERT).

`step` runs any number of requests against one store, statement by statement and row by row,
in any order: an `Action` says who moves, and `step_move` lists what a step can be.  Locks are held, and writes stay private, until the
transaction ends.  `Prog.alone` runs one program with nobody else there; `run_alone` is the
proof that this is what the interleaved system does when nobody else is there.
-/

namespace ReadCommitted

variable {σ κ ω ς δ ε α β ρ : Type}

/-- What is found after an entry was written: it, or what was there. -/
theorem of_update_some {ι γ : Type} [DecidableEq ι] {f : ι → Option γ} {k i : ι} {v x : γ}
    (h : Function.update f k (some v) i = some x) : i = k ∧ x = v ∨ i ≠ k ∧ f i = some x := by
  by_cases hik : i = k
  · subst hik
    rw [Function.update_self] at h
    exact Or.inl ⟨rfl, (Option.some.inj h).symm⟩
  · rw [Function.update_of_ne hik] at h
    exact Or.inr ⟨hik, h⟩

theorem of_update_none {ι γ : Type} [DecidableEq ι] {f : ι → Option γ} {k i : ι} {x : γ}
    (h : Function.update f k none i = some x) : i ≠ k ∧ f i = some x := by
  by_cases hik : i = k
  · subst hik
    rw [Function.update_self] at h
    cases h
  · rw [Function.update_of_ne hik] at h
    exact ⟨hik, h⟩

/-- What a store does for a statement `ς`: rows have keys `κ`, writes are `ω`, and a broken
constraint answers an error `δ`. -/
structure Engine (σ κ ω ς δ : Type) where
  apply : ω → σ → σ
  plan : ς → σ → ς × List κ
  act : ς → κ → σ → Option (List ω)
  finish : ς → List κ → σ → Except δ (List ω)

/-- A request's program.  `scan` is an `exec` under way: the rows still to take, the rows taken. -/
inductive Prog (σ κ ς δ ε α : Type) where
  | ret (a : α)
  | raise (e : ε)
  | query (k : σ → Prog σ κ ς δ ε α)
  | clock (k : Int → Prog σ κ ς δ ε α)
  | exec (c : ς) (k : Except δ (List κ × σ) → Prog σ κ ς δ ε α)
  | scan (c : ς) (todo hits : List κ) (k : Except δ (List κ × σ) → Prog σ κ ς δ ε α)
  | commit (k : Prog σ κ ς δ ε α)

namespace Prog

/-- Sequencing. -/
def bind : Prog σ κ ς δ ε α → (α → Prog σ κ ς δ ε β) → Prog σ κ ς δ ε β
  | .ret a, f => f a
  | .raise e, _ => .raise e
  | .query k, f => .query fun db => (k db).bind f
  | .clock k, f => .clock fun now => (k now).bind f
  | .exec c k, f => .exec c fun r => (k r).bind f
  | .scan c todo hits k, f => .scan c todo hits fun r => (k r).bind f
  | .commit k, f => .commit (k.bind f)

instance : Monad (Prog σ κ ς δ ε) where
  pure := .ret
  bind := bind

@[simp] theorem pure_eq (a : α) : (pure a : Prog σ κ ς δ ε α) = .ret a := rfl

@[simp] theorem ret_bind (a : α) (f : α → Prog σ κ ς δ ε β) : (Prog.ret a >>= f) = f a := rfl

@[simp] theorem raise_bind (e : ε) (f : α → Prog σ κ ς δ ε β) :
    ((Prog.raise e : Prog σ κ ς δ ε α) >>= f) = .raise e := rfl

@[simp] theorem query_bind (k : σ → Prog σ κ ς δ ε α) (f : α → Prog σ κ ς δ ε β) :
    (Prog.query k >>= f) = .query fun db => k db >>= f := rfl

@[simp] theorem clock_bind (k : Int → Prog σ κ ς δ ε α) (f : α → Prog σ κ ς δ ε β) :
    (Prog.clock k >>= f) = .clock fun now => k now >>= f := rfl

@[simp] theorem exec_bind (c : ς) (k : Except δ (List κ × σ) → Prog σ κ ς δ ε α)
    (f : α → Prog σ κ ς δ ε β) : (Prog.exec c k >>= f) = .exec c fun r => k r >>= f := rfl

@[simp] theorem commit_bind (k : Prog σ κ ς δ ε α) (f : α → Prog σ κ ς δ ε β) :
    (Prog.commit k >>= f) = .commit (k >>= f) := rfl

theorem bind_assoc {γ : Type} (p : Prog σ κ ς δ ε α) (f : α → Prog σ κ ς δ ε β)
    (g : β → Prog σ κ ς δ ε γ) : p >>= f >>= g = p >>= fun a => f a >>= g := by
  induction p with
  | ret a => rfl
  | raise e => rfl
  | query k ih => exact congrArg Prog.query (funext fun db => ih db)
  | clock k ih => exact congrArg Prog.clock (funext fun t => ih t)
  | exec c k ih => exact congrArg (Prog.exec c) (funext fun r => ih r)
  | scan c todo hits k ih => exact congrArg (Prog.scan c todo hits) (funext fun r => ih r)
  | commit k ih => exact congrArg Prog.commit ih

theorem discard_eq (p : Prog σ κ ς δ ε α) : Functor.discard p = p >>= fun _ => .ret () := rfl

/-- A plain SELECT: its answer is computed from the rows the statement sees. -/
def select (q : σ → α) : Prog σ κ ς δ ε α := .query fun db => .ret (q db)

/-- The wall clock at the moment it is read. -/
def now : Prog σ κ ς δ ε Int := .clock .ret

/-- The program's next step ends its transaction with a commit. -/
def commits : Prog σ κ ς δ ε α → Bool
  | .ret _ => true
  | .commit _ => true
  | _ => false

end Prog

/-- An open transaction: the rows it holds, its private writes in order, and the statements it
began, each with the rows it picked when it began. -/
structure Tx (κ ω ς : Type) where
  locks : List κ := []
  writes : List ω := []
  begun : List (ς × List κ) := []

namespace Tx

def hold (tx : Tx κ ω ς) (key : κ) (ws : List ω) : Tx κ ω ς :=
  { tx with locks := key :: tx.locks, writes := tx.writes ++ ws }

def write (tx : Tx κ ω ς) (ws : List ω) : Tx κ ω ς := { tx with writes := tx.writes ++ ws }

def begin (tx : Tx κ ω ς) (c : ς) (keys : List κ) : Tx κ ω ς :=
  { tx with begun := (c, keys) :: tx.begun }

@[simp] theorem hold_locks (tx : Tx κ ω ς) (key : κ) (ws : List ω) :
    (tx.hold key ws).locks = key :: tx.locks := rfl
@[simp] theorem hold_writes (tx : Tx κ ω ς) (key : κ) (ws : List ω) :
    (tx.hold key ws).writes = tx.writes ++ ws := rfl
@[simp] theorem hold_begun (tx : Tx κ ω ς) (key : κ) (ws : List ω) :
    (tx.hold key ws).begun = tx.begun := rfl
@[simp] theorem write_locks (tx : Tx κ ω ς) (ws : List ω) : (tx.write ws).locks = tx.locks := rfl
@[simp] theorem write_writes (tx : Tx κ ω ς) (ws : List ω) :
    (tx.write ws).writes = tx.writes ++ ws := rfl
@[simp] theorem write_begun (tx : Tx κ ω ς) (ws : List ω) : (tx.write ws).begun = tx.begun := rfl
@[simp] theorem begin_locks (tx : Tx κ ω ς) (c : ς) (keys : List κ) :
    (tx.begin c keys).locks = tx.locks := rfl
@[simp] theorem begin_writes (tx : Tx κ ω ς) (c : ς) (keys : List κ) :
    (tx.begin c keys).writes = tx.writes := rfl
@[simp] theorem begin_begun (tx : Tx κ ω ς) (c : ς) (keys : List κ) :
    (tx.begin c keys).begun = (c, keys) :: tx.begun := rfl

end Tx

def Engine.applyAll (E : Engine σ κ ω ς δ) (ws : List ω) (db : σ) : σ :=
  ws.foldl (fun d w => E.apply w d) db

@[simp] theorem Engine.applyAll_nil (E : Engine σ κ ω ς δ) (db : σ) : E.applyAll [] db = db := rfl

@[simp] theorem Engine.applyAll_cons (E : Engine σ κ ω ς δ) (w : ω) (ws : List ω) (db : σ) :
    E.applyAll (w :: ws) db = E.applyAll ws (E.apply w db) := rfl

theorem Engine.applyAll_append (E : Engine σ κ ω ς δ) (ws ws' : List ω) (db : σ) :
    E.applyAll (ws ++ ws') db = E.applyAll ws' (E.applyAll ws db) := by
  simp [Engine.applyAll, List.foldl_append]

/-- What a transaction sees: the committed rows under its own writes. -/
def Engine.view (E : Engine σ κ ω ς δ) (tx : Tx κ ω ς) (db : σ) : σ := E.applyAll tx.writes db

@[simp] theorem Engine.view_empty (E : Engine σ κ ω ς δ) (db : σ) : E.view {} db = db := rfl

@[simp] theorem Engine.view_hold (E : Engine σ κ ω ς δ) (tx : Tx κ ω ς) (key : κ) (ws : List ω)
    (db : σ) : E.view (tx.hold key ws) db = E.applyAll ws (E.view tx db) :=
  E.applyAll_append _ _ _

@[simp] theorem Engine.view_write (E : Engine σ κ ω ς δ) (tx : Tx κ ω ς) (ws : List ω) (db : σ) :
    E.view (tx.write ws) db = E.applyAll ws (E.view tx db) :=
  E.applyAll_append _ _ _

@[simp] theorem Engine.view_begin (E : Engine σ κ ω ς δ) (tx : Tx κ ω ς) (q : ς) (keys : List κ)
    (db : σ) : E.view (tx.begin q keys) db = E.view tx db := rfl

/-! ## The interleaved system -/

/-- The committed rows, the clock, how many requests have begun, and every answer given. -/
structure World (σ ρ ε α : Type) where
  db : σ
  clock : Int := 0
  started : Nat := 0
  log : List (Nat × ρ × Except ε α) := []

namespace World

def answer (w : World σ ρ ε α) (n : Nat) (req : ρ) (r : Except ε α) (db : σ) : World σ ρ ε α :=
  { w with db := db, log := (n, req, r) :: w.log }

def start (w : World σ ρ ε α) : World σ ρ ε α := { w with started := w.started + 1 }

def tick (w : World σ ρ ε α) (d : Nat) : World σ ρ ε α := { w with clock := w.clock + d }

/-- No answer has been given to request `n`. -/
def Unanswered (w : World σ ρ ε α) (n : Nat) : Prop := ∀ e ∈ w.log, e.1 ≠ n

end World

/-- One open request: what was asked, what is left of its program, its transaction. -/
structure Conn (σ κ ω ς δ ε α ρ : Type) where
  req : ρ
  prog : Prog σ κ ς δ ε α
  tx : Tx κ ω ς

structure Sys (σ κ ω ς δ ε α ρ : Type) where
  world : World σ ρ ε α
  conns : Nat → Option (Conn σ κ ω ς δ ε α ρ) := fun _ => none

/-- Who moves.  `lock n key`: request `n` takes the next row of its statement.  `abort n e`: the
database or the client gives request `n` up, whatever it was doing. -/
inductive Action (κ ε ρ : Type) where
  | start (req : ρ)
  | advance (n : Nat)
  | lock (n : Nat) (key : κ)
  | abort (n : Nat) (e : ε)
  | tick (d : Nat)

namespace Sys

def put (s : Sys σ κ ω ς δ ε α ρ) (n : Nat) (c : Conn σ κ ω ς δ ε α ρ) : Sys σ κ ω ς δ ε α ρ :=
  { s with conns := Function.update s.conns n (some c) }

@[simp] theorem put_world (s : Sys σ κ ω ς δ ε α ρ) (n : Nat) (c : Conn σ κ ω ς δ ε α ρ) :
    (s.put n c).world = s.world := rfl

/-- The transaction is over: its locks and private writes go, the answer is given. -/
def close (s : Sys σ κ ω ς δ ε α ρ) (n : Nat) (req : ρ) (r : Except ε α) (db : σ) :
    Sys σ κ ω ς δ ε α ρ :=
  { world := s.world.answer n req r db, conns := Function.update s.conns n none }

/-- No other open transaction holds the row. -/
def free [DecidableEq κ] (s : Sys σ κ ω ς δ ε α ρ) (n : Nat) (key : κ) : Bool :=
  (List.range s.world.started).all fun m =>
    m == n || (s.conns m).all fun c => decide (key ∉ c.tx.locks)

end Sys

variable (E : Engine σ κ ω ς δ) (code : Nat → ρ → Prog σ κ ς δ ε α)

/-- One statement of request `n`, or the end of it.  `none`: it cannot move without a row. -/
def advance (s : Sys σ κ ω ς δ ε α ρ) (n : Nat) (c : Conn σ κ ω ς δ ε α ρ) :
    Option (Sys σ κ ω ς δ ε α ρ) :=
  let v := E.view c.tx s.world.db
  match c.prog with
  | .ret a => some (s.close n c.req (.ok a) v)
  | .raise e => some (s.close n c.req (.error e) s.world.db)
  | .query k => some (s.put n { c with prog := k v })
  | .clock k => some (s.put n { c with prog := k s.world.clock })
  | .exec q k => some (s.put n
      { c with
        prog := .scan (E.plan q v).1 (E.plan q v).2 [] k
        tx := c.tx.begin q (E.plan q v).2 })
  | .scan q [] hits k =>
    match E.finish q hits v with
    | .error d => some (s.put n { c with prog := k (.error d) })
    | .ok ws => some (s.put n
        { c with prog := k (.ok (hits, E.view (c.tx.write ws) s.world.db)), tx := c.tx.write ws })
  | .scan _ (_ :: _) _ _ => none
  | .commit k => some { s.put n { c with prog := k, tx := {} } with world.db := v }

/-- Request `n` takes the row `key`, once nobody else holds it. -/
def lockRow [DecidableEq κ] (s : Sys σ κ ω ς δ ε α ρ) (n : Nat) (c : Conn σ κ ω ς δ ε α ρ)
    (key : κ) : Option (Sys σ κ ω ς δ ε α ρ) :=
  match c.prog with
  | .scan q todo hits k =>
    if key ∈ todo ∧ s.free n key = true then
      match E.act q key (E.view c.tx s.world.db) with
      | none => some (s.put n { c with prog := .scan q (todo.erase key) hits k })
      | some ws => some (s.put n
          { c with prog := .scan q (todo.erase key) (hits ++ [key]) k, tx := c.tx.hold key ws })
    else none
  | _ => none

def step [DecidableEq κ] (s : Sys σ κ ω ς δ ε α ρ) :
    Action κ ε ρ → Option (Sys σ κ ω ς δ ε α ρ)
  | .start req => some
      { (s.put s.world.started ⟨req, code s.world.started req, {}⟩) with world := s.world.start }
  | .advance n => (s.conns n).bind fun c => advance E s n c
  | .lock n key => (s.conns n).bind fun c => lockRow E s n c key
  | .abort n e => (s.conns n).map fun c => s.close n c.req (.error e) s.world.db
  | .tick d => some { s with world := s.world.tick d }

/-- The request goes on as `c'` by a step of its own. -/
inductive Own [DecidableEq κ] (E : Engine σ κ ω ς δ) (s : Sys σ κ ω ς δ ε α ρ) (n : Nat)
    (c : Conn σ κ ω ς δ ε α ρ) : Action κ ε ρ → Conn σ κ ω ς δ ε α ρ → Prop
  | query {k} (hprog : c.prog = .query k) :
      Own E s n c (.advance n) { c with prog := k (E.view c.tx s.world.db) }
  | clock {k} (hprog : c.prog = .clock k) :
      Own E s n c (.advance n) { c with prog := k s.world.clock }
  | exec {q k} (hprog : c.prog = .exec q k) :
      Own E s n c (.advance n)
        { c with
          prog := .scan (E.plan q (E.view c.tx s.world.db)).1
            (E.plan q (E.view c.tx s.world.db)).2 [] k
          tx := c.tx.begin q (E.plan q (E.view c.tx s.world.db)).2 }
  | refused {q hits k d} (hprog : c.prog = .scan q [] hits k)
      (hfinish : E.finish q hits (E.view c.tx s.world.db) = .error d) :
      Own E s n c (.advance n) { c with prog := k (.error d) }
  | done {q hits k ws} (hprog : c.prog = .scan q [] hits k)
      (hfinish : E.finish q hits (E.view c.tx s.world.db) = .ok ws) :
      Own E s n c (.advance n)
        { c with prog := k (.ok (hits, E.view (c.tx.write ws) s.world.db)), tx := c.tx.write ws }
  | commit {k} (hprog : c.prog = .commit k) : Own E s n c (.advance n) { c with prog := k, tx := {} }
  | skip {q todo hits k key} (hprog : c.prog = .scan q todo hits k) (hkey : key ∈ todo)
      (hfree : s.free n key = true) (hact : E.act q key (E.view c.tx s.world.db) = none) :
      Own E s n c (.lock n key) { c with prog := .scan q (todo.erase key) hits k }
  | take {q todo hits k key ws} (hprog : c.prog = .scan q todo hits k) (hkey : key ∈ todo)
      (hfree : s.free n key = true) (hact : E.act q key (E.view c.tx s.world.db) = some ws) :
      Own E s n c (.lock n key)
        { c with prog := .scan q (todo.erase key) (hits ++ [key]) k, tx := c.tx.hold key ws }

/-- Everything a step can do. -/
inductive Move [DecidableEq κ] (E : Engine σ κ ω ς δ) (code : Nat → ρ → Prog σ κ ς δ ε α)
    (s : Sys σ κ ω ς δ ε α ρ) : Action κ ε ρ → Sys σ κ ω ς δ ε α ρ → Prop
  | start (req : ρ) :
      Move E code s (.start req)
        { (s.put s.world.started ⟨req, code s.world.started req, {}⟩) with world := s.world.start }
  | own {n c a c'} (hc : s.conns n = some c) (h : Own E s n c a c')
      (hcommit : ∀ k, c.prog ≠ .commit k) : Move E code s a (s.put n c')
  | commit {n c k} (hc : s.conns n = some c) (hprog : c.prog = .commit k) :
      Move E code s (.advance n)
        { s.put n { c with prog := k, tx := {} } with world.db := E.view c.tx s.world.db }
  | ret {n c a} (hc : s.conns n = some c) (hprog : c.prog = .ret a) :
      Move E code s (.advance n) (s.close n c.req (.ok a) (E.view c.tx s.world.db))
  | raise {n c e} (hc : s.conns n = some c) (hprog : c.prog = .raise e) :
      Move E code s (.advance n) (s.close n c.req (.error e) s.world.db)
  | abort {n c} (hc : s.conns n = some c) (e : ε) :
      Move E code s (.abort n e) (s.close n c.req (.error e) s.world.db)
  | tick (d : Nat) : Move E code s (.tick d) { s with world := s.world.tick d }

variable {E code} in
theorem step_move [DecidableEq κ] {s s' : Sys σ κ ω ς δ ε α ρ} {a : Action κ ε ρ}
    (hs : step E code s a = some s') : Move E code s a s' := by
  cases a with
  | start req =>
    simp only [step, Option.some.injEq] at hs
    subst hs
    exact .start req
  | advance m =>
    obtain ⟨c, hc, hs⟩ := Option.bind_eq_some_iff.1 hs
    unfold advance at hs
    cases hp : c.prog with
    | ret x =>
      simp only [hp, Option.some.injEq] at hs
      subst hs
      exact .ret hc hp
    | raise e =>
      simp only [hp, Option.some.injEq] at hs
      subst hs
      exact .raise hc hp
    | query k =>
      simp only [hp, Option.some.injEq] at hs
      subst hs
      exact .own hc (.query hp) (by simp [hp])
    | clock k =>
      simp only [hp, Option.some.injEq] at hs
      subst hs
      exact .own hc (.clock hp) (by simp [hp])
    | exec q k =>
      simp only [hp, Option.some.injEq] at hs
      subst hs
      exact .own hc (.exec hp) (by simp [hp])
    | commit k =>
      simp only [hp, Option.some.injEq] at hs
      subst hs
      exact .commit hc hp
    | scan q todo hits k =>
      cases todo with
      | cons key todo => simp [hp] at hs
      | nil =>
        simp only [hp] at hs
        split at hs <;> simp only [Option.some.injEq] at hs <;> subst hs
        · exact .own hc (.refused hp ‹_›) (by simp [hp])
        · exact .own hc (.done hp ‹_›) (by simp [hp])
  | lock m key =>
    obtain ⟨c, hc, hs⟩ := Option.bind_eq_some_iff.1 hs
    unfold lockRow at hs
    split at hs
    · rename_i q todo hits k hp
      split at hs
      · rename_i hcan
        split at hs <;> simp only [Option.some.injEq] at hs <;> subst hs
        · exact .own hc (.skip hp hcan.1 hcan.2 ‹_›) (by simp [hp])
        · exact .own hc (.take hp hcan.1 hcan.2 ‹_›) (by simp [hp])
      · cases hs
    · cases hs
  | abort m e =>
    obtain ⟨c, hc, rfl⟩ := Option.map_eq_some_iff.1 hs
    exact .abort hc e
  | tick d =>
    simp only [step, Option.some.injEq] at hs
    subst hs
    exact .tick d

/-- What a step may do to the committed rows and the answers: nothing, the failure of an open
request, or a commit of what it sees. -/
theorem step_cases [DecidableEq κ] {s s' : Sys σ κ ω ς δ ε α ρ} {a : Action κ ε ρ}
    (hs : step E code s a = some s') :
    (s'.world.db = s.world.db ∧ s'.world.log = s.world.log) ∨
    (∃ n c e, s.conns n = some c ∧ s'.world.db = s.world.db ∧
      s'.world.log = (n, c.req, .error e) :: s.world.log) ∨
    ∃ n c, a = .advance n ∧ s.conns n = some c ∧ c.prog.commits = true ∧
      s'.world.db = E.view c.tx s.world.db ∧
      (s'.world.log = s.world.log ∨
        ∃ x, c.prog = .ret x ∧ s'.world.log = (n, c.req, .ok x) :: s.world.log) := by
  cases step_move hs with
  | start req => exact Or.inl ⟨rfl, rfl⟩
  | own hc h _ => exact Or.inl ⟨rfl, rfl⟩
  | @commit n c k hc hprog =>
    exact Or.inr (Or.inr ⟨n, c, rfl, hc, by rw [hprog]; rfl, rfl, Or.inl rfl⟩)
  | @ret n c x hc hprog =>
    exact Or.inr (Or.inr ⟨n, c, rfl, hc, by rw [hprog]; rfl, rfl, Or.inr ⟨x, hprog, rfl⟩⟩)
  | @raise n c e hc hprog => exact Or.inr (Or.inl ⟨n, c, e, hc, rfl, rfl⟩)
  | @abort n c hc e => exact Or.inr (Or.inl ⟨n, c, e, hc, rfl, rfl⟩)
  | tick d => exact Or.inl ⟨rfl, rfl⟩

/-- Any number of steps, each allowed by `ok`. -/
inductive Run [DecidableEq κ] (ok : Sys σ κ ω ς δ ε α ρ → Action κ ε ρ → Prop) :
    Sys σ κ ω ς δ ε α ρ → Sys σ κ ω ς δ ε α ρ → Prop
  | refl (s : Sys σ κ ω ς δ ε α ρ) : Run ok s s
  | tail {s s' s'' : Sys σ κ ω ς δ ε α ρ} {a : Action κ ε ρ} :
      Run ok s s' → ok s' a → step E code s' a = some s'' → Run ok s s''

/-- Every step is allowed. -/
def anyStep : Sys σ κ ω ς δ ε α ρ → Action κ ε ρ → Prop := fun _ _ => True

section Runs

variable {E code} [DecidableEq κ] {ok : Sys σ κ ω ς δ ε α ρ → Action κ ε ρ → Prop}

theorem Run.trans {s s' s'' : Sys σ κ ω ς δ ε α ρ} (h : Run E code ok s s')
    (h' : Run E code ok s' s'') : Run E code ok s s'' := by
  induction h' with
  | refl => exact h
  | tail _ hok hs ih => exact .tail ih hok hs

theorem Run.single {s s' : Sys σ κ ω ς δ ε α ρ} {a : Action κ ε ρ} (hok : ok s a)
    (hs : step E code s a = some s') : Run E code ok s s' :=
  .tail (.refl s) hok hs

theorem Run.mono {ok' : Sys σ κ ω ς δ ε α ρ → Action κ ε ρ → Prop} (hok : ∀ s a, ok s a → ok' s a)
    {s s' : Sys σ κ ω ς δ ε α ρ} (h : Run E code ok s s') : Run E code ok' s s' := by
  induction h with
  | refl => exact .refl _
  | tail _ ha hs ih => exact .tail ih (hok _ _ ha) hs

/-- Nothing is ever taken off the log. -/
theorem step_log_mono {s s' : Sys σ κ ω ς δ ε α ρ} {a : Action κ ε ρ}
    (hs : step E code s a = some s') : ∀ e ∈ s.world.log, e ∈ s'.world.log := by
  intro e he
  rcases step_cases E code hs with
    ⟨-, hlog⟩ | ⟨_, _, _, -, -, hlog⟩ | ⟨_, _, -, -, -, -, hlog | ⟨_, -, hlog⟩⟩
  · rw [hlog]; exact he
  · rw [hlog]; exact List.mem_cons_of_mem _ he
  · rw [hlog]; exact he
  · rw [hlog]; exact List.mem_cons_of_mem _ he

theorem Run.log_mono {s s' : Sys σ κ ω ς δ ε α ρ} (h : Run E code ok s s') :
    ∀ e ∈ s.world.log, e ∈ s'.world.log := by
  induction h with
  | refl => exact fun e he => he
  | tail _ _ hs ih => exact fun e he => step_log_mono hs e (ih e he)

/-- A list of actions, taken in order. -/
def runList (E : Engine σ κ ω ς δ) (code : Nat → ρ → Prog σ κ ς δ ε α) :
    Sys σ κ ω ς δ ε α ρ → List (Action κ ε ρ) → Option (Sys σ κ ω ς δ ε α ρ)
  | s, [] => some s
  | s, a :: as => (step E code s a).bind fun s' => runList E code s' as

theorem run_of_runList (as : List (Action κ ε ρ)) :
    ∀ s s' : Sys σ κ ω ς δ ε α ρ, runList E code s as = some s' → Run E code anyStep s s' := by
  induction as with
  | nil => rintro s _ ⟨⟩; exact .refl s
  | cons a as ih =>
    intro s s' h
    obtain ⟨t, ht, h⟩ := Option.bind_eq_some_iff.1 h
    exact (Run.single trivial ht).trans (ih t s' h)

/-- A run found by following a list of actions. -/
theorem exists_run {as : List (Action κ ε ρ)} {s : Sys σ κ ω ς δ ε α ρ}
    {p : Sys σ κ ω ς δ ε α ρ → Bool} (h : (runList E code s as).any p = true) :
    ∃ s', runList E code s as = some s' ∧ Run E code anyStep s s' ∧ p s' = true := by
  obtain ⟨s', hs', hp⟩ := (Option.any_eq_true _ _).1 h
  exact ⟨s', hs', run_of_runList as s s' hs', hp⟩

/-- Every step along the list is allowed. -/
def allowed (E : Engine σ κ ω ς δ) (code : Nat → ρ → Prog σ κ ς δ ε α)
    (check : Sys σ κ ω ς δ ε α ρ → Action κ ε ρ → Bool) :
    Sys σ κ ω ς δ ε α ρ → List (Action κ ε ρ) → Bool
  | _, [] => true
  | s, a :: as => check s a && (step E code s a).all fun s' => allowed E code check s' as

theorem run_of_allowed {check : Sys σ κ ω ς δ ε α ρ → Action κ ε ρ → Bool}
    (as : List (Action κ ε ρ)) :
    ∀ s s' : Sys σ κ ω ς δ ε α ρ, allowed E code check s as = true →
      runList E code s as = some s' → Run E code (fun s a => check s a = true) s s' := by
  induction as with
  | nil => rintro s _ - ⟨⟩; exact .refl s
  | cons a as ih =>
    intro s s' hok h
    obtain ⟨t, ht, h⟩ := Option.bind_eq_some_iff.1 h
    obtain ⟨ha, hrest⟩ := Bool.and_eq_true_iff.1 hok
    rw [ht, Option.all_some] at hrest
    exact (Run.single ha ht).trans (ih t s' hrest h)

/-- An allowed run found by following a list of actions. -/
theorem exists_allowed {check : Sys σ κ ω ς δ ε α ρ → Action κ ε ρ → Bool}
    {as : List (Action κ ε ρ)} {s : Sys σ κ ω ς δ ε α ρ} {p : Sys σ κ ω ς δ ε α ρ → Bool}
    (hok : allowed E code check s as = true) (h : (runList E code s as).any p = true) :
    ∃ s', runList E code s as = some s' ∧ Run E code (fun s a => check s a = true) s s' ∧
      p s' = true := by
  obtain ⟨s', hs', hp⟩ := (Option.any_eq_true _ _).1 h
  exact ⟨s', hs', run_of_allowed as s s' hok hs', hp⟩

/-- One allowed run after another. -/
theorem exists_allowed_then {check check' : Sys σ κ ω ς δ ε α ρ → Action κ ε ρ → Bool}
    {as bs : List (Action κ ε ρ)} {s : Sys σ κ ω ς δ ε α ρ}
    {p : Sys σ κ ω ς δ ε α ρ → Sys σ κ ω ς δ ε α ρ → Bool}
    (hok : allowed E code check s as = true)
    (h : (runList E code s as).any (fun t =>
      allowed E code check' t bs && (runList E code t bs).any (p t)) = true) :
    ∃ t u, runList E code s as = some t ∧ Run E code (fun s a => check s a = true) s t ∧
      runList E code t bs = some u ∧ Run E code (fun s a => check' s a = true) t u ∧
      p t u = true := by
  obtain ⟨t, ht, h⟩ := (Option.any_eq_true _ _).1 h
  obtain ⟨hok', h⟩ := Bool.and_eq_true_iff.1 h
  obtain ⟨u, hlist, hu, hp⟩ := exists_allowed hok' h
  exact ⟨t, u, ht, run_of_allowed as s t hok ht, hlist, hu, hp⟩

/-- Every open request can be given up. -/
theorem run_abort_all (e : ε) (s : Sys σ κ ω ς δ ε α ρ) (N : Nat) :
    ∃ s', Run E code anyStep s s' ∧ s'.world.db = s.world.db ∧ (∀ n, n < N → s'.conns n = none) ∧
      ∀ n, s.conns n = none → s'.conns n = none := by
  induction N with
  | zero => exact ⟨s, .refl s, rfl, fun n hn => absurd hn (by omega), fun n hn => hn⟩
  | succ N ih =>
    obtain ⟨s', hr, hdb, hlt, hkeep⟩ := ih
    cases hc : s'.conns N with
    | none =>
      refine ⟨s', hr, hdb, fun n hn => ?_, hkeep⟩
      rcases Nat.lt_succ_iff_lt_or_eq.1 hn with hn | rfl
      · exact hlt n hn
      · exact hc
    | some c =>
      have hs : step E code s' (.abort N e) = some (s'.close N c.req (.error e) s'.world.db) := by
        simp only [step, hc, Option.map_some]
      refine ⟨_, .tail hr trivial hs, hdb, fun n hn => ?_, fun n hn => ?_⟩
      · by_cases hnN : n = N
        · subst hnN
          simp [Sys.close]
        · have hn' : n < N := by omega
          simp [Sys.close, hnN, hlt n hn']
      · by_cases hnN : n = N
        · subst hnN
          simp [Sys.close]
        · simp [Sys.close, hnN, hkeep n hn]

/-- `free`, as a statement about every other connection. -/
theorem free_iff (s : Sys σ κ ω ς δ ε α ρ) (hb : ∀ m c, s.conns m = some c → m < s.world.started)
    (n : Nat) (key : κ) :
    s.free n key = true ↔ ∀ m c, m ≠ n → s.conns m = some c → key ∉ c.tx.locks := by
  simp only [Sys.free, List.all_eq_true, List.mem_range, Bool.or_eq_true, beq_iff_eq]
  constructor
  · intro h m c hm hc
    rcases h m (hb m c hc) with h | h
    · exact absurd h hm
    · simpa [hc] using h
  · intro h m _
    rcases eq_or_ne m n with rfl | hm
    · exact Or.inl rfl
    · right
      cases hc : s.conns m with
      | none => rfl
      | some c => simpa using h m c hm hc

end Runs

end ReadCommitted
