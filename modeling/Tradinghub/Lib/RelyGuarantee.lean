import Tradinghub.Lib.Connections

/-!
# Rely and guarantee for statement programs

A `Discipline` says what is kept about the committed rows (`inv`) and what one commit may do to
them (`guar`).  `wp` is the weakest precondition of what is left of a program, under any commits
of the other transactions: between two statements the world may move by `Other` steps, which
respect `guar` and the rows this transaction holds.  `Good.run` is the rule: a discipline every
request's program obeys holds in every state of every interleaving.

Runs can be restricted (`ok`): `read` and `touch` are what a restricted run grants when a
statement reads, or takes a row.
-/

namespace ReadCommitted

variable {σ κ ω ς δ ε α ρ : Type}

structure Discipline (σ κ ω ς ε α ρ : Type) where
  inv : World σ ρ ε α → Prop
  guar : Nat → Tx κ ω ς → σ → σ → Prop
  /-- what an answer says about the rows before and after the commit it came with -/
  post : Nat → ρ → α → σ → σ → Prop := fun _ _ _ _ _ => True
  read : Nat → ρ → σ → Prop := fun _ _ _ => True
  touch : Nat → ς → κ → σ → Prop := fun _ _ _ _ => True

variable (D : Discipline σ κ ω ς ε α ρ)

/-- One move of the world by somebody other than the open transaction `tx` of request `n`. -/
inductive Other (n : Nat) (tx : Tx κ ω ς) : World σ ρ ε α → World σ ρ ε α → Prop
  | commit {w : World σ ρ ε α} {m : Nat} {tx' : Tx κ ω ς} {db : σ} (hne : m ≠ n)
      (hopen : w.Unanswered m) (hlt : m < w.started) (hinv : D.inv w)
      (hlocks : tx.locks.Disjoint tx'.locks) (hguar : D.guar m tx' w.db db) :
      Other n tx w { w with db := db }
  | answer {w : World σ ρ ε α} {m : Nat} {req : ρ} {r : Except ε α} (hne : m ≠ n) :
      Other n tx w (w.answer m req r w.db)
  | start (w : World σ ρ ε α) : Other n tx w w.start
  | tick (w : World σ ρ ε α) (d : Nat) : Other n tx w (w.tick d)

def Rely (n : Nat) (tx : Tx κ ω ς) : World σ ρ ε α → World σ ρ ε α → Prop :=
  Relation.ReflTransGen (Other D n tx)

/-- `w'` is a world in which request `n`, last seen in `w`, may take its next step. -/
structure At (n : Nat) (tx : Tx κ ω ς) (w w' : World σ ρ ε α) : Prop where
  rely : Rely D n tx w w'
  inv : D.inv w'
  unanswered : w'.Unanswered n
  lt : n < w'.started

section Stability

variable {D} {n : Nat} {tx : Tx κ ω ς} {w w' w'' : World σ ρ ε α}

theorem Rely.refl (w : World σ ρ ε α) : Rely D n tx w w := Relation.ReflTransGen.refl

theorem Rely.trans (h : Rely D n tx w w') (h' : Rely D n tx w' w'') : Rely D n tx w w'' :=
  Relation.ReflTransGen.trans h h'

theorem Rely.at (h : Rely D n tx w w') (h' : At D n tx w' w'') : At D n tx w w'' :=
  { h' with rely := h.trans h'.rely }

/-- A fact that every other commit keeps, and that the clock, new requests and answers cannot
touch, is stable. -/
theorem Rely.stable {P : World σ ρ ε α → Prop} (h : Rely D n tx w w')
    (hstep : ∀ u u', Other D n tx u u' → P u → P u') (hP : P w) : P w' := by
  induction h with
  | refl => exact hP
  | tail _ ho ih => exact hstep _ _ ho ih

theorem Rely.stable_db {P : σ → Prop} (h : Rely D n tx w w')
    (hstep : ∀ (u : World σ ρ ε α) m tx' db, m ≠ n → u.Unanswered m → m < u.started → D.inv u →
      tx.locks.Disjoint tx'.locks → D.guar m tx' u.db db → P u.db → P db)
    (hP : P w.db) : P w'.db := by
  refine h.stable (P := fun u => P u.db) ?_ hP
  intro u u' ho hu
  cases ho with
  | commit hne hopen hlt hinv hlocks hguar =>
    exact hstep u _ _ _ hne hopen hlt hinv hlocks hguar hu
  | answer _ => exact hu
  | start => exact hu
  | tick => exact hu

theorem Rely.log_mono (h : Rely D n tx w w') : ∀ e ∈ w.log, e ∈ w'.log := by
  intro e he
  refine h.stable (P := fun u => e ∈ u.log) ?_ he
  intro u u' ho hu
  cases ho with
  | commit => exact hu
  | answer _ => exact List.mem_cons_of_mem _ hu
  | start => exact hu
  | tick => exact hu

theorem Rely.clock_le (h : Rely D n tx w w') : w.clock ≤ w'.clock := by
  refine h.stable (P := fun u => w.clock ≤ u.clock) ?_ (Int.le_refl _)
  intro u u' ho hu
  cases ho with
  | commit => exact hu
  | answer _ => exact hu
  | start => exact hu
  | tick d => exact Int.le_trans hu (Int.le_add_of_nonneg_right (Int.natCast_nonneg d))

end Stability

/-! ## Weakest preconditions -/

variable (E : Engine σ κ ω ς δ) (n : Nat)

/-- The statement `q` may take its remaining rows in any order, and `post` holds at its end. -/
inductive ScanOk [DecidableEq κ] (post : Except δ (List κ × σ) → Tx κ ω ς → World σ ρ ε α → Prop)
    (q : ς) : List κ → List κ → Tx κ ω ς → World σ ρ ε α → Prop
  | mk {todo hits : List κ} {tx : Tx κ ω ς} {w : World σ ρ ε α}
      (refused : todo = [] → ∀ w', At D n tx w w' → ∀ d,
        E.finish q hits (E.view tx w'.db) = .error d → post (.error d) tx w')
      (done : todo = [] → ∀ w', At D n tx w w' → ∀ ws,
        E.finish q hits (E.view tx w'.db) = .ok ws →
        post (.ok (hits, E.view (tx.write ws) w'.db)) (tx.write ws) w')
      (skip : ∀ key ∈ todo, ∀ w', At D n tx w w' → D.touch n q key w'.db →
        E.act q key (E.view tx w'.db) = none → ScanOk post q (todo.erase key) hits tx w')
      (take : ∀ key ∈ todo, ∀ w', At D n tx w w' → D.touch n q key w'.db → ∀ ws,
        E.act q key (E.view tx w'.db) = some ws →
        ScanOk post q (todo.erase key) (hits ++ [key]) (tx.hold key ws) w') :
      ScanOk post q todo hits tx w

/-- The rest of the program may run, with the others in between, and every commit it makes
respects the discipline. -/
def wp [DecidableEq κ] (req : ρ) : Prog σ κ ς δ ε α → Tx κ ω ς → World σ ρ ε α → Prop
  | .ret a, tx, w => ∀ w', At D n tx w w' →
      D.guar n tx w'.db (E.view tx w'.db) ∧ D.post n req a w'.db (E.view tx w'.db) ∧
      D.inv (w'.answer n req (.ok a) (E.view tx w'.db))
  | .raise _, _, _ => True
  | .query k, tx, w => ∀ w', At D n tx w w' → D.read n req w'.db →
      wp req (k (E.view tx w'.db)) tx w'
  | .clock k, tx, w => ∀ w', At D n tx w w' → wp req (k w'.clock) tx w'
  | .exec q k, tx, w => ∀ w', At D n tx w w' →
      ScanOk D E n (fun r tx w => wp req (k r) tx w) (E.plan q (E.view tx w'.db)).1
        (E.plan q (E.view tx w'.db)).2 [] (tx.begin q (E.plan q (E.view tx w'.db)).2) w'
  | .scan q todo hits k, tx, w =>
      ScanOk D E n (fun r tx w => wp req (k r) tx w) q todo hits tx w
  | .commit k, tx, w => ∀ w', At D n tx w w' →
      D.guar n tx w'.db (E.view tx w'.db) ∧ D.inv { w' with db := E.view tx w'.db } ∧
      wp req k {} { w' with db := E.view tx w'.db }

variable {D E n} [DecidableEq κ]

theorem ScanOk.stable {post : Except δ (List κ × σ) → Tx κ ω ς → World σ ρ ε α → Prop} {q : ς}
    {todo hits : List κ} {tx : Tx κ ω ς} {w w' : World σ ρ ε α}
    (h : ScanOk D E n post q todo hits tx w) (hr : Rely D n tx w w') :
    ScanOk D E n post q todo hits tx w' := by
  cases h with
  | mk refused done skip take =>
    exact .mk (fun ht u hu => refused ht u (hr.at hu)) (fun ht u hu => done ht u (hr.at hu))
      (fun key hk u hu => skip key hk u (hr.at hu)) (fun key hk u hu => take key hk u (hr.at hu))

theorem ScanOk.mono {post post' : Except δ (List κ × σ) → Tx κ ω ς → World σ ρ ε α → Prop} {q : ς}
    (hp : ∀ r tx w, post r tx w → post' r tx w) {todo hits : List κ} {tx : Tx κ ω ς}
    {w : World σ ρ ε α} (h : ScanOk D E n post q todo hits tx w) :
    ScanOk D E n post' q todo hits tx w := by
  induction h with
  | mk refused done _ _ ihskip ihtake =>
    exact .mk (fun ht u hu d hd => hp _ _ _ (refused ht u hu d hd))
      (fun ht u hu ws hws => hp _ _ _ (done ht u hu ws hws)) ihskip ihtake

/-- A precondition survives whatever the others do. -/
theorem wp_stable {req : ρ} {p : Prog σ κ ς δ ε α} {tx : Tx κ ω ς} {w w' : World σ ρ ε α}
    (h : wp D E n req p tx w) (hr : Rely D n tx w w') : wp D E n req p tx w' := by
  cases p with
  | ret a => exact fun u hu => h u (hr.at hu)
  | raise e => trivial
  | query k => exact fun u hu => h u (hr.at hu)
  | clock k => exact fun u hu => h u (hr.at hu)
  | exec q k => exact fun u hu => h u (hr.at hu)
  | scan q todo hits k => exact ScanOk.stable h hr
  | commit k => exact fun u hu => h u (hr.at hu)

/-- The loop rule: `J` holds of the rows to take, the rows taken, the transaction and the world,
is kept by the others and by each row, and gives `post` at the end. -/
theorem ScanOk.of_loop {post : Except δ (List κ × σ) → Tx κ ω ς → World σ ρ ε α → Prop} {q : ς}
    (J : List κ → List κ → Tx κ ω ς → World σ ρ ε α → Prop)
    (hstable : ∀ todo hits tx w w', At D n tx w w' → J todo hits tx w → J todo hits tx w')
    (hskip : ∀ todo hits tx w key, key ∈ todo → D.inv w → D.touch n q key w.db →
      E.act q key (E.view tx w.db) = none → J todo hits tx w → J (todo.erase key) hits tx w)
    (htake : ∀ todo hits tx w key ws, key ∈ todo → D.inv w → D.touch n q key w.db →
      E.act q key (E.view tx w.db) = some ws → J todo hits tx w →
      J (todo.erase key) (hits ++ [key]) (tx.hold key ws) w)
    (hrefused : ∀ hits tx w d, D.inv w → E.finish q hits (E.view tx w.db) = .error d →
      J [] hits tx w → post (.error d) tx w)
    (hdone : ∀ hits tx w ws, D.inv w → E.finish q hits (E.view tx w.db) = .ok ws →
      J [] hits tx w → post (.ok (hits, E.view (tx.write ws) w.db)) (tx.write ws) w) :
    ∀ (len : Nat) (todo hits : List κ) (tx : Tx κ ω ς) (w : World σ ρ ε α),
      todo.length = len → J todo hits tx w → ScanOk D E n post q todo hits tx w := by
  intro len
  induction len with
  | zero =>
    intro todo hits tx w hlen hJ
    obtain rfl := List.length_eq_zero_iff.1 hlen
    refine .mk (fun _ w' hw d hd => ?_) (fun _ w' hw ws hws => ?_) (by simp) (by simp)
    · exact hrefused hits tx w' d hw.inv hd (hstable _ _ _ _ _ hw hJ)
    · exact hdone hits tx w' ws hw.inv hws (hstable _ _ _ _ _ hw hJ)
  | succ len ih =>
    intro todo hits tx w hlen hJ
    have hlen' : ∀ key ∈ todo, (todo.erase key).length = len := by
      intro key hk
      rw [List.length_erase_of_mem hk, hlen]
      rfl
    refine .mk (fun ht => ?_) (fun ht => ?_) (fun key hk w' hw hto hn => ?_)
      (fun key hk w' hw hto ws hs => ?_)
    · simp [ht] at hlen
    · simp [ht] at hlen
    · exact ih _ _ _ _ (hlen' key hk)
        (hskip _ _ _ _ key hk hw.inv hto hn (hstable _ _ _ _ _ hw hJ))
    · exact ih _ _ _ _ (hlen' key hk)
        (htake _ _ _ _ key ws hk hw.inv hto hs (hstable _ _ _ _ _ hw hJ))

/-! ## The rule for whole runs -/

/-- What a restricted run grants the discipline. -/
structure Grants (D : Discipline σ κ ω ς ε α ρ)
    (ok : Sys σ κ ω ς δ ε α ρ → Action κ ε ρ → Prop) : Prop where
  read : ∀ {s n c k}, ok s (.advance n) → s.conns n = some c → c.prog = .query k →
    D.read n c.req s.world.db
  touch : ∀ {s n c q todo hits k key}, ok s (.lock n key) → s.conns n = some c →
    c.prog = .scan q todo hits k → D.touch n q key s.world.db

/-- Every request's program obeys the discipline, and so do the steps no program takes. -/
structure Obeys (D : Discipline σ κ ω ς ε α ρ) (E : Engine σ κ ω ς δ)
    (code : Nat → ρ → Prog σ κ ς δ ε α) : Prop where
  start : ∀ w, D.inv w → D.inv w.start
  tick : ∀ w d, D.inv w → D.inv (w.tick d)
  failed : ∀ w n req e, D.inv w → w.Unanswered n → n < w.started →
    D.inv (w.answer n req (.error e) w.db)
  code : ∀ w req, D.inv w → wp D E w.started req (code w.started req) {} w.start

/-- The invariant of the whole system. -/
structure Good (D : Discipline σ κ ω ς ε α ρ) (E : Engine σ κ ω ς δ)
    (s : Sys σ κ ω ς δ ε α ρ) : Prop where
  inv : D.inv s.world
  bound : ∀ n c, s.conns n = some c → n < s.world.started
  logged : ∀ e ∈ s.world.log, e.1 < s.world.started
  once : s.world.log.Pairwise fun e e' => e.1 ≠ e'.1
  unanswered : ∀ n c, s.conns n = some c → s.world.Unanswered n
  disjoint : ∀ n m c c', n ≠ m → s.conns n = some c → s.conns m = some c' →
    c.tx.locks.Disjoint c'.tx.locks
  wp : ∀ n c, s.conns n = some c → wp D E n c.req c.prog c.tx s.world

namespace Good

variable {s : Sys σ κ ω ς δ ε α ρ} {m : Nat} {c : Conn σ κ ω ς δ ε α ρ}

theorem here (h : Good D E s) (hc : s.conns m = some c) :
    At D m c.tx s.world s.world :=
  ⟨Rely.refl _, h.inv, h.unanswered m c hc, h.bound m c hc⟩

/-- Request `m` goes on as `c'`, in a world whose only news for the others is one they rely on. -/
theorem update (h : Good D E s) {w : World σ ρ ε α} {c' : Conn σ κ ω ς δ ε α ρ} (hinv : D.inv w)
    (hlog : w.log = s.world.log) (hst : s.world.started ≤ w.started) (hm : m < w.started)
    (hun : w.Unanswered m)
    (hlocks : ∀ n d, n ≠ m → s.conns n = some d → c'.tx.locks.Disjoint d.tx.locks)
    (hother : ∀ n d, n ≠ m → s.conns n = some d → Rely D n d.tx s.world w)
    (hwp : ReadCommitted.wp D E m c'.req c'.prog c'.tx w) :
    Good D E { world := w, conns := Function.update s.conns m (some c') } where
  inv := hinv
  bound n d hd := by
    rcases eq_or_ne n m with rfl | hne
    · exact hm
    · exact Nat.lt_of_lt_of_le (h.bound n d (by simpa [hne] using hd)) hst
  logged e he := Nat.lt_of_lt_of_le (h.logged e (hlog ▸ he)) hst
  once := hlog ▸ h.once
  unanswered n d hd := by
    rcases eq_or_ne n m with rfl | hne
    · exact hun
    · intro e he
      exact h.unanswered n d (by simpa [hne] using hd) e (hlog ▸ he)
  disjoint n k d d' hnk hd hd' := by
    by_cases hn : n = m
    · subst hn
      obtain rfl : c' = d := by simpa using hd
      exact hlocks k d' (Ne.symm hnk) (by simpa [Ne.symm hnk] using hd')
    · have hd0 : s.conns n = some d := by simpa [hn] using hd
      by_cases hk : k = m
      · subst hk
        obtain rfl : c' = d' := by simpa using hd'
        exact List.disjoint_symm (hlocks n d hn hd0)
      · exact h.disjoint n k d d' hnk hd0 (by simpa [hk] using hd')
  wp n d hd := by
    rcases eq_or_ne n m with rfl | hne
    · obtain rfl : c' = d := by simpa using hd
      exact hwp
    · have hd0 : s.conns n = some d := by simpa [hne] using hd
      exact wp_stable (h.wp n d hd0) (hother n d hne hd0)

/-- A statement that commits nothing: only request `m`'s own program and transaction move. -/
theorem put (h : Good D E s) (hc : s.conns m = some c) {c' : Conn σ κ ω ς δ ε α ρ}
    (hlocks : ∀ n d, n ≠ m → s.conns n = some d → c'.tx.locks.Disjoint d.tx.locks)
    (hwp : ReadCommitted.wp D E m c'.req c'.prog c'.tx s.world) : Good D E (s.put m c') :=
  h.update h.inv rfl (Nat.le_refl _) (h.bound m c hc) (h.unanswered m c hc) hlocks
    (fun _ _ _ _ => Rely.refl _) hwp

/-- The transaction of request `m` ends: the others see `db` and an answer. -/
theorem close (h : Good D E s) (hc : s.conns m = some c) {r : Except ε α} {db : σ}
    (hinv : D.inv (s.world.answer m c.req r db))
    (hother : ∀ n d, n ≠ m → s.conns n = some d →
      Rely D n d.tx s.world (s.world.answer m c.req r db)) :
    Good D E (s.close m c.req r db) where
  inv := hinv
  bound n d hd := by
    rcases eq_or_ne n m with rfl | hne
    · simp [Sys.close] at hd
    · exact h.bound n d (by simpa [Sys.close, hne] using hd)
  logged e he := by
    rcases List.mem_cons.1 he with rfl | he
    · exact h.bound m c hc
    · exact h.logged e he
  once := List.pairwise_cons.2 ⟨fun e he => Ne.symm (h.unanswered m c hc e he), h.once⟩
  unanswered n d hd := by
    rcases eq_or_ne n m with rfl | hne
    · simp [Sys.close] at hd
    · intro e he
      rcases List.mem_cons.1 he with rfl | he
      · exact Ne.symm hne
      · exact h.unanswered n d (by simpa [Sys.close, hne] using hd) e he
  disjoint n k d d' hnk hd hd' := by
    rcases eq_or_ne n m with rfl | hn
    · simp [Sys.close] at hd
    · rcases eq_or_ne k m with rfl | hk
      · simp [Sys.close] at hd'
      · exact h.disjoint n k d d' hnk (by simpa [Sys.close, hn] using hd)
          (by simpa [Sys.close, hk] using hd')
  wp n d hd := by
    rcases eq_or_ne n m with rfl | hne
    · simp [Sys.close] at hd
    · have hd0 : s.conns n = some d := by simpa [Sys.close, hne] using hd
      exact wp_stable (h.wp n d hd0) (hother n d hne hd0)

/-- A move of the world that leaves every connection alone. -/
theorem moved (h : Good D E s) {w : World σ ρ ε α} (hinv : D.inv w) (hlog : w.log = s.world.log)
    (hst : s.world.started ≤ w.started)
    (hother : ∀ n d, s.conns n = some d → Rely D n d.tx s.world w) :
    Good D E { s with world := w } where
  inv := hinv
  bound n d hd := Nat.lt_of_lt_of_le (h.bound n d hd) hst
  logged e he := Nat.lt_of_lt_of_le (h.logged e (hlog ▸ he)) hst
  once := hlog ▸ h.once
  unanswered n d hd e he := h.unanswered n d hd e (hlog ▸ he)
  disjoint := h.disjoint
  wp n d hd := wp_stable (h.wp n d hd) (hother n d hd)

end Good

variable {code : Nat → ρ → Prog σ κ ς δ ε α}
  {ok : Sys σ κ ω ς δ ε α ρ → Action κ ε ρ → Prop}

/-- What the others see of a commit by `m` that `guar` allows. -/
theorem Good.rely_commit {s : Sys σ κ ω ς δ ε α ρ} (h : Good D E s) {m : Nat}
    {c : Conn σ κ ω ς δ ε α ρ} (hc : s.conns m = some c) {db : σ}
    (hguar : D.guar m c.tx s.world.db db) (n : Nat) (d : Conn σ κ ω ς δ ε α ρ) (hne : n ≠ m)
    (hd : s.conns n = some d) : Rely D n d.tx s.world { s.world with db := db } :=
  .single (.commit (Ne.symm hne) (h.unanswered m c hc) (h.bound m c hc) h.inv
    (h.disjoint n m d c hne hd hc) hguar)

theorem Good.advance {s s' : Sys σ κ ω ς δ ε α ρ} (h : Good D E s) (ho : Obeys D E code)
    (hg : Grants D ok) {m : Nat} {c : Conn σ κ ω ς δ ε α ρ} (hc : s.conns m = some c)
    (hok : ok s (.advance m)) (hs : advance E s m c = some s') : Good D E s' := by
  have hwp := h.wp m c hc
  have here := h.here hc
  have keep : ∀ n d, n ≠ m → s.conns n = some d → c.tx.locks.Disjoint d.tx.locks :=
    fun n d hn hd => h.disjoint m n c d (Ne.symm hn) hc hd
  unfold ReadCommitted.advance at hs
  cases hp : c.prog with
  | ret a =>
    rw [hp] at hwp
    obtain ⟨hguar, -, hinv⟩ := hwp _ here
    simp only [hp, Option.some.injEq] at hs
    subst hs
    refine h.close hc hinv fun n d hne hd => ?_
    exact (h.rely_commit hc hguar n d hne hd).trans
      (.single (.answer (Ne.symm hne)))
  | raise e =>
    simp only [hp, Option.some.injEq] at hs
    subst hs
    exact h.close hc (ho.failed _ _ _ _ h.inv (h.unanswered m c hc) (h.bound m c hc))
      fun n d hne _ => .single (.answer (Ne.symm hne))
  | query k =>
    rw [hp] at hwp
    simp only [hp, Option.some.injEq] at hs
    subst hs
    exact h.put hc keep (hwp _ here (hg.read hok hc hp))
  | clock k =>
    rw [hp] at hwp
    simp only [hp, Option.some.injEq] at hs
    subst hs
    exact h.put hc keep (hwp _ here)
  | exec q k =>
    rw [hp] at hwp
    simp only [hp, Option.some.injEq] at hs
    subst hs
    exact h.put hc keep (hwp _ here)
  | scan q todo hits k =>
    rw [hp] at hwp
    cases todo with
    | cons key todo => simp [hp] at hs
    | nil =>
      obtain ⟨refused, done, -, -⟩ := hwp
      simp only [hp] at hs
      split at hs
      · next d hf =>
        simp only [Option.some.injEq] at hs
        subst hs
        exact h.put hc keep (refused rfl _ here d hf)
      · next ws hf =>
        simp only [Option.some.injEq] at hs
        subst hs
        exact h.put hc keep (done rfl _ here ws hf)
  | commit k =>
    rw [hp] at hwp
    obtain ⟨hguar, hinv, hk⟩ := hwp _ here
    simp only [hp, Option.some.injEq] at hs
    subst hs
    exact h.update hinv rfl (Nat.le_refl _) (h.bound m c hc) (h.unanswered m c hc)
      (fun n d _ _ => by simp) (h.rely_commit hc hguar) hk

theorem Good.lockRow {s s' : Sys σ κ ω ς δ ε α ρ} (h : Good D E s) (hg : Grants D ok) {m : Nat}
    {c : Conn σ κ ω ς δ ε α ρ} (hc : s.conns m = some c) {key : κ} (hok : ok s (.lock m key))
    (hs : lockRow E s m c key = some s') : Good D E s' := by
  have hwp := h.wp m c hc
  have here := h.here hc
  have keep : ∀ n d, n ≠ m → s.conns n = some d → c.tx.locks.Disjoint d.tx.locks :=
    fun n d hn hd => h.disjoint m n c d (Ne.symm hn) hc hd
  unfold ReadCommitted.lockRow at hs
  cases hp : c.prog with
  | scan q todo hits k =>
    rw [hp] at hwp
    obtain ⟨-, -, skip, take⟩ := hwp
    simp only [hp] at hs
    split at hs
    · next hfree =>
      obtain ⟨hkey, hfree⟩ := hfree
      have htouch := hg.touch hok hc hp
      split at hs
      · next ha =>
        simp only [Option.some.injEq] at hs
        subst hs
        exact h.put hc keep (skip key hkey _ here htouch ha)
      · next ws ha =>
        simp only [Option.some.injEq] at hs
        subst hs
        refine h.put hc (fun n d hn hd => ?_) (take key hkey _ here htouch ws ha)
        have hnot := (free_iff s h.bound m key).1 hfree n d hn hd
        exact List.disjoint_cons_left.2 ⟨hnot, keep n d hn hd⟩
    · cases hs
  | _ => simp [hp] at hs

theorem Good.step {s s' : Sys σ κ ω ς δ ε α ρ} (h : Good D E s) (ho : Obeys D E code)
    (hg : Grants D ok) {a : Action κ ε ρ} (hok : ok s a) (hs : step E code s a = some s') :
    Good D E s' := by
  cases a with
  | start req =>
    simp only [ReadCommitted.step, Option.some.injEq] at hs
    subst hs
    refine h.update (w := s.world.start) (ho.start _ h.inv) rfl (Nat.le_succ _) (Nat.lt_succ_self _)
      (fun e he => Nat.ne_of_lt (h.logged e he)) (fun n d _ _ => by simp)
      (fun n d _ _ => .single (.start _)) ?_
    exact ho.code s.world req h.inv
  | advance n =>
    obtain ⟨c, hc, hs⟩ := Option.bind_eq_some_iff.1 hs
    exact h.advance ho hg hc hok hs
  | lock n key =>
    obtain ⟨c, hc, hs⟩ := Option.bind_eq_some_iff.1 hs
    exact h.lockRow hg hc hok hs
  | abort n e =>
    obtain ⟨c, hc, rfl⟩ := Option.map_eq_some_iff.1 hs
    exact h.close hc (ho.failed _ _ _ _ h.inv (h.unanswered n c hc) (h.bound n c hc))
      fun k d hne _ => .single (.answer (Ne.symm hne))
  | tick d =>
    simp only [ReadCommitted.step, Option.some.injEq] at hs
    subst hs
    exact h.moved (ho.tick _ _ h.inv) rfl (Nat.le_refl _) fun n c _ => .single (.tick _ _)

/-- What a commit may do, and what its answer says about it. -/
theorem Good.commit {s : Sys σ κ ω ς δ ε α ρ} (h : Good D E s) {m : Nat}
    {c : Conn σ κ ω ς δ ε α ρ} (hc : s.conns m = some c) (hcom : c.prog.commits = true) :
    D.guar m c.tx s.world.db (E.view c.tx s.world.db) ∧
    ∀ a, c.prog = .ret a → D.post m c.req a s.world.db (E.view c.tx s.world.db) := by
  have hwp := h.wp m c hc
  have here := h.here hc
  cases hp : c.prog with
  | ret a =>
    rw [hp] at hwp
    obtain ⟨hguar, hpost, -⟩ := hwp _ here
    refine ⟨hguar, fun a' ha => ?_⟩
    cases ha
    exact hpost
  | commit k =>
    rw [hp] at hwp
    obtain ⟨hguar, -, -⟩ := hwp _ here
    exact ⟨hguar, fun a' ha => by cases ha⟩
  | _ => simp [hp, Prog.commits] at hcom

/-- The committed rows change by commits only. -/
theorem Good.step_db {s s' : Sys σ κ ω ς δ ε α ρ} (h : Good D E s) {a : Action κ ε ρ}
    (hs : ReadCommitted.step E code s a = some s') :
    s'.world.db = s.world.db ∨ ∃ m c, s.conns m = some c ∧
      D.guar m c.tx s.world.db s'.world.db := by
  rcases step_cases E code hs with ⟨hdb, -⟩ | ⟨_, _, _, _, hdb, _⟩ | ⟨n, c, -, hc, hcom, hdb, -⟩
  · exact Or.inl hdb
  · exact Or.inl hdb
  · exact Or.inr ⟨n, c, hc, hdb ▸ (h.commit hc hcom).1⟩

/-- An answer comes with the commit it is about, and nothing is ever taken off the log. -/
theorem Good.step_log {s s' : Sys σ κ ω ς δ ε α ρ} (h : Good D E s) {a : Action κ ε ρ}
    (hs : ReadCommitted.step E code s a = some s') :
    s'.world.log = s.world.log ∨ ∃ m req r, s'.world.log = (m, req, r) :: s.world.log ∧
      ∀ x, r = .ok x → D.post m req x s.world.db s'.world.db := by
  rcases step_cases E code hs with
    ⟨-, hlog⟩ | ⟨n, c, e, -, -, hlog⟩ | ⟨n, c, -, hc, hcom, hdb, hlog | ⟨x, hp, hlog⟩⟩
  · exact Or.inl hlog
  · exact Or.inr ⟨n, c.req, .error e, hlog, fun x hx => by cases hx⟩
  · exact Or.inl hlog
  · refine Or.inr ⟨n, c.req, .ok x, hlog, fun y hy => ?_⟩
    cases hy
    exact hdb ▸ (h.commit hc hcom).2 x hp

/-- What a step is for a request that it leaves alone. -/
theorem Good.step_rely {s s' : Sys σ κ ω ς δ ε α ρ} (h : Good D E s) {a : Action κ ε ρ}
    (hs : ReadCommitted.step E code s a = some s') {n : Nat} {c : Conn σ κ ω ς δ ε α ρ}
    (hc : s.conns n = some c) (hc' : s'.conns n = some c) : Rely D n c.tx s.world s'.world := by
  cases step_move hs with
  | start req => exact .single (.start _)
  | own => exact Rely.refl _
  | @commit m d k hd hprog =>
    have hne : n ≠ m := by
      rintro rfl
      -- what follows a commit is another program
      obtain rfl := Option.some.inj (hc.symm.trans hd)
      have hnext : Function.update s.conns n (some { c with prog := k, tx := {} }) n = some c := hc'
      rw [Function.update_self] at hnext
      have hk : k = .commit k := (congrArg Conn.prog (Option.some.inj hnext)).trans hprog
      have hsize := congrArg sizeOf hk
      simp at hsize
    exact h.rely_commit hd (h.commit hd (by rw [hprog]; rfl)).1 n c hne hc
  | @ret m d x hd hprog =>
    have hne : n ≠ m := (of_update_none hc').1
    exact (h.rely_commit hd (h.commit hd (by rw [hprog]; rfl)).1 n c hne hc).trans
      (.single (.answer (Ne.symm hne)))
  | raise => exact .single (.answer (Ne.symm (of_update_none hc').1))
  | abort => exact .single (.answer (Ne.symm (of_update_none hc').1))
  | tick d => exact .single (.tick _ _)

/-- **The rule.**  A discipline that every program obeys holds all along every allowed run. -/
theorem Good.run {s s' : Sys σ κ ω ς δ ε α ρ} (h : Good D E s) (ho : Obeys D E code)
    (hg : Grants D ok) (hr : Run E code ok s s') : Good D E s' := by
  induction hr with
  | refl => exact h
  | tail _ hok hs ih => exact ih.step ho hg hok hs

/-- A system nobody has called yet. -/
theorem Good.init {w : World σ ρ ε α} (hinv : D.inv w) (hlog : w.log = []) :
    Good D E { world := w } where
  inv := hinv
  bound _ _ hd := by cases hd
  logged e he := by simp [hlog] at he
  once := by simp [hlog]
  unanswered _ _ hd := by cases hd
  disjoint _ _ _ _ _ hd := by cases hd
  wp _ _ hd := by cases hd

omit [DecidableEq κ] in
theorem grants_anyStep (hread : ∀ n req db, D.read n req db) (htouch : ∀ n q key db, D.touch n q key db) :
    Grants (δ := δ) D anyStep where
  read _ _ _ := hread _ _ _
  touch _ _ _ := htouch _ _ _ _

end ReadCommitted
