import Tradinghub.Ledger.Paging
import Tradinghub.Ledger.Units
import Tradinghub.Lib.Connections

/-!
# Which state a page describes

GET /transactions counts in one statement and reads its page in another, on a session that is no
snapshot, so the total is one state's and the items a later one's (`page_read`).  They are one
state's if no commit between the two changed the count, or none changed the page, and, with one
commit in between, only then (`page_describes_one_state`).  Otherwise they may describe no ledger at
all (`page_of_two_states`).
-/

namespace Tradinghub.Ledger

open ReadCommitted Store

/-! ## The page and the two states -/

/-- The page the rows give, with the total that match. -/
def transactionPage (db : Db) (userId : Nat) (filters : TransactionFilters) : TransactionPage where
  items := (listTransactions db userId filters).1.map transactionResponse
  total := (listTransactions db userId filters).2

/-- The number of matching rows is the same, or the requested page is. -/
def Agree (counted paged : Db) (userId : Nat) (filters : TransactionFilters) : Prop :=
  (transactionPage counted userId filters).total = (transactionPage paged userId filters).total ∨
  (transactionPage counted userId filters).items = (transactionPage paged userId filters).items

/-- One of the states has this page. -/
def Describes (states : List LedgerSystem) (userId : Nat) (filters : TransactionFilters)
    (page : TransactionPage) : Prop :=
  ∃ t ∈ states, page = transactionPage t.world.db userId filters

/-- From `counted` to `paged` the rows changed at most once. -/
def AtMostOneCommit (states : List LedgerSystem) (counted paged : LedgerSystem) : Prop :=
  ∀ t ∈ states, t.world.db = counted.world.db ∨ t.world.db = paged.world.db

/-- In the run `tr` request `n` sends two SELECTs, in `counted` and in `paged`, and `states` are
those from the one to the other. -/
structure ReadsTwice (tr : LedgerSteps) (n : Nat) (counted paged : LedgerSystem)
    (states : List LedgerSystem) : Prop where
  selects : selects n tr = [counted, paged]
  states : ∃ before mid after,
    tr = before ++ (counted, .advance n) :: (mid ++ (paged, .advance n) :: after) ∧
    states = counted :: (mid.map Prod.fst ++ [paged])

theorem exists_readsTwice {tr : LedgerSteps} {n : Nat} {counted paged : LedgerSystem}
    (h : selects n tr = [counted, paged]) : ∃ states, ReadsTwice tr n counted paged states := by
  obtain ⟨before, mid, after, htr⟩ := selects_two h
  exact ⟨_, h, before, mid, after, htr, rfl⟩

theorem ReadsTwice.ends {tr : LedgerSteps} {n : Nat} {counted paged : LedgerSystem}
    {states : List LedgerSystem} (h : ReadsTwice tr n counted paged states) :
    counted ∈ states ∧ paged ∈ states := by
  obtain ⟨before, mid, after, -, rfl⟩ := h.states
  exact ⟨List.mem_cons_self,
    List.mem_cons_of_mem _ (List.mem_append_right _ (List.mem_singleton.2 rfl))⟩

section States

variable [Collation] {env : Env} {tr : LedgerSteps} {s : LedgerSystem} {n userId : Nat}
  {filters : TransactionFilters}

/-- Request `n`, a GET /transactions, after the steps `tr`. -/
inductive Listing (env : Env) (tr : LedgerSteps) (n userId : Nat) (filters : TransactionFilters) :
    Program Response → Prop
  | asked (h : selects n tr = []) :
      Listing env tr n userId filters (route env n userId (.listTransactions filters))
  | counted {counted : LedgerSystem} (h : selects n tr = [counted]) :
      Listing env tr n userId filters (.query fun db => .ret (.page
        { items := (transactionPage db userId filters).items
          total := (transactionPage counted.world.db userId filters).total }))
  | paged {counted paged : LedgerSystem} (h : selects n tr = [counted, paged]) :
      Listing env tr n userId filters (.ret (.page
        { items := (transactionPage paged.world.db userId filters).items
          total := (transactionPage counted.world.db userId filters).total }))

theorem Listing.congr {tr' : LedgerSteps} {p : Program Response}
    (h : Listing env tr n userId filters p) (htr : selects n tr' = selects n tr) :
    Listing env tr' n userId filters p := by
  cases h with
  | asked h => exact .asked (htr.trans h)
  | counted h => exact .counted (htr.trans h)
  | paged h => exact .paged (htr.trans h)

/-- Two queries, in this order, and no writes. -/
theorem listing_tracks (env : Env) :
    Tracks engine (handle env) { world := initialWorld } fun tr _ n c => ∀ userId filters,
      c.req = ⟨userId, .listTransactions filters⟩ →
      c.tx = {} ∧ Listing env tr n userId filters c.prog where
  start := by
    rintro tr s s' req h - userId filters rfl
    refine ⟨rfl, .asked ?_⟩
    rw [selects_of_not rfl]
    exact h.selects_nil (fun _ => rfl) (Nat.le_refl _)
  own := by
    rintro tr s s' a n ⟨req, prog, tx⟩ c' - - hc hown hK userId filters hreq
    obtain ⟨htx, hlisting⟩ := hK userId filters (hown.req.symm.trans hreq)
    obtain rfl : tx = {} := htx
    cases hown with
    | query hprog =>
      obtain rfl : prog = _ := hprog
      refine ⟨rfl, ?_⟩
      generalize hp : (Prog.query _ : Program Response) = p at hlisting
      cases hlisting with
      | asked h =>
        cases hp
        refine .counted ?_
        rw [selects_query hc rfl, h]
        rfl
      | counted h =>
        cases hp
        refine .paged ?_
        rw [selects_query hc rfl, h]
        rfl
      | paged => cases hp
    | clock hprog => obtain rfl : prog = _ := hprog; cases hlisting
    | exec hprog => obtain rfl : prog = _ := hprog; cases hlisting
    | refused hprog => obtain rfl : prog = _ := hprog; cases hlisting
    | done hprog => obtain rfl : prog = _ := hprog; cases hlisting
    | commit hprog => obtain rfl : prog = _ := hprog; cases hlisting
    | skip hprog => obtain rfl : prog = _ := hprog; cases hlisting
    | take hprog => obtain rfl : prog = _ := hprog; cases hlisting
  others := by
    rintro tr s s' a n c - - - hmover hK userId filters hreq
    obtain ⟨htx, hlisting⟩ := hK userId filters hreq
    exact ⟨htx, hlisting.congr (selects_of_mover hmover)⟩

/-- Where the two numbers of an answered page come from. -/
theorem page_read {page : TransactionPage}
    (h : Trace engine (handle env) { world := initialWorld } tr s)
    (hanswer : (n, ⟨userId, .listTransactions filters⟩, .ok (.page page)) ∈ s.world.log) :
    ∃ counted paged, selects n tr = [counted, paged] ∧
      page.total = (transactionPage counted.world.db userId filters).total ∧
      page.items = (transactionPage paged.world.db userId filters).items := by
  refine h.answers (A := fun tr n req r => ∀ userId filters page,
    req = ⟨userId, .listTransactions filters⟩ → r = .ok (.page page) →
    ∃ counted paged, selects n tr = [counted, paged] ∧
      page.total = (transactionPage counted.world.db userId filters).total ∧
      page.items = (transactionPage paged.world.db userId filters).items)
    (listing_tracks env) (fun _ => rfl) rfl ?_ ?_ n _ _ hanswer userId filters page rfl rfl
  · rintro tr s s' a n ⟨req, prog, tx⟩ r - - hc hK ha userId filters page rfl rfl
    obtain ⟨-, hlisting⟩ := hK userId filters rfl
    rw [ha.selects hc]
    cases ha with
    | ret hprog =>
      obtain rfl : prog = _ := hprog
      cases hlisting with
      | paged h => exact ⟨_, _, h, rfl, rfl⟩
  · rintro tr s s' a n req r h - he hA userId filters page hreq hr
    rw [h.selects_answered (fun _ => rfl) rfl he]
    exact hA userId filters page hreq hr

/-- **Which state a page describes**, in every run: the request has sent two SELECTs, the total is
that of the state of the first and the items are those of the state of the second.  If the two
states agree on either, one of the states between them is described; if at most one commit came
between, only then. -/
theorem page_describes_one_state {page : TransactionPage}
    (h : Trace engine (handle env) { world := initialWorld } tr s)
    (hanswer : (n, ⟨userId, .listTransactions filters⟩, .ok (.page page)) ∈ s.world.log) :
    (∃ counted paged states, ReadsTwice tr n counted paged states) ∧
    ∀ counted paged states, ReadsTwice tr n counted paged states →
      page.total = (transactionPage counted.world.db userId filters).total ∧
      page.items = (transactionPage paged.world.db userId filters).items ∧
      (Agree counted.world.db paged.world.db userId filters →
        Describes states userId filters page) ∧
      (AtMostOneCommit states counted paged → Describes states userId filters page →
        Agree counted.world.db paged.world.db userId filters) := by
  obtain ⟨counted, paged, hselects, htotal, hitems⟩ := page_read h hanswer
  refine ⟨⟨counted, paged, exists_readsTwice hselects⟩, ?_⟩
  intro counted' paged' states hreads
  have hsame : [counted, paged] = [counted', paged'] := hselects.symm.trans hreads.selects
  simp only [List.cons.injEq, and_true] at hsame
  obtain ⟨rfl, rfl⟩ := hsame
  obtain ⟨hcounted, hpaged⟩ := hreads.ends
  refine ⟨htotal, hitems, ?_, ?_⟩
  · rintro (hsame | hsame)
    · refine ⟨paged, hpaged, ?_⟩
      exact (TransactionPage.mk.injEq ..).mpr ⟨hitems, htotal.trans hsame⟩
    · refine ⟨counted, hcounted, ?_⟩
      exact (TransactionPage.mk.injEq ..).mpr ⟨hitems.trans hsame.symm, htotal⟩
  · rintro hone ⟨t, ht, rfl⟩
    rcases hone t ht with hdb | hdb
    · rw [hdb] at hitems
      exact Or.inr hitems
    · rw [hdb] at htotal
      exact Or.inl htotal.symm

end States

/-! ## A commit between the two statements -/

/-- The first page of account 1. -/
def firstPage : TransactionFilters := onAccount .one 25 (by decide) (by decide)

/-- Request 1 counts, request 2 commits a transaction, request 1 reads its page. -/
def countsTooEarly : List (Action Key Failure Request) :=
  opensAccount 0 "euros" "EUR" ++
  [.start ⟨1, .listTransactions firstPage⟩, .advance 1,
    .start ⟨1, .createTransaction
      { accountId := .one, amount := ⟨25 * 10 ^ 18, by decide⟩, kind := .income, occurredAt := 0 }⟩,
    .advance 2, .advance 2, .advance 2, .advance 2,
    .advance 1, .advance 1]

/-- Request 1 records a transaction; request 2 counts and reads its page, and a third request comes
between the two and records nothing. -/
def countsAtOnce : List (Action Key Failure Request) :=
  opensAccount 0 "euros" "EUR" ++
  [.start ⟨1, .createTransaction
      { accountId := .one, amount := ⟨25 * 10 ^ 18, by decide⟩, kind := .income, occurredAt := 0 }⟩,
    .advance 1, .advance 1, .advance 1, .advance 1,
    .start ⟨1, .listTransactions firstPage⟩, .advance 2,
    .start ⟨1, .listAccounts⟩, .advance 3, .advance 3, .advance 2, .advance 2]

def answeredPage (s : LedgerSystem) (n : Nat) (p : TransactionPage → Bool) : Bool :=
  s.world.log.any fun e =>
    decide (e.1 = n ∧ e.2.1 = ⟨1, .listTransactions firstPage⟩) &&
      match e.2.2 with
      | .ok (.page page) => p page
      | _ => false

theorem answeredPage_spec {s : LedgerSystem} {n : Nat} {p : TransactionPage → Bool}
    (h : answeredPage s n p = true) :
    ∃ page, (n, ⟨1, .listTransactions firstPage⟩, .ok (.page page)) ∈ s.world.log ∧
      p page = true := by
  obtain ⟨⟨m, req, r⟩, he, hfound⟩ := List.any_eq_true.1 h
  obtain ⟨hreq, hpage⟩ := Bool.and_eq_true_iff.1 hfound
  obtain ⟨rfl, rfl⟩ := of_decide_eq_true hreq
  cases r with
  | error e => cases hpage
  | ok response =>
    cases response with
    | page page => exact ⟨page, he, hpage⟩
    | _ => cases hpage

theorem page_counted_at_once : ∃ (_ : Collation) (s : LedgerSystem) (page : TransactionPage)
    (counted paged : LedgerSystem) (states : List LedgerSystem),
    Trace engine (handle .counting) { world := initialWorld }
      (stepsOf engine (handle .counting) { world := initialWorld } countsAtOnce) s ∧
    (2, ⟨1, .listTransactions firstPage⟩, .ok (.page page)) ∈ s.world.log ∧
    ReadsTwice (stepsOf engine (handle .counting) { world := initialWorld } countsAtOnce) 2 counted
      paged states ∧
    page.total = 1 ∧ page.items.map (fun t => t.amount) = [25 * 10 ^ 18] ∧
    Describes states 1 firstPage page := by
  let _ : Collation := Collation.codePoints
  have hrun : (runList engine (handle .counting) { world := initialWorld } countsAtOnce).any
      (fun s => answeredPage s 2 fun page =>
        decide (page.total = 1 ∧ page.items.map (fun t => t.amount) = [25 * 10 ^ 18])) = true := by
    decide +kernel
  have htotals : (selects 2 (stepsOf engine (handle .counting) { world := initialWorld }
      countsAtOnce)).map (fun t => (transactionPage t.world.db 1 firstPage).total) = [1, 1] := by
    decide +kernel
  obtain ⟨s, hs, hp⟩ := exists_trace hrun
  obtain ⟨page, hanswer, hpage⟩ := answeredPage_spec hp
  obtain ⟨htotal, hitems⟩ := of_decide_eq_true hpage
  obtain ⟨⟨counted, paged, states, hreads⟩, hall⟩ := page_describes_one_state hs hanswer
  obtain ⟨-, -, hdescribes, -⟩ := hall counted paged states hreads
  rw [hreads.selects] at htotals
  simp only [List.map_cons, List.map_nil, List.cons.injEq, and_true] at htotals
  exact ⟨Collation.codePoints, s, page, counted, paged, states, hs, hanswer, hreads, htotal, hitems,
    hdescribes (Or.inl (htotals.1.trans htotals.2.symm))⟩

/-- No rows at all are counted, and one is shown. -/
theorem page_of_two_states : ∃ (_ : Collation) (s : LedgerSystem) (page : TransactionPage),
    runList engine (handle .counting) { world := initialWorld } countsTooEarly = some s ∧
      Run engine (handle .counting) anyStep { world := initialWorld } s ∧
      (1, ⟨1, .listTransactions firstPage⟩, .ok (.page page)) ∈ s.world.log ∧
      ∀ db, page ≠ transactionPage db 1 firstPage := by
  let _ : Collation := Collation.codePoints
  have hrun : (runList engine (handle .counting) { world := initialWorld } countsTooEarly).any
      (fun s => answeredPage s 1 fun page => decide (page.total = 0 ∧ page.items ≠ [])) = true := by
    decide +kernel
  obtain ⟨s, hlist, hs, hp⟩ := exists_run hrun
  obtain ⟨page, hanswer, hp⟩ := answeredPage_spec hp
  obtain ⟨htotal, hitems⟩ := of_decide_eq_true hp
  refine ⟨Collation.codePoints, s, page, hlist, hs, hanswer, fun db hpage => hitems ?_⟩
  have hcount : countTransactions db 1 firstPage = 0 := by
    rw [hpage] at htotal
    exact htotal
  have hnil : matching db 1 firstPage = [] :=
    List.eq_nil_of_length_eq_zero (length_matching.trans hcount)
  have hrows : pageTransactions db 1 firstPage =
      ((matching db 1 firstPage).drop firstPage.offset).take firstPage.limit := rfl
  rw [hpage]
  show (pageTransactions db 1 firstPage).map transactionResponse = []
  rw [hrows, hnil]
  rfl

end Tradinghub.Ledger
