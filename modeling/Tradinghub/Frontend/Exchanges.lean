import Tradinghub.Frontend.Client

/-!
# Requests and responses on their way

`Books` is what holds of the network in every run: which of the server's requests are whose, and
that what others present is none of this browser's.
-/

namespace Tradinghub.Frontend

open ReadCommitted
open Auth (AuthSystem Log Response initialWorld)

/-! ## Answers -/

section Answers

variable {log log' : Log} {n : Nat}

theorem mem_of_answerTo {r : Except Failure Response} (h : answerTo log n = some r) :
    ∃ req, (n, req, r) ∈ log := by
  obtain ⟨⟨m, req, r'⟩, hfind, rfl⟩ := Option.map_eq_some_iff.1 h
  have hm : m = n := by simpa using List.find?_some hfind
  exact ⟨req, hm ▸ List.mem_of_find?_eq_some hfind⟩

theorem answerTo_eq_none : answerTo log n = none ↔ ∀ e ∈ log, e.1 ≠ n := by
  unfold answerTo
  rw [Option.map_eq_none_iff, List.find?_eq_none]
  simp only [decide_eq_true_eq, ne_eq]

theorem answerTo_of_mem (honce : log.Pairwise fun e e' => e.1 ≠ e'.1) {req : Auth.Request}
    {r : Except Failure Response} (h : (n, req, r) ∈ log) : answerTo log n = some r := by
  cases hanswer : answerTo log n with
  | none => exact absurd rfl (answerTo_eq_none.1 hanswer _ h)
  | some r' =>
    obtain ⟨req', h'⟩ := mem_of_answerTo hanswer
    have heq := Auth.once_eq honce h' h rfl
    cases heq
    rfl

/-- An answer stays. -/
theorem answerTo_mono (honce : log'.Pairwise fun e e' => e.1 ≠ e'.1) (hsub : ∀ e ∈ log, e ∈ log')
    {r : Except Failure Response} (h : answerTo log n = some r) : answerTo log' n = some r := by
  obtain ⟨req, hmem⟩ := mem_of_answerTo h
  exact answerTo_of_mem honce (hsub _ hmem)

end Answers

/-- A refresh that has succeeded, and whose response is on its way. -/
def Exchange.Done (log : Log) (e : Exchange) : Prop :=
  ∃ n pair, e.wire = .serving n ∧ answerTo log n = some (.ok (.tokens pair))

section Exchanges

variable {log log' : Log} {e : Exchange}

theorem pending_iff : e.pending log = true ↔
    e.wire = .going ∨ ∃ n, e.wire = .serving n ∧ answerTo log n = none := by
  unfold Exchange.pending
  cases e.wire <;> simp

theorem live_iff : e.live log = true ↔
    e.wire = .going ∨ ∃ n, e.wire = .serving n ∧ ∀ f, answerTo log n ≠ some (.error f) := by
  unfold Exchange.live
  cases e.wire with
  | serving n =>
    cases h : answerTo log n with
    | none => simp [h]
    | some r => cases r <;> simp [h]
  | _ => simp

theorem live_of_pending (h : e.pending log = true) : e.live log = true := by
  refine live_iff.2 ((pending_iff.1 h).imp id ?_)
  rintro ⟨n, hn, hnone⟩
  refine ⟨n, hn, fun f hf => ?_⟩
  rw [hnone] at hf
  cases hf

theorem Exchange.Done.live (h : e.Done log) : e.live log = true := by
  obtain ⟨n, pair, hn, ha⟩ := h
  refine live_iff.2 (Or.inr ⟨n, hn, fun f hf => ?_⟩)
  rw [ha] at hf
  cases hf

theorem Exchange.Done.mono (honce : log'.Pairwise fun e e' => e.1 ≠ e'.1)
    (hsub : ∀ e ∈ log, e ∈ log') (h : e.Done log) : e.Done log' := by
  obtain ⟨n, pair, hn, ha⟩ := h
  exact ⟨n, pair, hn, answerTo_mono honce hsub ha⟩

theorem pending_of_later (hsub : ∀ e ∈ log, e ∈ log') (h : e.pending log' = true) :
    e.pending log = true := by
  rw [pending_iff] at h ⊢
  refine h.imp id ?_
  rintro ⟨n, hn, hnone⟩
  exact ⟨n, hn, answerTo_eq_none.2 fun x hx => answerTo_eq_none.1 hnone x (hsub x hx)⟩

theorem live_of_later (honce : log'.Pairwise fun e e' => e.1 ≠ e'.1) (hsub : ∀ e ∈ log, e ∈ log')
    (h : e.live log' = true) : e.live log = true := by
  rw [live_iff] at h ⊢
  refine h.imp id ?_
  rintro ⟨n, hn, hnot⟩
  exact ⟨n, hn, fun f hf => hnot f (answerTo_mono honce hsub hf)⟩

end Exchanges

/-! ## Where the exchanges are -/

namespace Network

variable {w : Network} {id id' : Nat} {e e' : Exchange}

/-- An exchange after a request has left is the new one, or was there. -/
theorem of_leave {sender : Sender} {url : Path}
    (h : (w.leave sender url).exchanges id = some e) :
    id = w.sent ∧ e = { sender, url, cookie := if url.sendsCookie then w.jar else none } ∨
    id ≠ w.sent ∧ w.exchanges id = some e :=
  of_update_some h

theorem leave_of_ne (sender : Sender) (url : Path) (hid : id ≠ w.sent) :
    (w.leave sender url).exchanges id = w.exchanges id :=
  Function.update_of_ne hid ..

theorem of_put (h : (w.put id e).exchanges id' = some e') :
    id' = id ∧ e' = e ∨ id' ≠ id ∧ w.exchanges id' = some e' :=
  of_update_some h

theorem put_self (w : Network) (id : Nat) (e : Exchange) : (w.put id e).exchanges id = some e :=
  Function.update_self ..

theorem put_of_ne (hid : id' ≠ id) : (w.put id e).exchanges id' = w.exchanges id' :=
  Function.update_of_ne hid ..

theorem of_arrive {reply : Reply} (h : (w.arrive id reply).exchanges id' = some e') :
    id' ≠ id ∧ w.exchanges id' = some e' :=
  of_update_none h

theorem arrive_of_ne {reply : Reply} (hid : id' ≠ id) :
    (w.arrive id reply).exchanges id' = w.exchanges id' :=
  Function.update_of_ne hid ..

end Network

/-! ## Whose requests the server has -/

/-- The book-keeping of the network. -/
structure Books (env : Auth.Env) (w : Network) : Prop where
  run : Run Auth.engine (Auth.handle env) anyStep { world := initialWorld } w.server
  ids : ∀ id e, w.exchanges id = some e → id < w.sent
  started : ∀ n ∈ w.served, n < w.server.world.started
  serving : ∀ id e n, w.exchanges id = some e → e.wire = .serving n → n ∈ w.served
  apart : ∀ id id' e e' n, w.exchanges id = some e → w.exchanges id' = some e' →
    e.wire = .serving n → e'.wire = .serving n → id = id'
  /-- a request that is not answered has its exchange -/
  unanswered : ∀ n ∈ w.served, answerTo w.log n = none →
    ∃ id e, w.exchanges id = some e ∧ e.wire = .serving n
  asks : ∀ id e n req, w.exchanges id = some e → e.wire = .serving n → w.server.Asked n req →
    e.Asks req
  /-- what others present is none of this browser's -/
  strangers : ∀ n tok k, w.server.Asked n (.refreshSession tok) → n ∉ w.served →
    env.hashRefreshToken tok = env.hashRefreshToken (env.generateRefreshToken k) →
    k < w.server.world.started ∧ k ∉ w.served

namespace Books

variable {env : Auth.Env} {w w' : Network} {id : Nat} {e : Exchange}

theorem good (h : Books env w) : Good (Auth.discipline env) Auth.engine w.server :=
  Auth.sessions_good h.run

theorem asked_lt (h : Books env w) {n : Nat} {req : Auth.Request} (hasked : w.server.Asked n req) :
    n < w.server.world.started := by
  rcases hasked with ⟨c, hc, -⟩ | ⟨r, hr⟩
  · exact h.good.bound n c hc
  · exact h.good.logged _ hr

/-- Only the jar, or nothing the books speak of, is different. -/
theorem congr (h : Books env w) (hserver : w'.server = w.server)
    (hexchanges : w'.exchanges = w.exchanges) (hsent : w'.sent = w.sent)
    (hserved : w'.served = w.served) : Books env w' := by
  obtain ⟨server, jar, exchanges, sent, served⟩ := w'
  subst hserver hexchanges hsent hserved
  exact ⟨h.run, h.ids, h.started, h.serving, h.apart, h.unanswered, h.asks, h.strangers⟩

theorem leave (h : Books env w) (sender : Sender) (url : Path) : Books env (w.leave sender url) := by
  -- a request that has just left is at no server
  have old : ∀ {id e n}, (w.leave sender url).exchanges id = some e → e.wire = .serving n →
      w.exchanges id = some e := by
    intro id e n he hn
    rcases Network.of_leave he with ⟨-, rfl⟩ | ⟨-, he⟩
    · cases hn
    · exact he
  refine ⟨h.run, fun id e he => ?_, h.started, fun id e n he hn => ?_,
    fun id id' e e' n he he' hn hn' => ?_, fun n hn hnone => ?_, fun id e n req he hn hreq => ?_,
    h.strangers⟩
  · rcases Network.of_leave he with ⟨rfl, -⟩ | ⟨-, he⟩
    · exact Nat.lt_succ_self _
    · exact Nat.lt_succ_of_lt (h.ids id e he)
  · exact h.serving id e n (old he hn) hn
  · exact h.apart id id' e e' n (old he hn) (old he' hn') hn hn'
  · obtain ⟨id, e, he, hwire⟩ := h.unanswered n hn hnone
    exact ⟨id, e, (Network.leave_of_ne _ _ (Nat.ne_of_lt (h.ids id e he))).trans he, hwire⟩
  · exact h.asks id e n req (old he hn) hn hreq

/-- An exchange whose request goes no further, or is as far as it was. -/
theorem put (h : Books env w) {e' : Exchange} (he : w.exchanges id = some e) (hurl : e'.url = e.url)
    (hcookie : e'.cookie = e.cookie)
    (hwire : e'.wire = e.wire ∨ (∀ n, e'.wire ≠ .serving n) ∧
      ∀ n, e.wire = .serving n → answerTo w.log n ≠ none) : Books env (w.put id e') := by
  have old : ∀ {id' e₁ n}, (w.put id e').exchanges id' = some e₁ → e₁.wire = .serving n →
      ∃ e₀, w.exchanges id' = some e₀ ∧ e₀.wire = .serving n ∧ e₀.url = e₁.url ∧
        e₀.cookie = e₁.cookie := by
    intro id' e₁ n he₁ hn
    rcases Network.of_put he₁ with ⟨rfl, rfl⟩ | ⟨-, he₁⟩
    · rcases hwire with hsame | ⟨hnot, -⟩
      · exact ⟨e, he, hsame ▸ hn, hurl.symm, hcookie.symm⟩
      · exact absurd hn (hnot n)
    · exact ⟨e₁, he₁, hn, rfl, rfl⟩
  refine ⟨h.run, fun id' e₁ he₁ => ?_, h.started, fun id' e₁ n he₁ hn => ?_,
    fun id₁ id₂ e₁ e₂ n he₁ he₂ hn₁ hn₂ => ?_, fun n hn hnone => ?_,
    fun id' e₁ n req he₁ hn hreq => ?_, h.strangers⟩
  · rcases Network.of_put he₁ with ⟨rfl, -⟩ | ⟨-, he₁⟩
    · exact h.ids id' e he
    · exact h.ids id' e₁ he₁
  · obtain ⟨e₀, he₀, hn₀, -, -⟩ := old he₁ hn
    exact h.serving id' e₀ n he₀ hn₀
  · obtain ⟨e₀, he₀, hn₀, -, -⟩ := old he₁ hn₁
    obtain ⟨e₀', he₀', hn₀', -, -⟩ := old he₂ hn₂
    exact h.apart id₁ id₂ e₀ e₀' n he₀ he₀' hn₀ hn₀'
  · obtain ⟨id', e₀, he₀, hn₀⟩ := h.unanswered n hn hnone
    by_cases hid : id' = id
    · subst hid
      obtain rfl : e₀ = e := Option.some.inj (he₀.symm.trans he)
      rcases hwire with hsame | ⟨-, hanswered⟩
      · exact ⟨id', e', Network.put_self .., hsame.trans hn₀⟩
      · exact absurd hnone (hanswered n hn₀)
    · exact ⟨id', e₀, (Network.put_of_ne hid).trans he₀, hn₀⟩
  · obtain ⟨e₀, he₀, hn₀, hurl₀, hcookie₀⟩ := old he₁ hn
    have hasks := h.asks id' e₀ n req he₀ hn₀ hreq
    unfold Exchange.Asks at hasks ⊢
    rwa [hurl₀, hcookie₀] at hasks

theorem serve (h : Books env w) {req : Auth.Request} {server : AuthSystem}
    (hs : ReadCommitted.step Auth.engine (Auth.handle env) w.server (.start req) = some server)
    (he : w.exchanges id = some e) (hgoing : e.wire = .going) (hasks : e.Asks req) :
    Books env { w.put id { e with wire := .serving w.server.world.started } with
      server := server
      served := w.server.world.started :: w.served } := by
  have hworld := step_start_world hs
  have hstarted : server.world.started = w.server.world.started + 1 := by
    rw [hworld]
    rfl
  have hnew : w.server.world.started ∉ w.served :=
    fun hmem => Nat.lt_irrefl _ (h.started _ hmem)
  -- another exchange was there before, with its own request
  have other : ∀ {id' e' n}, w.exchanges id' = some e' → e'.wire = .serving n →
      n ∈ w.served ∧ n ≠ w.server.world.started := by
    intro id' e' n he' hn
    have hmem := h.serving id' e' n he' hn
    exact ⟨hmem, fun heq => hnew (heq ▸ hmem)⟩
  refine ⟨h.run.tail trivial hs, fun id' e' he' => ?_, fun n hn => ?_, fun id' e' n he' hn => ?_,
    fun id₁ id₂ e₁ e₂ n he₁ he₂ hn₁ hn₂ => ?_, fun n hn hnone => ?_,
    fun id' e' n req' he' hn hreq => ?_, fun n tok k hreq hn hash => ?_⟩
  · rcases Network.of_put he' with ⟨rfl, -⟩ | ⟨-, he'⟩
    · exact h.ids id' e he
    · exact h.ids id' e' he'
  · show n < server.world.started
    rw [hstarted]
    rcases List.mem_cons.1 hn with rfl | hn
    · exact Nat.lt_succ_self _
    · exact Nat.lt_succ_of_lt (h.started n hn)
  · rcases Network.of_put he' with ⟨rfl, rfl⟩ | ⟨-, he'⟩
    · cases hn
      exact List.mem_cons_self
    · exact List.mem_cons_of_mem _ (other he' hn).1
  · rcases Network.of_put he₁ with ⟨rfl, rfl⟩ | ⟨-, hold₁⟩
    · rcases Network.of_put he₂ with ⟨rfl, -⟩ | ⟨-, hold₂⟩
      · rfl
      · cases hn₁
        exact absurd rfl (other hold₂ hn₂).2
    · rcases Network.of_put he₂ with ⟨rfl, rfl⟩ | ⟨-, hold₂⟩
      · cases hn₂
        exact absurd rfl (other hold₁ hn₁).2
      · exact h.apart id₁ id₂ e₁ e₂ n hold₁ hold₂ hn₁ hn₂
  · rcases List.mem_cons.1 hn with rfl | hn
    · exact ⟨id, _, Network.put_self .., rfl⟩
    · have hnone' : answerTo server.world.log n = none := hnone
      rw [hworld] at hnone'
      obtain ⟨id', e', he', hn'⟩ := h.unanswered n hn hnone'
      have hid : id' ≠ id := by
        rintro rfl
        rw [he] at he'
        cases he'
        rw [hgoing] at hn'
        cases hn'
      exact ⟨id', e', (Network.put_of_ne hid).trans he', hn'⟩
  · rcases Network.of_put he' with ⟨rfl, rfl⟩ | ⟨-, he'⟩
    · cases hn
      rcases step_asked hs hreq with hold | ⟨hstart, -⟩
      · exact absurd (h.asked_lt hold) (Nat.lt_irrefl _)
      · cases hstart
        exact hasks
    · rcases step_asked hs hreq with hold | ⟨-, heq⟩
      · exact h.asks id' e' n req' he' hn hold
      · exact absurd heq (other he' hn).2
  · have hn' : n ≠ w.server.world.started ∧ n ∉ w.served := by
      simpa only [List.mem_cons, not_or] using hn
    rcases step_asked hs hreq with hold | ⟨-, heq⟩
    · obtain ⟨hlt, hnot⟩ := h.strangers n tok k hold hn'.2 hash
      refine ⟨hstarted ▸ Nat.lt_succ_of_lt hlt, ?_⟩
      exact fun hmem => (List.mem_cons.1 hmem).elim (Nat.ne_of_lt hlt) hnot
    · exact absurd heq hn'.1

theorem server (h : Books env w) {a : ReadCommitted.Action Nat Failure Auth.Request}
    {server : AuthSystem}
    (hs : ReadCommitted.step Auth.engine (Auth.handle env) w.server a = some server)
    (hsecret : ∀ req tok k, a = .start req → presented req = some tok →
      env.hashRefreshToken tok = env.hashRefreshToken (env.generateRefreshToken k) →
      k < w.server.world.started ∧ k ∉ w.served) : Books env { w with server := server } := by
  have hle := step_started_le hs
  have hlog := step_log_mono hs
  refine ⟨h.run.tail trivial hs, h.ids, fun n hn => Nat.lt_of_lt_of_le (h.started n hn) hle,
    h.serving, h.apart, fun n hn hnone => ?_, fun id e n req he hn hreq => ?_,
    fun n tok k hreq hn hash => ?_⟩
  · refine h.unanswered n hn (answerTo_eq_none.2 fun x hx => ?_)
    exact answerTo_eq_none.1 hnone x (hlog x hx)
  · rcases step_asked hs hreq with hold | ⟨-, heq⟩
    · exact h.asks id e n req he hn hold
    · exact absurd heq (Nat.ne_of_lt (h.started n (h.serving id e n he hn)))
  · rcases step_asked hs hreq with hold | ⟨hstart, -⟩
    · obtain ⟨hlt, hnot⟩ := h.strangers n tok k hold hn hash
      exact ⟨Nat.lt_of_lt_of_le hlt hle, hnot⟩
    · obtain ⟨hlt, hnot⟩ := hsecret _ tok k hstart rfl hash
      exact ⟨Nat.lt_of_lt_of_le hlt hle, hnot⟩

theorem arrive (h : Books env w) {reply : Reply} (he : w.exchanges id = some e)
    (hreply : e.reply w.log = some reply) : Books env (w.arrive id reply) := by
  refine ⟨h.run, fun id' e' he' => h.ids id' e' (Network.of_arrive he').2, h.started,
    fun id' e' n he' hn => h.serving id' e' n (Network.of_arrive he').2 hn,
    fun id₁ id₂ e₁ e₂ n he₁ he₂ =>
      h.apart id₁ id₂ e₁ e₂ n (Network.of_arrive he₁).2 (Network.of_arrive he₂).2,
    fun n hn hnone => ?_, fun id' e' n req he' => h.asks id' e' n req (Network.of_arrive he').2,
    h.strangers⟩
  obtain ⟨id', e', he', hn'⟩ := h.unanswered n hn hnone
  have hid : id' ≠ id := by
    rintro rfl
    rw [he] at he'
    cases he'
    have hnone' : answerTo w.log n = none := hnone
    simp only [Exchange.reply, hn', hnone', Option.map_none, reduceCtorEq] at hreply
  exact ⟨id', e', (Network.arrive_of_ne hid).trans he', hn'⟩

end Books

end Tradinghub.Frontend
