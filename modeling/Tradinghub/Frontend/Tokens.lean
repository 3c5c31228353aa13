import Tradinghub.Frontend.Exchanges

/-!
# Where the browser's tokens are

A token is minted for one exchange and reaches the jar by its arrival only (`Tokens`).  While at
most one refresh may still succeed (`Network.Alone`), a token the server has redeemed is in no
refresh it has yet to answer, and in the jar only until the response that replaces it arrives.
-/

namespace Tradinghub.Frontend

open ReadCommitted
open Auth (AuthSystem Log Redeemed TokenOf)

/-- At most one refresh may still succeed, or has, with its response on its way. -/
def Network.Alone (w : Network) : Prop :=
  ∀ id id' e e', w.exchanges id = some e → w.exchanges id' = some e' → e.url = REFRESH_PATH →
    e'.url = REFRESH_PATH → e.live w.log = true → e'.live w.log = true → id = id'

/-- The token is neither in the jar nor in a request, and was not redeemed. -/
structure Unseen (env : Auth.Env) (w : Network) (tok : String) : Prop where
  jar : w.jar ≠ some tok
  cookies : ∀ id e, w.exchanges id = some e → e.cookie ≠ some tok
  redeemed : ¬ Redeemed env w.log tok

structure Tokens (env : Auth.Env) (w : Network) : Prop where
  jar : ∀ tok, w.jar = some tok → ∃ k ∈ w.served, tok = env.generateRefreshToken k
  cookies : ∀ id e tok, w.exchanges id = some e → e.cookie = some tok →
    ∃ k ∈ w.served, tok = env.generateRefreshToken k
  asked : ∀ n tok, n ∈ w.served → w.server.Asked n (.refreshSession tok) →
    ∃ k ∈ w.served, tok = env.generateRefreshToken k
  /-- what a request may mint is nowhere until its response arrives -/
  unseen : ∀ id e n, w.exchanges id = some e → e.wire = .serving n →
    Unseen env w (env.generateRefreshToken n)
  sent : ∀ id e tok, w.exchanges id = some e → e.url = REFRESH_PATH → e.pending w.log = true →
    e.cookie = some tok → ¬ Redeemed env w.log tok
  /-- the response that replaces a redeemed token is on its way -/
  replaced : ∀ tok, w.jar = some tok → Redeemed env w.log tok →
    ∃ id e, w.exchanges id = some e ∧ e.url = REFRESH_PATH ∧ e.Done w.log

section Answers

variable {env : Auth.Env} {w : Network}

theorem generateRefreshToken_inj {n m : Nat}
    (h : env.generateRefreshToken n = env.generateRefreshToken m) : n = m :=
  env.hash_fresh n m (congrArg _ h)

/-- No request presents a token that has not been minted. -/
theorem Books.not_redeemed_started (h : Books env w) :
    ¬ Redeemed env w.log (env.generateRefreshToken w.server.world.started) := by
  rintro ⟨m, tok, pair, he, hash⟩
  have hinv : Auth.SessionsOk env w.server.world := h.good.inv
  obtain ⟨k, ⟨req, pair', hk⟩, hash', -⟩ := hinv.spent m tok pair he
  obtain rfl := env.hash_fresh _ _ (hash'.symm.trans hash)
  exact Nat.lt_irrefl _ (h.good.logged _ hk)

/-- The pair in a response is of the token its request minted. -/
theorem Books.minted (h : Books env w) {n : Nat} {pair : Auth.TokenPair}
    (ha : answerTo w.log n = some (.ok (.tokens pair))) :
    pair.refreshToken = env.generateRefreshToken n := by
  obtain ⟨req, he⟩ := mem_of_answerTo ha
  have hinv : Auth.SessionsOk env w.server.world := h.good.inv
  exact hinv.minted n req pair he

end Answers

namespace Tokens

variable {env : Auth.Env} {w : Network} {id : Nat} {e : Exchange}

/-- A step of the server's redeems a token of this browser's for a refresh of this browser's. -/
theorem redeems (h : Tokens env w) (hb : Books env w)
    {a : ReadCommitted.Action Nat Failure Auth.Request} {server : AuthSystem}
    (hs : ReadCommitted.step Auth.engine (Auth.handle env) w.server a = some server) {k : Nat}
    (hk : k ∈ w.served) (hr : Redeemed env server.world.log (env.generateRefreshToken k)) :
    Redeemed env w.log (env.generateRefreshToken k) ∨
    ∃ id e m pair, w.exchanges id = some e ∧ e.url = REFRESH_PATH ∧ e.wire = .serving m ∧
      answerTo w.log m = none ∧ answerTo server.world.log m = some (.ok (.tokens pair)) ∧
      e.cookie = some (env.generateRefreshToken k) := by
  obtain ⟨m, tok, pair, he, hash⟩ := hr
  rcases step_log hs he with hold | ⟨c, hc, hreq, -⟩
  · exact Or.inl ⟨m, tok, pair, hold, hash⟩
  · right
    have hasked : w.server.Asked m (.refreshSession tok) := Or.inl ⟨c, hc, hreq⟩
    have hmine : m ∈ w.served := by
      by_contra hm
      exact (hb.strangers m tok k hasked hm hash).2 hk
    have hnone : answerTo w.log m = none := answerTo_eq_none.2 (hb.good.unanswered m c hc)
    obtain ⟨id, e, hid, hwire⟩ := hb.unanswered m hmine hnone
    obtain ⟨hurl, hcookie⟩ := hb.asks id e m _ hid hwire hasked
    obtain ⟨j, -, rfl⟩ := h.asked m tok hmine hasked
    obtain rfl := env.hash_fresh _ _ hash
    have honce := (Auth.sessions_good (hb.run.tail trivial hs)).once
    exact ⟨id, e, m, pair, hid, hurl, hwire, hnone, answerTo_of_mem honce he, hcookie⟩

/-- A redeemed token may be in the jar, but then no new refresh may take it. -/
theorem leave (h : Tokens env w) (hb : Books env w) (sender : Sender) {url : Path}
    (hfresh : url = REFRESH_PATH → ∀ tok, w.jar = some tok → ¬ Redeemed env w.log tok) :
    Tokens env (w.leave sender url) := by
  have cookie : ∀ {tok}, (if url.sendsCookie then w.jar else none) = some tok →
      w.jar = some tok := by
    intro tok htok
    split at htok
    · exact htok
    · cases htok
  refine ⟨h.jar, fun id e tok he htok => ?_, h.asked, fun id e n he hn => ?_,
    fun id e tok he hurl hpending htok => ?_, fun tok hjar hr => ?_⟩
  · rcases Network.of_leave he with ⟨-, rfl⟩ | ⟨-, he⟩
    · exact h.jar tok (cookie htok)
    · exact h.cookies id e tok he htok
  · rcases Network.of_leave he with ⟨-, rfl⟩ | ⟨-, he⟩
    · cases hn
    · have hunseen := h.unseen id e n he hn
      refine ⟨hunseen.jar, fun id' e' he' => ?_, hunseen.redeemed⟩
      rcases Network.of_leave he' with ⟨-, rfl⟩ | ⟨-, he'⟩
      · exact fun htok => hunseen.jar (cookie htok)
      · exact hunseen.cookies id' e' he'
  · rcases Network.of_leave he with ⟨-, rfl⟩ | ⟨-, he⟩
    · exact hfresh hurl tok (cookie htok)
    · exact h.sent id e tok he hurl hpending htok
  · obtain ⟨id, e, he, hdone⟩ := h.replaced tok hjar hr
    exact ⟨id, e, (Network.leave_of_ne _ _ (Nat.ne_of_lt (hb.ids id e he))).trans he, hdone⟩

theorem put (h : Tokens env w) {e' : Exchange} (he : w.exchanges id = some e)
    (hurl : e'.url = e.url) (hcookie : e'.cookie = e.cookie)
    (hserving : ∀ n, e'.wire = .serving n → e.wire = .serving n)
    (hpending : e'.pending w.log = true → e.pending w.log = true)
    (hdone : e.url = REFRESH_PATH → e.Done w.log → e'.Done w.log) : Tokens env (w.put id e') := by
  refine ⟨h.jar, fun id₁ e₁ tok he₁ htok => ?_, h.asked, fun id₁ e₁ n he₁ hn => ?_,
    fun id₁ e₁ tok he₁ hurl₁ hpending₁ htok => ?_, fun tok hjar hr => ?_⟩
  · rcases Network.of_put he₁ with ⟨-, rfl⟩ | ⟨-, hold⟩
    · exact h.cookies id e tok he (hcookie.symm.trans htok)
    · exact h.cookies id₁ e₁ tok hold htok
  · have hunseen : Unseen env w (env.generateRefreshToken n) := by
      rcases Network.of_put he₁ with ⟨-, rfl⟩ | ⟨-, hold⟩
      · exact h.unseen id e n he (hserving n hn)
      · exact h.unseen id₁ e₁ n hold hn
    refine ⟨hunseen.jar, fun id₂ e₂ he₂ => ?_, hunseen.redeemed⟩
    rcases Network.of_put he₂ with ⟨-, rfl⟩ | ⟨-, hold⟩
    · exact hcookie ▸ hunseen.cookies id e he
    · exact hunseen.cookies id₂ e₂ hold
  · rcases Network.of_put he₁ with ⟨-, rfl⟩ | ⟨-, hold⟩
    · exact h.sent id e tok he (hurl.symm.trans hurl₁) (hpending hpending₁)
        (hcookie.symm.trans htok)
    · exact h.sent id₁ e₁ tok hold hurl₁ hpending₁ htok
  · obtain ⟨id₁, e₁, he₁, hurl₁, hdone₁⟩ := h.replaced tok hjar hr
    by_cases hid : id₁ = id
    · subst hid
      obtain rfl := Option.some.inj (he₁.symm.trans he)
      exact ⟨id₁, e', Network.put_self .., hurl.trans hurl₁, hdone hurl₁ hdone₁⟩
    · exact ⟨id₁, e₁, (Network.put_of_ne hid).trans he₁, hurl₁, hdone₁⟩

theorem serve (h : Tokens env w) (hb : Books env w) {req : Auth.Request} {server : AuthSystem}
    (hs : ReadCommitted.step Auth.engine (Auth.handle env) w.server (.start req) = some server)
    (he : w.exchanges id = some e) (hgoing : e.wire = .going) (hasks : e.Asks req) :
    Tokens env { w.put id { e with wire := .serving w.server.world.started } with
      server := server
      served := w.server.world.started :: w.served } := by
  have hlog : server.world.log = w.log := by
    rw [step_start_world hs]
    rfl
  have hnew : w.server.world.started ∉ w.served :=
    fun hmem => Nat.lt_irrefl _ (hb.started _ hmem)
  have known : ∀ {tok}, (∃ k ∈ w.served, tok = env.generateRefreshToken k) →
      ∃ k ∈ w.server.world.started :: w.served, tok = env.generateRefreshToken k := by
    rintro tok ⟨k, hk, rfl⟩
    exact ⟨k, List.mem_cons_of_mem _ hk, rfl⟩
  -- nobody has a token that is only now to be minted
  have unseen : Unseen env w (env.generateRefreshToken w.server.world.started) := by
    refine ⟨fun hjar => ?_, fun id' e' he' htok => ?_, hb.not_redeemed_started⟩
    · obtain ⟨k, hk, heq⟩ := h.jar _ hjar
      exact hnew (generateRefreshToken_inj heq ▸ hk)
    · obtain ⟨k, hk, heq⟩ := h.cookies id' e' _ he' htok
      exact hnew (generateRefreshToken_inj heq ▸ hk)
  refine ⟨fun tok hjar => known (h.jar tok hjar), fun id₁ e₁ tok he₁ htok => known ?_,
    fun n tok hn hasked => known ?_, fun id₁ e₁ n he₁ hn => ?_,
    fun id₁ e₁ tok he₁ hurl₁ hpending₁ htok => ?_, fun tok hjar hr => ?_⟩
  · rcases Network.of_put he₁ with ⟨-, rfl⟩ | ⟨-, hold⟩
    · exact h.cookies id e tok he htok
    · exact h.cookies id₁ e₁ tok hold htok
  · rcases List.mem_cons.1 hn with rfl | hn
    · rcases step_asked hs hasked with hold | ⟨hstart, -⟩
      · exact absurd (hb.asked_lt hold) (Nat.lt_irrefl _)
      · cases hstart
        exact h.cookies id e tok he hasks.2
    · rcases step_asked hs hasked with hold | ⟨-, heq⟩
      · exact h.asked n tok hn hold
      · exact absurd (heq ▸ hn) hnew
  · have hunseen : Unseen env w (env.generateRefreshToken n) := by
      rcases Network.of_put he₁ with ⟨-, rfl⟩ | ⟨-, hold⟩
      · cases hn
        exact unseen
      · exact h.unseen id₁ e₁ n hold hn
    refine ⟨hunseen.jar, fun id₂ e₂ he₂ => ?_, fun hr => hunseen.redeemed (hlog ▸ hr)⟩
    rcases Network.of_put he₂ with ⟨-, rfl⟩ | ⟨-, hold⟩
    · exact hunseen.cookies id e he
    · exact hunseen.cookies id₂ e₂ hold
  · have hnot : ¬ Redeemed env w.log tok := by
      rcases Network.of_put he₁ with ⟨-, rfl⟩ | ⟨-, hold⟩
      · exact h.sent id e tok he hurl₁ (pending_iff.2 (Or.inl hgoing)) htok
      · exact h.sent id₁ e₁ tok hold hurl₁ (hlog ▸ hpending₁) htok
    exact fun hr => hnot (hlog ▸ hr)
  · obtain ⟨id₁, e₁, he₁, hurl₁, hdone₁⟩ := h.replaced tok hjar (hlog ▸ hr)
    have hid : id₁ ≠ id := by
      rintro rfl
      obtain rfl := Option.some.inj (he₁.symm.trans he)
      obtain ⟨n, pair, hn, -⟩ := hdone₁
      rw [hgoing] at hn
      cases hn
    have hdone : e₁.Done server.world.log := hlog ▸ hdone₁
    exact ⟨id₁, e₁, (Network.put_of_ne hid).trans he₁, hurl₁, hdone⟩

theorem server (h : Tokens env w) (hb : Books env w) (halone : w.Alone)
    {a : ReadCommitted.Action Nat Failure Auth.Request} {server : AuthSystem}
    (hs : ReadCommitted.step Auth.engine (Auth.handle env) w.server a = some server) :
    Tokens env { w with server := server } := by
  have hlog := step_log_mono hs
  have honce := (Auth.sessions_good (hb.run.tail trivial hs)).once
  refine ⟨h.jar, h.cookies, fun n tok hn hasked => ?_, fun id e n he hn => ?_,
    fun id e tok he hurl hpending htok hr => ?_, fun tok hjar hr => ?_⟩
  · rcases step_asked hs hasked with hold | ⟨-, heq⟩
    · exact h.asked n tok hn hold
    · exact absurd heq (Nat.ne_of_lt (hb.started n hn))
  · have hunseen := h.unseen id e n he hn
    refine ⟨hunseen.jar, hunseen.cookies, fun hr => ?_⟩
    rcases h.redeems hb hs (hb.serving id e n he hn) hr with
      hold | ⟨id', e', -, -, he', -, -, -, -, hcookie⟩
    · exact hunseen.redeemed hold
    · exact hunseen.cookies id' e' he' hcookie
  · have hold : e.pending w.log = true := pending_of_later hlog hpending
    obtain ⟨k, hk, rfl⟩ := h.cookies id e tok he htok
    rcases h.redeems hb hs hk hr with hold' | ⟨id', e', m, pair, he', hurl', hwire, hnone, hm, -⟩
    · exact h.sent id e _ he hurl hold htok hold'
    · -- the refresh that redeemed it is this one, which is then answered
      have hlive' : e'.live w.log = true :=
        live_of_pending (pending_iff.2 (Or.inr ⟨m, hwire, hnone⟩))
      obtain rfl := halone id id' e e' he he' hurl hurl' (live_of_pending hold) hlive'
      obtain rfl := Option.some.inj (he.symm.trans he')
      rcases pending_iff.1 hpending with hgoing | ⟨m', hm', hnone'⟩
      · rw [hwire] at hgoing
        cases hgoing
      · rw [hwire] at hm'
        cases hm'
        exact absurd (hm.symm.trans hnone') (by simp)
  · obtain ⟨k, hk, rfl⟩ := h.jar tok hjar
    rcases h.redeems hb hs hk hr with hold | ⟨id, e, m, pair, he, hurl, hwire, -, hm, -⟩
    · obtain ⟨id, e, he, hurl, hdone⟩ := h.replaced _ hjar hold
      exact ⟨id, e, he, hurl, hdone.mono honce hlog⟩
    · exact ⟨id, e, he, hurl, m, pair, hwire, hm⟩

theorem arrive (h : Tokens env w) (hb : Books env w) {reply : Reply}
    (he : w.exchanges id = some e) (hreply : e.reply w.log = some reply) :
    Tokens env (w.arrive id reply) := by
  -- a token that arrives was minted for this request
  have minted : ∀ {tok}, reply = .tokens tok →
      ∃ n pair, e.wire = .serving n ∧ answerTo w.log n = some (.ok (.tokens pair)) ∧
        tok = env.generateRefreshToken n := by
    rintro tok rfl
    unfold Exchange.reply at hreply
    split at hreply
    · next n hn =>
      obtain ⟨r, hr, heq⟩ := Option.map_eq_some_iff.1 hreply
      unfold replyTo at heq
      split at heq <;> cases heq
      exact ⟨n, _, hn, hr, hb.minted hr⟩
    · cases hreply
    · cases hreply
  have jar : ∀ {tok}, reply.setCookie w.jar = some tok →
      reply = .tokens tok ∨ w.jar = some tok ∧ ∀ t, reply ≠ .tokens t := by
    intro tok htok
    unfold Reply.setCookie at htok
    split at htok
    · cases htok
      exact Or.inl rfl
    · cases htok
    · exact Or.inr ⟨htok, by simp⟩
  refine ⟨fun tok htok => ?_, fun id' e' tok he' => h.cookies id' e' tok (Network.of_arrive he').2,
    h.asked, fun id' e' n he' hn => ?_, fun id' e' tok he' => h.sent id' e' tok (Network.of_arrive he').2,
    fun tok htok hr => ?_⟩
  · rcases jar htok with heq | ⟨hold, -⟩
    · obtain ⟨n, pair, hn, -, rfl⟩ := minted heq
      exact ⟨n, hb.serving id e n he hn, rfl⟩
    · exact h.jar tok hold
  · obtain ⟨hid, he'⟩ := Network.of_arrive he'
    have hunseen := h.unseen id' e' n he' hn
    refine ⟨fun htok => ?_, fun id₂ e₂ he₂ => hunseen.cookies id₂ e₂ (Network.of_arrive he₂).2,
      hunseen.redeemed⟩
    rcases jar htok with heq | ⟨hold, -⟩
    · obtain ⟨m, pair, hm, -, heq⟩ := minted heq
      obtain rfl := generateRefreshToken_inj heq
      exact hid (hb.apart id' id e' e n he' he hn hm)
    · exact hunseen.jar hold
  · rcases jar htok with heq | ⟨hold, hnot⟩
    · obtain ⟨n, pair, hn, -, rfl⟩ := minted heq
      exact absurd hr (h.unseen id e n he hn).redeemed
    · obtain ⟨id', e', he', hurl', hdone⟩ := h.replaced tok hold hr
      have hid : id' ≠ id := by
        rintro rfl
        obtain rfl := Option.some.inj (he'.symm.trans he)
        obtain ⟨n, pair, hn, ha⟩ := hdone
        simp only [Exchange.reply, hn, ha, Option.map_some, replyTo, Option.some.injEq] at hreply
        exact hnot _ hreply.symm
      exact ⟨id', e', (Network.arrive_of_ne hid).trans he', hurl', hdone⟩

/-- No token of another client's is in a family of this browser's. -/
theorem family (h : Tokens env w) (hb : Books env w) {F : Nat} {t : String}
    (ht : TokenOf env w.log F t) :
    ∃ n k, t = env.generateRefreshToken n ∧ F = env.uuid4 k ∧ (n ∈ w.served ↔ k ∈ w.served) := by
  have hinv : Auth.SessionsOk env w.server.world := hb.good.inv
  induction ht with
  | @login n userId pair he hF => exact ⟨n, n, hinv.minted n _ pair he, hF.symm, Iff.rfl⟩
  | @refresh m tok t pair _ hash he ih =>
    obtain ⟨n, k, rfl, hF, hiff⟩ := ih
    have hasked : w.server.Asked m (.refreshSession tok) := Or.inr ⟨_, he⟩
    refine ⟨m, k, hinv.minted m _ pair he, hF, Iff.trans ?_ hiff⟩
    constructor
    · intro hm
      obtain ⟨j, hj, rfl⟩ := h.asked m tok hm hasked
      exact env.hash_fresh _ _ hash ▸ hj
    · intro hn
      by_contra hm
      exact (hb.strangers m tok n hasked hm hash).2 hn

end Tokens

end Tradinghub.Frontend
