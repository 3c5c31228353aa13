import Tradinghub.Auth.Rotation
import Tradinghub.Frontend.Turns

/-!
# Never a thief to its own server

The lock makes the refreshes of a browser follow one another, but it is held only until the tab's
own request settles.  A tab that gives up on a refresh the server still completes, or whose response
is lost, lets the next one go out with the cookie of the first.  Otherwise (`KeepsRefreshes`) no
refresh carries a token that was used, and none revokes a family of this browser's (`Honest`).
-/

namespace Tradinghub.Frontend

open ReadCommitted
open Auth (Redeemed Reused TokenOf)

/-- A tab gives up on a refresh only when it can no longer succeed, and the response to one that has
is not lost. -/
def KeepsRefreshes (s : Browser) : Action → Bool
  | .giveUp id => (s.exchanges id).all fun e => e.url ≠ REFRESH_PATH || !e.live s.log
  | .lose id =>
    (s.exchanges id).all fun e => e.url ≠ REFRESH_PATH || e.wire = .going || !e.live s.log
  | _ => true

structure Honest (env : Auth.Env) (s : Browser) : Prop where
  /-- no refresh it sends carries a used token -/
  carries : ∀ id e tok, s.exchanges id = some e → e.url = REFRESH_PATH → e.pending s.log = true →
    e.cookie = some tok → ∀ r, ¬ Reused env tok s.server.world.db r
  /-- no refresh, whoever sent it, revokes a family that a token of its is in -/
  spares : ∀ m c tok F keys n, s.server.conns m = some c → c.req = .refreshSession tok →
    (Auth.Stmt.deleteFamily F, keys) ∈ c.tx.begun → n ∈ s.served →
    ¬ TokenOf env s.log F (env.generateRefreshToken n)

/-! ## The network -/

/-- What the network keeps to, as long as no refresh is given up that may still succeed. -/
structure Heeded (env : Auth.Env) (w : Network) : Prop where
  books : Books env w
  tokens : Tokens env w
  heeded : ∀ id e, w.exchanges id = some e → e.url = REFRESH_PATH → e.live w.log = true →
    e.heeded = true

namespace Heeded

variable {env : Auth.Env} {w : Network} {id : Nat} {e : Exchange}

theorem leave (h : Heeded env w) (sender : Sender) {url : Path}
    (hfresh : url = REFRESH_PATH → ∀ tok, w.jar = some tok → ¬ Redeemed env w.log tok) :
    Heeded env (w.leave sender url) := by
  refine ⟨h.books.leave sender url, h.tokens.leave h.books sender hfresh,
    fun id e he hurl hlive => ?_⟩
  rcases Network.of_leave he with ⟨-, rfl⟩ | ⟨-, hold⟩
  · rfl
  · exact h.heeded id e hold hurl hlive

theorem serving_reply {n : Nat} (hn : e.wire = .serving n) (h : (e.reply w.log).isSome = true) :
    answerTo w.log n ≠ none := by
  intro hnone
  simp [Exchange.reply, hn, hnone] at h

/-- An exchange that is over for the server, whether answered without a session or lost. -/
theorem ended (h : Heeded env w) (he : w.exchanges id = some e) {wire : Wire}
    (hgoing' : wire ≠ .going) (hserving' : ∀ n, wire ≠ .serving n)
    (hwire : e.wire = .going ∨ (e.reply w.log).isSome = true)
    (hdone : e.url = REFRESH_PATH → ¬ e.Done w.log) :
    Heeded env (w.put id { e with wire := wire }) := by
  have hover : ∀ n, wire = .serving n → e.wire = .serving n := fun n hn => absurd hn (hserving' n)
  have hpending : ¬ ({ e with wire := wire } : Exchange).pending w.log = true := by
    rw [pending_iff]
    rintro (hgoing | ⟨n, hn, -⟩)
    · exact hgoing' hgoing
    · exact hserving' n hn
  have hlive : ¬ ({ e with wire := wire } : Exchange).live w.log = true := by
    rw [live_iff]
    rintro (hgoing | ⟨n, hn, -⟩)
    · exact hgoing' hgoing
    · exact hserving' n hn
  have hanswered : ∀ n, e.wire = .serving n → answerTo w.log n ≠ none := by
    intro n hn
    rcases hwire with hgoing | hreply
    · rw [hgoing] at hn
      cases hn
    · exact serving_reply hn hreply
  refine ⟨h.books.put he rfl rfl (Or.inr ⟨hserving', hanswered⟩),
    h.tokens.put he rfl rfl hover (fun hp => absurd hp hpending)
      (fun hurl hd => absurd hd (hdone hurl)), fun id' e' he' hurl' hlive' => ?_⟩
  rcases Network.of_put he' with ⟨-, rfl⟩ | ⟨-, hold⟩
  · exact absurd hlive' hlive
  · exact h.heeded id' e' hold hurl' hlive'

theorem ignored (h : Heeded env w) (he : w.exchanges id = some e)
    (hdead : e.url = REFRESH_PATH → e.live w.log = false) :
    Heeded env (w.put id { e with heeded := false }) := by
  refine ⟨h.books.put he rfl rfl (Or.inl rfl),
    h.tokens.put he rfl rfl (fun _ hn => hn) (fun hp => hp) (fun _ hd => hd),
    fun id' e' he' hurl' hlive' => ?_⟩
  rcases Network.of_put he' with ⟨-, rfl⟩ | ⟨-, hold⟩
  · have hlive : e.live w.log = true := hlive'
    rw [hdead hurl'] at hlive
    cases hlive
  · exact h.heeded id' e' hold hurl' hlive'

theorem shift (h : Heeded env w) (halone : w.Alone) {s : Browser} (hw : s.toNetwork = w)
    {a : Action} {w' : Network} (hshift : Shift env w a w') (hsecret : Secret env s a)
    (hkeeps : KeepsRefreshes s a = true) : Heeded env w' := by
  subst hw
  cases hshift with
  | @served _ id e req server he hgoing hasks hs =>
    have hlog : server.world.log = s.log := by
      rw [step_start_world hs]
      rfl
    refine ⟨h.books.serve hs he hgoing hasks, h.tokens.serve h.books hs he hgoing hasks,
      fun id' e' he' hurl' hlive' => ?_⟩
    rcases Network.of_put he' with ⟨-, rfl⟩ | ⟨-, hold⟩
    · exact h.heeded id e he hurl' (live_iff.2 (Or.inl hgoing))
    · exact h.heeded id' e' hold hurl' (hlog ▸ hlive')
  | answered reply he hgoing =>
    refine h.ended he (by simp) (by simp) (Or.inl hgoing) fun _ hd => ?_
    obtain ⟨n, pair, hn, -⟩ := hd
    rw [hgoing] at hn
    cases hn
  | server hs =>
    have honce := (Auth.sessions_good (h.books.run.tail trivial hs)).once
    refine ⟨h.books.server hs fun req tok k ha => hsecret req tok k (congrArg _ ha),
      h.tokens.server h.books halone hs, fun id e he hurl hlive => ?_⟩
    exact h.heeded id e he hurl (live_of_later honce (step_log_mono hs) hlive)
  | @lost id e he hwire =>
    refine h.ended he (by simp) (by simp) hwire fun hurl hd => ?_
    have hkeep : (e.url ≠ REFRESH_PATH ∨ e.wire = .going) ∨ e.live s.log = false := by
      simpa [KeepsRefreshes, he] using hkeeps
    rcases hkeep with (hne | hgoing) | hdead
    · exact hne hurl
    · obtain ⟨n, pair, hn, -⟩ := hd
      rw [hgoing] at hn
      cases hn
    · exact absurd (hdead.symm.trans hd.live) (by simp)
  | forgot =>
    refine ⟨h.books.congr rfl rfl rfl rfl, ?_, h.heeded⟩
    have ht := h.tokens
    have hnone : ∀ tok, (none : Option String) ≠ some tok := fun tok => by simp
    refine ⟨fun tok hjar => absurd hjar (hnone tok), ht.cookies, ht.asked,
      fun id e n he hn => ?_, ht.sent, fun tok hjar => absurd hjar (hnone tok)⟩
    have hunseen := ht.unseen id e n he hn
    exact ⟨hnone _, hunseen.cookies, hunseen.redeemed⟩

theorem arrive (h : Heeded env w) {reply : Reply} (he : w.exchanges id = some e)
    (hreply : e.reply w.log = some reply) : Heeded env (w.arrive id reply) :=
  ⟨h.books.arrive he hreply, h.tokens.arrive h.books he hreply,
    fun id' e' he' => h.heeded id' e' (Network.of_arrive he').2⟩

end Heeded

/-! ## The browser -/

/-- The tabs and the network as long as no refresh is given up that may still succeed. -/
structure Careful (env : Auth.Env) (s : Browser) : Prop where
  orderly : Orderly s
  network : Heeded env s.toNetwork

theorem settle_toNetwork (s : Browser) (e : Exchange) (result : Except CallFailure Unit) :
    (s.settle e result).toNetwork = s.toNetwork := by
  have hrotate : ∀ tab, (s.rotateSessionOnce tab).2.toNetwork = s.toNetwork := by
    intro tab
    unfold Browser.rotateSessionOnce
    split <;> rfl
  unfold Browser.settle
  split
  · split
    · unfold Browser.intercept
      split
      · rfl
      · split
        · exact hrotate _
        · rfl
    · rfl
  · split <;> rfl

namespace Careful

variable {env : Auth.Env} {s : Browser}

/-- A refresh that may still succeed is one of the rotation that holds the lock. -/
theorem holder (h : Careful env s) {id : Nat} {e : Exchange} (he : s.exchanges id = some e)
    (hurl : e.url = REFRESH_PATH) (hlive : e.live s.log = true) :
    ∃ k r, s.rotations k = some r ∧ r.phase = .posted id ∧ s.lock = some k := by
  have hheeded := h.network.heeded id e he hurl hlive
  cases hs : e.sender with
  | call c => exact absurd hurl (h.orderly.request id e c he hs).1
  | rotation k =>
    obtain ⟨r, hr, hphase⟩ := (h.orderly.refresh id e k he hs).2 hheeded
    exact ⟨k, r, hr, hphase, h.orderly.lock k r hr (by rw [hphase]; rfl)⟩

theorem alone (h : Careful env s) : s.toNetwork.Alone := by
  intro id id' e e' he he' hurl hurl' hlive hlive'
  obtain ⟨k, r, hr, hphase, hlock⟩ := h.holder he hurl hlive
  obtain ⟨k', r', hr', hphase', hlock'⟩ := h.holder he' hurl' hlive'
  obtain rfl : k = k' := Option.some.inj (hlock.symm.trans hlock')
  obtain rfl := Option.some.inj (hr.symm.trans hr')
  exact Phase.posted.inj (hphase.symm.trans hphase')

/-- Inside the lock the jar's token is one that was not redeemed. -/
theorem fresh (h : Careful env s) {k : Nat} {r : Rotation} (hr : s.rotations k = some r)
    (hphase : r.phase = .locked) {tok : String} (hjar : s.jar = some tok) :
    ¬ Redeemed env s.log tok := by
  intro hredeemed
  obtain ⟨id, e, he, hurl, hdone⟩ := h.network.tokens.replaced tok hjar hredeemed
  obtain ⟨k', r', hr', hphase', hlock'⟩ := h.holder he hurl hdone.live
  have hlock := h.orderly.lock k r hr (by rw [hphase]; rfl)
  obtain rfl : k' = k := Option.some.inj (hlock'.symm.trans hlock)
  obtain rfl := Option.some.inj (hr'.symm.trans hr)
  rw [hphase] at hphase'
  cases hphase'

theorem step {a : Action} {s' : Browser} (h : Careful env s) (hsecret : Secret env s a)
    (hkeeps : KeepsRefreshes s a = true) (hs : Frontend.step env s a = some s') :
    Careful env s' := by
  refine ⟨h.orderly.step hs, ?_⟩
  cases step_move hs with
  | call hurl => exact h.network.leave _ fun heq => absurd heq hurl
  | replay hc hstage => exact h.network.leave _ fun heq => absurd heq (h.orderly.config _ _ hc)
  | grant hr hphase hlock => exact h.network
  | post hr hphase => exact h.network.leave _ fun _ _ hjar => h.fresh hr hphase hjar
  | release hr hphase => exact h.network
  | finish hr hphase => exact h.network
  | shift hshift => exact h.network.shift h.alone rfl hshift hsecret hkeeps
  | arrive he hreply hheeded =>
    rw [settle_toNetwork]
    exact h.network.arrive he hreply
  | @giveUp id e he hheeded =>
    rw [settle_toNetwork]
    refine h.network.ignored he fun hurl => ?_
    have hkeep : e.url ≠ REFRESH_PATH ∨ e.live s.log = false := by
      simpa [KeepsRefreshes, he] using hkeeps
    exact hkeep.resolve_left fun hne => hne hurl

theorem honest (h : Careful env s) : Honest env s := by
  obtain ⟨hbooks, htokens, -⟩ := h.network
  have haccounted := Auth.accounted hbooks.run
  refine ⟨fun id e tok he hurl hpending htok r hr => ?_, fun m c tok F keys n hc hreq hF hn ht => ?_⟩
  · exact htokens.sent id e tok he hurl hpending htok (haccounted.used tok r hr)
  · -- the token that is presented was redeemed, and is of the same family as this browser's
    have hconn := haccounted.conns m c hc
    rw [hreq] at hconn
    obtain ⟨hredeemed, k, hash, hk⟩ := hconn.revokes hF
    have hasked : s.server.Asked m (.refreshSession tok) := Or.inl ⟨c, hc, hreq⟩
    have hkn : k ∈ s.served := by
      obtain ⟨k', j', heq, hF', hiff'⟩ := htokens.family hbooks hk
      obtain ⟨n', j, heq', hF'', hiff⟩ := htokens.family hbooks ht
      obtain rfl := generateRefreshToken_inj heq
      obtain rfl := generateRefreshToken_inj heq'
      obtain rfl : j' = j := env.uuid4_fresh _ _ (hF'.symm.trans hF'')
      exact hiff'.2 (hiff.1 hn)
    by_cases hm : m ∈ s.served
    · have hnone : answerTo s.log m = none :=
        answerTo_eq_none.2 (hbooks.good.unanswered m c hc)
      obtain ⟨id, e, he, hwire⟩ := hbooks.unanswered m hm hnone
      obtain ⟨hurl, hcookie⟩ := hbooks.asks id e m _ he hwire hasked
      exact htokens.sent id e tok he hurl (pending_iff.2 (Or.inr ⟨m, hwire, hnone⟩)) hcookie
        hredeemed
    · exact (hbooks.strangers m tok k hasked hm hash).2 hkn

end Careful

theorem careful_initial (env : Auth.Env) : Careful env initial := by
  have hbooks : Books env initial.toNetwork := by
    refine ⟨.refl _, ?_, ?_, ?_, ?_, ?_, ?_, ?_⟩
    · intros; contradiction
    · intros; contradiction
    · intros; contradiction
    · intros; contradiction
    · intros; contradiction
    · intros; contradiction
    · rintro n tok k (⟨c, hc, -⟩ | ⟨r, hr⟩)
      · cases hc
      · cases hr
  refine ⟨orderly_initial, hbooks, ?_, ?_⟩
  · constructor <;> intros <;> contradiction
  · intros; contradiction

/-- **As long as no refresh is given up or lost that may still succeed or has, no refresh of a
browser carries a used token, and none of its families is revoked as reuse.** -/
theorem honest_of_keepsRefreshes {env : Auth.Env} {s : Browser}
    (h : Reaches env (fun s a => Secret env s a ∧ KeepsRefreshes s a = true) s) :
    Honest env s := by
  have hcareful : Careful env s := by
    induction h with
    | refl => exact careful_initial env
    | tail _ hs ih =>
      obtain ⟨a, ⟨hsecret, hkeeps⟩, hs⟩ := hs
      exact ih.step hsecret hkeeps hs
  exact hcareful.honest

/-! ## Runs -/

/-- Nobody else is there. -/
def quiet (_ : Browser) : Action → Bool
  | .server (.start _) => false
  | _ => true

theorem secret_of_quiet {env : Auth.Env} {s : Browser} {a : Action} (h : quiet s a = true) :
    Secret env s a := by
  rintro req tok k rfl
  cases h

def serverSteps (as : List (ReadCommitted.Action Nat Failure Auth.Request)) : List Action :=
  as.map .server

/-- A visitor signs in: exchange and request 0, the token of no letters. -/
def visit : List Action :=
  [.call 0 .login, .signIn 0 7] ++ serverSteps (List.replicate 5 (.advance 0)) ++ [.arrive 0]

/-- Rotation `k` posts exchange `id`, which the server completes as request `n`. -/
def rotate (k id n row : Nat) : List Action :=
  [.grant k, .post k, .deliver id] ++ serverSteps (Auth.lockSteps n row ++ Auth.rotateSteps n row)

/-- Two tabs of one visitor rotate in turn. -/
def twoTabs : List Action :=
  visit ++ [.call 0 .other, .call 1 .other] ++ refuse 1 ++ refuse 2 ++ rotate 0 3 1 0 ++
    [.arrive 3, .release 0, .finish 0] ++ rotate 1 4 2 1 ++ [.arrive 4]

theorem honest_of_keepsRefreshes_two_tabs : ∃ s,
    follow .unary (fun s a => quiet s a && KeepsRefreshes s a) initial twoTabs = some s ∧
    s.jar = some "aa" ∧ s.served = [2, 1, 0] ∧ Honest .unary s := by
  have hrun : (follow .unary (fun s a => quiet s a && KeepsRefreshes s a) initial twoTabs).any
      (fun s => s.jar = some "aa" ∧ s.served = [2, 1, 0]) = true := by
    decide +kernel
  obtain ⟨s, hs, hp⟩ := (Option.any_eq_true _ _).1 hrun
  obtain ⟨hjar, hserved⟩ := of_decide_eq_true hp
  refine ⟨s, hs, hjar, hserved, honest_of_keepsRefreshes (reaches_of_follow ?_ _ _ _ .refl hs)⟩
  intro s a hok
  obtain ⟨hquiet, hkeeps⟩ := Bool.and_eq_true_iff.1 hok
  exact ⟨secret_of_quiet hquiet, hkeeps⟩

/-- A tab gives up on a refresh that the server has completed, and the next one carries its token. -/
theorem honest_fails_after_giveUp :
    ¬ ∀ (env : Auth.Env) (s : Browser), Reaches env (Secret env) s → Honest env s := by
  intro h
  have hrun : (follow .unary quiet initial
      (visit ++ [.call 0 .other] ++ refuse 1 ++ rotate 0 2 1 0 ++
        [.giveUp 2, .release 0, .finish 0, .call 0 .other] ++ refuse 3 ++
        [.grant 1, .post 1])).any
      (fun s => (s.exchanges 4).any (fun e => e.url = REFRESH_PATH ∧ e.pending s.log = true ∧
          e.cookie = some "") ∧
        s.server.world.db.rows.any fun r => r.hashedRefreshToken = "" ∧ r.usedAt ≠ none) =
      true := by
    decide +kernel
  obtain ⟨s, hs, hp⟩ := (Option.any_eq_true _ _).1 hrun
  obtain ⟨he, hr⟩ := of_decide_eq_true hp
  obtain ⟨e, he, hsent⟩ := (Option.any_eq_true _ _).1 he
  obtain ⟨hurl, hpending, hcookie⟩ := of_decide_eq_true hsent
  obtain ⟨r, hr, hused⟩ := List.any_eq_true.1 hr
  obtain ⟨hash, hused⟩ := of_decide_eq_true hused
  have hreaches : Reaches .unary (Secret .unary) s :=
    reaches_of_follow (fun _ _ => secret_of_quiet) _ _ _ .refl hs
  exact (h .unary s hreaches).carries 4 e "" he hurl hpending hcookie r ⟨hr, hash, hused⟩

end Tradinghub.Frontend
