import Tradinghub.Frontend.Tokens

/-!
# One rotation after the other

`Orderly` is what the promise and the lock do in every run: a tab has one rotation in flight, of all
tabs' rotations one is between the beginning of its callback and the release, and whoever sent an
exchange and has not given up on it waits for nothing else.
-/

namespace Tradinghub.Frontend

open ReadCommitted (of_update_some of_update_none)

def Phase.isFinished : Phase → Bool
  | .finished _ => true
  | _ => false

structure Orderly (s : Browser) : Prop where
  ids : ∀ id e, s.exchanges id = some e → id < s.sent
  started : ∀ k r, s.rotations k = some r → k < s.started
  called : ∀ c call, s.calls c = some call → c < s.called
  lock : ∀ k r, s.rotations k = some r → r.phase.holds = true → s.lock = some k
  /-- a tab's promise is that of its one rotation which is not finished -/
  inFlight : ∀ i k, s.refreshInFlight i = some k →
    ∃ r, s.rotations k = some r ∧ r.tab = i ∧ r.phase.isFinished = false
  unfinished : ∀ k r, s.rotations k = some r → r.phase.isFinished = false →
    s.refreshInFlight r.tab = some k
  config : ∀ c call, s.calls c = some call → call.config.url ≠ REFRESH_PATH
  /-- who sent an exchange, and has not given up on it, waits for it -/
  request : ∀ id e c, s.exchanges id = some e → e.sender = .call c →
    e.url ≠ REFRESH_PATH ∧
      (e.heeded = true → ∃ call, s.calls c = some call ∧ call.stage = .sent id)
  refresh : ∀ id e k, s.exchanges id = some e → e.sender = .rotation k →
    e.url = REFRESH_PATH ∧
      (e.heeded = true → ∃ r, s.rotations k = some r ∧ r.phase = .posted id)

theorem orderly_initial : Orderly initial := by
  constructor <;> intros <;> contradiction

theorem Call.resume_config (k : Nat) (result : Except CallFailure Unit) (call : Call) :
    (call.resume k result).config = call.config := by
  unfold Call.resume
  split
  · split <;> rfl
  · rfl

/-- A call that does not await the rotation is left alone. -/
theorem Call.resume_of_ne {k : Nat} {result : Except CallFailure Unit} {call : Call}
    (h : ∀ failure, call.stage ≠ .awaiting k failure) : call.resume k result = call := by
  unfold Call.resume
  split
  · next k' failure hstage =>
    rw [if_neg]
    rintro rfl
    exact h failure hstage
  · rfl

namespace Orderly

variable {s : Browser}

/-- The network moves on: what is on its way is at most what was, and of the same senders. -/
theorem withNetwork (h : Orderly s) {w : Network} (hsent : w.sent = s.sent)
    (hold : ∀ id e', w.exchanges id = some e' → ∃ e, s.exchanges id = some e ∧
      e.sender = e'.sender ∧ e.url = e'.url ∧ (e'.heeded = true → e.heeded = true)) :
    Orderly (s.withNetwork w) := by
  refine ⟨fun id e' he' => ?_, h.started, h.called, h.lock, h.inFlight, h.unfinished, h.config,
    fun id e' c he' hsender => ?_, fun id e' k he' hsender => ?_⟩
  · obtain ⟨e, he, -⟩ := hold id e' he'
    exact Nat.lt_of_lt_of_eq (h.ids id e he) hsent.symm
  · obtain ⟨e, he, hs, hurl, hheeded⟩ := hold id e' he'
    obtain ⟨hne, hwaits⟩ := h.request id e c he (hs.trans hsender)
    exact ⟨hurl ▸ hne, fun hh => hwaits (hheeded hh)⟩
  · obtain ⟨e, he, hs, hurl, hheeded⟩ := hold id e' he'
    obtain ⟨heq, hwaits⟩ := h.refresh id e k he (hs.trans hsender)
    exact ⟨hurl ▸ heq, fun hh => hwaits (hheeded hh)⟩

theorem put (h : Orderly s) {id : Nat} {e e' : Exchange} (he : s.exchanges id = some e)
    (hsender : e'.sender = e.sender) (hurl : e'.url = e.url)
    (hheeded : e'.heeded = true → e.heeded = true) :
    Orderly (s.withNetwork (s.put id e')) := by
  refine h.withNetwork rfl fun id₁ e₁ he₁ => ?_
  rcases Network.of_put he₁ with ⟨rfl, rfl⟩ | ⟨-, hold⟩
  · exact ⟨e, he, hsender.symm, hurl.symm, hheeded⟩
  · exact ⟨e₁, hold, rfl, rfl, fun hh => hh⟩

theorem shift (h : Orderly s) {env : Auth.Env} {a : Action} {w : Network}
    (hshift : Shift env s.toNetwork a w) : Orderly (s.withNetwork w) := by
  cases hshift with
  | @served _ id e _ _ he hgoing hasks hs =>
    have hput : Orderly (s.withNetwork
        (s.put id { e with wire := .serving s.server.world.started })) :=
      h.put he rfl rfl fun hh => hh
    exact hput.withNetwork rfl fun id e he' => ⟨e, he', rfl, rfl, fun hh => hh⟩
  | answered reply he hgoing => exact h.put he rfl rfl fun hh => hh
  | server hs => exact h.withNetwork rfl fun id e he => ⟨e, he, rfl, rfl, fun hh => hh⟩
  | lost he hwire => exact h.put he rfl rfl fun hh => hh
  | forgot => exact h.withNetwork rfl fun id e he => ⟨e, he, rfl, rfl, fun hh => hh⟩

theorem arrive (h : Orderly s) (id : Nat) (reply : Reply) :
    Orderly (s.withNetwork (s.toNetwork.arrive id reply)) :=
  h.withNetwork rfl fun _ e he => ⟨e, (Network.of_arrive he).2, rfl, rfl, fun hh => hh⟩

/-- A call goes on, while no request of its is being waited for. -/
theorem setCall (h : Orderly s) {c : Nat} {call : Call} (hc : c < s.called)
    (hurl : call.config.url ≠ REFRESH_PATH)
    (hidle : ∀ id e, s.exchanges id = some e → e.sender = .call c → e.heeded = false) :
    Orderly (s.setCall c call) := by
  refine ⟨h.ids, h.started, fun c' call' hcall => ?_, h.lock, h.inFlight, h.unfinished,
    fun c' call' hcall => ?_, fun id e c' he hsender => ?_, h.refresh⟩
  · rcases of_update_some hcall with ⟨rfl, -⟩ | ⟨-, hold⟩
    · exact hc
    · exact h.called c' call' hold
  · rcases of_update_some hcall with ⟨-, rfl⟩ | ⟨-, hold⟩
    · exact hurl
    · exact h.config c' call' hold
  · obtain ⟨hne, hwaits⟩ := h.request id e c' he hsender
    refine ⟨hne, fun hh => ?_⟩
    have hc' : c' ≠ c := by
      rintro rfl
      rw [hidle id e he hsender] at hh
      cases hh
    obtain ⟨call', hcall, hstage⟩ := hwaits hh
    exact ⟨call', (Function.update_of_ne hc' ..).trans hcall, hstage⟩

/-- A rotation goes on, while no refresh of its is being waited for. -/
theorem setRotation (h : Orderly s) {k : Nat} {r r' : Rotation} (hr : s.rotations k = some r)
    (htab : r'.tab = r.tab) (hphase : r'.phase.isFinished = r.phase.isFinished)
    (hlock : r'.phase.holds = true → s.lock = some k)
    (hidle : ∀ id e, s.exchanges id = some e → e.sender = .rotation k → e.heeded = false) :
    Orderly (s.setRotation k r') := by
  refine ⟨h.ids, fun k' r₁ hr₁ => ?_, h.called, fun k' r₁ hr₁ hholds => ?_, fun i k' hi => ?_,
    fun k' r₁ hr₁ hf => ?_, h.config, h.request, fun id e k' he hsender => ?_⟩
  · rcases of_update_some hr₁ with ⟨rfl, -⟩ | ⟨-, hold⟩
    · exact h.started k' r hr
    · exact h.started k' r₁ hold
  · rcases of_update_some hr₁ with ⟨rfl, rfl⟩ | ⟨-, hold⟩
    · exact hlock hholds
    · exact h.lock k' r₁ hold hholds
  · obtain ⟨r₁, hr₁, hi', hf⟩ := h.inFlight i k' hi
    by_cases hk' : k' = k
    · subst hk'
      obtain rfl := Option.some.inj (hr₁.symm.trans hr)
      exact ⟨r', Function.update_self .., htab.trans hi', hphase.trans hf⟩
    · exact ⟨r₁, (Function.update_of_ne hk' ..).trans hr₁, hi', hf⟩
  · rcases of_update_some hr₁ with ⟨rfl, rfl⟩ | ⟨-, hold⟩
    · rw [htab]
      exact h.unfinished k' r hr (hphase.symm.trans hf)
    · exact h.unfinished k' r₁ hold hf
  · obtain ⟨heq, hwaits⟩ := h.refresh id e k' he hsender
    refine ⟨heq, fun hh => ?_⟩
    have hk' : k' ≠ k := by
      rintro rfl
      rw [hidle id e he hsender] at hh
      cases hh
    obtain ⟨r₁, hr₁, hphase₁⟩ := hwaits hh
    exact ⟨r₁, (Function.update_of_ne hk' ..).trans hr₁, hphase₁⟩

/-- A request leaves, and its sender waits for it. -/
theorem leave (h : Orderly s) {sender : Sender} {url : Path}
    (hcall : ∀ c, sender = .call c → url ≠ REFRESH_PATH ∧
      ∃ call, s.calls c = some call ∧ call.stage = .sent s.sent)
    (hrotation : ∀ k, sender = .rotation k → url = REFRESH_PATH ∧
      ∃ r, s.rotations k = some r ∧ r.phase = .posted s.sent) :
    Orderly (s.withNetwork (s.leave sender url)) := by
  refine ⟨fun id e he => ?_, h.started, h.called, h.lock, h.inFlight, h.unfinished, h.config,
    fun id e c he hsender => ?_, fun id e k he hsender => ?_⟩
  · rcases Network.of_leave he with ⟨rfl, -⟩ | ⟨-, hold⟩
    · exact Nat.lt_succ_self _
    · exact Nat.lt_succ_of_lt (h.ids id e hold)
  · rcases Network.of_leave he with ⟨rfl, rfl⟩ | ⟨-, hold⟩
    · exact ⟨(hcall c hsender).1, fun _ => (hcall c hsender).2⟩
    · exact h.request id e c hold hsender
  · rcases Network.of_leave he with ⟨rfl, rfl⟩ | ⟨-, hold⟩
    · exact ⟨(hrotation k hsender).1, fun _ => (hrotation k hsender).2⟩
    · exact h.refresh id e k hold hsender

/-- Nobody waits for a request of a call that is not there, or is past it. -/
theorem idle_call (h : Orderly s) {c : Nat}
    (hc : ∀ call id, s.calls c = some call → call.stage ≠ .sent id) (id : Nat) (e : Exchange)
    (he : s.exchanges id = some e) (hsender : e.sender = .call c) : e.heeded = false := by
  cases hh : e.heeded with
  | false => rfl
  | true =>
    obtain ⟨call, hcall, hstage⟩ := (h.request id e c he hsender).2 hh
    exact absurd hstage (hc call id hcall)

theorem idle_rotation (h : Orderly s) {k : Nat} {r : Rotation} (hr : s.rotations k = some r)
    (hphase : ∀ id, r.phase ≠ .posted id) (id : Nat) (e : Exchange)
    (he : s.exchanges id = some e) (hsender : e.sender = .rotation k) : e.heeded = false := by
  cases hh : e.heeded with
  | false => rfl
  | true =>
    obtain ⟨r', hr', hphase'⟩ := (h.refresh id e k he hsender).2 hh
    obtain rfl := Option.some.inj (hr'.symm.trans hr)
    exact absurd hphase' (hphase id)

theorem rotateSessionOnce (h : Orderly s) (tab : Nat) : Orderly (s.rotateSessionOnce tab).2 := by
  unfold Browser.rotateSessionOnce
  split
  · exact h
  · next hnone =>
    have hfresh : ∀ {k r}, s.rotations k = some r → k ≠ s.started :=
      fun hr => Nat.ne_of_lt (h.started _ _ hr)
    refine ⟨h.ids, fun k r hr => ?_, h.called, fun k r hr hholds => ?_, fun i k hi => ?_,
      fun k r hr hf => ?_, h.config, h.request, fun id e k he hsender => ?_⟩
    · rcases of_update_some hr with ⟨rfl, -⟩ | ⟨-, hold⟩
      · exact Nat.lt_succ_self _
      · exact Nat.lt_succ_of_lt (h.started k r hold)
    · rcases of_update_some hr with ⟨-, rfl⟩ | ⟨-, hold⟩
      · cases hholds
      · exact h.lock k r hold hholds
    · rcases of_update_some hi with ⟨rfl, rfl⟩ | ⟨-, hold⟩
      · exact ⟨{ tab := i }, Function.update_self .., rfl, rfl⟩
      · obtain ⟨r, hr, hrest⟩ := h.inFlight i k hold
        exact ⟨r, (Function.update_of_ne (hfresh hr) ..).trans hr, hrest⟩
    · rcases of_update_some hr with ⟨rfl, rfl⟩ | ⟨-, hold⟩
      · exact Function.update_self ..
      · have hinFlight := h.unfinished k r hold hf
        have htab : r.tab ≠ tab := by
          intro htab
          rw [htab, hnone] at hinFlight
          cases hinFlight
        exact (Function.update_of_ne htab ..).trans hinFlight
    · obtain ⟨heq, hwaits⟩ := h.refresh id e k he hsender
      refine ⟨heq, fun hh => ?_⟩
      obtain ⟨r, hr, hphase⟩ := hwaits hh
      exact ⟨r, (Function.update_of_ne (hfresh hr) ..).trans hr, hphase⟩

/-- A rotation joins nobody's exchanges or calls. -/
theorem intercept (h : Orderly s) {c : Nat} {call : Call} (hc : c < s.called)
    (hurl : call.config.url ≠ REFRESH_PATH)
    (hidle : ∀ id e, s.exchanges id = some e → e.sender = .call c → e.heeded = false)
    (result : Except CallFailure Unit) : Orderly (s.intercept c call result) := by
  unfold Browser.intercept
  split
  · exact h.setCall hc hurl hidle
  · split
    · have hrest : (s.rotateSessionOnce call.tab).2.called = s.called ∧
          (s.rotateSessionOnce call.tab).2.exchanges = s.exchanges := by
        unfold Browser.rotateSessionOnce
        split <;> exact ⟨rfl, rfl⟩
      refine (h.rotateSessionOnce call.tab).setCall ?_ hurl ?_
      · rw [hrest.1]
        exact hc
      · rw [hrest.2]
        exact hidle
    · exact h.setCall hc hurl hidle

/-- Who waited for the exchange hears how it ended. -/
theorem settle (h : Orderly s) {e : Exchange}
    (hcall : ∀ c, e.sender = .call c → ∀ id e', s.exchanges id = some e' → e'.sender = .call c →
      e'.heeded = false)
    (hrotation : ∀ k, e.sender = .rotation k → (∃ r id, s.rotations k = some r ∧ r.phase = .posted id) ∧
      ∀ id e', s.exchanges id = some e' → e'.sender = .rotation k → e'.heeded = false)
    (result : Except CallFailure Unit) : Orderly (s.settle e result) := by
  unfold Browser.settle
  split
  · next c hsender =>
    split
    · next call hc =>
      exact h.intercept (h.called c call hc) (h.config c call hc) (hcall c hsender) result
    · exact h
  · next k hsender =>
    split
    · next r hr =>
      obtain ⟨⟨r', id, hr', hphase⟩, hidle⟩ := hrotation k hsender
      obtain rfl := Option.some.inj (hr'.symm.trans hr)
      refine h.setRotation hr ?_ ?_ (fun _ => h.lock k r' hr (by rw [hphase]; rfl)) hidle
      · unfold Browser.interceptRefresh
        split
        · rfl
        · split <;> rfl
      · rw [hphase]
        unfold Browser.interceptRefresh
        split
        · rfl
        · split <;> rfl
    · exact h

/-- Nobody waits for two exchanges. -/
theorem apart (h : Orderly s) {id id' : Nat} {e e' : Exchange} (he : s.exchanges id = some e)
    (he' : s.exchanges id' = some e') (hsender : e'.sender = e.sender) (hheeded : e.heeded = true)
    (hheeded' : e'.heeded = true) : id' = id := by
  cases hs : e.sender with
  | call c =>
    obtain ⟨call, hc, hstage⟩ := (h.request id e c he hs).2 hheeded
    obtain ⟨call', hc', hstage'⟩ := (h.request id' e' c he' (hsender.trans hs)).2 hheeded'
    obtain rfl := Option.some.inj (hc'.symm.trans hc)
    exact (Stage.sent.inj (hstage.symm.trans hstage')).symm
  | rotation k =>
    obtain ⟨r, hr, hphase⟩ := (h.refresh id e k he hs).2 hheeded
    obtain ⟨r', hr', hphase'⟩ := (h.refresh id' e' k he' (hsender.trans hs)).2 hheeded'
    obtain rfl := Option.some.inj (hr'.symm.trans hr)
    exact (Phase.posted.inj (hphase.symm.trans hphase')).symm

/-- The exchange somebody waits for is over, or given up, and its end is heard. -/
theorem heard (h : Orderly s) {w : Network} (hw : Orderly (s.withNetwork w)) {id : Nat}
    {e : Exchange} (he : s.exchanges id = some e) (hheeded : e.heeded = true)
    (hold : ∀ id' e', w.exchanges id' = some e' → e'.heeded = true →
      id' ≠ id ∧ s.exchanges id' = some e') (result : Except CallFailure Unit) :
    Orderly ((s.withNetwork w).settle e result) := by
  have hidle : ∀ id' e', w.exchanges id' = some e' → e'.sender = e.sender → e'.heeded = false := by
    intro id' e' he' hsender
    cases hh : e'.heeded with
    | false => rfl
    | true =>
      obtain ⟨hne, hin⟩ := hold id' e' he' hh
      exact absurd (h.apart he hin hsender hheeded hh) hne
  refine hw.settle (fun c hs id' e' he' hs' => hidle id' e' he' (hs'.trans hs.symm))
    (fun k hs => ⟨?_, fun id' e' he' hs' => hidle id' e' he' (hs'.trans hs.symm)⟩) result
  obtain ⟨r, hr, hphase⟩ := (h.refresh id e k he hs).2 hheeded
  exact ⟨r, id, hr, hphase⟩

theorem finish (h : Orderly s) {k : Nat} {r : Rotation} {result : Except CallFailure Unit}
    (hr : s.rotations k = some r) (hphase : r.phase = .released result) :
    Orderly { s.setRotation k { r with phase := .finished result } with
      refreshInFlight := Function.update s.refreshInFlight r.tab none
      calls := fun c => (s.calls c).map (Call.resume k result) } := by
  have hmine : s.refreshInFlight r.tab = some k := h.unfinished k r hr (by rw [hphase]; rfl)
  refine ⟨h.ids, fun k' r₁ hr₁ => ?_, fun c call hc => ?_, fun k' r₁ hr₁ hholds => ?_,
    fun i k' hi => ?_, fun k' r₁ hr₁ hf => ?_, fun c call hc => ?_, fun id e c he hsender => ?_,
    fun id e k' he hsender => ?_⟩
  · rcases of_update_some hr₁ with ⟨rfl, -⟩ | ⟨-, hold⟩
    · exact h.started k' r hr
    · exact h.started k' r₁ hold
  · obtain ⟨call₀, hc₀, rfl⟩ := Option.map_eq_some_iff.1 hc
    exact h.called c call₀ hc₀
  · rcases of_update_some hr₁ with ⟨-, rfl⟩ | ⟨-, hold⟩
    · cases hholds
    · exact h.lock k' r₁ hold hholds
  · obtain ⟨hi', hold⟩ := of_update_none hi
    obtain ⟨r₁, hr₁, htab, hf⟩ := h.inFlight i k' hold
    have hk' : k' ≠ k := by
      rintro rfl
      obtain rfl := Option.some.inj (hr₁.symm.trans hr)
      exact hi' htab.symm
    exact ⟨r₁, (Function.update_of_ne hk' ..).trans hr₁, htab, hf⟩
  · rcases of_update_some hr₁ with ⟨-, rfl⟩ | ⟨hk', hold⟩
    · cases hf
    · have hinFlight := h.unfinished k' r₁ hold hf
      have htab : r₁.tab ≠ r.tab := by
        intro htab
        rw [htab, hmine] at hinFlight
        exact hk' (Option.some.inj hinFlight).symm
      exact (Function.update_of_ne htab ..).trans hinFlight
  · obtain ⟨call₀, hc₀, rfl⟩ := Option.map_eq_some_iff.1 hc
    rw [Call.resume_config]
    exact h.config c call₀ hc₀
  · obtain ⟨hne, hwaits⟩ := h.request id e c he hsender
    refine ⟨hne, fun hh => ?_⟩
    obtain ⟨call, hc, hstage⟩ := hwaits hh
    refine ⟨call, ?_, hstage⟩
    show (s.calls c).map (Call.resume k result) = some call
    rw [hc, Option.map_some, Call.resume_of_ne (by simp [hstage])]
  · obtain ⟨heq, hwaits⟩ := h.refresh id e k' he hsender
    refine ⟨heq, fun hh => ?_⟩
    obtain ⟨r₁, hr₁, hphase₁⟩ := hwaits hh
    have hk' : k' ≠ k := by
      rintro rfl
      obtain rfl := Option.some.inj (hr₁.symm.trans hr)
      rw [hphase] at hphase₁
      cases hphase₁
    exact ⟨r₁, (Function.update_of_ne hk' ..).trans hr₁, hphase₁⟩

theorem step {env : Auth.Env} {s' : Browser} {a : Action} (h : Orderly s)
    (hs : Frontend.step env s a = some s') : Orderly s' := by
  cases step_move hs with
  | @call tab url hurl =>
    have hcalled : Orderly { s with called := s.called + 1 } :=
      { h with called := fun c call hc => Nat.lt_succ_of_lt (h.called c call hc) }
    have hnone : ∀ call id, s.calls s.called = some call → call.stage ≠ .sent id :=
      fun call _ hc => absurd (h.called _ call hc) (Nat.lt_irrefl _)
    refine (hcalled.setCall (Nat.lt_succ_self _) hurl (h.idle_call hnone)).leave ?_ ?_
    · rintro c ⟨⟩
      exact ⟨hurl, _, Function.update_self .., rfl⟩
    · rintro k ⟨⟩
  | @replay c call hc hstage =>
    have hnone : ∀ call' id, s.calls c = some call' → call'.stage ≠ .sent id := by
      intro call' id hc' hsent
      obtain rfl := Option.some.inj (hc'.symm.trans hc)
      rw [hstage] at hsent
      cases hsent
    have hurl := h.config c call hc
    refine (h.setCall (h.called c call hc) (by exact hurl) (h.idle_call hnone)).leave ?_ ?_
    · rintro c' ⟨⟩
      exact ⟨hurl, _, Function.update_self .., rfl⟩
    · rintro k ⟨⟩
  | @grant k r hr hphase hlock =>
    have hfree : Orderly { s with lock := some k } := by
      refine { h with lock := fun k' r' hr' hholds => ?_ }
      have hheld := h.lock k' r' hr' hholds
      rw [hlock] at hheld
      cases hheld
    have hidle := h.idle_rotation hr (by simp [hphase])
    exact hfree.setRotation hr rfl (by rw [hphase]; rfl) (fun _ => rfl) hidle
  | @post k r hr hphase =>
    have hidle := h.idle_rotation hr (by simp [hphase])
    have hlock := h.lock k r hr (by rw [hphase]; rfl)
    have hset : Orderly (s.setRotation k
        { r with phase := .posted s.sent, posts := r.posts + 1 }) :=
      h.setRotation hr rfl (by rw [hphase]; rfl) (fun _ => hlock) hidle
    refine hset.leave ?_ ?_
    · rintro c ⟨⟩
    · rintro k' ⟨⟩
      exact ⟨rfl, _, Function.update_self .., rfl⟩
  | @release k r result hr hphase =>
    have hidle := h.idle_rotation hr (by simp [hphase])
    have hlock := h.lock k r hr (by rw [hphase]; rfl)
    have hset : Orderly (s.setRotation k { r with phase := .released result }) :=
      h.setRotation hr rfl (by rw [hphase]; rfl) (fun hholds => by cases hholds) hidle
    refine { hset with lock := fun k' r' hr' hholds => ?_ }
    -- whoever holds the lock is this rotation, which does no longer
    have hk' : k' = k := Option.some.inj ((hset.lock k' r' hr' hholds).symm.trans hlock)
    have heq := Option.some.inj ((hk' ▸ hr').symm.trans (Function.update_self ..))
    rw [heq] at hholds
    cases hholds
  | finish hr hphase => exact h.finish hr hphase
  | shift hshift => exact h.shift hshift
  | arrive he hreply hheeded =>
    exact h.heard (h.arrive _ _) he hheeded (fun id' e' he' _ => Network.of_arrive he') _
  | @giveUp id e he hheeded =>
    have hput : Orderly (s.withNetwork (s.put id { e with heeded := false })) :=
      h.put he rfl rfl fun hh => by cases hh
    refine h.heard hput he hheeded (fun id' e' he' hh => ?_) _
    rcases Network.of_put he' with ⟨-, rfl⟩ | hold
    · cases hh
    · exact hold

end Orderly

theorem Reaches.orderly {env : Auth.Env} {ok : Browser → Action → Prop} {s : Browser}
    (h : Reaches env ok s) : Orderly s := by
  induction h with
  | refl => exact orderly_initial
  | tail _ hs ih =>
    obtain ⟨a, -, hs⟩ := hs
    exact ih.step hs

end Tradinghub.Frontend
