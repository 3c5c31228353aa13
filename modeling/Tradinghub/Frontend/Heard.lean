import Tradinghub.Frontend.Turns

/-!
# What calls and rotations hear

`Told` is every way a call can go, with what it has heard on it: its own request, the rotation it
waited for, its replay.  `Hears` is that of all of them, in every run (`Reaches.hears`).
-/

namespace Tradinghub.Frontend

open ReadCommitted (of_update_some)

/-- The API answered that the session is gone. -/
def refused : Except CallFailure Unit := .error (.api INVALID_SESSION)

def Finished (s : Browser) (k : Nat) (result : Except CallFailure Unit) : Prop :=
  ∃ r, s.rotations k = some r ∧ r.phase = .finished result

/-- What a rotation has posted and heard. -/
def Rotation.Told (r : Rotation) : Prop :=
  match r.phase with
  | .queued | .locked => r.posts = 0 ∧ r.answers = []
  | .posted _ => r.posts = 1 ∧ r.answers = []
  | .recursing => False
  | .settled result | .released result | .finished result => r.posts = 1 ∧ r.answers = [result]

/-- A call's request, and what has become of the rotation it waited for, if it did. -/
inductive Told (s : Browser) (call : Call) : Prop
  | sent {id} (hstage : call.stage = .sent id) (hretried : call.config.retried = false)
      (hsends : call.sends = 1) (hanswers : call.answers = []) (hwaited : call.waited = none)
  | awaiting {k} (hstage : call.stage = .awaiting k (.api INVALID_SESSION))
      (hretried : call.config.retried = false) (hsends : call.sends = 1)
      (hanswers : call.answers = [refused]) (hwaited : call.waited = some k)
      (hflight : s.refreshInFlight call.tab = some k)
  | replaying {k} (hstage : call.stage = .replaying) (hsends : call.sends = 1)
      (hanswers : call.answers = [refused]) (hwaited : call.waited = some k)
      (hfinished : Finished s k (.ok ()))
  | resent {id k} (hstage : call.stage = .sent id) (hretried : call.config.retried = true)
      (hsends : call.sends = 2) (hanswers : call.answers = [refused])
      (hwaited : call.waited = some k) (hfinished : Finished s k (.ok ()))
  /-- the first answer was not that the session is gone -/
  | answered {result} (hstage : call.stage = .settled result) (hsends : call.sends = 1)
      (hanswers : call.answers = [result]) (hwaited : call.waited = none)
      (hresult : result ≠ refused)
  /-- the rotation failed -/
  | failed {k failure} (hstage : call.stage = .settled (.error failure)) (hsends : call.sends = 1)
      (hanswers : call.answers = [refused]) (hwaited : call.waited = some k)
      (hfinished : Finished s k (.error failure))
  /-- the replay was answered -/
  | replayed {k result} (hstage : call.stage = .settled result) (hsends : call.sends = 2)
      (hanswers : call.answers = [refused, result]) (hwaited : call.waited = some k)
      (hfinished : Finished s k (.ok ()))

/-- What every call and every rotation has heard. -/
structure Hears (s : Browser) : Prop where
  rotations : ∀ k r, s.rotations k = some r → r.Told
  calls : ∀ c call, s.calls c = some call → Told s call

theorem shouldRotateAndReplay_iff {failure : CallFailure} {config : Config} :
    shouldRotateAndReplay failure config = true ↔
      failure = .api INVALID_SESSION ∧ config.url ≠ REFRESH_PATH ∧ config.retried = false := by
  simp [shouldRotateAndReplay, isApiError, and_assoc]

/-! ## The operations -/

section Operations

variable {s s' : Browser} {k : Nat}

theorem Finished.unique {result result' : Except CallFailure Unit} (h : Finished s k result)
    (h' : Finished s k result') : result = result' := by
  obtain ⟨r, hr, hphase⟩ := h
  obtain ⟨r', hr', hphase'⟩ := h'
  obtain rfl := Option.some.inj (hr.symm.trans hr')
  exact Phase.finished.inj (hphase.symm.trans hphase')

/-- What was finished stays so, and the rotation that is awaited is still in flight. -/
theorem Told.mono {call : Call} (h : Told s call)
    (hfinished : ∀ k result, Finished s k result → Finished s' k result)
    (hflight : ∀ k failure, call.stage = .awaiting k failure →
      s.refreshInFlight call.tab = some k → s'.refreshInFlight call.tab = some k) :
    Told s' call := by
  cases h with
  | sent hstage hretried hsends hanswers hwaited =>
    exact .sent hstage hretried hsends hanswers hwaited
  | awaiting hstage hretried hsends hanswers hwaited hin =>
    exact .awaiting hstage hretried hsends hanswers hwaited (hflight _ _ hstage hin)
  | replaying hstage hsends hanswers hwaited hf =>
    exact .replaying hstage hsends hanswers hwaited (hfinished _ _ hf)
  | resent hstage hretried hsends hanswers hwaited hf =>
    exact .resent hstage hretried hsends hanswers hwaited (hfinished _ _ hf)
  | answered hstage hsends hanswers hwaited hresult =>
    exact .answered hstage hsends hanswers hwaited hresult
  | failed hstage hsends hanswers hwaited hf =>
    exact .failed hstage hsends hanswers hwaited (hfinished _ _ hf)
  | replayed hstage hsends hanswers hwaited hf =>
    exact .replayed hstage hsends hanswers hwaited (hfinished _ _ hf)

theorem finished_setRotation {r r' : Rotation} {result : Except CallFailure Unit}
    (hr : s.rotations k = some r) (hphase : r.phase.isFinished = false) {k' : Nat}
    (h : Finished s k' result) : Finished (s.setRotation k r') k' result := by
  obtain ⟨r₁, hr₁, hphase₁⟩ := h
  have hk' : k' ≠ k := by
    rintro rfl
    obtain rfl := Option.some.inj (hr₁.symm.trans hr)
    rw [hphase₁] at hphase
    cases hphase
  exact ⟨r₁, (Function.update_of_ne hk' ..).trans hr₁, hphase₁⟩

namespace Hears

/-- Calls and rotations are what they were. -/
theorem congr (h : Hears s) (hcalls : s'.calls = s.calls) (hrotations : s'.rotations = s.rotations)
    (hflight : s'.refreshInFlight = s.refreshInFlight) : Hears s' := by
  refine ⟨fun k r hr => h.rotations k r (hrotations ▸ hr), fun c call hc => ?_⟩
  refine (h.calls c call (hcalls ▸ hc)).mono ?_ fun k failure _ hin => hflight ▸ hin
  rintro k result ⟨r, hr, hphase⟩
  exact ⟨r, hrotations ▸ hr, hphase⟩

theorem withNetwork (h : Hears s) (w : Network) : Hears (s.withNetwork w) :=
  h.congr rfl rfl rfl

theorem setCall (h : Hears s) (c : Nat) {call : Call} (hcall : Told s call) :
    Hears (s.setCall c call) := by
  refine ⟨h.rotations, fun c' call' hc' => ?_⟩
  rcases of_update_some hc' with ⟨-, rfl⟩ | ⟨-, hold⟩
  · exact hcall.mono (fun _ _ hf => hf) fun _ _ _ hin => hin
  · exact (h.calls c' call' hold).mono (fun _ _ hf => hf) fun _ _ _ hin => hin

theorem setRotation (h : Hears s) {r r' : Rotation} (hr : s.rotations k = some r)
    (hphase : r.phase.isFinished = false) (htold : r'.Told) : Hears (s.setRotation k r') := by
  refine ⟨fun k' r₁ hr₁ => ?_, fun c call hc => ?_⟩
  · rcases of_update_some hr₁ with ⟨-, rfl⟩ | ⟨-, hold⟩
    · exact htold
    · exact h.rotations k' r₁ hold
  · exact (h.calls c call hc).mono (fun _ _ hf => finished_setRotation hr hphase hf)
      fun _ _ _ hin => hin

/-- The tab's rotation, or a new one: it is in flight. -/
theorem rotateSessionOnce (h : Hears s) (ho : Orderly s) (tab : Nat) :
    Hears (s.rotateSessionOnce tab).2 ∧
    (s.rotateSessionOnce tab).2.refreshInFlight tab = some (s.rotateSessionOnce tab).1 := by
  unfold Browser.rotateSessionOnce
  split
  · next k hk => exact ⟨h, hk⟩
  · next hnone =>
    refine ⟨⟨fun k r hr => ?_, fun c call hc => ?_⟩, Function.update_self ..⟩
    · rcases of_update_some hr with ⟨-, rfl⟩ | ⟨-, hold⟩
      · exact ⟨rfl, rfl⟩
      · exact h.rotations k r hold
    · refine (h.calls c call hc).mono ?_ fun k failure _ hin => ?_
      · rintro k result ⟨r, hr, hphase⟩
        have hk : k ≠ s.started := Nat.ne_of_lt (ho.started k r hr)
        exact ⟨r, (Function.update_of_ne hk ..).trans hr, hphase⟩
      · have htab : call.tab ≠ tab := by
          intro htab
          rw [htab, hnone] at hin
          cases hin
        exact (Function.update_of_ne htab ..).trans hin

theorem intercept (h : Hears s) (ho : Orderly s) {c id : Nat} {call : Call}
    (hc : s.calls c = some call) (hstage : call.stage = .sent id)
    (result : Except CallFailure Unit) : Hears (s.intercept c call result) := by
  have htold := h.calls c call hc
  unfold Browser.intercept
  split
  · next u =>
    refine h.setCall c ?_
    cases htold with
    | sent _ _ hsends hanswers hwaited =>
      exact .answered rfl hsends (by rw [hanswers]; rfl) hwaited (by simp [refused])
    | resent _ _ hsends hanswers hwaited hf =>
      exact .replayed rfl hsends (by rw [hanswers]; rfl) hwaited hf
    | _ hother => exact absurd (hstage.symm.trans hother) (by simp)
  · next failure =>
    split
    · next hrotate =>
      obtain ⟨rfl, -, hnew⟩ := shouldRotateAndReplay_iff.1 hrotate
      obtain ⟨hrest, hflight⟩ := h.rotateSessionOnce ho call.tab
      refine hrest.setCall c ?_
      cases htold with
      | sent _ hretried hsends hanswers hwaited =>
        exact .awaiting rfl hretried hsends (by rw [hanswers]; rfl) rfl hflight
      | resent _ hretried => exact absurd (hnew.symm.trans hretried) (by simp)
      | _ hother => exact absurd (hstage.symm.trans hother) (by simp)
    · next hrotate =>
      refine h.setCall c ?_
      cases htold with
      | sent _ hretried hsends hanswers hwaited =>
        refine .answered rfl hsends (by rw [hanswers]; rfl) hwaited fun hresult => hrotate ?_
        have hfailure : failure = .api INVALID_SESSION := Except.error.inj hresult
        exact shouldRotateAndReplay_iff.2 ⟨hfailure, ho.config c call hc, hretried⟩
      | resent _ _ hsends hanswers hwaited hf =>
        exact .replayed rfl hsends (by rw [hanswers]; rfl) hwaited hf
      | _ hother => exact absurd (hstage.symm.trans hother) (by simp)

/-- The refresh is never refreshed itself. -/
theorem interceptRefresh_told {r : Rotation} {id : Nat} (h : r.Told) (hphase : r.phase = .posted id)
    (result : Except CallFailure Unit) :
    (Browser.interceptRefresh r REFRESH_PATH result).Told := by
  have hr : r.posts = 1 ∧ r.answers = [] := by
    unfold Rotation.Told at h
    rwa [hphase] at h
  have hsettled : Rotation.Told
      { r with answers := r.answers ++ [result], phase := .settled result } :=
    ⟨hr.1, by rw [hr.2]; rfl⟩
  unfold Browser.interceptRefresh
  split
  · exact hsettled
  · split
    · next hrotate => exact absurd rfl (shouldRotateAndReplay_iff.1 hrotate).2.1
    · exact hsettled

/-- Somebody who waits for the exchange hears how it ended. -/
theorem settle (h : Hears s) (ho : Orderly s) (id : Nat) {e : Exchange}
    (hcall : ∀ c, e.sender = .call c → ∃ call, s.calls c = some call ∧ call.stage = .sent id)
    (hrotation : ∀ k, e.sender = .rotation k → e.url = REFRESH_PATH ∧
      ∃ r, s.rotations k = some r ∧ r.phase = .posted id)
    (result : Except CallFailure Unit) : Hears (s.settle e result) := by
  unfold Browser.settle
  cases hsender : e.sender with
  | call c =>
    obtain ⟨call, hc, hstage⟩ := hcall c hsender
    simp only [hc]
    exact h.intercept ho hc hstage result
  | rotation k =>
    obtain ⟨hurl, r, hr, hphase⟩ := hrotation k hsender
    simp only [hr, hurl]
    exact h.setRotation hr (by rw [hphase]; rfl)
      (interceptRefresh_told (h.rotations k r hr) hphase result)

/-- The rotation that a call awaited has finished. -/
theorem resume_told {call : Call} {result : Except CallFailure Unit}
    (hstage : call.stage = .awaiting k (.api INVALID_SESSION)) (hsends : call.sends = 1)
    (hanswers : call.answers = [refused]) (hwaited : call.waited = some k)
    (hk : Finished s k result) : Told s (call.resume k result) := by
  simp only [Call.resume, hstage, if_true]
  cases result with
  | ok u => exact .replaying rfl hsends hanswers hwaited hk
  | error failure =>
    by_cases hgone : failure = .api INVALID_SESSION
    · subst hgone
      have hrotated : rotated (.error (.api INVALID_SESSION)) = .ok false := by
        simp [rotated, isApiError]
      exact .failed (by rw [hrotated]) hsends hanswers hwaited hk
    · have hrotated : rotated (.error failure) = .error failure := by
        simp [rotated, isApiError, hgone]
      exact .failed (by rw [hrotated]) hsends hanswers hwaited hk

theorem finish (h : Hears s) (ho : Orderly s) {r : Rotation} {result : Except CallFailure Unit}
    (hr : s.rotations k = some r) (hphase : r.phase = .released result) :
    Hears { s.setRotation k { r with phase := .finished result } with
      refreshInFlight := Function.update s.refreshInFlight r.tab none
      calls := fun c => (s.calls c).map (Call.resume k result) } := by
  have hopen : r.phase.isFinished = false := by
    rw [hphase]
    rfl
  have htold : Rotation.Told { r with phase := .finished result } := by
    have hr' := h.rotations k r hr
    unfold Rotation.Told at hr'
    rwa [hphase] at hr'
  have hset := h.setRotation hr hopen htold
  refine ⟨hset.rotations, fun c call' hc' => ?_⟩
  obtain ⟨call, hc, rfl⟩ := Option.map_eq_some_iff.1 hc'
  have hcall := hset.calls c call hc
  by_cases hawaits : ∃ failure, call.stage = .awaiting k failure
  · obtain ⟨failure, hstage⟩ := hawaits
    cases hcall with
    | awaiting hstage' _ hsends hanswers hwaited =>
      rw [hstage] at hstage'
      cases hstage'
      exact resume_told hstage hsends hanswers hwaited ⟨_, Function.update_self .., rfl⟩
    | _ hother => exact absurd (hstage.symm.trans hother) (by simp)
  · have hnot : ∀ failure, call.stage ≠ .awaiting k failure :=
      fun failure hstage => hawaits ⟨failure, hstage⟩
    rw [Call.resume_of_ne hnot]
    refine hcall.mono (fun _ _ hf => hf) fun k' failure hstage hin => ?_
    -- another rotation that is awaited is in flight in another tab
    have htab : call.tab ≠ r.tab := by
      intro htab
      have hmine := ho.unfinished k r hr hopen
      have hin' : s.refreshInFlight call.tab = some k' := hin
      rw [htab, hmine] at hin'
      cases hin'
      exact hnot failure hstage
    exact (Function.update_of_ne htab ..).trans hin

theorem step {env : Auth.Env} {a : Action} (h : Hears s) (ho : Orderly s)
    (hs : Frontend.step env s a = some s') : Hears s' := by
  cases step_move hs with
  | @call tab url hurl =>
    have hcall : Told s { tab, config := { url }, stage := .sent s.sent } :=
      .sent rfl rfl rfl rfl rfl
    exact (h.setCall s.called hcall).congr rfl rfl rfl
  | @replay c call hc hstage =>
    have hcall : Told s { call with
        config := { call.config with retried := true }
        stage := .sent s.sent
        sends := call.sends + 1 } := by
      cases h.calls c call hc with
      | replaying _ hsends hanswers hwaited hf =>
        exact .resent rfl rfl (congrArg (· + 1) hsends) hanswers hwaited hf
      | _ hother => exact absurd (hstage.symm.trans hother) (by simp)
    exact (h.setCall c hcall).congr rfl rfl rfl
  | @grant k r hr hphase hlock =>
    have htold := h.rotations k r hr
    simp only [Rotation.Told, hphase] at htold
    have hlocked : Rotation.Told { r with phase := .locked } := htold
    exact (h.setRotation hr (by rw [hphase]; rfl) hlocked).congr rfl rfl rfl
  | @post k r hr hphase =>
    have htold := h.rotations k r hr
    simp only [Rotation.Told, hphase] at htold
    have hposted : Rotation.Told { r with phase := .posted s.sent, posts := r.posts + 1 } :=
      ⟨congrArg (· + 1) htold.1, htold.2⟩
    exact (h.setRotation hr (by rw [hphase]; rfl) hposted).congr rfl rfl rfl
  | @release k r result hr hphase =>
    have htold := h.rotations k r hr
    simp only [Rotation.Told, hphase] at htold
    have hreleased : Rotation.Told { r with phase := .released result } := htold
    exact (h.setRotation hr (by rw [hphase]; rfl) hreleased).congr rfl rfl rfl
  | finish hr hphase => exact h.finish ho hr hphase
  | shift hshift => exact h.withNetwork _
  | @arrive id e reply he hreply hheeded =>
    have hw := ho.arrive id reply
    refine (h.withNetwork _).settle hw id (fun c hc => ?_) (fun k hk => ?_) _
    · exact (ho.request id e c he hc).2 hheeded
    · obtain ⟨hurl, hwaits⟩ := ho.refresh id e k he hk
      exact ⟨hurl, hwaits hheeded⟩
  | @giveUp id e he hheeded =>
    have hw : Orderly (s.withNetwork (s.put id { e with heeded := false })) :=
      ho.put he rfl rfl fun hh => by cases hh
    refine (h.withNetwork _).settle hw id (fun c hc => ?_) (fun k hk => ?_) _
    · exact (ho.request id e c he hc).2 hheeded
    · obtain ⟨hurl, hwaits⟩ := ho.refresh id e k he hk
      exact ⟨hurl, hwaits hheeded⟩

end Hears

end Operations

end Tradinghub.Frontend
