import Tradinghub.Auth.RateLimit

/-!
# Refusals are earned

Whoever is refused has a reason in the last window: more attempts than allowed were counted, under
one of the keys it is held to, in the `RATE_WINDOW_SECONDS` up to it (`refusals_earned`).  So
`Retry-After` is honest: that long after a refusal nothing counted up to then is held against
anyone.
-/

namespace Tradinghub.Auth.RateLimit

variable {casefold : String → String} {s s' : State}

/-- The keys an attempt is counted under, and how many of each are allowed. -/
def Attempt.limits (casefold : String → String) : Attempt → List (String × Nat)
  | .login email ip =>
    [(emailKey casefold email, MAX_LOGINS_PER_EMAIL), (ipKey ip, MAX_LOGINS_PER_IP)]
  | .register ip => [(registrationKey ip, MAX_REGISTRATIONS_PER_IP)]

/-- The attempts under a key in the window up to `t`. -/
def State.recent (casefold : String → String) (s : State) (key : String) (t : Nat) : List Counted :=
  s.history.filter fun counted =>
    key ∈ counted.attempt.keys casefold && counted.time ≤ t && t < counted.time + rateWindow

/-- The counts have no gaps, and the refused were over a limit. -/
structure Earned (s : State) : Prop where
  filled : Counters.Filled s.redis s.hits
  judged : ∀ counted ∈ s.refused, refuses counted.attempt counted.counts = true

theorem initial_earned : Earned initial where
  filled := Counters.filled_empty
  judged counted h := by cases h

theorem Earned.counting (h : Earned s) (hok : Ok casefold s) (attempt : Attempt) :
    Earned (s.counting casefold attempt) where
  filled := by
    show Counters.Filled (count s.now (attempt.keys casefold) s.redis).2 _
    rw [count_eq]
    exact h.filled.hits hok.windows rateWindow_pos (attempt.keys casefold)
  judged := h.judged

theorem Earned.judging (h : Earned s) {counted : Counted} (hc : counted ∈ s.waiting) :
    Earned (s.judging counted) := by
  have hredis : (s.judging counted).redis = s.redis := by
    unfold State.judging
    split <;> rfl
  constructor
  · rw [hredis]
    exact h.filled.perm ((judging_history hc).symm.flatMap_right _)
  · intro other hother
    unfold State.judging at hother
    split at hother
    · next hrefused =>
      rcases List.mem_cons.1 hother with rfl | hother
      · exact hrefused
      · exact h.judged other hother
    · exact h.judged other hother

theorem step_earned {e : Event} (h : Earned s) (hok : Ok casefold s)
    (hstep : step casefold s e = some s') : Earned s' := by
  obtain ⟨hle, rfl | ⟨attempt, rfl⟩ | ⟨counted, hc, rfl⟩⟩ := step_cases hstep
  · exact ⟨h.filled, h.judged⟩
  · exact Earned.counting (s := { s with now := e.time }) ⟨h.filled, h.judged⟩ (hok.wait hle) attempt
  · exact Earned.judging (s := { s with now := e.time }) ⟨h.filled, h.judged⟩ hc

theorem run_earned (h : Run casefold initial s) : Earned s := by
  induction h with
  | refl => exact initial_earned
  | tail hrun hstep ih =>
    obtain ⟨e, he⟩ := hstep
    exact step_earned ih (run_ok initial_ok hrun) he

/-- The count that was too high. -/
theorem Ok.refused (h : Ok casefold s) {counted : Counted} (hc : counted ∈ s.history)
    (hrefused : refuses counted.attempt counted.counts = true) :
    ∃ limit ∈ counted.attempt.limits casefold, ∃ x ∈ counted.hits,
      x.key = limit.1 ∧ limit.2 < x.count := by
  have hkeys := h.keys counted hc
  rw [← h.counts counted hc] at hrefused
  cases hattempt : counted.attempt with
  | login email ip =>
    rw [hattempt] at hkeys hrefused
    obtain ⟨x, xs, hx, hxkey, hxs⟩ := List.map_eq_cons_iff.1 hkeys
    obtain ⟨y, ys, rfl, hykey, hys⟩ := List.map_eq_cons_iff.1 hxs
    obtain rfl := List.map_eq_nil_iff.1 hys
    rw [hx] at hrefused ⊢
    simp only [List.map_cons, List.map_nil, refuses, Bool.or_eq_true, decide_eq_true_eq]
      at hrefused
    rcases hrefused with hemail | hip
    · exact ⟨_, List.mem_cons_self, x, List.mem_cons_self, hxkey, hemail⟩
    · exact ⟨_, List.mem_cons_of_mem _ List.mem_cons_self, y,
        List.mem_cons_of_mem _ List.mem_cons_self, hykey, hip⟩
  | register ip =>
    rw [hattempt] at hkeys hrefused
    obtain ⟨x, xs, hx, hxkey, hxs⟩ := List.map_eq_cons_iff.1 hkeys
    obtain rfl := List.map_eq_nil_iff.1 hxs
    rw [hx] at hrefused ⊢
    simp only [List.map_cons, List.map_nil, refuses, decide_eq_true_eq] at hrefused
    exact ⟨_, List.mem_cons_self, x, List.mem_cons_self, hxkey, hrefused⟩

theorem keys_nodup (attempt : Attempt) : (attempt.keys casefold).Nodup := by
  cases attempt with
  | login email ip =>
    refine List.nodup_cons.2 ⟨fun hmem => ?_, List.nodup_singleton _⟩
    exact emailKey_ne_ipKey email ip (List.mem_singleton.1 hmem)
  | register ip => exact List.nodup_singleton _

/-- What an attempt found under a key. -/
def Counted.countUnder (counted : Counted) (key : String) : Nat :=
  ((counted.hits.find? fun x => x.key = key).map Counters.Hit.count).getD 0

theorem Ok.countUnder (h : Ok casefold s) {counted : Counted} (hc : counted ∈ s.history)
    {x : Counters.Hit String} (hx : x ∈ counted.hits) : counted.countUnder x.key = x.count := by
  have hnodup : (counted.hits.map Counters.Hit.key).Nodup := by
    rw [h.keys counted hc]
    exact keys_nodup _
  unfold Counted.countUnder
  cases hfind : counted.hits.find? fun y => y.key = x.key with
  | none => exact absurd (decide_eq_true rfl) (List.find?_eq_none.1 hfind x hx)
  | some y =>
    have hkey : y.key = x.key := of_decide_eq_true (List.find?_some
      (p := fun y : Counters.Hit String => decide (y.key = x.key)) hfind)
    rw [List.inj_on_of_nodup_map hnodup (List.mem_of_find?_eq_some hfind) hx hkey]
    rfl

/-- **Refusals are earned**: in every run, of the attempts under one of the keys a refused attempt
is held to, more than are allowed were counted in the window up to it. -/
theorem refusals_earned (h : Run casefold initial s) {counted : Counted}
    (hc : counted ∈ s.refused) : ∃ limit ∈ counted.attempt.limits casefold,
      limit.2 < (s.recent casefold limit.1 counted.time).length := by
  have hok : Ok casefold s := run_ok initial_ok h
  have hearned := run_earned h
  have hhistory : counted ∈ s.history := List.mem_append_right _ hc
  obtain ⟨limit, hlimit, x, hx, hkey, hover⟩ := hok.refused hhistory (hearned.judged counted hc)
  refine ⟨limit, hlimit, Nat.lt_of_lt_of_le hover ?_⟩
  have hhit : x ∈ s.hits := List.mem_flatMap.2 ⟨counted, hhistory, hx⟩
  -- each count up to its own was found by an attempt of the same life
  have hcounts : List.range' 1 x.count ⊆
      (s.recent casefold limit.1 counted.time).map fun other => other.countUnder limit.1 := by
    intro i hi
    rw [List.mem_range'_1] at hi
    obtain ⟨y, hy, hykey, hydeadline, rfl, hytime⟩ :=
      hearned.filled.below hhit hi.1 (Nat.le_of_lt_succ (by omega))
    obtain ⟨other, hother, hyhit⟩ := List.mem_flatMap.1 hy
    have hlife := hok.windows.within y hy
    have hlife' := hok.windows.within x hhit
    rw [hok.time other hother y hyhit] at hytime hlife
    rw [hok.time counted hhistory x hx] at hytime hlife'
    have hmem : limit.1 ∈ other.attempt.keys casefold := by
      rw [← hok.keys other hother, ← hkey, ← hykey]
      exact List.mem_map_of_mem hyhit
    refine List.mem_map.2 ⟨other, List.mem_filter.2 ⟨hother, ?_⟩, ?_⟩
    · rw [Bool.and_eq_true, Bool.and_eq_true, decide_eq_true_eq, decide_eq_true_eq,
        decide_eq_true_eq]
      exact ⟨⟨hmem, hytime⟩, by omega⟩
    · rw [← hkey, ← hykey]
      exact hok.countUnder hother hyhit
  have hnodup : (List.range' 1 x.count).Nodup := List.nodup_range'
  have hlength := (hnodup.subperm hcounts).length_le
  rw [List.length_range', List.length_map] at hlength
  exact hlength

theorem eleventh_guess_earned : ∃ s, follow asciiCasefold guesses initial = some s ∧
    Run asciiCasefold initial s ∧ ∃ counted ∈ s.refused,
    ∃ limit ∈ counted.attempt.limits asciiCasefold,
      limit.2 < (s.recent asciiCasefold limit.1 counted.time).length := by
  have hrun : (follow asciiCasefold guesses initial).any (fun s => s.refused.length = 1) = true := by
    decide +kernel
  obtain ⟨s, hs, hlength⟩ := (Option.any_eq_true _ _).1 hrun
  obtain ⟨counted, hcounted⟩ := List.length_eq_one_iff.1 (of_decide_eq_true hlength)
  have hrefused : counted ∈ s.refused := by
    rw [hcounted]
    exact List.mem_singleton_self counted
  exact ⟨s, hs, run_of_follow hs, counted, hrefused, refusals_earned (run_of_follow hs) hrefused⟩

end Tradinghub.Auth.RateLimit
