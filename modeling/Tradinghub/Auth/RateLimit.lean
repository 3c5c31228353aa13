import Tradinghub.Auth.Users
import Tradinghub.Lib.Counters

/-!
# Counting attempts (`security/rate_limit.py`)

A login is counted under its email and under its IP, a registration under its IP.  Redis counts one
attempt at a time; its answers reach the requests in any order, and each request judges its own.  An
attempt happens when it is counted.  A counter lives for one window and no attempt prolongs it, so
the limits hold for each of its lives, and twice the limits for any stretch of time as long as a
window (`limiter_tight`).
-/

namespace Tradinghub.Auth

open ReadCommitted

def RateLimitedError.retryAfterSeconds : Nat := 15 * 60

def RATE_WINDOW_SECONDS : Nat := RateLimitedError.retryAfterSeconds

/-- In Redis's milliseconds. -/
def rateWindow : Nat := 1000 * RATE_WINDOW_SECONDS

namespace RateLimit

/-! ## Attempts -/

inductive Attempt where
  | login (email ip : String)
  | register (ip : String)
  deriving DecidableEq, Repr

section Keys

variable (casefold : String → String)

/-- The users table is CITEXT, so letters that differ in case only are one account. -/
def emailKey (email : String) : String := "login:email:" ++ casefold email

def ipKey (ip : String) : String := "login:ip:" ++ ip

def registrationKey (ip : String) : String := "register:ip:" ++ ip

def Attempt.keys : Attempt → List String
  | .login email ip => [emailKey casefold email, ipKey ip]
  | .register ip => [registrationKey ip]

end Keys

/-- `_count`, while Redis can be reached: every key in one round trip. -/
def count (now : Nat) (keys : List String) (redis : Counters String) :
    List Nat × Counters String :=
  let (replies, redis) := Counters.pipeline now
    (keys.flatMap fun key => [.incr key, .expireNX key RATE_WINDOW_SECONDS]) redis
  (Counters.everyOther replies, redis)

/-- Over a limit.  A login is judged by both of its counts. -/
def refuses : Attempt → List Nat → Bool
  | .login _ _, [emailAttempts, ipAttempts] =>
    MAX_LOGINS_PER_EMAIL < emailAttempts || MAX_LOGINS_PER_IP < ipAttempts
  | .register _, [attempts] => MAX_REGISTRATIONS_PER_IP < attempts
  | _, _ => false

/-! ## Runs -/

/-- An attempt, when it was counted, and the counts Redis answered with. -/
structure Counted where
  attempt : Attempt
  time : Nat
  counts : List Nat
  /-- what the counters were then -/
  hits : List (Counters.Hit String)
  deriving DecidableEq, Repr

structure State where
  now : Nat
  redis : Counters String
  /-- counted, and not judged yet -/
  waiting : List Counted
  /-- goes on to the password -/
  letThrough : List Counted
  refused : List Counted

def initial : State := ⟨0, Counters.empty, [], [], []⟩

inductive Action where
  | wait
  | count (attempt : Attempt)
  | judge (i : Nat)
  deriving DecidableEq, Repr

structure Event where
  time : Nat
  action : Action
  deriving DecidableEq, Repr

def State.history (s : State) : List Counted := s.waiting ++ s.letThrough ++ s.refused

/-- Every hit Redis has taken. -/
def State.hits (s : State) : List (Counters.Hit String) := s.history.flatMap Counted.hits

section Runs

variable (casefold : String → String)

def State.counting (s : State) (attempt : Attempt) : State :=
  let result := count s.now (attempt.keys casefold) s.redis
  { s with
    redis := result.2
    waiting :=
      { attempt := attempt
        time := s.now
        counts := result.1
        hits := (Counters.hits rateWindow s.now (attempt.keys casefold) s.redis).1 } :: s.waiting }

def State.judging (s : State) (counted : Counted) : State :=
  if refuses counted.attempt counted.counts then
    { s with waiting := s.waiting.erase counted, refused := counted :: s.refused }
  else { s with waiting := s.waiting.erase counted, letThrough := counted :: s.letThrough }

def step (s : State) (e : Event) : Option State :=
  if s.now ≤ e.time then
    let s := { s with now := e.time }
    match e.action with
    | .wait => some s
    | .count attempt => some (s.counting casefold attempt)
    | .judge i => (s.waiting[i]?).map s.judging
  else none

/-- A timed run. -/
def Run : State → State → Prop := Relation.ReflTransGen fun s s' => ∃ e, step casefold s e = some s'

/-- Whether the attempt was counted by the counter under `key` that vanishes at `deadline`. -/
def Counted.countedBy (counted : Counted) (key : String) (deadline : Nat) : Bool :=
  counted.hits.any fun h => h.key = key && h.deadline = deadline

def Counted.loginOf (counted : Counted) (email : String) : Bool :=
  match counted.attempt with
  | .login email' _ => casefold email' = casefold email
  | .register _ => false

def Counted.loginFrom (counted : Counted) (ip : String) : Bool :=
  match counted.attempt with
  | .login _ ip' => ip' = ip
  | .register _ => false

/-- In the window-long stretch from `a` on. -/
def Counted.since (counted : Counted) (a : Nat) : Bool :=
  a ≤ counted.time && counted.time < a + rateWindow

/-- What the limiter promises of a state it has come to. -/
structure Tight (s : State) : Prop where
  /-- a counter vanishes a window after the attempt it began with, at the latest -/
  deadline : ∀ key c, s.redis.get s.now key = some c → ∃ counted ∈ s.history, ∃ h ∈ counted.hits,
    h.key = key ∧ h.count = 1 ∧ c.deadline = some h.deadline ∧ s.now < h.deadline ∧
      h.deadline ≤ counted.time + rateWindow
  /-- and no attempt that comes after makes it later -/
  kept : ∀ s', Run casefold s s' → ∀ key c deadline, s.redis.get s.now key = some c →
    c.deadline = some deadline → s'.now < deadline →
      ∃ c', s'.redis.get s'.now key = some c' ∧ c'.deadline = some deadline
  emailLife : ∀ email deadline, (s.letThrough.filter fun counted =>
    counted.countedBy (emailKey casefold email) deadline).length ≤ MAX_LOGINS_PER_EMAIL
  ipLife : ∀ ip deadline, (s.letThrough.filter fun counted =>
    counted.countedBy (ipKey ip) deadline).length ≤ MAX_LOGINS_PER_IP
  emailInterval : ∀ email a, (s.letThrough.filter fun counted =>
    counted.loginOf casefold email && counted.since a).length ≤ 2 * MAX_LOGINS_PER_EMAIL
  ipInterval : ∀ ip a, (s.letThrough.filter fun counted =>
    counted.loginFrom ip && counted.since a).length ≤ 2 * MAX_LOGINS_PER_IP
  apart : ∀ email ip ip', registrationKey ip' ∉ (Attempt.login email ip).keys casefold

end Runs

/-! ## Keys -/

theorem append_ne {p q : String} (n : Nat) (hp : n ≤ p.length) (hq : n ≤ q.length)
    (h : p.toList.take n ≠ q.toList.take n) (a b : String) : p ++ a ≠ q ++ b := by
  have htake : ∀ {p : String}, n ≤ p.length → ∀ a, (p ++ a).toList.take n = p.toList.take n := by
    intro p hp a
    rw [String.toList_append, List.take_append_of_le_length]
    rw [String.length_toList]
    exact hp
  intro heq
  rw [← htake hp a, ← htake hq b, heq] at h
  exact h rfl

section Limits

variable {casefold : String → String}

theorem emailKey_ne_ipKey (email ip : String) : emailKey casefold email ≠ ipKey ip :=
  append_ne 7 (by decide) (by decide) (by decide) _ _

theorem registrationKey_ne_emailKey (ip email : String) :
    registrationKey ip ≠ emailKey casefold email :=
  append_ne 1 (by decide) (by decide) (by decide) _ _

theorem registrationKey_ne_ipKey (ip ip' : String) : registrationKey ip ≠ ipKey ip' :=
  append_ne 1 (by decide) (by decide) (by decide) _ _

/-! ## One event -/

theorem count_eq (now : Nat) (keys : List String) (redis : Counters String) :
    count now keys redis = ((Counters.hits rateWindow now keys redis).1.map Counters.Hit.count,
      (Counters.hits rateWindow now keys redis).2) := by
  obtain ⟨hcounts, hafter⟩ := Counters.pipeline_eq now RATE_WINDOW_SECONDS keys redis
  exact Prod.ext hcounts hafter

theorem step_cases {s s' : State} {e : Event} (h : step casefold s e = some s') :
    s.now ≤ e.time ∧ (s' = { s with now := e.time } ∨
      (∃ attempt, s' = ({ s with now := e.time } : State).counting casefold attempt) ∨
      ∃ counted ∈ s.waiting, s' = ({ s with now := e.time } : State).judging counted) := by
  unfold step at h
  split at h
  · next hle =>
    refine ⟨hle, ?_⟩
    split at h
    · exact Or.inl (Option.some.inj h).symm
    · exact Or.inr (Or.inl ⟨_, (Option.some.inj h).symm⟩)
    · obtain ⟨counted, hcounted, rfl⟩ := Option.map_eq_some_iff.1 h
      exact Or.inr (Or.inr ⟨counted, List.mem_of_getElem? hcounted, rfl⟩)
  · cases h

/-- The clock never goes back. -/
theorem step_now {s s' : State} {e : Event} (h : step casefold s e = some s') :
    s'.now = e.time ∧ s.now ≤ s'.now := by
  obtain ⟨hle, hcases⟩ := step_cases h
  have hnow : s'.now = e.time := by
    rcases hcases with rfl | ⟨attempt, rfl⟩ | ⟨counted, -, rfl⟩
    · rfl
    · rfl
    · unfold State.judging
      split <;> rfl
  exact ⟨hnow, hnow ▸ hle⟩

/-- What is known of every attempt so far. -/
structure Ok (casefold : String → String) (s : State) : Prop where
  windows : Counters.Windows rateWindow s.now s.redis s.hits
  keys : ∀ counted ∈ s.history,
    counted.hits.map Counters.Hit.key = counted.attempt.keys casefold
  counts : ∀ counted ∈ s.history, counted.hits.map Counters.Hit.count = counted.counts
  time : ∀ counted ∈ s.history, ∀ h ∈ counted.hits, h.time = counted.time
  judged : ∀ counted ∈ s.letThrough, refuses counted.attempt counted.counts = false

theorem rateWindow_pos : 0 < rateWindow := by decide

theorem initial_ok : Ok casefold initial where
  windows := Counters.windows_empty rateWindow 0
  keys counted h := by cases h
  counts counted h := by cases h
  time counted h := by cases h
  judged counted h := by cases h

theorem Ok.wait {s : State} (h : Ok casefold s) {time : Nat} (hle : s.now ≤ time) :
    Ok casefold { s with now := time } :=
  { h with windows := h.windows.wait hle }

theorem Ok.counting {s : State} (h : Ok casefold s) (attempt : Attempt) :
    Ok casefold (s.counting casefold attempt) := by
  have hwindows := h.windows.hits rateWindow_pos (attempt.keys casefold)
  have hcount := count_eq s.now (attempt.keys casefold) s.redis
  constructor
  · show Counters.Windows rateWindow s.now (count s.now (attempt.keys casefold) s.redis).2 _
    rw [hcount]
    exact hwindows
  · refine List.forall_mem_cons.2 ⟨?_, h.keys⟩
    exact Counters.hits_key _ _ _ _
  · refine List.forall_mem_cons.2 ⟨?_, h.counts⟩
    show _ = (count s.now (attempt.keys casefold) s.redis).1
    rw [hcount]
  · refine List.forall_mem_cons.2 ⟨?_, h.time⟩
    exact Counters.hits_time _ _ _ _
  · exact h.judged

/-- An attempt that is judged stays in the history. -/
theorem judging_history {s : State} {counted : Counted} (h : counted ∈ s.waiting) :
    (s.judging counted).history.Perm s.history := by
  have hback : (counted :: s.waiting.erase counted ++ s.letThrough ++ s.refused).Perm s.history :=
    ((List.perm_cons_erase h).symm.append_right _).append_right _
  refine List.Perm.trans ?_ hback
  unfold State.judging State.history
  split
  · exact List.perm_middle
  · exact List.perm_middle.append_right _

theorem Ok.judging {s : State} (h : Ok casefold s) {counted : Counted} (hc : counted ∈ s.waiting) :
    Ok casefold (s.judging counted) := by
  have hperm := judging_history hc
  have hkept : (s.judging counted).now = s.now ∧ (s.judging counted).redis = s.redis := by
    unfold State.judging
    split <;> exact ⟨rfl, rfl⟩
  constructor
  · rw [hkept.1, hkept.2]
    exact h.windows.perm (hperm.symm.flatMap_right _)
  · exact fun other hother => h.keys other (hperm.mem_iff.1 hother)
  · exact fun other hother => h.counts other (hperm.mem_iff.1 hother)
  · exact fun other hother => h.time other (hperm.mem_iff.1 hother)
  · intro other hother
    unfold State.judging at hother
    split at hother
    · exact h.judged other hother
    · next hpasses =>
      rcases List.mem_cons.1 hother with rfl | hother
      · exact Bool.not_eq_true _ ▸ hpasses
      · exact h.judged other hother

theorem step_ok {s s' : State} {e : Event} (h : Ok casefold s)
    (hstep : step casefold s e = some s') : Ok casefold s' := by
  obtain ⟨hle, rfl | ⟨attempt, rfl⟩ | ⟨counted, hc, rfl⟩⟩ := step_cases hstep
  · exact h.wait hle
  · exact (h.wait hle).counting attempt
  · exact (h.wait hle).judging hc

theorem run_ok {s s' : State} (h : Ok casefold s) (hrun : Run casefold s s') :
    Ok casefold s' := by
  induction hrun with
  | refl => exact h
  | tail _ hstep ih =>
    obtain ⟨e, he⟩ := hstep
    exact step_ok ih he

/-! ## Deadlines -/

/-- Whoever comes before the deadline finds the counter, and leaves its deadline as it is. -/
theorem step_keeps {s s' : State} {e : Event} (h : Ok casefold s)
    (hstep : step casefold s e = some s') {key : String} {c : Counter} {deadline : Nat}
    (hget : s.redis.get s.now key = some c) (hc : c.deadline = some deadline)
    (hbefore : s'.now < deadline) :
    ∃ c', s'.redis.get s'.now key = some c' ∧ c'.deadline = some deadline := by
  obtain ⟨hle, hcases⟩ := step_cases hstep
  rw [(step_now hstep).1] at hbefore ⊢
  have hlater : s.redis.get e.time key = some c := by
    refine Counters.get_eq_some.2 ⟨(Counters.get_eq_some.1 hget).1, ?_⟩
    rw [hc]
    rintro _ ⟨⟩
    exact hbefore
  rcases hcases with rfl | ⟨attempt, rfl⟩ | ⟨counted, -, rfl⟩
  · exact ⟨c, hlater, hc⟩
  · obtain ⟨c', hc', hdeadline, -⟩ :=
      (h.wait hle).windows.hits_keeps rateWindow_pos (attempt.keys casefold) hlater
    refine ⟨c', ?_, hdeadline.trans hc⟩
    show (count e.time (attempt.keys casefold) s.redis).2.get e.time key = some c'
    rw [count_eq]
    exact hc'
  · refine ⟨c, ?_, hc⟩
    unfold State.judging
    split <;> exact hlater

theorem run_keeps {s s' : State} (h : Ok casefold s) (hrun : Run casefold s s') {key : String}
    {c : Counter} {deadline : Nat} (hget : s.redis.get s.now key = some c)
    (hc : c.deadline = some deadline) (hbefore : s'.now < deadline) :
    ∃ c', s'.redis.get s'.now key = some c' ∧ c'.deadline = some deadline := by
  induction hrun with
  | refl => exact ⟨c, hget, hc⟩
  | tail hrun hstep ih =>
    obtain ⟨e, he⟩ := hstep
    obtain ⟨c', hget', hc'⟩ := ih (Nat.lt_of_le_of_lt (step_now he).2 hbefore)
    exact step_keeps (run_ok h hrun) he hget' hc' hbefore

/-! ## Limits -/

theorem letThrough_sublist (s : State) :
    (s.letThrough.flatMap Counted.hits).Subperm s.hits := by
  unfold State.hits State.history
  rw [List.flatMap_append, List.flatMap_append]
  exact ((List.sublist_append_right _ _).trans (List.sublist_append_left _ _)).subperm

/-- An attempt that is counted has a hit to show for it. -/
theorem length_filter_le {p : Counted → Bool} {q : Counters.Hit String → Bool}
    {attempts : List Counted}
    (h : ∀ counted ∈ attempts, p counted = true → ∃ x ∈ counted.hits, q x = true) :
    (attempts.filter p).length ≤ ((attempts.flatMap Counted.hits).filter q).length := by
  induction attempts with
  | nil => exact Nat.le_refl 0
  | cons counted attempts ih =>
    obtain ⟨hhead, htail⟩ := List.forall_mem_cons.1 h
    have hrest := ih htail
    rw [List.flatMap_cons, List.filter_append, List.length_append, List.filter_cons]
    split
    · next hp =>
      obtain ⟨x, hx, hq⟩ := hhead hp
      have hpos : 0 < (counted.hits.filter q).length :=
        List.length_pos_of_mem (List.mem_filter.2 ⟨hx, hq⟩)
      rw [List.length_cons]
      omega
    · omega

/-- What an attempt that was let through was judged by. -/
theorem Ok.passed {s : State} (h : Ok casefold s) {counted : Counted}
    (hc : counted ∈ s.letThrough) :
    (∃ email ip x y, counted.attempt = .login email ip ∧ counted.hits = [x, y] ∧
      x.key = emailKey casefold email ∧ x.count ≤ MAX_LOGINS_PER_EMAIL ∧
      y.key = ipKey ip ∧ y.count ≤ MAX_LOGINS_PER_IP) ∨
    ∃ ip x, counted.attempt = .register ip ∧ counted.hits = [x] ∧
      x.key = registrationKey ip ∧ x.count ≤ MAX_REGISTRATIONS_PER_IP := by
  have hhistory : counted ∈ s.history :=
    List.mem_append_left _ (List.mem_append_right _ hc)
  have hkeys := h.keys counted hhistory
  have hjudged := h.judged counted hc
  rw [← h.counts counted hhistory] at hjudged
  cases hattempt : counted.attempt with
  | login email ip =>
    rw [hattempt] at hkeys hjudged
    obtain ⟨x, xs, hx, hxkey, hxs⟩ := List.map_eq_cons_iff.1 hkeys
    obtain ⟨y, ys, rfl, hykey, hys⟩ := List.map_eq_cons_iff.1 hxs
    obtain rfl := List.map_eq_nil_iff.1 hys
    rw [hx] at hjudged
    simp only [List.map_cons, List.map_nil, refuses, Bool.or_eq_false_iff,
      decide_eq_false_iff_not, Nat.not_lt] at hjudged
    exact Or.inl ⟨email, ip, x, y, rfl, hx, hxkey, hjudged.1, hykey, hjudged.2⟩
  | register ip =>
    rw [hattempt] at hkeys hjudged
    obtain ⟨x, xs, hx, hxkey, hxs⟩ := List.map_eq_cons_iff.1 hkeys
    obtain rfl := List.map_eq_nil_iff.1 hxs
    rw [hx] at hjudged
    simp only [List.map_cons, List.map_nil, refuses, decide_eq_false_iff_not, Nat.not_lt] at hjudged
    exact Or.inr ⟨ip, x, rfl, hx, hxkey, hjudged⟩

/-- No attempt that was let through found the counter under `key` past `m`. -/
def Below (s : State) (key : String) (m : Nat) : Prop :=
  ∀ counted ∈ s.letThrough, ∀ x ∈ counted.hits, x.key = key → x.count ≤ m

/-- The counters an attempt that was let through was counted under. -/
theorem Ok.hit_cases {s : State} (h : Ok casefold s) {counted : Counted}
    (hc : counted ∈ s.letThrough) {z : Counters.Hit String} (hz : z ∈ counted.hits) :
    ((∃ email, z.key = emailKey casefold email) ∧ z.count ≤ MAX_LOGINS_PER_EMAIL) ∨
    ((∃ ip, z.key = ipKey ip) ∧ z.count ≤ MAX_LOGINS_PER_IP) ∨
    (∃ ip, z.key = registrationKey ip) ∧ z.count ≤ MAX_REGISTRATIONS_PER_IP := by
  rcases h.passed hc with ⟨email, ip, x, y, -, hhits, hx, hxle, hy, hyle⟩ | ⟨ip, x, -, hhits, hx, hxle⟩
  · rw [hhits] at hz
    rcases List.mem_cons.1 hz with rfl | hz
    · exact Or.inl ⟨⟨email, hx⟩, hxle⟩
    · obtain rfl := List.mem_singleton.1 hz
      exact Or.inr (Or.inl ⟨⟨ip, hy⟩, hyle⟩)
  · rw [hhits] at hz
    obtain rfl := List.mem_singleton.1 hz
    exact Or.inr (Or.inr ⟨⟨ip, hx⟩, hxle⟩)

theorem Ok.below_email {s : State} (h : Ok casefold s) (email : String) :
    Below s (emailKey casefold email) MAX_LOGINS_PER_EMAIL := by
  intro counted hc z hz hkey
  rcases h.hit_cases hc hz with ⟨-, hle⟩ | ⟨⟨ip, hip⟩, -⟩ | ⟨⟨ip, hip⟩, -⟩
  · exact hle
  · exact absurd (hkey.symm.trans hip) (emailKey_ne_ipKey _ _)
  · exact absurd (hip.symm.trans hkey) (registrationKey_ne_emailKey _ _)

theorem Ok.below_ip {s : State} (h : Ok casefold s) (ip : String) :
    Below s (ipKey ip) MAX_LOGINS_PER_IP := by
  intro counted hc z hz hkey
  rcases h.hit_cases hc hz with ⟨⟨email, hemail⟩, -⟩ | ⟨-, hle⟩ | ⟨⟨ip', hip⟩, -⟩
  · exact absurd (hemail.symm.trans hkey) (emailKey_ne_ipKey _ _)
  · exact hle
  · exact absurd (hip.symm.trans hkey) (registrationKey_ne_ipKey _ _)

theorem Ok.below_registration {s : State} (h : Ok casefold s) (ip : String) :
    Below s (registrationKey ip) MAX_REGISTRATIONS_PER_IP := by
  intro counted hc z hz hkey
  rcases h.hit_cases hc hz with ⟨⟨email, hemail⟩, -⟩ | ⟨⟨ip', hip⟩, -⟩ | ⟨-, hle⟩
  · exact absurd (hkey.symm.trans hemail) (registrationKey_ne_emailKey _ _)
  · exact absurd (hkey.symm.trans hip) (registrationKey_ne_ipKey _ _)
  · exact hle

theorem Below.count_le {s : State} {key : String} {m : Nat} (hm : Below s key m)
    {x : Counters.Hit String} (hx : x ∈ s.letThrough.flatMap Counted.hits) (hkey : x.key = key) :
    x.count ≤ m := by
  obtain ⟨counted, hc, hx⟩ := List.mem_flatMap.1 hx
  exact hm counted hc x hx hkey

theorem mem_hitsUnder {hits : List (Counters.Hit String)} {key : String}
    {P : Counters.Hit String → Prop} [DecidablePred P] {x : Counters.Hit String}
    (hx : x ∈ hits.filter fun x => decide (x.key = key) && decide (P x)) :
    x ∈ hits ∧ x.key = key ∧ P x := by
  obtain ⟨hx, hq⟩ := List.mem_filter.1 hx
  rw [Bool.and_eq_true, decide_eq_true_eq, decide_eq_true_eq] at hq
  exact ⟨hx, hq⟩

/-- The attempts a counter lets through in its life. -/
theorem Ok.life_le {s : State} (h : Ok casefold s) {key : String} {m : Nat} (hm : Below s key m)
    (deadline : Nat) :
    (s.letThrough.filter fun counted => counted.countedBy key deadline).length ≤ m := by
  refine Nat.le_trans (length_filter_le fun counted _ hby => List.any_eq_true.1 hby) ?_
  exact h.windows.length_le (List.filter_sublist.subperm.trans (letThrough_sublist s))
    (fun x hx => (mem_hitsUnder hx).2.1) (fun x hx => (mem_hitsUnder hx).2.2)
    (fun x hx => hm.count_le (mem_hitsUnder hx).1 (mem_hitsUnder hx).2.1)

/-- The attempts let through in a stretch of time, all counted under one key. -/
theorem Ok.interval_le {s : State} (h : Ok casefold s) {key : String} {m : Nat} (hm : Below s key m)
    {p : Counted → Bool} (a : Nat) (hp : ∀ counted ∈ s.letThrough, p counted = true →
      (∃ x ∈ counted.hits, x.key = key) ∧ counted.since a = true) :
    (s.letThrough.filter p).length ≤ 2 * m := by
  have hhit : ∀ counted ∈ s.letThrough, p counted = true → ∃ x ∈ counted.hits,
      (decide (x.key = key) && decide (a ≤ x.time ∧ x.time < a + rateWindow)) = true := by
    intro counted hc hpc
    obtain ⟨⟨x, hx, hkey⟩, hsince⟩ := hp counted hc hpc
    refine ⟨x, hx, ?_⟩
    have hhistory : counted ∈ s.history := List.mem_append_left _ (List.mem_append_right _ hc)
    rw [h.time counted hhistory x hx, Bool.and_eq_true, decide_eq_true_eq, decide_eq_true_eq]
    unfold Counted.since at hsince
    rw [Bool.and_eq_true, decide_eq_true_eq, decide_eq_true_eq] at hsince
    exact ⟨hkey, hsince⟩
  refine Nat.le_trans (length_filter_le hhit) ?_
  exact h.windows.interval_le (List.filter_sublist.subperm.trans (letThrough_sublist s))
    (fun x hx => (mem_hitsUnder hx).2.1) (fun x hx => (mem_hitsUnder hx).2.2)
    (fun x hx => hm.count_le (mem_hitsUnder hx).1 (mem_hitsUnder hx).2.1)

theorem Ok.email_interval {s : State} (h : Ok casefold s) (email : String) (a : Nat) :
    (s.letThrough.filter fun counted =>
      counted.loginOf casefold email && counted.since a).length ≤ 2 * MAX_LOGINS_PER_EMAIL := by
  refine h.interval_le (h.below_email email) a fun counted hc hp => ?_
  obtain ⟨hlogin, hsince⟩ := Bool.and_eq_true_iff.1 hp
  refine ⟨?_, hsince⟩
  unfold Counted.loginOf at hlogin
  rcases h.passed hc with ⟨email', ip, x, y, hattempt, hhits, hx, -⟩ | ⟨ip, x, hattempt, -⟩
  · rw [hattempt] at hlogin
    have hsame : casefold email' = casefold email := of_decide_eq_true hlogin
    refine ⟨x, by rw [hhits]; exact List.mem_cons_self, ?_⟩
    rw [hx, emailKey, hsame, emailKey]
  · rw [hattempt] at hlogin
    cases hlogin

theorem Ok.ip_interval {s : State} (h : Ok casefold s) (ip : String) (a : Nat) :
    (s.letThrough.filter fun counted =>
      counted.loginFrom ip && counted.since a).length ≤ 2 * MAX_LOGINS_PER_IP := by
  refine h.interval_le (h.below_ip ip) a fun counted hc hp => ?_
  obtain ⟨hlogin, hsince⟩ := Bool.and_eq_true_iff.1 hp
  refine ⟨?_, hsince⟩
  unfold Counted.loginFrom at hlogin
  rcases h.passed hc with ⟨email, ip', x, y, hattempt, hhits, -, -, hy, -⟩ | ⟨ip', x, hattempt, -⟩
  · rw [hattempt] at hlogin
    have hsame : ip' = ip := of_decide_eq_true hlogin
    refine ⟨y, by rw [hhits]; exact List.mem_cons_of_mem _ List.mem_cons_self, ?_⟩
    rw [hy, hsame]
  · rw [hattempt] at hlogin
    cases hlogin

/-- Whatever counter there is began with an attempt, a window ago at the most. -/
theorem Ok.deadline {s : State} (h : Ok casefold s) {key : String} {c : Counter}
    (hget : s.redis.get s.now key = some c) : ∃ counted ∈ s.history, ∃ x ∈ counted.hits,
      x.key = key ∧ x.count = 1 ∧ c.deadline = some x.deadline ∧ s.now < x.deadline ∧
        x.deadline ≤ counted.time + rateWindow := by
  obtain ⟨hc, hlive⟩ := Counters.get_eq_some.1 hget
  obtain ⟨x, hx, hkey, hone, hdeadline⟩ := h.windows.begun key c hc
  have hfirst := h.windows.first x hx hone
  obtain ⟨counted, hcounted, hhit⟩ := List.mem_flatMap.1 hx
  refine ⟨counted, hcounted, x, hhit, hkey, hone, hdeadline, hlive _ hdeadline, ?_⟩
  rw [hfirst, h.time counted hcounted x hhit]

/-- **The login limiter is tight and always releases.** -/
theorem limiter_tight {s : State} (h : Run casefold initial s) : Tight casefold s := by
  have hok := run_ok initial_ok h
  exact
    { deadline := fun _ _ hget => hok.deadline hget
      kept := fun _ hrun _ _ _ hget hc hbefore => run_keeps hok hrun hget hc hbefore
      emailLife := fun email => hok.life_le (hok.below_email email)
      ipLife := fun ip => hok.life_le (hok.below_ip ip)
      emailInterval := hok.email_interval
      ipInterval := hok.ip_interval
      apart := by
        intro email ip ip' hmem
        rcases List.mem_cons.1 hmem with hemail | hip
        · exact registrationKey_ne_emailKey _ _ hemail
        · exact registrationKey_ne_ipKey _ _ (List.mem_singleton.1 hip) }

/-- Registrations are limited by their IP alone. -/
theorem registrations_limited {s : State} (h : Run casefold initial s) (ip : String)
    (deadline : Nat) : (s.letThrough.filter fun counted =>
      counted.countedBy (registrationKey ip) deadline).length ≤ MAX_REGISTRATIONS_PER_IP :=
  have hok := run_ok initial_ok h
  hok.life_le (hok.below_registration ip) deadline

end Limits

def follow (casefold : String → String) (events : List Event) (s : State) : Option State :=
  events.foldlM (step casefold) s

theorem run_of_follow {casefold : String → String} {events : List Event} {s s' : State}
    (h : follow casefold events s = some s') : Run casefold s s' := by
  induction events generalizing s with
  | nil =>
    obtain rfl : s = s' := Option.some.inj h
    exact .refl
  | cons e events ih =>
    unfold follow at h
    rw [List.foldlM_cons] at h
    obtain ⟨s₁, hs₁, hrest⟩ := Option.bind_eq_some_iff.1 h
    exact .head ⟨e, hs₁⟩ (ih hrest)

/-- Eleven guesses at one address, all of them counted before the first is judged. -/
def guesses : List Event :=
  ((List.range 11).map fun i =>
    ⟨i, .count (.login (if i % 2 = 0 then "Alice@example.com" else "alice@example.com") "::1")⟩) ++
  (List.range 11).map fun i => ⟨20 + i, .judge 0⟩

def asciiCasefold (text : String) : String := String.ofList (text.toList.map Char.toLower)

theorem eleven_guesses_tight : ∃ s, follow asciiCasefold guesses initial = some s ∧
    Run asciiCasefold initial s ∧ s.letThrough.length = 10 ∧ s.refused.length = 1 ∧
    Tight asciiCasefold s := by
  have hrun : (follow asciiCasefold guesses initial).any (fun s =>
      s.letThrough.length = 10 && s.refused.length = 1) = true := by decide +kernel
  obtain ⟨s, hs, hlengths⟩ := (Option.any_eq_true _ _).1 hrun
  rw [Bool.and_eq_true, decide_eq_true_eq, decide_eq_true_eq] at hlengths
  have hreached := run_of_follow hs
  exact ⟨s, hs, hreached, hlengths.1, hlengths.2, limiter_tight hreached⟩

/-! ## The services -/

section Services

variable {env : AccountEnv} {n emailAttempts ipAttempts : Nat} (email ip : String)

/-- The service goes by the counts of its own attempt. -/
theorem countLoginAttempt_eq (h : env.loginAttempts n = some (emailAttempts, ipAttempts)) :
    countLoginAttempt env n =
      if refuses (.login email ip) [emailAttempts, ipAttempts] then .raise (.app RateLimitedError)
      else pure () := by
  unfold countLoginAttempt
  rw [h]
  simp [refuses]

/-- A refused login never comes to the password. -/
theorem loginUser_refused [Ledger.Collation]
    (h : env.loginAttempts n = some (emailAttempts, ipAttempts))
    (hrefused : refuses (.login email ip) [emailAttempts, ipAttempts] = true)
    (rawPassword : String) :
    loginUser env n email rawPassword = .raise (.app RateLimitedError) := by
  unfold loginUser
  rw [countLoginAttempt_eq email ip h, hrefused]
  rfl

end Services

end RateLimit

end Tradinghub.Auth
