import Mathlib.Data.List.Perm.Subperm
import Mathlib.Logic.Function.Basic

/-!
# Counters that vanish

Integer counters under keys, as Redis keeps them: INCR starts a missing one at 1 with no deadline,
EXPIRE NX gives a deadline to a counter without one, and a counter vanishes at its deadline.  A hit
is both in one go, so a counter lives for one period from its first hit on, whatever hits it later.
Of a counter's life at most `m` hits are among its first `m`, and no interval as long as a period
meets more than two lives (`Windows.length_le`, `Windows.interval_le`).
-/

/-- Times are whole milliseconds. -/
structure Counter where
  count : Nat
  deadline : Option Nat
  deriving DecidableEq, Repr

abbrev Counters (κ : Type) : Type := κ → Option Counter

namespace Counters

variable {κ : Type}

def empty : Counters κ := fun _ => none

/-- A key vanishes at its deadline. -/
def get (counters : Counters κ) (now : Nat) (key : κ) : Option Counter :=
  (counters key).filter fun c => c.deadline.all fun deadline => now < deadline

inductive Command (κ : Type) where
  | incr (key : κ)
  | expireNX (key : κ) (seconds : Nat)
  deriving DecidableEq, Repr

variable [DecidableEq κ]

def set (counters : Counters κ) (key : κ) (c : Counter) : Counters κ :=
  Function.update counters key (some c)

def exec (now : Nat) : Command κ → Counters κ → Nat × Counters κ
  | .incr key, counters =>
    match counters.get now key with
    | none => (1, counters.set key { count := 1, deadline := none })
    | some c => (c.count + 1, counters.set key { c with count := c.count + 1 })
  | .expireNX key seconds, counters =>
    match counters.get now key with
    | some { count, deadline := none } =>
      (1, counters.set key { count, deadline := some (now + 1000 * seconds) })
    | _ => (0, counters)

/-- All of them at once. -/
def pipeline (now : Nat) : List (Command κ) → Counters κ → List Nat × Counters κ
  | [], counters => ([], counters)
  | command :: commands, counters =>
    let (reply, counters) := exec now command counters
    let (replies, counters) := pipeline now commands counters
    (reply :: replies, counters)

/-! ## Hits -/

/-- The count it came to, and the deadline of the counter it was counted by. -/
structure Hit (κ : Type) where
  key : κ
  time : Nat
  count : Nat
  deadline : Nat
  deriving DecidableEq, Repr

/-- INCR and EXPIRE NX. -/
def hit (period now : Nat) (key : κ) (counters : Counters κ) : Hit κ × Counters κ :=
  match counters.get now key with
  | none =>
    ({ key, time := now, count := 1, deadline := now + period },
      counters.set key { count := 1, deadline := some (now + period) })
  | some c =>
    ({ key, time := now, count := c.count + 1, deadline := c.deadline.getD (now + period) },
      counters.set key
        { count := c.count + 1, deadline := some (c.deadline.getD (now + period)) })

def hits (period now : Nat) : List κ → Counters κ → List (Hit κ) × Counters κ
  | [], counters => ([], counters)
  | key :: keys, counters =>
    let (h, counters) := hit period now key counters
    let (hs, counters) := hits period now keys counters
    (h :: hs, counters)

/-- `l[::2]` -/
def everyOther {α : Type} : List α → List α
  | [] => []
  | [a] => [a]
  | a :: _ :: l => a :: everyOther l

section Pipeline

variable {period now : Nat} {key : κ} {counters : Counters κ}

omit [DecidableEq κ] in
theorem get_eq_some {c : Counter} : counters.get now key = some c ↔
    counters key = some c ∧ ∀ deadline ∈ c.deadline, now < deadline := by
  unfold get
  rw [Option.filter_eq_some_iff, Option.all_eq_true]
  simp

omit [DecidableEq κ] in
theorem get_eq_none : counters.get now key = none ↔
    ∀ c, counters key = some c → ∃ deadline, c.deadline = some deadline ∧ deadline ≤ now := by
  rw [Option.eq_none_iff_forall_ne_some]
  constructor
  · intro h c hc
    have hnot := h c
    rw [Ne, get_eq_some, not_and] at hnot
    simpa using hnot hc
  · intro h c hget
    obtain ⟨hc, hlive⟩ := get_eq_some.1 hget
    obtain ⟨deadline, hdeadline, hle⟩ := h c hc
    have := hlive deadline hdeadline
    omega

theorem get_set_self {c : Counter} (h : ∀ deadline ∈ c.deadline, now < deadline) :
    (counters.set key c).get now key = some c :=
  get_eq_some.2 ⟨Function.update_self key _ counters, h⟩

theorem get_set_of_ne {c : Counter} {key' : κ} (h : key' ≠ key) :
    (counters.set key c).get now key' = counters.get now key' := by
  unfold get set
  rw [Function.update_of_ne h]

theorem set_set (c c' : Counter) : (counters.set key c).set key c' = counters.set key c' :=
  Function.update_idem _ _ _

/-- INCR and EXPIRE NX in a row. -/
theorem hit_eq (now : Nat) (key : κ) (counters : Counters κ) (seconds : Nat) :
    (exec now (.incr key) counters).1 = (hit (1000 * seconds) now key counters).1.count ∧
      (exec now (.expireNX key seconds) (exec now (.incr key) counters).2).2 =
        (hit (1000 * seconds) now key counters).2 := by
  unfold hit
  cases hget : counters.get now key with
  | none =>
    have hnew : (counters.set key { count := 1, deadline := none }).get now key =
        some { count := 1, deadline := none } := get_set_self (by simp)
    simp only [exec, hget, hnew, set_set, and_self]
  | some c =>
    obtain ⟨count, deadline⟩ := c
    have hnew : (counters.set key { count := count + 1, deadline }).get now key =
        some { count := count + 1, deadline } := get_set_self (get_eq_some.1 hget).2
    cases deadline with
    | none => simp only [exec, hget, hnew, set_set, Option.getD_none, and_self]
    | some deadline => simp only [exec, hget, hnew, Option.getD_some, and_self]

theorem pipeline_eq (now seconds : Nat) (keys : List κ) (counters : Counters κ) :
    let result :=
      pipeline now (keys.flatMap fun key => [.incr key, .expireNX key seconds]) counters
    everyOther result.1 = (hits (1000 * seconds) now keys counters).1.map Hit.count ∧
      result.2 = (hits (1000 * seconds) now keys counters).2 := by
  induction keys generalizing counters with
  | nil => exact ⟨rfl, rfl⟩
  | cons key keys ih =>
    obtain ⟨hcount, hafter⟩ := hit_eq now key counters seconds
    obtain ⟨hcounts, hrest⟩ := ih (hit (1000 * seconds) now key counters).2
    rw [← hafter] at hcounts hrest
    simp only [List.flatMap_cons, List.cons_append, List.nil_append, pipeline, hits, everyOther,
      List.map_cons]
    rw [hcounts, hcount, hrest, hafter]
    exact ⟨rfl, rfl⟩

theorem hits_key (period now : Nat) (keys : List κ) (counters : Counters κ) :
    (hits period now keys counters).1.map Hit.key = keys := by
  induction keys generalizing counters with
  | nil => rfl
  | cons key keys ih =>
    have hkey : (hit period now key counters).1.key = key := by
      unfold hit
      split <;> rfl
    rw [hits, List.map_cons, hkey, ih]

theorem hits_time (period now : Nat) (keys : List κ) (counters : Counters κ) :
    ∀ h ∈ (hits period now keys counters).1, h.time = now := by
  induction keys generalizing counters with
  | nil => exact fun h hh => by cases hh
  | cons key keys ih =>
    have htime : (hit period now key counters).1.time = now := by
      unfold hit
      split <;> rfl
    exact List.forall_mem_cons.2 ⟨htime, ih _⟩

end Pipeline

/-! ## Windows -/

/-- What the hits so far say about the counters, and about each other. -/
structure Windows (period now : Nat) (counters : Counters κ) (hs : List (Hit κ)) : Prop where
  /-- every counter has a deadline, one period after the hit it began with -/
  begun : ∀ key c, counters key = some c →
    ∃ h ∈ hs, h.key = key ∧ h.count = 1 ∧ c.deadline = some h.deadline
  first : ∀ h ∈ hs, h.count = 1 → h.deadline = h.time + period
  /-- the counter is the one of the last hit -/
  latest : ∀ h ∈ hs, ∃ c deadline, counters h.key = some c ∧ c.deadline = some deadline ∧
    (h.deadline = deadline ∧ h.count ≤ c.count ∨ h.deadline + period ≤ deadline)
  past : ∀ h ∈ hs, h.time ≤ now
  pos : ∀ h ∈ hs, 1 ≤ h.count
  within : ∀ h ∈ hs, h.time < h.deadline ∧ h.deadline ≤ h.time + period
  once : hs.Pairwise fun h h' => ¬ (h.key = h'.key ∧ h.deadline = h'.deadline ∧ h.count = h'.count)
  apart : ∀ h ∈ hs, ∀ h' ∈ hs, h.key = h'.key → h.deadline < h'.deadline →
    h.deadline + period ≤ h'.deadline

section Windows

variable {period now : Nat} {key : κ} {counters : Counters κ} {hs hs' : List (Hit κ)}

omit [DecidableEq κ] in
theorem windows_empty (period now : Nat) : Windows period now (empty : Counters κ) [] where
  begun key c hc := by cases hc
  first h hh := by cases hh
  latest h hh := by cases hh
  past h hh := by cases hh
  pos h hh := by cases hh
  within h hh := by cases hh
  once := List.Pairwise.nil
  apart h hh := by cases hh

omit [DecidableEq κ] in
theorem Windows.wait {now' : Nat} (hw : Windows period now counters hs) (h : now ≤ now') :
    Windows period now' counters hs :=
  { hw with past := fun h' hh' => Nat.le_trans (hw.past h' hh') h }

omit [DecidableEq κ] in
theorem Windows.perm (hw : Windows period now counters hs) (h : hs.Perm hs') :
    Windows period now counters hs' where
  begun key c hc := by
    obtain ⟨h', hh', hrest⟩ := hw.begun key c hc
    exact ⟨h', h.mem_iff.1 hh', hrest⟩
  first h' hh' := hw.first h' (h.mem_iff.2 hh')
  latest h' hh' := hw.latest h' (h.mem_iff.2 hh')
  past h' hh' := hw.past h' (h.mem_iff.2 hh')
  pos h' hh' := hw.pos h' (h.mem_iff.2 hh')
  within h' hh' := hw.within h' (h.mem_iff.2 hh')
  once := hw.once.perm h fun hne ⟨hkey, hdeadline, hcount⟩ =>
    hne ⟨hkey.symm, hdeadline.symm, hcount.symm⟩
  apart h₁ hh₁ h₂ hh₂ := hw.apart h₁ (h.mem_iff.2 hh₁) h₂ (h.mem_iff.2 hh₂)

/-- A hit begins a new counter, or is one more of the counter that is there. -/
theorem Windows.hit_cases (hw : Windows period now counters hs) (key : κ) :
    (counters.get now key = none ∧
        hit period now key counters =
          ({ key, time := now, count := 1, deadline := now + period },
            counters.set key { count := 1, deadline := some (now + period) })) ∨
      ∃ count deadline, counters key = some { count, deadline := some deadline } ∧ now < deadline ∧
        hit period now key counters =
          ({ key, time := now, count := count + 1, deadline },
            counters.set key { count := count + 1, deadline := some deadline }) := by
  unfold hit
  cases hget : counters.get now key with
  | none => exact Or.inl ⟨rfl, rfl⟩
  | some c =>
    obtain ⟨hc, hlive⟩ := get_eq_some.1 hget
    obtain ⟨h, -, -, -, hdeadline⟩ := hw.begun key c hc
    obtain ⟨count, deadline⟩ := c
    obtain rfl : deadline = some h.deadline := hdeadline
    exact Or.inr ⟨count, h.deadline, hc, hlive _ rfl, rfl⟩

/-- One more hit, the latest of its counter. -/
theorem Windows.cons (hw : Windows period now counters hs) {count deadline : Nat}
    (hlife : now < deadline ∧ deadline ≤ now + period) (hpos : 1 ≤ count)
    (hfirst : count = 1 → deadline = now + period)
    (hbegun : count = 1 ∨ ∃ h ∈ hs, h.key = key ∧ h.count = 1 ∧ h.deadline = deadline)
    (hbefore : ∀ h ∈ hs, h.key = key →
      h.deadline = deadline ∧ h.count < count ∨ h.deadline + period ≤ deadline) :
    Windows period now (counters.set key { count, deadline := some deadline })
      ({ key, time := now, count, deadline } :: hs) := by
  have hself : (counters.set key { count, deadline := some deadline }) key =
      some { count, deadline := some deadline } := Function.update_self key _ counters
  have hother : ∀ key', key' ≠ key →
      (counters.set key { count, deadline := some deadline }) key' = counters key' :=
    fun key' hne => Function.update_of_ne hne _ counters
  constructor
  · intro key' c hc
    by_cases hkey : key' = key
    · rw [hkey, hself] at hc
      obtain rfl := Option.some.inj hc
      rcases hbegun with hone | ⟨h, hh, hhkey, hcount, hdeadline⟩
      · exact ⟨_, List.mem_cons_self, hkey.symm, hone, rfl⟩
      · exact ⟨h, List.mem_cons_of_mem _ hh, hhkey.trans hkey.symm, hcount,
          congrArg some hdeadline.symm⟩
    · rw [hother key' hkey] at hc
      obtain ⟨h, hh, hrest⟩ := hw.begun key' c hc
      exact ⟨h, List.mem_cons_of_mem _ hh, hrest⟩
  · rw [List.forall_mem_cons]
    exact ⟨hfirst, hw.first⟩
  · rw [List.forall_mem_cons]
    refine ⟨⟨_, deadline, hself, rfl, Or.inl ⟨rfl, Nat.le_refl _⟩⟩, fun h hh => ?_⟩
    by_cases hkey : h.key = key
    · have hcounter := hself
      rw [← hkey] at hcounter ⊢
      refine ⟨_, deadline, hcounter, rfl, ?_⟩
      exact (hbefore h hh hkey).imp_left fun hlast => ⟨hlast.1, Nat.le_of_lt hlast.2⟩
    · rw [hother h.key hkey]
      exact hw.latest h hh
  · rw [List.forall_mem_cons]
    exact ⟨Nat.le_refl _, hw.past⟩
  · rw [List.forall_mem_cons]
    exact ⟨hpos, hw.pos⟩
  · rw [List.forall_mem_cons]
    exact ⟨hlife, hw.within⟩
  · refine List.pairwise_cons.2 ⟨?_, hw.once⟩
    rintro h hh ⟨hkey, hdeadline, hcount⟩
    have hlater := hw.within h hh
    have hpast := hw.past h hh
    rcases hbefore h hh hkey.symm with ⟨-, hlt⟩ | hle
    · exact Nat.ne_of_gt hlt hcount
    · have hsame : deadline = h.deadline := hdeadline
      omega
  · intro h hh h' hh' hkey hlt
    rcases List.mem_cons.1 hh with rfl | hh <;> rcases List.mem_cons.1 hh' with rfl | hh'
    · exact absurd hlt (Nat.lt_irrefl _)
    · rcases hbefore h' hh' hkey.symm with ⟨hsame, -⟩ | hle <;> dsimp only at hlt <;> omega
    · rcases hbefore h hh hkey with ⟨hsame, -⟩ | hle
      · exact absurd hlt (Nat.not_lt_of_le (Nat.le_of_eq hsame.symm))
      · exact hle
    · exact hw.apart h hh h' hh' hkey hlt

/-- No counter's life overlaps the one before it. -/
theorem Windows.hit (hw : Windows period now counters hs) (hperiod : 0 < period) (key : κ) :
    Windows period now (hit period now key counters).2 ((hit period now key counters).1 :: hs) := by
  rcases hw.hit_cases key with ⟨hget, hhit⟩ | ⟨count, deadline, hcounter, hlive, hhit⟩
  · rw [hhit]
    refine hw.cons ⟨by omega, Nat.le_refl _⟩ (Nat.le_refl 1) (fun _ => rfl) (Or.inl rfl) ?_
    rintro h hh rfl
    -- what was there has vanished
    obtain ⟨c, deadline, hc, hdeadline, hlast⟩ := hw.latest h hh
    obtain ⟨deadline', hdeadline', hvanished⟩ := get_eq_none.1 hget c hc
    rw [hdeadline] at hdeadline'
    obtain rfl := Option.some.inj hdeadline'
    right
    omega
  · rw [hhit]
    obtain ⟨first, hfirst, hkey, hone, hdeadline⟩ := hw.begun key _ hcounter
    obtain rfl : deadline = first.deadline := Option.some.inj hdeadline
    have hwithin := hw.within first hfirst
    have hpast := hw.past first hfirst
    have hlast : ∀ h ∈ hs, h.key = key →
        h.deadline = first.deadline ∧ h.count ≤ count ∨ h.deadline + period ≤ first.deadline := by
      rintro h hh rfl
      obtain ⟨c, deadline, hc, hcdeadline, hlast⟩ := hw.latest h hh
      rw [hcounter] at hc
      obtain rfl := Option.some.inj hc
      obtain rfl := Option.some.inj hcdeadline
      exact hlast
    refine hw.cons ⟨hlive, by omega⟩ (Nat.succ_pos _) ?_ (Or.inr ⟨first, hfirst, hkey, hone, rfl⟩) ?_
    · -- the counter it adds to has counted one already
      intro hzero
      rcases hlast first hfirst hkey with ⟨-, hle⟩ | hle <;> omega
    · intro h hh hhkey
      exact (hlast h hh hhkey).imp_left fun hsame => ⟨hsame.1, Nat.lt_succ_of_le hsame.2⟩

theorem Windows.hits (hw : Windows period now counters hs) (hperiod : 0 < period) (keys : List κ) :
    Windows period now (hits period now keys counters).2
      ((hits period now keys counters).1 ++ hs) := by
  induction keys generalizing counters hs with
  | nil => exact hw
  | cons key keys ih =>
    refine (ih (hw.hit hperiod key)).perm ?_
    exact List.perm_middle

/-! ## A counter's life -/

/-- No hit moves a deadline, nor takes anything off a count. -/
theorem Windows.hit_keeps (hw : Windows period now counters hs) (key' : κ) {c : Counter}
    (h : counters.get now key = some c) :
    ∃ c', (Counters.hit period now key' counters).2.get now key = some c' ∧
      c'.deadline = c.deadline ∧ c.count ≤ c'.count := by
  obtain ⟨hc, hlive⟩ := get_eq_some.1 h
  by_cases hkey : key = key'
  · obtain rfl := hkey
    rcases hw.hit_cases key with ⟨hget, -⟩ | ⟨count, deadline, hcounter, hnow, hhit⟩
    · rw [hget] at h
      cases h
    · rw [hcounter] at hc
      obtain rfl := Option.some.inj hc
      rw [hhit]
      refine ⟨_, get_set_self ?_, rfl, Nat.le_succ _⟩
      exact hlive
  · refine ⟨c, ?_, rfl, Nat.le_refl _⟩
    rcases hw.hit_cases key' with ⟨-, hhit⟩ | ⟨_, _, -, -, hhit⟩ <;>
      rw [hhit, get_set_of_ne hkey, h]

theorem Windows.hits_keeps (hw : Windows period now counters hs) (hperiod : 0 < period)
    (keys : List κ) {c : Counter} (h : counters.get now key = some c) :
    ∃ c', (Counters.hits period now keys counters).2.get now key = some c' ∧
      c'.deadline = c.deadline ∧ c.count ≤ c'.count := by
  induction keys generalizing counters hs c with
  | nil => exact ⟨c, h, rfl, Nat.le_refl _⟩
  | cons key' keys ih =>
    obtain ⟨c', hc', hdeadline, hcount⟩ := hw.hit_keeps key' h
    obtain ⟨c'', hc'', hdeadline', hcount'⟩ := ih (hw.hit hperiod key') hc'
    exact ⟨c'', hc'', hdeadline'.trans hdeadline, Nat.le_trans hcount hcount'⟩

end Windows

section Counting

variable {period now m : Nat} {key : κ} {counters : Counters κ} {hs l : List (Hit κ)}

omit [DecidableEq κ] in
/-- Of one life at most `m` hits are among its first `m`. -/
theorem Windows.length_le (hw : Windows period now counters hs) (hsub : l.Subperm hs)
    {deadline : Nat} (hkey : ∀ x ∈ l, x.key = key)
    (hdeadline : ∀ x ∈ l, x.deadline = deadline) (hcount : ∀ x ∈ l, x.count ≤ m) :
    l.length ≤ m := by
  have honce : (l.map Hit.count).Nodup := by
    obtain ⟨hits, hperm, hsublist⟩ := hsub
    have hpairwise := (hw.once.sublist hsublist).perm hperm fun hne ⟨hkey, hdeadline, hcount⟩ =>
      hne ⟨hkey.symm, hdeadline.symm, hcount.symm⟩
    rw [List.Nodup, List.pairwise_map]
    refine hpairwise.imp_of_mem fun {x y} hx hy hne hsame => ?_
    exact hne ⟨(hkey x hx).trans (hkey y hy).symm, (hdeadline x hx).trans (hdeadline y hy).symm,
      hsame⟩
  have hrange : (l.map Hit.count) ⊆ List.range' 1 m := by
    intro count hmem
    obtain ⟨x, hx, rfl⟩ := List.mem_map.1 hmem
    have hle := hcount x hx
    have hpos := hw.pos _ (hsub.subset hx)
    rw [List.mem_range'_1]
    omega
  simpa using (honce.subperm hrange).length_le

omit [DecidableEq κ] in
/-- Deadlines less than a period apart are one. -/
theorem Windows.deadline_eq (hw : Windows period now counters hs) {h h' : Hit κ} (hh : h ∈ hs)
    (hh' : h' ∈ hs) (hkey : h.key = h'.key) (hlt : h.deadline < h'.deadline + period)
    (hlt' : h'.deadline < h.deadline + period) : h.deadline = h'.deadline := by
  rcases Nat.lt_trichotomy h.deadline h'.deadline with hbefore | hsame | hafter
  · have := hw.apart h hh h' hh' hkey hbefore
    omega
  · exact hsame
  · have := hw.apart h' hh' h hh hkey.symm hafter
    omega

omit [DecidableEq κ] in
/-- Hits whose deadlines are within a period of each other are of one life. -/
theorem Windows.span_le (hw : Windows period now counters hs) (hsub : l.Subperm hs) {b : Nat}
    (hkey : ∀ x ∈ l, x.key = key) (hspan : ∀ x ∈ l, b < x.deadline ∧ x.deadline ≤ b + period)
    (hcount : ∀ x ∈ l, x.count ≤ m) : l.length ≤ m := by
  cases l with
  | nil => exact Nat.zero_le m
  | cons x₀ rest =>
    have hx₀ : x₀ ∈ x₀ :: rest := List.mem_cons_self
    have hsame : ∀ x ∈ x₀ :: rest, x.deadline = x₀.deadline := by
      intro x hx
      have hspan₀ := hspan x₀ hx₀
      have hspanx := hspan x hx
      exact hw.deadline_eq (hsub.subset hx) (hsub.subset hx₀)
        ((hkey x hx).trans (hkey x₀ hx₀).symm) (by omega) (by omega)
    exact hw.length_le hsub hkey hsame hcount

omit [DecidableEq κ] in
/-- An interval as long as a period meets at most two lives. -/
theorem Windows.interval_le (hw : Windows period now counters hs) (hsub : l.Subperm hs) {a : Nat}
    (hkey : ∀ x ∈ l, x.key = key) (htime : ∀ x ∈ l, a ≤ x.time ∧ x.time < a + period)
    (hcount : ∀ x ∈ l, x.count ≤ m) : l.length ≤ 2 * m := by
  have hfilter : ∀ (p : Hit κ → Bool) b, (∀ x ∈ l, p x = true → b < x.deadline ∧
      x.deadline ≤ b + period) → (l.filter p).length ≤ m := by
    intro p b hspan
    have hmem : ∀ x ∈ l.filter p, x ∈ l := fun x hx => (List.mem_filter.1 hx).1
    have hends : ∀ x ∈ l.filter p, b < x.deadline ∧ x.deadline ≤ b + period :=
      fun x hx => hspan x (hmem x hx) (List.mem_filter.1 hx).2
    exact hw.span_le (List.filter_sublist.subperm.trans hsub)
      (fun x hx => hkey x (hmem x hx)) hends (fun x hx => hcount x (hmem x hx))
  -- a life that the interval meets ends in the period from `a` on, or in the one after it
  have hearly := hfilter (fun x => x.deadline ≤ a + period) a fun x hx hle => by
    have hlife := hw.within _ (hsub.subset hx)
    have hmeets := htime x hx
    have hend := of_decide_eq_true hle
    omega
  have hlate := hfilter (fun x => !decide (x.deadline ≤ a + period)) (a + period)
    fun x hx hgt => by
      have hlife := hw.within _ (hsub.subset hx)
      have hmeets := htime x hx
      rw [Bool.not_eq_true', decide_eq_false_iff_not] at hgt
      omega
  have hsplit := List.length_eq_length_filter_add (l := l)
    fun x => decide (x.deadline ≤ a + period)
  omega

end Counting

/-! ## No gaps -/

/-- Every count was come to one hit at a time. -/
structure Filled (counters : Counters κ) (hs : List (Hit κ)) : Prop where
  before : ∀ h ∈ hs, 1 < h.count → ∃ h' ∈ hs, h'.key = h.key ∧ h'.deadline = h.deadline ∧
    h'.count + 1 = h.count ∧ h'.time ≤ h.time
  last : ∀ key c, counters key = some c → ∃ h ∈ hs, h.key = key ∧ c.deadline = some h.deadline ∧
    h.count = c.count

section Filled

variable {period now : Nat} {key : κ} {counters : Counters κ} {hs hs' : List (Hit κ)}

omit [DecidableEq κ] in
theorem filled_empty : Filled (empty : Counters κ) [] where
  before h hh := by cases hh
  last key c hc := by cases hc

omit [DecidableEq κ] in
theorem Filled.perm (hf : Filled counters hs) (h : hs.Perm hs') : Filled counters hs' where
  before x hx hlt := by
    obtain ⟨y, hy, hrest⟩ := hf.before x (h.mem_iff.2 hx) hlt
    exact ⟨y, h.mem_iff.1 hy, hrest⟩
  last key c hc := by
    obtain ⟨y, hy, hrest⟩ := hf.last key c hc
    exact ⟨y, h.mem_iff.1 hy, hrest⟩

theorem Filled.cons (hf : Filled counters hs) {count deadline : Nat}
    (hbefore : 1 < count → ∃ h ∈ hs, h.key = key ∧ h.deadline = deadline ∧ h.count + 1 = count ∧
      h.time ≤ now) :
    Filled (counters.set key { count, deadline := some deadline })
      ({ key, time := now, count, deadline } :: hs) := by
  constructor
  · intro x hx hlt
    rcases List.mem_cons.1 hx with rfl | hx
    · obtain ⟨y, hy, hrest⟩ := hbefore hlt
      exact ⟨y, List.mem_cons_of_mem _ hy, hrest⟩
    · obtain ⟨y, hy, hrest⟩ := hf.before x hx hlt
      exact ⟨y, List.mem_cons_of_mem _ hy, hrest⟩
  · intro key' c hc
    by_cases hkey : key' = key
    · subst hkey
      obtain rfl := Option.some.inj ((Function.update_self key' _ counters).symm.trans hc)
      exact ⟨_, List.mem_cons_self, rfl, rfl, rfl⟩
    · unfold set at hc
      rw [Function.update_of_ne hkey] at hc
      obtain ⟨y, hy, hrest⟩ := hf.last key' c hc
      exact ⟨y, List.mem_cons_of_mem _ hy, hrest⟩

theorem Filled.hit (hf : Filled counters hs) (hw : Windows period now counters hs) (key : κ) :
    Filled (hit period now key counters).2 ((hit period now key counters).1 :: hs) := by
  rcases hw.hit_cases key with ⟨-, hhit⟩ | ⟨count, deadline, hcounter, -, hhit⟩
  · rw [hhit]
    exact hf.cons fun hlt => absurd hlt (Nat.lt_irrefl 1)
  · rw [hhit]
    refine hf.cons fun _ => ?_
    obtain ⟨y, hy, hkey, hdeadline, hcount⟩ := hf.last key _ hcounter
    exact ⟨y, hy, hkey, (Option.some.inj hdeadline).symm, congrArg (· + 1) hcount, hw.past y hy⟩

theorem Filled.hits (hf : Filled counters hs) (hw : Windows period now counters hs)
    (hperiod : 0 < period) (keys : List κ) :
    Filled (hits period now keys counters).2 ((hits period now keys counters).1 ++ hs) := by
  induction keys generalizing counters hs with
  | nil => exact hf
  | cons key keys ih =>
    refine (ih (hf.hit hw key) (hw.hit hperiod key)).perm ?_
    exact List.perm_middle

omit [DecidableEq κ] in
/-- All the counts below a hit's, in the same life. -/
theorem Filled.below (hf : Filled counters hs) {x : Hit κ} (hx : x ∈ hs) {i : Nat} (hi : 1 ≤ i)
    (hle : i ≤ x.count) : ∃ y ∈ hs, y.key = x.key ∧ y.deadline = x.deadline ∧ y.count = i ∧
      y.time ≤ x.time := by
  obtain ⟨d, hd⟩ := Nat.exists_eq_add_of_le hle
  induction d generalizing x with
  | zero => exact ⟨x, hx, rfl, rfl, hd, Nat.le_refl _⟩
  | succ d ih =>
    obtain ⟨y, hy, hkey, hdeadline, hcount, htime⟩ := hf.before x hx (by omega)
    obtain ⟨z, hz, hzkey, hzdeadline, hzcount, hztime⟩ := ih hy (by omega) (by omega)
    exact ⟨z, hz, hzkey.trans hkey, hzdeadline.trans hdeadline, hzcount, Nat.le_trans hztime htime⟩

end Filled

end Counters
