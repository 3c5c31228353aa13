import Mathlib.Data.List.Basic
import Mathlib.Data.List.Pairwise

/-!
# A browser's cookies

A browser keeps a cookie under its name, domain and path until it has lived for its `Max-Age`: a
`Set-Cookie` replaces the cookie with all three the same, and no other; one that has no time to live
only removes it.  A request carries the cookies that are still alive and whose path, `Secure` and
`SameSite` let them.  So the jar is a finite map (`under_receive`), and a name that is only ever used
with one domain and path has one value at a time (`value_sent`).  Every cookie of a jar is of the
host in question.
-/

inductive SameSite where
  | strict
  | lax
  | none
  deriving DecidableEq, Repr

/-- What a `Set-Cookie` header says.  Seconds to live. -/
structure SetCookie where
  name : String
  value : String
  maxAge : Int
  path : String
  domain : Option String
  secure : Bool
  httpOnly : Bool
  sameSite : SameSite
  deriving DecidableEq, Repr

/-- What a cookie is kept under. -/
structure CookieKey where
  name : String
  path : String
  domain : Option String
  deriving DecidableEq, Repr

def SetCookie.key (c : SetCookie) : CookieKey := ⟨c.name, c.path, c.domain⟩

structure StoredCookie where
  cookie : SetCookie
  /-- in microseconds -/
  expires : Int
  deriving DecidableEq, Repr

abbrev CookieJar : Type := List StoredCookie

/-- How a request is made. -/
structure CookieRequest where
  path : String
  https : Bool
  /-- from a page of the same site -/
  sameSite : Bool
  /-- a link that is followed, with a method that changes nothing -/
  navigates : Bool
  deriving DecidableEq, Repr

/-- The path itself, or one below it. -/
def pathMatches (cookiePath requestPath : String) : Bool :=
  requestPath = cookiePath ||
    (cookiePath.toList.isPrefixOf requestPath.toList &&
      (cookiePath.toList.getLast? = some '/' ||
        requestPath.toList[cookiePath.length]? = some '/'))

def SetCookie.goesWith (c : SetCookie) (request : CookieRequest) : Bool :=
  pathMatches c.path request.path && (!c.secure || request.https) &&
    match c.sameSite with
    | .strict => request.sameSite
    | .lax => request.sameSite || request.navigates
    | .none => true

namespace CookieJar

def receive (now : Int) (c : SetCookie) (jar : CookieJar) : CookieJar :=
  let rest := jar.filter fun d => d.cookie.key ≠ c.key
  if 0 < c.maxAge then { cookie := c, expires := now + c.maxAge * 1000000 } :: rest else rest

/-- All the cookies of a response. -/
def receiveAll (now : Int) (cs : List SetCookie) (jar : CookieJar) : CookieJar :=
  cs.foldl (fun jar c => jar.receive now c) jar

/-- Still alive, and sent with such a request. -/
def goes (now : Int) (request : CookieRequest) (d : StoredCookie) : Bool :=
  now < d.expires && d.cookie.goesWith request

/-- What goes with a request. -/
def sent (now : Int) (request : CookieRequest) (jar : CookieJar) : List (String × String) :=
  (jar.filter (goes now request)).map fun d => (d.cookie.name, d.cookie.value)

/-- What the scripts of a page can read. -/
def readable (now : Int) (jar : CookieJar) : List (String × String) :=
  (jar.filter fun d => now < d.expires && !d.cookie.httpOnly).map fun d =>
    (d.cookie.name, d.cookie.value)

/-- One of the cookies of a request.  The last of a name counts. -/
def value (cookies : List (String × String)) (name : String) : Option String :=
  (cookies.reverse.find? fun c => c.1 = name).map Prod.snd

/-- The cookie that is kept under a key. -/
def under (key : CookieKey) (jar : CookieJar) : Option StoredCookie :=
  jar.find? fun d => d.cookie.key = key

section Receiving

variable {now : Int} {c : SetCookie} {jar : CookieJar} {key : CookieKey} {name : String}

theorem under_eq_some {d : StoredCookie} (h : jar.under key = some d) :
    d ∈ jar ∧ d.cookie.key = key :=
  ⟨List.mem_of_find?_eq_some h, of_decide_eq_true (List.find?_some
    (p := fun d : StoredCookie => decide (d.cookie.key = key)) h)⟩

theorem under_rest : (jar.filter fun d => d.cookie.key ≠ c.key).find?
    (fun d => d.cookie.key = key) = if c.key = key then none else jar.under key := by
  rw [List.find?_filter]
  by_cases hkey : c.key = key
  · rw [if_pos hkey, List.find?_eq_none]
    intro d _ hd
    simp only [decide_eq_true_eq] at hd
    exact hd.1 (hd.2.trans hkey.symm)
  · rw [if_neg hkey, under]
    congr 1
    funext d
    by_cases hd : d.cookie.key = key
    · simp [hd, Ne.symm hkey]
    · simp [hd]

/-- **One cookie is replaced, and no other.** -/
theorem under_receive : (jar.receive now c).under key =
    if c.key = key then
      if 0 < c.maxAge then some { cookie := c, expires := now + c.maxAge * 1000000 } else none
    else jar.under key := by
  have hrest : (jar.filter fun d => d.cookie.key ≠ c.key).find? (fun d => d.cookie.key = key) =
      if c.key = key then none else jar.under key := under_rest
  unfold receive
  rw [under]
  dsimp only
  by_cases hage : 0 < c.maxAge
  · rw [if_pos hage, if_pos hage]
    by_cases hkey : c.key = key
    · rw [if_pos hkey, List.find?_cons_of_pos]
      exact decide_eq_true hkey
    · rw [if_neg hkey, List.find?_cons_of_neg, hrest, if_neg hkey]
      simpa using hkey
  · rw [if_neg hage, if_neg hage]
    exact hrest

theorem mem_receive {d : StoredCookie} (h : d ∈ jar.receive now c) : d ∈ jar ∨ d.cookie = c := by
  unfold receive at h
  dsimp only at h
  split at h
  · rcases List.mem_cons.1 h with rfl | h
    · exact Or.inr rfl
    · exact Or.inl (List.mem_filter.1 h).1
  · exact Or.inl (List.mem_filter.1 h).1

/-- No two cookies have one key. -/
def Distinct (jar : CookieJar) : Prop := (jar.map fun d => d.cookie.key).Nodup

theorem Distinct.receive (h : jar.Distinct) : (jar.receive now c).Distinct := by
  have hrest : ((jar.filter fun d => d.cookie.key ≠ c.key).map fun d => d.cookie.key).Nodup :=
    h.sublist (List.filter_sublist.map _)
  unfold CookieJar.receive Distinct
  dsimp only
  split
  · refine List.nodup_cons.2 ⟨fun hmem => ?_, hrest⟩
    obtain ⟨d, hd, hkey⟩ := List.mem_map.1 hmem
    exact of_decide_eq_true (List.mem_filter.1 hd).2 hkey
  · exact hrest

theorem Distinct.eq (h : jar.Distinct) {d d' : StoredCookie} (hd : d ∈ jar) (hd' : d' ∈ jar)
    (hkey : d.cookie.key = d'.cookie.key) : d = d' := by
  by_contra hne
  have hsymm : Std.Symm fun d d' : StoredCookie => d.cookie.key ≠ d'.cookie.key :=
    ⟨fun _ _ => Ne.symm⟩
  exact (List.pairwise_map.1 h).forall hd hd' hne hkey

/-- The name is only ever used with this path and domain. -/
def Only (jar : CookieJar) (key : CookieKey) : Prop :=
  ∀ d ∈ jar, d.cookie.name = key.name → d.cookie.key = key

theorem Only.receive (h : jar.Only key) (hc : c.name = key.name → c.key = key) :
    (jar.receive now c).Only key := by
  intro d hd hname
  rcases mem_receive hd with hold | rfl
  · exact h d hold hname
  · exact hc hname

section All

variable {cs : List SetCookie}

theorem Distinct.receiveAll (h : jar.Distinct) : (jar.receiveAll now cs).Distinct := by
  induction cs generalizing jar with
  | nil => exact h
  | cons c cs ih => exact ih h.receive

theorem Only.receiveAll (h : jar.Only key) (hcs : ∀ c ∈ cs, c.name = key.name → c.key = key) :
    (jar.receiveAll now cs).Only key := by
  induction cs generalizing jar with
  | nil => exact h
  | cons c cs ih =>
    obtain ⟨hc, hcs⟩ := List.forall_mem_cons.1 hcs
    exact ih (h.receive hc) hcs

theorem under_receiveAll_of_ne (hcs : ∀ c ∈ cs, c.key ≠ key) :
    (jar.receiveAll now cs).under key = jar.under key := by
  induction cs generalizing jar with
  | nil => rfl
  | cons c cs ih =>
    obtain ⟨hc, hcs⟩ := List.forall_mem_cons.1 hcs
    have hrest : ((jar.receive now c).receiveAll now cs).under key =
        (jar.receive now c).under key := ih hcs
    rw [under_receive, if_neg hc] at hrest
    exact hrest

theorem under_receiveAll (hkeys : (cs.map SetCookie.key).Nodup) (hc : c ∈ cs) :
    (jar.receiveAll now cs).under c.key =
      if 0 < c.maxAge then some { cookie := c, expires := now + c.maxAge * 1000000 } else none := by
  induction cs generalizing jar with
  | nil => exact absurd hc List.not_mem_nil
  | cons d cs ih =>
    obtain ⟨hd, hkeys⟩ := List.nodup_cons.1 hkeys
    rcases List.mem_cons.1 hc with rfl | hc
    · have hlast : ((jar.receive now c).receiveAll now cs).under c.key =
          (jar.receive now c).under c.key :=
        under_receiveAll_of_ne fun e he hkey => hd (List.mem_map.2 ⟨e, he, hkey⟩)
      rw [under_receive, if_pos rfl] at hlast
      exact hlast
    · exact ih hkeys hc

end All

theorem value_eq_some {request : CookieRequest} {v : String}
    (h : value (jar.sent now request) name = some v) :
    ∃ d ∈ jar, goes now request d = true ∧ d.cookie.name = name ∧ d.cookie.value = v := by
  obtain ⟨c, hc, rfl⟩ := Option.map_eq_some_iff.1 h
  obtain ⟨d, hd, rfl⟩ := List.mem_map.1 (List.mem_reverse.1 (List.mem_of_find?_eq_some hc))
  obtain ⟨hd, hgoes⟩ := List.mem_filter.1 hd
  exact ⟨d, hd, hgoes, of_decide_eq_true (List.find?_some
    (p := fun c : String × String => decide (c.1 = name)) hc), rfl⟩

theorem value_ne_none {request : CookieRequest} {d : StoredCookie} (hd : d ∈ jar)
    (hgoes : goes now request d = true) :
    value (jar.sent now request) d.cookie.name ≠ none := by
  intro hnone
  have hmem : (d.cookie.name, d.cookie.value) ∈ jar.sent now request :=
    List.mem_map.2 ⟨d, List.mem_filter.2 ⟨hd, hgoes⟩, rfl⟩
  exact List.find?_eq_none.1 (Option.map_eq_none_iff.1 hnone) _ (List.mem_reverse.2 hmem)
    (decide_eq_true rfl)

/-- The one cookie of its name. -/
theorem Only.under (honly : jar.Only key) (hdistinct : jar.Distinct) {d : StoredCookie}
    (hd : d ∈ jar) (hname : d.cookie.name = key.name) : jar.under key = some d := by
  have hkey := honly d hd hname
  cases hd' : jar.under key with
  | none => exact absurd (decide_eq_true hkey) (List.find?_eq_none.1 hd' d hd)
  | some d' =>
    obtain ⟨hmem, hkey'⟩ := under_eq_some hd'
    rw [hdistinct.eq hmem hd (hkey'.trans hkey.symm)]

/-- **The value of a name** that is used with one path and one domain. -/
theorem value_sent (hdistinct : jar.Distinct) (honly : jar.Only key) (request : CookieRequest) :
    value (jar.sent now request) key.name =
      ((jar.under key).filter (goes now request)).map fun d => d.cookie.value := by
  cases hvalue : value (jar.sent now request) key.name with
  | some v =>
    obtain ⟨d, hd, hgoes, hname, rfl⟩ := value_eq_some hvalue
    rw [honly.under hdistinct hd hname, Option.filter_some, if_pos hgoes]
    rfl
  | none =>
    cases hd : jar.under key with
    | none => rfl
    | some d =>
      obtain ⟨hmem, hkey⟩ := under_eq_some hd
      rw [Option.filter_some]
      split
      · next hgoes =>
        have hname : d.cookie.name = key.name := congrArg CookieKey.name hkey
        exact absurd (hname ▸ hvalue) (value_ne_none hmem hgoes)
      · rfl

end Receiving

end CookieJar
