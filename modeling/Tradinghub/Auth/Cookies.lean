import Tradinghub.Auth.Accounts
import Tradinghub.Lib.CookieJar
import Tradinghub.Lib.IntText

/-!
# The two cookies, and who is calling

A sign-in and a refresh answer with two cookies, a logout with the same two expired (`routes.py`),
and `dependencies.py` reads the caller from one of them.  Whatever answers a browser receives, its
jar is the pair of the last of them, or nothing after a logout (`cookies_follow`).  So the caller is
the user that pair was minted for, until the token expires, and has shown a password
(`caller_identified`).
-/

namespace Tradinghub.Auth

open ReadCommitted
open Ledger (Collation)

/-! ## Settings (`core/config.py`) -/

inductive Environment where
  | development
  | production
  deriving DecidableEq, Repr

/-- Production does not start when it would send cookies over plain HTTP. -/
structure Settings where
  cookieDomain : Option String
  cookieSecure : Bool
  environment : Environment
  secure_in_production : environment = .production → cookieSecure = true

/-! ## Setting and clearing (`routes.py`) -/

def ACCESS_COOKIE : String := "access_token"

def REFRESH_COOKIE : String := "refresh_token"

def REFRESH_PATH : String := "/auth"

def ACCESS_MAX_AGE : Int := ACCESS_TOKEN_LIFETIME / second

def REFRESH_MAX_AGE : Int := REFRESH_TOKEN_LIFETIME / second

/-- The flags live here so setting and clearing cannot disagree. -/
def setCookie (settings : Settings) (name value : String) (maxAge : Int) (path : String) :
    SetCookie where
  name := name
  value := value
  maxAge := maxAge
  path := path
  domain := settings.cookieDomain
  secure := settings.cookieSecure
  httpOnly := true
  sameSite := .lax

def setAuthCookies (settings : Settings) (tokenPair : TokenPair) : List SetCookie :=
  [setCookie settings ACCESS_COOKIE tokenPair.accessToken ACCESS_MAX_AGE "/",
    setCookie settings REFRESH_COOKIE tokenPair.refreshToken REFRESH_MAX_AGE REFRESH_PATH]

def clearAuthCookies (settings : Settings) : List SetCookie :=
  [setCookie settings ACCESS_COOKIE "" 0 "/", setCookie settings REFRESH_COOKIE "" 0 REFRESH_PATH]

/-- The cookies an answer carries.  An error response is a new one, without any. -/
def answerCookies (settings : Settings) : Except Failure Reply → List SetCookie
  | .ok (.signedIn _ pair) => setAuthCookies settings pair
  | .ok (.refreshed pair) => setAuthCookies settings pair
  | .ok .loggedOut => clearAuthCookies settings
  | .ok (.account _) => []
  | .error _ => []

/-! ## Reading (`security/tokens.py`, `dependencies.py`) -/

/-- What a token that verifies says, in seconds. -/
structure Payload where
  sub : Option String
  iat : Option Int
  exp : Option Int
  deriving DecidableEq, Repr

/-- The library that signs and verifies.  What it has signed it reads again; times are cut to whole
seconds. -/
structure Jwt (env : Env) where
  verify : String → Option Payload
  verify_empty : verify "" = none
  verify_encode : ∀ claims, verify (env.jwtEncode claims) = some
    { sub := some claims.sub, iat := some (claims.iat / second), exp := some (claims.exp / second) }

section Reading

variable [Unicode] {env : Env}

/-- The user id of a usable token: all three claims there, issued by now and not expired. -/
def decodeAccessToken (jwt : Jwt env) (now : Int) (accessToken : String) : Option Int := do
  let claims ← jwt.verify accessToken
  let sub ← claims.sub
  let iat ← claims.iat
  let exp ← claims.exp
  if now < iat * second then none
  else if exp * second ≤ now then none
  else IntText.int sub.toList

def getCurrentUserClaims (jwt : Jwt env) (now : Int) (cookies : List (String × String)) :
    Except AppError Int :=
  let accessToken := CookieJar.value cookies ACCESS_COOKIE
  let claims := accessToken.bind fun t => if t = "" then none else decodeAccessToken jwt now t
  match claims with
  | none => .error InvalidSessionError
  | some userId => .ok userId

end Reading

/-! ## A browser -/

structure Browser where
  jar : CookieJar := []
  /-- the answers it has received and when, the last first -/
  received : List (Int × Except Failure Reply) := []

def Browser.receive (settings : Settings) (now : Int) (answer : Except Failure Reply)
    (b : Browser) : Browser where
  jar := b.jar.receiveAll now (answerCookies settings answer)
  received := (now, answer) :: b.received

/-- The pair the answers leave a browser with, and when it came. -/
def heldPair : List (Int × Except Failure Reply) → Option (Int × TokenPair)
  | [] => none
  | (at', .ok (.signedIn _ pair)) :: _ => some (at', pair)
  | (at', .ok (.refreshed pair)) :: _ => some (at', pair)
  | (_, .ok .loggedOut) :: _ => none
  | (_, .ok (.account _)) :: earlier => heldPair earlier
  | (_, .error _) :: earlier => heldPair earlier

/-- The server takes steps, and the browser receives its answers, and cookies of other names. -/
inductive Browses [Collation] (env : AccountEnv) (settings : Settings) :
    AccountSystem → Browser → Prop
  | init : Browses env settings noAccounts {}
  | server {s s' : AccountSystem} {b : Browser} {a : Action (Nat ⊕ String) Failure Endpoint}
      (h : Browses env settings s b) (hs : step authEngine (handleAccount env) s a = some s') :
      Browses env settings s' b
  | answered {s : AccountSystem} {b : Browser} {n : Nat} {endpoint : Endpoint}
      {answer : Except Failure Reply} (h : Browses env settings s b)
      (he : (n, endpoint, answer) ∈ s.world.log) :
      Browses env settings s (b.receive settings s.world.clock answer)
  | other {s : AccountSystem} {b : Browser} (h : Browses env settings s b) (c : SetCookie)
      (haccess : c.name ≠ ACCESS_COOKIE) (hrefresh : c.name ≠ REFRESH_COOKIE) :
      Browses env settings s { b with jar := b.jar.receive s.world.clock c }

/-! ## The jar is what the answers say -/

/-- One of the two cookies. -/
structure AuthCookie where
  name : String
  maxAge : Int
  path : String
  token : TokenPair → String

def accessCookie : AuthCookie where
  name := ACCESS_COOKIE
  maxAge := ACCESS_MAX_AGE
  path := "/"
  token := TokenPair.accessToken

def refreshCookie : AuthCookie where
  name := REFRESH_COOKIE
  maxAge := REFRESH_MAX_AGE
  path := REFRESH_PATH
  token := TokenPair.refreshToken

def authCookies : List AuthCookie := [accessCookie, refreshCookie]

namespace AuthCookie

def key (settings : Settings) (c : AuthCookie) : CookieKey := ⟨c.name, c.path, settings.cookieDomain⟩

/-- The cookie as a browser keeps it. -/
def stored (settings : Settings) (c : AuthCookie) (held : Int × TokenPair) : StoredCookie where
  cookie := setCookie settings c.name (c.token held.2) c.maxAge c.path
  expires := held.1 + c.maxAge * second

/-- The request may carry the cookie. -/
def admits (settings : Settings) (c : AuthCookie) (request : CookieRequest) : Bool :=
  pathMatches c.path request.path && (!settings.cookieSecure || request.https) &&
    (request.sameSite || request.navigates)

end AuthCookie

/-- The jar has the cookie of the held pair, and no other of its name. -/
structure Mirrors (settings : Settings) (b : Browser) (c : AuthCookie) : Prop where
  only : b.jar.Only (c.key settings)
  under : b.jar.under (c.key settings) = (heldPair b.received).map (c.stored settings)

section Jar

variable {settings : Settings} {b : Browser} {c : AuthCookie} (now : Int)

theorem authCookie_ext {c d : AuthCookie} (hc : c ∈ authCookies) (hd : d ∈ authCookies)
    (hname : c.name = d.name) : c = d := by
  simp only [authCookies, List.mem_cons, List.not_mem_nil, or_false] at hc hd
  rcases hc with rfl | rfl <;> rcases hd with rfl | rfl
  · rfl
  · exact absurd hname (by decide)
  · exact absurd hname (by decide)
  · rfl

/-- Both cookies, with these values and times to live. -/
def bothCookies (settings : Settings) (value : AuthCookie → String) (maxAge : AuthCookie → Int) :
    List SetCookie :=
  authCookies.map fun c => setCookie settings c.name (value c) (maxAge c) c.path

theorem bothCookies_keys (value : AuthCookie → String) (maxAge : AuthCookie → Int) :
    ((bothCookies settings value maxAge).map SetCookie.key).Nodup := by
  have hkeys : (bothCookies settings value maxAge).map SetCookie.key =
      authCookies.map (AuthCookie.key settings) := List.map_map
  rw [hkeys]
  have hnames : (authCookies.map AuthCookie.name).Nodup := by decide
  refine List.Nodup.map_on (fun c hc d hd hkey => ?_) (List.Nodup.of_map _ hnames)
  exact authCookie_ext hc hd (congrArg CookieKey.name hkey)

/-- An answer writes both cookies or none. -/
theorem answerCookies_cases (settings : Settings) (answer : Except Failure Reply) :
    (answerCookies settings answer = [] ∧
      ∀ now earlier, heldPair ((now, answer) :: earlier) = heldPair earlier) ∨
    (answerCookies settings answer = bothCookies settings (fun _ => "") (fun _ => 0) ∧
      ∀ now earlier, heldPair ((now, answer) :: earlier) = none) ∨
    ∃ pair reply, answer = .ok reply ∧ reply.pair = some pair ∧
      answerCookies settings answer =
        bothCookies settings (fun c => c.token pair) AuthCookie.maxAge ∧
      ∀ now earlier, heldPair ((now, answer) :: earlier) = some (now, pair) := by
  cases answer with
  | error e => exact Or.inl ⟨rfl, fun _ _ => rfl⟩
  | ok reply =>
    cases reply with
    | signedIn user pair => exact Or.inr (Or.inr ⟨pair, _, rfl, rfl, rfl, fun _ _ => rfl⟩)
    | refreshed pair => exact Or.inr (Or.inr ⟨pair, _, rfl, rfl, rfl, fun _ _ => rfl⟩)
    | loggedOut => exact Or.inr (Or.inl ⟨rfl, fun _ _ => rfl⟩)
    | account user => exact Or.inl ⟨rfl, fun _ _ => rfl⟩

theorem Mirrors.both (h : Mirrors settings b c) (hc : c ∈ authCookies)
    (value : AuthCookie → String) (maxAge : AuthCookie → Int) :
    (b.jar.receiveAll now (bothCookies settings value maxAge)).Only (c.key settings) ∧
    (b.jar.receiveAll now (bothCookies settings value maxAge)).under (c.key settings) =
      if 0 < maxAge c then some
        { cookie := setCookie settings c.name (value c) (maxAge c) c.path
          expires := now + maxAge c * second }
      else none := by
  refine ⟨h.only.receiveAll fun d hd hname => ?_, ?_⟩
  · obtain ⟨e, he, rfl⟩ := List.mem_map.1 hd
    rw [← authCookie_ext he hc hname]
    rfl
  · exact CookieJar.under_receiveAll (bothCookies_keys value maxAge)
      (List.mem_map.2 ⟨c, hc, rfl⟩)

theorem maxAge_pos (hc : c ∈ authCookies) : 0 < c.maxAge := by
  simp only [authCookies, List.mem_cons, List.not_mem_nil, or_false] at hc
  rcases hc with rfl | rfl
  · decide
  · decide

theorem Mirrors.receive (h : Mirrors settings b c) (hc : c ∈ authCookies)
    (answer : Except Failure Reply) : Mirrors settings (b.receive settings now answer) c := by
  rcases answerCookies_cases settings answer with
    ⟨hcookies, hheld⟩ | ⟨hcookies, hheld⟩ | ⟨pair, reply, -, -, hcookies, hheld⟩
  · constructor
    · show (b.jar.receiveAll now (answerCookies settings answer)).Only _
      rw [hcookies]
      exact h.only
    · show (b.jar.receiveAll now (answerCookies settings answer)).under _ =
        (heldPair ((now, answer) :: b.received)).map _
      rw [hcookies, hheld]
      exact h.under
  · obtain ⟨honly, hunder⟩ := h.both now hc (fun _ => "") (fun _ => 0)
    constructor
    · show (b.jar.receiveAll now (answerCookies settings answer)).Only _
      rw [hcookies]
      exact honly
    · show (b.jar.receiveAll now (answerCookies settings answer)).under _ =
        (heldPair ((now, answer) :: b.received)).map _
      rw [hcookies, hheld, hunder]
      rfl
  · obtain ⟨honly, hunder⟩ := h.both now hc (fun c => c.token pair) AuthCookie.maxAge
    constructor
    · show (b.jar.receiveAll now (answerCookies settings answer)).Only _
      rw [hcookies]
      exact honly
    · show (b.jar.receiveAll now (answerCookies settings answer)).under _ =
        (heldPair ((now, answer) :: b.received)).map _
      rw [hcookies, hheld, hunder, if_pos (maxAge_pos hc)]
      rfl

theorem Mirrors.other (h : Mirrors settings b c) {d : SetCookie} (hname : d.name ≠ c.name) :
    Mirrors settings { b with jar := b.jar.receive now d } c := by
  constructor
  · exact h.only.receive fun heq => absurd heq hname
  · rw [← h.under]
    show (b.jar.receive now d).under _ = _
    rw [CookieJar.under_receive, if_neg]
    exact fun heq => hname (congrArg CookieKey.name heq)

/-- What goes with a request. -/
theorem Mirrors.value (h : Mirrors settings b c) (hdistinct : b.jar.Distinct)
    (request : CookieRequest) : CookieJar.value (b.jar.sent now request) c.name =
      ((heldPair b.received).filter fun held =>
        now < held.1 + c.maxAge * second && c.admits settings request).map
          fun held => c.token held.2 := by
  have hvalue : CookieJar.value (b.jar.sent now request) c.name = _ :=
    CookieJar.value_sent hdistinct h.only request
  rw [h.under] at hvalue
  refine hvalue.trans ?_
  cases heldPair b.received with
  | none => rfl
  | some held =>
    have hgoes : CookieJar.goes now request (c.stored settings held) =
        (decide (now < held.1 + c.maxAge * second) && c.admits settings request) := rfl
    rw [Option.map_some, Option.filter_some, Option.filter_some, hgoes]
    split <;> rfl

/-- No script reads it. -/
theorem Mirrors.unreadable (h : Mirrors settings b c) (hdistinct : b.jar.Distinct) (v : String) :
    (c.name, v) ∉ b.jar.readable now := by
  intro hmem
  obtain ⟨d, hd, heq⟩ := List.mem_map.1 hmem
  obtain ⟨hd, hread⟩ := List.mem_filter.1 hd
  have hunder := h.only.under hdistinct hd (congrArg Prod.fst heq)
  rw [h.under] at hunder
  obtain ⟨held, -, rfl⟩ := Option.map_eq_some_iff.1 hunder
  have hhttp : (c.stored settings held).cookie.httpOnly = true := rfl
  rw [hhttp, Bool.not_true, Bool.and_false] at hread
  cases hread

end Jar

/-! ## Browsing -/

section Browsing

variable [Collation] {env : AccountEnv} {settings : Settings} {s : AccountSystem} {b : Browser}

/-- What is known of an answer that was received. -/
structure Received (env : AccountEnv) (w : AccountWorld) (at' : Int) (pair : TokenPair) : Prop where
  earlier : at' ≤ w.clock
  token : ∃ k userId, TokenFrom env.toEnv w.log k userId pair.refreshToken ∧
    AccessFor env.toEnv userId at' pair.accessToken

theorem Browses.run (h : Browses env settings s b) :
    Run authEngine (handleAccount env) anyStep noAccounts s := by
  induction h with
  | init => exact .refl _
  | server _ hs ih => exact .tail ih trivial hs
  | answered _ _ ih => exact ih
  | other _ _ _ _ ih => exact ih

theorem Browses.serve (h : Browses env settings s b)
    {ok : AccountSystem → Action (Nat ⊕ String) Failure Endpoint → Prop} {s' : AccountSystem}
    (hr : Run authEngine (handleAccount env) ok s s') : Browses env settings s' b := by
  induction hr with
  | refl => exact h
  | tail _ _ hs ih => exact .server ih hs

theorem Browses.distinct (h : Browses env settings s b) : b.jar.Distinct := by
  induction h with
  | init => exact List.nodup_nil
  | server _ _ ih => exact ih
  | answered _ _ ih => exact ih.receiveAll
  | other _ _ _ _ ih => exact ih.receive

theorem Browses.mirrors (h : Browses env settings s b) {c : AuthCookie} (hc : c ∈ authCookies) :
    Mirrors settings b c := by
  induction h with
  | init => exact ⟨fun d hd => absurd hd List.not_mem_nil, rfl⟩
  | server _ _ ih => exact ih
  | answered _ _ ih => exact ih.receive _ hc _
  | other _ d haccess hrefresh ih =>
    refine ih.other _ ?_
    simp only [authCookies, List.mem_cons, List.not_mem_nil, or_false] at hc
    rcases hc with rfl | rfl
    · exact haccess
    · exact hrefresh

theorem Browses.received (h : Browses env settings s b) {at' : Int} {pair : TokenPair}
    (hheld : heldPair b.received = some (at', pair)) : Received env s.world at' pair := by
  induction h with
  | init => cases hheld
  | server hb hs ih =>
    obtain ⟨hle, k, userId, htoken, haccess⟩ := ih hheld
    exact ⟨Int.le_trans hle (step_clock_le hs), k, userId,
      htoken.mono (step_log_mono hs), haccess⟩
  | answered hb he ih =>
    rename_i answer
    rcases answerCookies_cases settings answer with
      ⟨-, hheld'⟩ | ⟨-, hheld'⟩ | ⟨pair', reply, rfl, hpair, -, hheld'⟩
    · exact ih ((hheld' _ _).symm.trans hheld)
    · exact absurd ((hheld' _ _).symm.trans hheld) (by simp)
    · obtain ⟨rfl, rfl⟩ := Prod.mk.inj (Option.some.inj ((hheld' _ _).symm.trans hheld))
      obtain ⟨k, -, -, -, u, -, -, htoken, haccess⟩ :=
        (accounts_good hb.run).inv.handed he hpair
      exact ⟨Int.le_refl _, k, u.id, htoken, haccess⟩
  | other _ _ _ _ ih => exact ih hheld

/-- **The jar follows the answers**: whatever is received and when, a request carries the two tokens
of the last pair that came, each for as long as it was given, on the paths it was given for, and
never from another site's page; nothing after a logout; and no script reads either. -/
theorem cookies_follow (h : Browses env settings s b) (request : CookieRequest) :
    CookieJar.value (b.jar.sent s.world.clock request) ACCESS_COOKIE =
      ((heldPair b.received).filter fun held =>
        s.world.clock < held.1 + ACCESS_TOKEN_LIFETIME && accessCookie.admits settings request).map
          (fun held => held.2.accessToken) ∧
    CookieJar.value (b.jar.sent s.world.clock request) REFRESH_COOKIE =
      ((heldPair b.received).filter fun held =>
        s.world.clock < held.1 + REFRESH_TOKEN_LIFETIME &&
          refreshCookie.admits settings request).map (fun held => held.2.refreshToken) ∧
    ∀ v, (ACCESS_COOKIE, v) ∉ b.jar.readable s.world.clock ∧
      (REFRESH_COOKIE, v) ∉ b.jar.readable s.world.clock := by
  have haccess := h.mirrors (c := accessCookie) List.mem_cons_self
  have hrefresh := h.mirrors (c := refreshCookie) (List.mem_cons_of_mem _ List.mem_cons_self)
  exact ⟨haccess.value _ h.distinct request, hrefresh.value _ h.distinct request, fun v =>
    ⟨haccess.unreadable _ h.distinct v, hrefresh.unreadable _ h.distinct v⟩⟩

/-! ## The caller -/

variable [Unicode] (jwt : Jwt env.toEnv)

omit [Collation] in
theorem decode_encode {now issuedAt : Int} {userId : Nat} (hissued : issuedAt ≤ now) (v : Int) :
    decodeAccessToken jwt now (env.jwtEncode
      { sub := toString userId, iat := issuedAt, exp := issuedAt + ACCESS_TOKEN_LIFETIME }) =
      some v ↔ v = userId ∧ now < issuedAt / second * second + ACCESS_TOKEN_LIFETIME := by
  have hexp : (issuedAt + ACCESS_TOKEN_LIFETIME) / second * second =
      issuedAt / second * second + ACCESS_TOKEN_LIFETIME := by
    unfold ACCESS_TOKEN_LIFETIME
    rw [Int.add_mul_ediv_right _ _ (by decide), Int.add_mul]
  have hcut : issuedAt / second * second ≤ issuedAt := Int.ediv_mul_le _ (by decide)
  have hdecode : decodeAccessToken jwt now (env.jwtEncode
      { sub := toString userId, iat := issuedAt, exp := issuedAt + ACCESS_TOKEN_LIFETIME }) =
      if issuedAt / second * second + ACCESS_TOKEN_LIFETIME ≤ now then none
      else some (userId : Int) := by
    unfold decodeAccessToken
    rw [jwt.verify_encode]
    simp only [Option.bind_eq_bind, Option.bind_some]
    rw [hexp, IntText.int_nat, if_neg (by omega)]
  rw [hdecode]
  by_cases hexpired : issuedAt / second * second + ACCESS_TOKEN_LIFETIME ≤ now
  · rw [if_pos hexpired]
    constructor
    · intro hnone
      cases hnone
    · rintro ⟨-, hlive⟩
      omega
  · rw [if_neg hexpired, Option.some_inj]
    constructor
    · intro heq
      exact ⟨heq.symm, by omega⟩
    · rintro ⟨heq, -⟩
      exact heq.symm

omit [Collation] in
theorem getCurrentUserClaims_ok {now : Int} {cookies : List (String × String)} {userId : Int} :
    getCurrentUserClaims jwt now cookies = .ok userId ↔
      ∃ t, CookieJar.value cookies ACCESS_COOKIE = some t ∧
        decodeAccessToken jwt now t = some userId := by
  unfold getCurrentUserClaims
  cases CookieJar.value cookies ACCESS_COOKIE with
  | none => simp
  | some t =>
    have hclaims : (if t = "" then none else decodeAccessToken jwt now t) =
        decodeAccessToken jwt now t := by
      split
      · next hempty =>
        subst hempty
        unfold decodeAccessToken
        rw [jwt.verify_empty]
        rfl
      · rfl
    dsimp only
    rw [Option.bind_some, hclaims]
    cases hdecode : decodeAccessToken jwt now t with
    | none => simp [hdecode]
    | some v => simp [hdecode]

/-- **Who the caller is**: a request is let in exactly while the browser may send the access token
of the pair it holds and that token has not expired, and as the user the token was minted for, who
has registered or has logged in with a password that verified. -/
theorem caller_identified (h : Browses env settings s b) (request : CookieRequest) (userId : Int) :
    getCurrentUserClaims jwt s.world.clock (b.jar.sent s.world.clock request) = .ok userId ↔
      accessCookie.admits settings request = true ∧ ∃ at' pair issuedAt, ∃ u ∈ s.world.db.2,
        heldPair b.received = some (at', pair) ∧ userId = u.id ∧ issuedAt ≤ at' ∧
        pair.accessToken = env.jwtEncode
          { sub := toString u.id, iat := issuedAt, exp := issuedAt + ACCESS_TOKEN_LIFETIME } ∧
        s.world.clock < issuedAt / second * second + ACCESS_TOKEN_LIFETIME ∧
        ∃ k signIn reply, (k, signIn, .ok reply) ∈ s.world.log ∧ ShowsPassword env k signIn u := by
  have hvalue : CookieJar.value (b.jar.sent s.world.clock request) ACCESS_COOKIE =
      ((heldPair b.received).filter fun held => s.world.clock < held.1 + ACCESS_TOKEN_LIFETIME &&
        accessCookie.admits settings request).map fun held => held.2.accessToken :=
    (h.mirrors (c := accessCookie) List.mem_cons_self).value s.world.clock h.distinct request
  rw [getCurrentUserClaims_ok]
  constructor
  · rintro ⟨t, ht, hdecode⟩
    rw [hvalue] at ht
    obtain ⟨⟨at', pair⟩, hfilter, rfl⟩ := Option.map_eq_some_iff.1 ht
    obtain ⟨hheld, hsent⟩ := Option.filter_eq_some_iff.1 hfilter
    obtain ⟨-, hadmits⟩ := Bool.and_eq_true_iff.1 hsent
    obtain ⟨hearlier, k, id, htoken, issuedAt, hissued, haccess⟩ := h.received hheld
    obtain ⟨signIn, reply, he, u, hu, hshows, rfl⟩ := (accounts_good h.run).inv.back htoken
    rw [haccess, decode_encode jwt (Int.le_trans hissued hearlier)] at hdecode
    exact ⟨hadmits, at', pair, issuedAt, u, hu, hheld, hdecode.1, hissued, haccess, hdecode.2,
      k, signIn, reply, he, hshows⟩
  · rintro ⟨hadmits, at', pair, issuedAt, u, hu, hheld, rfl, hissued, haccess, hlive, -⟩
    have hearlier := (h.received hheld).earlier
    have hcut : issuedAt / second * second ≤ issuedAt := Int.ediv_mul_le _ (by decide)
    refine ⟨pair.accessToken, ?_, ?_⟩
    · rw [hvalue, hheld, Option.filter_some, if_pos]
      · rfl
      · exact Bool.and_eq_true_iff.2 ⟨decide_eq_true (by show _ < at' + _; omega), hadmits⟩
    · rw [haccess]
      exact (decode_encode jwt (Int.le_trans hissued hearlier) _).2 ⟨rfl, hlive⟩

end Browsing

/-! ## A sign-in and a logout -/

/-- Up to the next dot, and after it. -/
def untilDot (cs : List Char) : List Char × List Char :=
  (cs.takeWhile (· ≠ '.'), (cs.dropWhile (· ≠ '.')).drop 1)

/-- Unsigned tokens: the two times, and the subject. -/
def dotted (claims : AccessTokenClaims) : String :=
  toString (claims.iat / second) ++ "." ++ toString (claims.exp / second) ++ "." ++ claims.sub

def readDotted [Unicode] (token : String) : Option Payload := do
  let (iat, rest) := untilDot token.toList
  let (exp, sub) := untilDot rest
  let iat ← IntText.int iat
  let exp ← IntText.int exp
  return { sub := some (String.ofList sub), iat := some iat, exp := some exp }

theorem untilDot_int (i : Int) (cs : List Char) :
    untilDot ((toString i).toList ++ '.' :: cs) = ((toString i).toList, cs) := by
  have hdot : ∀ c ∈ (toString i).toList, decide (c ≠ '.') = true := by
    intro c hc
    rw [decide_eq_true_eq]
    rintro rfl
    rcases IntText.mem_toString hc with hminus | hdigit
    · cases hminus
    · cases hdigit
  unfold untilDot
  rw [List.takeWhile_append_of_pos hdot, List.dropWhile_append_of_pos hdot,
    List.takeWhile_cons_of_neg (by decide), List.dropWhile_cons_of_neg (by decide),
    List.append_nil, List.drop_one, List.tail_cons]

def AccountEnv.dotted : AccountEnv :=
  { AccountEnv.unary with toEnv := { Env.unary with jwtEncode := Auth.dotted } }

def Jwt.dotted [Unicode] : Jwt AccountEnv.dotted.toEnv where
  verify := readDotted
  verify_empty := rfl
  verify_encode claims := by
    have htext : (Auth.dotted claims).toList = (toString (claims.iat / second)).toList ++
        '.' :: ((toString (claims.exp / second)).toList ++ '.' :: claims.sub.toList) := by
      unfold Auth.dotted
      simp only [String.toList_append, List.append_assoc]
      rfl
    show readDotted (Auth.dotted claims) = _
    unfold readDotted
    rw [htext, untilDot_int]
    dsimp only
    rw [untilDot_int, IntText.int_repr, IntText.int_repr, String.ofList_toList]
    rfl

def Settings.https : Settings where
  cookieDomain := none
  cookieSecure := true
  environment := .production
  secure_in_production _ := rfl

/-- Request 0 registers, and request 1 logs in after 1.5 seconds. -/
def registersAndLogsIn : List (Action (Nat ⊕ String) Failure Endpoint) :=
  [.start (.register "ann@example.org" "secret"), .advance 0, .advance 0,
    .lock 0 (.inr "ann@example.org"), .advance 0, .advance 0, .advance 0, .advance 0, .advance 0,
    .advance 0,
    .start (.login "Ann@example.org" "secret"), .tick 1500000, .advance 1, .advance 1, .advance 1,
    .advance 1, .advance 1, .advance 1]

/-- What request 1 is answered. -/
def annsPair : Nat × Endpoint × Except Failure Reply :=
  (1, .login "Ann@example.org" "secret", .ok (.signedIn { id := 0, email := "ann@example.org" }
    { accessToken := "1.901.0", refreshToken := "a" }))

/-- A browser that has received it. -/
def annsBrowser : Browser := Browser.receive .https 1500000 annsPair.2.2 {}

theorem annsBrowser_browses : ∃ (_ : Collation) (s : AccountSystem),
    runList authEngine (handleAccount .dotted) noAccounts registersAndLogsIn = some s ∧
      Browses .dotted .https s annsBrowser ∧ s.world.clock = 1500000 ∧
      s.world.db.2.rows = [{ id := 0, email := "ann@example.org", passwordHash := "secret" }] ∧
      annsPair ∈ s.world.log := by
  let _ : Collation := Collation.ignoringCase
  have hrun : (runList authEngine (handleAccount .dotted) noAccounts registersAndLogsIn).any
      (fun s => decide (s.world.clock = 1500000 ∧ s.world.db.2.rows =
        [{ id := 0, email := "ann@example.org", passwordHash := "secret" }] ∧
          annsPair ∈ s.world.log)) = true := by
    decide +kernel
  obtain ⟨s, hlist, hs, hp⟩ := exists_run hrun
  obtain ⟨hclock, husers, he⟩ := of_decide_eq_true hp
  have hb : Browses .dotted .https s (Browser.receive .https s.world.clock annsPair.2.2 {}) :=
    (Browses.init.serve hs).answered he
  rw [hclock] at hb
  exact ⟨Collation.ignoringCase, s, hlist, hb, hclock, husers, he⟩

/-- A request of the application's own page. -/
def ownPage (path : String) : CookieRequest where
  path := path
  https := true
  sameSite := true
  navigates := false

theorem refresh_token_kept_to_auth : ∃ (_ : Collation) (s : AccountSystem),
    runList authEngine (handleAccount .dotted) noAccounts registersAndLogsIn = some s ∧
      Browses .dotted .https s annsBrowser ∧
      CookieJar.value (annsBrowser.jar.sent s.world.clock (ownPage "/ledger/accounts"))
        REFRESH_COOKIE = none ∧
      CookieJar.value (annsBrowser.jar.sent s.world.clock (ownPage "/auth/refresh"))
        REFRESH_COOKIE = some "a" := by
  obtain ⟨hcollation, s, hlist, hb, hclock, -, -⟩ := annsBrowser_browses
  refine ⟨hcollation, s, hlist, hb, ?_, ?_⟩
  · rw [(cookies_follow hb _).2.1, hclock]
    decide +kernel
  · rw [(cookies_follow hb _).2.1, hclock]
    decide +kernel

theorem ann_let_in : ∃ (_ : Collation) (_ : Unicode) (s : AccountSystem),
    runList authEngine (handleAccount .dotted) noAccounts registersAndLogsIn = some s ∧
      Browses .dotted .https s annsBrowser ∧
      getCurrentUserClaims .dotted s.world.clock
        (annsBrowser.jar.sent s.world.clock (ownPage "/auth/me")) = .ok 0 := by
  obtain ⟨hcollation, s, hlist, hb, hclock, husers, he⟩ := annsBrowser_browses
  let _ : Unicode := Unicode.ascii
  obtain ⟨u, hu, hshows, -⟩ := (accounts_good hb.run).inv.shown _ _ _ he rfl
  have hu0 : u = { id := 0, email := "ann@example.org", passwordHash := "secret" } := by
    have hmem : u ∈ s.world.db.2.rows := hu
    rw [husers] at hmem
    exact List.mem_singleton.1 hmem
  subst hu0
  refine ⟨hcollation, Unicode.ascii, s, hlist, hb, (caller_identified .dotted hb _ 0).2 ?_⟩
  rw [hclock]
  exact ⟨by decide +kernel, 1500000, { accessToken := "1.901.0", refreshToken := "a" }, 1500000,
    _, hu, rfl, rfl, Int.le_refl _, by decide +kernel, by decide, 1, _, _, he, hshows⟩

end Tradinghub.Auth
