import Tradinghub.Auth.Spending

/-!
# The browser (`lib/api/client.ts`)

Any number of tabs share one cookie jar and one browser lock.  A call through a tab's `apiClient`
whose request is answered `invalid_session` awaits `rotateSessionOnce` and is sent again once: the
promise `refreshInFlight` makes that one refresh per tab, the lock one per browser.

An `Exchange` is one HTTP request from its departure to the arrival of its response.  The network
may delay either and lose either, and the tab may give up on it at any moment; the server goes on
regardless.  The server is the interleaved system of `Auth.Sessions`, which serves other clients
too.
-/

namespace Tradinghub.Frontend

open ReadCommitted
open Auth (AuthSystem Log Response initialWorld)

/-! ## Requests and failures -/

/-- `other` is every endpoint that neither reads nor sets the refresh cookie. -/
inductive Path where
  | refresh
  | login
  | register
  | logout
  | other
  deriving DecidableEq, Repr

def REFRESH_PATH : Path := .refresh

/-- The refresh cookie is scoped to `/auth`. -/
def Path.sendsCookie : Path → Bool
  | .other => false
  | _ => true

/-- A request's configuration, which survives until its replay. -/
structure Config where
  url : Path
  retried : Bool := false
  deriving DecidableEq, Repr

/-- `ApiError`, by its code, or `NetworkError`. -/
inductive CallFailure where
  | api (code : String)
  | network
  deriving DecidableEq, Repr

def INVALID_SESSION : String := "invalid_session"

/-- Narrow a failure to an ApiError carrying `code`. -/
def isApiError (failure : CallFailure) (code : String) : Bool := failure = .api code

/-- An error response by the code in its envelope.  A proxy answers in its own shape. -/
def toFailure : Option String → CallFailure
  | some code => .api code
  | none => .network

/-- A wrong password is a 401 too.  The refresh call is excluded because it would recurse. -/
def shouldRotateAndReplay (failure : CallFailure) (config : Config) : Bool :=
  isApiError failure INVALID_SESSION && config.url ≠ REFRESH_PATH && !config.retried

/-! ## Responses -/

/-- A response that sets no token. -/
inductive Plain where
  | ok
  /-- the 204 of a logout, which deletes the cookie -/
  | cleared
  | error (code : Option String)
  deriving DecidableEq, Repr

def Plain.isError : Plain → Bool
  | .error _ => true
  | _ => false

inductive Reply where
  | tokens (refreshToken : String)
  | plain (reply : Plain)
  deriving DecidableEq, Repr

/-- The cookie jar once the response has arrived. -/
def Reply.setCookie : Reply → Option String → Option String
  | .tokens refreshToken, _ => some refreshToken
  | .plain .cleared, _ => none
  | .plain _, jar => jar

/-- What the promise of the request settles with. -/
def Reply.result : Reply → Except CallFailure Unit
  | .plain (.error code) => .error (toFailure code)
  | _ => .ok ()

/-- How the routes answer what a service returned or raised. -/
def replyTo : Except Failure Response → Reply
  | .ok (.tokens pair) => .tokens pair.refreshToken
  | .ok .done => .plain .cleared
  | .error (.app e) => .plain (.error (some e.code))
  | .error _ => .plain (.error (some "internal_error"))

/-- What request `n` was answered, if it was. -/
def answerTo (log : Log) (n : Nat) : Option (Except Failure Response) :=
  (log.find? fun e => e.1 = n).map fun e => e.2.2

/-! ## Exchanges -/

/-- Where a request is.  `serving n`: the server has it as its request `n`, and its response is on
its way as soon as that is answered. -/
inductive Wire where
  | going
  | serving (n : Nat)
  | answered (reply : Plain)
  | lost
  deriving DecidableEq, Repr

inductive Sender where
  | call (c : Nat)
  | rotation (k : Nat)
  deriving DecidableEq, Repr

/-- `cookie` is the refresh cookie it left with, `heeded` that its tab has not given up on it. -/
structure Exchange where
  sender : Sender
  url : Path
  cookie : Option String
  wire : Wire := .going
  heeded : Bool := true

/-- The response on its way. -/
def Exchange.reply (log : Log) (e : Exchange) : Option Reply :=
  match e.wire with
  | .serving n => (answerTo log n).map replyTo
  | .answered reply => some (.plain reply)
  | _ => none

/-- The server has not answered it, and may yet. -/
def Exchange.pending (log : Log) (e : Exchange) : Bool :=
  match e.wire with
  | .going => true
  | .serving n => (answerTo log n).isNone
  | _ => false

/-- The server has not failed or refused it: it may yet succeed, or has. -/
def Exchange.live (log : Log) (e : Exchange) : Bool :=
  match e.wire with
  | .going => true
  | .serving n =>
    match answerTo log n with
    | some (.error _) => false
    | _ => true
  | _ => false

/-- What the tabs share, and the server: `served` are the requests of the server's that are this
browser's. -/
structure Network where
  server : AuthSystem
  jar : Option String := none
  exchanges : Nat → Option Exchange := fun _ => none
  sent : Nat := 0
  served : List Nat := []

namespace Network

def log (w : Network) : Log := w.server.world.log

def put (w : Network) (id : Nat) (e : Exchange) : Network :=
  { w with exchanges := Function.update w.exchanges id (some e) }

/-- A request leaves, with the jar's current cookie. -/
def leave (w : Network) (sender : Sender) (url : Path) : Network :=
  { w with
    exchanges := Function.update w.exchanges w.sent
      (some { sender, url, cookie := if url.sendsCookie then w.jar else none })
    sent := w.sent + 1 }

/-- The request is one of the server's from now on. -/
def serve (env : Auth.Env) (w : Network) (id : Nat) (e : Exchange) (req : Auth.Request) :
    Option Network :=
  (step Auth.engine (Auth.handle env) w.server (.start req)).map fun server =>
    { w.put id { e with wire := .serving w.server.world.started } with
      server := server
      served := w.server.world.started :: w.served }

/-- `/auth/refresh` and `/auth/logout`, which need nothing but the cookie. -/
def route (env : Auth.Env) (w : Network) (id : Nat) (e : Exchange) : Option Network :=
  match e.url, e.cookie with
  | .refresh, none =>
    some (w.put id { e with wire := .answered (.error (some Auth.InvalidSessionError.code)) })
  | .refresh, some rawRefreshToken => w.serve env id e (.refreshSession rawRefreshToken)
  | .logout, none => some (w.put id { e with wire := .answered .cleared })
  | .logout, some rawRefreshToken => w.serve env id e (.logoutUser rawRefreshToken)
  | _, _ => none

/-- The browser applies Set-Cookie, and the exchange is over. -/
def arrive (w : Network) (id : Nat) (reply : Reply) : Network :=
  { w with
    jar := reply.setCookie w.jar
    exchanges := Function.update w.exchanges id none }

end Network

/-! ## Rotations and calls -/

/-- The promise of `rotateSessionOnce`: waiting for the lock, inside it, with its refresh posted as
exchange `id`, with that settled, with the lock released, and settled itself.  `recursing` would be
a refresh that awaits the rotation it is part of. -/
inductive Phase where
  | queued
  | locked
  | posted (id : Nat)
  | recursing
  | settled (result : Except CallFailure Unit)
  | released (result : Except CallFailure Unit)
  | finished (result : Except CallFailure Unit)

/-- The lock callback has begun, and its promise has not been seen to settle. -/
def Phase.holds : Phase → Bool
  | .locked | .posted _ | .recursing | .settled _ => true
  | _ => false

/-- One promise of a tab's, how many refreshes were posted for it, and how they were answered. -/
structure Rotation where
  tab : Nat
  phase : Phase := .queued
  posts : Nat := 0
  answers : List (Except CallFailure Unit) := []

/-- What `rotateSessionOnce` resolves to.  Only the API refusing the token means the session is
gone; a refresh that never arrived or failed on the server says nothing. -/
def rotated : Except CallFailure Unit → Except CallFailure Bool
  | .ok _ => .ok true
  | .error failure => if isApiError failure INVALID_SESSION then .ok false else .error failure

/-- Where a call is: its request is exchange `id`, its interceptor awaits a rotation, it is about to
be sent again, its promise has settled. -/
inductive Stage where
  | sent (id : Nat)
  | awaiting (k : Nat) (failure : CallFailure)
  | replaying
  | settled (result : Except CallFailure Unit)

/-- A call through `apiClient`, and what has become of it so far: how often it was sent, how its
requests were answered, the rotation it waited for. -/
structure Call where
  tab : Nat
  config : Config
  stage : Stage
  sends : Nat := 1
  answers : List (Except CallFailure Unit) := []
  waited : Option Nat := none

/-- The rotation `k` settles: a call that awaited it goes on, or throws. -/
def Call.resume (k : Nat) (result : Except CallFailure Unit) (call : Call) : Call :=
  match call.stage with
  | .awaiting k' failure =>
    if k' = k then
      { call with
        stage :=
          match rotated result with
          | .ok true => .replaying
          | .ok false => .settled (.error failure)
          | .error error => .settled (.error error) }
    else call
  | _ => call

/-! ## The browser -/

/-- `refreshInFlight` is each tab's own, null or a rotation; the lock is held by a rotation. -/
structure Browser extends Network where
  lock : Option Nat := none
  refreshInFlight : Nat → Option Nat := fun _ => none
  rotations : Nat → Option Rotation := fun _ => none
  started : Nat := 0
  calls : Nat → Option Call := fun _ => none
  called : Nat := 0

/-- Who moves.  A message moves when it likes: nothing bounds how long it takes. -/
inductive Action where
  /-- a page of the tab calls the API -/
  | call (tab : Nat) (url : Path)
  /-- a call that waited for a rotation is sent again -/
  | replay (c : Nat)
  /-- the lock is granted, and the callback begins -/
  | grant (k : Nat)
  /-- the callback's refresh leaves -/
  | post (k : Nat)
  /-- the callback's promise is seen to settle -/
  | release (k : Nat)
  /-- `refreshInFlight = null`, and the promise settles -/
  | finish (k : Nat)
  | deliver (id : Nat)
  /-- the credentials of a login or a registration are good -/
  | signIn (id userId : Nat)
  /-- a request is answered before it reaches a session -/
  | answer (id : Nat) (reply : Plain)
  /-- the server works on an open request, or hears from somebody else -/
  | server (a : ReadCommitted.Action Nat Failure Auth.Request)
  | arrive (id : Nat)
  | lose (id : Nat)
  /-- the ten seconds are over, or the connection breaks -/
  | giveUp (id : Nat)
  /-- the cookie expires -/
  | forget

namespace Browser

/-- The same tabs over another network. -/
def withNetwork (s : Browser) (w : Network) : Browser := { s with toNetwork := w }

def setCall (s : Browser) (c : Nat) (call : Call) : Browser :=
  { s with calls := Function.update s.calls c (some call) }

def setRotation (s : Browser) (k : Nat) (r : Rotation) : Browser :=
  { s with rotations := Function.update s.rotations k (some r) }

/-- The rotation in flight in the tab, which is a new one if there is none. -/
def rotateSessionOnce (s : Browser) (tab : Nat) : Nat × Browser :=
  match s.refreshInFlight tab with
  | some k => (k, s)
  | none =>
    (s.started,
      { s.setRotation s.started { tab } with
        refreshInFlight := Function.update s.refreshInFlight tab (some s.started)
        started := s.started + 1 })

/-- The response interceptor, for a call whose request ended with `result`. -/
def intercept (s : Browser) (c : Nat) (call : Call) (result : Except CallFailure Unit) : Browser :=
  let heard := { call with answers := call.answers ++ [result] }
  match result with
  | .ok _ => s.setCall c { heard with stage := .settled result }
  | .error failure =>
    if shouldRotateAndReplay failure call.config then
      let (k, s) := s.rotateSessionOnce call.tab
      s.setCall c { heard with stage := .awaiting k failure, waited := some k }
    else s.setCall c { heard with stage := .settled result }

/-- The same for the refresh of a rotation: what it returns or throws settles the callback. -/
def interceptRefresh (r : Rotation) (url : Path) (result : Except CallFailure Unit) : Rotation :=
  let heard := { r with answers := r.answers ++ [result] }
  match result with
  | .ok _ => { heard with phase := .settled result }
  | .error failure =>
    if shouldRotateAndReplay failure { url } then { heard with phase := .recursing }
    else { heard with phase := .settled result }

/-- The sender of an exchange hears how it ended. -/
def settle (s : Browser) (e : Exchange) (result : Except CallFailure Unit) : Browser :=
  match e.sender with
  | .call c =>
    match s.calls c with
    | some call => s.intercept c call result
    | none => s
  | .rotation k =>
    match s.rotations k with
    | some r => s.setRotation k (interceptRefresh r e.url result)
    | none => s

end Browser

def step (env : Auth.Env) (s : Browser) : Action → Option Browser
  | .call tab url =>
    if url = REFRESH_PATH then none
    else some
      { (s.setCall s.called { tab, config := { url }, stage := .sent s.sent }).withNetwork
          (s.leave (.call s.called) url) with
        called := s.called + 1 }
  | .replay c =>
    match s.calls c with
    | some { stage := .replaying, tab, config, sends, answers, waited } =>
      some ((s.setCall c
          { tab, config := { config with retried := true }, stage := .sent s.sent,
            sends := sends + 1, answers, waited }).withNetwork
        (s.leave (.call c) config.url))
    | _ => none
  | .grant k =>
    match s.rotations k, s.lock with
    | some { phase := .queued, tab, posts, answers }, none =>
      some { s.setRotation k { phase := .locked, tab, posts, answers } with lock := some k }
    | _, _ => none
  | .post k =>
    match s.rotations k with
    | some { phase := .locked, tab, posts, answers } =>
      some ((s.setRotation k
          { phase := .posted s.sent, tab, posts := posts + 1, answers }).withNetwork
        (s.leave (.rotation k) REFRESH_PATH))
    | _ => none
  | .release k =>
    match s.rotations k with
    | some { phase := .settled result, tab, posts, answers } =>
      some { s.setRotation k { phase := .released result, tab, posts, answers } with lock := none }
    | _ => none
  | .finish k =>
    match s.rotations k with
    | some { phase := .released result, tab, posts, answers } =>
      some
        { s.setRotation k { phase := .finished result, tab, posts, answers } with
          refreshInFlight := Function.update s.refreshInFlight tab none
          calls := fun c => (s.calls c).map (Call.resume k result) }
    | _ => none
  | .deliver id =>
    (s.exchanges id).bind fun e =>
      if e.wire = .going then (s.route env id e).map s.withNetwork else none
  | .signIn id userId =>
    (s.exchanges id).bind fun e =>
      if e.wire = .going ∧ (e.url = .login ∨ e.url = .register) then
        (s.serve env id e (.startSession userId)).map s.withNetwork
      else none
  | .answer id reply =>
    (s.exchanges id).bind fun e =>
      if e.wire = .going ∧ (reply.isError ∨ e.url = .other ∧ reply = .ok) then
        some (s.withNetwork (s.put id { e with wire := .answered reply }))
      else none
  | .server a =>
    (ReadCommitted.step Auth.engine (Auth.handle env) s.server a).map fun server =>
      { s with server := server }
  | .arrive id =>
    (s.exchanges id).bind fun e => (e.reply s.log).bind fun reply =>
      if e.heeded then some ((s.withNetwork (s.toNetwork.arrive id reply)).settle e reply.result)
      else none
  | .lose id =>
    (s.exchanges id).bind fun e =>
      if e.wire = .going ∨ (e.reply s.log).isSome then
        some (s.withNetwork (s.put id { e with wire := .lost }))
      else none
  | .giveUp id =>
    (s.exchanges id).bind fun e =>
      if e.heeded then
        some ((s.withNetwork (s.put id { e with heeded := false })).settle e (.error .network))
      else none
  | .forget => some (s.withNetwork { s.toNetwork with jar := none })

/-- Nobody has opened a page yet. -/
def initial : Browser where
  server := { world := initialWorld }

/-! ## Runs -/

/-- The token a request presents. -/
def presented : Auth.Request → Option String
  | .startSession _ => none
  | .refreshSession rawRefreshToken => some rawRefreshToken
  | .logoutUser rawRefreshToken => some rawRefreshToken

/-- Nobody else presents a token of this browser's, or one that has not been minted yet. -/
def Secret (env : Auth.Env) (s : Browser) (a : Action) : Prop :=
  ∀ req tok k, a = .server (.start req) → presented req = some tok →
    env.hashRefreshToken tok = env.hashRefreshToken (env.generateRefreshToken k) →
    k < s.server.world.started ∧ k ∉ s.served

/-- The states any number of steps leads to, each allowed by `ok`. -/
def Reaches (env : Auth.Env) (ok : Browser → Action → Prop) : Browser → Prop :=
  Relation.ReflTransGen (fun s s' => ∃ a, ok s a ∧ step env s a = some s') initial

/-- The actions in order, each met by `ok`. -/
def follow (env : Auth.Env) (ok : Browser → Action → Bool) :
    Browser → List Action → Option Browser
  | s, [] => some s
  | s, a :: as => if ok s a then (step env s a).bind fun s' => follow env ok s' as else none

theorem reaches_of_follow {env : Auth.Env} {ok : Browser → Action → Bool}
    {P : Browser → Action → Prop} (hP : ∀ s a, ok s a = true → P s a) (as : List Action) :
    ∀ s s', Reaches env P s → follow env ok s as = some s' → Reaches env P s' := by
  induction as with
  | nil => rintro s _ hr ⟨⟩; exact hr
  | cons a as ih =>
    intro s s' hr h
    rw [follow] at h
    split at h
    · next hok =>
      obtain ⟨t, ht, h⟩ := Option.bind_eq_some_iff.1 h
      exact ih t s' (hr.tail ⟨a, hP s a hok, ht⟩) h
    · cases h

/-- The exchange is answered that the session is gone. -/
def refuse (id : Nat) : List Action :=
  [.answer id (.error (some INVALID_SESSION)), .arrive id]

/-! ## What a step can do -/

/-- The server would serve the exchange with this request. -/
def Exchange.Asks (e : Exchange) : Auth.Request → Prop
  | .startSession _ => e.url = .login ∨ e.url = .register
  | .refreshSession rawRefreshToken => e.url = .refresh ∧ e.cookie = some rawRefreshToken
  | .logoutUser rawRefreshToken => e.url = .logout ∧ e.cookie = some rawRefreshToken

/-- The steps that no tab takes part in. -/
inductive Shift (env : Auth.Env) (w : Network) : Action → Network → Prop
  | served {a id e req server} (he : w.exchanges id = some e) (hgoing : e.wire = .going)
      (hasks : e.Asks req)
      (hs : ReadCommitted.step Auth.engine (Auth.handle env) w.server (.start req) = some server) :
      Shift env w a
        { w.put id { e with wire := .serving w.server.world.started } with
          server := server
          served := w.server.world.started :: w.served }
  | answered {a id e} (reply : Plain) (he : w.exchanges id = some e) (hgoing : e.wire = .going) :
      Shift env w a (w.put id { e with wire := .answered reply })
  | server {a server} (hs : ReadCommitted.step Auth.engine (Auth.handle env) w.server a = some server) :
      Shift env w (.server a) { w with server := server }
  | lost {id e} (he : w.exchanges id = some e)
      (hwire : e.wire = .going ∨ (e.reply w.log).isSome = true) :
      Shift env w (.lose id) (w.put id { e with wire := .lost })
  | forgot : Shift env w .forget { w with jar := none }

/-- Everything a step can do. -/
inductive Move (env : Auth.Env) (s : Browser) : Action → Browser → Prop
  | call {tab url} (hurl : url ≠ REFRESH_PATH) :
      Move env s (.call tab url)
        { (s.setCall s.called { tab, config := { url }, stage := .sent s.sent }).withNetwork
            (s.leave (.call s.called) url) with
          called := s.called + 1 }
  | replay {c call} (hc : s.calls c = some call) (hstage : call.stage = .replaying) :
      Move env s (.replay c)
        ((s.setCall c { call with
            config := { call.config with retried := true }
            stage := .sent s.sent
            sends := call.sends + 1 }).withNetwork (s.leave (.call c) call.config.url))
  | grant {k r} (hr : s.rotations k = some r) (hphase : r.phase = .queued) (hlock : s.lock = none) :
      Move env s (.grant k) { s.setRotation k { r with phase := .locked } with lock := some k }
  | post {k r} (hr : s.rotations k = some r) (hphase : r.phase = .locked) :
      Move env s (.post k)
        ((s.setRotation k { r with phase := .posted s.sent, posts := r.posts + 1 }).withNetwork
          (s.leave (.rotation k) REFRESH_PATH))
  | release {k r result} (hr : s.rotations k = some r) (hphase : r.phase = .settled result) :
      Move env s (.release k)
        { s.setRotation k { r with phase := .released result } with lock := none }
  | finish {k r result} (hr : s.rotations k = some r) (hphase : r.phase = .released result) :
      Move env s (.finish k)
        { s.setRotation k { r with phase := .finished result } with
          refreshInFlight := Function.update s.refreshInFlight r.tab none
          calls := fun c => (s.calls c).map (Call.resume k result) }
  | shift {a w} (h : Shift env s.toNetwork a w) : Move env s a (s.withNetwork w)
  | arrive {id e reply} (he : s.exchanges id = some e) (hreply : e.reply s.log = some reply)
      (hheeded : e.heeded = true) :
      Move env s (.arrive id)
        ((s.withNetwork (s.toNetwork.arrive id reply)).settle e reply.result)
  | giveUp {id e} (he : s.exchanges id = some e) (hheeded : e.heeded = true) :
      Move env s (.giveUp id)
        ((s.withNetwork (s.put id { e with heeded := false })).settle e (.error .network))

theorem shift_of_serve {env : Auth.Env} {w w' : Network} {a : Action} {id : Nat} {e : Exchange}
    {req : Auth.Request} (he : w.exchanges id = some e) (hgoing : e.wire = .going)
    (hasks : e.Asks req) (h : w.serve env id e req = some w') : Shift env w a w' := by
  obtain ⟨server, hs, rfl⟩ := Option.map_eq_some_iff.1 h
  exact .served he hgoing hasks hs

theorem shift_of_route {env : Auth.Env} {w w' : Network} {a : Action} {id : Nat} {e : Exchange}
    (he : w.exchanges id = some e) (hgoing : e.wire = .going) (h : w.route env id e = some w') :
    Shift env w a w' := by
  unfold Network.route at h
  split at h
  · cases h
    exact .answered _ he hgoing
  · next tok hurl hcookie =>
    have hasks : e.Asks (.refreshSession tok) := ⟨hurl, hcookie⟩
    exact shift_of_serve he hgoing hasks h
  · cases h
    exact .answered _ he hgoing
  · next tok hurl hcookie =>
    have hasks : e.Asks (.logoutUser tok) := ⟨hurl, hcookie⟩
    exact shift_of_serve he hgoing hasks h
  · cases h

theorem step_move {env : Auth.Env} {s s' : Browser} {a : Action} (h : step env s a = some s') :
    Move env s a s' := by
  cases a with
  | call tab url =>
    simp only [step] at h
    split at h
    · cases h
    · next hurl =>
      cases h
      exact .call hurl
  | replay c =>
    simp only [step] at h
    split at h
    · next hc =>
      cases h
      exact .replay hc rfl
    · cases h
  | grant k =>
    simp only [step] at h
    split at h
    · next hr hlock =>
      cases h
      exact .grant hr rfl hlock
    · cases h
  | post k =>
    simp only [step] at h
    split at h
    · next hr =>
      cases h
      exact .post hr rfl
    · cases h
  | release k =>
    simp only [step] at h
    split at h
    · next hr =>
      cases h
      exact .release hr rfl
    · cases h
  | finish k =>
    simp only [step] at h
    split at h
    · next hr =>
      cases h
      exact .finish hr rfl
    · cases h
  | deliver id =>
    obtain ⟨e, he, h⟩ := Option.bind_eq_some_iff.1 h
    split at h
    · next hgoing =>
      obtain ⟨w, hw, rfl⟩ := Option.map_eq_some_iff.1 h
      exact .shift (shift_of_route he hgoing hw)
    · cases h
  | signIn id userId =>
    obtain ⟨e, he, h⟩ := Option.bind_eq_some_iff.1 h
    split at h
    · next hcan =>
      obtain ⟨w, hw, rfl⟩ := Option.map_eq_some_iff.1 h
      have hasks : e.Asks (.startSession userId) := hcan.2
      exact .shift (shift_of_serve he hcan.1 hasks hw)
    · cases h
  | answer id reply =>
    obtain ⟨e, he, h⟩ := Option.bind_eq_some_iff.1 h
    split at h
    · next hcan =>
      cases h
      exact .shift (.answered reply he hcan.1)
    · cases h
  | server a =>
    obtain ⟨server, hs, rfl⟩ := Option.map_eq_some_iff.1 h
    exact .shift (.server hs)
  | arrive id =>
    obtain ⟨e, he, h⟩ := Option.bind_eq_some_iff.1 h
    obtain ⟨reply, hreply, h⟩ := Option.bind_eq_some_iff.1 h
    split at h
    · next hheeded =>
      cases h
      exact .arrive he hreply hheeded
    · cases h
  | lose id =>
    obtain ⟨e, he, h⟩ := Option.bind_eq_some_iff.1 h
    split at h
    · next hwire =>
      cases h
      exact .shift (.lost he hwire)
    · cases h
  | giveUp id =>
    obtain ⟨e, he, h⟩ := Option.bind_eq_some_iff.1 h
    split at h
    · next hheeded =>
      cases h
      exact .giveUp he hheeded
    · cases h
  | forget =>
    cases h
    exact .shift .forgot

end Tradinghub.Frontend
