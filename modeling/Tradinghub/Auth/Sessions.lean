import Tradinghub.Core.Errors
import Tradinghub.Lib.ReadCommitted
import Tradinghub.Lib.Table

/-!
# The sessions table and the auth services

The store behind `crud/session.py` (one row per refresh token, found by the token's hash) and the
three services that use it: `startSession`, `refreshSession` with rotation and reuse detection,
and `logoutUser`.  A request is one transaction; the one commit inside a request is the reuse
revocation of `refreshSession`.  Times are microseconds, the resolution of `timestamptz`.
-/

namespace Tradinghub.Auth

open ReadCommitted Store

/-! ## What the process supplies -/

structure AccessTokenClaims where
  sub : String
  iat : Int
  exp : Int
  deriving DecidableEq, Repr

/-- Hashing, signing and everything random.  Each request draws its own: `generateRefreshToken n`
is the one token request `n` may mint, `uuid4 n` its family id, `sessionId n` the id its row gets.
What is drawn never repeats, and neither does the hash of a drawn token. -/
structure Env where
  hashRefreshToken : String → String
  jwtEncode : AccessTokenClaims → String
  generateRefreshToken : Nat → String
  uuid4 : Nat → Nat
  sessionId : Nat → Nat
  hash_fresh : ∀ n m, hashRefreshToken (generateRefreshToken n) =
    hashRefreshToken (generateRefreshToken m) → n = m
  uuid4_fresh : ∀ n m, uuid4 n = uuid4 m → n = m
  sessionId_fresh : ∀ n m, sessionId n = sessionId m → n = m

def second : Int := 1000000

def ACCESS_TOKEN_LIFETIME : Int := 15 * 60 * second

def REFRESH_TOKEN_LIFETIME : Int := 7 * 24 * 60 * 60 * second

/-- A supply: request `n` mints the token of `n` letters, and nothing is hashed. -/
def Env.unary : Env where
  hashRefreshToken := id
  jwtEncode claims := claims.sub
  generateRefreshToken n := String.ofList (List.replicate n 'a')
  uuid4 := id
  sessionId := id
  hash_fresh n m h := by simpa using congrArg (fun t => t.toList.length) h
  uuid4_fresh _ _ h := h
  sessionId_fresh _ _ h := h

/-! ## The table -/

/-- One refresh token.  Rotation gives each login a chain of these, sharing a family id. -/
structure Session where
  id : Nat
  userId : Nat
  familyId : Nat
  hashedRefreshToken : String
  usedAt : Option Int
  expiresAt : Int
  deriving DecidableEq, Repr

instance : Keyed Session := ⟨Session.id⟩

abbrev Sessions := Table Session

inductive Stmt where
  /-- SELECT .. WHERE hashed_refresh_token = .. FOR UPDATE -/
  | lockByTokenHash (hashedRefreshToken : String)
  /-- the UPDATE a flush sends for a changed `used_at` -/
  | updateUsedAt (id : Nat) (usedAt : Int)
  | insert (row : Session)
  /-- DELETE .. WHERE family_id = .. -/
  | deleteFamily (familyId : Nat)
  deriving DecidableEq, Repr

inductive Write where
  | insert (row : Session)
  | setUsedAt (id : Nat) (usedAt : Int)
  | delete (id : Nat)
  deriving DecidableEq, Repr

def Write.apply : Write → Sessions → Sessions
  | .insert row, db => db.put row
  | .setUsedAt id usedAt, db =>
    match db.find? id with
    | some s => db.put { s with usedAt := some usedAt }
    | none => db
  | .delete id, db => db.erase id

/-- The WHERE clause of a statement that takes rows. -/
def Stmt.matches : Stmt → Session → Bool
  | .lockByTokenHash h, s => s.hashedRefreshToken = h
  | .updateUsedAt id _, s => s.id = id
  | .insert _, _ => false
  | .deleteFamily familyId, s => s.familyId = familyId

/-- What is written on a row a statement takes. -/
def Stmt.writes : Stmt → Session → List Write
  | .updateUsedAt _ usedAt, s => [.setUsedAt s.id usedAt]
  | .deleteFamily _, s => [.delete s.id]
  | _, _ => []

def Stmt.rows (q : Stmt) (db : Sessions) : List Nat := (db.rows.filter q.matches).map Session.id

/-- The newest version of a row, if it still matches. -/
def Stmt.act (q : Stmt) (id : Nat) (db : Sessions) : Option (List Write) :=
  match db.find? id with
  | some s => if q.matches s then some (q.writes s) else none
  | none => none

/-- The primary key and the unique hash of an INSERT; an UPDATE that found no row is stale. -/
def Stmt.finish : Stmt → List Nat → Sessions → Except DbError (List Write)
  | .insert row, _, db =>
    if db.rows.any fun s => s.id = row.id ∨ s.hashedRefreshToken = row.hashedRefreshToken then
      .error .uniqueViolation
    else .ok [.insert row]
  | .updateUsedAt _ _, [], _ => .error .staleData
  | _, _, _ => .ok []

def engine : Engine Sessions Nat Write Stmt DbError where
  apply := Write.apply
  plan q db := (q, q.rows db)
  act := Stmt.act
  finish := Stmt.finish

/-! ## Queries (`crud/session.py`) -/

abbrev Program := Prog Sessions Nat Stmt DbError Failure

/-- A statement whose database errors escape as they are. -/
def execute (q : Stmt) : Program (List Nat × Sessions) :=
  .exec q fun
    | .ok r => .ret r
    | .error d => .raise (.database d)

/-- Locks and returns the session holding that token hash.  Used and expired rows come too. -/
def lockSessionByTokenHash (hashedRefreshToken : String) : Program (Option Session) := do
  let (hits, db) ← execute (.lockByTokenHash hashedRefreshToken)
  return hits.head?.bind db.find?

/-- Inserts a row and flushes.  A flush writes a row changed before it (`pending`) first. -/
def createSession (pending : Option Session) (row : Session) : Program Unit := do
  match pending with
  | some { id, usedAt := some usedAt, .. } => discard <| execute (.updateUsedAt id usedAt)
  | _ => pure ()
  discard <| execute (.insert row)

/-- The change waits for the next flush. -/
def markSessionUsed (session : Session) : Program Session := do
  let now ← Prog.now
  return { session with usedAt := some now }

def revokeFamily (familyId : Nat) : Program Unit := discard <| execute (.deleteFamily familyId)

/-! ## Services (`services/auth.py`) -/

def InvalidSessionError : AppError where
  code := "invalid_session"
  message := "Your session has expired. Please log in again."
  statusCode := 401

structure TokenPair where
  accessToken : String
  refreshToken : String
  deriving DecidableEq, Repr

def encodeAccessToken (env : Env) (userId : Nat) : Program String := do
  let issuedAt ← Prog.now
  return env.jwtEncode
    { sub := toString userId, iat := issuedAt, exp := issuedAt + ACCESS_TOKEN_LIFETIME }

/-- Mints a pair and records the session.  Only the refresh token's hash is stored. -/
def issueTokenPair (env : Env) (n : Nat) (pending : Option Session) (userId familyId : Nat) :
    Program TokenPair := do
  let refreshToken := env.generateRefreshToken n
  let now ← Prog.now
  createSession pending
    { id := env.sessionId n
      userId := userId
      familyId := familyId
      hashedRefreshToken := env.hashRefreshToken refreshToken
      usedAt := none
      expiresAt := now + REFRESH_TOKEN_LIFETIME }
  return { accessToken := ← encodeAccessToken env userId, refreshToken := refreshToken }

/-- Begins a new login family for a user who has already been authenticated. -/
def startSession (env : Env) (n userId : Nat) : Program TokenPair :=
  issueTokenPair env n none userId (env.uuid4 n)

/-- Rotates a refresh token.  Spending one twice revokes its whole family. -/
def refreshSession (env : Env) (n : Nat) (rawRefreshToken : String) : Program TokenPair := do
  match ← lockSessionByTokenHash (env.hashRefreshToken rawRefreshToken) with
  | none => .raise (.app InvalidSessionError)
  | some currentSession =>
    if currentSession.usedAt.isSome then
      revokeFamily currentSession.familyId
      .commit (.raise (.app InvalidSessionError))
    else
      let now ← Prog.now
      if currentSession.expiresAt < now then
        .raise (.app InvalidSessionError)
      else
        let used ← markSessionUsed currentSession
        issueTokenPair env n (some used) currentSession.userId currentSession.familyId

/-- Ends the whole login chain this token belongs to.  An unknown token is not an error. -/
def logoutUser (env : Env) (rawRefreshToken : String) : Program Unit := do
  match ← lockSessionByTokenHash (env.hashRefreshToken rawRefreshToken) with
  | none => pure ()
  | some currentSession => revokeFamily currentSession.familyId

/-! ## Requests -/

inductive Request where
  | startSession (userId : Nat)
  | refreshSession (rawRefreshToken : String)
  | logoutUser (rawRefreshToken : String)
  deriving DecidableEq, Repr

inductive Response where
  | tokens (pair : TokenPair)
  | done
  deriving DecidableEq, Repr

/-- Request `n`, as `get_db` runs it. -/
def handle (env : Env) (n : Nat) : Request → Program Response
  | .startSession userId => do return .tokens (← startSession env n userId)
  | .refreshSession rawRefreshToken => do return .tokens (← refreshSession env n rawRefreshToken)
  | .logoutUser rawRefreshToken => do
    logoutUser env rawRefreshToken
    return .done

abbrev AuthWorld := World Sessions Request Failure Response

abbrev AuthSystem := Sys Sessions Nat Write Stmt DbError Failure Response Request

/-- An empty table and nobody there. -/
def initialWorld : AuthWorld := { db := Table.empty }

end Tradinghub.Auth
