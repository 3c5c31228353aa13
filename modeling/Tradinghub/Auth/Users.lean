import Tradinghub.Auth.Attempts
import Tradinghub.Ledger.Services
import Tradinghub.Lib.Product

/-!
# Users, and the auth endpoints

The users table behind `crud/user.py`, the services that need it beside the sessions
(`registerUser`, `loginUser`), and `routes.py`.  An email is `citext`: the unique index holds its
folded form, and an INSERT waits for whoever else is inserting that form.
-/

namespace Tradinghub.Auth

open ReadCommitted Store
open Ledger (Collation)

/-! ## The table -/

structure User where
  id : Nat
  email : String
  passwordHash : String
  deriving DecidableEq, Repr

instance : Keyed User := ⟨User.id⟩

abbrev Users := Table User

inductive UserStmt where
  | insert (row : User)
  deriving DecidableEq, Repr

inductive UserWrite where
  | insert (row : User)
  deriving DecidableEq, Repr

section Table

variable [Collation]

/-- The rows taken are entries of the index on the email. -/
def usersEngine : Engine Users String UserWrite UserStmt DbError where
  apply
    | .insert row, db => db.put row
  plan
    | .insert row, _ => (.insert row, [Collation.fold row.email])
  act _ _ _ := some []
  finish
    | .insert row, _, db =>
      if db.rows.any fun u => u.id = row.id ∨ Collation.fold u.email = Collation.fold row.email then
        .error .uniqueViolation
      else .ok [.insert row]

abbrev UserProgram := Prog Users String UserStmt DbError Failure

/-- Matching is case-insensitive via citext. -/
def getUserByEmail (email : String) : UserProgram (Option User) :=
  Prog.select fun db => db.rows.find? fun u => Collation.fold u.email = Collation.fold email

/-- Inserts a row and flushes.  The caller decides what a refusal means. -/
def createUser (user : User) : UserProgram (Except DbError User) :=
  .exec (.insert user) fun r => .ret (r.map fun _ => user)

end Table

def getUserById (userId : Nat) : UserProgram (Option User) := Prog.select fun db => db.find? userId

/-! ## Services (`services/auth.py`) -/

/-- What the process supplies beside the tokens: hashing, and what Redis counted for request `n`
(`none` when it could not be reached). -/
structure AccountEnv extends Env where
  userId : Nat → Nat
  hashPassword : Nat → String → String
  verifyPassword : String → String → Bool
  DUMMY_PASSWORD_HASH : String
  loginAttempts : Nat → Option (Nat × Nat)
  registrationAttempts : Nat → Option Nat
  userId_fresh : ∀ n m, userId n = userId m → n = m

/-- A supply that hashes nothing and counts no attempts. -/
def AccountEnv.unary : AccountEnv where
  toEnv := .unary
  userId := id
  hashPassword _ rawPassword := rawPassword
  verifyPassword rawPassword passwordHash := rawPassword = passwordHash
  DUMMY_PASSWORD_HASH := ""
  loginAttempts _ := none
  registrationAttempts _ := none
  userId_fresh _ _ h := h

def EmailTakenError : AppError where
  code := "email_taken"
  message := "That email is already registered."
  statusCode := 409

def InvalidCredentialsError : AppError where
  code := "invalid_credentials"
  message := "Email or password is incorrect."
  statusCode := 401

def RateLimitedError : AppError where
  code := "rate_limited"
  message := "Too many attempts. Please try again later."
  statusCode := 429

def MAX_LOGINS_PER_EMAIL : Nat := 10

def MAX_LOGINS_PER_IP : Nat := 30

def MAX_REGISTRATIONS_PER_IP : Nat := 30

/-- Sessions and users, in one transaction. -/
abbrev AuthDb := Sessions × Users

abbrev AuthProgram := Prog AuthDb (Nat ⊕ String) (Stmt ⊕ UserStmt) DbError Failure

def authEngine [Collation] :
    Engine AuthDb (Nat ⊕ String) (Write ⊕ UserWrite) (Stmt ⊕ UserStmt) DbError :=
  engine.prod usersEngine

variable (env : AccountEnv) (n : Nat)

/-- An attempt that could not be counted is allowed. -/
def countLoginAttempt : AuthProgram Unit :=
  match env.loginAttempts n with
  | none => pure ()
  | some (emailAttempts, ipAttempts) =>
    if MAX_LOGINS_PER_EMAIL < emailAttempts ∨ MAX_LOGINS_PER_IP < ipAttempts then
      .raise (.app RateLimitedError)
    else pure ()

def countRegistrationAttempt : AuthProgram Unit :=
  match env.registrationAttempts n with
  | none => pure ()
  | some attempts =>
    if MAX_REGISTRATIONS_PER_IP < attempts then .raise (.app RateLimitedError) else pure ()

variable [Collation]

/-- Creates an account and signs it in.  The lookup is the fast path, the unique index decides. -/
def registerUser (email rawPassword : String) : AuthProgram (User × TokenPair) := do
  countRegistrationAttempt env n
  match ← (getUserByEmail email).right with
  | some _ => .raise (.app EmailTakenError)
  | none =>
    let row : User :=
      { id := env.userId n, email := email, passwordHash := env.hashPassword n rawPassword }
    match ← (createUser row).right with
    | .error d =>
      if Ledger.DbError.isIntegrityError d then .raise (.app EmailTakenError)
      else .raise (.database d)
    | .ok user =>
      let pair ← (startSession env.toEnv n user.id).left
      return (user, pair)

/-- Starts a session.  Both failures cost one verification. -/
def loginUser (email rawPassword : String) : AuthProgram (User × TokenPair) := do
  countLoginAttempt env n
  let user ← (getUserByEmail email).right
  let passwordHash := (user.map User.passwordHash).getD env.DUMMY_PASSWORD_HASH
  let passwordMatches := env.verifyPassword rawPassword passwordHash
  match user with
  | none => .raise (.app InvalidCredentialsError)
  | some user =>
    if passwordMatches then
      let pair ← (startSession env.toEnv n user.id).left
      return (user, pair)
    else .raise (.app InvalidCredentialsError)

/-! ## Endpoints (`routes.py`) -/

/-- `claims` is the user id in the access cookie, if there is a usable one. -/
inductive Endpoint where
  | register (email password : String)
  | login (email password : String)
  | refresh (rawRefreshToken : Option String)
  | logout (rawRefreshToken : Option String)
  | me (claims : Option Nat)
  deriving DecidableEq, Repr

structure UserResponse where
  id : Nat
  email : String
  deriving DecidableEq, Repr

inductive Reply where
  | signedIn (user : UserResponse) (pair : TokenPair)
  | refreshed (pair : TokenPair)
  | loggedOut
  | account (user : UserResponse)
  deriving DecidableEq, Repr

def route : Endpoint → AuthProgram Reply
  | .register email password => do
    let (user, pair) ← registerUser env n email password
    return .signedIn { id := user.id, email := user.email } pair
  | .login email password => do
    let (user, pair) ← loginUser env n email password
    return .signedIn { id := user.id, email := user.email } pair
  | .refresh none => .raise (.app InvalidSessionError)
  | .refresh (some rawRefreshToken) => do
    return .refreshed (← (refreshSession env.toEnv n rawRefreshToken).left)
  | .logout none => return .loggedOut
  | .logout (some rawRefreshToken) => do
    (logoutUser env.toEnv rawRefreshToken).left
    return .loggedOut
  | .me none => .raise (.app InvalidSessionError)
  | .me (some userId) => do
    match ← (getUserById userId).right with
    | none => .raise (.app InvalidSessionError)
    | some user => return .account { id := user.id, email := user.email }

end Tradinghub.Auth
