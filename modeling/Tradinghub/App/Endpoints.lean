import Tradinghub.Auth.Users
import Tradinghub.Ledger.Services

/-!
# The application

Every endpoint of the two routers over one database, which holds the sessions, the users and the
ledger.  A request is one transaction over all of it.  What one table asks of another (the foreign
keys to `users`) is not checked here: a refusal is one of the ways a request can be given up.
-/

namespace Tradinghub.App

open ReadCommitted
open Ledger (Collation)

abbrev Database := Auth.AuthDb × Ledger.Db

abbrev Key := (Nat ⊕ String) ⊕ Ledger.Key

abbrev Write := (Auth.Write ⊕ Auth.UserWrite) ⊕ Ledger.Write

abbrev Stmt := (Auth.Stmt ⊕ Auth.UserStmt) ⊕ Ledger.Stmt

abbrev Program := Prog Database Key Stmt DbError Failure

def engine [Collation] : Engine Database Key Write Stmt DbError :=
  Auth.authEngine.prod Ledger.engine

structure Env where
  auth : Auth.AccountEnv
  ledger : Ledger.Env

/-- The plain supplies of both. -/
def Env.unary : Env where
  auth := .unary
  ledger := .counting

/-- What a request answers that its schema rejects, before any route code runs. -/
def RequestValidationError : AppError where
  code := "validation_error"
  message := "The request is invalid."
  statusCode := 422

/-- `claims` is the user id in the access cookie, if there is a usable one. -/
inductive Request where
  | unprocessable
  | auth (endpoint : Auth.Endpoint)
  | ledger (claims : Option Nat) (endpoint : Ledger.Endpoint)
  deriving DecidableEq, Repr

inductive Response where
  | auth (reply : Auth.Reply)
  | ledger (response : Ledger.Response)
  deriving DecidableEq, Repr

/-- Request `n`, as `get_db` runs it. -/
def handle [Collation] (env : Env) (n : Nat) : Request → Program Response
  | .unprocessable => .raise (.app RequestValidationError)
  | .auth endpoint => do
    return .auth (← (Auth.route env.auth n endpoint).left)
  | .ledger none _ => .raise (.app Auth.InvalidSessionError)
  | .ledger (some userId) endpoint => do
    return .ledger (← (Ledger.handle env.ledger n { userId := userId, endpoint := endpoint }).right)

abbrev AppWorld := World Database Request Failure Response

abbrev AppSystem := Sys Database Key Write Stmt DbError Failure Response Request

end Tradinghub.App
