/-!
# Failures

An `AppError` is a failure a service raises on purpose; the handler answers with its three fields.
Everything else that ends a request without an answer of its own (a constraint, a dropped
connection) is a `Failure` too, and `get_db` rolls all of them back alike.
-/

namespace Tradinghub

structure AppError where
  code : String
  message : String
  statusCode : Nat
  deriving DecidableEq, Repr

/-- What the database, or the ORM in front of it, answers instead of doing a statement. -/
inductive DbError where
  | uniqueViolation
  | foreignKeyViolation
  | numericOverflow
  | integerOverflow
  | staleData
  | deadlockDetected
  deriving DecidableEq, Repr

inductive Failure where
  | app (error : AppError)
  | database (error : DbError)
  | cancelled
  deriving DecidableEq, Repr

end Tradinghub
