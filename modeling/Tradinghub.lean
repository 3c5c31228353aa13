import Tradinghub.Core.Errors
import Tradinghub.Lib.ReadCommitted
import Tradinghub.Lib.Trace
import Tradinghub.Lib.Connections
import Tradinghub.Lib.RelyGuarantee
import Tradinghub.Lib.Outline
import Tradinghub.Lib.Deadlock
import Tradinghub.Lib.Attempt
import Tradinghub.Lib.Alone
import Tradinghub.Lib.Product
import Tradinghub.Lib.Table
import Tradinghub.Lib.Sql
import Tradinghub.Lib.Schema
import Tradinghub.Lib.Casing
import Tradinghub.Lib.StringConstraints
import Tradinghub.Lib.Counters
import Tradinghub.Lib.Decimal
import Tradinghub.Lib.DecimalText
import Tradinghub.Lib.DecimalContext
import Tradinghub.Lib.IntText
import Tradinghub.Lib.CookieJar
import Tradinghub.Lib.Fair
import Tradinghub.Core.Schemas
import Tradinghub.Auth.Sessions
import Tradinghub.Auth.Lineage
import Tradinghub.Auth.Discipline
import Tradinghub.Auth.Rotation
import Tradinghub.Auth.Revocation
import Tradinghub.Auth.Serial
import Tradinghub.Auth.SessionStore
import Tradinghub.Auth.Refinement
import Tradinghub.Auth.Attempts
import Tradinghub.Auth.Spending
import Tradinghub.Auth.Places
import Tradinghub.Auth.Waiting
import Tradinghub.Auth.OutOfTurn
import Tradinghub.Auth.Users
import Tradinghub.Auth.RateLimit
import Tradinghub.Auth.Refusals
import Tradinghub.Auth.Accounts
import Tradinghub.Auth.Cookies
import Tradinghub.Ledger.Model
import Tradinghub.Ledger.Queries
import Tradinghub.Ledger.Statements
import Tradinghub.Ledger.Services
import Tradinghub.Ledger.Amounts
import Tradinghub.Ledger.Effects
import Tradinghub.Ledger.Discipline
import Tradinghub.Ledger.Signs
import Tradinghub.Ledger.Transfers
import Tradinghub.Ledger.Units
import Tradinghub.Ledger.Serial
import Tradinghub.Ledger.SerialSigns
import Tradinghub.Ledger.Ownership
import Tradinghub.Ledger.Balances
import Tradinghub.Ledger.Summary
import Tradinghub.Ledger.Transferring
import Tradinghub.Ledger.Periods
import Tradinghub.Ledger.Deleting
import Tradinghub.Ledger.Editing
import Tradinghub.Ledger.Paging
import Tradinghub.Ledger.PageStates
import Tradinghub.Ledger.Categories
import Tradinghub.Ledger.Racing
import Tradinghub.Ledger.Archiving
import Tradinghub.Ledger.Served
import Tradinghub.Ledger.Names
import Tradinghub.Ledger.Moments
import Tradinghub.Ledger.History
import Tradinghub.Ledger.Deadlocks
import Tradinghub.Ledger.Failing
import Tradinghub.Ledger.Shown
import Tradinghub.Ledger.Migrations
import Tradinghub.Frontend.Client
import Tradinghub.Frontend.Exchanges
import Tradinghub.Frontend.Tokens
import Tradinghub.Frontend.Turns
import Tradinghub.Frontend.Heard
import Tradinghub.Frontend.Settling
import Tradinghub.Frontend.Reuse
import Tradinghub.Frontend.Reports
import Tradinghub.App.Endpoints
import Tradinghub.App.Failures
