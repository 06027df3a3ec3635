import LedgerCredit.Txn.Soundness
import LedgerCredit.Txn.Stages
import LedgerCredit.Txn.Alone
import LedgerCredit.Choices
import LedgerCredit.TransferRuns
import LedgerCredit.BatchRuns
import LedgerCredit.Effects
import LedgerCredit.DoubleEntry
import LedgerCredit.LostUpdates
import LedgerCredit.Outcomes
import LedgerCredit.Clearing
import LedgerCredit.Deliveries
import LedgerCredit.Keys
import LedgerCredit.Submission
import LedgerCredit.Addressed
import LedgerCredit.References
import LedgerCredit.TransferStates
import LedgerCredit.Auth.Schema
import LedgerCredit.Auth.Identity
import LedgerCredit.Auth.Sessions
import LedgerCredit.Auth.Actors
import LedgerCredit.Auth.Rotation
import LedgerCredit.Credit.Paging
import LedgerCredit.Credit.Reviews
import LedgerCredit.AuditTrail
import LedgerCredit.ActiveAccounts
import LedgerCredit.Credit.Evidence
import LedgerCredit.Duplicates
import LedgerCredit.Credit.Scores
import LedgerCredit.Credit.Traceable
import LedgerCredit.Credit.AssessmentKeys
import LedgerCredit.WorkerPool
import LedgerCredit.JournalEntries
import LedgerCredit.Attempts
import LedgerCredit.Tally
import LedgerCredit.Snapshots
import LedgerCredit.Redelivery
import LedgerCredit.Retries
import LedgerCredit.Reconstruction
import LedgerCredit.FastPath
import LedgerCredit.EndedRuns
import LedgerCredit.Orders
import LedgerCredit.Refinement
import LedgerCredit.Auth.Chains
import LedgerCredit.Auth.Privileges
