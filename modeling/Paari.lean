import Paari.Server
import Paari.Conduct
import Paari.Corroboration
import Paari.SingleUse
import Paari.StateIntegrity
import Paari.RefundBound
import Paari.WebhookReplay
import Paari.Footprint
import Paari.Revocation
import Paari.Adoption
import Paari.Chain
import Paari.Delegation
import Paari.Authenticity
import Paari.ChainLock
import Paari.Custody
import Paari.Ambiguity
import Paari.Evidence
import Paari.ProofUse
import Paari.Books
import Paari.Bookkeeping
import Paari.Accounting
import Paari.Governance
import Paari.Spelling
import Paari.Broker
import Paari.Confinement
import Paari.Sdk
import Paari.Tenancy
import Paari.Unsubmitted
import Paari.Grounds
import Paari.Rows
import Paari.Onboarding
import Paari.Permanence
import Paari.Ownership
import Paari.DelegationUse
import Paari.Pairing
import Paari.Verdicts
import Paari.Budget
import Paari.Signing
import Paari.Lifecycle
import Paari.Challenges
import Paari.Bundles
import Paari.Decisions
import Paari.Terms
import Paari.Debits
import Paari.Reviews
import Paari.Gates
import Paari.Validation
import Paari.Envelopes
import Paari.AgentLoop
import Paari.Cards
import Paari.Disposable
import Paari.RateLimit
import Paari.PaymentStatus
import Paari.Origins
import Paari.Carrying
import Paari.Attribution
import Paari.Simulated
import Paari.Wire
import Paari.Wired
import Paari.Agreement
import Paari.Client
