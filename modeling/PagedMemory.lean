import PagedMemory.Console
import PagedMemory.Scenario.Basic
import PagedMemory.Proofs.Isolation
import PagedMemory.Proofs.ReferenceCounts
import PagedMemory.Proofs.Terminations
import PagedMemory.Proofs.TranslationCache
import PagedMemory.Proofs.CountLimits
import PagedMemory.Proofs.Policies
import PagedMemory.Proofs.Reservation
import PagedMemory.Proofs.ForkExit
import PagedMemory.Proofs.MissingPages
import PagedMemory.Proofs.SharedPages
import PagedMemory.Proofs.VerifiedAreas
import PagedMemory.Proofs.ArgumentPages
import PagedMemory.Proofs.ExactCopies
import PagedMemory.Proofs.Auditing
import PagedMemory.Proofs.SinglePages
import PagedMemory.Proofs.RepeatedFaults
import PagedMemory.Proofs.ReplacedPages
import PagedMemory.Proofs.Balances
import PagedMemory.Proofs.IdentityMap
import PagedMemory.Proofs.Walks
import PagedMemory.Proofs.Stores
