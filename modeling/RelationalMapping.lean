import RelationalMapping.Exchange.Json
import RelationalMapping.Failure.Desk
import RelationalMapping.Model.Closure
import RelationalMapping.Model.Command
import RelationalMapping.Model.Verification
import RelationalMapping.Proofs.Access
import RelationalMapping.Proofs.Breaches
import RelationalMapping.Proofs.Coherence
import RelationalMapping.Proofs.Coverage
import RelationalMapping.Proofs.Cycles
import RelationalMapping.Proofs.Descent
import RelationalMapping.Proofs.Enrolment
import RelationalMapping.Proofs.Grouping
import RelationalMapping.Proofs.Inheritance
import RelationalMapping.Proofs.OrderedScopes
import RelationalMapping.Proofs.References
import RelationalMapping.Proofs.Registration
import RelationalMapping.Proofs.Representation
import RelationalMapping.Proofs.Verified
import RelationalMapping.Proofs.CauseLinks
import RelationalMapping.Proofs.HolderCounts
import RelationalMapping.Proofs.Permanence
import RelationalMapping.Proofs.Refusal
import RelationalMapping.Proofs.PlainFailures
import RelationalMapping.Proofs.FreeFailures
import RelationalMapping.Proofs.Independence
import RelationalMapping.Proofs.Polymorphism
import RelationalMapping.Proofs.VisitOrder
import RelationalMapping.Proofs.OwnParts
import RelationalMapping.Proofs.PartialVisit
import RelationalMapping.Proofs.ClosureLevels
import RelationalMapping.Proofs.NewChild
import RelationalMapping.Proofs.Verdicts
import RelationalMapping.Proofs.PartOrder
import RelationalMapping.Proofs.ScopePaths
import RelationalMapping.Proofs.ValueLookup
import RelationalMapping.Proofs.RemarkLevels
import RelationalMapping.Proofs.TableHistory
import RelationalMapping.Proofs.ContextTexts
import RelationalMapping.Proofs.EventAccount
