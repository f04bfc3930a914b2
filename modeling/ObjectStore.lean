import ObjectStore.Collection.Handover
import ObjectStore.Collection.Reads
import ObjectStore.Collection.Writes
import ObjectStore.Inspection.Handles
import ObjectStore.Proofs.Container.Framing
import ObjectStore.Proofs.Filter.Canonical
import ObjectStore.Proofs.Filter.Joining
import ObjectStore.Proofs.Filter.Placeholders
import ObjectStore.Proofs.Filter.Ranges
import ObjectStore.Proofs.Filter.Soundness
import ObjectStore.Proofs.Run.Commits
import ObjectStore.Proofs.Run.Conforming
import ObjectStore.Proofs.Run.Delivery
import ObjectStore.Proofs.Run.Forms
import ObjectStore.Proofs.Run.Gate
import ObjectStore.Proofs.Run.Handles
import ObjectStore.Proofs.Run.Handover
import ObjectStore.Proofs.Run.Identities
import ObjectStore.Proofs.Run.Membership
import ObjectStore.Proofs.Run.Modified
import ObjectStore.Proofs.Run.Observers
import ObjectStore.Proofs.Run.Reads
import ObjectStore.Proofs.Run.Rebuild
import ObjectStore.Proofs.Run.Refusals
import ObjectStore.Proofs.Run.Scopes
import ObjectStore.Proofs.Run.Sets
import ObjectStore.Proofs.Run.Waiting
import ObjectStore.Proofs.Store.Removal
import ObjectStore.Proofs.Value.Comparisons
import ObjectStore.Proofs.View.Materialized
import ObjectStore.Proofs.View.Narrowing
import ObjectStore.Proofs.View.Ordered
import ObjectStore.Proofs.View.Totals
import ObjectStore.Session.Delivery
import ObjectStore.Session.Objects
import ObjectStore.Session.Transaction
import ObjectStore.Value.Typed
