import LayeredConfig.Builder
import LayeredConfig.Catalog
import LayeredConfig.CommandLine.Invocation
import LayeredConfig.CommandLine.Run
import LayeredConfig.CommandLine.Token
import LayeredConfig.Coordinator.Basic
import LayeredConfig.Coordinator.Concurrent
import LayeredConfig.Coordinator.Flights
import LayeredConfig.Double.Basic
import LayeredConfig.Double.Reader
import LayeredConfig.Double.Shortest
import LayeredConfig.Duration
import LayeredConfig.Failure.Basic
import LayeredConfig.Failure.Chain
import LayeredConfig.Failure.Fault
import LayeredConfig.Kind
import LayeredConfig.Main
import LayeredConfig.Ordered
import LayeredConfig.Ordered.Runs
import LayeredConfig.Path
import LayeredConfig.Profile.Basic
import LayeredConfig.Profile.Derived
import LayeredConfig.Profile.Split
import LayeredConfig.Proofs.Ordered
import LayeredConfig.Proofs.Path
import LayeredConfig.Proofs.Tree.Place
import LayeredConfig.Proofs.Value.Frozen
import LayeredConfig.Reference
import LayeredConfig.Render
import LayeredConfig.Session.Building
import LayeredConfig.Session.Coordination
import LayeredConfig.Session.Object
import LayeredConfig.Session.Profiles
import LayeredConfig.Session.State
import LayeredConfig.Settings
import LayeredConfig.Source.Basic
import LayeredConfig.Source.Directory
import LayeredConfig.Text.Blank
import LayeredConfig.Text.Digit
import LayeredConfig.Text.Numeral
import LayeredConfig.Text.Pieces
import LayeredConfig.Text.Printable
import LayeredConfig.Text.Quoted
import LayeredConfig.Toml.Atom
import LayeredConfig.Toml.Document
import LayeredConfig.Toml.Quoted
import LayeredConfig.Tree.Basic
import LayeredConfig.Tree.Expand
import LayeredConfig.Tree.Layers
import LayeredConfig.Tree.Loose
import LayeredConfig.Value.Basic
import LayeredConfig.Value.Fingerprint
import LayeredConfig.Value.Foreign
import LayeredConfig.Value.Freeze
import LayeredConfig.Value.KeyOrder
import LayeredConfig.Value.Nesting
import LayeredConfig.Value.Pairs
import LayeredConfig.Value.Raw
import LayeredConfig.Value.Reading
import LayeredConfig.Value.Scalar
import LayeredConfig.Writes
import LayeredConfig.Proofs.Reference
import LayeredConfig.Proofs.Tree.Leaves
import LayeredConfig.Proofs.Tree.Overlay
import LayeredConfig.Proofs.Value.Freeze
import LayeredConfig.Proofs.Profile.Inheritance
import LayeredConfig.Proofs.Writes
import LayeredConfig.Proofs.Builder.Calls
import LayeredConfig.Proofs.Builder.Serving
import LayeredConfig.Proofs.Builder.Tombstone
import LayeredConfig.Proofs.Coordinator.Reloads
import LayeredConfig.Proofs.Source.Grouping
import LayeredConfig.Proofs.Tree.Grouping
import LayeredConfig.Proofs.Coordinator.Generations
import LayeredConfig.Proofs.Session.Derived
import LayeredConfig.Proofs.Session.Following
import LayeredConfig.Proofs.Source.Recall
import LayeredConfig.Proofs.Session.Sharing
import LayeredConfig.Proofs.Tree.Order
import LayeredConfig.Proofs.Profile.Offered
import LayeredConfig.Proofs.Profile.Entries
import LayeredConfig.Proofs.Profile.Tombstones
import LayeredConfig.Proofs.Value.Clear
import LayeredConfig.Proofs.Tree.Spelling
import LayeredConfig.Proofs.Tree.Writing
import LayeredConfig.Proofs.Tree.Frame
import LayeredConfig.Proofs.Builder.Edits
import LayeredConfig.Proofs.Builder.Interference
import LayeredConfig.Proofs.Session.Chains
import LayeredConfig.Proofs.Value.Leaves
import LayeredConfig.Proofs.Value.Kinds
import LayeredConfig.Proofs.Session.Typed
import LayeredConfig.Proofs.Value.Alike
import LayeredConfig.Proofs.Profile.Equality
import LayeredConfig.Proofs.Value.Fingerprint
import LayeredConfig.Proofs.Profile.Comparison
import LayeredConfig.Proofs.Coordinator.Turns
import LayeredConfig.Proofs.Coordinator.Sharing
import LayeredConfig.Proofs.Coordinator.Outcomes
import LayeredConfig.Proofs.Coordinator.Renewal
import LayeredConfig.Proofs.Profile.Overriding
import LayeredConfig.Proofs.Session.Overriding
import LayeredConfig.Proofs.Tree.LooseLayers
import LayeredConfig.Proofs.Tree.LateFreezing
import LayeredConfig.Proofs.Profile.Splitting
import LayeredConfig.Proofs.Builder.Direct
import LayeredConfig.Proofs.Builder.Prepared
import LayeredConfig.Proofs.Source.Failures
import LayeredConfig.Proofs.Profile.Failures
import LayeredConfig.Proofs.Builder.Reserved
import LayeredConfig.Proofs.Source.Changes
import LayeredConfig.Proofs.Session.Wrapping
import LayeredConfig.Proofs.Value.Data
import LayeredConfig.Proofs.Toml.Data
import LayeredConfig.Proofs.Source.Reading
import LayeredConfig.Proofs.Settings
import LayeredConfig.Proofs.CommandLine.Run
import LayeredConfig.Proofs.Profile.Pruning
import LayeredConfig.Proofs.Tree.FlatForm
import LayeredConfig.Proofs.Source.Tables
import LayeredConfig.Proofs.Failure.Chain
import LayeredConfig.Proofs.Value.Duration
import LayeredConfig.Proofs.Session.Duration
import LayeredConfig.Proofs.Value.Reordering
import LayeredConfig.Proofs.Tree.LooseWriting
import LayeredConfig.Proofs.Builder.Agreement
