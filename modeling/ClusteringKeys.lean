import ClusteringKeys.Json.Parser
import ClusteringKeys.Json.Printer
import ClusteringKeys.KeyLayout
import ClusteringKeys.KeyType.Json
import ClusteringKeys.Relation
import ClusteringKeys.Schema.Json
import ClusteringKeys.Settings
import ClusteringKeys.Value.Json
import ClusteringKeys.Proofs.Admission
import ClusteringKeys.Proofs.Key.Bounds
import ClusteringKeys.Proofs.Elements.Made
import ClusteringKeys.Proofs.KeyType.Clash
import ClusteringKeys.Proofs.RangeSet.Contains
import ClusteringKeys.Proofs.RangeSet.Intersection
import ClusteringKeys.Proofs.RangeSet.Lattice
import ClusteringKeys.Proofs.Relation.Runs
import ClusteringKeys.Proofs.Restriction
import ClusteringKeys.Proofs.Value.Accepted
import ClusteringKeys.Proofs.Slices
import ClusteringKeys.Proofs.Schema.Check
import ClusteringKeys.Proofs.Schema.Resolution
import ClusteringKeys.Proofs.Schema.Names
import ClusteringKeys.Proofs.Json.Number
import ClusteringKeys.Proofs.Json.Quoted
import ClusteringKeys.Proofs.Json.Documented
import ClusteringKeys.Proofs.Persisted
import ClusteringKeys.Proofs.Uuid.Time
import ClusteringKeys.Proofs.KeyType.Format
import ClusteringKeys.Proofs.Json.Reader
import ClusteringKeys.Proofs.Json.Standard
import ClusteringKeys.Elements
import ClusteringKeys.Proofs.Elements
