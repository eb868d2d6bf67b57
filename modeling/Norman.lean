import Norman.Lib.Run
import Norman.Lib.SortedMap
import Norman.Value
import Norman.Remotedialer
import Norman.Proofs.TunnelSteps
import Norman.Proofs.TunnelSide
import Norman.Proofs.TunnelPipe
import Norman.Proofs.Tunnel
import Norman.Apiserver
import Norman.Objectset
import Norman.Proofs.Listing
import Norman.Proofs.Documents
import Norman.Proofs.Reach
import Norman.Proofs.Ownership
import Norman.Proofs.Calls
import Norman.Proofs.Patching
import Norman.Proofs.Turns
import Norman.Proofs.Apply
import Norman.Proofs.Converge
import Norman.Lib.Workqueue
import Norman.Controller
import Norman.Proofs.Transitions
import Norman.Proofs.Exclusion
import Norman.Proofs.Coverage
import Norman.Proofs.Handlers
import Norman.Schemas
import Norman.Proofs.TypeNames
import Norman.Proofs.SchemaViews
import Norman.Proofs.References
import Norman.Lib.Gather
import Norman.Convert
import Norman.Builder
import Norman.Proofs.Levels
import Norman.Proofs.WriteProtect
import Norman.Proofs.Secrets
import Norman.Proofs.Typing
import Norman.Merge
import Norman.Proofs.Metadata
import Norman.Proofs.Kept
import Norman.Proofs.Listed
import Norman.Proofs.ReadBack
import Norman.Proxy
import Norman.Proofs.Updates
import Norman.Broadcast
import Norman.Proofs.Subscribers
import Norman.Lib.Varint
import Norman.Wire
import Norman.Proofs.Wire
import Norman.Lib.Weight
import Norman.Proofs.Echo
import Norman.Sessions
import Norman.Proofs.RemoteClients
import Norman.Teardown
import Norman.Proofs.Closing
import Norman.Proofs.Teardown
import Norman.Lifecycle
import Norman.Proofs.Lifecycle
import Norman.Proofs.MergeTwice
import Norman.Query
import Norman.Urlbuilder
import Norman.Parse
import Norman.Server
import Norman.Subcontext
import Norman.Proofs.Subcontext
import Norman.Proofs.Mediation
import Norman.StoreWrapper
import Norman.Proofs.Wrapped
import Norman.Mapper
import Norman.Proofs.Ids
import Norman.Creation
import Norman.Proofs.Creation
import Norman.Lib.Fallible
import Norman.Reflection
import Norman.Proofs.Imports
import Norman.Proofs.Nesting
import Norman.Lib.Parts
import Norman.Proofs.Paths
import Norman.Proofs.Links
import Norman.Proofs.VersionPaths
import Norman.Lib.Strconv
import Norman.Proofs.Numbers
import Norman.Proofs.Retry
import Norman.Lib.Urlencode
import Norman.Collection
import Norman.Proofs.Filters
import Norman.Proofs.Order
import Norman.Proofs.Paging
import Norman.Proofs.Replace
import Norman.Condition
import Norman.Lib.Descent
import Norman.Proofs.Flapping
import Norman.Proofs.Bounds
import Norman.Proofs.Exported
import Norman.Proofs.Recreate
import Norman.Lib.Nested
import Norman.Mappers
import Norman.Proofs.Moves
import Norman.Proofs.Embeds
import Norman.Proofs.UnionEmbeds
import Norman.Lib.Base64
import Norman.Base64
import Norman.Proofs.Base64
import Norman.TypeMappers
import Norman.Proofs.TypeMappers
import Norman.MergePatch
import Norman.Proofs.Sanitize
import Norman.Proofs.Injected
import Norman.Lib.DepthFirst
import Norman.SchemaStore
import Norman.Proofs.SchemaStore
import Norman.Proofs.EmbedChains
import Norman.Proofs.EmbedFields
import Norman.Proofs.Frames
import Norman.Proofs.PageBounds
import Norman.Keys
import Norman.Proofs.Keys
import Norman.Proofs.TextFields
import Norman.Proofs.SliceToMap
import Norman.Proofs.Segments
import Norman.Transform
import Norman.Proofs.Transform
import Norman.Lib.Channel
import Norman.Buffer
import Norman.Proofs.Buffer
import Norman.Streams
import Norman.Proofs.Streams
import Norman.Proofs.StoreWrapper
import Norman.Cluster
import Norman.Proofs.Cluster
import Norman.PageLinks
import Norman.Proofs.PageLinks
import Norman.Proofs.OnceRuns
