import LayerLoops.Extent
import LayerLoops.Main
import LayerLoops.Proofs.Accumulators
import LayerLoops.Proofs.Buffers
import LayerLoops.Proofs.Concatenation
import LayerLoops.Proofs.Declarations
import LayerLoops.Proofs.Definitions
import LayerLoops.Proofs.Dependencies
import LayerLoops.Proofs.Escapes
import LayerLoops.Proofs.Expansion
import LayerLoops.Proofs.Flattening
import LayerLoops.Proofs.GeneratedFiles
import LayerLoops.Proofs.Indentation
import LayerLoops.Proofs.InlineSource
import LayerLoops.Proofs.Interrupted
import LayerLoops.Proofs.Isolation
import LayerLoops.Proofs.Layout
import LayerLoops.Proofs.Locations
import LayerLoops.Proofs.LoopHeaders
import LayerLoops.Proofs.OrderOptions
import LayerLoops.Proofs.Ordinals
import LayerLoops.Proofs.PoolingSeeds
import LayerLoops.Proofs.Spanning
import LayerLoops.Proofs.TokenSlices
import LayerLoops.Proofs.Totality
import LayerLoops.Proofs.TypeNames
import LayerLoops.Proofs.Typedefs
import LayerLoops.Proofs.WindowCounts
