import PatternScript.Preview.Panel
import PatternScript.Proofs.Blocks.Complaints
import PatternScript.Proofs.Blocks.Nesting
import PatternScript.Proofs.Bytes.Readings
import PatternScript.Proofs.CanvasWrites
import PatternScript.Proofs.Culling.Moderate
import PatternScript.Proofs.JobOutcomes
import PatternScript.Proofs.LineWalks
import PatternScript.Proofs.Lines.Clipping
import PatternScript.Proofs.Lines.Painting
import PatternScript.Proofs.PreviewJobs
import PatternScript.Proofs.Printing.Listing
import PatternScript.Proofs.Printing.Spacing
import PatternScript.Proofs.Reading.Declarations
import PatternScript.Proofs.Reading.Definitions
import PatternScript.Proofs.Reading.Grammar
import PatternScript.Proofs.Running.Builtin
import PatternScript.Proofs.Running.Emission
import PatternScript.Proofs.Running.Histories
import PatternScript.Proofs.Running.Interruption
import PatternScript.Proofs.Running.PatternUses
import PatternScript.Proofs.Running.Precedence
import PatternScript.Proofs.Running.StaticChecks
import PatternScript.Proofs.Running.Unrolling
import PatternScript.Proofs.Running.Yields
import PatternScript.Proofs.Sampling.FastPaths
import PatternScript.Proofs.SurfaceSizes
import PatternScript.Raster.Job
import PatternScript.Script.Outline
