import EntitySchema.Main
import EntitySchema.Sample
import EntitySchema.Text.Bracketed
import EntitySchema.Text.Lines
import EntitySchema.Wire.Store
import EntitySchema.Wire.Buffer
import EntitySchema.Schema.Catalog
import EntitySchema.Proofs.Fields
import EntitySchema.Proofs.Reading
import EntitySchema.Proofs.ObjectRoundTrip
import EntitySchema.Proofs.Execution
import EntitySchema.Proofs.WellFormed
import EntitySchema.Proofs.Linking
import EntitySchema.Proofs.Placement
import EntitySchema.Proofs.StructureRoundTrip
import EntitySchema.Proofs.MapOrder
import EntitySchema.Proofs.DataStorage
import EntitySchema.Proofs.PayloadRoundTrip
import EntitySchema.Proofs.UpdateRoundTrip
import EntitySchema.Proofs.Schedule
import EntitySchema.Proofs.Convergence
import EntitySchema.Proofs.Transmission
import EntitySchema.Proofs.Flushing
import EntitySchema.Proofs.UpdateMerging
import EntitySchema.Proofs.PayloadDelimiting
import EntitySchema.Proofs.WrittenForm
import EntitySchema.Proofs.Normalization
import EntitySchema.Proofs.Payloads
import EntitySchema.Proofs.Identifiers
import EntitySchema.Proofs.ModuleNodes
import EntitySchema.Proofs.EmittedNames
import EntitySchema.Proofs.Mentions
import EntitySchema.Proofs.EmittedPaths
import EntitySchema.Proofs.DocumentOrder
import EntitySchema.Proofs.Registration
import EntitySchema.Proofs.Promotion
import EntitySchema.Proofs.ModuleFiles
import EntitySchema.Proofs.KindIndex
import EntitySchema.Proofs.StoreRefinement
import EntitySchema.Proofs.CodeReading
import EntitySchema.Proofs.RootTables
import EntitySchema.Proofs.RootDispatch
import EntitySchema.Proofs.CanonicalEncoding
import EntitySchema.Proofs.UnreadContent
import EntitySchema.Proofs.Containment
import EntitySchema.Proofs.LoadingTermination
import EntitySchema.Proofs.GeneratedReplication
import EntitySchema.Proofs.EmittableNames
import EntitySchema.Proofs.Violations
import EntitySchema.Proofs.PackageOrder
import EntitySchema.Proofs.DecodingDefects
import EntitySchema.Proofs.Spelling
import EntitySchema.Proofs.Skipping
import EntitySchema.Proofs.LayoutReading
import EntitySchema.Proofs.DocumentSpelling
import EntitySchema.Proofs.SignFolding
import EntitySchema.Proofs.BufferReading
import EntitySchema.Proofs.PathNames
import EntitySchema.Proofs.TreeNames
import EntitySchema.Proofs.FileOrder
import EntitySchema.Proofs.DocumentDiscovery
