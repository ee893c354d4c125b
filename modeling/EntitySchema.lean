import EntitySchema.Command
import EntitySchema.Command.Arguments
import EntitySchema.Command.Sources
import EntitySchema.Compilation
import EntitySchema.Files.Tree
import EntitySchema.Json.Reader
import EntitySchema.Main
import EntitySchema.Report
import EntitySchema.Xml.Printer
import EntitySchema.Proofs.Evolution
import EntitySchema.Proofs.Lineage
import EntitySchema.Proofs.Growth
import EntitySchema.Proofs.Resolution
import EntitySchema.Proofs.LinkEntities
import EntitySchema.Proofs.Documents
import EntitySchema.Proofs.Integrity
import EntitySchema.Proofs.Order
import EntitySchema.Proofs.Tables
import EntitySchema.Proofs.Preservation
import EntitySchema.Proofs.Layers
import EntitySchema.Proofs.DisplayLabels
import EntitySchema.Proofs.Labels
import EntitySchema.Proofs.StaleLabels
import EntitySchema.Proofs.SoundEntities
import EntitySchema.Proofs.KeyIntegrity
import EntitySchema.Proofs.ClosedHierarchy
import EntitySchema.Proofs.LinkRounds
import EntitySchema.Proofs.JoinEntities
import EntitySchema.Proofs.LowerText
import EntitySchema.Proofs.Enclosure
import EntitySchema.Proofs.FieldSources
import EntitySchema.Proofs.MadeEntities
import EntitySchema.Proofs.LegalNames
import EntitySchema.Proofs.Relocation
import EntitySchema.Proofs.Numbering
import EntitySchema.Proofs.LinkNames
import EntitySchema.Proofs.TakenFields
import EntitySchema.Proofs.OwnFields
import EntitySchema.Proofs.Outcome
import EntitySchema.Proofs.Overrides
import EntitySchema.Proofs.RootDiscriminator
import EntitySchema.Proofs.Representation
import EntitySchema.Proofs.ApartEntities
import EntitySchema.Proofs.TwoSides
import EntitySchema.Proofs.Correspondence
import EntitySchema.Proofs.SteadyLabels
import EntitySchema.Proofs.ResolutionOrder
import EntitySchema.Proofs.Headings
import EntitySchema.Proofs.LinkColumns
import EntitySchema.Proofs.PrintedDocuments
import EntitySchema.Proofs.JsonForm
import EntitySchema.Proofs.LinkLengths
import EntitySchema.Proofs.NameLengths
import EntitySchema.Proofs.BareScreens
import EntitySchema.Proofs.ClosedScreens
import EntitySchema.Proofs.ScreenReading
import EntitySchema.Proofs.RootScreens
import EntitySchema.Proofs.SplitDocuments
import EntitySchema.Proofs.KeyCopies
import EntitySchema.Proofs.KeyPropagation
import EntitySchema.Proofs.FieldOwners
import EntitySchema.Proofs.Discriminators
import EntitySchema.Proofs.IdentityRoots
import EntitySchema.Proofs.MovedFields
import EntitySchema.Proofs.CorrectedKeys
import EntitySchema.Proofs.SoundReferences
import EntitySchema.Proofs.HierarchyCheck
import EntitySchema.Proofs.DependencyCircles
import EntitySchema.Proofs.CanonicalOrder
import EntitySchema.Proofs.ScreenRuns
import EntitySchema.Proofs.IntactModels
import EntitySchema.Proofs.NestedIncludes
import EntitySchema.Proofs.InheritedDecorators
import EntitySchema.Proofs.FilledLinks
import EntitySchema.Proofs.HierarchyQueries
import EntitySchema.Proofs.CutNames
import EntitySchema.Proofs.FreeNames
import EntitySchema.Proofs.Numerals
import EntitySchema.Proofs.ReadingStages
import EntitySchema.Proofs.NumberAttributes
import EntitySchema.Proofs.ListEntries
import EntitySchema.Proofs.RenamedFields
