import NestLayers.Main
import NestLayers.Proofs.BodyRecords
import NestLayers.Proofs.DescriptionOwner
import NestLayers.Proofs.DirectorySearch
import NestLayers.Proofs.ExportEffect
import NestLayers.Proofs.OmittedProperties
import NestLayers.Proofs.PackageClosure
import NestLayers.Proofs.PackageRun
import NestLayers.Proofs.PathPlaces
import NestLayers.Proofs.UnitRoundTrip
import NestLayers.Proofs.Changes
import NestLayers.Proofs.ResourceDirectory
import NestLayers.Proofs.LayerChanges
import NestLayers.Proofs.ResourceLayers
import NestLayers.Proofs.ProjectLayout
import NestLayers.Proofs.LayerRuns
import NestLayers.Proofs.LayerOrder
import NestLayers.Proofs.ResourceSeparation
import NestLayers.Proofs.DryRun
import NestLayers.Proofs.FileFaults
import NestLayers.Proofs.Lookups
import NestLayers.Proofs.UnreportedFaults
import NestLayers.Proofs.CheckedDefinitions
import NestLayers.Proofs.RegistryInfluence
import NestLayers.Proofs.ProfileIndependence
import NestLayers.Proofs.ModelImports
import NestLayers.Proofs.MarkedNames
import NestLayers.Proofs.CallTargets
import NestLayers.Proofs.ContractTexts
import NestLayers.Proofs.FinderAgreement
import NestLayers.Proofs.FinderTexts
import NestLayers.Proofs.MethodCalls
import NestLayers.Proofs.MethodTexts
import NestLayers.Proofs.Regeneration
import NestLayers.Proofs.FieldComments
import NestLayers.Proofs.CamelCaseNames
import NestLayers.Proofs.ErrorPlaces
import NestLayers.Proofs.FirstFaults
import NestLayers.Proofs.HeaderLines
import NestLayers.Proofs.ModelFiles
import NestLayers.Proofs.CommentEnds
import NestLayers.Proofs.StringLiterals
import NestLayers.Proofs.RouteNames
import NestLayers.Proofs.PropertyTexts
import NestLayers.Proofs.ExclusionList
import NestLayers.Proofs.RequestProperties
import NestLayers.Proofs.GroupEnds
import NestLayers.Proofs.TokenCoverage
import NestLayers.Proofs.ListSearch
import NestLayers.Proofs.RelationIds
import NestLayers.Proofs.Planning
import NestLayers.Proofs.ImportBlocks
import NestLayers.Proofs.SearchAnswers
import NestLayers.Proofs.WholeWrites
