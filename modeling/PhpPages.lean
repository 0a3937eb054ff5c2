import PhpPages.Main
import PhpPages.Yaml.Shortest
import PhpPages.Proofs.Segments
import PhpPages.Proofs.WellFormed
import PhpPages.Proofs.Leads
import PhpPages.Proofs.Resolution
import PhpPages.Proofs.Boundary
import PhpPages.Proofs.Containment
import PhpPages.Proofs.Lookup
import PhpPages.Proofs.Guard
import PhpPages.Proofs.Changes
import PhpPages.Proofs.Output
import PhpPages.Proofs.Generation
import PhpPages.Proofs.CrossReference
import PhpPages.Proofs.Extraction
import PhpPages.Proofs.PageOwners
import PhpPages.Proofs.Refusal
import PhpPages.Proofs.Remaking
import PhpPages.Proofs.Extension
import PhpPages.Proofs.Regeneration
import PhpPages.Proofs.Forward
import PhpPages.Proofs.Contents
import PhpPages.Proofs.Imports
import PhpPages.Proofs.Lockstep
import PhpPages.Proofs.HiddenMethods
import PhpPages.Proofs.SourceOrder
import PhpPages.Proofs.SourceLinks
import PhpPages.Proofs.Rebuilt
import PhpPages.Proofs.LexicalCheck
import PhpPages.Proofs.PageNames
import PhpPages.Proofs.SourceFiles
import PhpPages.Proofs.Conflicts
import PhpPages.Proofs.DocumentOrder
import PhpPages.Proofs.DocLayout
import PhpPages.Proofs.DocTags
import PhpPages.Proofs.CommentEnd
import PhpPages.Proofs.Tables
import PhpPages.Proofs.PropertyLines
import PhpPages.Proofs.GroupedImports
import PhpPages.Proofs.TypeComments
import PhpPages.Proofs.IndexPage
import PhpPages.Proofs.CanonicalPaths
import PhpPages.Proofs.FirstFault
import PhpPages.Proofs.TypeText
import PhpPages.Proofs.TypedSettings
import PhpPages.Proofs.NormalizedPaths
import PhpPages.Proofs.ScopeHistories
