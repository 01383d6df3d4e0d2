import EntityQuery.Config.Settings
import EntityQuery.Descriptor.Write
import EntityQuery.Display.View
import EntityQuery.Execution.Write
import EntityQuery.Model.Resources
import EntityQuery.Page.Read
import EntityQuery.Proofs.Cache
import EntityQuery.Proofs.CacheKeys
import EntityQuery.Proofs.CollectionIndex
import EntityQuery.Proofs.CompoundFilters
import EntityQuery.Proofs.EagerFetch
import EntityQuery.Proofs.FilterLanguage
import EntityQuery.Proofs.GivenRegistry
import EntityQuery.Proofs.IndexedFetch
import EntityQuery.Proofs.InnerFetch
import EntityQuery.Proofs.Inputs
import EntityQuery.Proofs.NarrowedJoins
import EntityQuery.Proofs.NumberResponses
import EntityQuery.Proofs.OperatorSpellings
import EntityQuery.Proofs.OuterJoins
import EntityQuery.Proofs.PageCount
import EntityQuery.Proofs.PageTotals
import EntityQuery.Proofs.Paging
import EntityQuery.Proofs.PairNames
import EntityQuery.Proofs.References
import EntityQuery.Proofs.RenamedFetch
import EntityQuery.Proofs.Responses
import EntityQuery.Proofs.RootRelations
import EntityQuery.Proofs.RoundTrip
import EntityQuery.Proofs.Shown
import EntityQuery.Proofs.SimplePaths
import EntityQuery.Proofs.SortNames
import EntityQuery.Proofs.SortedRoots
import EntityQuery.Proofs.Spellings
import EntityQuery.Proofs.Walk
