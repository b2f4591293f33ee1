import FontCatalog.Cache.Lemmas
import FontCatalog.Export.Reader
import FontCatalog.Export.Writer
import FontCatalog.Session
import FontCatalog.Proofs.Origins
import FontCatalog.Proofs.ScanThenLoad
import FontCatalog.Proofs.MemberChoice
import FontCatalog.Proofs.CacheLocks
import FontCatalog.Proofs.CacheLookups
import FontCatalog.Proofs.SingleDecode
import FontCatalog.Proofs.JsonDocuments
import FontCatalog.Proofs.Utf8RoundTrip
import FontCatalog.Proofs.RecordDocuments
import FontCatalog.Proofs.ExportRoundTrip
import FontCatalog.Proofs.Numerals
import FontCatalog.Proofs.SegmentGrammar
import FontCatalog.Proofs.CacheAsMap
import FontCatalog.Proofs.HandedOut
import FontCatalog.Proofs.CacheReplies
import FontCatalog.Proofs.ByteStrings
import FontCatalog.Proofs.DirectorySearch
import FontCatalog.Proofs.SfntLayout
import FontCatalog.Proofs.Utf16RoundTrip
import FontCatalog.Proofs.FaceTables
import FontCatalog.Proofs.SfntRoundTrip
import FontCatalog.Proofs.Contributions
import FontCatalog.Proofs.FontAccounting
import FontCatalog.Proofs.FaultIsolation
import FontCatalog.Proofs.RecordInvariant
import FontCatalog.Proofs.JoinedPaths
import FontCatalog.Proofs.NamedEntries
import FontCatalog.Proofs.WalkSteps
import FontCatalog.Proofs.FontDiscovery
import FontCatalog.Proofs.CacheDeeds
import FontCatalog.Proofs.CacheChronicle
import FontCatalog.Proofs.ClearedCache
import FontCatalog.Proofs.LockDiscipline
import FontCatalog.Proofs.RankedNames
import FontCatalog.Proofs.KeptIdentity
import FontCatalog.Proofs.KeySearch
import FontCatalog.Proofs.BalancedStrings
import FontCatalog.Proofs.EexecRoundTrip
import FontCatalog.Proofs.FaceExamination
import FontCatalog.Proofs.LimitedExport
import FontCatalog.Proofs.ExportLines
import FontCatalog.Proofs.MemberLookup
import FontCatalog.Proofs.DictTokens
import FontCatalog.Proofs.DictReading
import FontCatalog.Proofs.CharacterCollections
import FontCatalog.Proofs.GcidTables
import FontCatalog.Proofs.DirectoryOrder
import FontCatalog.Proofs.ListingLines
import FontCatalog.Proofs.TolerantReading
import FontCatalog.Proofs.PathOrder
import FontCatalog.Proofs.NamedRoots
import FontCatalog.Proofs.FileNames
import FontCatalog.Proofs.RecognizedPaths
