import EvidencePages.Main
import EvidencePages.Proofs.Bytes
import EvidencePages.Proofs.Lookup
import EvidencePages.Proofs.Store.HandlePool
import EvidencePages.Proofs.Raw.Segments
import EvidencePages.Proofs.Raw.SplitRead
import EvidencePages.Proofs.Raw.Pread
import EvidencePages.Proofs.Paging.Tiling
import EvidencePages.Proofs.Ewf.Caching
import EvidencePages.Proofs.Image.ByteAddressed
import EvidencePages.Proofs.Image.PageWalk
import EvidencePages.Proofs.Zlib.Extension
import EvidencePages.Proofs.Zlib.Plain
import EvidencePages.Proofs.Ewf.Acquisition
import EvidencePages.Proofs.Ewf.Geometry
import EvidencePages.Proofs.Ewf.Places
import EvidencePages.Proofs.Ewf.Entries
import EvidencePages.Proofs.Ewf.SegmentWalk
import EvidencePages.Proofs.Ewf.CutSegment
import EvidencePages.Proofs.Ewf.Opening
import EvidencePages.Proofs.Ewf.Decoding
import EvidencePages.Proofs.Ewf.Assembly
import EvidencePages.Proofs.Ewf.CutSet
import EvidencePages.Proofs.Ewf.RoundTrip
import EvidencePages.Proofs.Ewf.Truncation
import EvidencePages.Proofs.Ewf.ChunkLengths
import EvidencePages.Proofs.Ewf.FullReads
import EvidencePages.Proofs.Ewf.SegmentOrder
import EvidencePages.Proofs.Ewf.Uncached
import EvidencePages.Proofs.Image.Cursors
import EvidencePages.Proofs.Image.WalkTotals
import EvidencePages.Proofs.Raw.SteadyRead
import EvidencePages.Proofs.Image.RandomAccess
import EvidencePages.Proofs.Image.SharedCursors
import EvidencePages.Proofs.Raw.PartVisits
import EvidencePages.Proofs.Raw.ShrunkParts
import EvidencePages.Proofs.Image.MissingParts
import EvidencePages.Proofs.Raw.SizeSearch
import EvidencePages.Proofs.Image.Opening
import EvidencePages.Proofs.Image.ReportedPages
import EvidencePages.Proofs.Path
import EvidencePages.Proofs.Store.Walk
import EvidencePages.Proofs.Image.Selection
import EvidencePages.Proofs.Text.ByteOrder
import EvidencePages.Proofs.Naming.PartExtension
import EvidencePages.Proofs.Store.RecencyQueue
import EvidencePages.Proofs.Store.HandleQueue
import EvidencePages.Proofs.Store.FailedFetch
import EvidencePages.Proofs.Ewf.ChunkQueue
import EvidencePages.Proofs.Ewf.SectionChain
import EvidencePages.Proofs.Ewf.LongChains
import EvidencePages.Proofs.Siblings
import EvidencePages.Proofs.Store.Listing
import EvidencePages.Proofs.Naming.Wildcard
import EvidencePages.Proofs.Store.Changes
import EvidencePages.Proofs.Naming.PartOrder
import EvidencePages.Proofs.Ewf.LeavingChains
import EvidencePages.Proofs.Ewf.OpenedSets
import EvidencePages.Proofs.Ewf.DeclaredGeometry
import EvidencePages.Proofs.Ewf.LocatedChunks
import EvidencePages.Proofs.Text.Encodings
import EvidencePages.Proofs.Ewf.HeaderTables
import EvidencePages.Proofs.Ewf.HeaderCopies
import EvidencePages.Proofs.Naming.SplitName
import EvidencePages.Proofs.Naming.CountedParts
import EvidencePages.Proofs.Raw.ReadableParts
import EvidencePages.Proofs.Image.OpeningFailures
import EvidencePages.Proofs.Image.ReportedErrors
import EvidencePages.Proofs.Image.EndedWalks
import EvidencePages.Proofs.Store.ReachedPaths
import EvidencePages.Proofs.Image.DirectoryPages
import EvidencePages.Proofs.Store.Filling
import EvidencePages.Proofs.Raw.SegmentIndex
import EvidencePages.Proofs.Ewf.TableExtents
import EvidencePages.Proofs.Json.Grammar
import EvidencePages.Proofs.Json.Reading
import EvidencePages.Proofs.Json.Literals
import EvidencePages.Proofs.Config.Text
