import LibBson.Library.ReadTrace
import LibBson.Library.Word
import LibBson.Library.PowerOfTwo
import LibBson.Source.Types
import LibBson.Spec.Tree
import LibBson.Source.Iter
import LibBson.Source.AppendArgs
import LibBson.Source.Buffer
import LibBson.Source.AppendLaws
import LibBson.Source.AppendSizes
import LibBson.Spec.Builds
import LibBson.Source.AppendBytes
import LibBson.Source.OpenChain
import LibBson.Source.BuildRuns
import LibBson.Spec.Walk
import LibBson.Source.DecodeLaws
import LibBson.Source.IterLaws
import LibBson.Source.IterRuns
import LibBson.Source.IterReads
import LibBson.Guarantees.IterReadBounds
import LibBson.Guarantees.AccessorSlices
import LibBson.Guarantees.AppendCapacity
import LibBson.Guarantees.BuildExact
import LibBson.Guarantees.DecodeEncode
import LibBson.Source.Visit
import LibBson.Source.Validate
import LibBson.Source.VisitLaws
import LibBson.Spec.Level
import LibBson.Source.LevelLaws
import LibBson.Source.ValidateLaws
import LibBson.Source.VisibleLaws
import LibBson.Spec.DocLevel
import LibBson.Source.DecodeLevel
import LibBson.Guarantees.ValidateSound
import LibBson.Guarantees.ValidateComplete
import LibBson.Source.Reader
import LibBson.Spec.Stream
import LibBson.Source.ReaderLaws
import LibBson.Source.ReaderRuns
import LibBson.Guarantees.ReaderAgreement
import LibBson.Guarantees.ReachedEof
import LibBson.Library.Ascii
import LibBson.Source.JsonState
import LibBson.Source.JsonText
import LibBson.Source.JsonCallbacks
import LibBson.Source.JsonDocs
import LibBson.Source.Jsonsl
import LibBson.Source.JsonReader
import LibBson.Source.JsonTokens
import LibBson.Source.JsonBufLaws
import LibBson.Source.JsonFeed
import LibBson.Source.JsonslLaws
import LibBson.Source.JsonNest
import LibBson.Source.JsonWhole
import LibBson.Source.JsonRuns
import LibBson.Source.JsonCalls
import LibBson.Source.JsonSteady
import LibBson.Source.JsonReturns
import LibBson.Source.JsonHarmless
import LibBson.Source.JsonReady
import LibBson.Guarantees.ChunkedJson
import LibBson.Guarantees.JsonReturns
import LibBson.Library.Digits
import LibBson.Spec.Decimal
import LibBson.Source.Decimal128
import LibBson.Source.DecimalPrint
import LibBson.Source.DecimalScan
import LibBson.Source.DecimalEncode
import LibBson.Source.DecimalRead
import LibBson.Source.DecimalAccept
import LibBson.Guarantees.DecimalText
import LibBson.Guarantees.DecimalRoundTrip
import LibBson.Guarantees.DecimalExact
import LibBson.Source.OidRuns
import LibBson.Guarantees.OidOrder
import LibBson.Source.Construct
import LibBson.Guarantees.Constructors
import LibBson.Source.AppendExact
import LibBson.Guarantees.AppendExact
import LibBson.Spec.Writing
import LibBson.Source.WriterLaws
import LibBson.Source.WriterRuns
import LibBson.Guarantees.WriterExact
import LibBson.Source.Utf8Index
import LibBson.Source.Utf8Char
import LibBson.Source.BsonString
import LibBson.Library.JsonString
import LibBson.Source.Utf8Escape
import LibBson.Guarantees.Utf8Codec
import LibBson.Guarantees.JsonEscape
import LibBson.Library.Calendar
import LibBson.Source.Iso8601
import LibBson.Source.Iso8601Laws
import LibBson.Guarantees.RelaxedDate
import LibBson.Library.Logged
import LibBson.Source.DecimalAccess
import LibBson.Source.DecimalBounds
import LibBson.Guarantees.DecimalBounds
import LibBson.Source.AsJsonText
import LibBson.Source.AsJson
import LibBson.Source.VisitWalk
import LibBson.Source.AsJsonLaws
import LibBson.Source.AsJsonFields
import LibBson.Source.AsJsonArray
import LibBson.Guarantees.ArrayPrinter
import LibBson.Source.AsJsonLevels
import LibBson.Source.JsonslIntegers
import LibBson.Source.JsonEvents
import LibBson.Source.JsonWrappers
import LibBson.Guarantees.IntegerLiterals
import LibBson.Guarantees.TypeOperator
import LibBson.Library.ByteOrder
import LibBson.Source.Compare
import LibBson.Guarantees.CompareOrder
import LibBson.Source.IterTimes
import LibBson.Guarantees.StoredTimes
import LibBson.Library.Numerals
import LibBson.Source.Strtoll
import LibBson.Guarantees.AsciiStrtoll
import LibBson.Spec.IsoDate
import LibBson.Source.Iso8601Grammar
import LibBson.Guarantees.Iso8601Exact
import LibBson.Guarantees.DbrefKeys
import LibBson.Spec.Lookup
import LibBson.Source.IterFind
import LibBson.Guarantees.DottedLookup
import LibBson.Source.ValuePath
import LibBson.Guarantees.ValueCopies
import LibBson.Source.ElementBytes
import LibBson.Spec.Appended
import LibBson.Source.CopyExcluding
import LibBson.Guarantees.CopyExact
import LibBson.Source.Overwrite
import LibBson.Guarantees.OverwriteFrame
import LibBson.Source.Steal
import LibBson.Source.StealRuns
import LibBson.Guarantees.StealKeeps
import LibBson.Guarantees.Uint128Exact
import LibBson.Source.ReaderRefills
import LibBson.Guarantees.ReaderBuffer
import LibBson.Guarantees.ReaderSizes
import LibBson.Guarantees.GrowthComplete
import LibBson.Guarantees.WriterBegin
import LibBson.Guarantees.IterProgress
import LibBson.Source.BsonStringT
import LibBson.Guarantees.StringBuffer
import LibBson.Source.VisitBeside
import LibBson.Source.AsJsonActive
import LibBson.Guarantees.PrinterLevels
import LibBson.Source.Bcon
import LibBson.Spec.BconTree
import LibBson.Source.UncheckedRuns
import LibBson.Source.BconRuns
import LibBson.Guarantees.BconAppend
import LibBson.Library.BlockStream
import LibBson.Library.Md5
import LibBson.Source.Md5
import LibBson.Source.Md5Laws
import LibBson.Guarantees.Md5Digest
import LibBson.Library.CalendarOrder
import LibBson.Source.Timegm
import LibBson.Source.TimegmLaws
import LibBson.Source.TimegmSearch
import LibBson.Guarantees.TimegmExact
import LibBson.Library.Base64
import LibBson.Source.Base64
import LibBson.Source.Base64Laws
import LibBson.Source.Base64Bounds
import LibBson.Guarantees.Base64Exact
import LibBson.Source.BconExtract
import LibBson.Spec.BconPattern
import LibBson.Source.BconExtractRuns
import LibBson.Guarantees.BconExtract
