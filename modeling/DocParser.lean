import DocParser.Common.AtomicOutputFile
import DocParser.Common.FileFingerprint
import DocParser.Pipeline.LineConservation
import DocParser.Pipeline.TableRecognition
import DocParser.Export.JsonContract
import DocParser.Export.MarkdownTable
import DocParser.Export.LogicalTables
import DocParser.Export.HtmlContract
import DocParser.Document.PageRotation
import DocParser.Platform.LeaseFencing
import DocParser.Platform.CancellationDecisive
import DocParser.ReadingOrder.Permutation
import DocParser.ReadingOrder.Separators
import DocParser.ReadingOrder.ColumnSeparation
import DocParser.Platform.OutboxDelivery
import DocParser.Platform.RedisReply
import DocParser.Platform.SafeTrimming
import DocParser.Image.PageImageCache
import DocParser.Platform.Projection
import DocParser.Platform.Retention
import DocParser.Platform.ProjectorGroup
import DocParser.Table.TextTableBackend
import DocParser.Pipeline.RunContract
import DocParser.Pipeline.ServiceFactory
import DocParser.Platform.RunStatus
import DocParser.Pipeline.PageModes
import DocParser.Export.TableWords
import DocParser.Platform.RunSubscription
import DocParser.Platform.EngineCache
import DocParser.Platform.ClaimCursor
import DocParser.Platform.JobOutcome
import DocParser.Ocr.TesseractCommand
import DocParser.ReadingOrder.CycleBreaking
import DocParser.Pipeline.ResolutionTwice
import DocParser.Layout.RecoveryTwice
import DocParser.Pipeline.LinkConsistency
import DocParser.Pipeline.CaptionAgreement
import DocParser.Table.GridTiling
import DocParser.Document.TextNormalizer
import DocParser.Table.TextAssignment
import DocParser.Pipeline.LossCheck
import DocParser.Pipeline.RunWarnings
import DocParser.Pipeline.TextMerge
import DocParser.Pipeline.VerticalCoverage
import DocParser.Table.RegionSuppression
import DocParser.Layout.OverlapReasons
import DocParser.Table.TextTableCells
import DocParser.Layout.TextLayoutModel
import DocParser.Layout.DenseGridMerges
import DocParser.Layout.ColumnOrder
import DocParser.Layout.CheckedReads
import DocParser.Pipeline.TableBlockIds
import DocParser.DocumentSource.PdfTextExtractor
import DocParser.Ocr.RecognitionDecoding
import DocParser.Ocr.RecognitionBatches
import DocParser.Pipeline.FallbackChains
import DocParser.Ocr.OrientationPolicy
import DocParser.Benchmark.IouMatching
import DocParser.Benchmark.TextAlignment
import DocParser.Ocr.BoxOrder
