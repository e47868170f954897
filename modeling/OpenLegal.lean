import OpenLegal.TextDiff.Feasible
import OpenLegal.TextDiff.PageServing
import OpenLegal.TextDiff.Annotation
import OpenLegal.Widget.Attachments
import OpenLegal.Widget.DiffPage
import OpenLegal.TextDiff.AttachmentProtocol
import OpenLegal.TextDiff.Accounting
import OpenLegal.TextDiff.Agreement
import OpenLegal.TextDiff.NoOrphan
import OpenLegal.Legal.Passages
import OpenLegal.Legal.ScanPaging
import OpenLegal.Legal.AnnexLabel
import OpenLegal.Legal.LawName
import OpenLegal.Legal.ChosenLaw
import OpenLegal.Legal.Inheritance
import OpenLegal.Legal.CaseNumberSearch
import OpenLegal.Legal.TitleSearch
import OpenLegal.Legal.ArticleSearch
import OpenLegal.Legal.ArticleText
import OpenLegal.Legal.Citator
import OpenLegal.Legal.ArticleRead
import OpenLegal.Legal.Subparagraphs
import OpenLegal.Legal.ExtractionRuns
import OpenLegal.Legal.CollectionForm
import OpenLegal.Legal.IndexHead
import OpenLegal.Admission.Idle
import OpenLegal.Blob.Health
import OpenLegal.Blob.MirroredHealth
import OpenLegal.Admission.Refinement
import OpenLegal.Admission.Deferral
import OpenLegal.Admission.Runs
import OpenLegal.TextDiff.Protocol
import OpenLegal.Server.Framing
import OpenLegal.Server.RateLimiter
import OpenLegal.Document.WorkerLimits
import OpenLegal.Retrieval.SingleFlight
import OpenLegal.Retrieval.Freshness
import OpenLegal.Retrieval.MemoryCache
import OpenLegal.Retrieval.Identity
import OpenLegal.Retrieval.Preflight
import OpenLegal.Retrieval.Processors
import OpenLegal.Replication.Durability
import OpenLegal.Replication.RuntimeGuard
import OpenLegal.Corpus.Recovery
import OpenLegal.Corpus.CloneCycles
import OpenLegal.Corpus.CollectionRuns
import OpenLegal.Corpus.Exclusion
import OpenLegal.Corpus.Reachability
import OpenLegal.Corpus.Comparison
import OpenLegal.Corpus.History
import OpenLegal.Corpus.InForce
import OpenLegal.LawGoKr.Detail
import OpenLegal.LawGoKr.Project
import OpenLegal.Legal.QueryVerdict
import OpenLegal.SearchQuery.Conjunction
