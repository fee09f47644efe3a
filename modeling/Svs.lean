import Svs.ForStd.Compensation
import Svs.ForStd.Delivery
import Svs.ForStd.Gossip
import Svs.ForStd.LeadsTo
import Svs.ForStd.List
import Svs.ForStd.Loop
import Svs.ForStd.Orbit
import Svs.ForStd.Ranking
import Svs.ForStd.Run
import Svs.ForStd.Traffic
import Svs.ForStd.TreeMap
import Svs.Native.BuildVector
import Svs.Native.Core
import Svs.Native.Encoder
import Svs.Native.Execution
import Svs.Native.Fetcher
import Svs.Native.Group
import Svs.Native.MappingProvider
import Svs.Native.MappingQuery
import Svs.Native.Name
import Svs.Native.Network
import Svs.Native.PubSub
import Svs.Native.PubSubPublish
import Svs.Native.Publish
import Svs.Native.Reassembly
import Svs.Native.Receive
import Svs.Native.Secured
import Svs.Native.SelectSubset
import Svs.Native.Shared
import Svs.Native.Sync
import Svs.Native.Tlv
import Svs.Native.VersionVector
import Svs.Spec.AgeFilter
import Svs.Spec.Announcement
import Svs.Spec.Atlas
import Svs.Spec.Availability
import Svs.Spec.BoostUnused
import Svs.Spec.BudgetSpent
import Svs.Spec.BuildCorrect
import Svs.Spec.BuildHistory
import Svs.Spec.BuildRuns
import Svs.Spec.ClusterDiversity
import Svs.Spec.Convergence
import Svs.Spec.DeliveryOnce
import Svs.Spec.ExactlyOnce
import Svs.Spec.FairReserve
import Svs.Spec.Faithful
import Svs.Spec.FeedbackSamples
import Svs.Spec.FetchRelease
import Svs.Spec.FetcherCorrect
import Svs.Spec.FetcherLive
import Svs.Spec.FetcherRuns
import Svs.Spec.GroupDelivery
import Svs.Spec.GroupHistory
import Svs.Spec.GroupInvariant
import Svs.Spec.GroupSteps
import Svs.Spec.HybridCoverage
import Svs.Spec.LocalMappings
import Svs.Spec.MalformedInterest
import Svs.Spec.MalformedMapping
import Svs.Spec.MappingCodec
import Svs.Spec.MappingFetch
import Svs.Spec.Members
import Svs.Spec.MergeCorrect
import Svs.Spec.MergeOrder
import Svs.Spec.NetworkAgreement
import Svs.Spec.NextSync
import Svs.Spec.NoveltyQuota
import Svs.Spec.Parcels
import Svs.Spec.PartialVector
import Svs.Spec.Persistence
import Svs.Spec.Piggyback
import Svs.Spec.PubSubRefines
import Svs.Spec.Publications
import Svs.Spec.PublishPaths
import Svs.Spec.PublishRuns
import Svs.Spec.QueueServed
import Svs.Spec.QueuedOnce
import Svs.Spec.RangeTiling
import Svs.Spec.ReassemblyCorrect
import Svs.Spec.RecentSelection
import Svs.Spec.ReplyBound
import Svs.Spec.Requests
import Svs.Spec.RetryBound
import Svs.Spec.RoundRobin
import Svs.Spec.ScoreCoverage
import Svs.Spec.ScoreMonotone
import Svs.Spec.Secured
import Svs.Spec.Segmentation
import Svs.Spec.SendGap
import Svs.Spec.Shared
import Svs.Spec.StepCorrect
import Svs.Spec.StoredMappings
import Svs.Spec.SubsetCorrect
import Svs.Spec.SubsetFill
import Svs.Spec.Suppression
import Svs.Spec.SuppressionDecision
import Svs.Spec.SyncInterestCodec
import Svs.Spec.TimerBounds
import Svs.Spec.TlvRoundTrip
import Svs.Spec.UnsubscribeFinal
import Svs.Spec.UpdateActions
import Svs.Spec.UpdateCarried
import Svs.Spec.UpdateTermination
import Svs.Spec.UpdateTimes
import Svs.Spec.VectorCodec
