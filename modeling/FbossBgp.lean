import FbossBgp.AdjRib.AdjRibInReplay
import FbossBgp.AdjRib.AdjRibOutDelay
import FbossBgp.AdjRib.AdjRibOutReplay
import FbossBgp.AdjRib.AsPathLengths
import FbossBgp.AdjRib.ExtCommunities
import FbossBgp.AdjRib.GroupViews
import FbossBgp.AdjRib.SafeMode
import FbossBgp.AdjRib.SharedPduWrites
import FbossBgp.BgpLib.OpenRoundTrip
import FbossBgp.BgpLib.UpdateProgress
import FbossBgp.ChangeTracker.Delivery
import FbossBgp.Coro.BackPressuredQueue
import FbossBgp.Coro.MPMCWatermarkQueue
import FbossBgp.Coro.MergeQueue
import FbossBgp.NexthopTracker.FsdbFibWatcher
import FbossBgp.Peer.ShadowRibReplay
import FbossBgp.Policy.LbwExtCommunity
import FbossBgp.Policy.PolicyMatch
import FbossBgp.Rib.AddPathReplay
import FbossBgp.Rib.AggregateSupport
import FbossBgp.Rib.Backpressure
import FbossBgp.Rib.RibSteps
import FbossBgp.Rib.RibPolicy
