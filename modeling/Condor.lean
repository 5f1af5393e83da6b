import Condor.GridManager.ForgottenInstance
import Condor.GridManager.Restart
import Condor.GridManager.InstanceTable
import Condor.Authorization.VerifyPolicy
import Condor.DeltacloudGahp.ResultSignal
import Condor.GridManager.SavedJobId
import Condor.GridManager.SubmitLimit
import Condor.TransactionLog.Lookup
import Condor.TransactionLog.Rotation
import Condor.DeltacloudGahp.Replies
import Condor.DeltacloudGahp.CommandLine
import Condor.GridManager.RequestTable
import Condor.GridManager.Throttle
import Condor.GridManager.Evaluation
import Condor.Utils.AcceptedStreams
import Condor.TransactionLog.UnwritableRecord
import Condor.TransactionLog.FollowerRuns
import Condor.Cedar.Framing
import Condor.Cedar.Transparency
import Condor.Cedar.MacVerification
import Condor.Utils.HashIteration
import Condor.Utils.Env
import Condor.Utils.Sinful
import Condor.Utils.CronNext
import Condor.ClassAd.ParseRuns
import Condor.ClassAd.Functions
import Condor.ClassAd.RelativeTime
import Condor.Cedar.MessageCursor
import Condor.GridManager.ReplyMatching
import Condor.ClassAd.SameAs
import Condor.ClassAd.Evaluators
import Condor.Utils.CronFields
import Condor.Utils.StringList
import Condor.Procd.SnapshotInterval
import Condor.Utils.LogicalLines
import Condor.Utils.SelfDrainingQueue
import Condor.Utils.PrioritySimpleList
import Condor.ClassAd.DayNumbers
import Condor.Cedar.BoundedStrings
import Condor.Utils.MapFile
import Condor.ClassAd.ExprListIterator
