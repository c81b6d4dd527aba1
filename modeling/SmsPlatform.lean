import SmsPlatform.Outbox.Fencing
import SmsPlatform.Outbox.Wakeup
import SmsPlatform.Inflight.ReleaseOnce
import SmsPlatform.RateLimit.BucketSafety
import SmsPlatform.RateLimit.WindowSafety
import SmsPlatform.Admission.Restriction
import SmsPlatform.Send.Usage
import SmsPlatform.Send.SplitOnce
import SmsPlatform.Report.Completion
import SmsPlatform.Spill.Agreement
import SmsPlatform.Spill.Integrity
import SmsPlatform.Spill.RoundTrip
import SmsPlatform.Spill.Rotation
import SmsPlatform.Spill.Claims
import SmsPlatform.Callback.Reports
import SmsPlatform.Callback.Authority
import SmsPlatform.Idempotency.Generations
import SmsPlatform.Usage.Lifecycle
import SmsPlatform.Usage.Batches
import SmsPlatform.Stats.Dirty
import SmsPlatform.Auth.RefreshChain
import SmsPlatform.Scheduling.Approval
import SmsPlatform.Scheduling.MarketWindow
