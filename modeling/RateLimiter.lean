import RateLimiter.BpfObject
import RateLimiter.TcIngress
import RateLimiter.Refill
import RateLimiter.Report
import RateLimiter.SourceView
import RateLimiter.Invariants
import RateLimiter.UpperBound
import RateLimiter.LowerBound
import RateLimiter.Bucket
import RateLimiter.ParseArg
import RateLimiter.Main
import RateLimiter.Shutdown
import RateLimiter.Program
import RateLimiter.Concurrent
