import MatchBench.Source.Late
import MatchBench.Service.Worker
import MatchBench.Capture.Hooks
import MatchBench.Capture.Hole
import MatchBench.Dispatch.Progress
import MatchBench.Fetcher.Extract
import MatchBench.Book.Represent
import MatchBench.Book.Crossed
import MatchBench.Book.Conserve
import MatchBench.Validate.Memory
import MatchBench.Controller.Exclusive
import MatchBench.Telemetry.Once
import MatchBench.Telemetry.Counters
import MatchBench.Telemetry.Waves
import MatchBench.Bot.Reported
import MatchBench.Bot.Agree
import MatchBench.Bot.Recover
import MatchBench.Validate.Summary
import MatchBench.Score.Republish
import MatchBench.Score.Ramp
import MatchBench.Score.Median
import MatchBench.Validate.Overfill
import MatchBench.Validate.Taint
import MatchBench.Validate.MapOrder
import MatchBench.Bot.Timestamp
import MatchBench.Bot.Http
import MatchBench.Bot.Batch
import MatchBench.Capture.Matching
import MatchBench.Capture.Attribution
import MatchBench.Validate.Shorted
import MatchBench.Score.Announce
import MatchBench.Score.Ranking
