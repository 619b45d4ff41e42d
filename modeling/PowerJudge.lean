import PowerJudge.Support.Outcome
import PowerJudge.Core.Codes
import PowerJudge.Core.WaitStatus
import PowerJudge.Judge.Accepted
import PowerJudge.Judge.NormalExit
import PowerJudge.Syscalls.Phase
import PowerJudge.Syscalls.Quota
import PowerJudge.Judge.FullJudging
import PowerJudge.Judge.PresentationError
import PowerJudge.Judge.Arguments
import PowerJudge.Judge.TestData
import PowerJudge.Judge.Main
import PowerJudge.Judge.Watchdog
import PowerJudge.Judge.Exits
import PowerJudge.Judged.ResultText
import PowerJudge.Judged.Supervise
import PowerJudge.Judged.Daemon
import PowerJudge.Judged.Accounting
import PowerJudge.Judged.Runs
import PowerJudge.Judged.Reports
import PowerJudge.Judged.ResultFile
import PowerJudge.Judge.Comparison
import PowerJudge.Judge.Tokens
import PowerJudge.Judge.LineEndings
import PowerJudge.Judge.Afresh
import PowerJudge.Judge.Whitelist
import PowerJudge.Support.Scan
import PowerJudge.Support.Memory
import PowerJudge.Judged.Connection
import PowerJudge.Judged.RoundTrip
import PowerJudge.Judged.ThreadSafeQueue
import PowerJudge.Judge.SetUp
import PowerJudge.Judged.ResultRecord
import PowerJudge.Support.ScanTokens
import PowerJudge.Judged.RequestLine
import PowerJudge.Judged.Authentication
import PowerJudge.Judged.MemoryAccount
import PowerJudge.Judged.ReadConfig
import PowerJudge.Judged.SendResult
import PowerJudge.Judged.ConfigStrings
import PowerJudge.Judged.ConfigFrame
import PowerJudge.Judged.ConfigNumbers
import PowerJudge.Judge.DiffReport
import PowerJudge.Judge.JavaOutOfMemory
import PowerJudge.Core.Log
import PowerJudge.Judged.SplitLine
import PowerJudge.Judge.StreamDiscipline
import PowerJudge.Judged.Capacity
import PowerJudge.Judged.Order
import PowerJudge.Judged.Completion
import PowerJudge.Judge.Sandbox
import PowerJudge.Judged.WorkDirs
import PowerJudge.Judge.StatusUpdates
import PowerJudge.Judge.CaseFiles
import PowerJudge.Judge.SolutionFiles
import PowerJudge.Core.LogRotation
import PowerJudge.Judged.EndToEnd
import PowerJudge.Support.Stoppable
import PowerJudge.Judged.Shutdown
import PowerJudge.Judged.Uploads
import PowerJudge.Judged.Handshake
import PowerJudge.Judge.Processes
import PowerJudge.Judged.CompileErrors
import PowerJudge.Judge.LimitChanges
import PowerJudge.Judged.ConfigRoundTrip
import PowerJudge.Judge.ErrorFile
import PowerJudge.Judged.Acceptance
