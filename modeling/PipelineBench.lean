import PipelineBench.Foundation.Run
import PipelineBench.Foundation.TwoRuns
import PipelineBench.Foundation.Machine
import PipelineBench.Foundation.Consecutive
import PipelineBench.Foundation.Elastic
import PipelineBench.Foundation.Throughput
import PipelineBench.Foundation.SelfCheck
import PipelineBench.Foundation.DeltaCycle
import PipelineBench.Foundation.Observer
import PipelineBench.Foundation.KernelLog
import PipelineBench.Foundation.ChangeDetect
import PipelineBench.Foundation.Comparison
import PipelineBench.Foundation.Odometer
import PipelineBench.Foundation.BitFields
import PipelineBench.Foundation.Text
import PipelineBench.Foundation.Checked
import PipelineBench.Model.Signals
import PipelineBench.Model.Format
import PipelineBench.Model.SingleCycle
import PipelineBench.Model.Decoded
import PipelineBench.Model.Address
import PipelineBench.Utility.RingBuffer
import PipelineBench.Utility.ActivityIndicator
import PipelineBench.Uvm.Transaction
import PipelineBench.Uvm.Monitor
import PipelineBench.Uvm.Predictor
import PipelineBench.Uvm.ScoreBoard
import PipelineBench.Uvm.TestBench
import PipelineBench.Uvm.Request
import PipelineBench.Uvm.Driver
import PipelineBench.Uvm.Sequence
import PipelineBench.Uvm.Simulation
import PipelineBench.Uvm.Environment
import PipelineBench.Uvm.Bench
import PipelineBench.Uvm.Test
import PipelineBench.Uvm.AnyModule
import PipelineBench.Unit.Logger
import PipelineBench.Unit.EvilTest
import PipelineBench.Unit.Spin
import PipelineBench.Unit.SpinKernel
import PipelineBench.Verify.Oracle
import PipelineBench.Verify.Conservation
import PipelineBench.Verify.Trace
import PipelineBench.Verify.Chain
import PipelineBench.Verify.Refinement
import PipelineBench.Verify.EndToEnd
import PipelineBench.Verify.Verdict
import PipelineBench.Verify.Program
import PipelineBench.Verify.AnyVerdict
import PipelineBench.Verify.Reports
import PipelineBench.Verify.EveryDelta
import PipelineBench.Verify.BenchProgress
import PipelineBench.Verify.TestLength
import PipelineBench.Verify.ChainProgress
import PipelineBench.Verify.ChainStages
import PipelineBench.Verify.ChainKernel
import PipelineBench.Verify.ChainClocks
import PipelineBench.Verify.Detection
import PipelineBench.Verify.Hold
import PipelineBench.Verify.Complement
import PipelineBench.Verify.Independence
import PipelineBench.Verify.Isolation
import PipelineBench.Verify.StickyError
import PipelineBench.Verify.LoggedTests
import PipelineBench.Verify.UnitTest
import PipelineBench.Verify.OutputFaults
import PipelineBench.Verify.SpinOrder
import PipelineBench.Verify.SpinClocks
import PipelineBench.Verify.BoundedQueue
import PipelineBench.Verify.PairCounts
import PipelineBench.Verify.Coverage
import PipelineBench.Verify.DecodedLaws
import PipelineBench.Verify.LineWalk
import PipelineBench.Verify.BinaryFormat
import PipelineBench.Verify.RandomWeights
import PipelineBench.Verify.FaultCoverage
import PipelineBench.Verify.StimulusWeights
import PipelineBench.Verify.Indicator
import PipelineBench.Verify.IndicatorReset
