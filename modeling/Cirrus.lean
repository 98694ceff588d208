import Cirrus.Lib.Machine
import Cirrus.Lib.Transition
import Cirrus.Lib.Compaction
import Cirrus.Lib.Loops
import Cirrus.Lib.Codec
import Cirrus.Lib.Factorization
import Cirrus.Lib.Stream
import Cirrus.Lib.Session
import Cirrus.Lib.Cells
import Cirrus.Lib.TextStream
import Cirrus.Lib.FirstSeen
import Cirrus.Lib.Dict
import Cirrus.Lib.Best
import Cirrus.Lib.Moments
import Cirrus.Gradients
import Cirrus.SparseLRModel
import Cirrus.Exact
import Cirrus.MinibatchGradient
import Cirrus.MFModel
import Cirrus.MFGradient
import Cirrus.MFStep
import Cirrus.MFDense
import Cirrus.MFApply
import Cirrus.GradientCells
import Cirrus.ModelLock
import Cirrus.AsyncUpdates
import Cirrus.MFFetch
import Cirrus.WorkerStep
import Cirrus.LocalUpdate
import Cirrus.ServerTask
import Cirrus.ServerInterface
import Cirrus.KeyValue
import Cirrus.Leakage
import Cirrus.GradientsAgree
import Cirrus.GradientAccepted
import Cirrus.TaskRegistry
import Cirrus.TaskCounter
import Cirrus.RequestQueue
import Cirrus.Connections
import Cirrus.ConnectionTable
import Cirrus.ConnectionRuns
import Cirrus.ConnectionAccounting
import Cirrus.RequestSlots
import Cirrus.OneInFlight
import Cirrus.TrainingRange
import Cirrus.WorkerIndex
import Cirrus.PythonClients
import Cirrus.Handler
import Cirrus.CircularBuffer
import Cirrus.S3SparseIterator
import Cirrus.PrefetchCounts
import Cirrus.PrefetchContents
import Cirrus.PrefetchStrings
import Cirrus.PrefetchRing
import Cirrus.PrefetchOverflow
import Cirrus.CriteoReader
import Cirrus.CriteoLines
import Cirrus.CsvReader
import Cirrus.NetflixReader
import Cirrus.LambdaData
import Cirrus.MinMaxBounds
import Cirrus.MinMaxRuns
import Cirrus.MinMaxNoRedis
import Cirrus.NormalScaler
import Cirrus.Lib.Scan
import Cirrus.ConfigurationFile
import Cirrus.TaskConfig
import Cirrus.LibsvmParser
import Cirrus.LibsvmLines
import Cirrus.S3IteratorLibsvm
import Cirrus.LibsvmCounts
import Cirrus.LibsvmDeadlock
import Cirrus.SparseObject
import Cirrus.PythonObjects
import Cirrus.LoadLibsvm
import Cirrus.ShortObjects
import Cirrus.SequentialIds
import Cirrus.LambdaThreads
import Cirrus.TaskIds
import Cirrus.LRFetch
import Cirrus.MFReply
import Cirrus.LibsvmRanges
import Cirrus.SampleIndex
import Cirrus.PrefetchProgress
import Cirrus.TrainingData
import Cirrus.RatingsData
import Cirrus.MFSparseCodec
import Cirrus.MFDenseCodec
import Cirrus.MFGradientCodec
import Cirrus.MFGradientShape
import Cirrus.ScratchVectors
import Cirrus.EntryOrder
import Cirrus.ObjectCodec
import Cirrus.Lib.CString
import Cirrus.LibsvmScanner
import Cirrus.LibsvmTexts
import Cirrus.FileRanges
import Cirrus.MFCalls
import Cirrus.Calls
import Cirrus.CallRuns
import Cirrus.BufferOperations
import Cirrus.PassLimit
import Cirrus.SparseScaling
import Cirrus.DenseScaling
import Cirrus.Lib.Walk
import Cirrus.LifetimeSweep
import Cirrus.RatingsReaders
import Cirrus.Lib.Strsep
import Cirrus.LineBuffers
import Cirrus.Lib.Tally
import Cirrus.HashingTrick
import Cirrus.CsvInput
import Cirrus.ConnectionSlots
import Cirrus.ConfigurationChecks
import Cirrus.LRGradientCodec
import Cirrus.S3Reader
import Cirrus.FeatureHashing
import Cirrus.GradientSends
import Cirrus.SoftmaxCodec
import Cirrus.TopExperiments
import Cirrus.SoftmaxGradient
import Cirrus.VectorAccesses
import Cirrus.Lib.Words
import Cirrus.Lib.Copying
import Cirrus.LRCopies
import Cirrus.SoftmaxCopy
import Cirrus.MFCopy
import Cirrus.ModelCopies
import Cirrus.Lib.Asynchronous
import Cirrus.Training
import Cirrus.TrainingRuns
import Cirrus.ModelReads
import Cirrus.Lib.Logistic
import Cirrus.LogisticLoss
import Cirrus.Lib.DelayedDescent
import Cirrus.TrainingLoss
import Cirrus.ErrorReports
