import Joblib.Lib.Resumable
import Joblib.Lib.Runs
import Joblib.Lib.Cell
import Joblib.Lib.With
import Joblib.Lib.ComparisonSort
import Joblib.Parallel.Sequential
import Joblib.Parallel.Concurrent
import Joblib.Parallel.Reentry
import Joblib.Parallel.Session
import Joblib.Parallel.Consumers
import Joblib.Memmapping.Reducer
import Joblib.Memmapping.Backing
import Joblib.Memmapping.References
import Joblib.Memmapping.Contents
import Joblib.Memmapping.Whole
import Joblib.Memmapping.Settings
import Joblib.Parallel.Workers
import Joblib.Parallel.BatchedCalls
import Joblib.Callback.Outcome
import Joblib.Callback.Retrieval
import Joblib.Threads.Alone
import Joblib.Threads.Stale
import Joblib.Threads.Steps
import Joblib.Threads.Loop
import Joblib.Threads.Window
import Joblib.Threads.Abort
import Joblib.Threads.Counters
import Joblib.Threads.Termination
import Joblib.Threads.Delivery
import Joblib.Threads.Collected
import Joblib.Threads.Progress
import Joblib.Threads.Calls
import Joblib.Config.Restore
import Joblib.Config.Resolution
import Joblib.Config.Merge
import Joblib.Config.Threads
import Joblib.Config.Sharedmem
import Joblib.Config.Registry
import Joblib.Logger.Rotation
import Joblib.Logger.Survivors
import Joblib.Dask.WeakKeyDictionary
import Joblib.Dask.Backend
import Joblib.Hashing.ConsistentSet
