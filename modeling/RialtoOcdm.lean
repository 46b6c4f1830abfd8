import RialtoOcdm.Backend.Queries
import RialtoOcdm.Concurrency.LockOrder
import RialtoOcdm.Decryption.Completion
import RialtoOcdm.Decryption.Contents
import RialtoOcdm.Dispatcher.Deliveries
import RialtoOcdm.Dispatcher.Handles
import RialtoOcdm.Interleaved.Challenges
import RialtoOcdm.Interleaved.Deadlock
import RialtoOcdm.Interleaved.Destruction
import RialtoOcdm.Interleaved.KeySessions
import RialtoOcdm.Interleaved.Progress
import RialtoOcdm.Interleaved.Silence
import RialtoOcdm.Interleaved.Waiters
import RialtoOcdm.Interleaved.Wakeups
import RialtoOcdm.Logging.Lines
import RialtoOcdm.Ownership.Ledger
import RialtoOcdm.Registry.Borrowing
import RialtoOcdm.Registry.References
import RialtoOcdm.Sequential.Callbacks
import RialtoOcdm.Sequential.CallingBack
import RialtoOcdm.Sequential.Construction
import RialtoOcdm.Sequential.Failures
import RialtoOcdm.Sequential.Listeners
import RialtoOcdm.Sequential.Lookup
import RialtoOcdm.Sequential.Messages
import RialtoOcdm.Sequential.Systems
import RialtoOcdm.Sequential.Usability
