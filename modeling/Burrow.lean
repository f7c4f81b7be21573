import Burrow.Frontend.Session
import Burrow.Frontend.Resume
import Burrow.Frontend.ExactlyOnce
import Burrow.Frontend.Recovery
import Burrow.Frontend.PollPass
import Burrow.Memory.Delivery
import Burrow.Memory.Lease
import Burrow.Memory.Deletion
import Burrow.Memory.Uninitialised
import Burrow.Memory.AllocationFailure
import Burrow.Memory.Commute
import Burrow.Memory.Expiry
import Burrow.Memory.LazyExpiry
import Burrow.Memory.Agreement
import Burrow.Memory.Deadlines
import Burrow.Http.Transfer
import Burrow.Http.Decoder
import Burrow.Http.Target
import Burrow.Http.FilterRequest
import Burrow.Managed.CloneInto
import Burrow.Http.UserBuffer
import Burrow.Http.JsonCopies
import Burrow.Http.ParseJson
import Burrow.Memory.LinkedOverflow
import Burrow.Memory.LinkedTeardown
import Burrow.Http.JsonNesting
import Burrow.Http.JsonAccepted
import Burrow.Http.Responses
