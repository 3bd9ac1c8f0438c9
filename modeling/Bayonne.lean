import Bayonne.Base.Linked
import Bayonne.Base.Run
import Bayonne.Base.Tally
import Bayonne.Base.Refcount
import Bayonne.Registry
import Bayonne.Allowance
import Bayonne.Timeslot.Mutex
import Bayonne.Timeslot.Index
import Bayonne.Timeslot.Drops
import Bayonne.Timeslot.Handout
import Bayonne.Timeslot.Stop
import Bayonne.Sip.Responses
import Bayonne.Sip.Lookup
import Bayonne.Sip.Refusal
import Bayonne.Sip.Credentials
import Bayonne.Driver
import Bayonne.Driver.Counting
import Bayonne.Sip.Origin
import Bayonne.Dbi
import Bayonne.Dbi.Batches
import Bayonne.Dbi.Shutdown
import Bayonne.Dbi.Custody
import Bayonne.Control.Locks
import Bayonne.Control.Signals
import Bayonne.Control.Status
import Bayonne.Control.Stream
import Bayonne.Control.Logging
import Bayonne.Control.Wire
import Bayonne.Sip.Shutdown
import Bayonne.Sip.Joining
import Bayonne.Sip.Wakeup
import Bayonne.Stats.Slices
import Bayonne.Control.Arguments
import Bayonne.Control.Client
import Bayonne.Control.Shots
import Bayonne.Control.Console
import Bayonne.Control.Callers
import Bayonne.Control.Serving
import Bayonne.Control.Verdicts
import Bayonne.Uri.Server
import Bayonne.Uri.Dialed
import Bayonne.Uri.Interface
import Bayonne.Sip.Targets
import Bayonne.Sip.Voip
import Bayonne.Sip.Activation
import Bayonne.Base.Lease
import Bayonne.Base.Fair
import Bayonne.Sip.Enrolment
import Bayonne.Sip.Leases
import Bayonne.Sip.Unregister
import Bayonne.Uri.Answers
import Bayonne.Uri.Pointers
import Bayonne.Segment.Board
import Bayonne.Segment.Cycle
import Bayonne.Timeslot.Ranges
import Bayonne.Timeslot.Switchboard
import Bayonne.Timeslot.Books
import Bayonne.Sip.Switchboard
import Bayonne.Driver.Catalog
import Bayonne.Sip.Accounts
import Bayonne.Sip.Drained
