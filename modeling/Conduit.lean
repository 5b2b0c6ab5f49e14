import Conduit.Address.Endpoint
import Conduit.Address.Raw
import Conduit.Cancel.Cascade
import Conduit.Dispatch.Emitter
import Conduit.Limits
import Conduit.Observer.Enumeration
import Conduit.Pipe.Session
import Conduit.Proofs.Address.Reading
import Conduit.Proofs.Cancel.Contract
import Conduit.Proofs.Cancel.Propagation
import Conduit.Proofs.Cancel.Returns
import Conduit.Proofs.Cancel.Throw
import Conduit.Proofs.Cancel.Unattended
import Conduit.Proofs.Dispatch.DefaultThread
import Conduit.Proofs.Dispatch.Delivery
import Conduit.Proofs.Dispatch.Stop
import Conduit.Proofs.Observer.Accounting
import Conduit.Proofs.Observer.Capability
import Conduit.Proofs.Observer.Delivery
import Conduit.Proofs.Pipe.Close
import Conduit.Proofs.Pipe.Gathering
import Conduit.Proofs.Pipe.Interruption
import Conduit.Proofs.Pipe.Sink
import Conduit.Proofs.Pipe.Source
import Conduit.Proofs.Pipe.Throw
import Conduit.Proofs.Socket.Accept
import Conduit.Proofs.Socket.Bytes
import Conduit.Proofs.Socket.Lifecycle
import Conduit.Proofs.Socket.Options
import Conduit.Proofs.Socket.Outcome
import Conduit.Proofs.Socket.Refusal
import Conduit.Proofs.Socket.Settlement
import Conduit.Reactor
import Conduit.Service.Fault
import Conduit.Socket.Session
