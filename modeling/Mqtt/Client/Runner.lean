import Mqtt.Client.Protocol
import Mqtt.Inflight.Stored

/-!
# A client on a stream

The client's protocol together with the stream that carries it. Each call tells what is to be
written to the stream; whoever owns the stream writes it, and closes the stream once it is no longer
wanted.

Models `Client`: its calls with `flush` and `cleanup`, `poll` with `handle_read`, and what
`store::save` keeps when it is dropped. Left out are the waiting of `poll`, interrupted calls, and
errors of reading and writing: a stream takes all that is written.
-/

namespace Mqtt.Client

structure Runner where
  config : Config
  protocol : Protocol
  /-- There is a stream. -/
  isOpen : Bool

namespace Runner

/-- What came of a call: its result, what is to be written, and the client after it. -/
structure Done (α : Type) where
  result : Except Error α
  output : ByteArray
  runner : Runner

/-- A client without a stream, with the handshakes of an earlier run. -/
def new (config : Config) (inflight : Inflight) : Runner :=
  ⟨config, .new inflight config.maxPacketSize, false⟩

/-- Forget the stream. -/
def close (r : Runner) : Runner := { r with isOpen := false }

/-- Go on with the protocol, and write all that it has to say if there is a stream. -/
def finish {α : Type} (r : Runner) (result : Except Error α) (p : Protocol) : Done α :=
  if r.isOpen then
    ⟨result, p.link.outbound, { r with protocol := p.consume p.link.outbound.size }⟩
  else ⟨result, .empty, { r with protocol := p }⟩

/-- Open a stream, if the address can be reached, and say CONNECT. -/
def connect (r : Runner) (reaches : String → Bool) (now : Nat) : Done Unit :=
  if r.isOpen then ⟨.error (.invalidState .alreadyConnected), .empty, r⟩
  else if !reaches r.config.address then ⟨.error .io, .empty, r⟩
  else
    match r.protocol.connect r.config now with
    | (.ok (), p) => { r with isOpen := true }.finish (.ok ()) p
    | (.error e, p) => ⟨.error e, .empty, { r with protocol := p }⟩

/-- Say DISCONNECT and close the stream, if there is one. -/
def disconnect (r : Runner) : Done Unit :=
  if r.isOpen then
    let done := r.finish (.ok ()) r.protocol.disconnect
    { done with runner := done.runner.close }
  else ⟨.ok (), .empty, r⟩

/-- Make a request. Nothing is written for one that fails. -/
def request {α : Type} (r : Runner) (f : Protocol → Except Error α × Protocol) : Done α :=
  match f r.protocol with
  | (.ok a, p) => r.finish (.ok a) p
  | (.error e, p) => ⟨.error e, .empty, { r with protocol := p }⟩

def subscribe (r : Runner) (topics : List TopicRequest) : Done UInt16 :=
  r.request (·.subscribe topics)

def unsubscribe (r : Runner) (filters : List String) : Done UInt16 :=
  r.request (·.unsubscribe filters)

def publish (r : Runner) (m : Message) : Done (Option UInt16) := r.request (·.publish m)

/-- There is something to tell the application. -/
def hasEvents (p : Protocol) : Bool := !p.link.events.isEmpty

/-- The reason when the broker closes the stream. -/
def closedByPeer : String := "Connection closed by peer"

/-- Take in what the stream has brought, and possibly its end, and do what is due. What is still to
be said when the stream has ended is lost. -/
def poll (r : Runner) (bytes : List UInt8) (ended : Bool) (now : Nat) : Done Bool :=
  if !r.isOpen then ⟨.ok (hasEvents r.protocol), .empty, r⟩
  else
    match r.protocol.handleBytes now bytes with
    | (.error e, p) =>
      let done := r.finish (.error e) p
      { done with runner := done.runner.close }
    | (.ok (), p) =>
      if ended then
        let p := p.connectionLost closedByPeer
        ⟨.ok (hasEvents p), .empty, { r with protocol := p, isOpen := false }⟩
      else
        match p.pollTimers now with
        | (.ok (), p) => r.finish (.ok (hasEvents p)) p
        | (.error e, p) => ⟨.error e, p.link.outbound, { r with protocol := p, isOpen := false }⟩

/-- Take the oldest event. -/
def nextEvent (r : Runner) : Option Event × Runner :=
  let (e, protocol) := r.protocol.nextEvent
  (e, { r with protocol })

/-- What is kept for the next run. -/
def stored (r : Runner) : String := r.protocol.inflight.toJson.renderIndented

end Runner

end Mqtt.Client
