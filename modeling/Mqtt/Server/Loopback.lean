import Mqtt.Server
import Mqtt.Stream

/-!
# A server with its clients

A server and the streams of its clients in one place. Each client has a number; what it sends is
handled at once, and what the server writes to it waits to be read. Time stands still.

Stands in for the sockets of a `Server`.
-/

namespace Mqtt.Server

/-- A client's end of a connection. -/
structure Caller where
  /-- The server's name for the connection; none if it was turned away. -/
  token : Option Nat
  incoming : Stream
  /-- The client closed both directions. -/
  hungUp : Bool

structure Loopback where
  server : Server
  callers : List (Nat × Caller)

namespace Loopback

def start (server : Server) : Loopback := ⟨server, []⟩

def caller? (l : Loopback) (client : Nat) : Option Caller := l.callers.lookup client

def setCaller (l : Loopback) (client : Nat) (c : Caller) : Loopback :=
  { l with callers := (client, c) :: l.callers.filter (·.1 ≠ client) }

/-- Change the stream of the connection with a token. -/
def onStream (l : Loopback) (token : Nat) (f : Stream → Stream) : Loopback :=
  { l with
    callers := l.callers.map fun (client, c) =>
      (client, if c.token = some token then { c with incoming := f c.incoming } else c) }

/-- Do what the server wants done. -/
def perform (l : Loopback) : Action → Loopback
  | .write token bytes => l.onStream token (·.write bytes)
  | .close token => l.onStream token Stream.close

def performAll (l : Loopback) (r : List Action × Server) : Loopback :=
  r.1.foldl perform { l with server := r.2 }

/-- A client connects. -/
def connect (l : Loopback) (client : Nat) : Loopback :=
  let (token, server) := l.server.accept 0
  let incoming := if token.isSome then Stream.empty else Stream.empty.close
  { l with server }.setCaller client ⟨token, incoming, false⟩

/-- A client sends bytes, and possibly ends its direction. -/
def send (l : Loopback) (client : Nat) (bytes : List UInt8) (ended : Bool) : Loopback :=
  match (l.caller? client).bind (·.token) with
  | some token => l.performAll (l.server.receive token bytes ended 0)
  | none => l

/-- A client closes both directions. -/
def hangUp (l : Loopback) (client : Nat) : Loopback :=
  match l.caller? client with
  | some c => (l.setCaller client { c with hungUp := true }).send client [] true
  | none => l

/-- A client reads. There is no answer while what is wanted may still come. -/
def read? (l : Loopback) (client : Nat) (wanted : Stream.Wanted) :
    Option (List ByteArray × Bool × Loopback) := do
  let c ← l.caller? client
  let (packets, closed, incoming) ← c.incoming.read? wanted
  return (packets, closed, l.setCaller client { c with incoming })

/-- The server ends all connections. -/
def shutdown (l : Loopback) : Loopback := l.performAll l.server.shutdown

/-- The clients that did not hang up, by number, with what they have not read. -/
def remaining (l : Loopback) : List (Nat × Stream) :=
  ((l.callers.filter fun (_, c) => !c.hungUp).mergeSort fun a b => a.1 ≤ b.1).map
    fun (client, c) => (client, c.incoming)

end Loopback

end Mqtt.Server
