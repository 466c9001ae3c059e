import Mqtt.Client.Runner
import Mqtt.Stream

/-!
# A client with its broker

A client and the two directions of its stream in one place. Somebody else plays the broker: accepts,
sends bytes, reads packets. Time stands still.

Stands in for the socket of a `Client` and the broker at its other end.
-/

namespace Mqtt.Client

structure Loopback where
  runner : Runner
  /-- The broker cannot be reached. -/
  refuses : Bool
  /-- What the broker sent and the client has not read. -/
  incoming : ByteArray
  /-- The broker ended its direction. -/
  ended : Bool
  /-- What the broker reads; there is none before it accepted a stream. -/
  outgoing : Option Stream

namespace Loopback

def start (runner : Runner) : Loopback := ⟨runner, false, .empty, false, none⟩

/-- Hand over what a call wrote, and the end of the stream if the client closed it. -/
def settle (l : Loopback) (output : ByteArray) (r : Runner) : Loopback :=
  let outgoing := l.outgoing.map fun s =>
    let s := s.write output
    if r.isOpen then s else s.close
  { l with runner := r, outgoing }

/-- Make a call that does not read from the stream. -/
def call {α : Type} (l : Loopback) (f : Runner → Runner.Done α) : Except Error α × Loopback :=
  let done := f l.runner
  (done.result, l.settle done.output done.runner)

/-- Open a new stream and say CONNECT. -/
def connect (l : Loopback) : Except Error Unit × Loopback :=
  let wasOpen := l.runner.isOpen
  let done := l.runner.connect (fun _ => !l.refuses) 0
  let l := if !wasOpen && done.runner.isOpen then
      { l with incoming := .empty, ended := false, outgoing := some .empty }
    else l
  (done.result, l.settle done.output done.runner)

/-- The broker sends bytes. -/
def deliver (l : Loopback) (bytes : ByteArray) : Loopback := { l with incoming := l.incoming ++ bytes }

/-- Let the client read all there is. -/
def poll (l : Loopback) : Except Error Bool × Loopback :=
  { l with incoming := .empty }.call (·.poll l.incoming.data.toList l.ended 0)

/-- Take all events. -/
def takeEvents (l : Loopback) : List Event × Loopback :=
  let p := l.runner.protocol
  (p.link.events,
    { l with runner := { l.runner with protocol := { p with link := { p.link with events := [] } } } })

/-- Let the client read, and take its events, until there are enough, reading fails, or nothing more
can come: after one reading there is only the end of the stream left to be met. -/
def pollUntil (enough : List Event → Bool) :
    (tries : Nat) → List Event → Loopback → Option (Except Error Unit) × List Event × Loopback
  | 0, events, l => (none, events, l)
  | tries + 1, events, l =>
    let (result, l) := l.poll
    let (more, l) := l.takeEvents
    let events := events ++ more
    match result with
    | .error e => (some (.error e), events, l)
    | .ok _ => if enough events then (some (.ok ()), events, l) else pollUntil enough tries events l

/-- The broker reads while the client goes on polling. There is no answer if what is wanted does not
come. -/
def read? (l : Loopback) (wanted : Stream.Wanted) :
    (tries : Nat) → Option (List ByteArray × Bool × Loopback)
  | 0 => none
  | tries + 1 =>
    match l.outgoing.bind (·.read? wanted) with
    | some (packets, closed, s) => some (packets, closed, { l with outgoing := some s })
    | none => l.poll.2.read? wanted tries

end Loopback

end Mqtt.Client
