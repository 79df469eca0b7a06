import CapyAmqp.Broker.State
import CapyAmqp.Lib.Threads

/-!
# ConnectionCache — the connections of the threads, one cache step at a time

`new_channel`, `set_deferred` and `reset_deferred` look the calling thread's connection up and make
it on demand: they ask `has`, construct, `set` and `get` the entry in separate steps, and only each
of these is under the lock of a shard.  A thread is known to the cache by its `std::thread::id`;
between two steps it stands at a `ConnectionPhase`, and any other thread may move.

Here the connections are the objects behind the pointers that the cache holds.
-/

namespace CapyAmqp

open Lib

/-- A call of a member of `ConnectionCache`. -/
inductive ConnectionCall
  | newChannel
  | setDeferred (aDeferred : Ptr)
  | resetDeferred
  deriving DecidableEq

/-- Where a thread stands. -/
inductive ConnectionPhase
  | idle
  /-- `has` has answered false. -/
  | missing (call : ConnectionCall)
  /-- A connection has been constructed and not yet stored. -/
  | made (call : ConnectionCall) (connection : Ptr)
  /-- `get` comes next. -/
  | present (call : ConnectionCall)
  /-- The thread has the pointer to its connection. -/
  | holding (call : ConnectionCall) (connection : Ptr)

/-- What a step shows. -/
inductive ConnectionOutput
  | asked (found : Bool)
  | constructed (connection : Ptr)
  | stored
  | looked (connection : Ptr)
  | channel (connection : Ptr)
  | slot (connection : Ptr) (deferred : Option Ptr)

/-- The connection that a thread makes or works on in a step. -/
def ConnectionOutput.connection : ConnectionOutput → Option Ptr
  | .constructed connection => some connection
  | .looked connection => some connection
  | .channel connection => some connection
  | .slot connection _ => some connection
  | _ => none

/-- What a thread does next: it makes a call, or goes on with the one it is in.  A step that reads
the clock is given the reading. -/
inductive ConnectionMove
  | call (call : ConnectionCall) (now : Int)
  | proceed (now : Int)

/-- `ConnectionCache`, with the connections behind its pointers. -/
structure ConnectionCache (K : Type) where
  connections : Cache K Ptr
  objects : Heap Connection

namespace ConnectionCache

variable {K : Type}

/-- `ConnectionCache::ConnectionCache`. -/
def construct : ConnectionCache K :=
  { connections := Cache.construct
    objects := ∅ }

variable [DecidableEq K] (hash : K → Nat)

/-- `connections_.has(id)`; the answer decides whether a connection is made. -/
def ask (s : ConnectionCache K) (id : K) (call : ConnectionCall) (now : Int) :
    ConnectionCache K × ConnectionPhase × ConnectionOutput :=
  let r := s.connections.has hash id now
  ({ s with connections := r.1 }, if r.2 then .present call else .missing call, .asked r.2)

/-- `std::make_shared<Connection>(...)`. -/
def make (s : ConnectionCache K) (call : ConnectionCall) :
    ConnectionCache K × ConnectionPhase × ConnectionOutput :=
  let r := s.objects.alloc { deferred := none }
  ({ s with objects := r.1 }, .made call r.2, .constructed r.2)

/-- `connections_.set(id, connection)`.  `new_channel` goes on with the pointer it has;
`get_conection` looks the entry up again. -/
def store (s : ConnectionCache K) (id : K) (call : ConnectionCall) (connection : Ptr) :
    ConnectionCache K × ConnectionPhase × ConnectionOutput :=
  ({ s with connections := (s.connections.set hash id (some connection) 0 .writeAlways).1 },
    match call with
    | .newChannel => .holding call connection
    | _ => .present call, .stored)

/-- `connections_.get(id)`, whose value is dereferenced. -/
def look (s : ConnectionCache K) (id : K) (call : ConnectionCall) (now : Int) :
    Except Fault (ConnectionCache K × ConnectionPhase × ConnectionOutput) :=
  let r := s.connections.get hash id now
  match r.2 with
  | none => .error .nullPointer
  | some connection =>
      .ok ({ s with connections := r.1 }, .holding call connection, .looked connection)

/-- What the call wants of the connection. -/
def use (s : ConnectionCache K) (call : ConnectionCall) (connection : Ptr) :
    Except Fault (ConnectionCache K × ConnectionPhase × ConnectionOutput) :=
  match s.objects.read connection with
  | none => .error .dangling
  | some _ =>
      match call with
      | .newChannel => .ok (s, .idle, .channel connection)
      | .setDeferred aDeferred =>
          .ok ({ s with
                  objects := s.objects.modify connection fun _ => { deferred := some aDeferred } },
            .idle, .slot connection (some aDeferred))
      | .resetDeferred =>
          .ok ({ s with
                  objects := s.objects.modify connection fun _ => { deferred := none } },
            .idle, .slot connection none)

/-- One step of the thread with the given id. -/
def step (s : ConnectionCache K) (id : K) :
    ConnectionPhase → ConnectionMove →
      Except Fault (ConnectionCache K × ConnectionPhase × ConnectionOutput)
  | .idle, .call call now => .ok (s.ask hash id call now)
  | .missing call, .proceed _ => .ok (s.make call)
  | .made call connection, .proceed _ => .ok (s.store hash id call connection)
  | .present call, .proceed now => s.look hash id call now
  | .holding call connection, .proceed _ => s.use call connection
  | _, _ => .error .disabled

/-- One step of a thread; `id` is what `std::this_thread::get_id` returns on it. -/
def threadStep {T : Type} (id : T → K) (t : T) (s : ConnectionCache K) (phase : ConnectionPhase)
    (m : ConnectionMove) :
    Except Fault (ConnectionCache K × ConnectionPhase × ConnectionOutput) :=
  s.step hash (id t) phase m

/-- No thread has called anything yet. -/
def start {T : Type} : Threads T (ConnectionCache K) ConnectionPhase :=
  { shared := construct
    phase := fun _ => .idle }

end ConnectionCache

end CapyAmqp
