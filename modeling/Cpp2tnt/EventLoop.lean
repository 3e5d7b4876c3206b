import Cpp2tnt.ConnectionControl

/-!
The socket watcher of `ev4cpp2tnt`. The connection asks for a watch mode, the
callback turns it into an `ev_io` of its descriptor, and libev delivers what an
active watcher polls for. That write events come only while they are asked for is
what the connection relies on; here it is what the loop does.
-/

namespace Cpp2tnt
open MessagePack Transition

/-- `EV_READ` and `EV_WRITE`. -/
def evRead : Nat := 1
def evWrite : Nat := 2

/-- `ev_io`, as `ev_io_set`, `ev_io_start` and `ev_io_stop` leave it. -/
structure EvIo where
  active : Bool
  fd : Int
  events : Nat
  deriving DecidableEq

namespace EvIo

def init : EvIo := ⟨false, 0, 0⟩

def set (fd : Int) (events : Nat) (watcher : EvIo) : EvIo :=
  { watcher with fd := fd, events := events }

def start (watcher : EvIo) : EvIo := { watcher with active := true }

def stop (watcher : EvIo) : EvIo := { watcher with active := false }

end EvIo

def WatchMode.events (mode : WatchMode) : Nat :=
  (if mode.value &&& WatchMode.read.value ≠ 0 then evRead else 0) |||
    (if mode.value &&& WatchMode.write.value ≠ 0 then evWrite else 0)

/-- The callback that `register_connection` sets by `on_socket_watcher_request`. -/
def socketWatcherRequest (socketHandle : Int) (mode : WatchMode) (watcher : EvIo) : EvIo :=
  let wasActive := watcher.active
  if wasActive = false ∨ watcher.events &&& (evRead ||| evWrite) ≠ mode.events then
    let stopped := if wasActive then watcher.stop else watcher
    let set := stopped.set socketHandle mode.events
    if mode.events ≠ 0 then set.start else set
  else watcher

/-- The socket of a connection, what it has asked for, and who listens. -/
structure Polling where
  handle : Option Nat
  asked : WatchMode
  registered : Bool
  watcher : EvIo

/-- What an event of the connection does to the socket and its watching. -/
inductive SocketAction where
  /-- `_socket = std::move(s); watch_socket(mode)` -/
  | adopt (fd : Nat) (mode : WatchMode)
  /-- `watch_socket(mode)` -/
  | watch (mode : WatchMode)
  /-- `watch_socket(none); _socket.close()` -/
  | drop

namespace Polling

def socketHandle (polling : Polling) : Int := polling.handle.elim (-1) Int.ofNat

def watchSocket (mode : WatchMode) (polling : Polling) : Polling :=
  { polling with
    asked := mode
    watcher := if polling.registered
      then socketWatcherRequest polling.socketHandle mode polling.watcher else polling.watcher }

def act (action : SocketAction) (polling : Polling) : Option Polling :=
  match action with
  | .adopt fd mode =>
      if polling.handle = none ∧ mode ≠ .none then
        some ({ polling with handle := some fd }.watchSocket mode)
      else none
  | .watch mode =>
      if polling.handle ≠ none ∧ mode ≠ .none then some (polling.watchSocket mode) else none
  | .drop =>
      if polling.handle ≠ none then some { polling.watchSocket .none with handle := none } else none

def actAll (actions : List SocketAction) (polling : Polling) : Option Polling :=
  actions.foldlM (fun polling action => polling.act action) polling

/-- `register_connection`; a connection that is there already stays as it is. -/
def register (polling : Polling) : Polling :=
  if polling.registered then polling else { polling with registered := true, watcher := .init }

def unregister (polling : Polling) : Polling :=
  { polling with registered := false, watcher := polling.watcher.stop }

/-- An active watcher polls the socket that is open, for what was asked for last. -/
structure Polls (polling : Polling) : Prop where
  asks : polling.asked = .none ↔ polling.handle = none
  registered : polling.watcher.active = true → polling.registered = true
  current : polling.watcher.active = true → polling.handle ≠ none ∧
    polling.watcher.fd = polling.socketHandle ∧ polling.watcher.events = polling.asked.events

section Requests
variable {polling after : Polling}

end Requests
end Polling

structure Loop where
  conn : Conn
  polling : Polling

/-- An event of the connection, and what it does to the socket. -/
structure Turn where
  event : Event × Answers
  actions : List SocketAction

inductive LoopEvent where
  | registerConnection
  | unregisterConnection
  | io (revents : Nat) (write read : Answers × List SocketAction)
  /-- Timers, notifications and the calls of the owner. -/
  | call (turn : Turn)

namespace Loop
section Steps
variable (mp : Msgpuck) (crypto : Crypto) (parseCs : Bytes → CsParts)

/-- The last request is what `_prev_watch_mode` keeps. -/
def turn (turn : Turn) (loop : Loop) : Option Loop := do
  let conn ← Cpp2tnt.step mp crypto parseCs turn.event loop.conn
  let polling ← loop.polling.actAll turn.actions
  if polling.asked = conn.prevWatchMode ∧ polling.handle.isSome = conn.socket then
    some ⟨conn, polling⟩
  else none

def turnOn (revents event : Nat) (turn : Turn) (loop : Loop) : Option Loop :=
  if revents &&& event ≠ 0 then loop.turn mp crypto parseCs turn else some loop

def socketEventCb (revents : Nat) (write read : Answers × List SocketAction) (loop : Loop) :
    Option Loop :=
  (loop.turnOn mp crypto parseCs revents evWrite ⟨(.write, write.1), write.2⟩).bind
    (turnOn mp crypto parseCs revents evRead ⟨(.read, read.1), read.2⟩)

def step : LoopEvent → Loop → Option Loop
  | .registerConnection, loop => some { loop with polling := loop.polling.register }
  | .unregisterConnection, loop => some { loop with polling := loop.polling.unregister }
  | .io revents write read, loop => loop.socketEventCb mp crypto parseCs revents write read
  | .call turn, loop => loop.turn mp crypto parseCs turn

end Steps

def initial (cs : Bytes) (callbacks : Callbacks) : Loop :=
  ⟨Conn.initial cs callbacks, ⟨none, .none, false, .init⟩⟩

/-- An active watcher delivers what it polls for. Nobody else calls `write()`, and the owner only
appends to the output buffer. -/
def Allowed (loop : Loop) : LoopEvent → Prop
  | .io revents _ _ =>
      loop.polling.watcher.active = true ∧ revents &&& loop.polling.watcher.events = revents
  | .call ⟨(.write, _), _⟩ => False
  | .call turn => loop.conn.AppendsOnly turn.event
  | .registerConnection | .unregisterConnection => True

section Runs
variable {mp : Msgpuck} {crypto : Crypto} {parseCs : Bytes → CsParts} {start : Conn}
  {loop middle after : Loop}

/-- The connection has run under its contract, and the watcher follows it. -/
structure Follows (mp : Msgpuck) (crypto : Crypto) (parseCs : Bytes → CsParts) (start : Conn)
    (loop : Loop) : Prop where
  ran : ∃ events, Run (Cpp2tnt.step mp crypto parseCs) Conn.Driven start events loop.conn
  asked : loop.polling.asked = loop.conn.prevWatchMode
  opened : loop.polling.handle.isSome = loop.conn.socket
  polls : loop.polling.Polls

end Runs
end Loop

end Cpp2tnt
