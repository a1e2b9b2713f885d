import DockDoe.Foundations.Transducers
import DockDoe.Model.Snapshots

/-! Container terminals: the WebSocket between a browser and a server, the bridge of that
server to a container's exec session, and the bridge of a federation hub to the WebSocket of
the node behind it. Everything between the browser and the container changes in any order.
-/

namespace DockDoe

open Json (Reader)

-----------------------------------------------------------------------------------------
-- What is sent
-----------------------------------------------------------------------------------------

/-- A WebSocket message. The payloads of pings and pongs are the libraries' own. -/
inductive Message
  | text (data : Text)
  | binary (bytes : List UInt8)
  | ping
  | pong
  | close

/-- A terminal resize message from the client. -/
structure ResizeMsg where
  cols : ℕ
  rows : ℕ

namespace ResizeMsg

def read : Reader ResizeMsg :=
  fun value => do
    let members ← Reader.members (["cols", "rows"].map String.toList) value
    let cols ← required (Reader.nat (2 ^ 16)) "cols" members
    let rows ← required (Reader.nat (2 ^ 16)) "rows" members
    return { cols, rows }

def fromJson (text : Text) : Option ResizeMsg := do
  read (← Json.parse text)

end ResizeMsg

/-- What the page does with its terminal: the text that it types or pastes, and a new size. -/
inductive PageAction
  | typed (data : Text)
  | resized (cols rows : ℕ)

/-- How an action is written on the socket. -/
def PageAction.message : PageAction → Message
  | .typed data => .binary (asBytes data)
  | .resized cols rows =>
      .text ((jsonRecord [("cols", jsonNat cols), ("rows", jsonNat rows)]).text
        Json.standardEscape)

/-- What happens at the page: its socket opens, with the terminal fitted to its panel if that does
not throw, or closes, or the user does something.
-/
inductive PageEvent
  | opened (fitted : Option (ℕ × ℕ))
  | acted (action : PageAction)
  | closed

/-- The page's socket: whether `readyState` is `OPEN`. -/
structure TerminalPage where
  isOpen : Bool

namespace TerminalPage

def connecting : TerminalPage where
  isOpen := false

/-- `onData` and `syncSize`: without an open socket nothing is sent. -/
def act (page : TerminalPage) (action : PageAction) : List Message :=
  if page.isOpen then [action.message] else []

/-- The page after an event, and what it sends. With `onopen` it tells its size. -/
def handle (page : TerminalPage) : PageEvent → TerminalPage × List Message
  | .opened fitted =>
      let page := { page with isOpen := true }
      (page, fitted.toList.flatMap (fun size => page.act (.resized size.1 size.2)))
  | .acted action => (page, page.act action)
  | .closed => ({ page with isOpen := false }, [])

/-- The messages of a page's history. -/
def messages (page : TerminalPage) (history : List PageEvent) : List Message :=
  (Transducer.outputs handle page history).flatten

end TerminalPage

-----------------------------------------------------------------------------------------
-- Connections and bridges
-----------------------------------------------------------------------------------------

/-- A WebSocket with its messages in flight. Messages may still arrive after it has closed. -/
structure Wire where
  up : List Message
  down : List Message
  isOpen : Bool

namespace Wire

def fresh : Wire where
  up := []
  down := []
  isOpen := true

/-- The client sends a message. -/
def send (wire : Wire) (message : Message) : Wire :=
  if wire.isOpen then { wire with up := wire.up ++ [message] } else wire

/-- The server sends a message. -/
def push (wire : Wire) (message : Message) : Wire :=
  if wire.isOpen then { wire with down := wire.down ++ [message] } else wire

/-- The connection closes. Of what is in flight, some may get lost. -/
structure Closes (before after : Wire) : Prop where
  closed : after.isOpen = false
  up : after.up <+: before.up
  down : after.down <+: before.down

/-- The server has dropped its end, and reads nothing anymore. -/
def Drops (before after : Wire) : Prop :=
  Closes { before with up := [] } after

/-- The server gives up before the terminal starts: it says why, and closes the socket. -/
def Refuses (before : Wire) (notice : Text) (after : Wire) : Prop :=
  Drops ((before.push (.text notice)).push .close) after

end Wire

/-- What `from_client` of `exec_bridge` is about to do. -/
inductive FromClient
  | waiting
  -- `write_all`, with what is not written yet
  | writing (rest : List UInt8)
  | resizing (cols rows : ℕ)

/-- What `from_client` of `exec_bridge` makes of a message; none if it ends. -/
def Message.handled : Message → Option FromClient
  | .binary bytes => some (.writing bytes)
  | .text data =>
      match ResizeMsg.fromJson data with
      | some size => some (.resizing size.cols size.rows)
      | none => some .waiting
  | .close => none
  | .ping | .pong => some .waiting

/-- What a loop of `federated_exec_bridge` makes of a message: what it relays, if anything;
none if it ends.
-/
def Message.relayed : Message → Option (Option Message)
  | .binary bytes => some (some (.binary bytes))
  | .text data => some (some (.text data))
  | .close => none
  | .ping | .pong => some none

/-- An attached exec session, and the two loops of its bridge. -/
structure ExecSession where
  -- The output that the engine has and `to_client` has not taken yet
  output : List UInt8
  -- The chunk that `to_client` is sending
  toClient : Option (List UInt8)
  fromClient : FromClient

def ExecSession.attached : ExecSession where
  output := []
  toClient := none
  fromClient := .waiting

/-- `exec_bridge`. -/
inductive ExecBridge
  | starting
  | bridging (session : ExecSession)
  | ended

/-- `federated_exec_bridge`, with the messages that its loops are sending. -/
inductive FederatedExecBridge
  | dialing
  | relaying (toClient fromClient : Option Message)
  | ended

/-- A terminal as its client sees it: the WebSocket to a server, and what is behind it. The host
is the server's own, or that of a node behind it.
-/
inductive Terminal
  | docker (wire : Wire) (bridge : ExecBridge)
  | node (wire : Wire) (bridge : FederatedExecBridge) (behind : Terminal)

namespace Terminal

/-- A terminal that is opened through so many hubs. -/
def opened : ℕ → Terminal
  | 0 => .docker .fresh .starting
  | hubs + 1 => .node .fresh .dialing (opened hubs)

def wire : Terminal → Wire
  | .docker wire _ => wire
  | .node wire _ _ => wire

def withWire : Terminal → Wire → Terminal
  | .docker _ bridge, wire => .docker wire bridge
  | .node _ bridge behind, wire => .node wire bridge behind

/-- The client sends a message. -/
def send (t : Terminal) (message : Message) : Terminal :=
  t.withWire (t.wire.send message)

/-- The client has received the first message in flight, and others remain. -/
def received (t : Terminal) (rest : List Message) : Terminal :=
  t.withWire { t.wire with down := rest }

end Terminal

-----------------------------------------------------------------------------------------
-- Steps
-----------------------------------------------------------------------------------------

/-- What can be observed of a terminal: at its client, at the container, and the notices of
servers that cannot start it.
-/
inductive TerminalEvent
  | sent (message : Message)
  | received (message : Message)
  | wrote (bytes : List UInt8)
  | resized (cols rows : ℕ)
  | printed (bytes : List UInt8)
  | noticed (notice : Text)

/-- One step of the servers, the container or the network. -/
inductive Terminal.Step : Terminal → List TerminalEvent → Terminal → Prop
  /-- A connection fails. -/
  | fail {t : Terminal} {wire : Wire} (closes : t.wire.Closes wire) : Step t [] (t.withWire wire)
  | start (wire : Wire)
    : Step (.docker wire .starting) [] (.docker wire (.bridging .attached))
  | startFails {wire after : Wire} (notice : Text) (refuses : wire.Refuses notice after)
    : Step (.docker wire .starting) [.noticed notice] (.docker after .ended)
  /-- The container prints. -/
  | print (wire : Wire) (session : ExecSession) (bytes : List UInt8)
    : Step (.docker wire (.bridging session)) [.printed bytes]
        (.docker wire (.bridging { session with output := session.output ++ bytes }))
  /-- `to_client` takes the next chunk of the output, however the engine cuts it. -/
  | takeOutput {wire : Wire} {session : ExecSession} (chunk rest : List UInt8)
      (output : session.output = chunk ++ rest) (idle : session.toClient = none)
    : Step (.docker wire (.bridging session)) []
        (.docker wire (.bridging { session with output := rest, toClient := some chunk }))
  | sendOutput {wire : Wire} {session : ExecSession} {chunk : List UInt8}
      (sending : session.toClient = some chunk)
    : Step (.docker wire (.bridging session)) []
        (.docker (wire.push (.binary chunk)) (.bridging { session with toClient := none }))
  /-- `from_client` takes the next message. -/
  | takeMessage {wire : Wire} {session : ExecSession} {message : Message} {rest : List Message}
      {next : FromClient} (arrived : wire.up = message :: rest)
      (idle : session.fromClient = .waiting) (handled : message.handled = some next)
    : Step (.docker wire (.bridging session)) []
        (.docker { wire with up := rest } (.bridging { session with fromClient := next }))
  /-- The container takes some of the bytes that are being written. -/
  | write {wire : Wire} {session : ExecSession} (bytes rest : List UInt8)
      (writing : session.fromClient = .writing (bytes ++ rest))
    : Step (.docker wire (.bridging session)) [.wrote bytes]
        (.docker wire (.bridging { session with fromClient := .writing rest }))
  | written {wire : Wire} {session : ExecSession} (writing : session.fromClient = .writing [])
    : Step (.docker wire (.bridging session)) []
        (.docker wire (.bridging { session with fromClient := .waiting }))
  /-- The engine is asked to resize; its answer is ignored. -/
  | resize {wire : Wire} {session : ExecSession} {cols rows : ℕ}
      (resizing : session.fromClient = .resizing cols rows)
    : Step (.docker wire (.bridging session)) [.resized cols rows]
        (.docker wire (.bridging { session with fromClient := .waiting }))
  /-- One of the loops ends: the session or the socket is closed, or fails. -/
  | endBridge {wire after : Wire} {session : ExecSession} (drops : wire.Drops after)
    : Step (.docker wire (.bridging session)) [] (.docker after .ended)
  | connect (wire : Wire) (behind : Terminal)
    : Step (.node wire .dialing behind) [] (.node wire (.relaying none none) behind)
  | dialFails {wire after : Wire} {behind : Terminal} (notice : Text)
      (refuses : wire.Refuses notice after)
    : Step (.node wire .dialing behind) [.noticed notice] (.node after .ended behind)
  /-- `to_client` takes the next message of the node. -/
  | takeNodes {wire : Wire} {fromClient relayed : Option Message} {behind : Terminal}
      {message : Message} {rest : List Message} (arrived : behind.wire.down = message :: rest)
      (relays : message.relayed = some relayed)
    : Step (.node wire (.relaying none fromClient) behind) []
        (.node wire (.relaying relayed fromClient) (behind.received rest))
  | sendClients (wire : Wire) (message : Message) (fromClient : Option Message)
      (behind : Terminal)
    : Step (.node wire (.relaying (some message) fromClient) behind) []
        (.node (wire.push message) (.relaying none fromClient) behind)
  /-- `from_client` takes the next message of the client. -/
  | takeClients {wire : Wire} {toClient relayed : Option Message} {behind : Terminal}
      {message : Message} {rest : List Message} (arrived : wire.up = message :: rest)
      (relays : message.relayed = some relayed)
    : Step (.node wire (.relaying toClient none) behind) []
        (.node { wire with up := rest } (.relaying toClient relayed) behind)
  | sendNodes (wire : Wire) (toClient : Option Message) (message : Message) (behind : Terminal)
    : Step (.node wire (.relaying toClient (some message)) behind) []
        (.node wire (.relaying toClient none) (behind.send message))
  /-- One of the loops ends, and both sockets are dropped. -/
  | endRelay {wire after upstream : Wire} {toClient fromClient : Option Message}
      {behind : Terminal} (drops : wire.Drops after) (closes : behind.wire.Closes upstream)
    : Step (.node wire (.relaying toClient fromClient) behind) []
        (.node after .ended (behind.withWire upstream))
  /-- A step behind a hub. -/
  | inside {wire : Wire} {bridge : FederatedExecBridge} {behind after : Terminal}
      {events : List TerminalEvent} (step : Step behind events after)
    : Step (.node wire bridge behind) events (.node wire bridge after)

/-- Steps one after the other, those of the client between them, with what happens. -/
inductive Terminal.Run (t : Terminal) : List TerminalEvent → Terminal → Prop
  | refl : Run t [] t
  | serve {u v : Terminal} {before events : List TerminalEvent} (run : Run t before u)
      (step : Terminal.Step u events v)
    : Run t (before ++ events) v
  | send {u : Terminal} {before : List TerminalEvent} (run : Run t before u) (message : Message)
    : Run t (before ++ [.sent message]) (u.send message)
  | receive {u : Terminal} {before : List TerminalEvent} {message : Message}
      {rest : List Message} (run : Run t before u) (arrived : u.wire.down = message :: rest)
    : Run t (before ++ [.received message]) (u.received rest)

end DockDoe
