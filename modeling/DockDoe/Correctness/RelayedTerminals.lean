import DockDoe.Correctness.SnapshotRoundTrips
import DockDoe.Foundations.Duplexes
import DockDoe.Model.Terminals

/-! Terminals relay in order, through any number of hubs: a terminal is a duplex between its
client and the container, however the steps of the servers interleave.
-/

namespace DockDoe

open Duplexes
open Json (Reader)

/-- What a terminal asks of a container: a byte of input, or another size. -/
inductive Input
  | byte (byte : UInt8)
  | resize (cols rows : ℕ)
  deriving DecidableEq

-----------------------------------------------------------------------------------------
-- What is on its way
-----------------------------------------------------------------------------------------

/-- What a server asks of the container in the end, when it is about to do this. -/
def FromClient.inputs : FromClient → List Input
  | .waiting => []
  | .writing rest => rest.map .byte
  | .resizing cols rows => [.resize cols rows]

namespace Message

/-- What a message asks of the container. -/
def inputs (message : Message) : List Input :=
  (message.handled.map FromClient.inputs).getD []

/-- The output that a message carries. -/
def outputs : Message → List UInt8
  | .binary bytes => bytes
  | _ => []

end Message

namespace ExecBridge

/-- What the bridge is about to ask of the container. -/
def inputs : ExecBridge → List Input
  | .bridging session => session.fromClient.inputs
  | _ => []

/-- The output that the client has not been sent. -/
def outputs : ExecBridge → List UInt8
  | .bridging session => session.toClient.getD [] ++ session.output
  | _ => []

end ExecBridge

namespace FederatedExecBridge

/-- What the hub is about to send to the node. -/
def inputs : FederatedExecBridge → List Input
  | .relaying _ (some message) => message.inputs
  | _ => []

/-- What the hub is about to send to the client. -/
def outputs : FederatedExecBridge → List UInt8
  | .relaying (some message) _ => message.outputs
  | _ => []

end FederatedExecBridge

/-- What is on its way between the client of a terminal and the container. -/
def Terminal.duplex : Terminal → Duplex Input UInt8
  | .docker wire bridge => {
      up := bridge.inputs ++ wire.up.flatMap Message.inputs
      down := wire.down.flatMap Message.outputs ++ if wire.isOpen then bridge.outputs else []
      intact := wire.isOpen
    }
  | .node wire bridge behind =>
      behind.duplex.relayed (bridge.inputs ++ wire.up.flatMap Message.inputs)
        (wire.down.flatMap Message.outputs) wire.isOpen bridge.outputs

/-- What happens to the duplex of a terminal. Notices are not output. -/
@[simp] def TerminalEvent.observed : TerminalEvent → Option (Duplexes.Event Input UInt8)
  | .sent message => some (.sent message.inputs)
  | .received message => some (.shown message.outputs)
  | .wrote bytes => some (.received (bytes.map .byte))
  | .resized cols rows => some (.received [.resize cols rows])
  | .printed bytes => some (.answered bytes)
  | .noticed _ => none

-----------------------------------------------------------------------------------------
-- Messages and connections
-----------------------------------------------------------------------------------------

namespace Message

theorem inputs_of_handled {message : Message} {next : FromClient}
    (handled : message.handled = some next)
    : message.inputs = next.inputs := by
  simp [inputs, handled]

/-- A relayed message asks and carries the same. -/
theorem inputs_of_relayed {message : Message} {relayed : Option Message}
    (relays : message.relayed = some relayed)
    : (relayed.map inputs).getD [] = message.inputs := by
  cases message <;> cases relays <;> rfl

theorem outputs_of_relayed {message : Message} {relayed : Option Message}
    (relays : message.relayed = some relayed)
    : (relayed.map outputs).getD [] = message.outputs := by
  cases message <;> cases relays <;> rfl

end Message

theorem FederatedExecBridge.inputs_relaying (toClient fromClient : Option Message)
    : (relaying toClient fromClient).inputs = (fromClient.map Message.inputs).getD [] := by
  cases fromClient <;> rfl

theorem FederatedExecBridge.outputs_relaying (toClient fromClient : Option Message)
    : (relaying toClient fromClient).outputs = (toClient.map Message.outputs).getD [] := by
  cases toClient <;> rfl

namespace Wire

@[simp] theorem send_down (wire : Wire) (message : Message)
    : (wire.send message).down = wire.down := by
  unfold send
  split <;> rfl

@[simp] theorem send_isOpen (wire : Wire) (message : Message)
    : (wire.send message).isOpen = wire.isOpen := by
  unfold send
  split <;> rfl

theorem send_up (wire : Wire) (message : Message)
    : (wire.send message).up = wire.up ++ if wire.isOpen then [message] else [] := by
  unfold send
  split <;> simp

@[simp] theorem push_up (wire : Wire) (message : Message)
    : (wire.push message).up = wire.up := by
  unfold push
  split <;> rfl

@[simp] theorem push_isOpen (wire : Wire) (message : Message)
    : (wire.push message).isOpen = wire.isOpen := by
  unfold push
  split <;> rfl

/-- What is sent while the connection is open is in flight, and what is sent later is lost. -/
theorem push_outputs (wire : Wire) (message : Message) (more : List UInt8)
    : ((wire.push message).down.flatMap Message.outputs ++ if wire.isOpen then more else [])
      = wire.down.flatMap Message.outputs
        ++ if wire.isOpen then message.outputs ++ more else [] := by
  unfold push
  split <;> simp

end Wire

/-- The messages of a prefix carry a prefix. -/
theorem flatMap_prefix {α β : Type} {items kept : List α} (carry : α → List β)
    (isPrefix : kept <+: items)
    : kept.flatMap carry <+: items.flatMap carry := by
  obtain ⟨rest, rfl⟩ := isPrefix
  rw [List.flatMap_append]
  exact List.prefix_append _ _

-----------------------------------------------------------------------------------------
-- The client's part
-----------------------------------------------------------------------------------------

namespace Terminal

/-- What a client sends joins what travels up as long as all connections stand. By cases on the
terminal; a relay hands on only while its own are open.
-/
theorem duplex_send (t : Terminal) (message : Message)
    : (t.send message).duplex
      = {
        t.duplex with
        up := t.duplex.up ++ if t.duplex.intact then message.inputs else []
      } := by
  cases t with
  | docker wire bridge =>
      cases isOpen : wire.isOpen <;>
        simp [send, withWire, Terminal.wire, duplex, Wire.send_up, isOpen]
  | node wire bridge behind =>
      cases isOpen : wire.isOpen <;> cases intact : behind.duplex.intact <;>
        simp [send, withWire, Terminal.wire, duplex, Duplex.relayed, Wire.send_up, isOpen, intact]

/-- What arrives first at a client is what the duplex presents first. -/
theorem duplex_down {t : Terminal} {message : Message} {rest : List Message}
    (arrived : t.wire.down = message :: rest)
    : t.duplex.down = message.outputs ++ (t.received rest).duplex.down := by
  cases t with
  | docker wire bridge =>
      obtain ⟨up, down, isOpen⟩ := wire
      obtain rfl : down = message :: rest := arrived
      simp [received, withWire, wire, duplex]
  | node wire bridge behind =>
      obtain ⟨up, down, isOpen⟩ := wire
      obtain rfl : down = message :: rest := arrived
      simp [received, withWire, wire, duplex, Duplex.relayed]

@[simp] theorem received_up (t : Terminal) (rest : List Message)
    : (t.received rest).duplex.up = t.duplex.up := by
  cases t <;> rfl

@[simp] theorem received_intact (t : Terminal) (rest : List Message)
    : (t.received rest).duplex.intact = t.duplex.intact := by
  cases t <;> rfl

/-- A terminal is broken once its connection has closed. -/
theorem docker_breaks {before after : Wire} {bridge next : ExecBridge}
    (closed : after.isOpen = false)
    (up : next.inputs ++ after.up.flatMap Message.inputs
      <+: bridge.inputs ++ before.up.flatMap Message.inputs)
    (down : after.down.flatMap Message.outputs <+: before.down.flatMap Message.outputs)
    : Duplex.Serves (docker before bridge).duplex [] (docker after next).duplex := by
  apply Duplex.Serves.failing closed up
  simpa [duplex, closed] using down.trans (List.prefix_append _ _)

theorem node_breaks {before after : Wire} {bridge next : FederatedExecBridge}
    {behind other : Terminal} (closed : after.isOpen = false)
    (up : (node after next other).duplex.up <+: (node before bridge behind).duplex.up)
    (down : after.down.flatMap Message.outputs <+: before.down.flatMap Message.outputs)
    : Duplex.Serves (node before bridge behind).duplex [] (node after next other).duplex := by
  apply Duplex.Serves.failing (by simp [duplex, Duplex.relayed, closed]) up
  simpa [duplex, Duplex.relayed, closed] using down.trans (List.prefix_append _ _)

theorem closes_intact {t : Terminal} {wire : Wire} (closes : t.wire.Closes wire)
    : (t.withWire wire).duplex.intact = false := by
  cases t <;> simp [withWire, duplex, Duplex.relayed, closes.closed]

/-- What a client has sent is lost from behind when its connection closes. -/
theorem closes_up {t : Terminal} {wire : Wire} (closes : t.wire.Closes wire)
    : (t.withWire wire).duplex.up <+: t.duplex.up := by
  have up := flatMap_prefix Message.inputs closes.up
  cases t with
  | docker before bridge => exact (List.prefix_append_right_inj _).mpr up
  | node before bridge behind =>
      apply (List.prefix_append_right_inj _).mpr
      cases behind.duplex.intact with
      | false => exact List.prefix_refl _
      | true => exact (List.prefix_append_right_inj _).mpr up

theorem duplex_closes {t : Terminal} {wire : Wire} (closes : t.wire.Closes wire)
    : Duplex.Serves t.duplex [] (t.withWire wire).duplex := by
  have up := closes_up closes
  have down := flatMap_prefix Message.outputs closes.down
  cases t with
  | docker before bridge => exact docker_breaks closes.closed up down
  | node before bridge behind => exact node_breaks closes.closed up down

/-- What a server leaves in flight when it drops a connection is only its own. -/
theorem drops_down {before after : Wire} (drops : before.Drops after)
    : after.down.flatMap Message.outputs <+: before.down.flatMap Message.outputs :=
  flatMap_prefix _ drops.down

theorem drops_up {before after : Wire} (drops : before.Drops after) : after.up = [] :=
  List.prefix_nil.mp drops.up

/-- A notice is not output, so what remains of the output is a prefix. -/
theorem refuses_down {before after : Wire} {notice : Text} (refuses : before.Refuses notice after)
    : after.down.flatMap Message.outputs <+: before.down.flatMap Message.outputs := by
  have sent := drops_down refuses
  have same (wire : Wire) {message : Message} (silent : message.outputs = [])
      : (wire.push message).down.flatMap Message.outputs = wire.down.flatMap Message.outputs := by
    unfold Wire.push
    split <;> simp [silent]
  rwa [same _ rfl, same _ rfl] at sent

/-- Each step of a terminal is a step of its duplex. By induction on the step, whose only
recursion is the step of the terminal behind a relay: that one is `Duplexes.Serves.relayed`.
-/
theorem Step.serves {t u : Terminal} {events : List TerminalEvent} (step : Step t events u)
    : Duplex.Serves t.duplex (events.filterMap TerminalEvent.observed) u.duplex := by
  induction step with
  | fail closes => exact duplex_closes closes
  | start wire => exact .stay _
  | startFails notice refuses =>
      apply docker_breaks refuses.closed _ (refuses_down refuses)
      simp [ExecBridge.inputs, drops_up refuses]
  | print wire session bytes =>
      cases isOpen : wire.isOpen with
      | false =>
          have vain := Duplex.Serves.answerInVain (d := (docker wire (.bridging session)).duplex)
            bytes isOpen
          simpa [duplex, isOpen, ExecBridge.inputs] using vain
      | true =>
          have answer := Duplex.Serves.answer (d := (docker wire (.bridging session)).duplex)
            bytes isOpen
          simpa [duplex, isOpen, ExecBridge.inputs, ExecBridge.outputs] using answer
  | takeOutput chunk rest output idle =>
      apply Duplex.Serves.unchanged
      simp [duplex, ExecBridge.inputs, ExecBridge.outputs, output, idle]
  | @sendOutput wire session chunk sending =>
      apply Duplex.Serves.unchanged
      have sent := wire.push_outputs (.binary chunk) session.output
      simp [duplex, ExecBridge.inputs, ExecBridge.outputs, sending, sent, Message.outputs]
  | @takeMessage wire session message rest next arrived idle handled =>
      apply Duplex.Serves.unchanged
      have asks := Message.inputs_of_handled handled
      simp [duplex, ExecBridge.inputs, ExecBridge.outputs, arrived, idle, asks, FromClient.inputs]
  | write bytes rest writing =>
      apply Duplex.Serves.receive
      simp [duplex, ExecBridge.inputs, writing, FromClient.inputs]
  | @written wire session writing =>
      apply Duplex.Serves.unchanged
      simp [duplex, ExecBridge.inputs, ExecBridge.outputs, writing, FromClient.inputs]
  | @resize wire session cols rows resizing =>
      apply Duplex.Serves.receive
      simp [duplex, ExecBridge.inputs, resizing, FromClient.inputs]
  | endBridge drops =>
      apply docker_breaks drops.closed _ (drops_down drops)
      simp [ExecBridge.inputs, drops_up drops]
  | connect wire behind => exact .stay _
  | @dialFails wire after behind notice refuses =>
      apply node_breaks refuses.closed _ (refuses_down refuses)
      simp [duplex, Duplex.relayed, FederatedExecBridge.inputs, drops_up refuses]
  | @takeNodes wire fromClient relayed behind message rest arrived relays =>
      apply Duplex.Serves.unchanged
      have carries := Message.outputs_of_relayed relays
      have next := duplex_down arrived
      simp [duplex, Duplex.relayed, FederatedExecBridge.inputs_relaying,
        FederatedExecBridge.outputs_relaying, next, carries]
  | sendClients wire message fromClient behind =>
      apply Duplex.Serves.unchanged
      have sent := wire.push_outputs message behind.duplex.down
      simp [duplex, Duplex.relayed, FederatedExecBridge.inputs_relaying,
        FederatedExecBridge.outputs_relaying, sent]
  | @takeClients wire toClient relayed behind message rest arrived relays =>
      apply Duplex.Serves.unchanged
      have asks := Message.inputs_of_relayed relays
      simp [duplex, Duplex.relayed, FederatedExecBridge.inputs_relaying,
        FederatedExecBridge.outputs_relaying, arrived, asks]
  | sendNodes wire toClient message behind =>
      apply Duplex.Serves.unchanged
      cases intact : behind.duplex.intact <;>
        simp [duplex, Duplex.relayed, FederatedExecBridge.inputs_relaying,
          FederatedExecBridge.outputs_relaying, duplex_send, intact]
  | @endRelay wire after upstream toClient fromClient behind drops closes =>
      apply node_breaks drops.closed _ (drops_down drops)
      simpa [duplex, Duplex.relayed, closes_intact closes] using
        (closes_up closes).trans (List.prefix_append _ _)
  | inside _ ih => exact ih.relayed _ _ _ _

/-- A run of a terminal is a run of its duplex, step by step. -/
theorem Run.simulates {t u : Terminal} {events : List TerminalEvent} (run : Run t events u)
    : Duplex.Run t.duplex (events.filterMap TerminalEvent.observed) u.duplex := by
  induction run with
  | refl => exact .refl
  | serve run step ih =>
      rw [List.filterMap_append]
      exact ih.tail (.serve step.serves)
  | @send u before run message ih =>
      rw [List.filterMap_append, duplex_send]
      exact ih.tail (.send message.inputs)
  | @receive u before message rest run arrived ih =>
      rw [List.filterMap_append]
      have same : (u.received rest).duplex
          = { u.duplex with down := (u.received rest).duplex.down } :=
        Duplex.ext (received_up u rest) rfl (received_intact u rest)
      exact same ▸ ih.tail (.present (duplex_down arrived))

/-- Nothing is on its way in a terminal that is opened through any number of hubs. -/
theorem opened_duplex (hubs : ℕ) : (opened hubs).duplex = Duplex.opened := by
  induction hubs with
  | zero => rfl
  | succ hubs ih => rw [opened, duplex, ih]; rfl

end Terminal

-----------------------------------------------------------------------------------------
-- Runs
-----------------------------------------------------------------------------------------

namespace TerminalEvent

/-- The messages that the client has sent. -/
def sentMessages (events : List TerminalEvent) : List Message :=
  events.flatMap (fun
    | .sent message => [message]
    | _ => [])

/-- What the client has sent, as it asks of the container. -/
def clientInput (events : List TerminalEvent) : List Input :=
  events.flatMap (fun
    | .sent message => message.inputs
    | _ => [])

/-- What the container has been asked. -/
def containerInput (events : List TerminalEvent) : List Input :=
  events.flatMap (fun
    | .wrote bytes => bytes.map .byte
    | .resized cols rows => [.resize cols rows]
    | _ => [])

/-- What the container has printed. -/
def containerOutput (events : List TerminalEvent) : List UInt8 :=
  events.flatMap (fun
    | .printed bytes => bytes
    | _ => [])

/-- The output that the client has received. -/
def clientOutput (events : List TerminalEvent) : List UInt8 :=
  events.flatMap (fun
    | .received message => message.outputs
    | _ => [])

/-- What is observed of events is what is observed of the duplex. By induction on the events, of
which the duplex sees some.
-/
theorem flatMap_observed {γ : Type} {own : TerminalEvent → List γ}
    {pick : Duplexes.Event Input UInt8 → List γ}
    (agree : ∀ event, own event = (event.observed.map pick).getD [])
    (events : List TerminalEvent)
    : events.flatMap own = (events.filterMap observed).flatMap pick := by
  induction events with
  | nil => rfl
  | cons event rest ih =>
      rw [List.flatMap_cons, agree, ih]
      cases seen : event.observed with
      | none => rw [List.filterMap_cons_none seen]; rfl
      | some observed => rw [List.filterMap_cons_some seen]; rfl

theorem clientInput_eq (events : List TerminalEvent)
    : clientInput events = (sentMessages events).flatMap Message.inputs := by
  rw [sentMessages, List.flatMap_assoc]
  apply congrArg events.flatMap
  funext event
  cases event <;> simp

theorem conserves_observed {events : List TerminalEvent} {t : Terminal}
    (conserves : Duplex.Conserves (events.filterMap observed) t.duplex)
    : Duplex.Conserved (clientInput events) (containerInput events) t.duplex.up t.duplex.intact
      ∧ Duplex.Conserved (containerOutput events) (clientOutput events) t.duplex.down
        t.duplex.intact := by
  obtain ⟨up, down⟩ := conserves
  have asks : clientInput events = Duplexes.sent (events.filterMap observed) :=
    flatMap_observed (by rintro (_ | _ | _ | _ | _ | _) <;> rfl) events
  have performs : containerInput events = Duplexes.received (events.filterMap observed) :=
    flatMap_observed (by rintro (_ | _ | _ | _ | _ | _) <;> rfl) events
  have prints : containerOutput events = answered (events.filterMap observed) :=
    flatMap_observed (by rintro (_ | _ | _ | _ | _ | _) <;> rfl) events
  have displays : clientOutput events = shown (events.filterMap observed) :=
    flatMap_observed (by rintro (_ | _ | _ | _ | _ | _) <;> rfl) events
  rw [asks, performs, prints, displays]
  exact ⟨up, down⟩

end TerminalEvent

-----------------------------------------------------------------------------------------
-- The page
-----------------------------------------------------------------------------------------

/-- What an action on the page asks of the container. Sizes beyond the range of their type are
ignored.
-/
def PageAction.inputs : PageAction → List Input
  | .typed data => (asBytes data).map .byte
  | .resized cols rows => if cols < 2 ^ 16 ∧ rows < 2 ^ 16 then [.resize cols rows] else []

/-- A field of a record is read from its value. -/
theorem required_record {α : Type} {fields : List (String × Json.Value)}
    (distinct : (fields.map Prod.fst).Nodup) (read : Reader α) (key : String)
    (value : Json.Value) (isField : (key, value) ∈ fields)
    : required read key (fields.map (fun field => (field.1.toList, field.2))) = read value := by
  have member := List.mem_map_of_mem (f := fun field : String × _ => (field.1.toList, field.2))
    isField
  rw [required, Reader.field, Json.filter_key_of_mem (distinct_record distinct) member]

/-- A size is read back from what the page sends, if both numbers fit into 16 bits: the record
has two fields with different names.
-/
theorem ResizeMsg.fromJson_resized (cols rows : ℕ)
    : ResizeMsg.fromJson
        ((jsonRecord [("cols", jsonNat cols), ("rows", jsonNat rows)]).text Json.standardEscape)
      = if cols < 2 ^ 16 ∧ rows < 2 ^ 16 then some { cols, rows } else none := by
  have distinct : ([("cols", jsonNat cols), ("rows", jsonNat rows)].map Prod.fst).Nodup := by
    simp
  have colsRead := (required_record distinct (Reader.nat (2 ^ 16)) "cols" (jsonNat cols)
    (by simp)).trans (Reader.nat_ofNat _ _)
  have rowsRead := (required_record distinct (Reader.nat (2 ^ 16)) "rows" (jsonNat rows)
    (by simp)).trans (Reader.nat_ofNat _ _)
  rw [fromJson, bind_some_of (Json.parse_text Json.standardEscape_escapes _), read,
    bind_some_of (show Reader.members _ (jsonRecord _) = some _ from rfl), colsRead, rowsRead]
  generalize 2 ^ 16 = bound
  by_cases small : cols < bound <;> by_cases others : rows < bound <;> simp [small, others]

theorem PageAction.message_inputs (action : PageAction)
    : action.message.inputs = action.inputs := by
  cases action with
  | typed data => rfl
  | resized cols rows =>
      have read := ResizeMsg.fromJson_resized cols rows
      by_cases small : cols < 2 ^ 16 ∧ rows < 2 ^ 16
      · rw [if_pos small] at read
        simp only [message, Message.inputs, Message.handled, read, inputs, if_pos small]
        rfl
      · rw [if_neg small] at read
        simp only [message, Message.inputs, Message.handled, read, inputs, if_neg small]
        rfl

/-- What is done while the socket is open, its size at the opening included. -/
def PageEvent.whileOpen : Bool → List PageEvent → List PageAction
  | _, [] => []
  | _, .opened fitted :: rest =>
      fitted.toList.map (fun size => .resized size.1 size.2) ++ whileOpen true rest
  | _, .closed :: rest => whileOpen false rest
  | true, .acted action :: rest => action :: whileOpen true rest
  | false, .acted _ :: rest => whileOpen false rest

/-- A page sends what is done while its socket is open. By induction on the history, from any
state of the socket.
-/
theorem TerminalPage.messages_eq (page : TerminalPage) (history : List PageEvent)
    : page.messages history = (PageEvent.whileOpen page.isOpen history).map PageAction.message := by
  induction history generalizing page with
  | nil => cases page.isOpen <;> rfl
  | cons event rest ih =>
      have next
          : page.messages (event :: rest)
            = (page.handle event).2 ++ (page.handle event).1.messages rest := rfl
      rw [next, ih]
      cases event with
      | opened fitted => cases fitted <;> simp [handle, act, PageEvent.whileOpen]
      | acted action =>
          cases isOpen : page.isOpen <;> simp [handle, act, isOpen, PageEvent.whileOpen]
      | closed => cases isOpen : page.isOpen <;> simp [handle, PageEvent.whileOpen]

namespace Terminal

/-- Through any number of hubs, the container is asked what the page does while its socket is
open and the client receives what the container prints, each in order, without gaps or
repetitions. While every connection holds, everything that is not there yet is on its way.
Witness: a terminal simulates a duplex, which conserves what is sent in either direction.
-/
theorem relayed_in_order {hubs : ℕ} {events : List TerminalEvent} {t : Terminal}
    (history : List PageEvent) (run : Run (opened hubs) events t)
    (page : TerminalEvent.sentMessages events = TerminalPage.connecting.messages history)
    : Duplex.Conserved ((PageEvent.whileOpen false history).flatMap PageAction.inputs)
        (TerminalEvent.containerInput events) t.duplex.up t.duplex.intact
      ∧ Duplex.Conserved (TerminalEvent.containerOutput events)
        (TerminalEvent.clientOutput events) t.duplex.down t.duplex.intact := by
  have conserves := run.simulates.conserves (opened_duplex hubs ▸ Duplex.opened_conserves)
  have asked
      : TerminalEvent.clientInput events
        = (PageEvent.whileOpen false history).flatMap PageAction.inputs := by
    rw [TerminalEvent.clientInput_eq, page, TerminalPage.messages_eq, List.flatMap_map]
    exact congrArg (List.flatMap · _) (funext PageAction.message_inputs)
  rw [← asked]
  exact TerminalEvent.conserves_observed conserves

/-- A letter typed too early, the page's size, and a letter with its echo. -/
def echoHistory : List PageEvent :=
  [.acted (.typed ['l']), .opened (some (80, 24)), .acted (.typed ['s'])]

def echoEvents : List TerminalEvent :=
  [.sent (PageAction.message (.resized 80 24)), .resized 80 24, .sent (.binary [115]),
    .wrote [115], .printed [115], .received (.binary [115])]

theorem echo_run : ∃ t, Run (opened 1) echoEvents t := by
  have sized : (PageAction.message (.resized 80 24)).handled = some (.resizing 80 24) := by
    rw [PageAction.message, Message.handled, ResizeMsg.fromJson_resized]
    rfl
  have run := Run.refl
    |>.serve (.connect .fresh (opened 0))
    |>.serve (.inside (.start .fresh))
    |>.send (PageAction.message (.resized 80 24))
    |>.serve (.takeClients rfl rfl)
    |>.serve (.sendNodes _ _ _ _)
    |>.serve (.inside (.takeMessage rfl rfl sized))
    |>.serve (.inside (.resize rfl))
    |>.send (.binary [115])
    |>.serve (.takeClients rfl rfl)
    |>.serve (.sendNodes _ _ _ _)
    |>.serve (.inside (.takeMessage rfl rfl rfl))
    |>.serve (.inside (.write [115] [] rfl))
    |>.serve (.inside (.written rfl))
    |>.serve (.inside (.print _ _ [115]))
    |>.serve (.inside (.takeOutput [115] [] rfl rfl))
    |>.serve (.inside (.sendOutput rfl))
    |>.serve (.takeNodes rfl rfl)
    |>.serve (.sendClients _ _ _ _)
    |>.receive rfl
  exact ⟨_, run⟩

theorem relayed_in_order_echo
    : ∃ t,
        Run (opened 1) echoEvents t
        ∧ Duplex.Conserved [.resize 80 24, .byte 115] (TerminalEvent.containerInput echoEvents)
          t.duplex.up t.duplex.intact
        ∧ Duplex.Conserved (TerminalEvent.containerOutput echoEvents)
          (TerminalEvent.clientOutput echoEvents) t.duplex.down t.duplex.intact := by
  obtain ⟨t, run⟩ := echo_run
  exact ⟨t, run, relayed_in_order echoHistory run rfl⟩

end Terminal

end DockDoe
