/-
The serving phase of the process: one `io_context` on one thread, on which the
server's accept loop, the discovery service and one coroutine for each
connection take turns, in whatever order their operations complete.
-/
import Eems.Connections
import Eems.DiscoveryService
import Eems.ServerFraming

namespace Eems

open Numeral Schedule

inductive ServerTask where
  | spawned
  | accepting
  | ended
deriving DecidableEq

inductive DiscoveryTask where
  | spawned
  | receiving
  | sending
  | ended
deriving DecidableEq

/-- The coroutine of the discovery service, and what it has answered. -/
structure Discovery where
  task : DiscoveryTask
  answers : List (Option DiscoveryResponse)

inductive DiscoveryEvent where
  | started (opened : Bool)
  | received (datagram : Bytes)
  | receiveFailed
  | sent
  | sendFailed

/-- What the process works on besides its configuration. -/
structure Host where
  pugi : PugiXml
  parser : RequestParser
  hostName : Bytes
  db : Db
  files : Files

structure IoContext where
  server : ServerTask
  config : ServerConfig
  discovery : Discovery
  connections : Nat → Option Connection

/-- What the thread turns to next: the start of the server with the port that
its acceptor is bound to, or some operation that has completed. -/
inductive IoEvent where
  | startServer (port : Option UInt16)
  | accepted (socket : Nat)
  | acceptFailed
  | connection (socket : Nat) (completion : Completion)
  | discovery (event : DiscoveryEvent)

/-- `run_service` from one suspension to the next. -/
def Discovery.step (parser : RequestParser) (config : DiscoveryConfig) (discovery : Discovery) :
    DiscoveryEvent → Option Discovery
  | .started opened =>
      match discovery.task with
      | .spawned => some { discovery with task := if opened then .receiving else .ended }
      | _ => none
  | .received datagram =>
      match discovery.task with
      | .receiving =>
          match parser.parse (DiscoveryService.received datagram) with
          | none => some ⟨.ended, discovery.answers ++ [none]⟩
          | some request =>
              match DiscoveryService.handleRequest config request with
              | none => some ⟨.receiving, discovery.answers ++ [none]⟩
              | some response => some ⟨.sending, discovery.answers ++ [some response]⟩
      | _ => none
  | .receiveFailed =>
      match discovery.task with
      | .receiving => some { discovery with task := .ended }
      | _ => none
  | .sent =>
      match discovery.task with
      | .sending => some { discovery with task := .receiving }
      | _ => none
  | .sendFailed =>
      match discovery.task with
      | .sending => some { discovery with task := .ended }
      | _ => none

namespace IoContext

/-- Both services have been spawned, and the thread has not run yet. -/
def spawned (config : ServerConfig) : IoContext :=
  ⟨.spawned, config, ⟨.spawned, []⟩, fun _ => none⟩

def serverOf (host : Host) (config : ServerConfig) : Server :=
  ⟨host.pugi, config, host.db, host.files⟩

/-- The first steps of `run_server`, which tell the configuration where the
server is. -/
def listening (host : Host) (config : ServerConfig) : Option UInt16 → ServerConfig
  | none => config
  | some port =>
      { config with
        baseUrl := ascii "http://" ++ host.hostName ++ ascii ":" ++ formatNat port.toNat }

/-- One turn of the thread.  The server was spawned first, so it starts before
the discovery service. -/
def step (host : Host) (context : IoContext) : IoEvent → Option IoContext
  | .startServer port =>
      match context.server with
      | .spawned =>
          some { context with
            config := listening host context.config port
            server := if port.isSome then .accepting else .ended }
      | _ => none
  | .accepted socket =>
      match context.server, context.connections socket with
      | .accepting, none =>
          some { context with
            connections := Function.update context.connections socket (some .accepted) }
      | _, _ => none
  | .acceptFailed =>
      match context.server with
      | .accepting => some { context with server := .ended }
      | _ => none
  | .connection socket completion => do
      let connection ← context.connections socket
      let next ← connection.resume (serverOf host context.config) completion
      some { context with
        connections := Function.update context.connections socket (some next) }
  | .discovery event =>
      match context.server with
      | .spawned => none
      | _ =>
          (context.discovery.step host.parser ⟨context.config.baseUrl, context.config.uuid⟩
            event).map fun discovery => { context with discovery }

/-- What a turn of the thread can do. -/
inductive Turn (host : Host) (context : IoContext) : IoEvent → IoContext → Prop
  | startServer (port : Option UInt16) (spawned : context.server = .spawned) :
      Turn host context (.startServer port) { context with
        config := listening host context.config port
        server := if port.isSome then .accepting else .ended }
  | accepted {socket : Nat} (accepting : context.server = .accepting)
      (unused : context.connections socket = none) :
      Turn host context (.accepted socket) { context with
        connections := Function.update context.connections socket (some .accepted) }
  | acceptFailed (accepting : context.server = .accepting) :
      Turn host context .acceptFailed { context with server := .ended }
  | connection {socket : Nat} {completion : Completion} {connection next : Connection}
      (found : context.connections socket = some connection)
      (resumed : connection.resume (serverOf host context.config) completion = some next) :
      Turn host context (.connection socket completion) { context with
        connections := Function.update context.connections socket (some next) }
  | discovery {event : DiscoveryEvent} {next : Discovery} (started : context.server ≠ .spawned)
      (stepped : context.discovery.step host.parser
        ⟨context.config.baseUrl, context.config.uuid⟩ event = some next) :
      Turn host context (.discovery event) { context with discovery := next }

theorem turn_of_step {host : Host} {context next : IoContext} {event : IoEvent}
    (h : context.step host event = some next) : Turn host context event next := by
  cases event with
  | startServer port =>
      simp only [step] at h
      split at h
      · rename_i hspawned
        obtain rfl := Option.some.inj h
        exact .startServer port hspawned
      · simp at h
  | accepted socket =>
      simp only [step] at h
      split at h
      · rename_i haccepting hunused
        obtain rfl := Option.some.inj h
        exact .accepted haccepting hunused
      · simp at h
  | acceptFailed =>
      simp only [step] at h
      split at h
      · rename_i haccepting
        obtain rfl := Option.some.inj h
        exact .acceptFailed haccepting
      · simp at h
  | connection socket completion =>
      obtain ⟨connection, hfound, hresume⟩ := Option.bind_eq_some_iff.mp h
      obtain ⟨after, hafter, hnext⟩ := Option.bind_eq_some_iff.mp hresume
      obtain rfl := Option.some.inj hnext
      exact .connection hfound hafter
  | discovery event =>
      simp only [step] at h
      split at h
      · simp at h
      · rename_i hstarted
        obtain ⟨after, hafter, rfl⟩ := Option.map_eq_some_iff.mp h
        exact .discovery hstarted hafter

section Run

variable {host : Host} {config : ServerConfig} {port : Option UInt16}

/-- What holds once the server has started: the configuration stays as it is,
and without an acceptor there are no connections. -/
structure Started (host : Host) (config : ServerConfig) (port : Option UInt16)
    (context : IoContext) : Prop where
  config_eq : context.config = listening host config port
  started : context.server ≠ .spawned
  unbound : port = none → context.server = .ended ∧ ∀ socket, context.connections socket = none

theorem Started.step {context next : IoContext} (h : Started host config port context)
    {event : IoEvent} (hstep : context.step host event = some next) :
    Started host config port next := by
  cases turn_of_step hstep with
  | startServer bound hspawned => exact absurd hspawned h.started
  | accepted haccepting hunused =>
      refine ⟨h.config_eq, h.started, ?_⟩
      intro hnone
      simp [(h.unbound hnone).1] at haccepting
  | acceptFailed haccepting =>
      refine ⟨h.config_eq, by simp, ?_⟩
      intro hnone
      exact ⟨rfl, (h.unbound hnone).2⟩
  | @connection socket completion connection after hfound hresumed =>
      refine ⟨h.config_eq, h.started, ?_⟩
      intro hnone
      simp [(h.unbound hnone).2 socket] at hfound
  | discovery hstarted hstepped => exact ⟨h.config_eq, h.started, h.unbound⟩

/-- What an event means to the connection on a socket: that it is accepted, or
a completion. -/
def onSocket (socket : Nat) : IoEvent → Option (Option Completion)
  | .accepted other => if other = socket then some none else none
  | .connection other completion => if other = socket then some (some completion) else none
  | _ => none

/-- A connection by itself, from before it is accepted. -/
def connectionPart (server : Server) :
    Option Connection → Option Completion → Option (Option Connection)
  | none, none => some (some .accepted)
  | some connection, some completion => (connection.resume server completion).map some
  | _, _ => none

theorem projects_connection (socket : Nat) :
    Projects (step host) (Started host config port) (fun context => context.connections socket)
      (onSocket socket) (connectionPart (serverOf host (listening host config port))) where
  kept _ _ _ h hstep := h.step hstep
  other context event next h hstep hown := by
    cases turn_of_step hstep with
    | startServer bound hspawned => exact absurd hspawned h.started
    | @accepted other haccepting hunused =>
        have hne : socket ≠ other := by
          rintro rfl
          simp [onSocket] at hown
        exact Function.update_of_ne hne _ _
    | acceptFailed haccepting => rfl
    | @connection other completion connection after hfound hresumed =>
        have hne : socket ≠ other := by
          rintro rfl
          simp [onSocket] at hown
        exact Function.update_of_ne hne _ _
    | discovery hstarted hstepped => rfl
  own context event next action h hstep hown := by
    cases turn_of_step hstep with
    | startServer bound hspawned => exact absurd hspawned h.started
    | @accepted other haccepting hunused =>
        obtain rfl : other = socket := by
          by_contra hne
          simp [onSocket, hne] at hown
        obtain rfl : none = action := by simpa [onSocket] using hown
        simp [connectionPart, hunused]
    | acceptFailed haccepting => simp [onSocket] at hown
    | @connection other completion connection after hfound hresumed =>
        obtain rfl : other = socket := by
          by_contra hne
          simp [onSocket, hne] at hown
        obtain rfl : some completion = action := by simpa [onSocket] using hown
        rw [h.config_eq] at hresumed
        simp [connectionPart, hfound, hresumed]
    | discovery hstarted hstepped => simp [onSocket] at hown

/-- What an event means to the discovery service. -/
def onDiscovery : IoEvent → Option DiscoveryEvent
  | .discovery event => some event
  | _ => none

theorem projects_discovery :
    Projects (step host) (Started host config port) (fun context => context.discovery)
      onDiscovery (Discovery.step host.parser
        ⟨(listening host config port).baseUrl, (listening host config port).uuid⟩) where
  kept _ _ _ h hstep := h.step hstep
  other context event next h hstep hown := by
    cases turn_of_step hstep with
    | discovery hstarted hstepped => simp [onDiscovery] at hown
    | _ => rfl
  own context event next action h hstep hown := by
    cases turn_of_step hstep with
    | discovery hstarted hstepped =>
        obtain rfl := Option.some.inj hown
        rw [← h.config_eq]
        exact hstepped
    | _ => simp [onDiscovery] at hown

end Run

/-- The request that an event delivers to the connection on a socket. -/
def requestOn (socket : Nat) : IoEvent → Option HttpRequest
  | .connection other (.read request) => if other = socket then some request else none
  | _ => none

/-- The completion that an event is of an operation on a socket. -/
def completionOn (socket : Nat) : IoEvent → Option Completion
  | .connection other completion => if other = socket then some completion else none
  | _ => none

/-- What the events say of a connection: the requests that it reads, and how its
own writes come out. -/
def arrivalsOn (socket : Nat) (events : List IoEvent) : List Arrival :=
  arrivalsOf (events.filterMap (completionOn socket))

theorem run_connectionPart {server : Server} {connection final : Connection}
    {actions : List (Option Completion)}
    (h : run (connectionPart server) (some connection) actions = some (some final)) :
    ∃ completions : List Completion, actions = completions.map some ∧
      run (Connection.resume server) connection completions = some final := by
  induction actions generalizing connection with
  | nil =>
      obtain rfl := Option.some.inj (Option.some.inj h)
      exact ⟨[], rfl, rfl⟩
  | cons action actions ih =>
      obtain ⟨part, hpart, hrest⟩ := Option.bind_eq_some_iff.mp h
      cases action with
      | none => simp [connectionPart] at hpart
      | some completion =>
          obtain ⟨next, hnext, rfl⟩ := Option.map_eq_some_iff.mp hpart
          obtain ⟨completions, rfl, hrun⟩ := ih hrest
          refine ⟨completion :: completions, rfl, ?_⟩
          rw [run_cons, hnext, Option.bind_some, hrun]

/-- A connection that is there was accepted before all its completions. -/
theorem run_connectionPart_none {server : Server} {final : Connection}
    {actions : List (Option Completion)}
    (h : run (connectionPart server) none actions = some (some final)) :
    ∃ completions : List Completion, actions = none :: completions.map some ∧
      run (Connection.resume server) .accepted completions = some final := by
  cases actions with
  | nil => simp at h
  | cons action actions =>
      obtain ⟨part, hpart, hrest⟩ := Option.bind_eq_some_iff.mp h
      cases action with
      | some completion => simp [connectionPart] at hpart
      | none =>
          obtain rfl := Option.some.inj hpart
          obtain ⟨completions, rfl, hrun⟩ := run_connectionPart hrest
          exact ⟨completions, rfl, hrun⟩

theorem completionOn_eq (socket : Nat) (event : IoEvent) :
    completionOn socket event = (onSocket socket event).bind id := by
  cases event with
  | accepted other => by_cases h : other = socket <;> simp [completionOn, onSocket, h]
  | connection other completion =>
      by_cases h : other = socket <;> simp [completionOn, onSocket, h]
  | _ => rfl

theorem requestOn_eq (socket : Nat) (event : IoEvent) :
    requestOn socket event = (completionOn socket event).bind Completion.request? := by
  cases event with
  | connection other completion =>
      cases completion <;> by_cases h : other = socket <;>
        simp [requestOn, completionOn, Completion.request?, h]
  | _ => rfl

theorem filterMap_completionOn (socket : Nat) (events : List IoEvent) :
    events.filterMap (completionOn socket) =
      (events.filterMap (onSocket socket)).filterMap id := by
  rw [List.filterMap_filterMap]
  exact List.filterMap_congr fun event _ => completionOn_eq socket event

theorem map_request_arrivalsOn (socket : Nat) (events : List IoEvent) :
    (arrivalsOn socket events).map Arrival.request = events.filterMap (requestOn socket) := by
  rw [arrivalsOn, map_request_arrivalsOf, List.filterMap_filterMap]
  exact List.filterMap_congr fun event _ => (requestOn_eq socket event).symm

end IoContext

/-- The datagram that an event delivers. -/
def DiscoveryEvent.datagram? : DiscoveryEvent → Option Bytes
  | .received datagram => some datagram
  | _ => none

namespace Discovery

variable {parser : RequestParser} {config : DiscoveryConfig} {discovery final : Discovery}
  {events : List DiscoveryEvent}

theorem run_ended (hended : discovery.task = .ended)
    (h : run (step parser config) discovery events = some final) :
    events = [] ∧ final = discovery := by
  cases events with
  | nil => exact ⟨rfl, (Option.some.inj h).symm⟩
  | cons event events =>
      obtain ⟨next, hnext, -⟩ := Option.bind_eq_some_iff.mp h
      cases event <;> simp [step, hended] at hnext

/-- From suspension to suspension the service answers as its loop does. -/
theorem run_step (h : run (step parser config) discovery events = some final) :
    final.answers = discovery.answers ++
      DiscoveryService.runService parser config (events.filterMap DiscoveryEvent.datagram?) := by
  induction events generalizing discovery with
  | nil =>
      obtain rfl := Option.some.inj h
      exact (List.append_nil _).symm
  | cons event events ih =>
      obtain ⟨next, hnext, hrest⟩ := Option.bind_eq_some_iff.mp h
      obtain ⟨task, answers⟩ := discovery
      cases event with
      | started opened =>
          cases task with
          | spawned =>
              obtain rfl := Option.some.inj hnext
              rw [ih hrest]
              rfl
          | _ => simp [step] at hnext
      | received datagram =>
          cases task with
          | receiving =>
              have hcons : (DiscoveryEvent.received datagram :: events).filterMap
                  DiscoveryEvent.datagram? =
                datagram :: events.filterMap DiscoveryEvent.datagram? := rfl
              rw [hcons]
              cases hparse : parser.parse (DiscoveryService.received datagram) with
              | none =>
                  obtain rfl : (⟨.ended, answers ++ [none]⟩ : Discovery) = next := by
                    simpa [step, hparse] using hnext
                  obtain ⟨rfl, rfl⟩ := run_ended rfl hrest
                  simp [DiscoveryService.runService, hparse]
              | some request =>
                  cases hanswer : DiscoveryService.handleRequest config request with
                  | none =>
                      obtain rfl : (⟨.receiving, answers ++ [none]⟩ : Discovery) = next := by
                        simpa [step, hparse, hanswer] using hnext
                      rw [ih hrest]
                      simp [DiscoveryService.runService, hparse, hanswer]
                  | some response =>
                      obtain rfl : (⟨.sending, answers ++ [some response]⟩ : Discovery) =
                          next := by
                        simpa [step, hparse, hanswer] using hnext
                      rw [ih hrest]
                      simp [DiscoveryService.runService, hparse, hanswer]
          | _ => simp [step] at hnext
      | receiveFailed =>
          cases task with
          | receiving =>
              obtain rfl := Option.some.inj hnext
              rw [ih hrest]
              rfl
          | _ => simp [step] at hnext
      | sent =>
          cases task with
          | sending =>
              obtain rfl := Option.some.inj hnext
              rw [ih hrest]
              rfl
          | _ => simp [step] at hnext
      | sendFailed =>
          cases task with
          | sending =>
              obtain rfl := Option.some.inj hnext
              rw [ih hrest]
              rfl
          | _ => simp [step] at hnext

end Discovery

namespace IoContext

/-- The datagrams that the events deliver. -/
def datagrams (events : List IoEvent) : List Bytes :=
  (events.filterMap onDiscovery).filterMap DiscoveryEvent.datagram?

/-- After the server has started, every connection and the discovery service
are where their own operations would bring them alone, and both know the server
under one address. -/
structure Isolated (host : Host) (config : ServerConfig) (port : Option UInt16)
    (events : List IoEvent) (context : IoContext) : Prop where
  connection : ∀ socket connection, context.connections socket = some connection →
    port.isSome ∧
      (arrivalsOn socket events).map Arrival.request = events.filterMap (requestOn socket) ∧
      ∀ fuel, events.length ≤ fuel →
        connection.sent <+: (serverOf host (listening host config port)).stream fuel
          (arrivalsOn socket events) ∧
        (connection.waiting = .request →
          connection.sent = (serverOf host (listening host config port)).stream fuel
            (arrivalsOn socket events))
  discovery : context.discovery.answers = DiscoveryService.runService host.parser
    ⟨(listening host config port).baseUrl, (listening host config port).uuid⟩ (datagrams events)

/-- In whatever order the thread runs the coroutines: no connection sees
another, the discovery service sees none, and the server's address is known
before anything is answered. -/
theorem run_isolated {host : Host} {config : ServerConfig} {events : List IoEvent}
    {context : IoContext} (h : run (step host) (spawned config) events = some context) :
    events = [] ∨ ∃ port rest, events = .startServer port :: rest ∧
      Isolated host config port rest context := by
  cases events with
  | nil => exact Or.inl rfl
  | cons event rest =>
      obtain ⟨first, hfirst, hrest⟩ := Option.bind_eq_some_iff.mp h
      cases turn_of_step hfirst with
      | accepted haccepting hunused => simp [spawned] at haccepting
      | acceptFailed haccepting => simp [spawned] at haccepting
      | connection hfound hresumed => simp [spawned] at hfound
      | discovery hstarted hstepped => exact absurd rfl hstarted
      | startServer port hspawned =>
          refine Or.inr ⟨port, rest, rfl, ?_⟩
          have hstarted : Started host config port { spawned config with
              config := listening host (spawned config).config port
              server := if port.isSome then .accepting else .ended } := by
            refine ⟨rfl, ?_, ?_⟩
            · cases port <;> simp
            · rintro rfl
              exact ⟨rfl, fun _ => rfl⟩
          constructor
          · intro socket connection hconnection
            obtain ⟨hfinal, hrun⟩ := (projects_connection socket).run hstarted hrest
            have hbound : port.isSome := by
              cases port with
              | some number => rfl
              | none => simp [(hfinal.unbound rfl).2 socket] at hconnection
            rw [hconnection] at hrun
            obtain ⟨completions, hactions, hresumed⟩ := run_connectionPart_none hrun
            obtain ⟨out, hsent⟩ := run_resume hresumed
            have hlength : completions.length ≤ rest.length := by
              have hle := List.length_filterMap_le (onSocket socket) rest
              rw [hactions, List.length_cons, List.length_map] at hle
              omega
            have harrivals : arrivalsOn socket rest = arrivalsOf completions := by
              rw [arrivalsOn, filterMap_completionOn, hactions]
              simp [List.filterMap_map]
            refine ⟨hbound, map_request_arrivalsOn socket rest, ?_⟩
            intro fuel hfuel
            have hout : connection.sent = out := hsent.sent
            rw [hout, harrivals]
            refine ⟨hsent.begun fuel fuel (by omega) (by omega), ?_⟩
            intro hwaiting
            exact hsent.whole hwaiting fuel fuel (by omega) (by omega)
          · obtain ⟨-, hrun⟩ := projects_discovery.run hstarted hrest
            exact Discovery.run_step hrun

end IoContext

/-- The film server, and a search for it. -/
def filmHost : Host :=
  ⟨filmServer.pugi, DiscoveryService.searchParser, ascii "eems", filmServer.db, filmServer.files⟩

def filmConfig : ServerConfig := ⟨ascii "1", ascii "EEMS", [], [], []⟩

/-- Two clients and a search at once: the second client's request is read before
the first one's body is sent. -/
def filmEvents : List IoEvent :=
  [.startServer (some 8200), .discovery (.started true), .accepted 0, .accepted 1,
    .connection 0 (.read (plainArrival .get "/content/5").request),
    .discovery (.received DiscoveryService.searchDatagram),
    .connection 1 (.read (plainArrival .get "/").request), .connection 0 .written,
    .discovery .sent, .connection 1 .written, .connection 0 (.writeFailed 1)]

theorem run_isolated_films :
    ∃ context, run (IoContext.step filmHost) (IoContext.spawned filmConfig) filmEvents =
        some context ∧
      IoContext.Isolated filmHost filmConfig (some 8200) filmEvents.tail context := by
  have hsome : (run (IoContext.step filmHost) (IoContext.spawned filmConfig)
      filmEvents).isSome = true := by decide +kernel
  obtain ⟨context, hrun⟩ := Option.isSome_iff_exists.mp hsome
  refine ⟨context, hrun, ?_⟩
  rcases IoContext.run_isolated hrun with hnil | ⟨port, rest, hevents, hisolated⟩
  · simp [filmEvents] at hnil
  · obtain ⟨hport, hrest⟩ := List.cons.inj hevents
    obtain rfl := IoEvent.startServer.inj hport
    rw [filmEvents, List.tail_cons, hrest]
    exact hisolated

end Eems
