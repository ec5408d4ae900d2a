import Mistlib.Async.Locks
import Mathlib.Data.Finset.Insert

/-!
# Lock order

The tick and the receive loop of an engine run side by side and share its state behind one lock
each. The order meant is the state, the configuration, the node store, the own id and the area
of interest; the strategies add the density store and the routing table behind these.

Every function is given by the locks it takes in order. What it does depends on data only
through the branches it takes, so a tick and a received event are the record of these branches.

The expiry of a tick takes the density store and then the node store, where a node list takes
them the other way round. `deadlock_iff` says that this is the only way the two loops can block
each other.
-/

namespace Mistlib.MistEngine

open Locks (hold Keeps)

inductive Lock where
  | state
  | config
  | nodeStore
  | selfId
  | aoiNodes
  | dnveDataStore
  | routingTable
  | connectionMode
  | heartbeatDueAt
  | balancerDueAt
  | nodeListDueAt
  | pingDueAt
  | nodeListAdaptive
  | seenEnvelopes
  | reorderBuffer
  | eventHandler
  | pingHealth
  | rttMillis
deriving DecidableEq, Repr

/-- The functions that take a lock themselves. -/
inductive Site where
  | runningContext
  | emit
  | tick
  | stepConnections
  | stepAoi
  | stepOverlayTick
  | syncConnectedNodes
  | flushExpiredInbound
  | reorderInbound
  | rememberConnectionMode
  | currentConnectionMode
  | densityGuidance
  | isDue
  | selectionInput
  | deleteOldData
  | localDensityInput
  | storeSelfDensityAndMerge
  | updateAndSendHeartbeat
  | currentMultiplier
  | observeNodeListRound
  | observe
  | requestNodeListAction
  | nodeListForRequest
  | processNetworkEvent
  | learnRoute
  | touchNode
  | markSeen
  | forwardTargets
  | markPeerSeen
  | applyHeartbeatDensity
  | handleRequestNodeList
  | applyNodeList
  | handlePosition
  | ensureNodeRegistered
  | tryApplySyncPos
  | notePingSent
  | noteInboundActivity
  | setRtt
deriving DecidableEq, Repr

abbrev Code := List (Locks.Op Site Lock)

inductive ConnectionMode where
  | directionDensity
  | directionDensityLight
  | nodeListDirectional
  | nodeListAoiGuard
  | nodeListAoiProximity
  | nodeListAoiDensity
  | nodeListProximity
  | pSense
deriving DecidableEq, Repr

def ConnectionMode.density : ConnectionMode → Bool
  | .directionDensity | .directionDensityLight | .nodeListAoiDensity => true
  | _ => false

inductive NodeListExchangeMode where
  | pull
  | push
deriving DecidableEq, Repr

/-! ## The engine's own functions -/

def runningContext : Code := hold .runningContext .state []

def emit : Code := hold .emit .eventHandler []

/-- Frames go to the send queues by way of the running context; every other
action is left to a task of its own. -/
def handleAction (isSend : Bool) : Code := if isSend then runningContext else []

/-- What `handle_message_content` finds. -/
inductive Content where
  | raw
  | internalControl
  | overlay (syncsPosition : Bool)
  | data (fromServer : Bool)

def ensureNodeRegistered (isServer : Bool) : Code :=
  if isServer then [] else hold .ensureNodeRegistered .nodeStore []

def handleMessageContent : Content → Code
  | .raw => emit
  | .internalControl => []
  | .overlay syncsPosition =>
    (if syncsPosition then hold .tryApplySyncPos .nodeStore [] else []) ++ emit
  | .data fromServer => ensureNodeRegistered fromServer ++ runningContext

/-! ## The strategy's tick -/

def isDue (timer : Lock) : Code := hold .isDue timer []

/-- The branches of a strategy's tick: which timers are due, how many peers are
connected and how many the node list round goes to. -/
structure StrategyTick where
  mode : ConnectionMode
  exchangeMode : NodeListExchangeMode
  balancerDue : Bool
  heartbeatDue : Bool
  pingDue : Bool
  nodeListDue : Bool
  connected : Nat
  targets : Nat

namespace StrategyTick

variable (t : StrategyTick)

def maybeDensityGuidance : Code :=
  if t.mode.density then hold .densityGuidance .dnveDataStore [] else []

def tickBalancer : Code :=
  isDue .balancerDueAt ++ if t.balancerDue then hold .selectionInput .nodeStore [] else []

/-- The density store first, then the node store. -/
def deleteOldData : Code :=
  hold .deleteOldData .dnveDataStore (hold .deleteOldData .nodeStore [])

def updateAndSendHeartbeat : Code :=
  hold .localDensityInput .nodeStore [] ++ hold .storeSelfDensityAndMerge .dnveDataStore [] ++
    hold .updateAndSendHeartbeat .dnveDataStore []

def tickPeriodic : Code :=
  isDue .heartbeatDueAt ++
    if t.heartbeatDue then
      deleteOldData ++ if t.mode.density then updateAndSendHeartbeat else []
    else []

def tickPing : Code :=
  isDue .pingDueAt ++
    if t.pingDue then (List.range t.connected).flatMap fun _ => hold .notePingSent .pingHealth []
    else []

def sendRequestNodeList : Code := hold .requestNodeListAction .nodeStore []

def nodeListForRequest : Code :=
  hold .nodeListForRequest .nodeStore (hold .nodeListForRequest .routingTable [])

def observeNodeListRound : Code :=
  hold .observeNodeListRound .nodeStore [] ++ hold .observe .nodeListAdaptive []

def tickNodeList : Code :=
  hold .currentMultiplier .nodeListAdaptive [] ++ isDue .nodeListDueAt ++
    if t.nodeListDue then
      observeNodeListRound ++ (List.range t.targets).flatMap fun _ =>
        match t.mode, t.exchangeMode with
        | .directionDensity, _ | _, .pull => sendRequestNodeList
        | _, .push => nodeListForRequest
    else []

def tick : Code :=
  hold .rememberConnectionMode .connectionMode [] ++ t.maybeDensityGuidance ++ t.tickBalancer ++
    t.tickPeriodic ++ t.tickPing ++ t.tickNodeList

end StrategyTick

/-! ## The engine's tick -/

/-- The branches of a tick. The context is looked up anew each time, so the
engine may have stopped in between. -/
structure EngineTick where
  connected : Bool
  aoiEvents : Nat
  positions : Nat
  connectionsLost : Bool
  /-- The strategies' ticks, if the engine runs with an overlay. -/
  overlay : Option (List StrategyTick)
  /-- Of each action the overlay's tick gave, whether it is a frame. -/
  actions : List Bool
  flushed : Option (List Content)

namespace EngineTick

variable (t : EngineTick)

def stepConnections : Code :=
  hold .stepConnections .state
    (if t.connected then hold .syncConnectedNodes .routingTable [] else [])

def stepAoi : Code :=
  hold Site.stepAoi Lock.nodeStore (hold Site.stepAoi Lock.selfId [] ++ hold Site.stepAoi Lock.aoiNodes [])

/-- The state stays locked while the strategies tick. -/
def stepOverlayTick : Code :=
  hold .stepOverlayTick .state
    (match t.overlay with
    | none => []
    | some strategies => hold .stepOverlayTick .config [] ++ strategies.flatMap StrategyTick.tick)

def stepReorderFlush : Code :=
  runningContext ++
    match t.flushed with
    | none => []
    | some contents => hold .flushExpiredInbound .reorderBuffer [] ++ contents.flatMap handleMessageContent

def snapshot : Code := hold .tick .nodeStore (hold .tick .aoiNodes [])

def tick : Code :=
  t.stepConnections ++ hold Site.tick Lock.config [] ++ stepAoi ++
    (List.range t.aoiEvents).flatMap (fun _ => emit) ++ snapshot ++ emit ++ snapshot ++
    (List.range t.positions).flatMap (fun _ => emit) ++
    (if t.connectionsLost then hold Site.tick Lock.selfId [] ++ emit else []) ++
    hold Site.tick Lock.nodeStore [] ++ emit ++ t.stepOverlayTick ++ t.actions.flatMap handleAction ++
    t.stepReorderFlush

end EngineTick

/-! ## The receive loop -/

/-- A message as a strategy handles it: whether the mode takes it and whether
its payload can be read. -/
inductive Message where
  | heartbeat (enabled decodes : Bool)
  | requestNodeList (positionDecodes : Bool)
  | nodeList (decodes : Bool)
  | position (enabled decodes : Bool)
  | ping
  | pong (decodes : Bool)
  | other

def applyHeartbeatDensity : Code :=
  hold .applyHeartbeatDensity .dnveDataStore [] ++ hold .applyHeartbeatDensity .nodeStore []

/-- The node store first, then the density store. -/
def applyNodeList : Code :=
  hold .applyNodeList .nodeStore
    (hold .applyNodeList .dnveDataStore (hold .applyNodeList .routingTable []))

def noteInboundActivity : Code := hold .noteInboundActivity .pingHealth []

def currentConnectionMode : Code := hold .currentConnectionMode .connectionMode []

def handleMessage (message : Message) : Code :=
  hold .markPeerSeen .dnveDataStore [] ++
    match message with
    | .heartbeat enabled decodes =>
      currentConnectionMode ++ if enabled && decodes then applyHeartbeatDensity else []
    | .requestNodeList positionDecodes =>
      currentConnectionMode ++
        (if positionDecodes then hold .handleRequestNodeList .nodeStore [] else []) ++
        StrategyTick.nodeListForRequest
    | .nodeList decodes => if decodes then applyNodeList else []
    | .position enabled decodes =>
      currentConnectionMode ++ if enabled && decodes then hold .handlePosition .nodeStore [] else []
    | .ping => []
    | .pong decodes =>
      if decodes then noteInboundActivity ++ hold .setRtt .rttMillis [] else []
    | .other => []

/-- The branches of `handle_envelope`. -/
inductive Handled where
  | localEcho
  | duplicate
  | fresh (messages : List Message) (forwards : Bool)

def handleEnvelope : Handled → Code
  | .localEcho => noteInboundActivity
  | .duplicate => noteInboundActivity ++ hold .markSeen .seenEnvelopes []
  | .fresh messages forwards =>
    noteInboundActivity ++ hold .markSeen .seenEnvelopes [] ++ messages.flatMap handleMessage ++
      if forwards then hold .forwardTargets .routingTable [] else []

def touchNode (isServer : Bool) : Code := if isServer then [] else hold .touchNode .nodeStore []

/-- The branches of `process_network_event`. -/
inductive NetworkEvent where
  | undecoded (fromServer : Bool)
  /-- A frame: whether the overlay learns a route from it, how the overlay
  handles it if there is one, of each action whether it is a frame, and the
  contents that are delivered if any may be. -/
  | envelope (learnsRoute fromServer sourceServer : Bool) (overlay : Option Handled)
    (actions : List Bool) (delivered : Option (List Content))

def processNetworkEvent : NetworkEvent → Code
  | .undecoded fromServer => touchNode fromServer ++ emit
  | .envelope learnsRoute fromServer sourceServer overlay actions delivered =>
    runningContext ++ (if learnsRoute then hold .learnRoute .routingTable [] else []) ++
      touchNode fromServer ++ touchNode sourceServer ++ hold .processNetworkEvent .selfId [] ++
      runningContext ++
      (match overlay with
      | none => []
      | some handled => handleEnvelope handled ++ actions.flatMap handleAction) ++
      match delivered with
      | none => []
      | some contents =>
        (if overlay.isSome then hold .reorderInbound .reorderBuffer [] else []) ++
          contents.flatMap handleMessageContent

/-! ## The two loops -/

inductive EngineTask where
  | tick
  | network
deriving DecidableEq, Repr

instance : Fintype EngineTask := ⟨{.tick, .network}, fun i => by cases i <;> decide⟩

abbrev Tasks := EngineTask → Locks.Task Site Lock

/-- The loops before they begin, with the ticks and the events they will go through. -/
def start (ticks : List EngineTick) (events : List NetworkEvent) : Tasks := fun i =>
  ⟨[], match i with
    | .tick => ticks.flatMap EngineTick.tick
    | .network => events.flatMap processNetworkEvent⟩

/-! ## What each loop may take, over what it holds -/

/-- The tick: single locks, the nested ones of the engine's own functions, any
lock of a strategy while the state is locked, and the node store over the
density store in the expiry. -/
inductive TickAllowed : List (Site × Lock) → Site → Lock → Prop
  | single {site lock} (h : site ≠ .deleteOldData) : TickAllowed [] site lock
  | syncConnectedNodes :
    TickAllowed [(.stepConnections, .state)] .syncConnectedNodes .routingTable
  | stepAoi {lock} (h : lock = .selfId ∨ lock = .aoiNodes) :
    TickAllowed [(.stepAoi, .nodeStore)] .stepAoi lock
  | snapshot : TickAllowed [(.tick, .nodeStore)] .tick .aoiNodes
  | strategy {site lock} (h : lock ≠ .state) (hexpiry : site = .deleteOldData → lock = .dnveDataStore) :
    TickAllowed [(.stepOverlayTick, .state)] site lock
  | nodeListForRequest :
    TickAllowed [(.nodeListForRequest, .nodeStore), (.stepOverlayTick, .state)]
      .nodeListForRequest .routingTable
  | expiry :
    TickAllowed [(.deleteOldData, .dnveDataStore), (.stepOverlayTick, .state)]
      .deleteOldData .nodeStore

/-- The receive loop: single locks, and those of the two node list functions. -/
inductive NetworkAllowed : List (Site × Lock) → Site → Lock → Prop
  | single {site lock} (h : site = .applyNodeList → lock = .nodeStore) : NetworkAllowed [] site lock
  | nodeListForRequest :
    NetworkAllowed [(.nodeListForRequest, .nodeStore)] .nodeListForRequest .routingTable
  | applyNodeList : NetworkAllowed [(.applyNodeList, .nodeStore)] .applyNodeList .dnveDataStore
  | addRoutes :
    NetworkAllowed [(.applyNodeList, .dnveDataStore), (.applyNodeList, .nodeStore)]
      .applyNodeList .routingTable

def Allowed : EngineTask → List (Site × Lock) → Site → Lock → Prop
  | .tick => TickAllowed
  | .network => NetworkAllowed

/-! ## The code keeps to it -/

section Tick

variable {t : EngineTick} {s : StrategyTick}

theorem single_tick {site : Site} {lock : Lock} (h : site ≠ .deleteOldData) :
    Keeps TickAllowed [] (hold site lock []) :=
  .leaf (.single h)

theorem handleMessageContent_tick (content : Content) :
    Keeps TickAllowed [] (handleMessageContent content) := by
  cases content with
  | raw => exact single_tick (by decide)
  | internalControl => exact Locks.keeps_nil
  | overlay syncsPosition =>
    exact .append (.ite (single_tick (by decide)) Locks.keeps_nil) (single_tick (by decide))
  | data fromServer =>
    exact .append (.ite Locks.keeps_nil (single_tick (by decide))) (single_tick (by decide))

theorem strategy_tick {site : Site} {lock : Lock} (hlock : lock ≠ .state)
    (hsite : site ≠ .deleteOldData) :
    Keeps TickAllowed [(.stepOverlayTick, .state)] (hold site lock []) :=
  .leaf (.strategy hlock fun h => absurd h hsite)

theorem deleteOldData_tick :
    Keeps TickAllowed [(.stepOverlayTick, .state)] StrategyTick.deleteOldData :=
  .hold (.strategy (by decide) fun _ => rfl) (.leaf .expiry)

theorem nodeListForRequest_tick :
    Keeps TickAllowed [(.stepOverlayTick, .state)] StrategyTick.nodeListForRequest :=
  .hold (.strategy (by decide) (by decide)) (.leaf .nodeListForRequest)

theorem tickPeriodic_tick : Keeps TickAllowed [(.stepOverlayTick, .state)] s.tickPeriodic := by
  refine .append (strategy_tick (by decide) (by decide)) (.ite ?_ Locks.keeps_nil)
  refine .append deleteOldData_tick (.ite ?_ Locks.keeps_nil)
  exact ((strategy_tick (by decide) (by decide)).append (strategy_tick (by decide) (by decide))).append
    (strategy_tick (by decide) (by decide))

theorem tickNodeList_tick : Keeps TickAllowed [(.stepOverlayTick, .state)] s.tickNodeList := by
  refine .append (.append (strategy_tick (by decide) (by decide))
    (strategy_tick (by decide) (by decide))) (.ite ?_ Locks.keeps_nil)
  refine .append (.append (strategy_tick (by decide) (by decide))
    (strategy_tick (by decide) (by decide))) (.flatMap fun _ _ => ?_)
  split
  · exact strategy_tick (by decide) (by decide)
  · exact strategy_tick (by decide) (by decide)
  · exact nodeListForRequest_tick

theorem strategyTick_tick : Keeps TickAllowed [(.stepOverlayTick, .state)] s.tick := by
  have hping : Keeps TickAllowed [(.stepOverlayTick, .state)] s.tickPing :=
    .append (strategy_tick (by decide) (by decide))
      (.ite (.flatMap fun _ _ => strategy_tick (by decide) (by decide)) Locks.keeps_nil)
  have hbalancer : Keeps TickAllowed [(.stepOverlayTick, .state)] s.tickBalancer :=
    .append (strategy_tick (by decide) (by decide))
      (.ite (strategy_tick (by decide) (by decide)) Locks.keeps_nil)
  have hguidance : Keeps TickAllowed [(.stepOverlayTick, .state)] s.maybeDensityGuidance :=
    .ite (strategy_tick (by decide) (by decide)) Locks.keeps_nil
  exact (((((strategy_tick (by decide) (by decide)).append hguidance).append hbalancer).append
    tickPeriodic_tick).append hping).append tickNodeList_tick

theorem stepOverlayTick_tick : Keeps TickAllowed [] t.stepOverlayTick := by
  refine .hold (.single (by decide)) ?_
  split
  · exact Locks.keeps_nil
  · exact .append (strategy_tick (by decide) (by decide)) (.flatMap fun _ _ => strategyTick_tick)

theorem stepReorderFlush_tick : Keeps TickAllowed [] t.stepReorderFlush := by
  refine .append (single_tick (by decide)) ?_
  split
  · exact Locks.keeps_nil
  · exact .append (single_tick (by decide)) (.flatMap fun c _ => handleMessageContent_tick c)

theorem engineTick_tick : Keeps TickAllowed [] t.tick := by
  have hemit : Keeps TickAllowed [] emit := single_tick (by decide)
  have hemits : ∀ n, Keeps TickAllowed [] ((List.range n).flatMap fun _ => emit) := fun _ =>
    .flatMap fun _ _ => hemit
  have hconnections : Keeps TickAllowed [] t.stepConnections :=
    .hold (.single (by decide)) (.ite (.leaf .syncConnectedNodes) Locks.keeps_nil)
  have hconfig : Keeps TickAllowed [] (hold .tick .config []) := single_tick (by decide)
  have haoi : Keeps TickAllowed [] EngineTick.stepAoi :=
    .hold (.single (by decide)) (.append (.leaf (.stepAoi (.inl rfl))) (.leaf (.stepAoi (.inr rfl))))
  have hsnapshot : Keeps TickAllowed [] EngineTick.snapshot :=
    .hold (.single (by decide)) (.leaf .snapshot)
  have hself : Keeps TickAllowed [] (hold .tick .selfId []) := single_tick (by decide)
  have hlost : Keeps TickAllowed [] (if t.connectionsLost then hold .tick .selfId [] ++ emit else []) :=
    .ite (hself.append hemit) Locks.keeps_nil
  have hnodes : Keeps TickAllowed [] (hold .tick .nodeStore []) := single_tick (by decide)
  have hactions : Keeps TickAllowed [] (t.actions.flatMap handleAction) :=
    .flatMap fun _ _ => .ite (single_tick (by decide)) Locks.keeps_nil
  have hbefore := (((hconnections.append hconfig).append haoi).append (hemits t.aoiEvents)).append
    hsnapshot
  have hreports := ((((hbefore.append hemit).append hsnapshot).append (hemits t.positions)).append
    hlost).append hnodes
  exact (((hreports.append hemit).append stepOverlayTick_tick).append hactions).append
    stepReorderFlush_tick

end Tick

section Network

theorem single_network {site : Site} {lock : Lock} (h : site ≠ .applyNodeList) :
    Keeps NetworkAllowed [] (hold site lock []) :=
  .leaf (.single fun heq => absurd heq h)

theorem handleMessageContent_network (content : Content) :
    Keeps NetworkAllowed [] (handleMessageContent content) := by
  cases content with
  | raw => exact single_network (by decide)
  | internalControl => exact Locks.keeps_nil
  | overlay syncsPosition =>
    exact .append (.ite (single_network (by decide)) Locks.keeps_nil) (single_network (by decide))
  | data fromServer =>
    exact .append (.ite Locks.keeps_nil (single_network (by decide))) (single_network (by decide))

theorem applyNodeList_network : Keeps NetworkAllowed [] applyNodeList :=
  .hold (.single fun _ => rfl) (.hold .applyNodeList (.leaf .addRoutes))

theorem nodeListForRequest_network : Keeps NetworkAllowed [] StrategyTick.nodeListForRequest :=
  .hold (.single (by decide)) (.leaf .nodeListForRequest)

theorem handleMessage_network (message : Message) :
    Keeps NetworkAllowed [] (handleMessage message) := by
  refine .append (single_network (by decide)) ?_
  cases message with
  | heartbeat enabled decodes =>
    exact .append (single_network (by decide))
      (.ite (.append (single_network (by decide)) (single_network (by decide))) Locks.keeps_nil)
  | requestNodeList positionDecodes =>
    exact .append (.append (single_network (by decide))
      (.ite (single_network (by decide)) Locks.keeps_nil)) nodeListForRequest_network
  | nodeList decodes => exact .ite applyNodeList_network Locks.keeps_nil
  | position enabled decodes =>
    exact .append (single_network (by decide)) (.ite (single_network (by decide)) Locks.keeps_nil)
  | ping | other => exact Locks.keeps_nil
  | pong decodes =>
    exact .ite (.append (single_network (by decide)) (single_network (by decide))) Locks.keeps_nil

theorem handleEnvelope_network (handled : Handled) :
    Keeps NetworkAllowed [] (handleEnvelope handled) := by
  cases handled with
  | localEcho => exact single_network (by decide)
  | duplicate => exact .append (single_network (by decide)) (single_network (by decide))
  | fresh messages forwards =>
    exact .append (.append (.append (single_network (by decide)) (single_network (by decide)))
      (.flatMap fun m _ => handleMessage_network m))
      (.ite (single_network (by decide)) Locks.keeps_nil)

theorem processNetworkEvent_network (event : NetworkEvent) :
    Keeps NetworkAllowed [] (processNetworkEvent event) := by
  have htouch : ∀ isServer, Keeps NetworkAllowed [] (touchNode isServer) := fun _ =>
    .ite Locks.keeps_nil (single_network (by decide))
  cases event with
  | undecoded fromServer => exact .append (htouch _) (single_network (by decide))
  | envelope learnsRoute fromServer sourceServer overlay actions delivered =>
    have hcontext : Keeps NetworkAllowed [] runningContext := single_network (by decide)
    have hlearn : Keeps NetworkAllowed []
        (if learnsRoute then hold .learnRoute .routingTable [] else []) :=
      .ite (single_network (by decide)) Locks.keeps_nil
    have hself : Keeps NetworkAllowed [] (hold .processNetworkEvent .selfId []) :=
      single_network (by decide)
    have hbefore := (((hcontext.append hlearn).append (htouch fromServer)).append
      (htouch sourceServer)).append hself
    refine ((hbefore.append hcontext).append ?_).append ?_
    · split
      · exact Locks.keeps_nil
      · exact .append (handleEnvelope_network _)
          (.flatMap fun _ _ => .ite (single_network (by decide)) Locks.keeps_nil)
    · split
      · exact Locks.keeps_nil
      · exact .append (.ite (single_network (by decide)) Locks.keeps_nil)
          (.flatMap fun c _ => handleMessageContent_network c)

end Network

theorem orderly_after (ticks : List EngineTick) (events : List NetworkEvent)
    (schedule : List EngineTask) :
    Locks.Orderly Allowed (Locks.after (start ticks events) schedule) := by
  refine Locks.orderly_after (Locks.orderly_start fun i => ?_) schedule
  cases i with
  | tick => exact (Keeps.flatMap fun t _ => engineTick_tick).follows
  | network => exact (Keeps.flatMap fun e _ => processNetworkEvent_network e).follows

/-! ## The one way to block each other -/

def rank : Lock → Nat
  | .state => 0
  | .config => 1
  | .nodeStore => 2
  | .selfId => 3
  | .aoiNodes => 4
  | .dnveDataStore => 5
  | .routingTable => 6
  | _ => 7

def Deadlocked (tasks : Tasks) : Prop := Locks.Deadlocked tasks .tick .network

/-- The tick has the density store and wants the node store for its expiry. -/
def InExpiry (tasks : Tasks) : Prop :=
  (tasks .tick).held = [(.deleteOldData, .dnveDataStore), (.stepOverlayTick, .state)] ∧
    (tasks .tick).Wants .deleteOldData .nodeStore

/-- The receive loop has the node store and wants the density store for a node list. -/
def InNodeList (tasks : Tasks) : Prop :=
  (tasks .network).held = [(.applyNodeList, .nodeStore)] ∧
    (tasks .network).Wants .applyNodeList .dnveDataStore

section Deadlock

variable {tasks : Tasks}

variable {site : Site} {lock : Lock}

theorem tick_allowed (h : Locks.Orderly Allowed tasks) (hwants : (tasks .tick).Wants site lock) :
    TickAllowed (tasks .tick).held site lock := by
  obtain ⟨rest, hrest⟩ := hwants
  have hfollows := h.follows .tick
  rw [hrest] at hfollows
  exact hfollows.1

theorem network_allowed (h : Locks.Orderly Allowed tasks) (hwants : (tasks .network).Wants site lock) :
    NetworkAllowed (tasks .network).held site lock := by
  obtain ⟨rest, hrest⟩ := hwants
  have hfollows := h.follows .network
  rw [hrest] at hfollows
  exact hfollows.1

/-- Where the tick asks for more, it asks for a higher rank, but for the expiry. -/
theorem TickAllowed.ascending {held : List (Site × Lock)} (h : TickAllowed held site lock)
    (hexpiry : site = .deleteOldData → lock ≠ .nodeStore) :
    ∀ other ∈ held.map Prod.snd, rank other < rank lock := by
  intro other hother
  cases h with
  | single => cases hother
  | strategy hstate =>
    obtain rfl := List.mem_singleton.mp hother
    cases lock <;> first | exact absurd rfl hstate | decide
  | expiry => exact absurd rfl (hexpiry rfl)
  | stepAoi hlock =>
    obtain rfl := List.mem_singleton.mp hother
    rcases hlock with rfl | rfl <;> decide
  | syncConnectedNodes => exact (by decide : ∀ o ∈ [Lock.state], rank o < 6) other hother
  | snapshot => exact (by decide : ∀ o ∈ [Lock.nodeStore], rank o < 4) other hother
  | nodeListForRequest =>
    exact (by decide : ∀ o ∈ [Lock.nodeStore, Lock.state], rank o < 6) other hother

theorem NetworkAllowed.ascending {held : List (Site × Lock)} (h : NetworkAllowed held site lock) :
    ∀ other ∈ held.map Prod.snd, rank other < rank lock := by
  intro other hother
  cases h with
  | single => cases hother
  | nodeListForRequest => exact (by decide : ∀ o ∈ [Lock.nodeStore], rank o < 6) other hother
  | applyNodeList => exact (by decide : ∀ o ∈ [Lock.nodeStore], rank o < 5) other hother
  | addRoutes =>
    exact (by decide : ∀ o ∈ [Lock.dnveDataStore, Lock.nodeStore], rank o < 6) other hother

/-- The loops block each other exactly when the tick is in the middle of its
expiry and the receive loop in the middle of a node list. -/
theorem deadlocked_iff (h : Locks.Orderly Allowed tasks) :
    Deadlocked tasks ↔ InExpiry tasks ∧ InNodeList tasks := by
  constructor
  · intro hdead
    have hnetwork : Locks.Ascending rank (tasks .network) := fun site lock hwants =>
      (network_allowed h hwants).ascending
    have htick := hdead.not_ascending rank hnetwork
    obtain ⟨⟨site, lock, hwants, hheld⟩, site', lock', hwants', hheld'⟩ := hdead
    have hallowed := tick_allowed h hwants
    have hexpiry : site = .deleteOldData ∧ lock = .nodeStore := by
      by_contra hother
      refine htick fun site'' lock'' hwants'' => ?_
      obtain ⟨rest, hrest⟩ := hwants
      obtain ⟨rest'', hrest''⟩ := hwants''
      rw [hrest] at hrest''
      cases hrest''
      exact hallowed.ascending fun hsite hlock => hother ⟨hsite, hlock⟩
    obtain ⟨rfl, rfl⟩ := hexpiry
    have hmiddle : (tasks .tick).held =
        [(.deleteOldData, .dnveDataStore), (.stepOverlayTick, .state)] := by
      generalize (tasks .tick).held = held at hallowed
      cases hallowed with
      | single hsite => exact absurd rfl hsite
      | strategy _ hsite => cases hsite rfl
      | expiry => rfl
    refine ⟨⟨hmiddle, hwants⟩, ?_⟩
    rw [Locks.Task.Holds, hmiddle] at hheld'
    have hallowed' := network_allowed h hwants'
    rw [Locks.Task.Holds] at hheld
    rw [InNodeList]
    generalize (tasks .network).held = held' at hallowed' hheld
    cases hallowed' with
    | single => cases hheld
    | nodeListForRequest | addRoutes => exact absurd hheld' (by decide)
    | applyNodeList => exact ⟨rfl, hwants'⟩
  · rintro ⟨⟨htick, hwants⟩, hnetwork, hwants'⟩
    refine ⟨⟨_, _, hwants, ?_⟩, _, _, hwants', ?_⟩
    · rw [Locks.Task.Holds, hnetwork]
      decide
    · rw [Locks.Task.Holds, htick]
      decide

/-- A step that does not begin an expiry in the middle of a node list, nor a
node list in the middle of an expiry. -/
def KeepsApart (tasks : Tasks) : EngineTask → Prop
  | .tick => ¬ ((∃ site rest, (tasks .tick).rest =
      .acquire site .dnveDataStore :: .acquire .deleteOldData .nodeStore :: rest) ∧
      InNodeList tasks)
  | .network => ¬ ((∃ site rest, (tasks .network).rest =
      .acquire site .nodeStore :: .acquire .applyNodeList .dnveDataStore :: rest) ∧
      InExpiry tasks)

section

variable (h : Locks.Orderly Allowed tasks)
include h

theorem step_tick_network : Locks.step tasks .tick .network = tasks .network := by
  rcases Locks.step_cases (i := .tick) h with heq | ⟨_, _, _, _, _, _, heq⟩ | ⟨_, _, _, _, _, _, heq⟩
  · rw [heq]
  · rw [heq, Function.update_of_ne (by decide)]
  · rw [heq, Function.update_of_ne (by decide)]

theorem step_network_tick : Locks.step tasks .network .tick = tasks .tick := by
  rcases Locks.step_cases (i := .network) h with
    heq | ⟨_, _, _, _, _, _, heq⟩ | ⟨_, _, _, _, _, _, heq⟩
  · rw [heq]
  · rw [heq, Function.update_of_ne (by decide)]
  · rw [heq, Function.update_of_ne (by decide)]

/-- Sections kept apart lead into no deadlock. -/
theorem not_deadlocked_step (hfree : ¬ Deadlocked tasks) {i : EngineTask}
    (hapart : KeepsApart tasks i) : ¬ Deadlocked (Locks.step tasks i) := by
  intro hdead
  have hstep := Locks.orderly_step h i
  obtain ⟨⟨htick, hwantsTick⟩, hnetwork, hwantsNetwork⟩ := (deadlocked_iff hstep).mp hdead
  cases i with
  | tick =>
    rw [step_tick_network h] at hnetwork hwantsNetwork
    rcases Locks.step_cases (i := .tick) h with
      heq | ⟨site, lock, rest, hrest, -, -, heq⟩ | ⟨site, lock, held, rest, hrest, hheld, heq⟩
    · rw [heq] at hdead
      exact hfree hdead
    · -- the tick has just taken the density store
      rw [heq, Function.update_self] at htick hwantsTick
      obtain ⟨rest', hrest'⟩ := hwantsTick
      obtain ⟨hpair, -⟩ := List.cons.inj htick
      cases hpair
      cases hrest'
      exact hapart ⟨⟨_, _, hrest⟩, hnetwork, hwantsNetwork⟩
    · -- what it has given back can only be the node store, which the receive loop holds
      rw [heq, Function.update_self] at htick
      obtain rfl : held = _ := htick
      have hstacked := h.stacked .tick
      rw [hheld] at hstacked
      have hallowed : TickAllowed _ site lock := hstacked.1
      cases hallowed
      have hown : (tasks .tick).Holds .nodeStore := by
        rw [Locks.Task.Holds, hheld]
        exact List.mem_cons_self
      have hother : (tasks .network).Holds .nodeStore := by
        rw [Locks.Task.Holds, hnetwork]
        exact List.mem_cons_self
      cases h.exclusive _ _ _ hown hother
  | network =>
    rw [step_network_tick h] at htick hwantsTick
    rcases Locks.step_cases (i := .network) h with
      heq | ⟨site, lock, rest, hrest, -, -, heq⟩ | ⟨site, lock, held, rest, hrest, hheld, heq⟩
    · rw [heq] at hdead
      exact hfree hdead
    · -- the receive loop has just taken the node store
      rw [heq, Function.update_self] at hnetwork hwantsNetwork
      obtain ⟨rest', hrest'⟩ := hwantsNetwork
      obtain ⟨hpair, -⟩ := List.cons.inj hnetwork
      cases hpair
      cases hrest'
      exact hapart ⟨⟨_, _, hrest⟩, htick, hwantsTick⟩
    · -- what it has given back can only be the density store, which the tick holds
      rw [heq, Function.update_self] at hnetwork
      obtain rfl : held = _ := hnetwork
      have hstacked := h.stacked .network
      rw [hheld] at hstacked
      have hallowed : NetworkAllowed _ site lock := hstacked.1
      cases hallowed
      have hown : (tasks .network).Holds .dnveDataStore := by
        rw [Locks.Task.Holds, hheld]
        exact List.mem_cons_self
      have hother : (tasks .tick).Holds .dnveDataStore := by
        rw [Locks.Task.Holds, htick]
        exact List.mem_cons_self
      cases h.exclusive _ _ _ hother hown

/-- Sections that are not kept apart lead into a deadlock. -/
theorem deadlocked_step {i : EngineTask} (hapart : ¬ KeepsApart tasks i) :
    Deadlocked (Locks.step tasks i) := by
  refine (deadlocked_iff (Locks.orderly_step h i)).mpr ?_
  have hfollows := h.follows i
  cases i with
  | tick =>
    obtain ⟨⟨site, rest, hrest⟩, hnetwork, hwants⟩ := not_not.mp hapart
    rw [hrest] at hfollows
    have hexpiry : TickAllowed _ .deleteOldData .nodeStore := hfollows.2.1
    obtain ⟨rfl, hheld⟩ : site = .deleteOldData ∧
        (tasks .tick).held = [(.stepOverlayTick, .state)] := by
      generalize (tasks .tick).held = held at hexpiry
      cases hexpiry
      exact ⟨rfl, rfl⟩
    have hfree : ∀ j, ¬ (tasks j).Holds .dnveDataStore := by
      intro j
      cases j with
      | tick => rw [Locks.Task.Holds, hheld]; decide
      | network => rw [Locks.Task.Holds, hnetwork]; decide
    rw [InExpiry, InNodeList, step_tick_network h, Locks.step_acquire hrest hfree,
      Function.update_self, hheld]
    exact ⟨⟨rfl, rest, rfl⟩, hnetwork, hwants⟩
  | network =>
    obtain ⟨⟨site, rest, hrest⟩, htick, hwants⟩ := not_not.mp hapart
    rw [hrest] at hfollows
    have hnodeList : NetworkAllowed _ .applyNodeList .dnveDataStore := hfollows.2.1
    obtain ⟨rfl, hheld⟩ : site = .applyNodeList ∧ (tasks .network).held = [] := by
      generalize (tasks .network).held = held at hnodeList
      cases hnodeList
      exact ⟨rfl, rfl⟩
    have hfree : ∀ j, ¬ (tasks j).Holds .nodeStore := by
      intro j
      cases j with
      | tick => rw [Locks.Task.Holds, htick]; decide
      | network => rw [Locks.Task.Holds, hheld]; decide
    rw [InExpiry, InNodeList, step_network_tick h, Locks.step_acquire hrest hfree,
      Function.update_self, hheld]
    exact ⟨⟨htick, hwants⟩, rfl, rest, rfl⟩

end

end Deadlock

theorem not_deadlocked_start (ticks : List EngineTick) (events : List NetworkEvent) :
    ¬ Deadlocked (start ticks events) := by
  rintro ⟨⟨_, _, _, hheld⟩, _⟩
  cases hheld

/-- In every interleaving of ticks and received events: no state has each loop hold a lock the
other is waiting for exactly when no step begins an expiry in the middle of a node list or a node
list in the middle of an expiry. -/
theorem deadlock_iff (ticks : List EngineTick) (events : List NetworkEvent)
    (schedule : List EngineTask) :
    (∀ past, past <:+ schedule → ¬ Deadlocked (Locks.after (start ticks events) past)) ↔
      ∀ i past, i :: past <:+ schedule →
        KeepsApart (Locks.after (start ticks events) past) i := by
  constructor
  · intro hfree i past hsuffix
    by_contra hapart
    exact hfree (i :: past) hsuffix (deadlocked_step (orderly_after ticks events past) hapart)
  · intro hapart past hsuffix
    induction past with
    | nil => exact not_deadlocked_start ticks events
    | cons i past ih =>
      exact not_deadlocked_step (orderly_after ticks events past)
        (ih ((List.suffix_cons i past).trans hsuffix)) (hapart i past hsuffix)

/-! ## A node list during the expiry -/

namespace Blocked

def tick : EngineTick where
  connected := true
  aoiEvents := 0
  positions := 0
  connectionsLost := false
  overlay := some [{
    mode := .nodeListAoiDensity
    exchangeMode := .pull
    balancerDue := false
    heartbeatDue := true
    pingDue := false
    nodeListDue := false
    connected := 1
    targets := 1 }]
  actions := []
  flushed := some []

def nodeList : NetworkEvent :=
  .envelope false false false (some (.fresh [.nodeList true] false)) [] (some [.internalControl])

/-- The tick goes on until it is about to expire old data, the receive loop
takes the node store for the list, and the tick takes the density store. -/
def schedule : List EngineTask :=
  .tick :: (List.replicate 7 EngineTask.network ++ List.replicate 37 EngineTask.tick ++
    List.replicate 10 EngineTask.network)

theorem expiry_meets_nodeList :
    ¬ ∀ past, past <:+ schedule → ¬ Deadlocked (Locks.after (start [tick] [nodeList]) past) := by
  intro hfree
  let tasks := Locks.after (start [tick] [nodeList]) schedule
  have htick : (tasks .tick).rest.head? = some (.acquire .deleteOldData .nodeStore) := by
    decide +kernel
  have hnetwork : (tasks .network).rest.head? = some (.acquire .applyNodeList .dnveDataStore) := by
    decide +kernel
  obtain ⟨rest, hrest⟩ := List.head?_eq_some_iff.mp htick
  obtain ⟨rest', hrest'⟩ := List.head?_eq_some_iff.mp hnetwork
  refine hfree schedule (List.suffix_refl _)
    ⟨⟨_, _, ⟨rest, hrest⟩, ?_⟩, _, _, ⟨rest', hrest'⟩, ?_⟩
  · decide +kernel
  · decide +kernel

end Blocked

end Mistlib.MistEngine
