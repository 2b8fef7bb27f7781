import FyS.Library.Observation
import Mathlib.Logic.Function.Basic

/-!
# The dispatcher

`core/Dispatcher` and `core/DispatcherConnectionManager` with the handlers of
`DispatcherHandlerBase`.  Messages wait at three sockets; an iteration of
`runDispatching` polls, reads and hands what it reads to a handler, which
chooses the socket to write to.  Nobody calls `replyToListenerSocket`.
-/

namespace FyS.Dispatcher

open FyS.Library.Observation

inductive Socket where
  | listener
  | subSocket
  | dispatcher
deriving DecidableEq, Repr

inductive Action (M : Type) where
  | received (socket : Socket) (msg : M)
  | sent (socket : Socket) (msg : M)
deriving DecidableEq, Repr

/-- `closed` is that of `_clusterConnection`; the messages that can be read wait
in the order in which they came. -/
structure DispatcherConnectionManager (M : Type) where
  closed : Bool
  pending : Socket → List M

/-- The three functions that `Dispatcher` calls on its handler. -/
structure DispatcherHandler (M : Type) where
  processInputMessage : M → List (Action M)
  processClusterMessage : M → List (Action M)
  forwardMessageToFrontend : M → List (Action M)

namespace DispatcherConnectionManager

variable {M : Type}

def sendMessageToDispatcherSocket (msg : M) : List (Action M) := [.sent .dispatcher msg]

/-- The items that `zmq::poll` is given. -/
def items (closed : Bool) : List Socket :=
  [Socket.listener, .subSocket, .dispatcher].take (if closed then 1 else 2)

/-- Whether an item has `ZMQ_POLLIN` set in its `revents`. -/
def revents (m : DispatcherConnectionManager M) (socket : Socket) : Bool :=
  decide (socket ∈ items m.closed) && !(m.pending socket).isEmpty

def poll (m : DispatcherConnectionManager M) : Bool × Bool × Bool :=
  (m.revents .listener, if m.closed then false else m.revents .subSocket, m.revents .dispatcher)

def dispatchMessage (socket : Socket) (handler : M → List (Action M))
    (m : DispatcherConnectionManager M) : List (Action M) × DispatcherConnectionManager M :=
  match m.pending socket with
  | [] => ([], m)
  | msg :: rest =>
    (.received socket msg :: handler msg,
      { m with pending := Function.update m.pending socket rest })

def dispatchMessageFromListenerSocket (handler : M → List (Action M))
    (m : DispatcherConnectionManager M) : List (Action M) × DispatcherConnectionManager M :=
  m.dispatchMessage .listener handler

def dispatchMessageFromSubscriberSocket (handler : M → List (Action M))
    (m : DispatcherConnectionManager M) : List (Action M) × DispatcherConnectionManager M :=
  if m.closed then ([], m) else m.dispatchMessage .subSocket handler

def dispatchMessageFromDispatcherSocket (handler : M → List (Action M))
    (m : DispatcherConnectionManager M) : List (Action M) × DispatcherConnectionManager M :=
  m.dispatchMessage .dispatcher handler

end DispatcherConnectionManager

open DispatcherConnectionManager

variable {M : Type}

def DispatcherHandlerBase : DispatcherHandler M where
  processInputMessage msg := sendMessageToDispatcherSocket msg
  processClusterMessage msg := sendMessageToDispatcherSocket msg
  forwardMessageToFrontend msg := sendMessageToDispatcherSocket msg

def readIf (hasSomethingToPoll : Bool)
    (read : DispatcherConnectionManager M → List (Action M) × DispatcherConnectionManager M)
    (m : DispatcherConnectionManager M) : List (Action M) × DispatcherConnectionManager M :=
  if hasSomethingToPoll then read m else ([], m)

/-- The body of the loop of `runDispatching`.  Where the poll finds nothing it
waits, and nothing is done. -/
def dispatch (handler : DispatcherHandler M) (m : DispatcherConnectionManager M) :
    List (Action M) × DispatcherConnectionManager M :=
  let (listenerSocketHasSomethingToPoll, subscriberSocketHasSomethingToPoll,
    dispatcherSocketHasSomethingToPoll) := m.poll
  let input := readIf listenerSocketHasSomethingToPoll
    (·.dispatchMessageFromListenerSocket handler.processInputMessage) m
  let cluster := readIf subscriberSocketHasSomethingToPoll
    (·.dispatchMessageFromSubscriberSocket handler.processClusterMessage) input.2
  let frontend := readIf dispatcherSocketHasSomethingToPoll
    (·.dispatchMessageFromDispatcherSocket handler.forwardMessageToFrontend) cluster.2
  (input.1 ++ cluster.1 ++ frontend.1, frontend.2)

inductive Event (M : Type) where
  | arrival (socket : Socket) (msg : M)
  | iteration
deriving DecidableEq, Repr

/-- `runDispatching` with `DispatcherHandlerBase`, event after event. -/
def step (m : DispatcherConnectionManager M) :
    Event M → List (Action M) × DispatcherConnectionManager M
  | .arrival socket msg =>
    ([], { m with pending := Function.update m.pending socket (m.pending socket ++ [msg]) })
  | .iteration => dispatch DispatcherHandlerBase m

def start (closed : Bool) : DispatcherConnectionManager M := ⟨closed, fun _ => []⟩

/-! ## What is read and what is written -/

def readAt (sockets : List Socket) : Action M → Option M
  | .received socket msg => if socket ∈ sockets then some msg else none
  | .sent _ _ => none

def writtenAt (target : Socket) : Action M → Option M
  | .received _ _ => none
  | .sent socket msg => if socket = target then some msg else none

def actions (m : DispatcherConnectionManager M) (events : List (Event M)) : List (Action M) :=
  (observe step m events).flatten

def ReadsReply (m : DispatcherConnectionManager M) (event : Event M) : Prop :=
  event = .iteration → ∀ msg rest, m.pending .dispatcher = msg :: rest →
    Action.received .dispatcher msg ∈ (step m event).1

structure Relays (m : DispatcherConnectionManager M) (events : List (Event M)) : Prop where
  toServers : (actions m events).filterMap (writtenAt .dispatcher) =
    (actions m events).filterMap (readAt [.listener, .subSocket])
  toClients : (actions m events).filterMap (writtenAt .listener) =
    (actions m events).filterMap (readAt [.dispatcher])
  replies : Along step ReadsReply m events

/-- Nothing is read from the dispatcher socket or written to the clients, and
what is read is written to the servers. -/
structure OneWay (m : DispatcherConnectionManager M)
    (r : List (Action M) × DispatcherConnectionManager M) : Prop where
  toServers : r.1.filterMap (writtenAt .dispatcher) =
    r.1.filterMap (readAt [.listener, .subSocket])
  clients : r.1.filterMap (writtenAt .listener) = []
  replies : r.1.filterMap (readAt [.dispatcher]) = []
  pending : r.2.pending .dispatcher = m.pending .dispatcher

namespace OneWay

variable {m : DispatcherConnectionManager M}

theorem idle (m : DispatcherConnectionManager M) : OneWay m ([], m) := ⟨rfl, rfl, rfl, rfl⟩

theorem append {r r' : List (Action M) × DispatcherConnectionManager M} (hr : OneWay m r)
    (hr' : OneWay r.2 r') : OneWay m (r.1 ++ r'.1, r'.2) := by
  constructor
  · rw [List.filterMap_append, List.filterMap_append, hr.toServers, hr'.toServers]
  · rw [List.filterMap_append, hr.clients, hr'.clients]
    rfl
  · rw [List.filterMap_append, hr.replies, hr'.replies]
    rfl
  · exact hr'.pending.trans hr.pending

theorem dispatchMessage {socket : Socket} (hsocket : socket ∈ [Socket.listener, .subSocket])
    (m : DispatcherConnectionManager M) :
    OneWay m (m.dispatchMessage socket sendMessageToDispatcherSocket) := by
  have hne : Socket.dispatcher ≠ socket := by
    intro heq
    rw [← heq] at hsocket
    cases hsocket with
    | tail _ h => cases h with
      | tail _ h => cases h
  unfold DispatcherConnectionManager.dispatchMessage
  split
  · exact idle m
  · constructor
    · simp [sendMessageToDispatcherSocket, readAt, writtenAt, List.filterMap_cons, hsocket]
    · simp [sendMessageToDispatcherSocket, writtenAt, List.filterMap_cons]
    · simp [sendMessageToDispatcherSocket, readAt, List.filterMap_cons, hne.symm]
    · exact Function.update_of_ne hne _ _

theorem readIf (polled : Bool)
    {read : DispatcherConnectionManager M → List (Action M) × DispatcherConnectionManager M}
    (m : DispatcherConnectionManager M) (hread : OneWay m (read m)) :
    OneWay m (readIf polled read m) := by
  cases polled with
  | true => exact hread
  | false => exact idle m

end OneWay

/-- The dispatcher socket is not among the items of the poll. -/
theorem poll_dispatcher (m : DispatcherConnectionManager M) : m.poll.2.2 = false := by
  have hitems : Socket.dispatcher ∉ items m.closed := by
    cases m.closed <;> decide
  simp [poll, revents, hitems]

/-- An iteration reads from the listener and the subscriber only. -/
theorem oneWay_dispatch (m : DispatcherConnectionManager M) :
    OneWay m (dispatch DispatcherHandlerBase m) := by
  have hinput : OneWay m (readIf m.poll.1
      (·.dispatchMessageFromListenerSocket sendMessageToDispatcherSocket) m) :=
    .readIf _ m (.dispatchMessage (by simp) m)
  have hsubscriber (m : DispatcherConnectionManager M) :
      OneWay m (m.dispatchMessageFromSubscriberSocket sendMessageToDispatcherSocket) := by
    unfold dispatchMessageFromSubscriberSocket
    split
    · exact .idle m
    · exact .dispatchMessage (by simp) m
  have hcluster (m' : DispatcherConnectionManager M) :=
    OneWay.readIf m.poll.2.1 m' (hsubscriber m')
  have hfrontend (m' : DispatcherConnectionManager M) : OneWay m' (readIf m.poll.2.2
      (·.dispatchMessageFromDispatcherSocket sendMessageToDispatcherSocket) m') := by
    rw [poll_dispatcher]
    exact .idle m'
  exact (hinput.append (hcluster _)).append (hfrontend _)

theorem actions_cons (m : DispatcherConnectionManager M) (event : Event M)
    (events : List (Event M)) :
    actions m (event :: events) = (step m event).1 ++ actions (step m event).2 events := rfl

/-- Whatever comes in, the messages of the clients and of the cluster go to the
servers, in order, and nothing goes to the clients. -/
theorem oneWay_actions (m : DispatcherConnectionManager M) (events : List (Event M)) :
    (actions m events).filterMap (writtenAt .dispatcher) =
        (actions m events).filterMap (readAt [.listener, .subSocket]) ∧
      (actions m events).filterMap (writtenAt .listener) = [] ∧
      (actions m events).filterMap (readAt [.dispatcher]) = [] := by
  induction events generalizing m with
  | nil => exact ⟨rfl, rfl, rfl⟩
  | cons event events ih =>
      obtain ⟨hservers, hclients, hreplies⟩ := ih (step m event).2
      rw [actions_cons]
      cases event with
      | arrival socket msg => exact ⟨hservers, hclients, hreplies⟩
      | iteration =>
          have hstep := oneWay_dispatch m
          refine ⟨?_, ?_, ?_⟩
          · rw [List.filterMap_append, List.filterMap_append, hservers]
            exact congrArg (· ++ _) hstep.toServers
          · rw [List.filterMap_append, hclients, List.append_nil]
            exact hstep.clients
          · rw [List.filterMap_append, hreplies, List.append_nil]
            exact hstep.replies

theorem not_readsReply {m : DispatcherConnectionManager M} (hpending : m.pending .dispatcher ≠ []) :
    ¬ ReadsReply m .iteration := by
  intro h
  cases hqueue : m.pending .dispatcher with
  | nil => exact hpending hqueue
  | cons msg rest =>
      have hreplies := (oneWay_dispatch m).replies
      rw [List.filterMap_eq_nil_iff] at hreplies
      have hmsg := hreplies _ (h rfl msg rest hqueue)
      simp [readAt] at hmsg

/-- Once a reply is pending every iteration passes it over. -/
theorem along_of_pending {m : DispatcherConnectionManager M} (hpending : m.pending .dispatcher ≠ [])
    (events : List (Event M)) :
    Along step ReadsReply m events ↔ Event.iteration ∉ events := by
  induction events generalizing m with
  | nil => simp [Along]
  | cons event events ih =>
      rw [Along, List.mem_cons, not_or]
      cases event with
      | arrival socket msg =>
          have hnext : (step m (.arrival socket msg)).2.pending .dispatcher ≠ [] := by
            by_cases hsocket : socket = .dispatcher
            · subst hsocket
              simp [step]
            · have hsame : (step m (.arrival socket msg)).2.pending .dispatcher =
                  m.pending .dispatcher := Function.update_of_ne (Ne.symm hsocket) _ _
              rw [hsame]
              exact hpending
          rw [ih hnext]
          simp [ReadsReply]
      | iteration => simp [not_readsReply hpending]

/-- No iteration comes after a reply. -/
def NoReplyBefore (events : List (Event M)) : Prop :=
  ∀ before msg later, events = before ++ .arrival .dispatcher msg :: later →
    Event.iteration ∉ later

theorem noReplyBefore_cons {event : Event M} {events : List (Event M)} :
    NoReplyBefore (event :: events) ↔
      (∀ msg, event = .arrival .dispatcher msg → Event.iteration ∉ events) ∧
        NoReplyBefore events := by
  constructor
  · intro h
    constructor
    · rintro msg rfl
      exact h [] msg events rfl
    · intro before msg later heq
      exact h (event :: before) msg later (by rw [heq]; rfl)
  · rintro ⟨hfirst, hrest⟩ before msg later heq
    cases before with
    | nil =>
        rw [List.nil_append, List.cons.injEq] at heq
        rw [← heq.2]
        exact hfirst msg heq.1
    | cons e before =>
        rw [List.cons_append, List.cons.injEq] at heq
        exact hrest before msg later heq.2

theorem along_of_idle {m : DispatcherConnectionManager M} (hpending : m.pending .dispatcher = [])
    (events : List (Event M)) :
    Along step ReadsReply m events ↔ NoReplyBefore events := by
  induction events generalizing m with
  | nil => simp [Along, NoReplyBefore]
  | cons event events ih =>
      rw [Along, noReplyBefore_cons]
      cases event with
      | arrival socket msg =>
          by_cases hsocket : socket = .dispatcher
          · subst hsocket
            have hnext : (step m (.arrival .dispatcher msg)).2.pending .dispatcher ≠ [] := by
              simp [step]
            rw [along_of_pending hnext]
            constructor
            · rintro ⟨-, hnone⟩
              refine ⟨fun _ _ => hnone, ?_⟩
              rintro before reply later rfl hmem
              apply hnone
              simp [hmem]
            · rintro ⟨hnone, -⟩
              exact ⟨by simp [ReadsReply], hnone msg rfl⟩
          · have hnext : (step m (.arrival socket msg)).2.pending .dispatcher = [] := by
              rw [← hpending]
              exact Function.update_of_ne (Ne.symm hsocket) _ _
            rw [ih hnext]
            simp [ReadsReply, hsocket]
      | iteration =>
          have hnext : (step m .iteration).2.pending .dispatcher = [] := by
            rw [← hpending]
            exact (oneWay_dispatch m).pending
          rw [ih hnext]
          simp [ReadsReply, hpending]

/-- The dispatcher relays in both directions exactly along the runs in which no
iteration comes after the arrival of a reply. -/
theorem relays_iff (closed : Bool) (events : List (Event M)) :
    Relays (start closed) events ↔ NoReplyBefore events := by
  obtain ⟨hservers, hclients, hreplies⟩ := oneWay_actions (start closed) events
  rw [← along_of_idle (m := start closed) rfl]
  constructor
  · intro h
    exact h.replies
  · intro h
    exact ⟨hservers, hclients.trans hreplies.symm, h⟩

/-- A reply of a server stays where it is. -/
theorem reply_never_read :
    ¬ ∀ (closed : Bool) (events : List (Event String)), Relays (start closed) events := by
  intro h
  have hreads := (h false [.arrival .dispatcher "reply", .iteration]).replies.2.1
  have hdone : (step (step (start false) (.arrival .dispatcher "reply")).2 .iteration).1 = [] := rfl
  have hread := hreads rfl "reply" [] rfl
  rw [hdone] at hread
  cases hread

end FyS.Dispatcher
