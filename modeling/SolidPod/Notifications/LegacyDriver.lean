import SolidPod.Error
import SolidPod.Foundation.Channels
import SolidPod.Foundation.Schedule
import SolidPod.Notifications.LegacySession

/-!
# The driver of a legacy connection

One task serves a legacy connection: it takes the lines of the client, the events of the
storage and the ticks of the heartbeat, and hands its frames over to a bounded queue. It waits
until its answers and heartbeats are taken, and drops the news of a change when the queue is
full. So whatever happens, the answers arrive complete and in order, the news is what is left
of the events, and all of it is about what the client was allowed to subscribe to.
-/

namespace SolidPod

open Foundation Str

namespace Notifications

/-! ## The channel -/

inductive DenyReason where
  | forbidden
  | crossOrigin

/-- What a policy says about a target and a subject. -/
abbrev SubscriptionAuthorizer := Str → Option Str → Except DenyReason Unit

def allowAllAuthorizer : SubscriptionAuthorizer := fun _ _ => .ok ()

def denyAllAuthorizer : SubscriptionAuthorizer := fun _ _ => .error .forbidden

/-- The parts of a URL that make its origin. -/
structure OriginParts where
  scheme : Str
  host : Option Str
  port : Option UInt16

def OriginParts.origin (url : OriginParts) : Str :=
  url.scheme ++ "://" ++ url.host.getD [] ++ (url.port.elim [] fun p => ':' :: decimal p.toNat)

structure LegacyNotificationChannel where
  subscriptions : List Str
  nodup : subscriptions.Nodup
  urlCapBytes : Nat
  maxSubsPerConn : Nat
  serverOrigin : Option Str
  webId : Option Str

/-- The longest beginning of a text that has so many bytes. -/
def truncateBytes : Nat → Str → Str
  | _, [] => []
  | n, c :: cs => if c.utf8Size ≤ n then c :: truncateBytes (n - c.utf8Size) cs else []

/-- A line with its prefix, and what is left of it. -/
def parsePrefixed (line start : Str) : Option Str :=
  (stripPrefix start (trimStart (line.rdropWhile fun c => c == '\r' || c == '\n'))).bind fun rest =>
    if (trim rest).isEmpty then none else some (trim rest)

def parseSubscribe (line : Str) : Option Str := parsePrefixed line "sub "

def parseUnsubscribe (line : Str) : Option Str := parsePrefixed line "unsub "

def ackLine (target : Str) : Str := "ack " ++ target

def errLine (target reason : Str) : Str := "err " ++ target ++ ' ' :: reason

def toLegacyLine (event : StorageEvent) : Str := "pub " ++ event.path

namespace LegacyNotificationChannel

def new : LegacyNotificationChannel where
  subscriptions := []
  nodup := List.nodup_nil
  urlCapBytes := maxUrlLength
  maxSubsPerConn := maxSubscriptionsPerConnection
  serverOrigin := none
  webId := none

variable (parseUrl : Str → Option OriginParts) (check : SubscriptionAuthorizer)

/-- The target is at the server's origin, if there is one to compare with. -/
def sameOrigin (chan : LegacyNotificationChannel) (target : Str) : Bool :=
  match chan.serverOrigin with
  | none => true
  | some serverOrigin =>
    match parseUrl target with
    | some url => url.origin == serverOrigin
    | none => false

def insert (chan : LegacyNotificationChannel) (target : Str) : LegacyNotificationChannel :=
  { chan with
    subscriptions := chan.subscriptions.insert target
    nodup := chan.nodup.insert }

/-- The channel with one subscription more, or the line that says why not. -/
def subscribe (chan : LegacyNotificationChannel) (target : Str) :
    Except Str LegacyNotificationChannel :=
  if byteLen target > chan.urlCapBytes then
    .error (errLine (truncateBytes 64 target) "url-too-long")
  else if !chan.sameOrigin parseUrl target then .error (errLine target "forbidden")
  else if chan.subscriptions.length ≥ chan.maxSubsPerConn &&
      !chan.subscriptions.contains target then
    .error (errLine target "subscription-limit")
  else
    match check target chan.webId with
    | .error _ => .error (errLine target "forbidden")
    | .ok () => .ok (chan.insert target)

def unsubscribe (chan : LegacyNotificationChannel) (target : Str) : LegacyNotificationChannel :=
  { chan with
    subscriptions := chan.subscriptions.erase target
    nodup := chan.nodup.erase target }

end LegacyNotificationChannel

/-! ## The driver -/

inductive OutboundFrame where
  | text (line : Str)
  | close (reason : Str)
  deriving DecidableEq

def protocolGreeting : Str := "protocol solid-0.1"

/-- News of a change, which may be dropped. -/
def OutboundFrame.isPub : OutboundFrame → Bool
  | .text line => startsWith "pub " line
  | .close _ => false

def firstToken (s : Str) : Str :=
  (((s.splitOnP isWhitespace).filter fun w => !w.isEmpty).head?).getD []

section Driver

variable (parseUrl : Str → Option OriginParts)

def handleLine (check : SubscriptionAuthorizer) (chan : LegacyNotificationChannel) (line : Str) :
    List OutboundFrame × LegacyNotificationChannel :=
  let trimmed := trim line
  if trimmed.isEmpty then ([], chan)
  else
    match parseSubscribe trimmed with
    | some target =>
      match chan.subscribe parseUrl check target with
      | .ok chan => ([.text (ackLine target)], chan)
      | .error line => ([.text line], chan)
    | none =>
      match parseUnsubscribe trimmed with
      | some target => ([], chan.unsubscribe target)
      | none => ([.close ("unknown opcode: " ++ firstToken trimmed)], chan)

/-- The task of a connection, its queue, and what the client has of it. The frames in `waiting`
are handed over before anything else is taken. -/
structure LegacyWsDriver (B Q : Type*) where
  channel : LegacyNotificationChannel
  events : B
  waiting : List OutboundFrame
  outbound : Q
  received : List OutboundFrame

/-- What happens next: the storage publishes an event; the task takes a line, with what the
policy says at that moment, an event or a tick, or hands over a frame; the client takes a
frame. -/
inductive DriverMove where
  | publish (event : StorageEvent)
  | line (check : SubscriptionAuthorizer) (line : Str)
  | event
  | tick
  | handOver
  | take

variable {B Q : Type*} [Broadcast B StorageEvent] [Queue Q OutboundFrame]

def LegacyWsDriver.start (channel : LegacyNotificationChannel) (eventsCapacity outboundCap : ℕ+) :
    LegacyWsDriver B Q where
  channel := channel
  events := Broadcast.subscribe eventsCapacity
  waiting := [.text protocolGreeting]
  outbound := Queue.channel outboundCap
  received := []

/-- An event goes to the queue if it has a place and a subscription covers it. -/
def LegacyWsDriver.offer (d : LegacyWsDriver B Q) (event : StorageEvent) : LegacyWsDriver B Q :=
  if matchesSubscription d.channel.subscriptions event.path then
    { d with outbound := (Queue.send d.outbound (.text (toLegacyLine event))).getD d.outbound }
  else d

/-- The next event from the storage. That some were lost is passed over. -/
def LegacyWsDriver.takeEvent (d : LegacyWsDriver B Q) : Option (LegacyWsDriver B Q) :=
  match Broadcast.recv d.events with
  | none => none
  | some (.error _, events) => some { d with events := events }
  | some (.ok event, events) => some ({ d with events := events }.offer event)

def LegacyWsDriver.takeLine (d : LegacyWsDriver B Q) (check : SubscriptionAuthorizer)
    (line : Str) : LegacyWsDriver B Q :=
  { d with
    channel := (handleLine parseUrl check d.channel line).2
    waiting := (handleLine parseUrl check d.channel line).1 }

def LegacyWsDriver.handOver (d : LegacyWsDriver B Q) : Option (LegacyWsDriver B Q) :=
  match d.waiting with
  | [] => none
  | frame :: rest =>
    match Queue.send d.outbound frame with
    | none => none
    | some outbound => some { d with waiting := rest, outbound := outbound }

def LegacyWsDriver.deliver (d : LegacyWsDriver B Q) : Option (LegacyWsDriver B Q) :=
  match Queue.recv d.outbound with
  | none => none
  | some (frame, outbound) =>
    some { d with outbound := outbound, received := d.received ++ [frame] }

def driverStep (d : LegacyWsDriver B Q) : DriverMove → Option (LegacyWsDriver B Q)
  | .publish event => some { d with events := Broadcast.send d.events event }
  | .line check line => if d.waiting = [] then some (d.takeLine parseUrl check line) else none
  | .event => if d.waiting = [] then d.takeEvent else none
  | .tick => if d.waiting = [] then some { d with waiting := [.text []] } else none
  | .handOver => d.handOver
  | .take => d.deliver

/-! ## One line -/

/-- What a line may do to the channel. -/
inductive LineHandled (check : SubscriptionAuthorizer) (chan : LegacyNotificationChannel)
    (line : Str) : List OutboundFrame × LegacyNotificationChannel → Prop
  | ignored : LineHandled check chan line ([], chan)
  | acked {target : Str} (hparse : parseSubscribe (trim line) = some target)
      (hbytes : byteLen target ≤ chan.urlCapBytes)
      (horigin : chan.sameOrigin parseUrl target = true)
      (hroom : chan.subscriptions.length < chan.maxSubsPerConn ∨ target ∈ chan.subscriptions)
      (hallowed : check target chan.webId = .ok ()) :
      LineHandled check chan line ([.text (ackLine target)], chan.insert target)
  | refused (target reason : Str) :
      LineHandled check chan line ([.text (errLine target reason)], chan)
  | unsubscribed (target : Str) : LineHandled check chan line ([], chan.unsubscribe target)
  | closed (reason : Str) : LineHandled check chan line ([.close reason], chan)

variable {parseUrl} {check : SubscriptionAuthorizer} {chan : LegacyNotificationChannel}
  {line target : Str} {frame : OutboundFrame}

theorem lineHandled_of_subscribe (hparse : parseSubscribe (trim line) = some target) :
    LineHandled parseUrl check chan line
      (match chan.subscribe parseUrl check target with
        | .ok chan => ([.text (ackLine target)], chan)
        | .error line => ([.text line], chan)) := by
  rw [LegacyNotificationChannel.subscribe]
  split_ifs with hbytes horigin hroom
  · exact .refused _ _
  · exact .refused _ _
  · exact .refused _ _
  · cases hallowed : check target chan.webId with
    | error reason => exact .refused _ _
    | ok =>
        refine .acked hparse (Nat.le_of_not_lt hbytes) ?_ ?_ hallowed
        · simpa using horigin
        · rw [Bool.and_eq_true, not_and_or, decide_eq_true_eq, not_le] at hroom
          refine hroom.imp_right fun h => ?_
          simpa using h

theorem lineHandled_handleLine (check : SubscriptionAuthorizer)
    (chan : LegacyNotificationChannel) (line : Str) :
    LineHandled parseUrl check chan line (handleLine parseUrl check chan line) := by
  rw [handleLine]
  split
  · exact .ignored
  · cases hsub : parseSubscribe (trim line) with
    | some target => exact lineHandled_of_subscribe hsub
    | none =>
        cases parseUnsubscribe (trim line) with
        | some target => exact .unsubscribed target
        | none => exact .closed _

/-- A line is not answered with news. -/
theorem LineHandled.isPub {r : List OutboundFrame × LegacyNotificationChannel}
    (h : LineHandled parseUrl check chan line r) : ∀ frame ∈ r.1, frame.isPub = false := by
  cases h with
  | ignored => simp
  | unsubscribed => simp
  | acked hparse hbytes horigin hroom hallowed =>
      simp [OutboundFrame.isPub, ackLine, startsWith, List.isPrefixOf]
  | refused target reason => simp [OutboundFrame.isPub, errLine, startsWith, List.isPrefixOf]
  | closed reason => simp [OutboundFrame.isPub]

theorem isPub_toLegacyLine (event : StorageEvent) :
    (OutboundFrame.text (toLegacyLine event)).isPub = true := by
  simp [OutboundFrame.isPub, toLegacyLine, startsWith, List.isPrefixOf]

/-! ## What reaches the client -/

variable {B Q : Type*} [Broadcast B StorageEvent] [Queue Q OutboundFrame]

/-- What the client has, and what is on its way to it. -/
def LegacyWsDriver.flow (d : LegacyWsDriver B Q) : List OutboundFrame :=
  d.received ++ Queue.items d.outbound

/-- The frames that no full queue may drop. -/
def LegacyWsDriver.controls (d : LegacyWsDriver B Q) : List OutboundFrame :=
  (d.flow ++ d.waiting).filter fun frame => !frame.isPub

def LegacyWsDriver.news (d : LegacyWsDriver B Q) : List OutboundFrame :=
  d.flow.filter OutboundFrame.isPub

variable (parseUrl) in
/-- The answers to a line, or the heartbeat. -/
def answersTo (chan : LegacyNotificationChannel) : DriverMove → List OutboundFrame
  | .line check line => (handleLine parseUrl check chan line).1
  | .tick => [.text []]
  | _ => []

variable (parseUrl) in
def channelAfter (chan : LegacyNotificationChannel) : DriverMove → LegacyNotificationChannel
  | .line check line => (handleLine parseUrl check chan line).2
  | _ => chan

variable (parseUrl) in
/-- The answers to the lines, and the heartbeats. -/
def told : LegacyNotificationChannel → List DriverMove → List OutboundFrame
  | _, [] => []
  | chan, m :: moves => answersTo parseUrl chan m ++ told (channelAfter parseUrl chan m) moves

/-- The news of the event that the task takes next. -/
def LegacyWsDriver.due (d : LegacyWsDriver B Q) : DriverMove → List OutboundFrame
  | .event =>
    match Broadcast.recv d.events with
    | some (.ok event, _) =>
      if matchesSubscription d.channel.subscriptions event.path then [.text (toLegacyLine event)]
      else []
    | _ => []
  | _ => []

variable (parseUrl) in
/-- The news of all events that the task takes. -/
def dueAlong : LegacyWsDriver B Q → List DriverMove → List OutboundFrame
  | _, [] => []
  | d, m :: moves =>
    d.due m ++
      match driverStep parseUrl d m with
      | some d => dueAlong d moves
      | none => []

/-- No event is taken while the queue is full. -/
def Roomy (d : LegacyWsDriver B Q) (m : DriverMove) : Prop :=
  m = .event → (Queue.items d.outbound).length < Queue.cap d.outbound

variable {d e : LegacyWsDriver B Q} {m : DriverMove} {moves : List DriverMove}

variable (parseUrl) in
/-- What a move does to the channel, to the flow and to what waits. -/
structure Flowed (d : LegacyWsDriver B Q) (m : DriverMove) (e : LegacyWsDriver B Q) : Prop where
  channel : e.channel = channelAfter parseUrl d.channel m
  controls : e.controls = d.controls ++ answersTo parseUrl d.channel m
  news : e.news.Sublist (d.news ++ d.due m)
  complete : Roomy d m → e.news = d.news ++ d.due m

omit [Broadcast B StorageEvent] in
/-- The flow is the same, and what waits has grown. -/
theorem flowed_of_waiting [Broadcast B StorageEvent] (hflow : e.flow = d.flow)
    (hchannel : e.channel = channelAfter parseUrl d.channel m) (hdue : d.due m = [])
    (hwaiting : e.waiting = d.waiting ++ answersTo parseUrl d.channel m)
    (hanswers : ∀ frame ∈ answersTo parseUrl d.channel m, frame.isPub = false) :
    Flowed parseUrl d m e where
  channel := hchannel
  controls := by
    have hall : (answersTo parseUrl d.channel m).filter (fun frame => !frame.isPub) =
        answersTo parseUrl d.channel m := by
      rw [List.filter_eq_self]
      intro frame hframe
      rw [hanswers frame hframe]
      rfl
    rw [LegacyWsDriver.controls, hflow, hwaiting, ← List.append_assoc, List.filter_append, hall]
    rfl
  news := by
    rw [hdue, List.append_nil, LegacyWsDriver.news, hflow]
    exact List.Sublist.refl _
  complete _ := by
    rw [hdue, List.append_nil, LegacyWsDriver.news, hflow]
    rfl

variable [Queue.Lawful Q]

/-- A frame that is handed over joins the flow. -/
theorem flowed_handOver (h : d.handOver = some e) (hwaiting : ∀ f ∈ d.waiting, f.isPub = false) :
    Flowed parseUrl d .handOver e := by
  rw [LegacyWsDriver.handOver] at h
  split at h
  · cases h
  · rename_i frame rest hframes
    split at h
    · cases h
    · rename_i outbound hsend
      cases h
      have hitems := Queue.send_eq_some hsend
      have hframe : frame.isPub = false := hwaiting frame (by rw [hframes]; simp)
      have hnews : [frame].filter OutboundFrame.isPub = [] := by simp [hframe]
      have hdue : d.due .handOver = [] := rfl
      have hsame : LegacyWsDriver.news { d with waiting := rest, outbound := outbound } =
          d.news := by
        rw [LegacyWsDriver.news, LegacyWsDriver.flow, hitems, ← List.append_assoc,
          List.filter_append, hnews, List.append_nil]
        rfl
      refine ⟨rfl, ?_, ?_, ?_⟩
      · rw [LegacyWsDriver.controls, LegacyWsDriver.controls, LegacyWsDriver.flow, hitems, hframes]
        simp [answersTo, LegacyWsDriver.flow]
      · rw [hsame, hdue, List.append_nil]
      · intro _
        rw [hsame, hdue, List.append_nil]

omit [Broadcast B StorageEvent] in
/-- A frame that the client takes stays in the flow. -/
theorem flow_deliver (h : d.deliver = some e) : e.flow = d.flow := by
  rw [LegacyWsDriver.deliver] at h
  split at h
  · cases h
  · rename_i frame outbound hrecv
    cases h
    have hitems := Queue.recv_eq_some hrecv
    rw [LegacyWsDriver.flow, LegacyWsDriver.flow, hitems, List.append_assoc]
    rfl

/-- The news of an event is dropped if the queue is full. -/
theorem flowed_offer {events : B} {event : StorageEvent}
    (hrecv : Broadcast.recv d.events = some (.ok event, events)) :
    Flowed parseUrl d .event ({ d with events := events }.offer event) := by
  have hdue : d.due .event = if matchesSubscription d.channel.subscriptions event.path then
      [.text (toLegacyLine event)] else [] := by
    rw [LegacyWsDriver.due, hrecv]
  rw [LegacyWsDriver.offer]
  split_ifs with hmatches
  · rw [if_pos hmatches] at hdue
    cases hsend : Queue.send d.outbound (.text (toLegacyLine event)) with
    | none =>
        refine ⟨rfl, (List.append_nil _).symm, ?_, ?_⟩
        · rw [hdue]
          exact List.sublist_append_left _ _
        · intro hroomy
          obtain ⟨q, hq, -⟩ := Queue.Lawful.send_of_lt (.text (toLegacyLine event)) (hroomy rfl)
          rw [hsend] at hq
          cases hq
    | some outbound =>
        have hitems := Queue.send_eq_some hsend
        have hnews : LegacyWsDriver.news { d with events := events, outbound := outbound } =
            d.news ++ d.due .event := by
          rw [hdue, LegacyWsDriver.news, LegacyWsDriver.flow, hitems, ← List.append_assoc,
            List.filter_append, List.filter_singleton, isPub_toLegacyLine, cond_true]
          rfl
        refine ⟨rfl, ?_, ?_, fun _ => hnews⟩
        · have hpub := isPub_toLegacyLine event
          simp [LegacyWsDriver.controls, LegacyWsDriver.flow, hitems, hpub, answersTo]
        · rw [← hnews]
          exact List.Sublist.refl _
  · rw [if_neg hmatches] at hdue
    refine ⟨rfl, (List.append_nil _).symm, ?_, ?_⟩
    · rw [hdue, List.append_nil]
      exact List.Sublist.refl _
    · intro _
      rw [hdue, List.append_nil]
      rfl

theorem isPub_of_mem_answersTo {m : DriverMove} :
    ∀ frame ∈ answersTo parseUrl chan m, frame.isPub = false := by
  cases m with
  | line check line => exact (lineHandled_handleLine check chan line).isPub
  | tick => simp [answersTo, OutboundFrame.isPub, startsWith, List.isPrefixOf]
  | _ => simp [answersTo]

theorem flowed_of_driverStep (h : driverStep parseUrl d m = some e)
    (hwaiting : ∀ f ∈ d.waiting, f.isPub = false) :
    Flowed parseUrl d m e ∧ ∀ f ∈ e.waiting, f.isPub = false := by
  cases m with
  | publish event =>
      cases h
      exact ⟨flowed_of_waiting rfl rfl rfl (List.append_nil _).symm isPub_of_mem_answersTo,
        hwaiting⟩
  | line check line =>
      rw [driverStep] at h
      split_ifs at h with hnil
      cases h
      refine ⟨flowed_of_waiting rfl rfl rfl ?_ isPub_of_mem_answersTo, ?_⟩
      · rw [hnil]
        rfl
      · exact isPub_of_mem_answersTo (m := .line check line)
  | tick =>
      rw [driverStep] at h
      split_ifs at h with hnil
      cases h
      refine ⟨flowed_of_waiting rfl rfl rfl ?_ isPub_of_mem_answersTo, ?_⟩
      · rw [hnil]
        rfl
      · exact @isPub_of_mem_answersTo parseUrl d.channel .tick
  | event =>
      rw [driverStep] at h
      split_ifs at h with hnil
      rw [LegacyWsDriver.takeEvent] at h
      split at h
      · cases h
      · rename_i n events hrecv
        cases h
        have hdue : d.due .event = [] := by rw [LegacyWsDriver.due, hrecv]
        exact ⟨flowed_of_waiting rfl rfl hdue (List.append_nil _).symm isPub_of_mem_answersTo,
          hwaiting⟩
      · rename_i event events hrecv
        cases h
        refine ⟨flowed_offer hrecv, ?_⟩
        rw [LegacyWsDriver.offer]
        split <;> exact hwaiting
  | handOver =>
      refine ⟨flowed_handOver h hwaiting, ?_⟩
      change d.handOver = some e at h
      rw [LegacyWsDriver.handOver] at h
      split at h
      · cases h
      · rename_i frame rest hframes
        split at h
        · cases h
        · cases h
          intro f hf
          exact hwaiting f (by rw [hframes]; exact List.mem_cons_of_mem frame hf)
  | take =>
      have hflow := flow_deliver h
      change d.deliver = some e at h
      rw [LegacyWsDriver.deliver] at h
      split at h
      · cases h
      · cases h
        exact ⟨flowed_of_waiting hflow rfl rfl (List.append_nil _).symm isPub_of_mem_answersTo,
          hwaiting⟩

variable (parseUrl) in
/-- What a run makes of the flow. -/
structure Served (d : LegacyWsDriver B Q) (moves : List DriverMove) (e : LegacyWsDriver B Q) :
    Prop where
  /-- Every answer and every heartbeat is there, in order. -/
  controls : e.controls = d.controls ++ told parseUrl d.channel moves
  /-- The news keeps the order of the events. -/
  news : e.news.Sublist (d.news ++ dueAlong parseUrl d moves)
  /-- It is complete if no event was taken while the queue was full. -/
  complete : Schedule.Along (driverStep parseUrl) Roomy d moves →
    e.news = d.news ++ dueAlong parseUrl d moves

theorem served_of_driverRun (hwaiting : ∀ f ∈ d.waiting, f.isPub = false)
    (hrun : Schedule.run (driverStep parseUrl) d moves = some e) : Served parseUrl d moves e := by
  induction moves generalizing d with
  | nil =>
      cases hrun
      refine ⟨(List.append_nil _).symm, ?_, fun _ => (List.append_nil _).symm⟩
      rw [dueAlong, List.append_nil]
  | cons m moves ih =>
      rw [Schedule.run_cons] at hrun
      obtain ⟨u, hstep, hrest⟩ := Option.bind_eq_some_iff.mp hrun
      obtain ⟨hflowed, hwaits⟩ := flowed_of_driverStep hstep hwaiting
      have hserved := ih hwaits hrest
      have hdue : dueAlong parseUrl d (m :: moves) = d.due m ++ dueAlong parseUrl u moves := by
        rw [dueAlong, hstep]
      refine ⟨?_, ?_, ?_⟩
      · rw [hserved.controls, hflowed.controls, hflowed.channel, told, List.append_assoc]
      · rw [hdue, ← List.append_assoc]
        exact hserved.news.trans (hflowed.news.append_right _)
      · intro halong
        obtain ⟨hroomy, hlater⟩ := Schedule.along_cons.mp halong
        rw [hserved.complete (hlater u hstep), hflowed.complete hroomy, hdue, List.append_assoc]

/-- Whatever the storage, the client and the policy do: after the greeting, the client gets every
answer to its lines and every heartbeat, in order and however full the queue was. It gets news
only of events that a subscription covered, in their order, and of all of these if no event was
taken while the queue was full. -/
theorem served_from_start (parseUrl : Str → Option OriginParts)
    (channel : LegacyNotificationChannel) (eventsCapacity outboundCap : ℕ+)
    {moves : List DriverMove}
    (hrun : Schedule.run (driverStep parseUrl)
      (LegacyWsDriver.start channel eventsCapacity outboundCap : LegacyWsDriver B Q) moves =
        some e) :
    e.controls = .text protocolGreeting :: told parseUrl channel moves ∧
      e.news.Sublist (dueAlong parseUrl
        (LegacyWsDriver.start channel eventsCapacity outboundCap : LegacyWsDriver B Q) moves) ∧
      (Schedule.Along (driverStep parseUrl) Roomy
          (LegacyWsDriver.start channel eventsCapacity outboundCap : LegacyWsDriver B Q) moves →
        e.news = dueAlong parseUrl
          (LegacyWsDriver.start channel eventsCapacity outboundCap : LegacyWsDriver B Q)
            moves) := by
  have hgreeting : (OutboundFrame.text protocolGreeting).isPub = false := by decide
  have hserved := served_of_driverRun (by
    intro f hf
    rw [List.mem_singleton.mp hf]
    exact hgreeting) hrun
  have hflow : (LegacyWsDriver.start channel eventsCapacity outboundCap :
      LegacyWsDriver B Q).flow = [] := Queue.Lawful.items_channel _
  have hcontrols : (LegacyWsDriver.start channel eventsCapacity outboundCap :
      LegacyWsDriver B Q).controls = [.text protocolGreeting] := by
    rw [LegacyWsDriver.controls, hflow]
    rfl
  have hnews : (LegacyWsDriver.start channel eventsCapacity outboundCap :
      LegacyWsDriver B Q).news = [] := by
    rw [LegacyWsDriver.news, hflow]
    rfl
  refine ⟨?_, ?_, ?_⟩
  · rw [hserved.controls, hcontrols]
    rfl
  · have h := hserved.news
    rwa [hnews, List.nil_append] at h
  · intro halong
    rw [hserved.complete halong, hnews, List.nil_append]

/-! ## What the client may be told -/

variable (parseUrl) in
/-- Some line of the run has asked for the target while the policy allowed it, and it is within
the bounds that the connection was made with. -/
structure Granted (start : LegacyNotificationChannel) (moves : List DriverMove) (target : Str) :
    Prop where
  asked : ∃ check line, .line check line ∈ moves ∧ parseSubscribe (trim line) = some target ∧
    check target start.webId = .ok ()
  bytes : byteLen target ≤ start.urlCapBytes
  origin : start.sameOrigin parseUrl target = true

/-- The settings that lines do not change. -/
structure SameBounds (start chan : LegacyNotificationChannel) : Prop where
  urlCapBytes : chan.urlCapBytes = start.urlCapBytes
  maxSubsPerConn : chan.maxSubsPerConn = start.maxSubsPerConn
  serverOrigin : chan.serverOrigin = start.serverOrigin
  webId : chan.webId = start.webId

variable (parseUrl) in
/-- The subscriptions are few, and granted. -/
structure Permitted (start : LegacyNotificationChannel) (moves : List DriverMove)
    (chan : LegacyNotificationChannel) : Prop extends SameBounds start chan where
  cap : chan.subscriptions.length ≤ start.maxSubsPerConn
  granted : ∀ target ∈ chan.subscriptions, Granted parseUrl start moves target

variable {start : LegacyNotificationChannel}

theorem Granted.mono (h : Granted parseUrl start moves target) (m : DriverMove) :
    Granted parseUrl start (moves ++ [m]) target where
  asked := by
    obtain ⟨check, line, hmem, hasked⟩ := h.asked
    exact ⟨check, line, List.mem_append_left _ hmem, hasked⟩
  bytes := h.bytes
  origin := h.origin

theorem Permitted.mono (h : Permitted parseUrl start moves chan) (m : DriverMove) :
    Permitted parseUrl start (moves ++ [m]) chan :=
  { h with granted := fun target hmem => (h.granted target hmem).mono m }

theorem Permitted.handled (h : Permitted parseUrl start moves chan)
    {r : List OutboundFrame × LegacyNotificationChannel}
    (hr : LineHandled parseUrl check chan line r) :
    Permitted parseUrl start (moves ++ [.line check line]) r.2 := by
  have hmono := h.mono (.line check line)
  cases hr with
  | ignored => exact hmono
  | refused => exact hmono
  | closed => exact hmono
  | unsubscribed target =>
      refine { hmono with cap := ?_, granted := ?_ }
      · exact (List.length_erase_le).trans hmono.cap
      · intro other hother
        exact hmono.granted other (List.mem_of_mem_erase hother)
  | @acked target hparse hbytes horigin hroom hallowed =>
      have hnew : Granted parseUrl start (moves ++ [.line check line]) target := by
        refine ⟨⟨check, line, by simp, hparse, ?_⟩, ?_, ?_⟩
        · rw [← h.webId]
          exact hallowed
        · rw [← h.urlCapBytes]
          exact hbytes
        · rw [LegacyNotificationChannel.sameOrigin, ← h.serverOrigin]
          exact horigin
      refine { hmono with cap := ?_, granted := ?_ }
      · change (chan.subscriptions.insert target).length ≤ _
        rcases hroom with hlt | hmem
        · rw [h.maxSubsPerConn] at hlt
          by_cases hmem : target ∈ chan.subscriptions
          · rw [List.insert_of_mem hmem]
            exact hmono.cap
          · rw [List.length_insert_of_not_mem hmem]
            exact hlt
        · rw [List.insert_of_mem hmem]
          exact hmono.cap
      · intro other hother
        rcases List.mem_insert_iff.mp hother with rfl | hmem
        · exact hnew
        · exact hmono.granted other hmem

variable (parseUrl) in
/-- The frame tells of an event that a granted target covers. -/
def IsNews (start : LegacyNotificationChannel) (moves : List DriverMove)
    (frame : OutboundFrame) : Prop :=
  ∃ event target, .publish event ∈ moves ∧ frame = .text (toLegacyLine event) ∧
    Granted parseUrl start moves target ∧ Covers target event.path

variable (parseUrl) in
/-- A driver that has told its client nothing that it may not know. -/
structure Discreet (start : LegacyNotificationChannel) (moves : List DriverMove)
    (d : LegacyWsDriver B Q) : Prop where
  channel : Permitted parseUrl start moves d.channel
  pending : ∀ event ∈ Broadcast.pending d.events, .publish event ∈ moves
  waiting : ∀ f ∈ d.waiting, f.isPub = false
  news : ∀ frame ∈ d.news, IsNews parseUrl start moves frame

theorem IsNews.mono (h : IsNews parseUrl start moves frame) (m : DriverMove) :
    IsNews parseUrl start (moves ++ [m]) frame := by
  obtain ⟨event, target, hmem, hframe, hgranted, hcovers⟩ := h
  exact ⟨event, target, List.mem_append_left _ hmem, hframe, hgranted.mono m, hcovers⟩

theorem exists_covers_of_matchesSubscription {subscriptions : List Str} {uri : Str}
    (h : matchesSubscription subscriptions uri = true) : ∃ target ∈ subscriptions,
      Covers target uri := by
  obtain ⟨target, hmem, hmatches⟩ := List.any_eq_true.mp h
  refine ⟨target, hmem, (matchesSubscription_iff target uri).mp ?_⟩
  rw [matchesSubscription, List.any_cons, hmatches]
  rfl

variable [Broadcast.Lawful B]

theorem mem_pending_of_recv {b b' : B} {event : StorageEvent}
    (h : Broadcast.recv b = some (.ok event, b')) : event ∈ Broadcast.pending b := by
  rw [(Broadcast.recv_eq_ok h).2.2.1]
  exact List.mem_cons_self

omit [Queue.Lawful Q] in
theorem isNews_of_mem_due (h : Discreet parseUrl start moves d) (hframe : frame ∈ d.due m) :
    IsNews parseUrl start moves frame := by
  cases m with
  | event =>
      rw [LegacyWsDriver.due] at hframe
      split at hframe
      · rename_i event events hrecv
        split_ifs at hframe with hmatches
        · obtain ⟨target, hmem, hcovers⟩ := exists_covers_of_matchesSubscription hmatches
          exact ⟨event, target, h.pending event (mem_pending_of_recv hrecv),
            List.mem_singleton.mp hframe, h.channel.granted target hmem, hcovers⟩
        · cases hframe
      · cases hframe
  | _ => cases hframe

omit [Queue.Lawful Q] in
/-- The events that a driver may still take were published. -/
theorem mem_pending_of_driverStep {event : StorageEvent} (h : driverStep parseUrl d m = some e)
    (hmem : event ∈ Broadcast.pending e.events) :
    event ∈ Broadcast.pending d.events ∨ m = .publish event := by
  cases m with
  | publish published =>
      cases h
      rcases Nat.lt_or_ge (Broadcast.pending d.events).length (Broadcast.cap d.events) with
        hlt | hle
      · simp only [(Broadcast.Lawful.send_of_lt published hlt).1, List.mem_append,
          List.mem_singleton] at hmem
        exact hmem.imp_right fun heq => by rw [heq]
      · simp only [(Broadcast.Lawful.send_of_le published hle).1, List.mem_append,
          List.mem_singleton] at hmem
        exact hmem.imp List.mem_of_mem_tail fun heq => by rw [heq]
  | line check line =>
      rw [driverStep] at h
      split_ifs at h
      cases h
      exact .inl hmem
  | tick =>
      rw [driverStep] at h
      split_ifs at h
      cases h
      exact .inl hmem
  | event =>
      rw [driverStep] at h
      split_ifs at h
      rw [LegacyWsDriver.takeEvent] at h
      split at h
      · cases h
      · rename_i n events hrecv
        cases h
        rw [← (Broadcast.recv_eq_error hrecv).2.2.1]
        exact .inl hmem
      · rename_i taken events hrecv
        cases h
        rw [(Broadcast.recv_eq_ok hrecv).2.2.1]
        refine .inl (List.mem_cons_of_mem taken ?_)
        rw [LegacyWsDriver.offer] at hmem
        split at hmem <;> exact hmem
  | handOver =>
      change d.handOver = some e at h
      rw [LegacyWsDriver.handOver] at h
      split at h
      · cases h
      · split at h
        · cases h
        · cases h
          exact .inl hmem
  | take =>
      change d.deliver = some e at h
      rw [LegacyWsDriver.deliver] at h
      split at h
      · cases h
      · cases h
        exact .inl hmem

theorem Discreet.step (h : Discreet parseUrl start moves d)
    (hstep : driverStep parseUrl d m = some e) : Discreet parseUrl start (moves ++ [m]) e := by
  obtain ⟨hflowed, hwaiting⟩ := flowed_of_driverStep hstep h.waiting
  refine ⟨?_, ?_, hwaiting, ?_⟩
  · rw [hflowed.channel]
    cases m with
    | line check line => exact h.channel.handled (lineHandled_handleLine check d.channel line)
    | _ => exact h.channel.mono _
  · intro event hmem
    rcases mem_pending_of_driverStep hstep hmem with hbefore | rfl
    · exact List.mem_append_left _ (h.pending event hbefore)
    · exact List.mem_append_right _ List.mem_cons_self
  · intro frame hframe
    rcases List.mem_append.mp (hflowed.news.subset hframe) with hbefore | hdue
    · exact (h.news frame hbefore).mono m
    · exact (isNews_of_mem_due h hdue).mono m

/-- In every run a connection has no more subscriptions than its cap, each of them was asked for
and allowed, and the client is only told of published events that such a subscription covers. -/
theorem discreet_from_start (parseUrl : Str → Option OriginParts)
    (channel : LegacyNotificationChannel) (hempty : channel.subscriptions = [])
    (eventsCapacity outboundCap : ℕ+) {moves : List DriverMove}
    (hrun : Schedule.run (driverStep parseUrl)
      (LegacyWsDriver.start channel eventsCapacity outboundCap : LegacyWsDriver B Q) moves =
        some e) :
    e.channel.subscriptions.length ≤ channel.maxSubsPerConn ∧
      (∀ target ∈ e.channel.subscriptions, Granted parseUrl channel moves target) ∧
        ∀ frame ∈ e.news, IsNews parseUrl channel moves frame := by
  have hstart : Discreet parseUrl channel []
      (LegacyWsDriver.start channel eventsCapacity outboundCap : LegacyWsDriver B Q) := by
    refine ⟨⟨⟨rfl, rfl, rfl, rfl⟩, ?_, ?_⟩, ?_, ?_, ?_⟩
    · change channel.subscriptions.length ≤ _
      rw [hempty]
      exact Nat.zero_le _
    · intro target hmem
      change target ∈ channel.subscriptions at hmem
      rw [hempty] at hmem
      cases hmem
    · intro event hmem
      rw [LegacyWsDriver.start, Broadcast.Lawful.pending_subscribe] at hmem
      cases hmem
    · intro f hf
      rw [List.mem_singleton.mp hf]
      decide
    · intro frame hframe
      rw [LegacyWsDriver.news, LegacyWsDriver.flow] at hframe
      simp [LegacyWsDriver.start] at hframe
  have hend : Discreet parseUrl channel moves e :=
    Schedule.induct (P := fun moves d => Discreet parseUrl channel moves d)
      (G := fun _ _ => True) hrun hstart (fun _ _ _ _ _ _ => trivial)
      fun _ _ _ _ hu _ hstep => hu.step hstep
  exact ⟨hend.channel.cap, hend.channel.granted, hend.news⟩

end Driver

/-! ## A client of the pod -/

/-- Channels as lists. -/
abbrev ListDriver := LegacyWsDriver (ListReceiver StorageEvent) (ListQueue OutboundFrame)

/-- A subscription to a container, and a change in it. -/
def containerMoves (target : Str) : List DriverMove :=
  [.handOver, .take, .line allowAllAuthorizer ("sub " ++ target), .handOver,
    .publish (.created "/notes/today"), .event, .take]

theorem eventsRoom_pos : 0 < 16 := by decide

theorem framesRoom_pos : 0 < 256 := by decide

def containerDriver : ListDriver where
  channel := LegacyNotificationChannel.new.insert "/notes/"
  events := Broadcast.subscribe ⟨16, eventsRoom_pos⟩
  waiting := []
  outbound := ⟨⟨256, framesRoom_pos⟩, [.text "pub /notes/today"]⟩
  received := [.text "protocol solid-0.1", .text "ack /notes/"]

theorem run_containerMoves : Schedule.run (driverStep fun _ => none)
    (LegacyWsDriver.start .new 16 256 : ListDriver) (containerMoves "/notes/") =
      some containerDriver := rfl

theorem served_from_start_container : containerDriver.controls =
      .text protocolGreeting :: told (fun _ => none) .new (containerMoves "/notes/") ∧
    containerDriver.news.Sublist (dueAlong (fun _ => none)
      (LegacyWsDriver.start .new 16 256 : ListDriver) (containerMoves "/notes/")) ∧
    (Schedule.Along (driverStep fun _ => none) Roomy
        (LegacyWsDriver.start .new 16 256 : ListDriver) (containerMoves "/notes/") →
      containerDriver.news = dueAlong (fun _ => none)
        (LegacyWsDriver.start .new 16 256 : ListDriver) (containerMoves "/notes/")) :=
  served_from_start (fun _ => none) .new 16 256 run_containerMoves

theorem discreet_from_start_container :
    containerDriver.channel.subscriptions.length ≤ maxSubscriptionsPerConnection ∧
      (∀ target ∈ containerDriver.channel.subscriptions,
        Granted (fun _ => none) .new (containerMoves "/notes/") target) ∧
      ∀ frame ∈ containerDriver.news,
        IsNews (fun _ => none) .new (containerMoves "/notes/") frame :=
  discreet_from_start (fun _ => none) .new rfl 16 256 run_containerMoves

def podParseUrl (text : Str) : Option OriginParts :=
  if text = "https://pod.example/notes/" then some ⟨"https", some "pod.example", none⟩ else none

def podChannel : LegacyNotificationChannel :=
  { LegacyNotificationChannel.new with serverOrigin := some "https://pod.example" }

def podDriver : ListDriver where
  channel := podChannel.insert "https://pod.example/notes/"
  events := Broadcast.subscribe ⟨16, eventsRoom_pos⟩
  waiting := []
  outbound := ⟨⟨256, framesRoom_pos⟩, []⟩
  received := [.text "protocol solid-0.1", .text "ack https://pod.example/notes/"]

theorem run_podMoves : Schedule.run (driverStep podParseUrl)
    (LegacyWsDriver.start podChannel 16 256 : ListDriver)
      (containerMoves "https://pod.example/notes/") = some podDriver := rfl

end Notifications

end SolidPod
