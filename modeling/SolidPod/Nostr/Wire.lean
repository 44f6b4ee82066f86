import SolidPod.Foundation.Channels
import SolidPod.Nostr.SubscriptionRuns

/-!
# The relay on the wire

Many connections send frames to one relay. A text frame is decoded and dispatched by its
first member; the ingestion of an event goes through its steps on the shared store while
the other connections go on, and it ends with a broadcast to all of them. What a connection
is told about its own frames is not affected by the others. The events that it is sent are
valid, somebody has published them, and they match what it has subscribed to.
-/

namespace SolidPod

open Foundation Str

namespace Nostr

/-! ## Frames -/

inductive WireMessage where
  | relay (m : RelayMessage)
  | ok (eventId : Str) (accepted : Bool) (msg : Str)
  | pong (payload : Bytes)

def WireMessage.isEvent : WireMessage → Bool
  | .relay (.event _ _) => true
  | _ => false

def notice (msg : Str) : WireMessage := .relay (.notice msg)

/-- What the JSON library does with a text frame, and what it says about a value that is no
event. -/
structure WireLibrary extends EventLibrary where
  jsonFromStr : Str → Except Str Json
  eventError : Json → Str

def readTags (v : Json) : Except RelayError (List (List Str)) :=
  Filter.readArray (Filter.readArray Filter.readString) v

/-- An event from its members. -/
def Event.ofMembers (id pubkey createdAt kind tags content sig : Json) :
    Except RelayError Event := do
  return {
    id := ← Filter.readString id
    pubkey := ← Filter.readString pubkey
    createdAt := ← Filter.readNumber createdAt
    kind := ← Filter.readNumber kind
    tags := ← readTags tags
    content := ← Filter.readString content
    sig := ← Filter.readString sig }

def requiredMember (key : Str) (m : List (Str × Json)) : Except RelayError Json :=
  match Json.member key m with
  | some v => .ok v
  | none => .error Filter.decodeError

/-- An event is read from an object, or from an array of its members in their order. -/
def Event.fromValue : Json → Except RelayError Event
  | .object m => do
    Event.ofMembers (← requiredMember "id" m) (← requiredMember "pubkey" m)
      (← requiredMember "created_at" m) (← requiredMember "kind" m) (← requiredMember "tags" m)
      (← requiredMember "content" m) (← requiredMember "sig" m)
  | .array [id, pubkey, createdAt, kind, tags, content, sig] =>
    Event.ofMembers id pubkey createdAt kind tags content sig
  | _ => .error Filter.decodeError

/-- What a text frame asks for, or the notice that it is answered with. -/
inductive Demand where
  | unclear (msg : Str)
  | malformed (eventId msg : Str)
  | event (e : Event)
  | req (arr : List Json)
  | close (arr : List Json)

/-- The id that a value claims which is no event. -/
def claimedId : Json → Str
  | .object m =>
    match Json.member "id" m with
    | some (.string id) => id
    | _ => []
  | _ => []

def eventDemand (lib : WireLibrary) (arr : List Json) : Demand :=
  match arr[1]? with
  | none => .unclear "EVENT frame missing event payload"
  | some value =>
    match Event.fromValue value with
    | .ok e => .event e
    | .error _ => .malformed (claimedId value) ("invalid: " ++ lib.eventError value)

def Demand.ofText (lib : WireLibrary) (text : Str) : Demand :=
  match lib.jsonFromStr text with
  | .error e => .unclear ("bad JSON: " ++ e)
  | .ok (.array arr) =>
    match arr.head? with
    | some (.string head) =>
      if head = "EVENT" then eventDemand lib arr
      else if head = "REQ" then .req arr
      else if head = "CLOSE" then .close arr
      else .unclear ("unknown frame type: " ++ head)
    | _ => .unclear "empty or malformed wire frame"
  | .ok _ => .unclear "wire frame must be a JSON array"

def handleEvent (lib : EventLibrary) (store : InMemoryEventStore) (e : Event) :
    List WireMessage × InMemoryEventStore :=
  let (answer, store) := ingest lib e store
  match answer with
  | .ok () => ([.ok e.id true []], store)
  | .error err => ([.ok e.id false err.display], store)

/-- The answers to a text frame that is dispatched undisturbed. -/
def dispatchMessage (lib : WireLibrary) (store : InMemoryEventStore) (subscriptions : Subscriptions)
    (text : Str) : List WireMessage × InMemoryEventStore × Subscriptions :=
  match Demand.ofText lib text with
  | .unclear msg => ([notice msg], store, subscriptions)
  | .malformed eventId msg => ([.ok eventId false msg], store, subscriptions)
  | .event e =>
    let (out, store) := handleEvent lib.toEventLibrary store e
    (out, store, subscriptions)
  | .req arr =>
    let (out, subscriptions) := handleReq store.inner subscriptions arr
    (out.map .relay, store, subscriptions)
  | .close arr =>
    let (out, subscriptions) := handleClose subscriptions arr
    (out.map .relay, store, subscriptions)

/-! ## Connections -/

/-- What is left of an ingestion after its first step on the store. -/
inductive Stage where
  | putting
  | announcing

/-- A connection takes a frame or a broadcast when it is open and ingests nothing. -/
structure Connection (B : Type*) where
  isOpen : Bool
  subscriptions : Subscriptions
  live : B
  ingesting : Option (Event × Stage)
  sent : List WireMessage

inductive ClientFrame where
  | text (text : Str)
  | binary
  | ping (payload : Bytes)

structure RelayServer (ι B : Type*) where
  store : InMemoryEventStore
  connections : ι → Option (Connection B)

inductive WireMove (ι : Type*) where
  | connect (i : ι)
  | frame (i : ι) (f : ClientFrame)
  | resume (i : ι)
  | deliver (i : ι)
  | hangUp (i : ι)

section Server

variable {ι B : Type*} [Broadcast B Event]

def Connection.new (capacity : ℕ+) : Connection B where
  isOpen := true
  subscriptions := ∅
  live := Broadcast.subscribe capacity
  ingesting := none
  sent := []

def Connection.isReady (c : Connection B) : Bool := c.isOpen && c.ingesting.isNone

def Connection.send (c : Connection B) (out : List WireMessage) : Connection B :=
  { c with sent := c.sent ++ out }

def Connection.hear (c : Connection B) (e : Event) : Connection B :=
  { c with live := Broadcast.send c.live e }

/-- The first step of an ingestion on the store. -/
def beginIngest (store : InMemoryEventStore) (e : Event) : InMemoryEventStore × Stage :=
  match e.treatment with
  | .broadcastOnly => (store, .announcing)
  | .append => (store.put e, .announcing)
  | .replace p =>
    let (replaced, store) := store.replaceWhere p e
    (store, if replaced then .announcing else .putting)

variable (lib : WireLibrary)

def handleText (store : InMemoryEventStore) (c : Connection B) (text : Str) :
    InMemoryEventStore × Connection B :=
  match Demand.ofText lib text with
  | .unclear msg => (store, c.send [notice msg])
  | .malformed eventId msg => (store, c.send [.ok eventId false msg])
  | .event e =>
    match e.verify lib.toEventLibrary with
    | .error err => (store, c.send [.ok e.id false err.display])
    | .ok () =>
      let (store, stage) := beginIngest store e
      (store, { c with ingesting := some (e, stage) })
  | .req arr =>
    let (out, subscriptions) := handleReq store.inner c.subscriptions arr
    (store, { c with subscriptions := subscriptions, sent := c.sent ++ out.map .relay })
  | .close arr =>
    let (out, subscriptions) := handleClose c.subscriptions arr
    (store, { c with subscriptions := subscriptions, sent := c.sent ++ out.map .relay })

def handleFrame (store : InMemoryEventStore) (c : Connection B) :
    ClientFrame → InMemoryEventStore × Connection B
  | .text text => handleText lib store c text
  | .binary => (store, c.send [notice "binary frames not accepted"])
  | .ping payload => (store, c.send [.pong payload])

/-- A connection takes the next broadcast. That it has lost some is passed over. -/
def Connection.deliver (c : Connection B) : Option (Connection B) :=
  match Broadcast.recv c.live with
  | none => none
  | some (.error _, live) => some { c with live := live }
  | some (.ok e, live) =>
    some { c with live := live, sent := c.sent ++ (liveFrames c.subscriptions e).map .relay }

variable [DecidableEq ι] (capacity : ℕ+)

def RelayServer.set (s : RelayServer ι B) (i : ι) (c : Connection B) : RelayServer ι B :=
  { s with connections := Function.update s.connections i (some c) }

def RelayServer.announce (s : RelayServer ι B) (e : Event) : RelayServer ι B :=
  { s with connections := fun j => (s.connections j).map fun c => c.hear e }

/-- The rest of an ingestion. -/
def RelayServer.resume (s : RelayServer ι B) (i : ι) (c : Connection B) :
    Event × Stage → RelayServer ι B
  | (e, .putting) =>
    { s with store := s.store.put e }.set i { c with ingesting := some (e, .announcing) }
  | (e, .announcing) =>
    (s.set i { c with ingesting := none, sent := c.sent ++ [.ok e.id true []] }).announce e

/-- A connection that takes frames and broadcasts. -/
def RelayServer.ready (s : RelayServer ι B) (i : ι) : Option (Connection B) :=
  (s.connections i).filter Connection.isReady

def RelayServer.frame (s : RelayServer ι B) (i : ι) (c : Connection B) (f : ClientFrame) :
    RelayServer ι B :=
  { s with store := (handleFrame lib s.store c f).1 }.set i (handleFrame lib s.store c f).2

def serverStep (s : RelayServer ι B) : WireMove ι → Option (RelayServer ι B)
  | .connect i =>
    match s.connections i with
    | none => some (s.set i (.new capacity))
    | some _ => none
  | .frame i f => (s.ready i).map fun c => s.frame lib i c f
  | .resume i =>
    (s.connections i).bind fun c => c.ingesting.map fun rest => s.resume i c rest
  | .deliver i => (s.ready i).bind fun c => c.deliver.map fun c => s.set i c
  | .hangUp i => (s.ready i).map fun c => s.set i { c with isOpen := false }

/-- The relay before its first connection. -/
def RelayServer.boot (store : InMemoryEventStore) : RelayServer ι B := ⟨store, fun _ => none⟩

inductive WireMoved (s : RelayServer ι B) : WireMove ι → RelayServer ι B → Prop
  | connected {i : ι} (hnone : s.connections i = none) :
      WireMoved s (.connect i) (s.set i (.new capacity))
  | framed {i : ι} {c : Connection B} (hc : s.connections i = some c) (hready : c.isReady = true)
      (f : ClientFrame) : WireMoved s (.frame i f) (s.frame lib i c f)
  | put {i : ι} {c : Connection B} {e : Event} (hc : s.connections i = some c)
      (hstage : c.ingesting = some (e, .putting)) :
      WireMoved s (.resume i)
        ({ s with store := s.store.put e }.set i { c with ingesting := some (e, .announcing) })
  | announced {i : ι} {c : Connection B} {e : Event} (hc : s.connections i = some c)
      (hstage : c.ingesting = some (e, .announcing)) :
      WireMoved s (.resume i)
        ((s.set i { c with ingesting := none, sent := c.sent ++ [.ok e.id true []] }).announce e)
  | delivered {i : ι} {c d : Connection B} (hc : s.connections i = some c)
      (hready : c.isReady = true) (hdeliver : c.deliver = some d) :
      WireMoved s (.deliver i) (s.set i d)
  | hungUp {i : ι} {c : Connection B} (hc : s.connections i = some c) :
      WireMoved s (.hangUp i) (s.set i { c with isOpen := false })

variable {lib capacity} {s t : RelayServer ι B} {m : WireMove ι} {i : ι} {c : Connection B}

omit [Broadcast B Event] [DecidableEq ι] in
theorem ready_eq_some_iff : s.ready i = some c ↔ s.connections i = some c ∧ c.isReady = true := by
  rw [RelayServer.ready, Option.filter_eq_some_iff]

theorem wireMoved_of_serverStep (h : serverStep lib capacity s m = some t) :
    WireMoved lib capacity s m t := by
  cases m with
  | connect i =>
      rw [serverStep] at h
      split at h
      · cases h
        exact .connected ‹_›
      · cases h
  | frame i f =>
      obtain ⟨c, hc, rfl⟩ := Option.map_eq_some_iff.mp h
      obtain ⟨hc, hready⟩ := ready_eq_some_iff.mp hc
      exact .framed hc hready f
  | resume i =>
      obtain ⟨c, hc, hrest⟩ := Option.bind_eq_some_iff.mp h
      obtain ⟨⟨e, stage⟩, hstage, rfl⟩ := Option.map_eq_some_iff.mp hrest
      cases stage with
      | putting => exact .put hc hstage
      | announcing => exact .announced hc hstage
  | deliver i =>
      obtain ⟨c, hc, hd⟩ := Option.bind_eq_some_iff.mp h
      obtain ⟨hc, hready⟩ := ready_eq_some_iff.mp hc
      obtain ⟨d, hdeliver, rfl⟩ := Option.map_eq_some_iff.mp hd
      exact .delivered hc hready hdeliver
  | hangUp i =>
      obtain ⟨c, hc, rfl⟩ := Option.map_eq_some_iff.mp h
      exact .hungUp (ready_eq_some_iff.mp hc).1

/-! ## A frame that is not disturbed -/

theorem serverStep_frame (hc : s.ready i = some c) (f : ClientFrame) :
    serverStep lib capacity s (.frame i f) = some (s.frame lib i c f) := by
  rw [serverStep, hc]
  rfl

variable (lib capacity) in
theorem serverStep_resume {rest : Event × Stage} (hc : s.connections i = some c)
    (hrest : c.ingesting = some rest) :
    serverStep lib capacity s (.resume i) = some (s.resume i c rest) := by
  rw [serverStep, hc, Option.bind_some, hrest]
  rfl

/-- The steps that are left of an ingestion. -/
def Stage.left (i : ι) : Stage → List (WireMove ι)
  | .putting => [.resume i, .resume i]
  | .announcing => [.resume i]

/-- The store after the steps that are left of an ingestion. -/
def Stage.finish (store : InMemoryEventStore) (e : Event) : Stage → InMemoryEventStore
  | .putting => store.put e
  | .announcing => store

/-- What a connection is after its ingestion has ended. -/
structure Connection.Answered (c : Connection B) (out : List WireMessage)
    (subscriptions : Subscriptions) (d : Connection B) : Prop where
  ready : d.isReady = true
  subscriptions : d.subscriptions = subscriptions
  sent : d.sent = c.sent ++ out

variable (lib capacity) in
theorem run_announcing {e : Event} (hc : s.connections i = some c) (hopen : c.isOpen = true)
    (hstage : c.ingesting = some (e, .announcing)) :
    ∃ t d, Schedule.run (serverStep lib capacity) s [.resume i] = some t ∧ t.store = s.store ∧
      t.connections i = some d ∧ c.Answered [.ok e.id true []] c.subscriptions d := by
  have hstep := serverStep_resume lib capacity hc hstage
  refine ⟨s.resume i c (e, .announcing),
    Connection.hear { c with ingesting := none, sent := c.sent ++ [.ok e.id true []] } e,
    ?_, rfl, ?_, ⟨?_, rfl, rfl⟩⟩
  · rw [Schedule.run_cons, hstep]
    rfl
  · simp only [RelayServer.resume, RelayServer.announce, RelayServer.set, Function.update_self]
    rfl
  · simp only [Connection.isReady, Connection.hear, hopen]
    rfl

variable (lib capacity) in
theorem run_left {e : Event} {stage : Stage} (hc : s.connections i = some c)
    (hopen : c.isOpen = true) (hstage : c.ingesting = some (e, stage)) :
    ∃ t d, Schedule.run (serverStep lib capacity) s (stage.left i) = some t ∧
      t.store = stage.finish s.store e ∧ t.connections i = some d ∧
        c.Answered [.ok e.id true []] c.subscriptions d := by
  cases stage with
  | announcing => exact run_announcing lib capacity hc hopen hstage
  | putting =>
      have hstep := serverStep_resume lib capacity hc hstage
      have hput : (s.resume i c (e, .putting)).connections i =
          some { c with ingesting := some (e, .announcing) } := Function.update_self ..
      obtain ⟨t, d, hrun, hstore, hd, hanswered⟩ :=
        run_announcing lib capacity hput hopen rfl
      refine ⟨t, d, ?_, hstore, hd, hanswered.ready, hanswered.subscriptions, hanswered.sent⟩
      rw [Stage.left, Schedule.run_cons, hstep]
      exact hrun

theorem handleEvent_of_valid {e : Event} (store : InMemoryEventStore)
    (hvalid : e.verify lib.toEventLibrary = .ok ()) :
    handleEvent lib.toEventLibrary store e =
      ([.ok e.id true []], (beginIngest store e).2.finish (beginIngest store e).1 e) := by
  rw [handleEvent, ingest, hvalid, beginIngest]
  cases e.treatment with
  | broadcastOnly => rfl
  | append => rfl
  | replace p =>
      cases hfound : InMemoryEventStore.replaceFirst p e store.inner with
      | none =>
          simp only [InMemoryEventStore.replaceWhere_of_none hfound]
          rfl
      | some inner =>
          simp only [InMemoryEventStore.replaceWhere_of_some hfound]
          rfl

/-- A text frame that nobody disturbs does what `dispatchMessage` does. -/
theorem exists_run_eq_dispatchMessage (hc : s.ready i = some c) (text : Str) :
    ∃ rest t d, Schedule.run (serverStep lib capacity) s (.frame i (.text text) :: rest) = some t ∧
      (∀ m ∈ rest, m = .resume i) ∧ t.connections i = some d ∧
        t.store = (dispatchMessage lib s.store c.subscriptions text).2.1 ∧
          c.Answered (dispatchMessage lib s.store c.subscriptions text).1
            (dispatchMessage lib s.store c.subscriptions text).2.2 d := by
  obtain ⟨-, hready⟩ := ready_eq_some_iff.mp hc
  have hat : ∀ r : InMemoryEventStore × Connection B,
      ({ s with store := r.1 }.set i r.2).connections i = some r.2 := fun r =>
    Function.update_self ..
  have hone : ∀ r : InMemoryEventStore × Connection B, handleText lib s.store c text = r →
      Schedule.run (serverStep lib capacity) s [.frame i (.text text)] =
        some ({ s with store := r.1 }.set i r.2) := by
    rintro r rfl
    rw [Schedule.run_cons, serverStep_frame hc]
    rfl
  cases hdemand : Demand.ofText lib text with
  | unclear msg =>
      have hone := hone _ (by rw [handleText, hdemand])
      refine ⟨[], _, _, hone, by simp, hat _, ?_⟩
      rw [dispatchMessage, hdemand]
      exact ⟨rfl, hready, rfl, rfl⟩
  | malformed eventId msg =>
      have hone := hone _ (by rw [handleText, hdemand])
      refine ⟨[], _, _, hone, by simp, hat _, ?_⟩
      rw [dispatchMessage, hdemand]
      exact ⟨rfl, hready, rfl, rfl⟩
  | req arr =>
      have hone := hone _ (by rw [handleText, hdemand])
      refine ⟨[], _, _, hone, by simp, hat _, ?_⟩
      rw [dispatchMessage, hdemand]
      exact ⟨rfl, hready, rfl, rfl⟩
  | close arr =>
      have hone := hone _ (by rw [handleText, hdemand])
      refine ⟨[], _, _, hone, by simp, hat _, ?_⟩
      rw [dispatchMessage, hdemand]
      exact ⟨rfl, hready, rfl, rfl⟩
  | event e =>
      rw [dispatchMessage, hdemand]
      cases hverify : e.verify lib.toEventLibrary with
      | error err =>
          have hone := hone _ (by simp only [handleText, hdemand, hverify]; rfl)
          refine ⟨[], _, _, hone, by simp, hat _, ?_⟩
          simp only [handleEvent, ingest, hverify]
          exact ⟨rfl, hready, rfl, rfl⟩
      | ok =>
          have hone := hone _ (by simp only [handleText, hdemand, hverify]; rfl)
          have hopen : c.isOpen = true := by
            rw [Connection.isReady, Bool.and_eq_true] at hready
            exact hready.1
          obtain ⟨t, d, hrun, hstore, hd, hanswered⟩ := run_left lib capacity
            (hat (_, { c with ingesting := some (e, (beginIngest s.store e).2) })) hopen rfl
          refine ⟨(beginIngest s.store e).2.left i, t, d, ?_, ?_, hd, ?_⟩
          · rw [← List.singleton_append, Schedule.run_append, hone]
            exact hrun
          · cases (beginIngest s.store e).2 with
            | putting => simp [Stage.left]
            | announcing => simp [Stage.left]
          · simp only [handleEvent_of_valid s.store hverify]
            exact ⟨hstore, hanswered.ready, hanswered.subscriptions, hanswered.sent⟩

/-! ## What a connection has coming for its own frames -/

variable (lib) in
/-- The answers to a frame other than stored events. The store has no say in them. -/
def replyTo : ClientFrame → List WireMessage
  | .binary => [notice "binary frames not accepted"]
  | .ping payload => [.pong payload]
  | .text text =>
    match Demand.ofText lib text with
    | .unclear msg => [notice msg]
    | .malformed eventId msg => [.ok eventId false msg]
    | .event e =>
      match e.verify lib.toEventLibrary with
      | .error err => [.ok e.id false err.display]
      | .ok () => [.ok e.id true []]
    | .req arr =>
      match parseReq arr with
      | .error msg => [notice msg]
      | .ok (sub, _) => [.relay (.eose sub)]
    | .close arr =>
      match subscriptionId arr with
      | none => [notice "CLOSE frame missing subscription id"]
      | some _ => []

variable (lib) in
/-- What a frame makes of the subscriptions. -/
def subscribedBy (subscriptions : Subscriptions) : ClientFrame → Subscriptions
  | .text text =>
    match Demand.ofText lib text with
    | .req arr =>
      match parseReq arr with
      | .error _ => subscriptions
      | .ok (sub, filters) => subscriptions.insert sub filters
    | .close arr =>
      match subscriptionId arr with
      | none => subscriptions
      | some sub => subscriptions.erase sub
    | _ => subscriptions
  | _ => subscriptions

variable (lib) in
def subscriptionsAfter (frames : List ClientFrame) : Subscriptions :=
  frames.foldl (subscribedBy lib) ∅

def WireMove.frameOf (i : ι) : WireMove ι → Option ClientFrame
  | .frame j f => if j = i then some f else none
  | _ => none

/-- The frames that a connection has sent. -/
def framesOf (i : ι) (moves : List (WireMove ι)) : List ClientFrame :=
  moves.filterMap (WireMove.frameOf i)

/-- Everything that a connection was sent, but for the events. -/
def Connection.controls (c : Connection B) : List WireMessage := c.sent.filter fun m => !m.isEvent

/-- The answer that an ingestion in progress ends with. -/
def Connection.due (c : Connection B) : List WireMessage :=
  match c.ingesting with
  | some (e, _) => [.ok e.id true []]
  | none => []

variable (lib) in
/-- What becomes of the store and the connection with one frame. -/
inductive Handled (store : InMemoryEventStore) (c : Connection B) (f : ClientFrame) :
    InMemoryEventStore × Connection B → Prop
  | told {out : List WireMessage} (hreply : replyTo lib f = out)
      (hcontrol : ∀ m ∈ out, m.isEvent = false)
      (hsame : subscribedBy lib c.subscriptions f = c.subscriptions) :
      Handled store c f (store, c.send out)
  | begun {text : Str} {e : Event} (hf : f = .text text) (he : Demand.ofText lib text = .event e)
      (hvalid : e.verify lib.toEventLibrary = .ok ()) (hreply : replyTo lib f = [.ok e.id true []])
      (hsame : subscribedBy lib c.subscriptions f = c.subscriptions) :
      Handled store c f
        ((beginIngest store e).1, { c with ingesting := some (e, (beginIngest store e).2) })
  | opened {sub : Str} {filters : List Filter} (hreply : replyTo lib f = [.relay (.eose sub)])
      (hopens : subscribedBy lib c.subscriptions f = c.subscriptions.insert sub filters) :
      Handled store c f (store, { c with
        subscriptions := c.subscriptions.insert sub filters
        sent := c.sent ++
          ((history store.inner filters).map (RelayMessage.event sub ·) ++
            [RelayMessage.eose sub]).map .relay })
  | closed {sub : Str} (hreply : replyTo lib f = [])
      (hcloses : subscribedBy lib c.subscriptions f = c.subscriptions.erase sub) :
      Handled store c f (store, { c with subscriptions := c.subscriptions.erase sub })

omit [Broadcast B Event] in
theorem handled_handleText (store : InMemoryEventStore) (c : Connection B) (text : Str) :
    Handled lib store c (.text text) (handleText lib store c text) := by
  rw [handleText]
  cases hdemand : Demand.ofText lib text with
  | unclear msg =>
      exact .told (by rw [replyTo, hdemand]) (by simp [notice, WireMessage.isEvent])
        (by rw [subscribedBy, hdemand])
  | malformed eventId msg =>
      exact .told (by rw [replyTo, hdemand]) (by simp [WireMessage.isEvent])
        (by rw [subscribedBy, hdemand])
  | event e =>
      have hsame : subscribedBy lib c.subscriptions (.text text) = c.subscriptions := by
        rw [subscribedBy, hdemand]
      cases hverify : e.verify lib.toEventLibrary with
      | error err =>
          simp only [hverify]
          exact .told (by simp only [replyTo, hdemand, hverify]) (by simp [WireMessage.isEvent])
            hsame
      | ok =>
          simp only [hverify]
          exact .begun rfl hdemand hverify (by simp only [replyTo, hdemand, hverify]) hsame
  | req arr =>
      simp only [handleReq]
      cases hparse : parseReq arr with
      | error msg =>
          exact .told (by simp only [replyTo, hdemand, hparse]; rfl)
            (by simp [WireMessage.isEvent]) (by simp only [subscribedBy, hdemand, hparse])
      | ok opened =>
          exact .opened (by simp only [replyTo, hdemand, hparse])
            (by simp only [subscribedBy, hdemand, hparse])
  | close arr =>
      simp only [handleClose]
      cases hid : subscriptionId arr with
      | none =>
          exact .told (by simp only [replyTo, hdemand, hid]; rfl)
            (by simp [WireMessage.isEvent]) (by simp only [subscribedBy, hdemand, hid])
      | some sub =>
          simp only [List.map_nil, List.append_nil]
          exact .closed (by simp only [replyTo, hdemand, hid])
            (by simp only [subscribedBy, hdemand, hid])

omit [Broadcast B Event] in
theorem handled_handleFrame (store : InMemoryEventStore) (c : Connection B) (f : ClientFrame) :
    Handled lib store c f (handleFrame lib store c f) := by
  cases f with
  | text text => exact handled_handleText store c text
  | binary => exact .told rfl (by simp [notice, WireMessage.isEvent]) rfl
  | ping payload => exact .told rfl (by simp [WireMessage.isEvent]) rfl

/-- What a connection is told about its own frames, and what it has subscribed to, follows
from these frames. -/
structure Connection.Follows (lib : WireLibrary) (frames : List ClientFrame) (c : Connection B) :
    Prop where
  subscriptions : c.subscriptions = subscriptionsAfter lib frames
  controls : c.controls ++ c.due = frames.flatMap (replyTo lib)

variable {f : ClientFrame} {frames : List ClientFrame} {store : InMemoryEventStore} {e : Event}

theorem subscriptionsAfter_concat :
    subscriptionsAfter lib (frames ++ [f]) = subscribedBy lib (subscriptionsAfter lib frames) f :=
  List.foldl_concat ..

omit [Broadcast B Event] in
theorem due_of_isReady (h : c.isReady = true) : c.due = [] := by
  rw [Connection.isReady, Bool.and_eq_true, Option.isNone_iff_eq_none] at h
  rw [Connection.due, h.2]

theorem controls_eq_self {out : List WireMessage} (h : ∀ m ∈ out, m.isEvent = false) :
    out.filter (fun m => !m.isEvent) = out := by
  rw [List.filter_eq_self]
  intro m hm
  rw [h m hm]
  rfl

theorem controls_events (sub : Str) (es : List Event) :
    ((es.map (RelayMessage.event sub ·)).map WireMessage.relay).filter (fun m => !m.isEvent) =
      [] := by
  rw [List.filter_eq_nil_iff]
  intro m hm
  simp only [List.map_map, List.mem_map, Function.comp_apply] at hm
  obtain ⟨e, -, rfl⟩ := hm
  exact Bool.false_ne_true

theorem controls_liveFrames (subscriptions : Subscriptions) (e : Event) :
    ((liveFrames subscriptions e).map WireMessage.relay).filter (fun m => !m.isEvent) = [] := by
  rw [List.filter_eq_nil_iff]
  intro m hm
  simp only [liveFrames, List.map_map, List.mem_map, Function.comp_apply] at hm
  obtain ⟨entry, -, rfl⟩ := hm
  exact Bool.false_ne_true

omit [Broadcast B Event] in
theorem Connection.Follows.handled (h : c.Follows lib frames) (hready : c.isReady = true)
    {r : InMemoryEventStore × Connection B} (hr : Handled lib store c f r) :
    r.2.Follows lib (frames ++ [f]) := by
  have hcontrols : c.controls = frames.flatMap (replyTo lib) := by
    have h := h.controls
    rwa [due_of_isReady hready, List.append_nil] at h
  have hidle : c.ingesting = none := by
    rw [Connection.isReady, Bool.and_eq_true, Option.isNone_iff_eq_none] at hready
    exact hready.2
  cases hr with
  | @told out hreply hcontrol hsame =>
      constructor
      · rw [subscriptionsAfter_concat, ← h.subscriptions, hsame]
        rfl
      · rw [Connection.controls, Connection.send, List.filter_append, controls_eq_self hcontrol,
          List.flatMap_append, List.flatMap_singleton, hreply, ← hcontrols, Connection.due]
        simp only [hidle, List.append_nil]
        rfl
  | begun hf he hvalid hreply hsame =>
      constructor
      · rw [subscriptionsAfter_concat, ← h.subscriptions, hsame]
      · rw [List.flatMap_append, List.flatMap_singleton, hreply, ← hcontrols]
        rfl
  | @opened sub filters hreply hopens =>
      constructor
      · rw [subscriptionsAfter_concat, ← h.subscriptions, hopens]
      · rw [List.flatMap_append, List.flatMap_singleton, hreply, ← hcontrols, Connection.controls,
          Connection.due]
        simp only [hidle, List.append_nil, List.map_append, List.filter_append, controls_events]
        rfl
  | closed hreply hcloses =>
      constructor
      · rw [subscriptionsAfter_concat, ← h.subscriptions, hcloses]
      · rw [List.flatMap_append, List.flatMap_singleton, hreply, ← hcontrols, List.append_nil,
          Connection.due]
        simp only [hidle, List.append_nil]
        rfl

/-- Each connection follows its own frames, and one that has yet to connect has sent none. -/
def RelayServer.Follows (lib : WireLibrary) (moves : List (WireMove ι)) (s : RelayServer ι B) :
    Prop :=
  ∀ i, match s.connections i with
    | some c => c.Follows lib (framesOf i moves)
    | none => framesOf i moves = []

omit [Broadcast B Event] in
theorem RelayServer.Follows.some {moves : List (WireMove ι)} (h : s.Follows lib moves)
    (hc : s.connections i = some c) : c.Follows lib (framesOf i moves) := by
  have hi := h i
  rwa [hc] at hi

theorem framesOf_concat (moves : List (WireMove ι)) (m : WireMove ι) :
    framesOf i (moves ++ [m]) = framesOf i moves ++ (m.frameOf i).toList := by
  rw [framesOf, List.filterMap_append, framesOf]
  cases h : m.frameOf i with
  | none => simp [h]
  | some f => simp [h]

theorem framesOf_of_ne {moves : List (WireMove ι)} {j : ι} (h : ∀ f, m ≠ .frame j f) :
    framesOf j (moves ++ [m]) = framesOf j moves := by
  have hnone : m.frameOf j = none := by
    cases m with
    | frame i f =>
        rw [WireMove.frameOf, if_neg]
        rintro rfl
        exact h f rfl
    | _ => rfl
  rw [framesOf_concat, hnone]
  exact List.append_nil _

omit [Broadcast B Event] in
/-- A change of one connection, which follows its frames, leaves the others following theirs. -/
theorem RelayServer.Follows.set {moves : List (WireMove ι)} (h : s.Follows lib moves)
    (hothers : ∀ j, j ≠ i → framesOf j (moves ++ [m]) = framesOf j moves)
    (hc : c.Follows lib (framesOf i (moves ++ [m]))) (store : InMemoryEventStore) :
    ({ s with store := store }.set i c).Follows lib (moves ++ [m]) := by
  intro j
  by_cases hj : j = i
  · subst hj
    simp only [RelayServer.set, Function.update_self]
    exact hc
  · simp only [RelayServer.set, Function.update_of_ne hj]
    rw [hothers j hj]
    exact h j

theorem RelayServer.Follows.moved {moves : List (WireMove ι)} (h : s.Follows lib moves)
    (hm : WireMoved lib capacity s m t) : t.Follows lib (moves ++ [m]) := by
  cases hm with
  | @connected i hnone =>
      have hquiet : ∀ j, framesOf j (moves ++ [.connect i]) = framesOf j moves := fun j =>
        framesOf_of_ne (by simp)
      have hi := h i
      rw [hnone] at hi
      refine h.set (fun j _ => hquiet j) ⟨?_, ?_⟩ s.store
      · rw [hquiet, hi]
        rfl
      · rw [hquiet, hi]
        rfl
  | @framed i c hc hready f =>
      have hown : framesOf i (moves ++ [.frame i f]) = framesOf i moves ++ [f] := by
        rw [framesOf_concat, WireMove.frameOf, if_pos rfl]
        rfl
      refine h.set (fun j hj => framesOf_of_ne ?_) ?_ _
      · rintro g heq
        cases heq
        exact hj rfl
      · rw [hown]
        exact (h.some hc).handled hready (handled_handleFrame s.store c f)
  | @put i c e hc hstage =>
      have hquiet : ∀ j, framesOf j (moves ++ [.resume i]) = framesOf j moves := fun j =>
        framesOf_of_ne (by simp)
      have hfollows := h.some hc
      refine h.set (fun j _ => hquiet j) ⟨?_, ?_⟩ _
      · rw [hquiet]
        exact hfollows.subscriptions
      · rw [hquiet, ← hfollows.controls, Connection.due, Connection.due, hstage]
        rfl
  | @announced i c e hc hstage =>
      have hquiet : ∀ j, framesOf j (moves ++ [.resume i]) = framesOf j moves := fun j =>
        framesOf_of_ne (by simp)
      have hfollows := h.some hc
      have hset :
          (s.set i { c with ingesting := none, sent := c.sent ++ [.ok e.id true []] }).Follows lib
            (moves ++ [.resume i]) := by
        refine h.set (fun j _ => hquiet j) ⟨?_, ?_⟩ s.store
        · rw [hquiet]
          exact hfollows.subscriptions
        · rw [hquiet, ← hfollows.controls, Connection.due, Connection.due, hstage,
            Connection.controls, List.filter_append]
          exact List.append_nil _
      intro j
      have hj := hset j
      simp only [RelayServer.announce]
      cases hcj : (s.set i
          { c with ingesting := none, sent := c.sent ++ [.ok e.id true []] }).connections j with
      | none =>
          rw [hcj] at hj
          exact hj
      | some d =>
          rw [hcj] at hj
          exact ⟨hj.subscriptions, hj.controls⟩
  | @delivered i c d hc hready hdeliver =>
      have hquiet : ∀ j, framesOf j (moves ++ [.deliver i]) = framesOf j moves := fun j =>
        framesOf_of_ne (by simp)
      have hfollows := h.some hc
      refine h.set (fun j _ => hquiet j) ?_ s.store
      rw [hquiet]
      rw [Connection.deliver] at hdeliver
      split at hdeliver
      · cases hdeliver
      · cases hdeliver
        exact ⟨hfollows.subscriptions, hfollows.controls⟩
      · cases hdeliver
        refine ⟨hfollows.subscriptions, ?_⟩
        rw [← hfollows.controls, Connection.controls, List.filter_append, controls_liveFrames,
          List.append_nil]
        rfl
  | @hungUp i c hc =>
      have hquiet : ∀ j, framesOf j (moves ++ [.hangUp i]) = framesOf j moves := fun j =>
        framesOf_of_ne (by simp)
      have hfollows := h.some hc
      refine h.set (fun j _ => hquiet j) ?_ s.store
      rw [hquiet]
      exact ⟨hfollows.subscriptions, hfollows.controls⟩

/-- Whatever the other connections do and however the steps interleave, what a connection is
told but for the events, and what it has subscribed to, follows from the frames that it has sent
itself. So each event that it publishes is answered by one `OK`, in the order of the frames, which
accepts it if and only if the event is valid. -/
theorem follows_of_run (lib : WireLibrary) (capacity : ℕ+) (store : InMemoryEventStore)
    {moves : List (WireMove ι)}
    (hrun : Schedule.run (serverStep (B := B) lib capacity) (.boot store) moves = some s)
    (hc : s.connections i = some c) : c.Follows lib (framesOf i moves) := by
  have hfollows : s.Follows lib moves :=
    Schedule.induct (G := fun _ _ => True) hrun (fun _ => rfl) (fun _ _ _ _ _ _ => trivial)
      fun _ _ _ _ hu _ hstep => hu.moved (wireMoved_of_serverStep hstep)
  exact hfollows.some hc

/-! ## Where the events of a connection come from -/

theorem mem_filter_of_mem_matched {x : Event} {es : List Event} {f : Filter}
    (h : x ∈ matched es f) : x ∈ es ∧ f.matches x = true := by
  rw [matched] at h
  cases hlimit : f.limit with
  | none =>
      rw [hlimit] at h
      exact List.mem_filter.mp h
  | some limit =>
      rw [hlimit] at h
      exact List.mem_filter.mp (List.mem_of_mem_drop h)

/-- The events of a history match one of its filters. -/
theorem exists_matches_of_mem_foldl {x : Event} {es out : List Event} {filters : List Filter}
    (h : x ∈ filters.foldl (fun out f => (matched es f).foldl addUnseen out) out) :
    x ∈ out ∨ x ∈ es ∧ ∃ f ∈ filters, f.matches x = true := by
  induction filters generalizing out with
  | nil => exact .inl h
  | cons f filters ih =>
      rcases ih h with hfold | ⟨hstored, g, hg, hmatches⟩
      · refine (mem_foldl_addUnseen hfold).imp_right fun hmem => ?_
        obtain ⟨hstored, hmatches⟩ := mem_filter_of_mem_matched hmem
        exact ⟨hstored, f, List.mem_cons_self, hmatches⟩
      · exact .inr ⟨hstored, g, List.mem_cons_of_mem f hg, hmatches⟩

theorem exists_matches_of_mem_history {x : Event} {es : List Event} {filters : List Filter}
    (h : x ∈ history es filters) : x ∈ es ∧ ∃ f ∈ filters, f.matches x = true :=
  (exists_matches_of_mem_foldl h).resolve_left List.not_mem_nil

theorem exists_matches_of_mem_liveFrames {sub : Str} {x : Event} {subscriptions : Subscriptions}
    (h : RelayMessage.event sub x ∈ liveFrames subscriptions e) :
    x = e ∧ ∃ filters, subscriptions.lookup sub = some filters ∧
      ∃ f ∈ filters, f.matches x = true := by
  rw [liveFrames, List.mem_map] at h
  obtain ⟨⟨sub', filters⟩, hmem, heq⟩ := h
  cases heq
  obtain ⟨hentry, hany⟩ := List.mem_filter.mp hmem
  exact ⟨rfl, filters, AList.mem_lookup_iff.mpr hentry, List.any_eq_true.mp hany⟩

theorem mem_beginIngest {x : Event} (h : x ∈ (beginIngest store e).1.inner) :
    x ∈ store.inner ∨ e = x := by
  rw [beginIngest] at h
  cases htreatment : e.treatment with
  | broadcastOnly =>
      rw [htreatment] at h
      exact .inl h
  | append =>
      rw [htreatment] at h
      exact mem_put h
  | replace p =>
      rw [htreatment] at h
      cases hfound : InMemoryEventStore.replaceFirst p e store.inner with
      | none =>
          simp only [InMemoryEventStore.replaceWhere_of_none hfound] at h
          exact .inl h
      | some inner =>
          simp only [InMemoryEventStore.replaceWhere_of_some hfound] at h
          exact mem_replaceFirst hfound h

/-- The frame asks for the event to be published. -/
def Publishes (lib : WireLibrary) (f : ClientFrame) (e : Event) : Prop :=
  ∃ text, f = .text text ∧ Demand.ofText lib text = .event e

/-- The event is valid, and it was stored at first or a connection has published it. -/
structure Genuine (lib : WireLibrary) (store : InMemoryEventStore) (moves : List (WireMove ι))
    (e : Event) : Prop where
  valid : e.verify lib.toEventLibrary = .ok ()
  origin : e ∈ store.inner ∨ ∃ i, ∃ f ∈ framesOf i moves, Publishes lib f e

/-- Some of the frames have opened the subscription, not yet closed by them, with a filter that
the event matches. -/
def Subscribed (lib : WireLibrary) (frames : List ClientFrame) (sub : Str) (e : Event) : Prop :=
  ∃ pre, pre <+: frames ∧ ∃ filters, (subscriptionsAfter lib pre).lookup sub = some filters ∧
    ∃ f ∈ filters, f.matches e = true

/-- The events that a connection waits for, ingests and was sent. -/
structure Connection.Authentic (lib : WireLibrary) (P : Event → Prop) (frames : List ClientFrame)
    (c : Connection B) : Prop where
  pending : ∀ e ∈ Broadcast.pending c.live, P e
  ingesting : ∀ e stage, c.ingesting = some (e, stage) → P e
  sent : ∀ sub e, .relay (.event sub e) ∈ c.sent → P e ∧ Subscribed lib frames sub e

variable {P Q : Event → Prop}

omit [Broadcast B Event] in
theorem Subscribed.mono {frames' : List ClientFrame} {sub : Str}
    (h : Subscribed lib frames sub e) (hframes : frames <+: frames') :
    Subscribed lib frames' sub e := by
  obtain ⟨pre, hpre, hfilters⟩ := h
  exact ⟨pre, hpre.trans hframes, hfilters⟩

theorem Connection.Authentic.mono {frames' : List ClientFrame} (h : c.Authentic lib P frames)
    (hP : ∀ e, P e → Q e) (hframes : frames <+: frames') : c.Authentic lib Q frames' where
  pending e he := hP e (h.pending e he)
  ingesting e stage he := hP e (h.ingesting e stage he)
  sent sub e he :=
    have hsent := h.sent sub e he
    ⟨hP e hsent.1, hsent.2.mono hframes⟩

/-- What is sent besides leaves a connection authentic if its events are. -/
theorem Connection.Authentic.send (h : c.Authentic lib P frames) {out : List WireMessage}
    {d : Connection B} (hlive : ∀ e ∈ Broadcast.pending d.live, P e)
    (hingesting : ∀ e stage, d.ingesting = some (e, stage) → P e) (hsent : d.sent = c.sent ++ out)
    (hout : ∀ sub e, .relay (.event sub e) ∈ out → P e ∧ Subscribed lib frames sub e) :
    d.Authentic lib P frames where
  pending := hlive
  ingesting := hingesting
  sent sub e he := by
    rw [hsent] at he
    rcases List.mem_append.mp he with hmem | hmem
    · exact h.sent sub e hmem
    · exact hout sub e hmem

theorem event_notMem_of_controls {out : List WireMessage} (h : ∀ m ∈ out, m.isEvent = false)
    {sub : Str} : WireMessage.relay (.event sub e) ∉ out := by
  intro hmem
  exact Bool.false_ne_true (h _ hmem).symm

theorem Connection.Authentic.handled (h : c.Authentic lib P frames)
    (hfollows : c.Follows lib frames) {r : InMemoryEventStore × Connection B}
    (hr : Handled lib store c f r) (hstore : ∀ x ∈ store.inner, P x) (hP : ∀ e, P e → Q e)
    (hcarried : ∀ e, Publishes lib f e → e.verify lib.toEventLibrary = .ok () → Q e) :
    (∀ x ∈ r.1.inner, Q x) ∧ r.2.Authentic lib Q (frames ++ [f]) := by
  have hmono : c.Authentic lib Q (frames ++ [f]) := h.mono hP (List.prefix_append _ _)
  have hold : ∀ x ∈ store.inner, Q x := fun x hx => hP x (hstore x hx)
  cases hr with
  | told hreply hcontrol hsame =>
      refine ⟨hold, hmono.send hmono.pending hmono.ingesting rfl ?_⟩
      intro sub e hmem
      exact absurd hmem (event_notMem_of_controls hcontrol)
  | @begun text e hf he hvalid hreply hsame =>
      have hgenuine : Q e := hcarried e ⟨text, hf, he⟩ hvalid
      refine ⟨?_, ⟨hmono.pending, ?_, hmono.sent⟩⟩
      · intro x hx
        rcases mem_beginIngest hx with hmem | rfl
        · exact hold x hmem
        · exact hgenuine
      · intro x stage hx
        cases hx
        exact hgenuine
  | @opened sub filters hreply hopens =>
      refine ⟨hold, hmono.send hmono.pending hmono.ingesting rfl ?_⟩
      intro sub' x hmem
      obtain ⟨msg, hmsg, heq⟩ := List.mem_map.mp hmem
      cases heq
      rcases List.mem_append.mp hmsg with hevent | heose
      · obtain ⟨y, hy, heq⟩ := List.mem_map.mp hevent
        cases heq
        obtain ⟨hstored, hmatches⟩ := exists_matches_of_mem_history hy
        refine ⟨hold x hstored, frames ++ [f], List.prefix_rfl, filters, ?_, hmatches⟩
        rw [subscriptionsAfter_concat, ← hfollows.subscriptions, hopens]
        exact AList.lookup_insert _
      · cases List.mem_singleton.mp heose
  | closed hreply hcloses => exact ⟨hold, ⟨hmono.pending, hmono.ingesting, hmono.sent⟩⟩

variable [Broadcast.Lawful B]

theorem mem_pending_send {b : B} {x : Event} (h : x ∈ Broadcast.pending (Broadcast.send b e)) :
    x ∈ Broadcast.pending b ∨ e = x := by
  rcases Nat.lt_or_ge (Broadcast.pending b).length (Broadcast.cap b) with hlt | hle
  · rw [(Broadcast.Lawful.send_of_lt e hlt).1] at h
    rcases List.mem_append.mp h with hmem | hmem
    · exact .inl hmem
    · exact .inr (List.mem_singleton.mp hmem).symm
  · rw [(Broadcast.Lawful.send_of_le e hle).1] at h
    rcases List.mem_append.mp h with hmem | hmem
    · exact .inl (List.mem_of_mem_tail hmem)
    · exact .inr (List.mem_singleton.mp hmem).symm

theorem Connection.Authentic.hear (h : c.Authentic lib P frames) (he : P e) :
    (c.hear e).Authentic lib P frames where
  pending x hx := by
    rcases mem_pending_send hx with hmem | rfl
    · exact h.pending x hmem
    · exact he
  ingesting := h.ingesting
  sent := h.sent

theorem Connection.Authentic.delivered {d : Connection B} (h : c.Authentic lib P frames)
    (hfollows : c.Follows lib frames) (hd : c.deliver = some d) : d.Authentic lib P frames := by
  rw [Connection.deliver] at hd
  split at hd
  · cases hd
  · rename_i n live hrecv
    cases hd
    refine ⟨fun x hx => h.pending x ?_, h.ingesting, h.sent⟩
    rwa [← (Broadcast.recv_eq_error hrecv).2.2.1]
  · rename_i e live hrecv
    cases hd
    have hpending := (Broadcast.recv_eq_ok hrecv).2.2.1
    refine h.send (fun x hx => h.pending x ?_) h.ingesting rfl ?_
    · rw [hpending]
      exact List.mem_cons_of_mem e hx
    · intro sub x hmem
      obtain ⟨msg, hmsg, heq⟩ := List.mem_map.mp hmem
      cases heq
      obtain ⟨rfl, filters, hlookup, hmatches⟩ := exists_matches_of_mem_liveFrames hmsg
      refine ⟨h.pending x (by rw [hpending]; exact List.mem_cons_self), frames, List.prefix_rfl,
        filters, ?_, hmatches⟩
      rw [← hfollows.subscriptions]
      exact hlookup

/-- All the events that the relay holds, and has sent, are genuine. -/
structure RelayServer.Authentic (lib : WireLibrary) (store : InMemoryEventStore)
    (moves : List (WireMove ι)) (s : RelayServer ι B) : Prop where
  stored : ∀ e ∈ s.store.inner, Genuine lib store moves e
  connections : ∀ i c, s.connections i = some c →
    c.Authentic lib (Genuine lib store moves) (framesOf i moves)

omit [Broadcast.Lawful B] [Broadcast B Event] in
theorem framesOf_isPrefix (moves : List (WireMove ι)) (m : WireMove ι) :
    framesOf i moves <+: framesOf i (moves ++ [m]) := by
  rw [framesOf_concat]
  exact List.prefix_append _ _

omit [Broadcast.Lawful B] [Broadcast B Event] in
theorem Genuine.mono {moves : List (WireMove ι)} (h : Genuine lib store moves e)
    (m : WireMove ι) : Genuine lib store (moves ++ [m]) e where
  valid := h.valid
  origin := by
    refine h.origin.imp_right ?_
    rintro ⟨i, f, hf, hpublishes⟩
    exact ⟨i, f, (framesOf_isPrefix moves m).subset hf, hpublishes⟩

omit [Broadcast.Lawful B] in
theorem RelayServer.Authentic.mono {moves : List (WireMove ι)} (h : s.Authentic lib store moves)
    (m : WireMove ι) : s.Authentic lib store (moves ++ [m]) where
  stored e he := (h.stored e he).mono m
  connections i c hc :=
    (h.connections i c hc).mono (fun _ he => he.mono m) (framesOf_isPrefix moves m)

omit [Broadcast.Lawful B] in
/-- A change of the store and one connection. -/
theorem RelayServer.Authentic.set {moves : List (WireMove ι)} (h : s.Authentic lib store moves)
    {now : InMemoryEventStore} (hnow : ∀ e ∈ now.inner, Genuine lib store moves e)
    (hc : c.Authentic lib (Genuine lib store moves) (framesOf i moves)) :
    ({ s with store := now }.set i c).Authentic lib store moves where
  stored := hnow
  connections j d hd := by
    by_cases hj : j = i
    · subst hj
      simp only [RelayServer.set, Function.update_self, Option.some.injEq] at hd
      rw [← hd]
      exact hc
    · simp only [RelayServer.set, Function.update_of_ne hj] at hd
      exact h.connections j d hd

theorem RelayServer.Authentic.announce {moves : List (WireMove ι)}
    (h : s.Authentic lib store moves) (he : Genuine lib store moves e) :
    (s.announce e).Authentic lib store moves where
  stored := h.stored
  connections j d hd := by
    obtain ⟨d', hd', rfl⟩ := Option.map_eq_some_iff.mp hd
    exact (h.connections j d' hd').hear he

theorem RelayServer.Authentic.moved {moves : List (WireMove ι)} (h : s.Authentic lib store moves)
    (hfollows : s.Follows lib moves) (hm : WireMoved lib capacity s m t) :
    t.Authentic lib store (moves ++ [m]) := by
  have hmono := h.mono m
  cases hm with
  | @connected i hnone =>
      refine hmono.set hmono.stored ⟨?_, ?_, ?_⟩
      · intro e he
        rw [Connection.new, Broadcast.Lawful.pending_subscribe] at he
        cases he
      · intro e stage he
        cases he
      · intro sub e he
        cases he
  | @framed i c hc hready f =>
      have hown : framesOf i (moves ++ [.frame i f]) = framesOf i moves ++ [f] := by
        rw [framesOf_concat, WireMove.frameOf, if_pos rfl]
        rfl
      obtain ⟨hstored, hconnection⟩ := (h.connections i c hc).handled (hfollows.some hc)
        (handled_handleFrame s.store c f) h.stored (fun _ he => he.mono (.frame i f))
        (fun e hpublishes hvalid => ⟨hvalid, .inr ⟨i, f, by rw [hown]; simp, hpublishes⟩⟩)
      refine hmono.set hstored ?_
      rw [hown]
      exact hconnection
  | @put i c e hc hstage =>
      have hauthentic := hmono.connections i c hc
      have hgenuine := hauthentic.ingesting e _ hstage
      refine hmono.set ?_ ⟨hauthentic.pending, ?_, hauthentic.sent⟩
      · intro x hx
        rcases mem_put hx with hmem | rfl
        · exact hmono.stored x hmem
        · exact hgenuine
      · intro x stage hx
        cases hx
        exact hgenuine
  | @announced i c e hc hstage =>
      have hauthentic := hmono.connections i c hc
      have hgenuine := hauthentic.ingesting e _ hstage
      refine RelayServer.Authentic.announce ?_ hgenuine
      refine hmono.set hmono.stored (hauthentic.send hauthentic.pending ?_ rfl ?_)
      · intro x stage hx
        cases hx
      · intro sub x hx
        cases List.mem_singleton.mp hx
  | @delivered i c d hc hready hdeliver =>
      refine hmono.set hmono.stored ((hmono.connections i c hc).delivered ?_ hdeliver)
      rw [framesOf_of_ne (by simp)]
      exact hfollows.some hc
  | @hungUp i c hc =>
      have hauthentic := hmono.connections i c hc
      exact hmono.set hmono.stored ⟨hauthentic.pending, hauthentic.ingesting, hauthentic.sent⟩

/-- Every event that any connection is sent, out of the store or live, is valid, was stored at first
or published by some connection, and matches a filter of its subscription, which the connection
itself had opened. -/
theorem authentic_of_run (lib : WireLibrary) (capacity : ℕ+) (store : InMemoryEventStore)
    (hstore : ∀ e ∈ store.inner, e.verify lib.toEventLibrary = .ok ()) {moves : List (WireMove ι)}
    (hrun : Schedule.run (serverStep (B := B) lib capacity) (.boot store) moves = some s)
    (hc : s.connections i = some c) {sub : Str} (hsent : .relay (.event sub e) ∈ c.sent) :
    Genuine lib store moves e ∧ Subscribed lib (framesOf i moves) sub e := by
  have hstart : (RelayServer.boot store : RelayServer ι B).Follows lib [] ∧
      (RelayServer.boot store : RelayServer ι B).Authentic lib store [] := by
    refine ⟨fun _ => rfl, fun e he => ⟨hstore e he, .inl he⟩, ?_⟩
    intro i c hc
    cases hc
  have hend : s.Follows lib moves ∧ s.Authentic lib store moves :=
    Schedule.induct (P := fun moves s => s.Follows lib moves ∧ s.Authentic lib store moves)
      (G := fun _ _ => True) hrun hstart (fun _ _ _ _ _ _ => trivial)
      fun _ _ _ _ hu _ hstep =>
        have hm := wireMoved_of_serverStep hstep
        ⟨hu.1.moved hm, hu.2.moved hu.1 hm⟩
  exact (hend.2.connections i c hc).sent sub e hsent

end Server

/-! ## A subscriber and a stored note -/

/-- The text of `allReq`. -/
def allReqText : Str := "[\"REQ\",\"all\",\x7b\x7d]"

def zeroWire : WireLibrary where
  toEventLibrary := zeroLibrary
  jsonFromStr text :=
    if text = allReqText then .ok (.array allReq) else .error "expected value at line 1 column 1"
  eventError _ := "missing field"

/-- One note is stored. -/
def noteStore : InMemoryEventStore := ⟨[zeroNote '0'], 10⟩

def subscriberMoves : List (WireMove Unit) :=
  [.connect (), .frame () (.text allReqText), .frame () .binary]

/-- The subscriber after its frames. -/
def subscriber : Connection (ListReceiver Event) where
  isOpen := true
  subscriptions := AList.insert "all" [⟨none, none, none, none, none, none, []⟩] ∅
  live := Broadcast.subscribe 256
  ingesting := none
  sent := [.relay (.event "all" (zeroNote '0')), .relay (.eose "all"),
    notice "binary frames not accepted"]

theorem run_subscriberMoves : ∃ s, Schedule.run (serverStep (B := ListReceiver Event) zeroWire 256)
    (.boot noteStore) subscriberMoves = some s ∧ s.connections () = some subscriber :=
  ⟨_, rfl, rfl⟩

/-- The subscriber is told of the end of the stored events, and that its binary frame is not
accepted. -/
theorem follows_of_run_subscriber :
    subscriber.Follows zeroWire (framesOf () subscriberMoves) := by
  obtain ⟨s, hrun, hc⟩ := run_subscriberMoves
  exact follows_of_run zeroWire 256 noteStore hrun hc

/-- The note that the subscriber is sent is the stored one. -/
theorem authentic_of_run_subscriber : Genuine zeroWire noteStore subscriberMoves (zeroNote '0') ∧
    Subscribed zeroWire (framesOf () subscriberMoves) "all" (zeroNote '0') := by
  obtain ⟨s, hrun, hc⟩ := run_subscriberMoves
  refine authentic_of_run zeroWire 256 noteStore ?_ hrun hc List.mem_cons_self
  intro e he
  rw [List.mem_singleton.mp he]
  rfl

end Nostr

end SolidPod
