import Docker.Lib.Transition

/-!
# The events of the daemon

`daemon/events/events.go` with the publisher of `pkg/pubsub`. `Log` appends an event to the retained
ones in one critical section and publishes it in another one; `SubscribeTopic` copies the retained
events and registers in a single one.

An event is kept with the number of the call of `Log` that made it. Which sends on the channels of
the subscribers time out is part of the label of a step. Times are nanoseconds since 1970, and
`none` is the zero time.
-/

namespace Docker.Events

open List Bool Transition

structure Actor where
  id : String
  attributes : List (String × String)
  deriving DecidableEq

structure Message where
  status : String := ""
  id : String := ""
  from_ : String := ""
  type : String
  action : String
  actor : Actor
  time : Int
  timeNano : Int
  deriving DecidableEq

def containerEventType : String := "container"
def imageEventType : String := "image"

/-- The message that `Log` makes at the time `now`, with the deprecated fields of containers and
images. -/
def newMessage (now : Int) (action eventType : String) (actor : Actor) : Message :=
  let jm : Message :=
    { action := action, type := eventType, actor := actor,
      time := now / 1000000000, timeNano := now }
  if eventType = containerEventType then
    { jm with id := actor.id, status := action, from_ := (actor.attributes.lookup "image").getD "" }
  else if eventType = imageEventType then { jm with id := actor.id, status := action }
  else jm

structure Event where
  /-- The call of `Log`. -/
  call : Nat
  message : Message
  deriving DecidableEq

/-- A topic can be nil, and then everything is sent. -/
abbrev Topic := Option (Message → Bool)

def Topic.accepts (topic : Topic) (m : Message) : Bool :=
  match topic with
  | some f => f m
  | none => true

def eventsLimit : Nat := 64

/-- The critical section of `Log`, which discards the oldest event if the slice is full. -/
def push (events : List Event) (jm : Event) : List Event :=
  if events.length = eventsLimit then events.tail ++ [jm] else events ++ [jm]

/-- The loop of `loadBufferedEvents`, from the newest event to the oldest. -/
def loadLoop (sinceNanoUnix untilNanoUnix : Int) (topic : Topic) :
    List Event → List Event → List Event
  | [], buffered => buffered
  | ev :: events, buffered =>
    if ev.message.timeNano < sinceNanoUnix then buffered
    else if untilNanoUnix > 0 ∧ ev.message.timeNano > untilNanoUnix then
      loadLoop sinceNanoUnix untilNanoUnix topic events buffered
    else if topic.accepts ev.message then
      loadLoop sinceNanoUnix untilNanoUnix topic events (ev :: buffered)
    else loadLoop sinceNanoUnix untilNanoUnix topic events buffered

def loadBufferedEvents (events : List Event) (since until_ : Option Int) (topic : Topic) :
    List Event :=
  if since = none ∧ until_ = none then []
  else loadLoop (since.getD 0) (until_.getD 0) topic events.reverse []

/-! ## Concurrent calls -/

inductive Stage where
  | created
  | appended
  | published
  deriving DecidableEq

abbrev Logs := List (Message × Stage)

structure Subscription where
  since : Option Int
  until_ : Option Int
  topic : Topic
  /-- What `SubscribeTopic` returned. -/
  buffered : List Event
  /-- What was sent on the channel. -/
  channel : List Event := []
  /-- Not evicted. -/
  registered : Bool := true
  /-- The retained events and the calls of `Log` when it subscribed. -/
  retained : List Event
  logs : Logs
  /-- The events that were published while it was registered. -/
  published : List Event := []

structure State where
  events : List Event := []
  logs : Logs := []
  subs : List Subscription := []

inductive Label where
  | log (now : Int) (action eventType : String) (actor : Actor)
  | append (call : Nat)
  /-- The send to some subscribers times out. -/
  | publish (call : Nat) (timedOut : List Nat)
  | subscribeTopic (since until_ : Option Int) (topic : Topic)
  | evict (sub : Nat)

/-- `Publisher.sendTopic` for a subscriber that is registered. -/
def Subscription.sendTopic (sub : Subscription) (timedOut : Bool) (ev : Event) : Subscription :=
  if sub.registered then
    { sub with
      channel := if sub.topic.accepts ev.message && !timedOut then sub.channel ++
        [ev] else sub.channel
      published := sub.published ++ [ev] }
  else sub

def step : Label → State → Option State
  | .log now action eventType actor, s =>
    some { s with logs := s.logs ++ [(newMessage now action eventType actor, .created)] }
  | .append c, s =>
    match s.logs[c]? with
    | some (jm, .created) =>
      some { s with events := push s.events ⟨c, jm⟩, logs := s.logs.set c (jm, .appended) }
    | _ => none
  | .publish c timedOut, s =>
    match s.logs[c]? with
    | some (jm, .appended) =>
      some { s with
        logs := s.logs.set c (jm, .published)
        subs := s.subs.mapIdx fun k sub => sub.sendTopic (timedOut.contains k) ⟨c, jm⟩ }
    | _ => none
  | .subscribeTopic since until_ topic, s =>
    some { s with subs := s.subs ++ [{
      since := since, until_ := until_, topic := topic
      buffered := loadBufferedEvents s.events since until_ topic
      retained := s.events, logs := s.logs }] }
  | .evict k, s =>
    match s.subs[k]? with
    | some sub =>
      if sub.registered then some { s with subs := s.subs.set k { sub with registered := false } }
        else none
    | none => none

def hasRoom (_ : State) : Label → Bool
  | .publish _ timedOut => timedOut.isEmpty
  | _ => true

/-! ## What a subscriber is to get -/

def wanted (since : Int) (topic : Topic) (ev : Event) : Bool :=
  since ≤ ev.message.timeNano && topic.accepts ev.message

/-- The event was retained when the subscriber came, or appended later and published before it was
evicted. -/
def Subscription.Due (sub : Subscription) (ev : Event) : Prop :=
  ev ∈ sub.retained ∨ ((∀ jm stage, sub.logs[ev.call]? = some (jm, stage) → stage = .created) ∧
    ev ∈ sub.published)

/-- No event that is wanted is behind the first one before `since`, from the newest to the
oldest. -/
def ordered (since : Int) (topic : Topic) : List Event → Bool
  | [] => true
  | ev :: events =>
    if ev.message.timeNano < since then events.all fun ev =>
      !wanted since topic ev else ordered since topic events

/-- A subscriber with a past comes when the retained events it wants are published and in the order
of their times. -/
def settled (s : State) : Label → Bool
  | .subscribeTopic (some since) none topic =>
    ordered since topic s.events.reverse &&
      s.events.all fun ev => !wanted since topic ev || s.logs[ev.call]? =
        some (ev.message, .published)
  | _ => true

/-- The event passes the tests that follow the one for `since`. -/
def picked (untilNanoUnix : Int) (topic : Topic) (ev : Event) : Bool :=
  ¬ (untilNanoUnix > 0 ∧ ev.message.timeNano > untilNanoUnix) && topic.accepts ev.message

variable {events : List Event} {topic : Topic} {since : Int}

/-- The loop picks from the events that are newer than the first one before `since`. -/
theorem loadLoop_eq (buffered : List Event) : loadLoop since until_ topic events buffered =
      ((events.takeWhile fun ev => since ≤ ev.message.timeNano).filter
        (picked until_ topic)).reverse ++ buffered := by
  induction events generalizing buffered with
  | nil => rfl
  | cons ev events ih =>
    rw [loadLoop]
    by_cases hold : ev.message.timeNano < since
    · simp [hold]
    · rw [if_neg hold, takeWhile_cons_of_pos (by simpa using hold)]
      by_cases huntil : until_ > 0 ∧ ev.message.timeNano > until_
      · rw [if_pos huntil, ih, filter_cons_of_neg (by simp [picked, huntil])]
      · rw [if_neg huntil]
        cases hacc : topic.accepts ev.message with
        | true =>
          rw [if_pos rfl, ih, filter_cons_of_pos (by simp [picked, hacc]; omega)]
          simp
        | false => rw [if_neg nofun, ih, filter_cons_of_neg (by simp [picked, hacc])]

theorem filter_takeWhile_of_ordered (h : ordered since topic events = true) :
    (events.takeWhile fun ev => since ≤ ev.message.timeNano).filter (picked 0 topic) =
      events.filter (wanted since topic) := by
  induction events with
  | nil => rfl
  | cons ev events ih =>
    rw [ordered] at h
    by_cases hold : ev.message.timeNano < since
    · -- the loop breaks, and nothing older is wanted
      rw [if_pos hold] at h
      have hnil : events.filter (wanted since topic) = [] :=
        filter_eq_nil_iff.2 fun ev' hev' hw => by simpa [hw] using all_eq_true.1 h ev' hev'
      have hev : wanted since topic ev = false := by simp [wanted, hold]
      simp [hev, hold, hnil]
    · rw [if_neg hold] at h
      have hev : wanted since topic ev = picked 0 topic ev := by
        simp [wanted, picked, Int.not_lt.1 hold]
      rw [takeWhile_cons_of_pos (by simpa using hold), filter_cons, filter_cons, ih h, hev]

theorem loadBufferedEvents_eq (h : ordered since topic events.reverse = true) :
    loadBufferedEvents events (some since) none topic = events.filter (wanted since topic) := by
  rw [loadBufferedEvents, if_neg (fun h => by cases h.1), loadLoop_eq, append_nil]
  refine (congrArg reverse (filter_takeWhile_of_ordered h)).trans ?_
  rw [filter_reverse, reverse_reverse]

/-! ## One subscriber -/

/-- What is known of a subscriber that came when the events were settled. -/
structure Subscription.Sound (logs : Logs) (sub : Subscription) : Prop where
  retained_nodup : sub.retained.Nodup
  retained : ∀ ev ∈ sub.retained, ∃ stage, sub.logs[ev.call]? = some (ev.message, stage) ∧
    stage ≠ .created
  published_nodup : sub.published.Nodup
  published : ∀ ev ∈ sub.published, logs[ev.call]? = some (ev.message, .published)
  channel : sub.channel = sub.published.filter fun ev => sub.topic.accepts ev.message
  buffered : ∀ since, sub.since = some since → sub.until_ = none →
    sub.buffered = sub.retained.filter (wanted since sub.topic)
  disjoint : ∀ since, sub.since = some since → sub.until_ = none → ∀ ev ∈ sub.retained,
    wanted since sub.topic ev = true → logs[ev.call]? = some (ev.message, .published) ∧
      ev ∉ sub.published

namespace Subscription.Sound

variable {logs logs' : Logs} {sub : Subscription} {ev : Event}

theorem mono (h : sub.Sound logs)
    (hlogs : ∀ (c : Nat) (jm : Message), logs[c]? = some (jm, .published) →
      logs'[c]? = some (jm, .published)) :
    sub.Sound logs' where
  __ := h
  published ev hev := hlogs _ _ (h.published ev hev)
  disjoint since hsince huntil ev hev hw := by
    obtain ⟨hpub, hnot⟩ := h.disjoint since hsince huntil ev hev hw
    exact ⟨hlogs _ _ hpub, hnot⟩

theorem sendTopic (h : sub.Sound logs) (hold : ∀ jm, logs[ev.call]? ≠ some (jm, .published))
    (hnew : logs'[ev.call]? = some (ev.message, .published))
    (hlogs : ∀ (c : Nat) (jm : Message), logs[c]? = some (jm, .published) →
      logs'[c]? = some (jm, .published)) :
    (sub.sendTopic false ev).Sound logs' := by
  have hnot : ev ∉ sub.published := fun hev => hold _ (h.published ev hev)
  unfold Subscription.sendTopic
  split
  · exact {
      retained_nodup := h.retained_nodup
      retained := h.retained
      published_nodup := by
        have hnodup := h.published_nodup.concat hnot
        rwa [concat_eq_append] at hnodup
      published := by
        intro ev' hev'
        obtain hev' | hev' := mem_append.1 hev'
        · exact hlogs _ _ (h.published ev' hev')
        · rw [mem_singleton.1 hev']
          exact hnew
      channel := by
        rw [filter_append, ← h.channel]
        cases hacc : sub.topic.accepts ev.message <;> simp [hacc]
      buffered := h.buffered
      disjoint := by
        intro since hsince huntil ev' hev' hw
        obtain ⟨hpub, hnot'⟩ := h.disjoint since hsince huntil ev' hev' hw
        refine ⟨hlogs _ _ hpub, fun hmem => ?_⟩
        obtain hmem | hmem := mem_append.1 hmem
        · exact hnot' hmem
        · rw [mem_singleton.1 hmem] at hpub
          exact hold _ hpub }
  · exact h.mono hlogs

end Subscription.Sound

/-! ## Every subscriber -/

structure Inv (s : State) : Prop where
  nodup : (s.events.map Event.call).Nodup
  events : ∀ ev ∈ s.events, ∃ stage, s.logs[ev.call]? = some (ev.message, stage) ∧ stage ≠ .created
  subs : ∀ sub ∈ s.subs, sub.Sound s.logs

namespace Inv

variable {s s' : State} {l : Label} {c : Nat}

theorem init : Inv {} where
  nodup := nodup_nil
  events := nofun
  subs := nofun

theorem log (hinv : Inv s) (jm : Message) : Inv { s with logs := s.logs ++ [(jm, .created)] } := by
  have hkeep : ∀ {c : Nat} {x : Message × Stage}, s.logs[c]? = some x →
      (s.logs ++ [(jm, .created)])[c]? = some x := by
    intro c x hx
    rw [List.getElem?_append_left (List.getElem?_eq_some_iff.1 hx).1, hx]
  exact {
    nodup := hinv.nodup
    events := by
      intro ev hev
      obtain ⟨stage, hstage, hne⟩ := hinv.events ev hev
      exact ⟨stage, hkeep hstage, hne⟩
    subs := fun sub hsub => (hinv.subs sub hsub).mono fun c jm' h => hkeep h }

theorem mem_push {jm ev : Event} (h : ev ∈ push events jm) : ev ∈ events ∨ ev = jm := by
  unfold push at h
  split at h
  · obtain h | h := mem_append.1 h
    · exact .inl (mem_of_mem_tail h)
    · exact .inr (mem_singleton.1 h)
  · obtain h | h := mem_append.1 h
    · exact .inl h
    · exact .inr (mem_singleton.1 h)

theorem push_sublist (events : List Event) (jm : Event) :
    (push events jm).Sublist (events ++ [jm]) := by
  unfold push
  split
  · exact (tail_sublist events).append_right [jm]
  · exact .refl _

/-- A stage that goes on from `created` or `appended` leaves what is published. -/
theorem set_published (hc : s.logs[c]? = some (jm, stage)) (hne : stage ≠ .published) {c' : Nat}
    (h : s.logs[c']? = some (jm', .published)) :
    (s.logs.set c (jm, stage'))[c']? = some (jm', .published) := by
  have hcc : c ≠ c' := by
    rintro rfl
    cases hc.symm.trans h
    exact hne rfl
  rw [getElem?_set_ne hcc, h]

theorem set_events (hinv : Inv s) (hc : s.logs[c]? = some (jm, stage)) (hne : stage' ≠ .created)
    (hev : ev ∈ s.events) :
    ∃ stage'', (s.logs.set c (jm, stage'))[ev.call]? = some (ev.message, stage'') ∧
      stage'' ≠ .created := by
  obtain ⟨stage'', hstage, hne'⟩ := hinv.events ev hev
  by_cases hcc : ev.call = c
  · subst hcc
    rw [List.getElem?_set_self (List.getElem?_eq_some_iff.1 hc).1]
    cases hc.symm.trans hstage
    exact ⟨stage', rfl, hne⟩
  · rw [getElem?_set_ne (Ne.symm hcc)]
    exact ⟨stage'', hstage, hne'⟩

theorem append (hinv : Inv s) (hc : s.logs[c]? = some (jm, .created)) :
    Inv { s with events := push s.events ⟨c, jm⟩, logs := s.logs.set c (jm, .appended) } where
  nodup := by
    have hnot : c ∉ s.events.map Event.call := by
      intro hmem
      obtain ⟨ev, hev, rfl⟩ := mem_map.1 hmem
      obtain ⟨stage, hstage, hne⟩ := hinv.events ev hev
      cases hc.symm.trans hstage
      exact hne rfl
    refine ((push_sublist s.events ⟨c, jm⟩).map Event.call).nodup ?_
    rw [map_append, map_singleton, ← concat_eq_append]
    exact hinv.nodup.concat hnot
  events ev hev := by
    obtain hev | rfl := mem_push hev
    · exact hinv.set_events hc (by decide) hev
    · exact ⟨.appended, List.getElem?_set_self (List.getElem?_eq_some_iff.1 hc).1, nofun⟩
  subs sub hsub := (hinv.subs sub hsub).mono fun c' jm' h => set_published hc nofun h

theorem publish (hinv : Inv s) (hc : s.logs[c]? = some (jm, .appended)) : Inv { s with
      logs := s.logs.set c (jm, .published)
      subs := s.subs.mapIdx fun k sub => sub.sendTopic (([] : List Nat).contains k) ⟨c, jm⟩ } where
  nodup := hinv.nodup
  events ev hev := hinv.set_events hc (by decide) hev
  subs sub hsub := by
    obtain ⟨k, hk, rfl⟩ := mem_mapIdx.1 hsub
    refine (hinv.subs _ (getElem_mem hk)).sendTopic (fun jm' h => ?_) ?_ fun c' jm' h =>
      set_published hc nofun h
    · cases hc.symm.trans h
    · exact List.getElem?_set_self (List.getElem?_eq_some_iff.1 hc).1

theorem subscribeTopic (hinv : Inv s) {since until_ : Option Int}
    (hset : settled s (.subscribeTopic since until_ topic) = true) :
    Inv { s with subs := s.subs ++ [{
      since := since, until_ := until_, topic := topic
      buffered := loadBufferedEvents s.events since until_ topic
      retained := s.events, logs := s.logs }] } where
  __ := hinv
  subs sub hsub := by
    obtain hsub | hsub := mem_append.1 hsub
    · exact hinv.subs sub hsub
    · rw [mem_singleton.1 hsub]
      exact {
        retained_nodup := hinv.nodup.of_map
        retained := hinv.events
        published_nodup := nodup_nil
        published := nofun
        channel := rfl
        buffered := by
          rintro t rfl rfl
          exact loadBufferedEvents_eq (and_eq_true_iff.1 hset).1
        disjoint := by
          rintro t rfl rfl ev hev hw
          have hall := all_eq_true.1 (and_eq_true_iff.1 hset).2 ev hev
          rw [hw] at hall
          exact ⟨of_decide_eq_true hall, nofun⟩ }

theorem evict (hinv : Inv s) {k : Nat} {sub : Subscription} (hk : s.subs[k]? = some sub) :
    Inv { s with subs := s.subs.set k { sub with registered := false } } where
  __ := hinv
  subs sub' hsub' := by
    obtain hmem | rfl := mem_or_eq_of_mem_set hsub'
    · exact hinv.subs sub' hmem
    · have h := hinv.subs sub (mem_of_getElem? hk)
      exact {
        retained_nodup := h.retained_nodup
        retained := h.retained
        published_nodup := h.published_nodup
        published := h.published
        channel := h.channel
        buffered := h.buffered
        disjoint := h.disjoint }

protected theorem step (hinv : Inv s) (hroom : hasRoom s l = true) (hset : settled s l = true)
    (hstep : step l s = some s') :
    Inv s' := by
  cases l with
  | log now action eventType actor =>
    cases hstep
    exact hinv.log _
  | append c =>
    simp only [step] at hstep
    split at hstep
    · next jm hc =>
      cases hstep
      exact hinv.append hc
    · cases hstep
  | publish c timedOut =>
    cases isEmpty_iff.1 hroom
    simp only [step] at hstep
    split at hstep
    · next jm hc =>
      cases hstep
      exact hinv.publish hc
    · cases hstep
  | subscribeTopic since until_ topic =>
    cases hstep
    exact hinv.subscribeTopic hset
  | evict k =>
    simp only [step] at hstep
    split at hstep
    · next sub hk =>
      split at hstep
      · cases hstep
        exact hinv.evict hk
      · cases hstep
    · cases hstep

end Inv

def started (now : Int) : Message := newMessage now "start" containerEventType ⟨"web", []⟩

def selected (since until_ : Option Int) (topic : Topic) (ev : Event) : Bool :=
  since.all (· ≤ ev.message.timeNano) && until_.all (ev.message.timeNano ≤ ·) &&
    topic.accepts ev.message

/-- Events are appended in the order of their times, and all times are after 1970. -/
def inOrder (s : State) : Label → Bool
  | .log now _ _ _ => 0 ≤ now
  | .append c => s.logs[c]?.all fun x => s.events.all fun ev => ev.message.timeNano ≤ x.1.timeNano
  | .subscribeTopic _ until_ _ => until_.all (0 < ·)
  | _ => true

theorem takeWhile_eq_filter (h : events.Pairwise fun a b =>
      b.message.timeNano ≤ a.message.timeNano) :
    (events.takeWhile fun ev => since ≤ ev.message.timeNano) = events.filter fun ev =>
      since ≤ ev.message.timeNano := by
  induction events with
  | nil => rfl
  | cons ev events ih =>
    obtain ⟨hev, h⟩ := pairwise_cons.1 h
    by_cases hnew : since ≤ ev.message.timeNano
    · simp [hnew, ih h]
    · have hnil : (events.filter fun ev => decide (since ≤ ev.message.timeNano)) = [] :=
        filter_eq_nil_iff.2 fun ev' hev' => by
          have := hev ev' hev'
          simp only [decide_eq_true_eq]
          omega
      simp [hnew, hnil]

theorem loadBufferedEvents_of_ordered {since until_ : Option Int}
    (h : events.Pairwise fun a b => a.message.timeNano ≤ b.message.timeNano)
    (hnew : ∀ ev ∈ events, 0 ≤ ev.message.timeNano) (huntil : until_.all (0 < ·) = true)
    (hset : since ≠ none ∨ until_ ≠ none) :
    loadBufferedEvents events since until_ topic = events.filter (selected since until_ topic) := by
  rw [loadBufferedEvents, if_neg (fun h => hset.elim (· h.1) (· h.2)), loadLoop_eq, List.append_nil,
    takeWhile_eq_filter (List.pairwise_reverse.2 h), List.filter_filter, List.filter_reverse,
      List.reverse_reverse]
  refine List.filter_congr fun ev hev => ?_
  cases since <;> cases until_ <;> simp_all [selected, picked, Bool.and_assoc, Bool.and_comm]

theorem sendTopic_kept (sub : Subscription) (timedOut : Bool) (ev : Event) :
    (sub.sendTopic timedOut ev).since = sub.since ∧
    (sub.sendTopic timedOut ev).until_ = sub.until_ ∧
      (sub.sendTopic timedOut ev).topic = sub.topic ∧ (sub.sendTopic timedOut ev).buffered =
        sub.buffered ∧
        (sub.sendTopic timedOut ev).retained = sub.retained := by
  unfold Subscription.sendTopic
  split <;> simp

structure Timely (s : State) : Prop where
  ordered : s.events.Pairwise fun a b => a.message.timeNano ≤ b.message.timeNano
  events : ∀ ev ∈ s.events, 0 ≤ ev.message.timeNano
  logs : ∀ x ∈ s.logs, 0 ≤ x.1.timeNano
  subs : ∀ sub ∈ s.subs, sub.since ≠ none ∨ sub.until_ ≠ none →
    sub.buffered = sub.retained.filter (selected sub.since sub.until_ sub.topic)

theorem timeNano_newMessage (now : Int) (action eventType : String) (actor : Actor) :
    (newMessage now action eventType actor).timeNano = now := by
  unfold newMessage
  split
  · rfl
  · split <;> rfl

protected theorem Timely.step (h : Timely s) (hok : inOrder s l = true)
    (hstep : step l s = some s') : Timely s' := by
  cases l with
  | log now action eventType actor =>
    cases hstep
    refine ⟨h.ordered, h.events, fun x hx => ?_, h.subs⟩
    rcases mem_append.1 hx with hx | hx
    · exact h.logs x hx
    · rw [mem_singleton.1 hx, timeNano_newMessage]
      exact of_decide_eq_true hok
  | append c =>
    simp only [step] at hstep
    split at hstep
    · next jm hc =>
      cases hstep
      have hall : ∀ ev ∈ s.events, ev.message.timeNano ≤ jm.timeNano := by
        simpa [inOrder, hc] using hok
      have hjm : 0 ≤ jm.timeNano := h.logs _ (mem_of_getElem? hc)
      refine ⟨?_, fun ev hev => ?_, fun x hx => ?_, h.subs⟩
      · refine Pairwise.sublist (Inv.push_sublist s.events ⟨c, jm⟩) ?_
        simpa [pairwise_append] using ⟨h.ordered, hall⟩
      · rcases Inv.mem_push hev with hev | rfl
        · exact h.events ev hev
        · exact hjm
      · rcases mem_or_eq_of_mem_set hx with hx | rfl
        · exact h.logs x hx
        · exact hjm
    · cases hstep
  | publish c timedOut =>
    simp only [step] at hstep
    split at hstep
    · next jm hc =>
      cases hstep
      have hjm : 0 ≤ jm.timeNano := h.logs _ (mem_of_getElem? hc)
      refine ⟨h.ordered, h.events, fun x hx => ?_, fun sub hsub => ?_⟩
      · rcases mem_or_eq_of_mem_set hx with hx | rfl
        · exact h.logs x hx
        · exact hjm
      · obtain ⟨k, hk, rfl⟩ := mem_mapIdx.1 hsub
        obtain ⟨hsince, huntil, htopic, hbuffered, hretained⟩ :=
          sendTopic_kept s.subs[k] (timedOut.contains k) ⟨c, jm⟩
        rw [hsince, huntil, htopic, hbuffered, hretained]
        exact h.subs _ (getElem_mem hk)
    · cases hstep
  | subscribeTopic since until_ topic =>
    cases hstep
    refine ⟨h.ordered, h.events, h.logs, fun sub hsub hset => ?_⟩
    rcases mem_append.1 hsub with hsub | hsub
    · exact h.subs sub hsub hset
    · cases mem_singleton.1 hsub
      exact loadBufferedEvents_of_ordered h.ordered h.events hok hset
  | evict k =>
    simp only [step] at hstep
    split at hstep
    · next sub hk =>
      split at hstep
      · cases hstep
        refine ⟨h.ordered, h.events, h.logs, fun sub' hsub' => ?_⟩
        rcases mem_or_eq_of_mem_set hsub' with hsub' | rfl
        · exact h.subs sub' hsub'
        · exact h.subs sub (mem_of_getElem? hk)
      · cases hstep
    · cases hstep

end Docker.Events
