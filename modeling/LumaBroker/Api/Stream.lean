import LumaBroker.Api.Hub
import LumaBroker.Cluster.Partition
import LumaBroker.Lib.Feed

/-!
The stream of messages to the WebSocket clients of internal/api/server.go. The goroutine
ingestRedisMessages reads the channel of the cluster, and for each message Broadcast takes the
clients out of the registry and offers the event to their channels one after another; a
client's own commands are answered over the same channel. Clients come and go at any point of
a broadcast, in which case the order of the registry's map is any.
-/

namespace LumaBroker.Api.Stream

open Channel Cluster Transition

/-- What Broadcast is given of a message, without the time. -/
structure StreamEvent where
  topic : GoString
  payload : List UInt8
  qos : UInt8
  retain : Bool
  deriving DecidableEq

def eventOf (m : ClusterMsg) : StreamEvent := ⟨m.topic, m.payload, m.qos, m.retain⟩

/-- The text frames of a client: the event of a numbered message, or an answer of
handleWSCommand. -/
inductive Frame where
  | message (k : Nat) (event : StreamEvent)
  | answer (data : GoString)
  deriving DecidableEq

def Frame.event : Frame → Option (Nat × StreamEvent)
  | .message k event => some (k, event)
  | .answer _ => none

def messages (frames : List Frame) : List (Nat × StreamEvent) := frames.filterMap Frame.event

/-- The channel of a wsClient and its write pump. The pump ends with the frame that it could
not write. -/
structure Client where
  /-- How many messages had been broadcast, or were being so, when the client was added. -/
  since : Nat
  send : Chan Frame
  hand : Option Frame
  ended : Bool
  frames : List Frame
  traffic : Traffic Frame

/-- The goroutine ingestRedisMessages, with the clients that a call of Broadcast has still to
offer its event to. -/
structure Ingest where
  feed : Feed (Nat × ClusterMsg)
  cast : Option (List GoString)

structure State where
  channel : List (Nat × ClusterMsg)
  ingest : Ingest
  hub : WSHub
  clients : GoString → Option Client

inductive Action where
  | publish (msg : ClusterMsg)
  | deliver
  | lose
  | take
  | snapshot (order : List GoString)
  | offer
  | finish
  | add (id : GoString)
  | remove (id : GoString)
  | answer (id : GoString) (data : GoString)
  | poll (id : GoString)
  | write (id : GoString)
  | writeError (id : GoString)

namespace Client

def offer (f : Frame) (c : Client) : Client :=
  { c with send := c.send.trySend f, traffic := c.traffic.offer f c.send }

def poll (c : Client) : Option Client :=
  match c.hand, c.send.buf with
  | none, f :: _ =>
      some { c with send := c.send.take, hand := some f, traffic := c.traffic.receive f }
  | _, _ => none

def write (c : Client) : Option Client :=
  match c.hand with
  | some f => if c.ended then none else some { c with hand := none, frames := c.frames ++ [f] }
  | none => none

def writeError (c : Client) : Option Client :=
  if c.hand.isSome then some { c with ended := true } else none

end Client

def newClient (g : Ingest) : Client where
  since := g.feed.handled.length + if g.cast.isSome then 1 else 0
  send := Chan.make 256
  hand := none
  ended := false
  frames := []
  traffic := Traffic.none

/-- A subscription of SubscribeWS, which is SubscribeCluster. -/
def start : State where
  channel := []
  ingest := ⟨Feed.subscribe 512 0, none⟩
  hub := WSHub.new
  clients _ := none

namespace State

def setClient (id : GoString) (c : Client) (s : State) : State :=
  { s with clients := Function.update s.clients id (some c) }

def setFeed (s : State) (f : Feed (Nat × ClusterMsg)) : State :=
  { s with ingest := { s.ingest with feed := f } }

def setCast (cast : Option (List GoString)) (s : State) : State :=
  { s with ingest := { s.ingest with cast := cast } }

end State

section Steps
variable (read : ClusterMsg → Option ClusterMsg) (s : State)

def snapshot (order : List GoString) : Option State :=
  if s.ingest.feed.hand.isSome ∧ s.ingest.cast = none ∧ order.Perm s.hub.clients.keys then
    some (s.setCast (some order))
  else none

/-- The select of Broadcast for the next client. -/
def offer : Option State :=
  match s.ingest.feed.hand, s.ingest.cast with
  | some e, some (id :: rest) =>
      (s.clients id).map fun c =>
        (s.setCast (some rest)).setClient id (c.offer (.message e.1 (eventOf e.2)))
  | _, _ => none

def finish : Option State :=
  match s.ingest.feed.hand, s.ingest.cast with
  | some e, some [] => some { s with ingest := ⟨s.ingest.feed.finish e, none⟩ }
  | _, _ => none

def step : Action → Option State
  | .publish msg => some { s with channel := s.channel ++ [(s.channel.length, msg)] }
  | .deliver => (s.ingest.feed.deliver (Feed.readNumbered read) s.channel).map s.setFeed
  | .lose => (s.ingest.feed.lose s.channel).map s.setFeed
  | .take => s.ingest.feed.take.map s.setFeed
  | .snapshot order => snapshot s order
  | .offer => offer s
  | .finish => finish s
  | .add id =>
      match s.clients id with
      | some _ => none
      | none => some ({ s with hub := s.hub.add ⟨id⟩ }.setClient id (newClient s.ingest))
  | .remove id => some { s with hub := s.hub.remove id }
  | .answer id data => (s.clients id).map fun c => s.setClient id (c.offer (.answer data))
  | .poll id => (s.clients id).bind fun c => c.poll.map fun c => s.setClient id c
  | .write id => (s.clients id).bind fun c => c.write.map fun c => s.setClient id c
  | .writeError id => (s.clients id).bind fun c => c.writeError.map fun c => s.setClient id c

end Steps

/-- The message that the call of Broadcast in progress has offered to the client, or would
have if that had not gone before. -/
def serving (g : Ingest) (id : GoString) (since : Nat) : List (Nat × ClusterMsg) :=
  if g.cast.any (fun rest => !rest.contains id) ∧ since ≤ g.feed.handled.length then
    g.feed.hand.toList
  else []

/-- The events of the messages that were broadcast while the client was there. -/
def asked (g : Ingest) (id : GoString) (since : Nat) : List (Nat × StreamEvent) :=
  (g.feed.handled.drop since ++ serving g id since).map fun e => (e.1, eventOf e.2)

/-- What is known of one client. -/
structure Keeps (g : Ingest) (registered : Prop) (id : GoString) (c : Client) : Prop where
  carries : Carries c.send c.traffic
  waiting : c.send.waiting = false
  received : c.traffic.received = c.frames ++ c.hand.toList
  since_le : c.since ≤ g.feed.handled.length + if g.cast.isSome then 1 else 0
  offered : (messages c.traffic.offered).Sublist (asked g id c.since)
  all : registered → messages c.traffic.offered = asked g id c.since

def Registered (s : State) (id : GoString) : Prop := (s.hub.clients.get id).isSome = true

/-- What is known of the broadcast in progress. -/
structure Casting (g : Ingest) (clients : GoString → Option Client) : Prop where
  hand : g.cast.isSome = true → g.feed.hand.isSome = true
  nodup : ∀ rest, g.cast = some rest → rest.Nodup
  present : ∀ rest, g.cast = some rest → ∀ id ∈ rest, ∃ c, clients id = some c ∧
    c.since ≤ g.feed.handled.length

structure Inv (read : ClusterMsg → Option ClusterMsg) (s : State) : Prop where
  feed : s.ingest.feed.Follows (Feed.readNumbered read) s.channel
  numbers : s.channel.map Prod.fst = List.range s.channel.length
  casting : Casting s.ingest s.clients
  registered : ∀ id, Registered s id → ∃ c, s.clients id = some c
  client : ∀ id c, s.clients id = some c → Keeps s.ingest (Registered s id) id c

section Proofs
variable {read : ClusterMsg → Option ClusterMsg} {g g' : Ingest} {r r' : Prop} {id : GoString}
  {c c' : Client} {s t : State}

theorem asked_setFeed {f : Feed (Nat × ClusterMsg)} (hhandled : f.handled = g.feed.handled)
    (hhand : g.cast.isSome = true → f.hand = g.feed.hand) (id : GoString) (since : Nat) :
    asked { g with feed := f } id since = asked g id since := by
  cases hcast : g.cast with
  | none => simp [asked, serving, hcast, hhandled]
  | some rest => simp [asked, serving, hcast, hhandled, hhand (by simp [hcast])]

namespace Keeps
variable (h : Keeps g r id c)
include h

/-- The broadcast goes on elsewhere. -/
theorem of_ingest (hsince : c.since ≤ g'.feed.handled.length + if g'.cast.isSome then 1 else 0)
    (hsub : (asked g id c.since).Sublist (asked g' id c.since))
    (hall : r' → r ∧ asked g' id c.since = asked g id c.since) : Keeps g' r' id c where
  carries := h.carries
  waiting := h.waiting
  received := h.received
  since_le := hsince
  offered := h.offered.trans hsub
  all hr := (h.all (hall hr).1).trans (hall hr).2.symm

theorem of_same (hsince : c.since ≤ g'.feed.handled.length + if g'.cast.isSome then 1 else 0)
    (hasked : asked g' id c.since = asked g id c.since) : Keeps g' r id c :=
  h.of_ingest hsince (hasked ▸ List.Sublist.refl _) fun hr => ⟨hr, hasked⟩

theorem unregister (hr : r' → r) : Keeps g r' id c := { h with all := fun h' => h.all (hr h') }

theorem answer (data : GoString) : Keeps g r id (c.offer (.answer data)) := by
  have hmessages : messages (c.offer (.answer data)).traffic.offered =
      messages c.traffic.offered := by
    simp [Client.offer, Traffic.offer, messages, Frame.event]
  refine ⟨h.carries.trySend _, Chan.waiting_trySend _ _, ?_, h.since_le, ?_, ?_⟩
  · simpa [Client.offer, Traffic.offer, h.waiting] using h.received
  · rw [hmessages]
    exact h.offered
  · rw [hmessages]
    exact h.all

/-- The broadcast comes to the client. -/
theorem offer {e : Nat × ClusterMsg}
    (hsince : c.since ≤ g'.feed.handled.length + if g'.cast.isSome then 1 else 0)
    (hasked : asked g' id c.since = asked g id c.since ++ [(e.1, eventOf e.2)]) :
    Keeps g' r id (c.offer (.message e.1 (eventOf e.2))) := by
  have hmessages : messages (c.offer (.message e.1 (eventOf e.2))).traffic.offered =
      messages c.traffic.offered ++ [(e.1, eventOf e.2)] := by
    simp [Client.offer, Traffic.offer, messages, Frame.event]
  refine ⟨h.carries.trySend _, Chan.waiting_trySend _ _, ?_, hsince, ?_, ?_⟩
  · simpa [Client.offer, Traffic.offer, h.waiting] using h.received
  · rw [hmessages]
    exact hasked ▸ h.offered.append (List.Sublist.refl _)
  · intro hr
    rw [hmessages, h.all hr]
    exact hasked.symm

theorem poll (hc : c.poll = some c') : c'.since = c.since ∧ Keeps g r id c' := by
  rw [Client.poll] at hc
  split at hc
  next f rest hhand hbuf =>
    cases hc
    refine ⟨rfl, h.carries.take hbuf, h.waiting, ?_, h.since_le, h.offered, h.all⟩
    simp [Traffic.receive, h.received, hhand]
  next => cases hc

theorem write (hc : c.write = some c') : c'.since = c.since ∧ Keeps g r id c' := by
  rw [Client.write] at hc
  split at hc
  next f hhand =>
    split_ifs at hc
    cases hc
    refine ⟨rfl, h.carries, h.waiting, ?_, h.since_le, h.offered, h.all⟩
    simp [h.received, hhand]
  next => cases hc

theorem writeError (hc : c.writeError = some c') : c'.since = c.since ∧ Keeps g r id c' := by
  rw [Client.writeError] at hc
  split_ifs at hc
  cases hc
  exact ⟨rfl, h.carries, h.waiting, h.received, h.since_le, h.offered, h.all⟩

end Keeps

theorem keeps_newClient (g : Ingest) (r : Prop) (id : GoString) : Keeps g r id (newClient g) := by
  have hasked : asked g id (newClient g).since = [] := by
    cases hcast : g.cast <;> simp [asked, serving, newClient, hcast]
  refine ⟨carries_make 256, rfl, rfl, Nat.le_refl _, ?_, ?_⟩
  · exact List.nil_sublist _
  · intro _
    rw [hasked]
    rfl

theorem inv_start : Inv read start where
  feed := Feed.follows_subscribe 512 (Nat.le_refl 0)
  numbers := rfl
  casting := ⟨nofun, nofun, nofun⟩
  registered := nofun
  client := nofun

namespace Inv
variable (h : Inv read s)
include h

theorem publish (msg : ClusterMsg) :
    Inv read { s with channel := s.channel ++ [(s.channel.length, msg)] } where
  feed := h.feed.append _
  numbers := by simp [h.numbers, List.range_succ]
  casting := h.casting
  registered := h.registered
  client := h.client

theorem setFeed {f : Feed (Nat × ClusterMsg)} (hf : f.Follows (Feed.readNumbered read) s.channel)
    (hhandled : f.handled = s.ingest.feed.handled)
    (hhand : s.ingest.cast.isSome = true → f.hand = s.ingest.feed.hand) :
    Inv read (s.setFeed f) where
  feed := hf
  numbers := h.numbers
  casting :=
    { hand := fun hcast => (hhand hcast).symm ▸ h.casting.hand hcast
      nodup := h.casting.nodup
      present := fun rest hrest id hid => by
        simp only [State.setFeed, hhandled]
        exact h.casting.present rest hrest id hid }
  registered := h.registered
  client id c hc := by
    refine (h.client id c hc).of_same ?_ (asked_setFeed hhandled hhand id c.since)
    simp only [State.setFeed, hhandled]
    exact (h.client id c hc).since_le

/-- One client is replaced by another that was added with it. -/
theorem setClient {c' : Client} (hc : s.clients id = some c)
    (hself : c'.since = c.since ∧ Keeps s.ingest (Registered s id) id c') :
    Inv read (s.setClient id c') where
  feed := h.feed
  numbers := h.numbers
  casting :=
    { hand := h.casting.hand
      nodup := h.casting.nodup
      present := fun rest hrest id' hid' => by
        obtain ⟨c₀, hc₀, hle⟩ := h.casting.present rest hrest id' hid'
        by_cases hid : id' = id
        · subst hid
          cases hc.symm.trans hc₀
          exact ⟨c', by simp [State.setClient], hself.1.trans_le hle⟩
        · exact ⟨c₀, by simpa [State.setClient, hid] using hc₀, hle⟩ }
  registered id' hreg := by
    by_cases hid : id' = id
    · exact ⟨c', by simp [State.setClient, hid]⟩
    · obtain ⟨c₀, hc₀⟩ := h.registered id' hreg
      exact ⟨c₀, by simpa [State.setClient, hid] using hc₀⟩
  client id' c₀ hc₀ := by
    by_cases hid : id' = id
    · subst hid
      simp only [State.setClient, Function.update_self, Option.some.injEq] at hc₀
      exact hc₀ ▸ hself.2
    · simp only [State.setClient, Function.update_of_ne hid] at hc₀
      exact h.client id' c₀ hc₀

theorem add (hid : s.clients id = none) :
    Inv read ({ s with hub := s.hub.add ⟨id⟩ }.setClient id (newClient s.ingest)) := by
  have hother {id' : GoString} (hne : id' ≠ id) :
      Registered { s with hub := s.hub.add ⟨id⟩ } id' ↔ Registered s id' := by
    simp [Registered, WSHub.add, FinMap.get_set_ne _ _ hne]
  refine ⟨h.feed, h.numbers, ⟨h.casting.hand, h.casting.nodup, ?_⟩, ?_, ?_⟩
  · intro rest hrest id' hid'
    obtain ⟨c₀, hc₀, hle⟩ := h.casting.present rest hrest id' hid'
    have hne : id' ≠ id := fun heq => by simp [heq, hid] at hc₀
    exact ⟨c₀, by simpa [State.setClient, hne] using hc₀, hle⟩
  · intro id' hreg
    by_cases hne : id' = id
    · exact ⟨_, by simp [State.setClient, hne]; rfl⟩
    · obtain ⟨c₀, hc₀⟩ := h.registered id' ((hother hne).mp hreg)
      exact ⟨c₀, by simpa [State.setClient, hne] using hc₀⟩
  · intro id' c₀ hc₀
    by_cases hne : id' = id
    · subst hne
      simp only [State.setClient, Function.update_self, Option.some.injEq] at hc₀
      exact hc₀ ▸ keeps_newClient s.ingest _ _
    · simp only [State.setClient, Function.update_of_ne hne] at hc₀
      exact (h.client id' c₀ hc₀).unregister (hother hne).mp

theorem remove (id : GoString) : Inv read { s with hub := s.hub.remove id } := by
  have hless (id' : GoString) (hreg : Registered { s with hub := s.hub.remove id } id') :
      Registered s id' := by
    simp only [Registered, WSHub.remove, FinMap.get_erase] at hreg ⊢
    split_ifs at hreg
    · cases hreg
    · exact hreg
  exact ⟨h.feed, h.numbers, h.casting, fun id' hreg => h.registered id' (hless id' hreg),
    fun id' c hc => (h.client id' c hc).unregister (hless id')⟩

theorem since_le_of_no_cast (hcast : s.ingest.cast = none) (hc : s.clients id = some c) :
    c.since ≤ s.ingest.feed.handled.length := by
  simpa [hcast] using (h.client id c hc).since_le

theorem snapshot {order : List GoString} (hstep : snapshot s order = some t) : Inv read t := by
  rw [Stream.snapshot] at hstep
  split_ifs at hstep with hcond
  cases hstep
  obtain ⟨hhand, hcast, hperm⟩ := hcond
  have hmem (id : GoString) : id ∈ order ↔ Registered s id := by
    rw [hperm.mem_iff, FinMap.mem_keys, Registered, Option.isSome_iff_exists]
  refine ⟨h.feed, h.numbers, ⟨fun _ => hhand, ?_, ?_⟩, h.registered, ?_⟩
  · intro rest hrest
    cases hrest
    exact hperm.nodup_iff.mpr s.hub.clients.keys_nodup
  · intro rest hrest id hid
    cases hrest
    obtain ⟨c, hc⟩ := h.registered id ((hmem id).mp hid)
    exact ⟨c, hc, h.since_le_of_no_cast hcast hc⟩
  · intro id c hc
    have hnone : serving s.ingest id c.since = [] := by simp [serving, hcast]
    refine (h.client id c hc).of_ingest ?_ ?_ ?_
    · exact Nat.le_add_right_of_le (h.since_le_of_no_cast hcast hc)
    · rw [asked, asked, hnone, List.append_nil, List.map_append]
      exact List.sublist_append_left _ _
    · intro hreg
      have hserved : serving (s.setCast (some order)).ingest id c.since = [] := by
        simp [serving, State.setCast, (hmem id).mpr hreg]
      exact ⟨hreg, by rw [asked, asked, hserved, hnone]; rfl⟩

theorem offer (hstep : offer s = some t) : Inv read t := by
  rw [Stream.offer] at hstep
  split at hstep
  next e id rest hhand hcast =>
    obtain ⟨c, hc, rfl⟩ := Option.map_eq_some_iff.mp hstep
    obtain ⟨hfresh, hnodup⟩ := List.nodup_cons.mp (h.casting.nodup _ hcast)
    have hpresent := h.casting.present _ hcast
    have hsince : c.since ≤ s.ingest.feed.handled.length := by
      obtain ⟨c₀, hc₀, hle⟩ := hpresent id List.mem_cons_self
      cases hc.symm.trans hc₀
      exact hle
    refine ⟨h.feed, h.numbers, ⟨?_, ?_, ?_⟩, ?_, ?_⟩
    · intro _
      exact h.casting.hand (by simp [hcast])
    · intro rest' hrest
      cases hrest
      exact hnodup
    · intro rest' hrest id' hid'
      cases hrest
      obtain ⟨c₀, hc₀, hle⟩ := hpresent id' (List.mem_cons_of_mem id hid')
      have hne : id' ≠ id := fun heq => hfresh (heq ▸ hid')
      exact ⟨c₀, by simpa [State.setClient, State.setCast, hne] using hc₀, hle⟩
    · intro id' hreg
      by_cases hne : id' = id
      · exact ⟨_, by rw [hne]; exact Function.update_self ..⟩
      · obtain ⟨c₀, hc₀⟩ := h.registered id' hreg
        exact ⟨c₀, by simpa [State.setClient, State.setCast, hne] using hc₀⟩
    · intro id' c₀ hc₀
      by_cases hne : id' = id
      · subst hne
        simp only [State.setClient, Function.update_self, Option.some.injEq] at hc₀
        subst hc₀
        refine (h.client id' c hc).offer (Nat.le_add_right_of_le hsince) ?_
        simp [asked, serving, State.setClient, State.setCast, hcast, hhand, hfresh, hsince]
      · simp only [State.setClient, State.setCast, Function.update_of_ne hne] at hc₀
        have hold := h.client id' c₀ hc₀
        refine hold.of_same ?_ ?_
        · simpa [State.setClient, State.setCast, hcast] using hold.since_le
        · simp [asked, serving, State.setClient, State.setCast, hcast, hne]
  next => cases hstep

/-- With the last client the message counts as handled. -/
theorem finish (hstep : finish s = some t) : Inv read t := by
  rw [Stream.finish] at hstep
  split at hstep
  next e hhand hcast =>
    cases hstep
    refine ⟨h.feed.finish hhand, h.numbers, ⟨nofun, nofun, nofun⟩, h.registered, ?_⟩
    intro id c hc
    have hold := h.client id c hc
    have hle : c.since ≤ s.ingest.feed.handled.length + 1 := by simpa [hcast] using hold.since_le
    refine hold.of_same (by simpa [Feed.finish] using hle) ?_
    by_cases hsince : c.since ≤ s.ingest.feed.handled.length
    · simp [asked, serving, hcast, hhand, hsince, Feed.finish, List.drop_append_of_le_length hsince]
    · have hdrop : (s.ingest.feed.handled ++ [e]).drop c.since = [] :=
        List.drop_eq_nil_of_le (by simp; omega)
      have hdrop' : s.ingest.feed.handled.drop c.since = [] := List.drop_eq_nil_of_le (by omega)
      simp [asked, serving, hsince, Feed.finish, hdrop, hdrop']
  next => cases hstep

end Inv

theorem inv_step (h : Inv read s) (a : Action) (hstep : step read s a = some t) : Inv read t := by
  cases a with
  | publish msg =>
      cases hstep
      exact h.publish msg
  | deliver =>
      obtain ⟨f, hf, rfl⟩ := Option.map_eq_some_iff.mp hstep
      exact h.setFeed (h.feed.deliver hf) (Feed.handled_deliver hf) fun _ => Feed.hand_deliver hf
  | lose =>
      obtain ⟨f, hf, rfl⟩ := Option.map_eq_some_iff.mp hstep
      exact h.setFeed (h.feed.lose hf) (Feed.handled_lose hf) fun _ => Feed.hand_lose hf
  | take =>
      obtain ⟨f, hf, rfl⟩ := Option.map_eq_some_iff.mp hstep
      refine h.setFeed (h.feed.take hf) (Feed.handled_take hf) fun hcast => ?_
      have hhand := h.casting.hand hcast
      rw [Feed.hand_of_take hf] at hhand
      cases hhand
  | snapshot order => exact h.snapshot hstep
  | offer => exact h.offer hstep
  | finish => exact h.finish hstep
  | add id =>
      simp only [step] at hstep
      split at hstep <;> cases hstep
      next hid => exact h.add hid
  | remove id =>
      cases hstep
      exact h.remove id
  | answer id data =>
      obtain ⟨c, hc, rfl⟩ := Option.map_eq_some_iff.mp hstep
      exact h.setClient hc ⟨rfl, (h.client id c hc).answer data⟩
  | poll id =>
      obtain ⟨c, hc, hstep⟩ := Option.bind_eq_some_iff.mp hstep
      obtain ⟨c', hc', rfl⟩ := Option.map_eq_some_iff.mp hstep
      exact h.setClient hc ((h.client id c hc).poll hc')
  | write id =>
      obtain ⟨c, hc, hstep⟩ := Option.bind_eq_some_iff.mp hstep
      obtain ⟨c', hc', rfl⟩ := Option.map_eq_some_iff.mp hstep
      exact h.setClient hc ((h.client id c hc).write hc')
  | writeError id =>
      obtain ⟨c, hc, hstep⟩ := Option.bind_eq_some_iff.mp hstep
      obtain ⟨c', hc', rfl⟩ := Option.map_eq_some_iff.mp hstep
      exact h.setClient hc ((h.client id c hc).writeError hc')

theorem inv_run {as : List Action} (hrun : run (step read) as start = some t) : Inv read t :=
  preserved_run (fun _ a _ h hstep => inv_step h a hstep) inv_start hrun

/-- What is being broadcast has come from the channel. -/
theorem asked_sublist (h : g.feed.Follows (Feed.readNumbered read) s.channel) (id : GoString)
    (since : Nat) :
    (asked g id since).Sublist
    ((s.channel.filterMap (Feed.readNumbered read)).map fun e => (e.1, eventOf e.2)) := by
  have hserving : (serving g id since).Sublist g.feed.hand.toList := by
    rw [serving]
    split_ifs
    · exact List.Sublist.refl _
    · exact List.nil_sublist _
  have hheld : (g.feed.handled ++ g.feed.hand.toList).Sublist g.feed.held :=
    List.sublist_append_left _ _
  have hpassed : (g.feed.passed s.channel).Sublist s.channel :=
    (List.take_sublist _ _).trans (List.drop_sublist _ _)
  refine List.Sublist.map _ ?_
  exact ((List.drop_sublist _ _).append hserving).trans
    (hheld.trans (h.held_sublist.trans (hpassed.filterMap _)))

theorem Keeps.frames_sublist (h : Keeps g r id c) :
    (messages c.frames).Sublist (messages c.traffic.offered) := by
  have hframes : c.frames.Sublist c.traffic.received := by
    rw [h.received]
    exact List.sublist_append_left _ _
  have hreceived :=
    (List.sublist_append_left c.traffic.received c.send.buf).trans h.carries.sublist_offered
  exact (hframes.trans hreceived).filterMap _

/-- The channel of the client was never full, and its pump has written everything. -/
def KeptUp (c : Client) : Prop :=
  c.traffic.offered.length = c.traffic.accepted.length ∧ c.send.buf = [] ∧ c.hand = none

instance (c : Client) : Decidable (KeptUp c) := inferInstanceAs (Decidable (_ ∧ _))

theorem Keeps.frames_eq (h : Keeps g r id c) (hkept : KeptUp c) : c.frames = c.traffic.offered := by
  have hall := h.carries.eq_offered hkept.1
  rw [hkept.2.1, h.received, hkept.2.2] at hall
  simpa using hall

/-- Each client gets the events of the channel in order and none of them twice, whoever comes
and goes during a broadcast. A client that is in the registry and has kept up has got
everything that was broadcast since it was added. -/
theorem stream_follows_channel {as : List Action} (hrun : run (step read) as start = some t)
    (hc : t.clients id = some c) :
    (messages c.frames).Sublist
      ((t.channel.filterMap (Feed.readNumbered read)).map fun e => (e.1, eventOf e.2)) ∧
    ((messages c.frames).map Prod.fst).Nodup ∧
    (Registered t id → KeptUp c → t.ingest.cast = none →
      messages c.frames = (t.ingest.feed.handled.drop c.since).map fun e =>
        (e.1, eventOf e.2)) := by
  have hinv := inv_run hrun
  have hkeeps := hinv.client id c hc
  have hsub :=
    (hkeeps.frames_sublist.trans hkeeps.offered).trans (asked_sublist hinv.feed id c.since)
  refine ⟨hsub, ?_, ?_⟩
  · have hnumbers := hsub.map Prod.fst
    rw [List.map_map] at hnumbers
    refine List.Nodup.sublist (hnumbers.trans (Feed.readNumbered_sublist read t.channel)) ?_
    rw [hinv.numbers]
    exact List.nodup_range
  · intro hreg hkept hcast
    have hserving : serving t.ingest id c.since = [] := by simp [serving, hcast]
    rw [hkeeps.frames_eq hkept, hkeeps.all hreg, asked, hserving, List.append_nil]

end Proofs

/-- The second client is added during the broadcast of a message, which it misses; the first
leaves the registry in the middle of it and still gets the message. -/
def comingAndGoing : List Action :=
  let msg := fun topic : String => Action.publish ⟨1, str "b1", 0, str topic, [1], 0, false⟩
  [.add (str "c1"), msg "x", .deliver, .take, .snapshot [str "c1"], .add (str "c2"),
    .remove (str "c1"), .offer,
    .finish, msg "y", .deliver, .take, .snapshot [str "c2"], .answer (str "c2") (str "pong"),
    .offer, .finish,
    .poll (str "c1"), .write (str "c1"), .poll (str "c2"), .write (str "c2"), .poll (str "c2"),
      .write (str "c2")]

theorem stream_follows_channel_comingAndGoing :
    ∃ t c, run (step some) comingAndGoing start = some t ∧ t.clients (str "c2") = some c ∧
      messages c.frames = (t.ingest.feed.handled.drop c.since).map (fun e => (e.1, eventOf e.2)) ∧
      messages c.frames = [(1, ⟨str "y", [1], 0, false⟩)] := by
  obtain ⟨t, hrun, hcast, hclient⟩ := reaches_of_any (step some) comingAndGoing start
    (fun t => t.ingest.cast = none ∧ (t.clients (str "c2")).any fun c =>
      decide (((t.hub.clients.get (str "c2")).isSome = true ∧ KeptUp c) ∧
        messages c.frames = [(1, ⟨str "y", [1], 0, false⟩)]))
    (by decide +kernel)
  obtain ⟨c, hc, hready, hframes⟩ := exists_of_any _ hclient
  exact ⟨t, c, hrun, hc, (stream_follows_channel hrun hc).2.2 hready.1 hready.2 hcast, hframes⟩

end LumaBroker.Api.Stream
