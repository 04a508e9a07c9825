import LumaBroker.Lib.Transition
import LumaBroker.Router.Each
import LumaBroker.Router.Publishing

/-!
A new subscription against publishes of retained messages. handleSubscribe calls
Router.Subscribe and then SendRetained, which ranges over the retained store; Router.Publish
stores its message and then looks for subscribers, shard by shard and group by group. The
calls are interleaved at each of their steps. Subscribe is one insertion. sync.Map.Range
visits a key once at most, and each key whose value stays as it was when Range began; for
other keys it may show any value.
-/

namespace LumaBroker.Router.RetainedRace

open Publishing Transition
variable {δ : Type}

/-- How far the subscriber has come. While Range runs: the store when it began, the topics
stored since, and those visited. -/
inductive Reader where
  | subscribe
  | start
  | ranging (snapshot : FinMap GoString Retained) (replaced visited : List GoString)
  | done

structure State (δ : Type) where
  router : Router δ
  publishes : List (Publishing δ)
  reader : Reader
  delivered : List (Delivery δ)

inductive Action where
  /-- The next step of a call of Publish. -/
  | publish (j now : Nat)
  | subscribe
  | rangeStart
  | visit (topic : GoString) (msg : Retained)
  | rangeEnd

/-- A store is noticed by a Range that runs. -/
def Reader.after (p : Publishing δ) (reader : Reader) : Reader :=
  match reader with
  | .ranging snapshot replaced visited =>
      .ranging snapshot (if p.phase.isStore then p.topic :: replaced else replaced) visited
  | reader => reader

section System
variable (filter : GoString) (sub : Subscriber δ)

def step (s : State δ) : Action → Option (State δ)
  | .publish j now =>
      s.publishes[j]?.bind fun p => (p.next now s.router).map fun (phase, router, calls) =>
        { router := router
          publishes := s.publishes.set j { p with phase := phase }
          reader := s.reader.after p
          delivered := s.delivered ++ calls }
  | .subscribe =>
      match s.reader with
      | .subscribe => some { s with router := s.router.subscribe filter sub, reader := .start }
      | _ => none
  | .rangeStart =>
      match s.reader with
      | .start => some { s with reader := .ranging s.router.retained [] [] }
      | _ => none
  | .visit topic msg =>
      match s.reader with
      | .ranging snapshot replaced visited =>
          if !visited.contains topic ∧
            (snapshot.get topic = some msg ∨ replaced.contains topic) then
            some { s with
              reader := .ranging snapshot replaced (topic :: visited)
              delivered := s.delivered ++ sendVisited filter sub topic msg }
          else none
      | _ => none
  | .rangeEnd =>
      match s.reader with
      | .ranging snapshot replaced visited =>
          if ∀ topic ∈ snapshot.keys, replaced.contains topic ∨ visited.contains topic then
            some { s with reader := .done }
          else none
      | _ => none

/-- All calls have returned. -/
def Finished (s : State δ) : Prop := s.reader = .done ∧ ∀ p ∈ s.publishes, p.phase = .sharing []

instance (s : State δ) : Decidable (s.reader = .done) :=
  match s.reader with
  | .done => isTrue rfl
  | .subscribe => isFalse (by simp)
  | .start => isFalse (by simp)
  | .ranging .. => isFalse (by simp)

instance (s : State δ) : Decidable (Finished s) := inferInstanceAs (Decidable (_ ∧ _))

/-- The message was delivered to the client. -/
def Delivered (c topic : GoString) (payload : List UInt8) (s : State δ) : Prop :=
  ∃ d ∈ s.delivered, d.clientID = c ∧ d.topic = topic ∧ d.payload = payload

instance (c topic : GoString) (payload : List UInt8) (s : State δ) :
    Decidable (Delivered c topic payload s) :=
  inferInstanceAs (Decidable (∃ d ∈ s.delivered, _))

/-- Each publish reaches the subscription: the '#' of a plain filter is its last level, and the
group of a shared one has no other member. -/
def Reached (c : GoString) (r : Router δ) : Prop :=
  match Protocol.parseSharedTopicFilter filter with
  | none => Protocol.HashLast (splitFilter filter)
  | some (name, inner) => ∀ g, groupOf r name inner = some g → ∀ d s, g.subs.get d = some s → d = c

end System

/-- A subscriber the router may hold under a client: its own, with a closure. -/
def Own (c : GoString) (s : Subscriber δ) : Prop := s.clientID = c ∧ s.deliver.isSome

/-- The subscription is where publishes look for it, and nothing stands before it. -/
def InPlace (filter : GoString) (sub : Subscriber δ) (r : Router δ) : Prop :=
  match Protocol.parseSharedTopicFilter filter with
  | none => Protocol.HashLast (splitFilter filter) ∧
      find (splitFilter filter) (r.shards (shardFor filter)) sub.clientID = some sub
  | some (name, inner) => ∃ g, groupOf r name inner = some g ∧ g.topicFilter = inner ∧
      g.subs.isEmpty = false ∧ ∀ d s, g.subs.get d = some s → s = sub

/-- It will be, once the client subscribes. -/
def Ready (filter c : GoString) (r : Router δ) : Prop :=
  match Protocol.parseSharedTopicFilter filter with
  | none => Protocol.HashLast (splitFilter filter)
  | some (name, inner) => ∀ g, groupOf r name inner = some g →
      g.topicFilter = inner ∧ ∀ d s, g.subs.get d = some s → d = c

/-- The call has yet to look where the subscription is, or has it in its result. -/
def Promised (filter c : GoString) (phase : PublishPhase δ) : Prop :=
  match Protocol.parseSharedTopicFilter filter, phase with
  | none, .matching todo result => shardFor filter ∈ todo ∨ (result.get c).isSome
  | none, _ => False
  | some _, .store => False
  | some _, .matching _ _ => True
  | some _, .keys => True
  | some (name, inner), .sharing todo => sharedStoreKey name inner ∈ todo

section Place
variable {filter : GoString} {sub : Subscriber δ} {now : Nat} {r r' : Router δ} {p : Publishing δ}
variable {phase : PublishPhase δ} {calls : List (Delivery δ)}

theorem next_group (h : p.next now r = some (phase, r', calls)) {name inner : GoString}
    {g' : SharedGroup δ} (hg' : groupOf r' name inner = some g') :
    ∃ g, groupOf r name inner = some g ∧ g'.topicFilter = g.topicFilter ∧ g'.subs = g.subs := by
  rw [groupOf] at hg'
  rcases (next_router h).2 (sharedStoreKey name inner) with hsame | hmap
  · rw [hsame] at hg'
    exact ⟨g', hg', rfl, rfl⟩
  · rw [hmap] at hg'
    obtain ⟨g, hg, rfl⟩ := Option.map_eq_some_iff.mp hg'
    exact ⟨g, hg, topicFilter_advance _ _, subs_advance _ _⟩

theorem next_ready {c : GoString} (h : p.next now r = some (phase, r', calls))
    (hr : Ready filter c r) : Ready filter c r' := by
  cases hf : Protocol.parseSharedTopicFilter filter with
  | none => simpa only [Ready, hf] using hr
  | some parts =>
      simp only [Ready, hf] at hr ⊢
      intro g' hg'
      obtain ⟨g, hg, hfilter, hsubs⟩ := next_group h hg'
      rw [hfilter, hsubs]
      exact hr g hg

theorem next_inPlace (h : p.next now r = some (phase, r', calls)) (hr : InPlace filter sub r) :
    InPlace filter sub r' := by
  cases hf : Protocol.parseSharedTopicFilter filter with
  | none =>
      simp only [InPlace, hf, (next_router h).1] at hr ⊢
      exact hr
  | some parts =>
      simp only [InPlace, hf] at hr ⊢
      obtain ⟨g, hg, hfilter, hne, hsub⟩ := hr
      rcases (next_router h).2 (sharedStoreKey parts.1 parts.2) with hsame | hmap
      · exact ⟨g, hsame.trans hg, hfilter, hne, hsub⟩
      · refine ⟨advance p.topic g, ?_, ?_, ?_, ?_⟩
        · rw [groupOf, hmap]
          exact congrArg (Option.map (advance p.topic)) hg
        · rw [topicFilter_advance, hfilter]
        · rw [subs_advance, hne]
        · rw [subs_advance]
          exact hsub

theorem inPlace_subscribe (hr : Ready filter sub.clientID r) :
    InPlace filter sub (r.subscribe filter sub) := by
  cases hf : Protocol.parseSharedTopicFilter filter with
  | none =>
      have hheld := held_subscribe filter sub r sub.clientID filter
      rw [if_pos ⟨rfl, rfl⟩, held_plain _ _ hf] at hheld
      simp only [Ready, hf] at hr
      simp only [InPlace, hf]
      exact ⟨hr, hheld⟩
  | some parts =>
      obtain ⟨name, inner⟩ := parts
      simp only [Ready, hf] at hr
      simp only [InPlace, hf]
      have hsubscribe : r.subscribe filter sub =
          (subscribeShared name inner sub r).countSubscribe := by
        simp only [subscribe, hf]
      rw [hsubscribe]
      cases hg : groupOf r name inner with
      | none =>
          have hkey : r.shared.get (sharedStoreKey name inner) = none := hg
          refine ⟨⟨name, inner, FinMap.empty.set sub.clientID sub, 0⟩, ?_, rfl,
            FinMap.isEmpty_set .., ?_⟩
          · simp [groupOf, subscribeShared, countSubscribe, hkey]
          · intro d s hs
            simp only [FinMap.get_set, FinMap.get_empty] at hs
            split_ifs at hs
            exact (Option.some.inj hs).symm
      | some g =>
          have hkey : r.shared.get (sharedStoreKey name inner) = some g := hg
          obtain ⟨hfilter, hsole⟩ := hr g hg
          refine ⟨{ g with subs := g.subs.set sub.clientID sub }, ?_, hfilter,
            FinMap.isEmpty_set .., ?_⟩
          · simp [groupOf, subscribeShared, countSubscribe, hkey]
          · intro d s hs
            rw [FinMap.get_set] at hs
            split_ifs at hs with hd
            · exact (Option.some.inj hs).symm
            · exact absurd (hsole d s hs) hd

/-- A call that has stored its message still has all places before it. -/
theorem promised_store {c : GoString} (h : p.next now r = some (phase, r', calls))
    (hp : p.phase = .store) : Promised filter c phase := by
  rcases next_cases h with ⟨-, rfl, -⟩ | ⟨i, todo, result, hp', -⟩ | ⟨result, hp', -⟩ | ⟨hp', -⟩ |
    ⟨key, todo, hp', -⟩
  · cases hf : Protocol.parseSharedTopicFilter filter with
    | none => simp [Promised, hf]
    | some parts => simp [Promised, hf]
  all_goals rw [hp] at hp'; cases hp'

theorem deliverTo_own {c : GoString} {s : Subscriber δ} (hs : Own c s) (topic : GoString)
    (payload : List UInt8) (qos : UInt8) (retain : Bool) :
    ∃ d, deliverTo s topic payload qos retain = some d ∧
      d.clientID = c ∧ d.topic = topic ∧ d.payload = payload := by
  obtain ⟨deliver, hdeliver⟩ := Option.isSome_iff_exists.mp hs.2
  exact ⟨_, by rw [deliverTo, hdeliver, Option.map_some], hs.1, rfl, rfl⟩

/-- The group of a sole member sends it each message that matches. -/
theorem groupCalls_sole {g : SharedGroup δ} {topic : GoString} (hsub : sub.deliver.isSome)
    (hmatch : topicMatchesFilter topic g.topicFilter = true) (hne : g.subs.isEmpty = false)
    (hsole : ∀ d s, g.subs.get d = some s → s = sub) (payload : List UInt8) (qos : UInt8) :
    ∃ d ∈ groupCalls topic payload qos g, d.clientID = sub.clientID ∧ d.topic = topic ∧
      d.payload = payload := by
  obtain ⟨c, s, hnext, hget, -⟩ := nextMember_spec hne
  obtain rfl := hsole c s hget
  obtain ⟨d, hd, hspec⟩ := deliverTo_own (c := s.clientID) ⟨rfl, hsub⟩ topic payload qos false
  exact ⟨d, by simp [groupCalls, served, hmatch, hne, hnext, hd], hspec⟩

theorem promised_next (hsub : sub.deliver.isSome) (hr : InPlace filter sub r)
    (hown : ∀ todo result, p.phase = .matching todo result → result.All Own)
    (hmatch : topicMatchesFilter p.topic (matchFilter filter) = true)
    (hp : Promised filter sub.clientID p.phase) (h : p.next now r = some (phase, r', calls)) :
    Promised filter sub.clientID phase ∨
      ∃ d ∈ calls, d.clientID = sub.clientID ∧ d.topic = p.topic ∧ d.payload = p.payload := by
  cases hf : Protocol.parseSharedTopicFilter filter with
  | none =>
      simp only [InPlace, hf] at hr
      simp only [matchFilter, hf] at hmatch
      rcases next_cases h with ⟨hs, -⟩ | ⟨i, todo, result, hs, rfl, -⟩ |
        ⟨result, hs, -, -, rfl⟩ | ⟨hs, -⟩ |
        ⟨key, todo, hs, -⟩ <;>
          simp only [Promised, hf, hs, List.mem_cons, List.not_mem_nil, false_or] at hp
      · left
        simp only [Promised, hf]
        rcases hp with (rfl | hin) | hfound
        · exact .inr (matchNode_finds hr.1 hmatch hr.2 result)
        · exact .inl hin
        · exact .inr (isSome_matchNode _ _ hfound)
      · right
        obtain ⟨s, hget⟩ := Option.isSome_iff_exists.mp hp
        obtain ⟨d, hd, hspec⟩ :=
          deliverTo_own (hown [] result hs _ s hget) p.topic p.payload p.qos false
        exact ⟨d, List.mem_filterMap.mpr ⟨(sub.clientID, s), (result.mem_entries _ _).mpr hget, hd⟩,
          hspec⟩
  | some parts =>
      obtain ⟨name, inner⟩ := parts
      simp only [InPlace, hf] at hr
      simp only [matchFilter, hf] at hmatch
      obtain ⟨g, hg, hfilter, hne, hsole⟩ := hr
      rcases next_cases h with ⟨hs, -⟩ | ⟨i, todo, result, hs, rfl, -⟩ | ⟨result, hs, rfl, -⟩ |
        ⟨hs, rfl, -⟩ |
        ⟨key, todo, hs, rfl, -, rfl⟩ <;> simp only [Promised, hf, hs, List.mem_cons] at hp ⊢
      · exact .inl trivial
      · exact .inl trivial
      · exact .inl ((r.shared.mem_keys _).mpr ⟨g, hg⟩)
      · rcases hp with rfl | hin
        · right
          rw [← hfilter] at hmatch
          obtain ⟨d, hd, hspec⟩ := groupCalls_sole hsub hmatch hne hsole p.payload p.qos
          rw [(deliverGroup_eq p.topic p.payload p.qos (r.shared, []) _ g hg).2]
          exact ⟨d, by simpa using hd, hspec⟩
        · exact .inl hin

theorem next_results (howned : Each Own r)
    (hown : ∀ todo result, p.phase = .matching todo result → result.All Own)
    (h : p.next now r = some (phase, r', calls)) :
    ∀ todo result, phase = .matching todo result → result.All Own := by
  rcases next_cases h with ⟨-, rfl, -⟩ | ⟨i, todo, result, hs, rfl, -⟩ | ⟨result, hs, rfl, -⟩ |
    ⟨hs, rfl, -⟩ |
    ⟨key, todo, hs, rfl, -⟩ <;> intro todo' result' heq <;> cases heq
  · intro c s hs
    rw [FinMap.get_empty] at hs
    cases hs
  · exact all_matchNode _ (howned.trie i) (hown _ _ hs)

theorem each_next {P : GoString → Subscriber δ → Prop} (h : p.next now r = some (phase, r', calls))
    (hr : Each P r) : Each P r' := by
  obtain ⟨hshards, hshared⟩ := next_router h
  refine hr.of_less ?_ ?_
  · intro i path c s hs
    rw [hshards] at hs
    exact hs
  · intro key g c s hg hs
    rcases hshared key with hsame | hmap
    · rw [hsame] at hg
      exact ⟨g, hg, hs⟩
    · rw [hmap] at hg
      obtain ⟨g', hg', rfl⟩ := Option.map_eq_some_iff.mp hg
      rw [subs_advance] at hs
      exact ⟨g', hg', hs⟩

end Place

/-- The message was delivered to the client, or a publish has yet to deliver it. -/
def Owed (filter c topic : GoString) (payload : List UInt8) (s : State δ) : Prop :=
  Delivered c topic payload s ∨
    ∃ p ∈ s.publishes, p.topic = topic ∧ p.payload = payload ∧ Promised filter c p.phase

/-- What the subscriber's own progress leaves to the publishes: before Range nothing, then the
messages stored since it began. -/
def Covered (filter c topic : GoString) (msg : Retained) (s : State δ) : Prop :=
  match s.reader with
  | .subscribe => True
  | .start => True
  | .ranging snapshot replaced visited =>
      (topic ∈ replaced → Owed filter c topic msg.payload s) ∧
        (topic ∉ replaced → snapshot.get topic = some msg ∧
          (topic ∈ visited → Delivered c topic msg.payload s))
  | .done => Owed filter c topic msg.payload s

structure Inv (filter : GoString) (sub : Subscriber δ) (s : State δ) : Prop where
  owned : Each Own s.router
  results : ∀ p ∈ s.publishes, ∀ todo result, p.phase = .matching todo result → result.All Own
  retaining : ∀ p ∈ s.publishes, p.retain = true ∧ p.payload ≠ []
  ready : s.reader = .subscribe → Ready filter sub.clientID s.router
  placed : s.reader ≠ .subscribe → InPlace filter sub s.router
  covered : ∀ topic msg, topicMatchesFilter topic (matchFilter filter) = true →
    s.router.retained.get topic = some msg → Covered filter sub.clientID topic msg s

section Run
variable {filter : GoString} {sub : Subscriber δ} {s t : State δ}

theorem step_publish {j now : Nat} (h : step filter sub s (.publish j now) = some t) :
    ∃ p phase r' calls, s.publishes[j]? = some p ∧ p.next now s.router = some (phase, r', calls) ∧
      t = ⟨r', s.publishes.set j { p with phase := phase }, s.reader.after p,
        s.delivered ++ calls⟩ := by
  obtain ⟨p, hp, hmap⟩ := Option.bind_eq_some_iff.mp h
  obtain ⟨⟨phase, r', calls⟩, hnext, rfl⟩ := Option.map_eq_some_iff.mp hmap
  exact ⟨p, phase, r', calls, hp, hnext, rfl⟩

theorem Delivered.append {c topic : GoString} {payload : List UInt8} {calls : List (Delivery δ)}
    (h : Delivered c topic payload s) (ht : t.delivered = s.delivered ++ calls) :
    Delivered c topic payload t := by
  obtain ⟨d, hd, hspec⟩ := h
  exact ⟨d, by rw [ht]; exact List.mem_append_left _ hd, hspec⟩

theorem mem_set_or_eq {l : List (Publishing δ)} {j : Nat} {p q p' : Publishing δ}
    (hp : l[j]? = some p) (hq : q ∈ l) : q = p ∨ q ∈ l.set j p' := by
  obtain ⟨i, hi⟩ := List.mem_iff_getElem?.mp hq
  by_cases hij : j = i
  · subst hij
    rw [hp] at hi
    exact .inl (Option.some.inj hi).symm
  · exact .inr (List.mem_of_getElem? (by rw [List.getElem?_set_ne hij, hi]))

theorem mem_set_self {l : List (Publishing δ)} {j : Nat} {p p' : Publishing δ}
    (hp : l[j]? = some p) : p' ∈ l.set j p' := by
  obtain ⟨hj, -⟩ := List.getElem?_eq_some_iff.mp hp
  exact List.mem_of_getElem? (List.getElem?_set_self hj)

theorem owed_publish (hinv : Inv filter sub s) (hsub : sub.deliver.isSome)
    (hplaced : InPlace filter sub s.router) {topic : GoString}
    (hmatch : topicMatchesFilter topic (matchFilter filter) = true) {payload : List UInt8}
    (howed : Owed filter sub.clientID topic payload s) {j now : Nat}
    (h : step filter sub s (.publish j now) = some t) :
    Owed filter sub.clientID topic payload t := by
  obtain ⟨p, phase, r', calls, hp, hnext, rfl⟩ := step_publish h
  rcases howed with hdone | ⟨q, hq, rfl, rfl, hpromise⟩
  · exact .inl (hdone.append rfl)
  · rcases mem_set_or_eq hp hq with rfl | hother
    · rcases promised_next hsub hplaced (hinv.results q hq) hmatch hpromise hnext
        with hstill | ⟨d, hd, hspec⟩
      · exact .inr ⟨_, mem_set_self hp, rfl, rfl, hstill⟩
      · exact .inl ⟨d, List.mem_append_right _ hd, hspec⟩
    · exact .inr ⟨q, hother, rfl, rfl, hpromise⟩

/-- A message that a publish has just stored is covered: the call owes it. -/
theorem covered_stored {p : Publishing δ} (hstore : p.phase.isStore = true) {msg : Retained}
    (hreader : t.reader = s.reader.after p)
    (howed : Owed filter sub.clientID p.topic msg.payload t) :
    Covered filter sub.clientID p.topic msg t := by
  cases hs : s.reader with
  | subscribe | start => simp only [Covered, hreader, hs, Reader.after]
  | ranging snapshot replaced visited =>
      simp only [Covered, hreader, hs, Reader.after, hstore, if_true]
      exact ⟨fun _ => howed, fun hnot => absurd List.mem_cons_self hnot⟩
  | done =>
      simp only [Covered, hreader, hs, Reader.after]
      exact howed

/-- Of a message that was there before the reader's share is as it was. -/
theorem covered_kept {p : Publishing δ} {topic : GoString} {msg : Retained}
    {calls : List (Delivery δ)} (hother : ¬ (p.phase.isStore = true ∧ topic = p.topic))
    (hreader : t.reader = s.reader.after p) (hdelivered : t.delivered = s.delivered ++ calls)
    (howed : s.reader ≠ .subscribe → Owed filter sub.clientID topic msg.payload s →
      Owed filter sub.clientID topic msg.payload t)
    (hbefore : Covered filter sub.clientID topic msg s) :
    Covered filter sub.clientID topic msg t := by
  cases hs : s.reader with
  | subscribe | start => simp only [Covered, hreader, hs, Reader.after]
  | ranging snapshot replaced visited =>
      have hreplaced : topic ∈ (if p.phase.isStore then p.topic :: replaced else replaced) ↔
          topic ∈ replaced := by
        split_ifs with hstore
        · simp [show topic ≠ p.topic from fun heq => hother ⟨hstore, heq⟩]
        · rfl
      simp only [Covered, hs] at hbefore
      simp only [Covered, hreader, hs, Reader.after]
      refine ⟨fun hin => howed (by simp [hs]) (hbefore.1 (hreplaced.mp hin)), fun hin => ?_⟩
      obtain ⟨hsnapshot, hvisited⟩ := hbefore.2 (mt hreplaced.mpr hin)
      exact ⟨hsnapshot, fun hv => (hvisited hv).append hdelivered⟩
  | done =>
      simp only [Covered, hs] at hbefore
      simp only [Covered, hreader, hs, Reader.after]
      exact howed (by simp [hs]) hbefore

theorem covered_publish (hinv : Inv filter sub s) (hsub : sub.deliver.isSome) {j now : Nat}
    (h : step filter sub s (.publish j now) = some t) {topic : GoString} {msg : Retained}
    (hmatch : topicMatchesFilter topic (matchFilter filter) = true)
    (hmsg : t.router.retained.get topic = some msg) : Covered filter sub.clientID topic msg t := by
  have howed (hread : s.reader ≠ .subscribe) (howed :
      Owed filter sub.clientID topic msg.payload s) :
      Owed filter sub.clientID topic msg.payload t :=
    owed_publish hinv hsub (hinv.placed hread) hmatch howed h
  obtain ⟨p, phase, r', calls, hp, hnext, rfl⟩ := step_publish h
  obtain ⟨hretain, hpayload⟩ := hinv.retaining p (List.mem_of_getElem? hp)
  have hretained := next_retained hnext hretain hpayload topic
  simp only at hmsg
  rw [hmsg] at hretained
  split_ifs at hretained with hstored
  · obtain ⟨hstore, rfl⟩ := hstored
    cases hretained
    refine covered_stored hstore rfl (.inr ⟨_, mem_set_self hp, rfl, rfl, promised_store hnext ?_⟩)
    cases hphase : p.phase <;> simp [hphase, PublishPhase.isStore] at hstore ⊢
  · exact covered_kept hstored rfl rfl howed (hinv.covered topic msg hmatch hretained.symm)

theorem inv_publish (hinv : Inv filter sub s) (hsub : sub.deliver.isSome) {j now : Nat}
    (h : step filter sub s (.publish j now) = some t) : Inv filter sub t := by
  have hcovered (topic : GoString) (msg : Retained)
      (hmatch : topicMatchesFilter topic (matchFilter filter) = true)
      (hmsg : t.router.retained.get topic = some msg) : Covered filter sub.clientID topic msg t :=
    covered_publish hinv hsub h hmatch hmsg
  obtain ⟨p, phase, r', calls, hp, hnext, rfl⟩ := step_publish h
  have hmem := List.mem_of_getElem? hp
  have hreader : s.reader.after p = .subscribe ↔ s.reader = .subscribe := by
    cases s.reader <;> simp [Reader.after]
  refine ⟨each_next hnext hinv.owned, ?_, ?_,
    fun h => next_ready hnext (hinv.ready (hreader.mp h)),
    fun h => next_inPlace hnext (hinv.placed fun h' => h (hreader.mpr h')), hcovered⟩
  · intro q hq
    rcases List.mem_or_eq_of_mem_set hq with hq | rfl
    · exact hinv.results q hq
    · exact next_results hinv.owned (hinv.results p hmem) hnext
  · intro q hq
    rcases List.mem_or_eq_of_mem_set hq with hq | rfl
    · exact hinv.retaining q hq
    · exact hinv.retaining p hmem

theorem inv_subscribe (hinv : Inv filter sub s) (hsub : sub.deliver.isSome)
    (h : step filter sub s .subscribe = some t) : Inv filter sub t := by
  cases hreader : s.reader with
  | start | ranging | done => simp [step, hreader] at h
  | subscribe =>
      simp only [step, hreader, Option.some.injEq] at h
      subst h
      exact ⟨hinv.owned.subscribe filter ⟨rfl, hsub⟩, hinv.results, hinv.retaining,
        fun h => (by cases h),
        fun _ => inPlace_subscribe (hinv.ready hreader), fun topic msg _ _ => trivial⟩

/-- The steps of SendRetained leave the router and the publishes alone. -/
theorem Inv.read (hinv : Inv filter sub s) (hread : s.reader ≠ .subscribe) {reader : Reader}
    {delivered : List (Delivery δ)} (hreader : reader ≠ .subscribe)
    (hcovered : ∀ topic msg, topicMatchesFilter topic (matchFilter filter) = true →
      Covered filter sub.clientID topic msg s → s.router.retained.get topic = some msg →
        Covered filter sub.clientID topic msg { s with reader := reader, delivered := delivered }) :
    Inv filter sub { s with reader := reader, delivered := delivered } where
  owned := hinv.owned
  results := hinv.results
  retaining := hinv.retaining
  ready h := absurd h hreader
  placed _ := hinv.placed hread
  covered topic msg hmatch hmsg :=
    hcovered topic msg hmatch (hinv.covered topic msg hmatch hmsg) hmsg

theorem inv_rangeStart (hinv : Inv filter sub s) (h : step filter sub s .rangeStart = some t) :
    Inv filter sub t := by
  cases hreader : s.reader with
  | subscribe | ranging | done => simp [step, hreader] at h
  | start =>
      simp only [step, hreader, Option.some.injEq] at h
      subst h
      refine hinv.read (by simp [hreader]) (by simp) fun topic msg _ _ hmsg => ?_
      exact ⟨fun hin => absurd hin List.not_mem_nil,
        fun _ => ⟨hmsg, fun hv => absurd hv List.not_mem_nil⟩⟩

/-- Range hands each value it visits to the subscriber's closure. -/
theorem inv_visit (hinv : Inv filter sub s) (hsub : sub.deliver.isSome) {topic : GoString}
    {msg : Retained} (h : step filter sub s (.visit topic msg) = some t) : Inv filter sub t := by
  cases hreader : s.reader with
  | subscribe | start | done => simp [step, hreader] at h
  | ranging snapshot replaced visited =>
      simp only [step, hreader, Option.ite_none_right_eq_some, Option.some.injEq,
        List.contains_iff_mem] at h
      obtain ⟨⟨-, hvalue⟩, rfl⟩ := h
      refine hinv.read (by simp [hreader]) (by simp) fun topic' msg' hmatch hbefore hmsg => ?_
      simp only [Covered, hreader] at hbefore
      refine ⟨fun hin => ?_, fun hin => ?_⟩
      · rcases hbefore.1 hin with hdone | hpending
        · exact .inl (hdone.append rfl)
        · exact .inr hpending
      · obtain ⟨hsnapshot, hdelivered⟩ := hbefore.2 hin
        refine ⟨hsnapshot, fun hv => ?_⟩
        rcases List.mem_cons.mp hv with rfl | hv
        · -- the value visited is the one of the snapshot, since the topic was not stored since
          have hsame : msg = msg' := by
            rcases hvalue with hvalue | hvalue
            · exact Option.some.inj (hvalue.symm.trans hsnapshot)
            · exact absurd hvalue hin
          subst hsame
          obtain ⟨d, hd, hspec⟩ :=
            deliverTo_own (c := sub.clientID) ⟨rfl, hsub⟩ topic' msg.payload msg.qos true
          exact ⟨d, by simp [sendVisited, hmatch, hd], hspec⟩
        · exact (hdelivered hv).append rfl

theorem inv_rangeEnd (hinv : Inv filter sub s) (h : step filter sub s .rangeEnd = some t) :
    Inv filter sub t := by
  cases hreader : s.reader with
  | subscribe | start | done => simp [step, hreader] at h
  | ranging snapshot replaced visited =>
      simp only [step, hreader, Option.ite_none_right_eq_some, Option.some.injEq,
        List.contains_iff_mem] at h
      obtain ⟨hall, rfl⟩ := h
      refine hinv.read (by simp [hreader]) (by simp) fun topic msg _ hbefore _ => ?_
      simp only [Covered, hreader] at hbefore
      by_cases hin : topic ∈ replaced
      · exact hbefore.1 hin
      · obtain ⟨hsnapshot, hdelivered⟩ := hbefore.2 hin
        have hvisited := (hall topic ((snapshot.mem_keys _).mpr ⟨msg, hsnapshot⟩)).resolve_left hin
        exact .inl (hdelivered hvisited)

theorem inv_step (hsub : sub.deliver.isSome) (s : State δ) (a : Action) (t : State δ)
    (hinv : Inv filter sub s) (h : step filter sub s a = some t) : Inv filter sub t := by
  cases a with
  | publish j now => exact inv_publish hinv hsub h
  | subscribe => exact inv_subscribe hinv hsub h
  | rangeStart => exact inv_rangeStart hinv h
  | visit topic msg => exact inv_visit hinv hsub h
  | rangeEnd => exact inv_rangeEnd hinv h

/-- When all calls have returned no publish owes a message any more. -/
theorem Inv.delivered (hinv : Inv filter sub s) (hfin : Finished s) {topic : GoString}
    {msg : Retained} (hmatch : topicMatchesFilter topic (matchFilter filter) = true)
    (hmsg : s.router.retained.get topic = some msg) :
    Delivered sub.clientID topic msg.payload s := by
  have hcovered := hinv.covered topic msg hmatch hmsg
  simp only [Covered, hfin.1] at hcovered
  refine hcovered.resolve_right ?_
  rintro ⟨p, hp, -, -, hpromise⟩
  rw [hfin.2 p hp] at hpromise
  cases hf : Protocol.parseSharedTopicFilter filter with
  | none => simp only [Promised, hf] at hpromise
  | some parts => simp only [Promised, hf, List.not_mem_nil] at hpromise

end Run

section Start

/-- The router of a broker that has loaded the stored retained messages and run for a while. -/
def running (stored : FinMap GoString Retained) (events : List (Event δ)) : Router δ :=
  runEvents { (new : Router δ) with retained := stored } events

theorem owned_running (stored : FinMap GoString Retained) {events : List (Event δ)}
    (he : ∀ e ∈ events, e.HasDeliver) : Each Own (running stored events) := by
  have hloaded : Each Own { (new : Router δ) with retained := stored } :=
    ⟨each_new.trie, each_new.shared⟩
  refine hloaded.runEvents fun e hmem => ?_
  have hdeliver := he e hmem
  cases e with
  | call c =>
      cases c with
      | subscribe filter sub => exact ⟨rfl, hdeliver⟩
      | unsubscribe filter clientID | unsubscribeAll clientID => trivial
  | publish topic payload qos retain now => trivial

theorem ready_running {filter c : GoString} {stored : FinMap GoString Retained}
    {events : List (Event δ)} (h : Reached filter c (running stored events)) :
    Ready filter c (running stored events) := by
  have hgrouped : Grouped { (new : Router δ) with retained := stored } Table.empty :=
    ⟨grouped_new.members, grouped_new.keyed, grouped_new.inhabited, grouped_new.owner⟩
  cases hf : Protocol.parseSharedTopicFilter filter with
  | none => simpa only [Ready, Reached, hf] using h
  | some parts =>
      simp only [Ready, Reached, hf] at h ⊢
      exact fun g hg => ⟨(grouped_runEvents hgrouped events).topicFilter_eq hf hg, h g hg⟩

end Start

/-- Once the SUBSCRIBE and the publishes that race with it have finished, the client has been sent
the message left in the retained store for each topic the filter matches. -/
theorem retained_reaches_subscriber (filter : GoString) (sub : Subscriber δ)
    (stored : FinMap GoString Retained) (events : List (Event δ)) (publishes : List (Publishing δ))
    (actions : List Action) (t : State δ) (hsub : sub.deliver.isSome)
    (hevents : ∀ e ∈ events, e.HasDeliver)
    (hpublishes : ∀ p ∈ publishes, p.phase = .store ∧ p.retain = true ∧ p.payload ≠ [])
    (hreached : Reached filter sub.clientID (running stored events))
    (hrun : run (step filter sub) actions ⟨running stored events, publishes, .subscribe, []⟩ =
      some t) (hfin : Finished t) (topic : GoString) (msg : Retained)
    (hmatch : topicMatchesFilter topic (matchFilter filter) = true)
    (hmsg : t.router.retained.get topic = some msg) :
    Delivered sub.clientID topic msg.payload t := by
  have hstart : Inv filter sub ⟨running stored events, publishes, .subscribe, []⟩ := by
    refine ⟨owned_running stored hevents, ?_, fun p hp => (hpublishes p hp).2,
      fun _ => ready_running hreached, fun h => absurd rfl h, fun _ _ _ _ => trivial⟩
    intro p hp todo result hphase
    rw [(hpublishes p hp).1] at hphase
    cases hphase
  exact (preserved_run (inv_step hsub) hstart hrun).delivered hfin hmatch hmsg

/-- The client z, with its closure. -/
def z : Subscriber Nat := ⟨str "z", 1, some 0⟩

/-- A retained publish that has not begun. -/
def update (topic : String) : Publishing Nat := ⟨str topic, [1], 0, true, .store⟩

/-- The store and the search of all shards. -/
def searching : List Action := List.replicate (numShards + 1) (.publish 0 7)

/-- The publish finds no subscription; the message is read from the store. -/
def readFromStore : List Action :=
  searching ++
    [.subscribe, .rangeStart, .visit (str "a") ⟨str "a", [1], 0, 7⟩, .publish 0 0,
      .publish 0 0, .rangeEnd]

theorem retained_reaches_subscriber_from_store : ∃ t,
    run (step (str "a") z) readFromStore ⟨running FinMap.empty [], [update "a"], .subscribe, []⟩ =
      some t ∧
      t.router.retained.get (str "a") = some ⟨str "a", [1], 0, 7⟩ ∧
        Delivered (str "z") (str "a") [1] t := by
  obtain ⟨t, ht, hfin, hmsg⟩ := reaches_of_any (step (str "a") z) readFromStore
    ⟨running FinMap.empty [], [update "a"], .subscribe, []⟩
    (fun t => Finished t ∧ t.router.retained.get (str "a") = some ⟨str "a", [1], 0, 7⟩)
    (by decide +kernel)
  have hpublishes : ∀ p ∈ [update "a"], p.phase = .store ∧ p.retain = true ∧ p.payload ≠ [] := by
    intro p hp
    rw [List.mem_singleton.mp hp]
    exact ⟨rfl, rfl, by simp [update]⟩
  have hlast : Protocol.HashLast (splitFilter (str "a")) :=
    hashLast_splitFilter (by decide +kernel) (by decide +kernel)
  have hreached : Reached (str "a") (str "z") (running FinMap.empty [] : Router Nat) := hlast
  exact ⟨t, ht, hmsg, retained_reaches_subscriber (str "a") z FinMap.empty [] [update "a"]
    readFromStore t rfl
    (fun e he => absurd he List.not_mem_nil) hpublishes hreached ht hfin (str "a") _
    (by decide +kernel) hmsg⟩

/-- The message is left in the store and the client has not been sent it. -/
def Missed (filter topic : GoString) (t : State Nat) : Prop :=
  Finished t ∧ topicMatchesFilter topic (matchFilter filter) = true ∧
    t.router.retained.get topic = some ⟨topic, [1], 0, 7⟩ ∧ ¬ Delivered (str "z") topic [1] t

instance (filter topic : GoString) (t : State Nat) : Decidable (Missed filter topic t) :=
  inferInstanceAs (Decidable (_ ∧ _ ∧ _ ∧ _))

/-- The subscriber reads the empty store, then the publish runs. -/
def readBefore : List Action :=
  [.subscribe, .rangeStart, .rangeEnd] ++ searching ++ List.replicate 2 (.publish 0 0)

/-- Another member of the group gets the message; and a filter the trie does not match is one the
reading of the store would have matched. -/
theorem retained_update_missed :
    (∃ t, run (step (str "$share/g/a") z) (readBefore ++ [.publish 0 0])
        ⟨running FinMap.empty [.call (.subscribe (str "$share/g/a") ⟨str "y", 1, some 1⟩)],
          [update "a"], .subscribe, []⟩ = some t ∧ Missed (str "$share/g/a") (str "a") t) ∧
    ∃ t, run (step (str "a/#/b") z) readBefore
      ⟨running FinMap.empty [], [update "a/c"], .subscribe, []⟩ = some t ∧
      Missed (str "a/#/b") (str "a/c") t :=
  ⟨reaches_of_any _ _ _ _ (by decide +kernel), reaches_of_any _ _ _ _ (by decide +kernel)⟩

end LumaBroker.Router.RetainedRace
