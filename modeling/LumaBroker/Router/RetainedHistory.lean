import LumaBroker.Lib.History
import LumaBroker.Router.Publishing
import LumaBroker.Router.Table

/-!
The retained store of internal/router/router.go over histories of calls. What it keeps of a
topic is the last call that retained a message for it or cleared it, and SendRetained
delivers from it to a new subscriber. The number of retained messages is counted beside the
store: clearing a topic takes one off, whether or not there was something to clear.
-/

namespace LumaBroker.Router
variable {δ : Type}

/-- SendRetained: the closures called by the Range over the retained store. -/
def sendRetained (filter : GoString) (sub : Subscriber δ) (r : Router δ) : List (Delivery δ) :=
  r.retained.entries.flatMap fun e => sendVisited filter sub e.1 e.2

/-- The calls of the router; time.Now of a Publish is a parameter. -/
inductive RouterCall (δ : Type) where
  | publish (topic : GoString) (payload : List UInt8) (qos : UInt8) (retain : Bool) (now : Nat)
  | setRetained (msg : Retained)
  | subscription (call : Call δ)

namespace RouterCall

def exec (r : Router δ) : RouterCall δ → Router δ
  | .publish topic payload qos retain now => (r.publish topic payload qos retain now).router
  | .setRetained msg => r.setRetained msg
  | .subscription call => r.exec call

/-- A Publish with the retain flag, or a SetRetained, for the topic. -/
def retains (topic : GoString) : RouterCall δ → Bool
  | .publish t _ _ retain _ => retain && decide (t = topic)
  | .setRetained msg => decide (msg.topic = topic)
  | .subscription _ => false

/-- What a retaining call leaves: nothing if it is a Publish with an empty payload. -/
def leaves : RouterCall δ → Option (List UInt8 × UInt8)
  | .publish _ payload qos _ _ => if payload = [] then none else some (payload, qos)
  | .setRetained msg => some (msg.payload, msg.qos)
  | .subscription _ => none

end RouterCall

def afterCalls (calls : List (RouterCall δ)) : Router δ := calls.foldl RouterCall.exec new

/-- The message of a topic by its history: that of the last retaining call. -/
def retainedBy (calls : List (RouterCall δ)) (topic : GoString) : Option (List UInt8 × UInt8) :=
  (History.last (RouterCall.retains topic) calls).bind RouterCall.leaves

section Store

theorem retained_setRetained (msg : Retained) (r : Router δ) :
    (r.setRetained msg).retained = r.retained.set msg.topic msg := by
  simp only [setRetained]
  split_ifs <;> rfl

/-- A Publish that stores does what SetRetained does. -/
theorem retainMessage_of_ne_nil {payload : List UInt8} (hp : payload ≠ []) (topic : GoString)
    (qos : UInt8) (now : Nat) (r : Router δ) :
    retainMessage topic payload qos now r = r.setRetained ⟨topic, payload, qos, now⟩ := by
  have hlen : ¬ payload.length = 0 := fun h => hp (List.length_eq_zero_iff.mp h)
  rw [retainMessage, if_neg hlen, setRetained]

theorem retained_publish (topic : GoString) (payload : List UInt8) (qos : UInt8)
    (retain : Bool) (now : Nat) (r : Router δ) :
      (r.publish topic payload qos retain now).router.retained =
      if retain = true then
        r.retained.put topic (if payload = [] then none else some ⟨topic, payload, qos, now⟩)
      else r.retained := by
  cases retain with
  | false => rfl
  | true =>
      change (retainMessage topic payload qos now r).retained = _
      by_cases hp : payload = []
      · simp [retainMessage, addRetained, hp, FinMap.put_none]
      · rw [retainMessage_of_ne_nil hp, retained_setRetained, if_pos rfl, if_neg hp,
          FinMap.put_some]

/-- Subscriptions leave the store and its counters alone. -/
theorem exec_keeps_retained (r : Router δ) (call : Call δ) :
    (r.exec call).retained = r.retained ∧ (r.exec call).retainedCount = r.retainedCount ∧
      (r.exec call).metrics.retainedMessages = r.metrics.retainedMessages := by
  cases call with
  | subscribe filter sub =>
      simp only [exec, subscribe]
      split <;> exact ⟨rfl, rfl, rfl⟩
  | unsubscribe filter clientID =>
      simp only [exec, unsubscribe, unsubscribeShared]
      split
      · split <;> exact ⟨rfl, rfl, rfl⟩
      · exact ⟨rfl, rfl, rfl⟩
  | unsubscribeAll clientID => exact ⟨rfl, rfl, rfl⟩

theorem get_routerCall_exec (r : Router δ) (call : RouterCall δ) (topic : GoString) :
    ((call.exec r).retained.get topic).map (fun msg => (msg.payload, msg.qos)) =
      if call.retains topic = true then call.leaves
      else (r.retained.get topic).map fun msg => (msg.payload, msg.qos) := by
  cases call with
  | publish t payload qos retain now =>
      rw [RouterCall.exec, retained_publish]
      cases retain with
      | false => rfl
      | true =>
          rw [if_pos rfl, FinMap.get_put]
          by_cases ht : topic = t
          · by_cases hp : payload = [] <;> simp [RouterCall.retains, RouterCall.leaves, ht, hp]
          · simp [RouterCall.retains, ht, Ne.symm ht]
  | setRetained msg =>
      rw [RouterCall.exec, retained_setRetained, FinMap.get_set]
      by_cases ht : topic = msg.topic
      · simp [RouterCall.retains, RouterCall.leaves, ht]
      · simp [RouterCall.retains, ht, Ne.symm ht]
  | subscription call =>
      rw [RouterCall.exec, (exec_keeps_retained r call).1]
      rfl

/-- The store keeps of each topic what its last retaining call left. -/
theorem get_afterCalls (calls : List (RouterCall δ)) (topic : GoString) :
    ((afterCalls calls).retained.get topic).map
    (fun msg => (msg.payload, msg.qos)) = retainedBy calls topic := by
  induction calls using List.reverseRecOn with
  | nil => rfl
  | append_singleton calls call ih =>
      have hlast : retainedBy (calls ++ [call]) topic =
          if call.retains topic = true then call.leaves else retainedBy calls topic := by
        rw [retainedBy, History.last_concat]
        split_ifs <;> rfl
      rw [afterCalls, List.foldl_concat, get_routerCall_exec, ← afterCalls, ih, hlast]

end Store

section Delivery

theorem topic_sendVisited {filter : GoString} {sub : Subscriber δ} {topic : GoString}
    {msg : Retained} {d : Delivery δ} (h : d ∈ sendVisited filter sub topic msg) :
    d.topic = topic := by
  rw [sendVisited] at h
  split_ifs at h with hmatch
  · obtain ⟨deliver, -, rfl⟩ := Option.map_eq_some_iff.mp (Option.mem_toList.mp h)
    rfl
  · cases h

theorem filter_sendRetained (filter : GoString) (sub : Subscriber δ) (r : Router δ)
    (topic : GoString) :
    (sendRetained filter sub r).filter (fun d => decide (d.topic = topic)) =
      (r.retained.get topic).elim [] (sendVisited filter sub topic) := by
  have hkey (entries : List (GoString × Retained)) :
      (entries.flatMap fun e => sendVisited filter sub e.1 e.2).filter
        (fun d => decide (d.topic = topic)) =
        (entries.filter fun e => decide (e.1 = topic)).flatMap fun e =>
          sendVisited filter sub e.1 e.2 := by
    induction entries with
    | nil => rfl
    | cons e entries ih =>
        rw [List.flatMap_cons, List.filter_append, ih]
        by_cases he : e.1 = topic
        · rw [List.filter_eq_self.mpr fun d hd => decide_eq_true ((topic_sendVisited hd).trans he),
            List.filter_cons_of_pos (by simpa using he), List.flatMap_cons]
        · rw [List.filter_eq_nil_iff.mpr fun d hd => by simp [topic_sendVisited hd, he],
            List.filter_cons_of_neg (by simpa using he), List.nil_append]
  rw [sendRetained, hkey, FinMap.filter_entries_key]
  cases r.retained.get topic <;> simp

/-- A new subscriber receives the retained messages of the topics that match its filter, the
inner one if it is shared, each once and with the retain flag. -/
theorem sendRetained_exact (calls : List (RouterCall δ)) (filter : GoString)
    (hvalid : Protocol.validTopicFilter filter = true) (sub : Subscriber δ) (topic : GoString) :
    (∀ payload qos, LevelsMatch (splitFilter topic) (splitFilter (matchFilter filter)) →
      retainedBy calls topic = some (payload, qos) →
        (sendRetained filter sub (afterCalls calls)).filter (fun d => decide (d.topic = topic)) =
          sub.deliver.toList.map fun deliver =>
            ⟨sub.clientID, deliver, topic, payload, min qos sub.qos, true, 0⟩) ∧
    (¬ (LevelsMatch (splitFilter topic) (splitFilter (matchFilter filter)) ∧
        retainedBy calls topic ≠ none) →
        (sendRetained filter sub (afterCalls calls)).filter
        (fun d => decide (d.topic = topic)) = []) := by
  have hstore := get_afterCalls calls topic
  rw [filter_sendRetained, ← topicMatchesFilter_iff hvalid, ← hstore]
  cases hget : (afterCalls calls).retained.get topic with
  | none => simp
  | some msg =>
      rw [Option.elim_some, Option.map_some]
      refine ⟨fun payload qos hmatch hmsg => ?_, fun hno => ?_⟩
      · cases hmsg
        rw [sendVisited, if_pos hmatch, deliverTo]
        cases sub.deliver with
        | none => rfl
        | some deliver =>
            rw [Option.map_some, Option.toList_some, Option.toList_some, List.map_singleton]
            congr 2
            rw [min_comm, min_def_lt]
      · have hmatch : topicMatchesFilter topic (matchFilter filter) ≠ true :=
          fun hmatch => hno ⟨hmatch, Option.some_ne_none _⟩
        rw [sendVisited, if_neg hmatch]

/-- A message stored over another one, and one cleared again. -/
def retainedCalls : List (RouterCall Nat) :=
  [.publish (str "a/b") [1] 0 true 1, .setRetained ⟨str "a/c", [2], 1, 2⟩,
    .publish (str "a/c") [] 0 true 3,
    .publish (str "a/b") [3] 2 true 4, .publish (str "a/b") [4] 2 false 5]

theorem sendRetained_exact_shared :
    (sendRetained (str "$share/g/a/+") ⟨str "c1", 1, some 7⟩ (afterCalls retainedCalls)).filter
        (fun d => decide (d.topic = str "a/b")) = [⟨str "c1", 7, str "a/b", [3], 1, true, 0⟩] ∧
      (sendRetained (str "$share/g/a/+") ⟨str "c1", 1, some 7⟩ (afterCalls retainedCalls)).filter
        (fun d => decide (d.topic = str "a/c")) = [] := by
  have hexact :=
    sendRetained_exact retainedCalls (str "$share/g/a/+") (by decide) ⟨str "c1", 1, some 7⟩
  have hmatch : LevelsMatch (splitFilter (str "a/b"))
      (splitFilter (matchFilter (str "$share/g/a/+"))) :=
    (topicMatchesFilter_iff (by decide) _).mp (by decide)
  exact ⟨(hexact (str "a/b")).1 [3] 2 hmatch (by decide),
    (hexact (str "a/c")).2 fun h => h.2 (by decide)⟩

end Delivery

section Count

/-- The topic that a Publish with the retain flag and an empty payload clears. -/
def RouterCall.clears : RouterCall δ → Option GoString
  | .publish topic [] _ true _ => some topic
  | _ => none

/-- Only a retained message is cleared. -/
def RouterCall.ClearsRetained (before : List (RouterCall δ)) (call : RouterCall δ) : Prop :=
  ∀ topic, call.clears = some topic → retainedBy before topic ≠ none

/-- How a call moves the counter, the gauge and the store. -/
structure Moves (call : RouterCall δ) (r r' : Router δ) (n : Int) : Prop where
  count : r'.retainedCount = r.retainedCount + n
  gauge : r'.metrics.retainedMessages = r.metrics.retainedMessages + n
  size : (∀ topic, call.clears = some topic → r.retained.get topic ≠ none) ∧
      (r'.retained.size : Int) = r.retained.size + n ∨
    (∃ topic, call.clears = some topic ∧ r.retained.get topic = none) ∧
      (r'.retained.size : Int) = r.retained.size + n + 1

theorem moves_store (call : RouterCall δ) (hclears : call.clears = none) (msg : Retained)
    (r : Router δ) : ∃ n, Moves call r (r.setRetained msg) n := by
  have hnone : ∀ topic, call.clears = some topic → r.retained.get topic ≠ none := by simp [hclears]
  cases hget : r.retained.get msg.topic with
  | none =>
      refine ⟨1, ?_, ?_, .inl ⟨hnone, ?_⟩⟩
      · simp [setRetained, hget, addRetained]
      · simp [setRetained, hget, addRetained]
      · rw [retained_setRetained, FinMap.size_set_of_get_none msg hget]
        rfl
  | some old =>
      refine ⟨0, ?_, ?_, .inl ⟨hnone, ?_⟩⟩
      · simp [setRetained, hget]
      · simp [setRetained, hget]
      · rw [retained_setRetained, FinMap.size_set_of_get_some msg hget, add_zero]

theorem moves_clear (topic : GoString) (qos : UInt8) (now : Nat) (r : Router δ) :
    Moves (.publish topic [] qos true now) r (retainMessage topic [] qos now r) (-1) := by
  refine ⟨rfl, rfl, ?_⟩
  change _ ∧ ((r.retained.erase topic).size : Int) = _ ∨ _ ∧
    ((r.retained.erase topic).size : Int) = _
  cases hget : r.retained.get topic with
  | none =>
      refine .inr ⟨⟨topic, rfl, hget⟩, ?_⟩
      rw [FinMap.erase_of_get_none hget]
      omega
  | some msg =>
      refine .inl ⟨?_, ?_⟩
      · rintro _ ⟨⟩
        rw [hget]
        exact Option.some_ne_none msg
      · have hsize := FinMap.size_erase hget
        omega

theorem moves_exec (call : RouterCall δ) (r : Router δ) : ∃ n, Moves call r (call.exec r) n := by
  have hsame (r' : Router δ) (hclears : call.clears = none) (hretained : r'.retained = r.retained)
      (hcount : r'.retainedCount = r.retainedCount)
      (hgauge : r'.metrics.retainedMessages = r.metrics.retainedMessages) : Moves call r r' 0 := by
    refine ⟨by omega, by omega, .inl ⟨?_, ?_⟩⟩
    · simp [hclears]
    · rw [hretained, add_zero]
  cases call with
  | publish topic payload qos retain now =>
      cases retain with
      | false => exact ⟨0, hsame _ (by cases payload <;> rfl) rfl rfl rfl⟩
      | true =>
          cases payload with
          | nil =>
              have hmoves := moves_clear topic qos now r
              exact ⟨-1, hmoves.count, hmoves.gauge, hmoves.size⟩
          | cons b payload =>
              obtain ⟨n, hmoves⟩ := moves_store (.publish topic (b :: payload) qos true now) rfl
                ⟨topic, b :: payload, qos, now⟩ r
              rw [← retainMessage_of_ne_nil (List.cons_ne_nil b payload)] at hmoves
              exact ⟨n, hmoves.count, hmoves.gauge, hmoves.size⟩
  | setRetained msg => exact moves_store (.setRetained msg) rfl msg r
  | subscription call =>
      obtain ⟨hretained, hcount, hgauge⟩ := exec_keeps_retained r call
      exact ⟨0, hsame _ rfl hretained hcount hgauge⟩

/-- The counter never exceeds the number of retained topics, and falls behind with each clear
of a topic that has no retained message. -/
theorem counts_afterCalls (calls : List (RouterCall δ)) :
    (afterCalls calls).metrics.retainedMessages = (afterCalls calls).retainedCount ∧
      (afterCalls calls).retainedCount ≤ (afterCalls calls).retained.size ∧
      ((afterCalls calls).retainedCount = (afterCalls calls).retained.size ↔
        History.Each RouterCall.ClearsRetained calls) := by
  induction calls using List.reverseRecOn with
  | nil => exact ⟨rfl, le_refl 0, fun _ => History.each_nil _, fun _ => rfl⟩
  | append_singleton calls call ih =>
      obtain ⟨hgauge, hle, hexact⟩ := ih
      have hretained (topic : GoString) :
          (afterCalls calls).retained.get topic = none ↔ retainedBy calls topic = none := by
        rw [← get_afterCalls, Option.map_eq_none_iff]
      obtain ⟨n, hmoves⟩ := moves_exec call (afterCalls calls)
      rw [afterCalls, List.foldl_concat, ← afterCalls, History.each_concat, ← hexact, hmoves.count,
        hmoves.gauge, hgauge]
      refine ⟨rfl, ?_⟩
      rcases hmoves.size with ⟨hclears, hsize⟩ | ⟨⟨topic, hclears, hnone⟩, hsize⟩
      · have hcall : call.ClearsRetained calls := fun topic htopic hnone =>
          hclears topic htopic ((hretained topic).mpr hnone)
        refine ⟨by omega, fun h => ⟨by omega, hcall⟩, fun h => by omega⟩
      · refine ⟨by omega, fun h => by omega, fun h => ?_⟩
        exact absurd ((hretained topic).mp hnone) (h.2 topic hclears)

/-- The counter and the gauge are the number of retained topics exactly if each Publish that
cleared a topic found a retained message there. -/
theorem retainedCount_exact_iff (calls : List (RouterCall δ)) :
    ((afterCalls calls).retainedCount = (afterCalls calls).retained.size ∧
      (afterCalls calls).metrics.retainedMessages = (afterCalls calls).retained.size) ↔
        History.Each RouterCall.ClearsRetained calls := by
  obtain ⟨hgauge, -, hexact⟩ := counts_afterCalls calls
  rw [hgauge, and_self]
  exact hexact

theorem retainedCount_exact_cleared :
    (afterCalls retainedCalls).retained.size = 1 ∧ (afterCalls retainedCalls).retainedCount = 1 ∧
      (afterCalls retainedCalls).metrics.retainedMessages = 1 := by
  have hclears : History.Each RouterCall.ClearsRetained retainedCalls := by
    simp only [retainedCalls, History.each_cons, RouterCall.ClearsRetained, RouterCall.clears]
    refine ⟨by simp, by simp, ?_, by simp, by simp, History.each_nil _⟩
    rintro _ ⟨⟩
    decide
  have hsize : (afterCalls retainedCalls).retained.size = 1 := by decide +kernel
  obtain ⟨hcount, hgauge⟩ := (retainedCount_exact_iff retainedCalls).mpr hclears
  exact ⟨hsize, by rw [hcount, hsize]; rfl, by rw [hgauge, hsize]; rfl⟩

/-- One clear of a topic never retained: the counter and the gauge are negative. -/
theorem retainedCount_negative :
    (afterCalls [(.publish (str "t") [] 0 true 0 : RouterCall Unit)]).retained.size = 0 ∧
      (afterCalls [(.publish (str "t") [] 0 true 0 : RouterCall Unit)]).retainedCount = -1 ∧
      (afterCalls [(.publish (str "t") [] 0 true 0 : RouterCall Unit)]).metrics.retainedMessages =
        -1 := by
  decide +kernel

end Count

end LumaBroker.Router
