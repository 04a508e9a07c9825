import LumaBroker.Lib.Slice
import LumaBroker.Session.Session
import Mathlib.Data.List.DropRight

/-!
The offline queue of internal/session/session.go under any sequence of calls, each of them
one critical section of qMu. What the calls must return is a function of the calls before
them. The session meets it with its queue as a list; the source, which evicts, appends
and drains by slicing one array, returns the same lists, and what DrainQueue has returned
is not written to by the calls behind it.
-/

namespace LumaBroker.Session
open Slices

inductive QueueCall where
  | enqueue (msg : Queued)
  | drainQueue
  | queueLen
  deriving DecidableEq

/-- What a call returns, with the list of DrainQueue as the messages or as a slice. -/
inductive QueueResult (β : Type) where
  | enqueued (stored : Bool)
  | drained (msgs : β)
  | length (n : Nat)
  deriving DecidableEq

def QueueResult.map {β γ : Type} (f : β → γ) : QueueResult β → QueueResult γ
  | .enqueued stored => .enqueued stored
  | .drained msgs => .drained (f msgs)
  | .length n => .length n

def queueCall (s : Session) : QueueCall → Session × QueueResult (List Queued)
  | .enqueue msg => ((s.enqueue msg).1, .enqueued (s.enqueue msg).2)
  | .drainQueue => (s.drainQueue.1, .drained s.drainQueue.2)
  | .queueLen => (s, .length s.queueLen)

def queueCalls (s : Session) : List QueueCall → Session × List (QueueResult (List Queued))
  | [] => (s, [])
  | c :: calls =>
      let (t, r) := s.queueCall c
      let (u, results) := t.queueCalls calls
      (u, r :: results)

section History

def QueueCall.msg? : QueueCall → Option Queued
  | .enqueue msg => some msg
  | .drainQueue | .queueLen => none

/-- The messages enqueued since the last drain, in their order. -/
def sinceDrain (calls : List QueueCall) : List Queued :=
  (calls.rtakeWhile fun c => c ≠ .drainQueue).filterMap QueueCall.msg?

/-- The last messages since the last drain, as many as the limit allows. -/
def pending (maxQueue : Nat) (calls : List QueueCall) : List Queued :=
  (sinceDrain calls).rtake (min maxQueue (sinceDrain calls).length)

/-- What a call returns after the calls before it. -/
def expected (maxQueue : Nat) (before : List QueueCall) : QueueCall → QueueResult (List Queued)
  | .enqueue _ => .enqueued true
  | .drainQueue => .drained (pending maxQueue before)
  | .queueLen => .length (min maxQueue (sinceDrain before).length)

def expectedAll (maxQueue : Nat) :
    List QueueCall → List QueueCall → List (QueueResult (List Queued))
  | _, [] => []
  | before, c :: calls => expected maxQueue before c :: expectedAll maxQueue (before ++ [c]) calls

theorem sinceDrain_enqueue (calls : List QueueCall) (msg : Queued) :
    sinceDrain (calls ++ [.enqueue msg]) = sinceDrain calls ++ [msg] := by
  simp [sinceDrain, QueueCall.msg?]

theorem sinceDrain_drainQueue (calls : List QueueCall) :
    sinceDrain (calls ++ [.drainQueue]) = [] := by
  simp [sinceDrain]

theorem sinceDrain_queueLen (calls : List QueueCall) :
    sinceDrain (calls ++ [.queueLen]) = sinceDrain calls := by
  simp [sinceDrain, QueueCall.msg?]

theorem pending_nil (maxQueue : Nat) : pending maxQueue [] = [] := List.rtake_nil _

theorem pending_eq_rtake (maxQueue : Nat) (calls : List QueueCall) :
    pending maxQueue calls = (sinceDrain calls).rtake maxQueue := by
  rw [pending, List.rtake, List.rtake]
  congr 1
  omega

theorem length_pending (maxQueue : Nat) (calls : List QueueCall) :
    (pending maxQueue calls).length = min maxQueue (sinceDrain calls).length := by
  rw [pending, List.rtake, List.length_drop]
  omega

theorem pending_drainQueue (maxQueue : Nat) (calls : List QueueCall) :
    pending maxQueue (calls ++ [.drainQueue]) = [] := by
  rw [pending, sinceDrain_drainQueue, List.rtake_nil]

theorem pending_queueLen (maxQueue : Nat) (calls : List QueueCall) :
    pending maxQueue (calls ++ [.queueLen]) = pending maxQueue calls := by
  rw [pending, sinceDrain_queueLen, pending]

/-- One message more takes the place of the oldest once the limit is reached. -/
theorem pending_enqueue {maxQueue : Nat} (hmax : 1 ≤ maxQueue) (calls : List QueueCall)
    (msg : Queued) :
    pending maxQueue (calls ++ [.enqueue msg]) =
      (if (pending maxQueue calls).length ≥ maxQueue then (pending maxQueue calls).tail
        else pending maxQueue calls) ++ [msg] := by
  obtain ⟨n, rfl⟩ := Nat.exists_eq_add_of_le' hmax
  rw [length_pending, pending_eq_rtake, pending_eq_rtake, sinceDrain_enqueue,
    List.rtake_concat_succ]
  congr 1
  rw [List.rtake, List.rtake]
  split
  · rw [List.tail_drop]
    congr 1
    omega
  · congr 1
    omega

end History

section Runs
variable {s : Session}

/-- One call of a session whose queue is what the calls before have left pending. -/
theorem queueCall_eq (hpersistent : s.cleanSession = false) (hmax : 1 ≤ s.maxQueue)
    {before : List QueueCall} (hqueue : s.queue = pending s.maxQueue before) (c : QueueCall) :
    s.queueCall c =
      ({ s with queue := pending s.maxQueue (before ++ [c]) }, expected s.maxQueue before c) := by
  cases c with
  | enqueue msg =>
      rw [pending_enqueue hmax, ← hqueue, queueCall, enqueue_of_persistent hpersistent, expected]
  | drainQueue =>
      rw [pending_drainQueue]
      simp only [queueCall, drainQueue, expected, hqueue]
  | queueLen =>
      rw [pending_queueLen, expected, ← length_pending, ← hqueue]
      rfl

theorem queueCalls_eq (hpersistent : s.cleanSession = false) (hmax : 1 ≤ s.maxQueue)
    {before : List QueueCall} (hqueue : s.queue = pending s.maxQueue before)
    (calls : List QueueCall) :
    s.queueCalls calls =
      ({ s with queue := pending s.maxQueue (before ++ calls) },
        expectedAll s.maxQueue before calls) := by
  induction calls generalizing s before with
  | nil =>
      rw [List.append_nil, ← hqueue]
      rfl
  | cons c calls ih =>
      have hrest := @ih { s with queue := pending s.maxQueue (before ++ [c]) } hpersistent hmax
        (before ++ [c]) rfl
      rw [queueCalls, queueCall_eq hpersistent hmax hqueue c]
      simp only [hrest, expectedAll, List.append_assoc, List.singleton_append]

theorem maxQueue_queueCall (s : Session) (c : QueueCall) :
    (s.queueCall c).1.maxQueue = s.maxQueue := by
  cases c with
  | enqueue msg => exact apply_enqueue maxQueue (fun _ _ => rfl) msg s
  | drainQueue => rfl
  | queueLen => rfl

end Runs

/-- What Enqueue and DrainQueue use of a session, with the queue as the slice of pointers
that it is. A nil pointer is none. -/
structure QueueBuffer where
  cleanSession : Bool
  maxQueue : Nat
  heap : Heap (Option Queued)
  queue : Slice
  deriving DecidableEq

namespace QueueBuffer

/-- The queue without its head, if it is full. -/
def evicted (b : QueueBuffer) : Option Slice :=
  if b.queue.len ≥ b.maxQueue then b.queue.slice 1 b.queue.len else some b.queue

def enqueue (g : Growth) (msg : Queued) (b : QueueBuffer) : Option (QueueBuffer × Bool) :=
  if b.cleanSession then some (b, false)
  else b.evicted.map fun queue =>
    let (heap, queue) := b.heap.append g queue (some msg)
    ({ b with heap := heap, queue := queue }, true)

def drainQueue (b : QueueBuffer) : Option (QueueBuffer × Slice) :=
  if b.queue.len = 0 then some (b, Slice.nil)
  else
    let (heap, out) := b.heap.make b.queue.len
    let heap := heap.copy out b.queue
    (b.queue.slice 0 0).map fun queue => ({ b with heap := heap, queue := queue }, out)

def queueLen (b : QueueBuffer) : Nat := b.queue.len

def queueCall (g : Growth) (b : QueueBuffer) : QueueCall → Option (QueueBuffer × QueueResult Slice)
  | .enqueue msg => (b.enqueue g msg).map fun r => (r.1, .enqueued r.2)
  | .drainQueue => b.drainQueue.map fun r => (r.1, .drained r.2)
  | .queueLen => some (b, .length b.queueLen)

def queueCalls (g : Growth) (b : QueueBuffer) :
    List QueueCall → Option (QueueBuffer × List (QueueResult Slice))
  | [] => some (b, [])
  | c :: calls =>
      (b.queueCall g c).bind fun r => (r.1.queueCalls g calls).map fun rest =>
        (rest.1, r.2 :: rest.2)

/-- The slice reads as the queue of the session. -/
structure Holds (b : QueueBuffer) (s : Session) : Prop where
  cleanSession : b.cleanSession = s.cleanSession
  maxQueue : b.maxQueue = s.maxQueue
  has : b.heap.Has b.queue
  read : b.heap.read b.queue = s.queue.map some

/-- The calls in between have left alone what is apart from the queue. -/
def Spares (b b' : QueueBuffer) : Prop := Heap.Spares b.heap b.queue b'.heap b'.queue

/-- The result of a call reads as the one of the session, and no later call writes to it. -/
structure Returned (b : QueueBuffer) (r : QueueResult Slice)
    (r' : QueueResult (List Queued)) : Prop where
  read : r.map b.heap.read = r'.map (List.map some)
  apart : ∀ out, r = .drained out → b.heap.Has out ∧ b.queue.Apart out

section Simulation
variable {g : Growth} {b b' : QueueBuffer} {s : Session}

theorem Holds.len_eq (hb : b.Holds s) : b.queue.len = s.queue.length := by
  rw [← hb.has.length_read, hb.read, List.length_map]

theorem Returned.spares {r : QueueResult Slice} {r' : QueueResult (List Queued)}
    (h : b.Returned r r') (hspares : b.Spares b') : b'.Returned r r' := by
  cases r with
  | enqueued stored => exact ⟨h.read, fun _ hout => by cases hout⟩
  | length n => exact ⟨h.read, fun _ hout => by cases hout⟩
  | drained out =>
      have hout := h.apart out rfl
      have hkept := hspares out hout.1 hout.2
      refine ⟨?_, fun out' heq => ?_⟩
      · rw [QueueResult.map, hkept.2.2]
        exact h.read
      · cases heq
        exact ⟨hkept.1, hkept.2.1⟩

/-- The eviction never panics, since a queue at a limit of at least 1 has a head. -/
theorem exists_evicted (hb : b.Holds s) (hmax : 1 ≤ s.maxQueue) :
    ∃ queue, b.evicted = some queue ∧ b.heap.Has queue ∧
      b.heap.read queue = (if s.queue.length ≥ s.maxQueue then s.queue.tail else s.queue).map some ∧
      Heap.Spares b.heap b.queue b.heap queue := by
  rw [evicted, hb.len_eq, hb.maxQueue]
  split
  · next hfull =>
      have hlen := b.queue.len_le_cap
      rw [hb.len_eq] at hlen
      obtain ⟨queue, hqueue⟩ := Heap.exists_slice (Nat.le_trans hmax hfull) hlen
      refine ⟨queue, hqueue, hb.has.slice hqueue, ?_, Heap.spares_slice hqueue b.heap⟩
      rw [Heap.read_slice hqueue b.heap (Nat.le_of_eq hb.len_eq.symm), hb.read,
        List.take_of_length_le (Nat.le_of_eq (List.length_map _)), List.drop_one, List.map_tail]
  · exact ⟨b.queue, rfl, hb.has, hb.read, Heap.Spares.refl _ _⟩

theorem enqueue_of_clean (hb : b.Holds s) (hclean : s.cleanSession = true) (msg : Queued) :
    b.enqueue g msg = some (b, false) := by
  rw [enqueue, if_pos (hb.cleanSession.trans hclean)]

theorem enqueue_of_evicted (hpersistent : b.cleanSession = false) {queue : Slice}
    (hevicted : b.evicted = some queue) (msg : Queued) :
    b.enqueue g msg =
      some ({ b with
        heap := (b.heap.append g queue (some msg)).1, queue :=
  (b.heap.append g queue (some msg)).2 }, true) := by
  rw [enqueue, if_neg (Bool.eq_false_iff.mp hpersistent), hevicted, Option.map_some]

theorem enqueue_holds (hb : b.Holds s) (hmax : 1 ≤ s.maxQueue) (msg : Queued) :
    ∃ b', b.enqueue g msg = some (b', (s.enqueue msg).2) ∧ b'.Holds (s.enqueue msg).1 ∧
      b.Spares b' := by
  cases hclean : s.cleanSession with
  | true =>
      rw [Session.enqueue_of_clean hclean, enqueue_of_clean hb hclean]
      exact ⟨b, rfl, hb, Heap.Spares.refl _ _⟩
  | false =>
      obtain ⟨queue, hevicted, hhas, hread, hspares⟩ := exists_evicted hb hmax
      rw [Session.enqueue_of_persistent hclean,
        enqueue_of_evicted (hb.cleanSession.trans hclean) hevicted]
      refine ⟨_, rfl, ⟨hb.cleanSession, hb.maxQueue, Heap.has_append g _ hhas, ?_⟩,
        hspares.trans (Heap.spares_append g _ hhas)⟩
      rw [Heap.read_append g _ hhas, hread, List.map_append, List.map_singleton]

theorem Returned.drained {out : Slice} {msgs : List Queued}
    (hread : b.heap.read out = msgs.map some) (hhas : b.heap.Has out) (hapart : b.queue.Apart out) :
    b.Returned (.drained out) (.drained msgs) := by
  refine ⟨congrArg QueueResult.drained hread, fun out' heq => ?_⟩
  cases heq
  exact ⟨hhas, hapart⟩

theorem drainQueue_of_len (hlen : b.queue.len ≠ 0) (hhas : b.heap.Has b.queue) {queue : Slice}
    (hqueue : b.queue.slice 0 0 = some queue) :
    b.drainQueue = some ({ b with heap := b.heap.alloc (b.heap.read b.queue), queue := queue },
      (b.heap.make b.queue.len).2) := by
  rw [drainQueue, if_neg hlen, hqueue, ← Heap.copy_make hhas]
  rfl

/-- The list that DrainQueue returns is a copy, so the array can be used again. -/
theorem drainQueue_holds (hb : b.Holds s) :
    ∃ b' out, b.drainQueue = some (b', out) ∧ b'.Holds s.drainQueue.1 ∧ b.Spares b' ∧
      b'.Returned (.drained out) (.drained s.drainQueue.2) := by
  by_cases hlen : b.queue.len = 0
  · have hnil : s.queue = [] := List.eq_nil_of_length_eq_zero (hb.len_eq.symm.trans hlen)
    have hread : b.heap.read b.queue = [] := hb.read.trans (by rw [hnil, List.map_nil])
    rw [drainQueue, if_pos hlen, Session.drainQueue, hnil]
    refine ⟨b, Slice.nil, rfl, ⟨hb.cleanSession, hb.maxQueue, hb.has, hread⟩,
      Heap.Spares.refl _ _, ?_⟩
    exact .drained (Heap.read_of_cap_eq_zero _ rfl) (Heap.has_nil _) (.inr (.inl rfl))
  · obtain ⟨queue, hqueue⟩ := Heap.exists_slice (Nat.le_refl 0) (Nat.zero_le b.queue.cap)
    obtain ⟨hhas, hapart, hread⟩ := Heap.copied hb.has
    have hspares := Heap.spares_slice hqueue (b.heap.alloc (b.heap.read b.queue))
    have hempty : (b.heap.alloc (b.heap.read b.queue)).read queue = [] := by
      rw [Heap.read_slice hqueue _ (Nat.zero_le _)]
      rfl
    refine ⟨_, _, drainQueue_of_len hlen hb.has hqueue,
      ⟨hb.cleanSession, hb.maxQueue, (hb.has.alloc _).1.slice hqueue, hempty⟩,
      (Heap.spares_alloc _ _ _).trans hspares, ?_⟩
    exact .drained (hread.trans hb.read) hhas (hspares _ hhas hapart).2.1

theorem call_holds (hb : b.Holds s) (hmax : 1 ≤ s.maxQueue) (c : QueueCall) :
    ∃ b' r, b.queueCall g c = some (b', r) ∧ b'.Holds (s.queueCall c).1 ∧ b.Spares b' ∧
      b'.Returned r (s.queueCall c).2 := by
  cases c with
  | enqueue msg =>
      obtain ⟨b', henqueue, hholds, hspares⟩ := enqueue_holds (g := g) hb hmax msg
      refine ⟨b', .enqueued (s.enqueue msg).2, ?_, hholds, hspares, rfl,
        fun _ hout => by cases hout⟩
      rw [queueCall, henqueue, Option.map_some]
  | drainQueue =>
      obtain ⟨b', out, hdrain, hholds, hspares, hreturned⟩ := drainQueue_holds hb
      refine ⟨b', .drained out, ?_, hholds, hspares, hreturned⟩
      rw [queueCall, hdrain, Option.map_some]
  | queueLen =>
      refine ⟨b, .length b.queueLen, rfl, hb, Heap.Spares.refl _ _, ?_, fun _ hout => by cases hout⟩
      exact congrArg QueueResult.length hb.len_eq

theorem calls_holds (hb : b.Holds s) (hmax : 1 ≤ s.maxQueue) (calls : List QueueCall) :
    ∃ b' results, b.queueCalls g calls = some (b', results) ∧ b'.Holds (s.queueCalls calls).1 ∧
      b.Spares b' ∧
      results.map (QueueResult.map b'.heap.read) =
        (s.queueCalls calls).2.map (QueueResult.map (List.map some)) := by
  induction calls generalizing b s with
  | nil => exact ⟨b, [], rfl, hb, Heap.Spares.refl _ _, rfl⟩
  | cons c calls ih =>
      obtain ⟨b₁, r, hcall, hholds, hspares, hreturned⟩ := call_holds (g := g) hb hmax c
      have hmax' : 1 ≤ (s.queueCall c).1.maxQueue := hmax.trans_eq (maxQueue_queueCall s c).symm
      obtain ⟨b₂, results, hcalls, hholds', hspares', hresults⟩ := ih hholds hmax'
      refine ⟨b₂, r :: results, ?_, hholds', hspares.trans hspares', ?_⟩
      · rw [queueCalls, hcall, Option.bind_some, hcalls, Option.map_some]
      · -- the calls behind have not written to what this one returned
        have hkept := (hreturned.spares hspares').read
        exact congrArg₂ List.cons hkept hresults

/-- Without a limit of at least 1 the first message of a persistent session panics, since
there is no head to evict. -/
theorem enqueue_eq_none_iff (g : Growth) (b : QueueBuffer) (msg : Queued) :
    b.enqueue g msg = none ↔ b.cleanSession = false ∧ b.maxQueue = 0 ∧ b.queue.len = 0 := by
  have hcap := b.queue.len_le_cap
  cases hclean : b.cleanSession with
  | true => simp [enqueue, hclean]
  | false =>
      simp only [enqueue, hclean, evicted, Slice.slice, Bool.false_eq_true, if_false,
        Option.map_eq_none_iff, true_and]
      split
      · simp only [dite_eq_right_iff, reduceCtorEq, imp_false]
        omega
      · simp only [reduceCtorEq, false_iff]
        omega

end Simulation

end QueueBuffer

/-- From a new session on, with any limit of at least 1, the queue is the last messages
since the last drain, in order. -/
theorem offline_queue_fifo {s : Session} (hpersistent : s.cleanSession = false)
    (hmax : 1 ≤ s.maxQueue) (hnew : s.queue = []) (calls : List QueueCall) :
    s.queueCalls calls = ({ s with queue := pending s.maxQueue calls },
      expectedAll s.maxQueue [] calls) ∧
      (s.queueCalls calls).1.drainQueue = ({ s with queue := [] }, pending s.maxQueue calls) ∧
      (∀ (g : Growth) (b : QueueBuffer), b.Holds s →
        ∃ b' results, b.queueCalls g calls = some (b', results) ∧
        b'.Holds { s with queue := pending s.maxQueue calls } ∧
        results.map (QueueResult.map b'.heap.read) =
          (expectedAll s.maxQueue [] calls).map (QueueResult.map (List.map some))) ∧
      ∀ (t : Session) (msg : Queued), t.cleanSession = true →
        t.enqueue msg = (t, false) ∧
          ∀ (g : Growth) (b : QueueBuffer), b.Holds t → b.enqueue g msg = some (b, false) := by
  have hruns := queueCalls_eq hpersistent hmax (hnew.trans (pending_nil _).symm) calls
  rw [List.nil_append] at hruns
  refine ⟨hruns, by rw [hruns, drainQueue], fun g b hb => ?_, fun t msg hclean => ?_⟩
  · obtain ⟨b', results, hcalls, hholds, -, hresults⟩ :=
      QueueBuffer.calls_holds (g := g) hb hmax calls
    rw [hruns] at hholds hresults
    exact ⟨b', results, hcalls, hholds, hresults⟩
  · exact ⟨enqueue_of_clean hclean msg, fun g b hb => QueueBuffer.enqueue_of_clean hb hclean msg⟩

/-- Three messages, a drain, and a fourth message. -/
def fourMessages : List QueueCall :=
  [.enqueue ⟨str "a", [1], 1, false⟩, .enqueue ⟨str "a", [2], 1, false⟩,
    .enqueue ⟨str "a", [3], 1, false⟩, .drainQueue, .enqueue ⟨str "a", [4], 1, false⟩]

/-- At a limit of 2 the first message is evicted. The fourth is written into the array that
held the drained ones, and the list that DrainQueue returned still has these. -/
theorem offline_queue_fifo_two :
    ∃ b results, (QueueBuffer.mk false 2 ⟨[]⟩ Slice.nil).queueCalls doubling fourMessages =
      some (b, results) ∧
      b.heap.read b.queue = [some ⟨str "a", [4], 1, false⟩] ∧
      results.map (QueueResult.map b.heap.read) =
        [.enqueued true, .enqueued true, .enqueued true,
          .drained [some ⟨str "a", [2], 1, false⟩, some ⟨str "a", [3], 1, false⟩],
            .enqueued true] := by
  obtain ⟨-, -, hslices, -⟩ :=
    offline_queue_fifo (s := { Session.new (str "c1") false 0 with maxQueue := 2 }) rfl (by decide)
      rfl fourMessages
  obtain ⟨b, results, hcalls, hholds, hresults⟩ :=
    hslices doubling ⟨false, 2, ⟨[]⟩, Slice.nil⟩ ⟨rfl, rfl, Heap.has_nil _, rfl⟩
  exact ⟨b, results, hcalls, hholds.read, hresults⟩

end LumaBroker.Session
