import LumaBroker.Lib.Channel

/-!
A subscriber of a log that others append to. Entries come to it one after another, some are
lost on the way, those that can be decoded are offered to a bounded channel, and a loop takes
one at a time out of that and handles it.
-/

open Channel

structure Feed (α : Type) where
  /-- The length of the log when the subscription began. -/
  since : Nat
  cursor : Nat
  chan : Chan α
  /-- What the loop has taken and not handled yet. -/
  hand : Option α
  handled : List α
  /-- The entries that never arrived. -/
  lost : Nat
  traffic : Traffic α

namespace Feed
variable {α β : Type}

def subscribe (capacity since : Nat) : Feed α :=
  ⟨since, since, Chan.make capacity, none, [], 0, Traffic.none⟩

section Operations
variable (decode : β → Option α) (log : List β) (f : Feed α)

def offer (a : α) : Feed α :=
  { f with cursor := f.cursor + 1, chan := f.chan.trySend a, traffic := f.traffic.offer a f.chan }

def skip : Feed α := { f with cursor := f.cursor + 1 }

def deliver : Option (Feed α) :=
  log[f.cursor]?.map fun entry =>
    match decode entry with
    | some a => f.offer a
    | none => f.skip

def lose : Option (Feed α) :=
  if f.cursor < log.length then some { f with cursor := f.cursor + 1, lost := f.lost + 1 } else none

def take : Option (Feed α) :=
  match f.hand, f.chan.buf with
  | none, a :: _ =>
      some { f with chan := f.chan.take, hand := some a, traffic := f.traffic.receive a }
  | _, _ => none

/-- The loop has handled what it took. -/
def finish (a : α) : Feed α := { f with hand := none, handled := f.handled ++ [a] }

/-- The entries that have come by since the subscription began. -/
def passed : List β := (log.drop f.since).take (f.cursor - f.since)

/-- What the subscriber has of the log, in the order in which it got it. -/
def held : List α := f.handled ++ f.hand.toList ++ f.chan.buf

/-- No entry was lost on the way and none was dropped at the channel. -/
def Complete : Prop := f.lost = 0 ∧ f.traffic.offered.length = f.traffic.accepted.length

instance : Decidable f.Complete := inferInstanceAs (Decidable (_ ∧ _))

/-- The subscription keeps to the log. -/
structure Follows : Prop where
  carries : Carries f.chan f.traffic
  /-- A loop that waits on the channel takes what it is sent through the empty buffer. -/
  waiting : f.chan.waiting = false
  received : f.traffic.received = f.handled ++ f.hand.toList
  since_le : f.since ≤ f.cursor
  cursor_le : f.cursor ≤ log.length
  offered : f.traffic.offered.Sublist ((f.passed log).filterMap decode)
  complete : f.lost = 0 → f.traffic.offered = (f.passed log).filterMap decode

end Operations

variable {decode : β → Option α} {log : List β} {f g : Feed α}

theorem follows_subscribe (capacity : Nat) {since : Nat} (h : since ≤ log.length) :
    Follows decode log (subscribe capacity since) where
  carries := carries_make capacity
  waiting := rfl
  received := rfl
  since_le := Nat.le_refl _
  cursor_le := h
  offered := by simp [subscribe, Traffic.none, passed]
  complete := by simp [subscribe, Traffic.none, passed]

theorem handled_deliver (hg : f.deliver decode log = some g) : g.handled = f.handled := by
  obtain ⟨entry, -, rfl⟩ := Option.map_eq_some_iff.mp hg
  split <;> rfl

theorem handled_lose (hg : f.lose log = some g) : g.handled = f.handled := by
  rw [lose] at hg
  split_ifs at hg
  cases hg
  rfl

theorem hand_deliver (hg : f.deliver decode log = some g) : g.hand = f.hand := by
  obtain ⟨entry, -, rfl⟩ := Option.map_eq_some_iff.mp hg
  split <;> rfl

theorem hand_lose (hg : f.lose log = some g) : g.hand = f.hand := by
  rw [lose] at hg
  split_ifs at hg
  cases hg
  rfl

/-- The loop takes nothing while it has something in hand. -/
theorem hand_of_take (hg : f.take = some g) : f.hand = none := by
  rw [take] at hg
  split at hg
  next hhand _ => exact hhand
  next => cases hg

theorem handled_take (hg : f.take = some g) : g.handled = f.handled := by
  rw [take] at hg
  split at hg <;> cases hg
  rfl

namespace Follows
variable (h : Follows decode log f)
include h

theorem passed_succ {entry : β} (hentry : log[f.cursor]? = some entry) :
    f.skip.passed log = f.passed log ++ [entry] := by
  have hsince := h.since_le
  have hget : (log.drop f.since)[f.cursor - f.since]? = some entry := by
    rw [List.getElem?_drop, Nat.add_sub_cancel' hsince]
    exact hentry
  simp only [passed, skip, Nat.succ_sub hsince, List.take_add_one, hget, Option.toList_some]

theorem append (more : List β) : Follows decode (log ++ more) f := by
  have hpassed : f.passed (log ++ more) = f.passed log := by
    have := h.since_le
    have := h.cursor_le
    rw [passed, List.drop_append_of_le_length (by omega), List.take_append_of_le_length]
    · rfl
    · rw [List.length_drop]
      omega
  refine ⟨h.carries, h.waiting, h.received, h.since_le, ?_, ?_, ?_⟩
  · rw [List.length_append]
    exact Nat.le_add_right_of_le h.cursor_le
  · rw [hpassed]
    exact h.offered
  · rw [hpassed]
    exact h.complete

theorem deliver (hg : f.deliver decode log = some g) : Follows decode log g := by
  obtain ⟨entry, hentry, hg⟩ := Option.map_eq_some_iff.mp hg
  have hpassed := h.passed_succ hentry
  have hsince : f.since ≤ f.cursor + 1 := Nat.le_succ_of_le h.since_le
  have hcursor : f.cursor + 1 ≤ log.length := (List.getElem?_eq_some_iff.mp hentry).1
  cases hdecode : decode entry with
  | none =>
      have hfilter : (f.skip.passed log).filterMap decode = (f.passed log).filterMap decode := by
        simp [hpassed, hdecode]
      simp only [hdecode] at hg
      cases hg
      exact ⟨h.carries, h.waiting, h.received, hsince, hcursor, hfilter ▸ h.offered,
        fun hlost => (h.complete hlost).trans hfilter.symm⟩
  | some a =>
      have hfilter : (f.skip.passed log).filterMap decode =
          (f.passed log).filterMap decode ++ [a] := by
        simp [hpassed, hdecode]
      simp only [hdecode] at hg
      cases hg
      refine ⟨h.carries.trySend a, Chan.waiting_trySend a f.chan, ?_, hsince, hcursor, ?_, ?_⟩
      · simpa [offer, Traffic.offer, h.waiting] using h.received
      · exact hfilter ▸ h.offered.append (List.Sublist.refl [a])
      · intro hlost
        exact (congrArg (· ++ [a]) (h.complete hlost)).trans hfilter.symm

theorem lose (hg : f.lose log = some g) : Follows decode log g := by
  rw [Feed.lose] at hg
  split_ifs at hg with hlt
  cases hg
  have hpassed := h.passed_succ (List.getElem?_eq_getElem hlt)
  refine ⟨h.carries, h.waiting, h.received, Nat.le_succ_of_le h.since_le, hlt, ?_, nofun⟩
  have hsub : ((f.passed log).filterMap decode).Sublist ((f.skip.passed log).filterMap decode) := by
    rw [hpassed, List.filterMap_append]
    exact List.sublist_append_left _ _
  exact h.offered.trans hsub

theorem take (hg : f.take = some g) : Follows decode log g := by
  rw [Feed.take] at hg
  split at hg
  next a rest hhand hbuf =>
    cases hg
    refine ⟨h.carries.take hbuf, h.waiting, ?_, h.since_le, h.cursor_le, h.offered, h.complete⟩
    simp [Traffic.receive, h.received, hhand]
  next => cases hg

theorem finish {a : α} (hhand : f.hand = some a) : Follows decode log (f.finish a) where
  carries := h.carries
  waiting := h.waiting
  received := by simp [Feed.finish, h.received, hhand]
  since_le := h.since_le
  cursor_le := h.cursor_le
  offered := h.offered
  complete := h.complete

theorem held_sublist : f.held.Sublist ((f.passed log).filterMap decode) := by
  rw [held, ← h.received]
  exact h.carries.sublist_offered.trans h.offered

theorem handled_sublist : f.handled.Sublist ((log.drop f.since).filterMap decode) := by
  have hhandled : f.handled.Sublist f.held := by
    rw [held, List.append_assoc]
    exact List.sublist_append_left _ _
  exact hhandled.trans (h.held_sublist.trans ((List.take_sublist _ _).filterMap decode))

/-- Nothing but the two ways of losing an entry comes between the log and the subscriber. -/
theorem held_eq (hcomplete : f.Complete) : f.held = (f.passed log).filterMap decode := by
  rw [held, ← h.received, h.carries.eq_offered hcomplete.2]
  exact h.complete hcomplete.1

theorem handled_eq (hcomplete : f.Complete) (hcursor : f.cursor = log.length)
    (hhand : f.hand = none) (hbuf : f.chan.buf = []) :
    f.handled = (log.drop f.since).filterMap decode := by
  have hheld := h.held_eq hcomplete
  rw [passed, hcursor, ← List.length_drop, List.take_length] at hheld
  simpa [held, hhand, hbuf] using hheld

end Follows

/-- Entries that are numbered keep their numbers. -/
def readNumbered (read : β → Option α) (e : Nat × β) : Option (Nat × α) :=
  (read e.2).map fun a => (e.1, a)

theorem readNumbered_sublist (read : β → Option α) (log : List (Nat × β)) :
    ((log.filterMap (readNumbered read)).map Prod.fst).Sublist (log.map Prod.fst) := by
  induction log with
  | nil => exact List.Sublist.refl _
  | cons e log ih =>
      cases hread : read e.2 with
      | none => simpa [readNumbered, hread] using ih.cons e.1
      | some a => simpa [readNumbered, hread] using ih

end Feed
