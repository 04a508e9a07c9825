import Mathlib.Data.List.Basic

/-!
Buffered channels with one receiver and with senders that never wait. A value is handed to
the receiver if that is blocked on the channel, goes into the buffer if there is room, and is
dropped otherwise. Beside a channel stands what has been offered to it, what it took and what
came out of it.
-/

namespace Channel
variable {α : Type}

structure Chan (α : Type) where
  capacity : Nat
  buf : List α
  /-- The receiver is blocked on the channel. -/
  waiting : Bool
  deriving DecidableEq

def Chan.make (capacity : Nat) : Chan α := ⟨capacity, [], false⟩

namespace Chan

/-- A sender finds the receiver or a free place. -/
def Ready (c : Chan α) : Prop := c.waiting = true ∨ c.buf.length < c.capacity

instance (c : Chan α) : Decidable c.Ready := inferInstanceAs (Decidable (_ ∨ _))

/-- The send of a select with a default branch. -/
def trySend (a : α) (c : Chan α) : Chan α :=
  if c.waiting then { c with waiting := false }
  else if c.buf.length < c.capacity then { c with buf := c.buf ++ [a] }
  else c

/-- The receiver takes the head of the buffer. -/
def take (c : Chan α) : Chan α := { c with buf := c.buf.tail }

def block (c : Chan α) : Chan α := { c with waiting := true }

/-- The receiver goes on without a value. -/
def unblock (c : Chan α) : Chan α := { c with waiting := false }

@[simp] theorem capacity_trySend (a : α) (c : Chan α) : (c.trySend a).capacity = c.capacity := by
  rw [trySend]
  split_ifs <;> rfl

@[simp] theorem waiting_trySend (a : α) (c : Chan α) : (c.trySend a).waiting = false := by
  rw [trySend]
  split_ifs with hwait hroom
  · rfl
  · exact Bool.eq_false_iff.mpr hwait
  · exact Bool.eq_false_iff.mpr hwait

end Chan

/-- What has gone through a channel, each list in the order of the events. -/
structure Traffic (α : Type) where
  offered : List α
  accepted : List α
  received : List α

namespace Traffic

def none : Traffic α := ⟨[], [], []⟩

/-- A value is offered to the channel. -/
def offer (a : α) (c : Chan α) (t : Traffic α) : Traffic α where
  offered := t.offered ++ [a]
  accepted := if c.Ready then t.accepted ++ [a] else t.accepted
  received := if c.waiting then t.received ++ [a] else t.received

def receive (a : α) (t : Traffic α) : Traffic α := { t with received := t.received ++ [a] }

end Traffic

/-- The channel has let this traffic through. -/
structure Carries (c : Chan α) (t : Traffic α) : Prop where
  fifo : t.accepted = t.received ++ c.buf
  order : t.accepted.Sublist t.offered
  bounded : c.buf.length ≤ c.capacity
  empty : c.waiting = true → c.buf = []

theorem carries_make (capacity : Nat) : Carries (Chan.make capacity : Chan α) Traffic.none where
  fifo := rfl
  order := List.Sublist.refl _
  bounded := Nat.zero_le _
  empty _ := rfl

namespace Carries
variable {c : Chan α} {t : Traffic α}

theorem trySend (h : Carries c t) (a : α) : Carries (c.trySend a) (t.offer a c) := by
  have hoffered : t.accepted.Sublist (t.offered ++ [a]) :=
    h.order.trans (List.sublist_append_left _ _)
  have haccepted : (t.accepted ++ [a]).Sublist (t.offered ++ [a]) :=
    h.order.append (List.Sublist.refl _)
  by_cases hwait : c.waiting = true
  · -- the buffer is empty, so the value that goes past it keeps its place
    have hempty := h.empty hwait
    have hready : c.Ready := .inl hwait
    have hfifo := h.fifo
    rw [hempty, List.append_nil] at hfifo
    refine ⟨?_, ?_, ?_, ?_⟩
    · simp [Traffic.offer, Chan.trySend, hwait, hready, hempty, hfifo]
    · simpa [Traffic.offer, hready] using haccepted
    · simp [Chan.trySend, hwait, hempty]
    · simp [Chan.trySend, hwait]
  · by_cases hroom : c.buf.length < c.capacity
    · have hready : c.Ready := .inr hroom
      refine ⟨?_, ?_, ?_, ?_⟩
      · simp [Traffic.offer, Chan.trySend, hwait, hroom, hready, h.fifo]
      · simpa [Traffic.offer, hready] using haccepted
      · simp only [Chan.trySend, hwait, hroom, Bool.false_eq_true, if_false, if_true,
          List.length_append, List.length_singleton]
        omega
      · simp [Chan.trySend, hwait, hroom]
    · have hready : ¬ c.Ready := not_or.mpr ⟨hwait, hroom⟩
      refine ⟨?_, ?_, ?_, ?_⟩
      · simp [Traffic.offer, Chan.trySend, hwait, hroom, hready, h.fifo]
      · simpa [Traffic.offer, hready] using hoffered
      · simpa [Chan.trySend, hwait, hroom] using h.bounded
      · simp [Chan.trySend, hwait, hroom]

theorem take (h : Carries c t) {a : α} {rest : List α} (hbuf : c.buf = a :: rest) :
    Carries c.take (t.receive a) where
  fifo := by simp [Traffic.receive, Chan.take, h.fifo, hbuf]
  order := h.order
  bounded := by
    have hle := h.bounded
    rw [hbuf, List.length_cons] at hle
    simp only [Chan.take, hbuf, List.tail_cons]
    omega
  empty hwait := by
    have hnil := h.empty hwait
    rw [hbuf] at hnil
    cases hnil

theorem block (h : Carries c t) (hbuf : c.buf = []) : Carries c.block t :=
  ⟨h.fifo, h.order, h.bounded, fun _ => hbuf⟩

theorem unblock (h : Carries c t) : Carries c.unblock t :=
  ⟨h.fifo, h.order, h.bounded, fun hwait => absurd hwait Bool.false_ne_true⟩

/-- What came out and what is still inside is what was offered, without the dropped values. -/
theorem sublist_offered (h : Carries c t) : (t.received ++ c.buf).Sublist t.offered :=
  h.fifo ▸ h.order

/-- Without a drop that is everything. -/
theorem eq_offered (h : Carries c t) (hlen : t.offered.length = t.accepted.length) :
    t.received ++ c.buf = t.offered := by
  rw [← h.fifo]
  exact h.order.eq_of_length hlen.symm

end Carries
end Channel
