import LumaBroker.Session.Session
import Mathlib.Logic.Function.Basic

/-!
The session store of internal/session/session.go. Connections keep pointers to
sessions the store may have dropped or replaced since, so the sessions live in a heap
and the store maps client IDs to pointers into it.
-/

namespace LumaBroker.Session

abbrev Ptr := Nat

structure Store where
  heap : Ptr → Session
  next : Ptr
  data : FinMap GoString Ptr
  allocated : ∀ clientID p, data.get clientID = some p → p < next

namespace Store

def newStore : Store where
  heap := fun _ => Session.new [] false 0
  next := 0
  data := FinMap.empty
  allocated _ _ h := by cases h

/-- A method call on the session behind a pointer. -/
def modify (p : Ptr) (f : Session → Session) (s : Store) : Store :=
  { s with heap := Function.update s.heap p (f (s.heap p)) }

/-- Store a new session under its client ID. -/
def create (clientID : GoString) (clean : Bool) (now : Nat) (s : Store) : Store where
  heap := Function.update s.heap s.next (Session.new clientID clean now)
  next := s.next + 1
  data := s.data.set clientID s.next
  allocated id p h := by
    rw [FinMap.get_set] at h
    split_ifs at h with hid
    · cases h
      exact Nat.lt_succ_self s.next
    · exact Nat.lt_succ_of_lt (s.allocated id p h)

/-- GetOrCreate, with the session and whether it already existed. -/
def getOrCreate (clientID : GoString) (clean : Bool) (now : Nat) (s : Store) :
    Store × Ptr × Bool :=
  if clean then (s.create clientID true now, s.next, false)
  else
    match s.data.get clientID with
    | some existing =>
        if (s.heap existing).cleanSession then (s.create clientID false now, s.next, false)
        else (s, existing, true)
    | none => (s.create clientID false now, s.next, false)

def delete (clientID : GoString) (s : Store) : Store where
  heap := s.heap
  next := s.next
  data := s.data.erase clientID
  allocated id p h := by
    rw [FinMap.get_erase] at h
    split_ifs at h with hid
    exact s.allocated id p h

theorem heap_modify (p q : Ptr) (f : Session → Session) (s : Store) :
    (s.modify p f).heap q = if q = p then f (s.heap q) else s.heap q := by
  by_cases h : q = p
  · subst h
    simp [modify]
  · simp [modify, h]

theorem heap_create_self (clientID : GoString) (clean : Bool) (now : Nat) (s : Store) :
    (s.create clientID clean now).heap s.next = Session.new clientID clean now :=
  Function.update_self ..

theorem heap_create_of_ne {q : Ptr} (clientID : GoString) (clean : Bool) (now : Nat) {s : Store}
    (h : q ≠ s.next) : (s.create clientID clean now).heap q = s.heap q :=
  Function.update_of_ne h ..

/-- Afterwards the store holds the returned session under the ID, which is either an
allocated one of before, untouched, or new. -/
theorem getOrCreate_cases (clientID : GoString) (clean : Bool) (now : Nat) (s : Store) :
    (∃ p, s.getOrCreate clientID clean now = (s, p, true) ∧ clean = false ∧
      s.data.get clientID = some p ∧ (s.heap p).cleanSession = false) ∨
    s.getOrCreate clientID clean now = (s.create clientID clean now, s.next, false) := by
  cases clean with
  | true => exact .inr rfl
  | false =>
      cases hp : s.data.get clientID with
      | none => exact .inr (by simp [getOrCreate, hp])
      | some p =>
          cases hc : (s.heap p).cleanSession with
          | true => exact .inr (by simp [getOrCreate, hp, hc])
          | false => exact .inl ⟨p, by simp [getOrCreate, hp, hc], rfl, rfl, hc⟩

theorem get_getOrCreate (clientID : GoString) (clean : Bool) (now : Nat) (s : Store) :
    (s.getOrCreate clientID clean now).1.data.get clientID =
      some (s.getOrCreate clientID clean now).2.1 := by
  cases getOrCreate_cases clientID clean now s with
  | inl h =>
      obtain ⟨p, hp, _, hget, _⟩ := h
      rw [hp]
      exact hget
  | inr h =>
      rw [h]
      simp [create]

theorem next_getOrCreate (clientID : GoString) (clean : Bool) (now : Nat) (s : Store) :
    s.next ≤ (s.getOrCreate clientID clean now).1.next := by
  cases getOrCreate_cases clientID clean now s with
  | inl h =>
      obtain ⟨p, hp, _⟩ := h
      rw [hp]
  | inr h =>
      rw [h]
      exact Nat.le_succ s.next

end Store
end LumaBroker.Session
