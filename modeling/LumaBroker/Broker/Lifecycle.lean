import LumaBroker.Lib.Total
import LumaBroker.Lib.Transition

/-!
How connections come and go in internal/broker/server.go and internal/broker/transports.go:
the accept loops of the TCP and TLS listeners, the WebSocket handler, the semaphore of
MaxConnections places, and the wait group on which Stop waits before it closes the storage.
Every loop and every connection is a goroutine of its own. Times are in nanoseconds.
-/

namespace LumaBroker.Broker.Lifecycle

open Transition

def millisecond : Nat := 1000000

def second : Nat := 1000000000

/-- The pause of acceptLoop after an error that is a timeout. -/
def backoff (delay : Nat) : Nat :=
  if delay = 0 then 5 * millisecond
  else if delay * 2 > second then second
  else delay * 2

/-- Where a goroutine of Start is: an acceptLoop in Accept, in its pause or with a connection
in hand, or one of the loops that run until the context is done. -/
inductive Loop where
  | accepting (delay : Nat)
  | sleeping (delay : Nat)
  | handling (conn : Nat)
  | serving
  | returned
  deriving DecidableEq

/-- The wait group waits for the loop. -/
def Loop.runs : Loop → Bool
  | .returned => false
  | _ => true

inductive Phase where
  | arrived
  | refused
  | admitted
  | running
  /-- Run has returned and the place is given back. -/
  | released
  | done
  deriving DecidableEq

/-- A connection of an acceptLoop, or of the WebSocket handler. -/
structure Conn where
  listener : Option Nat
  phase : Phase
  deriving DecidableEq

namespace Conn

/-- It holds a place of the semaphore. -/
def holds (c : Conn) : Bool := c.phase = .admitted ∨ c.phase = .running

/-- The wait group waits for it. -/
def awaited (c : Conn) : Bool := c.phase = .running ∨ c.phase = .released

/-- It has been counted by totalConns. -/
def launched (c : Conn) : Bool := c.phase = .running ∨ c.phase = .released ∨ c.phase = .done

/-- Its acceptLoop has it in hand. -/
def inHand (c : Conn) : Bool := c.phase = .arrived ∨ c.phase = .admitted

end Conn

structure State where
  ctxDone : Bool
  /-- The number of values in connSem. -/
  slots : Nat
  wg : Int
  totalConns : Nat
  droppedTotal : Nat
  loops : FinMap Nat Loop
  conns : FinMap Nat Conn

inductive Action where
  | accept (l c : Nat)
  | acceptTimeout (l : Nat)
  | acceptError (l : Nat)
  | wake (l : Nat)
  /-- The WebSocket handler has upgraded a request. -/
  | upgrade (c : Nat)
  | acquire (c : Nat)
  | launch (c : Nat)
  /-- Run returns, and the deferred functions follow one after the other. -/
  | release (c : Nat)
  | finish (c : Nat)
  | serveReturns (l : Nat)
  | cancel

namespace State

def setLoop (l : Nat) (loop : Loop) (s : State) : State := { s with loops := s.loops.set l loop }

def setConn (c : Nat) (listener : Option Nat) (phase : Phase) (s : State) : State :=
  { s with conns := s.conns.set c ⟨listener, phase⟩ }

def returns (l : Nat) (s : State) : State := { s.setLoop l .returned with wg := s.wg - 1 }

/-- The acceptLoop of a connection goes back to Accept. -/
def next (listener : Option Nat) (s : State) : State :=
  match listener with
  | some l => s.setLoop l (.accepting 0)
  | none => s

/-- A refusal counts in the metrics only for a listener. -/
def refuse (c : Nat) (listener : Option Nat) (s : State) : State :=
  let s := (s.setConn c listener .refused).next listener
  { s with droppedTotal := s.droppedTotal + if listener.isSome then 1 else 0 }

def acquire (c : Nat) (listener : Option Nat) (s : State) : State :=
  { s.setConn c listener .admitted with slots := s.slots + 1 }

def launch (c : Nat) (listener : Option Nat) (s : State) : State :=
  let s := (s.setConn c listener .running).next listener
  { s with totalConns := s.totalConns + 1, wg := s.wg + 1 }

def release (c : Nat) (listener : Option Nat) (s : State) : State :=
  { s.setConn c listener .released with slots := s.slots - 1 }

def finish (c : Nat) (listener : Option Nat) (s : State) : State :=
  { s.setConn c listener .done with wg := s.wg - 1 }

end State

/-- The goroutines of Start, before the first connection. -/
def start (loops : FinMap Nat Loop) : State where
  ctxDone := false
  slots := 0
  wg := loops.count Loop.runs
  totalConns := 0
  droppedTotal := 0
  loops := loops
  conns := FinMap.empty

def step (maxConnections : Nat) (s : State) : Action → Option State
  | .accept l c =>
      match s.loops.get l, s.conns.get c with
      | some (.accepting _), none => some ((s.setLoop l (.handling c)).setConn c (some l) .arrived)
      | _, _ => none
  | .acceptTimeout l =>
      match s.loops.get l with
      | some (.accepting delay) =>
          if s.ctxDone then some (s.returns l) else some (s.setLoop l (.sleeping (backoff delay)))
      | _ => none
  | .acceptError l =>
      match s.loops.get l with
      | some (.accepting _) => some (s.returns l)
      | _ => none
  | .wake l =>
      match s.loops.get l with
      | some (.sleeping delay) => some (s.setLoop l (.accepting delay))
      | _ => none
  | .upgrade c =>
      match s.conns.get c with
      | none => some (s.setConn c none .arrived)
      | some _ => none
  | .acquire c =>
      match s.conns.get c with
      | some ⟨listener, .arrived⟩ =>
          some (if s.slots < maxConnections then s.acquire c listener else s.refuse c listener)
      | _ => none
  | .launch c =>
      match s.conns.get c with
      | some ⟨listener, .admitted⟩ => some (s.launch c listener)
      | _ => none
  | .release c =>
      match s.conns.get c with
      | some ⟨listener, .running⟩ => some (s.release c listener)
      | _ => none
  | .finish c =>
      match s.conns.get c with
      | some ⟨listener, .released⟩ => some (s.finish c listener)
      | _ => none
  | .serveReturns l =>
      match s.loops.get l with
      | some .serving => some (s.returns l)
      | _ => none
  | .cancel => some { s with ctxDone := true }

/-- What a step does, by the branch of the source that it takes. -/
inductive Moves (maxConnections : Nat) (s : State) : Action → State → Prop
  | accept {l c delay : Nat} (hl : s.loops.get l = some (.accepting delay))
      (hc : s.conns.get c = none) :
      Moves maxConnections s (.accept l c) ((s.setLoop l (.handling c)).setConn c (some l) .arrived)
  | stopped {l delay : Nat} (hl : s.loops.get l = some (.accepting delay)) :
      Moves maxConnections s (.acceptTimeout l) (s.returns l)
  | timeout {l delay : Nat} (hl : s.loops.get l = some (.accepting delay)) :
      Moves maxConnections s (.acceptTimeout l) (s.setLoop l (.sleeping (backoff delay)))
  | error {l delay : Nat} (hl : s.loops.get l = some (.accepting delay)) :
      Moves maxConnections s (.acceptError l) (s.returns l)
  | wake {l delay : Nat} (hl : s.loops.get l = some (.sleeping delay)) :
      Moves maxConnections s (.wake l) (s.setLoop l (.accepting delay))
  | upgrade {c : Nat} (hc : s.conns.get c = none) :
      Moves maxConnections s (.upgrade c) (s.setConn c none .arrived)
  | acquire {c : Nat} {listener : Option Nat} (hc : s.conns.get c = some ⟨listener, .arrived⟩)
      (hroom : s.slots < maxConnections) :
        Moves maxConnections s (.acquire c) (s.acquire c listener)
  | refuse {c : Nat} {listener : Option Nat} (hc : s.conns.get c = some ⟨listener, .arrived⟩) :
      Moves maxConnections s (.acquire c) (s.refuse c listener)
  | launch {c : Nat} {listener : Option Nat} (hc : s.conns.get c = some ⟨listener, .admitted⟩) :
      Moves maxConnections s (.launch c) (s.launch c listener)
  | release {c : Nat} {listener : Option Nat} (hc : s.conns.get c = some ⟨listener, .running⟩) :
      Moves maxConnections s (.release c) (s.release c listener)
  | finish {c : Nat} {listener : Option Nat} (hc : s.conns.get c = some ⟨listener, .released⟩) :
      Moves maxConnections s (.finish c) (s.finish c listener)
  | serveReturns {l : Nat} (hl : s.loops.get l = some .serving) :
      Moves maxConnections s (.serveReturns l) (s.returns l)
  | cancel : Moves maxConnections s .cancel { s with ctxDone := true }

/-- The semaphore and the counters agree with the connections. -/
structure Counted (maxConnections : Nat) (s : State) : Prop where
  slots : s.slots = s.conns.count Conn.holds
  capped : s.slots ≤ maxConnections
  wg : s.wg = s.loops.count Loop.runs + s.conns.count Conn.awaited
  totalConns : s.totalConns = s.conns.count Conn.launched

/-- A connection that is not launched yet is in the hand of its acceptLoop. -/
def Handled (s : State) : Prop :=
  ∀ c conn l, s.conns.get c = some conn → conn.listener = some l → conn.inHand = true →
    s.loops.get l = some (.handling c)

/-- No pause is longer than a second or shorter than 5 ms. -/
def Paced (s : State) : Prop :=
  ∀ l delay, (s.loops.get l = some (.sleeping delay) → 5 * millisecond ≤ delay ∧ delay ≤ second) ∧
    (s.loops.get l = some (.accepting delay) → delay = 0 ∨ 5 * millisecond ≤ delay ∧ delay ≤ second)

structure Inv (maxConnections : Nat) (s : State) : Prop where
  counted : Counted maxConnections s
  handled : Handled s
  paced : Paced s

variable {maxConnections : Nat} {s t : State} {l c : Nat} {listener : Option Nat}

theorem moves_of_step {a : Action} (h : step maxConnections s a = some t) :
    Moves maxConnections s a t := by
  cases a with
  | accept l c =>
      simp only [step] at h
      split at h
      · rename_i hl hc
        cases h
        exact .accept hl hc
      · cases h
  | acceptTimeout l =>
      simp only [step] at h
      split at h
      · rename_i hl
        split at h
        · cases h
          exact .stopped hl
        · cases h
          exact .timeout hl
      · cases h
  | acceptError l =>
      simp only [step] at h
      split at h
      · rename_i hl
        cases h
        exact .error hl
      · cases h
  | wake l =>
      simp only [step] at h
      split at h
      · rename_i hl
        cases h
        exact .wake hl
      · cases h
  | upgrade c =>
      simp only [step] at h
      split at h
      · rename_i hc
        cases h
        exact .upgrade hc
      · cases h
  | acquire c =>
      simp only [step] at h
      split at h
      · rename_i hc
        cases h
        split_ifs with hroom
        · exact .acquire hc hroom
        · exact .refuse hc
      · cases h
  | launch c =>
      simp only [step] at h
      split at h
      · rename_i hc
        cases h
        exact .launch hc
      · cases h
  | release c =>
      simp only [step] at h
      split at h
      · rename_i hc
        cases h
        exact .release hc
      · cases h
  | finish c =>
      simp only [step] at h
      split at h
      · rename_i hc
        cases h
        exact .finish hc
      · cases h
  | serveReturns l =>
      simp only [step] at h
      split at h
      · rename_i hl
        cases h
        exact .serveReturns hl
      · cases h
  | cancel =>
      cases h
      exact .cancel

theorem backoff_bounds {delay : Nat} (h : delay = 0 ∨ 5 * millisecond ≤ delay ∧ delay ≤ second) :
    5 * millisecond ≤ backoff delay ∧ backoff delay ≤ second := by
  have hshort : 5 * millisecond ≤ second := by decide
  unfold backoff
  by_cases hzero : delay = 0
  · rw [if_pos hzero]
    exact ⟨le_rfl, hshort⟩
  · rw [if_neg hzero]
    by_cases hlong : delay * 2 > second
    · rw [if_pos hlong]
      exact ⟨hshort, le_rfl⟩
    · rw [if_neg hlong]
      omega

/-- A loop moves on without returning. -/
theorem count_runs {loop loop' : Loop} (h : s.loops.get l = some loop)
    (hruns : loop.runs = loop'.runs) :
    (s.loops.set l loop').count Loop.runs = s.loops.count Loop.runs := by
  have hset := FinMap.count_set_of_get_some Loop.runs loop' h
  rw [hruns] at hset
  omega

theorem count_returned {loop : Loop} (h : s.loops.get l = some loop) (hruns : loop.runs = true) :
    (s.loops.set l .returned).count Loop.runs + 1 = s.loops.count Loop.runs := by
  have hset := FinMap.count_set_of_get_some Loop.runs .returned h
  rw [if_pos hruns] at hset
  exact hset

theorem conns_next (listener : Option Nat) (s : State) : (s.next listener).conns = s.conns := by
  cases listener <;> rfl

/-- The loops go on as they were, but that the acceptLoop of the connection is free again. -/
theorem loops_next (h : ∀ l, listener = some l → s.loops.get l = some (.handling c)) :
    (s.next listener).loops.count Loop.runs = s.loops.count Loop.runs := by
  cases listener with
  | none => rfl
  | some l => exact count_runs (h l rfl) rfl

namespace Handled

theorem loop (h : Handled s) {phase : Phase} (hc : s.conns.get c = some ⟨listener, phase⟩)
    (hphase : phase = .arrived ∨ phase = .admitted) (l : Nat) (hl : listener = some l) :
    s.loops.get l = some (.handling c) :=
  h c _ l hc hl (by simp [Conn.inHand, hphase])

/-- The loop of no connection is touched. -/
theorem setLoop (h : Handled s) {loop : Loop} (hl : ∀ c, s.loops.get l ≠ some (.handling c)) :
    Handled (s.setLoop l loop) := by
  intro c conn l' hc hlistener hhand
  have hold := h c conn l' hc hlistener hhand
  have hne : l' ≠ l := fun heq => hl c (heq ▸ hold)
  exact (FinMap.get_set_ne _ _ hne).trans hold

/-- A connection that no loop has in hand any more, or that its loop keeps. -/
theorem setConn (h : Handled s) {phase phase' : Phase} (hc : s.conns.get c = some ⟨listener, phase⟩)
    (hhand : phase' = .arrived ∨ phase' = .admitted → phase = .arrived ∨ phase = .admitted) :
    Handled (s.setConn c listener phase') := by
  intro c' conn l hc' hlistener hinHand
  simp only [State.setConn, FinMap.get_set] at hc'
  split_ifs at hc' with hcc
  · cases hc'
    subst hcc
    exact h.loop hc (hhand (by simpa [Conn.inHand] using hinHand)) l hlistener
  · exact h c' conn l hc' hlistener hinHand

/-- A connection leaves its loop, which has no other. -/
theorem leave (h : Handled s) {phase phase' : Phase} (hc : s.conns.get c = some ⟨listener, phase⟩)
    (hphase : phase = .arrived ∨ phase = .admitted)
    (hphase' : (⟨listener, phase'⟩ : Conn).inHand = false) :
    Handled ((s.setConn c listener phase').next listener) := by
  intro c' conn l hc' hlistener hinHand
  rw [conns_next] at hc'
  simp only [State.setConn, FinMap.get_set] at hc'
  split_ifs at hc' with hcc
  · cases hc'
    rw [hphase'] at hinHand
    cases hinHand
  · have hold := h c' conn l hc' hlistener hinHand
    cases hl : listener with
    | none => exact hold
    | some l' =>
        have hne : l ≠ l' := by
          intro heq
          have hthis := h.loop hc hphase l' hl
          rw [← heq, hold] at hthis
          cases hthis
          exact hcc rfl
        exact (FinMap.get_set_ne _ _ hne).trans hold

end Handled

namespace Paced

theorem setLoop (h : Paced s) {loop : Loop}
    (hsleeping : ∀ delay, loop = .sleeping delay → 5 * millisecond ≤ delay ∧ delay ≤ second)
    (haccepting : ∀ delay, loop = .accepting delay → delay = 0 ∨ 5 * millisecond ≤ delay ∧
      delay ≤ second) :
    Paced (s.setLoop l loop) := by
  intro l' delay
  simp only [State.setLoop, FinMap.get_set]
  split_ifs
  · exact ⟨fun heq => hsleeping delay (Option.some.inj heq),
      fun heq => haccepting delay (Option.some.inj heq)⟩
  · exact h l' delay

theorem next (h : Paced s) (listener : Option Nat) : Paced (s.next listener) := by
  cases listener with
  | none => exact h
  | some l =>
      refine h.setLoop nofun fun delay heq => ?_
      cases heq
      exact .inl rfl

end Paced

/-- The counters follow a connection that goes from one phase to another. -/
theorem Counted.move (h : Counted maxConnections s) {conn conn' : Conn}
    (hc : s.conns.get c = some conn) (hconns : t.conns = s.conns.set c conn')
    (hloops : t.loops.count Loop.runs = s.loops.count Loop.runs)
    (hcapped : t.slots ≤ maxConnections)
    (hslots : t.slots + (if conn.holds then 1 else 0) = s.slots + if conn'.holds then 1 else 0)
    (hwg : t.wg + (if conn.awaited then 1 else 0 : Nat) = s.wg + (if conn'.awaited then 1 else 0 :
      Nat)) (htotal : t.totalConns + (if conn.launched then 1 else 0) =
      s.totalConns + if conn'.launched then 1 else 0) :
    Counted maxConnections t := by
  have hcount (p : Conn → Bool) := FinMap.count_set_of_get_some p conn' hc
  have hholds := hcount Conn.holds
  have hawaited := hcount Conn.awaited
  have hlaunched := hcount Conn.launched
  rw [← hconns] at hholds hawaited hlaunched
  have hs := h.slots
  have hw := h.wg
  have ht := h.totalConns
  exact ⟨by omega, hcapped, by omega, by omega⟩

namespace Inv
variable (h : Inv maxConnections s)
include h

theorem setLoop {loop loop' : Loop} (hl : s.loops.get l = some loop)
    (hruns : loop.runs = loop'.runs) (hfree : ∀ c, loop ≠ .handling c)
    (hsleeping : ∀ delay, loop' = .sleeping delay → 5 * millisecond ≤ delay ∧ delay ≤ second)
    (haccepting : ∀ delay, loop' = .accepting delay → delay = 0 ∨ 5 * millisecond ≤ delay ∧
      delay ≤ second) :
    Inv maxConnections (s.setLoop l loop') where
  counted :=
    { slots := h.counted.slots
      capped := h.counted.capped
      wg := by simp only [State.setLoop, count_runs hl hruns, h.counted.wg]
      totalConns := h.counted.totalConns }
  handled := h.handled.setLoop fun c heq => hfree c (Option.some.inj (hl.symm.trans heq))
  paced := h.paced.setLoop hsleeping haccepting

theorem returns {loop : Loop} (hl : s.loops.get l = some loop) (hruns : loop.runs = true)
    (hfree : ∀ c, loop ≠ .handling c) : Inv maxConnections (s.returns l) where
  counted :=
    { slots := h.counted.slots
      capped := h.counted.capped
      wg := by
        have hcount := count_returned hl hruns
        have hwg := h.counted.wg
        simp only [State.returns, State.setLoop]
        omega
      totalConns := h.counted.totalConns }
  handled := h.handled.setLoop fun c heq => hfree c (Option.some.inj (hl.symm.trans heq))
  paced := h.paced.setLoop nofun nofun

/-- A connection that nothing counts yet. -/
theorem arrive (hc : s.conns.get c = none)
    (hl : ∀ l, listener = some l → s.loops.get l = some (.handling c)) :
    Inv maxConnections (s.setConn c listener .arrived) where
  counted := by
    have hcount (p : Conn → Bool) (hp : p ⟨listener, .arrived⟩ = false) :
        (s.conns.set c ⟨listener, .arrived⟩).count p = s.conns.count p := by
      rw [FinMap.count_set_of_get_none p _ hc, hp]
      rfl
    refine ⟨?_, h.counted.capped, ?_, ?_⟩
    · rw [State.setConn, hcount _ rfl]
      exact h.counted.slots
    · rw [State.setConn, hcount _ rfl]
      exact h.counted.wg
    · rw [State.setConn, hcount _ rfl]
      exact h.counted.totalConns
  handled := by
    intro c' conn l hc' hlistener hinHand
    simp only [State.setConn, FinMap.get_set] at hc'
    split_ifs at hc' with hcc
    · cases hc'
      subst hcc
      exact hl l hlistener
    · exact h.handled c' conn l hc' hlistener hinHand
  paced := h.paced

theorem acquire (hc : s.conns.get c = some ⟨listener, .arrived⟩)
    (hroom : s.slots < maxConnections) : Inv maxConnections (s.acquire c listener) where
  counted := h.counted.move hc rfl rfl hroom rfl rfl rfl
  handled := h.handled.setConn hc fun _ => .inl rfl
  paced := h.paced

theorem refuse (hc : s.conns.get c = some ⟨listener, .arrived⟩) :
    Inv maxConnections (s.refuse c listener) where
  counted := by
    have hloops := loops_next (s := s.setConn c listener .refused) (h.handled.loop hc (.inl rfl))
    cases listener with
    | none => exact h.counted.move hc rfl rfl h.counted.capped rfl rfl rfl
    | some l => exact h.counted.move hc rfl hloops h.counted.capped rfl rfl rfl
  handled := h.handled.leave hc (.inl rfl) rfl
  paced := Paced.next (s := s.setConn c listener .refused) h.paced listener

theorem launch (hc : s.conns.get c = some ⟨listener, .admitted⟩) :
    Inv maxConnections (s.launch c listener) where
  counted := by
    have hloops := loops_next (s := s.setConn c listener .running) (h.handled.loop hc (.inr rfl))
    cases listener with
    | none => exact h.counted.move hc rfl rfl h.counted.capped rfl (Int.add_zero _) rfl
    | some l => exact h.counted.move hc rfl hloops h.counted.capped rfl (Int.add_zero _) rfl
  handled := h.handled.leave hc (.inr rfl) rfl
  paced := Paced.next (s := s.setConn c listener .running) h.paced listener

theorem release (hc : s.conns.get c = some ⟨listener, .running⟩) :
    Inv maxConnections (s.release c listener) where
  counted := by
    -- The connection itself holds a place, so that the semaphore is not empty.
    have hpos : 0 < s.slots := by
      rw [h.counted.slots]
      exact FinMap.count_pos hc rfl
    refine h.counted.move hc rfl rfl ?_ ?_ rfl rfl
    · exact (Nat.sub_le _ _).trans h.counted.capped
    · exact Nat.sub_add_cancel hpos
  handled := h.handled.setConn hc (by simp)
  paced := h.paced

theorem finish (hc : s.conns.get c = some ⟨listener, .released⟩) :
    Inv maxConnections (s.finish c listener) where
  counted := by
    refine h.counted.move hc rfl rfl h.counted.capped rfl ?_ rfl
    exact (Int.sub_add_cancel s.wg 1).trans (Int.add_zero _).symm
  handled := h.handled.setConn hc (by simp)
  paced := h.paced

end Inv

theorem inv_start {loops : FinMap Nat Loop}
    (h : ∀ l loop, loops.get l = some loop → loop = .accepting 0 ∨ loop = .serving) :
    Inv maxConnections (start loops) where
  counted := ⟨rfl, Nat.zero_le _, (Int.add_zero _).symm, rfl⟩
  handled := nofun
  paced := by
    intro l delay
    constructor
    · intro hl
      cases h l _ hl <;> contradiction
    · intro hl
      cases h l _ hl with
      | inl heq => exact .inl (Loop.accepting.inj heq)
      | inr heq => cases heq

theorem inv_step {a : Action} (h : Inv maxConnections s)
    (hstep : step maxConnections s a = some t) : Inv maxConnections t := by
  cases moves_of_step hstep with
  | accept hl hc =>
      refine Inv.arrive (h.setLoop hl rfl nofun nofun nofun) hc ?_
      intro l' heq
      cases heq
      exact FinMap.get_set_self _ _ _
  | stopped hl => exact h.returns hl rfl nofun
  | timeout hl =>
      refine h.setLoop hl rfl nofun ?_ nofun
      intro delay heq
      cases heq
      exact backoff_bounds ((h.paced _ _).2 hl)
  | error hl => exact h.returns hl rfl nofun
  | wake hl =>
      refine h.setLoop hl rfl nofun nofun ?_
      intro delay heq
      cases heq
      exact .inr ((h.paced _ _).1 hl)
  | upgrade hc => exact h.arrive hc nofun
  | acquire hc hroom => exact h.acquire hc hroom
  | refuse hc => exact h.refuse hc
  | launch hc => exact h.launch hc
  | release hc => exact h.release hc
  | finish hc => exact h.finish hc
  | serveReturns hl => exact h.returns hl rfl nofun
  | cancel =>
      exact ⟨⟨h.counted.slots, h.counted.capped, h.counted.wg, h.counted.totalConns⟩,
        h.handled, h.paced⟩

/-- An acceptLoop that has not returned. -/
def Listening (l : Nat) (s : State) : Prop :=
  ∃ loop, s.loops.get l = some loop ∧ loop ≠ .serving ∧ loop ≠ .returned

namespace Listening
variable (h : Listening l s)
include h

theorem setLoop {l' : Nat} {loop : Loop} (hloop : l = l' → loop ≠ .serving ∧ loop ≠ .returned) :
    Listening l (s.setLoop l' loop) := by
  by_cases heq : l = l'
  · subst heq
    exact ⟨loop, FinMap.get_set_self _ _ _, hloop rfl⟩
  · obtain ⟨old, hget, hopen⟩ := h
    exact ⟨old, (FinMap.get_set_ne _ _ heq).trans hget, hopen⟩

theorem next (listener : Option Nat) : Listening l (s.next listener) := by
  cases listener with
  | none => exact h
  | some l' => exact h.setLoop fun _ => ⟨nofun, nofun⟩

end Listening

/-- Only an error of its Accept ends an acceptLoop: Stop cancels the context, and closes no
listener. -/
theorem listening_step {a : Action} (h : Listening l s) (htimeout : a ≠ .acceptTimeout l)
    (herror : a ≠ .acceptError l) (hstep : step maxConnections s a = some t) : Listening l t := by
  cases moves_of_step hstep with
  | accept _ _ => exact h.setLoop fun _ => ⟨nofun, nofun⟩
  | stopped _ => exact h.setLoop fun heq => (htimeout (heq ▸ rfl)).elim
  | timeout _ => exact h.setLoop fun heq => (htimeout (heq ▸ rfl)).elim
  | error _ => exact h.setLoop fun heq => (herror (heq ▸ rfl)).elim
  | wake _ => exact h.setLoop fun _ => ⟨nofun, nofun⟩
  | @refuse c listener _ => exact Listening.next (s := s.setConn c listener .refused) h listener
  | @launch c listener _ => exact Listening.next (s := s.setConn c listener .running) h listener
  | serveReturns hl =>
      refine h.setLoop fun heq => ?_
      obtain ⟨loop, hget, hserving, -⟩ := h
      exact absurd (Option.some.inj (hget.symm.trans (heq ▸ hl))) hserving
  | _ => exact h

theorem inv_run {loops : FinMap Nat Loop}
    (h : ∀ l loop, loops.get l = some loop → loop = .accepting 0 ∨ loop = .serving)
    {actions : List Action} (hrun : run (step maxConnections) actions (start loops) = some s) :
    Inv maxConnections s :=
  preserved_run (fun _ _ _ hinv hstep => inv_step hinv hstep) (inv_start h) hrun

/-- Where the wait group stands at zero, every goroutine has ended that it waits for. -/
theorem Inv.drained (h : Inv maxConnections s) (hwg : s.wg = 0) :
    (∀ l loop, s.loops.get l = some loop → loop = .returned) ∧
      ∀ c conn, s.conns.get c = some conn → conn.phase = .refused ∨ conn.phase = .done ∨
        conn.listener = none ∧ conn.inHand = true := by
  have hsum := h.counted.wg
  have hloops : s.loops.count Loop.runs = 0 := by omega
  have hconns : s.conns.count Conn.awaited = 0 := by omega
  have hreturned (l : Nat) (loop : Loop) (hl : s.loops.get l = some loop) : loop = .returned := by
    have hruns := FinMap.count_eq_zero hloops hl
    cases loop with
    | returned => rfl
    | _ => cases hruns
  refine ⟨hreturned, ?_⟩
  intro c conn hc
  have hawaited := FinMap.count_eq_zero hconns hc
  cases conn with
  | mk listener phase =>
      -- A loop that has returned has no connection in hand.
      have hlistener (hhand : (⟨listener, phase⟩ : Conn).inHand = true) : listener = none := by
        cases hl : listener with
        | none => rfl
        | some l => cases hreturned l _ (h.handled c _ l hc hl hhand)
      cases phase with
      | arrived => exact .inr (.inr ⟨hlistener rfl, rfl⟩)
      | refused => exact .inl rfl
      | admitted => exact .inr (.inr ⟨hlistener rfl, rfl⟩)
      | running => cases hawaited
      | released => cases hawaited
      | done => exact .inr (.inl rfl)

/-- The connections of a broker, over every order of the steps of its goroutines. The semaphore
holds one value for each connection that is let in and still runs, never more than MaxConnections;
the wait group counts the loops and the connections that have not ended, so that Stop goes on
before its timeout only when all of them have; and as long as the Accept of a listener does
not fail, it does not stand at zero, the context being done or not. -/
theorem connections_accounted (maxConnections : Nat) (loops : FinMap Nat Loop)
    (hloops : ∀ l loop, loops.get l = some loop → loop = .accepting 0 ∨ loop = .serving)
    (actions : List Action) (s : State)
    (hrun : run (step maxConnections) actions (start loops) = some s) :
    s.slots = s.conns.count Conn.holds ∧ s.slots ≤ maxConnections ∧
      s.totalConns = s.conns.count Conn.launched ∧
      (s.wg = 0 → (∀ l loop, s.loops.get l = some loop → loop = .returned) ∧
        ∀ c conn, s.conns.get c = some conn → conn.phase = .refused ∨ conn.phase = .done ∨
          conn.listener = none ∧ conn.inHand = true) ∧
      (∀ l, loops.get l = some (.accepting 0) →
        (∀ a ∈ actions, a ≠ .acceptTimeout l ∧ a ≠ .acceptError l) → 0 < s.wg) ∧
      ∀ l delay, s.loops.get l = some (.sleeping delay) →
        5 * millisecond ≤ delay ∧ delay ≤ second := by
  have hinv := inv_run hloops hrun
  refine ⟨hinv.counted.slots, hinv.counted.capped, hinv.counted.totalConns, hinv.drained, ?_,
    fun l delay => (hinv.paced l delay).1⟩
  intro l hl hactions
  have hlistening : Listening l s := by
    refine invariant_run (fun _ _ _ h hok hstep => listening_step h hok.1 hok.2 hstep)
      ⟨.accepting 0, hl, nofun, nofun⟩ (meets_of_forall_mem fun a ha _ => hactions a ha) hrun
  cases hlistening with
  | intro loop hloop =>
      have hruns : loop.runs = true := by
        cases hl : loop with
        | returned => exact absurd hl hloop.2.2
        | _ => rfl
      have hpos := FinMap.count_pos hloop.1 hruns
      rw [hinv.counted.wg]
      omega

/-- The last connection comes through the WebSocket handler, and is let in after the wait group
has come to zero. -/
theorem connections_accounted_lateUpgrade :
    let loops : FinMap Nat Loop := (FinMap.empty.set 0 (.accepting 0)).set 1 .serving
    let actions : List Action :=
      [.accept 0 0, .upgrade 1, .acquire 1, .acquire 0, .acceptTimeout 0, .wake 0,
        .accept 0 2, .cancel, .acquire 2, .launch 1, .upgrade 3, .release 1, .finish 1,
        .acquire 3, .acceptTimeout 0, .serveReturns 1]
    ∃ s, run (step 1) actions (start loops) = some s ∧ s.wg = 0 ∧ s.slots = 1 ∧
      s.conns.count Conn.holds = 1 ∧
      s.droppedTotal = 2 ∧ ∀ l loop, s.loops.get l = some loop → loop = .returned := by
  intro loops actions
  have hreach := reaches_of_any (step 1) actions (start loops)
    (fun s => s.wg = 0 ∧ s.slots = 1 ∧ s.droppedTotal = 2) (by decide)
  cases hreach with
  | intro s hs =>
      have hloops (l : Nat) (loop : Loop) (hl : loops.get l = some loop) :
          loop = .accepting 0 ∨ loop = .serving := by
        simp only [loops, FinMap.get_set] at hl
        split_ifs at hl
        · exact .inr (Option.some.inj hl).symm
        · exact .inl (Option.some.inj hl).symm
        · cases hl
      have hfacts := connections_accounted 1 loops hloops actions s hs.1
      exact ⟨s, hs.1, hs.2.1, hs.2.2.1, hfacts.1 ▸ hs.2.2.1, hs.2.2.2, (hfacts.2.2.2.1 hs.2.1).1⟩

end LumaBroker.Broker.Lifecycle
