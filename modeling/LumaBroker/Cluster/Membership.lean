import LumaBroker.Cluster.Reconcile
import LumaBroker.Config
import LumaBroker.Lib.Transition

/-!
Which brokers share the partitions of a cluster, over time. Each broker writes its heartbeat
into a sorted set of Redis, and each prunes the set and deals the partitions out to whoever
is left: BrokerPulse, AliveBrokerIDsAfterPrune and BrokerLeave of internal/storage/storage.go,
clusterHeartbeatLoop, partitionSyncLoop and reconcilePartitions of internal/broker/server.go.
The brokers have clocks of their own, and a command reaches Redis some time after the clock
was read for it. Times are in nanoseconds.
-/

namespace LumaBroker.Cluster.Membership

open Settings Manager Router Transition

/-- The method UnixMilli of a time. -/
def unixMilli (t : Int) : Int := t / 1000000

/-- The sorted set keyBrokerPulse: the last heartbeat of each broker, in milliseconds. -/
abbrev Pulses := FinMap GoString Int

/-- The command ZADD of BrokerPulse, with the clock of the broker. -/
def brokerPulse (clock : Int) (brokerID : GoString) (z : Pulses) : Pulses :=
  z.set brokerID (unixMilli clock)

/-- The command ZREMRANGEBYSCORE of AliveBrokerIDsAfterPrune, whose bound is inclusive. -/
def prune (clock stale : Int) (z : Pulses) : Pulses :=
  z.filter fun score => ¬ score ≤ unixMilli (clock - stale)

/-- The command ZRANGE, which orders the members by their scores. -/
def zrange (z : Pulses) : List GoString :=
  (z.entries.insertionSort fun a b => a.2 < b.2 ∨ a.2 = b.2 ∧ a.1 ≤ b.1).map Prod.fst

def brokerLeave (brokerID : GoString) (z : Pulses) : Pulses := z.erase brokerID

/-- How far a broker is in reconcilePartitions, with the time at which it read its clock. -/
inductive Sync where
  | idle
  | pruned (t : Int)
  | answered (t : Int) (ids : List GoString)

/-- The cluster. The last two fields record when the last heartbeat of a broker reached Redis
and, for a broker whose last reconciliation got an answer, when it read its clock for that. -/
structure State where
  now : Int
  pulses : Pulses
  manager : GoString → Manager
  sync : GoString → Sync
  pulsed : GoString → Int
  synced : GoString → Option Int

/-- A cluster: the configuration its brokers share and have validated, how far each clock is
off, and how long a command may take to reach Redis. -/
structure Params where
  cfg : Config
  valid : cfg.Valid
  partitionCount_lt : cfg.cluster.partitionCount < 2 ^ 32
  offset : GoString → Int
  skew : Int
  offset_le : ∀ a b, offset a ≤ offset b + skew
  delay : Int
  /-- Scores are rounded down to a millisecond. -/
  room : 2 * delay + skew + 1000000 ≤ cfg.cluster.brokerHeartbeatInterval

namespace Params
variable (P : Params)

def heartbeat : Int := P.cfg.cluster.brokerHeartbeatInterval

def stale : Int := P.cfg.cluster.brokerStaleAfter

def count : Nat := P.cfg.cluster.partitionCount.toNat

theorem count_pos : 0 < P.count := by
  have := P.valid.partitionCount
  simp only [count]
  omega

theorem count_lt : P.count < 2 ^ 32 := by
  have := P.partitionCount_lt
  simp only [count]
  omega

/-- The configuration leaves more than a missed heartbeat's time before a broker is stale. -/
theorem room_stale : P.heartbeat + 2 * P.delay + P.skew + 1000000 ≤ P.stale := by
  have hstale := P.valid.brokerStaleAfter
  have hroom := P.room
  simp only [heartbeat, stale]
  omega

end Params

inductive Action where
  | advance (d : Nat)
  /-- The heartbeat for which the clock was read at the time. -/
  | pulse (b : GoString) (t : Int)
  | prune (b : GoString) (t : Int)
  | zrange (b : GoString)
  | setOwners (b : GoString)
  /-- Redis returns an error to a reconciliation. -/
  | fail (b : GoString)
  | leave (b : GoString)

section System
variable (P : Params) (s : State)

def pulse (b : GoString) (t : Int) : State :=
  { s with
    pulses := brokerPulse (t + P.offset b) b s.pulses
    pulsed := Function.update s.pulsed b s.now }

def pruneFor (b : GoString) (t : Int) : State :=
  { s with
    pulses := prune (t + P.offset b) P.stale s.pulses
    sync := Function.update s.sync b (.pruned t) }

def answer (b : GoString) (t : Int) : State :=
  { s with sync := Function.update s.sync b (.answered t (zrange s.pulses)) }

def reconcile (b : GoString) (alive : Option (List GoString)) (synced : Option Int) : State :=
  { s with
    manager := Function.update s.manager b ((s.manager b).reconcilePartitions alive)
    sync := Function.update s.sync b .idle
    synced := Function.update s.synced b synced }

def step : Action → Option State
  | .advance d => some { s with now := s.now + d }
  | .pulse b t => some (pulse P s b t)
  | .prune b t =>
      match s.sync b with
      | .idle => some (pruneFor P s b t)
      | _ => none
  | .zrange b =>
      match s.sync b with
      | .pruned t => some (answer s b t)
      | _ => none
  | .setOwners b =>
      match s.sync b with
      | .answered t ids => some (reconcile s b (some ids) (some t))
      | _ => none
  | .fail b => some (reconcile s b none none)
  | .leave b => some { s with pulses := brokerLeave b s.pulses }

/-- The live brokers, and only they, run from now on. Their heartbeats are at most an interval
and a delay apart when they reach Redis. -/
def Timely (live : List GoString) : Action → Prop
  | .advance d => ∀ b ∈ live, s.now + d ≤ s.pulsed b + P.heartbeat + P.delay
  | .pulse b t => b ∈ live ∧ s.now - P.delay ≤ t ∧ t ≤ s.now
  | .prune _ t => t ≤ s.now
  | .leave b => b ∉ live
  | _ => True

instance (live : List GoString) : (a : Action) → Decidable (Timely P s live a)
  | .advance d =>
      inferInstanceAs (Decidable (∀ b ∈ live, s.now + d ≤ s.pulsed b + P.heartbeat + P.delay))
  | .pulse b t => inferInstanceAs (Decidable (b ∈ live ∧ s.now - P.delay ≤ t ∧ t ≤ s.now))
  | .prune _ t => inferInstanceAs (Decidable (t ≤ s.now))
  | .leave b => inferInstanceAs (Decidable (b ∉ live))
  | .zrange _ | .setOwners _ | .fail _ => isTrue trivial

end System

theorem unixMilli_le {t u : Int} (h : t ≤ u) : unixMilli t ≤ unixMilli u :=
  Int.ediv_le_ediv (by decide) h

theorem unixMilli_lt {t u : Int} (h : t + 1000000 ≤ u) : unixMilli t < unixMilli u := by
  simp only [unixMilli]
  omega

theorem get_prune (clock stale : Int) (z : Pulses) (x : GoString) (score : Int) :
    (prune clock stale z).get x = some score ↔
      z.get x = some score ∧ unixMilli (clock - stale) < score := by
  simp [prune, FinMap.get_filter, Option.filter_eq_some_iff]

theorem zrange_perm (z : Pulses) : (zrange z).Perm z.keys :=
  (List.perm_insertionSort _ z.entries).map Prod.fst

section Run
variable (P : Params) (live : List GoString) (start : Int)

/-- Clock readings for which whoever went before the start has gone from Redis. -/
def Settled (t : Int) : Prop := start + P.stale + P.skew ≤ t

instance (t : Int) : Decidable (Settled P start t) := inferInstanceAs (Decidable (_ ≤ _))

/-- The heartbeats in Redis, of the brokers that are live and of those that were until the start. -/
structure Beating (s : State) : Prop where
  fresh : ∀ b ∈ live, s.now ≤ s.pulsed b + P.heartbeat + P.delay
  alive : ∀ b ∈ live, ∃ score, s.pulses.get b = some score ∧
    unixMilli (s.pulsed b - P.delay + P.offset b) ≤ score
  gone : ∀ x ∉ live, ∀ score, s.pulses.get x = some score → score ≤ unixMilli (start + P.offset x)

/-- The reconciliations, with what the clock readings say about their answers. -/
structure Tracking (s : State) : Prop where
  brokerID : ∀ b, (s.manager b).brokerID = b
  partitionCount : ∀ b, (s.manager b).partitionCount = P.count
  pruned : ∀ b t, s.sync b = .pruned t → Settled P start t →
    ∀ x score, s.pulses.get x = some score → x ∈ live
  answered : ∀ b t ids, s.sync b = .answered t ids → Settled P start t → ids.Perm live
  synced : ∀ b ∈ live, ∀ t, s.synced b = some t → Settled P start t →
    ∀ p < P.count, (s.manager b).owner p = dealtTo (sortStrings live) p

/-- When the last of the others has stopped; reconciliations may be under way. -/
structure Start (s : State) : Prop where
  nodup : live.Nodup
  beating : Beating P live s.now s
  brokerID : ∀ b, (s.manager b).brokerID = b
  partitionCount : ∀ b, (s.manager b).partitionCount = P.count
  pruned : ∀ b t, s.sync b = .pruned t → t ≤ s.now
  answered : ∀ b t ids, s.sync b = .answered t ids → t ≤ s.now
  synced : ∀ b t, s.synced b = some t → t ≤ s.now

variable {P live start} {s t : State}

theorem not_settled {u : Int} (h : u ≤ start) : ¬ Settled P start u := by
  have hskew := P.offset_le [] []
  have hstale := P.valid.brokerStaleAfter
  have hheartbeat := P.valid.brokerHeartbeatInterval
  simp only [Settled, Params.stale]
  omega

theorem Start.tracking (h : Start P live s) : Tracking P live s.now s where
  brokerID := h.brokerID
  partitionCount := h.partitionCount
  pruned b t ht hsettled := absurd hsettled (not_settled (h.pruned b t ht))
  answered b t ids ht hsettled := absurd hsettled (not_settled (h.answered b t ids ht))
  synced b _ t ht hsettled := absurd hsettled (not_settled (h.synced b t ht))

namespace Beating
variable (h : Beating P live start s)
include h

theorem advance {d : Nat} (hok : Timely P s live (.advance d)) :
    Beating P live start { s with now := s.now + d } where
  fresh := hok
  alive := h.alive
  gone := h.gone

theorem pulse {b : GoString} {u : Int} (hok : Timely P s live (.pulse b u)) :
    Beating P live start (pulse P s b u) where
  fresh c hc := by
    by_cases hcb : c = b
    · simp only [Membership.pulse, hcb, Function.update_self]
      have hdelay : 0 ≤ P.delay := by
        have := hok.2
        omega
      have := P.valid.brokerHeartbeatInterval
      simp only [Params.heartbeat]
      omega
    · simp only [Membership.pulse, Function.update_of_ne hcb]
      exact h.fresh c hc
  alive c hc := by
    by_cases hcb : c = b
    · refine ⟨unixMilli (u + P.offset b), ?_, ?_⟩
      · simp [Membership.pulse, brokerPulse, hcb]
      · simp only [Membership.pulse, hcb, Function.update_self]
        have := hok.2
        exact unixMilli_le (by omega)
    · simp only [Membership.pulse, brokerPulse, Function.update_of_ne hcb,
        FinMap.get_set_ne _ _ hcb]
      exact h.alive c hc
  gone x hx score hscore := by
    have hne : x ≠ b := fun heq => hx (heq ▸ hok.1)
    simp only [Membership.pulse, brokerPulse, FinMap.get_set_ne _ _ hne] at hscore
    exact h.gone x hx score hscore

/-- No live broker is ever pruned, whoever prunes and whatever its clock says. -/
theorem stays {b c : GoString} {u score : Int} (hu : u ≤ s.now) (hc : c ∈ live)
    (hscore : unixMilli (s.pulsed c - P.delay + P.offset c) ≤ score) :
    unixMilli (u + P.offset b - P.stale) < score := by
  have hfresh := h.fresh c hc
  have hoffset := P.offset_le b c
  have hroom := P.room_stale
  exact lt_of_lt_of_le (unixMilli_lt (by omega)) hscore

theorem pruneFor {b : GoString} {u : Int} (hu : u ≤ s.now) :
    Beating P live start (pruneFor P s b u) where
  fresh := h.fresh
  alive c hc := by
    obtain ⟨score, hget, hscore⟩ := h.alive c hc
    exact ⟨score, (get_prune ..).mpr ⟨hget, h.stays hu hc hscore⟩, hscore⟩
  gone x hx score hscore := h.gone x hx score ((get_prune ..).mp hscore).1

theorem leave {b : GoString} (hb : b ∉ live) :
    Beating P live start { s with pulses := brokerLeave b s.pulses } where
  fresh := h.fresh
  alive c hc := by
    have hne : c ≠ b := fun heq => hb (heq ▸ hc)
    simp only [brokerLeave, FinMap.get_erase_ne _ hne]
    exact h.alive c hc
  gone x hx score hscore := by
    simp only [brokerLeave, FinMap.get_erase] at hscore
    split_ifs at hscore
    exact h.gone x hx score hscore

/-- After a settled prune only the live brokers are left. -/
theorem only_live {b x : GoString} {u score : Int} (hu : Settled P start u)
    (hscore : (Membership.pruneFor P s b u).pulses.get x = some score) : x ∈ live := by
  obtain ⟨hget, hlt⟩ := (get_prune ..).mp hscore
  by_contra hx
  have hold := h.gone x hx score hget
  have hoffset := P.offset_le x b
  have hle : unixMilli (start + P.offset x) ≤ unixMilli (u + P.offset b - P.stale) := by
    apply unixMilli_le
    simp only [Settled] at hu
    omega
  omega

theorem keys_perm (hnd : live.Nodup) (honly : ∀ x score, s.pulses.get x = some score → x ∈ live) :
    s.pulses.keys.Perm live := by
  rw [List.perm_ext_iff_of_nodup s.pulses.keys_nodup hnd]
  intro x
  rw [FinMap.mem_keys]
  constructor
  · intro hx
    exact honly x _ hx.choose_spec
  · intro hx
    obtain ⟨score, hget, _⟩ := h.alive x hx
    exact ⟨score, hget⟩

end Beating

theorem brokerID_reconcilePartitions (alive : Option (List GoString)) (m : Manager) :
    (m.reconcilePartitions alive).brokerID = m.brokerID := by
  rw [reconcilePartitions.eq_def]
  split <;> exact brokerID_assign ..

theorem partitionCount_reconcilePartitions (alive : Option (List GoString)) (m : Manager) :
    (m.reconcilePartitions alive).partitionCount = m.partitionCount := by
  rw [reconcilePartitions.eq_def]
  split <;> exact partitionCount_assign ..

theorem owner_reconcilePartitions {ids : List GoString} {m : Manager} {p : Nat}
    (hperm : ids.Perm live) (hne : live ≠ []) (hp : p < m.partitionCount) :
    (m.reconcilePartitions (some ids)).owner p = dealtTo (sortStrings live) p := by
  rw [← sortStrings_eq_of_perm hperm]
  cases ids with
  | nil => exact absurd hperm.symm.eq_nil hne
  | cons id ids => exact owner_assign _ _ hp

namespace Tracking
variable (h : Tracking P live start s)
include h

/-- Heartbeats of live brokers and removals leave what is known about the answers. -/
theorem set_pulses {z : Pulses} (now : Int) (pulsed : GoString → Int)
    (hz : ∀ x score, z.get x = some score → x ∈ live ∨ ∃ score', s.pulses.get x = some score') :
    Tracking P live start { s with now := now, pulses := z, pulsed := pulsed } where
  brokerID := h.brokerID
  partitionCount := h.partitionCount
  pruned b u hb hu x score hx := by
    cases hz x score hx with
    | inl hlive => exact hlive
    | inr hold => exact h.pruned b u hb hu x _ hold.choose_spec
  answered := h.answered
  synced := h.synced

theorem pulse {b : GoString} {u : Int} (hb : b ∈ live) : Tracking P live start (pulse P s b u) := by
  refine h.set_pulses _ _ fun x score hx => ?_
  by_cases hxb : x = b
  · exact .inl (hxb ▸ hb)
  · rw [brokerPulse, FinMap.get_set_ne _ _ hxb] at hx
    exact .inr ⟨score, hx⟩

theorem leave (b : GoString) :
    Tracking P live start { s with pulses := brokerLeave b s.pulses } := by
  refine h.set_pulses _ _ fun x score hx => ?_
  simp only [brokerLeave, FinMap.get_erase] at hx
  split_ifs at hx
  exact .inr ⟨score, hx⟩

/-- A broker goes on with its reconciliation. -/
theorem set_sync {b : GoString} {y : Sync}
    (hpruned : ∀ u, y = .pruned u → Settled P start u →
      ∀ x score, s.pulses.get x = some score → x ∈ live)
    (hanswered : ∀ u ids, y = .answered u ids → Settled P start u → ids.Perm live) :
    Tracking P live start { s with sync := Function.update s.sync b y } where
  brokerID := h.brokerID
  partitionCount := h.partitionCount
  pruned := (Function.forall_update_iff s.sync fun _ y => ∀ u, y = .pruned u → Settled P start u →
    ∀ x score, s.pulses.get x = some score → x ∈ live).mpr ⟨hpruned, fun c _ => h.pruned c⟩
  answered := (Function.forall_update_iff s.sync fun _ y => ∀ u ids, y = .answered u ids →
    Settled P start u → ids.Perm live).mpr ⟨hanswered, fun c _ => h.answered c⟩
  synced := h.synced

theorem pruneFor (hbeat : Beating P live start s) (b : GoString) (u : Int) :
    Tracking P live start (pruneFor P s b u) := by
  have hless : Tracking P live start { s with pulses := prune (u + P.offset b) P.stale s.pulses } :=
    h.set_pulses _ _ fun x score hx => .inr ⟨score, ((get_prune ..).mp hx).1⟩
  refine hless.set_sync ?_ nofun
  intro v hv hsettled x score hx
  cases hv
  exact hbeat.only_live hsettled hx

theorem answer (hbeat : Beating P live start s) (hnd : live.Nodup) {b : GoString} {u : Int}
    (hb : s.sync b = .pruned u) : Tracking P live start (answer s b u) := by
  refine h.set_sync nofun ?_
  intro v ids hv hsettled
  cases hv
  exact (zrange_perm s.pulses).trans (hbeat.keys_perm hnd (h.pruned b u hb hsettled))

/-- A broker ends its reconciliation, with the owners that its clock reading vouches for. -/
theorem reconcile {b : GoString} {alive : Option (List GoString)} {synced : Option Int}
    (hsynced : b ∈ live → ∀ u, synced = some u → Settled P start u → ∀ p < P.count,
      ((s.manager b).reconcilePartitions alive).owner p = dealtTo (sortStrings live) p) :
    Tracking P live start (reconcile s b alive synced) where
  brokerID := (Function.forall_update_iff s.manager fun c m => m.brokerID = c).mpr
    ⟨(brokerID_reconcilePartitions ..).trans (h.brokerID b), fun c _ => h.brokerID c⟩
  partitionCount := (Function.forall_update_iff s.manager fun _ m => m.partitionCount = P.count).mpr
    ⟨(partitionCount_reconcilePartitions ..).trans (h.partitionCount b),
      fun c _ => h.partitionCount c⟩
  pruned := (h.set_sync (b := b) (y := .idle) nofun nofun).pruned
  answered := (h.set_sync (b := b) (y := .idle) nofun nofun).answered
  synced c hc u hu hsettled p hp := by
    by_cases hcb : c = b
    · rw [hcb] at hc hu
      simp only [Membership.reconcile, Function.update_self] at hu
      simp only [Membership.reconcile, hcb, Function.update_self]
      exact hsynced hc u hu hsettled p hp
    · simp only [Membership.reconcile, Function.update_of_ne hcb] at hu ⊢
      exact h.synced c hc u hu hsettled p hp

theorem setOwners {b : GoString} {u : Int} {ids : List GoString} (hb : s.sync b = .answered u ids) :
    Tracking P live start (Membership.reconcile s b (some ids) (some u)) := by
  refine h.reconcile fun hmem v hv hsettled p hp => ?_
  cases hv
  exact owner_reconcilePartitions (h.answered b u ids hb hsettled) (List.ne_nil_of_mem hmem)
    ((h.partitionCount b).symm ▸ hp)

theorem fail (b : GoString) : Tracking P live start (Membership.reconcile s b none none) :=
  h.reconcile nofun

/-- The partition of a topic does not depend on the broker, so only one broker has it. -/
theorem existsUnique_isLocalOwner (hne : live ≠ [])
    (hsynced : ∀ b ∈ live, ∃ u, s.synced b = some u ∧ Settled P start u) (topic : GoString) :
    ∃! b, b ∈ live ∧ (s.manager b).isLocalOwner topic = true := by
  let part := (newManager [] P.count).partitionForTopic topic
  have hpart (b : GoString) : (s.manager b).partitionForTopic topic = part := by
    simp only [partitionForTopic, h.partitionCount b, part, newManager]
  have hlt : part < P.count := partitionForTopic_lt topic P.count_pos P.count_lt
  have howner (b : GoString) (hb : b ∈ live) :
      (s.manager b).isLocalOwner topic = true ↔ dealtTo (sortStrings live) part = b := by
    obtain ⟨u, hu, hsettled⟩ := hsynced b hb
    rw [isLocalOwner, decide_eq_true_iff, hpart, h.synced b hb u hu hsettled part hlt, h.brokerID]
  have hsorted : sortStrings live ≠ [] := by
    obtain ⟨a, ha⟩ := List.exists_mem_of_ne_nil live hne
    exact Members.sortStrings_ne_nil ha
  have hmem : dealtTo (sortStrings live) part ∈ live :=
    (List.mem_insertionSort (· ≤ ·)).mp (dealtTo_mem hsorted part)
  refine ⟨_, ⟨hmem, (howner _ hmem).mpr rfl⟩, ?_⟩
  intro b hb
  exact ((howner b hb.1).mp hb.2).symm

end Tracking

theorem inv_step (hnd : live.Nodup) (a : Action)
    (h : Beating P live start s ∧ Tracking P live start s) (hok : Timely P s live a)
    (hstep : step P s a = some t) : Beating P live start t ∧ Tracking P live start t := by
  obtain ⟨hbeat, htrack⟩ := h
  cases a with
  | advance d =>
      cases hstep
      exact ⟨hbeat.advance hok, htrack.set_pulses _ _ fun x score hx => .inr ⟨score, hx⟩⟩
  | pulse b u =>
      cases hstep
      exact ⟨hbeat.pulse hok, htrack.pulse hok.1⟩
  | prune b u =>
      simp only [step] at hstep
      split at hstep <;> cases hstep
      exact ⟨hbeat.pruneFor hok, htrack.pruneFor hbeat b u⟩
  | zrange b =>
      simp only [step] at hstep
      split at hstep <;> cases hstep
      next u hb => exact ⟨⟨hbeat.fresh, hbeat.alive, hbeat.gone⟩, htrack.answer hbeat hnd hb⟩
  | setOwners b =>
      simp only [step] at hstep
      split at hstep <;> cases hstep
      next u ids hb => exact ⟨⟨hbeat.fresh, hbeat.alive, hbeat.gone⟩, htrack.setOwners hb⟩
  | fail b =>
      cases hstep
      exact ⟨⟨hbeat.fresh, hbeat.alive, hbeat.gone⟩, htrack.fail b⟩
  | leave b =>
      cases hstep
      exact ⟨hbeat.leave hok, htrack.leave b⟩

/-- A broker that keeps its heartbeats up stays in Redis whatever the others' clocks say, and
one that has reconciled long enough after the last of the others stopped has dealt the
partitions out to the live brokers. Once they all have, each topic has exactly one owner. -/
theorem live_brokers_converge {as : List Action} (hstart : Start P live s)
    (hok : Meets (step P) (fun s a => Timely P s live a) as s) (hrun : run (step P) as s = some t) :
    (∀ b ∈ live, ∃ score, t.pulses.get b = some score) ∧
    (∀ b ∈ live, ∀ u, t.synced b = some u → Settled P s.now u →
      (t.manager b).owners = (List.range P.count).map (dealtTo (sortStrings live))) ∧
    (live ≠ [] → (∀ b ∈ live, ∃ u, t.synced b = some u ∧ Settled P s.now u) →
      ∀ topic, ∃! b, b ∈ live ∧ (t.manager b).isLocalOwner topic = true) := by
  have hinv := invariant_run (fun s a t h hok hstep => inv_step hstart.nodup a h hok hstep)
    ⟨hstart.beating, hstart.tracking⟩ hok hrun
  refine ⟨?_, ?_, fun hne hsynced => hinv.2.existsUnique_isLocalOwner hne hsynced⟩
  · intro b hb
    obtain ⟨score, hget, _⟩ := hinv.1.alive b hb
    exact ⟨score, hget⟩
  · intro b hb u hu hsettled
    rw [owners, hinv.2.partitionCount b]
    exact List.map_congr_left fun p hp => hinv.2.synced b hb u hu hsettled p (List.mem_range.mp hp)

end Run

/-- Brokers that take a heartbeat for stale after two intervals, with clocks two seconds apart. -/
def twoIntervals : Params where
  cfg :=
    { broker := (Config.load ⟨fun _ => none, fun _ => none, fun _ => none⟩ fun _ => none).broker
      jwtSecret := str "0123456789abcdef"
      cluster :=
        { enabled := true, brokerID := [], partitionCount := 4, partitionReplica := 3
          partitionSyncInterval := 10 * Config.second, brokerHeartbeatInterval := 5 * Config.second
          brokerStaleAfter := 10 * Config.second } }
  valid := Config.validate_eq_none.mp rfl
  partitionCount_lt := by decide
  offset b := if b = str "b2" then 2 * Config.second else 0
  skew := 2 * Config.second
  offset_le a b := by
    simp only [Config.second]
    split_ifs <;> omega
  delay := Config.second
  room := by decide

/-- The third broker has just stopped. -/
def justStopped : State where
  now := 0
  pulses := ((FinMap.empty.set (str "b1") 0).set (str "b2") 2000).set (str "b3") 0
  manager b := newManager b 4
  sync _ := .idle
  pulsed _ := 0
  synced _ := none

/-- The survivors beat three times; the first of them reconciles before and after the third
broker is stale for it. -/
def survivors : List Action :=
  let beat := fun t : Int => [Action.advance 5000000000, .pulse (str "b1") t, .pulse (str "b2") t]
  let sync := fun (b : GoString) (t : Int) => [Action.prune b t, .zrange b, .setOwners b]
  beat 5000000000 ++ sync (str "b1") 5000000000 ++ beat 10000000000 ++ beat 15000000000 ++
    sync (str "b1") 15000000000 ++ sync (str "b2") 15000000000

theorem start_justStopped : Start twoIntervals [str "b1", str "b2"] justStopped where
  nodup := by decide
  beating :=
    { fresh := by decide
      alive := by
        have hall : ∀ b ∈ [str "b1", str "b2"], (justStopped.pulses.get b).any fun score => decide
            (unixMilli (justStopped.pulsed b - twoIntervals.delay + twoIntervals.offset b) ≤
              score) := by
          decide +kernel
        exact fun b hb => exists_of_any _ (hall b hb)
      gone := by
        have hall : ∀ e ∈ justStopped.pulses.entries, e.1 ∉ [str "b1", str "b2"] →
            e.2 ≤ unixMilli (justStopped.now + twoIntervals.offset e.1) := by
          decide +kernel
        exact fun x hx score hscore => hall _ ((FinMap.mem_entries ..).mpr hscore) hx }
  brokerID _ := rfl
  partitionCount _ := rfl
  pruned := nofun
  answered := nofun
  synced := nofun

theorem live_brokers_converge_survivors :
    ∃ t, run (step twoIntervals) survivors justStopped = some t ∧
    ∀ topic, ∃! b, b ∈ [str "b1", str "b2"] ∧ (t.manager b).isLocalOwner topic = true := by
  obtain ⟨t, hrun, hsynced⟩ := reaches_of_any (step twoIntervals) survivors justStopped
    (fun t => ∀ b ∈ [str "b1", str "b2"], t.synced b = some 15000000000) (by decide +kernel)
  have hconverge := live_brokers_converge start_justStopped (by decide +kernel) hrun
  have hsettled : Settled twoIntervals 0 15000000000 := by decide
  exact ⟨t, hrun, hconverge.2.2 (by decide) fun b hb => ⟨_, hsynced b hb, hsettled⟩⟩

end LumaBroker.Cluster.Membership
