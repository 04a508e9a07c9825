import LumaBroker.Go.Strings
import LumaBroker.Lib.Mirror
import LumaBroker.Lib.SortedMap

/-!
The table subscriptions of internal/storage/storage.go and the statements that read and write
it. Its primary key is the client with the filter; the rest of a row is a value. The broker
starts each write in a goroutine of its own, so a write is also a value, to be executed later.
-/

namespace LumaBroker.Storage

variable {ν : Type}

/-- The rows of each client, by filter. -/
abbrev Subscriptions (ν : Type) := FinMap GoString (FinMap GoString ν)

namespace Subscriptions

/-- INSERT ... ON CONFLICT(client_id,topic_filter) DO UPDATE -/
def saveSub (clientID filter : GoString) (v : ν) (t : Subscriptions ν) : Subscriptions ν :=
  t.set clientID (((t.get clientID).getD FinMap.empty).set filter v)

def deleteSub (clientID filter : GoString) (t : Subscriptions ν) : Subscriptions ν :=
  match t.get clientID with
  | some rows => t.set clientID (rows.erase filter)
  | none => t

def deleteAllSubs (clientID : GoString) (t : Subscriptions ν) : Subscriptions ν := t.erase clientID

def getSubs (clientID : GoString) (t : Subscriptions ν) : List (GoString × ν) :=
  ((t.get clientID).getD FinMap.empty).entries

def row (t : Subscriptions ν) (clientID filter : GoString) : Option ν :=
  (t.get clientID).bind fun rows => rows.get filter

theorem row_saveSub (clientID filter : GoString) (v : ν) (t : Subscriptions ν) (c f : GoString) :
    row (t.saveSub clientID filter v) c f =
      if c = clientID ∧ f = filter then some v else row t c f := by
  by_cases hc : c = clientID
  · subst hc
    cases ht : t.get c <;> simp [row, saveSub, FinMap.get_set, ht]
  · simp [row, saveSub, FinMap.get_set, hc]

theorem row_deleteSub (clientID filter : GoString) (t : Subscriptions ν) (c f : GoString) :
    row (t.deleteSub clientID filter) c f =
      if c = clientID ∧ f = filter then none else row t c f := by
  cases ht : t.get clientID with
  | none =>
      by_cases hc : c = clientID
      · subst hc
        simp [row, deleteSub, ht]
      · simp [row, deleteSub, ht, hc]
  | some rows =>
      by_cases hc : c = clientID
      · subst hc
        simp [row, deleteSub, FinMap.get_erase, ht]
      · simp [row, deleteSub, FinMap.get_set, ht, hc]

theorem row_deleteAllSubs (clientID : GoString) (t : Subscriptions ν) (c f : GoString) :
    row (t.deleteAllSubs clientID) c f = if c = clientID then none else row t c f := by
  by_cases hc : c = clientID
  · simp [row, deleteAllSubs, hc]
  · simp [row, deleteAllSubs, FinMap.get_erase, hc]

theorem mem_getSubs (clientID : GoString) (t : Subscriptions ν) (f : GoString) (v : ν) :
    (f, v) ∈ t.getSubs clientID ↔ row t clientID f = some v := by
  rw [getSubs, FinMap.mem_entries, row]
  cases t.get clientID <;> simp

end Subscriptions

open Subscriptions

/-- A write of a goroutine. -/
inductive Write (ν : Type) where
  | saveSub (clientID filter : GoString) (v : ν)
  | deleteSub (clientID filter : GoString)
  | deleteAllSubs (clientID : GoString)
  deriving DecidableEq

namespace Write

def exec (t : Subscriptions ν) : Write ν → Subscriptions ν
  | saveSub clientID filter v => t.saveSub clientID filter v
  | deleteSub clientID filter => t.deleteSub clientID filter
  | deleteAllSubs clientID => t.deleteAllSubs clientID

def clientID : Write ν → GoString
  | saveSub clientID _ _ => clientID
  | deleteSub clientID _ => clientID
  | deleteAllSubs clientID => clientID

/-- What a write does to the row of a client on a filter. -/
def effect (c : GoString) : Write ν → GoString → Option (Option ν)
  | saveSub clientID filter v, f => if c = clientID ∧ f = filter then some (some v) else none
  | deleteSub clientID filter, f => if c = clientID ∧ f = filter then some none else none
  | deleteAllSubs clientID, _ => if c = clientID then some none else none

theorem row_exec (w : Write ν) (t : Subscriptions ν) (c : GoString) :
    row (w.exec t) c = Mirror.exec (effect c) (row t c) w := by
  funext f
  cases w with
  | saveSub clientID filter v =>
      rw [exec, row_saveSub, Mirror.exec, effect]
      split_ifs <;> rfl
  | deleteSub clientID filter =>
      rw [exec, row_deleteSub, Mirror.exec, effect]
      split_ifs <;> rfl
  | deleteAllSubs clientID =>
      rw [exec, row_deleteAllSubs, Mirror.exec, effect]
      split_ifs <;> rfl

theorem row_foldl_exec (order : List (Write ν)) (t : Subscriptions ν) (c : GoString) :
    row (order.foldl exec t) c = Mirror.execAll (effect c) (row t c) order := by
  induction order generalizing t with
  | nil => rfl
  | cons w order ih => rw [List.foldl_cons, ih, row_exec]; rfl

theorem effect_of_ne {c : GoString} {w : Write ν} (h : w.clientID ≠ c) (f : GoString) :
    w.effect c f = none := by
  cases w <;> simp_all [effect, clientID, eq_comm]

/-- Two writes that leave different rows behind, depending on which is the last. -/
def Clash : Write ν → Write ν → Prop
  | saveSub c f v, saveSub c' f' v' => c = c' ∧ f = f' ∧ v ≠ v'
  | saveSub c f _, deleteSub c' f' => c = c' ∧ f = f'
  | deleteSub c f, saveSub c' f' _ => c = c' ∧ f = f'
  | saveSub c _ _, deleteAllSubs c' => c = c'
  | deleteAllSubs c, saveSub c' _ _ => c = c'
  | deleteSub _ _, deleteSub _ _ => False
  | deleteSub _ _, deleteAllSubs _ => False
  | deleteAllSubs _, deleteSub _ _ => False
  | deleteAllSubs _, deleteAllSubs _ => False

instance decidableClash [DecidableEq ν] : ∀ w w' : Write ν, Decidable (Clash w w')
  | saveSub _ _ _, saveSub _ _ _ => inferInstanceAs (Decidable (_ ∧ _ ∧ _))
  | saveSub _ _ _, deleteSub _ _ => inferInstanceAs (Decidable (_ ∧ _))
  | deleteSub _ _, saveSub _ _ _ => inferInstanceAs (Decidable (_ ∧ _))
  | saveSub _ _ _, deleteAllSubs _ => inferInstanceAs (Decidable (_ = _))
  | deleteAllSubs _, saveSub _ _ _ => inferInstanceAs (Decidable (_ = _))
  | deleteSub _ _, deleteSub _ _ => isFalse id
  | deleteSub _ _, deleteAllSubs _ => isFalse id
  | deleteAllSubs _, deleteSub _ _ => isFalse id
  | deleteAllSubs _, deleteAllSubs _ => isFalse id

/-- Writes conflict on the rows of a client when they clash and are the client's. -/
theorem conflict_iff (c : GoString) (w w' : Write ν) :
    Mirror.Conflict (effect c) w w' ↔ w'.clientID = c ∧ Clash w w' := by
  cases w <;> cases w' <;> simp [Mirror.Conflict, effect, clientID, Clash] <;> grind

end Write
end LumaBroker.Storage
