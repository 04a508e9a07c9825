import LumaBroker.Go.Strings
import LumaBroker.Lib.Mirror
import LumaBroker.Lib.SortedMap

/-!
The hash luma:retained of internal/storage/storage.go: HSET, HDEL and HGETALL are those of a
map, and a record comes back from its JSON as it was. The broker calls SetRetained in
goroutines, so a call is also a value, to be executed later.
-/

namespace LumaBroker.Storage

structure RetainedRecord where
  topic : GoString
  payload : List UInt8
  qos : UInt8
  timestamp : Nat
  deriving DecidableEq

/-- Every record stands under its own topic. -/
structure RetainedHash where
  fields : FinMap GoString RetainedRecord
  keyed : ∀ topic rec, fields.get topic = some rec → rec.topic = topic

/-- The retained message of a topic, with none for an empty payload. -/
def message (payload : List UInt8) (qos : UInt8) : Option (List UInt8 × UInt8) :=
  if payload.length = 0 then none else some (payload, qos)

namespace RetainedHash

def empty : RetainedHash := ⟨FinMap.empty, fun _ _ h => by cases h⟩

def setRetained (topic : GoString) (payload : List UInt8) (qos : UInt8) (now : Nat)
    (h : RetainedHash) : RetainedHash where
  fields :=
    if payload.length = 0 then h.fields.erase topic
    else h.fields.set topic ⟨topic, payload, qos, now⟩
  keyed k rec hk := by
    by_cases hkt : k = topic
    · subst hkt
      split_ifs at hk
      · rw [FinMap.get_erase_self] at hk
        cases hk
      · rw [FinMap.get_set_self] at hk
        cases hk
        rfl
    · refine h.keyed k rec ?_
      split_ifs at hk
      · rwa [FinMap.get_erase_ne _ hkt] at hk
      · rwa [FinMap.get_set_ne _ _ hkt] at hk

/-- The records of the hash, in the order of the keys; a Go map has none. -/
def getAllRetained (h : RetainedHash) : List RetainedRecord := h.fields.entries.map Prod.snd

def stored (h : RetainedHash) (topic : GoString) : Option (List UInt8 × UInt8) :=
  (h.fields.get topic).map fun rec => (rec.payload, rec.qos)

theorem mem_getAllRetained (h : RetainedHash) (rec : RetainedRecord) :
    rec ∈ h.getAllRetained ↔ h.fields.get rec.topic = some rec := by
  rw [getAllRetained, List.mem_map]
  constructor
  · rintro ⟨⟨topic, rec'⟩, hmem, rfl⟩
    have hget := (FinMap.mem_entries _ _ _).mp hmem
    rwa [h.keyed topic rec' hget]
  · intro hget
    exact ⟨(rec.topic, rec), (FinMap.mem_entries _ _ _).mpr hget, rfl⟩

theorem nodup_topics (h : RetainedHash) : (h.getAllRetained.map RetainedRecord.topic).Nodup := by
  have hkeys : h.getAllRetained.map RetainedRecord.topic = h.fields.keys := by
    rw [getAllRetained, FinMap.keys, List.map_map]
    apply List.map_congr_left
    intro e he
    exact h.keyed e.1 e.2 ((FinMap.mem_entries _ _ _).mp he)
  rw [hkeys]
  exact h.fields.keys_nodup

end RetainedHash

/-- A call of SetRetained in a goroutine. -/
structure SetRetained where
  topic : GoString
  payload : List UInt8
  qos : UInt8
  deriving DecidableEq

namespace SetRetained

def exec (h : RetainedHash) (w : SetRetained × Nat) : RetainedHash :=
  h.setRetained w.1.topic w.1.payload w.1.qos w.2

def effect (w : SetRetained) (topic : GoString) : Option (Option (List UInt8 × UInt8)) :=
  if topic = w.topic then some (message w.payload w.qos) else none

theorem stored_exec (h : RetainedHash) (w : SetRetained × Nat) :
    (exec h w).stored = Mirror.exec effect h.stored w.1 := by
  funext topic
  by_cases ht : topic = w.1.topic
  · subst ht
    by_cases hp : w.1.payload.length = 0 <;>
      simp [RetainedHash.stored, exec, RetainedHash.setRetained, Mirror.exec, effect, message, hp]
  · by_cases hp : w.1.payload.length = 0 <;>
      simp [RetainedHash.stored, exec, RetainedHash.setRetained, Mirror.exec, effect, hp, ht,
        FinMap.get_erase, FinMap.get_set]

theorem stored_foldl_exec (order : List (SetRetained × Nat)) (h : RetainedHash) :
    (order.foldl exec h).stored = Mirror.execAll effect h.stored (order.map Prod.fst) := by
  induction order generalizing h with
  | nil => rfl
  | cons w order ih => rw [List.foldl_cons, ih, stored_exec]; rfl

/-- Writes conflict when they leave different messages on one topic. -/
theorem conflict_iff (w w' : SetRetained) :
    Mirror.Conflict effect w w' ↔
      w.topic = w'.topic ∧ message w.payload w.qos ≠ message w'.payload w'.qos := by
  constructor
  · rintro ⟨topic, v, v', hv, hv', hne⟩
    simp only [effect] at hv hv'
    split_ifs at hv hv' with ht ht'
    cases hv
    cases hv'
    exact ⟨ht.symm.trans ht', hne⟩
  · rintro ⟨ht, hne⟩
    exact ⟨w.topic, _, _, by rw [effect, if_pos rfl], by rw [effect, if_pos ht], hne⟩

end SetRetained
end LumaBroker.Storage
