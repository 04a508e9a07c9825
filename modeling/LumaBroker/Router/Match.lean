import LumaBroker.Protocol.Topic

/-!
The linear matcher of internal/router/router.go. It is the reference meaning of a
topic filter: the trie walk is compared with it, and retained and shared
deliveries call it directly.
-/

namespace LumaBroker.Router

/-- splitFilter of the router package. -/
def splitFilter (f : GoString) : List GoString :=
  if f = [] then [[]] else split f slash

/-- matchSegs, on the topic and filter segments from the current positions on. -/
def matchSegs : List GoString → List GoString → Bool
  | t, [] => t.isEmpty
  | t, seg :: f =>
      if seg = hash then true
      else
        match t with
        | [] => false
        | s :: t => if seg ≠ plus ∧ seg ≠ s then false else matchSegs t f

def topicMatchesFilter (topic filter : GoString) : Bool :=
  matchSegs (splitFilter topic) (splitFilter filter)

/-- The filter SendRetained compares topics with. -/
def matchFilter (filter : GoString) : GoString :=
  match Protocol.parseSharedTopicFilter filter with
  | some (_, inner) => inner
  | none => filter

theorem splitFilter_eq_split (f : GoString) : splitFilter f = split f slash := by
  by_cases h : f = []
  · subst h
    rfl
  · simp [splitFilter, h]

theorem splitFilter_injective {f g : GoString} (h : splitFilter f = splitFilter g) : f = g := by
  rw [splitFilter_eq_split, splitFilter_eq_split] at h
  exact split_injective slash h

theorem splitFilter_ne_nil (f : GoString) : splitFilter f ≠ [] := by
  rw [splitFilter_eq_split]
  exact split_ne_nil f slash

/-- The three packages split a filter alike. -/
theorem splitFilter_eq_protocol (f : GoString) : splitFilter f = Protocol.splitFilter f := by
  rw [splitFilter_eq_split, Protocol.splitFilter_eq_split]

theorem matchSegs_cons_cons (s seg : GoString) (t f : List GoString) :
    matchSegs (s :: t) (seg :: f) = true ↔
      seg = hash ∨ (seg = plus ∨ seg = s) ∧ matchSegs t f = true := by
  by_cases hh : seg = hash
  · simp [matchSegs, hh]
  · by_cases hp : seg = plus
    · subst hp
      simp [matchSegs, plus_ne_hash]
    · by_cases hs : seg = s
      · simp [matchSegs, hs]
      · simp [matchSegs, hh, hp, hs]

theorem matchSegs_nil_cons (seg : GoString) (f : List GoString) :
    matchSegs [] (seg :: f) = true ↔ seg = hash := by
  by_cases hh : seg = hash <;> simp [matchSegs, hh]

theorem matchSegs_hash (t f : List GoString) : matchSegs t (hash :: f) = true := by
  cases t with
  | nil => simp [matchSegs]
  | cons s t => simp [matchSegs]

/-- What the loop computes, for filters of any shape: the levels before the first '#' are
compared one by one, and nothing behind it is looked at. -/
theorem matchSegs_iff (t f : List GoString) :
    matchSegs t f = true ↔
      ∃ first rest, t = first ++ rest ∧
        List.Forall₂ (fun seg level => seg = level ∨ seg = plus)
        (f.takeWhile fun seg => seg ≠ hash) first ∧
        (hash ∉ f → rest = []) := by
  induction f generalizing t with
  | nil =>
      rw [matchSegs, List.isEmpty_iff]
      constructor
      · rintro rfl
        exact ⟨[], [], rfl, .nil, fun _ => rfl⟩
      · rintro ⟨first, rest, rfl, hfirst, hrest⟩
        cases hfirst
        exact hrest List.not_mem_nil
  | cons seg f ih =>
      by_cases hseg : seg = hash
      · subst hseg
        refine iff_of_true (matchSegs_hash t f)
          ⟨[], t, rfl, ?_, fun h => absurd List.mem_cons_self h⟩
        rw [List.takeWhile_cons_of_neg (by simp)]
        exact .nil
      · have hmem : hash ∈ seg :: f ↔ hash ∈ f := by
          rw [List.mem_cons, or_iff_right (Ne.symm hseg)]
        rw [List.takeWhile_cons_of_pos (by simpa using hseg), hmem]
        cases t with
        | nil =>
            refine iff_of_false (mt (matchSegs_nil_cons seg f).mp hseg) ?_
            rintro ⟨first, rest, hnil, hfirst, -⟩
            rw [(List.append_eq_nil_iff.mp hnil.symm).1] at hfirst
            cases hfirst
        | cons s t =>
            rw [matchSegs_cons_cons, or_iff_right hseg, ih]
            constructor
            · rintro ⟨hlevel, first, rest, rfl, hfirst, hrest⟩
              exact ⟨s :: first, rest, rfl, .cons hlevel.symm hfirst, hrest⟩
            · rintro ⟨first, rest, heq, hfirst, hrest⟩
              cases hfirst with
              | cons hlevel htail =>
                  obtain ⟨rfl, rfl⟩ := List.cons.inj heq
                  exact ⟨hlevel.symm, _, rest, rfl, htail, hrest⟩

/-- A filter accepted outside the shared form has '#' in last position only. -/
theorem hashLast_splitFilter {f : GoString} (hvalid : Protocol.validTopicFilter f = true)
    (hplain : Protocol.parseSharedTopicFilter f = none) :
    Protocol.HashLast (splitFilter f) := by
  rw [splitFilter_eq_protocol]
  apply Protocol.hashLast_of_valid
  simp only [Protocol.validTopicFilter] at hvalid
  split_ifs at hvalid with hlen hpre
  · simp [hplain] at hvalid
  · exact hvalid

theorem hashLast_matchFilter {f : GoString} (hvalid : Protocol.validTopicFilter f = true) :
    Protocol.HashLast (splitFilter (matchFilter f)) := by
  cases hp : Protocol.parseSharedTopicFilter f with
  | none =>
      rw [matchFilter, hp]
      exact hashLast_splitFilter hvalid hp
  | some parts =>
      rw [matchFilter, hp, splitFilter_eq_protocol]
      apply Protocol.hashLast_of_valid
      simp only [Protocol.validTopicFilter, hp] at hvalid
      split_ifs at hvalid with hlen hpre
      · exact hvalid
      · simp [Protocol.parseSharedTopicFilter, hpre] at hp

/-- A topic matches a filter level by level: a level stands for itself, '+' for any one, and a
last '#' for whatever is left. -/
inductive LevelsMatch : List GoString → List GoString → Prop where
  | nil : LevelsMatch [] []
  | level (seg : GoString) {t f : List GoString} :
      LevelsMatch t f → LevelsMatch (seg :: t) (seg :: f)
  | plus (seg : GoString) {t f : List GoString} :
      LevelsMatch t f → LevelsMatch (seg :: t) (plus :: f)
  | hash (t : List GoString) : LevelsMatch t [hash]

theorem matchSegs_iff_levelsMatch {f : List GoString} (hlast : Protocol.HashLast f)
    (t : List GoString) : matchSegs t f = true ↔ LevelsMatch t f := by
  induction f generalizing t with
  | nil =>
      rw [matchSegs, List.isEmpty_iff]
      constructor
      · rintro rfl
        exact .nil
      · rintro ⟨⟩
        rfl
  | cons seg f ih =>
      cases t with
      | nil =>
          rw [matchSegs_nil_cons]
          constructor
          · rintro rfl
            rw [hlast.1 rfl]
            exact .hash []
          · rintro ⟨⟩
            rfl
      | cons s t =>
          rw [matchSegs_cons_cons, ih hlast.2]
          constructor
          · rintro (rfl | ⟨rfl | rfl, ht⟩)
            · rw [hlast.1 rfl]
              exact .hash _
            · exact .plus s ht
            · exact .level seg ht
          · intro h
            cases h with
            | level _ ht => exact .inr ⟨.inr rfl, ht⟩
            | plus _ ht => exact .inr ⟨.inl rfl, ht⟩
            | hash => exact .inl rfl

/-- For accepted filters the linear matcher is the level-wise relation. -/
theorem topicMatchesFilter_iff {f : GoString} (hvalid : Protocol.validTopicFilter f = true)
    (topic : GoString) :
    topicMatchesFilter topic (matchFilter f) = true ↔
      LevelsMatch (splitFilter topic) (splitFilter (matchFilter f)) :=
  matchSegs_iff_levelsMatch (hashLast_matchFilter hvalid) _

end LumaBroker.Router
