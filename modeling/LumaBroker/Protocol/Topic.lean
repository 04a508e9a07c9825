import LumaBroker.Go.Strings

/-!
Topic names, topic filters and the shared-subscription form of a filter, as
internal/protocol/packet.go validates and parses them. Every check of the source
looks at ASCII bytes only, so ranging over runes and over bytes agree.
-/

namespace LumaBroker.Protocol

def maxTopicLen : Nat := 65535

def sharePrefix : GoString := str "$share/"

/-- The bytes no literal part of a topic or filter may hold: '+', '#' and NUL. -/
def wildcardByte (c : UInt8) : Bool := c = 43 ∨ c = 35 ∨ c = 0

/-- ValidTopicName: a PUBLISH topic contains no wildcards. -/
def validTopicName (t : GoString) : Bool :=
  if t.length = 0 ∨ t.length > maxTopicLen then false
  else t.all fun c => !wildcardByte c

/-- ParseSharedTopicFilter: "$share/{ShareName}/{TopicFilter}". -/
def parseSharedTopicFilter (f : GoString) : Option (GoString × GoString) :=
  if f.length ≤ sharePrefix.length + 1 ∨ !hasPrefix f sharePrefix then none
  else
    let rest := f.drop sharePrefix.length
    match indexByte rest slash with
    | none => none
    | some i =>
        if i = 0 ∨ i ≥ rest.length - 1 then none
        else
          let shareName := rest.take i
          let topicFilter := rest.drop (i + 1)
          if shareName = [] ∨ topicFilter = [] then none
          else if shareName.any fun c => wildcardByte c || c = slash then none
          else if hasPrefix topicFilter sharePrefix then none
          else some (shareName, topicFilter)

/-- The loop of splitFilter: start is the segment read so far. -/
def splitFilterFrom (start : GoString) : GoString → List GoString
  | [] => [start]
  | c :: f => if c = slash then start :: splitFilterFrom [] f else splitFilterFrom (start ++ [c]) f

def splitFilter (f : GoString) : List GoString := splitFilterFrom [] f

def validTopicFilterSegments : List GoString → Bool
  | [] => true
  | seg :: segs =>
      (if seg = hash then segs.isEmpty
        else if seg = plus then true
        else seg.all fun c => !wildcardByte c) && validTopicFilterSegments segs

/-- ValidTopicFilter: wildcards allowed, MQTT v5 $share supported. -/
def validTopicFilter (f : GoString) : Bool :=
  if f.length = 0 ∨ f.length > maxTopicLen then false
  else if hasPrefix f sharePrefix then
    match parseSharedTopicFilter f with
    | some (_, inner) => validTopicFilterSegments (splitFilter inner)
    | none => false
  else validTopicFilterSegments (splitFilter f)

theorem splitFilterFrom_eq (f start : GoString) :
    splitFilterFrom start f = (split f slash).modifyHead (start ++ ·) := by
  induction f generalizing start with
  | nil => simp [splitFilterFrom, split]
  | cons c f ih =>
      cases hs : split f slash with
      | nil => exact absurd hs (split_ne_nil f slash)
      | cons seg segs =>
          have htail : f.splitOn slash = seg :: segs := hs
          by_cases hc : c = slash
          · simp [splitFilterFrom, split, List.splitOn_cons_eq_if_modifyHead, hc, ih, htail]
          · simp [splitFilterFrom, split, List.splitOn_cons_eq_if_modifyHead, hc, ih, htail]

/-- The hand-written loop computes strings.Split at '/'. -/
theorem splitFilter_eq_split (f : GoString) : splitFilter f = split f slash := by
  rw [splitFilter, splitFilterFrom_eq]
  cases hs : split f slash with
  | nil => rfl
  | cons seg segs => rfl

/-- '#' occurs in no position but the last. -/
def HashLast : List GoString → Prop
  | [] => True
  | seg :: segs => (seg = hash → segs = []) ∧ HashLast segs

theorem hashLast_of_valid (segs : List GoString) (h : validTopicFilterSegments segs = true) :
    HashLast segs := by
  induction segs with
  | nil => trivial
  | cons seg segs ih =>
      simp only [validTopicFilterSegments, Bool.and_eq_true] at h
      refine ⟨?_, ih h.2⟩
      intro hseg
      simpa [hseg] using h.1

theorem parseSharedTopicFilter_append {name inner : GoString} (hname : name ≠ [])
    (hinner : inner ≠ []) (hliteral : ∀ c ∈ name, wildcardByte c = false ∧ c ≠ slash)
    (hnested : ¬ sharePrefix <+: inner) :
    parseSharedTopicFilter (sharePrefix ++ (name ++ slash :: inner)) = some (name, inner) := by
  have hn := List.length_pos_iff.mpr hname
  have hi := List.length_pos_iff.mpr hinner
  have hindex : indexByte (name ++ slash :: inner) slash = some name.length :=
    indexByte_append (fun hmem => (hliteral slash hmem).2 rfl) inner
  have hlen : ¬ ((sharePrefix ++ (name ++ slash :: inner)).length ≤ sharePrefix.length + 1 ∨
      (!hasPrefix (sharePrefix ++ (name ++ slash :: inner)) sharePrefix) = true) := by
    rw [hasPrefix_iff.mpr (List.prefix_append _ _), Bool.not_true, or_iff_left Bool.false_ne_true]
    simp only [List.length_append, List.length_cons]
    omega
  have hbound : ¬ (name.length = 0 ∨ name.length ≥ (name ++ slash :: inner).length - 1) := by
    simp only [List.length_append, List.length_cons]
    omega
  have hbytes : ¬ (name.any fun c => wildcardByte c || c = slash) = true := by
    simpa using hliteral
  have hplain : ¬ hasPrefix inner sharePrefix = true := mt hasPrefix_iff.mp hnested
  simp only [parseSharedTopicFilter, if_neg hlen, List.drop_left, hindex, if_neg hbound,
    List.take_left,
    List.drop_length_add_append, List.drop_one, List.tail_cons, hname, hinner, or_self, if_false,
    if_neg hbytes,
    if_neg hplain]

theorem parseSharedTopicFilter_eq_some {f name inner : GoString} :
    parseSharedTopicFilter f = some (name, inner) ↔
      f = sharePrefix ++ name ++ slash :: inner ∧ name ≠ [] ∧ inner ≠ [] ∧
        (∀ c ∈ name, wildcardByte c = false ∧ c ≠ slash) ∧ ¬ sharePrefix <+: inner := by
  constructor
  · intro h
    simp only [parseSharedTopicFilter] at h
    split_ifs at h with hpre
    obtain ⟨_, hpre⟩ := not_or.mp hpre
    split at h
    · cases h
    · rename_i i hi
      split_ifs at h with hbound hempty hname hnested
      simp only [Option.some.injEq, Prod.mk.injEq] at h
      obtain ⟨rfl, rfl⟩ := h
      obtain ⟨hname0, hinner0⟩ := not_or.mp hempty
      refine ⟨?_, hname0, hinner0, ?_, mt hasPrefix_iff.mpr hnested⟩
      · have hcut := (indexByte_spec hi).1
        have hwhole := eq_append_of_hasPrefix (by simpa using hpre)
        rw [List.append_assoc, ← hcut]
        exact hwhole
      · intro c hc
        have hc' := hname
        simp only [List.any_eq_true, not_exists, not_and] at hc'
        simpa using hc' c hc
  · rintro ⟨rfl, hname, hinner, hliteral, hnested⟩
    rw [List.append_assoc]
    exact parseSharedTopicFilter_append hname hinner hliteral hnested

/-- The parts of an accepted shared filter give the filter back. -/
theorem parseSharedTopicFilter_eq {f name inner : GoString}
    (h : parseSharedTopicFilter f = some (name, inner)) :
    f = sharePrefix ++ name ++ slash :: inner ∧ name ≠ [] ∧ inner ≠ [] ∧
      ∀ c ∈ name, wildcardByte c = false ∧ c ≠ slash := by
  obtain ⟨hf, hname, hinner, hliteral, -⟩ := parseSharedTopicFilter_eq_some.mp h
  exact ⟨hf, hname, hinner, hliteral⟩

/-- The levels of a filter: each is '+', or a last '#', or free of wildcards. -/
def GoodLevels (levels : List GoString) : Prop :=
  ∀ before level after, levels = before ++ level :: after →
    level = plus ∨ (level = hash ∧ after = []) ∨ ∀ c ∈ level, wildcardByte c = false

theorem goodLevels_cons {seg : GoString} {segs : List GoString} :
    GoodLevels (seg :: segs) ↔
      (seg = plus ∨ (seg = hash ∧ segs = []) ∨ ∀ c ∈ seg, wildcardByte c = false) ∧
        GoodLevels segs := by
  constructor
  · intro h
    refine ⟨h [] seg segs rfl, fun before level after heq => h (seg :: before) level after ?_⟩
    rw [heq, List.cons_append]
  · rintro ⟨hseg, hsegs⟩ before level after heq
    cases before with
    | nil =>
        obtain ⟨rfl, rfl⟩ := List.cons.inj heq
        exact hseg
    | cons _ before =>
        obtain ⟨rfl, htail⟩ := List.cons.inj heq
        exact hsegs before level after htail

theorem validTopicFilterSegments_iff (segs : List GoString) :
    validTopicFilterSegments segs = true ↔ GoodLevels segs := by
  induction segs with
  | nil =>
      refine iff_of_true rfl fun before level after heq => ?_
      simp at heq
  | cons seg segs ih =>
      rw [validTopicFilterSegments, Bool.and_eq_true, ih, goodLevels_cons]
      refine and_congr_left fun _ => ?_
      by_cases hhash : seg = hash
      · have hwild : ¬ ∀ c ∈ hash, wildcardByte c = false := by decide
        subst hhash
        rw [if_pos rfl, List.isEmpty_iff, or_iff_right plus_ne_hash.symm, or_iff_left hwild,
          and_iff_right rfl]
      · rw [if_neg hhash]
        by_cases hplus : seg = plus
        · rw [if_pos hplus]
          exact iff_of_true rfl (.inl hplus)
        · rw [if_neg hplus, or_iff_right hplus, or_iff_right fun h => hhash h.1, List.all_eq_true]
          simp only [Bool.not_eq_true']

/-- The grammar of the accepted filters. -/
theorem validTopicFilter_iff (f : GoString) :
    validTopicFilter f = true ↔
      1 ≤ f.length ∧ f.length ≤ 65535 ∧
        (¬ sharePrefix <+: f ∧ GoodLevels (split f slash) ∨
          ∃ name inner, f = sharePrefix ++ name ++ slash :: inner ∧ name ≠ [] ∧
            (∀ c ∈ name, wildcardByte c = false ∧ c ≠ slash) ∧ inner ≠ [] ∧
            ¬ sharePrefix <+: inner ∧
            GoodLevels (split inner slash)) := by
  rw [validTopicFilter]
  by_cases hlen : f.length = 0 ∨ f.length > maxTopicLen
  · rw [if_pos hlen]
    refine iff_of_false Bool.false_ne_true ?_
    rintro ⟨hpos, hle, -⟩
    rw [maxTopicLen] at hlen
    omega
  · have hrange : 1 ≤ f.length ∧ f.length ≤ 65535 := by
      rw [maxTopicLen] at hlen
      omega
    rw [if_neg hlen, and_iff_right hrange.1, and_iff_right hrange.2]
    by_cases hpre : sharePrefix <+: f
    · rw [if_pos (hasPrefix_iff.mpr hpre), or_iff_right fun h => h.1 hpre]
      constructor
      · intro h
        split at h
        · rename_i name inner hparse
          obtain ⟨hf, hname, hinner, hliteral, hnested⟩ := parseSharedTopicFilter_eq_some.mp hparse
          rw [splitFilter_eq_split, validTopicFilterSegments_iff] at h
          exact ⟨name, inner, hf, hname, hliteral, hinner, hnested, h⟩
        · cases h
      · rintro ⟨name, inner, hf, hname, hliteral, hinner, hnested, hlevels⟩
        rw [parseSharedTopicFilter_eq_some.mpr ⟨hf, hname, hinner, hliteral, hnested⟩]
        exact (validTopicFilterSegments_iff _).mpr (splitFilter_eq_split inner ▸ hlevels)
    · rw [if_neg (mt hasPrefix_iff.mp hpre), splitFilter_eq_split, validTopicFilterSegments_iff,
        and_iff_right hpre]
      refine (or_iff_left ?_).symm
      rintro ⟨name, inner, rfl, -⟩
      rw [List.append_assoc] at hpre
      exact hpre (List.prefix_append _ _)

end LumaBroker.Protocol
