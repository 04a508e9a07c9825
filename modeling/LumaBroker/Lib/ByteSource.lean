import LumaBroker.Lib.Faulting

/-!
Sources that are read in pieces. A read asks for at most so many elements and gets as many
as the source sees fit, possibly none. A read that insists on its full length sees the
content alone and not the pieces, and a buffer in front of a source is a source with the
same content.
-/

namespace ByteSource

open Faulting

variable {ε ρ α : Type} {eof : ε}

/-- A state to read from, what it still has to give, and a bound on the reads that are left
before the end. Each read takes its piece off the front of the content; the end is reported
once nothing is left. -/
structure Source {ε : Type} (eof : ε) (ρ α : Type) where
  read : Nat → Prog ε ρ (List α)
  content : ρ → List α
  left : ρ → Nat
  read_cases : ∀ n r, 0 < n →
    (∃ got r', read n r = .ok got r' ∧ got.length ≤ n ∧ content r = got ++ content r' ∧
      got.length + left r' ≤ left r ∧ left r' < left r) ∨
    (read n r = .error eof ∧ content r = [])

/-- The source holds these elements. -/
def Source.Holds (src : Source eof ρ α) (r : ρ) (elems : List α) : Prop := src.content r = elems

section Full
variable (src : Source eof ρ α) (unexpected : ε)

/-- One turn of the read that fills its buffer. -/
def readFullTurn [DecidableEq ε] (n : Nat) (buf : List α) : Prog ε ρ (Turn (List α) (List α)) := do
  if buf.length ≥ n then pure (.stop buf)
  else
    let got ← (src.read (n - buf.length)).mapError fun e =>
      if e = eof ∧ buf ≠ [] then unexpected else e
    pure (.again (buf ++ got))

/-- Read until the buffer of n elements is full. -/
def readFull [DecidableEq ε] (n : Nat) : Prog ε ρ (List α) := do
  let left ← Prog.gets src.left
  loop (readFullTurn src unexpected n) (left + 1) []

/-- The same from all that is to come, with part of the buffer filled. -/
def takeRest (eof unexpected : ε) (n : Nat) (buf : List α) :
    Prog ε (List α) (List α) := fun elems =>
  if n - buf.length ≤ elems.length then
    .ok (buf ++ elems.take (n - buf.length)) (elems.drop (n - buf.length))
  else if buf = [] ∧ elems = [] then .error eof
  else .error unexpected

def takeFull (eof unexpected : ε) (n : Nat) : Prog ε (List α) (List α) :=
  takeRest eof unexpected n []

/-- A piece that fits may be taken first. -/
theorem takeRest_append {unexpected : ε} {n : Nat} {buf got : List α} (elems : List α)
    (h : got.length ≤ n - buf.length) :
    takeRest eof unexpected n (buf ++ got) elems =
      takeRest eof unexpected n buf (got ++ elems) := by
  have hsub : n - (buf ++ got).length = n - buf.length - got.length := by
    rw [List.length_append, Nat.sub_add_eq]
  have hle : n - buf.length - got.length ≤ elems.length ↔
      n - buf.length ≤ (got ++ elems).length := by
    rw [List.length_append]
    omega
  have htake : (got ++ elems).take (n - buf.length) = got ++
      elems.take (n - buf.length - got.length) := by
    rw [List.take_append, List.take_of_length_le h]
  have hdrop : (got ++ elems).drop (n - buf.length) = elems.drop (n - buf.length - got.length) := by
    rw [List.drop_append, List.drop_of_length_le h, List.nil_append]
  simp only [takeRest, hsub, hle, htake, hdrop, List.append_assoc,
    List.append_eq_nil_iff, and_assoc]

variable [DecidableEq ε]

/-- The read that fills its buffer sees the content and not the pieces. -/
theorem loop_readFullTurn (n fuel : Nat) (buf : List α) (r : ρ) (hfuel : src.left r < fuel) :
    (loop (readFullTurn src unexpected n) fuel buf r).Agree src.Holds
      (takeRest eof unexpected n buf (src.content r)) := by
  induction fuel generalizing buf r with
  | zero => exact absurd hfuel (Nat.not_lt_zero _)
  | succ fuel ih =>
      by_cases hfull : n ≤ buf.length
      · have hturn : readFullTurn src unexpected n buf r = .ok (.stop buf) r := by
          simp [readFullTurn, hfull]
        rw [loop_stop hturn]
        simpa [takeRest, Nat.sub_eq_zero_of_le hfull] using .ok buf rfl
      · have hturn : readFullTurn src unexpected n buf =
            ((src.read (n - buf.length)).mapError fun e =>
              if e = eof ∧ buf ≠ [] then unexpected else e) >>= fun got =>
                pure (.again (buf ++ got)) := by
          rw [readFullTurn, if_neg hfull]
        rcases src.read_cases (n - buf.length) r (by omega)
          with ⟨got, r', hread, hlen, hcontent, -, hless⟩ |
          ⟨hread, hend⟩
        · have hagain : readFullTurn src unexpected n buf r = .ok (.again (buf ++ got)) r' := by
            rw [hturn, Prog.bind_ok (Prog.mapError_eq_ok.mpr hread), Prog.pure_apply]
          rw [loop_again hagain, hcontent, ← takeRest_append (src.content r') hlen]
          exact ih (buf ++ got) r' (by omega)
        · have herror : readFullTurn src unexpected n buf r =
              .error (if buf = [] then eof else unexpected) := by
            rw [hturn, Prog.bind_error (Prog.mapError_error hread _)]
            by_cases hbuf : buf = [] <;> simp [hbuf]
          have hshort : ¬ n - buf.length ≤ ([] : List α).length := by
            rw [List.length_nil]
            omega
          simp only [loop, Prog.bind_error herror, hend, takeRest, if_neg hshort]
          by_cases hbuf : buf = []
          · simpa [hbuf] using .error eof
          · simpa [hbuf] using .error unexpected

theorem readFull_refines (n : Nat) :
    Refines src.Holds (readFull src unexpected n) (takeFull eof unexpected n) := by
  rintro r elems rfl
  exact loop_readFullTurn src unexpected n _ [] r (Nat.lt_succ_self _)

end Full

/-- A buffer in front of a source. -/
structure Buffered (ρ α : Type) where
  buf : List α
  src : ρ
  deriving DecidableEq

section Buffer
variable (src : Source eof ρ α)

/-- The program of the source, under the buffer. -/
def under {β : Type} (m : Prog ε ρ β) : Prog ε (Buffered ρ α) β := fun b =>
  match m b.src with
  | .ok a r => .ok a { b with src := r }
  | .error e => .error e
  | .panic => .panic
  | .timeout => .timeout

/-- From an empty buffer a long read goes to the source and a short one fills the buffer, with
one read of the source in either case. -/
def readBuffered (size n : Nat) : Prog ε (Buffered ρ α) (List α) := do
  let b ← Prog.gets id
  if n = 0 then pure []
  else if b.buf = [] then
    if n ≥ size then under (src.read n)
    else
      let got ← under (src.read size)
      Prog.modify fun b => { b with buf := got.drop n }
      pure (got.take n)
  else
    Prog.modify fun b => { b with buf := b.buf.drop n }
    pure (b.buf.take n)

theorem readBuffered_cons {size n : Nat} {b : Buffered ρ α} (hn : n ≠ 0) (hb : b.buf ≠ []) :
    readBuffered src size n b = .ok (b.buf.take n) { b with buf := b.buf.drop n } := by
  simp [readBuffered, hn, hb]

theorem readBuffered_long {size n : Nat} {b : Buffered ρ α} (hn : n ≠ 0) (hb : b.buf = [])
    (hsize : size ≤ n) : readBuffered src size n b = under (src.read n) b := by
  simp [readBuffered, hn, hb, hsize]

theorem readBuffered_short {size n : Nat} {b : Buffered ρ α} (hn : n ≠ 0) (hb : b.buf = [])
    (hsize : n < size) :
    readBuffered src size n b = (under (src.read size) >>= fun got => do
      Prog.modify fun b => { b with buf := got.drop n }
      pure (got.take n)) b := by
  simp [readBuffered, hn, hb, Nat.not_le.mpr hsize]

/-- The source behind a buffer of this size. -/
def buffered (size : Nat) (hsize : 0 < size) : Source eof (Buffered ρ α) α where
  read := readBuffered src size
  content b := b.buf ++ src.content b.src
  left b := b.buf.length + src.left b.src
  read_cases := by
    intro n b hn
    by_cases hb : b.buf = []
    · by_cases hlong : size ≤ n
      · rw [readBuffered_long src (by omega) hb hlong]
        rcases src.read_cases n b.src hn with ⟨got, r', hread, hlen, hcontent, hleft, hless⟩ |
          ⟨hread, hend⟩
        · exact .inl ⟨got, { b with src := r' }, by simp [under, hread], hlen,
            by simp [hb, hcontent], by simpa [hb] using hleft, by simpa [hb] using hless⟩
        · exact .inr ⟨by simp [under, hread], by simp [hb, hend]⟩
      · rw [readBuffered_short src (by omega) hb (by omega)]
        rcases src.read_cases size b.src hsize with ⟨got, r', hread, -, hcontent, hleft, hless⟩ |
          ⟨hread, hend⟩
        · have hunder : under (src.read size) b = .ok got { b with src := r' } := by
            simp [under, hread]
          refine .inl ⟨got.take n, ⟨got.drop n, r'⟩, ?_, List.length_take_le n got, ?_, ?_, ?_⟩
          · rw [Prog.bind_ok hunder]
            rfl
          · simp [hb, hcontent, ← List.append_assoc]
          · simp only [hb, List.length_take, List.length_drop, List.length_nil]
            omega
          · simp only [hb, List.length_drop, List.length_nil]
            omega
        · have hunder : under (src.read size) b = .error eof := by simp [under, hread]
          exact .inr ⟨Prog.bind_error hunder _, by simp [hb, hend]⟩
    · have hpos := List.length_pos_iff.mpr hb
      refine .inl ⟨_, _, readBuffered_cons src (by omega) hb,
        List.length_take_le n b.buf, ?_, ?_, ?_⟩
      · rw [← List.append_assoc, List.take_append_drop]
      · simp only [List.length_take, List.length_drop]
        omega
      · simp only [List.length_drop]
        omega

end Buffer
end ByteSource
