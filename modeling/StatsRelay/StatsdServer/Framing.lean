import StatsRelay.Bytes

/-! # Framing: `process_buffer_newlines`

`process_buffer_newlines` (`statsd_server.rs`) cuts every `'\n'`-terminated line off the
front of a buffer, drops one `'\r'` before the newline, hands the line to `StatsdPDU::new`
(the statsd parser, a parameter `pduNew` here) and keeps the PDUs that parse; the bytes
after the last newline stay in the buffer.

Its test for the `'\r'` reads `incoming[incoming.len() - 2]` on the split-off line, newline
included.  On a line that is a lone `'\n'` that index underflows, and the function panics
(`none` in the model).  The spec lemma `processBufferNewlines_eq` says what the loop
computes on every buffer: the reference framing `refFrame` of its complete lines and the
residual, unless some complete line is empty (`NoEmptyLine`), in which case it panics;
`processBufferNewlines_newline_cons` is the panic on a buffer that starts with a newline. -/

namespace StatsRelay.StatsdServer

variable {P : Type} (pduNew : Bytes → Option P)

/-! ### The code -/

/-- `usize` subtraction: `none` when it underflows, which panics. -/
def usizeSub (a b : ℕ) : Option ℕ := if b ≤ a then some (a - b) else none

/-- The line handed to `StatsdPDU::new` for a split-off `incoming` (newline included):
truncated before a `'\r'` found at `incoming.len() - 2`, else before the newline; `none`
when the index panics. -/
def truncateIncoming (incoming : Bytes) : Option Bytes := do
  let i ← usizeSub incoming.length 2
  let c ← incoming[i]?
  if c = carriageReturn then pure (incoming.take (incoming.length - 2))
  else pure (incoming.take (incoming.length - 1))

/-- The loop of `process_buffer_newlines`, `ret` being the PDUs parsed so far: the PDUs and
the remaining buffer, `none` when it panics. -/
def processBufferNewlinesLoop (ret : List P) (buf : Bytes) : Option (List P × Bytes) :=
  match h : memchr newline buf with
  | none => some (ret, buf)
  | some newlineAt =>
    (truncateIncoming (buf.take (newlineAt + 1))).bind fun incoming =>
      processBufferNewlinesLoop (ret ++ (pduNew incoming).toList) (buf.drop (newlineAt + 1))
termination_by buf.length
decreasing_by have := memchr_lt_length h; simp only [List.length_drop]; omega

/-- `process_buffer_newlines(buf)`: the parsed PDUs and what is left of `buf`. -/
def processBufferNewlines (buf : Bytes) : Option (List P × Bytes) :=
  processBufferNewlinesLoop pduNew [] buf

/-! ### The reference framing -/

/-- A line with one `'\r'` before its (removed) newline dropped. -/
def stripCr (l : Bytes) : Bytes := if l.getLast? = some carriageReturn then l.dropLast else l

/-- The PDUs of the complete lines of a buffer: each line with one trailing `'\r'`
removed, parsed by `pduNew`, those that parse kept in order. -/
def refFrame (bs : Bytes) : List P := (lines bs).1.filterMap fun l => pduNew (stripCr l)

/-- No complete line of the buffer is empty. -/
def NoEmptyLine (bs : Bytes) : Prop := ∀ l ∈ (lines bs).1, l ≠ []

instance (bs : Bytes) : Decidable (NoEmptyLine bs) :=
  inferInstanceAs (Decidable (∀ l ∈ (lines bs).1, l ≠ []))

theorem refFrame_append (a b : Bytes) :
    refFrame pduNew (a ++ b) = refFrame pduNew a ++ refFrame pduNew ((lines a).2 ++ b) := by
  simp [refFrame, lines_append a b, List.filterMap_append]

theorem noEmptyLine_append (a b : Bytes) :
    NoEmptyLine (a ++ b) ↔ NoEmptyLine a ∧ NoEmptyLine ((lines a).2 ++ b) := by
  simp only [NoEmptyLine, lines_append a b, List.mem_append, or_imp, forall_and]

theorem refFrame_of_not_mem {bs : Bytes} (h : newline ∉ bs) : refFrame pduNew bs = [] := by
  simp [refFrame, lines_of_not_mem h]

/-! ### What the loop computes -/

theorem truncateIncoming_line (pre : Bytes) :
    truncateIncoming (pre ++ [newline]) = if pre = [] then none else some (stripCr pre) := by
  rcases List.eq_nil_or_concat pre with rfl | ⟨init, c, rfl⟩
  · rfl
  · rw [List.concat_eq_append]
    have hsub : usizeSub (init ++ [c] ++ [newline]).length 2 = some init.length := by
      simp [usizeSub]
    have hget : (init ++ [c] ++ [newline])[init.length]? = some c := by
      rw [List.append_assoc, List.getElem?_append_right (le_refl _)]; simp
    simp only [truncateIncoming, hsub, hget, Option.bind_eq_bind, Option.some_bind]
    have htake : (init ++ [c] ++ [newline]).take (init.length + 1) = init ++ [c] :=
      List.take_left' (by simp)
    by_cases hc : c = carriageReturn
    · simp [hc, stripCr]
    · simpa [hc, stripCr] using htake

theorem filterMap_cons_toList {α β : Type} (f : α → Option β) (a : α) (l : List α) :
    (a :: l).filterMap f = (f a).toList ++ l.filterMap f := by
  cases h : f a <;> simp [h]

/-- **Spec of the loop**: the reference framing of the complete lines and the residual,
or a panic when a complete line is empty. -/
theorem processBufferNewlinesLoop_eq (ret : List P) (buf : Bytes) :
    processBufferNewlinesLoop pduNew ret buf =
      if NoEmptyLine buf then some (ret ++ refFrame pduNew buf, (lines buf).2) else none := by
  induction ret, buf using processBufferNewlinesLoop.induct pduNew with
  | case1 ret buf h =>
    have hn := memchr_eq_none.1 h
    rw [processBufferNewlinesLoop, h]
    simp [NoEmptyLine, lines_of_not_mem hn, refFrame_of_not_mem pduNew hn]
  | case2 ret buf i h ih =>
    obtain ⟨pre, post, rfl, hn, rfl⟩ := memchr_eq_some.1 h
    have htake : (pre ++ newline :: post).take (pre.length + 1) = pre ++ [newline] := by
      rw [← List.singleton_append, ← List.append_assoc, List.take_left' (by simp)]
    have hdrop : (pre ++ newline :: post).drop (pre.length + 1) = post := by
      rw [← List.singleton_append, ← List.append_assoc, List.drop_left' (by simp)]
    have hlines := lines_newline post hn
    rw [processBufferNewlinesLoop, h]
    simp only [htake, hdrop, truncateIncoming_line] at ih ⊢
    by_cases hpre : pre = []
    · subst hpre
      rw [List.nil_append] at hlines
      simp [NoEmptyLine, hlines]
    · rw [if_neg hpre, Option.some_bind, ih]
      by_cases hne : NoEmptyLine post <;>
        simp [NoEmptyLine, hlines, hpre, refFrame, filterMap_cons_toList] at hne ⊢

theorem processBufferNewlines_eq (buf : Bytes) :
    processBufferNewlines pduNew buf =
      if NoEmptyLine buf then some (refFrame pduNew buf, (lines buf).2) else none := by
  simp [processBufferNewlines, processBufferNewlinesLoop_eq]

/-- A buffer whose first line is a lone newline makes `process_buffer_newlines` panic,
whatever follows it. -/
theorem processBufferNewlines_newline_cons (bs : Bytes) :
    processBufferNewlines pduNew (newline :: bs) = none := by
  have hl : lines (newline :: bs) = ([] :: (lines bs).1, (lines bs).2) := by
    simpa using @lines_newline [] bs (by simp)
  have h : ¬NoEmptyLine (newline :: bs) := fun h => h [] (by simp [hl]) rfl
  simp [processBufferNewlines_eq, h]

end StatsRelay.StatsdServer
