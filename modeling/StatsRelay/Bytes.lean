import Mathlib.Algebra.Group.Nat.Basic
import Mathlib.Data.List.Basic

/-! # Byte buffers and lines

The relay moves statsd lines as byte strings (`bytes::Bytes`, `bytes::BytesMut`); here a
buffer is a list of bytes.  Two things are shared by the ingress and the sender task:

* `memchr b buf`, the index of the first occurrence of the byte `b` (the `memchr` crate),
  with its decomposition lemma `memchr_eq_some`: the buffer is `pre ++ b :: post` with `b`
  not in `pre`;
* `lines buf`, the reference splitter: the complete `'\n'`-terminated lines of `buf`
  (without their newline) and the bytes after the last newline.  It is not a function of
  the code; it states what framing a byte stream means.  Its law `lines_append` says that
  splitting `a ++ b` is splitting `a` and then splitting the residual of `a` followed by
  `b`, which is why framing does not depend on where reads split a stream. -/

namespace StatsRelay

/-- A byte buffer (`Bytes`, `BytesMut`). -/
abbrev Bytes := List UInt8

/-- The byte `b'\n'`. -/
def newline : UInt8 := 10

/-- The byte `b'\r'`. -/
def carriageReturn : UInt8 := 13

/-- `n as u32`, for a `usize` or `u64` index `n`. -/
def asU32 (n : ℕ) : ℕ := n % 2 ^ 32

/-! ### `memchr` -/

/-- `memchr(needle, haystack)`: the index of the first occurrence of `needle`. -/
def memchr (needle : UInt8) : Bytes → Option ℕ
  | [] => none
  | b :: bs => if b = needle then some 0 else (memchr needle bs).map (· + 1)

theorem memchr_eq_none {c : UInt8} : ∀ {bs : Bytes}, memchr c bs = none ↔ c ∉ bs
  | [] => by simp [memchr]
  | b :: bs => by
    by_cases h : b = c
    · simp [memchr, h]
    · simp [memchr, h, memchr_eq_none, Ne.symm h]

/-- The decomposition at the first occurrence: the spec lemma of `memchr`. -/
theorem memchr_eq_some {c : UInt8} : ∀ {bs : Bytes} {i : ℕ},
    memchr c bs = some i ↔ ∃ pre post, bs = pre ++ c :: post ∧ c ∉ pre ∧ pre.length = i
  | [], i => by simp [memchr]
  | b :: bs, i => by
    by_cases h : b = c
    · subst h
      rw [memchr, if_pos rfl, Option.some.injEq]
      constructor
      · rintro rfl; exact ⟨[], bs, rfl, by simp, rfl⟩
      · rintro ⟨pre, post, he, hn, rfl⟩
        cases pre with
        | nil => rfl
        | cons x pre => simp only [List.cons_append, List.cons.injEq] at he; simp [he.1] at hn
    · simp only [memchr, if_neg h, Option.map_eq_some']
      constructor
      · rintro ⟨j, hj, rfl⟩
        obtain ⟨pre, post, rfl, hn, rfl⟩ := memchr_eq_some.1 hj
        exact ⟨b :: pre, post, rfl, by simp [hn, Ne.symm h], rfl⟩
      · rintro ⟨pre, post, he, hn, rfl⟩
        cases pre with
        | nil => simp only [List.nil_append, List.cons.injEq] at he; exact absurd he.1 h
        | cons x pre =>
          simp only [List.cons_append, List.cons.injEq] at he
          obtain ⟨rfl, rfl⟩ := he
          exact ⟨pre.length, memchr_eq_some.2 ⟨pre, post, rfl, fun hm => hn (by simp [hm]), rfl⟩, rfl⟩

theorem memchr_lt_length {c : UInt8} {bs : Bytes} {i : ℕ} (h : memchr c bs = some i) :
    i < bs.length := by
  obtain ⟨pre, post, rfl, -, rfl⟩ := memchr_eq_some.1 h
  simp

/-! ### The reference splitter -/

/-- Split at every newline, `cur` being the bytes of the current line read so far. -/
def linesAux (cur : Bytes) : Bytes → List Bytes × Bytes
  | [] => ([], cur)
  | b :: bs =>
    if b = newline then
      let r := linesAux [] bs
      (cur :: r.1, r.2)
    else linesAux (cur ++ [b]) bs

/-- The complete lines of a buffer (newlines removed) and the bytes after the last one. -/
def lines (bs : Bytes) : List Bytes × Bytes := linesAux [] bs

@[simp] theorem linesAux_nil (cur : Bytes) : linesAux cur [] = ([], cur) := rfl

theorem linesAux_cons (cur : Bytes) (b : UInt8) (bs : Bytes) :
    linesAux cur (b :: bs) =
      if b = newline then (cur :: (linesAux [] bs).1, (linesAux [] bs).2)
      else linesAux (cur ++ [b]) bs := rfl

theorem linesAux_of_not_mem (cur : Bytes) : ∀ {bs : Bytes}, newline ∉ bs →
    linesAux cur bs = ([], cur ++ bs)
  | [], _ => by simp
  | b :: bs, h => by
    have hb : b ≠ newline := fun e => h (by simp [e])
    have hbs : newline ∉ bs := fun e => h (by simp [e])
    simp [linesAux, hb, linesAux_of_not_mem _ hbs]

theorem linesAux_newline (cur : Bytes) : ∀ {pre : Bytes} (post : Bytes), newline ∉ pre →
    linesAux cur (pre ++ newline :: post) = ((cur ++ pre) :: (lines post).1, (lines post).2)
  | [], post, _ => by simp [linesAux, lines]
  | b :: pre, post, h => by
    have hb : b ≠ newline := fun e => h (by simp [e])
    have hpre : newline ∉ pre := fun e => h (by simp [e])
    simp [linesAux, hb, linesAux_newline _ post hpre]

/-- Splitting `a ++ b` splits `a`, then the residual of `a` followed by `b`. -/
theorem linesAux_append (cur : Bytes) : ∀ (a b : Bytes),
    linesAux cur (a ++ b) =
      ((linesAux cur a).1 ++ (linesAux (linesAux cur a).2 b).1, (linesAux (linesAux cur a).2 b).2)
  | [], b => by simp
  | x :: a, b => by
    by_cases hx : x = newline
    · simp only [List.cons_append, linesAux_cons, if_pos hx, linesAux_append [] a b]
    · simp only [List.cons_append, linesAux_cons, if_neg hx, linesAux_append (cur ++ [x]) a b]

theorem lines_of_not_mem {bs : Bytes} (h : newline ∉ bs) : lines bs = ([], bs) := by
  simp [lines, linesAux_of_not_mem _ h]

theorem lines_newline {pre : Bytes} (post : Bytes) (h : newline ∉ pre) :
    lines (pre ++ newline :: post) = (pre :: (lines post).1, (lines post).2) := by
  simp [lines, linesAux_newline _ post h]

theorem newline_not_mem_linesAux (cur : Bytes) (hc : newline ∉ cur) :
    ∀ bs : Bytes, newline ∉ (linesAux cur bs).2
  | [] => hc
  | b :: bs => by
    by_cases hb : b = newline
    · simpa [linesAux, hb] using newline_not_mem_linesAux [] (by simp) bs
    · simpa [linesAux, hb] using newline_not_mem_linesAux (cur ++ [b]) (by simp [hc, Ne.symm hb]) bs

/-- The residual holds no newline. -/
theorem newline_not_mem_residual (bs : Bytes) : newline ∉ (lines bs).2 :=
  newline_not_mem_linesAux [] (by simp) bs

/-- Splitting `a ++ b` is splitting `a`, then splitting the residual of `a` followed by `b`:
where a stream is cut does not change its lines. -/
theorem lines_append (a b : Bytes) :
    lines (a ++ b) = ((lines a).1 ++ (lines ((lines a).2 ++ b)).1, (lines ((lines a).2 ++ b)).2) := by
  have hr : linesAux (lines a).2 b = lines ((lines a).2 ++ b) := by
    have := linesAux_append [] (lines a).2 b
    rw [linesAux_of_not_mem [] (newline_not_mem_residual a)] at this
    simpa [lines] using this.symm
  rw [lines, linesAux_append, ← lines, hr]

/-- A buffer that ends with a newline leaves no residual. -/
theorem lines_residual_eq_nil {bs : Bytes} (h : bs.getLast? = some newline) : (lines bs).2 = [] := by
  obtain ⟨ys, rfl⟩ := List.getLast?_eq_some_iff.1 h
  rw [lines_append, lines_newline [] (newline_not_mem_residual ys)]
  rfl

end StatsRelay
