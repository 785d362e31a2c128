import Mathlib.Data.Finset.Card
import StatsRelay.Bytes

/-! # The rolling filter: `MultiCuckoo`

`MultiCuckoo` (`processors/cardinality.rs`) is a FIFO of `buckets` sub-filters, each a
cuckoo filter with a `valid_until` time.  `contains` and `len` read the oldest sub-filter;
`add` inserts into every sub-filter in turn, and stops at the first one that fails, since
`collect` into a `Result` stops at the first error; `rotate(t)` drops the oldest
sub-filter when `t` is past its `valid_until` and appends a fresh one valid until
`t + window * (buckets + 1)`.

Times (`SystemTime`, `Duration`) are natural numbers of nanoseconds.  A sub-filter of the
`cuckoofilter` crate is taken as an exact filter: the list of the fingerprints it stores,
one per successful `add`, with no false positives.  Whether the crate refuses an insertion
depends on its random eviction walk, not on the load alone (it refuses a ninth copy of one
fingerprint in a filter with room, and distinct identities near full load), so the outcome
of each insertion comes with the call: `add` takes one outcome per sub-filter it tries.

The structure carries its shape as fields (`length_filters`, `buckets_pos`), so the oldest
sub-filter always exists.  Two run invariants are proved over `add` and `rotate`:

* `Nested`: the identities of every newer sub-filter are identities of every older one
  (`nested_add`, `nested_rotate`);
* `Covers x V`: some prefix of the sub-filters holds `x` and reaches one valid until at
  least `V`; it survives every `add` and every `rotate(t)` with `t ≤ V`, so `contains x`
  stays true until the sub-filter that was newest when `x` was added has expired
  (`contains_run_of_add`).  That expiry is the construction time plus `window * buckets`
  until a rotation drops a sub-filter, and then the time of the last such rotation plus
  `window * (buckets + 1)` (`new_run_newest_validUntil`).

`add` tries the sub-filters oldest first (`add_inserts_until_refusal`): those before the first
refusal store `x`, and no sub-filter after the refusing one is asked.  So a refusal by the
oldest sub-filter keeps `x` out of every newer one, and the next rotation forgets it
(`add_error_skips_newer`).

Without an `add(x)`, a run keeps `x` exactly where it was, shifted by the rotations that
dropped a sub-filter (`contains_run_without_add`).  With rotation times strictly increasing
after the construction, the `valid_until` of the sub-filters increase strictly from the
oldest to the newest (`Staggered`, `new_run_validUntil_increasing`); their spacing is not
one window, since a rotation after a stall appends a sub-filter valid one window and more
after the one before it. -/

namespace StatsRelay.Processors

variable {α : Type}

/-- `Duration::from_secs(s)` in nanoseconds. -/
def fromSecs (s : ℕ) : ℕ := s * 1000000000

/-! ### Sub-filters -/

/-- The error of a failed insertion (`CuckooError::NotEnoughSpace`). -/
inductive CuckooError where
  | notEnoughSpace
  deriving DecidableEq, Repr

/-- A cuckoo filter as an exact filter: the fingerprints it stores. -/
structure CuckooFilter (α : Type) where
  /-- One fingerprint per successful `add`, oldest first. -/
  items : List α
  deriving DecidableEq, Repr

/-- `cuckoofilter::DEFAULT_CAPACITY`. -/
def defaultCapacity : ℕ := 2 ^ 20 - 1

namespace CuckooFilter

/-- `CuckooFilter::with_capacity(cap)`: an empty filter.  The capacity sizes the table, which
bears only on when an insertion is refused, and that outcome comes with each call. -/
def withCapacity (_cap : ℕ) : CuckooFilter α := ⟨[]⟩

/-- `len()`: the number of stored fingerprints. -/
def len (f : CuckooFilter α) : ℕ := f.items.length

/-- `contains(x)`. -/
def contains [DecidableEq α] (f : CuckooFilter α) (x : α) : Bool := decide (x ∈ f.items)

/-- `add(x)`, `refused` being the outcome of the crate's eviction walk: a fingerprint of `x`
is stored, present or not, unless the walk is refused.  A refused walk has placed `x` and
dropped the last fingerprint it moved; the exact filter takes that fingerprint to be the
one of `x` and stays as it was. -/
def add (f : CuckooFilter α) (x : α) (refused : Bool) : Except CuckooError (CuckooFilter α) :=
  if refused then .error .notEnoughSpace else .ok ⟨f.items ++ [x]⟩

@[simp] theorem add_false (f : CuckooFilter α) (x : α) : f.add x false = .ok ⟨f.items ++ [x]⟩ := rfl

@[simp] theorem add_true (f : CuckooFilter α) (x : α) : f.add x true = .error .notEnoughSpace := rfl

/-- The distinct identities the filter holds. -/
def members [DecidableEq α] (f : CuckooFilter α) : Finset α := f.items.toFinset

theorem members_append [DecidableEq α] (f : CuckooFilter α) (x : α) :
    (⟨f.items ++ [x]⟩ : CuckooFilter α).members = insert x f.members := by
  simp [members, List.toFinset_append, Finset.insert_eq, Finset.union_comm]

@[simp] theorem members_withCapacity [DecidableEq α] (cap : ℕ) : (withCapacity cap : CuckooFilter α).members = ∅ :=
  rfl

theorem card_members_le_len [DecidableEq α] (f : CuckooFilter α) : f.members.card ≤ f.len :=
  List.toFinset_card_le f.items

end CuckooFilter

/-- `TimeBoundedCuckoo`: a sub-filter and the time it is valid until. -/
structure TimeBoundedCuckoo (α : Type) where
  filter : CuckooFilter α
  validUntil : ℕ
  deriving DecidableEq, Repr

/-- `TimeBoundedCuckoo::new(valid_until)`. -/
def TimeBoundedCuckoo.new (validUntil : ℕ) : TimeBoundedCuckoo α :=
  ⟨CuckooFilter.withCapacity defaultCapacity, validUntil⟩

/-- The insertion into each sub-filter in turn, stopping at the first error
(`iter_mut().map(|f| f.filter.add(data)).collect::<Result<Vec<_>, _>>()`).  `rs` holds the
outcome of each insertion tried, oldest sub-filter first; past its end none is refused. -/
def addEach (x : α) : List (TimeBoundedCuckoo α) → List Bool →
    List (TimeBoundedCuckoo α) × Except CuckooError Unit
  | [], _ => ([], .ok ())
  | f :: fs, rs =>
    match f.filter.add x (rs.headD false) with
    | .ok g => ((⟨g, f.validUntil⟩ : TimeBoundedCuckoo α) :: (addEach x fs rs.tail).1, (addEach x fs rs.tail).2)
    | .error e => (f :: fs, .error e)

theorem addEach_accepted {x : α} (f : TimeBoundedCuckoo α) (fs : List (TimeBoundedCuckoo α))
    {rs : List Bool} (h : rs.headD false = false) :
    addEach x (f :: fs) rs =
      (⟨⟨f.filter.items ++ [x]⟩, f.validUntil⟩ :: (addEach x fs rs.tail).1, (addEach x fs rs.tail).2) := by
  simp only [addEach, h, CuckooFilter.add_false]

/-- The sub-filter tried first refuses `x`: `collect` stops there, and nothing changes. -/
theorem addEach_refused {x : α} (f : TimeBoundedCuckoo α) (fs : List (TimeBoundedCuckoo α))
    {rs : List Bool} (h : rs.headD false = true) :
    addEach x (f :: fs) rs = (f :: fs, .error .notEnoughSpace) := by
  simp only [addEach, h, CuckooFilter.add_true]

theorem length_addEach (x : α) :
    ∀ (fs : List (TimeBoundedCuckoo α)) (rs : List Bool), (addEach x fs rs).1.length = fs.length
  | [], _ => rfl
  | f :: fs, rs => by
    cases hr : rs.headD false
    · simp [addEach_accepted f fs hr, length_addEach x fs]
    · rw [addEach_refused f fs hr]

theorem validUntils_addEach (x : α) : ∀ (fs : List (TimeBoundedCuckoo α)) (rs : List Bool),
    (addEach x fs rs).1.map (·.validUntil) = fs.map (·.validUntil)
  | [], _ => rfl
  | f :: fs, rs => by
    cases hr : rs.headD false
    · simp [addEach_accepted f fs hr, validUntils_addEach x fs]
    · rw [addEach_refused f fs hr]

/-! ### The rolling filter -/

/-- `MultiCuckoo`, with its shape as fields: `buckets` sub-filters, at least one. -/
structure MultiCuckoo (α : Type) where
  buckets : ℕ
  window : ℕ
  /-- Oldest first. -/
  filters : List (TimeBoundedCuckoo α)
  length_filters : filters.length = buckets
  buckets_pos : 0 < buckets

namespace MultiCuckoo

theorem filters_ne_nil (mc : MultiCuckoo α) : mc.filters ≠ [] :=
  List.ne_nil_of_length_pos (mc.length_filters ▸ mc.buckets_pos)

/-- `filters[0]`. -/
def oldest (mc : MultiCuckoo α) : TimeBoundedCuckoo α := mc.filters.head mc.filters_ne_nil

/-- The last sub-filter. -/
def newest (mc : MultiCuckoo α) : TimeBoundedCuckoo α := mc.filters.getLast mc.filters_ne_nil

/-- `MultiCuckoo::new(buckets, window)` at time `now`: sub-filters valid until
`now + window * bucket` for `bucket` in `1..=buckets`; `none` when `assert!(buckets > 0)`
fails. -/
def new (buckets window now : ℕ) : Option (MultiCuckoo α) :=
  if h : 0 < buckets then
    some ⟨buckets, window,
      (List.range' 1 buckets).map fun bucket => .new (now + window * asU32 bucket), by simp, h⟩
  else none

/-- `len()`. -/
def len (mc : MultiCuckoo α) : ℕ := mc.oldest.filter.len

/-- `contains(x)`. -/
def contains [DecidableEq α] (mc : MultiCuckoo α) (x : α) : Bool := mc.oldest.filter.contains x

/-- `add(x)`: the new state and the result, `refusals` holding the outcome of the insertion
into each sub-filter tried. -/
def add (mc : MultiCuckoo α) (x : α) (refusals : List Bool) : MultiCuckoo α × Except CuckooError Unit :=
  ({ mc with filters := (addEach x mc.filters refusals).1,
             length_filters := (length_addEach x _ _).trans mc.length_filters },
   (addEach x mc.filters refusals).2)

/-- `rotate(with_time)`: `valid_until.duration_since(with_time)` fails when `with_time` is
later than `valid_until`, and then the oldest sub-filter is replaced at the end. -/
def rotate (mc : MultiCuckoo α) (withTime : ℕ) : MultiCuckoo α :=
  if mc.oldest.validUntil < withTime then
    { mc with
      filters := mc.filters.tail ++ [.new (withTime + mc.window * asU32 (mc.buckets + 1))]
      length_filters := by
        have := mc.filters_ne_nil; have := mc.length_filters
        simp only [List.length_append, List.length_tail, List.length_singleton]
        have := List.length_pos_of_ne_nil mc.filters_ne_nil
        omega }
  else mc

@[simp] theorem add_filters (mc : MultiCuckoo α) (x : α) (rs : List Bool) :
    (mc.add x rs).1.filters = (addEach x mc.filters rs).1 := rfl

@[simp] theorem add_window (mc : MultiCuckoo α) (x : α) (rs : List Bool) :
    (mc.add x rs).1.window = mc.window := rfl

@[simp] theorem add_buckets (mc : MultiCuckoo α) (x : α) (rs : List Bool) :
    (mc.add x rs).1.buckets = mc.buckets := rfl

theorem rotate_filters (mc : MultiCuckoo α) (t : ℕ) :
    (mc.rotate t).filters =
      if mc.oldest.validUntil < t then
        mc.filters.tail ++ [.new (t + mc.window * asU32 (mc.buckets + 1))]
      else mc.filters := by
  unfold rotate; split <;> rfl

@[simp] theorem rotate_window (mc : MultiCuckoo α) (t : ℕ) : (mc.rotate t).window = mc.window := by
  unfold rotate; split <;> rfl

@[simp] theorem rotate_buckets (mc : MultiCuckoo α) (t : ℕ) :
    (mc.rotate t).buckets = mc.buckets := by
  unfold rotate; split <;> rfl

theorem oldest_mem (mc : MultiCuckoo α) : mc.oldest ∈ mc.filters := List.head_mem _

theorem oldest_eq {mc : MultiCuckoo α} {f : TimeBoundedCuckoo α} {fs : List (TimeBoundedCuckoo α)}
    (h : mc.filters = f :: fs) : mc.oldest = f := by
  simp [oldest, h]

/-- `add` leaves the oldest sub-filter as it was or appends `x` to it. -/
theorem oldest_add_items (mc : MultiCuckoo α) (x : α) (rs : List Bool) :
    (mc.add x rs).1.oldest.filter.items = mc.oldest.filter.items ∨
      (mc.add x rs).1.oldest.filter.items = mc.oldest.filter.items ++ [x] := by
  obtain ⟨f, fs, hf⟩ := List.exists_cons_of_ne_nil mc.filters_ne_nil
  have hadd : (mc.add x rs).1.filters = (addEach x (f :: fs) rs).1 := by rw [add_filters, hf]
  rw [oldest_eq hf]
  cases hr : rs.headD false
  · rw [addEach_accepted f fs hr] at hadd; exact .inr (by rw [oldest_eq hadd])
  · rw [addEach_refused f fs hr] at hadd; exact .inl (by rw [oldest_eq hadd])

/-- Adding an identity the oldest sub-filter holds changes no answer of `contains` and does
not lower `len()`. -/
theorem add_of_contains [DecidableEq α] {mc : MultiCuckoo α} {x : α} (rs : List Bool)
    (hx : mc.contains x = true) : (mc.add x rs).1.contains = mc.contains ∧ mc.len ≤ (mc.add x rs).1.len := by
  have hmem : x ∈ mc.oldest.filter.items := by simpa [contains, CuckooFilter.contains] using hx
  rcases mc.oldest_add_items x rs with he | he <;>
    refine ⟨funext fun y => ?_, by simp [len, CuckooFilter.len, he]⟩ <;>
    simp [contains, CuckooFilter.contains, he, or_iff_left_of_imp fun h : y = x => h ▸ hmem]

/-- A sub-filter after `rotate` was there before, or is the fresh one. -/
theorem mem_rotate {mc : MultiCuckoo α} {t : ℕ} {f : TimeBoundedCuckoo α}
    (h : f ∈ (mc.rotate t).filters) :
    f ∈ mc.filters ∨ f.filter = CuckooFilter.withCapacity defaultCapacity := by
  rw [rotate_filters] at h
  split at h
  · rcases List.mem_append.1 h with h | h
    · exact .inl (List.mem_of_mem_tail h)
    · exact .inr (by simp [List.mem_singleton.1 h, TimeBoundedCuckoo.new])
  · exact .inl h

end MultiCuckoo

/-! ### Nesting of the sub-filters -/

section Nesting

variable [DecidableEq α]

/-- The identities of every newer sub-filter are identities of every older one. -/
def Nested (fs : List (TimeBoundedCuckoo α)) : Prop :=
  fs.Pairwise fun older newer => newer.filter.members ⊆ older.filter.members

/-- What `addEach` does to one sub-filter: the same expiry, and at most `x` added. -/
theorem mem_addEach {x : α} : ∀ {fs : List (TimeBoundedCuckoo α)} {rs : List Bool} {b : TimeBoundedCuckoo α},
    b ∈ (addEach x fs rs).1 → ∃ c ∈ fs, b.validUntil = c.validUntil ∧
      c.filter.members ⊆ b.filter.members ∧ b.filter.members ⊆ insert x c.filter.members
  | [], _, b, h => by simp [addEach] at h
  | f :: fs, rs, b, h => by
    cases hr : rs.headD false
    · rw [addEach_accepted f fs hr] at h
      rcases List.mem_cons.1 h with rfl | h
      · exact ⟨f, by simp, rfl, by simp [CuckooFilter.members_append], by simp [CuckooFilter.members_append]⟩
      · obtain ⟨c, hc, h1, h2, h3⟩ := mem_addEach h
        exact ⟨c, List.mem_cons_of_mem f hc, h1, h2, h3⟩
    · rw [addEach_refused f fs hr] at h
      exact ⟨b, h, rfl, subset_rfl, Finset.subset_insert x _⟩

theorem nested_addEach (x : α) : ∀ {fs : List (TimeBoundedCuckoo α)} (rs : List Bool),
    Nested fs → Nested (addEach x fs rs).1
  | [], _, _ => List.Pairwise.nil
  | f :: fs, rs, h => by
    rw [Nested, List.pairwise_cons] at h
    cases hr : rs.headD false
    · rw [addEach_accepted f fs hr]
      refine List.Pairwise.cons (fun b hb => ?_) (nested_addEach x rs.tail h.2)
      obtain ⟨c, hc, -, -, hbc⟩ := mem_addEach hb
      rw [CuckooFilter.members_append]
      exact hbc.trans (Finset.insert_subset_insert x (h.1 c hc))
    · rw [addEach_refused f fs hr]
      exact List.Pairwise.cons h.1 h.2

theorem nested_add {mc : MultiCuckoo α} (x : α) (rs : List Bool) (h : Nested mc.filters) :
    Nested (mc.add x rs).1.filters :=
  nested_addEach x rs h

theorem nested_rotate {mc : MultiCuckoo α} (t : ℕ) (h : Nested mc.filters) :
    Nested (mc.rotate t).filters := by
  rw [MultiCuckoo.rotate_filters]
  split
  · refine List.pairwise_append.2 ⟨h.sublist (List.tail_sublist _), by simp, ?_⟩
    simp [TimeBoundedCuckoo.new]
  · exact h

theorem subset_oldest {mc : MultiCuckoo α} (h : Nested mc.filters) :
    ∀ f ∈ mc.filters, f.filter.members ⊆ mc.oldest.filter.members := by
  obtain ⟨g, gs, hg⟩ := List.exists_cons_of_ne_nil mc.filters_ne_nil
  rw [Nested, hg, List.pairwise_cons] at h
  rw [hg, MultiCuckoo.oldest_eq hg]
  intro f hf
  rcases List.mem_cons.1 hf with rfl | hf
  · exact subset_rfl
  · exact h.1 f hf

theorem contains_iff_mem_members {mc : MultiCuckoo α} {x : α} :
    mc.contains x = true ↔ x ∈ mc.oldest.filter.members := by
  simp [MultiCuckoo.contains, CuckooFilter.contains, CuckooFilter.members]

end Nesting

/-! ### Refused insertions -/

/-- **A refusal by the oldest sub-filter reaches no newer one.**  When the oldest sub-filter
refuses `x`, `collect` asks no newer one, and after the next rotation that drops the oldest,
`x` is not seen, though the next sub-filter was never asked to store it.  That `add(x)`
leaves every sub-filter as it was is the exact reading of the refused walk, which in the
crate may leave `x` in the oldest sub-filter with another fingerprint dropped; the oldest is
the one the rotation drops. -/
theorem add_error_skips_newer [DecidableEq α] {mc : MultiCuckoo α} {x : α} {rs : List Bool}
    {f g : TimeBoundedCuckoo α} {fs : List (TimeBoundedCuckoo α)} (hf : mc.filters = f :: g :: fs)
    (hrefused : rs.headD false = true) (hx : x ∉ g.filter.items) {t : ℕ} (ht : f.validUntil < t) :
    (mc.add x rs).2 = .error .notEnoughSpace ∧ (mc.add x rs).1.filters = mc.filters ∧
      ((mc.add x rs).1.rotate t).contains x = false := by
  have hadd : addEach x mc.filters rs = (mc.filters, .error .notEnoughSpace) := by
    rw [hf]; exact addEach_refused _ _ hrefused
  have hfs : (mc.add x rs).1.filters = f :: g :: fs := by rw [MultiCuckoo.add_filters, hadd, hf]
  obtain ⟨rest, hrot⟩ : ∃ rest, ((mc.add x rs).1.rotate t).filters = g :: rest :=
    ⟨_, by rw [MultiCuckoo.rotate_filters, if_pos (by rwa [MultiCuckoo.oldest_eq hfs]), hfs]; rfl⟩
  refine ⟨by simp [MultiCuckoo.add, hadd], hfs.trans hf.symm, ?_⟩
  simp [MultiCuckoo.contains, MultiCuckoo.oldest_eq hrot, CuckooFilter.contains, hx]

theorem add_error_skips_newer_refused_oldest :
    ((⟨2, 60, [⟨⟨[0]⟩, 60⟩, ⟨⟨[]⟩, 120⟩], rfl, by decide⟩ : MultiCuckoo ℕ).add 7 [true]).2 =
        .error .notEnoughSpace ∧
      ((⟨2, 60, [⟨⟨[0]⟩, 60⟩, ⟨⟨[]⟩, 120⟩], rfl, by decide⟩ : MultiCuckoo ℕ).add 7 [true]).1.filters =
        [⟨⟨[0]⟩, 60⟩, ⟨⟨[]⟩, 120⟩] ∧
      (((⟨2, 60, [⟨⟨[0]⟩, 60⟩, ⟨⟨[]⟩, 120⟩], rfl, by decide⟩ : MultiCuckoo ℕ).add 7 [true]).1.rotate 61).contains 7 =
        false :=
  add_error_skips_newer (by rfl) (by rfl) (by simp) (by decide)

/-! ### How long an identity stays -/

/-- A prefix of the sub-filters holds `x`, and one of them is valid until at least `V`. -/
def Covers (x : α) (V : ℕ) : List (TimeBoundedCuckoo α) → Prop
  | [] => False
  | f :: fs => x ∈ f.filter.items ∧ (V ≤ f.validUntil ∨ Covers x V fs)

theorem covers_addEach {x : α} {V : ℕ} (y : α) : ∀ {fs : List (TimeBoundedCuckoo α)} (rs : List Bool),
    Covers x V fs → Covers x V (addEach y fs rs).1
  | [], _, h => h
  | f :: fs, rs, h => by
    cases hr : rs.headD false
    · rw [addEach_accepted f fs hr]
      exact ⟨by simp [h.1], h.2.imp id (covers_addEach y rs.tail)⟩
    · rwa [addEach_refused f fs hr]

theorem covers_append {x : α} {V : ℕ} (l : List (TimeBoundedCuckoo α)) :
    ∀ {fs : List (TimeBoundedCuckoo α)}, Covers x V fs → Covers x V (fs ++ l)
  | [], h => h.elim
  | _ :: _, h => ⟨h.1, h.2.imp id (covers_append l)⟩

theorem covers_rotate {mc : MultiCuckoo α} {x : α} {V t : ℕ} (h : Covers x V mc.filters)
    (ht : t ≤ V) : Covers x V (mc.rotate t).filters := by
  rw [MultiCuckoo.rotate_filters]
  split
  · next hlt =>
    obtain ⟨f, fs, hf⟩ := List.exists_cons_of_ne_nil mc.filters_ne_nil
    rw [hf] at h ⊢
    rw [MultiCuckoo.oldest_eq hf] at hlt
    exact covers_append _ (h.2.resolve_left (by omega))
  · exact h

/-- After an `add(x)` that inserted into every sub-filter, `x` is covered up to the expiry
of the newest sub-filter. -/
theorem covers_addEach_ok (x : α) : ∀ {fs : List (TimeBoundedCuckoo α)} (rs : List Bool) (hne : fs ≠ []),
    (addEach x fs rs).2 = .ok () → Covers x (fs.getLast hne).validUntil (addEach x fs rs).1
  | [], _, hne, _ => absurd rfl hne
  | f :: fs, rs, _, h => by
    cases hr : rs.headD false
    · rw [addEach_accepted f fs hr] at h ⊢
      refine ⟨by simp, ?_⟩
      by_cases hfs : fs = []
      · subst hfs; exact .inl le_rfl
      · rw [List.getLast_cons hfs]; exact .inr (covers_addEach_ok x rs.tail hfs h)
    · rw [addEach_refused f fs hr] at h
      cases h

theorem contains_of_covers [DecidableEq α] {mc : MultiCuckoo α} {x : α} {V : ℕ} (h : Covers x V mc.filters) :
    mc.contains x = true := by
  obtain ⟨f, fs, hf⟩ := List.exists_cons_of_ne_nil mc.filters_ne_nil
  rw [hf] at h
  simp [MultiCuckoo.contains, MultiCuckoo.oldest_eq hf, CuckooFilter.contains, h.1]


/-! ### Runs -/

/-- A call on the rolling filter. -/
inductive Op (α : Type) where
  /-- `add(x)`, with the outcome of each insertion tried. -/
  | add (x : α) (refusals : List Bool)
  | rotate (t : ℕ)
  deriving DecidableEq, Repr

/-- The state after a sequence of calls. -/
def MultiCuckoo.run (mc : MultiCuckoo α) : List (Op α) → MultiCuckoo α
  | [] => mc
  | .add y rs :: ops => (mc.add y rs).1.run ops
  | .rotate t :: ops => (mc.rotate t).run ops

theorem covers_run {x : α} {V : ℕ} : ∀ (mc : MultiCuckoo α) (ops : List (Op α)),
    Covers x V mc.filters → (∀ t, Op.rotate t ∈ ops → t ≤ V) → Covers x V (mc.run ops).filters
  | _, [], h, _ => h
  | mc, .add y rs :: ops, h, hops =>
    covers_run (mc.add y rs).1 ops (covers_addEach y rs h) fun t ht => hops t (List.mem_cons_of_mem _ ht)
  | mc, .rotate t :: ops, h, hops =>
    covers_run (mc.rotate t) ops (covers_rotate h (hops t (List.mem_cons_self _ _)))
      fun t' ht => hops t' (List.mem_cons_of_mem _ ht)

/-- **An identity stays seen until the newest sub-filter at its insertion expires.**  After
an `add(x)` that inserted into every sub-filter, `contains(x)` holds after any further
calls whose rotations are at times no later than the `valid_until` of the sub-filter that
was newest at the insertion. -/
theorem contains_run_of_add [DecidableEq α] (mc : MultiCuckoo α) (x : α) (rs : List Bool)
    (hok : (mc.add x rs).2 = .ok ()) (ops : List (Op α)) (hops : ∀ t, Op.rotate t ∈ ops → t ≤ mc.newest.validUntil) :
    ((mc.add x rs).1.run ops).contains x = true :=
  contains_of_covers (covers_run _ ops (covers_addEach_ok x rs mc.filters_ne_nil hok) hops)

theorem contains_run_of_add_two_buckets :
    (((MultiCuckoo.new 2 (fromSecs 60) 0 : Option (MultiCuckoo ℕ)).get rfl).add 7 []).2 = .ok () ∧
      (∀ t, Op.rotate t ∈ [Op.rotate (fromSecs 61), .add 8 []] →
        t ≤ ((MultiCuckoo.new 2 (fromSecs 60) 0 : Option (MultiCuckoo ℕ)).get rfl).newest.validUntil) ∧
      ((((MultiCuckoo.new 2 (fromSecs 60) 0 : Option (MultiCuckoo ℕ)).get rfl).add 7 []).1.run
        [.rotate (fromSecs 61), .add 8 []]).contains 7 = true := by
  have hops : ∀ t, Op.rotate t ∈ [Op.rotate (fromSecs 61), .add (8 : ℕ) []] →
      t ≤ ((MultiCuckoo.new 2 (fromSecs 60) 0 : Option (MultiCuckoo ℕ)).get rfl).newest.validUntil := by
    intro t ht
    simp at ht
    subst ht; decide
  exact ⟨rfl, hops, contains_run_of_add
    ((MultiCuckoo.new 2 (fromSecs 60) 0 : Option (MultiCuckoo ℕ)).get rfl) 7 [] rfl _ hops⟩

/-- The window bound from the insertion time fails: one bucket of 60 s built at time 0, an
identity added at 50 s (no rotation before it), and the rotation at 61 s, no later than
50 s + 60 s · 1, already drops it. -/
theorem rotate_drops_identity_within_window :
    (((MultiCuckoo.new 1 (fromSecs 60) 0 : Option (MultiCuckoo ℕ)).get rfl).add 7 []).2 = .ok () ∧
      ((((MultiCuckoo.new 1 (fromSecs 60) 0 : Option (MultiCuckoo ℕ)).get rfl).add 7 []).1.rotate (fromSecs 61)).contains 7
        = false ∧
      fromSecs 50 ≤ fromSecs 61 ∧ fromSecs 61 ≤ fromSecs 50 + fromSecs 60 * 1 := by
  refine ⟨rfl, rfl, by decide, by decide⟩

/-! ### The newest expiry time -/

/-- The time of the last rotation of a run that dropped a sub-filter. -/
def MultiCuckoo.lastDrop (mc : MultiCuckoo α) : List (Op α) → Option ℕ
  | [] => none
  | .add y rs :: ops => (mc.add y rs).1.lastDrop ops
  | .rotate t :: ops => ((mc.rotate t).lastDrop ops).or (if mc.oldest.validUntil < t then some t else none)

theorem newest_add_validUntil (mc : MultiCuckoo α) (x : α) (rs : List Bool) :
    (mc.add x rs).1.newest.validUntil = mc.newest.validUntil := by
  have h := congrArg List.getLast? (validUntils_addEach x mc.filters rs)
  simp only [List.getLast?_map, List.getLast?_eq_getLast _ mc.filters_ne_nil,
    List.getLast?_eq_getLast (addEach x mc.filters rs).1 (mc.add x rs).1.filters_ne_nil, Option.map_some',
    Option.some.injEq] at h
  exact h

theorem newest_rotate_validUntil (mc : MultiCuckoo α) (t : ℕ) :
    (mc.rotate t).newest.validUntil =
      if mc.oldest.validUntil < t then t + mc.window * asU32 (mc.buckets + 1) else mc.newest.validUntil := by
  unfold MultiCuckoo.newest
  simp only [MultiCuckoo.rotate_filters]
  split <;> simp [TimeBoundedCuckoo.new]

/-- **The newest expiry along a run.**  The newest sub-filter is valid until what the newest
was valid until before the run, as long as no rotation has dropped a sub-filter, and from
then on until the time of the last rotation that dropped one plus `window * (buckets + 1)`. -/
theorem newest_run_validUntil : ∀ (mc : MultiCuckoo α) (ops : List (Op α)),
    (mc.run ops).newest.validUntil =
      ((mc.lastDrop ops).map fun t => t + mc.window * asU32 (mc.buckets + 1)).getD mc.newest.validUntil
  | _, [] => rfl
  | mc, .add y rs :: ops => by
    rw [MultiCuckoo.run, MultiCuckoo.lastDrop, newest_run_validUntil _ ops, newest_add_validUntil,
      MultiCuckoo.add_window, MultiCuckoo.add_buckets]
  | mc, .rotate t :: ops => by
    rw [MultiCuckoo.run, MultiCuckoo.lastDrop, newest_run_validUntil _ ops, newest_rotate_validUntil,
      MultiCuckoo.rotate_window, MultiCuckoo.rotate_buckets]
    cases (mc.rotate t).lastDrop ops <;> split <;> rfl

/-- The newest sub-filter built by `MultiCuckoo::new(buckets, window)` at `now` is valid until
`now + window * buckets`. -/
theorem newest_new_validUntil {buckets window now : ℕ} {mc : MultiCuckoo α}
    (h : MultiCuckoo.new buckets window now = some mc) (hb : buckets < 2 ^ 32) :
    mc.newest.validUntil = now + window * buckets := by
  unfold MultiCuckoo.new at h
  split at h
  · next hpos =>
    cases h
    simp only [MultiCuckoo.newest, List.getLast_map, List.getLast_range', TimeBoundedCuckoo.new, asU32]
    rw [Nat.mod_eq_of_lt (by omega), Nat.add_sub_cancel_left]
  · cases h

/-- From `MultiCuckoo::new(buckets, window)` at `now`, along any run, the sub-filter that is
newest is valid until `now + window * buckets` until a rotation drops a sub-filter, and then
until the time of the last such rotation plus `window * (buckets + 1)`. -/
theorem new_run_newest_validUntil {buckets window now : ℕ} {mc : MultiCuckoo α}
    (h : MultiCuckoo.new buckets window now = some mc) (hb : buckets + 1 < 2 ^ 32) (ops : List (Op α)) :
    (mc.run ops).newest.validUntil =
      ((mc.lastDrop ops).map fun t => t + window * (buckets + 1)).getD (now + window * buckets) := by
  have hshape : mc.window = window ∧ mc.buckets = buckets := by
    unfold MultiCuckoo.new at h; split at h <;> cases h; exact ⟨rfl, rfl⟩
  rw [newest_run_validUntil, newest_new_validUntil h (by omega), hshape.1, hshape.2, asU32,
    Nat.mod_eq_of_lt hb]

/-! ### Forgetting -/

/-- The rotations of a run that dropped a sub-filter. -/
def MultiCuckoo.drops (mc : MultiCuckoo α) : List (Op α) → ℕ
  | [] => 0
  | .add y rs :: ops => (mc.add y rs).1.drops ops
  | .rotate t :: ops => (if mc.oldest.validUntil < t then 1 else 0) + (mc.rotate t).drops ops

/-- The sub-filter at position `j`, oldest first, holds `x`. -/
def HoldsAt (x : α) (fs : List (TimeBoundedCuckoo α)) (j : ℕ) : Prop :=
  ∃ f, fs[j]? = some f ∧ x ∈ f.filter.items

theorem holdsAt_addEach {x y : α} (hy : y ≠ x) :
    ∀ (fs : List (TimeBoundedCuckoo α)) (rs : List Bool) (j : ℕ), HoldsAt x (addEach y fs rs).1 j ↔ HoldsAt x fs j
  | [], _, j => by simp [addEach]
  | f :: fs, rs, j => by
    cases hr : rs.headD false
    · rw [addEach_accepted f fs hr]
      cases j with
      | zero =>
        simp only [HoldsAt, List.getElem?_cons_zero, Option.some.injEq, exists_eq_left', List.mem_append,
          List.mem_singleton, Ne.symm hy, or_false]
      | succ j => simpa only [HoldsAt, List.getElem?_cons_succ] using holdsAt_addEach hy fs rs.tail j
    · rw [addEach_refused f fs hr]

/-- A rotation that drops the oldest sub-filter moves every other one up a place; the
fresh one holds nothing. -/
theorem holdsAt_rotate {x : α} (mc : MultiCuckoo α) (t j : ℕ) :
    HoldsAt x (mc.rotate t).filters j ↔
      HoldsAt x mc.filters (j + if mc.oldest.validUntil < t then 1 else 0) := by
  rw [MultiCuckoo.rotate_filters]
  split
  · rcases Nat.lt_or_ge j mc.filters.tail.length with hj | hj
    · simp only [HoldsAt, List.getElem?_append_left hj, List.getElem?_tail]
    · have hnone : mc.filters[j + 1]? = none := List.getElem?_eq_none (by rw [List.length_tail] at hj; omega)
      simp only [HoldsAt, List.getElem?_append_right hj, hnone]
      refine ⟨fun ⟨f, hf, hx⟩ => ?_, fun ⟨_, h, _⟩ => nomatch h⟩
      obtain rfl := List.mem_singleton.1 (List.getElem?_mem hf)
      simp [TimeBoundedCuckoo.new, CuckooFilter.withCapacity] at hx
  · rfl

theorem holdsAt_run {x : α} : ∀ (mc : MultiCuckoo α) (ops : List (Op α)),
    (∀ y rs, Op.add y rs ∈ ops → y ≠ x) →
      ∀ j, HoldsAt x (mc.run ops).filters j ↔ HoldsAt x mc.filters (j + mc.drops ops)
  | mc, [], _, j => by simp [MultiCuckoo.run, MultiCuckoo.drops]
  | mc, .add y rs :: ops, hx, j => by
    rw [MultiCuckoo.run, MultiCuckoo.drops, holdsAt_run _ ops fun y' rs' h => hx y' rs' (List.mem_cons_of_mem _ h),
      MultiCuckoo.add_filters, holdsAt_addEach (hx y rs (List.mem_cons_self _ _))]
  | mc, .rotate t :: ops, hx, j => by
    rw [MultiCuckoo.run, MultiCuckoo.drops, holdsAt_run _ ops fun y' rs' h => hx y' rs' (List.mem_cons_of_mem _ h),
      holdsAt_rotate, Nat.add_assoc, Nat.add_comm ((mc.rotate t).drops ops)]

/-- Rotations at times past the expiry of the `n` oldest sub-filters drop a sub-filter each,
until those `n` are gone. -/
theorem drops_of_expired : ∀ (ts : List ℕ) (mc : MultiCuckoo α) (n : ℕ), n ≤ mc.filters.length →
    (∀ t ∈ ts, ∀ f ∈ mc.filters.take n, f.validUntil < t) → min n ts.length ≤ mc.drops (ts.map .rotate)
  | [], _, _, _, _ => by simp
  | _ :: _, _, 0, _, _ => by simp
  | t :: ts, mc, n + 1, hn, h => by
    obtain ⟨f, fs, hf⟩ := List.exists_cons_of_ne_nil mc.filters_ne_nil
    have hold : mc.oldest.validUntil < t := by
      rw [MultiCuckoo.oldest_eq hf]; exact h t (List.mem_cons_self _ _) f (by simp [hf])
    have hlen : n ≤ fs.length := by rw [hf, List.length_cons] at hn; omega
    have hrot : (mc.rotate t).filters.take n = fs.take n := by
      rw [MultiCuckoo.rotate_filters, if_pos hold, hf, List.tail_cons, List.take_append_of_le_length hlen]
    have ih := drops_of_expired ts (mc.rotate t) n
      (by rw [(mc.rotate t).length_filters, MultiCuckoo.rotate_buckets, ← mc.length_filters, hf]; simp; omega)
      fun t' ht' g hg => h t' (List.mem_cons_of_mem _ ht') g (by
        rw [hf, List.take_succ_cons]; exact List.mem_cons_of_mem _ (hrot ▸ hg))
    simp only [List.map_cons, MultiCuckoo.drops, if_pos hold, List.length_cons]
    omega

/-- Once rotations without `add` have dropped `buckets` sub-filters, the oldest one is empty. -/
theorem oldest_items_run_rotations (mc : MultiCuckoo α) (ts : List ℕ)
    (h : mc.buckets ≤ mc.drops (ts.map .rotate)) : (mc.run (ts.map .rotate)).oldest.filter.items = [] := by
  refine List.eq_nil_iff_forall_not_mem.2 fun x hx => ?_
  obtain ⟨g, gs, hg⟩ := List.exists_cons_of_ne_nil (mc.run (ts.map .rotate)).filters_ne_nil
  rw [MultiCuckoo.oldest_eq hg] at hx
  have hno : ∀ y rs, Op.add y rs ∈ ts.map Op.rotate → y ≠ x := fun y rs hy => by
    obtain ⟨_, -, h⟩ := List.mem_map.1 hy; cases h
  obtain ⟨f, hf, -⟩ := (holdsAt_run mc (ts.map .rotate) hno 0).1 ⟨g, by rw [hg, List.getElem?_cons_zero], hx⟩
  rw [List.getElem?_eq_none (by rw [mc.length_filters]; omega)] at hf
  cases hf

/-! ### Expiry times -/

/-- The calls of a run rotate at times strictly after `t0` and strictly increasing, as
`SystemTime::now()` at each tick after the filter was built would give them. -/
def rotatesAfter (t0 : ℕ) : List (Op α) → Bool
  | [] => true
  | .add _ _ :: ops => rotatesAfter t0 ops
  | .rotate t :: ops => decide (t0 < t) && rotatesAfter t ops

/-- The expiry times of the sub-filters increase from the oldest to the newest, and none is
later than `t0` plus `window * (buckets + 1)`, `t0` being the time of the last rotation. -/
structure Staggered (mc : MultiCuckoo α) (t0 : ℕ) : Prop where
  sorted : (mc.filters.map (·.validUntil)).Pairwise (· < ·)
  le : ∀ v ∈ mc.filters.map (·.validUntil), v ≤ t0 + mc.window * asU32 (mc.buckets + 1)

theorem staggered_new {buckets window now : ℕ} {mc : MultiCuckoo α} (hw : 0 < window)
    (hb : buckets + 1 < 2 ^ 32) (h : MultiCuckoo.new buckets window now = some mc) : Staggered mc now := by
  have hu : ∀ b ∈ List.range' 1 buckets, asU32 b = b := fun b hb' => Nat.mod_eq_of_lt (by
    simp only [List.mem_range'_1] at hb'; omega)
  unfold MultiCuckoo.new at h
  split at h
  · cases h
    refine ⟨?_, fun v hv => ?_⟩ <;> dsimp only at * <;> rw [List.map_map] at *
    · refine List.pairwise_map.2 ((List.pairwise_lt_range' 1 buckets).imp_of_mem fun ha hb' hlt => ?_)
      simp only [Function.comp_apply, TimeBoundedCuckoo.new, hu _ ha, hu _ hb']
      exact Nat.add_lt_add_left (Nat.mul_lt_mul_of_pos_left hlt hw) now
    · obtain ⟨b, hb', rfl⟩ := List.mem_map.1 hv
      have hb1 : asU32 (buckets + 1) = buckets + 1 := Nat.mod_eq_of_lt hb
      simp only [List.mem_range'_1] at hb'
      simp only [Function.comp_apply, TimeBoundedCuckoo.new, hu _ (List.mem_range'_1.2 hb'), hb1]
      exact Nat.add_le_add_left (Nat.mul_le_mul_left window (by omega)) now
  · cases h

theorem staggered_add {mc : MultiCuckoo α} {t0 : ℕ} (h : Staggered mc t0) (x : α) (rs : List Bool) :
    Staggered (mc.add x rs).1 t0 := by
  refine ⟨?_, ?_⟩ <;> simp only [MultiCuckoo.add_filters, validUntils_addEach, MultiCuckoo.add_window,
    MultiCuckoo.add_buckets]
  exacts [h.sorted, h.le]

/-- A rotation at a later time keeps the expiry times increasing: a dropped sub-filter's
replacement expires after every sub-filter that stays. -/
theorem staggered_rotate {mc : MultiCuckoo α} {t0 t : ℕ} (h : Staggered mc t0) (ht : t0 < t) :
    Staggered (mc.rotate t) t := by
  have hle : ∀ v ∈ mc.filters.map (·.validUntil), v ≤ t + mc.window * asU32 (mc.buckets + 1) :=
    fun v hv => (h.le v hv).trans (by omega)
  suffices key : ((mc.rotate t).filters.map (·.validUntil)).Pairwise (· < ·) ∧
      ∀ v ∈ (mc.rotate t).filters.map (·.validUntil), v ≤ t + mc.window * asU32 (mc.buckets + 1) from
    ⟨key.1, by rw [MultiCuckoo.rotate_window, MultiCuckoo.rotate_buckets]; exact key.2⟩
  rw [MultiCuckoo.rotate_filters]
  split
  · have htail : ∀ v ∈ (mc.filters.map (·.validUntil)).tail, v ≤ t0 + mc.window * asU32 (mc.buckets + 1) :=
      fun v hv => h.le v (List.mem_of_mem_tail hv)
    simp only [List.map_append, List.map_tail, List.map_cons, List.map_nil, List.pairwise_append,
      List.pairwise_singleton, List.mem_append, List.mem_singleton]
    refine ⟨⟨h.sorted.sublist (List.tail_sublist _), trivial, fun a ha b hb => ?_⟩, fun v hv => ?_⟩
    · have := htail a ha
      subst hb
      simp only [TimeBoundedCuckoo.new]
      omega
    · rcases hv with hv | rfl
      · exact hle v (List.mem_of_mem_tail hv)
      · exact le_refl _
  · exact ⟨h.sorted, hle⟩

theorem staggered_run : ∀ (ops : List (Op α)) {mc : MultiCuckoo α} {t0 : ℕ}, Staggered mc t0 →
    rotatesAfter t0 ops = true → ((mc.run ops).filters.map (·.validUntil)).Pairwise (· < ·)
  | [], _, _, h, _ => h.sorted
  | .add x rs :: ops, _, _, h, hops => staggered_run ops (staggered_add h x rs) hops
  | .rotate t :: ops, _, _, h, hops => by
    simp only [rotatesAfter, Bool.and_eq_true, decide_eq_true_eq] at hops
    exact staggered_run ops (staggered_rotate h hops.1) hops.2

/-- **Expiry times increase from the oldest sub-filter to the newest.**  From
`MultiCuckoo::new` with a non-zero window and fewer than `2^32 - 1` buckets, along every run
of `add` and of `rotate` at times strictly after the construction and strictly increasing,
the `valid_until` of the sub-filters increase strictly from the oldest to the newest. -/
theorem new_run_validUntil_increasing {buckets window now : ℕ} {mc : MultiCuckoo α}
    (h : MultiCuckoo.new buckets window now = some mc) (hw : 0 < window) (hb : buckets + 1 < 2 ^ 32)
    (ops : List (Op α)) (hops : rotatesAfter now ops = true) :
    ((mc.run ops).filters.map (·.validUntil)).Pairwise (· < ·) :=
  staggered_run ops (staggered_new hw hb h) hops

theorem new_run_validUntil_increasing_two_rotations :
    MultiCuckoo.new 2 60 0 = some ((MultiCuckoo.new 2 60 0 : Option (MultiCuckoo ℕ)).get rfl) ∧ 0 < 60 ∧
      2 + 1 < 2 ^ 32 ∧ rotatesAfter 0 [Op.add 7 [], .rotate 61, .rotate 121] = true ∧
      ((((MultiCuckoo.new 2 60 0 : Option (MultiCuckoo ℕ)).get rfl).run
          [.add 7 [], .rotate 61, .rotate 121]).filters.map (·.validUntil)).Pairwise (· < ·) :=
  ⟨(Option.some_get _).symm, by decide, by decide, rfl,
    new_run_validUntil_increasing (Option.some_get _).symm (by decide) (by decide) _ rfl⟩

/-- Two rotations at one time after a stall leave two sub-filters with the same expiry
time: the rotation times must increase strictly. -/
example : ((((MultiCuckoo.new 2 60 0 : Option (MultiCuckoo ℕ)).get rfl).rotate 1000).rotate 1000).filters.map
    (·.validUntil) = [1180, 1180] := by decide


end StatsRelay.Processors
