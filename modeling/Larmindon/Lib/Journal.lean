/-
# `Lib.Journal` — an append-only journal of keyed revisions

A writer publishes values under keys it draws from a counter.  A key may be
revised any number of times while it is open; the entry that closes it is its
last.  `Board` is what the writer remembers (the open keys, oldest first, and
the next fresh key) and `Step` is the whole list of what it may write:

    settle      close the oldest open key with its value
    settleNew   nothing is open: close a fresh key at once
    revise      replace the value of an open key
    start       open a fresh key, younger than all the others
    retract     close an open key with the empty value

`Written n₀ log b lost` is a journal started at key `n₀` whose writer may also
forget what it has open (`abandon`); the forgotten keys are collected in `lost`.

**Proved here.**

    a closed key is never written again                       (`Written.closed_last`)
    keys first appear in increasing order                     (`Written.first_keys_sorted`)
    a key is open, lost, or was closed exactly once           (`Written.closed_once`)
    read by increasing key, the journal shows the closed
    values in the order they were closed, then the open ones  (`Written.read_eq`)

The last is why closing oldest-first and opening youngest-last matter: together
they make the order of keys the order of settlement.
-/
import Mathlib.Data.List.Basic
import Mathlib.Data.List.Range
import Mathlib.Data.List.Pairwise

namespace Journal

universe u
variable {α : Type u}

/-- The complete value of `key` at this point; `closed` marks the key's last entry. -/
structure Entry (α : Type u) where
  key : ℕ
  closed : Bool
  value : List α

/-- The open keys, oldest first, and the next fresh key. -/
structure Board where
  live : List ℕ
  next : ℕ

/-- One entry, and what the writer remembers around it. -/
inductive Step : Board → Entry α → Board → Prop
  | settle {k n : ℕ} {l : List ℕ} {v : List α} : Step ⟨k :: l, n⟩ ⟨k, true, v⟩ ⟨l, n⟩
  | settleNew {n : ℕ} {v : List α} : Step ⟨[], n⟩ ⟨n, true, v⟩ ⟨[], n + 1⟩
  | revise {k n : ℕ} {l : List ℕ} {v : List α} : k ∈ l → Step ⟨l, n⟩ ⟨k, false, v⟩ ⟨l, n⟩
  | start {n : ℕ} {l : List ℕ} {v : List α} : Step ⟨l, n⟩ ⟨n, false, v⟩ ⟨l ++ [n], n + 1⟩
  | retract {k n : ℕ} {l r : List ℕ} : Step ⟨l ++ k :: r, n⟩ ⟨k, true, []⟩ ⟨l ++ r, n⟩

/-- A batch of entries. -/
inductive Steps : Board → List (Entry α) → Board → Prop
  | refl (b : Board) : Steps b [] b
  | step {b b' b'' : Board} {e : Entry α} {es : List (Entry α)} :
      Step b e b' → Steps b' es b'' → Steps b (e :: es) b''

theorem Steps.append {b b' b'' : Board} {es fs : List (Entry α)}
    (h : Steps b es b') (h' : Steps b' fs b'') : Steps b (es ++ fs) b'' := by
  induction h with
  | refl _ => exact h'
  | step hs _ ih => exact .step hs (ih h')

theorem Steps.one {b b' : Board} {e : Entry α} (h : Step b e b') : Steps b [e] b' :=
  .step h (.refl _)

/-- The journals a writer can have produced from key `n₀` on. -/
inductive Written (n₀ : ℕ) : List (Entry α) → Board → List ℕ → Prop
  | nil : Written n₀ [] ⟨[], n₀⟩ []
  | snoc {log : List (Entry α)} {b b' : Board} {e : Entry α} {lost : List ℕ} :
      Written n₀ log b lost → Step b e b' → Written n₀ (log ++ [e]) b' lost
  | abandon {log : List (Entry α)} {l lost : List ℕ} {n : ℕ} :
      Written n₀ log ⟨l, n⟩ lost → Written n₀ log ⟨[], n⟩ (lost ++ l)

theorem Written.steps {n₀ : ℕ} {log es : List (Entry α)} {b b' : Board} {lost : List ℕ}
    (h : Written n₀ log b lost) (hs : Steps b es b') : Written n₀ (log ++ es) b' lost := by
  induction hs generalizing log with
  | refl _ => simpa using h
  | step hs _ ih => simpa [List.append_assoc] using ih (h.snoc hs)

/-- A journal that goes on where another one ended with nothing open. -/
theorem Written.append {n₀ n₁ : ℕ} {log log' : List (Entry α)} {b : Board} {lost lost' : List ℕ}
    (h : Written n₀ log ⟨[], n₁⟩ lost) (h' : Written n₁ log' b lost') :
    Written n₀ (log ++ log') b (lost ++ lost') := by
  induction h' with
  | nil => simpa using h
  | snoc _ hs ih =>
      rw [← List.append_assoc]
      exact ih.snoc hs
  | abandon _ ih =>
      rw [← List.append_assoc]
      exact ih.abandon

/-! ## Reading a journal -/

def keys (log : List (Entry α)) : List ℕ := log.map Entry.key

/-- The keys in the order of their first entry. -/
def firstKeys (log : List (Entry α)) : List ℕ :=
  (keys log).foldl (fun seen k => if k ∈ seen then seen else seen ++ [k]) []

/-- How often `k` was closed. -/
def closings (k : ℕ) (log : List (Entry α)) : ℕ := log.countP fun e => e.closed && e.key == k

/-- The latest value of `k`, empty where it was never written. -/
def latest (log : List (Entry α)) (k : ℕ) : List α :=
  log.foldl (fun v e => if e.key = k then e.value else v) []

/-- One more than the greatest key. -/
def bound (log : List (Entry α)) : ℕ := (keys log).foldr (fun k n => max (k + 1) n) 0

/-- The latest value of every key written, by increasing key. -/
def read (log : List (Entry α)) : List α :=
  ((List.range (bound log)).filter fun k => k ∈ keys log).flatMap (latest log)

/-- What has been closed, in the order it was closed. -/
def settled (log : List (Entry α)) : List α := (log.filter Entry.closed).flatMap Entry.value

@[simp] theorem keys_nil : keys ([] : List (Entry α)) = [] := rfl

@[simp] theorem keys_append (xs ys : List (Entry α)) : keys (xs ++ ys) = keys xs ++ keys ys := by
  simp [keys]

@[simp] theorem keys_singleton (e : Entry α) : keys [e] = [e.key] := rfl

@[simp] theorem firstKeys_snoc (log : List (Entry α)) (e : Entry α) :
    firstKeys (log ++ [e])
      = if e.key ∈ firstKeys log then firstKeys log else firstKeys log ++ [e.key] := by
  rw [firstKeys, keys_append, List.foldl_append]
  rfl

@[simp] theorem mem_firstKeys {log : List (Entry α)} {k : ℕ} : k ∈ firstKeys log ↔ k ∈ keys log := by
  induction log using List.reverseRecOn with
  | nil => simp [firstKeys]
  | append_singleton log e ih =>
      rw [firstKeys_snoc]
      split
      · next h =>
          rw [ih, keys_append, List.mem_append]
          constructor
          · exact Or.inl
          · rintro (hk | hk)
            · exact hk
            · rw [keys_singleton, List.mem_singleton] at hk
              exact hk ▸ ih.mp (hk ▸ h)
      · simp [ih]

@[simp] theorem closings_nil (k : ℕ) : closings k ([] : List (Entry α)) = 0 := rfl

theorem closings_snoc (k : ℕ) (log : List (Entry α)) (e : Entry α) :
    closings k (log ++ [e]) = closings k log + if e.closed && e.key == k then 1 else 0 := by
  simp [closings, List.countP_append, List.countP_cons]

@[simp] theorem latest_nil (k : ℕ) : latest ([] : List (Entry α)) k = [] := rfl

theorem latest_snoc (log : List (Entry α)) (e : Entry α) (k : ℕ) :
    latest (log ++ [e]) k = if e.key = k then e.value else latest log k := by
  simp [latest]

theorem latest_snoc_ne {log : List (Entry α)} {e : Entry α} {k : ℕ} (h : e.key ≠ k) :
    latest (log ++ [e]) k = latest log k := by
  rw [latest_snoc, if_neg h]

theorem latest_of_not_mem {log : List (Entry α)} {k : ℕ} (h : k ∉ keys log) : latest log k = [] := by
  induction log using List.reverseRecOn with
  | nil => rfl
  | append_singleton log e ih =>
      simp only [keys_append, keys_singleton, List.mem_append, List.mem_singleton, not_or] at h
      rw [latest_snoc_ne (Ne.symm h.2), ih h.1]

/-- Later entries for other keys do not change the value of `k`. -/
theorem latest_append_of_not_mem (log : List (Entry α)) {es : List (Entry α)} {k : ℕ}
    (h : k ∉ keys es) : latest (log ++ es) k = latest log k := by
  induction es using List.reverseRecOn with
  | nil => simp
  | append_singleton es e ih =>
      simp only [keys_append, keys_singleton, List.mem_append, List.mem_singleton, not_or] at h
      rw [← List.append_assoc, latest_snoc_ne (Ne.symm h.2), ih h.1]

/-- After one entry for each of several distinct keys, each of them shows its own value. -/
theorem map_latest_of_nodup (log : List (Entry α)) {es : List (Entry α)} (h : (keys es).Nodup) :
    (keys es).map (latest (log ++ es)) = es.map Entry.value := by
  induction es using List.reverseRecOn with
  | nil => rfl
  | append_singleton es e ih =>
      rw [keys_append, List.nodup_append] at h
      obtain ⟨hes, -, hne⟩ := h
      have hold : (keys es).map (latest (log ++ (es ++ [e]))) = (keys es).map (latest (log ++ es)) := by
        refine List.map_congr_left ?_
        intro k hk
        rw [← List.append_assoc, latest_snoc_ne]
        exact (hne k hk e.key List.mem_cons_self).symm
      have hlast : latest (log ++ (es ++ [e])) e.key = e.value := by
        rw [← List.append_assoc, latest_snoc, if_pos rfl]
      rw [keys_append, List.map_append, hold, ih hes, keys_singleton, List.map_singleton, hlast,
        List.map_append, List.map_singleton]

@[simp] theorem settled_nil : settled ([] : List (Entry α)) = [] := rfl

@[simp] theorem settled_append (xs ys : List (Entry α)) :
    settled (xs ++ ys) = settled xs ++ settled ys := by
  simp [settled]

theorem lt_bound {log : List (Entry α)} {k : ℕ} (h : k ∈ keys log) : k < bound log := by
  unfold bound
  generalize keys log = ks at h ⊢
  induction ks with
  | nil => exact absurd h List.not_mem_nil
  | cons a l ih =>
      simp only [List.foldr_cons]
      rcases List.mem_cons.mp h with rfl | h'
      · omega
      · have := ih h'; omega

theorem bound_le {log : List (Entry α)} {n : ℕ} (h : ∀ k ∈ keys log, k < n) : bound log ≤ n := by
  unfold bound
  generalize keys log = ks at h ⊢
  induction ks with
  | nil => exact Nat.zero_le n
  | cons a l ih =>
      have ha := h a List.mem_cons_self
      have hl := ih fun k hk => h k (List.mem_cons_of_mem _ hk)
      simp only [List.foldr_cons]
      omega

/-- Values that are empty from `m` on need not be read past `m`. -/
theorem flatMap_range_of_empty {f : ℕ → List α} {m n : ℕ} (hmn : m ≤ n)
    (h : ∀ k, m ≤ k → k < n → f k = []) : (List.range n).flatMap f = (List.range m).flatMap f := by
  induction n, hmn using Nat.le_induction with
  | base => rfl
  | succ n hmn ih =>
      rw [List.range_succ, List.flatMap_append, ih fun k hk hn => h k hk (Nat.lt_succ_of_lt hn)]
      simp [h n hmn (Nat.lt_succ_self n)]

/-- Keys that were never written read as empty, so `read` may run over any initial segment that
contains them all. -/
theorem read_eq_range {log : List (Entry α)} {n : ℕ} (h : ∀ k ∈ keys log, k < n) :
    read log = (List.range n).flatMap (latest log) := by
  have hfilter : read log = (List.range (bound log)).flatMap (latest log) := by
    unfold read
    induction List.range (bound log) with
    | nil => rfl
    | cons k l ih =>
        cases Decidable.em (k ∈ keys log) with
        | inl hk => simp [hk, ih]
        | inr hk => simp [hk, ih, latest_of_not_mem hk]
  rw [hfilter]
  refine (flatMap_range_of_empty (bound_le h) ?_).symm
  intro k hk _
  apply latest_of_not_mem
  intro hmem
  exact absurd (lt_bound hmem) (by omega)

/-! ## What every journal satisfies -/

/-- The bookkeeping between a journal and its board. -/
structure Kept (n₀ : ℕ) (log : List (Entry α)) (b : Board) (lost : List ℕ) : Prop where
  below : ∀ k ∈ keys log, k < b.next
  live_keys : ∀ k ∈ b.live, k ∈ keys log
  live_sorted : b.live.Pairwise (· < ·)
  live_open : ∀ k ∈ b.live, closings k log = 0
  closed_once : ∀ k ∈ keys log, k ∉ b.live → k ∉ lost → closings k log = 1
  lost_open : ∀ k ∈ lost, k ∈ keys log ∧ k ∉ b.live ∧ closings k log = 0
  closed_last : log.Pairwise fun e e' => e.closed = true → e'.key ≠ e.key
  first_sorted : (firstKeys log).Pairwise (· < ·)
  fresh : ∀ k ∈ keys log, n₀ ≤ k
  start_le : n₀ ≤ b.next

theorem Kept.live_lt {n₀ : ℕ} {log : List (Entry α)} {b : Board} {lost : List ℕ}
    (h : Kept n₀ log b lost) {k : ℕ} (hk : k ∈ b.live) : k < b.next :=
  h.below k (h.live_keys k hk)

theorem Kept.next_not_mem {n₀ : ℕ} {log : List (Entry α)} {b : Board} {lost : List ℕ}
    (h : Kept n₀ log b lost) : b.next ∉ keys log :=
  fun hk => absurd (h.below _ hk) (Nat.lt_irrefl _)

/-- A key that is open has had no closing entry. -/
theorem closings_zero {log : List (Entry α)} {k : ℕ} (h : closings k log = 0) :
    ∀ e ∈ log, e.closed = true → k ≠ e.key := by
  intro e he hc hk
  have hpos := List.countP_eq_zero.mp h e he
  simp [hc, hk] at hpos

theorem closings_of_not_mem {log : List (Entry α)} {k : ℕ} (h : k ∉ keys log) : closings k log = 0 := by
  refine List.countP_eq_zero.mpr ?_
  intro e he
  have hne : e.key ≠ k := by
    rintro rfl
    exact h (List.mem_map_of_mem he)
  simp [hne]

theorem kept_nil (n₀ : ℕ) : Kept n₀ ([] : List (Entry α)) ⟨[], n₀⟩ [] where
  below := by simp
  live_keys := by simp
  live_sorted := .nil
  live_open := by simp
  closed_once := by simp
  lost_open := by simp
  closed_last := .nil
  first_sorted := .nil
  fresh := by simp
  start_le := Nat.le_refl _

/-- What every kind of step shares: it writes one entry, for an open key or for the next one, and
the board it leaves has the entry's key open exactly when the entry does not close it. -/
structure Step.Shape (b : Board) (e : Entry α) (b' : Board) : Prop where
  key : e.key ∈ b.live ∨ e.key = b.next
  next : b'.next = if e.key = b.next then b.next + 1 else b.next
  live : ∀ k, k ∈ b'.live ↔ (k ∈ b.live ∧ (k = e.key → e.closed = false)) ∨
    (k = e.key ∧ e.closed = false)
  sorted : b'.live.Pairwise (· < ·)

theorem Step.shape {b b' : Board} {e : Entry α} (h : Step b e b')
    (hs : b.live.Pairwise (· < ·)) (hlt : ∀ k ∈ b.live, k < b.next) : Step.Shape b e b' := by
  cases h with
  | @settle k n l v =>
      obtain ⟨hk, hl⟩ := List.pairwise_cons.mp hs
      have hkn : k ≠ n := Nat.ne_of_lt (hlt k List.mem_cons_self)
      refine ⟨.inl List.mem_cons_self, by simp [hkn], ?_, hl⟩
      intro j
      have : j ∈ l → j ≠ k := fun hj he => absurd (hk j hj) (by omega)
      simp; tauto
  | settleNew => exact ⟨.inr rfl, by simp, by simp, .nil⟩
  | @revise k n l v hk =>
      have hkn : k ≠ n := Nat.ne_of_lt (hlt k hk)
      refine ⟨.inl hk, by simp [hkn], ?_, hs⟩
      intro j
      have : j = k → j ∈ l := fun h => h ▸ hk
      simp; tauto
  | @start n l v =>
      refine ⟨.inr rfl, by simp, by simp, ?_⟩
      refine List.pairwise_append.mpr ⟨hs, List.pairwise_singleton _ _, ?_⟩
      intro k hk j hj
      rw [List.mem_singleton.mp hj]
      exact hlt k hk
  | @retract k n l r =>
      have hkn : k ≠ n := Nat.ne_of_lt (hlt k (by simp))
      obtain ⟨hl, hr, hlr⟩ := List.pairwise_append.mp hs
      obtain ⟨hkr, hr'⟩ := List.pairwise_cons.mp hr
      refine ⟨.inl (by simp), by simp [hkn], ?_, ?_⟩
      · intro j
        have h₁ : j ∈ l → j ≠ k := fun hj he => absurd (hlr j hj k List.mem_cons_self) (by omega)
        have h₂ : j ∈ r → j ≠ k := fun hj he => absurd (hkr j hj) (by omega)
        simp; tauto
      · refine List.pairwise_append.mpr ⟨hl, hr', ?_⟩
        intro a ha c hc
        exact hlr a ha c (List.mem_cons_of_mem _ hc)

/-- The open keys are in order, and all of them were drawn from the counter. -/
structure Board.Ordered (b : Board) : Prop where
  sorted : b.live.Pairwise (· < ·)
  below : ∀ k ∈ b.live, k < b.next

theorem Board.Ordered.step {b b' : Board} {e : Entry α} (h : b.Ordered) (hs : Step b e b') :
    b'.Ordered := by
  have sh := hs.shape h.sorted h.below
  refine ⟨sh.sorted, ?_⟩
  intro k hk
  rw [sh.next]
  rcases (sh.live k).mp hk with ⟨hk, -⟩ | ⟨rfl, -⟩
  · have := h.below k hk; split <;> omega
  · rcases sh.key with hk | hk
    · have := h.below _ hk; split <;> omega
    · simp [hk]

theorem Board.Ordered.steps {b b' : Board} {es : List (Entry α)} (h : b.Ordered)
    (hs : Steps b es b') : b'.Ordered := by
  induction hs with
  | refl _ => exact h
  | step hs _ ih => exact ih (h.step hs)

theorem Step.Shape.next_le {b b' : Board} {e : Entry α} (sh : Step.Shape b e b') :
    b.next ≤ b'.next := by
  rw [sh.next]
  split <;> omega

/-- The key of a new entry was still open, or is fresh. -/
theorem Kept.closings_key {n₀ : ℕ} {log : List (Entry α)} {b b' : Board} {e : Entry α}
    {lost : List ℕ} (h : Kept n₀ log b lost) (sh : Step.Shape b e b') : closings e.key log = 0 := by
  rcases sh.key with hk | hk
  · exact h.live_open _ hk
  · exact closings_of_not_mem (hk ▸ h.next_not_mem)

theorem Kept.key_not_lost {n₀ : ℕ} {log : List (Entry α)} {b b' : Board} {e : Entry α}
    {lost : List ℕ} (h : Kept n₀ log b lost) (sh : Step.Shape b e b') : e.key ∉ lost := by
  intro hl
  obtain ⟨hmem, hnot, -⟩ := h.lost_open _ hl
  rcases sh.key with hk | hk
  · exact hnot hk
  · exact h.next_not_mem (hk ▸ hmem)

/-- One entry keeps the books.  Each field splits on whether the key in question is the entry's
own: elsewhere nothing moves, and at the entry's key `Shape` says all there is. -/
theorem Kept.step {n₀ : ℕ} {log : List (Entry α)} {b b' : Board} {e : Entry α} {lost : List ℕ}
    (h : Kept n₀ log b lost) (hs : Step b e b') : Kept n₀ (log ++ [e]) b' lost := by
  have sh := hs.shape h.live_sorted fun k hk => h.live_lt hk
  have hopen : closings e.key log = 0 := h.closings_key sh
  have hmem : ∀ k, k ∈ keys (log ++ [e]) ↔ k ∈ keys log ∨ k = e.key := by simp
  refine
    { below := ?below, live_keys := ?live_keys, live_sorted := sh.sorted, live_open := ?live_open
      closed_once := ?closed_once, lost_open := ?lost_open, closed_last := ?closed_last
      first_sorted := ?first_sorted, fresh := ?fresh, start_le := h.start_le.trans sh.next_le }
  case below =>
      intro k hk
      rcases (hmem k).mp hk with hk | rfl
      · exact (h.below k hk).trans_le sh.next_le
      · rw [sh.next]
        rcases sh.key with hk | hk
        · have := h.live_lt hk
          split <;> omega
        · simp [hk]
  case live_keys =>
      intro k hk
      rcases (sh.live k).mp hk with ⟨hk, -⟩ | ⟨rfl, -⟩
      · exact (hmem k).mpr (.inl (h.live_keys k hk))
      · exact (hmem _).mpr (.inr rfl)
  case live_open =>
      intro k hk
      rw [closings_snoc]
      rcases (sh.live k).mp hk with ⟨hk, hc⟩ | ⟨rfl, hc⟩
      · rcases eq_or_ne e.key k with he | he
        · simp [h.live_open k hk, hc he.symm]
        · simp [h.live_open k hk, he]
      · simp [hopen, hc]
  case closed_once =>
      intro k hk hnot hlost
      rw [closings_snoc]
      rcases eq_or_ne k e.key with rfl | he
      · cases hc : e.closed with
        | false => exact absurd ((sh.live _).mpr (.inr ⟨rfl, hc⟩)) hnot
        | true => simp [hopen]
      · have hk' : k ∈ keys log := ((hmem k).mp hk).resolve_right he
        have hnot' : k ∉ b.live := by
          intro hl
          exact hnot ((sh.live k).mpr (.inl ⟨hl, fun h => absurd h he⟩))
        simp [h.closed_once k hk' hnot' hlost, Ne.symm he]
  case lost_open =>
      intro k hk
      obtain ⟨hkey, hlive, hzero⟩ := h.lost_open k hk
      have he : k ≠ e.key := by
        rintro rfl
        exact h.key_not_lost sh hk
      refine ⟨(hmem k).mpr (.inl hkey), ?_, by simp [closings_snoc, hzero, Ne.symm he]⟩
      intro hl
      rcases (sh.live k).mp hl with ⟨hl, -⟩ | ⟨hl, -⟩
      · exact hlive hl
      · exact he hl
  case closed_last =>
      refine List.pairwise_append.mpr ⟨h.closed_last, List.pairwise_singleton _ _, ?_⟩
      intro e₁ h₁ e₂ h₂ hc
      rw [List.mem_singleton.mp h₂]
      exact closings_zero hopen e₁ h₁ hc
  case first_sorted =>
      rw [firstKeys_snoc]
      split
      · exact h.first_sorted
      · next hnew =>
          have hk : e.key = b.next := by
            refine sh.key.resolve_left ?_
            intro hl
            exact hnew (mem_firstKeys.mpr (h.live_keys _ hl))
          refine List.pairwise_append.mpr ⟨h.first_sorted, List.pairwise_singleton _ _, ?_⟩
          intro k hk' j hj
          rw [List.mem_singleton.mp hj, hk]
          exact h.below k (mem_firstKeys.mp hk')
  case fresh =>
      intro k hk
      rcases (hmem k).mp hk with hk | rfl
      · exact h.fresh k hk
      · rcases sh.key with hk | hk
        · exact h.fresh _ (h.live_keys _ hk)
        · rw [hk]
          exact h.start_le

theorem Kept.abandon {n₀ : ℕ} {log : List (Entry α)} {l lost : List ℕ} {n : ℕ}
    (h : Kept n₀ log ⟨l, n⟩ lost) : Kept n₀ log ⟨[], n⟩ (lost ++ l) where
  below := h.below
  live_keys := by simp
  live_sorted := .nil
  live_open := by simp
  closed_once := by
    intro k hk _ hlost
    rw [List.mem_append, not_or] at hlost
    exact h.closed_once k hk hlost.2 hlost.1
  lost_open := by
    intro k hk
    rcases List.mem_append.mp hk with hk | hk
    · obtain ⟨h₁, -, h₃⟩ := h.lost_open k hk
      exact ⟨h₁, List.not_mem_nil, h₃⟩
    · exact ⟨h.live_keys k hk, List.not_mem_nil, h.live_open k hk⟩
  closed_last := h.closed_last
  first_sorted := h.first_sorted
  fresh := h.fresh
  start_le := h.start_le

theorem Written.kept {n₀ : ℕ} {log : List (Entry α)} {b : Board} {lost : List ℕ}
    (h : Written n₀ log b lost) : Kept n₀ log b lost := by
  induction h with
  | nil => exact kept_nil n₀
  | snoc _ hs ih => exact ih.step hs
  | abandon _ ih => exact ih.abandon

/-- After the entry that closes it, a key is never written again. -/
theorem Written.closed_last {n₀ : ℕ} {log : List (Entry α)} {b : Board} {lost : List ℕ}
    (h : Written n₀ log b lost) :
    log.Pairwise fun e e' => e.closed = true → e'.key ≠ e.key :=
  h.kept.closed_last

/-- Keys make their first appearance in increasing order. -/
theorem Written.first_keys_sorted {n₀ : ℕ} {log : List (Entry α)} {b : Board} {lost : List ℕ}
    (h : Written n₀ log b lost) : (firstKeys log).Pairwise (· < ·) :=
  h.kept.first_sorted

theorem Written.closed_once {n₀ : ℕ} {log : List (Entry α)} {b : Board} {lost : List ℕ}
    (h : Written n₀ log b lost) {k : ℕ} (hk : k ∈ keys log) (hl : k ∉ b.live) (hlost : k ∉ lost) :
    closings k log = 1 :=
  h.kept.closed_once k hk hl hlost

/-! ## The journal read by key is the journal read by settlement -/

/-- Below `cut` the journal shows what has been settled; from `cut` on only open keys show. -/
structure Front (log : List (Entry α)) (b : Board) (cut : ℕ) : Prop where
  cut_le : cut ≤ b.next
  live_ge : ∀ k ∈ b.live, cut ≤ k
  below : (List.range cut).flatMap (latest log) = settled log
  above : ∀ k, cut ≤ k → k ∉ b.live → latest log k = []

theorem flatMap_range_latest_snoc {log : List (Entry α)} {e : Entry α} {m : ℕ} (h : m ≤ e.key) :
    (List.range m).flatMap (latest (log ++ [e])) = (List.range m).flatMap (latest log) := by
  refine List.flatMap_congr fun k hk => latest_snoc_ne ?_
  have := List.mem_range.mp hk
  omega

/-- Closing the least open key moves the cut just past it. -/
theorem Front.settle {log : List (Entry α)} {b b' : Board} {cut : ℕ} {e : Entry α}
    (h : Front log b cut) (hc : e.closed = true) (hcut : cut ≤ e.key)
    (hbelow : ∀ k ∈ b.live, e.key ≤ k) (hnext : e.key < b'.next)
    (hlive : ∀ k, k ∈ b'.live ↔ k ∈ b.live ∧ k ≠ e.key) :
    Front (log ++ [e]) b' (e.key + 1) where
  cut_le := hnext
  live_ge := by
    intro k hk
    obtain ⟨hk, hne⟩ := (hlive k).mp hk
    have := hbelow k hk
    omega
  below := by
    have hgap : (List.range e.key).flatMap (latest log) = (List.range cut).flatMap (latest log) := by
      refine flatMap_range_of_empty hcut ?_
      intro k hk hlt
      refine h.above k hk ?_
      intro hl
      exact absurd (hbelow k hl) (by omega)
    rw [List.range_succ, List.flatMap_append, flatMap_range_latest_snoc (Nat.le_refl _), hgap,
      h.below]
    simp [settled, hc, latest_snoc]
  above := by
    intro k hk hl
    have hne : e.key ≠ k := by omega
    rw [latest_snoc_ne hne]
    refine h.above k (by omega) ?_
    intro hmem
    exact hl ((hlive k).mpr ⟨hmem, Ne.symm hne⟩)

theorem Front.step {log : List (Entry α)} {b b' : Board} {cut : ℕ} {e : Entry α}
    (h : Front log b cut) (hs : Step b e b') (hsort : b.live.Pairwise (· < ·))
    (hlt : ∀ k ∈ b.live, k < b.next) : ∃ cut', Front (log ++ [e]) b' cut' := by
  have sh := hs.shape hsort hlt
  cases hs with
  | @settle k n l v =>
      obtain ⟨hk, -⟩ := List.pairwise_cons.mp hsort
      refine ⟨k + 1, h.settle rfl (h.live_ge k List.mem_cons_self) ?_ (hlt k List.mem_cons_self) ?_⟩
      · intro j hj
        rcases List.mem_cons.mp hj with rfl | hj
        · exact Nat.le_refl _
        · exact (hk j hj).le
      · intro j
        simpa using sh.live j
  | @settleNew n v =>
      exact ⟨n + 1, h.settle rfl h.cut_le (by simp) (Nat.lt_succ_self n) (by simp)⟩
  | @revise k n l v hk =>
      have hcut := h.live_ge k hk
      refine ⟨cut, h.cut_le, h.live_ge, ?_, ?_⟩
      · rw [flatMap_range_latest_snoc hcut, h.below]; simp [settled]
      · intro j hj hl
        have hne : k ≠ j := by
          rintro rfl
          exact hl hk
        rw [latest_snoc_ne hne]
        exact h.above j hj hl
  | @start n l v =>
      refine ⟨cut, h.cut_le.trans (Nat.le_succ n), ?_, ?_, ?_⟩
      · intro j hj
        rcases List.mem_append.mp hj with hj | hj
        · exact h.live_ge j hj
        · rw [List.mem_singleton.mp hj]; exact h.cut_le
      · rw [flatMap_range_latest_snoc h.cut_le, h.below]; simp [settled]
      · intro j hj hl
        simp only [List.mem_append, List.mem_singleton, not_or] at hl
        rw [latest_snoc_ne (Ne.symm hl.2)]; exact h.above j hj hl.1
  | @retract k n l r =>
      have hcut := h.live_ge k (by simp)
      refine ⟨cut, h.cut_le, ?_, ?_, ?_⟩
      · intro j hj
        apply h.live_ge j
        rcases List.mem_append.mp hj with hj | hj <;> simp [hj]
      · rw [flatMap_range_latest_snoc hcut, h.below]; simp [settled]
      · intro j hj hl
        rcases eq_or_ne k j with he | he
        · rw [latest_snoc, if_pos he]
        · rw [latest_snoc_ne he]
          refine h.above j hj ?_
          intro hmem
          apply hl
          simp only [List.mem_append, List.mem_cons] at hmem ⊢
          tauto

theorem Written.front {n₀ : ℕ} {log : List (Entry α)} {b : Board} {lost : List ℕ}
    (h : Written n₀ log b lost) (hlost : lost = []) : ∃ cut, Front log b cut := by
  induction h with
  | nil => exact ⟨0, Nat.zero_le _, by simp, rfl, by simp⟩
  | snoc hw hs ih =>
      obtain ⟨cut, hc⟩ := ih hlost
      exact hc.step hs hw.kept.live_sorted fun k hk => hw.kept.live_lt hk
  | abandon hw ih =>
      -- nothing was lost, so nothing was open and the board is the same
      obtain ⟨hl, rfl⟩ := List.append_eq_nil_iff.mp hlost
      exact ih hl

/-- Sorted keys all at or above `m` and below `n` are met in this order by a walk from `m` to `n`. -/
theorem flatMap_range_live {f : ℕ → List α} {m n : ℕ} (hmn : m ≤ n) {l : List ℕ}
    (hs : l.Pairwise (· < ·)) (hge : ∀ k ∈ l, m ≤ k) (hlt : ∀ k ∈ l, k < n)
    (h : ∀ k, m ≤ k → k ∉ l → f k = []) :
    (List.range n).flatMap f = (List.range m).flatMap f ++ l.flatMap f := by
  induction l generalizing m with
  | nil => simpa using flatMap_range_of_empty hmn fun k hk _ => h k hk List.not_mem_nil
  | cons k l ih =>
      obtain ⟨hk, hl⟩ := List.pairwise_cons.mp hs
      have hgap : (List.range k).flatMap f = (List.range m).flatMap f := by
        refine flatMap_range_of_empty (hge k List.mem_cons_self) ?_
        intro j hj hlt
        refine h j hj ?_
        intro hmem
        rcases List.mem_cons.mp hmem with rfl | hmem
        · exact absurd hlt (Nat.lt_irrefl _)
        · exact absurd (hk j hmem) (by omega)
      rw [ih (m := k + 1) (hlt k List.mem_cons_self) hl hk
        (fun j hj => hlt j (List.mem_cons_of_mem _ hj)) (fun j hj hn => h j ?_ ?_),
        List.range_succ, List.flatMap_append, hgap]
      · simp
      · have := hge k List.mem_cons_self; omega
      · simp only [List.mem_cons, not_or]
        exact ⟨by omega, hn⟩

/-- **Order of keys is order of settlement.**  Read by increasing key, the journal shows everything
closed in the order it was closed, then the open keys, oldest first. -/
theorem Written.read_eq {n₀ : ℕ} {log : List (Entry α)} {b : Board} (h : Written n₀ log b []) :
    read log = settled log ++ b.live.flatMap (latest log) := by
  obtain ⟨cut, hc⟩ := h.front rfl
  have hk := h.kept
  rw [read_eq_range hk.below, flatMap_range_live hc.cut_le hk.live_sorted hc.live_ge
    (fun k hl => hk.live_lt hl) hc.above, hc.below]

end Journal
