import Agentd.Config
import Agentd.Dedup
import Agentd.Foundation.TransitionSystem
import Agentd.Registry.Memory

/-!
# How long a completion is remembered

The store is purged when it is opened, and may be purged at any time while it is open.  A purge
computes a cutoff from the clock and the retention with saturating unsigned arithmetic and compares
it with the signed times of the rows; `CompletedEvent.lt_cutoff_iff_expired` says that this is
exact.

`dedupSystem` is the store under any sequence of marks, purges and openings with one retention, and
`DedupRun` a run of it under a clock that does not go back.  A row with the time `r` outlives
every clock up to `r` plus the retention (`Keeps.until`).
-/

namespace Agentd

open TransitionSystem

namespace DedupStore

variable {s s' : DedupStore} {now ttl : UInt64}

/-- A store is determined by its rows. -/
theorem ext_rows (h : s.rows = s'.rows) : s = s' := by
  obtain ⟨rows, hunique⟩ := s
  obtain ⟨rows', hunique'⟩ := s'
  obtain rfl : rows = rows' := h
  rfl

/-! ## The arithmetic of a purge -/

theorem toNat_saturatingSub (a b : UInt64) : (saturatingSub a b).toNat = a.toNat - b.toNat := by
  unfold saturatingSub
  split
  · rename_i hle
    exact UInt64.toNat_sub_of_le _ _ hle
  · rename_i hlt
    have hle : a.toNat < b.toNat := UInt64.lt_iff_toNat_lt.mp (UInt64.not_le.mp hlt)
    rw [Nat.sub_eq_zero_of_le (by omega)]
    rfl

/-- A clock in the range of signed integers keeps its value as a time. -/
theorem toInt_toInt64 (h : now.toNat < 2 ^ 63) : now.toInt64.toInt = now.toNat := by
  have hbits : now.toBitVec.toNat = now.toNat := rfl
  change now.toBitVec.toInt = _
  rw [BitVec.toInt_eq_toNat_of_lt (by omega), hbits]

/-- The cutoff is the clock less the retention, or zero. -/
theorem toInt_cutoff (h : now.toNat < 2 ^ 63) :
    (cutoff now ttl).toInt = ((now.toNat - ttl.toNat : ℕ) : ℤ) := by
  unfold cutoff
  rw [toInt_toInt64, toNat_saturatingSub]
  rw [toNat_saturatingSub]
  omega

/-- A second purge at the same time finds nothing. -/
theorem purgeExpired_purgeExpired (s : DedupStore) (now ttl : UInt64) :
    (s.purgeExpired now ttl).1.purgeExpired now ttl = ((s.purgeExpired now ttl).1, 0) := by
  have hnone : ∀ row ∈ (s.purgeExpired now ttl).1.rows, ¬row.completedAt < cutoff now ttl := by
    intro row hrow
    simpa using (List.mem_filter.mp hrow).2
  refine Prod.ext ?_ ?_
  · refine DedupStore.ext_rows (List.filter_eq_self.mpr fun row hrow => ?_)
    simpa using hnone row hrow
  · exact List.countP_eq_zero.mpr fun row hrow => by simpa using hnone row hrow

end DedupStore

namespace CompletedEvent

/-- The row is older than the given number of days. -/
def Expired (row : CompletedEvent) (days now : ℕ) : Prop :=
  row.completedAt.toInt + days * 86400 < now

instance (row : CompletedEvent) (days now : ℕ) : Decidable (row.Expired days now) :=
  inferInstanceAs (Decidable (row.completedAt.toInt + days * 86400 < now))

variable {row : CompletedEvent} {now : UInt64}

/-- A row is before the cutoff when its time and the retention are together before the clock. -/
theorem lt_cutoff_iff (ttl : UInt64) (hrow : 0 ≤ row.completedAt.toInt)
    (hnow : now.toNat < 2 ^ 63) :
    row.completedAt < DedupStore.cutoff now ttl ↔
      row.completedAt.toInt + ttl.toNat < now.toNat := by
  rw [Int64.lt_iff_toInt_lt, DedupStore.toInt_cutoff hnow]
  omega

/-- With the configured retention, rows before the cutoff are those that have expired: the
saturations never show. -/
theorem lt_cutoff_iff_expired (config : FileConfig) (hrow : 0 ≤ row.completedAt.toInt)
    (hnow : now.toNat < 2 ^ 63) :
    row.completedAt < DedupStore.cutoff now config.dedupTtl.asSecs ↔
      row.Expired config.dedupTtlDays.toNat now.toNat := by
  rw [lt_cutoff_iff _ hrow hnow, config.toNat_asSecs_dedupTtl, Expired]
  push_cast
  omega

end CompletedEvent

/-- Purging with the configured retention deletes exactly the rows that have expired, answers with
their number and keeps the others; doing it again at the same time deletes nothing, and a longer
retention deletes no more. -/
theorem purgeExpired_exact (config : FileConfig) {s : DedupStore} {now : UInt64}
    (hrows : ∀ row ∈ s.rows, 0 ≤ row.completedAt.toInt) (hnow : now.toNat < 2 ^ 63) :
    (s.purgeExpired now config.dedupTtl.asSecs).1.rows =
        s.rows.filter (fun row => ¬row.Expired config.dedupTtlDays.toNat now.toNat) ∧
      (s.purgeExpired now config.dedupTtl.asSecs).2 =
        s.rows.countP (fun row => row.Expired config.dedupTtlDays.toNat now.toNat) ∧
      (s.purgeExpired now config.dedupTtl.asSecs).1.purgeExpired now config.dedupTtl.asSecs =
        ((s.purgeExpired now config.dedupTtl.asSecs).1, 0) ∧
      ∀ longer : FileConfig, config.dedupTtlDays ≤ longer.dedupTtlDays →
        (s.purgeExpired now longer.dedupTtl.asSecs).2 ≤
          (s.purgeExpired now config.dedupTtl.asSecs).2 := by
  have hcount : ∀ config : FileConfig, (s.purgeExpired now config.dedupTtl.asSecs).2 =
      s.rows.countP (fun row => row.Expired config.dedupTtlDays.toNat now.toNat) := by
    intro config
    refine List.countP_congr fun row hrow => ?_
    simpa using CompletedEvent.lt_cutoff_iff_expired config (hrows row hrow) hnow
  refine ⟨List.filter_congr fun row hrow => ?_, hcount config, ?_, fun longer hle => ?_⟩
  · simp [CompletedEvent.lt_cutoff_iff_expired config (hrows row hrow) hnow]
  · exact DedupStore.purgeExpired_purgeExpired s now config.dedupTtl.asSecs
  · rw [hcount, hcount]
    refine List.countP_mono_left fun row _ hexpired => ?_
    have hdays : config.dedupTtlDays.toNat ≤ longer.dedupTtlDays.toNat :=
      UInt64.le_iff_toNat_le.mp hle
    rw [decide_eq_true_eq] at hexpired ⊢
    unfold CompletedEvent.Expired at hexpired ⊢
    omega

/-- The store with the event `e`, completed at the epoch. -/
def Sample.completedAtEpoch : DedupStore := DedupStore.empty.markCompleted Sample.agent "e" 0

/-- The event `f` is completed one second later. -/
def Sample.completedTwice : DedupStore := completedAtEpoch.markCompleted Sample.agent "f" 1

/-- The default configuration with a retention of the given number of days. -/
def Sample.retaining (days : UInt64) : FileConfig :=
  { FileConfig.default with dedupTtlDays := days }

theorem purgeExpired_exact_oneDay :
    (∀ row ∈ Sample.completedTwice.rows, 0 ≤ row.completedAt.toInt) ∧
      (Sample.completedTwice.purgeExpired 86401 (Sample.retaining 1).dedupTtl.asSecs).1.rows =
        [⟨Sample.agent, "f", 1⟩] ∧
      (Sample.completedTwice.purgeExpired 86401 (Sample.retaining 1).dedupTtl.asSecs).2 = 1 := by
  have hrows : ∀ row ∈ Sample.completedTwice.rows, 0 ≤ row.completedAt.toInt := by decide +kernel
  obtain ⟨hkept, hcount, -, -⟩ :=
    purgeExpired_exact (Sample.retaining 1) hrows (show (86401 : UInt64).toNat < 2 ^ 63 by decide)
  exact ⟨hrows, hkept.trans (by decide +kernel), hcount.trans (by decide +kernel)⟩

/-! ## The store over time -/

/-- What happens to the store; a mark or a purge that fails changes nothing. -/
inductive DedupAction where
  /-- `DedupStore::mark_completed`. -/
  | mark (agent : AgentId) (event : String) (now : SystemTime)
  /-- `DedupStore::purge_expired`. -/
  | purge (now : SystemTime)
  /-- The daemon starts again: `DedupStore::open`. -/
  | reopen (now : SystemTime)

/-- When the action happens. -/
def DedupAction.time : DedupAction → ℤ
  | .mark _ _ now | .purge now | .reopen now => now.sinceEpoch

/-- `DedupStore::open` of a file with the given rows. -/
def DedupStore.reopen (s : DedupStore) (now ttl : UInt64) : DedupStore :=
  (s.purgeExpired now ttl).1

/-- The store with one retention. -/
def dedupSystem (ttl : Duration) : TransitionSystem DedupStore DedupAction where
  step s
    | .mark agent event now => some (s.markCompleted agent event now.unixNow)
    | .purge now => some (s.purgeExpired now.unixNow ttl.asSecs).1
    | .reopen now => some (s.reopen now.unixNow ttl.asSecs)

/-- The history of a store under a clock that does not go back. -/
abbrev DedupRun (ttl : Duration) (ok : DedupStore × ℤ → DedupAction → Prop)
    (s : DedupStore) (now : ℤ) (s' : DedupStore) (now' : ℤ) : Prop :=
  ((dedupSystem ttl).timed DedupAction.time).Run ok (s, now) (s', now')

namespace DedupStore

variable {s s' : DedupStore} {agent agent' : AgentId} {event event' : String} {r : ℤ}
  {now ttl : UInt64}

/-- The time stored for a key. -/
def completedAt? (s : DedupStore) (agent : AgentId) (event : String) : Option Int64 :=
  (s.rows.find? fun row => row.key == (agent, event)).map CompletedEvent.completedAt

/-- The key has a row with the time `r`. -/
def Keeps (s : DedupStore) (agent : AgentId) (event : String) (r : ℤ) : Prop :=
  ∃ row ∈ s.rows, row.key = (agent, event) ∧ row.completedAt.toInt = r

theorem Keeps.isCompleted (h : s.Keeps agent event r) : s.isCompleted agent event = true := by
  obtain ⟨row, hrow, hkey, -⟩ := h
  exact List.any_eq_true.mpr ⟨row, hrow, beq_iff_eq.mpr hkey⟩

/-- A mark keeps all rows. -/
theorem Keeps.markCompleted (h : s.Keeps agent event r) :
    (s.markCompleted agent' event' now).Keeps agent event r := by
  unfold DedupStore.markCompleted
  split
  · exact h
  · obtain ⟨row, hrow, hkey, htime⟩ := h
    exact ⟨row, List.mem_append_left _ hrow, hkey, htime⟩

/-- A purge keeps a row whose time and the retention together reach the clock. -/
theorem Keeps.purgeExpired (h : s.Keeps agent event r) (hr : 0 ≤ r) (hnow : now.toNat < 2 ^ 63)
    (hle : (now.toNat : ℤ) ≤ r + ttl.toNat) : (s.purgeExpired now ttl).1.Keeps agent event r := by
  obtain ⟨row, hrow, hkey, rfl⟩ := h
  refine ⟨row, List.mem_filter.mpr ⟨hrow, ?_⟩, hkey, rfl⟩
  have hiff := CompletedEvent.lt_cutoff_iff ttl hr hnow
  simp only [Bool.not_eq_true', decide_eq_false_iff_not, hiff]
  omega

/-- A row outlives every clock up to its time plus the retention. -/
theorem Keeps.until {ttl : Duration} {ok : DedupStore × ℤ → DedupAction → Prop} {c c' : ℤ}
    {now : SystemTime} (h : s.Keeps agent event r) (hr : 0 ≤ r) (hrun : DedupRun ttl ok s c s' c')
    (hc : c' ≤ now.sinceEpoch) (hle : (now.unixNow.toNat : ℤ) ≤ r + ttl.asSecs.toNat) :
    s'.Keeps agent event r := by
  refine hrun.invariant_until (I := fun s => s.Keeps agent event r) h ?_ hc
  intro s c a s' h _ _ htime hstep
  cases a with
  | mark agent' event' t =>
    obtain rfl := Option.some_inj.mp hstep
    exact h.markCompleted
  | purge t =>
    obtain rfl := Option.some_inj.mp hstep
    have hmono := SystemTime.toNat_unixNow_mono htime
    exact h.purgeExpired hr t.toNat_unixNow_lt (by omega)
  | reopen t =>
    obtain rfl := Option.some_inj.mp hstep
    have hmono := SystemTime.toNat_unixNow_mono htime
    exact h.purgeExpired hr t.toNat_unixNow_lt (by omega)

/-- A marked key has a row, with the time of the mark or with the time it was stored with. -/
theorem keeps_markCompleted (s : DedupStore) (agent : AgentId) (event : String) (now : UInt64) :
    (s.markCompleted agent event now).Keeps agent event
      ((s.completedAt? agent event).getD now.toInt64).toInt := by
  unfold DedupStore.markCompleted completedAt?
  split
  · rename_i hdone
    obtain ⟨row, hrow⟩ := Option.isSome_iff_exists.mp (List.find?_isSome.mpr
      (List.any_eq_true.mp hdone))
    have hkey := List.find?_some hrow
    rw [hrow]
    exact ⟨row, List.mem_of_find?_eq_some hrow, beq_iff_eq.mp hkey, rfl⟩
  · rename_i hdone
    have hnone : s.rows.find? (fun row => row.key == (agent, event)) = none := by
      refine List.find?_eq_none.mpr fun row hrow hkey => hdone ?_
      exact List.any_eq_true.mpr ⟨row, hrow, hkey⟩
    rw [hnone]
    exact ⟨_, List.mem_append_right _ (List.mem_singleton_self _), rfl, rfl⟩

/-- The rows of a key in a store with a history have times that its marks have. -/
theorem le_completedAt_of_run {ttl : Duration} {c c' : ℤ} {p : ℕ}
    {ok : DedupStore × ℤ → DedupAction → Prop}
    (hok : ∀ x now, ok x (.mark agent event now) → p ≤ now.unixNow.toNat)
    (hrun : DedupRun ttl ok .empty c s c') :
    ∀ row ∈ s.rows, row.key = (agent, event) → (p : ℤ) ≤ row.completedAt.toInt := by
  refine hrun.invariant (I := fun x => ∀ row ∈ x.1.rows, row.key = (agent, event) →
    (p : ℤ) ≤ row.completedAt.toInt) ?_ ?_
  · intro row hrow
    simp [empty] at hrow
  intro x a y h hguard hstep
  obtain ⟨-, hstep, -⟩ := step_timed hstep
  cases a with
  | mark agent' event' t =>
    rw [← Option.some_inj.mp hstep]
    unfold DedupStore.markCompleted
    split
    · exact h
    intro row hrow hkey
    rcases List.mem_append.mp hrow with hold | hnew
    · exact h row hold hkey
    obtain rfl := List.mem_singleton.mp hnew
    obtain ⟨rfl, rfl⟩ : agent' = agent ∧ event' = event := by
      simpa [CompletedEvent.key] using hkey
    have hp := hok x t hguard
    change _ ≤ t.unixNow.toInt64.toInt
    rw [toInt_toInt64 t.toNat_unixNow_lt]
    omega
  | purge t =>
    rw [← Option.some_inj.mp hstep]
    exact fun row hrow => h row (List.mem_filter.mp hrow).1
  | reopen t =>
    rw [← Option.some_inj.mp hstep]
    exact fun row hrow => h row (List.mem_filter.mp hrow).1

/-- The time stored for a key in a store with a history, or the time of a mark that now stores
it, is one that the marks of the key have. -/
theorem le_getD_completedAt? {ttl : Duration} {c c' : ℤ} {p : ℕ} {t : SystemTime}
    {agent : AgentId} {event : String}
    {ok : DedupStore × ℤ → DedupAction → Prop}
    (hok : ∀ x now, ok x (.mark agent event now) → p ≤ now.unixNow.toNat)
    (hrun : DedupRun ttl ok .empty c s c') (ht : p ≤ t.unixNow.toNat) :
    (p : ℤ) ≤ ((s.completedAt? agent event).getD t.unixNow.toInt64).toInt := by
  unfold completedAt?
  cases hfind : s.rows.find? fun row => row.key == (agent, event) with
  | none =>
    rw [Option.map_none, Option.getD_none, toInt_toInt64 t.toNat_unixNow_lt]
    omega
  | some row =>
    have hkey := List.find?_some hfind
    exact le_completedAt_of_run hok hrun row (List.mem_of_find?_eq_some hfind)
      (beq_iff_eq.mp hkey)

end DedupStore

/-! ## Marks and the retention -/

variable {ttl : Duration} {s s' : DedupStore} {agent : AgentId} {event : String}

/-- After a mark the event stays completed until its stored time plus the retention: that of this
mark, or that of an earlier one, which the mark keeps. -/
theorem isCompleted_until {c₀ c c' : ℤ} {t now : SystemTime}
    (hbefore : DedupRun ttl (fun _ _ => True) .empty c₀ s c)
    (hrun : DedupRun ttl (fun _ _ => True) (s.markCompleted agent event t.unixNow) t.sinceEpoch
      s' c')
    (hnow : c' ≤ now.sinceEpoch)
    (hle : (now.unixNow.toNat : ℤ) ≤
      ((s.completedAt? agent event).getD t.unixNow.toInt64).toInt + ttl.asSecs.toNat) :
    s'.isCompleted agent event = true := by
  have hkeeps := s.keeps_markCompleted agent event t.unixNow
  have hpos : ((0 : ℕ) : ℤ) ≤ ((s.completedAt? agent event).getD t.unixNow.toInt64).toInt :=
    DedupStore.le_getD_completedAt? (fun _ _ _ => Nat.zero_le _) hbefore (Nat.zero_le _)
  exact (hkeeps.until hpos hrun hnow hle).isCompleted

/-- The time the given number of seconds after the epoch. -/
def Sample.second (n : Int64) : SystemTime := ⟨n, ⟨0, Nat.succ_pos _⟩⟩

/-- A history is exhibited by its actions. -/
theorem exists_dedupRun (ttl : Duration) (s : DedupStore) (c : ℤ) (as : List DedupAction)
    (p : DedupStore × ℤ → Bool)
    (h : (((dedupSystem ttl).timed DedupAction.time).exec (fun _ _ => True) (s, c) as).any p =
      true) :
    ∃ s' c', DedupRun ttl (fun _ _ => True) s c s' c' ∧ p (s', c') = true := by
  obtain ⟨⟨s', c'⟩, hrun, hp⟩ := exists_run_of_exec ((dedupSystem ttl).timed DedupAction.time)
    (fun _ _ => True) (s, c) as p h
  exact ⟨s', c', hrun, hp⟩

/-- The event `e` is marked after five seconds and purged after ten. -/
def Sample.markAgain : List DedupAction :=
  [.mark Sample.agent "e" (second 5), .purge (second 10)]

theorem isCompleted_until_markAgain :
    ∃ s' c', DedupRun (.fromSecs 10) (fun _ _ => True)
        (DedupStore.empty.markCompleted Sample.agent "e" (Sample.second 0).unixNow)
        (Sample.second 0).sinceEpoch s' c' ∧
      c' = (Sample.second 10).sinceEpoch ∧ s'.isCompleted Sample.agent "e" = true := by
  obtain ⟨s', c', hrun, hc'⟩ := exists_dedupRun (.fromSecs 10)
    (DedupStore.empty.markCompleted Sample.agent "e" (Sample.second 0).unixNow)
    (Sample.second 0).sinceEpoch Sample.markAgain
    (fun x => x.2 == (Sample.second 10).sinceEpoch) (by decide +kernel)
  have hc' : c' = (Sample.second 10).sinceEpoch := beq_iff_eq.mp hc'
  have hempty : DedupRun (.fromSecs 10) (fun _ _ => True) .empty 0 .empty 0 := .refl
  exact ⟨s', c', hrun, hc', isCompleted_until hempty hrun hc'.le (by decide +kernel)⟩

/-- A repeated mark keeps the time of the first one: a purge deletes the row when the retention has
passed since then. -/
theorem purged_within_ttl_of_mark :
    ¬∀ (ttl : Duration) (s s' : DedupStore) (agent : AgentId) (event : String) (c₀ c c' : ℤ)
        (t now : SystemTime), DedupRun ttl (fun _ _ => True) .empty c₀ s c → c ≤ t.sinceEpoch →
      DedupRun ttl (fun _ _ => True) (s.markCompleted agent event t.unixNow) t.sinceEpoch s' c' →
      c' ≤ now.sinceEpoch → now.sinceEpoch ≤ t.sinceEpoch + ttl.asNanos →
        s'.isCompleted agent event = true := by
  intro h
  obtain ⟨s, c, hbefore, hs⟩ := exists_dedupRun (.fromSecs 10) .empty 0
    [.mark Sample.agent "e" (Sample.second 0)]
    (fun x => x.1.rows == Sample.completedAtEpoch.rows && x.2 == 0) (by decide +kernel)
  simp only [Bool.and_eq_true, beq_iff_eq] at hs
  obtain ⟨s', c', hrun, hs'⟩ := exists_dedupRun (.fromSecs 10)
    (Sample.completedAtEpoch.markCompleted Sample.agent "e" (Sample.second 5).unixNow)
    (Sample.second 5).sinceEpoch [.purge (Sample.second 11)]
    (fun x => !x.1.isCompleted Sample.agent "e" && x.2 == (Sample.second 11).sinceEpoch)
    (by decide +kernel)
  simp only [Bool.and_eq_true, Bool.not_eq_true', beq_iff_eq] at hs'
  obtain rfl : s = Sample.completedAtEpoch := DedupStore.ext_rows hs.1
  have hle : c ≤ (Sample.second 5).sinceEpoch := hs.2 ▸ by decide +kernel
  have := h (.fromSecs 10) _ s' Sample.agent "e" 0 c c' (Sample.second 5) (Sample.second 11)
    hbefore hle hrun hs'.2.le (by decide +kernel)
  rw [hs'.1] at this
  cases this

/-! ## The retention and the stream -/

namespace FileConfig

/-- An event is published at the time `p` and marked at the time `t`, in the store `s`.  It is
completed for as long as the stream can hold its message, whatever marks, purges and restarts
follow. -/
def Remembers (config : FileConfig) (agent : AgentId) (event : String) (p t : SystemTime)
    (s : DedupStore) : Prop :=
  ∀ (now : SystemTime) (s' : DedupStore) (c' : ℤ),
    DedupRun config.dedupTtl (fun _ _ => True) (s.markCompleted agent event t.unixNow)
      t.sinceEpoch s' c' →
    c' ≤ now.sinceEpoch → now.sinceEpoch ≤ p.sinceEpoch + (ensureStream config).maxAge.asNanos →
      s'.isCompleted agent event = true

/-- With whatever history of the store, an event that was published and then marked is completed for
as long as the stream can hold its message. -/
def DedupOutlivesStream (config : FileConfig) : Prop :=
  ∀ (agent : AgentId) (event : String) (p t : SystemTime) (s : DedupStore) (c₀ c : ℤ),
    DedupRun config.dedupTtl (fun _ _ => True) .empty c₀ s c →
    c ≤ t.sinceEpoch → p.sinceEpoch ≤ t.sinceEpoch → config.Remembers agent event p t s

end FileConfig

/-- The seconds for which the stream holds a message. -/
def streamSecs : ℕ := 604800

theorem asNanos_maxAge (config : FileConfig) :
    (ensureStream config).maxAge.asNanos = (streamSecs : ℤ) * nanosPerSec := by
  change (Duration.fromSecs (7 * 24 * 3600)).asNanos = _
  decide +kernel

/-- The time that is stored for an event once it is marked at the time `t`: the one of an earlier
mark whose row is still there, or `t`. -/
def DedupStore.storedAt (s : DedupStore) (agent : AgentId) (event : String) (t : SystemTime) : ℤ :=
  ((s.completedAt? agent event).getD t.unixNow.toInt64).toInt

/-- The retention, counted from the time stored, reaches to the end of the days that the stream
holds the message; if the mark comes after that end, there is nothing to reach. -/
def FileConfig.Reaches (config : FileConfig) (agent : AgentId) (event : String) (p t : SystemTime)
    (s : DedupStore) : Prop :=
  t.sinceEpoch ≤ p.sinceEpoch + (streamSecs : ℤ) * nanosPerSec →
    (p.readingAfter streamSecs : ℤ) ≤ s.storedAt agent event t + config.dedupTtlDays.toNat * 86400

/-- A mark of the event is not before the given time. -/
def DedupAction.MarksFrom (agent : AgentId) (event : String) (p : SystemTime) :
    DedupAction → Prop
  | .mark agent' event' now => agent' = agent → event' = event → p.sinceEpoch ≤ now.sinceEpoch
  | _ => True

namespace FileConfig

variable {config : FileConfig} {p t : SystemTime} {c₀ c : ℤ}

/-- A purge at the given time that leaves the event completed has not found its row expired. -/
theorem le_storedAt_of_purgeExpired {now : SystemTime} (hpos : 0 ≤ s.storedAt agent event t)
    (h : ((s.markCompleted agent event t.unixNow).purgeExpired now.unixNow
      config.dedupTtl.asSecs).1.isCompleted agent event = true) :
    (now.unixNow.toNat : ℤ) ≤ s.storedAt agent event t + config.dedupTtlDays.toNat * 86400 := by
  obtain ⟨row, hrow, hkey⟩ := List.any_eq_true.mp h
  obtain ⟨hmem, hkept⟩ := List.mem_filter.mp hrow
  obtain ⟨row', hrow', hkey', htime⟩ := s.keeps_markCompleted agent event t.unixNow
  -- the key has one row
  obtain rfl : row = row' := List.inj_on_of_nodup_map (s.markCompleted agent event t.unixNow).unique
    hmem hrow' ((beq_iff_eq.mp hkey).trans hkey'.symm)
  have htime : row.completedAt.toInt = s.storedAt agent event t := htime
  have hexpired := CompletedEvent.lt_cutoff_iff_expired config (htime ▸ hpos) now.toNat_unixNow_lt
  simp only [Bool.not_eq_true', decide_eq_false_iff_not, hexpired, CompletedEvent.Expired,
    htime] at hkept
  omega

/-- An event is remembered exactly if the retention, counted from the time stored for it, reaches to
the end of the days that the stream holds its message. -/
theorem remembers_iff (hbefore : DedupRun config.dedupTtl (fun _ _ => True) .empty c₀ s c) :
    config.Remembers agent event p t s ↔ config.Reaches agent event p t s := by
  have hpos : ((0 : ℕ) : ℤ) ≤ s.storedAt agent event t :=
    DedupStore.le_getD_completedAt? (fun _ _ _ => Nat.zero_le _) hbefore (Nat.zero_le _)
  constructor
  · intro h ht
    -- the daemon is opened again when the stream drops the message
    obtain ⟨now, htnow, hnow, hreading⟩ := SystemTime.exists_readingAfter ht
    have hopen : ((dedupSystem config.dedupTtl).timed DedupAction.time).step
        (s.markCompleted agent event t.unixNow, t.sinceEpoch) (.reopen now) =
        some ((s.markCompleted agent event t.unixNow).reopen now.unixNow config.dedupTtl.asSecs,
          now.sinceEpoch) := timed_step htnow rfl
    have hdone := h now _ _ (.tail .refl trivial hopen) le_rfl (by rw [asNanos_maxAge]; exact hnow)
    rw [← hreading]
    exact le_storedAt_of_purgeExpired hpos hdone
  · intro h now s' c' hrun hc' hnow
    rw [asNanos_maxAge] at hnow
    have hclock : t.sinceEpoch ≤ c' := by
      refine hrun.invariant (I := fun x => t.sinceEpoch ≤ x.2) le_rfl fun x a y hx _ hstep => ?_
      obtain ⟨hle, -, heq⟩ := step_timed hstep
      exact heq ▸ hx.trans hle
    have hreading := SystemTime.toNat_unixNow_le_readingAfter hnow
    have hreach := h (by omega)
    have hsecs := config.toNat_asSecs_dedupTtl
    have hlast := now.toNat_unixNow_lt
    refine ((s.keeps_markCompleted agent event t.unixNow).until hpos hrun hc' ?_).isCompleted
    change _ ≤ s.storedAt agent event t + _
    omega

/-- When no mark of the event is before its publication, a retention of seven days reaches. -/
theorem reaches_of_marksFrom (hdays : 7 ≤ config.dedupTtlDays.toNat)
    (hbefore : DedupRun config.dedupTtl (fun _ a => a.MarksFrom agent event p) .empty c₀ s c)
    (hpt : p.sinceEpoch ≤ t.sinceEpoch) : config.Reaches agent event p t s := by
  intro _
  have hfirst : (p.unixNow.toNat : ℤ) ≤ s.storedAt agent event t :=
    DedupStore.le_getD_completedAt?
      (fun _ now hmark => SystemTime.toNat_unixNow_mono (hmark rfl rfl)) hbefore
      (SystemTime.toNat_unixNow_mono hpt)
  have hend := p.readingAfter_le streamSecs
  simp only [streamSecs] at hend ⊢
  omega

/-- An event that is published and marked at the epoch is forgotten with a shorter retention. -/
theorem not_remembers (hdays : config.dedupTtlDays.toNat < 7) :
    ¬config.Remembers Sample.agent "e" (Sample.second 0) (Sample.second 0) .empty := by
  rw [remembers_iff (c := 0) .refl]
  intro h
  have hend : (Sample.second 0).readingAfter streamSecs = 604800 := by decide +kernel
  have hstored : DedupStore.empty.storedAt Sample.agent "e" (Sample.second 0) = 0 := by
    decide +kernel
  have hreach := h (by decide +kernel)
  rw [hend, hstored] at hreach
  omega

end FileConfig

/-- For every history of the store, an event that was published at `p` and marked at `t` is
recognised for as long as the stream can replay it exactly if the retention, counted from the time
stored for it, reaches to the end of the stream's seven days.  The time stored is `t`, unless the
row of an earlier mark was still there; so for the events that are not marked before they are
published, all are recognised exactly if the retention is at least seven days. -/
theorem dedupOutlivesStream_iff (config : FileConfig) :
    (∀ (agent : AgentId) (event : String) (p t : SystemTime) (s : DedupStore) (c₀ c : ℤ),
      DedupRun config.dedupTtl (fun _ _ => True) .empty c₀ s c →
      c ≤ t.sinceEpoch → p.sinceEpoch ≤ t.sinceEpoch →
        (config.Remembers agent event p t s ↔ config.Reaches agent event p t s)) ∧
    ((∀ (agent : AgentId) (event : String) (p t : SystemTime) (s : DedupStore) (c₀ c : ℤ),
      DedupRun config.dedupTtl (fun _ a => a.MarksFrom agent event p) .empty c₀ s c →
      c ≤ t.sinceEpoch → p.sinceEpoch ≤ t.sinceEpoch → config.Remembers agent event p t s) ↔
        7 ≤ config.dedupTtlDays.toNat) := by
  refine ⟨fun _ _ _ _ _ _ _ hbefore _ _ => FileConfig.remembers_iff hbefore, fun h => ?_, ?_⟩
  · by_contra hlt
    exact FileConfig.not_remembers (by omega) (h _ _ _ _ _ _ 0 .refl (by decide +kernel) le_rfl)
  · intro hdays agent event p t s c₀ c hbefore _ hpt
    rw [FileConfig.remembers_iff (hbefore.mono fun _ _ _ => trivial)]
    exact FileConfig.reaches_of_marksFrom hdays hbefore hpt

/-- The configuration file with the retention of a day. -/
def Sample.oneDayFile : String := "dedup_ttl_days = 1"

/-- A configuration that keeps completions for a day is accepted. -/
theorem retention_shorter_than_stream :
    ¬∀ (fromStr : String → Except String FileConfig) (path : String)
        (readToString : Except String String) (config : FileConfig),
      FileConfig.load fromStr path readToString = .ok config → config.DedupOutlivesStream := by
  intro h
  have houtlives : (Sample.retaining 1).DedupOutlivesStream :=
    h (fun raw => if raw = Sample.oneDayFile then .ok (Sample.retaining 1) else .error "")
      "agentd.toml" (.ok Sample.oneDayFile) _ (by rfl)
  have hday : (Sample.retaining 1).dedupTtlDays.toNat < 7 := by decide
  exact FileConfig.not_remembers hday (houtlives _ _ _ _ _ _ 0 .refl (by decide +kernel) le_rfl)

end Agentd
