import Agentd.AgentId

/-!
# The completed-event store

The store is a table of completed pairs `(agent_id, event_id)` with the time of completion; the
pair is the primary key, which the type carries as a field.  `markCompleted` is
`INSERT OR IGNORE`, so a repeated mark keeps the row and its first time, and `purgeExpired`
deletes the rows whose time lies strictly before the cutoff.  Times are seconds: the clock and the
retention are unsigned, the stored time is the clock cast to a signed integer.
-/

namespace Agentd

/-- The pair that identifies an event for one agent. -/
abbrev EventKey := AgentId × String

/-- A row of the table. -/
structure CompletedEvent where
  agentId : AgentId
  eventId : String
  completedAt : Int64
  deriving DecidableEq

/-- The primary key of a row. -/
def CompletedEvent.key (row : CompletedEvent) : EventKey := (row.agentId, row.eventId)

/-- The table of completed events. -/
structure DedupStore where
  /-- The rows. -/
  rows : List CompletedEvent
  /-- The primary key is unique. -/
  unique : (rows.map CompletedEvent.key).Nodup

namespace DedupStore

/-- A store without rows. -/
def empty : DedupStore := ⟨[], by simp⟩

/-- `DedupStore::is_completed`. -/
def isCompleted (s : DedupStore) (agent : AgentId) (event : String) : Bool :=
  s.rows.any fun row => row.key == (agent, event)

/-- A key that is not completed is the key of no row. -/
theorem key_not_mem {s : DedupStore} {agent : AgentId} {event : String}
    (h : ¬s.isCompleted agent event = true) :
    (agent, event) ∉ s.rows.map CompletedEvent.key := by
  intro hmem
  obtain ⟨row, hrow, hkey⟩ := List.mem_map.mp hmem
  exact h (List.any_eq_true.mpr ⟨row, hrow, by simpa using hkey⟩)

/-- `DedupStore::mark_completed` at the time `now`: insert, or ignore when the key has a row. -/
def markCompleted (s : DedupStore) (agent : AgentId) (event : String) (now : UInt64) :
    DedupStore :=
  if h : s.isCompleted agent event then s
  else
    { rows := s.rows ++ [⟨agent, event, now.toInt64⟩]
      unique := by
        rw [List.map_append, List.nodup_append]
        refine ⟨s.unique, by simp, ?_⟩
        intro k hk k' hk'
        rintro rfl
        obtain rfl : k = (agent, event) := by simpa [CompletedEvent.key] using hk'
        exact key_not_mem h hk }

/-- Subtraction that stops at zero. -/
def saturatingSub (a b : UInt64) : UInt64 := if b ≤ a then a - b else 0

/-- The time before which rows are expired. -/
def cutoff (now ttl : UInt64) : Int64 := (saturatingSub now ttl).toInt64

/-- `DedupStore::purge_expired` at the time `now`, with the number of rows deleted. -/
def purgeExpired (s : DedupStore) (now ttl : UInt64) : DedupStore × ℕ :=
  ({ rows := s.rows.filter fun row => !(row.completedAt < cutoff now ttl)
     unique := s.unique.sublist (List.filter_sublist.map _) },
   s.rows.countP fun row => row.completedAt < cutoff now ttl)

variable {s : DedupStore} {agent agent' : AgentId} {event event' : String} {now ttl : UInt64}

@[simp] theorem isCompleted_empty : empty.isCompleted agent event = false := rfl

/-- A key is completed after a mark when it was before, or when it is the key marked. -/
theorem isCompleted_markCompleted :
    (s.markCompleted agent event now).isCompleted agent' event' =
      (s.isCompleted agent' event' || decide ((agent, event) = (agent', event'))) := by
  unfold markCompleted
  split
  · rename_i h
    by_cases hk : (agent, event) = (agent', event')
    · obtain ⟨rfl, rfl⟩ := Prod.mk.inj hk
      simp [h]
    · simp [hk]
  · simp [isCompleted, CompletedEvent.key, Bool.beq_eq_decide_eq]

/-- A purge completes nothing. -/
theorem isCompleted_of_purgeExpired
    (h : (s.purgeExpired now ttl).1.isCompleted agent event = true) :
    s.isCompleted agent event = true := by
  obtain ⟨row, hrow, hkey⟩ := List.any_eq_true.mp h
  exact List.any_eq_true.mpr ⟨row, (List.mem_filter.mp hrow).1, hkey⟩

/-- A purge keeps the keys of an agent none of whose rows is expired. -/
theorem isCompleted_purgeExpired (h : ∀ row ∈ s.rows, row.agentId = agent →
    ¬row.completedAt < cutoff now ttl) :
    (s.purgeExpired now ttl).1.isCompleted agent event = s.isCompleted agent event := by
  rw [Bool.eq_iff_iff]
  refine ⟨isCompleted_of_purgeExpired, fun hdone => ?_⟩
  obtain ⟨row, hrow, hkey⟩ := List.any_eq_true.mp hdone
  have hagent : row.agentId = agent := congrArg Prod.fst (beq_iff_eq.mp hkey)
  have hkept : row ∈ (s.purgeExpired now ttl).1.rows :=
    List.mem_filter.mpr ⟨hrow, by simpa using h row hrow hagent⟩
  exact List.any_eq_true.mpr ⟨row, hkept, hkey⟩

end DedupStore

end Agentd
