import Agentd.Dispatcher.InFlight
import Agentd.Foundation.Pipe

/-!
# The input of a handler

A dispatch spawns a task that writes the event to the standard input of the handler, waits for the
handler to exit, and then aborts the writer.  Between the writer and the handler is a pipe of
bounded capacity, whose read end a descendant of the handler may keep open.

`pipedSystem` is the dispatcher with the pipes of its handlers: the writer, the handler and its
descendants make their steps beside those of the dispatches.  The writer is only aborted when the
handler has exited, so a handler that reads to the end of its input has read all of it (`Fed`); and
a dispatch never waits for the writer.
-/

namespace Agentd

open TransitionSystem TaskPool

variable {C : DispatcherConfig} {capacity : ℕ → ℕ+} {raw : List UInt8} {t : ℕ}

/-! ## A handler and its writer -/

/-- The position of the task that `spawn_stdin_writer` spawns. -/
inductive WriterStage where
  /-- In `write_all`. -/
  | writing
  /-- Shut the pipe down. -/
  | closing
  /-- The task is gone, and the write end of the pipe with it. -/
  | ended
  deriving DecidableEq

/-- A handler that was spawned, with the pipe to its standard input. -/
structure Handler where
  transfer : Transfer UInt8
  writer : WriterStage
  /-- `write_task.abort()` was called. -/
  aborted : Bool
  /-- The handler has its read end of the pipe. -/
  stdinOpen : Bool
  /-- How many descendants keep a read end of the pipe. -/
  descendants : ℕ
  /-- A read has returned the end of the file. -/
  sawEnd : Bool
  exited : Option ExitStatus

/-- A step of the writer, of the handler or of a descendant. -/
inductive HandlerMove where
  /-- The writer writes `k` bytes. -/
  | write (k : ℕ)
  /-- The writer has written everything. -/
  | written
  /-- A write fails since nobody can read any more. -/
  | brokenPipe
  /-- The writer closes its end and is done. -/
  | close
  /-- The runtime drops the aborted writer. -/
  | drop
  /-- The handler reads up to `n` bytes. -/
  | read (n : ℕ)
  /-- The handler closes its standard input. -/
  | closeStdin
  /-- A descendant inherits the read end. -/
  | inherit
  /-- A descendant closes the read end. -/
  | disinherit
  | exit (status : ExitStatus)

namespace Handler

/-- A handler that has just been spawned, and the writer with it. -/
def spawned (capacity : ℕ+) (raw : List UInt8) : Handler where
  transfer := .start capacity raw
  writer := .writing
  aborted := false
  stdinOpen := true
  descendants := 0
  sawEnd := false
  exited := none

/-- Someone has the read end of the pipe. -/
def hasReader (h : Handler) : Bool := h.stdinOpen || 0 < h.descendants

/-- One step of the writer, of the handler or of a descendant.  A write waits while the pipe is full
and has a reader, a read while it is empty and has a writer. -/
def step (h : Handler) : HandlerMove → Option Handler
  | .write k =>
    if h.writer = .writing ∧ h.hasReader then
      (h.transfer.send k).map fun transfer => { h with transfer }
    else none
  | .written =>
    if h.writer = .writing ∧ h.transfer.unwritten = [] then some { h with writer := .closing }
    else none
  | .brokenPipe =>
    if h.writer = .writing ∧ h.transfer.unwritten ≠ [] ∧ ¬h.hasReader then
      some { h with writer := .closing }
    else none
  | .close => if h.writer = .closing then some { h with writer := .ended } else none
  | .drop => if h.aborted then some { h with writer := .ended } else none
  | .read n =>
    if h.stdinOpen ∧ 0 < n then
      if h.transfer.pipe.buffer = [] ∧ h.writer = .ended then some { h with sawEnd := true }
      else (h.transfer.receive n).map fun transfer => { h with transfer }
    else none
  | .closeStdin => if h.stdinOpen then some { h with stdinOpen := false } else none
  | .inherit => if h.hasReader then some { h with descendants := h.descendants + 1 } else none
  | .disinherit =>
    if 0 < h.descendants then some { h with descendants := h.descendants - 1 } else none
  | .exit status =>
    if h.exited = none then some { h with exited := some status, stdinOpen := false } else none

/-- `write_task.abort()`. -/
def abort (h : Handler) : Handler := { h with aborted := true }

/-- What holds of a handler that was spawned for the bytes `raw`. -/
structure Fed (raw : List UInt8) (h : Handler) : Prop where
  stream : h.transfer.stream = raw
  /-- A writer that is done has written everything, unless the handler cannot read any more. -/
  written : h.writer ≠ .writing → h.stdinOpen = true → h.transfer.unwritten = []
  gone : h.exited.isSome = true → h.stdinOpen = false
  aborted : h.aborted = true → h.exited.isSome = true
  atEnd : h.sawEnd = true → h.transfer.received = raw

namespace Fed

variable {h h' : Handler} {m : HandlerMove}

theorem spawned (capacity : ℕ+) (raw : List UInt8) : Fed raw (.spawned capacity raw) where
  stream := rfl
  written hdone := absurd rfl hdone
  gone := nofun
  aborted := nofun
  atEnd := nofun

/-- The writer is aborted when the handler has exited. -/
theorem abort (hfed : Fed raw h) (hexited : h.exited.isSome = true) : Fed raw h.abort where
  stream := hfed.stream
  written := hfed.written
  gone := hfed.gone
  aborted _ := hexited
  atEnd := hfed.atEnd

/-- A handler that has seen the end of its input receives nothing more. -/
theorem received_of_receive (hfed : Fed raw h) {n : ℕ} {transfer : Transfer UInt8}
    (hreceive : h.transfer.receive n = some transfer) (hend : h.sawEnd = true) :
    transfer.received = raw := by
  have hbuffer : h.transfer.pipe.buffer = [] := by
    have hstream := hfed.stream
    rw [Transfer.stream, hfed.atEnd hend, List.append_assoc] at hstream
    exact (List.append_eq_nil_iff.mp (List.append_right_eq_self.mp hstream)).1
  obtain ⟨hreceived, -, -⟩ := Transfer.receive_eq_some hreceive
  rw [hreceived, hbuffer, List.take_nil, List.append_nil]
  exact hfed.atEnd hend

/-- Every step of the writer, the handler or a descendant keeps this. -/
theorem step (hfed : Fed raw h) (hstep : h.step m = some h') : Fed raw h' := by
  cases m with
  | write k =>
    simp only [Handler.step] at hstep
    split at hstep
    · rename_i hwriting
      obtain ⟨transfer, hsend, rfl⟩ := Option.map_eq_some_iff.mp hstep
      refine ⟨(Transfer.stream_send hsend).trans hfed.stream, ?_, hfed.gone, hfed.aborted, ?_⟩
      · exact fun hdone => absurd hwriting.1 hdone
      · intro hend
        exact (Transfer.send_eq_some hsend).1.trans (hfed.atEnd hend)
    · cases hstep
  | written =>
    simp only [Handler.step] at hstep
    split at hstep
    · rename_i hall
      cases hstep
      exact ⟨hfed.stream, fun _ _ => hall.2, hfed.gone, hfed.aborted, hfed.atEnd⟩
    · cases hstep
  | brokenPipe =>
    simp only [Handler.step] at hstep
    split at hstep
    · rename_i hbroken
      cases hstep
      refine ⟨hfed.stream, fun _ hopen => ?_, hfed.gone, hfed.aborted, hfed.atEnd⟩
      -- the handler would be a reader
      change h.stdinOpen = true at hopen
      exact absurd (by simp [Handler.hasReader, hopen]) hbroken.2.2
    · cases hstep
  | close =>
    simp only [Handler.step] at hstep
    split at hstep
    · rename_i hclosing
      cases hstep
      refine ⟨hfed.stream, fun _ => hfed.written ?_, hfed.gone, hfed.aborted, hfed.atEnd⟩
      rw [hclosing]
      nofun
    · cases hstep
  | drop =>
    simp only [Handler.step] at hstep
    split at hstep
    · rename_i haborted
      cases hstep
      refine ⟨hfed.stream, fun _ hopen => ?_, hfed.gone, hfed.aborted, hfed.atEnd⟩
      -- the writer is aborted only when the handler has exited
      change h.stdinOpen = true at hopen
      rw [hfed.gone (hfed.aborted haborted)] at hopen
      cases hopen
    · cases hstep
  | read n =>
    simp only [Handler.step] at hstep
    split at hstep
    · rename_i hopen
      split at hstep
      · rename_i hdrained
        cases hstep
        refine ⟨hfed.stream, hfed.written, hfed.gone, hfed.aborted, fun _ => ?_⟩
        have hwritten := hfed.written (by rw [hdrained.2]; nofun) hopen.1
        exact (Transfer.received_eq hdrained.1 hwritten).trans hfed.stream
      · obtain ⟨transfer, hreceive, rfl⟩ := Option.map_eq_some_iff.mp hstep
        obtain ⟨-, -, hunwritten⟩ := Transfer.receive_eq_some hreceive
        refine ⟨(Transfer.stream_receive hreceive).trans hfed.stream, ?_, hfed.gone, hfed.aborted,
          hfed.received_of_receive hreceive⟩
        exact fun hdone hopen => hunwritten.trans (hfed.written hdone hopen)
    · cases hstep
  | closeStdin =>
    simp only [Handler.step] at hstep
    split at hstep
    · cases hstep
      exact ⟨hfed.stream, fun _ => nofun, fun _ => rfl, hfed.aborted, hfed.atEnd⟩
    · cases hstep
  | inherit | disinherit =>
    simp only [Handler.step] at hstep
    split at hstep
    · cases hstep
      exact ⟨hfed.stream, hfed.written, hfed.gone, hfed.aborted, hfed.atEnd⟩
    · cases hstep
  | exit status =>
    simp only [Handler.step] at hstep
    split at hstep
    · cases hstep
      exact ⟨hfed.stream, fun _ => nofun, fun _ => rfl, fun _ => rfl, hfed.atEnd⟩
    · cases hstep

end Fed

end Handler

/-! ## Reading to the end -/

/-- What the writer and a handler that reads do. -/
def HandlerMove.feeds : HandlerMove → Bool
  | .write _ | .written | .close | .read _ => true
  | _ => false

/-- How many steps away the writer is from its end. -/
def WriterStage.remaining : WriterStage → ℕ
  | .writing => 2
  | .closing => 1
  | .ended => 0

namespace Handler

/-- How far a handler that reads is from the end of its input. -/
def toEnd (h : Handler) : ℕ :=
  if h.sawEnd then 0
  else 2 * h.transfer.unwritten.length + h.transfer.pipe.buffer.length + h.writer.remaining + 1

/-- A handler that can read gets nearer to the end of its input, by a read or by a step of the
writer. -/
theorem exists_step_toEnd {h : Handler} (hopen : h.stdinOpen = true) (hpos : 0 < h.toEnd) :
    ∃ m h', m.feeds = true ∧ h.step m = some h' ∧ h'.stdinOpen = true ∧ h'.toEnd < h.toEnd := by
  have hend : h.sawEnd = false := by
    by_contra hend
    rw [Bool.not_eq_false] at hend
    simp [toEnd, hend] at hpos
  by_cases hbuffer : h.transfer.pipe.buffer = []
  · cases hwriter : h.writer with
    | writing =>
      by_cases hunwritten : h.transfer.unwritten = []
      · refine ⟨.written, { h with writer := .closing }, rfl, ?_, hopen, ?_⟩
        · simp [step, hwriter, hunwritten]
        · simp [toEnd, hend, hwriter, WriterStage.remaining]
      · obtain ⟨transfer, hsend⟩ := Transfer.exists_send hbuffer hunwritten
        obtain ⟨-, hbuffer', hunwritten'⟩ := Transfer.send_eq_some hsend
        have hlen := List.length_pos_iff.mpr hunwritten
        refine ⟨.write 1, { h with transfer }, rfl, ?_, hopen, ?_⟩
        · simp [step, hwriter, hasReader, hopen, hsend]
        · simp only [toEnd, hend, hbuffer', hunwritten', hbuffer, List.length_append,
            List.length_take, List.length_drop, List.length_nil, Bool.false_eq_true, if_false]
          omega
    | closing =>
      refine ⟨.close, { h with writer := .ended }, rfl, ?_, hopen, ?_⟩
      · simp [step, hwriter]
      · simp [toEnd, hend, hwriter, WriterStage.remaining]
    | ended =>
      refine ⟨.read 1, { h with sawEnd := true }, rfl, ?_, hopen, ?_⟩
      · simp [step, hopen, hbuffer, hwriter]
      · simpa [toEnd] using hpos
  · obtain ⟨transfer, hreceive⟩ := Transfer.exists_receive hbuffer
    obtain ⟨-, hbuffer', hunwritten'⟩ := Transfer.receive_eq_some hreceive
    have hlen := List.length_pos_iff.mpr hbuffer
    refine ⟨.read 1, { h with transfer }, rfl, ?_, hopen, ?_⟩
    · simp [step, hopen, hbuffer, hreceive]
    · simp only [toEnd, hend, hbuffer', hunwritten', List.length_drop, Bool.false_eq_true, if_false]
      omega

end Handler

/-! ## The dispatcher with its handlers -/

/-- The dispatcher with the handlers of its dispatches. -/
structure Piped where
  world : World
  handlers : ℕ → Option Handler

/-- An action of the dispatcher, or a step of the handler of the dispatch `t` or its writer. -/
inductive PipedAction where
  | act (a : Action)
  | move (t : ℕ) (m : HandlerMove)

namespace Piped

/-- What a dispatch does to its handler at a poll: the spawn makes it, and the wait ends when it has
exited and then aborts the writer. -/
def attend (capacity : ℕ → ℕ+) (S : Piped) (t : ℕ) (o : Outcome) (task : Task) :
    Option (Outcome × (ℕ → Option Handler)) :=
  match task.stage with
  | .slot _ _ .spawn =>
    if o.spawnFails then some (o, S.handlers)
    else some (o, Function.update S.handlers t
      (some (.spawned (capacity t) task.delivery.raw)))
  | .slot _ _ .wait => do
    let h ← S.handlers t
    let status ← h.exited
    return ({ o with wait := o.wait.map fun _ => status },
      Function.update S.handlers t (some h.abort))
  | _ => some (o, S.handlers)

/-- One action of the dispatcher, a handler or a writer. -/
def step (C : DispatcherConfig) (capacity : ℕ → ℕ+) (S : Piped) : PipedAction → Option Piped
  | .act (.poll t o) => do
    let task ← S.world.tasks[t]?
    let (o, handlers) ← S.attend capacity t o task
    let world ← S.world.step C (.poll t o)
    return { world, handlers }
  | .act a => (S.world.step C a).map fun world => { S with world }
  | .move t m => do
    let h ← S.handlers t
    let h' ← h.step m
    return { S with handlers := Function.update S.handlers t (some h') }

/-- A dispatcher that has just started. -/
def start (registry : Registry) (dedup : DedupStore) : Piped where
  world := .start registry dedup
  handlers := fun _ => none

end Piped

/-- The dispatcher, the handlers and the writers under every interleaving.  The pipe of the dispatch
`t` has the capacity `capacity t`. -/
def pipedSystem (C : DispatcherConfig) (capacity : ℕ → ℕ+) :
    TransitionSystem Piped PipedAction where
  step := Piped.step C capacity

/-- A run without a crash. -/
def PipedAction.OneLifetime : PipedAction → Prop
  | .act a => a.OneLifetime
  | .move .. => True

instance : DecidablePred PipedAction.OneLifetime
  | .act a => inferInstanceAs (Decidable a.OneLifetime)
  | .move .. => inferInstanceAs (Decidable True)

/-- The handler was spawned, so that what is left to do only waits for its exit. -/
def Stage.handed : Stage → Bool
  | .slot _ _ .wait | .slot _ _ .mark | .slot _ _ .remove | .slot _ _ .ack | .slot _ _ .release
  | .finished => true
  | _ => false

/-- A dispatch that has spawned its handler goes on to its return. -/
theorem Polls.handed {D D' : Dispatcher} {d : Delivery} {o : Outcome} {s s' : Stage}
    {effects : List Effect} (h : Polls C D d o s D' s' effects) (hs : s.handed = true) :
    s'.handed = true := by
  cases h with
  | exit | mark | markFail | remove | ack | release => rfl
  | _ => cases hs

namespace Piped

variable {S S' : Piped} {o o' : Outcome} {handlers : ℕ → Option Handler}

/-- A poll leaves the handlers alone, or it is a spawn or the end of a wait. -/
theorem attend_cases {d : Delivery} {s : Stage}
    (h : S.attend capacity t o ⟨d, s⟩ = some (o', handlers)) :
    handlers = S.handlers ∨
      (∃ job permits, s = .slot job permits .spawn ∧ o' = o ∧ o.spawnFails = false ∧
        handlers = Function.update S.handlers t (some (.spawned (capacity t) d.raw))) ∨
      ∃ h, S.handlers t = some h ∧ h.exited.isSome = true ∧
        handlers = Function.update S.handlers t (some h.abort) := by
  unfold attend at h
  split at h
  · rename_i job permits heq
    obtain rfl : s = .slot job permits .spawn := heq
    split at h
    · cases h
      exact .inl rfl
    · rename_i hspawn
      cases h
      exact .inr (.inl ⟨job, permits, rfl, rfl, by simpa using hspawn, rfl⟩)
  · simp only [Option.bind_eq_bind, Option.bind_eq_some_iff] at h
    obtain ⟨h₁, hhandler, status, hexited, heq⟩ := h
    cases heq
    exact .inr (.inr ⟨h₁, hhandler, by rw [hexited]; rfl, rfl⟩)
  · cases h
    exact .inl rfl

/-- A poll of a dispatch, with what it does to its handler. -/
theorem step_poll (h : (pipedSystem C capacity).step S (.act (.poll t o)) = some S') :
    ∃ d s o' handlers D' s' effects, S.world.tasks[t]? = some ⟨d, s⟩ ∧
      S.attend capacity t o ⟨d, s⟩ = some (o', handlers) ∧
      Polls C S.world.dispatcher d o' s D' s' effects ∧
      S' = { world := S.world.commit t ⟨d, s⟩ D' s' effects, handlers } := by
  simp only [pipedSystem, step, Option.bind_eq_bind, Option.bind_eq_some_iff] at h
  obtain ⟨task, htask, ⟨o', handlers⟩, hattend, world, hworld, heq⟩ := h
  obtain ⟨d, s, D', s', effects, htask', hpolls, rfl⟩ := World.step_poll hworld
  obtain rfl : task = ⟨d, s⟩ := Option.some_inj.mp (htask.symm.trans htask')
  exact ⟨d, s, o', handlers, D', s', effects, htask, hattend, hpolls, by simpa using heq.symm⟩

/-- A step of a handler or its writer. -/
theorem step_move {m : HandlerMove}
    (h : (pipedSystem C capacity).step S (.move t m) = some S') :
    ∃ h h', S.handlers t = some h ∧ h.step m = some h' ∧
      S' = { S with handlers := Function.update S.handlers t (some h') } := by
  simp only [pipedSystem, step, Option.bind_eq_bind, Option.bind_eq_some_iff] at h
  obtain ⟨h₁, hhandler, h', hmove, heq⟩ := h
  exact ⟨h₁, h', hhandler, hmove, by simpa using heq.symm⟩

/-- Every handler is of a dispatch that has spawned it, and is fed the bytes of its delivery. -/
def Fed (S : Piped) : Prop :=
  ∀ t h, S.handlers t = some h → ∃ d s, S.world.tasks[t]? = some ⟨d, s⟩ ∧ s.handed = true ∧
    h.Fed d.raw

/-- The handlers after one of them was replaced. -/
theorem of_update {u : ℕ} {h h' : Handler}
    (hu : Function.update S.handlers t (some h') u = some h) :
    (u = t ∧ h = h') ∨ S.handlers u = some h := by
  rw [Function.update_apply] at hu
  split at hu
  · rename_i hut
    exact .inl ⟨hut, (Option.some_inj.mp hu).symm⟩
  · exact .inr hu

/-- A poll keeps the handlers fed. -/
theorem Fed.poll (hfed : S.Fed)
    (hstep : (pipedSystem C capacity).step S (.act (.poll t o)) = some S') : S'.Fed := by
  obtain ⟨d, s, o', handlers, D', s', effects, htask, hattend, hpolls, rfl⟩ := step_poll hstep
  -- the handlers of the other dispatches, and that of this one if it is as it was
  have hkept : ∀ u h, S.handlers u = some h → ∃ d₁ s₁,
      (S.world.commit t ⟨d, s⟩ D' s' effects).tasks[u]? = some ⟨d₁, s₁⟩ ∧ s₁.handed = true ∧
        h.Fed d₁.raw := by
    intro u h hu
    obtain ⟨d₁, s₁, hu₁, hhanded, hh⟩ := hfed u h hu
    by_cases hut : u = t
    · subst hut
      cases htask.symm.trans hu₁
      exact ⟨d, s', getElem?_set_self_of_mem htask, hpolls.handed hhanded, hh⟩
    · exact ⟨d₁, s₁, (List.getElem?_set_ne (Ne.symm hut)).trans hu₁, hhanded, hh⟩
  intro u h hu
  rcases attend_cases hattend with rfl | ⟨job, permits, rfl, rfl, hspawn, rfl⟩ |
    ⟨h₁, hhandler, hexited, rfl⟩
  · exact hkept u h hu
  · rcases of_update hu with ⟨rfl, rfl⟩ | hu
    · refine ⟨d, s', getElem?_set_self_of_mem htask, ?_, .spawned _ _⟩
      cases hpolls with
      | spawn => rfl
      | spawnFail hfails =>
        rw [hspawn] at hfails
        cases hfails
    · exact hkept u h hu
  · rcases of_update hu with ⟨rfl, rfl⟩ | hu
    · obtain ⟨d₁, s₁, htask₁, hhanded, hh⟩ := hkept u h₁ hhandler
      exact ⟨d₁, s₁, htask₁, hhanded, hh.abort hexited⟩
    · exact hkept u h hu

/-- Every step of one lifetime keeps the handlers fed. -/
theorem Fed.step (hfed : S.Fed) {a : PipedAction} (ha : a.OneLifetime)
    (hstep : (pipedSystem C capacity).step S a = some S') : S'.Fed := by
  cases a with
  | move t m =>
    obtain ⟨h, h', hhandler, hmove, rfl⟩ := step_move hstep
    intro u h₁ hu
    rcases of_update hu with ⟨rfl, rfl⟩ | hu
    · obtain ⟨d, s, htask, hhanded, hh⟩ := hfed u h hhandler
      exact ⟨d, s, htask, hhanded, hh.step hmove⟩
    · exact hfed u h₁ hu
  | act a =>
    cases a with
    | poll t o => exact hfed.poll hstep
    | deliver d =>
      cases hstep
      intro u h hu
      obtain ⟨d₁, s₁, htask, hrest⟩ := hfed u h hu
      exact ⟨d₁, s₁, getElem?_append_of_some htask, hrest⟩
    | pollCall c =>
      obtain ⟨world, hworld, rfl⟩ := Option.map_eq_some_iff.mp hstep
      obtain ⟨agent, s, D', s', -, -, rfl⟩ := World.step_pollCall (C := C) hworld
      exact hfed
    | call | setRegistry | applyChanges | purge =>
      cases hstep
      exact hfed
    | restart => exact ha.elim

section

variable {d : Delivery} {job : Job} {permits : ℕ} {phase : Phase}

/-- A dispatch that has spawned its handler only has to wait for its exit. -/
theorem exists_attend (capacity : ℕ → ℕ+) (d : Delivery)
    (hhanded : (Stage.slot job permits phase).handed = true)
    (hwait : phase = .wait → ∃ h, S.handlers t = some h ∧ h.exited.isSome = true) (o : Outcome) :
    ∃ o' handlers, S.attend capacity t o ⟨d, .slot job permits phase⟩ = some (o', handlers) ∧
      o'.markFails = o.markFails := by
  cases phase with
  | wait =>
    obtain ⟨h, hhandler, hexited⟩ := hwait rfl
    obtain ⟨status, hstatus⟩ := Option.isSome_iff_exists.mp hexited
    refine ⟨{ o with wait := o.wait.map fun _ => status },
      Function.update S.handlers t (some h.abort), ?_, rfl⟩
    simp [attend, hhandler, hstatus]
  | mark | remove | ack | release => exact ⟨o, S.handlers, rfl, rfl⟩
  | _ => cases hhanded

/-- A poll of a dispatch that holds a permit. -/
theorem step_poll_slot (htask : S.world.tasks[t]? = some ⟨d, .slot job permits phase⟩)
    (hattend : S.attend capacity t o ⟨d, .slot job permits phase⟩ = some (o', handlers)) :
    (pipedSystem C capacity).step S (.act (.poll t o)) = some
      { world := S.world.commit t ⟨d, .slot job permits phase⟩
          (S.world.dispatcher.pollSlot d o' job permits phase).1
          ((S.world.dispatcher.pollSlot d o' job permits phase).2.1.elim .finished
            (.slot job permits))
          (S.world.dispatcher.pollSlot d o' job permits phase).2.2
        handlers } := by
  simp [pipedSystem, step, htask, hattend, World.step, Dispatcher.poll]

/-- Once the handler has exited, its dispatch is not blocked, whatever the writer is doing. -/
theorem isSome_step_poll {s : Stage} {h : Handler} (htask : S.world.tasks[t]? = some ⟨d, s⟩)
    (hhanded : s.handed = true) (hnot : s.isFinished = false) (hhandler : S.handlers t = some h)
    (hexited : h.exited.isSome = true) (o : Outcome) :
    ((pipedSystem C capacity).step S (.act (.poll t o))).isSome = true := by
  cases s with
  | slot job permits phase =>
    obtain ⟨o', handlers, hattend, -⟩ := exists_attend capacity d hhanded
      (fun _ => ⟨h, hhandler, hexited⟩) o
    rw [step_poll_slot htask hattend]
    rfl
  | finished => cases hnot
  | _ => cases hhanded

/-- The next access of a dispatch that is not blocked, when nothing fails. -/
theorem exists_step_next (C : DispatcherConfig) (capacity : ℕ → ℕ+) {next : Phase}
    {effects : Outcome → List Effect}
    (htask : S.world.tasks[t]? = some ⟨d, .slot job permits phase⟩)
    (hhanded : (Stage.slot job permits phase).handed = true)
    (hwait : phase = .wait → ∃ h, S.handlers t = some h ∧ h.exited.isSome = true)
    (hnext : ∀ o, o.markFails = false →
      (S.world.dispatcher.pollSlot d o job permits phase).2 = (some next, effects o)) :
    ∃ S' o', (pipedSystem C capacity).step S (.act (.poll t {})) = some S' ∧
      S'.world.tasks[t]? = some ⟨d, .slot job permits next⟩ ∧
      S'.world.trace = (effects o').map (⟨t, d, ·⟩) ++ S.world.trace := by
  obtain ⟨o', handlers, hattend, hmark⟩ := exists_attend capacity d hhanded hwait {}
  refine ⟨_, o', step_poll_slot htask hattend, ?_, ?_⟩
  · rw [hnext o' hmark]
    exact getElem?_set_self_of_mem htask
  · rw [hnext o' hmark]
    rfl

/-- Once the handler has exited, its dispatch goes on to mark the event and to acknowledge it. -/
theorem exists_acked {h : Handler}
    (htask : S.world.tasks[t]? = some ⟨d, .slot job permits .wait⟩)
    (hhandler : S.handlers t = some h) (hexited : h.exited.isSome = true) :
    ∃ S', (pipedSystem C capacity).Run (fun _ a => ∃ o, a = .act (.poll t o)) S S' ∧
      ⟨t, d, .marked job.envelope.eventId true⟩ ∈ S'.world.trace ∧
      ⟨t, d, .acked job.envelope.eventId⟩ ∈ S'.world.trace := by
  have hmark : ∀ D o, o.markFails = false → (Dispatcher.pollSlot D d o job permits .mark).2 =
      (some .remove, [.marked job.envelope.eventId true]) := fun D o ho => by
    simp [Dispatcher.pollSlot, Dispatcher.markCompleted, ho]
  obtain ⟨S₁, o₁, hstep₁, htask₁, -⟩ := exists_step_next C capacity htask rfl
    (fun _ => ⟨h, hhandler, hexited⟩) (fun _ _ => rfl)
  obtain ⟨S₂, o₂, hstep₂, htask₂, htrace₂⟩ := exists_step_next C capacity htask₁ rfl
    (fun hwait => by cases hwait) (hmark _)
  obtain ⟨S₃, o₃, hstep₃, htask₃, htrace₃⟩ := exists_step_next C capacity htask₂ rfl
    (fun hwait => by cases hwait) (fun _ _ => rfl)
  obtain ⟨S₄, o₄, hstep₄, -, htrace₄⟩ := exists_step_next C capacity htask₃ rfl
    (fun hwait => by cases hwait) (fun _ _ => rfl)
  have hrun : (pipedSystem C capacity).Run (fun _ a => ∃ o, a = .act (.poll t o)) S S₄ :=
    .tail (.tail (.tail (.tail .refl ⟨_, rfl⟩ hstep₁) ⟨_, rfl⟩ hstep₂) ⟨_, rfl⟩ hstep₃) ⟨_, rfl⟩
      hstep₄
  refine ⟨S₄, hrun, ?_, ?_⟩
  · rw [htrace₄, htrace₃, htrace₂]
    simp
  · rw [htrace₄]
    exact List.mem_cons_self

end

/-- A handler that can read can read to the end of its input. -/
theorem exists_sawEnd {h : Handler} (hhandler : S.handlers t = some h)
    (hopen : h.stdinOpen = true) :
    ∃ S' h', (pipedSystem C capacity).Run (fun _ a => ∃ m, a = .move t m ∧ m.feeds = true) S S' ∧
      S'.handlers t = some h' ∧ h'.sawEnd = true := by
  have hcloser : ∀ n (x : Piped),
      (∃ h₁, x.handlers t = some h₁ ∧ h₁.stdinOpen = true ∧ h₁.toEnd = n + 1) →
      ∃ a y k, (∃ m, a = PipedAction.move t m ∧ m.feeds = true) ∧
        (pipedSystem C capacity).step x a = some y ∧ k ≤ n ∧
          ∃ h₂, y.handlers t = some h₂ ∧ h₂.stdinOpen = true ∧ h₂.toEnd = k := by
    rintro n x ⟨h₁, hx, hopen₁, hn⟩
    obtain ⟨m, h₂, hfeeds, hmove, hopen₂, hlt⟩ :=
      Handler.exists_step_toEnd hopen₁ (hn ▸ n.succ_pos)
    refine ⟨.move t m, { x with handlers := Function.update x.handlers t (some h₂) }, h₂.toEnd,
      ⟨m, rfl, hfeeds⟩, ?_, by omega, h₂, Function.update_self .., hopen₂, rfl⟩
    simp [pipedSystem, step, hx, hmove]
  -- by induction on how far the handler is from the end of its input
  obtain ⟨S', hrun, h', hhandler', -, hend⟩ := exists_run_of_rank
    (I := fun n (x : Piped) => ∃ h, x.handlers t = some h ∧ h.stdinOpen = true ∧ h.toEnd = n)
    hcloser ⟨h, hhandler, hopen, rfl⟩
  refine ⟨S', h', hrun, hhandler', ?_⟩
  by_contra hnot
  simp [Handler.toEnd, hnot] at hend

end Piped

/-- A handler of a dispatch, in any state that a process comes to, with any capacities of the pipes
and any behaviour of the handlers and their descendants.  What it has read is a beginning of the
bytes of the delivery, and all of them if it has read to the end; and it can read to the end if it
has its standard input.  When it has exited, no access of its dispatch is blocked, and a dispatch
that waits for it can go on by itself to mark the event and to acknowledge it. -/
theorem input_exact {registry : Registry} {dedup : DedupStore} {S : Piped} {h : Handler}
    (hrun : (pipedSystem C capacity).Run (fun _ a => a.OneLifetime) (.start registry dedup) S)
    (hhandler : S.handlers t = some h) :
    ∃ d s, S.world.tasks[t]? = some ⟨d, s⟩ ∧ h.transfer.received <+: d.raw ∧
      (h.sawEnd = true → h.transfer.received = d.raw) ∧
      (h.stdinOpen = true → ∃ S' h',
        (pipedSystem C capacity).Run (fun _ a => ∃ m, a = .move t m ∧ m.feeds = true) S S' ∧
          S'.handlers t = some h' ∧ h'.sawEnd = true) ∧
      (h.exited.isSome = true →
        (s.isFinished = false → ∀ o,
          ((pipedSystem C capacity).step S (.act (.poll t o))).isSome = true) ∧
        ∀ job permits, s = .slot job permits .wait → ∃ S',
          (pipedSystem C capacity).Run (fun _ a => ∃ o, a = .act (.poll t o)) S S' ∧
            ⟨t, d, .marked job.envelope.eventId true⟩ ∈ S'.world.trace ∧
            ⟨t, d, .acked job.envelope.eventId⟩ ∈ S'.world.trace) := by
  have hfed : S.Fed := hrun.invariant (I := Piped.Fed) (by intro t h hnone; cases hnone)
    fun _ _ _ hx ha hstep => hx.step ha hstep
  obtain ⟨d, s, htask, hhanded, hh⟩ := hfed t h hhandler
  refine ⟨d, s, htask, ?_, hh.atEnd, Piped.exists_sawEnd hhandler, fun hexited => ⟨?_, ?_⟩⟩
  · rw [← hh.stream]
    exact h.transfer.received_prefix
  · exact fun hnot o => Piped.isSome_step_poll htask hhanded hnot hhandler hexited o
  · rintro job permits rfl
    exact Piped.exists_acked htask hhandler hexited

/-- A dispatch whose handler is running waits for its exit. -/
theorem Task.exists_of_running {task : Task} {k : EventKey} (h : task.running = some k) :
    ∃ job permits, task.stage = .slot job permits .wait ∧ job.envelope.eventId = k.2 := by
  obtain ⟨d, s⟩ := task
  cases s with
  | slot job permits phase =>
    simp only [running, keyIn] at h
    split at h
    · rename_i hwait
      obtain rfl : phase = .wait := beq_iff_eq.mp hwait
      cases h
      exact ⟨job, permits, rfl, rfl⟩
    · cases h
  | _ => cases h

/-- The handler reads the event `e` through a pipe of 64 bytes to its end, and exits while a
descendant keeps the read end. -/
def Sample.readAll : List PipedAction :=
  (.deliver (delivery "e") :: polls 0 6).map .act ++
    [.move 0 (.write 64), .move 0 (.read 10), .move 0 .inherit, .move 0 (.read 100),
      .move 0 (.write 22), .move 0 .written, .move 0 .close, .move 0 (.read 100), .move 0 (.read 1),
      .move 0 (.exit ⟨some 3, none⟩)]

theorem input_exact_readAll :
    ∃ S h, (pipedSystem Sample.dispatcherConfig fun _ => 64).Run (fun _ a => a.OneLifetime)
        (.start (Sample.registry Sample.config) .empty) S ∧
      S.handlers 0 = some h ∧ h.transfer.received = (Sample.delivery "e").raw ∧
      ∃ S', (pipedSystem Sample.dispatcherConfig fun _ => 64).Run
          (fun _ a => ∃ o, a = .act (.poll 0 o)) S S' ∧
        ⟨0, Sample.delivery "e", .acked "e"⟩ ∈ S'.world.trace := by
  obtain ⟨S, hrun, hend⟩ := exists_run_of_exec
    (pipedSystem Sample.dispatcherConfig fun _ => 64) (fun _ a => a.OneLifetime)
    (.start (Sample.registry Sample.config) .empty) Sample.readAll
    (fun S => (S.world.tasks[0]?.any fun task : Task =>
        decide (task.delivery = Sample.delivery "e") &&
          decide (task.running = some (Sample.agent, "e"))) &&
        (S.handlers 0).any fun h : Handler => h.sawEnd && h.exited.isSome) (by decide +kernel)
  rw [Bool.and_eq_true, Option.any_eq_true, Option.any_eq_true] at hend
  obtain ⟨⟨task, htask, hwaits⟩, h, hhandler, hhas⟩ := hend
  simp only [Bool.and_eq_true, decide_eq_true_eq] at hwaits hhas
  obtain ⟨job, permits, hstage, hevent⟩ := Task.exists_of_running hwaits.2
  obtain ⟨d, s, htask', -, hall, -, hdone⟩ := input_exact hrun hhandler
  obtain rfl : task = ⟨d, s⟩ := Option.some_inj.mp (htask.symm.trans htask')
  obtain rfl : d = Sample.delivery "e" := hwaits.1
  obtain ⟨S', hrun', -, hacked⟩ := (hdone hhas.2).2 job permits hstage
  rw [show job.envelope.eventId = "e" from hevent] at hacked
  exact ⟨S, h, hrun, hhandler, hall hhas.1, S', hrun', hacked⟩

end Agentd
