import Mathlib

/-!
# Bounded pipes

A `Pipe` is a queue of bounded capacity between a writer and a reader.  A `Transfer` is the state of
sending a list through one: what is still to be written, what is in the pipe, and what has been
received.  However the pieces are cut, these three together are the list (`stream_send`,
`stream_receive`), and the writer is not blocked when the pipe is empty (`exists_send`).
-/

variable {α : Type*}

/-- A queue of bounded capacity. -/
structure Pipe (α : Type*) where
  capacity : ℕ+
  /-- What is written and not yet read. -/
  buffer : List α
  /-- The buffer never holds more than the capacity. -/
  fits : buffer.length ≤ capacity

namespace Pipe

/-- A new pipe. -/
def empty (capacity : ℕ+) : Pipe α where
  capacity := capacity
  buffer := []
  fits := Nat.zero_le _

/-- Write a piece; it has to fit. -/
def write (p : Pipe α) (piece : List α) : Option (Pipe α) :=
  if h : (p.buffer ++ piece).length ≤ p.capacity then
    some { p with buffer := p.buffer ++ piece, fits := h }
  else none

/-- Take at most `n` elements out of the pipe. -/
def read (p : Pipe α) (n : ℕ) : List α × Pipe α :=
  (p.buffer.take n, { p with
    buffer := p.buffer.drop n
    fits := (List.length_drop ▸ Nat.sub_le _ _ : _ ≤ p.buffer.length).trans p.fits })

variable {p q : Pipe α} {piece : List α}

theorem buffer_write (h : p.write piece = some q) : q.buffer = p.buffer ++ piece := by
  unfold write at h
  split at h
  · cases h
    rfl
  · cases h

/-- One element fits into an empty pipe. -/
theorem exists_write (hempty : p.buffer = []) (hone : piece.length ≤ 1) :
    ∃ q, p.write piece = some q := by
  have hfits : (p.buffer ++ piece).length ≤ p.capacity := by
    rw [hempty, List.nil_append]
    exact hone.trans p.capacity.pos
  exact ⟨_, dif_pos hfits⟩

end Pipe

/-- A list on its way through a pipe. -/
structure Transfer (α : Type*) where
  pipe : Pipe α
  unwritten : List α
  received : List α

namespace Transfer

/-- Nothing of the list is written yet. -/
def start (capacity : ℕ+) (l : List α) : Transfer α where
  pipe := .empty capacity
  unwritten := l
  received := []

/-- The list that is sent. -/
def stream (t : Transfer α) : List α := t.received ++ t.pipe.buffer ++ t.unwritten

/-- Write the next `k` elements, at least one. -/
def send (t : Transfer α) (k : ℕ) : Option (Transfer α) :=
  if 0 < k ∧ k ≤ t.unwritten.length then
    (t.pipe.write (t.unwritten.take k)).map fun pipe =>
      { t with pipe, unwritten := t.unwritten.drop k }
  else none

/-- Read at most `n` elements, at least one; there has to be something in the pipe. -/
def receive (t : Transfer α) (n : ℕ) : Option (Transfer α) :=
  if 0 < n ∧ t.pipe.buffer ≠ [] then
    some { t with
      pipe := (t.pipe.read n).2
      received := t.received ++ (t.pipe.read n).1 }
  else none

variable {t t' : Transfer α} {k n : ℕ}

@[simp] theorem stream_start (capacity : ℕ+) (l : List α) : (start capacity l).stream = l := rfl

/-- A send moves elements into the pipe. -/
theorem send_eq_some (h : t.send k = some t') :
    t'.received = t.received ∧ t'.pipe.buffer = t.pipe.buffer ++ t.unwritten.take k ∧
      t'.unwritten = t.unwritten.drop k := by
  unfold send at h
  split at h
  · obtain ⟨pipe, hwrite, rfl⟩ := Option.map_eq_some_iff.mp h
    exact ⟨rfl, Pipe.buffer_write hwrite, rfl⟩
  · cases h

/-- A receive takes elements out of the pipe. -/
theorem receive_eq_some (h : t.receive n = some t') :
    t'.received = t.received ++ t.pipe.buffer.take n ∧ t'.pipe.buffer = t.pipe.buffer.drop n ∧
      t'.unwritten = t.unwritten := by
  unfold receive at h
  split at h
  · cases h
    exact ⟨rfl, rfl, rfl⟩
  · cases h

/-- A send loses nothing and puts nothing out of order. -/
theorem stream_send (h : t.send k = some t') : t'.stream = t.stream := by
  obtain ⟨hreceived, hbuffer, hunwritten⟩ := send_eq_some h
  unfold stream
  rw [hreceived, hbuffer, hunwritten]
  simp only [List.append_assoc, List.take_append_drop]

/-- A receive loses nothing and puts nothing out of order. -/
theorem stream_receive (h : t.receive n = some t') : t'.stream = t.stream := by
  obtain ⟨hreceived, hbuffer, hunwritten⟩ := receive_eq_some h
  unfold stream
  rw [hreceived, hbuffer, hunwritten]
  rw [List.append_assoc t.received, List.take_append_drop]

/-- What has been received is the beginning of the list. -/
theorem received_prefix (t : Transfer α) : t.received <+: t.stream :=
  ⟨t.pipe.buffer ++ t.unwritten, (List.append_assoc _ _ _).symm⟩

/-- When everything is written and read, the list has been received. -/
theorem received_eq (hbuffer : t.pipe.buffer = []) (hunwritten : t.unwritten = []) :
    t.received = t.stream := by
  rw [stream, hbuffer, hunwritten, List.append_nil, List.append_nil]

/-- The writer can go on when the pipe is empty. -/
theorem exists_send (hbuffer : t.pipe.buffer = []) (hunwritten : t.unwritten ≠ []) :
    ∃ t', t.send 1 = some t' := by
  have hlen : 1 ≤ t.unwritten.length := List.length_pos_iff.mpr hunwritten
  have hpiece : (t.unwritten.take 1).length ≤ 1 := List.length_take_le 1 _
  obtain ⟨pipe, hwrite⟩ := Pipe.exists_write hbuffer hpiece
  exact ⟨_, by rw [send, if_pos ⟨Nat.one_pos, hlen⟩, hwrite]; rfl⟩

/-- The reader can go on when the pipe is not empty. -/
theorem exists_receive (hbuffer : t.pipe.buffer ≠ []) : ∃ t', t.receive 1 = some t' :=
  ⟨_, if_pos ⟨Nat.one_pos, hbuffer⟩⟩

end Transfer
