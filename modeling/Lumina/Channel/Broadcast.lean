import Mathlib.Data.List.Induction
import Mathlib.Order.Basic

/-!
# Broadcast channels

A broadcast channel keeps the last `capacity` messages for receivers that read at their own pace.
A receiver is a number: how many messages it has passed.  One that falls behind by more than the
capacity is told so once, and goes on with the oldest message that is kept.

The channel is compared with the list of all that was ever sent (`Carries`).  A receiver gets the
messages in their order and each at most once (`Carries.recv_sublist`), and all of them as long as
it does not fall behind (`Carries.recv_ahead`).

## Main definitions

* `Broadcast` : the channel, `send`, `recv`.
* `Broadcast.Carries` : the channel was sent these messages.
* `Broadcast.ahead` : what a receiver has yet to get.
-/

namespace Lumina

/-- A channel with its last messages, the oldest first, and the number of all messages. -/
structure Broadcast (α : Type*) where
  capacity : ℕ
  buffer : List α
  tail : ℕ

/-- What a receiver is told. -/
inductive Recv (α : Type*) where
  | empty
  /-- So many messages are gone. -/
  | lagged (missed : ℕ)
  | value (a : α)
  deriving DecidableEq

/-- The message that a receiver is told, if any. -/
def Recv.toList {α : Type*} : Recv α → List α
  | empty => []
  | lagged _ => []
  | value a => [a]

namespace Broadcast

variable {α : Type*}

def new (capacity : ℕ) : Broadcast α := ⟨capacity, [], 0⟩

variable (b : Broadcast α)

/-- The number of messages before the oldest that is kept. -/
def oldest : ℕ := b.tail - b.buffer.length

/-- A message is added, and the oldest one makes room for it. -/
def send (a : α) : Broadcast α :=
  { b with
    buffer := (b.buffer ++ [a]).drop (b.buffer.length + 1 - b.capacity)
    tail := b.tail + 1 }

/-- What a receiver is told that has passed `next` messages, and how many it has passed then. -/
def recv (next : ℕ) : Recv α × ℕ :=
  if next < b.oldest then (.lagged (b.oldest - next), b.oldest)
  else
    match b.buffer[next - b.oldest]? with
    | some a => (.value a, next + 1)
    | none => (.empty, next)

/-- What a receiver has yet to get that has not fallen behind. -/
def ahead (next : ℕ) : List α := b.buffer.drop (next - b.oldest)

/-- The channel was sent these messages. -/
structure Carries (sent : List α) : Prop where
  buffer : b.buffer = sent.drop (sent.length - b.capacity)
  tail : b.tail = sent.length

variable {b} {sent got : List α} {a : α} {next : ℕ}

theorem carries_new (capacity : ℕ) : (new capacity : Broadcast α).Carries [] :=
  ⟨by simp [new], rfl⟩

@[simp] theorem send_capacity : (b.send a).capacity = b.capacity := rfl

theorem Carries.oldest (h : b.Carries sent) : b.oldest = sent.length - b.capacity := by
  rw [Broadcast.oldest, h.buffer, h.tail, List.length_drop]
  omega

theorem Carries.send (h : b.Carries sent) (a : α) : (b.send a).Carries (sent ++ [a]) := by
  refine ⟨?_, by simp [Broadcast.send, h.tail]⟩
  simp only [Broadcast.send, h.buffer, List.length_drop, List.length_append, List.length_singleton]
  have hsplit : sent.drop (sent.length - b.capacity) ++ [a] =
      (sent ++ [a]).drop (sent.length - b.capacity) :=
    (List.drop_append_of_le_length (by omega)).symm
  rw [hsplit, List.drop_drop]
  congr 1
  omega

/-- What the channel keeps, by the place of a message among all of them. -/
theorem Carries.getElem? (h : b.Carries sent) (hnext : b.oldest ≤ next) :
    b.buffer[next - b.oldest]? = sent[next]? := by
  rw [h.buffer, List.getElem?_drop, ← h.oldest]
  congr 1
  omega

theorem Carries.ahead (h : b.Carries sent) (hnext : b.oldest ≤ next) :
    b.ahead next = sent.drop next := by
  rw [Broadcast.ahead, h.buffer, List.drop_drop, ← h.oldest]
  congr 1
  omega

/-- **What a receiver is told**: that it lags, the next message, or that there is none. -/
theorem Carries.recv_cases (h : b.Carries sent) (next : ℕ) :
    next < b.oldest ∧ b.recv next = (.lagged (b.oldest - next), b.oldest) ∨
      b.oldest ≤ next ∧ (∃ a, sent[next]? = some a ∧ b.recv next = (.value a, next + 1)) ∨
      b.oldest ≤ next ∧ sent[next]? = none ∧ b.recv next = (.empty, next) := by
  unfold recv
  by_cases hlag : next < b.oldest
  · exact .inl ⟨hlag, if_pos hlag⟩
  · have hnext : b.oldest ≤ next := Nat.le_of_not_lt hlag
    rw [if_neg hlag, h.getElem? hnext]
    cases hget : sent[next]? with
    | some a => exact .inr (.inl ⟨hnext, a, rfl, rfl⟩)
    | none => exact .inr (.inr ⟨hnext, rfl, rfl⟩)

/-- A receiver stays within what was sent. -/
theorem Carries.recv_le (h : b.Carries sent) (hnext : next ≤ sent.length) :
    (b.recv next).2 ≤ sent.length := by
  rcases h.recv_cases next with ⟨-, hrecv⟩ | ⟨-, a, hget, hrecv⟩ | ⟨-, -, hrecv⟩
  · rw [hrecv, h.oldest]
    exact Nat.sub_le _ _
  · rw [hrecv]
    obtain ⟨hlt, -⟩ := List.getElem?_eq_some_iff.1 hget
    exact hlt
  · rw [hrecv]
    exact hnext

/-- **In order and at most once**: what a receiver has got are some of the messages that it has
passed. -/
theorem Carries.recv_sublist (h : b.Carries sent) (hgot : got.Sublist (sent.take next)) :
    (got ++ Recv.toList (b.recv next).1).Sublist (sent.take (b.recv next).2) := by
  rcases h.recv_cases next with ⟨hlag, hrecv⟩ | ⟨-, a, hget, hrecv⟩ | ⟨-, -, hrecv⟩
  · rw [hrecv, Recv.toList, List.append_nil]
    exact hgot.trans (List.take_sublist_take_left (Nat.le_of_lt hlag))
  · rw [hrecv, Recv.toList, List.take_add_one, hget]
    exact hgot.append (List.Sublist.refl _)
  · rw [hrecv, Recv.toList, List.append_nil]
    exact hgot

/-- **All of them**: a receiver that has not fallen behind gets what it has yet to get. -/
theorem Carries.recv_ahead (h : b.Carries sent) (hnext : b.oldest ≤ next) :
    b.oldest ≤ (b.recv next).2 ∧
      Recv.toList (b.recv next).1 ++ b.ahead (b.recv next).2 = b.ahead next := by
  rcases h.recv_cases next with ⟨hlag, -⟩ | ⟨-, a, hget, hrecv⟩ | ⟨-, -, hrecv⟩
  · exact absurd hlag (Nat.not_lt.2 hnext)
  · rw [hrecv]
    have hstep : b.oldest ≤ next + 1 := Nat.le_succ_of_le hnext
    refine ⟨hstep, ?_⟩
    obtain ⟨hlt, hval⟩ := List.getElem?_eq_some_iff.1 hget
    rw [h.ahead hnext, h.ahead hstep, List.drop_eq_getElem_cons hlt,
      hval, Recv.toList]
    rfl
  · rw [hrecv]
    exact ⟨hnext, rfl⟩

/-- A message is ahead of the receivers that it does not leave behind. -/
theorem Carries.ahead_send (h : b.Carries sent) (hnext : b.oldest ≤ next)
    (hlen : next ≤ b.tail) (hroom : b.tail < next + b.capacity) (a : α) :
    (b.send a).oldest ≤ next ∧ (b.send a).ahead next = b.ahead next ++ [a] := by
  have hsend := h.send a
  have htail := h.tail
  have hle : (b.send a).oldest ≤ next := by
    rw [hsend.oldest, send_capacity, List.length_append, List.length_singleton]
    omega
  refine ⟨hle, ?_⟩
  rw [hsend.ahead hle, h.ahead hnext, List.drop_append_of_le_length (by omega)]

end Broadcast

end Lumina
