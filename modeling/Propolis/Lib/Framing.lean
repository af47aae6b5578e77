import Propolis.Lib.Bytes

/-!
# Messages in a byte stream

A reader takes whole messages from the front of what has arrived and keeps the rest.
What it can take may depend on the messages before.  Where more bytes never change how
a message that is there was read, the messages taken, and what is left, are the same
however the stream was cut.
-/

namespace Framing

/-- What stands at the front of the bytes. -/
inductive Parsed (Message : Type) where
  | incomplete
  | malformed
  | message (content : Message) (rest : Bytes)

structure Protocol (State Message : Type) where
  parse : State → Bytes → Parsed Message
  handle : State → Message → State

variable {State Message : Type}

/-- A message takes bytes, and more bytes do not change how it is read. -/
structure Protocol.Stable (protocol : Protocol State Message) : Prop where
  shrinks : ∀ {state bytes content rest}, protocol.parse state bytes = .message content rest →
    rest.length < bytes.length
  message : ∀ {state bytes content rest}, protocol.parse state bytes = .message content rest →
    ∀ more, protocol.parse state (bytes ++ more) = .message content (rest ++ more)
  malformed : ∀ {state bytes}, protocol.parse state bytes = .malformed →
    ∀ more, protocol.parse state (bytes ++ more) = .malformed

/-- All messages that are there are handled; `none` when one of them is malformed. -/
def Protocol.drain (protocol : Protocol State Message) : ℕ → State → Bytes → Option (State × Bytes)
  | 0, state, bytes => some (state, bytes)
  | fuel + 1, state, bytes =>
      match protocol.parse state bytes with
      | .incomplete => some (state, bytes)
      | .malformed => none
      | .message content rest => protocol.drain fuel (protocol.handle state content) rest

/-- Each message takes a byte at least, so their number is bounded. -/
def Protocol.read (protocol : Protocol State Message) (state : State) (bytes : Bytes) :
    Option (State × Bytes) :=
  protocol.drain (bytes.length + 1) state bytes

variable {protocol : Protocol State Message} {bytes : Bytes} {state : State}

theorem Protocol.Stable.drain_eq (stable : protocol.Stable) {fuel : ℕ}
    (enough : bytes.length < fuel) (state : State) :
    protocol.drain fuel state bytes = protocol.read state bytes := by
  induction fuel using Nat.strongRecOn generalizing bytes state with
  | ind fuel ih =>
      obtain ⟨fuel, rfl⟩ : ∃ less, fuel = less + 1 := ⟨fuel - 1, by omega⟩
      rw [read, drain, drain]
      cases parsed : protocol.parse state bytes with
      | incomplete => rfl
      | malformed => rfl
      | message =>
          have shorter := stable.shrinks parsed
          dsimp only
          rw [ih fuel (Nat.lt_succ_self _) (by omega), ih bytes.length (by omega) shorter]

theorem read_incomplete (parsed : protocol.parse state bytes = .incomplete) :
    protocol.read state bytes = some (state, bytes) := by
  rw [Protocol.read, Protocol.drain, parsed]

theorem read_malformed
    (parsed : protocol.parse state bytes = .malformed) : protocol.read state bytes = none := by
  rw [Protocol.read, Protocol.drain, parsed]

variable (stable : protocol.Stable)
include stable

theorem Protocol.Stable.read_message {rest : Bytes} {content : Message}
    (parsed : protocol.parse state bytes = .message content rest) :
    protocol.read state bytes = protocol.read (protocol.handle state content) rest := by
  rw [read, drain, parsed]
  exact stable.drain_eq (stable.shrinks parsed) _

/-- What is left awaits more bytes. -/
theorem Protocol.Stable.parse_rest {after : State}
    {rest : Bytes} (done : protocol.read state bytes = some (after, rest)) :
    protocol.parse after rest = .incomplete := by
  induction length : bytes.length using Nat.strongRecOn generalizing bytes state with
  | ind count ih =>
      subst length
      cases parsed : protocol.parse state bytes with
      | incomplete =>
          rw [read_incomplete parsed] at done
          cases done
          exact parsed
      | malformed =>
          rw [read_malformed parsed] at done
          cases done
      | message =>
          rw [stable.read_message parsed] at done
          exact ih _ (stable.shrinks parsed) done rfl

/-- Reading goes on from what was left. -/
theorem Protocol.Stable.read_append (state : State)
    (bytes more : Bytes) :
    protocol.read state (bytes ++ more) =
      (protocol.read state bytes).bind fun left => protocol.read left.1 (left.2 ++ more) := by
  induction length : bytes.length using Nat.strongRecOn generalizing bytes state with
  | ind count ih =>
      subst length
      cases parsed : protocol.parse state bytes with
      | incomplete =>
          rw [read_incomplete parsed]
          rfl
      | malformed =>
          rw [read_malformed parsed, read_malformed (stable.malformed parsed more)]
          rfl
      | message =>
          rw [stable.read_message parsed, stable.read_message (stable.message parsed more)]
          exact ih _ (stable.shrinks parsed) _ _ rfl

/-- A beginning of a stream that can be read can be read. -/
theorem Protocol.Stable.read_front {after : State}
    {more rest : Bytes} (done : protocol.read state (bytes ++ more) = some (after, rest)) :
    ∃ middle left, protocol.read state bytes = some (middle, left) ∧
      protocol.read middle (left ++ more) = some (after, rest) := by
  rw [stable.read_append] at done
  obtain ⟨⟨middle, left⟩, front, back⟩ := Option.bind_eq_some_iff.mp done
  exact ⟨middle, left, front, back⟩

end Framing
