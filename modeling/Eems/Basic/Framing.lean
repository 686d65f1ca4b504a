/-
Messages on a stream: a header that says how many body bytes follow it.  A
reader that knows what each header announces finds the messages again.
-/
import Mathlib.Tactic

universe u v

namespace Framing

variable {H : Type u} {B : Type v}

/-- The stream, its headers kept apart from the bytes of bodies. -/
inductive Token (H : Type u) (B : Type v) where
  | header (header : H)
  | byte (b : B)
deriving DecidableEq

structure Message (H : Type u) (B : Type v) where
  header : H
  body : List B
deriving DecidableEq

def Message.tokens (message : Message H B) : List (Token H B) :=
  .header message.header :: message.body.map .byte

/-- The next bytes of a body; a header among them is out of place. -/
def readBody : Nat → List (Token H B) → Option (List B × List (Token H B))
  | 0, tokens => some ([], tokens)
  | n + 1, .byte b :: tokens => (readBody n tokens).map fun p => (b :: p.1, p.2)
  | _ + 1, _ => none

def readMessage (announced : H → Nat) :
    List (Token H B) → Option (Message H B × List (Token H B))
  | .header header :: tokens =>
      (readBody (announced header) tokens).map fun p => (⟨header, p.1⟩, p.2)
  | _ => none

/-- One message for each expectation, in order. -/
def readMessages : List (H → Nat) → List (Token H B) →
    Option (List (Message H B) × List (Token H B))
  | [], tokens => some ([], tokens)
  | announced :: rest, tokens =>
      (readMessage announced tokens).bind fun p =>
        (readMessages rest p.2).map fun q => (p.1 :: q.1, q.2)

theorem readBody_append (body : List B) (tokens : List (Token H B)) :
    readBody body.length (body.map .byte ++ tokens) = some (body, tokens) := by
  induction body with
  | nil => rfl
  | cons b rest ih => simp [readBody, ih]

theorem readMessage_tokens {announced : H → Nat} {message : Message H B}
    (h : message.body.length = announced message.header) (tokens : List (Token H B)) :
    readMessage announced (message.tokens ++ tokens) = some (message, tokens) := by
  simp [Message.tokens, readMessage, ← h, readBody_append]

end Framing
