import Mathlib.Algebra.Order.Ring.Nat
import Mathlib.Data.List.Basic

/-
  This file implements readers of a stream of bytes, which take what they need from its front and
  may refuse it.

  A reader is judged by what it does with the bytes of one message, whatever stands behind them: it
  reads a value from them, or refuses them. Readers in a row read messages in a row.
-/

----
-- Readers
----

namespace Wire

open List

section

variable {Error Value Other : Type}

abbrev Reader (Error : Type) :=
  StateT (List UInt8) (Except Error)

def Reads (reader : Reader Error Value) (bytes : List UInt8) (value : Value) : Prop :=
  ∀ rest, reader.run (bytes ++ rest) = .ok (value, rest)

/- Nothing that starts with these bytes is accepted. -/
def Refuses (reader : Reader Error Value) (bytes : List UInt8) : Prop :=
  ∀ rest, ∃ refusal, reader.run (bytes ++ rest) = .error refusal

theorem reads_pure (v : Value) : Reads (pure v : Reader Error Value) [] v :=
  fun _ => rfl

theorem refuses_throw (e : Error) (bs : List UInt8) : Refuses (throw e : Reader Error Value) bs :=
  fun _ => ⟨e, rfl⟩

variable {reader : Reader Error Value} {next : Value → Reader Error Other} {v : Value}

/- One message after the other. -/
theorem Reads.bind {a b : List UInt8} {x : Other} (hFst : Reads reader a v)
    (hSnd : Reads (next v) b x) :
    Reads (reader >>= next) (a ++ b) x := by
  intro xs
  rw [append_assoc, StateT.run_bind, hFst]
  exact hSnd xs

/- What follows a message and takes nothing more. -/
theorem Reads.bind_nil {bs : List UInt8} {x : Other} (hReads : Reads reader bs v)
    (hNext : Reads (next v) [] x) : Reads (reader >>= next) bs x := by
  have hBoth := hReads.bind hNext
  rw [append_nil] at hBoth
  exact hBoth

theorem Reads.bind_refuses {a b : List UInt8} (hFst : Reads reader a v)
    (hSnd : Refuses (next v) b) : Refuses (reader >>= next) (a ++ b) := by
  intro xs
  rw [append_assoc, StateT.run_bind, hFst]
  exact hSnd xs

theorem Refuses.bind {bs : List UInt8} (hRefuses : Refuses reader bs)
    (next : Value → Reader Error Other) : Refuses (reader >>= next) bs := by
  intro xs
  rcases hRefuses xs with ⟨e, hRefusal⟩
  refine ⟨e, ?_⟩
  rw [StateT.run_bind, hRefusal]
  rfl

end

----
-- Bytes
----

variable {Error : Type}

/- Take as many bytes as are asked for. -/
def readExact (atEnd : Error) (count : Nat) : Reader Error (List UInt8) :=
  fun stream =>
    if count ≤ stream.length then .ok (stream.take count, stream.drop count) else .error atEnd

theorem reads_readExact (atEnd : Error) {n : Nat} {bs : List UInt8}
    (hLen : bs.length = n) : Reads (readExact atEnd n) bs bs := by
  intro xs
  have hEnough : n ≤ (bs ++ xs).length := by
    rw [length_append]
    omega
  show readExact atEnd n (bs ++ xs) = _
  rw [readExact, if_pos hEnough, ← hLen, take_left, drop_left]

def readByte (atEnd : Error) : Reader Error UInt8
| [] => .error atEnd
| byte :: rest => .ok (byte, rest)

theorem reads_readByte (atEnd : Error) (byte : UInt8) : Reads (readByte atEnd) [byte] byte :=
  fun _ => rfl

end Wire
