import RecsDaemon.Messages

/-!
# Communicators

What the daemon sees of an `ICommunicator`: the value a `readData` call returned
and the buffer after it. The communicators return the number of bytes read, or a
negative error; a call that failed may leave anything in the buffer.
-/

namespace RecsDaemon

open Base

/-- The outcome of `readData(offset, buf, count)`. -/
structure ReadReply where
  ret : Int
  buf : Mem

/-- `if (read)`: what the daemon takes for success. -/
def ReadReply.taken (r : ReadReply) : Bool := r.ret ≠ 0

/-- The replies to `readData(offset, _, count)` as the `n`-th call of a function. -/
abbrev Reads := Nat → Nat → Nat → ReadReply

/-- A memory that every call reads. -/
def Reads.ofMem (m : Mem) : Reads := fun _ off count => ⟨count, fun a => m (off + a)⟩

end RecsDaemon
