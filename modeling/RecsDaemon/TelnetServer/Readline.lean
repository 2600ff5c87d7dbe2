import RecsDaemon.TelnetServer
import RecsDaemon.Base.Access
import RecsDaemon.Base.Lines

/-!
# The loop that reads a line

`readline` byte for byte, as the client handler runs it: every step is one call
of `receiveData`, whose result is an unsigned number. The handler finds the
lines of the stream as long as they are shorter than its buffer
(`oneLineOneCommand_iff`), and ends when the stream does, but not when it fails
(`endsCleanly_iff`).
-/

namespace RecsDaemon

open Base Json

namespace TelnetServer

/-! ## The code -/

inductive Recv where
  | byte (c : UInt8)
  | endOfStream
  | error
deriving DecidableEq

/-- `receiveData`: the result of `recv` as a `size_t`. -/
def Recv.size : Recv → Nat
  | byte _ => 1
  | endOfStream => 0
  | error => 2 ^ 64 - 1

/-- The character after the call, `c` being the one before. -/
def Recv.char (c : UInt8) : Recv → UInt8
  | byte b => b
  | _ => c

/-- The variables of `readline`; `out` counts from the beginning of the buffer. -/
structure Readline where
  i : Nat
  c : UInt8
  out : Nat
deriving DecidableEq

/-- `readline` before its next `receiveData`, or its result. -/
inductive Progress where
  | reading (loop : Readline)
  | returned (ret : Int)

/-- Up to the first `receiveData`. -/
def beginReadline (len : Nat) : Prog Readline := do
  Prog.writeBytes 0 (List.replicate len 0)
  pure ⟨0, 0, 0⟩

/-- `++i`, then the loop's condition; behind the loop the string is ended. -/
def next (len : Nat) (loop : Readline) : Prog Progress :=
  let i := (loop.i + 1) % 2 ^ 64
  if i < len ∧ loop.c ≠ 10 then pure (.reading { loop with i := i })
  else do
    Prog.writeBytes loop.out [0]
    pure (.returned (toSigned i))

/-- From one `receiveData` to the next, or to the end of `readline`. -/
def readChar (len : Nat) (loop : Readline) (recv : Recv) : Prog Progress :=
  if recv.size ≤ 0 then pure (.returned (-1))
  else
    let c := recv.char loop.c
    if c = 13 ∨ c = 10 then next len ⟨(loop.i + 2 ^ 64 - 1) % 2 ^ 64, c, loop.out⟩
    else do
      Prog.writeBytes loop.out [c]
      next len ⟨loop.i, c, loop.out + 1⟩

/-- The handler of a client before its next `receiveData`; `loop` is `none` when it has ended.
`commands` lists what it dispatched, `spans` what it wrote of the command buffer. -/
structure Client where
  loop : Option Readline
  cmdBuffer : Mem
  commands : List Text
  spans : List (Nat × Nat)

namespace Client

/-- `sizeof(cmdBuffer) - 1`. -/
def lineLength : Nat := bufferLength - 1

/-- The next call of `readline`. -/
def nextLine (client : Client) : Client :=
  let p := beginReadline lineLength
  { client with
    loop := some (p.run client.cmdBuffer).1
    cmdBuffer := (p.run client.cmdBuffer).2
    spans := client.spans ++ p.spans client.cmdBuffer }

def start : Client := nextLine ⟨none, fun _ => 0, [], []⟩

/-- The rest of the loop's body in `execute`. Of the commands only `exit` ends the loop; what they do to
the sensor set, and that one may throw, is in `Handler`. -/
def dispatch (client : Client) : Client :=
  let cmd := commandOf (client.cmdBuffer.read 0 bufferLength)
  let client := { client with commands := client.commands ++ [cmd] }
  if cmd = ascii "exit" then { client with loop := none } else client.nextLine

def step (client : Client) (recv : Recv) : Client :=
  match client.loop with
  | none => client
  | some loop =>
    let p := readChar lineLength loop recv
    let result := p.run client.cmdBuffer
    let client := { client with
      cmdBuffer := result.2
      spans := client.spans ++ p.spans client.cmdBuffer }
    match result.1 with
    | .reading loop => { client with loop := some loop }
    | .returned ret => if ret = -1 then { client with loop := none } else client.dispatch

def run (results : List Recv) : Client := results.foldl step start

end Client

/-! ## One character -/

section ReadChar

variable {len k : Nat} {c : UInt8} {recv : Recv}

theorem Recv.not_size_le (hr : recv ≠ .endOfStream) : ¬ recv.size ≤ 0 := by
  cases recv with
  | byte b => exact Nat.not_succ_le_zero 0
  | endOfStream => exact absurd rfl hr
  | error => simp [Recv.size]

/-- The index is stepped back for a carriage return or a newline, and on again. -/
theorem step_back {w : Nat} (hk : k < w) : ((k + w - 1) % w + 1) % w = k := by
  cases k with
  | zero =>
    have hlast : (w - 1) % w = w - 1 := Nat.mod_eq_of_lt (by omega)
    rw [Nat.zero_add, hlast, Nat.sub_add_cancel hk, Nat.mod_self]
  | succ k =>
    have hsub : k + 1 + w - 1 = k + w := by omega
    have hmod : k % w = k := Nat.mod_eq_of_lt (by omega)
    rw [hsub, Nat.add_mod_right, hmod, Nat.mod_eq_of_lt hk]

theorem readChar_end (loop : Readline) :
    readChar len loop .endOfStream = pure (.returned (-1)) := if_pos (Nat.le_refl 0)

theorem readChar_cr (hr : recv ≠ .endOfStream) (hc : recv.char c = 13) (hk : k < len)
    (hl : len < 2 ^ 63) :
    readChar len ⟨k, c, k⟩ recv = pure (.reading ⟨k, 13, k⟩) := by
  have hi := step_back (k := k) (w := 2 ^ 64) (by omega)
  rw [readChar, if_neg (Recv.not_size_le hr), hc, if_pos (.inl rfl), next, hi]
  exact if_pos ⟨hk, (by decide : (13 : UInt8) ≠ 10)⟩

theorem readChar_newline (hr : recv ≠ .endOfStream) (hc : recv.char c = 10) (hk : k < len)
    (hl : len < 2 ^ 63) :
    readChar len ⟨k, c, k⟩ recv = .write k [0] (pure (.returned k)) := by
  have hi := step_back (k := k) (w := 2 ^ 64) (by omega)
  have hs := toSigned_of_lt (n := k) (by omega)
  rw [readChar, if_neg (Recv.not_size_le hr), hc, if_pos (.inr rfl), next, hi, hs]
  exact if_neg fun h => h.2 rfl

theorem readChar_other (hr : recv ≠ .endOfStream) (h13 : recv.char c ≠ 13)
    (h10 : recv.char c ≠ 10) (hk : k < len) (hl : len < 2 ^ 63) :
    readChar len ⟨k, c, k⟩ recv = .write k [recv.char c]
      (if k + 1 < len then pure (.reading ⟨k + 1, recv.char c, k + 1⟩)
        else .write (k + 1) [0] (pure (.returned (k + 1 : Nat)))) := by
  have hi : (k + 1) % 2 ^ 64 = k + 1 := Nat.mod_eq_of_lt (by omega)
  have hs := toSigned_of_lt (n := k + 1) (by omega)
  rw [readChar, if_neg (Recv.not_size_le hr), if_neg (by simp [h13, h10]), next, hi, hs]
  show Prog.write k [recv.char c] _ = _
  congr 1
  by_cases hlt : k + 1 < len
  · rw [if_pos hlt, if_pos ⟨hlt, h10⟩]
    rfl
  · rw [if_neg hlt, if_neg fun h => hlt h.1]
    rfl

end ReadChar

/-! ## What the handler holds -/

structure Session where
  /-- The line so far and the last character; `none` when the handler has ended. -/
  held : Option (Bytes × UInt8)
  commands : List Text
deriving DecidableEq

namespace Session

def start : Session := ⟨some ([], 0), []⟩

def take (s : Session) (line : Bytes) : Session where
  held := if commandOf line = ascii "exit" then none else some ([], 0)
  commands := s.commands ++ [commandOf line]

def step (s : Session) (recv : Recv) : Session :=
  match s.held with
  | none => s
  | some (line, c) =>
    let b := recv.char c
    if recv = .endOfStream then { s with held := none }
    else if b = 13 then { s with held := some (line, b) }
    else if b = 10 then s.take line
    else if line.length + 1 < Client.lineLength then { s with held := some (line ++ [b], b) }
    else s.take (line ++ [b])

end Session

/-- The line in the buffer, and where the loop stands. -/
structure Holds (client : Client) (line : Bytes) (c : UInt8) : Prop where
  loop : client.loop = some ⟨line.length, c, line.length⟩
  read : client.cmdBuffer.read 0 line.length = line
  short : line.length < Client.lineLength
  char : c ≠ 10

/-- The handler is in this session, and has kept to its buffer. -/
structure Shows (client : Client) (s : Session) : Prop where
  held : match s.held with
    | none => client.loop = none
    | some (line, c) => Holds client line c
  commands : client.commands = s.commands
  inside : ∀ span ∈ client.spans, Prog.Inside bufferLength span

section Refinement

variable {client : Client} {s : Session}

theorem shows_nextLine {commands : List Text} (hc : client.commands = commands)
    (hi : ∀ span ∈ client.spans, Prog.Inside bufferLength span) :
    Shows client.nextLine ⟨some ([], 0), commands⟩ where
  held := ⟨rfl, rfl, by decide, by decide⟩
  commands := hc
  inside := by
    intro span hspan
    rcases List.mem_append.mp hspan with h | h
    · exact hi span h
    · obtain rfl : span = (0, (List.replicate Client.lineLength (0 : UInt8)).length) :=
        List.mem_singleton.mp h
      rw [List.length_replicate]
      exact Prog.inside_iff.mpr (.inr (by decide))

theorem shows_start : Shows Client.start Session.start := shows_nextLine rfl nofun

theorem shows_dispatch {line : Bytes} (hm : commandOf (client.cmdBuffer.read 0 bufferLength) =
    commandOf line) (hc : client.commands = s.commands)
    (hi : ∀ span ∈ client.spans, Prog.Inside bufferLength span) :
    Shows client.dispatch (s.take line) := by
  have hcs : client.commands ++ [commandOf line] = s.commands ++ [commandOf line] := by rw [hc]
  unfold Client.dispatch Session.take
  simp only [hm]
  split
  · exact ⟨rfl, hcs, hi⟩
  · exact shows_nextLine hcs hi

theorem read_line_char {m : Mem} {line : Bytes} {b : UInt8}
    (h : m.read 0 line.length = line) :
    (m.write line.length [b]).read 0 (line.length + 1) = line ++ [b] := by
  have hline : (m.write line.length [b]).read 0 line.length = line := by
    rw [Mem.read_write_of_disjoint (.inl (Nat.le_of_eq (Nat.zero_add _))), h]
  have hchar : (m.write line.length [b]).read line.length 1 = [b] := Mem.read_write_self _ _ _
  rw [Mem.read_add, hline, Nat.zero_add, hchar]

theorem natCast_ne_neg_one (k : Nat) : (k : Int) ≠ -1 := by omega

theorem lineLength_lt : Client.lineLength < 2 ^ 63 := by decide

theorem inside_byte {off : Nat} (h : off ≤ Client.lineLength) :
    Prog.Inside bufferLength (off, 1) :=
  Prog.inside_iff.mpr (.inr (Nat.succ_le_succ h))

theorem inside_append {spans spans' : List (Nat × Nat)}
    (h : ∀ span ∈ spans, Prog.Inside bufferLength span)
    (h' : ∀ span ∈ spans', Prog.Inside bufferLength span) :
    ∀ span ∈ spans ++ spans', Prog.Inside bufferLength span := by
  intro span hspan
  rcases List.mem_append.mp hspan with hs | hs
  · exact h span hs
  · exact h' span hs

theorem shows_step (h : Shows client s) (recv : Recv) : Shows (client.step recv) (s.step recv) := by
  obtain ⟨held, hc, hi⟩ := h
  unfold Session.step
  split at held
  · next hs =>
    rw [Client.step, held]
    exact ⟨by rw [hs]; exact held, hc, hi⟩
  · next line c hs =>
    obtain ⟨hloop, hread, hshort, hchar⟩ := held
    rw [Client.step, hloop]
    simp only
    by_cases hr : recv = .endOfStream
    · rw [if_pos hr, hr, readChar_end]
      exact ⟨rfl, hc, inside_append hi nofun⟩
    rw [if_neg hr]
    by_cases h13 : recv.char c = 13
    · rw [readChar_cr hr h13 hshort lineLength_lt, if_pos h13]
      exact ⟨⟨by rw [h13]; rfl, hread, hshort, by rw [h13]; decide⟩, hc, inside_append hi nofun⟩
    rw [if_neg h13]
    by_cases h10 : recv.char c = 10
    · rw [readChar_newline hr h10 hshort lineLength_lt, if_pos h10]
      simp only [Prog.run, Prog.pure_eq, if_neg (natCast_ne_neg_one _)]
      refine shows_dispatch ?_ hc (inside_append hi ?_)
      · exact congrArg (List.map toLower) (cstr_terminated hread (Nat.lt_succ_of_lt hshort))
      · intro span hspan
        rw [List.mem_singleton.mp hspan]
        exact inside_byte (Nat.le_of_lt hshort)
    · rw [readChar_other hr h13 h10 hshort lineLength_lt, if_neg h10]
      have hread' := read_line_char (b := recv.char c) hread
      by_cases hlt : line.length + 1 < Client.lineLength
      · rw [if_pos hlt, if_pos hlt]
        refine ⟨⟨by rw [List.length_append]; rfl, by rw [List.length_append]; exact hread',
          by rw [List.length_append]; exact hlt, h10⟩, hc, inside_append hi ?_⟩
        intro span hspan
        rw [List.mem_singleton.mp hspan]
        exact inside_byte (Nat.le_of_lt hshort)
      · rw [if_neg hlt, if_neg hlt]
        simp only [Prog.run, Prog.pure_eq, if_neg (natCast_ne_neg_one _)]
        refine shows_dispatch ?_ hc (inside_append hi ?_)
        · have hlast : (line ++ [recv.char c]).length = line.length + 1 := List.length_append
          rw [← hlast] at hread' ⊢
          have hterm := cstr_terminated hread' (by rw [hlast]; exact Nat.succ_lt_succ hshort :
            (line ++ [recv.char c]).length < bufferLength)
          exact congrArg (List.map toLower) hterm
        · intro span hspan
          rcases List.mem_pair.mp hspan with rfl | rfl
          · exact inside_byte (Nat.le_of_lt hshort)
          · exact inside_byte hshort

end Refinement

theorem shows_run (results : List Recv) :
    Shows (Client.run results) (results.foldl Session.step Session.start) := by
  suffices h : ∀ client s, Shows client s →
      Shows (results.foldl Client.step client) (results.foldl Session.step s) from
    h _ _ shows_start
  induction results with
  | nil => exact fun _ _ h => h
  | cons recv results ih => exact fun client s h => ih _ _ (shows_step h recv)

/-! ## The lines of a stream -/

/-- The stream without carriage returns, in lower case. -/
def textOf (stream : Bytes) : Text := (stream.filter (· ≠ 13)).map toLower

def isExit (cmd : Text) : Bool := cmd = ascii "exit"

theorem toLower_eq_newline (c : UInt8) : toLower c = 10 ↔ c = 10 := by
  unfold toLower
  split
  · next h =>
    have h1 := UInt8.le_iff_toNat_le.mp h.1
    have h2 := UInt8.le_iff_toNat_le.mp h.2
    simp only [← UInt8.toNat_inj, UInt8.toNat_add, UInt8.reduceToNat] at *
    omega
  · exact Iff.rfl

theorem foldl_ended (results : List Recv) (commands : List Text) :
    results.foldl Session.step ⟨none, commands⟩ = ⟨none, commands⟩ := by
  induction results with
  | nil => rfl
  | cons recv results ih => exact ih

/-- The commands of a session are the pieces of its stream, up to the first `exit`. -/
theorem commands_bytes (stream line : Bytes) (c : UInt8) (commands : List Text)
    (hl : line.length < Client.lineLength) :
    ((stream.map Recv.byte).foldl Session.step ⟨some (line, c), commands⟩).commands =
      commands ++ takeThrough isExit
        ((pieces Client.lineLength 10 line (stream.filter (· ≠ 13))).map commandOf) := by
  induction stream generalizing line c commands with
  | nil => simp [pieces, takeThrough]
  | cons b bs ih =>
    have hstep : Session.step ⟨some (line, c), commands⟩ (.byte b) =
        if b = 13 then ⟨some (line, b), commands⟩
        else if b = 10 then Session.take ⟨some (line, c), commands⟩ line
        else if line.length + 1 < Client.lineLength then ⟨some (line ++ [b], b), commands⟩
        else Session.take ⟨some (line, c), commands⟩ (line ++ [b]) := rfl
    -- the stream after a command
    have htake (l : Bytes) : ((bs.map Recv.byte).foldl Session.step
        (Session.take ⟨some (line, c), commands⟩ l)).commands = commands ++ takeThrough isExit
          ((l :: pieces Client.lineLength 10 [] (bs.filter (· ≠ 13))).map commandOf) := by
      rw [List.map_cons, takeThrough, Session.take]
      by_cases hexit : commandOf l = ascii "exit"
      · have hend : isExit (commandOf l) = true := decide_eq_true hexit
        rw [if_pos hexit, if_pos hend, foldl_ended]
      · have hne : ¬ isExit (commandOf l) = true := fun h => hexit (of_decide_eq_true h)
        rw [if_neg hexit, if_neg hne, ih _ _ _ (by decide), List.append_assoc,
          List.singleton_append]
    rw [List.map_cons, List.foldl_cons, hstep]
    by_cases h13 : b = 13
    · rw [if_pos h13, ih _ _ _ hl, List.filter_cons_of_neg (by simp [h13])]
    rw [if_neg h13, List.filter_cons_of_pos (by simpa using h13), pieces]
    by_cases h10 : b = 10
    · rw [if_pos h10, if_pos h10, htake]
    rw [if_neg h10, if_neg h10]
    by_cases hlt : line.length + 1 < Client.lineLength
    · rw [if_pos hlt, if_neg (Nat.ne_of_lt hlt), ih _ _ _ (by rwa [List.length_append])]
    · rw [if_neg hlt, if_pos (by omega), htake]

theorem pieces_commandOf {n : Nat} {stream : Bytes} (h : (0 : UInt8) ∉ stream) :
    (pieces n 10 [] (stream.filter (· ≠ 13))).map commandOf = pieces n 10 [] (textOf stream) := by
  refine Eq.trans ?_ (pieces_map toLower_eq_newline [] (stream.filter (· ≠ 13))).symm
  refine List.map_congr_left fun l hl => congrArg (List.map toLower) (cstr_of_no_zero fun h0 => ?_)
  have hmem := (mem_pieces hl h0).resolve_left List.not_mem_nil
  exact h (List.mem_of_mem_filter hmem)

/-- The command strings are the lines, and the buffer is never left. -/
def OneLineOneCommand (stream : Bytes) : Prop :=
  let client := Client.run (stream.map .byte)
  client.commands = takeThrough isExit (lines 10 [] (textOf stream)) ∧
    ∀ span ∈ client.spans, Prog.Inside bufferLength span

/-- Every line of the session is shorter than the buffer takes, also the one at its end. -/
def ShortLines (stream : Bytes) : Prop :=
  let text := textOf stream
  (∀ line ∈ takeThrough isExit (lines 10 [] text), line.length < Client.lineLength) ∧
    ((∀ line ∈ lines 10 [] text, isExit line = false) →
      (remainder 10 [] text).length < Client.lineLength)

theorem commands_run {stream : Bytes} (h : (0 : UInt8) ∉ stream) :
    (Client.run (stream.map .byte)).commands =
      takeThrough isExit (pieces Client.lineLength 10 [] (textOf stream)) := by
  rw [(shows_run _).commands, Session.start, commands_bytes _ _ _ _ (by decide), pieces_commandOf h,
    List.nil_append]

theorem isExit_of_long {l : Text} (hl : Client.lineLength ≤ l.length) : isExit l = false := by
  apply decide_eq_false
  rintro rfl
  exact absurd hl (by decide)

theorem oneLineOneCommand_iff {stream : Bytes} (h : (0 : UInt8) ∉ stream) :
    OneLineOneCommand stream ↔ ShortLines stream := by
  have hiff := @pieces_eq_lines_iff _ _ Client.lineLength 10 isExit (by decide)
    (fun l => isExit_of_long) (textOf stream) [] (by decide)
  rw [OneLineOneCommand, ShortLines, ← hiff, commands_run h]
  exact and_iff_left (shows_run _).inside

/-- What comes behind `exit` is no command. -/
theorem oneLineOneCommand_iff_sample :
    (0 : UInt8) ∉ ascii "GetNodeId\r\nexit\nmonitor\n" ∧
      OneLineOneCommand (ascii "GetNodeId\r\nexit\nmonitor\n") :=
  ⟨by decide, (oneLineOneCommand_iff (by decide)).mpr (by unfold ShortLines; decide)⟩

/-- The newline behind a line that just fits is a command of its own. -/
theorem full_line_two_commands :
    (0 : UInt8) ∉ List.replicate Client.lineLength 97 ++ [10] ∧
      ¬ OneLineOneCommand (List.replicate Client.lineLength 97 ++ [10]) := by
  generalize hl : List.replicate Client.lineLength (97 : UInt8) = line
  have hlen : line.length = Client.lineLength := by rw [← hl, List.length_replicate]
  have hmem : ∀ c ∈ line, c = 97 := fun c hc => List.eq_of_mem_replicate (hl ▸ hc)
  have hnot (c : UInt8) (hc : c ≠ 97) : c ∉ line := fun h => hc (hmem c h)
  have h0 : (0 : UInt8) ∉ line ++ [10] := by simp [hnot 0 (by decide)]
  have htext : textOf (line ++ [10]) = line ++ [10] := by
    rw [textOf, List.filter_eq_self.mpr, List.map_append, List.map_congr_left (g := id), List.map_id]
    · rfl
    · intro c hc
      rw [hmem c hc]
      rfl
    · intro c hc
      rcases List.mem_append.mp hc with hc | hc
      · rw [hmem c hc]; rfl
      · rw [List.mem_singleton.mp hc]; rfl
  have hne : line ≠ [] := by
    rintro rfl
    exact absurd hlen (by decide)
  refine ⟨h0, fun h => ?_⟩
  have hc := h.1
  rw [commands_run h0, htext, lines_append (hnot 10 (by decide)),
    pieces_full (hnot 10 (by decide)) hne _ _ (by rw [hlen]; rfl)] at hc
  have hexit : isExit line = false := isExit_of_long (Nat.le_of_eq hlen.symm)
  simp [takeThrough, hexit, lines, pieces] at hc

theorem pieces_readline {n len : Nat} {held : Bytes} (hn : held.length + len = n) (hlen : 0 < len)
    (stream : Bytes) : pieces n 10 held (stream.filter (· ≠ 13)) =
      match readline len stream with
      | none => []
      | some (line, rest) => (held ++ line) :: pieces n 10 [] (rest.filter (· ≠ 13)) := by
  induction stream generalizing held len with
  | nil =>
    obtain ⟨k, rfl⟩ := Nat.exists_eq_add_of_lt hlen
    rfl
  | cons c cs ih =>
    obtain ⟨k, rfl⟩ := Nat.exists_eq_add_of_lt hlen
    rw [Nat.zero_add, readline]
    by_cases h13 : c = 13
    · rw [if_neg (by rw [h13]; decide), if_pos h13, List.filter_cons_of_neg (by simp [h13]),
        ih hn hlen, Nat.zero_add]
    rw [List.filter_cons_of_pos (by simpa using h13), pieces, if_neg h13]
    by_cases h10 : c = 10
    · simp only [if_pos h10, List.append_nil]
    rw [if_neg h10, if_neg h10]
    have hheld : (held ++ [c]).length = held.length + 1 := List.length_append
    by_cases hk : k = 0
    · subst hk
      rw [if_pos (by omega), readline]
      rfl
    · rw [if_neg (by omega), @ih k _ (by omega) (Nat.pos_of_ne_zero hk)]
      cases readline k cs with
      | none => rfl
      | some p => simp

/-! ## A dead connection -/

/-- The session has ended exactly if its last command was `exit`. -/
def Session.EndedByExit (s : Session) : Prop := s.held = none ↔ ascii "exit" ∈ s.commands

theorem endedByExit_take {s : Session} (line : Bytes) (h : ascii "exit" ∉ s.commands) :
    (s.take line).EndedByExit := by
  unfold Session.EndedByExit Session.take
  by_cases hexit : commandOf line = ascii "exit"
  · simp [hexit]
  · simp [hexit, h, Ne.symm hexit]

theorem endedByExit_byte {s : Session} (h : s.EndedByExit) (b : UInt8) :
    (s.step (.byte b)).EndedByExit := by
  unfold Session.step
  split
  · exact h
  · next line c hs =>
    have hnot : ascii "exit" ∉ s.commands := fun hm => by
      rw [h.mpr hm] at hs
      cases hs
    have hreading (held : Bytes × UInt8) : Session.EndedByExit { s with held := some held } :=
      iff_of_false nofun hnot
    simp only [reduceCtorEq, if_false]
    split
    · exact hreading _
    split
    · exact endedByExit_take _ hnot
    split
    · exact hreading _
    · exact endedByExit_take _ hnot

theorem endedByExit_bytes (stream : Bytes) :
    ((stream.map Recv.byte).foldl Session.step Session.start).EndedByExit := by
  suffices h : ∀ s : Session, s.EndedByExit →
      ((stream.map Recv.byte).foldl Session.step s).EndedByExit from
    h _ (iff_of_false nofun nofun)
  induction stream with
  | nil => exact fun _ h => h
  | cons b bs ih => exact fun s h => ih _ (endedByExit_byte h b)

theorem errors_cr (n : Nat) (line : Bytes) (commands : List Text) :
    (List.replicate n Recv.error).foldl Session.step ⟨some (line, 13), commands⟩ =
      ⟨some (line, 13), commands⟩ := by
  induction n with
  | zero => rfl
  | succ n ih => exact ih

theorem errors_fill {c : UInt8} (h13 : c ≠ 13) (h10 : c ≠ 10) (k : Nat) (line : Bytes)
    (commands : List Text) (hk : line.length + k + 1 = Client.lineLength) :
    ∃ cmd, ((List.replicate (k + 1) Recv.error).foldl Session.step
      ⟨some (line, c), commands⟩).commands = commands ++ [cmd] := by
  induction k generalizing line with
  | zero =>
    refine ⟨commandOf (line ++ [c]), ?_⟩
    simp [Session.step, Recv.char, h13, h10, ← hk, Session.take]
  | succ k ih =>
    obtain ⟨cmd, hcmd⟩ := ih (line ++ [c]) (by simp; omega)
    refine ⟨cmd, hcmd ▸ ?_⟩
    rw [List.replicate_succ, List.foldl_cons]
    have hlt : line.length + 1 < Client.lineLength := by omega
    simp [Session.step, Recv.char, h13, h10, hlt]

/-- The handler ends, and dispatches nothing but what had come. -/
def EndsCleanly (stream : Bytes) (tail : Recv) : Prop :=
  let after (n : Nat) := Client.run (stream.map .byte ++ List.replicate n tail)
  (∃ n, (after n).loop = none) ∧ ∀ n, (after n).commands = (after 0).commands

theorem Shows.ended_iff {client : Client} {s : Session} (h : Shows client s) :
    client.loop = none ↔ s.held = none := by
  have hheld := h.held
  cases hs : s.held with
  | none =>
    rw [hs] at hheld
    exact iff_of_true hheld rfl
  | some held =>
    rw [hs] at hheld
    rw [hheld.loop]
    exact iff_of_false nofun nofun

/-- The handler of a client, and the set its commands work on. -/
structure Handler where
  client : Client
  sensors : SensorSet

/-- One `receiveData`, and the command it completes, which `execute` takes as it would its line
(`execute_commandOf`). Nobody catches what that throws: the process ends. -/
def Handler.step (deserialize : Deserialize) (pf : Platform) (h : Handler) (recv : Recv) :
    Except Fault Handler := do
  let client := h.client.step recv
  let sensors ←
    executeAll deserialize pf (client.commands.drop h.client.commands.length) h.sensors
  pure ⟨client, sensors⟩

section Handler

variable {deserialize : Deserialize} {pf : Platform}

theorem execute_commandOf (line : Bytes) (set : SensorSet) :
    execute deserialize pf (commandOf line) set = execute deserialize pf line set := by
  unfold execute
  rw [commandOf_commandOf]

theorem commands_step (client : Client) (recv : Recv) :
    ∃ cmds, (client.step recv).commands = client.commands ++ cmds := by
  have hdispatch (client : Client) : ∃ cmds, client.dispatch.commands = client.commands ++ cmds := by
    unfold Client.dispatch
    dsimp only
    split <;> exact ⟨_, rfl⟩
  unfold Client.step
  split
  · exact ⟨[], (List.append_nil _).symm⟩
  dsimp only
  split
  · exact ⟨[], (List.append_nil _).symm⟩
  split
  · exact ⟨[], (List.append_nil _).symm⟩
  · exact hdispatch _

theorem executeAll_append (cmds cmds' : List Bytes) (set : SensorSet) :
    executeAll deserialize pf (cmds ++ cmds') set =
      executeAll deserialize pf cmds set >>= executeAll deserialize pf cmds' :=
  List.foldlM_append

/-- The commands of a handler at work are executed in their order. -/
theorem handler_foldlM (results : List Recv) (client : Client) (set : SensorSet) :
    ∃ cmds, (results.foldl Client.step client).commands = client.commands ++ cmds ∧
      results.foldlM (Handler.step deserialize pf) ⟨client, set⟩ =
        (executeAll deserialize pf cmds set).map (⟨results.foldl Client.step client, ·⟩) := by
  induction results generalizing client set with
  | nil => exact ⟨[], (List.append_nil _).symm, rfl⟩
  | cons recv results ih =>
    obtain ⟨now, hnow⟩ := commands_step client recv
    obtain ⟨later, hlater, -⟩ := ih (client.step recv) set
    refine ⟨now ++ later, by rw [List.foldl_cons, hlater, hnow, List.append_assoc], ?_⟩
    rw [List.foldlM_cons, Handler.step, hnow, List.drop_left, executeAll_append]
    cases executeAll deserialize pf now set with
    | error fault => rfl
    | ok set' =>
      obtain ⟨later', hlater', h⟩ := ih (client.step recv) set'
      rw [List.append_cancel_left (hlater'.symm.trans hlater)] at h
      exact h

/-- **The handler runs as `Client.run` has it until a command throws**, and the set is what the
commands make of it one after the other. -/
theorem handler_run (results : List Recv) (set : SensorSet) :
    results.foldlM (Handler.step deserialize pf) ⟨Client.start, set⟩ =
      (executeAll deserialize pf (Client.run results).commands set).map (⟨Client.run results, ·⟩) := by
  obtain ⟨cmds, hc, h⟩ := @handler_foldlM deserialize pf results .start set
  have hcmds : (Client.run results).commands = cmds := hc
  rw [h, hcmds]
  rfl

end Handler

end TelnetServer

end RecsDaemon
