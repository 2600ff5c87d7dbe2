import RecsDaemon.Communicator
import RecsDaemon.Base.Access

/-!
# The Command branch

What `Daemon::run` does with a Command message, as a program over the buffer of
`msgSize` bytes it allocates. The branch stays in the buffer, and calls
`executeCommand` with verified bytes only, exactly for the messages that are long
enough for what they say (`contained_iff`).
-/

namespace RecsDaemon

open Base

namespace Daemon

/-- `getBaseboardID()` and `getSlot()` of the node. -/
structure NodeAddress where
  baseboard : UInt8
  slot : UInt8
deriving DecidableEq

structure Call where
  command : Text
  parameters : Text
deriving DecidableEq

/-- How the branch ends: the rest of the message was not read, no command was executed, or one was,
with the bytes `checkSignature` had accepted. -/
inductive CommandResult where
  | unread
  | ignored
  | executed (verified : Bytes) (call : Call)
deriving DecidableEq

section Branch

variable (checkSignature : Bytes → Bytes → Bool) (node : NodeAddress) (messageMaxSize msgSize : Nat)

/-- After the check of the signature. -/
def runVerified (verified : Bytes) : Prog CommandResult := do
  -- the signature behind the command is zero, so its first byte ends the string
  let len ← Prog.strlen (commandMaxLength + 1) CommandHeader.command
  let parametersLength ← Prog.readBytes CommandHeader.parametersLength 2
  let commandLen := min commandMaxLength len
  let parametersLen := min (ofBE parametersLength) (min msgSize messageMaxSize)
  let command ← Prog.readBytes CommandHeader.command commandLen
  let parameters ← Prog.readBytes CommandHeader.sizeof parametersLen
  pure (.executed verified ⟨command, parameters⟩)

/-- For a message to this node: the signature is kept and set to zero in the message. -/
def runAddressed : Prog CommandResult := do
  let cmdSignature ← Prog.readBytes CommandHeader.signature signatureLength
  Prog.writeBytes CommandHeader.signature (List.replicate signatureLength 0)
  let data ← Prog.readBytes 0 msgSize
  if checkSignature data cmdSignature then runVerified messageMaxSize msgSize data
  else pure .ignored

/-- For a message to another node: the error message names its address. -/
def logWrongAddress : Prog CommandResult := do
  let _ ← Prog.readBytes CommandHeader.slot 1
  let _ ← Prog.readBytes CommandHeader.baseboard 1
  pure .ignored

/-- The message is in the buffer: is it for this node? -/
def runAssembled : Prog CommandResult := do
  let baseboard ← Prog.readBytes CommandHeader.baseboard 1
  if baseboard = [node.baseboard] then do
    let slot ← Prog.readBytes CommandHeader.slot 1
    if slot = [node.slot] then runAddressed checkSignature messageMaxSize msgSize
    else logWrongAddress
  else logWrongAddress

/-- The branch from the `readData` call on, `msg` being the four bytes of the header read before. -/
def handleCommand (msg : Bytes) (r : ReadReply) : Prog CommandResult := do
  -- `msgSize - sizeof(Message_Header)` is a `size_t`
  Prog.fillBytes MessageHeader.sizeof ((msgSize + 2 ^ 64 - MessageHeader.sizeof) % 2 ^ 64) r.buf
  if r.taken then do
    Prog.writeBytes 0 msg
    runAssembled checkSignature node messageMaxSize msgSize
  else pure .unread

end Branch

/-! ## Messages that are long enough -/

/-- The bytes of a message whose signature is zero. -/
def signedBytes (msg : Bytes) (msgSize : Nat) (body : Mem) : Bytes :=
  msg ++ body.read 0 70 ++ List.replicate signatureLength 0 ++ body.read 198 (msgSize - 202)

/-- The message is long enough for all that the branch looks at: after a failed read the header,
else the address; for its own node the signature; and when that is right, the parameters. -/
def LongEnough (checkSignature : Bytes → Bytes → Bool) (node : NodeAddress) (msgSize : Nat)
    (msg : Bytes) (r : ReadReply) : Prop :=
  4 ≤ msgSize ∧ (r.taken → 6 ≤ msgSize ∧
    (r.buf 0 = node.baseboard → r.buf 1 = node.slot → 202 ≤ msgSize ∧
      (checkSignature (signedBytes msg msgSize r.buf) (r.buf.read 70 128) →
        204 + ofBE (r.buf.read 198 2) ≤ msgSize)))

/-- Whatever the allocated memory and the bytes behind it hold: all accesses are in the buffer, a
call is made of verified bytes, and another run with the same message bytes ends the same way. -/
structure Contained (checkSignature : Bytes → Bytes → Bool) (node : NodeAddress)
    (messageMaxSize msgSize : Nat) (msg : Bytes) (r : ReadReply) : Prop where
  within : ∀ m, (handleCommand checkSignature node messageMaxSize msgSize msg r).Within msgSize m
  verified : ∀ m bytes call,
    ((handleCommand checkSignature node messageMaxSize msgSize msg r).run m).1 =
        .executed bytes call →
      call.command = slice CommandHeader.command call.command.length bytes ∧
        call.parameters = slice CommandHeader.sizeof call.parameters.length bytes
  determined : ∀ m m' r', r'.ret = r.ret → (∀ i < msgSize - 4, r'.buf i = r.buf i) →
    ((handleCommand checkSignature node messageMaxSize msgSize msg r').run m').1 =
      ((handleCommand checkSignature node messageMaxSize msgSize msg r).run m).1

section Within

variable {checkSignature : Bytes → Bytes → Bool} {node : NodeAddress}
  {messageMaxSize msgSize : Nat} {msg : Bytes} {r : ReadReply} {m : Mem}

theorem within_logWrongAddress : logWrongAddress.Within msgSize m ↔ 6 ≤ msgSize := by
  simp [logWrongAddress, CommandHeader.slot, CommandHeader.baseboard]; omega

/-- After the check the parameters have to be there. -/
theorem within_runVerified (verified : Bytes) (h0 : m 74 = 0) (hle : msgSize ≤ messageMaxSize) :
    (runVerified messageMaxSize msgSize verified).Within msgSize m ↔
      204 + ofBE (m.read 202 2) ≤ msgSize := by
  have hscan (size : Nat) (hs : 75 ≤ size) := Prog.strlen_spec size (commandMaxLength + 1)
    CommandHeader.command (k := 64) (m := m) (by decide) h0
    (by simp only [CommandHeader.command]; omega)
  have hmem := (hscan 75 (Nat.le_refl _)).2.1
  simp only [runVerified, Prog.within_bind, hmem, Prog.readBytes_bind, Prog.within_read,
    Prog.pure_eq, Prog.within_ret, and_true, OfNat.ofNat_ne_zero, false_or,
    CommandHeader.parametersLength_eq, CommandHeader.sizeof_eq, min_eq_left hle]
  generalize ofBE (m.read 202 2) = len
  constructor
  · rintro ⟨-, h1, -, h2⟩
    omega
  · intro h
    refine ⟨(hscan msgSize (by omega)).2.2, by omega, .inr ?_, by omega⟩
    simp only [CommandHeader.command, commandMaxLength]
    omega

def zeroed (m : Mem) : Mem := m.write CommandHeader.signature (List.replicate signatureLength 0)

theorem zeroed_signature : zeroed m 74 = 0 := by
  have h := Mem.write_inside m CommandHeader.signature (List.replicate signatureLength 0) (i := 0)
    (by simp [signatureLength])
  rw [List.getElem_replicate] at h
  exact h

theorem zeroed_parametersLength : (zeroed m).read 202 2 = m.read 202 2 :=
  Mem.read_write_of_disjoint (.inr (by simp [CommandHeader.signature, CommandHeader.command,
    commandMaxLength, signatureLength]))

/-- For its own node the message has to hold the signature. -/
theorem within_runAddressed (hle : msgSize ≤ messageMaxSize) :
    (runAddressed checkSignature messageMaxSize msgSize).Within msgSize m ↔
      202 ≤ msgSize ∧ (checkSignature ((zeroed m).read 0 msgSize) (m.read 74 128) →
        204 + ofBE (m.read 202 2) ≤ msgSize) := by
  have hv (verified : Bytes) := within_runVerified (m := zeroed m) verified zeroed_signature hle
  rw [zeroed_parametersLength] at hv
  have hif (data sig : Bytes) : (if checkSignature data sig then
      runVerified messageMaxSize msgSize data else pure .ignored).Within msgSize (zeroed m) ↔
        (checkSignature data sig → 204 + ofBE (m.read 202 2) ≤ msgSize) := by
    cases checkSignature data sig
    · simp
    · simpa using hv data
  simp only [runAddressed, Prog.readBytes_bind, Prog.writeBytes_bind, Prog.within_read,
    Prog.within_write]
  have hz : m.write CommandHeader.signature (List.replicate signatureLength 0) = zeroed m := rfl
  rw [hz, hif]
  simp only [CommandHeader.signature, CommandHeader.command, commandMaxLength, signatureLength,
    List.length_replicate, OfNat.ofNat_ne_zero, false_or]
  constructor
  · rintro ⟨h1, -, -, h2⟩; exact ⟨h1, h2⟩
  · rintro ⟨h1, h2⟩; exact ⟨h1, h1, by omega, h2⟩

/-- The address is looked at in any case. -/
theorem within_runAssembled (hle : msgSize ≤ messageMaxSize) :
    (runAssembled checkSignature node messageMaxSize msgSize).Within msgSize m ↔
      6 ≤ msgSize ∧ (m 4 = node.baseboard → m 5 = node.slot →
        202 ≤ msgSize ∧ (checkSignature ((zeroed m).read 0 msgSize) (m.read 74 128) →
          204 + ofBE (m.read 202 2) ≤ msgSize)) := by
  simp only [runAssembled, Prog.readBytes_bind, Prog.within_read, one_ne_zero, false_or,
    CommandHeader.baseboard, CommandHeader.slot, Mem.read_one, List.cons.injEq, and_true]
  by_cases hb : m 4 = node.baseboard
  · simp only [hb, if_true, Prog.within_read, one_ne_zero, false_or, Mem.read_one, List.cons.injEq,
      and_true, forall_const]
    by_cases hs : m 5 = node.slot
    · simp only [hs, if_true, within_runAddressed hle, forall_const]
      constructor
      · rintro ⟨-, h1, h2⟩; exact ⟨h1, h2⟩
      · rintro ⟨h1, h2⟩; exact ⟨by omega, h1, h2⟩
    · simp only [hs, if_false, within_logWrongAddress, false_imp_iff, and_true]
      omega
  · simp only [hb, if_false, within_logWrongAddress, false_imp_iff, and_true]
    omega

def assembled (msg : Bytes) (msgSize : Nat) (r : ReadReply) (m : Mem) : Mem :=
  (m.fill MessageHeader.sizeof (msgSize - 4) r.buf).write 0 msg

theorem assembled_read (hm : msg.length = 4) {a n : Nat} (h : 4 + a + n ≤ msgSize) :
    (assembled msg msgSize r m).read (4 + a) n = r.buf.read a n := by
  rw [assembled, Mem.read_write_of_disjoint (.inr (by omega))]
  apply List.map_congr_left
  intro i hi
  have hi := List.mem_range.mp hi
  rw [Nat.add_assoc]
  exact Mem.fill_inside (by omega)

theorem assembled_at (hm : msg.length = 4) {a : Nat} (h : 4 + a < msgSize) :
    assembled msg msgSize r m (4 + a) = r.buf a := by
  have := assembled_read (r := r) (m := m) (n := 1) hm h
  rw [Mem.read_one, Mem.read_one, List.cons.injEq] at this
  exact this.1

theorem zeroed_assembled (hm : msg.length = 4) (h : 202 ≤ msgSize) :
    (zeroed (assembled msg msgSize r m)).read 0 msgSize = signedBytes msg msgSize r.buf := by
  have hl : (List.replicate signatureLength (0 : UInt8)).length = 128 := List.length_replicate
  have h1 : (zeroed (assembled msg msgSize r m)).read 0 4 = msg := by
    rw [zeroed, Mem.read_write_of_disjoint (.inl (by rw [CommandHeader.signature_eq]; omega)),
      assembled, ← hm]
    exact Mem.read_write_self _ _ _
  have h2 : (zeroed (assembled msg msgSize r m)).read 4 70 = r.buf.read 0 70 := by
    rw [zeroed, Mem.read_write_of_disjoint (.inl (by rw [CommandHeader.signature_eq]))]
    exact assembled_read hm (a := 0) (by omega)
  have h3 : (zeroed (assembled msg msgSize r m)).read 74 128 =
      List.replicate signatureLength 0 := by
    rw [← hl]; exact Mem.read_write_self _ _ _
  have h4 : (zeroed (assembled msg msgSize r m)).read 202 (msgSize - 202) =
      r.buf.read 198 (msgSize - 202) := by
    rw [zeroed, Mem.read_write_of_disjoint (.inr (by rw [CommandHeader.signature_eq, hl]))]
    exact assembled_read hm (a := 198) (by omega)
  generalize zeroed (assembled msg msgSize r m) = z at *
  have hsplit : msgSize = 4 + 70 + 128 + (msgSize - 202) := by omega
  conv_lhs => rw [hsplit, Mem.read_add, Mem.read_add, Mem.read_add]
  simp only [Nat.zero_add, Nat.reduceAdd]
  rw [h1, h2, h3, h4, signedBytes]

theorem within_assembled (hm : msg.length = 4) (hle : msgSize ≤ messageMaxSize) :
    (runAssembled checkSignature node messageMaxSize msgSize).Within msgSize
        (assembled msg msgSize r m) ↔
      6 ≤ msgSize ∧ (r.buf 0 = node.baseboard → r.buf 1 = node.slot → 202 ≤ msgSize ∧
        (checkSignature (signedBytes msg msgSize r.buf) (r.buf.read 70 128) →
          204 + ofBE (r.buf.read 198 2) ≤ msgSize)) := by
  rw [within_runAssembled hle]
  by_cases h6 : 6 ≤ msgSize
  swap
  · simp only [h6, false_and]
  have hb : assembled msg msgSize r m 4 = r.buf 0 := assembled_at hm (a := 0) (by omega)
  have hs : assembled msg msgSize r m 5 = r.buf 1 := assembled_at hm (a := 1) (by omega)
  rw [hb, hs]
  by_cases h202 : 202 ≤ msgSize
  swap
  · simp only [h202, false_and]
  have hsig : (assembled msg msgSize r m).read 74 128 = r.buf.read 70 128 :=
    assembled_read hm (a := 70) (by omega)
  rw [hsig, zeroed_assembled hm h202]
  by_cases h204 : 204 ≤ msgSize
  · have hlen : (assembled msg msgSize r m).read 202 2 = r.buf.read 198 2 :=
      assembled_read hm (a := 198) (by omega)
    rw [hlen]
  · have hno (n : Nat) : ¬ 204 + n ≤ msgSize := by omega
    simp only [hno]

/-- A failed read leaves the branch; else the whole message is looked at. -/
theorem within_handleCommand (hm : msg.length = 4) (hsize : msgSize < 2 ^ 16)
    (hle : msgSize ≤ messageMaxSize) :
    (handleCommand checkSignature node messageMaxSize msgSize msg r).Within msgSize m ↔
      LongEnough checkSignature node msgSize msg r := by
  by_cases h4 : 4 ≤ msgSize
  swap
  · refine iff_of_false (fun h => ?_) fun h => h4 h.1
    simp only [handleCommand, Prog.fillBytes_bind, Prog.within_fill, MessageHeader.sizeof] at h
    omega
  have hcnt : (msgSize + 2 ^ 64 - MessageHeader.sizeof) % 2 ^ 64 = msgSize - 4 := by
    simp only [MessageHeader.sizeof]; omega
  have hfill : msgSize - 4 = 0 ∨ MessageHeader.sizeof + (msgSize - 4) ≤ msgSize := by
    simp only [MessageHeader.sizeof]; omega
  have hw : msg.length = 0 ∨ 0 + msg.length ≤ msgSize := .inr (by omega)
  have ha : (m.fill MessageHeader.sizeof (msgSize - 4) r.buf).write 0 msg =
      assembled msg msgSize r m := rfl
  simp only [handleCommand, Prog.fillBytes_bind, Prog.within_fill, hcnt, hfill, true_and,
    LongEnough, h4]
  cases r.taken with
  | false => simp
  | true =>
    simp only [if_true, Prog.writeBytes_bind, Prog.within_write, hw, true_and, ha,
      within_assembled hm hle, forall_const]

end Within

/-! ## What is executed -/

section Run

variable {checkSignature : Bytes → Bytes → Bool} {node : NodeAddress}
  {messageMaxSize msgSize : Nat} {msg : Bytes} {r : ReadReply} {m : Mem}

theorem run_runVerified (messageMaxSize msgSize : Nat) (verified : Bytes) (h0 : m 74 = 0) :
    ∃ n ≤ commandMaxLength, ((runVerified messageMaxSize msgSize verified).run m).1 =
      .executed verified ⟨m.read CommandHeader.command n, m.read CommandHeader.sizeof
        (min (ofBE (m.read 202 2)) (min msgSize messageMaxSize))⟩ := by
  have hmem := (Prog.strlen_spec 75 (commandMaxLength + 1) CommandHeader.command (k := 64) (m := m)
    (by decide) h0 (by decide)).2.1
  refine ⟨min commandMaxLength ((Prog.strlen (commandMaxLength + 1) CommandHeader.command).run m).1,
    min_le_left _ _, ?_⟩
  simp only [runVerified, Prog.run_bind, hmem, Prog.readBytes_bind, Prog.run, Prog.pure_eq]
  rfl

/-- A command is executed only for a message to this node with a right signature; the call is made
of the bytes that were checked. -/
theorem run_runAssembled {verified : Bytes} {call : Call}
    (h : ((runAssembled checkSignature node messageMaxSize msgSize).run m).1 =
      .executed verified call) :
    m 4 = node.baseboard ∧ m 5 = node.slot ∧
      checkSignature ((zeroed m).read 0 msgSize) (m.read 74 128) ∧
      verified = (zeroed m).read 0 msgSize ∧ ∃ n ≤ commandMaxLength,
        call = ⟨(zeroed m).read CommandHeader.command n, (zeroed m).read CommandHeader.sizeof
          (min (ofBE (m.read 202 2)) (min msgSize messageMaxSize))⟩ := by
  simp only [runAssembled, Prog.readBytes_bind, Prog.run, CommandHeader.baseboard,
    CommandHeader.slot, Mem.read_one, List.cons.injEq, and_true] at h
  split at h
  · next hb =>
    simp only [Prog.run, Mem.read_one, List.cons.injEq, and_true] at h
    split at h
    · next hs =>
      simp only [runAddressed, Prog.readBytes_bind, Prog.writeBytes_bind, Prog.run] at h
      split at h
      · next hc =>
        obtain ⟨n, hn, he⟩ := run_runVerified messageMaxSize msgSize ((zeroed m).read 0 msgSize)
          zeroed_signature
        rw [zeroed_parametersLength] at he
        obtain ⟨rfl, rfl⟩ := CommandResult.executed.inj (he.symm.trans h)
        exact ⟨hb, hs, hc, rfl, n, hn, rfl⟩
      · cases h
    · cases h
  · cases h

theorem run_handleCommand (h4 : 4 ≤ msgSize) (hsize : msgSize < 2 ^ 16) :
    ((handleCommand checkSignature node messageMaxSize msgSize msg r).run m).1 =
      if r.taken then ((runAssembled checkSignature node messageMaxSize msgSize).run
        (assembled msg msgSize r m)).1
      else .unread := by
  have hcnt : (msgSize + 2 ^ 64 - MessageHeader.sizeof) % 2 ^ 64 = msgSize - 4 := by
    simp only [MessageHeader.sizeof]; omega
  simp only [handleCommand, Prog.fillBytes_bind, hcnt, Prog.run]
  cases r.taken <;> rfl

theorem agree_assembled {r' : ReadReply} {m' : Mem} (hm : msg.length = 4)
    (h : ∀ i < msgSize - 4, r'.buf i = r.buf i) :
    Prog.Agree msgSize (assembled msg msgSize r m) (assembled msg msgSize r' m') := by
  intro a ha
  rcases Nat.lt_or_ge a 4 with h4 | h4
  · have h1 (r : ReadReply) (m : Mem) : assembled msg msgSize r m (0 + a) = msg[a] :=
      Mem.write_inside _ _ _ (by omega)
    rw [← Nat.zero_add a, h1, h1]
  · obtain ⟨b, rfl⟩ := Nat.exists_eq_add_of_le h4
    rw [assembled_at hm ha, assembled_at hm ha, h b (by omega)]

/-- **The branch stays in the signed message exactly for messages that are long enough.** -/
theorem contained_iff (hm : msg.length = 4) (hsize : msgSize < 2 ^ 16)
    (hle : msgSize ≤ messageMaxSize) :
    Contained checkSignature node messageMaxSize msgSize msg r ↔
      LongEnough checkSignature node msgSize msg r := by
  constructor
  · intro h
    exact (within_handleCommand hm hsize hle).mp (h.within fun _ => 0)
  intro h
  have hwithin (m : Mem) := (within_handleCommand (m := m) hm hsize hle).mpr h
  have h4 := h.1
  refine ⟨hwithin, fun m verified call hrun => ?_, fun m m' r' hret hbody => ?_⟩
  · rw [run_handleCommand h4 hsize] at hrun
    split at hrun
    · next ht =>
      obtain ⟨hb, hs, hc, rfl, n, hn, rfl⟩ := run_runAssembled hrun
      obtain ⟨h6, h2⟩ := h.2 ht
      rw [show (4 : Nat) = 4 + 0 from rfl, assembled_at hm (by omega)] at hb
      rw [show (5 : Nat) = 4 + 1 from rfl, assembled_at hm (by omega)] at hs
      obtain ⟨h202, h3⟩ := h2 hb hs
      rw [zeroed_assembled hm h202, show (74 : Nat) = 4 + 70 from rfl,
        assembled_read hm (by omega)] at hc
      have h204 := h3 hc
      rw [show (202 : Nat) = 4 + 198 from rfl, assembled_read hm (by omega)]
      simp only [Mem.length_read]
      simp only [commandMaxLength] at hn
      rw [Mem.slice_read, Mem.slice_read]
      · exact ⟨rfl, rfl⟩
      · rw [CommandHeader.sizeof_eq]
        generalize ofBE (r.buf.read 198 2) = len at *
        omega
      · simp only [CommandHeader.command]; omega
    · cases hrun
  · have ht : r'.taken = r.taken := by rw [ReadReply.taken, ReadReply.taken, hret]
    rw [run_handleCommand h4 hsize, run_handleCommand h4 hsize, ht]
    split
    · next htk =>
      have hw : (runAssembled checkSignature node messageMaxSize msgSize).Within msgSize
          (assembled msg msgSize r m) := (within_assembled hm hle).mpr (h.2 htk)
      exact ((Prog.run_congr (agree_assembled hm hbody) hw).1).symm
    · rfl

end Run

/-- A command without parameters, of the least size. -/
theorem contained_iff_sample :
    Contained (fun _ _ => true) ⟨0, 0⟩ 300 204 [3, 0, 204, 0] ⟨200, fun _ => 0⟩ :=
  (contained_iff rfl (by decide) (by decide)).mpr
    ⟨by decide, fun _ => ⟨by decide, fun _ _ => ⟨by decide, fun _ => by decide⟩⟩⟩

/-- Six bytes addressed to the node: the signature is not among them. -/
theorem short_command_not_contained :
    ¬ Contained (fun _ _ => false) ⟨0, 0⟩ 300 6 [3, 0, 6, 0] ⟨2, fun _ => 0⟩ := by
  intro h
  have hlong := (within_handleCommand rfl (by decide) (by decide)).mp (h.within fun _ => 0)
  have h202 := ((hlong.2 rfl).2 rfl rfl).1
  omega

end Daemon

end RecsDaemon
