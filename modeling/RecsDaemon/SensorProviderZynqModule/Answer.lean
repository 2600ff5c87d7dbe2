import RecsDaemon.SensorProviderZynqModule
import RecsDaemon.Base.CString

/-!
# The answers in the receive buffer

Both getters end the answer with a zero behind the bytes read, look for the echo
of their command and cut the string at a carriage return. The zero has its place
unless the answer fills the buffer (`answers_fit_iff`).
-/

namespace RecsDaemon

open Base

namespace SensorProviderZynqModule

/-! ## The code -/

def maxReceiveSize : Nat := 2048

/-- A string of the buffer ends at the zero behind the bytes read. -/
def strlen (offset : Nat) : Prog Nat := Prog.strlen (maxReceiveSize + 1) offset

def strstr (echo : Bytes) : Prog (Option Nat) := do
  let n ← strlen 0
  let bs ← Prog.readBytes 0 n
  pure (firstFrom (fun p => echo.isPrefixOf (bs.drop p)) (n + 1) 0)

def strchr (start : Nat) (c : UInt8) : Prog (Option Nat) := do
  let n ← strlen start
  let bs ← Prog.readBytes start n
  pure ((firstFrom (fun p => bs[p]? == some c) n 0).map (start + ·))

/-- Nothing is returned yet, or the empty literal, or a string of the buffer. -/
inductive Answer where
  | waiting
  | literal
  | buffer (start : Nat)

/-- The string from `start` on, chopped off at a carriage return. -/
def chop (start : Nat) : Prog Answer := do
  let ptr ← strchr start 13
  match ptr with
  | some p => do
    Prog.writeBytes p [0]
    pure (.buffer start)
  | none => pure (.buffer start)

/-- Behind the echo, if it is found. -/
def startOf : Option Nat → Nat
  | some p => p + 3
  | none => 0

/-- What a getter does with `read` bytes. -/
def finish (echo : Bytes) (read : Nat) : Prog Answer := do
  Prog.writeBytes read [0]
  let found ← strstr echo
  chop (startOf found)

/-- A getter after its command. -/
def answer (echo : Bytes) (reads : List ReadData) : Prog Answer := do
  let n ← readUntilTerminator 10 20 reads
  match n with
  | none => pure .waiting
  | some n => if 0 < toSigned n then finish echo n else pure .literal

def getSensorsDescription (reads : List ReadData) : Prog Answer := answer (ascii "d\r\n") reads

def getSensorsData (reads : List ReadData) : Prog Answer := answer (ascii "m\r\n") reads

/-- Chunks as `ReadData` is asked for them. -/
def Delivered : Nat → List ReadData → Prop
  | _, [] => True
  | remainingSize, r :: reads =>
    r.bytes.length ≤ remainingSize ∧ (0 < r.ret → Delivered (remainingSize - r.bytes.length) reads)

/-! ## Reading -/

section Reading

variable {t i : UInt8} {m : Mem}

theorem readFrom_within (reads : List ReadData) {size readTotal remainingSize : Nat} {m : Mem}
    (hd : Delivered remainingSize reads) (hs : readTotal + remainingSize = size) :
    (readFrom t i readTotal reads).Within size m := by
  induction reads generalizing readTotal remainingSize m with
  | nil => simp [readFrom]
  | cons r reads ih =>
    obtain ⟨hlen, hrest⟩ := hd
    rw [readFrom]
    split
    · next hret =>
      simp only [Prog.writeBytes_bind, Prog.within_write, Prog.within_bind]
      refine ⟨.inr (by omega), search_within (by omega), ?_⟩
      rw [search_run (Mem.read_write_self _ _ _)]
      dsimp only
      split
      · simp
      · exact ih (hrest hret) (by omega)
    · simp

end Reading

/-! ## The string -/

section String

variable {m : Mem} {size read : Nat}

theorem strlen_ends (h0 : m read = 0) (hr : read < size) (hmax : read ≤ maxReceiveSize)
    {start : Nat} (hs : start ≤ read) :
    start + ((strlen start).run m).1 ≤ read ∧ ((strlen start).run m).2 = m ∧
      (strlen start).Within size m := by
  obtain ⟨k, rfl⟩ := Nat.exists_eq_add_of_le hs
  obtain ⟨h1, h2, h3⟩ := Prog.strlen_spec size (maxReceiveSize + 1) start (k := k) (by omega) h0 hr
  exact ⟨Nat.add_le_add_left h1 start, h2, h3⟩

/-- The string is searched, and the echo found is a part of it. -/
theorem strstr_spec (echo : Bytes) (h0 : m read = 0) (hr : read < size)
    (hmax : read ≤ maxReceiveSize) :
    ((strstr echo).run m).2 = m ∧ (strstr echo).Within size m ∧
      ∀ p, ((strstr echo).run m).1 = some p → p + echo.length ≤ read := by
  obtain ⟨h1, h2, h3⟩ := strlen_ends h0 hr hmax (Nat.zero_le read)
  have hrun : (strstr echo).run m =
      (firstFrom (fun p => echo.isPrefixOf ((m.read 0 ((strlen 0).run m).1).drop p))
        (((strlen 0).run m).1 + 1) 0, m) := by
    rw [strstr, Prog.run_bind, h2]
    rfl
  refine ⟨by rw [hrun], ?_, fun p hp => ?_⟩
  · rw [strstr, Prog.within_bind, h2]
    refine ⟨h3, ?_⟩
    simp only [Prog.readBytes_bind, Prog.within_read, Prog.pure_eq, Prog.within_ret, and_true]
    omega
  · rw [hrun] at hp
    have hpre := (List.isPrefixOf_iff_prefix.mp (firstFrom_eq_some.mp hp).1).length_le
    have hlt := (firstFrom_eq_some.mp hp).2.2.1
    rw [List.length_drop, Mem.length_read] at hpre
    omega

theorem strchr_spec (c : UInt8) (h0 : m read = 0) (hr : read < size) (hmax : read ≤ maxReceiveSize)
    {start : Nat} (hs : start ≤ read) :
    ((strchr start c).run m).2 = m ∧ (strchr start c).Within size m ∧
      ∀ p, ((strchr start c).run m).1 = some p → start ≤ p ∧ p < read := by
  obtain ⟨h1, h2, h3⟩ := strlen_ends h0 hr hmax hs
  have hrun : (strchr start c).run m =
      ((firstFrom (fun p => (m.read start ((strlen start).run m).1)[p]? == some c)
        ((strlen start).run m).1 0).map (start + ·), m) := by
    rw [strchr, Prog.run_bind, h2]
    rfl
  refine ⟨by rw [hrun], ?_, fun p hp => ?_⟩
  · rw [strchr, Prog.within_bind, h2]
    refine ⟨h3, ?_⟩
    simp only [Prog.readBytes_bind, Prog.within_read, Prog.pure_eq, Prog.within_ret, and_true]
    omega
  · rw [hrun] at hp
    obtain ⟨q, hq, rfl⟩ := Option.map_eq_some_iff.mp hp
    have hlt := (firstFrom_eq_some.mp hq).2.2.1
    omega

end String

/-! ## The answer -/

/-- The getter keeps to the receive buffer, and so does the string it returns. -/
def FitsBuffer (p : Prog Answer) (m : Mem) : Prop :=
  p.Within maxReceiveSize m ∧ ∀ start, (p.run m).1 = .buffer start →
    ∃ k, start + k < maxReceiveSize ∧ (p.run m).2 (start + k) = 0

/-- The first chunk in which the terminator is found ends where the buffer does. -/
def FillsBuffer (t i : UInt8) (reads : List ReadData) : Prop :=
  ∃ pre bs rest, reads = pre.map .chunk ++ .chunk bs :: rest ∧
    (∀ pre' b post, pre = pre' ++ b :: post → b ≠ [] ∧ t ∉ scanned i pre'.flatten.length b) ∧
    bs ≠ [] ∧ t ∈ scanned i pre.flatten.length bs ∧
    pre.flatten.length + bs.length = maxReceiveSize

section AnswerSize

variable {m : Mem} {read : Nat} {echo : Bytes} {reads : List ReadData}

theorem chop_fits (h0 : m read = 0) (hr : read < maxReceiveSize) {start : Nat}
    (hs : start ≤ read) : FitsBuffer (chop start) m := by
  obtain ⟨hm, hw, hp⟩ := strchr_spec 13 h0 hr hr.le hs
  unfold FitsBuffer chop
  rw [Prog.within_bind, Prog.run_bind, hm]
  cases hptr : ((strchr start 13).run m).1 with
  | none =>
    refine ⟨⟨hw, Prog.within_ret _ |>.mpr trivial⟩, fun start' hstart => ?_⟩
    obtain rfl : start = start' := Answer.buffer.inj hstart
    obtain ⟨k, rfl⟩ := Nat.exists_eq_add_of_le hs
    exact ⟨k, hr, h0⟩
  | some p =>
    obtain ⟨h1, h2⟩ := hp p hptr
    refine ⟨⟨hw, Prog.within_write.mpr ⟨.inr ?_, Prog.within_ret _ |>.mpr trivial⟩⟩,
      fun start' hstart => ?_⟩
    · exact Nat.succ_le_of_lt (h2.trans hr)
    · obtain rfl : start = start' := Answer.buffer.inj hstart
      obtain ⟨k, rfl⟩ := Nat.exists_eq_add_of_le h1
      exact ⟨k, h2.trans hr, Mem.write_inside m _ [0] Nat.zero_lt_one⟩

theorem finish_fits (he : echo.length = 3) (hr : read < maxReceiveSize) :
    FitsBuffer (finish echo read) m := by
  have h0 : (m.write read [0]) read = 0 := Mem.write_inside m read [0] Nat.zero_lt_one
  obtain ⟨hm, hw, hp⟩ := strstr_spec echo h0 hr hr.le
  have hstart : startOf ((strstr echo).run (m.write read [0])).1 ≤ read := by
    cases hfound : ((strstr echo).run (m.write read [0])).1 with
    | none => exact Nat.zero_le _
    | some p =>
      have hle := hp p hfound
      rw [he] at hle
      exact hle
  have hchop := chop_fits h0 hr hstart
  unfold FitsBuffer finish
  rw [Prog.writeBytes_bind, Prog.within_write, Prog.within_bind, Prog.run, Prog.run_bind, hm]
  exact ⟨⟨.inr (Nat.succ_le_of_lt hr), hw, hchop.1⟩, hchop.2⟩

theorem finish_fits_iff (he : echo.length = 3) (hr : read ≤ maxReceiveSize) :
    FitsBuffer (finish echo read) m ↔ read ≠ maxReceiveSize := by
  constructor
  · rintro ⟨hw, -⟩ rfl
    rw [finish, Prog.writeBytes_bind, Prog.within_write] at hw
    rcases hw.1 with h | h
    · cases h
    · exact absurd h (Nat.not_succ_le_self _)
  · exact fun hne => finish_fits he (Nat.lt_of_le_of_ne hr hne)

theorem toSize_ne_full {r : ReadData} (h : ¬ 0 < r.ret) : toSize r.ret ≠ maxReceiveSize := by
  have hfull : maxReceiveSize = 2048 := rfl
  have hret : r.ret = 0 ∨ r.ret = -1 := by
    cases r with
    | chunk bs =>
      have hlen : (ReadData.chunk bs).ret = bs.length := rfl
      omega
    | error => exact .inr rfl
  unfold toSize
  omega

theorem ret_pos_iff {bs : Bytes} : 0 < (ReadData.chunk bs).ret ↔ bs ≠ [] := by
  rw [← List.length_pos_iff]
  exact Int.natCast_pos

theorem returned_full_iff {t i : UInt8} (reads : List ReadData) (n : Nat) :
    returned t i n reads = some maxReceiveSize ↔
      ∃ pre bs rest, reads = pre.map .chunk ++ .chunk bs :: rest ∧
        (∀ pre' b post, pre = pre' ++ b :: post →
          b ≠ [] ∧ t ∉ scanned i (n + pre'.flatten.length) b) ∧
        bs ≠ [] ∧ t ∈ scanned i (n + pre.flatten.length) bs ∧
        n + pre.flatten.length + bs.length = maxReceiveSize := by
  induction reads generalizing n with
  | nil =>
    apply iff_of_false (fun h => by cases h)
    rintro ⟨pre, bs, rest, h, -⟩
    exact absurd h.symm (by simp)
  | cons r reads ih =>
    rw [returned]
    cases r with
    | error =>
      refine iff_of_false (fun h => absurd (Option.some.inj h) (toSize_ne_full fun e => by cases e)) ?_
      rintro ⟨pre, bs, rest, h, -⟩
      cases pre <;> cases h
    | chunk bs =>
      rw [exists_split_cons fun _ _ => ReadData.chunk.inj]
      simp only [forall_split_cons, not_split_nil, List.flatten_cons, List.flatten_nil,
        List.length_append, List.length_nil, Nat.add_zero, ← Nat.add_assoc, true_and]
      by_cases hret : 0 < (ReadData.chunk bs).ret
      · have hbs := ret_pos_iff.mp hret
        rw [if_pos hret]
        by_cases hfound : t ∈ scanned i n bs
        · -- the first chunk is the last one
          rw [if_pos (show t ∈ scanned i n (ReadData.chunk bs).bytes from hfound)]
          simp [hbs, hfound, ReadData.bytes]
        · rw [if_neg (show t ∉ scanned i n (ReadData.chunk bs).bytes from hfound), ih]
          simp [hbs, hfound, ReadData.bytes]
      · have hbs : bs = [] := not_not.mp fun h => hret (ret_pos_iff.mpr h)
        rw [if_neg hret]
        apply iff_of_false (fun h => toSize_ne_full hret (Option.some.inj h))
        simp [hbs]

theorem returned_le {t i : UInt8} {n remainingSize k : Nat} (hd : Delivered remainingSize reads)
    (hn : n + remainingSize = maxReceiveSize) (h : returned t i n reads = some k) :
    k ≤ maxReceiveSize ∨ ¬ 0 < toSigned k := by
  induction reads generalizing n remainingSize with
  | nil => cases h
  | cons r reads ih =>
    obtain ⟨hlen, hrest⟩ := hd
    rw [returned] at h
    split at h
    · next hret =>
      split at h
      · cases h
        exact .inl (by omega)
      · exact ih (hrest hret) (by omega) h
    · next hret =>
      cases h
      have hlow : -1 ≤ r.ret := by
        cases r with
        | chunk bs => exact (by decide : (-1 : Int) ≤ 0).trans (Int.natCast_nonneg bs.length)
        | error => exact Int.le_refl _
      rw [toSigned_toSize (by omega) (by omega)]
      exact .inr hret

/-- **A getter keeps to the buffer exactly if the answer does not fill it**. -/
theorem answer_fits_iff (he : echo.length = 3) (hd : Delivered maxReceiveSize reads) :
    FitsBuffer (answer echo reads) m ↔ ¬ FillsBuffer 10 20 reads := by
  have hw : (readUntilTerminator 10 20 reads).Within maxReceiveSize m :=
    readFrom_within reads hd (Nat.zero_add _)
  have hrun : ((readUntilTerminator 10 20 reads).run m).1 = returned 10 20 0 reads :=
    readFrom_run reads 0 m
  have hfull : FillsBuffer 10 20 reads ↔ returned 10 20 0 reads = some maxReceiveSize := by
    rw [returned_full_iff]
    simp only [Nat.zero_add]
    rfl
  unfold FitsBuffer answer
  rw [Prog.within_bind, Prog.run_bind, hrun, and_iff_right hw, hfull]
  cases hk : returned 10 20 0 reads with
  | none => exact iff_of_true ⟨Prog.within_ret _ |>.mpr trivial, nofun⟩ nofun
  | some k =>
    dsimp only
    rw [Option.some.injEq]
    by_cases hpos : 0 < toSigned k
    · rw [if_pos hpos]
      have hle := (returned_le hd (Nat.zero_add _) hk).resolve_right (not_not_intro hpos)
      exact finish_fits_iff he hle
    · rw [if_neg hpos]
      refine iff_of_true ⟨Prog.within_ret _ |>.mpr trivial, nofun⟩ ?_
      rintro rfl
      exact hpos (by decide)

theorem answers_fit_iff (hd : Delivered maxReceiveSize reads) :
    (FitsBuffer (getSensorsDescription reads) m ↔ ¬ FillsBuffer 10 20 reads) ∧
      (FitsBuffer (getSensorsData reads) m ↔ ¬ FillsBuffer 10 20 reads) :=
  ⟨answer_fits_iff rfl hd, answer_fits_iff rfl hd⟩

/-- An answer in two chunks, the second of which completes it. -/
def twoChunks : List ReadData :=
  [.chunk (ascii "-----------------d\r\n["), .chunk (ascii "]\r\n")]

/-- The string begins behind the echo. -/
theorem answers_fit_iff_sample :
    Delivered maxReceiveSize twoChunks ∧
      ((getSensorsDescription twoChunks).run fun _ => 0).1 = .buffer 20 ∧
      FitsBuffer (getSensorsDescription twoChunks) (fun _ => 0) ∧
      FitsBuffer (getSensorsData twoChunks) (fun _ => 0) := by
  have hd : Delivered maxReceiveSize twoChunks := ⟨by decide, fun _ => ⟨by decide, fun _ => trivial⟩⟩
  have hnot : ¬ FillsBuffer 10 20 twoChunks := by
    rintro ⟨pre, bs, rest, h, -, -, -, hlen⟩
    have hsum := congrArg (fun reads => (reads.map fun r => r.bytes.length).sum) h
    have htotal : (twoChunks.map fun r => r.bytes.length).sum = 24 := rfl
    have hpre : (pre.map fun b => (ReadData.chunk b).bytes.length).sum = pre.flatten.length :=
      List.length_flatten.symm
    have hmax : maxReceiveSize = 2048 := rfl
    have hlast : (ReadData.chunk bs).bytes.length = bs.length := rfl
    rw [htotal, List.map_append, List.sum_append, List.map_map, List.map_cons, List.sum_cons] at hsum
    have hpre' := hsum.trans (congrArg (· + _) hpre)
    omega
  obtain ⟨hdescription, hdata⟩ := @answers_fit_iff (fun _ => 0) _ hd
  exact ⟨hd, rfl, hdescription.mpr hnot, hdata.mpr hnot⟩

/-- An answer whose last byte is the terminator and the last one of the buffer. -/
def fullAnswer : Bytes := List.replicate 2047 97 ++ [10]

/-- The zero behind it is written behind the buffer. -/
theorem full_answer_leaves_buffer :
    Delivered maxReceiveSize [.chunk fullAnswer] ∧
      ¬ FitsBuffer (getSensorsDescription [.chunk fullAnswer]) fun _ => 0 := by
  have hlen : fullAnswer.length = maxReceiveSize := by
    rw [fullAnswer, List.length_append, List.length_replicate]
    rfl
  have hne : fullAnswer ≠ [] := List.append_ne_nil_of_right_ne_nil _ (List.cons_ne_nil _ _)
  have hmem : (10 : UInt8) ∈ scanned 20 0 fullAnswer := by
    unfold scanned fullAnswer
    rw [if_pos (Nat.zero_le _), List.drop_append_of_le_length (by rw [List.length_replicate]; decide)]
    exact List.mem_append_right _ (List.mem_singleton_self 10)
  have hd : Delivered maxReceiveSize [.chunk fullAnswer] := ⟨Nat.le_of_eq hlen, fun _ => trivial⟩
  refine ⟨hd, fun h => (answer_fits_iff rfl hd).mp h ?_⟩
  refine ⟨[], fullAnswer, [], rfl, fun pre' b post he => absurd he (by simp), hne, hmem, ?_⟩
  rw [hlen]
  rfl

end AnswerSize

end SensorProviderZynqModule

end RecsDaemon
