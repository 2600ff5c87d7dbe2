import RecsDaemon.Base.Access
import RecsDaemon.Base.First

/-!
# The sensors of a Zynq module

`SensorProviderZynqModule` asks a microcontroller on a serial port for the
description of its sensors and for their data. An answer is read in chunks up to
its terminator, which is looked for behind the echo of the command. In a chunk
that begins within the ignored bytes it is looked for too late, so the result is
the one of the whole stream only for some chunkings (`chunkingAgrees_iff`).
-/

namespace RecsDaemon

open Base

namespace SensorProviderZynqModule

/-! ## The code -/

/-- What `ReadData` does: it reads some bytes, perhaps none, or returns `-1`, as it does after a
timeout. -/
inductive ReadData where
  | chunk (bs : Bytes)
  | error

namespace ReadData

def bytes : ReadData → Bytes
  | chunk bs => bs
  | error => []

def ret : ReadData → Int
  | chunk bs => bs.length
  | error => -1

end ReadData

/-- `memchr(&data[offset], terminator, n) != NULL`. -/
def memchr (offset : Nat) (terminator : UInt8) (n : Nat) : Prog Bool := do
  let bs ← Prog.readBytes offset n
  pure (decide (terminator ∈ bs))

/-- The search in the `read` bytes at `readTotal`. -/
def search (terminator ignoreFirstBytes : UInt8) (readTotal read : Nat) : Prog Bool :=
  let ignore := ignoreFirstBytes.toNat
  if readTotal ≤ ignore then
    if ignore < read then memchr (readTotal + ignore) terminator (read - ignore) else pure false
  else memchr readTotal terminator read

/-- The loop of `ReadUntilTerminator`; `none` when it waits for another `ReadData`. -/
def readFrom (terminator ignoreFirstBytes : UInt8) : Nat → List ReadData → Prog (Option Nat)
  | _, [] => pure none
  | readTotal, r :: reads =>
    if 0 < r.ret then do
      Prog.writeBytes readTotal r.bytes
      let found ← search terminator ignoreFirstBytes readTotal r.bytes.length
      if found then pure (some (readTotal + r.bytes.length))
      else readFrom terminator ignoreFirstBytes (readTotal + r.bytes.length) reads
    else pure (some (toSize r.ret))

def readUntilTerminator (terminator ignoreFirstBytes : UInt8) (reads : List ReadData) :
    Prog (Option Nat) := readFrom terminator ignoreFirstBytes 0 reads

/-! ## One chunk -/

/-- The part of a chunk in which the terminator is looked for. -/
def scanned (ignoreFirstBytes : UInt8) (readTotal : Nat) (bs : Bytes) : Bytes :=
  if readTotal ≤ ignoreFirstBytes.toNat then bs.drop ignoreFirstBytes.toNat else bs

section Chunk

variable {t i : UInt8} {readTotal : Nat} {m : Mem}

theorem search_run {bs : Bytes} (h : m.read readTotal bs.length = bs) :
    (search t i readTotal bs.length).run m = (decide (t ∈ scanned i readTotal bs), m) := by
  unfold search scanned
  dsimp only
  split
  · split
    · next hlt =>
      have hdrop : m.read (readTotal + i.toNat) (bs.length - i.toNat) = bs.drop i.toNat := by
        obtain ⟨k, hk⟩ := Nat.exists_eq_add_of_lt hlt
        rw [Nat.add_assoc] at hk
        rw [hk, Mem.read_add] at h
        rw [hk, Nat.add_sub_cancel_left, ← h, List.drop_left' (Mem.length_read _ _ _)]
      show (decide (t ∈ m.read _ _), m) = _
      rw [hdrop]
    · next hge =>
      rw [List.drop_of_length_le (Nat.not_lt.mp hge)]
      rfl
  · show (decide (t ∈ m.read _ _), m) = _
    rw [h]

theorem search_within {size n : Nat} (h : readTotal + n ≤ size) :
    (search t i readTotal n).Within size m := by
  unfold search memchr
  dsimp only
  split
  · split
    · simp only [Prog.readBytes_bind, Prog.within_read, Prog.pure_eq, Prog.within_ret, and_true]
      omega
    · simp
  · simp only [Prog.readBytes_bind, Prog.within_read, Prog.pure_eq, Prog.within_ret, and_true]
    omega

def returned (t i : UInt8) : Nat → List ReadData → Option Nat
  | _, [] => none
  | readTotal, r :: reads =>
    if 0 < r.ret then
      if t ∈ scanned i readTotal r.bytes then some (readTotal + r.bytes.length)
      else returned t i (readTotal + r.bytes.length) reads
    else some (toSize r.ret)

theorem readFrom_run (reads : List ReadData) (readTotal : Nat) (m : Mem) :
    ((readFrom t i readTotal reads).run m).1 = returned t i readTotal reads := by
  induction reads generalizing readTotal m with
  | nil => rfl
  | cons r reads ih =>
    rw [readFrom, returned]
    split
    · simp only [Prog.writeBytes_bind, Prog.run, Prog.run_bind]
      rw [search_run (Mem.read_write_self _ _ _)]
      dsimp only
      by_cases hfound : t ∈ scanned i readTotal r.bytes
      · rw [if_pos (decide_eq_true hfound), if_pos hfound]
        rfl
      · rw [if_neg (by simpa using hfound), if_neg hfound]
        exact ih _ _
    · rfl

end Chunk

/-! ## Chunkings -/

/-- The number of bytes at the end of the first chunk with which the bytes from index `ignore` on contain
the terminator; `received` is what came before. -/
def complete (t : UInt8) (ignore : Nat) : Bytes → List Bytes → Option Nat
  | _, [] => none
  | received, bs :: chunks =>
    if t ∈ (received ++ bs).drop ignore then some (received ++ bs).length
    else complete t ignore (received ++ bs) chunks

/-- The chunks are read as the stream they are a division of, into a buffer that holds `m`. -/
def ChunkingAgrees (t i : UInt8) (chunks : List Bytes) (m : Mem) : Prop :=
  ((readUntilTerminator t i (chunks.map .chunk)).run m).1 = complete t i.toNat [] chunks

instance (t i : UInt8) (chunks : List Bytes) (m : Mem) : Decidable (ChunkingAgrees t i chunks m) :=
  inferInstanceAs (Decidable (_ = _))

/-- The chunk with which the answer is complete is the first one, or begins behind the ignored bytes,
or has a terminator behind as many bytes of its own. -/
def NotMissed (t i : UInt8) (chunks : List Bytes) : Prop :=
  ∀ pre bs rest, chunks = pre ++ bs :: rest → t ∉ pre.flatten.drop i.toNat →
    t ∈ (pre.flatten ++ bs).drop i.toNat →
      pre.flatten = [] ∨ i.toNat < pre.flatten.length ∨ t ∈ bs.drop i.toNat

section Chunkings

variable {t i : UInt8} {received bs : Bytes} {chunks : List Bytes}

theorem returned_chunk (hbs : bs ≠ []) (n : Nat) :
    returned t i n ((bs :: chunks).map .chunk) =
      if t ∈ scanned i n bs then some (n + bs.length)
      else returned t i (n + bs.length) (chunks.map .chunk) :=
  if_pos (Int.natCast_pos.mpr (List.length_pos_of_ne_nil hbs))

theorem lt_of_returned (hne : ∀ bs ∈ chunks, bs ≠ []) {n k : Nat}
    (h : returned t i n (chunks.map .chunk) = some k) : n < k := by
  induction chunks generalizing n with
  | nil => cases h
  | cons bs chunks ih =>
    have hbs := hne bs List.mem_cons_self
    have hpos := List.length_pos_of_ne_nil hbs
    rw [returned_chunk hbs] at h
    split at h
    · cases h
      omega
    · have hlt := ih (fun bs hb => hne bs (List.mem_cons_of_mem _ hb)) h
      omega

/-- The terminator is found in the chunk that completes the answer. -/
theorem mem_scanned_iff (hnot : t ∉ received.drop i.toNat)
    (hall : t ∈ (received ++ bs).drop i.toNat) :
    t ∈ scanned i received.length bs ↔
      received = [] ∨ i.toNat < received.length ∨ t ∈ bs.drop i.toNat := by
  unfold scanned
  split
  · next hle =>
    refine ⟨fun h => .inr (.inr h), ?_⟩
    rintro (rfl | hlt | h)
    · exact hall
    · omega
    · exact h
  · next hgt =>
    refine iff_of_true ?_ (.inr (.inl (Nat.not_le.mp hgt)))
    rw [List.drop_append_of_le_length (by omega)] at hall
    exact (List.mem_append.mp hall).resolve_left hnot

theorem mem_of_mem_scanned (h : t ∈ scanned i received.length bs) :
    t ∈ (received ++ bs).drop i.toNat := by
  unfold scanned at h
  rw [List.drop_append]
  split at h
  · have hsub := List.drop_subset_drop_left bs (Nat.sub_le i.toNat received.length)
    exact List.mem_append_right _ (hsub h)
  · next hgt =>
    rw [Nat.sub_eq_zero_of_le (by omega), List.drop_zero]
    exact List.mem_append_right _ h

theorem agrees_from (hne : ∀ bs ∈ chunks, bs ≠ []) (hnot : t ∉ received.drop i.toNat) :
    returned t i received.length (chunks.map .chunk) = complete t i.toNat received chunks ↔
      ∀ pre bs rest, chunks = pre ++ bs :: rest →
        t ∉ (received ++ pre.flatten).drop i.toNat →
        t ∈ (received ++ pre.flatten ++ bs).drop i.toNat →
          received ++ pre.flatten = [] ∨ i.toNat < (received ++ pre.flatten).length ∨
            t ∈ bs.drop i.toNat := by
  induction chunks generalizing received with
  | nil =>
    apply iff_of_true rfl
    intro pre bs rest h
    exact absurd h.symm (by simp)
  | cons bs chunks ih =>
    have hbs := hne bs List.mem_cons_self
    have hchunks : ∀ bs ∈ chunks, bs ≠ [] := fun bs hb => hne bs (List.mem_cons_of_mem _ hb)
    have hlen : (received ++ bs).length = received.length + bs.length := List.length_append
    rw [returned_chunk hbs, complete, hlen, forall_split_cons]
    simp only [List.flatten_cons, List.flatten_nil, List.append_nil, ← List.append_assoc]
    by_cases hall : t ∈ (received ++ bs).drop i.toNat
    · rw [if_pos hall]
      have hscan := mem_scanned_iff hnot hall
      by_cases hfound : t ∈ scanned i received.length bs
      · rw [if_pos hfound]
        refine iff_of_true rfl ⟨fun _ _ => hscan.mp hfound, fun pre bs' rest _ hnot' => ?_⟩
        -- the answer was complete before
        rw [List.drop_append] at hnot'
        exact absurd (List.mem_append_left _ hall) hnot'
      · rw [if_neg hfound]
        refine iff_of_false (fun h => ?_) fun h => hfound (hscan.mpr (h.1 hnot hall))
        have hlt := lt_of_returned hchunks h
        omega
    · rw [if_neg hall, if_neg fun h => hall (mem_of_mem_scanned h), ← hlen, ih hchunks hall]
      exact (and_iff_right fun _ h => absurd h hall).symm

/-- **Reading agrees with the stream exactly if the chunk that completes the answer is not missed**. -/
theorem chunkingAgrees_iff {m : Mem} (hne : ∀ bs ∈ chunks, bs ≠ []) :
    ChunkingAgrees t i chunks m ↔ NotMissed t i chunks := by
  unfold ChunkingAgrees readUntilTerminator
  rw [readFrom_run]
  exact @agrees_from t i [] chunks hne (by simp)

/-- The third chunk completes the answer, and begins behind the ignored bytes. -/
theorem chunkingAgrees_iff_sample :
    ChunkingAgrees 10 3 [[100, 13], [10, 91], [93, 10]] (fun _ => 0) := by
  refine (chunkingAgrees_iff (by decide)).mpr ?_
  unfold NotMissed
  simp only [forall_split_cons, not_split_nil]
  exact ⟨fun _ _ => .inl rfl, fun _ h => absurd h (by decide),
    fun _ _ => .inr (.inl (by decide)), trivial⟩

/-- The same bytes in one chunk and in two. -/
theorem second_chunk_missed :
    ChunkingAgrees 10 3 [[100, 13, 10, 93, 10]] (fun _ => 0) ∧
      ¬ ChunkingAgrees 10 3 [[100, 13, 10], [93, 10]] (fun _ => 0) := by
  decide

end Chunkings

end SensorProviderZynqModule

end RecsDaemon
