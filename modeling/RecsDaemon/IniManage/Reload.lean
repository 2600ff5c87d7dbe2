import RecsDaemon.IniManage

/-!
# Saved and loaded

`load` of a saved file builds its content up again, entry by entry
(`load_saved`); only the comments gain a `#` each time. What was loaded of any
file can be saved so (`wellFormed_load`). Therefore the settings outlive any
number of runs of the daemon (`settings_lives`), until a comment is too long for
its buffer.
-/

namespace RecsDaemon

open Base

namespace IniManage

/-! ## Lines -/

/-- A line that is read as it is written. -/
structure Line (l : Text) : Prop where
  chars : ∀ c ∈ l, c ≠ 0 ∧ c ≠ 10
  last : l.getLast? ≠ some 13
  length : l.length ≤ 254

instance (l : Text) : Decidable (Line l) :=
  decidable_of_iff ((∀ c ∈ l, c ≠ 0 ∧ c ≠ 10) ∧ l.getLast? ≠ some 13 ∧ l.length ≤ 254)
    ⟨fun h => ⟨h.1, h.2.1, h.2.2⟩, fun h => ⟨h.chars, h.last, h.length⟩⟩

def unlines (ls : List Text) : Text := ls.flatMap (· ++ [10])

/-- The text of lines without its last newline. -/
def joined : List Text → Text
  | [] => []
  | [l] => l
  | l :: ls => l ++ 10 :: joined ls

theorem joined_cons (l : Text) {ls : List Text} (h : ls ≠ []) :
    joined (l :: ls) = l ++ 10 :: joined ls := by
  obtain ⟨m, ls, rfl⟩ := List.exists_cons_of_ne_nil h
  rfl

theorem joined_newline {ls : List Text} (h : ls ≠ []) : joined ls ++ [10] = unlines ls := by
  induction ls with
  | nil => exact absurd rfl h
  | cons l ls ih =>
    by_cases h0 : ls = []
    · subst h0
      exact (List.append_nil _).symm
    · rw [joined_cons l h0, List.append_assoc, List.cons_append, ih h0]
      simp [unlines]

theorem unlines_append (ls ms : List Text) : unlines (ls ++ ms) = unlines ls ++ unlines ms :=
  List.flatMap_append

theorem Line.trim_cstr {l : Text} (h : Line l) : trim (cstr l) = l := by
  rw [cstr_of_no_zero fun h0 => (h.chars 0 h0).1 rfl, trim, if_neg h.last]

/-- `fgets` finds the lines; one that fills the buffer leaves its newline to an empty one. -/
theorem fileLines_unlines {ls : List Text} (h : ∀ l ∈ ls, Line l) :
    fileLines (unlines ls) = ls.flatMap fun l => l :: if l.length = 254 then [[]] else [] := by
  have hgo : pieces 254 10 [] (unlines ls) =
        (ls.flatMap fun l => l :: if l.length = 254 then [[]] else []) ∧
      unfinished 254 10 [] (unlines ls) = [] := by
    induction ls with
    | nil => exact ⟨rfl, rfl⟩
    | cons l ls ih =>
      have hl := h l List.mem_cons_self
      obtain ⟨h1, h2⟩ := pieces_line (n := 254) (fun hn => (hl.chars 10 hn).2 rfl) []
        (unlines ls) (by rw [List.length_nil, Nat.zero_add]; exact hl.length) (by decide)
      obtain ⟨h3, h4⟩ := ih fun m hm => h m (List.mem_cons_of_mem l hm)
      have htext : unlines (l :: ls) = l ++ 10 :: unlines ls := by simp [unlines]
      rw [htext, h1, h2, h3, h4, List.flatMap_cons, List.length_nil, Nat.zero_add, List.nil_append]
      exact ⟨rfl, rfl⟩
  unfold fileLines
  rw [hgo.1, hgo.2, if_pos rfl, List.append_nil]

theorem loadLines_cons {l : Text} (h : Line l) (rest : List Text) (st : Loading) :
    loadLines (l :: rest) st = (do
      match ← loadLine l st with
      | none => pure (st.content, false)
      | some st => loadLines rest st) := by
  rewrite [loadLines, h.trim_cstr]
  rfl

theorem loadLines_breaks {ls : List Text} (h : ∀ l ∈ ls, Line l) (st : Loading) :
    loadLines (ls.flatMap fun l => l :: if l.length = 254 then [[]] else []) st =
      loadLines ls st := by
  induction ls generalizing st with
  | nil => rfl
  | cons l ls ih =>
    have hrest := ih fun m hm => h m (List.mem_cons_of_mem l hm)
    have hbreak (st : Loading) : loadLines ((if l.length = 254 then [[]] else []) ++
        ls.flatMap fun l => l :: if l.length = 254 then [[]] else []) st = loadLines ls st := by
      split
      · exact hrest st
      · exact hrest st
    rw [List.flatMap_cons, List.cons_append, loadLines_cons (h l List.mem_cons_self),
      loadLines_cons (h l List.mem_cons_self)]
    congr 1
    funext o
    cases o with
    | none => rfl
    | some st => exact hbreak st

/-- **Written lines are loaded one by one.** -/
theorem load_unlines {ls : List Text} (h : ∀ l ∈ ls, Line l) :
    load (unlines ls) = loadLines ls ⟨[], [], [], false⟩ := by
  rw [load, fileLines_unlines h, loadLines_breaks h]

/-! ## Comments -/

structure CommentLine (l : Text) : Prop extends Line l where
  head : l.head? = some 35 ∨ l.head? = some 59

/-- No comment, or one of comment lines. -/
def Commented (comments : Text) : Prop :=
  ∃ ls, comments = joined ls ∧ ∀ l ∈ ls, CommentLine l

theorem joined_ne_nil {ls : List Text} (h : ∀ l ∈ ls, CommentLine l) (h0 : ls ≠ []) :
    joined ls ≠ [] := by
  obtain ⟨l, ls, rfl⟩ := List.exists_cons_of_ne_nil h0
  have hl : l ≠ [] := by
    rintro rfl
    rcases (h [] List.mem_cons_self).head with h | h <;> cases h
  by_cases h1 : ls = []
  · subst h1
    exact hl
  · rw [joined_cons l h1]
    exact List.append_ne_nil_of_left_ne_nil hl _

theorem savedComment_joined {ls : List Text} (h : ∀ l ∈ ls, CommentLine l) :
    savedComment (joined ls) = unlines ls := by
  by_cases h0 : ls = []
  · subst h0
    rfl
  · rw [savedComment, if_pos (joined_ne_nil h h0), joined_newline h0]

def oneMore (comments l : Text) : Text := if comments ≠ [] then comments ++ 10 :: l else l

theorem length_oneMore_le (comments l : Text) :
    comments.length ≤ (oneMore comments l).length := by
  unfold oneMore
  split
  · rw [List.length_append]
    exact Nat.le_add_right _ _
  · next h => simp [not_not.mp h]

theorem length_le_foldl (ls : List Text) (comments : Text) :
    comments.length ≤ (ls.foldl oneMore comments).length := by
  induction ls generalizing comments with
  | nil => exact Nat.le_refl _
  | cons l ls ih => exact (length_oneMore_le comments l).trans (ih _)

theorem foldl_oneMore {ls : List Text} {l : Text} (h : l ≠ []) :
    ls.foldl oneMore l = joined (l :: ls) := by
  induction ls generalizing l with
  | nil => rfl
  | cons m ls ih =>
    have hone : oneMore l m = l ++ 10 :: m := if_pos h
    have hne : l ++ 10 :: m ≠ [] := List.append_ne_nil_of_left_ne_nil h _
    rw [List.foldl_cons, hone, ih hne, joined_cons l (List.cons_ne_nil m ls)]
    by_cases h0 : ls = []
    · subst h0
      rfl
    · rw [joined_cons _ h0, joined_cons _ h0, List.append_assoc, List.cons_append]

theorem comments_joined {ls : List Text} (h : ∀ l ∈ ls, CommentLine l) :
    ls.foldl oneMore [] = joined ls := by
  cases ls with
  | nil => rfl
  | cons l ls =>
    have hl : l ≠ [] := by
      rintro rfl
      rcases (h [] List.mem_cons_self).head with h | h <;> cases h
    exact foldl_oneMore hl

theorem loadLine_comment {l : Text} (h : l.head? = some 35 ∨ l.head? = some 59) {st : Loading}
    (hfit : (oneMore st.comments l).length < 1024) :
    loadLine l st = .ok (some { st with comments := oneMore st.comments l, sthLoaded := true }) := by
  have hne : ¬ l.head? = none ∧ ¬ l.head? = some 91 := by
    rcases h with h | h <;> rw [h] <;> decide
  rw [loadLine, if_neg hne.1, if_neg hne.2, if_pos h]
  have hcopy := strcpy_eq_ok.mpr ⟨(rfl : oneMore st.comments l = _), hfit⟩
  unfold oneMore at hcopy ⊢
  rw [hcopy]
  rfl

theorem loadLines_comments {ls : List Text} (h : ∀ l ∈ ls, CommentLine l) {st : Loading}
    (hfit : (ls.foldl oneMore st.comments).length < 1024) (rest : List Text) :
    loadLines (ls ++ rest) st = loadLines rest
      ⟨st.content, ls.foldl oneMore st.comments, st.currentSection,
        st.sthLoaded || !ls.isEmpty⟩ := by
  induction ls generalizing st with
  | nil =>
    rw [List.isEmpty_nil, Bool.not_true, Bool.or_false]
    rfl
  | cons l ls ih =>
    have hl := h l List.mem_cons_self
    have hone := (length_le_foldl ls (oneMore st.comments l)).trans_lt hfit
    rw [List.cons_append, loadLines_cons hl.toLine, loadLine_comment hl.head hone, ok_bind]
    dsimp only
    rw [ih (fun m hm => h m (List.mem_cons_of_mem l hm)) hfit, List.isEmpty_cons, Bool.not_false,
      Bool.or_true, Bool.true_or]
    rfl

/-! ## Entries -/

structure RecordLine (key value : Text) : Prop extends Line (key ++ 61 :: value) where
  separator : 61 ∉ key
  head : (key ++ 61 :: value).head? ≠ some 91 ∧ (key ++ 61 :: value).head? ≠ some 35 ∧
    (key ++ 61 :: value).head? ≠ some 59

instance (key value : Text) : Decidable (RecordLine key value) :=
  decidable_of_iff (Line (key ++ 61 :: value) ∧ 61 ∉ key ∧ (key ++ 61 :: value).head? ≠ some 91 ∧
      (key ++ 61 :: value).head? ≠ some 35 ∧ (key ++ 61 :: value).head? ≠ some 59)
    ⟨fun h => ⟨h.1, h.2.1, h.2.2⟩, fun h => ⟨h.toLine, h.separator, h.head⟩⟩

theorem loadLine_record {key value : Text} (h : RecordLine key value) {st : Loading}
    (hsec : st.currentSection ≠ []) :
    loadLine (key ++ 61 :: value) st =
      (append st.currentSection key value st.comments st.content).map fun content =>
        some { st with content, comments := [], sthLoaded := true } := by
  have htake : (key ++ 61 :: value).takeWhile (· ≠ 61) = key := (cut_at h.separator).1
  have hdrop : ((key ++ 61 :: value).dropWhile (· ≠ 61)).drop 1 = value := by
    rw [(cut_at h.separator).2]
    rfl
  have hmem : 61 ∈ key ++ 61 :: value := List.mem_append_right _ List.mem_cons_self
  have hne : ¬ (key ++ 61 :: value).head? = none := by simp
  rw [loadLine, if_neg hne, if_neg h.head.1, if_neg (not_or.mpr h.head.2), if_neg (not_not.mpr hmem),
    if_neg hsec, htake, hdrop]
  dsimp only
  cases append st.currentSection key value st.comments st.content <;> rfl

theorem loadLine_section (name : Text) (st : Loading) :
    loadLine (91 :: name ++ [93]) st = (addSection name st.comments st.content).map fun content =>
      some ⟨content, [], name, true⟩ := by
  have hname : (((91 :: name ++ [93]).reverse.dropWhile (· ≠ 93)).drop 1).reverse.drop 1 = name := by
    rw [List.reverse_append, List.reverse_singleton, List.singleton_append,
      List.dropWhile_cons_of_neg (by decide)]
    simp
  have hmem : 93 ∈ 91 :: name ++ [93] := by simp
  have hhead : (91 :: name ++ [93]).head? = some 91 := rfl
  rw [loadLine, if_neg (by rw [hhead]; nofun), if_pos hhead, if_neg (not_not.mpr hmem), hname]
  dsimp only
  cases addSection name st.comments st.content <;> rfl

/-! ## The content -/

structure WellFormedRecord (r : Record) : Prop where
  comments : Commented r.comments
  line : RecordLine r.key r.value

structure WellFormedSection (s : Section) : Prop where
  comments : Commented s.comments
  line : Line (91 :: s.name ++ [93])
  name : s.data ≠ [] → s.name ≠ []
  records : ∀ r ∈ s.data, WellFormedRecord r

/-- A content whose lines are read as they are written. -/
structure WellFormed (c : Content) : Prop extends Sound c where
  wellFormed : ∀ s ∈ c, WellFormedSection s

def reloadedRecords (rs : List Record) : Except Overflow (List Record) :=
  rs.mapM fun r => newRecord r.key r.value r.comments

def reloadedSection (s : Section) : Except Overflow Section := do
  let s' ← newSection s.name s.comments
  pure { s' with data := ← reloadedRecords s.data }

theorem append_last {done : Content} {s : Section} (hs : s.name ∉ done.map Section.name)
    {key : Text} (hk : key ∉ s.data.map Record.key) (value comment : Text) :
    append s.name key value comment (done ++ [s]) =
      (newRecord key value comment).map fun r => done ++ [{ s with data := s.data ++ [r] }] := by
  have hfind : getSection (done ++ [s]) s.name = some s :=
    (put_last Section.name hs rfl).2
  have hpure : (pure s : Except Overflow Section) = .ok s := rfl
  unfold append
  rw [hfind]
  dsimp only
  rw [hpure, ok_bind]
  cases hr : newRecord key value comment with
  | error e => rfl
  | ok r =>
    obtain ⟨rfl, -⟩ := newRecord_eq_ok.mp hr
    have hput := (@put_last _ _ _ s { s with
      data := put Record.key ⟨storedComment comment, key, value⟩ s.data } done Section.name hs rfl).1
    rw [put_new Record.key hk] at hput
    rw [ok_bind, put_new Record.key hk, hput]
    rfl

theorem addSection_new {done : Content} {sec : Text} (hs : sec ∉ done.map Section.name)
    (comment : Text) :
    addSection sec comment done = (newSection sec comment).map fun s => done ++ [s] := by
  have hnone : getSection done sec = none := entryOf_eq_none.mpr hs
  unfold addSection
  rw [hnone]
  cases hn : newSection sec comment with
  | error e => rfl
  | ok s =>
    obtain ⟨rfl, -⟩ := newSection_eq_ok.mp hn
    rw [ok_bind, put_new Section.name hs]
    rfl

theorem loadLines_records {rs : List Record} (h : ∀ r ∈ rs, WellFormedRecord r)
    (hfit : ∀ r ∈ rs, FittingRecord r) :
    ∃ ls, rs.flatMap savedRecord = unlines ls ∧ (∀ l ∈ ls, Line l) ∧
      ∀ (done : Content) (s : Section) (rest : List Text), s.name ∉ done.map Section.name →
        (rs ≠ [] → s.name ≠ []) → (s.data.map Record.key ++ rs.map Record.key).Nodup →
        loadLines (ls ++ rest) ⟨done ++ [s], [], s.name, true⟩ = (do
          let data ← reloadedRecords rs
          loadLines rest ⟨done ++ [{ s with data := s.data ++ data }], [], s.name, true⟩) := by
  induction rs with
  | nil =>
    refine ⟨[], rfl, fun l hl => absurd hl List.not_mem_nil, fun done s rest _ _ _ => ?_⟩
    rw [List.nil_append, reloadedRecords, List.mapM_nil]
    show _ = loadLines rest ⟨done ++ [{ s with data := s.data ++ [] }], [], s.name, true⟩
    rw [List.append_nil]
  | cons r rs ih =>
    obtain ⟨ls, htext, hlines, hload⟩ := ih (fun q hq => h q (List.mem_cons_of_mem r hq))
      fun q hq => hfit q (List.mem_cons_of_mem r hq)
    obtain ⟨⟨cs, hcs, hcomment⟩, hline⟩ := h r List.mem_cons_self
    have hr := hfit r List.mem_cons_self
    refine ⟨cs ++ (r.key ++ 61 :: r.value) :: ls, ?_, fun l hl => ?_,
      fun done s rest hs hsec hkeys => ?_⟩
    · rw [List.flatMap_cons, savedRecord, hcs, savedComment_joined hcomment, htext, unlines_append]
      simp [unlines]
    · rcases List.mem_append.mp hl with hl | hl
      · exact (hcomment l hl).toLine
      · rcases List.mem_cons.mp hl with rfl | hl
        · exact hline.toLine
        · exact hlines l hl
    · have hsec := hsec (List.cons_ne_nil r rs)
      have hjoined := comments_joined hcomment
      have hlen : (cs.foldl oneMore []).length < 1024 := by
        rw [hjoined, ← hcs]
        exact hr.comments.trans (by decide)
      have hk : r.key ∉ s.data.map Record.key := fun hm => by
        rw [List.map_cons] at hkeys
        exact (List.nodup_append.mp hkeys).2.2 r.key hm r.key List.mem_cons_self rfl
      rw [List.append_assoc, List.cons_append, loadLines_comments hcomment hlen,
        loadLines_cons hline.toLine, loadLine_record hline hsec]
      dsimp only
      rw [hjoined, ← hcs, append_last hs hk, reloadedRecords, List.mapM_cons]
      cases hn : newRecord r.key r.value r.comments with
      | error e => rfl
      | ok q =>
        obtain ⟨hq, -⟩ := newRecord_eq_ok.mp hn
        have hqkey : q.key = r.key := by rw [hq]
        have hkeys' : ((s.data ++ [q]).map Record.key ++ rs.map Record.key).Nodup := by
          rw [List.map_append, List.map_singleton, hqkey, List.append_assoc, List.singleton_append]
          exact hkeys
        refine (hload done { s with data := s.data ++ [q] } rest hs (fun _ => hsec) hkeys').trans ?_
        rw [reloadedRecords]
        cases rs.mapM fun r => newRecord r.key r.value r.comments with
        | error e => rfl
        | ok data =>
          show loadLines rest ⟨done ++ [{ s with data := s.data ++ [q] ++ data }], [], s.name, true⟩ =
            loadLines rest ⟨done ++ [{ s with data := s.data ++ q :: data }], [], s.name, true⟩
          rw [List.append_assoc, List.singleton_append]

theorem loadLines_sections {c : Content} (h : ∀ s ∈ c, WellFormedSection s)
    (hfit : ∀ s ∈ c, FittingSection s) :
    ∃ ls, saved c = unlines ls ∧ (∀ l ∈ ls, Line l) ∧
      ∀ (done : Content) (cur : Text) (b : Bool),
        (done.map Section.name ++ c.map Section.name).Nodup →
        loadLines ls ⟨done, [], cur, b⟩ = (do
          let c' ← c.mapM reloadedSection
          pure (done ++ c', b || !c.isEmpty)) := by
  induction c with
  | nil =>
    refine ⟨[], rfl, fun l hl => absurd hl List.not_mem_nil, fun done cur b _ => ?_⟩
    rw [List.mapM_nil, List.isEmpty_nil, Bool.not_true, Bool.or_false]
    show _ = Except.ok (done ++ [], b)
    rw [List.append_nil]
    rfl
  | cons s c ih =>
    obtain ⟨ls, htext, hlines, hload⟩ := ih (fun t ht => h t (List.mem_cons_of_mem s ht))
      fun t ht => hfit t (List.mem_cons_of_mem s ht)
    obtain ⟨⟨cs, hcs, hcomment⟩, hline, hname, hrecords⟩ := h s List.mem_cons_self
    have hs := hfit s List.mem_cons_self
    obtain ⟨rls, hrtext, hrlines, hrload⟩ := loadLines_records hrecords hs.records
    refine ⟨cs ++ (91 :: s.name ++ [93]) :: (rls ++ ls), ?_, fun l hl => ?_,
      fun done cur b hnames => ?_⟩
    · unfold saved at htext ⊢
      rw [List.flatMap_cons, savedSection, hcs, savedComment_joined hcomment, hrtext, htext,
        unlines_append]
      simp [unlines]
    · rcases List.mem_append.mp hl with hl | hl
      · exact (hcomment l hl).toLine
      · rcases List.mem_cons.mp hl with rfl | hl
        · exact hline
        · exact (List.mem_append.mp hl).elim (hrlines l) (hlines l)
    · have hjoined := comments_joined hcomment
      have hlen : (cs.foldl oneMore []).length < 1024 := by
        rw [hjoined, ← hcs]
        exact hs.comments.trans (by decide)
      have hnew : s.name ∉ done.map Section.name := fun hm => by
        rw [List.map_cons] at hnames
        exact (List.nodup_append.mp hnames).2.2 s.name hm s.name List.mem_cons_self rfl
      rw [loadLines_comments hcomment hlen, loadLines_cons hline, loadLine_section]
      dsimp only
      rw [hjoined, ← hcs, addSection_new hnew, List.mapM_cons, reloadedSection]
      cases hn : newSection s.name s.comments with
      | error e => rfl
      | ok s' =>
        obtain ⟨rfl, -⟩ := newSection_eq_ok.mp hn
        refine (hrload done ⟨storedComment s.comments, s.name, []⟩ ls hnew hname hs.keys).trans ?_
        show _ = ((reloadedRecords s.data >>= fun data =>
            pure (⟨storedComment s.comments, s.name, data⟩ : Section)) >>= fun t =>
          List.mapM reloadedSection c >>= fun c' => pure (t :: c')) >>= _
        cases reloadedRecords s.data with
        | error e => rfl
        | ok data =>
          have hnames' : ((done ++ [(⟨storedComment s.comments, s.name, [] ++ data⟩ : Section)]).map
              Section.name ++ c.map Section.name).Nodup := by
            rw [List.map_append, List.map_singleton, List.append_assoc, List.singleton_append]
            exact hnames
          refine (hload _ s.name true hnames').trans ?_
          cases c.mapM reloadedSection with
          | error e => rfl
          | ok c' =>
            show Except.ok (done ++ [⟨storedComment s.comments, s.name, data⟩] ++ c',
                true || !c.isEmpty) =
              Except.ok (done ++ ⟨storedComment s.comments, s.name, data⟩ :: c',
                b || !(s :: c).isEmpty)
            rw [List.append_assoc, List.singleton_append, Bool.true_or, List.isEmpty_cons,
              Bool.not_false, Bool.or_true]

/-- **A saved file is loaded entry by entry.** -/
theorem load_saved {c : Content} (h : WellFormed c) :
    load (saved c) = (c.mapM reloadedSection).map fun c' => (c', !c.isEmpty) := by
  obtain ⟨ls, htext, hlines, hload⟩ := loadLines_sections h.wellFormed h.sections
  rw [htext, load_unlines hlines, hload [] [] false h.names]
  cases c.mapM reloadedSection <;> rfl

/-! ## Comments grow -/

/-- A comment can get `n` more characters. -/
def CommentRoom (n : Nat) (comments : Text) : Prop := comments = [] ∨ comments.length + n < 255

instance (n : Nat) : DecidablePred (CommentRoom n) := fun comments =>
  inferInstanceAs (Decidable (comments = [] ∨ _))

def Room (n : Nat) (c : Content) : Prop :=
  ∀ s ∈ c, CommentRoom n s.comments ∧ ∀ r ∈ s.data, CommentRoom n r.comments

instance (n : Nat) : DecidablePred (Room n) := fun c => inferInstanceAs (Decidable (∀ s ∈ c, _))

def markedRecord (r : Record) : Record := { r with comments := storedComment r.comments }

def markedSection (s : Section) : Section :=
  ⟨storedComment s.comments, s.name, s.data.map markedRecord⟩

/-- The content with a `#` more in front of each comment. -/
def marked (c : Content) : Content := c.map markedSection

theorem length_storedComment {comments : Text} :
    (storedComment comments).length < 255 ↔ CommentRoom 1 comments := by
  unfold storedComment CommentRoom
  by_cases h : comments = []
  · rw [if_neg (not_not.mpr h), h]
    exact iff_of_true (by decide) (.inl rfl)
  · rw [if_pos h, List.length_cons]
    exact ⟨.inr, fun h' => h'.resolve_left h⟩

theorem commentRoom_stored {n : Nat} {comments : Text} :
    CommentRoom n (storedComment comments) ↔ CommentRoom (n + 1) comments := by
  unfold storedComment CommentRoom
  by_cases h : comments = []
  · rw [if_neg (not_not.mpr h), h]
    exact iff_of_true (.inl rfl) (.inl rfl)
  · rw [if_pos h, List.length_cons]
    refine ⟨fun h' => .inr ?_, fun h' => .inr ?_⟩
    · have hlt := h'.resolve_left (List.cons_ne_nil _ _)
      omega
    · have hlt := h'.resolve_left h
      omega

/-- A fitting section is loaded again unless one of its comments is as long as it can be. -/
theorem reloadedSection_eq_ok {s s' : Section} (h : FittingSection s) :
    reloadedSection s = .ok s' ↔ s' = markedSection s ∧
      CommentRoom 1 s.comments ∧ ∀ r ∈ s.data, CommentRoom 1 r.comments := by
  have hrecords {data : List Record} : reloadedRecords s.data = .ok data ↔
      data = s.data.map markedRecord ∧ ∀ r ∈ s.data, CommentRoom 1 r.comments := by
    constructor
    · intro e
      obtain ⟨hdata, hp⟩ := (mapM_eq_ok (g := markedRecord) (p := fun r =>
        (storedComment r.comments).length < 255 ∧ r.key.length < 255 ∧ r.value.length < 255)
        fun r _ q => newRecord_eq_ok).mp e
      exact ⟨hdata, fun r hr => length_storedComment.mp (hp r hr).1⟩
    · rintro ⟨rfl, hp⟩
      refine (mapM_eq_ok (p := fun r => (storedComment r.comments).length < 255 ∧
        r.key.length < 255 ∧ r.value.length < 255) fun r _ q => newRecord_eq_ok).mpr
          ⟨rfl, fun r hr => ?_⟩
      exact ⟨length_storedComment.mpr (hp r hr), (h.records r hr).key, (h.records r hr).value⟩
  unfold reloadedSection
  constructor
  · intro e
    obtain ⟨t, ht, e⟩ := bind_eq_ok.mp e
    obtain ⟨data, hd, e⟩ := bind_eq_ok.mp e
    obtain ⟨rfl, -, hcomments⟩ := newSection_eq_ok.mp ht
    obtain ⟨rfl, hroom⟩ := hrecords.mp hd
    exact ⟨(Except.ok.inj e).symm, length_storedComment.mp hcomments, hroom⟩
  · rintro ⟨rfl, hcomments, hroom⟩
    rw [newSection_eq_ok.mpr ⟨rfl, h.name, length_storedComment.mpr hcomments⟩, ok_bind,
      hrecords.mpr ⟨rfl, hroom⟩]
    rfl

/-- **A saved file can be loaded exactly if no comment is as long as it can be**; then each gets a
`#`. -/
theorem load_saved_iff {c c' : Content} {b : Bool} (h : WellFormed c) :
    load (saved c) = .ok (c', b) ↔ c' = marked c ∧ b = !c.isEmpty ∧ Room 1 c := by
  have hall {c' : Content} : c.mapM reloadedSection = .ok c' ↔ c' = marked c ∧ Room 1 c :=
    mapM_eq_ok fun s hs s' => reloadedSection_eq_ok (h.sections s hs)
  rw [load_saved h]
  constructor
  · intro e
    cases hm : c.mapM reloadedSection with
    | error e' =>
      rw [hm] at e
      cases e
    | ok c1 =>
      rw [hm] at e
      cases e
      obtain ⟨h1, h2⟩ := hall.mp hm
      exact ⟨h1, rfl, h2⟩
  · rintro ⟨h1, rfl, h2⟩
    rw [hall.mpr ⟨h1, h2⟩]
    rfl

theorem settings_marked (c : Content) : settings (marked c) = settings c := by
  funext ⟨sec, key⟩
  have hrecord (s : Section) : getRecord (markedSection s) key =
      (getRecord s key).map markedRecord :=
    entryOf_map Record.key markedRecord (fun _ => rfl) key s.data
  unfold settings getValue getSection marked
  dsimp only
  rw [entryOf_map Section.name markedSection fun _ => rfl]
  cases entryOf Section.name sec c with
  | none => rfl
  | some s =>
    rw [Option.map_some, Option.bind_some, Option.bind_some, hrecord]
    cases getRecord s key <;> rfl

theorem commented_stored {comments : Text} (h : Commented comments)
    (hroom : CommentRoom 1 comments) : Commented (storedComment comments) := by
  obtain ⟨ls, rfl, hls⟩ := h
  cases ls with
  | nil => exact ⟨[], rfl, hls⟩
  | cons l ls =>
    have hl := hls l List.mem_cons_self
    have hne := joined_ne_nil hls (List.cons_ne_nil l ls)
    have hlen := hroom.resolve_left hne
    have hfirst : (joined (l :: ls)).length = l.length ∨
        l.length < (joined (l :: ls)).length := by
      by_cases h0 : ls = []
      · exact .inl (by rw [h0]; rfl)
      · refine .inr ?_
        rw [joined_cons l h0, List.length_append, List.length_cons]
        omega
    refine ⟨(35 :: l) :: ls, ?_, fun m hm => ?_⟩
    · rw [storedComment, if_pos hne]
      by_cases h0 : ls = []
      · rw [h0]
        rfl
      · rw [joined_cons l h0, joined_cons _ h0]
        rfl
    · rcases List.mem_cons.mp hm with rfl | hm
      · refine ⟨⟨fun c hc => ?_, ?_, ?_⟩, .inl rfl⟩
        · rcases List.mem_cons.mp hc with rfl | hc
          · decide
          · exact hl.chars c hc
        · have hl0 : l ≠ [] := by
            rintro rfl
            rcases hl.head with h | h <;> cases h
          rw [List.getLast?_cons_of_ne_nil hl0]
          exact hl.last
        · rw [List.length_cons]
          omega
      · exact hls m (List.mem_cons_of_mem l hm)

theorem wellFormed_marked {c : Content} (h : WellFormed c) (hroom : Room 1 c) :
    WellFormed (marked c) := by
  have hnames : (marked c).map Section.name = c.map Section.name := by
    rw [marked, List.map_map]
    rfl
  have hkeys (s : Section) : (markedSection s).data.map Record.key = s.data.map Record.key := by
    rw [markedSection, List.map_map]
    rfl
  refine ⟨⟨hnames ▸ h.names, fun t ht => ?_⟩, fun t ht => ?_⟩
  · obtain ⟨s, hs, rfl⟩ := List.mem_map.mp ht
    have hfit := h.sections s hs
    refine ⟨length_storedComment.mpr (hroom s hs).1, hfit.name, fun q hq => ?_,
      (hkeys s).symm ▸ hfit.keys⟩
    obtain ⟨r, hr, rfl⟩ := List.mem_map.mp hq
    exact ⟨length_storedComment.mpr ((hroom s hs).2 r hr), (hfit.records r hr).key,
      (hfit.records r hr).value⟩
  · obtain ⟨s, hs, rfl⟩ := List.mem_map.mp ht
    have hwell := h.wellFormed s hs
    refine ⟨commented_stored hwell.comments (hroom s hs).1, hwell.line,
      fun h0 => hwell.name fun e => h0 (by rw [markedSection, e]; rfl), fun q hq => ?_⟩
    obtain ⟨r, hr, rfl⟩ := List.mem_map.mp hq
    exact ⟨commented_stored (hwell.records r hr).comments ((hroom s hs).2 r hr),
      (hwell.records r hr).line⟩

theorem room_marked {n : Nat} {c : Content} : Room n (marked c) ↔ Room (n + 1) c := by
  constructor
  · intro h s hs
    obtain ⟨h1, h2⟩ := h (markedSection s) (List.mem_map_of_mem hs)
    exact ⟨commentRoom_stored.mp h1, fun r hr =>
      commentRoom_stored.mp (h2 (markedRecord r) (List.mem_map_of_mem hr))⟩
  · intro h t ht
    obtain ⟨s, hs, rfl⟩ := List.mem_map.mp ht
    refine ⟨commentRoom_stored.mpr (h s hs).1, fun q hq => ?_⟩
    obtain ⟨r, hr, rfl⟩ := List.mem_map.mp hq
    exact commentRoom_stored.mpr ((h s hs).2 r hr)

theorem Room.mono {m n : Nat} {c : Content} (h : Room n c) (hmn : m ≤ n) : Room m c := by
  have hgo {comments : Text} (h : CommentRoom n comments) : CommentRoom m comments :=
    h.imp id fun hlt => by omega
  exact fun s hs => ⟨hgo (h s hs).1, fun r hr => hgo ((h s hs).2 r hr)⟩

/-! ## New entries -/

theorem commented_nil : Commented [] := ⟨[], rfl, fun _ hl => absurd hl List.not_mem_nil⟩

theorem commented_oneMore {comments l : Text} (h : Commented comments) (hl : CommentLine l) :
    Commented (oneMore comments l) := by
  obtain ⟨ls, rfl, hls⟩ := h
  have hall : ∀ m ∈ ls ++ [l], CommentLine m := fun m hm =>
    (List.mem_append.mp hm).elim (hls m) fun hm => List.mem_singleton.mp hm ▸ hl
  refine ⟨ls ++ [l], ?_, hall⟩
  rw [← comments_joined hall, List.foldl_append, comments_joined hls]
  rfl

theorem wellFormed_sectionOf {c : Content} (h : WellFormed c) {sec : Text}
    (hline : Line (91 :: sec ++ [93])) : WellFormedSection (sectionOf c sec) := by
  unfold sectionOf
  cases hs : getSection c sec with
  | none =>
    exact ⟨commented_nil, hline, fun h0 => absurd rfl h0, fun _ hr => absurd hr List.not_mem_nil⟩
  | some s => exact h.wellFormed s (mem_of_entryOf hs)

theorem wellFormed_put {c : Content} (h : WellFormed c) {s : Section}
    (hsound : Sound (put Section.name s c)) (hs : WellFormedSection s) :
    WellFormed (put Section.name s c) := by
  refine ⟨hsound, fun t ht => ?_⟩
  rcases mem_put ht with rfl | ht
  · exact hs
  · exact h.wellFormed t ht

theorem wellFormed_append {sec key value comment : Text} {c c' : Content} (h : WellFormed c)
    (hsec : sec ≠ []) (hline : Line (91 :: sec ++ [93])) (hrecord : RecordLine key value)
    (hcomment : Commented comment) (ha : append sec key value comment c = .ok c') :
    WellFormed c' := by
  have hsound := sound_append h.toSound ha
  obtain ⟨rfl, -, hlength, -⟩ := append_eq_ok.mp ha
  have hold := wellFormed_sectionOf h hline
  refine wellFormed_put h hsound ⟨hold.comments, hold.line, fun _ => ?_, fun r hr => ?_⟩
  · rw [name_sectionOf]
    exact hsec
  · rcases mem_put hr with rfl | hr
    · exact ⟨commented_stored hcomment (length_storedComment.mp hlength), hrecord⟩
    · exact hold.records r hr

theorem wellFormed_addSection {sec comment : Text} {c c' : Content} (h : WellFormed c)
    (hline : Line (91 :: sec ++ [93])) (hcomment : Commented comment)
    (ha : addSection sec comment c = .ok c') : WellFormed c' := by
  have hsound := sound_addSection h.toSound ha
  obtain ⟨s, hn, ha⟩ := bind_eq_ok.mp ha
  obtain ⟨rfl, -, hlength⟩ := newSection_eq_ok.mp hn
  rw [data_sectionOf] at ha
  cases ha
  have hold := wellFormed_sectionOf h hline
  have hname := hold.name
  rw [name_sectionOf] at hname
  exact wellFormed_put h hsound
    ⟨commented_stored hcomment (length_storedComment.mp hlength), hline, hname, hold.records⟩

/-- The name `load` finds in a line: up to the last `]`. -/
theorem line_section {buffer : Text} (h : Line buffer) (hhead : buffer.head? = some 91)
    (hmem : 93 ∈ buffer) :
    Line (91 :: ((buffer.reverse.dropWhile (· ≠ 93)).drop 1).reverse.drop 1 ++ [93]) := by
  obtain ⟨as, bs, hsplit, has⟩ := List.eq_append_cons_of_mem (List.mem_reverse.mpr hmem)
  have hdrop : (buffer.reverse.dropWhile (· ≠ 93)).drop 1 = bs := by
    rw [hsplit, (cut_at has).2]
    rfl
  have hbuffer : buffer = bs.reverse ++ 93 :: as.reverse := by
    rw [← List.reverse_reverse buffer, hsplit, List.reverse_append, List.reverse_cons,
      List.append_assoc, List.singleton_append]
  rw [hdrop]
  cases hb : bs.reverse with
  | nil =>
    rw [hbuffer, hb] at hhead
    cases hhead
  | cons c sec =>
    rw [hb] at hbuffer
    rw [hbuffer] at hhead h
    cases hhead
    have hwhole : 91 :: sec ++ 93 :: as.reverse = (91 :: sec ++ [93]) ++ as.reverse := by
      rw [List.append_assoc, List.singleton_append]
    rw [hwhole] at h
    have hlast : (91 :: sec ++ [93]).getLast? ≠ some 13 := by
      rw [List.getLast?_concat]
      decide
    refine ⟨fun c hc => h.chars c (List.mem_append_left _ hc), hlast, ?_⟩
    exact (List.prefix_append _ _).length_le.trans h.length

theorem recordLine_of_line {buffer : Text} (h : Line buffer) (hmem : 61 ∈ buffer)
    (hhead : buffer.head? ≠ some 91 ∧ buffer.head? ≠ some 35 ∧ buffer.head? ≠ some 59) :
    RecordLine (buffer.takeWhile (· ≠ 61)) ((buffer.dropWhile (· ≠ 61)).drop 1) := by
  have hbuffer : buffer.takeWhile (· ≠ 61) ++ 61 :: (buffer.dropWhile (· ≠ 61)).drop 1 = buffer := by
    obtain ⟨as, bs, rfl, has⟩ := List.eq_append_cons_of_mem hmem
    rw [(cut_at has).1, (cut_at has).2]
    rfl
  refine ⟨by rwa [hbuffer], fun h61 => ?_, by rwa [hbuffer]⟩
  exact absurd (List.mem_takeWhile_imp h61) (by decide)

/-! ## Files that are loaded -/

/-- No line of the file ends in two carriage returns. -/
def OneReturn (file : Text) : Prop := ∀ l ∈ fileLines file, (trim (cstr l)).getLast? ≠ some 13

instance (file : Text) : Decidable (OneReturn file) :=
  inferInstanceAs (Decidable (∀ l ∈ fileLines file, _))

theorem line_of_mem {file l : Text} (h : OneReturn file) (hl : l ∈ fileLines file) :
    Line (trim (cstr l)) := by
  have hpiece : 10 ∉ l ∧ l.length ≤ 254 := by
    rcases List.mem_append.mp hl with hl | hl
    · exact piece_of_mem List.not_mem_nil (by decide) hl
    · split at hl
      · cases hl
      · rw [List.mem_singleton.mp hl]
        exact piece_unfinished List.not_mem_nil (by decide)
  have hsub : (trim (cstr l)).Sublist (cstr l) := by
    unfold trim
    split
    · exact List.dropLast_sublist _
    · exact List.Sublist.refl _
  have hcstr : (cstr l).Sublist l := List.takeWhile_sublist _
  refine ⟨fun c hc => ⟨?_, ?_⟩, h l hl, (hsub.trans hcstr).length_le.trans hpiece.2⟩
  · rintro rfl
    exact zero_notMem_cstr l (hsub.subset hc)
  · rintro rfl
    exact hpiece.1 ((hsub.trans hcstr).subset hc)

/-- What `load` keeps from line to line. -/
structure WellLoading (l : Loading) : Prop where
  content : WellFormed l.content
  comments : Commented l.comments
  currentSection : l.currentSection ≠ [] → Line (91 :: l.currentSection ++ [93])

theorem wellLoading_loadLine {buffer : Text} (hline : Line buffer) {l l' : Loading}
    (h : WellLoading l) (hl : loadLine buffer l = .ok (some l')) : WellLoading l' := by
  unfold loadLine at hl
  split at hl
  · cases hl
    exact h
  split at hl
  · next hhead =>
    split at hl
    · cases hl
    · next hmem =>
      obtain ⟨content, ha, hl⟩ := bind_eq_ok.mp hl
      cases hl
      have hsec := line_section hline hhead (not_not.mp hmem)
      exact ⟨wellFormed_addSection h.content hsec h.comments ha, commented_nil, fun _ => hsec⟩
  next hsec =>
  split at hl
  · next hcomment =>
    obtain ⟨comments, hc, hl⟩ := bind_eq_ok.mp hl
    obtain ⟨rfl, -⟩ := strcpy_eq_ok.mp hc
    cases hl
    exact ⟨h.content, commented_oneMore h.comments ⟨hline, hcomment⟩, h.currentSection⟩
  next hcomment =>
  split at hl
  · cases hl
  next hmem =>
  split at hl
  · cases hl
  · next hcur =>
    obtain ⟨content, ha, hl⟩ := bind_eq_ok.mp hl
    cases hl
    have hrecord := recordLine_of_line hline (not_not.mp hmem) ⟨hsec, not_or.mp hcomment⟩
    exact ⟨wellFormed_append h.content hcur (h.currentSection hcur) hrecord h.comments ha,
      commented_nil, h.currentSection⟩

theorem wellFormed_loadLines {buffers : List Text} (hlines : ∀ l ∈ buffers, Line (trim (cstr l)))
    {l : Loading} {c : Content} {b : Bool} (h : WellLoading l)
    (hl : loadLines buffers l = .ok (c, b)) : WellFormed c := by
  induction buffers generalizing l with
  | nil =>
    cases hl
    exact h.content
  | cons buffer buffers ih =>
    obtain ⟨o, ho, hl⟩ := bind_eq_ok.mp hl
    cases o with
    | none =>
      cases hl
      exact h.content
    | some l' =>
      exact ih (fun m hm => hlines m (List.mem_cons_of_mem buffer hm))
        (wellLoading_loadLine (hlines buffer List.mem_cons_self) h ho) hl

/-- **Whatever is loaded can be saved and loaded again**, unless a line ends in two carriage
returns. -/
theorem wellFormed_load {file : Text} {c : Content} {b : Bool} (h : OneReturn file)
    (hl : load file = .ok (c, b)) : WellFormed c :=
  wellFormed_loadLines (fun _ hm => line_of_mem h hm)
    ⟨⟨sound_nil, fun _ hs => absurd hs List.not_mem_nil⟩, commented_nil, fun h0 => absurd rfl h0⟩ hl

/-! ## Runs of the daemon -/

/-- A change whose lines are read as they are written. -/
structure Change.Kept (w : Change) : Prop where
  sec : w.sec ≠ []
  line : Line (91 :: w.sec ++ [93])
  record : RecordLine w.key w.value

instance (w : Change) : Decidable w.Kept :=
  decidable_of_iff (w.sec ≠ [] ∧ Line (91 :: w.sec ++ [93]) ∧ RecordLine w.key w.value)
    ⟨fun h => ⟨h.1, h.2.1, h.2.2⟩, fun h => ⟨h.sec, h.line, h.record⟩⟩

theorem Change.Kept.fits {w : Change} (h : w.Kept) : w.Fits := by
  have hsec := h.line.length
  have hrec := h.record.length
  simp only [List.length_append, List.length_cons, List.length_nil] at hsec hrec
  exact ⟨by omega, by omega, by omega⟩

theorem room_setValue {w : Change} {n : Nat} {c c' : Content} (hroom : Room n c)
    (hset : setValue w.sec w.key w.value c = .ok c') : Room n c' := by
  obtain ⟨rfl, -⟩ := append_eq_ok.mp hset
  have hold : CommentRoom n (sectionOf c w.sec).comments ∧
      ∀ r ∈ (sectionOf c w.sec).data, CommentRoom n r.comments := by
    unfold sectionOf
    cases hs : getSection c w.sec with
    | none => exact ⟨.inl rfl, fun _ hr => absurd hr List.not_mem_nil⟩
    | some s => exact hroom s (mem_of_entryOf hs)
  intro s hs
  rcases mem_put hs with rfl | hs
  · refine ⟨hold.1, fun r hr => ?_⟩
    rcases mem_put hr with rfl | hr
    · exact .inl rfl
    · exact hold.2 r hr
  · exact hroom s hs

theorem wellFormed_setValue {w : Change} (hw : w.Kept) {n : Nat} {c c' : Content}
    (h : WellFormed c) (hroom : Room n c) (hset : setValue w.sec w.key w.value c = .ok c') :
    WellFormed c' ∧ Room n c' :=
  ⟨wellFormed_append h hw.sec hw.line hw.record commented_nil hset, room_setValue hroom hset⟩

theorem wellFormed_setValues {changes : List Change} (hw : ∀ w ∈ changes, w.Kept) {n : Nat}
    {c : Content} (h : WellFormed c) (hroom : Room n c) :
    ∃ c', setValues changes c = .ok c' ∧ WellFormed c' ∧ Room n c' := by
  induction changes generalizing c with
  | nil => exact ⟨c, rfl, h, hroom⟩
  | cons w changes ih =>
    have hfit := (hw w List.mem_cons_self).fits
    have hset : setValue w.sec w.key w.value c = .ok _ :=
      append_eq_ok.mpr ⟨rfl, fun _ => hfit.1, Nat.zero_lt_succ _, hfit.2⟩
    obtain ⟨h1, hroom1⟩ := wellFormed_setValue (hw w List.mem_cons_self) h hroom hset
    obtain ⟨c', hc', h'⟩ := ih (fun v hv => hw v (List.mem_cons_of_mem w hv)) h1 hroom1
    refine ⟨c', ?_, h'⟩
    rw [setValues, List.foldlM_cons, hset, ok_bind]
    exact hc'

theorem setValues_ne_nil {changes : List Change} {c c' : Content} (h0 : c ≠ [])
    (h : setValues changes c = .ok c') : c' ≠ [] :=
  foldlM_induct (I := (· ≠ [])) (fun c w c' _ _ hset => by
    obtain ⟨rfl, -⟩ := append_eq_ok.mp hset
    exact put_ne_nil _ _ _) h0 h

/-- What a run of the daemon sets, and whether it saves without that. -/
structure Run where
  changes : List Change
  saves : Bool

/-- One run: the file is loaded, and saved at the end if it could be loaded. -/
def life (file : Text) (run : Run) : Except Overflow Text := do
  let (c, loaded) ← load file
  let c ← setValues run.changes c
  pure (if (run.changes ≠ [] ∨ run.saves) ∧ loaded then saved c else file)

def lives (file : Text) (runs : List Run) : Except Overflow Text := runs.foldlM life file

/-- One run keeps every setting it does not change, and its file can be loaded again. -/
theorem life_loaded {run : Run} (hw : ∀ w ∈ run.changes, w.Kept) {n : Nat} {file : Text}
    {c : Content} (hload : load file = .ok (c, true)) (h : WellFormed c) (h0 : c ≠ [])
    (hroom : Room (n + 1) c) :
    ∃ file' c', life file run = .ok file' ∧ load file' = .ok (c', true) ∧ WellFormed c' ∧ c' ≠ [] ∧
      Room n c' ∧ settings c' = changed run.changes (settings c) := by
  obtain ⟨c1, hset, h1, hroom1⟩ := wellFormed_setValues hw h hroom
  by_cases hc : run.changes ≠ [] ∨ run.saves = true
  · have h01 := setValues_ne_nil h0 hset
    have hempty : (!c1.isEmpty) = true := by simpa using h01
    have hone : Room 1 c1 := hroom1.mono (by omega)
    refine ⟨saved c1, marked c1, ?_, (load_saved_iff h1).mpr ⟨rfl, hempty.symm, hone⟩,
      wellFormed_marked h1 hone, fun e => h01 (List.map_eq_nil_iff.mp e), room_marked.mpr hroom1, ?_⟩
    · rw [life, hload, ok_bind]
      dsimp only
      rw [hset, ok_bind, if_pos ⟨hc, rfl⟩]
      rfl
    · rw [settings_marked, settings_setValues hset]
  · rw [not_or, not_not] at hc
    refine ⟨file, c, ?_, hload, h, h0, hroom.mono (Nat.le_succ n), by rw [hc.1]; rfl⟩
    rw [life, hload, ok_bind]
    dsimp only
    rw [hset, ok_bind, if_neg fun hp => (not_or.mpr ⟨not_not.mpr hc.1, hc.2⟩) hp.1]
    rfl

/-- **No setting is lost in any number of runs** that the comments have room for: each reads what was
set last. -/
theorem settings_lives {runs : List Run} (hw : ∀ run ∈ runs, ∀ w ∈ run.changes, w.Kept)
    {file : Text} {c : Content} (hload : load file = .ok (c, true)) (h : WellFormed c) (h0 : c ≠ [])
    (hroom : Room runs.length c) :
    ∃ file' c', lives file runs = .ok file' ∧ load file' = .ok (c', true) ∧
      settings c' = changed (runs.flatMap Run.changes) (settings c) := by
  induction runs generalizing file c with
  | nil => exact ⟨file, c, rfl, hload, rfl⟩
  | cons run runs ih =>
    obtain ⟨file1, c1, hlife, hload1, h1, h01, hroom1, hsettings⟩ := life_loaded
      (hw run List.mem_cons_self) hload h h0 hroom
    obtain ⟨file', c', hlives, hload', hc'⟩ := ih (fun r hr => hw r (List.mem_cons_of_mem run hr))
      hload1 h1 h01 hroom1
    refine ⟨file', c', ?_, hload', ?_⟩
    · rw [lives, List.foldlM_cons, hlife, ok_bind]
      exact hlives
    · rw [hc', hsettings, List.flatMap_cons, changed, changed, changed, List.foldl_append]

/-- The content after it was saved and loaded so many times. -/
def reloads : Nat → Content → Except Overflow Content
  | 0, c => pure c
  | n + 1, c => do
    let (c, _) ← load (saved c)
    reloads n c

/-- **Comments grow until one overflows its buffer**: a content can be saved and loaded as often as
its comments have room. -/
theorem reloads_eq_ok {n : Nat} {c c' : Content} (h : WellFormed c) :
    reloads n c = .ok c' ↔ c' = marked^[n] c ∧ Room n c := by
  induction n generalizing c with
  | zero =>
    have h0 : Room 0 c := fun s hs =>
      ⟨.inr (h.sections s hs).comments, fun r hr => .inr ((h.sections s hs).records r hr).comments⟩
    exact ⟨fun e => ⟨(Except.ok.inj e).symm, h0⟩, fun e => congrArg Except.ok e.1.symm⟩
  | succ n ih =>
    rw [Function.iterate_succ_apply]
    constructor
    · intro e
      obtain ⟨⟨c1, b⟩, hload, e⟩ := bind_eq_ok.mp e
      obtain ⟨rfl, -, hroom⟩ := (load_saved_iff h).mp hload
      obtain ⟨hc', hroom'⟩ := (ih (wellFormed_marked h hroom)).mp e
      exact ⟨hc', room_marked.mp hroom'⟩
    · rintro ⟨hc', hroom⟩
      have hroom1 : Room 1 c := hroom.mono (by omega)
      rw [reloads, (load_saved_iff h).mpr ⟨rfl, rfl, hroom1⟩, ok_bind]
      exact (ih (wellFormed_marked h hroom1)).mpr ⟨hc', room_marked.mpr hroom⟩

def sampleContent : Content :=
  [⟨ascii "# all", ascii "Slot", [⟨[], ascii "defaultSlot", ascii "2"⟩]⟩]

theorem wellFormed_sampleContent : WellFormed sampleContent where
  names := by decide
  sections s hs := by
    obtain rfl := List.mem_singleton.mp hs
    exact ⟨by decide, by decide, fun r hr => by
      obtain rfl := List.mem_singleton.mp hr
      exact ⟨by decide, by decide, by decide⟩, by decide⟩
  wellFormed s hs := by
    obtain rfl := List.mem_singleton.mp hs
    refine ⟨⟨[ascii "# all"], rfl, fun l hl => ?_⟩, by decide +kernel, fun _ => by decide,
      fun r hr => ?_⟩
    · obtain rfl := List.mem_singleton.mp hl
      exact ⟨by decide +kernel, by decide⟩
    · obtain rfl := List.mem_singleton.mp hr
      exact ⟨commented_nil, by decide +kernel⟩

theorem room_sampleContent {n : Nat} (h : n < 250) : Room n sampleContent := by
  intro s hs
  obtain rfl := List.mem_singleton.mp hs
  refine ⟨.inr (show 5 + n < 255 by omega), fun r hr => ?_⟩
  obtain rfl := List.mem_singleton.mp hr
  exact .inl rfl

/-- The comment of five characters has room for 249 more. -/
theorem reloads_eq_ok_sample : reloads 249 sampleContent = .ok (marked^[249] sampleContent) :=
  (reloads_eq_ok wellFormed_sampleContent).mpr ⟨rfl, room_sampleContent (by decide)⟩

end IniManage

end RecsDaemon
