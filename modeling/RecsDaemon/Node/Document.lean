import RecsDaemon.Json.RoundTrip
import RecsDaemon.Node

/-!
# The monitoring data as a document

What `json::Deserialize` makes of the text of `getJSONMonitoringData`
(`deserialize_monitoringJSON`): an array with an object for each reading. A
reading with a fraction that `strtod` does not read is not in it.
-/

namespace RecsDaemon

open Base

namespace Node

open Json

/-! ## Readings -/

/-- A stream prints a natural number as it prints an integer. -/
theorem decimalText_eq_intText (n : Nat) : decimalText n = intText n := by
  rw [intText, if_neg (by omega), Int.natAbs_natCast]

theorem numberChar_decimalText {n : Nat} {c : UInt8} (hc : c ∈ decimalText n) :
    numberChar c = true :=
  numberChar_digit (isDigit_decimalText hc)


/-- What the library reads of a printed number: an `int` if there is no fraction. -/
def milliRead (libc : Libc) (n : Nat) : Option Value :=
  if n % 1000 = 0 then some (.int (.ofNat (n / 1000)))
  else (libc.strtod (printMilli n)).map .double

theorem integerRead_natCast {libc : Libc} (hl : 32 ≤ libc.longBits) {n : Nat} (hn : n < 2 ^ 31) :
    integerRead libc n = some (.int (.ofNat n)) := by
  rw [integerRead_int hl (by omega) (by omega), Int32.ofInt_eq_ofNat]

theorem real_printMilli {n : Nat} (h : n % 1000 ≠ 0) :
    ∃ b, printMilli n = decimalText (n / 1000) ++ 46 :: b ∧ Real (decimalText (n / 1000)) (46 :: b) [] := by
  obtain ⟨b, htext, hb⟩ : ∃ b, printMilli n = decimalText (n / 1000) ++ 46 :: b ∧
      ∀ c ∈ b, numberChar c = true := by
    have hdrop {m : Nat} {c : UInt8} (hc : c ∈ (decimalText m).drop 1) : numberChar c = true :=
      numberChar_decimalText ((List.drop_suffix 1 _).subset hc)
    rw [printMilli, if_neg h]
    split
    · exact ⟨_, rfl, fun c hc => numberChar_decimalText hc⟩
    split
    · exact ⟨_, rfl, fun c hc => hdrop hc⟩
    · exact ⟨_, rfl, fun c hc => hdrop hc⟩
  have hne : decimalText (n / 1000) ≠ [] := decimalText_ne_nil _
  obtain ⟨c, cs, hc⟩ := List.exists_cons_of_ne_nil hne
  have hmem : c ∈ decimalText (n / 1000) := hc ▸ List.mem_cons_self
  exact ⟨b, htext, ⟨c, hmem, isDigit_decimalText hmem⟩,
    fun c hc => numberChar_decimalText hc, .inr ⟨b, rfl, hb⟩, .inl rfl, .inl (List.cons_ne_nil _ _)⟩

theorem denotes_printMilli {libc : Libc} (hl : 32 ≤ libc.longBits) {n : Nat} (hn : n < 2 ^ 16) :
    Denotes libc (printMilli n) (milliRead libc n) := by
  by_cases h : n % 1000 = 0
  · have hint := @Scalar.int libc (n / 1000 : Nat)
    rw [← decimalText_eq_intText, integerRead_natCast hl (by omega)] at hint
    rw [milliRead, if_pos h, printMilli, if_pos h, List.append_nil]
    exact .scalar hint
  · obtain ⟨b, htext, hreal⟩ := real_printMilli h
    have h' := @Scalar.real libc _ _ _ hreal
    rw [List.append_nil, ← htext] at h'
    rw [milliRead, if_neg h]
    exact .scalar h'

/-! ## The document -/

def readingObject (name key : Text) (v : Value) (unit : Text) : Value :=
  .object [(ascii "name", .text name), (ascii "unit", .text unit), (key, v)]

def readingText (name key value unit : Text) : Text :=
  ascii "\x7b\"name\": \"" ++ name ++ ascii "\", \"" ++ key ++ ascii "\": " ++ value ++
    ascii ", \"unit\": \"" ++ unit ++ ascii "\"\x7d"

/-- A string that is read as it is written. -/
def Verbatim (s : Text) : Prop := Bare s ∧ trim s = s

instance : DecidablePred Verbatim := fun s => inferInstanceAs (Decidable (Bare s ∧ trim s = s))

theorem denotes_reading {libc : Libc} {name key value unit : Text} {v : Option Value}
    (hname : Verbatim name) (hkey : key = ascii "value" ∨ key = ascii "values")
    (hv : Denotes libc value v) (hunit : Verbatim unit) :
    Denotes libc (readingText name key value unit)
      (some (v.elim .null fun v => readingObject name key v unit)) := by
  have hspace : Blank [32] := by decide +kernel
  have hbare : Bare key ∧ Bare (ascii "name") ∧ Bare (ascii "unit") := by
    rcases hkey with rfl | rfl <;> exact ⟨by decide +kernel, by decide +kernel, by decide +kernel⟩
  have hne : key ≠ [] := by rcases hkey with rfl | rfl <;> decide +kernel
  have horder : compare key (ascii "name") = .gt ∧ compare (ascii "unit") key = .lt ∧
      compare (ascii "unit") (ascii "name") = .gt := by
    rcases hkey with rfl | rfl <;> decide +kernel
  have h := Denotes.object (.cons blank_nil hbare.2.1.chars.quoted blank_nil hspace
    (.text hname.1.chars) blank_nil (.cons hspace hbare.1.chars.quoted blank_nil hspace hv blank_nil
      (.last hspace hbare.2.2.chars.quoted blank_nil hspace (.text hunit.1.chars) blank_nil)))
  have htext : readingText name key value unit =
      123 :: ([] ++ 34 :: (ascii "name" ++ 34 :: ([] ++ 58 :: ([32] ++ (34 :: name ++ [34]) ++
        ([] ++ 44 :: ([32] ++ 34 :: (key ++ 34 :: ([] ++ 58 :: ([32] ++ value ++
          ([] ++ 44 :: ([32] ++ 34 :: (ascii "unit" ++ 34 :: ([] ++ 58 ::
            ([32] ++ (34 :: unit ++ [34]) ++ [])))))))))))))) ++ [125] := by
    have h1 : ascii "\x7b\"name\": \"" = 123 :: 34 :: (ascii "name" ++ [34, 58, 32, 34]) := rfl
    have h2 : ascii "\", \"" = [34, 44, 32, 34] := rfl
    have h3 : ascii "\": " = [34, 58, 32] := rfl
    have h4 : ascii ", \"unit\": \"" = 44 :: 32 :: 34 :: (ascii "unit" ++ [34, 58, 32, 34]) := rfl
    have h5 : ascii "\"\x7d" = [34, 125] := rfl
    rw [readingText, h1, h2, h3, h4, h5]
    simp
  rw [htext]
  have hunit0 : ascii "unit" ≠ [] := by decide +kernel
  have hname0 : ascii "name" ≠ [] := by decide +kernel
  rw [member_some, member_some, if_neg hunit0, if_neg hname0, hname.2, hunit.2] at h
  cases v with
  | none => exact h
  | some v =>
    rw [member_some, if_neg hne] at h
    have hobject : objectOf [] [(ascii "name", .text name), (key, v), (ascii "unit", .text unit)] =
        readingObject name key v unit := by
      simp [objectOf, Json.insert, readingObject, horder]
    rw [Option.elim_some, ← hobject]
    exact h

/-- A reading as an element; it is not there without a value. -/
def reading (name key : Text) (v : Option Value) (unit : Text) : List Value :=
  (v.map fun v => readingObject name key v unit).toList

theorem element_reading (name key value unit : Text) (v : Option Value) :
    element (readingText name key value unit)
      (some (v.elim .null fun v => readingObject name key v unit)) =
        some (reading name key v unit) := by
  have hwhole : whole (readingText name key value unit) = true := rfl
  rw [element_whole hwhole]
  cases v <;> rfl

theorem elements_reading {libc : Libc} {name key value unit rest : Text} {v : Option Value}
    {vs : List Value} (hname : Verbatim name) (hkey : key = ascii "value" ∨ key = ascii "values")
    (hv : Denotes libc value v) (hunit : Verbatim unit) (hrest : Elements libc rest (some vs)) :
    Elements libc ([13, 10] ++ readingText name key value unit ++ ([] ++ 44 :: rest))
      (some (reading name key v unit ++ vs)) := by
  have h := Elements.cons (show Blank [13, 10] by decide +kernel) (denotes_reading hname hkey hv hunit)
    blank_nil hrest
  rwa [element_reading] at h

theorem elements_decimalText {libc : Libc} (hl : 32 ≤ libc.longBits) (ts : Bytes) {a : Text}
    (ha : Blank a) :
    Elements libc (a ++ (ascii ", ").intercalate (ts.map fun t => decimalText t.toNat))
      (some (ts.map fun t => .int (.ofNat t.toNat))) := by
  have hprinted (t : UInt8) : Denotes libc (decimalText t.toNat) (some (.int (.ofNat t.toNat))) ∧
      element (decimalText t.toNat) (some (.int (.ofNat t.toNat))) = some [.int (.ofNat t.toNat)] := by
    have hlt : t.toNat < 2 ^ 31 := Nat.lt_trans (UInt8.toNat_lt t) (by decide)
    have h := @Scalar.int libc t.toNat
    rw [← decimalText_eq_intText, integerRead_natCast hl hlt] at h
    exact ⟨.scalar h, element_whole (whole_scalar h) _⟩
  have hspace : Blank [32] := by decide +kernel
  induction ts generalizing a with
  | nil =>
    have hnil : a ++ (ascii ", ").intercalate (([] : Bytes).map fun t => decimalText t.toNat) = a :=
      List.append_nil a
    rw [hnil]
    exact .nil ha
  | cons t ts ih =>
    obtain ⟨ht, he⟩ := hprinted t
    cases ts with
    | nil =>
      have h := Elements.last ha ht blank_nil
      rw [he, List.append_nil] at h
      simpa using h
    | cons u ts =>
      have h := Elements.cons ha ht blank_nil (ih hspace)
      have hsep : ascii ", " = [44, 32] := rfl
      rw [he] at h
      simpa [hsep, List.append_assoc] using h

def monitoringValues (libc : Libc) (nodeType : NodeType) (slot : UInt8) (mon : Mem) : List Value :=
  let value (off : Nat) : Option Value := milliRead libc (ofLE (mon.read off 2))
  reading (ascii "nodeCurrent") (ascii "value") (value (30 + 2 * (2 + slot.toNat))) (ascii "A") ++
    ((if nodeType = .cxp then
      reading (ascii "pegCurrent") (ascii "value") (value 32) (ascii "A") else []) ++
    (reading (ascii "12vSupply") (ascii "value") (value 14) (ascii "V") ++
    reading (ascii "temperatures") (ascii "values")
      (some (.array ((mon.read 46 5).map fun t => .int (.ofNat t.toNat)))) [0xB0, 0x43]))

/-- **The library reads the monitoring data** as its readings, and is silent about the ones it has no
value for. -/
theorem deserialize_monitoringJSON {libc : Libc} (hl : 32 ≤ libc.longBits) (nodeType : NodeType)
    (slot : UInt8) (mon : Mem) :
    deserialize libc (monitoringJSON nodeType slot mon) =
      .ok (.array (monitoringValues libc nodeType slot mon)) := by
  have hline : Blank [13, 10] := by decide +kernel
  have hmilli (off : Nat) : Denotes libc (printMilli (ofLE (mon.read off 2)))
      (milliRead libc (ofLE (mon.read off 2))) := by
    refine denotes_printMilli hl ?_
    have h := ofLE_lt (mon.read off 2)
    rwa [Mem.length_read] at h
  have hampere : Verbatim (ascii "A") := by decide +kernel
  have htemperatures := Elements.last hline (denotes_reading
    (show Verbatim (ascii "temperatures") by decide +kernel) (.inr rfl)
    (Denotes.array (elements_decimalText hl (mon.read 46 5) blank_nil))
    (show Verbatim [0xB0, 0x43] by decide +kernel)) hline
  rw [element_reading] at htemperatures
  have hsupply := elements_reading (show Verbatim (ascii "12vSupply") by decide +kernel) (.inl rfl)
    (hmilli 14) (show Verbatim (ascii "V") by decide +kernel) htemperatures
  have hnode : Verbatim (ascii "nodeCurrent") := by decide +kernel
  obtain ⟨e, he, htext⟩ : ∃ e, Elements libc e (some (monitoringValues libc nodeType slot mon)) ∧
      monitoringJSON nodeType slot mon = [] ++ (91 :: e ++ [93]) ++ [13, 10] := by
    -- the brackets, commas and line ends of the text
    have h1 : ascii "[\r\n" = [91, 13, 10] := rfl
    have h2 : ascii "\", \"value\": " = ascii "\", \"" ++ ascii "value" ++ ascii "\": " := rfl
    have h3 : ascii "\"\x7d,\r\n" = ascii "\"\x7d" ++ [44, 13, 10] := rfl
    have h4 : ascii "\x7b\"name\": \"temperatures\", \"values\": [" = ascii "\x7b\"name\": \"" ++
      ascii "temperatures" ++ ascii "\", \"" ++ ascii "values" ++ ascii "\": " ++ [91] := rfl
    have h5 : ascii "], \"unit\": \"" = 93 :: ascii ", \"unit\": \"" := rfl
    have h6 : ascii "\"\x7d\r\n" = ascii "\"\x7d" ++ [13, 10] := rfl
    have h7 : ascii "]\r\n" = [93, 13, 10] := rfl
    cases nodeType with
    | apalis =>
      have h := elements_reading hnode (.inl rfl) (hmilli (30 + 2 * (2 + slot.toNat))) hampere hsupply
      refine ⟨_, h, ?_⟩
      simp [monitoringJSON, readingText, h1, h2, h3, h4, h5, h6, h7]
    | cxp =>
      have hpeg := elements_reading (show Verbatim (ascii "pegCurrent") by decide +kernel) (.inl rfl)
        (hmilli 32) hampere hsupply
      have h := elements_reading hnode (.inl rfl) (hmilli (30 + 2 * (2 + slot.toNat))) hampere hpeg
      refine ⟨_, h, ?_⟩
      simp [monitoringJSON, readingText, h1, h2, h3, h4, h5, h6, h7]
  have hd := Denotes.array he
  rw [htext, deserialize_of_trim hd (hd.trim_blank blank_nil hline)]
  rfl

/-- The block of a CXP node at 12 V, with 1.5 A at its connector and 2 A in all. -/
def cxpBlock : Mem :=
  ((Mem.write (fun _ => 0) 14 [0xE0, 0x2E]).write 32 [0xDC, 0x05, 0xD0, 0x07]).write 46
    [40, 41, 42, 43, 44]

/-- Only the current at the connector has a fraction. -/
theorem deserialize_monitoringJSON_sample :
    let one_half : Double := ⟨0x3FF8000000000000⟩
    let libc : Libc :=
      { Libc.integers with strtod := fun s => if s = ascii "1.5" then some one_half else none }
    deserialize libc (monitoringJSON .cxp 0 cxpBlock) =
      .ok (.array [readingObject (ascii "nodeCurrent") (ascii "value") (.int 2) (ascii "A"),
        readingObject (ascii "pegCurrent") (ascii "value") (.double one_half) (ascii "A"),
        readingObject (ascii "12vSupply") (ascii "value") (.int 12) (ascii "V"),
        readingObject (ascii "temperatures") (ascii "values")
          (.array [.int 40, .int 41, .int 42, .int 43, .int 44]) [0xB0, 0x43]]) := by
  intro one_half libc
  have hblock : ofLE (cxpBlock.read 34 2) = 2000 ∧ ofLE (cxpBlock.read 32 2) = 1500 ∧
      ofLE (cxpBlock.read 14 2) = 12000 ∧ cxpBlock.read 46 5 = [40, 41, 42, 43, 44] := by decide
  have hfraction : milliRead libc 1500 = some (.double one_half) := by
    have h : libc.strtod (printMilli 1500) = some one_half := by decide +kernel
    rw [milliRead, if_neg (by decide), h]
    rfl
  rw [@deserialize_monitoringJSON libc (by decide) .cxp 0 cxpBlock]
  simp only [monitoringValues, hblock, hfraction, show 30 + 2 * (2 + (0 : UInt8).toNat) = 34 from rfl]
  rfl

end Node

end RecsDaemon
