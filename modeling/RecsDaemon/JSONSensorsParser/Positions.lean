import RecsDaemon.JSONSensorsParser.Kinds

/-!
# The positions of JSON values

`updateSensors` counts the beans, the data array is written by the positions of
the description. The two agree only in front of the first rejected entry
(`offers_iff`).
-/

namespace RecsDaemon

open Base Json

namespace JSONSensorsParser

/-! ## Beans and entries -/

def beanIndex (elems : List Value) (d : Nat) : Nat := ((elems.take d).filterMap described).length

theorem entries_beanIndex {elems : List Value} {d : Nat} {e : Text × SensorDataType × Nat}
    (h : elems[d]?.bind described = some e) :
    (elems.filterMap described)[beanIndex elems d]? = some e := by
  induction elems generalizing d with
  | nil => cases h
  | cons v vs ih =>
    cases d with
    | zero =>
      have hv : described v = some e := h
      rw [beanIndex, List.take_zero, List.filterMap_nil, List.filterMap_cons_some hv]
      rfl
    | succ d =>
      have hd := @ih d (by simpa using h)
      unfold beanIndex at hd ⊢
      rw [List.take_succ_cons]
      cases hv : described v with
      | none => rw [List.filterMap_cons_none hv, List.filterMap_cons_none hv]; exact hd
      | some p =>
        rw [List.filterMap_cons_some hv, List.filterMap_cons_some hv, List.length_cons,
          List.getElem?_cons_succ]
        exact hd

/-! ## Sample values -/

/-- A value of each kind, with `c` in each byte of its number or text. -/
def sampleValue (c : Bool) : ValueType → Value
  | .null => .null
  | .text => .text (if c then [1] else [])
  | .int => .int (if c then 1 else 0)
  | .double => .double (if c then ⟨0x0101010101010101⟩ else ⟨0⟩)
  | .object => .object []
  | .array => .array []
  | .bool => .bool c

@[simp] theorem getType_sampleValue (c : Bool) (f : ValueType) :
    (sampleValue c f).getType = f := by
  cases f <;> rfl

/-- A write to a cleared memory leaves it cleared only if all its bytes are zero. -/
theorem write_cleared {bs : Bytes} :
    Mem.write (fun _ => 0) 0 bs = (fun _ => 0) ↔ ∀ b ∈ bs, b = 0 := by
  constructor
  · intro h b hb
    obtain ⟨i, hi, rfl⟩ := List.mem_iff_getElem.mp hb
    rw [← Mem.write_inside (fun _ => 0) 0 bs hi, h]
  · intro h
    funext a
    by_cases ha : a < bs.length
    · have hw := Mem.write_inside (fun _ => 0) 0 bs ha
      rw [Nat.zero_add] at hw
      rw [hw]
      exact h _ (List.getElem_mem ha)
    · exact Mem.write_above (by omega)

theorem stored_sample_false (s : Sensor) (f : ValueType) :
    stored (fun _ => 0) (storedBytes (fun _ => 0) s (sampleValue false f)) = fun _ => 0 := by
  have htext : ∀ b ∈ SensorBean.textBytes s.getMaxDataSize [], b = 0 := by
    intro b hb
    exact List.mem_singleton.mp (List.mem_of_mem_take hb)
  unfold storedBytes
  cases f with
  | text =>
    by_cases ht : s.getDataType ≠ .str
    · simp only [sampleValue, if_pos ht]; rfl
    · simp only [sampleValue, if_neg ht]
      exact write_cleared.mpr htext
  | bool =>
    by_cases ht : s.getDataType ≠ .str
    · simp only [sampleValue, if_pos ht]; rfl
    · simp only [sampleValue, if_neg ht]
      exact write_cleared.mpr htext
  | int =>
    by_cases ht : s.getDataType ≠ .str
    · simp only [sampleValue, if_pos ht]
      apply write_cleared.mpr
      intro b hb
      rcases List.mem_append.mp (List.mem_of_mem_drop hb) with hb | hb
      · exact (List.mem_map.mp hb).elim fun _ h => h.2.symm
      · exact List.eq_of_mem_replicate (show b ∈ List.replicate 4 0 from hb)
    · simp only [sampleValue, if_neg ht]
      exact write_cleared.mpr htext
  | double =>
    by_cases ht : s.getDataType ≠ .str
    · simp only [sampleValue, if_pos ht]
      apply write_cleared.mpr
      intro b hb
      rcases List.mem_append.mp (List.mem_of_mem_take hb) with hb | hb
      · exact List.eq_of_mem_replicate (show b ∈ List.replicate 8 0 from hb)
      · exact (List.mem_map.mp hb).elim fun _ h => h.2.symm
    · simp only [sampleValue, if_neg ht]
      exact write_cleared.mpr htext
  | _ => rfl

theorem stored_sample_true {s : Sensor} {f : ValueType} (hf : fits s.getDataType f = true)
    (h0 : s.getMaxDataSize ≠ 0) :
    stored (fun _ => 0) (storedBytes (fun _ => 0) s (sampleValue true f)) ≠ fun _ => 0 := by
  have hone : ∀ bs : Bytes, (1 : UInt8) ∈ bs → Mem.write (fun _ => 0) 0 bs ≠ fun _ => 0 :=
    fun bs hb he => absurd (write_cleared.mp he 1 hb) (by decide)
  obtain ⟨n, hn⟩ := Nat.exists_eq_succ_of_ne_zero h0
  unfold storedBytes
  cases f with
  | text =>
    have ht : ¬ s.getDataType ≠ .str := by simpa [fits] using hf
    simp only [sampleValue, if_neg ht]
    exact hone _ (by rw [hn]; exact List.mem_cons_self)
  | int =>
    have ht : s.getDataType ≠ .str := by simpa [fits] using hf
    simp only [sampleValue, if_pos ht]
    refine hone _ (List.mem_iff_getElem?.mpr ⟨n, ?_⟩)
    rw [SensorBean.uint32Bytes, hn, List.getElem?_drop, List.getElem?_append_right (by simp; omega),
      Mem.length_read, show 4 - n.succ + n - (n.succ - 4) = 3 by omega]
    rfl
  | double =>
    have ht : s.getDataType ≠ .str := by simpa [fits] using hf
    simp only [sampleValue, if_pos ht]
    exact hone _ (by rw [hn]; exact List.mem_cons_self)
  | _ => cases hf

/-! ## Offers -/

/-- After every update with data of these kinds, whatever its values, the text, the stack and the
buffers were, the bean of each entry that describes a sensor holds what the value at the entry's own
position makes of it, and is unchanged if that value is of a wrong kind. -/
def OffersAll (parser : JSONSensorsParser) (elems : List Value) (kinds : List ValueType) : Prop :=
  ∀ deserialize provider answer values stack beans beans',
    values.map Value.getType = kinds →
    provider.getSensorsData answer ≠ [] →
    deserialize (provider.getSensorsData answer) = .ok (.array values) →
    updateSensors deserialize { parser with mSensorProvider := provider } answer stack beans =
      .ok beans' →
    ∀ (d : Nat) e x, elems[d]?.bind described = some e → values[d]? = some x →
      ∃ s, parser.mSensorsOrdered[beanIndex elems d]? = some s ∧
        (s.getDataType, s.getMaxDataSize) = e.2 ∧
        beans' s.source =
          if fits s.getDataType x.getType then
            updateSensor (stack (beanIndex elems d)) s x beans s.source
          else beans s.source

/-- Each sensor is at its position in the data and gets a value it takes, or neither the value at its
position is one it takes nor the value it gets one it stores. -/
def Aligned (elems : List Value) (kinds : List ValueType) : Prop :=
  ∀ (d : Nat) e, elems[d]?.bind described = some e → e.2.2 ≠ 0 →
    (beanIndex elems d = d ∧ fits e.2.1 (kinds.getD d .null) = true) ∨
      (fits e.2.1 (kinds.getD d .null) = false ∧
        skips e.2.1 (kinds.getD (beanIndex elems d) .null) = true)

section Offers

variable {deserialize : Deserialize} {pf : Platform} {provider : JSONSensorProvider} {name : Text}
  {parser : JSONSensorsParser} {map : SensorMap} {elems : List Value} {kinds : List ValueType}

theorem bean_of_entry (h : getSensors deserialize pf provider name = .ok (parser, map))
    (hv : deserialize provider.getSensorsDescription = .ok (.array elems)) {d : Nat}
    {e : Text × SensorDataType × Nat} (he : elems[d]?.bind described = some e) :
    ∃ s, parser.mSensorsOrdered[beanIndex elems d]? = some s ∧
      (s.getDataType, s.getMaxDataSize) = e.2 := by
  obtain ⟨-, ordered, rfl, -, hsig⟩ := getSensors_entries h hv
  have hk := entries_beanIndex he
  rw [← show ordered.map signature = elems.filterMap described from hsig] at hk
  obtain ⟨p, hp, rfl⟩ := Option.map_eq_some_iff.mp (List.getElem?_map .. ▸ hk)
  exact ⟨p.2, by rw [List.getElem?_map, hp]; rfl, rfl⟩

theorem length_ordered_le (h : getSensors deserialize pf provider name = .ok (parser, map))
    (hv : deserialize provider.getSensorsDescription = .ok (.array elems)) :
    parser.mSensorsOrdered.length ≤ elems.length := by
  obtain ⟨-, ordered, rfl, -, hsig⟩ := getSensors_entries h hv
  have hle := List.length_filterMap_le described elems
  rw [← show ordered.map signature = elems.filterMap described from hsig, List.length_map] at hle
  rw [List.length_map]
  exact hle

theorem getD_sample {c : Nat → Bool} {i : Nat} :
    (kinds.mapIdx fun i f => sampleValue (c i) f).getD i .null =
      sampleValue (c i) (kinds.getD i .null) := by
  rw [List.getD_eq_getElem?_getD, List.getD_eq_getElem?_getD, List.getElem?_mapIdx]
  cases kinds[i]? <;> rfl

theorem sample_update (h : getSensors deserialize pf provider name = .ok (parser, map))
    (hv : deserialize provider.getSensorsDescription = .ok (.array elems))
    (hl : elems.length ≤ kinds.length) (hall : OffersAll parser elems kinds) (c : Nat → Bool)
    (beans : Beans) {d : Nat} {e : Text × SensorDataType × Nat}
    (he : elems[d]?.bind described = some e) :
    ∃ s, (s.getDataType, s.getMaxDataSize) = e.2 ∧
      stored (beans s.source) (storedBytes (fun _ => 0) s
          (sampleValue (c (beanIndex elems d)) (kinds.getD (beanIndex elems d) .null))) =
        if fits s.getDataType (kinds.getD d .null) then
          stored (beans s.source) (storedBytes (fun _ => 0) s
            (sampleValue (c d) (kinds.getD d .null)))
        else beans s.source := by
  generalize hvals : (kinds.mapIdx fun i f => sampleValue (c i) f) = values
  have hkinds : values.map Value.getType = kinds := by
    refine List.ext_getElem? fun i => ?_
    rw [← hvals, List.getElem?_map, List.getElem?_mapIdx]
    cases kinds[i]? <;> simp
  have hdl : d < values.length := by
    have hd : d < elems.length := by
      by_contra hge
      rw [List.getElem?_eq_none (by omega)] at he
      cases he
    rw [← hkinds, List.length_map] at hl
    omega
  have hlen : parser.mSensorsOrdered.length ≤ values.length := by
    have hle := length_ordered_le h hv
    rw [← hkinds, List.length_map] at hl
    omega
  have hup := updateSensors_array (fun _ => .ok (.array values))
    { parser with mSensorProvider := .plugin [] } [1] (fun _ _ => 0) beans
    (show cstr [1] ≠ [] by decide) rfl hlen
  obtain ⟨s, hs, hsig, hgot⟩ := hall (fun _ => .ok (.array values)) (.plugin []) [1] values
    (fun _ _ => 0) beans _ hkinds (show cstr [1] ≠ [] by decide) rfl hup d e values[d] he
    (List.getElem?_eq_getElem hdl)
  have hd : ∀ i, values.getD i .null = sampleValue (c i) (kinds.getD i .null) := fun i => by
    rw [← hvals, getD_sample]
  have hdx : values[d] = sampleValue (c d) (kinds.getD d .null) := by
    rw [← hd, List.getD_eq_getElem?_getD, List.getElem?_eq_getElem hdl, Option.getD_some]
  rw [updateValues_bean h _ _ _ hs, hd, hdx, getType_sampleValue, updateSensor_source] at hgot
  exact ⟨s, hsig, hgot⟩

/-- **Which values reach the sensor they describe**: for a description `getSensors` returned on and
the kinds of a data array that is long enough. -/
theorem offers_iff (h : getSensors deserialize pf provider name = .ok (parser, map))
    (hv : deserialize provider.getSensorsDescription = .ok (.array elems))
    (hl : elems.length ≤ kinds.length) :
    OffersAll parser elems kinds ↔ Aligned elems kinds := by
  constructor
  · intro hall d e he h0
    by_contra hbad
    obtain ⟨hpos, hkind⟩ := not_or.mp hbad
    cases hf : fits e.2.1 (kinds.getD d .null) with
    | false =>
      -- the value is of a wrong kind, and another one is stored
      have hk : ¬ skips e.2.1 (kinds.getD (beanIndex elems d) .null) = true := fun hk =>
        hkind ⟨hf, hk⟩
      obtain ⟨s, -, hsig⟩ := bean_of_entry h hv he
      have hk' : ¬ skips s.getDataType
          (sampleValue false (kinds.getD (beanIndex elems d) .null)).getType = true := by
        rw [getType_sampleValue, show s.getDataType = e.2.1 from congrArg Prod.fst hsig]
        exact hk
      obtain ⟨c, hc⟩ := @stored_ne (fun _ => 0) s _ hk'
        (by rw [show s.getMaxDataSize = e.2.2 from congrArg Prod.snd hsig]; exact h0)
      obtain ⟨s', hsig', hgot⟩ := sample_update h hv hl hall (fun _ => false) (fun _ _ => c) he
      rw [show s'.getDataType = e.2.1 from congrArg Prod.fst hsig', hf] at hgot
      have hsame : storedBytes (fun _ => 0) s' = storedBytes (fun _ => 0) s := by
        have ht := hsig'.trans hsig.symm
        rw [Prod.mk.injEq] at ht
        funext x
        unfold storedBytes
        rw [ht.1, ht.2]
      rw [hsame] at hgot
      exact hc hgot
    | true =>
      -- the value would be stored, but it is another bean's
      have hne : beanIndex elems d ≠ d := fun he => hpos ⟨he, hf⟩
      obtain ⟨s, hsig, hgot⟩ := sample_update h hv hl hall (fun i => decide (i = d))
        (fun _ _ => 0) he
      have ht : s.getDataType = e.2.1 := congrArg Prod.fst hsig
      have hn : s.getMaxDataSize = e.2.2 := congrArg Prod.snd hsig
      rw [ht, hf, if_pos rfl, decide_eq_false hne, decide_eq_true rfl, stored_sample_false] at hgot
      exact stored_sample_true (by rw [ht]; exact hf) (by rw [hn]; exact h0) hgot.symm
  · intro hal deserialize' provider' answer values stack beans beans' hkinds ht hv' hup d e x he hx
    obtain ⟨s, hs, hsig⟩ := bean_of_entry h hv he
    have htype : s.getDataType = e.2.1 := congrArg Prod.fst hsig
    have hsize : s.getMaxDataSize = e.2.2 := congrArg Prod.snd hsig
    have hlen : parser.mSensorsOrdered.length ≤ values.length := by
      rw [← hkinds, List.length_map] at hl
      exact (length_ordered_le h hv).trans hl
    have hkind : ∀ i, kinds.getD i .null = (values.getD i .null).getType := fun i => by
      rw [← hkinds, List.getD_eq_getElem?_getD, List.getD_eq_getElem?_getD, List.getElem?_map]
      cases values[i]? <;> rfl
    have hxd : values.getD d .null = x := by rw [List.getD_eq_getElem?_getD, hx, Option.getD_some]
    rw [updateSensors_array _ { parser with mSensorProvider := provider' } _ _ _ ht hv' hlen,
      Except.ok.injEq] at hup
    refine ⟨s, hs, hsig, ?_⟩
    rw [← hup, updateSensor_source]
    apply (updateValues_bean h stack values beans hs).trans
    by_cases h0 : s.getMaxDataSize = 0
    · rw [stored_of_size_zero h0, stored_of_size_zero h0, ite_self]
    · rcases hal d e he (by rw [← hsize]; exact h0) with ⟨hpos, hf⟩ | ⟨hf, hk⟩
      · rw [hkind, hxd, ← htype] at hf
        rw [if_pos hf, hpos, hxd]
      · rw [hkind, hxd, ← htype] at hf
        rw [hkind, ← htype] at hk
        rw [hf, storedBytes_of_skips hk]
        rfl

end Offers

/-- Three sensors and, in front of the last, a number. -/
def mixedElems : List Value :=
  [.object [(ascii "dataType", .text (ascii "U8")), (ascii "name", .text (ascii "t"))],
    .object [(ascii "dataType", .text (ascii "double")), (ascii "name", .text (ascii "v"))],
    .int 5,
    .object [(ascii "dataType", .text (ascii "U16")), (ascii "name", .text (ascii "w"))]]

/-- The first two get their values; the last is neither given one at its own position nor at the one
its bean has. -/
theorem offers_iff_sample :
    ∃ parser map, getSensors (fun _ => .ok (.array mixedElems)) .x86 (.plugin (ascii "[...]"))
        (ascii "g") = .ok (parser, map) ∧ parser.mSensorsOrdered.length = 3 ∧
      OffersAll parser mixedElems [.int, .double, .null, .null] := by
  refine ⟨_, _, rfl, rfl, (@offers_iff (fun _ => .ok (.array mixedElems)) .x86
    (.plugin (ascii "[...]")) (ascii "g") _ _ _ _ rfl rfl (by decide)).mpr ?_⟩
  intro d e he _
  match d with
  | 0 =>
    obtain rfl : (ascii "t", SensorDataType.u8, 1) = e := Option.some.inj he
    exact .inl ⟨rfl, rfl⟩
  | 1 =>
    obtain rfl : (ascii "v", SensorDataType.float, 8) = e := Option.some.inj he
    exact .inl ⟨rfl, rfl⟩
  | 2 => cases he
  | 3 =>
    obtain rfl : (ascii "w", SensorDataType.u16, 2) = e := Option.some.inj he
    exact .inr ⟨rfl, rfl⟩
  | d + 4 => cases he

def shiftedElems : List Value :=
  [.int 1, .object [(ascii "dataType", .text (ascii "U8")), (ascii "name", .text (ascii "t"))]]

/-- The sensor behind a rejected entry gets the value of that entry. -/
theorem shifted_not_offered :
    getSensors (fun _ => .ok (.array shiftedElems)) .x86 (.plugin sampleDescription) (ascii "g") =
        .ok (sampleParser, mSensors [(ascii "t", sampleSensor (ascii "g"))]) ∧
      ¬ OffersAll sampleParser shiftedElems [.int, .int] := by
  refine ⟨rfl, fun h => ?_⟩
  obtain ⟨s, hs, -, hgot⟩ := h (fun _ => .ok (.array [.int 5, .int 7])) (.plugin []) [1]
    [.int 5, .int 7] (fun _ _ => 0) (fun _ _ => 0) _ rfl (show cstr [1] ≠ [] by decide) rfl rfl 1
    (ascii "t", .u8, 1) (.int 7) rfl rfl
  obtain rfl : sampleSensor (ascii "g") = s := Option.some.inj hs
  exact absurd (congrFun hgot 0) (by decide)

end JSONSensorsParser

end RecsDaemon
