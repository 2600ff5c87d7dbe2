import RecsDaemon.Messages
import RecsDaemon.Base.First

/-!
# Options of a sensor

`BaseSensor::getOption`: the value of a key in a text of options. The test for a
delimiter before the key accepts any delimiter further on, so the value of a
longer key can be taken (`getOption_iff`).
-/

namespace RecsDaemon

open Base

namespace BaseSensor

/-- `std::string::find`. -/
def find (haystack needle : Text) (pos : Nat) : Option Nat :=
  firstFrom (fun p => needle.isPrefixOf (haystack.drop p)) (haystack.length + 1) pos

/-- `std::string::find_first_of`. -/
def findFirstOf (haystack delim : Text) (pos : Nat) : Option Nat :=
  firstFrom (fun p => haystack[p]?.any (· ∈ delim)) haystack.length pos

def accepted (haystack needle delim : Text) (param_pos : Nat) : Bool :=
  haystack[param_pos + needle.length]? = some 61 &&
    (param_pos = 0 || (findFirstOf haystack delim (param_pos - 1)).isSome)

/-- The loop from `param_pos` on. -/
def searchParam (haystack needle delim : Text) : Nat → Nat → Option Nat
  | 0, _ => none
  | fuel + 1, param_pos =>
    match find haystack needle param_pos with
    | none => none
    | some param_pos =>
      if accepted haystack needle delim param_pos then some param_pos
      else searchParam haystack needle delim fuel (param_pos + 1)

def paramValue (haystack needle delim : Text) (param_pos : Nat) : Text :=
  let opt_pos := param_pos + needle.length + 1
  let opt_len := (findFirstOf haystack delim opt_pos).getD haystack.length
  if opt_pos < opt_len then (haystack.drop opt_pos).take (opt_len - opt_pos) else []

/-- Every round begins behind the one before, so there are no more rounds than characters. -/
def extract_param (haystack needle delim : Text) : Text :=
  if needle = [] ∨ haystack = [] then []
  else
    match searchParam haystack needle delim (haystack.length + 1) 0 with
    | some param_pos => paramValue haystack needle delim param_pos
    | none => []

def delimiters : Text := ascii " ,"

def getOption (options name : Text) : Text := extract_param options name delimiters

/-! ## What an option is -/

def keyAt (options key : Text) (p : Nat) : Bool := (key ++ [61]).isPrefixOf (options.drop p)

/-- The position is the begin of the text, or directly behind a delimiter. -/
def standsAlone (options : Text) (p : Nat) : Bool :=
  p = 0 || options[p - 1]?.any (· ∈ delimiters)

/-- The text from a key's equals sign to the next delimiter. -/
def valueAt (options key : Text) (p : Nat) : Text :=
  (options.drop (p + key.length + 1)).takeWhile (· ∉ delimiters)

/-- The value of the first occurrence that stands alone, empty if there is none. -/
def optionValue (options key : Text) : Text :=
  match firstFrom (fun p => keyAt options key p && standsAlone options p) options.length 0 with
  | some p => valueAt options key p
  | none => []

/-- The first occurrence of the key, in whatever place. -/
def firstKey (options key : Text) : Option Nat := firstFrom (keyAt options key) options.length 0

/-- The text behind the first occurrence of the key is the value of the option, as it is where the
occurrence stands alone; or no delimiter follows from the character before it on. -/
def FirstFits (options key : Text) : Prop :=
  ∀ p, firstKey options key = some p →
    valueAt options key p = optionValue options key ∨
      ∀ i, p - 1 ≤ i → ∀ c, options[i]? = some c → c ∉ delimiters

/-! ## The loop -/

section Loop

variable {haystack needle delim : Text} {fuel pos p : Nat}

theorem keyAt_eq (options key : Text) (p : Nat) :
    keyAt options key p = (key.isPrefixOf (options.drop p) &&
      options[p + key.length]? = some 61) := by
  rw [Bool.eq_iff_iff, Bool.and_eq_true, keyAt, List.isPrefixOf_iff_prefix,
    List.isPrefixOf_iff_prefix, decide_eq_true_iff, ← List.getElem?_drop]
  constructor
  · rintro ⟨t, ht⟩
    rw [← ht]
    exact ⟨⟨[61] ++ t, by simp⟩, by simp⟩
  · rintro ⟨⟨t, ht⟩, hc⟩
    rw [← ht, List.getElem?_append_right (Nat.le_refl _), Nat.sub_self] at hc
    cases t with
    | nil => cases hc
    | cons c t =>
      cases hc
      exact ⟨t, by rw [← ht, List.append_assoc]; rfl⟩

theorem lt_of_keyAt {options key : Text} (h : keyAt options key p = true) : p < options.length := by
  rw [keyAt_eq, Bool.and_eq_true, decide_eq_true_iff] at h
  obtain ⟨hlt, -⟩ := List.getElem?_eq_some_iff.mp h.2
  omega

/-- With a round for every character the loop finds the first occurrence it accepts. -/
theorem searchParam_eq (hfuel : haystack.length + 1 - pos ≤ fuel) :
    searchParam haystack needle delim fuel pos =
      firstFrom (fun p => needle.isPrefixOf (haystack.drop p) &&
        accepted haystack needle delim p) (haystack.length + 1) pos := by
  induction fuel generalizing pos with
  | zero =>
    symm
    rw [searchParam, firstFrom_eq_none]
    intro j h1 h2
    omega
  | succ fuel ih =>
    rw [searchParam, firstFrom_and, ← find]
    cases hf : find haystack needle pos with
    | none => rfl
    | some p =>
      obtain ⟨-, h1, h2, -⟩ := firstFrom_eq_some.mp hf
      dsimp only
      split
      · rfl
      · exact ih (by omega)

theorem findFirstOf_isSome :
    (findFirstOf haystack delim pos).isSome ↔ ∃ i, pos ≤ i ∧ ∃ c, haystack[i]? = some c ∧ c ∈ delim := by
  rw [findFirstOf, isSome_firstFrom]
  simp only [Option.any_eq_true, decide_eq_true_eq]
  constructor
  · rintro ⟨j, h1, -, h2⟩; exact ⟨j, h1, h2⟩
  · rintro ⟨j, h1, c, hc, hd⟩
    obtain ⟨hlt, -⟩ := List.getElem?_eq_some_iff.mp hc
    exact ⟨j, h1, hlt, c, hc, hd⟩

theorem paramValue_eq (options key : Text) (p : Nat) :
    paramValue options key delimiters p = valueAt options key p := by
  unfold paramValue valueAt
  dsimp only
  generalize p + key.length + 1 = opt_pos
  have htake (n : Nat) : (if opt_pos < n then (options.drop opt_pos).take (n - opt_pos) else []) =
      (options.drop opt_pos).take (n - opt_pos) := by
    by_cases h : opt_pos < n
    · rw [if_pos h]
    · rw [if_neg h, Nat.sub_eq_zero_of_le (Nat.not_lt.mp h), List.take_zero]
  rw [htake]
  apply take_eq_takeWhile
  · intro i hi x hx
    rw [List.getElem?_drop] at hx
    have hlt : opt_pos + i < options.length := (List.getElem?_eq_some_iff.mp hx).1
    have hno : options[opt_pos + i]?.any (· ∈ delimiters) = false := by
      cases hd : findFirstOf options delimiters opt_pos with
      | none => exact firstFrom_eq_none.mp hd _ (Nat.le_add_right _ _) hlt
      | some q =>
        rw [hd, Option.getD_some] at hi
        exact (firstFrom_eq_some.mp hd).2.2.2 _ (Nat.le_add_right _ _) (by omega)
    rw [hx, Option.any_some] at hno
    simpa using hno
  · intro x hx
    rw [List.getElem?_drop] at hx
    cases hd : findFirstOf options delimiters opt_pos with
    | none =>
      rw [hd, Option.getD_none] at hx
      have hlt := (List.getElem?_eq_some_iff.mp hx).1
      omega
    | some q =>
      obtain ⟨hq, h1, -, -⟩ := firstFrom_eq_some.mp hd
      rw [hd, Option.getD_some, Nat.add_sub_cancel' h1] at hx
      rw [hx, Option.any_some] at hq
      simpa using hq

end Loop

/-! ## What is found -/

section Option

variable {options key : Text} {p : Nat}

def reached (options : Text) (p : Nat) : Bool :=
  p = 0 || (findFirstOf options delimiters (p - 1)).isSome

theorem reached_of_le {q : Nat} (hp : p ≤ q) (h : reached options q = true) :
    reached options p = true := by
  simp only [reached, Bool.or_eq_true, decide_eq_true_eq] at h ⊢
  rcases h with rfl | h
  · exact .inl (by omega)
  · obtain ⟨i, hi, hc⟩ := findFirstOf_isSome.mp h
    exact .inr (findFirstOf_isSome.mpr ⟨i, by omega, hc⟩)

theorem reached_of_standsAlone (h : standsAlone options p = true) : reached options p = true := by
  simp only [standsAlone, Bool.or_eq_true, decide_eq_true_eq, Option.any_eq_true] at h
  simp only [reached, Bool.or_eq_true, decide_eq_true_eq]
  rcases h with h | ⟨c, hc, hd⟩
  · exact .inl h
  · exact .inr (findFirstOf_isSome.mpr ⟨p - 1, Nat.le_refl _, c, hc, hd⟩)

theorem not_reached (h : reached options p = false) :
    ∀ i, p - 1 ≤ i → ∀ c, options[i]? = some c → c ∉ delimiters := by
  simp only [reached, Bool.or_eq_false_iff] at h
  intro i hi c hc hd
  exact absurd (findFirstOf_isSome.mpr ⟨i, hi, c, hc, hd⟩) (by rw [h.2]; decide)

/-- **The loop takes the first occurrence or none.** -/
theorem getOption_eq (hk : key ≠ []) : getOption options key =
    match firstKey options key with
    | some p => if reached options p then valueAt options key p else []
    | none => [] := by
  by_cases ho : options = []
  · subst ho
    rw [getOption, extract_param, if_pos (.inr rfl)]
    rfl
  have hloop : searchParam options key delimiters (options.length + 1) 0 =
      firstFrom (fun p => keyAt options key p && reached options p) options.length 0 := by
    have hpred : (fun p => key.isPrefixOf (options.drop p) && accepted options key delimiters p) =
        fun p => keyAt options key p && reached options p := by
      funext p
      rw [keyAt_eq, accepted, reached, Bool.and_assoc]
    rw [searchParam_eq (by omega), hpred]
    exact firstFrom_bound (fun j hj => lt_of_keyAt ((Bool.and_eq_true _ _).mp hj).1) (Nat.le_succ _)
  rw [getOption, extract_param, if_neg (by simp [hk, ho]), hloop, firstFrom_and, ← firstKey]
  cases firstKey options key with
  | none => rfl
  | some p =>
    dsimp only
    by_cases hr : reached options p = true
    · rw [if_pos hr, if_pos hr]
      exact paramValue_eq _ _ _
    · have hnone : firstFrom (fun p => keyAt options key p && reached options p) options.length
          (p + 1) = none := by
        rw [firstFrom_eq_none]
        intro j hj _
        have hrj : reached options j = false :=
          Bool.eq_false_iff.mpr fun h => hr (reached_of_le (by omega) h)
        rw [hrj, Bool.and_false]
      rw [if_neg hr, if_neg hr, hnone]

theorem optionValue_of_none (h : firstKey options key = none) : optionValue options key = [] := by
  rw [optionValue, firstFrom_and, ← firstKey, h]

theorem optionValue_of_standsAlone (h : firstKey options key = some p)
    (hp : standsAlone options p = true) : optionValue options key = valueAt options key p := by
  rw [optionValue, firstFrom_and, ← firstKey, h]
  dsimp only
  rw [if_pos hp]

/-- Where no delimiter follows, no later occurrence stands alone. -/
theorem optionValue_of_not_reached (h : firstKey options key = some p)
    (hp : reached options p = false) : optionValue options key = [] := by
  have hnone : firstFrom (fun p => keyAt options key p && standsAlone options p) options.length 0 =
      none := by
    rw [firstFrom_eq_none]
    intro j _ hj
    by_contra hc
    have hc' := Bool.eq_true_of_not_eq_false hc
    rw [Bool.and_eq_true] at hc'
    obtain ⟨-, -, -, hmin⟩ := firstFrom_eq_some.mp h
    have hle : p ≤ j := by
      by_contra hlt
      rw [hmin j (Nat.zero_le j) (by omega)] at hc'
      exact absurd hc'.1 (by decide)
    rw [reached_of_le hle (reached_of_standsAlone hc'.2)] at hp
    cases hp
  rw [optionValue, hnone]

/-- **An option is looked up right exactly if the first occurrence of its key fits.** -/
theorem getOption_iff (hk : key ≠ []) :
    getOption options key = optionValue options key ↔ FirstFits options key := by
  rw [getOption_eq hk]
  cases hf : firstKey options key with
  | none =>
    rw [optionValue_of_none hf]
    refine ⟨fun _ p hp => ?_, fun _ => rfl⟩
    rw [hf] at hp
    cases hp
  | some p =>
    dsimp only
    have hfits : FirstFits options key ↔ valueAt options key p = optionValue options key ∨
        ∀ i, p - 1 ≤ i → ∀ c, options[i]? = some c → c ∉ delimiters := by
      constructor
      · intro h; exact h p hf
      · intro h q hq
        rw [hf] at hq
        cases hq
        exact h
    rw [hfits]
    cases hr : reached options p with
    | false =>
      rw [if_neg (by decide), optionValue_of_not_reached hf hr]
      exact iff_of_true rfl (.inr (not_reached hr))
    | true =>
      rw [if_pos rfl]
      refine ⟨.inl, fun h => h.elim id fun hnone => ?_⟩
      -- without a delimiter only the begin of the text is reached
      simp only [reached, Bool.or_eq_true, decide_eq_true_eq] at hr
      rcases hr with rfl | hr
      · exact (optionValue_of_standsAlone hf rfl).symm
      · obtain ⟨i, hi, c, hc, hd⟩ := findFirstOf_isSome.mp hr
        exact absurd hd (hnone i hi c hc)

theorem firstFits_of_standsAlone (h : firstKey options key = some p)
    (hp : standsAlone options p = true) : FirstFits options key := by
  intro q hq
  obtain rfl := Option.some.inj (h.symm.trans hq)
  exact .inl (optionValue_of_standsAlone h hp).symm

end Option

/-- A key that stands alone. -/
theorem getOption_iff_sample :
    getOption (ascii "type=U8,path=/x") (ascii "path") =
      optionValue (ascii "type=U8,path=/x") (ascii "path") :=
  (getOption_iff (by decide)).mpr
    (firstFits_of_standsAlone (by decide : firstKey _ _ = some 8) (by decide))

/-- The value of a key that ends in the one asked for. -/
theorem getOption_suffix :
    getOption (ascii "xpath=1,path=2") (ascii "path") = ascii "1" ∧
      optionValue (ascii "xpath=1,path=2") (ascii "path") = ascii "2" := by
  decide

end BaseSensor

end RecsDaemon
