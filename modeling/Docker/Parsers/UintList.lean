import Mathlib

/-!
# Lists of numbers

`ParseUintList` of `pkg/parsers/parsers.go`, for lists such as `0,3-4`. The loop over a range counts
with an `int`, which wraps around.
-/

namespace Docker.Parsers

abbrev Str := List Char

def wrap (i : Int) : Int := i.bmod (2 ^ 64)

/-! ## The code -/

def digits (s : Str) : Option Nat :=
  if s ≠ [] ∧ s.all Char.isDigit then some (s.foldl (fun n c => 10 * n + (c.toNat - 48)) 0)
    else none

/-- `strconv.Atoi` -/
def atoi : Str → Option Int
  | '-' :: s => (digits s).bind fun n => if n ≤ 2 ^ 63 then some (-n) else none
  | '+' :: s => (digits s).bind fun n => if n < 2 ^ 63 then some n else none
  | s => (digits s).bind fun n => if n < 2 ^ 63 then some n else none

/-- The loop over a range, for at most `fuel` turns. The map holds `true` for the numbers of the
list. -/
def addRange (max : Int) : (fuel : Nat) → (i : Int) → List Int → Option (List Int)
  | 0, _, _ => none
  | fuel + 1, i, availableInts =>
    if i ≤ max then addRange max fuel (wrap (i + 1)) (i :: availableInts) else some availableInts

/-- The error is `invalid format: %s`, for the whole list. -/
def addItem (val : Str) (fuel : Nat) (availableInts : List Int) (r : Str) :
    Option (Except Str (List Int)) :=
  if '-' ∉ r then
    match atoi r with
    | none => some (.error val)
    | some v => some (.ok (v :: availableInts))
  else
    match atoi (r.takeWhile (· ≠ '-')), atoi (r.dropWhile (· ≠ '-')).tail with
    | some min, some max =>
      if max < min then some (.error val) else (addRange max fuel min availableInts).map .ok
    | _, _ => some (.error val)

def addItems (val : Str) (fuel : Nat) : List Str → List Int → Option (Except Str (List Int))
  | [], availableInts => some (.ok availableInts)
  | r :: split, availableInts =>
    match addItem val fuel availableInts r with
    | some (.ok availableInts) => addItems val fuel split availableInts
    | failed => failed

def parseUintList (fuel : Nat) (val : Str) : Option (Except Str (List Int)) :=
  if val = [] then some (.ok []) else addItems val fuel (val.splitOn ',') []

/-! ## What it computes -/

/-- The numbers of an item, from the first to the last, if it is well formed. -/
def itemRange (r : Str) : Option (Int × Int) :=
  if '-' ∉ r then (atoi r).map fun v => (v, v)
  else (atoi (r.takeWhile (· ≠ '-'))).bind fun lo =>
    (atoi (r.dropWhile (· ≠ '-')).tail).bind fun hi =>
    if lo ≤ hi then some (lo, hi) else none

def maxInt : Int := 2 ^ 63 - 1

theorem atoi_range (h : atoi s = some v) : -2 ^ 63 ≤ v ∧ v ≤ maxInt := by
  have hnat : ∀ s, ((digits s).bind fun n => if n < 2 ^ 63 then some (n : Int) else none) = some v →
      -2 ^ 63 ≤ v ∧ v ≤ maxInt := by
    intro s h
    obtain ⟨n, -, hn⟩ := Option.bind_eq_some_iff.1 h
    split at hn <;> cases hn
    unfold maxInt
    omega
  unfold atoi at h
  split at h
  · obtain ⟨n, -, hn⟩ := Option.bind_eq_some_iff.1 h
    split at hn <;> cases hn
    unfold maxInt
    omega
  · exact hnat _ h
  · exact hnat _ h

theorem wrap_succ (hlo : -2 ^ 63 ≤ i) (hi : i < maxInt) : wrap (i + 1) = i + 1 := by
  unfold maxInt at hi
  exact Int.bmod_eq_of_le (by omega) (by omega)

section
variable {max i : Int} {fuel : Nat} {r val : Str}

/-- A range that ends before the largest number is added in as many turns as it has numbers, and one
more. -/
theorem addRange_eq (hmax : max < maxInt) (hi : -2 ^ 63 ≤ i) (hle : i ≤ max + 1)
    (hfuel : max - i + 1 < fuel) :
    ∃ l, addRange max fuel i m = some l ∧ ∀ k, k ∈ l ↔ k ∈ m ∨ i ≤ k ∧ k ≤ max := by
  induction fuel generalizing i m with
  | zero => omega
  | succ fuel ih =>
    unfold addRange
    split
    · obtain ⟨l, hl, hmem⟩ := ih (i := i + 1) (m := i :: m) (by omega) (by omega) (by omega)
      rw [wrap_succ hi (by omega)]
      refine ⟨l, hl, fun k => ?_⟩
      rw [hmem, List.mem_cons]
      grind
    · exact ⟨m, rfl, fun k => by grind⟩

/-- The last number of a range is not the largest `int`. -/
def Bounded (r : Str) : Prop := '-' ∈ r → (itemRange r).map Prod.snd ≠ some maxInt

def InItem (r : Str) (k : Int) : Prop := ∃ lo hi, itemRange r = some (lo, hi) ∧ lo ≤ k ∧ k ≤ hi

theorem addItem_eq (m : List Int) : addItem val fuel m r = match itemRange r with
    | none => some (.error val)
    | some (lo, hi) =>
      if '-' ∉ r then some (.ok (lo :: m)) else (addRange hi fuel lo m).map .ok := by
  unfold addItem itemRange
  split
  · cases atoi r <;> rfl
  · cases atoi (r.takeWhile (· ≠ '-')) with
    | none => rfl
    | some lo =>
      cases atoi (r.dropWhile (· ≠ '-')).tail with
      | none => rfl
      | some hi => by_cases h : hi < lo <;> simp [h, Int.not_le.2, Int.not_lt.1]

theorem itemRange_bounds (h : itemRange r = some (lo, hi)) :
    -2 ^ 63 ≤ lo ∧ hi ≤ maxInt ∧ lo ≤ hi ∧ ('-' ∉ r → lo = hi) := by
  unfold itemRange at h
  split at h
  · obtain ⟨v, hv, hvv⟩ := Option.map_eq_some_iff.1 h
    cases hvv
    exact ⟨(atoi_range hv).1, (atoi_range hv).2, Int.le_refl _, fun _ => rfl⟩
  · next hdash =>
    obtain ⟨min, hmin, h⟩ := Option.bind_eq_some_iff.1 h
    obtain ⟨max, hmax, h⟩ := Option.bind_eq_some_iff.1 h
    split at h <;> cases h
    exact ⟨(atoi_range hmin).1, (atoi_range hmax).2, ‹_›, fun h => absurd h hdash⟩

theorem addItem_some (hr : Bounded r) (h : itemRange r ≠ none) : ∃ fuel₀, ∀ fuel ≥ fuel₀, ∀ m,
    ∃ l, addItem val fuel m r = some (.ok l) ∧ ∀ k, k ∈ l ↔ k ∈ m ∨ InItem r k := by
  obtain ⟨⟨lo, hi⟩, hrange⟩ := Option.ne_none_iff_exists'.1 h
  obtain ⟨hlo, hhi, hle, hsame⟩ := itemRange_bounds hrange
  refine ⟨(hi - lo + 2).toNat, fun fuel hfuel m => ?_⟩
  simp only [addItem_eq, hrange, InItem, Option.some.injEq, Prod.mk.injEq]
  split
  · next hdash =>
    refine ⟨_, rfl, fun k => ?_⟩
    rw [List.mem_cons, hsame hdash]
    grind
  · next hdash =>
    have hne : hi ≠ maxInt := fun h => hr (not_not.1 hdash) (by rw [hrange, h]; rfl)
    have hlt : hi < maxInt := by omega
    have hturns : hi - lo + 1 < fuel := by omega
    obtain ⟨l, hl, hmem⟩ := addRange_eq (m := m) hlt hlo (by omega) hturns
    exact ⟨l, by rw [hl]; rfl, by grind⟩

/-- The items that the loop comes to: those in front of the first that is malformed. -/
def items (split : List Str) : List Str := split.takeWhile fun r => (itemRange r).isSome

theorem items_cons (h : itemRange r ≠ none) (split : List Str) :
    items (r :: split) = r :: items split :=
  List.takeWhile_cons_of_pos (p := fun r => (itemRange r).isSome) (Option.isSome_iff_ne_none.2 h)

theorem addItems_spec (val : Str) {split : List Str} (h : ∀ r ∈ items split, Bounded r) :
    ∃ fuel₀, ∀ fuel ≥ fuel₀, ∀ m,
    ((∃ r ∈ split, itemRange r = none) → addItems val fuel split m = some (.error val)) ∧
    ((∀ r ∈ split, itemRange r ≠ none) →
      ∃ l, addItems val fuel split m = some (.ok l) ∧ ∀ k, k ∈ l ↔ k ∈ m ∨ ∃ r ∈ split,
        InItem r k) := by
  induction split with
  | nil => exact ⟨0, fun fuel _ m => ⟨nofun, fun _ => ⟨m, rfl, by simp⟩⟩⟩
  | cons r split ih =>
    by_cases hnone : itemRange r = none
    · refine ⟨0, fun fuel _ m => ⟨fun _ => ?_, fun hall =>
        absurd hnone (hall r List.mem_cons_self)⟩⟩
      rw [addItems, addItem_eq, hnone]
    · rw [items_cons hnone] at h
      obtain ⟨hr, hsplit⟩ := List.forall_mem_cons.1 h
      obtain ⟨fuel₀, hfuel₀⟩ := ih hsplit
      obtain ⟨fuel₁, hfuel₁⟩ := addItem_some hr hnone
      refine ⟨Nat.max fuel₀ fuel₁, fun fuel hfuel m => ?_⟩
      obtain ⟨l, hl, hmem⟩ := hfuel₁ fuel (Nat.le_trans (Nat.le_max_right ..) hfuel) m
      obtain ⟨herr, hok⟩ := hfuel₀ fuel (Nat.le_trans (Nat.le_max_left ..) hfuel) l
      rw [addItems, hl]
      refine ⟨fun hbad => herr (by simpa [hnone] using hbad), fun hall => ?_⟩
      obtain ⟨l', hl', hmem'⟩ := hok fun r' hr' => hall r' (.tail _ hr')
      exact ⟨l', hl', fun k => by rw [hmem', hmem, List.exists_mem_cons_iff, or_assoc]⟩

/-- The loop over a range that ends with the largest number does not end. -/
theorem addRange_maxInt (hi : i ≤ maxInt) (m : List Int) : addRange maxInt fuel i m = none := by
  induction fuel generalizing i m with
  | zero => rfl
  | succ fuel ih =>
    rw [addRange, if_pos hi]
    refine ih ?_ _
    have := Int.bmod_lt (x := i + 1) (m := 2 ^ 64) (by decide)
    unfold wrap maxInt
    omega

theorem addItem_none (hr : ¬Bounded r) (m : List Int) : addItem val fuel m r = none := by
  obtain ⟨hdash, hmax⟩ := Classical.not_imp.1 hr
  obtain ⟨⟨lo, hi⟩, hrange, hhi⟩ := Option.map_eq_some_iff.1 (not_not.1 hmax)
  obtain ⟨-, -, hle, -⟩ := itemRange_bounds hrange
  have hdiverges : addRange hi fuel lo m = none := by
    rw [show hi = maxInt from hhi] at hle ⊢
    exact addRange_maxInt hle m
  simp [addItem_eq, hrange, hdash, hdiverges]

theorem addItems_none {split : List Str} (h : ∃ r ∈ items split, ¬Bounded r) (m : List Int) :
    addItems val fuel split m = none := by
  induction split generalizing m with
  | nil => simp [items] at h
  | cons r split ih =>
    by_cases hnone : itemRange r = none
    · simp [items, hnone] at h
    · rw [items_cons hnone, List.exists_mem_cons_iff] at h
      rw [addItems]
      rcases h with hr | h
      · rw [addItem_none hr]
      · obtain ⟨⟨lo, hi⟩, hrange⟩ := Option.ne_none_iff_exists'.1 hnone
        simp only [addItem_eq, hrange]
        split_ifs
        · cases addRange hi fuel lo m with
          | none => rfl
          | some l => exact ih h l
        · exact ih h _

/-- `ParseUintList` fails just if an item is malformed and otherwise returns the numbers of all
items, with enough turns for its loops, if and only if no range in front of the first malformed item
ends with the largest number. -/
theorem parseUintList_spec (hne : val ≠ []) : (∃ fuel₀, ∀ fuel ≥ fuel₀,
    ((∃ r ∈ val.splitOn ',', itemRange r = none) → parseUintList fuel val = some (.error val)) ∧
    ((∀ r ∈ val.splitOn ',', itemRange r ≠ none) →
      ∃ l, parseUintList fuel val = some (.ok l) ∧ ∀ k, k ∈ l ↔ ∃ r ∈ val.splitOn ',',
        InItem r k)) ↔
    ∀ r ∈ items (val.splitOn ','), Bounded r := by
  simp only [parseUintList, if_neg hne]
  constructor
  · rintro ⟨fuel₀, h⟩
    by_contra! hbad
    obtain ⟨herr, hok⟩ := h fuel₀ (Nat.le_refl _)
    rw [addItems_none hbad] at herr hok
    by_cases hmalformed : ∃ r ∈ val.splitOn ',', itemRange r = none
    · cases herr hmalformed
    · obtain ⟨l, hl, -⟩ := hok fun r hr hnone => hmalformed ⟨r, hr, hnone⟩
      cases hl
  · intro h
    obtain ⟨fuel₀, hfuel₀⟩ := addItems_spec val h
    exact ⟨fuel₀, fun fuel hfuel => by simpa using hfuel₀ fuel hfuel []⟩

end

theorem parseUintList_spec_ranges : ∃ fuel₀, ∀ fuel ≥ fuel₀,
    ∃ l, parseUintList fuel "0,3-4".toList = some (.ok l) ∧ ∀ k, k ∈ l ↔
      ∃ r ∈ ["0".toList, "3-4".toList], InItem r k := by
  obtain ⟨fuel₀, h⟩ := (parseUintList_spec (show "0,3-4".toList ≠ [] by decide)).2 (by
    unfold Bounded
    decide)
  exact ⟨fuel₀, fun fuel hfuel => (h fuel hfuel).2 (by decide)⟩

theorem parseUintList_diverges : ¬ ∃ fuel result,
    parseUintList fuel "0-9223372036854775807".toList = some result := by
  rintro ⟨fuel, result, h⟩
  have hitem : ∃ r ∈ items ("0-9223372036854775807".toList.splitOn ','), ¬Bounded r := by
    unfold Bounded
    decide
  rw [parseUintList, if_neg (by decide), addItems_none hitem] at h
  cases h

end Docker.Parsers
