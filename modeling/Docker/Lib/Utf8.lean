import Mathlib

/-!
# Strings as bytes

A Go string is a list of bytes. Its runes are decoded from the front; a byte with which no encoding
begins is the rune U+FFFD. `encode` gives the strings that are valid UTF-8.
-/

namespace Utf8

open List Prod

abbrev Bytes := List UInt8

/-- The predicates of package `unicode` that are given by tables. -/
structure Tables where
  isLetter : Char → Bool
  isDigit : Char → Bool
  toLower : Char → Char
  toLower_hash : ∀ c, toLower c = '#' → c = '#'

def isSpace (c : Char) : Bool :=
  let n := c.toNat
  (9 ≤ n && n ≤ 13) || n == 0x20 || n == 0x85 || n == 0xa0 || n == 0x1680 ||
    (0x2000 ≤ n && n ≤ 0x200a) ||
    n == 0x2028 || n == 0x2029 || n == 0x202f || n == 0x205f || n == 0x3000

def encodeRune (c : Char) : Bytes := String.utf8EncodeChar c

def byteRune (b : UInt8) : Char := Char.ofNat b.toNat

def encode (cs : List Char) : Bytes := cs.flatMap encodeRune

def runeError : Char := '�'

/-- `utf8.DecodeRuneInString` for a string that is not empty: the first rune and its width. -/
def decodeRune (s : Bytes) : Char × Nat :=
  match s.toByteArray.utf8DecodeChar? 0 with
  | some c => (c, c.utf8Size)
  | none => (runeError, 1)

/-- The runes of a string, each with its bytes, behind the first `skip` bytes. -/
def piecesFrom : Nat → Bytes → List (Char × Bytes)
  | _, [] => []
  | skip + 1, _ :: s => piecesFrom skip s
  | 0, b :: s =>
    ((decodeRune (b :: s)).1, (b :: s).take (decodeRune (b :: s)).2) ::
      piecesFrom ((decodeRune (b :: s)).2 - 1) s

def pieces (s : Bytes) : List (Char × Bytes) := piecesFrom 0 s

def runes (s : Bytes) : List Char := (pieces s).map fst

/-- `strings.TrimLeftFunc(s, unicode.IsSpace)`. -/
def trimLeft (s : Bytes) : Bytes := ((pieces s).dropWhile (isSpace ·.1)).flatMap snd

def trimSpace (s : Bytes) : Bytes :=
  (((pieces s).dropWhile (isSpace ·.1)).rdropWhile (isSpace ·.1)).flatMap snd

/-- `strings.ToLower`: the text in front of the first rune that changes stays as it is. -/
def toLower (u : Tables) (s : Bytes) : Bytes :=
  ((pieces s).takeWhile fun p => u.toLower p.1 = p.1).flatMap snd ++
    encode (((pieces s).dropWhile fun p => u.toLower p.1 = p.1).map fun p => u.toLower p.1)

variable {c : Char} {cs ds : List Char} {s t : Bytes} {n : Nat} {b : UInt8}

/-! ## Encoding -/

@[simp] theorem encode_nil : encode [] = [] := rfl

@[simp] theorem encode_cons : encode (c :: cs) = encodeRune c ++ encode cs := rfl

@[simp] theorem encode_append : encode (cs ++ ds) = encode cs ++ encode ds := flatMap_append

theorem length_encodeRune : (encodeRune c).length = c.utf8Size := String.length_utf8EncodeChar c

theorem encodeRune_ne_nil : encodeRune c ≠ [] := String.utf8EncodeChar_ne_nil

@[simp] theorem encode_eq_nil : encode cs = [] ↔ cs = [] := by
  cases cs with
  | nil => simp
  | cons c cs => simp [encodeRune_ne_nil]

theorem encodeRune_of_lt (h : c.toNat < 128) : encodeRune c = [UInt8.ofNat c.toNat] := by
  have h' : c.val.toNat ≤ 127 := Nat.le_of_lt_succ h
  simp only [encodeRune, String.utf8EncodeChar, h', if_true]
  rfl

theorem le_of_mem_encodeRune (h : 128 ≤ c.toNat) (hb : b ∈ encodeRune c) : 128 ≤ b.toNat := by
  have h' : ¬c.val.toNat ≤ 127 := Nat.not_le.2 h
  simp only [encodeRune, String.utf8EncodeChar, h', if_false] at hb
  split at hb
  · simp only [mem_cons, not_mem_nil, or_false] at hb
    rcases hb with rfl | rfl <;> simp <;> omega
  · split at hb
    · simp only [mem_cons, not_mem_nil, or_false] at hb
      rcases hb with rfl | rfl | rfl <;> simp <;> omega
    · simp only [mem_cons, not_mem_nil, or_false] at hb
      rcases hb with rfl | rfl | rfl | rfl <;> simp <;> omega

theorem le_of_encodeRune_eq_cons (h : 128 ≤ c.toNat) (hb : encodeRune c = b :: s) :
    192 ≤ b.toNat := by
  have h' : ¬c.val.toNat ≤ 127 := Nat.not_le.2 h
  simp only [encodeRune, String.utf8EncodeChar, h', if_false] at hb
  split at hb
  · simp only [List.cons.injEq] at hb
    rw [← hb.1]
    simp
    omega
  · split at hb
    · simp only [List.cons.injEq] at hb
      rw [← hb.1]
      simp
      omega
    · simp only [List.cons.injEq] at hb
      rw [← hb.1]
      simp
      omega

theorem toNat_byteRune (b : UInt8) : (byteRune b).toNat = b.toNat := by
  have hb : b.toNat < 256 := b.toNat_lt
  have hvalid : Nat.isValidChar b.toNat := .inl (by omega)
  rw [byteRune, Char.ofNat, dif_pos hvalid]
  rfl

theorem byteRune_ofNat (h : c.toNat < 128) : byteRune (UInt8.ofNat c.toNat) = c := by
  have hlt : c.toNat < 2 ^ 8 := Nat.lt_trans h (by decide)
  rw [byteRune, UInt8.toNat_ofNat', Nat.mod_eq_of_lt hlt]
  exact Char.ofNat_toNat c

theorem encodeRune_byteRune (h : b.toNat < 128) : encodeRune (byteRune b) = [b] := by
  rw [encodeRune_of_lt (by rwa [toNat_byteRune]), toNat_byteRune, UInt8.ofNat_toNat]

theorem eq_of_mem_encodeRune (hb : b ∈ encodeRune c) (hlt : b.toNat < 128) : c = byteRune b := by
  rcases Nat.lt_or_ge c.toNat 128 with h | h
  · rw [encodeRune_of_lt h, mem_singleton] at hb
    rw [hb, byteRune_ofNat h]
  · exact absurd hlt (Nat.not_lt.2 (le_of_mem_encodeRune h hb))

/-- To drop the bytes in front of an ASCII character is to drop the characters. -/
theorem dropWhile_encode (hlt : b.toNat < 128) :
    (encode cs).dropWhile (· ≠ b) = encode (cs.dropWhile (· ≠ byteRune b)) := by
  induction cs with
  | nil => rfl
  | cons c cs ih =>
    by_cases hc : c = byteRune b
    · rw [dropWhile_cons_of_neg (by simpa using hc), encode_cons, hc, encodeRune_byteRune hlt,
        singleton_append,
        dropWhile_cons_of_neg (by simp)]
    · have hbytes : ∀ b' ∈ encodeRune c, b' ≠ b := by
        rintro b' hb' rfl
        exact hc (eq_of_mem_encodeRune hb' hlt)
      rw [encode_cons, dropWhile_append_of_pos (by simpa using hbytes), ih,
        dropWhile_cons_of_pos (by simpa using hc)]

/-! ## Decoding -/

theorem decodeRune_encodeRune_append :
    decodeRune (encodeRune c ++ t) = (c, (encodeRune c).length) := by
  rw [length_encodeRune, decodeRune, encodeRune, toByteArray_append,
    ByteArray.utf8DecodeChar?_utf8EncodeChar_append]

theorem eq_encodeRune_append (h : s.toByteArray.utf8DecodeChar? 0 = some c) :
    ∃ t, s = encodeRune c ++ t := by
  obtain ⟨l, hl⟩ := ByteArray.exists_of_utf8DecodeChar?_eq_some h
  refine ⟨l.data.toList, ?_⟩
  simpa [encodeRune] using congrArg (·.data.toList) hl

theorem decodeRune_cases (s : Bytes) :
    (∃ c t, s = encodeRune c ++ t ∧ decodeRune s = (c, (encodeRune c).length)) ∨
    (∀ c t, s ≠ encodeRune c ++ t) ∧ decodeRune s = (runeError, 1) := by
  cases h : s.toByteArray.utf8DecodeChar? 0 with
  | some c =>
    obtain ⟨t, rfl⟩ := eq_encodeRune_append h
    exact .inl ⟨c, t, rfl, decodeRune_encodeRune_append⟩
  | none =>
    refine .inr ⟨?_, by rw [decodeRune, h]⟩
    rintro c t rfl
    rw [encodeRune, toByteArray_append, ByteArray.utf8DecodeChar?_utf8EncodeChar_append] at h
    cases h

/-! ## The runes of a string -/

@[simp] theorem pieces_nil : pieces [] = [] := rfl

theorem piecesFrom_append (h : s.length = n) : piecesFrom n (s ++ t) = pieces t := by
  induction s generalizing n with
  | nil => simp [← h, pieces]
  | cons b s ih =>
    obtain rfl : s.length + 1 = n := h
    exact ih rfl

theorem pieces_append (hne : s ≠ []) (h : decodeRune (s ++ t) = (c, s.length)) :
    pieces (s ++ t) = (c, s) :: pieces t := by
  cases s with
  | nil => exact absurd rfl hne
  | cons b s =>
    rw [cons_append] at h ⊢
    rw [pieces, piecesFrom, h]
    simp only [length_cons, Nat.add_sub_cancel, take_succ_cons]
    rw [take_append_of_le_length (Nat.le_refl _), take_length, piecesFrom_append rfl]

theorem pieces_encodeRune_append : pieces (encodeRune c ++ t) = (c, encodeRune c) :: pieces t :=
  pieces_append encodeRune_ne_nil decodeRune_encodeRune_append

theorem pieces_cons_of_invalid (h : ∀ c t, b :: s ≠ encodeRune c ++ t) :
    pieces (b :: s) = (runeError, [b]) :: pieces s := by
  refine pieces_append (cons_ne_nil b []) ?_
  rcases decodeRune_cases ([b] ++ s) with ⟨c, t, hs, -⟩ | ⟨-, hd⟩
  · exact absurd hs (h c t)
  · exact hd

theorem piecesInduction {motive : Bytes → Prop} (nil : motive [])
    (rune : ∀ c t, motive t → motive (encodeRune c ++ t))
    (invalid : ∀ b t, (∀ c t', b :: t ≠ encodeRune c ++ t') → motive t → motive (b :: t))
    (s : Bytes) : motive s := by
  induction hn : s.length using Nat.strong_induction_on generalizing s with
  | _ n ih =>
    subst hn
    rcases decodeRune_cases s with ⟨c, t, rfl, -⟩ | ⟨h, -⟩
    · refine rune c t (ih t.length ?_ t rfl)
      rw [length_append]
      exact Nat.lt_add_of_pos_left (length_pos_iff.2 encodeRune_ne_nil)
    · cases s with
      | nil => exact nil
      | cons b t => exact invalid b t h (ih t.length (Nat.lt_succ_self _) t rfl)

theorem flatMap_pieces (s : Bytes) : (pieces s).flatMap snd = s := by
  induction s using piecesInduction with
  | nil => rfl
  | rune c t ih => rw [pieces_encodeRune_append, flatMap_cons, ih]
  | invalid b t h ih =>
    rw [pieces_cons_of_invalid h, flatMap_cons, ih]
    rfl

theorem pieces_encode_append : pieces (encode cs ++ t) = (cs.map fun c => (c, encodeRune c)) ++
    pieces t := by
  induction cs with
  | nil => rfl
  | cons c cs ih =>
    rw [encode_cons, append_assoc, pieces_encodeRune_append, ih, map_cons, cons_append]

theorem pieces_encode : pieces (encode cs) = cs.map fun c => (c, encodeRune c) := by
  simpa using @pieces_encode_append cs []

@[simp] theorem runes_encode : runes (encode cs) = cs := by
  rw [runes, pieces_encode, List.map_map]
  exact List.map_id cs

theorem encode_injective : Function.Injective encode :=
  Function.LeftInverse.injective fun _ => runes_encode

def asciiTables : Tables where
  isLetter := Char.isAlpha
  isDigit := Char.isDigit
  toLower := Char.toLower
  toLower_hash c h := by
    rw [Char.toLower] at h
    split at h
    · next hupper =>
      have hval := congrArg (fun c : Char => c.val.toNat) h
      have hle := UInt32.le_iff_toNat_le.1 hupper.1
      have hle' := UInt32.le_iff_toNat_le.1 hupper.2
      simp at hval hle hle'
      omega
    · exact h

/-! ## Trimming -/

theorem trimLeft_suffix (s : Bytes) : trimLeft s <:+ s := by
  obtain ⟨ps, hps⟩ := dropWhile_suffix (l := pieces s) (isSpace ·.1)
  refine ⟨ps.flatMap snd, ?_⟩
  rw [trimLeft, ← flatMap_append, hps, flatMap_pieces]

theorem trimSpace_prefix_trimLeft (s : Bytes) : trimSpace s <+: trimLeft s := by
  obtain ⟨ps, hps⟩ := rdropWhile_prefix (isSpace ·.1) (l := (pieces s).dropWhile (isSpace ·.1))
  refine ⟨ps.flatMap snd, ?_⟩
  rw [trimSpace, ← flatMap_append, hps, trimLeft]

theorem length_trimSpace_le (s : Bytes) : (trimSpace s).length ≤ s.length :=
  (trimSpace_prefix_trimLeft s).length_le.trans (trimLeft_suffix s).length_le

end Utf8
