import Mathlib.Data.List.TakeWhile
import Mathlib.Logic.Function.Basic

namespace MakeExt4fs

section Characters

-- The character classes of the C locale.
def isSpace (c : UInt8) : Bool := c = 32 || 9 ≤ c && c ≤ 13

def isPunct (c : UInt8) : Bool :=
  33 ≤ c && c ≤ 47 || 58 ≤ c && c ≤ 64 || 91 ≤ c && c ≤ 96 || 123 ≤ c && c ≤ 126

def isXDigit (c : UInt8) : Bool :=
  48 ≤ c && c ≤ 57 || 97 ≤ c && c ≤ 102 || 65 ≤ c && c ≤ 70

def toUpper (c : UInt8) : UInt8 := if 97 ≤ c ∧ c ≤ 122 then c - 32 else c

def isSeparator (c : UInt8) : Bool := isPunct c || isSpace c

def nibbleToHexChar (nibble : UInt8) : UInt8 := if nibble < 10 then 48 + nibble else 87 + nibble

def hexCharToNibble (c : UInt8) : UInt8 :=
  if 48 ≤ c ∧ c ≤ 57 then c - 48
  else if 97 ≤ c ∧ c ≤ 102 then 10 + (c - 97)
  else 10 + (c - 65)

end Characters

section Parsing

-- The turns of parse_uuid that are left, on what is left of the string.
def parseUuidBytes : Nat → List UInt8 → Option (List UInt8)
  | 0, _ => some []
  | n + 1, str =>
    match str.dropWhile isSeparator with
    | hi :: lo :: rest =>
      if isXDigit hi && isXDigit lo then
        (parseUuidBytes n rest).map
          fun bytes => (hexCharToNibble hi <<< 4 ||| hexCharToNibble lo) :: bytes
      else none
    | _ => none

-- What the source returns NULL for is none; it looks at nothing behind the sixteenth byte.
def parseUuid (str : List UInt8) : Option (List UInt8) := parseUuidBytes 16 str

def hexPair (b : UInt8) : List UInt8 :=
  [nibbleToHexChar ((b &&& 0xF0) >>> 4), nibbleToHexChar (b &&& 0x0F)]

def uuidBytesToStr : Nat → List UInt8 → List UInt8
  | _, [] => []
  | i, b :: bytes =>
    hexPair b ++ (if i = 3 ∨ i = 5 ∨ i = 7 ∨ i = 9 then [45] else []) ++
      uuidBytesToStr (i + 1) bytes

def uuidBinToStr (bytes : List UInt8) : List UInt8 := uuidBytesToStr 0 bytes

def SameButCase (c printed : UInt8) : Prop := c = printed ∨ c = toUpper printed

-- The bytes printed, with letters in either case and any separators before the pairs.
inductive Spells : List UInt8 → List UInt8 → Prop
  | nil : Spells [] []
  | cons {b hi lo : UInt8} {bytes separators str : List UInt8}
      (hseparators : ∀ c ∈ separators, isSeparator c = true)
      (hhi : SameButCase hi (nibbleToHexChar ((b &&& 0xF0) >>> 4)))
      (hlo : SameButCase lo (nibbleToHexChar (b &&& 0x0F))) (hrest : Spells bytes str) :
      Spells (b :: bytes) (separators ++ hi :: lo :: str)

end Parsing

section Spelling

theorem forall_uint8 {P : UInt8 → Prop} (h : ∀ n : Fin 256, P (UInt8.ofNat n)) (b : UInt8) : P b := by
  have hb := h ⟨b.toNat, b.toNat_lt⟩
  rwa [UInt8.ofNat_toNat] at hb

variable {c n : UInt8} {b bytes str : List UInt8}

-- A digit as parse_uuid reads it.
structure DigitFor (n c : UInt8) : Prop where
  digit : isXDigit c = true
  value : hexCharToNibble c = n
  solid : isSeparator c = false

theorem digitFor_of_small (hn : n < 16) (h : SameButCase c (nibbleToHexChar n)) : DigitFor n c := by
  have hall : ∀ n : UInt8, n < 16 → ∀ c ∈ [nibbleToHexChar n, toUpper (nibbleToHexChar n)],
      isXDigit c = true ∧ hexCharToNibble c = n ∧ isSeparator c = false :=
    forall_uint8 (by decide +kernel)
  obtain ⟨hdigit, hvalue, hsolid⟩ := hall n hn c (by
    rcases h with rfl | rfl <;> simp)
  exact ⟨hdigit, hvalue, hsolid⟩

theorem sameButCase_of_digit (c : UInt8) :
    isXDigit c = true → SameButCase c (nibbleToHexChar (hexCharToNibble c)) :=
  forall_uint8 (P := fun c => isXDigit c = true →
    c = nibbleToHexChar (hexCharToNibble c) ∨ c = toUpper (nibbleToHexChar (hexCharToNibble c)))
    (by decide +kernel) c

theorem hexCharToNibble_lt (c : UInt8) : isXDigit c = true → hexCharToNibble c < 16 :=
  forall_uint8 (P := fun c => isXDigit c = true → hexCharToNibble c < 16) (by decide +kernel) c

theorem nibbles_of_byte (b : UInt8) : (b &&& 0xF0) >>> 4 < 16 ∧ b &&& 0x0F < 16 ∧
    ((b &&& 0xF0) >>> 4) <<< 4 ||| (b &&& 0x0F) = b :=
  forall_uint8 (P := fun b => (b &&& 0xF0) >>> 4 < 16 ∧ b &&& 0x0F < 16 ∧
    ((b &&& 0xF0) >>> 4) <<< 4 ||| (b &&& 0x0F) = b) (by decide +kernel) b

theorem byte_of_nibbles {x y : UInt8} (hx : x < 16) (hy : y < 16) :
    ((x <<< 4 ||| y) &&& 0xF0) >>> 4 = x ∧ (x <<< 4 ||| y) &&& 0x0F = y := by
  have hall : ∀ x : UInt8, x < 16 → ∀ y ∈ (List.range 16).map UInt8.ofNat,
      ((x <<< 4 ||| y) &&& 0xF0) >>> 4 = x ∧ (x <<< 4 ||| y) &&& 0x0F = y :=
    forall_uint8 (by decide +kernel)
  refine hall x hx y (List.mem_map.mpr ⟨y.toNat, ?_, UInt8.ofNat_toNat⟩)
  exact List.mem_range.mpr hy

theorem parseUuidBytes_spells (h : Spells bytes str) (tail : List UInt8) :
    parseUuidBytes bytes.length (str ++ tail) = some bytes := by
  induction h with
  | nil => rfl
  | @cons b hi lo bytes separators str hseparators hhi hlo _ ih =>
    obtain ⟨hhigh, hlow, hbyte⟩ := nibbles_of_byte b
    have hfirst := digitFor_of_small hhigh hhi
    have hsecond := digitFor_of_small hlow hlo
    have hskip : (separators ++ hi :: lo :: str ++ tail).dropWhile isSeparator =
        hi :: lo :: (str ++ tail) := by
      rw [List.append_assoc, List.dropWhile_append_of_pos hseparators, List.cons_append,
        List.dropWhile_cons_of_neg (by simp [hfirst.solid]), List.cons_append]
    simp only [List.length_cons, parseUuidBytes, hskip, hfirst.digit, hsecond.digit, Bool.and_self,
      if_true, ih, Option.map_some, hfirst.value, hsecond.value, hbyte]

theorem spells_of_parse {n : Nat} (h : parseUuidBytes n str = some bytes) :
    bytes.length = n ∧ ∃ spelled tail, str = spelled ++ tail ∧ Spells bytes spelled := by
  induction n generalizing str bytes with
  | zero =>
    cases h
    exact ⟨rfl, [], str, rfl, .nil⟩
  | succ n ih =>
    have hsplit := List.takeWhile_append_dropWhile (p := isSeparator) (l := str)
    rw [parseUuidBytes] at h
    split at h
    · rename_i hi lo rest hskip
      split at h
      · rename_i hdigits
        rw [Bool.and_eq_true] at hdigits
        obtain ⟨more, hmore, rfl⟩ := Option.map_eq_some_iff.mp h
        obtain ⟨hlen, spelled, tail, rfl, hspells⟩ := ih hmore
        obtain ⟨hhigh, hlow⟩ := byte_of_nibbles (hexCharToNibble_lt hi hdigits.1)
          (hexCharToNibble_lt lo hdigits.2)
        refine ⟨by simp [hlen], str.takeWhile isSeparator ++ hi :: lo :: spelled, tail, ?_, ?_⟩
        · rw [hskip] at hsplit
          simpa using hsplit.symm
        · refine .cons (fun c hc => List.mem_takeWhile_imp hc) ?_ ?_ hspells
          · rw [hhigh]
            exact sameButCase_of_digit hi hdigits.1
          · rw [hlow]
            exact sameButCase_of_digit lo hdigits.2
      · cases h
    · cases h

theorem digit_of_spells (h : Spells bytes str) : ∀ d ∈ str.getLast?, isXDigit d = true := by
  induction h with
  | nil => simp
  | @cons b hi lo bytes separators str _ _ hlo hrest ih =>
    intro d hd
    rcases str.eq_nil_or_concat with rfl | ⟨init, c, rfl⟩
    · obtain rfl : lo = d := by simpa using hd
      exact (digitFor_of_small (nibbles_of_byte b).2.1 hlo).digit
    · apply ih
      simpa [List.getLast?_append, List.getLast?_cons] using hd

theorem spells_bytesToStr {i : Nat} (hi : 10 < i + bytes.length) (hne : bytes ≠ [])
    (separators : List UInt8) (h : ∀ c ∈ separators, isSeparator c = true) :
    Spells bytes (separators ++ uuidBytesToStr i bytes) := by
  induction bytes generalizing i separators with
  | nil => exact absurd rfl hne
  | cons b rest ih =>
    have hdash : ∀ c ∈ (if i = 3 ∨ i = 5 ∨ i = 7 ∨ i = 9 then [45] else [] : List UInt8),
        isSeparator c = true := by
      split
      · simp only [List.mem_singleton, forall_eq]
        decide
      · simp
    rw [uuidBytesToStr, hexPair, List.append_assoc, List.cons_append, List.cons_append,
      List.nil_append]
    refine .cons h (Or.inl rfl) (Or.inl rfl) ?_
    cases rest with
    | nil =>
      have hlast : 10 < i + 1 := by simpa using hi
      rw [if_neg (by omega)]
      exact .nil
    | cons b' rest =>
      refine ih ?_ (List.cons_ne_nil b' rest) _ hdash
      simp only [List.length_cons] at hi ⊢
      omega

end Spelling

-- What parse_uuid is for: every spelling of the printed bytes is read as those bytes, and nothing
-- is read but a spelling; what stands behind the thirty-second digit does not matter.
structure ParsesSpellings : Prop where
  printed : ∀ b, b.length = 16 → Spells b (uuidBinToStr b)
  reads : ∀ b str, b.length = 16 → Spells b str → parseUuid str = some b
  accepts : ∀ b str, parseUuid str = some b ↔
    b.length = 16 ∧ ∃ spelled tail, str = spelled ++ tail ∧ Spells b spelled

theorem parsesSpellings : ParsesSpellings := by
  have hreads {b str : List UInt8} (hlen : b.length = 16) (h : Spells b str) (tail : List UInt8) :
      parseUuid (str ++ tail) = some b := by
    have hrun := parseUuidBytes_spells h tail
    rwa [hlen] at hrun
  refine ⟨?_, ?_, ?_⟩
  · intro b hlen
    exact spells_bytesToStr (by omega) (by rintro rfl; cases hlen) [] (by simp)
  · intro b str hlen h
    simpa using hreads hlen h []
  · intro b str
    constructor
    · exact spells_of_parse
    · rintro ⟨hlen, spelled, tail, rfl, h⟩
      exact hreads hlen h tail

theorem trailing_letter_accepted : ¬ ((∀ b str, b.length = 16 → Spells b str →
      parseUuid str = some b) ∧
    ∀ str, (parseUuid str).isSome → ∃ b spelled tail, str = spelled ++ tail ∧ b.length = 16 ∧
      Spells b spelled ∧ ∀ c ∈ tail, isSeparator c = true) := by
  rintro ⟨-, h⟩
  obtain ⟨b, spelled, tail, hstr, -, hspells, htail⟩ :=
    h (List.replicate 32 48 ++ [122]) (by decide)
  have hlast := congrArg List.getLast? hstr
  rw [List.getLast?_concat] at hlast
  rcases tail.eq_nil_or_concat with rfl | ⟨init, c, rfl⟩
  · rw [List.append_nil] at hlast
    exact absurd (digit_of_spells hspells 122 hlast.symm) (by decide)
  · rw [List.concat_eq_append, ← List.append_assoc, List.getLast?_concat] at hlast
    obtain rfl := Option.some.inj hlast
    exact absurd (htail 122 (by simp)) (by decide)

section Generating

-- SHA-1 of a message; SHA1_DIGEST_LENGTH is 20.
variable (sha1 : List UInt8 → Fin 20 → UInt8)

def sha1Hash (nameSpace name : List UInt8) : Fin 20 → UInt8 := sha1 (nameSpace ++ name)

-- dest[i] |= n, where n is an int and dest[i] is eight bits wide.
def orByte (dest : Fin 16 → UInt8) (i : Fin 16) (n : Nat) : Fin 16 → UInt8 :=
  Function.update dest i (UInt8.ofNat ((dest i).toNat ||| n))

def uuid5Generate (nameSpace name : List UInt8) : Fin 16 → UInt8 :=
  let dest i := sha1Hash sha1 nameSpace name (i.castLE (by decide))
  let dest := Function.update dest 6 (dest 6 &&& 0x0F)
  let dest := orByte dest 6 (5 <<< 12)
  let dest := Function.update dest 8 (dest 8 &&& 0x3F)
  orByte dest 8 (2 <<< 6)

-- "extandroid/make_ext4fs"
def makeExt4fsNamespace : List UInt8 :=
  [101, 120, 116, 97, 110, 100, 114, 111, 105, 100, 47, 109, 97, 107, 101, 95, 101, 120, 116, 52,
    102, 115]

def infoUuid (uuidUserSpecified : Bool) (uuid : Fin 16 → UInt8) (label : Option (List UInt8)) :
    Fin 16 → UInt8 :=
  if uuidUserSpecified then uuid
  else uuid5Generate sha1 makeExt4fsNamespace (label.getD [])

-- A version 5 UUID of a digest: the version, the variant, and the digest's bits everywhere else.
structure IsVersion5 (digest : Fin 20 → UInt8) (uuid : Fin 16 → UInt8) : Prop where
  version : (uuid 6).toNat / 16 = 5
  variant : (uuid 8).toNat / 64 = 2
  low6 : (uuid 6).toNat % 16 = (digest 6).toNat % 16
  low8 : (uuid 8).toNat % 64 = (digest 8).toNat % 64
  others : ∀ i : Fin 16, i ≠ 6 → i ≠ 8 → uuid i = digest (i.castLE (by decide))

theorem uuid5Generate_version (nameSpace name : List UInt8) :
    (uuid5Generate sha1 nameSpace name 6).toNat =
      (sha1 (nameSpace ++ name) 6).toNat % 16 := by
  have hbyte : ∀ b : UInt8, (UInt8.ofNat ((b &&& 0x0F).toNat ||| 5 <<< 12)).toNat = b.toNat % 16 :=
    forall_uint8 (by decide +kernel)
  exact hbyte _

-- No label comes with a version 5 UUID.
theorem infoUuid_not_version5 (uuid : Fin 16 → UInt8) (label : Option (List UInt8)) :
    ¬ IsVersion5 (sha1Hash sha1 makeExt4fsNamespace (label.getD [])) (infoUuid sha1 false uuid label) := by
  intro h
  have hversion := h.version
  have hzero := uuid5Generate_version sha1 makeExt4fsNamespace (label.getD [])
  change (uuid5Generate sha1 makeExt4fsNamespace (label.getD []) 6).toNat / 16 = 5 at hversion
  omega

theorem uuid5Generate_rest (nameSpace name : List UInt8) :
    (uuid5Generate sha1 nameSpace name 8).toNat / 64 = 2 ∧
      (uuid5Generate sha1 nameSpace name 8).toNat % 64 =
        (sha1 (nameSpace ++ name) 8).toNat % 64 ∧
      ∀ i : Fin 16, i ≠ 6 → i ≠ 8 →
        uuid5Generate sha1 nameSpace name i = sha1 (nameSpace ++ name) (i.castLE (by decide)) := by
  have hbyte : ∀ b : UInt8, (UInt8.ofNat ((b &&& 0x3F).toNat ||| 2 <<< 6)).toNat / 64 = 2 ∧
      (UInt8.ofNat ((b &&& 0x3F).toNat ||| 2 <<< 6)).toNat % 64 = b.toNat % 64 :=
    forall_uint8 (by decide +kernel)
  refine ⟨(hbyte _).1, (hbyte _).2, ?_⟩
  intro i h6 h8
  simp [uuid5Generate, orByte, sha1Hash, h6, h8]

end Generating

section Example

def emptyLabelDigest : List UInt8 :=
  [188, 244, 248, 87, 244, 171, 223, 101, 255, 103, 148, 111, 192, 249, 242, 91, 184, 188, 185, 50]

-- Byte 6 is 0xdf in the digest and 0x0f in the UUID.
theorem empty_label_version :
    ¬ IsVersion5 (fun i => emptyLabelDigest.getD i 0)
      (infoUuid (fun _ i => emptyLabelDigest.getD i 0) false (fun _ => 0) none) := by
  intro h
  exact absurd h.version (by decide)

end Example

end MakeExt4fs
