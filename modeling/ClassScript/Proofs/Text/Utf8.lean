/-
# What the reader of UTF-8 accepts

The reader (`Utf8.decode?`) takes one octet at a time. Here it is held to the encoding of
characters that strings have: a sequence of octets is accepted exactly if it is the encoding of a
text, and the text is what is read (`decode?_eq_some_iff`).

Between the two stands `Encodes`, which says by ranges of octets how a character is written. An
octet behind the first one of a character is one of 0x80 to 0xBF (`IsTail`), so no character
but the line feed has the octet of the line feed in it (`Encodes.lineFeed`).

Key definitions: `Utf8.encode`, `Utf8.Encodes`.
Key theorems: `Utf8.encodes_iff`, `Utf8.decode?_eq_some_iff`.
-/
import ClassScript.Text.Utf8
import Mathlib.Order.Basic

namespace ClassScript.Utf8

/-- The octets of a text. -/
def encode (cs : List Char) : List UInt8 := cs.flatMap String.utf8EncodeChar

@[simp] theorem encode_nil : encode [] = [] := rfl

@[simp] theorem encode_cons (c : Char) (cs : List Char) :
    encode (c :: cs) = String.utf8EncodeChar c ++ encode cs := rfl

/-- The octets of a string are those of its characters. -/
theorem toUTF8_eq (s : String) : s.toUTF8.data.toList = encode s.toList := by
  conv => lhs; rw [← String.ofList_toList (s := s)]
  rw [String.toUTF8_eq_toByteArray, String.toByteArray_ofList, List.utf8Encode,
    List.data_toByteArray]
  rfl

/-! ### How a character is written -/

/-- An octet of a character behind its first one. -/
def IsTail (b : UInt8) : Prop := 0x80 ≤ b.toNat ∧ b.toNat ≤ 0xbf

/-- The octets that a character is written with. Of three octets, the first two say that the
character needs three and is no surrogate; of four, that it needs four and is not too great. -/
inductive Encodes : List UInt8 → Char → Prop
  | one {b : UInt8} : b.toNat ≤ 0x7f → Encodes [b] (Char.ofNat b.toNat)
  | two {b x : UInt8} : 0xc2 ≤ b.toNat → b.toNat ≤ 0xdf → IsTail x →
      Encodes [b, x] (Char.ofNat ((b.toNat - 0xc0) * 64 + (x.toNat - 0x80)))
  | three {b x y : UInt8} {w : Nat} : 0xe0 ≤ b.toNat → b.toNat ≤ 0xef → IsTail x → IsTail y →
      w = (b.toNat - 0xe0) * 64 + (x.toNat - 0x80) → 0x20 ≤ w → ¬ (0x360 ≤ w ∧ w ≤ 0x37f) →
      Encodes [b, x, y] (Char.ofNat (w * 64 + (y.toNat - 0x80)))
  | four {b x y z : UInt8} {w : Nat} : 0xf0 ≤ b.toNat → b.toNat ≤ 0xf4 → IsTail x → IsTail y →
      IsTail z → w = (b.toNat - 0xf0) * 64 + (x.toNat - 0x80) → 0x10 ≤ w → w ≤ 0x10f →
      Encodes [b, x, y, z] (Char.ofNat ((w * 64 + (y.toNat - 0x80)) * 64 + (z.toNat - 0x80)))

theorem toNat_ofNat {n : Nat} (h : n < 0x100) : (UInt8.ofNat n).toNat = n :=
  Nat.mod_eq_of_lt h

theorem isTail_ofNat (n : Nat) : IsTail (UInt8.ofNat (n % 64 + 0x80)) := by
  rw [IsTail, toNat_ofNat (by omega)]
  omega

/-- A character is written as its encoding. -/
theorem encodes_encodeChar (c : Char) : Encodes (String.utf8EncodeChar c) c := by
  have hc : c.toNat < 0xd800 ∨ 0xdfff < c.toNat ∧ c.toNat < 0x110000 := c.valid
  have hchar : Char.ofNat c.toNat = c := c.ofNat_toNat
  unfold String.utf8EncodeChar
  rw [← Char.toNat]
  generalize c.toNat = v at hc hchar
  subst hchar
  dsimp only
  split_ifs with h1 h2 h3
  · have h := Encodes.one (b := UInt8.ofNat v) (by rw [toNat_ofNat] <;> omega)
    rwa [toNat_ofNat (by omega)] at h
  · have h := Encodes.two (b := UInt8.ofNat (v / 64 % 32 + 192)) (by rw [toNat_ofNat] <;> omega)
      (by rw [toNat_ofNat] <;> omega) (isTail_ofNat v)
    rw [toNat_ofNat (by omega), toNat_ofNat (by omega)] at h
    convert h using 2
    omega
  · have h := Encodes.three (b := UInt8.ofNat (v / 4096 % 16 + 224)) (w := v / 64)
      (by rw [toNat_ofNat] <;> omega) (by rw [toNat_ofNat] <;> omega) (isTail_ofNat (v / 64))
      (isTail_ofNat v) (by rw [toNat_ofNat, toNat_ofNat] <;> omega) (by omega) (by omega)
    rw [toNat_ofNat (by omega)] at h
    convert h using 2
    omega
  · have h := Encodes.four (b := UInt8.ofNat (v / 262144 % 8 + 240)) (w := v / 4096)
      (by rw [toNat_ofNat] <;> omega) (by rw [toNat_ofNat] <;> omega) (isTail_ofNat (v / 4096))
      (isTail_ofNat (v / 64)) (isTail_ofNat v)
      (by rw [toNat_ofNat, toNat_ofNat] <;> omega) (by omega) (by omega)
    rw [toNat_ofNat (by omega), toNat_ofNat (by omega)] at h
    convert h using 2
    omega

theorem val_ofNat {n : Nat} (h : n < 0xd800 ∨ 0xdfff < n ∧ n < 0x110000) :
    (Char.ofNat n).val.toNat = n := by
  rw [Char.ofNat, dif_pos h]
  rfl

theorem eq_ofNat {b : UInt8} {n : Nat} (h : n = b.toNat) : b = UInt8.ofNat n := by
  rw [h, UInt8.ofNat_toNat]

/-- How a character is written is its encoding, and nothing else is. -/
theorem encodes_iff {octets : List UInt8} {c : Char} :
    Encodes octets c ↔ octets = String.utf8EncodeChar c := by
  refine ⟨fun h => ?_, fun h => h ▸ encodes_encodeChar c⟩
  cases h with
  | one hb =>
    rw [String.utf8EncodeChar, val_ofNat (by omega)]
    rw [if_pos hb, UInt8.ofNat_toNat]
  | two hlow hhigh hx =>
    obtain ⟨hx, hx'⟩ := hx
    rw [String.utf8EncodeChar, val_ofNat (by omega)]
    rw [if_neg (by omega), if_pos (by omega)]
    simp only [List.cons.injEq, and_true]
    exact ⟨eq_ofNat (by omega), eq_ofNat (by omega)⟩
  | three hlow hhigh hx hy hw hsmall hsurrogate =>
    obtain ⟨hx, hx'⟩ := hx
    obtain ⟨hy, hy'⟩ := hy
    rw [String.utf8EncodeChar, val_ofNat (by omega)]
    rw [if_neg (by omega), if_neg (by omega), if_pos (by omega)]
    simp only [List.cons.injEq, and_true]
    exact ⟨eq_ofNat (by omega), eq_ofNat (by omega), eq_ofNat (by omega)⟩
  | four hlow hhigh hx hy hz hw hsmall hgreat =>
    obtain ⟨hx, hx'⟩ := hx
    obtain ⟨hy, hy'⟩ := hy
    obtain ⟨hz, hz'⟩ := hz
    rw [String.utf8EncodeChar, val_ofNat (by omega)]
    rw [if_neg (by omega), if_neg (by omega), if_neg (by omega)]
    simp only [List.cons.injEq, and_true]
    exact ⟨eq_ofNat (by omega), eq_ofNat (by omega), eq_ofNat (by omega), eq_ofNat (by omega)⟩

/-- Only the line feed is written with the octet of the line feed. -/
theorem lineFeed_not_mem {c : Char} (hc : c ≠ '\n') : 0x0a ∉ String.utf8EncodeChar c := by
  have hhigh {b : UInt8} {n : Nat} (hn : 0x80 ≤ n) (hb : n ≤ b.toNat) : 0x0a ≠ b := by
    rintro rfl
    exact absurd (Nat.le_trans hn hb) (by decide)
  have htail {b : UInt8} (hb : IsTail b) : 0x0a ≠ b := hhigh (Nat.le_refl _) hb.1
  intro hmem
  have h := encodes_encodeChar c
  generalize String.utf8EncodeChar c = octets at hmem h
  cases h with
  | one =>
    obtain rfl := List.mem_singleton.mp hmem
    exact hc rfl
  | two hb _ hx => simp [hhigh (by decide) hb, htail hx] at hmem
  | three hb _ hx hy => simp [hhigh (by decide) hb, htail hx, htail hy] at hmem
  | four hb _ hx hy hz => simp [hhigh (by decide) hb, htail hx, htail hy, htail hz] at hmem

/-! ### The units that are read -/

/-- The units that come of a character under way, if there is one, and the octets behind it. -/
def unitsFrom (p : Option Pending) (octets : List UInt8) : List (Option Char) :=
  (octets.foldl Reader.push ⟨[], p⟩).finish

theorem push_units (us : List (Option Char)) (p : Option Pending) (b : UInt8) :
    Reader.push ⟨us, p⟩ b =
      ⟨(Reader.push ⟨[], p⟩ b).units ++ us, (Reader.push ⟨[], p⟩ b).pending⟩ := by
  unfold Reader.push Reader.begin
  dsimp only
  split
  · split <;> rfl
  · split_ifs
    · rfl
    · rfl
    · split <;> rfl

/-- The units read before stand in front. -/
theorem finish_foldl (octets : List UInt8) (us : List (Option Char)) (p : Option Pending) :
    (octets.foldl Reader.push ⟨us, p⟩).finish = us.reverse ++ unitsFrom p octets := by
  induction octets generalizing us p with
  | nil => cases p <;> simp [unitsFrom, Reader.finish]
  | cons b octets ih =>
    rw [unitsFrom, List.foldl_cons, List.foldl_cons, push_units, ih, ih, List.reverse_append,
      List.append_assoc]

theorem units_eq (octets : List UInt8) : units octets = unitsFrom none octets := rfl

variable {b : UInt8} {c : Char} {p : Pending} {low high bits n : Nat}

/-- What an octet that begins something contributes. -/
theorem unitsFrom_begin (b : UInt8) (octets : List UInt8) :
    unitsFrom none (b :: octets) = match start b.toNat with
      | .whole c => some c :: unitsFrom none octets
      | .partly p => unitsFrom (some p) octets
      | .refused => none :: unitsFrom none octets := by
  rw [unitsFrom, List.foldl_cons, Reader.push, Reader.begin]
  dsimp only
  cases start b.toNat <;> exact finish_foldl octets _ _

theorem unitsFrom_partly (h : start b.toNat = .partly p) (octets : List UInt8) :
    unitsFrom none (b :: octets) = unitsFrom (some p) octets := by
  rw [unitsFrom_begin, h]

/-- The last octet of a character. -/
theorem unitsFrom_last (h : low ≤ b.toNat ∧ b.toNat ≤ high) (octets : List UInt8) :
    unitsFrom (some ⟨1, low, high, bits⟩) (b :: octets) =
      some (Char.ofNat (bits * 64 + (b.toNat - 0x80))) :: unitsFrom none octets := by
  rw [unitsFrom, List.foldl_cons, Reader.push]
  dsimp only
  rw [if_pos h, if_pos (Nat.le_refl 1)]
  exact finish_foldl octets _ _

/-- An octet behind which the character goes on. -/
theorem unitsFrom_more (h : low ≤ b.toNat ∧ b.toNat ≤ high) (octets : List UInt8) :
    unitsFrom (some ⟨n + 2, low, high, bits⟩) (b :: octets) =
      unitsFrom (some ⟨n + 1, 0x80, 0xbf, bits * 64 + (b.toNat - 0x80)⟩) octets := by
  rw [unitsFrom, List.foldl_cons, Reader.push]
  dsimp only
  rw [if_pos h, if_neg (by omega)]
  exact finish_foldl octets _ _

/-- A character that is not gone on with is a malformed unit. -/
theorem goes_on {octets : List UInt8} (h : none ∉ unitsFrom (some ⟨n, low, high, bits⟩) octets) :
    ∃ b rest, octets = b :: rest ∧ low ≤ b.toNat ∧ b.toNat ≤ high := by
  cases octets with
  | nil => simp [unitsFrom, Reader.finish] at h
  | cons b octets =>
    by_contra hout
    refine h ?_
    have hrange : ¬ (low ≤ b.toNat ∧ b.toNat ≤ high) := fun hb => hout ⟨b, octets, rfl, hb⟩
    rw [unitsFrom, List.foldl_cons, Reader.push]
    dsimp only
    rw [if_neg hrange, Reader.begin]
    split <;> rw [finish_foldl] <;> simp

theorem start_one {b : Nat} (h : b ≤ 0x7f) : start b = .whole (Char.ofNat b) := if_pos h

theorem start_two {b : Nat} (hlow : 0xc2 ≤ b) (hhigh : b ≤ 0xdf) :
    start b = .partly ⟨1, 0x80, 0xbf, b - 0xc0⟩ := by
  rw [start, if_neg (by omega), if_pos ⟨hlow, hhigh⟩]

/-- What begins a character of three octets. -/
theorem start_three {b : Nat} (hlow : 0xe0 ≤ b) (hhigh : b ≤ 0xef) : ∃ low high,
    start b = .partly ⟨2, low, high, b - 0xe0⟩ ∧ ∀ x, low ≤ x ∧ x ≤ high ↔
      0x80 ≤ x ∧ x ≤ 0xbf ∧ 0x20 ≤ (b - 0xe0) * 64 + (x - 0x80) ∧
        ¬ (0x360 ≤ (b - 0xe0) * 64 + (x - 0x80) ∧ (b - 0xe0) * 64 + (x - 0x80) ≤ 0x37f) := by
  unfold start
  split_ifs with h1 h2 h3 h4 h5
  all_goals first | omega | skip
  · subst h3
    exact ⟨_, _, rfl, fun x => by omega⟩
  · subst h4
    exact ⟨_, _, rfl, fun x => by omega⟩
  · exact ⟨_, _, rfl, fun x => by omega⟩

/-- What begins a character of four octets. -/
theorem start_four {b : Nat} (hlow : 0xf0 ≤ b) (hhigh : b ≤ 0xf4) : ∃ low high,
    start b = .partly ⟨3, low, high, b - 0xf0⟩ ∧ ∀ x, low ≤ x ∧ x ≤ high ↔
      0x80 ≤ x ∧ x ≤ 0xbf ∧ 0x10 ≤ (b - 0xf0) * 64 + (x - 0x80) ∧
        (b - 0xf0) * 64 + (x - 0x80) ≤ 0x10f := by
  unfold start
  split_ifs with h1 h2 h3 h4 h5 h6 h7 h8
  all_goals first | omega | skip
  · subst h6
    exact ⟨_, _, rfl, fun x => by omega⟩
  · exact ⟨_, _, rfl, fun x => by omega⟩
  · subst h8
    exact ⟨_, _, rfl, fun x => by omega⟩

theorem start_refused {b : Nat} (h : 0x80 ≤ b ∧ b ≤ 0xc1 ∨ 0xf5 ≤ b) : start b = .refused := by
  unfold start
  split_ifs <;> first | omega | rfl

/-- A character is read as itself. -/
theorem Encodes.units {octets : List UInt8} (h : Encodes octets c) (rest : List UInt8) :
    unitsFrom none (octets ++ rest) = some c :: unitsFrom none rest := by
  cases h with
  | one hb => rw [List.cons_append, unitsFrom_begin, start_one hb]; rfl
  | two hlow hhigh hx =>
    exact (unitsFrom_partly (start_two hlow hhigh) _).trans (unitsFrom_last hx rest)
  | three hlow hhigh hx hy hw hsmall hsurrogate =>
    obtain ⟨low, high, hstart, hrange⟩ := start_three hlow hhigh
    rw [hw] at hsmall hsurrogate ⊢
    rw [List.cons_append, unitsFrom_partly hstart, List.cons_append,
      unitsFrom_more ((hrange _).mpr ⟨hx.1, hx.2, hsmall, hsurrogate⟩), List.cons_append,
      unitsFrom_last hy, List.nil_append]
  | four hlow hhigh hx hy hz hw hsmall hgreat =>
    obtain ⟨low, high, hstart, hrange⟩ := start_four hlow hhigh
    rw [hw] at hsmall hgreat ⊢
    rw [List.cons_append, unitsFrom_partly hstart, List.cons_append,
      unitsFrom_more ((hrange _).mpr ⟨hx.1, hx.2, hsmall, hgreat⟩), List.cons_append,
      unitsFrom_more hy, List.cons_append, unitsFrom_last hz, List.nil_append]

/-- Where no malformed unit is read, a character comes first. -/
theorem exists_encodes {octets : List UInt8} (h : none ∉ unitsFrom none (b :: octets)) :
    ∃ taken c rest, b :: octets = taken ++ rest ∧ Encodes taken c := by
  by_cases h1 : b.toNat ≤ 0x7f
  · exact ⟨[b], _, octets, rfl, .one h1⟩
  by_cases h2 : 0xc2 ≤ b.toNat ∧ b.toNat ≤ 0xdf
  · rw [unitsFrom_partly (start_two h2.1 h2.2)] at h
    obtain ⟨x, rest, rfl, hx⟩ := goes_on h
    exact ⟨[b, x], _, rest, rfl, .two h2.1 h2.2 hx⟩
  by_cases h3 : 0xe0 ≤ b.toNat ∧ b.toNat ≤ 0xef
  · obtain ⟨low, high, hstart, hrange⟩ := start_three h3.1 h3.2
    rw [unitsFrom_partly hstart] at h
    obtain ⟨x, rest, rfl, hx⟩ := goes_on h
    rw [unitsFrom_more hx] at h
    obtain ⟨y, rest, rfl, hy⟩ := goes_on h
    obtain ⟨hlow, hhigh, hsmall, hsurrogate⟩ := (hrange _).mp hx
    exact ⟨[b, x, y], _, rest, rfl, .three h3.1 h3.2 ⟨hlow, hhigh⟩ hy rfl hsmall hsurrogate⟩
  by_cases h4 : 0xf0 ≤ b.toNat ∧ b.toNat ≤ 0xf4
  · obtain ⟨low, high, hstart, hrange⟩ := start_four h4.1 h4.2
    rw [unitsFrom_partly hstart] at h
    obtain ⟨x, rest, rfl, hx⟩ := goes_on h
    rw [unitsFrom_more hx] at h
    obtain ⟨y, rest, rfl, hy⟩ := goes_on h
    rw [unitsFrom_more hy] at h
    obtain ⟨z, rest, rfl, hz⟩ := goes_on h
    obtain ⟨hlow, hhigh, hsmall, hgreat⟩ := (hrange _).mp hx
    exact ⟨[b, x, y, z], _, rest, rfl, .four h4.1 h4.2 ⟨hlow, hhigh⟩ hy hz rfl hsmall hgreat⟩
  · rw [unitsFrom_begin, start_refused (by omega)] at h
    exact absurd List.mem_cons_self h

/-! ### Whole texts -/

theorem unitsFrom_encode (cs : List Char) : unitsFrom none (encode cs) = cs.map some := by
  induction cs with
  | nil => rfl
  | cons c cs ih => rw [encode_cons, (encodes_encodeChar c).units, ih, List.map_cons]

theorem eq_encode : ∀ (octets : List UInt8) (cs : List Char),
    unitsFrom none octets = cs.map some → octets = encode cs
  | [], cs, h => by
    obtain rfl := List.map_eq_nil_iff.mp h.symm
    rfl
  | b :: octets, cs, h => by
    obtain ⟨taken, c, rest, hrest, htaken⟩ := exists_encodes (by rw [h]; simp)
    have hless : rest.length < (b :: octets).length := by
      have hne : taken ≠ [] := by rintro rfl; cases htaken
      have hpos := List.length_pos_iff.mpr hne
      rw [hrest, List.length_append]
      omega
    rw [hrest, htaken.units] at h
    obtain ⟨c', cs, rfl, hc, hcs⟩ := List.map_eq_cons_iff.mp h.symm
    obtain rfl := Option.some.inj hc
    rw [hrest, encode_cons, ← encodes_iff.mp htaken, eq_encode rest cs hcs.symm]
termination_by octets => octets.length
decreasing_by exact hless

theorem mapM_id_eq_some {α : Type} (xs : List (Option α)) (ys : List α) :
    xs.mapM id = some ys ↔ xs = ys.map some := by
  induction xs generalizing ys with
  | nil => cases ys <;> simp
  | cons x xs ih =>
    cases x with
    | none => cases ys <;> simp
    | some x => cases h : xs.mapM id <;> cases ys <;> simp_all

/-- **The reader accepts what encodes a text, and reads that text.** -/
theorem decode?_eq_some_iff {octets : List UInt8} {cs : List Char} :
    decode? octets = some cs ↔ octets = encode cs := by
  rw [decode?, mapM_id_eq_some, units_eq]
  exact ⟨eq_encode octets cs, fun h => h ▸ unitsFrom_encode cs⟩

end ClassScript.Utf8
