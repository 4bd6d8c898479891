import Mathlib.Data.List.Forall2
import Mathlib.Data.Nat.Digits.Defs
import Mathlib.Tactic.Ring
import ShapeSearch.Literal
import ShapeSearch.Proofs.Numerals

namespace ShapeSearch

namespace Text

variable {radix bound n m : Nat} {t : Text}

def Digits (radix : Nat) (t : Text) (ds : List Nat) : Prop :=
  List.Forall₂ (fun c d => digitValue? c = some d ∧ d < radix) t ds

/-- A number of a radix. Its first digit counts most. -/
def Numeral (radix : Nat) (t : Text) (n : Nat) : Prop :=
  ∃ ds, Digits radix t ds ∧ t ≠ [] ∧ Nat.ofDigits radix ds.reverse = n

def Unsigned (radix bound : Nat) (t : Text) (n : Nat) : Prop :=
  n < bound ∧ ∃ digits, (t = digits ∨ t = '+' :: digits) ∧ Numeral radix digits n

theorem readDigitsAfter?_eq_some_iff : readDigitsAfter? radix n t = some m ↔
    ∃ ds, Digits radix t ds ∧ Nat.ofDigits radix ds.reverse + n * radix ^ ds.length = m := by
  induction t generalizing n with
  | nil => simp [readDigitsAfter?, Digits]
  | cons c t ih =>
      have hvalue (d : Nat) (ds : List Nat) :
          Nat.ofDigits radix (d :: ds).reverse + n * radix ^ (d :: ds).length =
            Nat.ofDigits radix ds.reverse + (n * radix + d) * radix ^ ds.length := by
        rw [List.reverse_cons, Nat.ofDigits_append, Nat.ofDigits_singleton, List.length_reverse,
          List.length_cons]
        ring
      simp only [readDigitsAfter?, Digits, List.forall₂_cons_left_iff]
      constructor
      · intro h
        split at h
        next d hc =>
          split at h
          next hd =>
            obtain ⟨ds, hds, hm⟩ := ih.mp h
            exact ⟨d :: ds, ⟨d, ds, ⟨hc, hd⟩, hds, rfl⟩, (hvalue d ds).trans hm⟩
          next => cases h
        next => cases h
      · rintro ⟨_, ⟨d, ds, ⟨hc, hd⟩, hds, rfl⟩, hm⟩
        simp only [hc, hd, if_true]
        exact ih.mpr ⟨ds, hds, (hvalue d ds).symm.trans hm⟩

theorem readDigits?_eq_some_iff : readDigits? radix t = some n ↔ Numeral radix t n := by
  cases t with
  | nil => simp [readDigits?, Numeral]
  | cons c t =>
      rw [readDigits?, readDigitsAfter?_eq_some_iff]
      · simp [Numeral]
      · exact nofun

theorem Numeral.ne_nil (h : Numeral radix t n) : t ≠ [] :=
  h.choose_spec.2.1

theorem Numeral.head?_ne (h : Numeral radix t n) : t.head? ≠ some '+' := by
  obtain ⟨ds, hds, -, -⟩ := h
  intro hhead
  obtain ⟨t, rfl⟩ := List.head?_eq_some_iff.mp hhead
  obtain ⟨d, -, ⟨hplus, -⟩, -⟩ := List.forall₂_cons_left_iff.mp hds
  have hnone : digitValue? '+' = none := by decide
  rw [hnone] at hplus
  cases hplus

theorem isDigit_of_digitValue? {c : Char} {d : Nat} (hc : digitValue? c = some d) (hd : d < 10) :
    c.isDigit = true := by
  rw [digitValue?] at hc
  split at hc
  next h =>
    rw [Char.isDigit, Bool.and_eq_true, decide_eq_true_eq, decide_eq_true_eq]
    exact h
  next =>
    split at hc
    next h =>
      have hlow : 97 ≤ c.toNat := UInt32.le_iff_toNat_le.mp h.1
      rw [Option.some.injEq] at hc
      omega
    next =>
      split at hc
      next h =>
        have hlow : 65 ≤ c.toNat := UInt32.le_iff_toNat_le.mp h.1
        rw [Option.some.injEq] at hc
        omega
      next => cases hc

theorem Numeral.isDigit (h : Numeral 10 t n) : ∀ c ∈ t, c.isDigit = true := by
  obtain ⟨ds, hds, -, -⟩ := h
  intro c hc
  induction hds with
  | nil => cases hc
  | cons hd _ ih =>
      rcases List.mem_cons.mp hc with rfl | hc
      · exact isDigit_of_digitValue? hd.1 hd.2
      · exact ih hc

theorem readUnsigned?_eq_some_iff :
    readUnsigned? radix bound t = some n ↔ Unsigned radix bound t n := by
  simp only [readUnsigned?, Option.filter_eq_some_iff, decide_eq_true_eq, readDigits?_eq_some_iff]
  split
  next rest =>
    constructor
    · rintro ⟨h, hn⟩
      exact ⟨hn, rest, .inr rfl, h⟩
    · rintro ⟨hn, digits, rfl | hrest, h⟩
      · exact absurd rfl h.head?_ne
      · exact ⟨(List.cons.inj hrest).2 ▸ h, hn⟩
  next hplus =>
    constructor
    · rintro ⟨h, hn⟩
      exact ⟨hn, t, .inl rfl, h⟩
    · rintro ⟨hn, digits, rfl | rfl, h⟩
      · exact ⟨h, hn⟩
      · exact absurd rfl (hplus digits)

theorem afterFirst?_iff {start rest : Text} :
    t.afterFirst? start = some rest ↔ t = start ++ rest := by
  simp only [afterFirst?, List.isPrefixOf_iff_prefix]
  constructor
  · intro h
    split at h
    next hprefix =>
      obtain ⟨u, rfl⟩ := hprefix
      rw [List.drop_left, Option.some.injEq] at h
      rw [h]
    next => cases h
  · rintro rfl
    rw [if_pos (List.prefix_append start rest), List.drop_left]

theorem beforeLast?_iff {front final : Text} :
    t.beforeLast? final = some front ↔ t = front ++ final := by
  simp only [beforeLast?, List.isSuffixOf_iff_suffix]
  constructor
  · intro h
    split at h
    next hsuffix =>
      obtain ⟨u, rfl⟩ := hsuffix
      simp only [List.length_append, Nat.add_sub_cancel, List.take_left, Option.some.injEq] at h
      rw [h]
    next => cases h
  · rintro rfl
    rw [if_pos (List.suffix_append front final)]
    simp

end Text

namespace Escape

variable {t u : Text} {c : Char}

/-- A character by its number, which is below a bound. -/
def CodePoint (bound : Nat) (hex : Text) (c : Char) : Prop :=
  Text.Unsigned 16 bound hex c.toNat

theorem codePoint?_eq_some_iff {bound : Nat} {hex : Text} :
    codePoint? bound hex = some c ↔ CodePoint bound hex c := by
  rw [codePoint?, Option.bind_eq_some_iff, CodePoint, ← Text.readUnsigned?_eq_some_iff]
  constructor
  · rintro ⟨n, hn, h⟩
    by_cases hvalid : n.isValidChar
    · rw [dif_pos hvalid, Option.some.injEq] at h
      subst h
      exact hn
    · rw [dif_neg hvalid] at h
      cases h
  · intro h
    have hvalid : c.toNat.isValidChar := c.valid
    exact ⟨c.toNat, h, dif_pos hvalid⟩

/-- The text that a body with escapes stands for. A backslash in front of a line end is not part of
it, nor are the blanks that follow. -/
inductive Decodes : Text → Text → Prop
  | nil : Decodes [] []
  | plain {c : Char} {t u : Text} (hc : c ≠ '\\') (h : Decodes t u) : Decodes (c :: t) (c :: u)
  | letter {c d : Char} {t u : Text} (hc : letter? c = some d) (h : Decodes t u) :
    Decodes ('\\' :: c :: t) (d :: u)
  | byte {c : Char} {t u : Text} (hc : CodePoint 256 (t.take 2) c) (h : Decodes (t.drop 2) u) :
    Decodes ('\\' :: 'x' :: t) (c :: u)
  | codePoint {c : Char} {t u : Text}
    (hc : CodePoint UInt32.size ((t.takeWhile (· != '\x7d')).filter (· != '_')) c)
    (h : Decodes ((t.dropWhile (· != '\x7d')).drop 1) u) :
    Decodes ('\\' :: 'u' :: '\x7b' :: t) (c :: u)
  | lineEnd {t u : Text} (h : Decodes (t.dropWhile Text.isBlank) u) : Decodes ('\\' :: '\n' :: t) u

theorem decodes_of_decode? (h : decode? t = some u) : Decodes t u := by
  fun_induction decode? t generalizing u with
  | case1 =>
      cases h
      exact .nil
  | case2 t ih =>
      simp only [Option.bind_eq_some_iff, Option.map_eq_some_iff] at h
      obtain ⟨c, hc, u, hu, rfl⟩ := h
      exact .byte (codePoint?_eq_some_iff.mp hc) (ih hu)
  | case3 t ih =>
      simp only [Option.bind_eq_some_iff, Option.map_eq_some_iff] at h
      obtain ⟨c, hc, u, hu, rfl⟩ := h
      exact .codePoint (codePoint?_eq_some_iff.mp hc) (ih hu)
  | case4 t ih => exact .lineEnd (ih h)
  | case5 c t _ _ _ ih =>
      simp only [Option.bind_eq_some_iff, Option.map_eq_some_iff] at h
      obtain ⟨d, hd, u, hu, rfl⟩ := h
      exact .letter hd (ih hu)
  | case6 => cases h
  | case7 c t _ _ _ hcons hnil ih =>
      obtain ⟨u, hu, rfl⟩ := Option.map_eq_some_iff.mp h
      refine .plain (fun hc => ?_) (ih hu)
      cases t with
      | nil => exact hnil hc rfl
      | cons d t => exact hcons d t hc rfl

theorem Decodes.decode? (h : Decodes t u) : decode? t = some u := by
  induction h with
  | nil => rw [Escape.decode?]
  | plain hc h ih => simp [Escape.decode?, hc, ih]
  | letter hc h ih =>
      -- the letters are other characters than those that begin the longer escapes
      unfold letter? at hc
      split at hc
      all_goals cases hc
      all_goals simp [Escape.decode?, letter?, ih]
  | byte hc h ih => simp [Escape.decode?, codePoint?_eq_some_iff.mpr hc, ih]
  | codePoint hc h ih =>
      rw [Escape.decode?, codePoint?_eq_some_iff.mpr hc, Option.bind_some, ih, Option.map_some]
  | lineEnd h ih => rw [Escape.decode?, ih]

theorem decode?_eq_some_iff : decode? t = some u ↔ Decodes t u :=
  ⟨decodes_of_decode?, Decodes.decode?⟩

end Escape

namespace Real

variable {t u : Text} {n : Nat} {e : Int} {x : Float}

inductive Exponent : Text → Int → Prop
  | none : Exponent [] 0
  | plain {c : Char} {t : Text} {n : Nat} (hc : c = 'e' ∨ c = 'E') (h : Text.Numeral 10 t n) :
    Exponent (c :: t) n
  | plus {c : Char} {t : Text} {n : Nat} (hc : c = 'e' ∨ c = 'E') (h : Text.Numeral 10 t n) :
    Exponent (c :: '+' :: t) n
  | minus {c : Char} {t : Text} {n : Nat} (hc : c = 'e' ∨ c = 'E') (h : Text.Numeral 10 t n) :
    Exponent (c :: '-' :: t) (-n)

theorem unsigned_of_numeral (h : Text.Numeral 10 t n) : unsigned t = (false, t) := by
  have hdigit := h.isDigit
  unfold unsigned
  split
  next => exact absurd (hdigit _ List.mem_cons_self) (by decide)
  next => exact absurd (hdigit _ List.mem_cons_self) (by decide)
  next => rfl

theorem readExponent?_eq_some_iff : readExponent? t = some e ↔ Exponent t e := by
  constructor
  · intro h
    cases t with
    | nil =>
        cases h
        exact .none
    | cons c t =>
        simp only [readExponent?, Option.ite_none_right_eq_some, Option.map_eq_some_iff,
          Option.bind_eq_bind, Option.bind_eq_some_iff, Option.pure_def, Option.some.injEq,
          Bool.or_eq_true, beq_iff_eq, Text.readDigits?_eq_some_iff] at h
        obtain ⟨hc, _, ⟨n, hn, rfl⟩, rfl⟩ := h
        unfold unsigned at hn ⊢
        split at hn
        next => exact .minus hc hn
        next => exact .plus hc hn
        next => exact .plain hc hn
  · intro h
    cases h with
    | none => rfl
    | plain hc h =>
        simp [readExponent?, hc, unsigned_of_numeral h, Text.readDigits?_eq_some_iff.mpr h]
    | plus hc h | minus hc h =>
        simp [readExponent?, hc, unsigned, Text.readDigits?_eq_some_iff.mpr h]

theorem Exponent.head?_all (h : Exponent t e) : t.head?.all (!·.isDigit) = true := by
  cases h with
  | none => rfl
  | plain hc _ | plus hc _ | minus hc _ => rcases hc with rfl | rfl <;> rfl

theorem not_exponent_point : ¬ Exponent ('.' :: t) e := by
  intro h
  cases h with
  | plain hc _ | plus hc _ | minus hc _ => exact absurd hc (by decide)

inductive Magnitude : Text → Float → Prop
  | infinite {t : Text}
    (h : t.map Char.toLower = "inf".toList ∨ t.map Char.toLower = "infinity".toList) :
    Magnitude t (1 / 0)
  | notANumber {t : Text} (h : t.map Char.toLower = "nan".toList) : Magnitude t (0 / 0)
  | whole {digits exponent : Text} {n : Nat} {e : Int} (h : Text.Numeral 10 digits n)
    (he : Exponent exponent e) : Magnitude (digits ++ exponent) (scaled n e)
  | pointed {whole fraction exponent : Text} {n : Nat} {e : Int}
    (h : Text.Numeral 10 (whole ++ fraction) n) (he : Exponent exponent e) :
    Magnitude (whole ++ '.' :: (fraction ++ exponent)) (scaled n (e - fraction.length))

theorem takeWhile_digits {digits rest : Text} (h : ∀ c ∈ digits, c.isDigit = true)
    (hrest : rest.head?.all (!·.isDigit) = true) :
    (digits ++ rest).takeWhile Char.isDigit = digits ∧
      (digits ++ rest).dropWhile Char.isDigit = rest := by
  rw [List.takeWhile_append_of_pos h, List.dropWhile_append_of_pos h]
  cases rest with
  | nil => simp
  | cons c rest =>
      have hc : c.isDigit = false := by simpa using hrest
      simp [hc]

theorem toLower_of_isDigit {c : Char} (hc : c.isDigit = true) : c.toLower = c := by
  have hlarge : ¬(c.val ≥ 'A'.val ∧ c.val ≤ 'Z'.val) := by
    rintro ⟨hlow, -⟩
    simp only [Char.isDigit, Bool.and_eq_true, decide_eq_true_eq] at hc
    have hlow : 65 ≤ c.val.toNat := UInt32.le_iff_toNat_le.mp hlow
    have hhigh : c.val.toNat ≤ 57 := UInt32.le_iff_toNat_le.mp hc.2
    omega
  exact dif_neg hlarge

theorem not_name {c : Char} {t : Text} (hc : c.isDigit = true ∨ c = '.') :
    ¬((c :: t).map Char.toLower = "inf".toList ∨ (c :: t).map Char.toLower = "infinity".toList) ∧
      (c :: t).map Char.toLower ≠ "nan".toList := by
  have hhead {name : Text} {d : Char} (hname : name.head? = some d) (hd : d.isDigit = false)
      (hpoint : d ≠ '.') : (c :: t).map Char.toLower ≠ name := by
    rintro rfl
    rw [List.map_cons, List.head?_cons, Option.some.injEq] at hname
    rcases hc with hc | rfl
    · rw [toLower_of_isDigit hc] at hname
      rw [← hname, hc] at hd
      cases hd
    · exact hpoint hname.symm
  exact ⟨not_or.mpr ⟨hhead rfl (by decide) (by decide), hhead rfl (by decide) (by decide)⟩,
    hhead rfl (by decide) (by decide)⟩

theorem magnitude_of_readMagnitude? (h : readMagnitude? t = some x) : Magnitude t x := by
  simp only [readMagnitude?] at h
  split at h
  next hname =>
    cases h
    exact .infinite hname
  next =>
    split at h
    next hname =>
      cases h
      exact .notANumber hname
    next =>
      simp only [Option.bind_eq_some_iff, Option.map_eq_some_iff, Text.readDigits?_eq_some_iff,
        readExponent?_eq_some_iff] at h
      obtain ⟨n, hn, e, he, rfl⟩ := h
      have ht := List.takeWhile_append_dropWhile (p := Char.isDigit) (l := t)
      generalize t.dropWhile Char.isDigit = rest at hn he ht ⊢
      generalize t.takeWhile Char.isDigit = whole at hn ht
      subst ht
      split at hn
      next r _ _ =>
        have hr := List.takeWhile_append_dropWhile (p := Char.isDigit) (l := r)
        have hpointed : Magnitude (whole ++ '.' :: (r.takeWhile Char.isDigit ++
            r.dropWhile Char.isDigit)) _ := .pointed hn he
        rwa [hr] at hpointed
      next =>
        rw [List.append_nil] at hn
        simpa using Magnitude.whole hn he

theorem Magnitude.readMagnitude? (h : Magnitude t x) : readMagnitude? t = some x := by
  cases h with
  | infinite h => rw [Real.readMagnitude?, if_pos h]
  | notANumber h =>
      have hinf : ¬(t.map Char.toLower = "inf".toList ∨ t.map Char.toLower = "infinity".toList) := by
        rw [h]
        decide
      rw [Real.readMagnitude?, if_neg hinf, if_pos h]
  | @whole digits exponent n e h he =>
      obtain ⟨htake, hdrop⟩ := takeWhile_digits h.isDigit he.head?_all
      have hread := Text.readDigits?_eq_some_iff.mpr h
      obtain ⟨c, digits, rfl⟩ := List.exists_cons_of_ne_nil h.ne_nil
      obtain ⟨hinf, hnan⟩ := not_name (t := digits ++ exponent) (.inl (h.isDigit c List.mem_cons_self))
      rw [List.cons_append] at htake hdrop ⊢
      simp only [Real.readMagnitude?, if_neg hinf, if_neg hnan, htake, hdrop]
      have hexponent := readExponent?_eq_some_iff.mpr he
      split
      next => exact absurd he not_exponent_point
      next => simp [hread, hexponent]
  | @pointed whole fraction exponent n e h he =>
      have hdigits := h.isDigit
      rw [List.forall_mem_append] at hdigits
      have hpoint : ('.' :: (fraction ++ exponent)).head?.all (!·.isDigit) = true := rfl
      obtain ⟨htake, hdrop⟩ := takeWhile_digits hdigits.1 hpoint
      obtain ⟨htake', hdrop'⟩ := takeWhile_digits hdigits.2 he.head?_all
      have hname : ¬((whole ++ '.' :: (fraction ++ exponent)).map Char.toLower = "inf".toList ∨
          (whole ++ '.' :: (fraction ++ exponent)).map Char.toLower = "infinity".toList) ∧
          (whole ++ '.' :: (fraction ++ exponent)).map Char.toLower ≠ "nan".toList := by
        cases whole with
        | nil => exact not_name (.inr rfl)
        | cons c whole => exact not_name (.inl (hdigits.1 c List.mem_cons_self))
      simp only [Real.readMagnitude?, if_neg hname.1, if_neg hname.2, htake, hdrop, htake', hdrop',
        Text.readDigits?_eq_some_iff.mpr h, readExponent?_eq_some_iff.mpr he, Option.bind_some,
        Option.map_some]

theorem readMagnitude?_eq_some_iff : readMagnitude? t = some x ↔ Magnitude t x :=
  ⟨magnitude_of_readMagnitude?, Magnitude.readMagnitude?⟩

/-- A number with a sign or without. -/
def Spells (t : Text) (x : Float) : Prop :=
  Magnitude t x ∨ (∃ u, t = '+' :: u ∧ Magnitude u x) ∨ ∃ u y, t = '-' :: u ∧ Magnitude u y ∧ x = -y

theorem Magnitude.unsigned (h : Magnitude t x) : unsigned t = (false, t) := by
  unfold Real.unsigned
  split
  next => exact absurd h.readMagnitude? (by simp [Real.readMagnitude?, Text.readDigits?])
  next => exact absurd h.readMagnitude? (by simp [Real.readMagnitude?, Text.readDigits?])
  next => rfl

theorem read?_eq_some_iff : read? t = some x ↔ Spells t x := by
  simp only [read?, Option.map_eq_some_iff, readMagnitude?_eq_some_iff]
  constructor
  · rintro ⟨y, hy, rfl⟩
    unfold Real.unsigned at hy ⊢
    split at hy
    next u => exact .inr (.inr ⟨u, y, rfl, hy, rfl⟩)
    next u => exact .inr (.inl ⟨u, rfl, hy⟩)
    next => exact .inl hy
  · rintro (h | ⟨u, rfl, h⟩ | ⟨u, y, rfl, h, rfl⟩)
    · rw [h.unsigned]
      exact ⟨x, h, rfl⟩
    · exact ⟨x, h, rfl⟩
    · exact ⟨y, h, rfl⟩

end Real

namespace Literal

variable {kind : String} {t body digits : Text} {n : Nat} {x : Float} {v : Literal}

/-- The letters that may stand in front of a text or a character. -/
def IsFlavour (t : Text) : Prop :=
  ∀ c ∈ t, c = 'b' ∨ c = 'c'

def Quoted (quote : Char) (t body : Text) : Prop :=
  ∃ flavour, IsFlavour flavour ∧ t = flavour ++ quote :: (body ++ [quote])

/-- A body between two quotes, with as many hashes behind as in front. -/
def Raw (t body : Text) : Prop :=
  ∃ flavour hashes, IsFlavour flavour ∧ (∀ c ∈ hashes, c = '#') ∧
    t = flavour ++ 'r' :: (hashes ++ '"' :: (body ++ '"' :: hashes))

theorem withoutFlavour_append {flavour rest : Text} {c : Char} (h : IsFlavour flavour)
    (hc : c ≠ 'b' ∧ c ≠ 'c') : withoutFlavour (flavour ++ c :: rest) = c :: rest := by
  rw [withoutFlavour, List.dropWhile_append_of_pos (fun d hd => by simpa using h d hd),
    List.dropWhile_cons_of_neg (by simpa using hc)]

theorem exists_flavour (t : Text) : ∃ flavour, IsFlavour flavour ∧ t = flavour ++ withoutFlavour t := by
  refine ⟨_, fun c hc => ?_, List.takeWhile_append_dropWhile.symm⟩
  simpa using List.mem_takeWhile_imp hc

theorem quotedBody?_eq_some_iff {quote : Char} (hquote : quote ≠ 'b' ∧ quote ≠ 'c') :
    quotedBody? quote t = some body ↔ Quoted quote t body := by
  simp only [quotedBody?, Option.bind_eq_some_iff, Text.afterFirst?_iff, Text.beforeLast?_iff]
  constructor
  · rintro ⟨_, ht, rfl⟩
    obtain ⟨flavour, hflavour, heq⟩ := exists_flavour t
    rw [ht] at heq
    exact ⟨flavour, hflavour, heq⟩
  · rintro ⟨flavour, hflavour, rfl⟩
    exact ⟨_, withoutFlavour_append hflavour hquote, rfl⟩

theorem rawBody?_eq_some_iff : rawBody? t = some body ↔ Raw t body := by
  simp only [rawBody?, Option.bind_eq_some_iff, Text.afterFirst?_iff, Text.beforeLast?_iff]
  constructor
  · rintro ⟨marked, ht, _, hmarked, rfl⟩
    obtain ⟨flavour, hflavour, heq⟩ := exists_flavour t
    refine ⟨flavour, marked.takeWhile (· == '#'), hflavour, fun c hc => ?_, ?_⟩
    · simpa using List.mem_takeWhile_imp hc
    · calc t = flavour ++ 'r' :: (marked.takeWhile (· == '#') ++ marked.dropWhile (· == '#')) := by
            rw [List.takeWhile_append_dropWhile, heq, ht]
            rfl
        _ = _ := by
            rw [hmarked]
            rfl
  · rintro ⟨flavour, hashes, hflavour, hhashes, rfl⟩
    have htake : (hashes ++ '"' :: (body ++ '"' :: hashes)).takeWhile (· == '#') = hashes := by
      rw [List.takeWhile_append_of_pos (by simpa using hhashes)]
      simp
    have hdrop : (hashes ++ '"' :: (body ++ '"' :: hashes)).dropWhile (· == '#') =
        '"' :: (body ++ '"' :: hashes) := by
      rw [List.dropWhile_append_of_pos (by simpa using hhashes)]
      simp
    exact ⟨_, withoutFlavour_append hflavour (by decide), _, hdrop,
      congrArg (body ++ '"' :: ·) htake.symm⟩

/-- An integer without underscores and type, in the radix that its first two characters tell. -/
inductive Integer : Text → Nat → Prop
  | hexadecimal {digits : Text} {n : Nat} (h : Text.Unsigned 16 integerBound digits n) :
    Integer ('0' :: 'x' :: digits) n
  | octal {digits : Text} {n : Nat} (h : Text.Unsigned 8 integerBound digits n) :
    Integer ('0' :: 'o' :: digits) n
  | binary {digits : Text} {n : Nat} (h : Text.Unsigned 2 integerBound digits n) :
    Integer ('0' :: 'b' :: digits) n
  | decimal {digits : Text} {n : Nat} (h : Text.Unsigned 10 integerBound digits n) :
    Integer digits n

theorem readInteger?_eq_some_iff :
    readInteger? t = some n ↔ Integer ((withoutIntegerType t).filter (· != '_')) n := by
  simp only [readInteger?]
  generalize (withoutIntegerType t).filter (· != '_') = u
  constructor
  · intro h
    split at h
    next => exact .hexadecimal (Text.readUnsigned?_eq_some_iff.mp h)
    next => exact .octal (Text.readUnsigned?_eq_some_iff.mp h)
    next => exact .binary (Text.readUnsigned?_eq_some_iff.mp h)
    next => exact .decimal (Text.readUnsigned?_eq_some_iff.mp h)
  · intro h
    cases h with
    | hexadecimal h | octal h | binary h => exact Text.readUnsigned?_eq_some_iff.mpr h
    | decimal h =>
        have hread := Text.readUnsigned?_eq_some_iff.mpr h
        have hletter (c : Char) (rest : Text) (hc : Text.digitValue? c = none ∨
            Text.digitValue? c = some 11) :
            Text.readUnsigned? 10 integerBound ('0' :: c :: rest) = none := by
          have hzero : Text.digitValue? '0' = some 0 := by decide
          rcases hc with hc | hc <;>
            simp [Text.readUnsigned?, Text.readDigits?, Text.readDigitsAfter?, hzero, hc]
        split
        next rest => simp [hletter 'x' rest (.inl (by decide))] at hread
        next rest => simp [hletter 'o' rest (.inl (by decide))] at hread
        next rest => simp [hletter 'b' rest (.inr (by decide))] at hread
        next => exact hread

/-- The value that a text has as a literal of a kind. -/
inductive Denotes : String → Text → Literal → Prop
  | true : Denotes "boolean_literal" "true".toList (.boolean true)
  | false : Denotes "boolean_literal" "false".toList (.boolean false)
  | integer {t : Text} {n : Nat} (ht : hasRealType t = false)
    (h : Integer ((withoutIntegerType t).filter (· != '_')) n) :
    Denotes "integer_literal" t (.integer n)
  | wholeReal {t : Text} {x : Float} (ht : hasRealType t = true)
    (h : Real.Spells ((withoutRealType t).filter (· != '_')) x) :
    Denotes "integer_literal" t (.real x)
  | real {t : Text} {x : Float} (h : Real.Spells ((withoutRealType t).filter (· != '_')) x) :
    Denotes "float_literal" t (.real x)
  | character {t body : Text} {c : Char} (ht : Quoted '\'' t body) (h : Escape.Decodes body [c]) :
    Denotes "char_literal" t (.character c)
  | string {t body u : Text} (ht : Quoted '"' t body) (h : Escape.Decodes body u) :
    Denotes "string_literal" t (.string u)
  | raw {t body : Text} (ht : Raw t body) : Denotes "raw_string_literal" t (.string body)

theorem ofOption_eq_iff {α : Type} {make : α → Literal} {value : Option α} (hv : v ≠ unknown) :
    ofOption make value = v ↔ ∃ a, value = some a ∧ make a = v := by
  cases value with
  | none => exact iff_of_false (fun h => hv h.symm) (by simp)
  | some a => simp [ofOption]

theorem denotes_iff : Denotes kind t v ↔ read kind t = v ∧ v ≠ unknown := by
  constructor
  · intro h
    refine ⟨?_, by cases h <;> exact nofun⟩
    cases h with
    | true => rfl
    | false => rfl
    | integer ht h => simp [read, ht, ofOption, readInteger?_eq_some_iff.mpr h]
    | wholeReal ht h => simp [read, ht, ofOption, readReal?, Real.read?_eq_some_iff.mpr h]
    | real h => simp [read, ofOption, readReal?, Real.read?_eq_some_iff.mpr h]
    | character ht h =>
        simp [read, (quotedBody?_eq_some_iff (by decide)).mpr ht, Escape.decode?_eq_some_iff.mpr h]
    | string ht h =>
        simp [read, ofOption, (quotedBody?_eq_some_iff (by decide)).mpr ht,
          Escape.decode?_eq_some_iff.mpr h]
    | raw ht => simp [read, ofOption, rawBody?_eq_some_iff.mpr ht]
  · rintro ⟨hread, hv⟩
    unfold read at hread
    split at hread
    next =>
      split at hread
      next ht =>
        subst ht hread
        exact .true
      next =>
        split at hread
        next ht =>
          subst ht hread
          exact .false
        next => exact absurd hread.symm hv
    next =>
      split at hread
      next ht =>
        obtain ⟨x, hx, rfl⟩ := (ofOption_eq_iff hv).mp hread
        exact .wholeReal ht (Real.read?_eq_some_iff.mp hx)
      next ht =>
        obtain ⟨n, hn, rfl⟩ := (ofOption_eq_iff hv).mp hread
        exact .integer (Bool.eq_false_iff.mpr ht) (readInteger?_eq_some_iff.mp hn)
    next =>
      obtain ⟨x, hx, rfl⟩ := (ofOption_eq_iff hv).mp hread
      exact .real (Real.read?_eq_some_iff.mp hx)
    next =>
      split at hread
      next hc =>
        subst hread
        obtain ⟨body, hbody, hdecode⟩ := Option.bind_eq_some_iff.mp hc
        exact .character ((quotedBody?_eq_some_iff (by decide)).mp hbody)
          (Escape.decode?_eq_some_iff.mp hdecode)
      next => exact absurd hread.symm hv
    next =>
      obtain ⟨u, hu, rfl⟩ := (ofOption_eq_iff hv).mp hread
      obtain ⟨body, hbody, hdecode⟩ := Option.bind_eq_some_iff.mp hu
      exact .string ((quotedBody?_eq_some_iff (by decide)).mp hbody)
        (Escape.decode?_eq_some_iff.mp hdecode)
    next =>
      obtain ⟨body, hbody, rfl⟩ := (ofOption_eq_iff hv).mp hread
      exact .raw (rawBody?_eq_some_iff.mp hbody)
    next => exact absurd hread.symm hv

theorem read_eq_unknown_iff : read kind t = unknown ↔ ∀ v, ¬ Denotes kind t v := by
  constructor
  · intro h v hv
    obtain ⟨hread, hne⟩ := denotes_iff.mp hv
    exact hne (hread.symm.trans h)
  · intro h
    by_contra hne
    exact h _ (denotes_iff.mpr ⟨rfl, hne⟩)

end Literal

end ShapeSearch
