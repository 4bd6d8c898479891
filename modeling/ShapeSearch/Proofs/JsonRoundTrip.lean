import Mathlib.Data.List.TakeWhile
import ShapeSearch.Json.Reading
import ShapeSearch.Proofs.Numerals

namespace ShapeSearch.Json

/-- A value whose numbers are written as numbers are. -/
inductive Valid : Json → Prop
  | null : Valid .null
  | bool (b : Bool) : Valid (.bool b)
  | number {digits : Text} (h : Token.isNumber digits = true) : Valid (.number digits)
  | string (t : Text) : Valid (.string t)
  | array {items : List Json} (h : ∀ j ∈ items, Valid j) : Valid (.array items)
  | object {members : List (Text × Json)} (h : ∀ m ∈ members, Valid m.2) : Valid (.object members)

section Quoted

variable {c : Char} {t rest : Text}

theorem readQuoted?_backslash (letters : Text)
    (h : readEscape? (letters ++ rest) = some (c, letters.length)) :
    readQuoted? ('\\' :: (letters ++ rest)) =
      (readQuoted? rest).map fun (s, n) => (c :: s, n + letters.length + 1) := by
  rw [readQuoted?, h]
  simp

theorem readQuoted?_plain (hquote : c ≠ '"') (hslash : c ≠ '\\') (hc : 32 ≤ c.toNat) :
    readQuoted? (c :: rest) = (readQuoted? rest).map fun (s, n) => (c :: s, n + 1) := by
  rw [readQuoted?, if_neg (Nat.not_lt.mpr hc)]
  · exact fun h => hquote h
  · exact fun h => hslash h

theorem readEscape?_letter {letter : Char} (h : controlLetters.lookup c = some letter) :
    readEscape? (letter :: rest) = some (c, 1) := by
  have hletters : ∀ p ∈ controlLetters, readEscape? (p.2 :: rest) = some (p.1, 1) := by
    simp [controlLetters, readEscape?]
  obtain ⟨before, after, hmem, -⟩ := List.lookup_eq_some_iff.mp h
  exact hletters (c, letter) (hmem ▸ List.mem_append_right before List.mem_cons_self)

theorem readEscape?_control (hc : c.toNat < 32) :
    readEscape? (['u', '0', '0', hexDigit (c.toNat / 16), hexDigit (c.toNat % 16)] ++ rest) =
      some (c, 5) := by
  have hunits : ∀ n < 32, Text.readDigits? 16 ['0', '0', hexDigit (n / 16), hexDigit (n % 16)] =
      some n := by
    decide
  have hunit : readUnit? (['0', '0', hexDigit (c.toNat / 16), hexDigit (c.toNat % 16)] ++ rest) =
      some c.toNat := by
    rw [readUnit?, if_neg (by simp)]
    exact hunits c.toNat hc
  have hsmall : c.toNat < 0xD800 ∨ 0xDFFF < c.toNat := .inl (by omega)
  rw [List.cons_append, readEscape?, readUnits?, hunit, Option.bind_some, if_pos hsmall]
  simp

theorem readQuoted?_escape (c : Char) (rest : Text) : readQuoted? (escape c ++ rest) =
    (readQuoted? rest).map fun (s, n) => (c :: s, n + (escape c).length) := by
  rw [escape]
  split
  next h =>
    subst h
    exact readQuoted?_backslash ['"'] rfl
  next hquote =>
    split
    next h =>
      subst h
      exact readQuoted?_backslash ['\\'] rfl
    next hslash =>
      split
      next letter h => exact readQuoted?_backslash [letter] (readEscape?_letter h)
      next =>
        split
        next hc => exact readQuoted?_backslash _ (readEscape?_control hc)
        next hc => exact readQuoted?_plain hquote hslash (Nat.not_lt.mp hc)

theorem readQuoted?_flatMap_escape (t rest : Text) :
    readQuoted? (t.flatMap escape ++ '"' :: rest) = some (t, (t.flatMap escape).length + 1) := by
  induction t with
  | nil => rw [List.flatMap_nil, List.nil_append, readQuoted?]; rfl
  | cons c t ih =>
      rw [List.flatMap_cons, List.append_assoc, readQuoted?_escape, ih, List.length_append,
        Option.map_some]
      simp only [Option.some.injEq, Prod.mk.injEq, true_and]
      omega

end Quoted

section Scalars

open Token

variable {c : Char} {t rest : Text}

theorem isScalarChar_of_isDigits (h : isDigits t = true) : ∀ c ∈ t, isScalarChar c = true := by
  intro c hc
  rw [isDigits, Bool.and_eq_true, List.all_eq_true] at h
  simp [isScalarChar, Char.isAlphanum, h.2 c hc]

theorem isScalarChar_of_isExponent (h : isExponent t = true) : ∀ c ∈ t, isScalarChar c = true := by
  unfold isExponent at h
  split at h
  · exact List.forall_mem_cons.mpr ⟨by decide, isScalarChar_of_isDigits h⟩
  · exact List.forall_mem_cons.mpr ⟨by decide, isScalarChar_of_isDigits h⟩
  · exact isScalarChar_of_isDigits h

theorem isScalarChar_of_isPower (h : isTail.isPower t = true) : ∀ c ∈ t, isScalarChar c = true := by
  cases t with
  | nil => simp
  | cons c t =>
      simp only [isTail.isPower, Bool.and_eq_true, Bool.or_eq_true, beq_iff_eq] at h
      obtain ⟨rfl | rfl, h⟩ := h
      · exact List.forall_mem_cons.mpr ⟨by decide, isScalarChar_of_isExponent h⟩
      · exact List.forall_mem_cons.mpr ⟨by decide, isScalarChar_of_isExponent h⟩

theorem forall_mem_of_span {p q : Char → Bool} (hfirst : ∀ c ∈ t.takeWhile p, q c = true)
    (hrest : ∀ c ∈ t.dropWhile p, q c = true) : ∀ c ∈ t, q c = true := by
  rw [← List.takeWhile_append_dropWhile (p := p) (l := t)]
  exact List.forall_mem_append.mpr ⟨hfirst, hrest⟩

theorem isScalarChar_of_isTail (h : isTail t = true) : ∀ c ∈ t, isScalarChar c = true := by
  unfold isTail at h
  split at h
  · simp
  · rw [Bool.and_eq_true] at h
    refine List.forall_mem_cons.mpr ⟨by decide, ?_⟩
    exact forall_mem_of_span (isScalarChar_of_isDigits h.1) (isScalarChar_of_isPower h.2)
  · exact isScalarChar_of_isPower h

theorem isScalarChar_of_whole (h : (isDigits (t.takeWhile Char.isDigit) &&
    isTail (t.dropWhile Char.isDigit)) = true) : ∀ c ∈ t, isScalarChar c = true := by
  rw [Bool.and_eq_true] at h
  exact forall_mem_of_span (isScalarChar_of_isDigits h.1) (isScalarChar_of_isTail h.2)

theorem isScalarChar_of_isNumber (h : isNumber t = true) : ∀ c ∈ t, isScalarChar c = true := by
  unfold isNumber at h
  split at h
  · refine List.forall_mem_cons.mpr ⟨by decide, ?_⟩
    dsimp only at h
    split at h
    · exact List.forall_mem_cons.mpr ⟨by decide, isScalarChar_of_isTail h⟩
    · exact isScalarChar_of_whole h
  · dsimp only at h
    split at h
    · exact List.forall_mem_cons.mpr ⟨by decide, isScalarChar_of_isTail h⟩
    · exact isScalarChar_of_whole h

theorem ne_nil_of_isNumber (h : isNumber t = true) : t ≠ [] := by
  rintro rfl
  cases h

theorem scalar?_of_isNumber (h : isNumber t = true) : scalar? t = some (.number t) := by
  unfold scalar?
  split
  · exact absurd h (by decide)
  · exact absurd h (by decide)
  · exact absurd h (by decide)
  · rw [if_pos h]

theorem isDigits_decimal (n : Nat) : isDigits (Text.decimal n) = true := by
  rw [isDigits, Bool.and_eq_true, List.all_eq_true]
  exact ⟨by simpa using Text.decimal_ne_nil n, Text.decimal_digits⟩

theorem isNumber_decimal (n : Nat) : isNumber (Text.decimal n) = true := by
  have hdigits := Text.decimal_digits (n := n)
  have htake : (Text.decimal n).takeWhile Char.isDigit = Text.decimal n :=
    List.takeWhile_eq_self_iff.mpr hdigits
  have hdrop : (Text.decimal n).dropWhile Char.isDigit = [] := by simpa using hdigits
  rcases Nat.eq_zero_or_pos n with rfl | hn
  · decide
  · have hhead := Text.head?_decimal_ne hn
    unfold isNumber
    split
    next heq => exact absurd (hdigits '-' (heq ▸ List.mem_cons_self)) (by decide)
    next =>
      dsimp only
      split
      next heq => exact absurd (heq ▸ rfl) hhead
      next => rw [htake, hdrop, isDigits_decimal]; rfl

theorem valid_natural (n : Nat) : Valid (natural n) :=
  .number (isNumber_decimal n)

theorem read?_of_isScalarChar (hc : isScalarChar c = true) : isBlank c = false ∧ Token.read? c t =
    (scalar? (c :: t.takeWhile isScalarChar)).map fun value =>
      (.scalar value, (t.takeWhile isScalarChar).length) := by
  have hne {d : Char} (hd : isScalarChar d = false) : c ≠ d := by
    rintro rfl
    rw [hc] at hd
    cases hd
  refine ⟨?_, ?_⟩
  · simp [isBlank, hne (d := ' ') (by decide), hne (d := '\n') (by decide),
      hne (d := '\t') (by decide), hne (d := '\r') (by decide)]
  · unfold Token.read?
    split
    case h_8 => rfl
    all_goals exact absurd hc (by decide)

end Scalars

def Reading.readFrom? (s : Reading) (t : Text) : Option Reading :=
  (Token.readAll? t).bind s.steps?

namespace Reading

variable {s next : Reading} {token : Token} {around : List Around} {c : Char} {t rest : Text}

/-- Whether every value may come next. -/
def Awaits (s : Reading) (around : List Around) : Prop :=
  ∀ token next, beginValue? around token = some next → s.step? token = some next

theorem awaits_value (around : List Around) : (⟨.value, around⟩ : Reading).Awaits around :=
  fun _ _ h => h

theorem awaits_itemOrClose (around : List Around) (frame : Around) :
    (⟨.itemOrClose, frame :: around⟩ : Reading).Awaits (frame :: around) := by
  intro token next h
  cases token <;> first | exact h | cases h

theorem readFrom?_of_read? {n : Nat} (hblank : Token.isBlank c = false)
    (hread : Token.read? c t = some (token, n)) (hstep : s.step? token = some next) :
    s.readFrom? (c :: t) = next.readFrom? (t.drop n) := by
  rw [readFrom?, readFrom?, Token.readAll?, hblank]
  simp only [Bool.false_eq_true, if_false, hread]
  cases Token.readAll? (t.drop n) with
  | none => rfl
  | some tokens => simp [steps?, hstep]

theorem readFrom?_mark (c : Char) (hblank : Token.isBlank c = false)
    (hread : ∀ t, Token.read? c t = some (token, 0)) (hstep : s.step? token = some next) :
    s.readFrom? (c :: rest) = next.readFrom? rest :=
  readFrom?_of_read? hblank (hread rest) hstep

theorem readFrom?_quote (name rest : Text) (hstep : s.step? (.string name) = some next) :
    s.readFrom? (quote name ++ rest) = next.readFrom? rest := by
  have hread : Token.read? '"' (name.flatMap escape ++ '"' :: rest) =
      some (.string name, (name.flatMap escape).length + 1) := by
    simp only [Token.read?, readQuoted?_flatMap_escape, Option.map_some]
  rw [quote, List.cons_append, List.cons_append, List.append_assoc, List.singleton_append,
    readFrom?_of_read? (by decide) hread hstep, List.append_cons, List.drop_left' (by simp)]

theorem readFrom?_scalar {value : Json} (hne : t ≠ []) (ht : ∀ c ∈ t, Token.isScalarChar c = true)
    (hvalue : Token.scalar? t = some value)
    (hrest : rest.head?.all (!Token.isScalarChar ·) = true)
    (hstep : s.step? (.scalar value) = some next) :
    s.readFrom? (t ++ rest) = next.readFrom? rest := by
  obtain ⟨c, t, rfl⟩ := List.exists_cons_of_ne_nil hne
  obtain ⟨hc, ht⟩ := List.forall_mem_cons.mp ht
  have hnone : rest.takeWhile Token.isScalarChar = [] := by
    cases rest with
    | nil => rfl
    | cons c t => simpa using hrest
  have htake : (t ++ rest).takeWhile Token.isScalarChar = t := by
    rw [List.takeWhile_append_of_pos ht, hnone, List.append_nil]
  obtain ⟨hblank, hread⟩ := read?_of_isScalarChar (t := t ++ rest) hc
  rw [htake, hvalue, Option.map_some] at hread
  rw [List.cons_append, readFrom?_of_read? hblank hread hstep, List.drop_left]

theorem readFrom?_items {items : List Json} (hne : items ≠ []) (before : List Json)
    (hitems : ∀ j ∈ items, ∀ {s : Reading} {around : List Around} {rest : Text}, s.Awaits around →
      rest.head?.all (!Token.isScalarChar ·) = true →
      s.readFrom? (written j ++ rest) = (⟨.done j, around⟩ : Reading).readFrom? rest)
    (hs : s.Awaits (.array before :: around)) (rest : Text) :
    s.readFrom? (writtenItems items ++ ']' :: rest) =
      (⟨.done (.array (before ++ items)), around⟩ : Reading).readFrom? rest := by
  induction items generalizing s before with
  | nil => exact absurd rfl hne
  | cons j items ih =>
      obtain ⟨hj, hitems⟩ := List.forall_mem_cons.mp hitems
      cases items with
      | nil =>
          rw [writtenItems, hj hs rfl]
          exact readFrom?_mark ']' rfl (fun _ => rfl) rfl
      | cons k items =>
          rw [writtenItems, List.append_assoc, hj hs rfl, List.cons_append,
            readFrom?_mark ',' rfl (fun _ => rfl) rfl,
            ih (List.cons_ne_nil k items) (before ++ [j]) hitems (awaits_value _),
            List.append_assoc, List.singleton_append]

theorem readFrom?_members {members : List (Text × Json)} (hne : members ≠ [])
    (before : List (Text × Json))
    (hmembers : ∀ m ∈ members, ∀ {s : Reading} {around : List Around} {rest : Text},
      s.Awaits around → rest.head?.all (!Token.isScalarChar ·) = true →
      s.readFrom? (written m.2 ++ rest) = (⟨.done m.2, around⟩ : Reading).readFrom? rest)
    (hs : ∀ name, s.step? (.string name) = some ⟨.colon before name, around⟩) (rest : Text) :
    s.readFrom? (writtenMembers members ++ '\x7d' :: rest) =
      (⟨.done (.object (before ++ members)), around⟩ : Reading).readFrom? rest := by
  induction members generalizing s before with
  | nil => exact absurd rfl hne
  | cons m members ih =>
      obtain ⟨name, j⟩ := m
      obtain ⟨hm, hmembers⟩ := List.forall_mem_cons.mp hmembers
      have hmember (rest : Text) (hrest : rest.head?.all (!Token.isScalarChar ·) = true) :
          s.readFrom? (quote name ++ ':' :: (written j ++ rest)) =
            (⟨.done j, .object before name :: around⟩ : Reading).readFrom? rest := by
        rw [readFrom?_quote name _ (hs name), readFrom?_mark ':' rfl (fun _ => rfl) rfl,
          hm (awaits_value _) hrest]
      cases members with
      | nil =>
          rw [writtenMembers, List.append_assoc, List.cons_append, hmember _ rfl]
          exact readFrom?_mark '\x7d' rfl (fun _ => rfl) rfl
      | cons n members =>
          rw [writtenMembers, List.append_assoc, List.append_assoc, List.cons_append,
            List.cons_append, hmember _ rfl, readFrom?_mark ',' rfl (fun _ => rfl) rfl,
            ih (List.cons_ne_nil n members) (before ++ [(name, j)]) hmembers fun _ => rfl,
            List.append_assoc, List.singleton_append]

theorem readFrom?_written {j : Json} (h : Valid j) (hs : s.Awaits around)
    (hrest : rest.head?.all (!Token.isScalarChar ·) = true) :
    s.readFrom? (written j ++ rest) = (⟨.done j, around⟩ : Reading).readFrom? rest := by
  induction h generalizing s around rest with
  | null => exact readFrom?_scalar (by decide) (List.all_eq_true.mp rfl) rfl hrest (hs _ _ rfl)
  | bool b =>
      cases b with
      | false => exact readFrom?_scalar (by decide) (List.all_eq_true.mp rfl) rfl hrest (hs _ _ rfl)
      | true => exact readFrom?_scalar (by decide) (List.all_eq_true.mp rfl) rfl hrest (hs _ _ rfl)
  | number h =>
      exact readFrom?_scalar (ne_nil_of_isNumber h) (isScalarChar_of_isNumber h)
        (scalar?_of_isNumber h) hrest (hs _ _ rfl)
  | string t => exact readFrom?_quote t rest (hs _ _ rfl)
  | @array items _ ih =>
      rw [written, List.cons_append, List.cons_append, List.append_assoc,
        readFrom?_mark '[' rfl (fun _ => rfl) (hs .openArray _ rfl), List.singleton_append]
      cases items with
      | nil => exact readFrom?_mark ']' rfl (fun _ => rfl) rfl
      | cons k items =>
          exact readFrom?_items (List.cons_ne_nil k items) [] ih (awaits_itemOrClose _ _) rest
  | @object members _ ih =>
      rw [written, List.cons_append, List.cons_append, List.append_assoc,
        readFrom?_mark '\x7b' rfl (fun _ => rfl) (hs .openObject _ rfl), List.singleton_append]
      cases members with
      | nil => exact readFrom?_mark '\x7d' rfl (fun _ => rfl) rfl
      | cons m members =>
          exact readFrom?_members (List.cons_ne_nil m members) [] ih (fun _ => rfl) rest

end Reading

/-- A value is read back from what is written of it. -/
theorem read?_written {j : Json} (h : Valid j) : read? (written j) = some j := by
  have hread : Reading.start.readFrom? (written j ++ []) =
      (⟨.done j, []⟩ : Reading).readFrom? [] :=
    Reading.readFrom?_written h (Reading.awaits_value []) rfl
  have hdone : (⟨.done j, []⟩ : Reading).readFrom? [] = some ⟨.done j, []⟩ := by
    rw [Reading.readFrom?, Token.readAll?]
    rfl
  rw [List.append_nil, hdone] at hread
  exact congrArg (Option.bind · Reading.finish?) hread

section Printable

theorem printable_of_isScalarChar {c : Char} (h : Token.isScalarChar c = true) : 32 ≤ c.toNat := by
  by_contra hc
  have hsmall : ∀ n < 32, Token.isScalarChar (Char.ofNat n) = false := by decide
  rw [← Char.ofNat_toNat c, hsmall c.toNat (by omega)] at h
  cases h

theorem printable_of_all {t : Text} (h : (t.all fun c => 32 ≤ c.toNat) = true) :
    ∀ c ∈ t, 32 ≤ c.toNat :=
  fun c hc => of_decide_eq_true (List.all_eq_true.mp h c hc)

theorem printable_escape (c : Char) : ∀ d ∈ escape c, 32 ≤ d.toNat := by
  apply printable_of_all
  rw [escape]
  split
  next => rfl
  next =>
    split
    next => rfl
    next =>
      split
      next letter h =>
        have hletters : ∀ p ∈ controlLetters, (['\\', p.2].all fun d => 32 ≤ d.toNat) = true := by
          decide
        obtain ⟨before, after, hmem, -⟩ := List.lookup_eq_some_iff.mp h
        have hletter : (c, letter) ∈ controlLetters :=
          hmem ▸ List.mem_append_right before List.mem_cons_self
        exact hletters (c, letter) hletter
      next =>
        split
        next hc =>
          have hunits : ∀ n < 32, (['\\', 'u', '0', '0', hexDigit (n / 16), hexDigit (n % 16)].all
              fun d => 32 ≤ d.toNat) = true := by
            decide
          exact hunits c.toNat hc
        next hc => simpa using hc

theorem printable_quote (t : Text) : ∀ c ∈ quote t, 32 ≤ c.toNat := by
  have hescaped : ∀ c ∈ t.flatMap escape, 32 ≤ c.toNat := by
    intro c hc
    obtain ⟨d, -, hd⟩ := List.mem_flatMap.mp hc
    exact printable_escape d c hd
  exact List.forall_mem_append.mpr
    ⟨List.forall_mem_cons.mpr ⟨by decide, hescaped⟩, printable_of_all rfl⟩

theorem printable_items {items : List Json} (h : ∀ j ∈ items, ∀ c ∈ written j, 32 ≤ c.toNat) :
    ∀ c ∈ writtenItems items, 32 ≤ c.toNat := by
  induction items with
  | nil => simp [writtenItems]
  | cons j items ih =>
      obtain ⟨hj, hitems⟩ := List.forall_mem_cons.mp h
      cases items with
      | nil => rwa [writtenItems]
      | cons k items =>
          rw [writtenItems]
          exact List.forall_mem_append.mpr
            ⟨hj, List.forall_mem_cons.mpr ⟨by decide, ih hitems⟩⟩

theorem printable_members {members : List (Text × Json)}
    (h : ∀ m ∈ members, ∀ c ∈ written m.2, 32 ≤ c.toNat) :
    ∀ c ∈ writtenMembers members, 32 ≤ c.toNat := by
  induction members with
  | nil => simp [writtenMembers]
  | cons m members ih =>
      obtain ⟨name, j⟩ := m
      obtain ⟨hm, hmembers⟩ := List.forall_mem_cons.mp h
      have hmember : ∀ c ∈ quote name ++ ':' :: written j, 32 ≤ c.toNat :=
        List.forall_mem_append.mpr
          ⟨printable_quote name, List.forall_mem_cons.mpr ⟨by decide, hm⟩⟩
      cases members with
      | nil => rwa [writtenMembers]
      | cons n members =>
          rw [writtenMembers]
          exact List.forall_mem_append.mpr
            ⟨hmember, List.forall_mem_cons.mpr ⟨by decide, ih hmembers⟩⟩

theorem printable_written {j : Json} (h : Valid j) : ∀ c ∈ written j, 32 ≤ c.toNat := by
  induction h with
  | null => exact printable_of_all rfl
  | bool b => cases b <;> exact printable_of_all rfl
  | number h => exact fun c hc => printable_of_isScalarChar (isScalarChar_of_isNumber h c hc)
  | string t => exact printable_quote t
  | array _ ih =>
      rw [written]
      exact List.forall_mem_append.mpr
        ⟨List.forall_mem_cons.mpr ⟨by decide, printable_items ih⟩, printable_of_all rfl⟩
  | object _ ih =>
      rw [written]
      exact List.forall_mem_append.mpr
        ⟨List.forall_mem_cons.mpr ⟨by decide, printable_members ih⟩, printable_of_all rfl⟩

end Printable

end ShapeSearch.Json
