import ShapeSearch.Proofs.LiteralValues

namespace ShapeSearch

namespace Text

variable {radix n : Nat} {t : Text}

def digitRows : List Text :=
  ["0123456789abcdef".toList, "0123456789ABCDEF".toList]

def IsDigit (c : Char) (d : Nat) : Prop :=
  ∃ row ∈ digitRows, (c, d) ∈ row.zipIdx

instance (c : Char) (d : Nat) : Decidable (IsDigit c d) :=
  inferInstanceAs (Decidable (∃ row ∈ digitRows, (c, d) ∈ row.zipIdx))

/-- A number in digits of a radix, the first of which counts most. -/
def SpellsNumber (radix : Nat) (t : Text) (n : Nat) : Prop :=
  ∃ ds, List.Forall₂ (fun c d => IsDigit c d ∧ d < radix) t ds ∧ t ≠ [] ∧
    Nat.ofDigits radix ds.reverse = n

theorem IsDigit.digitValue? {c : Char} {d : Nat} (h : IsDigit c d) : digitValue? c = some d := by
  have hrows : ∀ row ∈ digitRows, ∀ p ∈ row.zipIdx, Text.digitValue? p.1 = some p.2 := by decide
  obtain ⟨row, hrow, hc⟩ := h
  exact hrows row hrow _ hc

theorem SpellsNumber.numeral (h : SpellsNumber radix t n) : Numeral radix t n := by
  obtain ⟨ds, hds, hne, hn⟩ := h
  exact ⟨ds, hds.imp fun _ _ hd => ⟨hd.1.digitValue?, hd.2⟩, hne, hn⟩

theorem SpellsNumber.exists_digit (h : SpellsNumber radix t n) {c : Char} (hc : c ∈ t) :
    ∃ d, IsDigit c d ∧ d < radix := by
  obtain ⟨ds, hds, -, -⟩ := h
  induction hds with
  | nil => cases hc
  | cons hd _ ih =>
      rcases List.mem_cons.mp hc with rfl | hc
      · exact ⟨_, hd⟩
      · exact ih hc

theorem SpellsNumber.underscore_or_digit (h : SpellsNumber radix (t.filter (· != '_')) n) {c : Char}
    (hc : c ∈ t) : c = '_' ∨ ∃ d, IsDigit c d ∧ d < radix := by
  by_cases hunderscore : c = '_'
  · exact .inl hunderscore
  · refine .inr (h.exists_digit (List.mem_filter.mpr ⟨hc, ?_⟩))
    simpa using hunderscore

end Text

namespace Literal

variable {mark digits body type t : Text} {radix n : Nat}

/-- What stands in front of the digits of an integer, and the radix that it tells. -/
inductive Mark : Text → Nat → Prop
  | decimal : Mark [] 10
  | hexadecimal : Mark ['0', 'x'] 16
  | octal : Mark ['0', 'o'] 8
  | binary : Mark ['0', 'b'] 2

def integerWidths : List Text :=
  ["8", "16", "32", "64", "128", "size"].map String.toList

inductive IsIntegerType : Text → Prop
  | none : IsIntegerType []
  | signed {width : Text} (h : width ∈ integerWidths) : IsIntegerType ('i' :: width)
  | unsigned {width : Text} (h : width ∈ integerWidths) : IsIntegerType ('u' :: width)

/-- An integer with any number of zeros in front and with underscores among its digits, but for the
place in front of the first decimal digit. -/
inductive SpellsInteger : Text → Nat → Prop
  | spelling {mark digits type : Text} {radix n : Nat} (hmark : Mark mark radix)
    (hdigits : Text.SpellsNumber radix (digits.filter (· != '_')) n)
    (hfirst : mark = [] → digits.head? ≠ some '_') (htype : IsIntegerType type) :
    SpellsInteger (mark ++ (digits ++ type)) n

section Types

theorem IsIntegerType.eq_nil_or_mem (h : IsIntegerType type) : type = [] ∨ type ∈ integerTypes := by
  have hsigned : ∀ width ∈ integerWidths, 'i' :: width ∈ integerTypes := by decide
  have hunsigned : ∀ width ∈ integerWidths, 'u' :: width ∈ integerTypes := by decide
  cases h with
  | none => exact .inl rfl
  | signed h => exact .inr (hsigned _ h)
  | unsigned h => exact .inr (hunsigned _ h)

theorem integerTypes_suffixes : ∀ type ∈ integerTypes, ∀ type' ∈ integerTypes,
    type' <:+ type → type' = type := by
  decide

theorem integerTypes_heads : ∀ type ∈ integerTypes, type.head? = some 'u' ∨ type.head? = some 'i' := by
  decide

theorem head_of_mem_integerTypes (h : type ∈ integerTypes) : ∃ c rest, type = c :: rest ∧
    (c = 'u' ∨ c = 'i') := by
  rcases integerTypes_heads type h with hhead | hhead
  · obtain ⟨rest, rfl⟩ := List.head?_eq_some_iff.mp hhead
    exact ⟨'u', rest, rfl, .inl rfl⟩
  · obtain ⟨rest, rfl⟩ := List.head?_eq_some_iff.mp hhead
    exact ⟨'i', rest, rfl, .inr rfl⟩

theorem eq_type_of_append_eq {front type' : Text} (hbody : ∀ c ∈ body, c ≠ 'u' ∧ c ≠ 'i')
    (htype : IsIntegerType type) (htype' : type' ∈ integerTypes)
    (h : body ++ type = front ++ type') : type' = type := by
  rcases List.append_eq_append_iff.mp h with ⟨rest, -, hrest⟩ | ⟨rest, hfront, hrest⟩
  · -- `type'` lies within `type`
    rcases htype.eq_nil_or_mem with rfl | htype
    · obtain ⟨-, rfl⟩ := List.append_eq_nil_iff.mp hrest.symm
      cases integerTypes_heads [] htype' <;> contradiction
    · exact integerTypes_suffixes type htype type' htype' ⟨rest, hrest.symm⟩
  · -- `type'` begins in `body`
    cases rest with
    | nil => exact hrest
    | cons c rest =>
        obtain ⟨d, tail, rfl, hd⟩ := head_of_mem_integerTypes htype'
        obtain ⟨rfl, -⟩ := List.cons.inj hrest
        have hc := hbody d (by rw [hfront]; simp)
        rcases hd with rfl | rfl
        · exact absurd rfl hc.1
        · exact absurd rfl hc.2

theorem withoutIntegerType_append (hbody : ∀ c ∈ body, c ≠ 'u' ∧ c ≠ 'i')
    (htype : IsIntegerType type) : withoutIntegerType (body ++ type) = body := by
  rw [withoutIntegerType]
  cases hfind : integerTypes.findSome? fun type' => (body ++ type).beforeLast? type' with
  | none =>
      rcases htype.eq_nil_or_mem with rfl | htype
      · exact List.append_nil body
      · have hnone := List.findSome?_eq_none_iff.mp hfind type htype
        rw [Text.beforeLast?_iff.mpr rfl] at hnone
        cases hnone
  | some front =>
      obtain ⟨type', htype', hfront⟩ := List.exists_of_findSome?_eq_some hfind
      have happend := Text.beforeLast?_iff.mp hfront
      obtain rfl := eq_type_of_append_eq hbody htype htype' happend
      exact (List.append_cancel_right happend).symm

end Types

section Digits

theorem ne_of_digits (hdigits : Text.SpellsNumber radix (digits.filter (· != '_')) n) :
    ∀ c ∈ digits, c ≠ 'u' ∧ c ≠ 'i' := by
  intro c hc
  have hu : Text.digitValue? 'u' = none := by decide
  have hi : Text.digitValue? 'i' = none := by decide
  rcases hdigits.underscore_or_digit hc with rfl | ⟨d, hd, -⟩
  · decide
  · constructor
    · rintro rfl
      cases hu.symm.trans hd.digitValue?
    · rintro rfl
      cases hi.symm.trans hd.digitValue?

theorem ne_of_mark (hmark : Mark mark radix) : ∀ c ∈ mark, c ≠ 'u' ∧ c ≠ 'i' := by
  cases hmark <;> simp

theorem withoutIntegerType_spelling (hmark : Mark mark radix)
    (hdigits : Text.SpellsNumber radix (digits.filter (· != '_')) n) (htype : IsIntegerType type) :
    withoutIntegerType (mark ++ (digits ++ type)) = mark ++ digits := by
  rw [← List.append_assoc]
  apply withoutIntegerType_append _ htype
  intro c hc
  rcases List.mem_append.mp hc with hc | hc
  · exact ne_of_mark hmark c hc
  · exact ne_of_digits hdigits c hc

theorem not_mem_of_radix_lt (hradix : radix < 16) (hmark : Mark mark radix)
    (hdigits : Text.SpellsNumber radix (digits.filter (· != '_')) n) (htype : IsIntegerType type) :
    'f' ∉ mark ++ (digits ++ type) := by
  have hvalue : Text.digitValue? 'f' = some 15 := by decide
  have htypes : ∀ type ∈ integerTypes, 'f' ∉ type := by decide
  simp only [List.mem_append, not_or]
  refine ⟨?_, ?_, ?_⟩
  · cases hmark <;> decide
  · intro hmem
    rcases hdigits.underscore_or_digit hmem with hf | ⟨d, hd, hlt⟩
    · cases hf
    · obtain rfl := Option.some.inj (hvalue.symm.trans hd.digitValue?)
      omega
  · rcases htype.eq_nil_or_mem with rfl | htype
    · exact List.not_mem_nil
    · exact htypes type htype

theorem hasRealType_of_not_mem (h : 'f' ∉ t) : hasRealType t = false := by
  have hsuffix {type : Text} (htype : 'f' ∈ type) : type.isSuffixOf t = false := by
    apply Bool.eq_false_iff.mpr
    intro hends
    exact h ((List.isSuffixOf_iff_suffix.mp hends).subset htype)
  rw [hasRealType, hsuffix (by decide), hsuffix (by decide)]
  exact Bool.and_false _

theorem hasRealType_spelling (hmark : Mark mark radix)
    (hdigits : Text.SpellsNumber radix (digits.filter (· != '_')) n) (htype : IsIntegerType type) :
    hasRealType (mark ++ (digits ++ type)) = false := by
  cases hmark with
  | hexadecimal => rfl
  | decimal => exact hasRealType_of_not_mem (not_mem_of_radix_lt (by decide) .decimal hdigits htype)
  | octal => exact hasRealType_of_not_mem (not_mem_of_radix_lt (by decide) .octal hdigits htype)
  | binary => exact hasRealType_of_not_mem (not_mem_of_radix_lt (by decide) .binary hdigits htype)

end Digits

theorem integerBound_eq : integerBound = 2 ^ 128 := by
  decide

theorem Mark.integer (hmark : Mark mark radix) (hn : n < integerBound)
    (hdigits : Text.SpellsNumber radix digits n) : Integer (mark ++ digits) n := by
  have hunsigned : Text.Unsigned radix integerBound digits n :=
    ⟨hn, digits, .inl rfl, hdigits.numeral⟩
  cases hmark with
  | decimal => exact .decimal hunsigned
  | hexadecimal => exact .hexadecimal hunsigned
  | octal => exact .octal hunsigned
  | binary => exact .binary hunsigned

theorem Mark.filter_eq (h : Mark mark radix) : mark.filter (· != '_') = mark := by
  cases h <;> rfl

theorem SpellsInteger.denotes (h : SpellsInteger t n) (hn : n < 2 ^ 128) :
    Denotes "integer_literal" t (.integer n) := by
  obtain ⟨hmark, hdigits, -, htype⟩ := h
  apply Denotes.integer (hasRealType_spelling hmark hdigits htype)
  rw [withoutIntegerType_spelling hmark hdigits htype, List.filter_append, hmark.filter_eq]
  exact hmark.integer (integerBound_eq ▸ hn) hdigits

theorem SpellsInteger.head?_ne (h : SpellsInteger t n) : t.head? ≠ some '_' := by
  cases h with
  | @spelling mark digits type radix _ hmark hdigits hfirst _ =>
      cases hmark with
      | hexadecimal | octal | binary => simp
      | decimal =>
          have hne : digits ≠ [] := by
            rintro rfl
            exact hdigits.numeral.ne_nil rfl
          obtain ⟨c, rest, rfl⟩ := List.exists_cons_of_ne_nil hne
          exact hfirst rfl

end Literal

theorem Template.variableFor?_of_head {t : Template} {text : Text} (h : text.head? ≠ some '_') :
    t.variableFor? text = none := by
  have hafter : text.afterFirst? "__ssr_var_".toList = none := by
    rw [Option.eq_none_iff_forall_ne_some]
    intro rest hrest
    rw [Text.afterFirst?_iff.mp hrest] at h
    exact h rfl
  rw [variableFor?, placeholderNumber?, hafter]
  rfl

namespace Pattern

theorem wildcard?_of_head {p : Pattern} {a : Node} (h : (a.text p.parsed.text).head? ≠ some '_') :
    p.wildcard? a = none := by
  rw [wildcard?, Template.variableFor?_of_head h]
  rfl

end Pattern

namespace Literal

theorem compare_eq_agrees {p : Pattern} {a b : Node} (ha : a.kind ∈ kinds)
    (hb : b.kind ∈ kinds) (hhead : (a.text p.parsed.text).head? ≠ some '_')
    (source : Text) (room : Nat) (s : Captures) : p.compare source (room + 1) a b s =
      ((read a.kind (a.text p.parsed.text)).agrees
        (read b.kind (b.text source)), s) := by
  rw [Pattern.compare_of_literal ha (Pattern.wildcard?_of_head hhead)]
  simp [Attempt.test, hb]

/-- An integer is read as the number that it spells, and two integers match if they spell one number,
whatever their radixes, zeros, underscores and types. -/
theorem integers_compare_by_value {n : Nat} {t : Text} (hn : n < 2 ^ 128)
    (h : SpellsInteger t n) :
    read "integer_literal" t = .integer n ∧
      ∀ {m : Nat} {t' : Text}, m < 2 ^ 128 → SpellsInteger t' m →
        ∀ (p : Pattern) (source : Text) (a b : Node), a.kind = "integer_literal" →
          b.kind = "integer_literal" → a.text p.parsed.text = t → b.text source = t' →
            ∀ (room : Nat) (s : Captures),
              p.compare source (room + 1) a b s = (decide (n = m), s) := by
  have hread := (denotes_iff.mp (h.denotes hn)).1
  refine ⟨hread, ?_⟩
  rintro m t' hm h' p source a b ha hb rfl rfl room s
  have hread' := (denotes_iff.mp (h'.denotes hm)).1
  have hkind : "integer_literal" ∈ kinds := by decide
  rw [compare_eq_agrees (ha ▸ hkind) (hb ▸ hkind) h.head?_ne, ha, hb, hread, hread']
  simp [agrees, Bool.beq_eq_decide_eq]

def largestSource : Source :=
  .ofText Pattern.integerGrammar "340_282_366_920_938_463_463_374_607_431_768_211_455;".toList

/-- The largest integer of 128 bits in two radixes. -/
theorem integers_compare_by_value_of_largest : ∃ p a b,
    Pattern.compile Pattern.integerGrammar .default
      "0x_FFffFFffFFffFFff_FFFFFFFFffffffff_u128;".toList = .ok p ∧
      a ∈ p.parsed.nodes ∧ b ∈ largestSource.nodes ∧ 2 ^ 128 - 1 < 2 ^ 128 ∧
      SpellsInteger (a.text p.parsed.text) (2 ^ 128 - 1) ∧
      SpellsInteger (b.text largestSource.text) (2 ^ 128 - 1) ∧
      p.compare largestSource.text 1 a b [] = (true, []) := by
  have h : ((Pattern.compile Pattern.integerGrammar .default
      "0x_FFffFFffFFffFFff_FFFFFFFFffffffff_u128;".toList).toOption.bind fun p =>
      (p.parsed.nodes.find? (·.kind == "integer_literal")).bind fun a =>
        (largestSource.nodes.find? (·.kind == "integer_literal")).map fun b =>
          decide (a.text p.parsed.text = "0x_FFffFFffFFffFFff_FFFFFFFFffffffff_u128".toList ∧
            b.text largestSource.text =
              "340_282_366_920_938_463_463_374_607_431_768_211_455".toList)) = some true := by
    decide +kernel
  simp only [Option.bind_eq_some_iff, Option.map_eq_some_iff, decide_eq_true_eq] at h
  obtain ⟨p, hp, a, ha, b, hb, htext, htext'⟩ := h
  have hlt : 2 ^ 128 - 1 < 2 ^ 128 := by decide
  have hdigits : Text.SpellsNumber 16
      (("_FFffFFffFFffFFff_FFFFFFFFffffffff_".toList).filter (· != '_')) (2 ^ 128 - 1) :=
    ⟨List.replicate 32 15, by decide +kernel, by decide, by decide +kernel⟩
  have hdigits' : Text.SpellsNumber 10
      (("340_282_366_920_938_463_463_374_607_431_768_211_455".toList).filter (· != '_'))
      (2 ^ 128 - 1) := ⟨[3, 4, 0, 2, 8, 2, 3, 6, 6, 9, 2, 0, 9, 3, 8, 4, 6, 3, 4, 6, 3, 3, 7, 4, 6, 0,
    7, 4, 3, 1, 7, 6, 8, 2, 1, 1, 4, 5, 5], by decide +kernel, by decide, by decide +kernel⟩
  have hspells : SpellsInteger "0x_FFffFFffFFffFFff_FFFFFFFFffffffff_u128".toList
      (2 ^ 128 - 1) :=
    .spelling .hexadecimal hdigits nofun
      (.unsigned (by decide : "128".toList ∈ integerWidths))
  have hspells' : SpellsInteger "340_282_366_920_938_463_463_374_607_431_768_211_455".toList
      (2 ^ 128 - 1) := .spelling .decimal hdigits' (fun _ => by decide) .none
  have hmatch := (integers_compare_by_value hlt hspells).2 hlt hspells' p largestSource.text a b
    (by simpa using List.find?_some ha) (by simpa using List.find?_some hb) htext htext' 0 []
  exact ⟨p, a, b, ok_of_toOption hp, List.mem_of_find?_eq_some ha, List.mem_of_find?_eq_some hb, hlt,
    htext ▸ hspells, htext' ▸ hspells', hmatch⟩

end Literal

end ShapeSearch
