import ShapeSearch.Proofs.IntegerSpellings

namespace ShapeSearch

namespace Escape

variable {quote c : Char} {t u : Text}

/-- The letters that follow a backslash, each with the character that it stands for. -/
def letters : List (Char × Char) :=
  [('n', '\n'), ('r', '\r'), ('t', '\t'), ('0', '\x00'), ('\\', '\\'), ('\'', '\''), ('"', '"')]

inductive SpellsChar (quote : Char) : Text → Char → Prop
  | raw {c : Char} (hslash : c ≠ '\\') (hquote : c ≠ quote) : SpellsChar quote [c] c
  | letter {letter c : Char} (h : (letter, c) ∈ letters) : SpellsChar quote ['\\', letter] c
  | byte {high low c : Char} (h : Text.SpellsNumber 16 [high, low] c.toNat) (hc : c.toNat ≤ 0x7F) :
    SpellsChar quote ['\\', 'x', high, low] c
  /-- Up to six digits, with underscores anywhere. -/
  | codePoint {hex : Text} {c : Char}
    (h : Text.SpellsNumber 16 (hex.filter (· != '_')) c.toNat)
    (hlength : (hex.filter (· != '_')).length ≤ 6) :
    SpellsChar quote ('\\' :: 'u' :: '\x7b' :: (hex ++ ['\x7d'])) c

/-- A text as it may be written between quotes. Between two characters, and in front of the first and
behind the last, a line may be broken; the next one is then indented by any blanks. -/
inductive Spells (quote : Char) : Text → Text → Prop
  | nil : Spells quote [] []
  | char {piece t u : Text} {c : Char} (hc : SpellsChar quote piece c) (h : Spells quote t u) :
    Spells quote (piece ++ t) (c :: u)
  | lineEnd {blanks t u : Text} (hblanks : ∀ c ∈ blanks, Text.isBlank c = true)
    (hnext : t.head?.all (!Text.isBlank ·) = true) (h : Spells quote t u) :
    Spells quote ('\\' :: '\n' :: (blanks ++ t)) u

theorem letter?_of_mem {letter : Char} (h : (letter, c) ∈ letters) : letter? letter = some c := by
  have hletters : ∀ p ∈ letters, letter? p.1 = some p.2 := by decide
  exact hletters _ h

theorem codePoint_of_spellsNumber {bound : Nat} {hex : Text} (h : Text.SpellsNumber 16 hex c.toNat)
    (hc : c.toNat < bound) : CodePoint bound hex c :=
  ⟨hc, hex, .inl rfl, h.numeral⟩

theorem not_mem_of_spellsNumber {hex : Text} {n : Nat}
    (h : Text.SpellsNumber 16 (hex.filter (· != '_')) n) : ∀ c ∈ hex, c ≠ '\x7d' := by
  have hvalue : Text.digitValue? '\x7d' = none := by decide
  intro c hc
  rcases h.underscore_or_digit hc with rfl | ⟨d, hd, -⟩
  · decide
  · rintro rfl
    cases hvalue.symm.trans hd.digitValue?

theorem decodes_char {piece : Text} (hc : SpellsChar quote piece c) (h : Decodes t u) :
    Decodes (piece ++ t) (c :: u) := by
  cases hc with
  | raw hslash _ => exact .plain hslash h
  | letter hletter => exact .letter (letter?_of_mem hletter) h
  | byte hnumber hc => exact .byte (codePoint_of_spellsNumber hnumber (by omega)) h
  | @codePoint hex _ hnumber _ =>
      have hbound : c.toNat < UInt32.size := c.val.toNat_lt
      have hbrace : ∀ d ∈ hex, (d != '\x7d') = true := fun d hd => by
        simpa using not_mem_of_spellsNumber hnumber d hd
      have htake : (hex ++ '\x7d' :: t).takeWhile (· != '\x7d') = hex := by
        rw [List.takeWhile_append_of_pos hbrace]
        simp
      have hdrop : (hex ++ '\x7d' :: t).dropWhile (· != '\x7d') = '\x7d' :: t := by
        rw [List.dropWhile_append_of_pos hbrace]
        simp
      have hpiece : '\\' :: 'u' :: '\x7b' :: (hex ++ ['\x7d']) ++ t =
          '\\' :: 'u' :: '\x7b' :: (hex ++ '\x7d' :: t) := by simp
      rw [hpiece]
      apply Decodes.codePoint
      · rw [htake]
        exact codePoint_of_spellsNumber hnumber hbound
      · rw [hdrop]
        exact h

theorem dropWhile_blanks {blanks : Text} (hblanks : ∀ c ∈ blanks, Text.isBlank c = true)
    (hnext : t.head?.all (!Text.isBlank ·) = true) : (blanks ++ t).dropWhile Text.isBlank = t := by
  rw [List.dropWhile_append_of_pos hblanks]
  cases t with
  | nil => rfl
  | cons c t =>
      have hc : Text.isBlank c = false := by simpa using hnext
      rw [List.dropWhile_cons_of_neg (by simp [hc])]

theorem Spells.decodes (h : Spells quote t u) : Decodes t u := by
  induction h with
  | nil => exact .nil
  | char hc _ ih => exact decodes_char hc ih
  | lineEnd hblanks hnext _ ih =>
      apply Decodes.lineEnd
      rw [dropWhile_blanks hblanks hnext]
      exact ih

end Escape

namespace Literal

variable {kind : String} {t u : Text} {v w : Literal}

/-- The letter in front of a quoted text of bytes or of C, and none in front of any other. -/
def flavours : List Text :=
  [[], ['b'], ['c']]

/-- A text or a character as a literal of some kind. -/
inductive SpellsText : String → Text → Literal → Prop
  | string {flavour t u : Text} (hflavour : flavour ∈ flavours) (h : Escape.Spells '"' t u) :
    SpellsText "string_literal" (flavour ++ '"' :: (t ++ ['"'])) (.string u)
  /-- Between as many hashes on either side, a text stands as it is. -/
  | raw {flavour : Text} (hflavour : flavour ∈ flavours) (hashes : Nat) (body : Text) :
    SpellsText "raw_string_literal" (flavour ++ 'r' :: (List.replicate hashes '#' ++
      '"' :: (body ++ '"' :: List.replicate hashes '#'))) (.string body)
  | character {flavour t : Text} {c : Char} (hflavour : flavour ∈ flavours)
    (h : Escape.Spells '\'' t [c]) :
    SpellsText "char_literal" (flavour ++ '\'' :: (t ++ ['\''])) (.character c)

theorem isFlavour_of_mem {flavour : Text} (h : flavour ∈ flavours) : IsFlavour flavour := by
  simp only [flavours, List.mem_cons, List.not_mem_nil, or_false] at h
  rcases h with rfl | rfl | rfl
  · exact List.forall_mem_nil _
  · exact List.forall_mem_singleton.mpr (.inl rfl)
  · exact List.forall_mem_singleton.mpr (.inr rfl)

theorem SpellsText.denotes (h : SpellsText kind t v) : Denotes kind t v := by
  cases h with
  | string hflavour h => exact .string ⟨_, isFlavour_of_mem hflavour, rfl⟩ h.decodes
  | raw hflavour hashes body =>
      exact .raw ⟨_, _, isFlavour_of_mem hflavour, fun c hc => List.eq_of_mem_replicate hc, rfl⟩
  | character hflavour h => exact .character ⟨_, isFlavour_of_mem hflavour, rfl⟩ h.decodes

theorem head?_flavour_ne {flavour rest : Text} {c : Char} (h : flavour ∈ flavours) (hc : c ≠ '_') :
    (flavour ++ c :: rest).head? ≠ some '_' := by
  simp only [flavours, List.mem_cons, List.not_mem_nil, or_false] at h
  rcases h with rfl | rfl | rfl
  · simpa using hc
  · simp
  · simp

theorem SpellsText.head?_ne (h : SpellsText kind t v) : t.head? ≠ some '_' := by
  cases h with
  | string hflavour _ => exact head?_flavour_ne hflavour (by decide)
  | raw hflavour _ _ => exact head?_flavour_ne hflavour (by decide)
  | character hflavour _ => exact head?_flavour_ne hflavour (by decide)

theorem SpellsText.kind_mem (h : SpellsText kind t v) : kind ∈ kinds := by
  cases h <;> decide

theorem SpellsText.agrees_iff {kind' : String} {t' : Text} (h : SpellsText kind t v)
    (h' : SpellsText kind' t' w) : v.agrees w = true ↔ v = w := by
  cases h <;> cases h' <;> simp [agrees]

/-- A text or a character is read from each of its spellings, and so two of them match if they spell
the same. -/
theorem texts_compare_by_content {kind : String} {t : Text} {v : Literal}
    (h : SpellsText kind t v) :
    read kind t = v ∧
      ∀ {kind' : String} {t' : Text} {w : Literal}, SpellsText kind' t' w →
        ∀ (p : Pattern) (source : Text) (a b : Node), a.kind = kind → b.kind = kind' →
          a.text p.parsed.text = t → b.text source = t' → ∀ (room : Nat) (s : Captures),
            (p.compare source (room + 1) a b s).2 = s ∧
              ((p.compare source (room + 1) a b s).1 = true ↔ v = w) := by
  have hread := (denotes_iff.mp h.denotes).1
  refine ⟨hread, ?_⟩
  rintro kind' t' w h' p source a b rfl rfl rfl rfl room s
  have hread' := (denotes_iff.mp h'.denotes).1
  rw [compare_eq_agrees h.kind_mem h'.kind_mem h.head?_ne, hread, hread']
  exact ⟨rfl, h.agrees_iff h'⟩

def textGrammar : Grammar := fun t =>
  .named "source_file" none 0 t.bytes [.named "expression_statement" none 0 t.bytes [
    .named (if t.head? = some 'r' then "raw_string_literal" else "string_literal") none 0
      (t.bytes - 1) [], .token ";" (t.bytes - 1) t.bytes]]

def rawSource : Source :=
  .ofText textGrammar "r#\"a\n😀\"b\"#;".toList

def escapedText : Text :=
  "b\"a\\x0A\\u\x7b1_f60_0\x7d\\\n  \\\"b\"".toList

theorem spells_escapedText : Escape.Spells '"' ("a\\x0A\\u\x7b1_f60_0\x7d\\\n  \\\"b".toList)
    "a\n😀\"b".toList := by
  have hraw {c : Char} (h : c ≠ '\\' ∧ c ≠ '"') : Escape.SpellsChar '"' [c] c := .raw h.1 h.2
  have hbyte : Escape.SpellsChar '"' ['\\', 'x', '0', 'A'] '\n' :=
    .byte ⟨[0, 10], by decide, by decide, by decide⟩ (by decide)
  have hpoint : Escape.SpellsChar '"' ('\\' :: 'u' :: '\x7b' :: ("1_f60_0".toList ++ ['\x7d'])) '😀' :=
    .codePoint ⟨[1, 15, 6, 0, 0], by decide, by decide, by decide⟩ (by decide)
  have hquote : Escape.SpellsChar '"' ['\\', '"'] '"' := .letter (by decide)
  have htail : Escape.Spells '"' "\\\"b".toList "\"b".toList :=
    .char hquote (.char (hraw (by decide)) .nil)
  have hbreak : Escape.Spells '"' ('\\' :: '\n' :: ("  ".toList ++ "\\\"b".toList)) "\"b".toList :=
    .lineEnd (List.all_eq_true.mp rfl) (by decide) htail
  exact .char (hraw (by decide)) (.char hbyte (.char hpoint hbreak))

/-- A text of bytes with escapes of four kinds, and the same one with nothing escaped. -/
theorem texts_compare_by_content_of_raw : ∃ p a b,
    Pattern.compile textGrammar .default (escapedText ++ [';']) = .ok p ∧ a ∈ p.parsed.nodes ∧
      b ∈ rawSource.nodes ∧
      SpellsText a.kind (a.text p.parsed.text) (.string "a\n😀\"b".toList) ∧
      SpellsText b.kind (b.text rawSource.text) (.string "a\n😀\"b".toList) ∧
      read a.kind (a.text p.parsed.text) = .string "a\n😀\"b".toList ∧
      (p.compare rawSource.text 1 a b []).1 = true := by
  have h : ((Pattern.compile textGrammar .default (escapedText ++ [';'])).toOption.bind fun p =>
      (p.parsed.nodes.find? (·.kind == "string_literal")).bind fun a =>
        (rawSource.nodes.find? (·.kind == "raw_string_literal")).map fun b =>
          decide (a.text p.parsed.text = escapedText ∧
            b.text rawSource.text = "r#\"a\n😀\"b\"#".toList)) = some true := by
    decide +kernel
  simp only [Option.bind_eq_some_iff, Option.map_eq_some_iff, decide_eq_true_eq] at h
  obtain ⟨p, hp, a, ha, b, hb, htext, htext'⟩ := h
  have hkind : a.kind = "string_literal" := by simpa using List.find?_some ha
  have hkind' : b.kind = "raw_string_literal" := by simpa using List.find?_some hb
  have hspells : SpellsText a.kind (a.text p.parsed.text) (.string "a\n😀\"b".toList) := by
    rw [hkind, htext]
    exact .string (by decide : ['b'] ∈ flavours) spells_escapedText
  have hspells' : SpellsText b.kind (b.text rawSource.text) (.string "a\n😀\"b".toList) := by
    rw [hkind', htext']
    exact .raw (by decide : [] ∈ flavours) 1 "a\n😀\"b".toList
  obtain ⟨hread, hmatch⟩ := texts_compare_by_content hspells
  exact ⟨p, a, b, ok_of_toOption hp, List.mem_of_find?_eq_some ha, List.mem_of_find?_eq_some hb,
    hspells, hspells', hread,
    (hmatch hspells' p rawSource.text a b rfl rfl rfl rfl 0 []).2.mpr rfl⟩

end Literal

end ShapeSearch
