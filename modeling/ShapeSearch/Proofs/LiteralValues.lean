import ShapeSearch.Proofs.Descendants
import ShapeSearch.Proofs.Outcomes
import ShapeSearch.Proofs.Spellings
import ShapeSearch.Search

namespace ShapeSearch

namespace Literal

/-- Literals of one flavour that have one value. Reals are compared as numbers. -/
inductive SameValue : Literal → Literal → Prop
  | boolean (b : Bool) : SameValue (.boolean b) (.boolean b)
  | integer (n : Nat) : SameValue (.integer n) (.integer n)
  | real {x y : Float} (h : (x == y) = true) : SameValue (.real x) (.real y)
  | character (c : Char) : SameValue (.character c) (.character c)
  | string (t : Text) : SameValue (.string t) (.string t)

theorem SameValue.known {v w : Literal} (h : SameValue v w) : v ≠ unknown ∧ w ≠ unknown := by
  cases h <;> exact ⟨nofun, nofun⟩

theorem agrees_iff {v w : Literal} :
    v.agrees w = true ↔ SameValue v w ∨ v = unknown ∧ w = unknown := by
  constructor
  · intro h
    cases v <;> cases w <;> simp only [agrees, Bool.false_eq_true, beq_iff_eq] at h
    case unknown.unknown => exact .inr ⟨rfl, rfl⟩
    case real.real => exact .inl (.real h)
    all_goals subst h
    case boolean.boolean => exact .inl (.boolean _)
    case integer.integer => exact .inl (.integer _)
    case character.character => exact .inl (.character _)
    case string.string => exact .inl (.string _)
  · rintro (h | ⟨rfl, rfl⟩)
    · cases h with
      | real h => exact h
      | boolean | integer | character | string => simp [agrees]
    · rfl

theorem read_agrees_iff {kind kind' : String} {t t' : Text} :
    (read kind t).agrees (read kind' t') = true ↔
      (∃ v w, Denotes kind t v ∧ Denotes kind' t' w ∧ SameValue v w) ∨
        (∀ v, ¬ Denotes kind t v) ∧ ∀ w, ¬ Denotes kind' t' w := by
  rw [agrees_iff, read_eq_unknown_iff, read_eq_unknown_iff]
  refine or_congr_left ⟨fun h => ?_, ?_⟩
  · exact ⟨_, _, denotes_iff.mpr ⟨rfl, h.known.1⟩, denotes_iff.mpr ⟨rfl, h.known.2⟩, h⟩
  · rintro ⟨v, w, hv, hw, h⟩
    rwa [(denotes_iff.mp hv).1, (denotes_iff.mp hw).1]

end Literal

namespace Pattern

variable {p : Pattern} {a b : Node}

theorem strategy_of_literal (ha : a.kind ∈ Literal.kinds) (b : Node) :
    strategy a b = [.kindAmong Literal.kinds, .sameValue] := by
  simp only [Literal.kinds, List.mem_cons, List.not_mem_nil, or_false] at ha
  rcases ha with ha | ha | ha | ha | ha | ha <;> simp [strategy, ha, Literal.kinds]

theorem compare_of_literal (ha : a.kind ∈ Literal.kinds) (hw : p.wildcard? a = none)
    (source : Text) (room : Nat) (b : Node) :
    p.compare source room a b = .test (decide (0 < room ∧ b.kind ∈ Literal.kinds) &&
      (Literal.read a.kind (a.text p.parsed.text)).agrees (Literal.read b.kind (b.text source))) := by
  cases room with
  | zero =>
      simp only [compare, hw, Nat.lt_irrefl, false_and, decide_false, Bool.false_and]
      rfl
  | succ room =>
      have hall (x y : Bool) : Attempt.all (σ := Captures) [.test x, .test y] = .test (x && y) := by
        cases x <;> cases y <;> rfl
      simp only [compare, hw, strategy_of_literal ha, List.map_cons, List.map_nil, ask, hall,
        Nat.zero_lt_succ, true_and, List.contains_eq_mem]

/-- A literal of the pattern is compared with a literal of the source by value, whatever their
spellings, and binds nothing. Where neither has a value, the two match as well. -/
theorem literals_match_iff (ha : a.kind ∈ Literal.kinds) (hw : p.wildcard? a = none)
    (source : Text) (room : Nat) (b : Node) (s : Captures) :
    (p.compare source room a b s).2 = s ∧
    ((p.compare source room a b s).1 = true ↔ (0 < room ∧ b.kind ∈ Literal.kinds) ∧
      ((∃ v w, Literal.Denotes a.kind (a.text p.parsed.text) v ∧
          Literal.Denotes b.kind (b.text source) w ∧ Literal.SameValue v w) ∨
        (∀ v, ¬ Literal.Denotes a.kind (a.text p.parsed.text) v) ∧
          ∀ w, ¬ Literal.Denotes b.kind (b.text source) w)) := by
  rw [compare_of_literal ha hw, ← Literal.read_agrees_iff]
  exact ⟨rfl, by simp [Attempt.test]⟩

def integerGrammar : Grammar := fun t =>
  .named "source_file" none 0 t.bytes [.named "expression_statement" none 0 t.bytes [
    .named "integer_literal" none 0 (t.bytes - 1) [], .token ";" (t.bytes - 1) t.bytes]]

def integerSource : Source := .ofText integerGrammar "16u8;".toList

theorem literals_match_iff_of_integers : ∃ p a b,
    compile integerGrammar .default "0x10;".toList = .ok p ∧ a ∈ p.parsed.nodes ∧
    b ∈ integerSource.nodes ∧ a.kind ∈ Literal.kinds ∧ p.wildcard? a = none ∧
    (p.compare integerSource.text 1 a b []).1 = true ∧
    ∃ v w, Literal.Denotes a.kind (a.text p.parsed.text) v ∧
      Literal.Denotes b.kind (b.text integerSource.text) w ∧ Literal.SameValue v w := by
  have h : ((compile integerGrammar .default "0x10;".toList).toOption.bind fun p =>
      (p.parsed.nodes.find? (·.kind == "integer_literal")).bind fun a =>
        (integerSource.nodes.find? (·.kind == "integer_literal")).map fun b =>
          decide (a.text p.parsed.text = "0x10".toList) && (p.wildcard? a).isNone &&
            (p.compare integerSource.text 1 a b []).1) = some true := by
    decide +kernel
  simp only [Option.bind_eq_some_iff, Option.map_eq_some_iff, Bool.and_eq_true, decide_eq_true_eq,
    Option.isNone_iff_eq_none] at h
  obtain ⟨p, hp, a, ha, b, hb, ⟨htext, hw⟩, hmatch⟩ := h
  have hkind : a.kind = "integer_literal" := by simpa using List.find?_some ha
  have hliteral : a.kind ∈ Literal.kinds := hkind ▸ by decide
  have hvalue : Literal.Denotes a.kind (a.text p.parsed.text) (.integer 16) := by
    rw [hkind, htext]
    exact Literal.denotes_iff.mpr ⟨rfl, nofun⟩
  obtain ⟨-, hsame | ⟨hnone, -⟩⟩ :=
    (literals_match_iff hliteral hw integerSource.text 1 b []).2.mp hmatch
  · exact ⟨p, a, b, ok_of_toOption hp, List.mem_of_find?_eq_some ha, List.mem_of_find?_eq_some hb,
      hliteral, hw, hmatch, hsame⟩
  · exact absurd hvalue (hnone _)

def largeSource : Source :=
  .ofText integerGrammar "340282366920938463463374607431768211457;".toList

/-- Two integers that are too large to be read are taken for the same. -/
theorem large_integers_match : ∃ p a b,
    compile integerGrammar .default "340282366920938463463374607431768211456;".toList = .ok p ∧
    (p.findAll largeSource).length = 1 ∧ a ∈ p.parsed.nodes ∧ b ∈ largeSource.nodes ∧
    a.text p.parsed.text = "340282366920938463463374607431768211456".toList ∧
    b.text largeSource.text = "340282366920938463463374607431768211457".toList ∧
    (p.compare largeSource.text 1 a b []).1 = true ∧
    (∀ v, ¬ Literal.Denotes a.kind (a.text p.parsed.text) v) ∧
    ∀ w, ¬ Literal.Denotes b.kind (b.text largeSource.text) w := by
  have h : ((compile integerGrammar .default
      "340282366920938463463374607431768211456;".toList).toOption.bind fun p =>
      (p.parsed.nodes.find? (·.kind == "integer_literal")).bind fun a =>
        (largeSource.nodes.find? (·.kind == "integer_literal")).map fun b =>
          decide ((p.findAll largeSource).length = 1 ∧
            a.text p.parsed.text = "340282366920938463463374607431768211456".toList ∧
            b.text largeSource.text = "340282366920938463463374607431768211457".toList) &&
          (p.compare largeSource.text 1 a b []).1) = some true := by
    decide +kernel
  simp only [Option.bind_eq_some_iff, Option.map_eq_some_iff, Bool.and_eq_true,
    decide_eq_true_eq] at h
  obtain ⟨p, hp, a, ha, b, hb, ⟨hfound, htext, htext'⟩, hmatch⟩ := h
  have hkind : a.kind = "integer_literal" := by simpa using List.find?_some ha
  have hkind' : b.kind = "integer_literal" := by simpa using List.find?_some hb
  have hunread {t : Text} (ht : Literal.hasRealType t = false ∧ Literal.readInteger? t = none) :
      ∀ v, ¬ Literal.Denotes "integer_literal" t v := by
    rw [← Literal.read_eq_unknown_iff]
    simp [Literal.read, Literal.ofOption, ht]
  refine ⟨p, a, b, ok_of_toOption hp, hfound, List.mem_of_find?_eq_some ha,
    List.mem_of_find?_eq_some hb, htext, htext', hmatch, ?_, ?_⟩
  · rw [hkind, htext]
    exact hunread (by decide +kernel)
  · rw [hkind', htext']
    exact hunread (by decide +kernel)

end Pattern

end ShapeSearch
