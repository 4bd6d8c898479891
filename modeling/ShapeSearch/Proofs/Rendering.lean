import Mathlib.Data.List.Chain
import ShapeSearch.Proofs.Numerals
import ShapeSearch.Proofs.Scanning
import ShapeSearch.Proofs.Slices

namespace ShapeSearch

def Constraint.mark (c : Constraint) : Text :=
  if c.negated then ['!'] else []

def Constraint.rendered (c : Constraint) : Text :=
  '[' :: (c.mark ++ ("regex(".toList ++ (c.pattern ++ ")]".toList)))

namespace Occurrence

def isPlain (o : Occurrence) : Bool :=
  o.quantifier.isNone && o.constraint.isNone

def modifiers (o : Occurrence) : Text :=
  if o.isPlain then []
  else ':' :: (o.quantifier.elim [] Quantifier.display ++ o.constraint.elim [] Constraint.rendered)

def rendered (o : Occurrence) : Text :=
  '\'' :: '_' :: (o.name ++ o.modifiers)

structure Valid (ignoreCase : Bool) (o : Occurrence) : Prop where
  name : Segment.IsName o.name
  quantifier {q : Quantifier} (hq : o.quantifier = some q) :
    q.min ≤ q.max ∧ q.max ≤ Quantifier.unbounded
  compiles {c : Constraint} (hc : o.constraint = some c) :
    Constraint.compile ignoreCase c.pattern c.negated = .ok c
  closed {c : Constraint} (hc : o.constraint = some c) : ¬ ")]".toList <:+: c.pattern

end Occurrence

namespace Segment

/-- A text with a backslash before every quote and backslash. -/
def escape (t : Text) : Text :=
  t.flatMap fun c => if c = '\'' ∨ c = '\\' then ['\\', c] else [c]

def rendered : Segment → Text
  | text t => escape t
  | wildcard o => o.rendered

def render (segments : List Segment) : Text :=
  segments.flatMap rendered

def Valid (ignoreCase : Bool) : Segment → Prop
  | text t => t ≠ []
  | wildcard o => o.Valid ignoreCase

/-- Whether what is written for a segment ends where what is written for the next one begins. -/
inductive MayPrecede : Segment → Segment → Prop
  | text (t : Text) (o : Occurrence) : MayPrecede (text t) (wildcard o)
  | plain {o : Occurrence} {t : Text} (ho : o.isPlain = true) (hname : EndsName t)
    (hmodifiers : modifiersFollow t = false) : MayPrecede (wildcard o) (text t)
  | modified {o : Occurrence} {t : Text} (ho : o.isPlain = false) (ht : t.head? ≠ some '[') :
    MayPrecede (wildcard o) (text t)
  | wildcard {o : Occurrence} (ho : o.isPlain = false) (next : Occurrence) :
    MayPrecede (wildcard o) (wildcard next)

def located (offset : Nat) : Segment → Segment
  | text t => text t
  | wildcard o => wildcard { o with offset }

section Escape

theorem head?_escape (c : Char) (t rest : Text) : (escape (c :: t) ++ rest).head? =
    some (if c = '\'' ∨ c = '\\' then '\\' else c) := by
  simp only [escape, List.flatMap_cons]
  split <;> rfl

theorem scanFrom_escape_append {ignoreCase : Bool} (t rest : Text) (offset : Nat) :
    scanFrom ignoreCase offset (escape t ++ rest) =
      (scanFrom ignoreCase (offset + Text.bytes (escape t)) rest).map (t.foldr consChar) := by
  induction t generalizing offset with
  | nil =>
      cases hscan : scanFrom ignoreCase offset rest <;> simp [escape, Text.bytes, hscan, Except.map]
  | cons c t ih =>
      have hmap (r : Except TemplateError (List Segment)) :
          (r.map (t.foldr consChar)).map (consChar c) = r.map ((c :: t).foldr consChar) := by
        cases r <;> rfl
      by_cases hc : c = '\'' ∨ c = '\\'
      · have hescape : escape (c :: t) = '\\' :: c :: escape t := by
          rw [escape, List.flatMap_cons, if_pos hc]
          rfl
        have hbytes : Text.bytes (escape (c :: t)) = 2 + Text.bytes (escape t) := by
          rw [hescape, Text.bytes, Text.bytes, ← Nat.add_assoc]
          obtain rfl | rfl := hc <;> rfl
        rw [hescape, List.cons_append, List.cons_append, scanFrom_escape hc, ih, hmap, ← hescape,
          hbytes, Nat.add_assoc]
      · have hescape : escape (c :: t) = c :: escape t := by
          rw [escape, List.flatMap_cons, if_neg hc]
          rfl
        have hplain : Plain c (escape t ++ rest) :=
          ⟨fun h => absurd (.inr h) hc, fun h => absurd (.inl h) hc⟩
        rw [hescape, List.cons_append, scanFrom_char hplain, ih, hmap, Text.bytes, Nat.add_assoc]

theorem foldr_consChar {t : Text} (ht : t ≠ []) {segments : List Segment}
    (h : ∀ u, segments.head? ≠ some (text u)) :
    t.foldr consChar segments = text t :: segments := by
  induction t with
  | nil => exact absurd rfl ht
  | cons c t ih =>
      cases t with
      | nil =>
          cases segments with
          | nil => rfl
          | cons s segments =>
              cases s with
              | text u => exact absurd rfl (h u)
              | wildcard o => rfl
      | cons d t => rw [List.foldr_cons, ih (List.cons_ne_nil d t), consChar]

end Escape

section Quantifier

theorem readBound_decimal {n : Nat} (h : n ≤ Quantifier.unbounded) :
    readBound (Text.decimal n) = .ok n := by
  have hbound : (some n).filter (· ≤ Quantifier.unbounded) = some n :=
    Option.filter_some_pos (decide_eq_true h)
  rw [readBound, Text.readDigits?_decimal, hbound]

theorem readBraced_exact {min : Nat} (h : min ≤ Quantifier.unbounded) (rest : Text) :
    readBraced (Text.decimal min ++ '\x7d' :: rest) =
      .ok (⟨min, min⟩, (Text.decimal min).length + 1) := by
  rw [readBraced, Text.takeWhile_decimal (by rfl), readBound_decimal h, List.drop_left]
  rfl

theorem readBraced_from {min : Nat} (h : min ≤ Quantifier.unbounded) (rest : Text) :
    readBraced (Text.decimal min ++ ',' :: '\x7d' :: rest) =
      .ok (⟨min, Quantifier.unbounded⟩, (Text.decimal min).length + 2) := by
  rw [readBraced, Text.takeWhile_decimal (by rfl), readBound_decimal h, List.drop_left]
  rfl

theorem readBraced_between {min max : Nat} (hle : min ≤ max) (h : max ≤ Quantifier.unbounded)
    (rest : Text) : readBraced (Text.decimal min ++ ',' :: (Text.decimal max ++ '\x7d' :: rest)) =
      .ok (⟨min, max⟩, (Text.decimal min).length + (Text.decimal max).length + 2) := by
  have hfirst : (Text.decimal min ++ ',' :: (Text.decimal max ++ '\x7d' :: rest)).takeWhile
      Char.isDigit = Text.decimal min := Text.takeWhile_decimal (by rfl)
  have hsecond : (Text.decimal max ++ '\x7d' :: rest).takeWhile Char.isDigit =
      Text.decimal max := Text.takeWhile_decimal (by rfl)
  have hupper : UpperBound (Text.decimal max ++ '\x7d' :: rest) max (Text.decimal max).length :=
    ⟨by rw [hsecond], by rw [hsecond, readBound_decimal h], by rw [List.drop_left]; rfl⟩
  have hread := readBraced_range (x := Text.decimal min ++ ',' :: (Text.decimal max ++ '\x7d' :: rest))
    (by rw [hfirst, readBound_decimal (Nat.le_trans hle h)]) (by rw [hfirst, List.drop_left]) hupper
  rw [hread, if_neg (Nat.not_lt.mpr hle), hfirst]

theorem readQuantifier_brace {q : Quantifier} {t : Text} {n : Nat} (h : readBraced t = .ok (q, n)) :
    readQuantifier ('\x7b' :: t) = .ok (some q, n + 1) := by
  rw [readQuantifier, h]
  rfl

theorem readQuantifier_display {q : Quantifier} (hle : q.min ≤ q.max)
    (hmax : q.max ≤ Quantifier.unbounded) (rest : Text) :
    readQuantifier (q.display ++ rest) = .ok (some q, q.display.length) := by
  obtain ⟨min, max⟩ := q
  simp only at hle hmax
  have hmin : min ≤ Quantifier.unbounded := Nat.le_trans hle hmax
  simp only [Quantifier.display]
  split
  next h => rw [h]; rfl
  split
  next h => rw [h]; rfl
  split
  next h => rw [h]; rfl
  split
  next h =>
    subst h
    simpa using readQuantifier_brace (readBraced_from hmin rest)
  split
  next h =>
    subst h
    simpa using readQuantifier_brace (readBraced_exact hmin rest)
  next =>
    have hread := readQuantifier_brace (readBraced_between hle hmax rest)
    simpa [Nat.add_assoc] using hread

theorem exists_display (q : Quantifier) :
    ∃ c t, q.display = c :: t ∧ ['*', '+', '?', '\x7b', '['].contains c = true := by
  rw [Quantifier.display]
  split_ifs <;> exact ⟨_, _, rfl, by decide⟩

end Quantifier

section Constraint

variable {ignoreCase : Bool} {offset : Nat}

theorem constraintBody?_append {pattern : Text} (h : ¬ ")]".toList <:+: pattern) (rest : Text) :
    constraintBody? (pattern ++ ')' :: ']' :: rest) = some pattern := by
  induction pattern with
  | nil => rfl
  | cons c t ih =>
      have hopen : ¬(c = ')' ∧ (t ++ ')' :: ']' :: rest).head? = some ']') := by
        rintro ⟨rfl, hhead⟩
        cases t with
        | nil => cases hhead
        | cons d t =>
            cases hhead
            exact h (List.prefix_append [')', ']'] t).isInfix
      rw [List.cons_append, constraintBody?_cons hopen,
        ih fun ht => h (ht.trans (List.suffix_cons c t).isInfix), Option.map_some]

theorem length_mark (c : Constraint) : (c.mark.length == 1) = c.negated := by
  cases h : c.negated <;> simp [Constraint.mark, h]

theorem negation_mark (c : Constraint) (rest : Text) :
    negation (c.mark ++ ("regex(".toList ++ rest)) = c.mark.length := by
  cases h : c.negated <;> simp [Constraint.mark, h, negation]

theorem readConstraints_rendered {c : Constraint}
    (hcompile : Constraint.compile ignoreCase c.pattern c.negated = .ok c)
    (hclosed : ¬ ")]".toList <:+: c.pattern) {rest : Text} (hrest : rest.head? ≠ some '[') :
    readConstraints ignoreCase offset none (c.rendered ++ rest) = .ok (some c, c.rendered.length) := by
  have hrendered : c.rendered ++ rest =
      '[' :: (c.mark ++ ("regex(".toList ++ (c.pattern ++ ')' :: ']' :: rest))) := by
    simp [Constraint.rendered]
  have hend : (c.pattern ++ ')' :: ']' :: rest).drop (c.pattern.length + 2) = rest := by
    rw [List.drop_length_add_append]
    rfl
  rw [hrendered, readConstraints_bracket, negation_mark]
  refine ⟨?_, c.pattern, c, 0, ?_, rfl, ?_, ?_, ?_⟩
  · rw [List.drop_left]
    exact List.prefix_append _ _
  · rw [List.drop_length_add_append]
    exact constraintBody?_append hclosed rest
  · rw [length_mark, hcompile]
  · rw [Nat.add_assoc, List.drop_length_add_append]
    have hdrop : ("regex(".toList ++ (c.pattern ++ ')' :: ']' :: rest)).drop (c.pattern.length + 8) =
        rest := hend
    rw [hdrop, readConstraints_of_head hrest]
  · have hword : "regex(".toList.length = 6 := rfl
    have hclose : ")]".toList.length = 2 := rfl
    simp only [Constraint.rendered, List.length_cons, List.length_append]
    omega

end Constraint

section Modifiers

variable {ignoreCase : Bool} {offset : Nat} {o : Occurrence}

theorem modifiers_of_isPlain (h : o.isPlain = true) : o.modifiers = [] := by
  rw [Occurrence.modifiers, if_pos h]

theorem modifiers_of_not_isPlain (h : o.isPlain = false) : o.modifiers =
    ':' :: (o.quantifier.elim [] Quantifier.display ++ o.constraint.elim [] Constraint.rendered) := by
  rw [Occurrence.modifiers, h, if_neg Bool.false_ne_true]

theorem modifiersFollow_modifiers (h : o.isPlain = false) (rest : Text) :
    modifiersFollow (o.modifiers ++ rest) = true := by
  rw [modifiers_of_not_isPlain h]
  cases hq : o.quantifier with
  | some q =>
      obtain ⟨c, t, hdisplay, hc⟩ := exists_display q
      simp only [Option.elim_some, hdisplay]
      exact hc
  | none =>
      cases hc : o.constraint with
      | some c => rfl
      | none =>
          rw [Occurrence.isPlain, hq, hc] at h
          cases h

theorem readQuantifier_modifiers (ho : o.Valid ignoreCase) (hmodified : o.isPlain = false)
    (rest : Text) : readQuantifier (o.quantifier.elim [] Quantifier.display ++
      (o.constraint.elim [] Constraint.rendered ++ rest)) =
        .ok (o.quantifier, (o.quantifier.elim [] Quantifier.display).length) := by
  cases hq : o.quantifier with
  | some q => exact readQuantifier_display (ho.quantifier hq).1 (ho.quantifier hq).2 _
  | none =>
      cases hc : o.constraint with
      | some c => rfl
      | none =>
          rw [Occurrence.isPlain, hq, hc] at hmodified
          cases hmodified

theorem readConstraints_modifiers (ho : o.Valid ignoreCase) {rest : Text}
    (hrest : rest.head? ≠ some '[') :
    readConstraints ignoreCase offset none (o.constraint.elim [] Constraint.rendered ++ rest) =
      .ok (o.constraint, (o.constraint.elim [] Constraint.rendered).length) := by
  cases hc : o.constraint with
  | some c => exact readConstraints_rendered (ho.compiles hc) (ho.closed hc) hrest
  | none => exact readConstraints_of_head hrest

theorem readModifiers_modifiers (ho : o.Valid ignoreCase) (hmodified : o.isPlain = false)
    {rest : Text} (hrest : rest.head? ≠ some '[') :
    readModifiers ignoreCase offset (o.modifiers ++ rest) =
      .ok (o.quantifier, o.constraint, o.modifiers.length) := by
  rw [readModifiers, if_pos (modifiersFollow_modifiers hmodified rest),
    modifiers_of_not_isPlain hmodified]
  simp only [List.cons_append, List.append_assoc, List.drop_succ_cons, List.drop_zero,
    readQuantifier_modifiers ho hmodified, mapError_ok, bind, Except.bind, List.drop_left,
    readConstraints_modifiers ho hrest, List.length_cons, List.length_append]
  rfl

end Modifiers

section Neighbours

variable {ignoreCase : Bool} {offset : Nat} {o : Occurrence} {segments : List Segment}

theorem modifiersFollow_eq (t : Text) : modifiersFollow t =
    (t.head? == some ':' && (t.drop 1).head?.any (['*', '+', '?', '\x7b', '['].contains ·)) := by
  match t with
  | [] => rfl
  | [c] => simp [modifiersFollow]
  | c :: d :: t =>
      by_cases hc : c = ':'
      · subst hc
        rfl
      · simp [modifiersFollow, hc]

theorem render_cons (s : Segment) (segments : List Segment) :
    render (s :: segments) = s.rendered ++ render segments :=
  List.flatMap_cons

theorem modifiersFollow_escape {t rest : Text} (ht : t ≠ []) (h : modifiersFollow t = false)
    (hrest : rest.head?.all (· == '\'') = true) : modifiersFollow (escape t ++ rest) = false := by
  cases t with
  | nil => exact absurd rfl ht
  | cons c t =>
      by_cases hc : c = ':'
      · subst hc
        have htail : (escape (':' :: t) ++ rest).drop 1 = escape t ++ rest := rfl
        rw [modifiersFollow_eq] at h ⊢
        rw [htail]
        cases t with
        | nil =>
            cases rest with
            | nil => rfl
            | cons d rest =>
                obtain rfl : d = '\'' := by simpa using hrest
                rfl
        | cons d t =>
            rw [head?_escape d]
            split_ifs <;> simp_all
      · rw [modifiersFollow_eq, head?_escape]
        split_ifs <;> simp [hc]

theorem head?_of_text {t : Text} (h : (text t :: segments).IsChain MayPrecede) (u : Text) :
    segments.head? ≠ some (text u) := by
  rintro hu
  obtain ⟨rest, rfl⟩ := List.head?_eq_some_iff.mp hu
  cases (List.isChain_cons_cons.mp h).1

theorem head?_render {segments : List Segment} (h : ∀ u, segments.head? ≠ some (text u)) :
    (render segments).head?.all (· == '\'') = true := by
  cases segments with
  | nil => rfl
  | cons s segments =>
      cases s with
      | text u => exact absurd rfl (h u)
      | wildcard o => rfl

theorem endsName_escape {t : Text} (ht : t ≠ []) (h : EndsName t) (rest : Text) :
    EndsName (escape t ++ rest) := by
  cases t with
  | nil => exact absurd rfl ht
  | cons c t =>
      rw [EndsName, head?_escape]
      split_ifs
      · decide
      · exact h

theorem head?_escape_ne_quote {t : Text} (ht : t ≠ []) (rest : Text) :
    (escape t ++ rest).head? ≠ some '\'' := by
  cases t with
  | nil => exact absurd rfl ht
  | cons c t =>
      rw [head?_escape]
      split_ifs with hc
      · decide
      · exact fun h => hc (.inl (Option.some.inj h))

theorem head?_escape_ne_bracket {t : Text} (ht : t ≠ []) (h : t.head? ≠ some '[') (rest : Text) :
    (escape t ++ rest).head? ≠ some '[' := by
  cases t with
  | nil => exact absurd rfl ht
  | cons c t =>
      rw [head?_escape]
      split_ifs
      · decide
      · exact h

theorem plain_followed (ho : o.isPlain = true) (hvalid : ∀ s ∈ segments, s.Valid ignoreCase)
    (h : (wildcard o :: segments).IsChain MayPrecede) :
    EndsName (render segments) ∧ (render segments).head? ≠ some '\'' ∧
      modifiersFollow (render segments) = false := by
  cases segments with
  | nil => exact ⟨rfl, (Option.some_ne_none _).symm, rfl⟩
  | cons s segments =>
      obtain ⟨hnext, hchain⟩ := List.isChain_cons_cons.mp h
      cases hnext with
      | modified hmodified => exact absurd (hmodified.symm.trans ho) Bool.false_ne_true
      | wildcard hmodified => exact absurd (hmodified.symm.trans ho) Bool.false_ne_true
      | plain _ hname hmodifiers =>
          have ht := hvalid _ List.mem_cons_self
          rw [render_cons]
          exact ⟨endsName_escape ht hname _, head?_escape_ne_quote ht _,
            modifiersFollow_escape ht hmodifiers (head?_render (head?_of_text hchain))⟩

theorem modified_followed (ho : o.isPlain = false) (hvalid : ∀ s ∈ segments, s.Valid ignoreCase)
    (h : (wildcard o :: segments).IsChain MayPrecede) : (render segments).head? ≠ some '[' := by
  cases segments with
  | nil => exact (Option.some_ne_none _).symm
  | cons s segments =>
      rw [render_cons]
      cases (List.isChain_cons_cons.mp h).1 with
      | plain hplain => exact absurd (ho.symm.trans hplain) Bool.false_ne_true
      | modified _ ht => exact head?_escape_ne_bracket (hvalid _ List.mem_cons_self) ht _
      | wildcard => exact (by decide : some '\'' ≠ some '[')

end Neighbours

section Scan

variable {ignoreCase : Bool} {offset : Nat} {o : Occurrence} {segments : List Segment}

theorem scanFrom_rendered (ho : o.Valid ignoreCase) (hvalid : ∀ s ∈ segments, s.Valid ignoreCase)
    (h : (wildcard o :: segments).IsChain MayPrecede) :
    scanFrom ignoreCase offset (o.rendered ++ render segments) =
      (scanFrom ignoreCase (offset + Text.bytes o.rendered) (render segments)).map
        (wildcard { o with offset } :: ·) := by
  have hread : EndsName (o.modifiers ++ render segments) ∧
      (o.modifiers ++ render segments).head? ≠ some '\'' ∧
        readModifiers ignoreCase offset (o.modifiers ++ render segments) =
          .ok (o.quantifier, o.constraint, o.modifiers.length) := by
    cases hplain : o.isPlain with
    | true =>
        obtain ⟨hname, hopen, hmodifiers⟩ := plain_followed hplain hvalid h
        have hnone : o.quantifier = none ∧ o.constraint = none := by
          simpa [Occurrence.isPlain] using hplain
        rw [modifiers_of_isPlain hplain, List.nil_append, readModifiers, hmodifiers, hnone.1, hnone.2]
        exact ⟨hname, hopen, rfl⟩
    | false =>
        have hbracket := modified_followed hplain hvalid h
        refine ⟨?_, ?_, readModifiers_modifiers ho hplain hbracket⟩
        · rw [modifiers_of_not_isPlain hplain]
          rfl
        · rw [modifiers_of_not_isPlain hplain]
          exact (by decide : some ':' ≠ some '\'')
  obtain ⟨hname, hopen, hmodifiers⟩ := hread
  have hrendered : o.rendered ++ render segments =
      '\'' :: '_' :: (o.name ++ (o.modifiers ++ render segments)) := by
    rw [Occurrence.rendered, List.cons_append, List.cons_append, List.append_assoc]
  have hbytes : offset + 1 + Text.bytes ('_' :: (o.name ++ o.modifiers)) =
      offset + Text.bytes o.rendered := by
    rw [Nat.add_assoc]
    rfl
  rw [hrendered, scanFrom_variable ho.name hname hopen, hmodifiers]
  simp only [List.take_left, List.drop_left, hbytes]

/-- The segments, the first of which begins at the offset, with the places of their quotes. -/
def locateFrom (offset : Nat) : List Segment → List Segment
  | [] => []
  | s :: segments => s.located offset :: locateFrom (offset + Text.bytes s.rendered) segments

theorem locateFrom_eq_mapIdx (segments : List Segment) (offset : Nat) : locateFrom offset segments =
    segments.mapIdx fun i s => s.located (offset + Text.bytes (render (segments.take i))) := by
  induction segments generalizing offset with
  | nil => rfl
  | cons s segments ih =>
      rw [locateFrom, ih, List.mapIdx_cons]
      simp only [List.take_succ_cons, render_cons, Text.bytes_append, Nat.add_assoc]
      rfl

theorem head?_locateFrom (h : ∀ t, segments.head? ≠ some (text t)) (t : Text) :
    (locateFrom offset segments).head? ≠ some (text t) := by
  cases segments with
  | nil => exact (Option.some_ne_none _).symm
  | cons s segments =>
      cases s with
      | text u => exact absurd rfl (h u)
      | wildcard o => simp [locateFrom, located]

theorem scanFrom_render (hvalid : ∀ s ∈ segments, s.Valid ignoreCase)
    (hchain : segments.IsChain MayPrecede) (offset : Nat) :
    scanFrom ignoreCase offset (render segments) = .ok (locateFrom offset segments) := by
  induction segments generalizing offset with
  | nil =>
      rw [render, List.flatMap_nil, scanFrom]
      rfl
  | cons s segments ih =>
      have hnext := ih (fun s hs => hvalid s (List.mem_cons_of_mem _ hs)) hchain.tail
      rw [render_cons]
      cases s with
      | text t =>
          rw [rendered, scanFrom_escape_append, hnext, Except.map,
            foldr_consChar (hvalid _ List.mem_cons_self) (head?_locateFrom (head?_of_text hchain))]
          rfl
      | wildcard o =>
          rw [rendered, scanFrom_rendered (hvalid _ List.mem_cons_self)
            (fun s hs => hvalid s (List.mem_cons_of_mem _ hs)) hchain, hnext]
          rfl

/-- A template that is written segment by segment is scanned into these segments. -/
theorem scan_render (hvalid : ∀ s ∈ segments, s.Valid ignoreCase)
    (hchain : segments.IsChain MayPrecede) : scan ignoreCase (render segments) =
      .ok (segments.mapIdx fun i s => s.located (Text.bytes (render (segments.take i)))) := by
  rw [scan, scanFrom_render hvalid hchain, locateFrom_eq_mapIdx]
  simp only [Nat.zero_add]

/-- A backslash and a colon before a wildcard, an expression that ends in a parenthesis, a wildcard
right behind it, and a colon that belongs to a text. -/
def neighbours (r : Regex) : List Segment :=
  [text "é\\:".toList,
    wildcard ⟨['x'], 0, some ⟨2, Quantifier.unbounded⟩, some ⟨"(a|b)".toList, true, r⟩⟩,
    wildcard ⟨[], 0, none, none⟩, text ": T".toList]

theorem render_neighbours (r : Regex) :
    render (neighbours r) = "é\\\\:'_x:\x7b2,\x7d[!regex((a|b))]'_: T".toList := by
  rfl

theorem neighbours_valid {r : Regex} (h : Regex.read false (Constraint.anchored "(a|b)".toList) = .ok r) :
    ∀ s ∈ neighbours r, s.Valid false := by
  have hclosed : ¬ ")]".toList <:+: "(a|b)".toList := by decide
  have hfirst : Occurrence.Valid false
      ⟨['x'], 0, some ⟨2, Quantifier.unbounded⟩, some ⟨"(a|b)".toList, true, r⟩⟩ := by
    refine ⟨rfl, fun hq => ?_, fun hc => ?_, fun hc => ?_⟩
    · cases hq
      decide
    · cases hc
      rw [Constraint.compile, h]
      rfl
    · cases hc
      exact hclosed
  have hsecond : Occurrence.Valid false ⟨[], 0, none, none⟩ := by
    refine ⟨rfl, fun hq => ?_, fun hc => ?_, fun hc => ?_⟩
    · cases hq
    · cases hc
    · cases hc
  intro s hs
  simp only [neighbours, List.mem_cons, List.not_mem_nil, or_false] at hs
  rcases hs with rfl | rfl | rfl | rfl
  · exact List.cons_ne_nil _ _
  · exact hfirst
  · exact hsecond
  · exact List.cons_ne_nil _ _

theorem neighbours_chain (r : Regex) : (neighbours r).IsChain MayPrecede :=
  .cons_cons (.text _ _) (.cons_cons (.wildcard rfl _) (.cons_cons (.plain rfl rfl rfl)
    (.singleton _)))

theorem scan_render_neighbours : ∃ r : Regex,
    Regex.read false (Constraint.anchored "(a|b)".toList) = .ok r ∧
      (∀ s ∈ neighbours r, s.Valid false) ∧ (neighbours r).IsChain MayPrecede ∧
        scan false "é\\\\:'_x:\x7b2,\x7d[!regex((a|b))]'_: T".toList = .ok
          [text "é\\:".toList,
            wildcard ⟨['x'], 5, some ⟨2, Quantifier.unbounded⟩, some ⟨"(a|b)".toList, true, r⟩⟩,
            wildcard ⟨[], 28, none, none⟩, text ": T".toList] := by
  have hok : (Regex.read false (Constraint.anchored "(a|b)".toList)).isOk = true := by
    decide +kernel
  cases hread : Regex.read false (Constraint.anchored "(a|b)".toList) with
  | error e =>
      rw [hread] at hok
      cases hok
  | ok r =>
      have hscan := scan_render (neighbours_valid hread) (neighbours_chain r)
      rw [render_neighbours] at hscan
      refine ⟨r, rfl, neighbours_valid hread, neighbours_chain r, hscan.trans ?_⟩
      change Except.ok [text _, wildcard ⟨_, Text.bytes (render ((neighbours r).take 1)), _, _⟩,
        wildcard ⟨_, Text.bytes (render ((neighbours r).take 2)), _, _⟩, text _] = _
      have hfirst : render ((neighbours r).take 1) = "é\\\\:".toList := rfl
      have hsecond : render ((neighbours r).take 2) =
          "é\\\\:'_x:\x7b2,\x7d[!regex((a|b))]".toList := rfl
      have hbytes : Text.bytes "é\\\\:".toList = 5 := by decide +kernel
      have hbytes' : Text.bytes "é\\\\:'_x:\x7b2,\x7d[!regex((a|b))]".toList = 28 := by
        decide +kernel
      rw [hfirst, hsecond, hbytes, hbytes']

end Scan

end Segment

end ShapeSearch
