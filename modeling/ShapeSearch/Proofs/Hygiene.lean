import Mathlib.Data.List.Infix
import ShapeSearch.Proofs.Emission
import ShapeSearch.Proofs.Numerals
import ShapeSearch.Proofs.Placeholders

namespace ShapeSearch

namespace Text

variable {radix n m : Nat} {t : Text}

theorem not_mem_of_readDigitsAfter? (h : readDigitsAfter? radix n t = some m) : '_' ∉ t := by
  induction t generalizing n with
  | nil => exact List.not_mem_nil
  | cons c t ih =>
      rw [readDigitsAfter?] at h
      intro hmem
      rcases List.mem_cons.mp hmem with rfl | ht
      · have hnone : digitValue? '_' = none := by decide
        rw [hnone] at h
        cases h
      · split at h
        · split at h
          · exact ih h ht
          · cases h
        · cases h

theorem not_mem_of_readUnsigned? {bound : Nat} (h : readUnsigned? radix bound t = some m) :
    '_' ∉ t := by
  have hdigits {u : Text} (hu : readDigits? radix u = some m) : '_' ∉ u := by
    cases u with
    | nil => exact List.not_mem_nil
    | cons c u => exact not_mem_of_readDigitsAfter? hu
  simp only [readUnsigned?, Option.filter_eq_some_iff] at h
  split at h
  next rest =>
    rw [List.mem_cons, not_or]
    exact ⟨by decide, hdigits h.1⟩
  next => exact hdigits h.1

theorem eq_of_append_cons {c : Char} {u v x y : Text} (hu : c ∉ u) (hv : c ∉ v)
    (h : u ++ c :: x = v ++ c :: y) : u = v := by
  induction u generalizing v with
  | nil =>
      cases v with
      | nil => rfl
      | cons d v => exact absurd ((List.cons.inj h).1 ▸ List.mem_cons_self) hv
  | cons d u ih =>
      cases v with
      | nil => exact absurd ((List.cons.inj h).1 ▸ List.mem_cons_self) hu
      | cons e v =>
          obtain ⟨rfl, htail⟩ := List.cons.inj h
          rw [ih (fun hmem => hu (List.mem_cons_of_mem d hmem))
            (fun hmem => hv (List.mem_cons_of_mem d hmem)) htail]

theorem exists_blanks (t : Text) :
    ∃ blanks, t = t.trimEnd ++ blanks ∧ ∀ c ∈ blanks, isBlank c = true := by
  refine ⟨(t.reverse.takeWhile isBlank).reverse, ?_, fun c hc => ?_⟩
  · rw [trimEnd, ← List.reverse_append, List.takeWhile_append_dropWhile, List.reverse_reverse]
  · exact List.mem_takeWhile_imp (List.mem_reverse.mp hc)

end Text

namespace Template

/-- What every placeholder and every text that reads as one has behind its first two characters. -/
def stem : Text :=
  "ssr_var".toList

theorem placeholderNumber?_eq_some {t : Text} {m : Nat} (h : placeholderNumber? t = some m) :
    ∃ number, t = "__".toList ++ (stem ++ ('_' :: (number ++ "__".toList))) ∧
      Text.readUnsigned? 10 UInt64.size number = some m := by
  simp only [placeholderNumber?, Option.bind_eq_some_iff] at h
  obtain ⟨number, ⟨rest, hrest, hnumber⟩, hread⟩ := h
  obtain ⟨⟨rest', rfl⟩, rfl⟩ := Segment.afterFirst?_eq_some_iff.mp hrest
  simp only [Text.beforeLast?, List.isSuffixOf_iff_suffix] at hnumber
  split at hnumber
  next hsuffix =>
    obtain ⟨before, rfl⟩ := hsuffix
    rw [List.length_append, Nat.add_sub_cancel, List.take_left, Option.some.injEq] at hnumber
    subst hnumber
    exact ⟨before, rfl, hread⟩
  next => cases hnumber

theorem placeholder_eq (k : Nat) : placeholder k =
    "__".toList ++ (stem ++ ('_' :: (Text.decimal k ++ "__".toList))) :=
  List.append_assoc _ _ _

theorem placeholder_eq_concat (k : Nat) :
    placeholder k = ("__ssr_var_".toList ++ Text.decimal k ++ ['_']) ++ ['_'] :=
  (List.append_assoc _ ['_'] ['_']).symm

theorem placeholderNumber?_placeholder {k : Nat} (h : k < UInt64.size) :
    placeholderNumber? (placeholder k) = some k := by
  have hafter : (placeholder k).afterFirst? "__ssr_var_".toList =
      some (Text.decimal k ++ "__".toList) := by
    have hplaceholder : placeholder k =
        "__ssr_var_".toList ++ (Text.decimal k ++ "__".toList) := List.append_assoc _ _ _
    rw [hplaceholder]
    refine Segment.afterFirst?_eq_some_iff.mpr ⟨List.prefix_append _ _, ?_⟩
    rw [List.drop_left]
  have hbefore : (Text.decimal k ++ "__".toList).beforeLast? "__".toList = some (Text.decimal k) := by
    rw [Text.beforeLast?, if_pos (List.isSuffixOf_iff_suffix.mpr (List.suffix_append _ _)),
      List.length_append, Nat.add_sub_cancel, List.take_left]
  rw [placeholderNumber?, hafter, Option.bind_some, hbefore, Option.bind_some,
    Text.readUnsigned?_decimal h]

theorem eq_placeholder {t rest rest' : Text} {k m : Nat} (ht : placeholderNumber? t = some m)
    (h : t ++ rest = placeholder k ++ rest') : t = placeholder k := by
  obtain ⟨number, rfl, hread⟩ := placeholderNumber?_eq_some ht
  rw [placeholder_eq] at h ⊢
  have hdecimal : '_' ∉ Text.decimal k := fun hmem => absurd (Text.decimal_digits _ hmem) (by decide)
  simp only [List.append_assoc, List.cons_append, List.append_cancel_left_eq, List.cons.injEq,
    true_and] at h
  rw [Text.eq_of_append_cons (Text.not_mem_of_readUnsigned? hread) hdecimal h]

theorem exists_placeholder (k : Nat) :
    ∃ rest, placeholder k = '_' :: '_' :: 's' :: 's' :: rest ∧ 's' ∉ rest := by
  refine ⟨"r_var_".toList ++ (Text.decimal k ++ "__".toList), placeholder_eq k, ?_⟩
  have hdigits : 's' ∉ Text.decimal k := fun h => absurd (Text.decimal_digits _ h) (by decide)
  simp [hdigits]

theorem eq_of_placeholder_eq {k : Nat} {before after : Text}
    (h : placeholder k = before ++ (stem ++ after)) : before = "__".toList := by
  obtain ⟨rest, hrest, hs⟩ := exists_placeholder k
  have hstem : stem = 's' :: 's' :: "r_var".toList := rfl
  rw [hrest, hstem] at h
  rcases before with _ | ⟨a, _ | ⟨b, _ | ⟨c, before⟩⟩⟩
  · simp at h
  · simp at h
  · simp only [List.cons_append, List.cons.injEq] at h
    rw [← h.1, ← h.2.1]
    rfl
  · simp only [List.cons_append, List.cons.injEq] at h
    obtain ⟨-, -, -, h⟩ := h
    cases before with
    | nil => exact absurd ((List.cons.inj h).2 ▸ List.mem_cons_self) hs
    | cons d before =>
        have hmem : 's' ∈ before ++ ('s' :: 's' :: "r_var".toList ++ after) := by simp
        exact absurd ((List.cons.inj h).2 ▸ hmem) hs

theorem stem_prefixes : ∀ left ∈ stem.inits, left.getLast? = some '_' →
    left.dropLast.getLast? = some 'r' := by
  decide

theorem stem_suffixes : ∀ right ∈ stem.tails, right.head? = some '_' → right[1]? = some 'v' := by
  decide

theorem not_straddles_end {k : Nat} {before left right : Text} (hstem : stem = left ++ right)
    (hne : left ≠ []) (h : placeholder k = before ++ left) : False := by
  have hleft : left ∈ stem.inits := (List.mem_inits _ _).mpr ⟨right, hstem.symm⟩
  obtain rfl | ⟨left, c, rfl⟩ := List.eq_nil_or_concat left
  · exact hne rfl
  rw [List.concat_eq_append] at hleft h
  rw [placeholder_eq_concat, ← List.append_assoc] at h
  obtain ⟨hrest, hc⟩ := List.append_inj' h rfl
  obtain rfl := List.cons.inj hc |>.1
  have hlast := stem_prefixes _ hleft List.getLast?_concat
  rw [List.dropLast_concat] at hlast
  have hends := congrArg List.getLast? hrest
  rw [List.getLast?_concat, List.getLast?_append, hlast] at hends
  cases hends

theorem not_straddles_start {k : Nat} {left right after rest : Text} (hstem : stem = left ++ right)
    (hne : right ≠ []) (h : placeholder k ++ rest = right ++ after) : False := by
  obtain ⟨tail, htail, -⟩ := exists_placeholder k
  rw [htail] at h
  have hright := stem_suffixes right ((List.mem_tails _ _).mpr ⟨left, hstem.symm⟩)
  rcases right with _ | ⟨a, _ | ⟨b, right⟩⟩
  · exact hne rfl
  · obtain ⟨rfl, -⟩ := List.cons.inj h
    cases hright rfl
  · obtain ⟨rfl, hrest⟩ := List.cons.inj h
    obtain ⟨rfl, -⟩ := List.cons.inj hrest
    cases hright rfl

end Template

namespace Segment

open Template

/-- Where the stem stands in what is parsed, there is a placeholder, or a text that holds it. -/
theorem stem_stands {k n : Nat} {ss : List Segment} (hapart : ss.IsChain Apart)
    (h : Text.Stands stem n (emission k ss)) (offset : Nat) : ∃ span ∈ spans k offset ss,
      (∃ o, span.segment = wildcard o ∧ offset + n = span.start + 2) ∨
        ∃ t m, span.segment = text t ∧ offset + n = span.start + m ∧ Text.Stands stem m t := by
  induction ss generalizing k offset n with
  | nil =>
      have hnone : ¬ stem <:+: [] := by decide
      exact absurd h.isInfix hnone
  | cons s ss ih =>
      rw [emission] at h
      rcases h.of_append with hs | ⟨m, rfl, hs⟩ | ⟨before, left, right, after, hstem, hl, hr, hend, hnext⟩
      · refine ⟨_, List.mem_cons_self, ?_⟩
        cases s with
        | text t => exact .inr ⟨t, n, rfl, rfl, hs⟩
        | wildcard o =>
            obtain ⟨before, after, heq, rfl⟩ := hs
            rw [eq_of_placeholder_eq heq]
            exact .inl ⟨o, rfl, rfl⟩
      · obtain ⟨span, hspan, hstands⟩ :=
          ih hapart.tail hs (offset + Text.bytes (s.emitted k))
        rw [Nat.add_assoc] at hstands
        exact ⟨span, List.mem_cons_of_mem _ hspan, hstands⟩
      · cases s with
        | wildcard o => exact (not_straddles_end hstem hl hend).elim
        | text t =>
            cases ss with
            | nil =>
                obtain ⟨rfl, -⟩ := List.append_eq_nil_iff.mp hnext.symm
                exact absurd rfl hr
            | cons s ss =>
                cases s with
                | text u => exact (List.isChain_cons_cons.mp hapart).1.elim
                | wildcard o => exact (not_straddles_start hstem hr hnext).elim

end Segment

namespace Pattern

open Template Segment

def wrapFront : Text :=
  "fn __ssr_template__() \x7b ".toList

theorem wrap_eq_append (t : Text) : ∃ statement,
    wrap t = wrapFront ++ (statement ++ [' ', '\x7d']) ∧
      (statement = t.trimEnd ∨ statement = t.trimEnd ++ [';']) := by
  refine ⟨_, List.append_assoc _ _ _, ?_⟩
  split
  · exact .inl rfl
  · split
    · exact .inl rfl
    · exact .inr rfl

theorem exists_wrap (t : Text) : ∃ c rest, wrap t = wrapFront ++ (t.trimEnd ++ c :: rest) ∧
    c ∉ stem ∧ ¬ stem <:+: rest := by
  have hbrace : ¬ stem <:+: ['\x7d'] := by decide
  have hsemicolon : ¬ stem <:+: [' ', '\x7d'] := by decide
  obtain ⟨statement, hwrap, rfl | rfl⟩ := wrap_eq_append t
  · exact ⟨' ', ['\x7d'], hwrap, by decide, hbrace⟩
  · rw [List.append_assoc t.trimEnd] at hwrap
    exact ⟨';', [' ', '\x7d'], hwrap, by decide, hsemicolon⟩

theorem stands_of_wrap {t : Text} {n : Nat} (h : Text.Stands stem n (wrap t)) :
    ∃ m, n = Text.bytes wrapFront + m ∧ Text.Stands stem m t := by
  obtain ⟨c, rest, hwrap, hc, hrest⟩ := exists_wrap t
  obtain ⟨blanks, ht, -⟩ := t.exists_blanks
  have hfront : wrapFront = "fn __ssr_template__() \x7b".toList ++ [' '] := rfl
  have hnone : ¬ stem <:+: "fn __ssr_template__() \x7b".toList := by decide
  have hspace : ' ' ∉ stem := by decide
  rw [hwrap, hfront, List.append_assoc] at h
  rcases h.of_append_cons hspace with hs | ⟨m, rfl, hs⟩
  · exact absurd hs.isInfix hnone
  · refine ⟨m, ?_, ?_⟩
    · rw [hfront, Text.bytes_append]
      rfl
    · rcases Text.Stands.of_append_cons hs hc with hleft | ⟨k, -, hright⟩
      · rw [ht]
        exact hleft.append_right blanks
      · exact absurd hright.isInfix hrest

theorem stands_wrap {t u : Text} {n : Nat} (h : Text.Stands u n (wrapFront ++ t)) {c : Char}
    (hlast : u.getLast? = some c) (hc : Text.isBlank c = false) : Text.Stands u n (wrap t) := by
  obtain ⟨d, rest, hwrap, -⟩ := exists_wrap t
  obtain ⟨blanks, ht, hblanks⟩ := t.exists_blanks
  have hmem {v : Text} (hv : v.getLast? = some c) {w : Text} (hw : blanks = v ++ w) : False := by
    have hblank := hblanks c (hw ▸ List.mem_append_left w (List.mem_of_getLast? hv))
    rw [hc] at hblank
    cases hblank
  rw [ht, ← List.append_assoc] at h
  rw [hwrap, ← List.append_assoc]
  rcases h.of_append with hs | ⟨m, -, hs⟩ | ⟨before, left, right, after, rfl, -, hne, -, hright⟩
  · exact hs.append_right _
  · obtain ⟨before, after, heq, -⟩ := hs
    have hends : (before ++ u).getLast? = some c := by
      rw [List.getLast?_append, hlast]
      rfl
    exact (hmem hends (heq.trans (List.append_assoc _ _ _).symm)).elim
  · have hends : right.getLast? = some c := by
      rwa [List.getLast?_append_of_ne_nil _ hne] at hlast
    exact (hmem hends hright).elim

variable {grammar : Grammar} {config : Config} {t : Text} {p : Pattern}

def front (p : Pattern) : Text :=
  if p.wrapped then wrapFront else []

theorem parsed_text (h : compile grammar config t = .ok p) : p.parsed.text =
    if p.wrapped then wrap p.template.normalised else p.template.normalised := by
  obtain ⟨hwrapped, hparsed, -⟩ | ⟨hwrapped, -, hparsed, -⟩ := parse_eq_ok_iff.mp (parse_of_compile h).1
  · rw [hwrapped, hparsed]
    rfl
  · rw [hwrapped, hparsed]
    rfl

theorem stands_parsed (h : compile grammar config t = .ok p) {u : Text} {n : Nat}
    (hu : Text.Stands u n (p.front ++ p.template.normalised)) {c : Char}
    (hlast : u.getLast? = some c) (hc : Text.isBlank c = false) : Text.Stands u n p.parsed.text := by
  rw [parsed_text h]
  rw [front] at hu
  cases hwrapped : p.wrapped with
  | false =>
      rw [hwrapped] at hu
      exact hu
  | true =>
      rw [hwrapped] at hu
      exact stands_wrap hu hlast hc

theorem stands_of_parsed (h : compile grammar config t = .ok p) {n : Nat}
    (hn : Text.Stands stem n p.parsed.text) :
    ∃ m, n = Text.bytes p.front + m ∧ Text.Stands stem m p.template.normalised := by
  rw [parsed_text h] at hn
  rw [front]
  cases hwrapped : p.wrapped with
  | false =>
      rw [hwrapped] at hn
      exact ⟨n, (Nat.zero_add n).symm, hn⟩
  | true =>
      rw [hwrapped] at hn
      exact stands_of_wrap hn

/-- A node has exactly the bytes of the placeholder for a wildcard, and a variable is the one of that
wildcard. -/
def Placed (p : Pattern) (segments : List Segment) (x : Node) (v : Variable) : Prop :=
  ∃ span ∈ spans 0 p.front.bytes segments, ∃ o, span.segment = .wildcard o ∧
    x.start = span.start ∧ x.stop = span.stop ∧
      p.template.variableAt? span.number = some v ∧ v.Serves o

/-- Where the stem of a placeholder would be in the text of a node, it is part of a text that the
template is written with. -/
def Literal (p : Pattern) (segments : List Segment) (x : Node) : Prop :=
  ∃ span ∈ spans 0 p.front.bytes segments, ∃ t m, span.segment = .text t ∧
    x.start + 2 = span.start + m ∧ Text.Stands stem m t

section Places

variable {segments : List Segment} {span : Span} {o : Occurrence} {x : Node}

theorem placeholder_stands (h : compile grammar config t = .ok p)
    (hemission : p.template.normalised = emission 0 segments)
    (hspan : span ∈ spans 0 p.front.bytes segments) (ho : span.segment = .wildcard o) :
    Text.Stands (placeholder span.number) span.start p.parsed.text ∧
      span.stop = span.start + Text.bytes (placeholder span.number) := by
  obtain ⟨hstands, hstop⟩ := mem_spans hspan
  rw [ho] at hstands hstop
  rw [← hemission] at hstands
  have hlast : (placeholder span.number).getLast? = some '_' := by
    rw [placeholder_eq_concat, List.getLast?_concat]
  exact ⟨stands_parsed h hstands hlast (by decide), hstop⟩

theorem variableFor?_placeholder {k : Nat} (hk : k < UInt64.size) (u : Template) :
    u.variableFor? (placeholder k) = u.variableAt? k := by
  rw [variableFor?, placeholderNumber?_placeholder hk]
  rfl

theorem number_lt (hsize : (wildcards segments).length < UInt64.size)
    (hspan : span ∈ spans 0 p.front.bytes segments) (ho : span.segment = .wildcard o) :
    span.number < UInt64.size := by
  obtain ⟨j, hnumber, hj⟩ := wildcards_of_mem_spans hspan ho
  obtain ⟨hlt, -⟩ := List.getElem?_eq_some_iff.mp hj
  omega

theorem wildcard?_of_placed (h : compile grammar config t = .ok p)
    (hemission : p.template.normalised = emission 0 segments)
    (hsize : (wildcards segments).length < UInt64.size) {v : Variable} (hx : p.Placed segments x v) :
    p.wildcard? x = some ⟨v, x.isGenericParameter⟩ := by
  obtain ⟨span, hspan, o, ho, hstart, hstop, hv, -⟩ := hx
  obtain ⟨hstands, hbytes⟩ := placeholder_stands h hemission hspan ho
  have htext : x.text p.parsed.text = placeholder span.number := by
    have hslice : x.text p.parsed.text = Text.slice x.start x.stop p.parsed.text := rfl
    rw [hslice, hstart, hstop, hbytes, hstands.slice]
  rw [wildcard?, htext, variableFor?_placeholder (number_lt hsize hspan ho), hv, Option.map_some]

theorem placed_or_literal (h : compile grammar config t = .ok p)
    (hemission : p.template.normalised = emission 0 segments) (hapart : segments.IsChain Segment.Apart)
    (hdeclares : p.template.Declares (wildcards segments))
    (hsize : (wildcards segments).length < UInt64.size) {w : Wildcard} (hw : p.wildcard? x = some w) :
    p.Placed segments x w.ofVariable ∨ p.Literal segments x := by
  obtain ⟨v, hv, rfl⟩ := Option.map_eq_some_iff.mp hw
  obtain ⟨m, hm⟩ : ∃ m, placeholderNumber? (x.text p.parsed.text) = some m := by
    obtain ⟨i, hi, -⟩ := Option.bind_eq_some_iff.mp hv
    obtain ⟨m, hm, -⟩ := Option.bind_eq_some_iff.mp hi
    exact ⟨m, hm⟩
  obtain ⟨number, htext, -⟩ := placeholderNumber?_eq_some hm
  have hne : x.text p.parsed.text ≠ [] := by
    rw [htext]
    exact List.cons_ne_nil _ _
  obtain ⟨hx, hstop⟩ := Text.stands_of_slice_ne_nil hne
  have hstem : Text.Stands stem 2 (x.text p.parsed.text) :=
    ⟨"__".toList, '_' :: (number ++ "__".toList), htext, rfl⟩
  obtain ⟨n, hn, hstands⟩ := stands_of_parsed h (hstem.trans hx)
  rw [hemission] at hstands
  obtain ⟨span, hspan, ⟨o, ho, hoffset⟩ | ⟨u, k, hu, hoffset, hliteral⟩⟩ :=
    stem_stands hapart hstands (Text.bytes p.front)
  · left
    have hstart : x.label.start = span.start := by omega
    obtain ⟨hplaceholder, hbytes⟩ := placeholder_stands h hemission hspan ho
    rw [← hstart] at hplaceholder
    obtain ⟨rest, rest', hrest⟩ := hx.comparable hplaceholder
    have hsame : x.text p.parsed.text = placeholder span.number := eq_placeholder hm hrest
    obtain ⟨j, hnumber, hj⟩ := wildcards_of_mem_spans hspan ho
    obtain ⟨v', hv', hserves⟩ := hdeclares.variableAt? hj
    rw [hsame, variableFor?_placeholder (number_lt hsize hspan ho), hnumber, Nat.zero_add, hv'] at hv
    obtain rfl := Option.some.inj hv
    refine ⟨span, hspan, o, ho, hstart, ?_, ?_, hserves⟩
    · have hlength : x.label.start + Text.bytes (x.text p.parsed.text) = x.label.stop := hstop
      rw [hbytes, ← hstart, ← hsame, hlength]
      rfl
    · rw [hnumber, Nat.zero_add, hv']
  · exact .inr ⟨span, hspan, u, k, hu, hn.trans hoffset, hliteral⟩

end Places

/-- Each wildcard has a placeholder with a number of its own, and the variable that the number stands
for is the one that is written there. A node that has the bytes of a placeholder becomes a wildcard
with its variable, and every wildcard comes from such a node, except where a text of the template
itself holds the stem of a placeholder. -/
theorem placeholders_hygienic (h : compile grammar config t = .ok p)
    (hsize : Text.bytes t < UInt64.size) :
    ∃ segments, Segment.scan (!config.caseSensitive) t = .ok segments ∧
      p.template.normalised = emission 0 segments ∧
        (∀ span ∈ spans 0 (Text.bytes p.front) segments, ∀ o, span.segment = .wildcard o →
          Text.Stands (placeholder span.number) span.start p.parsed.text ∧
            ∃ v, p.template.variableAt? span.number = some v ∧ v.Serves o) ∧
          (∀ (j k : Nat) (o o' : Occurrence), (wildcards segments)[j]? = some o →
            (wildcards segments)[k]? = some o' →
              (p.template.occurrences[j]? = p.template.occurrences[k]? ↔
                j = k ∨ o.name = o'.name ∧ o.name ≠ [])) ∧
            (∀ x v, p.Placed segments x v → p.wildcard? x = some ⟨v, x.isGenericParameter⟩) ∧
              (∀ x w, p.wildcard? x = some w →
                p.Placed segments x w.ofVariable ∨ p.Literal segments x) ∧
                ((∀ u, Segment.text u ∈ segments → ¬ stem <:+: u) → ∀ x v,
                  p.wildcard? x = some ⟨v, x.isGenericParameter⟩ ↔ p.Placed segments x v) := by
  obtain ⟨hread, -⟩ := compile_eq_ok_iff.mp h
  obtain ⟨segments, hscan, hsegments⟩ := bind_eq_ok_iff.mp hread
  have hsegments := mapError_eq_ok_iff.mp hsegments
  have hemission : p.template.normalised = emission 0 segments := addSegments_emits hsegments
  have hdeclares := declares_ofSegments hsegments
  obtain ⟨hapart, hwildcards⟩ := scanFrom_spec hscan
  have hcount : (wildcards segments).length < UInt64.size :=
    Nat.lt_of_le_of_lt (Nat.le_trans hwildcards t.length_le_bytes) hsize
  have hplaced (x : Node) (v : Variable) (hx : p.Placed segments x v) :=
    wildcard?_of_placed h hemission hcount hx
  have hback (x : Node) (w : Wildcard) (hw : p.wildcard? x = some w) :=
    placed_or_literal h hemission hapart hdeclares hcount hw
  refine ⟨segments, hscan, hemission, fun span hspan o ho => ?_, fun j k o o' hj hk => ?_, hplaced,
    hback, fun hclean x v => ⟨fun hw => ?_, hplaced x v⟩⟩
  · obtain ⟨j, hnumber, hj⟩ := wildcards_of_mem_spans hspan ho
    rw [Nat.zero_add] at hnumber
    refine ⟨(placeholder_stands h hemission hspan ho).1, ?_⟩
    rw [hnumber]
    exact hdeclares.variableAt? hj
  · exact hdeclares.shared_iff (distinct_of_compile h) hj hk
  · rcases hback x _ hw with hx | ⟨span, hspan, u, m, hu, -, hliteral⟩
    · exact hx
    · exact absurd hliteral.isInfix (hclean u (hu ▸ segment_mem_of_mem_spans hspan))

/-- The last wildcard of a template with a lookalike in it. -/
theorem placeholders_hygienic_of_lookalike : ∃ p segments x v,
    compile tupleGrammar .default lookalikeText = .ok p ∧ Text.bytes lookalikeText < UInt64.size ∧
      Segment.scan (!Config.default.caseSensitive) lookalikeText = .ok segments ∧
        x ∈ p.parsed.nodes ∧ x.start = 33 ∧ v.name = "z".toList ∧ p.Placed segments x v ∧
          p.wildcard? x = some ⟨v, x.isGenericParameter⟩ := by
  have hsize : Text.bytes lookalikeText < UInt64.size := by decide
  have hfound : ((compile tupleGrammar .default lookalikeText).toOption.bind fun p =>
      (Segment.scan (!Config.default.caseSensitive) lookalikeText).toOption.bind fun segments =>
        (p.parsed.nodes.find? (·.start == 33)).map fun x => decide (x.start = 33 ∧
          ∃ span ∈ spans 0 (Text.bytes p.front) segments,
            span.segment = .wildcard ⟨"z".toList, 23, none, none⟩ ∧ x.start = span.start ∧
              x.stop = span.stop)) = some true := by
    decide +kernel
  simp only [Option.bind_eq_some_iff, Option.map_eq_some_iff, decide_eq_true_eq] at hfound
  obtain ⟨p, hp, segments, hsegments, x, hx, hat, span, hspan, ho, hstart, hstop⟩ := hfound
  have hp := ok_of_toOption hp
  have hsegments := ok_of_toOption hsegments
  obtain ⟨segments', hscan, -, hserved, -, hplaced, -⟩ := placeholders_hygienic hp hsize
  obtain rfl : segments = segments' := Except.ok.inj (hsegments.symm.trans hscan)
  obtain ⟨-, v, hv, hserves⟩ := hserved span hspan _ ho
  have hplace : p.Placed segments x v := ⟨span, hspan, _, ho, hstart, hstop, hv, hserves⟩
  exact ⟨p, segments, x, v, hp, hsize, hsegments, List.mem_of_find?_eq_some hx, hat, hserves.name,
    hplace, hplaced x v hplace⟩

/-- The identifier in front of it is written out in the template, and becomes a wildcard as well. -/
theorem literal_becomes_wildcard : ∃ p segments x w,
    compile tupleGrammar .default lookalikeText = .ok p ∧
      Segment.scan (!Config.default.caseSensitive) lookalikeText = .ok segments ∧
        x ∈ p.parsed.nodes ∧ p.wildcard? x = some w ∧ ∀ v, ¬ p.Placed segments x v := by
  have hfound : ((compile tupleGrammar .default lookalikeText).toOption.bind fun p =>
      (Segment.scan (!Config.default.caseSensitive) lookalikeText).toOption.bind fun segments =>
        (p.parsed.nodes.find? (·.start == 17)).bind fun x => (p.wildcard? x).map fun _ =>
          decide (∀ span ∈ spans 0 (Text.bytes p.front) segments, x.start ≠ span.start)) =
            some true := by
    decide +kernel
  simp only [Option.bind_eq_some_iff, Option.map_eq_some_iff, decide_eq_true_eq] at hfound
  obtain ⟨p, hp, segments, hsegments, x, hx, w, hw, hnone⟩ := hfound
  refine ⟨p, segments, x, w, ok_of_toOption hp, ok_of_toOption hsegments,
    List.mem_of_find?_eq_some hx, hw, ?_⟩
  rintro v ⟨span, hspan, -, -, hstart, -⟩
  exact hnone span hspan hstart

end Pattern

end ShapeSearch
