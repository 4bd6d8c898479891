import Mathlib.Data.List.TakeWhile
import ShapeSearch.Proofs.Outcomes
import ShapeSearch.Template.Segment

namespace ShapeSearch.Segment

variable {ignoreCase : Bool} {offset : Nat}

def IsName (name : Text) : Prop :=
  name.all isNameChar = true

def EndsName (rest : Text) : Prop :=
  rest.head?.all (!isNameChar ·) = true

theorem takeWhile_name {name rest : Text} (hname : IsName name) (hrest : EndsName rest) :
    (name ++ rest).takeWhile isNameChar = name := by
  have hnone : rest.takeWhile isNameChar = [] := by
    cases rest with
    | nil => rfl
    | cons c t => simpa [EndsName] using hrest
  rw [List.takeWhile_append_of_pos (List.all_eq_true.mp hname), hnone, List.append_nil]

theorem dropWhile_name {name rest : Text} (hname : IsName name) (hrest : EndsName rest) :
    (name ++ rest).dropWhile isNameChar = rest := by
  have hall : rest.dropWhile isNameChar = rest := by
    cases rest with
    | nil => rfl
    | cons c t => simpa [EndsName] using hrest
  rw [List.dropWhile_append_of_pos (List.all_eq_true.mp hname), hall]

theorem exists_name (t : Text) : ∃ name rest, t = name ++ rest ∧ IsName name ∧ EndsName rest := by
  refine ⟨_, _, (List.takeWhile_append_dropWhile (p := isNameChar) (l := t)).symm, ?_, ?_⟩
  · exact List.all_takeWhile
  · rw [EndsName, Option.all_eq_true]
    intro c hc
    have h := List.head?_dropWhile_not isNameChar t
    rw [hc] at h
    simpa using h

theorem exists_of_opensVariable {t : Text} (h : opensVariable t = true) : ∃ u, t = '_' :: u := by
  simp only [opensVariable] at h
  split at h
  next u => exact ⟨u, rfl⟩
  next => cases h

theorem opensVariable_append {name rest : Text} (hname : IsName name) (hrest : EndsName rest) :
    opensVariable ('_' :: (name ++ rest)) = (rest.head? != some '\'') := by
  rw [opensVariable, dropWhile_name hname hrest]

/-- Reads what a variable has behind its name. -/
def readModifiers (ignoreCase : Bool) (offset : Nat) (t : Text) :
    Except TemplateError (Option Quantifier × Option Constraint × Nat) :=
  if modifiersFollow t then do
    let (quantifier, n) ← (readQuantifier (t.drop 1)).mapError .badVariable
    let (constraint, m) ← readConstraints ignoreCase offset none (t.drop (n + 1))
    return (quantifier, constraint, n + m + 1)
  else return (none, none, 0)

theorem readVariable_append {name rest : Text} (hname : IsName name) (hrest : EndsName rest) :
    readVariable ignoreCase offset (name ++ rest) = (readModifiers ignoreCase offset rest).map
      fun (quantifier, constraint, n) =>
        (⟨name, offset, quantifier, constraint⟩, name.length + n) := by
  simp only [readVariable, readModifiers, takeWhile_name hname hrest, List.drop_left]
  split
  · cases (readQuantifier (rest.drop 1)).mapError TemplateError.badVariable with
    | error e => rfl
    | ok r =>
        simp only [bind, Except.bind]
        cases readConstraints ignoreCase offset none (rest.drop (r.2 + 1)) with
        | error e => rfl
        | ok r' => simp [Except.map, pure, Except.pure, Nat.add_assoc]
  · rfl

section Prefix

variable {x y : Text} {n : Nat}

theorem exists_of_take_cons {c : Char} (h : (c :: x).take (n + 1) = y.take (n + 1)) :
    ∃ t, y = c :: t ∧ x.take n = t.take n := by
  cases y with
  | nil => cases h
  | cons d t =>
      simp only [List.take_succ_cons, List.cons.injEq] at h
      exact ⟨t, by rw [h.1], h.2⟩

theorem take_mono {m : Nat} (h : x.take n = y.take n) (hm : m ≤ n) : x.take m = y.take m := by
  have htake := congrArg (List.take m) h
  rwa [List.take_take, List.take_take, Nat.min_eq_left hm] at htake

theorem take_drop (h : x.take n = y.take n) (k : Nat) :
    (x.drop k).take (n - k) = (y.drop k).take (n - k) := by
  rw [← List.drop_take, ← List.drop_take, h]

theorem takeWhile_of_take {p : Char → Bool} (h : x.take n = y.take n)
    (hn : (x.takeWhile p).length < n) : y.takeWhile p = x.takeWhile p := by
  induction n generalizing x y with
  | zero => exact absurd hn (Nat.not_lt_zero _)
  | succ n ih =>
      cases x with
      | nil =>
          obtain rfl : y = [] := by simpa using h.symm
          rfl
      | cons c x =>
          obtain ⟨t, rfl, ht⟩ := exists_of_take_cons h
          by_cases hc : p c = true
          · rw [List.takeWhile_cons_of_pos hc] at hn ⊢
            rw [List.takeWhile_cons_of_pos hc, ih ht (Nat.lt_of_succ_lt_succ hn)]
          · rw [List.takeWhile_cons_of_neg hc, List.takeWhile_cons_of_neg hc]

theorem head?_of_take (h : x.take (n + 1) = y.take (n + 1)) : y.head? = x.head? := by
  cases x with
  | nil =>
      obtain rfl : y = [] := by simpa using h.symm
      rfl
  | cons c x =>
      obtain ⟨t, rfl, -⟩ := exists_of_take_cons h
      rfl

/-- A text begins with an upper bound of `n` digits and a brace. -/
structure UpperBound (t : Text) (max n : Nat) : Prop where
  length : (t.takeWhile Char.isDigit).length = n
  value : readBound (t.takeWhile Char.isDigit) = .ok max
  closed : (t.drop n).head? = some '\x7d'

theorem UpperBound.of_take {max : Nat} (h : UpperBound x max n)
    (hxy : x.take (n + 1) = y.take (n + 1)) : UpperBound y max n := by
  have hdigits : y.takeWhile Char.isDigit = x.takeWhile Char.isDigit :=
    takeWhile_of_take hxy (by rw [h.length]; exact Nat.lt_succ_self n)
  have hend := take_drop hxy n
  rw [Nat.add_sub_cancel_left] at hend
  refine ⟨by rw [hdigits, h.length], by rw [hdigits, h.value], ?_⟩
  rw [head?_of_take hend, h.closed]

theorem UpperBound.head?_ne {max : Nat} (h : UpperBound x max n) : x.head? ≠ some '\x7d' := by
  intro hx
  obtain ⟨t, rfl⟩ := List.head?_eq_some_iff.mp hx
  have hvalue := h.value
  cases hvalue

theorem readBraced_range {min max : Nat} (hmin : readBound (x.takeWhile Char.isDigit) = .ok min)
    (hx : x.drop (x.takeWhile Char.isDigit).length = ',' :: y) (h : UpperBound y max n) :
    readBraced x = if max < min then .error (.reversedQuantifier min max)
      else .ok (⟨min, max⟩, (x.takeWhile Char.isDigit).length + n + 2) := by
  simp only [readBraced, hmin, hx, bind, Except.bind]
  split
  next heq => cases heq
  next t heq =>
    obtain ⟨-, rfl⟩ := List.cons.inj heq
    exact absurd rfl h.head?_ne
  next t _ heq =>
    obtain ⟨-, rfl⟩ := List.cons.inj heq
    simp only [h.value, h.length, h.closed]
    rfl
  next hother => exact (hother y rfl).elim

theorem readBraced_of_take {q : Quantifier} (h : readBraced x = .ok (q, n))
    (hxy : x.take n = y.take n) : readBraced y = .ok (q, n) := by
  simp only [readBraced] at h
  obtain ⟨min, hmin, h⟩ := bind_eq_ok_iff.mp h
  have hdigits (hn : (x.takeWhile Char.isDigit).length < n) :
      y.takeWhile Char.isDigit = x.takeWhile Char.isDigit := takeWhile_of_take hxy hn
  have hrest := take_drop hxy (x.takeWhile Char.isDigit).length
  split at h
  next t ht =>
    cases h
    rw [ht, Nat.add_sub_cancel_left] at hrest
    obtain ⟨u, hu, -⟩ := exists_of_take_cons hrest
    rw [readBraced, hdigits (Nat.lt_succ_self _), hmin, hu]
    rfl
  next t ht =>
    cases h
    rw [ht, Nat.add_sub_cancel_left] at hrest
    obtain ⟨u, hu, hu'⟩ := exists_of_take_cons hrest
    obtain ⟨v, rfl, -⟩ := exists_of_take_cons hu'
    rw [readBraced, hdigits (by omega), hmin, hu]
    rfl
  next t _ ht =>
    obtain ⟨max, hmax, h⟩ := bind_eq_ok_iff.mp h
    split at h
    · cases h
    next hclose =>
      have hupper : UpperBound t max (t.takeWhile Char.isDigit).length :=
        ⟨rfl, hmax, by simpa using hclose⟩
      split at h
      · cases h
      next hle =>
        cases h
        have hlength (k l : Nat) : k + l + 2 - k = l + 1 + 1 := by omega
        rw [ht, hlength] at hrest
        obtain ⟨u, hu, htu⟩ := exists_of_take_cons hrest
        have hsame := hdigits (by omega)
        rw [readBraced_range (by rwa [hsame]) (by rwa [hsame]) (hupper.of_take htu), if_neg hle,
          hsame]
  next => cases h

theorem readQuantifier_of_take {q : Option Quantifier} (h : readQuantifier x = .ok (q, n))
    (hxy : x.take (n + 1) = y.take (n + 1)) : readQuantifier y = .ok (q, n) := by
  cases x with
  | nil =>
      obtain rfl : y = [] := by simpa using hxy.symm
      exact h
  | cons c x =>
      obtain ⟨t, rfl, ht⟩ := exists_of_take_cons hxy
      by_cases hc : c = '\x7b'
      · subst hc
        simp only [readQuantifier] at h ⊢
        obtain ⟨⟨q', m⟩, hr, h⟩ := map_eq_ok_iff.mp h
        cases h
        rw [readBraced_of_take hr (take_mono ht (Nat.le_succ _))]
        rfl
      · rw [← h]
        simp only [readQuantifier]
        split <;> simp_all

theorem constraintBody?_cons {c : Char} (h : ¬(c = ')' ∧ x.head? = some ']')) :
    constraintBody? (c :: x) = (constraintBody? x).map (c :: ·) := by
  rw [constraintBody?]
  rintro t rfl rfl
  exact h ⟨rfl, rfl⟩

theorem constraintBody?_of_take {body : Text} (h : constraintBody? x = some body)
    (hxy : x.take (body.length + 2) = y.take (body.length + 2)) :
    constraintBody? y = some body := by
  induction x generalizing y body with
  | nil => cases h
  | cons c x ih =>
      obtain ⟨t, rfl, ht⟩ := exists_of_take_cons hxy
      have hhead : t.head? = x.head? := head?_of_take ht
      by_cases hclose : c = ')' ∧ x.head? = some ']'
      · obtain ⟨rfl, hx⟩ := hclose
        obtain ⟨u, rfl⟩ := List.head?_eq_some_iff.mp hx
        obtain ⟨v, rfl⟩ := List.head?_eq_some_iff.mp hhead
        exact h
      · rw [constraintBody?_cons hclose] at h
        rw [constraintBody?_cons (by rwa [hhead])]
        obtain ⟨rest, hrest, rfl⟩ := Option.map_eq_some_iff.mp h
        rw [ih hrest ht, Option.map_some]

theorem prefix_of_take {start : Text} (h : start <+: x) (hn : start.length ≤ n)
    (hxy : x.take n = y.take n) : start <+: y := by
  rw [List.prefix_iff_eq_take] at h ⊢
  exact h.trans (take_mono hxy hn)

theorem afterFirst?_eq_some_iff {start rest : Text} :
    Text.afterFirst? x start = some rest ↔ start <+: x ∧ rest = x.drop start.length := by
  simp only [Text.afterFirst?, List.isPrefixOf_iff_prefix]
  split
  next h => simp [h, eq_comm]
  next h => simp [h]

/-- The number of characters between the bracket and the word. -/
def negation (t : Text) : Nat :=
  if t.head? = some '!' then 1 else 0

theorem readConstraints_bracket {found r : Option Constraint} :
    readConstraints ignoreCase offset found ('[' :: x) = .ok (r, n) ↔
      "regex(".toList <+: x.drop (negation x) ∧
        ∃ body c m, constraintBody? (x.drop (negation x + 6)) = some body ∧ found = none ∧
          Constraint.compile ignoreCase body (negation x == 1) = .ok c ∧
          readConstraints ignoreCase offset (some c) (x.drop (negation x + body.length + 8)) =
            .ok (r, m) ∧ n = m + negation x + body.length + 9 := by
  have hmark : (if x.head? = some '!' then 1 else 0) = negation x := rfl
  rw [readConstraints]
  simp only [hmark]
  constructor
  · intro h
    split at h
    · cases h
    next rest hrest =>
      obtain ⟨hword, rfl⟩ := afterFirst?_eq_some_iff.mp hrest
      rw [List.drop_drop] at h
      split at h
      · cases h
      next body hbody =>
        split at h
        · cases h
        next hfound =>
          split at h
          · cases h
          next c hcompile =>
            obtain ⟨⟨r', m⟩, hnext, h⟩ := map_eq_ok_iff.mp h
            cases h
            exact ⟨hword, body, c, m, hbody, by simpa using hfound, hcompile, hnext, rfl⟩
  · rintro ⟨hword, body, c, m, hbody, rfl, hcompile, hnext, rfl⟩
    have hrest : Text.afterFirst? (x.drop (negation x)) "regex(".toList =
        some (x.drop (negation x + 6)) :=
      afterFirst?_eq_some_iff.mpr ⟨hword, (List.drop_drop ..).symm⟩
    simp only [hrest, hbody, hcompile, hnext, Option.isSome_none, Bool.false_eq_true, if_false]
    rfl

theorem readConstraints_of_head {found : Option Constraint} (h : x.head? ≠ some '[') :
    readConstraints ignoreCase offset found x = .ok (found, 0) := by
  rw [readConstraints]
  rintro t rfl
  exact h rfl

theorem readConstraints_of_take {found c : Option Constraint}
    (h : readConstraints ignoreCase offset found x = .ok (c, n)) (offset' : Nat)
    (hxy : x.take (n + 1) = y.take (n + 1)) :
    readConstraints ignoreCase offset' found y = .ok (c, n) := by
  induction hlength : x.length using Nat.strong_induction_on generalizing x y n found with
  | _ length ih =>
      by_cases hbracket : x.head? = some '['
      · obtain ⟨x, rfl⟩ := List.head?_eq_some_iff.mp hbracket
        obtain ⟨t, rfl, ht⟩ := exists_of_take_cons hxy
        obtain ⟨hword, body, d, m, hbody, rfl, hcompile, hnext, rfl⟩ := readConstraints_bracket.mp h
        have hmark : negation t = negation x := by
          rw [negation, negation, head?_of_take ht]
        refine readConstraints_bracket.mpr ⟨?_, body, d, m, ?_, rfl, ?_, ?_, ?_⟩
        · rw [hmark]
          have hword' : "regex(".toList.length = 6 := rfl
          exact prefix_of_take hword (by omega) (take_drop ht (negation x))
        · rw [hmark]
          exact constraintBody?_of_take hbody
            (take_mono (take_drop ht (negation x + 6)) (by omega))
        · rwa [hmark]
        · rw [hmark]
          refine ih _ ?_ hnext (take_mono (take_drop ht (negation x + body.length + 8)) ?_) rfl
          · simp only [List.length_drop, List.length_cons] at hlength ⊢
            omega
          · omega
        · rw [hmark]
      · have hbracket' : y.head? ≠ some '[' := by rwa [head?_of_take hxy]
        rw [readConstraints_of_head hbracket] at h
        rw [readConstraints_of_head hbracket']
        exact h

theorem modifiersFollow_of_take (h : x.take 2 = y.take 2) :
    modifiersFollow y = modifiersFollow x := by
  have hlook (t : Text) : modifiersFollow (t.take 2) = modifiersFollow t := by
    match t with
    | [] | [_] => simp [modifiersFollow]
    | c :: d :: t =>
        by_cases hc : c = ':'
        · subst hc
          rfl
        · simp [modifiersFollow, hc]
  rw [← hlook, ← h, hlook]

theorem readModifiers_of_take {q : Option Quantifier} {c : Option Constraint}
    (h : readModifiers ignoreCase offset x = .ok (q, c, n)) (offset' : Nat)
    (hxy : x.take (n + 2) = y.take (n + 2)) :
    readModifiers ignoreCase offset' y = .ok (q, c, n) := by
  have hfollow : modifiersFollow y = modifiersFollow x :=
    modifiersFollow_of_take (take_mono hxy (Nat.le_add_left 2 n))
  simp only [readModifiers, hfollow] at h ⊢
  split at h
  next hx =>
    obtain ⟨⟨q', k⟩, hq, h⟩ := bind_eq_ok_iff.mp h
    obtain ⟨⟨c', m⟩, hc, h⟩ := bind_eq_ok_iff.mp h
    cases h
    have hquantifier := readQuantifier_of_take (mapError_eq_ok_iff.mp hq)
      (take_mono (take_drop hxy 1) (show k + 1 ≤ _ by omega))
    have hconstraints := readConstraints_of_take hc offset'
      (take_mono (take_drop hxy (k + 1)) (by omega))
    rw [if_pos hx, hquantifier]
    simp only [mapError_ok, bind, Except.bind, hconstraints]
    rfl
  next hx =>
    cases h
    rw [if_neg hx]
    rfl

end Prefix

/-- A character that stands for itself in front of a text. -/
structure Plain (c : Char) (t : Text) : Prop where
  noEscape (hc : c = '\\') : t.head? ≠ some '\'' ∧ t.head? ≠ some '\\'
  noVariable (hc : c = '\'') : opensVariable t = false

inductive Continues : Text → Prop
  | done : Continues []
  | escape {c : Char} (hc : c = '\'' ∨ c = '\\') (t : Text) : Continues ('\\' :: c :: t)
  | wildcard {name rest : Text} (hname : IsName name) (hrest : EndsName rest)
    (hopen : rest.head? ≠ some '\'') : Continues ('\'' :: '_' :: (name ++ rest))
  | char {c : Char} {t : Text} (h : Plain c t) : Continues (c :: t)

theorem continues (t : Text) : Continues t := by
  cases t with
  | nil => exact .done
  | cons c t =>
      by_cases hvariable : c = '\'' ∧ opensVariable t = true
      · obtain ⟨rfl, hopen⟩ := hvariable
        obtain ⟨t, rfl⟩ := exists_of_opensVariable hopen
        obtain ⟨name, rest, rfl, hname, hrest⟩ := exists_name t
        rw [opensVariable_append hname hrest] at hopen
        exact .wildcard hname hrest (by simpa using hopen)
      by_cases hescape : c = '\\' ∧ (t.head? = some '\'' ∨ t.head? = some '\\')
      · obtain ⟨rfl, hquote | hslash⟩ := hescape
        · obtain ⟨t, rfl⟩ := List.head?_eq_some_iff.mp hquote
          exact .escape (.inl rfl) t
        · obtain ⟨t, rfl⟩ := List.head?_eq_some_iff.mp hslash
          exact .escape (.inr rfl) t
      refine .char ⟨fun hc => ?_, fun hc => ?_⟩
      · simpa [hc] using hescape
      · simpa [hc] using hvariable

theorem scanFrom_escape {c : Char} (hc : c = '\'' ∨ c = '\\') (t : Text) :
    scanFrom ignoreCase offset ('\\' :: c :: t) =
      (scanFrom ignoreCase (offset + 2) t).map (consChar c) := by
  rcases hc with rfl | rfl <;> rw [scanFrom]

theorem scanFrom_char {c : Char} {t : Text} (h : Plain c t) :
    scanFrom ignoreCase offset (c :: t) =
      (scanFrom ignoreCase (offset + c.utf8Size) t).map (consChar c) := by
  by_cases hquote : c = '\''
  · subst hquote
    rw [scanFrom, h.noVariable rfl, if_neg Bool.false_ne_true]
    rfl
  · rw [scanFrom]
    · rintro u rfl rfl
      exact (h.noEscape rfl).1 rfl
    · rintro u rfl rfl
      exact (h.noEscape rfl).2 rfl
    · exact hquote

theorem scanFrom_variable {name rest : Text} (hname : IsName name) (hrest : EndsName rest)
    (hopen : rest.head? ≠ some '\'') :
    scanFrom ignoreCase offset ('\'' :: '_' :: (name ++ rest)) =
      match readModifiers ignoreCase offset rest with
      | .error e => .error e
      | .ok (quantifier, constraint, n) =>
        (scanFrom ignoreCase (offset + 1 + Text.bytes ('_' :: (name ++ rest.take n)))
          (rest.drop n)).map
          (wildcard ⟨name, offset, quantifier, constraint⟩ :: ·) := by
  have hopen' : opensVariable ('_' :: (name ++ rest)) = true := by
    rw [opensVariable_append hname hrest]
    simpa using hopen
  rw [scanFrom, hopen', if_pos rfl]
  simp only [List.drop_succ_cons, List.drop_zero, readVariable_append hname hrest]
  cases readModifiers ignoreCase offset rest with
  | error e => rfl
  | ok r =>
      simp only [Except.map, List.take_succ_cons, List.take_length_add_append,
        List.drop_length_add_append]

end ShapeSearch.Segment
