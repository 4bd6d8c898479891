import ShapeSearch.Proofs.Outcomes
import ShapeSearch.Proofs.Renaming
import ShapeSearch.Proofs.Scanning

namespace ShapeSearch

namespace Segment

variable {r : Renaming} {ignoreCase : Bool} {offset : Nat}

/-- Gives the variables of a template other names, wherever a scan finds them. Nothing is changed
behind one that cannot be read. -/
def respell (r : Renaming) (ignoreCase : Bool) : Text → Text
  | [] => []
  | '\\' :: '\'' :: t => '\\' :: '\'' :: respell r ignoreCase t
  | '\\' :: '\\' :: t => '\\' :: '\\' :: respell r ignoreCase t
  | '\'' :: t =>
    if opensVariable t then
      let name := (t.drop 1).takeWhile isNameChar
      let rest := t.drop (name.length + 1)
      '\'' :: '_' :: (r.name name ++
        match readModifiers ignoreCase 0 rest with
        | .error _ => rest
        | .ok (_, _, n) => rest.take n ++ respell r ignoreCase (rest.drop n))
    else '\'' :: respell r ignoreCase t
  | c :: t => c :: respell r ignoreCase t
termination_by t => t.length
decreasing_by all_goals simp only [List.length_cons, List.length_drop]; omega

theorem respell_escape {c : Char} (hc : c = '\'' ∨ c = '\\') (t : Text) :
    respell r ignoreCase ('\\' :: c :: t) = '\\' :: c :: respell r ignoreCase t := by
  rcases hc with rfl | rfl <;> rw [respell]

theorem respell_char {c : Char} {t : Text} (h : Plain c t) :
    respell r ignoreCase (c :: t) = c :: respell r ignoreCase t := by
  by_cases hquote : c = '\''
  · subst hquote
    rw [respell, h.noVariable rfl, if_neg Bool.false_ne_true]
  · rw [respell]
    · rintro u rfl rfl
      exact (h.noEscape rfl).1 rfl
    · rintro u rfl rfl
      exact (h.noEscape rfl).2 rfl
    · exact hquote

theorem respell_variable {name rest : Text} (hname : IsName name) (hrest : EndsName rest)
    (hopen : rest.head? ≠ some '\'') :
    respell r ignoreCase ('\'' :: '_' :: (name ++ rest)) =
      '\'' :: '_' :: (r.name name ++
        match readModifiers ignoreCase 0 rest with
        | .error _ => rest
        | .ok (_, _, n) => rest.take n ++ respell r ignoreCase (rest.drop n)) := by
  have hopen' : opensVariable ('_' :: (name ++ rest)) = true := by
    rw [opensVariable_append hname hrest]
    simpa using hopen
  rw [respell, hopen', if_pos rfl]
  simp only [List.drop_succ_cons, List.drop_zero, takeWhile_name hname hrest, List.drop_left]

theorem head?_respell (t : Text) : (respell r ignoreCase t).head? = t.head? := by
  cases continues t with
  | done => rw [respell]
  | escape hc t => rw [respell_escape hc]; rfl
  | wildcard hname hrest hopen => rw [respell_variable hname hrest hopen]; rfl
  | char h => rw [respell_char h]; rfl

theorem take_two_respell (t : Text) : (respell r ignoreCase t).take 2 = t.take 2 := by
  cases continues t with
  | done => rw [respell]
  | escape hc t => rw [respell_escape hc]; rfl
  | wildcard hname hrest hopen => rw [respell_variable hname hrest hopen]; rfl
  | @char c t h =>
      rw [respell_char h, List.take_succ_cons, List.take_succ_cons, List.take_one, List.take_one,
        head?_respell]

theorem text_induct {motive : Text → Prop} (done : motive [])
    (escape : ∀ c t, c = '\'' ∨ c = '\\' → motive t → motive ('\\' :: c :: t))
    (wildcard : ∀ name rest, IsName name → EndsName rest → rest.head? ≠ some '\'' →
      (∀ n, motive (rest.drop n)) → motive ('\'' :: '_' :: (name ++ rest)))
    (char : ∀ c t, Plain c t → motive t → motive (c :: t)) (t : Text) : motive t := by
  induction hlength : t.length using Nat.strong_induction_on generalizing t with
  | _ length ih =>
      cases continues t with
      | done => exact done
      | escape hc t => exact escape _ t hc (ih t.length (by simp at hlength; omega) t rfl)
      | wildcard hname hrest hopen =>
          refine wildcard _ _ hname hrest hopen fun n => ih _ ?_ _ rfl
          simp only [List.length_cons, List.length_append, List.length_drop] at hlength ⊢
          omega
      | char h => exact char _ _ h (ih _ (by simp at hlength; omega) _ rfl)

theorem head?_dropWhile_respell (t : Text) :
    ((respell r ignoreCase t).dropWhile isNameChar).head? = (t.dropWhile isNameChar).head? := by
  induction t using text_induct with
  | done => rw [respell]
  | escape c t hc _ => rw [respell_escape hc]; rfl
  | wildcard name rest hname hrest hopen _ => rw [respell_variable hname hrest hopen]; rfl
  | char c t h ih =>
      rw [respell_char h, List.dropWhile_cons, List.dropWhile_cons]
      split
      · exact ih
      · rfl

theorem opensVariable_respell (t : Text) :
    opensVariable (respell r ignoreCase t) = opensVariable t := by
  by_cases hhead : t.head? = some '_'
  · obtain ⟨t, rfl⟩ := List.head?_eq_some_iff.mp hhead
    have hplain : Plain '_' t := ⟨fun h => by simp at h, fun h => by simp at h⟩
    rw [respell_char hplain, opensVariable, opensVariable, head?_dropWhile_respell]
  · have hnot {u : Text} (hu : u.head? ≠ some '_') : opensVariable u = false := by
      rw [Bool.eq_false_iff]
      intro h
      obtain ⟨v, rfl⟩ := exists_of_opensVariable h
      exact hu rfl
    rw [hnot hhead, hnot (by rwa [head?_respell])]

theorem Plain.respell {c : Char} {t : Text} (h : Plain c t) :
    Plain c (respell r ignoreCase t) := by
  constructor
  · rw [head?_respell]
    exact h.noEscape
  · rw [opensVariable_respell]
    exact h.noVariable

/-- One piece of a template, with the other name if it is a wildcard. -/
inductive Respelt (r : Renaming) : Segment → Segment → Prop
  | text (t : Text) : Respelt r (.text t) (.text t)
  | wildcard (o : Occurrence) (offset : Nat) :
    Respelt r (.wildcard o) (.wildcard { o with name := r.name o.name, offset := offset })

theorem consChar_respelt {ss ss' : List Segment} (h : List.Forall₂ (Respelt r) ss ss') (c : Char) :
    List.Forall₂ (Respelt r) (consChar c ss) (consChar c ss') := by
  cases h with
  | nil => exact .cons (.text [c]) .nil
  | cons hs hrest =>
      cases hs with
      | text t => exact .cons (.text (c :: t)) hrest
      | wildcard o offset => exact .cons (.text [c]) (.cons (.wildcard o offset) hrest)

theorem drop_append_respell (t : Text) (n : Nat) :
    (t.take n ++ respell r ignoreCase (t.drop n)).drop n = respell r ignoreCase (t.drop n) := by
  rcases Nat.le_total n t.length with hn | hn
  · rw [List.drop_append_of_le_length (by simp [hn]), List.drop_of_length_le (by simp [hn]),
      List.nil_append]
  · rw [List.drop_of_length_le hn, respell, List.append_nil, List.drop_of_length_le (by simp [hn])]

theorem take_append_respell (r : Renaming) (ignoreCase : Bool) (t : Text) (n : Nat) :
    (t.take n ++ respell r ignoreCase (t.drop n)).take (n + 2) = t.take (n + 2) := by
  rcases Nat.le_total n t.length with hn | hn
  · have hlength : (t.take n).length = n := List.length_take_of_le hn
    rw [List.take_append, hlength, Nat.add_sub_cancel_left, take_two_respell, List.take_of_length_le,
      ← List.take_add]
    rw [hlength]
    omega
  · rw [List.drop_of_length_le hn, respell, List.append_nil, List.take_of_length_le hn]

theorem readModifiers_error {e : TemplateError} {t : Text}
    (h : readModifiers ignoreCase offset t = .error e) (offset' : Nat) :
    ∃ e', readModifiers ignoreCase offset' t = .error e' := by
  cases h' : readModifiers ignoreCase offset' t with
  | error e' => exact ⟨e', rfl⟩
  | ok x =>
      rw [readModifiers_of_take h' offset rfl] at h
      cases h

theorem scanFrom_respell (offset offset' : Nat) (t : Text) :
    SameOutcome (List.Forall₂ (Respelt r)) (scanFrom ignoreCase offset t)
      (scanFrom ignoreCase offset' (respell r ignoreCase t)) := by
  induction t using text_induct generalizing offset offset' with
  | done =>
      rw [respell, scanFrom, scanFrom]
      exact .ok .nil
  | escape c t hc ih =>
      rw [respell_escape hc, scanFrom_escape hc, scanFrom_escape hc]
      exact (ih _ _).map fun _ _ _ h => consChar_respelt h c
  | wildcard name rest hname hrest hopen ih =>
      have hspelled : IsName (r.name name) := r.spelled hname
      rw [respell_variable hname hrest hopen, scanFrom_variable hname hrest hopen]
      cases hm : readModifiers ignoreCase 0 rest with
      | error e =>
          obtain ⟨d, hd⟩ := readModifiers_error hm offset
          obtain ⟨d', hd'⟩ := readModifiers_error hm offset'
          rw [scanFrom_variable hspelled hrest hopen, hd, hd']
          exact .error _ _
      | ok m =>
          obtain ⟨quantifier, constraint, n⟩ := m
          simp only
          have htake := take_append_respell r ignoreCase rest n
          have hhead := head?_of_take (n := n + 1) htake
          have hread := readModifiers_of_take hm offset rfl
          have hread' := readModifiers_of_take hm offset' htake.symm
          rw [scanFrom_variable hspelled (by rwa [EndsName, ← hhead]) (by rwa [← hhead]), hread, hread']
          simp only [drop_append_respell]
          exact (ih n _ _).map fun _ _ _ h => .cons (.wildcard ⟨name, _, quantifier, constraint⟩ _) h
  | char c t h ih =>
      rw [respell_char h, scanFrom_char h, scanFrom_char h.respell]
      exact (ih _ _).map fun _ _ _ h => consChar_respelt h c

end Segment

end ShapeSearch
