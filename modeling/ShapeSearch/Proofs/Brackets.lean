import ShapeSearch.Proofs.Settling
import ShapeSearch.Regex.Bracket

namespace ShapeSearch.Regex

variable (u rest : Text)

namespace Bracket

theorem ofName?_of_mem {name : List Char} (h : ')' ∈ name) : CharSet.ofName? name = none := by
  have hne {s : String} (hname : String.ofList name = s) : ')' ∈ s.toList := by
    rwa [← hname, String.toList_ofList]
  rw [CharSet.ofName?]
  split
  all_goals first
    | rfl
    | (rename_i hname; exact absurd (hne hname) (by decide))

theorem length_caret_le : (if u.head? = some '^' then 1 else 0) ≤ u.length := by
  cases u with
  | nil => simp
  | cons c t =>
      rw [List.length_cons]
      split <;> omega

theorem opening_append : opening (u ++ ')' :: rest) = opening u := by
  have hcaret := head?_append_paren (c := '^') (by decide) u rest
  simp only [opening, hcaret]
  rw [List.drop_append_of_le_length (length_caret_le u), takeWhile_append_paren (by decide)]
  simp only [head?_append_paren (c := ']') (by decide)]

theorem readName?_append : readName? (u ++ ')' :: rest) = readName? u := by
  cases u with
  | nil => rfl
  | cons c t =>
      by_cases hc : c = ':'
      · subst hc
        have hcaret := head?_append_paren (c := '^') (by decide) t rest
        have hlength := length_caret_le t
        simp only [List.cons_append, readName?, hcaret]
        generalize (if t.head? = some '^' then 1 else 0) = caret at hlength
        rw [List.drop_append_of_le_length hlength]
        rcases Nat.lt_or_eq_of_le
          (List.takeWhile_prefix (· != ':') (l := t.drop caret)).length_le with h | h
        · rw [takeWhile_append_of_lt h]
          rw [List.length_drop] at h
          simp only [List.drop_append_of_le_length
            (show caret + ((t.drop caret).takeWhile (· != ':')).length ≤ t.length by omega),
            take_two_append_paren (c := ':') (d := ']') (by decide) (by decide)]
        · -- a name that goes on behind the parenthesis is no name
          have hmem : ')' ∈ (t.drop caret ++ ')' :: rest).takeWhile (· != ':') := by
            rw [List.takeWhile_append, if_pos h]
            exact List.mem_append_right _ (by simp)
          rw [ofName?_of_mem hmem, h, List.length_drop, Nat.add_sub_cancel' hlength,
            List.drop_length]
          simp
      · have hnone (t : Text) : readName? (c :: t) = none := by
          rw [readName?]
          simp [hc]
        rw [List.cons_append, hnone, hnone]

theorem readEnd_settles : Settles readEnd u (')' :: rest) := by
  cases u with
  | nil =>
      refine .empty (fun x hx => by cases hx) fun x n hx => ?_
      rw [← (Prod.mk.inj (Except.ok.inj hx)).2]
      exact Nat.zero_lt_one
  | cons c t =>
      by_cases hc : c = '\\'
      · subst hc
        have hread (t : Text) : readEnd ('\\' :: t) =
            (Escape.read t).map fun y => (id y.1, y.2 + ['\\'].length) := by
          rw [readEnd]
          cases Escape.read t <;> rfl
        exact (Escape.read_settles t rest).after ['\\'] (hread t) (hread _)
      · have hread (t : Text) : readEnd (c :: t) = .ok (.char c false, 1) := by
          rw [readEnd]
          simp [hc]
        exact .const (hread t) (hread _) (by rw [List.length_cons]; omega)

def rangeTo (first last : Escape) : Except Error CharSet :=
  match first, last with
  | .char a _, .char b _ =>
    if a.toNat ≤ b.toNat then .ok (.range a.toNat b.toNat) else .error .reversedRange
  | _, _ => .error .classOfNoCharacters

def readRange (first : Escape) : Reader CharSet
  | '-' :: next :: rest =>
    if next == ']' || next == '-' then Reader.result (readMember.alone first) ('-' :: next :: rest)
    else (Reader.andThen readEnd (fun last => .result (rangeTo first last)) (next :: rest)).map
      fun y => (y.1, y.2 + 1)
  | t => Reader.result (readMember.alone first) t

theorem readRange_of_ne (first : Escape) {t : Text} (h : t.head? ≠ some '-') :
    readRange first t = Reader.result (readMember.alone first) t := by
  unfold readRange
  split
  next => exact absurd rfl h
  next => rfl

theorem readMember_eq : readMember = Reader.andThen readEnd readRange := by
  funext t
  rw [readMember]
  cases hfirst : readEnd t with
  | error e =>
      rw [Reader.andThen_of_eq_error hfirst]
      rfl
  | ok x =>
      obtain ⟨first, n⟩ := x
      rw [Reader.andThen_of_eq_ok hfirst]
      simp only [bind, Except.bind]
      generalize t.drop n = w
      have halone (w : Text) : ((Reader.result (readMember.alone first) w).map
          fun y => (y.1, y.2 + n)) = (readMember.alone first).map (·, n) := by
        cases readMember.alone first with
        | error e => rfl
        | ok s => simp [Reader.result, Except.map]
      fun_cases readRange first w with
      | case1 next rest hnext =>
          simp only [hnext, if_true, halone]
          cases readMember.alone first <;> rfl
      | case2 next rest hnext =>
          simp only [hnext, Reader.andThen]
          cases readEnd (next :: rest) with
          | error e => rfl
          | ok y =>
              obtain ⟨last, m⟩ := y
              have hlength : n + m + 1 = 0 + m + 1 + n := by omega
              cases first with
              | char a _ =>
                  cases last with
                  | char b _ =>
                      simp only [rangeTo, Except.bind, Reader.result, hlength, Bool.false_eq_true,
                        if_false]
                      by_cases hle : a.toNat ≤ b.toNat
                      · rw [if_pos hle, if_pos hle]
                        rfl
                      · rw [if_neg hle, if_neg hle]
                        rfl
                  | _ => rfl
              | _ => rfl
      | case3 hw =>
          rw [halone]
          split
          next next rest hw => exact (hw next rest rfl).elim
          next => cases readMember.alone first <;> rfl

theorem readEnd_pos {t : Text} {e : Escape} {n : Nat} (h : readEnd t = .ok (e, n)) : 0 < n := by
  unfold readEnd at h
  split at h
  · cases h
  · obtain ⟨y, -, hy⟩ := map_eq_ok_iff.mp h
    rw [← (Prod.mk.inj hy).2]
    exact Nat.succ_pos _
  · rw [← (Prod.mk.inj (Except.ok.inj h)).2]
    exact Nat.zero_lt_one

theorem readMember_pos {t : Text} {s : CharSet} {n : Nat} (h : readMember t = .ok (s, n)) :
    0 < n := by
  rw [readMember_eq] at h
  obtain ⟨e, m, k, he, -, rfl⟩ := Reader.andThen_eq_ok h
  exact Nat.add_pos_right k (readEnd_pos he)

theorem readRest_close (b : Bracket) (t : Text) : readRest b [] (']' :: t) = .ok (b.close, 1) := by
  rw [readRest]

theorem readRest_close_inner (b o : Bracket) (os : List Bracket) (t : Text) :
    readRest b (o :: os) (']' :: t) =
      (readRest (o.add b.close) os t).map fun y => (y.1, y.2 + 1) := by
  rw [readRest]

def opened (b : Bracket) (outer : List Bracket) (t : Text) : Bracket × List Bracket × Nat :=
  match readName? t with
  | some (s, k) => (b.add s, outer, k)
  | none => ((opening t).1, b :: outer, (opening t).2)

theorem readRest_open (b : Bracket) (outer : List Bracket) (t : Text) :
    readRest b outer ('[' :: t) =
      (readRest (opened b outer t).1 (opened b outer t).2.1 (t.drop (opened b outer t).2.2)).map
        fun y => (y.1, y.2 + ((opened b outer t).2.2 + 1)) := by
  rw [readRest, opened]
  cases readName? t <;> rfl

def operator? : Char → Option SetOperator
  | '&' => some .intersection
  | '-' => some .difference
  | '~' => some .symmetricDifference
  | _ => none

theorem readRest_operator (b : Bracket) (outer : List Bracket) {c : Char} {op : SetOperator}
    (hc : operator? c = some op) (t : Text) :
    readRest b outer (c :: c :: t) =
      (readRest (b.operate op) outer t).map fun y => (y.1, y.2 + 2) := by
  unfold operator? at hc
  split at hc
  all_goals cases hc
  all_goals rw [readRest]

structure Plain (t : Text) : Prop where
  nonempty : t ≠ []
  closeBracket : t.head? ≠ some ']'
  openBracket : t.head? ≠ some '['
  operator {c : Char} {op : SetOperator} (hc : operator? c = some op) : t.take 2 ≠ [c, c]

theorem Plain.append {u : Text} (h : Plain u) (rest : Text) : Plain (u ++ ')' :: rest) := by
  obtain ⟨c, t, rfl⟩ := List.exists_cons_of_ne_nil h.nonempty
  refine ⟨by simp, h.closeBracket, h.openBracket, fun {d op} hd => ?_⟩
  cases t with
  | nil =>
      intro heq
      have hparen : ')' = d := (List.cons.inj (List.cons.inj heq).2).1
      subst hparen
      cases hd
  | cons e t => exact h.operator hd

theorem readRest_plain (b : Bracket) (outer : List Bracket) {t : Text} (h : Plain t) :
    readRest b outer t =
      Reader.andThen readMember (fun s => readRest (b.add s) outer) t := by
  obtain ⟨c, t, rfl⟩ := List.exists_cons_of_ne_nil h.nonempty
  rw [readRest, Reader.andThen]
  · cases hm : readMember (c :: t) with
    | error e => rfl
    | ok x =>
        obtain ⟨s, k⟩ := x
        obtain ⟨k, rfl⟩ := Nat.exists_eq_succ_of_ne_zero (Nat.ne_of_gt (readMember_pos hm))
        rfl
  · rintro rfl
    exact h.closeBracket rfl
  · rintro rfl
    exact h.openBracket rfl
  all_goals
    rintro t rfl rfl
    exact h.operator rfl rfl

theorem front_cases (t : Text) : t = [] ∨ (∃ u, t = ']' :: u) ∨ (∃ u, t = '[' :: u) ∨
    (∃ c op u, operator? c = some op ∧ t = c :: c :: u) ∨ Plain t := by
  cases t with
  | nil => exact .inl rfl
  | cons c t =>
      by_cases hclose : c = ']'
      · exact .inr (.inl ⟨t, by rw [hclose]⟩)
      by_cases hopen : c = '['
      · exact .inr (.inr (.inl ⟨t, by rw [hopen]⟩))
      by_cases hop : ∃ d op, operator? d = some op ∧ (c :: t).take 2 = [d, d]
      · obtain ⟨d, op, hd, htake⟩ := hop
        refine .inr (.inr (.inr (.inl ⟨d, op, (c :: t).drop 2, hd, ?_⟩)))
        rw [← List.take_append_drop 2 (c :: t), htake]
        rfl
      · refine .inr (.inr (.inr (.inr ⟨by simp, by simpa using hclose, by simpa using hopen, ?_⟩)))
        exact fun {d op} hd htake => hop ⟨d, op, hd, htake⟩

theorem plain_dash : Plain ['-'] :=
  ⟨by simp, by simp, by simp, by simp⟩

theorem readRest_dash (b : Bracket) (outer : List Bracket) (x : CharSet × Nat) :
    readRest b outer ['-'] ≠ .ok x := by
  have hmember : readMember ['-'] = .ok (.single '-', 1) := rfl
  rw [readRest_plain b outer plain_dash, Reader.andThen_of_eq_ok hmember]
  intro h
  obtain ⟨y, hy, -⟩ := map_eq_ok_iff.mp h
  rw [List.drop_one, List.tail_cons, readRest] at hy
  cases hy

theorem readRest_pos {b : Bracket} {outer : List Bracket} {t : Text} {s : CharSet} {n : Nat}
    (h : readRest b outer t = .ok (s, n)) : 0 < n := by
  have hmap {x : Except Error (CharSet × Nat)} {k : Nat} (hk : 0 < k)
      (hx : (x.map fun y => (y.1, y.2 + k)) = .ok (s, n)) : 0 < n := by
    obtain ⟨y, -, hy⟩ := map_eq_ok_iff.mp hx
    rw [← (Prod.mk.inj hy).2]
    exact Nat.add_pos_right _ hk
  rcases front_cases t with rfl | ⟨u, rfl⟩ | ⟨u, rfl⟩ | ⟨c, op, u, hc, rfl⟩ | hplain
  · rw [readRest] at h
    cases h
  · cases outer with
    | nil =>
        rw [readRest_close] at h
        rw [← (Prod.mk.inj (Except.ok.inj h)).2]
        exact Nat.zero_lt_one
    | cons o os =>
        rw [readRest_close_inner] at h
        exact hmap Nat.zero_lt_one h
  · rw [readRest_open] at h
    exact hmap (Nat.succ_pos _) h
  · rw [readRest_operator b outer hc] at h
    exact hmap Nat.zero_lt_two h
  · rw [readRest_plain b outer hplain] at h
    obtain ⟨e, k, m, hk, -, rfl⟩ := Reader.andThen_eq_ok h
    exact Nat.add_pos_right m (readMember_pos hk)

theorem two_le_of_readRest_brace {b : Bracket} {outer : List Bracket} {t : Text} {s : CharSet}
    {n : Nat} (h : readRest b outer ('\x7b' :: t) = .ok (s, n)) : 2 ≤ n := by
  have hplain : Plain ('\x7b' :: t) := by
    refine ⟨by simp, by simp, by simp, fun {c op} hc heq => ?_⟩
    have hbrace : '\x7b' = c := (List.cons.inj heq).1
    subst hbrace
    cases hc
  rw [readRest_plain b outer hplain] at h
  obtain ⟨e, k, m, hk, hm, rfl⟩ := Reader.andThen_eq_ok h
  have hkpos := readMember_pos hk
  have hmpos := readRest_pos hm
  omega

/-- Reads on behind a first end, up to where the outermost bracket is closed. -/
def readFrom (b : Bracket) (outer : List Bracket) (first : Escape) : Reader CharSet :=
  Reader.andThen (readRange first) fun s => readRest (b.add s) outer

theorem readRest_from (b : Bracket) (outer : List Bracket) {t : Text} (h : Plain t) :
    readRest b outer t = Reader.andThen readEnd (readFrom b outer) t := by
  rw [readRest_plain b outer h, readMember_eq, Reader.andThen_assoc]
  rfl

theorem two_le_of_readFrom_brace {b : Bracket} {outer : List Bracket} {first : Escape} {t : Text}
    {s : CharSet} {n : Nat} (h : readFrom b outer first ('\x7b' :: t) = .ok (s, n)) : 2 ≤ n := by
  obtain ⟨x, k, m, hk, hm, rfl⟩ := Reader.andThen_eq_ok h
  rw [readRange_of_ne first (by simp)] at hk
  obtain rfl := Reader.result_length hk
  exact two_le_of_readRest_brace hm

theorem readRange_settles (first : Escape) (h : u ≠ ['-']) :
    Settles (readRange first) u (')' :: rest) := by
  by_cases hdash : u.head? = some '-'
  · obtain ⟨t, rfl⟩ := List.head?_eq_some_iff.mp hdash
    obtain ⟨next, t, rfl⟩ := List.exists_cons_of_ne_nil fun ht : t = [] => h (ht ▸ rfl)
    by_cases hnext : next == ']' || next == '-'
    · have hread (t : Text) : readRange first ('-' :: next :: t) =
          Reader.result (readMember.alone first) ('-' :: next :: t) := by
        rw [readRange, if_pos hnext]
      exact (Settles.result _ _ _).of_eq (hread t) (hread _)
    · have hread (t : Text) : readRange first ('-' :: next :: t) =
          (Reader.andThen readEnd (fun last => .result (rangeTo first last)) (next :: t)).map
            fun y => (y.1, y.2 + 1) := by
        rw [readRange, if_neg hnext]
      have hrange : Settles (Reader.andThen readEnd fun last => .result (rangeTo first last))
          (next :: t) (')' :: rest) := by
        refine .andThen (readEnd_settles _ rest) (fun _ _ _ => .result _ _ _) fun last s n hn => ?_
        rw [Reader.result_length hn]
        exact .inr rfl
      exact hrange.after ['-'] (e := id) (hread t) (hread _)
  · exact (Settles.result _ _ _).of_eq (readRange_of_ne first hdash)
      (readRange_of_ne first (mt (head?_append_paren (by decide) u rest).mp hdash))

theorem readFrom_settles (b : Bracket) (outer : List Bracket) (first : Escape)
    (h : ∀ s n, Settles (readRest (b.add s) outer) (u.drop n) (')' :: rest)) :
    Settles (readFrom b outer first) u (')' :: rest) := by
  by_cases hdash : u = ['-']
  · subst hdash
    refine .spills (fun x hx => ?_) fun x n hx => .inl ?_
    · obtain ⟨s, k, m, hk, hm, -⟩ := Reader.andThen_eq_ok hx
      have hk : Reader.result (readMember.alone first) ['-'] = .ok (s, k) := hk
      obtain rfl := Reader.result_length hk
      exact readRest_dash _ _ _ hm
    · obtain ⟨s, k, m, hk, hm, rfl⟩ := Reader.andThen_eq_ok hx
      have hk : (Reader.andThen readEnd (fun last => .result (rangeTo first last))
          (')' :: rest)).map (fun y => (y.1, y.2 + 1)) = .ok (s, k) := hk
      obtain ⟨y, -, hy⟩ := map_eq_ok_iff.mp hk
      have hpos : 0 < k := (Prod.mk.inj hy).2 ▸ Nat.succ_pos _
      have hpos' := readRest_pos hm
      rw [List.length_singleton]
      omega
  · exact .andThen (readRange_settles u rest first hdash) (fun s n _ => h s n)
      fun s x n hn => .inl (two_le_of_readRest_brace hn)

theorem readRest_nil (b : Bracket) (outer : List Bracket) (x : CharSet × Nat) :
    readRest b outer [] ≠ .ok x := by
  rw [readRest]
  exact fun h => by cases h

theorem opened_append (b : Bracket) (outer : List Bracket) :
    opened b outer (u ++ ')' :: rest) = opened b outer u := by
  rw [opened, opened, readName?_append, opening_append]

theorem readRest_settles (b : Bracket) (outer : List Bracket) :
    Settles (readRest b outer) u (')' :: rest) := by
  induction hlength : u.length using Nat.strongRecOn generalizing u b outer with
  | _ length ih =>
  rcases front_cases u with rfl | ⟨t, rfl⟩ | ⟨t, rfl⟩ | ⟨c, op, t, hc, rfl⟩ | hplain
  · exact .empty (readRest_nil b outer) fun s n h => readRest_pos h
  · cases outer with
    | nil => exact .const (readRest_close b t) (readRest_close b _) (by simp)
    | cons o os =>
        exact (ih _ (by simp [← hlength]) t (o.add b.close) os rfl).after [']'] (e := id)
          (readRest_close_inner b o os t) (readRest_close_inner b o os _)
  · refine .skip ['['] (e := id) (fun _ => ih _ ?_ _ _ _ rfl) (readRest_nil _ _)
      (readRest_open b outer t) ?_
    · rw [← hlength, List.length_drop, List.length_cons]
      omega
    · rw [List.singleton_append, readRest_open, opened_append]
      rfl
  · have hlt : t.length < length := by
      rw [← hlength, List.length_cons, List.length_cons]
      omega
    exact (ih _ hlt t (b.operate op) outer rfl).after [c, c] (e := id)
      (readRest_operator b outer hc t) (readRest_operator b outer hc _)
  · have hsettles : Settles (Reader.andThen readEnd (readFrom b outer)) u (')' :: rest) := by
      refine .andThen (readEnd_settles u rest) (fun first n hfirst => ?_) fun first s n => ?_
      · refine readFrom_settles _ rest b outer first fun s k => ih _ ?_ _ _ _ rfl
        have hpos := readEnd_pos hfirst
        have hle : 0 < u.length := List.length_pos_iff.mpr hplain.nonempty
        rw [← hlength, List.length_drop, List.length_drop]
        omega
      · exact fun h => .inl (two_le_of_readFrom_brace h)
    exact hsettles.of_eq (readRest_from b outer hplain) (readRest_from b outer (hplain.append rest))

theorem read_settles : Settles read u (')' :: rest) := by
  refine .skip [] (fun _ => readRest_settles (u.drop (opening u).2) rest (opening u).1 [])
    (readRest_nil _ _) (e := id) rfl ?_
  rw [List.nil_append, read, opening_append]
  rfl

end Bracket

end ShapeSearch.Regex
