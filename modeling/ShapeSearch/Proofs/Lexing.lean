import ShapeSearch.Proofs.Brackets
import ShapeSearch.Regex.Token

namespace ShapeSearch.Regex

variable (u rest : Text)

namespace Token

theorem laziness_append : laziness (u ++ ')' :: rest) = laziness u := by
  simp only [laziness, head?_append_paren (c := '?') (by decide)]

theorem laziness_le : laziness u ≤ u.length := by
  cases u with
  | nil => simp [laziness]
  | cons c t =>
      rw [laziness, List.length_cons]
      split <;> omega

theorem repetition_settles (x : Token) :
    Settles (fun t => .ok (x, laziness t)) u (')' :: rest) :=
  .const rfl (by rw [laziness_append]) (laziness_le u)

theorem readCount_settles : Settles readCount u (')' :: rest) := by
  refine Settles.delimited [] (p := (· != '\x7d')) (fun h x hx => ?_) (fun x n hx => ?_)
    fun h => ⟨?_, fun x n hx => ?_⟩
  · simp only [List.nil_append, readCount, if_pos h] at hx
    cases hx
  · simp only [List.nil_append, readCount] at hx
    split at hx
    · cases hx
    · obtain ⟨y, -, hy⟩ := map_eq_ok_iff.mp hx
      rw [← (Prod.mk.inj hy).2, List.length_nil]
      omega
  · have hlt : (u.takeWhile (· != '\x7d')).length < (u ++ ')' :: rest).length := by
      rw [List.length_append]
      omega
    simp only [List.nil_append, readCount, takeWhile_append_of_lt h, if_neg (Nat.ne_of_lt h),
      if_neg (Nat.ne_of_lt hlt), List.drop_append_of_le_length (Nat.succ_le_of_lt h),
      laziness_append]
  · simp only [List.nil_append, readCount, if_neg (Nat.ne_of_lt h)] at hx
    obtain ⟨y, -, hy⟩ := map_eq_ok_iff.mp hx
    have hlazy := laziness_le (u.drop ((u.takeWhile (· != '\x7d')).length + 1))
    rw [List.length_drop] at hlazy
    rw [← (Prod.mk.inj hy).2, List.length_nil]
    omega

theorem readName_length {t : Text} {x : Token} {n : Nat} (h : readName t = .ok (x, n)) :
    n = (t.takeWhile (· != '>')).length + 1 := by
  simp only [readName] at h
  split at h
  · cases h
  · generalize t.takeWhile (· != '>') = name at h ⊢
    cases name with
    | nil => cases h
    | cons c cs =>
        simp only at h
        split at h
        · exact (Prod.mk.inj (Except.ok.inj h)).2.symm
        · cases h

theorem readName_settles : Settles readName u (')' :: rest) := by
  refine Settles.delimited [] (p := (· != '>')) (fun h x hx => ?_) (fun x n hx => ?_)
    fun h => ⟨?_, fun x n hx => ?_⟩
  · simp only [List.nil_append, readName, if_pos h] at hx
    cases hx
  · rw [readName_length hx, List.length_nil, List.nil_append]
    omega
  · have hlt : (u.takeWhile (· != '>')).length < (u ++ ')' :: rest).length := by
      rw [List.length_append]
      omega
    simp only [List.nil_append, readName, takeWhile_append_of_lt h, if_neg (Nat.ne_of_lt h),
      if_neg (Nat.ne_of_lt hlt)]
  · rw [readName_length hx, List.length_nil, List.nil_append]
    omega

def isFlag (c : Char) : Bool :=
  c != ':' && c != ')'

/-- What letters are, once the character that ends them is known. -/
def endFlags (letters : Text) (stop : Char) : Except Error (Token × Nat) :=
  match FlagChange.read letters with
  | .error e => .error e
  | .ok change =>
    if stop == ':' then .ok (.openGroup none change, letters.length + 1)
    else if change.isEmpty then .error .nothingToRepeat
    else .ok (.flags change, letters.length + 1)

theorem endFlags_length {letters : Text} {stop : Char} {x : Token} {n : Nat}
    (h : endFlags letters stop = .ok (x, n)) : n = letters.length + 1 := by
  unfold endFlags at h
  split at h
  · cases h
  · split at h
    · exact (Prod.mk.inj (Except.ok.inj h)).2.symm
    · split at h
      · cases h
      · exact (Prod.mk.inj (Except.ok.inj h)).2.symm

theorem readFlags_eq (t : Text) :
    readFlags t = match (t.drop (t.takeWhile isFlag).length).head? with
      | none => .error .unclosedGroup
      | some stop => endFlags (t.takeWhile isFlag) stop := by
  have hdrop : t.drop (t.takeWhile fun c => c != ':' && c != ')').length =
      t.drop (t.takeWhile isFlag).length := rfl
  rw [readFlags, hdrop]
  cases t.drop (t.takeWhile isFlag).length <;> rfl

theorem readFlags_settles : Settles readFlags u (')' :: rest) := by
  have hle := (List.takeWhile_prefix isFlag (l := u)).length_le
  have huv := readFlags_eq (u ++ ')' :: rest)
  rw [takeWhile_append_paren (by decide), List.drop_append_of_le_length hle] at huv
  have hu := readFlags_eq u
  cases hdrop : u.drop (u.takeWhile isFlag).length with
  | nil =>
      rw [hdrop] at hu huv
      refine .spills (fun x hx => ?_) fun x n hx => .inl ?_
      · rw [hu] at hx
        cases hx
      · rw [huv] at hx
        have hlength := congrArg List.length hdrop
        rw [List.length_drop, List.length_nil] at hlength
        rw [endFlags_length hx]
        omega
  | cons stop t =>
      rw [hdrop] at hu huv
      refine .same (huv.trans hu.symm) fun x n hx => ?_
      have hlength := congrArg List.length hdrop
      rw [List.length_drop, List.length_cons] at hlength
      rw [hu] at hx
      rw [endFlags_length hx]
      omega

theorem readOpening_plain {t : Text} (h : t.head? ≠ some '?') :
    readOpening t = .ok (.openGroup none [], 0) := by
  rw [readOpening]
  all_goals
    rintro _ rfl
    exact h rfl

theorem readOpening_named {t : Text} (h : t.head? ≠ some '=' ∧ t.head? ≠ some '!') :
    readOpening ('?' :: '<' :: t) = (readName t).map fun (token, n) => (token, n + 2) := by
  rw [readOpening]
  · rintro _ rfl
    exact h.1 rfl
  · rintro _ rfl
    exact h.2 rfl

theorem readOpening_flags {t : Text} (hlook : t.head? ≠ some '=' ∧ t.head? ≠ some '!')
    (hname : t.head? ≠ some '<' ∧ t.take 2 ≠ ['P', '<']) :
    readOpening ('?' :: t) = (readFlags t).map fun (token, n) => (token, n + 1) := by
  rw [readOpening]
  · rintro _ rfl
    exact hlook.1 rfl
  · rintro _ rfl
    exact hlook.2 rfl
  all_goals
    rintro _ rfl
    first
      | exact hname.1 rfl
      | exact hname.2 rfl

theorem readOpening_settles : Settles readOpening u (')' :: rest) := by
  have hmap (x : Except Error (Token × Nat)) (k : Nat) :
      (x.map fun (token, n) => (token, n + k)) = x.map fun y => (id y.1, y.2 + k) := by
    cases x <;> rfl
  by_cases hmark : u.head? = some '?'
  · obtain ⟨t, rfl⟩ := List.head?_eq_some_iff.mp hmark
    by_cases hequal : t.head? = some '='
    · obtain ⟨t, rfl⟩ := List.head?_eq_some_iff.mp hequal
      exact .error (e := .lookAround) rfl rfl
    by_cases hbang : t.head? = some '!'
    · obtain ⟨t, rfl⟩ := List.head?_eq_some_iff.mp hbang
      exact .error (e := .lookAround) rfl rfl
    by_cases hangle : t.head? = some '<'
    · obtain ⟨t, rfl⟩ := List.head?_eq_some_iff.mp hangle
      by_cases hequal : t.head? = some '='
      · obtain ⟨t, rfl⟩ := List.head?_eq_some_iff.mp hequal
        exact .error (e := .lookAround) rfl rfl
      by_cases hbang : t.head? = some '!'
      · obtain ⟨t, rfl⟩ := List.head?_eq_some_iff.mp hbang
        exact .error (e := .lookAround) rfl rfl
      have hlook : (t ++ ')' :: rest).head? ≠ some '=' ∧ (t ++ ')' :: rest).head? ≠ some '!' :=
        ⟨mt (head?_append_paren (by decide) t rest).mp hequal,
          mt (head?_append_paren (by decide) t rest).mp hbang⟩
      exact (readName_settles t rest).after ['?', '<'] (e := id)
        ((readOpening_named ⟨hequal, hbang⟩).trans (hmap _ 2))
        ((readOpening_named hlook).trans (hmap _ 2))
    by_cases hnamed : t.take 2 = ['P', '<']
    · obtain ⟨t, rfl⟩ : ∃ w, t = 'P' :: '<' :: w := ⟨t.drop 2, by
        rw [← List.take_append_drop 2 t, hnamed]
        rfl⟩
      exact (readName_settles t rest).after ['?', 'P', '<'] (e := id) (hmap _ 3) (hmap _ 3)
    have hlook : (t ++ ')' :: rest).head? ≠ some '=' ∧ (t ++ ')' :: rest).head? ≠ some '!' :=
      ⟨mt (head?_append_paren (by decide) t rest).mp hequal,
        mt (head?_append_paren (by decide) t rest).mp hbang⟩
    have hname : (t ++ ')' :: rest).head? ≠ some '<' ∧ (t ++ ')' :: rest).take 2 ≠ ['P', '<'] :=
      ⟨mt (head?_append_paren (by decide) t rest).mp hangle,
        mt (take_two_append_paren (by decide) (by decide) t rest).mp hnamed⟩
    exact (readFlags_settles t rest).after ['?'] (e := id)
      ((readOpening_flags ⟨hequal, hbang⟩ ⟨hangle, hnamed⟩).trans (hmap _ 1))
      ((readOpening_flags hlook hname).trans (hmap _ 1))
  · exact .const (readOpening_plain hmark)
      (readOpening_plain (mt (head?_append_paren (by decide) u rest).mp hmark)) (Nat.zero_le _)

def single : Char → Token
  | '.' => .atom .dot
  | '^' => .atom .caret
  | '$' => .atom .dollar
  | '|' => .bar
  | ')' => .closeGroup
  | c => .atom (.char c false)

/-- The characters in front of a token that goes on behind them. -/
def leads (c : Char) : Bool :=
  c == '(' || c == '[' || c == '\\' || c == '*' || c == '+' || c == '?' || c == '\x7b'

theorem read_single {c : Char} (h : leads c = false) (t : Text) : read c t = .ok (single c, 0) := by
  simp only [leads, Bool.or_eq_false_iff, beq_eq_false_iff_ne, ne_eq] at h
  unfold read single
  split <;> simp_all

theorem read_settles (c : Char) : Settles (read c) u (')' :: rest) := by
  by_cases hleads : leads c
  · simp only [leads, Bool.or_eq_true, beq_iff_eq] at hleads
    rcases hleads with (((((rfl | rfl) | rfl) | rfl) | rfl) | rfl) | rfl
    · exact readOpening_settles u rest
    · exact (Bracket.read_settles u rest).after [] (f := read '[') (e := fun s => .atom (.set s))
        rfl rfl
    · exact (Escape.read_settles u rest).after [] (f := read '\\')
        (e := fun e => .atom (.ofEscape e)) rfl rfl
    · exact repetition_settles u rest _
    · exact repetition_settles u rest _
    · exact repetition_settles u rest _
    · exact readCount_settles u rest
  · rw [Bool.not_eq_true] at hleads
    exact .const (read_single hleads u) (read_single hleads _) (Nat.zero_le _)

/-- What a parenthesis can begin. -/
inductive Opens : Token → Prop
  | group (name : Option Text) (change : FlagChange) : Opens (.openGroup name change)
  | flags (change : FlagChange) : Opens (.flags change)

theorem readName_opens {t : Text} {token : Token} {n : Nat} (h : readName t = .ok (token, n)) :
    Opens token := by
  simp only [readName] at h
  split at h
  · cases h
  · cases hname : t.takeWhile (· != '>') with
    | nil =>
        rw [hname] at h
        cases h
    | cons c cs =>
        simp only [hname] at h
        split at h
        · cases h
          exact .group _ _
        · cases h

theorem readFlags_opens {t : Text} {token : Token} {n : Nat} (h : readFlags t = .ok (token, n)) :
    Opens token := by
  rw [readFlags_eq] at h
  split at h
  · cases h
  · unfold endFlags at h
    split at h
    · cases h
    · split at h
      · cases h
        exact .group _ _
      · split at h
        · cases h
        · cases h
          exact .flags _

theorem readOpening_opens {t : Text} {token : Token} {n : Nat}
    (h : readOpening t = .ok (token, n)) : Opens token := by
  have hmap {x : Except Error (Token × Nat)} {k : Nat}
      (hx : ∀ {token m}, x = .ok (token, m) → Opens token)
      (h : (x.map fun (token, m) => (token, m + k)) = .ok (token, n)) : Opens token := by
    obtain ⟨⟨token', m⟩, hm, heq⟩ := map_eq_ok_iff.mp h
    obtain rfl : token' = token := (Prod.mk.inj heq).1
    exact hx hm
  unfold readOpening at h
  split at h
  case h_5 => exact hmap readName_opens h
  case h_6 => exact hmap readName_opens h
  case h_7 => exact hmap readFlags_opens h
  case h_8 =>
    cases h
    exact .group _ _
  all_goals cases h

theorem readBounds_le {t : Text} {min max : Nat} (h : readBounds t = .ok (min, some max)) :
    min ≤ max := by
  unfold readBounds at h
  split at h
  · cases h
  · cases h
    exact Nat.le_refl _
  · cases h
  · split at h
    · cases h
    · split at h
      next hle =>
        cases h
        exact hle
      · cases h

/-- What a token can be, by the character in front of it. -/
inductive Reads (c : Char) : Token → Prop
  | single (h : leads c = false) : Reads c (single c)
  | opens {token : Token} (h : Opens token) : Reads c token
  | atom (a : Atom) : Reads c (.atom a)
  | repetition {min : Nat} {max : Option Nat} (h : ∀ m ∈ max, min ≤ m) :
      Reads c (.repetition min max)

theorem read_reads {c : Char} {t : Text} {token : Token} {n : Nat}
    (h : read c t = .ok (token, n)) : Reads c token := by
  by_cases hleads : leads c
  · simp only [leads, Bool.or_eq_true, beq_iff_eq] at hleads
    rcases hleads with (((((rfl | rfl) | rfl) | rfl) | rfl) | rfl) | rfl
    · exact .opens (readOpening_opens h)
    · obtain ⟨x, -, hx⟩ := map_eq_ok_iff.mp h
      cases hx
      exact .atom _
    · obtain ⟨x, -, hx⟩ := map_eq_ok_iff.mp h
      cases hx
      exact .atom _
    · cases h
      exact .repetition (by simp)
    · cases h
      exact .repetition (by simp)
    · cases h
      exact .repetition (by simp)
    · simp only [read, readCount] at h
      split at h
      · cases h
      · obtain ⟨⟨min, max⟩, hbounds, hx⟩ := map_eq_ok_iff.mp h
        cases hx
        refine .repetition fun m hm => ?_
        obtain rfl : max = some m := hm
        exact readBounds_le hbounds
  · rw [read_single (by simpa using hleads), Except.ok.injEq, Prod.mk.injEq] at h
    rw [← h.1]
    exact .single (by simpa using hleads)

theorem single_eq_closeGroup {c : Char} (h : single c = .closeGroup) : c = ')' := by
  unfold single at h
  split at h
  all_goals first | rfl | cases h

theorem read_eq_closeGroup {c : Char} {t : Text} {n : Nat} (h : read c t = .ok (.closeGroup, n)) :
    c = ')' ∧ n = 0 := by
  generalize htoken : Token.closeGroup = token at h
  cases read_reads h with
  | single hleads =>
      rw [read_single hleads] at h
      exact ⟨single_eq_closeGroup htoken.symm, (Prod.mk.inj (Except.ok.inj h)).2.symm⟩
  | opens hopens => cases hopens <;> cases htoken
  | atom a => cases htoken
  | repetition hle => cases htoken

theorem readAll_cons (c : Char) (t : Text) :
    readAll (c :: t) = (read c t).bind fun x => (readAll (t.drop x.2)).map (x.1 :: ·) := by
  rw [readAll]
  cases read c t <;> rfl

theorem readAll_brace (tokens : List Token) : readAll ['\x7b'] ≠ .ok tokens := by
  have hread : read '\x7b' [] = .error .badCount := rfl
  rw [readAll_cons, hread]
  exact nofun

theorem readAll_append {u : Text} {tokens : List Token} (h : readAll u = .ok tokens) (rest : Text) :
    readAll (u ++ ')' :: rest) = (readAll rest).map (tokens ++ .closeGroup :: ·) := by
  induction hlength : u.length using Nat.strongRecOn generalizing u tokens with
  | _ length ih =>
  cases u with
  | nil =>
      rw [readAll, Except.ok.injEq] at h
      subst h
      rw [List.nil_append, readAll_cons, read_single (by decide)]
      rfl
  | cons c t =>
      rw [readAll_cons] at h
      obtain ⟨⟨token, n⟩, htoken, h⟩ := bind_eq_ok_iff.mp h
      obtain ⟨tokens, htokens, rfl⟩ := map_eq_ok_iff.mp h
      obtain ⟨htoken', hn⟩ := (read_settles t rest c).eq_ok htoken
      have hlt : (t.drop n).length < length := by
        rw [← hlength, List.length_drop, List.length_cons]
        omega
      rw [List.cons_append, readAll_cons, htoken', Except.bind, List.drop_append_of_le_length hn,
        ih _ hlt htokens rfl]
      cases readAll rest <;> rfl

theorem read_in_front {c : Char} {t : Text} {token : Token} {n : Nat}
    (h : read c t = .ok (token, n)) {tokens : List Token} (hdrop : t.drop n = u ++ ')' :: rest)
    (hu : readAll u = .ok tokens) :
    ∃ v, t = v ++ ')' :: rest ∧ v.drop n = u ∧ read c v = .ok (token, n) := by
  have hlength := congrArg List.length hdrop
  rw [List.length_drop, List.length_append, List.length_cons] at hlength
  have htake : (t.take n).length = n := by
    rw [List.length_take]
    omega
  have ht : t = t.take n ++ u ++ ')' :: rest := by
    rw [List.append_assoc, ← hdrop, List.take_append_drop]
  have hleft : (t.take n ++ u).drop n = u := by
    rw [List.drop_append_of_le_length (Nat.le_of_eq htake.symm),
      List.drop_eq_nil_of_le (Nat.le_of_eq htake), List.nil_append]
  have hkeeps : ¬ Spills (t.take n ++ u) n := by
    rintro (hlt | hbrace)
    · rw [List.length_append] at hlt
      omega
    · rw [hleft] at hbrace
      exact readAll_brace tokens (hbrace ▸ hu)
  rw [ht] at h
  exact ⟨_, ht, hleft, (read_settles _ rest c).eq_ok_of_append h hkeeps⟩

/-- A token that closes a group is a parenthesis, and what stands on either side of that can be read
by itself. -/
theorem readAll_split {t : Text} {before after : List Token}
    (h : readAll t = .ok (before ++ .closeGroup :: after)) :
    ∃ u rest, t = u ++ ')' :: rest ∧ readAll u = .ok before ∧ readAll rest = .ok after := by
  induction before generalizing t with
  | nil =>
      cases t with
      | nil =>
          rw [readAll] at h
          cases h
      | cons c t =>
          rw [readAll_cons] at h
          obtain ⟨⟨token, n⟩, htoken, h⟩ := bind_eq_ok_iff.mp h
          obtain ⟨tokens, htokens, heq⟩ := map_eq_ok_iff.mp h
          obtain ⟨rfl, rfl⟩ := List.cons.inj heq
          obtain ⟨rfl, rfl⟩ := read_eq_closeGroup htoken
          exact ⟨[], t, rfl, by rw [readAll], htokens⟩
  | cons x before ih =>
      cases t with
      | nil =>
          rw [readAll] at h
          cases h
      | cons c t =>
          rw [readAll_cons] at h
          obtain ⟨⟨token, n⟩, htoken, h⟩ := bind_eq_ok_iff.mp h
          obtain ⟨tokens, htokens, heq⟩ := map_eq_ok_iff.mp h
          obtain ⟨rfl, rfl⟩ := List.cons.inj heq
          obtain ⟨u, rest, hsplit, hu, hrest⟩ := ih htokens
          obtain ⟨v, rfl, hv, hread⟩ := read_in_front u rest htoken hsplit hu
          refine ⟨c :: v, rest, rfl, ?_, hrest⟩
          rw [readAll_cons, hread, Except.bind, hv, hu]
          rfl

end Token

end ShapeSearch.Regex
