import ShapeSearch.Proofs.Outcomes
import ShapeSearch.Regex.Bracket

namespace ShapeSearch.Regex

/-- A reader has gone past the end of `u`, or has left nothing of it but a brace, which then cannot
open a count. -/
def Spills (u : Text) (n : Nat) : Prop :=
  u.length < n ∨ u.drop n = ['\x7b']

/-- Gives the number of characters read, too. -/
abbrev Reader (α : Type) := Text → Except Error (α × Nat)

namespace Reader

variable {α β γ : Type}

def andThen (g : Reader α) (h : α → Reader β) : Reader β :=
  fun t => (g t).bind fun x => (h x.1 (t.drop x.2)).map fun y => (y.1, y.2 + x.2)

/-- A reader that reads nothing. -/
def result (x : Except Error α) : Reader α :=
  fun _ => x.map (·, 0)

theorem andThen_eq_ok {g : Reader α} {h : α → Reader β} {t : Text} {y : β} {m : Nat}
    (hy : g.andThen h t = .ok (y, m)) :
    ∃ x n k, g t = .ok (x, n) ∧ h x (t.drop n) = .ok (y, k) ∧ m = k + n := by
  obtain ⟨⟨x, n⟩, hx, hy⟩ := bind_eq_ok_iff.mp hy
  obtain ⟨⟨y', k⟩, hk, heq⟩ := map_eq_ok_iff.mp hy
  obtain ⟨rfl, rfl⟩ := Prod.mk.injEq .. ▸ heq
  exact ⟨x, n, k, hx, hk, rfl⟩

theorem andThen_of_eq_ok {g : Reader α} {h : α → Reader β} {t : Text} {x : α} {n : Nat}
    (hx : g t = .ok (x, n)) :
    g.andThen h t = (h x (t.drop n)).map fun y => (y.1, y.2 + n) := by
  rw [andThen, hx]
  rfl

theorem andThen_of_eq_error {g : Reader α} {h : α → Reader β} {t : Text} {e : Error}
    (he : g t = .error e) : g.andThen h t = .error e := by
  rw [andThen, he]
  rfl

theorem andThen_assoc (g : Reader α) (h : α → Reader β) (k : β → Reader γ) :
    (g.andThen h).andThen k = g.andThen fun x => (h x).andThen k := by
  funext t
  simp only [andThen]
  cases g t with
  | error e => rfl
  | ok x =>
      simp only [Except.bind]
      cases h x.1 (t.drop x.2) with
      | error e => rfl
      | ok y =>
          simp only [Except.map, List.drop_drop, Nat.add_comm x.2]
          cases k y.1 (t.drop (y.2 + x.2)) with
          | error e => rfl
          | ok z => simp only [Nat.add_assoc]

theorem result_length {x : Except Error α} {t : Text} {y : α} {n : Nat}
    (h : result x t = .ok (y, n)) : n = 0 := by
  obtain ⟨z, -, hz⟩ := map_eq_ok_iff.mp h
  exact (Prod.mk.inj hz).2.symm

end Reader

/-- It makes no difference to a reader whether a text ends or `v` follows it, unless it fails at the
end of the text and does not keep within the text if `v` follows. -/
inductive Settles {α : Type} (f : Reader α) (u v : Text) : Prop
  | same (h : f (u ++ v) = f u) (hn : ∀ x n, f u = .ok (x, n) → n ≤ u.length)
  | spills (h : ∀ x, f u ≠ .ok x) (hn : ∀ x n, f (u ++ v) = .ok (x, n) → Spills u n)

namespace Settles

variable {α β : Type} {f : Reader β} {g : Reader α} {t u v : Text}

theorem eq_ok (h : Settles g u v) {x : α × Nat} (hu : g u = .ok x) :
    g (u ++ v) = .ok x ∧ x.2 ≤ u.length := by
  cases h with
  | same h hn => exact ⟨h.trans hu, hn _ _ hu⟩
  | spills h _ => exact absurd hu (h x)

theorem eq_ok_of_append (h : Settles g u v) {x : α} {n : Nat} (huv : g (u ++ v) = .ok (x, n))
    (hn : ¬ Spills u n) : g u = .ok (x, n) := by
  cases h with
  | same h _ => exact h.symm.trans huv
  | spills _ hspills => exact absurd (hspills x n huv) hn

theorem of_eq {h : Reader α} (hg : Settles g u v) (hu : h u = g u)
    (huv : h (u ++ v) = g (u ++ v)) : Settles h u v := by
  cases hg with
  | same hsame hn => exact .same (by rw [huv, hsame, hu]) fun x n hx => hn x n (hu ▸ hx)
  | spills hfails hspills =>
      exact .spills (fun x hx => hfails x (hu ▸ hx)) fun x n hx => hspills x n (huv ▸ hx)

theorem const {x : β} {n : Nat} (hu : f u = .ok (x, n)) (huv : f (u ++ v) = .ok (x, n))
    (hn : n ≤ u.length) : Settles f u v := by
  refine .same (huv.trans hu.symm) fun y m hy => ?_
  rw [hu, Except.ok.injEq, Prod.mk.injEq] at hy
  exact hy.2 ▸ hn

theorem error {e : Error} (hu : f u = .error e) (huv : f (u ++ v) = .error e) : Settles f u v :=
  .same (huv.trans hu.symm) fun x n hx => by rw [hu] at hx; cases hx

theorem empty (hnil : ∀ x, g [] ≠ .ok x) (hpos : ∀ x n, g v = .ok (x, n) → 0 < n) :
    Settles g [] v :=
  .spills hnil fun x n hx => .inl (hpos x n hx)

theorem after (h : Settles g t v) (pre : Text) {e : α → β}
    (hu : f (pre ++ t) = (g t).map fun x => (e x.1, x.2 + pre.length))
    (huv : f (pre ++ (t ++ v)) = (g (t ++ v)).map fun x => (e x.1, x.2 + pre.length)) :
    Settles f (pre ++ t) v := by
  cases h with
  | same h hn =>
      refine .same (by rw [List.append_assoc, huv, h, hu]) fun x n hx => ?_
      rw [hu] at hx
      obtain ⟨⟨y, m⟩, hy, hyx⟩ := map_eq_ok_iff.mp hx
      obtain ⟨-, rfl⟩ := Prod.mk.injEq .. ▸ hyx
      have hm := hn y m hy
      rw [List.length_append]
      omega
  | spills h hn =>
      refine .spills (fun x hx => ?_) fun x n hx => ?_
      · rw [hu] at hx
        obtain ⟨y, hy, -⟩ := map_eq_ok_iff.mp hx
        exact h y hy
      · rw [List.append_assoc, huv] at hx
        obtain ⟨⟨y, m⟩, hy, hyx⟩ := map_eq_ok_iff.mp hx
        obtain ⟨-, rfl⟩ := Prod.mk.injEq .. ▸ hyx
        have hspills := hn y m hy
        rwa [Spills, Nat.add_comm, List.drop_length_add_append, List.length_append,
          Nat.add_lt_add_iff_left]

theorem skip (pre : Text) {k : Nat} (hg : k ≤ t.length → Settles g (t.drop k) v)
    (hnil : ∀ x, g [] ≠ .ok x) {e : α → β}
    (hu : f (pre ++ t) = (g (t.drop k)).map fun x => (e x.1, x.2 + (k + pre.length)))
    (huv : f (pre ++ (t ++ v)) =
      (g ((t ++ v).drop k)).map fun x => (e x.1, x.2 + (k + pre.length))) :
    Settles f (pre ++ t) v := by
  by_cases hk : k ≤ t.length
  · have hlength : (pre ++ t.take k).length = k + pre.length := by
      rw [List.length_append, List.length_take, Nat.min_eq_left hk, Nat.add_comm]
    have hsplit (w : Text) : pre ++ t.take k ++ (t.drop k ++ w) = pre ++ (t ++ w) := by
      rw [List.append_assoc, ← List.append_assoc (t.take k), List.take_append_drop]
    have hsplit' : pre ++ t.take k ++ t.drop k = pre ++ t := by
      rw [List.append_assoc, List.take_append_drop]
    have hsettles := (hg hk).after (f := f) (pre ++ t.take k) (by rw [hsplit', hlength, hu])
      (by rw [hsplit, hlength, huv, List.drop_append_of_le_length hk])
    rwa [hsplit'] at hsettles
  · have hlt : t.length < k := Nat.lt_of_not_le hk
    refine .spills (fun x hx => ?_) fun x n hx => .inl ?_
    · rw [hu, List.drop_eq_nil_of_le (Nat.le_of_lt hlt)] at hx
      obtain ⟨y, hy, -⟩ := map_eq_ok_iff.mp hx
      exact hnil y hy
    · rw [List.append_assoc, huv] at hx
      obtain ⟨⟨y, m⟩, -, hyx⟩ := map_eq_ok_iff.mp hx
      obtain ⟨-, rfl⟩ := Prod.mk.injEq .. ▸ hyx
      rw [List.length_append]
      omega

theorem result (x : Except Error α) (u v : Text) : Settles (Reader.result x) u v :=
  .same rfl fun _ _ hy => Reader.result_length hy ▸ Nat.zero_le _

theorem andThen (hg : Settles g u v) {h : α → Reader β}
    (hh : ∀ x n, g u = .ok (x, n) → Settles (h x) (u.drop n) v)
    (hbrace : ∀ x y n, h x ('\x7b' :: v) = .ok (y, n) → Spills ['\x7b'] n) :
    Settles (g.andThen h) u v := by
  cases hg with
  | same hsame hn =>
      cases hu : g u with
      | error e =>
          exact .error (Reader.andThen_of_eq_error hu)
            (Reader.andThen_of_eq_error (hsame.trans hu))
      | ok x =>
          obtain ⟨x, n⟩ := x
          have hlength : (u.take n).length = n := List.length_take_of_le (hn x n hu)
          have hsettles := (hh x n hu).after (f := g.andThen h) (u.take n) (e := id)
          rw [List.take_append_drop, ← List.append_assoc, List.take_append_drop, hlength,
            Reader.andThen_of_eq_ok hu, Reader.andThen_of_eq_ok (hsame.trans hu),
            List.drop_append_of_le_length (hn x n hu)] at hsettles
          exact hsettles rfl rfl
  | spills hfails hspills =>
      refine .spills (fun y hy => ?_) fun y m hy => ?_
      · obtain ⟨x, n, k, hx, -, -⟩ := Reader.andThen_eq_ok hy
        exact hfails _ hx
      · obtain ⟨x, n, k, hx, hk, rfl⟩ := Reader.andThen_eq_ok hy
        rcases hspills x n hx with hlt | hleft
        · exact .inl (Nat.lt_of_lt_of_le hlt (Nat.le_add_left n k))
        · have hlength := congrArg List.length hleft
          rw [List.length_drop, List.length_singleton] at hlength
          rw [List.drop_append_of_le_length (by omega), hleft] at hk
          rcases hbrace x y k hk with hlt | hdrop
          · rw [List.length_singleton] at hlt
            exact .inl (by omega)
          · refine .inr ?_
            rw [Nat.add_comm, ← List.drop_drop, hleft, hdrop]

theorem delimited {p : Char → Bool} (pre : Text)
    (hopen : (t.takeWhile p).length = t.length → ∀ x, f (pre ++ t) ≠ .ok x)
    (hlong : ∀ x n, f (pre ++ (t ++ v)) = .ok (x, n) →
      pre.length + ((t ++ v).takeWhile p).length < n)
    (hclosed : (t.takeWhile p).length < t.length → f (pre ++ (t ++ v)) = f (pre ++ t) ∧
      ∀ x n, f (pre ++ t) = .ok (x, n) → n ≤ pre.length + t.length) :
    Settles f (pre ++ t) v := by
  rcases Nat.lt_or_eq_of_le (List.takeWhile_prefix p (l := t)).length_le with h | h
  · obtain ⟨heq, hn⟩ := hclosed h
    refine .same (by rw [List.append_assoc, heq]) fun x n hx => ?_
    rw [List.length_append]
    exact hn x n hx
  · refine .spills (hopen h) fun x n hx => .inl ?_
    rw [List.append_assoc] at hx
    have hlength := hlong x n hx
    rw [List.takeWhile_append, if_pos h, List.length_append] at hlength
    rw [List.length_append]
    omega

end Settles

theorem takeWhile_append_of_lt {p : Char → Bool} {t : Text}
    (h : (t.takeWhile p).length < t.length) (u : Text) : (t ++ u).takeWhile p = t.takeWhile p := by
  rw [List.takeWhile_append, if_neg (Nat.ne_of_lt h)]

theorem takeWhile_append_paren {p : Char → Bool} (hp : p ')' = false) (u rest : Text) :
    (u ++ ')' :: rest).takeWhile p = u.takeWhile p := by
  rw [List.takeWhile_append, List.takeWhile_cons_of_neg (by simp [hp]), List.append_nil]
  split
  next hall => exact ((List.takeWhile_prefix p).eq_of_length hall).symm
  next => rfl

theorem head?_append_paren {c : Char} (hc : c ≠ ')') (u rest : Text) :
    (u ++ ')' :: rest).head? = some c ↔ u.head? = some c := by
  cases u with
  | nil => simpa using hc.symm
  | cons d t => rfl

theorem take_two_append_paren {c d : Char} (hc : c ≠ ')') (hd : d ≠ ')') (u rest : Text) :
    (u ++ ')' :: rest).take 2 = [c, d] ↔ u.take 2 = [c, d] := by
  match u with
  | [] => simp [hc.symm]
  | [e] => simp [hd.symm]
  | e :: e' :: t => simp

variable (u rest : Text)

namespace Escape

def ofDigits (hex : Text) (read : Nat) : Except Error (Char × Nat) :=
  match Text.readDigits? 16 hex with
  | none => .error .badCodePoint
  | some n => (ofCodePoint n).map (·, read)

theorem ofDigits_length {hex : Text} {read n : Nat} {c : Char}
    (h : ofDigits hex read = .ok (c, n)) : n = read := by
  rw [ofDigits] at h
  split at h
  · cases h
  · obtain ⟨d, -, hd⟩ := map_eq_ok_iff.mp h
    exact (Prod.mk.inj hd).2.symm

theorem readCodePoint_brace (width : Nat) (t : Text) :
    readCodePoint width ('\x7b' :: t) =
      if (t.takeWhile (· != '\x7d')).length = t.length then .error .unfinishedEscape
      else ofDigits (t.takeWhile (· != '\x7d')) ((t.takeWhile (· != '\x7d')).length + 2) :=
  rfl

theorem readCodePoint_of_ne (width : Nat) {t : Text} (h : t.head? ≠ some '\x7b') :
    readCodePoint width t =
      if t.length < width then .error .unfinishedEscape else ofDigits (t.take width) width := by
  cases t with
  | nil => rfl
  | cons c t =>
      have hc : c ≠ '\x7b' := by simpa using h
      simp only [readCodePoint, ofDigits]
      split
      next heq => exact absurd (List.cons.inj heq).1 hc
      next => rfl

theorem readCodePoint_settles_brace (width : Nat) :
    Settles (readCodePoint width) ('\x7b' :: u) (')' :: rest) := by
  refine Settles.delimited ['\x7b'] (p := (· != '\x7d')) (fun h x hx => ?_) (fun x n hx => ?_)
    fun h => ⟨?_, fun x n hx => ?_⟩
  · rw [List.singleton_append, readCodePoint_brace, if_pos h] at hx
    cases hx
  · rw [List.singleton_append, readCodePoint_brace] at hx
    split at hx
    · cases hx
    · rw [ofDigits_length hx, List.length_singleton]
      omega
  · have hlt : (u.takeWhile (· != '\x7d')).length < (u ++ ')' :: rest).length := by
      rw [List.length_append]
      omega
    rw [List.singleton_append, List.singleton_append, readCodePoint_brace, readCodePoint_brace,
      takeWhile_append_of_lt h, if_neg (Nat.ne_of_lt h), if_neg (Nat.ne_of_lt hlt)]
  · rw [List.singleton_append, readCodePoint_brace, if_neg (Nat.ne_of_lt h)] at hx
    rw [ofDigits_length hx, List.length_singleton]
    omega

theorem readCodePoint_settles (width : Nat) :
    Settles (readCodePoint width) u (')' :: rest) := by
  by_cases hbrace : u.head? = some '\x7b'
  · obtain ⟨t, rfl⟩ := List.head?_eq_some_iff.mp hbrace
    exact readCodePoint_settles_brace t rest width
  have hu := readCodePoint_of_ne width hbrace
  have huv := readCodePoint_of_ne width (mt (head?_append_paren (by decide) u rest).mp hbrace)
  by_cases hlength : u.length < width
  · refine .spills (fun x hx => ?_) fun x n hx => .inl ?_
    · rw [hu, if_pos hlength] at hx
      cases hx
    · rw [huv] at hx
      split at hx
      · cases hx
      · rwa [ofDigits_length hx]
  · have hlength' : ¬ (u ++ ')' :: rest).length < width := by
      rw [List.length_append]
      omega
    refine .same ?_ fun x n hx => ?_
    · rw [hu, huv, if_neg hlength, if_neg hlength', List.take_append_of_le_length (by omega)]
    · rw [hu, if_neg hlength] at hx
      rw [ofDigits_length hx]
      omega

theorem readWordEdge_of_ne {t : Text} (h : t.head? ≠ some '\x7b') :
    readWordEdge t = .ok (.wordEdge, 0) := by
  cases t with
  | nil => rfl
  | cons c t =>
      have hc : c ≠ '\x7b' := by simpa using h
      simp [readWordEdge, hc]

theorem readWordEdge_le {t : Text} {l : Look} {n : Nat} (h : readWordEdge t = .ok (l, n)) :
    n ≤ t.length := by
  unfold readWordEdge at h
  split at h
  next rest =>
    have hle := (List.takeWhile_prefix isEdgeNameChar (l := rest)).length_le
    simp only at h
    split at h
    · cases h
    · split at h
      · rw [← (Prod.mk.inj (Except.ok.inj h)).2]
        exact Nat.zero_le _
      · split at h
        · cases h
        next hclosed =>
          split at h
          · cases h
          · have hlt : (rest.takeWhile isEdgeNameChar).length < rest.length := by
              refine Nat.lt_of_le_of_ne hle fun heq => hclosed ?_
              rw [heq, List.drop_length]
              rfl
            rw [← (Prod.mk.inj (Except.ok.inj h)).2, List.length_cons]
            omega
  next =>
    rw [← (Prod.mk.inj (Except.ok.inj h)).2]
    exact Nat.zero_le _

theorem readWordEdge_settles : Settles readWordEdge u (')' :: rest) := by
  have hedge : isEdgeNameChar ')' = false := by decide
  by_cases hbrace : u.head? = some '\x7b'
  · obtain ⟨t, rfl⟩ := List.head?_eq_some_iff.mp hbrace
    cases t with
    | nil =>
        -- the brace is left to be a count once something follows it
        have hok : readWordEdge (['\x7b'] ++ ')' :: rest) = .ok (.wordEdge, 0) := by
          simp [readWordEdge, hedge]
        refine .spills (fun x hx => by cases hx) fun x n hx => .inr ?_
        rw [hok, Except.ok.injEq, Prod.mk.injEq] at hx
        rw [← hx.2, List.drop_zero]
    | cons c t =>
        have hle := (List.takeWhile_prefix isEdgeNameChar (l := c :: t)).length_le
        have hclosed := head?_append_paren (c := '\x7d') (by decide)
          ((c :: t).drop ((c :: t).takeWhile isEdgeNameChar).length) rest
        rw [← List.drop_append_of_le_length hle] at hclosed
        have hempty : ((c :: t) ++ ')' :: rest).isEmpty = false := rfl
        refine .same ?_ fun x n hx => readWordEdge_le hx
        simp only [List.cons_append, readWordEdge]
        rw [← List.cons_append, takeWhile_append_paren hedge]
        simp only [bne_iff_ne, ne_eq, hclosed, List.isEmpty_cons, hempty]
  · exact .const (readWordEdge_of_ne hbrace)
      (readWordEdge_of_ne (mt (head?_append_paren (by decide) u rest).mp hbrace)) (Nat.zero_le _)

def readSingle (c : Char) : Except Error (Escape × Nat) :=
  if c.isDigit then .error .backReference
  else (ofChar? c).elim (.error .unknownEscape) fun e => .ok (e, 1)

theorem readSingle_length {c : Char} {e : Escape} {n : Nat} (h : readSingle c = .ok (e, n)) :
    n = 1 := by
  rw [readSingle] at h
  split at h
  · cases h
  · cases hc : ofChar? c with
    | none =>
        rw [hc] at h
        cases h
    | some e' =>
        rw [hc] at h
        exact (Prod.mk.inj (Except.ok.inj h)).2.symm

theorem read_settles : Settles read u (')' :: rest) := by
  cases u with
  | nil =>
      refine .empty (fun x hx => by cases hx) fun x n hx => ?_
      rw [← (Prod.mk.inj (Except.ok.inj hx)).2]
      exact Nat.zero_lt_one
  | cons c t =>
      have hmap {α : Type} (x : Except Error (α × Nat)) (f : α → Escape) :
          (x.map fun (a, n) => (f a, n + 1)) = x.map fun y => (f y.1, y.2 + ['x'].length) := by
        cases x <;> rfl
      let ofChar (c : Char) : Escape := .char c false
      by_cases hx : c = 'x'
      · subst hx
        have hread {t : Text} {asByte : Bool} (h : (t.head? != some '\x7b') = asByte) :
            read ('x' :: t) = (readCodePoint 2 t).map fun y =>
              (Escape.char y.1 asByte, y.2 + ['x'].length) := by
          subst h
          exact hmap _ fun c => .char c (t.head? != some '\x7b')
        have hbrace : ((t ++ ')' :: rest).head? != some '\x7b') = (t.head? != some '\x7b') := by
          rw [Bool.eq_iff_iff, bne_iff_ne, bne_iff_ne]
          exact not_congr (head?_append_paren (by decide) t rest)
        exact (readCodePoint_settles t rest 2).after ['x'] (e := (.char · _)) (hread rfl) (hread hbrace)
      by_cases hu : c = 'u'
      · subst hu
        exact (readCodePoint_settles t rest 4).after ['u'] (hmap _ ofChar) (hmap _ ofChar)
      by_cases hU : c = 'U'
      · subst hU
        exact (readCodePoint_settles t rest 8).after ['U'] (hmap _ ofChar) (hmap _ ofChar)
      by_cases hb : c = 'b'
      · subst hb
        exact (readWordEdge_settles t rest).after ['b'] (hmap _ .look) (hmap _ .look)
      have hread (t : Text) : read (c :: t) = readSingle c := by
        rw [read, readSingle]
        · cases ofChar? c <;> rfl
        all_goals simp_all
      refine .same ?_ fun x n hx => ?_
      · rw [List.cons_append, hread, hread]
      · rw [hread] at hx
        rw [readSingle_length hx, List.length_cons]
        omega

end Escape

end ShapeSearch.Regex
