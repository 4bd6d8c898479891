import ShapeSearch.Proofs.Bindings
import ShapeSearch.Proofs.Correspondence
import ShapeSearch.Proofs.Outcomes
import ShapeSearch.Search

namespace ShapeSearch.Pattern

open Attempt

variable {p : Pattern} {source : Text} {e : Captures}

theorem grows_relatedAt (p : Pattern) (source : Text) (x : Node) :
    RelatedAt (fun a _ => Grows a) p p source x :=
  fun w hw => ⟨hw, fun skipped n => w.bindOne_grows source skipped n,
    fun ns offset => w.bindRun_grows source ns offset⟩

theorem compare_grows (p : Pattern) (source : Text) (room : Nat) (a b : Node) :
    Grows (p.compare source room a b) :=
  compare_related grows_congruence (.refl p) (fun x _ => grows_relatedAt p source x) b

section Lists

variable {α : Type} [Listed α] {one : α → α → Attempt Captures} {patterns candidates : List α}
  {parent : Node}

theorem matchInOrder_grows (hone : ∀ a b, Grows (one a b)) :
    Grows (p.matchInOrder source one patterns candidates parent) :=
  Comparison.inOrder_grows hone (fun w _ _ => w.bindRun_grows source _ _) _ _ _

theorem matchInAnyOrder_grows (hone : ∀ a b, Grows (one a b)) :
    Grows (p.matchInAnyOrder source one patterns candidates parent) :=
  Comparison.anyOrder_grows hone (fun w _ _ => w.bindRun_grows source _ _) _ _ _

theorem matchInOrder_sound (hone : ∀ a b, Grows (one a b))
    (h : (p.matchInOrder source one patterns candidates parent).Accepts e) :
    p.ListInOrder source e (fun a b => (one a b).Accepts e) patterns candidates := by
  have hs := Comparison.inOrder_sound (k := comparison source one) hone
    (fun w _ _ => w.bindRun_grows source _ _) h
  exact hs.mono (fun _ _ ha => ha) fun _ _ ⟨_, hw⟩ => Wildcard.bindRun_sound hw

theorem matchInAnyOrder_sound (hone : ∀ a b, Grows (one a b))
    (h : (p.matchInAnyOrder source one patterns candidates parent).Accepts e) :
    p.ListInAnyOrder source e (fun a b => (one a b).Accepts e) patterns candidates := by
  have hs := Comparison.anyOrder_sound (k := comparison source one) hone
    (fun w _ _ => w.bindRun_grows source _ _) h
  exact hs.mono (fun _ _ ha => ha) fun _ _ ⟨_, hw⟩ => Wildcard.bindRun_sound hw

end Lists

variable {cmp : Node → Node → Attempt Captures}

theorem matchOptional_grows (hcmp : ∀ x y, Grows (cmp x y)) (a b : Option Node) :
    Grows (matchOptional cmp a b) :=
  matchOptional_related grows_congruence cmp (fun x _ y => hcmp x y) b

theorem matchOptional_sound {a b : Option Node} (h : (matchOptional cmp a b).Accepts e) :
    OptionalHolds (fun x y => (cmp x y).Accepts e) a b := by
  rintro x rfl
  cases b with
  | none => exact absurd h.test (by simp)
  | some y => exact ⟨y, rfl, h⟩

theorem matchTupleField_sound (hcmp : ∀ x y, Grows (cmp x y)) {f g : TupleField}
    (h : (p.matchTupleField source cmp f g).Accepts e) :
    p.ListInAnyOrder source e (fun x y => (cmp x y).Accepts e) f.attributes g.attributes ∧
      OptionalHolds (fun x y => (cmp x y).Accepts e) f.visibility g.visibility ∧
        (cmp f.type g.type).Accepts e := by
  have hparts := h.all (by
    intro a ha
    simp only [List.mem_cons, List.not_mem_nil, or_false] at ha
    rcases ha with rfl | rfl | rfl
    · exact matchInAnyOrder_grows hcmp
    · exact matchOptional_grows hcmp _ _
    · exact hcmp _ _)
  simp only [List.forall_mem_cons] at hparts
  obtain ⟨hattributes, hvisibility, htype, -⟩ := hparts
  exact ⟨matchInAnyOrder_sound hcmp hattributes, matchOptional_sound hvisibility, htype⟩

theorem matchTupleField_grows (hcmp : ∀ x y, Grows (cmp x y)) (f g : TupleField) :
    Grows (p.matchTupleField source cmp f g) :=
  matchTupleField_related grows_congruence (.refl p) cmp (fun x _ y => hcmp x y)
    (fun x _ => grows_relatedAt p source x) g

theorem matchQuotedName_sound {a b : Node} (h : (p.matchQuotedName source a b).Accepts e)
    (r : Node → Node → Prop) : p.Demands source e r a b .quotedName := by
  rw [matchQuotedName] at h
  rw [Demands]
  cases hw : (a.childOfKind? "identifier").bind p.wildcard? with
  | none =>
      simp only [hw] at h ⊢
      simpa using h.test
  | some w =>
      simp only [hw] at h ⊢
      exact Wildcard.bindOne_sound h

theorem ask_sound (hcmp : ∀ x y, Grows (cmp x y)) {a b : Node} {c : Clause}
    (h : (p.ask source cmp a b c).Accepts e) :
    p.Demands source e (fun x y => (cmp x y).Accepts e) a b c := by
  cases c with
  | kindAmong kinds => simpa [Demands] using h.test
  | marker kind => simpa [Demands] using h.test
  | sameText | sameTokens => simpa [Demands] using h.test
  | sameValue | genericParameter => exact h.test
  | segments => simpa [Demands] using h.test
  | lastSegment => simpa [Demands] using h.test
  | part q => exact matchOptional_sound h
  | elementsInOrder | childrenInOrder => exact matchInOrder_sound hcmp h
  | elementsInAnyOrder | attributes => exact matchInAnyOrder_sound hcmp h
  | tupleFields =>
      have hs := matchInOrder_sound (matchTupleField_grows hcmp) h
      exact hs.mono fun f g hfg => matchTupleField_sound hcmp hfg
  | tokenGroups =>
      have hs := matchInAnyOrder_sound (fun g g' => matchInOrder_grows hcmp) h
      exact hs.mono fun g g' hgg => matchInOrder_sound hcmp hgg
  | quotedName => exact matchQuotedName_sound h _

theorem ask_grows {room : Nat} {a b : Node} {c : Clause} (hc : c ∈ strategy a b) :
    Grows (p.ask source (p.compare source room) a b c) :=
  ask_related grows_congruence (.refl p) (p.compare source room) hc
    (fun x _ y => p.compare_grows source room x y) fun x _ => grows_relatedAt p source x

theorem accepts_ask {room : Nat} {a b : Node} {c : Clause} (hw : p.wildcard? a = none)
    (h : (p.compare source (room + 1) a b).Accepts e) (hc : c ∈ strategy a b) :
    (p.ask source (p.compare source room) a b c).Accepts e := by
  simp only [compare, hw] at h
  refine h.all ?_ _ (List.mem_map_of_mem hc)
  intro x hx
  obtain ⟨c, hc, rfl⟩ := List.mem_map.mp hx
  exact ask_grows hc

theorem compare_sound {room : Nat} {a b : Node} (h : (p.compare source room a b).Accepts e) :
    p.Fits source e a b := by
  induction room generalizing a b with
  | zero =>
      cases hw : p.wildcard? a with
      | none =>
          simp only [compare, hw] at h
          exact absurd h.test (by simp)
      | some w =>
          simp only [compare, hw] at h
          exact .wildcard hw (Wildcard.bindOne_sound h)
  | succ room ih =>
      cases hw : p.wildcard? a with
      | some w =>
          simp only [compare, hw] at h
          exact .wildcard hw (Wildcard.bindOne_sound h)
      | none =>
          refine .structural _ (fun x y => ih) hw fun c hc => ?_
          exact ask_sound (p.compare_grows source room) (accepts_ask hw h hc)

theorem follow_cons (cmp : Node → Node → Attempt Captures) (roots : List Node) (r n : Node)
    (s : Captures) : follow cmp (r :: roots) (some n) s =
      if (cmp r n s).1 then (follow cmp roots n.nextItem? (cmp r n s).2).map
        fun m => ⟨n :: m.nodes, m.captures⟩
      else none := by
  rw [follow]
  rcases cmp r n s with ⟨_ | _, t⟩ <;> rfl

theorem follow_cons_eq_some {roots : List Node} {r n : Node} {s : Captures} {m : Match} :
    follow cmp (r :: roots) (some n) s = some m ↔ (cmp r n s).1 = true ∧
      ∃ rest, follow cmp roots n.nextItem? (cmp r n s).2 = some rest ∧
        m = ⟨n :: rest.nodes, rest.captures⟩ := by
  rw [follow_cons]
  split
  next hc => simp only [hc, Option.map_eq_some_iff, true_and, eq_comm (a := m)]
  next hc => simp [hc]

theorem follow_sound (hcmp : ∀ a b, Grows (cmp a b)) {roots : List Node} {next : Option Node}
    {s : Captures} {m : Match} (h : follow cmp roots next s = some m) :
    s <+: m.captures ∧ List.Forall₂ (fun r n => (cmp r n).Accepts m.captures) roots m.nodes := by
  induction roots generalizing next s m with
  | nil =>
      rw [follow, Option.some.injEq] at h
      exact h ▸ ⟨List.prefix_rfl, .nil⟩
  | cons r roots ih =>
      cases next with
      | none => cases h
      | some n =>
          obtain ⟨hc, rest, hrest, rfl⟩ := follow_cons_eq_some.mp h
          obtain ⟨hgrown, hroots⟩ := ih hrest
          exact ⟨(hcmp r n s).trans hgrown, .cons ⟨s, _, Prod.ext hc rfl, hgrown⟩ hroots⟩

theorem matchAt?_eq_some_iff {n : Node} {m : Match} : p.matchAt? source n = some m ↔
    n.isAttributeItem = false ∧ n.label.extra = false ∧
      follow (p.compare source p.config.maxDepth) p.roots (some n) [] = some m := by
  rw [matchAt?]
  split
  next hn =>
    rw [Bool.or_eq_true] at hn
    rcases hn with hn | hn <;> simp [hn]
  next hn =>
    rw [Bool.or_eq_true, not_or, Bool.not_eq_true, Bool.not_eq_true] at hn
    rw [hn.1, hn.2, eq_self, true_and, true_and]

theorem accepts_of_matchAt? {n : Node} {m : Match} (h : p.matchAt? source n = some m) :
    List.Forall₂ (fun r b => (p.compare source p.config.maxDepth r b).Accepts m.captures)
      p.roots m.nodes := by
  obtain ⟨-, -, hfollow⟩ := matchAt?_eq_some_iff.mp h
  exact (follow_sound (p.compare_grows source p.config.maxDepth) hfollow).2

/-- Each root of a match fits its node under the bindings that the whole match ends with. -/
theorem fits_of_matchAt? {n : Node} {m : Match} (h : p.matchAt? source n = some m) :
    List.Forall₂ (p.Fits source m.captures) p.roots m.nodes :=
  (accepts_of_matchAt? h).imp fun _ _ => compare_sound

/-- The tree of `((u, v), w);`, where each name has `n` characters. -/
def tuples (n : Nat) : Tree :=
  node "source_file" 0 (3 * n + 9) [node "expression_statement" 0 (3 * n + 9) [
    node "tuple_expression" 0 (3 * n + 8) [token "(" 0,
      node "tuple_expression" 1 (2 * n + 5) [token "(" 1, node "identifier" 2 (n + 2) [],
        token "," (n + 2), node "identifier" (n + 4) (2 * n + 4) [], token ")" (2 * n + 4)],
      token "," (2 * n + 5), node "identifier" (2 * n + 7) (3 * n + 7) [], token ")" (3 * n + 7)],
    token ";" (3 * n + 8)]]
where
  node (kind : String) (start stop : Nat) (ts : List Tree) : Tree :=
    .node ⟨kind, true, false, false, false, start, stop, none⟩ ts
  token (kind : String) (start : Nat) : Tree :=
    .node ⟨kind, false, false, false, false, start, start + 1, none⟩ []

def tupleGrammar : Grammar := fun t => tuples ((t.length - 9) / 3)

def tupleSource : Source := .ofText tupleGrammar "((a, b), a);".toList

/-- The first wildcard must give up its second node before the name fits where it comes again. -/
theorem fits_of_matchAt?_tuples : ∃ p n m,
    compile tupleGrammar .default "(('_x:*[regex(a)], '_y:*), '_x);".toList = .ok p ∧
      p.matchAt? tupleSource.text n = some m ∧
        List.Forall₂ (p.Fits tupleSource.text m.captures) p.roots m.nodes := by
  have h : ((compile tupleGrammar .default "(('_x:*[regex(a)], '_y:*), '_x);".toList).toOption.bind
      fun p => tupleSource.root.items.head?.bind (p.matchAt? tupleSource.text)).isSome = true := by
    decide +kernel
  obtain ⟨m, hm⟩ := Option.isSome_iff_exists.mp h
  obtain ⟨p, hp, hm⟩ := Option.bind_eq_some_iff.mp hm
  obtain ⟨n, -, hm⟩ := Option.bind_eq_some_iff.mp hm
  exact ⟨p, n, m, ok_of_toOption hp, hm, fits_of_matchAt? hm⟩

end ShapeSearch.Pattern
