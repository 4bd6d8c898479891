import ShapeSearch.Proofs.Choices
import ShapeSearch.Proofs.Soundness

namespace ShapeSearch.Pattern

open Attempt

variable {p p' : Pattern} {i room : Nat} {source : Text} {total : List Text}

section Compared

variable {cmp cmp' : Node → Node → Attempt Captures}

def ComparesAlike (p : Pattern) (i room : Nat) (total : List Text)
    (cmp cmp' : Node → Node → Attempt Captures) (xs : List Node) : Prop :=
  ∀ x ∈ xs, ∀ y, Alike p i total (p.places room x) (cmp x y) (cmp' x y)

theorem singleton_of_node? (a x : Node) (h : Listed.node? a = some x) : [a] = [x] := by
  cases h
  rfl

theorem ComparesAlike.singleton {ns : List Node} (h : p.ComparesAlike i room total cmp cmp' ns)
    (a : Node) (ha : a ∈ ns) (b : Node) :
    Alike p i total ([a].flatMap (p.places room)) (cmp a b) (cmp' a b) := by
  rw [List.flatMap_singleton]
  exact h a ha b

theorem ComparesAlike.mono {ns ms : List Node} (h : p.ComparesAlike i room total cmp cmp' ns)
    (hms : ms.Sublist ns) : p.ComparesAlike i room total cmp cmp' ms :=
  fun x hx => h x (hms.subset hx)

theorem matchOptional_alike {a : Option Node}
    (hcmp : p.ComparesAlike i room total cmp cmp' a.toList) (b : Option Node) :
    Alike p i total (a.toList.flatMap (p.places room)) (matchOptional cmp a b)
      (matchOptional cmp' a b) := by
  cases a with
  | none => exact .test _ true
  | some x =>
      cases b with
      | none => exact .test _ false
      | some y => exact hcmp.singleton x (by simp) y

theorem matchTupleField_alike (h : Tightened i p p') {f : TupleField}
    (hcmp : p.ComparesAlike i room total cmp cmp' f.nodes)
    (hcount : ∀ n, (p.names (f.nodes.flatMap (p.places room))).count n ≤ total.count n)
    (hapart : ∀ xs ∈ choiceInAnyOrder ([·]) f.attributes,
      p.Apart i total (xs.flatMap (p.places room)))
    (g : TupleField) :
    Alike p i total (f.nodes.flatMap (p.places room)) (p.matchTupleField source cmp f g)
      (p'.matchTupleField source cmp' f g) := by
  have hnodes : f.nodes.flatMap (p.places room) = f.attributes.flatMap (p.places room) ++
      (f.visibility.toList.flatMap (p.places room) ++ ([f.type].flatMap (p.places room) ++ [])) := by
    simp only [TupleField.nodes, List.flatMap_append, List.append_nil]
  have hattributes : f.attributes.Sublist f.nodes := List.sublist_append_left _ _
  have hrest : (f.visibility.toList ++ [f.type]).Sublist f.nodes := List.sublist_append_right _ _
  have hvisibility := (List.sublist_append_left f.visibility.toList [f.type]).trans hrest
  have htype := (List.sublist_append_right f.visibility.toList [f.type]).trans hrest
  rw [hnodes] at hcount ⊢
  obtain ⟨hleft, hright⟩ := count_names_of_append hcount
  have ha : Alike p i total (f.attributes.flatMap (p.places room))
      (p.matchInAnyOrder source cmp f.attributes g.attributes g.type)
      (p'.matchInAnyOrder source cmp' f.attributes g.attributes g.type) :=
    matchInAnyOrder_alike h singleton_of_node? (hcmp.mono hattributes).singleton
      (List.flatMap_singleton' _) hleft hapart _ _
  have hv := matchOptional_alike (hcmp.mono hvisibility) g.visibility
  have ht := (hcmp.mono htype).singleton f.type (List.mem_singleton_self _) g.type
  exact ha.andThen (hv.andThen (ht.andThen (.test [] true) (count_names_of_append hright).2) hright)
    hcount

theorem matchTokenGroup_alike (h : Tightened i p p') {g : TokenGroup}
    (hcmp : p.ComparesAlike i room total cmp cmp' g.tokens)
    (hcount : ∀ n, (p.names (g.tokens.flatMap (p.places room))).count n ≤ total.count n)
    (hapart : ∀ xs ∈ p.choiceInOrder ([·]) g.tokens,
      p.Apart i total (xs.flatMap (p.places room)))
    (g' : TokenGroup) :
    Alike p i total (g.tokens.flatMap (p.places room)) (p.matchTokenGroup source cmp g g')
      (p'.matchTokenGroup source cmp' g g') :=
  matchInOrder_alike h singleton_of_node? hcmp.singleton (List.flatMap_singleton' _) hcount hapart
    _ _

theorem matchQuotedName_alike (h : Tightened i p p') (a b : Node) :
    Alike p i total ((a.childOfKind? "identifier").toList.flatMap (p.places room))
      (p.matchQuotedName source a b) (p'.matchQuotedName source a b) := by
  simp only [matchQuotedName]
  rw [h.parsed]
  rcases h.bind_wildcard_cases (a.childOfKind? "identifier") with
    ⟨hw, hw'⟩ | ⟨x, w, w', hx, hw, hw', htighter⟩
  · rw [hw, hw']
    exact .test _ _
  · have hplaces : (a.childOfKind? "identifier").toList.flatMap (p.places room) = [x] := by
      rw [hx, Option.toList_some, List.flatMap_singleton, places_of_wildcard hw]
    have hbind : (a.childOfKind? "identifier").bind p.wildcard? = some w := by rw [hx]; exact hw
    rw [hx] at hw'
    rw [hplaces, hbind, hx, Option.bind_some]
    simp only [Option.bind_some] at hw'
    rw [hw']
    exact bindOne_alike h hw hw' htighter 1 b

theorem ask_alike (h : Tightened i p p') {a : Node} {c : Clause}
    (hcmp : p.ComparesAlike i room total cmp cmp' (c.compared a))
    (hcount : ∀ n, (p.names ((c.compared a).flatMap (p.places room))).count n ≤ total.count n)
    (hapart : ∀ xs ∈ p.choicesOf a c, p.Apart i total (xs.flatMap (p.places room))) (b : Node) :
    Alike p i total ((c.compared a).flatMap (p.places room)) (p.ask source cmp a b c)
      (p'.ask source cmp' a b c) := by
  cases c with
  | kindAmong | marker | genericParameter | segments => exact .test _ _
  | sameText | sameTokens | sameValue | lastSegment =>
      simp only [ask, h.parsed]
      exact .test _ _
  | part q => exact matchOptional_alike hcmp _
  | elementsInOrder | childrenInOrder =>
      exact matchInOrder_alike h singleton_of_node? hcmp.singleton (List.flatMap_singleton' _)
        hcount hapart _ _
  | elementsInAnyOrder | attributes =>
      exact matchInAnyOrder_alike h singleton_of_node? hcmp.singleton (List.flatMap_singleton' _)
        hcount hapart _ _
  | tupleFields =>
      refine matchInOrder_alike h nodes_of_node? (fun f hf g => ?_) rfl hcount (fun xs hxs => ?_) _ _
      · have hsub : f.nodes.Sublist (a.tupleFields.flatMap TupleField.nodes) :=
          sublist_flatMap_of_mem hf _
        refine matchTupleField_alike h (hcmp.mono hsub) (count_names_le (hsub.flatMap _) hcount)
          (fun xs hxs => ?_) g
        exact hapart xs (List.mem_append_right _ (List.mem_flatMap.mpr ⟨f, hf, hxs⟩))
      · exact hapart xs (List.mem_append_left _ hxs)
  | tokenGroups =>
      refine matchInAnyOrder_alike h tokens_of_node? (fun g hg g' => ?_) rfl hcount
        (fun xs hxs => ?_) _ _
      · have hsub : g.tokens.Sublist (a.tokenGroups.flatMap TokenGroup.tokens) :=
          sublist_flatMap_of_mem hg _
        refine matchTokenGroup_alike h (hcmp.mono hsub) (count_names_le (hsub.flatMap _) hcount)
          (fun xs hxs => ?_) g'
        exact hapart xs (List.mem_append_right _ (List.mem_flatMap.mpr ⟨g, hg, hxs⟩))
      · exact hapart xs (List.mem_append_left _ hxs)
  | quotedName => exact matchQuotedName_alike h a b

theorem choices_succ {a : Node} (h : p.wildcard? a = none) (room : Nat) :
    p.choices (room + 1) a = (strategy a a).flatMap fun c =>
      (p.choicesOf a c).map (·.flatMap (p.places room)) ++
        (c.compared a).flatMap (p.choices room) := by
  simp [choices, h]

theorem compare_alike (h : Tightened i p p') {a : Node}
    (hcount : ∀ n, (p.names (p.places room a)).count n ≤ total.count n)
    (hapart : ∀ xs ∈ p.choices room a, p.Apart i total xs) (b : Node) :
    Alike p i total (p.places room a) (p.compare source room a b) (p'.compare source room a b) := by
  induction room generalizing a b with
  | zero =>
      rcases h.wildcard_cases a with ⟨hw, hw'⟩ | ⟨w, w', hw, hw', htighter⟩
      · simp only [compare, hw, hw']
        exact .test _ false
      · simp only [compare, hw, hw', places_of_wildcard hw]
        exact bindOne_alike h hw hw' htighter 0 b
  | succ room ih =>
      rcases h.wildcard_cases a with ⟨hw, hw'⟩ | ⟨w, w', hw, hw', htighter⟩
      · rw [places_succ hw] at hcount ⊢
        rw [choices_succ hw] at hapart
        simp only [compare, hw, hw']
        rcases strategy_self a b with hs | hs
        · rw [hs]
          refine .all (fun c hc => ?_) hcount
          have hsub := sublist_flatMap_of_mem hc fun c => (c.compared a).flatMap (p.places room)
          have hcount' := count_names_le hsub hcount
          refine ask_alike h (fun x hx y => ih ?_ ?_ y) hcount' ?_ b
          · exact count_names_le (sublist_flatMap_of_mem hx _) hcount'
          · intro xs hxs
            refine hapart xs (List.mem_flatMap.mpr ⟨c, hc, List.mem_append_right _ ?_⟩)
            exact List.mem_flatMap.mpr ⟨x, hx, hxs⟩
          · intro xs hxs
            refine hapart _ (List.mem_flatMap.mpr ⟨c, hc, List.mem_append_left _ ?_⟩)
            exact List.mem_map_of_mem hxs
        · -- both clauses look at kinds and texts only, where the patterns are the same
          rw [hs]
          simp only [List.map_cons, List.map_nil, ask, h.parsed]
          exact .refl ((Confined.test _ _).andThen ((Confined.test _ _).andThen (.test _ true)))
      · simp only [compare, hw, hw', places_of_wildcard hw]
        exact bindOne_alike h hw hw' htighter 0 b

theorem follow_alike {roots : List Node}
    (hcmp : p.ComparesAlike i room total cmp cmp' roots)
    (hcount : ∀ n, (p.names (roots.flatMap (p.places room))).count n ≤ total.count n)
    {next : Option Node} {s s' : Captures}
    (hs : Captures.AgreeOn (p.names (roots.flatMap (p.places room))) s s') {m' : Match}
    (hm : follow cmp' roots next s' = some m') :
    ∃ m, follow cmp roots next s = some m ∧ m.nodes = m'.nodes := by
  -- the bindings agree for the names of the roots that are still to come
  induction roots generalizing next s s' m' with
  | nil =>
      rw [follow, Option.some.injEq] at hm
      exact ⟨⟨[], s⟩, rfl, hm ▸ rfl⟩
  | cons r roots ih =>
      cases next with
      | none => cases hm
      | some n =>
          rw [List.flatMap_cons, names_append] at hcount hs
          have hr := (hcmp r List.mem_cons_self n).simulates
          obtain ⟨hc', rest', hrest', rfl⟩ := follow_cons_eq_some.mp hm
          obtain ⟨rest, hrest, hnodes⟩ := ih (fun x hx => hcmp x (List.mem_cons_of_mem r hx))
            (count_le_of_append hcount) (hr.agreeOn_next hcount hs hc') hrest'
          refine ⟨⟨n :: rest.nodes, rest.captures⟩, ?_, by rw [hnodes]⟩
          exact follow_cons_eq_some.mpr ⟨hr.succeeds hs.left hc', rest, hrest, rfl⟩

end Compared

theorem Tightened.exists_matchAt? (h : Tightened i p p') (hind : p.Independent i) {n : Node}
    {m' : Match} (hm : p'.matchAt? source n = some m') :
    ∃ m, p.matchAt? source n = some m ∧ m.nodes = m'.nodes := by
  obtain ⟨hattribute, hextra, hfollow⟩ := matchAt?_eq_some_iff.mp hm
  rw [h.config, h.roots_eq] at hfollow
  have hcount (n : Text) : (p.names (p.roots.flatMap (p.places p.config.maxDepth))).count n ≤
      p.allNames.count n := Nat.le_refl _
  have hroots : p.ComparesAlike i p.config.maxDepth p.allNames
      (p.compare source p.config.maxDepth) (p'.compare source p.config.maxDepth) p.roots := by
    intro r hr b
    exact compare_alike h (count_names_le (sublist_flatMap_of_mem hr _) hcount) (hind r hr) b
  obtain ⟨m, hm, hnodes⟩ := follow_alike hroots hcount (fun _ _ => rfl) hfollow
  exact ⟨m, matchAt?_eq_some_iff.mpr ⟨hattribute, hextra, hm⟩, hnodes⟩

end ShapeSearch.Pattern
