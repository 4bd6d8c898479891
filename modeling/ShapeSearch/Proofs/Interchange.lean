import ShapeSearch.Proofs.Commuting
import ShapeSearch.Proofs.Independence
import ShapeSearch.Proofs.Repeating

namespace ShapeSearch.Pattern

open Attempt

variable {p : Pattern} {room : Nat} {source : Text} {b : Attempt Captures}

theorem flatMap_subset_of_subset {α β : Type} {xs ys : List α} (h : xs ⊆ ys) (f : α → List β) :
    xs.flatMap f ⊆ ys.flatMap f := by
  intro b hb
  obtain ⟨x, hx, hb⟩ := List.mem_flatMap.mp hb
  exact List.mem_flatMap.mpr ⟨x, h hx, hb⟩

theorem names_mono {xs ys : List Node} (h : xs ⊆ ys) : p.names xs ⊆ p.names ys :=
  flatMap_subset_of_subset h _

def namesBelow (p : Pattern) (room : Nat) (xs : List Node) : List Text :=
  p.names (xs.flatMap (p.places room))

theorem namesBelow_mono {xs ys : List Node} (h : xs ⊆ ys) :
    p.namesBelow room xs ⊆ p.namesBelow room ys :=
  names_mono (flatMap_subset_of_subset h _)

theorem namesBelow_of_wildcard {x : Node} {w : Wildcard} (h : p.wildcard? x = some w) :
    p.namesBelow room [x] = w.names := by
  rw [namesBelow, List.flatMap_singleton, places_of_wildcard h, names_of_wildcard h]

section Lists

variable {α : Type} [Listed α] {nodes : α → List Node} {one : α → α → Attempt Captures}
  {ps : List α} {ns : List Node} (hnodes : ∀ a x, Listed.node? a = some x → nodes a = [x])
  (hone : ∀ a ∈ ps, ∀ c, Trades b (p.namesBelow room (nodes a)) (one a c))
  (hns : ps.flatMap nodes = ns) (hfree : Frees b (p.namesBelow room ns))

include hone hns

theorem one_trades (a : α) (ha : .one a ∈ ps.map p.element) (c : α) :
    Trades b (p.namesBelow room ns) (one a c) := by
  obtain ⟨a', ha', he⟩ := List.mem_map.mp ha
  obtain rfl := eq_of_element_eq_one he
  refine (hone a ha' c).mono (namesBelow_mono fun x hx => ?_)
  exact hns ▸ List.mem_flatMap.mpr ⟨a, ha', hx⟩

omit hone in
include hnodes hfree in
theorem run_trades (w : Wildcard) (hw : .run w ∈ ps.map p.element) (cs : List Node) (offset : Nat) :
    Trades b (p.namesBelow room ns) (w.bindRun source cs offset) := by
  obtain ⟨a, ha, he⟩ := List.mem_map.mp hw
  obtain ⟨x, hx, hxw⟩ := wildcard_of_element_eq_run he
  have hsubset : w.names ⊆ p.namesBelow room ns := by
    have hbelow : p.namesBelow room [x] = w.names := namesBelow_of_wildcard hxw
    rw [← hbelow]
    refine namesBelow_mono fun y hy => hns ▸ List.mem_flatMap.mpr ⟨a, ha, ?_⟩
    rwa [hnodes a x hx]
  exact (Wildcard.bindRun_trades (hfree.mono hsubset) source cs offset).mono hsubset

include hnodes hfree

theorem matchInOrder_trades
    (hspare : ∀ xs ∈ p.choiceInOrder nodes ps, Spares b (p.namesBelow room xs))
    (cs : List α) (parent : Node) :
    Trades b (p.namesBelow room ns) (p.matchInOrder source one ps cs parent) := by
  refine Comparison.inOrder_trades (one_trades hone hns)
    (fun w hw cs offset => run_trades hnodes hns hfree w hw _ offset) (fun hchoice => ?_) _ cs
  apply hspare
  rw [choiceInOrder, if_pos hchoice, hns]
  exact List.mem_singleton_self ns

theorem matchInAnyOrder_trades
    (hspare : ∀ xs ∈ choiceInAnyOrder nodes ps, Spares b (p.namesBelow room xs))
    (cs : List α) (parent : Node) :
    Trades b (p.namesBelow room ns) (p.matchInAnyOrder source one ps cs parent) := by
  refine Comparison.anyOrder_trades (one_trades hone hns)
    (fun w hw cs offset => run_trades hnodes hns hfree w hw _ offset) (fun hchoice => ?_) _ cs
  apply hspare
  rw [List.length_map] at hchoice
  rw [choiceInAnyOrder, if_pos hchoice, hns]
  exact List.mem_singleton_self ns

end Lists

section Compared

variable {cmp : Node → Node → Attempt Captures}

def ComparesTrading (p : Pattern) (room : Nat) (b : Attempt Captures)
    (cmp : Node → Node → Attempt Captures) (xs : List Node) : Prop :=
  ∀ x ∈ xs, ∀ y, Trades b (p.namesBelow room [x]) (cmp x y)

theorem ComparesTrading.mono {xs ys : List Node} (h : p.ComparesTrading room b cmp ys)
    (hxs : xs ⊆ ys) : p.ComparesTrading room b cmp xs :=
  fun x hx => h x (hxs hx)

theorem matchOptional_trades {a : Option Node} (hcmp : p.ComparesTrading room b cmp a.toList)
    (c : Option Node) : Trades b (p.namesBelow room a.toList) (matchOptional cmp a c) := by
  cases a with
  | none => exact .test b _ true
  | some x =>
      cases c with
      | none => exact .test b _ false
      | some y => exact hcmp x (by simp) y

theorem matchTupleField_trades {f : TupleField} (hcmp : p.ComparesTrading room b cmp f.nodes)
    (hfree : Frees b (p.namesBelow room f.nodes))
    (hspare : ∀ xs ∈ choiceInAnyOrder ([·]) f.attributes, Spares b (p.namesBelow room xs))
    (g : TupleField) :
    Trades b (p.namesBelow room f.nodes) (p.matchTupleField source cmp f g) := by
  have hattributes := f.attributes_subset_nodes
  have hvisibility := f.visibility_subset_nodes
  have htype : [f.type] ⊆ f.nodes :=
    List.cons_subset.mpr ⟨f.type_mem_nodes, List.nil_subset _⟩
  have ha : Trades b (p.namesBelow room f.attributes)
      (p.matchInAnyOrder source cmp f.attributes g.attributes g.type) :=
    matchInAnyOrder_trades singleton_of_node? (hcmp.mono hattributes) (List.flatMap_singleton' _)
      (hfree.mono (namesBelow_mono hattributes)) hspare _ _
  have hv := matchOptional_trades (hcmp.mono hvisibility) g.visibility
  have ht := hcmp.mono htype f.type (List.mem_singleton_self _) g.type
  refine .all ?_
  simp only [List.forall_mem_cons, List.not_mem_nil, false_implies, implies_true, and_true]
  exact ⟨ha.mono (namesBelow_mono hattributes), hv.mono (namesBelow_mono hvisibility),
    ht.mono (namesBelow_mono htype)⟩

theorem matchTokenGroup_trades {g : TokenGroup} (hcmp : p.ComparesTrading room b cmp g.tokens)
    (hfree : Frees b (p.namesBelow room g.tokens))
    (hspare : ∀ xs ∈ p.choiceInOrder ([·]) g.tokens, Spares b (p.namesBelow room xs))
    (g' : TokenGroup) :
    Trades b (p.namesBelow room g.tokens) (p.matchTokenGroup source cmp g g') :=
  matchInOrder_trades singleton_of_node? hcmp (List.flatMap_singleton' _) hfree hspare _ _

theorem matchQuotedName_trades {a : Node}
    (hfree : Frees b (p.namesBelow room (a.childOfKind? "identifier").toList)) (c : Node) :
    Trades b (p.namesBelow room (a.childOfKind? "identifier").toList)
      (p.matchQuotedName source a c) := by
  simp only [matchQuotedName]
  split
  next w hw =>
    obtain ⟨x, hx, hxw⟩ := Option.bind_eq_some_iff.mp hw
    rw [hx, Option.toList_some, namesBelow_of_wildcard hxw] at hfree ⊢
    exact Wildcard.bindOne_trades hfree source 1 c
  next => exact .test b _ _

theorem ask_trades {a : Node} {c : Clause} (hcmp : p.ComparesTrading room b cmp (c.compared a))
    (hfree : Frees b (p.namesBelow room (c.compared a)))
    (hspare : ∀ xs ∈ p.choicesOf a c, Spares b (p.namesBelow room xs)) (d : Node) :
    Trades b (p.namesBelow room (c.compared a)) (p.ask source cmp a d c) := by
  cases c with
  | kindAmong | marker | sameText | sameTokens | sameValue | genericParameter | segments
  | lastSegment => exact .test b _ _
  | part q => exact matchOptional_trades hcmp _
  | elementsInOrder | childrenInOrder =>
      exact matchInOrder_trades singleton_of_node? hcmp (List.flatMap_singleton' _) hfree hspare _ _
  | elementsInAnyOrder | attributes =>
      exact matchInAnyOrder_trades singleton_of_node? hcmp (List.flatMap_singleton' _) hfree hspare
        _ _
  | tupleFields =>
      refine matchInOrder_trades nodes_of_node? (fun f hf g => ?_) rfl hfree (fun xs hxs => ?_) _ _
      · have hsub := TupleField.nodes_subset_compared hf
        refine matchTupleField_trades (hcmp.mono hsub) (hfree.mono (namesBelow_mono hsub))
          (fun xs hxs => ?_) g
        exact hspare xs (List.mem_append_right _ (List.mem_flatMap.mpr ⟨f, hf, hxs⟩))
      · exact hspare xs (List.mem_append_left _ hxs)
  | tokenGroups =>
      refine matchInAnyOrder_trades tokens_of_node? (fun g hg g' => ?_) rfl hfree
        (fun xs hxs => ?_) _ _
      · have hsub := TokenGroup.tokens_subset_compared hg
        refine matchTokenGroup_trades (hcmp.mono hsub) (hfree.mono (namesBelow_mono hsub))
          (fun xs hxs => ?_) g'
        exact hspare xs (List.mem_append_right _ (List.mem_flatMap.mpr ⟨g, hg, hxs⟩))
      · exact hspare xs (List.mem_append_left _ hxs)
  | quotedName => exact matchQuotedName_trades hfree d

theorem compare_trades {a : Node} (hfree : Frees b (p.namesBelow room [a]))
    (hspare : ∀ xs ∈ p.choices room a, Spares b (p.names xs)) (d : Node) :
    Trades b (p.namesBelow room [a]) (p.compare source room a d) := by
  induction room generalizing a d with
  | zero =>
      cases hw : p.wildcard? a with
      | none =>
          simp only [compare, hw]
          exact .test b _ false
      | some w =>
          rw [namesBelow_of_wildcard hw] at hfree ⊢
          simp only [compare, hw]
          exact Wildcard.bindOne_trades hfree source 0 d
  | succ room ih =>
      cases hw : p.wildcard? a with
      | some w =>
          rw [namesBelow_of_wildcard hw] at hfree ⊢
          simp only [compare, hw]
          exact Wildcard.bindOne_trades hfree source 0 d
      | none =>
          rw [choices_succ hw] at hspare
          simp only [compare, hw]
          refine .all fun _ hask => ?_
          obtain ⟨c, hc, rfl⟩ := List.mem_map.mp hask
          rcases strategy_self a d with hs | hs
          · rw [hs] at hc
            have hbelow : p.namesBelow room (c.compared a) ⊆ p.namesBelow (room + 1) [a] := by
              refine names_mono fun x hx => ?_
              rw [List.flatMap_singleton, places_succ hw]
              exact List.mem_flatMap.mpr ⟨c, hc, hx⟩
            have hfree' := hfree.mono hbelow
            refine (ask_trades (fun x hx y => ih ?_ ?_ y) hfree' ?_ d).mono hbelow
            · exact hfree'.mono (namesBelow_mono (by simpa using hx))
            · intro xs hxs
              refine hspare xs (List.mem_flatMap.mpr ⟨c, hc, List.mem_append_right _ ?_⟩)
              exact List.mem_flatMap.mpr ⟨x, hx, hxs⟩
            · intro xs hxs
              refine hspare _ (List.mem_flatMap.mpr ⟨c, hc, List.mem_append_left _ ?_⟩)
              exact List.mem_map_of_mem hxs
          · rw [hs] at hc
            have hcases : c = .genericParameter ∨ c = .sameText := by simpa using hc
            rcases hcases with rfl | rfl <;> exact .test b _ _

end Compared

theorem relatedAt_of_bind {r : Attempt Captures → Attempt Captures → Prop} (h : Congruence r)
    {x : Node} (hbind : ∀ w, p.wildcard? x = some w →
      ∀ c, r (Captures.bind w.ofVariable.name c) (Captures.bind w.ofVariable.name c)) :
    RelatedAt r p p source x := by
  refine fun w hw => ⟨hw, fun skipped n => ?_, fun ns offset => ?_⟩
  · rw [Wildcard.bindOne]
    split
    · exact hbind w hw _
    · exact h.fail
  · rw [Wildcard.bindRun]
    split
    · exact hbind w hw _
    · exact h.fail

theorem compare_confined (p : Pattern) (source : Text) (room : Nat) (a d : Node) :
    Confined (p.namesBelow room [a]) (p.compare source room a d) := by
  refine compare_related (Confined.congruence _) (.refl p) (fun x hx => ?_) d
  refine relatedAt_of_bind (Confined.congruence _) fun w hw c => ?_
  refine (w.bind_confined c).mono fun n hn => ?_
  rw [namesBelow, List.flatMap_singleton]
  exact names_subset hx hw hn

/-- Names in a list below one of the nodes that offers a choice do not stand below the other. -/
def Untangled (p : Pattern) (room : Nat) (x y : Node) : Prop :=
  (∀ xs ∈ p.choices room x, (p.names xs).Disjoint (p.namesBelow room [y])) ∧
    ∀ ys ∈ p.choices room y, (p.names ys).Disjoint (p.namesBelow room [x])

theorem Untangled.symm {x y : Node} (h : p.Untangled room x y) : p.Untangled room y x :=
  ⟨h.2, h.1⟩

/-- Two comparisons can be made in either order, unless one of them commits itself to a choice that
matters to the other. -/
theorem compare_commutes {x y : Node} (h : p.Untangled room x y) (c d : Node) :
    Commutes (p.compare source room x c) (p.compare source room y d) := by
  have hspare {z : Node} {ys : List Node}
      (hdisjoint : (p.names ys).Disjoint (p.namesBelow room [z])) (e : Node) :
      Spares (p.compare source room z e) (p.names ys) :=
    ⟨_, p.compare_confined source room z e, hdisjoint⟩
  refine (compare_trades (fun n hn f => ?_) (fun ys hys => hspare (h.2 ys hys) c) d).toCommutes
  -- the names below `y` are bound one by one, each of them before or after the comparison with `x`
  have hconfined : Confined [n] (Captures.bind n f) :=
    .bind (fun _ => List.mem_singleton_self n) f
  have hx : Trades (Captures.bind n f) (p.namesBelow room [x]) (p.compare source room x c) := by
    refine compare_trades (fun m _ g => ⟨.bind m g, .bind n m f g, .bind m n g f⟩)
      (fun xs hxs => ⟨[n], hconfined, fun m hm hmn => ?_⟩) c
    rw [List.mem_singleton.mp hmn] at hm
    exact h.1 xs hxs hm hn
  exact ⟨.bind n f, hx.after, hx.before⟩

end ShapeSearch.Pattern
