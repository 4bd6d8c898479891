import ShapeSearch.Proofs.SelfMatch

namespace ShapeSearch

/-- What may stand between an attribute and the node that it belongs to. -/
def Label.Passed (l : Label) : Prop :=
  l.named = true → l.kind = "attribute_item" ∨ l.extra = true

namespace Node

def isItem (n : Node) : Bool :=
  n.label.isProper && !(n.isAttributeItem && n.decoratesSibling)

theorem mem_items_iff {n c : Node} : c ∈ n.items ↔ c ∈ n.children ∧ c.isItem = true := by
  simp only [items, properChildren, List.mem_filter, isItem, Bool.and_eq_true, and_assoc]

theorem exists_first_item (above : List String) (before : List Tree) {ts : List Tree}
    (h : ∃ t ∈ ts, t.label.isProper = true) : ∃ us t after, ts = us ++ t :: after ∧
      (∀ u ∈ us, u.label.Passed) ∧ isItem ⟨t, us.reverse ++ before, after, above⟩ = true := by
  induction ts generalizing before with
  | nil =>
      obtain ⟨t, ht, -⟩ := h
      cases ht
  | cons t ts ih =>
      by_cases hitem : isItem ⟨t, before, ts, above⟩ = true
      · exact ⟨[], t, ts, rfl, by simp, hitem⟩
      · have hpassed : t.label.Passed := by
          intro hnamed
          simp only [isItem, label, Label.isProper, hnamed, isAttributeItem, kind] at hitem
          cases hextra : t.label.extra <;> simp_all
        have hrest : ∃ u ∈ ts, u.label.isProper = true := by
          obtain ⟨u, hu, hproper⟩ := h
          rcases List.mem_cons.mp hu with rfl | hu
          · have hdecorates : decoratesSibling ⟨u, before, ts, above⟩ = true := by
              simp only [isItem, label, hproper] at hitem
              simp_all
            simp only [decoratesSibling, later, List.any_eq_true] at hdecorates
            obtain ⟨y, hy, hyproper⟩ := hdecorates
            exact ⟨y.tree, tree_mem_of_mem_row hy, hyproper⟩
          · exact ⟨u, hu, hproper⟩
        obtain ⟨us, v, after, rfl, hus, hv⟩ := ih (t :: before) hrest
        refine ⟨t :: us, v, after, rfl, List.forall_mem_cons.mpr ⟨hpassed, hus⟩, ?_⟩
        rwa [List.reverse_cons, List.append_assoc]

theorem mem_attributes_of_passed {c : Node} {us : List Tree} (behind : List Tree)
    (hnamed : c.label.named = true) (hattribute : c.isAttributeItem = true)
    (hus : ∀ u ∈ us, u.label.Passed) (hafter : c.after = us.reverse ++ behind) :
    c ∈ ((rowBack c.above behind (us ++ c.tree :: c.before)).filter (·.label.named)).takeWhile
      fun s => s.isAttributeItem || s.label.extra := by
  induction us generalizing behind with
  | nil =>
      have hself : (⟨c.tree, c.before, behind, c.above⟩ : Node) = c := by
        rw [List.reverse_nil, List.nil_append] at hafter
        rw [← hafter]
      simp [rowBack, hself, hnamed, hattribute]
  | cons u us ih =>
      have hrest := ih (u :: behind) (fun v hv => hus v (List.mem_cons_of_mem u hv))
        (by rw [hafter, List.reverse_cons, List.append_assoc]; rfl)
      rw [List.cons_append, rowBack, List.filter_cons]
      split
      next hu =>
        have hstays := hus u List.mem_cons_self hu
        rw [List.takeWhile_cons, if_pos (by simpa [isAttributeItem, kind, label] using hstays)]
        exact List.mem_cons_of_mem _ hrest
      · exact hrest

theorem item_or_attribute {n c : Node} (hc : c ∈ n.properChildren) :
    c ∈ n.items ∨ ∃ r ∈ n.items, c ∈ r.outerAttributes := by
  by_cases hitem : c.isItem = true
  · exact .inl (mem_items_iff.mpr ⟨mem_properChildren hc, hitem⟩)
  · right
    have hproper : c.label.isProper = true := (List.mem_filter.mp hc).2
    simp only [isItem, hproper, Bool.true_and, Bool.not_eq_true', Bool.not_eq_false,
      Bool.and_eq_true] at hitem
    obtain ⟨hattribute, hdecorates⟩ := hitem
    obtain ⟨us, hchildren, hbefore, habove⟩ := mem_row_iff.mp (mem_properChildren hc)
    have hlater : ∃ t ∈ c.after, t.label.isProper = true := by
      rw [decoratesSibling, List.any_eq_true] at hdecorates
      obtain ⟨y, hy, hy'⟩ := hdecorates
      exact ⟨y.tree, tree_mem_of_mem_row hy, hy'⟩
    obtain ⟨vs, t, after, hafter, hpassed, ht⟩ :=
      exists_first_item c.above (c.tree :: c.before) hlater
    refine ⟨⟨t, vs.reverse ++ c.tree :: c.before, after, c.above⟩, ?_, ?_⟩
    · refine mem_items_iff.mpr ⟨mem_row_iff.mpr ⟨us ++ c.tree :: vs, ?_, ?_, habove⟩, ht⟩
      · rw [hchildren, hafter, List.append_assoc, List.cons_append]
      · simp [hbefore]
    · have hnamed : c.label.named = true := (Bool.and_eq_true_iff.mp hproper).1
      have hus : ∀ u ∈ vs.reverse, u.label.Passed := fun u hu => hpassed u (List.mem_reverse.mp hu)
      have hmem := mem_attributes_of_passed (t :: after) hnamed hattribute hus
        (by rw [hafter, List.reverse_reverse])
      exact List.mem_reverse.mpr (List.mem_filter.mpr ⟨hmem, hattribute⟩)

theorem item_or_attribute_of_visited {n y : Node} (h : y ∈ n.preorder Label.isProper) :
    y = n ∨ ∃ r ∈ n.items, y ∈ r.reach := by
  rw [preorder_eq, List.mem_cons, List.mem_flatMap] at h
  rcases h with rfl | ⟨c, hc, hy⟩
  · exact .inl rfl
  · have hbelow := mem_below_of_mem_preorder hy
    right
    rcases item_or_attribute hc with hitem | ⟨r, hr, hattribute⟩
    · exact ⟨c, hitem, List.mem_flatMap.mpr ⟨c, List.mem_cons_self, hbelow⟩⟩
    · exact ⟨r, hr, List.mem_flatMap.mpr ⟨c, List.mem_cons_of_mem r hattribute, hbelow⟩⟩

def depth (n : Node) : Nat :=
  n.above.length

theorem depth_of_mem_children {n c : Node} (h : c ∈ n.children) : c.depth = n.depth + 1 := by
  rw [depth, above_of_mem_row h, List.length_cons]
  rfl

theorem depth_of_mem_below {n y : Node} (h : y ∈ n.below) : y = n ∨ n.depth < y.depth := by
  induction n using childInduct with
  | step n ih =>
      rcases mem_below_iff.mp h with rfl | ⟨c, hc, hy⟩
      · exact .inl rfl
      · right
        have hchild := depth_of_mem_children hc
        rcases ih c hc hy with rfl | hlt <;> omega

theorem depth_of_mem_reach {r y : Node} (h : y ∈ r.reach) : r.depth ≤ y.depth := by
  obtain ⟨t, ht, hy⟩ := List.mem_flatMap.mp h
  have hsibling : t.depth = r.depth := by
    rcases List.mem_cons.mp ht with rfl | ht
    · rfl
    · rw [depth, above_of_mem_rowBack (mem_earlier_of_mem_outerAttributes ht), depth]
  rcases depth_of_mem_below hy with rfl | hlt <;> omega

def IsWrapper (f body y : Node) : Prop :=
  y = f ∨ y = body ∨ ∃ c ∈ f.properChildren, c ≠ body ∧ y ∈ c.below

end Node

namespace Pattern

variable {p : Pattern}

theorem wrapper_alone_iff {grammar : Grammar} {config : Config} {t : Text}
    (hp : compile grammar config t = .ok p) (hwrapped : p.wrapped = true) :
    ∃ f body, p.parsed.root.items.find? (·.kind == "function_item") = some f ∧
      f.childAt? "body" = some body ∧ p.roots = body.items ∧
      ((∀ c ∈ p.parsed.root.properChildren, c = f) ↔
        ∀ y ∈ p.parsed.root.preorder Label.isProper, y = p.parsed.root ∨ f.IsWrapper body y ∨
          ∃ r ∈ p.roots, y ∈ r.reach) := by
  obtain ⟨-, -, hne, -, -⟩ := compile_eq_ok_iff.mp hp
  obtain ⟨r, hr⟩ := List.exists_mem_of_ne_nil _ hne
  obtain ⟨body, hhost, -⟩ := exists_host_of_mem_roots hr
  obtain ⟨f, hf, hitem, -, hbody⟩ := exists_function_of_host hwrapped hhost
  have hroots : p.roots = body.items := by
    rw [roots_eq, hhost]
    rfl
  refine ⟨f, body, hf, hbody, hroots, fun halone y hy => ?_, fun hall c hc => ?_⟩
  · rw [Node.preorder_eq, List.mem_cons, List.mem_flatMap] at hy
    rcases hy with rfl | ⟨c, hc, hy⟩
    · exact .inl rfl
    · right
      rw [halone c hc, Node.preorder_eq, List.mem_cons, List.mem_flatMap] at hy
      rcases hy with rfl | ⟨d, hd, hy⟩
      · exact .inl (.inl rfl)
      · by_cases hdbody : d = body
        · subst hdbody
          rcases Node.item_or_attribute_of_visited hy with rfl | hreached
          · exact .inl (.inr (.inl rfl))
          · exact .inr (hroots ▸ hreached)
        · exact .inl (.inr (.inr ⟨d, hd, hdbody, Node.mem_below_of_mem_preorder hy⟩))
  · -- all but the function itself lies deeper than the items of the file
    have hdepth := Node.depth_of_mem_children (Node.mem_properChildren hc)
    have hfdepth := Node.depth_of_mem_children (Node.mem_properChildren (List.mem_of_mem_filter hitem))
    have hbdepth := Node.depth_of_mem_children (List.mem_of_find?_eq_some hbody)
    have hvisited := Node.child_mem_preorder (p.parsed.root.mem_preorder_self Label.isProper)
      (Node.mem_properChildren hc) (List.mem_filter.mp hc).2
    rcases hall c hvisited with rfl | (hcf | rfl | ⟨d, hd, -, hcd⟩) | ⟨r, hr, hreach⟩
    · omega
    · exact hcf
    · omega
    · have hddepth := Node.depth_of_mem_children (Node.mem_properChildren hd)
      rcases Node.depth_of_mem_below hcd with rfl | hlt <;> omega
    · rw [hroots] at hr
      have hrdepth := Node.depth_of_mem_children
        (Node.mem_properChildren (List.mem_of_mem_filter hr))
      have hle := Node.depth_of_mem_reach hreach
      omega

theorem wrapper_alone_iff_of_statements : ∃ p f body,
    compile statementsGrammar .default "a; b".toList = .ok p ∧ p.wrapped = true ∧
    p.parsed.root.items.find? (·.kind == "function_item") = some f ∧
    f.childAt? "body" = some body ∧ p.roots = body.items ∧
    ((∀ c ∈ p.parsed.root.properChildren, c = f) ↔
      ∀ y ∈ p.parsed.root.preorder Label.isProper, y = p.parsed.root ∨ f.IsWrapper body y ∨
        ∃ r ∈ p.roots, y ∈ r.reach) := by
  have h : ((compile statementsGrammar .default "a; b".toList).toOption.map (·.wrapped)) =
      some true := by
    decide +kernel
  obtain ⟨p, hp, hwrapped⟩ := Option.map_eq_some_iff.mp h
  have hp := ok_of_toOption hp
  obtain ⟨f, body, hf, hbody, hroots, halone⟩ := wrapper_alone_iff hp hwrapped
  exact ⟨p, f, body, hp, hwrapped, hf, hbody, hroots, halone⟩

/-- The trees of `a; } b; // c`, of the function around it, and of `a;`. The template closes the
function, and its comment takes in the brace that was to close it. -/
def closingGrammar : Grammar := fun t =>
  if t.head? = some 'f' then
    .named "source_file" none 0 t.bytes [wrapperTree 28 [nameStatement 24], nameStatement 29,
      .node ⟨"line_comment", true, true, false, false, 32, t.bytes, none⟩ [.token "//" 32 34]]
  else if t.bytes = 2 then .named "source_file" none 0 t.bytes [nameStatement 0]
  else faultyTree t

theorem wrapper_not_alone : ∃ p y m,
    compile closingGrammar .default "a; \x7d b; // c".toList = .ok p ∧ p.wrapped = true ∧
    y ∈ p.parsed.root.preorder Label.isProper ∧ y.text p.parsed.text = "b;".toList ∧
    (¬∃ r ∈ p.roots, y ∈ r.reach) ∧ p.findFirst? (.ofText closingGrammar "a;".toList) = some m := by
  have h : ((compile closingGrammar .default "a; \x7d b; // c".toList).toOption.bind fun p =>
      ((p.parsed.root.preorder Label.isProper).find?
        (·.text p.parsed.text == "b;".toList)).bind fun y =>
          (p.findFirst? (.ofText closingGrammar "a;".toList)).map fun _ =>
            p.wrapped && p.roots.all fun r =>
              r.reach.all (·.text p.parsed.text != "b;".toList)) = some true := by
    decide +kernel
  simp only [Option.bind_eq_some_iff, Option.map_eq_some_iff, Bool.and_eq_true, List.all_eq_true,
    bne_iff_ne] at h
  obtain ⟨p, hp, y, hy, m, hm, hwrapped, hrest⟩ := h
  have htext : y.text p.parsed.text = "b;".toList := by simpa using List.find?_some hy
  refine ⟨p, y, m, ok_of_toOption hp, hwrapped, List.mem_of_find?_eq_some hy, htext, ?_, hm⟩
  rintro ⟨r, hr, hreach⟩
  exact hrest r hr y hreach htext

end Pattern

end ShapeSearch
