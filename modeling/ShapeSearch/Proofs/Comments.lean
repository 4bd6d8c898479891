import ShapeSearch.CommandLine.Options
import ShapeSearch.Proofs.Extras
import ShapeSearch.Proofs.Faults
import ShapeSearch.Proofs.MatchedNodes

namespace ShapeSearch

namespace Tree

mutual

theorem hasFault_withoutExtras : ∀ t : Tree, t.hasFault = false → t.withoutExtras.hasFault = false
  | node l ts, h => by
    simp only [hasFault, Bool.or_eq_false_iff] at h
    simp only [withoutExtras, hasFault, h.1, anyHasFault_withoutExtras ts h.2, Bool.or_self]

theorem anyHasFault_withoutExtras :
    ∀ ts : List Tree, anyHasFault ts = false → anyHasFault (withoutExtrasAll ts) = false
  | [], _ => rfl
  | t :: ts, h => by
    simp only [anyHasFault, Bool.or_eq_false_iff] at h
    simp only [withoutExtrasAll]
    split
    · exact anyHasFault_withoutExtras ts h.2
    · simp only [anyHasFault, hasFault_withoutExtras t h.1, anyHasFault_withoutExtras ts h.2,
        Bool.or_self]

end

end Tree

theorem Record.ofMatch_map {f : Node → Node} (hf : Node.Face f) (path source : Text) (m : Match) :
    ofMatch path source (m.map f) = ofMatch path source m := by
  have hstart : (m.map f).start = m.start := by
    simp only [Match.start, Match.map, List.head?_map, Option.map_map, Function.comp_def, hf.start]
  have hstop : (m.map f).stop = m.stop := by
    simp only [Match.stop, Match.map, List.getLast?_map, Option.map_map, Function.comp_def, hf.stop]
  simp only [ofMatch, Match.text, hstart, hstop]
  rfl

namespace Pattern

variable {p : Pattern} {s : Source}

/-- A match in a source without its extras is the match in the source. -/
theorem matchAt?_withoutExtras (p : Pattern) (hs : s.ExtrasAreComments) {n : Node} (hn : n ∈ s.nodes) :
    p.matchAt? s.text n.withoutExtras = (p.matchAt? s.text n).map (Match.map Node.withoutExtras) := by
  have hroots : p.roots = p.roots.map id := (List.map_id _).symm
  refine matchAt?_map (T := s.Significant) Node.face_withoutExtras hroots rfl (fun r _ b hb => ?_)
    (fun b hb => Node.nextItem?_withoutExtras hb.2) (fun b c hb hc => ?_) fun hextra => ⟨hn, hextra⟩
  · exact compare_map (S := fun _ => True) (f := id) rfl (fun _ => rfl) .id
      Node.face_withoutExtras (fun _ _ _ _ _ => trivial) hs.stable (fun a _ => .id a)
      (fun b hb => hs.kept hb) trivial hb s.text p.config.maxDepth
  · exact ⟨Node.nextItem_below rfl hb.1 hc, Node.extra_of_isProper (Node.isProper_of_nextItem hc).1⟩

theorem allMatches_withoutExtras (p : Pattern) (hs : s.ExtrasAreComments) :
    p.allMatches s.withoutExtras = (p.allMatches s).map (Match.map Node.withoutExtras) := by
  rw [allMatches, Source.root_withoutExtras, Node.preorder_withoutExtras, List.filterMap_map,
    allMatches, List.map_filterMap]
  apply List.filterMap_congr
  intro n hn
  exact matchAt?_withoutExtras p hs (Node.mem_below_of_mem_preorder hn)

theorem findAll_withoutExtras (p : Pattern) (hs : s.ExtrasAreComments) :
    p.findAll s.withoutExtras = (p.findAll s).map (Match.map Node.withoutExtras) := by
  rw [findAll_eq_take, findAll_eq_take, allMatches_withoutExtras p hs, List.map_take]

/-- A pattern with the extras deleted from its own tree. -/
def withoutExtras (p : Pattern) : Pattern :=
  { p with parsed := p.parsed.withoutExtras }

theorem topLevel_withoutExtras (hs : s.ExtrasAreComments) (wrapped : Bool) :
    topLevel s.withoutExtras wrapped = (topLevel s wrapped).map Node.withoutExtras := by
  simp only [topLevel, Source.root_withoutExtras, Node.items_withoutExtras]
  split
  · have hfind : (s.root.items.map Node.withoutExtras).find? (·.kind == "function_item") =
        (s.root.items.find? (·.kind == "function_item")).map Node.withoutExtras := by
      rw [List.find?_map]
      simp only [Function.comp_def, Node.face_withoutExtras.kind]
    rw [hfind]
    cases hf : s.root.items.find? (·.kind == "function_item") with
    | none => rfl
    | some f =>
        have hitem : f ∈ s.root.items := List.mem_of_find?_eq_some hf
        have hnode : f ∈ s.nodes := Node.children_below s.root_mem_nodes
          (Node.mem_properChildren (List.mem_of_mem_filter hitem))
        simp only [Option.map_some, Option.bind_some,
          Node.childAt?_withoutExtras (hs.commentsOnly hnode)]
        cases f.childAt? "body" with
        | none => rfl
        | some body => exact body.items_withoutExtras
  · rfl

theorem roots_withoutExtras (hp : p.parsed.ExtrasAreComments) :
    p.withoutExtras.roots = p.roots.map Node.withoutExtras :=
  topLevel_withoutExtras hp p.wrapped

theorem wildcard?_withoutExtras (p : Pattern) (x : Node) :
    p.withoutExtras.wildcard? x.withoutExtras = p.wildcard? x := by
  simp only [wildcard?, Node.face_withoutExtras.text, Node.face_withoutExtras.isGenericParameter]
  rfl

theorem matchAt?_of_withoutExtras (hp : p.parsed.ExtrasAreComments) (source : Text) (n : Node) :
    p.withoutExtras.matchAt? source n = p.matchAt? source n := by
  have hcompare : ∀ r ∈ p.roots, ∀ b, True →
      p.withoutExtras.compare source p.config.maxDepth r.withoutExtras (id b) =
        p.compare source p.config.maxDepth r b := by
    intro r hr b _
    have hroot : p.parsed.Significant r :=
      ⟨p.roots_subset r hr, Node.extra_of_isProper (isProper_of_mem_roots hr)⟩
    have htext : p.withoutExtras.parsed.text = p.parsed.text := rfl
    exact compare_map (g := id) (T := fun _ => True) htext p.wildcard?_withoutExtras
      Node.face_withoutExtras .id hp.stable (fun _ _ _ _ _ => trivial) (fun a ha => hp.kept ha)
      (fun b _ => .id b) hroot trivial source _
  have hmap := matchAt?_map (n := n) .id (roots_withoutExtras hp) rfl hcompare
    (fun b _ => by simp) (fun _ _ _ _ => trivial) fun _ => trivial
  simpa [funext Match.map_id'] using hmap

theorem findAll_of_withoutExtras (hp : p.parsed.ExtrasAreComments) (s : Source) :
    p.withoutExtras.findAll s = p.findAll s := by
  rw [findAll_eq_take, findAll_eq_take, allMatches, allMatches,
    funext (matchAt?_of_withoutExtras hp s.text)]
  rfl

end Pattern

/-- A grammar that gives one text another tree. -/
def Grammar.revised (grammar : Grammar) (text : Text) (tree : Tree) : Grammar :=
  fun t => if t = text then tree else grammar t

namespace Pattern

theorem compile_withoutExtras {p : Pattern} {grammar : Grammar} {config : Config} {t : Text}
    (h : compile grammar config t = .ok p) (hp : p.parsed.ExtrasAreComments) :
    compile (grammar.revised p.parsed.text p.parsed.tree.withoutExtras) config t =
      .ok p.withoutExtras := by
  obtain ⟨hread, hparse, hroots, hwritten, hconfig⟩ := compile_eq_ok_iff.mp h
  refine compile_eq_ok_iff.mpr ⟨hread, ?_, ?_, hwritten, hconfig⟩
  · have hself : Source.ofText (grammar.revised p.parsed.text p.parsed.tree.withoutExtras)
        p.parsed.text = p.parsed.withoutExtras := by
      simp only [Source.ofText, Grammar.revised, if_true]
      rfl
    have htemplate : p.withoutExtras.template = p.template := rfl
    have hparsed : p.withoutExtras.parsed = p.parsed.withoutExtras := rfl
    rw [htemplate, hparsed, parse_eq_ok_iff]
    rcases parse_eq_ok_iff.mp hparse with ⟨hw, hs, hfault⟩ | ⟨hw, hplain, hs, hfaults⟩
    · have htext : p.parsed.text = p.template.normalised := congrArg Source.text hs
      refine .inl ⟨hw, ?_, Tree.hasFault_withoutExtras _ hfault⟩
      rw [← htext]
      exact hself.symm
    · have htext : p.parsed.text = wrap p.template.normalised := congrArg Source.text hs
      have hne : p.template.normalised ≠ p.parsed.text := by
        rw [htext]
        exact (wrap_ne _).symm
      refine .inr ⟨hw, ?_, ?_, ?_⟩
      · simpa only [Grammar.revised, if_neg hne] using hplain
      · rw [← htext]
        exact hself.symm
      · rw [Source.faults, List.map_eq_nil_iff, Tree.faultyLabels_eq_nil_iff] at hfaults ⊢
        exact Tree.hasFault_withoutExtras _ hfaults
  · rw [roots_withoutExtras hp]
    simpa using hroots

/-- Comments play no part in a search, neither in the source nor in the pattern. Without them, the
same nodes match and the same is captured and reported. -/
theorem comments_take_no_part (p : Pattern) :
    (∀ s : Source, s.ExtrasAreComments →
      p.findAll s.withoutExtras = (p.findAll s).map (Match.map Node.withoutExtras) ∧
      ∀ path, (p.findAll s.withoutExtras).map (Record.ofMatch path s.text) =
        (p.findAll s).map (Record.ofMatch path s.text)) ∧
    (p.parsed.ExtrasAreComments → (∀ s, p.withoutExtras.findAll s = p.findAll s) ∧
      ∀ grammar config t, compile grammar config t = .ok p →
        compile (grammar.revised p.parsed.text p.parsed.tree.withoutExtras) config t =
          .ok p.withoutExtras) := by
  refine ⟨fun s hs => ⟨findAll_withoutExtras p hs, fun path => ?_⟩,
    fun hp => ⟨findAll_of_withoutExtras hp, fun _ _ _ h => compile_withoutExtras h hp⟩⟩
  rw [findAll_withoutExtras p hs, List.map_map]
  exact List.map_congr_left fun m _ => Record.ofMatch_map Node.face_withoutExtras path s.text m

/-- The tree of `f(/**/x);`, where the argument `x` ends at a byte. -/
def commentedCall (last : Nat) : Tree :=
  .named "source_file" none 0 (last + 2) [.named "expression_statement" none 0 (last + 2) [
    .named "call_expression" none 0 (last + 1) [.named "identifier" (some "function") 0 1 [],
      .named "arguments" (some "arguments") 1 (last + 1) [.token "(" 1 2,
        .comment 2 6, .named "identifier" none 6 last [], .token ")" last (last + 1)]],
    .token ";" (last + 1) (last + 2)]]

def callGrammar : Grammar := fun t => commentedCall (t.bytes - 2)

def commentedSource : Source := .ofText callGrammar "f(/**/b);".toList

theorem comments_take_no_part_in_call : ∃ p m,
    compile callGrammar .default "f(/**/'_x);".toList = .ok p ∧
      commentedSource.ExtrasAreComments ∧ (∃ n ∈ commentedSource.nodes, n.label.extra = true) ∧
      p.parsed.ExtrasAreComments ∧ (∃ n ∈ p.parsed.nodes, n.label.extra = true) ∧
      p.findAll commentedSource = [m] ∧
      p.findAll commentedSource.withoutExtras = [m.map Node.withoutExtras] ∧
      p.withoutExtras.findAll commentedSource = [m] ∧
      compile (callGrammar.revised p.parsed.text p.parsed.tree.withoutExtras) .default
        "f(/**/'_x);".toList = .ok p.withoutExtras := by
  have h : ((compile callGrammar .default "f(/**/'_x);".toList).toOption.map fun p =>
      decide commentedSource.ExtrasAreComments && commentedSource.nodes.any (·.label.extra) &&
        decide p.parsed.ExtrasAreComments && p.parsed.nodes.any (·.label.extra) &&
        (p.allMatches commentedSource).length == 1) = some true := by
    decide +kernel
  simp only [Option.map_eq_some_iff, Bool.and_eq_true, decide_eq_true_eq, List.any_eq_true,
    beq_iff_eq] at h
  obtain ⟨p, hp, ⟨⟨⟨hs, hextra⟩, hparsed⟩, hextra'⟩, hone⟩ := h
  have hp := ok_of_toOption hp
  obtain ⟨m, hm⟩ := List.length_eq_one_iff.mp hone
  have hfind : p.findAll commentedSource = [m] := by
    rw [findAll_eq_take, hm, config_of_compile hp]
    rfl
  obtain ⟨hsource, hpattern⟩ := comments_take_no_part p
  refine ⟨p, m, hp, hs, hextra, hparsed, hextra', hfind, ?_, ?_, ?_⟩
  · rw [(hsource commentedSource hs).1, hfind]
    rfl
  · rw [(hpattern hparsed).1, hfind]
  · exact (hpattern hparsed).2 callGrammar .default _ hp

end Pattern

end ShapeSearch
