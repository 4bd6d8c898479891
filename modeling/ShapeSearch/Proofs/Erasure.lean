import ShapeSearch.Proofs.Decorations

namespace ShapeSearch

def Match.rename (r : Renaming) (m : Match) : Match :=
  ⟨m.nodes, r.captures m.captures⟩

namespace Pattern

open Attempt

/-- The wildcards that a clause looks for. The members of a list of children are seen `again` when
what follows them asks for its attributes; that second look is not counted. -/
def clauseLooks (look : Bool → Node → List Node) (again : Bool) (a : Node) (c : Clause) :
    List Node :=
  if again && c == .attributes then []
  else (c.compared a).flatMap (look (c == .childrenInOrder))

/-- The wildcards that a comparison looks for, each as often as it looks. -/
def looks (p : Pattern) : Nat → Bool → Node → List Node
  | 0, _, a => if (p.wildcard? a).isSome then [a] else []
  | room + 1, again, a =>
    if (p.wildcard? a).isSome then [a]
    else (strategy a a).flatMap (clauseLooks (looks p room) again a)

variable {r : Renaming} {p p' : Pattern} {s : Source} {a b : Node} {t : Captures} {room : Nat}
  {again : Bool}

theorem looks_of_wildcard {w : Wildcard} (h : p.wildcard? a = some w) (room : Nat) (again : Bool) :
    p.looks room again a = [a] := by
  cases room <;> simp [looks, h]

theorem looks_succ (h : p.wildcard? a = none) (room : Nat) (again : Bool) :
    p.looks (room + 1) again a = (strategy a a).flatMap (clauseLooks (p.looks room) again a) := by
  simp [looks, h]

theorem ApartBelow.opened (h : p.ApartBelow s a) (hw : p.wildcard? a = none) {c : Clause}
    (hc : c ∈ strategy a a) {x : Node} (hx : x ∈ c.opened a) : p.ApartBelow s x :=
  fun level y hy => h (level + 1) y (mem_structuralAt_succ_iff.mpr ⟨hw, c, hc, x, hx, hy⟩)

theorem ParametersApart.below (h : p.ParametersApart s) {x : Node} (hx : x ∈ p.roots) :
    p.ApartBelow s x := fun level y hy =>
  h y (mem_structuralNodes_iff.mpr ⟨level, List.mem_flatMap.mpr ⟨x, hx, hy⟩⟩)

/-- From here on, a second look at the attributes of a node finds the same under both names. -/
def SecondLook (r : Renaming) (p p' : Pattern) (source : Text) (a b : Node) (t : Captures) :
    Nat → Prop
  | 0 => True
  | room + 1 => .attributes ∈ strategy a a → ∀ u, t <+: u →
      Echoes r [] u (p.ask source (p.compare source room) a b .attributes)
        (p'.ask source (p'.compare source room) a b .attributes)

/-- Comparisons with this room echo each other. -/
def ComparesWith (r : Renaming) (p p' : Pattern) (s : Source) (room : Nat) : Prop :=
  ∀ ⦃again a b t⦄, a ∈ p.parsed.nodes → b ∈ s.nodes → p.ApartBelow s a →
    r.Once (p.names (p.looks room again a)) →
    (again = true → p.wildcard? a = none → SecondLook r p p' s.text a b t room) →
    Echoes r (p.names (p.looks room again a)) t (p.compare s.text room a b)
      (p'.compare s.text room a b)

section Compare

variable (h : Renamed r p p') (hplain : p.AttributesPlain) (hnamed : s.AttributesNamed)

include h hplain hnamed

theorem childrenInOrder_echoes (ih : ComparesWith r p p' s room) (ha : a ∈ p.parsed.nodes)
    (hb : b ∈ s.nodes) (hapart : p.ApartBelow s a) (hw : p.wildcard? a = none)
    (hc : .childrenInOrder ∈ strategy a a)
    (honce : r.Once (p.names (a.significantChildren.flatMap (p.looks room true)))) :
    Echoes r (p.names (a.significantChildren.flatMap (p.looks room true))) t
      (p.ask s.text (p.compare s.text room) a b .childrenInOrder)
      (p'.ask s.text (p'.compare s.text room) a b .childrenInOrder) := by
  refine matchInOrder_echoes h singleton_of_node? (fun x w hx => looks_of_wildcard hx room true)
    (List.flatMap_singleton' _) honce (p.compare_grows s.text room) ?_ b
  intro hist x es y ys u hpassed
  obtain ⟨hx, hy⟩ := mem_of_passed hpassed
  have hbelow := hapart.opened hw hc hx
  rw [List.flatMap_singleton]
  refine ih (p.parsed.nodes_closed.stable a x ha .childrenInOrder hx)
    (s.nodes_closed.stable b y hb .childrenInOrder hy) hbelow
    (honce.of_sublist ((sublist_flatMap_of_mem hx _).flatMap _)) fun _ hwx => ?_
  cases room with
  | zero => trivial
  | succ room =>
      intro hattributes v huv
      have hbelow' (z : Node) (hz : z ∈ x.outerAttributes) : p.ApartBelow s z :=
        hbelow.opened hwx hattributes hz
      exact attributes_echo h hplain hnamed ha hc hattributes hb hbelow' hpassed huv

theorem clause_echoes (ih : ComparesWith r p p' s room) (ha : a ∈ p.parsed.nodes)
    (hb : b ∈ s.nodes) (hapart : p.ApartBelow s a) (hw : p.wildcard? a = none)
    (hagain : again = true → SecondLook r p p' s.text a b t (room + 1)) {c : Clause}
    (hc : c ∈ strategy a a) (honce : r.Once (p.names (clauseLooks (p.looks room) again a c)))
    {u : Captures} (htu : t <+: u) :
    Echoes r (p.names (clauseLooks (p.looks room) again a c)) u
      (p.ask s.text (p.compare s.text room) a b c)
      (p'.ask s.text (p'.compare s.text room) a b c) := by
  by_cases hlook : (again && c == .attributes) = true
  · obtain ⟨hagain', hattributes⟩ := Bool.and_eq_true_iff.mp hlook
    obtain rfl := eq_of_beq hattributes
    rw [clauseLooks, if_pos hlook]
    exact hagain hagain' hc u htu
  · rw [clauseLooks, if_neg hlook] at honce ⊢
    by_cases hchildren : c = .childrenInOrder
    · subst hchildren
      exact childrenInOrder_echoes h hplain hnamed ih ha hb hapart hw hc honce
    · rw [beq_eq_false_iff_ne.mpr hchildren] at honce ⊢
      refine ask_echoes h (fun x w hx => looks_of_wildcard hx room false)
        (p.compare_grows s.text room) hchildren honce fun x hx y hy v => ?_
      have hx' := (Clause.compared_of_opened hx).1
      exact ih (p.parsed.nodes_closed.stable a x ha c hx') (s.nodes_closed.stable b y hb c hy)
        (hapart.opened hw hc hx) (honce.of_sublist ((sublist_flatMap_of_mem hx' _).flatMap _))
        fun hagain => absurd hagain Bool.false_ne_true

theorem compare_echoes (room : Nat) :
    ComparesWith r p p' s room := by
  induction room with
  | zero =>
      intro again a b t ha hb hapart honce hagain
      cases hw : p.wildcard? a with
      | none =>
          simp only [compare, h.wildcard, hw]
          exact .test r _ t false
      | some w =>
          simp only [compare, h.wildcard, hw, looks_of_wildcard hw, names_of_wildcard hw]
          exact w.bindOne_echoes 0 b
  | succ room ih =>
      intro again a b t ha hb hapart honce hagain
      cases hw : p.wildcard? a with
      | some w =>
          simp only [compare, h.wildcard, hw, looks_of_wildcard hw, names_of_wildcard hw]
          exact w.bindOne_echoes 0 b
      | none =>
          rw [looks_succ hw, names_flatMap] at honce ⊢
          simp only [compare, h.wildcard, hw, Option.map_none]
          rcases strategy_self a b with hs | hs
          · rw [hs]
            refine .all (S := (t <+: ·)) List.prefix_rfl ?_ honce (List.forall₂_same.mpr ?_)
            · intro c hc u v htu hask
              have hgrows : Grows (p.ask s.text (p.compare s.text room) a b c) :=
                ask_grows (hs ▸ hc)
              have hnext := hgrows u
              rw [hask] at hnext
              exact htu.trans hnext
            · intro c hc u htu
              have hsub := sublist_flatMap_of_mem hc fun c =>
                p.names (clauseLooks (p.looks room) again a c)
              exact clause_echoes h hplain hnamed ih ha hb hapart hw (fun hx => hagain hx hw) hc
                (honce.of_sublist hsub) htu
          · -- both clauses look at kinds and texts only, which the two patterns share
            rw [hs]
            simp only [List.map_cons, List.map_nil, ask, h.parsed]
            have hnone (n : Text) (hn : n ∈ []) : r.Erases n → n ∉ [] :=
              absurd hn List.not_mem_nil
            exact .mono (.andThen (.test r [] t _) (fun u _ _ => .andThen (.test r [] u _)
              (fun v _ _ => .test r [] v true) hnone) hnone) (List.nil_subset _)

end Compare

theorem follow_echoes {cmp cmp' : Node → Node → Attempt Captures} {names : Node → List Text}
    {roots : List Node} {next : Option Node} {t : Captures} {S : Node → Prop}
    (hcmp : ∀ x ∈ roots, ∀ y, S y → ∀ u, Echoes r (names x) u (cmp x y) (cmp' x y))
    (honce : r.Once (roots.flatMap names))
    (hfresh : ∀ n ∈ roots.flatMap names, r.Erases n → t.lookup n = none)
    (hnext : ∀ y, next = some y → S y) (hstep : ∀ x y, S x → x.nextItem? = some y → S y) :
    follow cmp' roots next (r.captures t) = (follow cmp roots next t).map (Match.rename r) := by
  induction roots generalizing next t with
  | nil => rfl
  | cons x roots ih =>
      cases next with
      | none => rfl
      | some y =>
          have hy := hnext y rfl
          rw [List.flatMap_cons] at honce hfresh
          obtain ⟨hresult, hsuccess⟩ := hcmp x List.mem_cons_self y hy t fun n hn =>
            hfresh n (List.mem_append_left _ hn)
          rw [follow_cons, follow_cons, hresult]
          split
          next hc =>
            obtain ⟨hcaptures, hframe⟩ := hsuccess hc
            have hfresh' (n : Text) (hn : n ∈ roots.flatMap names) (herased : r.Erases n) :
                (cmp x y t).2.lookup n = none := by
              rw [hframe n (honce.apart n hn herased) herased]
              exact hfresh n (List.mem_append_right _ hn) herased
            rw [hcaptures, ih (fun z hz => hcmp z (List.mem_cons_of_mem x hz)) honce.right hfresh'
              fun z hz => hstep y z hy hz, Option.map_map, Option.map_map]
            rfl
          next => rfl

/-- A match under other names has the same nodes, and binds what the match under the old names
binds. -/
theorem Renamed.matchAt? (h : Renamed r p p') (hplain : p.AttributesPlain)
    (hnamed : s.AttributesNamed) (hapart : p.ParametersApart s)
    (honce : r.Once (p.names (p.roots.flatMap (p.looks p.config.maxDepth false)))) {n : Node}
    (hn : n ∈ s.nodes) :
    p'.matchAt? s.text n = (p.matchAt? s.text n).map (Match.rename r) := by
  simp only [Pattern.matchAt?, h.config, h.roots]
  split
  · rfl
  · rw [names_flatMap] at honce
    refine follow_echoes (S := (· ∈ s.nodes)) (t := []) ?_ honce (fun _ _ _ => rfl) ?_ ?_
    · intro x hx y hy u
      have hsub := sublist_flatMap_of_mem hx fun x => p.names (p.looks p.config.maxDepth false x)
      exact compare_echoes h hplain hnamed p.config.maxDepth (p.roots_subset x hx) hy
        (hapart.below hx) (honce.of_sublist hsub) fun hagain => absurd hagain Bool.false_ne_true
    · rintro y ⟨⟩
      exact hn
    · exact fun x y hx => Node.nextItem_below rfl hx

end Pattern

end ShapeSearch
