import ShapeSearch.Proofs.Compilation
import ShapeSearch.Proofs.Gaps
import ShapeSearch.Proofs.MatchedNodes

namespace ShapeSearch

open Attempt

theorem Captures.bind_adds {e : Captures} {Q : Text × Binding → Prop} {name : Text} {b : Binding}
    (h : name ≠ [] → Q (name, b)) : Adds e Q (bind name b) := by
  intro s t hst _ x hx
  simp only [bind] at hst
  split at hst
  · cases hst
    exact .inl hx
  next hname =>
    split at hst
    · cases hst
      rcases List.mem_append.mp hx with hx | hx
      · exact .inl hx
      · exact .inr (List.mem_singleton.mp hx ▸ h (by simpa using hname))
    · obtain rfl : s = t := congrArg Prod.snd hst
      exact .inl hx

namespace Wildcard

variable {w : Wildcard} {source : Text} {e : Captures} {Q : Text × Binding → Prop}

theorem bindOne_adds {skipped : Nat} {n : Node}
    (h : w.quantifier.max ≠ 0 → ∀ t, (n.text source).drop? skipped = some t →
      w.ofVariable.accepts t = true → w.ofVariable.name ≠ [] →
        Q (w.ofVariable.name, .single ⟨n.label, t⟩)) :
    Adds e Q (w.bindOne source skipped n) := by
  rw [bindOne]
  split
  next hc =>
    rw [Bool.and_eq_true, accepts_iff] at hc
    obtain ⟨hmax, -, t, ht, haccepts⟩ := hc
    rw [ht, Option.getD_some]
    exact Captures.bind_adds (h (by simpa using hmax) t ht haccepts)
  next => exact .test false

theorem bindRun_adds {ns : List Node} {offset : Nat}
    (h : w.quantifier.admits ns.length = true →
      (∀ n ∈ ns, w.ofVariable.accepts (n.text source) = true) → w.ofVariable.name ≠ [] →
        Q (w.ofVariable.name, .ofLabels source offset (ns.map (·.label)))) :
    Adds e Q (w.bindRun source ns offset) := by
  rw [bindRun]
  split
  next hc =>
    rw [Bool.and_eq_true, List.all_eq_true] at hc
    refine Captures.bind_adds (h hc.1 fun n hn => ?_)
    obtain ⟨-, t, ht, haccepts⟩ := accepts_iff.mp (hc.2 n hn)
    rw [Text.drop?, Option.some.injEq] at ht
    exact ht ▸ haccepts
  next => exact .test false

end Wildcard

namespace Pattern

open Node

variable {p : Pattern} {source : Text} {e : Captures} {T : Node → Prop}

/-- The text that a wildcard takes from a node: all of it where the two are compared, and what
follows the quote where the wildcard is the name of a lifetime or label that is compared with it. -/
inductive Reads (p : Pattern) (source : Text) (v : Variable) (y : Node) : Text → Prop
  | whole {x : Node} {w : Wildcard} (hx : p.ComesTo x) (hw : p.wildcard? x = some w)
      (hv : w.ofVariable = v) : Reads p source v y (y.text source)
  | behindQuote {a x : Node} {w : Wildcard} {t : Text} (ha : p.ComesTo a)
      (hquoted : a.isQuoted = true) (hkind : y.kind = a.kind)
      (hx : a.childOfKind? "identifier" = some x) (hw : p.wildcard? x = some w)
      (hv : w.ofVariable = v) (ht : (y.text source).drop? 1 = some t) : Reads p source v y t

structure WellBoundOne (p : Pattern) (source : Text) (T : Node → Prop) (v : Variable)
    (f : Fragment) : Prop where
  possible : 1 ≤ v.quantifier.max
  accepted : v.accepts f.text = true
  taken : ∃ y, T y ∧ f.label = y.label ∧ p.Reads source v y f.text

/-- A place at which the variable `v` stands for no nodes: one of its wildcards is in a list of a
node of the pattern, at a gap in the list of a node in `T` that fits it. -/
structure GapAt (p : Pattern) (source : Text) (e : Captures) (T : Node → Prop) (v : Variable)
    (offset : Nat) (a b : Node) (c : Clause) : Prop where
  compared : p.ComesTo a
  reached : T b
  structural : p.wildcard? a = none
  fits : p.Fits source e a b
  asked : c ∈ strategy a b
  gap : p.Gap source e (p.Fits source e) a b v offset c

structure WellBoundRun (p : Pattern) (source : Text) (e : Captures) (T : Node → Prop) (v : Variable)
    (fs : List Fragment) (start stop : Nat) (t : Text) : Prop where
  admitted : v.quantifier.admits fs.length = true
  ordered : fs.Pairwise fun f g => f.label.start ≤ g.label.start
  taken : ∀ f ∈ fs, f.text = f.label.text source ∧ v.accepts f.text = true ∧
    ∃ y, T y ∧ f.label = y.label
  text : t = source.slice start stop
  first : ∀ f, fs.head? = some f → start = f.label.start
  last : ∀ f, fs.getLast? = some f → stop = f.label.stop
  empty : fs = [] → start = stop ∧ ∃ a b c, p.GapAt source e T v start a b c

/-- What a variable may be bound to among the captures `e`, where the nodes of a match reach the
nodes in `T`. -/
def WellBound (p : Pattern) (source : Text) (e : Captures) (T : Node → Prop) (v : Variable) :
    Binding → Prop
  | .single f => p.WellBoundOne source T v f
  | .multiple fs start stop t => p.WellBoundRun source e T v fs start stop t

theorem wellBound_ofLabels {v : Variable} {ns : List Node} {offset : Nat}
    (hadmits : v.quantifier.admits ns.length = true) (hns : ∀ n ∈ ns, T n)
    (haccepts : ∀ n ∈ ns, v.accepts (n.text source) = true)
    (hoffset : ns = [] → ∃ a b c, p.GapAt source e T v offset a b c) :
    p.WellBound source e T v (.ofLabels source offset (ns.map (·.label))) := by
  have hperm := List.mergeSort_perm (ns.map (·.label)) fun a b => a.start ≤ b.start
  have hordered : ((ns.map (·.label)).mergeSort fun a b => a.start ≤ b.start).Pairwise
      fun a b => decide (a.start ≤ b.start) = true :=
    List.pairwise_mergeSort (fun _ _ _ => by simpa using Nat.le_trans)
      (fun _ _ => by simpa using Nat.le_total _ _) _
  simp only [WellBound, Binding.ofLabels]
  generalize (ns.map (·.label)).mergeSort (fun a b => a.start ≤ b.start) = sorted at hperm hordered
  have hlength : sorted.length = ns.length := by rw [hperm.length_eq, List.length_map]
  refine ⟨by rwa [List.length_map, hlength], ?_, ?_, rfl, ?_, ?_, ?_⟩
  · rw [List.pairwise_map]
    exact hordered.imp fun h => by simpa using h
  · intro f hf
    obtain ⟨l, hl, rfl⟩ := List.mem_map.mp hf
    obtain ⟨n, hn, rfl⟩ := List.mem_map.mp (hperm.subset hl)
    exact ⟨rfl, haccepts n hn, n, hns n hn, rfl⟩
  · intro f hf
    rw [List.head?_map, Option.map_eq_some_iff] at hf
    obtain ⟨l, hl, rfl⟩ := hf
    rw [hl]
    rfl
  · intro f hf
    rw [List.getLast?_map, Option.map_eq_some_iff] at hf
    obtain ⟨l, hl, rfl⟩ := hf
    rw [hl]
    rfl
  · intro hnil
    obtain rfl : sorted = [] := List.map_eq_nil_iff.mp hnil
    exact ⟨rfl, hoffset (List.length_eq_zero_iff.mp hlength.symm)⟩

/-- An entry of the captures `e` of a match whose nodes reach the nodes in `T`. -/
def CapturedFrom (p : Pattern) (source : Text) (e : Captures) (T : Node → Prop)
    (x : Text × Binding) : Prop :=
  ∃ v, p.template.named? x.1 = some v ∧ p.WellBound source e T v x.2

theorem mem_declared_of_wildcard? {x : Node} {w : Wildcard} (h : p.wildcard? x = some w) :
    w.ofVariable ∈ p.template.declared := by
  obtain ⟨v, hv, rfl⟩ := Option.map_eq_some_iff.mp h
  obtain ⟨i, -, hi⟩ := Option.bind_eq_some_iff.mp hv
  exact List.mem_of_getElem? hi

theorem kind_of_quotedName {room : Nat} {a b : Node} (hw : p.wildcard? a = none)
    (h : (p.compare source (room + 1) a b).Accepts e) (hc : .quotedName ∈ strategy a b) :
    a.isQuoted = true ∧ b.kind = a.kind := by
  obtain ⟨hquoted, hs⟩ := strategy_of_quotedName_mem hc
  have hkind : .kindAmong [a.kind] ∈ strategy a b := hs ▸ List.mem_cons_self
  have htest := ask_sound (p.compare_grows source room) (accepts_ask hw h hkind)
  exact ⟨hquoted, List.mem_singleton.mp htest⟩

theorem compare_wildcard_adds (hp : p.template.Distinct) {room : Nat} {a b : Node} {w : Wildcard}
    (ha : p.ComesTo a) (hb : T b) (hw : p.wildcard? a = some w) :
    Adds e (p.CapturedFrom source e T) (p.compare source room a b) := by
  rw [compare_of_wildcard hw]
  apply Wildcard.bindOne_adds
  intro hmax t ht haccepts hname
  refine ⟨_, hp.named? (mem_declared_of_wildcard? hw) hname, ?_⟩
  rw [Text.drop?, Option.some.injEq] at ht
  subst ht
  exact ⟨Nat.one_le_iff_ne_zero.mpr hmax, haccepts, b, hb, rfl, .whole ha hw rfl⟩

theorem compare_adds (hp : p.template.Distinct) (hT : Stable T) {room : Nat} {a b : Node}
    (ha : p.ComesTo a) (hb : T b) :
    Adds e (p.CapturedFrom source e T) (p.compare source room a b) := by
  induction room generalizing a b with
  | zero =>
      cases hw : p.wildcard? a with
      | some w => exact compare_wildcard_adds hp ha hb hw
      | none =>
          simp only [compare, hw]
          exact .test false
  | succ room ih =>
      cases hw : p.wildcard? a with
      | some w => exact compare_wildcard_adds hp ha hb hw
      | none =>
          -- a gap is one of the whole comparison, which has to succeed first
          apply Adds.of_accepts
          intro haccepts
          simp only [compare, hw]
          apply Adds.all
          · intro x hx
            obtain ⟨c, hc, rfl⟩ := List.mem_map.mp hx
            exact ask_grows hc
          intro x hx
          obtain ⟨c, hc, rfl⟩ := List.mem_map.mp hx
          have hcomes {x : Node} (hx : x ∈ c.opened a) : p.ComesTo x :=
            .step ha hw (mem_strategy_self hc (Clause.compared_of_opened hx).1) hx
          have hbelow : ∀ y ∈ c.compared b, T y := fun y hy => hT b y hb c hy
          refine ask_adds (p.compare_grows source room) hb hbelow
            (fun x hx y hy => ih (hcomes hx) (hbelow y hy)) ?_ ?_
          · intro x hx w hwx ns hns offset hgap
            apply Wildcard.bindRun_adds
            intro hadmits hall hname
            refine ⟨_, hp.named? (mem_declared_of_wildcard? hwx) hname, ?_⟩
            apply wellBound_ofLabels hadmits hns hall
            intro hnil
            refine ⟨a, b, c, ha, hb, hw, compare_sound haccepts, hc, ?_⟩
            exact (hgap hnil).mono fun x y => compare_sound
          · rintro rfl x hx w hwx
            obtain ⟨hquoted, hkind⟩ := kind_of_quotedName hw haccepts hc
            apply Wildcard.bindOne_adds
            intro hmax t ht hall hname
            refine ⟨_, hp.named? (mem_declared_of_wildcard? hwx) hname, ?_⟩
            exact ⟨Nat.one_le_iff_ne_zero.mpr hmax, hall, b, hb, rfl,
              .behindQuote ha hquoted hkind hx hwx rfl ht⟩

theorem follow_adds {cmp : Node → Node → Attempt Captures} {Q : Text × Binding → Prop}
    (hgrows : ∀ x y, Grows (cmp x y)) {roots : List Node} {next : Option Node} {s : Captures}
    {m : Match} (h : follow cmp roots next s = some m)
    (hcmp : ∀ r ∈ roots, ∀ n ∈ m.nodes, Adds m.captures Q (cmp r n)) :
    ∀ x ∈ m.captures, x ∈ s ∨ Q x := by
  induction roots generalizing next s m with
  | nil =>
      rw [follow, Option.some.injEq] at h
      subst h
      exact fun x => .inl
  | cons r roots ih =>
      cases next with
      | none => cases h
      | some n =>
          obtain ⟨hc, rest, hrest, rfl⟩ := follow_cons_eq_some.mp h
          have hfirst := hcmp r List.mem_cons_self n List.mem_cons_self s _ (Prod.ext hc rfl)
            (follow_sound hgrows hrest).1
          intro x hx
          rcases ih hrest (fun r hr y hy =>
            hcmp r (List.mem_cons_of_mem _ hr) y (List.mem_cons_of_mem n hy)) x hx with hx | hq
          · exact hfirst x hx
          · exact .inr hq

end Pattern

/-- A node of a match, an attribute in front of one, or a node below these. -/
def Match.Reaches (m : Match) (y : Node) : Prop :=
  ∃ n ∈ m.nodes, y ∈ n.reach

theorem Match.stable_reaches (m : Match) : Node.Stable m.Reaches := by
  rintro y z ⟨n, hn, hy⟩ c hz
  exact ⟨n, hn, n.reach_closed.stable y z hy c hz⟩

namespace Pattern

/-- The nodes of a match follow each other, one for each root, and each of its captures is what the
variable of that name may be bound to. -/
structure WellFormed (p : Pattern) (source : Text) (m : Match) : Prop where
  rooted : m.nodes.length = p.roots.length
  consecutive : Consecutive m.nodes
  proper : ∀ x ∈ m.nodes, x.isAttributeItem = false ∧ x.label.extra = false
  bound : ∀ name b, (name, b) ∈ m.captures →
    ∃ v, p.template.named? name = some v ∧ p.WellBound source m.captures m.Reaches v b

theorem captures_wellBound {p : Pattern} {source : Text} {n : Node} {m : Match}
    (hp : p.template.Distinct) (h : p.matchAt? source n = some m) :
    ∀ x ∈ m.captures, p.CapturedFrom source m.captures m.Reaches x := by
  obtain ⟨-, -, hfollow⟩ := matchAt?_eq_some_iff.mp h
  intro x hx
  have hadds := follow_adds (Q := p.CapturedFrom source m.captures m.Reaches)
    (p.compare_grows source p.config.maxDepth) hfollow (fun r hr b hb => ?_) x hx
  · exact hadds.resolve_left (by simp)
  · exact compare_adds hp m.stable_reaches (.root hr) ⟨b, hb, b.mem_reach_self⟩

theorem wellFormed_of_matchAt? {p : Pattern} {source : Text} {n : Node} {m : Match}
    (hp : p.template.Distinct) (h : p.matchAt? source n = some m) : p.WellFormed source m := by
  obtain ⟨hattribute, hextra, hfollow⟩ := matchAt?_eq_some_iff.mp h
  refine ⟨(accepts_of_matchAt? h).length_eq.symm, (follow_nodes hfollow).2, ?_, fun name b hb =>
    captures_wellBound hp h (name, b) hb⟩
  refine forall_mem_nodes h ⟨hattribute, hextra⟩ fun x y _ hy => ?_
  obtain ⟨hproper, hattribute⟩ := Node.isProper_of_nextItem hy
  simp only [Label.isProper, Bool.and_eq_true, Bool.not_eq_true'] at hproper
  exact ⟨hattribute, hproper.2⟩

theorem reports_wellFormed {grammar : Grammar} {config : Config} {t : Text} {p : Pattern}
    (hp : compile grammar config t = .ok p) {s : Source} {m : Match} (h : p.Reports s m) :
    p.WellFormed s.text m ∧ ∀ x ∈ m.nodes, x ∈ s.nodes := by
  obtain ⟨n, hn, hm⟩ := h.exists_matchAt?
  exact ⟨wellFormed_of_matchAt? (distinct_of_compile hp) hm, nodes_subset hn hm⟩

/-- The first wildcard takes nothing, since no name is `z`, and is bound where the first name
begins. -/
theorem reports_wellFormed_of_tuples : ∃ p m v,
    compile tupleGrammar .default "(('_x:*[regex(z)], '_y:*), '_z);".toList = .ok p ∧
      p.Reports tupleSource m ∧ p.WellFormed tupleSource.text m ∧
        (∀ x ∈ m.nodes, x ∈ tupleSource.nodes) ∧
          ("x".toList, .multiple [] 2 2 []) ∈ m.captures ∧ p.template.named? "x".toList = some v ∧
            ∃ a b c, p.GapAt tupleSource.text m.captures m.Reaches v 2 a b c := by
  have h : ((compile tupleGrammar .default "(('_x:*[regex(z)], '_y:*), '_z);".toList).toOption.bind
      fun p => (p.findFirst? tupleSource).map (·.captures.contains
        ("x".toList, .multiple [] 2 2 []))) = some true := by
    decide +kernel
  obtain ⟨p, hp, h⟩ := Option.bind_eq_some_iff.mp h
  obtain ⟨m, hm, hx⟩ := Option.map_eq_some_iff.mp h
  have hp := ok_of_toOption hp
  have hx : ("x".toList, .multiple [] 2 2 []) ∈ m.captures := List.contains_iff_mem.mp hx
  obtain ⟨hwell, hnodes⟩ := reports_wellFormed hp (.first hm)
  obtain ⟨v, hv, hrun⟩ := hwell.bound _ _ hx
  obtain ⟨-, hgap⟩ := WellBoundRun.empty hrun rfl
  exact ⟨p, m, v, hp, .first hm, hwell, hnodes, hx, hv, hgap⟩

end Pattern

end ShapeSearch
