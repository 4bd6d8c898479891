import Mathlib.Data.List.Perm.Subperm
import ShapeSearch.Proofs.Exposed
import ShapeSearch.Proofs.Slices

namespace ShapeSearch

namespace TokenGroup

def text (g : TokenGroup) (source : Text) : Text :=
  match g.tokens.head?, g.tokens.getLast? with
  | some first, some last => source.slice first.start last.stop
  | _, _ => []

def startsBefore (g h : TokenGroup) : Bool :=
  (Listed.bound g).start ≤ (Listed.bound h).start

variable {g : TokenGroup} {source : Text}

theorem bound_text_of_length_eq_one (h : g.tokens.length = 1) :
    (Listed.bound g).text source = g.text source := by
  obtain ⟨n, hn⟩ := List.length_eq_one_iff.mp h
  simp [Listed.bound, text, hn, Node.text, Label.text, Node.start, Node.stop]

theorem bound_text_ne {first last : Node} (hfirst : g.tokens.head? = some first)
    (hlast : g.tokens.getLast? = some last) (hle : first.start ≤ first.stop)
    (hlt : first.stop < last.stop) {t : Text} (ht : source.slice? first.start last.stop = some t) :
    (Listed.bound g).text source ≠ g.text source := by
  have hbound : (Listed.bound g).text source = source.slice first.start first.stop := by
    simp [Listed.bound, hfirst, Node.text, Label.text, Node.start, Node.stop]
  have htext : g.text source = t := by simp [text, hfirst, hlast, Text.slice, ht]
  have hbytes := Text.bytes_of_slice? ht
  rw [hbound, htext, Text.slice]
  rintro rfl
  cases hshort : source.slice? first.start first.stop with
  | none =>
      rw [hshort, Option.getD_none, Text.bytes] at hbytes
      omega
  | some u =>
      have hbytes' := Text.bytes_of_slice? hshort
      rw [hshort, Option.getD_some] at hbytes
      omega

end TokenGroup

/-- What a wildcard takes of the arguments `b`, if it stands for a run of them and the texts `ts` are
bound: in the order in which they start, it accepts and binds of each the one node that stands for
it. -/
structure Wildcard.TakesArguments (w : Wildcard) (source : Text) (ts : List Text) (b : Node)
    (gs : List TokenGroup) : Prop where
  among : List.Subperm gs b.tokenGroups
  ordered : gs.Pairwise fun g h => (Listed.bound g).start ≤ (Listed.bound h).start
  admitted : w.quantifier.admits gs.length = true
  accepted : ∀ g ∈ gs, w.ofVariable.accepts ((Listed.bound g).text source) = true
  texts : ts = gs.map fun g => (Listed.bound g).text source

namespace Wildcard

variable {w : Wildcard} {source : Text} {ts : List Text} {b : Node} {gs : List TokenGroup}

theorem TakesArguments.whole (h : w.TakesArguments source ts b gs)
    (hgs : ∀ g ∈ gs, g.tokens.length = 1) :
    ts = gs.map (·.text source) ∧ ∀ g ∈ gs, w.ofVariable.accepts (g.text source) = true := by
  have hbound {g : TokenGroup} (hg : g ∈ gs) : (Listed.bound g).text source = g.text source :=
    TokenGroup.bound_text_of_length_eq_one (hgs g hg)
  exact ⟨h.texts.trans (List.map_congr_left fun g hg => hbound hg),
    fun g hg => hbound hg ▸ h.accepted g hg⟩

theorem StandsForRun.takesArguments {e : Captures}
    (h : w.StandsForRun source e (gs.map Listed.bound)) (hname : w.ofVariable.name ≠ [])
    (hgs : List.Subperm gs b.tokenGroups) :
    ∃ fs start stop t, e.lookup w.ofVariable.name = some (.multiple fs start stop t) ∧
      ∃ hs, w.TakesArguments source (fs.map (·.text)) b hs := by
  obtain ⟨fs, start, stop, t, hlookup, hfs⟩ := h.bound hname
  refine ⟨fs, start, stop, t, hlookup, gs.mergeSort TokenGroup.startsBefore, ?_, ?_, ?_, ?_, ?_⟩
  · exact (List.mergeSort_perm gs _).subperm.trans hgs
  · have hpairwise := @List.pairwise_mergeSort TokenGroup TokenGroup.startsBefore
      (fun _ _ _ => by simpa [TokenGroup.startsBefore] using Nat.le_trans)
      (fun _ _ => by simpa [TokenGroup.startsBefore] using Nat.le_total _ _) gs
    exact hpairwise.imp fun h => by simpa [TokenGroup.startsBefore] using h
  · rw [List.length_mergeSort, ← List.length_map (f := Listed.bound)]
    exact h.admitted
  · intro g hg
    have haccepts := h.accepted _ (List.mem_map_of_mem (List.mem_mergeSort.mp hg))
    obtain ⟨-, t, ht, haccepts⟩ := accepts_iff.mp haccepts
    rw [Text.drop?, Option.some.injEq] at ht
    exact ht ▸ haccepts
  -- sorting the arguments and sorting the labels that are bound is one sorting
  · have hlabels := @List.map_mergeSort _ _ TokenGroup.startsBefore (fun a b => a.start ≤ b.start)
      (fun g => (Listed.bound g).label) gs fun _ _ _ _ => rfl
    rw [hfs, List.map_map, Function.comp_def, ← hlabels, List.map_map]
    rfl

end Wildcard

namespace Pattern

variable {p : Pattern} {s : Source} {m : Match} {n a x : Node} {w : Wildcard}

/-- A node of the pattern lies in or in front of a type parameter that was compared by its text alone,
because the source has a parameter of another kind with that text. -/
def Echoed (p : Pattern) (s : Source) (a : Node) : Prop :=
  ∃ z, p.ComesTo z ∧ a ∈ z.reach ∧ ∃ y ∈ s.nodes, ¬ p.ApartFrom s.text z y

theorem ComesTo.met_or_echoed (hn : n ∈ s.nodes) (h : p.matchAt? s.text n = some m)
    (hx : p.ComesTo x) : p.Met s m.captures x ∨ p.Echoed s x := by
  induction hx with
  | root hr => exact .inl (.inr ⟨_, exists_accepts_of_mem_roots hn h hr⟩)
  | @step a x c ha hw hc hx ih =>
      obtain ⟨hcompared, hquoted⟩ := Clause.compared_of_opened hx
      rcases ih with hmet | ⟨z, hz, haz, hecho⟩
      · by_cases hapart : ∀ y ∈ s.nodes, p.ApartFrom s.text a y
        · exact .inl ((hmet.step hw hapart hc hcompared).resolve_right fun h => hquoted h.1)
        · push Not at hapart
          exact .inr ⟨a, ha, a.reach_closed.stable a _ a.mem_reach_self c hcompared, hapart⟩
      · exact .inr ⟨z, hz, z.reach_closed.stable a _ haz c hcompared, hecho⟩

/-- A wildcard with a name that stands for a run of arguments of an attribute, as an argument by
itself. -/
structure ArgumentRun (p : Pattern) (a x : Node) (w : Wildcard) : Prop where
  compared : p.ComesTo a
  structural : p.wildcard? a = none
  asked : .tokenGroups ∈ strategy a a
  alone : ⟨[x], a⟩ ∈ a.tokenGroups
  wildcard : p.wildcard? x = some w
  run : w.quantifier.isSingle = false
  named : w.ofVariable.name ≠ []

theorem ArgumentRun.exists_takesArguments (h : p.ArgumentRun a x w) {e : Captures} {room : Nat}
    {b : Node} (haccepts : (p.compare s.text room a b).Accepts e) :
    ∃ fs start stop t, e.lookup w.ofVariable.name = some (.multiple fs start stop t) ∧
      ∃ gs, w.TakesArguments s.text (fs.map (·.text)) b gs := by
  cases room with
  | zero => exact absurd haccepts (not_accepts_zero h.structural)
  | succ room =>
      have hapart : p.ApartFrom s.text a b := fun hkind =>
        absurd h.asked (by simp [strategy, hkind])
      have hdemands := demands_of_accepts h.structural hapart haccepts h.asked
      have helement : p.element (⟨[x], a⟩ : TokenGroup) = .run w := by
        simp [element, Listed.node?, h.wildcard, h.run]
      have hmem : Element.run w ∈ a.tokenGroups.map p.element :=
        helement ▸ List.mem_map_of_mem h.alone
      rcases hdemands with hnil | ⟨runs, -, hsublists, hholds⟩
      · rw [hnil] at hmem
        cases hmem
      · obtain ⟨gs, hgs, hrun⟩ := Comparison.forall₂_exists_left hholds.flip _ hmem
        exact Wildcard.StandsForRun.takesArguments hrun h.named (hsublists gs hgs).subperm

/-- A name that stands for runs of arguments of attributes is bound to texts of first tokens. At each
of its places these are the texts of the first tokens of the arguments that it takes there, or of the
whole list in the place of an argument without tokens, and the constraint is asked of them. Where each
of these arguments is one token, the arguments are bound as they are written. -/
theorem argument_runs (h : p.Reports s m) (name : Text) :
    (∀ a x w, p.ArgumentRun a x w → w.ofVariable.name = name → p.Echoed s a) ∨
    ∃ fs start stop t, m.captures.lookup name = some (.multiple fs start stop t) ∧
      ∀ a x w, p.ArgumentRun a x w → w.ofVariable.name = name → p.Echoed s a ∨
        ∃ b ∈ s.nodes, ∃ gs, w.TakesArguments s.text (fs.map (·.text)) b gs ∧
          ((∀ g ∈ gs, g.tokens.length = 1) → fs.map (·.text) = gs.map (·.text s.text) ∧
            ∀ g ∈ gs, w.ofVariable.accepts (g.text s.text) = true) := by
  obtain ⟨n, hn, hm⟩ := h.exists_matchAt?
  have hplace {a x : Node} {w : Wildcard} (hrun : p.ArgumentRun a x w) : p.Echoed s a ∨
      ∃ b ∈ s.nodes, ∃ fs start stop t,
        m.captures.lookup w.ofVariable.name = some (.multiple fs start stop t) ∧
          ∃ gs, w.TakesArguments s.text (fs.map (·.text)) b gs := by
    rcases hrun.compared.met_or_echoed hn hm with (⟨v, hv, -⟩ | ⟨room, b, hb, haccepts⟩) | hecho
    · rw [hrun.structural] at hv
      cases hv
    · exact .inr ⟨b, hb, hrun.exists_takesArguments haccepts⟩
    · exact .inl hecho
  by_cases hall : ∀ a x w, p.ArgumentRun a x w → w.ofVariable.name = name → p.Echoed s a
  · exact .inl hall
  · push Not at hall
    obtain ⟨a, x, w, hrun, rfl, hecho⟩ := hall
    obtain ⟨b, hb, fs, start, stop, t, hlookup, -⟩ := (hplace hrun).resolve_left hecho
    refine .inr ⟨fs, start, stop, t, hlookup, fun a' x' w' hrun' hname => ?_⟩
    refine (hplace hrun').imp_right ?_
    rintro ⟨b', hb', fs', start', stop', t', hlookup', gs, hgs⟩
    -- a name has one binding, so that all places share their texts
    rw [hname, hlookup, Option.some.injEq, Binding.multiple.injEq] at hlookup'
    obtain ⟨rfl, -⟩ := hlookup'
    exact ⟨b', hb', gs, hgs, hgs.whole⟩

/-- The tree of `#[a(..)]`, with arguments that end before a byte. -/
def configured (start stop : Nat) (arguments : List Tree) : Tree :=
  .named "attribute_item" none start (stop + 2) [.token "#" start (start + 1),
    .token "[" (start + 1) (start + 2), .named "attribute" none (start + 2) (stop + 1) [
      .named "identifier" none (start + 2) (start + 3) [],
      .named "token_tree" (some "arguments") (start + 3) (stop + 1)
        (.token "(" (start + 3) (start + 4) :: arguments ++ [.token ")" stop (stop + 1)])],
    .token "]" (stop + 1) (stop + 2)]

/-- The tree of `k = 1` at a byte, and of a name where there is less or more room. -/
def setting (start : Nat) : Nat → List Tree
  | 5 => [.named "identifier" none start (start + 1) [], .token "=" (start + 2) (start + 3),
    .named "integer_literal" none (start + 4) (start + 5) []]
  | n => [.named "identifier" none start (start + n) []]

/-- The tree of `#[a(k = 1)] #[b(k = 2)] struct S;`, where the two arguments have one length. -/
def settingGrammar : Grammar := fun t =>
  let n := (t.bytes - 23) / 2
  .named "source_file" none 0 t.bytes [configured 0 (n + 4) (setting 4 n),
    configured (n + 7) (2 * n + 11) (setting (n + 11) n),
    .named "struct_item" none (2 * n + 14) (2 * n + 23) [
      .token "struct" (2 * n + 14) (2 * n + 20),
      .named "type_identifier" (some "name") (2 * n + 21) (2 * n + 22) [],
      .token ";" (2 * n + 22) (2 * n + 23)]]

def namesSource : Source := .ofText settingGrammar "#[a(k)] #[b(k)] struct S;".toList

theorem argument_runs_of_names : ∃ p m a x w,
    compile settingGrammar .default "#[a('_x:*)] #[b('_x:*)] struct S;".toList = .ok p ∧
    p.Reports namesSource m ∧ p.ArgumentRun a x w ∧ w.ofVariable.name = "x".toList ∧
    ((∀ a x w, p.ArgumentRun a x w → w.ofVariable.name = "x".toList → p.Echoed namesSource a) ∨
      ∃ fs start stop t, m.captures.lookup "x".toList = some (.multiple fs start stop t) ∧
        ∀ a x w, p.ArgumentRun a x w → w.ofVariable.name = "x".toList → p.Echoed namesSource a ∨
          ∃ b ∈ namesSource.nodes, ∃ gs,
            w.TakesArguments namesSource.text (fs.map (·.text)) b gs ∧
            ((∀ g ∈ gs, g.tokens.length = 1) →
              fs.map (·.text) = gs.map (·.text namesSource.text) ∧
              ∀ g ∈ gs, w.ofVariable.accepts (g.text namesSource.text) = true)) := by
  have h : ((compile settingGrammar .default "#[a('_x:*)] #[b('_x:*)] struct S;".toList).toOption.bind
      fun p => (p.findFirst? namesSource).bind fun _ => p.roots.head?.bind fun r =>
        r.outerAttributes.head?.bind fun t => (t.childOfKind? "attribute").bind fun u =>
          (u.childAt? "arguments").bind fun a => a.tokenGroups.head?.bind fun g =>
            (Listed.node? g).bind fun x => (p.wildcard? x).map fun w =>
              decide (.attributes ∈ strategy r r ∧ .part (.childOfKind "attribute") ∈ strategy t t ∧
                .part (.field "arguments") ∈ strategy u u ∧ .tokenGroups ∈ strategy a a ∧
                w.ofVariable.name = "x".toList ∧ w.quantifier.isSingle = false) &&
              [r, t, u, a].all fun n => (p.wildcard? n).isNone) = some true := by
    decide +kernel
  simp only [Option.bind_eq_some_iff, Option.map_eq_some_iff, Bool.and_eq_true, decide_eq_true_eq,
    List.all_cons, List.all_nil, and_true, Option.isNone_iff_eq_none] at h
  obtain ⟨p, hp, m, hm, r, hr, t, ht, u, hu, a, ha, ⟨ts, a'⟩, hg, x, hx, w, hw,
    ⟨hattributes, hattribute, harguments, hasked, hname, hrun⟩, hwr, hwt, hwu, hwa⟩ := h
  have hcomes : p.ComesTo a := .step (.step (.step (.root (List.mem_of_head? hr)) hwr hattributes
    (List.mem_of_head? ht)) hwt hattribute (Option.mem_toList.mpr hu)) hwu harguments
    (Option.mem_toList.mpr ha)
  have halone : ⟨[x], a⟩ ∈ a.tokenGroups := by
    have hmem := List.mem_of_head? hg
    obtain ⟨_, -, heq⟩ := List.mem_map.mp hmem
    obtain rfl : a = a' := congrArg TokenGroup.tree heq
    match ts, hx with
    | [_], rfl => exact hmem
  have hnamed : w.ofVariable.name ≠ [] := by
    rw [hname]
    decide
  exact ⟨p, m, a, x, w, ok_of_toOption hp, .first hm,
    ⟨hcomes, hwa, hasked, halone, hw, hrun, hnamed⟩, hname, argument_runs (.first hm) _⟩

def settingSource : Source := .ofText settingGrammar "#[a(k = 1)] #[b(k = 2)] struct S;".toList

/-- Two arguments that begin with the same token are taken for the same. -/
theorem argument_cut_short : ∃ p,
    compile settingGrammar .default "#[a('_x:*)] #[b('_x:*)] struct S;".toList = .ok p ∧
    (p.findAll settingSource).map (fun m => m.captures.lookup "x".toList) =
      [some (.multiple [⟨⟨"identifier", true, false, false, false, 4, 5, none⟩, ['k']⟩] 4 5 ['k'])] ∧
    (settingSource.nodes.filter (·.kind == "token_tree")).map
        (fun b => b.tokenGroups.map (·.text settingSource.text)) =
      [["k = 1".toList], ["k = 2".toList]] := by
  have h : ((compile settingGrammar .default "#[a('_x:*)] #[b('_x:*)] struct S;".toList).toOption.map
      fun p => (p.findAll settingSource).map fun m => m.captures.lookup "x".toList) =
      some [some (.multiple [⟨⟨"identifier", true, false, false, false, 4, 5, none⟩, ['k']⟩] 4 5
        ['k'])] := by
    decide +kernel
  obtain ⟨p, hp, hcaptures⟩ := Option.map_eq_some_iff.mp h
  exact ⟨p, ok_of_toOption hp, hcaptures, by decide +kernel⟩

end Pattern

end ShapeSearch
