import ShapeSearch.Proofs.Alternatives
import ShapeSearch.Proofs.Renaming

namespace ShapeSearch

namespace Attempt

variable {r : Renaming} {ns ms : List Text} {s : Captures} {a a' b b' : Attempt Captures}

/-- From renamed bindings, the second attempt ends as the first does, with renamed bindings, provided
that none of these names is bound where it is erased. -/
def Echoes (r : Renaming) (ns : List Text) (s : Captures) (a a' : Attempt Captures) : Prop :=
  (∀ n ∈ ns, r.Erases n → s.lookup n = none) →
    (a' (r.captures s)).1 = (a s).1 ∧ ((a s).1 = true →
      (a' (r.captures s)).2 = r.captures (a s).2 ∧
        ∀ n ∉ ns, r.Erases n → (a s).2.lookup n = s.lookup n)

namespace Echoes

theorem mono (h : Echoes r ns s a a') (hns : ns ⊆ ms) : Echoes r ms s a a' := by
  intro hfresh
  obtain ⟨hresult, hsuccess⟩ := h fun n hn => hfresh n (hns hn)
  refine ⟨hresult, fun ha => ?_⟩
  obtain ⟨hnext, hframe⟩ := hsuccess ha
  exact ⟨hnext, fun n hn => hframe n fun hmem => hn (hns hmem)⟩

theorem test (r : Renaming) (ns : List Text) (s : Captures) (c : Bool) :
    Echoes r ns s (test c) (test c) :=
  fun _ => ⟨rfl, fun _ => ⟨rfl, fun _ _ _ => rfl⟩⟩

theorem of_fails (ha : (a s).1 = false) (ha' : (a' (r.captures s)).1 = false) :
    Echoes r ns s a a' := by
  refine fun _ => ⟨ha'.trans ha.symm, fun h => ?_⟩
  rw [ha] at h
  cases h

theorem of_unchanged (ha : a s = (true, s)) (ha' : a' (r.captures s) = (true, r.captures s)) :
    Echoes r ns s a a' := by
  refine fun _ => ⟨by rw [ha, ha'], fun _ => ?_⟩
  rw [ha, ha']
  exact ⟨rfl, fun _ _ _ => rfl⟩

theorem andThen (ha : Echoes r ns s a a')
    (hb : ∀ t, a s = (true, t) → a' (r.captures s) = (true, r.captures t) → Echoes r ms t b b')
    (hapart : ∀ n ∈ ms, r.Erases n → n ∉ ns) :
    Echoes r (ns ++ ms) s (andThen a b) (andThen a' b') := by
  intro hfresh
  obtain ⟨hresult, hsuccess⟩ := ha fun n hn => hfresh n (List.mem_append_left ms hn)
  rw [andThen_apply, andThen_apply, hresult]
  split
  next has =>
    obtain ⟨hnext, hframe⟩ := hsuccess has
    rw [hnext]
    have hfresh' (n : Text) (hn : n ∈ ms) (herased : r.Erases n) : (a s).2.lookup n = none := by
      rw [hframe n (hapart n hn herased) herased]
      exact hfresh n (List.mem_append_right ns hn) herased
    obtain ⟨hresult', hsuccess'⟩ := hb (a s).2 (Prod.ext has rfl)
      (Prod.ext (hresult.trans has) hnext) hfresh'
    refine ⟨hresult', fun hbs => ?_⟩
    obtain ⟨hnext', hframe'⟩ := hsuccess' hbs
    refine ⟨hnext', fun n hn herased => ?_⟩
    rw [List.mem_append, not_or] at hn
    rw [hframe' n hn.2 herased, hframe n hn.1 herased]
  next has =>
    exact ⟨hresult, fun h => absurd h has⟩

theorem firstOf {as as' : List (Attempt Captures)} (h : List.Forall₂ (Echoes r ns s) as as') :
    Echoes r ns s (firstOf as) (firstOf as') := by
  induction h with
  | nil => exact test r ns s false
  | cons ha _ ih =>
      intro hfresh
      obtain ⟨hresult, hsuccess⟩ := ha hfresh
      rw [firstOf_cons, firstOf_cons, hresult]
      split
      · exact ⟨hresult, hsuccess⟩
      · exact ih hfresh

theorem only (h : Echoes r ns s a a') :
    Echoes r ns s (Attempt.firstOf [a]) (Attempt.firstOf [a']) :=
  firstOf (.cons h .nil)

theorem bind (r : Renaming) (name : Text) (b : Binding) (s : Captures) :
    Echoes r [name] s (Captures.bind name b) (Captures.bind (r.name name) b) := by
  by_cases hname : name = []
  · subst hname
    rw [r.nameless]
    exact of_unchanged rfl rfl
  · have hempty : name.isEmpty = false := by simpa using hname
    intro hfresh
    by_cases herased : r.Erases name
    · have hto : r.name name = [] := herased
      have hnone := hfresh name List.mem_cons_self herased
      simp only [Captures.bind, hempty, hnone, hto, List.isEmpty_nil, Bool.false_eq_true, if_false,
        if_true, true_and, r.captures_append, r.captures_single_of_erases herased, List.append_nil]
      intro _ n hn _
      have hne : (n == name) = false := beq_eq_false_iff_ne.mpr fun h => hn (by simp [h])
      simp only [List.lookup_append, List.lookup_cons, hne, List.lookup_nil, Option.or_none]
    · have hempty' : (r.name name).isEmpty = false := by
        cases h : r.name name with
        | nil => exact absurd h herased
        | cons c t => rfl
      simp only [Captures.bind, hempty, hempty', r.lookup_captures herased, Bool.false_eq_true,
        if_false]
      cases s.lookup name with
      | some a => exact ⟨rfl, fun _ => ⟨rfl, fun _ _ _ => rfl⟩⟩
      | none =>
          refine ⟨rfl, fun _ => ⟨?_, fun n hn _ => ?_⟩⟩
          · simp only [r.captures_append, r.captures_single herased]
          · have hne : (n == name) = false := beq_eq_false_iff_ne.mpr fun h => hn (by simp [h])
            simp only [List.lookup_append, List.lookup_cons, hne, List.lookup_nil, Option.or_none]

end Echoes

end Attempt

namespace Attempt.Echoes

variable {r : Renaming} {s : Captures}

theorem all {S : Captures → Prop} {ι κ : Type} {xs : List ι} {ys : List κ}
    {names : ι → List Text} {f : ι → Attempt Captures} {f' : κ → Attempt Captures} (hs : S s)
    (hS : ∀ x ∈ xs, ∀ t u, S t → f x t = (true, u) → S u) (honce : r.Once (xs.flatMap names))
    (h : List.Forall₂ (fun x y => ∀ t, S t → Echoes r (names x) t (f x) (f' y)) xs ys) :
    Echoes r (xs.flatMap names) s (all (xs.map f)) (all (ys.map f')) := by
  induction h generalizing s with
  | nil => exact test r [] s true
  | @cons x y xs ys hxy _ ih =>
      rw [List.flatMap_cons] at honce ⊢
      refine (hxy s hs).andThen (fun t ht _ => ?_) honce.apart
      exact ih (hS x List.mem_cons_self s t hs ht)
        (fun x hx => hS x (List.mem_cons_of_mem _ hx)) honce.right

end Attempt.Echoes

namespace Comparison

open Attempt

variable {P W C : Type}

/-- A wildcard takes what the other takes, and binds it under the other name. -/
structure RunEchoes (k k' : Comparison P W C Captures) (r : Renaming) (ns : List Text) (w w' : W) :
    Prop where
  quantifier : k'.quantifier w' = k.quantifier w
  takes (c : C) : k'.takes w' c = k.takes w c
  run (s : Captures) (cs : List C) (offset : Nat) :
    Echoes r ns s (k.run w cs offset) (k'.run w' cs offset)

inductive ElementEchoes (k k' : Comparison P W C Captures) (r : Renaming)
    (names : Element P W → List Text) : Element P W → Element P W → Prop
  | one (p : P) : ElementEchoes k k' r names (.one p) (.one p)
  | run {w w' : W} (h : RunEchoes k k' r (names (.run w)) w w') :
    ElementEchoes k k' r names (.run w) (.run w')

variable {k k' : Comparison P W C Captures} {r : Renaming} {names : Element P W → List Text}
  {es es' : List (Element P W)} {cs : List C} {s t : Captures}

section InOrder

/-- The elements that an ordered comparison has got past, each with its candidates. Those that stand
for one candidate were compared with it, and all that this bound is still bound. -/
structure Passed (k k' : Comparison P W C Captures) (r : Renaming) (all : List (Element P W))
    (candidates : List C) (hist : List (Element P W × List C)) (es : List (Element P W))
    (cs : List C) (s : Captures) : Prop where
  elements : all = hist.map Prod.fst ++ es
  candidates : candidates = hist.flatMap Prod.snd ++ cs
  ones {p : P} {ds : List C} (h : (.one p, ds) ∈ hist) : ∃ d t u, ds = [d] ∧
    k.one p d t = (true, u) ∧ k'.one p d (r.captures t) = (true, r.captures u) ∧ u <+: s

variable {all : List (Element P W)} {candidates : List C} {hist : List (Element P W × List C)}

theorem Passed.start (k k' : Comparison P W C Captures) (r : Renaming) (es : List (Element P W))
    (cs : List C) (s : Captures) : Passed k k' r es cs [] es cs s :=
  ⟨rfl, rfl, fun h => nomatch h⟩

theorem Passed.one {p : P} {c : C} (h : Passed k k' r all candidates hist (.one p :: es) (c :: cs) s)
    (hs : k.one p c s = (true, t)) (hs' : k'.one p c (r.captures s) = (true, r.captures t))
    (hgrows : s <+: t) : Passed k k' r all candidates (hist ++ [(.one p, [c])]) es cs t where
  elements := by simp [h.elements]
  candidates := by simp [h.candidates]
  ones {q ds} hq := by
    rcases List.mem_append.mp hq with hq | hq
    · obtain ⟨d, u, v, hds, hu, hu', hv⟩ := h.ones hq
      exact ⟨d, u, v, hds, hu, hu', hv.trans hgrows⟩
    · rw [List.mem_singleton, Prod.mk.injEq, Element.one.injEq] at hq
      obtain ⟨rfl, rfl⟩ := hq
      exact ⟨c, s, t, rfl, hs, hs', List.prefix_rfl⟩

theorem Passed.run {w : W} (h : Passed k k' r all candidates hist (.run w :: es) cs s)
    (hgrows : s <+: t) (n : Nat) :
    Passed k k' r all candidates (hist ++ [(.run w, cs.take n)]) es (cs.drop n) t where
  elements := by simp [h.elements]
  candidates := by simp [h.candidates]
  ones {q ds} hq := by
    rcases List.mem_append.mp hq with hq | hq
    · obtain ⟨d, u, v, hds, hu, hu', hv⟩ := h.ones hq
      exact ⟨d, u, v, hds, hu, hu', hv.trans hgrows⟩
    · simp at hq

theorem inOrder_echoes (h : List.Forall₂ (ElementEchoes k k' r names) es es')
    (hstart : k'.start = k.start) (hone : ∀ p c, (k.one p c).Grows)
    (hrun : ∀ w cs offset, (k.run w cs offset).Grows)
    (hechoes : ∀ hist p es c cs s, Passed k k' r all candidates hist (.one p :: es) (c :: cs) s →
      Echoes r (names (.one p)) s (k.one p c) (k'.one p c))
    (honce : r.Once (es.flatMap names)) (hpassed : Passed k k' r all candidates hist es cs s)
    (fallback : Nat) :
    Echoes r (es.flatMap names) s (k.inOrder fallback es cs) (k'.inOrder fallback es' cs) := by
  induction h generalizing hist cs s with
  | nil => exact .test r [] s _
  | @cons e e' es es' he _ ih =>
      rw [List.flatMap_cons] at honce ⊢
      cases he with
      | one p =>
          cases cs with
          | nil => exact .test r _ s false
          | cons c cs =>
              refine Echoes.only (.andThen (hechoes hist p es c cs s hpassed) ?_ honce.apart)
              intro t ht ht'
              have hgrows := hone p c s
              rw [ht] at hgrows
              exact ih honce.right (hpassed.one ht ht' hgrows)
      | @run w w' hw =>
          have hanchor : k'.anchor fallback cs = k.anchor fallback cs := by
            cases cs <;> simp [anchor, hstart]
          simp only [inOrder, hw.quantifier, hanchor]
          apply Echoes.firstOf
          rw [List.forall₂_map_left_iff, List.forall₂_map_right_iff, List.forall₂_same]
          intro n _
          refine .andThen (hw.run s (cs.take n) _) ?_ honce.apart
          intro t ht _
          have hgrows := hrun w (cs.take n) (k.anchor fallback cs) s
          rw [ht] at hgrows
          exact ih honce.right (hpassed.run hgrows n)

end InOrder

section AnyOrder

def SharesEcho (k k' : Comparison P W C Captures) (r : Renaming) (names : W → List Text)
    (x y : W × List C) : Prop :=
  RunEchoes k k' r (names x.1) x.1 y.1 ∧ x.2 = y.2

theorem placements_echo {names : W → List Text} {runs runs' : List (W × List C)}
    (h : List.Forall₂ (SharesEcho k k' r names) runs runs') (c : C) :
    List.Forall₂ (fun next next' => List.Forall₂ (SharesEcho k k' r names) next next' ∧
        next.map Prod.fst = runs.map Prod.fst)
      (k.placements c runs) (k'.placements c runs') := by
  induction h with
  | nil => exact .nil
  | @cons x y runs runs' hxy hrest ih =>
      obtain ⟨w, taken⟩ := x
      obtain ⟨w', taken'⟩ := y
      obtain ⟨hrun, rfl⟩ : RunEchoes k k' r (names w) w w' ∧ taken = taken' := hxy
      simp only [placements, hrun.quantifier, hrun.takes]
      apply List.rel_append
      · split
        · exact .cons ⟨.cons ⟨hrun, rfl⟩ hrest, rfl⟩ .nil
        · exact .nil
      · rw [List.forall₂_map_left_iff, List.forall₂_map_right_iff]
        exact ih.imp fun next next' hnext => ⟨.cons ⟨hrun, rfl⟩ hnext.1, by simp [hnext.2]⟩

theorem share_echoes {names : W → List Text} {runs runs' : List (W × List C)}
    (h : List.Forall₂ (SharesEcho k k' r names) runs runs')
    (honce : r.Once ((runs.map Prod.fst).flatMap names)) (offset : Nat) :
    Echoes r ((runs.map Prod.fst).flatMap names) s (k.share offset cs runs)
      (k'.share offset cs runs') := by
  induction cs generalizing runs runs' with
  | nil =>
      rw [List.flatMap_map] at honce ⊢
      refine Echoes.only (.all (S := fun _ => True) trivial (fun _ _ _ _ _ _ => trivial) honce
        (h.imp fun x y hxy s _ => ?_))
      obtain ⟨w, taken⟩ := x
      obtain ⟨w', taken'⟩ := y
      obtain ⟨hrun, rfl⟩ : RunEchoes k k' r (names w) w w' ∧ taken = taken' := hxy
      exact hrun.run s taken offset
  | cons c cs ih =>
      simp only [share]
      apply Echoes.firstOf
      rw [List.forall₂_map_left_iff, List.forall₂_map_right_iff]
      refine (placements_echo h c).imp fun next next' hnext => ?_
      have hshare := ih hnext.1 (by rwa [hnext.2])
      rwa [hnext.2] at hshare

theorem pairUp_echoes {ws ws' : List W} {ps : List P}
    (hone : ∀ p ∈ ps, ∀ c ∈ cs, ∀ s, Echoes r (names (.one p)) s (k.one p c) (k'.one p c))
    (hrun : List.Forall₂ (fun w w' => RunEchoes k k' r (names (.run w)) w w') ws ws')
    (honce : r.Once (namesOf names ps ws)) (offset : Nat) :
    Echoes r (namesOf names ps ws) s (k.pairUp offset ws ps cs) (k'.pairUp offset ws' ps cs) := by
  induction ps generalizing cs s with
  | nil =>
      have hshare : List.Forall₂ (SharesEcho k k' r fun w => names (.run w))
          (ws.map (·, ([] : List C))) (ws'.map (·, [])) := by
        rw [List.forall₂_map_left_iff, List.forall₂_map_right_iff]
        exact hrun.imp fun w w' h => ⟨h, rfl⟩
      have hfirst : (ws.map fun w => (w, ([] : List C))).map Prod.fst = ws := by
        rw [List.map_map]
        exact List.map_id ws
      have hechoes : Echoes r _ s (k.share offset cs (ws.map (·, [])))
          (k'.share offset cs (ws'.map (·, []))) := share_echoes hshare (by rwa [hfirst]) offset
      rw [hfirst] at hechoes
      cases hrun with
      | nil => exact .test r _ s _
      | cons => exact hechoes
  | cons p ps ih =>
      have hnames : namesOf names (p :: ps) ws = names (.one p) ++ namesOf names ps ws := by
        simp only [namesOf, List.flatMap_cons, List.append_assoc]
      rw [hnames] at honce ⊢
      simp only [pairUp]
      apply Echoes.firstOf
      rw [List.forall₂_map_left_iff, List.forall₂_map_right_iff, List.forall₂_same]
      rintro ⟨c, rest⟩ hx
      obtain ⟨hperm, hsub⟩ := selections_spec hx
      have hc : c ∈ cs := hperm.subset List.mem_cons_self
      refine .andThen (hone p List.mem_cons_self c hc s) (fun t _ _ => ?_) honce.apart
      exact ih (fun q hq d hd => hone q (List.mem_cons_of_mem p hq) d (hsub.subset hd)) honce.right

theorem ones_eq_of_echoes (h : List.Forall₂ (ElementEchoes k k' r names) es es') :
    Element.ones es' = Element.ones es := by
  induction h with
  | nil => rfl
  | cons he _ ih => cases he <;> simp only [Element.ones, ih]

theorem runs_echo (h : List.Forall₂ (ElementEchoes k k' r names) es es') :
    List.Forall₂ (fun w w' => RunEchoes k k' r (names (.run w)) w w') (Element.runs es)
      (Element.runs es') := by
  induction h with
  | nil => exact .nil
  | cons he _ ih =>
      cases he with
      | one => exact ih
      | run hrun => exact .cons hrun ih

theorem anyOrder_echoes (h : List.Forall₂ (ElementEchoes k k' r names) es es')
    (hone : ∀ p, .one p ∈ es → ∀ c ∈ cs, ∀ s,
      Echoes r (names (.one p)) s (k.one p c) (k'.one p c))
    (honce : r.Once (es.flatMap names)) (offset : Nat) :
    Echoes r (es.flatMap names) s (k.anyOrder offset es cs) (k'.anyOrder offset es' cs) := by
  have hperm := Element.perm_ones_runs names es
  have hempty : es'.isEmpty = es.isEmpty := by cases h <;> rfl
  simp only [anyOrder, hempty, ones_eq_of_echoes h]
  split
  · exact .test r _ s true
  · have hpairs : Echoes r _ s (k.pairUp offset (Element.runs es) (Element.ones es) cs)
        (k'.pairUp offset (Element.runs es') (Element.ones es) cs) :=
      pairUp_echoes (fun p hp => hone p (Element.mem_ones.mp hp)) (runs_echo h)
        (honce.of_perm hperm) offset
    exact hpairs.mono hperm.subset

end AnyOrder

end Comparison

end ShapeSearch
