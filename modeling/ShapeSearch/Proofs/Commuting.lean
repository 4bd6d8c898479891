import ShapeSearch.Proofs.Choices

namespace ShapeSearch

/-- What later bindings of the same name are compared with. -/
def Binding.content : Binding → (String × Text) ⊕ List Text
  | .single f => .inl (f.label.kind, f.text)
  | .multiple fs _ _ _ => .inr (fs.map (·.text))

theorem Binding.agrees_iff {a b : Binding} : a.agrees b = true ↔ a.content = b.content := by
  cases a <;> cases b <;> simp [agrees, content]

namespace Captures

/-- The same names are bound, and no later binding can tell the difference. -/
def Equivalent (s t : Captures) : Prop :=
  ∀ n, (s.lookup n).map Binding.content = (t.lookup n).map Binding.content

namespace Equivalent

variable {s t u : Captures}

theorem refl (s : Captures) : Equivalent s s := fun _ => rfl

theorem symm (h : Equivalent s t) : Equivalent t s := fun n => (h n).symm

theorem trans (h : Equivalent s t) (h' : Equivalent t u) : Equivalent s u :=
  fun n => (h n).trans (h' n)

theorem of_lookup (h : ∀ n, s.lookup n = t.lookup n) : Equivalent s t :=
  fun n => congrArg _ (h n)

end Equivalent

section Bind

variable {name : Text} {b : Binding} {s : Captures}

theorem bind_succeeds_iff (hname : name ≠ []) :
    (bind name b s).1 = true ↔ ∀ a, s.lookup name = some a → a.content = b.content := by
  have hempty : name.isEmpty = false := by simpa using hname
  simp only [bind, hempty, Bool.false_eq_true, if_false]
  cases s.lookup name with
  | none => simp
  | some a => simp [Binding.agrees_iff]

theorem lookup_bind (hname : name ≠ []) :
    (bind name b s).2.lookup name = (s.lookup name).or (some b) := by
  have hempty : name.isEmpty = false := by simpa using hname
  simp only [bind, hempty, Bool.false_eq_true, if_false]
  cases hs : s.lookup name with
  | none => simp [List.lookup_append, hs]
  | some a => simp [hs]

theorem lookup_bind_of_ne {n : Text} (hn : n ≠ name) : (bind name b s).2.lookup n = s.lookup n := by
  have hconfined : Attempt.Confined [name] (bind name b) :=
    .bind (fun _ => List.mem_singleton_self name) b
  exact hconfined.frame s (by simpa using hn)

end Bind

end Captures

namespace Attempt

open Captures

variable {a b c : Attempt Captures} {ns ms : List Text}

/-- Equivalent bindings lead to equivalent bindings. -/
structure Respects (a : Attempt Captures) : Prop where
  result {s t : Captures} (h : Equivalent s t) : (a s).1 = (a t).1
  bindings {s t : Captures} (h : Equivalent s t) : Equivalent (a s).2 (a t).2

namespace Respects

theorem eq_true (ha : Respects a) {s t u : Captures} (h : Equivalent s t) (hs : a s = (true, u)) :
    ∃ v, a t = (true, v) ∧ Equivalent u v := by
  have hresult := ha.result h
  have hbindings := ha.bindings h
  rw [hs] at hresult hbindings
  exact ⟨(a t).2, Prod.ext hresult.symm rfl, hbindings⟩

theorem test (v : Bool) : Respects (test v) := ⟨fun _ => rfl, fun h => h⟩

theorem andThen (ha : Respects a) (hb : Respects b) : Respects (andThen a b) where
  result {s t} h := by
    rw [andThen_apply, andThen_apply, ha.result h]
    split
    · exact hb.result (ha.bindings h)
    · exact ha.result h
  bindings {s t} h := by
    rw [andThen_apply, andThen_apply, ha.result h]
    split
    · exact hb.bindings (ha.bindings h)
    · exact ha.bindings h

theorem firstOf {as : List (Attempt Captures)} (h : ∀ a ∈ as, Respects a) :
    Respects (firstOf as) := by
  induction as with
  | nil => exact test false
  | cons a as ih =>
      have ha := h a List.mem_cons_self
      have has := ih fun b hb => h b (List.mem_cons_of_mem a hb)
      constructor
      · intro s t hst
        rw [firstOf_cons, firstOf_cons, ha.result hst]
        split
        · exact ha.result hst
        · exact has.result hst
      · intro s t hst
        rw [firstOf_cons, firstOf_cons, ha.result hst]
        split
        · exact ha.bindings hst
        · exact has.bindings hst

theorem congruence : Congruence fun a _ => Respects a where
  test := test
  andThen := andThen
  firstOf h := firstOf (forall_mem_of_forall₂ h)

theorem all {as : List (Attempt Captures)} (h : ∀ a ∈ as, Respects a) : Respects (all as) :=
  congruence.all (List.forall₂_same.mpr h)

theorem bind (name : Text) (b : Binding) : Respects (Captures.bind name b) := by
  by_cases hname : name = []
  · subst hname
    exact test true
  · constructor
    · intro s t h
      have hn := h name
      rw [Bool.eq_iff_iff, bind_succeeds_iff hname, bind_succeeds_iff hname]
      cases hs : s.lookup name <;> cases ht : t.lookup name <;> simp_all
    · intro s t h n
      by_cases hn : n = name
      · subst hn
        have heq := h n
        rw [lookup_bind hname, lookup_bind hname]
        cases hs : s.lookup n <;> cases ht : t.lookup n <;> simp_all
      · rw [lookup_bind_of_ne hn, lookup_bind_of_ne hn]
        exact h n

end Respects

/-- What succeeds with `a` first succeeds with `b` first. -/
def Swaps (a b : Attempt Captures) : Prop :=
  ∀ s t u, a s = (true, t) → b t = (true, u) →
    ∃ v w, b s = (true, v) ∧ a v = (true, w) ∧ Equivalent w u

namespace Swaps

theorem test_left (v : Bool) (b : Attempt Captures) : Swaps (test v) b := by
  intro s t u ha hb
  obtain ⟨rfl, rfl⟩ := Prod.mk.injEq .. ▸ ha
  exact ⟨u, u, hb, rfl, .refl u⟩

theorem test_right (a : Attempt Captures) (v : Bool) : Swaps a (test v) := by
  intro s t u ha hb
  obtain ⟨rfl, rfl⟩ := Prod.mk.injEq .. ▸ hb
  exact ⟨s, t, rfl, ha, .refl t⟩

theorem andThen_left (hc : Respects c) (ha : Swaps a b) (hcb : Swaps c b) :
    Swaps (andThen a c) b := by
  intro s t u hac hb
  obtain ⟨r, ha', hc'⟩ := andThen_eq_true hac
  obtain ⟨r', t', hb', hct, ht⟩ := hcb r t u hc' hb
  obtain ⟨v, w, hbs, hav, hw⟩ := ha s r r' ha' hb'
  obtain ⟨x, hcw, hx⟩ := hc.eq_true hw.symm hct
  refine ⟨v, x, hbs, ?_, hx.symm.trans ht⟩
  rw [andThen_apply, hav]
  exact hcw

theorem andThen_right (hc : Respects c) (ha : Swaps b a) (hcb : Swaps b c) :
    Swaps b (andThen a c) := by
  intro s t u hb hac
  obtain ⟨r, ha', hc'⟩ := andThen_eq_true hac
  obtain ⟨v, w, has, hbv, hw⟩ := ha s t r hb ha'
  obtain ⟨x, hcw, hx⟩ := hc.eq_true hw.symm hc'
  obtain ⟨y, z, hcv, hby, hz⟩ := hcb v w x hbv hcw
  refine ⟨y, z, ?_, hby, hz.trans hx.symm⟩
  rw [andThen_apply, has]
  exact hcv

theorem of_disjoint (ha : Confined ns a) (hb : Confined ms b) (h : ns.Disjoint ms) :
    Swaps a b := by
  intro s t u has hbt
  have hst : AgreeOn ms t s := fun n hn => by
    have hframe := ha.frame s fun hn' => h hn' hn
    rwa [has] at hframe
  have hbs := hb.result hst
  have hub := hb.bindings hst
  rw [hbt] at hbs hub
  have hsv : AgreeOn ns s (b s).2 := fun n hn => (hb.frame s fun hn' => h hn hn').symm
  have hav := ha.result hsv
  have hta := ha.bindings hsv
  rw [has] at hav hta
  refine ⟨(b s).2, (a (b s).2).2, Prod.ext hbs.symm rfl, Prod.ext hav.symm rfl,
    .of_lookup fun n => ?_⟩
  by_cases hn : n ∈ ns
  · have hframe := hb.frame t fun hn' => h hn hn'
    rw [hbt] at hframe
    rw [hframe]
    exact (hta n hn).symm
  · rw [ha.frame _ hn]
    by_cases hn' : n ∈ ms
    · exact (hub n hn').symm
    · have hframe := hb.frame t hn'
      have hframe' := ha.frame s hn
      rw [hbt] at hframe
      rw [has] at hframe'
      rw [hb.frame s hn', hframe, hframe']

theorem bind_same {n : Text} (hn : n ≠ []) (c d : Binding) :
    Swaps (Captures.bind n c) (Captures.bind n d) := by
  intro s t u hc hd
  have hc' := (bind_succeeds_iff hn).mp (congrArg Prod.fst hc)
  have hd' := (bind_succeeds_iff hn).mp (congrArg Prod.fst hd)
  have ht : t.lookup n = (s.lookup n).or (some c) := by
    rw [← lookup_bind hn, hc]
  rw [ht] at hd'
  have hds : (Captures.bind n d s).1 = true := by
    refine (bind_succeeds_iff hn).mpr fun a ha => hd' a ?_
    rw [ha, Option.some_or]
  have hcv : (Captures.bind n c (Captures.bind n d s).2).1 = true := by
    refine (bind_succeeds_iff hn).mpr fun a ha => ?_
    rw [lookup_bind hn] at ha
    cases hs : s.lookup n with
    | none =>
        rw [hs, Option.none_or, Option.some.injEq] at ha
        subst ha
        exact (hd' c (by rw [hs, Option.none_or])).symm
    | some x =>
        rw [hs, Option.some_or, Option.some.injEq] at ha
        subst ha
        exact hc' x hs
  refine ⟨_, _, Prod.ext hds rfl, Prod.ext hcv rfl, fun k => ?_⟩
  have hu : u = (Captures.bind n d (Captures.bind n c s).2).2 := by rw [hc, hd]
  rw [hu]
  by_cases hk : k = n
  · subst hk
    simp only [lookup_bind hn]
    cases hs : s.lookup k with
    | none => simpa using (hd' c (by rw [hs, Option.none_or])).symm
    | some x => rfl
  · simp only [lookup_bind_of_ne hk]

theorem bind (n m : Text) (c d : Binding) : Swaps (Captures.bind n c) (Captures.bind m d) := by
  by_cases hn : n = []
  · subst hn
    exact test_left true _
  by_cases hnm : m = n
  · subst hnm
    exact bind_same hn c d
  · have hn : Confined [n] (Captures.bind n c) := .bind (fun _ => List.mem_singleton_self n) c
    have hm : Confined [m] (Captures.bind m d) := .bind (fun _ => List.mem_singleton_self m) d
    exact of_disjoint hn hm (by simpa [List.disjoint_singleton] using hnm)

end Swaps

/-- `a` can be made before or after `b`. -/
structure Commutes (b a : Attempt Captures) : Prop where
  respects : Respects a
  before : Swaps b a
  after : Swaps a b

/-- `b` neither looks at one of these names nor binds it. -/
def Spares (b : Attempt Captures) (ns : List Text) : Prop :=
  ∃ ms, Confined ms b ∧ ns.Disjoint ms

/-- `a` is confined to these names and can be made before or after `b`. -/
structure Trades (b : Attempt Captures) (ns : List Text) (a : Attempt Captures) : Prop
    extends Confined ns a, Commutes b a

namespace Trades

theorem mono (h : Trades b ns a) (hms : ns ⊆ ms) : Trades b ms a :=
  ⟨h.toConfined.mono hms, h.toCommutes⟩

theorem test (b : Attempt Captures) (ns : List Text) (v : Bool) : Trades b ns (test v) :=
  ⟨.test ns v, .test v, .test_right b v, .test_left v b⟩

theorem andThen (ha : Trades b ns a) (hc : Trades b ns c) : Trades b ns (andThen a c) :=
  ⟨ha.toConfined.andThen hc.toConfined, ha.respects.andThen hc.respects,
    .andThen_right hc.respects ha.before hc.before, .andThen_left hc.respects ha.after hc.after⟩

theorem all {as : List (Attempt Captures)} (h : ∀ a ∈ as, Trades b ns a) :
    Trades b ns (all as) := by
  induction as with
  | nil => exact test b ns true
  | cons a as ih =>
      exact (h a List.mem_cons_self).andThen (ih fun c hc => h c (List.mem_cons_of_mem a hc))

theorem of_spares (hb : Spares b ns) (hconfined : Confined ns a) (hrespects : Respects a) :
    Trades b ns a := by
  obtain ⟨ms, hms, hdisjoint⟩ := hb
  exact ⟨hconfined, hrespects, .of_disjoint hms hconfined (List.disjoint_symm hdisjoint),
    .of_disjoint hconfined hms hdisjoint⟩

theorem congruence (hb : Spares b ns) : Congruence fun a _ => Trades b ns a where
  test := test b ns
  andThen := andThen
  firstOf h := by
    have has := forall_mem_of_forall₂ h
    exact of_spares hb (.firstOf fun a ha => (has a ha).toConfined)
      (.firstOf fun a ha => (has a ha).respects)

theorem firstOf {ι : Type} {is : List ι} {f : ι → Attempt Captures}
    (h : ∀ i ∈ is, Trades b ns (f i))
    (hunique : ∀ i ∈ is, ∀ j ∈ is, ∀ s t, (f i s).1 = true → (f j t).1 = true → i = j) :
    Trades b ns (firstOf (is.map f)) := by
  have hof {s t : Captures} (hs : Attempt.firstOf (is.map f) s = (true, t)) :
      ∃ i ∈ is, f i s = (true, t) := by
    obtain ⟨a, ha, has⟩ := firstOf_eq_true hs
    obtain ⟨i, hi, rfl⟩ := List.mem_map.mp ha
    exact ⟨i, hi, has⟩
  have hto {i : ι} (hi : i ∈ is) {s t : Captures} (hs : f i s = (true, t)) :
      Attempt.firstOf (is.map f) s = (true, t) := by
    have hsome : (Attempt.firstOf (is.map f) s).1 = true :=
      firstOf_succeeds_iff.mpr ⟨f i, List.mem_map_of_mem hi, by rw [hs]⟩
    obtain ⟨j, hj, hjs⟩ := hof (Prod.ext hsome rfl)
    obtain rfl := hunique i hi j hj s s (by rw [hs]) (by rw [hjs])
    rw [← hs, hjs]
    exact Prod.ext hsome rfl
  refine ⟨.firstOf fun a ha => ?_, .firstOf fun a ha => ?_, ?_, ?_⟩
  · obtain ⟨i, hi, rfl⟩ := List.mem_map.mp ha
    exact (h i hi).toConfined
  · obtain ⟨i, hi, rfl⟩ := List.mem_map.mp ha
    exact (h i hi).respects
  · intro s t u hs ht
    obtain ⟨i, hi, hit⟩ := hof ht
    obtain ⟨v, w, hv, hw, hwu⟩ := (h i hi).before s t u hs hit
    exact ⟨v, w, hto hi hv, hw, hwu⟩
  · intro s t u hs ht
    obtain ⟨i, hi, his⟩ := hof hs
    obtain ⟨v, w, hv, hw, hwu⟩ := (h i hi).after s t u his ht
    exact ⟨v, w, hv, hto hi hw, hwu⟩

theorem only (h : Trades b ns a) : Trades b ns (Attempt.firstOf [a]) := by
  have hs : ∀ i ∈ [()], Trades b ns ((fun _ => a) i) := fun _ _ => h
  exact firstOf hs fun _ _ _ _ _ _ _ _ => rfl

end Trades

/-- These names can be bound before or after `b`. -/
def Frees (b : Attempt Captures) (ns : List Text) : Prop :=
  ∀ n ∈ ns, ∀ c, Commutes b (Captures.bind n c)

theorem Frees.mono (h : Frees b ns) (hms : ms ⊆ ns) : Frees b ms :=
  fun n hn => h n (hms hn)

end Attempt

open Attempt

namespace Wildcard

variable {w : Wildcard} {b : Attempt Captures}

theorem bind_trades (h : Frees b w.names) (c : Binding) :
    Trades b w.names (Captures.bind w.ofVariable.name c) := by
  refine ⟨w.bind_confined c, ?_⟩
  by_cases hname : w.ofVariable.name = []
  · rw [hname]
    exact (Trades.test b [] true).toCommutes
  · exact h _ (by simp [names, hname]) c

theorem bindOne_trades (h : Frees b w.names) (source : Text) (skipped : Nat) (n : Node) :
    Trades b w.names (w.bindOne source skipped n) := by
  rw [bindOne]
  split
  · exact bind_trades h _
  · exact .test b _ false

theorem bindRun_trades (h : Frees b w.names) (source : Text) (ns : List Node) (offset : Nat) :
    Trades b w.names (w.bindRun source ns offset) := by
  rw [bindRun]
  split
  · exact bind_trades h _
  · exact .test b _ false

end Wildcard

namespace Comparison

variable {P W C : Type} {k : Comparison P W C Captures} {b : Attempt Captures} {ns : List Text}
  {es : List (Element P W)}

theorem inOrder_trades (hone : ∀ p, .one p ∈ es → ∀ c, Trades b ns (k.one p c))
    (hrun : ∀ w, .run w ∈ es → ∀ cs offset, Trades b ns (k.run w cs offset))
    (hchoice : 2 ≤ (Element.runs es).length → Spares b ns) (fallback : Nat) (cs : List C) :
    Trades b ns (k.inOrder fallback es cs) := by
  by_cases hruns : 2 ≤ (Element.runs es).length
  · have himages := inOrder_images (Trades.congruence (hchoice hruns)) (.refl k) (f := id) fallback
      (fun (c : C) (_ : c ∈ cs) => trivial) (fun p hp c _ => hone p hp c)
      (fun w hw _ _ _ => hrun w hw _ _)
    exact himages
  clear hchoice
  induction es generalizing cs with
  | nil => exact .test b ns _
  | cons e es ih =>
      have hone' := fun p hp => hone p (List.mem_cons_of_mem e hp)
      have hrun' := fun w hw => hrun w (List.mem_cons_of_mem e hw)
      cases e with
      | one p =>
          cases cs with
          | nil => exact .test b ns false
          | cons c cs =>
              exact ((hone p List.mem_cons_self c).andThen (ih hone' hrun' cs hruns)).only
      | run w =>
          have hnone : Element.runs es = [] := by
            simp only [Element.runs, List.length_cons] at hruns
            exact List.eq_nil_of_length_eq_zero (by omega)
          have ih' := fun cs => ih hone' hrun' cs (by simp [hnone])
          rw [inOrder]
          refine .firstOf ?_ ?_
          · intro i _
            exact (hrun w List.mem_cons_self _ _).andThen (ih' _)
          · intro i hi j hj s t his hjt
            exact length_unique hnone hi hj (andThen_succeeds_iff.mp his).2
              (andThen_succeeds_iff.mp hjt).2

theorem share_trades {w : W} (h : ∀ cs offset, Trades b ns (k.run w cs offset)) (offset : Nat)
    (taken cs : List C) : Trades b ns (k.share offset cs [(w, taken)]) := by
  induction cs generalizing taken with
  | nil =>
      have hall : Trades b ns (k.bindRuns offset [(w, taken)]) :=
        .all (by simpa using h taken offset)
      exact hall.only
  | cons c cs ih =>
      simp only [share, placements, List.map_nil, List.append_nil]
      split
      · exact (ih (taken ++ [c])).only
      · exact .test b ns false

theorem anyOrder_trades (hone : ∀ p, .one p ∈ es → ∀ c, Trades b ns (k.one p c))
    (hrun : ∀ w, .run w ∈ es → ∀ cs offset, Trades b ns (k.run w cs offset))
    (hchoice : 2 ≤ es.length → Spares b ns) (offset : Nat) (cs : List C) :
    Trades b ns (k.anyOrder offset es cs) := by
  match es with
  | [] => exact .test b ns true
  | [.run w] => exact share_trades (hrun w (List.mem_singleton_self _)) offset [] cs
  | [.one p] =>
      simp only [anyOrder, List.isEmpty_cons, Bool.false_eq_true, if_false, Element.ones,
        Element.runs, pairUp]
      refine .firstOf ?_ ?_
      · intro x _
        exact (hone p (List.mem_singleton_self _) x.1).andThen (.test b ns _)
      · intro x hx y hy s t hs ht
        exact eq_of_selections hx hy (andThen_succeeds_iff.mp hs).2 (andThen_succeeds_iff.mp ht).2
  | e :: f :: es =>
      have himages := anyOrder_images (Trades.congruence (hchoice (by simp))) (.refl k) (f := id)
        offset (fun (c : C) (_ : c ∈ cs) => trivial) (fun p hp c _ => hone p hp c)
        (fun w hw _ _ => hrun w hw _ _)
      exact himages

end Comparison

end ShapeSearch
