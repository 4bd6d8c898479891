import Mathlib.Data.List.Forall2
import ShapeSearch.Matching.Lists
import ShapeSearch.Proofs.Attempt
import ShapeSearch.Proofs.Relation

namespace ShapeSearch

namespace Element

variable {P W : Type}

theorem mem_ones {es : List (Element P W)} {p : P} : p ∈ ones es ↔ .one p ∈ es := by
  induction es with
  | nil => simp [ones]
  | cons e es ih => cases e <;> simp [ones, ih]

theorem mem_runs {es : List (Element P W)} {w : W} : w ∈ runs es ↔ .run w ∈ es := by
  induction es with
  | nil => simp [runs]
  | cons e es ih => cases e <;> simp [runs, ih]

theorem ones_map_one (ps : List P) : ones (ps.map (one : P → Element P W)) = ps := by
  induction ps with
  | nil => rfl
  | cons p ps ih => rw [List.map_cons, ones, ih]

theorem runs_map_one (ps : List P) : runs (ps.map (one : P → Element P W)) = [] := by
  induction ps with
  | nil => rfl
  | cons p ps ih => rw [List.map_cons, runs, ih]

variable {P' : Type}

def map (f : P → P') : Element P W → Element P' W
  | one p => one (f p)
  | run w => run w

theorem map_id' (e : Element P W) : e.map id = e := by
  cases e <;> rfl

theorem ones_map (f : P → P') (es : List (Element P W)) :
    ones (es.map (map f)) = (ones es).map f := by
  induction es with
  | nil => rfl
  | cons e es ih => cases e <;> simp [map, ones, ih]

theorem runs_map (f : P → P') (es : List (Element P W)) : runs (es.map (map f)) = runs es := by
  induction es with
  | nil => rfl
  | cons e es ih => cases e <;> simp [map, runs, ih]

end Element

namespace Comparison

open Attempt

variable {P W C σ α : Type}

/-- What a run becomes that takes in some of the candidates `cs`. -/
def TakesIn (cs : List C) (x y : W × List C) : Prop :=
  x.1 = y.1 ∧ ∃ taken, taken.Sublist cs ∧ y.2 = x.2 ++ taken

theorem TakesIn.refl (cs : List C) (x : W × List C) : TakesIn cs x x :=
  ⟨rfl, [], List.nil_sublist cs, by simp⟩

theorem TakesIn.trans {c : C} {cs : List C} {x y z : W × List C} (hxy : TakesIn [c] x y)
    (hyz : TakesIn cs y z) : TakesIn (c :: cs) x z := by
  obtain ⟨hxy, taken, hc, hy⟩ := hxy
  obtain ⟨hyz, taken', hcs, hz⟩ := hyz
  exact ⟨hxy.trans hyz, taken ++ taken', hc.append hcs, by rw [hz, hy, List.append_assoc]⟩

theorem forall₂_takesIn_trans {c : C} {cs : List C} {xs ys zs : List (W × List C)}
    (hxy : List.Forall₂ (TakesIn [c]) xs ys) (hyz : List.Forall₂ (TakesIn cs) ys zs) :
    List.Forall₂ (TakesIn (c :: cs)) xs zs := by
  induction hxy generalizing zs with
  | nil => cases hyz; exact .nil
  | cons h _ ih =>
      cases hyz with
      | cons h' hs => exact .cons (h.trans h') (ih hs)

theorem forall₂_exists_left {β γ : Type} {r : β → γ → Prop} {xs : List β} {ys : List γ}
    (h : List.Forall₂ r xs ys) (y : γ) (hy : y ∈ ys) : ∃ x ∈ xs, r x y := by
  induction h with
  | nil => simp at hy
  | cons hxy _ ih =>
      rcases List.mem_cons.mp hy with rfl | hy
      · exact ⟨_, List.mem_cons_self, hxy⟩
      · obtain ⟨x, hx, hxy⟩ := ih hy
        exact ⟨x, List.mem_cons_of_mem _ hx, hxy⟩

theorem forall₂_imp_of_mem {β γ : Type} {r r' : β → γ → Prop} {xs : List β} {ys : List γ}
    (h : List.Forall₂ r xs ys) (himp : ∀ x ∈ xs, ∀ y ∈ ys, r x y → r' x y) :
    List.Forall₂ r' xs ys := by
  induction h with
  | nil => exact .nil
  | cons hxy _ ih =>
      refine .cons (himp _ List.mem_cons_self _ List.mem_cons_self hxy) (ih fun x hx y hy => ?_)
      exact himp x (List.mem_cons_of_mem _ hx) y (List.mem_cons_of_mem _ hy)

theorem placements_spec (k : Comparison P W C σ) (c : C) {runs next : List (W × List C)}
    (h : next ∈ k.placements c runs) :
    List.Forall₂ (TakesIn [c]) runs next ∧
      (next.flatMap (·.2)).Perm (runs.flatMap (·.2) ++ [c]) := by
  induction runs generalizing next with
  | nil => simp [placements] at h
  | cons x runs ih =>
      obtain ⟨w, taken⟩ := x
      simp only [placements, List.mem_append, List.mem_map] at h
      rcases h with h | ⟨rest, hrest, rfl⟩
      · split at h
        · rw [List.mem_singleton] at h
          subst h
          refine ⟨.cons ⟨rfl, [c], List.Sublist.refl _, rfl⟩ ?_, ?_⟩
          · exact List.forall₂_same.mpr fun y _ => .refl _ y
          · simp only [List.flatMap_cons, List.append_assoc]
            exact List.perm_append_comm.append_left taken
        · simp at h
      · obtain ⟨htakes, hperm⟩ := ih hrest
        refine ⟨.cons (.refl _ _) htakes, ?_⟩
        simp only [List.flatMap_cons, List.append_assoc]
        exact hperm.append_left taken

theorem map_fst_placements {k : Comparison P W C σ} {c : C} {runs next : List (W × List C)}
    (h : next ∈ k.placements c runs) : next.map Prod.fst = runs.map Prod.fst := by
  have hs := (placements_spec k c h).1
  clear h
  induction hs with
  | nil => rfl
  | cons hx _ ih => rw [List.map_cons, List.map_cons, hx.1, ih]

theorem selections_spec {c : C} {cs rest : List C} (h : (c, rest) ∈ selections cs) :
    (c :: rest).Perm cs ∧ rest.Sublist cs := by
  induction cs generalizing c rest with
  | nil => simp [selections] at h
  | cons d cs ih =>
      simp only [selections, List.mem_cons, Prod.mk.injEq, List.mem_map] at h
      rcases h with ⟨rfl, rfl⟩ | ⟨⟨c', rest'⟩, h, rfl, rfl⟩
      · exact ⟨.refl _, List.sublist_cons_self _ _⟩
      · obtain ⟨hperm, hsub⟩ := ih h
        exact ⟨(List.Perm.swap d c' rest').trans (hperm.cons d), hsub.cons_cons d⟩

theorem eq_of_selections {cs : List C} {x y : C × List C} (hx : x ∈ selections cs)
    (hy : y ∈ selections cs) (hrest : x.2.isEmpty = true) (hrest' : y.2.isEmpty = true) : x = y := by
  obtain ⟨c, rest⟩ := x
  obtain ⟨d, rest'⟩ := y
  obtain rfl : rest = [] := List.isEmpty_iff.mp hrest
  obtain rfl : rest' = [] := List.isEmpty_iff.mp hrest'
  have hperm := (selections_spec hx).1.trans (selections_spec hy).1.symm
  rw [List.singleton_perm_singleton.mp hperm]

theorem selections_map {C' : Type} (g : C → C') (cs : List C) :
    selections (cs.map g) = (selections cs).map fun x => (g x.1, x.2.map g) := by
  induction cs with
  | nil => rfl
  | cons c cs ih => simp [selections, ih, Function.comp_def]

section Unchanged

variable {k : Comparison P W C σ} {ps : List P} {cs : List C} {s : σ}

/-- The first selection takes the first candidate, so that each pattern is paired with the candidate
at its place before any other pairing is tried. -/
theorem pairUp_unchanged (h : List.Forall₂ (fun p c => k.one p c s = (true, s)) ps cs)
    (offset : Nat) : k.pairUp offset [] ps cs s = (true, s) := by
  induction h with
  | nil => rfl
  | @cons p c ps cs hc _ ih =>
      have hfirst : (k.one p c).andThen (k.pairUp offset [] ps cs) s = (true, s) := by
        rw [andThen_apply, hc]
        exact ih
      simp only [pairUp, selections, List.map_cons, firstOf_cons, hfirst, if_true]

theorem anyOrder_unchanged (h : List.Forall₂ (fun p c => k.one p c s = (true, s)) ps cs)
    (offset : Nat) : k.anyOrder offset (ps.map .one) cs s = (true, s) := by
  rw [anyOrder, Element.runs_map_one, Element.ones_map_one]
  split
  · rfl
  · exact pairUp_unchanged h offset

end Unchanged

section Images

variable {P' C' : Type} {r : Attempt σ → Attempt σ → Prop} {k : Comparison P W C σ}
  {k' : Comparison P' W C' σ} {f : P → P'} {g : C → C'} {move : Nat → Nat} {S : C → Prop}

/-- The second comparison sees the images of the candidates in `S` as the first sees the candidates,
but for where they stand. -/
structure Images (k : Comparison P W C σ) (k' : Comparison P' W C' σ) (g : C → C')
    (move : Nat → Nat) (S : C → Prop) : Prop where
  quantifier : k'.quantifier = k.quantifier
  takes {c : C} (hc : S c) (w : W) : k'.takes w (g c) = k.takes w c
  start {c : C} (hc : S c) : k'.start (g c) = move (k.start c)

theorem Images.refl (k : Comparison P W C σ) : Images k k id id fun _ => True :=
  ⟨rfl, fun _ _ => rfl, fun _ => rfl⟩

theorem Images.anchor (hk : Images k k' g move S) (fallback : Nat) {cs : List C}
    (hcs : ∀ c ∈ cs, S c) :
    k'.anchor (move fallback) (cs.map g) = move (k.anchor fallback cs) := by
  cases cs with
  | nil => rfl
  | cons c cs => exact hk.start (hcs c List.mem_cons_self)

theorem Images.placements (hk : Images k k' g move S) {c : C} (hc : S c) (runs : List (W × List C)) :
    k'.placements (g c) (runs.map fun x => (x.1, x.2.map g)) =
      (k.placements c runs).map (·.map fun x => (x.1, x.2.map g)) := by
  induction runs with
  | nil => rfl
  | cons x runs ih =>
      obtain ⟨w, taken⟩ := x
      simp only [List.map_cons, Comparison.placements, hk.quantifier, hk.takes hc, ih,
        List.length_map, List.map_append, List.map_map]
      split <;> simp

variable (h : Congruence r) (hk : Images k k' g move S)

include h hk

theorem inOrder_images (fallback : Nat) {es : List (Element P W)} {cs : List C}
    (hcs : ∀ c ∈ cs, S c) (hone : ∀ p, .one p ∈ es → ∀ c ∈ cs, r (k.one p c) (k'.one (f p) (g c)))
    (hrun : ∀ w, .run w ∈ es → ∀ rest, rest <:+ cs → ∀ n,
      r (k.run w (rest.take n) (k.anchor fallback rest))
        (k'.run w ((rest.take n).map g) (move (k.anchor fallback rest)))) :
    r (k.inOrder fallback es cs)
      (k'.inOrder (move fallback) (es.map (Element.map f)) (cs.map g)) := by
  induction es generalizing cs with
  | nil => simpa only [inOrder, List.map_nil, List.isEmpty_map] using h.test _
  | cons e es ih =>
      have ih' {rest : List C} (hrest : rest <:+ cs) := ih (fun c hc => hcs c (hrest.subset hc))
        (fun p hp c hc => hone p (List.mem_cons_of_mem e hp) c (hrest.subset hc))
        (fun w hw rest' hrest' => hrun w (List.mem_cons_of_mem e hw) rest' (hrest'.trans hrest))
      cases e with
      | one p =>
          cases cs with
          | nil => exact h.fail
          | cons c cs =>
              have hc := hone p List.mem_cons_self c List.mem_cons_self
              exact h.firstOf (.cons (h.andThen hc (ih' (List.suffix_cons c cs))) .nil)
      | run w =>
          simp only [List.map_cons, Element.map, inOrder, hk.quantifier, hk.anchor fallback hcs,
            List.length_map, ← List.map_take, ← List.map_drop]
          apply h.firstOf
          rw [List.forall₂_map_left_iff, List.forall₂_map_right_iff, List.forall₂_same]
          intro n _
          exact h.andThen (hrun w List.mem_cons_self cs List.suffix_rfl n)
            (ih' (List.drop_suffix n cs))

theorem share_images (offset : Nat) {cs : List C} {runs : List (W × List C)}
    (hcs : ∀ c ∈ cs, S c) (hrun : ∀ x ∈ runs, ∀ taken, taken.Sublist cs →
      r (k.run x.1 (x.2 ++ taken) offset) (k'.run x.1 ((x.2 ++ taken).map g) (move offset))) :
    r (k.share offset cs runs)
      (k'.share (move offset) (cs.map g) (runs.map fun x => (x.1, x.2.map g))) := by
  induction cs generalizing runs with
  | nil =>
      refine h.firstOf (.cons (h.all ?_) .nil)
      rw [List.map_map, List.forall₂_map_left_iff, List.forall₂_map_right_iff, List.forall₂_same]
      intro x hx
      simpa using hrun x hx [] (List.nil_sublist _)
  | cons c cs ih =>
      simp only [List.map_cons, share, hk.placements (hcs c List.mem_cons_self), List.map_map]
      apply h.firstOf
      rw [List.forall₂_map_left_iff, List.forall₂_map_right_iff, List.forall₂_same]
      intro next hnext
      apply ih fun d hd => hcs d (List.mem_cons_of_mem c hd)
      intro y hy taken htaken
      obtain ⟨x, hx, hxy, before, hbefore, hy2⟩ :=
        forall₂_exists_left (placements_spec k c hnext).1 y hy
      rw [← hxy, hy2, List.append_assoc]
      exact hrun x hx (before ++ taken) (hbefore.append htaken)

theorem pairUp_images (offset : Nat) {ws : List W} {ps : List P} {cs : List C}
    (hcs : ∀ c ∈ cs, S c) (hone : ∀ p ∈ ps, ∀ c ∈ cs, r (k.one p c) (k'.one (f p) (g c)))
    (hrun : ∀ w ∈ ws, ∀ taken, taken.Sublist cs →
      r (k.run w taken offset) (k'.run w (taken.map g) (move offset))) :
    r (k.pairUp offset ws ps cs) (k'.pairUp (move offset) ws (ps.map f) (cs.map g)) := by
  induction ps generalizing cs with
  | nil =>
      simp only [List.map_nil, pairUp]
      split
      · simpa only [List.isEmpty_map] using h.test _
      · have hruns : ∀ x ∈ ws.map (·, ([] : List C)), ∀ taken, taken.Sublist cs →
            r (k.run x.1 (x.2 ++ taken) offset)
              (k'.run x.1 ((x.2 ++ taken).map g) (move offset)) := by
          intro x hx taken htaken
          obtain ⟨w, hw, rfl⟩ := List.mem_map.mp hx
          exact hrun w hw taken htaken
        have hshare := share_images h hk offset hcs hruns
        simpa only [List.map_map, Function.comp_def, List.map_nil] using hshare
  | cons p ps ih =>
      simp only [List.map_cons, pairUp, selections_map, List.map_map]
      apply h.firstOf
      rw [List.forall₂_map_left_iff, List.forall₂_map_right_iff, List.forall₂_same]
      rintro ⟨c, rest⟩ hx
      obtain ⟨hperm, hsub⟩ := selections_spec hx
      refine h.andThen (hone p List.mem_cons_self c (hperm.subset List.mem_cons_self))
        (ih (fun d hd => hcs d (hsub.subset hd)) ?_ ?_)
      · exact fun q hq d hd => hone q (List.mem_cons_of_mem p hq) d (hsub.subset hd)
      · exact fun w hw taken htaken => hrun w hw taken (htaken.trans hsub)

theorem anyOrder_images (offset : Nat) {es : List (Element P W)} {cs : List C}
    (hcs : ∀ c ∈ cs, S c) (hone : ∀ p, .one p ∈ es → ∀ c ∈ cs, r (k.one p c) (k'.one (f p) (g c)))
    (hrun : ∀ w, .run w ∈ es → ∀ taken, taken.Sublist cs →
      r (k.run w taken offset) (k'.run w (taken.map g) (move offset))) :
    r (k.anyOrder offset es cs)
      (k'.anyOrder (move offset) (es.map (Element.map f)) (cs.map g)) := by
  simp only [anyOrder, List.isEmpty_map, Element.ones_map, Element.runs_map]
  split
  · exact h.succeed
  · apply pairUp_images h hk offset hcs
    · exact fun p hp => hone p (Element.mem_ones.mp hp)
    · exact fun w hw => hrun w (Element.mem_runs.mp hw)

end Images

section Sound

variable {k : Comparison P W C (List α)} {e : List α}

theorem inOrder_grows (hone : ∀ p c, (k.one p c).Grows)
    (hrun : ∀ w cs offset, (k.run w cs offset).Grows) (fallback : Nat) (es : List (Element P W))
    (cs : List C) : (k.inOrder fallback es cs).Grows :=
  inOrder_images grows_congruence (.refl k) (f := id) fallback (fun _ _ => trivial)
    (fun p _ c _ => hone p c)
    (fun w _ _ _ _ => hrun w _ _)

theorem anyOrder_grows (hone : ∀ p c, (k.one p c).Grows)
    (hrun : ∀ w cs offset, (k.run w cs offset).Grows) (offset : Nat) (es : List (Element P W))
    (cs : List C) : (k.anyOrder offset es cs).Grows :=
  anyOrder_images grows_congruence (.refl k) (f := id) offset (fun _ _ => trivial)
    (fun p _ c _ => hone p c)
    (fun w _ taken _ => hrun w taken offset)

theorem pairUp_grows (hone : ∀ p c, (k.one p c).Grows)
    (hrun : ∀ w cs offset, (k.run w cs offset).Grows) (offset : Nat) (ws : List W) (ps : List P)
    (cs : List C) : (k.pairUp offset ws ps cs).Grows :=
  pairUp_images grows_congruence (.refl k) (f := id) offset (fun _ _ => trivial)
    (fun p _ c _ => hone p c)
    (fun w _ taken _ => hrun w taken offset)

theorem inOrder_sound (hone : ∀ p c, (k.one p c).Grows)
    (hrun : ∀ w cs offset, (k.run w cs offset).Grows) {fallback : Nat} {es : List (Element P W)}
    {cs : List C} (h : (k.inOrder fallback es cs).Accepts e) :
    HoldInOrder (fun p c => (k.one p c).Accepts e)
      (fun w cs => ∃ offset, (k.run w cs offset).Accepts e) es cs := by
  induction es generalizing cs with
  | nil =>
      obtain rfl : cs = [] := List.isEmpty_iff.mp h.test
      exact .nil
  | cons x es ih =>
      have hgrows := inOrder_grows hone hrun fallback es
      cases x with
      | one p =>
          cases cs with
          | nil => exact absurd h.test (by simp)
          | cons c cs =>
              obtain ⟨a, ha, h⟩ := h.firstOf
              rw [List.mem_singleton] at ha
              subst ha
              obtain ⟨hp, hes⟩ := h.andThen (hgrows cs)
              exact .cons_one hp (ih hes)
      | run w =>
          obtain ⟨a, ha, h⟩ := h.firstOf
          obtain ⟨n, -, rfl⟩ := List.mem_map.mp ha
          obtain ⟨hw, hes⟩ := h.andThen (hgrows _)
          rw [← List.take_append_drop n cs]
          exact .cons_run ⟨_, hw⟩ (ih hes)

theorem share_sound (hrun : ∀ w cs offset, (k.run w cs offset).Grows) {offset : Nat} {cs : List C}
    {runs : List (W × List C)} (h : (k.share offset cs runs).Accepts e) :
    ∃ filled, List.Forall₂ (TakesIn cs) runs filled ∧
      (filled.flatMap (·.2)).Perm (runs.flatMap (·.2) ++ cs) ∧
        ∀ x ∈ filled, (k.run x.1 x.2 offset).Accepts e := by
  induction cs generalizing runs with
  | nil =>
      obtain ⟨a, ha, h⟩ := h.firstOf
      rw [List.mem_singleton] at ha
      subst ha
      refine ⟨runs, List.forall₂_same.mpr fun x _ => .refl [] x, by rw [List.append_nil], ?_⟩
      intro x hx
      refine h.all ?_ _ (List.mem_map_of_mem hx)
      intro a ha
      obtain ⟨y, -, rfl⟩ := List.mem_map.mp ha
      exact hrun _ _ _
  | cons c cs ih =>
      obtain ⟨a, ha, h⟩ := h.firstOf
      obtain ⟨next, hnext, rfl⟩ := List.mem_map.mp ha
      obtain ⟨htakes, hperm⟩ := placements_spec k c hnext
      obtain ⟨filled, hfilled, hflat, haccepts⟩ := ih h
      refine ⟨filled, forall₂_takesIn_trans htakes hfilled, ?_, haccepts⟩
      have hcs : (next.flatMap (·.2) ++ cs).Perm (runs.flatMap (·.2) ++ [c] ++ cs) :=
        hperm.append_right cs
      rw [List.append_assoc, List.singleton_append] at hcs
      exact hflat.trans hcs

/-- The partners of the patterns and what each wildcard takes make up the candidates. -/
structure SharedOut (k : Comparison P W C (List α)) (offset : Nat) (e : List α) (ws : List W)
    (ps : List P) (cs partners : List C) (taken : List (List C)) : Prop where
  perm : (partners ++ taken.flatten).Perm cs
  sublist : ∀ t ∈ taken, t.Sublist cs
  ones : List.Forall₂ (fun p c => (k.one p c).Accepts e) ps partners
  runs : List.Forall₂ (fun w t => (k.run w t offset).Accepts e) ws taken

theorem sharedOut_of_share (hrun : ∀ w cs offset, (k.run w cs offset).Grows) {offset : Nat}
    {ws : List W} {cs : List C} (h : (k.share offset cs (ws.map (·, []))).Accepts e) :
    ∃ taken, SharedOut k offset e ws [] cs [] taken := by
  obtain ⟨filled, hfilled, hperm, haccepts⟩ := share_sound hrun h
  rw [List.forall₂_map_left_iff] at hfilled
  refine ⟨filled.map (·.2), ?_, ?_, .nil, ?_⟩
  · simpa [List.flatMap_def, List.map_map, Function.comp_def] using hperm
  · intro t ht
    obtain ⟨x, hx, rfl⟩ := List.mem_map.mp ht
    obtain ⟨w, -, -, t, htcs, hxt⟩ := forall₂_exists_left hfilled x hx
    rwa [hxt, List.nil_append]
  · rw [List.forall₂_map_right_iff]
    clear h hperm
    induction hfilled with
    | nil => exact .nil
    | @cons w x _ _ hx _ ih =>
        have hw : w = x.1 := hx.1
        refine .cons ?_ (ih fun y hy => haccepts y (List.mem_cons_of_mem _ hy))
        rw [hw]
        exact haccepts x List.mem_cons_self

theorem pairUp_sound (hone : ∀ p c, (k.one p c).Grows)
    (hrun : ∀ w cs offset, (k.run w cs offset).Grows) {offset : Nat} {ws : List W} {ps : List P}
    {cs : List C} (h : (k.pairUp offset ws ps cs).Accepts e) :
    ∃ partners taken, SharedOut k offset e ws ps cs partners taken := by
  induction ps generalizing cs with
  | nil =>
      simp only [pairUp] at h
      split at h
      next hws =>
        rw [List.isEmpty_iff] at hws
        subst hws
        have hcs : cs = [] := List.isEmpty_iff.mp h.test
        exact ⟨[], [], by rw [hcs]; rfl, by simp, .nil, .nil⟩
      next => exact ⟨[], sharedOut_of_share hrun h⟩
  | cons p ps ih =>
      obtain ⟨a, ha, h⟩ := h.firstOf
      obtain ⟨⟨c, rest⟩, hsel, rfl⟩ := List.mem_map.mp ha
      obtain ⟨hperm, hsub⟩ := selections_spec hsel
      obtain ⟨hp, hps⟩ := h.andThen (pairUp_grows hone hrun offset ws ps rest)
      obtain ⟨partners, taken, hs⟩ := ih hps
      refine ⟨c :: partners, taken, ?_, fun t ht => (hs.sublist t ht).trans hsub,
        .cons hp hs.ones, hs.runs⟩
      rw [List.cons_append]
      exact (hs.perm.cons c).trans hperm

theorem exists_runs_of_sharedOut {one : P → C → Prop} {run : W → List C → Prop}
    {es : List (Element P W)} {partners : List C} {taken : List (List C)}
    (hone : List.Forall₂ one (Element.ones es) partners)
    (hrun : List.Forall₂ run (Element.runs es) taken) :
    ∃ runs : List (List C), runs.flatten.Perm (partners ++ taken.flatten) ∧
      (∀ r ∈ runs, r ∈ taken ∨ ∃ c ∈ partners, r = [c]) ∧
        List.Forall₂ (Element.Holds one run) es runs := by
  induction es generalizing partners taken with
  | nil =>
      cases hone
      cases hrun
      exact ⟨[], .refl _, by simp, .nil⟩
  | cons x es ih =>
      cases x with
      | one p =>
          cases hone with
          | @cons _ c _ partners hp hone =>
              obtain ⟨runs, hperm, hmem, hholds⟩ := ih hone hrun
              refine ⟨[c] :: runs, hperm.cons c, ?_, .cons ⟨c, rfl, hp⟩ hholds⟩
              intro r hr
              rcases List.mem_cons.mp hr with rfl | hr
              · exact .inr ⟨c, List.mem_cons_self, rfl⟩
              · rcases hmem r hr with h | ⟨d, hd, rfl⟩
                · exact .inl h
                · exact .inr ⟨d, List.mem_cons_of_mem c hd, rfl⟩
      | run w =>
          cases hrun with
          | @cons _ t _ taken hw hrun =>
              obtain ⟨runs, hperm, hmem, hholds⟩ := ih hone hrun
              refine ⟨t :: runs, ?_, ?_, .cons hw hholds⟩
              · rw [List.flatten_cons, List.flatten_cons]
                have hswap : (t ++ (partners ++ taken.flatten)).Perm
                    (partners ++ (t ++ taken.flatten)) := by
                  rw [← List.append_assoc, ← List.append_assoc]
                  exact List.perm_append_comm.append_right _
                exact (hperm.append_left t).trans hswap
              · intro r hr
                rcases List.mem_cons.mp hr with rfl | hr
                · exact .inl List.mem_cons_self
                · exact (hmem r hr).imp_left (List.mem_cons_of_mem t)

theorem anyOrder_sound (hone : ∀ p c, (k.one p c).Grows)
    (hrun : ∀ w cs offset, (k.run w cs offset).Grows) {offset : Nat} {es : List (Element P W)}
    {cs : List C} (h : (k.anyOrder offset es cs).Accepts e) :
    HoldInAnyOrder (fun p c => (k.one p c).Accepts e)
      (fun w cs => ∃ offset, (k.run w cs offset).Accepts e) es cs := by
  simp only [anyOrder] at h
  split at h
  next hes => exact .inl (List.isEmpty_iff.mp hes)
  next =>
    obtain ⟨partners, taken, hs⟩ := pairUp_sound hone hrun h
    have hruns := hs.runs.imp (S := fun w t => ∃ offset, (k.run w t offset).Accepts e)
      fun _ _ hw => ⟨offset, hw⟩
    obtain ⟨runs, hperm, hmem, hholds⟩ := exists_runs_of_sharedOut hs.ones hruns
    refine .inr ⟨runs, hperm.trans hs.perm, ?_, hholds⟩
    intro r hr
    rcases hmem r hr with ht | ⟨c, hc, rfl⟩
    · exact hs.sublist r ht
    · exact List.singleton_sublist.mpr (hs.perm.subset (List.mem_append_left _ hc))

end Sound

end Comparison

end ShapeSearch
