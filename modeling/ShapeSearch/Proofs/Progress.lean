import ShapeSearch.Matching.Compare
import ShapeSearch.Proofs.Lists

namespace ShapeSearch

namespace Attempt

variable {σ τ : Type}

/-- A translation of attempts on one state into attempts on another that compound attempts pass on to
their parts. -/
structure Translation (f : Attempt σ → Attempt τ) : Prop where
  test (b : Bool) : f (test b) = test b
  andThen (a b : Attempt σ) : f (andThen a b) = andThen (f a) (f b)
  firstOf (as : List (Attempt σ)) : f (firstOf as) = firstOf (as.map f)

theorem Translation.all {f : Attempt σ → Attempt τ} (hf : Translation f) (as : List (Attempt σ)) :
    f (all as) = Attempt.all (as.map f) := by
  induction as with
  | nil => exact hf.test true
  | cons a as ih => rw [Attempt.all, hf.andThen, ih, List.map_cons, Attempt.all]

end Attempt

namespace Comparison

open Attempt

variable {P W C σ τ : Type} {k : Comparison P W C σ} {f : Attempt σ → Attempt τ}

def translate (f : Attempt σ → Attempt τ) (k : Comparison P W C σ) : Comparison P W C τ where
  one p c := f (k.one p c)
  run w cs offset := f (k.run w cs offset)
  quantifier := k.quantifier
  takes := k.takes
  start := k.start
  stop := k.stop

theorem anchor_translate (fallback : Nat) (cs : List C) :
    (k.translate f).anchor fallback cs = k.anchor fallback cs := by
  cases cs <;> rfl

theorem placements_translate (c : C) (runs : List (W × List C)) :
    (k.translate f).placements c runs = k.placements c runs := by
  induction runs with
  | nil => rfl
  | cons x runs ih => rw [placements, placements, ih]; rfl

variable (hf : Translation f)

include hf

theorem inOrder_translate (fallback : Nat) (es : List (Element P W)) (cs : List C) :
    (k.translate f).inOrder fallback es cs = f (k.inOrder fallback es cs) := by
  induction es generalizing cs with
  | nil => exact (hf.test cs.isEmpty).symm
  | cons e es ih =>
      cases e with
      | one p =>
          cases cs with
          | nil => exact (hf.test false).symm
          | cons c cs =>
              simp only [inOrder, hf.firstOf, List.map_cons, List.map_nil, hf.andThen, ih]
              rfl
      | run w =>
          simp only [inOrder, hf.firstOf, List.map_map, Function.comp_def, hf.andThen, ih,
            anchor_translate]
          rfl

theorem share_translate (offset : Nat) (cs : List C) (runs : List (W × List C)) :
    (k.translate f).share offset cs runs = f (k.share offset cs runs) := by
  induction cs generalizing runs with
  | nil =>
      simp only [share, bindRuns, hf.firstOf, hf.all, List.map_cons, List.map_nil, List.map_map,
        Function.comp_def]
      rfl
  | cons c cs ih =>
      have hshare : (k.translate f).share offset cs = fun runs => f (k.share offset cs runs) :=
        funext ih
      simp only [share, hf.firstOf, List.map_map, Function.comp_def, placements_translate, hshare]

theorem pairUp_translate (offset : Nat) (ws : List W) (ps : List P) (cs : List C) :
    (k.translate f).pairUp offset ws ps cs = f (k.pairUp offset ws ps cs) := by
  induction ps generalizing cs with
  | nil =>
      simp only [pairUp, share_translate hf]
      split
      · exact (hf.test cs.isEmpty).symm
      · rfl
  | cons p ps ih =>
      simp only [pairUp, hf.firstOf, List.map_map, Function.comp_def, hf.andThen, ih]
      rfl

theorem anyOrder_translate (offset : Nat) (es : List (Element P W)) (cs : List C) :
    (k.translate f).anyOrder offset es cs = f (k.anyOrder offset es cs) := by
  simp only [anyOrder, pairUp_translate hf]
  split
  · exact (hf.test true).symm
  · rfl

end Comparison

/-- The state of a comparison: what has been captured, and how many levels down it is. -/
structure Progress where
  captures : Captures
  depth : Nat

namespace Progress

open Attempt

def enter (s : Progress) : Progress :=
  { s with depth := s.depth + 1 }

def leave (s : Progress) : Progress :=
  { s with depth := s.depth - 1 }

def onCaptures (a : Attempt Captures) : Attempt Progress := fun s =>
  ((a s.captures).1, { s with captures := (a s.captures).2 })

/-- Makes an attempt one level further down and comes back, whether or not it succeeds. At the limit
nothing is attempted. -/
def descend (limit : Nat) (a : Attempt Progress) : Attempt Progress := fun s =>
  if limit ≤ s.depth then (false, s) else ((a s.enter).1, (a s.enter).2.leave)

def validate (w : Wildcard) (source : Text) (skipped : Nat) (n : Node) : Attempt Progress :=
  onCaptures (w.bindOne source skipped n)

def validateRun (w : Wildcard) (source : Text) (ns : List Node) (offset : Nat) : Attempt Progress :=
  onCaptures (w.bindRun source ns offset)

section Lists

variable {α : Type} [Listed α]

def comparison (source : Text) (one : α → α → Attempt Progress) :
    Comparison α Wildcard α Progress where
  one := one
  run w cs offset := validateRun w source (cs.map Listed.bound) offset
  quantifier := Wildcard.quantifier
  takes w c := w.accepts source 0 (Listed.bound c)
  start c := (Listed.bound c).start
  stop c := (Listed.bound c).stop

def matchInOrder (p : Pattern) (source : Text) (one : α → α → Attempt Progress)
    (patterns candidates : List α) (parent : Node) : Attempt Progress :=
  let k := comparison source one
  k.inOrder ((candidates.getLast?.map k.stop).getD parent.start) (patterns.map p.element) candidates

def matchInAnyOrder (p : Pattern) (source : Text) (one : α → α → Attempt Progress)
    (patterns candidates : List α) (parent : Node) : Attempt Progress :=
  (comparison source one).anyOrder parent.start (patterns.map p.element) candidates

end Lists

def matchOptional (cmp : Node → Node → Attempt Progress) : Option Node → Option Node →
    Attempt Progress
  | none, _ => .succeed
  | some _, none => .fail
  | some a, some b => cmp a b

def matchTupleField (p : Pattern) (source : Text) (cmp : Node → Node → Attempt Progress)
    (f g : TupleField) : Attempt Progress :=
  .all [matchInAnyOrder p source cmp f.attributes g.attributes g.type,
    matchOptional cmp f.visibility g.visibility, cmp f.type g.type]

def matchTokenGroup (p : Pattern) (source : Text) (cmp : Node → Node → Attempt Progress)
    (g h : TokenGroup) : Attempt Progress :=
  matchInOrder p source cmp g.tokens h.tokens h.tree

def ask (p : Pattern) (source : Text) (cmp : Node → Node → Attempt Progress) (a b : Node) :
    Clause → Attempt Progress
  | .part part => matchOptional cmp (part.of a) (part.of b)
  | .elementsInOrder => matchInOrder p source cmp a.elements b.elements b
  | .elementsInAnyOrder => matchInAnyOrder p source cmp a.elements b.elements b
  | .childrenInOrder => matchInOrder p source cmp a.significantChildren b.significantChildren b
  | .attributes => matchInAnyOrder p source cmp a.outerAttributes b.outerAttributes b
  | .tupleFields =>
    matchInOrder p source (matchTupleField p source cmp) a.tupleFields b.tupleFields b
  | .tokenGroups =>
    matchInAnyOrder p source (matchTokenGroup p source cmp) a.tokenGroups b.tokenGroups b
  | c => onCaptures (p.ask source (fun _ _ => .fail) a b c)

def visit (p : Pattern) (source : Text) (cmp : Node → Node → Attempt Progress) (a b : Node) :
    Attempt Progress :=
  .all ((strategy a b).map (ask p source cmp a b))

def step (p : Pattern) (source : Text) (limit : Nat) (cmp : Node → Node → Attempt Progress)
    (a b : Node) : Attempt Progress :=
  match p.wildcard? a with
  | some w => validate w source 0 b
  | none => descend limit (visit p source cmp a b)

def within (p : Pattern) (source : Text) (limit : Nat) : Nat → Node → Node → Attempt Progress
  | 0 => step p source limit fun _ _ => .fail
  | n + 1 => step p source limit (within p source limit n)

/-- Compares a node of the pattern with a node of the source where the state says how deep the
comparison is. From no state can it go down more than `limit` levels. -/
def matchNodes (p : Pattern) (source : Text) (limit : Nat) : Node → Node → Attempt Progress :=
  within p source limit limit

theorem onCaptures_translation : Translation onCaptures where
  test _ := rfl
  andThen a b := by
    funext s
    rw [onCaptures, Attempt.andThen_apply, Attempt.andThen_apply]
    by_cases ha : (a s.captures).1 = true <;> simp [onCaptures, ha]
  firstOf as := by
    funext s
    induction as with
    | nil => rfl
    | cons a as ih =>
        rw [onCaptures, firstOf_cons, List.map_cons, firstOf_cons, ← ih]
        by_cases ha : (a s.captures).1 = true <;> simp [onCaptures, ha]

section Translated

variable {p : Pattern} {source : Text}

section Lists

variable {α : Type} [Listed α] (one : α → α → Attempt Captures) (patterns candidates : List α)
  (parent : Node)

theorem matchInOrder_onCaptures :
    matchInOrder p source (fun a b => onCaptures (one a b)) patterns candidates parent =
      onCaptures (p.matchInOrder source one patterns candidates parent) :=
  Comparison.inOrder_translate onCaptures_translation (k := Pattern.comparison source one) _ _ _

theorem matchInAnyOrder_onCaptures :
    matchInAnyOrder p source (fun a b => onCaptures (one a b)) patterns candidates parent =
      onCaptures (p.matchInAnyOrder source one patterns candidates parent) :=
  Comparison.anyOrder_translate onCaptures_translation (k := Pattern.comparison source one) _ _ _

end Lists

variable (cmp : Node → Node → Attempt Captures)

theorem matchOptional_onCaptures (a b : Option Node) :
    matchOptional (fun x y => onCaptures (cmp x y)) a b =
      onCaptures (Pattern.matchOptional cmp a b) := by
  cases a with
  | none => rfl
  | some x => cases b <;> rfl

theorem matchTupleField_onCaptures (f g : TupleField) :
    matchTupleField p source (fun x y => onCaptures (cmp x y)) f g =
      onCaptures (p.matchTupleField source cmp f g) := by
  rw [matchTupleField, Pattern.matchTupleField, onCaptures_translation.all,
    matchInAnyOrder_onCaptures, matchOptional_onCaptures]
  rfl

theorem ask_onCaptures (a b : Node) (c : Clause) :
    ask p source (fun x y => onCaptures (cmp x y)) a b c = onCaptures (p.ask source cmp a b c) := by
  cases c with
  | part q => exact matchOptional_onCaptures cmp _ _
  | elementsInOrder | childrenInOrder => exact matchInOrder_onCaptures cmp _ _ _
  | elementsInAnyOrder | attributes => exact matchInAnyOrder_onCaptures cmp _ _ _
  | tupleFields =>
      have hfields : matchTupleField p source (fun x y => onCaptures (cmp x y)) =
          fun f g => onCaptures (p.matchTupleField source cmp f g) :=
        funext₂ (matchTupleField_onCaptures cmp)
      rw [ask, hfields]
      exact matchInOrder_onCaptures _ _ _ _
  | tokenGroups =>
      have hgroups : matchTokenGroup p source (fun x y => onCaptures (cmp x y)) =
          fun g h => onCaptures (p.matchTokenGroup source cmp g h) :=
        funext₂ fun g h => matchInOrder_onCaptures cmp _ _ _
      rw [ask, hgroups]
      exact matchInAnyOrder_onCaptures _ _ _ _
  | kindAmong | marker | sameText | sameTokens | sameValue | genericParameter | segments
  | lastSegment | quotedName => rfl

theorem visit_onCaptures (a b : Node) :
    visit p source (fun x y => onCaptures (cmp x y)) a b =
      onCaptures (.all ((strategy a b).map (p.ask source cmp a b))) := by
  rw [visit, onCaptures_translation.all, List.map_map]
  exact congrArg Attempt.all (List.map_congr_left fun c _ => ask_onCaptures cmp a b c)

end Translated

/-- From any state at a depth the attempts do the same, and come back to that depth. -/
def AgreeAt (depth : Nat) (a b : Attempt Progress) : Prop :=
  ∀ s, s.depth = depth → a s = b s ∧ (a s).2.depth = depth

theorem agreeAt_congruence (depth : Nat) : Congruence (AgreeAt depth) where
  test _ _ hs := ⟨rfl, hs⟩
  andThen {a a' b b'} ha hb s hs := by
    obtain ⟨haa, hdepth⟩ := ha s hs
    rw [andThen_apply, andThen_apply, ← haa]
    split
    · exact hb _ hdepth
    · exact ⟨rfl, hdepth⟩
  firstOf h s hs := by
    induction h with
    | nil => exact ⟨rfl, hs⟩
    | cons ha _ ih =>
        obtain ⟨haa, hdepth⟩ := ha s hs
        rw [firstOf_cons, firstOf_cons, ← haa]
        split
        · exact ⟨rfl, hdepth⟩
        · exact ih

theorem onCaptures_agree (depth : Nat) (a : Attempt Captures) :
    AgreeAt depth (onCaptures a) (onCaptures a) :=
  fun _ hs => ⟨rfl, hs⟩

section Agreement

variable {p : Pattern} {source : Text} {depth : Nat}

section Lists

variable {α : Type} [Listed α] {one one' : α → α → Attempt Progress}
  (hone : ∀ a b, AgreeAt depth (one a b) (one' a b)) (patterns candidates : List α) (parent : Node)

theorem comparison_images (source : Text) (one one' : α → α → Attempt Progress) :
    Comparison.Images (comparison source one) (comparison source one') id id fun _ => True :=
  ⟨rfl, fun _ _ => rfl, fun _ => rfl⟩

include hone

theorem matchInOrder_agree :
    AgreeAt depth (matchInOrder p source one patterns candidates parent)
      (matchInOrder p source one' patterns candidates parent) := by
  have hones : ∀ a, .one a ∈ patterns.map p.element → ∀ b ∈ candidates,
      AgreeAt depth (one a b) (one' a b) := fun a _ b _ => hone a b
  have himages := Comparison.inOrder_images (agreeAt_congruence depth)
    (comparison_images source one one') (f := id)
    ((candidates.getLast?.map fun c => (Listed.bound c).stop).getD parent.start)
    (fun _ _ => trivial) hones fun w _ rest _ n => (List.map_id _).symm ▸ onCaptures_agree depth _
  rw [List.map_id, funext Element.map_id', List.map_id'] at himages
  exact himages

theorem matchInAnyOrder_agree :
    AgreeAt depth (matchInAnyOrder p source one patterns candidates parent)
      (matchInAnyOrder p source one' patterns candidates parent) := by
  have hones : ∀ a, .one a ∈ patterns.map p.element → ∀ b ∈ candidates,
      AgreeAt depth (one a b) (one' a b) := fun a _ b _ => hone a b
  have himages := Comparison.anyOrder_images (agreeAt_congruence depth)
    (comparison_images source one one') (f := id) parent.start (fun _ _ => trivial) hones
    fun w _ taken _ => (List.map_id _).symm ▸ onCaptures_agree depth _
  rw [List.map_id, funext Element.map_id', List.map_id'] at himages
  exact himages

end Lists

variable {cmp cmp' : Node → Node → Attempt Progress}
  (hcmp : ∀ x y, AgreeAt depth (cmp x y) (cmp' x y))

include hcmp

theorem matchOptional_agree (a b : Option Node) :
    AgreeAt depth (matchOptional cmp a b) (matchOptional cmp' a b) := by
  cases a with
  | none => exact (agreeAt_congruence depth).succeed
  | some x =>
      cases b with
      | none => exact (agreeAt_congruence depth).fail
      | some y => exact hcmp x y

theorem matchTupleField_agree (f g : TupleField) :
    AgreeAt depth (matchTupleField p source cmp f g) (matchTupleField p source cmp' f g) :=
  (agreeAt_congruence depth).all (.cons (matchInAnyOrder_agree hcmp _ _ _)
    (.cons (matchOptional_agree hcmp _ _) (.cons (hcmp _ _) .nil)))

theorem ask_agree (a b : Node) (c : Clause) :
    AgreeAt depth (ask p source cmp a b c) (ask p source cmp' a b c) := by
  cases c with
  | part q => exact matchOptional_agree hcmp _ _
  | elementsInOrder | childrenInOrder => exact matchInOrder_agree hcmp _ _ _
  | elementsInAnyOrder | attributes => exact matchInAnyOrder_agree hcmp _ _ _
  | tupleFields => exact matchInOrder_agree (matchTupleField_agree hcmp) _ _ _
  | tokenGroups => exact matchInAnyOrder_agree (fun g h => matchInOrder_agree hcmp _ _ _) _ _ _
  | kindAmong | marker | sameText | sameTokens | sameValue | genericParameter | segments
  | lastSegment | quotedName => exact onCaptures_agree depth _

theorem visit_agree (a b : Node) :
    AgreeAt depth (visit p source cmp a b) (visit p source cmp' a b) := by
  apply (agreeAt_congruence depth).all
  rw [List.forall₂_map_left_iff, List.forall₂_map_right_iff, List.forall₂_same]
  exact fun c _ => ask_agree hcmp a b c

end Agreement

section Counted

variable {p : Pattern} {source : Text} {limit : Nat}

/-- As many rounds as there are levels left do what the comparison does that is told how many levels
are left. -/
theorem within_apply {n : Nat} (a b : Node) {s : Progress} (h : limit ≤ n + s.depth) :
    within p source limit n a b s = onCaptures (p.compare source (limit - s.depth) a b) s := by
  induction n generalizing a b s with
  | zero =>
      have hroom : limit - s.depth = 0 := by omega
      rw [within, step, hroom, Pattern.compare]
      cases p.wildcard? a with
      | some w => rfl
      | none => exact if_pos (by omega)
  | succ n ih =>
      rw [within, step]
      by_cases hlimit : limit ≤ s.depth
      · rw [Nat.sub_eq_zero_of_le hlimit, Pattern.compare]
        cases p.wildcard? a with
        | some w => rfl
        | none => exact if_pos hlimit
      · obtain ⟨room, hroom⟩ : ∃ room, limit - s.depth = room + 1 :=
          Nat.exists_eq_succ_of_ne_zero (by omega)
        rw [hroom, Pattern.compare]
        cases p.wildcard? a with
        | some w => rfl
        | none =>
            have hagree : ∀ x y, AgreeAt s.enter.depth (within p source limit n x y)
                (fun t => onCaptures (p.compare source room x y) t) := by
              intro x y t ht
              have hdepth : t.depth = s.depth + 1 := ht
              rw [ih x y (by omega), hdepth, show limit - (s.depth + 1) = room by omega]
              exact ⟨rfl, hdepth⟩
            have hvisit : visit p source (within p source limit n) a b s.enter = _ :=
              (visit_agree hagree a b s.enter rfl).1
            rw [visit_onCaptures] at hvisit
            simp only [descend, if_neg hlimit, hvisit]
            rfl

theorem matchNodes_apply (a b : Node) (s : Progress) :
    matchNodes p source limit a b s = onCaptures (p.compare source (limit - s.depth) a b) s :=
  within_apply a b (Nat.le_add_right limit s.depth)

/-- The comparison is its own comparison of smaller nodes: the rounds are no limit besides the depth. -/
theorem matchNodes_eq : matchNodes p source limit = step p source limit (matchNodes p source limit) := by
  funext a b s
  have hnext : within p source limit (limit + 1) a b s = matchNodes p source limit a b s := by
    rw [within_apply a b (by omega), matchNodes_apply]
  rw [← hnext]
  rfl

end Counted

end Progress

end ShapeSearch
