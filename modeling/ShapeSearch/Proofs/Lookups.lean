import ShapeSearch.Proofs.Correspondence
import ShapeSearch.Proofs.Handlers
import ShapeSearch.Search

namespace ShapeSearch

/-- A computation that has no other way to the handlers of nodes than to look them up. -/
inductive Lookups (α : Type) where
  | done (a : α)
  | look (n : Node) (next : Handler → Lookups α)

namespace Lookups

variable {α β : Type}

def bind (x : Lookups α) (f : α → Lookups β) : Lookups β :=
  match x with
  | done a => f a
  | look n next => look n fun h => (next h).bind f

def lookUp (n : Node) : Lookups Handler :=
  look n done

def run (answer : Node → Handler) : Lookups α → α
  | done a => a
  | look n next => (next (answer n)).run answer

def asked (answer : Node → Handler) : Lookups α → List Node
  | done _ => []
  | look n next => n :: (next (answer n)).asked answer

/-- The computation comes to `a`, and looks for no handlers but those of the nodes in `S`. -/
structure Gives (answer : Node → Handler) (S : Node → Prop) (x : Lookups α) (a : α) : Prop where
  run : x.run answer = a
  asked : ∀ n ∈ x.asked answer, S n

variable {answer : Node → Handler} {S : Node → Prop}

theorem gives_done (a : α) : Gives answer S (done a) a :=
  ⟨rfl, nofun⟩

theorem gives_look {n : Node} {next : Handler → Lookups α} {a : α} (hn : S n)
    (h : Gives answer S (next (answer n)) a) : Gives answer S (look n next) a :=
  ⟨h.run, List.forall_mem_cons.mpr ⟨hn, h.asked⟩⟩

theorem gives_lookUp {n : Node} (hn : S n) : Gives answer S (lookUp n) (answer n) :=
  gives_look hn (gives_done (answer n))

theorem Gives.bind {x : Lookups α} {f : α → Lookups β} {a : α} {b : β} (hx : Gives answer S x a)
    (hf : Gives answer S (f a) b) : Gives answer S (x.bind f) b := by
  induction x with
  | done a' =>
      obtain rfl : a' = a := hx.run
      exact hf
  | look n next ih =>
      obtain ⟨hn, hasked⟩ := List.forall_mem_cons.mp hx.asked
      exact gives_look hn (ih _ ⟨hx.run, hasked⟩)

end Lookups

/-- A trial on a state that can look up handlers on the way. -/
abbrev Inquiry (σ : Type) := σ → Lookups (Bool × σ)

namespace Inquiry

variable {σ α : Type}

def of (a : Attempt σ) : Inquiry σ :=
  fun s => .done (a s)

def after (x : Lookups α) (next : α → Inquiry σ) : Inquiry σ :=
  fun s => x.bind fun a => next a s

def andThen (i j : Inquiry σ) : Inquiry σ := fun s =>
  (i s).bind fun r =>
    match r with
    | (true, next) => j next
    | (false, next) => .done (false, next)

def all : List (Inquiry σ) → Inquiry σ
  | [] => of .succeed
  | i :: rest => andThen i (all rest)

def firstOf : List (Inquiry σ) → Inquiry σ
  | [] => of .fail
  | i :: rest => fun s =>
    (i s).bind fun r =>
      match r with
      | (true, next) => .done (true, next)
      | (false, _) => firstOf rest s

section Lists

variable [Listed α]

def classify (a : α) : Lookups (Element α Wildcard) :=
  match Listed.node? a with
  | none => .done (.one a)
  | some n => (Lookups.lookUp n).bind fun h =>
    match h.wildcard? with
    | some w => .done (if w.quantifier.isSingle then .one a else .run w)
    | none => .done (.one a)

def classifyAll : List α → Lookups (List (Element α Wildcard))
  | [] => .done []
  | a :: as => (classify a).bind fun e => (classifyAll as).bind fun es => .done (e :: es)

def runs (source : Text) : Comparison α Wildcard α Captures :=
  Pattern.comparison source fun _ _ => .fail

def inOrder (source : Text) (one : α → α → Inquiry Captures) (fallback : Nat) :
    List α → List α → Inquiry Captures
  | [], cs => of (.test cs.isEmpty)
  | a :: as, cs => after (classify a) fun e =>
    match e with
    | .one b =>
      match cs with
      | [] => of .fail
      | c :: cs => firstOf [andThen (one b c) (inOrder source one fallback as cs)]
    | .run w =>
      firstOf ((w.quantifier.lengths cs.length).map fun n =>
        andThen (of ((runs source).run w (cs.take n) ((runs source).anchor fallback cs)))
          (inOrder source one fallback as (cs.drop n)))

def pairUp (source : Text) (one : α → α → Inquiry Captures) (offset : Nat) (ws : List Wildcard) :
    List α → List α → Inquiry Captures
  | [], cs =>
    of (if ws.isEmpty then .test cs.isEmpty else (runs source).share offset cs (ws.map (·, [])))
  | a :: as, cs =>
    firstOf ((Comparison.selections cs).map fun (c, rest) =>
      andThen (one a c) (pairUp source one offset ws as rest))

def matchInOrder (source : Text) (one : α → α → Inquiry Captures) (patterns candidates : List α)
    (parent : Node) : Inquiry Captures :=
  inOrder source one ((candidates.getLast?.map (runs source).stop).getD parent.start) patterns
    candidates

def matchInAnyOrder (source : Text) (one : α → α → Inquiry Captures) (patterns candidates : List α)
    (parent : Node) : Inquiry Captures :=
  if patterns.isEmpty then of .succeed
  else after (classifyAll patterns) fun es =>
    pairUp source one parent.start (Element.runs es) (Element.ones es) candidates

end Lists

section Nodes

variable (p : Pattern) (source : Text)

def matchOptional (cmp : Node → Node → Inquiry Captures) : Option Node → Option Node →
    Inquiry Captures
  | none, _ => of .succeed
  | some _, none => of .fail
  | some a, some b => cmp a b

def matchTupleField (cmp : Node → Node → Inquiry Captures) (f g : TupleField) : Inquiry Captures :=
  all [matchInAnyOrder source cmp f.attributes g.attributes g.type,
    matchOptional cmp f.visibility g.visibility, cmp f.type g.type]

def matchTokenGroup (cmp : Node → Node → Inquiry Captures) (g h : TokenGroup) : Inquiry Captures :=
  matchInOrder source cmp g.tokens h.tokens h.tree

def matchQuotedName (a b : Node) : Inquiry Captures :=
  match a.childOfKind? "identifier" with
  | none => of (.test (a.text p.parsed.text == b.text source))
  | some name => after (.lookUp name) fun h =>
    match h.wildcard? with
    | some w => of (w.bindOne source 1 b)
    | none => of (.test (a.text p.parsed.text == b.text source))

def ask (cmp : Node → Node → Inquiry Captures) (a b : Node) : Clause → Inquiry Captures
  | .part part => matchOptional cmp (part.of a) (part.of b)
  | .elementsInOrder => matchInOrder source cmp a.elements b.elements b
  | .elementsInAnyOrder => matchInAnyOrder source cmp a.elements b.elements b
  | .childrenInOrder => matchInOrder source cmp a.significantChildren b.significantChildren b
  | .attributes => matchInAnyOrder source cmp a.outerAttributes b.outerAttributes b
  | .tupleFields => matchInOrder source (matchTupleField source cmp) a.tupleFields b.tupleFields b
  | .tokenGroups =>
    matchInAnyOrder source (matchTokenGroup source cmp) a.tokenGroups b.tokenGroups b
  | .quotedName => matchQuotedName p source a b
  | c => of (p.ask source (fun _ _ => .fail) a b c)

def compare : Nat → Node → Node → Inquiry Captures
  | 0, a, b => after (.lookUp a) fun h =>
    match h.wildcard? with
    | some w => of (w.bindOne source 0 b)
    | none => of .fail
  | room + 1, a, b => after (.lookUp a) fun h =>
    match h.wildcard? with
    | some w => of (w.bindOne source 0 b)
    | none => all ((strategy a b).map (ask p source (compare room) a b))

def follow (cmp : Node → Node → Inquiry Captures) : List Node → Option Node → Captures →
    Lookups (Option Match)
  | [], _, s => .done (some ⟨[], s⟩)
  | _ :: _, none, _ => .done none
  | root :: roots, some n, s =>
    (cmp root n s).bind fun r =>
      match r with
      | (true, next) => (follow cmp roots n.nextItem? next).bind fun m =>
        .done (m.map fun m => ⟨n :: m.nodes, m.captures⟩)
      | (false, _) => .done none

/-- Looks for the match that begins at a node, and for nothing about the pattern's nodes but their
handlers and their texts. -/
def matchAt? (n : Node) : Lookups (Option Match) :=
  if n.isAttributeItem || n.label.extra then .done none
  else follow (compare p source p.config.maxDepth) p.matchRoots (some n) []

end Nodes

/-- From every state the trial does what the attempt does, and looks for no handlers but those of the
nodes in `S`. -/
def Performs (answer : Node → Handler) (S : Node → Prop) (i : Inquiry σ) (a : Attempt σ) : Prop :=
  ∀ s, Lookups.Gives answer S (i s) (a s)

section Performs

open Lookups

variable {answer : Node → Handler} {S : Node → Prop}

theorem performs_of (a : Attempt σ) : Performs answer S (of a) a :=
  fun s => gives_done (a s)

theorem performs_after {x : Lookups α} {x' : α} {next : α → Inquiry σ} {a : Attempt σ}
    (hx : Gives answer S x x') (h : Performs answer S (next x') a) :
    Performs answer S (after x next) a :=
  fun s => hx.bind (h s)

theorem Performs.andThen {i j : Inquiry σ} {a b : Attempt σ} (hi : Performs answer S i a)
    (hj : Performs answer S j b) : Performs answer S (andThen i j) (.andThen a b) := by
  intro s
  have hfirst := hi s
  rw [Attempt.andThen_apply]
  generalize a s = r at hfirst
  obtain ⟨_ | _, next⟩ := r
  · exact hfirst.bind (gives_done (false, next))
  · exact hfirst.bind (hj next)

theorem performs_all {is : List (Inquiry σ)} {as : List (Attempt σ)}
    (h : List.Forall₂ (Performs answer S) is as) : Performs answer S (all is) (.all as) := by
  induction h with
  | nil => exact performs_of _
  | cons hi _ ih => exact hi.andThen ih

theorem performs_firstOf {is : List (Inquiry σ)} {as : List (Attempt σ)}
    (h : List.Forall₂ (Performs answer S) is as) :
    Performs answer S (firstOf is) (.firstOf as) := by
  induction h with
  | nil => exact performs_of _
  | @cons i a is as hi _ ih =>
      intro s
      have hfirst := hi s
      rw [Attempt.firstOf_cons]
      generalize a s = r at hfirst
      obtain ⟨_ | _, next⟩ := r
      · exact hfirst.bind (ih s)
      · exact hfirst.bind (gives_done (true, next))

theorem performs_firstOf_map {ι : Type} {xs : List ι} {f : ι → Inquiry σ} {g : ι → Attempt σ}
    (h : ∀ x ∈ xs, Performs answer S (f x) (g x)) :
    Performs answer S (firstOf (xs.map f)) (.firstOf (xs.map g)) := by
  apply performs_firstOf
  rw [List.forall₂_map_left_iff, List.forall₂_map_right_iff, List.forall₂_same]
  exact h

end Performs

section Matching

open Lookups

variable {p : Pattern} {source : Text} {answer : Node → Handler} {S : Node → Prop}

section Lists

variable [Listed α] {one : α → α → Inquiry Captures} {one' : α → α → Attempt Captures} {as : List α}

theorem share_runs (offset : Nat) (cs : List α) (rs : List (Wildcard × List α)) :
    (runs source).share offset cs rs = (Pattern.comparison source one').share offset cs rs := by
  have himages : Comparison.Images (runs source) (Pattern.comparison source one') id id
      fun _ : α => True := ⟨rfl, fun _ _ => rfl, fun _ => rfl⟩
  have hshare : (runs source).share offset cs rs = (Pattern.comparison source one').share offset
      (cs.map id) (rs.map fun x => (x.1, x.2.map id)) :=
    Comparison.share_images Attempt.eq_congruence himages offset (fun _ _ => trivial)
      fun x _ taken _ => by rw [List.map_id]; rfl
  simpa only [List.map_id, List.map_id'] using hshare

theorem performs_pairUp (hone : ∀ a ∈ as, ∀ c, Performs answer S (one a c) (one' a c))
    (offset : Nat) (ws : List Wildcard) (cs : List α) :
    Performs answer S (pairUp source one offset ws as cs)
      ((Pattern.comparison source one').pairUp offset ws as cs) := by
  induction as generalizing cs with
  | nil =>
      rw [pairUp, share_runs, Comparison.pairUp]
      exact performs_of _
  | cons a as ih =>
      obtain ⟨hfirst, hrest⟩ := List.forall_mem_cons.mp hone
      exact performs_firstOf_map fun x _ => (hfirst x.1).andThen (ih hrest x.2)

variable (hanswer : ∀ n, S n → (answer n).wildcard? = p.wildcard? n)

include hanswer

theorem gives_classify {a : α} (ha : ∀ n, Listed.node? a = some n → S n) :
    Gives answer S (classify a) (p.element a) := by
  rw [classify, Pattern.element]
  cases hn : Listed.node? a with
  | none => exact gives_done _
  | some n =>
      have hS : S n := ha n hn
      apply (gives_lookUp hS).bind
      rw [hanswer n hS, Option.bind_some]
      cases p.wildcard? n with
      | none => exact gives_done _
      | some w => exact gives_done _

variable (hnode : ∀ a ∈ as, ∀ n, Listed.node? a = some n → S n)

include hnode

theorem gives_classifyAll : Gives answer S (classifyAll as) (as.map p.element) := by
  induction as with
  | nil => exact gives_done _
  | cons a as ih =>
      obtain ⟨hfirst, hrest⟩ := List.forall_mem_cons.mp hnode
      exact (gives_classify hanswer hfirst).bind ((ih hrest).bind (gives_done _))

variable (hone : ∀ a ∈ as, ∀ c, Performs answer S (one a c) (one' a c))

include hone

theorem performs_inOrder (fallback : Nat) (cs : List α) :
    Performs answer S (inOrder source one fallback as cs)
      ((Pattern.comparison source one').inOrder fallback (as.map p.element) cs) := by
  induction as generalizing cs with
  | nil => exact performs_of _
  | cons a as ih =>
      obtain ⟨hnode, hnodes⟩ := List.forall_mem_cons.mp hnode
      obtain ⟨hone, hones⟩ := List.forall_mem_cons.mp hone
      apply performs_after (gives_classify hanswer hnode)
      rw [List.map_cons]
      cases he : p.element a with
      | one b =>
          obtain rfl := Pattern.eq_of_element_eq_one he
          cases cs with
          | nil => exact performs_of _
          | cons c cs =>
              exact performs_firstOf (.cons ((hone c).andThen (ih hnodes hones cs)) .nil)
      | run w =>
          exact performs_firstOf_map fun n _ => (performs_of _).andThen (ih hnodes hones _)

variable (candidates : List α) (parent : Node)

theorem performs_matchInOrder : Performs answer S (matchInOrder source one as candidates parent)
    (p.matchInOrder source one' as candidates parent) :=
  performs_inOrder hanswer hnode hone _ candidates

theorem performs_matchInAnyOrder :
    Performs answer S (matchInAnyOrder source one as candidates parent)
      (p.matchInAnyOrder source one' as candidates parent) := by
  rw [matchInAnyOrder, Pattern.matchInAnyOrder, Comparison.anyOrder, List.isEmpty_map]
  split
  · exact performs_of _
  · apply performs_after (gives_classifyAll hanswer hnode)
    apply performs_pairUp
    intro a ha
    obtain ⟨b, hb, he⟩ := List.mem_map.mp (Element.mem_ones.mp ha)
    obtain rfl := Pattern.eq_of_element_eq_one he
    exact hone a hb

end Lists

section Nodes

variable {cmp : Node → Node → Inquiry Captures} {cmp' : Node → Node → Attempt Captures}
  (hanswer : ∀ n, S n → (answer n).wildcard? = p.wildcard? n)
  (hcmp : ∀ x, S x → ∀ y, Performs answer S (cmp x y) (cmp' x y))

include hcmp in
theorem performs_matchOptional {a : Option Node} (ha : ∀ x ∈ a.toList, S x) (b : Option Node) :
    Performs answer S (matchOptional cmp a b) (Pattern.matchOptional cmp' a b) := by
  cases a with
  | none => exact performs_of _
  | some x =>
      cases b with
      | none => exact performs_of _
      | some y => exact hcmp x (ha x (List.mem_singleton_self x)) y

include hanswer

theorem performs_matchQuotedName {a : Node}
    (hname : ∀ x ∈ (a.childOfKind? "identifier").toList, S x) (b : Node) :
    Performs answer S (matchQuotedName p source a b) (p.matchQuotedName source a b) := by
  rw [matchQuotedName, Pattern.matchQuotedName]
  cases hx : a.childOfKind? "identifier" with
  | none => exact performs_of _
  | some x =>
      have hS : S x := hname x (Option.mem_toList.mpr hx)
      apply performs_after (gives_lookUp hS)
      rw [hanswer x hS, Option.bind_some]
      cases p.wildcard? x <;> exact performs_of _

include hcmp

section Parts

variable {as : List Node} (has : ∀ a ∈ as, S a) (bs : List Node) (parent : Node)

include has

theorem performs_nodesInOrder : Performs answer S (matchInOrder source cmp as bs parent)
    (p.matchInOrder source cmp' as bs parent) := by
  apply performs_matchInOrder hanswer
  · rintro a ha n ⟨⟩
    exact has a ha
  · exact fun a ha b => hcmp a (has a ha) b

theorem performs_nodesInAnyOrder : Performs answer S (matchInAnyOrder source cmp as bs parent)
    (p.matchInAnyOrder source cmp' as bs parent) := by
  apply performs_matchInAnyOrder hanswer
  · rintro a ha n ⟨⟩
    exact has a ha
  · exact fun a ha b => hcmp a (has a ha) b

end Parts

theorem performs_matchTupleField {f : TupleField} (hf : ∀ x ∈ f.nodes, S x) (g : TupleField) :
    Performs answer S (matchTupleField source cmp f g) (p.matchTupleField source cmp' f g) := by
  refine performs_all (.cons ?_ (.cons ?_ (.cons ?_ .nil)))
  · exact performs_nodesInAnyOrder hanswer hcmp (fun x hx => hf x (f.attributes_subset_nodes hx)) _ _
  · exact performs_matchOptional hcmp (fun x hx => hf x (f.visibility_subset_nodes hx)) _
  · exact hcmp _ (hf _ f.type_mem_nodes) _

theorem performs_ask {a : Node} {c : Clause} (hc : ∀ x ∈ c.compared a, S x) (b : Node) :
    Performs answer S (ask p source cmp a b c) (p.ask source cmp' a b c) := by
  cases c with
  | part q => exact performs_matchOptional hcmp hc _
  | elementsInOrder | childrenInOrder => exact performs_nodesInOrder hanswer hcmp hc _ _
  | elementsInAnyOrder | attributes => exact performs_nodesInAnyOrder hanswer hcmp hc _ _
  | tupleFields =>
      have hnodes : ∀ f ∈ a.tupleFields, ∀ x ∈ f.nodes, S x :=
        fun f hf x hx => hc x (TupleField.nodes_subset_compared hf hx)
      apply performs_matchInOrder hanswer
      · intro f hf x hx
        apply hnodes f hf
        rw [Pattern.nodes_of_node? f x hx]
        exact List.mem_singleton_self x
      · exact fun f hf g => performs_matchTupleField hanswer hcmp (hnodes f hf) g
  | tokenGroups =>
      have htokens : ∀ g ∈ a.tokenGroups, ∀ x ∈ g.tokens, S x :=
        fun g hg x hx => hc x (TokenGroup.tokens_subset_compared hg hx)
      apply performs_matchInAnyOrder hanswer
      · intro g hg x hx
        apply htokens g hg
        rw [Pattern.tokens_of_node? g x hx]
        exact List.mem_singleton_self x
      · exact fun g hg h => performs_nodesInOrder hanswer hcmp (htokens g hg) _ _
  | quotedName => exact performs_matchQuotedName hanswer hc b
  | kindAmong | marker | sameText | sameTokens | sameValue | genericParameter | segments
  | lastSegment => exact performs_of _

end Nodes

variable (hanswer : ∀ n, S n → (answer n).wildcard? = p.wildcard? n) (hS : Node.Stable S)

include hanswer hS

theorem performs_compare (room : Nat) {a : Node} (ha : S a) (b : Node) :
    Performs answer S (compare p source room a b) (p.compare source room a b) := by
  induction room generalizing a b with
  | zero =>
      apply performs_after (gives_lookUp ha)
      rw [hanswer a ha, Pattern.compare]
      cases p.wildcard? a <;> exact performs_of _
  | succ room ih =>
      apply performs_after (gives_lookUp ha)
      rw [hanswer a ha, Pattern.compare]
      cases p.wildcard? a with
      | some w => exact performs_of _
      | none =>
          apply performs_all
          rw [List.forall₂_map_left_iff, List.forall₂_map_right_iff, List.forall₂_same]
          intro c _
          exact performs_ask hanswer (fun x hx y => ih hx y) (fun x hx => hS a x ha c hx) b

theorem gives_follow (room : Nat) {roots : List Node} (hroots : ∀ r ∈ roots, S r)
    (n : Option Node) (s : Captures) :
    Gives answer S (follow (compare p source room) roots n s)
      (Pattern.follow (p.compare source room) roots n s) := by
  induction roots generalizing n s with
  | nil => exact gives_done _
  | cons r roots ih =>
      obtain ⟨hr, hroots⟩ := List.forall_mem_cons.mp hroots
      cases n with
      | none => exact gives_done _
      | some n =>
          have hfirst : Gives answer S (compare p source room r n s) (p.compare source room r n s) :=
            performs_compare hanswer hS room hr n s
          rw [Pattern.follow]
          generalize p.compare source room r n s = result at hfirst
          obtain ⟨_ | _, next⟩ := result
          · exact hfirst.bind (gives_done _)
          · exact hfirst.bind ((ih hroots n.nextItem? next).bind (gives_done _))

end Matching

end Inquiry

namespace Pattern

open Inquiry

variable (p : Pattern) (source : Text)

theorem gives_matchAt? (n : Node) (other : Node → Handler) :
    Lookups.Gives (p.handlers.handlerOr other) p.Registered (Inquiry.matchAt? p source n)
      (p.matchAt? source n) := by
  rw [Inquiry.matchAt?, matchAt?, p.matchRoots_eq]
  split
  · exact Lookups.gives_done _
  · apply gives_follow
    · intro x hx
      rw [hx.handlerOr other, wildcard?_handlerFor]
    · exact registered_closed.stable
    · exact fun r hr => registered_of_mem_roots hr

/-- A match finds what it finds by the handlers that were registered. Whatever there might be for
other nodes makes no difference, and no other node is looked up. The handler of a node that is looked
up is a wildcard's, with the filter of the node's own place, if and only if the text of the node
stands for a variable. -/
theorem matchAt?_handlers (n : Node) :
    (Inquiry.matchAt? p source n).run p.handlers.handler = p.matchAt? source n ∧
      (∀ other, (Inquiry.matchAt? p source n).run (p.handlers.handlerOr other) =
        p.matchAt? source n) ∧
      ∀ x ∈ (Inquiry.matchAt? p source n).asked p.handlers.handler,
        (p.handlers.handler? x).isSome ∧ ∀ w : Substitution,
          p.handlers.handler? x = some (.substitution w) ↔
            w.filter = .of x ∧
              p.template.variableFor? (x.text p.parsed.text) = some w.ofVariable := by
  have hgives := p.gives_matchAt? source n
  refine ⟨(hgives _).run, fun other => (hgives other).run, fun x hx => ?_⟩
  have hx : p.Registered x := (hgives _).asked x hx
  rw [hx.handler?]
  exact ⟨rfl, fun w => (Option.some.injEq _ _).to_iff.trans (p.handlerFor_eq_substitution x w)⟩

/-- The template `continue \''_a;`. -/
def labelled : Pattern where
  written := "continue \\''_a;".toList
  template := ⟨"continue '__ssr_var_0__;".toList, [⟨['a'], none, none⟩], [0]⟩
  parsed := ⟨"continue '__ssr_var_0__;".toList, .named "source_file" none 0 24
    [.named "expression_statement" none 0 24 [
      .named "continue_expression" none 0 23 [.token "continue" 0 8,
        .named "label" none 9 23 [.token "'" 9 10, .named "identifier" none 10 23 []]],
      .token ";" 23 24]]⟩
  wrapped := false
  config := .default

/-- Of a label, its name is looked up too. -/
example : (labelled.roots.flatMap fun r =>
    (Inquiry.matchAt? labelled labelled.parsed.text r).asked labelled.handlers.handler).map (·.kind) =
      ["expression_statement", "continue_expression", "label", "identifier"] := by decide

end Pattern

end ShapeSearch
