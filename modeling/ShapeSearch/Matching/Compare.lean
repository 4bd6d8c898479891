import ShapeSearch.Matching.Strategy
import ShapeSearch.Matching.Wildcard

namespace ShapeSearch

/-- Members of lists in which a wildcard can stand for a run. -/
class Listed (α : Type) where
  /-- The node that a member is, if it is nothing but one node. -/
  node? : α → Option Node
  /-- The node that is bound in the place of a member. -/
  bound : α → Node

instance : Listed Node where
  node? := some
  bound n := n

instance : Listed TupleField where
  node? f := if f.attributes.isEmpty && f.visibility.isNone then some f.type else none
  bound f := f.type

instance : Listed TokenGroup where
  node? g := match g.tokens with
    | [n] => some n
    | _ => none
  bound g := g.tokens.head?.getD g.tree

namespace Pattern

variable {α : Type} [Listed α]

/-- A member of a pattern's list is a run if it is a wildcard that does not stand for just one
node. -/
def element (p : Pattern) (a : α) : Element α Wildcard :=
  match (Listed.node? a).bind p.wildcard? with
  | some w => if w.quantifier.isSingle then .one a else .run w
  | none => .one a

def comparison (source : Text) (one : α → α → Attempt Captures) :
    Comparison α Wildcard α Captures where
  one := one
  run w cs offset := w.bindRun source (cs.map Listed.bound) offset
  quantifier := Wildcard.quantifier
  takes w c := w.accepts source 0 (Listed.bound c)
  start c := (Listed.bound c).start
  stop c := (Listed.bound c).stop

def matchInOrder (p : Pattern) (source : Text) (one : α → α → Attempt Captures)
    (patterns candidates : List α) (parent : Node) : Attempt Captures :=
  let k := comparison source one
  k.inOrder ((candidates.getLast?.map k.stop).getD parent.start) (patterns.map p.element) candidates

def matchInAnyOrder (p : Pattern) (source : Text) (one : α → α → Attempt Captures)
    (patterns candidates : List α) (parent : Node) : Attempt Captures :=
  (comparison source one).anyOrder parent.start (patterns.map p.element) candidates

/-- A part that a pattern does not have is not asked for. -/
def matchOptional (compare : Node → Node → Attempt Captures) : Option Node → Option Node →
    Attempt Captures
  | none, _ => .succeed
  | some _, none => .fail
  | some a, some b => compare a b

def matchTupleField (p : Pattern) (source : Text) (compare : Node → Node → Attempt Captures)
    (f g : TupleField) : Attempt Captures :=
  .all [p.matchInAnyOrder source compare f.attributes g.attributes g.type,
    matchOptional compare f.visibility g.visibility, compare f.type g.type]

def matchTokenGroup (p : Pattern) (source : Text) (compare : Node → Node → Attempt Captures)
    (g h : TokenGroup) : Attempt Captures :=
  p.matchInOrder source compare g.tokens h.tokens h.tree

def matchQuotedName (p : Pattern) (source : Text) (a b : Node) : Attempt Captures :=
  match (a.childOfKind? "identifier").bind p.wildcard? with
  | some w => w.bindOne source 1 b
  | none => .test (a.text p.parsed.text == b.text source)

/-- Asks what the node `a` of the pattern demands of the node `b`, where smaller nodes are compared
by `compare`. -/
def ask (p : Pattern) (source : Text) (compare : Node → Node → Attempt Captures) (a b : Node) :
    Clause → Attempt Captures
  | .kindAmong kinds => .test (kinds.contains b.kind)
  | .marker kind => .test (a.hasChildOfKind kind == b.hasChildOfKind kind)
  | .sameText => .test (a.text p.parsed.text == b.text source)
  | .sameTokens => .test (a.tree.tokenText p.parsed.text == b.tree.tokenText source)
  | .sameValue =>
    .test ((Literal.read a.kind (a.text p.parsed.text)).agrees
      (Literal.read b.kind (b.text source)))
  | .genericParameter => .test b.isGenericParameter
  | .segments => .test (b.isScoped || b.isLeaf)
  | .lastSegment =>
    .test (b.isPath && a.text p.parsed.text == b.tree.lastSegment.label.text source)
  | .part part => matchOptional compare (part.of a) (part.of b)
  | .elementsInOrder => p.matchInOrder source compare a.elements b.elements b
  | .elementsInAnyOrder => p.matchInAnyOrder source compare a.elements b.elements b
  | .childrenInOrder =>
    p.matchInOrder source compare a.significantChildren b.significantChildren b
  | .attributes => p.matchInAnyOrder source compare a.outerAttributes b.outerAttributes b
  | .tupleFields =>
    p.matchInOrder source (p.matchTupleField source compare) a.tupleFields b.tupleFields b
  | .tokenGroups =>
    p.matchInAnyOrder source (p.matchTokenGroup source compare) a.tokenGroups b.tokenGroups b
  | .quotedName => p.matchQuotedName source a b

/-- Compares a node of the pattern with a node of the source. A wildcard takes the node; anything
else is asked for by its strategy, no deeper than `room` levels. -/
def compare (p : Pattern) (source : Text) : Nat → Node → Node → Attempt Captures
  | 0, a, b =>
    match p.wildcard? a with
    | some w => w.bindOne source 0 b
    | none => .fail
  | room + 1, a, b =>
    match p.wildcard? a with
    | some w => w.bindOne source 0 b
    | none => .all ((strategy a b).map (p.ask source (compare p source room) a b))

end Pattern

end ShapeSearch
