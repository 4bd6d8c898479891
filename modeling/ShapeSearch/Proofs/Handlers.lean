import ShapeSearch.Proofs.Descendants

namespace ShapeSearch

namespace Tree

mutual

def decEq : (t u : Tree) → Decidable (t = u)
  | node l ts, node m us =>
    have := decEqAll ts us
    decidable_of_iff (l = m ∧ ts = us) (by rw [node.injEq])

def decEqAll : (ts us : List Tree) → Decidable (ts = us)
  | [], [] => isTrue rfl
  | [], _ :: _ | _ :: _, [] => isFalse nofun
  | t :: ts, u :: us =>
    have := decEq t u
    have := decEqAll ts us
    decidable_of_iff (t = u ∧ ts = us) (by rw [List.cons.injEq])

end

instance : DecidableEq Tree :=
  decEq

end Tree

deriving instance DecidableEq for Node

inductive NodeFilter where
  | any
  | genericParameter
  deriving DecidableEq, Repr

/-- A place in the syntax whose wildcards have a filter of their own. -/
inductive WildcardSlot where
  | pathExpression
  | typeParameter
  deriving DecidableEq, Repr

namespace WildcardSlot

def of? (n : Node) : Option WildcardSlot :=
  if n.isGenericParameter then some typeParameter
  else if n.isPathExpression then some pathExpression
  else none

def filters : List (WildcardSlot × NodeFilter) :=
  [(pathExpression, .any), (typeParameter, .genericParameter)]

end WildcardSlot

def NodeFilter.of (n : Node) : NodeFilter :=
  ((WildcardSlot.of? n).bind (WildcardSlot.filters.lookup ·)).getD any

theorem NodeFilter.of_eq (n : Node) :
    of n = if n.isGenericParameter then genericParameter else any := by
  rw [of, WildcardSlot.of?]
  split
  · rfl
  · split <;> rfl

/-- What a place of a pattern binds, and to which nodes. -/
structure Substitution where
  ofVariable : Variable
  filter : NodeFilter

def Substitution.wildcard (w : Substitution) : Wildcard :=
  ⟨w.ofVariable, w.filter == .genericParameter⟩

inductive Handler where
  | structural
  | substitution (w : Substitution)

def Handler.wildcard? : Handler → Option Wildcard
  | structural => none
  | substitution w => some w.wildcard

/-- What has been registered for nodes, newest first, and the nodes that a match stands against. -/
structure HandlerTable where
  handlers : List (Node × Handler)
  roots : List Node

namespace HandlerTable

def empty : HandlerTable :=
  ⟨[], []⟩

def handler? (t : HandlerTable) (n : Node) : Option Handler :=
  t.handlers.lookup n

/-- The handler of a node, or what `other` has for it if it is not registered. -/
def handlerOr (t : HandlerTable) (other : Node → Handler) (n : Node) : Handler :=
  (t.handler? n).getD (other n)

/-- A node that is not registered is taken for one without a wildcard. -/
def handler (t : HandlerTable) : Node → Handler :=
  t.handlerOr fun _ => .structural

def isMatchRoot (t : HandlerTable) (n : Node) : Bool :=
  t.roots.contains n

def insert (t : HandlerTable) (n : Node) (h : Handler) : HandlerTable :=
  { t with handlers := (n, h) :: t.handlers }

def markRoot (t : HandlerTable) (n : Node) : HandlerTable :=
  { t with roots := n :: t.roots }

theorem handler?_insert (t : HandlerTable) (n x : Node) (h : Handler) :
    (t.insert n h).handler? x = if x = n then some h else t.handler? x := by
  rw [handler?, insert, List.lookup_cons]
  by_cases hx : x = n
  · rw [if_pos hx, beq_iff_eq.mpr hx]
  · rw [if_neg hx, beq_eq_false_iff_ne.mpr hx]
    rfl

/-- A step that registers the nodes in `cover` with their handlers. -/
def Registers {β : Type} (handlerFor : Node → Handler) (cover : β → List Node)
    (f : HandlerTable → β → HandlerTable) : Prop :=
  ∀ t b x, (f t b).handler? x =
    if x ∈ cover b then some (handlerFor x) else t.handler? x

theorem Registers.foldl {β : Type} {handlerFor : Node → Handler} {cover : β → List Node}
    {f : HandlerTable → β → HandlerTable} (hf : Registers handlerFor cover f) :
    Registers handlerFor (·.flatMap cover) (List.foldl f) := by
  intro t bs x
  induction bs generalizing t with
  | nil => rfl
  | cons b bs ih =>
      simp only [List.foldl_cons, ih, hf t b, List.flatMap_cons, List.mem_append, ite_or]
      by_cases hrest : x ∈ bs.flatMap cover
      · rw [if_pos hrest, if_pos hrest, ite_self]
      · rw [if_neg hrest, if_neg hrest]

theorem roots_foldl {β : Type} {f : HandlerTable → β → HandlerTable}
    (hf : ∀ t b, (f t b).roots = t.roots) (t : HandlerTable) (bs : List β) :
    (bs.foldl f t).roots = t.roots := by
  induction bs generalizing t with
  | nil => rfl
  | cons b bs ih => rw [List.foldl_cons, ih, hf]

end HandlerTable

namespace Pattern

open HandlerTable

variable (p : Pattern)

def handlerFor (n : Node) : Handler :=
  match p.template.variableFor? (n.text p.parsed.text) with
  | some v => .substitution ⟨v, .of n⟩
  | none => .structural

def register (t : HandlerTable) (n : Node) : HandlerTable :=
  t.insert n (p.handlerFor n)

def registerBelow (t : HandlerTable) (n : Node) : HandlerTable :=
  n.below.foldl p.register t

def compileRoot (t : HandlerTable) (root : Node) : HandlerTable :=
  (p.registerBelow (root.outerAttributes.foldl p.registerBelow t) root).markRoot root

def handlers : HandlerTable :=
  p.roots.foldl p.compileRoot .empty

def matchRoots : List Node :=
  p.roots.filter p.handlers.isMatchRoot

def Registered (n : Node) : Prop :=
  ∃ r ∈ p.roots, n ∈ r.reach

theorem wildcard?_handlerFor (n : Node) : (p.handlerFor n).wildcard? = p.wildcard? n := by
  rw [handlerFor, wildcard?]
  cases p.template.variableFor? (n.text p.parsed.text) with
  | none => rfl
  | some v =>
      rw [NodeFilter.of_eq]
      cases h : n.isGenericParameter <;> simp [Handler.wildcard?, Substitution.wildcard]

theorem handlerFor_eq_substitution (n : Node) (w : Substitution) :
    p.handlerFor n = .substitution w ↔ w.filter = .of n ∧
      p.template.variableFor? (n.text p.parsed.text) = some w.ofVariable := by
  obtain ⟨v, filter⟩ := w
  rw [handlerFor]
  cases p.template.variableFor? (n.text p.parsed.text) with
  | none => simp
  | some u => simp [and_comm, eq_comm]

theorem register_registers : Registers p.handlerFor (fun n => [n]) p.register := by
  intro t n x
  rw [register, handler?_insert]
  by_cases h : x = n
  · rw [if_pos h, if_pos (List.mem_singleton.mpr h), h]
  · rw [if_neg h, if_neg (List.mem_singleton.not.mpr h)]

theorem registerBelow_registers : Registers p.handlerFor Node.below p.registerBelow := by
  intro t n x
  rw [registerBelow, p.register_registers.foldl]
  simp only [List.flatMap_singleton']

theorem compileRoot_registers : Registers p.handlerFor Node.reach p.compileRoot := by
  intro t r x
  have hroot : (p.compileRoot t r).handler? x =
      (p.registerBelow (r.outerAttributes.foldl p.registerBelow t) r).handler? x := rfl
  rw [hroot, p.registerBelow_registers, p.registerBelow_registers.foldl]
  simp only [Node.reach, List.flatMap_cons, List.mem_append, ite_or]

theorem handler?_handlers (n : Node) :
    p.handlers.handler? n =
      if n ∈ p.roots.flatMap Node.reach then some (p.handlerFor n) else none :=
  p.compileRoot_registers.foldl .empty p.roots n

variable {p}

theorem Registered.handler? {n : Node} (h : p.Registered n) :
    p.handlers.handler? n = some (p.handlerFor n) := by
  rw [handler?_handlers, if_pos (List.mem_flatMap.mpr h)]

theorem Registered.handlerOr {n : Node} (h : p.Registered n) (other : Node → Handler) :
    p.handlers.handlerOr other n = p.handlerFor n := by
  rw [HandlerTable.handlerOr, h.handler?]
  rfl

theorem registered_of_mem_roots {r : Node} (h : r ∈ p.roots) : p.Registered r :=
  ⟨r, h, r.mem_reach_self⟩

theorem registered_closed : Node.Closed p.Registered where
  child hn hy := by
    obtain ⟨r, hr, hn⟩ := hn
    exact ⟨r, hr, r.reach_closed.child hn hy⟩
  front hn hy := by
    obtain ⟨r, hr, hn⟩ := hn
    exact ⟨r, hr, r.reach_closed.front hn hy⟩

theorem roots_registerBelow (t : HandlerTable) (n : Node) :
    (p.registerBelow t n).roots = t.roots := by
  apply roots_foldl
  intro t n
  rfl

theorem roots_foldl_compileRoot (t : HandlerTable) (rs : List Node) :
    (rs.foldl p.compileRoot t).roots = rs.reverse ++ t.roots := by
  induction rs generalizing t with
  | nil => rfl
  | cons r rs ih =>
      have hroots : (p.compileRoot t r).roots = r :: t.roots := by
        rw [compileRoot, markRoot, roots_registerBelow, roots_foldl roots_registerBelow]
      rw [List.foldl_cons, ih, hroots, List.reverse_cons, List.append_assoc]
      rfl

theorem matchRoots_eq : p.matchRoots = p.roots := by
  rw [matchRoots, List.filter_eq_self]
  intro r hr
  rw [isMatchRoot, handlers, roots_foldl_compileRoot]
  simpa [HandlerTable.empty] using hr

end Pattern

end ShapeSearch
