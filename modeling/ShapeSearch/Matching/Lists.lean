import ShapeSearch.Template.Segment

namespace ShapeSearch

/-- A trial on a state. It tells whether it succeeded and what became of the state. -/
abbrev Attempt (σ : Type) := σ → Bool × σ

namespace Attempt

variable {σ : Type}

def succeed : Attempt σ :=
  fun s => (true, s)

def fail : Attempt σ :=
  fun s => (false, s)

def test (b : Bool) : Attempt σ :=
  fun s => (b, s)

def andThen (a b : Attempt σ) : Attempt σ := fun s =>
  match a s with
  | (true, next) => b next
  | (false, next) => (false, next)

def all : List (Attempt σ) → Attempt σ
  | [] => succeed
  | a :: rest => andThen a (all rest)

/-- The first attempt to succeed. All begin with the same state, and it stays if all fail. -/
def firstOf : List (Attempt σ) → Attempt σ
  | [] => fail
  | a :: rest => fun s =>
    match a s with
    | (true, next) => (true, next)
    | (false, _) => firstOf rest s

theorem firstOf_of_false {as : List (Attempt σ)} {s : σ} (h : (firstOf as s).1 = false) :
    (firstOf as s).2 = s := by
  induction as with
  | nil => rfl
  | cons a rest ih =>
    simp only [firstOf] at h ⊢
    split at h
    · simp at h
    · next hb => simpa [hb] using ih h

end Attempt

/-- An element of a list of patterns: one that stands for one candidate, or a wildcard that stands
for a run of them. -/
inductive Element (P W : Type) where
  | one (p : P)
  | run (w : W)

namespace Element

variable {P W : Type}

def ones : List (Element P W) → List P
  | [] => []
  | one p :: es => p :: ones es
  | run _ :: es => ones es

def runs : List (Element P W) → List W
  | [] => []
  | one _ :: es => runs es
  | run w :: es => w :: runs es

end Element

/-- How elements are compared with candidates. A run is bound at an offset that matters if the run
is empty. -/
structure Comparison (P W C σ : Type) where
  one : P → C → Attempt σ
  run : W → List C → Nat → Attempt σ
  quantifier : W → Quantifier
  takes : W → C → Bool
  start : C → Nat
  stop : C → Nat

/-- The lengths that a run can have in front of `n` candidates, longest first. -/
def Quantifier.lengths (q : Quantifier) (n : Nat) : List Nat :=
  (List.range (Nat.min q.max n + 1 - q.min)).map (Nat.min q.max n - ·)

namespace Comparison

variable {P W C σ : Type}

/-- Where an empty run stands: at the next candidate, if there is one. -/
def anchor (k : Comparison P W C σ) (fallback : Nat) : List C → Nat
  | [] => fallback
  | c :: _ => k.start c

/-- Compares elements with candidates, in order and to the end of both. Runs are as long as they
can be; `fallback` is the offset behind the last candidate. -/
def inOrder (k : Comparison P W C σ) (fallback : Nat) : List (Element P W) → List C → Attempt σ
  | [], cs => .test cs.isEmpty
  | .one _ :: _, [] => .fail
  | .one p :: es, c :: cs => .firstOf [.andThen (k.one p c) (inOrder k fallback es cs)]
  | .run w :: es, cs =>
    .firstOf (((k.quantifier w).lengths cs.length).map fun n =>
      .andThen (k.run w (cs.take n) (k.anchor fallback cs)) (inOrder k fallback es (cs.drop n)))

def selections : List C → List (C × List C)
  | [] => []
  | c :: cs => (c, cs) :: (selections cs).map fun (d, rest) => (d, c :: rest)

/-- The ways to put a candidate into one of the wildcards' runs, each with what is in it. -/
def placements (k : Comparison P W C σ) (c : C) : List (W × List C) → List (List (W × List C))
  | [] => []
  | (w, taken) :: rest =>
    (if taken.length < (k.quantifier w).max && k.takes w c then [(w, taken ++ [c]) :: rest]
      else [])
      ++ (placements k c rest).map ((w, taken) :: ·)

def bindRuns (k : Comparison P W C σ) (offset : Nat) (runs : List (W × List C)) : Attempt σ :=
  .all (runs.map fun (w, taken) => k.run w taken offset)

def share (k : Comparison P W C σ) (offset : Nat) : List C → List (W × List C) → Attempt σ
  | [], runs => .firstOf [k.bindRuns offset runs]
  | c :: cs, runs => .firstOf ((k.placements c runs).map (share k offset cs))

/-- Pairs patterns with candidates, each with one of its own, and shares out the candidates that are
left. -/
def pairUp (k : Comparison P W C σ) (offset : Nat) (wildcards : List W) :
    List P → List C → Attempt σ
  | [], cs =>
    if wildcards.isEmpty then .test cs.isEmpty else k.share offset cs (wildcards.map (·, []))
  | p :: ps, cs =>
    .firstOf ((selections cs).map fun (c, rest) =>
      .andThen (k.one p c) (pairUp k offset wildcards ps rest))

/-- Compares elements with candidates whatever their order. No elements ask for nothing; otherwise
every candidate is used once. -/
def anyOrder (k : Comparison P W C σ) (offset : Nat) (es : List (Element P W)) (cs : List C) :
    Attempt σ :=
  if es.isEmpty then .succeed else k.pairUp offset (Element.runs es) (Element.ones es) cs

end Comparison

end ShapeSearch
