import Mathlib.Data.List.Forall2
import ShapeSearch.Matching.Wildcard
import ShapeSearch.Template.Segment

namespace ShapeSearch

/-- A change of names that makes no two names one. A name that becomes empty is erased. -/
structure Renaming where
  name : Text → Text
  nameless : name [] = []
  injective {m n : Text} (h : name m = name n) (hm : name m ≠ []) : m = n
  spelled {n : Text} (h : n.all Segment.isNameChar = true) : (name n).all Segment.isNameChar = true

namespace Renaming

variable (r : Renaming)

def Erases (n : Text) : Prop :=
  r.name n = []

instance (n : Text) : Decidable (r.Erases n) :=
  inferInstanceAs (Decidable (_ = _))

def captures (s : Captures) : Captures :=
  s.filterMap fun x => if r.Erases x.1 then none else some (r.name x.1, x.2)

theorem captures_append (s t : Captures) : r.captures (s ++ t) = r.captures s ++ r.captures t :=
  List.filterMap_append

theorem captures_single_of_erases {n : Text} (h : r.Erases n) (b : Binding) :
    r.captures [(n, b)] = [] := by
  simp [captures, h]

theorem captures_single {n : Text} (h : ¬r.Erases n) (b : Binding) :
    r.captures [(n, b)] = [(r.name n, b)] := by
  simp [captures, h]

theorem captures_mono {s t : Captures} (h : s <+: t) : r.captures s <+: r.captures t :=
  h.filterMap _

theorem lookup_captures {n : Text} (hn : ¬r.Erases n) (s : Captures) :
    (r.captures s).lookup (r.name n) = s.lookup n := by
  induction s with
  | nil => rfl
  | cons x s ih =>
      obtain ⟨m, b⟩ := x
      have hcons : r.captures ((m, b) :: s) = r.captures [(m, b)] ++ r.captures s :=
        r.captures_append [(m, b)] s
      by_cases hm : r.Erases m
      · have hne : (n == m) = false := beq_eq_false_iff_ne.mpr fun h => hn (h ▸ hm)
        rw [hcons, r.captures_single_of_erases hm, List.nil_append, ih, List.lookup_cons, hne]
      · have heq : (r.name n == r.name m) = (n == m) := by
          rw [Bool.eq_iff_iff, beq_iff_eq, beq_iff_eq]
          exact ⟨fun h => r.injective h hn, fun h => by rw [h]⟩
        rw [hcons, r.captures_single hm, List.singleton_append, List.lookup_cons, heq,
          List.lookup_cons, ih]

end Renaming

/-- Among these names none that is erased stands twice. -/
def Renaming.Once (r : Renaming) (ns : List Text) : Prop :=
  ∀ n ∈ ns, r.Erases n → ns.count n ≤ 1

instance (r : Renaming) (ns : List Text) : Decidable (r.Once ns) :=
  inferInstanceAs (Decidable (∀ n ∈ ns, _ → _))

namespace Renaming.Once

variable {r : Renaming} {ns ms : List Text}

theorem of_sublist (h : r.Once ms) (hns : ns.Sublist ms) : r.Once ns :=
  fun n hn herased => Nat.le_trans (hns.count_le n) (h n (hns.subset hn) herased)

theorem of_perm (h : r.Once ms) (hns : ns.Perm ms) : r.Once ns := by
  intro n hn herased
  rw [hns.count_eq]
  exact h n (hns.subset hn) herased

theorem left (h : r.Once (ns ++ ms)) : r.Once ns :=
  h.of_sublist (List.sublist_append_left ns ms)

theorem right (h : r.Once (ns ++ ms)) : r.Once ms :=
  h.of_sublist (List.sublist_append_right ns ms)

theorem apart (h : r.Once (ns ++ ms)) (n : Text) (hn : n ∈ ms) (herased : r.Erases n) : n ∉ ns := by
  intro hn'
  have hcount := h n (List.mem_append_left ms hn') herased
  have hpos := List.count_pos_iff.mpr hn
  have hpos' := List.count_pos_iff.mpr hn'
  rw [List.count_append] at hcount
  omega

end Renaming.Once

end ShapeSearch
