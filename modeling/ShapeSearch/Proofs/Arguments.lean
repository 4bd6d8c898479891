import ShapeSearch.CommandLine.Options
import ShapeSearch.Proofs.Numerals
import ShapeSearch.Proofs.Outcomes

namespace ShapeSearch

structure Options.Valid (o : Options) : Prop where
  files : o.files ≠ []
  named {path : Text} (hpath : path ∈ o.files) : path ≠ []
  maxMatches {n : Nat} (hn : o.maxMatches = some n) : n < UInt64.size
  maxDepth {n : Nat} (hn : o.maxDepth = some n) : n < UInt64.size

def OutputFormat.name : OutputFormat → Text
  | human => "human".toList
  | json => "json".toList

namespace Switch

def flag (s : Switch) : Text :=
  "--".toList ++ s.name

theorem ofName?_name (s : Switch) : ofName? s.name = some s := by
  cases s <;> decide +kernel

theorem split_flag (s : Switch) : (s.flag.drop 2).takeWhile (· != '=') = s.name ∧
    (s.flag.drop 2).dropWhile (· != '=') = [] := by
  cases s <;> exact ⟨rfl, rfl⟩

end Switch

namespace Options

def limitArguments (s : Switch) (limit : Option Nat) : List Text :=
  limit.elim [] fun n => [s.flag, Text.decimal n]

def limitSwitches (s : Switch) (limit : Option Nat) : List (Switch × Text) :=
  limit.elim [] fun n => [(s, Text.decimal n)]

def arguments (o : Options) : List Text :=
  [Switch.format.flag, o.format.name] ++ limitArguments .maxMatches o.maxMatches
    ++ limitArguments .maxDepth o.maxDepth ++ (if o.ignoreCase then [Switch.ignoreCase.flag] else [])
    ++ "--".toList :: o.template :: o.files

def switches (o : Options) : List (Switch × Text) :=
  [(Switch.format, o.format.name)] ++ limitSwitches .maxMatches o.maxMatches
    ++ limitSwitches .maxDepth o.maxDepth ++ (if o.ignoreCase then [(Switch.ignoreCase, [])] else [])

end Options

variable {o : Options} {a b : Arguments} {switch : Switch} {value : Text}

namespace Arguments

theorem addAll_append (a : Arguments) (xs ys : List Text) :
    a.addAll (xs ++ ys) = (a.addAll xs).bind (·.addAll ys) := by
  induction xs generalizing a with
  | nil => rfl
  | cons x xs ih =>
      rw [List.cons_append, addAll, addAll]
      cases a.add x with
      | error e => rfl
      | ok next => exact ih next

theorem add_long (hdone : a.switchesDone = false) (hpending : a.pending = .none) (s : Switch) :
    a.add s.flag = a.addLong s.flag := by
  have hdashes : s.flag ≠ ['-', '-'] := by cases s <;> decide
  have hlong : "--".toList.isPrefixOf s.flag = true := by cases s <;> rfl
  simp only [add, hdone, hpending, hdashes, hlong, Bool.false_eq_true, if_false, if_true]

theorem add_flag (hdone : a.switchesDone = false) (hpending : a.pending = .none)
    (hswitch : switch ≠ .ignoreCase) : a.add switch.flag = .ok { a with pending := some switch } := by
  rw [add_long hdone hpending]
  simp only [addLong, switch.split_flag.1, switch.split_flag.2, switch.ofName?_name]
  cases switch with
  | ignoreCase => exact absurd rfl hswitch
  | format | maxMatches | maxDepth | logFilter | logFormat => rfl

theorem set_new (hnew : a.switches.lookup switch = .none) (hvalue : switch.allows value = true) :
    a.set switch value =
      .ok { a with switches := a.switches ++ [(switch, value)], pending := .none } := by
  have hapart : a.switches.any (·.1 == switch) = false := by
    rw [List.any_eq_false]
    intro x hx heq
    have hne := List.lookup_eq_none_iff.mp hnew x hx
    rw [eq_of_beq heq, bne_self_eq_false] at hne
    cases hne
  rw [set, hapart, if_neg Bool.false_ne_true, if_pos hvalue]

theorem add_pending (hdone : a.switchesDone = false) (hpending : a.pending = some switch)
    (hflag : looksLikeFlag value = false) : a.add value = a.set switch value := by
  simp only [add, hdone, hpending, hflag, Bool.false_eq_true, if_false]

theorem add_value (hdone : a.switchesDone = false) (hpending : a.pending = some switch)
    (hnew : a.switches.lookup switch = .none) (hvalue : switch.allows value = true)
    (hflag : looksLikeFlag value = false) :
    a.add value = .ok { a with switches := a.switches ++ [(switch, value)], pending := .none } :=
  (add_pending hdone hpending hflag).trans (set_new hnew hvalue)

theorem add_ignoreCase (hdone : a.switchesDone = false) (hpending : a.pending = .none)
    (hnew : a.switches.lookup .ignoreCase = .none) : a.add Switch.ignoreCase.flag =
      .ok { a with switches := a.switches ++ [(.ignoreCase, [])], pending := .none } := by
  rw [add_long hdone hpending]
  simp only [addLong, Switch.ignoreCase.split_flag.1, Switch.ignoreCase.split_flag.2,
    Switch.ofName?_name]
  exact set_new hnew rfl

theorem add_positional (hdone : a.switchesDone = true)
    (hvalue : a.positionals = [] ∨ value ≠ []) :
    a.add value = .ok { a with positionals := a.positionals ++ [value] } := by
  have hadd : a.add value = a.addPositional value := by rw [add, if_pos hdone]
  have hnamed : (value.isEmpty && !a.positionals.isEmpty) = false := by
    rcases hvalue with h | h
    · rw [h, List.isEmpty_nil, Bool.not_true, Bool.and_false]
    · rw [List.isEmpty_eq_false_iff.mpr h, Bool.false_and]
  rw [hadd, addPositional, hnamed, if_neg Bool.false_ne_true]

theorem addAll_positionals (hdone : a.switchesDone = true) {values : List Text}
    (hvalues : ∀ value ∈ values, value ≠ []) :
    a.addAll values = .ok { a with positionals := a.positionals ++ values } := by
  induction values generalizing a with
  | nil => rw [addAll, List.append_nil]
  | cons value values ih =>
      rw [addAll, add_positional hdone (.inr (hvalues value List.mem_cons_self))]
      simp only
      rw [ih _ fun v hv => hvalues v (List.mem_cons_of_mem value hv)]
      · rw [List.append_assoc]
        rfl
      · exact hdone

theorem looksLikeFlag_decimal (n : Nat) : looksLikeFlag (Text.decimal n) = false := by
  have hhead : (Text.decimal n).head? ≠ some '-' := by
    intro hdash
    exact absurd (Text.decimal_digits _ (List.mem_of_head? hdash)) (by decide)
  rw [looksLikeFlag, beq_eq_false_iff_ne.mpr hhead, Bool.false_and]

def ofSwitches (switches : List (Switch × Text)) : Arguments :=
  ⟨switches, [], .none, false⟩

theorem addAll_flag_value (switches : List (Switch × Text)) (hswitch : switch ≠ .ignoreCase)
    (hnew : switches.lookup switch = .none) (hvalue : switch.allows value = true)
    (hflag : looksLikeFlag value = false) :
    (ofSwitches switches).addAll [switch.flag, value] =
      .ok (ofSwitches (switches ++ [(switch, value)])) := by
  rw [addAll, add_flag rfl rfl hswitch]
  simp only [addAll]
  rw [add_value rfl rfl hnew hvalue hflag]
  rfl

theorem addAll_limit (switches : List (Switch × Text)) {limit : Option Nat}
    (hswitch : switch = .maxMatches ∨ switch = .maxDepth) (hnew : switches.lookup switch = .none)
    (hlimit : ∀ n, limit = some n → n < UInt64.size) :
    (ofSwitches switches).addAll (Options.limitArguments switch limit) =
      .ok (ofSwitches (switches ++ Options.limitSwitches switch limit)) := by
  cases limit with
  | none =>
      rw [Options.limitSwitches, Option.elim_none, List.append_nil]
      rfl
  | some n =>
      have hread := Text.readUnsigned?_decimal (hlimit n rfl)
      have hvalue : switch.allows (Text.decimal n) = true := by
        rcases hswitch with rfl | rfl
        · rw [Switch.allows, Switch.isLimit, hread, Option.isSome_some]
        · rw [Switch.allows, Switch.isLimit, hread, Option.isSome_some]
      have hother : switch ≠ .ignoreCase := by rcases hswitch with rfl | rfl <;> decide
      exact addAll_flag_value switches hother hnew hvalue (looksLikeFlag_decimal n)

end Arguments

namespace Options

open Arguments

theorem addAll_switches (ho : o.Valid) : Arguments.none.addAll
    ([Switch.format.flag, o.format.name] ++ limitArguments .maxMatches o.maxMatches
      ++ limitArguments .maxDepth o.maxDepth
      ++ (if o.ignoreCase then [Switch.ignoreCase.flag] else [])) = .ok (ofSwitches o.switches) := by
  have hallowed : Switch.allows o.format.name .format = true := by cases o.format <;> decide
  have hvalue : looksLikeFlag o.format.name = false := by cases o.format <;> decide
  have hformat := addAll_flag_value [] (by decide) rfl hallowed hvalue
  have hmatches := addAll_limit [(.format, o.format.name)] (.inl rfl) rfl fun _ => ho.maxMatches
  have hdepth := addAll_limit ([(.format, o.format.name)] ++ limitSwitches .maxMatches o.maxMatches)
    (.inr rfl) (by cases o.maxMatches <;> rfl) fun _ => ho.maxDepth
  have hnew : (ofSwitches ([(.format, o.format.name)] ++ limitSwitches .maxMatches o.maxMatches
      ++ limitSwitches .maxDepth o.maxDepth)).switches.lookup .ignoreCase = .none := by
    cases o.maxMatches <;> cases o.maxDepth <;> rfl
  have hempty : Arguments.none = ofSwitches [] := rfl
  rw [addAll_append, addAll_append, addAll_append, hempty, hformat, Except.bind, List.nil_append,
    hmatches, Except.bind, hdepth, Except.bind, switches]
  cases o.ignoreCase with
  | false =>
      rw [if_neg Bool.false_ne_true, if_neg Bool.false_ne_true, List.append_nil]
      rfl
  | true =>
      rw [if_pos rfl, if_pos rfl, addAll, add_ignoreCase rfl rfl hnew]
      rfl

theorem lookup_switches (o : Options) : o.switches.lookup .format = some o.format.name ∧
    o.switches.lookup .maxMatches = o.maxMatches.map Text.decimal ∧
      o.switches.lookup .maxDepth = o.maxDepth.map Text.decimal ∧
        (o.switches.lookup .ignoreCase).isSome = o.ignoreCase := by
  rw [switches]
  cases o.maxMatches <;> cases o.maxDepth <;> cases o.ignoreCase <;> exact ⟨rfl, rfl, rfl, rfl⟩

theorem limit?_switches (ho : o.Valid) (a : Arguments) (ha : a.switches = o.switches) :
    a.limit? .maxMatches = o.maxMatches ∧ a.limit? .maxDepth = o.maxDepth := by
  obtain ⟨-, hmatches, hdepth, -⟩ := o.lookup_switches
  have hread {limit : Option Nat} (hlimit : ∀ n, limit = some n → n < UInt64.size) :
      (limit.map Text.decimal).bind (Text.readUnsigned? 10 UInt64.size) = limit := by
    cases limit with
    | none => rfl
    | some n => exact Text.readUnsigned?_decimal (hlimit n rfl)
  rw [limit?, limit?, ha, hmatches, hdepth]
  exact ⟨hread fun _ => ho.maxMatches, hread fun _ => ho.maxDepth⟩

theorem addAll_arguments (ho : o.Valid) : Arguments.none.addAll o.arguments =
    .ok ⟨o.switches, o.template :: o.files, .none, true⟩ := by
  have hdashes : (ofSwitches o.switches).add "--".toList =
      .ok { ofSwitches o.switches with switchesDone := true } := rfl
  rw [arguments, addAll_append, addAll_switches ho, Except.bind, addAll, hdashes]
  simp only
  rw [addAll, add_positional rfl (.inl rfl)]
  simp only
  rw [addAll_positionals rfl fun _ => ho.named]
  rfl

/-- A command line that has been written out is read again. -/
theorem read_arguments (ho : o.Valid) : read o.arguments = .ok o := by
  obtain ⟨hmatches, hdepth⟩ := limit?_switches ho ⟨o.switches, o.template :: o.files, .none, true⟩ rfl
  obtain ⟨hname, -, -, hcase⟩ := o.lookup_switches
  have hformat : (if o.switches.lookup .format = some "json".toList then OutputFormat.json
      else .human) = o.format := by
    rw [hname]
    cases o.format <;> rfl
  rw [read, addAll_arguments ho, Except.bind]
  obtain ⟨template, files, format, maxMatches, maxDepth, ignoreCase⟩ := o
  cases files with
  | nil => exact absurd rfl ho.files
  | cons path files =>
      simp only [finish]
      rw [hmatches, hdepth, hformat, hcase]

end Options

namespace Arguments

theorem positionals_of_set (h : a.set switch value = .ok b) : b.positionals = a.positionals := by
  rw [set] at h
  split at h
  · cases h
  · split at h
    · cases h
      rfl
    · cases h

theorem positionals_of_addLong (h : a.addLong value = .ok b) : b.positionals = a.positionals := by
  simp only [addLong] at h
  split at h
  · split at h
    · cases h
    · split at h
      · cases h
      · cases h
  · split at h
    · exact positionals_of_set h
    · cases h
  · split at h
    · cases h
      rfl
    · exact positionals_of_set h

theorem positionals_of_add (h : a.add value = .ok b) :
    b.positionals = a.positionals ∨ a.addPositional value = .ok b := by
  rw [add] at h
  split at h
  · exact .inr h
  · split at h
    · split at h
      · cases h
      · exact .inl (positionals_of_set h)
    · split at h
      · cases h
        exact .inl rfl
      · split at h
        · exact .inl (positionals_of_addLong h)
        · split at h
          · cases h
          · exact .inr h

theorem named_of_add (h : a.add value = .ok b) (ha : ∀ path ∈ a.positionals.drop 1, path ≠ []) :
    ∀ path ∈ b.positionals.drop 1, path ≠ [] := by
  rcases positionals_of_add h with hsame | hadd
  · rwa [hsame]
  · rw [addPositional] at hadd
    split at hadd
    · cases hadd
    next hnamed =>
      cases hadd
      intro path hpath
      cases hpositionals : a.positionals with
      | nil =>
          rw [hpositionals] at hpath
          cases hpath
      | cons template files =>
          simp only [hpositionals, List.isEmpty_cons, Bool.not_false, Bool.and_true,
            List.isEmpty_iff] at hnamed
          rw [hpositionals] at ha hpath
          rcases List.mem_append.mp hpath with hold | hnew
          · exact ha path hold
          · rwa [List.mem_singleton.mp hnew]

theorem named_of_addAll {values : List Text} (h : a.addAll values = .ok b)
    (ha : ∀ path ∈ a.positionals.drop 1, path ≠ []) : ∀ path ∈ b.positionals.drop 1, path ≠ [] := by
  induction values generalizing a with
  | nil =>
      cases h
      exact ha
  | cons value values ih =>
      rw [addAll] at h
      split at h
      · cases h
      next next hnext => exact ih h (named_of_add hnext ha)

theorem limit?_lt {n : Nat} (h : a.limit? switch = some n) : n < UInt64.size := by
  obtain ⟨text, -, hread⟩ := Option.bind_eq_some_iff.mp h
  simp only [Text.readUnsigned?, Option.filter_eq_some_iff] at hread
  exact of_decide_eq_true hread.2

end Arguments

namespace Options

theorem valid_of_read {values : List Text} (h : read values = .ok o) : o.Valid := by
  rw [read] at h
  cases hall : Arguments.none.addAll values with
  | error e =>
      rw [hall] at h
      cases h
  | ok a =>
      rw [hall, Except.bind, Arguments.finish] at h
      split at h
      · cases h
      · cases h
      · cases h
      next template files hfiles _ hpositionals =>
        have hnamed := Arguments.named_of_addAll hall (fun _ hpath => absurd hpath List.not_mem_nil)
        rw [hpositionals] at hnamed
        cases h
        exact ⟨hfiles, fun hpath => hnamed _ hpath, fun hn => Arguments.limit?_lt hn,
          fun hn => Arguments.limit?_lt hn⟩

def alone (o : Options) (path : Text) : Options :=
  { o with files := [path] }

theorem Valid.alone (ho : o.Valid) {path : Text} (hpath : path ∈ o.files) : (o.alone path).Valid where
  files := List.cons_ne_nil path []
  named h := by
    rw [List.mem_singleton.mp h]
    exact ho.named hpath
  maxMatches := ho.maxMatches
  maxDepth := ho.maxDepth

end Options

end ShapeSearch
