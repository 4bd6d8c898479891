import ShapeSearch.Proofs.JsonRoundTrip
import ShapeSearch.Proofs.Runs
import ShapeSearch.Proofs.Trials
import ShapeSearch.Tree.Forest

namespace ShapeSearch

namespace Text

def octets (t : Text) : List UInt8 :=
  t.flatMap String.utf8EncodeChar

theorem octets_append (t u : Text) : (t ++ u).octets = t.octets ++ u.octets :=
  List.flatMap_append

theorem utf8EncodeChar_printable {c : Char} (hc : 32 ≤ c.toNat) :
    ∀ b ∈ String.utf8EncodeChar c, 0x20 ≤ b := by
  have hbyte {n : Nat} (hlow : 32 ≤ n) (hhigh : n < 256) : (0x20 : UInt8) ≤ UInt8.ofNat n := by
    rw [UInt8.le_iff_toNat_le, UInt8.toNat_ofNat_of_lt' hhigh]
    exact hlow
  change 32 ≤ c.val.toNat at hc
  rw [String.utf8EncodeChar]
  split_ifs <;> simp only [List.forall_mem_cons, List.not_mem_nil, false_imp_iff, implies_true,
    and_true]
  · exact hbyte hc (by omega)
  · exact ⟨hbyte (by omega) (by omega), hbyte (by omega) (by omega)⟩
  · exact ⟨hbyte (by omega) (by omega), hbyte (by omega) (by omega), hbyte (by omega) (by omega)⟩
  · exact ⟨hbyte (by omega) (by omega), hbyte (by omega) (by omega), hbyte (by omega) (by omega),
      hbyte (by omega) (by omega)⟩

theorem octets_printable {t : Text} (h : ∀ c ∈ t, 32 ≤ c.toNat) : ∀ b ∈ t.octets, 0x20 ≤ b := by
  intro b hb
  obtain ⟨c, hc, hb⟩ := List.mem_flatMap.mp hb
  exact utf8EncodeChar_printable (h c hc) b hb

theorem lines_append_break {t : Text} (ht : '\n' ∉ t) (rest : Text) :
    lines (t ++ '\n' :: rest) = t :: lines rest := by
  induction t with
  | nil => rfl
  | cons c t ih =>
      rw [List.mem_cons, not_or] at ht
      obtain ⟨hc, ht⟩ := ht
      have hc : c ≠ '\n' := fun h => hc h.symm
      rw [List.cons_append, lines.eq_3 _ _ hc, ih ht]

theorem lines_flatMap {α : Type} {line : α → Text} {xs : List α} (h : ∀ x ∈ xs, '\n' ∉ line x) :
    lines (xs.flatMap fun x => line x ++ ['\n']) = xs.map line := by
  induction xs with
  | nil => rfl
  | cons x xs ih =>
      obtain ⟨hx, hxs⟩ := List.forall_mem_cons.mp h
      rw [List.flatMap_cons, List.append_assoc, List.singleton_append, lines_append_break hx,
        ih hxs, List.map_cons]

theorem inOrder_trans {t u v : Text} (htu : inOrder t u = true) (huv : inOrder u v = true) :
    inOrder t v = true := by
  induction t generalizing u v with
  | nil => rfl
  | cons c t ih =>
      cases u with
      | nil => cases htu
      | cons d u =>
          cases v with
          | nil => cases huv
          | cons e v =>
              simp only [inOrder, Bool.or_eq_true, Bool.and_eq_true, decide_eq_true_eq,
                beq_iff_eq] at htu huv ⊢
              rcases htu with htu | ⟨rfl, htu⟩
              · rcases huv with huv | ⟨rfl, -⟩
                · exact .inl (Nat.lt_trans htu huv)
                · exact .inl htu
              · rcases huv with huv | ⟨rfl, huv⟩
                · exact .inl huv
                · exact .inr ⟨rfl, ih htu huv⟩

theorem inOrder_total (t u : Text) : inOrder t u = true ∨ inOrder u t = true := by
  induction t generalizing u with
  | nil => exact .inl rfl
  | cons c t ih =>
      cases u with
      | nil => exact .inr rfl
      | cons d u =>
          simp only [inOrder, Bool.or_eq_true, Bool.and_eq_true, decide_eq_true_eq, beq_iff_eq]
          rcases Nat.lt_trichotomy c.toNat d.toNat with h | h | h
          · exact .inl (.inl h)
          · obtain rfl := Char.toNat_inj.mp h
            exact (ih u).imp (fun h => .inr ⟨rfl, h⟩) fun h => .inr ⟨rfl, h⟩
          · exact .inr (.inl h)

end Text

namespace Captures

open Attempt

/-- No name is bound twice where none was. -/
def KeepsApart (a : Attempt Captures) : Prop :=
  ∀ s, (s.map Prod.fst).Nodup → ((a s).2.map Prod.fst).Nodup

theorem keepsApart_congruence : Congruence fun a _ => KeepsApart a where
  test _ _ hs := hs
  andThen {a a' b b'} ha hb s hs := by
    rw [andThen_apply]
    split
    · exact hb _ (ha s hs)
    · exact ha s hs
  firstOf h s hs := by
    induction h with
    | nil => exact hs
    | cons ha _ ih =>
        rw [firstOf_cons]
        split
        · exact ha s hs
        · exact ih

theorem bind_keepsApart (name : Text) (b : Binding) : KeepsApart (bind name b) := by
  intro s hs
  rw [bind]
  split
  · exact hs
  · split
    next hfree =>
      rw [List.map_append]
      refine List.nodup_append.mpr ⟨hs, List.pairwise_singleton _ _, fun a ha c hc => ?_⟩
      obtain ⟨x, hx, rfl⟩ := List.mem_map.mp ha
      have hne : name ≠ x.1 := bne_iff_ne.mp (List.lookup_eq_none_iff.mp hfree x hx)
      rw [List.mem_singleton.mp hc]
      exact hne.symm
    next => exact hs

end Captures

theorem Wildcard.bindOne_keepsApart (w : Wildcard) (source : Text) (skipped : Nat) (n : Node) :
    Captures.KeepsApart (w.bindOne source skipped n) := by
  intro s hs
  rw [bindOne]
  split
  · exact Captures.bind_keepsApart _ _ s hs
  · exact hs

theorem Wildcard.bindRun_keepsApart (w : Wildcard) (source : Text) (ns : List Node) (offset : Nat) :
    Captures.KeepsApart (w.bindRun source ns offset) := by
  intro s hs
  rw [bindRun]
  split
  · exact Captures.bind_keepsApart _ _ s hs
  · exact hs

namespace Pattern

theorem compare_keepsApart (p : Pattern) (source : Text) (room : Nat) (a b : Node) :
    Captures.KeepsApart (p.compare source room a b) :=
  compare_related Captures.keepsApart_congruence (.refl p) (fun _ _ w hw => ⟨hw,
    fun _ _ => w.bindOne_keepsApart source _ _, fun _ _ => w.bindRun_keepsApart source _ _⟩) b

theorem follow_keepsApart {cmp : Node → Node → Attempt Captures}
    (hcmp : ∀ a b, Captures.KeepsApart (cmp a b)) {roots : List Node} {next : Option Node}
    {s : Captures} {m : Match} (h : follow cmp roots next s = some m)
    (hs : (s.map Prod.fst).Nodup) : (m.captures.map Prod.fst).Nodup := by
  induction roots generalizing next s m with
  | nil =>
      rw [follow, Option.some.injEq] at h
      exact h ▸ hs
  | cons r roots ih =>
      cases next with
      | none => cases h
      | some n =>
          obtain ⟨-, rest, hrest, rfl⟩ := follow_cons_eq_some.mp h
          have hrest' : (rest.captures.map Prod.fst).Nodup := ih hrest (hcmp r n s hs)
          exact hrest'

theorem nodup_captures {p : Pattern} {s : Source} {m : Match} (h : m ∈ p.findAll s) :
    (m.captures.map Prod.fst).Nodup := by
  obtain ⟨n, -, hm⟩ := (Reports.all h).exists_matchAt?
  obtain ⟨-, -, hfollow⟩ := matchAt?_eq_some_iff.mp hm
  exact follow_keepsApart (p.compare_keepsApart s.text _) hfollow List.nodup_nil

end Pattern

namespace Record

/-- Whether the names stand one after another in their order, each once. -/
def Ordered (r : Record) : Prop :=
  r.bindings.Pairwise fun a b => a.1 ≠ b.1 ∧ Text.inOrder a.1 b.1 = true

theorem ordered_ofMatch {p : Pattern} {s : Source} {m : Match} (h : m ∈ p.findAll s) (path : Text) :
    (ofMatch path s.text m).Ordered := by
  have hperm := List.mergeSort_perm m.captures fun a b => Text.inOrder a.1 b.1
  have hsorted : m.sortedCaptures.Pairwise fun a b => Text.inOrder a.1 b.1 = true :=
    @List.pairwise_mergeSort _ (fun a b : Text × Binding => Text.inOrder a.1 b.1)
      (fun _ _ _ => Text.inOrder_trans) (fun a b => by simpa using Text.inOrder_total a.1 b.1) _
  have hapart : m.sortedCaptures.Pairwise fun a b => a.1 ≠ b.1 :=
    List.pairwise_map.mp ((hperm.map Prod.fst).nodup_iff.mpr (Pattern.nodup_captures h))
  exact List.pairwise_map.mpr (hapart.and hsorted)

open Json

theorem valid_json (r : Record) : r.json.Valid := by
  refine .object ?_
  simp only [List.forall_mem_cons, List.not_mem_nil, false_imp_iff, implies_true, and_true]
  refine ⟨.string _, valid_natural _, valid_natural _, .string _, .object fun m hm => ?_⟩
  obtain ⟨b, -, rfl⟩ := List.mem_map.mp hm
  exact .string b.2

def binding? (m : Text × Json) : Option (Text × Text) :=
  m.2.text?.map fun t => (m.1, t)

def ofJson? (j : Json) : Option Record := do
  let path ← (← j.member? "path".toList).text?
  let line ← (← j.member? "line".toList).natural?
  let column ← (← j.member? "column".toList).natural?
  let text ← (← j.member? "text".toList).text?
  let bindings ← (← (← j.member? "bindings".toList).members?).mapM binding?
  return ⟨path, ⟨line, column⟩, text, bindings⟩

theorem mapM_binding? (bindings : List (Text × Text)) :
    (bindings.map fun b => (b.1, Json.string b.2)).mapM binding? = some bindings := by
  induction bindings with
  | nil => rfl
  | cons b bindings ih =>
      rw [List.map_cons, List.mapM_cons, ih]
      rfl

theorem natural?_natural (n : Nat) : (natural n).natural? = some n :=
  Text.readDigits?_decimal n

theorem ofJson?_json (r : Record) : ofJson? r.json = some r := by
  have hpath : (r.json.member? "path".toList).bind text? = some r.path := rfl
  have hline : (r.json.member? "line".toList).bind natural? = some r.position.line :=
    natural?_natural _
  have hcolumn : (r.json.member? "column".toList).bind natural? = some r.position.column :=
    natural?_natural _
  have htext : (r.json.member? "text".toList).bind text? = some r.text := rfl
  have hbindings : (r.json.member? "bindings".toList).bind members? =
      some (r.bindings.map fun b => (b.1, .string b.2)) := rfl
  simp only [ofJson?, Option.bind_eq_bind, ← Option.bind_assoc, hpath, hline, hcolumn, htext,
    hbindings, Option.bind_some, mapM_binding?]
  rfl

/-- What is printed for records, an object on each line. -/
def jsonLines (rs : List Record) : Text :=
  rs.flatMap OutputFormat.json.write

def readLines? (t : Text) : Option (List Record) :=
  t.lines.mapM fun line => (Json.read? line).bind ofJson?

theorem lines_jsonLines (rs : List Record) :
    (jsonLines rs).lines = rs.map fun r => r.json.written :=
  Text.lines_flatMap fun r _ hmem => absurd (printable_written r.valid_json _ hmem) (by decide)

theorem octets_jsonLines (rs : List Record) :
    (jsonLines rs).octets = rs.flatMap fun r => r.json.written.octets ++ [0x0A] := by
  rw [jsonLines, Text.octets, List.flatMap_assoc]
  exact List.flatMap_congr fun r _ => Text.octets_append r.json.written ['\n']

theorem readLines?_jsonLines (rs : List Record) : readLines? (jsonLines rs) = some rs := by
  rw [readLines?, lines_jsonLines]
  induction rs with
  | nil => rfl
  | cons r rs ih =>
      rw [List.map_cons, List.mapM_cons, read?_written r.valid_json, Option.bind_some,
        ofJson?_json, ih]
      rfl

theorem jsonLines_injective : Function.Injective jsonLines := by
  intro rs rs' h
  exact Option.some.inj (by rw [← readLines?_jsonLines rs, h, readLines?_jsonLines])

end Record

namespace Options

variable (grammar : Grammar) (files : Files) (p : Pattern)

theorem ordered_records (paths : List Text) : ∀ r ∈ records grammar files p paths, r.Ordered := by
  intro r hr
  obtain ⟨path, -, hr⟩ := List.mem_flatMap.mp hr
  split at hr
  · cases hr
  next text _ =>
    obtain ⟨m, hm, rfl⟩ := List.mem_map.mp hr
    exact Record.ordered_ofMatch hm path

end Options

namespace Record

/-- Records are told one a line: no byte of them is a control but the line feed behind each, and
reading the lines gives them back. What a search prints is told in this way, of records with their
names in order. -/
theorem jsonLines_read_back (rs : List Record) :
    (jsonLines rs).lines = rs.map (fun r => r.json.written) ∧
      (jsonLines rs).octets = rs.flatMap (fun r => r.json.written.octets ++ [0x0A]) ∧
      (∀ r ∈ rs, ∀ b ∈ r.json.written.octets, 0x20 ≤ b) ∧
      readLines? (jsonLines rs) = some rs ∧
      (∀ rs', jsonLines rs = jsonLines rs' ↔ rs = rs') ∧
      ∀ grammar files arguments o p, Options.read arguments = .ok o →
        Pattern.compile grammar o.config o.template = .ok p → o.format = .json →
          (CommandLine.run grammar files arguments).output =
              jsonLines (Options.records grammar files p o.files) ∧
            ∀ r ∈ Options.records grammar files p o.files, r.Ordered := by
  refine ⟨lines_jsonLines rs, octets_jsonLines rs, fun r _ => ?_, readLines?_jsonLines rs,
    fun rs' => jsonLines_injective.eq_iff, ?_⟩
  · exact Text.octets_printable (Json.printable_written r.valid_json)
  · intro grammar files arguments o p hread hcompile hformat
    refine ⟨?_, Options.ordered_records grammar files p o.files⟩
    rw [CommandLine.run, hread]
    dsimp only
    rw [Options.run_eq hcompile, Outcome.ofTally, Options.searchFiles_output_records, hformat,
      jsonLines]

/-- A name that is all quotes, breaks and controls, of a file with a match on two lines. -/
def brokenPath : Text :=
  "\x01\"é\\\n.rs".toList

def brokenFiles : Files := fun _ => .ok "((a,\nb), a);".toList

def brokenArguments : List Text :=
  ["--format".toList, "json".toList, "(('_y, '_x), '_y);".toList, brokenPath]

def brokenOptions : Options :=
  ⟨"(('_y, '_x), '_y);".toList, [brokenPath], .json, none, none, false⟩

theorem jsonLines_read_back_of_breaks : ∃ p,
    Options.read brokenArguments = .ok brokenOptions ∧
      Pattern.compile Pattern.tupleGrammar brokenOptions.config brokenOptions.template = .ok p ∧
        (Options.records Pattern.tupleGrammar brokenFiles p [brokenPath]).map
            (fun r => (r.path, r.text)) = [(brokenPath, "((a,\nb), a);".toList)] ∧
          readLines? (CommandLine.run Pattern.tupleGrammar brokenFiles brokenArguments).output =
            some (Options.records Pattern.tupleGrammar brokenFiles p [brokenPath]) := by
  have hread : (Options.read brokenArguments).toOption = some brokenOptions := by
    decide +kernel
  have hrecords : (Pattern.compile Pattern.tupleGrammar brokenOptions.config
      brokenOptions.template).toOption.map (fun p =>
        (Options.records Pattern.tupleGrammar brokenFiles p [brokenPath]).map
          fun r => (r.path, r.text)) = some [(brokenPath, "((a,\nb), a);".toList)] := by
    decide +kernel
  obtain ⟨p, hp, hrecords⟩ := Option.map_eq_some_iff.mp hrecords
  have hread := ok_of_toOption hread
  have hp := ok_of_toOption hp
  obtain ⟨-, -, -, hlines, -, hrun⟩ :=
    jsonLines_read_back (Options.records Pattern.tupleGrammar brokenFiles p [brokenPath])
  have houtput := (hrun _ brokenFiles _ _ p hread hp rfl).1
  exact ⟨p, hread, hp, hrecords, houtput ▸ hlines⟩

end Record

end ShapeSearch
